import SuperTinyKernel.Library.Tiling
import SuperTinyKernel.Memory.BytePool

set_option linter.unusedSectionVars false

namespace SuperTinyKernel.BytePool

open Tiling Function List

namespace Config

variable (c : Config)

theorem align_pos : 0 < c.align := Nat.two_pow_pos _

theorem align_four : c.align % 4 = 0 := by
  obtain ⟨k,more⟩ := Nat.exists_eq_add_of_le c.wide
  rw [align,more,Nat.pow_add]
  exact Nat.mul_mod_right 4 _

theorem four_le_align : 4 ≤ c.align := Nat.le_of_dvd c.align_pos (Nat.dvd_of_mod_eq_zero c.align_four)

theorem eight_le_header : 8 ≤ c.headerSize := by
  unfold headerSize
  split <;> omega

theorem header_aligned : c.headerSize % c.align = 0 := by
  unfold headerSize
  split
  · exact Nat.mod_self _
  · rename_i small
    have few : c.exponent ≤ 3 := by
      by_contra many
      have large : 2 ^ 4 ≤ 2 ^ c.exponent := Nat.pow_le_pow_right Nat.two_pos (by omega)
      exact small (Nat.lt_of_lt_of_le (by decide) large)
    have wide := c.wide
    have cases : c.exponent = 2 ∨ c.exponent = 3 := by omega
    rcases cases with two | three
    · rw [align,two]
      rfl
    · rw [align,three]
      rfl

theorem guard_le : c.guardSize ≤ 4 := by
  unfold guardSize
  split <;> omega

theorem trim_mod (size : Nat) : c.trim size % c.align = 0 := Nat.mul_mod_left _ _

theorem trim_le (size : Nat) : c.trim size ≤ size := Nat.div_mul_le_self _ _

theorem alignSize_mod (size : Nat) : c.alignSize size % c.align = 0 := c.trim_mod _

theorem le_alignSize (size : Nat) : size ≤ c.alignSize size := by
  have positive := c.align_pos
  have parts := Nat.div_add_mod (size + (c.align - 1)) c.align
  have small := Nat.mod_lt (size + (c.align - 1)) positive
  unfold alignSize trim
  rw [Nat.mul_comm]
  omega

theorem alignSize_le {size bound : Nat} (fits : size ≤ bound) (even : bound % c.align = 0) : c.alignSize size ≤ bound := by
  have positive := c.align_pos
  obtain ⟨k,same⟩ := Nat.dvd_of_mod_eq_zero even
  have less : size + (c.align - 1) < (k + 1) * c.align := by
    rw [Nat.succ_mul,Nat.mul_comm k,← same]
    omega
  have few : (size + (c.align - 1)) / c.align ≤ k := Nat.le_of_lt_succ ((Nat.div_lt_iff_lt_mul positive).mpr less)
  unfold alignSize trim
  rw [same,Nat.mul_comm c.align]
  exact Nat.mul_le_mul_right _ few

theorem required_aligned (size : Nat) : c.requiredSize size % c.align = 0 := by
  unfold requiredSize
  rw [Nat.add_mod,c.alignSize_mod,c.header_aligned]
  exact Nat.zero_mod _

theorem required_covers (size : Nat) : c.headerSize + size + c.guardSize ≤ c.requiredSize size := by
  have fits := c.le_alignSize (size + c.guardSize)
  unfold requiredSize
  omega

theorem required_least {size : Nat} (some : 0 < size) : c.minBlockSize ≤ c.requiredSize size := by
  have fits := c.le_alignSize (size + c.guardSize)
  have even := c.alignSize_mod (size + c.guardSize)
  have whole := Nat.le_of_dvd (by omega) (Nat.dvd_of_mod_eq_zero even)
  unfold minBlockSize requiredSize
  omega

end Config

abbrev Block := Segment Bool

structure Stored (c : Config) (memory : Nat → Nat) (b : Block) : Prop where
  size : memory b.start = b.size
  state : memory (b.start + 4) = if b.tag then stateUsed else stateFree
  least : c.minBlockSize ≤ b.size
  even : b.size % c.align = 0
  guard : c.guard = true → b.tag = true → memory (b.start + b.size - 4) = guardMagic

structure Laid (c : Config) (p : Pool) (blocks : List Block) : Prop where
  base : p.first ≠ 0
  aligned : p.first % c.align = 0
  small : p.endAt < p.first + 4294967296
  tiles : Tiles p.first blocks p.endAt
  stored : ∀ b ∈ blocks,Stored c p.memory b
  rover : p.rover ∈ blocks.map Segment.start
  home : c.nextFit = false → p.rover = p.first

variable {c : Config} {p p' : Pool} {blocks before mid mid' after : List Block} {b h : Block} {memory : Nat → Nat}
variable {lo hi fuel need : Nat}

namespace Stored

theorem least_header (stored : Stored c memory b) : 8 ≤ b.size := by
  have header := c.eight_le_header
  have least := stored.least
  unfold Config.minBlockSize at least
  omega

theorem frame (stored : Stored c memory b)
    (same : ∀ x,b.start ≤ x → x < b.start + b.size → memory' x = memory x) : Stored c memory' b := by
  have least := stored.least_header
  refine ⟨?_,?_,stored.least,stored.even,?_⟩
  · rw [same _ (by omega) (by omega)]
    exact stored.size
  · rw [same _ (by omega) (by omega)]
    exact stored.state
  · intro guarded used
    rw [same _ (by omega) (by omega)]
    exact stored.guard guarded used

theorem free (least : c.minBlockSize ≤ b.size) (even : b.size % c.align = 0) (unused : b.tag = false)
    (size : memory b.start = b.size) (state : memory (b.start + 4) = stateFree) : Stored c memory b := by
  refine ⟨size,?_,least,even,?_⟩
  · rw [unused]
    exact state
  · intro _ used
    rw [unused] at used
    cases used

end Stored

namespace Laid

section

variable (laid : Laid c p blocks)
include laid

theorem sane (member : b ∈ blocks) : p.isSane c b.start = true := by
  have stored := laid.stored b member
  have inside := laid.tiles.inside member
  have size : p.sizeOf b.start = b.size := stored.size
  have state : p.stateOf b.start = if b.tag then stateUsed else stateFree := stored.state
  refine decide_eq_true ⟨?_,?_,?_,?_⟩
  · rw [state]
    split
    · exact .inr rfl
    · exact .inl rfl
  · rw [size]
    exact stored.least
  · rw [size]
    exact stored.even
  · rw [size]
    omega

theorem positive (member : b ∈ blocks) : 0 < b.size := by
  have least := (laid.stored b member).least_header
  omega

theorem start_ne (member : b ∈ blocks) : b.start ≠ 0 := by
  have inside := laid.tiles.inside member
  have base := laid.base
  omega

theorem start_aligned (member : b ∈ blocks) : b.start % c.align = 0 :=
  laid.tiles.start_aligned laid.aligned (fun s inside => (laid.stored s inside).even) b member

theorem count_lt : blocks.length < p.walkLimit := by
  have few := laid.tiles.length_le fun s inside => laid.positive inside
  unfold Pool.walkLimit
  omega

end

theorem replace (laid : Laid c p (before ++ mid ++ after)) (lower : Tiles p.first before lo) (place : Tiles lo mid hi)
    (outside : ∀ x,x < lo ∨ hi ≤ x → p'.memory x = p.memory x) (first : p'.first = p.first) (endAt : p'.endAt = p.endAt)
    (tiles : Tiles lo mid' hi) (stored : ∀ b ∈ mid',Stored c p'.memory b)
    (rover : p'.rover ∈ (before ++ mid' ++ after).map Segment.start) (home : c.nextFit = false → p'.rover = p'.first) :
    Laid c p' (before ++ mid' ++ after) := by
  have upper : Tiles hi after p.endAt := laid.tiles.rest (lower.append place)
  refine ⟨?_,?_,?_,?_,?_,rover,home⟩
  · rw [first]
    exact laid.base
  · rw [first]
    exact laid.aligned
  · rw [first,endAt]
    exact laid.small
  · rw [first,endAt]
    exact (lower.append tiles).append upper
  · intro b member
    have kept : b ∈ before ∨ b ∈ after → Stored c p'.memory b := by
      intro other
      have member : b ∈ before ++ mid ++ after := by
        rcases other with left | right
        · exact mem_append_left _ (mem_append_left _ left)
        · exact mem_append_right _ right
      refine (laid.stored b member).frame fun x from_ to_ => outside x ?_
      rcases other with left | right
      · have inside := lower.inside left
        omega
      · have inside := upper.inside right
        omega
    rcases mem_append.mp member with front | right
    · rcases mem_append.mp front with left | new
      · exact kept (.inl left)
      · exact stored b new
    · exact kept (.inr right)

end Laid

theorem Laid.rewrite (laid : Laid c p (before ++ h :: after)) (mid' : List Block)
    (outside : ∀ x,x < h.start ∨ h.start + h.size ≤ x → p'.memory x = p.memory x) (first : p'.first = p.first)
    (endAt : p'.endAt = p.endAt) (tiles : Tiles h.start mid' (h.start + h.size)) (stored : ∀ b ∈ mid',Stored c p'.memory b)
    (rover : p'.rover ∈ (before ++ (mid' ++ after)).map Segment.start) (home : c.nextFit = false → p'.rover = p'.first) :
    Laid c p' (before ++ (mid' ++ after)) := by
  have whole : Laid c p (before ++ [h] ++ after) := by
    rw [append_assoc]
    exact laid
  rw [← append_assoc] at rover ⊢
  exact whole.replace laid.tiles.split.1 ⟨rfl,rfl⟩ outside first endAt tiles stored rover home
@[simp] theorem put_first (p : Pool) (a v : Nat) : (p.put a v).first = p.first := rfl
@[simp] theorem put_endAt (p : Pool) (a v : Nat) : (p.put a v).endAt = p.endAt := rfl
@[simp] theorem put_rover (p : Pool) (a v : Nat) : (p.put a v).rover = p.rover := rfl

@[simp] theorem put_stats (p : Pool) (a v : Nat) : (p.put a v).stats = p.stats := rfl

theorem put_memory (p : Pool) (a v : Nat) : (p.put a v).memory = update p.memory a v := rfl

structure Frame (p p' : Pool) : Prop where
  first : p'.first = p.first
  endAt : p'.endAt = p.endAt

theorem Frame.trans (left : Frame p q) (right : Frame q r) : Frame p r :=
  ⟨right.first.trans left.first,right.endAt.trans left.endAt⟩

def absorb (c : Config) (p : Pool) (h n : Nat) : Pool :=
  let p := if c.nextFit ∧ p.rover = n then {p with rover := h} else p
  let p := p.put h (cast32 (p.sizeOf h + p.sizeOf n))
  (p.put (n + 4) stateNone).put n 0

theorem absorb_memory (c : Config) (p : Pool) (h n : Nat) : (absorb c p h n).memory =
    update (update (update p.memory h (cast32 (p.memory h + p.memory n))) (n + 4) stateNone) n 0 := by
  unfold absorb
  dsimp only
  split <;> rfl

theorem absorb_rover (c : Config) (p : Pool) (h n : Nat) :
    (absorb c p h n).rover = if c.nextFit ∧ p.rover = n then h else p.rover := by
  unfold absorb
  dsimp only
  split <;> rfl

theorem absorb_frame (c : Config) (p : Pool) (h n : Nat) :
    Frame p (absorb c p h n) ∧ (absorb c p h n).stats = p.stats ∧ (absorb c p h n).maxScan = p.maxScan := by
  unfold absorb
  dsimp only
  split <;> exact ⟨⟨rfl,rfl⟩,rfl,rfl⟩

theorem Laid.absorb {n : Block} (laid : Laid c p (before ++ h :: n :: after)) (unused : h.tag = false) :
    Laid c (absorb c p h.start n.start) (before ++ ⟨h.start,h.size + n.size,false⟩ :: after) := by
  have ours : h ∈ before ++ h :: n :: after := by simp
  have theirs : n ∈ before ++ h :: n :: after := by simp
  have stored := laid.stored h ours
  have absorbed := laid.stored n theirs
  have parts := laid.tiles.split
  have at_ : n.start = h.start + h.size := parts.2.1
  have bound := (laid.tiles.inside theirs).2
  have from_ := (laid.tiles.inside ours).1
  have small := laid.small
  have least := stored.least_header
  have least' := absorbed.least_header
  have frame := (absorb_frame c p h.start n.start).1
  have whole : Laid c p (before ++ [h,n] ++ after) := by
    rw [append_assoc]
    exact laid
  have place : Tiles h.start [h,n] (n.start + n.size) := ⟨rfl,at_,by rw [at_]; rfl⟩
  have joined : Laid c (BytePool.absorb c p h.start n.start) (before ++ [⟨h.start,h.size + n.size,false⟩] ++ after) := by
    refine whole.replace parts.1 place ?_ frame.first frame.endAt ⟨rfl,?_⟩ ?_ ?_ ?_
    · intro x outside
      rw [absorb_memory,update_of_ne (by omega),update_of_ne (by omega),update_of_ne (by omega)]
    · show h.start + (h.size + n.size) = n.start + n.size
      omega
    · intro b member
      rw [mem_singleton.mp member]
      have size : cast32 (p.memory h.start + p.memory n.start) = h.size + n.size := by
        rw [stored.size,absorbed.size]
        exact Nat.mod_eq_of_lt (by omega)
      refine .free ?_ ?_ rfl ?_ ?_
      · exact Nat.le_trans stored.least (Nat.le_add_right _ _)
      · show (h.size + n.size) % c.align = 0
        rw [Nat.add_mod,stored.even,absorbed.even]
        exact Nat.zero_mod _
      · dsimp only
        rw [absorb_memory,update_of_ne (by omega),update_of_ne (by omega),update_self]
        exact size
      · dsimp only
        rw [absorb_memory,update_of_ne (by omega),update_of_ne (by omega),update_of_ne (by omega),
          stored.state,unused]
        rfl
    · -- The rover moves to the block that takes its own one in.
      rw [absorb_rover]
      have here := laid.rover
      have home := laid.home
      simp only [map_append,map_cons,mem_append,mem_cons,map_nil,not_mem_nil,or_false] at here ⊢
      split
      · exact .inl (.inr rfl)
      · rename_i stays
        rcases here with left | same | same | right
        · exact .inl (.inl left)
        · exact .inl (.inr same)
        · by_cases fit : c.nextFit = true
          · exact absurd ⟨fit,same⟩ stays
          · have first := home (eq_false_of_ne_true fit)
            omega
        · exact .inr right
    · intro fit
      rw [absorb_rover,if_neg (by simp [fit]),frame.first]
      exact laid.home fit
  rw [append_assoc] at joined
  exact joined

structure Coalesced (c : Config) (p : Pool) (before : List Block) (h : Block) (after : List Block) (p' : Pool) (size : Nat)
    (rest : List Block) : Prop where
  laid : Laid c p' (before ++ ⟨h.start,size,false⟩ :: rest)
  grown : h.size ≤ size
  taken : ∃ absorbed,after = absorbed ++ rest ∧ ∀ b ∈ absorbed,b.tag = false
  stops : ∀ b more,rest = b :: more → b.tag = true
  frame : Frame p p'
  stats : p'.stats = p.stats

theorem coalesce_laid (laid : Laid c p (before ++ h :: after)) (unused : h.tag = false) (enough : after.length < fuel) :
    ∃ p' size rest,p.coalesce c h.start fuel = some p' ∧ Coalesced c p before h after p' size rest := by
  induction fuel generalizing p h after with
  | zero => omega
  | succ fuel ih =>
    have stored := laid.stored h (by simp)
    have parts := laid.tiles.split
    have next : p.next h.start = h.start + h.size := congrArg (h.start + ·) stored.size
    have same : (⟨h.start,h.size,false⟩ : Block) = h := by rw [← unused]
    rw [Pool.coalesce]
    dsimp only
    rw [next]
    cases after with
    | nil =>
      have ended : h.start + h.size = p.endAt := parts.2
      rw [if_neg (by omega)]
      refine ⟨p,h.size,[],rfl,?_,Nat.le_refl _,⟨[],rfl,by simp⟩,nofun,⟨rfl,rfl⟩,rfl⟩
      rwa [same]
    | cons n after =>
      have member : n ∈ before ++ h :: n :: after := by simp
      have at_ : n.start = h.start + h.size := parts.2.1
      have state : p.stateOf n.start = if n.tag then stateUsed else stateFree := (laid.stored n member).state
      have bound := (laid.tiles.inside member).2
      have positive := laid.positive member
      rw [← at_]
      cases marked : n.tag with
      | false =>
        rw [marked] at state
        rw [if_pos ⟨by omega,state,laid.sane member⟩]
        have joined := laid.absorb unused
        obtain ⟨frame,stats,_⟩ := absorb_frame c p h.start n.start
        obtain ⟨p',size,rest,looped,done⟩ := ih joined rfl (by simpa using enough)
        refine ⟨p',size,rest,looped,done.laid,Nat.le_trans (Nat.le_add_right _ _) done.grown,?_,done.stops,
          frame.trans done.frame,done.stats.trans stats⟩
        obtain ⟨absorbed,split,free⟩ := done.taken
        refine ⟨n :: absorbed,by rw [split]; rfl,?_⟩
        intro b inside
        rcases mem_cons.mp inside with rfl | later
        · exact marked
        · exact free b later
      | true =>
        rw [marked] at state
        rw [if_neg fun free => absurd (state.symm.trans free.2.1) (by decide)]
        refine ⟨p,h.size,n :: after,rfl,?_,Nat.le_refl _,⟨[],rfl,by simp⟩,?_,⟨rfl,rfl⟩,rfl⟩
        · rwa [same]
        · intro b more split
          cases split
          exact marked

theorem coalesce_words {h x : Nat} (merged : p.coalesce c h fuel = some p') (other : x ≠ h) :
    p'.memory x = p.memory x ∨ p'.memory x = stateNone := by
  induction fuel generalizing p with
  | zero => cases merged
  | succ fuel ih =>
    rw [Pool.coalesce] at merged
    dsimp only at merged
    split at merged
    · rcases ih merged with same | wiped
      · change p'.memory x = (absorb c p h (p.next h)).memory x at same
        rw [absorb_memory,update_apply,update_apply,update_of_ne other] at same
        split at same
        · exact .inr same
        · split at same
          · exact .inr same
          · exact .inl same
      · exact .inr wiped
    · cases merged
      exact .inl rfl

theorem splitOff_laid (laid : Laid c p (before ++ h :: after)) (unused : h.tag = false) (fits : need ≤ h.size)
    (least : c.minBlockSize ≤ need) (even : need % c.align = 0) :
    ∃ size tail,Laid c (p.splitOff c h.start need) (before ++ ⟨h.start,size,false⟩ :: (tail ++ after)) ∧ need ≤ size ∧
      (∀ b ∈ tail,b.tag = false ∧ b.start = h.start + size) ∧ Frame p (p.splitOff c h.start need) ∧ (p.splitOff c h.start need).stats = p.stats ∧
      ∀ x,x < h.start ∨ h.start + size < x →
        (p.splitOff c h.start need).memory x = p.memory x ∨ (p.splitOff c h.start need).memory x = stateFree := by
  have member : h ∈ before ++ h :: after := by simp
  have stored := laid.stored h member
  have inside := laid.tiles.inside member
  have small := laid.small
  have header := c.eight_le_header
  have known : p.sizeOf h.start = h.size := stored.size
  unfold Pool.splitOff
  dsimp only
  rw [known]
  split
  · rename_i large
    have larger : 12 ≤ c.minBlockSize := by
      have four := c.four_le_align
      unfold Config.minBlockSize
      omega
    have memory : (((p.put (h.start + need) (cast32 (h.size - need))).put (h.start + need + 4) stateFree).put h.start
        (cast32 need)).memory = update (update (update p.memory (h.start + need)
          (cast32 (h.size - need))) (h.start + need + 4) stateFree) h.start (cast32 need) := rfl
    refine ⟨need,[⟨h.start + need,h.size - need,false⟩],?_,Nat.le_refl _,by simp,⟨rfl,rfl⟩,rfl,?_⟩
    on_goal 2 =>
      intro x outside
      rw [memory,update_of_ne (by omega),update_apply]
      split
      · exact .inr rfl
      · rw [update_of_ne (by omega)]
        exact .inl rfl
    refine laid.rewrite [⟨h.start,need,false⟩,⟨h.start + need,h.size - need,false⟩] ?_ rfl rfl ⟨rfl,rfl,?_⟩ ?_ ?_ laid.home
    · intro x outside
      rw [memory,update_of_ne (by omega),update_of_ne (by omega),update_of_ne (by omega)]
    · show h.start + need + (h.size - need) = h.start + h.size
      omega
    · intro b new
      rw [memory]
      simp only [mem_cons,not_mem_nil,or_false] at new
      rcases new with rfl | rfl
      · refine .free least even rfl ?_ ?_ <;> dsimp only
        · rw [update_self]
          exact Nat.mod_eq_of_lt (by omega)
        · rw [update_of_ne (by omega),update_of_ne (by omega),update_of_ne (by omega),stored.state,unused]
          rfl
      · have evenRest : (h.size - need) % c.align = 0 := (Nat.sub_mod_eq_zero_of_mod_eq (by rw [stored.even,even]))
        refine .free large evenRest rfl ?_ ?_ <;> dsimp only
        · rw [update_of_ne (by omega),update_of_ne (by omega),update_self]
          exact Nat.mod_eq_of_lt (by omega)
        · rw [update_of_ne (by omega),update_self]
    · have here := laid.rover
      simp only [map_append,map_cons,mem_append,mem_cons,put_rover,map_nil,not_mem_nil,
        or_false] at here ⊢
      rcases here with left | same | right
      · exact .inl left
      · exact .inr (.inl (.inl same))
      · exact .inr (.inr right)
  · refine ⟨h.size,[],?_,fits,by simp,⟨rfl,rfl⟩,rfl,fun x _ => .inl rfl⟩
    have same : (⟨h.start,h.size,false⟩ : Block) = h := by rw [← unused]
    rw [same]
    exact laid

theorem checkFill_outside (p : Pool) (value : Nat) (outside : x < address ∨ address + size ≤ x) :
    (p.checkFill c address size value).memory x = p.memory x := by
  unfold Pool.checkFill
  split
  · refine if_neg ?_
    omega
  · rfl

theorem checkFill_word (c : Config) (p : Pool) (address size value x : Nat) :
    (p.checkFill c address size value).memory x = p.memory x ∨ (p.checkFill c address size value).memory x = value := by
  unfold Pool.checkFill
  split
  · unfold Pool.fill
    dsimp only
    split
    · exact .inr rfl
    · exact .inl rfl
  · exact .inl rfl

theorem checkFill_frame (c : Config) (p : Pool) (address size value : Nat) :
    Frame p (p.checkFill c address size value) ∧ (p.checkFill c address size value).stats = p.stats ∧
      (p.checkFill c address size value).rover = p.rover := by
  unfold Pool.checkFill
  split <;> exact ⟨⟨rfl,rfl⟩,rfl,rfl⟩

theorem placeGuard_frame (c : Config) (p : Pool) (h : Nat) :
    Frame p (p.placeGuard c h) ∧ (p.placeGuard c h).stats = p.stats ∧ (p.placeGuard c h).rover = p.rover := by
  unfold Pool.placeGuard
  split <;> exact ⟨⟨rfl,rfl⟩,rfl,rfl⟩

theorem placeGuard_other (p : Pool) (h : Nat) (other : x ≠ p.guardOf h) : (p.placeGuard c h).memory x = p.memory x := by
  unfold Pool.placeGuard
  split
  · exact update_of_ne other _ _
  · rfl

theorem moveRover_frame (c : Config) (p : Pool) (h : Nat) :
    Frame p (p.moveRover c h) ∧ (p.moveRover c h).stats = p.stats ∧ (p.moveRover c h).memory = p.memory := by
  unfold Pool.moveRover
  split <;> exact ⟨⟨rfl,rfl⟩,rfl,rfl⟩

section

variable (laid : Laid c p (before ++ h :: after))
include laid

theorem moveRover_laid : Laid c (p.moveRover c h.start) (before ++ h :: after) := by
  have stored := laid.stored h (by simp)
  have next : p.next h.start = h.start + h.size := congrArg (h.start + ·) stored.size
  unfold Pool.moveRover
  split
  · rename_i fit
    refine ⟨laid.base,laid.aligned,laid.small,laid.tiles,laid.stored,?_,?_⟩
    · dsimp only
      rw [next]
      split
      · rename_i more
        obtain ⟨n,rest,split,at_⟩ := laid.tiles.split.2.next more
        rw [split]
        simp [at_]
      · have less : p.first < p.endAt := by
          have inside := laid.tiles.inside (s := h) (by simp)
          have positive := laid.positive (b := h) (by simp)
          omega
        obtain ⟨b,rest,split,at_⟩ := laid.tiles.next less
        rw [split]
        simp [at_]
    · intro first
      rw [first] at fit
      cases fit
  · exact laid

theorem occupy_laid (same : q = p.markUsed h.start) :
    Laid c ((q.checkFill c (h.start + c.headerSize) (q.sizeOf h.start - c.headerSize - c.guardSize) fillAlloc).placeGuard c h.start)
      (before ++ ⟨h.start,h.size,true⟩ :: after) ∧ ∀ x,x < h.start ∨ h.start + h.size ≤ x →
        ((q.checkFill c (h.start + c.headerSize) (q.sizeOf h.start - c.headerSize - c.guardSize) fillAlloc).placeGuard c
          h.start).memory x = p.memory x := by
  have stored := laid.stored h (by simp)
  have header := c.eight_le_header
  have larger : c.headerSize + 4 ≤ h.size := by
    have four := c.four_le_align
    have least := stored.least
    unfold Config.minBlockSize at least
    omega
  have memory : q.memory = update p.memory (h.start + 4) stateUsed := by rw [same]; rfl
  have size : q.sizeOf h.start = h.size := by
    unfold Pool.sizeOf
    rw [memory,update_of_ne (by omega)]
    exact stored.size
  rw [size]
  have guards := c.guard_le
  obtain ⟨frame,_,rover⟩ := checkFill_frame c q (h.start + c.headerSize) (h.size - c.headerSize - c.guardSize) fillAlloc
  have filled : ∀ x,x < h.start + c.headerSize ∨ h.start + h.size ≤ x →
      (q.checkFill c (h.start + c.headerSize) (h.size - c.headerSize - c.guardSize) fillAlloc).memory x = q.memory x := by
    intro x outside
    refine checkFill_outside q fillAlloc ?_
    omega
  generalize q.checkFill c (h.start + c.headerSize) (h.size - c.headerSize - c.guardSize) fillAlloc = r at *
  have guardOf : r.guardOf h.start = h.start + h.size - 4 := by
    unfold Pool.guardOf
    rw [show r.sizeOf h.start = q.sizeOf h.start from filled _ (by omega),size]
  obtain ⟨frame',_,rover'⟩ := placeGuard_frame c r h.start
  have others : ∀ x,x ≠ h.start + h.size - 4 → (r.placeGuard c h.start).memory x = r.memory x := by
    intro x other
    exact placeGuard_other r h.start (by rwa [guardOf])
  have first : (r.placeGuard c h.start).first = p.first := by rw [frame'.first,frame.first,same]; rfl
  have endAt : (r.placeGuard c h.start).endAt = p.endAt := by rw [frame'.endAt,frame.endAt,same]; rfl
  have stays : (r.placeGuard c h.start).rover = p.rover := by rw [rover',rover,same]; rfl
  have beside : ∀ x,x < h.start ∨ h.start + h.size ≤ x → (r.placeGuard c h.start).memory x = p.memory x := by
    intro x outside
    rw [others x (by omega),filled x (by omega),memory,update_of_ne (by omega)]
  refine ⟨laid.rewrite [⟨h.start,h.size,true⟩] beside first endAt ⟨rfl,rfl⟩ ?_ ?_ ?_,beside⟩
  · intro b member
    rw [mem_singleton.mp member]
    refine ⟨?_,?_,stored.least,stored.even,?_⟩ <;> dsimp only
    · rw [others _ (by omega),filled _ (by omega)]
      exact size
    · rw [others _ (by omega),filled _ (by omega),memory,update_self]
      rfl
    · intro guarded _
      unfold Pool.placeGuard
      rw [if_pos guarded,put_memory,guardOf,update_self]
  · rw [stays]
    have here := laid.rover
    simpa using here
  · rw [stays,first]
    exact laid.home

theorem claim_laid (unused : h.tag = false) (fits : need ≤ h.size)
    (least : c.minBlockSize ≤ need) (even : need % c.align = 0) :
    ∃ size tail,Laid c (p.claim c h.start need) (before ++ ⟨h.start,size,true⟩ :: (tail ++ after)) ∧ need ≤ size ∧
      (∀ b ∈ tail,b.tag = false ∧ b.start = h.start + size) ∧ Frame p (p.claim c h.start need) ∧
      (p.claim c h.start need).stats = p.stats.recordAllocate size ∧
      ∀ x,x < h.start ∨ h.start + size < x →
        (p.claim c h.start need).memory x = p.memory x ∨ (p.claim c h.start need).memory x = stateFree := by
  obtain ⟨size,tail,laid,enough,free,frame,stats,words⟩ := splitOff_laid laid unused fits least even
  obtain ⟨occupied,beside⟩ := occupy_laid laid rfl
  have stored := laid.stored ⟨h.start,size,false⟩ (by simp)
  have known : ((p.splitOff c h.start need).markUsed h.start).stats = p.stats.recordAllocate size := by
    have there : ((p.splitOff c h.start need).put (h.start + 4) stateUsed).sizeOf h.start = size := by
      unfold Pool.sizeOf
      rw [put_memory,update_of_ne (by omega)]
      exact stored.size
    unfold Pool.markUsed
    dsimp only
    rw [there,put_stats,stats]
  unfold Pool.claim
  dsimp only at occupied beside ⊢
  have marked : Frame p ((p.splitOff c h.start need).markUsed h.start) := ⟨frame.first,frame.endAt⟩
  generalize (p.splitOff c h.start need).markUsed h.start = q at *
  have filled := checkFill_frame c q (h.start + c.headerSize) (q.sizeOf h.start - c.headerSize - c.guardSize) fillAlloc
  generalize q.checkFill c (h.start + c.headerSize) (q.sizeOf h.start - c.headerSize - c.guardSize) fillAlloc = r at *
  have guarded := placeGuard_frame c r h.start
  have moved := moveRover_frame c (r.placeGuard c h.start) h.start
  refine ⟨size,tail,moveRover_laid (h := ⟨h.start,size,true⟩) occupied,enough,free,?_,?_,?_⟩
  · exact ((marked.trans filled.1).trans guarded.1).trans moved.1
  · rw [moved.2.1,guarded.2.1,filled.2.1,known]
  · intro x outside
    rw [moved.2.2,beside x (by omega)]
    exact words x outside

end

def used (blocks : List Block) : List Block := blocks.filter fun b => b.tag

@[simp] theorem used_append (xs ys : List Block) : used (xs ++ ys) = used xs ++ used ys := filter_append ..

@[simp] theorem used_cons_free (start size : Nat) (xs : List Block) : used (⟨start,size,false⟩ :: xs) = used xs := rfl

@[simp] theorem used_cons_used (start size : Nat) (xs : List Block) :
    used (⟨start,size,true⟩ :: xs) = ⟨start,size,true⟩ :: used xs := rfl

theorem used_cons (b : Block) (xs : List Block) : used (b :: xs) = if b.tag = true then b :: used xs else used xs :=
  filter_cons

theorem used_free (free : ∀ b ∈ blocks,b.tag = false) : used blocks = [] := by
  refine filter_eq_nil_iff.mpr fun b member => ?_
  rw [free b member]
  exact Bool.false_ne_true

theorem Coalesced.used (done : Coalesced c p before h after p' size rest) (unused : h.tag = false) :
    used (before ++ ⟨h.start,size,false⟩ :: rest) = BytePool.used (before ++ h :: after) := by
  obtain ⟨absorbed,split,free⟩ := done.taken
  rw [split,used_append,used_append,used_cons_free,used_cons,unused,if_neg Bool.false_ne_true,used_append,used_free free,
    nil_append]

inductive Scanned (c : Config) (need : Nat) (p : Pool) (blocks : List Block) (p' : Pool) (result : Nat) : Prop where
  | nothing (blocks' : List Block) : Laid c p' blocks' → used blocks' = used blocks → result = 0 → Frame p p' →
      p'.stats = p.stats → Scanned c need p blocks p' result
  | found (blocks' left right : List Block) (b : Block) : Laid c p' blocks' → used blocks' = left ++ b :: right →
      used blocks = left ++ right → b.tag = true → need ≤ b.size → result = b.start + c.headerSize → Frame p p' →
      p'.stats = p.stats.recordAllocate b.size → Scanned c need p blocks p' result

theorem Scanned.since {q : Pool} {others : List Block} (scanned : Scanned c need q others p' result)
    (same : used others = used blocks) (frame : Frame p q) (stats : q.stats = p.stats) : Scanned c need p blocks p' result := by
  cases scanned with
  | nothing blocks' laid kept none frame' stats' =>
    exact .nothing blocks' laid (kept.trans same) none (frame.trans frame') (stats'.trans stats)
  | found blocks' left right b laid new old marked enough at_ frame' stats' =>
    refine .found blocks' left right b laid new (same.symm.trans old) marked enough at_ (frame.trans frame') ?_
    rw [stats',stats]

theorem Coalesced.onward {b : Block} {more : List Block} (done : Coalesced c p before b more p' size after)
    (lower : Tiles p.first before b.start) : Laid c p' (before ++ [⟨b.start,size,false⟩] ++ after) ∧
      Tiles p'.first (before ++ [⟨b.start,size,false⟩]) (b.start + size) := by
  constructor
  · rw [append_assoc]
    exact done.laid
  · rw [done.frame.first]
    exact lower.append ⟨rfl,rfl⟩

theorem scanRange_turn {h : Nat} {rest : List Block} (laid : Laid c p (before ++ rest)) (lower : Tiles p.first before h) (bound : stop ≤ p.endAt) :
    (stop ≤ h ∧ p.scanRange c stop need (fuel + 1) h scanned = some ⟨p,0,scanned⟩) ∨
    ∃ b more,rest = b :: more ∧ b.start = h ∧
      (b.tag = true ∧ p.scanRange c stop need (fuel + 1) h scanned = p.scanRange c stop need fuel (h + b.size) (scanned + 1) ∨
      b.tag = false ∧ ∃ q size after,p.coalesce c h (p.endAt - h) = some q ∧ Coalesced c p before b more q size after ∧
        p.scanRange c stop need (fuel + 1) h scanned =
          if size ≥ need then some ⟨q.claim c h need,h + c.headerSize,scanned + 1⟩
          else q.scanRange c stop need fuel (h + size) (scanned + 1)) := by
  rw [Pool.scanRange]
  split
  · rename_i range
    right
    obtain ⟨b,more,split,at_⟩ := (laid.tiles.rest lower).next (by omega)
    subst split at_
    have member : b ∈ before ++ b :: more := by simp
    have stored := laid.stored b member
    have state : p.stateOf b.start = if b.tag then stateUsed else stateFree := stored.state
    have next : p.next b.start = b.start + b.size := congrArg (b.start + ·) stored.size
    refine ⟨b,more,rfl,rfl,?_⟩
    rw [if_neg (by simp [laid.sane member])]
    cases marked : b.tag with
    | true =>
      rw [marked] at state
      rw [if_neg fun free => absurd (state.symm.trans free) (by decide),next]
      exact .inl ⟨rfl,rfl⟩
    | false =>
      rw [marked] at state
      have few := laid.tiles.split.2.length_le fun s inside => laid.positive (by simp [inside])
      have positive := laid.positive member
      obtain ⟨q,size,after,merged,done⟩ := coalesce_laid laid marked (show more.length < p.endAt - b.start by omega)
      have known : q.sizeOf b.start = size := (done.laid.stored ⟨b.start,size,false⟩ (by simp)).size
      have next : q.next b.start = b.start + size := congrArg (b.start + ·) known
      rw [if_pos (show p.stateOf b.start = stateFree from state),merged,Option.bind_some,known,next]
      exact .inr ⟨rfl,q,size,after,rfl,done,rfl⟩
  · rename_i range
    have base := laid.base
    have front := lower.le
    exact .inl ⟨by omega,rfl⟩

theorem scanRange_laid {h : Nat} {rest : List Block} (least : c.minBlockSize ≤ need) (even : need % c.align = 0)
    (laid : Laid c p (before ++ rest)) (lower : Tiles p.first before h) (bound : stop ≤ p.endAt)
    (enough : rest.length < fuel) (scanned : Nat) :
    ∃ s,p.scanRange c stop need fuel h scanned = some s ∧ Scanned c need p (before ++ rest) s.pool s.result := by
  induction fuel generalizing p h before rest scanned with
  | zero => omega
  | succ fuel ih =>
    rcases scanRange_turn laid lower bound with ⟨_,turn⟩ | ⟨b,more,split,at_,turn⟩
    · rw [turn]
      exact ⟨_,rfl,.nothing _ laid rfl rfl ⟨rfl,rfl⟩ rfl⟩
    · subst split at_
      rcases turn with ⟨_,turn⟩ | ⟨unused,q,size,after,_,done,turn⟩
      · rw [turn]
        have shifted : before ++ b :: more = before ++ [b] ++ more := by simp
        rw [shifted] at laid ⊢
        exact ih laid (lower.append ⟨rfl,rfl⟩) bound (by simpa using enough) (scanned + 1)
      · rw [turn]
        have same := done.used unused
        split
        · rename_i fits
          obtain ⟨size',tail,claimed,enough,free,frame,stats,_⟩ := claim_laid done.laid rfl fits least even
          refine ⟨_,rfl,Scanned.since ?_ same done.frame done.stats⟩
          refine .found _ (used before) (used after) ⟨b.start,size',true⟩ claimed ?_ ?_ rfl enough rfl frame stats
          · rw [used_append,used_cons_used,used_append,used_free fun b inside => (free b inside).1]
            rfl
          · rw [used_append,used_cons_free]
        · have shorter : after.length ≤ more.length := by
            obtain ⟨absorbed,split,_⟩ := done.taken
            rw [split,length_append]
            omega
          obtain ⟨going,lower'⟩ := done.onward lower
          have fewer : after.length < fuel := by
            rw [length_cons] at enough
            omega
          obtain ⟨s,looped,scan⟩ := ih going lower' (by rw [done.frame.endAt]; exact bound) fewer (scanned + 1)
          refine ⟨s,looped,scan.since ?_ done.frame done.stats⟩
          rw [append_assoc]
          exact same

theorem scanAll_laid (least : c.minBlockSize ≤ need) (even : need % c.align = 0) (laid : Laid c p blocks) :
    ∃ s,p.scanAll c need = some s ∧ Scanned c need p blocks s.pool s.result := by
  unfold Pool.scanAll
  have few := laid.count_lt
  split
  · obtain ⟨b,member,at_⟩ := mem_map.mp laid.rover
    obtain ⟨before,rest,split⟩ := append_of_mem member
    subst split
    have start : (if p.rover ≠ 0 then p.rover else p.first) = b.start := by
      rw [← at_,if_pos (laid.start_ne member)]
    have inside := (laid.tiles.inside member).2
    dsimp only
    rw [start]
    have fewer : (b :: rest).length < p.walkLimit := by
      rw [length_append] at few
      omega
    obtain ⟨s,looped,scanned⟩ := scanRange_laid least even laid laid.tiles.split.1 (Nat.le_refl _) fewer 0
    rw [looped,Option.bind_some]
    split
    · rename_i again
      cases scanned with
      | nothing blocks' laid' same _ frame stats =>
        have few' := laid'.count_lt
        unfold Pool.walkLimit at few'
        rw [frame.first,frame.endAt] at few'
        have bound : b.start ≤ s.pool.endAt := by
          rw [frame.endAt]
          omega
        have whole : Laid c s.pool ([] ++ blocks') := laid'
        obtain ⟨s',looped',scanned'⟩ := scanRange_laid least even whole rfl bound few' s.scanned
        exact ⟨s',looped',scanned'.since same frame stats⟩
      | found blocks' left right b' laid' _ _ _ _ at_ =>
        have header := c.eight_le_header
        omega
    · exact ⟨s,rfl,scanned⟩
  · have whole : Laid c p ([] ++ blocks) := laid
    exact scanRange_laid least even whole rfl (Nat.le_refl _) few 0

theorem Laid.counted (laid : Laid c p blocks) (n : Nat) : Laid c {p with maxScan := n} blocks :=
  ⟨laid.base,laid.aligned,laid.small,laid.tiles,laid.stored,laid.rover,laid.home⟩

theorem findFree_laid (least : c.minBlockSize ≤ need) (even : need % c.align = 0) (laid : Laid c p blocks) :
    ∃ p' result,p.findFree c need = some (p',result) ∧ Scanned c need p blocks p' result := by
  obtain ⟨s,looped,scanned⟩ := scanAll_laid least even laid
  refine ⟨_,_,by rw [Pool.findFree,looped,Option.map_some],?_⟩
  cases scanned with
  | nothing blocks' laid' same none frame stats =>
    exact .nothing blocks' (laid'.counted _) same none ⟨frame.first,frame.endAt⟩ stats
  | found blocks' left right b laid' new old marked enough at_ frame stats =>
    exact .found blocks' left right b (laid'.counted _) new old marked enough at_ ⟨frame.first,frame.endAt⟩ stats

theorem isBlockStart_laid {from_ : Nat} {front back : List Block} (laid : Laid c p (front ++ before ++ b :: back))
    (lower : Tiles p.first front from_) (enough : before.length < fuel) : p.isBlockStart c b.start fuel from_ = some true := by
  induction fuel generalizing front before from_ with
  | zero => omega
  | succ fuel ih =>
    rw [Pool.isBlockStart]
    cases before with
    | nil =>
      have member : b ∈ front ++ [] ++ b :: back := by simp
      have inside := laid.tiles.inside member
      have positive := laid.positive member
      have at_ : b.start = from_ := by
        rw [append_nil] at laid
        exact (laid.tiles.rest lower).1
      subst at_
      rw [if_pos ⟨laid.start_ne member,Nat.le_refl _,by omega,laid.sane member⟩,if_pos rfl]
    | cons s before =>
      have member : s ∈ front ++ s :: before ++ b :: back := by simp
      have tiles := laid.tiles
      rw [append_assoc] at tiles
      have upper := tiles.rest lower
      have at_ : s.start = from_ := upper.1
      subst at_
      have ours := (upper.2.inside (s := b) (by simp)).1
      have positive := laid.positive member
      have inside := laid.tiles.inside member
      have next : p.next s.start = s.start + s.size := congrArg (s.start + ·) (laid.stored s member).size
      rw [if_pos ⟨laid.start_ne member,by omega,by omega,laid.sane member⟩,if_neg (by omega),next]
      have whole : Laid c p (front ++ [s] ++ before ++ b :: back) := by simpa using laid
      exact ih whole (lower.append ⟨rfl,rfl⟩) (by simpa using enough)

theorem release_laid (laid : Laid c p (before ++ h :: after)) :
    ∃ p' size rest,p.release c h.start = some p' ∧ Laid c p' (before ++ ⟨h.start,size,false⟩ :: rest) ∧
      used (before ++ ⟨h.start,size,false⟩ :: rest) = used before ++ used after ∧ Frame p p' ∧
      p'.stats = p.stats.recordFree h.size ∧ (∀ b ∈ rest,b ∈ after) ∧
      ∀ x,x ≠ h.start → p'.memory x = p.memory x ∨ p'.memory x ≠ stateUsed := by
  have member : h ∈ before ++ h :: after := by simp
  have stored := laid.stored h member
  have header := c.eight_le_header
  have least := stored.least
  have size : p.sizeOf h.start = h.size := stored.size
  have inside := laid.tiles.inside member
  unfold Config.minBlockSize at least
  unfold Pool.release
  dsimp only
  rw [size]
  generalize marking : Pool.put {p with stats := p.stats.recordFree h.size} (h.start + 4) stateFree = q
  have memory : q.memory = update p.memory (h.start + 4) stateFree := by rw [← marking]; rfl
  have kept : Frame p q ∧ q.stats = p.stats.recordFree h.size ∧ q.rover = p.rover := by
    rw [← marking]
    exact ⟨⟨rfl,rfl⟩,rfl,rfl⟩
  obtain ⟨frame,stats,rover⟩ := checkFill_frame c q (h.start + c.headerSize) (h.size - c.headerSize) fillFree
  have filled : ∀ x,x < h.start + c.headerSize ∨ h.start + h.size ≤ x →
      (q.checkFill c (h.start + c.headerSize) (h.size - c.headerSize) fillFree).memory x = q.memory x := by
    intro x outside
    refine checkFill_outside q fillFree ?_
    omega
  have marks : ∀ x,(q.checkFill c (h.start + c.headerSize) (h.size - c.headerSize) fillFree).memory x = p.memory x ∨
      (q.checkFill c (h.start + c.headerSize) (h.size - c.headerSize) fillFree).memory x ≠ stateUsed := by
    intro x
    rcases checkFill_word c q (h.start + c.headerSize) (h.size - c.headerSize) fillFree x with same | filled
    · rw [same,memory,update_apply]
      split
      · exact .inr (by decide)
      · exact .inl rfl
    · rw [filled]
      exact .inr (by decide)
  generalize q.checkFill c (h.start + c.headerSize) (h.size - c.headerSize) fillFree = r at *
  have freed : Laid c r (before ++ ⟨h.start,h.size,false⟩ :: after) := by
    refine laid.rewrite [⟨h.start,h.size,false⟩] ?_ (frame.first.trans kept.1.first) (frame.endAt.trans kept.1.endAt)
      ⟨rfl,rfl⟩ ?_ ?_ ?_
    · intro x outside
      rw [filled x (by omega),memory,update_of_ne (by omega)]
    · intro b new
      rw [mem_singleton.mp new]
      refine .free stored.least stored.even rfl ?_ ?_ <;> dsimp only
      · rw [filled _ (by omega),memory,update_of_ne (by omega)]
        exact stored.size
      · rw [filled _ (by omega),memory,update_self]
    · rw [rover,kept.2.2]
      have here := laid.rover
      simpa using here
    · rw [rover,kept.2.2,frame.first,kept.1.first]
      exact laid.home
  have few := freed.tiles.split.2.length_le fun s inside => freed.positive (by simp [inside])
  have enough : after.length < r.endAt - h.start := by
    have positive := laid.positive member
    dsimp only at few
    omega
  obtain ⟨p',size,rest,merged,done⟩ := coalesce_laid (h := ⟨h.start,h.size,false⟩) freed rfl enough
  refine ⟨p',size,rest,merged,done.laid,?_,(kept.1.trans frame).trans done.frame,?_,?_,?_⟩
  · rw [done.used rfl,used_append,used_cons_free]
  · rw [done.stats,stats,kept.2.1]
  · intro b member
    obtain ⟨absorbed,split,_⟩ := done.taken
    rw [split]
    exact mem_append_right _ member
  · intro x other
    rcases coalesce_words merged other with same | wiped
    · rw [same]
      exact marks x
    · rw [wiped]
      exact .inr (by decide)

theorem free_laid (laid : Laid c p (before ++ h :: after)) (marked : h.tag = true) :
    ∃ p' blocks',p.free c (h.start + c.headerSize) = some (p',true) ∧ Laid c p' blocks' ∧
      used blocks' = used before ++ used after ∧ Frame p p' ∧ p'.stats = p.stats.recordFree h.size := by
  have member : h ∈ before ++ h :: after := by simp
  have stored := laid.stored h member
  have header := c.eight_le_header
  have least := stored.least
  have positive := c.align_pos
  have inside := laid.tiles.inside member
  have state : p.stateOf h.start = stateUsed := by
    have state := stored.state
    rw [marked] at state
    exact state
  have guarded : c.guard = true → p.memory (p.guardOf h.start) = guardMagic := by
    intro guard
    have word := stored.guard guard marked
    unfold Pool.guardOf Pool.sizeOf
    rwa [stored.size]
  have even : (h.start + c.headerSize - p.first) % c.align = 0 := by
    refine Nat.sub_mod_eq_zero_of_mod_eq ?_
    rw [Nat.add_mod,laid.start_aligned member,c.header_aligned,laid.aligned]
    exact Nat.zero_mod _
  unfold Config.minBlockSize at least
  obtain ⟨p',size,rest,released,laid',same,frame,stats,_⟩ := release_laid laid
  refine ⟨p',_,?_,laid',same,frame,stats⟩
  have known : (if c.checks then p.isBlockStart c h.start p.walkLimit p.first else some true) = some true := by
    split
    · have whole : Laid c p ([] ++ before ++ h :: after) := laid
      refine isBlockStart_laid whole rfl ?_
      have few := laid.count_lt
      rw [length_append] at few
      omega
    · rfl
  unfold Pool.free
  rw [if_pos ⟨by omega,laid.base⟩,if_neg (by omega),if_neg (fun odd => odd even)]
  dsimp only
  rw [Nat.add_sub_cancel,if_neg (fun other => other state),known,Option.bind_some,if_pos ⟨rfl,laid.sane member⟩,if_pos guarded,
    released,Option.map_some]

theorem store_laid (laid : Laid c p blocks) (member : b ∈ blocks) (word : address % 4 = 0)
    (from_ : b.start + c.headerSize ≤ address) (to_ : address < b.start + b.size - c.guardSize) (value : Nat) :
    Laid c (p.put address value) blocks := by
  obtain ⟨before,after,rfl⟩ := append_of_mem member
  have stored := laid.stored b member
  have header := c.eight_le_header
  have guards := c.guard_le
  have same : before ++ b :: after = before ++ ([b] ++ after) := rfl
  have apart : c.guard = true → address ≠ b.start + b.size - 4 := by
    intro guard
    unfold Config.guardSize at to_
    rw [if_pos guard] at to_
    omega
  rw [same]
  refine laid.rewrite [b] ?_ rfl rfl ⟨rfl,rfl⟩ ?_ laid.rover laid.home
  · intro x outside
    rw [put_memory,update_of_ne (by omega)]
  · intro s only
    rw [mem_singleton.mp only,put_memory]
    refine ⟨?_,?_,stored.least,stored.even,?_⟩
    · rw [update_of_ne (by omega)]
      exact stored.size
    · rw [update_of_ne (by omega)]
      exact stored.state
    · intro guard marked
      rw [update_of_ne (apart guard).symm]
      exact stored.guard guard marked

theorem init_laid (c : Config) (memory : Nat → Nat) (storage storageSize : Nat) :
    (∃ b : Block,b.tag = false ∧ Laid c (Pool.init c memory storage storageSize) [b] ∧
      (Pool.init c memory storage storageSize).stats.allocated = 0) ∨
    (Pool.init c memory storage storageSize).first = 0 := by
  unfold Pool.init
  dsimp only
  split
  · rename_i given
    generalize room : (if storageSize > c.alignSize storage - storage then c.trim (storageSize - (c.alignSize storage - storage))
      else 0) = room'
    generalize limit : (if room' > c.poolSizeMax then c.poolSizeMax else room') = usable
    have even : usable % c.align = 0 := by
      have whole : room' % c.align = 0 := by
        rw [← room]
        split
        · exact c.trim_mod _
        · exact Nat.zero_mod _
      rw [← limit]
      split
      · exact c.trim_mod _
      · exact whole
    have small : usable < 4294967296 := by
      have most : c.poolSizeMax ≤ 0xFFFFFFFF := c.trim_le _
      have less : usable ≤ c.poolSizeMax := by
        rw [← limit]
        split <;> omega
      omega
    split
    · rename_i large
      have up := c.le_alignSize storage
      have first : storage + (c.alignSize storage - storage) = c.alignSize storage := by omega
      have header := c.eight_le_header
      refine .inl ⟨⟨c.alignSize storage,usable,false⟩,rfl,⟨?_,?_,?_,?_,?_,?_,?_⟩,rfl⟩ <;> dsimp only
      · omega
      · rw [first]
        exact c.alignSize_mod _
      · omega
      · rw [first]
        exact ⟨rfl,rfl⟩
      · intro b member
        rw [mem_singleton.mp member,put_memory,put_memory,first]
        refine .free large even rfl ?_ ?_ <;> dsimp only
        · rw [update_of_ne (by omega),update_self]
          exact Nat.mod_eq_of_lt small
        · rw [update_self]
      · rw [first]
        simp
      · intro _
        rfl
    · exact .inr rfl
  · exact .inr rfl

end SuperTinyKernel.BytePool
