import SuperTinyKernel.Memory.BytePoolBlocks

set_option linter.unusedSectionVars false

namespace SuperTinyKernel.BytePool

open Monitor Tiling Transition List

-- A live pointer, for a request of `size` bytes, with the size that its block had then.
structure Allocation where
  ptr : Nat
  size : Nat
  block : Nat
  deriving DecidableEq,Repr

def track (live : List Allocation) : Note → List Allocation
  | .got ptr size block => live ++ [⟨ptr,size,block⟩]
  | .gave ptr => live.filter fun a => decide (a.ptr ≠ ptr)

def live (log : List (T × Note)) : List Allocation := (log.map Prod.snd).foldl track []

def Allocation.header (c : Config) (a : Allocation) : Nat := a.ptr - c.headerSize
def Allocation.payloadEnd (c : Config) (a : Allocation) : Nat := a.header c + a.block - c.guardSize

structure Intact (c : Config) (p : Pool) (live : List Allocation) (blocks : List Block) : Prop where
  tiles : Tiles p.first blocks p.endAt
  sane : ∀ b ∈ blocks,p.isSane c b.start = true ∧ p.sizeOf b.start = b.size ∧
    p.stateOf b.start = if b.tag then stateUsed else stateFree
  occupied : ∀ b,b ∈ used blocks ↔ ∃ a ∈ live,b = ⟨a.header c,a.block,true⟩
  aligned : ∀ a ∈ live,a.ptr % c.align = 0
  inside : ∀ a ∈ live,p.first + c.headerSize ≤ a.ptr ∧ a.payloadEnd c ≤ p.endAt
  large : ∀ a ∈ live,a.ptr + a.size ≤ a.payloadEnd c
  disjoint : live.Pairwise fun a b => a.payloadEnd c ≤ b.ptr ∨ b.payloadEnd c ≤ a.ptr
  rover : p.rover ∈ blocks.map Segment.start
  counted : p.stats.allocated = ((used blocks).map Segment.size).sum

structure Sound (c : Config) (p : Pool) (live : List Allocation) (blocks : List Block) : Prop where
  laid : Laid c p blocks
  occupied : ∀ b,b ∈ used blocks ↔ ∃ a ∈ live,b = ⟨a.header c,a.block,true⟩
  behind : ∀ a ∈ live,c.headerSize ≤ a.ptr
  large : ∀ a ∈ live,c.headerSize + a.size + c.guardSize ≤ a.block
  distinct : (live.map Allocation.ptr).Nodup
  counted : p.stats.allocated = ((used blocks).map Segment.size).sum

variable {T : Type} [DecidableEq T] {c : Config} {p p' : Pool} {blocks : List Block} {alive : List Allocation} {a : Allocation}
variable {sec : Sect} {need size : Nat} {budget : Budget} {late : Bool} {env : Ambient}

theorem used_starts (laid : Laid c p blocks) : ((used blocks).map Segment.start).Nodup := by
  have apart := laid.tiles.apart.filter fun b => b.tag
  refine pairwise_map.mpr (List.Pairwise.imp_of_mem ?_ apart)
  intro s t member _ order same
  have positive := laid.positive (mem_filter.mp member).1
  omega

theorem mem_used {b : Block} : b ∈ used blocks ↔ b ∈ blocks ∧ b.tag = true := mem_filter

namespace Sound

section

variable (sound : Sound c p alive blocks)
include sound

theorem block (member : a ∈ alive) :
    (⟨a.header c,a.block,true⟩ : Block) ∈ blocks ∧ a.header c + c.headerSize = a.ptr := by
  refine ⟨(mem_used.mp ((sound.occupied _).mpr ⟨a,member,rfl⟩)).1,?_⟩
  have behind := sound.behind a member
  unfold Allocation.header
  omega

theorem unique {b : Allocation} (left : a ∈ alive) (right : b ∈ alive)
    (same : a.header c = b.header c) : a = b := by
  have ptr : a.ptr = b.ptr := by
    rw [← (sound.block left).2,← (sound.block right).2,same]
  exact inj_on_of_nodup_map sound.distinct left right ptr

theorem intact : Intact c p alive blocks := by
  have guards := c.guard_le
  refine ⟨sound.laid.tiles,?_,sound.occupied,?_,?_,?_,?_,sound.laid.rover,sound.counted⟩
  · intro b member
    have stored := sound.laid.stored b member
    exact ⟨sound.laid.sane member,stored.size,stored.state⟩
  · intro a member
    obtain ⟨here,same⟩ := sound.block member
    have start : a.header c % c.align = 0 := sound.laid.start_aligned here
    rw [← same,Nat.add_mod,start,c.header_aligned]
    exact Nat.zero_mod _
  · intro a member
    obtain ⟨here,same⟩ := sound.block member
    have bounds : p.first ≤ a.header c ∧ a.header c + a.block ≤ p.endAt := sound.laid.tiles.inside here
    unfold Allocation.payloadEnd
    omega
  · intro a member
    have large := sound.large a member
    obtain ⟨_,same⟩ := sound.block member
    unfold Allocation.payloadEnd
    omega
  · have nodup : alive.Nodup := sound.distinct.of_map _
    refine List.Pairwise.imp_of_mem ?_ nodup
    intro a b left right other
    obtain ⟨here,_⟩ := sound.block left
    obtain ⟨there,_⟩ := sound.block right
    have apart : a.header c + a.block ≤ b.header c ∨ b.header c + b.block ≤ a.header c := by
      refine sound.laid.tiles.disjoint here there ?_
      intro equal
      exact other (sound.unique left right (congrArg Segment.start equal))
    have same := (sound.block left).2
    have same' := (sound.block right).2
    unfold Allocation.payloadEnd
    omega

theorem counted_alone (stats : p'.stats.allocated = p.stats.allocated)
    (laid : Laid c p' blocks') (same : used blocks' = used blocks) : Sound c p' alive blocks' := by
  refine ⟨laid,?_,sound.behind,sound.large,sound.distinct,?_⟩
  · rw [same]
    exact sound.occupied
  · rw [stats,same]
    exact sound.counted

theorem got {b : Block} (laid : Laid c p' blocks') (new : used blocks' = left ++ b :: right)
    (old : used blocks = left ++ right) (marked : b.tag = true) (enough : c.requiredSize size ≤ b.size)
    (stats : p'.stats = p.stats.recordAllocate b.size) :
    Sound c p' (alive ++ [⟨b.start + c.headerSize,size,b.size⟩]) blocks' := by
  have covers := c.required_covers size
  have at_ : Allocation.header c ⟨b.start + c.headerSize,size,b.size⟩ = b.start := Nat.add_sub_cancel _ _
  refine ⟨laid,?_,?_,?_,?_,?_⟩
  · intro s
    have before := sound.occupied s
    rw [old] at before
    have ours : s = (⟨Allocation.header c ⟨b.start + c.headerSize,size,b.size⟩,b.size,true⟩ : Block) ↔ s = b := by
      rw [at_,← marked]
    simp only [mem_append,mem_cons,not_mem_nil,or_false] at before ⊢
    rw [new]
    simp only [mem_append,mem_cons]
    constructor
    · intro member
      rcases member with member | same | member
      · obtain ⟨a,inside,same⟩ := before.mp (.inl member)
        exact ⟨a,.inl inside,same⟩
      · exact ⟨_,.inr rfl,ours.mpr same⟩
      · obtain ⟨a,inside,same⟩ := before.mp (.inr member)
        exact ⟨a,.inl inside,same⟩
    · intro present
      obtain ⟨a,inside | rfl,same⟩ := present
      · rcases before.mpr ⟨a,inside,same⟩ with member | member
        · exact .inl member
        · exact .inr (.inr member)
      · exact .inr (.inl (ours.mp same))
  · intro a member
    rcases mem_append.mp member with earlier | here
    · exact sound.behind a earlier
    · rw [mem_singleton.mp here]
      exact Nat.le_add_left _ _
  · intro a member
    rcases mem_append.mp member with earlier | here
    · exact sound.large a earlier
    · rw [mem_singleton.mp here]
      dsimp only
      omega
  · rw [map_append,nodup_append]
    refine ⟨sound.distinct,by simp,?_⟩
    intro x earlier y here same
    obtain ⟨a,member,rfl⟩ := mem_map.mp earlier
    obtain ⟨_,only,rfl⟩ := mem_map.mp here
    rw [mem_singleton.mp only] at same
    have start : a.header c = b.start := by
      unfold Allocation.header
      rw [same]
      exact Nat.add_sub_cancel _ _
    have inside := (sound.occupied _).mpr ⟨a,member,rfl⟩
    have starts := used_starts laid
    rw [old] at inside
    rw [new,map_append,map_cons,nodup_middle,nodup_cons,← map_append] at starts
    refine starts.1 (mem_map.mpr ⟨_,inside,start⟩)
  · rw [stats,new]
    have before := sound.counted
    rw [old] at before
    simp only [map_append,sum_append,map_cons,sum_cons] at before ⊢
    show p.stats.allocated + b.size = _
    omega

theorem gave (member : a ∈ alive) (laid : Laid c p' blocks')
    (old : used blocks = left ++ ⟨a.header c,a.block,true⟩ :: right) (new : used blocks' = left ++ right)
    (stats : p'.stats = p.stats.recordFree a.block) :
    Sound c p' (alive.filter fun b => decide (b.ptr ≠ a.ptr)) blocks' := by
  have starts := used_starts sound.laid
  rw [old,map_append,map_cons,nodup_middle,nodup_cons,← map_append] at starts
  refine ⟨laid,?_,?_,?_,?_,?_⟩
  · intro s
    have before := sound.occupied s
    rw [old] at before
    rw [new]
    constructor
    · intro inside
      have known : s ∈ left ++ (⟨a.header c,a.block,true⟩ : Block) :: right := by
        rcases mem_append.mp inside with first | second
        · exact mem_append_left _ first
        · exact mem_append_right _ (mem_cons_of_mem _ second)
      obtain ⟨b,there,same⟩ := before.mp known
      refine ⟨b,mem_filter.mpr ⟨there,decide_eq_true ?_⟩,same⟩
      intro equal
      refine starts.1 (mem_map.mpr ⟨s,inside,?_⟩)
      rw [same]
      show b.ptr - c.headerSize = a.ptr - c.headerSize
      rw [equal]
    · intro present
      obtain ⟨b,there,same⟩ := present
      obtain ⟨there,other⟩ := mem_filter.mp there
      rcases mem_append.mp (before.mpr ⟨b,there,same⟩) with first | second
      · exact mem_append_left _ first
      · rcases mem_cons.mp second with here | second
        · rw [same] at here
          rw [sound.unique there member (congrArg Segment.start here)] at other
          exact absurd rfl (of_decide_eq_true other)
        · exact mem_append_right _ second
  · intro b there
    exact sound.behind b (mem_filter.mp there).1
  · intro b there
    exact sound.large b (mem_filter.mp there).1
  · exact sound.distinct.sublist (filter_sublist.map _)
  · have before := sound.counted
    rw [old] at before
    rw [stats,new]
    simp only [map_append,sum_append,map_cons,sum_cons] at before ⊢
    show (if p.stats.allocated ≥ a.block then p.stats.allocated - a.block else 0) = _
    rw [if_pos (by omega)]
    omega

end

end Sound

theorem Laid.recount (laid : Laid c p blocks) (stats : Stats) : Laid c {p with stats := stats} blocks :=
  ⟨laid.base,laid.aligned,laid.small,laid.tiles,laid.stored,laid.rover,laid.home⟩

def Rest.asks : Rest → Prop
  | .allocating size _ => 0 < size

structure Effect (c : Config) (p : Pool) (alive : List Allocation) (sec : Sect) : Prop where
  first : sec.shared.first = p.first
  sound : ∃ blocks,Sound c sec.shared (sec.log.foldl track alive) blocks
  leaves : ∀ rest ∈ sec.ending.place.rest,rest.asks

theorem Effect.done {a : Answer} (p' : Pool) (sound : Sound c p' (sec.log.foldl track alive) blocks) (first : p'.first = p.first)
    (shared : sec.shared = p') (ending : sec.ending = .done a) : Effect c p alive sec := by
  refine ⟨?_,⟨blocks,?_⟩,?_⟩
  · rw [shared,first]
  · rw [shared]
    exact sound
  · rw [ending]
    nofun

theorem Sound.failed (sound : Sound c p alive blocks) : Sound c {p with stats := p.stats.recordAllocFail} alive blocks :=
  sound.counted_alone rfl (sound.laid.recount _) rfl

theorem allocFailed_effect (sound : Sound c p' alive blocks) (first : p'.first = p.first) (taken : allocFailed p' result = some sec) :
    Effect c p alive sec := by
  cases taken
  by_cases late : result = .timeout
  · refine Effect.done {p' with stats := p'.stats.recordAllocFail} sound.failed first ?_ rfl
    exact if_pos late
  · exact Effect.done p' sound first (if_neg late) rfl

theorem allocScan_effect (sound : Sound c p alive blocks) (some : 0 < size)
    (taken : allocScan c env p size budget late = .some sec) : Effect c p alive sec := by
  obtain ⟨found,scan,taken⟩ := of_bind taken
  obtain ⟨p',result,scan',scanned⟩ := findFree_laid (c.required_least some) (c.required_aligned size) sound.laid
  cases scan'.symm.trans scan
  unfold allocLoop at taken
  cases scanned with
  | nothing blocks' laid same none frame stats =>
    have kept : Sound c p' alive blocks' := sound.counted_alone (by rw [stats]) laid same
    rw [if_neg fun found => found none] at taken
    split at taken
    · exact allocFailed_effect kept frame.first taken
    · rcases waitEx_cases taken with ⟨_,taken⟩ | ⟨_,taken⟩ | ⟨_,rfl⟩
      · exact allocFailed_effect kept frame.first taken
      · exact allocFailed_effect kept frame.first taken
      · refine ⟨frame.first,⟨blocks',kept⟩,?_⟩
        intro rest same
        cases same
        exact some
  | found blocks' left right b laid new old marked enough at_ frame stats =>
    have header := c.eight_le_header
    have member : b ∈ blocks' := (mem_used.mp (by rw [new]; simp)).1
    have known : p'.sizeOf (result - c.headerSize) = b.size := by
      rw [at_,Nat.add_sub_cancel]
      exact (laid.stored b member).size
    rw [if_pos (by omega),known] at taken
    cases taken
    have kept := sound.got laid new old marked enough stats
    rw [← at_] at kept
    exact Effect.done p' kept frame.first rfl rfl

theorem free_effect (sound : Sound c p alive blocks) (member : a ∈ alive) (entered : enter c env p (.free a.ptr) = some sec) :
    Effect c p alive sec ∧ sec.log = [.gave a.ptr] := by
  obtain ⟨here,same⟩ := sound.block member
  obtain ⟨before,after,rfl⟩ := append_of_mem here
  obtain ⟨p',blocks',freed,laid,new,frame,stats⟩ := free_laid sound.laid rfl
  dsimp only at freed stats
  rw [same] at freed
  rw [enter,freed,Option.map_some] at entered
  cases entered
  have kept := sound.gave member laid (by rw [used_append,used_cons_used]) new stats
  exact ⟨Effect.done p' kept frame.first rfl rfl,rfl⟩

def Owned (alive : List Allocation) : Request → Prop
  | .alloc _ _ => True
  | .free ptr => ∃ a ∈ alive,a.ptr = ptr
  | .store address _ => address % 4 = 0 ∧ ∃ a ∈ alive,a.ptr ≤ address ∧ address < a.ptr + a.size

instance (alive : List Allocation) : (q : Request) → Decidable (Owned alive q)
  | .alloc _ _ => inferInstanceAs (Decidable True)
  | .free ptr => inferInstanceAs (Decidable (∃ a ∈ alive,a.ptr = ptr))
  | .store address _ => inferInstanceAs (Decidable (address % 4 = 0 ∧ ∃ a ∈ alive,a.ptr ≤ address ∧ address < a.ptr + a.size))

theorem enter_effect (sound : Sound c p alive blocks) (owned : Owned alive q) (entered : enter c env p q = some sec) :
    Effect c p alive sec := by
  cases q with
  | alloc size timeout =>
    rw [enter] at entered
    split at entered
    · cases entered
      exact Effect.done p sound rfl rfl rfl
    · split at entered
      · cases entered
        by_cases counts : size ≠ 0 ∧ p.isStorageValid
        · refine Effect.done {p with stats := p.stats.recordAllocFail} sound.failed rfl ?_ rfl
          exact if_pos counts
        · exact Effect.done p sound rfl (if_neg counts) rfl
      · rename_i asked
        exact allocScan_effect sound (by omega) entered
  | free ptr =>
    obtain ⟨a,member,rfl⟩ := owned
    exact (free_effect sound member entered).1
  | store address value =>
    obtain ⟨word,a,member,from_,to_⟩ := owned
    obtain ⟨here,same⟩ := sound.block member
    have large := sound.large a member
    cases entered
    have laid : Laid c (p.put address value) blocks := by
      refine store_laid sound.laid here word ?_ ?_ value <;> dsimp only <;> omega
    have kept : Sound c (p.put address value) alive blocks := sound.counted_alone rfl laid rfl
    exact Effect.done (p.put address value) kept rfl rfl rfl

theorem resume_effect (sound : Sound c p alive blocks) (some : 0 < size)
    (resumed : resume c env p (.allocating size budget) result = .some sec) : Effect c p alive sec := by
  cases result with
  | signal | timeout => exact allocScan_effect sound some resumed
  | canceled | fail => exact allocFailed_effect sound rfl resumed

theorem enter_unused (unused : p.first = 0) (owned : Owned [] q) (entered : enter c env p q = some sec) :
    sec.shared.first = 0 ∧ sec.log = [] ∧ ∃ a,sec.ending = .done a := by
  cases q with
  | alloc size timeout =>
    have nothing : p.getMaxRequest c = 0 := by
      have header := c.eight_le_header
      have empty : p.getSize = 0 := if_neg fun valid => valid unused
      unfold Pool.getMaxRequest Config.minBlockSize
      rw [empty,if_neg (by omega)]
    rw [enter,nothing] at entered
    split at entered
    · cases entered
      exact ⟨unused,rfl,_,rfl⟩
    · rw [if_pos (by omega)] at entered
      cases entered
      refine ⟨?_,rfl,_,rfl⟩
      dsimp only
      split <;> exact unused
  | free ptr =>
    obtain ⟨a,member,_⟩ := owned
    cases member
  | store address value =>
    obtain ⟨_,a,member,_⟩ := owned
    cases member

structure Books (c : Config) (base : Nat) (p : Pool) (log : List (T × Note)) : Prop where
  first : p.first = base
  sound : base ≠ 0 → ∃ blocks,Sound c p (live log) blocks
  unused : base = 0 → live log = []

def Kept (c : Config) (base : Nat) (h : Arena T) : Prop :=
  Books c base h.shared h.log ∧ Hall.Everywhere (fun _ x => ∀ rest ∈ x.rest,rest.asks ∧ base ≠ 0) h

variable {h h' : Arena T} {base : Nat} {log : List (T × Note)}

theorem live_append (log : List (T × Note)) (notes : List Note) (t : T) :
    live (log ++ notes.map fun o => (t,o)) = notes.foldl track (live log) := by
  have same : (notes.map fun o => (t,o)).map Prod.snd = notes := by
    rw [map_map]
    exact map_id' _
  unfold live
  rw [map_append,foldl_append,same]

theorem Books.next (books : Books c base p log) (valid : base ≠ 0) (effect : Effect c p (live log) sec) (t : T) :
    Books c base sec.shared (log ++ sec.log.map fun o => (t,o)) ∧ ∀ rest ∈ sec.ending.place.rest,rest.asks ∧ base ≠ 0 := by
  refine ⟨⟨effect.first.trans books.first,fun _ => ?_,fun absent => absurd absent valid⟩,?_⟩
  · rw [live_append]
    exact effect.sound
  · exact fun rest left => ⟨effect.leaves rest left,valid⟩

theorem Books.enter (books : Books c base p log) (own : Owned (live log) q ∨ ∃ a,sec = {shared := p,ending := .done a})
    (entered : enter c env p q = some sec) (t : T) :
    Books c base sec.shared (log ++ sec.log.map fun o => (t,o)) ∧ ∀ rest ∈ sec.ending.place.rest,rest.asks ∧ base ≠ 0 := by
  rcases own with own | ⟨a,rfl⟩
  · by_cases valid : base = 0
    · have nothing := books.unused valid
      rw [nothing] at own
      obtain ⟨unused,silent,a,ending⟩ := enter_unused (books.first.trans valid) own entered
      rw [ending]
      refine ⟨⟨unused.trans valid.symm,fun used => absurd valid used,fun _ => ?_⟩,nofun⟩
      rw [live_append,silent]
      exact nothing
    · obtain ⟨blocks,sound⟩ := books.sound valid
      exact books.next valid (enter_effect sound own entered) t
  · refine ⟨?_,nofun⟩
    rw [map_nil,append_nil]
    exact books

theorem Books.resume {rest : Rest} (books : Books c base p log) (asks : rest.asks ∧ base ≠ 0)
    (resumed : resume c env p rest result = some sec) (t : T) :
    Books c base sec.shared (log ++ sec.log.map fun o => (t,o)) ∧ ∀ rest ∈ sec.ending.place.rest,rest.asks ∧ base ≠ 0 := by
  obtain ⟨blocks,sound⟩ := books.sound asks.2
  cases rest with
  | allocating size budget => exact books.next asks.2 (resume_effect sound asks.1 resumed) t

def owned (h : Arena T) : Happening T Request → Bool
  | .call _ q _ _ => decide (Owned (live h.log) q)
  | _ => true

theorem Kept.step (kept : Kept c base h)
    (own : ∀ {t q isr refused sec},e = .call t q isr refused → BytePool.enter c ⟨h.now,isr,refused⟩ h.shared q = some sec →
      Owned (live h.log) q ∨ ∃ a,sec = {shared := h.shared,ending := .done a}) (step : Hall.Step (program c) h e h') :
    Kept c base h' := by
  refine step.calls kept.1 kept.2 ?_ ?_
  · intro t q isr refused sec same entered
    exact kept.1.enter (own same entered) entered t
  · intro call rest result refused sec asks resumed
    exact kept.1.resume asks resumed _

theorem Kept.start (c : Config) (now : Int) (memory : Nat → Nat) (storage storageSize : Nat) :
    Kept c (Pool.init c memory storage storageSize).first (initial now (Pool.init c memory storage storageSize) : Arena T) := by
  refine ⟨⟨rfl,?_,fun _ => rfl⟩,.start rfl rfl⟩
  intro valid
  rcases init_laid c memory storage storageSize with ⟨b,unused,laid,none⟩ | invalid
  · have empty : used [b] = [] := by
      refine used_free fun s member => ?_
      rw [mem_singleton.mp member]
      exact unused
    have nobody : ∀ a,a ∉ live ([] : List (T × Note)) := by
      intro a member
      cases member
    refine ⟨[b],laid,?_,fun a member => absurd member (nobody a),fun a member => absurd member (nobody a),.nil,?_⟩
    · intro s
      rw [empty]
      constructor
      · intro member
        cases member
      · intro present
        obtain ⟨a,member,_⟩ := present
        exact absurd member (nobody a)
    · rw [empty]
      exact none
  · exact absurd invalid valid

theorem pool_stays_intact (c : Config) (now : Int) (memory : Nat → Nat) (storage storageSize : Nat) (h : Arena T)
    (run : Run (Hall.step (program c)) (fun h e => owned h e = true)
      (initial now (Pool.init c memory storage storageSize)) h) :
    (h.shared.first ≠ 0 → ∃ blocks,Intact c h.shared (live h.log) blocks ∧
      (∀ size,0 < size → (h.shared.findFree c (c.requiredSize size)).isSome = true) ∧
      ∀ a ∈ live h.log,∃ p,h.shared.free c a.ptr = some (p,true)) ∧
    (h.shared.first = 0 → live h.log = []) := by
  have kept : Kept c (Pool.init c memory storage storageSize).first h := by
    refine run.keeps (I := Kept c (Pool.init c memory storage storageSize).first) (Kept.start c now memory storage storageSize) ?_
    intro h e h' kept own taken
    refine kept.step ?_ (Hall.step_inv taken)
    rintro t q isr refused sec rfl _
    exact .inl (of_decide_eq_true own)
  obtain ⟨books,_⟩ := kept
  rw [books.first]
  refine ⟨?_,books.unused⟩
  intro valid
  obtain ⟨blocks,sound⟩ := books.sound valid
  refine ⟨blocks,sound.intact,?_,?_⟩
  · intro size some
    obtain ⟨p,result,scan,_⟩ := findFree_laid (c.required_least some) (c.required_aligned size) sound.laid
    rw [scan]
    rfl
  · intro a member
    obtain ⟨here,same⟩ := sound.block member
    obtain ⟨before,after,rfl⟩ := append_of_mem here
    obtain ⟨p,_,freed,_⟩ := free_laid sound.laid rfl
    dsimp only at freed
    rw [same] at freed
    exact ⟨p,freed⟩

def fragmented : List (Happening Nat Request) :=
  [.call 0 (.alloc 8 0) false false,.call 1 (.alloc 12 0) false false,.call 0 (.store 16 7) false false,
    .call 2 (.alloc 40 5) false false,.call 0 (.free 16) false false,.run 2 false,.call 1 (.free 40) false false,.run 2 false]

def thorough : Config := ⟨3,Nat.le_succ 2,true,true,true⟩

theorem fragmented_intact : ∃ h : Arena Nat,
    exec (Hall.step (program thorough)) (initial 0 (Pool.init thorough (fun _ => 0) 4 80)) fragmented = some h ∧
      live h.log = [⟨16,40,56⟩] ∧ h.shared.rover = 64 ∧
      ∃ blocks,Intact thorough h.shared (live h.log) blocks := by
  refine exec_shows (P := fun h => live h.log = [⟨16,40,56⟩] ∧ h.shared.rover = 64 ∧ h.shared.first ≠ 0) (by decide) ?_
  intro h ran ⟨used,rover,usable⟩
  have run := Run.ofExecAllowed owned (by decide) ran
  have whole := (pool_stays_intact thorough 0 (fun _ => 0) 4 80 h run).1 usable
  exact ⟨used,rover,whole.imp fun _ facts => facts.1⟩

end SuperTinyKernel.BytePool
