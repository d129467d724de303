import SuperTinyKernel.Library.Chain
import SuperTinyKernel.Library.Run
import SuperTinyKernel.Memory.BlockPoolSetup

set_option linter.unusedSectionVars false

namespace SuperTinyKernel.BlockPool

open Monitor Linked Transition Function List

def track (handed : List Nat) : Note → List Nat
  | .got ptr => handed ++ [ptr]
  | .gave ptr => handed.erase ptr

def handed (log : List (T × Note)) : List Nat := (log.map Prod.snd).foldl track []

def starts (p : Pool) : List Nat := (List.range p.capacity).map fun i => p.blocks + i * p.blockSize

variable {c : Config} {p p' q : Pool} {out free : List Nat} {x y ptr i j : Nat}

theorem mem_starts : x ∈ starts p ↔ ∃ i,i < p.capacity ∧ p.blocks + i * p.blockSize = x := by
  simp [starts]

theorem start_inside (member : x ∈ starts p) : p.blocks ≤ x ∧ x + p.blockSize ≤ p.blocks + p.capacity * p.blockSize := by
  obtain ⟨i,less,rfl⟩ := mem_starts.mp member
  have bound : (i + 1) * p.blockSize ≤ p.capacity * p.blockSize := Nat.mul_le_mul_right _ less
  rw [Nat.succ_mul] at bound
  omega

theorem start_apart (left : x ∈ starts p) (right : y ∈ starts p) (other : x ≠ y) : x + p.blockSize ≤ y ∨ y + p.blockSize ≤ x := by
  obtain ⟨i,_,rfl⟩ := mem_starts.mp left
  obtain ⟨j,_,rfl⟩ := mem_starts.mp right
  rcases Nat.lt_trichotomy i j with less | same | more
  · have bound : (i + 1) * p.blockSize ≤ j * p.blockSize := Nat.mul_le_mul_right _ less
    rw [Nat.succ_mul] at bound
    omega
  · rw [same] at other
    exact absurd rfl other
  · have bound : (j + 1) * p.blockSize ≤ i * p.blockSize := Nat.mul_le_mul_right _ more
    rw [Nat.succ_mul] at bound
    omega

theorem start_inj (sized : 0 < p.blockSize) (same : p.blocks + i * p.blockSize = p.blocks + j * p.blockSize) : i = j :=
  Nat.eq_of_mul_eq_mul_right sized (by omega)

theorem start_index (sized : 0 < p.blockSize) (i : Nat) : (p.blocks + i * p.blockSize - p.blocks) / p.blockSize = i := by
  rw [Nat.add_sub_cancel_left,Nat.mul_div_cancel _ sized]

theorem starts_nodup (sized : 0 < p.blockSize) : (starts p).Nodup :=
  nodup_range.map_on fun _ _ _ _ same => start_inj sized same

theorem bitmap_place (i : Nat) : i &&& 7 = i % 8 ∧ i >>> 3 = i / 8 :=
  ⟨Nat.and_two_pow_sub_one_eq_mod i 3,Nat.shiftRight_eq_div_pow i 3⟩

theorem bitmapTest_eq (p : Pool) (i : Nat) : p.bitmapTest i = (p.memory (p.bitmapAt + i / 8)).testBit (i % 8) := by
  obtain ⟨low,high⟩ := bitmap_place i
  unfold Pool.bitmapTest
  rw [low,high,Nat.one_shiftLeft,Nat.and_two_pow]
  cases (p.memory (p.bitmapAt + i / 8)).testBit (i % 8) with
  | false | true => simp

theorem bitmapSet_test (p : Pool) (i j : Nat) : (p.bitmapSet i).bitmapTest j = (decide (j = i) || p.bitmapTest j) := by
  obtain ⟨low,high⟩ := bitmap_place i
  rw [bitmapTest_eq,bitmapTest_eq]
  unfold Pool.bitmapSet Pool.put
  dsimp only
  rw [low,high,Nat.one_shiftLeft,update_apply]
  split
  · rename_i here
    have byte : j / 8 = i / 8 := by omega
    rw [Nat.testBit_or,Nat.testBit_two_pow,byte,Bool.or_comm]
    congr 1
    rw [decide_eq_decide]
    omega
  · rename_i there
    have other : j ≠ i := by
      rintro rfl
      exact there rfl
    simp [other]

theorem bitmapClear_test (p : Pool) (i j : Nat) : (p.bitmapClear i).bitmapTest j = (decide (j ≠ i) && p.bitmapTest j) := by
  obtain ⟨low,high⟩ := bitmap_place i
  have mask : ∀ k < 8,∀ l < 8,(255 - 2 ^ k).testBit l = decide (l ≠ k) := by decide
  rw [bitmapTest_eq,bitmapTest_eq]
  unfold Pool.bitmapClear Pool.put
  dsimp only
  rw [low,high,Nat.one_shiftLeft,update_apply]
  split
  · rename_i here
    have byte : j / 8 = i / 8 := by omega
    rw [Nat.testBit_and,mask (i % 8) (Nat.mod_lt _ (by decide)) (j % 8) (Nat.mod_lt _ (by decide)),byte,Bool.and_comm]
    congr 1
    rw [decide_eq_decide]
    omega
  · rename_i there
    have other : j ≠ i := by
      rintro rfl
      exact there rfl
    simp [other]

structure Frame (p p' : Pool) : Prop where
  blocks : p'.blocks = p.blocks
  bitmapAt : p'.bitmapAt = p.bitmapAt
  blockSize : p'.blockSize = p.blockSize
  capacity : p'.capacity = p.capacity

theorem Frame.trans (left : Frame p q) (right : Frame q p') : Frame p p' :=
  ⟨right.blocks.trans left.blocks,right.bitmapAt.trans left.bitmapAt,right.blockSize.trans left.blockSize,
    right.capacity.trans left.capacity⟩

theorem Frame.starts (frame : Frame p p') : starts p' = starts p := by
  unfold BlockPool.starts
  rw [frame.blocks,frame.blockSize,frame.capacity]

-- The layout of the pool. One without a storage has no blocks.
structure Laid (c : Config) (p : Pool) : Prop where
  valid : p.blocks ≠ 0 ↔ p.capacity ≠ 0
  sized : p.capacity ≠ 0 → c.wordBytes ≤ p.blockSize
  few : p.capacity ≤ capacityMax
  bitmapAt : p.bitmapAt = p.blocks + p.capacity * p.blockSize
  room : p.bitmapAt + c.bitmapBytes p.capacity < c.limit

structure Sound (c : Config) (p : Pool) (out free : List Nat) : Prop where
  laid : Laid c p
  chain : Chain p.memory p.freeList free
  parts : (free ++ out).Perm (starts p)
  used : p.usedCount = out.length
  marked : c.bitmap = true → ∀ i < p.capacity,p.bitmapTest i = decide (p.blocks + i * p.blockSize ∈ out)

theorem Laid.frame (laid : Laid c p) (frame : Frame p p') : Laid c p' := by
  refine ⟨?_,?_,?_,?_,?_⟩
  · rw [frame.blocks,frame.capacity]
    exact laid.valid
  · rw [frame.capacity,frame.blockSize]
    exact laid.sized
  · rw [frame.capacity]
    exact laid.few
  · rw [frame.bitmapAt,frame.blocks,frame.capacity,frame.blockSize]
    exact laid.bitmapAt
  · rw [frame.bitmapAt,frame.capacity]
    exact laid.room

theorem Laid.occupied (laid : Laid c p) (member : x ∈ starts p) : 0 < p.blockSize ∧ p.blocks ≠ 0 ∧ x ≠ 0 := by
  obtain ⟨i,less,_⟩ := mem_starts.mp member
  have wide := c.wide
  have sized := laid.sized (by omega)
  have base := laid.valid.mpr (by omega)
  have inside := start_inside member
  omega

theorem Laid.behind (laid : Laid c p) (i : Nat) : p.blocks + p.capacity * p.blockSize ≤ p.bitmapAt + i / 8 := by
  have at_ := laid.bitmapAt
  omega

theorem Laid.end_eq (laid : Laid c p) :
    c.wrap (p.blocks + c.wrap (p.capacity * p.blockSize)) = p.blocks + p.capacity * p.blockSize := by
  have room := laid.room
  have at_ := laid.bitmapAt
  unfold Config.wrap
  rw [Nat.mod_eq_of_lt (show p.capacity * p.blockSize < c.limit by omega),Nat.mod_eq_of_lt (by omega)]

theorem bitmapTest_frame (frame : Frame p p') (same : p'.memory (p.bitmapAt + i / 8) = p.memory (p.bitmapAt + i / 8)) :
    p'.bitmapTest i = p.bitmapTest i := by
  rw [bitmapTest_eq,bitmapTest_eq,frame.bitmapAt,same]

namespace Sound

section

variable (sound : Sound c p out free)
include sound

theorem member : x ∈ starts p ↔ x ∈ free ∨ x ∈ out := by
  rw [← sound.parts.mem_iff,mem_append]

theorem apart (left : x ∈ free) (right : x ∈ out) : False := by
  have sized := (sound.laid.occupied (sound.member.mpr (.inr right))).1
  have nodup := sound.parts.nodup_iff.mpr (starts_nodup sized)
  exact (nodup_append.mp nodup).2.2 x left x right rfl

theorem distinct (right : x ∈ out) : out.Nodup := by
  have sized := (sound.laid.occupied (sound.member.mpr (.inr right))).1
  have nodup := sound.parts.nodup_iff.mpr (starts_nodup sized)
  exact (nodup_append.mp nodup).2.1

theorem write (member : x ∈ out) (frame : Frame p p') (list : p'.freeList = p.freeList)
    (used : p'.usedCount = p.usedCount) (outside : ∀ y,y < x ∨ x + p.blockSize ≤ y → p'.memory y = p.memory y) :
    Sound c p' out free := by
  have here := sound.member.mpr (.inr member)
  refine ⟨sound.laid.frame frame,?_,?_,?_,?_⟩
  · rw [list]
    refine sound.chain.frame fun y there => outside y ?_
    have positive := (sound.laid.occupied here).1
    have beside := start_apart here (sound.member.mpr (.inl there)) (by rintro rfl; exact sound.apart there member)
    omega
  · rw [frame.starts]
    exact sound.parts
  · rw [used]
    exact sound.used
  · intro mapped i less
    rw [frame.capacity] at less
    have behind := sound.laid.behind i
    have inside := start_inside here
    rw [bitmapTest_frame frame (outside _ (by omega)),frame.blocks,frame.blockSize]
    exact sound.marked mapped i less

theorem counted (stats : BytePool.Stats) : Sound c {p with
    stats := stats} out free :=
  ⟨⟨sound.laid.valid,sound.laid.sized,sound.laid.few,sound.laid.bitmapAt,sound.laid.room⟩,sound.chain,sound.parts,
    sound.used,sound.marked⟩

end

end Sound

theorem checkFill_frame (c : Config) (p : Pool) (address size value : Nat) : Frame p (p.checkFill c address size value) ∧
    (p.checkFill c address size value).freeList = p.freeList ∧ (p.checkFill c address size value).usedCount = p.usedCount := by
  unfold Pool.checkFill
  split <;> exact ⟨⟨rfl,rfl,rfl,rfl⟩,rfl,rfl⟩

theorem checkFill_outside {address size : Nat} (p : Pool) (value : Nat) (outside : x < address ∨ address + size ≤ x) :
    (p.checkFill c address size value).memory x = p.memory x := by
  unfold Pool.checkFill
  split
  · refine if_neg ?_
    omega
  · rfl

theorem put_bitmap (laid : Laid c p) (k value : Nat) (member : x ∈ starts p) :
    (p.put (p.bitmapAt + (k >>> 3)) value).memory x = p.memory x := by
  have inside := start_inside member
  have behind := laid.behind k
  have sized := (laid.occupied member).1
  refine update_of_ne ?_ _ _
  rw [(bitmap_place k).2]
  omega

theorem pop_sound (sound : Sound c p out free) (some_ : p.freeList ≠ 0) : ∃ p' rest,
    p.popFreeList c = some (p',p.freeList) ∧ Sound c p' (out ++ [p.freeList]) rest ∧ Frame p p' := by
  obtain ⟨rest,split,chain⟩ := sound.chain.pop some_
  have here : p.freeList ∈ starts p := sound.member.mpr (.inl (by simp [split]))
  obtain ⟨sized,_,_⟩ := sound.laid.occupied here
  obtain ⟨k,_,at_⟩ := mem_starts.mp here
  have index : (p.freeList - p.blocks) / p.blockSize = k := by
    rw [← at_]
    exact start_index sized k
  have parts : (rest ++ (out ++ [p.freeList])).Perm (starts p) := by
    refine List.Perm.trans ?_ sound.parts
    rw [split,← append_assoc]
    exact perm_append_singleton _ _
  unfold Pool.popFreeList
  rw [if_neg some_]
  dsimp only
  rw [index]
  generalize marking : (if c.bitmap = true then Pool.bitmapSet {p with
      freeList := p.memory p.freeList,usedCount := p.usedCount + 1,stats := p.stats.recordAllocate p.blockSize} k
    else {p with
      freeList := p.memory p.freeList,usedCount := p.usedCount + 1,stats := p.stats.recordAllocate p.blockSize}) = q
  have frame : Frame p q ∧ q.freeList = p.memory p.freeList ∧ q.usedCount = p.usedCount + 1 := by
    rw [← marking]
    split <;> exact ⟨⟨rfl,rfl,rfl,rfl⟩,rfl,rfl⟩
  have same : ∀ x ∈ starts p,q.memory x = p.memory x := by
    intro x member
    rw [← marking]
    split
    · exact put_bitmap sound.laid k _ member
    · rfl
  have marked : c.bitmap = true → ∀ i < p.capacity,q.bitmapTest i = decide (p.blocks + i * p.blockSize ∈ out ++ [p.freeList]) := by
    intro mapped i less
    rw [← marking,if_pos mapped,bitmapSet_test]
    have before : Pool.bitmapTest {p with
        freeList := p.memory p.freeList,usedCount := p.usedCount + 1,stats := p.stats.recordAllocate p.blockSize} i =
      decide (p.blocks + i * p.blockSize ∈ out) := sound.marked mapped i less
    have only : p.blocks + i * p.blockSize = p.freeList ↔ i = k := by
      rw [← at_]
      exact ⟨start_inj sized,fun same => by rw [same]⟩
    rw [before,← Bool.decide_or,decide_eq_decide,mem_append,mem_singleton,only]
    exact or_comm
  have taken : Sound c q (out ++ [p.freeList]) rest := by
    refine ⟨sound.laid.frame frame.1,?_,?_,?_,?_⟩
    · rw [frame.2.1]
      exact chain.frame fun x there => same x (sound.member.mpr (.inl (by simp [split,there])))
    · rw [frame.1.starts]
      exact parts
    · rw [frame.2.2,sound.used,length_append,length_singleton]
    · rw [frame.1.capacity,frame.1.blocks,frame.1.blockSize]
      exact marked
  obtain ⟨filled,list,used⟩ := checkFill_frame c q p.freeList q.blockSize fillAlloc
  refine ⟨_,rest,rfl,?_,frame.1.trans filled⟩
  refine taken.write (x := p.freeList) (by simp) filled list used fun y outside => ?_
  exact checkFill_outside q fillAlloc outside

theorem release_sound (sound : Sound c p out free) (member : ptr ∈ out) (frame : Frame p q) (list : q.freeList = p.freeList)
    (used : q.usedCount = p.usedCount) (same : ∀ x ∈ starts p,q.memory x = p.memory x)
    (marked : c.bitmap = true → ∀ i < p.capacity,q.bitmapTest i = decide (p.blocks + i * p.blockSize ∈ out.erase ptr)) :
    Sound c (q.release c ptr) (out.erase ptr) (ptr :: free) ∧ Frame p (q.release c ptr) := by
  have here := sound.member.mpr (.inr member)
  obtain ⟨sized,_,given⟩ := sound.laid.occupied here
  have inside := start_inside here
  unfold Pool.release
  dsimp only
  obtain ⟨filled,list',used'⟩ := checkFill_frame c q (ptr + c.wordBytes) (q.blockSize - c.wordBytes) fillFree
  have outside : ∀ y,y < ptr ∨ ptr + p.blockSize ≤ y →
      (q.checkFill c (ptr + c.wordBytes) (q.blockSize - c.wordBytes) fillFree).memory y = q.memory y := by
    intro y outside
    refine checkFill_outside q fillFree ?_
    have wide := sound.laid.sized fun none => by
      rw [starts,none] at here
      cases here
    rw [frame.blockSize]
    omega
  generalize q.checkFill c (ptr + c.wordBytes) (q.blockSize - c.wordBytes) fillFree = r at *
  have whole : Frame p r := frame.trans filled
  have pushed : Frame p {r.push ptr with
      usedCount := (r.push ptr).usedCount - 1,stats := (r.push ptr).stats.recordFree (r.push ptr).blockSize} :=
    ⟨whole.blocks,whole.bitmapAt,whole.blockSize,whole.capacity⟩
  refine ⟨⟨sound.laid.frame pushed,?_,?_,?_,?_⟩,pushed⟩
  · have others : ∀ x ∈ free,r.memory x = p.memory x := by
      intro x there
      have at_ := sound.member.mpr (.inl there)
      have beside := start_apart here at_ (by rintro rfl; exact sound.apart there member)
      rw [outside x (by omega)]
      exact same x at_
    have chain : Chain r.memory r.freeList free := by
      rw [list',list]
      exact sound.chain.frame others
    exact chain.push given fun there => sound.apart there member
  · rw [pushed.starts]
    refine List.Perm.trans ?_ sound.parts
    refine List.Perm.trans ?_ ((perm_cons_erase member).symm.append_left free)
    exact perm_middle.symm
  · show r.usedCount - 1 = _
    rw [used',used,sound.used,length_erase_of_mem member]
  · intro mapped i less
    have less : i < p.capacity := by
      rw [← pushed.capacity]
      exact less
    have behind := sound.laid.behind i
    have kept : update r.memory ptr r.freeList (q.bitmapAt + i / 8) = q.memory (q.bitmapAt + i / 8) := by
      rw [frame.bitmapAt,update_of_ne (by omega),outside _ (by omega)]
    have onto : Frame q {r.push ptr with
        usedCount := (r.push ptr).usedCount - 1,stats := (r.push ptr).stats.recordFree (r.push ptr).blockSize} :=
      ⟨filled.blocks,filled.bitmapAt,filled.blockSize,filled.capacity⟩
    refine (bitmapTest_frame onto kept).trans ?_
    show _ = decide (r.blocks + i * r.blockSize ∈ out.erase ptr)
    rw [whole.blocks,whole.blockSize]
    exact marked mapped i less

theorem onFreeList_chain {fuel node : Nat} (chain : Chain p.memory node free) (enough : free.length < fuel) :
    p.onFreeList ptr fuel node = some (decide (ptr ∈ free)) := by
  induction fuel generalizing node free with
  | zero => omega
  | succ fuel ih =>
    rw [Pool.onFreeList]
    cases free with
    | nil =>
      have ended : node = 0 := chain
      simp [ended]
    | cons b rest =>
      obtain ⟨at_,some_,chain⟩ := chain
      subst at_
      rw [if_pos some_]
      by_cases here : node = ptr
      · simp [here]
      · rw [if_neg here,ih chain (by simpa using enough)]
        simp [Ne.symm here]

theorem free_out (sound : Sound c p out free) (member : ptr ∈ out) :
    ∃ p',p.free c ptr = some (p',true) ∧ Sound c p' (out.erase ptr) (ptr :: free) ∧ Frame p p' := by
  have here := sound.member.mpr (.inr member)
  obtain ⟨sized,base,given⟩ := sound.laid.occupied here
  have inside := start_inside here
  obtain ⟨k,less,start⟩ := mem_starts.mp here
  have index : (ptr - p.blocks) / p.blockSize = k := by
    rw [← start]
    exact start_index sized k
  have even : (ptr - p.blocks) % p.blockSize = 0 := by
    rw [← start,Nat.add_sub_cancel_left]
    exact Nat.mul_mod_left _ _
  have some_ : p.usedCount ≠ 0 := by
    rw [sound.used]
    have := length_pos_of_mem member
    omega
  have distinct := sound.distinct member
  unfold Pool.free
  rw [if_pos ⟨given,base⟩]
  dsimp only
  rw [sound.laid.end_eq,if_neg (by omega),if_neg (fun odd => odd even),if_neg some_,index]
  split
  · rename_i mapped
    have marked := sound.marked mapped
    have set : p.bitmapTest k = true := by
      rw [marked k less,start]
      exact decide_eq_true member
    rw [set,if_neg (by decide)]
    refine ⟨_,rfl,release_sound sound member ⟨rfl,rfl,rfl,rfl⟩ rfl rfl (fun x there => put_bitmap sound.laid k _ there) ?_⟩
    intro _ i below
    rw [bitmapClear_test,marked i below,← Bool.decide_and,decide_eq_decide,distinct.mem_erase_iff]
    have only : p.blocks + i * p.blockSize = ptr ↔ i = k := by
      rw [← start]
      exact ⟨start_inj sized,fun same => by rw [same]⟩
    rw [ne_eq,ne_eq,only]
  · rename_i unmapped
    have vacuous : c.bitmap = true → ∀ i < p.capacity,p.bitmapTest i = decide (p.blocks + i * p.blockSize ∈ out.erase ptr) :=
      fun mapped => absurd mapped unmapped
    have released := release_sound (q := p) sound member ⟨rfl,rfl,rfl,rfl⟩ rfl rfl (fun _ _ => rfl) vacuous
    split
    · have few := sound.parts.length_eq
      rw [length_append,starts,length_map,length_range] at few
      have absent : ptr ∉ free := fun there => sound.apart there member
      rw [onFreeList_chain sound.chain (by omega),Option.map_some,decide_eq_false absent]
      exact ⟨_,rfl,released⟩
    · exact ⟨_,rfl,released⟩

theorem free_foreign (sound : Sound c p out free) (other : ptr ∉ out)
    (told : c.bitmap = true ∨ c.checks = true ∨ ptr ∉ starts p ∨ out = []) : p.free c ptr = some (p,false) := by
  unfold Pool.free
  split
  · rename_i given
    dsimp only
    split
    · rfl
    · rename_i inside
      split
      · rfl
      · rename_i even
        rw [sound.laid.end_eq] at inside
        have wide := c.wide
        have sized := sound.laid.sized (sound.laid.valid.mp given.2)
        have parts := Nat.div_add_mod (ptr - p.blocks) p.blockSize
        have less : (ptr - p.blocks) / p.blockSize < p.capacity :=
          (Nat.div_lt_iff_lt_mul (by omega)).mpr (by omega)
        have start : p.blocks + (ptr - p.blocks) / p.blockSize * p.blockSize = ptr := by
          rw [Nat.mul_comm]
          omega
        have here : ptr ∈ starts p := mem_starts.mpr ⟨_,less,start⟩
        split
        · rfl
        · rename_i busy
          split
          · -- The bit of a block that has not been handed out is clear.
            rename_i mapped
            have clear : p.bitmapTest ((ptr - p.blocks) / p.blockSize) = false := by
              rw [sound.marked mapped _ less,start]
              exact decide_eq_false other
            exact if_pos clear
          · rename_i unmapped
            split
            · -- The walk over the free list meets it.
              have few := sound.parts.length_eq
              rw [length_append,starts,length_map,length_range] at few
              have idle := (sound.member.mp here).resolve_right other
              rw [onFreeList_chain sound.chain (by omega),decide_eq_true idle]
              rfl
            · rename_i unchecked
              rcases told with mapped | checked | elsewhere | nothing
              · exact absurd mapped unmapped
              · exact absurd checked unchecked
              · exact absurd here elsewhere
              · rw [sound.used,nothing] at busy
                exact absurd rfl busy
  · rfl

def Effect (c : Config) (p : Pool) (out : List Nat) (sec : Sect) : Prop :=
  Frame p sec.shared ∧ ∃ free,Sound c sec.shared (sec.log.foldl track out) free

variable {env : Ambient} {sec : Sect} {r : Request}

section

variable (sound : Sound c p out free)
include sound

theorem Effect.none (answer : Answer) : Effect c p out {shared := p,ending := .done answer} :=
  ⟨⟨rfl,rfl,rfl,rfl⟩,free,sound⟩

theorem pop_effect (ready : p.freeList ≠ 0)
    (ended : (p.popFreeList c).map (fun popped =>
      {shared := popped.1,log := [.got popped.2],ending := .done (.alloc .signal popped.2)}) = some sec) : Effect c p out sec := by
  obtain ⟨p',rest,popped,taken,frame⟩ := pop_sound sound ready
  rw [popped,Option.map_some] at ended
  cases ended
  exact ⟨frame,rest,taken⟩

theorem allocEnded_effect {result : Wakeup} (ended : allocEnded c p result = some sec)
    (some_ : result = .signal → p.freeList ≠ 0) : Effect c p out sec := by
  unfold allocEnded at ended
  dsimp only at ended
  by_cases late : result = .timeout ∧ p.freeList ≠ 0
  · rw [if_pos late,if_pos rfl] at ended
    exact pop_effect sound late.2 ended
  · rw [if_neg late] at ended
    split at ended
    · rename_i signal
      exact pop_effect sound (some_ signal) ended
    · split at ended
      · cases ended
        exact ⟨⟨rfl,rfl,rfl,rfl⟩,free,sound.counted _⟩
      · cases ended
        exact .none sound _

theorem allocLoop_effect {budget : Budget} (ended : allocLoop c env p budget = some sec) :
    Effect c p out sec := by
  unfold allocLoop at ended
  split at ended
  · rename_i ready
    exact allocEnded_effect sound ended fun _ => ready
  · rcases waitEx_cases ended with ⟨_,failed⟩ | ⟨_,failed⟩ | ⟨_,rfl⟩
    · exact allocEnded_effect sound failed fun signal => by cases signal
    · exact allocEnded_effect sound failed fun signal => by cases signal
    · exact ⟨⟨rfl,rfl,rfl,rfl⟩,free,sound⟩

end

-- A task writes only to a block that has been handed out, and calls Free() with anything that
-- Free() can tell from a free block.
def Fair (c : Config) (p : Pool) (out : List Nat) : Request → Prop
  | .alloc _ => True
  | .free ptr => ptr ∈ out ∨ c.bitmap = true ∨ c.checks = true ∨ ptr ∉ starts p ∨ out = []
  | .store address _ => ∃ b ∈ out,b ≤ address ∧ address < b + p.blockSize

instance (c : Config) (p : Pool) (out : List Nat) : (r : Request) → Decidable (Fair c p out r)
  | .alloc _ => inferInstanceAs (Decidable True)
  | .free ptr => inferInstanceAs (Decidable (ptr ∈ out ∨ c.bitmap = true ∨ c.checks = true ∨ ptr ∉ starts p ∨ out = []))
  | .store address _ => inferInstanceAs (Decidable (∃ b ∈ out,b ≤ address ∧ address < b + p.blockSize))

theorem enter_effect (sound : Sound c p out free) (fair : Fair c p out r) (entered : enter c env p r = some sec) :
    Effect c p out sec := by
  cases r with
  | alloc timeout =>
    rw [enter] at entered
    split at entered
    · cases entered
      exact .none sound _
    · split at entered
      · cases entered
        exact .none sound _
      · exact allocLoop_effect sound entered
  | free ptr =>
    rw [enter] at entered
    by_cases mine : ptr ∈ out
    · obtain ⟨p',freed,back,frame⟩ := free_out sound mine
      rw [freed,Option.map_some] at entered
      cases entered
      exact ⟨frame,_,back⟩
    · rw [free_foreign sound mine (Or.resolve_left fair mine),Option.map_some] at entered
      cases entered
      exact .none sound _
  | store address value =>
    obtain ⟨b,member,low,high⟩ := fair
    cases entered
    refine ⟨⟨rfl,rfl,rfl,rfl⟩,free,sound.write member ⟨rfl,rfl,rfl,rfl⟩ rfl rfl fun y outside => ?_⟩
    exact update_of_ne (by omega) _ _

theorem resume_effect {rest : Rest} {result : Wakeup} (sound : Sound c p out free)
    (resumed : resume c env p rest result = some sec) : Effect c p out sec := by
  obtain ⟨budget⟩ := rest
  by_cases signal : result = .signal
  · subst signal
    exact allocLoop_effect sound resumed
  · have resumed : allocEnded c p result = some sec := by
      rw [← resumed]
      cases result with
      | signal => exact absurd rfl signal
      | timeout | canceled | fail => rfl
    exact allocEnded_effect sound resumed fun same => absurd same signal

variable {T : Type} [DecidableEq T] {h h' : Arena T} {e : Happening T Request}

theorem handed_append (t : T) (log : List (T × Note)) (new : List Note) :
    handed (log ++ new.map fun o => (t,o)) = new.foldl track (handed log) := by
  simp [handed,foldl_append,comp_def]

def fair (c : Config) (h : Arena T) : Happening T Request → Bool
  | .call _ r _ _ => decide (Fair c h.shared (handed h.log) r)
  | _ => true

structure Kept (c : Config) (p : Pool) (h : Arena T) : Prop where
  frame : Frame p h.shared
  sound : ∃ free,Sound c h.shared (handed h.log) free

theorem Kept.perform (kept : Kept c p h) {call : Visit T Request Note} {from_ : Arena T} (log : from_.log = h.log)
    (effect : Effect c h.shared (handed h.log) sec) : Kept c p (from_.perform call sec) := by
  refine ⟨?_,?_⟩
  · rw [Hall.perform_shared]
    exact kept.frame.trans effect.1
  · rw [Hall.perform_shared,Hall.perform_log,log,handed_append]
    exact effect.2

theorem Kept.quiet (kept : Kept c p h) (quiet : Hall.Quiet h h') : Kept c p h' := by
  refine ⟨?_,?_⟩
  · rw [quiet.shared]
    exact kept.frame
  · rw [quiet.shared,quiet.log]
    exact kept.sound

theorem Kept.step (kept : Kept c p h) (allowed : fair c h e = true) (step : Hall.Step (program c) h e h') : Kept c p h' := by
  obtain ⟨free,sound⟩ := kept.sound
  cases step with
  | call _ entered => exact kept.perform rfl (enter_effect sound (of_decide_eq_true allowed) entered)
  | run _ _ resumed => exact kept.perform rfl (resume_effect sound resumed)
  | @proceed _ paused _ _ _ sec _ _ resumed =>
    have resumed : resume c _ h.shared paused.rest .signal = some sec := resumed
    exact kept.perform rfl (resume_effect sound resumed)
  | tick => exact kept.quiet h.elapse_quiet
  | cancel split _ => exact kept.quiet (Hall.cancel_quiet split)

theorem Sound.length (sound : Sound c p out free) : p.usedCount + free.length = p.capacity := by
  have whole := sound.parts.length_eq
  rw [length_append,starts,length_map,length_range] at whole
  rw [sound.used]
  omega

theorem Sound.listed (sound : Sound c p out free) : x ∈ free ↔ x ∈ starts p ∧ x ∉ out := by
  rw [sound.member]
  constructor
  · intro there
    exact ⟨.inl there,sound.apart there⟩
  · rintro ⟨there | there,other⟩
    · exact there
    · exact absurd there other

def mapped : Config := {wordBytes := 4,wide := Nat.le_refl 4,bitmap := true,checks := true}

def twice : List (Happening Nat Request) :=
  [.call 0 (.alloc 0) false false,.call 1 (.alloc 0) false false,.call 1 (.store 22 7) false false,
    .call 0 (.free 12) false false,.call 0 (.free 12) false false,.call 1 (.free 21) false false]

end SuperTinyKernel.BlockPool
