import Mathlib.Data.Nat.Basic
import Mathlib.Order.Bounds.Basic
import SuperTinyKernel.Library.Levels

namespace SuperTinyKernel

open Function

-- Scan<4>::Highest and Scan<8>::Highest.
def scan32 (v : BitVec 32) : Nat := 31 - v.clz.toNat

def scan64 (v : BitVec 64) : Nat :=
  let hi := v.extractLsb' 32 32
  if hi ≠ 0#32 then 63 - hi.clz.toNat else scan32 (v.extractLsb' 0 32)

def IsHighest (v : BitVec w) (i : Nat) : Prop := v.getLsbD i = true ∧ ∀ j,v.getLsbD j = true → j ≤ i

theorem scan32_spec {v : BitVec 32} (used : v ≠ 0#32) : IsHighest v (scan32 v) := by
  refine ⟨BitVec.getLsbD_true_clz_of_ne_zero (by decide) used,fun j bit => ?_⟩
  by_contra above
  have large : v.toNat < 2 ^ j := by
    refine lt_of_lt_of_le BitVec.toNat_lt_two_pow_sub_clz (Nat.pow_le_pow_right (by decide) ?_)
    unfold scan32 at above; omega
  rw [← BitVec.testBit_toNat,Nat.testBit_lt_two_pow large] at bit
  cases bit

theorem clz_lt {v : BitVec 32} (used : v ≠ 0#32) : v.clz.toNat < 32 := by
  have := BitVec.clz_lt_iff_ne_zero.mpr used
  simpa [BitVec.lt_def] using this

theorem scan64_spec {v : BitVec 64} (used : v ≠ 0#64) : IsHighest v (scan64 v) := by
  have high : ∀ j,(v.extractLsb' 32 32).getLsbD j = (decide (j < 32) && v.getLsbD (32 + j)) :=
    fun j => BitVec.getLsbD_extractLsb' ..
  have low : ∀ j,(v.extractLsb' 0 32).getLsbD j = (decide (j < 32) && v.getLsbD j) := fun j => by simp
  unfold scan64
  by_cases hi : v.extractLsb' 32 32 = 0#32
  · have clear : ∀ j,32 ≤ j → v.getLsbD j = false := by
      intro j above
      by_cases inside : j < 64
      · have := high (j-32)
        rw [hi,show 32 + (j - 32) = j by omega] at this
        simpa [show j - 32 < 32 by omega] using this
      · exact BitVec.getLsbD_of_ge v j (by omega)
    have lower : v.extractLsb' 0 32 ≠ 0#32 := by
      intro zero
      refine used (BitVec.eq_of_getLsbD_eq fun j _ => ?_)
      by_cases inside : j < 32
      · have := low j
        rw [zero] at this
        simpa [inside] using this
      · simpa using clear j (by omega)
    simp only [hi,ne_eq,not_true_eq_false,↓reduceIte]
    obtain ⟨bit,above⟩ := scan32_spec lower
    refine ⟨by rw [low] at bit; simp_all,fun j set => ?_⟩
    refine above j ?_
    rw [low]
    have : j < 32 := by
      by_contra big
      rw [clear j (by omega)] at set
      cases set
    simp [this,set]
  · simp only [ne_eq,hi,not_false_eq_true,↓reduceIte]
    obtain ⟨bit,above⟩ := scan32_spec hi
    have less := clz_lt hi
    have shift : 63 - (v.extractLsb' 32 32).clz.toNat = 32 + scan32 (v.extractLsb' 32 32) := by
      unfold scan32; omega
    rw [shift]
    refine ⟨by rw [high] at bit; simp_all,fun j set => ?_⟩
    by_cases small : j < 32
    · omega
    · have := above (j-32) (by
        rw [high,show 32 + (j - 32) = j by omega,set]
        have : j < 64 := by
          by_contra big
          rw [BitVec.getLsbD_of_ge v j (by omega)] at set
          cases set
        simp; omega)
      omega

-- The generic PriorityBitmapTraits on an unsigned word that holds P bits.
def setBit (v : BitVec w) (i : Nat) : BitVec w := v ||| BitVec.twoPow w i
def clearBit (v : BitVec w) (i : Nat) : BitVec w := v &&& ~~~BitVec.twoPow w i
def testBit (v : BitVec w) (i : Nat) : Bool := decide (v &&& BitVec.twoPow w i ≠ 0#w)

theorem testBit_eq {v : BitVec w} (inside : i < w) : testBit v i = v.getLsbD i := by
  unfold testBit
  rw [BitVec.and_twoPow]
  cases bit : v.getLsbD i
  · simp
  · have : BitVec.twoPow w i ≠ 0#w := fun zero => by
      have := congrArg (BitVec.getLsbD · i) zero
      simp [inside] at this
    simp [this]

theorem getLsbD_setBit (v : BitVec w) (inside : i < w) : (setBit v i).getLsbD j = (decide (j = i) || v.getLsbD j) := by
  rw [setBit,BitVec.getLsbD_or,BitVec.getLsbD_twoPow,Bool.or_comm]
  simp [inside,eq_comm]

theorem getLsbD_clearBit (v : BitVec w) (inside : i < w) : (clearBit v i).getLsbD j = (!decide (j = i) && v.getLsbD j) := by
  rw [clearBit,BitVec.getLsbD_and,BitVec.getLsbD_not,BitVec.getLsbD_twoPow,Bool.and_comm]
  by_cases small : j < w
  · simp [inside,small,eq_comm]
  · simp [small,BitVec.getLsbD_of_ge v j (by omega)]

def wordSet (w P : Nat) (fits : P ≤ w) (highest : BitVec w → Nat)
    (spec : ∀ v : BitVec w,v ≠ 0#w → IsHighest v (highest v)) : IndexSet P where
  Carrier := {v : BitVec w // ∀ i,P ≤ i → v.getLsbD i = false}
  empty := ⟨0#w,by simp⟩
  set v p := ⟨setBit v.1 p,fun i above => by
    rw [getLsbD_setBit _ (by omega),v.2 i above]; simp; omega⟩
  clear v p := ⟨clearBit v.1 p,fun i above => by rw [getLsbD_clearBit _ (by omega),v.2 i above]; simp⟩
  isSet v p := testBit v.1 p
  isEmpty v := decide (v.1 = 0#w)
  highest v := highest v.1
  isSet_empty {p} := by rw [testBit_eq (by omega)]; simp
  isSet_set {b q p} := by
    rw [testBit_eq (by omega),testBit_eq (by omega),getLsbD_setBit _ (by omega)]
    simp [Fin.ext_iff]
  isSet_clear {b q p} := by
    rw [testBit_eq (by omega),testBit_eq (by omega),getLsbD_clearBit _ (by omega)]
    simp [Fin.ext_iff]
  isEmpty_iff {b} := by
    rw [decide_eq_true_eq]
    refine ⟨fun zero p => by rw [testBit_eq (by omega),zero]; simp,fun clear => BitVec.eq_of_getLsbD_eq fun j _ => ?_⟩
    by_cases inside : j < P
    · have := clear ⟨j,inside⟩
      rw [testBit_eq (by simpa using by omega)] at this
      simpa using this
    · simpa using b.2 j (by omega)
  highest_spec {b p} used := by
    have nonzero : b.1 ≠ 0#w := fun zero => by rw [testBit_eq (by omega),zero] at used; simp at used
    obtain ⟨bit,above⟩ := spec b.1 nonzero
    have inside : highest b.1 < P := by
      by_contra big
      rw [b.2 _ (by omega)] at bit
      cases bit
    refine ⟨⟨highest b.1,inside⟩,rfl,by rw [testBit_eq (by simpa using by omega)]; exact bit,fun r set => ?_⟩
    rw [testBit_eq (by omega)] at set
    exact above r set

-- PriorityBitmap<32 * W>: one summary bit for each word that has a bit set.
structure PriorityBitmap (W : Nat) where
  summary : BitVec 32
  words : Fin W → BitVec 32
  exact : ∀ w : Fin W,summary.getLsbD w = decide (words w ≠ 0#32)
  bounded : ∀ i,W ≤ i → summary.getLsbD i = false

namespace PriorityBitmap

variable {W : Nat} (fits : W ≤ 32)

def wordOf (bit : Fin (32 * W)) : Fin W := ⟨bit / 32,by omega⟩

def empty : PriorityBitmap W := ⟨0#32,fun _ => 0#32,by simp,by simp⟩

theorem setBit_ne_zero (v : BitVec 32) (inside : i < 32) : setBit v i ≠ 0#32 := fun zero => by
  have := congrArg (BitVec.getLsbD · i) zero
  simp [getLsbD_setBit v inside] at this

include fits in
def set (b : PriorityBitmap W) (bit : Fin (32 * W)) : PriorityBitmap W where
  summary := setBit b.summary (bit / 32)
  words := update b.words (wordOf bit) (setBit (b.words (wordOf bit)) (bit % 32))
  exact w := by
    rw [getLsbD_setBit _ (by omega)]
    by_cases at_ : w = wordOf bit
    · subst at_; simp [wordOf,setBit_ne_zero _ (Nat.mod_lt _ (by decide : 0 < 32))]
    · have : (w : Nat) ≠ bit / 32 := fun same => at_ (Fin.ext same)
      simp [at_,this,b.exact]
  bounded i above := by
    rw [getLsbD_setBit _ (by omega),b.bounded i above]; simp; omega

include fits in
def clear (b : PriorityBitmap W) (bit : Fin (32 * W)) : PriorityBitmap W where
  summary :=
    if clearBit (b.words (wordOf bit)) (bit % 32) = 0#32 then clearBit b.summary (bit / 32) else b.summary
  words := update b.words (wordOf bit) (clearBit (b.words (wordOf bit)) (bit % 32))
  exact w := by
    by_cases at_ : w = wordOf bit
    · subst at_
      split
      · rename_i zero
        rw [getLsbD_clearBit _ (by omega),update_self,zero]
        simp [wordOf]
      · rename_i used
        have before : b.words (wordOf bit) ≠ 0#32 := fun zero => used (by simp [zero,clearBit])
        simp [used,b.exact,before]
    · have : (w : Nat) ≠ bit / 32 := fun same => at_ (Fin.ext same)
      split
      · rw [getLsbD_clearBit _ (by omega)]
        simp [at_,this,b.exact]
      · simp [at_,b.exact]
  bounded i above := by
    split
    · rw [getLsbD_clearBit _ (by omega),b.bounded i above]; simp
    · exact b.bounded i above

def isSet (b : PriorityBitmap W) (bit : Fin (32 * W)) : Bool := testBit (b.words (wordOf bit)) (bit % 32)
def isEmpty (b : PriorityBitmap W) : Bool := decide (b.summary = 0#32)

def highestSet (b : PriorityBitmap W) : Nat :=
  if inside : scan32 b.summary < W then scan32 b.summary * 32 + scan32 (b.words ⟨scan32 b.summary,inside⟩)
  else scan32 b.summary * 32

section

variable (b : PriorityBitmap W)
include b

theorem isSet_eq (bit : Fin (32 * W)) : b.isSet bit = (b.words (wordOf bit)).getLsbD (bit % 32) :=
  testBit_eq (Nat.mod_lt _ (by decide))

theorem isSet_set (bit j : Fin (32 * W)) :
    (b.set fits bit).isSet j = (decide (j = bit) || b.isSet j) := by
  rw [isSet_eq,isSet_eq,set]
  have split : j = bit ↔ wordOf j = wordOf bit ∧ (j : Nat) % 32 = bit % 32 := by
    simp only [Fin.ext_iff,wordOf]; omega
  by_cases at_ : wordOf j = wordOf bit
  · simp [at_,getLsbD_setBit _ (Nat.mod_lt _ (by decide : 0 < 32)),split]
  · simp [at_,split]

theorem isSet_clear (bit j : Fin (32 * W)) :
    (b.clear fits bit).isSet j = (!decide (j = bit) && b.isSet j) := by
  rw [isSet_eq,isSet_eq,clear]
  have split : j = bit ↔ wordOf j = wordOf bit ∧ (j : Nat) % 32 = bit % 32 := by
    simp only [Fin.ext_iff,wordOf]; omega
  by_cases at_ : wordOf j = wordOf bit
  · simp [at_,getLsbD_clearBit _ (Nat.mod_lt _ (by decide : 0 < 32)),split]
  · simp [at_,split]

theorem isEmpty_iff : b.isEmpty = true ↔ ∀ bit,b.isSet bit = false := by
  rw [isEmpty,decide_eq_true_eq]
  refine ⟨fun zero bit => ?_,fun clear => BitVec.eq_of_getLsbD_eq fun w _ => ?_⟩
  · have := b.exact (wordOf bit)
    rw [zero] at this
    have zero : b.words (wordOf bit) = 0#32 := by simpa using this
    simp [isSet_eq,zero]
  · by_cases inside : w < W
    · rw [b.exact ⟨w,inside⟩]
      have zero : b.words ⟨w,inside⟩ = 0#32 := BitVec.eq_of_getLsbD_eq fun j small => by
        have := clear ⟨32 * w + j,by omega⟩
        rw [isSet_eq] at this
        simpa [wordOf,show (32 * w + j) / 32 = w by omega,show (32 * w + j) % 32 = j by omega] using this
      simp [zero]
    · simpa using b.bounded w (by omega)

theorem highestSet_spec {bit : Fin (32 * W)} (used : b.isSet bit = true) :
    ∃ top : Fin (32 * W),b.highestSet = top ∧ b.isSet top = true ∧ ∀ j,b.isSet j = true → j ≤ top := by
  have words : ∀ j,b.isSet j = true → b.summary.getLsbD (j / 32) = true := fun j set => by
    have := b.exact (wordOf j)
    rw [show b.summary.getLsbD (j / 32) = b.summary.getLsbD (wordOf j) from rfl,this,decide_eq_true_eq]
    intro zero
    simp [isSet_eq,zero] at set
  have nonzero : b.summary ≠ 0#32 := fun zero => by have := words bit used; simp [zero] at this
  obtain ⟨topWord,above⟩ := scan32_spec nonzero
  have inside : scan32 b.summary < W := by
    by_contra big
    rw [b.bounded _ (by omega)] at topWord
    cases topWord
  have wordUsed : b.words ⟨scan32 b.summary,inside⟩ ≠ 0#32 := by
    have := b.exact ⟨scan32 b.summary,inside⟩
    rw [topWord] at this
    simpa using this.symm
  obtain ⟨topBit,upper⟩ := scan32_spec wordUsed
  have small : scan32 (b.words ⟨scan32 b.summary,inside⟩) < 32 := by unfold scan32; omega
  have value : b.highestSet = scan32 b.summary * 32 + scan32 (b.words ⟨scan32 b.summary,inside⟩) := by
    simp [highestSet,inside]
  refine ⟨⟨b.highestSet,by omega⟩,rfl,?_,fun j set => ?_⟩
  · rw [isSet_eq]
    have word : wordOf ⟨b.highestSet,by omega⟩ = (⟨scan32 b.summary,inside⟩ : Fin W) := Fin.ext (by
      simp only [wordOf]; omega)
    rw [word,show b.highestSet % 32 = scan32 (b.words ⟨scan32 b.summary,inside⟩) by omega]
    exact topBit
  · have word := above _ (words j set)
    rw [Fin.le_def]
    by_cases same : (j : Nat) / 32 = scan32 b.summary
    · rw [isSet_eq] at set
      have at_ : wordOf j = (⟨scan32 b.summary,inside⟩ : Fin W) := Fin.ext same
      rw [at_] at set
      have := upper _ set
      simp only; omega
    · simp only; omega

end

inductive Call (W : Nat) where
  | set (bit : Fin (32 * W))
  | clear (bit : Fin (32 * W))

-- A call on the two-level bitmap, on a native word of 64 bits and on the set of bits.
def apply (b : PriorityBitmap W) : Call W → PriorityBitmap W
  | .set bit => b.set fits bit
  | .clear bit => b.clear fits bit

def applyWord (v : BitVec 64) : Call W → BitVec 64
  | .set bit => setBit v bit
  | .clear bit => clearBit v bit

def applySet (s : Set (Fin (32 * W))) : Call W → Set (Fin (32 * W))
  | .set bit => insert bit s
  | .clear bit => s \ {bit}

structure Represents (b : PriorityBitmap W) (v : BitVec 64) (s : Set (Fin (32 * W))) : Prop where
  bits : ∀ bit,b.isSet bit = true ↔ bit ∈ s
  word : 32 * W ≤ 64 → ∀ j,v.getLsbD j = true ↔ ∃ bit ∈ s,(bit : Nat) = j

theorem Represents.step {v : BitVec 64} {s : Set (Fin (32 * W))} {b : PriorityBitmap W} (same : Represents b v s) (c : Call W) :
    Represents (b.apply fits c) (applyWord v c) (applySet s c) := by
  cases c with
  | set bit =>
    refine ⟨fun j => by simp [apply,applySet,isSet_set,same.bits],fun small j => ?_⟩
    rw [applyWord,getLsbD_setBit v (by omega),Bool.or_eq_true,decide_eq_true_eq,same.word small]
    simp [applySet,eq_comm]
  | clear bit =>
    refine ⟨fun j => by simp [apply,applySet,isSet_clear,same.bits,and_comm],fun small j => ?_⟩
    rw [applyWord,getLsbD_clearBit v (by omega),Bool.and_eq_true,same.word small]
    simp only [Bool.not_eq_true',decide_eq_false_iff_not,applySet,Set.mem_sdiff,Set.mem_singleton_iff,Fin.ext_iff]
    exact ⟨fun ⟨apart,k,member,at_⟩ => ⟨k,⟨member,at_ ▸ apart⟩,at_⟩,fun ⟨k,⟨member,apart⟩,at_⟩ => ⟨at_ ▸ apart,k,member,at_⟩⟩

theorem Represents.run {v : BitVec 64} {s : Set (Fin (32 * W))} {b : PriorityBitmap W} (same : Represents b v s) (calls : List (Call W)) :
    Represents (calls.foldl (apply fits) b) (calls.foldl applyWord v) (calls.foldl applySet s) := by
  induction calls generalizing b v s with
  | nil => exact same
  | cons c rest ih => exact ih (same.step fits c)

theorem bitmap_represents (calls : List (Call W)) :
    let b := calls.foldl (apply fits) empty
    let v := calls.foldl applyWord 0#64
    let s := calls.foldl applySet ∅
    (∀ bit,b.isSet bit = true ↔ bit ∈ s) ∧ (b.isEmpty = true ↔ s = ∅) ∧
    (∀ w : Fin W,b.summary.getLsbD w = true ↔ b.words w ≠ 0#32) ∧
    (s.Nonempty → ∃ top : Fin (32 * W),b.highestSet = top ∧ IsGreatest s top) ∧
    (32 * W ≤ 64 → (∀ bit : Fin (32 * W),testBit v bit = b.isSet bit) ∧ decide (v = 0#64) = b.isEmpty ∧
      (s.Nonempty → scan64 v = b.highestSet)) := by
  intro b v s
  have same : Represents b v s := .run fits ⟨by simp [isSet_eq,empty],by simp⟩ calls
  have none : b.isEmpty = true ↔ s = ∅ := by
    rw [isEmpty_iff,Set.eq_empty_iff_forall_notMem]
    exact forall_congr' fun bit => by rw [← same.bits,Bool.not_eq_true]
  have highest : s.Nonempty → ∃ top : Fin (32 * W),b.highestSet = top ∧ IsGreatest s top := by
    rintro ⟨bit,member⟩
    obtain ⟨top,value,set,above⟩ := b.highestSet_spec ((same.bits bit).mpr member)
    exact ⟨top,value,(same.bits top).mp set,fun j inside => above j ((same.bits j).mpr inside)⟩
  refine ⟨same.bits,none,fun w => by rw [b.exact,decide_eq_true_eq],highest,fun small => ⟨fun bit => ?_,?_,fun some => ?_⟩⟩
  · rw [testBit_eq (by omega),Bool.eq_iff_iff,same.word small,same.bits]
    exact ⟨fun ⟨j,member,at_⟩ => Fin.ext at_ ▸ member,fun member => ⟨bit,member,rfl⟩⟩
  · rw [Bool.eq_iff_iff,decide_eq_true_eq,none,Set.eq_empty_iff_forall_notMem]
    refine ⟨fun zero bit member => ?_,fun clear => BitVec.eq_of_getLsbD_eq fun j _ => ?_⟩
    · have := (same.word small bit).mpr ⟨bit,member,rfl⟩
      simp [zero] at this
    · rw [BitVec.getLsbD_zero,← Bool.not_eq_true,same.word small]
      exact fun ⟨bit,member,_⟩ => clear bit member
  · obtain ⟨top,value,member,above⟩ := highest some
    have used : v ≠ 0#64 := fun zero => by have := (same.word small top).mpr ⟨top,member,rfl⟩; simp [zero] at this
    obtain ⟨bit,upper⟩ := scan64_spec used
    obtain ⟨j,inside,at_⟩ := (same.word small _).mp bit
    rw [value]
    exact le_antisymm (at_ ▸ above inside) (upper top ((same.word small top).mpr ⟨top,member,rfl⟩))

def setTwice : List (Call 2) := [.set 3,.set 40,.clear 3]

theorem setTwice_represents : scan64 (setTwice.foldl applyWord 0#64) = (setTwice.foldl (apply (by decide)) empty).highestSet := by
  obtain ⟨_,_,_,_,native⟩ := bitmap_represents (by decide) setTwice
  exact (native (by decide)).2.2 ⟨40,by simp [setTwice,applySet]⟩

end PriorityBitmap

-- The two-level bitmap as a set of the first `P` of its bits.
def wordsSet (W P : Nat) (fits : W ≤ 32) (small : P ≤ 32 * W) : IndexSet P where
  Carrier := {b : PriorityBitmap W // ∀ bit : Fin (32 * W),P ≤ bit → b.isSet bit = false}
  empty := ⟨.empty,fun bit _ => by simp [PriorityBitmap.isSet_eq,PriorityBitmap.empty]⟩
  set b p := ⟨b.1.set fits (p.castLE small),fun bit above => by
    rw [PriorityBitmap.isSet_set,b.2 bit above]; simp [Fin.ext_iff]; omega⟩
  clear b p := ⟨b.1.clear fits (p.castLE small),fun bit above => by
    rw [PriorityBitmap.isSet_clear,b.2 bit above]; simp⟩
  isSet b p := b.1.isSet (p.castLE small)
  isEmpty b := b.1.isEmpty
  highest b := b.1.highestSet
  isSet_empty {p} := by simp [PriorityBitmap.isSet_eq,PriorityBitmap.empty]
  isSet_set {b q p} := by simp [PriorityBitmap.isSet_set]
  isSet_clear {b q p} := by simp [PriorityBitmap.isSet_clear]
  isEmpty_iff {b} := by
    rw [PriorityBitmap.isEmpty_iff]
    refine ⟨fun clear p => clear _,fun clear bit => ?_⟩
    by_cases inside : (bit : Nat) < P
    · exact clear ⟨bit,inside⟩
    · exact b.2 bit (by omega)
  highest_spec {b p} used := by
    obtain ⟨top,value,set,above⟩ := b.1.highestSet_spec used
    have inside : (top : Nat) < P := by
      by_contra big
      rw [b.2 top (by omega)] at set
      cases set
    exact ⟨⟨top,inside⟩,value,set,fun r there => above (r.castLE small) there⟩

-- ReadyBitmapSelect<P>::Type: one word where the priorities fit, the two-level bitmap
-- otherwise.
def readyBitmapSelect (P : Nat) (fits : P ≤ 1024) : IndexSet P :=
  if one : P ≤ 32 then wordSet 32 P one scan32 fun _ => scan32_spec
  else if two : P ≤ 64 then wordSet 64 P two scan64 fun _ => scan64_spec
  else wordsSet ((P + 31) / 32) P (by omega) (by omega)

end SuperTinyKernel
