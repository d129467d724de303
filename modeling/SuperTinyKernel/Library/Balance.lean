import Mathlib.Algebra.BigOperators.Ring.Finset
import Mathlib.Algebra.Order.BigOperators.Group.Finset
import Mathlib.Data.Int.Order.Basic
import Mathlib.Tactic.Ring
import Mathlib.Tactic.Linarith

-- In each round every member earns its weight, and one that is served pays the weight of all.
-- If it has a positive balance then, each is served in proportion to its weight.
namespace Balance

variable {ι : Type} [DecidableEq ι] {s : Finset ι} {w : ι → Int}

def total (s : Finset ι) (w : ι → Int) : Int := s.sum w

def settle (s : Finset ι) (w x : ι → Int) (i j : ι) : Int := x j + w j - if j = i then total s w else 0

inductive Rounds (s : Finset ι) (w : ι → Int) : (ι → Int) → List ι → (ι → Int) → Prop where
  | nil : Rounds s w x [] x
  | snoc : Rounds s w x log y → i ∈ s → 0 < y i + w i → (∀ j ∈ s,z j = settle s w y i j) → Rounds s w x (i :: log) z

variable {x y z : ι → Int} {log : List ι}

section

variable (rounds : Rounds s w x log y)
include rounds

theorem Rounds.balance :
    ∀ j ∈ s,y j = x j + log.length * w j - total s w * log.count j := by
  induction rounds with
  | nil => simp
  | snoc _ _ _ settled ih =>
    intro j inside
    rw [settled j inside,settle,ih j inside,List.length_cons,List.count_cons]
    split
    · rename_i same
      subst same
      simp only [beq_self_eq_true,if_true]
      push_cast
      ring
    · rename_i other
      rw [if_neg (by simpa using Ne.symm other)]
      push_cast
      ring

theorem Rounds.served : ∀ i ∈ log,i ∈ s := by
  induction rounds with
  | nil => simp
  | snoc _ inside _ _ ih =>
    intro j served
    rcases List.mem_cons.mp served with rfl | earlier
    · exact inside
    · exact ih j earlier

theorem Rounds.solvent (positive : ∀ j ∈ s,0 < w j) (start : ∀ j ∈ s,-total s w < x j) :
    ∀ j ∈ s,-total s w < y j := by
  induction rounds with
  | nil => exact start
  | snoc _ _ able settled ih =>
    intro j inside
    have := ih j inside
    have := positive j inside
    rw [settled j inside,settle]
    split
    · rename_i same
      subst same
      linarith
    · linarith

theorem Rounds.count_sum : s.sum (fun j => (log.count j : Int)) = log.length := by
  have covered := Multiset.sum_count_eq_card (s := s) (m := (log : Multiset ι))
    fun i served => rounds.served i (Multiset.mem_coe.mp served)
  simp only [Multiset.coe_count,Multiset.coe_card] at covered
  rw [← covered]
  push_cast
  rfl

end

omit [DecidableEq ι] in
theorem total_pos (some_ : s.Nonempty) (positive : ∀ j ∈ s,0 < w j) : 0 < total s w := Finset.sum_pos positive some_

theorem Rounds.payer (rounds : Rounds s w x log y) (some_ : s.Nonempty) (positive : ∀ j ∈ s,0 < w j)
    (start : ∀ j ∈ s,x j = 0) : ∃ j ∈ s,0 < y j + w j := by
  refine Finset.exists_lt_of_sum_lt (f := fun _ => 0) ?_
  have sum : s.sum (fun j => y j + w j) = total s w := calc
    s.sum (fun j => y j + w j) = s.sum fun j => (log.length + 1) * w j - total s w * log.count j := by
      refine Finset.sum_congr rfl fun j inside => ?_
      rw [rounds.balance j inside,start j inside]
      ring
    _ = (log.length + 1) * total s w - total s w * log.length := by
      rw [Finset.sum_sub_distrib,← Finset.mul_sum,← Finset.mul_sum,rounds.count_sum]
      rfl
    _ = total s w := by ring
  rw [sum,Finset.sum_const_zero]
  exact total_pos some_ positive

theorem Rounds.fair (rounds : Rounds s w x log y) (positive : ∀ j ∈ s,0 < w j) (start : ∀ j ∈ s,x j = 0)
    (cycle : log.length = total s w) : ∀ j ∈ s,log.count j = w j ∧ y j = 0 := by
  have least : ∀ j ∈ s,(log.count j : Int) ≤ w j := by
    intro j inside
    have positive_ : 0 < total s w := total_pos ⟨j,inside⟩ positive
    have owes := rounds.solvent positive (fun k member => by rw [start k member]; linarith) j inside
    rw [rounds.balance j inside,start j inside,cycle] at owes
    by_contra more
    have : total s w * (w j + 1) ≤ total s w * log.count j := mul_le_mul_of_nonneg_left (by omega) positive_.le
    linarith
  have exact_ : ∀ j ∈ s,(log.count j : Int) = w j :=
    (Finset.sum_eq_sum_iff_of_le least).mp (rounds.count_sum.trans cycle)
  intro j inside
  refine ⟨exact_ j inside,?_⟩
  rw [rounds.balance j inside,start j inside,cycle,exact_ j inside]
  ring

end Balance
