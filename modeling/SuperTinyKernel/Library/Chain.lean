import Mathlib.Data.List.Nodup
import Mathlib.Logic.Function.Basic

-- Cells of a memory that are linked through their first words, up to the null link.
namespace Linked

open Function List

def Chain (memory : Nat → Nat) : Nat → List Nat → Prop
  | head,[] => head = 0
  | head,a :: rest => head = a ∧ a ≠ 0 ∧ Chain memory (memory a) rest

variable {memory memory' : Nat → Nat} {head a : Nat} {xs ys : List Nat}

namespace Chain

theorem frame (chain : Chain memory head xs) (same : ∀ a ∈ xs,memory' a = memory a) : Chain memory' head xs := by
  induction xs generalizing head with
  | nil => exact chain
  | cons a rest ih =>
    obtain ⟨at_,some_,chain⟩ := chain
    refine ⟨at_,some_,?_⟩
    rw [same a mem_cons_self]
    exact ih chain fun b member => same b (mem_cons_of_mem _ member)

theorem unique (chain : Chain memory head xs) (other : Chain memory head ys) : xs = ys := by
  induction xs generalizing head ys with
  | nil =>
    have ended : head = 0 := chain
    cases ys with
    | nil => rfl
    | cons b rest =>
      obtain ⟨at_,some_,_⟩ := other
      omega
  | cons a rest ih =>
    obtain ⟨at_,some_,chain⟩ := chain
    cases ys with
    | nil =>
      have ended : head = 0 := other
      omega
    | cons b rest' =>
      obtain ⟨at',_,other⟩ := other
      subst at_ at'
      rw [ih chain other]

theorem suffix (chain : Chain memory head (xs ++ a :: ys)) : Chain memory a (a :: ys) := by
  induction xs generalizing head with
  | nil =>
    obtain ⟨_,some_,chain⟩ := chain
    exact ⟨rfl,some_,chain⟩
  | cons b rest ih => exact ih chain.2.2

theorem nodup (chain : Chain memory head xs) : xs.Nodup := by
  induction xs generalizing head with
  | nil => exact .nil
  | cons a rest ih =>
    obtain ⟨_,some_,chain⟩ := chain
    refine nodup_cons.mpr ⟨?_,ih chain⟩
    intro again
    obtain ⟨before,after,split⟩ := append_of_mem again
    rw [split] at chain
    have whole : Chain memory a (a :: (before ++ a :: after)) := ⟨rfl,some_,chain⟩
    have same := chain.suffix.unique whole
    have shorter := congrArg List.length same
    simp only [length_cons,length_append] at shorter
    omega

theorem push (chain : Chain memory head xs) (some_ : a ≠ 0) (fresh : a ∉ xs) :
    Chain (update memory a head) a (a :: xs) := by
  refine ⟨rfl,some_,?_⟩
  rw [update_self]
  refine chain.frame fun b member => update_of_ne ?_ _ _
  rintro rfl
  exact fresh member

theorem pop (chain : Chain memory head xs) (some_ : head ≠ 0) : ∃ rest,xs = head :: rest ∧ Chain memory (memory head) rest := by
  cases xs with
  | nil => exact absurd chain some_
  | cons a rest =>
    obtain ⟨at_,_,chain⟩ := chain
    subst at_
    exact ⟨rest,rfl,chain⟩

end Chain

end Linked
