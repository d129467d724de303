import Mathlib.Data.List.Pairwise

namespace Tiling

open List

structure Segment (α : Type) where
  start : Nat
  size : Nat
  tag : α
  deriving DecidableEq,Repr

variable {α : Type} {lo mid hi hi' d k n : Nat} {xs ys before after : List (Segment α)} {s t : Segment α} {a b : α}

def Tiles : Nat → List (Segment α) → Nat → Prop
  | lo,[],hi => lo = hi
  | lo,s :: rest,hi => s.start = lo ∧ Tiles (lo + s.size) rest hi

namespace Tiles

theorem append_iff : Tiles lo (xs ++ ys) hi ↔ ∃ mid,Tiles lo xs mid ∧ Tiles mid ys hi := by
  induction xs generalizing lo with
  | nil =>
    constructor
    · intro tiles
      exact ⟨lo,rfl,tiles⟩
    · intro parts
      obtain ⟨mid,same,tiles⟩ := parts
      have same : lo = mid := same
      rwa [nil_append,same]
  | cons s rest ih =>
    constructor
    · intro tiles
      obtain ⟨mid,left,right⟩ := ih.mp tiles.2
      exact ⟨mid,⟨tiles.1,left⟩,right⟩
    · intro parts
      obtain ⟨mid,left,right⟩ := parts
      exact ⟨left.1,ih.mpr ⟨mid,left.2,right⟩⟩

theorem append (left : Tiles lo xs mid) (right : Tiles mid ys hi) : Tiles lo (xs ++ ys) hi :=
  append_iff.mpr ⟨mid,left,right⟩

theorem unique (tiles : Tiles lo xs hi) (other : Tiles lo xs hi') : hi = hi' := by
  induction xs generalizing lo with
  | nil =>
    have here : lo = hi := tiles
    have there : lo = hi' := other
    rw [← here,there]
  | cons s rest ih => exact ih tiles.2 other.2

theorem rest (tiles : Tiles lo (xs ++ ys) hi) (left : Tiles lo xs mid) : Tiles mid ys hi := by
  obtain ⟨middle,first,right⟩ := append_iff.mp tiles
  rwa [left.unique first]

theorem le (tiles : Tiles lo xs hi) : lo ≤ hi := by
  induction xs generalizing lo with
  | nil => exact Nat.le_of_eq tiles
  | cons s rest ih => exact Nat.le_trans (Nat.le_add_right _ _) (ih tiles.2)

theorem split (tiles : Tiles lo (before ++ s :: after) hi) :
    Tiles lo before s.start ∧ Tiles (s.start + s.size) after hi := by
  obtain ⟨mid,left,at_,right⟩ := append_iff.mp tiles
  rw [at_]
  exact ⟨left,right⟩

section

variable (tiles : Tiles lo xs hi)
include tiles

theorem inside (member : s ∈ xs) : lo ≤ s.start ∧ s.start + s.size ≤ hi := by
  obtain ⟨before,after,rfl⟩ := append_of_mem member
  obtain ⟨left,right⟩ := tiles.split
  exact ⟨left.le,right.le⟩

theorem apart : xs.Pairwise fun s t => s.start + s.size ≤ t.start := by
  induction xs generalizing lo with
  | nil => exact .nil
  | cons s rest ih =>
    refine pairwise_cons.mpr ⟨?_,ih tiles.2⟩
    intro t member
    rw [tiles.1]
    exact (tiles.2.inside member).1

theorem disjoint (left : s ∈ xs) (right : t ∈ xs) (other : s ≠ t) :
    s.start + s.size ≤ t.start ∨ t.start + t.size ≤ s.start := by
  have either : xs.Pairwise fun s t => s.start + s.size ≤ t.start ∨ t.start + t.size ≤ s.start :=
    tiles.apart.imp fun order => .inl order
  have : Std.Symm fun s t : Segment α => s.start + s.size ≤ t.start ∨ t.start + t.size ≤ s.start := ⟨fun _ _ => Or.symm⟩
  exact either.forall left right other

theorem start_aligned (base : lo % d = 0) (sizes : ∀ s ∈ xs,s.size % d = 0) :
    ∀ s ∈ xs,s.start % d = 0 := by
  induction xs generalizing lo with
  | nil =>
    intro s member
    cases member
  | cons t rest ih =>
    intro s member
    rcases mem_cons.mp member with rfl | later
    · rw [tiles.1]
      exact base
    · refine ih tiles.2 ?_ (fun u inside => sizes u (mem_cons_of_mem _ inside)) s later
      rw [Nat.add_mod,base,sizes t mem_cons_self]
      exact Nat.zero_mod d

theorem length_le (sizes : ∀ s ∈ xs,0 < s.size) : lo + xs.length ≤ hi := by
  induction xs generalizing lo with
  | nil => exact Nat.le_of_eq tiles
  | cons s rest ih =>
    have positive := sizes s mem_cons_self
    have later := ih tiles.2 fun u inside => sizes u (mem_cons_of_mem _ inside)
    rw [length_cons]
    omega

theorem next (less : lo < hi) : ∃ s rest,xs = s :: rest ∧ s.start = lo := by
  cases xs with
  | nil =>
    have same : lo = hi := tiles
    omega
  | cons s rest => exact ⟨s,rest,rfl,tiles.1⟩

end

theorem determined (size : Nat → Nat) (tag : Nat → α) (tiles : Tiles lo xs hi) (other : Tiles lo ys hi)
    (left : ∀ s ∈ xs,s.size = size s.start ∧ s.tag = tag s.start ∧ 0 < s.size)
    (right : ∀ s ∈ ys,s.size = size s.start ∧ s.tag = tag s.start ∧ 0 < s.size) : xs = ys := by
  induction xs generalizing lo ys with
  | nil =>
    have ended : lo = hi := tiles
    cases ys with
    | nil => rfl
    | cons t rest =>
      have positive := (right t mem_cons_self).2.2
      have more := other.2.le
      omega
  | cons s rest ih =>
    obtain ⟨size_,tag_,positive⟩ := left s mem_cons_self
    cases ys with
    | nil =>
      have ended : lo = hi := other
      have more := tiles.2.le
      omega
    | cons t rest' =>
      obtain ⟨size',tag',_⟩ := right t mem_cons_self
      have start : s.start = t.start := by rw [tiles.1,other.1]
      have same : s = t := by
        cases s
        cases t
        simp_all
      subst same
      have others := ih tiles.2 other.2 (fun u inside => left u (mem_cons_of_mem _ inside))
        (fun u inside => right u (mem_cons_of_mem _ inside))
      rw [others]

end Tiles

def Clear (xs : List (Segment α)) (lo hi : Nat) : Prop := ∀ s ∈ xs,s.start + s.size ≤ lo ∨ hi ≤ s.start

theorem Clear.narrow (clear : Clear xs lo hi) (less : lo ≤ lo') (more : hi' ≤ hi) : Clear xs lo' hi' := by
  intro s member
  have apart := clear s member
  omega

end Tiling
