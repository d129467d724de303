import Mathlib.Data.List.Basic

-- Stable priority queues over any elements with a rank: the next to leave is the oldest of
-- those with the highest rank. A sorted array represents the queue if the elements of each
-- rank stand in it in the order of arrival.
namespace StableQueue

open List

variable {α : Type} {rank : α → Nat} {x m : α} {sorted arrivals front back : List α}

def leads (rank : α → Nat) (xs : List α) (x : α) : Bool := xs.all fun y => decide (rank y ≤ rank x)

def first (rank : α → Nat) (xs : List α) : Option α := xs.find? (leads rank xs)
def rest (rank : α → Nat) (xs : List α) : List α := xs.eraseP (leads rank xs)

def ranked (rank : α → Nat) (r : Nat) (xs : List α) : List α := xs.filter fun x => decide (rank x = r)

structure Represents (rank : α → Nat) (sorted arrivals : List α) : Prop where
  ordered : sorted.Pairwise fun x y => rank y ≤ rank x
  stable : ∀ r,ranked rank r sorted = ranked rank r arrivals
  length : sorted.length = arrivals.length

theorem Represents.nil : Represents rank [] [] := ⟨.nil,fun _ => rfl,rfl⟩

theorem ranked_append (r : Nat) (xs ys : List α) : ranked rank r (xs ++ ys) = ranked rank r xs ++ ranked rank r ys :=
  filter_append _ _

theorem ranked_cons (r : Nat) (x : α) (xs : List α) :
    ranked rank r (x :: xs) = if rank x = r then x :: ranked rank r xs else ranked rank r xs := by
  unfold ranked
  rw [filter_cons]
  simp only [decide_eq_true_eq]

theorem ranked_nil (none : ∀ x ∈ xs,rank x ≠ r) : ranked rank r xs = [] := by
  refine filter_eq_nil_iff.mpr fun x member => ?_
  simpa using none x member

theorem mem_ranked : x ∈ ranked rank r xs ↔ x ∈ xs ∧ rank x = r := by
  unfold ranked
  rw [mem_filter,decide_eq_true_eq]

theorem Represents.mem (queue : Represents rank sorted arrivals) : x ∈ sorted ↔ x ∈ arrivals := by
  have same : x ∈ ranked rank (rank x) sorted ↔ x ∈ ranked rank (rank x) arrivals := by rw [queue.stable]
  simpa only [mem_ranked,and_true] using same

theorem Represents.insert (queue : Represents rank (front ++ back) arrivals) (above : ∀ x ∈ front,rank m ≤ rank x)
    (below : ∀ x ∈ back,rank x < rank m) : Represents rank (front ++ m :: back) (arrivals ++ [m]) := by
  obtain ⟨fronts,backs,across⟩ := pairwise_append.mp queue.ordered
  refine ⟨?_,?_,?_⟩
  · refine pairwise_append.mpr ⟨fronts,pairwise_cons.mpr ⟨fun y member => Nat.le_of_lt (below y member),backs⟩,?_⟩
    intro x inFront y member
    rcases mem_cons.mp member with rfl | inBack
    · exact above x inFront
    · exact across x inFront y inBack
  · intro r
    have before := queue.stable r
    rw [ranked_append] at before
    rw [ranked_append,ranked_append,ranked_cons,ranked_cons,← before]
    split
    · rename_i same
      have none : ranked rank r back = [] := ranked_nil fun x member => same ▸ Nat.ne_of_lt (below x member)
      rw [none,append_nil]
      rfl
    · exact (append_nil _).symm
  · have length := queue.length
    simp only [length_append,length_cons,length_nil] at length ⊢
    omega

theorem Represents.head (queue : Represents rank (x :: sorted) arrivals) :
    first rank arrivals = some x ∧ Represents rank sorted (rest rank arrivals) := by
  have top : ∀ y ∈ arrivals,rank y ≤ rank x := by
    intro y member
    rcases mem_cons.mp (queue.mem.mpr member) with rfl | later
    · exact Nat.le_refl _
    · exact rel_of_pairwise_cons queue.ordered later
  have leader : leads rank arrivals x = true := all_eq_true.mpr fun y member => decide_eq_true (top y member)
  have equal : ∀ y ∈ arrivals,leads rank arrivals y = true → rank y = rank x := by
    intro y member leads
    have above := of_decide_eq_true (all_eq_true.mp leads x (queue.mem.mp mem_cons_self))
    exact Nat.le_antisymm (top y member) above
  have here := queue.stable (rank x)
  rw [ranked_cons,if_pos rfl] at here
  obtain ⟨before,after,split,none,later⟩ := filter_eq_cons_iff.mp here.symm
  have passed : ∀ y ∈ before,leads rank arrivals y ≠ true := by
    intro y member leads
    refine none y member (decide_eq_true ?_)
    exact equal y (by rw [split]; exact mem_append_left _ member) leads
  refine ⟨?_,List.Pairwise.of_cons queue.ordered,?_,?_⟩
  · unfold first
    rw [find?_eq_some_iff_append]
    exact ⟨leader,before,after,split,fun y member => by simpa using passed y member⟩
  · intro r
    have taken : rest rank arrivals = before ++ after := by
      have unfolded : rest rank arrivals = (before ++ x :: after).eraseP (leads rank arrivals) :=
        congrArg (List.eraseP (leads rank arrivals)) split
      rw [unfolded,eraseP_append_right _ passed,eraseP_cons_of_pos leader]
    have same := queue.stable r
    rw [split,ranked_cons,ranked_append,ranked_cons] at same
    rw [taken,ranked_append]
    split at same
    · rename_i at_
      have empty : ranked rank r before = [] := ranked_nil fun y member other => none y member (decide_eq_true (other.trans at_.symm))
      rw [empty,nil_append] at same ⊢
      exact (List.cons.inj same).2
    · exact same
  · have length := queue.length
    have member : x ∈ arrivals := queue.mem.mp mem_cons_self
    unfold rest
    rw [length_eraseP_of_mem member leader,← length]
    rfl

end StableQueue
