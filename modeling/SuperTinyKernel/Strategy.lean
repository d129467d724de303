import Mathlib.Data.List.Nodup
import Mathlib.Data.Finset.Card
import Mathlib.Data.Fintype.Card
import SuperTinyKernel.KernelTask

namespace SuperTinyKernel

open Function List

-- What a strategy reads of a slot through the IKernelTask getters.
structure TaskView where
  isSleeping : Bool
  weight : Int
  baseWeight : Int
  hrtPeriodicity : Int
  hrtDeadline : Int
  hrtRelativeDeadline : Int

abbrev Views (n : Nat) := Fin n → TaskView
def Views.weights (v : Views n) : Fin n → Int := fun i => (v i).weight

-- ITaskSwitchStrategy over the slots of its kernel. `none` stands for undefined behaviour:
-- unlinking an entry from a list it is not in, linking one twice, or an index outside an
-- array.
structure Strategy (n : Nat) where
  api : Api
  State : Type
  initial : State
  addTask : Views n → Fin n → State → Option State
  removeTask : Views n → Fin n → State → Option State
  getNext : Views n → State → Option (Option (Fin n) × State)
  getFirst : State → Option (Fin n)
  getSize : State → Nat
  onTaskSleep : Views n → Fin n → State → Option State
  onTaskWake : Views n → Fin n → State → Option State
  onTaskWeightChange : Views n → Fin n → Int → State → Option State
  onTaskYield : Views n → Fin n → State → Option (Bool × State)
  onTaskTimeSlice : Views n → Fin n → State → Option (Bool × State)
  onTaskDeadlineMissed : Fin n → State → Option (Bool × State)
  runnableLists : State → List (List (Fin n))
  sleepList : State → List (Fin n)

inductive Place where
  | free | ready | asleep
  deriving DecidableEq,Repr

def linkBack (i : Fin n) (l : List (Fin n)) : Option (List (Fin n)) := if i ∈ l then none else some (l ++ [i])
def unlink (i : Fin n) (l : List (Fin n)) : Option (List (Fin n)) := if i ∈ l then some (l.erase i) else none

theorem linkBack_parts {l l' : List (Fin n)} (linked : linkBack i l = some l') : i ∉ l ∧ l' = l ++ [i] := by
  unfold linkBack at linked
  split at linked
  · cases linked
  · cases linked; exact ⟨‹_›,rfl⟩

theorem unlink_parts {l l' : List (Fin n)} (unlinked : unlink i l = some l') : i ∈ l ∧ l' = l.erase i := by
  unfold unlink at unlinked
  split at unlinked
  · cases unlinked; exact ⟨‹_›,rfl⟩
  · cases unlinked

theorem unlink_defined {l : List (Fin n)} (linked : i ∈ l) : unlink i l = some (l.erase i) := by
  simp [unlink,linked]

theorem linkBack_defined {l : List (Fin n)} (fresh : i ∉ l) : linkBack i l = some (l ++ [i]) := by
  simp [linkBack,fresh]

namespace Strategy

variable (S : Strategy n)

def runnable (σ : S.State) : List (Fin n) := (S.runnableLists σ).flatten

def place (σ : S.State) (i : Fin n) : Place :=
  if i ∈ S.sleepList σ then .asleep else if i ∈ S.runnable σ then .ready else .free

theorem place_asleep_iff : S.place σ i = .asleep ↔ i ∈ S.sleepList σ := by
  unfold place; split <;> [simp_all; (split <;> simp_all)]

theorem place_free_iff : S.place σ i = .free ↔ i ∉ S.sleepList σ ∧ i ∉ S.runnable σ := by
  unfold place; split <;> [simp_all; (split <;> simp_all)]

theorem place_ready_of (awake : i ∉ S.sleepList σ) (linked : i ∈ S.runnable σ) : S.place σ i = .ready := by
  simp [place,awake,linked]

theorem place_update (sleeping : ∀ j,j ≠ i → (j ∈ S.sleepList τ ↔ j ∈ S.sleepList σ))
    (running : ∀ j,j ≠ i → (j ∈ S.runnable τ ↔ j ∈ S.runnable σ)) (own : S.place τ i = p) :
    S.place τ = update (S.place σ) i p := by
  funext j
  by_cases at_ : j = i
  · subst at_; simpa using own
  · simp [place,at_,sleeping j at_,running j at_]

theorem mem_runnable_of_ready (ready : S.place σ i = .ready) : i ∈ S.runnable σ := by
  unfold place at ready
  split at ready
  · cases ready
  · split at ready <;> simp_all

end Strategy

-- What the kernel relies on. `Inv` relates the lists to the weights that the slots had when
-- they were filed; a task whose weight `Fits` has a list to be woken into.
structure Lawful (S : Strategy n) where
  Inv : (Fin n → Int) → S.State → Prop
  Fits : Int → Prop
  initial : Inv w S.initial
  initial_free : S.place S.initial i = .free
  congr : Inv w σ → (∀ i,S.place σ i ≠ .free → w' i = w i) → Inv w' σ
  nodup : Inv w σ → (S.runnable σ ++ S.sleepList σ).Nodup
  unaware : S.api.sleepEvent = false → S.sleepList σ = []
  size : Inv w σ → S.getSize σ = (S.runnable σ ++ S.sleepList σ).length
  add : Inv v.weights σ → S.place σ i = .free → S.addTask v i σ = some τ →
    Inv v.weights τ ∧ S.place τ = update (S.place σ) i .ready
  remove : Inv v.weights σ → S.removeTask v i σ = some τ →
    S.place σ i ≠ .free ∧ Inv v.weights τ ∧ S.place τ = update (S.place σ) i .free
  remove_defined : Inv v.weights σ → S.place σ i ≠ .free → ∃ τ,S.removeTask v i σ = some τ
  sleep : S.api.sleepEvent = true → Inv v.weights σ → S.onTaskSleep v i σ = some τ →
    S.place σ i = .ready ∧ Inv v.weights τ ∧ S.place τ = update (S.place σ) i .asleep
  sleep_defined : S.api.sleepEvent = true → Inv v.weights σ → S.place σ i = .ready → ∃ τ,S.onTaskSleep v i σ = some τ
  wake : S.api.sleepEvent = true → Inv v.weights σ → S.onTaskWake v i σ = some τ →
    S.place σ i = .asleep ∧ Inv v.weights τ ∧ S.place τ = update (S.place σ) i .ready
  wake_defined : S.api.sleepEvent = true → Inv v.weights σ → Fits (v i).weight → S.place σ i = .asleep →
    ∃ τ,S.onTaskWake v i σ = some τ
  next : Inv v.weights σ → S.getNext v σ = some (r,τ) → Inv v.weights τ ∧ S.place τ = S.place σ
  next_some : Inv v.weights σ → S.getNext v σ = some (some i,τ) →
    S.place σ i = .ready ∧ (S.api.sleepEvent = false → (v i).isSleeping = false)
  next_none : Inv v.weights σ → S.getNext v σ = some (none,τ) → S.place σ i = .ready →
    S.api.sleepEvent = false ∧ (v i).isSleeping = true
  first : Inv w σ → S.getFirst σ = some i → S.place σ i ≠ .free
  first_defined : Inv w σ → S.place σ i ≠ .free → ∃ j,S.getFirst σ = some j
  weightChange : S.api.priorityInheritance = true → Inv w σ → S.place σ i ≠ .free →
    (∀ j,j ≠ i → (v j).weight = w j) → S.onTaskWeightChange v i (w i) σ = some τ → Inv v.weights τ ∧ S.place τ = S.place σ
  yield : Inv v.weights σ → S.onTaskYield v i σ = some (handled,τ) → Inv v.weights τ ∧ S.place τ = S.place σ
  timeSlice : Inv v.weights σ → S.onTaskTimeSlice v i σ = some (rotated,τ) →
    Inv v.weights τ ∧ S.place τ = S.place σ
  timeSlice_defined : Inv v.weights σ → ∃ r,S.onTaskTimeSlice v i σ = some r
  deadlineMissed : Inv w σ → S.onTaskDeadlineMissed i σ = some (recovered,τ) → Inv w τ ∧ S.place τ = S.place σ
  deadlineMissed_defined : Inv w σ → ∃ r,S.onTaskDeadlineMissed i σ = some r

namespace Lawful

variable {S : Strategy n} (law : Lawful S)
include law

theorem runnable_once (valid : law.Inv w σ) (ready : S.place σ i = .ready) : (S.runnable σ).count i = 1 :=
  count_eq_one_of_mem (nodup_append.mp (law.nodup valid)).1 (S.mem_runnable_of_ready ready)

theorem place_ne_asleep (unaware : S.api.sleepEvent = false) : S.place σ i ≠ .asleep := by
  rw [ne_eq,S.place_asleep_iff,law.unaware unaware]
  exact not_mem_nil

theorem size_card (valid : law.Inv w σ) :
    S.getSize σ = (Finset.univ.filter fun i => S.place σ i ≠ .free).card := by
  rw [law.size valid,← toFinset_card_of_nodup (law.nodup valid)]
  congr 1
  ext i
  have := S.place_free_iff (σ := σ) (i := i)
  simp only [mem_toFinset,mem_append,Finset.mem_filter,Finset.mem_univ,true_and,ne_eq,this]
  tauto

end Lawful
end SuperTinyKernel
