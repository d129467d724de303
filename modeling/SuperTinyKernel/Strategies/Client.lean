import SuperTinyKernel.Strategy
import SuperTinyKernel.Library.Run

namespace SuperTinyKernel

open Function Transition

-- The calls of ITaskSwitchStrategy, in any order. `view` is what the strategy reads of
-- the task from this call on.
inductive StrategyCall (n : Nat) where
  | addTask (i : Fin n) (view : TaskView)
  | removeTask (i : Fin n)
  | getNext
  | onTaskSleep (i : Fin n)
  | onTaskWake (i : Fin n)
  | onTaskWeightChange (i : Fin n) (view : TaskView)
  | onTaskYield (i : Fin n)
  | onTaskTimeSlice (i : Fin n)

-- `last` is the task of the last GetNext, and `left` whether it has left the runnable tasks
-- since.
structure Client (S : Strategy n) where
  views : Views n
  state : S.State
  last : Option (Fin n) := none
  left : Bool := false

namespace Client

variable {S : Strategy n}

def initial (S : Strategy n) : Client S := {views := fun _ => ⟨false,0,0,0,0,0⟩,state := S.initial}

def running (c : Client S) : Option (Fin n) := if c.left then none else c.last

def leaves (c : Client S) (i : Fin n) : Bool := c.left || decide (c.last = some i)

-- A task is added to a slot that is in no list, and weights change of tasks in a list.
def step (c : Client S) : StrategyCall n → Option (Client S)
  | .addTask i view =>
    if S.place c.state i = .free then do
      let views := update c.views i view
      return {c with views := views,state := ← S.addTask views i c.state}
    else none
  | .removeTask i => do return {c with state := ← S.removeTask c.views i c.state,left := c.leaves i}
  | .getNext => do
      let (next,σ) ← S.getNext c.views c.state
      return {c with state := σ,last := next,left := false}
  | .onTaskSleep i => do return {c with state := ← S.onTaskSleep c.views i c.state,left := c.leaves i}
  | .onTaskWake i => do return {c with state := ← S.onTaskWake c.views i c.state}
  | .onTaskWeightChange i view =>
    if S.api.priorityInheritance = true ∧ S.place c.state i ≠ .free then do
      let views := update c.views i view
      return {c with views := views,state := ← S.onTaskWeightChange views i (c.views i).weight c.state}
    else none
  | .onTaskYield i => do return {c with state := (← S.onTaskYield c.views i c.state).2}
  | .onTaskTimeSlice i => do return {c with state := (← S.onTaskTimeSlice c.views i c.state).2}

def keepsWeights : StrategyCall n → Bool
  | .onTaskWeightChange _ _ => false
  | _ => true

def served (_ : Client S) (e : StrategyCall n) (d : Client S) (log : List (Fin n)) : List (Fin n) :=
  match e with
  | .getNext => d.last.toList ++ log
  | _ => log

inductive Steps (c : Client S) : StrategyCall n → Client S → Prop where
  | addTask : S.place c.state i = .free → S.addTask (update c.views i view) i c.state = some σ →
      Steps c (.addTask i view) {c with views := update c.views i view,state := σ}
  | removeTask : S.removeTask c.views i c.state = some σ → Steps c (.removeTask i) {c with state := σ,left := c.leaves i}
  | getNext : S.getNext c.views c.state = some (next,σ) → Steps c .getNext {c with state := σ,last := next,left := false}
  | onTaskSleep : S.onTaskSleep c.views i c.state = some σ → Steps c (.onTaskSleep i) {c with state := σ,left := c.leaves i}
  | onTaskWake : S.onTaskWake c.views i c.state = some σ → Steps c (.onTaskWake i) {c with state := σ}
  | onTaskWeightChange : S.api.priorityInheritance = true → S.place c.state i ≠ .free →
      S.onTaskWeightChange (update c.views i view) i (c.views i).weight c.state = some σ →
      Steps c (.onTaskWeightChange i view) {c with views := update c.views i view,state := σ}
  | onTaskYield : S.onTaskYield c.views i c.state = some (handled,σ) → Steps c (.onTaskYield i) {c with state := σ}
  | onTaskTimeSlice : S.onTaskTimeSlice c.views i c.state = some (rotated,σ) → Steps c (.onTaskTimeSlice i) {c with state := σ}

variable {c d : Client S} {i : Fin n}

theorem running_leaves (c : Client S) (i : Fin n) : {c with left := c.leaves i}.running ≠ some i ∧
    ∀ j,{c with left := c.leaves i}.running = some j → c.running = some j := by
  unfold running leaves
  dsimp only
  cases c.left with
  | true => simp
  | false =>
    by_cases last : c.last = some i
    · simp [last]
    · simp [last]

theorem step_steps (taken : c.step e = some d) : Steps c e d := by
  cases e with
  | addTask i view | onTaskWeightChange i view =>
    simp only [step] at taken
    split at taken
    · rename_i found
      obtain ⟨σ,called,rfl⟩ := of_return taken
      first | exact .addTask found called | exact .onTaskWeightChange found.1 found.2 called
    · cases taken
  | removeTask i | getNext | onTaskSleep i | onTaskWake i | onTaskYield i | onTaskTimeSlice i =>
    obtain ⟨_,called,rfl⟩ := of_return taken
    constructor
    exact called

theorem step_last (other : e ≠ .getNext) (taken : c.step e = some d) : d.last = c.last := by
  cases step_steps taken with
  | getNext => exact absurd rfl other
  | _ => rfl

def Holds (c : Client S) : StrategyCall n → Fin n → Prop
  | .addTask i _,j => j = i ∨ S.place c.state j ≠ .free
  | .removeTask i,j => j ≠ i ∧ S.place c.state j ≠ .free
  | _,j => S.place c.state j ≠ .free

theorem moved_filed {σ τ : S.State} {p : Place} (moved : S.place τ = update (S.place σ) i p) (before : S.place σ i ≠ .free)
    (after : p ≠ .free) (j : Fin n) : S.place τ j ≠ .free ↔ S.place σ j ≠ .free := by
  rw [moved,update_apply]
  split
  · subst j
    exact iff_of_true after before
  · rfl

theorem step_filed (law : Lawful S) (aware : S.api.sleepEvent = true) (inv : law.Inv c.views.weights c.state)
    (taken : c.step e = some d) : law.Inv d.views.weights d.state ∧ ∀ j,S.place d.state j ≠ .free ↔ c.Holds e j := by
  have still : ∀ {τ : S.State},S.place τ = S.place c.state → ∀ j,S.place τ j ≠ .free ↔ S.place c.state j ≠ .free :=
    fun same j => by rw [same]
  cases step_steps taken with
  | @addTask i view σ free added =>
    obtain ⟨inv',moved⟩ := law.add (v := update c.views i view) (law.congr inv fun j filed => (by
      have apart : j ≠ i := by rintro rfl; exact filed free
      simp [Views.weights,apart])) free added
    refine ⟨inv',fun j => ?_⟩
    rw [moved,update_apply]
    split
    · exact iff_of_true (by decide) (.inl ‹_›)
    · exact ⟨.inr,fun held => held.resolve_left ‹_›⟩
  | @removeTask i σ removed =>
    obtain ⟨_,inv',moved⟩ := law.remove inv removed
    refine ⟨inv',fun j => ?_⟩
    rw [moved,update_apply]
    split
    · exact iff_of_false (fun busy => busy rfl) fun held => held.1 ‹_›
    · exact ⟨fun filed => ⟨‹_›,filed⟩,And.right⟩
  | getNext called => exact ⟨(law.next inv called).1,still (law.next inv called).2⟩
  | onTaskSleep slept =>
    obtain ⟨ready,inv',moved⟩ := law.sleep aware inv slept
    exact ⟨inv',moved_filed moved (by rw [ready]; decide) (by decide)⟩
  | onTaskWake woken =>
    obtain ⟨asleep,inv',moved⟩ := law.wake aware inv woken
    exact ⟨inv',moved_filed moved (by rw [asleep]; decide) (by decide)⟩
  | @onTaskWeightChange i view σ inherits filed changed =>
    obtain ⟨inv',same⟩ := law.weightChange inherits (v := update c.views i view) inv filed
      (fun j apart => by simp [Views.weights,apart]) changed
    exact ⟨inv',still same⟩
  | onTaskYield called => exact ⟨(law.yield inv called).1,still (law.yield inv called).2⟩
  | onTaskTimeSlice called => exact ⟨(law.timeSlice inv called).1,still (law.timeSlice inv called).2⟩

theorem step_inv (law : Lawful S) (aware : S.api.sleepEvent = true) (inv : law.Inv c.views.weights c.state)
    (taken : c.step e = some d) : law.Inv d.views.weights d.state := (step_filed law aware inv taken).1

theorem reached_inv (law : Lawful S) (aware : S.api.sleepEvent = true)
    (run : Run step Allowed (initial S) c) : law.Inv c.views.weights c.state :=
  run.keeps law.initial fun _ _ _ inv _ taken => step_inv law aware inv taken

def listed (_ : Client S) (e : StrategyCall n) (_ : Client S) (tasks : List (Fin n)) : List (Fin n) :=
  match e with
  | .addTask i _ => tasks ++ [i]
  | .removeTask i => tasks.erase i
  | _ => tasks

structure Registered (law : Lawful S) (c : Client S) (tasks : List (Fin n)) : Prop where
  inv : law.Inv c.views.weights c.state
  distinct : tasks.Nodup
  filed : ∀ i,i ∈ tasks ↔ S.place c.state i ≠ .free

theorem Registered.step {law : Lawful S} (registered : Registered law c tasks) (aware : S.api.sleepEvent = true)
    (taken : c.step e = some d) : Registered law d (listed c e d tasks) := by
  obtain ⟨inv,filed⟩ := step_filed law aware registered.inv taken
  refine ⟨inv,?_,fun i => ?_⟩
  · cases step_steps taken with
    | addTask free =>
      refine List.nodup_append.mpr ⟨registered.distinct,List.nodup_singleton _,fun j member k same => ?_⟩
      rintro rfl
      exact (registered.filed j).mp member (List.mem_singleton.mp same ▸ free)
    | removeTask => exact registered.distinct.erase _
    | _ => exact registered.distinct
  · rw [filed]
    cases e with
    | addTask j => simp only [listed,List.mem_append,List.mem_singleton,registered.filed,Holds,or_comm]
    | removeTask j => simp only [listed,registered.distinct.mem_erase_iff,registered.filed,Holds]
    | _ => exact registered.filed i

theorem reached_registered (law : Lawful S) (aware : S.api.sleepEvent = true)
    (run : Run (observe step listed) Allowed (initial S,[]) (c,tasks)) : Registered law c tasks :=
  run.keeps (I := fun r => Registered law r.1 r.2)
    ⟨law.initial,List.nodup_nil,fun i => iff_of_false List.not_mem_nil fun filed => filed law.initial_free⟩
    fun _ _ _ registered _ observed => by
      obtain ⟨taken,seen⟩ := observe_some observed
      rw [seen]
      exact registered.step aware taken

end Client
end SuperTinyKernel
