import SuperTinyKernel.Strategies.TwoLists
import SuperTinyKernel.Library.Rota

namespace SuperTinyKernel.RoundRobin

-- `tasks` holds m_tasks as its items and m_prev as its cursor.
structure State (n : Nat) where
  tasks : Rota (Fin n)
  sleep : List (Fin n)

def addTask (i : Fin n) (s : State n) : Option (State n) := do
  return {s with tasks := ← s.tasks.append i}

def removeTask (i : Fin n) (s : State n) : Option (State n) :=
  if i ∈ s.tasks.items then do return {s with tasks := ← s.tasks.unlink i}
  else do return {s with sleep := ← unlink i s.sleep}

def getNext (s : State n) : Option (Fin n) × State n :=
  (s.tasks.advance.1,{s with tasks := s.tasks.advance.2})

def getFirst (s : State n) : Option (Fin n) :=
  if s.tasks.items.isEmpty then s.sleep.head? else s.tasks.items.head?

def getSize (s : State n) : Nat := s.tasks.items.length + s.sleep.length

def onTaskSleep (i : Fin n) (s : State n) : Option (State n) := do
  return ⟨← s.tasks.unlink i,← linkBack i s.sleep⟩

def onTaskWake (i : Fin n) (s : State n) : Option (State n) := do
  let sleep ← unlink i s.sleep
  return ⟨← s.tasks.linkBack i,sleep⟩

def onTaskYield (noSleepYield : Bool) (i : Fin n) (s : State n) : Bool × State n :=
  if noSleepYield then
    match s.tasks.seek i with
    | some tasks => (true,{s with tasks := tasks})
    | none => (false,s)
  else (false,s)

-- SwitchStrategyRoundRobinT.
def strategy (n : Nat) (noSleepYield : Bool) : Strategy n where
  api := ⟨false,true,false,false,noSleepYield,false⟩
  State := State n
  initial := ⟨.empty,[]⟩
  addTask _ := addTask
  removeTask _ := removeTask
  getNext _ s := some (getNext s)
  getFirst := getFirst
  getSize := getSize
  onTaskSleep _ := onTaskSleep
  onTaskWake _ := onTaskWake
  onTaskWeightChange _ _ _ s := some s
  onTaskYield _ i s := some (onTaskYield noSleepYield i s)
  onTaskTimeSlice _ _ s := some (false,s)
  onTaskDeadlineMissed _ s := some (false,s)
  runnableLists s := [s.tasks.items]
  sleepList := State.sleep

variable {s t : State n} {i : Fin n}

theorem addTask_lists (added : addTask i s = some t) : t.tasks.items = s.tasks.items ++ [i] ∧ t.sleep = s.sleep := by
  obtain ⟨tasks,linked,rfl⟩ := of_return added
  exact ⟨(Rota.append_parts linked).2,rfl⟩

theorem onTaskYield_lists (noSleepYield : Bool) (i : Fin n) (s : State n) :
    (onTaskYield noSleepYield i s).2.tasks.items = s.tasks.items ∧ (onTaskYield noSleepYield i s).2.sleep = s.sleep := by
  unfold onTaskYield
  split
  · split
    · rename_i moved
      exact ⟨(Rota.seek_parts moved).2.1,rfl⟩
    · exact ⟨rfl,rfl⟩
  · exact ⟨rfl,rfl⟩

def lists (n : Nat) (noSleepYield : Bool) : TwoLists (strategy n noSleepYield) where
  tasks s := s.tasks.items
  runnableLists _ := rfl
  noInheritance := rfl
  aware := rfl
  initial := ⟨rfl,rfl⟩
  add := addTask_lists
  join _ i s := do return {s with tasks := ← s.tasks.linkBack i}
  leave _ i s := do return {s with tasks := ← s.tasks.unlink i}
  rest l s := {s with sleep := l}
  join_parts joins := by
    obtain ⟨tasks,linked,rfl⟩ := of_return joins
    exact ⟨(Rota.linkBack_parts linked).2,rfl⟩
  join_defined absent :=
    have ⟨_,linked⟩ := Rota.linkBack_defined absent
    ⟨_,Option.bind_eq_some_iff.mpr ⟨_,linked,rfl⟩⟩
  leave_parts left := by
    obtain ⟨tasks,unlinked,rfl⟩ := of_return left
    exact ⟨(Rota.unlink_parts unlinked).1,(Rota.unlink_parts unlinked).2,rfl⟩
  leave_defined linked :=
    have ⟨_,unlinked⟩ := Rota.unlink_defined linked
    ⟨_,Option.bind_eq_some_iff.mpr ⟨_,unlinked,rfl⟩⟩
  rest_parts _ _ := ⟨rfl,rfl⟩
  removeTask _ _ _ := rfl
  onTaskSleep _ i s := by
    cases removed : s.tasks.unlink i <;> simp [strategy,onTaskSleep,removed]
  onTaskWake _ _ _ := rfl
  next called := by
    cases called
    exact ⟨Rota.advance_items _,rfl,fun i => Rota.advance_mem,Rota.advance_none_iff.mp⟩
  first := head?_append_ite _ _
  size := rfl
  yield called := by
    obtain rfl := congrArg Prod.snd (Option.some.inj called)
    exact onTaskYield_lists _ _ _
  timeSlice := rfl
  deadlineMissed := rfl

def lawful (n : Nat) (noSleepYield : Bool) : Lawful (strategy n noSleepYield) := (lists n noSleepYield).lawful

end SuperTinyKernel.RoundRobin
