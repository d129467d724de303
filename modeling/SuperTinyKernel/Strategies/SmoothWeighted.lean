import SuperTinyKernel.Strategies.TwoLists

namespace SuperTinyKernel.SmoothWeighted

open Function

def int32Min : Int := -2147483648

-- `current` is m_rt_weight of the slots, which only this strategy uses. The yielded task is a
-- runnable one.
structure State (n : Nat) where
  tasks : List (Fin n)
  sleep : List (Fin n)
  current : Fin n → Int
  yielded : Option (Fin n)
  totalWeight : Int
  yields : ∀ i,yielded = some i → i ∈ tasks

def empty : State n := ⟨[],[],fun _ => 0,none,0,by simp⟩

def setCurrentWeight (i : Fin n) (w : Int) (s : State n) : State n := {s with current := update s.current i w}

def addActive (v : Views n) (i : Fin n) (s : State n) : Option (State n) :=
  if i ∈ s.tasks then none
  else some {s with
    tasks := s.tasks ++ [i]
    totalWeight := s.totalWeight + (v i).weight
    yields := fun j at_ => List.mem_append_left _ (s.yields j at_)}

def removeActive (v : Views n) (i : Fin n) (s : State n) : Option (State n) :=
  if i ∈ s.tasks then
    some {s with
      tasks := s.tasks.erase i
      totalWeight := s.totalWeight - (v i).weight
      yielded := if s.yielded = some i then none else s.yielded
      yields := by
        intro j at_
        split at at_
        · cases at_
        · rename_i other
          exact (List.mem_erase_of_ne (by rintro rfl; exact other at_)).mpr (s.yields j at_)}
  else none

def addTask (v : Views n) (i : Fin n) (s : State n) : Option (State n) := addActive v i (setCurrentWeight i noWeight s)

def removeTask (v : Views n) (i : Fin n) (s : State n) : Option (State n) :=
  if i ∈ s.tasks then removeActive v i s else do return {s with sleep := ← unlink i s.sleep}

-- The scan of GetNext: every task accrues its weight, and the first with the largest is taken,
-- the one that yielded excepted.
structure Scan (n : Nat) where
  current : Fin n → Int
  next : Option (Fin n)
  maxWeight : Int

def weigh (v : Views n) (skip : Option (Fin n)) (a : Scan n) (i : Fin n) : Scan n :=
  let candidate := a.current i + (v i).weight
  let current := update a.current i candidate
  if skip ≠ some i ∧ candidate > a.maxWeight then ⟨current,some i,candidate⟩ else {a with current := current}

def getNext (v : Views n) (s : State n) : Option (Option (Fin n) × State n) :=
  if s.tasks.isEmpty then some (none,s)
  else do
    let scan := s.tasks.foldl (weigh v s.yielded) ⟨s.current,none,int32Min⟩
    -- The yielding task alone has nobody to hand over to.
    let (next,maxWeight) ← (match scan.next with
      | some i => some (i,scan.maxWeight)
      | none => s.yielded.map fun i => (i,scan.current i))
    return (some next,{s with
      current := update scan.current next (maxWeight - s.totalWeight)
      yielded := none
      yields := by simp})

def getFirst (s : State n) : Option (Fin n) := if s.tasks.isEmpty then s.sleep.head? else s.tasks.head?
def getSize (s : State n) : Nat := s.tasks.length + s.sleep.length

def onTaskSleep (v : Views n) (i : Fin n) (s : State n) : Option (State n) := do
  let s ← removeActive v i s
  return {s with sleep := ← linkBack i s.sleep}

-- A woken task is boosted to the weight of all the others.
def onTaskWake (v : Views n) (i : Fin n) (s : State n) : Option (State n) := do
  let sleep ← unlink i s.sleep
  addActive v i (setCurrentWeight i s.totalWeight {s with sleep := sleep})

def onTaskYield (noSleepYield : Bool) (i : Fin n) (s : State n) : Bool × State n :=
  if linked : noSleepYield = true ∧ i ∈ s.tasks then
    (true,{s with yielded := some i,yields := fun _ same => Option.some.inj same ▸ linked.2})
  else (false,s)

-- SwitchStrategySmoothWeightedRoundRobinT. Without NoSleepYield m_yielded is never set.
def strategy (n : Nat) (noSleepYield : Bool) : Strategy n where
  api := ⟨true,true,false,false,noSleepYield,false⟩
  State := State n
  initial := empty
  addTask := addTask
  removeTask := removeTask
  getNext := getNext
  getFirst := getFirst
  getSize := getSize
  onTaskSleep := onTaskSleep
  onTaskWake := onTaskWake
  onTaskWeightChange _ _ _ s := some s
  onTaskYield _ i s := some (onTaskYield noSleepYield i s)
  onTaskTimeSlice _ _ s := some (false,s)
  onTaskDeadlineMissed _ s := some (false,s)
  runnableLists s := [s.tasks]
  sleepList := State.sleep

variable {s t : State n} {i : Fin n} {v : Views n}

theorem addActive_parts (added : addActive v i s = some t) :
    i ∉ s.tasks ∧ t.tasks = s.tasks ++ [i] ∧ t.sleep = s.sleep := by
  unfold addActive at added
  split at added
  · cases added
  · cases added; exact ⟨‹_›,rfl,rfl⟩

theorem addActive_defined (fresh : i ∉ s.tasks) : ∃ t,addActive v i s = some t := by
  simp [addActive,fresh]

theorem removeActive_parts (removed : removeActive v i s = some t) :
    i ∈ s.tasks ∧ t.tasks = s.tasks.erase i ∧ t.sleep = s.sleep := by
  unfold removeActive at removed
  split at removed
  · cases removed; exact ⟨‹_›,rfl,rfl⟩
  · cases removed

theorem removeActive_defined (linked : i ∈ s.tasks) : ∃ t,removeActive v i s = some t := by
  simp [removeActive,linked]

theorem weigh_next (skip : Option (Fin n)) (a : Scan n) (j : Fin n) :
    (weigh v skip a j).next = a.next ∨ (weigh v skip a j).next = some j := by
  unfold weigh
  dsimp only
  split <;> simp

theorem scan_mem (tasks : List (Fin n)) (skip : Option (Fin n)) (a : Scan n)
    (chosen : (tasks.foldl (weigh v skip) a).next = some i) : a.next = some i ∨ i ∈ tasks := by
  induction tasks generalizing a with
  | nil => exact .inl chosen
  | cons j rest ih =>
    rcases ih _ chosen with earlier | later
    · rcases weigh_next skip a j with same | here
      · rw [same] at earlier; exact .inl earlier
      · rw [here] at earlier; exact .inr (by simp [Option.some.inj earlier])
    · exact .inr (by simp [later])

theorem getNext_lists (called : getNext v s = some (r,t)) :
    t.tasks = s.tasks ∧ t.sleep = s.sleep ∧ (∀ i,r = some i → i ∈ s.tasks) ∧ (r = none → s.tasks = []) := by
  unfold getNext at called
  split at called
  · rename_i idle
    cases called
    exact ⟨rfl,rfl,by simp,fun _ => List.isEmpty_iff.mp idle⟩
  · obtain ⟨⟨next,maxWeight⟩,picked,same⟩ := of_bind called
    cases same
    refine ⟨rfl,rfl,?_,by simp⟩
    rintro i chosen
    cases chosen
    split at picked
    · rename_i j chosen
      cases picked
      exact (scan_mem _ _ _ chosen).resolve_left (by simp)
    · obtain ⟨j,yielded,same⟩ := of_map picked
      cases same
      exact s.yields _ yielded

theorem onTaskYield_lists (noSleepYield : Bool) (i : Fin n) (s : State n) :
    (onTaskYield noSleepYield i s).2.tasks = s.tasks ∧ (onTaskYield noSleepYield i s).2.sleep = s.sleep := by
  unfold onTaskYield
  split <;> exact ⟨rfl,rfl⟩

def lists (n : Nat) (noSleepYield : Bool) : TwoLists (strategy n noSleepYield) where
  tasks := State.tasks
  runnableLists _ := rfl
  noInheritance := rfl
  aware := rfl
  initial := ⟨rfl,rfl⟩
  add added := (addActive_parts added).2
  join v i s := addActive v i (setCurrentWeight i s.totalWeight s)
  leave := removeActive
  rest l s := {s with sleep := l}
  join_parts added := (addActive_parts added).2
  join_defined absent := addActive_defined absent
  leave_parts := removeActive_parts
  leave_defined := removeActive_defined
  rest_parts _ _ := ⟨rfl,rfl⟩
  removeTask _ _ _ := rfl
  onTaskSleep _ _ _ := rfl
  onTaskWake _ _ _ := rfl
  next := getNext_lists
  first := head?_append_ite _ _
  size := rfl
  yield called := by
    obtain rfl := congrArg Prod.snd (Option.some.inj called)
    exact onTaskYield_lists _ _ _
  timeSlice := rfl
  deadlineMissed := rfl

def lawful (n : Nat) (noSleepYield : Bool) : Lawful (strategy n noSleepYield) := (lists n noSleepYield).lawful

end SuperTinyKernel.SmoothWeighted
