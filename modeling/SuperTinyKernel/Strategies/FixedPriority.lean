import SuperTinyKernel.Strategies.Levelled
import SuperTinyKernel.Strategies.PriorityBitmap
import SuperTinyKernel.Strategies.Client

namespace SuperTinyKernel.FixedPriority

open Function Transition

variable {n P : Nat} {B : IndexSet P}

-- m_tasks with m_prev and m_ready_bitmap are the levels.
structure State (n : Nat) (B : IndexSet P) where
  levels : Levels (Fin n) B
  sleep : List (Fin n)

-- GetTaskPriorityFromWeight: the weight cut to uint16_t. `none` is a priority outside
-- the array of lists.
def getTaskPriorityFromWeight (P : Nat) (w : Int) : Option (Fin P) :=
  if inside : (w % 65536).toNat < P then some ⟨(w % 65536).toNat,inside⟩ else none

def addActive (v : Views n) (i : Fin n) (s : State n B) : Option (State n B) := do
  return {s with levels := ← s.levels.linkBack i (← getTaskPriorityFromWeight P (v i).weight)}

def removeActive (i : Fin n) (w : Int) (s : State n B) : Option (State n B) := do
  return {s with levels := ← s.levels.unlink i (← getTaskPriorityFromWeight P w)}

def addTask (v : Views n) (i : Fin n) (s : State n B) : Option (State n B) := do
  return {s with levels := ← s.levels.append i (← getTaskPriorityFromWeight P (v i).weight)}

def removeTask (v : Views n) (i : Fin n) (s : State n B) : Option (State n B) :=
  if i ∈ s.sleep then do return {s with sleep := ← unlink i s.sleep} else removeActive i (v i).weight s

def getNext (s : State n B) : Option (Option (Fin n) × State n B) :=
  if B.isEmpty s.levels.ready then some (none,s)
  else do
    let (next,levels) ← s.levels.advance (← s.levels.highest)
    return (some next,{s with levels := levels})

def onTaskSleep (v : Views n) (i : Fin n) (s : State n B) : Option (State n B) := do
  let s ← removeActive i (v i).weight s
  return {s with sleep := ← linkBack i s.sleep}

def onTaskWake (v : Views n) (i : Fin n) (s : State n B) : Option (State n B) := do
  addActive v i {s with sleep := ← unlink i s.sleep}

def onTaskWeightChange (v : Views n) (i : Fin n) (old : Int) (s : State n B) : Option (State n B) :=
  if i ∈ s.sleep then some s else do addActive v i (← removeActive i old s)

def onTaskYield (noSleepYield : Bool) (v : Views n) (i : Fin n) (s : State n B) : Option (Bool × State n B) :=
  if noSleepYield then do
    let prio ← getTaskPriorityFromWeight P (v i).weight
    if i ∈ s.levels.items prio then return (true,{s with levels := ← s.levels.seek i prio}) else return (false,s)
  else some (false,s)

-- SwitchStrategyFixedPriority.
def strategy (n : Nat) (B : IndexSet P) (noSleepYield : Bool) : Strategy n where
  api := ⟨true,true,false,true,noSleepYield,false⟩
  State := State n B
  initial := ⟨.empty,[]⟩
  addTask := addTask
  removeTask := removeTask
  getNext _ := getNext
  getFirst s := firstOf s.levels s.sleep
  getSize s := sizeOf s.levels s.sleep
  onTaskSleep := onTaskSleep
  onTaskWake := onTaskWake
  onTaskWeightChange := onTaskWeightChange
  onTaskYield := onTaskYield noSleepYield
  onTaskTimeSlice _ _ s := some (false,s)
  onTaskDeadlineMissed _ s := some (false,s)
  runnableLists s := s.levels.union
  sleepList := State.sleep

variable {s t : State n B} {v : Views n} {i : Fin n}

theorem addActive_parts (added : addActive v i s = some t) :
    t.sleep = s.sleep ∧ ∃ p,getTaskPriorityFromWeight P (v i).weight = some p ∧ (∀ q,i ∉ s.levels.items q) ∧
      t.levels.items = update s.levels.items p (s.levels.items p ++ [i]) := by
  obtain ⟨p,prio,added⟩ := of_bind added
  obtain ⟨levels,linked,rfl⟩ := of_return added
  exact ⟨rfl,p,prio,Levels.linkBack_parts linked⟩

theorem addActive_defined (prio : getTaskPriorityFromWeight P (v i).weight = some p)
    (fresh : ∀ q,i ∉ s.levels.items q) : ∃ t,addActive v i s = some t := by
  obtain ⟨levels,linked⟩ := Levels.linkBack_defined fresh p
  exact ⟨{s with levels := levels},by simp [addActive,prio,linked]⟩

theorem removeActive_parts (removed : removeActive i w s = some t) :
    t.sleep = s.sleep ∧ ∃ p,getTaskPriorityFromWeight P w = some p ∧ i ∈ s.levels.items p ∧
      t.levels.items = update s.levels.items p ((s.levels.items p).erase i) := by
  obtain ⟨p,prio,removed⟩ := of_bind removed
  obtain ⟨levels,unlinked,rfl⟩ := of_return removed
  exact ⟨rfl,p,prio,Levels.unlink_parts unlinked⟩

theorem removeActive_defined (prio : getTaskPriorityFromWeight P w = some p) (linked : i ∈ s.levels.items p) :
    ∃ t,removeActive i w s = some t := by
  obtain ⟨levels,unlinked⟩ := Levels.unlink_defined linked
  exact ⟨{s with levels := levels},by simp [removeActive,prio,unlinked]⟩

theorem addTask_parts (added : addTask v i s = some t) :
    t.sleep = s.sleep ∧ ∃ p,getTaskPriorityFromWeight P (v i).weight = some p ∧
      t.levels.items = update s.levels.items p (s.levels.items p ++ [i]) := by
  obtain ⟨p,prio,added⟩ := of_bind added
  obtain ⟨levels,linked,rfl⟩ := of_return added
  exact ⟨rfl,p,prio,(Levels.append_parts linked).2⟩

theorem getNext_parts (called : getNext s = some (r,t)) :
    t.sleep = s.sleep ∧ t.levels.items = s.levels.items ∧ (∀ i,r = some i → ∃ p,i ∈ s.levels.items p) ∧
      (r = none → ∀ p,s.levels.items p = []) := by
  unfold getNext at called
  split at called
  · rename_i empty
    cases called
    exact ⟨rfl,rfl,by simp,fun _ => Levels.isEmpty_iff.mp empty⟩
  · obtain ⟨p,_,called⟩ := of_bind called
    obtain ⟨⟨next,levels⟩,served,same⟩ := of_bind called
    cases same
    obtain ⟨linked,items⟩ := Levels.advance_parts served
    exact ⟨rfl,items,fun i chosen => ⟨p,Option.some.inj chosen ▸ linked⟩,by simp⟩

theorem onTaskYield_parts (called : onTaskYield noSleepYield v i s = some (handled,t)) :
    t.sleep = s.sleep ∧ t.levels.items = s.levels.items := by
  unfold onTaskYield at called
  split at called
  · obtain ⟨p,_,called⟩ := of_bind called
    split at called
    · obtain ⟨levels,moved,same⟩ := of_bind called
      cases same
      exact ⟨rfl,(Levels.seek_parts moved).2⟩
    · cases called; exact ⟨rfl,rfl⟩
  · cases called; exact ⟨rfl,rfl⟩

theorem onTaskWeightChange_parts (called : onTaskWeightChange v i old s = some t) :
    t.sleep = s.sleep ∧ (i ∈ s.sleep ∧ t.levels.items = s.levels.items ∨
      ∃ p q,i ∈ s.levels.items p ∧ getTaskPriorityFromWeight P (v i).weight = some q ∧ i ∈ t.levels.items q ∧
        ∀ j r,j ≠ i ∨ r ≠ q → (j ∈ t.levels.items r ↔ j ∈ s.levels.items r ∧ (j ≠ i ∨ r ≠ p))) := by
  unfold onTaskWeightChange at called
  split at called
  · cases called; exact ⟨rfl,.inl ⟨‹_›,rfl⟩⟩
  · obtain ⟨u,removed,added⟩ := of_bind called
    obtain ⟨sleep,p,_,linked,left⟩ := removeActive_parts removed
    obtain ⟨sleep',q,prio,_,joined⟩ := addActive_parts added
    exact ⟨sleep'.trans sleep,.inr ⟨p,q,linked,prio,Levelled.relinked linked left joined⟩⟩

def lists (n : Nat) (B : IndexSet P) (noSleepYield : Bool) : Levelled (strategy n B noSleepYield) B where
  levels := State.levels
  priority := getTaskPriorityFromWeight P
  Valid _ := True
  aware := rfl
  runnableLists _ := rfl
  initial := ⟨trivial,fun _ => rfl,rfl⟩
  add _ added := ⟨trivial,addTask_parts added⟩
  join := addActive
  leave v i := removeActive i (v i).weight
  rest l s := {s with sleep := l}
  join_parts added :=
    have ⟨sleep,p,prio,_,items⟩ := addActive_parts added
    ⟨fun _ => trivial,sleep,p,prio,items⟩
  join_defined := addActive_defined
  leave_parts removed :=
    have ⟨sleep,p,_,left⟩ := removeActive_parts removed
    ⟨fun _ => trivial,sleep,p,left⟩
  leave_defined := removeActive_defined
  rest_parts _ _ := ⟨rfl,rfl,fun _ => trivial⟩
  removeTask _ _ _ := rfl
  onTaskSleep _ _ _ := rfl
  onTaskWake _ _ _ := rfl
  next _ called := ⟨trivial,getNext_parts called⟩
  first _ := rfl
  size _ := rfl
  weightChange _ _ called := ⟨trivial,onTaskWeightChange_parts called⟩
  yield _ called := ⟨trivial,onTaskYield_parts called⟩
  timeSlice _ called := by cases called; exact ⟨trivial,rfl,rfl⟩
  timeSlice_defined := ⟨_,rfl⟩
  deadlineMissed := rfl

def lawful (n : Nat) (B : IndexSet P) (noSleepYield : Bool) : Lawful (strategy n B noSleepYield) :=
  (lists n B noSleepYield).lawful

theorem getNext_defined (s : State n B) : ∃ next t,getNext s = some (next,t) ∧ (next = none ↔ ∀ p,s.levels.items p = []) ∧
    ∀ i,next = some i → ∃ p,i ∈ s.levels.items p ∧ ∀ q,s.levels.items q ≠ [] → q ≤ p := by
  unfold getNext
  split
  · rename_i empty
    exact ⟨none,s,rfl,iff_of_true rfl (Levels.isEmpty_iff.mp empty),fun i chosen => (by cases chosen)⟩
  · rename_i used
    obtain ⟨p,at_,here,above⟩ := Levels.highest_defined used
    obtain ⟨i,levels,served⟩ := Levels.advance_defined here
    refine ⟨some i,{s with levels := levels},by simp [at_,served],iff_of_false (by simp) fun empty => here (empty p),?_⟩
    rintro j chosen
    cases chosen
    exact ⟨p,(Levels.advance_parts served).1,above⟩

-- After any calls: the bitmap marks the levels that have tasks, a level has its cursor on one
-- of them, each registered task is in the list of its priority alone or asleep, and GetNext
-- finds the highest level.
theorem priorities_filed (n : Nat) (B : IndexSet P) (noSleepYield : Bool) {c : Client (strategy n B noSleepYield)}
    {tasks : List (Fin n)}
    (run : Run (observe Client.step Client.listed) (fun _ _ => True) (Client.initial _,[]) (c,tasks)) :
    (∀ p,B.isSet c.state.levels.ready p = true ↔ c.state.levels.items p ≠ []) ∧
    (∀ p,if c.state.levels.items p = [] then (c.state.levels.lists p).cursor = none
      else ∃ i ∈ c.state.levels.items p,(c.state.levels.lists p).cursor = some i) ∧
    (∀ i,i ∈ tasks ↔ i ∈ c.state.sleep ∨ ∃ p,i ∈ c.state.levels.items p) ∧
    (∀ i ∈ c.state.sleep,∀ p,i ∉ c.state.levels.items p) ∧
    (∀ p,∀ i ∈ c.state.levels.items p,getTaskPriorityFromWeight P (c.views i).weight = some p) ∧
    ∃ next σ,getNext c.state = some (next,σ) ∧ (next = none ↔ ∀ i ∈ tasks,i ∈ c.state.sleep) ∧
      ∀ i,next = some i → i ∈ tasks ∧ i ∉ c.state.sleep ∧ ∀ j ∈ tasks,j ∉ c.state.sleep → ∃ p q,
        getTaskPriorityFromWeight P (c.views i).weight = some p ∧ getTaskPriorityFromWeight P (c.views j).weight = some q ∧ q ≤ p := by
  have registered := Client.reached_registered (lawful n B noSleepYield) rfl run
  have inv : (lists n B noSleepYield).Inv c.views.weights c.state := registered.inv
  have listed : ∀ i,i ∈ tasks ↔ i ∈ c.state.sleep ∨ ∃ p,i ∈ c.state.levels.items p := fun i => by
    rw [registered.filed,ne_eq,(lists n B noSleepYield).place_free_iff,not_and_or,not_not,not_forall_not]
    rfl
  refine ⟨c.state.levels.exact,fun p => ?_,listed,inv.apart,inv.filed,?_⟩
  · split
    · exact Rota.cursor_none_iff.mpr ‹_›
    · obtain ⟨i,at_⟩ := Option.ne_none_iff_exists'.mp (mt Rota.cursor_none_iff.mp ‹_›)
      exact ⟨i,(c.state.levels.lists p).member i at_,at_⟩
  obtain ⟨next,σ,called,idle,top⟩ := getNext_defined c.state
  refine ⟨next,σ,called,idle.trans ⟨fun empty i member => ?_,fun asleep p => ?_⟩,fun i chosen => ?_⟩
  · refine ((listed i).mp member).resolve_right ?_
    rintro ⟨p,inside⟩
    rw [empty p] at inside
    cases inside
  · refine List.eq_nil_iff_forall_not_mem.mpr fun i inside => ?_
    exact inv.apart i (asleep i ((listed i).mpr (.inr ⟨p,inside⟩))) p inside
  · obtain ⟨p,inside,above⟩ := top i chosen
    refine ⟨(listed i).mpr (.inr ⟨p,inside⟩),fun asleep => inv.apart i asleep p inside,fun j member awake => ?_⟩
    obtain ⟨q,there⟩ := ((listed j).mp member).resolve_left awake
    exact ⟨p,q,inv.filed p i inside,inv.filed q j there,above q (List.ne_nil_of_mem there)⟩

def raisedAmongThree : List (StrategyCall 3) :=
  [.addTask 0 ⟨false,1,1,0,0,0⟩,.addTask 1 ⟨false,1,1,0,0,0⟩,.addTask 2 ⟨false,1,1,0,0,0⟩,
    .onTaskWeightChange 1 ⟨false,3,1,0,0,0⟩,.onTaskSleep 2]

theorem raisedAmongThree_filed : ∃ r : Client (strategy 3 (readyBitmapSelect 4 (by decide)) true) × List (Fin 3),
    exec (observe Client.step Client.listed) (.initial _,[]) raisedAmongThree = some r ∧
    (r.2 = [0,1,2] ∧ r.1.state.levels.items 3 = [1] ∧ r.1.state.sleep = [2]) ∧
    ∃ next σ,getNext r.1.state = some (next,σ) ∧ (next = none ↔ ∀ i ∈ r.2,i ∈ r.1.state.sleep) :=
  exec_shows (P := fun r => r.2 = [0,1,2] ∧ r.1.state.levels.items 3 = [1] ∧ r.1.state.sleep = [2])
    (by decide) fun r ran found => by
    obtain ⟨_,_,_,_,_,next,σ,called,idle,_⟩ := priorities_filed 3 (readyBitmapSelect 4 (by decide)) true (.ofExec ran)
    exact ⟨found,next,σ,called,idle⟩

end SuperTinyKernel.FixedPriority
