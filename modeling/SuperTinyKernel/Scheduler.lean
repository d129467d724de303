import SuperTinyKernel.Kernel

namespace SuperTinyKernel.Kernel

open KernelTask

variable {c : Config n}

-- UpdateTaskState, one slot of its loop.

def consumeYield (c : Config n) (t : KernelTask) : KernelTask :=
  if c.strategy.api.noSleepYield then {t with yieldPending := false} else t

-- The slot of a task pending removal is freed once the task is switched out; in the sleep trap
-- the last task is.
def removable (k : Kernel c) (i : Fin n) : Bool :=
  c.mode.isDynamic && (k.tasks i).isPendingRemoval &&
    (decide (k.taskNow ≠ some i) ||
      (decide (c.strategy.getSize k.strategy = 1) && decide (k.fsmState = .sleeping)))

def advanceSleep (elapsed : Int) (k : Kernel c) (i : Fin n) : Option (Kernel c) := do
  let pending := (k.tasks i).sleepPending
  let justEntered := pending && !(k.tasks i).wakePending
  let k ← (if pending then k.processTaskPendingSleep i else some k)
  if justEntered || (k.tasks i).isSleepInfinite then some k
  else if (k.tasks i).suspendPending = true ∧ (k.tasks i).timeSleep + elapsed ≥ 0 then
    some (k.modifyTask i commitSuspend)
  else
    let k := k.modifyTask i (advance elapsed)
    if (k.tasks i).isSleeping then some k else k.deliverWake i

-- HRT: ticks spent active, and the report of a missed deadline. The platform's fault handler
-- may return.
def trackDuration (elapsed : Int) (k : Kernel c) (i : Fin n) : Option (Kernel c) :=
  if c.mode.isHrt && (k.tasks i).isBusy then
    let k := k.modifyTask i (count elapsed)
    if (k.tasks i).hrtIsDeadlineMissed then
      if c.strategy.api.deadlineMissed then do
        let (recovered,σ) ← c.strategy.onTaskDeadlineMissed i k.strategy
        let k := k.setStrategy σ
        return if recovered then k else k.notify i (.missed (k.tasks i).hrt.duration)
      else some (k.notify i (.missed (k.tasks i).hrt.duration))
    else some k
  else some k

def limitSleepTicks (k : Kernel c) (i : Fin n) (sleepTicks : Int) : Int :=
  if c.mode.isTickless && decide (sleepTicks > 1) && (k.tasks i).isBusy then
    (k.tasks i).getSleepTicks c.mode sleepTicks
  else sleepTicks

def updateSlot (elapsed : Int) (acc : Kernel c × Int) (i : Fin n) : Option (Kernel c × Int) :=
  let k := acc.1.modifyTask i (consumeYield c)
  if (k.tasks i).isSleeping then
    if k.removable i then (k.removeTask i).map fun k => (k,acc.2)
    else (k.advanceSleep elapsed i).map fun k => (k,k.limitSleepTicks i acc.2)
  else (k.trackDuration elapsed i).map fun k => (k,k.limitSleepTicks i acc.2)

def initialSleepTicks (c : Config n) : Int := if c.mode.isTickless then c.ticklessTicksMax else 1

def updateTaskState (k : Kernel c) (elapsed : Int) : Option (Kernel c × Int) :=
  (List.finRange n).foldlM (updateSlot elapsed) (k,initialSleepTicks c)

def updateTasks (k : Kernel c) (elapsed : Int) : Option (Kernel c × Int) := do
  let k ← (if c.mode.isSync then k.updateSyncObjects elapsed else some k)
  k.updateTaskState elapsed

def chargeTimeslice (elapsed : Int) (t : KernelTask) : KernelTask :=
  {t with ts := {t.ts with left := t.ts.left - elapsed}}

def updateTimeslice (k : Kernel c) (elapsed : Int) : Option (Kernel c) :=
  match k.taskNow with
  | none => some k
  | some i =>
    if (k.fsmState = .switching ∨ k.fsmState = .waking) ∧ (k.tasks i).isBusy = true ∧
        (k.tasks i).isSleeping = false ∧ (k.tasks i).ts.quantum ≠ noTimeSlice then
      let k := k.modifyTask i (chargeTimeslice elapsed)
      if k.isLocked = false ∧ (k.tasks i).ts.left ≤ 0 then do
        let k := k.modifyTask i fun t => {t with ts := t.ts.reload}
        let (_,σ) ← c.strategy.onTaskTimeSlice k.view i k.strategy
        return k.setStrategy σ
      else some k
    else some k

-- FetchNextEvent: the next task, if any, and the event for the FSM.
def fetchNextEvent (k : Kernel c) : Option (Kernel c × Option (Fin n) × FsmEvent) := do
  let (next,σ) ← c.strategy.getNext k.view k.strategy
  let k := k.setStrategy σ
  match next with
  | some i => return (k.notify i .selected,some i,if k.fsmState = .sleeping then .wake else .switch)
  | none => return (k,none,if c.mode.isDynamic && decide (c.strategy.getSize k.strategy = 0) then .exit else .sleep)

def setFsm (k : Kernel c) (f : FsmState) : Kernel c := {k with fsmState := f}

def stateSwitch (k : Kernel c) (now next : Fin n) : Kernel c × Outcome n :=
  if next = now then (k,.stay)
  else
    let k := {k with taskNow := some next}
    (if c.mode.isHrt && (k.tasks now).hrt.done then k.modifyTask now (hrtOnSwitchedOut c.mode) else k,
      .switch (.task now) (.task next))

def stateWake (k : Kernel c) (next : Fin n) : Kernel c × Outcome n :=
  ({k with taskNow := some next},.switch .sleepTrap (.task next))

-- GetFirst of an empty strategy dereferences a null entry.
def stateSleep (k : Kernel c) (now : Fin n) : Option (Kernel c × Outcome n) := do
  let first ← c.strategy.getFirst k.strategy
  let k := {k with taskNow := some first}
  return (if c.mode.isHrt && !(k.tasks now).isPendingRemoval then
      k.modifyTask now (hrtOnSwitchedOut c.mode) else k,
    .switch (.task now) .sleepTrap)

def stateExit (k : Kernel c) : Kernel c × Outcome n :=
  if c.mode.isDynamic then ({k with taskNow := none},.stop) else (k,.stay)

def updateFsmState (k : Kernel c) : Option (Kernel c × Outcome n) := do
  let now := k.taskNow
  let (k,next,event) ← k.fetchNextEvent
  match ← fsm k.fsmState event with
  | .switching => do
      let (k,outcome) := k.stateSwitch (← now) (← next)
      return (k.setFsm .switching,outcome)
  | .sleeping => do
      let (k,outcome) ← k.stateSleep (← now)
      return (k.setFsm .sleeping,outcome)
  | .waking => do
      let (k,outcome) := k.stateWake (← next)
      return (k.setFsm .waking,outcome)
  | .exiting =>
    let (k,outcome) := k.stateExit
    return (k.setFsm .exiting,outcome)
  | .none => return (k,.stay)

-- OnStart delivers the sleep of the tasks that were added asleep.
def startSlot (k : Kernel c) (i : Fin n) : Option (Kernel c) :=
  if (k.tasks i).sleepPending then (k.modifyTask i fun t => {t with sleepPending := false}).deliverSleep i
  else some k

def onStart (k : Kernel c) : Option (Kernel c × StackPtr n) := do
  let k ← (List.finRange n).foldlM startSlot k
  let k := {k with fsmState := .switching}
  let (k,next,event) ← k.fetchNextEvent
  match ← fsm k.fsmState event with
  | .switching => do
      let next ← next
      return ({k with fsmState := .switching,taskNow := some next,kstate := .running},.task next)
  | .sleeping => do
      let first ← c.strategy.getFirst k.strategy
      return ({k with fsmState := .sleeping,taskNow := some first,kstate := .running},.sleepTrap)
  | _ => none

def onStop (k : Kernel c) : Kernel c :=
  if c.mode.isDynamic then {k with fsmState := .none,kstate := .ready} else k

def beforeDecision (k : Kernel c) (elapsed : Int) : Option (Kernel c × Int) := do
  let (k,sleepTicks) ← {k with ticks := k.ticks + elapsed}.updateTasks elapsed
  let k ← (if c.mode.isTimeslice then k.updateTimeslice elapsed else some k)
  return (k,sleepTicks)

def onTick (k : Kernel c) (elapsed : Int) : Option (Kernel c × Int × Outcome n) := do
  let (k,sleepTicks) ← k.beforeDecision elapsed
  if k.isLocked then return (k,sleepTicks,.stay)
  else do
    let (k,outcome) ← k.updateFsmState
    return (k,sleepTicks,outcome)

def releaseLock (k : Kernel c) : Kernel c := {k with kstate := if k.kstate = .locked then .running else k.kstate}

-- The kernel up to the scheduling decision of OnForceContextSwitch, `none` if no
-- decision is taken.
def beforeForcedDecision (k : Kernel c) (id : TId) : Option (Option (Kernel c)) := do
  let i ← k.taskNow
  let t := k.tasks i
  if t.user.map UserTask.id = some id then
    if t.isSleeping then
      if t.sleepPending then do
        return some (← k.releaseLock.processTaskPendingSleep i)
      else return none
    else if c.strategy.api.noSleepYield && t.yieldPending then return some (k.processTaskPendingYield i)
    else return none
  else return none

def onForceContextSwitch (k : Kernel c) (id : TId) : Option (Kernel c × Outcome n) := do
  match ← k.beforeForcedDecision id with
  | none => return (k,.stay)
  | some k => k.updateFsmState

end SuperTinyKernel.Kernel
