import SuperTinyKernel.Scheduler

namespace SuperTinyKernel

open KernelTask

-- After the critical section of a blocking call the task requests a context switch and spins
-- until its sleep, or its yield, has been consumed.
inductive Call where
  | sleep | yield | wait | suspend | exit | returned
  deriving DecidableEq,Repr

namespace Kernel

variable {c : Config n}

def isFree (k : Kernel c) (i : Fin n) : Bool := !(k.tasks i).isBusy

def findTaskByUserTask (k : Kernel c) (id : TId) : Option (Fin n) :=
  (List.finRange n).find? fun i => decide ((k.tasks i).user.map UserTask.id = some id)

-- TryAllocateNewTask. The collision check covers every busy slot.
def collision (k : Kernel c) (user : UserTask) : Bool :=
  (List.finRange n).any fun i => (k.tasks i).user.any fun u => decide (u.id = user.id ∨ u.stack = user.stack)

def tryAllocateNewTask (k : Kernel c) (user : UserTask) : Kernel c × Option (Fin n) × AddResult :=
  if k.collision user then (k,none,.duplicate)
  else match (List.finRange n).find? k.isFree with
    | none => (k,none,.poolFull)
    | some i => (k.modifyTask i (bind c.mode c.strategy.api user),some i,.ok)

def addKernelTask (k : Kernel c) (i : Fin n) : Option (Kernel c) := do
  let σ ← c.strategy.addTask k.view i k.strategy
  return k.setStrategy σ

def addTask (k : Kernel c) (user : UserTask) : Option (Kernel c × Option (Fin n)) :=
  if c.mode.isHrt = false ∧ k.isInitialized = true ∧ (c.mode.isDynamic = true ∨ k.isStarted = false) then
    match k.tryAllocateNewTask user with
    | (k,some i,result) => (k.addKernelTask i).map fun k => (k.answer (.added result),some i)
    | (k,none,result) => some (k.answer (.added result),none)
  else some (k.answer (.added .invalid),none)

def addTaskHrt (k : Kernel c) (user : UserTask) (periodicity deadline startDelay : Int) :
    Option (Kernel c × Option (Fin n)) :=
  if c.mode.isHrt = true ∧ (periodicity > 0 ∧ periodicity < waitInfinite ∧ deadline > 0 ∧
      deadline < waitInfinite ∧ startDelay ≥ 0) ∧ k.isInitialized = true ∧ k.isStarted = false then
    match k.tryAllocateNewTask user with
    | (k,some i,result) =>
      ((k.modifyTask i (hrtInit c.mode periodicity deadline startDelay)).addKernelTask i).map
        fun k => (k.answer (.added result),some i)
    | (k,none,result) => some (k.answer (.added result),none)
  else some (k.answer (.added .invalid),none)

def removeUserTask (k : Kernel c) (id : TId) : Option (Kernel c) :=
  if c.mode.isDynamic then
    match k.findTaskByUserTask id with
    | some i => k.removeTask i
    | none => some k
  else some k

def scheduleTaskRemoval (k : Kernel c) (id : TId) : Option (Kernel c) :=
  if c.mode.isDynamic then
    match k.findTaskByUserTask id with
    | some i => k.scheduleRemoval i
    | none => some k
  else some k

-- SuspendTask on a runnable slot. Only the sleep of m_task_now is left to a tick or a forced
-- switch.
def suspendRunnable (k : Kernel c) (i : Fin n) : Option (Kernel c) :=
  let k := k.modifyTask i (markSuspended c.mode)
  if k.taskNow ≠ some i ∧ k.isStarted = true ∧ (k.tasks i).sleepPending = true then k.processTaskPendingSleep i
  else some k

def suspendTask (k : Kernel c) (id : TId) : Option (Kernel c × SuspendResult) :=
  match k.findTaskByUserTask id with
  | none => some (k,.fail)
  | some i =>
    let t := k.tasks i
    if t.isPendingRemoval then some (k,.fail)
    else if t.suspended || t.suspendPending then some (k,.already)
    else if t.isSleeping then some (k.modifyTask i deferSuspend,.deferred)
    else if k.isLocked = true ∧ k.taskNow = some i then some (k,.fail)
    else (k.suspendRunnable i).map fun k => (k,.done)

def resumeTask (k : Kernel c) (id : TId) : Kernel c × ResumeResult :=
  match k.findTaskByUserTask id with
  | none => (k,.fail)
  | some i =>
    let t := k.tasks i
    if t.isPendingRemoval then (k,.fail)
    else if t.suspended then
      (k.modifyTask i resume,.done)
    else if t.suspendPending then (k.modifyTask i liftSuspend,.lifted)
    else (k,.notSuspended)

-- The slot is looked up before the critical section, so it may hold another task, or none, by
-- now.
def cancelTaskWait (k : Kernel c) (i : Fin n) : Option (Kernel c) :=
  if c.mode.isSync && (k.tasks i).waitObj.isWaiting then k.cancel i
  else if (k.tasks i).isSleeping = true ∧ (k.tasks i).suspended = false then some (k.modifyTask i KernelTask.wake)
  else some k

def setSchedulerLock (k : Kernel c) (lock : Bool) : Kernel c :=
  if c.mode.isHrt = false ∧ (k.kstate = .running ∨ k.kstate = .locked) then
    {k with kstate := if lock then .locked else .running}
  else k

-- Calls of the executing task. They return the kind of busy-wait that follows, if any.
def onTaskSleepImpl (k : Kernel c) (i : Fin n) (ticks : Int) : Kernel c × Option Call :=
  let k := if c.mode.isHrt then k.modifyTask i hrtOnWorkCompleted else k
  if ticks > 0 then (k.modifyTask i (scheduleSleep c.mode ticks),some .sleep) else (k,none)

def sleep (k : Kernel c) (i : Fin n) (ticks : Int) : Kernel c × Option Call :=
  if c.mode.isHrt = false ∧ k.isLocked = false then k.onTaskSleepImpl i ticks else (k,none)

def sleepUntil (k : Kernel c) (i : Fin n) (timestamp : Int) : Kernel c × Option Call :=
  if c.mode.isHrt = false ∧ k.isLocked = false then
    if timestamp - k.ticks > 0 then
      (k.modifyTask i (scheduleSleep c.mode (min (timestamp - k.ticks) waitInfinite)),some .sleep)
    else (k,none)
  else (k,none)

def onTaskSwitch (k : Kernel c) (i : Fin n) : Option (Kernel c × Option Call) :=
  if c.strategy.api.noSleepYield = true ∧ c.mode.isHrt = false then
    if (k.tasks i).isSleeping then some (k.onTaskSleepImpl i yieldTicks)
    else do
      let (handled,σ) ← c.strategy.onTaskYield k.view i k.strategy
      let k := k.setStrategy σ
      return if handled then (k.modifyTask i (scheduleYield c.mode c.strategy.api),some .yield)
        else k.onTaskSleepImpl i yieldTicks
  else some (k.onTaskSleepImpl i yieldTicks)

def switchToNext (k : Kernel c) (i : Fin n) : Option (Kernel c × Option Call) :=
  if k.isLocked then some (k,none) else k.onTaskSwitch i

def registerSyncObject (k : Kernel c) (s : SyncId) : Kernel c :=
  {k with syncList := if s ∈ k.syncList then k.syncList else k.syncList ++ [s]}

-- IKernelService::Wait up to its busy-wait. The mutex is a critical section.
def wait (k : Kernel c) (i : Fin n) (s : SyncId) (timeout : Int) : Option (Kernel c × Option Call) :=
  if c.mode.isSync = true ∧ k.isLocked = false then do
    let k ← k.setupWait i s timeout
    return ((k.registerSyncObject s).modifyTask i (scheduleSleep c.mode waitInfinite),some .wait)
  else some (k,none)

-- The result is read and cleared before the mutex is locked again.
def finishWait (k : Kernel c) (i : Fin n) : Kernel c :=
  (k.modifyTask i clearWait).notify i
    (.waited (k.tasks i).waitObj.getWaitResult)

def onSuspend (k : Kernel c) (suspended : Bool) : Option (Kernel c) := do
  let k := if suspended then
      if k.kstate = .running ∨ k.kstate = .locked then {k with kstate := .suspended} else k
    else if k.kstate = .suspended then {k with kstate := .running} else k
  let i ← k.taskNow
  return if (k.tasks i).isSleeping then k else k.modifyTask i (scheduleSleep c.mode yieldTicks)

-- Weights, for strategies with WEIGHT_API and PRIORITY_INHERITANCE_API.
def weightChange (k : Kernel c) (i : Fin n) (f : KernelTask → KernelTask) : Option (Kernel c) := do
  let previous := (k.tasks i).getWeight c.strategy.api
  let k := k.modifyTask i f
  let σ ← c.strategy.onTaskWeightChange k.view i previous k.strategy
  return k.setStrategy σ

def onInheritWeight (k : Kernel c) (id : TId) (weight : Int) : Option (Kernel c) :=
  if c.strategy.api.weight && c.strategy.api.priorityInheritance && decide (weight ≠ noWeight) then do
    let i ← k.findTaskByUserTask id
    if (k.tasks i).getWeight c.strategy.api < weight then
      k.weightChange i (setCurrentWeight c.strategy.api weight)
    else some k
  else some k

def onSetWeight (k : Kernel c) (id : TId) (weight : Int) : Option (Kernel c) :=
  if c.strategy.api.weight && c.strategy.api.priorityInheritance then do
    let i ← k.findTaskByUserTask id
    k.weightChange i fun t =>
      let t := t.setBaseWeight c.strategy.api weight
      if t.rtWeight ≠ noWeight ∧ t.rtWeight ≤ weight then t.setCurrentWeight c.strategy.api noWeight else t
  else some k

def findWeightHigherThan (k : Kernel c) (s : SyncId) (comp : Int) : Int :=
  let heaviest := (k.waitList s).foldl (fun best i => max best (((k.tasks i).user.map UserTask.weight).getD noWeight)) noWeight
  if heaviest > comp then heaviest else noWeight

def onRestoreWeight (k : Kernel c) (id : TId) (sobj : Option SyncId) : Option (Kernel c) :=
  if c.strategy.api.weight && c.strategy.api.priorityInheritance then do
    let i ← k.findTaskByUserTask id
    let weight := match sobj with
      | some s => k.findWeightHigherThan s ((k.tasks i).getWeight c.strategy.api)
      | none => noWeight
    k.weightChange i (setCurrentWeight c.strategy.api weight)
  else some k

def onSetTimeSlice (k : Kernel c) (id : TId) (ticks : Int) : Option (Kernel c) :=
  if c.mode.isTimeslice then do
    let i ← k.findTaskByUserTask id
    return k.modifyTask i fun t => {t with ts := {t.ts with quantum := ticks}.reload}
  else some k

end Kernel
end SuperTinyKernel
