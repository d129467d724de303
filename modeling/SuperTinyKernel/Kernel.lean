import Mathlib.Data.List.FinRange
import SuperTinyKernel.Strategy

namespace SuperTinyKernel

open Function KernelTask

-- The template arguments of Kernel with its static assertions.
structure Config (n : Nat) where
  mode : Mode
  strategy : Strategy n
  ticklessTicksMax : Int
  tasksMax : 0 < n
  modeMix : ¬(mode.isStatic = true ∧ mode.isDynamic = true)
  hrtAlone : mode.isHrt = true → mode.isStatic = true ∨ mode.isDynamic = true
  ticklessHrt : ¬(mode.isTickless = true ∧ mode.isHrt = true)
  timesliceHrt : ¬(mode.isTimeslice = true ∧ mode.isHrt = true)
  timesliceStrategy : mode.isTimeslice = true → strategy.api.timeslice = true
  inheritance : strategy.api.priorityInheritance = true → strategy.api.weight = true
  ticklessRange : 1 ≤ ticklessTicksMax ∧ ticklessTicksMax ≤ 100000

inductive FsmState where
  | none | switching | sleeping | waking | exiting
  deriving DecidableEq,Repr

inductive FsmEvent where
  | switch | sleep | wake | exit
  deriving DecidableEq,Repr

-- m_fsm. FSM_STATE_NONE as a row would be a read before the table.
def fsm : FsmState → FsmEvent → Option FsmState
  | .switching,.switch | .waking,.switch => some .switching
  | .switching,.sleep | .waking,.sleep => some .sleeping
  | .sleeping,.wake => some .waking
  | .switching,.exit | .sleeping,.exit | .waking,.exit => some .exiting
  | .none,_ => Option.none
  | _,_ => some .none

inductive KState where
  | inactive | ready | running | locked | suspended
  deriving DecidableEq,Repr

inductive StackPtr (n : Nat) where
  | task (i : Fin n)
  | sleepTrap
  | exitTrap
  deriving DecidableEq,Repr

inductive SuspendResult where
  | done | deferred | already | fail
  deriving DecidableEq,Repr

inductive ResumeResult where
  | done | lifted | notSuspended | fail
  deriving DecidableEq,Repr

inductive AddResult where
  | ok | poolFull | duplicate | invalid
  deriving DecidableEq,Repr

-- What the last step called of the strategy or the user task of a slot, and what a Wait
-- returned to it.
inductive Notice where
  | woke
  | selected
  | exited (user : UserTask)
  | missed (duration : Int)
  | waited (result : WaitResult)
  deriving DecidableEq,Repr

inductive Reply where
  | suspend (result : SuspendResult)
  | resume (result : ResumeResult)
  | added (result : AddResult)
  deriving DecidableEq,Repr

structure Kernel (c : Config n) where
  strategy : c.strategy.State
  taskNow : Option (Fin n) := none
  tasks : Fin n → KernelTask := fun _ => {}
  fsmState : FsmState := .none
  kstate : KState := .ready
  ticks : Int := 0
  waitList : SyncId → List (Fin n) := fun _ => []
  syncList : List SyncId := []
  notices : Fin n → List Notice := fun _ => []
  reply : Option Reply := none

-- A reported context switch, or the platform Stop() of the exit state.
inductive Outcome (n : Nat) where
  | stay
  | switch (idle active : StackPtr n)
  | stop
  deriving DecidableEq,Repr

namespace Kernel

variable {c : Config n}

def view (k : Kernel c) : Views n := fun i =>
  let t := k.tasks i
  ⟨t.isSleeping,t.getWeight c.strategy.api,t.getBaseWeight c.strategy.api,
    t.getHrtPeriodicity c.mode,t.getHrtDeadline c.mode,t.getHrtRelativeDeadline c.mode⟩

def modifyTask (k : Kernel c) (i : Fin n) (f : KernelTask → KernelTask) : Kernel c :=
  {k with tasks := update k.tasks i (f (k.tasks i))}

def setStrategy (k : Kernel c) (σ : c.strategy.State) : Kernel c := {k with strategy := σ}

def notify (k : Kernel c) (i : Fin n) (x : Notice) : Kernel c :=
  {k with notices := update k.notices i (x :: k.notices i)}

def answer (k : Kernel c) (r : Reply) : Kernel c := {k with reply := some r}

def fresh (k : Kernel c) : Kernel c := {k with notices := fun _ => [],reply := none}

def isStarted (k : Kernel c) : Bool := k.taskNow.isSome
def isLocked (k : Kernel c) : Bool := decide (k.kstate = .locked)
def isInitialized (k : Kernel c) : Bool := decide (k.kstate ≠ .inactive)

-- OnTaskSleep and OnTaskWake are delivered to strategies with SLEEP_EVENT_API only.
def deliverSleep (k : Kernel c) (i : Fin n) : Option (Kernel c) :=
  if c.strategy.api.sleepEvent then do
    let σ ← c.strategy.onTaskSleep k.view i k.strategy
    return k.setStrategy σ
  else some k

def deliverWake (k : Kernel c) (i : Fin n) : Option (Kernel c) :=
  if c.strategy.api.sleepEvent then do
    let σ ← c.strategy.onTaskWake k.view i k.strategy
    return (k.setStrategy σ).notify i .woke
  else some k

def processTaskPendingSleep (k : Kernel c) (i : Fin n) : Option (Kernel c) :=
  (k.modifyTask i clearPending).deliverSleep i

def processTaskPendingYield (k : Kernel c) (i : Fin n) : Kernel c :=
  k.modifyTask i fun t => {t with yieldPending := false}

-- RemoveTask(KernelTask *): OnExit of the user task, then the strategy, then Unbind.
def removeTask (k : Kernel c) (i : Fin n) : Option (Kernel c) := do
  let user ← (k.tasks i).user
  let σ ← c.strategy.removeTask k.view i k.strategy
  return ((k.setStrategy σ).modifyTask i (unbind c.mode)).notify i (.exited user)

-- The wait list of a sync object links the WaitObjects of the slots.
def removeWaitObject (k : Kernel c) (s : SyncId) (i : Fin n) : Option (Kernel c) := do
  let l ← unlink i (k.waitList s)
  return {k with waitList := update k.waitList s l}

-- WaitObject::Wake and WaitObject::Cancel differ in the outcome they record.
def endWait (k : Kernel c) (i : Fin n) (outcome : WaitState) : Option (Kernel c) := do
  let s ← (k.tasks i).waitObj.syncObj
  let k ← k.removeWaitObject s i
  return k.modifyTask i (KernelTask.endWait outcome)

def waitObjectWake (k : Kernel c) (i : Fin n) (timeout : Bool) : Option (Kernel c) :=
  k.endWait i (if timeout then .timeout else .signaled)

def cancel (k : Kernel c) (i : Fin n) : Option (Kernel c) := k.endWait i .cancelled

def cancelNoWake (k : Kernel c) (i : Fin n) : Option (Kernel c) :=
  match (k.tasks i).waitObj.syncObj with
  | none => some k
  | some s => do
      let k ← k.removeWaitObject s i
      return k.modifyTask i abandonWait

-- A WaitObject that is still linked would be linked twice.
def setupWait (k : Kernel c) (i : Fin n) (s : SyncId) (timeout : Int) : Option (Kernel c) :=
  if (k.tasks i).waitObj.isWaiting then none
  else do
    let l ← linkBack i (k.waitList s)
    return {k with waitList := update k.waitList s l}.modifyTask i (KernelTask.setupWait s timeout)

-- ISyncObject::Tick. The successor is read before an entry is woken, so the loop visits the
-- entries linked at its start.
def tickWaitObject (elapsed : Int) (k : Kernel c) (i : Fin n) : Option (Kernel c) :=
  let k := k.modifyTask i (tickWait elapsed)
  if (k.tasks i).waitObj.state = .wait then some k else k.waitObjectWake i true

def tickSyncObject (elapsed : Int) (k : Kernel c) (s : SyncId) : Option (Kernel c) := do
  let k ← (k.waitList s).foldlM (tickWaitObject elapsed) k
  return if (k.waitList s).isEmpty then {k with syncList := k.syncList.erase s} else k

def updateSyncObjects (k : Kernel c) (elapsed : Int) : Option (Kernel c) :=
  k.syncList.foldlM (tickSyncObject elapsed) k

def wakeOne (k : Kernel c) (s : SyncId) : Option (Kernel c) :=
  match k.waitList s with
  | [] => some k
  | i :: _ => k.waitObjectWake i false

def wakeAll (k : Kernel c) (s : SyncId) : Option (Kernel c) :=
  (k.waitList s).foldlM (fun k _ => k.wakeOne s) k

def wake (k : Kernel c) (s : SyncId) (all : Bool) : Option (Kernel c) :=
  if c.mode.isSync then if all then k.wakeAll s else k.wakeOne s else some k

def scheduleRemoval (k : Kernel c) (i : Fin n) : Option (Kernel c) := do
  let k ← (if c.mode.isSync then k.cancelNoWake i else some k)
  let k := k.modifyTask i (markRemoval c.mode)
  if k.taskNow ≠ some i ∧ (k.tasks i).sleepPending = true then k.processTaskPendingSleep i else some k

end Kernel
end SuperTinyKernel
