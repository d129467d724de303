import Mathlib.Order.Basic
import SuperTinyKernel.Library.Run

namespace SuperTinyKernel

-- Timeout, Ticks and Weight are integers here: every counter moves by at most the ticks of one
-- call, so the only bound the code tests is INT32_MAX. Addresses of ISyncObject and ITask
-- instances.
abbrev SyncId := Nat
abbrev TId := Nat

instance finLawful (n : Nat) : LawfulBEq (Fin n) := inferInstance

def waitInfinite : Int := 2147483647
def noWait : Int := 0
def noWeight : Int := -1
def defaultWeight : Int := 1
def noTimeSlice : Int := 0
def yieldTicks : Int := 1

theorem waitInfinite_gt : 1 < waitInfinite := by decide
theorem noWeight_lt_zero : noWeight < 0 := by decide

-- TMode, one flag for each EKernelMode bit that matters here.
structure Mode where
  isStatic : Bool
  isDynamic : Bool
  isHrt : Bool
  isSync : Bool
  isTickless : Bool
  isTimeslice : Bool
  deriving DecidableEq,Repr

-- EConfig of a switch strategy.
structure Api where
  weight : Bool
  sleepEvent : Bool
  deadlineMissed : Bool
  priorityInheritance : Bool
  noSleepYield : Bool
  timeslice : Bool
  deriving DecidableEq,Repr

structure UserTask where
  id : TId
  stack : Nat
  weight : Int
  timeSlice : Int
  deriving DecidableEq,Repr

inductive WaitState where
  | none | wait | signaled | timeout | cancelled
  deriving DecidableEq,Repr

inductive WaitResult where
  | signal | timeout | canceled
  deriving DecidableEq,Repr

structure WaitObject where
  syncObj : Option SyncId := none
  timeWait : Int := noWait
  state : WaitState := .none
  deriving DecidableEq,Repr

namespace WaitObject

def isWaiting (w : WaitObject) : Bool := w.syncObj.isSome

def getWaitResult (w : WaitObject) : WaitResult :=
  match w.state with
  | .timeout => .timeout
  | .cancelled => .canceled
  | _ => .signal

def clearState (w : WaitObject) : WaitObject := {w with state := .none}

-- The countdown of WaitObject::Tick. Its return value is `state = wait`.
def tick (elapsed : Int) (w : WaitObject) : WaitObject :=
  if w.timeWait ≠ waitInfinite ∧ w.state = .wait then
    if w.timeWait - elapsed ≤ noWait then {w with timeWait := w.timeWait - elapsed,state := .timeout}
    else {w with timeWait := w.timeWait - elapsed}
  else w

-- The common tail of Wake and Cancel. Unlinking from the wait list is the kernel's part.
def finish (outcome : WaitState) (w : WaitObject) : WaitObject :=
  {w with state := outcome,timeWait := noWait,syncObj := none}

end WaitObject

structure HrtInfo where
  periodicity : Int := 0
  deadline : Int := 0
  duration : Int := 0
  done : Bool := false
  deriving DecidableEq,Repr

structure TsInfo where
  quantum : Int := noTimeSlice
  left : Int := noTimeSlice
  deriving DecidableEq,Repr

def TsInfo.reload (ts : TsInfo) : TsInfo := {ts with left := ts.quantum}

-- m_state, one Boolean for each bit of EStateFlags.
structure KernelTask where
  user : Option UserTask := none
  removePending : Bool := false
  sleepPending : Bool := false
  wakePending : Bool := false
  suspended : Bool := false
  yieldPending : Bool := false
  suspendPending : Bool := false
  timeSleep : Int := noWait
  hrt : HrtInfo := {}
  rtWeight : Int := 0
  baseWeight : Int := 0
  waitObj : WaitObject := {}
  ts : TsInfo := {}
  deriving DecidableEq,Repr

namespace KernelTask

def isBusy (t : KernelTask) : Bool := t.user.isSome
def isSleeping (t : KernelTask) : Bool := decide (t.timeSleep < 0)
def isSleepInfinite (t : KernelTask) : Bool := decide (t.timeSleep = -waitInfinite)
def isPendingRemoval (t : KernelTask) : Bool := t.removePending

@[simp] theorem isSleeping_iff (t : KernelTask) : t.isSleeping = true ↔ t.timeSleep < 0 := by simp [isSleeping]
@[simp] theorem isSleepInfinite_iff (t : KernelTask) :
    t.isSleepInfinite = true ↔ t.timeSleep = -waitInfinite := by simp [isSleepInfinite]

theorem infinite_sleeping {t : KernelTask} (infinite : t.timeSleep = -waitInfinite) : t.timeSleep < 0 := by
  have := waitInfinite_gt
  omega

-- IsSleeping() is only asserted, so Wake puts an awake task to sleep for a tick.
def wake (t : KernelTask) : KernelTask :=
  {t with timeSleep := -1,wakePending := t.wakePending || t.sleepPending}

def commitSuspend (t : KernelTask) : KernelTask :=
  {t with suspendPending := false,suspended := true,timeSleep := -waitInfinite}

def scheduleSleep (m : Mode) (ticks : Int) (t : KernelTask) : KernelTask :=
  {t with
    sleepPending := t.sleepPending || !t.isSleeping
    timeSleep := -ticks
    ts := if m.isTimeslice then t.ts.reload else t.ts}

def scheduleYield (m : Mode) (api : Api) (t : KernelTask) : KernelTask :=
  if api.noSleepYield then {t with yieldPending := true,ts := if m.isTimeslice then t.ts.reload else t.ts} else t

def clearPending (t : KernelTask) : KernelTask := {t with sleepPending := false,wakePending := false}
def advance (elapsed : Int) (t : KernelTask) : KernelTask := {t with timeSleep := t.timeSleep + elapsed}
def count (elapsed : Int) (t : KernelTask) : KernelTask :=
  {t with hrt := {t.hrt with duration := t.hrt.duration + elapsed}}

-- The part of Wake, Cancel, CancelNoWake, SetupWait and Tick that concerns the embedded
-- WaitObject and its task.
def endWait (outcome : WaitState) (t : KernelTask) : KernelTask := {t with waitObj := t.waitObj.finish outcome}.wake
def abandonWait (t : KernelTask) : KernelTask :=
  {t with waitObj := {t.waitObj with state := .cancelled,syncObj := none}}
def setupWait (s : SyncId) (timeout : Int) (t : KernelTask) : KernelTask := {t with waitObj := ⟨some s,timeout,.wait⟩}
def tickWait (elapsed : Int) (t : KernelTask) : KernelTask := {t with waitObj := t.waitObj.tick elapsed}
def clearWait (t : KernelTask) : KernelTask := {t with waitObj := t.waitObj.clearState}

def getBaseWeight (api : Api) (t : KernelTask) : Int :=
  if api.weight then
    if t.baseWeight ≠ noWeight then t.baseWeight else (t.user.map UserTask.weight).getD noWeight
  else defaultWeight

def getWeight (api : Api) (t : KernelTask) : Int :=
  if api.priorityInheritance && t.rtWeight ≠ noWeight then t.rtWeight else t.getBaseWeight api

def setCurrentWeight (api : Api) (w : Int) (t : KernelTask) : KernelTask :=
  if api.weight then {t with rtWeight := w} else t

def setBaseWeight (api : Api) (w : Int) (t : KernelTask) : KernelTask :=
  if api.weight then {t with baseWeight := w} else t

def getHrtPeriodicity (m : Mode) (t : KernelTask) : Int := if m.isHrt then t.hrt.periodicity else 0
def getHrtDeadline (m : Mode) (t : KernelTask) : Int := if m.isHrt then t.hrt.deadline else 0
def getHrtRelativeDeadline (m : Mode) (t : KernelTask) : Int :=
  if m.isHrt then t.hrt.deadline - t.hrt.duration else 0

def hrtOnWorkCompleted (t : KernelTask) : KernelTask := {t with hrt := {t.hrt with done := true}}
def hrtIsDeadlineMissed (t : KernelTask) : Bool := decide (t.hrt.duration > t.hrt.deadline)

def markRemoval (m : Mode) (t : KernelTask) : KernelTask :=
  let t := t.scheduleSleep m waitInfinite
  {if m.isHrt then t.hrtOnWorkCompleted else t with removePending := true}

def markSuspended (m : Mode) (t : KernelTask) : KernelTask := {t.scheduleSleep m waitInfinite with suspended := true}

def deferSuspend (t : KernelTask) : KernelTask := {t with suspendPending := true}
def liftSuspend (t : KernelTask) : KernelTask := {t with suspendPending := false}

def resume (t : KernelTask) : KernelTask :=
  if t.isSleeping then {t with suspended := false}.wake else {t with suspended := false}

def hrtInit (m : Mode) (periodicity deadline startDelay : Int) (t : KernelTask) : KernelTask :=
  let t := {t with hrt := {t.hrt with periodicity := periodicity,deadline := deadline}}
  if startDelay > 0 then t.scheduleSleep m startDelay else t

def hrtOnSwitchedOut (m : Mode) (t : KernelTask) : KernelTask :=
  let sleep := t.hrt.periodicity - t.hrt.duration
  let t := if sleep > 0 then t.scheduleSleep m sleep else t
  {t with hrt := {t.hrt with duration := 0,done := false}}

-- Bind and Unbind leave m_wait_obj alone, and Bind leaves the flags and the sleep counter.
def bind (m : Mode) (api : Api) (u : UserTask) (t : KernelTask) : KernelTask :=
  {t with
    user := some u
    rtWeight := if api.priorityInheritance && api.weight then noWeight else t.rtWeight
    baseWeight := if api.weight then noWeight else t.baseWeight
    ts := if m.isTimeslice then ⟨u.timeSlice,u.timeSlice⟩ else t.ts}

def unbind (m : Mode) (t : KernelTask) : KernelTask :=
  {t with
    user := none
    removePending := false
    sleepPending := false
    wakePending := false
    suspended := false
    yieldPending := false
    suspendPending := false
    timeSleep := 0
    hrt := if m.isHrt then {} else t.hrt
    ts := if m.isTimeslice then {} else t.ts}

def getSleepTicks (m : Mode) (sleepTicks : Int) (t : KernelTask) : Int :=
  let asleep := max noWait (-t.timeSleep)
  max 1 (if m.isSync && t.waitObj.isWaiting then
      if t.waitObj.timeWait > noWait then min sleepTicks t.waitObj.timeWait else sleepTicks
    else min sleepTicks asleep)

end KernelTask
end SuperTinyKernel
