import SuperTinyKernel.Service
import SuperTinyKernel.Library.Run

namespace SuperTinyKernel

-- The kernel with the platform and the tasks. Critical sections and interrupt handlers are the
-- atomic steps.

-- A task runs its own code, is about to request the context switch of a blocking call, or
-- spins until the call is consumed.
inductive Phase where
  | user
  | force (call : Call)
  | spin (call : Call)
  deriving DecidableEq,Repr

structure System (c : Config n) where
  kernel : Kernel c
  exec : Option (StackPtr n) := none
  phase : Fin n → Phase := fun _ => .user
  armed : Int := 1

inductive Event (n : Nat) where
  | start
  | tick (elapsed : Int)
  | force
  | leave
  | sleep (ticks : Int)
  | sleepUntil (timestamp : Int)
  | switchToNext
  | wait (s : SyncId) (timeout : Int)
  | exitTask
  | returnFromRun
  | setSchedulerLock (lock : Bool)
  | wake (s : SyncId) (all : Bool)
  | suspendTask (user : TId) (inIsr : Bool)
  | resumeTask (user : TId)
  | cancelTaskWait (slot : Fin n)
  | scheduleTaskRemoval (user : TId)
  | addTask (user : UserTask)
  | addTaskHrt (user : UserTask) (periodicity deadline startDelay : Int)
  | removeTask (user : TId)
  | inheritWeight (user : TId) (weight : Int)
  | restoreWeight (user : TId) (sobj : Option SyncId)
  | setWeight (user : TId) (weight : Int)
  | setTimeSlice (user : TId) (ticks : Int)
  | suspend (suspended : Bool)
  | stop
  deriving DecidableEq,Repr

namespace System

variable {c : Config n}

def initial (c : Config n) : System c := {kernel := {strategy := c.strategy.initial}}

def tasks (s : System c) (i : Fin n) : KernelTask := s.kernel.tasks i
def place (s : System c) (i : Fin n) : Place := c.strategy.place s.kernel.strategy i

def caller (s : System c) : Option (Fin n) :=
  match s.exec with
  | some (.task i) => if s.phase i = .user then some i else none
  | _ => none

def setPhase (s : System c) (i : Fin n) (p : Phase) : System c := {s with phase := Function.update s.phase i p}

-- The platform loads the active context of a reported switch. Stop() loads the
-- context of the exit trap.
def apply (s : System c) : Outcome n → System c
  | .stay => s
  | .switch _ active => {s with exec := some active}
  | .stop => {s with exec := some .exitTrap}

def blocked (s : System c) (i : Fin n) (r : Kernel c × Option Call) : System c :=
  match r.2 with
  | none => {s with kernel := r.1}
  | some call => {s with kernel := r.1}.setPhase i (.force call)

def bound (s : System c) (r : Kernel c × Option (Fin n)) : System c :=
  match r.2 with
  | none => {s with kernel := r.1}
  | some i => {s with kernel := r.1}.setPhase i .user

def elapsedOk (c : Config n) (elapsed : Int) : Bool :=
  if c.mode.isTickless then decide (0 ≤ elapsed) else decide (elapsed = 1)

def tick (s : System c) (elapsed : Int) : Option (System c) :=
  match s.exec with
  | some (.task _) | some .sleepTrap =>
    if elapsedOk c elapsed then do
      let (k,sleepTicks,outcome) ← s.kernel.onTick elapsed
      return {s with kernel := k,armed := sleepTicks}.apply outcome
    else none
  | _ => none

def force (s : System c) : Option (System c) :=
  match s.exec with
  | some (.task i) =>
    match s.phase i with
    | .force call => do
        let user ← (s.tasks i).user
        let (k,outcome) ← s.kernel.onForceContextSwitch user.id
        return ({s with kernel := k}.setPhase i (.spin call)).apply outcome
    | _ => none
  | _ => none

-- The loops of BusyWaitWhileSleeping and BusyWaitWhileYielding end. ExitTask repeats its
-- busy-wait for ever, and the exit handler of the platform never returns.
def leave (s : System c) : Option (System c) :=
  match s.exec with
  | some (.task i) =>
    match s.phase i with
    | .spin .yield => if (s.tasks i).yieldPending then none else some (s.setPhase i .user)
    | .spin .wait =>
      if (s.tasks i).isSleeping then none else some ({s with kernel := s.kernel.finishWait i}.setPhase i .user)
    | .spin .exit => if (s.tasks i).isSleeping then none else some (s.setPhase i (.force .exit))
    | .spin .returned => none
    | .spin _ => if (s.tasks i).isSleeping then none else some (s.setPhase i .user)
    | _ => none
  | _ => none

-- SuspendTask called by a task on itself spins; from an interrupt nobody does.
def suspendTask (s : System c) (id : TId) (inIsr : Bool) : Option (System c) := do
  if inIsr = false ∧ s.exec.isSome = true ∧ s.caller = none then none
  else do
    let (k,result) ← s.kernel.suspendTask id
    let s' := {s with kernel := k.answer (.suspend result)}
    match s.caller with
    | some i =>
      if inIsr = false ∧ result = .done ∧ s.kernel.taskNow = s.kernel.findTaskByUserTask id then
        return s'.setPhase i (.force .suspend)
      else return s'
    | none => return s'

-- One atomic step; `none` if the event cannot happen in this state, or if the
-- kernel code has undefined behaviour.
def act (s : System c) : Event n → Option (System c)
  | .start =>
    if s.exec = none ∧ s.kernel.kstate = .ready then do
      let (k,active) ← s.kernel.onStart
      return {s with kernel := k,exec := some active,armed := 1}
    else none
  | .tick elapsed => s.tick elapsed
  | .force => s.force
  | .leave => s.leave
  | .sleep ticks => do let i ← s.caller; return s.blocked i (s.kernel.sleep i ticks)
  | .sleepUntil timestamp => do let i ← s.caller; return s.blocked i (s.kernel.sleepUntil i timestamp)
  | .switchToNext => do let i ← s.caller; return s.blocked i (← s.kernel.switchToNext i)
  | .wait o timeout => do let i ← s.caller; return s.blocked i (← s.kernel.wait i o timeout)
  | .exitTask => do
      let i ← s.caller
      if c.mode.isDynamic then return ({s with kernel := ← s.kernel.scheduleRemoval i}.setPhase i (.force .exit))
      else none
  | .returnFromRun => do
      let i ← s.caller
      if c.mode.isDynamic then return ({s with kernel := ← s.kernel.scheduleRemoval i}.setPhase i (.spin .returned))
      else none
  | .setSchedulerLock lock => do let _ ← s.caller; return {s with kernel := s.kernel.setSchedulerLock lock}
  | .wake o all => do return {s with kernel := ← s.kernel.wake o all}
  | .suspendTask id inIsr => s.suspendTask id inIsr
  | .resumeTask id =>
    let (k,result) := s.kernel.resumeTask id
    some {s with kernel := k.answer (.resume result)}
  | .cancelTaskWait slot => do return {s with kernel := ← s.kernel.cancelTaskWait slot}
  | .scheduleTaskRemoval id => do return {s with kernel := ← s.kernel.scheduleTaskRemoval id}
  | .addTask user => do return s.bound (← s.kernel.addTask user)
  | .addTaskHrt user periodicity deadline startDelay => do
      return s.bound (← s.kernel.addTaskHrt user periodicity deadline startDelay)
  | .removeTask id => if s.kernel.isStarted then none else do return {s with kernel := ← s.kernel.removeUserTask id}
  | .inheritWeight id weight => do return {s with kernel := ← s.kernel.onInheritWeight id weight}
  | .restoreWeight id sobj => do return {s with kernel := ← s.kernel.onRestoreWeight id sobj}
  | .setWeight id weight => do return {s with kernel := ← s.kernel.onSetWeight id weight}
  | .setTimeSlice id ticks => do return {s with kernel := ← s.kernel.onSetTimeSlice id ticks}
  | .suspend suspended => do return {s with kernel := ← s.kernel.onSuspend suspended}
  | .stop => if s.exec = some .exitTrap then some {s with kernel := s.kernel.onStop,exec := none} else none

def step (s : System c) (e : Event n) : Option (System c) := {s with kernel := s.kernel.fresh}.act e

end System

end SuperTinyKernel
