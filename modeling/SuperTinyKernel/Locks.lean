import SuperTinyKernel.Waiting
import SuperTinyKernel.Registry

namespace SuperTinyKernel

open KernelTask Slot

-- sync::Mutex and sync::FastMutex over the kernel; every sync object of this system is one of
-- the two. TimedLockEx leaves its critical section in Wait() and goes on in a second one.

inductive LockKind where
  | mutex | fastMutex
  deriving DecidableEq,Repr

def LockKind.once : LockKind → Nat
  | .mutex => 1
  | .fastMutex => 0

-- m_owner_tid and m_recursion_count, which FastMutex does not have.
structure LockState where
  owner : Option TId := none
  count : Nat := 0
  deriving DecidableEq,Repr

-- The depth is a uint16_t; its limits are only asserted.
def LockState.deepen (s : LockState) : LockState := {s with count := (s.count + 1) % 65536}
def LockState.unwind (s : LockState) : LockState := {s with count := (s.count + 65535) % 65536}

@[simp] theorem LockState.deepen_owner (s : LockState) : s.deepen.owner = s.owner := by
  obtain ⟨owner,count⟩ := s
  exact (rfl : owner = owner)

@[simp] theorem LockState.unwind_owner (s : LockState) : s.unwind.owner = s.owner := by
  obtain ⟨owner,count⟩ := s
  exact (rfl : owner = owner)

-- Where a task is in TimedLockEx: blocked in Wait(), behind it, or in the loop of Lock() about
-- to try again. `owner` is owner_tid and `forever` marks a call of Lock().
inductive LockCall where
  | none
  | waiting (m : SyncId) (owner : TId) (forever : Bool)
  | ended (m : SyncId) (owner : TId) (forever : Bool) (result : WaitResult)
  | retry (m : SyncId)
  deriving DecidableEq,Repr

inductive LockEvent (n : Nat) where
  | kernel (e : Event n)
  | lock (m : SyncId) (timeout : Option Int)
  | unlock (m : SyncId)
  | finish
  deriving DecidableEq,Repr

structure Locks (c : Config n) where
  system : System c
  lock : SyncId → LockState := fun _ => {}
  call : Fin n → LockCall := fun _ => .none

namespace Event

-- The kernel besides the locks. No task is removed and none has its weight set.
-- ITask::GetWeight must be positive.
def background : Event n → Bool
  | .wait _ _ | .wake _ _ | .inheritWeight _ _ | .restoreWeight _ _ | .setWeight _ _ => false
  | .exitTask | .returnFromRun | .scheduleTaskRemoval _ | .removeTask _ | .stop => false
  | .addTask u | .addTaskHrt u _ _ _ => decide (0 < u.weight)
  | _ => true

def byTask : Event n → Bool
  | .sleep _ | .sleepUntil _ | .switchToNext | .setSchedulerLock _ => true
  | .suspendTask _ inIsr => !inIsr
  | _ => false

end Event

namespace Locks

variable {c : Config n} (kind : SyncId → LockKind)

def initial (c : Config n) : Locks c := {system := System.initial c}

def setLock (l : Locks c) (m : SyncId) (s : LockState) : Locks c := {l with lock := Function.update l.lock m s}
def setCall (l : Locks c) (i : Fin n) (x : LockCall) : Locks c := {l with call := Function.update l.call i x}

-- A task is inside TimedLockEx only if it cannot be in another call.
def idle (l : Locks c) : Bool :=
  match l.system.caller with
  | some i => decide (l.call i = .none)
  | none => true

def resume (l : Locks c) : Event n → Fin n → LockCall
  | .leave => fun i =>
    match l.call i with
    | .waiting m owner forever =>
      if l.system.exec = some (.task i) then .ended m owner forever (l.system.tasks i).waitObj.getWaitResult
      else l.call i
    | call => call
  | _ => l.call

def kernel (l : Locks c) (e : Event n) : Option (Locks c) :=
  if e.background = true ∧ (e.byTask = true → l.idle = true) then do
    return {l with system := ← l.system.step e,call := l.resume e}
  else none

-- The slow path of TimedLockEx. Under the scheduler lock Wait() fails at once and the boost is
-- undone, while Lock() panics.
def block (l : Locks c) (i : Fin n) (u : UserTask) (m : SyncId) (timeout : Option Int) : Option (Locks c) := do
  let owner ← (l.lock m).owner
  let s ← l.system.step (.inheritWeight owner u.weight)
  if c.mode.isSync = true ∧ s.kernel.isLocked = false then do
    let s ← s.step (.wait m (timeout.getD waitInfinite))
    return {l with system := s}.setCall i (.waiting m owner timeout.isNone)
  else if timeout.isNone then none
  else do return {l with system := ← s.step (.restoreWeight owner (some m))}

-- TimedLockEx up to its Wait(). A second FastMutex::Lock() of the owner panics.
def timedLockEx (l : Locks c) (i : Fin n) (u : UserTask) (m : SyncId) (timeout : Option Int) : Option (Locks c) :=
  let s := l.lock m
  let taken := (l.setLock m ⟨some u.id,(kind m).once⟩).setCall i .none
  match kind m with
  | .mutex =>
    if s.count ≠ 0 ∧ s.owner = some u.id then
      some ((l.setLock m s.deepen).setCall i .none)
    else if s.count = 0 then if s.owner = none then some taken else none
    else if timeout ≠ some noWait then l.block i u m timeout
    else some l
  | .fastMutex =>
    if s.owner = none then some taken
    else if s.owner = some u.id then none
    else if timeout ≠ some noWait then l.block i u m timeout
    else some l

-- TimedLockEx behind its Wait(). A signaled task must own the lock. Lock() tries again after a
-- cancellation and panics on any other failure.
def finish (l : Locks c) (i : Fin n) (u : UserTask) : Option (Locks c) :=
  match l.call i with
  | .ended m owner forever result =>
    if result = .signal then
      if (l.lock m).owner = some u.id ∧ (kind m = .mutex → (l.lock m).count = 1) then some (l.setCall i .none) else none
    else if forever = true ∧ result ≠ .canceled then none
    else do
      let s ← (if (l.lock m).owner = some owner then l.system.step (.restoreWeight owner (some m)) else some l.system)
      return {l with system := s}.setCall i (if forever then .retry m else .none)
  | _ => none

-- The lock passes to the first waiting task, with the weight of the heaviest of the others.
def handOver (l : Locks c) (m : SyncId) : Option (Locks c) :=
  match l.system.kernel.waitList m with
  | [] => some (l.setLock m {})
  | w :: _ => do
      let u ← (l.system.tasks w).user
      let s ← l.system.step (.wake m false)
      let s ← (if (s.kernel.waitList m).isEmpty then some s
        else s.step (.inheritWeight u.id (s.kernel.findWeightHigherThan m u.weight)))
      return {l with system := s}.setLock m ⟨some u.id,(kind m).once⟩

-- Unlock() must be called by the owner.
def unlock (l : Locks c) (u : UserTask) (m : SyncId) : Option (Locks c) :=
  let s := l.lock m
  if s.owner = some u.id then
    match kind m with
    | .mutex =>
      if s.unwind.count = 0 then do
        let s ← l.system.step (.restoreWeight u.id none)
        Locks.handOver kind {l with system := s} m
      else some (l.setLock m s.unwind)
    | .fastMutex =>
      if (l.system.kernel.waitList m).isEmpty then some (l.setLock m {})
      else do
        let s ← l.system.step (.restoreWeight u.id none)
        Locks.handOver kind {l with system := s} m
  else none

def step (l : Locks c) : LockEvent n → Option (Locks c)
  | .kernel e => l.kernel e
  | .lock m timeout => do
      let i ← l.system.caller
      let u ← (l.system.tasks i).user
      if l.call i = .none ∨ timeout = none ∧ l.call i = .retry m then l.timedLockEx kind i u m timeout else none
  | .unlock m => do
      let i ← l.system.caller
      let u ← (l.system.tasks i).user
      if l.call i = .none then l.unlock kind u m else none
  | .finish => do
      let i ← l.system.caller
      let u ← (l.system.tasks i).user
      l.finish kind i u

end Locks

def KernelTask.standing (t : KernelTask) : ((Option UserTask × Int × Int) × Option SyncId) × Bool :=
  (t.identity,t.removePending)

inductive Kept {c : Config n} (s : System c) (i : Fin n) (e : Event n) (t : KernelTask) : Prop where
  | same : t.standing = (s.tasks i).standing → Kept s i e t
  | bound (u : UserTask) : (s.tasks i).user = none → s.kernel.collision u = false → e.adds = some u →
      t.standing = ((s.tasks i).bind c.mode c.strategy.api u).standing → Kept s i e t
  | ended : s.endsWait i e = true → t.filing = (s.tasks i).filing → t.waitObj.syncObj = none →
      t.removePending = (s.tasks i).removePending → Kept s i e t

section
variable {c : Config n} {s : System c} {i : Fin n} {slot : Slot} {elapsed : Int} {t : KernelTask}

theorem Move.keeps (move : Move s i e slot phase) (usual : e.background = true) : Kept s i e slot.task := by
  cases move with
  | bind _ free apart | bindHrt _ free _ _ _ _ _ _ apart => exact .bound _ free apart rfl rfl
  | unbind | wait | exitTask | returnFromRun | scheduleTaskRemoval | signal => cases usual
  | cancel sync waiting =>
    exact .ended (by simp only [System.endsWait,sync,waiting,decide_true,Bool.and_true]) rfl rfl rfl
  | weights reweighs => cases e <;> simp [Event.reweighs,Event.background] at reweighs usual
  | _ => exact .same rfl

theorem KernelTask.tickSync_keeps (t : KernelTask) (m : Mode) (elapsed : Int) : (t.tickSync m elapsed).filing = t.filing ∧
    (t.tickSync m elapsed).removePending = t.removePending ∧
    ((t.tickSync m elapsed).waitObj.syncObj = t.waitObj.syncObj ∨ (t.tickSync m elapsed).waitObj.syncObj = none ∧
      m.isSync = true ∧ t.waitObj.isWaiting = true ∧ (t.waitObj.tick elapsed).state ≠ .wait) := by
  unfold tickSync tickEntry
  split
  · rename_i both
    obtain ⟨sync,waiting⟩ := Bool.and_eq_true_iff.mp both
    split
    · exact ⟨rfl,rfl,.inl (syncObj_tick t.waitObj)⟩
    · rename_i ceased
      exact ⟨rfl,rfl,.inr ⟨rfl,sync,waiting,ceased⟩⟩
  · exact ⟨rfl,rfl,.inl rfl⟩

theorem Decides.keeps (decides : Decides s i e slot phase) (stays : (s.tasks i).removePending = false) :
    Kept s i e slot.task := by
  cases decides with
  | launch => exact .same (congrArg standing fixed_launch :)
  | turn legal only departs honest =>
    rename_i elapsed gone recovered ts
    obtain rfl : gone = false := unset (fun goes => (only goes).2) stays
    have turned : ((((s.slot i).fresh.tickSync c elapsed).turn c false recovered elapsed).withTs ts).task.standing =
        ((s.tasks i).tickSync c.mode elapsed).standing :=
      (congrArg standing (fixed_turn fun _ => rfl) :)
    obtain ⟨filing,removed,same | ⟨none,sync,waiting,ceased⟩⟩ := (s.tasks i).tickSync_keeps c.mode elapsed
    · exact .same (by rw [turned,standing,identity,filing,same,removed]; rfl)
    · have identity := congrArg Prod.fst turned
      refine .ended ?_ ((filing_identity identity).trans filing)
        ((syncObj_identity identity).trans none) ((congrArg Prod.snd turned).trans removed)
      rw [System.endsWait,sync,waiting,decide_eq_true ceased]; rfl
  | enter | yield | pass => exact .same rfl

theorem Change.keeps (change : Change s i e slot phase now) (usual : e.background = true)
    (stays : (s.tasks i).removePending = false) : Kept s i e slot.task := by
  cases change with
  | move move => exact move.keeps usual
  | stay => exact .same rfl
  | decide decides offer leaving =>
    rename_i chosen leaves slot
    have later : ((slot.select chosen).retire c leaves).task.standing = slot.task.standing := by
      rw [← select_task (b := chosen) slot]
      exact (congrArg standing fixed_retire :)
    have identity := congrArg Prod.fst later
    cases decides.keeps stays with
    | same same => exact .same (later.trans same)
    | bound u free apart adds same => exact .bound u free apart adds (later.trans same)
    | ended ends filing none removed =>
      exact .ended ends ((filing_identity identity).trans filing)
        ((syncObj_identity identity).trans none) ((congrArg Prod.snd later).trans removed)

theorem Kept.filing (kept : Kept s i e t) (bound : (s.tasks i).user ≠ none) :
    t.filing = (s.tasks i).filing := by
  cases kept with
  | same same => exact filing_identity (congrArg Prod.fst same)
  | bound _ free => exact absurd free bound
  | ended _ filing => exact filing

theorem Kept.removed (kept : Kept s i e t) : t.removePending = (s.tasks i).removePending := by
  cases kept with
  | same same | bound _ _ _ _ same => exact congrArg Prod.snd same
  | ended _ _ _ removed => exact removed

theorem Kept.bound_cases (kept : Kept s i e t) (bound : t.user = some u) :
    (s.tasks i).user = some u ∧ t.filing = (s.tasks i).filing ∨
    (s.tasks i).user = none ∧ s.kernel.collision u = false ∧ e.adds = some u ∧
      t.filing = ((s.tasks i).bind c.mode c.strategy.api u).filing := by
  have same : t.filing = (s.tasks i).filing → (s.tasks i).user = some u := fun filing =>
    (user_filing filing).symm.trans bound
  cases kept with
  | same standing =>
    have filing := filing_identity (congrArg Prod.fst standing)
    exact .inl ⟨same filing,filing⟩
  | bound v free apart adds standing =>
    have filing := filing_identity (congrArg Prod.fst standing)
    obtain rfl : v = u := Option.some.inj ((user_filing filing).symm.trans bound)
    exact .inr ⟨free,apart,adds,filing⟩
  | ended _ filing => exact .inl ⟨same filing,filing⟩

end

end SuperTinyKernel
