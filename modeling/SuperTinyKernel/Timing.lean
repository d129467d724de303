import SuperTinyKernel.Tickless

namespace SuperTinyKernel

open Transition Slot

-- The times at which Sleep() and Wait() with a timeout end in a soft kernel.

-- What an observer with a clock knows about the last blocking call of a task: its start, its
-- ticks, and its end.
inductive Alarm where
  | idle
  | asleep (start ticks : Int)
  | slept (start ticks stop : Int)
  | waiting (start ticks : Int)
  | waited (start ticks stop : Int) (task : KernelTask)

-- A Sleep(n) that has not ended has lasted at most `n` ticks, one that has ended `n` or `n +
-- 1`; a Wait that ended by itself timed out after exactly `n` ticks.
def Alarm.Accurate (task : KernelTask) (now : Int) : Alarm → Prop
  | .idle => True
  | .asleep start ticks => task.isSleeping = true ∧ now - start ≤ ticks
  | .slept start ticks stop => ticks ≤ stop - start ∧ stop - start ≤ ticks + 1
  | .waiting start ticks => task.waitObj.state = .wait ∧ now - start < ticks
  | .waited start ticks stop task =>
    stop - start = ticks ∧ task.waitObj.getWaitResult = .timeout ∧ (task.isSleeping = false ∨ task.suspended = true)

def Event.elapsed : Event n → Int
  | .tick elapsed => elapsed
  | _ => 0

namespace System

variable {c : Config n}

def startsSleep (s : System c) (i : Fin n) : Event n → Option Int
  | .sleep ticks =>
    if s.caller = some i ∧ c.mode.isHrt = false ∧ s.kernel.isLocked = false ∧ 0 < ticks ∧ ticks < waitInfinite ∧
      (s.tasks i).suspended = false ∧ (s.tasks i).suspendPending = false ∧ (s.tasks i).removePending = false
    then some ticks else none
  | _ => none

def startsWait (s : System c) (i : Fin n) : Event n → Option Int
  | .wait _ timeout =>
    if s.caller = some i ∧ c.mode.isSync = true ∧ s.kernel.isLocked = false ∧ 0 < timeout ∧ timeout < waitInfinite
    then some timeout else none
  | _ => none

-- The sleep of slot `i` is cancelled, suspended, resumed or cut short by a removal.
def interferes (s : System c) (i : Fin n) : Event n → Bool
  | .cancelTaskWait j => decide (j = i)
  | .suspendTask tid _ | .resumeTask tid | .scheduleTaskRemoval tid => decide (s.kernel.findTaskByUserTask tid = some i)
  | _ => false

def alarm (s : System c) (e : Event n) (t : System c) (w : Fin n → Alarm) : Fin n → Alarm := fun i =>
  match s.startsSleep i e with
  | some ticks => .asleep s.kernel.ticks ticks
  | none =>
    match s.startsWait i e with
    | some ticks => .waiting s.kernel.ticks ticks
    | none =>
      match w i with
      | .asleep start ticks =>
        if s.interferes i e then .idle
        else if (t.tasks i).isSleeping then .asleep start ticks
        else .slept start ticks t.kernel.ticks
      | .waiting start ticks =>
        if s.fixes i e = some .signal ∨ s.fixes i e = some .canceled then .idle
        else if (t.tasks i).waitObj.state = .wait then .waiting start ticks
        else .waited start ticks t.kernel.ticks (t.tasks i)
      | ended => ended

def SleepKept (s : System c) (i : Fin n) (e : Event n) (slot : Slot) : Prop :=
  (∀ elapsed,e ≠ .tick elapsed) → slot.task.timeSleep = (s.tasks i).timeSleep ∧
    (slot.task.sleepPending = true → (s.tasks i).sleepPending = true)

-- A tickless platform reports no more ticks than OnTick allowed, and no tick under the
-- scheduler lock consumes the flag of the executing task.
def punctual (s : System c) (e : Event n) : Bool :=
  s.waitsFree e && (!c.mode.isTickless || s.keepsFlag e &&
    match e with
    | .tick elapsed => decide (elapsed ≤ s.armed)
    | _ => true)

end System

-- A slot during Sleep(ticks), called at `start`. The tick that delivers the sleep may not be
-- counted.
structure Slot.Sleeps (slot : Slot) (phase : Phase) (start ticks now : Int) : Prop where
  asleep : slot.task.timeSleep < 0
  finite : -waitInfinite < slot.task.timeSleep
  low : ticks + slot.task.timeSleep ≤ now - start
  high : now - start ≤ ticks + slot.task.timeSleep + 1
  entry : slot.task.sleepPending = true → now = start ∧ slot.task.timeSleep = -ticks
  unsuspended : slot.task.suspended = false
  undeferred : slot.task.suspendPending = false
  staying : slot.task.removePending = false
  bound : slot.task.user ≠ none
  phase : phase = .force .sleep ∨ phase = .spin .sleep

def Slot.SleepsOn (slot : Slot) (phase : Phase) (start ticks now : Int) : Prop :=
  (slot.task.timeSleep < 0 → slot.Sleeps phase start ticks now) ∧
    (¬slot.task.timeSleep < 0 → ticks ≤ now - start ∧ now - start ≤ ticks + 1)

structure Slot.Waits (slot : Slot) (start ticks now : Int) : Prop where
  waiting : slot.task.waitObj.isWaiting = true
  finite : ticks < waitInfinite
  past : start ≤ now
  counts : slot.task.waitObj.timeWait = ticks - (now - start)
  left : 0 < slot.task.waitObj.timeWait

def Slot.WaitsOn (slot : Slot) (start ticks now : Int) : Prop :=
  (slot.task.waitObj.state = .wait → slot.Waits start ticks now) ∧ (slot.task.waitObj.state ≠ .wait → now - start = ticks ∧
    slot.task.waitObj.getWaitResult = .timeout ∧ (¬slot.task.timeSleep < 0 ∨ slot.task.suspended = true))

namespace Slot

variable {c : Config n} {s : Slot} {elapsed : Int}

theorem timeSleep_advanceSleep (counted : s.task.isSleepInfinite = false) (undeferred : s.task.suspendPending = false) :
    (s.advanceSleep c elapsed).task.timeSleep =
      (if s.task.sleepPending && !s.task.wakePending then s.task.timeSleep else s.task.timeSleep + elapsed) ∧
    (s.advanceSleep c elapsed).task.sleepPending = false ∧
    (s.advanceSleep c elapsed).task.suspendPending = false := by
  unfold advanceSleep
  simp only [counted,undeferred,Bool.or_false,Bool.false_eq_true,false_and,if_false]
  cases entering : s.task.sleepPending <;> cases woke : s.task.wakePending <;>
    simp only [Bool.not_true,Bool.not_false,Bool.and_true,Bool.and_false,Bool.false_eq_true,if_true,if_false] <;>
    [split; split; skip; split] <;>
    first | exact ⟨rfl,rfl,undeferred⟩ | exact ⟨rfl,entering,undeferred⟩

theorem consumeYield_sleep (s : Slot) (c : Config n) : (s.consumeYield c).task.timeSleep = s.task.timeSleep ∧
    (s.consumeYield c).task.sleepPending = s.task.sleepPending ∧ (s.consumeYield c).task.wakePending = s.task.wakePending ∧
    (s.consumeYield c).task.suspendPending = s.task.suspendPending := by
  unfold consumeYield Kernel.consumeYield
  split <;> exact ⟨rfl,rfl,rfl,rfl⟩

theorem timeSleep_turn (asleep : s.task.timeSleep < 0) (finite : -waitInfinite < s.task.timeSleep)
    (undeferred : s.task.suspendPending = false) :
    (s.turn c false recovered elapsed).task.timeSleep =
      (if s.task.sleepPending && !s.task.wakePending then s.task.timeSleep else s.task.timeSleep + elapsed) ∧
    (s.turn c false recovered elapsed).task.sleepPending = false ∧
    (s.turn c false recovered elapsed).task.suspendPending = false := by
  obtain ⟨time,pending,woken,deferred⟩ := s.consumeYield_sleep c
  have counted : (s.consumeYield c).task.isSleepInfinite = false := by
    rw [KernelTask.isSleepInfinite,time]
    exact decide_eq_false (ne_of_gt finite)
  rw [turn_asleep asleep,← time,← pending,← woken]
  exact timeSleep_advanceSleep counted (deferred.trans undeferred)

end Slot

namespace Slot.Sleeps

variable {slot slot' : Slot} {phase phase' : Phase} {start ticks now : Int}

theorem kept (sleeps : slot.Sleeps phase start ticks now) (time : slot'.task.timeSleep = slot.task.timeSleep)
    (flag : slot'.task.sleepPending = true → slot.task.sleepPending = true)
    (suspended : slot'.task.suspended = slot.task.suspended)
    (deferred : slot'.task.suspendPending = slot.task.suspendPending)
    (removed : slot'.task.removePending = slot.task.removePending) (user : slot'.task.user = slot.task.user)
    (call : phase' = .force .sleep ∨ phase' = .spin .sleep) : slot'.Sleeps phase' start ticks now := by
  refine ⟨?_,?_,?_,?_,fun pending => ?_,suspended.trans sleeps.unsuspended,deferred.trans sleeps.undeferred,
    removed.trans sleeps.staying,fun free => sleeps.bound (user.symm.trans free),call⟩
  · rw [time]; exact sleeps.asleep
  · rw [time]; exact sleeps.finite
  · rw [time]; exact sleeps.low
  · rw [time]; exact sleeps.high
  · rw [time]; exact sleeps.entry (flag pending)

end Slot.Sleeps

namespace Move

variable {c : Config n} {s : System c} {i : Fin n} {slot : Slot}

theorem sleeps (move : Move s i e slot phase) (sleeps : (s.slot i).Sleeps (s.phase i) start ticks now)
    (quiet : s.endsWait i e = false) (started : s.kernel.isStarted = true) (free : s.interferes i e = false) :
    slot.Sleeps phase start ticks now ∧ slot.task.timeSleep = (s.tasks i).timeSleep ∧
      (slot.task.sleepPending = true → (s.tasks i).sleepPending = true) := by
  have calls : s.caller = some i → False := by
    intro calls
    have user := (System.caller_executes calls).2
    rcases sleeps.phase with phase | phase <;> rw [user] at phase <;> cases phase
  have found : ∀ {tid},s.finds tid i → s.kernel.findTaskByUserTask tid = some i := fun found => found
  cases move with
  | bind _ unbound | bindHrt _ unbound => exact absurd unbound sleeps.bound
  | unbind _ off => rw [started] at off; cases off
  | sleep caller | sleepUntil caller | yieldSleep caller | yield caller | wait caller | exitTask caller
  | returnFromRun caller => exact (calls caller).elim
  | scheduleTaskRemoval finds | suspend finds | suspendLater finds | resume finds | lift finds => simp [System.interferes,found finds] at free
  | signal member => rw [System.endsWait,decide_eq_true member] at quiet; cases quiet
  | cancel | cancelSleep => simp [System.interferes] at free
  | leave _ spins _ _ _ awake =>
    rcases sleeps.phase with phase | phase <;> rw [spins] at phase <;> cases phase
    exact absurd sleeps.asleep (awake (by decide))
  | leaveExit _ spins | leaveWait _ spins => rcases sleeps.phase with phase | phase <;> rw [spins] at phase <;> cases phase
  | stepAside _ awake => exact absurd sleeps.asleep awake
  | _ => exact ⟨sleeps.kept rfl id rfl rfl rfl rfl sleeps.phase,rfl,id⟩

end Move

namespace Slot

variable {c : Config n} {s : Slot} {elapsed : Int}

theorem turn_woken (time : s.task.timeSleep = -1) (delivered : s.task.sleepPending = true → s.task.wakePending = true)
    (counts : 1 ≤ elapsed) :
    ¬(s.turn c false recovered elapsed).task.timeSleep < 0 ∨ (s.turn c false recovered elapsed).task.suspended = true := by
  have asleep : s.task.timeSleep < 0 := by rw [time]; decide
  have finite : -waitInfinite < s.task.timeSleep := by rw [time]; decide
  cases deferred : s.task.suspendPending with
  | false =>
    left
    have moves : (s.task.sleepPending && !s.task.wakePending) = false := by
      cases pending : s.task.sleepPending with
      | false => rfl
      | true => rw [delivered pending]; rfl
    rw [(timeSleep_turn asleep finite deferred).1,moves,time]
    simp only [Bool.false_eq_true,if_false]
    omega
  | true =>
    right
    obtain ⟨same_,pending,woken,same⟩ := s.consumeYield_sleep c
    have time := same_.trans time
    have moves : ¬((s.consumeYield c).task.sleepPending && !(s.consumeYield c).task.wakePending ||
        (s.consumeYield c).task.isSleepInfinite) = true := by
      rw [pending,woken,KernelTask.isSleepInfinite,time]
      cases flagged : s.task.sleepPending with
      | false => rw [Bool.false_and]; decide
      | true => rw [delivered flagged]; decide
    have commits : (s.consumeYield c).task.suspendPending = true ∧ (s.consumeYield c).task.timeSleep + elapsed ≥ 0 :=
      ⟨same.trans deferred,by rw [time]; omega⟩
    rw [turn_asleep asleep,advanceSleep,if_neg moves,if_pos commits]
    rfl

end Slot

namespace Slot.Sleeps

variable {c : Config n} {slot : Slot} {phase : Phase} {start ticks now elapsed : Int}

theorem turn (sleeps : slot.Sleeps phase start ticks now) (forward : 0 ≤ elapsed) (soon : elapsed ≤ -slot.task.timeSleep)
    (entry : slot.task.sleepPending = true → elapsed ≤ 1) :
    (slot.turn c false recovered elapsed).SleepsOn phase start ticks (now + elapsed) := by
  obtain ⟨asleep,finite,low,high,entering,unsuspended,undeferred,staying,bound,call⟩ := sleeps
  have turned : (slot.turn c false recovered elapsed).task.timeSleep = _ ∧ _ := timeSleep_turn asleep finite undeferred
  obtain ⟨time,clear,deferred⟩ := turned
  have marked : (slot.turn c false recovered elapsed).task.suspended = false := by
    rw [turn_asleep asleep]
    refine eq_false_of_ne_true fun flag => ?_
    rcases suspended_advanceSleep (timeSleep_consumeYield.trans_lt asleep) flag with old | ⟨commits,_⟩
    · rw [suspended_consumeYield,unsuspended] at old
      cases old
    · rw [suspendsAt_consumeYield,KernelTask.suspendsAt,undeferred,Bool.and_false,Bool.false_and] at commits
      cases commits
  have on : (slot.turn c false recovered elapsed).task.timeSleep < 0 → -waitInfinite < (slot.turn c false recovered elapsed).task.timeSleep →
      ticks + (slot.turn c false recovered elapsed).task.timeSleep ≤ now + elapsed - start →
      now + elapsed - start ≤ ticks + (slot.turn c false recovered elapsed).task.timeSleep + 1 →
      (slot.turn c false recovered elapsed).Sleeps phase start ticks (now + elapsed) := fun asleep finite low high =>
    ⟨asleep,finite,low,high,fun flag => (by rw [clear] at flag; cases flag),marked,deferred,removePending_turn.trans staying,
      by rw [user_turn]; exact bound,call⟩
  by_cases delivers : (slot.task.sleepPending && !slot.task.wakePending) = true
  · -- The tick only delivers the sleep.
    rw [if_pos delivers] at time
    obtain ⟨now_,full⟩ := entering (Bool.and_eq_true_iff.mp delivers).1
    have short := entry (Bool.and_eq_true_iff.mp delivers).1
    exact ⟨fun _ => on (by omega) (by omega) (by omega) (by omega),fun awake => by omega⟩
  · rw [if_neg delivers] at time
    exact ⟨fun later => on later (by omega) (by omega) (by omega),fun awake => ⟨by omega,by omega⟩⟩

end Slot.Sleeps

namespace Decides

variable {c : Config n} {s : System c} {i : Fin n} {slot : Slot}

theorem sleeps (decides : Decides s i e slot phase) (sleeps : (s.slot i).Sleeps (s.phase i) start ticks now)
    (idle : (s.tasks i).waitObj.isWaiting = false) (forward : 0 ≤ e.elapsed)
    (soon : e.elapsed ≤ -(s.tasks i).timeSleep) (entry : (s.tasks i).sleepPending = true → e.elapsed ≤ 1) :
    slot.SleepsOn phase start ticks (now + e.elapsed) ∧ s.SleepKept i e slot := by
  have stays : ∀ {slot : Slot} {phase},slot.Sleeps phase start ticks now → e.elapsed = 0 →
      slot.task.timeSleep = (s.tasks i).timeSleep → (slot.task.sleepPending = true → (s.tasks i).sleepPending = true) →
      slot.SleepsOn phase start ticks (now + e.elapsed) ∧ s.SleepKept i e slot := by
    intro slot phase sleeps still time flag
    rw [still,Int.add_zero]
    exact ⟨⟨fun _ => sleeps,fun awake => absurd sleeps.asleep awake⟩,fun _ => ⟨time,flag⟩⟩
  cases decides with
  | launch =>
    unfold Slot.launch
    split
    · exact stays (sleeps.kept rfl (fun flag => (by cases flag)) rfl rfl rfl rfl sleeps.phase) rfl rfl
        fun flag => (by cases flag)
    · exact stays (sleeps.kept rfl id rfl rfl rfl rfl sleeps.phase) rfl rfl id
  | @turn elapsed gone _ ts _ only =>
    obtain rfl : gone = false := unset (fun goes => (only goes).2) sleeps.staying
    have same : (s.slot i).fresh.tickSync c elapsed = (s.slot i).fresh := by
      rw [tickSync,KernelTask.tickSync,if_neg]
      rw [show (s.slot i).fresh.task.waitObj.isWaiting = false from idle,Bool.and_false]
      decide
    rw [same]
    have fresh : (s.slot i).fresh.Sleeps (s.phase i) start ticks now :=
      sleeps.kept rfl id rfl rfl rfl rfl sleeps.phase
    obtain ⟨on,ceased⟩ := fresh.turn forward soon entry
    exact ⟨⟨fun asleep => (on asleep).kept rfl id rfl rfl rfl rfl sleeps.phase,ceased⟩,fun other => absurd rfl (other elapsed)⟩
  | enter _ forces =>
    refine stays (sleeps.kept rfl (fun flag => (by cases flag)) rfl rfl rfl rfl (.inr ?_)) rfl rfl
      fun flag => (by cases flag)
    rcases sleeps.phase with phase | phase <;> rw [forces] at phase <;> cases phase
    rfl
  | yield _ _ awake => exact absurd sleeps.asleep awake
  | pass => exact stays (sleeps.kept rfl id rfl rfl rfl rfl sleeps.phase) rfl rfl id

end Decides

namespace Slot.Waits

variable {c : Config n} {slot slot' : Slot} {start ticks now elapsed : Int}

theorem kept (waits : slot.Waits start ticks now) (same : slot'.task.waitObj = slot.task.waitObj) :
    slot'.Waits start ticks now := by
  refine ⟨?_,waits.finite,waits.past,?_,?_⟩
  · rw [same]; exact waits.waiting
  · rw [same]; exact waits.counts
  · rw [same]; exact waits.left

theorem turn (waits : slot.Waits start ticks now) (sync : c.mode.isSync = true) (matched : slot.task.Matched)
    (forward : 0 ≤ elapsed) (soon : elapsed ≤ slot.task.waitObj.timeWait) :
    ((slot.tickSync c elapsed).turn c false recovered elapsed).WaitsOn start ticks (now + elapsed) := by
  let after := (slot.tickSync c elapsed).turn c false recovered elapsed
  change after.WaitsOn start ticks (now + elapsed)
  obtain ⟨waiting,finite,past,counts,left⟩ := waits
  have object : after.task.waitObj = (slot.task.tickSync c.mode elapsed).waitObj := waitObj_turn
  have both : (c.mode.isSync && slot.task.waitObj.isWaiting) = true := by rw [sync,waiting]; rfl
  have counting : slot.task.waitObj.timeWait ≠ waitInfinite ∧ slot.task.waitObj.state = .wait :=
    ⟨by omega,matched.mpr waiting⟩
  by_cases ceased : slot.task.waitObj.timeWait - elapsed ≤ noWait
  · have ceased' : slot.task.waitObj.timeWait - elapsed ≤ 0 := ceased
    have ticked : ¬(slot.task.tickWait elapsed).waitObj.state = .wait := by
      rw [KernelTask.tickWait,WaitObject.tick,if_pos counting,if_pos ceased]
      exact WaitState.noConfusion
    have synced : slot.task.tickSync c.mode elapsed = (slot.task.tickWait elapsed).endWait .timeout := by
      rw [KernelTask.tickSync,if_pos both,KernelTask.tickEntry,if_neg ticked]
    rw [WaitsOn,object,synced]
    refine ⟨fun waits => (by cases waits),fun _ => ⟨by omega,rfl,?_⟩⟩
    refine turn_woken ?_ ?_ (by omega)
    · rw [tickSync,synced]; rfl
    · rw [tickSync,synced]
      intro flagged
      have flagged : slot.task.sleepPending = true := flagged
      change (slot.task.wakePending || slot.task.sleepPending) = true
      rw [flagged,Bool.or_true]
  · have on : ¬slot.task.waitObj.timeWait - elapsed ≤ 0 := ceased
    have ticked : (slot.task.tickWait elapsed).waitObj =
        {slot.task.waitObj with timeWait := slot.task.waitObj.timeWait - elapsed} := by
      rw [KernelTask.tickWait,WaitObject.tick,if_pos counting,if_neg ceased]
    have synced : slot.task.tickSync c.mode elapsed = slot.task.tickWait elapsed := by
      rw [KernelTask.tickSync,if_pos both,KernelTask.tickEntry,if_pos]
      rw [ticked]
      exact counting.2
    have same : after.task.waitObj = {slot.task.waitObj with timeWait := slot.task.waitObj.timeWait - elapsed} := by
      rw [object,synced,ticked]
    refine ⟨fun _ => ⟨?_,finite,by omega,?_,?_⟩,fun ended => ?_⟩
    · rw [same]; exact waiting
    · rw [same]; simp only; omega
    · rw [same]; simp only; omega
    · rw [same] at ended
      exact absurd counting.2 ended

end Slot.Waits

namespace Move

variable {c : Config n} {s : System c} {i : Fin n} {slot : Slot}

theorem waitObj (move : Move s i e slot phase) (blocked : s.Blocked i) (waiting : (s.tasks i).waitObj.isWaiting = true)
    (unsignalled : s.fixes i e ≠ some .signal) (uncancelled : s.fixes i e ≠ some .canceled) :
    slot.task.waitObj = (s.tasks i).waitObj := by
  cases move with
  | bind _ unbound | bindHrt _ unbound => exact absurd unbound blocked.bound
  | yieldSleep caller | yield caller | wait caller | exitTask caller | returnFromRun caller => exact absurd caller blocked.silent
  | scheduleTaskRemoval finds dynamic =>
    have found : s.kernel.findTaskByUserTask _ = some i := finds
    exact absurd (by simp [System.fixes,dynamic,found,blocked.sync,waiting]) uncancelled
  | signal member => exact absurd (by simp [System.fixes,System.endsWait,member]) unsignalled
  | cancel sync linked => exact absurd (by simp [System.fixes,System.endsWait,sync,linked]) uncancelled
  | leaveWait _ _ awake => exact absurd blocked.asleep awake
  | _ => rfl

end Move

namespace Decides

variable {c : Config n} {s : System c} {i : Fin n} {slot : Slot}

theorem waits (decides : Decides s i e slot phase) (waits : (s.slot i).Waits start ticks now) (blocked : s.Blocked i)
    (matched : (s.tasks i).Matched) (forward : 0 ≤ e.elapsed) (soon : e.elapsed ≤ (s.tasks i).waitObj.timeWait) :
    slot.WaitsOn start ticks (now + e.elapsed) := by
  have stays : ∀ {slot : Slot},slot.task.waitObj = (s.tasks i).waitObj → e.elapsed = 0 →
      slot.WaitsOn start ticks (now + e.elapsed) := by
    intro slot same still
    rw [still,Int.add_zero,WaitsOn,same]
    exact ⟨fun _ => waits.kept same,fun ended => absurd (matched.mpr waits.waiting) ended⟩
  cases decides with
  | launch =>
    unfold Slot.launch
    split <;> exact stays rfl rfl
  | @turn elapsed gone _ ts _ only =>
    obtain rfl : gone = false := unset (fun goes => (only goes).2) blocked.staying
    have fresh : (s.slot i).fresh.Waits start ticks now := waits.kept rfl
    obtain ⟨on,ceased⟩ := fresh.turn blocked.sync matched forward soon
    exact ⟨fun state => (on state).kept rfl,ceased⟩
  | enter | yield | pass => exact stays rfl rfl

end Decides

namespace Change

variable {c : Config n} {s : System c} {i : Fin n} {slot : Slot}

theorem elapsed_zero {e : Event n} (other : ∀ elapsed,e ≠ .tick elapsed) : e.elapsed = 0 := by
  cases e with
  | tick elapsed => exact absurd rfl (other elapsed)
  | _ => rfl

theorem sleeps (change : Change s i e slot phase now) (soft : c.mode.isHrt = false)
    (sleeps : (s.slot i).Sleeps (s.phase i) start ticks present) (idle : (s.tasks i).waitObj.isWaiting = false)
    (quiet : s.endsWait i e = false) (started : s.kernel.isStarted = true) (free : s.interferes i e = false)
    (forward : 0 ≤ e.elapsed) (soon : e.elapsed ≤ -(s.tasks i).timeSleep)
    (entry : (s.tasks i).sleepPending = true → e.elapsed ≤ 1) :
    slot.SleepsOn phase start ticks (present + e.elapsed) ∧ s.SleepKept i e slot := by
  cases change with
  | move move other =>
    obtain ⟨same,time,flag⟩ := move.sleeps sleeps quiet started free
    rw [elapsed_zero other,Int.add_zero]
    exact ⟨⟨fun _ => same,fun awake => absurd same.asleep awake⟩,fun _ => ⟨time,flag⟩⟩
  | stay _ forces =>
    refine ⟨⟨fun _ => ?_,fun awake => absurd sleeps.asleep awake⟩,fun _ => ⟨rfl,id⟩⟩
    rw [show (Event.force : Event n).elapsed = 0 from rfl,Int.add_zero]
    refine sleeps.kept rfl id rfl rfl rfl rfl (.inr ?_)
    rcases sleeps.phase with phase | phase <;> rw [forces] at phase <;> cases phase
    rfl
  | decide decides offer leaving =>
    obtain rfl : _ = false := unset (fun goes => (leaving goes).2.2.2.1) soft
    rw [retire_false,SleepsOn,System.SleepKept,select_task]
    obtain ⟨⟨on,ceased⟩,still⟩ := decides.sleeps sleeps idle forward soon entry
    refine ⟨⟨fun asleep => (on asleep).kept ?_ ?_ ?_ ?_ ?_ ?_ (on asleep).phase,ceased⟩,still⟩ <;>
      rw [select_task]
    exact id

theorem waits (change : Change s i e slot phase now) (soft : c.mode.isHrt = false)
    (waits : (s.slot i).Waits start ticks present) (blocked : s.Blocked i) (matched : (s.tasks i).Matched)
    (unsignalled : s.fixes i e ≠ some .signal) (uncancelled : s.fixes i e ≠ some .canceled)
    (forward : 0 ≤ e.elapsed) (soon : e.elapsed ≤ (s.tasks i).waitObj.timeWait) :
    slot.WaitsOn start ticks (present + e.elapsed) ∧
      ((∀ elapsed,e ≠ .tick elapsed) → slot.task.waitObj = (s.tasks i).waitObj) := by
  cases change with
  | move move other =>
    have same := move.waitObj blocked waits.waiting unsignalled uncancelled
    rw [elapsed_zero other,Int.add_zero,WaitsOn,same]
    exact ⟨⟨fun _ => waits.kept same,fun ended => absurd (matched.mpr waits.waiting) ended⟩,fun _ => rfl⟩
  | stay =>
    rw [show (Event.force : Event n).elapsed = 0 from rfl,Int.add_zero]
    exact ⟨⟨fun _ => waits.kept rfl,fun ended => absurd (matched.mpr waits.waiting) ended⟩,fun _ => rfl⟩
  | decide decides offer leaving =>
    obtain rfl : _ = false := unset (fun goes => (leaving goes).2.2.2.1) soft
    rw [retire_false,WaitsOn,select_task]
    obtain ⟨on,ceased⟩ := decides.waits waits blocked matched forward soon
    refine ⟨⟨fun state => (on state).kept (by rw [select_task]),ceased⟩,fun other => ?_⟩
    cases decides with
    | launch =>
      unfold Slot.launch
      split <;> rfl
    | @turn elapsed => exact absurd rfl (other elapsed)
    | enter | yield | pass => rfl

end Change

namespace System

open Kernel

variable {c : Config n} {law : Lawful c.strategy} {s t : System c}

theorem Stepped.ticks (stepped : Stepped law s t e) : t.kernel.ticks = s.kernel.ticks + e.elapsed := by
  cases stepped with
  | quiet call quiet =>
    rw [quiet.ticks,Change.elapsed_zero,Int.add_zero]
    rintro elapsed rfl
    cases call
  | start off launched => exact launched.ticks.trans (Int.add_zero _).symm
  | tick legal before ticked unlocked decided => exact decided.ticks.trans ticked.ticks
  | lockedTick legal before ticked => exact ticked.ticks
  | force executes waits bound before named forced decided =>
    exact (decided.ticks.trans forced.ticks).trans (Int.add_zero _).symm
  | noForce executes waits bound before kernel => rw [kernel]; exact (Int.add_zero _).symm
  | stop exits kernel =>
    rw [kernel]
    unfold onStop
    split <;> exact (Int.add_zero _).symm

theorem Stepped.forward (stepped : Stepped law s t e) : 0 ≤ e.elapsed ∧ (c.mode.isTickless = false → e.elapsed ≤ 1) := by
  have legal : ∀ {elapsed},elapsedOk c elapsed = true → 0 ≤ elapsed ∧ (c.mode.isTickless = false → elapsed ≤ 1) := by
    intro elapsed legal
    unfold elapsedOk at legal
    split at legal
    · rename_i tickless
      refine ⟨of_decide_eq_true legal,fun off => ?_⟩
      rw [tickless] at off
      cases off
    · rw [of_decide_eq_true legal]
      exact ⟨by decide,fun _ => le_refl 1⟩
  cases e with
  | tick elapsed =>
    cases stepped with
    | quiet call => cases call
    | tick ok | lockedTick ok => exact legal ok
  | _ => exact ⟨le_refl 0,fun _ => zero_le_one⟩

theorem Stepped.allows (stepped : Stepped law s t (.tick elapsed)) (sound : Sound law s) (soft : c.mode.isHrt = false)
    (tickless : c.mode.isTickless = true) : 1 ≤ t.armed ∧ t.armed ≤ c.ticklessTicksMax ∧
      ∀ i,(t.tasks i).user ≠ none → (t.tasks i).Allows c.mode t.armed := by
  cases stepped with
  | quiet call => cases call
  | tick legal before ticked unlocked decided transit loads phase =>
    rename_i u next out
    obtain ⟨low,high,allows⟩ := beforeDecision_limits tickless (fresh_filed sound.filed) before
    refine ⟨low,high,fun i bound => ?_⟩
    rw [System.tasks,decided.tasks soft] at bound ⊢
    exact allows i bound
  | lockedTick legal before ticked => exact beforeDecision_limits tickless (fresh_filed sound.filed) before

structure Armed (s : System c) : Prop where
  low : 1 ≤ s.armed
  high : s.armed ≤ c.ticklessTicksMax
  running : s.kernel.fsmState.running = true → s.armed ≤ 1

theorem tick_delivers (sound : Sound law s) (orderly : Orderly s) (delivered : Soft s) (soft : c.mode.isHrt = false)
    (wakes : s.wakesAsleep (.tick elapsed) = true) (stepped : Stepped law s t (.tick elapsed)) (i : Fin n) :
    (t.tasks i).sleepPending = false := by
  refine eq_false_of_ne_true fun flagged => ?_
  have change := stepped.change sound i
  generalize same : t.slot i = slot at change
  generalize t.phase i = phase at change
  generalize t.kernel.taskNow = now at change
  rw [show t.tasks i = slot.task from congrArg task same] at flagged
  cases change with
  | move _ other => exact absurd rfl (other elapsed)
  | decide decides offer leaving =>
    obtain rfl : _ = false := unset (fun goes => (leaving goes).2.2.2.1) soft
    rw [retire_false,select_task] at flagged
    obtain ⟨started,other,before,_⟩ := decides.pending (orderly.settled i) (of_decide_eq_true wakes i) flagged
    exact absurd (delivered.pending started i before) other

theorem Armed.step (soft : c.mode.isHrt = false) (tickless : c.mode.isTickless = true) (sound : Sound law s)
    (orderly : Orderly s) (delivered : Soft s) (wakes : s.wakesAsleep e = true) (armed : Armed s)
    (flagged : Flagged t) (blocked : ∀ i,(t.tasks i).waitObj.isWaiting = true → t.Blocked i)
    (stepped : Stepped law s t e) : Armed t := by
  have kept : t.armed = s.armed → (t.kernel.fsmState.running = true → s.kernel.fsmState.running = true) → Armed t := by
    intro same running
    exact ⟨same ▸ armed.low,same ▸ armed.high,fun live => same ▸ armed.running (running live)⟩
  have ticks : ∀ {elapsed},Stepped law s t (.tick elapsed) → s.wakesAsleep (.tick elapsed) = true → Armed t := by
    intro elapsed stepped wakes
    obtain ⟨low,high,allows⟩ := stepped.allows sound soft tickless
    refine ⟨low,high,fun running => ?_⟩
    obtain ⟨i,now,_,bound⟩ := (Contexts.step sound.contexts stepped).running running
    have awake : ¬(t.tasks i).timeSleep < 0 := by
      intro asleep
      have flag := flagged running i now asleep
      rw [tick_delivers sound orderly delivered soft wakes stepped i] at flag
      cases flag
    have limit := (allows i bound).sleep fun both => awake (blocked i both.2).asleep
    omega
  cases stepped with
  | quiet call quiet => exact kept quiet.armed fun live => by rw [quiet.fsmState] at live; exact live
  | start off launched phase single =>
    exact ⟨ge_of_eq single,by rw [single]; exact c.ticklessRange.1,fun _ => le_of_eq single⟩
  | tick legal before ticked unlocked decided transit loads phase =>
    exact ticks (.tick legal before ticked unlocked decided transit loads phase) wakes
  | lockedTick legal before ticked locked exec phase => exact ticks (.lockedTick legal before ticked locked exec phase) wakes
  | force executes waits bound before named forced decided transit loads phase same
  | noForce executes waits bound before kernel exec phase same =>
    exact kept same fun _ => (sound.contexts.task executes).1
  | stop exits kernel exec phase same =>
    refine kept same fun live => ?_
    have dynamic := (sound.contexts.exiting (sound.contexts.trap exits)).1
    rw [kernel,onStop,if_pos dynamic] at live
    cases live

theorem sleep_starts {ticks : Int} (taken : s.step e = some t) (starts : s.startsSleep i e = some ticks) :
    s.caller = some i ∧ 0 < ticks ∧ ticks < waitInfinite ∧ (s.tasks i).suspended = false ∧
      (s.tasks i).suspendPending = false ∧ (s.tasks i).removePending = false ∧
      t.tasks i = (s.tasks i).scheduleSleep c.mode ticks ∧ t.phase i = .force .sleep := by
  cases e with
  | sleep requested =>
    simp only [startsSleep,Option.ite_none_right_eq_some] at starts
    obtain ⟨⟨calls,soft,unlocked,positive,finite,unsuspended,undeferred,staying⟩,same⟩ := starts
    cases same
    refine ⟨calls,positive,finite,unsuspended,undeferred,staying,?_⟩
    obtain ⟨j,caller,same⟩ := of_bind taken
    obtain rfl : i = j := Option.some.inj (calls.symm.trans caller)
    cases same
    have free : c.mode.isHrt = false ∧ s.kernel.fresh.isLocked = false := ⟨soft,unlocked⟩
    have hard : ¬c.mode.isHrt = true := by rw [soft]; decide
    simp only [Kernel.sleep,if_pos free,onTaskSleepImpl,if_neg hard,gt_iff_lt,if_pos positive,System.blocked,setPhase]
    exact ⟨Function.update_self _ _ _,Function.update_self _ _ _⟩
  | _ => cases starts

theorem wait_starts {ticks : Int} (taken : s.step e = some t) (starts : s.startsWait i e = some ticks) :
    s.caller = some i ∧ 0 < ticks ∧ ticks < waitInfinite ∧ (t.tasks i).waitObj.isWaiting = true ∧
      (t.tasks i).waitObj.timeWait = ticks := by
  cases e with
  | wait o requested =>
    simp only [startsWait,Option.ite_none_right_eq_some] at starts
    obtain ⟨⟨calls,sync,unlocked,positive,finite⟩,same⟩ := starts
    cases same
    refine ⟨calls,positive,finite,?_⟩
    obtain ⟨j,caller,taken⟩ := of_bind taken
    obtain rfl : i = j := Option.some.inj (calls.symm.trans caller)
    obtain ⟨⟨k',call⟩,waited,same⟩ := of_bind taken
    have free : c.mode.isSync = true ∧ s.kernel.fresh.isLocked = false := ⟨sync,unlocked⟩
    unfold Kernel.wait at waited
    rw [if_pos free] at waited
    obtain ⟨k₁,setup,waited⟩ := of_bind waited
    cases waited
    cases same
    unfold setupWait at setup
    split at setup
    · cases setup
    · obtain ⟨l,_,setup⟩ := of_bind setup
      cases setup
      simp [System.blocked,setPhase,System.tasks,registerSyncObject,modifyTask,KernelTask.scheduleSleep,
        KernelTask.setupWait,WaitObject.isWaiting]
  | _ => cases starts

def reach (s : System c) : Int := if c.mode.isTickless then s.armed else 1

theorem punctual_elapsed (stepped : Stepped law s t e) (low : c.mode.isTickless = true → 1 ≤ s.armed)
    (punctual : s.punctual e = true) : e.elapsed ≤ s.reach := by
  unfold reach
  split
  · rename_i tickless
    cases e with
    | tick elapsed =>
      simp only [System.punctual,tickless,Bool.not_true,Bool.false_or,Bool.and_eq_true,decide_eq_true_eq] at punctual
      exact punctual.2.2
    | _ => exact zero_le_one.trans (low tickless)
  · rename_i ticking
    exact stepped.forward.2 (eq_false_of_ne_true ticking)

def Alarmed (s : System c) (i : Fin n) : Alarm → Prop
  | .idle => True
  | .asleep start ticks =>
    (s.slot i).Sleeps (s.phase i) start ticks s.kernel.ticks ∧ s.kernel.isStarted = true ∧
      s.reach ≤ -(s.tasks i).timeSleep ∧ ((s.tasks i).sleepPending = true → s.reach ≤ 1)
  | .slept start ticks stop => ticks ≤ stop - start ∧ stop - start ≤ ticks + 1
  | .waiting start ticks => (s.slot i).Waits start ticks s.kernel.ticks ∧ s.reach ≤ (s.tasks i).waitObj.timeWait
  | .waited start ticks stop task => stop - start = ticks ∧ task.waitObj.getWaitResult = .timeout ∧
      (task.isSleeping = false ∨ task.suspended = true)

theorem reach_running (armed : c.mode.isTickless = true → Armed s) (running : s.kernel.fsmState.running = true) :
    s.reach ≤ 1 := by
  unfold reach
  split
  · exact (armed ‹_›).running running
  · exact le_refl 1

theorem Stepped.reach (stepped : Stepped law s t e) (other : ∀ elapsed,e ≠ .tick elapsed) :
    t.reach = s.reach ∨ t.reach = 1 := by
  have same : t.armed = s.armed ∨ t.armed = 1 := by
    cases stepped with
    | quiet _ quiet => exact .inl quiet.armed
    | start off launched phase single => exact .inr single
    | @tick elapsed | @lockedTick elapsed => exact absurd rfl (other elapsed)
    | force executes waits bound before named forced decided transit loads phase same
    | noForce executes waits bound before kernel exec phase same | stop exits kernel exec phase same => exact .inl same
  unfold System.reach
  split
  · exact same
  · exact .inl rfl

structure Timely (law : Lawful c.strategy) (s : System c) : Prop where
  sound : Sound law s
  orderly : Orderly s
  delivered : Soft s
  matched : ∀ i,(s.tasks i).Matched
  blocked : ∀ i,(s.tasks i).waitObj.isWaiting = true → s.Blocked i
  armed : c.mode.isTickless = true → Armed s

theorem Timely.wakes (timely : Timely law s) (e : Event n) : s.wakesAsleep e = true :=
  decide_eq_true fun i ends => (timely.blocked i (endsWait_waiting timely.sound.filed ends)).asleep

theorem Timely.unlinked {ticks : Int} (timely : Timely law s) (sleeps : (s.slot i).Sleeps (s.phase i) start ticks now) :
    (s.tasks i).waitObj.isWaiting = false := by
  refine eq_false_of_ne_true fun waiting => ?_
  rcases (timely.blocked i waiting).phase with waits | waits <;> rcases sleeps.phase with call | call <;>
    rw [call] at waits <;> cases waits

theorem Timely.calls (timely : Timely law t) (stepped : Stepped law s t e) (sound : Sound law s) (calls : s.caller = some i)
    (call : quiet e = true) : t.reach ≤ 1 ∧ t.kernel.isStarted = true ∧ t.kernel.ticks = s.kernel.ticks := by
  obtain ⟨running,now⟩ := sound.contexts.task (caller_executes calls).1
  cases stepped with
  | quiet _ quiet =>
    refine ⟨reach_running timely.armed ?_,?_,quiet.ticks⟩
    · rw [quiet.fsmState]; exact running
    · rw [Kernel.isStarted,quiet.taskNow,now]; rfl
  | start | tick | lockedTick | force | noForce | stop => cases call

theorem alarmed_sleep {ticks : Int} (soft : c.mode.isHrt = false) (before : Timely law s) (after : Timely law t)
    (punctual : s.punctual e = true) (taken : s.step e = some t) (alarmed : s.Alarmed i (.asleep start ticks))
    (free : s.interferes i e = false) :
    ((t.tasks i).isSleeping = true → t.Alarmed i (.asleep start ticks)) ∧
      ((t.tasks i).isSleeping = false → t.Alarmed i (.slept start ticks t.kernel.ticks)) := by
  have stepped := before.sound.stepped taken
  have tickNow := stepped.ticks
  have forward := stepped.forward.1
  obtain ⟨sleeps,started,within,entry⟩ := alarmed
  have idle := before.unlinked sleeps
  have elapsed := punctual_elapsed stepped (fun tickless => (before.armed tickless).low) punctual
  have quiet : s.endsWait i e = false := by
    refine eq_false_of_ne_true fun ends => ?_
    rw [endsWait_waiting before.sound.filed ends] at idle
    cases idle
  obtain ⟨⟨on,ceased⟩,still⟩ := (stepped.change before.sound i).sleeps soft sleeps idle quiet started free forward
    (elapsed.trans within) fun flag => elapsed.trans (entry flag)
  rw [← tickNow] at on ceased
  refine ⟨fun sleeping => ?_,fun awake => ?_⟩
  · have asleep := (KernelTask.isSleeping_iff _).mp sleeping
    have sleeps := on asleep
    refine ⟨sleeps,stepped.started before.sound started sleeps.bound,?_⟩
    by_cases clock : ∀ elapsed,e ≠ .tick elapsed
    · obtain ⟨time,flag⟩ := still clock
      rw [show (t.tasks i).timeSleep = (s.tasks i).timeSleep from time]
      have least : (s.tasks i).timeSleep < 0 := time ▸ asleep
      rcases stepped.reach clock with same | one
      · rw [same]
        exact ⟨within,fun pending => entry (flag pending)⟩
      · rw [one]
        exact ⟨by omega,fun _ => le_refl 1⟩
    · push Not at clock
      obtain ⟨elapsed,rfl⟩ := clock
      have clear := tick_delivers before.sound before.orderly before.delivered soft (before.wakes _) stepped i
      refine ⟨?_,fun pending => ?_⟩
      · unfold reach
        split
        · rename_i tickless
          have limit := ((stepped.allows before.sound soft tickless).2.2 i sleeps.bound).sleep fun both => ?_
          · omega
          · rw [after.unlinked sleeps] at both
            cases both.2
        · omega
      · rw [clear] at pending
        cases pending
  · refine ceased fun asleep => ?_
    rw [(KernelTask.isSleeping_iff (t.tasks i)).mpr asleep] at awake
    cases awake

theorem alarmed_wait {ticks : Int} (soft : c.mode.isHrt = false) (before : Timely law s) (after : Timely law t)
    (punctual : s.punctual e = true) (taken : s.step e = some t) (alarmed : s.Alarmed i (.waiting start ticks))
    (unsignalled : s.fixes i e ≠ some .signal) (uncancelled : s.fixes i e ≠ some .canceled) :
    ((t.tasks i).waitObj.state = .wait → t.Alarmed i (.waiting start ticks)) ∧
      ((t.tasks i).waitObj.state ≠ .wait → t.Alarmed i (.waited start ticks t.kernel.ticks (t.tasks i))) := by
  have stepped := before.sound.stepped taken
  have tickNow := stepped.ticks
  obtain ⟨waits,within⟩ := alarmed
  have elapsed := punctual_elapsed stepped (fun tickless => (before.armed tickless).low) punctual
  obtain ⟨⟨on,ceased⟩,still⟩ := (stepped.change before.sound i).waits soft waits (before.blocked i waits.waiting)
    (before.matched i) unsignalled uncancelled stepped.forward.1 (elapsed.trans within)
  rw [← tickNow] at on ceased
  refine ⟨fun state => ⟨on state,?_⟩,fun ended => ?_⟩
  · have waits := on state
    by_cases clock : ∀ elapsed,e ≠ .tick elapsed
    · have same : (t.tasks i).waitObj = (s.tasks i).waitObj := still clock
      rcases stepped.reach clock with kept | one
      · rw [kept,same]; exact within
      · rw [one]; exact waits.left
    · push Not at clock
      obtain ⟨elapsed,rfl⟩ := clock
      unfold reach
      split
      · rename_i tickless
        have blocked := after.blocked i waits.waiting
        exact ((stepped.allows before.sound soft tickless).2.2 i blocked.bound).wait blocked.sync waits.waiting waits.left
      · exact waits.left
  · obtain ⟨exact_,result,woken⟩ := ceased ended
    refine ⟨exact_,result,woken.imp (fun awake => ?_) id⟩
    exact eq_false_of_ne_true fun sleeping => awake ((KernelTask.isSleeping_iff _).mp sleeping)

theorem alarmed_starts {ticks : Int} (before : Timely law s) (after : Timely law t) (taken : s.step e = some t)
    (call : quiet e = true) (calls : s.caller = some i) (positive : 0 < ticks) (finite : ticks < waitInfinite)
    (unsuspended : (s.tasks i).suspended = false) (undeferred : (s.tasks i).suspendPending = false)
    (staying : (s.tasks i).removePending = false) (task : t.tasks i = (s.tasks i).scheduleSleep c.mode ticks)
    (phase : t.phase i = .force .sleep) : t.Alarmed i (.asleep s.kernel.ticks ticks) := by
  obtain ⟨near,started,same⟩ := after.calls (before.sound.stepped taken) before.sound calls call
  have bound : (t.tasks i).user ≠ none := by
    rw [task]
    exact before.sound.contexts.bound i calls
  have time : (t.tasks i).timeSleep = -ticks := by rw [task]; rfl
  refine ⟨⟨?_,?_,?_,?_,fun _ => ⟨same,time⟩,?_,?_,?_,bound,.inl phase⟩,started,?_,fun _ => near⟩
  all_goals try rw [show (t.slot i).task = t.tasks i from rfl]
  · omega
  · omega
  · omega
  · omega
  · rw [task]; exact unsuspended
  · rw [task]; exact undeferred
  · rw [task]; exact staying
  · omega

theorem alarmed_step (soft : c.mode.isHrt = false) (before : Timely law s) (after : Timely law t)
    (punctual : s.punctual e = true) (taken : s.step e = some t) (alarmed : s.Alarmed i (w i)) :
    t.Alarmed i (s.alarm e t w i) := by
  have stepped := before.sound.stepped taken
  unfold alarm
  split
  · rename_i ticks starts
    obtain ⟨calls,positive,finite,unsuspended,undeferred,staying,task,phase⟩ := sleep_starts taken starts
    have call : quiet e = true := by
      cases e with
      | sleep => rfl
      | _ => cases starts
    exact alarmed_starts before after taken call calls positive finite unsuspended undeferred staying task phase
  · split
    · rename_i ticks starts
      obtain ⟨calls,positive,finite,waiting,timeWait⟩ := wait_starts taken starts
      have call : quiet e = true := by
        cases e with
        | wait => rfl
        | _ => cases starts
      obtain ⟨near,started,same⟩ := after.calls stepped before.sound calls call
      refine ⟨⟨waiting,finite,le_of_eq same.symm,?_,?_⟩,?_⟩
      all_goals try rw [show (t.slot i).task = t.tasks i from rfl]
      · omega
      · omega
      · omega
    · cases account : w i with
      | idle => trivial
      | asleep start ticks =>
        rw [account] at alarmed
        dsimp only
        split
        · trivial
        · rename_i free
          obtain ⟨on,ceased⟩ := alarmed_sleep soft before after punctual taken alarmed (eq_false_of_ne_true free)
          split
          · exact on ‹_›
          · exact ceased (eq_false_of_ne_true ‹_›)
      | slept | waited => rw [account] at alarmed; exact alarmed
      | waiting start ticks =>
        rw [account] at alarmed
        dsimp only
        split
        · trivial
        · rename_i free
          rw [not_or] at free
          obtain ⟨on,ceased⟩ := alarmed_wait soft before after punctual taken alarmed free.1 free.2
          split
          · exact on ‹_›
          · exact ceased ‹_›

theorem Timely.step (soft : c.mode.isHrt = false) (timely : Timely law s) (flagged : c.mode.isTickless = true → Flagged s)
    (punctual : s.punctual e = true) (taken : s.step e = some t) :
    Timely law t ∧ (c.mode.isTickless = true → Flagged t) := by
  obtain ⟨sound,orderly,delivered,matched,blocked,armed⟩ := timely
  obtain ⟨free,clock⟩ := Bool.and_eq_true_iff.mp punctual
  have stepped := sound.stepped taken
  have wakes := Timely.wakes ⟨sound,orderly,delivered,matched,blocked,armed⟩ e
  have waits : ∀ i,(t.tasks i).waitObj.isWaiting = true → t.Blocked i := by
    intro i waiting
    obtain ⟨blocks,sync,started⟩ := (stepped.change sound i).blocks sound.contexts orderly.settled wakes free
      (soft_keeps soft s e) (blocked i) waiting
    exact ⟨blocks,sync,stepped.started sound started blocks.bound⟩
  have flags : c.mode.isTickless = true → Flagged t := by
    intro tickless
    rw [tickless,Bool.not_true,Bool.false_or] at clock
    exact (flagged tickless).step soft sound orderly delivered wakes (Bool.and_eq_true_iff.mp clock).1 taken
  refine ⟨⟨sound.step taken,orderly.step sound wakes stepped,delivered.step soft sound orderly wakes stepped,?_,waits,?_⟩,flags⟩
  · exact fun i => (stepped.change sound i).matched (matched i) (blocked i)
  · exact fun tickless => Armed.step soft tickless sound orderly delivered wakes (armed tickless) (flags tickless) waits stepped

theorem reached_alarmed (law : Lawful c.strategy) (soft : c.mode.isHrt = false)
    (run : Run (observe step alarm) (fun p e => p.1.punctual e = true) (initial c,fun _ => .idle) p) :
    (Timely law p.1 ∧ (c.mode.isTickless = true → Flagged p.1)) ∧ ∀ i,p.1.Alarmed i (p.2 i) := by
  induction run with
  | nil =>
    refine ⟨⟨⟨⟨initial_filed law,initial_contexts⟩,initial_orderly law,?_,fun i => ?_,fun i waits => (by cases waits),?_⟩,?_⟩,
      fun _ => trivial⟩
    · exact ⟨fun started => (by cases started),fun _ selected => (by cases selected)⟩
    · exact ⟨fun waits => (by cases waits),fun waits => (by cases waits)⟩
    · exact fun _ => ⟨le_refl 1,c.ticklessRange.1,fun running => (by cases running)⟩
    · exact fun _ running => (by cases running)
  | snoc run allowed observed ih =>
    obtain ⟨⟨timely,flagged⟩,alarmed⟩ := ih
    obtain ⟨taken,watched⟩ := Transition.observe_some observed
    have next := timely.step soft flagged allowed taken
    refine ⟨next,fun i => ?_⟩
    rw [watched]
    exact alarmed_step soft timely next.1 allowed taken (alarmed i)

-- Every Sleep() and every timed Wait ends on time, and a tickless platform sleeps for 1 to
-- STK_TICKLESS_TICKS_MAX ticks.
theorem timeouts_punctual (b : Bundled) (chosen : c.strategy = b.strategy n) (soft : c.mode.isHrt = false)
    (run : Run (observe step alarm) (fun p e => p.1.punctual e = true)
      (initial c,fun _ => .idle) (s,w)) :
    (c.mode.isTickless = true → 1 ≤ s.armed ∧ s.armed ≤ c.ticklessTicksMax) ∧
      ∀ i,(w i).Accurate (s.tasks i) s.kernel.ticks := by
  obtain ⟨⟨timely,_⟩,alarmed⟩ := reached_alarmed (b.law chosen) soft run
  refine ⟨fun tickless => ⟨(timely.armed tickless).low,(timely.armed tickless).high⟩,fun i => ?_⟩
  have account := alarmed i
  dsimp only at account
  cases case : w i with
  | idle => trivial
  | asleep start ticks =>
    rw [case] at account
    have asleep : (s.tasks i).timeSleep < 0 := account.1.asleep
    have high : s.kernel.ticks - start ≤ ticks + (s.tasks i).timeSleep + 1 := account.1.high
    exact ⟨(KernelTask.isSleeping_iff _).mpr asleep,by omega⟩
  | slept | waited => rw [case] at account; exact account
  | waiting start ticks =>
    rw [case] at account
    have waiting : (s.tasks i).waitObj.isWaiting = true := account.1.waiting
    have left : 0 < (s.tasks i).waitObj.timeWait := account.1.left
    have counts : (s.tasks i).waitObj.timeWait = ticks - (s.kernel.ticks - start) := account.1.counts
    exact ⟨(timely.matched i).mpr waiting,by omega⟩

def sleepAndWait : List (Event 2) :=
  [.addTask ⟨1,1,1,0⟩,.addTask ⟨2,2,1,0⟩,.start,.sleep 5,.force,.wait 0 9,.force,.tick 1,.tick 4,.tick 1]

theorem sleepAndWait_punctual : ∃ (s : System (ticklessKernel 2 (by decide))) (w : Fin 2 → Alarm),
    Transition.exec (observe step alarm) (initial _,fun _ => .idle) sleepAndWait = some (s,w) ∧
      (1 ≤ s.armed ∧ s.armed ≤ 1000) ∧ ∀ i,(w i).Accurate (s.tasks i) s.kernel.ticks := by
  have ran : (Transition.exec (observe step alarm) (initial (ticklessKernel 2 (by decide)),fun _ => .idle)
      sleepAndWait).isSome = true := by decide
  obtain ⟨⟨s,w⟩,ran⟩ := Option.isSome_iff_exists.mp ran
  have run := Run.ofExecAllowed (fun p e => p.1.punctual e) (by decide) ran
  obtain ⟨range,accurate⟩ := timeouts_punctual (.roundRobin false) rfl rfl run
  exact ⟨s,w,ran,range rfl,accurate⟩

-- A wait whose task was resumed is left behind, and its timeout cuts the next Sleep short.
def leftWait : List (Event 2) :=
  [.addTask ⟨1,1,1,0⟩,.addTask ⟨2,2,1,0⟩,.start,.suspendTask 1 true,.wait 0 2,.resumeTask 1,.tick 1,.force,.leave,
    .sleep 100,.force,.tick 1]

theorem leftWait_cuts : ∃ (s : System (dynamicKernel 2 (by decide))) (w : Fin 2 → Alarm),
    Run (observe step alarm) (fun _ _ => True) (initial _,fun _ => .idle) (s,w) ∧
      w 0 = .slept 1 100 2 := by
  have ran : ((Transition.exec (observe step alarm) (initial (dynamicKernel 2 (by decide)),fun _ => .idle)
      leftWait).map fun p => p.2 0) = some (.slept 1 100 2) := by rfl
  obtain ⟨⟨s,w⟩,ran,account⟩ := of_map ran
  exact ⟨s,w,.ofExec ran,account⟩

end System
end SuperTinyKernel
