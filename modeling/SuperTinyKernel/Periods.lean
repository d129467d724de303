import SuperTinyKernel.Timing

namespace SuperTinyKernel

open Transition KernelTask

-- Hard real-time tasks that run and yield: the ticks at which their jobs are released.

-- What an observer with a clock knows about the jobs of a slot: when it was bound and with
-- which start delay, when its jobs were released, the last one first, and whether the last one
-- is working.
structure Timetable where
  added : Int := 0
  delay : Int := 0
  releases : List Int := []
  working : Bool := false

namespace Timetable

def release (now : Int) (w : Timetable) : Timetable := {w with releases := now :: w.releases,working := true}
def complete (w : Timetable) : Timetable := {w with working := false}

def regular (first period : Int) : Nat → List Int
  | 0 => []
  | count + 1 => (first + count * period) :: regular first period count

def Regular (w : Timetable) (period : Int) : Prop := w.releases = regular (w.added + w.delay) period w.releases.length

def due (w : Timetable) (period : Int) : Int := w.added + w.delay + w.releases.length * period

def job (w : Timetable) : Option Int := if w.working then w.releases.head? else none

variable {w : Timetable} {period now : Int}

theorem Regular.release (even : w.Regular period) : (w.release (w.due period)).Regular period :=
  congrArg (w.due period :: ·) even

theorem Regular.job (even : w.Regular period) (job : w.job = some r) : w.releases ≠ [] ∧ r = w.due period - period := by
  obtain ⟨added,delay,releases,working⟩ := w
  cases releases with
  | nil => unfold Timetable.job at job; split at job <;> cases job
  | cons last rest =>
    refine ⟨List.cons_ne_nil _ _,?_⟩
    have same : last = r := by
      unfold Timetable.job at job
      split at job
      · exact Option.some.inj job
      · cases job
    rw [← same,(List.cons.inj even).1]
    unfold due
    rw [List.length_cons,Int.natCast_add,Int.add_mul]
    simp [← Int.add_assoc]

end Timetable

namespace System

variable {c : Config n}

def plain (s : System c) (i : Fin n) : Event n → Bool
  | .wait _ _ | .exitTask | .returnFromRun => decide (s.caller ≠ some i)
  | .suspendTask tid _ | .resumeTask tid | .scheduleTaskRemoval tid | .removeTask tid =>
    decide (s.kernel.findTaskByUserTask tid ≠ some i)
  | .cancelTaskWait j => decide (j ≠ i)
  | .suspend _ => decide (s.kernel.taskNow ≠ some i)
  | _ => true

-- A task is released when it starts awake and whenever a tick ends its sleep; Yield
-- completes the job.
def timetable (s : System c) (e : Event n) (t : System c) (w : Fin n → Timetable) : Fin n → Timetable := fun i =>
  match e with
  | .addTaskHrt _ _ _ delay =>
    if (s.tasks i).user = none ∧ (t.tasks i).user ≠ none then ⟨s.kernel.ticks,delay,[],false⟩ else w i
  | .start => if (t.tasks i).user ≠ none ∧ (t.tasks i).isSleeping = false then (w i).release t.kernel.ticks else w i
  | .tick _ =>
    if (s.tasks i).isSleeping = true ∧ (t.tasks i).isSleeping = false then (w i).release t.kernel.ticks else w i
  | .switchToNext => if s.caller = some i then (w i).complete else w i
  | _ => w i

-- The deadline lies within the period, and every Yield comes before it.
def yieldsEarly (s : System c) (i : Fin n) (w : Timetable) : Event n → Bool
  | .switchToNext =>
    decide (s.caller = some i → (s.tasks i).hrt.deadline ≤ (s.tasks i).hrt.periodicity ∧
      ∀ r ∈ w.job,s.kernel.ticks < r + (s.tasks i).hrt.deadline)
  | _ => true

-- No tick falls between the two steps of a Yield of slot `i`.
def undisturbed (s : System c) (i : Fin n) : Event n → Bool
  | .tick _ => !(s.tasks i).sleepPending
  | _ => true

def undrifting (s : System c) (i : Fin n) (w : Timetable) (e : Event n) : Bool := s.yieldsEarly i w e && s.undisturbed i e

end System

-- What the jobs of a slot depend on: of its task, and of the kernel around it.
structure Cycle where
  user : Option UserTask
  sleep : Int
  pending : Bool
  hrt : HrtInfo

structure Look extends Cycle where
  place : Place
  on : Bool
  live : Bool
  ticks : Int

namespace Cycle

def retire (z : Cycle) : Cycle :=
  {z with
    sleep := if z.hrt.duration < z.hrt.periodicity then z.hrt.duration - z.hrt.periodicity else z.sleep
    hrt := {z.hrt with duration := 0,done := false}}

end Cycle

def KernelTask.cycle (t : KernelTask) : Cycle := ⟨t.user,t.timeSleep,t.sleepPending,t.hrt⟩

theorem KernelTask.cycle_switchedOut {t : KernelTask} (asleep : t.timeSleep < 0) :
    (t.hrtOnSwitchedOut m).cycle = t.cycle.retire := by
  rw [hrtOnSwitchedOut_eq]
  simp [cycle,Cycle.retire,isSleeping,asleep]
  rfl

def System.look {c : Config n} (s : System c) (i : Fin n) : Look where
  toCycle := (s.tasks i).cycle
  place := s.place i
  on := s.kernel.isStarted
  live := decide (s.kernel.taskNow = some i) && s.kernel.fsmState.running
  ticks := s.kernel.ticks

-- The five situations of a slot whose task only runs and yields, with `steady` also the times
-- of its releases.

structure Vacant (x : Look) (w : Timetable) : Prop where
  free : x.user = none
  awake : x.sleep = 0
  settled : x.pending = false
  duration : x.hrt.duration = 0
  done : x.hrt.done = false
  idle : w.working = false

structure Planned (x : Look) (w : Timetable) : Prop where
  bound : x.user ≠ none
  off : x.on = false
  delay : 0 ≤ w.delay
  sleep : x.sleep = -w.delay
  pending : x.pending = decide (0 < w.delay)
  duration : x.hrt.duration = 0
  done : x.hrt.done = false
  ready : x.place = .ready
  added : w.added = x.ticks
  none_ : w.releases = []
  idle : w.working = false

structure Active (steady : Bool) (x : Look) (w : Timetable) : Prop where
  bound : x.user ≠ none
  on : x.on = true
  awake : ¬x.sleep < 0
  settled : x.pending = false
  done : x.hrt.done = false
  ready : x.place = .ready
  job : w.job = some (x.ticks - x.hrt.duration)
  counted : 0 ≤ x.hrt.duration
  regular : steady = true → w.Regular x.hrt.periodicity

structure Ending (steady : Bool) (x : Look) (w : Timetable) : Prop where
  bound : x.user ≠ none
  on : x.on = true
  live : x.live = true
  asleep : x.sleep = -1
  pending : x.pending = true
  done : x.hrt.done = true
  ready : x.place = .ready
  idle : w.working = false
  counted : 0 ≤ x.hrt.duration
  regular : steady = true → w.Regular x.hrt.periodicity ∧ w.releases ≠ [] ∧ x.hrt.duration < x.hrt.periodicity ∧
    x.hrt.periodicity - x.hrt.duration = w.due x.hrt.periodicity - x.ticks

structure Resting (c : Config n) (steady : Bool) (x : Look) (w : Timetable) : Prop where
  bound : x.user ≠ none
  on : x.on = true
  away : x.live = false
  asleep : x.sleep < 0
  settled : x.pending = false
  done : x.hrt.done = false
  duration : x.hrt.duration = 0
  place : x.place = c.sleepPlace .ready
  idle : w.working = false
  regular : steady = true → w.Regular x.hrt.periodicity ∧
    (-waitInfinite < x.sleep ∧ x.sleep = x.ticks - w.due x.hrt.periodicity ∨
      w.releases = [] ∧ waitInfinite ≤ w.delay ∧ x.sleep ≤ -waitInfinite)

inductive Stands (c : Config n) (steady : Bool) (x : Look) (w : Timetable) : Prop where
  | vacant : Vacant x w → Stands c steady x w
  | planned : Planned x w → Stands c steady x w
  | active : Active steady x w → Stands c steady x w
  | ending : Ending steady x w → Stands c steady x w
  | resting : Resting c steady x w → Stands c steady x w

structure Slot.Spared (s : Slot) : Prop where
  deferred : s.task.suspendPending = false
  woken : s.task.wakePending = false
  staying : s.task.removePending = false
  unlinked : s.task.waitObj.isWaiting = false

namespace Slot.Spared

variable {c : Config n} {s slot : Slot}

section

variable (spared : s.Spared)
include spared

theorem keep (deferred : slot.task.suspendPending = s.task.suspendPending)
    (woken : slot.task.wakePending = s.task.wakePending) (staying : slot.task.removePending = s.task.removePending)
    (linked : slot.task.waitObj.syncObj = s.task.waitObj.syncObj) : slot.Spared :=
  ⟨deferred.trans spared.deferred,woken.trans spared.woken,staying.trans spared.staying,by
    rw [WaitObject.isWaiting,linked]; exact spared.unlinked⟩

theorem consumeYield : (s.consumeYield c).Spared ∧ (s.consumeYield c).task.cycle = s.task.cycle := by
  unfold Slot.consumeYield Kernel.consumeYield
  split <;> exact ⟨spared.keep rfl rfl rfl rfl,rfl⟩

theorem settle : (s.settle c).Spared := ⟨spared.deferred,rfl,spared.staying,spared.unlinked⟩

theorem tickSync : s.tickSync c elapsed = s := by
  unfold Slot.tickSync KernelTask.tickSync
  rw [spared.unlinked,Bool.and_false]
  rfl

theorem select : (s.select chosen).Spared := by
  unfold Slot.select
  split <;> exact spared.keep rfl rfl rfl rfl

theorem retire : (s.retire c leaves).Spared := by
  unfold Slot.retire
  split
  · rw [hrtOnSwitchedOut_eq]
    exact spared.keep rfl rfl rfl rfl
  · exact spared

theorem launch : (s.launch c).Spared := by
  unfold Slot.launch
  split <;> exact spared.keep rfl rfl rfl rfl

end

inductive Turned (c : Config n) (elapsed : Int) (z : Cycle) (p : Place) : Cycle → Place → Prop where
  | idle : ¬z.sleep < 0 → z.user = none → Turned c elapsed z p z p
  | counts : ¬z.sleep < 0 → z.user ≠ none →
      Turned c elapsed z p {z with hrt := {z.hrt with duration := z.hrt.duration + elapsed}} p
  | entering : z.sleep < 0 → z.pending = true → Turned c elapsed z p {z with pending := false} (c.sleepPlace p)
  | endless : z.sleep < 0 → z.pending = false → z.sleep = -waitInfinite → Turned c elapsed z p z p
  | asleep : z.sleep < 0 → z.pending = false → z.sleep ≠ -waitInfinite → z.sleep + elapsed < 0 →
      Turned c elapsed z p {z with sleep := z.sleep + elapsed} p
  | woken : z.sleep < 0 → z.pending = false → z.sleep ≠ -waitInfinite → ¬z.sleep + elapsed < 0 →
      Turned c elapsed z p {z with sleep := z.sleep + elapsed} (c.wakePlace p)

theorem turn (spared : s.Spared) (hard : c.mode.isHrt = true) (recovered : Bool) (elapsed : Int) :
    (s.turn c false recovered elapsed).Spared ∧
      Turned c elapsed s.task.cycle s.place (s.turn c false recovered elapsed).task.cycle
        (s.turn c false recovered elapsed).place := by
  obtain ⟨spared,same⟩ := spared.consumeYield (c := c)
  have time : (s.consumeYield c).task.timeSleep = s.task.timeSleep := congrArg Cycle.sleep same
  rw [← same]
  by_cases asleep : s.task.timeSleep < 0
  · have down : (s.consumeYield c).task.timeSleep < 0 := by rw [time]; exact asleep
    rw [Slot.turn_asleep asleep,Slot.advanceSleep,spared.woken,spared.deferred]
    cases pending : (s.consumeYield c).task.sleepPending with
    | true => exact ⟨spared.settle,.entering down pending⟩
    | false =>
      by_cases infinite : (s.consumeYield c).task.timeSleep = -waitInfinite
      · rw [(isSleepInfinite_iff _).mpr infinite]
        exact ⟨spared,.endless down pending infinite⟩
      · rw [eq_false_of_ne_true fun stuck => infinite ((isSleepInfinite_iff _).mp stuck)]
        simp only [Bool.not_false,Bool.and_true,Bool.or_self,Bool.false_eq_true,if_false,false_and]
        split
        · exact ⟨spared.keep rfl rfl rfl rfl,.asleep down pending infinite ‹_›⟩
        · exact ⟨spared.keep rfl rfl rfl rfl,.woken down pending infinite ‹_›⟩
  · have up : ¬(s.consumeYield c).task.timeSleep < 0 := by rw [time]; exact asleep
    rw [Slot.turn_awake asleep,Slot.trackDuration,hard,Bool.true_and]
    split
    · rename_i busy
      exact ⟨spared.keep rfl rfl rfl rfl,.counts up (Option.isSome_iff_ne_none.mp busy)⟩
    · rename_i idle
      exact ⟨spared,.idle up (Option.not_isSome_iff_eq_none.mp idle)⟩

end Slot.Spared

theorem Move.plain {c : Config n} {s : System c} {law : Lawful c.strategy} {slot : Slot} (move : Move s i e slot phase)
    (hard : c.mode.isHrt = true) (filed : Kernel.Filed law s.kernel) (spared : (s.slot i).Spared)
    (plain : s.plain i e = true) :
    slot.Spared ∧
      (slot.task.cycle = (s.tasks i).cycle ∧ slot.place = s.place i ∧ (phase = s.phase i ∨ ∃ call,s.phase i = .spin call) ∨
        (∃ u period deadline delay,e = .addTaskHrt u period deadline delay ∧ (s.tasks i).user = none ∧
          s.kernel.isStarted = false ∧ 0 < period ∧ period < waitInfinite ∧ 0 ≤ delay ∧ slot.place = .ready ∧
          slot.task = ((s.tasks i).bind c.mode c.strategy.api u).scheduled c.mode period deadline delay) ∨
        e = .switchToNext ∧ s.caller = some i ∧ slot.place = s.place i) := by
  have spares : ∀ {tid},decide (s.kernel.findTaskByUserTask tid ≠ some i) = true → s.finds tid i → False :=
    fun other found => of_decide_eq_true other found
  cases move with
  | rest | weights | timeSlice => exact ⟨spared.keep rfl rfl rfl rfl,.inl ⟨rfl,rfl,.inl rfl⟩⟩
  | bind soft | sleep _ soft | sleepUntil _ soft | yield _ _ soft => rw [hard] at soft; cases soft
  | bindHrt _ free off low high _ _ delay =>
    exact ⟨spared.keep rfl rfl rfl rfl,.inr (.inl ⟨_,_,_,_,rfl,free,off,low,high,delay,rfl,rfl⟩)⟩
  | unbind _ _ finds | scheduleTaskRemoval finds | suspend finds | suspendLater finds | resume finds | lift finds => exact (spares plain finds).elim
  | yieldSleep calls => exact ⟨spared.keep rfl rfl rfl rfl,.inr (.inr ⟨rfl,calls,rfl⟩)⟩
  | wait calls | exitTask calls | returnFromRun calls => exact absurd calls (of_decide_eq_true plain)
  | signal listed =>
    have linked := (isWaiting_iff _).mpr ⟨_,(Kernel.signalled_waiting filed listed).2⟩
    exact absurd (spared.unlinked.symm.trans linked) Bool.false_ne_true
  | cancel | cancelSleep => exact absurd rfl (of_decide_eq_true plain)
  | leave _ spins | leaveExit _ spins | leaveWait _ spins => exact ⟨spared.keep rfl rfl rfl rfl,.inl ⟨rfl,rfl,.inr ⟨_,spins⟩⟩⟩
  | stepAside now => exact absurd now (of_decide_eq_true plain)

namespace System

open Kernel

variable {c : Config n} {law : Lawful c.strategy} {s t : System c} {i : Fin n} {w : Timetable} {steady : Bool}

structure Cyclic (steady : Bool) (s : System c) (i : Fin n) (w : Timetable) : Prop where
  spared : (s.slot i).Spared
  period : (s.look i).user ≠ none → 0 < (s.look i).hrt.periodicity ∧ (s.look i).hrt.periodicity < waitInfinite
  called : (s.look i).hrt.done = true → s.phase i = .force .sleep
  stands : Stands c steady (s.look i) w

theorem look_eq (cycle : (t.tasks i).cycle = (s.tasks i).cycle) (place : t.place i = s.place i)
    (now : t.kernel.taskNow = s.kernel.taskNow) (running : t.kernel.fsmState.running = s.kernel.fsmState.running)
    (ticks : t.kernel.ticks = s.kernel.ticks) : t.look i = s.look i := by
  simp only [look,isStarted,cycle,place,now,running,ticks]

theorem Cyclic.keep (cyclic : Cyclic steady s i w) (spared : (t.slot i).Spared) (look : t.look i = s.look i)
    (phase : s.phase i = .force .sleep → t.phase i = .force .sleep) : Cyclic steady t i w :=
  ⟨spared,look ▸ cyclic.period,fun done => phase (cyclic.called (look ▸ done)),look ▸ cyclic.stands⟩

theorem yield_blocks (hard : c.mode.isHrt = true) (unlocked : s.kernel.isLocked = false) (calls : s.caller = some i)
    (taken : s.step .switchToNext = some t) :
    t.tasks i = (s.tasks i).blockFor c.mode yieldTicks ∧ t.phase i = .force .sleep := by
  obtain ⟨j,caller,taken⟩ := of_bind taken
  obtain rfl : i = j := Option.some.inj (calls.symm.trans caller)
  obtain ⟨r,switched,same⟩ := of_bind taken
  have free : ¬s.kernel.fresh.isLocked = true := by
    rw [show s.kernel.fresh.isLocked = false from unlocked]
    decide
  have sleeps : ¬(c.strategy.api.noSleepYield = true ∧ c.mode.isHrt = false) := fun both => by
    rw [hard] at both
    cases both.2
  rw [switchToNext,if_neg free,onTaskSwitch,if_neg sleeps] at switched
  cases switched
  cases same
  simp only [onTaskSleepImpl,hard,if_true,yieldTicks,gt_iff_lt,Int.zero_lt_one,System.blocked,setPhase]
  refine ⟨?_,Function.update_self _ _ _⟩
  simp only [System.tasks,modifyTask,fresh,blockFor_eq,hard,if_true,Function.update_self]

theorem look_live (live : (s.look i).live = true) : s.kernel.taskNow = some i ∧ s.kernel.fsmState.running = true := by
  obtain ⟨now,running⟩ := Bool.and_eq_true_iff.mp live
  exact ⟨of_decide_eq_true now,running⟩

theorem Cyclic.yield (hard : c.mode.isHrt = true) (sound : Sound law s) (unlocked : s.kernel.isLocked = false)
    (cyclic : Cyclic steady s i w) (holds : steady = true → s.undrifting i w .switchToNext = true)
    (calls : s.caller = some i) (taken : s.step .switchToNext = some t) : Cyclic steady t i w.complete := by
  obtain ⟨task,phase⟩ := yield_blocks hard unlocked calls taken
  obtain ⟨executes,user⟩ := caller_executes calls
  obtain ⟨running,now⟩ := sound.contexts.task executes
  have quiet : Quiet law s t .switchToNext := switchToNext_quiet sound.filed taken
  obtain ⟨spared,moved⟩ := (quiet.moves i).plain hard sound.filed cyclic.spared rfl
  have place : t.place i = s.place i := by
    rcases moved with ⟨_,same,_⟩ | ⟨_,_,_,_,other,_⟩ | ⟨_,_,same⟩
    · exact same
    · cases other
    · exact same
  have live : (s.look i).live = true := by simp [look,now,running]
  rw [blockFor,hard] at task
  have look : t.look i = {s.look i with
      sleep := -1
      pending := (s.look i).pending || !decide ((s.look i).sleep < 0)
      hrt := {(s.look i).hrt with done := true}} := by
    simp only [System.look,isStarted,task,place,quiet.taskNow,quiet.fsmState,quiet.ticks]
    rfl
  refine ⟨spared,by rw [look]; exact cyclic.period,fun _ => phase,?_⟩
  rw [look]
  cases cyclic.stands with
  | vacant v => exact absurd v.free (sound.contexts.bound i calls)
  | planned p => exact absurd p.off (by simp [System.look,isStarted,now])
  | ending e => rw [cyclic.called e.done] at user; cases user
  | resting r => rw [r.away] at live; cases live
  | active a =>
    refine .ending ⟨a.bound,a.on,live,rfl,?_,rfl,a.ready,rfl,a.counted,fun exact_ => ?_⟩
    · simp [a.awake]
    · obtain ⟨within,early⟩ := of_decide_eq_true (Bool.and_eq_true_iff.mp (holds exact_)).1 calls
      obtain ⟨some_,last⟩ := (a.regular exact_).job a.job
      have early : (s.look i).ticks < _ + (s.look i).hrt.deadline := early _ a.job
      have within : (s.look i).hrt.deadline ≤ (s.look i).hrt.periodicity := within
      exact ⟨a.regular exact_,some_,by dsimp only; omega,by dsimp only [Timetable.due,Timetable.complete] at *; omega⟩

theorem Cyclic.vacant (cyclic : Cyclic steady s i w) (free : (s.look i).user = none) : Vacant (s.look i) w := by
  cases cyclic.stands with
  | vacant v => exact v
  | planned p => exact absurd free p.bound
  | active a => exact absurd free a.bound
  | ending e => exact absurd free e.bound
  | resting r => exact absurd free r.bound

theorem Cyclic.bind {period delay : Int} (cyclic : Cyclic steady s i w) (spared : (t.slot i).Spared) (free : (s.look i).user = none)
    (off : t.kernel.isStarted = false) (low : 0 < period) (high : period < waitInfinite) (wait : 0 ≤ delay)
    (place : t.place i = .ready) (ticks : t.kernel.ticks = s.kernel.ticks)
    (task : t.tasks i = ((s.tasks i).bind c.mode c.strategy.api u).scheduled c.mode period deadline delay) :
    Cyclic steady t i ⟨s.kernel.ticks,delay,[],false⟩ := by
  obtain ⟨_,awake,settled,duration,done,_⟩ := cyclic.vacant free
  have look : t.look i = {s.look i with
      user := some u
      sleep := if 0 < delay then -delay else (s.look i).sleep
      pending := (s.look i).pending || decide (0 < delay) && !decide ((s.look i).sleep < 0)
      hrt := {(s.look i).hrt with periodicity := period,deadline := deadline}
      place := .ready
      on := false
      live := (t.look i).live} := by
    simp only [System.look,task,place,ticks,off]
    rfl
  rw [awake,settled] at look
  refine ⟨spared,by rw [look]; exact fun _ => ⟨low,high⟩,fun finished => ?_,?_⟩
  · rw [look] at finished
    exact absurd (done.symm.trans finished) Bool.false_ne_true
  · rw [look]
    refine .planned ⟨Option.some_ne_none u,rfl,wait,?_,by simp,duration,done,rfl,rfl,rfl,rfl⟩
    dsimp only
    split <;> omega

theorem Cyclic.quiet {w : Fin n → Timetable} (hard : c.mode.isHrt = true) (sound : Sound law s)
    (unlocked : s.kernel.isLocked = false) (cyclic : Cyclic steady s i (w i)) (plain : s.plain i e = true)
    (holds : steady = true → s.undrifting i (w i) e = true) (call : System.quiet e = true) (quiet : Quiet law s t e)
    (taken : s.step e = some t) : Cyclic steady t i (s.timetable e t w i) := by
  obtain ⟨spared,moved⟩ := (quiet.moves i).plain hard sound.filed cyclic.spared plain
  rcases moved with ⟨cycle,place,phase⟩ | ⟨u,period,deadline,delay,rfl,free,off,low,high,wait,place,task⟩ | ⟨rfl,calls,_⟩
  · by_cases yields : e = .switchToNext ∧ s.caller = some i
    · obtain ⟨rfl,calls⟩ := yields
      rw [timetable,if_pos calls]
      exact cyclic.yield hard sound unlocked holds calls taken
    · have same : s.timetable e t w i = w i := by
        cases e with
        | addTaskHrt =>
          refine if_neg fun binds => binds.2 ?_
          exact (congrArg Cycle.user cycle).trans binds.1
        | switchToNext => exact if_neg fun calls => yields ⟨rfl,calls⟩
        | start | tick => cases call
        | _ => rfl
      rw [same]
      refine cyclic.keep spared (look_eq cycle place quiet.taskNow (by rw [quiet.fsmState]) quiet.ticks) fun called => ?_
      rcases phase with same | ⟨_,spins⟩
      · exact same.trans called
      · rw [called] at spins; cases spins
  · have task : t.tasks i = _ := task
    have bound : (t.tasks i).user ≠ none := by
      rw [task]
      exact Option.some_ne_none u
    rw [timetable,if_pos ⟨free,bound⟩]
    exact cyclic.bind spared free (by rw [isStarted,quiet.taskNow]; exact off) low high wait place quiet.ticks task
  · rw [timetable,if_pos calls]
    exact cyclic.yield hard sound unlocked holds calls taken

theorem decided_keeps {u k' : Kernel c} (decided : Decided law u k' next) (stays : u.switchedOut next ≠ some i) :
    k'.slot i = (u.slot i).select (decide (next = some i)) := by
  rw [decided.slots,decide_eq_false stays]
  rfl

theorem transit_chosen {u : Kernel c} (transit : Transit u next now f out) (running : f.running = true) : now = next := by
  cases transit with
  | keep | switch | wake => rfl
  | _ => cases running

theorem sleeping_unchosen {u : Kernel c} (filed : Filed law u) (called : u.nextTask = some next)
    (asleep : (u.tasks i).timeSleep < 0) (place : u.place i = c.sleepPlace .ready) : next ≠ some i := by
  rintro rfl
  obtain ⟨ready,awake⟩ := nextTask_ready filed called
  unfold Config.sleepPlace at place
  split at place
  · rw [ready] at place; cases place
  · exact awake (eq_false_of_ne_true ‹_›) asleep

theorem working_unretired {u : Kernel c} (filed : Filed law u) (called : u.nextTask = some next)
    (awake : ¬(u.tasks i).timeSleep < 0) (ready : u.place i = .ready) (undone : (u.tasks i).hrt.done = false) :
    u.switchedOut next ≠ some i := by
  intro leaves
  rcases switchedOut_why leaves with done | ⟨_,rfl⟩
  · rw [undone] at done; cases done
  · exact awake (nextTask_none filed called ready).2

theorem ending_retired {u : Kernel c} (hard : c.mode.isHrt = true) (filed : Filed law u) (called : u.nextTask = some next)
    (now : u.taskNow = some i) (running : u.fsmState.running = true) (bound : (u.tasks i).user ≠ none)
    (staying : (u.tasks i).removePending = false) (done : (u.tasks i).hrt.done = true)
    (asleep : (u.tasks i).timeSleep < 0) (place : u.place i = c.sleepPlace .ready) : u.switchedOut next = some i := by
  have other := sleeping_unchosen filed called asleep place
  cases next with
  | some j => exact (switchedOut_some now running).trans (if_pos ⟨hard,fun same => other (congrArg some same),done⟩)
  | none =>
    have busy : u.noTasks = false := eq_false_of_ne_true fun empty => bound (((noTasks_iff filed).mp empty).2 i)
    exact (switchedOut_none now running busy).trans (if_pos ⟨hard,staying⟩)

theorem offered_same {u : Kernel c} (slot : t.slot i = (u.slot i).select chosen) :
    t.tasks i = u.tasks i ∧ t.place i = u.place i :=
  ⟨(congrArg Slot.task slot).trans (Slot.select_task _),(congrArg Slot.place slot).trans (Slot.select_place _)⟩

theorem Cyclic.started (cyclic : Cyclic steady s i w) (on : s.kernel.isStarted = true) :
    ¬(s.look i).sleep < 0 ∧ (s.look i).pending = false ∧ (Vacant (s.look i) w ∨ Active steady (s.look i) w) ∨
      (s.look i).sleep < 0 ∧ ((s.look i).pending = true ∧ Ending steady (s.look i) w ∨
        (s.look i).pending = false ∧ Resting c steady (s.look i) w) := by
  cases cyclic.stands with
  | vacant v => exact .inl ⟨by rw [v.awake]; decide,v.settled,.inl v⟩
  | planned p => exact absurd (p.off.symm.trans on) Bool.false_ne_true
  | active a => exact .inl ⟨a.awake,a.settled,.inr a⟩
  | ending e => exact .inr ⟨by rw [e.asleep]; decide,.inl ⟨e.pending,e⟩⟩
  | resting r => exact .inr ⟨r.asleep,.inr ⟨r.settled,r⟩⟩

theorem Cyclic.becomes {w' : Timetable} {y : Look} (cyclic : Cyclic steady s i w) (spared : (t.slot i).Spared)
    (look : t.look i = y) (user : y.user = (s.look i).user) (period : y.hrt.periodicity = (s.look i).hrt.periodicity)
    (undone : y.hrt.done = false) (stands : Stands c steady y w') : Cyclic steady t i w' := by
  refine ⟨spared,?_,?_,look ▸ stands⟩
  · rw [look,user,period]
    exact cyclic.period
  · rw [look]
    exact fun done => absurd (undone.symm.trans done) Bool.false_ne_true

section
variable {u : Kernel c} {next : Option (Fin n)} {out : Outcome n} (filed : Filed law u)
  (decided : Decided law u t.kernel next) (transit : Transit u next t.kernel.taskNow t.kernel.fsmState out)
  (now : u.taskNow = s.kernel.taskNow) (state : u.fsmState = s.kernel.fsmState) (spared : (u.slot i).Spared)
include filed decided transit now state spared

omit filed transit now state in
theorem unretired_look (stays : u.switchedOut next ≠ some i) : (t.slot i).Spared ∧
    t.look i = ⟨(u.tasks i).cycle,u.place i,t.kernel.isStarted,(t.look i).live,t.kernel.ticks⟩ := by
  have slot : t.slot i = _ := decided_keeps decided stays
  obtain ⟨task,place⟩ := offered_same slot
  refine ⟨by rw [slot]; exact spared.select,?_⟩
  rw [← task,← place]
  rfl

omit filed now state spared decided in
theorem unchosen_away (other : next ≠ some i) : (t.look i).live = false := by
  refine eq_false_of_ne_true fun live => other ?_
  obtain ⟨now,running⟩ := look_live live
  exact (transit_chosen transit running).symm.trans now

omit filed decided transit spared in
theorem away_unretired (away : (s.look i).live = false) : u.switchedOut next ≠ some i := by
  intro leaves
  obtain ⟨at_,running,_⟩ := switchedOut_now leaves
  rw [look,← now,← state,decide_eq_true at_,running] at away
  cases away

theorem Cyclic.ends (hard : c.mode.isHrt = true) (sound : Sound law s) (stepped : Stepped law s t e)
    (cyclic : Cyclic steady s i w) (ending : Ending steady (s.look i) w) (place : u.place i = c.sleepPlace .ready)
    (cycle : (u.tasks i).cycle = {(s.look i).toCycle with pending := false})
    (timely : steady = true → t.kernel.ticks = s.kernel.ticks) : Cyclic steady t i w ∧ (t.look i).sleep < 0 := by
  obtain ⟨focus,running⟩ := look_live ending.live
  have asleep : (u.tasks i).timeSleep < 0 := by
    rw [show (u.tasks i).timeSleep = -1 from (congrArg Cycle.sleep cycle).trans ending.asleep]
    decide
  have bound : (u.tasks i).user ≠ none := (congrArg Cycle.user cycle).trans_ne ending.bound
  have leaves := ending_retired hard filed decided.called (now.trans focus) (by rw [state]; exact running) bound
    spared.staying ((congrArg (fun z => z.hrt.done) cycle).trans ending.done) asleep place
  have slot : t.slot i = ((u.slot i).select _).retire c _ := decided.slots i
  rw [decide_eq_true leaves] at slot
  have task : (t.tasks i).cycle = ((u.tasks i).hrtOnSwitchedOut c.mode).cycle :=
    congrArg KernelTask.cycle ((congrArg Slot.task slot).trans
      (congrArg (hrtOnSwitchedOut c.mode) (Slot.select_task (u.slot i))))
  rw [cycle_switchedOut asleep,cycle] at task
  have placed : t.place i = c.sleepPlace .ready :=
    (congrArg Slot.place slot).trans ((Slot.retire_place c _).trans ((Slot.select_place _).trans place))
  have started : t.kernel.isStarted = true := by
    refine stepped.started sound ending.on (i := i) ?_
    exact (congrArg Cycle.user task).trans_ne ending.bound
  have away := unchosen_away transit (sleeping_unchosen filed decided.called asleep place)
  have look : t.look i = ⟨Cycle.retire {(s.look i).toCycle with pending := false},c.sleepPlace .ready,true,false,t.kernel.ticks⟩ := by
    rw [← task,← placed,← started,← away]
    rfl
  have counted := ending.counted
  have first := ending.asleep
  have short := cyclic.period ending.bound
  have sleeps : (Cycle.retire {(s.look i).toCycle with pending := false}).sleep < 0 := by
    dsimp only [Cycle.retire]
    split <;> omega
  refine ⟨cyclic.becomes (by rw [slot]; exact spared.select.retire) look rfl rfl rfl (.resting
    ⟨ending.bound,rfl,rfl,sleeps,rfl,rfl,rfl,rfl,ending.idle,fun exact_ => ?_⟩),by rw [look]; exact sleeps⟩
  obtain ⟨even,_,early,left⟩ := ending.regular exact_
  have same : t.kernel.ticks = (s.look i).ticks := timely exact_
  dsimp only [Cycle.retire]
  rw [if_pos early,same]
  exact ⟨even,.inl ⟨by omega,by omega⟩⟩

omit filed decided transit spared in
theorem free_unretired (sound : Sound law s) (free : (s.look i).user = none) : u.switchedOut next ≠ some i := by
  intro leaves
  obtain ⟨at_,running,_⟩ := switchedOut_now leaves
  rw [state] at running
  obtain ⟨j,focus,_,bound⟩ := sound.contexts.running running
  obtain rfl : i = j := Option.some.inj (at_.symm.trans (now.trans focus))
  exact bound free

theorem Cyclic.pass (sound : Sound law s) (stepped : Stepped law s t e) (cyclic : Cyclic steady s i w)
    (on : s.kernel.isStarted = true) (settled : (s.look i).pending = false) (cycle : (u.tasks i).cycle = (s.look i).toCycle)
    (place : u.place i = (s.look i).place) (ticks : t.kernel.ticks = s.kernel.ticks) : Cyclic steady t i w := by
  have after : u.switchedOut next ≠ some i → (t.slot i).Spared ∧
      t.look i = {s.look i with on := t.kernel.isStarted,live := (t.look i).live} := by
    intro stays
    obtain ⟨spared,look⟩ := unretired_look decided spared stays
    rw [cycle,place,ticks] at look
    exact ⟨spared,look⟩
  have started : t.look i = {s.look i with on := t.kernel.isStarted,live := (t.look i).live} → (s.look i).user ≠ none →
      t.kernel.isStarted = true := fun look bound => stepped.started sound on (i := i) ((congrArg (fun x => x.user) look).trans_ne bound)
  rcases cyclic.started on with ⟨up,_,v | a⟩ | ⟨down,⟨pending,_⟩ | ⟨_,r⟩⟩
  · obtain ⟨spared,look⟩ := after (free_unretired now state sound v.free)
    exact cyclic.becomes spared look rfl rfl v.done (.vacant ⟨v.free,v.awake,v.settled,v.duration,v.done,v.idle⟩)
  · obtain ⟨spared,look⟩ := after (working_unretired filed decided.called (by
      rw [show (u.tasks i).timeSleep = _ from congrArg Cycle.sleep cycle]; exact up) (place.trans a.ready)
      ((congrArg (fun z => z.hrt.done) cycle).trans a.done))
    exact cyclic.becomes spared look rfl rfl a.done (.active
      ⟨a.bound,started look a.bound,a.awake,a.settled,a.done,a.ready,a.job,a.counted,a.regular⟩)
  · rw [settled] at pending; cases pending
  · obtain ⟨spared,look⟩ := after (away_unretired now state r.away)
    have away := unchosen_away transit (sleeping_unchosen filed decided.called (by
      rw [show (u.tasks i).timeSleep = _ from congrArg Cycle.sleep cycle]; exact down) (place.trans r.place))
    exact cyclic.becomes spared look rfl rfl r.done (.resting
      ⟨r.bound,started look r.bound,away,r.asleep,r.settled,r.done,r.duration,r.place,r.idle,r.regular⟩)

end

theorem Cyclic.tick {w : Fin n → Timetable} {u : Kernel c} {elapsed : Int} (hard : c.mode.isHrt = true)
    (sound : Sound law s) (on : s.kernel.isStarted = true) (cyclic : Cyclic steady s i (w i))
    (holds : steady = true → s.undrifting i (w i) (.tick elapsed) = true) (stepped : Stepped law s t (.tick elapsed))
    (ticked : Ticked law s.kernel.fresh u elapsed) (decided : Decided law u t.kernel next)
    (transit : Transit u next t.kernel.taskNow t.kernel.fsmState out) :
    Cyclic steady t i (s.timetable (.tick elapsed) t w i) := by
  obtain ⟨gone,recovered,ts,only,_,_,turned⟩ := ticked.departs i
  obtain rfl : gone = false := unset (fun goes => (only goes).2) cyclic.spared.staying
  have fresh : (s.slot i).fresh.Spared := cyclic.spared.keep rfl rfl rfl rfl
  rw [show s.kernel.fresh.slot i = (s.slot i).fresh from rfl,fresh.tickSync] at turned
  obtain ⟨after,turn⟩ := fresh.turn hard recovered elapsed
  have spared : (u.slot i).Spared := by rw [turned]; exact after.keep rfl rfl rfl rfl
  rw [show (Slot.turn c false recovered elapsed (s.slot i).fresh).task.cycle = (u.tasks i).cycle from
    (congrArg (fun slot => slot.task.cycle) turned).symm,
    show (Slot.turn c false recovered elapsed (s.slot i).fresh).place = u.place i from (congrArg Slot.place turned).symm] at turn
  replace turn : Slot.Spared.Turned c elapsed (s.look i).toCycle (s.look i).place (u.tasks i).cycle (u.place i) := turn
  have ticks : t.kernel.ticks = (s.look i).ticks + elapsed := stepped.ticks
  have now : u.taskNow = s.kernel.taskNow := ticked.taskNow
  have state : u.fsmState = s.kernel.fsmState := ticked.fsmState
  have forward : 0 ≤ elapsed ∧ elapsed ≤ 1 := by
    refine ⟨stepped.forward.1,stepped.forward.2 (eq_false_of_ne_true fun tickless => ?_)⟩
    exact c.ticklessHrt ⟨tickless,hard⟩
  have unreleased : ¬(s.look i).sleep < 0 ∨ (t.look i).sleep < 0 → s.timetable (.tick elapsed) t w i = w i := by
    refine fun sides => if_neg fun both => ?_
    rcases sides with awake | asleep
    · exact awake ((isSleeping_iff _).mp both.1)
    · rw [(isSleeping_iff (t.tasks i)).mpr asleep] at both; cases both.2
  -- The slot is not retired, so the step makes of it what the turn made.
  have passes : ∀ {z p},(u.tasks i).cycle = z → u.place i = p → u.switchedOut next ≠ some i → (t.slot i).Spared ∧
      t.look i = ⟨z,p,t.kernel.isStarted,(t.look i).live,(s.look i).ticks + elapsed⟩ ∧
      (z.user ≠ none → t.kernel.isStarted = true) := by
    rintro z p rfl rfl stays
    obtain ⟨spared,look⟩ := unretired_look decided spared stays
    rw [ticks] at look
    exact ⟨spared,look,fun bound => stepped.started sound on (i := i) ((congrArg (fun x => x.user) look).trans_ne bound)⟩
  generalize cycle : (u.tasks i).cycle = z at turn
  generalize place : u.place i = p at turn
  have time : (u.tasks i).timeSleep = z.sleep := congrArg Cycle.sleep cycle
  rcases cyclic.started on with ⟨up,_,v | a⟩ | ⟨down,⟨pending,e⟩ | ⟨settled,r⟩⟩
  · cases turn with
    | entering down | endless down | asleep down | woken down => exact absurd down up
    | counts _ bound => exact absurd v.free bound
    | idle =>
      obtain ⟨spared,look,_⟩ := passes cycle place (free_unretired now state sound v.free)
      rw [unreleased (.inl up)]
      exact cyclic.becomes spared look rfl rfl v.done (.vacant ⟨v.free,v.awake,v.settled,v.duration,v.done,v.idle⟩)
  · cases turn with
    | entering down | endless down | asleep down | woken down => exact absurd down up
    | idle _ free => exact absurd free a.bound
    | counts =>
      obtain ⟨spared,look,started⟩ := passes cycle place (working_unretired ticked.filed decided.called (by rw [time]; exact up)
        (place.trans a.ready) ((congrArg (fun z => z.hrt.done) cycle).trans a.done))
      rw [unreleased (.inl up)]
      have counted := a.counted
      refine cyclic.becomes spared look rfl rfl a.done (.active
        ⟨a.bound,started a.bound,a.awake,a.settled,a.done,a.ready,?_,?_,a.regular⟩)
      · rw [a.job]
        exact congrArg some (by dsimp only; omega)
      · dsimp only
        omega
  · cases turn with
    | idle up | counts up => exact absurd down up
    | endless _ settled | asleep _ settled | woken _ settled => exact absurd (pending.symm.trans settled) Bool.noConfusion
    | entering =>
      obtain ⟨done,sleeps⟩ := cyclic.ends ticked.filed decided transit now state spared hard sound stepped e
        (by rw [place]; exact congrArg c.sleepPlace e.ready) cycle fun exact_ => by
          have clean := (Bool.and_eq_true_iff.mp (holds exact_)).2
          rw [undisturbed,show (s.tasks i).sleepPending = true from pending] at clean
          cases clean
      rw [unreleased (.inr sleeps)]
      exact done
  · have unretired : u.switchedOut next ≠ some i := away_unretired now state r.away
    have infinite := waitInfinite_gt
    have rests : u.place i = c.sleepPlace .ready → z.sleep < 0 → (t.look i).live = false := fun place asleep =>
      unchosen_away transit (sleeping_unchosen ticked.filed decided.called (by rw [time]; exact asleep) place)
    cases turn with
    | idle up | counts up => exact absurd down up
    | entering _ pending => exact absurd (settled.symm.trans pending) Bool.noConfusion
    | endless _ _ stuck =>
      obtain ⟨spared,look,started⟩ := passes cycle place unretired
      rw [unreleased (.inr (by rw [look]; exact down))]
      refine cyclic.becomes spared look rfl rfl r.done (.resting ⟨r.bound,started r.bound,rests (place.trans r.place) down,r.asleep,
        r.settled,r.done,r.duration,r.place,r.idle,fun exact_ => ?_⟩)
      obtain ⟨even,counts⟩ := r.regular exact_
      exact ⟨even,.inr (counts.resolve_left fun finite => by omega)⟩
    | asleep _ _ moves still =>
      obtain ⟨spared,look,started⟩ := passes cycle place unretired
      rw [unreleased (.inr (by rw [look]; exact still))]
      refine cyclic.becomes spared look rfl rfl r.done (.resting ⟨r.bound,started r.bound,rests (place.trans r.place) still,still,
        r.settled,r.done,r.duration,r.place,r.idle,fun exact_ => ?_⟩)
      obtain ⟨even,counts⟩ := r.regular exact_
      refine ⟨even,counts.imp (fun finite => ⟨?_,?_⟩) fun endless => ⟨endless.1,endless.2.1,?_⟩⟩ <;> dsimp only <;> omega
    | woken _ _ moves ends =>
      obtain ⟨spared,look,started⟩ := passes cycle place unretired
      have ready : c.wakePlace (s.look i).place = .ready := by
        rw [r.place]
        unfold Config.wakePlace Config.sleepPlace
        split <;> rfl
      have released : s.timetable (.tick elapsed) t w i = (w i).release t.kernel.ticks := by
        refine if_pos ⟨(isSleeping_iff _).mpr down,eq_false_of_ne_true fun sleeping => ends ?_⟩
        have asleep : (t.look i).sleep < 0 := (isSleeping_iff _).mp sleeping
        rw [look] at asleep
        exact asleep
      rw [released,ticks]
      refine cyclic.becomes spared look rfl rfl r.done (.active
        ⟨r.bound,started r.bound,ends,r.settled,r.done,ready,?_,le_of_eq r.duration.symm,fun exact_ => ?_⟩)
      · dsimp only
        rw [r.duration,Int.sub_zero]
        rfl
      · obtain ⟨even,counts⟩ := r.regular exact_
        obtain ⟨_,counts⟩ := counts.resolve_right fun endless => by omega
        rw [show (s.look i).ticks + elapsed = (w i).due (s.look i).hrt.periodicity by omega]
        exact even.release

theorem Cyclic.force {u : Kernel c} {m : Fin n} (hard : c.mode.isHrt = true) (sound : Sound law s)
    (cyclic : Cyclic steady s i w) (stepped : Stepped law s t .force) (executes : s.exec = some (.task m))
    (forced : Forced law s.kernel.fresh u m) (decided : Decided law u t.kernel next)
    (transit : Transit u next t.kernel.taskNow t.kernel.fsmState out) : Cyclic steady t i w := by
  have now := (sound.contexts.task executes).2
  have on : s.kernel.isStarted = true := by rw [isStarted,now]; rfl
  have ticks : t.kernel.ticks = s.kernel.ticks := stepped.ticks.trans (Int.add_zero _)
  have spared : (s.slot i).fresh.Spared := cyclic.spared.keep rfl rfl rfl rfl
  have passes : (s.look i).pending = false → (u.slot i).Spared → (u.tasks i).cycle = (s.look i).toCycle →
      u.place i = (s.look i).place → Cyclic steady t i w := fun settled after cycle place =>
    cyclic.pass forced.filed decided transit forced.taskNow forced.fsmState after sound stepped on settled cycle place ticks
  obtain ⟨slot,slots,entered⟩ := forced.slots
  by_cases at_ : i = m
  · subst at_
    have own : u.slot i = slot := by rw [slots,Function.update_self]
    rcases entered with ⟨asleep,pending,rfl,_⟩ | ⟨awake,_,_,rfl,_⟩
    · rcases cyclic.started on with ⟨up,_⟩ | ⟨_,⟨_,e⟩ | ⟨settled,_⟩⟩
      · exact absurd asleep up
      · refine (cyclic.ends forced.filed decided transit forced.taskNow forced.fsmState (own ▸ spared.settle) hard sound stepped
          e ?_ (congrArg (fun slot => slot.task.cycle) own) fun _ => ticks).1
        exact (congrArg Slot.place own).trans (congrArg c.sleepPlace e.ready)
      · exact absurd (settled.symm.trans pending) Bool.false_ne_true
    · rcases cyclic.started on with ⟨_,settled,_⟩ | ⟨down,_⟩
      · exact passes settled (by rw [own]; exact spared.keep rfl rfl rfl rfl) (congrArg (fun slot => slot.task.cycle) own)
          (congrArg Slot.place own)
      · exact absurd down awake
  · have own : u.slot i = (s.slot i).fresh := by rw [slots,Function.update_of_ne at_]; rfl
    refine passes ?_ (own ▸ spared) (congrArg (fun slot => slot.task.cycle) own) (congrArg Slot.place own)
    rcases cyclic.started on with ⟨_,settled,_⟩ | ⟨_,⟨_,e⟩ | ⟨settled,_⟩⟩
    · exact settled
    · exact absurd (Option.some.inj ((look_live e.live).1.symm.trans now)) at_
    · exact settled

theorem Cyclic.start {u : Kernel c} {w : Fin n → Timetable} (sound : Sound law s) (cyclic : Cyclic steady s i (w i))
    (off : s.exec = none) (launched : Launched law s.kernel.fresh u t.kernel next)
    (reached : (∃ j,next = some j ∧ t.kernel.taskNow = some j ∧ t.kernel.fsmState = .switching ∧ t.exec = some (.task j)) ∨
      ∃ first,next = none ∧ t.kernel.taskNow = some first ∧ u.place first ≠ .free ∧ t.kernel.fsmState = .sleeping ∧
        t.exec = some .sleepTrap) : Cyclic steady t i (s.timetable .start t w i) := by
  have idle : s.kernel.taskNow = none := by
    cases state : s.kernel.fsmState with
    | none => exact (sound.contexts.stopped state).1
    | sleeping => rw [(sound.contexts.sleeping state).2] at off; cases off
    | exiting => exact (sound.contexts.exiting state).2.1
    | switching | waking =>
      obtain ⟨j,_,executes,_⟩ := sound.contexts.running (by rw [state]; rfl)
      rw [executes] at off; cases off
  have unstarted : (s.look i).on ≠ true := by rw [look,isStarted,idle]; exact Bool.false_ne_true
  have on : t.kernel.isStarted = true := by
    rcases reached with ⟨j,_,now,_⟩ | ⟨first,_,now,_⟩ <;> rw [isStarted,now] <;> rfl
  obtain ⟨task,place⟩ := offered_same (launched.slots i)
  have launch : u.slot i = (s.slot i).fresh.launch c := launched.launched i
  have after : (t.slot i).Spared := by
    rw [show t.slot i = _ from launched.slots i,launch]
    exact (show (s.slot i).fresh.Spared from cyclic.spared.keep rfl rfl rfl rfl).launch.select
  have sight : t.look i = ⟨((s.slot i).fresh.launch c).task.cycle,((s.slot i).fresh.launch c).place,true,(t.look i).live,
      (s.look i).ticks⟩ := by
    rw [← launch,← on,show (s.look i).ticks = t.kernel.ticks from launched.ticks.symm]
    simp only [look,task,place]
    rfl
  have kept : (s.look i).pending = false → (s.slot i).fresh.launch c = (s.slot i).fresh := fun settled =>
    if_neg fun pending => Bool.false_ne_true (settled.symm.trans pending)
  cases cyclic.stands with
  | active a => exact absurd a.on unstarted
  | ending e => exact absurd e.on unstarted
  | resting r => exact absurd r.on unstarted
  | vacant v =>
    rw [kept v.settled] at sight
    rw [timetable,if_neg fun both => both.1 ((congrArg (fun x => x.user) sight).trans v.free)]
    exact cyclic.becomes after sight rfl rfl v.done (.vacant ⟨v.free,v.awake,v.settled,v.duration,v.done,v.idle⟩)
  | planned p =>
    have even : (w i).Regular (s.look i).hrt.periodicity := by
      unfold Timetable.Regular
      rw [p.none_]; rfl
    have due : (w i).due (s.look i).hrt.periodicity = (s.look i).ticks + (w i).delay := by
      rw [Timetable.due,p.none_,p.added,List.length_nil]
      omega
    have sleep := p.sleep
    by_cases late : 0 < (w i).delay
    · rw [Slot.launch,if_pos (show (s.slot i).fresh.task.sleepPending = true from p.pending.trans (decide_eq_true late))] at sight
      have asleep : (t.tasks i).timeSleep < 0 := by
        rw [show (t.tasks i).timeSleep = (s.look i).sleep from congrArg (fun x => x.sleep) sight]
        omega
      have rests : (t.look i).place = c.sleepPlace .ready := (congrArg Look.place sight).trans (congrArg c.sleepPlace p.ready)
      have unchosen := sleeping_unchosen launched.ready launched.called (task ▸ asleep) (place.symm.trans rests)
      have awaits : ¬((t.tasks i).user ≠ none ∧ (t.tasks i).isSleeping = false) := fun both => by
        rw [(isSleeping_iff _).mpr asleep] at both
        cases both.2
      have away : (t.look i).live = false := eq_false_of_ne_true fun live => by
        obtain ⟨at_,running⟩ := look_live live
        rcases reached with ⟨j,chosen,now,_⟩ | ⟨first,_,_,_,state,_⟩
        · exact unchosen (chosen.trans (now.symm.trans at_))
        · rw [state] at running; cases running
      rw [timetable,if_neg awaits]
      refine cyclic.becomes after sight rfl rfl p.done (.resting ⟨p.bound,rfl,away,?_,rfl,p.done,p.duration,
        congrArg c.sleepPlace p.ready,p.idle,fun _ => ⟨even,?_⟩⟩)
      · show (s.look i).sleep < 0
        omega
      · by_cases endless : waitInfinite ≤ (w i).delay
        · exact .inr ⟨p.none_,endless,show (s.look i).sleep ≤ _ by omega⟩
        · exact .inl ⟨show _ < (s.look i).sleep by omega,show (s.look i).sleep = (s.look i).ticks - (w i).due (s.look i).hrt.periodicity by omega⟩
    · have settled : (s.look i).pending = false := p.pending.trans (decide_eq_false late)
      have zero : (w i).delay = 0 := le_antisymm (not_lt.mp late) p.delay
      rw [kept settled] at sight
      have awake : ¬(s.look i).sleep < 0 := by omega
      have released : (t.tasks i).user ≠ none ∧ (t.tasks i).isSleeping = false := by
        refine ⟨(congrArg (fun x => x.user) sight).trans_ne p.bound,eq_false_of_ne_true fun asleep => awake ?_⟩
        have asleep := (isSleeping_iff _).mp asleep
        rwa [show (t.tasks i).timeSleep = (s.look i).sleep from congrArg (fun x => x.sleep) sight] at asleep
      rw [timetable,if_pos released,launched.ticks]
      refine cyclic.becomes after sight rfl rfl p.done (.active ⟨p.bound,rfl,awake,settled,p.done,p.ready,?_,?_,fun _ => ?_⟩)
      · show _ = some ((s.look i).ticks - (s.look i).hrt.duration)
        rw [p.duration,Int.sub_zero]; rfl
      · exact le_of_eq p.duration.symm
      · have now : (s.look i).ticks = (w i).due (s.look i).hrt.periodicity := by omega
        show ((w i).release (s.look i).ticks).Regular (s.look i).hrt.periodicity
        rw [now]
        exact even.release

theorem hard_unlocked (hard : c.mode.isHrt = true) (sound : Sound law s) (unlocked : s.kernel.isLocked = false)
    (taken : s.step e = some t) : t.kernel.isLocked = false := by
  have free : s.kernel.kstate ≠ .locked := of_decide_eq_false unlocked
  refine decide_eq_false fun locked => ?_
  have stepped := sound.stepped taken
  cases stepped with
  | quiet _ quiet =>
    rcases quiet.lock locked with before | ⟨rfl,_⟩
    · exact free before
    · obtain ⟨i,_,rfl⟩ := of_return taken
      have refused : ¬(c.mode.isHrt = false ∧ (s.kernel.fresh.kstate = .running ∨ s.kernel.fresh.kstate = .locked)) := by
        rw [hard]
        exact fun both => Bool.false_ne_true both.1.symm
      dsimp only at locked
      rw [setSchedulerLock,if_neg refused] at locked
      exact free locked
  | start off launched => rw [launched.kstate] at locked; cases locked
  | tick legal before ticked unlocked decided =>
    rw [decided.kstate,ticked.kstate] at locked
    exact free locked
  | lockedTick legal before ticked => rw [ticked.kstate] at locked; exact free locked
  | force executes waits bound before named forced decided =>
    obtain ⟨_,_,⟨_,_,_,state⟩ | ⟨_,_,_,_,state⟩⟩ := forced.slots
    · rw [decided.kstate,state] at locked
      split at locked
      · cases locked
      · exact free locked
    · rw [decided.kstate,state] at locked
      exact free locked
  | noForce executes waits bound before kernel => rw [kernel] at locked; exact free locked
  | stop exits kernel =>
    rw [kernel,onStop] at locked
    split at locked
    · cases locked
    · exact free locked

theorem tick_started (sound : Sound law s) (taken : s.step (.tick elapsed) = some t) : s.kernel.isStarted = true := by
  change System.tick {s with kernel := s.kernel.fresh} elapsed = some t at taken
  unfold System.tick at taken
  split at taken
  · rename_i executes
    rw [isStarted,(sound.contexts.task executes).2]; rfl
  · rename_i executes
    cases state : s.kernel.fsmState with
    | sleeping => exact (sound.contexts.sleeping state).1
    | none => rw [show s.exec = none from (sound.contexts.stopped state).2] at executes; cases executes
    | exiting => rw [show s.exec = _ from (sound.contexts.exiting state).2.2] at executes; cases executes
    | switching | waking =>
      obtain ⟨j,now,_⟩ := sound.contexts.running (by rw [state]; rfl)
      rw [isStarted,now]; rfl
  · cases taken

theorem pending_forced (now : s.kernel.taskNow = some i) (user : (s.tasks i).user = some u)
    (asleep : (s.tasks i).timeSleep < 0) (pending : (s.tasks i).sleepPending = true) :
    s.kernel.fresh.beforeForcedDecision u.id ≠ some none := by
  intro before
  have named : (s.kernel.fresh.tasks i).user.map UserTask.id = some u.id := congrArg (Option.map UserTask.id) user
  have sleeps : (s.kernel.fresh.tasks i).isSleeping = true := (isSleeping_iff _).mpr asleep
  have flag : (s.kernel.fresh.tasks i).sleepPending = true := pending
  unfold beforeForcedDecision at before
  rw [show s.kernel.fresh.taskNow = some i from now] at before
  simp only [Option.bind_eq_bind,Option.bind_some,if_pos named,if_pos sleeps,if_pos flag] at before
  obtain ⟨k,_,same⟩ := of_bind before
  cases same

theorem Cyclic.step {w : Fin n → Timetable} (hard : c.mode.isHrt = true) (sound : Sound law s)
    (unlocked : s.kernel.isLocked = false) (cyclic : Cyclic steady s i (w i)) (plain : s.plain i e = true)
    (holds : steady = true → s.undrifting i (w i) e = true) (taken : s.step e = some t) :
    Cyclic steady t i (s.timetable e t w i) := by
  have stepped := sound.stepped taken
  have again := stepped
  cases stepped with
  | quiet call quiet => exact cyclic.quiet hard sound unlocked plain holds call quiet taken
  | start off launched phase armed reached => exact cyclic.start sound off launched reached
  | tick legal before ticked free decided transit =>
    exact cyclic.tick hard sound (tick_started sound taken) holds again ticked decided transit
  | lockedTick legal before ticked locked =>
    unfold isLocked at locked unlocked
    rw [ticked.kstate] at locked
    exact absurd (unlocked.symm.trans locked) Bool.false_ne_true
  | force executes waits bound before named forced decided transit =>
    have now := (sound.contexts.task executes).2
    obtain rfl := Option.some.inj (now.symm.trans forced.now)
    exact cyclic.force hard sound again executes forced decided transit
  | noForce executes waits bound before kernel exec phase =>
    have same : t.slot i = (s.slot i).fresh := by rw [slot,kernel]; rfl
    have now := (sound.contexts.task executes).2
    have on : s.kernel.isStarted = true := by rw [isStarted,now]; rfl
    have look : t.look i = s.look i := by simp only [System.look,System.tasks,System.place,kernel]; rfl
    refine ⟨by rw [same]; exact cyclic.spared.keep rfl rfl rfl rfl,look ▸ cyclic.period,fun done => ?_,look ▸ cyclic.stands⟩
    rw [look] at done
    rcases cyclic.started on with ⟨_,_,v | a⟩ | ⟨_,⟨_,ending⟩ | ⟨_,r⟩⟩
    · exact absurd (v.done.symm.trans done) Bool.false_ne_true
    · exact absurd (a.done.symm.trans done) Bool.false_ne_true
    · obtain rfl := Option.some.inj (now.symm.trans (look_live ending.live).1)
      exact absurd before (pending_forced now bound (ending.asleep.trans_lt (by decide)) ending.pending)
    · exact absurd (r.done.symm.trans done) Bool.false_ne_true
  | stop exits kernel exec phase =>
    have state := sound.contexts.trap exits
    have shape : ∃ f ks,s.kernel.fresh.onStop = {s.kernel.fresh with fsmState := f,kstate := ks} ∧ f.running = false := by
      unfold onStop
      split
      · exact ⟨_,_,rfl,rfl⟩
      · exact ⟨_,_,rfl,by rw [state]; rfl⟩
    obtain ⟨f,ks,shape,ceased⟩ := shape
    have same : t.slot i = (s.slot i).fresh := by rw [slot,kernel,shape]; rfl
    refine cyclic.keep (by rw [same]; exact cyclic.spared.keep rfl rfl rfl rfl) (look_eq (congrArg (fun slot => slot.task.cycle) same)
      (congrArg Slot.place same) (by rw [kernel,shape]; rfl) ?_ (by rw [kernel,shape]; rfl)) fun called => by rw [phase]; exact called
    rw [kernel,shape,state]
    exact ceased

theorem reached_cyclic {p : System c × (Fin n → Timetable)} (law : Lawful c.strategy) (hard : c.mode.isHrt = true)
    (Allowed : System c × (Fin n → Timetable) → Event n → Prop) (plain : ∀ p e,Allowed p e → p.1.plain i e = true)
    (holds : steady = true → ∀ p e,Allowed p e → p.1.undrifting i (p.2 i) e = true)
    (run : Run (observe step timetable) Allowed (initial c,fun _ => {}) p) :
    (Sound law p.1 ∧ p.1.kernel.isLocked = false) ∧ Cyclic steady p.1 i (p.2 i) := by
  induction run with
  | nil =>
    refine ⟨⟨⟨initial_filed law,initial_contexts⟩,rfl⟩,⟨rfl,rfl,rfl,rfl⟩,fun bound => absurd rfl bound,(fun done => (by cases done)),?_⟩
    exact .vacant ⟨rfl,rfl,rfl,rfl,rfl,rfl⟩
  | snoc run allowed observed ih =>
    obtain ⟨⟨sound,unlocked⟩,cyclic⟩ := ih
    obtain ⟨taken,watched⟩ := Transition.observe_some observed
    refine ⟨⟨sound.step taken,hard_unlocked hard sound unlocked taken⟩,?_⟩
    rw [watched]
    exact cyclic.step hard sound unlocked (plain _ _ allowed) (fun exact_ => holds exact_ _ _ allowed) taken

def keepsPace (s : System c) (i : Fin n) (w : Timetable) (e : Event n) : Bool := s.plain i e && s.undrifting i w e

theorem releases_regular {w : Fin n → Timetable} (b : Bundled) (chosen : c.strategy = b.strategy n)
    (hard : c.mode.isHrt = true)
    (run : Run (observe step timetable) (fun p e => p.1.keepsPace i (p.2 i) e = true)
      (initial c,fun _ => {}) (s,w))
    (bound : (s.tasks i).user ≠ none) :
    (w i).Regular (s.tasks i).hrt.periodicity ∧
      (s.kernel.isStarted = true → (w i).working = false → (w i).releases ≠ [] ∨ (w i).delay < waitInfinite →
        s.kernel.ticks < (w i).due (s.tasks i).hrt.periodicity) := by
  show (w i).Regular (s.look i).hrt.periodicity ∧ (_ → _ → _ → (s.look i).ticks < (w i).due (s.look i).hrt.periodicity)
  have cyclic : Cyclic true s i (w i) := (reached_cyclic (b.law chosen) hard _
    (fun _ _ allowed => (Bool.and_eq_true_iff.mp allowed).1) (fun _ _ _ allowed => (Bool.and_eq_true_iff.mp allowed).2) run).2
  cases cyclic.stands with
  | vacant v => exact absurd v.free bound
  | planned p =>
    refine ⟨?_,fun on => ?_⟩
    · unfold Timetable.Regular
      rw [p.none_]; rfl
    · exact absurd (p.off.symm.trans on) Bool.false_ne_true
  | active a =>
    refine ⟨a.regular rfl,fun _ idle => ?_⟩
    have job := a.job
    rw [Timetable.job,idle] at job
    cases job
  | ending e =>
    obtain ⟨even,_,early,left⟩ := e.regular rfl
    exact ⟨even,fun _ _ _ => by omega⟩
  | resting r =>
    obtain ⟨even,counts⟩ := r.regular rfl
    refine ⟨even,fun _ _ finite => ?_⟩
    rcases counts with ⟨_,counts⟩ | ⟨none_,endless,_⟩
    · have asleep := r.asleep
      omega
    · rcases finite with some_ | short
      · exact absurd none_ some_
      · omega

def twoPeriods : List (Event 1) :=
  [.addTaskHrt ⟨1,1,1,0⟩ 5 5 2,.start,.tick 1,.tick 1,.tick 1,.switchToNext,.force,.tick 1,.tick 1,.tick 1,.tick 1]

theorem twoPeriods_regular : ∃ (s : System (hardKernel 1 (by decide))) (w : Fin 1 → Timetable),
    Transition.exec (observe step timetable) (initial _,fun _ => {}) twoPeriods = some (s,w) ∧
      (w 0).releases = [7,2] ∧ (w 0).Regular (s.tasks 0).hrt.periodicity := by
  have found : ∃ p : System (hardKernel 1 (by decide)) × (Fin 1 → Timetable),
      Transition.exec (observe step timetable) (initial _,fun _ => {}) twoPeriods = some p ∧ (p.2 0).releases = [7,2] ∧ (p.1.tasks 0).user ≠ none := by decide
  obtain ⟨⟨s,w⟩,ran,releases,bound⟩ := found
  have run := Run.ofExecAllowed (fun p e => p.1.keepsPace 0 (p.2 0) e) (by decide) ran
  exact ⟨s,w,ran,releases,(releases_regular (.roundRobin false) rfl rfl run bound).1⟩

-- A tick between the two steps of the Yield is not counted: the next release is late.
def disturbedYield : List (Event 1) :=
  [.addTaskHrt ⟨1,1,1,0⟩ 5 5 0,.start,.tick 1,.switchToNext,.tick 1,.tick 1,.tick 1,.tick 1,.tick 1]

theorem disturbedYield_drifts : ∃ (s : System (hardKernel 1 (by decide))) (w : Fin 1 → Timetable),
    Run (observe step timetable)
      (fun p e => (p.1.plain 0 e && p.1.yieldsEarly 0 (p.2 0) e) = true) (initial _,fun _ => {}) (s,w) ∧
      (s.tasks 0).hrt.periodicity = 5 ∧ (w 0).releases = [6,0] := by
  have found : ∃ p : System (hardKernel 1 (by decide)) × (Fin 1 → Timetable),
      Transition.exec (observe step timetable) (initial _,fun _ => {}) disturbedYield = some p ∧ (p.1.tasks 0).hrt.periodicity = 5 ∧ (p.2 0).releases = [6,0] := by decide
  obtain ⟨⟨s,w⟩,ran,drifts⟩ := found
  exact ⟨s,w,.ofExecAllowed (fun p e => p.1.plain 0 e && p.1.yieldsEarly 0 (p.2 0) e) (by decide) ran,drifts⟩

end System
end SuperTinyKernel
