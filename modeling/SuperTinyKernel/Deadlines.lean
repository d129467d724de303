import SuperTinyKernel.Periods

namespace SuperTinyKernel

open Transition KernelTask List Slot

-- SwitchStrategyEDF compares relative deadlines computed from counted ticks. For tasks that
-- run and yield they are the absolute ones, seen from the same tick.

def Strategy.Earliest (S : Strategy n) : Prop :=
  S.api.deadlineMissed = false ∧ ∀ {v σ i τ j},S.getNext v σ = some (some i,τ) → S.place σ j = .ready →
    (v i).hrtRelativeDeadline ≤ (v j).hrtRelativeDeadline

theorem Edf.earliest (n : Nat) : (Edf.strategy n).Earliest := by
  refine ⟨rfl,fun {v σ i τ j} called ready => ?_⟩
  obtain ⟨next,_⟩ := Prod.mk.inj (Option.some.inj called)
  have listed := (Edf.strategy n).mem_runnable_of_ready ready
  rw [Strategy.runnable,show (Edf.strategy n).runnableLists σ = [σ.tasks] from rfl,flatten_singleton] at listed
  exact (Edf.getNext_mem next).2 j listed

namespace Slot

variable {c : Config n} {s : Slot} {elapsed : Int}

theorem missed_advanceSleep (missed : .missed d ∈ (s.advanceSleep c elapsed).notices) : .missed d ∈ s.notices := by
  have entered : (if s.task.sleepPending then s.settle c else s).notices = s.notices := by split <;> rfl
  unfold advanceSleep at missed
  dsimp only at missed
  split at missed
  · rwa [entered] at missed
  · split at missed
    · rwa [entered] at missed
    · split at missed
      · rwa [entered] at missed
      · rw [entered] at missed
        change .missed d ∈ c.wakeNotices s.notices at missed
        unfold Config.wakeNotices at missed
        split at missed
        · exact (mem_cons.mp missed).resolve_left Notice.noConfusion
        · exact missed

theorem missed_turn (hard : c.mode.isHrt = true) (bound : s.task.user ≠ none) (fresh : s.notices = []) :
    (∃ d,.missed d ∈ (s.turn c false false elapsed).notices) ↔
      ¬s.task.timeSleep < 0 ∧ s.task.hrt.deadline < s.task.hrt.duration + elapsed := by
  by_cases asleep : s.task.timeSleep < 0
  · refine ⟨fun ⟨d,missed⟩ => ?_,fun both => absurd asleep both.1⟩
    rw [turn_asleep asleep] at missed
    have old := missed_advanceSleep missed
    rw [show (s.consumeYield c).notices = s.notices from rfl,fresh] at old
    cases old
  · have same : (s.consumeYield c).task.user = s.task.user ∧ (s.consumeYield c).task.hrt = s.task.hrt := by
      unfold consumeYield Kernel.consumeYield
      split <;> exact ⟨rfl,rfl⟩
    have busy : (c.mode.isHrt && (s.consumeYield c).task.isBusy) = true := by
      rw [hard,isBusy,same.1,Option.isSome_iff_ne_none.mpr bound]; rfl
    rw [turn_awake asleep,trackDuration,if_pos busy]
    dsimp only
    rw [Bool.not_false,Bool.and_true,show (s.consumeYield c).notices = [] from fresh]
    have late : ((s.consumeYield c).task.count elapsed).hrtIsDeadlineMissed = true ↔
        s.task.hrt.deadline < s.task.hrt.duration + elapsed := by
      rw [← same.2]
      exact decide_eq_true_iff
    constructor
    · rintro ⟨d,missed⟩
      refine ⟨asleep,late.mp ?_⟩
      by_contra met
      rw [if_neg met] at missed
      cases missed
    · rintro ⟨_,missed⟩
      rw [if_pos (late.mpr missed)]
      exact ⟨_,mem_cons_self⟩

end Slot

theorem Move.unmissed {c : Config n} {s : System c} {slot : Slot} (move : Move s i e slot phase) : .missed d ∉ slot.notices := by
  cases move with
  | unbind => cases user : (s.tasks i).user <;> simp [Slot.unbind,Slot.fresh,System.slot,System.tasks] at *
  | _ => simp [Slot.fresh,Slot.modify,Slot.withTs,Slot.settleIf]

namespace System

open Kernel

variable {c : Config n} {law : Lawful c.strategy} {s t : System c} {i : Fin n} {w : Timetable} {steady : Bool}

structure Decision (law : Lawful c.strategy) (s t : System c) (e : Event n) (u : Kernel c) (next : Option (Fin n)) : Prop where
  filed : Filed law u
  called : u.nextTask = some next
  decides : ∀ i,∃ phase,Decides s i e (u.slot i) phase
  slots : ∀ i,∃ leaves,(leaves = true → u.switchedOut next = some i) ∧
    t.slot i = ((u.slot i).select (decide (next = some i))).retire c leaves
  started : t.kernel.isStarted = true

theorem transit_started {u : Kernel c} (transit : Transit u (some i) now f out) (started : u.taskNow.isSome = true) :
    now.isSome = true := by
  cases transit with
  | keep | switch | wake => rfl
  | ceased => exact started

theorem step_selects (sound : Sound law s) (taken : s.step e = some t) (selected : .selected ∈ t.kernel.notices i) :
    ∃ u,Decision law s t e u (some i) := by
  have stepped := sound.stepped taken
  have chosen : ∀ {u : Kernel c} {next leaves phase},Decides s i e (u.slot i) phase →
      t.slot i = ((u.slot i).select (decide (next = some i))).retire c leaves → next = some i := by
    intro u next leaves phase decides slot
    rw [show t.kernel.notices i = (t.slot i).notices from rfl,slot,retire_notices] at selected
    by_contra other
    rw [decide_eq_false other] at selected
    exact decides.unselected selected
  cases stepped with
  | quiet _ quiet => exact absurd selected (quiet.moves i).notices.2
  | start off launched phase armed reached =>
    rename_i u next
    have decides : ∀ j,Decides s j .start (u.slot j) (s.phase j) := by
      intro j
      rw [launched.launched j]
      exact .launch off
    have slot : t.slot i = ((u.slot i).select (decide (next = some i))).retire c false := launched.slots i
    obtain rfl := chosen (decides i) slot
    refine ⟨_,launched.ready,launched.called,fun j => ⟨_,decides j⟩,fun j =>
      ⟨false,fun leaves => absurd leaves Bool.false_ne_true,launched.slots j⟩,?_⟩
    rcases reached with ⟨j,_,now,_⟩ | ⟨first,_,now,_⟩ <;> rw [isStarted,now] <;> rfl
  | tick legal before ticked unlocked decided transit =>
    obtain rfl := chosen (tick_decides legal ticked i) (decided.slots i)
    refine ⟨_,ticked.filed,decided.called,fun j => ⟨_,tick_decides legal ticked j⟩,fun j =>
      ⟨_,of_decide_eq_true,decided.slots j⟩,transit_started transit ?_⟩
    rw [ticked.taskNow]
    exact tick_started sound taken
  | lockedTick legal before ticked =>
    exact absurd selected (tick_decides legal ticked i).unselected
  | force executes waits bound before named forced decided transit =>
    have now := (sound.contexts.task executes).2
    obtain rfl := Option.some.inj (now.symm.trans forced.now)
    obtain rfl := chosen (force_decides executes waits forced i) (decided.slots i)
    refine ⟨_,forced.filed,decided.called,fun j => ⟨_,force_decides executes waits forced j⟩,fun j =>
      ⟨_,of_decide_eq_true,decided.slots j⟩,transit_started transit ?_⟩
    rw [forced.taskNow,forced.now]; rfl
  | noForce executes waits bound before kernel => rw [kernel] at selected; cases selected
  | stop exits kernel =>
    rw [kernel,onStop] at selected
    split at selected <;> cases selected

theorem Cyclic.decided {slot : Slot} {phase : Phase} (cyclic : Cyclic steady s i w) (hard : c.mode.isHrt = true)
    (decides : Decides s i e slot phase) :
    slot.task.sleepPending = false ∧ (slot.task.hrt.done = true → slot.task.timeSleep < 0) := by
  have spared : (s.slot i).fresh.Spared := cyclic.spared.keep rfl rfl rfl rfl
  have ends : (s.look i).hrt.done = true → (s.look i).pending = true ∧ (s.look i).sleep < 0 ∧ (s.look i).live = true := by
    intro done
    cases cyclic.stands with
    | vacant v => rw [v.done] at done; cases done
    | planned p => rw [p.done] at done; cases done
    | active a => rw [a.done] at done; cases done
    | ending e => exact ⟨e.pending,by rw [e.asleep]; decide,e.live⟩
    | resting r => rw [r.done] at done; cases done
  have settled : (s.look i).pending = true → (s.look i).sleep < 0 ∧ ((s.look i).on = true → (s.look i).live = true) := by
    intro pending
    cases cyclic.stands with
    | vacant v => rw [v.settled] at pending; cases pending
    | planned p =>
      have late := of_decide_eq_true (p.pending.symm.trans pending)
      exact ⟨by rw [p.sleep]; omega,fun on => absurd (p.off.symm.trans on) Bool.false_ne_true⟩
    | active a => rw [a.settled] at pending; cases pending
    | ending e => exact ⟨by rw [e.asleep]; decide,fun _ => e.live⟩
    | resting r => rw [r.settled] at pending; cases pending
  cases decides with
  | launch =>
    unfold launch
    split
    · exact ⟨rfl,fun done => (ends done).2.1⟩
    · exact ⟨eq_false_of_ne_true ‹_›,fun done => (ends done).2.1⟩
  | enter => exact ⟨rfl,fun done => (ends done).2.1⟩
  | yield _ _ up => exact ⟨eq_false_of_ne_true fun pending => up (settled pending).1,fun done => (ends done).2.1⟩
  | pass other started =>
    exact ⟨eq_false_of_ne_true fun pending => other (look_live ((settled pending).2 started)).1,fun done => (ends done).2.1⟩
  | @turn elapsed gone recovered ts _ only =>
    obtain rfl : gone = false := unset (fun goes => (only goes).2) cyclic.spared.staying
    rw [spared.tickSync]
    show ((s.slot i).fresh.turn c false recovered elapsed).task.cycle.pending = false ∧
      (((s.slot i).fresh.turn c false recovered elapsed).task.cycle.hrt.done = true →
        ((s.slot i).fresh.turn c false recovered elapsed).task.cycle.sleep < 0)
    have turn : Spared.Turned c elapsed (s.look i).toCycle _ _ _ := (spared.turn hard recovered elapsed).2
    generalize ((s.slot i).fresh.turn c false recovered elapsed).task.cycle = z at turn ⊢
    generalize (s.slot i).fresh.place = p,((s.slot i).fresh.turn c false recovered elapsed).place = q at turn
    cases turn with
    | idle up | counts up =>
      exact ⟨eq_false_of_ne_true fun pending => up (settled pending).1,fun done => absurd (ends done).2.1 up⟩
    | entering down => exact ⟨rfl,fun _ => down⟩
    | endless _ clear | asleep _ clear | woken _ clear =>
      exact ⟨clear,fun done => absurd (clear.symm.trans (ends done).1) Bool.false_ne_true⟩

theorem Cyclic.active (cyclic : Cyclic steady s i w) (job : w.job = some r) :
    Active steady (s.look i) w ∧ s.kernel.ticks = r + (s.tasks i).hrt.duration := by
  have working : w.working = true := by
    refine eq_true_of_ne_false fun idle => ?_
    rw [Timetable.job,idle] at job
    cases job
  cases cyclic.stands with
  | vacant v => rw [v.idle] at working; cases working
  | planned p => rw [p.idle] at working; cases working
  | active a =>
    have same : s.kernel.ticks - (s.tasks i).hrt.duration = r := Option.some.inj (a.job.symm.trans job)
    exact ⟨a,by omega⟩
  | ending e => rw [e.idle] at working; cases working
  | resting r => rw [r.idle] at working; cases working

theorem Decision.working {u : Kernel c} {e : Event n} (decision : Decision law s t e u (some j)) (hard : c.mode.isHrt = true)
    (before : Cyclic steady s i w) (awake : ¬(t.tasks i).timeSleep < 0) : t.tasks i = u.tasks i ∧ t.place i = u.place i := by
  obtain ⟨leaves,why,slot⟩ := decision.slots i
  obtain ⟨phase,decides⟩ := decision.decides i
  cases leaves with
  | false => exact offered_same slot
  | true =>
    have done : (u.tasks i).hrt.done = true := (switchedOut_why (why rfl)).resolve_right fun none => by cases none.2
    have asleep : (u.tasks i).timeSleep < 0 := (before.decided hard decides).2 done
    refine absurd ?_ awake
    have task : t.tasks i = ((u.slot i).select (decide (some j = some i))).task.hrtOnSwitchedOut c.mode :=
      congrArg task slot
    rw [task,select_task,hrtOnSwitchedOut_eq]
    change (if (u.tasks i).hrt.duration < (u.tasks i).hrt.periodicity
      then (u.tasks i).hrt.duration - (u.tasks i).hrt.periodicity else (u.tasks i).timeSleep) < 0
    split <;> omega

theorem Decision.selected {u : Kernel c} {e : Event n} {w' : Timetable} (decision : Decision law s t e u (some i))
    (hard : c.mode.isHrt = true) (before : Cyclic steady s i w) (after : Cyclic steady t i w') :
    Active steady (t.look i) w' := by
  obtain ⟨leaves,why,slot⟩ := decision.slots i
  obtain ⟨phase,decides⟩ := decision.decides i
  have stays : leaves = false := by
    refine eq_false_of_ne_true fun goes => ?_
    obtain ⟨now,running,_⟩ := switchedOut_now (why goes)
    have other := why goes
    rw [switchedOut_some now running,if_neg fun apart => apart.2.1 rfl] at other
    cases other
  subst stays
  obtain ⟨task,place⟩ := offered_same slot
  obtain ⟨ready,_⟩ := nextTask_ready decision.filed decision.called
  cases after.stands with
  | vacant v =>
    have free := (decision.filed.free i).mpr (by rw [← task]; exact v.free)
    rw [ready] at free
    cases free
  | planned p => exact absurd (p.off.symm.trans decision.started) Bool.false_ne_true
  | active a => exact a
  | ending e =>
    have clear : (u.tasks i).sleepPending = false := (before.decided hard decides).1
    rw [← task] at clear
    exact absurd (clear.symm.trans e.pending) Bool.false_ne_true
  | resting r =>
    exact absurd rfl (sleeping_unchosen decision.filed decision.called (by rw [← task]; exact r.asleep)
      (by rw [← place]; exact r.place))

theorem Cyclic.missed (hard : c.mode.isHrt = true) (reports : c.strategy.api.deadlineMissed = false) (sound : Sound law s)
    (cyclic : Cyclic steady s i w) (taken : s.step e = some t) :
    (∃ d,.missed d ∈ t.kernel.notices i) ↔ ∃ elapsed r,e = .tick elapsed ∧ w.job = some r ∧
      r + (s.tasks i).hrt.deadline < t.kernel.ticks := by
  have stepped := sound.stepped taken
  have ticks := stepped.ticks
  have spared : (s.slot i).fresh.Spared := cyclic.spared.keep rfl rfl rfl rfl
  have change := stepped.change sound i
  rw [show t.kernel.notices i = (t.slot i).notices from rfl]
  generalize t.slot i = slot at change
  generalize t.phase i = phase at change
  generalize t.kernel.taskNow = now at change
  cases change with
  | move move other =>
    refine ⟨fun ⟨d,missed⟩ => absurd missed move.unmissed,fun ⟨elapsed,_,tick,_⟩ => absurd tick (other elapsed)⟩
  | stay => exact ⟨fun ⟨d,missed⟩ => absurd missed not_mem_nil,fun ⟨_,_,tick,_⟩ => (by cases tick)⟩
  | decide decides offer leaving =>
    rename_i chosen leaves slot
    have offers : (∃ d,.missed d ∈ ((slot.select chosen).retire c leaves).notices) ↔ ∃ d,.missed d ∈ slot.notices := by
      refine exists_congr fun d => ?_
      rw [retire_notices]
      unfold select
      split
      · exact ⟨fun member => (mem_cons.mp member).resolve_left Notice.noConfusion,mem_cons_of_mem _⟩
      · exact Iff.rfl
    rw [offers]
    cases decides with
    | launch =>
      refine ⟨fun ⟨d,missed⟩ => ?_,fun ⟨_,_,tick,_⟩ => (by cases tick)⟩
      unfold launch at missed
      split at missed <;> cases missed
    | enter | yield | pass => exact ⟨fun ⟨d,missed⟩ => absurd missed not_mem_nil,fun ⟨_,_,tick,_⟩ => (by cases tick)⟩
    | @turn elapsed gone recovered ts _ only _ honest =>
      have stays : gone = false := unset (fun goes => (only goes).2) cyclic.spared.staying
      have unrecovered := honest reports
      subst stays unrecovered
      rw [spared.tickSync]
      change (∃ d,.missed d ∈ ((s.slot i).fresh.turn c false false elapsed).notices) ↔ _
      have ticks : t.kernel.ticks = s.kernel.ticks + elapsed := ticks
      have started := tick_started sound taken
      by_cases bound : (s.tasks i).user = none
      · refine ⟨fun ⟨d,missed⟩ => ?_,fun ⟨_,_,_,job,_⟩ => absurd bound (cyclic.active job).1.bound⟩
        have awake : ¬(s.slot i).fresh.task.timeSleep < 0 := by
          rw [show (s.slot i).fresh.task.timeSleep = 0 from (cyclic.vacant bound).awake]
          exact lt_irrefl 0
        rw [turn_awake awake,Slot.trackDuration,if_neg ?_] at missed
        · cases missed
        · have free : ((s.slot i).fresh.consumeYield c).task.user = none := (congrArg user fixed_consumeYield :).trans bound
          rw [isBusy,free,Option.isSome_none,Bool.and_false]
          exact Bool.false_ne_true
      · rw [missed_turn hard bound rfl]
        constructor
        · rintro ⟨awake,late⟩
          have late : (s.tasks i).hrt.deadline < (s.tasks i).hrt.duration + elapsed := late
          rcases cyclic.started started with ⟨_,_,v | a⟩ | ⟨down,_⟩
          · exact absurd v.free bound
          · refine ⟨elapsed,_,rfl,a.job,?_⟩
            show s.kernel.ticks - (s.tasks i).hrt.duration + (s.tasks i).hrt.deadline < _
            omega
          · exact absurd down awake
        · rintro ⟨_,r,same,job,late⟩
          cases same
          obtain ⟨a,absolute⟩ := cyclic.active job
          refine ⟨a.awake,?_⟩
          change (s.tasks i).hrt.deadline < (s.tasks i).hrt.duration + elapsed
          omega

def allPlain (s : System c) (e : Event n) : Bool := decide (∀ i,s.plain i e = true)

-- Every decision selects a job in progress with the least absolute deadline, and a missed
-- deadline is reported at every tick behind it while the job is in progress.
theorem earliest_deadline_first {w : Fin n → Timetable} (chosen : c.strategy = Edf.strategy n) (hard : c.mode.isHrt = true)
    (run : Run (observe step timetable) (fun p e => p.1.allPlain e = true)
      (initial c,fun _ => {}) (s,w))
    (plain : s.allPlain e = true) (taken : s.step e = some t) :
    (∀ i,.selected ∈ t.kernel.notices i → ∃ r,(s.timetable e t w i).job = some r ∧
        ∀ j r',(s.timetable e t w j).job = some r' → r + (t.tasks i).hrt.deadline ≤ r' + (t.tasks j).hrt.deadline) ∧
      ∀ i,(∃ d,.missed d ∈ t.kernel.notices i) ↔
        ∃ elapsed r,e = .tick elapsed ∧ (w i).job = some r ∧ r + (s.tasks i).hrt.deadline < t.kernel.ticks := by
  have earliest : c.strategy.Earliest := chosen ▸ Edf.earliest n
  have law : Lawful c.strategy := Bundled.edf.law chosen
  have reached : ∀ i,(Sound law s ∧ s.kernel.isLocked = false) ∧ Cyclic false s i (w i) := by
    intro i
    refine reached_cyclic law hard (fun p e => p.1.allPlain e = true) (fun p e allowed => ?_)
      (fun off => absurd off Bool.false_ne_true) run
    exact of_decide_eq_true (p := ∀ i,p.1.plain i e = true) allowed i
  have after : ∀ i,Cyclic false t i (s.timetable e t w i) := by
    intro i
    obtain ⟨⟨sound,unlocked⟩,cyclic⟩ := reached i
    exact cyclic.step hard sound unlocked (of_decide_eq_true (p := ∀ i,s.plain i e = true) plain i)
      (fun off => absurd off Bool.false_ne_true) taken
  refine ⟨fun i selected => ?_,fun i => (reached i).2.missed hard earliest.1 (reached i).1.1 taken⟩
  obtain ⟨u,decision⟩ := step_selects (reached i).1.1 taken selected
  have mine := decision.selected hard (reached i).2 (after i)
  obtain ⟨task,_⟩ := decision.working hard (reached i).2 mine.awake
  refine ⟨_,mine.job,fun j r' job => ?_⟩
  obtain ⟨other,absolute⟩ := (after j).active job
  obtain ⟨task',place⟩ := decision.working hard (reached j).2 other.awake
  obtain ⟨⟨_,σ⟩,called,rfl⟩ := of_map decision.called
  have least := earliest.2 called (place.symm.trans other.ready)
  have relative : ∀ j,(u.view j).hrtRelativeDeadline = (u.tasks j).hrt.deadline - (u.tasks j).hrt.duration :=
    fun j => if_pos hard
  rw [relative,relative,← task,← task'] at least
  show t.kernel.ticks - (t.tasks i).hrt.duration + _ ≤ _
  omega

def lateJob : List (Event 2) :=
  [.addTaskHrt ⟨1,1,1,0⟩ 9 6 0,.addTaskHrt ⟨2,2,1,0⟩ 5 2 1,.start,.tick 1,.tick 1,.tick 1]

theorem lateJob_reported : ∃ (s t : System (edfKernel 2 (by decide))) (w : Fin 2 → Timetable),
    Transition.exec (observe step timetable) (initial _,fun _ => {}) lateJob = some (s,w) ∧
      s.step (.tick 1) = some t ∧ .selected ∈ t.kernel.notices 1 ∧ .missed 3 ∈ t.kernel.notices 1 ∧
      (∃ r,(s.timetable (.tick 1) t w 1).job = some r ∧ ∀ j r',(s.timetable (.tick 1) t w j).job = some r' →
        r + (t.tasks 1).hrt.deadline ≤ r' + (t.tasks j).hrt.deadline) ∧
      ∃ elapsed r,Event.tick 1 = .tick (n := 2) elapsed ∧ (w 1).job = some r ∧
        r + (s.tasks 1).hrt.deadline < t.kernel.ticks := by
  have found : ∃ p : System (edfKernel 2 (by decide)) × (Fin 2 → Timetable),
      Transition.exec (observe step timetable) (initial _,fun _ => {}) lateJob = some p ∧ p.1.allPlain (.tick 1) = true ∧ ∃ t,p.1.step (.tick 1) = some t ∧ .selected ∈ t.kernel.notices 1 ∧
        .missed 3 ∈ t.kernel.notices 1 := by decide
  obtain ⟨⟨s,w⟩,ran,plain,t,taken,selected,missed⟩ := found
  have run := Run.ofExecAllowed (fun p e => p.1.allPlain e) (by decide) ran
  obtain ⟨first,reported⟩ := earliest_deadline_first rfl rfl run plain taken
  exact ⟨s,t,w,ran,taken,selected,missed,first 1 selected,(reported 1).mp ⟨3,missed⟩⟩

end System
end SuperTinyKernel
