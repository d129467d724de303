import SuperTinyKernel.Steps

namespace SuperTinyKernel

open KernelTask Slot

namespace KernelTask

theorem tickEntry_fields (t : KernelTask) :
    (t.tickEntry elapsed).user = t.user ∧ (t.tickEntry elapsed).removePending = t.removePending ∧
      (t.tickEntry elapsed).sleepPending = t.sleepPending ∧ (t.tickEntry elapsed).suspended = t.suspended ∧
      (t.tickEntry elapsed).suspendPending = t.suspendPending ∧ (t.tickEntry elapsed).hrt = t.hrt := by
  unfold tickEntry
  split <;> exact ⟨rfl,rfl,rfl,rfl,rfl,rfl⟩

theorem tickSync_fields (t : KernelTask) :
    (t.tickSync m elapsed).user = t.user ∧ (t.tickSync m elapsed).removePending = t.removePending ∧
      (t.tickSync m elapsed).sleepPending = t.sleepPending ∧ (t.tickSync m elapsed).suspended = t.suspended ∧
      (t.tickSync m elapsed).suspendPending = t.suspendPending ∧ (t.tickSync m elapsed).hrt = t.hrt := by
  unfold tickSync
  split
  · exact t.tickEntry_fields
  · exact ⟨rfl,rfl,rfl,rfl,rfl,rfl⟩

end KernelTask

-- The part of a task that only binding, waiting and removal write.
def KernelTask.fixed (t : KernelTask) : KernelTask :=
  {t with
    sleepPending := false
    wakePending := false
    suspended := false
    yieldPending := false
    suspendPending := false
    timeSleep := 0
    hrt := {}
    ts := {}}

namespace Slot

variable {c : Config n} {s : Slot}

theorem fixed_consumeYield : (s.consumeYield c).task.fixed = s.task.fixed := by
  unfold consumeYield Kernel.consumeYield
  split <;> rfl

theorem fixed_advanceSleep : (s.advanceSleep c elapsed).task.fixed = s.task.fixed := by
  unfold advanceSleep settle
  dsimp only
  split <;> [skip; (split <;> [skip; split])] <;> (split <;> rfl)

theorem fixed_turn (stays : s.task.timeSleep < 0 → gone = false) :
    (s.turn c gone recovered elapsed).task.fixed = s.task.fixed := by
  unfold turn
  split
  · rename_i asleep
    rw [stays asleep,if_neg Bool.false_ne_true,fixed_advanceSleep,fixed_consumeYield]
  · unfold trackDuration
    split <;> exact fixed_consumeYield

theorem fixed_launch : (s.launch c).task.fixed = s.task.fixed := by
  unfold launch
  split <;> rfl

theorem fixed_retire : (s.retire c leaves).task.fixed = s.task.fixed := by
  unfold retire
  split
  · rw [hrtOnSwitchedOut_eq]
    rfl
  · rfl

theorem user_turn : (s.turn c false recovered elapsed).task.user = s.task.user :=
  (congrArg user (fixed_turn fun _ => rfl) :)

theorem user_awake (awake : ¬s.task.timeSleep < 0) : (s.turn c gone recovered elapsed).task.user = s.task.user :=
  (congrArg user (fixed_turn fun asleep => absurd asleep awake) :)

theorem free_turn (free : s.task.user = none) : (s.turn c gone recovered elapsed).task.user = none := by
  by_cases asleep : s.task.timeSleep < 0
  · cases gone with
    | false => rw [user_turn,free]
    | true => rw [turn_gone asleep]; rfl
  · rw [user_awake asleep,free]

theorem user_retire : (s.retire c leaves).task.user = s.task.user := (congrArg user fixed_retire :)

theorem removePending_turn : (s.turn c false recovered elapsed).task.removePending = s.task.removePending :=
  (congrArg removePending (fixed_turn fun _ => rfl) :)

theorem removePending_retire : (s.retire c leaves).task.removePending = s.task.removePending :=
  (congrArg removePending fixed_retire :)

end Slot

namespace Kernel

variable {c : Config n} {law : Lawful c.strategy} {k k' u : Kernel c} {i : Fin n} {elapsed : Int}

theorem Ticked.turn (ticked : Ticked law k k' elapsed) (i : Fin n) : ∃ gone recovered ts,
    (gone = true → c.mode.isDynamic = true ∧ (k.tasks i).removePending = true ∧
      (k.taskNow ≠ some i ∨ k.fsmState = .sleeping)) ∧
    (c.mode.isDynamic = true → (k.tasks i).removePending = true → k.taskNow ≠ some i → gone = true) ∧
    (c.strategy.api.deadlineMissed = false → recovered = false) ∧
    k'.slot i = (((k.slot i).tickSync c elapsed).turn c gone recovered elapsed).withTs ts := by
  obtain ⟨u,recovered,ts,_,now,state,_,own,honest,turned⟩ := ticked.turns i
  have task : u.tasks i = (k.tasks i).tickSync c.mode elapsed := congrArg task (own i le_rfl)
  have pending : (u.tasks i).isPendingRemoval = (k.tasks i).removePending := by
    rw [isPendingRemoval,task,(tickSync_fields _).2.1]
  refine ⟨u.removable i,recovered,ts,?_,?_,honest,turned⟩
  · intro gone
    simp only [removable,Bool.and_eq_true,Bool.or_eq_true,decide_eq_true_eq,pending,now,state] at gone
    exact ⟨gone.1.1,gone.1.2,gone.2.imp id And.right⟩
  · intro dynamic removed apart
    simp [removable,dynamic,pending,removed,now,apart]

theorem Ticked.user (ticked : Ticked law k k' elapsed) (now : k.taskNow = some i)
    (running : k.fsmState.running = true) : (k'.tasks i).user = (k.tasks i).user := by
  obtain ⟨gone,recovered,ts,only,_,_,turned⟩ := ticked.turn i
  have stays : gone = false := by
    refine eq_false_of_ne_true fun goes => ?_
    rcases (only goes).2.2 with apart | asleep
    · exact apart now
    · simp [asleep,FsmState.running] at running
  subst stays
  have task := congrArg (fun s => s.task.user) turned
  simp only [slot_task,withTs,user_turn] at task
  rw [task]
  exact (tickSync_fields _).1

theorem Ticked.free (ticked : Ticked law k k' elapsed) (free : (k.tasks i).user = none) : (k'.tasks i).user = none := by
  obtain ⟨gone,recovered,ts,_,_,_,turned⟩ := ticked.turn i
  have user := congrArg (fun s => s.task.user) turned
  simp only [slot_task,withTs] at user
  rw [user]
  refine free_turn ?_
  exact (tickSync_fields _).1.trans free

-- At the turn of slot `i` all other slots are free: those before it have been freed, and none
-- behind it is bound.
def LastAtTurn (k : Kernel c) (elapsed : Int) (i : Fin n) : Prop :=
  ∀ j,j ≠ i → (k.tasks j).user ≠ none → j < i ∧ (k.tasks j).removePending = true ∧
    ((k.tasks j).tickSync c.mode elapsed).timeSleep < 0

theorem Ticked.freed_other (ticked : Ticked law k k' elapsed) (dynamic : c.mode.isDynamic = true)
    (other : k.taskNow ≠ some i) (bound : (k.tasks i).user ≠ none) :
    (k'.tasks i).user = none ↔
      (k.tasks i).removePending = true ∧ ((k.tasks i).tickSync c.mode elapsed).timeSleep < 0 := by
  obtain ⟨gone,recovered,ts,only,always,_,turned⟩ := ticked.turn i
  have user : (k'.tasks i).user =
      (((k.slot i).tickSync c elapsed).turn c gone recovered elapsed).task.user :=
    congrArg (fun s => s.task.user) turned
  have after : ((k.slot i).tickSync c elapsed).task.user = (k.tasks i).user := (tickSync_fields _).1
  constructor
  · intro freed
    have goes : gone = true := by
      refine by_contra fun stays => bound ?_
      rw [eq_false_of_ne_true stays,user_turn,after] at user
      exact user.symm.trans freed
    refine ⟨(only goes).2.1,?_⟩
    by_contra awake
    rw [user_awake awake,after] at user
    exact bound (user.symm.trans freed)
  · rintro ⟨removed,asleep⟩
    rw [user,always dynamic removed other,turn_gone asleep]
    rfl

theorem Ticked.removable_now (ticked : Ticked law k k' elapsed) (dynamic : c.mode.isDynamic = true)
    (now : k.taskNow = some i) (bound : (k.tasks i).user ≠ none) (removed : (k.tasks i).removePending = true) :
    ∃ gone recovered ts,(gone = true ↔ k.fsmState = .sleeping ∧ k.LastAtTurn elapsed i) ∧
      (c.strategy.api.deadlineMissed = false → recovered = false) ∧
      k'.slot i = (((k.slot i).tickSync c elapsed).turn c gone recovered elapsed).withTs ts := by
  obtain ⟨u,recovered,ts,filed,at_,state,earlier,later,honest,turned⟩ := ticked.turns i
  refine ⟨u.removable i,recovered,ts,?_,honest,turned⟩
  have user : ∀ j,i ≤ j → (u.tasks j).user = (k.tasks j).user := fun j behind =>
    (congrArg (fun s => s.task.user) (later j behind)).trans (tickSync_fields _).1
  have pending : (u.tasks i).isPendingRemoval = true := by
    have task : u.tasks i = (k.tasks i).tickSync c.mode elapsed := congrArg task (later i le_rfl)
    rw [isPendingRemoval,task,(tickSync_fields _).2.1,removed]
  have own : u.place i ≠ .free := by rw [ne_eq,filed.free,user i le_rfl]; exact bound
  have free : ∀ j,j ≠ i → (u.place j = .free ↔ ((k.tasks j).user ≠ none → j < i ∧ (k.tasks j).removePending = true ∧
      ((k.tasks j).tickSync c.mode elapsed).timeSleep < 0)) := by
    intro j apart
    rcases lt_or_gt_of_ne apart with before | behind
    · rw [earlier j before]
      have other : k.taskNow ≠ some j := fun same => apart (Option.some.inj (same.symm.trans now))
      rw [show k'.place j = .free ↔ (k'.tasks j).user = none from ticked.filed.free j]
      by_cases busy : (k.tasks j).user = none
      · simp only [busy,ne_eq,not_true_eq_false,false_implies,iff_true]
        exact ticked.free busy
      · rw [ticked.freed_other dynamic other busy]
        simp [busy,before]
    · rw [filed.free,user j behind.le]
      refine ⟨fun free busy => absurd free busy,fun all => by_contra fun busy => ?_⟩
      exact absurd (all busy).1 (not_lt.mpr behind.le)
  have size : c.strategy.getSize u.strategy = 1 ↔ ∀ j,j ≠ i → u.place j = .free := by
    rw [law.size_card filed.inv,Finset.card_eq_one]
    constructor
    · rintro ⟨a,single⟩ j apart
      have member : ∀ j,u.place j ≠ .free → j = a := fun j placed => by
        have : j ∈ ({a} : Finset (Fin n)) := single ▸ Finset.mem_filter.mpr ⟨Finset.mem_univ j,placed⟩
        exact Finset.mem_singleton.mp this
      exact by_contra fun placed => apart ((member j placed).trans (member i own).symm)
    · intro others
      refine ⟨i,Finset.ext fun j => ?_⟩
      rw [Finset.mem_filter,Finset.mem_singleton]
      refine ⟨fun placed => by_contra fun apart => placed.2 (others j apart),?_⟩
      rintro rfl
      exact ⟨Finset.mem_univ j,own⟩
  simp only [removable,dynamic,pending,at_,now,state,Bool.true_and,ne_eq,not_true_eq_false,decide_false,Bool.false_or,
    Bool.and_eq_true,decide_eq_true_eq]
  rw [size]
  exact ⟨fun goes => ⟨goes.2,fun j apart => (free j apart).mp (goes.1 j apart)⟩,
    fun goes => ⟨fun j apart => (free j apart).mpr (goes.2 j apart),goes.1⟩⟩

theorem Ticked.alone (ticked : Ticked law k k' elapsed) (now : k.taskNow = some i) (bound : (k.tasks i).user ≠ none)
    (freed : (k'.tasks i).user = none) :
    c.mode.isDynamic = true ∧ k.fsmState = .sleeping ∧ ∀ j,(k'.tasks j).user = none := by
  have goes : ∀ {gone recovered ts},
      k'.slot i = (((k.slot i).tickSync c elapsed).turn c gone recovered elapsed).withTs ts → gone = true := by
    intro gone recovered ts turned
    have user := congrArg (fun s => s.task.user) turned
    simp only [slot_task,withTs,freed] at user
    refine by_contra fun stays => bound ?_
    rw [eq_false_of_ne_true stays,user_turn] at user
    exact (tickSync_fields _).1.symm.trans user.symm
  obtain ⟨gone,recovered,ts,only,_,_,turned⟩ := ticked.turn i
  obtain ⟨dynamic,removed,_⟩ := only (goes turned)
  obtain ⟨gone,recovered,ts,last,_,turned⟩ := ticked.removable_now dynamic now bound removed
  obtain ⟨asleep,last⟩ := last.mp (goes turned)
  refine ⟨dynamic,asleep,fun j => ?_⟩
  by_cases at_ : j = i
  · rw [at_]; exact freed
  · by_cases free : (k.tasks j).user = none
    · exact ticked.free free
    · exact (ticked.freed_other dynamic (fun same => at_ (Option.some.inj (same.symm.trans now))) free).mpr (last j at_ free).2

theorem Decided.user (decided : Decided law u k' next) (i : Fin n) : (k'.tasks i).user = (u.tasks i).user := by
  have task := congrArg (fun s => s.task.user) (decided.slots i)
  simpa only [slot_task,user_retire,select_task] using task

theorem Decided.busy (decided : Decided law u k' (some i)) (filed : Filed law u) : (k'.tasks i).user ≠ none := by
  rw [decided.user]
  intro free
  have place := (filed.free i).mpr free
  rw [(nextTask_ready filed decided.called).1] at place
  cases place

theorem Launched.busy (launched : Launched law k u k' (some i)) : (k'.tasks i).user ≠ none := by
  have task := congrArg (fun s => s.task.user) (launched.slots i)
  simp only [slot_task,select_task] at task
  rw [task]
  intro free
  have place := (launched.ready.free i).mpr free
  rw [(nextTask_ready launched.ready launched.called).1] at place
  cases place

theorem Forced.each {α : Type} (forced : Forced law k u i) (f : Slot → α) (settles : ∀ s : Slot,f (s.settle c) = f s)
    (yields : ∀ s : Slot,f s.yielded = f s) (j : Fin n) : f (u.slot j) = f (k.slot j) := by
  obtain ⟨s,slots,settled⟩ := forced.slots
  rw [slots]
  by_cases at_ : j = i
  · subst at_
    rw [Function.update_self]
    rcases settled with ⟨_,_,rfl,_⟩ | ⟨_,_,_,rfl,_⟩
    · exact settles _
    · exact yields _
  · rw [Function.update_of_ne at_]

theorem Forced.user (forced : Forced law k u i) : ∀ j,(u.tasks j).user = (k.tasks j).user :=
  forced.each (fun s => s.task.user) (fun _ => rfl) fun _ => rfl

end Kernel

namespace Move

variable {c : Config n} {s : System c} {i : Fin n}

theorem user (move : Move s i e slot phase) (busy : (s.tasks i).user ≠ none) (started : s.kernel.isStarted = true) :
    slot.task.user = (s.tasks i).user := by
  cases move with
  | bind _ free | bindHrt _ free => exact absurd free busy
  | unbind _ stopped => rw [started] at stopped; cases stopped
  | _ => rfl

end Move

namespace System

open Kernel

variable {c : Config n} {law : Lawful c.strategy} {s t : System c} {u : Kernel c}

-- m_task_now and the executing context in the states of the FSM. In the sleep trap m_task_now
-- is some filed task.
structure Contexts (s : System c) : Prop where
  running : s.kernel.fsmState.running = true →
    ∃ i,s.kernel.taskNow = some i ∧ s.exec = some (.task i) ∧ (s.tasks i).user ≠ none
  sleeping : s.kernel.fsmState = .sleeping → s.kernel.isStarted = true ∧ s.exec = some .sleepTrap
  exiting : s.kernel.fsmState = .exiting →
    c.mode.isDynamic = true ∧ s.kernel.taskNow = none ∧ s.exec = some .exitTrap
  stopped : s.kernel.fsmState = .none → s.kernel.taskNow = none ∧ s.exec = none

theorem Contexts.task (contexts : Contexts s) (executes : s.exec = some (.task i)) :
    s.kernel.fsmState.running = true ∧ s.kernel.taskNow = some i := by
  cases state : s.kernel.fsmState with
  | none => simp [(contexts.stopped state).2] at executes
  | sleeping => simp [(contexts.sleeping state).2] at executes
  | exiting => simp [(contexts.exiting state).2.2] at executes
  | switching | waking =>
    obtain ⟨j,now,loaded,_⟩ := contexts.running (by simp [state,FsmState.running])
    rw [loaded] at executes
    cases executes
    exact ⟨by simp [FsmState.running],now⟩

theorem Contexts.trap (contexts : Contexts s) (exits : s.exec = some .exitTrap) : s.kernel.fsmState = .exiting := by
  cases state : s.kernel.fsmState with
  | none => simp [(contexts.stopped state).2] at exits
  | sleeping => simp [(contexts.sleeping state).2] at exits
  | exiting => rfl
  | switching | waking =>
    obtain ⟨j,_,loaded,_⟩ := contexts.running (by simp [state,FsmState.running])
    simp [loaded] at exits

theorem caller_executes (calls : s.caller = some i) : s.exec = some (.task i) ∧ s.phase i = .user := by
  unfold caller at calls
  split at calls
  · rename_i j executes
    split at calls
    · cases calls; exact ⟨executes,‹_›⟩
    · cases calls
  · cases calls

section

variable (contexts : Contexts s)
include contexts

theorem Contexts.focus (i : Fin n) (calls : s.caller = some i) : s.kernel.taskNow = some i :=
  (contexts.task (caller_executes calls).1).2

theorem Contexts.bound (i : Fin n) (calls : s.caller = some i) : (s.tasks i).user ≠ none := by
  obtain ⟨running,now⟩ := contexts.task (caller_executes calls).1
  obtain ⟨j,at_,_,busy⟩ := contexts.running running
  rw [now] at at_
  cases at_
  exact busy

theorem transit_idle (now : u.taskNow = s.kernel.taskNow) (state : u.fsmState = s.kernel.fsmState)
    (transit : Kernel.Transit u next now' f (.switch idle active)) : s.exec = some idle := by
  cases transit with
  | switch running at_ _ | sleep running at_ _ _ =>
    rw [state] at running
    obtain ⟨j,current,loaded,_⟩ := contexts.running running
    rw [now,current] at at_
    cases at_; exact loaded
  | wake asleep => exact (contexts.sleeping (state ▸ asleep)).2

theorem transit_contexts (now : u.taskNow = s.kernel.taskNow)
    (state : u.fsmState = s.kernel.fsmState) (transit : Kernel.Transit u next t.kernel.taskNow t.kernel.fsmState out)
    (busy : ∀ i,next = some i → (t.tasks i).user ≠ none) (loads : t.exec = s.loaded out) : Contexts t := by
  generalize taskNow : t.kernel.taskNow = now' at transit
  generalize fsmState : t.kernel.fsmState = f at transit
  have run : ∀ {i},f = .switching ∨ f = .waking → now' = some i → t.exec = some (.task i) → (t.tasks i).user ≠ none →
      Contexts t := by
    rintro i live rfl executes bound
    refine ⟨fun _ => ⟨i,taskNow,executes,bound⟩,fun asleep => ?_,fun ceased => ?_,fun off => ?_⟩ <;>
      rcases live with rfl | rfl <;> simp_all
  cases transit with
  | keep running at_ =>
    rw [state] at running
    obtain ⟨j,current,executes,_⟩ := contexts.running running
    rw [now,current] at at_
    cases at_
    exact run (.inl rfl) rfl (by rw [loads]; exact executes) (busy _ rfl)
  | switch _ _ _ => exact run (.inl rfl) rfl loads (busy _ rfl)
  | wake _ => exact run (.inr rfl) rfl loads (busy _ rfl)
  | sleep _ _ _ _ =>
    refine ⟨fun live => ?_,fun _ => ⟨by simp [isStarted,taskNow],loads⟩,fun ceased => ?_,fun off => ?_⟩ <;>
      simp_all [FsmState.running]
  | exit _ empty =>
    have dynamic : c.mode.isDynamic = true := (Bool.and_eq_true_iff.mp empty).1
    refine ⟨fun live => ?_,fun asleep => ?_,fun _ => ⟨dynamic,taskNow,loads⟩,fun off => ?_⟩ <;>
      simp_all [FsmState.running]
  | idle asleep _ =>
    have trap := contexts.sleeping (state ▸ asleep)
    refine ⟨fun live => ?_,fun _ => ⟨?_,by rw [loads]; exact trap.2⟩,fun ceased => ?_,fun off => ?_⟩
    · simp [fsmState,FsmState.running] at live
    · rw [isStarted,taskNow,now]; exact trap.1
    · simp [fsmState] at ceased
    · simp [fsmState] at off
  | ceased done =>
    have trap := contexts.exiting (state ▸ done)
    refine ⟨fun live => ?_,fun asleep => ?_,fun _ => ⟨trap.1,?_,by rw [loads]; exact trap.2.2⟩,fun off => ?_⟩
    · simp [fsmState,FsmState.running] at live
    · simp [fsmState] at asleep
    · rw [taskNow,now]; exact trap.2.1
    · simp [fsmState] at off

theorem Contexts.step (stepped : Stepped law s t e) : Contexts t := by
  cases stepped with
  | quiet _ quiet =>
    refine ⟨fun running => ?_,fun asleep => ?_,fun ceased => ?_,fun off => ?_⟩
    · rw [quiet.fsmState] at running
      obtain ⟨i,now,executes,busy⟩ := contexts.running running
      refine ⟨i,by rw [quiet.taskNow,now],by rw [quiet.exec,executes],?_⟩
      have same := (quiet.moves i).user busy (by simp [isStarted,now])
      exact fun free => busy (same ▸ free)
    · rw [quiet.fsmState] at asleep
      rw [isStarted,quiet.taskNow,quiet.exec]
      exact contexts.sleeping asleep
    · rw [quiet.fsmState] at ceased
      rw [quiet.taskNow,quiet.exec]
      exact contexts.exiting ceased
    · rw [quiet.fsmState] at off
      rw [quiet.taskNow,quiet.exec]
      exact contexts.stopped off
  | start stopped launched phase armed reached =>
    rcases reached with ⟨j,rfl,now,state,executes⟩ | ⟨first,rfl,now,placed,state,executes⟩
    · refine ⟨fun _ => ⟨j,now,executes,launched.busy⟩,fun asleep => ?_,fun ceased => ?_,fun off => ?_⟩ <;> simp_all
    · refine ⟨fun live => ?_,fun _ => ⟨by simp [isStarted,now],executes⟩,fun ceased => ?_,fun off => ?_⟩ <;>
        simp_all [FsmState.running]
  | tick legal before ticked unlocked decided transit loads phase =>
    exact transit_contexts contexts ticked.taskNow ticked.fsmState transit
      (by rintro i rfl; exact decided.busy ticked.filed) loads
  | lockedTick legal before ticked locked exec phase =>
    refine ⟨fun running => ?_,fun asleep => ?_,fun ceased => ?_,fun off => ?_⟩
    · rw [ticked.fsmState] at running
      obtain ⟨i,now,executes,busy⟩ := contexts.running running
      refine ⟨i,ticked.taskNow.trans now,exec.trans executes,?_⟩
      rw [tasks,ticked.user now running]
      exact busy
    · rw [isStarted,ticked.taskNow,exec]
      exact contexts.sleeping (ticked.fsmState.symm.trans asleep)
    · rw [ticked.taskNow,exec]
      exact contexts.exiting (ticked.fsmState.symm.trans ceased)
    · rw [ticked.taskNow,exec]
      exact contexts.stopped (ticked.fsmState.symm.trans off)
  | force executes waits bound before named forced decided transit loads phase armed =>
    exact transit_contexts contexts forced.taskNow forced.fsmState transit
      (by rintro i rfl; exact decided.busy forced.filed) loads
  | noForce executes waits bound before kernel exec phase armed =>
    have task : t.tasks = s.tasks := by funext i; rw [tasks,kernel]; rfl
    refine ⟨fun running => ?_,fun asleep => ?_,fun ceased => ?_,fun off => ?_⟩ <;> rw [kernel] at * <;> rw [exec]
    · rw [task]; exact contexts.running running
    · exact contexts.sleeping asleep
    · exact contexts.exiting ceased
    · exact contexts.stopped off
  | stop exits kernel exec phase armed =>
    have ceased := contexts.trap exits
    obtain ⟨dynamic,off,_⟩ := contexts.exiting ceased
    have state : t.kernel.fsmState = .none := by rw [kernel,onStop,if_pos dynamic]
    have now : t.kernel.taskNow = none := by rw [kernel,onStop,if_pos dynamic]; exact off
    refine ⟨fun live => ?_,fun asleep => ?_,fun ends => ?_,fun _ => ⟨now,exec⟩⟩ <;> simp_all [FsmState.running]

end

theorem initial_filed (law : Lawful c.strategy) : Filed law (System.initial c).kernel :=
  ⟨⟨by simp [initial],by simp [initial],by simp [initial],by simp [initial]⟩,law.initial,fun _ =>
    ⟨fun _ => rfl,fun _ => law.initial_free⟩⟩

theorem initial_contexts : Contexts (System.initial c) := by
  refine ⟨?_,?_,?_,fun _ => ⟨rfl,rfl⟩⟩ <;> simp [initial,FsmState.running]

structure Sound (law : Lawful c.strategy) (s : System c) : Prop where
  filed : Filed law s.kernel
  contexts : Contexts s

theorem Sound.stepped (sound : Sound law s) (taken : s.step e = some t) : Stepped law s t e :=
  step_stepped sound.filed sound.contexts.focus taken

theorem Stepped.filed (stepped : Stepped law s t e) (sound : Sound law s) : Filed law t.kernel := by
  cases stepped with
  | quiet _ quiet => exact quiet.filed
  | start _ launched _ _ _ => exact launched.filed
  | tick _ _ _ _ decided _ _ _ | force _ _ _ _ _ _ decided _ _ _ _ => exact decided.filed
  | lockedTick _ _ ticked _ _ _ => exact ticked.filed
  | noForce _ _ _ _ kernel _ _ _ => rw [kernel]; exact fresh_filed sound.filed
  | stop _ kernel _ _ _ =>
    have filed := sound.filed
    have shape : ∃ f ks,s.kernel.fresh.onStop = {s.kernel.fresh with fsmState := f,kstate := ks} := by
      unfold onStop; split <;> exact ⟨_,_,rfl⟩
    obtain ⟨f,ks,shape⟩ := shape
    rw [kernel,shape]
    exact filed.still rfl rfl rfl rfl

theorem Sound.step (sound : Sound law s) (taken : s.step e = some t) : Sound law t :=
  ⟨(sound.stepped taken).filed sound,sound.contexts.step (sound.stepped taken)⟩

theorem reached_sound (law : Lawful c.strategy) (run : Transition.Run step Allowed (initial c) s) : Sound law s :=
  run.keeps ⟨initial_filed law,initial_contexts⟩ fun _ _ _ sound _ taken => sound.step taken

end System

end SuperTinyKernel
