import SuperTinyKernel.Changes
import SuperTinyKernel.Strategies.Bundled

namespace SuperTinyKernel

open KernelTask Slot

-- A slot against its sleep counter and its pending flag. The sleep list has the delivered
-- sleeps.
structure Slot.Settled (c : Config n) (s : Slot) : Prop where
  asleep : c.strategy.api.sleepEvent = true → (s.place = .asleep ↔ s.task.timeSleep < 0 ∧ s.task.sleepPending = false)
  pending : s.task.sleepPending = true → s.task.timeSleep < 0
  free : s.task.user = none → ¬s.task.timeSleep < 0

namespace Slot.Settled

variable {c : Config n} {s s' : Slot} {elapsed : Int}

section

variable (settled : s.Settled c)
include settled

theorem busy (asleep : s.task.timeSleep < 0) : s.task.user ≠ none :=
  fun free => settled.free free asleep

theorem kept (place : s'.place = s.place) (time : s'.task.timeSleep = s.task.timeSleep)
    (flag : s'.task.sleepPending = s.task.sleepPending) (user : s'.task.user = s.task.user) : s'.Settled c :=
  ⟨by rw [place,time,flag]; exact settled.asleep,by rw [flag,time]; exact settled.pending,by
    rw [user,time]; exact settled.free⟩

theorem bound (free : s.task.user = none) (place : s'.place = .ready)
    (time : s'.task.timeSleep = s.task.timeSleep) (flag : s'.task.sleepPending = s.task.sleepPending) : s'.Settled c := by
  have awake : ¬s'.task.timeSleep < 0 := time ▸ settled.free free
  refine ⟨fun _ => ?_,fun flagged => ?_,fun _ => awake⟩
  · simp [place,awake]
  · exact time ▸ settled.pending (flag ▸ flagged)

theorem sleepsOn (before : s.task.timeSleep < 0) (place : s'.place = s.place)
    (time : s'.task.timeSleep < 0) (flag : s'.task.sleepPending = s.task.sleepPending)
    (user : s'.task.user = s.task.user) : s'.Settled c := by
  refine ⟨fun aware => ?_,fun _ => time,fun free => ?_⟩
  · rw [place,settled.asleep aware,flag]
    simp [before,time]
  · exact absurd (user ▸ free) (settled.busy before)

theorem scheduled (bound : s.task.user ≠ none) (place : s'.place = s.place)
    (time : s'.task.timeSleep < 0) (flag : s'.task.sleepPending = (s.task.sleepPending || !s.task.isSleeping))
    (user : s'.task.user = s.task.user) : s'.Settled c := by
  refine ⟨fun aware => ?_,fun _ => time,fun free => absurd (user ▸ free) bound⟩
  rw [place,settled.asleep aware,flag]
  simp only [time,true_and,Bool.or_eq_false_iff,Bool.not_eq_false',isSleeping_iff]
  exact And.comm

theorem settle (sleeping : s.task.timeSleep < 0) : (s.settle c).Settled c := by
  refine ⟨fun aware => ?_,fun flagged => (by cases flagged),fun free => absurd free (settled.busy sleeping)⟩
  simpa [Slot.settle,Config.sleepPlace,aware,clearPending] using sleeping

theorem settleIf : (s.settleIf c deliver).Settled c := by
  rw [settleIf_eq]
  split
  · rename_i both
    exact settled.settle (settled.pending (Bool.and_eq_true_iff.mp both).2)
  · exact settled

end

theorem unbind : (s.unbind c).Settled c := by
  refine ⟨fun _ => ?_,fun flagged => ?_,fun _ => ?_⟩
  · simp [Slot.unbind,KernelTask.unbind]
  · simp [Slot.unbind,KernelTask.unbind] at flagged
  · simp [Slot.unbind,KernelTask.unbind]

section

variable (settled : s.Settled c)
include settled

theorem launch : (s.launch c).Settled c := by
  unfold Slot.launch
  split
  · rename_i flagged
    have sleeping := settled.pending flagged
    refine ⟨fun aware => ?_,fun flagged => (by cases flagged),fun free => absurd free (settled.busy sleeping)⟩
    simpa [Config.sleepPlace,aware] using sleeping
  · exact settled

theorem advanceSleep (sleeping : s.task.timeSleep < 0) :
    (s.advanceSleep c elapsed).Settled c ∧ (s.advanceSleep c elapsed).task.sleepPending = false := by
  have entered : ∃ e : Slot,e = (if s.task.sleepPending then s.settle c else s) ∧ e.Settled c ∧
      e.task.timeSleep < 0 ∧ e.task.timeSleep = s.task.timeSleep ∧ e.task.sleepPending = false := by
    refine ⟨_,rfl,?_⟩
    split
    · exact ⟨settled.settle sleeping,sleeping,rfl,rfl⟩
    · exact ⟨settled,sleeping,rfl,eq_false_of_ne_true ‹_›⟩
  obtain ⟨e,same,valid,asleep,time,clear⟩ := entered
  unfold Slot.advanceSleep
  rw [← same]
  dsimp only
  split
  · exact ⟨valid,clear⟩
  · split
    · refine ⟨valid.sleepsOn asleep rfl ?_ rfl rfl,clear⟩
      exact infinite_sleeping rfl
    · split
      · rename_i short
        exact ⟨valid.sleepsOn asleep rfl (by simpa [advance,time] using short) rfl rfl,clear⟩
      · rename_i ceased
        have awake : ¬(e.task.advance elapsed).timeSleep < 0 := by simpa [advance,time] using ceased
        refine ⟨⟨fun aware => ?_,fun flagged => ?_,fun _ => awake⟩,clear⟩
        · simp [Config.wakePlace,aware,awake]
        · rw [show (e.task.advance elapsed).sleepPending = e.task.sleepPending from rfl,clear] at flagged
          cases flagged

theorem consumeYield : (s.consumeYield c).Settled c := by
  unfold Slot.consumeYield Kernel.consumeYield
  split <;> exact settled.kept rfl rfl rfl rfl

theorem turn (gone recovered : Bool) (elapsed : Int) :
    (s.turn c gone recovered elapsed).Settled c ∧ (s.turn c gone recovered elapsed).task.sleepPending = false := by
  have same : (s.consumeYield c).task.timeSleep = s.task.timeSleep ∧
      (s.consumeYield c).task.sleepPending = s.task.sleepPending := by
    unfold Slot.consumeYield Kernel.consumeYield
    split <;> exact ⟨rfl,rfl⟩
  unfold Slot.turn
  split
  · rename_i sleeping
    split
    · exact ⟨unbind,rfl⟩
    · exact settled.consumeYield.advanceSleep (same.1 ▸ sleeping)
  · rename_i awake
    have clear : s.task.sleepPending = false := eq_false_of_ne_true fun flagged => awake (settled.pending flagged)
    unfold trackDuration
    split
    · exact ⟨settled.consumeYield.kept rfl rfl rfl rfl,same.2.trans clear⟩
    · exact ⟨settled.consumeYield,same.2.trans clear⟩

theorem retire (bound : leaves = true → s.task.user ≠ none) : (s.retire c leaves).Settled c := by
  unfold Slot.retire
  split
  · rename_i leaves
    unfold hrtOnSwitchedOut
    dsimp only
    split
    · rename_i rest
      exact settled.scheduled (bound leaves) rfl (by simp only [scheduleSleep]; omega) rfl rfl
    · exact settled.kept rfl rfl rfl rfl
  · exact settled

theorem tickSync
    (wakes : c.mode.isSync = true → s.task.waitObj.isWaiting = true → (s.task.waitObj.tick elapsed).state ≠ .wait →
      s.task.timeSleep < 0) : (s.tickSync c elapsed).Settled c := by
  unfold Slot.tickSync KernelTask.tickSync
  split
  · rename_i both
    obtain ⟨sync,waiting⟩ := Bool.and_eq_true_iff.mp both
    unfold tickEntry
    split
    · exact settled.kept rfl rfl rfl rfl
    · rename_i ends
      exact settled.sleepsOn (wakes sync waiting ends) rfl (show (-1 : Int) < 0 by decide) rfl rfl
  · exact settled

end

end Slot.Settled

namespace System

variable {c : Config n}

def endsWait (s : System c) (i : Fin n) : Event n → Bool
  | .wake o all => decide (i ∈ s.kernel.signalled o all)
  | .cancelTaskWait j => decide (j = i) && c.mode.isSync && (s.tasks i).waitObj.isWaiting
  | .tick elapsed =>
    c.mode.isSync && (s.tasks i).waitObj.isWaiting && decide (((s.tasks i).waitObj.tick elapsed).state ≠ .wait)
  | _ => false

-- KernelTask::Wake only asserts that its task sleeps. In a release build it puts an awake task
-- to sleep behind the back of the strategy.
def wakesAsleep (s : System c) (e : Event n) : Bool := decide (∀ i,s.endsWait i e = true → (s.tasks i).timeSleep < 0)

end System

namespace Move

open Kernel

variable {c : Config n} {law : Lawful c.strategy} {s : System c} {i : Fin n} {slot : Slot}

theorem settled (sound : System.Sound law s) (settled : (s.slot i).Settled c)
    (focus : s.kernel.taskNow = some i → (s.tasks i).user ≠ none)
    (wakes : s.endsWait i e = true → (s.tasks i).timeSleep < 0) (move : Move s i e slot phase) : slot.Settled c := by
  have called : s.caller = some i → (s.slot i).task.user ≠ none := sound.contexts.bound i
  have found : ∀ {tid},s.finds tid i → (s.slot i).task.user ≠ none := by
    intro tid finds free
    obtain ⟨u,owner,_⟩ := found_user finds
    rw [show (s.kernel.tasks i).user = none from free] at owner
    cases owner
  have infinite : -waitInfinite < 0 := by decide
  have soon : (-1 : Int) < 0 := by decide
  have removed : (s.slot i).task.user ≠ none → ((s.slot i).modify (removal c.mode)).Settled c :=
    fun bound => settled.scheduled bound rfl infinite rfl rfl
  cases move with
  | bind _ free => exact settled.bound free rfl rfl rfl
  | bindHrt _ free =>
    have placed : ∀ u,(⟨(s.tasks i).bind c.mode c.strategy.api u,.ready,[]⟩ : Slot).Settled c :=
      fun u => settled.bound free rfl rfl rfl
    rw [← hrtInit_eq,hrtInit]
    dsimp only
    split
    · rename_i positive
      exact (placed _).scheduled (by simp [KernelTask.bind]) rfl (Int.neg_neg_of_pos positive) rfl rfl
    · exact (placed _).kept rfl rfl rfl rfl
  | unbind => exact .unbind
  | sleep calls _ _ positive => exact settled.scheduled (called calls) rfl (Int.neg_neg_of_pos positive) rfl rfl
  | sleepUntil calls _ _ positive =>
    have := waitInfinite_gt
    exact settled.scheduled (called calls) rfl (Int.neg_neg_of_pos (by omega)) rfl rfl
  | yieldSleep calls => exact settled.scheduled (called calls) rfl soon rfl rfl
  | wait calls => exact settled.scheduled (called calls) rfl infinite rfl rfl
  | exitTask calls | returnFromRun calls => exact removed (called calls)
  | scheduleTaskRemoval finds => exact (removed (found finds)).settleIf
  | signal member => exact settled.sleepsOn (wakes (by simpa [System.endsWait] using member)) rfl soon rfl rfl
  | cancel sync waiting =>
    exact settled.sleepsOn (wakes (by simp [System.endsWait,sync,waiting])) rfl soon rfl rfl
  | cancelSleep _ asleep => exact settled.sleepsOn asleep rfl soon rfl rfl
  | suspend finds =>
    have marked : ((s.slot i).modify (markSuspended c.mode)).Settled c :=
      settled.scheduled (found finds) rfl infinite rfl rfl
    exact marked.settleIf
  | resume =>
    rw [Slot.modify,← KernelTask.resume_eq,KernelTask.resume]
    split
    · rename_i asleep
      exact settled.sleepsOn ((isSleeping_iff _).mp asleep) rfl soon rfl rfl
    · exact settled.kept rfl rfl rfl rfl
  | stepAside now => exact settled.scheduled (focus now) rfl soon rfl rfl
  | _ => exact settled.kept rfl rfl rfl rfl

end Move

namespace Decides

variable {c : Config n} {s : System c} {i : Fin n} {slot : Slot}

theorem settled (decides : Decides s i e slot phase) (settled : (s.slot i).Settled c)
    (wakes : s.endsWait i e = true → (s.tasks i).timeSleep < 0) : slot.Settled c := by
  have fresh : (s.slot i).fresh.Settled c := settled.kept rfl rfl rfl rfl
  cases decides with
  | launch => exact fresh.launch
  | turn =>
    have synced := fresh.tickSync fun sync waiting ends => wakes (by
      simpa [System.endsWait] using ⟨⟨sync,waiting⟩,ends⟩)
    exact (synced.turn _ _ _).1.kept rfl rfl rfl rfl
  | enter _ _ asleep => exact fresh.settle asleep
  | yield => exact fresh.kept rfl rfl rfl rfl
  | pass => exact fresh

theorem pending (decides : Decides s i e slot phase) (settled : (s.slot i).Settled c)
    (wakes : s.endsWait i e = true → (s.tasks i).timeSleep < 0) (flagged : slot.task.sleepPending = true) :
    s.kernel.isStarted = true ∧ s.kernel.taskNow ≠ some i ∧ (s.tasks i).sleepPending = true ∧
      slot = (s.slot i).fresh := by
  have fresh : (s.slot i).fresh.Settled c := settled.kept rfl rfl rfl rfl
  cases decides with
  | launch =>
    unfold Slot.launch at flagged
    split at flagged
    · cases flagged
    · exact absurd flagged ‹_›
  | turn =>
    have synced := fresh.tickSync fun sync waiting ends => wakes (by
      simpa [System.endsWait] using ⟨⟨sync,waiting⟩,ends⟩)
    rw [withTs,(synced.turn _ _ _).2] at flagged
    cases flagged
  | enter => cases flagged
  | yield _ _ awake => exact absurd (settled.pending flagged) awake
  | pass other started => exact ⟨started,other,flagged,rfl⟩

theorem bound (decides : Decides s i e slot phase) (bound : (s.tasks i).user ≠ none)
    (now : s.kernel.taskNow = some i) (running : s.kernel.fsmState.running = true) : slot.task.user ≠ none := by
  cases decides with
  | launch =>
    unfold Slot.launch
    split <;> exact bound
  | @turn _ gone _ _ _ _ departs =>
    have stays : gone = false := by
      refine eq_false_of_ne_true fun goes => ?_
      obtain ⟨_,_,alone⟩ := (departs bound).mp goes
      simp [(alone now).1,FsmState.running] at running
    rw [withTs,stays,user_turn]
    exact fun free => bound ((tickSync_fields _).1.symm.trans free)
  | enter | yield | pass => exact bound

end Decides

theorem Change.settled {c : Config n} {law : Lawful c.strategy} {s : System c} {slot : Slot}
    (change : Change s i e slot phase now) (sound : System.Sound law s) (settled : (s.slot i).Settled c)
    (focus : s.kernel.taskNow = some i → (s.tasks i).user ≠ none)
    (wakes : s.endsWait i e = true → (s.tasks i).timeSleep < 0) : slot.Settled c := by
  cases change with
  | move move => exact move.settled sound settled focus wakes
  | stay => exact settled.kept rfl rfl rfl rfl
  | decide decides offer leaving =>
    rename_i chosen leaves slot
    have selected : (slot.select chosen).Settled c :=
      (decides.settled settled wakes).kept (by simp) (by simp) (by simp) (by simp)
    refine selected.retire fun leaves => ?_
    obtain ⟨_,now,running,_⟩ := leaving leaves
    simpa using decides.bound (focus now) now running

namespace System

open Kernel

variable {c : Config n} {law : Lawful c.strategy} {s t : System c} {u k' : Kernel c}

structure Orderly (s : System c) : Prop where
  settled : ∀ i,(s.slot i).Settled c
  focus : ∀ i,s.kernel.taskNow = some i → (s.tasks i).user ≠ none
  unlocked : s.kernel.fsmState = .sleeping → s.kernel.kstate ≠ .locked

theorem decided_focus (filed : Filed law u) (decided : Decided law u k' next)
    (transit : Transit u next k'.taskNow k'.fsmState out)
    (idle : u.fsmState = .sleeping → u.noTasks = false → ∀ i,u.taskNow = some i → (u.tasks i).user ≠ none)
    (ceased : u.fsmState = .exiting → u.taskNow = none) (i : Fin n) (now : k'.taskNow = some i) :
    (k'.tasks i).user ≠ none := by
  rw [decided.user]
  have chosen : ∀ j,next = some j → (u.tasks j).user ≠ none := by
    rintro j rfl
    have busy := decided.busy filed
    rwa [decided.user] at busy
  rw [now] at transit
  generalize k'.fsmState = f at transit
  generalize at_ : some i = now' at transit
  cases transit with
  | keep | switch | wake => cases at_; exact chosen i rfl
  | sleep _ _ _ placed => cases at_; exact mt (filed.free i).mpr placed
  | exit => cases at_
  | idle asleep busy => exact idle asleep busy i at_.symm
  | ceased done => rw [ceased done] at at_; cases at_

theorem ticked_focus (orderly : Orderly s) (ticked : Ticked law s.kernel.fresh u elapsed) (some_ : u.noTasks = false) (i : Fin n) (now : u.taskNow = some i) :
    (u.tasks i).user ≠ none := by
  intro freed
  have before : s.kernel.taskNow = some i := ticked.taskNow.symm.trans now
  obtain ⟨dynamic,_,all⟩ := ticked.alone before (orderly.focus i before) freed
  rw [(noTasks_iff ticked.filed).mpr ⟨dynamic,all⟩] at some_
  cases some_

theorem yielded_ready (orderly : Orderly s) (filed : Filed law s.kernel) (now : s.kernel.taskNow = some i)
    (awake : ¬(s.tasks i).timeSleep < 0) : s.place i = .ready := by
  have bound : s.place i ≠ .free := mt (filed.free i).mp (orderly.focus i now)
  have listed : s.place i ≠ .asleep := by
    cases aware : c.strategy.api.sleepEvent with
    | true => exact fun asleep => awake (((orderly.settled i).asleep aware).mp asleep).1
    | false => exact law.place_ne_asleep aware
  cases at_ : s.place i with
  | free => exact absurd at_ bound
  | asleep => exact absurd at_ listed
  | ready => rfl

theorem Orderly.step (sound : Sound law s) (orderly : Orderly s) (wakes : s.wakesAsleep e = true)
    (stepped : Stepped law s t e) : Orderly t := by
  have settled : ∀ i,(t.slot i).Settled c := fun i =>
    (stepped.change sound i).settled sound (orderly.settled i) (orderly.focus i) (of_decide_eq_true wakes i)
  suffices (∀ i,t.kernel.taskNow = some i → (t.tasks i).user ≠ none) ∧
      (t.kernel.fsmState = .sleeping → t.kernel.kstate ≠ .locked) from ⟨settled,this.1,this.2⟩
  cases stepped with
  | quiet _ quiet =>
    refine ⟨fun i now => ?_,fun asleep locked => ?_⟩
    · have before : s.kernel.taskNow = some i := quiet.taskNow.symm.trans now
      have busy := orderly.focus i before
      have same := (quiet.moves i).user busy (by simp [isStarted,before])
      exact fun free => busy (same.symm.trans free)
    · rw [quiet.fsmState] at asleep
      rcases quiet.lock locked with held | ⟨_,calls⟩
      · exact orderly.unlocked asleep held
      · obtain ⟨i,calls⟩ := Option.isSome_iff_exists.mp calls
        have running := (sound.contexts.task (caller_executes calls).1).1
        simp [asleep,FsmState.running] at running
  | start off launched phase armed reached =>
    rename_i u next
    refine ⟨fun i now => ?_,fun _ => by rw [launched.kstate]; simp⟩
    rcases reached with ⟨j,rfl,at_,_⟩ | ⟨first,_,at_,placed,_⟩
    · rw [now] at at_
      cases at_
      exact launched.busy
    · rw [now] at at_
      cases at_
      have user := congrArg (fun s => s.task.user) (launched.slots i)
      simp only [slot_task,select_task] at user
      rw [show (t.tasks i).user = _ from user]
      exact mt (launched.ready.free i).mpr placed
  | tick legal before ticked unlocked decided transit loads phase =>
    refine ⟨decided_focus ticked.filed decided transit (fun _ => ticked_focus orderly ticked) fun ceased => ?_,fun _ => ?_⟩
    · rw [ticked.taskNow]
      exact (sound.contexts.exiting (ticked.fsmState.symm.trans ceased)).2.1
    · rw [decided.kstate]
      simpa [isLocked] using unlocked
  | lockedTick legal before ticked locked exec phase =>
    have held : s.kernel.kstate = .locked := by
      rw [isLocked,decide_eq_true_eq,ticked.kstate] at locked
      exact locked
    refine ⟨fun i now freed => ?_,fun asleep => ?_⟩
    · have before : s.kernel.taskNow = some i := ticked.taskNow.symm.trans now
      have asleep := (ticked.alone before (orderly.focus i before) freed).2.1
      exact orderly.unlocked asleep held
    · exact absurd held (orderly.unlocked (ticked.fsmState.symm.trans asleep))
  | force executes waits bound before named forced decided transit loads phase armed =>
    rename_i i call user u j next out
    obtain ⟨running,_⟩ := sound.contexts.task executes
    have live : u.fsmState.running = true := by rw [forced.fsmState]; exact running
    refine ⟨decided_focus forced.filed decided transit (fun asleep => ?_) (fun ceased => ?_),fun asleep => ?_⟩
    · simp [asleep,FsmState.running] at live
    · simp [ceased,FsmState.running] at live
    · rw [decided.kstate]
      obtain ⟨slot,slots,⟨_,_,_,released⟩ | ⟨awake,_,_,rfl,kept⟩⟩ := forced.slots
      · rw [released]
        split
        · simp
        · assumption
      · -- The yielding task is runnable, so there is a next task.
        have ready : u.place j = .ready := by
          have at_ := congrArg (fun f => (f j).place) slots
          simp only [Function.update_self] at at_
          exact at_.trans (yielded_ready orderly sound.filed forced.now awake)
        have idle : ¬(u.tasks j).timeSleep < 0 := by
          have at_ := congrArg (fun f => (f j).task.timeSleep) slots
          simp only [Function.update_self] at at_
          rw [show (u.tasks j).timeSleep = (s.tasks j).timeSleep from at_]
          exact awake
        rw [asleep] at transit
        generalize t.kernel.taskNow = now at transit
        cases transit with
        | sleep _ _ _ _ => exact absurd (nextTask_none forced.filed decided.called ready).2 idle
        | idle asleep _ => simp [asleep,FsmState.running] at live
  | noForce executes waits bound before kernel exec phase armed =>
    refine ⟨fun i => ?_,?_⟩
    · rw [tasks,kernel]; exact orderly.focus i
    · rw [kernel]; exact orderly.unlocked
  | stop exits kernel exec phase armed =>
    obtain ⟨dynamic,off,_⟩ := sound.contexts.exiting (sound.contexts.trap exits)
    have shape : t.kernel = {s.kernel.fresh with fsmState := .none,kstate := .ready} := by
      rw [kernel,onStop,if_pos dynamic]
    refine ⟨fun i now => ?_,fun _ => by rw [shape]; simp⟩
    rw [shape] at now
    rw [show s.kernel.taskNow = some i from now] at off
    cases off

theorem initial_orderly (law : Lawful c.strategy) : Orderly (initial c) := by
  have awake : ∀ i,¬((initial c).slot i).task.timeSleep < 0 := fun _ => lt_irrefl 0
  refine ⟨fun i => ⟨fun _ => ?_,fun flagged => ?_,fun _ => awake i⟩,fun i now => ?_,fun asleep => ?_⟩
  · have free : ((initial c).slot i).place = .free := law.initial_free
    simp [free,awake i]
  · cases flagged
  · cases now
  · cases asleep

end System

theorem Slot.Settled.offered {c : Config n} {s : Slot} (settled : s.Settled c) (clear : s.task.sleepPending = false)
    (offer : s.Offered c true) : ¬s.task.timeSleep < 0 := by
  obtain ⟨ready,awake⟩ := offer rfl
  cases aware : c.strategy.api.sleepEvent with
  | false => exact awake aware
  | true =>
    intro asleep
    have listed := (settled.asleep aware).mpr ⟨asleep,clear⟩
    rw [ready] at listed
    cases listed

theorem Slot.selected_turn {c : Config n} {s : Slot} {elapsed : Int}
    (selected : .selected ∈ (s.turn c gone recovered elapsed).notices) : .selected ∈ s.notices := by
  have yields : (s.consumeYield c).notices = s.notices := rfl
  unfold turn at selected
  split at selected
  · split at selected
    · unfold unbind at selected
      rw [yields,List.mem_append] at selected
      rcases selected with exits | old
      · cases user : (s.consumeYield c).task.user <;> simp [user] at exits
      · exact old
    · have entered : (if (s.consumeYield c).task.sleepPending then (s.consumeYield c).settle c
          else s.consumeYield c).notices = s.notices := by split <;> rfl
      unfold advanceSleep at selected
      dsimp only at selected
      split at selected
      · rwa [entered] at selected
      · split at selected
        · rwa [entered] at selected
        · split at selected
          · rwa [entered] at selected
          · rw [entered] at selected
            by_cases aware : c.strategy.api.sleepEvent = true <;> simpa [Config.wakeNotices,aware] using selected
  · unfold trackDuration at selected
    split at selected
    · dsimp only at selected
      split at selected
      · simpa [yields] using selected
      · exact selected
    · exact selected

theorem Decides.unselected {c : Config n} {s : System c} {slot : Slot} (decides : Decides s i e slot phase) :
    .selected ∉ slot.notices := by
  cases decides with
  | launch =>
    unfold Slot.launch
    split <;> exact List.not_mem_nil
  | turn => exact fun selected => List.not_mem_nil (selected_turn selected)
  | enter | yield | pass => exact List.not_mem_nil

namespace Move

variable {c : Config n} {s : System c} {i : Fin n} {slot : Slot}

theorem notices (move : Move s i e slot phase) : .woke ∉ slot.notices ∧ .selected ∉ slot.notices := by
  cases move with
  | unbind => cases user : (s.tasks i).user <;> simp [Slot.unbind,fresh]
  | _ => simp [fresh,Slot.modify,withTs,settleIf]

theorem pending (move : Move s i e slot phase) (soft : c.mode.isHrt = false) (started : s.kernel.isStarted = true)
    (focus : s.caller = some i → s.kernel.taskNow = some i) (flagged : slot.task.sleepPending = true) :
    (s.tasks i).sleepPending = true ∨ s.kernel.taskNow = some i := by
  cases move with
  | bindHrt hard => rw [soft] at hard; cases hard
  | unbind => cases flagged
  | sleep calls | sleepUntil calls | yieldSleep calls | yield calls | wait calls | exitTask calls
  | returnFromRun calls => exact .inr (focus calls)
  | scheduleTaskRemoval => exact .inr (by simpa using (Bool.and_eq_true_iff.mp flagged).1)
  | suspend => exact .inr (by simpa [started] using (Bool.and_eq_true_iff.mp flagged).1)
  | stepAside now => exact .inr now
  | _ => exact .inl flagged

end Move

-- A hard kernel's HrtOnSwitchedOut would put a task to sleep that is not m_task_now any more.

namespace Change

variable {c : Config n} {s : System c} {i : Fin n} {slot : Slot}

theorem selects_awake (change : Change s i e slot phase now) (soft : c.mode.isHrt = false)
    (settled : (s.slot i).Settled c) (wakes : s.endsWait i e = true → (s.tasks i).timeSleep < 0)
    (only : s.kernel.isStarted = true → (s.tasks i).sleepPending = true → s.kernel.taskNow = some i)
    (selected : .selected ∈ slot.notices) : ¬slot.task.timeSleep < 0 := by
  cases change with
  | move move => exact absurd selected move.notices.2
  | stay => cases selected
  | decide decides offer leaving =>
    rename_i chosen leaves slot
    obtain rfl : leaves = false := unset (fun goes => (leaving goes).2.2.2.1) soft
    rw [retire_false] at selected ⊢
    rw [select_task]
    have picked : chosen = true := by
      refine by_contra fun other => decides.unselected ?_
      rwa [eq_false_of_ne_true other] at selected
    subst picked
    refine (decides.settled settled wakes).offered (eq_false_of_ne_true fun flagged => ?_) offer
    obtain ⟨started,other,before,_⟩ := decides.pending settled wakes flagged
    exact other (only started before)

theorem pending (change : Change s i e slot phase now) (soft : c.mode.isHrt = false)
    (settled : (s.slot i).Settled c) (wakes : s.endsWait i e = true → (s.tasks i).timeSleep < 0)
    (focus : s.caller = some i → s.kernel.taskNow = some i)
    (only : s.kernel.isStarted = true → (s.tasks i).sleepPending = true → s.kernel.taskNow = some i)
    (started : now.isSome = true) (flagged : slot.task.sleepPending = true) : now = some i := by
  cases change with
  | move move =>
    rcases move.pending soft started focus flagged with before | at_
    · exact only started before
    · exact at_
  | stay => exact only started flagged
  | decide decides offer leaving =>
    rename_i chosen leaves slot
    obtain rfl : leaves = false := unset (fun goes => (leaving goes).2.2.2.1) soft
    rw [retire_false,select_task] at flagged
    obtain ⟨started,other,before,_⟩ := decides.pending settled wakes flagged
    exact absurd (only started before) other

end Change

namespace System

variable {c : Config n} {law : Lawful c.strategy} {s t : System c}

structure Soft (s : System c) : Prop where
  pending : s.kernel.isStarted = true → ∀ i,(s.tasks i).sleepPending = true → s.kernel.taskNow = some i
  selected : ∀ i,.selected ∈ s.kernel.notices i → ¬(s.tasks i).timeSleep < 0

theorem Soft.step (soft : c.mode.isHrt = false) (sound : Sound law s) (orderly : Orderly s) (before : Soft s)
    (wakes : s.wakesAsleep e = true) (stepped : Stepped law s t e) : Soft t := by
  refine ⟨fun started i flagged => ?_,fun i selected => ?_⟩
  · exact (stepped.change sound i).pending soft (orderly.settled i) (of_decide_eq_true wakes i) (sound.contexts.focus i)
      (fun running => before.pending running i) started flagged
  · exact (stepped.change sound i).selects_awake soft (orderly.settled i) (of_decide_eq_true wakes i)
      (fun running => before.pending running i) selected

end System

end SuperTinyKernel
