import SuperTinyKernel.Suspension

namespace SuperTinyKernel

open Transition KernelTask Slot

-- Tasks that are blocked in Wait, in soft and in hard real-time kernels.

namespace KernelTask

variable {t : KernelTask} {m : Mode} {elapsed : Int}

def Matched (t : KernelTask) : Prop := t.waitObj.state = .wait ↔ t.waitObj.isWaiting = true

theorem matched_finish (outcome : WaitState) (ends : outcome ≠ .wait) : (t.endWait outcome).Matched := by
  refine ⟨fun waits => absurd waits ends,fun waits => ?_⟩
  cases waits

theorem matched_tickSync (matched : t.Matched) : (t.tickSync m elapsed).Matched := by
  unfold tickSync tickEntry
  split
  · rename_i both
    obtain ⟨_,waiting⟩ := Bool.and_eq_true_iff.mp both
    split
    · rename_i waits
      refine ⟨fun _ => ?_,fun _ => waits⟩
      have same : (t.waitObj.tick elapsed).syncObj = t.waitObj.syncObj := syncObj_tick t.waitObj
      exact (congrArg Option.isSome same).trans waiting
    · exact matched_finish .timeout (by decide)
  · exact matched

theorem matched_dropWait (matched : t.Matched) : (t.dropWait m).Matched := by
  unfold dropWait
  split
  · exact ⟨fun waits => (by cases waits),fun waits => (by cases waits)⟩
  · exact matched

theorem tickSync_waiting (waits : (t.tickSync m elapsed).waitObj.isWaiting = true) :
    t.waitObj.isWaiting = true ∧ (m.isSync = true → (t.waitObj.tick elapsed).state = .wait) ∧
      (t.tickSync m elapsed).timeSleep = t.timeSleep := by
  unfold tickSync tickEntry at waits ⊢
  split at waits
  · rename_i both
    split at waits
    · rename_i on
      rw [if_pos both,if_pos on]
      exact ⟨(Bool.and_eq_true_iff.mp both).2,fun _ => on,rfl⟩
    · cases waits
  · rename_i either
    rw [if_neg either]
    exact ⟨waits,fun sync => absurd (by rw [sync,waits]; rfl) either,rfl⟩

theorem dropWait_isWaiting (waits : (t.dropWait m).waitObj.isWaiting = true) : t.waitObj.isWaiting = true := by
  unfold dropWait at waits
  split at waits
  · cases waits
  · exact waits

theorem dropWait_waiting (sync : m.isSync = true) : (t.dropWait m).waitObj.isWaiting = false := by
  unfold dropWait
  split
  · rfl
  · rename_i either
    simpa [sync] using either

end KernelTask

namespace Slot

variable {c : Config n} {s : Slot} {elapsed : Int}

theorem waitObj_turn : (s.turn c gone recovered elapsed).task.waitObj = s.task.waitObj := by
  by_cases both : s.task.timeSleep < 0 ∧ gone = true
  · rw [both.2,turn_gone both.1]
    exact (congrArg waitObj fixed_consumeYield :)
  · exact (congrArg waitObj (fixed_turn fun asleep => eq_false_of_ne_true fun goes => both ⟨asleep,goes⟩) :)

theorem waitObj_retire : (s.retire c leaves).task.waitObj = s.task.waitObj := (congrArg waitObj fixed_retire :)

end Slot

namespace System

variable {c : Config n}

theorem endsWait_waiting {s : System c} {law : Lawful c.strategy} (filed : Kernel.Filed law s.kernel)
    (ends : s.endsWait i e = true) : (s.tasks i).waitObj.isWaiting = true := by
  cases e with
  | wake o all => 
    have linked := (Kernel.signalled_waiting filed (of_decide_eq_true ends)).2
    exact (isWaiting_iff _).mpr ⟨o,linked⟩
  | cancelTaskWait j => exact (Bool.and_eq_true_iff.mp ends).2
  | tick elapsed => exact (Bool.and_eq_true_iff.mp (Bool.and_eq_true_iff.mp ends).1).2
  | _ => cases ends

-- Wait() is called by no task that is suspended or pending removal.
def waitsFree (s : System c) : Event n → Bool
  | .wait _ _ => decide (∀ i,s.caller = some i → c.mode.isSync = true → s.kernel.isLocked = false →
      (s.tasks i).suspended = false ∧ (s.tasks i).removePending = false)
  | _ => true

def keepsWaiting (s : System c) (e : Event n) : Bool :=
  decide (∀ i,(s.tasks i).waitObj.isWaiting = true → s.endsWait i e = false → s.switchesOut i e = true →
    (s.tasks i).hrt.periodicity ≤ (s.tasks i).hrt.duration)

end System

structure Slot.Blocks (slot : Slot) (phase : Phase) : Prop where
  infinite : slot.task.timeSleep = -waitInfinite
  unsuspended : slot.task.suspended = false
  staying : slot.task.removePending = false
  bound : slot.task.user ≠ none
  phase : phase = .force .wait ∨ phase = .spin .wait

namespace System

variable {c : Config n}

structure Blocked (s : System c) (i : Fin n) : Prop extends Blocks (s.slot i) (s.phase i) where
  sync : c.mode.isSync = true
  started : s.kernel.isStarted = true

theorem Blocked.asleep {s : System c} (blocked : s.Blocked i) : (s.tasks i).timeSleep < 0 :=
  infinite_sleeping blocked.infinite

theorem Blocked.silent {s : System c} (blocked : s.Blocked i) : s.caller ≠ some i := by
  intro calls
  have user := (caller_executes calls).2
  rcases blocked.phase with waits | waits <;> rw [waits] at user <;> cases user

end System

namespace Move

variable {c : Config n} {s : System c} {i : Fin n} {slot : Slot}

theorem blocks (move : Move s i e slot phase) (contexts : System.Contexts s) (free : s.waitsFree e = true)
    (before : (s.tasks i).waitObj.isWaiting = true → s.Blocked i) (waits : slot.task.waitObj.isWaiting = true) :
    slot.Blocks phase ∧ c.mode.isSync = true ∧ s.kernel.isStarted = true := by
  have kept : ∀ {slot : Slot},slot.task.timeSleep = (s.tasks i).timeSleep → slot.task.suspended = (s.tasks i).suspended →
      slot.task.removePending = (s.tasks i).removePending → slot.task.user = (s.tasks i).user → s.Blocked i →
      slot.Blocks (s.phase i) ∧ c.mode.isSync = true ∧ s.kernel.isStarted = true := by
    intro slot time suspended removed user blocked
    exact ⟨⟨time.trans blocked.infinite,suspended.trans blocked.unsuspended,removed.trans blocked.staying,
      fun unbound => blocked.bound (user.symm.trans unbound),blocked.phase⟩,blocked.sync,blocked.started⟩
  cases move with
  | bind _ unbound | bindHrt _ unbound => exact absurd unbound (before waits).bound
  | unbind _ off =>
    have on := (before waits).started
    rw [off] at on
    cases on
  | sleep caller | sleepUntil caller | yieldSleep caller | yield caller => exact absurd caller (before waits).silent
  | wait caller sync unlocked =>
    obtain ⟨unsuspended,staying⟩ := of_decide_eq_true free i caller sync unlocked
    have started : s.kernel.isStarted = true := by simp [Kernel.isStarted,contexts.focus i caller]
    exact ⟨⟨rfl,unsuspended,staying,contexts.bound i caller,.inl rfl⟩,sync,started⟩
  | exitTask caller | returnFromRun caller =>
    have linked := (dropWait_isWaiting waits)
    exact absurd caller (before linked).silent
  | scheduleTaskRemoval =>
    have linked := (dropWait_isWaiting waits)
    have dropped := dropWait_waiting (t := s.tasks i) (before linked).sync
    rw [show ((s.tasks i).dropWait c.mode).waitObj.isWaiting = true from waits] at dropped
    cases dropped
  | signal | cancel => cases waits
  | cancelSleep unlinked => exact absurd ⟨(before waits).sync,waits⟩ unlinked
  | suspend _ _ _ _ awake =>
    exact absurd (before waits).asleep awake
  | resume _ _ suspended =>
    have unsuspended := (before waits).unsuspended
    rw [show (s.slot i).task.suspended = true from suspended] at unsuspended
    cases unsuspended
  | leave _ spins other =>
    rcases (before waits).phase with phase | phase <;> rw [spins] at phase <;> cases phase
    exact absurd rfl other
  | leaveExit _ spins => rcases (before waits).phase with phase | phase <;> rw [spins] at phase <;> cases phase
  | leaveWait _ _ awake | stepAside _ awake => exact absurd (before waits).asleep awake
  | _ => exact kept rfl rfl rfl rfl (before waits)

theorem matched (move : Move s i e slot phase) (matched : (s.tasks i).Matched)
    (before : (s.tasks i).waitObj.isWaiting = true → s.Blocked i) : slot.task.Matched := by
  cases move with
  | wait => exact ⟨fun _ => rfl,fun _ => rfl⟩
  | exitTask | returnFromRun | scheduleTaskRemoval => exact matched_dropWait matched
  | signal => exact matched_finish .signaled (by decide)
  | cancel => exact matched_finish .cancelled (by decide)
  | leaveWait _ _ awake =>
    refine ⟨fun waits => (by cases waits),fun waits => ?_⟩
    exact absurd (before waits).asleep awake
  | _ => exact matched

end Move

namespace Decides

variable {c : Config n} {s : System c} {i : Fin n} {slot : Slot}

theorem blocks (decides : Decides s i e slot phase) (before : (s.tasks i).waitObj.isWaiting = true → s.Blocked i)
    (waits : slot.task.waitObj.isWaiting = true) :
    slot.Blocks phase ∧ (s.tasks i).waitObj.isWaiting = true ∧ s.endsWait i e = false := by
  cases decides with
  | launch =>
    have linked : (s.tasks i).waitObj.isWaiting = true := by
      unfold Slot.launch at waits
      split at waits <;> exact waits
    have blocked := before linked
    unfold Slot.launch
    split <;>
      exact ⟨⟨blocked.infinite,blocked.unsuspended,blocked.staying,blocked.bound,blocked.phase⟩,linked,rfl⟩
  | @turn elapsed gone _ _ _ only =>
    rw [withTs,waitObj_turn] at waits
    obtain ⟨linked,on,time⟩ := tickSync_waiting waits
    have blocked := before linked
    obtain rfl : gone = false := unset (fun goes => (only goes).2) blocked.staying
    have infinite : ((s.slot i).fresh.tickSync c elapsed).task.timeSleep = -waitInfinite := time.trans blocked.infinite
    obtain ⟨user,removed,_,suspended,_⟩ := tickSync_fields (m := c.mode) (s.tasks i)
    refine ⟨⟨(turn_infinite infinite).1,?_,?_,?_,blocked.phase⟩,linked,?_⟩
    · exact (turn_infinite infinite).2.1.trans (suspended.trans blocked.unsuspended)
    · exact removePending_turn.trans (removed.trans blocked.staying)
    · intro free
      exact blocked.bound (user.symm.trans (user_turn.symm.trans free))
    · have on : c.mode.isSync = true → ((s.tasks i).waitObj.tick elapsed).state = .wait := on
      simpa [System.endsWait] using fun sync _ => on sync
  | enter _ forces =>
    have blocked := before waits
    refine ⟨⟨blocked.infinite,blocked.unsuspended,blocked.staying,blocked.bound,.inr ?_⟩,waits,rfl⟩
    rcases blocked.phase with phase | phase <;> rw [forces] at phase <;> cases phase
    rfl
  | yield _ _ awake => exact absurd (before waits).asleep awake
  | pass =>
    have blocked := before waits
    exact ⟨⟨blocked.infinite,blocked.unsuspended,blocked.staying,blocked.bound,blocked.phase⟩,waits,rfl⟩

theorem matched (decides : Decides s i e slot phase) (matched : (s.tasks i).Matched) : slot.task.Matched := by
  cases decides with
  | launch =>
    unfold Slot.launch
    split <;> exact matched
  | turn =>
    unfold Matched
    rw [withTs,waitObj_turn]
    exact matched_tickSync matched
  | enter | yield | pass => exact matched

end Decides

namespace Change

variable {c : Config n} {s : System c} {i : Fin n} {slot : Slot}

theorem blocks (change : Change s i e slot phase now) (contexts : System.Contexts s) (settled : ∀ j,(s.slot j).Settled c)
    (wakes : s.wakesAsleep e = true) (free : s.waitsFree e = true) (keeps : s.keepsWaiting e = true)
    (before : (s.tasks i).waitObj.isWaiting = true → s.Blocked i) (waits : slot.task.waitObj.isWaiting = true) :
    slot.Blocks phase ∧ c.mode.isSync = true ∧ s.kernel.isStarted = true := by
  cases change with
  | move move => exact move.blocks contexts free before waits
  | stay _ forces =>
    have blocked := before waits
    refine ⟨⟨blocked.infinite,blocked.unsuspended,blocked.staying,blocked.bound,.inr ?_⟩,blocked.sync,blocked.started⟩
    rcases blocked.phase with phase | phase <;> rw [forces] at phase <;> cases phase
    rfl
  | decide decides offer leaving =>
    rename_i chosen leaves slot
    rw [waitObj_retire,select_task] at waits
    obtain ⟨blocks,linked,on⟩ := decides.blocks before waits
    have blocked := before linked
    have asleep := infinite_sleeping blocks.infinite
    refine ⟨⟨?_,?_,?_,?_,blocks.phase⟩,blocked.sync,blocked.started⟩
    · -- HrtOnSwitchedOut leaves the sleep of a task alone whose period is over.
      unfold retire
      split
      · rename_i goes
        have ceased := of_decide_eq_true keeps i linked on (decides.switchesOut asleep settled wakes (leaving goes))
        rw [← (decides.hrt asleep).1] at ceased
        rw [hrtOnSwitchedOut_eq,select_task]
        exact (if_neg (not_lt.mpr ceased)).trans blocks.infinite
      · rw [select_task]; exact blocks.infinite
    · rw [suspended_retire,select_task]; exact blocks.unsuspended
    · rw [removePending_retire,select_task]; exact blocks.staying
    · rw [user_retire,select_task]; exact blocks.bound

theorem matched (change : Change s i e slot phase now) (matched : (s.tasks i).Matched)
    (before : (s.tasks i).waitObj.isWaiting = true → s.Blocked i) : slot.task.Matched := by
  cases change with
  | move move => exact move.matched matched before
  | stay => exact matched
  | decide decides =>
    unfold Matched
    rw [waitObj_retire,select_task]
    exact decides.matched matched

end Change

namespace System

open Kernel

variable {c : Config n} {law : Lawful c.strategy} {s t : System c}

theorem Stepped.started (stepped : Stepped law s t e) (sound : Sound law s) (started : s.kernel.isStarted = true)
    (bound : (t.tasks i).user ≠ none) : t.kernel.isStarted = true := by
  have decided : ∀ {u : Kernel c} {next out},u.taskNow = s.kernel.taskNow → Filed law u → Decided law u t.kernel next →
      Transit u next t.kernel.taskNow t.kernel.fsmState out → t.kernel.isStarted = true := by
    intro u next out same filed decided transit
    have kept : u.taskNow.isSome = true := by rw [same]; exact started
    have left : u.noTasks = false := by
      refine eq_false_of_ne_true fun none => bound ?_
      rw [show (t.tasks i).user = _ from decided.user i]
      exact ((noTasks_iff filed).mp none).2 i
    generalize current : t.kernel.taskNow = now at transit
    generalize t.kernel.fsmState = state at transit
    rw [Kernel.isStarted,current]
    cases transit with
    | exit _ none => rw [none] at left; cases left
    | idle | ceased => exact kept
    | _ => rfl
  cases stepped with
  | quiet _ quiet => rw [Kernel.isStarted,quiet.taskNow]; exact started
  | start off launched phase armed reached =>
    rcases reached with ⟨_,_,now,_⟩ | ⟨_,_,now,_⟩ <;> simp [Kernel.isStarted,now]
  | tick legal before ticked unlocked decides transit => exact decided ticked.taskNow ticked.filed decides transit
  | lockedTick legal before ticked => rw [Kernel.isStarted,ticked.taskNow]; exact started
  | force executes waits bound before named forced decides transit => exact decided forced.taskNow forced.filed decides transit
  | noForce executes waits bound before kernel => rw [kernel]; exact started
  | stop exits kernel =>
    have off := (sound.contexts.exiting (sound.contexts.trap exits)).2.1
    simp [Kernel.isStarted,off] at started

theorem reached_blocked (law : Lawful c.strategy)
    (run : Run step (fun s e => (s.waitsFree e && s.keepsWaiting e) = true) (initial c) s) :
    Sound law s ∧ Orderly s ∧ ∀ i,(s.tasks i).Matched ∧ ((s.tasks i).waitObj.isWaiting = true → s.Blocked i) := by
  refine Run.keeps run
    (I := fun s => Sound law s ∧ Orderly s ∧ ∀ i,(s.tasks i).Matched ∧ ((s.tasks i).waitObj.isWaiting = true → s.Blocked i))
    ⟨⟨initial_filed law,initial_contexts⟩,initial_orderly law,fun i => ?_⟩ ?_
  · exact ⟨⟨fun waits => (by cases waits),fun waits => (by cases waits)⟩,fun waits => (by cases waits)⟩
  intro s e t ⟨sound,orderly,before⟩ allowed taken
  obtain ⟨free,keeps⟩ := Bool.and_eq_true_iff.mp allowed
  have stepped := sound.stepped taken
  have wakes : s.wakesAsleep e = true := by
    refine decide_eq_true fun i ends => ((before i).2 ?_).asleep
    exact endsWait_waiting sound.filed ends
  refine ⟨sound.step taken,orderly.step sound wakes stepped,fun i => ⟨?_,fun waits => ?_⟩⟩
  · exact (stepped.change sound i).matched (before i).1 (before i).2
  · obtain ⟨blocks,sync,started⟩ := (stepped.change sound i).blocks sound.contexts orderly.settled wakes free keeps
      (before i).2 waits
    exact ⟨blocks,sync,stepped.started sound started blocks.bound⟩

theorem waiting_sleeps (b : Bundled) (chosen : c.strategy = b.strategy n)
    (run : Run step (fun s e => (s.waitsFree e && s.keepsWaiting e) = true) (initial c) s)
    (waits : (s.tasks i).waitObj.state = .wait) : (s.tasks i).isSleeping = true := by
  obtain ⟨_,_,before⟩ := reached_blocked (b.law chosen) run
  exact (isSleeping_iff _).mpr ((before i).2 ((before i).1.mp waits)).asleep

def hardWait : List (Event 2) :=
  [.addTaskHrt ⟨1,1,1,0⟩ 5 5 0,.addTaskHrt ⟨2,2,1,0⟩ 5 5 0,.start,.wait 0 waitInfinite,.force,.tick 1]

theorem hardWait_sleeps : ∃ s : System (hardKernel 2 (by decide)),
    Transition.exec step (initial _) hardWait = some s ∧ (s.tasks 0).waitObj.state = .wait ∧
      (s.tasks 0).isSleeping = true := by
  refine Transition.exec_shows (P := fun s => (s.tasks 0).waitObj.state = .wait) (by decide) ?_
  intro s ran waits
  have run := Run.ofExecAllowed (fun s e => s.waitsFree e && s.keepsWaiting e) (by decide) ran
  exact ⟨waits,waiting_sleeps (.roundRobin false) rfl run waits⟩

-- The only task waits: StateSleep calls HrtOnSwitchedOut on it, and the next period releases
-- it.
def hardWaitAlone : List (Event 1) := [.addTaskHrt ⟨1,1,1,0⟩ 2 2 0,.start,.wait 0 waitInfinite,.force,.tick 1,.tick 1]

theorem hardWaitAlone_runs : ∃ s : System (hardKernel 1 (by decide)),
    Run step (fun _ _ => True) (initial _) s ∧ (s.tasks 0).waitObj.state = .wait ∧
      (s.tasks 0).user ≠ none ∧ (s.tasks 0).isSleeping = false ∧ s.exec = some (.task 0) := by
  exact Run.found hardWaitAlone (by decide)

end System
end SuperTinyKernel
