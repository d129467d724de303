import SuperTinyKernel.Removal
import SuperTinyKernel.Sleeping

namespace SuperTinyKernel

open Transition KernelTask List Slot

-- The sleep ends at this tick. UpdateTaskState leaves a sleep alone that it delivers itself,
-- unless a wake came first.
def KernelTask.runsOut (elapsed : Int) (t : KernelTask) : Bool :=
  !(t.sleepPending && !t.wakePending) && !t.isSleepInfinite && !t.suspendPending && decide (0 ≤ t.timeSleep + elapsed)

namespace Slot

variable {c : Config n} {s : Slot} {elapsed : Int}

theorem advanceSleep_on (asleep : s.task.timeSleep < 0) (on : s.task.runsOut elapsed = false) :
    (s.advanceSleep c elapsed).task.timeSleep < 0 ∧ (s.advanceSleep c elapsed).notices = s.notices := by
  have entered : ∃ e : Slot,e = (if s.task.sleepPending then s.settle c else s) ∧
      e.task.timeSleep = s.task.timeSleep ∧ e.notices = s.notices := ⟨_,rfl,by split <;> exact ⟨rfl,rfl⟩⟩
  obtain ⟨e,same,time,notices⟩ := entered
  unfold advanceSleep
  rw [← same]
  dsimp only
  split
  · exact ⟨time ▸ asleep,notices⟩
  · rename_i moves
    split
    · exact ⟨infinite_sleeping rfl,notices⟩
    · rename_i continues
      have short : s.task.timeSleep + elapsed < 0 := by
        by_contra ceased
        simp only [Bool.not_eq_true,Bool.or_eq_false_iff] at moves
        simp only [not_and,ge_iff_le,not_le] at continues
        have free : s.task.suspendPending = false := eq_false_of_ne_true fun deferred => ceased (continues deferred)
        simp [runsOut,moves,free] at on
        omega
      rw [if_pos short]
      exact ⟨by simpa [advance,time] using short,notices⟩

theorem runsOut_consumeYield : (s.consumeYield c).task.runsOut elapsed = s.task.runsOut elapsed := by
  unfold consumeYield Kernel.consumeYield
  split <;> rfl

theorem turn_on (asleep : s.task.timeSleep < 0) (on : s.task.runsOut elapsed = false) :
    (s.turn c false recovered elapsed).task.timeSleep < 0 ∧ (s.turn c false recovered elapsed).notices = s.notices := by
  rw [turn_asleep asleep]
  refine advanceSleep_on ?_ ?_
  · simpa [consumeYield] using asleep
  · rw [runsOut_consumeYield,on]

end Slot

namespace System

open Kernel

variable {c : Config n}

def frees (s : System c) : Event n → Bool
  | .tick elapsed => decide (∀ i,(s.tasks i).removePending = true →
      ((s.tasks i).tickSync c.mode elapsed).runsOut elapsed = true → s.kernel.Departs elapsed i)
  | _ => true

-- A slot that is pending removal sleeps, with its sleep delivered unless it is still
-- m_task_now.
structure Leaving (s : System c) (i : Fin n) : Prop where
  dynamic : c.mode.isDynamic = true
  asleep : (s.tasks i).timeSleep < 0
  delivered : (s.tasks i).sleepPending = true → s.kernel.taskNow = some i

end System

namespace Move

open Kernel

variable {c : Config n} {law : Lawful c.strategy} {s : System c} {i : Fin n} {slot : Slot}

theorem leaving (move : Move s i e slot phase) (settled : (s.slot i).Settled c)
    (focus : s.caller = some i → s.kernel.taskNow = some i)
    (leaves : (s.tasks i).removePending = true → s.Leaving i) (removed : slot.task.removePending = true) :
    c.mode.isDynamic = true ∧ slot.task.timeSleep < 0 ∧
      (slot.task.sleepPending = true → s.kernel.taskNow = some i) := by
  have infinite : -waitInfinite < 0 := by decide
  have soon : (-1 : Int) < 0 := by decide
  have calls : ∀ {slot : Slot},slot.task.timeSleep < 0 → slot.task.removePending = (s.tasks i).removePending →
      s.kernel.taskNow = some i → slot.task.removePending = true → c.mode.isDynamic = true ∧ slot.task.timeSleep < 0 ∧
        (slot.task.sleepPending = true → s.kernel.taskNow = some i) := by
    intro slot asleep same now removed
    exact ⟨(leaves (same ▸ removed)).dynamic,asleep,fun _ => now⟩
  have kept : ∀ {slot : Slot},((s.tasks i).timeSleep < 0 → slot.task.timeSleep < 0) →
      slot.task.removePending = (s.tasks i).removePending → slot.task.sleepPending = (s.tasks i).sleepPending →
      slot.task.removePending = true → c.mode.isDynamic = true ∧ slot.task.timeSleep < 0 ∧
        (slot.task.sleepPending = true → s.kernel.taskNow = some i) := by
    intro slot time same flag removed
    have before := leaves (same ▸ removed)
    exact ⟨before.dynamic,time before.asleep,fun flagged => before.delivered (flag ▸ flagged)⟩
  cases move with
  | bind _ free | bindHrt _ free => exact absurd (leaves removed).asleep (settled.free free)
  | unbind => cases removed
  | sleep caller _ _ positive => exact calls (Int.neg_neg_of_pos positive) rfl (focus caller) removed
  | sleepUntil caller _ _ positive =>
    have := waitInfinite_gt
    exact calls (Int.neg_neg_of_pos (by omega)) rfl (focus caller) removed
  | yieldSleep caller => exact calls soon rfl (focus caller) removed
  | yield _ _ _ _ awake => exact absurd (leaves removed).asleep awake
  | wait caller => exact calls infinite rfl (focus caller) removed
  | exitTask caller dynamic | returnFromRun caller dynamic => exact ⟨dynamic,infinite,fun _ => focus caller⟩
  | scheduleTaskRemoval _ dynamic =>
    refine ⟨dynamic,infinite,fun flagged => ?_⟩
    simpa using (Bool.and_eq_true_iff.mp flagged).1
  | signal | cancel | cancelSleep => exact kept (fun _ => soon) rfl rfl removed
  | suspend _ stays | resume _ stays =>
    rw [show (s.tasks i).removePending = true from removed] at stays
    cases stays
  | stepAside now => exact calls soon rfl now removed
  | _ => exact kept id rfl rfl removed

theorem removing (move : Move s i e slot phase) (settled : (s.slot i).Settled c)
    (leaves : s.Leaving i) (removed : (s.tasks i).removePending = true) :
    slot.task.removePending = true ∨ slot.task.user = none := by
  cases move with
  | bind _ free | bindHrt _ free => exact absurd leaves.asleep (settled.free free)
  | unbind => exact .inr rfl
  | exitTask | returnFromRun | scheduleTaskRemoval => exact .inl rfl
  | _ => exact .inl removed

end Move

namespace KernelTask

theorem tickSync_asleep {t : KernelTask} (asleep : t.timeSleep < 0) : (t.tickSync m elapsed).timeSleep < 0 := by
  unfold tickSync tickEntry
  split
  · split
    · exact asleep
    · exact (by decide : (-1 : Int) < 0)
  · exact asleep

end KernelTask

namespace Decides

open Kernel

variable {c : Config n} {s : System c} {i : Fin n} {slot : Slot}

theorem leaving (decides : Decides s i e slot phase) (settled : (s.slot i).Settled c) (leaves : s.Leaving i)
    (frees : s.frees e = true) (removed : (s.tasks i).removePending = true) :
    .woke ∉ slot.notices ∧ (slot.place = .free ∧ slot.task.user = none ∧ slot.task.removePending = false ∨
      slot.task.timeSleep < 0 ∧ slot.task.removePending = true) := by
  cases decides with
  | launch =>
    unfold Slot.launch
    split <;> exact ⟨not_mem_nil,.inr ⟨leaves.asleep,removed⟩⟩
  | @turn elapsed gone _ _ _ _ departs =>
    have bound : (s.tasks i).user ≠ none := settled.busy leaves.asleep
    have asleep : ((s.slot i).fresh.tickSync c elapsed).task.timeSleep < 0 := tickSync_asleep leaves.asleep
    have flag : ((s.slot i).fresh.tickSync c elapsed).task.removePending = true :=
      (tickSync_fields _).2.1.trans removed
    rw [withTs]
    cases gone with
    | true =>
      rw [Slot.turn_gone asleep]
      refine ⟨fun woke => ?_,.inl ⟨rfl,rfl,rfl⟩⟩
      simp [Slot.unbind,Slot.consumeYield,Slot.tickSync,Slot.fresh] at woke
    | false =>
      have on : ((s.slot i).fresh.tickSync c elapsed).task.runsOut elapsed = false := by
        refine eq_false_of_ne_true fun ceased => ?_
        cases (departs bound).mpr (of_decide_eq_true frees i removed ceased)
      obtain ⟨sleeps,quiet⟩ := turn_on asleep on
      refine ⟨?_,.inr ⟨sleeps,removePending_turn.trans flag⟩⟩
      rw [quiet]
      exact not_mem_nil
  | enter | pass => exact ⟨not_mem_nil,.inr ⟨leaves.asleep,removed⟩⟩
  | yield _ _ awake => exact absurd leaves.asleep awake

theorem removing (decides : Decides s i e slot phase) (removed : slot.task.removePending = true) :
    (s.tasks i).removePending = true := by
  cases decides with
  | launch =>
    unfold Slot.launch at removed
    split at removed <;> exact removed
  | @turn _ gone _ _ _ only =>
    cases gone with
    | true => exact (only rfl).2
    | false =>
      rw [withTs,removePending_turn] at removed
      exact (tickSync_fields _).2.1.symm.trans removed
  | enter | yield | pass => exact removed

end Decides

theorem Slot.retire_asleep {c : Config n} {s : Slot} (asleep : s.task.timeSleep < 0) :
    (s.retire c leaves).task.timeSleep < 0 ∧ (s.retire c leaves).task.sleepPending = s.task.sleepPending := by
  unfold retire
  split
  · rw [hrtOnSwitchedOut_eq]
    refine ⟨?_,by simp [asleep]⟩
    dsimp only
    split
    · omega
    · exact asleep
  · exact ⟨asleep,rfl⟩

namespace Change

variable {c : Config n} {law : Lawful c.strategy} {s : System c} {i : Fin n} {slot : Slot}

theorem leaving (change : Change s i e slot phase now) (settled : (s.slot i).Settled c)
    (focus : s.caller = some i → s.kernel.taskNow = some i)
    (wakes : s.endsWait i e = true → (s.tasks i).timeSleep < 0) (frees : s.frees e = true)
    (leaves : (s.tasks i).removePending = true → s.Leaving i) (removed : slot.task.removePending = true) :
    c.mode.isDynamic = true ∧ slot.task.timeSleep < 0 ∧ (slot.task.sleepPending = true → now = some i) := by
  cases change with
  | move move => exact move.leaving settled focus leaves removed
  | stay => exact ⟨(leaves removed).dynamic,(leaves removed).asleep,(leaves removed).delivered⟩
  | decide decides =>
    rename_i chosen goes slot _ _
    rw [removePending_retire,select_task] at removed
    have pending := decides.removing removed
    rcases (decides.leaving settled (leaves pending) frees pending).2 with ⟨_,_,cleared⟩ | ⟨asleep,_⟩
    · rw [cleared] at removed; cases removed
    · have asleep : (slot.select chosen).task.timeSleep < 0 := by rw [select_task]; exact asleep
      refine ⟨(leaves pending).dynamic,(retire_asleep asleep).1,fun flagged => ?_⟩
      rw [(retire_asleep asleep).2,select_task] at flagged
      obtain ⟨_,other,before,_⟩ := decides.pending settled wakes flagged
      exact absurd ((leaves pending).delivered before) other

theorem unwoken (change : Change s i e slot phase now) (settled : (s.slot i).Settled c)
    (wakes : s.endsWait i e = true → (s.tasks i).timeSleep < 0) (frees : s.frees e = true) (leaves : s.Leaving i)
    (removed : (s.tasks i).removePending = true) :
    .woke ∉ slot.notices ∧ .selected ∉ slot.notices ∧ (slot.task.removePending = true ∨ slot.task.user = none) := by
  cases change with
  | move move => exact ⟨move.notices.1,move.notices.2,move.removing settled leaves removed⟩
  | stay => exact ⟨not_mem_nil,not_mem_nil,.inl removed⟩
  | decide decides offer =>
    rename_i chosen goes slot _
    obtain ⟨unwoken,freed⟩ := decides.leaving settled leaves frees removed
    have passed : chosen = false := by
      refine eq_false_of_ne_true fun picked => ?_
      subst picked
      rcases freed with ⟨free,_⟩ | ⟨asleep,_⟩
      · rw [(offer rfl).1] at free; cases free
      · refine (decides.settled settled wakes).offered (eq_false_of_ne_true fun flagged => ?_) offer asleep
        obtain ⟨_,other,before,_⟩ := decides.pending settled wakes flagged
        exact other (leaves.delivered before)
    rw [passed,select_false,retire_notices,removePending_retire,user_retire]
    exact ⟨unwoken,decides.unselected,freed.symm.imp And.right fun gone => gone.2.1⟩

theorem marked (change : Change s i e slot phase now) (unmarked : ¬(s.tasks i).removePending = true)
    (removed : slot.task.removePending = true) : .woke ∉ slot.notices ∧ .selected ∉ slot.notices := by
  cases change with
  | move move => exact move.notices
  | stay => exact absurd removed unmarked
  | decide decides =>
    rw [removePending_retire,select_task] at removed
    exact absurd (decides.removing removed) unmarked

end Change

namespace System

variable {c : Config n} {law : Lawful c.strategy} {s t : System c}

def Unseen (s : System c) (i : Fin n) : Prop := .woke ∉ s.kernel.notices i ∧ .selected ∉ s.kernel.notices i

theorem reached_leaving (law : Lawful c.strategy)
    (run : Run step (fun s e => (s.wakesAsleep e && s.frees e) = true) (initial c) s) :
    Sound law s ∧ Orderly s ∧ ∀ i,(s.tasks i).removePending = true → s.Leaving i ∧ s.Unseen i := by
  refine Run.keeps run
    (I := fun s => Sound law s ∧ Orderly s ∧ ∀ i,(s.tasks i).removePending = true → s.Leaving i ∧ s.Unseen i)
    ⟨⟨initial_filed law,initial_contexts⟩,initial_orderly law,fun i removed => (by cases removed)⟩ ?_
  intro s e t ⟨sound,orderly,leaves⟩ allowed taken
  obtain ⟨wakes,frees⟩ := Bool.and_eq_true_iff.mp allowed
  have stepped := sound.stepped taken
  refine ⟨sound.step taken,orderly.step sound wakes stepped,fun i removed => ⟨?_,?_⟩⟩
  · obtain ⟨dynamic,asleep,delivered⟩ := (stepped.change sound i).leaving (orderly.settled i) (sound.contexts.focus i)
      (of_decide_eq_true wakes i) frees (fun before => (leaves i before).1) removed
    exact ⟨dynamic,asleep,delivered⟩
  · by_cases before : (s.tasks i).removePending = true
    · obtain ⟨unwoken,unselected,_⟩ := (stepped.change sound i).unwoken (orderly.settled i) (of_decide_eq_true wakes i)
        frees (leaves i before).1 before
      exact ⟨unwoken,unselected⟩
    · exact (stepped.change sound i).marked before removed

-- From the step that sets STATE_REMOVE_PENDING until the slot is freed, no step wakes or
-- selects the task, and the flag stays.
theorem exited_never_returns (b : Bundled) (chosen : c.strategy = b.strategy n)
    (run : Run step (fun s e => (s.wakesAsleep e && s.frees e) = true) (initial c) s)
    (removed : (s.tasks i).removePending = true)
    (rest : Run step (fun u e => (u.wakesAsleep e && u.frees e) = true ∧ (u.tasks i).user ≠ none) s t) :
    .woke ∉ t.kernel.notices i ∧ .selected ∉ t.kernel.notices i ∧
      ((t.tasks i).removePending = true ∨ (t.tasks i).user = none) := by
  induction rest with
  | nil =>
    obtain ⟨_,_,leaves⟩ := reached_leaving (b.law chosen) run
    exact ⟨(leaves i removed).2.1,(leaves i removed).2.2,.inl removed⟩
  | snoc rest allowed taken ih =>
    obtain ⟨_,_,flag | free⟩ := ih
    · have reached := run.trans (rest.weaken fun _ _ both => both.1)
      obtain ⟨sound,orderly,leaves⟩ := reached_leaving (b.law chosen) reached
      obtain ⟨wakes,frees⟩ := Bool.and_eq_true_iff.mp allowed.1
      exact ((sound.stepped taken).change sound i).unwoken (orderly.settled i) (of_decide_eq_true wakes i) frees
        (leaves i flag).1 flag
    · exact absurd free allowed.2

def cancelSwitchedOut : List (Event 2) :=
  [.addTask ⟨1,1,1,0⟩,.addTask ⟨2,2,1,0⟩,.start,.exitTask,.force,.cancelTaskWait ⟨0,Nat.two_pos⟩]

theorem cancelSwitchedOut_gone : ∃ s t : System (dynamicKernel 2 (by decide)),
    Transition.exec step (initial _) cancelSwitchedOut = some s ∧ (s.tasks 0).timeSleep = -1 ∧
      s.step (.tick 1) = some t ∧ .woke ∉ t.kernel.notices 0 ∧ .selected ∉ t.kernel.notices 0 ∧
      ((t.tasks 0).removePending = true ∨ (t.tasks 0).user = none) := by
  have found : ∃ s : System (dynamicKernel 2 (by decide)),Transition.exec step (initial _) cancelSwitchedOut = some s ∧
      (s.tasks 0).removePending = true ∧ (s.tasks 0).timeSleep = -1 ∧ (s.wakesAsleep (.tick 1) && s.frees (.tick 1)) = true ∧
      (s.tasks 0).user ≠ none ∧ (s.step (.tick 1)).isSome = true := by decide
  obtain ⟨s,ran,removed,soon,allowed,bound,steps⟩ := found
  obtain ⟨t,taken⟩ := Option.isSome_iff_exists.mp steps
  have run := Run.ofExecAllowed (fun s e => s.wakesAsleep e && s.frees e) (by decide) ran
  exact ⟨s,t,ran,soon,taken,exited_never_returns (.roundRobin false) rfl run removed (.snoc .nil ⟨allowed,bound⟩ taken)⟩

-- CancelTaskWait on an exited task before its context switch: the tick takes it for the
-- executing one, lets its sleep run out and selects it.
def cancelExecuting : List (Event 1) := [.addTask ⟨1,1,1,0⟩,.start,.exitTask,.cancelTaskWait ⟨0,Nat.one_pos⟩]

theorem cancelExecuting_returns : ∃ s t : System (dynamicKernel 1 (by decide)),
    Run step (fun _ _ => True) (initial _) s ∧ (s.tasks 0).removePending = true ∧
      s.step (.tick 1) = some t ∧ .woke ∈ t.kernel.notices 0 ∧ .selected ∈ t.kernel.notices 0 ∧
      (t.tasks 0).user ≠ none ∧ (t.tasks 0).removePending = true := by
  simp only [exists_and_left]
  exact Run.found cancelExecuting (by decide)

end System
end SuperTinyKernel
