import SuperTinyKernel.Leaving

namespace SuperTinyKernel

open Transition KernelTask List Slot

namespace KernelTask

def suspendsAt (elapsed : Int) (t : KernelTask) : Bool :=
  t.isSleeping && !(t.sleepPending && !t.wakePending || t.isSleepInfinite) && t.suspendPending &&
    decide (t.timeSleep + elapsed ≥ 0)

theorem tickSync_still {t : KernelTask}
    (still : ¬(m.isSync = true ∧ t.waitObj.isWaiting = true ∧ (t.waitObj.tick elapsed).state ≠ .wait)) :
    (t.tickSync m elapsed).timeSleep = t.timeSleep ∧ (t.tickSync m elapsed).wakePending = t.wakePending := by
  unfold tickSync tickEntry
  split
  · rename_i both
    obtain ⟨sync,waiting⟩ := Bool.and_eq_true_iff.mp both
    split
    · exact ⟨rfl,rfl⟩
    · rename_i ends
      exact absurd ⟨sync,waiting,ends⟩ still
  · exact ⟨rfl,rfl⟩

end KernelTask

namespace Slot

variable {c : Config n} {s : Slot} {elapsed : Int}

theorem suspended_trackDuration : (s.trackDuration c recovered elapsed).task.suspended = s.task.suspended := by
  unfold trackDuration
  split <;> rfl

theorem suspended_consumeYield : (s.consumeYield c).task.suspended = s.task.suspended := by
  unfold consumeYield Kernel.consumeYield
  split <;> rfl

theorem suspended_retire : (s.retire c leaves).task.suspended = s.task.suspended := by
  unfold retire
  split
  · rw [hrtOnSwitchedOut_eq]
  · rfl

theorem timeSleep_consumeYield : (s.consumeYield c).task.timeSleep = s.task.timeSleep := by
  unfold consumeYield Kernel.consumeYield
  split <;> rfl

theorem advanceSleep_infinite (infinite : s.task.timeSleep = -waitInfinite) :
    s.advanceSleep c elapsed = if s.task.sleepPending then s.settle c else s := by
  have endless : s.task.isSleepInfinite = true := (isSleepInfinite_iff _).mpr infinite
  simp [advanceSleep,endless]

theorem turn_infinite (infinite : s.task.timeSleep = -waitInfinite) :
    (s.turn c false recovered elapsed).task.timeSleep = -waitInfinite ∧
      (s.turn c false recovered elapsed).task.suspended = s.task.suspended ∧
      (s.turn c false recovered elapsed).notices = s.notices := by
  have yields : (s.consumeYield c).task.timeSleep = -waitInfinite := timeSleep_consumeYield.trans infinite
  rw [turn_asleep (infinite_sleeping infinite),advanceSleep_infinite yields]
  split <;> exact ⟨yields,suspended_consumeYield,rfl⟩

theorem suspendsAt_consumeYield : (s.consumeYield c).task.suspendsAt elapsed = s.task.suspendsAt elapsed := by
  unfold consumeYield Kernel.consumeYield
  split <;> rfl

theorem hrt_advanceSleep : (s.advanceSleep c elapsed).task.hrt = s.task.hrt := by
  unfold advanceSleep settle
  dsimp only
  split <;> [skip; (split <;> [skip; split])] <;> (split <;> rfl)

theorem timeSleep_trackDuration : (s.trackDuration c recovered elapsed).task.timeSleep = s.task.timeSleep := by
  unfold trackDuration
  split <;> rfl

theorem hrt_turn (asleep : (s.turn c gone recovered elapsed).task.timeSleep < 0) :
    (s.turn c gone recovered elapsed).task.hrt = s.task.hrt ∧
      (s.turn c gone recovered elapsed).task.removePending = s.task.removePending := by
  have yields : (s.consumeYield c).task.hrt = s.task.hrt := by
    unfold consumeYield Kernel.consumeYield
    split <;> rfl
  by_cases sleeps : s.task.timeSleep < 0
  · cases gone with
    | true =>
      rw [turn_gone sleeps] at asleep
      exact absurd asleep (lt_irrefl 0)
    | false => exact ⟨by rw [turn_asleep sleeps,hrt_advanceSleep,yields],removePending_turn⟩
  · -- Counting does not put a task to sleep.
    have same : (s.turn c gone recovered elapsed).task.timeSleep = s.task.timeSleep := by
      rw [turn_awake sleeps,timeSleep_trackDuration,timeSleep_consumeYield]
    exact absurd (same ▸ asleep) sleeps

theorem turn_out (asleep : s.task.timeSleep < 0) (out : s.task.runsOut elapsed = true) :
    ¬(s.turn c false recovered elapsed).task.timeSleep < 0 := by
  rw [turn_asleep asleep]
  rw [← runsOut_consumeYield (c := c)] at out
  simp only [runsOut,Bool.and_eq_true,Bool.not_eq_true',decide_eq_true_eq] at out
  obtain ⟨⟨⟨delivered,finite⟩,free⟩,ceased⟩ := out
  unfold advanceSleep
  rw [if_neg (by rw [delivered,finite]; simp),if_neg (by rw [free]; simp),if_neg (not_lt.mpr ceased)]
  have entered : (if (s.consumeYield c).task.sleepPending then (s.consumeYield c).settle c else s.consumeYield c).task.timeSleep =
      (s.consumeYield c).task.timeSleep := by split <;> rfl
  rw [← entered] at ceased
  exact not_lt.mpr ceased

theorem suspended_advanceSleep (asleep : s.task.timeSleep < 0) (flag : (s.advanceSleep c elapsed).task.suspended = true) :
    s.task.suspended = true ∨ s.task.suspendsAt elapsed = true ∧ (s.advanceSleep c elapsed).task.timeSleep = -waitInfinite ∧
      (s.advanceSleep c elapsed).notices = s.notices := by
  have entered : (if s.task.sleepPending then s.settle c else s).task.suspended = s.task.suspended := by
    split <;> rfl
  unfold advanceSleep at flag ⊢
  dsimp only at flag ⊢
  split at flag
  · exact .inl (entered ▸ flag)
  · rename_i moves
    split at flag
    · rename_i commits
      right
      rw [if_neg moves,if_pos commits]
      refine ⟨?_,rfl,by split <;> rfl⟩
      simp only [suspendsAt,(isSleeping_iff _).mpr asleep,eq_false_of_ne_true moves,commits.1,
        decide_eq_true commits.2,Bool.not_false,Bool.and_self]
    · split at flag
      · exact .inl (entered ▸ flag)
      · exact .inl (entered ▸ flag)

end Slot

namespace System

open Kernel

variable {c : Config n}

-- The sleep of slot `i` ends at a finite time: the executing task starts another one, or the
-- wait of the task ends.
def shortensSleep (s : System c) (i : Fin n) : Event n → Bool
  | .sleep ticks => decide (s.caller = some i ∧ c.mode.isHrt = false ∧ s.kernel.isLocked = false ∧ 0 < ticks ∧
      ticks ≠ waitInfinite)
  | .sleepUntil timestamp => decide (s.caller = some i ∧ c.mode.isHrt = false ∧ s.kernel.isLocked = false ∧
      0 < timestamp - s.kernel.ticks ∧ timestamp - s.kernel.ticks < waitInfinite)
  | .switchToNext => decide (s.caller = some i ∧ s.kernel.isLocked = false)
  | e => s.endsWait i e

def sleepsThrough (s : System c) (i : Fin n) : Event n → Bool
  | .tick elapsed =>
    let t := (s.tasks i).tickSync c.mode elapsed
    t.isSleeping && (!t.runsOut elapsed || c.mode.isDynamic && t.removePending)
  | _ => (s.tasks i).isSleeping

-- HrtOnSwitchedOut is called on the sleeping slot `i`, by StateSwitch if the job is done, else
-- by StateSleep.
def switchesOut (s : System c) (i : Fin n) (e : Event n) : Bool :=
  c.mode.isHrt && decide (s.kernel.taskNow = some i) && s.kernel.fsmState.running && s.reschedules e &&
    ((s.tasks i).hrt.done || !(s.tasks i).removePending &&
      decide (∀ j,j ≠ i → (s.tasks j).user ≠ none → s.sleepsThrough j e = true))

def suspendedBy (s : System c) (i : Fin n) : Event n → Bool
  | .tick elapsed => (s.tasks i).suspended || ((s.tasks i).tickSync c.mode elapsed).suspendsAt elapsed
  | _ => (s.tasks i).suspended

-- The infinite sleep of a suspended task is not overwritten by its own calls, the end of its
-- wait or HrtOnSwitchedOut.
def keepsSuspended (s : System c) (e : Event n) : Bool :=
  decide (∀ i,(s.tasks i).suspended = true → s.shortensSleep i e = false) &&
    decide (∀ i,s.suspendedBy i e = true → s.switchesOut i e = true →
      (s.tasks i).hrt.periodicity ≤ (s.tasks i).hrt.duration)

structure Suspended (s : System c) (i : Fin n) : Prop where
  infinite : (s.tasks i).timeSleep = -waitInfinite
  delivered : s.kernel.isStarted = true → (s.tasks i).sleepPending = true → s.kernel.taskNow = some i

def resumes (s : System c) : Event n → Option (Fin n)
  | .resumeTask tid => s.kernel.findTaskByUserTask tid
  | _ => none

end System

namespace Move

variable {c : Config n} {s : System c} {i : Fin n} {slot : Slot}

theorem suspended (move : Move s i e slot phase) (settled : (s.slot i).Settled c)
    (focus : s.caller = some i → s.kernel.taskNow = some i)
    (keeps : (s.tasks i).suspended = true → s.shortensSleep i e = false)
    (before : (s.tasks i).suspended = true → s.Suspended i) (flag : slot.task.suspended = true) :
    slot.task.timeSleep = -waitInfinite ∧
      (s.kernel.isStarted = true → slot.task.sleepPending = true → s.kernel.taskNow = some i) := by
  have awake : (s.tasks i).suspended = true → ¬(s.tasks i).timeSleep < 0 → False := fun flag awake =>
    awake (infinite_sleeping (before flag).infinite)
  cases move with
  | bind _ free | bindHrt _ free => exact (awake flag (settled.free free)).elim
  | unbind | resume => cases flag
  | sleep caller soft unlocked positive =>
    have kept := keeps flag
    simp only [System.shortensSleep,caller,soft,unlocked,positive,true_and,decide_eq_false_iff_not,not_not] at kept
    exact ⟨congrArg Neg.neg kept,fun _ _ => focus caller⟩
  | sleepUntil caller soft unlocked positive =>
    have kept := keeps flag
    simp only [System.shortensSleep,caller,soft,unlocked,positive,true_and,decide_eq_false_iff_not,not_lt] at kept
    exact ⟨congrArg Neg.neg (min_eq_right kept),fun _ _ => focus caller⟩
  | yieldSleep caller unlocked =>
    have kept := keeps flag
    simp [System.shortensSleep,caller,unlocked] at kept
  | wait caller | exitTask caller | returnFromRun caller => exact ⟨rfl,fun _ _ => focus caller⟩
  | scheduleTaskRemoval =>
    exact ⟨rfl,fun _ flagged => by simpa using (Bool.and_eq_true_iff.mp flagged).1⟩
  | signal member =>
    have kept := keeps flag
    simp [System.shortensSleep,System.endsWait,member] at kept
  | cancel sync waiting =>
    have kept := keeps flag
    simp [System.shortensSleep,System.endsWait,sync,waiting] at kept
  | cancelSleep _ _ free =>
    rw [show (s.tasks i).suspended = true from flag] at free
    cases free
  | suspend =>
    refine ⟨rfl,fun started flagged => ?_⟩
    have undelivered := (Bool.and_eq_true_iff.mp flagged).1
    simpa [started] using undelivered
  | yield _ _ _ _ idle | stepAside _ idle => exact (awake flag idle).elim
  | _ => exact ⟨(before flag).infinite,(before flag).delivered⟩

theorem suspending (move : Move s i e slot phase) (settled : (s.slot i).Settled c) (before : s.Suspended i)
    (flag : (s.tasks i).suspended = true) (other : s.resumes e ≠ some i) :
    slot.task.suspended = true ∨ slot.task.user = none := by
  have asleep := infinite_sleeping before.infinite
  cases move with
  | bind _ free | bindHrt _ free => exact absurd asleep (settled.free free)
  | unbind => exact .inr rfl
  | suspend => exact .inl rfl
  | resume finds => exact absurd finds other
  | _ => exact .inl flag

end Move

namespace Decides

variable {c : Config n} {s : System c} {i : Fin n} {slot : Slot}

section

variable (decides : Decides s i e slot phase)
include decides

theorem suspended
    (keeps : (s.tasks i).suspended = true → s.shortensSleep i e = false)
    (before : (s.tasks i).suspended = true → s.Suspended i) (flag : (s.tasks i).suspended = true) :
    .woke ∉ slot.notices ∧ (slot.place = .free ∧ slot.task.user = none ∧ slot.task.suspended = false ∨
      slot.task.timeSleep = -waitInfinite ∧ slot.task.suspended = true) := by
  have infinite := (before flag).infinite
  cases decides with
  | launch =>
    unfold Slot.launch
    split <;> exact ⟨not_mem_nil,.inr ⟨infinite,flag⟩⟩
  | @turn elapsed gone _ _ _ _ departs =>
    have still : ¬(c.mode.isSync = true ∧ (s.tasks i).waitObj.isWaiting = true ∧
        ((s.tasks i).waitObj.tick elapsed).state ≠ .wait) := by
      rintro ⟨sync,waiting,ends⟩
      have kept := keeps flag
      simp [System.shortensSleep,System.endsWait,sync,waiting,ends] at kept
    have endless : ((s.slot i).fresh.tickSync c elapsed).task.timeSleep = -waitInfinite :=
      (tickSync_still still).1.trans infinite
    have marked : ((s.slot i).fresh.tickSync c elapsed).task.suspended = true :=
      (tickSync_fields _).2.2.2.1.trans flag
    rw [withTs]
    cases gone with
    | true =>
      rw [Slot.turn_gone (infinite_sleeping endless)]
      refine ⟨fun woke => ?_,.inl ⟨rfl,rfl,rfl⟩⟩
      simp [Slot.unbind,Slot.consumeYield,Slot.tickSync,Slot.fresh] at woke
    | false =>
      obtain ⟨sleeps,stays,quiet⟩ := turn_infinite endless
      refine ⟨?_,.inr ⟨sleeps,stays.trans marked⟩⟩
      rw [quiet]
      exact not_mem_nil
  | enter | pass => exact ⟨not_mem_nil,.inr ⟨infinite,flag⟩⟩
  | yield _ _ awake => exact absurd (infinite_sleeping infinite) awake

theorem suspends (flag : slot.task.suspended = true) :
    s.suspendedBy i e = true ∧ ((s.tasks i).suspended = true ∨
      slot.task.timeSleep = -waitInfinite ∧ .woke ∉ slot.notices) := by
  have marked : (s.tasks i).suspended = true → s.suspendedBy i e = true := by
    intro flag
    unfold System.suspendedBy
    split
    · rw [flag,Bool.true_or]
    · exact flag
  cases decides with
  | launch =>
    unfold Slot.launch at flag
    split at flag <;> exact ⟨marked flag,.inl flag⟩
  | @turn elapsed gone =>
    have same : ((s.slot i).fresh.tickSync c elapsed).task.suspended = (s.tasks i).suspended :=
      (tickSync_fields _).2.2.2.1
    rw [withTs] at flag ⊢
    unfold Slot.turn at flag ⊢
    split at flag
    · rename_i asleep
      cases gone with
      | true => cases flag
      | false =>
        rw [if_pos asleep]
        rcases suspended_advanceSleep (timeSleep_consumeYield.trans_lt asleep) flag with old | fresh
        · have old := same.symm.trans (suspended_consumeYield.symm.trans old)
          exact ⟨marked old,.inl old⟩
        · obtain ⟨commits,infinite,quiet⟩ := fresh
          rw [suspendsAt_consumeYield] at commits
          refine ⟨Bool.or_eq_true_iff.mpr (.inr commits),.inr ⟨infinite,?_⟩⟩
          simp only [Bool.false_eq_true,if_false,quiet]
          exact not_mem_nil
    · rw [suspended_trackDuration,suspended_consumeYield,same] at flag
      exact ⟨marked flag,.inl flag⟩
  | enter | yield | pass => exact ⟨marked flag,.inl flag⟩

theorem hrt (asleep : slot.task.timeSleep < 0) :
    slot.task.hrt = (s.tasks i).hrt ∧ slot.task.removePending = (s.tasks i).removePending := by
  cases decides with
  | launch =>
    unfold Slot.launch
    split <;> exact ⟨rfl,rfl⟩
  | turn =>
    obtain ⟨hrt,removed⟩ := hrt_turn asleep
    exact ⟨hrt.trans (tickSync_fields _).2.2.2.2.2,removed.trans (tickSync_fields _).2.1⟩
  | enter | yield | pass => exact ⟨rfl,rfl⟩

theorem sleepsThrough (idle : slot.Idle c) (settled : slot.Settled c)
    (bound : (s.tasks i).user ≠ none) (decided : s.reschedules e = true) : s.sleepsThrough i e = true := by
  have asleep : slot.task.user ≠ none → slot.task.timeSleep < 0 := by
    intro bound
    rcases idle bound with ⟨aware,placed⟩ | ⟨_,asleep⟩
    · exact ((settled.asleep aware).mp placed).1
    · exact asleep
  cases decides with
  | launch => cases decided
  | @turn elapsed gone _ _ _ only =>
    let t := (s.slot i).fresh.tickSync c elapsed
    have user : t.task.user ≠ none := fun free => bound ((tickSync_fields _).1.symm.trans free)
    have removed : t.task.removePending = (s.tasks i).removePending := (tickSync_fields _).2.1
    have sleeps : t.task.timeSleep < 0 := by
      by_contra awake
      have sleeps := asleep fun free => user ((user_awake awake).symm.trans free)
      rw [withTs,turn_awake awake,timeSleep_trackDuration,timeSleep_consumeYield] at sleeps
      exact awake sleeps
    have ends : t.task.runsOut elapsed = true → c.mode.isDynamic = true ∧ t.task.removePending = true := by
      intro out
      cases gone with
      | true => exact ⟨(only rfl).1,removed.trans (only rfl).2⟩
      | false =>
        exact absurd (asleep fun free => user (user_turn.symm.trans free)) (turn_out sleeps out)
    change (t.task.isSleeping && (!t.task.runsOut elapsed || c.mode.isDynamic && t.task.removePending)) = true
    rw [(isSleeping_iff _).mpr sleeps,Bool.true_and]
    cases out : t.task.runsOut elapsed with
    | true =>
      obtain ⟨dynamic,removed⟩ := ends out
      rw [dynamic,removed]; rfl
    | false => rfl
  | enter | yield | pass => exact (isSleeping_iff _).mpr (asleep bound)

theorem switchesOut (asleep : slot.task.timeSleep < 0)
    (settled : ∀ j,(s.slot j).Settled c) (wakes : s.wakesAsleep e = true)
    (leaving : s.reschedules e = true ∧ s.kernel.taskNow = some i ∧ s.kernel.fsmState.running = true ∧
      c.mode.isHrt = true ∧ (slot.task.hrt.done = true ∨ slot.task.removePending = false ∧ s.Idles e)) :
    s.switchesOut i e = true := by
  obtain ⟨decided,now,running,hard,why⟩ := leaving
  rw [(decides.hrt asleep).1,(decides.hrt asleep).2] at why
  rw [System.switchesOut,hard,decide_eq_true now,running,decided]
  rcases why with done | ⟨staying,idles⟩
  · rw [done]; rfl
  · have others : ∀ j,j ≠ i → (s.tasks j).user ≠ none → s.sleepsThrough j e = true := by
      intro j _ bound
      obtain ⟨slot,phase,decides,idle⟩ := idles j
      exact decides.sleepsThrough idle (decides.settled (settled j) (of_decide_eq_true wakes j)) bound decided
    rw [staying,decide_eq_true others,Bool.not_false,Bool.true_and,Bool.or_true]; rfl

end

end Decides

namespace Change

variable {c : Config n} {s : System c} {i : Fin n} {slot : Slot}

theorem suspended (change : Change s i e slot phase now) (settled : ∀ j,(s.slot j).Settled c)
    (focus : s.caller = some i → s.kernel.taskNow = some i)
    (wakes : s.wakesAsleep e = true) (keeps : s.keepsSuspended e = true)
    (before : (s.tasks i).suspended = true → s.Suspended i) (flag : slot.task.suspended = true) :
    slot.task.timeSleep = -waitInfinite ∧
      (now.isSome = true → slot.task.sleepPending = true → now = some i) := by
  obtain ⟨calls,switches⟩ := Bool.and_eq_true_iff.mp keeps
  have calls := of_decide_eq_true calls i
  cases change with
  | move move => exact move.suspended (settled i) focus calls before flag
  | stay => exact ⟨(before flag).infinite,(before flag).delivered⟩
  | decide decides offer leaving =>
    rename_i chosen leaves slot
    rw [suspended_retire,select_task] at flag
    have infinite : slot.task.timeSleep = -waitInfinite := by
      rcases (decides.suspends flag).2 with old | ⟨infinite,_⟩
      · rcases (decides.suspended calls before old).2 with ⟨_,_,cleared⟩ | ⟨infinite,_⟩
        · rw [cleared] at flag; cases flag
        · exact infinite
      · exact infinite
    have asleep : (slot.select chosen).task.timeSleep < 0 := by
      rw [select_task]
      exact infinite_sleeping infinite
    refine ⟨?_,fun _ flagged => ?_⟩
    · unfold retire
      split
      · rename_i goes
        have asleep := infinite_sleeping infinite
        have ceased := of_decide_eq_true switches i (decides.suspends flag).1
          (decides.switchesOut asleep settled wakes (leaving goes))
        rw [← (decides.hrt asleep).1] at ceased
        rw [hrtOnSwitchedOut_eq,select_task]
        exact (if_neg (not_lt.mpr ceased)).trans infinite
      · rw [select_task]; exact infinite
    · rw [(retire_asleep asleep).2,select_task] at flagged
      obtain ⟨started,other,pending,same⟩ := decides.pending (settled i) (of_decide_eq_true wakes i) flagged
      rw [same] at flag
      exact absurd ((before flag).delivered started pending) other

theorem unrunnable (change : Change s i e slot phase now) (settled : (s.slot i).Settled c)
    (wakes : s.endsWait i e = true → (s.tasks i).timeSleep < 0) (keeps : s.keepsSuspended e = true)
    (before : s.Suspended i) (flag : (s.tasks i).suspended = true) (other : s.resumes e ≠ some i) :
    .woke ∉ slot.notices ∧ .selected ∉ slot.notices ∧ (slot.task.suspended = true ∨ slot.task.user = none) := by
  have calls := of_decide_eq_true (Bool.and_eq_true_iff.mp keeps).1 i
  cases change with
  | move move => exact ⟨move.notices.1,move.notices.2,move.suspending settled before flag other⟩
  | stay => exact ⟨not_mem_nil,not_mem_nil,.inl flag⟩
  | decide decides offer =>
    rename_i chosen goes slot _
    obtain ⟨unwoken,freed⟩ := decides.suspended calls (fun _ => before) flag
    have passed : chosen = false := by
      refine eq_false_of_ne_true fun picked => ?_
      subst picked
      rcases freed with ⟨free,_⟩ | ⟨infinite,_⟩
      · rw [(offer rfl).1] at free; cases free
      · refine (decides.settled settled wakes).offered (eq_false_of_ne_true fun flagged => ?_) offer
          (infinite_sleeping infinite)
        obtain ⟨started,other,pending,_⟩ := decides.pending settled wakes flagged
        exact other (before.delivered started pending)
    rw [passed,select_false,retire_notices,suspended_retire,user_retire]
    exact ⟨unwoken,decides.unselected,freed.symm.imp And.right fun gone => gone.2.1⟩

theorem suspends (change : Change s i e slot phase now) (settled : (s.slot i).Settled c)
    (wakes : s.endsWait i e = true → (s.tasks i).timeSleep < 0) (unmarked : ¬(s.tasks i).suspended = true)
    (flag : slot.task.suspended = true) : .woke ∉ slot.notices ∧ .selected ∉ slot.notices := by
  cases change with
  | move move => exact move.notices
  | stay => exact absurd flag unmarked
  | decide decides offer =>
    rename_i chosen goes slot _
    rw [suspended_retire,select_task] at flag
    rcases (decides.suspends flag).2 with old | ⟨infinite,unwoken⟩
    · exact absurd old unmarked
    · have passed : chosen = false := by
        refine eq_false_of_ne_true fun picked => ?_
        subst picked
        refine (decides.settled settled wakes).offered (eq_false_of_ne_true fun flagged => ?_) offer
          (infinite_sleeping infinite)
        obtain ⟨_,_,_,same⟩ := decides.pending settled wakes flagged
        rw [same] at flag
        exact unmarked flag
      rw [passed,select_false,retire_notices]
      exact ⟨unwoken,decides.unselected⟩

end Change

namespace System

variable {c : Config n} {law : Lawful c.strategy} {s t : System c}

theorem reached_suspended (law : Lawful c.strategy)
    (run : Run step (fun s e => (s.wakesAsleep e && s.keepsSuspended e) = true) (initial c) s) :
    Sound law s ∧ Orderly s ∧ ∀ i,(s.tasks i).suspended = true → s.Suspended i ∧ s.Unseen i := by
  refine Run.keeps run
    (I := fun s => Sound law s ∧ Orderly s ∧ ∀ i,(s.tasks i).suspended = true → s.Suspended i ∧ s.Unseen i)
    ⟨⟨initial_filed law,initial_contexts⟩,initial_orderly law,fun i flag => (by cases flag)⟩ ?_
  intro s e t ⟨sound,orderly,before⟩ allowed taken
  obtain ⟨wakes,keeps⟩ := Bool.and_eq_true_iff.mp allowed
  have stepped := sound.stepped taken
  refine ⟨sound.step taken,orderly.step sound wakes stepped,fun i flag => ⟨?_,?_⟩⟩
  · obtain ⟨infinite,delivered⟩ := (stepped.change sound i).suspended orderly.settled (sound.contexts.focus i)
      wakes keeps (fun marked => (before i marked).1) flag
    exact ⟨infinite,delivered⟩
  · by_cases marked : (s.tasks i).suspended = true
    · by_cases resumed : s.resumes e = some i
      · -- ResumeTask reports nothing about the slot.
        cases e with
        | resumeTask tid =>
          cases stepped with
          | quiet _ quiet => exact (quiet.moves i).notices
        | _ => cases resumed
      · obtain ⟨unwoken,unselected,_⟩ := (stepped.change sound i).unrunnable (orderly.settled i)
          (of_decide_eq_true wakes i) keeps (before i marked).1 marked resumed
        exact ⟨unwoken,unselected⟩
    · exact (stepped.change sound i).suspends (orderly.settled i) (of_decide_eq_true wakes i) marked flag

-- From the step that sets STATE_SUSPENDED to ResumeTask or the removal of the task, it sleeps,
-- and no step wakes or selects it.
theorem suspended_never_runs (b : Bundled) (chosen : c.strategy = b.strategy n)
    (run : Run step (fun s e => (s.wakesAsleep e && s.keepsSuspended e) = true) (initial c) s)
    (flag : (s.tasks i).suspended = true)
    (rest : Run step (fun u e => (u.wakesAsleep e && u.keepsSuspended e) = true ∧
      (u.tasks i).user ≠ none ∧ u.resumes e ≠ some i) s t) :
    .woke ∉ t.kernel.notices i ∧ .selected ∉ t.kernel.notices i ∧
      ((t.tasks i).suspended = true ∧ (t.tasks i).timeSleep < 0 ∨ (t.tasks i).user = none) := by
  induction rest with
  | nil =>
    obtain ⟨_,_,before⟩ := reached_suspended (b.law chosen) run
    obtain ⟨suspended,unseen⟩ := before i flag
    exact ⟨unseen.1,unseen.2,.inl ⟨flag,infinite_sleeping suspended.infinite⟩⟩
  | snoc rest allowed taken ih =>
    obtain ⟨_,_,⟨marked,_⟩ | free⟩ := ih
    · have reached := run.trans (rest.weaken fun _ _ all => all.1)
      obtain ⟨sound,orderly,before⟩ := reached_suspended (b.law chosen) reached
      obtain ⟨wakes,keeps⟩ := Bool.and_eq_true_iff.mp allowed.1
      obtain ⟨unwoken,unselected,stays | freed⟩ := ((sound.stepped taken).change sound i).unrunnable
        (orderly.settled i) (of_decide_eq_true wakes i) keeps (before i marked).1 marked allowed.2.2
      · obtain ⟨_,_,after⟩ := reached_suspended (b.law chosen) (reached.snoc allowed.1 taken)
        exact ⟨unwoken,unselected,.inl ⟨stays,infinite_sleeping (after i stays).1.infinite⟩⟩
      · exact ⟨unwoken,unselected,.inr freed⟩
    · exact absurd free allowed.2.1

def suspendedWaits : List (Event 2) :=
  [.addTask ⟨1,1,1,0⟩,.addTask ⟨2,2,1,0⟩,.start,.suspendTask 1 true,.wait 0 waitInfinite]

theorem suspendedWaits_sleeps : ∃ s t : System (dynamicKernel 2 (by decide)),
    Transition.exec step (initial _) suspendedWaits = some s ∧ s.step (.tick 1) = some t ∧
      (s.tasks 0).suspended = true ∧ .woke ∉ t.kernel.notices 0 ∧ .selected ∉ t.kernel.notices 0 ∧
      ((t.tasks 0).suspended = true ∧ (t.tasks 0).timeSleep < 0 ∨ (t.tasks 0).user = none) := by
  have found : ∃ s : System (dynamicKernel 2 (by decide)),Transition.exec step (initial _) suspendedWaits = some s ∧
      (s.tasks 0).suspended = true ∧ (s.wakesAsleep (.tick 1) && s.keepsSuspended (.tick 1)) = true ∧
      (s.tasks 0).user ≠ none ∧ (s.step (.tick 1)).isSome = true := by decide
  obtain ⟨s,ran,flag,allowed,bound,steps⟩ := found
  obtain ⟨t,taken⟩ := Option.isSome_iff_exists.mp steps
  have run := Run.ofExecAllowed (fun s e => s.wakesAsleep e && s.keepsSuspended e) (by decide) ran
  exact ⟨s,t,ran,taken,flag,suspended_never_runs (.roundRobin false) rfl run flag
    (.snoc .nil ⟨allowed,bound,by simp [resumes]⟩ taken)⟩

-- An interrupt suspends the running task, whose finite Sleep then replaces the infinite one.
def suspendedSleeps : List (Event 1) := [.addTask ⟨1,1,1,0⟩,.start,.suspendTask 1 true,.sleep 1,.tick 1]

theorem suspendedSleeps_runs : ∃ s t : System (dynamicKernel 1 (by decide)),
    Run step (fun _ _ => True) (initial _) s ∧ (s.tasks 0).suspended = true ∧
      s.step (.tick 1) = some t ∧ .woke ∈ t.kernel.notices 0 ∧ .selected ∈ t.kernel.notices 0 ∧
      (t.tasks 0).suspended = true ∧ (t.tasks 0).user ≠ none := by
  simp only [exists_and_left]
  exact Run.found suspendedSleeps (by decide)

end System
end SuperTinyKernel
