import SuperTinyKernel.Outcomes

namespace SuperTinyKernel

open Transition KernelTask Slot

-- The scheduler lock of a soft kernel and the task that holds it.

def Slot.YieldsIn (slot : Slot) (phase : Phase) : Prop :=
  slot.task.yieldPending = true → slot.task.user ≠ none ∧ (phase = .force .yield ∨ phase = .spin .yield)

namespace Slot

variable {c : Config n} {s : Slot} {elapsed : Int}

theorem yieldPending_advanceSleep : (s.advanceSleep c elapsed).task.yieldPending = s.task.yieldPending := by
  unfold advanceSleep settle
  dsimp only
  split <;> [skip; (split <;> [skip; split])] <;> (split <;> rfl)

theorem yieldPending_trackDuration : (s.trackDuration c recovered elapsed).task.yieldPending = s.task.yieldPending := by
  unfold trackDuration
  split <;> rfl

theorem yieldPending_consumeYield (flag : (s.consumeYield c).task.yieldPending = true) : s.task.yieldPending = true := by
  unfold consumeYield Kernel.consumeYield at flag
  split at flag
  · cases flag
  · exact flag

theorem yieldPending_turn (flag : (s.turn c gone recovered elapsed).task.yieldPending = true) :
    s.task.yieldPending = true ∧ (s.turn c gone recovered elapsed).task.user = s.task.user := by
  by_cases asleep : s.task.timeSleep < 0
  · cases gone with
    | true => rw [turn_gone asleep] at flag; cases flag
    | false =>
      refine ⟨?_,user_turn⟩
      rw [turn_asleep asleep,yieldPending_advanceSleep] at flag
      exact yieldPending_consumeYield flag
  · refine ⟨?_,user_awake asleep⟩
    rw [turn_awake asleep,yieldPending_trackDuration] at flag
    exact yieldPending_consumeYield flag

theorem yieldPending_retire : (s.retire c leaves).task.yieldPending = s.task.yieldPending := by
  unfold retire
  split
  · rw [hrtOnSwitchedOut_eq]
  · rfl

end Slot

theorem KernelTask.yieldPending_tickSync {t : KernelTask} : (t.tickSync m elapsed).yieldPending = t.yieldPending := by
  unfold tickSync tickEntry
  split
  · split <;> rfl
  · rfl

theorem KernelTask.scheduleSleep_flagged {t : KernelTask} (before : t.timeSleep < 0 → t.sleepPending = true) :
    (t.scheduleSleep m ticks).sleepPending = true := by
  unfold scheduleSleep
  cases asleep : t.isSleeping with
  | true => simpa using before ((isSleeping_iff t).mp asleep)
  | false => simp

namespace Move

variable {c : Config n} {s : System c} {i : Fin n} {slot : Slot}

theorem yields (move : Move s i e slot phase) (contexts : System.Contexts s)
    (before : (s.slot i).YieldsIn (s.phase i)) : slot.YieldsIn phase := by
  have calls : s.caller = some i → (s.tasks i).yieldPending = true → False := by
    intro calls flag
    have user := (System.caller_executes calls).2
    rcases (before flag).2 with phase | phase <;> rw [user] at phase <;> cases phase
  have spins : ∀ {call : Call},s.phase i = .spin call → call ≠ .yield → (s.tasks i).yieldPending = true → False := by
    intro call spins other flag
    rcases (before flag).2 with phase | phase <;> rw [spins] at phase <;> cases phase
    exact other rfl
  intro flag
  cases move with
  | bind _ free | bindHrt _ free => exact absurd free (before flag).1
  | unbind => cases flag
  | sleep caller | sleepUntil caller | wait caller | yieldSleep caller | exitTask caller | returnFromRun caller =>
    exact (calls caller flag).elim
  | yield caller => exact ⟨contexts.bound i caller,.inl rfl⟩
  | suspend =>
    obtain ⟨bound,call⟩ := before flag
    refine ⟨bound,?_⟩
    split
    · rename_i own
      exact (calls own.2.2 flag).elim
    · exact call
  | @leave call _ spinning _ _ _ _ consumed =>
    have consumed : call ≠ .yield := by
      intro yields
      have clear := consumed yields
      rw [show (s.tasks i).yieldPending = true from flag] at clear
      cases clear
    exact (spins spinning consumed flag).elim
  | leaveExit _ spinning | leaveWait _ spinning => exact (spins spinning (by decide) flag).elim
  | _ => exact before flag

theorem yielding (move : Move s i e slot phase) (locked : s.kernel.isLocked = true)
    (flag : slot.task.yieldPending = true) : (s.tasks i).yieldPending = true := by
  cases move with
  | unbind => cases flag
  | yield _ unlocked => rw [locked] at unlocked; cases unlocked
  | _ => exact flag

theorem flagged (move : Move s i e slot phase) (now : s.kernel.taskNow = some i)
    (wakes : s.endsWait i e = true → (s.tasks i).timeSleep < 0)
    (before : (s.tasks i).timeSleep < 0 → (s.tasks i).sleepPending = true) (asleep : slot.task.timeSleep < 0) :
    slot.task.sleepPending = true := by
  have schedule : ∀ ticks,((s.tasks i).scheduleSleep c.mode ticks).sleepPending = true :=
    fun _ => scheduleSleep_flagged before
  cases move with
  | bindHrt _ _ off => simp [Kernel.isStarted,now] at off
  | unbind => exact absurd asleep (lt_irrefl 0)
  | sleep | sleepUntil | stepAside => exact schedule _
  | yieldSleep => exact schedule yieldTicks
  | wait | exitTask | returnFromRun => exact schedule waitInfinite
  | yield _ _ _ _ awake => exact absurd asleep awake
  | scheduleTaskRemoval =>
    have kept : decide (s.kernel.taskNow ≠ some i) = false := decide_eq_false fun other => other now
    rw [kept]
    exact schedule waitInfinite
  | signal member => exact before (wakes (decide_eq_true member))
  | cancel sync waiting =>
    have ends : s.endsWait i (.cancelTaskWait i) = true := by simp [System.endsWait,sync,waiting]
    exact before (wakes ends)
  | cancelSleep _ sleeps => exact before sleeps
  | suspend =>
    have kept : (decide (s.kernel.taskNow ≠ some i) && s.kernel.isStarted) = false := by simp [now]
    rw [kept]
    exact schedule waitInfinite
  | resume =>
    refine before ?_
    unfold Slot.modify resumed at asleep
    split at asleep
    · exact (isSleeping_iff _).mp ‹_›
    · exact asleep
  | _ => exact before asleep

end Move

namespace Decides

variable {c : Config n} {s : System c} {i : Fin n} {slot : Slot}

theorem yields (decides : Decides s i e slot phase) (before : (s.slot i).YieldsIn (s.phase i)) : slot.YieldsIn phase := by
  intro flag
  cases decides with
  | launch =>
    have same : ((s.slot i).fresh.launch c).task.user = (s.tasks i).user ∧
        ((s.slot i).fresh.launch c).task.yieldPending = (s.tasks i).yieldPending := by
      unfold Slot.launch
      split <;> exact ⟨rfl,rfl⟩
    rw [same.2] at flag
    rw [same.1]
    exact before flag
  | @turn elapsed =>
    obtain ⟨flag,user⟩ := yieldPending_turn flag
    have synced : ((s.tasks i).tickSync c.mode elapsed).user = (s.tasks i).user := (tickSync_fields _).1
    obtain ⟨bound,call⟩ := before (yieldPending_tickSync.symm.trans flag)
    exact ⟨fun free => bound (synced.symm.trans (user.symm.trans free)),call⟩
  | enter _ forces =>
    obtain ⟨bound,phase | phase⟩ := before flag <;> rw [forces] at phase <;> cases phase
    exact ⟨bound,.inr rfl⟩
  | yield => cases flag
  | pass => exact before flag

theorem awake (decides : Decides s i (.tick elapsed) slot phase) (awake : ¬(s.tasks i).timeSleep < 0)
    (wakes : s.endsWait i (.tick elapsed) = true → (s.tasks i).timeSleep < 0) : ¬slot.task.timeSleep < 0 := by
  cases decides with
  | turn =>
    have still : ((s.slot i).fresh.tickSync c elapsed).task.timeSleep = (s.tasks i).timeSleep := by
      refine (tickSync_still ?_).1
      rintro ⟨sync,waiting,ends⟩
      exact awake (wakes (by simpa [System.endsWait] using ⟨⟨sync,waiting⟩,ends⟩))
    have idle : ¬((s.slot i).fresh.tickSync c elapsed).task.timeSleep < 0 := by rw [still]; exact awake
    rw [withTs,turn_awake idle,timeSleep_trackDuration,timeSleep_consumeYield]
    exact idle

end Decides

theorem Change.yields {c : Config n} {s : System c} {slot : Slot} (change : Change s i e slot phase now)
    (contexts : System.Contexts s) (before : (s.slot i).YieldsIn (s.phase i)) : slot.YieldsIn phase := by
  cases change with
  | move move => exact move.yields contexts before
  | stay _ forces =>
    intro flag
    obtain ⟨bound,phase | phase⟩ := before flag <;> rw [forces] at phase <;> cases phase
    exact ⟨bound,.inr rfl⟩
  | decide decides =>
    intro flag
    rw [user_retire,select_task]
    rw [yieldPending_retire,select_task] at flag
    exact decides.yields before flag

namespace System

open Kernel

variable {c : Config n} {law : Lawful c.strategy} {s t : System c} {u : Kernel c}

def lockHolder (s : System c) (e : Event n) (_ : System c) (holder : Option (Fin n)) : Option (Fin n) :=
  match e with
  | .setSchedulerLock true => s.caller
  | _ => holder

def keepsFlag (s : System c) : Event n → Bool
  | .tick _ => decide (∀ i,s.kernel.isLocked = true → s.kernel.taskNow = some i → (s.tasks i).sleepPending = false)
  | _ => true

def locksCleanly (s : System c) (e : Event n) : Bool := s.wakesAsleep e && s.keepsFlag e

def Flagged (s : System c) : Prop :=
  s.kernel.fsmState.running = true → ∀ i,s.kernel.taskNow = some i → (s.tasks i).timeSleep < 0 →
    (s.tasks i).sleepPending = true

def Held (s : System c) (holder : Option (Fin n)) : Prop :=
  s.kernel.kstate = .locked → ∃ i,holder = some i ∧ s.kernel.taskNow = some i ∧ (s.tasks i).yieldPending = false

theorem decided_selected (decided : Decided law u t.kernel next)
    (transit : Transit u next t.kernel.taskNow t.kernel.fsmState out) (running : t.kernel.fsmState.running = true)
    (now : t.kernel.taskNow = some i) : .selected ∈ t.kernel.notices i := by
  have chosen : next = some i := by
    generalize t.kernel.taskNow = current at transit now
    generalize t.kernel.fsmState = state at transit running
    cases transit with
    | keep | switch | wake => exact now
    | _ => cases running
  have slot := congrArg Slot.notices (decided.slots i)
  rw [decide_eq_true chosen,retire_notices] at slot
  rw [show t.kernel.notices i = _ from slot]
  exact List.mem_cons_self

theorem Flagged.step (soft : c.mode.isHrt = false) (sound : Sound law s) (orderly : Orderly s) (delivered : Soft s)
    (wakes : s.wakesAsleep e = true) (keeps : s.keepsFlag e = true) (flagged : Flagged s) (taken : s.step e = some t) :
    Flagged t := by
  have stepped := sound.stepped taken
  have after := Soft.step soft sound orderly delivered wakes stepped
  intro running i now asleep
  cases stepped with
  | quiet _ quiet =>
    rw [quiet.fsmState] at running
    rw [quiet.taskNow] at now
    exact (quiet.moves i).flagged now (of_decide_eq_true wakes i) (flagged running i now) asleep
  | start off launched phase armed reached =>
    rcases reached with ⟨j,rfl,at_,_⟩ | ⟨_,_,_,_,state,_⟩
    · obtain rfl : i = j := Option.some.inj (now.symm.trans at_)
      have slot := congrArg Slot.notices (launched.slots i)
      refine absurd asleep (after.selected i ?_)
      rw [show t.kernel.notices i = _ from slot,decide_eq_true rfl]
      exact List.mem_cons_self
    · rw [state] at running
      cases running
  | tick legal before ticked unlocked decided transit | force executes waits bound before named forced decided transit =>
    exact absurd asleep (after.selected i (decided_selected decided transit running now))
  | @lockedTick elapsed legal before ticked locked =>
    have held : s.kernel.isLocked = true := by
      rw [isLocked,ticked.kstate] at locked
      exact locked
    rw [ticked.fsmState] at running
    rw [ticked.taskNow] at now
    have awake : ¬(s.tasks i).timeSleep < 0 := by
      intro sleeps
      have flag := flagged running i now sleeps
      rw [of_decide_eq_true keeps i held now] at flag
      cases flag
    obtain ⟨gone,recovered,ts,only,departs,honest,turned⟩ := ticked.departs i
    have turns : Decides s i (.tick elapsed) (t.slot i) (s.phase i) := by
      rw [show t.slot i = _ from turned]
      exact .turn legal only departs honest
    exact absurd asleep (turns.awake awake (of_decide_eq_true wakes i))
  | noForce executes waits bound before kernel =>
    rw [kernel] at running now
    rw [tasks,kernel] at asleep ⊢
    exact flagged running i now asleep
  | stop exits kernel =>
    have dynamic := (sound.contexts.exiting (sound.contexts.trap exits)).1
    rw [kernel,onStop,if_pos dynamic] at running
    cases running

theorem Held.step (sound : Sound law s) (yields : ∀ i,(s.slot i).YieldsIn (s.phase i)) (held : Held s holder)
    (taken : s.step e = some t) : Held t (s.lockHolder e t holder) := by
  have stepped := sound.stepped taken
  intro locked
  have keeps : s.kernel.kstate = .locked → (∀ i,s.kernel.taskNow = some i → (s.tasks i).yieldPending = false →
      t.kernel.taskNow = some i ∧ (t.tasks i).yieldPending = false) → s.lockHolder e t holder = holder →
      ∃ i,s.lockHolder e t holder = some i ∧ t.kernel.taskNow = some i ∧ (t.tasks i).yieldPending = false := by
    intro locked kept same
    obtain ⟨i,holds,now,clear⟩ := held locked
    rw [same]
    exact ⟨i,holds,kept i now clear⟩
  cases stepped with
  | quiet call quiet =>
    by_cases locks : e = .setSchedulerLock true
    · subst locks
      obtain ⟨i,calls,_⟩ := of_bind taken
      have calls : s.caller = some i := calls
      have user := (caller_executes calls).2
      refine ⟨i,calls,quiet.taskNow.trans (sound.contexts.focus i calls),?_⟩
      refine eq_false_of_ne_true fun flag => ?_
      obtain ⟨_,phase⟩ := (quiet.moves i).yields sound.contexts (yields i) flag
      have same : t.phase i = s.phase i := by
        obtain ⟨_,_,kernel⟩ := of_bind taken
        cases kernel
        rfl
      rw [same,user] at phase
      rcases phase with phase | phase <;> cases phase
    · have before := (quiet.lock locked).resolve_right fun both => locks both.1
      refine keeps before ?_ ?_
      · intro i now clear
        refine ⟨quiet.taskNow.trans now,eq_false_of_ne_true fun flag => ?_⟩
        rw [(quiet.moves i).yielding (decide_eq_true before) flag] at clear
        cases clear
      · unfold lockHolder
        split
        · exact absurd rfl locks
        · rfl
  | start off launched => rw [launched.kstate] at locked; cases locked
  | tick legal before ticked unlocked decided =>
    rw [decided.kstate] at locked
    simp [isLocked,locked] at unlocked
  | lockedTick legal before ticked =>
    refine keeps (ticked.kstate.symm.trans locked) (fun i now clear => ⟨ticked.taskNow.trans now,?_⟩) rfl
    refine eq_false_of_ne_true fun flag => ?_
    obtain ⟨gone,recovered,ts,_,_,_,turned⟩ := ticked.departs i
    have task : t.tasks i = _ := congrArg task turned
    rw [task] at flag
    have before := (yieldPending_turn flag).1
    rw [show (s.tasks i).yieldPending = true from yieldPending_tickSync.symm.trans before] at clear
    cases clear
  | force executes waits bound before named forced decided transit =>
    rw [decided.kstate] at locked
    obtain ⟨slot,slots,⟨_,_,_,released⟩ | ⟨_,_,pending,_,kept⟩⟩ := forced.slots
    · -- The sleep that a forced switch delivers ends the lock.
      rw [released] at locked
      split at locked
      · cases locked
      · exact absurd locked ‹_›
    · obtain ⟨i,_,now,clear⟩ := held (kept.symm.trans locked)
      obtain rfl := Option.some.inj (now.symm.trans forced.now)
      rw [show (s.tasks i).yieldPending = true from pending] at clear
      cases clear
  | noForce executes waits bound before kernel =>
    rw [kernel] at locked
    refine keeps locked (fun i now clear => ?_) rfl
    rw [tasks,kernel]
    exact ⟨now,clear⟩
  | stop exits kernel =>
    have dynamic := (sound.contexts.exiting (sound.contexts.trap exits)).1
    rw [kernel,onStop,if_pos dynamic] at locked
    cases locked

theorem reached_flagged (law : Lawful c.strategy) (soft : c.mode.isHrt = false)
    (run : Run step (fun s e => s.locksCleanly e = true) (initial c) s) :
    Sound law s ∧ Orderly s ∧ Soft s ∧ Flagged s := by
  refine Run.keeps run (I := fun s => Sound law s ∧ Orderly s ∧ Soft s ∧ Flagged s) ?_ ?_
  · refine ⟨⟨initial_filed law,initial_contexts⟩,initial_orderly law,?_,fun running => (by cases running)⟩
    exact ⟨fun started => (by cases started),fun i selected => (by cases selected)⟩
  · rintro s e t ⟨sound,orderly,delivered,flagged⟩ allowed taken
    obtain ⟨wakes,keeps⟩ := Bool.and_eq_true_iff.mp allowed
    have stepped := sound.stepped taken
    exact ⟨sound.step taken,orderly.step sound wakes stepped,delivered.step soft sound orderly wakes stepped,
      flagged.step soft sound orderly delivered wakes keeps taken⟩

theorem reached_held (law : Lawful c.strategy)
    (run : Run (observe step lockHolder) (fun p e => p.1.locksCleanly e = true) (initial c,none) p) :
    (∀ i,(p.1.slot i).YieldsIn (p.1.phase i)) ∧ Held p.1 p.2 := by
  induction run with
  | nil => exact ⟨fun i flag => (by cases flag),fun locked => (by cases locked)⟩
  | snoc run allowed observed ih =>
    obtain ⟨yields,held⟩ := ih
    obtain ⟨taken,watched⟩ := Transition.observe_some observed
    rename_i p _ _
    have bare : Run step (fun s e => s.locksCleanly e = true) (initial c) p.1 := run.unobserved
    have sound := reached_sound law bare
    refine ⟨fun i => ?_,?_⟩
    · exact ((sound.stepped taken).change sound i).yields sound.contexts (yields i)
    · rw [watched]
      exact held.step sound yields taken

-- While the scheduler is locked, a holder that sleeps pending its removal still has its
-- pending flag.
theorem lock_ends_with_holder (b : Bundled) (chosen : c.strategy = b.strategy n) (soft : c.mode.isHrt = false)
    (run : Run (observe step lockHolder) (fun p e => p.1.locksCleanly e = true)
      (initial c,none) (s,some i))
    (locked : s.kernel.kstate = .locked) :
    ¬((s.tasks i).removePending = true ∧ (s.tasks i).isSleeping = true ∧ (s.tasks i).sleepPending = false) := by
  have bare : Run step (fun s e => s.locksCleanly e = true) (initial c) s := run.unobserved
  obtain ⟨sound,orderly,_,flagged⟩ := reached_flagged (b.law chosen) soft bare
  have held := (reached_held (b.law chosen) run).2
  rintro ⟨_,asleep,consumed⟩
  obtain ⟨j,holds,now,_⟩ := held locked
  cases holds
  have running : s.kernel.fsmState.running = true := by
    cases state : s.kernel.fsmState with
    | none => rw [(sound.contexts.stopped state).1] at now; cases now
    | sleeping => exact absurd locked (orderly.unlocked state)
    | exiting => rw [(sound.contexts.exiting state).2.1] at now; cases now
    | switching | waking => rfl
  have flag := flagged running i now ((isSleeping_iff _).mp asleep)
  rw [consumed] at flag
  cases flag

def lockAndExit : List (Event 2) := [.addTask ⟨1,1,1,0⟩,.addTask ⟨2,2,1,0⟩,.start,.setSchedulerLock true,.exitTask]

theorem lockAndExit_flagged : ∃ s : System (dynamicKernel 2 (by decide)),
    Transition.exec (observe step lockHolder) (initial _,none) lockAndExit = some (s,some 0) ∧
      s.kernel.kstate = .locked ∧ (s.tasks 0).removePending = true ∧
      ¬((s.tasks 0).removePending = true ∧ (s.tasks 0).isSleeping = true ∧ (s.tasks 0).sleepPending = false) := by
  have found : ∃ p : System (dynamicKernel 2 (by decide)) × Option (Fin 2),Transition.exec (observe step lockHolder) (initial _,none)
      lockAndExit = some p ∧ p.2 = some 0 ∧ p.1.kernel.kstate = .locked ∧ (p.1.tasks 0).removePending = true := by decide
  obtain ⟨⟨s,_⟩,ran,rfl,locked,removed⟩ := found
  have run := Run.ofExecAllowed (fun p e => p.1.locksCleanly e) (by decide) ran
  exact ⟨s,ran,locked,removed,lock_ends_with_holder (.roundRobin false) rfl rfl run locked⟩

-- A tick before the forced switch of the exit consumes the flag, and the scheduler stays
-- locked.
def lockAndExitLate : List (Event 2) := lockAndExit ++ [.tick 1,.force]

theorem lockAndExitLate_locked : ∃ s : System (dynamicKernel 2 (by decide)),
    Run (observe step lockHolder) (fun _ _ => True) (initial _,none) (s,some 0) ∧
      s.kernel.kstate = .locked ∧ (s.tasks 0).removePending = true ∧ (s.tasks 0).isSleeping = true ∧
      (s.tasks 0).sleepPending = false := by
  have found : ∃ p : System (dynamicKernel 2 (by decide)) × Option (Fin 2),Transition.exec (observe step lockHolder) (initial _,none)
      lockAndExitLate = some p ∧ p.2 = some 0 ∧ p.1.kernel.kstate = .locked ∧ (p.1.tasks 0).removePending = true ∧
      (p.1.tasks 0).isSleeping = true ∧ (p.1.tasks 0).sleepPending = false := by decide
  obtain ⟨⟨s,_⟩,ran,rfl,locked⟩ := found
  exact ⟨s,.ofExec ran,locked⟩

end System
end SuperTinyKernel
