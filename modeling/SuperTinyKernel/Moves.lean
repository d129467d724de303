import SuperTinyKernel.Calls
import SuperTinyKernel.System

namespace SuperTinyKernel

-- What the steps other than those of the clock do to a slot, and under which conditions.

section
variable {c : Config n}

def System.slot (s : System c) (i : Fin n) : Slot := s.kernel.slot i

def System.finds (s : System c) (tid : TId) (i : Fin n) : Prop := s.kernel.findTaskByUserTask tid = some i

def Event.reweighs : Event n → Bool
  | .inheritWeight _ _ | .restoreWeight _ _ | .setWeight _ _ => true
  | _ => false

open KernelTask in
inductive Move (s : System c) (i : Fin n) : Event n → Slot → Phase → Prop where
  | rest : Move s i e (s.slot i).fresh (s.phase i)
  | bind : c.mode.isHrt = false → (s.tasks i).user = none → s.kernel.collision u = false →
      Move s i (.addTask u) ⟨(s.tasks i).bind c.mode c.strategy.api u,.ready,[]⟩ .user
  | bindHrt : c.mode.isHrt = true → (s.tasks i).user = none → s.kernel.isStarted = false → 0 < period →
      period < waitInfinite → 0 < deadline → deadline < waitInfinite → 0 ≤ delay → s.kernel.collision u = false →
      Move s i (.addTaskHrt u period deadline delay)
        ⟨((s.tasks i).bind c.mode c.strategy.api u).scheduled c.mode period deadline delay,.ready,[]⟩ .user
  | unbind : c.mode.isDynamic = true → s.kernel.isStarted = false → s.finds tid i →
      Move s i (.removeTask tid) ((s.slot i).fresh.unbind c) (s.phase i)
  | sleep : s.caller = some i → c.mode.isHrt = false → s.kernel.isLocked = false → 0 < ticks →
      Move s i (.sleep ticks) ((s.slot i).modify (scheduleSleep c.mode ticks)) (.force .sleep)
  | sleepUntil : s.caller = some i → c.mode.isHrt = false → s.kernel.isLocked = false → 0 < timestamp - s.kernel.ticks →
      Move s i (.sleepUntil timestamp)
        ((s.slot i).modify (scheduleSleep c.mode (min (timestamp - s.kernel.ticks) waitInfinite))) (.force .sleep)
  | yieldSleep : s.caller = some i → s.kernel.isLocked = false →
      Move s i .switchToNext ((s.slot i).modify (blockFor c.mode yieldTicks)) (.force .sleep)
  | yield : s.caller = some i → s.kernel.isLocked = false → c.mode.isHrt = false →
      c.strategy.api.noSleepYield = true → ¬(s.tasks i).timeSleep < 0 →
      Move s i .switchToNext ((s.slot i).modify (yielding c.mode c.strategy.api)) (.force .yield)
  | wait : s.caller = some i → c.mode.isSync = true → s.kernel.isLocked = false →
      (s.tasks i).waitObj.isWaiting = false →
      Move s i (.wait o timeout)
        ((s.slot i).modify fun t => (t.setupWait o timeout).scheduleSleep c.mode waitInfinite) (.force .wait)
  | exitTask : s.caller = some i → c.mode.isDynamic = true →
      Move s i .exitTask ((s.slot i).modify (removal c.mode)) (.force .exit)
  | returnFromRun : s.caller = some i → c.mode.isDynamic = true →
      Move s i .returnFromRun ((s.slot i).modify (removal c.mode)) (.spin .returned)
  | scheduleTaskRemoval : s.finds tid i → c.mode.isDynamic = true →
      Move s i (.scheduleTaskRemoval tid)
        (((s.slot i).modify (removal c.mode)).settleIf c
          (decide (s.kernel.taskNow ≠ some i))) (s.phase i)
  | signal : i ∈ s.kernel.signalled o all →
      Move s i (.wake o all) ((s.slot i).modify (endWait .signaled)) (s.phase i)
  | cancel : c.mode.isSync = true → (s.tasks i).waitObj.isWaiting = true →
      Move s i (.cancelTaskWait i) ((s.slot i).modify (endWait .cancelled)) (s.phase i)
  | cancelSleep : ¬(c.mode.isSync = true ∧ (s.tasks i).waitObj.isWaiting = true) → (s.tasks i).timeSleep < 0 →
      (s.tasks i).suspended = false →
      Move s i (.cancelTaskWait i) ((s.slot i).modify KernelTask.wake) (s.phase i)
  | suspend : s.finds tid i → (s.tasks i).removePending = false → (s.tasks i).suspended = false →
      (s.tasks i).suspendPending = false → ¬(s.tasks i).timeSleep < 0 →
      ¬(s.kernel.isLocked = true ∧ s.kernel.taskNow = some i) →
      Move s i (.suspendTask tid inIsr)
        (((s.slot i).modify (markSuspended c.mode)).settleIf c
          (decide (s.kernel.taskNow ≠ some i) && s.kernel.isStarted))
        (if inIsr = false ∧ s.kernel.taskNow = some i ∧ s.caller = some i then .force .suspend else s.phase i)
  | suspendLater : s.finds tid i → (s.tasks i).removePending = false → (s.tasks i).suspended = false →
      (s.tasks i).suspendPending = false → (s.tasks i).timeSleep < 0 →
      Move s i (.suspendTask tid inIsr) ((s.slot i).modify deferSuspend) (s.phase i)
  | resume : s.finds tid i → (s.tasks i).removePending = false → (s.tasks i).suspended = true →
      Move s i (.resumeTask tid) ((s.slot i).modify resumed) (s.phase i)
  | lift : s.finds tid i → (s.tasks i).removePending = false → (s.tasks i).suspended = false →
      (s.tasks i).suspendPending = true →
      Move s i (.resumeTask tid) ((s.slot i).modify liftSuspend) (s.phase i)
  | leave : s.exec = some (.task i) → s.phase i = .spin call → call ≠ .wait → call ≠ .exit → call ≠ .returned →
      (call ≠ .yield → ¬(s.tasks i).timeSleep < 0) → (call = .yield → (s.tasks i).yieldPending = false) →
      Move s i .leave (s.slot i).fresh .user
  | leaveExit : s.exec = some (.task i) → s.phase i = .spin .exit → ¬(s.tasks i).timeSleep < 0 →
      Move s i .leave (s.slot i).fresh (.force .exit)
  | leaveWait : s.exec = some (.task i) → s.phase i = .spin .wait → ¬(s.tasks i).timeSleep < 0 →
      Move s i .leave ⟨(s.tasks i).clearWait,(s.slot i).place,[.waited (s.tasks i).waitObj.getWaitResult]⟩ .user
  | stepAside : s.kernel.taskNow = some i → ¬(s.tasks i).timeSleep < 0 →
      Move s i (.suspend off) ((s.slot i).modify (scheduleSleep c.mode yieldTicks)) (s.phase i)
  | weights : e.reweighs = true → Move s i e ((s.slot i).modify (setWeights rt base)) (s.phase i)
  | timeSlice : Move s i (.setTimeSlice tid ticks) ((s.slot i).fresh.withTs ⟨ticks,ticks⟩) (s.phase i)

open Kernel

inductive Hears (law : Lawful c.strategy) (s t : System c) : Event n → Prop where
  | nothing : t.kernel.strategy = s.kernel.strategy → Hears law s t e
  | told {x : Fin n} {slot : Slot} : Acts law s.kernel.fresh x slot t.kernel → Hears law s t e
  | joins {x : Fin n} : s.place x = .free → c.strategy.addTask v x s.kernel.strategy = some t.kernel.strategy →
      (∀ j,j ≠ x → t.tasks j = s.tasks j) → Hears law s t e
  | yields {x : Fin n} : s.caller = some x →
      c.strategy.onTaskYield s.kernel.view x s.kernel.strategy = some (handled,t.kernel.strategy) →
      (t.tasks x).isSleeping = true ∨ (t.tasks x).yieldPending = true → Hears law s t .switchToNext
  | weighs : e.reweighs = true → Hears law s t e

structure Quiet (law : Lawful c.strategy) (s t : System c) (e : Event n) : Prop where
  filed : Filed law t.kernel
  taskNow : t.kernel.taskNow = s.kernel.taskNow
  fsmState : t.kernel.fsmState = s.kernel.fsmState
  ticks : t.kernel.ticks = s.kernel.ticks
  lock : t.kernel.kstate = .locked → s.kernel.kstate = .locked ∨ e = .setSchedulerLock true ∧ s.caller.isSome = true
  exec : t.exec = s.exec
  armed : t.armed = s.armed
  moves : ∀ i,Move s i e (t.slot i) (t.phase i)
  hears : Hears law s t e

end

namespace System

open Kernel

variable {c : Config n} {law : Lawful c.strategy} {s t : System c} {i : Fin n} {k' : Kernel c} {e : Event n} {ticks : Int}

theorem fresh_filed (filed : Filed law s.kernel) : Filed law s.kernel.fresh :=
  filed.still rfl rfl rfl rfl

theorem quiet_rest (steady : Steady law s.kernel.fresh k') (same : k'.strategy = s.kernel.strategy)
    (slots : ∀ i,k'.slot i = (s.slot i).fresh) : Quiet law s {s with kernel := k'} e :=
  ⟨steady.filed,steady.taskNow,steady.fsmState,steady.ticks,fun locked => .inl (steady.kstate.symm.trans locked),rfl,rfl,fun i => by
    rw [show System.slot {s with kernel := k'} i = (s.slot i).fresh from slots i]
    exact .rest,.nothing same⟩

theorem quiet_same (filed : Filed law s.kernel) : Quiet law s {s with kernel := s.kernel.fresh} e :=
  quiet_rest (.refl (fresh_filed filed)) rfl fun _ => rfl

theorem quiet_alters {slot : Slot} {p : Phase} (alters : Alters law s.kernel.fresh i slot k') (move : Move s i e slot p)
    (hears : Hears law s ({s with kernel := k'}.setPhase i p) e) : Quiet law s ({s with kernel := k'}.setPhase i p) e := by
  refine ⟨alters.filed,alters.taskNow,alters.fsmState,alters.ticks,fun locked => .inl (alters.kstate.symm.trans locked),rfl,rfl,
    fun j => ?_,hears⟩
  by_cases at_ : j = i
  · subst at_
    have own : ({s with kernel := k'}.setPhase j p).slot j = slot := alters.self
    rw [own]
    simpa [setPhase] using move
  · have other : ({s with kernel := k'}.setPhase i p).slot j = (s.slot j).fresh := alters.other at_
    rw [other]
    simpa [setPhase,at_] using Move.rest

theorem quiet_acts {slot : Slot} {p : Phase} (acts : Acts law s.kernel.fresh i slot k') (move : Move s i e slot p) :
    Quiet law s ({s with kernel := k'}.setPhase i p) e := quiet_alters acts.toAlters move (.told acts)

theorem quiet_stay {slot : Slot} (acts : Acts law s.kernel.fresh i slot k') (move : Move s i e slot (s.phase i)) :
    Quiet law s {s with kernel := k'} e := by
  simpa [setPhase] using quiet_acts acts move

theorem alters_answer {k : Kernel c} {slot : Slot} (alters : Alters law k i slot k') (r : Reply) :
    Alters law k i slot (k'.answer r) :=
  ⟨⟨alters.filed.still rfl rfl rfl rfl,alters.taskNow,alters.fsmState,
    alters.kstate,alters.ticks⟩,alters.slots⟩

theorem acts_answer {k : Kernel c} {slot : Slot} (acts : Acts law k i slot k') (r : Reply) :
    Acts law k i slot (k'.answer r) := ⟨alters_answer acts.toAlters r,acts.told,acts.woken⟩

section

variable (filed : Filed law s.kernel)
include filed

theorem quiet_answered (r : Reply) :
    Quiet law s {s with kernel := s.kernel.fresh.answer r} e :=
  quiet_rest ⟨filed.still rfl rfl rfl rfl,rfl,rfl,rfl,rfl⟩ rfl fun _ => rfl

theorem sleep_quiet (stepped : s.step (.sleep ticks) = some t) :
    Quiet law s t (.sleep ticks) := by
  obtain ⟨i,calls,rfl⟩ := of_return stepped
  unfold Kernel.sleep
  split
  · rename_i usable
    unfold onTaskSleepImpl
    simp only [usable.1,Bool.false_eq_true,↓reduceIte]
    split
    · rename_i positive
      exact quiet_acts (acts_modify (fresh_filed filed) i _ rfl) (.sleep calls usable.1 usable.2 positive)
    · exact quiet_same filed
  · exact quiet_same filed

theorem sleepUntil_quiet (stepped : s.step (.sleepUntil timestamp) = some t) :
    Quiet law s t (.sleepUntil timestamp) := by
  obtain ⟨i,calls,rfl⟩ := of_return stepped
  unfold Kernel.sleepUntil
  split
  · rename_i usable
    split
    · rename_i positive
      exact quiet_acts (acts_modify (fresh_filed filed) i _ rfl) (.sleepUntil calls usable.1 usable.2 positive)
    · exact quiet_same filed
  · exact quiet_same filed

theorem switchToNext_quiet (stepped : s.step .switchToNext = some t) :
    Quiet law s t .switchToNext := by
  obtain ⟨i,calls,stepped⟩ := of_bind stepped
  obtain ⟨r,switched,rfl⟩ := of_return stepped
  have filed₀ := fresh_filed filed
  have asleep : ∀ {k : Kernel c},Alters law s.kernel.fresh i (s.kernel.fresh.slot i) k → k.tasks i = s.tasks i →
      s.kernel.isLocked = false →
      (∀ t : System c,t.kernel.strategy = k.strategy → (t.tasks i).isSleeping = true → Hears law s t .switchToNext) →
      Quiet law s (System.blocked {s with kernel := s.kernel.fresh} i (k.onTaskSleepImpl i yieldTicks)) .switchToNext := by
    intro k alters same unlocked hears
    obtain ⟨call,block⟩ := onTaskSleepImpl_acts alters.filed i (show 0 < yieldTicks by decide)
    have all := alters.trans block.toAlters
    simp only [blocked,call]
    rw [same,alters.place,alters.notices] at all
    refine quiet_alters all (.yieldSleep calls unlocked) (hears _ (onTaskSleepImpl_strategy k) ?_)
    exact congrArg KernelTask.isSleeping all.task
  unfold Kernel.switchToNext at switched
  split at switched
  · cases switched; exact quiet_same filed
  · rename_i unlocked
    have unlocked : s.kernel.isLocked = false := eq_false_of_ne_true unlocked
    unfold onTaskSwitch at switched
    split at switched
    · rename_i usable
      split at switched
      · cases switched; exact asleep (Acts.refl filed₀ i).toAlters rfl unlocked fun _ same _ => .nothing same
      · rename_i awake
        obtain ⟨⟨handled,σ⟩,called,same⟩ := of_bind switched
        obtain ⟨inv,kept⟩ := law.yield filed₀.inv called
        have rotate := alters_strategy filed₀ i inv kept
        cases handled with
        | false =>
          cases same
          exact asleep rotate rfl unlocked fun _ same ends => .yields calls (by rw [same]; exact called) (.inl ends)
        | true =>
          cases same
          have all := rotate.trans (acts_modify rotate.filed i (KernelTask.scheduleYield c.mode c.strategy.api) (by simp)).toAlters
          rw [rotate.place,KernelTask.scheduleYield_eq] at all
          refine quiet_alters all (.yield calls unlocked usable.2 usable.1 (mt (KernelTask.isSleeping_iff _).mpr awake))
            (.yields calls called (.inr ?_))
          refine (congrArg KernelTask.yieldPending all.task).trans ?_
          exact Bool.or_eq_true_iff.mpr (.inl usable.1)
    · cases switched; exact asleep (Acts.refl filed₀ i).toAlters rfl unlocked fun _ same _ => .nothing same

theorem wait_quiet (stepped : s.step (.wait o timeout) = some t) :
    Quiet law s t (.wait o timeout) := by
  obtain ⟨i,calls,stepped⟩ := of_bind stepped
  obtain ⟨r,waited,rfl⟩ := of_return stepped
  rcases wait_acts (fresh_filed filed) waited with ⟨sync,unlocked,idle,call,acts⟩ | same
  · simp only [blocked,call]
    exact quiet_acts acts (.wait calls sync unlocked idle)
  · subst same; exact quiet_same filed

theorem exitTask_quiet (focus : ∀ i,s.caller = some i → s.kernel.taskNow = some i)
    (stepped : s.step .exitTask = some t) : Quiet law s t .exitTask := by
  obtain ⟨i,calls,stepped⟩ := of_bind stepped
  split at stepped
  · rename_i dynamic
    obtain ⟨k',removed,rfl⟩ := of_return stepped
    exact quiet_acts (scheduleRemoval_now (fresh_filed filed) (focus i calls) removed) (.exitTask calls dynamic)
  · cases stepped

theorem returnFromRun_quiet (focus : ∀ i,s.caller = some i → s.kernel.taskNow = some i)
    (stepped : s.step .returnFromRun = some t) : Quiet law s t .returnFromRun := by
  obtain ⟨i,calls,stepped⟩ := of_bind stepped
  split at stepped
  · rename_i dynamic
    obtain ⟨k',removed,rfl⟩ := of_return stepped
    exact quiet_acts (scheduleRemoval_now (fresh_filed filed) (focus i calls) removed) (.returnFromRun calls dynamic)
  · cases stepped

theorem scheduleTaskRemoval_quiet (stepped : s.step (.scheduleTaskRemoval tid) = some t) :
    Quiet law s t (.scheduleTaskRemoval tid) := by
  obtain ⟨k',removed,rfl⟩ := of_return stepped
  unfold Kernel.scheduleTaskRemoval at removed
  split at removed
  · rename_i dynamic
    split at removed
    · rename_i i found
      exact quiet_stay (scheduleRemoval_acts (fresh_filed filed) removed) (.scheduleTaskRemoval found dynamic)
    · cases removed; exact quiet_same filed
  · cases removed; exact quiet_same filed

theorem wake_quiet (stepped : s.step (.wake o all) = some t) :
    Quiet law s t (.wake o all) := by
  obtain ⟨k',woke,rfl⟩ := of_return stepped
  obtain ⟨steady,slots⟩ := wake_slots (fresh_filed filed) woke
  refine ⟨steady.filed,steady.taskNow,steady.fsmState,steady.ticks,fun locked => .inl (steady.kstate.symm.trans locked),
    rfl,rfl,fun i => ?_,.nothing steady.strategy⟩
  rw [show System.slot {s with kernel := k'} i = _ from slots i]
  split
  · rename_i member
    exact .signal member
  · exact .rest

theorem cancelTaskWait_quiet (stepped : s.step (.cancelTaskWait i) = some t) :
    Quiet law s t (.cancelTaskWait i) := by
  obtain ⟨k',cancelled,rfl⟩ := of_return stepped
  unfold Kernel.cancelTaskWait at cancelled
  split at cancelled
  · rename_i waits
    obtain ⟨sync,waiting⟩ := Bool.and_eq_true_iff.mp waits
    exact quiet_stay (endWait_acts (fresh_filed filed) cancelled).2 (.cancel sync waiting)
  · rename_i idle
    split at cancelled
    · rename_i asleep
      cases cancelled
      refine quiet_stay (acts_modify (fresh_filed filed) i KernelTask.wake rfl) ?_
      exact .cancelSleep (fun both => idle (Bool.and_eq_true_iff.mpr both)) ((KernelTask.isSleeping_iff _).mp asleep.1) asleep.2
    · cases cancelled; exact quiet_same filed

theorem suspendTask_quiet (focus : ∀ i,s.caller = some i → s.kernel.taskNow = some i)
    (stepped : s.step (.suspendTask tid inIsr) = some t) : Quiet law s t (.suspendTask tid inIsr) := by
  change System.suspendTask {s with kernel := s.kernel.fresh} tid inIsr = some t at stepped
  unfold System.suspendTask at stepped
  split at stepped
  · cases stepped
  · obtain ⟨⟨k',result⟩,suspended,stepped⟩ := of_bind stepped
    have calls : System.caller {s with kernel := s.kernel.fresh} = s.caller := rfl
    -- Only a task that suspended itself goes on to request the context switch.
    have phases : t = {s with kernel := k'.answer (.suspend result)} ∧
          ¬(inIsr = false ∧ result = .done ∧ s.caller.isSome = true ∧ s.kernel.taskNow = s.kernel.findTaskByUserTask tid) ∨
        ∃ j,s.caller = some j ∧ inIsr = false ∧ result = .done ∧ s.kernel.taskNow = s.kernel.findTaskByUserTask tid ∧
          t = System.setPhase {s with kernel := k'.answer (.suspend result)} j (.force .suspend) := by
      dsimp only at stepped
      rw [calls] at stepped
      split at stepped
      · rename_i j named
        split at stepped
        · rename_i self
          cases stepped
          exact .inr ⟨j,named,self.1,self.2.1,self.2.2,rfl⟩
        · rename_i other
          cases stepped
          exact .inl ⟨rfl,fun all => other ⟨all.1,all.2.1,all.2.2.2⟩⟩
      · rename_i named
        cases stepped
        exact .inl ⟨rfl,by simp [named]⟩
    rcases suspendTask_parts (fresh_filed filed) suspended with
      ⟨failed,rfl⟩ | ⟨i,found,stays,running,unasked,⟨asleep,rfl,acts⟩ | ⟨awake,unlocked,rfl,acts⟩⟩
    · rcases phases with ⟨rfl,_⟩ | ⟨j,_,_,done,_⟩
      · exact quiet_answered filed _
      · exact absurd done failed
    · rcases phases with ⟨rfl,_⟩ | ⟨j,_,_,done,_⟩
      · exact quiet_stay (acts_answer acts _) (.suspendLater found stays running unasked asleep)
      · cases done
    · have move := @Move.suspend _ _ s i tid inIsr found stays running unasked awake unlocked
      have target : s.kernel.findTaskByUserTask tid = some i := found
      rcases phases with ⟨rfl,other⟩ | ⟨j,named,task,_,self,rfl⟩
      · rw [if_neg (fun all => other ⟨all.1,rfl,by simp [all.2.2],by rw [target]; exact all.2.1⟩)] at move
        exact quiet_stay (acts_answer acts _) move
      · have at_ : j = i := Option.some.inj ((focus j named).symm.trans (self.trans target))
        subst at_
        rw [if_pos ⟨task,focus j named,named⟩] at move
        exact quiet_acts (acts_answer acts _) move

theorem resumeTask_quiet (stepped : s.step (.resumeTask tid) = some t) :
    Quiet law s t (.resumeTask tid) := by
  change some {s with kernel := (s.kernel.fresh.resumeTask tid).1.answer (.resume (s.kernel.fresh.resumeTask tid).2)} =
    some t at stepped
  cases stepped
  unfold Kernel.resumeTask
  split
  · exact quiet_answered filed _
  · rename_i i found
    dsimp only
    split
    · exact quiet_answered filed _
    · rename_i stays
      have stays : (s.tasks i).removePending = false := eq_false_of_ne_true stays
      split
      · rename_i suspended
        have acts := acts_modify (fresh_filed filed) i KernelTask.resume (by simp)
        rw [KernelTask.resume_eq] at acts
        exact quiet_stay (acts_answer acts _) (.resume found stays suspended)
      · rename_i running
        have running : (s.tasks i).suspended = false := eq_false_of_ne_true running
        split
        · rename_i asked
          exact quiet_stay (acts_answer (acts_modify (fresh_filed filed) i KernelTask.liftSuspend rfl) _)
            (.lift found stays running asked)
        · exact quiet_answered filed _

theorem hears_join {slot : Slot} (free : (s.tasks i).user = none)
    (alters : Alters law s.kernel.fresh i slot k') (linked : (s.kernel.fresh.modifyTask i f).addKernelTask i = some k') :
    Hears law s ({s with kernel := k'.answer r}.setPhase i p) e := by
  obtain ⟨σ,called,rfl⟩ := of_return linked
  exact .joins ((filed.free i).mpr free) called fun j other => congrArg Slot.task (alters.other other)

theorem addTask_quiet (stepped : s.step (.addTask user) = some t) :
    Quiet law s t (.addTask user) := by
  obtain ⟨r,added,rfl⟩ := of_return stepped
  unfold Kernel.addTask at added
  split at added
  · rename_i usable
    rcases tryAllocateNewTask_parts s.kernel.fresh user with ⟨i,free,apart,allocated⟩ | ⟨result,refused⟩
    · rw [allocated] at added
      obtain ⟨k',linked,same⟩ := of_map added
      cases same
      have alters := addKernelTask_alters (fresh_filed filed) free (by simp [KernelTask.bind]) rfl linked
      exact quiet_alters (alters_answer alters _) (.bind usable.1 free apart) (hears_join filed free alters linked)
    · rw [refused] at added
      cases added
      exact quiet_answered filed _
  · cases added
    exact quiet_answered filed _

theorem addTaskHrt_quiet (stepped : s.step (.addTaskHrt user period deadline delay) = some t) :
    Quiet law s t (.addTaskHrt user period deadline delay) := by
  obtain ⟨r,added,rfl⟩ := of_return stepped
  unfold Kernel.addTaskHrt at added
  split at added
  · rename_i usable
    obtain ⟨hrt,⟨p,pmax,d,dmax,delayed⟩,_,stopped⟩ := usable
    rcases tryAllocateNewTask_parts s.kernel.fresh user with ⟨i,free,apart,allocated⟩ | ⟨result,refused⟩
    · rw [allocated] at added
      obtain ⟨k',linked,same⟩ := of_map added
      cases same
      rw [modifyTask_twice] at linked
      have alters := addKernelTask_alters (fresh_filed filed) free
        (by simp [user_hrtInit,KernelTask.bind]) (by simp [waitObj_hrtInit,KernelTask.bind]) linked
      rw [Function.comp_apply,KernelTask.hrtInit_eq] at alters
      exact quiet_alters (alters_answer alters _) (.bindHrt hrt free stopped p pmax d dmax delayed apart)
        (hears_join filed free alters linked)
    · rw [refused] at added
      cases added
      exact quiet_answered filed _
  · cases added
    exact quiet_answered filed _

theorem removeTask_quiet (stepped : s.step (.removeTask tid) = some t) :
    Quiet law s t (.removeTask tid) := by
  change (if s.kernel.fresh.isStarted then none else do return {s with kernel := ← s.kernel.fresh.removeUserTask tid}) =
    some t at stepped
  split at stepped
  · cases stepped
  · rename_i stopped
    obtain ⟨k',removed,rfl⟩ := of_return stepped
    unfold removeUserTask at removed
    split at removed
    · rename_i dynamic
      split at removed
      · rename_i i found
        exact quiet_stay (removeTask_acts (fresh_filed filed) removed) (.unbind dynamic (eq_false_of_ne_true stopped) found)
      · cases removed; exact quiet_same filed
    · cases removed; exact quiet_same filed

theorem quiet_leave {p : Phase} (move : Move s i .leave (s.slot i).fresh p) :
    Quiet law s (System.setPhase {s with kernel := s.kernel.fresh} i p) .leave :=
  quiet_acts (.refl (fresh_filed filed) i) move

theorem leave_quiet (stepped : s.step .leave = some t) : Quiet law s t .leave := by
  change System.leave {s with kernel := s.kernel.fresh} = some t at stepped
  have awake_iff : ∀ {i},¬(System.tasks {s with kernel := s.kernel.fresh} i).isSleeping = true →
      ¬(s.tasks i).timeSleep < 0 := fun awake => mt (KernelTask.isSleeping_iff _).mpr awake
  unfold System.leave at stepped
  split at stepped
  · rename_i i executes
    split at stepped
    · rename_i spins
      split at stepped
      · cases stepped
      · rename_i consumed
        cases stepped
        exact quiet_leave filed (.leave executes spins (by simp) (by simp) (by simp) (by simp)
          fun _ => eq_false_of_ne_true consumed)
    · rename_i spins
      split at stepped
      · cases stepped
      · rename_i awake
        cases stepped
        have done := acts_modify (fresh_filed filed) i KernelTask.clearWait rfl
        have told := done.trans (acts_notify done.filed i (.waited (s.tasks i).waitObj.getWaitResult))
        rw [done.task,done.place,done.notices] at told
        exact quiet_acts told (.leaveWait executes spins (awake_iff awake))
    · rename_i spins
      split at stepped
      · cases stepped
      · rename_i awake
        cases stepped
        exact quiet_leave filed (.leaveExit executes spins (awake_iff awake))
    · cases stepped
    · rename_i call notYield notWait notExit notReturned spins
      split at stepped
      · cases stepped
      · rename_i awake
        cases stepped
        exact quiet_leave filed (.leave executes spins (by rintro rfl; exact notWait rfl) (by rintro rfl; exact notExit rfl)
          (by rintro rfl; exact notReturned rfl) (fun _ => awake_iff awake) fun same => absurd same notYield)
    · cases stepped
  · cases stepped

theorem setSchedulerLock_quiet (stepped : s.step (.setSchedulerLock lock) = some t) :
    Quiet law s t (.setSchedulerLock lock) := by
  obtain ⟨i,calls,rfl⟩ := of_return stepped
  unfold Kernel.setSchedulerLock
  split
  · have called : s.caller.isSome = true := by rw [show s.caller = some i from calls]; rfl
    refine ⟨filed.still rfl rfl rfl rfl,rfl,rfl,rfl,fun locked => ?_,rfl,rfl,
      fun _ => .rest,.nothing rfl⟩
    cases lock with
    | true => exact .inr ⟨rfl,called⟩
    | false => cases locked
  · exact quiet_same filed

theorem suspend_quiet (stepped : s.step (.suspend off) = some t) :
    Quiet law s t (.suspend off) := by
  obtain ⟨k',suspended,rfl⟩ := of_return stepped
  let k₁ := if off then
      if s.kernel.fresh.kstate = .running ∨ s.kernel.fresh.kstate = .locked then {s.kernel.fresh with kstate := .suspended}
      else s.kernel.fresh
    else if s.kernel.fresh.kstate = .suspended then {s.kernel.fresh with kstate := .running} else s.kernel.fresh
  have shape : ∃ kstate,k₁ = {s.kernel.fresh with kstate := kstate} ∧ (kstate = .locked → s.kernel.kstate = .locked) := by
    simp only [k₁]
    split <;> split
    · exact ⟨_,rfl,by simp⟩
    · exact ⟨_,rfl,id⟩
    · exact ⟨_,rfl,by simp⟩
    · exact ⟨_,rfl,id⟩
  obtain ⟨i,now,same⟩ := of_bind suspended
  change k₁.taskNow = some i at now
  change some (if (k₁.tasks i).isSleeping then k₁ else k₁.modifyTask i (KernelTask.scheduleSleep c.mode yieldTicks)) =
    some k' at same
  obtain ⟨kstate,shaped,locks⟩ := shape
  rw [shaped] at now same
  cases same
  have filed₁ : Filed law {s.kernel.fresh with kstate := kstate} :=
    filed.still rfl rfl rfl rfl
  split
  · exact ⟨filed₁,rfl,rfl,rfl,fun locked => .inl (locks locked),rfl,rfl,fun _ => .rest,.nothing rfl⟩
  · rename_i awake
    have acts := acts_modify filed₁ i (KernelTask.scheduleSleep c.mode yieldTicks) rfl
    refine ⟨acts.filed,acts.taskNow,acts.fsmState,acts.ticks,fun locked => .inl (locks (acts.kstate.symm.trans locked)),
      rfl,rfl,fun j => ?_,.nothing rfl⟩
    by_cases at_ : j = i
    · subst at_
      rw [System.slot,acts.self]
      exact .stepAside now (mt (KernelTask.isSleeping_iff _).mpr awake)
    · rw [System.slot,acts.other at_]
      exact .rest

theorem weightChange_quiet (found : s.kernel.fresh.findTaskByUserTask tid = some i)
    (inherits : c.strategy.api.priorityInheritance = true) {f : KernelTask → KernelTask} (changes : ∃ rt base,f (s.tasks i) = (s.tasks i).setWeights rt base)
    (reweighs : e.reweighs = true) (changed : s.kernel.fresh.weightChange i f = some k') : Quiet law s {s with kernel := k'} e := by
  obtain ⟨rt,base,changes⟩ := changes
  simpa [setPhase] using
    quiet_alters (weightChange_alters (fresh_filed filed) found inherits changes changed) (.weights reweighs) (.weighs reweighs)

theorem inheritWeight_quiet (stepped : s.step (.inheritWeight tid weight) = some t) :
    Quiet law s t (.inheritWeight tid weight) := by
  obtain ⟨k',inherited,rfl⟩ := of_return stepped
  unfold onInheritWeight at inherited
  split at inherited
  · rename_i usable
    simp only [Bool.and_eq_true] at usable
    obtain ⟨i,found,inherited⟩ := of_bind inherited
    split at inherited
    · exact weightChange_quiet filed found usable.1.2 (setCurrentWeight_weights _ _ _) rfl inherited
    · cases inherited; exact quiet_same filed
  · cases inherited; exact quiet_same filed

theorem restoreWeight_quiet (stepped : s.step (.restoreWeight tid sobj) = some t) :
    Quiet law s t (.restoreWeight tid sobj) := by
  obtain ⟨k',restored,rfl⟩ := of_return stepped
  unfold onRestoreWeight at restored
  split at restored
  · rename_i usable
    simp only [Bool.and_eq_true] at usable
    obtain ⟨i,found,restored⟩ := of_bind restored
    exact weightChange_quiet filed found usable.2 (setCurrentWeight_weights _ _ _) rfl restored
  · cases restored; exact quiet_same filed

theorem setWeight_quiet (stepped : s.step (.setWeight tid weight) = some t) :
    Quiet law s t (.setWeight tid weight) := by
  obtain ⟨k',set,rfl⟩ := of_return stepped
  unfold onSetWeight at set
  split at set
  · rename_i usable
    simp only [Bool.and_eq_true] at usable
    obtain ⟨i,found,set⟩ := of_bind set
    refine weightChange_quiet filed found usable.2 ?_ rfl set
    obtain ⟨rt,base,based⟩ := setBaseWeight_weights c.strategy.api weight (s.tasks i)
    dsimp only
    rw [based]
    split
    · obtain ⟨rt',base',current⟩ := setCurrentWeight_weights c.strategy.api noWeight
        ((s.tasks i).setWeights rt base)
      exact ⟨rt',base',current⟩
    · exact ⟨rt,base,rfl⟩
  · cases set; exact quiet_same filed

theorem setTimeSlice_quiet (stepped : s.step (.setTimeSlice tid ticks) = some t) :
    Quiet law s t (.setTimeSlice tid ticks) := by
  obtain ⟨k',set,rfl⟩ := of_return stepped
  unfold onSetTimeSlice at set
  split at set
  · obtain ⟨i,_,set⟩ := of_bind set
    cases set
    exact quiet_stay (acts_modify (fresh_filed filed) i (fun t => {t with ts := {t.ts with quantum := ticks}.reload}) rfl)
      .timeSlice
  · cases set; exact quiet_same filed

end

end System
end SuperTinyKernel
