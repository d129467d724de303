import SuperTinyKernel.Clock

namespace SuperTinyKernel

open KernelTask Slot

namespace KernelTask

def setWeights (rt base : Int) (t : KernelTask) : KernelTask := {t with rtWeight := rt,baseWeight := base}

-- What a call leaves of the task. OnTaskSleepImpl also completes the job in a hard real-time
-- kernel.

def blockFor (m : Mode) (ticks : Int) (t : KernelTask) : KernelTask :=
  {t.scheduleSleep m ticks with hrt := {t.hrt with done := m.isHrt || t.hrt.done}}

def removal (m : Mode) (t : KernelTask) : KernelTask :=
  {t.scheduleSleep m waitInfinite with
    removePending := true
    hrt := {t.hrt with done := m.isHrt || t.hrt.done}
    waitObj := (t.dropWait m).waitObj}

def resumed (t : KernelTask) : KernelTask :=
  {t with
    suspended := false
    timeSleep := if t.isSleeping then -1 else t.timeSleep
    wakePending := if t.isSleeping then t.wakePending || t.sleepPending else t.wakePending}

def yielding (m : Mode) (api : Api) (t : KernelTask) : KernelTask :=
  {t with
    yieldPending := api.noSleepYield || t.yieldPending
    ts := if api.noSleepYield && m.isTimeslice then t.ts.reload else t.ts}

def scheduled (m : Mode) (period deadline delay : Int) (t : KernelTask) : KernelTask :=
  {t with
    hrt := {t.hrt with periodicity := period,deadline := deadline}
    sleepPending := t.sleepPending || decide (0 < delay) && !t.isSleeping
    timeSleep := if 0 < delay then -delay else t.timeSleep
    ts := if decide (0 < delay) && m.isTimeslice then t.ts.reload else t.ts}

section

variable (t : KernelTask)
include t

theorem blockFor_eq :
    t.blockFor m ticks = (if m.isHrt then t.hrtOnWorkCompleted else t).scheduleSleep m ticks := by
  unfold blockFor
  cases m.isHrt <;> rfl

theorem removal_eq : (t.dropWait m).markRemoval m = t.removal m := by
  unfold removal markRemoval dropWait
  cases m.isHrt <;> split <;> rfl

theorem resume_eq : t.resume = t.resumed := by
  unfold resume resumed
  split <;> rfl

theorem scheduleYield_eq : t.scheduleYield m api = t.yielding m api := by
  unfold scheduleYield yielding
  cases api.noSleepYield <;> rfl

theorem hrtInit_eq : t.hrtInit m period deadline delay = t.scheduled m period deadline delay := by
  unfold hrtInit scheduled
  by_cases late : 0 < delay <;> simp [late,scheduleSleep,isSleeping]

theorem hrtOnSwitchedOut_eq : t.hrtOnSwitchedOut m =
    {t with
      hrt := {t.hrt with duration := 0,done := false}
      sleepPending := t.sleepPending || decide (t.hrt.duration < t.hrt.periodicity) && !t.isSleeping
      timeSleep := if t.hrt.duration < t.hrt.periodicity then t.hrt.duration - t.hrt.periodicity else t.timeSleep
      ts := if decide (t.hrt.duration < t.hrt.periodicity) && m.isTimeslice then t.ts.reload else t.ts} := by
  unfold hrtOnSwitchedOut
  by_cases early : t.hrt.duration < t.hrt.periodicity <;> simp [early,scheduleSleep,isSleeping,Int.neg_sub]

end

end KernelTask

namespace Slot

variable (c : Config n)

def fresh (s : Slot) : Slot := {s with notices := []}
def modify (f : KernelTask → KernelTask) (s : Slot) : Slot := ⟨f s.task,s.place,[]⟩

-- ScheduleRemoval and SuspendTask deliver the sleep of a slot other than m_task_now.
def settleIf (deliver : Bool) (s : Slot) : Slot :=
  {s with
    task := {s.task with
      sleepPending := !deliver && s.task.sleepPending
      wakePending := !(deliver && s.task.sleepPending) && s.task.wakePending}
    place := if deliver && s.task.sleepPending then c.sleepPlace s.place else s.place}

theorem settleIf_eq (s : Slot) : s.settleIf c deliver = if deliver && s.task.sleepPending then s.settle c else s := by
  obtain ⟨task,place,notices⟩ := s
  obtain ⟨user,removePending,sleepPending⟩ := task
  cases deliver <;> cases sleepPending <;> rfl

end Slot

namespace Kernel

variable {c : Config n} {law : Lawful c.strategy} {k u k' : Kernel c} {i : Fin n} {ticks : Int}

theorem onTaskSleepImpl_acts (filed : Filed law k) (i : Fin n) (positive : 0 < ticks) :
    (k.onTaskSleepImpl i ticks).2 = some .sleep ∧
      Acts law k i ⟨(k.tasks i).blockFor c.mode ticks,k.place i,k.notices i⟩ (k.onTaskSleepImpl i ticks).1 := by
  unfold onTaskSleepImpl
  rw [if_pos positive,blockFor_eq]
  refine ⟨rfl,?_⟩
  split
  · have done := acts_modify filed i hrtOnWorkCompleted rfl
    simpa using done.trans (acts_modify done.filed i (scheduleSleep c.mode ticks) rfl)
  · exact acts_modify filed i _ rfl

theorem onTaskSleepImpl_strategy (k : Kernel c) : (k.onTaskSleepImpl i ticks).1.strategy = k.strategy := by
  unfold onTaskSleepImpl
  dsimp only
  split <;> split <;> rfl

theorem settleIf_acts {slot : Slot} {deliver : Prop} [Decidable deliver] (acts : Acts law k i slot u)
    (delivered : (if deliver ∧ (u.tasks i).sleepPending = true then u.processTaskPendingSleep i else some u) = some k') :
    Acts law k i (slot.settleIf c (decide deliver)) k' := by
  rw [acts.task] at delivered
  rw [settleIf_eq]
  split at delivered
  · rename_i both
    rw [if_pos (by simpa using both),← acts.self]
    exact acts.trans (processTaskPendingSleep_acts acts.filed delivered)
  · rename_i either
    cases delivered
    rw [if_neg (by simpa using either)]
    exact acts

theorem scheduleRemoval_acts (filed : Filed law k) (removed : k.scheduleRemoval i = some k') :
    Acts law k i (settleIf c (decide (k.taskNow ≠ some i))
      ⟨(k.tasks i).removal c.mode,k.place i,k.notices i⟩) k' := by
  obtain ⟨k₁,dropped,removed⟩ := of_bind removed
  have drop := cancelNoWake_acts filed dropped
  have mark := drop.trans (acts_modify drop.filed i (markRemoval c.mode) (by simp))
  rw [drop.task,drop.place,drop.notices,removal_eq] at mark
  refine settleIf_acts mark ?_
  rw [← drop.taskNow]
  exact removed

theorem scheduleRemoval_now (filed : Filed law k) (now : k.taskNow = some i)
    (removed : k.scheduleRemoval i = some k') :
    Acts law k i ⟨(k.tasks i).removal c.mode,k.place i,k.notices i⟩ k' := by
  have acts := scheduleRemoval_acts filed removed
  simpa [now,settleIf_eq] using acts

theorem suspendTask_parts (filed : Filed law k) (suspended : k.suspendTask tid = some (k',result)) :
    (result ≠ .done ∧ k' = k) ∨
    ∃ i,k.findTaskByUserTask tid = some i ∧ (k.tasks i).removePending = false ∧ (k.tasks i).suspended = false ∧
      (k.tasks i).suspendPending = false ∧
      ((k.tasks i).timeSleep < 0 ∧ result = .deferred ∧
          Acts law k i ⟨(k.tasks i).deferSuspend,k.place i,k.notices i⟩ k' ∨
        ¬(k.tasks i).timeSleep < 0 ∧ ¬(k.isLocked = true ∧ k.taskNow = some i) ∧ result = .done ∧
          Acts law k i (settleIf c (decide (k.taskNow ≠ some i) && k.isStarted)
            ⟨(k.tasks i).markSuspended c.mode,k.place i,k.notices i⟩) k') := by
  unfold Kernel.suspendTask at suspended
  split at suspended
  · cases suspended; exact .inl ⟨by simp,rfl⟩
  · rename_i i found
    dsimp only at suspended
    split at suspended
    · cases suspended; exact .inl ⟨by simp,rfl⟩
    · rename_i stays
      split at suspended
      · cases suspended; exact .inl ⟨by simp,rfl⟩
      · rename_i fresh
        have fresh : (k.tasks i).suspended = false ∧ (k.tasks i).suspendPending = false := by simpa using fresh
        have stays : (k.tasks i).removePending = false := by simpa [isPendingRemoval] using stays
        split at suspended
        · rename_i asleep
          cases suspended
          exact .inr ⟨i,found,stays,fresh.1,fresh.2,.inl ⟨(isSleeping_iff _).mp asleep,rfl,
            acts_modify filed i deferSuspend rfl⟩⟩
        · rename_i awake
          split at suspended
          · cases suspended; exact .inl ⟨by simp,rfl⟩
          · rename_i unlocked
            obtain ⟨k₁,done,same⟩ := of_map suspended
            cases same
            refine .inr ⟨i,found,stays,fresh.1,fresh.2,.inr ⟨mt (isSleeping_iff _).mpr awake,unlocked,rfl,?_⟩⟩
            have mark := acts_modify filed i (markSuspended c.mode) rfl
            have deliver : (decide (k.taskNow ≠ some i) && k.isStarted) =
                decide (k.taskNow ≠ some i ∧ k.isStarted = true) := by simp
            rw [deliver]
            refine settleIf_acts mark ?_
            simp only [and_assoc]
            exact done

theorem tryAllocateNewTask_parts (k : Kernel c) (user : UserTask) :
    (∃ i,(k.tasks i).user = none ∧ k.collision user = false ∧ k.tryAllocateNewTask user =
      (k.modifyTask i (bind c.mode c.strategy.api user),some i,.ok)) ∨
    ∃ result,k.tryAllocateNewTask user = (k,none,result) := by
  unfold tryAllocateNewTask
  split
  · exact .inr ⟨_,rfl⟩
  · rename_i apart
    split
    · exact .inr ⟨_,rfl⟩
    · rename_i i found
      have free : k.isFree i = true := List.find?_some (p := k.isFree) found
      exact .inl ⟨i,by simpa [isFree,isBusy] using free,eq_false_of_ne_true apart,rfl⟩

theorem user_hrtInit (t : KernelTask) : (t.hrtInit m period deadline delay).user = t.user := by
  unfold hrtInit; dsimp only; split <;> rfl
theorem waitObj_hrtInit (t : KernelTask) : (t.hrtInit m period deadline delay).waitObj = t.waitObj := by
  unfold hrtInit; dsimp only; split <;> rfl

theorem found_user (found : k.findTaskByUserTask tid = some i) : ∃ u,(k.tasks i).user = some u ∧ u.id = tid := by
  have owner := List.find?_some found
  rw [decide_eq_true_eq,Option.map_eq_some_iff] at owner
  exact owner

theorem weightChange_alters (filed : Filed law k) (found : k.findTaskByUserTask tid = some i)
    (inherits : c.strategy.api.priorityInheritance = true) {f : KernelTask → KernelTask} (changes : f (k.tasks i) = (k.tasks i).setWeights rt base)
    (changed : k.weightChange i f = some k') :
    Alters law k i ⟨(k.tasks i).setWeights rt base,k.place i,k.notices i⟩ k' := by
  obtain ⟨σ,called,rfl⟩ := of_return changed
  obtain ⟨u,bound,_⟩ := found_user found
  obtain ⟨inv,kept⟩ := law.weightChange inherits filed.inv (fun free => by simp [(filed.free i).mp free] at bound) (fun j apart => by
    simp [Views.weights,view,modifyTask,apart]) called
  have unlinked : (f (k.tasks i)).waitObj.syncObj = (k.tasks i).waitObj.syncObj := by rw [changes]; rfl
  refine ⟨⟨⟨filed.toLinked.congr rfl rfl (syncObj_update unlinked),inv,fun j => ?_⟩,rfl,rfl,rfl,rfl⟩,?_⟩
  · have same : ((k.modifyTask i f).tasks j).user = (k.tasks j).user := by
      by_cases at_ : j = i
      · subst at_; simp [changes,setWeights]
      · simp [modifyTask,at_]
    simpa [place,setStrategy,kept,same] using filed.free j
  · funext j
    by_cases at_ : j = i
    · subst at_; simp [slot,place,setStrategy,kept,modifyTask,changes]
    · simp [slot,place,setStrategy,kept,modifyTask,at_]

theorem setCurrentWeight_weights (api : Api) (w : Int) (t : KernelTask) : ∃ rt base,t.setCurrentWeight api w = t.setWeights rt base := by
  unfold setCurrentWeight
  split
  · exact ⟨w,t.baseWeight,rfl⟩
  · exact ⟨t.rtWeight,t.baseWeight,rfl⟩

theorem setBaseWeight_weights (api : Api) (w : Int) (t : KernelTask) : ∃ rt base,t.setBaseWeight api w = t.setWeights rt base := by
  unfold setBaseWeight
  split
  · exact ⟨t.rtWeight,w,rfl⟩
  · exact ⟨t.rtWeight,t.baseWeight,rfl⟩

end Kernel
end SuperTinyKernel
