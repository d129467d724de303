import SuperTinyKernel.Sleeping

namespace SuperTinyKernel.Kernel

-- In an orderly kernel each list operation of a tick finds its entry in the list it expects.

variable {c : Config n} {law : Lawful c.strategy} {k k' : Kernel c} {i : Fin n} {o : SyncId}

theorem processTaskPendingSleep_defined (filed : Filed law k) (settled : (k.slot i).Settled c)
    (flagged : (k.tasks i).sleepPending = true) : ∃ k',k.processTaskPendingSleep i = some k' := by
  unfold processTaskPendingSleep deliverSleep
  split
  · rename_i aware
    have bound : k.place i ≠ .free := mt (filed.free i).mp (settled.busy (settled.pending flagged))
    have listed : k.place i ≠ .asleep := fun asleep => by
      have clear := ((settled.asleep aware).mp asleep).2
      rw [slot_task,flagged] at clear
      cases clear
    have ready : k.place i = .ready := by
      cases at_ : k.place i with
      | free => exact absurd at_ bound
      | asleep => exact absurd at_ listed
      | ready => rfl
    obtain ⟨σ,called⟩ := law.sleep_defined aware (acts_modify filed i KernelTask.clearPending rfl).filed.inv ready
    exact ⟨(k.modifyTask i KernelTask.clearPending).setStrategy σ,by rw [called]; rfl⟩
  · exact ⟨_,rfl⟩

theorem deliverWake_defined (filed : Filed law k) (fits : law.Fits ((k.tasks i).getWeight c.strategy.api))
    (asleep : c.strategy.api.sleepEvent = true → k.place i = .asleep) : ∃ k',k.deliverWake i = some k' := by
  unfold deliverWake
  split
  · rename_i aware
    obtain ⟨σ,called⟩ := law.wake_defined aware filed.inv fits (asleep aware)
    exact ⟨(k.setStrategy σ).notify i .woke,by rw [called]; rfl⟩
  · exact ⟨_,rfl⟩

theorem advanceSleep_defined (elapsed : Int) (filed : Filed law k) (settled : (k.slot i).Settled c) (sleeping : (k.tasks i).timeSleep < 0)
    (fits : law.Fits ((k.tasks i).getWeight c.strategy.api)) : ∃ k',k.advanceSleep elapsed i = some k' := by
  obtain ⟨k₁,entered,filed₁,listed,weight⟩ : ∃ k₁,
      (if (k.tasks i).sleepPending then k.processTaskPendingSleep i else some k) = some k₁ ∧ Filed law k₁ ∧
      (c.strategy.api.sleepEvent = true → k₁.place i = .asleep) ∧ (k₁.tasks i).filing = (k.tasks i).filing := by
    split
    · rename_i flagged
      obtain ⟨k₁,processed⟩ := processTaskPendingSleep_defined filed settled flagged
      have acts := processTaskPendingSleep_acts filed processed
      refine ⟨k₁,processed,acts.filed,fun aware => ?_,by rw [acts.task]; rfl⟩
      rw [acts.place]
      simp [Slot.settle,Config.sleepPlace,aware]
    · rename_i clear
      exact ⟨k,rfl,filed,fun aware => (settled.asleep aware).mpr ⟨sleeping,eq_false_of_ne_true clear⟩,rfl⟩
  unfold advanceSleep
  dsimp only
  rw [entered]
  simp only [Option.bind_eq_bind,Option.bind_some]
  split
  · exact ⟨_,rfl⟩
  · split
    · exact ⟨_,rfl⟩
    · split
      · exact ⟨_,rfl⟩
      · have advance := acts_modify filed₁ i (KernelTask.advance elapsed) rfl
        refine deliverWake_defined advance.filed ?_ fun aware => (advance.place).trans (listed aware)
        rw [advance.task]
        exact (KernelTask.getWeight_filing (t := k.tasks i) weight _) ▸ fits

theorem removeTask_defined (filed : Filed law k) (bound : (k.tasks i).user ≠ none) : ∃ k',k.removeTask i = some k' := by
  obtain ⟨user,named⟩ := Option.ne_none_iff_exists'.mp bound
  obtain ⟨σ,called⟩ := law.remove_defined filed.inv (mt (filed.free i).mp bound)
  exact ⟨_,by simp only [removeTask,named,called]; rfl⟩

theorem trackDuration_defined (elapsed : Int) (filed : Filed law k) : ∃ k',k.trackDuration elapsed i = some k' := by
  unfold trackDuration
  dsimp only
  split
  · split
    · split
      · obtain ⟨r,called⟩ := law.deadlineMissed_defined (i := i) filed.inv
        exact ⟨_,by rw [show (k.modifyTask i (KernelTask.count elapsed)).strategy = k.strategy from rfl,called]; rfl⟩
      · exact ⟨_,rfl⟩
    · exact ⟨_,rfl⟩
  · exact ⟨_,rfl⟩

def Deliverable (law : Lawful c.strategy) (k : Kernel c) (i : Fin n) : Prop :=
  (k.slot i).Settled c ∧ ((k.tasks i).user ≠ none → law.Fits ((k.tasks i).getWeight c.strategy.api))

theorem Deliverable.congr (deliverable : Deliverable law k i) (same : k'.slot i = k.slot i) : Deliverable law k' i := by
  have task : k'.tasks i = k.tasks i := congrArg Slot.task same
  rw [Deliverable,same,task]
  exact deliverable

section

variable (elapsed : Int)
include elapsed

theorem updateSlot_defined {acc : Kernel c × Int} (filed : Filed law acc.1) (deliverable : Deliverable law acc.1 i) :
    ∃ acc',updateSlot elapsed acc i = some acc' := by
  obtain ⟨k,sleepTicks⟩ := acc
  obtain ⟨settled,fits⟩ := deliverable
  have yielded := acts_modify filed i (consumeYield c) (by simp)
  have kept : ((k.modifyTask i (consumeYield c)).slot i).Settled c := by rw [yielded.self]; exact settled.consumeYield
  have weight : ((k.modifyTask i (consumeYield c)).tasks i).getWeight c.strategy.api =
      (k.tasks i).getWeight c.strategy.api :=
    KernelTask.getWeight_filing (by rw [yielded.task]; exact KernelTask.filing_identity (KernelTask.identity_consumeYield c _)) _
  unfold updateSlot
  dsimp only
  split
  · rename_i asleep
    have sleeping := (KernelTask.isSleeping_iff _).mp asleep
    have bound := kept.busy sleeping
    split
    · obtain ⟨k',removed⟩ := removeTask_defined yielded.filed bound
      exact ⟨_,by rw [removed]; rfl⟩
    · have busy : (k.tasks i).user ≠ none := by
        rw [slot_task,yielded.task] at bound
        rwa [KernelTask.user_filing (KernelTask.filing_identity (KernelTask.identity_consumeYield c (k.tasks i)))] at bound
      obtain ⟨k',advanced⟩ := advanceSleep_defined elapsed yielded.filed kept sleeping (weight ▸ fits busy)
      exact ⟨_,by rw [advanced]; rfl⟩
  · obtain ⟨k',tracked⟩ := trackDuration_defined elapsed (i := i) yielded.filed
    exact ⟨_,by rw [tracked]; rfl⟩

section

variable (filed : Filed law k)
include filed

theorem updateTaskState_defined (deliverable : ∀ i,Deliverable law k i) :
    ∃ r,k.updateTaskState elapsed = some r := by
  refine Turns.foldlM_defined (List.finRange n) (List.nodup_finRange n) (I := fun acc => Filed law acc.1)
    (R := fun acc i => Deliverable law acc.1 i) filed (fun i _ => deliverable i) fun acc i _ filed ready => ?_
  obtain ⟨acc',updated⟩ := updateSlot_defined elapsed filed ready
  obtain ⟨_,_,acts⟩ := updateSlot_alters filed updated
  exact ⟨acc',updated,acts.filed,fun j _ apart ready => ready.congr (acts.other apart)⟩

theorem tickWaitObject_defined (names : (k.tasks i).waitObj.syncObj = some o) :
    ∃ k',k.tickWaitObject elapsed i = some k' := by
  unfold tickWaitObject
  dsimp only
  split
  · exact ⟨_,rfl⟩
  · have counted := acts_modify filed i (KernelTask.tickWait elapsed) (by simp)
    refine endWait_defined counted.filed.toLinked ((KernelTask.isWaiting_iff _).mpr ⟨o,?_⟩) _
    rw [counted.task]
    exact (KernelTask.syncObj_identity (KernelTask.identity_tickWait _)).trans names

theorem tickSyncObject_defined : ∃ k',k.tickSyncObject elapsed o = some k' := by
  obtain ⟨k₁,looped⟩ : ∃ k₁,(k.waitList o).foldlM (tickWaitObject elapsed) k = some k₁ := by
    refine Turns.foldlM_defined (k.waitList o) (filed.distinct o) (I := fun u => Filed law u)
      (R := fun u i => (u.tasks i).waitObj.syncObj = some o) filed (fun i linked => (filed.linked o i).mp linked)
      fun u i _ filed names => ?_
    obtain ⟨u',ticked⟩ := tickWaitObject_defined elapsed filed names
    have acts := tickWaitObject_acts filed ticked
    exact ⟨u',ticked,acts.filed,fun j _ apart named => by
      rw [show u'.tasks j = u.tasks j from congrArg Slot.task (acts.other apart)]; exact named⟩
  exact ⟨_,by simp only [tickSyncObject,looped]; rfl⟩

theorem updateSyncObjects_defined : ∃ k',k.updateSyncObjects elapsed = some k' := by
  refine Turns.foldlM_defined k.syncList filed.once (I := fun u => Filed law u) (R := fun _ _ => True) filed
    (fun _ _ => trivial) fun u o _ filed _ => ?_
  obtain ⟨u',ticked⟩ := tickSyncObject_defined elapsed (o := o) filed
  exact ⟨u',ticked,(tickSyncObject_slots filed ticked).1.filed,fun _ _ _ _ => trivial⟩

theorem updateTimeslice_defined : ∃ k',k.updateTimeslice elapsed = some k' := by
  unfold updateTimeslice
  split
  · exact ⟨_,rfl⟩
  · rename_i j _
    split
    · dsimp only
      split
      · have charge := acts_modify filed j (chargeTimeslice elapsed) rfl
        have reload := acts_modify charge.filed j (fun t => {t with ts := t.ts.reload}) rfl
        obtain ⟨r,called⟩ := law.timeSlice_defined (i := j) reload.filed.inv
        exact ⟨_,by rw [called]; rfl⟩
      · exact ⟨_,rfl⟩
    · exact ⟨_,rfl⟩

end

end

theorem filing_tickSync (t : KernelTask) : (t.tickSync m elapsed).filing = t.filing := by
  unfold KernelTask.tickSync KernelTask.tickEntry
  split
  · split <;> rfl
  · rfl

theorem beforeDecision_defined (elapsed : Int) (filed : Filed law k) (settled : ∀ i,(k.slot i).Settled c)
    (wakes : ∀ i,c.mode.isSync = true → (k.tasks i).waitObj.isWaiting = true →
      ((k.tasks i).waitObj.tick elapsed).state ≠ .wait → (k.tasks i).timeSleep < 0)
    (fits : ∀ i,(k.tasks i).user ≠ none → law.Fits ((k.tasks i).getWeight c.strategy.api)) :
    ∃ r,k.beforeDecision elapsed = some r := by
  have counted : Filed law {k with ticks := k.ticks + elapsed} :=
    filed.still rfl rfl rfl rfl
  obtain ⟨k₁,synced⟩ : ∃ k₁,(if c.mode.isSync then {k with ticks := k.ticks + elapsed}.updateSyncObjects elapsed
      else some {k with ticks := k.ticks + elapsed}) = some k₁ := by
    split
    · exact updateSyncObjects_defined elapsed counted
    · exact ⟨_,rfl⟩
  obtain ⟨steady,waits⟩ := updateSyncObjects_slots counted synced
  obtain ⟨⟨k₂,sleepTicks⟩,updated⟩ := updateTaskState_defined elapsed steady.filed fun i => by
    have slot : k₁.slot i = (k.slot i).tickSync c elapsed := waits i
    have task : k₁.tasks i = (k.tasks i).tickSync c.mode elapsed := congrArg Slot.task slot
    refine ⟨slot ▸ (settled i).tickSync (wakes i),fun bound => ?_⟩
    rw [task] at bound ⊢
    rw [KernelTask.getWeight_filing (filing_tickSync _)]
    rw [KernelTask.user_filing (filing_tickSync _)] at bound
    exact fits i bound
  obtain ⟨k₃,charged⟩ : ∃ k₃,(if c.mode.isTimeslice then k₂.updateTimeslice elapsed else some k₂) = some k₃ := by
    split
    · exact updateTimeslice_defined elapsed (updateTaskState_turns steady.filed updated).1.filed
    · exact ⟨_,rfl⟩
  exact ⟨(k₃,sleepTicks),by simp [beforeDecision,updateTasks,synced,updated,charged]⟩

theorem beforeForcedDecision_defined (filed : Filed law k) (settled : ∀ i,(k.slot i).Settled c) (now : k.taskNow = some i)
    (tid : TId) : ∃ r,k.beforeForcedDecision tid = some r := by
  have released : Filed law k.releaseLock := filed.still rfl rfl rfl rfl
  unfold beforeForcedDecision
  rw [now]
  simp only [Option.bind_eq_bind,Option.bind_some]
  split
  · split
    · split
      · rename_i flagged
        obtain ⟨k',processed⟩ := processTaskPendingSleep_defined released (settled i) flagged
        exact ⟨_,by rw [processed]; rfl⟩
      · exact ⟨_,rfl⟩
    · split <;> exact ⟨_,rfl⟩
  · exact ⟨_,rfl⟩

end SuperTinyKernel.Kernel

namespace SuperTinyKernel.System

open Kernel

variable {c : Config n} {law : Lawful c.strategy} {s : System c}

theorem reached_soft (law : Lawful c.strategy) (soft : c.mode.isHrt = false)
    (run : Transition.Run step (fun s e => s.wakesAsleep e = true) (initial c) s) : Sound law s ∧ Orderly s ∧ Soft s := by
  have start : Soft (initial c) := ⟨fun started => (by cases started),fun _ selected => (by cases selected)⟩
  exact Transition.Run.keeps run (I := fun s => Sound law s ∧ Orderly s ∧ Soft s)
    ⟨⟨initial_filed law,initial_contexts⟩,initial_orderly law,start⟩ fun _ _ _ ⟨sound,orderly,before⟩ wakes taken =>
      ⟨sound.step taken,orderly.step sound wakes (sound.stepped taken),
        before.step soft sound orderly wakes (sound.stepped taken)⟩

-- In every run in which Wake() finds the tasks asleep whose waits it ends: a bound slot is in
-- the sleep list exactly while it sleeps with no pending flag; only m_task_now carries the
-- flag; the last decision selected an awake task; and no list is misused up to the next
-- decision, given weights that the strategy has lists for.
theorem sleep_lists_agree (b : Bundled) (chosen : c.strategy = b.strategy n) (aware : c.strategy.api.sleepEvent = true)
    (soft : c.mode.isHrt = false)
    (run : Transition.Run step (fun s e => s.wakesAsleep e = true) (initial c) s) :
    (∀ i,(s.tasks i).user ≠ none →
      (i ∈ c.strategy.sleepList s.kernel.strategy ↔ (s.tasks i).timeSleep < 0 ∧ (s.tasks i).sleepPending = false) ∧
      (¬((s.tasks i).timeSleep < 0 ∧ (s.tasks i).sleepPending = false) →
        (c.strategy.runnable s.kernel.strategy).count i = 1)) ∧
    (s.kernel.isStarted = true → ∀ i,(s.tasks i).sleepPending = true → s.kernel.taskNow = some i) ∧
    (∀ i,.selected ∈ s.kernel.notices i → ¬(s.tasks i).timeSleep < 0) ∧
    ((∀ i,(s.tasks i).user ≠ none → (b.law chosen).Fits ((s.tasks i).getWeight c.strategy.api)) →
      ∀ elapsed,s.wakesAsleep (.tick elapsed) = true → ∃ r,s.kernel.fresh.beforeDecision elapsed = some r) ∧
    (s.kernel.isStarted = true → ∀ tid,∃ r,s.kernel.fresh.beforeForcedDecision tid = some r) := by
  obtain ⟨sound,orderly,only⟩ := reached_soft (b.law chosen) soft run
  refine ⟨fun i bound => ?_,only.pending,only.selected,fun fits elapsed wakes => ?_,fun started tid => ?_⟩
  · have listed := (orderly.settled i).asleep aware
    have listed : s.place i = .asleep ↔ (s.tasks i).timeSleep < 0 ∧ (s.tasks i).sleepPending = false := listed
    refine ⟨(c.strategy.place_asleep_iff).symm.trans listed,fun runs => ?_⟩
    refine (b.law chosen).runnable_once sound.filed.inv ?_
    cases at_ : s.place i with
    | free => exact absurd ((sound.filed.free i).mp at_) bound
    | asleep => exact absurd (listed.mp at_) runs
    | ready => exact at_
  · refine beforeDecision_defined elapsed (fresh_filed sound.filed) (fun i => (orderly.settled i).kept rfl rfl rfl rfl)
      (fun i sync waiting ends => of_decide_eq_true wakes i ?_) fits
    simp only [endsWait,Bool.and_eq_true,decide_eq_true_eq]
    exact ⟨⟨sync,waiting⟩,ends⟩
  · obtain ⟨i,now⟩ := Option.isSome_iff_exists.mp started
    exact beforeForcedDecision_defined (fresh_filed sound.filed) (fun i => (orderly.settled i).kept rfl rfl rfl rfl) now tid

def waitAndSuspend : List (Event 2) :=
  [.addTask ⟨1,1,1,0⟩,.addTask ⟨2,2,1,0⟩,.start,.wait 7 3,.force,.suspendTask 2 true,.tick 1,.wake 7 true,.tick 1,.leave,
    .resumeTask 2,.sleep 4,.force,.tick 1]

theorem waitAndSuspend_agrees : ∃ s : System (dynamicKernel 2 (by decide)),
    Transition.exec step (initial _) waitAndSuspend = some s ∧ s.kernel.isStarted = true ∧
      0 ∈ (dynamicKernel 2 (by decide)).strategy.sleepList s.kernel.strategy ∧
      ((dynamicKernel 2 (by decide)).strategy.runnable s.kernel.strategy).count 1 = 1 := by
  refine Transition.exec_shows (P := fun s => s.kernel.isStarted = true ∧ (s.tasks 0).user ≠ none ∧ (s.tasks 1).user ≠ none ∧
    ((s.tasks 0).timeSleep < 0 ∧ (s.tasks 0).sleepPending = false) ∧ (s.tasks 1).timeSleep = 0) (by decide) ?_
  intro s ran ⟨started,first,second,asleep,awake⟩
  have run := Transition.Run.ofExecAllowed wakesAsleep (by decide) ran
  obtain ⟨lists,_⟩ := sleep_lists_agree (.roundRobin false) rfl rfl rfl run
  exact ⟨started,(lists 0 first).1.mpr asleep,(lists 1 second).2 (by simp [awake])⟩

-- An interrupt suspends the running task, which calls Wait and is resumed. It runs on with its
-- WaitObject linked, so the signal finds it awake.
def signalAfterResume : List (Event 1) :=
  [.addTask ⟨1,1,1,0⟩,.start,.suspendTask 1 true,.wait 0 waitInfinite,.resumeTask 1,.tick 1,.wake 0 false]

theorem signalAfterResume_unlisted : ∃ s : System (dynamicKernel 1 (by decide)),
    Transition.Run step (fun _ _ => True) (initial _) s ∧ (s.tasks 0).user ≠ none ∧
      ((s.tasks 0).timeSleep < 0 ∧ (s.tasks 0).sleepPending = false) ∧
      0 ∉ (dynamicKernel 1 (by decide)).strategy.sleepList s.kernel.strategy := by
  exact Transition.Run.found signalAfterResume (by decide)

end SuperTinyKernel.System
