import SuperTinyKernel.Slot

namespace SuperTinyKernel

open KernelTask List

-- UpdateTaskState on one slot, `gone` if it is freed, `recovered` if the strategy took care of
-- a missed deadline.
namespace Slot

variable (c : Config n)

def advanceSleep (elapsed : Int) (s : Slot) : Slot :=
  let entered := if s.task.sleepPending then s.settle c else s
  if s.task.sleepPending && !s.task.wakePending || s.task.isSleepInfinite then entered
  else if s.task.suspendPending = true ∧ s.task.timeSleep + elapsed ≥ 0 then
    {entered with task := entered.task.commitSuspend}
  else if s.task.timeSleep + elapsed < 0 then
    {entered with task := entered.task.advance elapsed}
  else ⟨entered.task.advance elapsed,c.wakePlace entered.place,c.wakeNotices entered.notices⟩

def trackDuration (recovered : Bool) (elapsed : Int) (s : Slot) : Slot :=
  if c.mode.isHrt && s.task.isBusy then
    let t := s.task.count elapsed
    ⟨t,s.place,if t.hrtIsDeadlineMissed && !recovered then .missed t.hrt.duration :: s.notices else s.notices⟩
  else s

def consumeYield (s : Slot) : Slot := {s with task := Kernel.consumeYield c s.task}

def turn (gone recovered : Bool) (elapsed : Int) (s : Slot) : Slot :=
  if s.task.timeSleep < 0 then
    if gone then (s.consumeYield c).unbind c else (s.consumeYield c).advanceSleep c elapsed
  else (s.consumeYield c).trackDuration c recovered elapsed

variable {c} {s : Slot} {recovered : Bool} {elapsed : Int}

theorem turn_gone (asleep : s.task.timeSleep < 0) : s.turn c true recovered elapsed = (s.consumeYield c).unbind c := by
  simp [turn,asleep]

theorem turn_asleep (asleep : s.task.timeSleep < 0) :
    s.turn c false recovered elapsed = (s.consumeYield c).advanceSleep c elapsed := by
  simp [turn,asleep]

theorem turn_awake (awake : ¬s.task.timeSleep < 0) :
    s.turn c gone recovered elapsed = (s.consumeYield c).trackDuration c recovered elapsed := by
  simp [turn,awake]

end Slot

namespace Kernel

variable {c : Config n} {law : Lawful c.strategy} {k k' : Kernel c} {i : Fin n} {elapsed : Int}

theorem advanceSleep_acts (filed : Filed law k) (advanced : k.advanceSleep elapsed i = some k') :
    Acts law k i ((k.slot i).advanceSleep c elapsed) k' := by
  unfold advanceSleep at advanced
  obtain ⟨k₁,entered,advanced⟩ := of_bind advanced
  let entry := if (k.slot i).task.sleepPending then (k.slot i).settle c else k.slot i
  have first : Acts law k i entry k₁ := by
    simp only [entry]
    split at entered
    · rename_i pending
      rw [if_pos (by exact pending)]; exact processTaskPendingSleep_acts filed entered
    · rename_i settled
      cases entered
      rw [if_neg (by exact settled)]; exact Acts.refl filed i
  have time : (k₁.tasks i).timeSleep = (k.slot i).task.timeSleep := by
    rw [first.task]; simp only [entry]; split <;> rfl
  have suspend : (k₁.tasks i).suspendPending = (k.slot i).task.suspendPending := by
    rw [first.task]; simp only [entry]; split <;> rfl
  have infinite : (k₁.tasks i).isSleepInfinite = (k.slot i).task.isSleepInfinite := by
    unfold isSleepInfinite; rw [time]
  rw [infinite,time,suspend] at advanced
  change Acts law k i (if _ then entry else if _ then {entry with task := entry.task.commitSuspend}
    else if _ then {entry with task := entry.task.advance elapsed}
    else ⟨entry.task.advance elapsed,c.wakePlace entry.place,c.wakeNotices entry.notices⟩) k'
  split at advanced
  · rename_i stays
    cases advanced
    rw [if_pos (by exact stays)]; exact first
  · rename_i moves
    rw [if_neg (by exact moves)]
    split at advanced
    · rename_i ends
      cases advanced
      rw [if_pos ends,← first.self]
      exact first.trans (acts_modify first.filed i commitSuspend rfl)
    · rename_i continues
      have advance := acts_modify first.filed i (KernelTask.advance elapsed) rfl
      have later : ((k₁.modifyTask i (KernelTask.advance elapsed)).tasks i).isSleeping =
          decide ((k.slot i).task.timeSleep + elapsed < 0) := by
        rw [modifyTask_tasks,KernelTask.advance,isSleeping,time]
      rw [if_neg continues,← first.self]
      dsimp only at advanced
      simp only [later,decide_eq_true_eq] at advanced
      split at advanced
      · rename_i asleep
        cases advanced
        rw [if_pos asleep]; exact first.trans advance
      · rename_i awake
        rw [if_neg awake]
        simpa using first.trans (advance.trans (deliverWake_acts advance.filed advanced).1)

theorem trackDuration_alters (filed : Filed law k) (tracked : k.trackDuration elapsed i = some k') :
    ∃ recovered,(c.strategy.api.deadlineMissed = false → recovered = false) ∧
      Alters law k i ((k.slot i).trackDuration c recovered elapsed) k' := by
  unfold trackDuration at tracked
  split at tracked
  · rename_i hrt
    have counted := acts_modify filed i (count elapsed) rfl
    dsimp only at tracked
    simp only [Slot.trackDuration,slot_task,hrt,↓reduceIte]
    rw [modifyTask_tasks] at tracked
    split at tracked
    · rename_i missed
      simp only [missed,Bool.true_and]
      split at tracked
      · rename_i reports
        obtain ⟨⟨recovered,σ⟩,called,same⟩ := of_bind tracked
        obtain ⟨inv,kept⟩ := law.deadlineMissed counted.filed.inv called
        have unmoved := alters_strategy counted.filed i inv kept
        have filing := counted.toAlters.trans unmoved
        refine ⟨recovered,by simp [reports],?_⟩
        cases recovered <;> cases same
        · simpa [unmoved.place] using filing.trans (acts_notify filing.filed i _).toAlters
        · simpa [slot] using filing
      · cases tracked
        exact ⟨false,by simp,by simpa using (counted.trans (acts_notify counted.filed i _)).toAlters⟩
    · rename_i met
      cases tracked
      exact ⟨false,by simp,by simpa [met] using counted.toAlters⟩
  · rename_i soft
    cases tracked
    exact ⟨false,by simp,by simpa [Slot.trackDuration,soft] using (Acts.refl filed i).toAlters⟩

@[simp] theorem consumeYield_timeSleep (t : KernelTask) : (consumeYield c t).timeSleep = t.timeSleep := by
  unfold consumeYield; split <;> rfl
@[simp] theorem consumeYield_removePending (t : KernelTask) : (consumeYield c t).removePending = t.removePending := by
  unfold consumeYield; split <;> rfl

theorem updateSlot_alters {acc acc' : Kernel c × Int} (filed : Filed law acc.1)
    (updated : updateSlot elapsed acc i = some acc') :
    ∃ recovered,(c.strategy.api.deadlineMissed = false → recovered = false) ∧
      Alters law acc.1 i ((acc.1.slot i).turn c (acc.1.removable i) recovered elapsed) acc'.1 := by
  obtain ⟨k,sleepTicks⟩ := acc
  have yielded := acts_modify filed i (consumeYield c) (by simp)
  have removable : (k.modifyTask i (consumeYield c)).removable i = k.removable i := by
    unfold Kernel.removable isPendingRemoval; rw [modifyTask_tasks,consumeYield_removePending]; rfl
  have asleep_iff : (consumeYield c (k.tasks i)).isSleeping = true ↔ (k.slot i).task.timeSleep < 0 := by simp
  have consumed : (k.modifyTask i (consumeYield c)).slot i = (k.slot i).consumeYield c := yielded.self
  simp only [updateSlot,removable,modifyTask_tasks] at updated
  split at updated
  · rename_i asleep
    have asleep := asleep_iff.mp asleep
    split at updated
    · rename_i goes
      obtain ⟨k',removed,same⟩ := of_map updated
      cases same
      refine ⟨false,by simp,?_⟩
      dsimp only
      rw [goes,Slot.turn_gone asleep,← consumed]
      exact (yielded.trans (removeTask_acts yielded.filed removed)).toAlters
    · rename_i stays
      obtain ⟨k',advanced,same⟩ := of_map updated
      cases same
      refine ⟨false,by simp,?_⟩
      dsimp only
      rw [eq_false_of_ne_true stays,Slot.turn_asleep asleep,← consumed]
      exact (yielded.trans (advanceSleep_acts yielded.filed advanced)).toAlters
  · rename_i awake
    have awake := mt asleep_iff.mpr awake
    obtain ⟨k',tracked,same⟩ := of_map updated
    cases same
    obtain ⟨recovered,honest,tracking⟩ := trackDuration_alters yielded.filed tracked
    refine ⟨recovered,honest,?_⟩
    rw [Slot.turn_awake awake,← consumed]
    exact yielded.toAlters.trans tracking

theorem before_iff {before after : List (Fin n)} (split : List.finRange n = before ++ i :: after) (j : Fin n) :
    j ∈ before ↔ j < i := by
  have sorted := pairwise_lt_finRange n
  rw [split,pairwise_append] at sorted
  obtain ⟨_,tail,cross⟩ := sorted
  refine ⟨fun earlier => cross j earlier i (by simp),fun less => ?_⟩
  have somewhere : j ∈ before ++ i :: after := split ▸ mem_finRange j
  rcases mem_append.mp somewhere with earlier | later
  · exact earlier
  · rcases mem_cons.mp later with rfl | later
    · exact absurd less (lt_irrefl _)
    · exact absurd less (not_lt.mpr ((pairwise_cons.mp tail).1 j later).le)

theorem updateTaskState_turns (filed : Filed law k) (updated : k.updateTaskState elapsed = some (k',sleepTicks)) :
    Steady law k k' ∧ ∀ i,∃ u recovered,Steady law k u ∧ (∀ j,j < i → u.slot j = k'.slot j) ∧
      (∀ j,i ≤ j → u.slot j = k.slot j) ∧ (c.strategy.api.deadlineMissed = false → recovered = false) ∧
      k'.slot i = (k.slot i).turn c (u.removable i) recovered elapsed := by
  have loop := Turns.foldlM_turn (fun (acc : Kernel c × Int) j => acc.1.slot j) (fun acc => Steady law k acc.1)
    (List.finRange n) (nodup_finRange n) (Steady.refl filed)
    (fun acc i acc' _ steady turned => by
      obtain ⟨_,_,acts⟩ := updateSlot_alters steady.filed turned
      exact ⟨steady.trans acts.toSteady,fun j apart => acts.other apart⟩) updated
  refine ⟨loop.1,fun i => ?_⟩
  obtain ⟨before,after,u,v,split,steady,turned,done,todo,own⟩ := loop.2.2 i (mem_finRange i)
  obtain ⟨recovered,honest,acts⟩ := updateSlot_alters steady.filed turned
  have mine : u.1.slot i = k.slot i := todo i (by simp [before_iff split])
  refine ⟨u.1,recovered,steady,fun j less => done j ((before_iff split j).mpr less),
    fun j more => todo j (by simp [before_iff split,more]),honest,?_⟩
  rw [own,acts.self,mine]

end Kernel
end SuperTinyKernel
