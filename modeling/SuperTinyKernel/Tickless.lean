import SuperTinyKernel.Locking

namespace SuperTinyKernel

-- The ticks that OnTick returns, for which a tickless platform may stop its clock.

structure KernelTask.Allows (m : Mode) (t : KernelTask) (sleepTicks : Int) : Prop where
  sleep : ¬(m.isSync = true ∧ t.waitObj.isWaiting = true) → sleepTicks ≤ max 1 (-t.timeSleep)
  wait : m.isSync = true → t.waitObj.isWaiting = true → 0 < t.waitObj.timeWait → sleepTicks ≤ t.waitObj.timeWait

namespace KernelTask

variable {t : KernelTask} {m : Mode} {sleepTicks : Int}

theorem Allows.fewer {ticks : Int} (allows : t.Allows m sleepTicks) (less : ticks ≤ sleepTicks) : t.Allows m ticks :=
  ⟨fun idle => less.trans (allows.sleep idle),fun sync waiting counts => less.trans (allows.wait sync waiting counts)⟩

theorem Allows.one : t.Allows m 1 :=
  ⟨fun _ => le_max_left _ _,fun _ _ counts => counts⟩

theorem getSleepTicks_bounds (positive : 1 ≤ sleepTicks) :
    1 ≤ t.getSleepTicks m sleepTicks ∧ t.getSleepTicks m sleepTicks ≤ sleepTicks ∧
      t.Allows m (t.getSleepTicks m sleepTicks) := by
  unfold getSleepTicks
  dsimp only
  refine ⟨le_max_left _ _,max_le positive ?_,?_,?_⟩
  · split
    · split
      · exact min_le_left _ _
      · exact le_refl _
    · exact min_le_left _ _
  · intro idle
    rw [if_neg (by rwa [Bool.and_eq_true])]
    have noWaitZero : noWait = 0 := rfl
    omega
  · intro sync waiting counts
    have counting : t.waitObj.timeWait > noWait := counts
    rw [if_pos (by rw [sync,waiting]; rfl),if_pos counting]
    omega

end KernelTask

namespace Kernel

variable {c : Config n} {law : Lawful c.strategy} {k k' u : Kernel c} {i : Fin n} {elapsed sleepTicks : Int}

section

variable (tickless : c.mode.isTickless = true)
include tickless

theorem limitSleepTicks_bounds (positive : 1 ≤ sleepTicks) :
    1 ≤ k.limitSleepTicks i sleepTicks ∧ k.limitSleepTicks i sleepTicks ≤ sleepTicks ∧
      ((k.tasks i).user ≠ none → (k.tasks i).Allows c.mode (k.limitSleepTicks i sleepTicks)) := by
  unfold limitSleepTicks
  split
  · obtain ⟨low,high,allows⟩ := KernelTask.getSleepTicks_bounds (t := k.tasks i) (m := c.mode) positive
    exact ⟨low,high,fun _ => allows⟩
  · rename_i either
    refine ⟨positive,le_refl _,fun bound => ?_⟩
    have busy : (k.tasks i).isBusy = true := Option.isSome_iff_ne_none.mpr bound
    rw [tickless,busy,Bool.true_and,Bool.and_true,decide_eq_true_eq] at either
    rw [le_antisymm (not_lt.mp either) positive]
    exact .one

theorem updateSlot_limits {acc acc' : Kernel c × Int}
    (positive : 1 ≤ acc.2) (updated : updateSlot elapsed acc i = some acc') :
    1 ≤ acc'.2 ∧ acc'.2 ≤ acc.2 ∧ ((acc'.1.tasks i).user ≠ none → (acc'.1.tasks i).Allows c.mode acc'.2) := by
  obtain ⟨k,sleepTicks⟩ := acc
  unfold updateSlot at updated
  dsimp only at updated positive ⊢
  split at updated
  · rename_i asleep
    split at updated
    · rename_i goes
      obtain ⟨k',removed,same⟩ := of_map updated
      cases same
      refine ⟨positive,le_refl _,fun bound => absurd ?_ bound⟩
      obtain ⟨user,_,removed⟩ := of_bind removed
      obtain ⟨σ,_,rfl⟩ := of_return removed
      simp [notify,modifyTask,KernelTask.unbind]
    · obtain ⟨k',_,same⟩ := of_map updated
      cases same
      exact limitSleepTicks_bounds tickless positive
  · obtain ⟨k',_,same⟩ := of_map updated
    cases same
    exact limitSleepTicks_bounds tickless positive

theorem updateTaskState_limits (filed : Filed law k)
    (updated : k.updateTaskState elapsed = some (k',sleepTicks)) :
    1 ≤ sleepTicks ∧ sleepTicks ≤ c.ticklessTicksMax ∧
      ∀ i,(k'.tasks i).user ≠ none → (k'.tasks i).Allows c.mode sleepTicks := by
  obtain ⟨⟨_,low,high⟩,_,done⟩ := Turns.foldlM_done
    (fun acc : Kernel c × Int => Filed law acc.1 ∧ 1 ≤ acc.2 ∧ acc.2 ≤ c.ticklessTicksMax)
    (fun acc i => (acc.1.tasks i).user ≠ none → (acc.1.tasks i).Allows c.mode acc.2)
    (List.finRange n) ⟨filed,by simp [initialSleepTicks,tickless,c.ticklessRange.1],by simp [initialSleepTicks,tickless]⟩
    (fun acc i acc' _ before turned => by
      obtain ⟨filed,positive,bounded⟩ := before
      obtain ⟨_,_,acts⟩ := updateSlot_alters filed turned
      obtain ⟨low,less,own⟩ := updateSlot_limits tickless positive turned
      refine ⟨⟨acts.filed,low,less.trans bounded⟩,own,fun j apart allows => ?_⟩
      have same : acc'.1.tasks j = acc.1.tasks j := congrArg Slot.task (acts.other apart)
      rw [same]
      exact fun bound => (allows bound).fewer less) updated
  exact ⟨low,high,fun i => done i (List.mem_finRange i)⟩

theorem beforeDecision_limits (filed : Filed law k)
    (ticked : k.beforeDecision elapsed = some (k',sleepTicks)) :
    1 ≤ sleepTicks ∧ sleepTicks ≤ c.ticklessTicksMax ∧
      ∀ i,(k'.tasks i).user ≠ none → (k'.tasks i).Allows c.mode sleepTicks := by
  obtain ⟨⟨k₂,_⟩,updated,ticked⟩ := of_bind ticked
  obtain ⟨k₃,charged,same⟩ := of_bind ticked
  cases same
  obtain ⟨k₁,synced,updated⟩ := of_bind updated
  have counted : Filed law {k with ticks := k.ticks + elapsed} :=
    filed.still rfl rfl rfl rfl
  have sync := (updateSyncObjects_slots counted synced).1
  have turn := (updateTaskState_turns sync.filed updated).1
  obtain ⟨low,high,allows⟩ := updateTaskState_limits tickless sync.filed updated
  refine ⟨low,high,fun i bound => ?_⟩
  obtain ⟨ts,same⟩ := (updateTimeslice_slots turn.filed charged).2 i
  have task : k'.tasks i = {k₂.tasks i with ts := ts} := congrArg Slot.task same
  rw [task] at bound ⊢
  exact ⟨(allows i bound).sleep,(allows i bound).wait⟩

end

end Kernel
end SuperTinyKernel
