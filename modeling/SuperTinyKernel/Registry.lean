import SuperTinyKernel.Changes
import SuperTinyKernel.Strategies.Bundled

namespace SuperTinyKernel

open KernelTask List Slot

def Event.adds : Event n → Option UserTask
  | .addTask u | .addTaskHrt u _ _ _ => some u
  | _ => none

theorem Change.registers {c : Config n} {s : System c} {slot : Slot} (change : Change s i e slot phase now)
    (bound : slot.task.user = some u) :
    (s.tasks i).user = some u ∨ (s.tasks i).user = none ∧ s.kernel.collision u = false ∧ e.adds = some u := by
  cases change with
  | move move =>
    cases move with
    | bind _ free apart | bindHrt _ free _ _ _ _ _ _ apart =>
      cases bound
      exact .inr ⟨free,apart,rfl⟩
    | unbind => cases bound
    | _ => exact .inl bound
  | stay => exact .inl bound
  | decide decides =>
    rw [user_retire,select_task] at bound
    cases decides with
    | launch => exact .inl ((congrArg user fixed_launch :).symm.trans bound)
    | @turn elapsed gone =>
      cases gone with
      | false =>
        rw [withTs,user_turn] at bound
        exact .inl ((tickSync_fields _).1.symm.trans bound)
      | true =>
        by_cases asleep : ((s.slot i).fresh.tickSync c elapsed).task.timeSleep < 0
        · rw [turn_gone asleep] at bound
          cases bound
        · rw [withTs,user_awake asleep] at bound
          exact .inl ((tickSync_fields _).1.symm.trans bound)
    | enter | yield | pass => exact .inl bound

namespace System

open Kernel

variable {c : Config n} {law : Lawful c.strategy} {s t : System c}

def Unique (s : System c) : Prop := ∀ i j u v,(s.tasks i).user = some u → (s.tasks j).user = some v → u.id = v.id → i = j

theorem collision_apart (apart : s.kernel.collision u = false) (bound : (s.tasks j).user = some v) : v.id ≠ u.id := by
  intro same
  unfold Kernel.collision at apart
  rw [any_eq_false] at apart
  refine apart j (mem_finRange j) ?_
  rw [show (s.kernel.tasks j).user = some v from bound]
  exact decide_eq_true (.inl same)

theorem add_single (adds : e.adds = some u) (taken : s.step e = some t) : ∃ i,∀ j,j ≠ i → t.tasks j = s.tasks j := by
  cases e with
  | addTask v =>
    obtain ⟨r,added,rfl⟩ := of_return taken
    unfold Kernel.addTask at added
    split at added
    · rcases tryAllocateNewTask_parts s.kernel.fresh v with ⟨i,_,_,allocated⟩ | ⟨result,refused⟩
      · rw [allocated] at added
        obtain ⟨k',linked,same⟩ := of_map added
        obtain ⟨σ,_,filed⟩ := of_bind linked
        cases filed
        cases same
        exact ⟨i,fun j apart => Function.update_of_ne apart ..⟩
      · rw [refused] at added
        cases added
        exact ⟨⟨0,c.tasksMax⟩,fun _ _ => rfl⟩
    · cases added
      exact ⟨⟨0,c.tasksMax⟩,fun _ _ => rfl⟩
  | addTaskHrt v period deadline delay =>
    obtain ⟨r,added,rfl⟩ := of_return taken
    unfold Kernel.addTaskHrt at added
    split at added
    · rcases tryAllocateNewTask_parts s.kernel.fresh v with ⟨i,_,_,allocated⟩ | ⟨result,refused⟩
      · rw [allocated] at added
        obtain ⟨k',linked,same⟩ := of_map added
        rw [modifyTask_twice] at linked
        obtain ⟨σ,_,filed⟩ := of_bind linked
        cases filed
        cases same
        exact ⟨i,fun j apart => Function.update_of_ne apart ..⟩
      · rw [refused] at added
        cases added
        exact ⟨⟨0,c.tasksMax⟩,fun _ _ => rfl⟩
    · cases added
      exact ⟨⟨0,c.tasksMax⟩,fun _ _ => rfl⟩
  | _ => cases adds

theorem Unique.step (sound : Sound law s) (unique : Unique s) (taken : s.step e = some t) : Unique t := by
  intro i j u v left right same
  have change := (sound.stepped taken).change sound
  rcases (change i).registers left with here | ⟨free,apart,adds⟩
  · rcases (change j).registers right with there | ⟨_,apart,_⟩
    · exact unique i j u v here there same
    · exact absurd same (collision_apart apart here)
  · rcases (change j).registers right with there | ⟨open_,_⟩
    · exact absurd same.symm (collision_apart apart there)
    · obtain ⟨m,others⟩ := add_single adds taken
      have only : ∀ k,(s.tasks k).user = none → (t.tasks k).user ≠ none → k = m := fun k free bound =>
        Decidable.byContradiction fun other => bound (by rw [others k other]; exact free)
      exact (only i free (by simp [left])).trans (only j open_ (by simp [right])).symm

theorem reached_unique (law : Lawful c.strategy) (run : Transition.Run step Allowed (initial c) s) : Sound law s ∧ Unique s :=
  run.keeps (I := fun s => Sound law s ∧ Unique s) ⟨⟨initial_filed law,initial_contexts⟩,fun _ _ _ _ bound => by cases bound⟩
    fun _ _ _ kept _ taken => ⟨kept.1.step taken,kept.2.step kept.1 taken⟩

end System

namespace Kernel

variable {c : Config n} {k : Kernel c}

-- The loop of both enumerations, with what it stores for a busy slot. The result is the filled
-- part of the view.
def enumerate (k : Kernel c) (entry : Fin n → α) (size : Nat) : List α :=
  ((List.finRange n).take (min size n)).foldl (fun view i => if (k.tasks i).isBusy then view ++ [entry i] else view) []

def enumerateKernelTasks (k : Kernel c) (size : Nat) : List (Fin n) := k.enumerate id size
def enumerateTasks (k : Kernel c) (size : Nat) : List (Option UserTask) := k.enumerate (fun i => (k.tasks i).user) size

def registered (k : Kernel c) : Nat := (List.finRange n).countP fun i => (k.tasks i).isBusy

-- The slots that the loop visits are all busy, or no slot behind them is.
def compact (k : Kernel c) (size : Nat) : Bool :=
  decide ((∀ i : Fin n,i < size → (k.tasks i).isBusy = true) ∨ ∀ i : Fin n,size ≤ i → (k.tasks i).isBusy = false)

theorem enumerate_eq (k : Kernel c) (entry : Fin n → α) (size : Nat) :
    k.enumerate entry size = (((List.finRange n).take (min size n)).filter fun i => (k.tasks i).isBusy).map entry := by
  have loop : ∀ (slots : List (Fin n)) (view : List α),
      slots.foldl (fun view i => if (k.tasks i).isBusy then view ++ [entry i] else view) view =
        view ++ (slots.filter fun i => (k.tasks i).isBusy).map entry := by
    intro slots
    induction slots with
    | nil => simp
    | cons i rest ih =>
      intro view
      rw [foldl_cons,ih]
      cases busy : (k.tasks i).isBusy <;> simp [busy]
  exact loop _ []

theorem enumerate_length (k : Kernel c) (entry : Fin n → α) (compact : k.compact size = true) :
    (k.enumerate entry size).length = min size k.registered := by
  have split : k.registered = ((List.finRange n).take (min size n)).countP (fun i => (k.tasks i).isBusy) +
      ((List.finRange n).drop (min size n)).countP fun i => (k.tasks i).isBusy := by
    rw [← countP_append,take_append_drop]
    rfl
  have early : ((List.finRange n).take (min size n)).length = min size n := by simp
  have late : ((List.finRange n).drop (min size n)).length = n - min size n := by simp
  have most := countP_le_length (p := fun i => (k.tasks i).isBusy) (l := (List.finRange n).take (min size n))
  have rest := countP_le_length (p := fun i => (k.tasks i).isBusy) (l := (List.finRange n).drop (min size n))
  rw [enumerate_eq,length_map,← countP_eq_length_filter]
  rcases of_decide_eq_true compact with full | none_
  · have all : ((List.finRange n).take (min size n)).countP (fun i => (k.tasks i).isBusy) = _ :=
      countP_eq_length.mpr fun i member => by
        obtain ⟨j,inside,rfl⟩ := mem_take_iff_getElem.mp member
        rw [getElem_finRange]
        exact full _ (show j < size by omega)
    omega
  · have none_ : ((List.finRange n).drop (min size n)).countP (fun i => (k.tasks i).isBusy) = 0 :=
      countP_eq_zero.mpr fun i member => by
        obtain ⟨j,inside,rfl⟩ := mem_drop_iff_getElem.mp member
        rw [length_finRange] at inside
        rw [getElem_finRange,none_ _ (show size ≤ min size n + j by omega)]
        exact Bool.false_ne_true
    omega

end Kernel

namespace System

variable {c : Config n} {s : System c}

-- Where no free slot comes before a registered task beyond the view, both enumerations return
-- as many tasks as there are or fit.
theorem enumerations_complete (b : Bundled) (chosen : c.strategy = b.strategy n)
    (run : Transition.Run step (fun _ _ => True) (initial c) s) (size : Nat) (compact : s.kernel.compact size = true) :
    (s.kernel.enumerateKernelTasks size).length = min size s.kernel.registered ∧ (s.kernel.enumerateKernelTasks size).Nodup ∧
    (∀ i ∈ s.kernel.enumerateKernelTasks size,(s.tasks i).isBusy = true) ∧
    (s.kernel.enumerateTasks size).length = min size s.kernel.registered ∧ (s.kernel.enumerateTasks size).Nodup ∧
    ∀ u ∈ s.kernel.enumerateTasks size,∃ i task,u = some task ∧ (s.tasks i).user = some task := by
  have unique := (reached_unique (b.law chosen) run).2
  have distinct : (((List.finRange n).take (min size n)).filter fun i => (s.kernel.tasks i).isBusy).Nodup :=
    ((nodup_finRange n).sublist (take_sublist _ _)).filter _
  have bound : ∀ i,(s.kernel.tasks i).isBusy = true → ∃ u,(s.tasks i).user = some u := fun i busy =>
    Option.isSome_iff_exists.mp busy
  refine ⟨s.kernel.enumerate_length _ compact,?_,fun i member => ?_,s.kernel.enumerate_length _ compact,?_,fun u member => ?_⟩
  · rw [Kernel.enumerateKernelTasks,Kernel.enumerate_eq,map_id]
    exact distinct
  · rw [Kernel.enumerateKernelTasks,Kernel.enumerate_eq,map_id] at member
    exact (mem_filter.mp member).2
  · rw [Kernel.enumerateTasks,Kernel.enumerate_eq]
    refine distinct.map_on fun i first j second same => ?_
    obtain ⟨u,left⟩ := bound i (mem_filter.mp first).2
    exact unique i j u u left (same.symm.trans left) rfl
  · rw [Kernel.enumerateTasks,Kernel.enumerate_eq] at member
    obtain ⟨i,inside,rfl⟩ := mem_map.mp member
    obtain ⟨u,left⟩ := bound i (mem_filter.mp inside).2
    exact ⟨i,u,left,left⟩

def secondOfTwo : List (Event 2) := [.addTask ⟨1,1,1,0⟩,.addTask ⟨2,2,1,0⟩,.removeTask 1]

theorem secondOfTwo_complete : ∃ s : System (dynamicKernel 2 (by decide)),Transition.exec step (initial _) secondOfTwo = some s ∧
    s.kernel.registered = 1 ∧ (s.kernel.enumerateTasks 2).length = 1 :=
  Transition.exec_shows (P := fun s => s.kernel.registered = 1 ∧ s.kernel.compact 2 = true) (by decide) fun s ran found =>
    ⟨found.1,by rw [(enumerations_complete (.roundRobin false) rfl (.ofExec ran) 2 found.2).2.2.2.1,found.1]; rfl⟩

-- A view of one entry is not filled, as its only slot is free.
theorem secondOfTwo_missed : ∃ s : System (dynamicKernel 2 (by decide)),Transition.Run step (fun _ _ => True) (initial _) s ∧
    s.kernel.registered = 1 ∧ s.kernel.enumerateTasks 1 = [] ∧ s.kernel.enumerateKernelTasks 1 = [] :=
  Transition.Run.found secondOfTwo (by decide)

end System
end SuperTinyKernel
