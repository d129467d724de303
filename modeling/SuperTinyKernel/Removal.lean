import SuperTinyKernel.Changes
import SuperTinyKernel.Strategies.Bundled

namespace SuperTinyKernel

open KernelTask Slot

namespace Kernel

variable {c : Config n} {law : Lawful c.strategy} {k k' u : Kernel c} {i : Fin n} {elapsed : Int}

def Removable (k : Kernel c) (elapsed : Int) (i : Fin n) : Prop :=
  ((k.tasks i).tickSync c.mode elapsed).timeSleep < 0 ∧ k.Departs elapsed i

instance : Decidable (LastAtTurn k elapsed i) := by unfold LastAtTurn; infer_instance
instance : Decidable (Departs k elapsed i) := by unfold Departs; infer_instance
instance : Decidable (Removable k elapsed i) := by unfold Removable; infer_instance

theorem Ticked.freed_iff (ticked : Ticked law k k' elapsed) (bound : (k.tasks i).user ≠ none) :
    (k'.tasks i).user = none ↔ k.Removable elapsed i := by
  obtain ⟨gone,recovered,ts,_,departs,_,turned⟩ := ticked.departs i
  have user := congrArg (fun s => s.task.user) turned
  simp only [slot_task,Slot.withTs] at user
  have after : ((k.slot i).tickSync c elapsed).task.user = (k.tasks i).user := (tickSync_fields _).1
  rw [user,Removable,← departs bound]
  constructor
  · intro freed
    refine ⟨by_contra fun awake => bound ?_,by_contra fun stays => bound ?_⟩
    · rw [user_awake awake,after] at freed
      exact freed
    · rw [eq_false_of_ne_true stays,user_turn,after] at freed
      exact freed
  · rintro ⟨asleep,goes⟩
    rw [goes,turn_gone asleep]
    rfl

theorem Ticked.exited (ticked : Ticked law k k' elapsed) (bound : (k.tasks i).user = some owner)
    (freed : (k'.tasks i).user = none) : .exited owner ∈ k'.notices i := by
  obtain ⟨gone,recovered,ts,_,_,_,turned⟩ := ticked.turn i
  have user := congrArg (fun s => s.task.user) turned
  have after : ((k.slot i).tickSync c elapsed).task.user = some owner := (tickSync_fields _).1.trans bound
  simp only [slot_task,Slot.withTs,freed] at user
  have goes : gone = true := by
    refine by_contra fun stays => ?_
    rw [eq_false_of_ne_true stays,user_turn,after] at user
    cases user
  have asleep : ((k.slot i).tickSync c elapsed).task.timeSleep < 0 := by
    refine by_contra fun awake => ?_
    rw [user_awake awake,after] at user
    cases user
  rw [goes,turn_gone asleep] at turned
  rw [show k'.notices i = _ from congrArg Slot.notices turned]
  have kept : (((k.slot i).tickSync c elapsed).consumeYield c).task.user = some owner :=
    (congrArg KernelTask.user fixed_consumeYield :).trans after
  simp [Slot.withTs,Slot.unbind,kept]

theorem Ticked.removePending (ticked : Ticked law k k' elapsed) (bound : (k'.tasks i).user ≠ none) :
    (k'.tasks i).removePending = (k.tasks i).removePending := by
  obtain ⟨gone,recovered,ts,_,_,_,turned⟩ := ticked.turn i
  have flag := congrArg (fun s => s.task.removePending) turned
  have user := congrArg (fun s => s.task.user) turned
  simp only [slot_task,Slot.withTs] at flag user
  have before : ((k.slot i).tickSync c elapsed).task.removePending = (k.tasks i).removePending :=
    (tickSync_fields _).2.1
  rw [flag,← before]
  cases gone with
  | false => exact removePending_turn
  | true =>
    by_cases asleep : ((k.slot i).tickSync c elapsed).task.timeSleep < 0
    · rw [turn_gone asleep] at user
      exact absurd user bound
    · exact (congrArg KernelTask.removePending (fixed_turn fun sleeps => absurd sleeps asleep) :)

theorem Decided.removePending (decided : Decided law u k' next) (i : Fin n) :
    (k'.tasks i).removePending = (u.tasks i).removePending := by
  have flag := congrArg (fun s => s.task.removePending) (decided.slots i)
  simpa only [slot_task,removePending_retire,select_task] using flag

theorem Decided.notices (decided : Decided law u k' next) (old : x ∈ u.notices i) : x ∈ k'.notices i := by
  have told := congrArg Slot.notices (decided.slots i)
  rw [retire_notices] at told
  rw [show k'.notices i = _ from told]
  unfold select
  split
  · exact List.mem_cons_of_mem _ old
  · exact old

end Kernel

namespace System

open Kernel

variable {c : Config n} {law : Lawful c.strategy} {s t : System c}

theorem tick_slots (sound : Sound law s) (taken : s.step (.tick elapsed) = some t) :
    ∃ u,Ticked law s.kernel.fresh u elapsed ∧ ∀ i,(t.tasks i).user = (u.tasks i).user ∧
      (t.tasks i).removePending = (u.tasks i).removePending ∧ ∀ x ∈ u.notices i,x ∈ t.kernel.notices i := by
  cases sound.stepped taken with
  | quiet still => cases still
  | tick _ _ ticked _ decided => exact ⟨_,ticked,fun i => ⟨decided.user i,decided.removePending i,fun _ => decided.notices⟩⟩
  | lockedTick _ _ ticked => exact ⟨_,ticked,fun _ => ⟨rfl,rfl,fun _ old => old⟩⟩

-- After a tick only the executing task can still be pending removal, exactly if the tick finds
-- every other such slot asleep and, where it is m_task_now, as the last one. OnExit is called
-- for each slot it frees.
theorem tick_removes_exited (b : Bundled) (chosen : c.strategy = b.strategy n)
    (run : Transition.Run step (fun _ _ => True) (initial c) s) (taken : s.step (.tick elapsed) = some t) :
    ((∀ i,(t.tasks i).user ≠ none → (t.tasks i).removePending = true → s.exec = some (.task i)) ↔
      ∀ i,(s.tasks i).user ≠ none → (s.tasks i).removePending = true → s.exec ≠ some (.task i) →
        s.kernel.Removable elapsed i) ∧
    ∀ i owner,(s.tasks i).user = some owner → (t.tasks i).user = none → .exited owner ∈ t.kernel.notices i := by
  have sound := reached_sound (b.law chosen) run
  obtain ⟨u,ticked,after⟩ := tick_slots sound taken
  have freed : ∀ i,(s.tasks i).user ≠ none → ((t.tasks i).user = none ↔ s.kernel.Removable elapsed i) := fun i bound => by
    rw [(after i).1]
    exact ticked.freed_iff bound
  refine ⟨⟨fun clean i bound removed apart => ?_,fun frees i bound removed => ?_⟩,fun i owner bound gone => ?_⟩
  · refine (freed i bound).mp (by_contra fun stays => apart (clean i stays ?_))
    rw [(after i).2.1,ticked.removePending (by rw [← (after i).1]; exact stays)]
    exact removed
  · rw [(after i).1] at bound
    rw [(after i).2.1,ticked.removePending bound] at removed
    have before : (s.tasks i).user ≠ none := fun free => bound (ticked.free free)
    refine by_contra fun apart => bound ?_
    rw [← (after i).1]
    exact (freed i before).mpr (frees i before removed apart)
  · rw [(after i).1] at gone
    exact (after i).2.2 _ (ticked.exited bound gone)

def exitAndSwitch : List (Event 2) := [.addTask ⟨1,1,1,0⟩,.addTask ⟨2,2,1,0⟩,.start,.exitTask,.force]

theorem exitAndSwitch_removed : ∃ s t : System (dynamicKernel 2 (by decide)),
    Transition.exec step (initial _) exitAndSwitch = some s ∧ s.step (.tick 1) = some t ∧
      (s.tasks 0).removePending = true ∧ (t.tasks 0).user = none ∧ .exited ⟨1,1,1,0⟩ ∈ t.kernel.notices 0 ∧
      ∀ i,(t.tasks i).user ≠ none → (t.tasks i).removePending = true → s.exec = some (.task i) := by
  have found : ∃ s : System (dynamicKernel 2 (by decide)),Transition.exec step (initial _) exitAndSwitch = some s ∧
      (s.tasks 0).user = some ⟨1,1,1,0⟩ ∧ (s.tasks 0).removePending = true ∧
      (∀ i,(s.tasks i).removePending = true → s.kernel.Removable 1 i) ∧
      ∃ t,s.step (.tick 1) = some t ∧ (t.tasks 0).user = none := by decide
  obtain ⟨s,ran,bound,removed,removable,t,taken,freed⟩ := found
  obtain ⟨clean,exits⟩ := tick_removes_exited (.roundRobin false) rfl (.ofExec ran) taken
  exact ⟨s,t,ran,taken,removed,freed,exits 0 _ bound freed,clean.mpr fun i _ pending _ => removable i pending⟩

-- The second task exits, then the first one sleeps. StateSleep makes the exited task
-- m_task_now, and the tick takes it for the executing one.
def exitThenSleep : List (Event 2) :=
  [.addTask ⟨1,1,1,0⟩,.addTask ⟨2,2,1,0⟩,.start,.tick 1,.exitTask,.force,.sleep 5,.force]

theorem exitThenSleep_kept : ∃ s t : System (dynamicKernel 2 (by decide)),
    Transition.Run step (fun _ _ => True) (initial _) s ∧ s.kernel.isLocked = false ∧ s.exec = some .sleepTrap ∧
      s.step (.tick 1) = some t ∧ (t.tasks 1).user ≠ none ∧ (t.tasks 1).removePending = true := by
  simp only [exists_and_left]
  exact Transition.Run.found exitThenSleep (by decide)

end System
end SuperTinyKernel
