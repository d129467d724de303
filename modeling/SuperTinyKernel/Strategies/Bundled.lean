import SuperTinyKernel.Kernel
import SuperTinyKernel.Strategies.RoundRobin
import SuperTinyKernel.Strategies.SmoothWeighted
import SuperTinyKernel.Strategies.Edf
import SuperTinyKernel.Strategies.Monotonic
import SuperTinyKernel.Strategies.FixedPriority
import SuperTinyKernel.Strategies.PreemptionThreshold

namespace SuperTinyKernel

-- The strategies of stk::sched with their template arguments. ReadyBitmap is any
-- bitmap of the priorities.
inductive Bundled : Type 1 where
  | roundRobin (noSleepYield : Bool)
  | smoothWeighted (noSleepYield : Bool)
  | edf
  | monotonic (kind : Monotonic.Kind)
  | fixedPriority {P : Nat} (B : IndexSet P) (noSleepYield : Bool)
  | preemptionThreshold {P : Nat} (B : IndexSet P) (timeSlice : Bool)

namespace Bundled

def fp32 : Bundled := .fixedPriority (readyBitmapSelect 32 (by decide)) false
def fp64 : Bundled := .fixedPriority (readyBitmapSelect 64 (by decide)) false
def pt32 : Bundled := .preemptionThreshold (readyBitmapSelect 32 (by decide)) false
def pt64 : Bundled := .preemptionThreshold (readyBitmapSelect 64 (by decide)) false

def strategy (n : Nat) : Bundled → Strategy n
  | .roundRobin noSleepYield => RoundRobin.strategy n noSleepYield
  | .smoothWeighted noSleepYield => SmoothWeighted.strategy n noSleepYield
  | .edf => Edf.strategy n
  | .monotonic kind => Monotonic.strategy n kind
  | .fixedPriority B noSleepYield => FixedPriority.strategy n B noSleepYield
  | .preemptionThreshold B timeSlice => PreemptionThreshold.strategy n B timeSlice

def lawful (n : Nat) : (b : Bundled) → Lawful (b.strategy n)
  | .roundRobin noSleepYield => RoundRobin.lawful n noSleepYield
  | .smoothWeighted noSleepYield => SmoothWeighted.lawful n noSleepYield
  | .edf => Edf.lawful n
  | .monotonic kind => Monotonic.lawful n kind
  | .fixedPriority B noSleepYield => FixedPriority.lawful n B noSleepYield
  | .preemptionThreshold B timeSlice => PreemptionThreshold.lawful n B timeSlice

def law {c : Config n} (b : Bundled) (chosen : c.strategy = b.strategy n) : Lawful c.strategy := chosen ▸ b.lawful n

open Transition

-- No call loses or duplicates a task.
theorem tasks_filed_once {S : Strategy n} (b : Bundled) (chosen : S = b.strategy n) (aware : S.api.sleepEvent = true) {c : Client S}
    (run : Run (observe Client.step Client.listed) (fun _ _ => True) (.initial S,[]) (c,tasks)) :
    (S.runnable c.state ++ S.sleepList c.state).Perm tasks ∧ S.getSize c.state = tasks.length ∧
      (∀ i τ,S.getNext c.views c.state = some (some i,τ) → i ∈ S.runnable c.state) ∧
      (∀ τ,S.getNext c.views c.state = some (none,τ) → S.runnable c.state = []) ∧
      (∀ i ∈ tasks,∃ τ,S.removeTask c.views i c.state = some τ) ∧
      ∀ i ∈ S.runnable c.state,∃ τ,S.onTaskSleep c.views i c.state = some τ := by
  have law : Lawful S := chosen ▸ b.lawful n
  have registered := Client.reached_registered law aware run
  have nodup := law.nodup registered.inv
  have ready : ∀ i ∈ S.runnable c.state,S.place c.state i = .ready := fun i linked =>
    S.place_ready_of (fun asleep => (List.nodup_append.mp nodup).2.2 i linked i asleep rfl) linked
  have perm : (S.runnable c.state ++ S.sleepList c.state).Perm tasks :=
    (List.perm_ext_iff_of_nodup nodup registered.distinct).mpr fun i => by
      rw [registered.filed,ne_eq,S.place_free_iff,List.mem_append]
      tauto
  refine ⟨perm,(law.size registered.inv).trans perm.length_eq,
    fun i τ next => S.mem_runnable_of_ready (law.next_some registered.inv next).1,
    fun τ next => List.eq_nil_iff_forall_not_mem.mpr fun i linked => ?_,
    fun i filed => law.remove_defined registered.inv ((registered.filed i).mp filed),
    fun i linked => law.sleep_defined aware registered.inv (ready i linked)⟩
  have unaware := (law.next_none registered.inv next (ready i linked)).1
  rw [aware] at unaware
  cases unaware

theorem equalKeys_filed_once : ∃ r : Client (Bundled.edf.strategy 3) × List (Fin 3),
    exec (observe Client.step Client.listed) (.initial _,[]) (Monotonic.equalKeys 1 0 2) = some r ∧
    r.2 = [1,0,2] ∧ (Bundled.edf.strategy 3).getSize r.1.state = 3 :=
  exec_shows (P := fun r => r.2 = [1,0,2]) (by decide) fun _ ran found =>
    ⟨found,(tasks_filed_once .edf rfl rfl (.ofExec ran)).2.1.trans (congrArg List.length found)⟩

end Bundled

def dynamicKernel (n : Nat) (tasksMax : 0 < n) : Config n where
  mode := ⟨false,true,false,true,false,false⟩
  strategy := RoundRobin.strategy n false
  ticklessTicksMax := 1
  tasksMax := tasksMax
  modeMix := by decide
  hrtAlone := by decide
  ticklessHrt := by decide
  timesliceHrt := by decide
  timesliceStrategy := by simp
  inheritance := by simp [RoundRobin.strategy]
  ticklessRange := by decide

def hardKernel (n : Nat) (tasksMax : 0 < n) : Config n where
  mode := ⟨true,false,true,true,false,false⟩
  strategy := RoundRobin.strategy n false
  ticklessTicksMax := 1
  tasksMax := tasksMax
  modeMix := by decide
  hrtAlone := by decide
  ticklessHrt := by decide
  timesliceHrt := by decide
  timesliceStrategy := by simp
  inheritance := by simp [RoundRobin.strategy]
  ticklessRange := by decide

def System.ticklessKernel (n : Nat) (tasksMax : 0 < n) : Config n where
  mode := ⟨false,true,false,true,true,false⟩
  strategy := RoundRobin.strategy n false
  ticklessTicksMax := 1000
  tasksMax := tasksMax
  modeMix := by decide
  hrtAlone := by decide
  ticklessHrt := by decide
  timesliceHrt := by decide
  timesliceStrategy := by simp
  inheritance := by simp [RoundRobin.strategy]
  ticklessRange := by decide

def System.edfKernel (n : Nat) (tasksMax : 0 < n) : Config n where
  mode := ⟨true,false,true,false,false,false⟩
  strategy := Edf.strategy n
  ticklessTicksMax := 1
  tasksMax := tasksMax
  modeMix := by decide
  hrtAlone := by decide
  ticklessHrt := by decide
  timesliceHrt := by decide
  timesliceStrategy := by simp
  inheritance := by simp [Edf.strategy]
  ticklessRange := by decide

def inheritKernel (n : Nat) (tasksMax : 0 < n) : Config n where
  mode := ⟨true,false,false,true,false,false⟩
  strategy := Bundled.fp32.strategy n
  ticklessTicksMax := 1
  tasksMax := tasksMax
  modeMix := by decide
  hrtAlone := by decide
  ticklessHrt := by decide
  timesliceHrt := by decide
  timesliceStrategy := by simp
  inheritance := fun _ => rfl
  ticklessRange := by decide

end SuperTinyKernel
