import SuperTinyKernel.Strategy

namespace SuperTinyKernel

open Function List

-- Strategies with one list of runnable and one of sleeping tasks. They differ in the order of
-- the first list and the pick of GetNext.
structure TwoLists (S : Strategy n) where
  tasks : S.State → List (Fin n)
  runnableLists : ∀ σ,S.runnableLists σ = [tasks σ]
  noInheritance : S.api.priorityInheritance = false
  initial : tasks S.initial = [] ∧ S.sleepList S.initial = []
  add : S.addTask v i σ = some τ → tasks τ = tasks σ ++ [i] ∧ S.sleepList τ = S.sleepList σ
  -- A task joins or leaves the runnable tasks, and the sleep list is replaced.
  join : Views n → Fin n → S.State → Option S.State
  leave : Views n → Fin n → S.State → Option S.State
  rest : List (Fin n) → S.State → S.State
  join_parts : join v i σ = some τ → tasks τ = tasks σ ++ [i] ∧ S.sleepList τ = S.sleepList σ
  join_defined : i ∉ tasks σ → ∃ τ,join v i σ = some τ
  leave_parts : leave v i σ = some τ → i ∈ tasks σ ∧ tasks τ = (tasks σ).erase i ∧ S.sleepList τ = S.sleepList σ
  leave_defined : i ∈ tasks σ → ∃ τ,leave v i σ = some τ
  rest_parts : ∀ l σ,tasks (rest l σ) = tasks σ ∧ S.sleepList (rest l σ) = l
  removeTask : ∀ v i σ,S.removeTask v i σ = if i ∈ tasks σ then leave v i σ
    else (unlink i (S.sleepList σ)).bind fun l => some (rest l σ)
  onTaskSleep : ∀ v i σ,S.onTaskSleep v i σ = (leave v i σ).bind fun τ => (linkBack i (S.sleepList τ)).bind fun l => some (rest l τ)
  onTaskWake : ∀ v i σ,S.onTaskWake v i σ = (unlink i (S.sleepList σ)).bind fun l => join v i (rest l σ)
  next : S.getNext v σ = some (r,τ) → tasks τ = tasks σ ∧ S.sleepList τ = S.sleepList σ ∧
    (∀ i,r = some i → i ∈ tasks σ) ∧ (r = none → tasks σ = [])
  aware : S.api.sleepEvent = true
  first : S.getFirst σ = (tasks σ ++ S.sleepList σ).head?
  size : S.getSize σ = (tasks σ).length + (S.sleepList σ).length
  yield : S.onTaskYield v i σ = some (handled,τ) → tasks τ = tasks σ ∧ S.sleepList τ = S.sleepList σ
  timeSlice : S.onTaskTimeSlice v i σ = some (false,σ)
  deadlineMissed : S.onTaskDeadlineMissed i σ = some (false,σ)

namespace TwoLists

variable {S : Strategy n} (lists : TwoLists S)

theorem remove (called : S.removeTask v i σ = some τ) :
    i ∈ lists.tasks σ ∧ lists.tasks τ = (lists.tasks σ).erase i ∧ S.sleepList τ = S.sleepList σ ∨
    i ∉ lists.tasks σ ∧ i ∈ S.sleepList σ ∧ lists.tasks τ = lists.tasks σ ∧ S.sleepList τ = (S.sleepList σ).erase i := by
  rw [lists.removeTask] at called
  split at called
  · exact .inl (lists.leave_parts called)
  · obtain ⟨l,unlinked,same⟩ := of_bind called
    obtain ⟨asleep,rfl⟩ := unlink_parts unlinked
    cases same
    exact .inr ⟨‹_›,asleep,lists.rest_parts ..⟩

theorem remove_defined (linked : i ∈ lists.tasks σ ++ S.sleepList σ) : ∃ τ,S.removeTask v i σ = some τ := by
  rw [lists.removeTask]
  split
  · exact lists.leave_defined ‹_›
  · rw [unlink_defined ((mem_append.mp linked).resolve_left ‹_›)]
    exact ⟨_,rfl⟩

theorem sleep (called : S.onTaskSleep v i σ = some τ) :
    i ∈ lists.tasks σ ∧ lists.tasks τ = (lists.tasks σ).erase i ∧ S.sleepList τ = S.sleepList σ ++ [i] := by
  rw [lists.onTaskSleep] at called
  obtain ⟨u,leaves,called⟩ := of_bind called
  obtain ⟨l,linked,rfl⟩ := of_return called
  obtain ⟨running,tasks,kept⟩ := lists.leave_parts leaves
  obtain ⟨same,sleep⟩ := lists.rest_parts l u
  rw [kept] at linked
  exact ⟨running,same.trans tasks,sleep.trans (linkBack_parts linked).2⟩

theorem sleep_defined (linked : i ∈ lists.tasks σ) (awake : i ∉ S.sleepList σ) : ∃ τ,S.onTaskSleep v i σ = some τ := by
  obtain ⟨u,leaves⟩ := lists.leave_defined (v := v) linked
  rw [lists.onTaskSleep,leaves,Option.bind_some,linkBack_defined (by rwa [(lists.leave_parts leaves).2.2])]
  exact ⟨_,rfl⟩

theorem wake (called : S.onTaskWake v i σ = some τ) :
    i ∈ S.sleepList σ ∧ lists.tasks τ = lists.tasks σ ++ [i] ∧ S.sleepList τ = (S.sleepList σ).erase i := by
  rw [lists.onTaskWake] at called
  obtain ⟨l,unlinked,joins⟩ := of_bind called
  obtain ⟨asleep,rfl⟩ := unlink_parts unlinked
  obtain ⟨tasks,kept⟩ := lists.join_parts joins
  obtain ⟨same,sleep⟩ := lists.rest_parts ((S.sleepList σ).erase i) σ
  exact ⟨asleep,by rw [tasks,same],kept.trans sleep⟩

theorem wake_defined (asleep : i ∈ S.sleepList σ) (absent : i ∉ lists.tasks σ) : ∃ τ,S.onTaskWake v i σ = some τ := by
  rw [lists.onTaskWake,unlink_defined asleep]
  exact lists.join_defined (by rwa [(lists.rest_parts _ σ).1])

theorem runnable (σ : S.State) : S.runnable σ = lists.tasks σ := by simp [Strategy.runnable,lists.runnableLists]

theorem place_ready_iff (distinct : (lists.tasks σ ++ S.sleepList σ).Nodup) : S.place σ i = .ready ↔ i ∈ lists.tasks σ := by
  rw [← lists.runnable]
  refine ⟨S.mem_runnable_of_ready,fun linked => S.place_ready_of (fun asleep => ?_) linked⟩
  rw [lists.runnable] at linked
  exact (nodup_append.mp distinct).2.2 i linked i asleep rfl

theorem place_free_iff : S.place σ i = .free ↔ i ∉ lists.tasks σ ++ S.sleepList σ := by
  rw [S.place_free_iff,lists.runnable,mem_append]
  tauto

theorem kept (same : lists.tasks τ = lists.tasks σ ∧ S.sleepList τ = S.sleepList σ) :
    ((lists.tasks σ ++ S.sleepList σ).Nodup → (lists.tasks τ ++ S.sleepList τ).Nodup) ∧ S.place τ = S.place σ := by
  refine ⟨by rw [same.1,same.2]; exact id,?_⟩
  funext i
  simp [Strategy.place,lists.runnable,same]

theorem moved {σ τ : S.State} (sleeping : ∀ j,j ≠ i → (j ∈ S.sleepList τ ↔ j ∈ S.sleepList σ))
    (running : ∀ j,j ≠ i → (j ∈ lists.tasks τ ↔ j ∈ lists.tasks σ)) (own : S.place τ i = p) :
    S.place τ = update (S.place σ) i p :=
  S.place_update sleeping (by simpa [lists.runnable] using running) own

theorem added (distinct : (lists.tasks σ ++ S.sleepList σ).Nodup) (free : S.place σ i = .free)
    (called : S.addTask v i σ = some τ) :
    (lists.tasks τ ++ S.sleepList τ).Nodup ∧ S.place τ = update (S.place σ) i .ready := by
  obtain ⟨tasks,sleep⟩ := lists.add called
  have absent := lists.place_free_iff.mp free
  have union : (lists.tasks τ ++ S.sleepList τ).Nodup := by
    rw [tasks,sleep,append_assoc,singleton_append,nodup_middle]
    exact nodup_cons.mpr ⟨absent,distinct⟩
  refine ⟨union,lists.moved (fun j _ => by rw [sleep]) (fun j apart => by simp [tasks,apart]) ?_⟩
  exact (lists.place_ready_iff union).mpr (by simp [tasks])

theorem removed (distinct : (lists.tasks σ ++ S.sleepList σ).Nodup) (called : S.removeTask v i σ = some τ) :
    S.place σ i ≠ .free ∧ (lists.tasks τ ++ S.sleepList τ).Nodup ∧
      S.place τ = update (S.place σ) i .free := by
  obtain ⟨running,sleeping,cross⟩ := nodup_append.mp distinct
  rcases lists.remove called with ⟨linked,tasks,sleep⟩ | ⟨absent,linked,tasks,sleep⟩
  · have asleep : i ∉ S.sleepList σ := fun inside => cross i linked i inside rfl
    refine ⟨fun free => lists.place_free_iff.mp free (by simp [linked]),?_,
      lists.moved (fun j _ => by rw [sleep]) (fun j apart => by simp [tasks,mem_erase_of_ne apart]) ?_⟩
    · rw [tasks,sleep]
      exact distinct.sublist ((erase_sublist).append_right _)
    · exact lists.place_free_iff.mpr (by simp [tasks,sleep,running.not_mem_erase,asleep])
  · refine ⟨fun free => lists.place_free_iff.mp free (by simp [linked]),?_,
      lists.moved (fun j apart => by simp [sleep,mem_erase_of_ne apart]) (fun j _ => by rw [tasks]) ?_⟩
    · rw [tasks,sleep]
      exact distinct.sublist ((erase_sublist).append_left _)
    · exact lists.place_free_iff.mpr (by simp [tasks,sleep,sleeping.not_mem_erase,absent])

theorem slept (distinct : (lists.tasks σ ++ S.sleepList σ).Nodup) (called : S.onTaskSleep v i σ = some τ) :
    S.place σ i = .ready ∧ (lists.tasks τ ++ S.sleepList τ).Nodup ∧
      S.place τ = update (S.place σ) i .asleep := by
  obtain ⟨linked,tasks,sleep⟩ := lists.sleep called
  refine ⟨(lists.place_ready_iff distinct).mpr linked,?_,lists.moved (fun j apart => by simp [sleep,apart])
    (fun j apart => by simp [tasks,mem_erase_of_ne apart]) ?_⟩
  · have union : (lists.tasks τ ++ S.sleepList τ).Perm (lists.tasks σ ++ S.sleepList σ) := by
      rw [tasks,sleep,← append_assoc]
      exact (perm_append_singleton ..).trans ((perm_cons_erase linked).symm.append_right _)
    exact union.nodup_iff.mpr distinct
  · exact (S.place_asleep_iff).mpr (by simp [sleep])

theorem woken (distinct : (lists.tasks σ ++ S.sleepList σ).Nodup) (called : S.onTaskWake v i σ = some τ) :
    S.place σ i = .asleep ∧ (lists.tasks τ ++ S.sleepList τ).Nodup ∧
      S.place τ = update (S.place σ) i .ready := by
  obtain ⟨linked,tasks,sleep⟩ := lists.wake called
  have union : (lists.tasks τ ++ S.sleepList τ).Perm (lists.tasks σ ++ S.sleepList σ) := by
    rw [tasks,sleep,append_assoc,singleton_append]
    exact (perm_cons_erase linked).symm.append_left _
  have union := union.nodup_iff.mpr distinct
  refine ⟨(S.place_asleep_iff).mpr linked,union,lists.moved (fun j apart => by simp [sleep,mem_erase_of_ne apart])
    (fun j apart => by simp [tasks,apart]) ((lists.place_ready_iff union).mpr (by simp [tasks]))⟩

def lawful : Lawful S where
  Inv _ σ := (lists.tasks σ ++ S.sleepList σ).Nodup
  Fits _ := True
  initial := by simp [lists.initial]
  initial_free := lists.place_free_iff.mpr (by simp [lists.initial])
  congr valid _ := valid
  nodup valid := by rw [lists.runnable]; exact valid
  unaware unaware := by rw [lists.aware] at unaware; cases unaware
  size _ := by rw [lists.runnable,length_append,lists.size]
  add := lists.added
  remove := lists.removed
  remove_defined _ filed := lists.remove_defined (not_not.mp (mt lists.place_free_iff.mpr filed))
  sleep _ := lists.slept
  sleep_defined _ distinct ready :=
    have linked := (lists.place_ready_iff distinct).mp ready
    lists.sleep_defined linked fun asleep => (nodup_append.mp distinct).2.2 _ linked _ asleep rfl
  wake _ := lists.woken
  wake_defined _ distinct _ asleep :=
    have linked := S.place_asleep_iff.mp asleep
    lists.wake_defined linked fun ready => (nodup_append.mp distinct).2.2 _ ready _ linked rfl
  next distinct called :=
    have kept := lists.kept ⟨(lists.next called).1,(lists.next called).2.1⟩
    ⟨kept.1 distinct,kept.2⟩
  next_some distinct called :=
    ⟨(lists.place_ready_iff distinct).mpr ((lists.next called).2.2.1 _ rfl),fun unaware => by
      rw [lists.aware] at unaware; cases unaware⟩
  next_none distinct called ready := by
    have linked := (lists.place_ready_iff distinct).mp ready
    rw [(lists.next called).2.2.2 rfl] at linked
    cases linked
  first _ got := fun free => lists.place_free_iff.mp free (by
    rw [lists.first] at got
    exact mem_of_head? got)
  first_defined _ filed := by
    rw [lists.first]
    have linked := not_not.mp (mt lists.place_free_iff.mpr filed)
    exact Option.isSome_iff_exists.mp (by
      rw [isSome_head?]
      exact ne_nil_of_mem linked)
  weightChange inherits := by rw [lists.noInheritance] at inherits; cases inherits
  yield distinct called := ⟨(lists.kept (lists.yield called)).1 distinct,(lists.kept (lists.yield called)).2⟩
  timeSlice distinct called := by rw [lists.timeSlice] at called; cases called; exact ⟨distinct,rfl⟩
  timeSlice_defined _ := ⟨_,lists.timeSlice⟩
  deadlineMissed distinct called := by rw [lists.deadlineMissed] at called; cases called; exact ⟨distinct,rfl⟩
  deadlineMissed_defined _ := ⟨_,lists.deadlineMissed⟩

end TwoLists

theorem head?_append_ite (tasks sleep : List (Fin n)) :
    (if tasks.isEmpty then sleep.head? else tasks.head?) = (tasks ++ sleep).head? := by
  cases tasks <;> rfl

-- The list operations of a strategy without a cursor.
structure Lists (n : Nat) where
  tasks : List (Fin n)
  sleep : List (Fin n)

namespace Lists

def addTask (i : Fin n) (s : Lists n) : Option (Lists n) := do
  return {s with tasks := ← linkBack i s.tasks}

def removeTask (i : Fin n) (s : Lists n) : Option (Lists n) :=
  if i ∈ s.tasks then do return {s with tasks := ← unlink i s.tasks}
  else do return {s with sleep := ← unlink i s.sleep}

def getFirst (s : Lists n) : Option (Fin n) := if s.tasks.isEmpty then s.sleep.head? else s.tasks.head?
def getSize (s : Lists n) : Nat := s.tasks.length + s.sleep.length

def onTaskSleep (i : Fin n) (s : Lists n) : Option (Lists n) := do
  return ⟨← unlink i s.tasks,← linkBack i s.sleep⟩

def onTaskWake (i : Fin n) (s : Lists n) : Option (Lists n) := do
  let sleep ← unlink i s.sleep
  return ⟨← linkBack i s.tasks,sleep⟩

variable {s t : Lists n} {i : Fin n}

theorem addTask_parts (added : addTask i s = some t) : t.tasks = s.tasks ++ [i] ∧ t.sleep = s.sleep := by
  obtain ⟨tasks,linked,rfl⟩ := of_return added
  exact ⟨(linkBack_parts linked).2,rfl⟩

end Lists

end SuperTinyKernel
