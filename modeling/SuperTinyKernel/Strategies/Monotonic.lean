import SuperTinyKernel.Strategies.Client

namespace SuperTinyKernel.Monotonic

open Function Transition List

inductive Kind where
  | rate | deadline
  deriving DecidableEq,Repr

def key (kind : Kind) (t : TaskView) : Int :=
  match kind with
  | .rate => t.hrtPeriodicity
  | .deadline => t.hrtDeadline

-- The scan of AddTask from the head: in front of the first task with a larger key.
def insert (kind : Kind) (v : Views n) (i : Fin n) : List (Fin n) → List (Fin n)
  | [] => [i]
  | j :: rest => if key kind (v i) < key kind (v j) then i :: j :: rest else j :: insert kind v i rest

def addTask (kind : Kind) (v : Views n) (i : Fin n) (tasks : List (Fin n)) : Option (List (Fin n)) :=
  if i ∈ tasks then none else some (insert kind v i tasks)

def getNext (v : Views n) (tasks : List (Fin n)) : Option (Fin n) := tasks.find? fun i => !(v i).isSleeping

-- SwitchStrategyMonotonic. The kernel delivers no sleep events to it.
def strategy (n : Nat) (kind : Kind) : Strategy n where
  api := ⟨false,false,false,false,false,false⟩
  State := List (Fin n)
  initial := []
  addTask := addTask kind
  removeTask _ := unlink
  getNext v tasks := some (getNext v tasks,tasks)
  getFirst := List.head?
  getSize := List.length
  onTaskSleep _ _ := some
  onTaskWake _ _ := some
  onTaskWeightChange _ _ _ := some
  onTaskYield _ _ tasks := some (false,tasks)
  onTaskTimeSlice _ _ tasks := some (false,tasks)
  onTaskDeadlineMissed _ tasks := some (false,tasks)
  runnableLists tasks := [tasks]
  sleepList _ := []

variable {tasks tasks' : List (Fin n)} {i : Fin n} {v : Views n} {kind : Kind}

theorem insert_perm (tasks : List (Fin n)) : (insert kind v i tasks).Perm (i :: tasks) := by
  induction tasks with
  | nil => rfl
  | cons j rest ih =>
    unfold insert
    split
    · rfl
    · exact (ih.cons j).trans (.swap i j rest)

theorem lists_eq (tasks : List (Fin n)) : (strategy n kind).runnable tasks ++ (strategy n kind).sleepList tasks = tasks := by
  simp [Strategy.runnable,strategy]

theorem head?_defined (linked : i ∈ tasks) : ∃ j,tasks.head? = some j := by
  cases tasks with
  | nil => cases linked
  | cons j rest => exact ⟨j,rfl⟩

theorem place_eq (tasks : List (Fin n)) (i : Fin n) :
    (strategy n kind).place tasks i = if i ∈ tasks then .ready else .free := by
  simp [Strategy.place,Strategy.runnable,strategy]

theorem place_free_iff : (strategy n kind).place tasks i = .free ↔ i ∉ tasks := by
  rw [place_eq]; split <;> simp_all

theorem place_ready_iff : (strategy n kind).place tasks i = .ready ↔ i ∈ tasks := by
  rw [place_eq]; split <;> simp_all

theorem addTask_parts (added : addTask kind v i tasks = some tasks') : i ∉ tasks ∧ insert kind v i tasks = tasks' := by
  simpa [addTask] using added

theorem addTask_moves (distinct : tasks.Nodup) (added : addTask kind v i tasks = some tasks') :
    tasks'.Nodup ∧ (strategy n kind).place tasks' = update ((strategy n kind).place tasks) i .ready := by
  obtain ⟨fresh,rfl⟩ := addTask_parts added
  have perm : (insert kind v i tasks).Perm (i :: tasks) := insert_perm tasks
  refine ⟨perm.nodup_iff.mpr (nodup_cons.mpr ⟨fresh,distinct⟩),?_⟩
  funext j
  rw [place_eq,update_apply,place_eq]
  by_cases at_ : j = i <;> simp [perm.mem_iff,at_]

theorem unlink_moves (distinct : tasks.Nodup) (removed : unlink i tasks = some tasks') :
    i ∈ tasks ∧ tasks'.Nodup ∧
      (strategy n kind).place tasks' = update ((strategy n kind).place tasks) i .free := by
  obtain ⟨linked,rfl⟩ := unlink_parts removed
  refine ⟨linked,distinct.erase i,?_⟩
  funext j
  rw [place_eq,update_apply,place_eq]
  by_cases at_ : j = i
  · subst at_; simp [distinct.not_mem_erase]
  · simp [at_,mem_erase_of_ne at_]

def lawful (n : Nat) (kind : Kind) : Lawful (strategy n kind) where
  Inv _ tasks := tasks.Nodup
  Fits _ := True
  initial := nodup_nil
  initial_free := place_free_iff.mpr not_mem_nil
  congr valid _ := valid
  nodup valid := (lists_eq _).symm ▸ valid
  unaware _ := rfl
  size _ := congrArg List.length (lists_eq _).symm
  add distinct _ := addTask_moves distinct
  remove distinct removed :=
    have moves := unlink_moves distinct removed
    ⟨fun free => place_free_iff.mp free moves.1,moves.2⟩
  remove_defined _ filed := ⟨_,unlink_defined (not_not.mp (mt place_free_iff.mpr filed))⟩
  sleep aware := by cases aware
  sleep_defined aware := by cases aware
  wake aware := by cases aware
  wake_defined aware := by cases aware
  next distinct called := by cases called; exact ⟨distinct,rfl⟩
  next_some _ called := by
    have chosen := congrArg Prod.fst (Option.some.inj called)
    exact ⟨place_ready_iff.mpr (mem_of_find?_eq_some chosen),fun _ => by simpa using find?_some chosen⟩
  next_none _ called ready := by
    have idle := congrArg Prod.fst (Option.some.inj called)
    exact ⟨rfl,by simpa using find?_eq_none.mp idle _ (place_ready_iff.mp ready)⟩
  first _ got free := place_free_iff.mp free (mem_of_head? got)
  first_defined _ filed := head?_defined (not_not.mp (mt place_free_iff.mpr filed))
  weightChange inherits := by cases inherits
  yield distinct called := by cases called; exact ⟨distinct,rfl⟩
  timeSlice distinct called := by cases called; exact ⟨distinct,rfl⟩
  timeSlice_defined _ := ⟨_,rfl⟩
  deadlineMissed distinct called := by cases called; exact ⟨distinct,rfl⟩
  deadlineMissed_defined _ := ⟨_,rfl⟩

-- The order of the tasks: by the key, and with equal keys as they were registered.
def Before (kind : Kind) (v : Views n) (listed : List (Fin n)) (i j : Fin n) : Prop :=
  key kind (v i) < key kind (v j) ∨ key kind (v i) = key kind (v j) ∧ [i,j].Sublist listed

structure Sorted (kind : Kind) (v : Views n) (listed tasks : List (Fin n)) : Prop where
  distinct : listed.Nodup
  same : tasks.Perm listed
  order : tasks.Pairwise (Before kind v listed)

theorem insert_order (order : tasks.Pairwise (Before kind v (listed ++ [i]))) (registered : tasks ⊆ listed) :
    (insert kind v i tasks).Pairwise (Before kind v (listed ++ [i])) := by
  induction tasks with
  | nil => exact pairwise_singleton _ _
  | cons j rest ih =>
    obtain ⟨first,later⟩ := pairwise_cons.mp order
    unfold insert
    split
    · rename_i smaller
      refine pairwise_cons.mpr ⟨fun k member => .inl ?_,order⟩
      rcases mem_cons.mp member with rfl | member
      · exact smaller
      · exact lt_of_lt_of_le smaller ((first k member).elim le_of_lt fun equal => equal.1.le)
    · rename_i larger
      refine pairwise_cons.mpr ⟨fun k member => ?_,ih later fun k member => registered (.tail j member)⟩
      rcases mem_cons.mp ((insert_perm rest).mem_iff.mp member) with rfl | member
      · have linked : [j].Sublist listed := singleton_sublist.mpr (registered mem_cons_self)
        exact (not_lt.mp larger).lt_or_eq.imp_right fun equal => ⟨equal,linked.append (.refl _)⟩
      · exact first k member

theorem Sorted.insert (sorted : Sorted kind v listed tasks) (fresh : i ∉ tasks) :
    Sorted kind (update v i view) (listed ++ [i]) (insert kind (update v i view) i tasks) := by
  have registered := sorted.same.subset
  refine ⟨?_,(insert_perm tasks).trans ((sorted.same.cons i).trans (perm_append_singleton i listed).symm),
    insert_order (sorted.order.imp_of_mem fun {j k} first second before => ?_) registered⟩
  · exact ((perm_append_singleton i listed).nodup_iff).mpr (nodup_cons.mpr ⟨mt sorted.same.mem_iff.mpr fresh,sorted.distinct⟩)
  · have apart : ∀ {k},k ∈ tasks → update v i view k = v k := fun member => update_of_ne (ne_of_mem_of_not_mem member fresh) _ _
    unfold Before
    rw [apart first,apart second]
    exact before.imp_right fun equal => ⟨equal.1,equal.2.trans (sublist_append_left listed [i])⟩

theorem Sorted.erase (sorted : Sorted kind v listed tasks) (i : Fin n) : Sorted kind v (listed.erase i) (tasks.erase i) := by
  have distinct := sorted.same.nodup_iff.mpr sorted.distinct
  refine ⟨sorted.distinct.erase i,sorted.same.erase i,
    (sorted.order.sublist erase_sublist).imp_of_mem fun {j k} first second before => before.imp_right fun equal => ⟨equal.1,?_⟩⟩
  have absent : i ∉ [j,k] := by
    simp [(distinct.mem_erase_iff.mp first).1.symm,(distinct.mem_erase_iff.mp second).1.symm]
  exact erase_of_not_mem absent ▸ equal.2.erase i

theorem Sorted.getNext (sorted : Sorted kind v listed tasks) (w : Views n) :
    (getNext w tasks = none ↔ ∀ i ∈ listed,(w i).isSleeping = true) ∧
    ∀ i,getNext w tasks = some i → i ∈ listed ∧ (w i).isSleeping = false ∧
      ∀ j ∈ listed,(w j).isSleeping = false → j = i ∨ Before kind v listed i j := by
  refine ⟨by simp [Monotonic.getNext,sorted.same.mem_iff],fun i chosen => ?_⟩
  obtain ⟨awake,front,rest,rfl,asleep⟩ := find?_eq_some_iff_append.mp chosen
  refine ⟨sorted.same.subset (by simp),by simpa using awake,fun j member runs => ?_⟩
  rcases mem_append.mp (sorted.same.mem_iff.mpr member) with early | later
  · exact absurd (asleep j early) (by simp [runs])
  · exact (mem_cons.mp later).imp_right ((pairwise_cons.mp (pairwise_append.mp sorted.order).2.1).1 j)

theorem Sorted.step {c d : Client (strategy n kind)} (sorted : Sorted kind c.views listed c.state) (taken : c.step e = some d) :
    Sorted kind d.views (Client.listed c e d listed) d.state := by
  cases Client.step_steps taken with
  | addTask free added =>
    obtain ⟨fresh,rfl⟩ := addTask_parts added
    exact sorted.insert fresh
  | removeTask removed =>
    obtain ⟨-,rfl⟩ := unlink_parts removed
    exact sorted.erase _
  | onTaskWeightChange inherits => cases inherits
  | getNext called | onTaskSleep called | onTaskWake called | onTaskYield called | onTaskTimeSlice called =>
    cases called
    exact sorted

def equalKeys (first second third : Fin n) : List (StrategyCall n) :=
  [.addTask first ⟨false,1,1,5,5,0⟩,.addTask second ⟨false,1,1,5,5,0⟩,.addTask third ⟨false,1,1,3,3,0⟩]

end SuperTinyKernel.Monotonic
