import SuperTinyKernel.Slot

namespace SuperTinyKernel

open KernelTask Slot

-- UpdateFsmState. `next` is what GetNext returned.

def FsmState.running (f : FsmState) : Bool := f = .switching || f = .waking

namespace Slot

variable (c : Config n)

def select (chosen : Bool) (s : Slot) : Slot := if chosen then {s with notices := .selected :: s.notices} else s
def retire (leaves : Bool) (s : Slot) : Slot :=
  if leaves then {s with task := s.task.hrtOnSwitchedOut c.mode} else s

@[simp] theorem select_task (s : Slot) : (s.select b).task = s.task := by unfold select; split <;> rfl
@[simp] theorem select_place (s : Slot) : (s.select b).place = s.place := by unfold select; split <;> rfl
@[simp] theorem retire_place (s : Slot) : (s.retire c b).place = s.place := by unfold retire; split <;> rfl
@[simp] theorem retire_notices (s : Slot) : (s.retire c b).notices = s.notices := by unfold retire; split <;> rfl
@[simp] theorem retire_false (s : Slot) : s.retire c false = s := rfl
@[simp] theorem select_false (s : Slot) : s.select false = s := rfl

end Slot

namespace Kernel

variable {c : Config n} {law : Lawful c.strategy} {k k' : Kernel c}

def nextTask (k : Kernel c) : Option (Option (Fin n)) := (c.strategy.getNext k.view k.strategy).map Prod.fst

def noTasks (k : Kernel c) : Bool := c.mode.isDynamic && decide (c.strategy.getSize k.strategy = 0)

def switchedOut (k : Kernel c) (next : Option (Fin n)) : Option (Fin n) :=
  k.taskNow.filter fun i => c.mode.isHrt && k.fsmState.running &&
    match next with
    | some j => decide (j ≠ i) && (k.tasks i).hrt.done
    | none => !k.noTasks && !(k.tasks i).isPendingRemoval

def nextEvent (k : Kernel c) (next : Option (Fin n)) : FsmEvent :=
  match next with
  | some _ => if k.fsmState = .sleeping then .wake else .switch
  | none => if k.noTasks then .exit else .sleep

inductive Transit (k : Kernel c) : Option (Fin n) → Option (Fin n) → FsmState → Outcome n → Prop where
  | keep : k.fsmState.running = true → k.taskNow = some i → Transit k (some i) (some i) .switching .stay
  | switch : k.fsmState.running = true → k.taskNow = some i → j ≠ i →
      Transit k (some j) (some j) .switching (.switch (.task i) (.task j))
  | sleep : k.fsmState.running = true → k.taskNow = some i → k.noTasks = false → k.place first ≠ .free →
      Transit k none (some first) .sleeping (.switch (.task i) .sleepTrap)
  | wake : k.fsmState = .sleeping → Transit k (some j) (some j) .waking (.switch .sleepTrap (.task j))
  | exit : k.fsmState.running = true ∨ k.fsmState = .sleeping → k.noTasks = true →
      Transit k none none .exiting .stop
  | idle : k.fsmState = .sleeping → k.noTasks = false → Transit k none k.taskNow .sleeping .stay
  | ceased : k.fsmState = .exiting → Transit k next k.taskNow .exiting .stay

structure Decided (law : Lawful c.strategy) (k k' : Kernel c) (next : Option (Fin n)) : Prop where
  filed : Filed law k'
  kstate : k'.kstate = k.kstate
  ticks : k'.ticks = k.ticks
  passes : c.strategy.getNext k.view k.strategy = some (next,k'.strategy)
  slots : ∀ i,k'.slot i = ((k.slot i).select (decide (next = some i))).retire c (decide (k.switchedOut next = some i))

theorem nextTask_eq (passes : c.strategy.getNext k.view k.strategy = some (next,σ)) : k.nextTask = some next := by
  rw [nextTask,passes]
  rfl

theorem Decided.called (decided : Decided law k k' next) : k.nextTask = some next := nextTask_eq decided.passes

theorem nextTask_ready (filed : Filed law k) (called : k.nextTask = some (some i)) :
    k.place i = .ready ∧ (c.strategy.api.sleepEvent = false → ¬(k.tasks i).timeSleep < 0) := by
  obtain ⟨⟨_,σ⟩,called,rfl⟩ := of_map called
  obtain ⟨ready,awake⟩ := law.next_some filed.inv called
  exact ⟨ready,fun unaware => by simpa [view,isSleeping] using awake unaware⟩

theorem nextTask_none (filed : Filed law k) (called : k.nextTask = some none) (ready : k.place i = .ready) :
    c.strategy.api.sleepEvent = false ∧ (k.tasks i).timeSleep < 0 := by
  obtain ⟨⟨_,σ⟩,called,rfl⟩ := of_map called
  obtain ⟨unaware,asleep⟩ := law.next_none filed.inv called ready
  exact ⟨unaware,by simpa [view] using asleep⟩

theorem noTasks_iff (filed : Filed law k) :
    k.noTasks = true ↔ c.mode.isDynamic = true ∧ ∀ i,(k.tasks i).user = none := by
  unfold noTasks
  rw [law.size_card filed.inv]
  have empty : (Finset.univ.filter fun i => c.strategy.place k.strategy i ≠ .free).card = 0 ↔
      ∀ i,(k.tasks i).user = none := by
    rw [Finset.card_eq_zero,Finset.filter_eq_empty_iff]
    simp only [Finset.mem_univ,forall_const,not_not]
    exact forall_congr' filed.free
  simp [empty]

def offered (k : Kernel c) (next : Option (Fin n)) (σ : c.strategy.State) : Kernel c :=
  match next with
  | some j => (k.setStrategy σ).notify j .selected
  | none => k.setStrategy σ

theorem fetchNextEvent_parts (filed : Filed law k) (fetched : k.fetchNextEvent = some (k',next,event)) :
    ∃ σ,c.strategy.getNext k.view k.strategy = some (next,σ) ∧ k' = k.offered next σ ∧ Filed law k' ∧
      (∀ i,k'.slot i = (k.slot i).select (decide (next = some i))) ∧
      event = k.nextEvent next := by
  obtain ⟨⟨next',σ⟩,called,same⟩ := of_bind fetched
  obtain ⟨inv,kept⟩ := law.next filed.inv called
  refine ⟨σ,?_⟩
  cases next' with
  | none =>
    cases same
    have unmoved : ∀ i,(k.setStrategy σ).slot i = k.slot i := fun i => by
      simp [slot,setStrategy,place,kept]
    have size : c.strategy.getSize σ = c.strategy.getSize k.strategy := by
      rw [law.size_card inv,law.size_card filed.inv,kept]
    refine ⟨called,rfl,⟨filed.toLinked.congr rfl rfl fun _ => rfl,inv,fun i => ?_⟩,fun i => by simp [unmoved],?_⟩
    · simpa [place,setStrategy,kept] using filed.free i
    · simp [nextEvent,noTasks,setStrategy,size]
  | some j =>
    cases same
    have filing := alters_strategy filed j inv kept
    have told := filing.trans (acts_notify filing.filed j .selected).toAlters
    refine ⟨called,rfl,told.filed,fun i => ?_,rfl⟩
    rw [told.slots,Function.update_apply]
    by_cases at_ : i = j
    · subst at_; simp [select,filing.place,slot]
    · simp [at_,Ne.symm at_]

@[simp] theorem offered_tasks (k : Kernel c) : (k.offered next σ).tasks = k.tasks := by cases next <;> rfl
@[simp] theorem offered_strategy (k : Kernel c) : (k.offered next σ).strategy = σ := by cases next <;> rfl
@[simp] theorem offered_fsmState (k : Kernel c) : (k.offered next σ).fsmState = k.fsmState := by cases next <;> rfl
theorem offered_still (k : Kernel c) (next : Option (Fin n)) (σ : c.strategy.State) :
    {k.offered next σ with taskNow := k.taskNow,fsmState := k.fsmState} = k.offered next σ := by cases next <;> rfl
@[simp] theorem offered_kstate (k : Kernel c) : (k.offered next σ).kstate = k.kstate := by cases next <;> rfl
@[simp] theorem offered_ticks (k : Kernel c) : (k.offered next σ).ticks = k.ticks := by cases next <;> rfl

def transited (k : Kernel c) (now leaves : Option (Fin n)) (f : FsmState) : Kernel c :=
  match leaves with
  | some i => {k with taskNow := now,fsmState := f}.modifyTask i (hrtOnSwitchedOut c.mode)
  | none => {k with taskNow := now,fsmState := f}

theorem transited_slots (filed : Filed law k) (now leaves : Option (Fin n)) (f : FsmState) :
    Filed law (k.transited now leaves f) ∧
      ∀ i,(k.transited now leaves f).slot i = (k.slot i).retire c (decide (leaves = some i)) := by
  have moved : Filed law {k with taskNow := now,fsmState := f} :=
    filed.still rfl rfl rfl rfl
  cases leaves with
  | none => exact ⟨moved,fun i => by simp [transited,slot,place]⟩
  | some j =>
    have acts := acts_modify moved j (hrtOnSwitchedOut c.mode) (by simp)
    refine ⟨acts.filed,fun i => ?_⟩
    rw [transited,acts.slots,Function.update_apply]
    by_cases at_ : i = j
    · subst at_; simp [retire,slot,place]
    · simp [at_,Ne.symm at_,slot,place]

theorem transited_fields (k : Kernel c) (now leaves : Option (Fin n)) (f : FsmState) :
    (k.transited now leaves f).taskNow = now ∧ (k.transited now leaves f).fsmState = f ∧
      (k.transited now leaves f).kstate = k.kstate ∧ (k.transited now leaves f).ticks = k.ticks ∧
      (k.transited now leaves f).strategy = k.strategy := by
  cases leaves <;> exact ⟨rfl,rfl,rfl,rfl,rfl⟩

theorem switchedOut_now (leaves : k.switchedOut next = some i) :
    k.taskNow = some i ∧ k.fsmState.running = true ∧ c.mode.isHrt = true := by
  obtain ⟨now,leaves⟩ := Option.filter_eq_some_iff.mp leaves
  simp only [Bool.and_eq_true] at leaves
  exact ⟨now,leaves.1.2,leaves.1.1⟩

theorem switchedOut_some (now : k.taskNow = some i) (running : k.fsmState.running = true) :
    k.switchedOut (some j) = if c.mode.isHrt = true ∧ j ≠ i ∧ (k.tasks i).hrt.done = true then some i else none := by
  simp [switchedOut,now,running,Option.filter]

theorem switchedOut_none (now : k.taskNow = some i) (running : k.fsmState.running = true) (busy : k.noTasks = false) :
    k.switchedOut none = if c.mode.isHrt = true ∧ (k.tasks i).isPendingRemoval = false then some i else none := by
  simp [switchedOut,now,running,busy,Option.filter]

theorem switchedOut_stopped (stopped : k.fsmState.running = false) : k.switchedOut next = none := by
  cases now : k.taskNow <;> simp [switchedOut,now,stopped]

theorem switchedOut_empty (empty : k.noTasks = true) : k.switchedOut none = none := by
  cases now : k.taskNow <;> simp [switchedOut,now,empty]

theorem stateSwitch_transits (running : k.fsmState.running = true) (now : k.taskNow = some i) :
    Transit k (some j) (some j) .switching ((k.offered (some j) σ).stateSwitch i j).2 ∧
      ((k.offered (some j) σ).stateSwitch i j).1.setFsm .switching =
        (k.offered (some j) σ).transited (some j) (k.switchedOut (some j)) .switching := by
  rw [switchedOut_some now running]
  unfold stateSwitch
  split
  · rename_i same
    subst same
    refine ⟨.keep running now,?_⟩
    simp [transited,now,offered,setStrategy,notify,setFsm]
  · rename_i apart
    refine ⟨.switch running now apart,?_⟩
    by_cases leaves : c.mode.isHrt = true ∧ (k.tasks i).hrt.done = true
    · simp [leaves,transited,modifyTask,setFsm,apart]
    · simp [leaves,transited,setFsm,apart]

theorem stateSleep_transits (running : k.fsmState.running = true) (now : k.taskNow = some i)
    (busy : k.noTasks = false) (inv : law.Inv k.view.weights (k.offered none σ).strategy)
    (kept : (k.offered none σ).place = k.place)
    (sleeping : (k.offered none σ).stateSleep i = some (k',out)) :
    ∃ first,Transit k none (some first) .sleeping out ∧
      k'.setFsm .sleeping = (k.offered none σ).transited (some first) (k.switchedOut none) .sleeping := by
  obtain ⟨first,got,same⟩ := of_bind sleeping
  cases same
  have placed : k.place first ≠ .free := by
    rw [← kept]; exact law.first inv got
  refine ⟨first,.sleep running now busy placed,?_⟩
  rw [switchedOut_none now running busy]
  by_cases leaves : c.mode.isHrt = true ∧ (k.tasks i).isPendingRemoval = false
  · simp [leaves,transited,modifyTask,setFsm]
  · simp [leaves,transited,setFsm]

theorem fsm_row (row : fsm s e = some f) :
    match f with
    | .switching => s.running = true ∧ e = .switch
    | .sleeping => s.running = true ∧ e = .sleep
    | .waking => s = .sleeping ∧ e = .wake
    | .exiting => (s.running = true ∨ s = .sleeping) ∧ e = .exit
    | .none => s = .exiting ∨ s = .sleeping ∧ (e = .switch ∨ e = .sleep) ∨ s.running = true ∧ e = .wake := by
  cases s <;> cases e <;> simp [fsm] at row <;> subst row <;> simp [FsmState.running]

theorem nextEvent_inv (k : Kernel c) (next : Option (Fin n)) :
    match k.nextEvent next with
    | .switch => next.isSome = true ∧ k.fsmState ≠ .sleeping
    | .wake => next.isSome = true ∧ k.fsmState = .sleeping
    | .sleep => next = none ∧ k.noTasks = false
    | .exit => next = none ∧ k.noTasks = true := by
  cases next with
  | some j => by_cases asleep : k.fsmState = .sleeping <;> simp [nextEvent,asleep]
  | none => cases empty : k.noTasks <;> simp [nextEvent,empty]

theorem updateFsmState_transits (called : k.fetchNextEvent = some (k.offered next σ,next,k.nextEvent next))
    (offer : Filed law (k.offered next σ)) (kept : (k.offered next σ).place = k.place)
    (decided : k.updateFsmState = some (k',out)) :
    ∃ now f,Transit k next now f out ∧ k' = (k.offered next σ).transited now (k.switchedOut next) f := by
  obtain ⟨_,fetched,decided⟩ := of_bind decided
  cases Option.some.inj (called.symm.trans fetched)
  simp only [offered_fsmState] at decided
  obtain ⟨f,row,decided⟩ := of_bind decided
  have where_ := fsm_row row
  have event := nextEvent_inv k next
  cases f with
  | switching =>
    obtain ⟨running,named⟩ := where_
    obtain ⟨i,now,decided⟩ := of_bind decided
    obtain ⟨j,chosen,decided⟩ := of_bind decided
    subst chosen
    cases decided
    exact ⟨_,_,stateSwitch_transits running now⟩
  | sleeping =>
    obtain ⟨running,named⟩ := where_
    obtain ⟨i,now,decided⟩ := of_bind decided
    obtain ⟨⟨k₁,out⟩,slept,decided⟩ := of_bind decided
    cases decided
    rw [named] at event
    obtain ⟨rfl,busy⟩ := event
    obtain ⟨first,transit,same⟩ := stateSleep_transits running now busy offer.inv kept slept
    exact ⟨_,_,transit,same⟩
  | waking =>
    obtain ⟨asleep,_⟩ := where_
    obtain ⟨j,chosen,decided⟩ := of_bind decided
    subst chosen
    cases decided
    refine ⟨_,_,.wake asleep,?_⟩
    rw [switchedOut_stopped (by simp [asleep,FsmState.running])]
    rfl
  | exiting =>
    obtain ⟨from_,named⟩ := where_
    rw [named] at event
    obtain ⟨rfl,empty⟩ := event
    have dynamic : c.mode.isDynamic = true := by
      simp only [noTasks,Bool.and_eq_true] at empty; exact empty.1
    simp only [stateExit,dynamic] at decided
    cases decided
    refine ⟨_,_,.exit from_ empty,?_⟩
    rw [switchedOut_empty empty]
    rfl
  | none =>
    cases decided
    rcases where_ with ceased | ⟨asleep,named⟩ | ⟨running,named⟩
    · refine ⟨_,_,.ceased ceased,?_⟩
      rw [switchedOut_stopped (by simp [ceased,FsmState.running]),transited,← ceased]
      exact (offered_still k next σ).symm
    · rcases named with named | named <;> rw [named] at event
      · exact absurd asleep event.2
      · obtain ⟨rfl,busy⟩ := event
        refine ⟨_,_,.idle asleep busy,?_⟩
        rw [switchedOut_stopped (by simp [asleep,FsmState.running]),transited,← asleep]
        exact (offered_still k none σ).symm
    · rw [named] at event
      simp [event.2,FsmState.running] at running

theorem updateFsmState_decided (filed : Filed law k) (decided : k.updateFsmState = some (k',out)) :
    ∃ next,Decided law k k' next ∧ Transit k next k'.taskNow k'.fsmState out := by
  obtain ⟨⟨k₁,next,event⟩,fetched,_⟩ := of_bind decided
  obtain ⟨σ,called,rfl,offer,slots,rfl⟩ := fetchNextEvent_parts filed fetched
  have kept : (k.offered next σ).place = k.place := by
    funext i
    simpa using congrArg Slot.place (slots i)
  obtain ⟨now,f,transit,rfl⟩ := updateFsmState_transits fetched offer kept decided
  obtain ⟨final,retired⟩ := transited_slots offer now (k.switchedOut next) f
  obtain ⟨now',f',kstate,ticks,strategy⟩ := transited_fields (k.offered next σ) now (k.switchedOut next) f
  refine ⟨next,⟨final,by simp [kstate],by simp [ticks],by simpa [strategy] using called,fun i => ?_⟩,
    by rw [now',f']; exact transit⟩
  rw [retired i,slots i]

theorem Decided.tasks (decided : Decided law k k' next) (soft : c.mode.isHrt = false) : k'.tasks = k.tasks := by
  funext i
  have stays : k.switchedOut next ≠ some i := fun leaves => by
    have hard := (switchedOut_now leaves).2.2
    rw [soft] at hard
    cases hard
  have task := congrArg task (decided.slots i)
  rw [decide_eq_false stays,retire_false,select_task] at task
  exact task

end Kernel
end SuperTinyKernel
