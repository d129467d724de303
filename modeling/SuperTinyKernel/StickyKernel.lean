import SuperTinyKernel.Delivery
import SuperTinyKernel.Removal
import SuperTinyKernel.Strategies.Sticky

namespace SuperTinyKernel

open PreemptionThreshold

-- A kernel with KERNEL_TIMESLICE, which excludes KERNEL_HRT, over
-- SwitchStrategyPreemptionThreshold with TIMESLICE.
structure SliceMode (n : Nat) where
  mode : Mode
  ticklessTicksMax : Int
  tasksMax : 0 < n
  modeMix : ¬(mode.isStatic = true ∧ mode.isDynamic = true)
  timeslice : mode.isTimeslice = true
  soft : mode.isHrt = false
  ticklessRange : 1 ≤ ticklessTicksMax ∧ ticklessTicksMax ≤ 100000

namespace SliceMode

variable (m : SliceMode n)

theorem hrtAlone (hard : m.mode.isHrt = true) : m.mode.isStatic = true ∨ m.mode.isDynamic = true := by
  rw [m.soft] at hard
  cases hard

theorem notHrt (both : a = true ∧ m.mode.isHrt = true) : False := by
  rw [m.soft] at both
  cases both.2

theorem timesliceStrategy (B : IndexSet P) (_ : m.mode.isTimeslice = true) :
    (PreemptionThreshold.strategy n B true).api.timeslice = true := rfl

theorem inheritance (B : IndexSet P) (_ : (PreemptionThreshold.strategy n B true).api.priorityInheritance = true) :
    (PreemptionThreshold.strategy n B true).api.weight = true := rfl

def config (B : IndexSet P) : Config n where
  mode := m.mode
  strategy := PreemptionThreshold.strategy n B true
  ticklessTicksMax := m.ticklessTicksMax
  tasksMax := m.tasksMax
  modeMix := m.modeMix
  hrtAlone := m.hrtAlone
  ticklessHrt := m.notHrt
  timesliceHrt := m.notHrt
  timesliceStrategy := m.timesliceStrategy B
  inheritance := inheritance B
  ticklessRange := m.ticklessRange

def law (B : IndexSet P) : Lawful (m.config B).strategy := PreemptionThreshold.lawful n B true

end SliceMode

theorem Slot.Left.select {s : Slot} (left : s.Left) : (s.select b).Left := by
  unfold Slot.select
  split
  · exact left.imp id (List.mem_cons_of_mem _)
  · exact left

namespace Kernel

variable {m : SliceMode n} {B : IndexSet P} {k k' k'' : Kernel (m.config B)} {i j : Fin n} {p : Fin P} {b : Bool}
  {slot : Slot} {elapsed : Int}

def sticky (k : Kernel (m.config B)) : PreemptionThreshold.State n B := k.strategy

theorem bands_filing {t : PreemptionThreshold.State n B}
    (same : ∀ q h,t.held q = some h → (k'.tasks h).filing = (k.tasks h).filing) : SameBands k.view k'.view t := by
  intro q h holds
  have filing := same q h holds
  have weight : (k'.view h).weight = (k.view h).weight := KernelTask.getWeight_filing filing _
  have base : (k'.view h).baseWeight = (k.view h).baseWeight := by
    simp only [KernelTask.filing,Prod.mk.injEq] at filing
    simp only [view,KernelTask.getBaseWeight,filing]
  rw [getTaskThreshold,getTaskThreshold,weight,base]

-- The task left the runnable list it was in, even if it is in one again.
def Left (k : Kernel (m.config B)) (i : Fin n) : Prop := k.place i ≠ .ready ∨ .woke ∈ k.notices i

theorem Told.beside {σ σ' : (m.config B).strategy.State} (told : Told (m.law B) i σ σ') : @Beside n P B i σ σ' := by
  induction told with
  | sleep inv called => exact onTaskSleep_beside inv.valid called
  | wake inv called => exact onTaskWake_beside inv.valid called
  | remove inv called => exact removeTask_beside inv called
  | trans _ _ first second => exact first.trans second

theorem trackDuration_soft (tracked : k.trackDuration elapsed i = some k') : k' = k := by
  have soft : (m.config B).mode.isHrt = false := m.soft
  unfold trackDuration at tracked
  rw [soft] at tracked
  cases tracked
  rfl

theorem updateSlot_acts {acc acc' : Kernel (m.config B) × Int} (filed : Filed (m.law B) acc.1)
    (updated : updateSlot elapsed acc i = some acc') : ∃ slot,Acts (m.law B) acc.1 i slot acc'.1 := by
  have yields := acts_modify filed i (consumeYield (m.config B)) (by simp)
  unfold updateSlot at updated
  dsimp only at updated
  split at updated
  · split at updated
    · obtain ⟨k',removed,same⟩ := of_map updated
      cases same
      exact ⟨_,yields.trans (removeTask_acts yields.filed removed)⟩
    · obtain ⟨k',advanced,same⟩ := of_map updated
      cases same
      exact ⟨_,yields.trans (advanceSleep_acts yields.filed advanced)⟩
  · obtain ⟨k',tracked,same⟩ := of_map updated
    cases same
    rw [trackDuration_soft tracked]
    exact ⟨_,yields⟩

structure Kept (k k' : Kernel (m.config B)) : Prop where
  filed : Filed (m.law B) k'
  poised : Poised k'.view k'.sticky
  clear : ∀ p j,Clear k.view k.sticky p j → Clear k'.view k'.sticky p j
  stands : ∀ p j b,Stands k.view k.sticky p j b → Stands k'.view k'.sticky p j b ∨ Left k' j
  left : ∀ j,Left k j → Left k' j

theorem Kept.trans (first : Kept k k') (second : Kept k' k'') : Kept k k'' := by
  refine ⟨second.filed,second.poised,fun p j clear => second.clear p j (first.clear p j clear),fun p j b stands => ?_,
    fun j left => second.left j (first.left j left)⟩
  rcases first.stands p j b stands with stands | left
  · exact second.stands p j b stands
  · exact .inr (second.left j left)

theorem Kept.same (filed : Filed (m.law B) k') (poised : Poised k.view k.sticky) (same : k'.sticky = k.sticky)
    (filing : ∀ j,(k'.tasks j).filing = (k.tasks j).filing) (left : ∀ j,Left k j → Left k' j) : Kept k k' := by
  have bands : SameBands k.view k'.view k.sticky := bands_filing fun _ h _ => filing h
  refine ⟨filed,?_,fun p j clear => ?_,fun p j b stands => .inl ?_,left⟩
  · have inv : (lists n B true).Inv k'.view.weights k'.sticky := filed.inv
    rw [same] at inv ⊢
    exact poised.same bands inv
  · rw [same]
    exact clear.narrow bands fun _ _ holds => holds
  · rw [same]
    exact stands.same bands

theorem Kept.refl (filed : Filed (m.law B) k) (poised : Poised k.view k.sticky) : Kept k k :=
  .same filed poised rfl (fun _ => rfl) fun _ => id

theorem beside_bands (beside : Beside i k.sticky k'.sticky) (others : ∀ j,j ≠ i → (k'.tasks j).filing = (k.tasks j).filing) :
    SameBands k.view k'.view k'.sticky :=
  bands_filing fun q h holds => others h (beside.held q h holds).2

theorem Acts.kept (acts : Acts (m.law B) k i slot k') (poised : Poised k.view k.sticky) : Kept k k' := by
  have others : ∀ j,j ≠ i → k'.tasks j = k.tasks j := fun j other => congrArg Slot.task (acts.other other)
  have left : ∀ j,Left k j → Left k' j := by
    intro j left
    by_cases own : j = i
    · subst own
      have gone : (k'.slot j).Left := by
        rw [acts.self]
        exact acts.left left
      exact gone
    · have place : k'.place j = k.place j := congrArg Slot.place (acts.other own)
      have notices : k'.notices j = k.notices j := congrArg Slot.notices (acts.other own)
      rw [Left,place,notices]
      exact left
  rcases acts.told with ⟨same,filing⟩ | ⟨told,gone⟩
  · refine .same acts.filed poised same (fun j => ?_) left
    by_cases own : j = i
    · subst own
      rw [acts.task]
      exact filing
    · rw [others j own]
  · have beside : Beside i k.sticky k'.sticky := told.beside
    rw [← acts.self] at gone
    have bands := beside_bands beside fun j other => by rw [others j other]
    refine ⟨acts.filed,poised.beside bands beside acts.filed.inv,
      fun p j clear => clear.narrow bands fun q h holds => (beside.held q h holds).1,fun p j b stands => ?_,left⟩
    by_cases own : j = i
    · subst own
      exact .inr gone
    · exact .inl (stands.beside bands beside own)

theorem updateTaskState_kept (filed : Filed (m.law B) k) (poised : Poised k.view k.sticky)
    (updated : k.updateTaskState elapsed = some (k',sleepTicks)) : Kept k k' := by
  refine Turns.foldlM_keeps (I := fun acc : Kernel (m.config B) × Int => Kept k acc.1) (List.finRange n)
    (.refl filed poised) (fun acc i acc' _ kept turned => ?_) updated
  obtain ⟨_,acts⟩ := updateSlot_acts kept.filed turned
  exact kept.trans (acts.kept kept.poised)

theorem startSlots_kept (filed : Filed (m.law B) k) (poised : Poised k.view k.sticky)
    (launched : (List.finRange n).foldlM startSlot k = some k') : Kept k k' := by
  refine Turns.foldlM_keeps (I := fun u : Kernel (m.config B) => Kept k u) (List.finRange n) (.refl filed poised)
    (fun u i v _ kept turned => ?_) launched
  exact kept.trans ((startSlot_acts kept.filed turned).kept kept.poised)

theorem updateTasks_kept (filed : Filed (m.law B) k) (poised : Poised k.view k.sticky)
    (updated : k.updateTasks elapsed = some (k',sleepTicks)) : Kept k k' := by
  obtain ⟨u,synced,updated⟩ := of_bind updated
  obtain ⟨steady,slots⟩ := updateSyncObjects_slots filed synced
  have tasks : ∀ j,u.tasks j = (k.tasks j).tickSync m.mode elapsed := fun j => congrArg Slot.task (slots j)
  have left : ∀ j,Left k j → Left u j := fun j left => by
    have place : u.place j = k.place j := congrArg Slot.place (slots j)
    have notices : u.notices j = k.notices j := congrArg Slot.notices (slots j)
    rw [Left,place,notices]
    exact left
  have first : Kept k u := .same steady.filed poised steady.strategy
    (fun j => by rw [tasks]; exact filing_tickSync _) left
  exact first.trans (updateTaskState_kept steady.filed first.poised updated)

section
variable {c : Config n} {law : Lawful c.strategy} {k k' : Kernel c}

theorem selected_iff {s t : Slot} (chosen : t.notices = (s.select b).notices) (before : .selected ∉ s.notices) :
    .selected ∈ t.notices ↔ b = true := by
  rw [chosen]
  unfold Slot.select
  cases b with
  | false => exact ⟨fun selected => absurd selected before,fun no => by cases no⟩
  | true => exact ⟨fun _ => rfl,fun _ => List.mem_cons_self⟩

theorem Decided.told (decided : Decided law k k' next) (before : ∀ j,.selected ∉ k.notices j) (j : Fin n) :
    .selected ∈ k'.notices j ↔ next = some j := by
  have notices := congrArg Slot.notices (decided.slots j)
  rw [Slot.retire_notices] at notices
  rw [← decide_eq_true_iff (p := next = some j)]
  exact selected_iff (s := k.slot j) (t := k'.slot j) notices (before j)

theorem Transit.running (transit : Transit k next now f out) (running : f.running = true) : now = next := by
  cases transit with
  | keep | switch | wake => rfl
  | sleep | exit | idle | ceased => cases running

end

section
variable {c : Config n} {k k' : Kernel c} {i : Fin n} {elapsed : Int}

def charges (k : Kernel c) (i : Fin n) : Bool :=
  decide (k.taskNow = some i ∧ (k.fsmState = .switching ∨ k.fsmState = .waking) ∧ (k.tasks i).isBusy = true ∧
    (k.tasks i).isSleeping = false ∧ (k.tasks i).ts.quantum ≠ noTimeSlice)

def expires (elapsed : Int) (k : Kernel c) (i : Fin n) : Bool :=
  k.charges i && !k.isLocked && decide ((k.tasks i).ts.left - elapsed ≤ 0)

def chargedTo (k : Kernel c) (elapsed : Int) (i : Fin n) : Int := if k.charges i then elapsed else 0

theorem view_ts (k : Kernel c) (f : KernelTask → TsInfo) : (k.modifyTask i fun t => {t with ts := f t}).view = k.view := by
  funext j
  by_cases own : j = i
  · subst own
    simp only [view,modifyTask_tasks]
    rfl
  · simp only [view,modifyTask,Function.update_of_ne own]

theorem modifyTask_other (k : Kernel c) (f : KernelTask → KernelTask) (other : j ≠ i) : (k.modifyTask i f).tasks j = k.tasks j :=
  Function.update_of_ne other _ _

inductive Sliced (k : Kernel c) (elapsed : Int) : Kernel c → Prop where
  | idle : (∀ x,k.charges x = false) → Sliced k elapsed k
  | charged {x : Fin n} : k.charges x = true → k.expires elapsed x = false →
      Sliced k elapsed (k.modifyTask x fun t => {t with ts := {t.ts with left := t.ts.left - elapsed}})
  | expired {x : Fin n} : k.charges x = true → k.expires elapsed x = true →
      c.strategy.onTaskTimeSlice k.view x k.strategy = some (rotated,σ) →
      Sliced k elapsed ((k.modifyTask x fun t => {t with ts := t.ts.reload}).setStrategy σ)

theorem updateTimeslice_sliced (charged : k.updateTimeslice elapsed = some k') : Sliced k elapsed k' := by
  unfold updateTimeslice at charged
  split at charged
  · rename_i none_
    cases charged
    exact .idle fun i => decide_eq_false fun all => by rw [none_] at all; cases all.1
  · rename_i i now
    split at charged
    · rename_i runs
      have charges : k.charges i = true := decide_eq_true ⟨now,runs⟩
      have expires : k.expires elapsed i = decide (k.isLocked = false ∧ (k.tasks i).ts.left - elapsed ≤ 0) := by
        rw [Kernel.expires,charges]
        cases k.isLocked <;> simp
      dsimp only at charged
      rw [modifyTask_tasks] at charged
      split at charged
      · rename_i over_
        have twice : ((k.modifyTask i (chargeTimeslice elapsed)).modifyTask i fun t => {t with ts := t.ts.reload}) =
            k.modifyTask i fun t => {t with ts := t.ts.reload} := modifyTask_twice k _ _
        rw [twice,view_ts] at charged
        obtain ⟨⟨rotated,σ⟩,called,rfl⟩ := of_return charged
        exact .expired charges (expires.trans (decide_eq_true over_)) called
      · rename_i lasts
        cases charged
        exact .charged charges (expires.trans (decide_eq_false lasts))
    · rename_i stands
      cases charged
      refine .idle fun j => decide_eq_false fun all => stands ?_
      obtain rfl := Option.some.inj (now.symm.trans all.1)
      exact all.2

def sliceAfter (elapsed : Int) (k : Kernel c) (i : Fin n) : TsInfo :=
  if k.expires elapsed i then (k.tasks i).ts.reload
  else {(k.tasks i).ts with left := (k.tasks i).ts.left - k.chargedTo elapsed i}

theorem charges_once (first : k.charges i = true) (other : j ≠ i) : k.charges j = false :=
  eq_false_of_ne_true fun second =>
    other (Option.some.inj ((of_decide_eq_true second).1.symm.trans (of_decide_eq_true first).1))

theorem expires_charges (expires : k.expires elapsed i = true) : k.charges i = true := by
  simp only [Kernel.expires,Bool.and_eq_true] at expires
  exact expires.1.1

theorem sliceAfter_idle (idle : k.charges i = false) : k.sliceAfter elapsed i = (k.tasks i).ts := by
  have lasts : k.expires elapsed i = false := eq_false_of_ne_true fun expires => by
    rw [expires_charges expires] at idle
    cases idle
  rw [sliceAfter,lasts,chargedTo,idle]
  simp

theorem Sliced.tasks (sliced : Sliced k elapsed k') (i : Fin n) : k'.tasks i = {k.tasks i with ts := k.sliceAfter elapsed i} := by
  have others : ∀ {x},k.charges x = true → i ≠ x → k.tasks i = {k.tasks i with ts := k.sliceAfter elapsed i} :=
    fun charges other => by rw [sliceAfter_idle (charges_once charges other)]
  cases sliced with
  | idle none_ => rw [sliceAfter_idle (none_ i)]
  | @charged x charges lasts =>
    by_cases own : i = x
    · subst own
      rw [modifyTask_tasks,sliceAfter,lasts,chargedTo,charges]
      rfl
    · rw [modifyTask_other k _ own]
      exact others charges own
  | @expired _ _ x charges expires called =>
    by_cases own : i = x
    · subst own
      rw [setStrategy_tasks,modifyTask_tasks,sliceAfter,expires]
      rfl
    · rw [setStrategy_tasks,modifyTask_other k _ own]
      exact others charges own

theorem Sliced.fields (sliced : Sliced k elapsed k') : k'.view = k.view ∧ k'.taskNow = k.taskNow ∧ k'.fsmState = k.fsmState ∧
    k'.notices = k.notices := by
  cases sliced with
  | idle => exact ⟨rfl,rfl,rfl,rfl⟩
  | charged => exact ⟨view_ts k _,rfl,rfl,rfl⟩
  | expired => exact ⟨view_ts k (fun t => t.ts.reload),rfl,rfl,rfl⟩

end

def slices (k : Kernel (m.config B)) (i : Fin n) : Bool := sliceable k.view k.sticky i

def expiredAt (elapsed : Int) (k : Kernel (m.config B)) (p : Fin P) : Option (Fin n) :=
  k.taskNow.filter fun i => k.expires elapsed i && k.slices i && decide (level P (k.view i).weight = some p)

def selects (k : Kernel (m.config B)) (p : Fin P) : Option (Fin n) :=
  (List.finRange n).find? fun j => decide (.selected ∈ k.notices j) && decide (level P (k.view j).weight = some p)

-- The levels are at the tasks that `d` says, and nothing keeps that of the running task from
-- being served.
structure Placed (k : Kernel (m.config B)) (d : Fin P → Option (Fin n × Bool)) : Prop where
  poised : Poised k.view k.sticky
  now : ∀ i p,k.fsmState.running = true → k.taskNow = some i → level P (k.view i).weight = some p →
    Clear k.view k.sticky p i ∧ ∀ j b,d p = some (j,b) → j = i
  last : ∀ p i b,d p = some (i,b) → Stands k.view k.sticky p i b

variable {d d' : Fin P → Option (Fin n × Bool)}

theorem Placed.kept (placed : Placed k d) (kept : Kept k k') (taskNow : k'.taskNow = k.taskNow)
    (fsmState : k'.fsmState = k.fsmState)
    (level_ : ∀ i p,k.fsmState.running = true → k.taskNow = some i → level P (k'.view i).weight = some p →
      level P (k.view i).weight = some p)
    (fewer : ∀ p i b,d' p = some (i,b) → d p = some (i,b) ∧ ¬Left k' i) : Placed k' d' := by
  refine ⟨kept.poised,fun i p running now at_ => ?_,fun p i b at_ => ?_⟩
  · rw [fsmState] at running
    rw [taskNow] at now
    obtain ⟨clear,only⟩ := placed.now i p running now (level_ i p running now at_)
    exact ⟨kept.clear p i clear,fun j b there => only j b (fewer p j b there).1⟩
  · obtain ⟨before,stays⟩ := fewer p i b at_
    exact (kept.stands p i b (placed.last p i b before)).resolve_right stays

theorem Placed.same (placed : Placed k d) (strategy : k'.sticky = k.sticky) (view : k'.view = k.view)
    (taskNow : k'.taskNow = k.taskNow) (fsmState : k'.fsmState = k.fsmState) : Placed k' d := by
  refine ⟨?_,?_,?_⟩
  · rw [strategy,view]
    exact placed.poised
  · rw [strategy,view,taskNow,fsmState]
    exact placed.now
  · rw [strategy,view]
    exact placed.last

theorem Placed.fewer (placed : Placed k d) (fewer : ∀ p i b,d' p = some (i,b) → d p = some (i,b)) : Placed k d' := by
  refine ⟨placed.poised,fun i p running now at_ => ?_,fun p i b at_ => placed.last p i b (fewer p i b at_)⟩
  obtain ⟨clear,only⟩ := placed.now i p running now at_
  exact ⟨clear,fun j b there => only j b (fewer p j b there)⟩

theorem Decided.left (decided : Decided (m.law B) k k' next) (left : Left k i) : Left k' i := by
  have gone : (k'.slot i).Left := by
    rw [decided.slots,Slot.Left,Slot.retire_place,Slot.retire_notices]
    exact Slot.Left.select left
  exact gone

theorem Launched.left (launched : Launched (m.law B) k'' k k' next) (left : Left k i) : Left k' i := by
  have gone : (k'.slot i).Left := by
    rw [launched.slots]
    exact Slot.Left.select left
  exact gone

theorem Forced.kept (forced : Forced (m.law B) k k' i) (poised : Poised k.view k.sticky) : Kept k k' := by
  obtain ⟨k₁,s,from_,acts⟩ := forced.acts
  rcases from_ with rfl | rfl
  · exact acts.kept poised
  · have told := acts.kept poised
    exact ⟨told.filed,told.poised,told.clear,told.stands,told.left⟩

theorem expiredAt_none (never : ∀ i,(k.expires elapsed i && k.slices i) = false) : k.expiredAt elapsed p = none := by
  refine Option.filter_eq_none_iff.mpr fun i _ => ?_
  rw [never i]
  exact Bool.false_ne_true

-- What the levels are at after UpdateTimeslice: the level of an expired task is at it and
-- rotates.
theorem Placed.sliced (placed : Placed k d) (sliced : Sliced k elapsed k') (filed : Filed (m.law B) k') :
    Placed k' fun p => ((k.expiredAt elapsed p).map fun i => (i,true)).or (d p) := by
  obtain ⟨view,taskNow,fsmState,_⟩ := sliced.fields
  have unturned : k'.sticky = k.sticky → (∀ i,(k.expires elapsed i && k.slices i) = false) →
      Placed k' fun p => ((k.expiredAt elapsed p).map fun i => (i,true)).or (d p) := by
    intro same never
    have last : (fun p => ((k.expiredAt elapsed p).map fun i => (i,true)).or (d p)) = d := by
      funext p
      rw [expiredAt_none never]
      rfl
    rw [last]
    exact placed.same same view taskNow fsmState
  have only : ∀ {x},k.charges x = true → (k.expires elapsed x && k.slices x) = false →
      ∀ i,(k.expires elapsed i && k.slices i) = false := by
    intro x charges never i
    by_cases own : i = x
    · rw [own]
      exact never
    · refine eq_false_of_ne_true fun both => ?_
      have again := expires_charges (Bool.and_eq_true_iff.mp both).1
      rw [charges_once charges own] at again
      cases again
  cases sliced with
  | idle none_ =>
    refine unturned rfl fun i => eq_false_of_ne_true fun both => ?_
    have charges := expires_charges (Bool.and_eq_true_iff.mp both).1
    rw [none_ i] at charges
    cases charges
  | charged charges lasts => exact unturned rfl (only charges (by rw [lasts]; rfl))
  | @expired _ _ x charges expires called =>
    rcases onTaskTimeSlice_turned called with ⟨same,held⟩ | ⟨rotates,p,here,linked,turned⟩
    · exact unturned same (only charges (by rw [show k.slices x = false from held,Bool.and_false]))
    · have slices : k.slices x = true := rotates
      have now := (of_decide_eq_true charges).1
      have running : k.fsmState.running = true := by
        rcases (of_decide_eq_true charges).2.1 with state | state <;> rw [state] <;> rfl
      have clear := (placed.now x p running now here).1
      have at_ : k.expiredAt elapsed p = some x := by
        rw [expiredAt,now,Option.filter_some,expires,slices,here]
        simp
      have elsewhere : ∀ q,q ≠ p → k.expiredAt elapsed q = none := fun q other => by
        rw [expiredAt,now,Option.filter_some,here]
        simp [Ne.symm other]
      have inv := filed.inv
      rw [view] at inv
      refine ⟨?_,fun i q running' now' level_ => ?_,fun q i b there => ?_⟩
      · rw [view]
        exact turned.poised placed.poised clear inv
      · rw [taskNow,now] at now'
        cases now'
        rw [view,here] at level_
        cases level_
        refine ⟨by rw [view]; exact (turned.stands clear).clear,fun j b there => ?_⟩
        rw [at_] at there
        cases there
        rfl
      · rw [view]
        by_cases own : q = p
        · subst own
          rw [at_] at there
          cases there
          exact turned.stands clear
        · rw [elsewhere q own] at there
          exact turned.others_stand (placed.last q i b there) own

theorem selects_eq (told : ∀ j,.selected ∈ k.notices j ↔ next = some j) (p : Fin P) :
    k.selects p = next.filter fun j => decide (level P (k.view j).weight = some p) := by
  have pick : ∀ j,(decide (.selected ∈ k.notices j) && decide (level P (k.view j).weight = some p)) = true ↔
      next = some j ∧ level P (k.view j).weight = some p := fun j => by
    rw [Bool.and_eq_true,decide_eq_true_eq,decide_eq_true_eq,told]
  cases found : k.selects p with
  | some j =>
    have here := List.find?_some (show List.find? _ (List.finRange n) = some j from found)
    obtain ⟨chosen,level_⟩ := (pick j).mp here
    rw [chosen,Option.filter_some,decide_eq_true level_]
    rfl
  | none =>
    refine (Option.filter_eq_none_iff.mpr fun j chosen => ?_).symm
    have never := List.find?_eq_none.mp found j (List.mem_finRange j)
    exact fun level_ => never ((pick j).mpr ⟨chosen,of_decide_eq_true level_⟩)

theorem Placed.decides {next : Option (Fin n)} (placed : Placed k d)
    (called : getNext true k.view k.sticky = some (next,k'.sticky)) (tasks : k'.tasks = k.tasks)
    (told : ∀ j,.selected ∈ k'.notices j ↔ next = some j) (now : k'.fsmState.running = true → k'.taskNow = next) :
    Placed k' fun p => ((k'.selects p).map fun j => (j,false)).or (d p) := by
  have view : k'.view = k.view := by
    unfold Kernel.view
    rw [tasks]
  cases next with
  | none =>
    obtain ⟨poised,empty⟩ := getNext_idle placed.poised called
    refine ⟨by rw [view]; exact poised,fun i p running at_ => ?_,fun p i b there => ?_⟩
    · rw [now running] at at_
      cases at_
    · rw [selects_eq told] at there
      exact absurd (placed.last p i b there) (empty p i b)
  | some j =>
    obtain ⟨poised,q,chosen⟩ := getNext_chosen placed.poised called
    have here : level P (k'.view j).weight = some q := by
      rw [view]
      exact placed.poised.inv.filed q j chosen.linked
    have at_ : ∀ p,k'.selects p = if p = q then some j else none := fun p => by
      rw [selects_eq told,Option.filter_some,here]
      by_cases own : p = q
      · simp [own]
      · simp [own,Ne.symm own]
    refine ⟨by rw [view]; exact poised,fun i p running now' level_ => ?_,fun p i b there => ?_⟩
    · rw [now running] at now'
      cases now'
      rw [here] at level_
      cases level_
      refine ⟨by rw [view]; exact chosen.stands.clear,fun h b there => ?_⟩
      rw [at_,if_pos rfl] at there
      cases there
      rfl
    · rw [view]
      by_cases own : p = q
      · subst own
        rw [at_,if_pos rfl] at there
        cases there
        exact chosen.stands
      · rw [at_,if_neg own] at there
        rcases chosen.served p i b (placed.last p i b there) with ⟨_,stands⟩ | ⟨same,_⟩
        · exact stands
        · exact absurd same own

end Kernel
end SuperTinyKernel
