import SuperTinyKernel.Service
import SuperTinyKernel.Library.Run

namespace SuperTinyKernel

open Function KernelTask List

-- A slot on its own: its task, where the strategy files it, and what was reported about it in
-- this step. The meaning of an operation is a function on slots and a proof that the rest
-- stays.
structure Slot where
  task : KernelTask
  place : Place
  notices : List Notice

def Slot.Left (s : Slot) : Prop := s.place ≠ .ready ∨ .woke ∈ s.notices

namespace KernelTask

def filing (t : KernelTask) : Option UserTask × Int × Int := (t.user,t.rtWeight,t.baseWeight)
def identity (t : KernelTask) : (Option UserTask × Int × Int) × Option SyncId := (t.filing,t.waitObj.syncObj)

theorem getWeight_filing {t t' : KernelTask} (same : t'.filing = t.filing) (api : Api) :
    t'.getWeight api = t.getWeight api := by
  simp only [filing,Prod.mk.injEq] at same
  simp [getWeight,getBaseWeight,same]

theorem user_filing {t t' : KernelTask} (same : t'.filing = t.filing) : t'.user = t.user := congrArg Prod.fst same
theorem filing_identity {t t' : KernelTask} (same : t'.identity = t.identity) : t'.filing = t.filing :=
  congrArg Prod.fst same
theorem syncObj_identity {t t' : KernelTask} (same : t'.identity = t.identity) :
    t'.waitObj.syncObj = t.waitObj.syncObj := congrArg Prod.snd same

@[simp] theorem syncObj_tick (w : WaitObject) : (w.tick elapsed).syncObj = w.syncObj := by
  unfold WaitObject.tick; split <;> [split; skip] <;> rfl
@[simp] theorem identity_tickWait (t : KernelTask) : (t.tickWait elapsed).identity = t.identity := by
  simp [identity,filing,tickWait]
@[simp] theorem identity_markRemoval (t : KernelTask) : (t.markRemoval m).identity = t.identity := by
  unfold markRemoval; dsimp only; split <;> rfl
@[simp] theorem identity_resume (t : KernelTask) : t.resume.identity = t.identity := by
  unfold resume; split <;> rfl
@[simp] theorem identity_scheduleYield (t : KernelTask) : (t.scheduleYield m api).identity = t.identity := by
  unfold scheduleYield; split <;> rfl
@[simp] theorem identity_hrtOnSwitchedOut (t : KernelTask) : (t.hrtOnSwitchedOut m).identity = t.identity := by
  unfold hrtOnSwitchedOut; dsimp only; split <;> rfl
@[simp] theorem identity_consumeYield (c : Config n) (t : KernelTask) :
    (Kernel.consumeYield c t).identity = t.identity := by
  unfold Kernel.consumeYield; split <;> rfl

end KernelTask

namespace Kernel

variable {c : Config n}

def place (k : Kernel c) (i : Fin n) : Place := c.strategy.place k.strategy i
def slot (k : Kernel c) (i : Fin n) : Slot := ⟨k.tasks i,k.place i,k.notices i⟩

@[simp] theorem slot_task (k : Kernel c) : (k.slot i).task = k.tasks i := rfl
@[simp] theorem slot_place (k : Kernel c) : (k.slot i).place = k.place i := rfl
@[simp] theorem slot_notices (k : Kernel c) : (k.slot i).notices = k.notices i := rfl

-- The wait lists link exactly the slots whose WaitObject names their sync object, each once,
-- and such an object is registered for ticks.
structure Linked (k : Kernel c) : Prop where
  linked : ∀ o i,i ∈ k.waitList o ↔ (k.tasks i).waitObj.syncObj = some o
  distinct : ∀ o,(k.waitList o).Nodup
  registered : ∀ i o,(k.tasks i).waitObj.syncObj = some o → o ∈ k.syncList
  once : k.syncList.Nodup

structure Filed (law : Lawful c.strategy) (k : Kernel c) : Prop extends Linked k where
  inv : law.Inv k.view.weights k.strategy
  free : ∀ i,k.place i = .free ↔ (k.tasks i).user = none

-- Only slots, and with them the lists, differ between `k` and `k'`.
structure Steady (law : Lawful c.strategy) (k k' : Kernel c) : Prop where
  filed : Filed law k'
  taskNow : k'.taskNow = k.taskNow
  fsmState : k'.fsmState = k.fsmState
  kstate : k'.kstate = k.kstate
  ticks : k'.ticks = k.ticks

-- `k'` is `k` with slot `i` replaced by `s`.
structure Alters (law : Lawful c.strategy) (k : Kernel c) (i : Fin n) (s : Slot) (k' : Kernel c) : Prop
    extends Steady law k k' where
  slots : k'.slot = update k.slot i s

-- The calls by which the strategy learns that task `i` stops or starts being runnable.
inductive Told (law : Lawful c.strategy) (i : Fin n) : c.strategy.State → c.strategy.State → Prop where
  | sleep : law.Inv w σ → c.strategy.onTaskSleep v i σ = some σ' → Told law i σ σ'
  | wake : law.Inv w σ → c.strategy.onTaskWake v i σ = some σ' → Told law i σ σ'
  | remove : law.Inv w σ → c.strategy.removeTask v i σ = some σ' → Told law i σ σ'
  | trans : Told law i σ σ' → Told law i σ' σ'' → Told law i σ σ''

-- The strategy hears of nothing else. After the calls the task has left the runnable list it
-- was in, even if it is in one again.
structure Acts (law : Lawful c.strategy) (k : Kernel c) (i : Fin n) (s : Slot) (k' : Kernel c) : Prop
    extends Alters law k i s k' where
  told : k'.strategy = k.strategy ∧ s.task.filing = (k.tasks i).filing ∨ Told law i k.strategy k'.strategy ∧ s.Left
  woken : .woke ∈ k.notices i → .woke ∈ s.notices

variable {law : Lawful c.strategy} {k k' k'' : Kernel c} {i : Fin n} {s s' : Slot}

theorem Steady.refl (filed : Filed law k) : Steady law k k := ⟨filed,rfl,rfl,rfl,rfl⟩

theorem Steady.trans (left : Steady law k k') (right : Steady law k' k'') : Steady law k k'' :=
  ⟨right.filed,right.taskNow.trans left.taskNow,right.fsmState.trans left.fsmState,right.kstate.trans left.kstate,
    right.ticks.trans left.ticks⟩

section

variable (alters : Alters law k i s k')
include alters

theorem Alters.self : k'.slot i = s := by simp [alters.slots]
theorem Alters.other (apart : j ≠ i) : k'.slot j = k.slot j := by simp [alters.slots,apart]
theorem Alters.task : k'.tasks i = s.task := congrArg Slot.task alters.self

theorem Alters.place : k'.place i = s.place := congrArg Slot.place alters.self
theorem Alters.notices : k'.notices i = s.notices := congrArg Slot.notices alters.self

end

theorem Alters.trans (left : Alters law k i s k') (right : Alters law k' i s' k'') : Alters law k i s' k'' :=
  ⟨left.toSteady.trans right.toSteady,by rw [right.slots,left.slots,update_idem]⟩

theorem Acts.left (acts : Acts law k i s k') (left : (k.slot i).Left) : s.Left := by
  rcases acts.told with ⟨same,_⟩ | ⟨_,gone⟩
  · refine left.imp (fun elsewhere => ?_) acts.woken
    have place : k'.place i = k.place i := congrArg (fun σ => c.strategy.place σ i) same
    rw [← acts.place,place]
    exact elsewhere
  · exact gone

theorem Acts.trans (first : Acts law k i s k') (second : Acts law k' i s' k'') : Acts law k i s' k'' := by
  refine ⟨first.toAlters.trans second.toAlters,?_,fun woke => second.woken (first.notices ▸ first.woken woke)⟩
  have told := second.told
  rw [first.task] at told
  rcases first.told with ⟨same,filing⟩ | ⟨heard,left⟩
  · rw [same,filing] at told
    exact told
  · refine .inr ⟨?_,second.left (first.self ▸ left)⟩
    rcases told with ⟨same,_⟩ | ⟨heard',_⟩
    · rw [same]
      exact heard
    · exact heard.trans heard'

theorem Acts.refl (filed : Filed law k) (i : Fin n) : Acts law k i (k.slot i) k := ⟨⟨.refl filed,by simp⟩,.inl ⟨rfl,rfl⟩,id⟩

theorem weights_update (same : (f (k.tasks i)).filing = (k.tasks i).filing) :
    (k.modifyTask i f).view.weights = k.view.weights := by
  funext j
  by_cases at_ : j = i
  · subst at_
    simpa [Views.weights,view,modifyTask] using getWeight_filing same _
  · simp [Views.weights,view,modifyTask,at_]

theorem Linked.congr (links : Linked k) (lists : k'.waitList = k.waitList) (objects : k'.syncList = k.syncList)
    (same : ∀ j,(k'.tasks j).waitObj.syncObj = (k.tasks j).waitObj.syncObj) : Linked k' :=
  ⟨fun o j => by rw [lists,same]; exact links.linked o j,fun o => lists ▸ links.distinct o,
    fun j o names => by rw [objects]; exact links.registered j o (same j ▸ names),objects ▸ links.once⟩

theorem Filed.still (filed : Filed law k) (tasks : k'.tasks = k.tasks) (strategy : k'.strategy = k.strategy)
    (lists : k'.waitList = k.waitList) (objects : k'.syncList = k.syncList) : Filed law k' :=
  ⟨filed.toLinked.congr lists objects fun _ => by rw [tasks],by unfold view; rw [tasks,strategy]; exact filed.inv,
    fun i => by rw [place,tasks,strategy]; exact filed.free i⟩

theorem syncObj_update (same : (f (k.tasks i)).waitObj.syncObj = (k.tasks i).waitObj.syncObj) (j : Fin n) :
    ((k.modifyTask i f).tasks j).waitObj.syncObj = (k.tasks j).waitObj.syncObj := by
  by_cases at_ : j = i
  · subst at_; simpa [modifyTask] using same
  · simp [modifyTask,at_]

theorem acts_relink (filed : Filed law k) (i : Fin n) (f : KernelTask → KernelTask)
    (same : (f (k.tasks i)).filing = (k.tasks i).filing) {lists : SyncId → List (Fin n)} {objects : List SyncId}
    (links : Linked ({k with waitList := lists,syncList := objects}.modifyTask i f)) :
    Acts law k i ⟨f (k.tasks i),k.place i,k.notices i⟩
      ({k with waitList := lists,syncList := objects}.modifyTask i f) := by
  have weights : ({k with waitList := lists,syncList := objects}.modifyTask i f).view.weights = k.view.weights :=
    weights_update (k := {k with waitList := lists,syncList := objects}) same
  refine ⟨⟨⟨⟨links,by rw [weights]; exact filed.inv,fun j => ?_⟩,rfl,rfl,rfl,rfl⟩,?_⟩,.inl ⟨rfl,same⟩,id⟩
  · by_cases at_ : j = i
    · subst at_
      simpa [modifyTask,place,user_filing same] using filed.free j
    · simpa [modifyTask,place,at_] using filed.free j
  · funext j
    by_cases at_ : j = i
    · subst at_; simp [slot,modifyTask,place]
    · simp [slot,modifyTask,place,at_]

theorem acts_modify (filed : Filed law k) (i : Fin n) (f : KernelTask → KernelTask)
    (same : (f (k.tasks i)).identity = (k.tasks i).identity) :
    Acts law k i ⟨f (k.tasks i),k.place i,k.notices i⟩ (k.modifyTask i f) :=
  acts_relink filed i f (filing_identity same)
    (filed.toLinked.congr rfl rfl (syncObj_update (syncObj_identity same)))

theorem acts_notify (filed : Filed law k) (i : Fin n) (x : Notice) :
    Acts law k i ⟨k.tasks i,k.place i,x :: k.notices i⟩ (k.notify i x) := by
  refine ⟨⟨⟨filed.still rfl rfl rfl rfl,rfl,rfl,rfl,rfl⟩,?_⟩,.inl ⟨rfl,rfl⟩,
    mem_cons_of_mem x⟩
  funext j
  by_cases at_ : j = i
  · subst at_; simp [slot,notify,place]
  · simp [slot,notify,place,at_]

theorem alters_refile {p : Place} (filed : Filed law k) (inv : law.Inv k.view.weights σ) (busy : p = .free ↔ (k.tasks i).user = none)
    (moved : c.strategy.place σ = update k.place i p) :
    Alters law k i ⟨k.tasks i,p,k.notices i⟩ (k.setStrategy σ) := by
  refine ⟨⟨⟨filed.toLinked.congr rfl rfl fun _ => rfl,inv,fun j => ?_⟩,rfl,rfl,rfl,rfl⟩,?_⟩
  · by_cases at_ : j = i
    · subst at_; simpa [place,setStrategy,moved] using busy
    · simpa [place,setStrategy,moved,at_] using filed.free j
  · funext j
    by_cases at_ : j = i
    · subst at_; simp [slot,place,setStrategy,moved]
    · simp [slot,place,setStrategy,moved,at_]

@[simp] theorem modifyTask_tasks (k : Kernel c) : (k.modifyTask i f).tasks i = f (k.tasks i) := by simp [modifyTask]
@[simp] theorem modifyTask_place (k : Kernel c) : (k.modifyTask i f).place = k.place := rfl
@[simp] theorem modifyTask_notices (k : Kernel c) : (k.modifyTask i f).notices = k.notices := rfl
@[simp] theorem setStrategy_tasks (k : Kernel c) : (k.setStrategy σ).tasks = k.tasks := rfl
@[simp] theorem setStrategy_notices (k : Kernel c) : (k.setStrategy σ).notices = k.notices := rfl
@[simp] theorem modifyTask_taskNow (k : Kernel c) : (k.modifyTask i f).taskNow = k.taskNow := rfl

end Kernel

-- Strategies without SLEEP_EVENT_API keep their sleeping tasks among the others.
def Config.sleepPlace (c : Config n) (p : Place) : Place := if c.strategy.api.sleepEvent then .asleep else p
def Config.wakePlace (c : Config n) (p : Place) : Place := if c.strategy.api.sleepEvent then .ready else p
def Config.wakeNotices (c : Config n) (l : List Notice) : List Notice :=
  if c.strategy.api.sleepEvent then .woke :: l else l

namespace Slot

variable (c : Config n)

def settle (s : Slot) : Slot :=
  {s with task := s.task.clearPending,place := c.sleepPlace s.place}

def unbind (s : Slot) : Slot :=
  ⟨s.task.unbind c.mode,.free,(s.task.user.map Notice.exited).toList ++ s.notices⟩

end Slot

namespace Kernel

variable {c : Config n} {law : Lawful c.strategy} {k k' k'' : Kernel c} {i : Fin n}

section

variable (filed : Filed law k)
include filed

theorem deliverSleep_acts (delivered : k.deliverSleep i = some k') :
    Acts law k i ⟨k.tasks i,c.sleepPlace (k.place i),k.notices i⟩ k' ∧
      (c.strategy.api.sleepEvent = true → k.place i = .ready) := by
  unfold deliverSleep at delivered
  split at delivered
  · rename_i aware
    obtain ⟨σ,called,rfl⟩ := of_return delivered
    obtain ⟨ready,inv,moved⟩ := law.sleep aware filed.inv called
    have busy := filed.free i
    rw [place,ready] at busy
    refine ⟨?_,fun _ => ready⟩
    have slept : Acts law k i ⟨k.tasks i,.asleep,k.notices i⟩ (k.setStrategy σ) :=
      ⟨alters_refile filed inv (by simpa using busy) moved,.inr ⟨.sleep filed.inv called,.inl nofun⟩,id⟩
    simpa [Config.sleepPlace,aware] using slept
  · rename_i unaware
    cases delivered
    exact ⟨by simpa [Config.sleepPlace,unaware,slot] using Acts.refl filed i,fun aware => absurd aware unaware⟩

theorem deliverWake_acts (delivered : k.deliverWake i = some k') :
    Acts law k i ⟨k.tasks i,c.wakePlace (k.place i),c.wakeNotices (k.notices i)⟩ k' ∧
      (c.strategy.api.sleepEvent = true → k.place i = .asleep) := by
  unfold deliverWake at delivered
  split at delivered
  · rename_i aware
    obtain ⟨σ,called,rfl⟩ := of_return delivered
    obtain ⟨asleep,inv,moved⟩ := law.wake aware filed.inv called
    have busy := filed.free i
    rw [place,asleep] at busy
    have filing := alters_refile filed inv (p := .ready) (by simpa using busy) moved
    have woke := filing.trans (acts_notify filing.filed i .woke).toAlters
    have woke : Acts law k i _ _ := ⟨woke,.inr ⟨.wake filed.inv called,.inr mem_cons_self⟩,fun _ => mem_cons_self⟩
    refine ⟨?_,fun _ => asleep⟩
    simpa [Config.wakePlace,Config.wakeNotices,aware,place,setStrategy,moved] using woke
  · rename_i unaware
    cases delivered
    exact ⟨by simpa [Config.wakePlace,Config.wakeNotices,unaware,slot] using Acts.refl filed i,fun aware => absurd aware unaware⟩

theorem processTaskPendingSleep_acts (processed : k.processTaskPendingSleep i = some k') :
    Acts law k i ((k.slot i).settle c) k' := by
  have cleared := acts_modify filed i clearPending rfl
  obtain ⟨delivered,_⟩ := deliverSleep_acts cleared.filed processed
  simpa [Slot.settle] using cleared.trans delivered

theorem removeTask_acts (removed : k.removeTask i = some k') :
    Acts law k i ((k.slot i).unbind c) k' := by
  obtain ⟨user,bound,removed⟩ := of_bind removed
  obtain ⟨σ,called,rfl⟩ := of_return removed
  obtain ⟨_,inv,moved⟩ := law.remove filed.inv called
  -- Between the strategy call and Unbind the slot is filed nowhere but still busy.
  refine ⟨⟨⟨⟨filed.toLinked.congr rfl rfl (syncObj_update rfl),?_,fun j => ?_⟩,rfl,rfl,rfl,rfl⟩,?_⟩,
    .inr ⟨.remove filed.inv called,.inl nofun⟩,mem_append_right _⟩
  · refine law.congr inv fun j filed => ?_
    have apart : j ≠ i := by rintro rfl; simp [modifyTask,setStrategy,notify,moved] at filed
    simp [Views.weights,view,modifyTask,setStrategy,notify,apart]
  · by_cases at_ : j = i
    · subst at_; simp [place,moved,modifyTask,setStrategy,notify,unbind]
    · simpa [place,moved,modifyTask,setStrategy,notify,at_] using filed.free j
  · funext j
    by_cases at_ : j = i
    · subst at_; simp [slot,place,moved,modifyTask,setStrategy,notify,Slot.unbind,bound]
    · simp [slot,place,moved,modifyTask,setStrategy,notify,at_]

theorem addKernelTask_alters (unbound : (k.tasks i).user = none)
    (bound : (f (k.tasks i)).user ≠ none) (unlinked : (f (k.tasks i)).waitObj = (k.tasks i).waitObj) (added : (k.modifyTask i f).addKernelTask i = some k') :
    Alters law k i ⟨f (k.tasks i),.ready,k.notices i⟩ k' := by
  obtain ⟨σ,called,rfl⟩ := of_return added
  have free := (filed.free i).mpr unbound
  have inv : law.Inv (k.modifyTask i f).view.weights k.strategy := by
    refine law.congr filed.inv fun j filed => ?_
    have apart : j ≠ i := by rintro rfl; exact filed free
    simp [Views.weights,view,modifyTask,apart]
  obtain ⟨inv,moved⟩ := law.add inv free called
  refine ⟨⟨⟨filed.toLinked.congr rfl rfl (syncObj_update (congrArg _ unlinked)),inv,fun j => ?_⟩,rfl,rfl,rfl,rfl⟩,?_⟩
  · by_cases at_ : j = i
    · subst at_; simpa [place,setStrategy,moved] using bound
    · simpa [place,moved,setStrategy,modifyTask,at_] using filed.free j
  · funext j
    by_cases at_ : j = i
    · subst at_; simp [slot,place,moved,setStrategy,modifyTask]
    · simp [slot,place,moved,setStrategy,modifyTask,at_]

theorem alters_strategy (i : Fin n) (inv : law.Inv k.view.weights σ)
    (kept : c.strategy.place σ = c.strategy.place k.strategy) : Alters law k i (k.slot i) (k.setStrategy σ) := by
  have moved : c.strategy.place σ = update k.place i (k.place i) := by
    rw [update_eq_self]; exact kept
  exact alters_refile filed inv (filed.free i) moved

end

end Kernel
end SuperTinyKernel
