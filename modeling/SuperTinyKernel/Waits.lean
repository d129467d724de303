import SuperTinyKernel.Slot

namespace SuperTinyKernel

open Function KernelTask
open List hiding all

namespace KernelTask

-- ISyncObject::Tick on one entry: the countdown, then Wake on a timeout.
def tickEntry (elapsed : Int) (t : KernelTask) : KernelTask :=
  if (t.tickWait elapsed).waitObj.state = .wait then t.tickWait elapsed else (t.tickWait elapsed).endWait .timeout

def tickSync (m : Mode) (elapsed : Int) (t : KernelTask) : KernelTask :=
  if m.isSync && t.waitObj.isWaiting then t.tickEntry elapsed else t

def dropWait (m : Mode) (t : KernelTask) : KernelTask :=
  if m.isSync && t.waitObj.isWaiting then t.abandonWait else t

theorem isWaiting_iff (t : KernelTask) : t.waitObj.isWaiting = true ↔ ∃ o,t.waitObj.syncObj = some o :=
  Option.isSome_iff_exists

end KernelTask

namespace Kernel

variable {c : Config n} {law : Lawful c.strategy} {k k' k'' : Kernel c} {i : Fin n} {o : SyncId} {elapsed : Int}

theorem removeWaitObject_parts (removed : k.removeWaitObject o i = some k') :
    i ∈ k.waitList o ∧ k' = {k with waitList := update k.waitList o ((k.waitList o).erase i)} := by
  obtain ⟨l,unlinked,same⟩ := of_bind removed
  obtain ⟨linked,rfl⟩ := unlink_parts unlinked
  cases same
  exact ⟨linked,rfl⟩

theorem removeWaitObject_defined (links : Linked k) (names : (k.tasks i).waitObj.syncObj = some o) :
    ∃ k',k.removeWaitObject o i = some k' := by
  simp [removeWaitObject,unlink_defined ((links.linked o i).mpr names)]

theorem acts_unlink (filed : Filed law k) (names : (k.tasks i).waitObj.syncObj = some o)
    (removed : k.removeWaitObject o i = some k') (f : KernelTask → KernelTask)
    (same : (f (k.tasks i)).filing = (k.tasks i).filing) (forgets : (f (k.tasks i)).waitObj.syncObj = none) :
    Acts law k i ⟨f (k.tasks i),k.place i,k.notices i⟩ (k'.modifyTask i f) := by
  obtain ⟨linked,rfl⟩ := removeWaitObject_parts removed
  refine acts_relink filed i f same ⟨fun o' j => ?_,fun o' => ?_,fun j o' named => ?_,filed.once⟩
  · by_cases at_ : j = i
    · subst at_
      have other : o' ≠ o → j ∉ k.waitList o' := fun apart present =>
        apart (Option.some.inj (((filed.linked o' j).mp present).symm.trans names))
      by_cases here : o' = o
      · subst here; simp [modifyTask,forgets,(filed.distinct o').not_mem_erase]
      · simpa [modifyTask,forgets,here] using other here
    · by_cases here : o' = o
      · subst here; simpa [modifyTask,at_,mem_erase_of_ne at_] using filed.linked o' j
      · simpa [modifyTask,at_,here] using filed.linked o' j
  · by_cases here : o' = o
    · subst here; simpa [modifyTask] using (filed.distinct o').erase i
    · simpa [modifyTask,here] using filed.distinct o'
  · by_cases at_ : j = i
    · subst at_; simp [modifyTask,forgets] at named
    · exact filed.registered j o' (by simpa [modifyTask,at_] using named)

theorem endWait_acts (filed : Filed law k) (ended : k.endWait i outcome = some k') :
    (k.tasks i).waitObj.isWaiting = true ∧
      Acts law k i ⟨(k.tasks i).endWait outcome,k.place i,k.notices i⟩ k' := by
  obtain ⟨o,names,ended⟩ := of_bind ended
  obtain ⟨k₁,removed,rfl⟩ := of_return ended
  exact ⟨(isWaiting_iff _).mpr ⟨o,names⟩,acts_unlink filed names removed _ rfl rfl⟩

theorem endWait_defined (links : Linked k) (waiting : (k.tasks i).waitObj.isWaiting = true) (outcome : WaitState) :
    ∃ k',k.endWait i outcome = some k' := by
  obtain ⟨o,names⟩ := (isWaiting_iff _).mp waiting
  obtain ⟨k₁,removed⟩ := removeWaitObject_defined links names
  exact ⟨k₁.modifyTask i (KernelTask.endWait outcome),by simp [endWait,names,removed]⟩

theorem cancelNoWake_acts (filed : Filed law k)
    (cancelled : (if c.mode.isSync then k.cancelNoWake i else some k) = some k') :
    Acts law k i ⟨(k.tasks i).dropWait c.mode,k.place i,k.notices i⟩ k' := by
  unfold dropWait
  split at cancelled
  · rename_i sync
    unfold cancelNoWake at cancelled
    split at cancelled
    · rename_i idle
      cases cancelled
      simpa [WaitObject.isWaiting,idle,slot] using Acts.refl filed i
    · rename_i o names
      obtain ⟨k₁,removed,rfl⟩ := of_return cancelled
      simpa [WaitObject.isWaiting,names,sync] using
        acts_unlink filed names removed abandonWait rfl rfl
  · rename_i unsynced
    cases cancelled
    simpa [unsynced,slot] using Acts.refl filed i

theorem mem_registered {objects : List SyncId} {x : SyncId} :
    x ∈ (if o ∈ objects then objects else objects ++ [o]) ↔ x ∈ objects ∨ x = o := by
  split <;> simp
  rintro rfl; assumption

theorem nodup_registered {objects : List SyncId} (once : objects.Nodup) :
    (if o ∈ objects then objects else objects ++ [o]).Nodup := by
  split
  · exact once
  · exact nodup_append.mpr ⟨once,by simp,by grind⟩

theorem acts_link (filed : Filed law k) (idle : (k.tasks i).waitObj.syncObj = none) (fresh : i ∉ k.waitList o)
    (f : KernelTask → KernelTask) (same : (f (k.tasks i)).filing = (k.tasks i).filing)
    (names : (f (k.tasks i)).waitObj.syncObj = some o) :
    Acts law k i ⟨f (k.tasks i),k.place i,k.notices i⟩ ({k with
      waitList := update k.waitList o (k.waitList o ++ [i])
      syncList := if o ∈ k.syncList then k.syncList else k.syncList ++ [o]}.modifyTask i f) := by
  refine acts_relink filed i f same ⟨fun o' j => ?_,fun o' => ?_,fun j o' named => ?_,nodup_registered filed.once⟩
  · have old := filed.linked o' j
    by_cases at_ : j = i
    · subst at_
      by_cases here : o' = o
      · subst here; simp [modifyTask,names]
      · simpa [modifyTask,names,here,idle,Ne.symm here] using old
    · by_cases here : o' = o
      · subst here; simpa [modifyTask,at_] using old
      · simpa [modifyTask,at_,here] using old
  · by_cases here : o' = o
    · subst here
      have joined : (k.waitList o' ++ [i]).Nodup :=
        nodup_append.mpr ⟨filed.distinct o',by simp,by grind⟩
      simpa [modifyTask] using joined
    · simpa [modifyTask,here] using filed.distinct o'
  · refine mem_registered.mpr ?_
    by_cases at_ : j = i
    · subst at_
      simp only [modifyTask_tasks,names,Option.some.injEq] at named
      exact .inr named.symm
    · exact .inl (filed.registered j o' (by simpa [modifyTask,at_] using named))

theorem modifyTask_twice (k : Kernel c) (f g : KernelTask → KernelTask) :
    (k.modifyTask i f).modifyTask i g = k.modifyTask i (g ∘ f) := by
  simp [modifyTask]

theorem wait_acts (filed : Filed law k) (waited : k.wait i o timeout = some r) :
    (c.mode.isSync = true ∧ k.isLocked = false ∧ (k.tasks i).waitObj.isWaiting = false ∧ r.2 = some .wait ∧
      Acts law k i ⟨((k.tasks i).setupWait o timeout).scheduleSleep c.mode waitInfinite,k.place i,k.notices i⟩ r.1) ∨
    r = (k,none) := by
  unfold wait at waited
  split at waited
  · rename_i usable
    obtain ⟨k₁,setup,rfl⟩ := of_return waited
    unfold setupWait at setup
    split at setup
    · cases setup
    · rename_i idle
      obtain ⟨l,linking,rfl⟩ := of_return setup
      obtain ⟨fresh,rfl⟩ := linkBack_parts linking
      refine .inl ⟨usable.1,usable.2,by simpa using idle,rfl,?_⟩
      have unnamed : (k.tasks i).waitObj.syncObj = none := by simpa [WaitObject.isWaiting] using idle
      have acts := acts_link filed unnamed fresh
        (KernelTask.scheduleSleep c.mode waitInfinite ∘ KernelTask.setupWait o timeout) rfl rfl
      rw [← modifyTask_twice] at acts
      exact acts
  · cases waited; exact .inr rfl

theorem tickWaitObject_acts (filed : Filed law k) (ticked : k.tickWaitObject elapsed i = some k') :
    Acts law k i ⟨(k.tasks i).tickEntry elapsed,k.place i,k.notices i⟩ k' := by
  have counted := acts_modify filed i (tickWait elapsed) (by simp)
  unfold tickEntry
  unfold tickWaitObject at ticked
  dsimp only at ticked
  rw [modifyTask_tasks] at ticked
  split at ticked
  · rename_i waits
    cases ticked
    rw [if_pos waits]; exact counted
  · rename_i ceased
    rw [if_neg ceased]
    simpa using counted.trans (endWait_acts counted.filed ticked).2

theorem syncObj_tickEntry (t : KernelTask) (other : t.waitObj.syncObj ≠ some o) :
    (t.tickEntry elapsed).waitObj.syncObj ≠ some o := by
  unfold tickEntry
  split
  · simpa [tickWait] using other
  · simp [KernelTask.endWait,KernelTask.wake,WaitObject.finish]

theorem removeWaitObject_strategy (removed : k.removeWaitObject o i = some k') : k'.strategy = k.strategy := by
  obtain ⟨l,_,rfl⟩ := of_return removed
  rfl

theorem endWait_strategy (ended : k.endWait i outcome = some k') : k'.strategy = k.strategy := by
  obtain ⟨o,_,ended⟩ := of_bind ended
  obtain ⟨u,removed,rfl⟩ := of_return ended
  exact (removeWaitObject_strategy removed : u.strategy = k.strategy)

structure Rests (law : Lawful c.strategy) (k k' : Kernel c) : Prop extends Steady law k k' where
  strategy : k'.strategy = k.strategy

theorem Rests.refl (filed : Filed law k) : Rests law k k := ⟨.refl filed,rfl⟩

theorem Rests.trans (left : Rests law k k') (right : Rests law k' k'') : Rests law k k'' :=
  ⟨left.toSteady.trans right.toSteady,right.strategy.trans left.strategy⟩

theorem tickWaitObject_strategy (ticked : k.tickWaitObject elapsed i = some k') : k'.strategy = k.strategy := by
  unfold tickWaitObject at ticked
  dsimp only at ticked
  split at ticked
  · cases ticked
    rfl
  · exact (endWait_strategy ticked).trans rfl

theorem tickSyncObject_slots (filed : Filed law k) (ticked : k.tickSyncObject elapsed o = some k') :
    Rests law k k' ∧ ∀ i,k'.slot i =
      if (k.tasks i).waitObj.syncObj = some o then ⟨(k.tasks i).tickEntry elapsed,k.place i,k.notices i⟩
      else k.slot i := by
  obtain ⟨k₁,looped,same⟩ := of_bind ticked
  have loop := Turns.foldlM_turn (fun (u : Kernel c) j => u.slot j) (fun u => Rests law k u)
    (k.waitList o) (filed.distinct o) (.refl filed)
    (fun u i v _ steady turned => by
      have acts := tickWaitObject_acts steady.filed turned
      exact ⟨steady.trans ⟨acts.toSteady,tickWaitObject_strategy turned⟩,fun j apart => acts.other apart⟩) looped
  have slots : ∀ i,k₁.slot i =
      if (k.tasks i).waitObj.syncObj = some o then ⟨(k.tasks i).tickEntry elapsed,k.place i,k.notices i⟩
      else k.slot i := by
    intro i
    split
    · rename_i names
      obtain ⟨before,after,u,v,split,steady,turned,_,todo,own⟩ := loop.2.2 i ((filed.linked o i).mpr names)
      have fresh : i ∉ before := by
        have distinct := filed.distinct o
        rw [split] at distinct
        exact fun early => (nodup_append.mp distinct).2.2 i early i (by simp) rfl
      have mine : u.slot i = k.slot i := todo i fresh
      rw [own,(tickWaitObject_acts steady.filed turned).self]
      simp only [slot,Slot.mk.injEq] at mine
      simp only [mine]
    · rename_i other
      exact loop.2.1 i (mt (filed.linked o i).mp other)
  split at same
  · rename_i empty
    cases same
    have unnamed : ∀ i,(k₁.tasks i).waitObj.syncObj ≠ some o := fun i names => by
      have linked := (loop.1.filed.linked o i).mpr names
      simp [isEmpty_iff.mp empty] at linked
    refine ⟨⟨⟨⟨⟨loop.1.filed.linked,loop.1.filed.distinct,fun i o' names => ?_,loop.1.filed.once.erase o⟩,
      loop.1.filed.inv,loop.1.filed.free⟩,loop.1.taskNow,loop.1.fsmState,loop.1.kstate,loop.1.ticks⟩,loop.1.strategy⟩,slots⟩
    have apart : o' ≠ o := by rintro rfl; exact unnamed i names
    exact (mem_erase_of_ne apart).mpr (loop.1.filed.registered i o' names)
  · cases same
    exact ⟨loop.1,slots⟩

theorem tickSyncObjects_slots (objects : List SyncId) (distinct : objects.Nodup) (filed : Filed law k)
    (ticked : objects.foldlM (tickSyncObject elapsed) k = some k') :
    Rests law k k' ∧ ∀ i,k'.slot i =
      if ∃ o ∈ objects,(k.tasks i).waitObj.syncObj = some o then ⟨(k.tasks i).tickEntry elapsed,k.place i,k.notices i⟩
      else k.slot i := by
  induction objects generalizing k with
  | nil => cases ticked; exact ⟨.refl filed,by simp⟩
  | cons o rest ih =>
    obtain ⟨fresh,distinct⟩ := nodup_cons.mp distinct
    obtain ⟨k₁,first,ticked⟩ := of_bind (by simpa using ticked)
    obtain ⟨steady,slots⟩ := tickSyncObject_slots filed first
    obtain ⟨later,others⟩ := ih distinct steady.filed ticked
    refine ⟨steady.trans later,fun i => ?_⟩
    rw [others i]
    have here := slots i
    have task := congrArg Slot.task here
    by_cases names : (k.tasks i).waitObj.syncObj = some o
    · -- Ticking never moves an entry to another object, and `o` is not met again.
      rw [if_pos names] at here task
      have past : ¬∃ o' ∈ rest,(k₁.tasks i).waitObj.syncObj = some o' := by
        rintro ⟨o',member,named⟩
        have apart : o' ≠ o := fun same => fresh (same ▸ member)
        rw [slot_task] at task
        rw [task] at named
        exact syncObj_tickEntry _ (by simpa [names] using apart.symm) named
      rw [if_neg past,here,if_pos ⟨o,by simp,names⟩]
    · rw [if_neg names] at here task
      rw [slot_task,slot_task] at task
      have place := congrArg Slot.place here
      have notices := congrArg Slot.notices here
      rw [slot_place,slot_place] at place
      rw [slot_notices,slot_notices] at notices
      simp only [mem_cons,exists_eq_or_imp,names,false_or,task,place,notices,here]

theorem updateSyncObjects_slots (filed : Filed law k)
    (ticked : (if c.mode.isSync then k.updateSyncObjects elapsed else some k) = some k') :
    Rests law k k' ∧ ∀ i,k'.slot i = ⟨(k.tasks i).tickSync c.mode elapsed,k.place i,k.notices i⟩ := by
  unfold tickSync
  split at ticked
  · rename_i sync
    obtain ⟨steady,slots⟩ := tickSyncObjects_slots k.syncList filed.once filed ticked
    refine ⟨steady,fun i => ?_⟩
    have registered : (∃ o ∈ k.syncList,(k.tasks i).waitObj.syncObj = some o) ↔ (k.tasks i).waitObj.isWaiting = true := by
      rw [isWaiting_iff]
      exact ⟨fun ⟨o,_,names⟩ => ⟨o,names⟩,fun ⟨o,names⟩ => ⟨o,filed.registered i o names,names⟩⟩
    rw [slots i]
    simp only [registered,sync,Bool.true_and]
    split <;> rfl
  · rename_i unsynced
    cases ticked
    exact ⟨.refl filed,fun i => by simp [unsynced,slot]⟩

def signalled (k : Kernel c) (o : SyncId) (all : Bool) : List (Fin n) :=
  if c.mode.isSync then if all then k.waitList o else (k.waitList o).take 1 else []

def signalledSlot (k : Kernel c) (i : Fin n) : Slot := ⟨(k.tasks i).endWait .signaled,k.place i,k.notices i⟩

theorem wakeOne_slots (filed : Filed law k) (woke : k.wakeOne o = some k') :
    Rests law k k' ∧ k'.waitList o = (k.waitList o).tail ∧
      ∀ i,k'.slot i = if i ∈ (k.waitList o).take 1 then k.signalledSlot i else k.slot i := by
  unfold wakeOne at woke
  split at woke
  · rename_i empty
    cases woke
    exact ⟨.refl filed,by simp [empty],by simp [empty]⟩
  · rename_i i rest here
    have rests : Rests law k k' := ⟨(endWait_acts filed woke).2.toSteady,endWait_strategy woke⟩
    have acts := (endWait_acts filed woke).2
    obtain ⟨o',names,woke⟩ := of_bind woke
    have at_ : o' = o := Option.some.inj (names.symm.trans ((filed.linked o i).mp (by simp [here])))
    subst at_
    obtain ⟨k₁,removed,rfl⟩ := of_return woke
    refine ⟨rests,?_,fun j => ?_⟩
    · rw [(removeWaitObject_parts removed).2]
      simp [modifyTask,here]
    · rw [acts.slots,update_apply]
      simp only [here,take_succ_cons,take_zero,mem_singleton]
      split
      · subst j; rfl
      · rfl

theorem wakeAll_slots (entries : List (Fin n)) (filed : Filed law k) (start : k.waitList o = entries)
    (woke : entries.foldlM (fun k _ => k.wakeOne o) k = some k') :
    Rests law k k' ∧ ∀ i,k'.slot i = if i ∈ entries then k.signalledSlot i else k.slot i := by
  induction entries generalizing k with
  | nil => cases woke; exact ⟨.refl filed,by simp⟩
  | cons i rest ih =>
    obtain ⟨k₁,first,woke⟩ := of_bind (by simpa using woke)
    obtain ⟨steady,tail,slots⟩ := wakeOne_slots filed first
    obtain ⟨later,others⟩ := ih steady.filed (by rw [tail,start]; rfl) woke
    have distinct := filed.distinct o
    rw [start] at distinct
    refine ⟨steady.trans later,fun j => ?_⟩
    have here := slots j
    simp only [start,take_succ_cons,take_zero,mem_singleton] at here
    rw [others j]
    by_cases at_ : j = i
    · subst at_
      rw [if_pos rfl] at here
      rw [if_neg (nodup_cons.mp distinct).1,here,if_pos (by simp)]
    · rw [if_neg at_] at here
      have same : k₁.signalledSlot j = k.signalledSlot j := by
        simp only [slot,Slot.mk.injEq] at here
        simp only [signalledSlot,here]
      simp only [mem_cons,at_,false_or,same,here]

theorem wake_slots (filed : Filed law k) (woke : k.wake o all = some k') :
    Rests law k k' ∧ ∀ i,k'.slot i = if i ∈ k.signalled o all then k.signalledSlot i else k.slot i := by
  unfold wake at woke
  unfold signalled
  split at woke
  · rename_i sync
    rw [if_pos sync]
    split at woke
    · rename_i each
      rw [if_pos each]
      exact wakeAll_slots _ filed rfl woke
    · rename_i one
      rw [if_neg one]
      exact ⟨(wakeOne_slots filed woke).1,(wakeOne_slots filed woke).2.2⟩
  · rename_i unsynced
    cases woke
    exact ⟨.refl filed,by simp [unsynced]⟩

theorem signalled_waiting (filed : Filed law k) (member : i ∈ k.signalled o all) :
    c.mode.isSync = true ∧ (k.tasks i).waitObj.syncObj = some o := by
  unfold signalled at member
  split at member
  · rename_i sync
    refine ⟨sync,(filed.linked o i).mp ?_⟩
    split at member
    · exact member
    · exact mem_of_mem_take member
  · cases member

end Kernel
end SuperTinyKernel
