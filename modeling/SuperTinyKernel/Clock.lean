import SuperTinyKernel.Turn
import SuperTinyKernel.Waits
import SuperTinyKernel.Decision

namespace SuperTinyKernel

-- OnStart, OnTick and OnForceContextSwitch as changes of slots around a decision.

namespace Slot

variable (c : Config n)

def launch (s : Slot) : Slot :=
  if s.task.sleepPending then {s with task := {s.task with sleepPending := false},place := c.sleepPlace s.place} else s

def tickSync (elapsed : Int) (s : Slot) : Slot := {s with task := s.task.tickSync c.mode elapsed}
def withTs (ts : TsInfo) (s : Slot) : Slot := {s with task := {s.task with ts := ts}}
def yielded (s : Slot) : Slot := {s with task := {s.task with yieldPending := false}}

end Slot

namespace Kernel

variable {c : Config n} {law : Lawful c.strategy} {k k' : Kernel c} {i : Fin n} {elapsed : Int}

theorem startSlot_acts (filed : Filed law k) (launched : k.startSlot i = some k') :
    Acts law k i ((k.slot i).launch c) k' := by
  unfold startSlot at launched
  unfold Slot.launch
  split at launched
  · rename_i pending
    rw [if_pos (by exact pending)]
    have cleared := acts_modify filed i (fun t => {t with sleepPending := false}) rfl
    simpa using cleared.trans (deliverSleep_acts cleared.filed launched).1
  · rename_i settled
    cases launched
    rw [if_neg (by exact settled)]
    exact .refl filed i

theorem startSlots_slots (filed : Filed law k) (launched : (List.finRange n).foldlM startSlot k = some k') :
    Steady law k k' ∧ ∀ i,k'.slot i = (k.slot i).launch c := by
  have loop := Turns.foldlM_turn (fun (u : Kernel c) j => u.slot j) (fun u => Steady law k u)
    (List.finRange n) (List.nodup_finRange n) (.refl filed)
    (fun u i v _ steady turned => by
      have acts := startSlot_acts steady.filed turned
      exact ⟨steady.trans acts.toSteady,fun j apart => acts.other apart⟩) launched
  refine ⟨loop.1,fun i => ?_⟩
  obtain ⟨before,after,u,v,split,steady,turned,_,todo,own⟩ := loop.2.2 i (List.mem_finRange i)
  have mine : u.slot i = k.slot i := todo i (by simp [before_iff split])
  rw [own,(startSlot_acts steady.filed turned).self,mine]

structure Launched (law : Lawful c.strategy) (k u k' : Kernel c) (next : Option (Fin n)) : Prop where
  filed : Filed law k'
  kstate : k'.kstate = .running
  ticks : k'.ticks = k.ticks
  ready : Filed law u
  launched : ∀ i,u.slot i = (k.slot i).launch c
  looped : ∃ k₁,(List.finRange n).foldlM startSlot k = some k₁ ∧ u = {k₁ with fsmState := .switching}
  passes : c.strategy.getNext u.view u.strategy = some (next,k'.strategy)
  slots : ∀ i,k'.slot i = (u.slot i).select (decide (next = some i))

theorem Launched.called (launched : Launched law k u k' next) : u.nextTask = some next := nextTask_eq launched.passes

theorem onStart_launched (filed : Filed law k) (started : k.onStart = some (k',active)) :
    ∃ u next,Launched law k u k' next ∧
      ((∃ j,next = some j ∧ k'.taskNow = some j ∧ k'.fsmState = .switching ∧ active = .task j) ∨
        ∃ first,next = none ∧ k'.taskNow = some first ∧ u.place first ≠ .free ∧ k'.fsmState = .sleeping ∧
          active = .sleepTrap) := by
  obtain ⟨k₁,looped,started⟩ := of_bind started
  obtain ⟨steady,slots⟩ := startSlots_slots filed looped
  have switching : Filed law {k₁ with fsmState := .switching} :=
    steady.filed.still rfl rfl rfl rfl
  obtain ⟨⟨k₂,next,event⟩,fetched,started⟩ := of_bind started
  obtain ⟨σ,called,rfl,offer,chosen,rfl⟩ := fetchNextEvent_parts switching fetched
  let u : Kernel c := {k₁ with fsmState := .switching}
  have relaunch : ∀ (now : Option (Fin n)) f,Launched law k u
      {u.offered next σ with fsmState := f,taskNow := now,kstate := .running} next := fun now f =>
    ⟨offer.still rfl rfl rfl rfl,rfl,by simp [u,steady.ticks],switching,slots,
      ⟨k₁,looped,rfl⟩,by simpa using called,chosen⟩
  refine ⟨u,next,?_⟩
  simp only [offered_fsmState] at started
  obtain ⟨f,row,started⟩ := of_bind started
  have where_ := fsm_row row
  have event := nextEvent_inv u next
  cases f with
  | switching =>
    obtain ⟨j,rfl,started⟩ := of_bind started
    cases started
    exact ⟨relaunch (some j) .switching,.inl ⟨j,rfl,rfl,rfl,rfl⟩⟩
  | sleeping =>
    obtain ⟨first,got,started⟩ := of_bind started
    cases started
    rw [show u.nextEvent next = .sleep from where_.2] at event
    have kept : (u.offered next σ).place = u.place := by
      funext i; simpa using congrArg Slot.place (chosen i)
    have placed : u.place first ≠ .free := by rw [← kept]; exact law.first offer.inv got
    exact ⟨relaunch (some first) .sleeping,.inr ⟨first,event.1,rfl,placed,rfl,rfl⟩⟩
  | waking | exiting | none => cases started

theorem updateTimeslice_slots (filed : Filed law k)
    (charged : (if c.mode.isTimeslice then k.updateTimeslice elapsed else some k) = some k') :
    Steady law k k' ∧ ∀ i,∃ ts,k'.slot i = (k.slot i).withTs ts := by
  have untouched : Steady law k k ∧ ∀ i,∃ ts,k.slot i = (k.slot i).withTs ts :=
    ⟨.refl filed,fun i => ⟨(k.tasks i).ts,rfl⟩⟩
  have spent : ∀ {k' : Kernel c} j ts,Alters law k j ((k.slot j).withTs ts) k' →
      Steady law k k' ∧ ∀ i,∃ ts,k'.slot i = (k.slot i).withTs ts := by
    intro k' j ts acts
    refine ⟨acts.toSteady,fun i => ?_⟩
    by_cases at_ : i = j
    · subst at_; exact ⟨ts,acts.self⟩
    · exact ⟨(k.tasks i).ts,acts.other at_⟩
  split at charged
  · unfold updateTimeslice at charged
    split at charged
    · cases charged; exact untouched
    · rename_i j now
      split at charged
      · have charge := acts_modify filed j (chargeTimeslice elapsed) rfl
        dsimp only at charged
        split at charged
        · have reload := acts_modify charge.filed j (fun t => {t with ts := t.ts.reload}) rfl
          obtain ⟨⟨rotated,σ⟩,called,rfl⟩ := of_return charged
          obtain ⟨inv,kept⟩ := law.timeSlice reload.filed.inv called
          have rotate := alters_strategy reload.filed j inv kept
          have all := (charge.trans reload).toAlters.trans rotate
          rw [reload.self] at all
          refine spent j (chargeTimeslice elapsed (k.tasks j)).ts.reload ?_
          simpa [chargeTimeslice,slot,Slot.withTs] using all
        · cases charged
          exact spent j (chargeTimeslice elapsed (k.tasks j)).ts (by
            simpa [chargeTimeslice,slot,Slot.withTs] using charge.toAlters)
      · cases charged; exact untouched
  · cases charged; exact untouched

structure Ticked (law : Lawful c.strategy) (k k' : Kernel c) (elapsed : Int) : Prop where
  filed : Filed law k'
  taskNow : k'.taskNow = k.taskNow
  fsmState : k'.fsmState = k.fsmState
  kstate : k'.kstate = k.kstate
  ticks : k'.ticks = k.ticks + elapsed
  turns : ∀ i,∃ u recovered ts,Filed law u ∧ u.taskNow = k.taskNow ∧ u.fsmState = k.fsmState ∧
    (∀ j,j < i → u.place j = k'.place j) ∧ (∀ j,i ≤ j → u.slot j = (k.slot j).tickSync c elapsed) ∧
    (c.strategy.api.deadlineMissed = false → recovered = false) ∧
    k'.slot i = (((k.slot i).tickSync c elapsed).turn c (u.removable i) recovered elapsed).withTs ts

theorem beforeDecision_ticked (filed : Filed law k) (ticked : k.beforeDecision elapsed = some (k',sleepTicks)) :
    Ticked law k k' elapsed := by
  obtain ⟨⟨k₂,_⟩,updated,ticked⟩ := of_bind ticked
  obtain ⟨k₃,charged,same⟩ := of_bind ticked
  cases same
  obtain ⟨k₁,synced,updated⟩ := of_bind updated
  have counted : Filed law {k with ticks := k.ticks + elapsed} :=
    filed.still rfl rfl rfl rfl
  obtain ⟨sync,waits⟩ := updateSyncObjects_slots counted synced
  obtain ⟨turn,turns⟩ := updateTaskState_turns sync.filed updated
  obtain ⟨charge,slices⟩ := updateTimeslice_slots turn.filed charged
  have all := (sync.toSteady.trans turn).trans charge
  refine ⟨all.filed,all.taskNow,all.fsmState,all.kstate,all.ticks,fun i => ?_⟩
  obtain ⟨u,recovered,steady,earlier,later,honest,own⟩ := turns i
  obtain ⟨ts,mine⟩ := slices i
  refine ⟨u,recovered,ts,steady.filed,(sync.toSteady.trans steady).taskNow,(sync.toSteady.trans steady).fsmState,fun j less => ?_,
    fun j more => (later j more).trans (waits j),honest,?_⟩
  · obtain ⟨ts,same⟩ := slices j
    have here : u.place j = k₂.place j := congrArg Slot.place (earlier j less)
    have there : k'.place j = k₂.place j := congrArg Slot.place same
    rw [here,there]
  · rw [mine,own,waits i]
    rfl

theorem onTick_parts (filed : Filed law k) (ticked : k.onTick elapsed = some (k',sleepTicks,out)) :
    ∃ u,k.beforeDecision elapsed = some (u,sleepTicks) ∧ Ticked law k u elapsed ∧
      (u.isLocked = true ∧ k' = u ∧ out = .stay ∨
        u.isLocked = false ∧ ∃ next,Decided law u k' next ∧ Transit u next k'.taskNow k'.fsmState out) := by
  obtain ⟨⟨u,_⟩,before,ticked⟩ := of_bind ticked
  have turned := beforeDecision_ticked filed before
  dsimp only at ticked
  split at ticked
  · rename_i locked
    cases ticked
    exact ⟨_,before,turned,.inl ⟨locked,rfl,rfl⟩⟩
  · rename_i unlocked
    obtain ⟨⟨k₂,out⟩,decided,same⟩ := of_bind ticked
    cases same
    exact ⟨_,before,turned,.inr ⟨by simpa using unlocked,updateFsmState_decided turned.filed decided⟩⟩

structure Forced (law : Lawful c.strategy) (k u : Kernel c) (i : Fin n) : Prop where
  filed : Filed law u
  now : k.taskNow = some i
  taskNow : u.taskNow = k.taskNow
  fsmState : u.fsmState = k.fsmState
  ticks : u.ticks = k.ticks
  acts : ∃ k₁ s,(k₁ = k ∨ k₁ = k.releaseLock) ∧ Acts law k₁ i s u
  slots : ∃ s,u.slot = Function.update k.slot i s ∧
    ((k.tasks i).timeSleep < 0 ∧ (k.tasks i).sleepPending = true ∧ s = (k.slot i).settle c ∧
        u.kstate = (if k.kstate = .locked then .running else k.kstate) ∨
      ¬(k.tasks i).timeSleep < 0 ∧ c.strategy.api.noSleepYield = true ∧ (k.tasks i).yieldPending = true ∧
        s = (k.slot i).yielded ∧ u.kstate = k.kstate)

theorem onForceContextSwitch_parts {id : TId} (filed : Filed law k)
    (forced : k.onForceContextSwitch id = some (k',out)) :
    (k' = k ∧ out = .stay ∧ k.beforeForcedDecision id = some none) ∨
      ∃ i u,k.beforeForcedDecision id = some (some u) ∧ (k.tasks i).user.map UserTask.id = some id ∧
        Forced law k u i ∧ ∃ next,Decided law u k' next ∧ Transit u next k'.taskNow k'.fsmState out := by
  obtain ⟨before,reached,forced⟩ := of_bind forced
  cases before with
  | none => cases forced; exact .inl ⟨rfl,rfl,reached⟩
  | some u =>
    obtain ⟨i,now,entered⟩ := of_bind reached
    dsimp only at entered
    split at entered
    · rename_i called
      suffices Forced law k u i from .inr ⟨i,u,reached,called,this,updateFsmState_decided this.filed forced⟩
      split at entered
      · rename_i asleep
        split at entered
        · rename_i pending
          obtain ⟨u,settled,same⟩ := of_bind entered
          cases same
          have released : Filed law k.releaseLock :=
            filed.still rfl rfl rfl rfl
          have acts := processTaskPendingSleep_acts released settled
          exact ⟨acts.filed,now,acts.taskNow,acts.fsmState,acts.ticks,⟨_,_,.inr rfl,acts⟩,_,acts.slots,
            .inl ⟨by simpa using asleep,pending,rfl,acts.kstate⟩⟩
        · cases entered
      · rename_i awake
        split at entered
        · rename_i yields
          cases entered
          have acts := acts_modify filed i (fun t => {t with yieldPending := false}) rfl
          simp only [Bool.and_eq_true] at yields
          exact ⟨acts.filed,now,rfl,rfl,rfl,⟨_,_,.inl rfl,acts⟩,_,acts.slots,.inr ⟨by simpa using awake,yields.1,yields.2,rfl,rfl⟩⟩
        · cases entered
    · cases entered

end Kernel
end SuperTinyKernel
