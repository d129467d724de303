import SuperTinyKernel.Moves

namespace SuperTinyKernel

namespace System

open Kernel

variable {c : Config n}

def loaded (s : System c) : Outcome n → Option (StackPtr n)
  | .stay => s.exec
  | .switch _ active => some active
  | .stop => some .exitTrap

def quiet : Event n → Bool
  | .start | .tick _ | .force | .stop => false
  | _ => true

inductive Stepped (law : Lawful c.strategy) (s t : System c) : Event n → Prop where
  | quiet : quiet e = true → Quiet law s t e → Stepped law s t e
  | start : s.exec = none → Launched law s.kernel.fresh u t.kernel next → t.phase = s.phase → t.armed = 1 →
      ((∃ j,next = some j ∧ t.kernel.taskNow = some j ∧ t.kernel.fsmState = .switching ∧ t.exec = some (.task j)) ∨
        ∃ first,next = none ∧ t.kernel.taskNow = some first ∧ u.place first ≠ .free ∧ t.kernel.fsmState = .sleeping ∧
          t.exec = some .sleepTrap) →
      Stepped law s t .start
  | tick : elapsedOk c elapsed = true → s.kernel.fresh.beforeDecision elapsed = some (u,t.armed) →
      Ticked law s.kernel.fresh u elapsed → u.isLocked = false → Decided law u t.kernel next →
      Transit u next t.kernel.taskNow t.kernel.fsmState out → t.exec = s.loaded out → t.phase = s.phase →
      Stepped law s t (.tick elapsed)
  | lockedTick : elapsedOk c elapsed = true → s.kernel.fresh.beforeDecision elapsed = some (t.kernel,t.armed) →
      Ticked law s.kernel.fresh t.kernel elapsed → t.kernel.isLocked = true → t.exec = s.exec → t.phase = s.phase →
      Stepped law s t (.tick elapsed)
  | force : s.exec = some (.task i) → s.phase i = .force call → (s.tasks i).user = some user →
      s.kernel.fresh.beforeForcedDecision user.id = some (some u) → (s.tasks j).user.map UserTask.id = some user.id →
      Forced law s.kernel.fresh u j → Decided law u t.kernel next →
      Transit u next t.kernel.taskNow t.kernel.fsmState out → t.exec = s.loaded out →
      t.phase = Function.update s.phase i (.spin call) → t.armed = s.armed → Stepped law s t .force
  | noForce : s.exec = some (.task i) → s.phase i = .force call → (s.tasks i).user = some user →
      s.kernel.fresh.beforeForcedDecision user.id = some none → t.kernel = s.kernel.fresh → t.exec = s.exec →
      t.phase = Function.update s.phase i (.spin call) → t.armed = s.armed → Stepped law s t .force
  | stop : s.exec = some .exitTrap → t.kernel = s.kernel.fresh.onStop → t.exec = none → t.phase = s.phase →
      t.armed = s.armed → Stepped law s t .stop

variable {law : Lawful c.strategy} {s t : System c}

theorem tick_parts (taken : s.step (.tick elapsed) = some t) : elapsedOk c elapsed = true ∧
    ∃ k sleepTicks out,s.kernel.fresh.onTick elapsed = some (k,sleepTicks,out) ∧
      t = System.apply {s with kernel := k,armed := sleepTicks} out := by
  rw [System.step,System.act,System.tick.eq_def] at taken
  split at taken
  all_goals
    first
      | cases taken
      | split at taken
        · rename_i legal
          obtain ⟨⟨k,sleepTicks,out⟩,ticked,same⟩ := of_bind taken
          exact ⟨legal,k,sleepTicks,out,ticked,(Option.some.inj same).symm⟩
        · cases taken

theorem tick_stepped (filed : Filed law s.kernel) (stepped : s.step (.tick elapsed) = some t) :
    Stepped law s t (.tick elapsed) := by
  obtain ⟨legal,k',sleepTicks,out,ticked,rfl⟩ := tick_parts stepped
  obtain ⟨u,before,turned,⟨locked,rfl,rfl⟩ | ⟨unlocked,next,decided,transit⟩⟩ := onTick_parts (fresh_filed filed) ticked
  · exact .lockedTick legal before turned locked rfl rfl
  · cases out <;> exact .tick legal before turned unlocked decided transit rfl rfl

theorem force_stepped (filed : Filed law s.kernel) (stepped : s.step .force = some t) : Stepped law s t .force := by
  change System.force {s with kernel := s.kernel.fresh} = some t at stepped
  unfold System.force at stepped
  split at stepped
  · rename_i i executes
    split at stepped
    · rename_i call waits
      obtain ⟨user,bound,stepped⟩ := of_bind stepped
      obtain ⟨⟨k',out⟩,forced,same⟩ := of_bind stepped
      rcases onForceContextSwitch_parts (fresh_filed filed) forced with
        ⟨rfl,rfl,unforced⟩ | ⟨j,u,before,named,leaves,next,decided,transit⟩
      · cases same
        exact .noForce executes waits bound unforced rfl rfl rfl rfl
      · cases out <;> cases same <;>
          exact .force executes waits bound before named leaves decided transit rfl rfl rfl
    · cases stepped
  · cases stepped

theorem start_parts (taken : s.step .start = some t) : s.exec = none ∧
    ∃ k active,s.kernel.fresh.onStart = some (k,active) ∧
      t = {s with kernel := k,exec := some active,armed := 1} := by
  rw [System.step,System.act] at taken
  split at taken
  · rename_i ready
    obtain ⟨⟨k,active⟩,started,same⟩ := of_bind taken
    exact ⟨ready.1,k,active,started,(Option.some.inj same).symm⟩
  · cases taken

theorem start_stepped (filed : Filed law s.kernel) (stepped : s.step .start = some t) : Stepped law s t .start := by
  obtain ⟨unstarted,k',active,started,rfl⟩ := start_parts stepped
  obtain ⟨u,next,launched,reached⟩ := onStart_launched (fresh_filed filed) started
  refine .start unstarted launched rfl rfl ?_
  rcases reached with ⟨j,chosen,now,state,rfl⟩ | ⟨first,chosen,now,placed,state,rfl⟩
  · exact .inl ⟨j,chosen,now,state,rfl⟩
  · exact .inr ⟨first,chosen,now,placed,state,rfl⟩

theorem step_stepped (filed : Filed law s.kernel) (focus : ∀ i,s.caller = some i → s.kernel.taskNow = some i)
    (stepped : s.step e = some t) : Stepped law s t e := by
  cases e with
  | start => exact start_stepped filed stepped
  | tick elapsed => exact tick_stepped filed stepped
  | force => exact force_stepped filed stepped
  | leave => exact .quiet rfl (leave_quiet filed stepped)
  | sleep ticks => exact .quiet rfl (sleep_quiet filed stepped)
  | sleepUntil timestamp => exact .quiet rfl (sleepUntil_quiet filed stepped)
  | switchToNext => exact .quiet rfl (switchToNext_quiet filed stepped)
  | wait o timeout => exact .quiet rfl (wait_quiet filed stepped)
  | exitTask => exact .quiet rfl (exitTask_quiet filed focus stepped)
  | returnFromRun => exact .quiet rfl (returnFromRun_quiet filed focus stepped)
  | setSchedulerLock lock => exact .quiet rfl (setSchedulerLock_quiet filed stepped)
  | wake o all => exact .quiet rfl (wake_quiet filed stepped)
  | suspendTask user inIsr => exact .quiet rfl (suspendTask_quiet filed focus stepped)
  | resumeTask user => exact .quiet rfl (resumeTask_quiet filed stepped)
  | cancelTaskWait i => exact .quiet rfl (cancelTaskWait_quiet filed stepped)
  | scheduleTaskRemoval user => exact .quiet rfl (scheduleTaskRemoval_quiet filed stepped)
  | addTask user => exact .quiet rfl (addTask_quiet filed stepped)
  | addTaskHrt user period deadline delay => exact .quiet rfl (addTaskHrt_quiet filed stepped)
  | removeTask user => exact .quiet rfl (removeTask_quiet filed stepped)
  | inheritWeight user weight => exact .quiet rfl (inheritWeight_quiet filed stepped)
  | restoreWeight user sobj => exact .quiet rfl (restoreWeight_quiet filed stepped)
  | setWeight user weight => exact .quiet rfl (setWeight_quiet filed stepped)
  | setTimeSlice user ticks => exact .quiet rfl (setTimeSlice_quiet filed stepped)
  | suspend off => exact .quiet rfl (suspend_quiet filed stepped)
  | stop =>
    change (if s.exec = some .exitTrap then some {s with kernel := s.kernel.fresh.onStop,exec := none} else none) =
      some t at stepped
    split at stepped
    · cases stepped; exact .stop ‹_› rfl rfl rfl rfl
    · cases stepped

end System
end SuperTinyKernel
