import SuperTinyKernel.Timers.Steps

namespace SuperTinyKernel.Time

open Transition List

theorem TimerCommand.rearmed_some {c : TimerCommand threads} (rearms : c.rearmed = some t) :
    c.completion = none ∧ c.timer = some t ∧ (c.cmd = .restart ∨ c.cmd = .startOrReset) := by
  unfold rearmed at rearms
  split at rearms
  · rename_i both
    exact ⟨both.2,rearms,both.1⟩
  · cases rearms

def HostEvent.only (k : Context threads) : HostEvent threads → Bool
  | .call k' _ _ | .write k' _ | .cancel k' | .collect k' | .poll k' => decide (k' = k)
  | _ => true

namespace Stage

def pushes : Stage threads → Option (TimerCommand threads)
  | .pushing c _ _ => some c
  | _ => none

def awaits : Stage threads → Option (TimerCommand threads)
  | .waiting c => some c
  | _ => none

end Stage

-- A synchronous command is one that a caller issues that can wait.
def Issued (h : TimerHost threads) (e : HostEvent threads) (k : Context threads) (c : TimerCommand threads) : Prop :=
  ∃ r mayWait,e = .call k r mayWait ∧
    (c.completion = none ∨ c.completion = some k ∧ h.canWait mayWait = true ∧ r.synchronous = true)

inductive Traffic (h : TimerHost threads) (e : HostEvent threads) (h' : TimerHost threads) : Prop where
  | keep (commands : h'.commands = h.commands) (stages : h'.stages = h.stages)
  | enter (k : Context threads) (next : Stage threads) (pushing : next.pushes = some c)
      (issued : Issued h e k c) (idle : (h.stages k).awaits = none ∧ (h.stages k).pushes = none)
      (commands : h'.commands = h.commands) (stages : h'.stages = Function.update h.stages k next)
  | stay (k : Context threads) (next : Stage threads) (pushing : (h.stages k).pushes = some c) (still : next.pushes = some c)
      (commands : h'.commands = h.commands) (stages : h'.stages = Function.update h.stages k next)
  | move (k : Context threads) (next : Stage threads) (out : next.pushes = none ∧ next.awaits = none)
      (idle : (h.stages k).awaits = none) (commands : h'.commands = h.commands)
      (stages : h'.stages = Function.update h.stages k next)
  | write (k : Context threads) (next : Stage threads) (pushing : (h.stages k).pushes = some c)
      (waits : c.completion.isSome = true → next.awaits = some c) (out : next.pushes = none)
      (commands : h'.commands = h.commands ++ [c]) (stages : h'.stages = Function.update h.stages k next)
  | read (head : h.commands = c :: h'.commands)
      (own : ∀ k,c.completion = some k → (h'.stages k).pushes = none ∧ (h'.stages k).awaits = none)
      (others : ∀ k,c.completion ≠ some k → h'.stages k = h.stages k)

namespace Traffic

variable {h h' : TimerHost threads}

theorem pushes (traffic : Traffic h e h') (pushing : (h'.stages k).pushes = some c) :
    (h.stages k).pushes = some c ∨ Issued h e k c := by
  have updated : ∀ {k' next},h'.stages = Function.update h.stages k' next →
      (next.pushes = some c → (h.stages k').pushes = some c ∨ Issued h e k' c) →
      (h.stages k).pushes = some c ∨ Issued h e k c := by
    intro k' next stages own
    rw [stages] at pushing
    by_cases here : k = k'
    · subst here
      exact own (by simpa using pushing)
    · exact .inl (by simpa [here] using pushing)
  cases traffic with
  | keep commands stages => exact .inl (stages ▸ pushing)
  | enter k' next pushes issued idle commands stages =>
    refine updated stages fun own => .inr ?_
    rw [pushes] at own
    cases own
    exact issued
  | stay k' next pushes still commands stages =>
    refine updated stages fun own => .inl ?_
    rw [pushes,← still,own]
  | move k' next out idle commands stages =>
    refine updated stages fun own => ?_
    rw [out.1] at own
    cases own
  | write k' next pushes waits out commands stages =>
    refine updated stages fun own => ?_
    rw [out] at own
    cases own
  | read head own others =>
    rename_i c'
    by_cases completes : c'.completion = some k
    · rw [(own k completes).1] at pushing
      cases pushing
    · exact .inl (others k completes ▸ pushing)

theorem member (traffic : Traffic h e h') (member : c ∈ h'.commands) : c ∈ h.commands ∨ ∃ k,(h.stages k).pushes = some c := by
  cases traffic with
  | keep commands stages | enter k next pushes issued idle commands stages | stay k next pushes still commands stages
  | move k next out idle commands stages => exact .inl (commands ▸ member)
  | write k next pushes waits out commands stages =>
    rw [commands,mem_append,mem_singleton] at member
    rcases member with queued | rfl
    · exact .inl queued
    · exact .inr ⟨k,pushes⟩
  | read head own others => exact .inl (by rw [head]; exact mem_cons_of_mem _ member)

end Traffic

namespace HostStep

open TimerHost

variable {h h' : TimerHost threads} {size : Nat}

theorem callable_out (able : h.callable k = true) : (h.stages k).awaits = none ∧ (h.stages k).pushes = none := by
  simp only [callable,Bool.and_eq_true] at able
  cases stage : h.stages k <;> simp [stage,Stage.awaits,Stage.pushes] at able ⊢

theorem completed_traffic (read : h.commands = c :: h'.commands) (stages : h'.stages = h.completed c r info) :
    Traffic h e h' := by
  refine .read (c := c) read (fun k own => ?_) fun k other => ?_
  · rw [stages,completed_own own]
    exact ⟨rfl,rfl⟩
  · rw [stages,completed_other other]

theorem traffic (taken : HostStep size h e h') : Traffic h e h' := by
  cases taken with
  | execute at_ read on done info | release at_ read on cmd polled | leave at_ read on cmd tasks => exact completed_traffic read rfl
  | refuse able res info => exact .move _ _ ⟨rfl,rfl⟩ (callable_out able).1 rfl rfl
  | push able ready plain own blocking accepted =>
    exact .enter _ _ rfl ⟨_,_,rfl,own⟩ (callable_out able) rfl rfl
  | pushRearm able ready rearms unset blocking accepted =>
    exact .enter _ _ rfl ⟨_,_,rfl,.inl (TimerCommand.rearmed_some rearms).1⟩ (callable_out able) rfl rfl
  | write pushing room next waits =>
    refine .write _ next (by rw [pushing]; rfl) (fun some => ?_) ?_ rfl rfl
    · rcases waits with ⟨rfl,-⟩ | ⟨-,none⟩
      · rfl
      · rw [none] at some; cases some
    · rcases waits with ⟨rfl,-⟩ | ⟨rfl,-⟩ <;> rfl
  | block pushing => exact .stay _ _ (by rw [pushing]; rfl) rfl rfl rfl
  | fail pushing full res e cause => exact .move _ _ ⟨rfl,rfl⟩ (by rw [pushing]; rfl) rfl rfl
  | collect completed result | await completed on stop outsider => exact .move _ _ ⟨rfl,rfl⟩ (by rw [completed]; rfl) rfl rfl
  | poll polling inside | again polling | return_ polling all => exact .move _ _ ⟨rfl,rfl⟩ (by rw [polling]; rfl) rfl rfl
  | _ => exact .keep rfl rfl

end HostStep

namespace TimerHost

variable {h h' : TimerHost threads} {size : Nat}

-- A caller waits for each completion in the queue, and each completion is there once.
structure Owned (h : TimerHost threads) : Prop where
  awaited : ∀ c ∈ h.commands,∀ k,c.completion = some k → (h.stages k).awaits = some c
  once : (h.commands.filterMap TimerCommand.completion).Nodup
  own : ∀ k c,(h.stages k).pushes = some c → c.completion = none ∨ c.completion = some k

theorem Owned.initial : ({} : TimerHost threads).Owned := ⟨by simp,nodup_nil,by simp [Stage.pushes]⟩

theorem Owned.absent (owned : h.Owned) (idle : (h.stages k).awaits = none) : ∀ c ∈ h.commands,c.completion ≠ some k := by
  intro c member own
  rw [owned.awaited c member k own] at idle
  cases idle

theorem Owned.update (owned : h.Owned) (idle : (h.stages k).awaits = none) (next : Stage threads)
    (entered : ∀ c,next.pushes = some c → c.completion = none ∨ c.completion = some k) (commands : h'.commands = h.commands)
    (stages : h'.stages = Function.update h.stages k next) : h'.Owned := by
  refine ⟨fun c member k' own => ?_,commands ▸ owned.once,fun k' c pushing => ?_⟩
  · rw [commands] at member
    have other : k' ≠ k := fun same => owned.absent idle c member (same ▸ own)
    rw [stages,Function.update_of_ne other]
    exact owned.awaited c member k' own
  · rw [stages] at pushing
    by_cases here : k' = k
    · subst here
      exact entered c (by simpa using pushing)
    · exact owned.own k' c (by simpa [here] using pushing)

theorem Stage.awaits_of_pushes {s : Stage threads} (pushing : s.pushes = some c) : s.awaits = none := by
  cases s <;> first | rfl | cases pushing

theorem Owned.step (owned : h.Owned) (traffic : Traffic h e h') : h'.Owned := by
  cases traffic with
  | keep commands stages =>
    exact ⟨by simpa only [commands,stages] using owned.awaited,commands ▸ owned.once,by simpa only [stages] using owned.own⟩
  | enter k next pushing issued idle commands stages =>
    refine owned.update idle.1 next (fun c entered => ?_) commands stages
    rw [pushing] at entered
    cases entered
    obtain ⟨_,_,-,own⟩ := issued
    exact own.imp_right And.left
  | stay k next pushing still commands stages =>
    refine owned.update (Stage.awaits_of_pushes pushing) next (fun c entered => ?_) commands stages
    rw [still] at entered
    cases entered
    exact owned.own k _ pushing
  | move k next out idle commands stages =>
    refine owned.update idle next (fun c entered => ?_) commands stages
    rw [out.1] at entered
    cases entered
  | write k next pushing waits out commands stages =>
    rename_i c
    have idle := Stage.awaits_of_pushes pushing
    have own := owned.own k c pushing
    refine ⟨fun c' member k' completion => ?_,?_,fun k' c' pushes => ?_⟩
    · rw [commands,mem_append,mem_singleton] at member
      rcases member with member | rfl
      · have other : k' ≠ k := fun same => owned.absent idle c' member (same ▸ completion)
        rw [stages,Function.update_of_ne other]
        exact owned.awaited c' member k' completion
      · obtain rfl : k' = k := by
          rcases own with none | some
          · rw [none] at completion; cases completion
          · rw [some] at completion; exact (Option.some.inj completion).symm
        rw [stages,Function.update_self]
        exact waits (by rw [completion]; rfl)
    · rw [commands,filterMap_append]
      refine nodup_append.mpr ⟨owned.once,?_,?_⟩
      · cases completion : c.completion <;> simp [completion]
      · intro k' member k'' last same
        obtain ⟨c',inside,completion⟩ := mem_filterMap.mp member
        have written : c.completion = some k' := by
          rw [same]
          simpa using last
        obtain rfl : k' = k := by
          rcases own with none | some
          · rw [none] at written; cases written
          · rw [some] at written; exact (Option.some.inj written).symm
        exact owned.absent idle c' inside completion
    · rw [stages] at pushes
      by_cases here : k' = k
      · subst here
        rw [Function.update_self,out] at pushes
        cases pushes
      · exact owned.own k' c' (by simpa [here] using pushes)
  | read head own others =>
    rename_i c
    have once := owned.once
    rw [head] at once
    refine ⟨fun c' member k completion => ?_,?_,fun k c' pushes => ?_⟩
    · have other : c.completion ≠ some k := by
        intro same
        rw [filterMap_cons_some same,nodup_cons] at once
        exact once.1 (mem_filterMap.mpr ⟨c',member,completion⟩)
      rw [others k other]
      exact owned.awaited c' (by rw [head]; exact mem_cons_of_mem c member) k completion
    · cases completion : c.completion with
      | none => rwa [filterMap_cons_none completion] at once
      | some k =>
        rw [filterMap_cons_some completion] at once
        exact (nodup_cons.mp once).2
    · by_cases completes : c.completion = some k
      · rw [(own k completes).1] at pushes
        cases pushes
      · rw [others k completes] at pushes
        exact owned.own k c' pushes

def pastLoop (h : TimerHost threads) : Prop := h.tick = .stopping ∨ h.tick = .unlinking ∨ h.tick = .exited

def Silent (h : TimerHost threads) (commands : List (TimerCommand threads)) : Prop :=
  (∀ c ∈ commands,c.completion = none) ∧ ∀ k c,(h.stages k).pushes = some c → c.completion = none

-- Nobody issues a synchronous command that is not read any more: none behind the CMD_SHUTDOWN
-- or inside PushCommand when it is read, and none before m_ready is cleared.
def ShutsLast (h : TimerHost threads) (e : HostEvent threads) : Prop :=
  match e with
  | .tickTask => ∀ sleep since c rest,h.tick = .reading sleep since → h.commands = c :: rest → c.cmd = .shutdown →
      h.polled = false → h.Silent rest
  | .call _ r mayWait => h.tick = .stopping → r.synchronous = true → h.canWait mayWait = false
  | _ => True

structure Drained (h : TimerHost threads) : Prop where
  silent : h.pastLoop → h.Silent h.commands
  closed : h.tick = .unlinking ∨ h.tick = .exited → h.ready = false

theorem Silent.traffic (silent : h.Silent h.commands) (traffic : Traffic h e h')
    (refused : ∀ k c,Issued h e k c → c.completion = none) : h'.Silent h'.commands := by
  refine ⟨fun c member => ?_,fun k c pushing => ?_⟩
  · rcases traffic.member member with queued | ⟨k,pushing⟩
    · exact silent.1 c queued
    · exact silent.2 k c pushing
  · rcases traffic.pushes pushing with before | issued
    · exact silent.2 k c before
    · exact refused k c issued

-- Before m_ready is cleared none is issued by the condition, and then because CanWait() tests
-- it.
theorem Drained.refuses (drained : h.Drained) (last : h.ShutsLast e) (past : h.pastLoop) (issued : Issued h e k c) :
    c.completion = none := by
  obtain ⟨r,mayWait,rfl,async | ⟨-,wait,synchronous⟩⟩ := issued
  · exact async
  · exfalso
    rcases past with stopping | closed
    · rw [last stopping synchronous] at wait
      cases wait
    · simp [canWait,drained.closed closed] at wait

theorem Drained.step (drained : h.Drained) (last : h.ShutsLast e) (taken : HostStep size h e h') : h'.Drained := by
  have traffic := taken.traffic
  have stays : h.pastLoop → h'.Silent h'.commands := fun past =>
    (drained.silent past).traffic traffic fun _ _ issued => drained.refuses last past issued
  cases taken with
  | start | startPolled | process | scan | visit | read | processed => exact ⟨by simp [pastLoop,scan],by simp [scan]⟩
  | execute | release => exact ⟨by simp [pastLoop],by simp⟩
  | leave at_ read on cmd tasks =>
    have silent := last _ _ _ _ at_ read cmd tasks
    refine ⟨fun _ => ⟨by simpa using silent.1,fun k c' pushing => ?_⟩,by simp⟩
    rcases traffic.pushes pushing with before | issued
    · exact silent.2 k c' before
    · obtain ⟨r,mayWait,call,async | -⟩ := issued
      · exact async
      · cases call
  | close at_ => exact ⟨fun _ => stays (.inl at_),fun _ => rfl⟩
  | unlink at_ => exact ⟨fun _ => stays (.inr (.inl at_)),fun _ => drained.closed (.inl at_)⟩
  | startFailed vacant => exact ⟨fun past => stays past,fun _ => rfl⟩
  | fail pushing full res e cause =>
    exact ⟨fun past => stays (by simpa [pastLoop] using past),by simpa using drained.closed⟩
  | _ => exact ⟨stays,drained.closed⟩

-- Behind its loop the tick task leaves no caller blocked on a queued completion, in every run
-- whose synchronous commands all come before a shutdown or after the host is closed.
theorem shutdown_completes
    (run : Run (TimerHost.step size) (fun h e => h.ShutsLast e) ({} : TimerHost threads) h) (past : h.pastLoop) :
    ∀ c ∈ h.commands,∀ k,c.completion = some k → h.stages k ≠ .waiting c := by
  have drained : h.Drained := run.keeps (I := Drained) ⟨by simp [pastLoop],by simp⟩
    fun _ _ _ before last taken => before.step last (step_inv taken)
  intro c member k own
  rw [(drained.silent past).1 c member] at own
  cases own

theorem idle_step (owned : h.Owned) (taken : HostStep size h e h') (alone : e.only k = true) (other : k' ≠ k)
    (idle : h.stages k' = .idle) : h'.stages k' = .idle := by
  have unread : ∀ {c rest},h.commands = c :: rest → c.completion ≠ some k' := fun read =>
    owned.absent (by rw [idle]; rfl) _ (by rw [read]; exact mem_cons_self)
  have updated : ∀ {k'' s},decide (k'' = k) = true → Function.update h.stages k'' s k' = .idle := by
    intro k'' s here
    obtain rfl := of_decide_eq_true here
    rw [Function.update_of_ne other]
    exact idle
  cases taken with
  | execute at_ read on done info | release at_ read on cmd polled | leave at_ read on cmd tasks => exact (completed_other (unread read)).trans idle
  | fail pushing full res e cause =>
    rcases cause with ⟨mayWait,rfl⟩ | rfl
    · exact updated alone
    · exact updated alone
  | refuse | push | pushRearm | write | block | collect | await | poll | again | return_ => exact updated alone
  | _ => exact idle

def lateStart : List (HostEvent 1) :=
  [.initializeTasks true,.call (.task 0) (.stopSync 0) true,.write (.task 0) true,.tickTask,.tickTask,.collect (.task 0),
    .poll (.task 0),.poll (.task 0),.call (.task 0) .shutdown true,.write (.task 0) true,
    .call (.task 0) (.start 0 5 5) true,.write (.task 0) true,.tickTask]

theorem lateStart_completes : ∃ h : TimerHost 1,exec (TimerHost.step 32) {} lateStart = some h ∧ h.pastLoop ∧
    ∀ c ∈ h.commands,∀ k,c.completion = some k → h.stages k ≠ .waiting c := by
  have ran : (exec (TimerHost.step 32) ({} : TimerHost 1) lateStart).map (fun h => h.tick) = some .stopping := by decide
  obtain ⟨h,ran,stopping⟩ := of_map ran
  have run : Run (TimerHost.step 32) (fun h e => h.ShutsLast e) ({} : TimerHost 1) h := by
    refine (Run.ofExecAllowed
        (fun h e => e.only (.task 0) && h.commands.tail.all (fun c => c.completion = none) &&
          (decide (e ≠ .tickTask) || (h.stages (.task 0)).pushes.isNone) && decide (h.tick ≠ .stopping))
        (by decide) ran).strengthen
      (I := fun h => h.Owned ∧ ∀ k,k ≠ .task 0 → h.stages k = .idle) ⟨.initial,fun _ _ => rfl⟩ ?_ ?_
    · intro h e h' ⟨owned,idle⟩ allowed taken
      simp only [Bool.and_eq_true] at allowed
      have taken := step_inv taken
      exact ⟨owned.step taken.traffic,fun k other => idle_step owned taken allowed.1.1.1 other (idle k other)⟩
    · intro h e ⟨owned,idle⟩ allowed
      simp only [Bool.and_eq_true,all_eq_true,decide_eq_true_eq,Bool.or_eq_true] at allowed
      cases e with
      | tickTask =>
        intro sleep since c rest at_ read cmd tasks
        refine ⟨fun c' member => allowed.1.1.2 c' (by rw [read]; exact member),fun k c' pushing => ?_⟩
        by_cases own : k = .task 0
        · subst own
          simp [pushing] at allowed
        · rw [idle k own] at pushing
          cases pushing
      | call => exact fun stopping => absurd stopping allowed.2
      | _ => trivial
  have past : h.pastLoop := .inl stopping
  exact ⟨h,ran,past,shutdown_completes run past⟩

-- A task is blocked in StopSync() behind a shutdown.
def lateStop : List (HostEvent 1) :=
  [.initializeTasks true,.call (.task 0) .shutdown true,.write (.task 0) true,
    .call (.task 1) (.stopSync 0) true,.write (.task 1) true,.tickTask,.tickTask,.tickTask,.tickTask]

theorem lateStop_blocked : ∃ (h : TimerHost 1) (c : TimerCommand 1),
    Run (TimerHost.step 32) (fun _ _ => True) {} h ∧ h.tick = .exited ∧ h.commands = [c] ∧
      c.completion = some (.task 1) ∧ h.stages (.task 1) = .waiting c := by
  have found : ∃ h : TimerHost 1,exec (TimerHost.step 32) {} lateStop = some h ∧ h.tick = .exited ∧
      h.commands = [⟨.stop,some 0,0,0,0,some (.task 1)⟩] ∧
      h.stages (.task 1) = .waiting ⟨.stop,some 0,0,0,0,some (.task 1)⟩ := by decide
  obtain ⟨h,ran,exited,commands,blocked⟩ := found
  exact ⟨h,_,.ofExec ran,exited,commands,rfl,blocked⟩

end TimerHost
end SuperTinyKernel.Time
