import SuperTinyKernel.Timers.Places

namespace SuperTinyKernel.Time

open Transition List

inductive Shift (h : TimerHost threads) (e : HostEvent threads) (t : TimerId) (p : Place) : Place → Prop where
  | keep : Shift h e t p p
  | command (cause : e = .tickTask) (at_ : h.tick = .reading sleep since) (read : h.commands = c :: rest)
      (on : c.timer = some t) (other : c.cmd ≠ .stop) (done : Commanded h.polled p q) : Shift h e t p q
  | stop (cause : e = .tickTask) (at_ : h.tick = .reading sleep since) (read : h.commands = c :: rest)
      (on : c.timer = some t) (stop : c.cmd = .stop) : Shift h e t p ⟨false,False,false,h.polled = true ∧ p.queued⟩
  | release (cause : e = .tickTask) (polled : h.polled = true) (linked : p.linked) :
      Shift h e t p ⟨false,False,false,p.queued⟩
  | visit (cause : e = .tickTask) (at_ : h.tick = .scanning (t :: rest) sleep) (visited : Visited h.polled p q) : Shift h e t p q
  | unlink (cause : e = .tickTask) (at_ : h.tick = .unlinking) : Shift h e t p {p with linked := False}
  | claim (first : h.board.readyList = t :: rest) (pending : p.pending = true) :
      Shift h e t p {p with pending := false,queued := False}
  | skip (first : h.board.readyList = t :: rest) (handled : p.pending = false) : Shift h e t p {p with queued := False}

namespace Board

variable {b : Board}

theorem flag_place (b : Board) (t : TimerId) (v : Bool) (u : TimerId) :
    (b.modify t fun x => {x with rearming := v}).place u = b.place u := by
  by_cases own : u = t
  · subst own; simp [place]
  · exact modify_place_other own

theorem release_place (b : Board) (t : TimerId) :
    b.release.place t = if t ∈ b.active then ⟨false,False,false,(b.place t).queued⟩ else {b.place t with linked := False} := by
  by_cases linked : t ∈ b.active <;> simp [place,release,linked]

theorem pop_place (listed : b.Listed) (first : b.readyList = t :: rest) :
    (b.popReady rest).Listed ∧ (∀ u,u ≠ t → (b.popReady rest).place u = b.place u) ∧
      (b.popReady rest).place t = {b.place t with queued := False} := by
  have distinct := listed.ready
  rw [first] at distinct
  obtain ⟨once,later⟩ := nodup_cons.mp distinct
  refine ⟨⟨listed.active,later⟩,fun u other => ?_,?_⟩
  · simp [place,popReady,first,other]
  · simp [place,popReady,once]

theorem claim_place (listed : b.Listed) (first : b.readyList = t :: rest) :
    ((b.popReady rest).modify t fun x => {x with pending := false}).Listed ∧
      (∀ u,u ≠ t → ((b.popReady rest).modify t fun x => {x with pending := false}).place u = b.place u) ∧
      ((b.popReady rest).modify t fun x => {x with pending := false}).place t =
        {b.place t with pending := false,queued := False} := by
  obtain ⟨after,others,own⟩ := pop_place listed first
  refine ⟨⟨after.active,after.ready⟩,fun u other => ?_,?_⟩
  · rw [modify_place_other other,others u other]
  · have unqueued : t ∉ rest := by simpa [place,popReady] using congrArg Place.queued own
    simp [place,popReady,unqueued]

theorem execute_start {c : TimerCommand threads} (start : c.cmd = .start)
    (inactive : (b.timers t).active = false) (empty : b.active = []) : ∃ started,b.execute polled c t sleep = some (started,noWait,.ok) := by
  simp [Board.execute,start,inactive,Board.link,empty]

end Board

namespace TimerHost

variable {h h' : TimerHost threads} {size : Nat}

theorem reverted_place (listed : h.board.Listed) (c : TimerCommand threads) :
    (h.reverted c).Listed ∧ ∀ t,(h.reverted c).place t = h.board.place t := by
  unfold reverted
  split
  · exact ⟨listed,fun _ => rfl⟩
  · rename_i u rearms
    exact ⟨⟨listed.active,listed.ready⟩,h.board.flag_place u false⟩

end TimerHost

namespace HostStep

open TimerHost

variable {h h' : TimerHost threads} {size : Nat}

theorem shift (taken : HostStep size h e h') (listed : h.board.Listed) :
    h'.board.Listed ∧ ∀ t,Shift h e t (h.board.place t) (h'.board.place t) := by
  have same : h.board.Listed ∧ ∀ t,Shift h e t (h.board.place t) (h.board.place t) := ⟨listed,fun _ => .keep⟩
  have only : ∀ {b : Board} {t},b.Listed → (∀ u,u ≠ t → b.place u = h.board.place u) →
      Shift h e t (h.board.place t) (b.place t) → b.Listed ∧ ∀ u,Shift h e u (h.board.place u) (b.place u) := by
    intro b t after others own
    refine ⟨after,fun u => ?_⟩
    by_cases here : u = t
    · subst here; exact own
    · rw [others u here]; exact .keep
  cases taken with
  | execute at_ read on done info =>
    rename_i c rest t board next r
    by_cases stop : c.cmd = .stop
    · obtain ⟨after,others,own⟩ := Board.execute_stop listed stop done
      exact only after others (own ▸ .stop rfl at_ read on stop)
    · obtain ⟨after,others,own⟩ := Board.execute_place listed stop done
      exact only after others (.command rfl at_ read on stop own)
  | release at_ read on cmd polled =>
    refine ⟨⟨nodup_nil,listed.ready⟩,fun t => ?_⟩
    rw [Board.release_place]
    split
    · rename_i linked
      exact .release rfl polled linked
    · rename_i unlinked
      have kept : ({h.board.place t with linked := False} : Place) = h.board.place t := by simp [Board.place,unlinked]
      rw [kept]
      exact .keep
  | visit at_ visited =>
    obtain ⟨after,others,own⟩ := Board.visit_place listed visited
    exact only after others (.visit rfl at_ own)
  | unlink at_ => exact ⟨⟨nodup_nil,listed.ready⟩,fun t => by simpa [Board.place] using Shift.unlink rfl at_⟩
  | claim loop first pending slot free =>
    obtain ⟨after,others,own⟩ := Board.claim_place listed first
    exact only after others (own ▸ .claim first pending)
  | skip loop first handled =>
    obtain ⟨after,others,own⟩ := Board.pop_place listed first
    exact only after others (own ▸ .skip first handled)
  | pushRearm able ready rearms unset blocking accepted =>
    exact ⟨⟨listed.active,listed.ready⟩,fun t => (h.board.flag_place _ true t).symm ▸ .keep⟩
  | fail pushing full res e cause =>
    obtain ⟨after,places⟩ := reverted_place listed _
    exact ⟨after,fun t => (places t).symm ▸ .keep⟩
  | _ => exact same

end HostStep

theorem Shift.linked {h : TimerHost threads} (shift : Shift h e t p q) (before : p.active = true ↔ p.linked)
    (gone : h.tick = .unlinking → ¬p.linked) : q.active = true ↔ q.linked := by
  cases shift with
  | keep | claim | skip => exact before
  | command cause at_ read on other done =>
    cases done with
    | keep | cancel => exact before
    | arm => simp
  | stop | release => simp
  | visit cause at_ visited =>
    cases visited with
    | keep | periodic => exact before
    | oneShot => simp
    | unlink inactive => simp [inactive]
  | unlink cause at_ => simpa using before.not.mpr (gone at_)

namespace TimerHost

variable {h h' : TimerHost threads} {size : Nat}

-- A CMD_SHUTDOWN that ends the tick task finds the active list empty.
def leavesIdle (h : TimerHost threads) (e : HostEvent threads) : Bool :=
  match e,h.tick,h.commands with
  | .tickTask,.reading _ _,c :: _ => !decide (c.cmd = .shutdown) || h.polled || h.board.active.isEmpty
  | _,_,_ => true

structure Consistent (h : TimerHost threads) : Prop where
  listed : h.board.Listed
  linked : ∀ t,(h.board.place t).active = true ↔ (h.board.place t).linked
  left : h.tick = .stopping ∨ h.tick = .unlinking ∨ h.tick = .exited → h.board.active = []

theorem Consistent.step (consistent : h.Consistent) (idle : h.leavesIdle e = true) (taken : HostStep size h e h') :
    h'.Consistent := by
  obtain ⟨listed,shifts⟩ := taken.shift consistent.listed
  refine ⟨listed,fun t => ?_,?_⟩
  · refine (shifts t).linked (consistent.linked t) fun at_ linked => ?_
    rw [Board.place,consistent.left (.inr (.inl at_))] at linked
    cases linked
  · cases taken with
    | start | startPolled | process | scan | visit | read | processed => simp [scan]
    | execute | release => simp
    | leave at_ read on cmd tasks =>
      intro _
      simpa [leavesIdle,at_,read,cmd,tasks] using idle
    | close at_ => exact fun _ => consistent.left (.inl at_)
    | unlink at_ => exact fun _ => rfl
    | claim loop first pending slot free => exact consistent.left
    | fail pushing full res e cause => simpa using consistent.left
    | _ => exact consistent.left

theorem Consistent.initial : ({} : TimerHost threads).Consistent :=
  ⟨⟨nodup_nil,nodup_nil⟩,by simp [Board.place],fun _ => rfl⟩

theorem Consistent.inactive (consistent : h.Consistent) (empty : h.board.active = []) (t : TimerId) :
    (h.board.timers t).active = false := by
  have unlinked : ¬(h.board.place t).linked := by simp [Board.place,empty]
  exact Bool.eq_false_iff.mpr ((consistent.linked t).not.mpr unlinked)

-- m_active and the active list agree in every run in which the tick task ends with no timer
-- active: a shutdown leaves all timers inactive, and each can be started again.
theorem active_iff_linked
    (run : Run (TimerHost.step size) (fun h e => h.leavesIdle e = true) ({} : TimerHost threads) h) :
    (∀ t,(h.board.timers t).active = true ↔ t ∈ h.board.active) ∧
      (h.tick = .exited → ∀ t,(h.board.timers t).active = false ∧
        ∀ (c : TimerCommand threads) polled sleep,c.cmd = .start →
          ∃ started,h.board.execute polled c t sleep = some (started,noWait,.ok)) ∧
      (∀ sleep since c rest h',h.polled = true → h.tick = .reading sleep since → h.commands = c :: rest → c.cmd = .shutdown →
        h.step size .tickTask = some h' → ∀ t,(h'.board.timers t).active = false) := by
  have consistent : h.Consistent := run.keeps .initial fun _ _ _ before idle taken => before.step idle (step_inv taken)
  refine ⟨consistent.linked,fun exited t => ?_,?_⟩
  · have empty := consistent.left (.inr (.inr exited))
    have inactive := consistent.inactive empty t
    exact ⟨inactive,fun c polled sleep start => Board.execute_start start inactive empty⟩
  · intro sleep since c rest h' polled at_ read cmd taken
    -- The condition does not concern polled mode.
    have idle : h.leavesIdle .tickTask = true := by simp [leavesIdle,at_,read,polled]
    have after := consistent.step idle (step_inv taken)
    refine after.inactive ?_
    simp only [step,tickTask,at_,read,processCommand,cmd,polled] at taken
    split at taken
    · simp [Board.execute,cmd] at taken
    · simp only [↓reduceIte,Option.some.injEq] at taken
      subst taken
      simp [complete_eq,Board.release]

def stoppedShutdown : List (HostEvent 1) :=
  [.initializeTasks true,.call (.task 0) (.start 0 5 5) true,.write (.task 0) true,.tickTask,.tickTask,
    .call (.task 0) (.stop 0) true,.write (.task 0) true,.tickTask,
    .call (.task 0) .shutdown true,.write (.task 0) true,.tickTask,.tickTask,.tickTask]

theorem stoppedShutdown_inactive : ∃ h,exec (TimerHost.step 32) {} stoppedShutdown = some h ∧ h.tick = .exited ∧
    ∀ t,(h.board.timers t).active = false := by
  refine exec_shows (P := fun h => h.tick = .exited) (by decide) ?_
  intro h ran exited
  have run := Run.ofExecAllowed TimerHost.leavesIdle (by decide) ran
  exact ⟨exited,fun t => ((active_iff_linked run).2.1 exited t).1⟩

-- A host is shut down with a timer running and initialized again: the timer is in no list, and
-- Start() returns RES_ACTIVE.
def runningShutdown : List (HostEvent 1) :=
  [.initializeTasks true,.call (.task 0) (.start 0 5 5) true,.write (.task 0) true,.tickTask,.tickTask,
    .call (.task 0) .shutdown true,.write (.task 0) true,.tickTask,.tickTask,.tickTask,.claim soleHandler,
    .initializeTasks true,.tickTask,.call (.task 0) (.start 0 5 5) true]

theorem runningShutdown_stale : ∃ h : TimerHost 1,Run (TimerHost.step 32) (fun _ _ => True) {} h ∧
    (h.board.timers 0).active = true ∧ 0 ∉ h.board.active ∧ h.stages (.task 0) = .returned .active none := by
  exact Run.found runningShutdown (by decide)

end TimerHost
end SuperTinyKernel.Time
