import SuperTinyKernel.Timers.Waking

namespace SuperTinyKernel.Time

open Transition

-- The calls assert that their delays and periods are at most WAIT_INFINITE; SetPeriod()
-- checks its own.
def Request.asserted : Request → Bool
  | .start _ delay period | .restart _ delay period | .startOrReset _ delay period | .startSync _ delay period
  | .restartSync _ delay period | .changeSync _ delay period =>
    decide ((delay : Int) ≤ waitInfinite ∧ (period : Int) ≤ waitInfinite)
  | _ => true

def HostEvent.asserted : HostEvent threads → Bool
  | .call _ r _ => r.asserted
  | _ => true

def TimerCommand.Sized (c : TimerCommand threads) (ticks : Int) : Prop :=
  c.timestamp ≤ ticks ∧ (c.delay : Int) ≤ waitInfinite ∧ (c.period : Int) ≤ waitInfinite

def Timer.Sized (now : Int) (x : Timer) : Prop :=
  x.deadline ≤ now + waitInfinite ∧ (x.delay : Int) ≤ waitInfinite ∧ (x.period : Int) ≤ waitInfinite

theorem Board.Orders.sized {c : TimerCommand threads} (orders : Board.Orders c x x') (command : c.Sized ticks)
    (sized : x.Sized ticks) : x'.Sized ticks := by
  unfold TimerCommand.Sized at command
  unfold Timer.Sized at sized ⊢
  cases orders with
  | rejected | stopped => exact sized
  | armed =>
    unfold Board.armed
    split <;> grind
  | reset => grind
  | written cmd => grind

theorem Board.Meets.sized (meets : Board.Meets polled now x x') (sized : x.Sized now) : x'.Sized now := by
  unfold Timer.Sized at sized ⊢
  cases meets with
  | passed | oneShot => exact sized
  | reload active idle due periodic => exact ⟨by dsimp only [Timer.reload]; omega,sized.2⟩

namespace TimerHost

variable {h h' : TimerHost threads} {size : Nat}

-- The tick from which the deadlines are at most WAIT_INFINITE away.
def horizon (h : TimerHost threads) : Int :=
  match h.tick with
  | .scanning (_ :: _) _ => h.now
  | _ => h.ticks

structure Sized (h : TimerHost threads) : Prop where
  clock : 0 ≤ h.ticks ∧ h.now ≤ h.ticks
  timers : ∀ t,(h.board.timers t).Sized h.horizon
  commands : ∀ c ∈ h.commands,c.Sized h.ticks
  pushing : ∀ k c,(h.stages k).pushes = some c → c.Sized h.ticks

theorem pushCommand_pushes (pushing : ((h.pushCommand k c blocking accepted).stages k).pushes = some c') : c' = c := by
  unfold pushCommand at pushing
  split at pushing
  · split at pushing
    · simp_all [setStage,Stage.pushes]
    · split at pushing <;> simp_all [setStage,Stage.pushes]
  · simp [setStage,Stage.pushes] at pushing

theorem request_sized (positive : 0 ≤ h.ticks) (asserted : r.asserted = true)
    (pushing : ((h.request k mayWait r).stages k).pushes = some c) : c.Sized h.ticks := by
  have stays : ∀ result info,((h.setStage k (.returned result info)).stages k).pushes ≠ some c := by simp [setStage,Stage.pushes]
  have pushes := @pushCommand_pushes _ h
  have infinite := waitInfinite_gt
  unfold TimerCommand.Sized
  cases r <;> grind [request,execute,Request.asserted]

theorem step_clock (taken : HostStep size h e h') (clock : h.now ≤ h.ticks) :
    h.ticks ≤ h'.ticks ∧ h'.now ≤ h'.ticks ∧ h.horizon ≤ h'.horizon := by
  cases taken <;> simp_all [scan,setStage,horizon] <;> grind

theorem Sized.step (sized : h.Sized) (asserted : e.asserted = true) (stepped : h.step size e = some h') : h'.Sized := by
  have taken := step_inv stepped
  obtain ⟨forward,clock,horizon⟩ := step_clock taken sized.clock.2
  have later : ∀ {c : TimerCommand threads},c.Sized h.ticks → c.Sized h'.ticks := fun sized => ⟨le_trans sized.1 forward,sized.2⟩
  have farther : ∀ {x : Timer},x.Sized h.horizon → x.Sized h'.horizon := fun sized => ⟨by have := sized.1; omega,sized.2⟩
  refine ⟨⟨le_trans sized.clock.1 forward,clock⟩,fun t => ?_,fun c member => later ?_,fun k c pushing => later ?_⟩
  · by_cases ticks : e = .tickTask
    · subst ticks
      cases taken with
      | @execute sleep since c rest u board next r at_ read on done info =>
        obtain ⟨x,orders,timers⟩ := Board.execute_timers done
        have now : h.horizon = h.ticks := by rw [TimerHost.horizon,at_]
        rw [show board.timers = _ from timers]
        refine farther ?_
        by_cases own : t = u
        · subst own
          rw [Function.update_self,now]
          exact orders.sized (sized.commands c (by simp [read])) (now ▸ sized.timers t)
        · rw [Function.update_of_ne own]
          exact sized.timers t
      | release at_ read on cmd polled =>
        refine farther ?_
        unfold Board.release
        dsimp only
        split <;> exact sized.timers t
      | @visit u rest sleep board next at_ visited =>
        obtain ⟨x,meets,timers⟩ := Board.visit_timers visited
        have now : h.horizon = h.now := by rw [TimerHost.horizon,at_]
        rw [show board.timers = _ from timers]
        refine farther ?_
        by_cases own : t = u
        · subst own
          rw [Function.update_self,now]
          exact meets.sized (now ▸ sized.timers t)
        · rw [Function.update_of_ne own]
          exact sized.timers t
      | fail _ _ _ _ cause => simp at cause
      | _ => exact farther (sized.timers t)
    · rw [step_field taken ticks (Timer.Sized h'.horizon) (fun _ => rfl) fun _ _ => rfl]
      exact farther (sized.timers t)
  · exact (taken.traffic.member member).elim (sized.commands c) fun ⟨k,pushes⟩ => sized.pushing k c pushes
  · rcases taken.traffic.pushes pushing with before | ⟨r,mayWait,rfl,-⟩
    · exact sized.pushing k c before
    · simp only [TimerHost.step] at stepped
      split at stepped
      · cases stepped
        exact request_sized sized.clock.1 asserted pushing
      · cases stepped

-- A timer that a scan has just examined or reloaded expires after the scan, if an expired
-- periodic timer is found less than one period late.
theorem scan_leaves_deadlines_ahead
    (run : Run (TimerHost.step size) (fun _ e => e.asserted = true) ({} : TimerHost threads) h)
    (scans : h.tick = .scanning (t :: rest) sleep) (active : (h.board.timers t).active = true)
    (idle : (h.board.timers t).pending = false)
    (caught : (h.board.timers t).period ≠ 0 → h.now < (h.board.timers t).deadline + (h.board.timers t).period)
    (taken : h.step size .tickTask = some h') (still : (h'.board.timers t).active = true) :
    h.now < (h'.board.timers t).deadline ∧ 0 < Board.castTimeout ((h'.board.timers t).deadline - h.now) := by
  have sized : h.Sized := run.keeps (I := Sized) ⟨⟨le_refl _,le_refl _⟩,by simp [Timer.Sized,waitInfinite,horizon],by simp,by simp [Stage.pushes]⟩
    fun _ _ _ sized asserted taken => sized.step asserted taken
  have timer := sized.timers t
  rw [horizon,scans] at timer
  simp only [step,tickTask,scans] at taken
  obtain ⟨⟨board,next⟩,visited,rfl⟩ := of_return taken
  obtain ⟨x,meets,timers⟩ := Board.visit_timers visited
  have far := (meets.sized timer).1
  have own : board.timers t = x := by rw [timers,Function.update_self]
  rw [show board.timers t = x from own] at still ⊢
  have ahead : h.now < x.deadline := by
    cases meets with
    | passed why => exact (why active).resolve_left (by simp [idle])
    | reload _ _ due periodic => exact caught periodic
    | oneShot => cases still
  refine ⟨ahead,?_⟩
  rw [Board.castTimeout_fits (by omega) (by omega)]
  omega

def foundInTime : List (HostEvent 1) :=
  [.initializeTasks true,.call (.task 0) (.start 0 1 1) true,.write (.task 0) true,.tickTask,.tickTask,.time,.tickTask]

theorem foundInTime_ahead : ∃ h : TimerHost 1,exec (TimerHost.step 32) {} foundInTime = some h ∧
    ∃ h',h.step 32 .tickTask = some h' ∧ h.now < (h'.board.timers 0).deadline := by
  refine exec_shows (P := fun h : TimerHost 1 => h.tick = .scanning [0] waitInfinite ∧ (h.board.timers 0).active = true ∧
    (h.board.timers 0).pending = false ∧ h.now < (h.board.timers 0).deadline + ((h.board.timers 0).period : Int) ∧
    ∃ h',h.step 32 .tickTask = some h' ∧ (h'.board.timers 0).active = true) (by decide) ?_
  intro h ran found
  obtain ⟨scans,active,idle,caught,h',taken,still⟩ := found
  have run := Run.ofExecAllowed (fun _ e => e.asserted) (by decide) ran
  exact ⟨h',taken,(scan_leaves_deadlines_ahead run scans active idle (fun _ => caught) taken still).1⟩

-- A scan that comes a tick too late reloads the timer with the time of the scan itself.
def foundLate : List (HostEvent 1) :=
  [.initializeTasks true,.call (.task 0) (.start 0 1 1) true,.write (.task 0) true,.tickTask,.tickTask,.time,.time,.tickTask]

theorem foundLate_due : ∃ h : TimerHost 1,Run (TimerHost.step 32) (fun _ e => e.asserted = true) {} h ∧ h.polled = false ∧
    h.tick = .scanning [0] waitInfinite ∧ (h.board.timers 0).pending = false ∧ (h.board.timers 0).period = 1 ∧ h.now = 2 ∧
      ∃ h',h.step 32 .tickTask = some h' ∧ (h'.board.timers 0).active = true ∧ (h'.board.timers 0).deadline = 2 := by
  have checked : execAllowed (TimerHost.step 32) (fun _ e => e.asserted) ({} : TimerHost 1) foundLate = true := by decide
  exact Run.foundAllowed foundLate (by decide) checked

end TimerHost
end SuperTinyKernel.Time
