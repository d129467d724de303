import SuperTinyKernel.Timers.Stopping

namespace SuperTinyKernel.Time

open Transition

-- The commands that make the tick task scan again: they set next_sleep to NO_WAIT.
def TimerCommand.rescans (c : TimerCommand threads) (x : Timer) : Bool :=
  match c.cmd with
  | .restart | .startOrReset => true
  | .start | .activate => !x.active
  | .reset => x.active && decide (x.period ≠ 0)
  | _ => false

-- The deadline a scan leaves: an expired periodic timer is reloaded.
def Timer.upcoming (x : Timer) (now : Int) : Int :=
  if 0 ≤ now - x.deadline ∧ x.period ≠ 0 then x.deadline + x.period else x.deadline

-- A wait of `sleep` ticks from `now` on ends in time.
def InTime (now sleep deadline : Int) : Prop := sleep = noWait ∨ sleep ≠ waitInfinite ∧ now + sleep ≤ deadline

theorem InTime.shorter (before : InTime now sleep deadline) (positive : 0 ≤ next) (shorter : next ≤ sleep)
    (finite : sleep ≤ waitInfinite) : InTime now next deadline := by
  unfold InTime noWait waitInfinite at *
  omega

namespace Board

variable {b b' : Board}

-- A distance that fits Timeout and is not taken for WAIT_INFINITE.
def Fits (left : Int) : Prop := -2147483648 ≤ left ∧ left < waitInfinite

theorem castTimeout_fits (low : -2147483648 ≤ left) (high : left ≤ waitInfinite) : castTimeout left = left := by
  unfold waitInfinite at high
  unfold castTimeout
  rw [Int.bmod_eq_of_le] <;> omega

theorem nextSleep_le (positive : 0 ≤ sleep) (left : Int) : 0 ≤ nextSleep sleep left ∧ nextSleep sleep left ≤ sleep := by
  unfold nextSleep noWait
  simp only
  split <;> split <;> omega

theorem nextSleep_inTime (positive : 0 ≤ sleep) (fits : Fits (deadline - now)) :
    InTime now (nextSleep sleep (deadline - now)) deadline := by
  have high := fits.2
  unfold nextSleep InTime
  rw [castTimeout_fits fits.1 (le_of_lt high)]
  unfold waitInfinite at high ⊢
  unfold noWait
  simp only
  split <;> split <;> omega

theorem execute_sleep {c : TimerCommand threads} (done : b.execute polled c t sleep = some (b',next,r)) :
    next = noWait ∨ next = sleep ∧ c.rescans (b.timers t) = false ∧
      ∀ u ∈ b'.active,u ∈ b.active ∧ (b'.timers u).deadline = (b.timers u).deadline := by
  cases execute_inv done with
  | armed | reset => exact .inl rfl
  | rejected cmd unfit active rest =>
    rcases rest with ⟨rfl,other⟩ | rfl
    · refine .inr ⟨rfl,?_,fun u member => ⟨member,rfl⟩⟩
      unfold TimerCommand.rescans
      grind
    · exact .inl rfl
  | stopped cmd =>
    refine .inr ⟨rfl,by simp [TimerCommand.rescans,cmd],fun u member => ⟨?_,?_⟩⟩
    · have before : u ∈ b.active.erase t := by simpa [unlink] using member
      exact List.mem_of_mem_erase before
    · rw [unlink_timers,cancelPending_timers,modify_field Timer.deadline rfl]
      exact modify_field Timer.deadline rfl u
  | written cmd =>
    refine .inr ⟨rfl,?_,fun u member => ⟨member,modify_field Timer.deadline rfl u⟩⟩
    rcases cmd with ⟨cmd,_⟩ | ⟨cmd,_⟩ <;> simp [TimerCommand.rescans,cmd]

theorem handOver_active (handed : b.handOver polled t = some b') : b'.active = b.active := by
  unfold handOver at handed
  split at handed
  · cases handed; rfl
  · obtain ⟨-,rfl⟩ := linkReady_some handed
    rfl

theorem visit_sleep (listed : b.Listed) (visited : b.visit polled now t sleep = some (b',next)) (positive : 0 ≤ sleep)
    (idle : (b.timers t).active = true → (b.timers t).pending = false)
    (fits : (b.timers t).active = true → now < (b.timers t).deadline ∨ (b.timers t).period ≠ 0 →
      Fits ((b.timers t).upcoming now - now)) :
    (0 ≤ next ∧ next ≤ sleep) ∧ (∀ u,u ≠ t → (b'.timers u).deadline = (b.timers u).deadline) ∧
      (t ∈ b'.active → InTime now next (b'.timers t).deadline) := by
  obtain ⟨x,-,timers⟩ := visit_timers visited
  have others : ∀ u,u ≠ t → (b'.timers u).deadline = (b.timers u).deadline := fun u other => by
    rw [timers,Function.update_of_ne other]
  cases visit_inv visited with
  | pending active pending =>
    rw [idle active] at pending
    cases pending
  | ahead active _ ahead =>
    have same : (b.timers t).upcoming now = (b.timers t).deadline := by
      unfold Timer.upcoming
      rw [if_neg (by omega)]
    exact ⟨nextSleep_le positive _,others,fun _ => nextSleep_inTime positive (same ▸ fits active (.inl ahead))⟩
  | reload active idle due periodic hands =>
    have reload : (b'.timers t).deadline = (b.timers t).upcoming now := by
      rw [handOver_timers rfl hands,Function.update_self,Timer.reload,Timer.upcoming,if_pos ⟨by omega,periodic⟩]
    exact ⟨nextSleep_le positive _,others,fun _ => nextSleep_inTime positive (reload ▸ fits active (.inr periodic))⟩
  | oneShot active _ due single hands =>
    refine ⟨⟨positive,le_refl _⟩,others,fun member => ?_⟩
    rw [handOver_active hands] at member
    exact absurd (listed.active.mem_erase_iff.mp member).1 (by simp)
  | unlink => exact ⟨⟨positive,le_refl _⟩,others,fun member => absurd (listed.active.mem_erase_iff.mp member).1 (by simp)⟩

end Board

namespace TimerHost

variable {h h' : TimerHost threads} {size : Nat}

-- A scan finds no expiration that a handler has not claimed yet and no deadline as far away as
-- WAIT_INFINITE, and a Read() that blocks starts in the tick of the scan.
def Prompt (h : TimerHost threads) (e : HostEvent threads) : Prop :=
  e = .tickTask → match h.tick with
    | .scanning (t :: _) _ => (h.board.timers t).active = true → (h.board.timers t).pending = false ∧
        (h.now < (h.board.timers t).deadline ∨ (h.board.timers t).period ≠ 0 → Board.Fits ((h.board.timers t).upcoming h.now - h.now))
    | .scanning [] sleep => h.commands = [] → h.board.active ≠ [] → sleep ≠ noWait → h.ticks = h.now
    | .reading sleep _ => ∀ c t,h.commands = [c] → c.timer = some t → c.rescans (h.board.timers t) = false →
        h.board.active ≠ [] → sleep ≠ noWait → h.ticks = h.now
    | _ => True

-- next_sleep counts from m_now, and a blocked Read() has started then.
structure Punctual (h : TimerHost threads) : Prop where
  scanning : ∀ rest sleep,h.tick = .scanning rest sleep → (0 ≤ sleep ∧ sleep ≤ waitInfinite) ∧
    ∀ t ∈ h.board.active,t ∉ rest → InTime h.now sleep (h.board.timers t).deadline
  reading : ∀ sleep since,h.tick = .reading sleep since →
    (∀ t ∈ h.board.active,InTime h.now sleep (h.board.timers t).deadline) ∧
      (h.commands = [] → h.board.active ≠ [] → sleep ≠ noWait → since = h.now)

theorem Punctual.frame (punctual : h.Punctual) (tick : h'.tick = h.tick) (now : h'.now = h.now)
    (commands : h'.commands = [] → h.commands = []) (active : h'.board.active = h.board.active)
    (deadlines : ∀ t,(h'.board.timers t).deadline = (h.board.timers t).deadline) : h'.Punctual := by
  refine ⟨fun rest sleep at_ => ?_,fun sleep since at_ => ?_⟩
  · rw [tick] at at_
    simpa only [now,active,deadlines] using punctual.scanning rest sleep at_
  · rw [tick] at at_
    obtain ⟨inTime,fresh⟩ := punctual.reading sleep since at_
    refine ⟨by simpa only [now,active,deadlines] using inTime,fun empty some => ?_⟩
    rw [now]
    exact fresh (commands empty) (active ▸ some)

theorem reverted_field {α : Type} (g : Timer → α) (merged : ∀ x v,g {x with rearming := v} = g x) (t : TimerId) :
    g ((h.reverted c).timers t) = g (h.board.timers t) := by
  unfold reverted
  split
  · rfl
  · exact (Board.modify_field (b := h.board) (f := fun x => {x with rearming := false}) g (merged _ _) t :)

theorem step_field {α : Type} (taken : HostStep size h e h') (other : e ≠ .tickTask) (g : Timer → α)
    (handled : ∀ x,g {x with pending := false} = g x) (merged : ∀ x v,g {x with rearming := v} = g x) (t : TimerId) :
    g (h'.board.timers t) = g (h.board.timers t) := by
  cases taken with
  | claim => exact (Board.modify_field (b := h.board.popReady _) (f := fun x => {x with pending := false}) g (handled _) t :)
  | pushRearm => exact (Board.modify_field (b := h.board) (f := fun x => {x with rearming := true}) g (merged _ _) t :)
  | fail => exact reverted_field g merged t
  | execute | release | leave | visit | read | processed | close | unlink => exact absurd rfl other
  | _ => rfl

theorem Punctual.step (punctual : h.Punctual) (scanned : h.Scanned) (prompt : h.Prompt e) (taken : HostStep size h e h') :
    h'.Punctual := by
  have again := taken
  cases taken with
  | start vacant => exact ⟨by rintro rest sleep ⟨⟩; exact ⟨by decide,fun _ _ _ => .inl rfl⟩,by rintro sleep since ⟨⟩⟩
  | startPolled vacant => exact ⟨by rintro rest sleep ⟨⟩,by rintro sleep since ⟨⟩⟩
  | process polled idle =>
    refine ⟨by rintro rest sleep ⟨⟩,?_⟩
    rintro sleep since ⟨⟩
    exact ⟨fun _ _ => .inl rfl,fun _ _ waits => absurd rfl waits⟩
  | @execute sleep since c rest t board next r at_ read on done info =>
    refine ⟨by rintro rest sleep ⟨⟩,?_⟩
    rintro _ _ ⟨⟩
    obtain ⟨inTime,-⟩ := punctual.reading sleep since at_
    rcases Board.execute_sleep done with rescans | ⟨rfl,keeps,nearer⟩
    · exact ⟨fun _ _ => .inl rescans,fun _ _ waits => absurd rescans waits⟩
    · refine ⟨fun u member => ?_,fun (last : rest = []) some waits => ?_⟩
      · obtain ⟨before,same⟩ := nearer u member
        rw [same]
        exact inTime u before
      · -- Some timer is active behind the command, so one was before it.
        obtain ⟨u,member⟩ := List.exists_mem_of_ne_nil _ some
        have prompt := prompt rfl
        rw [at_] at prompt
        exact prompt c t (by rw [read,last]) on keeps (List.ne_nil_of_mem (nearer u member).1) waits
  | @release sleep since c rest at_ read on cmd polled =>
    refine ⟨by rintro rest sleep ⟨⟩,?_⟩
    simp [Board.release]
  | scan at_ empty e cause =>
    refine ⟨?_,by rintro sleep since ⟨⟩⟩
    rintro rest sleep ⟨⟩
    exact ⟨by decide,fun t member out => absurd member out⟩
  | @visit t rest sleep board next at_ visited =>
    refine ⟨?_,by rintro sleep since ⟨⟩⟩
    rintro _ _ ⟨⟩
    obtain ⟨bounds,inTime⟩ := punctual.scanning _ _ at_
    have prompt := prompt rfl
    simp only [at_] at prompt
    obtain ⟨shorter,others,own⟩ := Board.visit_sleep scanned.listed visited bounds.1
      (fun active => (prompt active).1) fun active => (prompt active).2
    obtain ⟨-,places,-⟩ := Board.visit_place scanned.listed visited
    refine ⟨⟨shorter.1,le_trans shorter.2 bounds.2⟩,fun u member out => ?_⟩
    by_cases here : u = t
    · subst here; exact own member
    · have before : u ∈ h.board.active := (congrArg Place.linked (places u here)).mp member
      rw [show (board.timers u).deadline = (h.board.timers u).deadline from others u here]
      exact (inTime u before (by simp [here,out])).shorter shorter.1 shorter.2 bounds.2
  | @read sleep at_ tasks =>
    refine ⟨by rintro rest sleep ⟨⟩,?_⟩
    rintro sleep' since ⟨⟩
    obtain ⟨-,inTime⟩ := punctual.scanning _ _ at_
    by_cases empty : h.board.active = []
    · simp [empty]
    · have some : h.board.active.isEmpty = false := by simpa using empty
      simp only [some,Bool.false_eq_true,↓reduceIte]
      have prompt := prompt rfl
      simp only [at_] at prompt
      exact ⟨fun t member => inTime t member (by simp),fun last _ waits => prompt last empty waits⟩
  | leave | processed | close | unlink => exact ⟨by rintro rest sleep ⟨⟩,by rintro sleep since ⟨⟩⟩
  | claim | pushRearm =>
    exact punctual.frame rfl rfl id rfl (step_field again (fun same => (by cases same)) Timer.deadline (fun _ => rfl) fun _ _ => rfl)
  | write pushing room next waits => exact punctual.frame rfl rfl (fun empty => by simp [setStage] at empty) rfl fun _ => rfl
  | fail pushing full res e cause =>
    exact punctual.frame rfl rfl id reverted_active (reverted_field Timer.deadline fun _ _ => rfl)
  | _ => exact punctual.frame rfl rfl id rfl fun _ => rfl

-- A blocked tick task wakes up by the deadline of every active timer, in every run of prompt
-- steps.
theorem wakes_in_time
    (run : Run (TimerHost.step size) (fun h e => h.Prompt e) ({} : TimerHost threads) h)
    (blocked : h.tick = .reading sleep since) (empty : h.commands = []) (waits : sleep ≠ noWait) (active : t ∈ h.board.active) :
    sleep ≠ waitInfinite ∧ since + sleep ≤ (h.board.timers t).deadline := by
  obtain ⟨-,punctual⟩ := run.keeps (I := fun h => h.Scanned ∧ h.Punctual)
    ⟨⟨⟨List.nodup_nil,List.nodup_nil⟩,by simp⟩,⟨by simp,by simp⟩⟩
    fun _ _ _ before prompt taken => ⟨before.1.step (step_inv taken),before.2.step before.1 prompt (step_inv taken)⟩
  obtain ⟨inTime,fresh⟩ := punctual.reading sleep since blocked
  have started := fresh empty (List.ne_nil_of_mem active) waits
  rcases inTime t active with none | timely
  · exact absurd none waits
  · rwa [← started] at timely

def claimedInTime : List (HostEvent 1) :=
  [.initializeTasks true,.call (.task 0) (.start 0 2 2) true,.write (.task 0) true,.tickTask,.tickTask,.tickTask,.tickTask,.tickTask,
    .time,.time,.tickTask,.tickTask,.tickTask,.claim soleHandler,.finish soleHandler]

theorem claimedInTime_wakes : ∃ h : TimerHost 1,exec (TimerHost.step 32) {} claimedInTime = some h ∧
    h.tick = .reading 2 2 ∧ 2 + 2 ≤ (h.board.timers 0).deadline := by
  have ran : (exec (TimerHost.step 32) ({} : TimerHost 1) claimedInTime).map
      (fun h => (h.tick,h.commands,h.board.active)) = some (.reading 2 2,[],[0]) := by decide
  obtain ⟨h,ran,seen⟩ := of_map ran
  simp only [Prod.mk.injEq] at seen
  have run : Run (TimerHost.step 32) (fun h e => h.Prompt e) ({} : TimerHost 1) h := by
    refine (Run.ofExecAllowed (fun h e => decide (e ≠ .tickTask) || match h.tick with
        | .scanning (t :: _) _ => !(h.board.timers t).pending &&
            decide (0 ≤ (h.board.timers t).upcoming h.now - h.now ∧ (h.board.timers t).upcoming h.now - h.now ≤ 2)
        | .scanning [] _ => h.board.active.isEmpty || decide (h.ticks = h.now)
        | .reading _ _ => h.commands.all fun c => c.timer.all fun t => c.rescans (h.board.timers t)
        | _ => true) (by decide) ran).weaken ?_
    rintro h e allowed rfl
    rcases tick : h.tick with _ | ⟨sleep,since⟩ | ⟨_ | ⟨t,rest⟩,sleep⟩ | _ | _ | _ <;> simp [tick] at allowed ⊢
    · intro c t last on keeps
      simp [last,on,keeps] at allowed
    · intro _ some
      exact fun _ => allowed.resolve_left some
    · intro _
      refine ⟨allowed.1,fun _ => ?_⟩
      unfold Board.Fits waitInfinite
      omega
  exact ⟨h,ran,seen.1,(wakes_in_time run seen.1 seen.2.1 (by decide) (t := 0) (by simp [seen.2.2])).2⟩

-- The handler claims an expiration after the next scan, which left its timer out and found no
-- other: the tick task waits without end.
def claimedLate : List (HostEvent 1) :=
  [.initializeTasks true,.call (.task 0) (.start 0 2 2) true,.write (.task 0) true,.tickTask,.tickTask,.tickTask,.tickTask,.tickTask,
    .time,.time,.tickTask,.tickTask,.tickTask,.time,.time,.tickTask,.tickTask,.tickTask,.claim soleHandler,.finish soleHandler]

theorem claimedLate_sleeps : ∃ h : TimerHost 1,Run (TimerHost.step 32) (fun _ _ => True) {} h ∧
    h.tick = .reading waitInfinite 4 ∧ h.commands = [] ∧ h.board.readyList = [] ∧ h.handlers 0 = .looping ∧
      0 ∈ h.board.active ∧ (h.board.timers 0).active = true ∧ (h.board.timers 0).period = 2 ∧ (h.board.timers 0).deadline = 4 := by
  exact Run.found claimedLate (by decide)

end TimerHost
end SuperTinyKernel.Time
