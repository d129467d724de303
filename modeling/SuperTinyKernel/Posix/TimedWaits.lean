import SuperTinyKernel.Posix.Time
import SuperTinyKernel.Sync.Wait

set_option linter.unusedSectionVars false

namespace SuperTinyKernel.Posix.TimedWaits

open Monitor Transition

-- The timed calls of the POSIX layer and clock_nanosleep(TIMER_ABSTIME), with the clock
-- running on between any two steps. An object becomes free or busy, and its waiters are woken,
-- at any time.

inductive Function where
  | mutexTimedlock | condTimedwait | rwlockTimedrdlock | rwlockTimedwrlock | semTimedwait | timedjoin
  | mqTimedsend | mqTimedreceive
  deriving DecidableEq,Repr

inductive Request (K : Type) where
  | timed (f : Function) (k : K) (abstime : Timespec)
  | clockNanosleep (req : Timespec)
  | set (k : K) (free : Bool)
  | wakeOne (k : K)
  | wakeAll (k : K)
  deriving DecidableEq,Repr

-- `converting` and `mqLooping` are in front of TimespecToRelativeTimeout, `calling`,
-- `mqArming` and `sleepStarting` behind it, the others in the wait, the sleep or the loop of
-- an RWMutex.
inductive Rest (K : Type) where
  | converting (f : Function) (k : K) (abstime : Timespec)
  | calling (f : Function) (k : K) (abstime : Timespec) (timeout : Int)
  | waiting (f : Function) (k : K) (abstime : Timespec)
  | locking (f : Function) (k : K) (abstime : Timespec) (budget : Budget)
  | mqLooping (k : K) (abstime : Timespec)
  | mqArming (k : K) (abstime : Timespec) (timeout : Int)
  | mqWaiting (k : K) (abstime : Timespec)
  | sleepConverting (req : Timespec)
  | sleepStarting (remaining : Int)
  | sleepCalling (remaining start : Int)
  | sleepEnded (remaining chunk start : Int)
  deriving DecidableEq,Repr

inductive Answer where
  | ok | etimedout | einval | eintr
  deriving DecidableEq,Repr

structure State (K : Type) where
  free : K → Bool

abbrev Sect (K : Type) := Section (State K) (Option K) (Rest K) Answer Unit
abbrev System (T K : Type) := Hall T (Request K) (State K) (Option K) (Rest K) Answer Unit

variable {T K : Type} [DecidableEq K] {res : Nat} {s : State K} {sec : Sect K}

def returns (s : State K) (a : Answer) : Sect K := {shared := s,ending := .done a}

def Function.checks : Function → Bool
  | .semTimedwait | .timedjoin | .mqTimedsend | .mqTimedreceive => true
  | .mutexTimedlock | .condTimedwait | .rwlockTimedrdlock | .rwlockTimedwrlock => false

-- What follows on the result of a wait. The locks and pthread_timedjoin_np repeat a cancelled
-- one with the time left.
def finish (s : State K) (f : Function) (k : K) (abstime : Timespec) : Wakeup → Sect K
  | .signal => returns s .ok
  | .timeout => returns s .etimedout
  | .fail => returns s .einval
  | .canceled =>
    match f with
    | .condTimedwait => returns s .ok
    | .semTimedwait => returns s .eintr
    | _ => {shared := s,ending := .pause (.converting f k abstime)}

def lockLoop (env : Ambient) (s : State K) (f : Function) (k : K) (abstime : Timespec) (budget : Budget) : Option (Sect K) :=
  if s.free k then some (returns s .ok)
  else waitEx env (some k) (budget.remaining env.now) (.locking f k abstime budget) s fun wr => some (finish s f k abstime wr)

-- TimedLockEx of a mutex, WaitEx of a semaphore and of done_event; a condition variable is
-- never free.
def call (env : Ambient) (s : State K) (f : Function) (k : K) (abstime : Timespec) (timeout : Int) : Option (Sect K) :=
  match f with
  | .rwlockTimedrdlock | .rwlockTimedwrlock => lockLoop env s f k abstime (.of env.now timeout)
  | _ =>
    if f ≠ .condTimedwait ∧ s.free k = true then some (returns s .ok)
    else waitEx env (some k) timeout (.waiting f k abstime) s fun wr => some (finish s f k abstime wr)

def mqLoop (res : Nat) (env : Ambient) (s : State K) (k : K) (abstime : Timespec) : Option (Sect K) :=
  if s.free k then some (returns s .ok)
  else (timespecToRelativeTimeout res env.now abstime).map fun timeout =>
    if timeout = noWait then returns s .etimedout else {shared := s,ending := .pause (.mqArming k abstime timeout)}

def chunkMax : Int := waitInfinite - 1

def sleepLoop (s : State K) (remaining : Int) : Sect K :=
  if 0 < remaining then {shared := s,ending := .pause (.sleepStarting remaining)} else returns s .ok

def sleep (env : Ambient) (s : State K) (remaining start : Int) : Sect K :=
  let chunk := min remaining chunkMax
  if env.refused then {shared := s,ending := .pause (.sleepEnded remaining chunk start)}
  else {shared := s,ending := .wait none (some chunk.toNat) (.sleepEnded remaining chunk start)}

def slept (env : Ambient) (s : State K) (remaining chunk start : Int) : Sect K :=
  if chunk ≤ env.now - start then sleepLoop s (remaining - chunk) else returns s .eintr

def enter (_ : Ambient) (s : State K) : Request K → Option (Sect K)
  | .timed f k abstime =>
    if f.checks && !isValidTimespec abstime then some (returns s .einval)
    else match f with
      | .mqTimedsend | .mqTimedreceive => some {shared := s,ending := .pause (.mqLooping k abstime)}
      | _ => some {shared := s,ending := .pause (.converting f k abstime)}
  | .clockNanosleep req =>
    if isValidTimespec req = true ∧ 0 ≤ req.sec then some {shared := s,ending := .pause (.sleepConverting req)}
    else some (returns s .einval)
  | .set k free => some (returns ⟨Function.update s.free k free⟩ .ok)
  | .wakeOne k => some {returns s .ok with notices := [.one (some k)]}
  | .wakeAll k => some {returns s .ok with notices := [.all (some k)]}

def resume (res : Nat) (env : Ambient) (s : State K) : Rest K → Wakeup → Option (Sect K)
  | .converting f k abstime,_ => (timespecToRelativeTimeout res env.now abstime).map fun timeout =>
    {shared := s,ending := .pause (.calling f k abstime timeout)}
  | .calling f k abstime timeout,_ => call env s f k abstime timeout
  | .waiting f k abstime,wr => some (finish s f k abstime wr)
  | .locking f k abstime budget,.signal => lockLoop env s f k abstime budget
  | .locking f k abstime _,wr => some (finish s f k abstime wr)
  | .mqLooping k abstime,_ => mqLoop res env s k abstime
  | .mqArming k abstime timeout,_ => waitEx env (some k) timeout (.mqWaiting k abstime) s fun _ => some (returns s .einval)
  | .mqWaiting k abstime,wr =>
    match wr with
    | .fail => some (returns s .einval)
    | .timeout => if s.free k then mqLoop res env s k abstime else some (returns s .etimedout)
    | .signal | .canceled => mqLoop res env s k abstime
  | .sleepConverting req,_ => (timespecToRelativeTimeout res env.now req).map fun left =>
    if left ≠ noWait then sleepLoop s left else returns s .ok
  | .sleepStarting remaining,_ => some {shared := s,ending := .pause (.sleepCalling remaining env.now)}
  | .sleepCalling remaining start,_ => some (sleep env s remaining start)
  | .sleepEnded remaining chunk start,_ => some (slept env s remaining chunk start)

def program (res : Nat) : Program (Request K) (State K) (Option K) (Rest K) Answer Unit := ⟨enter,resume res⟩

def initial (now : Int) (free : K → Bool) : System T K := {now := now,shared := ⟨free⟩}

def Request.abstime : Request K → Option Timespec
  | .timed _ _ ts | .clockNanosleep ts => some ts
  | .set _ _ | .wakeOne _ | .wakeAll _ => none

def Request.sleeps : Request K → Bool
  | .clockNanosleep _ => true
  | _ => false

def passed (sleeps : Bool) : Answer := if sleeps then .ok else .etimedout

variable [DecidableEq T] {h h' : System T K} {ts : Timespec}

def reached (res : Nat) (ts : Timespec) (ticks : Int) : Prop := ts.ns ≤ clockNs res ticks

theorem reached_later (done : reached res ts ticks) (later : ticks ≤ now) : reached res ts now := by
  have less : ticks * res ≤ now * res := Int.mul_le_mul_of_nonneg_right later (Int.natCast_nonneg res)
  unfold reached clockNs at done ⊢
  omega

def Covers (res : Nat) (ts : Timespec) (now timeout : Int) : Prop :=
  timeout = noWait ∧ reached res ts now ∨ 0 < timeout ∧ timeout < waitInfinite ∧ reached res ts (now + timeout)

theorem Covers.later (covers : Covers res ts now timeout) (later : now ≤ now') : Covers res ts now' timeout := by
  rcases covers with ⟨zero,passed⟩ | ⟨positive,finite,ahead⟩
  · exact .inl ⟨zero,reached_later passed later⟩
  · exact .inr ⟨positive,finite,reached_later ahead (by omega)⟩

structure Near (res : Nat) (since : Int) (ts : Timespec) : Prop where
  valid : isValidTimespec ts = true
  documented : ts.ns ≤ clockNs res since + int32Max * 1000000
  within : withinTimeout res since ts = true

theorem Near.covers (near : Near res since ts) (some : 0 < res) (start : 0 ≤ since) (later : since ≤ now)
    (made : timespecToRelativeTimeout res now ts = .some timeout) : Covers res ts now timeout := by
  rcases timespecToRelativeTimeout_some some (Int.le_trans start later) near.valid made with ⟨passed,zero⟩ | ⟨ahead,same⟩
  · exact .inl ⟨zero,reached_noWait passed⟩
  · have closer : distanceMs res now ts ≤ distanceMs res since ts := distanceMs_antitone later
    have within : withinTimeout res now ts = true := by
      have before := of_decide_eq_true near.within
      refine decide_eq_true ?_
      omega
    have documented : ts.ns ≤ clockNs res now + int32Max * 1000000 := by
      have less : since * res ≤ now * res := Int.mul_le_mul_of_nonneg_right later (Int.natCast_nonneg res)
      have before := near.documented
      unfold clockNs at before ⊢
      omega
    exact .inr (timeout_reaches some ahead within documented same)

def Runs (res : Nat) (ts : Timespec) (now : Int) (b : Budget) : Prop :=
  timedWait b.timeout = true ∧ reached res ts b.deadline ∧ b.deadline - now < waitInfinite

def Sure (res : Nat) (ts : Timespec) (now : Int) : Rest K → Prop
  | .converting _ _ t | .waiting _ _ t | .mqLooping _ t | .mqWaiting _ t | .sleepConverting t => t = ts
  | .calling _ _ t timeout => t = ts ∧ Covers res ts now timeout
  | .locking _ _ t budget => t = ts ∧ Runs res ts now budget
  | .mqArming _ t timeout => t = ts ∧ timeout ≠ noWait ∧ Covers res ts now timeout
  | .sleepStarting remaining => reached res ts (now + remaining)
  | .sleepCalling remaining start => reached res ts (start + remaining)
  | .sleepEnded remaining chunk start => chunk ≤ remaining ∧ reached res ts (start + remaining)

theorem Sure.later {rest : Rest K} (sure : Sure res ts now rest) (later : now ≤ now') : Sure res ts now' rest := by
  cases rest with
  | converting | waiting | mqLooping | mqWaiting | sleepConverting | sleepCalling | sleepEnded => exact sure
  | calling => exact ⟨sure.1,sure.2.later later⟩
  | locking f k abstime budget =>
    obtain ⟨same,timed,ahead,bound⟩ := sure
    exact ⟨same,timed,ahead,by omega⟩
  | mqArming => exact ⟨sure.1,sure.2.1,sure.2.2.later later⟩
  | sleepStarting remaining => exact reached_later sure (Int.add_le_add_right later remaining)

def Rest.sleeps : Rest K → Bool
  | .sleepConverting _ | .sleepStarting _ | .sleepCalling _ _ | .sleepEnded _ _ _ => true
  | _ => false

-- No wait ends before the deadline, and no answer says so before it.
inductive At (res : Nat) (ts : Timespec) (now : Int) (sleeps : Bool) : Monitor.Place (Option K) (Rest K) Answer → Prop where
  | waiting : rest.sleeps = sleeps → Sure res ts now rest → (sleeps = false → ∀ k : Nat,left = some k → reached res ts (now + k)) →
      At res ts now sleeps (.waiting c left rest)
  | due : rest.sleeps = sleeps → Sure res ts now rest → (sleeps = false → result = .timeout → reached res ts now) →
      At res ts now sleeps (.due c result rest)
  | paused : rest.sleeps = sleeps → Sure res ts now rest → At res ts now sleeps (.paused rest)
  | returned : (a = passed sleeps → reached res ts now) → At res ts now sleeps (.returned a)

theorem At.ticks (known : At res ts now sleeps x) (ticks : Monitor.Place.Ticks x y) : At res ts (now + 1) sleeps (y : Monitor.Place (Option K) (Rest K) Answer) := by
  have later : now ≤ now + 1 := by omega
  cases known with
  | waiting same sure ahead =>
    cases ticks with
    | on more =>
      refine .waiting same (sure.later later) fun awake k left => ?_
      obtain ⟨n,same,rfl⟩ := of_map left
      have long := more n same
      exact reached_later (ahead awake n same) (by omega)
    | out short => exact .due same (sure.later later) fun awake _ => reached_later (ahead awake _ rfl) (by omega)
  | due same sure late =>
    cases ticks
    exact .due same (sure.later later) fun awake timedOut => reached_later (late awake timedOut) later
  | paused same sure =>
    cases ticks
    exact .paused same (sure.later later)
  | returned => cases ticks

theorem finish_prompt (s : State K) (f : Function) (k : K) (done : wr = .timeout → reached res ts now) :
    At res ts now false (finish s f k ts wr).ending.place := by
  cases wr with
  | signal | fail => exact .returned nofun
  | timeout => exact .returned fun _ => done rfl
  | canceled =>
    unfold finish
    dsimp only
    split
    · exact .returned nofun
    · exact .returned nofun
    · exact .paused rfl rfl

theorem waitEx_prompt {rest : Rest K} {failed : Wakeup → Option (Sect K)} (awake : rest.sleeps = false)
    (sure : Sure res ts now rest) (covers : Covers res ts now timeout)
    (fails : ∀ wr sec,(wr = .timeout → reached res ts now) → failed wr = some sec → At res ts now false sec.ending.place)
    (taken : waitEx ⟨now,isr,refused⟩ c timeout rest s failed = some sec) : At res ts now false sec.ending.place := by
  rcases waitEx_cases taken with ⟨zero,taken⟩ | ⟨_,taken⟩ | ⟨more,same⟩
  · refine fails _ _ (fun _ => ?_) taken
    rcases covers with ⟨_,passed⟩ | ⟨positive,_,_⟩
    · exact passed
    · rw [zero] at positive
      exact absurd positive (by decide)
  · exact fails .fail _ nofun taken
  · rw [same]
    refine .waiting awake sure fun _ k left => ?_
    rcases covers with ⟨zero,_⟩ | ⟨positive,finite,ahead⟩
    · exact absurd zero more
    · rw [ticksLeft,if_neg (by omega)] at left
      cases left
      rwa [Int.toNat_of_nonneg (by omega)]

theorem Runs.covers {b : Budget} (runs : Runs res ts now b) : Covers res ts now (b.remaining now) := by
  obtain ⟨timed,ahead,bound⟩ := runs
  unfold Budget.remaining
  rw [if_pos timed]
  split
  · refine .inr ⟨by omega,bound,?_⟩
    rwa [show now + (b.deadline - now) = b.deadline by omega]
  · exact .inl ⟨rfl,reached_later ahead (by omega)⟩

theorem finish_fails (s : State K) (f : Function) (k : K) (wr : Wakeup) (sec : Sect K) (done : wr = .timeout → reached res ts now)
    (taken : some (finish s f k ts wr) = some sec) : At res ts now false sec.ending.place := by
  cases taken
  exact finish_prompt s f k done

theorem lockLoop_prompt (runs : Runs res ts now b) (taken : lockLoop ⟨now,isr,refused⟩ s f k ts b = some sec) :
    At res ts now false sec.ending.place := by
  unfold lockLoop at taken
  split at taken
  · cases taken
    exact .returned nofun
  · have sure : Sure res ts now (.locking f k ts b) := ⟨rfl,runs⟩
    exact waitEx_prompt rfl sure runs.covers (finish_fails s f k) taken

theorem lockLoop_noWait (zero : b.timeout = noWait) (done : reached res ts now)
    (taken : lockLoop ⟨now,isr,refused⟩ s f k ts b = some sec) : At res ts now false sec.ending.place := by
  have remaining : b.remaining now = noWait := by
    unfold Budget.remaining
    rw [if_neg (by simp [timedWait,zero]),zero]
  unfold lockLoop at taken
  split at taken
  · cases taken
    exact .returned nofun
  · rcases waitEx_cases taken with ⟨_,taken⟩ | ⟨more,_⟩ | ⟨more,_⟩
    · exact finish_fails s f k _ sec (fun _ => done) taken
    · exact absurd remaining more
    · exact absurd remaining more

theorem call_prompt (covers : Covers res ts now timeout) (taken : call ⟨now,isr,refused⟩ s f k ts timeout = some sec) :
    At res ts now false sec.ending.place := by
  have locks : lockLoop ⟨now,isr,refused⟩ s f k ts (.of now timeout) = some sec → At res ts now false sec.ending.place := by
    intro taken
    rcases covers with ⟨zero,done⟩ | ⟨positive,finite,ahead⟩
    · exact lockLoop_noWait zero done taken
    · have timed : timedWait timeout = true := decide_eq_true ⟨by omega,by unfold noWait; omega⟩
      refine lockLoop_prompt ⟨timed,?_,?_⟩ taken
      · rwa [Budget.of,if_pos timed]
      · rw [Budget.of,if_pos timed]
        dsimp only
        omega
  have waits : ∀ {free : Prop} [Decidable free],(if free then some (returns s .ok) else
      waitEx ⟨now,isr,refused⟩ (some k) timeout (.waiting f k ts) s fun wr => some (finish s f k ts wr)) = some sec →
        At res ts now false sec.ending.place := by
    intro free _ taken
    split at taken
    · cases taken
      exact .returned nofun
    · have sure : Sure res ts now (.waiting f k ts) := rfl
      exact waitEx_prompt rfl sure covers (finish_fails s f k) taken
  unfold call at taken
  split at taken
  · exact locks taken
  · exact locks taken
  · exact waits taken

theorem mqLoop_prompt (converts : ∀ timeout,timespecToRelativeTimeout res now ts = some timeout → Covers res ts now timeout)
    (taken : mqLoop res ⟨now,isr,refused⟩ s k ts = some sec) : At res ts now false sec.ending.place := by
  unfold mqLoop at taken
  split at taken
  · cases taken
    exact .returned nofun
  · obtain ⟨timeout,made,rfl⟩ := of_map taken
    have covers := converts timeout made
    split
    · rename_i zero
      refine .returned fun _ => ?_
      rcases covers with ⟨_,done⟩ | ⟨positive,_,_⟩
      · exact done
      · rw [zero] at positive
        exact absurd positive (by decide)
    · rename_i more
      exact .paused rfl ⟨rfl,more,covers⟩

theorem sleepLoop_prompt (s : State K) (ahead : reached res ts (now + remaining)) :
    At res ts now true (sleepLoop s remaining).ending.place := by
  unfold sleepLoop
  split
  · exact .paused rfl ahead
  · exact .returned fun _ => reached_later ahead (by omega)

theorem resume_prompt {rest : Rest K} (sure : Sure res ts now rest)
    (converts : ∀ timeout,timespecToRelativeTimeout res now ts = some timeout → Covers res ts now timeout)
    (late : result = .timeout → rest.sleeps = false → reached res ts now)
    (resumed : resume res ⟨now,false,refused⟩ s rest result = some sec) : At res ts now rest.sleeps sec.ending.place := by
  cases rest with
  | converting f k t =>
    cases sure
    obtain ⟨timeout,made,rfl⟩ := of_map resumed
    exact .paused rfl ⟨rfl,converts timeout made⟩
  | calling f k t timeout =>
    obtain ⟨rfl,covers⟩ := sure
    exact call_prompt covers resumed
  | waiting f k t =>
    cases sure
    cases resumed
    exact finish_prompt s f k fun timedOut => late timedOut rfl
  | locking f k t budget =>
    obtain ⟨rfl,runs⟩ := sure
    cases result with
    | signal => exact lockLoop_prompt runs resumed
    | timeout => exact finish_fails s f k _ sec (fun _ => late rfl rfl) resumed
    | canceled => exact finish_fails s f k .canceled sec nofun resumed
    | fail => exact finish_fails s f k .fail sec nofun resumed
  | mqLooping k t =>
    cases sure
    exact mqLoop_prompt converts resumed
  | mqArming k t timeout =>
    obtain ⟨rfl,more,covers⟩ := sure
    have sure : Sure res t now (.mqWaiting k t) := rfl
    have resumed : waitEx ⟨now,false,refused⟩ (some k) timeout (.mqWaiting k t) s (fun _ => some (returns s .einval)) = some sec := resumed
    refine waitEx_prompt rfl sure covers ?_ resumed
    intro wr sec _ taken
    cases taken
    exact .returned nofun
  | mqWaiting k t =>
    cases sure
    cases result with
    | signal | canceled => exact mqLoop_prompt converts resumed
    | fail =>
      cases resumed
      exact .returned nofun
    | timeout =>
      unfold resume at resumed
      dsimp only at resumed
      split at resumed
      · exact mqLoop_prompt converts resumed
      · cases resumed
        exact .returned fun _ => late rfl rfl
  | sleepConverting t =>
    cases sure
    obtain ⟨left,made,rfl⟩ := of_map resumed
    rcases converts left made with ⟨zero,done⟩ | ⟨positive,_,ahead⟩
    · rw [if_neg (not_not.mpr zero)]
      exact .returned fun _ => done
    · rw [if_pos (by unfold noWait; omega)]
      exact sleepLoop_prompt s ahead
  | sleepStarting remaining =>
    cases resumed
    exact .paused rfl sure
  | sleepCalling remaining start =>
    cases resumed
    have sure : Sure res ts now (.sleepEnded remaining (min remaining chunkMax) start : Rest K) := ⟨by omega,sure⟩
    unfold sleep
    split
    · exact .paused rfl sure
    · exact .waiting rfl sure nofun
  | sleepEnded remaining chunk start =>
    cases resumed
    obtain ⟨_,ahead⟩ := sure
    unfold slept
    dsimp only
    split
    · exact sleepLoop_prompt s (reached_later ahead (by omega))
    · exact .returned nofun

theorem enter_prompt (asked : r.abstime = some ts) (entered : enter env s r = some sec) :
    At res ts now r.sleeps sec.ending.place := by
  cases r with
  | timed f k t =>
    cases asked
    unfold enter at entered
    dsimp only at entered
    split at entered
    · cases entered
      exact .returned nofun
    · split at entered
      · cases entered
        exact .paused rfl rfl
      · cases entered
        exact .paused rfl rfl
      · cases entered
        exact .paused rfl rfl
  | clockNanosleep t =>
    cases asked
    unfold enter at entered
    dsimp only at entered
    split at entered
    · cases entered
      exact .paused rfl rfl
    · cases entered
      exact .returned nofun
  | set | wakeOne | wakeAll => cases asked

def Concerns (res : Nat) (call : Visit T (Request K) Unit) (ts : Timespec) : Prop :=
  call.request.abstime = some ts ∧ Near res call.since ts

def Known (res : Nat) (now : Int) (call : Visit T (Request K) Unit) (x : Monitor.Place (Option K) (Rest K) Answer) : Prop :=
  (0 ≤ call.since ∧ call.since ≤ now) ∧ ∀ ts,Concerns res call ts → At res ts now call.request.sleeps x

theorem Known.resumed {call : Visit T (Request K) Unit} (some : 0 < res) (known : Known res h.now call x)
    (resumes : Hall.Resumes h e call x rest result) (resumed : resume res ⟨h.now,false,refused⟩ h.shared rest result = .some sec)
    (concerns : Concerns res call ts) : At res ts h.now call.request.sleeps sec.ending.place := by
  have converts : ∀ timeout,timespecToRelativeTimeout res h.now ts = .some timeout → Covers res ts h.now timeout :=
    fun timeout made => concerns.2.covers some known.1.1 known.1.2 made
  cases resumes with
  | run =>
    cases known.2 ts concerns with
    | due same sure late =>
      rw [← same] at late ⊢
      exact resume_prompt sure converts (fun timedOut awake => late awake timedOut) resumed
  | proceed =>
    cases known.2 ts concerns with
    | paused same sure =>
      rw [← same]
      refine resume_prompt sure converts ?_ resumed
      nofun

structure Kept (res : Nat) (h : System T K) : Prop where
  clock : 0 ≤ h.now
  calls : Hall.Everywhere (Known res h.now) h

theorem Kept.step (some : 0 < res) (kept : Kept res h) (step : Hall.Step (program res) h e h') : Kept res h' := by
  refine ⟨?_,(step.sound (G := fun _ _ => True) trivial kept.calls ?_ ?_ ?_ ?_).2⟩
  · have clock := kept.clock
    cases step with
    | tick => exact Int.le_add_one clock
    | cancel => exact clock
    | _ => rwa [Hall.perform_now]
  · intro call x y ticks known
    exact ⟨⟨known.1.1,Int.le_add_one known.1.2⟩,fun ts concerns => (known.2 ts concerns).ticks ticks⟩
  · intro call c left result rest other known
    refine ⟨known.1,fun ts concerns => ?_⟩
    cases known.2 ts concerns with
    | waiting same sure => exact .due same sure fun _ late => absurd late other
  · intro t r isr refused sec _ entered
    refine ⟨trivial,⟨kept.clock,Int.le_refl _⟩,fun ts concerns => ?_⟩
    have entered : enter ⟨h.now,isr,refused⟩ h.shared r = .some sec := entered
    exact enter_prompt concerns.1 entered
  · intro call x rest result refused sec resumes known resumed
    refine ⟨trivial,known.1,fun ts concerns => ?_⟩
    have after := known.resumed some resumes resumed concerns
    exact after

theorem never_early (some : 0 < res) (begun : 0 ≤ now)
    (run : Run (Hall.step (program res)) (fun _ _ => True) (initial now free : System T K) h)
    (ended : h.returned = .some r) (asked : r.call.request.abstime = .some ts)
    (told : r.answer = passed r.call.request.sleeps) (valid : isValidTimespec ts = true)
    (documented : ts.ns ≤ clockNs res r.call.since + int32Max * 1000000)
    (within : withinTimeout res r.call.since ts = true) : ts.ns ≤ clockNs res h.now := by
  have kept : Kept res h := by
    refine run.keeps ⟨begun,.start rfl rfl⟩ ?_
    intro h e h' before _ stepped
    exact before.step some (Hall.step_inv stepped)
  cases (kept.calls.returned r ended).2 ts ⟨asked,valid,documented,within⟩ with
  | returned done => exact done told

def soon : Timespec := ⟨0,12500000⟩

def lockBusy (ts : Timespec) : List (Happening Nat (Request Unit)) :=
  [.call 0 (.timed .mutexTimedlock () ts) false false,.proceed 0 false,.proceed 0 false]

theorem lockBusy_on_time : ∃ h : System Nat Unit,
    exec (Hall.step (program 1000)) (initial 10 fun _ => false) (lockBusy soon ++ [.tick,.tick,.tick,.run 0 false]) = some h ∧
      h.returned = some ⟨⟨0,.timed .mutexTimedlock () soon,10,[]⟩,.etimedout⟩ ∧ h.now = 13 ∧ soon.ns ≤ clockNs 1000 h.now := by
  refine exec_shows (P := fun h => h.returned = some ⟨⟨0,.timed .mutexTimedlock () soon,10,[]⟩,.etimedout⟩ ∧ h.now = 13)
    (by decide +kernel) ?_
  intro h ran ⟨ended,now⟩
  exact ⟨ended,now,never_early (by decide) (by decide) (Run.ofExec ran) ended rfl rfl (by decide) (by decide) (by decide)⟩

def farthest : Timespec := ⟨2147483,647000000⟩

theorem farthest_too_early : ∃ (h : System Nat Unit) (r : Returned Nat (Request Unit) Answer Unit),
    Run (Hall.step (program 1000)) (fun _ _ => True) (initial 0 fun _ => false) h ∧ h.returned = some r ∧
      r.answer = .etimedout ∧ r.call.request.abstime = some farthest ∧ isValidTimespec farthest = true ∧
      farthest.ns ≤ clockNs 1000 r.call.since + int32Max * 1000000 ∧ clockNs 1000 h.now < farthest.ns := by
  have ran : (exec (Hall.step (program 1000)) (initial 0 fun _ => false) (lockBusy farthest)).map
      (fun h : System Nat Unit => (h.waiting,h.due.length,h.now)) =
        some ([⟨⟨0,.timed .mutexTimedlock () farthest,0,[]⟩,some (),some 2147483646,.waiting .mutexTimedlock () farthest⟩],0,0) := by
    decide +kernel
  obtain ⟨h,ran,shape⟩ := of_map ran
  simp only [Prod.mk.injEq] at shape
  obtain ⟨alone,nobody,zero⟩ := shape
  obtain ⟨h',waits,now,_,woken⟩ := Hall.ticks (program 1000) 2147483645 alone rfl
  rw [List.eq_nil_of_length_eq_zero nobody,List.nil_append] at woken
  have stepped : h'.step (program 1000) (.run 0 false) =
      some (Hall.perform {h' with due := []} ⟨0,.timed .mutexTimedlock () farthest,0,[]⟩ (returns h'.shared .etimedout)) := by
    unfold Hall.step
    rw [woken]
    rfl
  have documented : farthest.ns ≤ clockNs 1000 0 + int32Max * 1000000 := by decide
  refine ⟨_,_,.snoc ((Run.ofExec ran).trans waits) trivial stepped,rfl,rfl,rfl,by decide,documented,?_⟩
  rw [Hall.perform_now]
  show clockNs 1000 h'.now < farthest.ns
  rw [now,zero]
  decide

end SuperTinyKernel.Posix.TimedWaits
