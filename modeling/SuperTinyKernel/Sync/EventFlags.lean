import SuperTinyKernel.Sync.Wait

set_option linter.unusedSectionVars false

namespace SuperTinyKernel.EventFlags

open Monitor Transition List

-- sync::EventFlagsT over a word of any width.

variable {w : Nat}

def flagsMax : BitVec w := BitVec.allOnes w
def errorMask : BitVec w := ~~~((flagsMax : BitVec w) >>> 1)

def optWaitAll : BitVec 32 := 1#32
def optNoClear : BitVec 32 := 2#32

def errorParameter : BitVec w := errorMask ||| 1#w
def errorTimeout : BitVec w := errorMask ||| 2#w
def errorIsr : BitVec w := errorMask ||| 4#w
def errorCanceled : BitVec w := errorMask ||| 8#w
def errorFail : BitVec w := errorMask ||| 16#w

-- A context is the address of a SyncContext.
inductive Request (w : Nat) where
  | set (flags : BitVec w)
  | clear (flags : BitVec w)
  | and (mask : BitVec w)
  | wait (flags : BitVec w) (options : BitVec 32) (timeout : Int)
  | waitEx (flags : BitVec w) (options : BitVec 32) (timeout : Int)
  | sync (ctx : Nat) (setFlags waitFlags : BitVec w) (timeout : Int)
  deriving DecidableEq,Repr

structure SyncContext (w : Nat) where
  gen : BitVec 32 := 0#32
  snapshot : BitVec w := 0#w
  deriving DecidableEq,Repr

structure State (w : Nat) where
  flags : BitVec w := 0#w
  contexts : Nat → SyncContext w := fun _ => {}

inductive Cond where
  | changed
  deriving DecidableEq,Repr

-- A task in the loop of WaitCore, `plain` if called by Wait(), one in Sync() before its
-- critical section, and one in the loop of Sync().
inductive Rest (w : Nat) where
  | waiting (flags : BitVec w) (options : BitVec 32) (deadline : Deadline) (plain : Bool)
  | arriving (ctx : Nat) (setFlags waitFlags : BitVec w) (deadline : Deadline)
  | syncing (ctx : Nat) (waitFlags : BitVec w) (gen : BitVec 32) (deadline : Deadline)
  deriving DecidableEq,Repr

inductive Answer (w : Nat) where
  | word (value : BitVec w)
  | result (result : Wakeup) (actual : BitVec w)
  deriving DecidableEq,Repr

abbrev Sect (w : Nat) := Section (State w) Cond (Rest w) (Answer w) Empty
abbrev Flags (T : Type) (w : Nat) := Hall T (Request w) (State w) Cond (Rest w) (Answer w) Empty

def valid (flags : BitVec w) : Bool := decide (flags ≠ 0#w ∧ flags &&& errorMask = 0#w)

def isSatisfied (m flags : BitVec w) (options : BitVec 32) : Bool :=
  if options &&& optWaitAll = optWaitAll then decide (m &&& flags = flags) else decide (m &&& flags ≠ 0#w)

def matched (m flags : BitVec w) (options : BitVec 32) : BitVec w :=
  if options &&& optWaitAll = optWaitAll then flags else m &&& flags

def waitFailed (s : State w) (plain : Bool) (result : Wakeup) : Sect w :=
  let value :=
    match result with
    | .canceled => errorCanceled
    | .fail => errorFail
    | _ => errorTimeout
  {shared := s,ending := .done (if plain then .word value else .result result s.flags)}

def waitCore (env : Ambient) (s : State w) (flags : BitVec w) (options : BitVec 32) (deadline : Deadline) (plain : Bool) :
    Option (Sect w) :=
  let rest := if options &&& optNoClear = 0#32 then s.flags &&& ~~~matched s.flags flags options else s.flags
  waitWhile env (!isSatisfied s.flags flags options) .changed deadline (.waiting flags options deadline plain) s
    (fun result => some (waitFailed s plain result))
    (some {shared := {s with flags := rest},
           ending := .done (if plain then .word (matched s.flags flags options) else .result .signal s.flags)})

-- The loop of Sync(). The task that finds all flags set completes the rendezvous.
def syncLoop (env : Ambient) (s : State w) (ctx : Nat) (waitFlags : BitVec w) (gen : BitVec 32) (deadline : Deadline) :
    Option (Sect w) :=
  if (s.contexts ctx).gen ≠ gen then
    some {shared := s,ending := .done (.result .signal (s.contexts ctx).snapshot)}
  else
    waitWhile env (!isSatisfied s.flags waitFlags optWaitAll) .changed deadline (.syncing ctx waitFlags gen deadline) s
      (fun result => some {shared := s,ending := .done (.result result s.flags)})
      (some {shared := {flags := s.flags &&& ~~~waitFlags,
                        contexts := Function.update s.contexts ctx ⟨(s.contexts ctx).gen + 1#32,s.flags⟩},
             notices := [.all .changed],ending := .done (.result .signal s.flags)})

def syncFailed (s : State w) (ctx : Nat) (gen : BitVec 32) (result : Wakeup) : Sect w :=
  if (s.contexts ctx).gen ≠ gen then {shared := s,ending := .done (.result .signal (s.contexts ctx).snapshot)}
  else {shared := s,ending := .done (.result result s.flags)}

-- Wait() and Sync() take their deadline before they enter the critical section.
def enter (env : Ambient) (s : State w) : Request w → Option (Sect w)
  | .set flags =>
    if valid flags then
      some {shared := {s with flags := s.flags ||| flags},notices := [.all .changed],ending := .done (.word (s.flags ||| flags))}
    else some {shared := s,ending := .done (.word errorParameter)}
  | .clear flags =>
    if valid flags then some {shared := {s with flags := s.flags &&& ~~~flags},ending := .done (.word s.flags)}
    else some {shared := s,ending := .done (.word errorParameter)}
  | .and mask => some {shared := {s with flags := s.flags &&& mask},ending := .done (.word s.flags)}
  | .wait flags options timeout =>
    if valid flags = false then some {shared := s,ending := .done (.word errorParameter)}
    else if env.isr = true ∧ timeout ≠ noWait then some {shared := s,ending := .done (.word errorIsr)}
    else some {shared := s,ending := .pause (.waiting flags options (.of env.now timeout) true)}
  | .waitEx flags options timeout =>
    if valid flags = false ∨ env.isr = true ∧ timeout ≠ noWait then
      some {shared := s,ending := .done (.result .fail s.flags)}
    else some {shared := s,ending := .pause (.waiting flags options (.of env.now timeout) false)}
  | .sync ctx setFlags waitFlags timeout =>
    if valid waitFlags = false ∨ setFlags &&& errorMask ≠ 0#w ∨ env.isr = true ∧ timeout ≠ noWait then
      some {shared := s,ending := .done (.result .fail s.flags)}
    else some {shared := s,ending := .pause (.arriving ctx setFlags waitFlags (.of env.now timeout))}

def resume (env : Ambient) (s : State w) : Rest w → Wakeup → Option (Sect w)
  | .waiting flags options deadline plain,.signal => waitCore env s flags options deadline plain
  | .waiting _ _ _ plain,result => some (waitFailed s plain result)
  | .arriving ctx setFlags waitFlags deadline,_ =>
    syncLoop env {s with flags := s.flags ||| setFlags} ctx waitFlags (s.contexts ctx).gen deadline
  | .syncing ctx waitFlags gen deadline,.signal => syncLoop env s ctx waitFlags gen deadline
  | .syncing ctx _ gen _,result => some (syncFailed s ctx gen result)

def program : Program (Request w) (State w) Cond (Rest w) (Answer w) Empty := ⟨enter,resume⟩

def initial (now : Int) (flags : BitVec w) : Flags T w := {now := now,shared := {flags := flags}}

variable {T : Type} [DecidableEq T] {h h' : Flags T w} {s : State w} {sec : Sect w} {rest : Rest w} {m keep : BitVec w}

theorem isSatisfied_lowered (held : isSatisfied (m &&& keep) flags options = true) : isSatisfied m flags options = true := by
  unfold isSatisfied at held ⊢
  split
  · rename_i all
    rw [if_pos all] at held
    have held : m &&& keep &&& flags = flags := of_decide_eq_true held
    refine decide_eq_true ?_
    calc m &&& flags = m &&& (m &&& keep &&& flags) := by rw [held]
      _ = m &&& keep &&& flags := by rw [← BitVec.and_assoc,← BitVec.and_assoc,BitVec.and_self]
      _ = flags := held
  · rename_i any
    rw [if_neg any] at held
    have held : m &&& keep &&& flags ≠ 0#_ := of_decide_eq_true held
    refine decide_eq_true fun none => held ?_
    calc m &&& keep &&& flags = m &&& flags &&& keep := by rw [BitVec.and_assoc,BitVec.and_comm keep,← BitVec.and_assoc]
      _ = 0#_ := by rw [none,BitVec.zero_and]

def Rest.met (m : BitVec w) : Rest w → Bool
  | .waiting flags options _ _ => isSatisfied m flags options
  | .arriving _ _ _ _ => false
  | .syncing _ waitFlags _ _ => isSatisfied m waitFlags optWaitAll

theorem Rest.met_lowered (unmet : rest.met m = false) : rest.met (m &&& keep) = false := by
  refine eq_false_of_ne_true fun met => ?_
  cases rest with
  | waiting flags options deadline plain | syncing ctx waitFlags gen deadline => exact Bool.false_ne_true (unmet.symm.trans (isSatisfied_lowered met))
  | arriving => cases met

def Request.brought : Request w → BitVec w
  | .set flags => if valid flags then flags else 0#w
  | _ => 0#w

def Rest.brought : Rest w → BitVec w
  | .arriving _ setFlags _ _ => setFlags
  | _ => 0#w

def Rest.looping : Rest w → Bool
  | .arriving _ _ _ _ => false
  | _ => true

theorem Rest.brought_looping (looping : rest.looping = true) : rest.brought = 0#w := by
  cases rest with
  | waiting | syncing => rfl
  | arriving => cases looping

theorem Rest.looping_or (rest : Rest w) :
    rest.looping = true ∨ ∃ ctx setFlags waitFlags deadline,rest = .arriving ctx setFlags waitFlags deadline := by
  cases rest with
  | waiting | syncing => exact .inl rfl
  | arriving ctx setFlags waitFlags deadline => exact .inr ⟨ctx,setFlags,waitFlags,deadline,rfl⟩

inductive Serves (q : Request w) (since : Int) : Rest w → Prop where
  | wait : q = .wait flags options timeout → valid flags = true →
      Serves q since (.waiting flags options (.of since timeout) true)
  | waitEx : q = .waitEx flags options timeout → valid flags = true →
      Serves q since (.waiting flags options (.of since timeout) false)
  | arriving : q = .sync ctx setFlags waitFlags timeout →
      Serves q since (.arriving ctx setFlags waitFlags (.of since timeout))
  | syncing : q = .sync ctx setFlags waitFlags timeout →
      Serves q since (.syncing ctx waitFlags gen (.of since timeout))

variable {call : Visit T (Request w) Empty} {q : Request w} {since : Int}

def Request.condition (m : BitVec w) : Request w → Bool
  | .wait flags options _ | .waitEx flags options _ => isSatisfied m flags options
  | .sync _ _ waitFlags _ => isSatisfied m waitFlags optWaitAll
  | _ => false

theorem Serves.condition (serves : Serves q since rest) (looping : rest.looping = true) (m : BitVec w) :
    q.condition m = rest.met m := by
  cases serves with
  | wait asked | waitEx asked | syncing asked => rw [asked]; rfl
  | arriving => cases looping

def Rest.waits : Rest w → Bool
  | .waiting _ _ _ _ => true
  | _ => false

def Answer.timedOut : Answer w → Bool
  | .word value => decide (value = errorTimeout)
  | .result wakeup _ => decide (wakeup = .timeout)

def Request.waits : Request w → Bool
  | .wait _ _ _ | .waitEx _ _ _ => true
  | _ => false

def Request.timeout : Request w → Option Int
  | .wait _ _ timeout | .waitEx _ _ timeout | .sync _ _ _ timeout => some timeout
  | _ => none

theorem errorMask_bit (i : Nat) : (errorMask : BitVec w).getLsbD i = decide (i + 1 = w) := by
  unfold errorMask flagsMax
  rw [BitVec.getLsbD_not,BitVec.getLsbD_ushiftRight,BitVec.getLsbD_allOnes]
  by_cases last : i + 1 = w <;> simp [last] <;> omega

theorem error_ne_timeout (wide : 2 < w) (n : Nat) (other : n.testBit 1 = false) :
    errorMask ||| BitVec.ofNat w n ≠ errorTimeout := by
  intro same
  have bit : (errorTimeout : BitVec w).getLsbD 1 = true := by
    rw [errorTimeout,BitVec.getLsbD_or,BitVec.getLsbD_ofNat,decide_eq_true (by omega : 1 < w)]
    exact Bool.or_true _
  rw [← same,BitVec.getLsbD_or,BitVec.getLsbD_ofNat,errorMask_bit,other,decide_eq_false (by omega : ¬1 + 1 = w)] at bit
  simp at bit

theorem flags_ne_timeout {flags : BitVec w} (wide : 2 < w) (valid : valid flags = true) (m : BitVec w) :
    m &&& flags ≠ errorTimeout := by
  intro same
  have last : w - 1 + 1 = w := by omega
  have clear : flags &&& errorMask = 0#w := (of_decide_eq_true valid).2
  have bit : (errorTimeout : BitVec w).getLsbD (w - 1) = true := by
    rw [errorTimeout,BitVec.getLsbD_or,errorMask_bit,decide_eq_true last]
    rfl
  have none : (flags &&& errorMask).getLsbD (w - 1) = false := by rw [clear,BitVec.getLsbD_zero]
  rw [← same,BitVec.getLsbD_and] at bit
  rw [BitVec.getLsbD_and,errorMask_bit,decide_eq_true last,Bool.and_true] at none
  rw [none,Bool.and_false] at bit
  cases bit

theorem matched_ne_timeout {flags : BitVec w} (wide : 2 < w) (valid : valid flags = true) (m : BitVec w)
    (options : BitVec 32) : matched m flags options ≠ errorTimeout := by
  unfold matched
  split
  · rw [← BitVec.and_self (x := flags)]
    exact flags_ne_timeout wide valid flags
  · exact flags_ne_timeout wide valid m

theorem waitFailed_timedOut (wide : 2 < w) (ended : (waitFailed s plain result).ending = .done a)
    (late : a.timedOut = true) : result = .timeout ∨ result = .signal := by
  cases ended
  cases plain with
  | true =>
    cases result with
    | signal => exact .inr rfl
    | timeout => exact .inl rfl
    | canceled => exact absurd (of_decide_eq_true late) (error_ne_timeout wide 8 rfl)
    | fail => exact absurd (of_decide_eq_true late) (error_ne_timeout wide 16 rfl)
  | false => exact .inl (of_decide_eq_true late)

inductive Begins (s : State w) (now : Int) (q : Request w) (sec : Sect w) : Prop where
  | sets : q = .set flags → valid flags = true → sec.shared.flags = s.flags ||| flags → .all .changed ∈ sec.notices →
      sec.ending = .done a → Begins s now q sec
  | ends (keep : BitVec w) : q.brought = 0#w → sec.shared.flags = s.flags &&& keep →
      (2 < w → q.timeout ≠ none → a.timedOut = false) → sec.ending = .done a → Begins s now q sec
  | pauses {rest : Rest w} : q.brought = 0#w → sec.shared.flags = s.flags → Serves q now rest → sec.ending = .pause rest → Begins s now q sec

theorem enter_begins (entered : enter env s q = some sec) : Begins s env.now q sec := by
  have same : s.flags = s.flags &&& s.flags := BitVec.and_self.symm
  cases q with
  | set flags =>
    rw [enter] at entered
    split at entered
    · rename_i valid
      cases entered
      exact .sets rfl valid rfl (by simp) rfl
    · rename_i invalid
      cases entered
      exact .ends s.flags (if_neg invalid) same (fun _ timed => absurd rfl timed) rfl
  | clear flags =>
    rw [enter] at entered
    split at entered <;> cases entered
    · exact .ends _ rfl rfl (fun _ timed => absurd rfl timed) rfl
    · exact .ends s.flags rfl same (fun _ timed => absurd rfl timed) rfl
  | and mask =>
    cases entered
    exact .ends mask rfl rfl (fun _ timed => absurd rfl timed) rfl
  | wait flags options timeout =>
    rw [enter] at entered
    split at entered
    · cases entered
      exact .ends (a := .word errorParameter) s.flags rfl same (fun wide _ => decide_eq_false (error_ne_timeout wide 1 rfl)) rfl
    · rename_i valid
      split at entered <;> cases entered
      · exact .ends (a := .word errorIsr) s.flags rfl same (fun wide _ => decide_eq_false (error_ne_timeout wide 4 rfl)) rfl
      · exact .pauses rfl rfl (.wait rfl (eq_true_of_ne_false valid)) rfl
  | waitEx flags options timeout =>
    rw [enter] at entered
    split at entered
    · cases entered
      exact .ends s.flags rfl same (fun _ _ => rfl) rfl
    · rename_i asked
      cases entered
      exact .pauses rfl rfl (.waitEx rfl (eq_true_of_ne_false fun invalid => asked (.inl invalid))) rfl
  | sync ctx setFlags waitFlags timeout =>
    rw [enter] at entered
    split at entered <;> cases entered
    · exact .ends s.flags rfl same (fun _ _ => rfl) rfl
    · exact .pauses rfl rfl (.arriving rfl) rfl

-- How a critical section that finds or brings the flags `m` leaves its call. Unless `strict`,
-- a Wait() that reports a timeout leaves its flags unset.
inductive Leaves (strict : Bool) (q : Request w) (since : Int) (m : BitVec w) (sec : Sect w) : Prop where
  | waits {rest : Rest w} : sec.shared.flags = m → Serves q since rest → rest.looping = true → rest.met m = false →
      sec.ending = .wait .changed left rest → Leaves strict q since m sec
  | pauses {rest : Rest w} : sec.shared.flags = m → Serves q since rest → sec.ending = .pause rest → Leaves strict q since m sec
  | ends (keep : BitVec w) : sec.shared.flags = m &&& keep →
      (strict = false → 2 < w → q.waits = true → a.timedOut = true → q.condition sec.shared.flags = false) →
      sec.ending = .done a → Leaves strict q since m sec

theorem waitCore_leaves (serves : Serves q since (.waiting flags options deadline plain))
    (taken : waitCore env s flags options deadline plain = some sec) : Leaves strict q since s.flags sec := by
  have valid : valid flags = true := by
    cases serves with
    | wait _ valid | waitEx _ valid => exact valid
  cases waitWhile_inv taken with
  | goes _ taken =>
    cases taken
    obtain ⟨keep,kept⟩ : ∃ keep,(if options &&& optNoClear = 0#32 then s.flags &&& ~~~matched s.flags flags options
        else s.flags) = s.flags &&& keep := by
      split
      · exact ⟨_,rfl⟩
      · exact ⟨s.flags,BitVec.and_self.symm⟩
    refine .ends keep kept (fun _ wide _ late => ?_) rfl
    cases plain with
    | true => exact absurd (of_decide_eq_true late) (matched_ne_timeout wide valid s.flags options)
    | false => cases late
  | fails _ unmet _ taken =>
    cases taken
    rw [Bool.not_eq_true'] at unmet
    exact .ends s.flags BitVec.and_self.symm (fun _ _ _ _ => (serves.condition rfl s.flags).trans unmet) rfl
  | waits _ unmet _ _ same =>
    cases same
    rw [Bool.not_eq_true'] at unmet
    exact .waits rfl serves rfl unmet rfl

theorem Serves.syncs (serves : Serves q since (.syncing ctx waitFlags gen deadline)) : q.waits ≠ true := by
  cases serves with
  | syncing asked => rw [asked]; exact Bool.false_ne_true

theorem syncLoop_leaves (serves : Serves q since (.syncing ctx waitFlags gen deadline))
    (taken : syncLoop env s ctx waitFlags gen deadline = some sec) : Leaves strict q since s.flags sec := by
  unfold syncLoop at taken
  split at taken
  · cases taken
    exact .ends s.flags BitVec.and_self.symm (fun _ _ waits => absurd waits serves.syncs) rfl
  · cases waitWhile_inv taken with
    | goes _ taken =>
      cases taken
      exact .ends _ rfl (fun _ _ waits => absurd waits serves.syncs) rfl
    | fails _ _ _ taken =>
      cases taken
      exact .ends s.flags BitVec.and_self.symm (fun _ _ waits => absurd waits serves.syncs) rfl
    | waits _ unmet _ _ same =>
      cases same
      rw [Bool.not_eq_true'] at unmet
      exact .waits rfl serves rfl unmet rfl

theorem resume_leaves (serves : Serves q since rest)
    (unmet : strict = false → result = .timeout → rest.waits = true → rest.met s.flags = false)
    (resumed : resume env s rest result = some sec) : Leaves strict q since (s.flags ||| rest.brought) sec := by
  have same : s.flags = s.flags &&& s.flags := BitVec.and_self.symm
  cases rest with
  | waiting flags options deadline plain =>
    show Leaves strict q since (s.flags ||| 0#w) sec
    rw [BitVec.or_zero]
    cases result with
    | signal => exact waitCore_leaves serves resumed
    | timeout =>
      cases resumed
      exact .ends s.flags same (fun soft _ _ _ => (serves.condition rfl s.flags).trans (unmet soft rfl rfl)) rfl
    | canceled | fail =>
      cases resumed
      refine .ends s.flags same (fun _ wide _ late => ?_) rfl
      rcases waitFailed_timedOut wide rfl late with other | other <;> cases other
  | arriving ctx setFlags waitFlags deadline =>
    cases serves with
    | arriving asked => exact syncLoop_leaves (s := {s with flags := s.flags ||| setFlags}) (.syncing asked) resumed
  | syncing ctx waitFlags gen deadline =>
    show Leaves strict q since (s.flags ||| 0#w) sec
    rw [BitVec.or_zero]
    cases result with
    | signal => exact syncLoop_leaves serves resumed
    | timeout | canceled | fail =>
      cases resumed
      unfold syncFailed
      split <;> exact .ends s.flags same (fun _ _ waits => absurd waits serves.syncs) rfl

-- The flags that Sync() leaves behind when it comes first to its loop.
def afterSync (m setFlags waitFlags : BitVec w) : BitVec w :=
  if isSatisfied (m ||| setFlags) waitFlags optWaitAll then (m ||| setFlags) &&& ~~~waitFlags else m ||| setFlags

theorem arriving_effect (resumed : resume env s (.arriving ctx setFlags waitFlags deadline) result = some sec) :
    sec.shared.flags = afterSync s.flags setFlags waitFlags ∧
      (isSatisfied (s.flags ||| setFlags) waitFlags optWaitAll = true → .all .changed ∈ sec.notices) := by
  rw [resume,syncLoop,if_neg (by simp)] at resumed
  unfold afterSync
  cases waitWhile_inv resumed with
  | goes all taken =>
    rw [Bool.not_eq_false'] at all
    cases taken
    rw [if_pos all]
    exact ⟨rfl,by simp⟩
  | fails _ unmet _ taken =>
    rw [Bool.not_eq_true'] at unmet
    cases taken
    dsimp only at unmet ⊢
    rw [unmet]
    exact ⟨rfl,nofun⟩
  | waits _ unmet _ _ same =>
    rw [Bool.not_eq_true'] at unmet
    cases same
    dsimp only at unmet ⊢
    rw [unmet]
    exact ⟨rfl,nofun⟩

def arrival (h : Flags T w) (t : T) : Option (BitVec w × BitVec w) :=
  (h.paused.find? fun p => decide (p.call.task = t)).bind fun p =>
    match p.rest with
    | .arriving _ setFlags waitFlags _ => some (setFlags,waitFlags)
    | _ => none

-- A Sync() that does not complete its rendezvous sets no flags that a blocked task
-- waits for.
def sparesWaiters (h : Flags T w) : Happening T (Request w) → Bool
  | .proceed t _ =>
    (arrival h t).all fun flags =>
      isSatisfied (h.shared.flags ||| flags.1) flags.2 optWaitAll ||
        h.waiting.all fun v => !v.rest.met (h.shared.flags ||| flags.1)
  | _ => true

theorem arrival_looping (found : h.paused.find? (fun p => decide (p.call.task = t)) = some p)
    (at_ : p.rest = .arriving ctx setFlags waitFlags deadline) : arrival h t = some (setFlags,waitFlags) := by
  rw [arrival,found,Option.bind_some,at_]

-- The clock has ended the wait of a task that has not run since.
def expired (d : Woken T (Request w) Cond (Rest w) Empty) : Bool := decide (d.result = .timeout) && d.rest.waits

-- Neither Set() nor Sync() sets the flags of an expired Wait(), and a Sync() that tells nobody
-- not those of a Wait() that can expire.
def sparesExpired (h : Flags T w) : Happening T (Request w) → Bool
  | .call _ (.set flags) _ _ =>
    !valid flags || h.due.all fun d => !(expired d && d.rest.met (h.shared.flags ||| flags))
  | .proceed t _ =>
    (arrival h t).all fun flags =>
      (h.due.all fun d => !(expired d && d.rest.met (afterSync h.shared.flags flags.1 flags.2))) &&
        (isSatisfied (h.shared.flags ||| flags.1) flags.2 optWaitAll ||
          h.waiting.all fun v => !(v.left.isSome && v.rest.waits && v.rest.met (h.shared.flags ||| flags.1)))
  | _ => true

theorem not_and_met (spared : (!(expired d && d.rest.met m)) = true) (late : expired d = true) : d.rest.met m = false := by
  rwa [late,Bool.true_and,Bool.not_eq_true'] at spared

-- No blocked task finds its flags set if `strict`; else no Wait() that has expired, or that
-- can, does. In a step the tasks told of it are not looked at, and it leaves the `final`
-- flags.
inductive Sits (strict told : Bool) (m final : BitVec w) (call : Visit T (Request w) Empty) :
    Monitor.Place Cond (Rest w) (Answer w) → Prop where
  | waiting {rest : Rest w} : Serves call.request call.since rest → rest.looping = true →
      (told = false → strict = true ∨ left.isSome = true ∧ rest.waits = true → rest.met m = false) →
      Sits strict told m final call (.waiting c left rest)
  | due {rest : Rest w} : Serves call.request call.since rest → rest.looping = true →
      (strict = false → result = .timeout → rest.waits = true → rest.met final = false) →
      Sits strict told m final call (.due c result rest)
  | paused {rest : Rest w} : Serves call.request call.since rest → Sits strict told m final call (.paused rest)
  | returned : (strict = false → 2 < w → call.request.waits = true → a.timedOut = true →
      call.request.condition final = false) → Sits strict told m final call (.returned a)

variable {strict told : Bool}

theorem Sits.woken (sits : Sits strict told m final call (.waiting c left rest)) (other : result ≠ .timeout) :
    Sits strict told' m' final' call (.due c result rest) := by
  cases sits with
  | waiting serves loops => exact .due serves loops fun _ late => absurd late other

theorem Sits.tick (ticks : Monitor.Place.Ticks x y) (sits : Sits strict false m m call x) : Sits strict false m m call y := by
  cases ticks with
  | on =>
    cases sits with
    | waiting serves loops unmet => exact .waiting serves loops fun now => by simpa using unmet now
  | out =>
    cases sits with
    | waiting serves loops unmet => exact .due serves loops fun _ _ waits => unmet rfl (.inr ⟨rfl,waits⟩)
  | due | paused => exact sits

theorem Leaves.lowered (leaves : Leaves strict q since m sec) : ∃ keep,sec.shared.flags = m &&& keep := by
  cases leaves with
  | waits same | pauses same => exact ⟨m,same.trans BitVec.and_self.symm⟩
  | ends keep same => exact ⟨keep,same⟩

theorem Leaves.sits (leaves : Leaves strict q since m sec) (asked : q = call.request) (made : since = call.since) :
    Sits strict false sec.shared.flags sec.shared.flags call sec.ending.place := by
  subst asked made
  cases leaves with
  | waits same serves loops unmet ending => rw [ending,same]; exact .waiting serves loops fun _ _ => unmet
  | pauses same serves ending => rw [ending]; exact .paused serves
  | ends keep same honest ending => rw [ending]; exact .returned honest

theorem Sits.perform (sits : Hall.Inside (Sits strict told m sec.shared.flags) h)
    (tells : told = true → .all .changed ∈ sec.notices) (leaves : Leaves strict call.request call.since m sec) :
    Hall.Everywhere (Sits strict false (h.perform call sec).shared.flags (h.perform call sec).shared.flags)
      (h.perform call sec) := by
  rw [Hall.perform_shared]
  obtain ⟨keep,lowered⟩ := leaves.lowered
  refine sits.perform ?_ (fun waits => waits.woken nofun) ?_ ?_ (leaves.sits rfl rfl)
  · intro call c left rest untold (.waiting serves loops unmet)
    refine .waiting serves loops fun _ subject => ?_
    rw [lowered]
    refine Rest.met_lowered (unmet (eq_false_of_ne_true fun now => ?_) subject)
    cases c
    exact untold (tells now)
  · intro call c result rest (.due serves loops unmet)
    exact .due serves loops unmet
  · intro call rest (.paused serves)
    exact .paused serves

theorem Sits.lowers (sits : Hall.Inside (Sits strict false m m) h) (leaves : Leaves strict q since m sec) :
    Hall.Inside (Sits strict false m sec.shared.flags) h := by
  obtain ⟨keep,lowered⟩ := leaves.lowered
  refine ⟨?_,?_,?_⟩
  · intro v member
    cases sits.waiting v member with
    | waiting serves loops unmet => exact .waiting serves loops unmet
  · intro d member
    cases sits.due d member with
    | due serves loops unmet =>
      refine .due serves loops fun soft late waits => ?_
      rw [lowered]
      exact Rest.met_lowered (unmet soft late waits)
  · intro p member
    cases sits.paused p member with
    | paused serves => exact .paused serves

theorem Sits.moved (told : Bool) (sits : Hall.Inside (Sits strict false m m) h)
    (waiting : ∀ v ∈ h.waiting,told = false → strict = true ∨ v.left.isSome = true ∧ v.rest.waits = true → v.rest.met m' = false)
    (due : ∀ d ∈ h.due,strict = false → d.result = .timeout → d.rest.waits = true → d.rest.met final = false) :
    Hall.Inside (Sits strict told m' final) h := by
  refine ⟨?_,?_,?_⟩
  · intro v member
    cases sits.waiting v member with
    | waiting serves loops => exact .waiting serves loops (waiting v member)
  · intro d member
    cases sits.due d member with
    | due serves loops => exact .due serves loops (due d member)
  · intro p member
    cases sits.paused p member with
    | paused serves => exact .paused serves

theorem expired_of (late : d.result = .timeout) (waits : d.rest.waits = true) :
    expired (d : Woken T (Request w) Cond (Rest w) Empty) = true := by
  rw [expired,late,waits]
  rfl

theorem Sits.step (sits : Hall.Everywhere (Sits strict false h.shared.flags h.shared.flags) h)
    (waiters : strict = true → sparesWaiters h e = true) (spares : strict = false → sparesExpired h e = true)
    (step : Hall.Step program h e h') : Hall.Everywhere (Sits strict false h'.shared.flags h'.shared.flags) h' := by
  cases step with
  | @call t isr refused q sec _ entered =>
    have begins : Begins h.shared h.now q sec := enter_begins entered
    cases begins with
    | @sets flags _ asked valid same told ended =>
      subst asked
      have leaves : Leaves strict (.set flags) h.now (h.shared.flags ||| flags) sec :=
        .ends _ (same.trans BitVec.and_self.symm) (fun _ _ waits => by cases waits) ended
      refine Sits.perform (Sits.moved true sits.toInside nofun ?_) (fun _ => told) leaves
      intro d member soft late waits
      have spares := spares soft
      rw [sparesExpired,valid,Bool.not_true,Bool.false_or] at spares
      rw [same]
      exact not_and_met (all_eq_true.mp spares d member) (expired_of late waits)
    | ends keep _ same untimed ended =>
      have leaves : Leaves strict q h.now h.shared.flags sec := by
        refine .ends keep same (fun _ wide waits late => ?_) ended
        have timed : q.timeout ≠ none := by
          cases q with
          | wait | waitEx => exact Option.some_ne_none _
          | set | clear | and | sync => cases waits
        rw [untimed wide timed] at late
        cases late
      exact Sits.perform (Sits.lowers sits.toInside leaves) nofun leaves
    | pauses _ same serves ended =>
      have leaves : Leaves strict q h.now h.shared.flags sec := .pauses same serves ended
      exact Sits.perform (Sits.lowers sits.toInside leaves) nofun leaves
  | @run before d after t refused sec split found resumed =>
    cases sits.due d (mem_of_find?_eq_some found) with
    | due serves loops unmet =>
      have leaves := resume_leaves serves unmet resumed
      rw [Rest.brought_looping loops,BitVec.or_zero] at leaves
      exact Sits.perform (Sits.lowers (sits.run split) leaves) nofun leaves
  | @proceed before p after t refused sec split found resumed =>
    cases sits.paused p (mem_of_find?_eq_some found) with
    | paused serves =>
      have leaves : Leaves strict p.call.request p.call.since (h.shared.flags ||| p.rest.brought) sec :=
        resume_leaves serves (fun _ late => by cases late) resumed
      rcases p.rest.looping_or with loops | ⟨ctx,setFlags,waitFlags,deadline,at_⟩
      · rw [Rest.brought_looping loops,BitVec.or_zero] at leaves
        exact Sits.perform (Sits.lowers (sits.proceed split) leaves) nofun leaves
      · rw [at_] at resumed leaves
        have arrives : resume _ h.shared (.arriving ctx setFlags waitFlags deadline) .signal = some sec := resumed
        obtain ⟨left,told⟩ := arriving_effect arrives
        have arrived := arrival_looping found at_
        refine Sits.perform (Sits.moved _ (sits.proceed split) ?_ ?_) told leaves
        · intro v member untold subject
          cases strict with
          | true =>
            have waiters := waiters rfl
            rw [sparesWaiters,arrived,Option.all_some,untold,Bool.false_or] at waiters
            have spared := all_eq_true.mp waiters v member
            rwa [Bool.not_eq_true'] at spared
          | false =>
            have spares := spares rfl
            rw [sparesExpired,arrived,Option.all_some,untold,Bool.false_or] at spares
            obtain ⟨timed,waits⟩ := subject.resolve_left Bool.false_ne_true
            have spared := all_eq_true.mp (Bool.and_eq_true_iff.mp spares).2 v member
            rwa [timed,waits,Bool.true_and,Bool.true_and,Bool.not_eq_true'] at spared
        · intro d member soft late waits
          have spares := spares soft
          rw [sparesExpired,arrived,Option.all_some,Bool.and_eq_true] at spares
          rw [left]
          exact not_and_met (all_eq_true.mp spares.1 d member) (expired_of late waits)
  | tick => exact sits.elapse Sits.tick
  | cancel split _ => exact sits.cancel split fun waits => waits.woken nofun

theorem nobody_waits_for_set_flags
    (run : Run (Hall.step program) (fun h e => sparesWaiters h e = true) (initial now flags) h) :
    ∀ v ∈ h.waiting,v.call.request.condition h.shared.flags = false := by
  have reached : Hall.Everywhere (Sits true false h.shared.flags h.shared.flags) h := by
    refine run.keeps (I := fun h => Hall.Everywhere (Sits true false h.shared.flags h.shared.flags) h) (.start rfl rfl) ?_
    intro h e h' sits spares taken
    exact Sits.step sits (fun _ => spares) nofun (Hall.step_inv taken)
  intro v member
  cases reached.waiting v member with
  | waiting serves loops unmet =>
    rw [serves.condition loops]
    exact unmet rfl (.inl rfl)

def rendezvous : List (Happening Nat (Request 8)) :=
  [.call 0 (.wait 4#8 0#32 waitInfinite) false false,.proceed 0 false,
    .call 1 (.sync 0 1#8 3#8 waitInfinite) false false,.proceed 1 false,
    .call 2 (.sync 0 2#8 3#8 waitInfinite) false false,.proceed 2 false,.run 0 false]

theorem rendezvous_leaves_waiting : ∃ h : Flags Nat 8,
    exec (Hall.step program) (initial 0 0#8) rendezvous = some h ∧
      h.waiting.map (fun v => v.call.task) = [0] ∧ h.due.map (fun d => d.call.task) = [1] ∧
      ∀ v ∈ h.waiting,v.call.request.condition h.shared.flags = false := by
  refine exec_shows (P := fun h => h.waiting.map (fun v => v.call.task) = [0] ∧ h.due.map (fun d => d.call.task) = [1])
    (by decide) ?_
  intro h ran ⟨waits,due⟩
  exact ⟨waits,due,nobody_waits_for_set_flags (.ofExecAllowed sparesWaiters (by decide) ran)⟩

-- A task waits for a flag that another one sets by Sync(), which itself has to wait.
def setBySync : List (Happening Nat (Request 8)) :=
  [.call 0 (.wait 1#8 0#32 waitInfinite) false false,.proceed 0 false,
    .call 1 (.sync 0 1#8 3#8 waitInfinite) false false,.proceed 1 false]

theorem setBySync_forgets : ∃ h : Flags Nat 8,
    exec (Hall.step program) (initial 0 0#8) setBySync = some h ∧ h.due.isEmpty = true ∧
      h.paused.isEmpty = true ∧
      h.waiting.map (fun v => (v.call.task,v.call.request.condition h.shared.flags)) = [(0,true),(1,false)] := by
  decide

end SuperTinyKernel.EventFlags
