import SuperTinyKernel.Sync.EventFlags
import SuperTinyKernel.Sync.MessageQueue
import SuperTinyKernel.Sync.PipeOrder

set_option linter.unusedSectionVars false

namespace SuperTinyKernel

open Monitor Transition

-- How long the timed calls wait. Their deadlines and the clock are cut to 32 bits.

-- The 32-bit clock counts through one period from -2^31 on, and then starts again.
def clockPeriod (ticks : Int) : Int := (ticks + 2147483648) / 4294967296
def clockPhase (ticks : Int) : Int := (ticks + 2147483648) % 4294967296

theorem castTimeout_eq (ticks : Int) : castTimeout ticks = clockPhase ticks - 2147483648 := by
  unfold castTimeout clockPhase
  rw [Int.bmod_def]
  split <;> omega

-- A call that looks at the clock finds it in the period of its deadline, or past the deadline
-- in a later phase of another.
def inStep (now deadline : Int) : Bool :=
  decide (clockPeriod now = clockPeriod deadline ∨ deadline ≤ now ∧ clockPhase deadline ≤ clockPhase now)

theorem remaining_inStep (timed : timedWait n = true) (agree : inStep now (since + n) = true)
    (left : (Deadline.of since n).remaining now = some remaining) :
    since + n ≤ now ∧ remaining = noWait ∨ now < since + n ∧ remaining = since + n - now := by
  have agree := of_decide_eq_true agree
  simp only [Deadline.of,Deadline.remaining,timed,if_true,castTimeout_eq] at left
  unfold clockPeriod clockPhase at agree
  unfold clockPhase at left
  split at left
  · have none := Option.some.inj left
    refine .inl ⟨?_,none.symm⟩
    omega
  · split at left
    · have some := Option.some.inj left
      refine .inr ⟨?_,?_⟩ <;> omega
    · cases left

-- What the timed calls of an object have in common: the timeout of a request, the answers that
-- report one, where a call made at some tick can be, and whether it looks at the clock on
-- entry and behind a wait.
structure Pace (Q S L A : Type) where
  timeout : Q → Option Int
  timedOut : A → Bool
  Serves : Q → Int → L → Prop
  opens : S → Q → Bool
  looks : S → L → Wakeup → Bool

section Laws

variable {T Q S C L A O : Type} {pace : Pace Q S L A}

inductive Paced (pace : Pace Q S L A) (q : Q) (since now : Int) (looks late : Bool) : Exit C L A → Prop where
  | done : (pace.timedOut a = true → ∀ n,pace.timeout q = some n →
        late = true ∨ looks = true ∧ (Deadline.of since n).remaining now = some noWait) →
      Paced pace q since now looks late (.done a)
  | pause : pace.Serves q since rest → Paced pace q since now looks late (.pause rest)
  | wait : looks = true → pace.Serves q since rest → pace.timeout q = some n →
      (Deadline.of since n).remaining now = some remaining → remaining ≠ noWait →
      Paced pace q since now looks late (.wait c (ticksLeft remaining) rest)

-- The laws that the code of an object obeys as long as its state is `Good`.
structure Pace.Lawful (pace : Pace Q S L A) (P : Program Q S C L A O) (Good : S → Prop) : Prop where
  enter : Good s → P.enter ⟨now,isr,refused⟩ s q = some sec →
    Good sec.shared ∧ Paced pace q now now (pace.opens s q) false sec.ending
  resume : Good s → pace.Serves q since rest → P.resume ⟨now,false,refused⟩ s rest result = some sec →
    Good sec.shared ∧ Paced pace q since now (pace.looks s rest result) (decide (result = .timeout)) sec.ending

variable [DecidableEq T] [DecidableEq C] {P : Program Q S C L A O} {h h' : Hall T Q S C L A O} {Good : S → Prop}

def Pace.looker (pace : Pace Q S L A) (h : Hall T Q S C L A O) : Happening T Q → Option (Q × Int)
  | .call _ q _ _ => if pace.opens h.shared q then some (q,h.now) else none
  | .run t _ =>
    (h.due.find? fun d => decide (d.call.task = t)).bind fun d =>
      if pace.looks h.shared d.rest d.result then some (d.call.request,d.call.since) else none
  | .proceed t _ =>
    (h.paused.find? fun p => decide (p.call.task = t)).bind fun p =>
      if pace.looks h.shared p.rest .signal then some (p.call.request,p.call.since) else none
  | _ => none

def Pace.withinPeriod (pace : Pace Q S L A) (h : Hall T Q S C L A O) (e : Happening T Q) : Bool :=
  (pace.looker h e).all fun x => (pace.timeout x.1).all fun n => !timedWait n || inStep h.now (x.2 + n)

def Pace.Over (pace : Pace Q S L A) (now : Int) (call : Visit T Q O) : Prop :=
  ∀ n,pace.timeout call.request = some n → n < waitInfinite → call.since + n ≤ now

-- A task is blocked for as long as its timeout has to run; the clock wakes it no earlier, and
-- no call reports its timeout before.
inductive OnTime (pace : Pace Q S L A) (now : Int) (call : Visit T Q O) : Monitor.Place C L A → Prop where
  | waiting : pace.Serves call.request call.since rest → call.since ≤ now →
      (∀ n,pace.timeout call.request = some n → n < waitInfinite → ∃ k : Nat,left = some k ∧ 0 < k ∧ now + k = call.since + n) →
      OnTime pace now call (.waiting c left rest)
  | due : pace.Serves call.request call.since rest → call.since ≤ now → (result = .timeout → pace.Over now call) →
      OnTime pace now call (.due c result rest)
  | paused : pace.Serves call.request call.since rest → call.since ≤ now → OnTime pace now call (.paused rest)
  | returned : (pace.timedOut a = true → pace.Over now call) → OnTime pace now call (.returned a)

theorem remaining_exact (earlier : since ≤ now) (finite : n < waitInfinite)
    (agree : (!timedWait n || inStep now (since + n)) = true)
    (left : (Deadline.of since n).remaining now = some remaining) :
    since + n ≤ now ∧ remaining = noWait ∨ now < since + n ∧ remaining = since + n - now := by
  by_cases timed : timedWait n = true
  · rw [timed,Bool.not_true,Bool.false_or] at agree
    exact remaining_inStep timed agree left
  · have zero : n = noWait := by
      have timed := of_decide_eq_false (eq_false_of_ne_true timed)
      by_contra other
      exact timed ⟨by omega,other⟩
    have same : remaining = n := by
      simp only [Deadline.of,Deadline.remaining,timed,if_false,Bool.false_eq_true] at left
      exact (Option.some.inj left).symm
    refine .inl ⟨?_,same.trans zero⟩
    rw [zero]
    simpa [noWait] using earlier

theorem OnTime.tick (ticks : Monitor.Place.Ticks x y) (onTime : OnTime pace now call x) : OnTime pace (now + 1) call y := by
  cases ticks with
  | on stays =>
    cases onTime with
    | waiting serves earlier left =>
      refine .waiting serves (by omega) fun n asked finite => ?_
      obtain ⟨k,rfl,_,sum⟩ := left n asked finite
      have more := stays k rfl
      exact ⟨k - 1,rfl,by omega,by omega⟩
  | out last =>
    cases onTime with
    | waiting serves earlier left =>
      refine .due serves (by omega) fun _ n asked finite => ?_
      obtain ⟨k,same,_,sum⟩ := left n asked finite
      cases same
      omega
  | due =>
    cases onTime with
    | due serves earlier ended =>
      refine .due serves (by omega) fun late n asked finite => ?_
      have := ended late n asked finite
      omega
  | paused =>
    cases onTime with
    | paused serves earlier => exact .paused serves (by omega)

theorem OnTime.woken (onTime : OnTime pace now call (.waiting c left rest)) (other : result ≠ .timeout) :
    OnTime pace now call (.due c result rest) := by
  cases onTime with
  | waiting serves earlier => exact .due serves earlier fun late => absurd late other

theorem OnTime.resumed (onTime : OnTime pace now call x) (back : Hall.Resumes h e call x rest result) :
    pace.Serves call.request call.since rest ∧ call.since ≤ now ∧ (result = .timeout → pace.Over now call) := by
  cases back with
  | run =>
    cases onTime with
    | due serves earlier ended => exact ⟨serves,earlier,ended⟩
  | proceed =>
    cases onTime with
    | paused serves earlier => exact ⟨serves,earlier,nofun⟩

theorem Paced.onTime (call : Visit T Q O) {ending : Exit C L A} (paced : Paced pace call.request call.since now looks late ending)
    (earlier : call.since ≤ now) (expired : late = true → pace.Over now call)
    (agree : looks = true → ∀ n,pace.timeout call.request = some n → (!timedWait n || inStep now (call.since + n)) = true) :
    OnTime pace now call ending.place := by
  cases paced with
  | done reports =>
    refine .returned fun late n asked finite => ?_
    rcases reports late n asked with ranOut | ⟨looked,left⟩
    · exact expired ranOut n asked finite
    · rcases remaining_exact earlier finite (agree looked n asked) left with ⟨ranOut,_⟩ | ⟨before,zero⟩
      · exact ranOut
      · rw [noWait] at zero
        omega
  | pause serves => exact .paused serves earlier
  | @wait _ _ remaining _ looked serves known left more =>
    refine .waiting serves earlier fun n asked finite => ?_
    cases known.symm.trans asked
    rcases remaining_exact earlier finite (agree looked _ asked) left with ⟨_,zero⟩ | ⟨before,same⟩
    · exact absurd zero more
    · exact ⟨remaining.toNat,if_neg (by omega),by omega,by omega⟩

def Patient (pace : Pace Q S L A) (h : Hall T Q S C L A O) : Prop :=
  ∀ r,h.returned = some r → pace.timedOut r.answer = true → ∀ n,pace.timeout r.call.request = some n → n < waitInfinite →
    r.call.since + n ≤ h.now

theorem agree_of_looker (within : pace.withinPeriod h e = true) (looks : pace.looker h e = some (q,since)) :
    ∀ n,pace.timeout q = some n → (!timedWait n || inStep h.now (since + n)) = true := by
  intro n asked
  rw [Pace.withinPeriod,looks,Option.all_some,asked,Option.all_some] at within
  exact within

theorem Pace.Lawful.step (lawful : pace.Lawful P Good) (good : Good h.shared) (onTime : Hall.Everywhere (OnTime pace h.now) h)
    (within : pace.withinPeriod h e = true) (step : Hall.Step P h e h') :
    Good h'.shared ∧ Hall.Everywhere (OnTime pace h'.now) h' := by
  refine step.sound (G := fun s _ => Good s) good onTime OnTime.tick (fun other waits => waits.woken other) ?_ ?_
  · rintro t q isr refused sec rfl entered
    obtain ⟨kept,paced⟩ := lawful.enter good entered
    exact ⟨kept,paced.onTime _ (Int.le_refl _) nofun fun opens => agree_of_looker within (if_pos opens)⟩
  · intro call x rest result refused sec back known resumed
    obtain ⟨serves,earlier,ended⟩ := known.resumed back
    obtain ⟨kept,paced⟩ := lawful.resume good serves resumed
    refine ⟨kept,Paced.onTime {call with log := call.log ++ sec.log} paced earlier (fun late => ended (of_decide_eq_true late)) ?_⟩
    intro looks
    refine agree_of_looker within ?_
    cases back with
    | run found | proceed found => rw [Pace.looker,found,Option.bind_some,if_pos looks]

def KeepsTime (pace : Pace Q S L A) (h : Hall T Q S C L A O) : Prop :=
  Patient pace h ∧ ∀ v ∈ h.waiting,∀ n,pace.timeout v.call.request = some n → n < waitInfinite → h.now < v.call.since + n

theorem Pace.Lawful.run {start : Hall T Q S C L A O} (lawful : pace.Lawful P Good)
    (run : Run (Hall.step P) (fun h e => pace.withinPeriod h e = true) start h) (good : Good start.shared)
    (nobody : start.inside = []) (nothing : start.returned = none) : KeepsTime pace h := by
  have reached : Good h.shared ∧ Hall.Everywhere (OnTime pace h.now) h := by
    refine run.keeps (I := fun h => Good h.shared ∧ Hall.Everywhere (OnTime pace h.now) h) ⟨good,.start nobody nothing⟩ ?_
    intro h e h' kept within taken
    exact lawful.step kept.1 kept.2 within (Hall.step_inv taken)
  refine ⟨?_,?_⟩
  · intro r ended
    cases reached.2.returned r ended with
    | returned reports => exact reports
  · intro v member n asked finite
    cases reached.2.waiting v member with
    | waiting _ _ left =>
      obtain ⟨k,_,some,sum⟩ := left n asked finite
      omega

theorem waitWhile_paced {sec : Section S C L A O} {failed : Wakeup → Option (Section S C L A O)} {looks late : Bool}
    (taken : waitWhile env blocked c (.of since n) rest s failed go = some sec) (serves : pace.Serves q since rest)
    (asked : pace.timeout q = some n) (looked : blocked = true → looks = true)
    (fails : ∀ result,result ≠ .signal → failed result = some sec →
      ∃ a,sec.ending = .done a ∧ (pace.timedOut a = true → result = .timeout))
    (goes : go = some sec → ∃ a,sec.ending = .done a ∧ pace.timedOut a = false) :
    Paced pace q since env.now looks late sec.ending := by
  cases waitWhile_inv taken with
  | goes _ taken =>
    obtain ⟨a,ending,other⟩ := goes taken
    rw [ending]
    refine .done fun late => ?_
    rw [other] at late
    cases late
  | fails result blocked other taken onTime =>
    obtain ⟨a,ending,reports⟩ := fails result other taken
    rw [ending]
    refine .done fun late m known => ?_
    cases known.symm.trans asked
    exact .inr ⟨looked blocked,onTime (reports late)⟩
  | waits remaining blocked left more same =>
    rw [same]
    exact .wait (looked blocked) serves asked left more

end Laws

namespace EventFlags

variable {w : Nat} {s : State w} {sec : Sect w} {q : Request w} {rest : Rest w} {since : Int}

def Rest.looks (s : State w) : Rest w → Wakeup → Bool
  | .waiting flags options _ _,.signal => !isSatisfied s.flags flags options
  | .arriving _ setFlags waitFlags _,_ => !isSatisfied (s.flags ||| setFlags) waitFlags optWaitAll
  | .syncing ctx waitFlags gen _,.signal =>
    decide ((s.contexts ctx).gen = gen) && !isSatisfied s.flags waitFlags optWaitAll
  | _,_ => false

def pace : Pace (Request w) (State w) (Rest w) (Answer w) :=
  ⟨Request.timeout,Answer.timedOut,Serves,fun _ _ => false,fun s rest => rest.looks s⟩

theorem enter_paced (wide : 2 < w) (entered : enter env s q = some sec) :
    Paced pace q env.now env.now false late sec.ending := by
  cases enter_begins entered with
  | sets asked _ _ _ ended =>
    subst asked
    rw [ended]
    exact .done fun _ n timed => by cases timed
  | ends _ _ _ untimed ended =>
    rw [ended]
    refine .done fun reports n timed => ?_
    have untimed := untimed wide (Option.ne_none_iff_exists'.mpr ⟨n,timed⟩)
    exact absurd (untimed.symm.trans reports) Bool.false_ne_true
  | pauses _ _ serves ended =>
    rw [ended]
    exact .pause serves

theorem waitCore_paced (wide : 2 < w) (valid : valid flags = true) (asked : q.timeout = some n)
    (serves : Serves q since (.waiting flags options (.of since n) plain))
    (taken : waitCore env s flags options (.of since n) plain = some sec) :
    Paced pace q since env.now (!isSatisfied s.flags flags options) late sec.ending := by
  refine waitWhile_paced taken serves asked id ?_ ?_
  · intro result other failed
    cases failed
    refine ⟨_,rfl,fun reports => ?_⟩
    rcases waitFailed_timedOut wide rfl reports with same | same
    · exact same
    · exact absurd same other
  · intro found
    cases found
    refine ⟨_,rfl,?_⟩
    cases plain with
    | true => exact decide_eq_false (matched_ne_timeout wide valid s.flags options)
    | false => rfl

theorem syncLoop_paced (asked : q.timeout = some n) (serves : Serves q since (.syncing ctx waitFlags gen (.of since n)))
    (looked : (s.contexts ctx).gen = gen → isSatisfied s.flags waitFlags optWaitAll = false → looks = true)
    (taken : syncLoop env s ctx waitFlags gen (.of since n) = some sec) : Paced pace q since env.now looks late sec.ending := by
  unfold syncLoop at taken
  split at taken
  · cases taken
    exact .done fun reports => by cases reports
  · rename_i same
    refine waitWhile_paced taken serves asked ?_ ?_ ?_
    · intro unmet
      rw [Bool.not_eq_true'] at unmet
      exact looked (not_not.mp same) unmet
    · intro result _ failed
      cases failed
      exact ⟨_,rfl,fun reports => of_decide_eq_true reports⟩
    · intro found
      cases found
      exact ⟨_,rfl,rfl⟩

theorem lawful (wide : 2 < w) : Pace.Lawful pace (program (w := w)) fun _ => True := by
  refine ⟨fun _ entered => ⟨trivial,enter_paced wide entered⟩,?_⟩
  intro s q since rest now refused result sec _ serves resumed
  refine ⟨trivial,?_⟩
  have serves : Serves q since rest := serves
  have failed : ∀ {plain : Bool},result ≠ .signal → some (waitFailed s plain result) = some sec →
      Paced pace q since now (rest.looks s result) (decide (result = .timeout)) sec.ending := by
    intro plain other same
    cases same
    refine .done fun reports n asked => .inl ?_
    rcases waitFailed_timedOut wide rfl reports with same | same
    · exact decide_eq_true same
    · exact absurd same other
  have refused : ∀ {ctx : Nat} {gen : BitVec 32},some (syncFailed s ctx gen result) = some sec →
      Paced pace q since now (rest.looks s result) (decide (result = .timeout)) sec.ending := by
    intro ctx gen same
    cases same
    unfold syncFailed
    split
    · exact .done fun reports => by cases reports
    · exact .done fun reports n asked => .inl reports
  cases serves with
  | wait asked valid =>
    subst asked
    cases result with
    | signal => exact waitCore_paced wide valid rfl (.wait rfl valid) resumed
    | timeout | canceled | fail => exact failed nofun resumed
  | waitEx asked valid =>
    subst asked
    cases result with
    | signal => exact waitCore_paced wide valid rfl (.waitEx rfl valid) resumed
    | timeout | canceled | fail => exact failed nofun resumed
  | arriving asked =>
    subst asked
    refine syncLoop_paced rfl (.syncing rfl) ?_ resumed
    intro _ unmet
    exact congrArg Bool.not unmet
  | syncing asked =>
    subst asked
    cases result with
    | signal =>
      refine syncLoop_paced rfl (.syncing rfl) ?_ resumed
      intro same unmet
      exact Bool.and_eq_true_iff.mpr ⟨decide_eq_true same,congrArg Bool.not unmet⟩
    | timeout | canceled | fail => exact refused resumed

end EventFlags

namespace MessageQueue

variable {β : Type} {q : Shape} {r : Request β}

def Request.timeout : Request β → Option Int
  | .put _ timeout | .putFront _ timeout | .get _ timeout | .peek _ timeout | .peekFront _ timeout => some timeout
  | .reset => none

def Answer.timedOut (a : Answer β) : Bool := decide (a.result = .timeout)

def Request.opens (q : Shape) (s : SlotRing β) : Request β → Bool
  | .put _ _ | .putFront _ _ => decide (s.count = q.capacity)
  | .get _ _ | .peek _ _ | .peekFront _ _ => decide (s.count = 0)
  | .reset => false

def pace (q : Shape) : Pace (Request β) (SlotRing β) (Rest β) (Answer β) :=
  ⟨Request.timeout,Answer.timedOut,fun r since rest => r.start since = some rest,fun s r => r.opens q s,
    fun s rest result => decide (result = .signal) && rest.blocked q s⟩

theorem start_deadline (started : Request.start since r = some rest) : ∃ n,r.timeout = some n ∧ rest.deadline = .of since n := by
  cases r <;> cases started <;> exact ⟨_,rfl,rfl⟩

theorem start_opens (started : Request.start since r = some rest) (q : Shape) (s : SlotRing β) :
    r.opens q s = rest.blocked q s := by
  cases r <;> cases started <;> rfl

theorem Rest.go_done {rest : Rest β} (taken : rest.go q s = some sec) :
    ∃ a,sec.ending = .done a ∧ Answer.timedOut a = false := by
  cases rest with
  | putting | puttingFront | getting | peeking | peekingFront => obtain ⟨b,_,taken⟩ := of_bind taken; cases taken; exact ⟨_,rfl,rfl⟩

theorem signal_paced (started : Request.start since r = some rest) (resumed : resume q env s rest .signal = some sec) :
    Paced (pace q) r since env.now (rest.blocked q s) late sec.ending := by
  obtain ⟨n,asked,deadline⟩ := start_deadline started
  rw [resume_signal,deadline] at resumed
  have serves : (pace q).Serves r since rest := started
  refine waitWhile_paced resumed serves asked id ?_ Rest.go_done
  intro result _ failed
  cases failed
  exact ⟨_,rfl,fun reports => of_decide_eq_true reports⟩

theorem lawful (q : Shape) : Pace.Lawful (pace q) (program (β := β) q) fun _ => True := by
  refine ⟨?_,?_⟩
  · intro s now isr refused r sec _ entered
    refine ⟨trivial,?_⟩
    rcases enter_cases entered with ⟨rest,started,resumed⟩ | ⟨rfl,rfl⟩
    · have paced : Paced (pace q) r now now (rest.blocked q s) false sec.ending := signal_paced started resumed
      rwa [← start_opens started] at paced
    · exact .done fun reports => by cases reports
  · intro s r since rest now refused result sec _ started resumed
    refine ⟨trivial,?_⟩
    have resumed : resume q ⟨now,false,refused⟩ s rest result = some sec := resumed
    by_cases signaled : result = .signal
    · subst signaled
      exact signal_paced started resumed
    · rw [resume_failed q ⟨now,false,refused⟩ s rest signaled] at resumed
      cases resumed
      exact .done fun reports n asked => .inl reports

end MessageQueue

namespace Pipe

open SlotRing

variable {β : Type} {p : Shape} {q : Request β} {s : SlotRing β} {sec : Sect β} {rest : Rest β} {since : Int}

def Request.timeout : Request β → Option Int
  | .write _ timeout | .writeBulk _ _ timeout | .read _ timeout | .readBulk _ _ timeout | .readBulkTriggered _ _ _ timeout =>
    some timeout
  | .reset => none

def pace (p : Shape) : Pace (Request β) (SlotRing β) (Rest β) (Answer β) :=
  ⟨Request.timeout,fun a => decide (a.result = .timeout),Serves,fun s q => q.opens p s,
    fun s rest result => decide (result = .signal) && rest.stuck p s⟩

theorem Serves.deadline (serves : Serves q since rest) : ∃ n,q.timeout = some n ∧ rest.deadline = .of since n := by
  cases serves with
  | write asked | writeBulk asked | read asked | readBulk asked | triggered asked => exact ⟨_,by rw [asked]; rfl,rfl⟩

theorem Ended.paced (ended : Ended p env s rest result sec) (serves : Serves q since rest) :
    Paced (pace p) q since env.now (decide (result = .signal) && rest.stuck p s) (decide (result = .timeout)) sec.ending := by
  obtain ⟨n,asked,deadline⟩ := serves.deadline
  cases ended with
  | done a ending _ reports =>
    rw [ending]
    refine .done fun late m known => ?_
    cases known.symm.trans asked
    rcases reports (of_decide_eq_true late) with expired | ⟨signaled,stuck,ranOut⟩
    · exact .inl (decide_eq_true expired)
    · rw [deadline] at ranOut
      exact .inr ⟨by rw [signaled,stuck]; rfl,ranOut⟩
  | waits r remaining signaled stuck left more ending continues =>
    rw [ending]
    rw [deadline] at left
    exact .wait (by rw [signaled,stuck]; rfl) (serves.continues continues) asked left more

theorem lawful (p : Shape) : Pace.Lawful (pace p) (program (β := β) p) (Valid p.capacity p.size) := by
  refine ⟨?_,?_⟩
  · intro s now isr refused q sec valid entered
    have entered := enter_inv entered
    refine ⟨enter_valid valid entered,?_⟩
    cases entered with
    | starts r serves _ resumed opens =>
      have paced := (resume_act valid serves.proper resumed).ended.paced serves
      rw [opens] at paced
      exact paced
    | refuses a same _ other =>
      rw [same]
      exact .done fun reports => absurd (of_decide_eq_true reports) other
    | pauses r serves _ same =>
      rw [same]
      exact .pause serves
    | resets _ same =>
      rw [same]
      exact .done fun reports => by cases reports
  · intro s q since rest now refused result sec valid serves resumed
    have serves : Serves q since rest := serves
    have act := resume_act valid serves.proper resumed
    exact ⟨act.valid,act.ended.paced serves⟩

end Pipe

theorem timed_calls_keep_time {T β : Type} [DecidableEq T] :
    (∀ (w : Nat) (now : Int) (flags : BitVec w) (h : EventFlags.Flags T w),2 < w →
      Run (Hall.step EventFlags.program) (fun h e => EventFlags.pace.withinPeriod h e = true)
        (EventFlags.initial now flags) h → KeepsTime EventFlags.pace h) ∧
    (∀ (q : MessageQueue.Shape) (now : Int) (bytes : List β) (h : MessageQueue.Queue T β),
      Run (Hall.step (MessageQueue.program q)) (fun h e => (MessageQueue.pace q).withinPeriod h e = true)
        (MessageQueue.initial now bytes) h → KeepsTime (MessageQueue.pace q) h) ∧
    ∀ (p : Pipe.Shape) (now : Int) (bytes : List β) (h : Pipe.Channel T β),bytes.length = p.capacity * p.size →
      Run (Hall.step (Pipe.program p)) (fun h e => (Pipe.pace p).withinPeriod h e = true)
        (Pipe.initial now bytes) h → KeepsTime (Pipe.pace p) h := by
  refine ⟨?_,?_,?_⟩
  · intro w now flags h wide run
    exact (EventFlags.lawful wide).run run trivial rfl rfl
  · intro q now bytes h run
    exact (MessageQueue.lawful q).run run trivial rfl rfl
  · intro p now bytes h whole run
    exact (Pipe.lawful p).run run ⟨whole,p.holds,Nat.zero_le _,(Nat.zero_mod _).symm⟩ rfl rfl

-- A flag that is taken away again before the woken task runs, shortly before the 32-bit clock
-- starts again.
def flagTaken : List (Happening Nat (EventFlags.Request 8)) :=
  [.call 0 (.wait 1#8 0#32 3) false false,.proceed 0 false,.tick,.call 1 (.set 1#8) false false,
    .call 1 (.clear 1#8) false false,.run 0 false,.tick,.tick,.run 0 false]

def messageTaken : List (Happening Nat (MessageQueue.Request Nat)) :=
  [.call 0 (.get [0] 3) false false,.tick,.call 1 (.put [7] 0) false false,.call 2 (.get [0] 0) false false,
    .run 0 false,.tick,.tick,.run 0 false]

def elementTaken : List (Happening Nat (Pipe.Request Nat)) :=
  [.call 0 (.readBulk (some [0]) 1 3) false false,.proceed 0 false,.tick,.call 1 (.write [7] 0) false false,
    .call 2 (.read [0] 0) false false,.run 0 false,.tick,.tick,.run 0 false]

def onePlace : Pipe.Shape := Pipe.pipe 1 1 Nat.one_pos Nat.one_pos

theorem stolen_wakeups_keep_time :
    (∃ h : EventFlags.Flags Nat 8,exec (Hall.step EventFlags.program) (EventFlags.initial 2147483640 0#8) flagTaken =
        some h ∧ h.returned.map (fun r => r.answer) = some (.word EventFlags.errorTimeout) ∧ h.now = 2147483643 ∧
      KeepsTime EventFlags.pace h) ∧
    (∃ h : MessageQueue.Queue Nat Nat,exec (Hall.step (MessageQueue.program MessageQueue.oneSlot))
        (MessageQueue.initial 2147483640 [0]) messageTaken = some h ∧
      h.returned.map (fun r => r.answer) = some ⟨.timeout,[0]⟩ ∧ h.now = 2147483643 ∧
      KeepsTime (MessageQueue.pace MessageQueue.oneSlot) h) ∧
    ∃ h : Pipe.Channel Nat Nat,exec (Hall.step (Pipe.program onePlace)) (Pipe.initial 2147483640 [0]) elementTaken =
        some h ∧ h.returned.map (fun r => r.answer) = some (.bulk .timeout 0 [0]) ∧ h.now = 2147483643 ∧
      KeepsTime (Pipe.pace onePlace) h := by
  refine ⟨?_,?_,?_⟩
  · refine exec_shows (P := fun h => h.returned.map (fun r => r.answer) = some (.word EventFlags.errorTimeout) ∧
      h.now = 2147483643) (by decide) ?_
    intro h ran ⟨answer,now⟩
    have run := Run.ofExecAllowed EventFlags.pace.withinPeriod (by decide) ran
    exact ⟨answer,now,(timed_calls_keep_time (T := Nat) (β := Nat)).1 8 2147483640 0#8 h (by decide) run⟩
  · refine exec_shows (P := fun h => h.returned.map (fun r => r.answer) = some ⟨.timeout,[0]⟩ ∧ h.now = 2147483643)
      (by decide) ?_
    intro h ran ⟨answer,now⟩
    have run := Run.ofExecAllowed (MessageQueue.pace MessageQueue.oneSlot).withinPeriod (by decide) ran
    exact ⟨answer,now,timed_calls_keep_time.2.1 MessageQueue.oneSlot 2147483640 [0] h run⟩
  · refine exec_shows (P := fun h => h.returned.map (fun r => r.answer) = some (.bulk .timeout 0 [0]) ∧
      h.now = 2147483643) (by decide) ?_
    intro h ran ⟨answer,now⟩
    have run := Run.ofExecAllowed (Pipe.pace onePlace).withinPeriod (by decide) ran
    exact ⟨answer,now,timed_calls_keep_time.2.2 onePlace 2147483640 [0] h rfl run⟩

-- The deadline is behind the end of the period: the call reports a timeout at once.
theorem get_times_out_at_once : ∃ h : MessageQueue.Queue Nat Nat,
    exec (Hall.step (MessageQueue.program MessageQueue.oneSlot)) (MessageQueue.initial 2147483640 [0])
        [.call 0 (.get [0] 10) false false] = some h ∧
      h.returned = some ⟨⟨0,.get [0] 10,2147483640,[]⟩,⟨.timeout,[0]⟩⟩ ∧ h.now = 2147483640 ∧
      ¬KeepsTime (MessageQueue.pace MessageQueue.oneSlot) h := by
  refine exec_shows (P := fun h => h.returned = some ⟨⟨0,.get [0] 10,2147483640,[]⟩,⟨.timeout,[0]⟩⟩ ∧
    h.now = 2147483640) (by decide) ?_
  intro h _ ⟨returned,now⟩
  refine ⟨returned,now,fun keeps => ?_⟩
  have early := keeps.1 _ returned rfl 10 rfl (by decide)
  rw [now] at early
  exact absurd early (by decide)

end SuperTinyKernel
