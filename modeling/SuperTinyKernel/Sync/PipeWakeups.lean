import SuperTinyKernel.Sync.PipeOrder

set_option linter.unusedSectionVars false

namespace SuperTinyKernel.Pipe

open Monitor SlotRing Transition
open List hiding after

-- Who is left waiting. A single write may wake a reader that needs more than there is.

variable {T β : Type} [DecidableEq T] {p : Shape} {h h' : Channel T β} {s : SlotRing β} {sec : Sect β} {rest : Rest β}
variable {call : Visit T (Request β) (Note β)} {ordered : Bool} {M : Request β → Prop}

theorem Move.counts {t : SlotRing β} (move : Move p s t notices log) :
    (t.count = s.count ∧ notices = []) ∨ (t.count = s.count + 1 ∧ notices = [.one .notEmpty]) ∨
      (s.count ≤ t.count ∧ notices = [.all .notEmpty]) ∨ (t.count + 1 = s.count ∧ notices = [.one .notFull]) ∨
      (t.count ≤ s.count ∧ notices = [.all .notFull]) := by
  cases move with
  | still same => exact .inl ⟨by rw [same],rfl⟩
  | wroteOne contents one =>
    have sizes := congrArg List.length contents
    rw [length_append,contents_length,contents_length,one] at sizes
    exact .inr (.inl ⟨sizes,rfl⟩)
  | wrote contents =>
    have sizes := congrArg List.length contents
    rw [length_append,contents_length,contents_length] at sizes
    exact .inr (.inr (.inl ⟨by omega,rfl⟩))
  | readOne contents one =>
    have sizes := congrArg List.length contents
    rw [length_append,contents_length,contents_length,one] at sizes
    exact .inr (.inr (.inr (.inl ⟨by omega,rfl⟩)))
  | read contents =>
    have sizes := congrArg List.length contents
    rw [length_append,contents_length,contents_length] at sizes
    exact .inr (.inr (.inr (.inr ⟨by omega,rfl⟩)))

theorem Rest.need_writer (side : rest.cond = .notFull) : rest.need = 1 := by
  cases rest with
  | triggered => cases side
  | _ => rfl

theorem Kept.waits (kept : Kept ordered M p h) : ∀ w ∈ h.waiting,w.rest.cond = w.cond ∧ 0 < w.rest.need := by
  intro w member
  cases kept.calls.waiting w member with
  | waiting calls side => exact ⟨side,Rest.need_pos calls.serves.proper⟩

theorem fair_notFull (waits : ∀ w ∈ h.waiting,w.rest.cond = w.cond ∧ 0 < w.rest.need) (n : Nat) :
    Hall.fair Rest.need .notFull n h = true := by
  unfold Hall.fair
  cases found : h.waiting.find? fun f => decide (f.cond = Cond.notFull) with
  | none => rfl
  | some f =>
    have first : f.cond = .notFull := by simpa using List.find?_some found
    have one := Rest.need_writer ((waits f (mem_of_find?_eq_some found)).1.trans first)
    refine all_eq_true.mpr fun w member => decide_eq_true fun at_ => .inl ?_
    rw [one,Rest.need_writer ((waits w member).1.trans at_)]

theorem Act.waits_side (act : Act p env s rest result sec) :
    ∀ c left r,sec.ending = .wait c left r → c = rest.cond ∧ level p sec.shared c < r.need := by
  intro c left r waits
  cases act.ended with
  | done a ending => rw [ending] at waits; cases waits
  | waits r remaining _ _ _ _ ending continues _ short =>
    rw [ending] at waits
    cases waits
    exact ⟨rfl,short⟩

def Attended (p : Shape) (h : Channel T β) : Prop := ∀ c,Hall.Covered Rest.need c (level p h.shared c) h

theorem Act.attends (act : Act p env h.shared rest result sec) (waits : ∀ w ∈ h.waiting,w.rest.cond = w.cond ∧ 0 < w.rest.need)
    (taken : Hall.Covered Rest.need rest.cond (level p sec.shared rest.cond) h)
    (others : ∀ c,c ≠ rest.cond → Hall.Covered Rest.need c (level p h.shared c) h)
    (fair : sec.notices = [.one .notEmpty] → Hall.fair Rest.need .notEmpty h.shared.count h = true) :
    Attended p (h.perform call sec) := by
  intro c
  rw [Hall.perform_shared]
  have some : ∀ w ∈ h.waiting,w.cond = c → 0 < w.rest.need := fun w member _ => (waits w member).2
  by_cases own : c = rest.cond
  · subst own
    exact taken.perform call fun left r waits => (act.waits_side _ left r waits).2
  · have elsewhere : ∀ {n : Nat} left r,sec.ending = .wait c left r → n < r.need :=
      fun left r waits => absurd (act.waits_side c left r waits).1 own
    have before := others c own
    have lowers : level p sec.shared c ≤ level p h.shared c → Hall.Covered Rest.need c (level p sec.shared c) (h.perform call sec) :=
      fun less => (before.lower less).perform call elsewhere
    have bound := act.valid.count
    cases c with
    | notEmpty =>
      rcases act.move.counts with ⟨same,_⟩ | ⟨one,only⟩ | ⟨_,all⟩ | ⟨less,_⟩ | ⟨less,_⟩
      · exact lowers (Nat.le_of_eq same)
      · show Hall.Covered Rest.need Cond.notEmpty sec.shared.count _
        rw [one]
        exact before.perform_one call only elsewhere (fair only) some
      · exact Hall.Covered.perform_all call (by rw [all]; exact mem_cons_self) elsewhere
      · exact lowers (by show sec.shared.count ≤ h.shared.count; omega)
      · exact lowers less
    | notFull =>
      have fewer : h.shared.count ≤ sec.shared.count → level p sec.shared .notFull ≤ level p h.shared .notFull :=
        fun more => Nat.sub_le_sub_left more _
      rcases act.move.counts with ⟨same,_⟩ | ⟨one,_⟩ | ⟨more,_⟩ | ⟨less,only⟩ | ⟨_,all⟩
      · exact lowers (fewer (by omega))
      · exact lowers (fewer (by omega))
      · exact lowers (fewer more)
      · refine (before.perform_one call only elsewhere (fair_notFull waits _) some).lower ?_
        show p.capacity - sec.shared.count ≤ p.capacity - h.shared.count + 1
        omega
      · exact Hall.Covered.perform_all call (by rw [all]; exact mem_cons_self) elsewhere

def writesOne (h : Channel T β) : Happening T (Request β) → Bool
  | .call _ (.write _ _) _ _ => true
  | .run t _ => (h.due.find? fun d => decide (d.call.task = t)).any fun d => d.rest.writesOne && decide (d.result = .signal)
  | .proceed t _ => (h.paused.find? fun w => decide (w.call.task = t)).any fun w => w.rest.writesOne
  | _ => false

-- It then wakes a reader that needs no more than any other that could use the element.
def wakesTheRightOne (p : Shape) (h : Channel T β) (e : Happening T (Request β)) : Bool :=
  !(writesOne h e && decide (h.shared.count < p.capacity)) || Hall.fair Rest.need .notEmpty h.shared.count h

theorem Attended.nothing (attended : Attended p h) (shared : sec.shared = h.shared)
    (ends : ∀ c left r,sec.ending ≠ .wait c left r) : Attended p (h.perform call sec) := by
  intro c
  rw [Hall.perform_shared,shared]
  exact (attended c).perform call fun left r waits => absurd waits (ends c left r)

theorem Attended.reset (attended : Attended p h) : Attended p (h.perform call (reset h.shared)) := by
  intro c
  rw [Hall.perform_shared]
  cases c with
  | notEmpty => exact ((attended .notEmpty).lower (Nat.zero_le _)).perform call nofun
  | notFull => exact Hall.Covered.perform_all call mem_cons_self nofun

theorem Attended.quiet (attended : Attended p h) (quiet : Hall.Quiet h h') : Attended p h' := by
  intro c
  rw [quiet.shared]
  exact (attended c).quiet quiet

theorem Act.room (act : Act p env s rest result sec) (only : sec.notices = [.one .notEmpty]) : s.count < p.capacity := by
  have bound := act.valid.count
  rcases act.move.counts with ⟨_,other⟩ | ⟨one,_⟩ | ⟨_,other⟩ | ⟨_,other⟩ | ⟨_,other⟩
  case inr.inl => omega
  all_goals rw [only] at other; cases other

theorem fair_of_right (right : wakesTheRightOne p h e = true) (writes : writesOne h e = true) (room : h.shared.count < p.capacity) :
    Hall.fair Rest.need .notEmpty h.shared.count h = true := by
  rwa [wakesTheRightOne,writes,decide_eq_true room,Bool.true_and,Bool.not_true,Bool.false_or] at right

theorem Serves.writesOne (serves : Serves q since rest) (one : rest.writesOne = true) : ∃ data timeout,q = .write data timeout := by
  cases serves with
  | write asked => exact ⟨_,_,asked⟩
  | writeBulk | read | readBulk | triggered => cases one

theorem Rest.cond_writesOne (one : rest.writesOne = true) : rest.cond = .notFull := by
  cases rest with
  | writing => rfl
  | _ => cases one

theorem Attended.enter (attended : Attended p h) (kept : Kept ordered M p h)
    (right : wakesTheRightOne p h (.call t q isr refused) = true) (entered : Entered p ⟨h.now,isr,refused⟩ h.shared q sec) :
    Attended p (h.perform call sec) := by
  cases entered with
  | starts r serves _ resumed =>
    have act := resume_act kept.valid serves.proper resumed
    refine act.attends kept.waits ((attended _).lower act.less) (fun c _ => attended c) ?_
    intro only
    obtain ⟨data,timeout,asked⟩ := serves.writesOne (act.alone only).1
    refine fair_of_right right ?_ (act.room only)
    rw [asked]
    rfl
  | refuses a same | pauses r _ _ same => rw [same]; exact attended.nothing rfl nofun
  | resets _ same => rw [same]; exact attended.reset

theorem Attended.run (attended : Attended p h) (kept : Kept ordered M p h) (right : wakesTheRightOne p h (.run t refused) = true)
    (split : h.due = before ++ d :: after) (found : h.due.find? (fun d => decide (d.call.task = t)) = some d)
    (resumed : resume p env h.shared d.rest d.result = some sec) :
    Attended p (Hall.perform {h with due := before ++ after} d.call sec) := by
  obtain ⟨calls,side⟩ := kept.due (mem_of_find?_eq_some found)
  have act := resume_act kept.valid calls.serves.proper resumed
  refine Act.attends (h := {h with due := before ++ after}) act kept.waits ?_ ?_ ?_
  · exact (attended _).run split act.less fun _ signaled => act.used signaled
  · intro c other
    exact (attended c).run split (Nat.le_refl _) fun same _ => absurd (side.trans same).symm other
  · intro only
    obtain ⟨one,signaled⟩ := act.alone only
    have elsewhere : d.cond ≠ .notEmpty := by
      rw [← side,Rest.cond_writesOne one]
      nofun
    rw [Hall.fair_run split elsewhere]
    refine fair_of_right right ?_ (act.room only)
    rw [writesOne,found,Option.any_some,one,signaled]
    rfl

theorem Attended.step (attended : Attended p h) (kept : Kept ordered M p h) (right : wakesTheRightOne p h e = true)
    (step : Hall.Step (program p) h e h') : Attended p h' := by
  cases step with
  | call _ entered => exact attended.enter kept right (enter_inv entered)
  | run split found resumed => exact attended.run kept right split found resumed
  | @proceed before w after t refused sec split found resumed =>
    have act := resume_act kept.valid (kept.paused (mem_of_find?_eq_some found)).serves.proper resumed
    refine Act.attends (h := {h with paused := before ++ after}) act kept.waits ((attended _).lower act.less)
      (fun c _ => attended c) ?_
    intro only
    refine fair_of_right (h := h) right ?_ (act.room only)
    rw [writesOne,found,Option.any_some]
    exact (act.alone only).1
  | tick => exact attended.quiet h.elapse_quiet
  | cancel split _ => exact attended.quiet (Hall.cancel_quiet split)

def Request.canMove (p : Shape) (s : SlotRing β) : Request β → Bool
  | .write _ _ | .writeBulk _ _ _ => decide (s.count < p.capacity)
  | .read _ _ | .readBulk _ _ _ => decide (0 < s.count)
  | .readBulkTriggered _ trigger maxCount _ => decide (clamp trigger maxCount ≤ s.count)
  | .reset => true

theorem Serves.cannot_move (serves : Serves q since rest) (short : level p s rest.cond < rest.need) :
    q.canMove p s = false := by
  cases serves with
  | write asked | writeBulk asked =>
    rw [asked]
    have short : p.capacity - s.count < 1 := short
    exact decide_eq_false (by omega)
  | read asked | readBulk asked =>
    rw [asked]
    have short : s.count < 1 := short
    exact decide_eq_false (by omega)
  | triggered asked =>
    rw [asked]
    exact decide_eq_false (Nat.not_le_of_lt short)

theorem nobody_waits_for_what_is_there {bytes : List β} (whole : bytes.length = p.capacity * p.size)
    (run : Run (Hall.step (program p)) (fun h e => wakesTheRightOne p h e = true) (initial now bytes : Channel T β) h) :
    h.due = [] → ∀ w ∈ h.waiting,w.call.request.canMove p h.shared = false := by
  have reached : Kept false (fun _ => True) p h ∧ Attended p h := by
    refine run.keeps (I := fun h => Kept false (fun _ => True) p h ∧ Attended p h) ⟨Kept.start p now whole,fun c w member => by cases member⟩ ?_
    intro h e h' before right taken
    have step := Hall.step_inv taken
    exact ⟨before.1.step nofun (fun _ _ _ _ _ => trivial) step,before.2.step before.1 right step⟩
  intro settled w member
  obtain ⟨kept,attended⟩ := reached
  have short := (attended w.cond).settled settled member rfl
  cases kept.calls.waiting w member with
  | waiting calls side =>
    rw [← side] at short
    exact calls.serves.cannot_move short

def readersInOrder : List (Happening Nat (Request Nat)) :=
  [.call 0 (.read [0] waitInfinite) false false,.call 1 (.readBulkTriggered (some [0,0]) 2 2 waitInfinite) false false,
    .proceed 1 false,.call 2 (.write [7] 0) false false,.run 0 false]

theorem readersInOrder_served : ∃ h : Channel Nat Nat,
    exec (Hall.step (program (pipe 2 1 Nat.two_pos Nat.one_pos))) (initial 0 [0,0]) readersInOrder = some h ∧
      h.due.isEmpty = true ∧ h.waiting.map (fun w => w.call.task) = [1] ∧ h.shared.count = 0 ∧
      (h.due = [] → ∀ w ∈ h.waiting,w.call.request.canMove (pipe 2 1 Nat.two_pos Nat.one_pos) h.shared = false) := by
  refine exec_shows (P := fun h => h.due.isEmpty = true ∧ h.waiting.map (fun w => w.call.task) = [1] ∧ h.shared.count = 0)
    (by decide) ?_
  intro h ran ⟨nobody,waits,empty⟩
  have run := Run.ofExecAllowed (wakesTheRightOne (pipe 2 1 Nat.two_pos Nat.one_pos)) (by decide) ran
  exact ⟨nobody,waits,empty,nobody_waits_for_what_is_there rfl run⟩

-- The reader that has come first needs two elements, and one is written.
def greedyReaderFirst : List (Happening Nat (Request Nat)) :=
  [.call 0 (.readBulkTriggered (some [0,0]) 2 2 waitInfinite) false false,.proceed 0 false,
    .call 1 (.read [0] waitInfinite) false false,.call 2 (.write [7] 0) false false,.run 0 false]

theorem greedyReaderFirst_starves : ∃ h : Channel Nat Nat,
    exec (Hall.step (program (pipe 2 1 Nat.two_pos Nat.one_pos))) (initial 0 [0,0]) greedyReaderFirst = some h ∧
      h.due.isEmpty = true ∧ h.shared.count = 1 ∧
      h.waiting.map (fun w => (w.call.task,w.call.request.canMove (pipe 2 1 Nat.two_pos Nat.one_pos) h.shared)) =
        [(1,true),(0,false)] := by
  decide

def Request.modest (p : Shape) : Request β → Bool
  | .readBulkTriggered (some _) trigger maxCount _ => decide (clamp trigger maxCount ≤ p.capacity)
  | _ => true

def modest (p : Shape) : Happening T (Request β) → Bool
  | .call _ q _ _ => q.modest p
  | _ => true

theorem Serves.modest (serves : Serves q since rest) (modest : q.modest p = true) : rest.need ≤ p.capacity := by
  cases serves with
  | write | writeBulk | read | readBulk => exact p.holds
  | triggered asked =>
    rw [asked] at modest
    exact of_decide_eq_true modest

def Relieved (p : Shape) (h : Channel T β) : Prop :=
  h.shared.count = p.capacity → ∀ w ∈ h.waiting,w.cond = .notEmpty → ∃ d ∈ h.due,d.cond = .notEmpty ∧ d.result = .signal

theorem Continues.need (continues : Continues rest r) : r.need = rest.need := by
  cases continues <;> rfl

theorem Act.relieves (act : Act p env h.shared rest result sec) (few : h.shared.count ≤ p.capacity) (modest : rest.need ≤ p.capacity)
    (before : h.shared.count = p.capacity → sec.shared.count = p.capacity →
      ∀ w ∈ h.waiting,w.cond = .notEmpty → ∃ d ∈ h.due,d.cond = .notEmpty ∧ d.result = .signal) :
    Relieved p (h.perform call sec) := by
  intro full w member at_
  rw [Hall.perform_shared] at full
  rcases Hall.perform_waiting member with ⟨old,untold⟩ | ⟨c,left,r,ending,rfl⟩
  · have keeps : h.shared.count = p.capacity → ∃ d ∈ (h.perform call sec).due,d.cond = .notEmpty ∧ d.result = .signal := by
      intro already
      obtain ⟨d,due,signaled⟩ := before already full w old at_
      exact ⟨d,Hall.perform_keeps_due call sec due,signaled⟩
    rcases act.move.counts with ⟨same,_⟩ | ⟨_,only⟩ | ⟨_,all⟩ | ⟨less,_⟩ | ⟨less,_⟩
    · exact keeps (by omega)
    · have someone := Hall.perform_someone call old (.inl (by rw [only,at_]))
      rwa [at_] at someone
    · rw [all,at_] at untold
      exact absurd mem_cons_self untold
    · exact absurd few (by omega)
    · exact keeps (by omega)
  · -- A reader does not come to wait for a full pipe.
    have short := (act.waits_side c left r ending).2
    cases act.ended with
    | done a ended => rw [ending] at ended; cases ended
    | waits r' remaining _ _ _ _ ended continues =>
      rw [ending] at ended
      cases ended
      rw [continues.need] at short
      have at_ : rest.cond = .notEmpty := at_
      rw [at_] at short
      have short : sec.shared.count < rest.need := short
      omega

theorem Relieved.step (relieved : Relieved p h) (kept : Kept ordered (fun q => q.modest p = true) p h)
    (asks : Pipe.modest p e = true)
    (step : Hall.Step (program p) h e h') : Relieved p h' := by
  have quiets : Hall.Quiet h h' → Relieved p h' := by
    intro quiet full w member at_
    rw [quiet.shared] at full
    obtain ⟨v,before,_,cond,_⟩ := quiet.waiting w member
    obtain ⟨d,due,signaled⟩ := relieved full v before (cond.trans at_)
    obtain ⟨new,grown,_⟩ := quiet.due
    exact ⟨d,by rw [grown]; exact mem_append_left _ due,signaled⟩
  cases step with
  | @call t isr refused q sec _ entered =>
    have nothing : sec.shared = h.shared → (∀ c left r,sec.ending ≠ .wait c left r) →
        Relieved p (h.perform ⟨t,q,h.now,[]⟩ sec) := by
      intro shared ends full w member at_
      rw [Hall.perform_shared,shared] at full
      rcases Hall.perform_waiting member with ⟨old,_⟩ | ⟨c,left,r,ending,_⟩
      · obtain ⟨d,due,signaled⟩ := relieved full w old at_
        exact ⟨d,Hall.perform_keeps_due _ sec due,signaled⟩
      · exact absurd ending (ends c left r)
    cases enter_inv entered with
    | starts r serves _ resumed =>
      have act := resume_act kept.valid serves.proper resumed
      exact act.relieves kept.valid.count (serves.modest asks) fun full _ => relieved full
    | refuses a same | pauses r _ _ same => exact nothing (by rw [same]) (by rw [same]; nofun)
    | resets _ same =>
      rw [same]
      intro full
      rw [Hall.perform_shared] at full
      exact absurd full (Nat.ne_of_lt p.holds)
  | @run before d after _ _ sec split found resumed =>
    obtain ⟨calls,side⟩ := kept.due (mem_of_find?_eq_some found)
    have serves := calls.serves
    have modest := serves.modest calls.asked
    have act := resume_act kept.valid serves.proper resumed
    refine Act.relieves (h := {h with due := before ++ after}) act kept.valid.count modest ?_
    intro full still w waits at_
    obtain ⟨y,due,cond,signaled⟩ := relieved full w waits at_
    rw [split] at due
    rcases mem_append.mp due with left | right
    · exact ⟨y,mem_append_left _ left,cond,signaled⟩
    · rcases mem_cons.mp right with rfl | right
      · -- The woken reader itself would have taken something.
        have side := side.trans cond
        have used := act.used signaled
        have positive := Rest.need_pos serves.proper
        rw [side] at used
        have used : sec.shared.count + y.rest.need ≤ h.shared.count ∨ h.shared.count < y.rest.need := used
        have full : h.shared.count = p.capacity := full
        omega
      · exact ⟨y,mem_append_right _ right,cond,signaled⟩
  | @proceed before w after _ _ sec split found resumed =>
    have calls := kept.paused (mem_of_find?_eq_some found)
    have act := resume_act kept.valid calls.serves.proper resumed
    exact Act.relieves (h := {h with paused := before ++ after}) act kept.valid.count (calls.serves.modest calls.asked)
      fun full _ => relieved full
  | tick => exact quiets h.elapse_quiet
  | cancel split _ => exact quiets (Hall.cancel_quiet split)

def Request.reads : Request β → Bool
  | .read _ _ | .readBulk _ _ _ | .readBulkTriggered _ _ _ _ => true
  | _ => false

theorem Serves.reads (serves : Serves q since rest) (reads : q.reads = true) : rest.cond = .notEmpty := by
  cases serves with
  | write asked | writeBulk asked => rw [asked] at reads; cases reads
  | read | readBulk | triggered => rfl

theorem full_pipe_blocks_no_reader {bytes : List β} (whole : bytes.length = p.capacity * p.size)
    (run : Run (Hall.step (program p)) (fun _ e => modest p e = true) (initial now bytes : Channel T β) h) :
    h.due = [] → h.shared.count = p.capacity → ∀ w ∈ h.waiting,w.call.request.reads = false := by
  have reached : Kept false (fun q => q.modest p = true) p h ∧ Relieved p h := by
    refine run.keeps (I := fun h => Kept false (fun q => q.modest p = true) p h ∧ Relieved p h)
      ⟨Kept.start p now whole,fun _ w member => by cases member⟩ ?_
    intro h e h' ⟨kept,relieved⟩ asks taken
    have step := Hall.step_inv taken
    refine ⟨kept.step nofun ?_ step,relieved.step kept asks step⟩
    rintro t q isr refused rfl
    exact asks
  obtain ⟨kept,relieved⟩ := reached
  intro settled full w member
  refine eq_false_of_ne_true fun reads => ?_
  obtain ⟨d,due,_⟩ : ∃ d ∈ h.due,d.cond = .notEmpty ∧ d.result = .signal := by
    cases kept.calls.waiting w member with
    | waiting calls side => exact relieved full w member (side.symm.trans (calls.serves.reads reads))
  rw [settled] at due
  cases due

def triggerInReach : List (Happening Nat (Request Nat)) :=
  [.call 0 (.readBulkTriggered (some [0,0]) 1 2 waitInfinite) false false,.proceed 0 false,
    .call 1 (.write [7] waitInfinite) false false,.call 1 (.write [8] waitInfinite) false false,.run 0 false,.run 1 false]

theorem triggerInReach_flows : ∃ h : Channel Nat Nat,
    exec (Hall.step (program (pipe 1 1 Nat.one_pos Nat.one_pos))) (initial 0 [0]) triggerInReach = some h ∧
      h.due.isEmpty = true ∧ h.waiting.isEmpty = true ∧ h.shared.count = 1 ∧
      (h.due = [] → h.shared.count = 1 → ∀ w ∈ h.waiting,w.call.request.reads = false) := by
  refine exec_shows (P := fun h => h.due.isEmpty = true ∧ h.waiting.isEmpty = true ∧ h.shared.count = 1) (by decide) ?_
  intro h ran ⟨nobody,all,full⟩
  have run := Run.ofExecAllowed (fun _ e => modest (pipe 1 1 Nat.one_pos Nat.one_pos) e) (by decide) ran
  exact ⟨nobody,all,full,full_pipe_blocks_no_reader rfl run⟩

-- The reader waits for two elements of a pipe that holds one.
def triggerOutOfReach : List (Happening Nat (Request Nat)) :=
  [.call 0 (.readBulkTriggered (some [0,0]) 2 2 waitInfinite) false false,.proceed 0 false,
    .call 1 (.write [7] waitInfinite) false false,.run 0 false,.call 1 (.write [8] waitInfinite) false false]

theorem triggerOutOfReach_deadlocks : ∃ h : Channel Nat Nat,
    exec (Hall.step (program (pipe 1 1 Nat.one_pos Nat.one_pos))) (initial 0 [0]) triggerOutOfReach = some h ∧
      h.due.isEmpty = true ∧ h.shared.count = 1 ∧
      h.waiting.map (fun w => (w.call.task,w.call.request.reads,w.left)) = [(0,true,none),(1,false,none)] := by
  decide

end SuperTinyKernel.Pipe
