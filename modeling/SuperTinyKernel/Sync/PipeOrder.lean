import SuperTinyKernel.Sync.Pipe

set_option linter.unusedSectionVars false

namespace SuperTinyKernel.Pipe

open Monitor SlotRing Transition

inductive Serves {β : Type} (q : Request β) (since : Int) : Rest β → Prop where
  | write : q = .write data timeout → Serves q since (.writing data (.of since timeout))
  | writeBulk : q = .writeBulk (some src) all timeout → written < all →
      Serves q since (.writingBulk src all written (.of since timeout))
  | read : q = .read data timeout → Serves q since (.reading data (.of since timeout))
  | readBulk : q = .readBulk (some dst) all timeout → readCount < all →
      Serves q since (.readingBulk dst' all readCount (.of since timeout))
  | triggered : q = .readBulkTriggered (some dst) trigger maxCount timeout → maxCount ≠ 0 →
      Serves q since (.triggered dst (clamp trigger maxCount) maxCount (.of since timeout))

variable {T β : Type} [DecidableEq T] {p : Shape} {h h' : Channel T β} {s : SlotRing β} {sec : Sect β} {rest : Rest β}
variable {q : Request β} {since : Int}

theorem clamp_bounds (some : maxCount ≠ 0) : 1 ≤ clamp trigger maxCount ∧ clamp trigger maxCount ≤ maxCount := by
  unfold clamp
  dsimp only
  split <;> split <;> omega

theorem Serves.proper (serves : Serves q since rest) : rest.proper := by
  cases serves with
  | write | read => trivial
  | writeBulk _ less | readBulk _ less => exact less
  | triggered _ some => exact clamp_bounds some

theorem Serves.continues (serves : Serves q since rest) (continues : Continues rest r) : Serves q since r := by
  cases continues with
  | same => exact serves
  | write less =>
    cases serves with
    | writeBulk asked => exact .writeBulk asked less
  | read less =>
    cases serves with
    | readBulk asked => exact .readBulk asked less

def Request.opens (p : Shape) (s : SlotRing β) : Request β → Bool
  | .write _ _ => decide (s.count = p.capacity)
  | .read _ _ => decide (s.count = 0)
  | _ => false

inductive Entered (p : Shape) (env : Ambient) (s : SlotRing β) (q : Request β) (sec : Sect β) : Prop where
  | starts (r : Rest β) : Serves q env.now r → r.moved = 0 → resume p env s r .signal = some sec →
      r.stuck p s = q.opens p s → Entered p env s q sec
  | refuses (a : Answer β) : sec = {shared := s,ending := .done a} → a.reported = 0 → a.result ≠ .timeout → Entered p env s q sec
  | pauses (r : Rest β) : Serves q env.now r → r.moved = 0 → sec = {shared := s,ending := .pause r} → Entered p env s q sec
  | resets : q = .reset → sec = reset s → Entered p env s q sec

theorem enter_inv (entered : enter p env s q = some sec) : Entered p env s q sec := by
  cases q with
  | write data timeout => exact .starts _ (.write rfl) rfl entered rfl
  | writeBulk src count timeout =>
    cases src with
    | none =>
      cases entered
      exact .refuses _ rfl rfl nofun
    | some src =>
      rw [enter] at entered
      split at entered
      · cases entered
        exact .refuses _ rfl rfl nofun
      · rename_i some
        cases entered
        exact .pauses _ (.writeBulk rfl (Nat.pos_of_ne_zero some)) rfl rfl
  | read data timeout => exact .starts _ (.read rfl) rfl entered rfl
  | readBulk dst count timeout =>
    cases dst with
    | none =>
      cases entered
      exact .refuses _ rfl rfl nofun
    | some dst =>
      rw [enter] at entered
      split at entered
      · cases entered
        exact .refuses _ rfl rfl nofun
      · rename_i some
        cases entered
        exact .pauses _ (.readBulk rfl (Nat.pos_of_ne_zero some)) rfl rfl
  | readBulkTriggered dst trigger maxCount timeout =>
    cases dst with
    | none =>
      cases entered
      exact .refuses _ rfl rfl nofun
    | some dst =>
      rw [enter] at entered
      split at entered
      · cases entered
        exact .refuses _ rfl rfl nofun
      · rename_i some
        cases entered
        exact .pauses _ (.triggered rfl some) rfl rfl
  | reset =>
    cases entered
    exact .resets rfl rfl

def Note.put : Note β → List (List β)
  | .wrote xs => xs
  | _ => []

def Note.got : Note β → List (List β)
  | .read xs => xs
  | _ => []

def written (log : List (T × Note β)) : List (List β) := log.flatMap fun e => e.2.put
def taken (log : List (T × Note β)) : List (List β) := log.flatMap fun e => e.2.got

def InOrder (p : Shape) (s : SlotRing β) (log : List (T × Note β)) : Prop :=
  written log = taken log ++ s.contents p.capacity p.size

theorem Move.in_order (move : Move p s t notices log) :
    s.contents p.capacity p.size ++ log.flatMap Note.put = log.flatMap Note.got ++ t.contents p.capacity p.size := by
  cases move with
  | still same => rw [same]; simp
  | wroteOne contents _ | wrote contents | readOne contents _ | read contents => rw [contents]; simp [Note.put,Note.got]

theorem InOrder.moves (order : InOrder p s log) (t : T) (move : Move p s sec.shared sec.notices sec.log) :
    InOrder p sec.shared (log ++ sec.log.map fun o => (t,o)) := by
  unfold InOrder written taken at *
  rw [List.flatMap_append,List.flatMap_append,order]
  simp only [List.flatMap_map,List.append_assoc]
  rw [move.in_order]

def noReset : Happening T (Request β) → Bool
  | .call _ .reset _ _ => false
  | _ => true

theorem transferred_append (left right : List (Note β)) : transferred (left ++ right) = transferred left + transferred right := by
  simp [transferred]

structure Calls (M : Request β → Prop) (call : Visit T (Request β) (Note β)) (rest : Rest β) : Prop where
  asked : M call.request
  serves : Serves call.request call.since rest
  moved : transferred call.log = rest.moved

inductive At (M : Request β → Prop) (call : Visit T (Request β) (Note β)) : Monitor.Place Cond (Rest β) (Answer β) → Prop where
  | waiting {rest : Rest β} : Calls M call rest → rest.cond = c → At M call (.waiting c left rest)
  | due {rest : Rest β} : Calls M call rest → rest.cond = c → At M call (.due c result rest)
  | paused {rest : Rest β} : Calls M call rest → At M call (.paused rest)
  | returned : a.reported = transferred call.log → At M call (.returned a)

variable {M : Request β → Prop} {ordered : Bool}

theorem Act.at_ (act : Act p env s rest result sec) (call : Visit T (Request β) (Note β)) (calls : Calls M call rest) :
    At M {call with log := call.log ++ sec.log} sec.ending.place := by
  have counted : transferred (call.log ++ sec.log) = rest.moved + transferred sec.log := by
    rw [transferred_append,calls.moved]
  cases act.ended with
  | done a ending reported =>
    rw [ending]
    exact .returned (reported.trans counted.symm)
  | waits r remaining _ _ _ _ ending continues moved =>
    rw [ending]
    refine .waiting ⟨calls.asked,calls.serves.continues continues,counted.trans moved.symm⟩ ?_
    cases continues <;> rfl

theorem enter_valid (valid : Valid p.capacity p.size s) (entered : Entered p env s q sec) :
    Valid p.capacity p.size sec.shared := by
  cases entered with
  | starts r serves _ resumed => exact (resume_act valid serves.proper resumed).valid
  | refuses a same | pauses r _ _ same => rw [same]; exact valid
  | resets _ same =>
    rw [same]
    exact ⟨valid.room,p.holds,Nat.zero_le _,(Nat.zero_mod _).symm⟩

-- What holds in every run, and `order` in those without Reset().
structure Kept (ordered : Bool) (M : Request β → Prop) (p : Shape) (h : Channel T β) : Prop where
  valid : Valid p.capacity p.size h.shared
  order : ordered = true → InOrder p h.shared h.log
  calls : Hall.Everywhere (At M) h

theorem Kept.due (kept : Kept ordered M p h) (member : d ∈ h.due) : Calls M d.call d.rest ∧ d.rest.cond = d.cond := by
  cases kept.calls.due d member with
  | due calls side => exact ⟨calls,side⟩

theorem Kept.paused (kept : Kept ordered M p h) (member : w ∈ h.paused) : Calls M w.call w.rest := by
  cases kept.calls.paused w member with
  | paused calls => exact calls

theorem Kept.step (kept : Kept ordered M p h) (keeps : ordered = true → noReset e = true)
    (asks : ∀ t q isr refused,e = .call t q isr refused → M q) (step : Hall.Step (program p) h e h') : Kept ordered M p h' := by
  have sound : (Valid p.capacity p.size h'.shared ∧ (ordered = true → InOrder p h'.shared h'.log)) ∧ Hall.Everywhere (At M) h' := by
    refine step.sound (G := fun s log => Valid p.capacity p.size s ∧ (ordered = true → InOrder p s log)) (R := fun _ => At M)
      ⟨kept.valid,kept.order⟩ kept.calls ?_ ?_ ?_ ?_
    · intro call x y ticks at_
      cases ticks with
      | on => cases at_ with | waiting calls side => exact .waiting calls side
      | out => cases at_ with | waiting calls side => exact .due calls side
      | due | paused => exact at_
    · intro call c left result rest _ (.waiting calls side)
      exact .due calls side
    · rintro t q isr refused sec rfl entered
      have entered := enter_inv entered
      have asked := asks t q isr refused rfl
      refine ⟨⟨enter_valid kept.valid entered,fun whole => ?_⟩,?_⟩
      · cases entered with
        | starts r serves _ resumed => exact (kept.order whole).moves t (resume_act kept.valid serves.proper resumed).move
        | refuses a same | pauses r _ _ same => rw [same]; exact (kept.order whole).moves t (.still rfl)
        | resets reset =>
          have keeps := keeps whole
          rw [reset] at keeps
          cases keeps
      · cases entered with
        | starts r serves zero resumed =>
          exact (resume_act kept.valid serves.proper resumed).at_ ⟨t,q,h.now,[]⟩ ⟨asked,serves,zero.symm⟩
        | refuses a same reported => rw [same]; exact .returned reported
        | pauses r serves zero same => rw [same]; exact .paused ⟨asked,serves,zero.symm⟩
        | resets _ same => rw [same]; exact .returned rfl
    · intro call x rest result refused sec back at_ resumed
      have calls : Calls M call rest := by
        cases back with
        | run => cases at_ with | due calls => exact calls
        | proceed => cases at_ with | paused calls => exact calls
      have act := resume_act kept.valid calls.serves.proper resumed
      exact ⟨⟨act.valid,fun whole => (kept.order whole).moves _ act.move⟩,act.at_ call calls⟩
  exact ⟨sound.1.1,sound.1.2,sound.2⟩

theorem Kept.start (p : Shape) (now : Int) {bytes : List β} (whole : bytes.length = p.capacity * p.size) :
    Kept ordered M p (initial now bytes : Channel T β) :=
  ⟨⟨whole,p.holds,Nat.zero_le _,(Nat.zero_mod _).symm⟩,fun _ => rfl,.start rfl rfl⟩

-- What has been read comes first in what has been written, the rest is in the ring, and the
-- counts are exact; the loop of PipeT does the same as its block copy.
theorem elements_in_order {bytes : List β} (whole : bytes.length = p.capacity * p.size)
    (run : Run (Hall.step (program p)) (fun _ e => noReset e = true) (initial now bytes : Channel T β) h) :
    (written h.log = taken h.log ++ h.shared.contents p.capacity p.size ∧
      ∀ r,h.returned = some r → r.answer.reported = transferred r.call.log) ∧
      ∀ (from_ room : List β) (n k : Nat),n ≤ p.capacity → (k + n) * p.size ≤ from_.length → (k + n) * p.size ≤ room.length →
        fillLoop p from_ n h.shared k = fillBlock p from_ n h.shared k ∧
          drainLoop p n h.shared room k = drainBlock p n h.shared room k := by
  have kept : Kept true (fun _ => True) p h :=
    run.keeps (Kept.start p now whole) fun h e h' kept keeps taken =>
      kept.step (fun _ => keeps) (fun _ _ _ _ _ => trivial) (Hall.step_inv taken)
  refine ⟨⟨kept.order rfl,?_⟩,?_⟩
  · intro r ended
    cases kept.calls.returned r ended with
    | returned reported => exact reported
  intro from_ room n k few given fits
  exact ⟨fillLoop_eq_fillBlock kept.valid few given,drainLoop_eq_drainBlock kept.valid few fits⟩

def threeThroughTwo : List (Happening Nat (Request Nat)) :=
  [.call 0 (.write [5] 0) false false,.call 1 (.read [0] 0) false false,
    .call 0 (.writeBulk (some [6,7,8]) 3 4) false false,.proceed 0 false,
    .call 1 (.readBulk (some [0,0,0]) 3 4) false false,.proceed 1 false,.run 0 false,.run 1 false]

theorem threeThroughTwo_in_order : ∃ h : Channel Nat Nat,
    exec (Hall.step (program (pipeT 2 true Nat.two_pos))) (initial 0 [0,0]) threeThroughTwo = some h ∧
      taken h.log = [[5],[6],[7],[8]] ∧ h.returned.map (fun r => r.answer) = some (.bulk .signal 3 [6,7,8]) ∧
      written h.log = taken h.log ++ h.shared.contents 2 1 := by
  refine exec_shows (P := fun h => taken h.log = [[5],[6],[7],[8]] ∧
    h.returned.map (fun r => r.answer) = some (.bulk .signal 3 [6,7,8])) (by decide) ?_
  intro h ran ⟨read,answer⟩
  exact ⟨read,answer,(elements_in_order rfl (.ofExecAllowed (fun _ e => noReset e) (by decide) ran)).1.1⟩

end SuperTinyKernel.Pipe
