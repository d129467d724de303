import SuperTinyKernel.Library.SlotRing
import SuperTinyKernel.Library.Supply
import SuperTinyKernel.Sync.Wait

set_option linter.unusedSectionVars false

namespace SuperTinyKernel.MessageQueue

open Monitor SlotRing Transition List

-- sync::MessageQueue over a buffer of any kind of bytes.

structure Shape where
  capacity : Nat
  size : Nat
  holds : 0 < capacity
  sized : 0 < size

variable {β : Type} {q : Shape}

-- A message is at least `size` bytes at msg_ptr, read when it is put, or the room for one.
inductive Request (β : Type) where
  | put (msg : List β) (timeout : Int)
  | putFront (msg : List β) (timeout : Int)
  | get (room : List β) (timeout : Int)
  | peek (room : List β) (timeout : Int)
  | peekFront (room : List β) (timeout : Int)
  | reset
  deriving DecidableEq,Repr

-- m_cv_not_empty and m_cv_not_full.
inductive Cond where
  | notEmpty | notFull
  deriving DecidableEq,Repr

inductive Rest (β : Type) where
  | putting (msg : List β) (deadline : Deadline)
  | puttingFront (msg : List β) (deadline : Deadline)
  | getting (room : List β) (deadline : Deadline)
  | peeking (room : List β) (deadline : Deadline)
  | peekingFront (room : List β) (deadline : Deadline)
  deriving DecidableEq,Repr

structure Answer (β : Type) where
  result : Wakeup
  data : List β := []
  deriving DecidableEq,Repr

inductive Op (β : Type) where
  | put (msg : List β)
  | putFront (msg : List β)
  | get (msg : List β)
  | peek (msg : List β)
  | reset
  deriving DecidableEq,Repr

abbrev Sect (β : Type) := Section (SlotRing β) Cond (Rest β) (Answer β) (Op β)
abbrev Queue (T β : Type) := Hall T (Request β) (SlotRing β) Cond (Rest β) (Answer β) (Op β)

def Shape.slotAt (q : Shape) (idx : Nat) : Nat := idx * q.size
def Shape.next (q : Shape) (idx : Nat) : Nat := (idx + 1) % q.capacity
def Shape.prev (q : Shape) (idx : Nat) : Nat := if idx = 0 then q.capacity - 1 else idx - 1

def failed (s : SlotRing β) (room : List β) (result : Wakeup) : Option (Sect β) :=
  some {shared := s,ending := .done ⟨result,room⟩}

def waitNotFull (q : Shape) (env : Ambient) (s : SlotRing β) (deadline : Deadline) (rest : Rest β)
    (go : Option (Sect β)) : Option (Sect β) :=
  waitWhile env (decide (s.count = q.capacity)) .notFull deadline rest s (failed s []) go

def waitNotEmpty (env : Ambient) (s : SlotRing β) (deadline : Deadline) (rest : Rest β) (room : List β)
    (go : Option (Sect β)) : Option (Sect β) :=
  waitWhile env (decide (s.count = 0)) .notEmpty deadline rest s (failed s room) go

-- What PutEx, PutFrontEx, GetEx and the two peeks do behind the wait.
def enqueue (q : Shape) (s : SlotRing β) (msg : List β) : Option (Sect β) := do
  let buffer ← memcpy s.buffer (q.slotAt s.head) msg 0 q.size
  some {shared := {s with buffer := buffer,head := q.next s.head,count := s.count + 1},
        notices := [.one .notEmpty],log := [.put (msg.take q.size)],ending := .done ⟨.signal,[]⟩}

def enqueueFront (q : Shape) (s : SlotRing β) (msg : List β) : Option (Sect β) := do
  let buffer ← memcpy s.buffer (q.slotAt (q.prev s.tail)) msg 0 q.size
  some {shared := {s with buffer := buffer,tail := q.prev s.tail,count := s.count + 1},
        notices := [.one .notEmpty],log := [.putFront (msg.take q.size)],ending := .done ⟨.signal,[]⟩}

def dequeue (q : Shape) (s : SlotRing β) (room : List β) : Option (Sect β) := do
  let msg ← memcpy room 0 s.buffer (q.slotAt s.tail) q.size
  some {shared := {s with tail := q.next s.tail,count := s.count - 1},
        notices := [.one .notFull],log := [.get (msg.take q.size)],ending := .done ⟨.signal,msg⟩}

def copyFirst (q : Shape) (s : SlotRing β) (room : List β) : Option (Sect β) := do
  let msg ← memcpy room 0 s.buffer (q.slotAt s.tail) q.size
  some {shared := s,notices := [.one .notEmpty],log := [.peek (msg.take q.size)],ending := .done ⟨.signal,msg⟩}

def putEx (q : Shape) (env : Ambient) (s : SlotRing β) (msg : List β) (deadline : Deadline) : Option (Sect β) :=
  waitNotFull q env s deadline (.putting msg deadline) (enqueue q s msg)

def putFrontEx (q : Shape) (env : Ambient) (s : SlotRing β) (msg : List β) (deadline : Deadline) : Option (Sect β) :=
  waitNotFull q env s deadline (.puttingFront msg deadline) (enqueueFront q s msg)

def getEx (q : Shape) (env : Ambient) (s : SlotRing β) (room : List β) (deadline : Deadline) : Option (Sect β) :=
  waitNotEmpty env s deadline (.getting room deadline) room (dequeue q s room)

def peekEx (q : Shape) (env : Ambient) (s : SlotRing β) (room : List β) (deadline : Deadline) : Option (Sect β) :=
  waitNotEmpty env s deadline (.peeking room deadline) room (copyFirst q s room)

def peekFrontEx (q : Shape) (env : Ambient) (s : SlotRing β) (room : List β) (deadline : Deadline) : Option (Sect β) :=
  waitNotEmpty env s deadline (.peekingFront room deadline) room (copyFirst q s room)

def reset (s : SlotRing β) : Sect β :=
  {shared := {s with count := 0,head := 0,tail := 0},notices := [.all .notFull],log := [.reset],ending := .done ⟨.signal,[]⟩}

def enter (q : Shape) (env : Ambient) (s : SlotRing β) : Request β → Option (Sect β)
  | .put msg timeout => putEx q env s msg (.of env.now timeout)
  | .putFront msg timeout => putFrontEx q env s msg (.of env.now timeout)
  | .get room timeout => getEx q env s room (.of env.now timeout)
  | .peek room timeout => peekEx q env s room (.of env.now timeout)
  | .peekFront room timeout => peekFrontEx q env s room (.of env.now timeout)
  | .reset => some (reset s)

def resume (q : Shape) (env : Ambient) (s : SlotRing β) : Rest β → Wakeup → Option (Sect β)
  | .putting msg deadline,.signal => putEx q env s msg deadline
  | .puttingFront msg deadline,.signal => putFrontEx q env s msg deadline
  | .getting room deadline,.signal => getEx q env s room deadline
  | .peeking room deadline,.signal => peekEx q env s room deadline
  | .peekingFront room deadline,.signal => peekFrontEx q env s room deadline
  | .putting _ _,result | .puttingFront _ _,result => failed s [] result
  | .getting room _,result | .peeking room _,result | .peekingFront room _,result => failed s room result

def program (q : Shape) : Program (Request β) (SlotRing β) Cond (Rest β) (Answer β) (Op β) := ⟨enter q,resume q⟩

def initial (now : Int) (buffer : List β) : Queue T β := {now := now,shared := {buffer := buffer}}

variable {T : Type} [DecidableEq T] {h h' : Queue T β} {s : SlotRing β} {sec : Sect β} {rest : Rest β}

-- The five calls differ in what they wait for and in what comes behind the wait.
def Rest.cond : Rest β → Cond
  | .putting _ _ | .puttingFront _ _ => .notFull
  | .getting _ _ | .peeking _ _ | .peekingFront _ _ => .notEmpty

def Rest.deadline : Rest β → Deadline
  | .putting _ d | .puttingFront _ d | .getting _ d | .peeking _ d | .peekingFront _ d => d

def Rest.room : Rest β → List β
  | .putting _ _ | .puttingFront _ _ => []
  | .getting room _ | .peeking room _ | .peekingFront room _ => room

def Rest.go (q : Shape) (s : SlotRing β) : Rest β → Option (Sect β)
  | .putting msg _ => enqueue q s msg
  | .puttingFront msg _ => enqueueFront q s msg
  | .getting room _ => dequeue q s room
  | .peeking room _ | .peekingFront room _ => copyFirst q s room

def level (q : Shape) (s : SlotRing β) : Cond → Nat
  | .notEmpty => s.count
  | .notFull => q.capacity - s.count

def Rest.blocked (q : Shape) (s : SlotRing β) : Rest β → Bool
  | .putting _ _ | .puttingFront _ _ => decide (s.count = q.capacity)
  | .getting _ _ | .peeking _ _ | .peekingFront _ _ => decide (s.count = 0)

theorem resume_signal (q : Shape) (env : Ambient) (s : SlotRing β) (rest : Rest β) :
    resume q env s rest .signal = waitWhile env (rest.blocked q s) rest.cond rest.deadline rest s (failed s rest.room) (rest.go q s) := by
  cases rest <;> rfl

theorem resume_failed (q : Shape) (env : Ambient) (s : SlotRing β) (rest : Rest β) (other : result ≠ .signal) :
    resume q env s rest result = failed s rest.room result := by
  cases rest <;> cases result <;> first | rfl | exact absurd rfl other

def Request.start (now : Int) : Request β → Option (Rest β)
  | .put msg timeout => some (.putting msg (.of now timeout))
  | .putFront msg timeout => some (.puttingFront msg (.of now timeout))
  | .get room timeout => some (.getting room (.of now timeout))
  | .peek room timeout => some (.peeking room (.of now timeout))
  | .peekFront room timeout => some (.peekingFront room (.of now timeout))
  | .reset => none

theorem enter_start (q : Shape) (env : Ambient) (s : SlotRing β) (started : Request.start env.now r = some rest) :
    enter q env s r = resume q env s rest .signal := by
  cases r <;> cases started <;> rfl

theorem enter_cases (entered : enter q env s r = some sec) :
    (∃ rest,Request.start env.now r = some rest ∧ resume q env s rest .signal = some sec) ∨ r = .reset ∧ sec = reset s := by
  cases r with
  | reset => exact .inr ⟨rfl,(Option.some.inj entered).symm⟩
  | put | putFront | get | peek | peekFront => exact .inl ⟨_,rfl,entered⟩

theorem Rest.blocked_level (blocked : rest.blocked q s = true) : level q s rest.cond = 0 := by
  cases rest with
  | putting | puttingFront => simp [level,cond,of_decide_eq_true blocked]
  | getting | peeking | peekingFront => exact of_decide_eq_true blocked

inductive Resumed (q : Shape) (s : SlotRing β) (rest : Rest β) (sec : Sect β) : Prop where
  | goes : rest.blocked q s = false → rest.go q s = some sec → Resumed q s rest sec
  | waits : sec = {shared := s,ending := .wait rest.cond left rest} → Resumed q s rest sec
  | fails : result ≠ .signal → sec = {shared := s,ending := .done ⟨result,rest.room⟩} → Resumed q s rest sec

theorem resume_inv (resumed : resume q env s rest result = some sec) : Resumed q s rest sec := by
  by_cases signaled : result = .signal
  · rw [signaled,resume_signal] at resumed
    cases waitWhile_inv resumed with
    | goes free taken => exact .goes free taken
    | fails result _ other taken => exact .fails other (Option.some.inj taken).symm
    | waits _ _ _ _ same => exact .waits same
  · rw [resume_failed q env s rest signaled] at resumed
    exact .fails signaled (Option.some.inj resumed).symm

theorem enqueued (valid : Valid q.capacity q.size s) (less : s.count < q.capacity) (taken : enqueue q s msg = some sec) :
    Valid q.capacity q.size sec.shared ∧
      sec.shared.contents q.capacity q.size = s.contents q.capacity q.size ++ [msg.take q.size] ∧
      sec.ending = .done ⟨.signal,[]⟩ := by
  obtain ⟨b,copied,taken⟩ := of_bind taken
  cases taken
  obtain ⟨kept,contents⟩ := valid.append less (memcpy_filled valid.head_lt copied)
  rw [slots_one,slot_zero] at contents
  exact ⟨kept,contents,rfl⟩

theorem enqueuedFront (valid : Valid q.capacity q.size s) (less : s.count < q.capacity)
    (taken : enqueueFront q s msg = some sec) :
    Valid q.capacity q.size sec.shared ∧
      sec.shared.contents q.capacity q.size = msg.take q.size :: s.contents q.capacity q.size ∧
      sec.ending = .done ⟨.signal,[]⟩ := by
  have inside : q.prev s.tail < q.capacity := by
    have bound := valid.tail
    unfold Shape.prev
    split <;> omega
  obtain ⟨b,copied,taken⟩ := of_bind taken
  cases taken
  obtain ⟨kept,contents⟩ := valid.prepend less rfl (memcpy_filled inside copied)
  rw [slot_zero] at contents
  exact ⟨kept,contents,rfl⟩

theorem dequeued (valid : Valid q.capacity q.size s) (more : 0 < s.count) (taken : dequeue q s room = some sec) :
    Valid q.capacity q.size sec.shared ∧
      ∃ msg,s.contents q.capacity q.size = msg.take q.size :: sec.shared.contents q.capacity q.size ∧
        sec.ending = .done ⟨.signal,msg⟩ := by
  obtain ⟨msg,copied,taken⟩ := of_bind taken
  cases taken
  have first := valid.copied_first more copied
  obtain ⟨kept,contents⟩ := valid.drop more
  refine ⟨kept,msg,?_,rfl⟩
  calc s.contents q.capacity q.size
      = (s.contents q.capacity q.size).take 1 ++ (s.contents q.capacity q.size).drop 1 := (take_append_drop 1 _).symm
    _ = msg.take q.size :: (s.dropped q.capacity 1).contents q.capacity q.size := by rw [first,contents]; rfl

def Op.apply [DecidableEq β] (capacity : Nat) (xs : List (List β)) : Op β → Option (List (List β))
  | .put msg => if xs.length < capacity then some (xs ++ [msg]) else none
  | .putFront msg => if xs.length < capacity then some (msg :: xs) else none
  | .get msg => if xs.take 1 = [msg] then some (xs.drop 1) else none
  | .peek msg => if xs.take 1 = [msg] then some xs else none
  | .reset => some []

variable [DecidableEq β]

-- A critical section of a task that waits for `side` leaves the ring alone, or takes a unit of
-- that side and wakes a task of `told`.
inductive Act (q : Shape) (s : SlotRing β) (sec : Sect β) : Cond → Prop where
  | waits : level q s side = 0 → sec = {shared := s,ending := .wait side left waiter} → Act q s sec side
  | fails : level q s side = 0 → sec = {shared := s,ending := .done a} → Act q s sec side
  | does (told : Cond) : Valid q.capacity q.size sec.shared →
      sec.log.foldlM (Op.apply q.capacity) (s.contents q.capacity q.size) = some (sec.shared.contents q.capacity q.size) →
      (∀ c,level q sec.shared c ≤ (if c = side then level q s c - 1 else level q s c) + if c = told then 1 else 0) →
      sec.notices = [.one told] → sec.ending = .done a → Act q s sec side

variable {side : Cond}

theorem Rest.go_act (valid : Valid q.capacity q.size s) (free : rest.blocked q s = false) (taken : rest.go q s = some sec) :
    Act q s sec rest.cond := by
  have count : (s.contents q.capacity q.size).length = s.count := contents_length
  have grows : ∀ {t : SlotRing β},t.count = s.count + 1 → ∀ c,level q t c ≤
      (if c = .notFull then level q s c - 1 else level q s c) + if c = .notEmpty then 1 else 0 := by
    intro t counted c
    cases c <;> simp [level,counted]
    omega
  have peeks : ∀ {room},0 < s.count → copyFirst q s room = some sec → Act q s sec .notEmpty := by
    intro room more taken
    obtain ⟨msg,copied,taken⟩ := of_bind taken
    cases taken
    refine .does .notEmpty valid ?_ ?_ rfl rfl
    · rw [foldlM_cons,Op.apply,if_pos (valid.copied_first more copied)]
      rfl
    · intro c
      cases c <;> simp [level]
      omega
  cases rest with
  | putting msg deadline =>
    have less : s.count < q.capacity := Nat.lt_of_le_of_ne valid.count (of_decide_eq_false free)
    obtain ⟨kept,contents,_⟩ := enqueued valid less taken
    obtain ⟨b,_,taken⟩ := of_bind taken
    cases taken
    refine .does .notEmpty kept ?_ (grows rfl) rfl rfl
    rw [foldlM_cons,Op.apply,if_pos (by rwa [count]),contents]
    rfl
  | puttingFront msg deadline =>
    have less : s.count < q.capacity := Nat.lt_of_le_of_ne valid.count (of_decide_eq_false free)
    obtain ⟨kept,contents,_⟩ := enqueuedFront valid less taken
    obtain ⟨b,_,taken⟩ := of_bind taken
    cases taken
    refine .does .notEmpty kept ?_ (grows rfl) rfl rfl
    rw [foldlM_cons,Op.apply,if_pos (by rwa [count]),contents]
    rfl
  | getting room deadline =>
    have more : 0 < s.count := Nat.pos_of_ne_zero (of_decide_eq_false free)
    obtain ⟨kept,msg,contents,ended⟩ := dequeued valid more taken
    obtain ⟨b,_,taken⟩ := of_bind taken
    cases taken
    cases ended
    refine .does .notFull kept ?_ ?_ rfl rfl
    · rw [foldlM_cons,Op.apply,contents,if_pos (by simp)]
      rfl
    · intro c
      cases c <;> simp [level,Rest.cond]
      omega
  | peeking room deadline | peekingFront room deadline => exact peeks (Nat.pos_of_ne_zero (of_decide_eq_false free)) taken

theorem signal_act (valid : Valid q.capacity q.size s) (taken : resume q env s rest .signal = some sec) :
    Act q s sec rest.cond := by
  rw [resume_signal] at taken
  cases waitWhile_inv taken with
  | goes free taken => exact rest.go_act valid free taken
  | fails result blocked _ taken =>
    cases taken
    exact .fails (Rest.blocked_level blocked) rfl
  | waits remaining blocked _ _ same => exact .waits (Rest.blocked_level blocked) same

theorem resume_refines (valid : Valid q.capacity q.size s) (resumed : resume q env s rest result = some sec) :
    Valid q.capacity q.size sec.shared ∧
      sec.log.foldlM (Op.apply q.capacity) (s.contents q.capacity q.size) = some (sec.shared.contents q.capacity q.size) := by
  by_cases signaled : result = .signal
  · rw [signaled] at resumed
    cases signal_act valid resumed with
    | waits _ same | fails _ same => rw [same]; exact ⟨valid,rfl⟩
    | does _ kept refines => exact ⟨kept,refines⟩
  · rw [resume_failed q env s rest signaled] at resumed
    cases resumed
    exact ⟨valid,rfl⟩

def one (_ : Rest β) : Nat := 1

theorem fair_one (h : Queue T β) (c : Cond) (n : Nat) : Hall.fair one c n h = true := by
  unfold Hall.fair
  cases h.waiting.find? fun f => decide (f.cond = c) with
  | none => rfl
  | some f => simp [one]

theorem no_wait (ended : sec.ending = .done a) (n : Nat) :
    ∀ left waiter,sec.ending = .wait c left waiter → n < one waiter := by
  intro left waiter waits
  rw [ended] at waits
  cases waits

theorem Act.covers (act : Act q h.shared sec side)
    (taken : Hall.Covered one side (level q h.shared side - 1) h)
    (others : ∀ c,c ≠ side → Hall.Covered one c (level q h.shared c) h) (call : Visit T (Request β) (Op β)) :
    ∀ c,Hall.Covered one c (level q sec.shared c) (h.perform call sec) := by
  intro c
  have base : Hall.Covered one c (if c = side then level q h.shared c - 1 else level q h.shared c) h := by
    split
    · rename_i at_
      subst at_
      exact taken
    · exact others c ‹_›
  have kept : level q h.shared side = 0 → Hall.Covered one c (level q h.shared c) h := by
    intro zero
    refine base.lower ?_
    split
    · rename_i at_
      rw [at_,zero]
    · exact Nat.le_refl _
  cases act with
  | waits zero same =>
    rw [same]
    refine (kept zero).perform call ?_
    intro left waiter waits
    cases waits
    rw [zero]
    exact Nat.one_pos
  | fails zero same =>
    rw [same]
    exact (kept zero).perform call nofun
  | does told _ _ levels only ended =>
    refine Hall.Covered.lower ?_ (levels c)
    by_cases at_ : c = told
    · subst at_
      rw [if_pos rfl]
      exact base.perform_one call only (no_wait ended _) (fair_one h _ _) fun _ _ _ => Nat.one_pos
    · rw [if_neg at_]
      exact base.perform call (no_wait ended _)

def Request.outcome (q : Shape) (a : Answer β) : Request β → List (Op β)
  | .put msg _ => if a.result = .signal then [.put (msg.take q.size)] else []
  | .putFront msg _ => if a.result = .signal then [.putFront (msg.take q.size)] else []
  | .get _ _ => if a.result = .signal then [.get (a.data.take q.size)] else []
  | .peek _ _ | .peekFront _ _ => if a.result = .signal then [.peek (a.data.take q.size)] else []
  | .reset => [.reset]

theorem outcome_failed (started : Request.start now r = some rest) (other : a.result ≠ .signal) : r.outcome q a = [] := by
  cases r with
  | put | putFront | get | peek | peekFront => exact if_neg other
  | reset => cases started

theorem Rest.go_outcome (started : Request.start now r = some rest) (taken : rest.go q s = some sec) :
    ∃ a,sec.ending = .done a ∧ sec.log = r.outcome q a := by
  cases r with
  | put | putFront | get | peek | peekFront => cases started; obtain ⟨b,_,taken⟩ := of_bind taken; cases taken; exact ⟨_,rfl,rfl⟩
  | reset => cases started

def Serves (call : Visit T (Request β) (Op β)) (rest : Rest β) : Prop :=
  call.request.start call.since = some rest ∧ call.log = []

inductive At (q : Shape) (call : Visit T (Request β) (Op β)) : Monitor.Place Cond (Rest β) (Answer β) → Prop where
  | waiting {rest : Rest β} : Serves call rest → rest.cond = c → At q call (.waiting c left rest)
  | due {rest : Rest β} : Serves call rest → rest.cond = c → At q call (.due c result rest)
  | paused {rest : Rest β} : Serves call rest → At q call (.paused rest)
  | returned : call.log = call.request.outcome q a → At q call (.returned a)

theorem resume_at (call : Visit T (Request β) (Op β)) (serves : Serves call rest)
    (resumed : resume q env s rest result = some sec) : At q {call with log := call.log ++ sec.log} sec.ending.place := by
  rw [serves.2,nil_append]
  cases resume_inv resumed with
  | goes _ taken =>
    obtain ⟨a,ended,log⟩ := Rest.go_outcome serves.1 taken
    rw [ended]
    exact .returned log
  | waits same => rw [same]; exact .waiting ⟨serves.1,rfl⟩ rfl
  | fails other same => rw [same]; exact .returned (outcome_failed serves.1 other).symm

def Refines (q : Shape) (s : SlotRing β) (log : List (T × Op β)) : Prop :=
  (log.map Prod.snd).foldlM (Op.apply q.capacity) [] = some (s.contents q.capacity q.size)

theorem Refines.next (refines : Refines q s log) (t : T)
    (does : sec.log.foldlM (Op.apply q.capacity) (s.contents q.capacity q.size) = some (sec.shared.contents q.capacity q.size)) :
    Refines q sec.shared (log ++ sec.log.map fun o => (t,o)) := by
  have same : sec.log.map (Prod.snd ∘ fun o => (t,o)) = sec.log := map_id' _
  unfold Refines at refines ⊢
  rw [map_append,foldlM_append,refines,map_map,same]
  exact does

structure Kept (q : Shape) (h : Queue T β) : Prop where
  valid : Valid q.capacity q.size h.shared
  refines : Refines q h.shared h.log
  calls : Hall.Everywhere (At q) h
  covered : ∀ c,Hall.Covered one c (level q h.shared c) h

theorem Kept.covers (kept : Kept q h) (step : Hall.Step (program q) h e h') :
    ∀ c,Hall.Covered one c (level q h'.shared c) h' := by
  have takes : ∀ c,Hall.Covered one c (level q h.shared c - 1) h := fun c => (kept.covered c).lower (Nat.sub_le _ _)
  cases step with
  | call _ entered =>
    rw [Hall.perform_shared]
    rcases enter_cases entered with ⟨rest,_,resumed⟩ | ⟨_,same⟩
    · exact (signal_act kept.valid resumed).covers (takes _) (fun c _ => kept.covered c) _
    · rw [same]
      intro c
      cases c with
      | notEmpty => exact ((kept.covered .notEmpty).lower (Nat.zero_le _)).perform _ nofun
      | notFull => exact Hall.Covered.perform_all _ mem_cons_self nofun
  | @run before d after t refused sec split found resumed =>
    have resumed : resume q ⟨h.now,false,refused⟩ h.shared d.rest d.result = some sec := resumed
    rw [Hall.perform_shared]
    by_cases signaled : d.result = .signal
    · rw [signaled] at resumed
      refine (signal_act kept.valid resumed).covers (h := {h with due := before ++ after}) ?_ ?_ d.call
      · refine (kept.covered _).run split (Nat.sub_le _ _) ?_
        intro _ _
        show level q h.shared d.rest.cond - 1 + 1 ≤ level q h.shared d.rest.cond ∨ level q h.shared d.rest.cond < 1
        omega
      · intro c other
        cases kept.calls.due d (mem_of_find?_eq_some found) with
        | due _ at_ => exact (kept.covered c).run split (Nat.le_refl _) fun same _ => absurd (at_.trans same) (Ne.symm other)
    · rw [resume_failed q _ h.shared d.rest signaled] at resumed
      cases resumed
      intro c
      refine Hall.Covered.perform ?_ d.call nofun
      exact (kept.covered c).run split (Nat.le_refl _) fun _ same => absurd same signaled
  | @proceed before p after t refused sec split _ resumed =>
    rw [Hall.perform_shared]
    exact (signal_act kept.valid resumed).covers (h := {h with paused := before ++ after}) (takes _) (fun c _ => kept.covered c) _
  | tick => exact fun c => (kept.covered c).quiet h.elapse_quiet
  | cancel split _ => exact fun c => (kept.covered c).quiet (Hall.cancel_quiet split)

theorem Kept.step (kept : Kept q h) (step : Hall.Step (program q) h e h') : Kept q h' := by
  have sound : (Valid q.capacity q.size h'.shared ∧ Refines q h'.shared h'.log) ∧ Hall.Everywhere (At q) h' := by
    refine step.sound (G := fun s log => Valid q.capacity q.size s ∧ Refines q s log) (R := fun _ => At q)
      ⟨kept.valid,kept.refines⟩ kept.calls ?_ ?_ ?_ ?_
    · intro call x y ticks at_
      cases ticks with
      | on => cases at_ with | waiting serves side => exact .waiting serves side
      | out => cases at_ with | waiting serves side => exact .due serves side
      | due | paused => exact at_
    · intro call c left result rest _ (.waiting serves side)
      exact .due serves side
    · rintro t r isr refused sec rfl entered
      rcases enter_cases entered with ⟨rest,started,resumed⟩ | ⟨rfl,rfl⟩
      · obtain ⟨valid,does⟩ := resume_refines kept.valid resumed
        exact ⟨⟨valid,kept.refines.next t does⟩,resume_at ⟨t,r,h.now,[]⟩ ⟨started,rfl⟩ resumed⟩
      · exact ⟨⟨⟨kept.valid.room,q.holds,Nat.zero_le _,(Nat.zero_mod _).symm⟩,kept.refines.next t rfl⟩,.returned rfl⟩
    · intro call x rest result refused sec back at_ resumed
      have serves : Serves call rest := by
        cases back with
        | run => cases at_ with | due serves => exact serves
        | proceed => cases at_ with | paused serves => exact serves
      obtain ⟨valid,does⟩ := resume_refines kept.valid resumed
      exact ⟨⟨valid,kept.refines.next _ does⟩,resume_at call serves resumed⟩
  exact ⟨sound.1.1,sound.1.2,sound.2,kept.covers step⟩

theorem Kept.start (q : Shape) (now : Int) {bytes : List β} (whole : bytes.length = q.capacity * q.size) :
    Kept q (initial now bytes : Queue T β) := by
  refine ⟨⟨whole,q.holds,Nat.zero_le _,(Nat.zero_mod _).symm⟩,rfl,.start rfl rfl,?_⟩
  intro c w member
  cases member

-- No copy leaves a buffer, given messages of the right size.
def Rest.given (q : Shape) : Rest β → Prop
  | .putting msg _ | .puttingFront msg _ => q.size ≤ msg.length
  | .getting room _ | .peeking room _ | .peekingFront room _ => q.size ≤ room.length

theorem Kept.copies (kept : Kept q h) (given : rest.given q) : ∃ sec,rest.go q h.shared = some sec := by
  have room : ∀ {k : Nat},k < q.capacity → k * q.size + q.size ≤ h.shared.buffer.length := by
    intro k less
    have fits := slots_fit (show k + 1 ≤ q.capacity from less) kept.valid.room.ge
    rwa [Nat.one_mul] at fits
  have front : q.prev h.shared.tail < q.capacity := by
    have inside := kept.valid.tail
    unfold Shape.prev
    split <;> omega
  have to_ : ∀ {k : Nat} {msg : List β},k < q.capacity → q.size ≤ msg.length →
      ∃ b,memcpy h.shared.buffer (q.slotAt k) msg 0 q.size = some b :=
    fun less enough => memcpy_defined _ _ (room less) (by omega)
  have from_ : ∀ {msg : List β},q.size ≤ msg.length →
      ∃ b,memcpy msg 0 h.shared.buffer (q.slotAt h.shared.tail) q.size = some b :=
    fun enough => memcpy_defined _ _ (by omega) (room kept.valid.tail)
  cases rest with
  | putting msg deadline =>
    obtain ⟨b,copied⟩ := to_ kept.valid.head_lt given
    exact ⟨_,by rw [Rest.go,enqueue,copied]; rfl⟩
  | puttingFront msg deadline =>
    obtain ⟨b,copied⟩ := to_ front given
    exact ⟨_,by rw [Rest.go,enqueueFront,copied]; rfl⟩
  | getting msg deadline =>
    obtain ⟨b,copied⟩ := from_ given
    exact ⟨_,by rw [Rest.go,dequeue,copied]; rfl⟩
  | peeking msg deadline | peekingFront msg deadline =>
    obtain ⟨b,copied⟩ := from_ given
    exact ⟨_,by rw [Rest.go,copyFirst,copied]; rfl⟩

def Request.puts : Request β → Bool
  | .put _ _ | .putFront _ _ => true
  | _ => false

theorem Serves.cond {call : Visit T (Request β) (Op β)} (serves : Serves call rest) :
    rest.cond = if call.request.puts then .notFull else .notEmpty := by
  obtain ⟨started,_⟩ := serves
  cases asked : call.request <;> rw [asked] at started <;> cases started <;> rfl

theorem bounded_deque {bytes : List β} (whole : bytes.length = q.capacity * q.size)
    (run : Run (Hall.step (program q)) (fun _ _ => True) (initial now bytes : Queue T β) h) :
    (h.log.map Prod.snd).foldlM (Op.apply q.capacity) [] = some (h.shared.contents q.capacity q.size) ∧
      h.shared.head = (h.shared.tail + h.shared.count) % q.capacity ∧
      (∀ r,h.returned = some r → r.call.log = r.call.request.outcome q r.answer) ∧
      (h.due = [] → ∀ w ∈ h.waiting,
        if w.call.request.puts then h.shared.count = q.capacity else h.shared.count = 0) := by
  have kept : Kept q h := run.keeps (Kept.start q now whole) fun h e h' kept _ taken => kept.step (Hall.step_inv taken)
  refine ⟨kept.refines,kept.valid.head,?_,?_⟩
  · intro r ended
    cases kept.calls.returned r ended with
    | returned outcome => exact outcome
  intro settled w member
  have short := (kept.covered w.cond).settled settled member rfl
  have few := kept.valid.count
  cases kept.calls.waiting w member with
  | waiting serves side =>
    rw [← side,serves.cond] at short
    change _ < 1 at short
    cases puts : w.call.request.puts with
    | true =>
      simp only [puts,if_true,level] at short ⊢
      omega
    | false =>
      simp only [puts,level] at short ⊢
      simpa using short

def oneSlot : Shape := ⟨1,1,Nat.one_pos,Nat.one_pos⟩

def queueTraffic : List (Happening Nat (Request Nat)) :=
  [.call 0 (.put [7] waitInfinite) false false,.call 1 (.putFront [8] waitInfinite) false false,
    .call 2 (.peek [0] 5) false false,.call 2 (.get [0] 5) false false,.run 1 false]

theorem queueTraffic_in_order : ∃ h : Queue Nat Nat,
    exec (Hall.step (program oneSlot)) (initial 0 [0]) queueTraffic = some h ∧
      h.log = [(0,.put [7]),(2,.peek [7]),(2,.get [7]),(1,.putFront [8])] ∧
      (h.log.map Prod.snd).foldlM (Op.apply 1) [] = some (h.shared.contents 1 1) := by
  refine exec_shows (P := fun h => h.log = [(0,.put [7]),(2,.peek [7]),(2,.get [7]),(1,.putFront [8])]) (by decide) ?_
  intro h ran seen
  exact ⟨seen,(bounded_deque rfl (Run.ofExec ran)).1⟩

theorem copies_stay_inside {bytes : List β} (whole : bytes.length = q.capacity * q.size)
    (run : Run (Hall.step (program q)) (fun _ _ => True) (initial now bytes : Queue T β) h) (given : rest.given q) :
    ∃ sec,rest.go q h.shared = some sec := by
  have kept : Kept q h := run.keeps (Kept.start q now whole) fun h e h' kept _ taken => kept.step (Hall.step_inv taken)
  exact kept.copies given

theorem queueTraffic_copies : ∃ h : Queue Nat Nat,exec (Hall.step (program oneSlot)) (initial 0 [0]) queueTraffic = some h ∧
    ∃ sec,(Rest.putting [9] (.of 0 0)).go oneSlot h.shared = some sec :=
  exec_shows (P := fun _ => True) (by decide) fun _ ran _ => copies_stay_inside rfl (.ofExec ran) (Nat.le_refl 1)

end SuperTinyKernel.MessageQueue
