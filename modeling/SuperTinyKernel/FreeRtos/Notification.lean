import Mathlib.Data.BitVec
import SuperTinyKernel.FreeRtos.QueueSet

namespace SuperTinyKernel.FreeRtos.Notification

open Transition List

-- One notification slot of a task. Its binary semaphore has at most one waiter, the owner.

inductive Action where
  | noAction
  | setBits
  | increment
  | setValueWithOverwrite
  | setValueWithoutOverwrite
  deriving DecidableEq,Repr

-- ulTaskNotifyTake and xTaskNotifyWait behind Wait() of the semaphore.
inductive Call where
  | take (clearCountOnExit : Bool)
  | wait (bitsToClearOnExit : BitVec 32)
  deriving DecidableEq,Repr

-- `passed` is the stretch between Wait() and the critical section that reads the value.
inductive Owner where
  | outside
  | entered (c : Call) (ticksToWait : UInt32)
  | waiting (c : Call) (left : Int)
  | passed (c : Call)
  | returned (c : Call) (value : Option (BitVec 32))
  deriving DecidableEq,Repr

-- `notifiers` are the xTaskNotify calls between their two critical sections.
structure Slot where
  value : BitVec 32 := 0#32
  pending : Bool := false
  count : Bool := false
  owner : Owner := .outside
  notifiers : List (BitVec 32) := []
  deriving DecidableEq,Repr

def Owner.free : Owner → Bool
  | .outside | .returned _ _ => true
  | _ => false

def Slot.trySignal (s : Slot) : Slot :=
  match s.owner with
  | .waiting c _ => {s with owner := .passed c}
  | _ => {s with count := true}

def Slot.semWait (s : Slot) (c : Call) (timeout : Int) : Slot :=
  if s.count then {s with count := false,owner := .passed c}
  else if timeout = noWait then {s with owner := .returned c none}
  else {s with owner := .waiting c timeout}

def notifyApplyAction (s : Slot) (value : BitVec 32) : Action → Option Slot
  | .noAction => some s
  | .setBits => some {s with value := s.value ||| value}
  | .increment => some {s with value := s.value + 1#32}
  | .setValueWithOverwrite => some {s with value}
  | .setValueWithoutOverwrite => if s.pending then none else some {s with value,pending := true}

def Slot.elapse (s : Slot) : Slot :=
  match s.owner with
  | .waiting c left =>
    if left = waitInfinite then s
    else if left - 1 ≤ noWait then {s with owner := .returned c none}
    else {s with owner := .waiting c (left - 1)}
  | _ => s

def remaining (clear : Bool) (value : BitVec 32) : BitVec 32 :=
  if clear = true ∨ value = 0#32 then 0#32 else value - 1#32

def Slot.read (s : Slot) : Call → Slot
  | .take clear =>
    let back := {s with
      value := remaining clear s.value
      pending := false
      owner := .returned (.take clear) (some s.value)}
    if remaining clear s.value = 0#32 then back else back.trySignal
  | .wait exit => {s with value := s.value &&& ~~~exit,pending := false,owner := .returned (.wait exit) (some s.value)}

inductive Event where
  | give
  | notify (value : BitVec 32) (action : Action)
  | signal (i : Nat)
  | take (clearCountOnExit : Bool) (ticksToWait : UInt32)
  | wait (bitsToClearOnEntry bitsToClearOnExit : BitVec 32) (ticksToWait : UInt32)
  | semWait
  | tick
  | abort
  | read
  | stateClear

def step (s : Slot) : Event → Option Slot
  | .give => some {s with value := s.value + 1#32}.trySignal
  | .notify value action =>
    match notifyApplyAction s value action with
    | some s => some {s with notifiers := s.notifiers ++ [value]}
    | none => some s
  | .signal i => if i < s.notifiers.length then some {s with notifiers := s.notifiers.eraseIdx i}.trySignal else none
  | .take clear ticks => if s.owner.free then some (s.semWait (.take clear) (frtosTimeoutToStk ticks)) else none
  | .wait entry exit ticks =>
    if s.owner.free then some {s with value := s.value &&& ~~~entry,owner := .entered (.wait exit) ticks} else none
  | .semWait =>
    match s.owner with
    | .entered c ticks => some (s.semWait c (frtosTimeoutToStk ticks))
    | _ => none
  | .tick => some s.elapse
  | .abort =>
    match s.owner with
    | .waiting c _ => some {s with owner := .returned c none}
    | _ => none
  | .read =>
    match s.owner with
    | .passed c => some (s.read c)
    | _ => none
  | .stateClear => some (if s.count || s.pending then {s with count := false,pending := false} else s)

-- Gives and takes. The observer counts the gives and what the takes removed, and times the
-- current take.
structure Tally where
  gives : Nat := 0
  removed : Nat := 0
  asked : Nat := 0
  elapsed : Nat := 0
  zero : Bool := true

def Owner.waits : Owner → Bool
  | .waiting _ _ => true
  | _ => false

def tally (s : Slot) (e : Event) (t : Slot) (w : Tally) : Tally :=
  match e with
  | .give => {w with gives := w.gives + 1,zero := w.zero && !s.owner.waits}
  | .take _ ticks => {w with asked := ticks.toNat,elapsed := 0,zero := decide (s.value.toNat = 0)}
  | .tick => if s.owner.waits then {w with elapsed := w.elapsed + 1} else w
  | .read => {w with removed := w.removed + (s.value.toNat - t.value.toNat)}
  | _ => w

-- Fewer than 2^32 gives, timeouts of the kernel's type, and no give between Wait() and the
-- critical section of a take that clears the value.
def orderly (p : Slot × Tally) : Event → Bool
  | .give => decide (p.2.gives + 1 < 4294967296)
  | .take _ ticks => decide (ticks = portMaxDelay ∨ ticks.toNat < 2147483648)
  | .read => !p.1.count || decide (p.1.owner ≠ .passed (.take true))
  | .tick => true
  | _ => false

-- The wake flag stands for a value that is not zero, and a take that has passed it finds one.
def Call.takes : Call → Bool
  | .take _ => true
  | .wait _ => false

def Sits (count : Bool) (value : Nat) (w : Tally) : Owner → Prop
  | .outside => count = true ↔ value ≠ 0
  | .entered _ _ => False
  | .waiting c left => c.takes = true ∧ count = false ∧ value = 0 ∧ w.zero = true ∧
      (left = waitInfinite ∨ 0 < left ∧ w.elapsed + left = w.asked)
  | .passed c => c.takes = true ∧ 0 < value ∧ (count = true → 1 < value)
  | .returned c v => c.takes = true ∧ (count = true ↔ value ≠ 0) ∧ ((∀ x ∈ v,x.toNat = 0) → w.asked = w.elapsed ∧ w.zero = true)

structure Counted (s : Slot) (w : Tally) : Prop where
  balance : w.gives = s.value.toNat + w.removed
  few : w.gives < 4294967296
  sits : Sits s.count s.value.toNat w s.owner

variable {s t : Slot} {w : Tally} {e : Event}

theorem timeout_fits (fits : ticks = portMaxDelay ∨ ticks.toNat < 2147483648) :
    frtosTimeoutToStk ticks = waitInfinite ∨ frtosTimeoutToStk ticks = ticks.toNat := by
  unfold frtosTimeoutToStk
  split
  · exact .inl rfl
  · rename_i finite
    split
    · rename_i none
      exact .inr (by rw [none]; rfl)
    · have less := fits.resolve_left finite
      refine .inr ?_
      unfold castTimeout
      rw [Int.bmod_eq_of_le] <;> omega

theorem read_take (s : Slot) (clear : Bool) : s.read (.take clear) = {s with
    value := remaining clear s.value
    pending := false
    count := s.count || decide (remaining clear s.value ≠ 0#32)
    owner := .returned (.take clear) (some s.value)} := by
  unfold Slot.read
  dsimp only
  split <;> simp_all [Slot.trySignal]

theorem toNat_remaining (clear : Bool) (some_ : 0 < value.toNat) : (remaining clear value).toNat = if clear then 0 else value.toNat - 1 := by
  have nonzero : value ≠ 0#32 := fun none => by rw [none] at some_; cases some_
  cases clear with
  | true => rfl
  | false =>
    simp only [remaining,nonzero]
    exact BitVec.toNat_sub_of_le (BitVec.le_def.mpr some_)

theorem Counted.step (counted : Counted s w) (allowed : orderly (s,w) e = true) (stepped : step s e = some t) :
    Counted t (tally s e t w) := by
  obtain ⟨balance,few,sits⟩ := counted
  cases e with
  | give =>
    have less : w.gives + 1 < 4294967296 := of_decide_eq_true allowed
    have next : (s.value + 1#32).toNat = s.value.toNat + 1 := by
      rw [BitVec.toNat_add]
      exact Nat.mod_eq_of_lt (show s.value.toNat + 1 < 4294967296 by omega)
    cases stepped
    cases at_ : s.owner <;> refine ⟨?_,?_,?_⟩ <;> grind [Sits,Call.takes,Slot.trySignal,tally,Owner.waits]
  | take clear ticks =>
    have range := timeout_fits (of_decide_eq_true allowed)
    obtain ⟨free,same⟩ := Option.ite_none_right_eq_some.mp stepped
    cases same
    cases at_ : s.owner <;> refine ⟨?_,?_,?_⟩ <;> grind [Sits,Call.takes,Slot.semWait,tally,noWait,waitInfinite,Owner.free]
  | tick =>
    cases stepped
    cases at_ : s.owner <;> refine ⟨?_,?_,?_⟩ <;> grind [Sits,Call.takes,Slot.elapse,tally,noWait,Owner.waits]
  | read =>
    cases at_ : s.owner with
    | passed c =>
      rw [at_] at sits
      obtain ⟨takes,some_,twice⟩ := sits
      cases c with
      | wait exit => cases takes
      | take clear =>
        have left := toNat_remaining clear some_
        have raised : s.count = true → (remaining clear s.value).toNat ≠ 0 := by grind [orderly]
        simp only [Notification.step,at_,read_take] at stepped
        cases stepped
        refine ⟨?_,few,rfl,?_,fun none => absurd (none s.value rfl) (Nat.ne_of_gt some_)⟩
        · dsimp only [tally]
          grind
        · have same : remaining clear s.value ≠ 0#32 ↔ (remaining clear s.value).toNat ≠ 0 :=
            not_congr (BitVec.toNat_eq ..)
          dsimp only
          rw [Bool.or_eq_true,decide_eq_true_iff]
          exact (or_congr_right same).trans (or_iff_right_of_imp raised)
    | _ => simp [Notification.step,at_] at stepped
  | _ => cases allowed

theorem takes_count_gives
    (run : Run (observe step tally) (fun p e => orderly p e = true) ({},{}) (s,w)) :
    w.gives = s.value.toNat + w.removed ∧ (∀ c left,s.owner = .waiting c left → s.value = 0#32) ∧
      ∀ clear v,s.owner = .returned (.take clear) v → v.getD 0#32 = 0#32 → w.asked = w.elapsed ∧ w.zero = true := by
  obtain ⟨balance,_,sits⟩ : Counted s w := by
    refine run.keeps (I := fun p : Slot × Tally => Counted p.1 p.2) ⟨rfl,by decide,iff_of_false nofun (absurd rfl)⟩ ?_
    intro p e q counted allowed observed
    obtain ⟨stepped,same⟩ := observe_some observed
    rw [same]
    exact counted.step allowed stepped
  refine ⟨balance,?_,?_⟩
  · intro c left waits
    rw [waits] at sits
    exact BitVec.eq_of_toNat_eq sits.2.2.1
  · intro clear v back
    rw [back] at sits
    exact fun none => sits.2.2 fun x same => by cases same; rw [show x = 0#32 from none]; rfl

def givenTwice : List Event :=
  [.take true 2,.tick,.tick,.take true 9,.give,.read,.give,.give,.take false 0,.read]

theorem givenTwice_counted : ∃ p : Slot × Tally,
    exec (observe step tally) ({},{}) givenTwice = some p ∧
      p.1.owner = .returned (.take false) (some 2#32) ∧ p.2.gives = 3 ∧ p.2.gives = p.1.value.toNat + p.2.removed := by
  refine exec_shows (P := fun p => p.1.owner = .returned (.take false) (some 2#32) ∧ p.2.gives = 3) (by decide) ?_
  intro p ran ⟨back,three⟩
  have run := Run.ofExecAllowed orderly (by decide) ran
  exact ⟨back,three,(takes_count_gives run).1⟩

-- The second give comes between Wait() and the critical section of a clearing take, and raises
-- the flag again: the next take returns 0 at once.
def givenBetween : List Event := [.give,.take true 9,.give,.read,.take true 9,.read]

theorem givenBetween_returns_zero : ∃ p : Slot × Tally,
    Run (observe step tally) (fun _ _ => True) ({},{}) p ∧
      p.1.owner = .returned (.take true) (some 0#32) ∧ p.2.asked = 9 ∧ p.2.elapsed = 0 :=
  Run.found givenBetween (by decide)

-- eSetBits and xTaskNotifyWait. The observer keeps the unreported bits, those of them whose
-- xTaskNotify has returned, and the number of notifications since the last report.
structure Reports where
  unreported : BitVec 32 := 0#32
  settled : BitVec 32 := 0#32
  fresh : Nat := 0

def report (s : Slot) (e : Event) (_ : Slot) (w : Reports) : Reports :=
  match e with
  | .notify value _ => {w with unreported := w.unreported ||| value,fresh := w.fresh + 1}
  | .signal i => {w with settled := w.settled ||| s.notifiers.getD i 0#32}
  | .read => {}
  | _ => w

def Owner.takes : Owner → Bool
  | .passed (.take _) => true
  | _ => false

-- A wait clears no unreported bits on entry, and nobody notifies between its Wait() and its
-- critical section.
def careful (p : Slot × Reports) : Event → Bool
  | .notify _ action => decide (action = .setBits)
  | .wait entry _ _ => decide (entry &&& p.2.unreported = 0#32)
  | .read => !p.1.count && p.1.notifiers.isEmpty && !p.1.owner.takes
  | .signal _ | .semWait | .tick | .abort => true
  | _ => false

def Slot.awake (s : Slot) : Prop := s.count = true ∨ ∃ c,s.owner = .passed c

def within (x y : BitVec 32) : Prop := ∀ i : Nat,x.getLsbD i = true → y.getLsbD i = true

structure Told (s : Slot) (w : Reports) : Prop where
  kept : within w.unreported s.value
  settled : within w.settled w.unreported
  notifiers : ∀ v ∈ s.notifiers,within v w.unreported
  raised : w.settled ≠ 0#32 → s.awake
  fresh : s.awake ∨ s.notifiers ≠ [] → 0 < w.fresh
  idle : ∀ c left,s.owner = .waiting c left → s.count = false

variable {r : Reports}

theorem within_zero (x : BitVec 32) : within 0#32 x := by simp [within]

theorem Told.move (told : Told s r) (value : within r.unreported t.value) (notifiers : t.notifiers = s.notifiers)
    (awake : t.awake ↔ s.awake) (idle : ∀ c left,t.owner = .waiting c left → t.count = false) : Told t r :=
  ⟨value,told.settled,notifiers ▸ told.notifiers,fun some_ => awake.mpr (told.raised some_),by
    rw [awake,notifiers]
    exact told.fresh,idle⟩

theorem trySignal_cases (s : Slot) : s.trySignal.value = s.value ∧ s.trySignal.notifiers = s.notifiers ∧ s.trySignal.awake ∧
    ∀ c left,s.trySignal.owner ≠ .waiting c left := by
  unfold Slot.trySignal
  cases s.owner <;> simp [Slot.awake]

theorem Told.step (told : Told s r) (allowed : careful (s,r) e = true) (stepped : step s e = some t) :
    Told t (report s e t r) := by
  cases e with
  | notify value action =>
    cases of_decide_eq_true allowed
    cases stepped
    refine ⟨?_,?_,?_,told.raised,fun _ => Nat.succ_pos _,told.idle⟩
    · intro i set
      simp only [report,BitVec.getLsbD_or,Bool.or_eq_true] at set ⊢
      exact set.imp_left (told.kept i)
    · intro i set
      simp only [report,BitVec.getLsbD_or,Bool.or_eq_true]
      exact .inl (told.settled i set)
    · intro v member i set
      simp only [report,BitVec.getLsbD_or,Bool.or_eq_true]
      rcases mem_append.mp member with before | new
      · exact .inl (told.notifiers v before i set)
      · exact .inr (mem_singleton.mp new ▸ set)
  | signal i =>
    obtain ⟨less,same⟩ := Option.ite_none_right_eq_some.mp stepped
    cases same
    obtain ⟨value,notifiers,awake,still⟩ := trySignal_cases {s with notifiers := s.notifiers.eraseIdx i}
    refine ⟨?_,?_,?_,fun _ => awake,fun _ => ?_,fun c left waits => absurd waits (still c left)⟩
    · rw [value]
      exact told.kept
    · intro j set
      simp only [report,BitVec.getLsbD_or,Bool.or_eq_true] at set
      refine set.elim (told.settled j) fun set => told.notifiers _ ?_ j set
      simp [List.getD,less]
    · rw [notifiers]
      exact fun v member => told.notifiers v (eraseIdx_subset member)
    · exact told.fresh (.inr (ne_nil_of_length_pos (Nat.zero_lt_of_lt less)))
  | wait entry exit ticks =>
    obtain ⟨free,same⟩ := Option.ite_none_right_eq_some.mp stepped
    cases same
    refine told.move ?_ rfl ?_ nofun
    · intro i set
      have apart := congrArg (fun x => x.getLsbD i) (of_decide_eq_true allowed)
      have less := BitVec.lt_of_getLsbD set
      simp_all [told.kept i set]
    · cases owner : s.owner <;> simp_all [Slot.awake,Owner.free]
  | semWait =>
    unfold Notification.step at stepped
    dsimp only at stepped
    split at stepped
    · rename_i c ticks at_
      cases stepped
      unfold Slot.semWait
      split
      · exact told.move told.kept rfl (by simp_all [Slot.awake]) nofun
      · split
        · exact told.move told.kept rfl (by simp_all [Slot.awake]) nofun
        · exact told.move told.kept rfl (by simp_all [Slot.awake]) fun _ _ _ => eq_false_of_ne_true ‹_›
    · cases stepped
  | tick =>
    cases stepped
    unfold Slot.elapse
    split
    · rename_i c left at_
      have idle := told.idle c left at_
      split
      · exact told
      · split <;> exact told.move told.kept rfl (by simp_all [Slot.awake]) fun _ _ _ => idle
    · exact told
  | abort =>
    unfold Notification.step at stepped
    dsimp only at stepped
    split at stepped
    · cases stepped
      exact told.move told.kept rfl (by simp_all [Slot.awake]) nofun
    · cases stepped
  | read =>
    unfold Notification.step at stepped
    dsimp only at stepped
    split at stepped
    · rename_i c at_
      cases stepped
      cases c with
      | take clear => simp [careful,at_,Owner.takes] at allowed
      | wait exit =>
        obtain ⟨⟨idle,nobody⟩,_⟩ : (s.count = false ∧ s.notifiers = []) ∧ s.owner.takes = false := by
          simpa [careful] using allowed
        refine ⟨within_zero _,within_zero _,?_,fun some_ => absurd rfl some_,?_,nofun⟩
        · simp [Slot.read,nobody]
        · simp [Slot.read,Slot.awake,nobody,idle]
    · cases stepped
  | _ => cases allowed

theorem waits_report_notifications
    (run : Run (observe step report) (fun p e => careful p e = true) ({},{}) (s,r)) :
    (∀ c ticks t,s.owner = .entered c ticks → r.settled ≠ 0#32 → step s .semWait = some t → t.owner = .passed c) ∧
    (∀ c left,s.owner = .waiting c left → r.settled = 0#32) ∧
    ∀ exit,s.owner = .passed (.wait exit) → 0 < r.fresh ∧
      ∃ t,step s .read = some t ∧ t.owner = .returned (.wait exit) (some s.value) ∧ within r.settled s.value := by
  have told : Told s r := by
    refine run.keeps (I := fun p : Slot × Reports => Told p.1 p.2) ⟨within_zero _,within_zero _,nofun,fun some_ => absurd rfl some_,?_,nofun⟩ ?_
    · simp [Slot.awake]
    · intro p e q told allowed observed
      obtain ⟨stepped,same⟩ := observe_some observed
      rw [same]
      exact told.step allowed stepped
  refine ⟨?_,?_,?_⟩
  · intro c ticks t at_ some_ stepped
    have ready : s.count = true := by
      rcases told.raised some_ with ready | ⟨c,passed⟩
      · exact ready
      · cases at_.symm.trans passed
    simp only [step,at_,Slot.semWait,ready] at stepped
    cases stepped
    rfl
  · intro c left waits
    refine Decidable.byContradiction fun some_ => ?_
    rcases told.raised some_ with ready | ⟨c,passed⟩
    · cases (told.idle c left waits).symm.trans ready
    · cases waits.symm.trans passed
  · intro exit at_
    refine ⟨told.fresh (.inl (.inr ⟨_,at_⟩)),s.read (.wait exit),by simp only [step,at_],rfl,?_⟩
    exact fun i set => told.kept i (told.settled i set)

def twoBits : List Event :=
  [.notify 1#32 .setBits,.signal 0,.wait 2#32 1#32 9,.semWait,.read,.wait 0#32 0#32 9,.semWait,.notify 4#32 .setBits,.signal 0]

theorem twoBits_reported : ∃ p : Slot × Reports,
    exec (observe step report) ({},{}) twoBits = some p ∧ p.1.owner = .passed (.wait 0#32) ∧
      p.2.settled = 4#32 ∧ 0 < p.2.fresh ∧ within 4#32 p.1.value := by
  refine exec_shows (P := fun p => p.1.owner = .passed (.wait 0#32) ∧ p.2.settled = 4#32) (by decide) ?_
  intro p ran ⟨at_,bits⟩
  have run := Run.ofExecAllowed careful (by decide) ran
  obtain ⟨fresh,_,_,_,kept⟩ := (waits_report_notifications run).2.2 _ at_
  exact ⟨at_,bits,fresh,bits ▸ kept⟩

-- The second notification comes between Wait() and the critical section of the first wait,
-- which reports its bit. The flag lets the next wait pass without any news.
def notifiedBetween : List Event :=
  [.notify 1#32 .setBits,.signal 0,.wait 0#32 3#32 9,.semWait,.notify 2#32 .setBits,.signal 0,.read,.wait 0#32 3#32 9,.semWait]

theorem notifiedBetween_invents : ∃ p : Slot × Reports,
    Run (observe step report) (fun _ _ => True) ({},{}) p ∧
      p.1.owner = .passed (.wait 3#32) ∧ p.2.fresh = 0 ∧ p.1.value = 0#32 :=
  Run.found notifiedBetween (by decide)

-- Any mix of calls. The observer keeps the actions of the unconsumed notifications.
def outstanding (s : Slot) (e : Event) (_ : Slot) (w : List Action) : List Action :=
  match e with
  | .give => .increment :: w
  | .notify value action => if (notifyApplyAction s value action).isSome then action :: w else w
  | .read => []
  | .stateClear => if s.count || s.pending then [] else w
  | _ => w

theorem read_pending (s : Slot) (c : Call) : (s.read c).pending = false := by
  cases c with
  | take clear => rw [read_take]
  | wait exit => rfl

theorem outstanding_step {a : List Action} (same : s.pending = true ↔ .setValueWithoutOverwrite ∈ a) (stepped : step s e = some t) :
    t.pending = true ↔ .setValueWithoutOverwrite ∈ outstanding s e t a := by
  cases e with
  | notify value action => cases action <;> grind [step,notifyApplyAction,outstanding]
  | read => grind [step,read_pending,outstanding]
  | stateClear => grind [step,outstanding]
  | _ => grind [step,Slot.trySignal,Slot.semWait,Slot.elapse,outstanding]

theorem overwrites_nothing
    (run : Run (observe step outstanding) (fun _ _ => True) ({},[]) (s,a))
    (known : a = [] ∨ .setValueWithoutOverwrite ∈ a) (value : BitVec 32) :
    (notifyApplyAction s value .setValueWithoutOverwrite).isSome = true ↔ a = [] := by
  have same : s.pending = true ↔ .setValueWithoutOverwrite ∈ a := by
    refine run.keeps (I := fun p : Slot × List Action => p.1.pending = true ↔ .setValueWithoutOverwrite ∈ p.2) (by decide) ?_
    intro p e q same _ observed
    obtain ⟨stepped,next⟩ := observe_some observed
    rw [next]
    exact outstanding_step same stepped
  unfold notifyApplyAction
  cases set : s.pending with
  | true =>
    refine iff_of_false nofun ?_
    rintro rfl
    cases same.mp set
  | false =>
    refine iff_of_true rfl (known.resolve_right fun member => ?_)
    cases set.symm.trans (same.mpr member)

def setOnce : List Event := [.notify 5#32 .setValueWithoutOverwrite,.signal 0]

theorem setOnce_refused : ∃ p : Slot × List Action,
    exec (observe step outstanding) ({},[]) setOnce = some p ∧ p.2 = [.setValueWithoutOverwrite] ∧
      ¬(notifyApplyAction p.1 9#32 .setValueWithoutOverwrite).isSome = true := by
  refine exec_shows (P := fun p => p.2 = [.setValueWithoutOverwrite]) (by decide) ?_
  rintro ⟨s,a⟩ ran rfl
  refine ⟨rfl,mt (overwrites_nothing (.ofExec ran) (.inr (by decide)) 9#32).mp nofun⟩

-- Only eSetValueWithoutOverwrite marks the slot, so it overwrites what the others have left.
def setOver : List Event := [.notify 5#32 .setValueWithOverwrite,.signal 0]

theorem setOver_overwrites : ∃ p : Slot × List Action,
    Run (observe step outstanding) (fun _ _ => True) ({},[]) p ∧ p.2 = [.setValueWithOverwrite] ∧
      p.1.value = 5#32 ∧ (notifyApplyAction p.1 9#32 .setValueWithoutOverwrite).isSome = true :=
  Run.found setOver (by decide)

end SuperTinyKernel.FreeRtos.Notification
