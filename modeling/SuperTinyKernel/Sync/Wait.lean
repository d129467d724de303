import SuperTinyKernel.KernelTask
import SuperTinyKernel.Library.Monitor

namespace SuperTinyKernel

open Monitor

-- The sync objects loop around ConditionVariable::WaitEx inside a critical section. A wait
-- fails under the scheduler lock and without KERNEL_SYNC.

-- static_cast<Timeout> of Ticks.
def castTimeout (ticks : Int) : Int := ticks.bmod 4294967296

def timedWait (timeout : Int) : Bool := decide (timeout ≠ waitInfinite ∧ timeout ≠ noWait)

-- timed_wait and deadline of the loops that keep both in 32 bits.
structure Deadline where
  timed : Bool
  deadline : Int
  deriving DecidableEq,Repr

def Deadline.of (now timeout : Int) : Deadline :=
  ⟨timedWait timeout,if timedWait timeout then castTimeout (now + timeout) else timeout⟩

-- The difference is an int32_t, whose overflow is undefined.
def Deadline.remaining (d : Deadline) (now : Int) : Option Int :=
  if d.timed then
    if d.deadline ≤ castTimeout now then some noWait
    else if d.deadline - castTimeout now ≤ 2147483647 then some (d.deadline - castTimeout now)
    else none
  else some d.deadline

-- The same for the loops that keep the deadline in Ticks.
structure Budget where
  timeout : Int
  deadline : Int
  deriving DecidableEq,Repr

def Budget.of (now timeout : Int) : Budget := ⟨timeout,if timedWait timeout then now + timeout else 0⟩

def Budget.remaining (b : Budget) (now : Int) : Int :=
  if timedWait b.timeout then if 0 < b.deadline - now then b.deadline - now else noWait else b.timeout

def ticksLeft (remaining : Int) : Option Nat := if remaining = waitInfinite then none else some remaining.toNat

-- WaitEx as the last statement of a critical section. `failed` is how it goes on if the wait
-- ends at once: NO_WAIT is a timeout, and an interrupt must not wait.
def waitEx {S C L A O : Type} (env : Ambient) (cond : C) (remaining : Int) (rest : L) (s : S)
    (failed : Wakeup → Option (Section S C L A O)) : Option (Section S C L A O) :=
  if remaining = noWait then failed .timeout
  else if env.isr then none
  else if env.refused then failed .fail
  else some {shared := s,ending := .wait cond (ticksLeft remaining) rest}

theorem waitEx_cases {S C L A O : Type} {env : Ambient} {cond : C} {remaining : Int} {rest : L} {s : S}
    {failed : Wakeup → Option (Section S C L A O)} {sec : Section S C L A O}
    (taken : waitEx env cond remaining rest s failed = some sec) :
    (remaining = noWait ∧ failed .timeout = some sec) ∨ (remaining ≠ noWait ∧ failed .fail = some sec) ∨
      (remaining ≠ noWait ∧
        sec = {shared := s,ending := .wait cond (ticksLeft remaining) rest}) := by
  unfold waitEx at taken
  split at taken
  · rename_i none
    exact .inl ⟨none,taken⟩
  · rename_i some
    split at taken
    · cases taken
    · split at taken
      · exact .inr (.inl ⟨some,taken⟩)
      · exact .inr (.inr ⟨some,(Option.some.inj taken).symm⟩)

-- A loop that waits until the object is as the call needs it, then `go`; `failed` is a failed
-- wait.
def waitWhile {S C L A O : Type} (env : Ambient) (blocked : Bool) (cond : C) (deadline : Deadline) (rest : L) (s : S)
    (failed : Wakeup → Option (Section S C L A O)) (go : Option (Section S C L A O)) : Option (Section S C L A O) :=
  if blocked then (deadline.remaining env.now).bind fun remaining => waitEx env cond remaining rest s failed else go

inductive Waited {S C L A O : Type} (env : Ambient) (blocked : Bool) (cond : C) (deadline : Deadline) (rest : L) (s : S)
    (failed : Wakeup → Option (Section S C L A O)) (go : Option (Section S C L A O)) (sec : Section S C L A O) : Prop where
  | goes : blocked = false → go = some sec → Waited env blocked cond deadline rest s failed go sec
  | fails (result : Wakeup) : blocked = true → result ≠ .signal → failed result = some sec →
      (result = .timeout → deadline.remaining env.now = some noWait) → Waited env blocked cond deadline rest s failed go sec
  | waits (remaining : Int) : blocked = true → deadline.remaining env.now = some remaining → remaining ≠ noWait →
      sec = {shared := s,ending := .wait cond (ticksLeft remaining) rest} →
      Waited env blocked cond deadline rest s failed go sec

theorem waitWhile_inv {S C L A O : Type} {env : Ambient} {blocked : Bool} {cond : C} {deadline : Deadline} {rest : L} {s : S}
    {failed : Wakeup → Option (Section S C L A O)} {go : Option (Section S C L A O)} {sec : Section S C L A O}
    (taken : waitWhile env blocked cond deadline rest s failed go = some sec) :
    Waited env blocked cond deadline rest s failed go sec := by
  unfold waitWhile at taken
  split at taken
  · rename_i blocks
    obtain ⟨remaining,left,taken⟩ := of_bind taken
    rcases waitEx_cases taken with ⟨ranOut,taken⟩ | ⟨_,taken⟩ | ⟨more,same⟩
    · exact .fails .timeout blocks nofun taken fun _ => by rw [left,ranOut]
    · exact .fails .fail blocks nofun taken nofun
    · exact .waits remaining blocks left more same
  · rename_i free
    exact .goes (eq_false_of_ne_true free) taken

end SuperTinyKernel
