import Mathlib.Algebra.Ring.Nat
import SuperTinyKernel.Library.Monitor

set_option linter.unusedSectionVars false

-- Units that the tasks of one condition variable wait for. A task goes on when there are as
-- many as it needs, and takes at least those. No wake-up is lost while the units beyond the
-- need of a waiting task are claimed by signaled tasks that need no more than it does.
namespace Monitor.Hall

variable {T Q S C L A O : Type} [DecidableEq T] [DecidableEq C] {h h' : Hall T Q S C L A O}
variable {need : L → Nat} {c : C} {level level' : Nat} {call : Visit T Q O} {sec : Section S C L A O}

def claim (need : L → Nat) (c : C) (n : Nat) (d : Woken T Q C L O) : Nat :=
  if d.cond = c ∧ d.result = .signal ∧ need d.rest ≤ n then need d.rest else 0

def claimed (need : L → Nat) (c : C) (n : Nat) (due : List (Woken T Q C L O)) : Nat := (due.map (claim need c n)).sum

def Covered (need : L → Nat) (c : C) (level : Nat) (h : Hall T Q S C L A O) : Prop :=
  ∀ w ∈ h.waiting,w.cond = c → level < need w.rest + claimed need c (need w.rest) h.due

theorem claimed_append (n : Nat) (due new : List (Woken T Q C L O)) :
    claimed need c n (due ++ new) = claimed need c n due + claimed need c n new := by
  simp [claimed]

theorem Covered.settled (covered : Covered need c level h) (settled : h.due = []) (member : w ∈ h.waiting)
    (at_ : w.cond = c) : level < need w.rest := by
  have bound := covered w member at_
  rwa [settled] at bound

theorem Covered.lower (covered : Covered need c level h) (less : level' ≤ level) : Covered need c level' h :=
  fun w member at_ => lt_of_le_of_lt less (covered w member at_)

theorem Covered.grow (covered : Covered need c level h) (grown : h'.due = h.due ++ new)
    (waiting : ∀ w ∈ h'.waiting,∃ v ∈ h.waiting,v.cond = w.cond ∧ v.rest = w.rest) : Covered need c level h' := by
  intro w member at_
  obtain ⟨v,before,cond,rest⟩ := waiting w member
  have bound := covered v before (cond.trans at_)
  rw [rest] at bound
  rw [grown,claimed_append]
  omega

theorem notify_grows (h : Hall T Q S C L A O) (x : Notification C) : ∃ new,(h.notify x).due = h.due ++ new := by
  cases x with
  | one c =>
    cases h.notify_one c with
    | nobody _ same => exact ⟨[],by rw [same,List.append_nil]⟩
    | first before w after _ _ _ same => exact ⟨[w.wake .signal],by rw [same]⟩
  | all c => exact ⟨_,rfl⟩

theorem Covered.notify (covered : Covered need c level h) (x : Notification C) : Covered need c level (h.notify x) := by
  obtain ⟨new,grown⟩ := h.notify_grows x
  refine covered.grow grown ?_
  intro w member
  exact ⟨w,(notify_waiting member).1,rfl,rfl⟩

theorem Covered.notices (covered : Covered need c level h) (notices : List (Notification C)) :
    Covered need c level (notices.foldl Hall.notify h) := by
  induction notices generalizing h with
  | nil => exact covered
  | cons x rest ih => exact ih (covered.notify x)

-- The first task in the row may use one more unit at the cost of another only if it needs no
-- more.
def fair (need : L → Nat) (c : C) (level : Nat) (h : Hall T Q S C L A O) : Bool :=
  (h.waiting.find? fun f => decide (f.cond = c)).all fun f =>
    h.waiting.all fun w => decide (w.cond = c → need f.rest ≤ need w.rest ∨
      level + 1 < need w.rest + claimed need c (need w.rest) h.due)

section

variable (covered : Covered need c level h)
include covered

theorem Covered.notify_one (just : fair need c level h = true)
    (some : ∀ w ∈ h.waiting,w.cond = c → 0 < need w.rest) : Covered need c (level + 1) (h.notify (.one c)) := by
  cases h.notify_one c with
  | nobody none same =>
    rw [same]
    exact fun w member at_ => absurd at_ (none w member)
  | first before f after split first others same =>
    have found : h.waiting.find? (fun f => decide (f.cond = c)) = .some f := by
      refine List.find?_eq_some_iff_append.mpr ⟨decide_eq_true first,before,after,split,?_⟩
      intro v member
      simpa using others v member
    rw [fair,found,Option.all_some] at just
    rw [same]
    intro w member at_
    have old : w ∈ h.waiting := by
      rw [split]
      exact ((List.sublist_cons_self f after).append_left before).subset member
    have bound := covered w old at_
    have positive := some f (by simp [split]) first
    have just := of_decide_eq_true (List.all_eq_true.mp just w old) at_
    show level + 1 < need w.rest + claimed need c (need w.rest) (h.due ++ [f.wake .signal])
    rw [claimed_append]
    rcases just with less | more
    · have claims : claimed need c (need w.rest) [f.wake .signal] = need f.rest := by
        simp [claimed,claim,Waiter.wake,first,less]
      omega
    · omega

theorem Covered.conclude (call : Visit T Q O) {ending : Exit C L A}
    (waits : ∀ left rest,ending = .wait c left rest → level < need rest) : Covered need c level (h.conclude call ending) := by
  cases ending with
  | wait d left rest =>
    intro w member at_
    rcases List.mem_append.mp member with old | new
    · exact covered w old at_
    · rw [List.mem_singleton.mp new] at at_ ⊢
      cases at_
      exact Nat.lt_add_right _ (waits left rest rfl)
  | pause rest | done answer => exact covered

-- What a critical section may do to the level: nothing, or take units; add one and wake one
-- task; add some and wake all.
theorem Covered.perform (call : Visit T Q O)
    (waits : ∀ left rest,sec.ending = .wait c left rest → level < need rest) : Covered need c level (h.perform call sec) := by
  have before : Covered need c level (h.store call.task sec) := covered
  exact (before.notices sec.notices).conclude _ waits

theorem Covered.perform_one (call : Visit T Q O) (only : sec.notices = [.one c])
    (waits : ∀ left rest,sec.ending = .wait c left rest → level + 1 < need rest) (just : fair need c level h = true)
    (some : ∀ w ∈ h.waiting,w.cond = c → 0 < need w.rest) : Covered need c (level + 1) (h.perform call sec) := by
  have before : Covered need c level (h.store call.task sec) := covered
  unfold Hall.perform
  rw [only]
  refine (before.notify_one ?_ some).conclude _ waits
  exact just

end

theorem Covered.perform_all (call : Visit T Q O) (told : .all c ∈ sec.notices)
    (waits : ∀ left rest,sec.ending = .wait c left rest → level < need rest) : Covered need c level (h.perform call sec) := by
  have nobody : Covered need c level (sec.notices.foldl Hall.notify (h.store call.task sec)) := by
    intro w member at_
    have untold := (notices_waiting sec.notices member).2
    rw [at_] at untold
    exact absurd told untold
  exact nobody.conclude _ waits

theorem Covered.run (covered : Covered need c level h) (split : h.due = before ++ d :: after) (less : level' ≤ level)
    (used : d.cond = c → d.result = .signal → level' + need d.rest ≤ level ∨ level < need d.rest) :
    Covered need c level' {h with due := before ++ after} := by
  intro w member at_
  have bound := covered w member at_
  rw [split] at bound
  have parts : claimed need c (need w.rest) (before ++ d :: after) =
      claimed need c (need w.rest) (before ++ after) + claim need c (need w.rest) d := by
    simp [claimed]
    omega
  rw [parts,claim] at bound
  dsimp only
  split at bound
  · rename_i claims
    rcases used claims.1 claims.2.1 with taken | short <;> omega
  · omega

theorem fair_run (split : h.due = before ++ d :: after) (other : d.cond ≠ c) :
    fair need c level {h with due := before ++ after} = fair need c level h := by
  have same : ∀ n,claimed need c n h.due = claimed need c n (before ++ after) := by
    intro n
    rw [split]
    simp [claimed,claim,other]
  unfold fair
  simp only [same]

theorem Covered.quiet (covered : Covered need c level h) (quiet : Quiet h h') : Covered need c level h' := by
  obtain ⟨new,grown,_⟩ := quiet.due
  refine covered.grow grown ?_
  intro w member
  obtain ⟨v,before,_,cond,rest⟩ := quiet.waiting w member
  exact ⟨v,before,cond,rest⟩

end Monitor.Hall
