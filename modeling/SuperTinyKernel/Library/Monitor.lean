import Mathlib.Data.List.Basic
import SuperTinyKernel.Library.Run

set_option linter.unusedSectionVars false

-- Monitors with Mesa-style condition variables, over any tasks and shared state. A call is a
-- sequence of critical sections, between which the task waits for a condition variable or
-- leaves the monitor for a moment. A notified task runs some time later, so what it was
-- notified of may no longer hold.
namespace Monitor

open List hiding after

inductive Wakeup where
  | signal | timeout | canceled | fail
  deriving DecidableEq,Repr

inductive Notification (C : Type) where
  | one (cond : C)
  | all (cond : C)
  deriving DecidableEq,Repr

def Notification.map {C D : Type} (f : C → D) : Notification C → Notification D
  | .one cond => .one (f cond)
  | .all cond => .all (f cond)

-- How a critical section ends: with a wait for `left` ticks or for ever, a moment outside, or
-- the end of the call.
inductive Exit (C L A : Type) where
  | wait (cond : C) (left : Option Nat) (rest : L)
  | pause (rest : L)
  | done (answer : A)
  deriving DecidableEq,Repr

-- What a critical section does. `log` is what an observer is told about it.
structure Section (S C L A O : Type) where
  shared : S
  notices : List (Notification C) := []
  log : List O := []
  ending : Exit C L A

def Section.after {S C L A O : Type} (notices : List (Notification C)) (log : List O) (sec : Section S C L A O) :
    Section S C L A O :=
  {sec with notices := notices ++ sec.notices,log := log ++ sec.log}

-- What a critical section sees besides the shared state: the clock, whether it is an
-- interrupt, and whether it may not wait.
structure Ambient where
  now : Int
  isr : Bool := false
  refused : Bool := false

-- The code of the calls: the first critical section, and the one behind a wait. `none` breaks
-- the contract of the interface.
structure Program (Q S C L A O : Type) where
  enter : Ambient → S → Q → Option (Section S C L A O)
  resume : Ambient → S → L → Wakeup → Option (Section S C L A O)

-- A call in progress, made at tick `since`, with what has been observed of it.
structure Visit (T Q O : Type) where
  task : T
  request : Q
  since : Int
  log : List O := []
  deriving DecidableEq,Repr

structure Waiter (T Q C L O : Type) where
  call : Visit T Q O
  cond : C
  left : Option Nat
  rest : L
  deriving DecidableEq,Repr

structure Woken (T Q C L O : Type) where
  call : Visit T Q O
  cond : C
  rest : L
  result : Wakeup
  deriving DecidableEq,Repr

structure Paused (T Q L O : Type) where
  call : Visit T Q O
  rest : L
  deriving DecidableEq,Repr

structure Returned (T Q A O : Type) where
  call : Visit T Q O
  answer : A
  deriving DecidableEq,Repr

-- The waiting tasks in the order of arrival, those woken and still due to run, those outside
-- for a moment, and the call that the last step has ended.
structure Hall (T Q S C L A O : Type) where
  now : Int := 0
  shared : S
  waiting : List (Waiter T Q C L O) := []
  due : List (Woken T Q C L O) := []
  paused : List (Paused T Q L O) := []
  log : List (T × O) := []
  returned : Option (Returned T Q A O) := none

-- The kernel may refuse the wait of a call or of a task that runs on.
inductive Happening (T Q : Type) where
  | call (task : T) (request : Q) (isr refused : Bool)
  | run (task : T) (refused : Bool)
  | proceed (task : T) (refused : Bool)
  | tick
  | cancel (task : T)
  deriving DecidableEq,Repr

variable {T Q S C L A O : Type}

namespace Waiter

def wake (w : Waiter T Q C L O) (result : Wakeup) : Woken T Q C L O := ⟨w.call,w.cond,w.rest,result⟩

def expires (w : Waiter T Q C L O) : Bool := w.left.any fun left => decide (left ≤ 1)
def elapse (w : Waiter T Q C L O) : Waiter T Q C L O := {w with left := w.left.map (· - 1)}

end Waiter

namespace Hall

variable [DecidableEq T] [DecidableEq C] {P : Program Q S C L A O} {h h' : Hall T Q S C L A O}

def notify (h : Hall T Q S C L A O) : Notification C → Hall T Q S C L A O
  | .one c =>
    match h.waiting.find? fun w => decide (w.cond = c) with
    | some w => {h with waiting := h.waiting.eraseP fun w => decide (w.cond = c),due := h.due ++ [w.wake .signal]}
    | none => h
  | .all c =>
    {h with waiting := h.waiting.filter fun w => decide (w.cond ≠ c),
            due := h.due ++ (h.waiting.filter fun w => decide (w.cond = c)).map fun w => w.wake .signal}

def conclude (h : Hall T Q S C L A O) (call : Visit T Q O) : Exit C L A → Hall T Q S C L A O
  | .wait cond left rest => {h with waiting := h.waiting ++ [⟨call,cond,left,rest⟩],returned := none}
  | .pause rest => {h with paused := h.paused ++ [⟨call,rest⟩],returned := none}
  | .done answer => {h with returned := some ⟨call,answer⟩}

def store (h : Hall T Q S C L A O) (t : T) (sec : Section S C L A O) : Hall T Q S C L A O :=
  {h with shared := sec.shared,log := h.log ++ sec.log.map fun o => (t,o)}

def perform (h : Hall T Q S C L A O) (call : Visit T Q O) (sec : Section S C L A O) : Hall T Q S C L A O :=
  (sec.notices.foldl notify (h.store call.task sec)).conclude {call with log := call.log ++ sec.log} sec.ending

def busy (h : Hall T Q S C L A O) (t : T) : Bool :=
  h.waiting.any (fun w => decide (w.call.task = t)) || h.due.any (fun d => decide (d.call.task = t)) ||
    h.paused.any fun p => decide (p.call.task = t)

def elapse (h : Hall T Q S C L A O) : Hall T Q S C L A O :=
  {h with now := h.now + 1,waiting := (h.waiting.filter fun w => !w.expires).map Waiter.elapse,
          due := h.due ++ (h.waiting.filter Waiter.expires).map fun w => w.wake .timeout,returned := none}

def step (P : Program Q S C L A O) (h : Hall T Q S C L A O) : Happening T Q → Option (Hall T Q S C L A O)
  | .call t q isr refused =>
    if h.busy t then none
    else (P.enter ⟨h.now,isr,refused⟩ h.shared q).map (h.perform ⟨t,q,h.now,[]⟩)
  | .run t refused =>
    (h.due.find? fun d => decide (d.call.task = t)).bind fun d =>
      (P.resume ⟨h.now,false,refused⟩ h.shared d.rest d.result).map
        (perform {h with due := h.due.eraseP fun d => decide (d.call.task = t)} d.call)
  | .proceed t refused =>
    (h.paused.find? fun p => decide (p.call.task = t)).bind fun p =>
      (P.resume ⟨h.now,false,refused⟩ h.shared p.rest .signal).map
        (perform {h with paused := h.paused.eraseP fun p => decide (p.call.task = t)} p.call)
  | .tick => some h.elapse
  | .cancel t =>
    (h.waiting.find? fun w => decide (w.call.task = t)).map fun w =>
      {h with waiting := h.waiting.eraseP fun w => decide (w.call.task = t),
              due := h.due ++ [w.wake .canceled],returned := none}

theorem find_erase {α : Type} {p : α → Bool} {l : List α} {x : α} (found : l.find? p = some x) :
    ∃ before after,l = before ++ x :: after ∧ p x = true ∧ (∀ y ∈ before,p y = false) ∧ l.eraseP p = before ++ after := by
  obtain ⟨holds,before,after,split,none⟩ := List.find?_eq_some_iff_append.mp found
  have none : ∀ y ∈ before,p y = false := by
    intro y member
    simpa using none y member
  refine ⟨before,after,split,holds,none,?_⟩
  rw [split,eraseP_append_right]
  · rw [eraseP_cons_of_pos holds]
  · intro y member
    simp [none y member]

theorem mem_without {α : Type} {l before after : List α} {x y : α} (split : l = before ++ x :: after)
    (member : y ∈ before ++ after) : y ∈ l := by
  rw [split]
  exact ((sublist_cons_self x after).append_left before).subset member

inductive Step (P : Program Q S C L A O) (h : Hall T Q S C L A O) : Happening T Q → Hall T Q S C L A O → Prop where
  | call : h.busy t = false → P.enter ⟨h.now,isr,refused⟩ h.shared q = some sec →
      Step P h (.call t q isr refused) (h.perform ⟨t,q,h.now,[]⟩ sec)
  | run : h.due = before ++ d :: after → h.due.find? (fun d => decide (d.call.task = t)) = some d →
      P.resume ⟨h.now,false,refused⟩ h.shared d.rest d.result = some sec →
      Step P h (.run t refused) (perform {h with due := before ++ after} d.call sec)
  | proceed : h.paused = before ++ p :: after → h.paused.find? (fun p => decide (p.call.task = t)) = some p →
      P.resume ⟨h.now,false,refused⟩ h.shared p.rest .signal = some sec →
      Step P h (.proceed t refused) (perform {h with paused := before ++ after} p.call sec)
  | tick : Step P h .tick h.elapse
  | cancel : h.waiting = before ++ w :: after → h.waiting.find? (fun w => decide (w.call.task = t)) = some w →
      Step P h (.cancel t) {h with waiting := before ++ after,due := h.due ++ [w.wake .canceled],returned := none}

theorem step_inv (taken : h.step P e = some h') : Step P h e h' := by
  cases e with
  | call t q isr refused =>
    rw [step] at taken
    split at taken
    · cases taken
    · rename_i idle
      obtain ⟨sec,entered,same⟩ := of_map taken
      cases same
      exact .call (eq_false_of_ne_true idle) entered
  | run t refused =>
    obtain ⟨d,found,taken⟩ := of_bind taken
    obtain ⟨sec,resumed,same⟩ := of_map taken
    cases same
    obtain ⟨before,after,split,_,_,erased⟩ := find_erase found
    rw [erased]
    exact .run split found resumed
  | proceed t refused =>
    obtain ⟨p,found,taken⟩ := of_bind taken
    obtain ⟨sec,resumed,same⟩ := of_map taken
    cases same
    obtain ⟨before,after,split,_,_,erased⟩ := find_erase found
    rw [erased]
    exact .proceed split found resumed
  | tick =>
    cases taken
    exact .tick
  | cancel t =>
    obtain ⟨w,found,same⟩ := of_map taken
    cases same
    obtain ⟨before,after,split,_,_,erased⟩ := find_erase found
    rw [erased]
    exact .cancel split found

inductive Notified (c : C) (h h' : Hall T Q S C L A O) : Prop where
  | nobody : (∀ w ∈ h.waiting,w.cond ≠ c) → h' = h → Notified c h h'
  | first (before w after) : h.waiting = before ++ w :: after → w.cond = c → (∀ v ∈ before,v.cond ≠ c) →
      h' = {h with waiting := before ++ after,due := h.due ++ [w.wake .signal]} → Notified c h h'

theorem notify_one (c : C) (h : Hall T Q S C L A O) : Notified c h (h.notify (.one c)) := by
  unfold notify
  dsimp only
  split
  · rename_i w found
    obtain ⟨before,after,split,at_,others,erased⟩ := find_erase found
    refine .first before w after split (of_decide_eq_true at_) ?_ (by rw [erased])
    intro v member
    simpa using others v member
  · rename_i absent
    refine .nobody ?_ rfl
    intro w member
    simpa using List.find?_eq_none.mp absent w member

theorem notify_frame (h : Hall T Q S C L A O) (x : Notification C) :
    (h.notify x).shared = h.shared ∧ (h.notify x).now = h.now ∧ (h.notify x).paused = h.paused ∧ (h.notify x).log = h.log := by
  cases x with
  | one c => unfold notify; dsimp only; split <;> exact ⟨rfl,rfl,rfl,rfl⟩
  | all c => exact ⟨rfl,rfl,rfl,rfl⟩

theorem notices_frame (notices : List (Notification C)) (h : Hall T Q S C L A O) :
    (notices.foldl notify h).shared = h.shared ∧ (notices.foldl notify h).now = h.now ∧
      (notices.foldl notify h).paused = h.paused ∧ (notices.foldl notify h).log = h.log := by
  induction notices generalizing h with
  | nil => exact ⟨rfl,rfl,rfl,rfl⟩
  | cons x rest ih =>
    obtain ⟨shared,now,paused,log⟩ := ih (h.notify x)
    obtain ⟨shared',now',paused',log'⟩ := h.notify_frame x
    exact ⟨shared.trans shared',now.trans now',paused.trans paused',log.trans log'⟩

theorem conclude_frame (h : Hall T Q S C L A O) (call : Visit T Q O) (ending : Exit C L A) :
    (h.conclude call ending).shared = h.shared ∧ (h.conclude call ending).now = h.now ∧
      (h.conclude call ending).due = h.due ∧ (h.conclude call ending).log = h.log := by
  cases ending <;> exact ⟨rfl,rfl,rfl,rfl⟩

@[simp] theorem perform_shared (h : Hall T Q S C L A O) (call : Visit T Q O) (sec : Section S C L A O) :
    (h.perform call sec).shared = sec.shared :=
  (conclude_frame _ _ _).1.trans (notices_frame _ _).1

@[simp] theorem perform_now (h : Hall T Q S C L A O) (call : Visit T Q O) (sec : Section S C L A O) :
    (h.perform call sec).now = h.now :=
  (conclude_frame _ _ _).2.1.trans (notices_frame _ _).2.1

@[simp] theorem perform_log (h : Hall T Q S C L A O) (call : Visit T Q O) (sec : Section S C L A O) :
    (h.perform call sec).log = h.log ++ sec.log.map fun o => (call.task,o) :=
  (conclude_frame _ _ _).2.2.2.trans (notices_frame _ _).2.2.2

theorem notify_waiting (member : w ∈ (h.notify x).waiting) : w ∈ h.waiting ∧ x ≠ .all w.cond := by
  cases x with
  | one c =>
    refine ⟨?_,by simp⟩
    cases h.notify_one c with
    | nobody _ same => rwa [same] at member
    | first before v after split _ _ same =>
      rw [same] at member
      exact mem_without split member
  | all c =>
    obtain ⟨member,apart⟩ := mem_filter.mp member
    exact ⟨member,fun same => of_decide_eq_true apart (Notification.all.inj same).symm⟩

theorem notify_due (member : d ∈ (h.notify x).due) : d ∈ h.due ∨ ∃ w ∈ h.waiting,d = w.wake .signal := by
  cases x with
  | one c =>
    cases h.notify_one c with
    | nobody _ same => rw [same] at member; exact .inl member
    | first before v after split _ _ same =>
      rw [same] at member
      rcases mem_append.mp member with old | new
      · exact .inl old
      · exact .inr ⟨v,by simp [split],mem_singleton.mp new⟩
  | all c =>
    rcases mem_append.mp member with old | new
    · exact .inl old
    · obtain ⟨w,chosen,same⟩ := mem_map.mp new
      exact .inr ⟨w,(mem_filter.mp chosen).1,same.symm⟩

theorem notify_keeps_due (x : Notification C) (member : d ∈ h.due) : d ∈ (h.notify x).due := by
  cases x with
  | one c =>
    cases h.notify_one c with
    | nobody _ same => rwa [same]
    | first _ _ _ _ _ _ same => rw [same]; exact mem_append_left _ member
  | all c => exact mem_append_left _ member

theorem notify_someone (member : w ∈ h.waiting) (meant : x = .one w.cond ∨ x = .all w.cond) :
    ∃ d ∈ (h.notify x).due,d.cond = w.cond ∧ d.result = .signal := by
  rcases meant with rfl | rfl
  · cases h.notify_one w.cond with
    | nobody none => exact absurd rfl (none w member)
    | first before v after _ at_ _ same =>
      rw [same]
      exact ⟨v.wake .signal,by simp,at_,rfl⟩
  · refine ⟨w.wake .signal,?_,rfl,rfl⟩
    exact mem_append_right _ (mem_map_of_mem (mem_filter.mpr ⟨member,decide_eq_true rfl⟩))

theorem notices_waiting (notices : List (Notification C)) (member : w ∈ (notices.foldl notify h).waiting) :
    w ∈ h.waiting ∧ .all w.cond ∉ notices := by
  induction notices generalizing h with
  | nil => exact ⟨member,by simp⟩
  | cons x rest ih =>
    obtain ⟨before,absent⟩ := ih member
    obtain ⟨before,apart⟩ := notify_waiting before
    refine ⟨before,fun present => ?_⟩
    rcases mem_cons.mp present with here | later
    · exact apart here.symm
    · exact absent later

theorem notices_due (notices : List (Notification C)) (member : d ∈ (notices.foldl notify h).due) :
    d ∈ h.due ∨ ∃ w ∈ h.waiting,d = w.wake .signal := by
  induction notices generalizing h with
  | nil => exact .inl member
  | cons x rest ih =>
    rcases ih member with old | ⟨w,waits,same⟩
    · exact notify_due old
    · exact .inr ⟨w,(notify_waiting waits).1,same⟩

theorem notices_keep_due (notices : List (Notification C)) (member : d ∈ h.due) : d ∈ (notices.foldl notify h).due := by
  induction notices generalizing h with
  | nil => exact member
  | cons x rest ih => exact ih (notify_keeps_due x member)

theorem perform_waiting {call : Visit T Q O} {sec : Section S C L A O} (member : w ∈ (h.perform call sec).waiting) :
    (w ∈ h.waiting ∧ .all w.cond ∉ sec.notices) ∨
      ∃ c left rest,sec.ending = .wait c left rest ∧ w = ⟨{call with log := call.log ++ sec.log},c,left,rest⟩ := by
  unfold perform at member
  cases ending : sec.ending with
  | wait c left rest =>
    rw [ending] at member
    rcases mem_append.mp member with old | new
    · have kept := notices_waiting sec.notices old
      exact .inl kept
    · exact .inr ⟨c,left,rest,rfl,mem_singleton.mp new⟩
  | pause rest | done answer =>
    rw [ending] at member
    have kept := notices_waiting sec.notices member
    exact .inl kept

theorem perform_due {call : Visit T Q O} {sec : Section S C L A O} (member : d ∈ (h.perform call sec).due) :
    d ∈ h.due ∨ ∃ w ∈ h.waiting,d = w.wake .signal := by
  unfold perform at member
  rw [(conclude_frame _ _ _).2.2.1] at member
  have known := notices_due sec.notices member
  exact known

theorem perform_keeps_due (call : Visit T Q O) (sec : Section S C L A O) (member : d ∈ h.due) :
    d ∈ (h.perform call sec).due := by
  unfold perform
  rw [(conclude_frame _ _ _).2.2.1]
  exact notices_keep_due sec.notices member

theorem perform_someone (call : Visit T Q O) {sec : Section S C L A O} (member : w ∈ h.waiting)
    (meant : sec.notices = [.one w.cond] ∨ sec.notices = [.all w.cond]) :
    ∃ d ∈ (h.perform call sec).due,d.cond = w.cond ∧ d.result = .signal := by
  unfold perform
  rw [(conclude_frame _ _ _).2.2.1]
  rcases meant with only | only <;> rw [only]
  · exact notify_someone (h := h.store call.task sec) member (.inl rfl)
  · exact notify_someone (h := h.store call.task sec) member (.inr rfl)

theorem perform_paused {call : Visit T Q O} {sec : Section S C L A O} (member : p ∈ (h.perform call sec).paused) :
    p ∈ h.paused ∨ ∃ rest,sec.ending = .pause rest ∧ p = ⟨{call with log := call.log ++ sec.log},rest⟩ := by
  unfold perform at member
  have same := (notices_frame sec.notices (h.store call.task sec)).2.2.1
  cases ending : sec.ending with
  | wait c left rest | done answer => rw [ending] at member; exact .inl (same ▸ member)
  | pause rest =>
    rw [ending] at member
    rcases mem_append.mp member with old | new
    · exact .inl (same ▸ old)
    · exact .inr ⟨rest,rfl,mem_singleton.mp new⟩

theorem perform_countP (h : Hall T Q S C L A O) (call : Visit T Q O) (sec : Section S C L A O) (f : L → Bool) :
    (h.perform call sec).paused.countP (fun p => f p.rest) =
      h.paused.countP (fun p => f p.rest) + match sec.ending with | .pause rest => (f rest).toNat | _ => 0 := by
  unfold perform
  have same := (notices_frame sec.notices (h.store call.task sec)).2.2.1
  generalize sec.notices.foldl notify _ = u at same
  cases sec.ending with
  | wait c left rest | done answer => exact congrArg _ same
  | pause rest =>
    show (u.paused ++ [_]).countP _ = _
    rw [same,countP_append]
    cases at_ : f rest <;> simp [at_,store]

theorem elapse_waiting (member : w ∈ h.elapse.waiting) : ∃ v ∈ h.waiting,v.expires = false ∧ w = v.elapse := by
  obtain ⟨v,stays,same⟩ := mem_map.mp member
  obtain ⟨before,left⟩ := mem_filter.mp stays
  exact ⟨v,before,by simpa using left,same.symm⟩

theorem elapse_due (member : d ∈ h.elapse.due) : d ∈ h.due ∨ ∃ w ∈ h.waiting,w.expires = true ∧ d = w.wake .timeout := by
  rcases mem_append.mp member with old | new
  · exact .inl old
  · obtain ⟨w,chosen,same⟩ := mem_map.mp new
    obtain ⟨before,expires⟩ := mem_filter.mp chosen
    exact .inr ⟨w,before,expires,same.symm⟩

def inside (h : Hall T Q S C L A O) : List (Visit T Q O × L) :=
  h.waiting.map (fun w => (w.call,w.rest)) ++ h.due.map (fun d => (d.call,d.rest)) ++
    h.paused.map fun p => (p.call,p.rest)

def remains (call : Visit T Q O) : Exit C L A → List (Visit T Q O × L)
  | .wait _ _ rest | .pause rest => [(call,rest)]
  | .done _ => []

theorem notify_inside (h : Hall T Q S C L A O) (x : Notification C) : (h.notify x).inside.Perm h.inside := by
  have paused := (h.notify_frame x).2.2.1
  refine List.Perm.append ?_ (by rw [paused])
  cases x with
  | one c =>
    cases h.notify_one c with
    | nobody _ same => rw [same]
    | first before w after split _ _ same =>
      rw [same,split]
      simp only [map_append,map_cons,map_nil,append_assoc,cons_append,Waiter.wake]
      refine List.Perm.append_left _ ?_
      rw [← append_assoc]
      exact perm_append_singleton _ _
  | all c =>
    have parted : (h.waiting.filter (fun w => decide (w.cond ≠ c)) ++
        h.waiting.filter (fun w => decide (w.cond = c))).Perm h.waiting := by
      refine perm_append_comm.trans ?_
      simpa [decide_not] using filter_append_perm (fun w => decide (w.cond = c)) h.waiting
    have moved := (parted.map fun w => (w.call,w.rest)).append_right (h.due.map fun d => (d.call,d.rest))
    refine List.Perm.trans ?_ moved
    simp only [notify,map_append,map_map,append_assoc]
    exact List.Perm.append_left _ perm_append_comm

theorem notices_inside (notices : List (Notification C)) (h : Hall T Q S C L A O) :
    (notices.foldl notify h).inside.Perm h.inside := by
  induction notices generalizing h with
  | nil => exact .refl _
  | cons x rest ih => exact (ih (h.notify x)).trans (h.notify_inside x)

theorem perform_inside (h : Hall T Q S C L A O) (call : Visit T Q O) (sec : Section S C L A O) :
    (h.perform call sec).inside.Perm (remains {call with log := call.log ++ sec.log} sec.ending ++ h.inside) := by
  unfold perform
  generalize {call with log := call.log ++ sec.log} = call'
  have kept : (sec.notices.foldl notify (h.store call.task sec)).inside.Perm h.inside :=
    notices_inside sec.notices (h.store call.task sec)
  refine List.Perm.trans ?_ (List.Perm.append_left _ kept)
  generalize sec.notices.foldl notify _ = u
  cases sec.ending with
  | wait c left rest =>
    simp only [conclude,inside,remains,map_append,map_cons,map_nil,append_assoc,cons_append,
      nil_append]
    exact perm_middle
  | pause rest =>
    simp only [conclude,inside,remains,map_append,map_cons,map_nil,append_assoc,cons_append,
      nil_append]
    rw [← append_assoc,← append_assoc,← append_assoc]
    exact perm_append_comm
  | done answer => exact .refl _

theorem elapse_inside (h : Hall T Q S C L A O) : h.elapse.inside.Perm h.inside := by
  have parted : (h.waiting.filter (fun w => !w.expires) ++ h.waiting.filter Waiter.expires).Perm h.waiting :=
    perm_append_comm.trans (filter_append_perm Waiter.expires h.waiting)
  have moved := (parted.map fun w => (w.call,w.rest)).append_right (h.due.map fun d => (d.call,d.rest))
  refine List.Perm.append_right _ (List.Perm.trans ?_ moved)
  simp only [elapse,map_append,map_map,append_assoc]
  exact List.Perm.append_left _ perm_append_comm

-- The clock and the cancellations only move tasks from the first list to the second, where
-- they do not count as signaled.
structure Quiet (h h' : Hall T Q S C L A O) : Prop where
  inside : h'.inside.Perm h.inside
  shared : h'.shared = h.shared
  log : h'.log = h.log
  paused : h'.paused = h.paused
  returned : h'.returned = none
  waiting : ∀ w ∈ h'.waiting,∃ v ∈ h.waiting,v.call = w.call ∧ v.cond = w.cond ∧ v.rest = w.rest
  due : ∃ new,h'.due = h.due ++ new ∧
    ∀ d ∈ new,d.result ≠ .signal ∧ ∃ w ∈ h.waiting,w.call = d.call ∧ w.cond = d.cond ∧ w.rest = d.rest

theorem elapse_quiet (h : Hall T Q S C L A O) : Quiet h h.elapse := by
  refine ⟨h.elapse_inside,rfl,rfl,rfl,rfl,?_,_,rfl,?_⟩
  · intro w member
    obtain ⟨v,before,_,rfl⟩ := elapse_waiting member
    exact ⟨v,before,rfl,rfl,rfl⟩
  · intro d member
    obtain ⟨w,chosen,rfl⟩ := mem_map.mp member
    exact ⟨by simp [Waiter.wake],w,(mem_filter.mp chosen).1,rfl,rfl,rfl⟩

theorem cancel_quiet (split : h.waiting = before ++ w :: after) :
    Quiet h {h with waiting := before ++ after,due := h.due ++ [w.wake .canceled],returned := none} := by
  refine ⟨?_,rfl,rfl,rfl,rfl,?_,_,rfl,?_⟩
  · unfold inside
    dsimp only
    rw [split]
    simp only [map_append,map_cons,map_nil,append_assoc,cons_append,Waiter.wake]
    refine List.Perm.append_left _ ?_
    rw [← append_assoc]
    exact perm_middle.trans (by simp)
  · intro v member
    exact ⟨v,mem_without split member,rfl,rfl,rfl⟩
  · intro d member
    rw [mem_singleton.mp member]
    exact ⟨by simp [Waiter.wake],w,by simp [split],rfl,rfl,rfl⟩

theorem run_inside (split : h.due = before ++ d :: after) :
    h.inside.Perm ((d.call,d.rest) :: inside {h with due := before ++ after}) := by
  unfold inside
  dsimp only
  rw [split]
  simp only [map_append,map_cons,append_assoc,cons_append]
  rw [← append_assoc,← append_assoc]
  exact perm_middle

theorem proceed_inside (split : h.paused = before ++ p :: after) :
    h.inside.Perm ((p.call,p.rest) :: inside {h with paused := before ++ after}) := by
  unfold inside
  dsimp only
  rw [split]
  simp only [map_append,map_cons,append_assoc]
  rw [← append_assoc,← append_assoc,← append_assoc,← append_assoc]
  exact perm_middle

theorem perform_returned (h : Hall T Q S C L A O) (call : Visit T Q O) (sec : Section S C L A O) (r : Returned T Q A O)
    (ended : (h.perform call sec).returned = some r) :
    ∃ a,sec.ending = .done a ∧ r = ⟨{call with log := call.log ++ sec.log},a⟩ := by
  unfold perform at ended
  cases ending : sec.ending with
  | wait c left rest | pause rest => rw [ending] at ended; cases ended
  | done answer =>
    rw [ending] at ended
    exact ⟨answer,rfl,(Option.some.inj ended).symm⟩

theorem ticks (P : Program Q S C L A O) (n : Nat) (alone : h.waiting = [w]) (left : w.left = some (n + 1)) :
    ∃ h' : Hall T Q S C L A O,Transition.Run (Hall.step P) (fun _ _ => True) h h' ∧ h'.now = h.now + (n + 1 : Nat) ∧
      h'.shared = h.shared ∧ h'.due = h.due ++ [w.wake .timeout] := by
  induction n generalizing h w with
  | zero =>
    refine ⟨h.elapse,.snoc (e := .tick) .nil trivial rfl,rfl,rfl,?_⟩
    simp [elapse,alone,Waiter.expires,left]
  | succ n ih =>
    have stays : w.expires = false := by simp [Waiter.expires,left]
    have alone' : h.elapse.waiting = [w.elapse] := by simp [elapse,alone,stays]
    have due : h.elapse.due = h.due := by simp [elapse,alone,stays]
    have left' : w.elapse.left = some (n + 1) := by
      rw [Waiter.elapse,left]
      rfl
    obtain ⟨h',run,now,shared,woken⟩ := ih alone' left'
    refine ⟨h',Transition.Run.trans (.snoc (e := .tick) .nil trivial rfl) run,?_,shared,?_⟩
    · have next : h.elapse.now = h.now + 1 := rfl
      rw [now,next]
      omega
    · rw [woken,due]
      rfl

theorem mem_inside_waiting (member : w ∈ h.waiting) : (w.call,w.rest) ∈ h.inside :=
  mem_append_left _ (mem_append_left _ (mem_map_of_mem member))

theorem mem_inside_paused (member : p ∈ h.paused) : (p.call,p.rest) ∈ h.inside :=
  mem_append_right _ (mem_map_of_mem member)

end Hall

inductive Place (C L A : Type) where
  | waiting (cond : C) (left : Option Nat) (rest : L)
  | due (cond : C) (result : Wakeup) (rest : L)
  | paused (rest : L)
  | returned (answer : A)

def Exit.place : Exit C L A → Place C L A
  | .wait cond left rest => .waiting cond left rest
  | .pause rest => .paused rest
  | .done answer => .returned answer

inductive Place.Ticks : Place C L A → Place C L A → Prop where
  | on : (∀ k,left = some k → 1 < k) → Ticks (.waiting c left rest) (.waiting c (left.map (· - 1)) rest)
  | out : k ≤ 1 → Ticks (.waiting c (some k) rest) (.due c .timeout rest)
  | due : Ticks (.due c result rest) (.due c result rest)
  | paused : Ticks (.paused rest) (.paused rest)

def Place.rest : Place C L A → Option L
  | .waiting _ _ rest | .due _ _ rest | .paused rest => some rest
  | .returned _ => none

theorem Place.Ticks.rest {x y : Place C L A} (ticks : Place.Ticks x y) : y.rest = x.rest := by cases ticks <;> rfl

namespace Hall

variable [DecidableEq T] [DecidableEq C] {P : Program Q S C L A O} {h h' : Hall T Q S C L A O}
variable {R R' : Visit T Q O → Place C L A → Prop} {call : Visit T Q O} {sec : Section S C L A O}

-- A property of the calls in progress by where they are, and the same with the call that has
-- just ended.
structure Inside (R : Visit T Q O → Place C L A → Prop) (h : Hall T Q S C L A O) : Prop where
  waiting : ∀ w ∈ h.waiting,R w.call (.waiting w.cond w.left w.rest)
  due : ∀ d ∈ h.due,R d.call (.due d.cond d.result d.rest)
  paused : ∀ p ∈ h.paused,R p.call (.paused p.rest)

structure Everywhere (R : Visit T Q O → Place C L A → Prop) (h : Hall T Q S C L A O) : Prop extends Inside R h where
  returned : ∀ r,h.returned = some r → R r.call (.returned r.answer)

theorem Inside.run (inside : Inside R h) (split : h.due = before ++ d :: after) : Inside R {h with due := before ++ after} := by
  refine ⟨inside.waiting,?_,inside.paused⟩
  intro x member
  exact inside.due x (mem_without split member)

theorem Inside.proceed (inside : Inside R h) (split : h.paused = before ++ p :: after) :
    Inside R {h with paused := before ++ after} := by
  refine ⟨inside.waiting,inside.due,?_⟩
  intro x member
  exact inside.paused x (mem_without split member)

theorem Everywhere.start (nobody : h.inside = []) (nothing : h.returned = none) : Everywhere R h := by
  unfold inside at nobody
  simp only [append_eq_nil_iff,map_eq_nil_iff] at nobody
  refine ⟨⟨?_,?_,?_⟩,?_⟩
  · rw [nobody.1.1]
    intro w member
    cases member
  · rw [nobody.1.2]
    intro d member
    cases member
  · rw [nobody.2]
    intro p member
    cases member
  · rw [nothing]
    intro r ended
    cases ended

theorem Inside.perform (inside : Inside R h)
    (waits : ∀ {call c left rest},.all c ∉ sec.notices → R call (.waiting c left rest) → R' call (.waiting c left rest))
    (wakes : ∀ {call c left rest},R call (.waiting c left rest) → R' call (.due c .signal rest))
    (runs : ∀ {call c result rest},R call (.due c result rest) → R' call (.due c result rest))
    (pauses : ∀ {call rest},R call (.paused rest) → R' call (.paused rest))
    (leaves : R' {call with log := call.log ++ sec.log} sec.ending.place) : Everywhere R' (h.perform call sec) := by
  refine ⟨⟨?_,?_,?_⟩,?_⟩
  · intro w member
    rcases perform_waiting member with ⟨old,untold⟩ | ⟨c,left,rest,ending,rfl⟩
    · exact waits untold (inside.waiting w old)
    · rwa [ending] at leaves
  · intro d member
    rcases perform_due member with old | ⟨w,waited,rfl⟩
    · exact runs (inside.due d old)
    · exact wakes (inside.waiting w waited)
  · intro p member
    rcases perform_paused member with old | ⟨rest,ending,rfl⟩
    · exact pauses (inside.paused p old)
    · rwa [ending] at leaves
  · intro r ended
    obtain ⟨a,ending,rfl⟩ := perform_returned h call sec r ended
    rwa [ending] at leaves

theorem Everywhere.elapse (everywhere : Everywhere R h) (ticks : ∀ {call x y},Place.Ticks x y → R call x → R' call y) :
    Everywhere R' h.elapse := by
  refine ⟨⟨?_,?_,fun p member => ticks .paused (everywhere.paused p member)⟩,nofun⟩
  · intro w member
    obtain ⟨v,before,stays,rfl⟩ := elapse_waiting member
    refine ticks (.on ?_) (everywhere.waiting v before)
    intro k left
    simpa [Waiter.expires,left] using stays
  · intro d member
    rcases elapse_due member with old | ⟨w,before,expires,rfl⟩
    · exact ticks .due (everywhere.due d old)
    · have waited := everywhere.waiting w before
      cases left : w.left with
      | none => rw [Waiter.expires,left] at expires; cases expires
      | some k =>
        rw [left] at waited
        rw [Waiter.expires,left] at expires
        exact ticks (.out (of_decide_eq_true expires)) waited

theorem Everywhere.cancel (everywhere : Everywhere R h) (split : h.waiting = before ++ w :: after)
    (wakes : R w.call (.waiting w.cond w.left w.rest) → R w.call (.due w.cond .canceled w.rest)) :
    Everywhere R {h with waiting := before ++ after,due := h.due ++ [w.wake .canceled],returned := none} := by
  refine ⟨⟨?_,?_,everywhere.paused⟩,nofun⟩
  · intro v member
    exact everywhere.waiting v (mem_without split member)
  · intro d member
    rcases mem_append.mp member with old | new
    · exact everywhere.due d old
    · rw [mem_singleton.mp new]
      exact wakes (everywhere.waiting w (by simp [split]))

inductive Resumes (h : Hall T Q S C L A O) : Happening T Q → Visit T Q O → Place C L A → L → Wakeup → Prop where
  | run : h.due.find? (fun d => decide (d.call.task = t)) = some d →
      Resumes h (.run t refused) d.call (.due d.cond d.result d.rest) d.rest d.result
  | proceed : h.paused.find? (fun p => decide (p.call.task = t)) = some p →
      Resumes h (.proceed t refused) p.call (.paused p.rest) p.rest .signal

theorem Step.sound {G : S → List (T × O) → Prop} {R : Int → Visit T Q O → Place C L A → Prop} (step : Step P h e h')
    (good : G h.shared h.log) (everywhere : Everywhere (R h.now) h)
    (ticks : ∀ {call x y},Place.Ticks x y → R h.now call x → R (h.now + 1) call y)
    (wakes : ∀ {call c left result rest},result ≠ .timeout → R h.now call (.waiting c left rest) → R h.now call (.due c result rest))
    (enters : ∀ {t q isr refused sec},e = .call t q isr refused → P.enter ⟨h.now,isr,refused⟩ h.shared q = some sec →
      G sec.shared (h.log ++ sec.log.map fun o => (t,o)) ∧ R h.now ⟨t,q,h.now,sec.log⟩ sec.ending.place)
    (resumes : ∀ {call x rest result refused sec},Resumes h e call x rest result → R h.now call x →
      P.resume ⟨h.now,false,refused⟩ h.shared rest result = some sec →
      G sec.shared (h.log ++ sec.log.map fun o => (call.task,o)) ∧
        R h.now {call with log := call.log ++ sec.log} sec.ending.place) :
    G h'.shared h'.log ∧ Everywhere (R h'.now) h' := by
  have signals : ∀ {call c left rest},R h.now call (.waiting c left rest) → R h.now call (.due c .signal rest) := wakes nofun
  cases step with
  | call _ entered =>
    rw [perform_now,perform_shared,perform_log]
    obtain ⟨good,leaves⟩ := enters rfl entered
    exact ⟨good,everywhere.perform (fun _ => id) signals id id leaves⟩
  | run split found resumed =>
    rw [perform_now,perform_shared,perform_log]
    have known := everywhere.due _ (mem_of_find?_eq_some found)
    obtain ⟨good,leaves⟩ := resumes (.run found) known resumed
    exact ⟨good,(everywhere.run split).perform (fun _ => id) signals id id leaves⟩
  | proceed split found resumed =>
    rw [perform_now,perform_shared,perform_log]
    have known := everywhere.paused _ (mem_of_find?_eq_some found)
    obtain ⟨good,leaves⟩ := resumes (.proceed found) known resumed
    exact ⟨good,(everywhere.proceed split).perform (fun _ => id) signals id id leaves⟩
  | tick => exact ⟨good,everywhere.elapse ticks⟩
  | cancel split _ => exact ⟨good,everywhere.cancel split (wakes nofun)⟩

theorem Step.calls {G : S → List (T × O) → Prop} {K : Visit T Q O → L → Prop} (step : Step P h e h') (good : G h.shared h.log)
    (everywhere : Everywhere (fun call x => ∀ rest ∈ x.rest,K call rest) h)
    (enters : ∀ {t q isr refused sec},e = .call t q isr refused → P.enter ⟨h.now,isr,refused⟩ h.shared q = some sec →
      G sec.shared (h.log ++ sec.log.map fun o => (t,o)) ∧ ∀ rest ∈ sec.ending.place.rest,K ⟨t,q,h.now,sec.log⟩ rest)
    (resumes : ∀ {call : Visit T Q O} {rest result refused sec},K call rest →
      P.resume ⟨h.now,false,refused⟩ h.shared rest result = some sec →
      G sec.shared (h.log ++ sec.log.map fun o => (call.task,o)) ∧
        ∀ rest ∈ sec.ending.place.rest,K {call with log := call.log ++ sec.log} rest) :
    G h'.shared h'.log ∧ Everywhere (fun call x => ∀ rest ∈ x.rest,K call rest) h' := by
  refine step.sound (R := fun _ call x => ∀ rest ∈ x.rest,K call rest) good everywhere ?_ ?_ enters ?_
  · intro call x y ticks known
    rw [ticks.rest]
    exact known
  · exact fun _ known => known
  · intro call x rest result refused sec back known resumed
    refine resumes (known rest ?_) resumed
    cases back <;> rfl

end Hall

end Monitor
