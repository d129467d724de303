import Mathlib.Data.List.FinRange
import Mathlib.Logic.Function.Basic
import Mathlib.Tactic.Basic

alias ⟨of_bind,_⟩ := Option.bind_eq_some_iff
alias ⟨of_map,_⟩ := Option.map_eq_some_iff

theorem of_return {x : Option α} {f : α → β} (taken : (x.bind fun a => some (f a)) = some b) : ∃ a,x = some a ∧ f a = b := by
  obtain ⟨a,found,same⟩ := of_bind taken
  exact ⟨a,found,Option.some.inj same⟩

-- Runs of an executable transition function. `step s e = none` means that `e` is not possible
-- in `s`; `Allowed` restricts the events a run may take.
namespace Transition

variable {σ ε ω : Type} {step : σ → ε → Option σ} {Allowed : σ → ε → Prop}

inductive Run (step : σ → ε → Option σ) (Allowed : σ → ε → Prop) : σ → σ → Prop where
  | nil : Run step Allowed s s
  | snoc : Run step Allowed s t → Allowed t e → step t e = some u → Run step Allowed s u

theorem Run.keeps {I : σ → Prop} (run : Run step Allowed s t) (start : I s)
    (kept : ∀ s e t, I s → Allowed s e → step s e = some t → I t) : I t := by
  induction run with
  | nil => exact start
  | snoc _ allowed stepped ih => exact kept _ _ _ ih allowed stepped

theorem Run.weaken {Wider : σ → ε → Prop} (run : Run step Allowed s t)
    (wider : ∀ s e, Allowed s e → Wider s e) : Run step Wider s t := by
  induction run with
  | nil => exact .nil
  | snoc _ allowed stepped ih => exact .snoc ih (wider _ _ allowed) stepped

theorem Run.strengthen {I : σ → Prop} {Stronger : σ → ε → Prop} (run : Run step Allowed s t) (start : I s)
    (kept : ∀ s e t, I s → Allowed s e → step s e = some t → I t)
    (stronger : ∀ s e, I s → Allowed s e → Stronger s e) : Run step Stronger s t := by
  induction run with
  | nil => exact .nil
  | snoc before allowed stepped ih => exact .snoc ih (stronger _ _ (before.keeps start kept) allowed) stepped

theorem Run.trans (left : Run step Allowed s t) (right : Run step Allowed t u) : Run step Allowed s u := by
  induction right with
  | nil => exact left
  | snoc _ allowed stepped ih => exact .snoc ih allowed stepped

-- A run with an observer, who sees every event and the states before and after it.
def observe (step : σ → ε → Option σ) (watch : σ → ε → σ → ω → ω) (p : σ × ω) (e : ε) : Option (σ × ω) :=
  (step p.1 e).map fun t => (t,watch p.1 e t p.2)

theorem observe_some {watch : σ → ε → σ → ω → ω} (observed : observe step watch p e = some q) :
    step p.1 e = some q.1 ∧ q.2 = watch p.1 e q.1 p.2 := by
  obtain ⟨t,stepped,same⟩ := of_map observed
  cases same
  exact ⟨stepped,rfl⟩

theorem Run.unobserved {watch : σ → ε → σ → ω → ω}
    (run : Run (observe step watch) (fun p e => Allowed p.1 e) (s,v) (t,w)) : Run step Allowed s t := by
  suffices ∀ p q, Run (observe step watch) (fun p e => Allowed p.1 e) p q → Run step Allowed p.1 q.1 from this _ _ run
  intro p q run
  induction run with
  | nil => exact .nil
  | snoc _ allowed observed ih => exact .snoc ih allowed (observe_some observed).1

-- An executable run. What is true of the state it ends in, and of a further step from there,
-- can be decided.
instance decidableExistsSome {P : σ → Prop} [DecidablePred P] (o : Option σ) : Decidable (∃ s,o = some s ∧ P s) :=
  inferInstanceAs (Decidable (∃ s ∈ o,P s))

def exec (step : σ → ε → Option σ) : σ → List ε → Option σ
  | s,[] => some s
  | s,e :: rest => (step s e).bind fun t => exec step t rest

def execAllowed (step : σ → ε → Option σ) (allowed : σ → ε → Bool) : σ → List ε → Bool
  | _,[] => true
  | s,e :: rest => allowed s e && (step s e).all fun t => execAllowed step allowed t rest

theorem exec_shows {P Q : σ → Prop} {events : List ε} (found : ∃ t,exec step s events = some t ∧ P t)
    (shows : ∀ t,exec step s events = some t → P t → Q t) : ∃ t,exec step s events = some t ∧ Q t := by
  obtain ⟨t,ran,holds⟩ := found
  exact ⟨t,ran,shows t ran holds⟩

theorem exec_snoc (step : σ → ε → Option σ) (s : σ) (events : List ε) (e : ε) :
    exec step s (events ++ [e]) = (exec step s events).bind fun t => step t e := by
  induction events generalizing s with
  | nil =>
    change (step s e).bind some = step s e
    cases step s e <;> rfl
  | cons first rest ih =>
    simp only [List.cons_append,exec,ih,Option.bind_assoc]

theorem Run.ofExec (ran : exec step s events = some t) : Run step (fun _ _ => True) s t := by
  suffices ∀ r, Run step (fun _ _ => True) r s → Run step (fun _ _ => True) r t from this s .nil
  induction events generalizing s with
  | nil => cases ran; exact fun r run => run
  | cons e rest ih =>
    obtain ⟨u,stepped,ran⟩ := of_bind ran
    exact fun r run => ih ran r (.snoc run trivial stepped)

theorem Run.ofExecAllowed (allowed : σ → ε → Bool) (checked : execAllowed step allowed s events = true)
    (ran : exec step s events = some t) : Run step (fun s e => allowed s e = true) s t := by
  suffices ∀ r, Run step (fun s e => allowed s e = true) r s → Run step (fun s e => allowed s e = true) r t
    from this s .nil
  induction events generalizing s with
  | nil => cases ran; exact fun r run => run
  | cons e rest ih =>
    obtain ⟨u,stepped,ran⟩ := of_bind ran
    simp only [execAllowed,Bool.and_eq_true,stepped,Option.all_some] at checked
    exact fun r run => ih checked.2 ran r (.snoc run checked.1 stepped)

theorem Run.found {P : σ → Prop} (events : List ε) (found : ∃ t,exec step s events = some t ∧ P t) :
    ∃ t,Run step (fun _ _ => True) s t ∧ P t := by
  obtain ⟨t,ran,holds⟩ := found
  exact ⟨t,.ofExec ran,holds⟩

theorem Run.foundAllowed {P : σ → Prop} {allowed : σ → ε → Bool} (events : List ε)
    (found : ∃ t,exec step s events = some t ∧ P t) (checked : execAllowed step allowed s events = true) :
    ∃ t,Run step (fun s e => allowed s e = true) s t ∧ P t := by
  obtain ⟨t,ran,holds⟩ := found
  exact ⟨t,.ofExecAllowed _ checked ran,holds⟩

end Transition

namespace Turns

variable {σ ι α : Type} {f : σ → ι → Option σ} {Inv : σ → Prop}

theorem foldlM_keeps {I : σ → Prop} (l : List ι) (start : I s) (kept : ∀ s i t, i ∈ l → I s → f s i = some t → I t)
    (looped : l.foldlM f s = some t) : I t := by
  induction l generalizing s with
  | nil => cases looped; exact start
  | cons i rest ih =>
    obtain ⟨u,turn,looped⟩ := of_bind (by simpa using looped)
    exact ih (kept s i u (by simp) start turn) (fun s j t member => kept s j t (by simp [member])) looped

theorem foldlM_done (Inv : σ → Prop) (P : σ → ι → Prop) (l : List ι) (start : Inv s)
    (turn : ∀ s i t, i ∈ l → Inv s → f s i = some t → Inv t ∧ P t i ∧ ∀ j, j ≠ i → P s j → P t j)
    (looped : l.foldlM f s = some t) : Inv t ∧ (∀ j, P s j → P t j) ∧ ∀ i ∈ l, P t i := by
  induction l generalizing s with
  | nil => cases looped; exact ⟨start,fun _ => id,by simp⟩
  | cons i rest ih =>
    obtain ⟨u,turned,looped⟩ := of_bind (by simpa using looped)
    obtain ⟨valid,done,kept⟩ := turn s i u (by simp) start turned
    obtain ⟨final,keeps,inside⟩ := ih valid (fun s j t member => turn s j t (by simp [member])) looped
    have keep : ∀ j, P s j → P u j := by
      intro j before
      by_cases at_ : j = i
      · subst at_; exact done
      · exact kept j at_ before
    refine ⟨final,fun j before => keeps j (keep j before),fun j member => ?_⟩
    rcases List.mem_cons.mp member with rfl | later
    · exact keeps j done
    · exact inside j later

theorem foldlM_turn (view : σ → ι → α) (Inv : σ → Prop) (l : List ι) (distinct : l.Nodup) (start : Inv s)
    (kept : ∀ s i t, i ∈ l → Inv s → f s i = some t → Inv t ∧ ∀ j, j ≠ i → view t j = view s j)
    (looped : l.foldlM f s = some t) :
    Inv t ∧ (∀ j, j ∉ l → view t j = view s j) ∧
      ∀ i ∈ l, ∃ before after u v, l = before ++ i :: after ∧ Inv u ∧ f u i = some v ∧
        (∀ j ∈ before, view u j = view t j) ∧ (∀ j, j ∉ before → view u j = view s j) ∧ view t i = view v i := by
  induction l generalizing s with
  | nil => cases looped; exact ⟨start,by simp,by simp⟩
  | cons i rest ih =>
    obtain ⟨fresh,distinct⟩ := List.nodup_cons.mp distinct
    obtain ⟨u,turn,looped⟩ := of_bind (by simpa using looped)
    obtain ⟨valid,others⟩ := kept s i u (by simp) start turn
    obtain ⟨final,outside,inside⟩ := ih distinct valid (fun s j t member => kept s j t (by simp [member])) looped
    refine ⟨final,fun j absent => ?_,fun j member => ?_⟩
    · simp only [List.mem_cons,not_or] at absent
      rw [outside j absent.2,others j absent.1]
    · rcases List.mem_cons.mp member with rfl | later
      · exact ⟨[],rest,s,u,rfl,start,turn,by simp,by simp,outside j fresh⟩
      · obtain ⟨before,after,v,w,split,valid,turned,done,todo,own⟩ := inside j later
        refine ⟨i :: before,after,v,w,by simp [split],valid,turned,?_,?_,own⟩
        · intro m earlier
          rcases List.mem_cons.mp earlier with rfl | earlier
          · have unseen : m ∉ before := fun present => fresh (by simp [split,present])
            rw [todo m unseen,outside m fresh]
          · exact done m earlier
        · intro m absent
          simp only [List.mem_cons,not_or] at absent
          rw [todo m absent.2,others m absent.1]

theorem foldlM_defined (l : List ι) (distinct : l.Nodup) {I : σ → Prop} {R : σ → ι → Prop} (start : I s)
    (ready : ∀ i ∈ l, R s i)
    (kept : ∀ s i, i ∈ l → I s → R s i →
      ∃ t, f s i = some t ∧ I t ∧ ∀ j ∈ l, j ≠ i → R s j → R t j) :
    ∃ t, l.foldlM f s = some t := by
  induction l generalizing s with
  | nil => exact ⟨s,rfl⟩
  | cons i rest ih =>
    obtain ⟨fresh,distinct⟩ := List.nodup_cons.mp distinct
    obtain ⟨t,turn,valid,later⟩ := kept s i (by simp) start (ready i (by simp))
    have apart : ∀ j ∈ rest, j ≠ i := fun j member same => fresh (same ▸ member)
    obtain ⟨u,looped⟩ := ih distinct valid
      (fun j member => later j (by simp [member]) (apart j member) (ready j (by simp [member])))
      (fun s j member ok before =>
        let ⟨t,turn,valid,later⟩ := kept s j (by simp [member]) ok before
        ⟨t,turn,valid,fun k inside => later k (by simp [inside])⟩)
    exact ⟨u,by simp [turn,looped]⟩

end Turns
