import Mathlib.Algebra.Ring.Nat
import SuperTinyKernel.Strategy
import SuperTinyKernel.Library.Levels

namespace SuperTinyKernel

open Function List

-- Strategies with one runnable list for each priority and one sleep list. `Valid` is what a
-- strategy needs of its other data.

def firstOf {B : IndexSet P} (levels : Levels (Fin n) B) (sleep : List (Fin n)) : Option (Fin n) :=
  if B.isEmpty levels.ready then sleep.head? else levels.highest.bind fun p => (levels.items p).head?

def sizeOf {B : IndexSet P} (levels : Levels (Fin n) B) (sleep : List (Fin n)) : Nat :=
  sleep.length + ((List.finRange P).map fun p => (levels.items p).length).sum

structure Levelled (S : Strategy n) (B : IndexSet P) where
  levels : S.State → Levels (Fin n) B
  priority : Int → Option (Fin P)
  Valid : S.State → Prop
  aware : S.api.sleepEvent = true
  runnableLists : ∀ σ,S.runnableLists σ = (levels σ).union
  initial : Valid S.initial ∧ (∀ p,(levels S.initial).items p = []) ∧ S.sleepList S.initial = []
  add : Valid σ → S.addTask v i σ = some τ → Valid τ ∧ S.sleepList τ = S.sleepList σ ∧
    ∃ p,priority (v i).weight = some p ∧
      (levels τ).items = update (levels σ).items p ((levels σ).items p ++ [i])
  -- AddActive, RemoveActive, and the sleep list replaced.
  join : Views n → Fin n → S.State → Option S.State
  leave : Views n → Fin n → S.State → Option S.State
  rest : List (Fin n) → S.State → S.State
  join_parts : join v i σ = some τ → (Valid σ → Valid τ) ∧ S.sleepList τ = S.sleepList σ ∧
    ∃ p,priority (v i).weight = some p ∧ (levels τ).items = update (levels σ).items p ((levels σ).items p ++ [i])
  join_defined : priority (v i).weight = some p → (∀ q,i ∉ (levels σ).items q) → ∃ τ,join v i σ = some τ
  leave_parts : leave v i σ = some τ → (Valid σ → Valid τ) ∧ S.sleepList τ = S.sleepList σ ∧
    ∃ p,i ∈ (levels σ).items p ∧ (levels τ).items = update (levels σ).items p (((levels σ).items p).erase i)
  leave_defined : priority (v i).weight = some p → i ∈ (levels σ).items p → ∃ τ,leave v i σ = some τ
  rest_parts : ∀ l σ,levels (rest l σ) = levels σ ∧ S.sleepList (rest l σ) = l ∧ (Valid σ → Valid (rest l σ))
  removeTask : ∀ v i σ,S.removeTask v i σ = if i ∈ S.sleepList σ then (unlink i (S.sleepList σ)).bind fun l => some (rest l σ)
    else leave v i σ
  onTaskSleep : ∀ v i σ,S.onTaskSleep v i σ = (leave v i σ).bind fun τ => (linkBack i (S.sleepList τ)).bind fun l => some (rest l τ)
  onTaskWake : ∀ v i σ,S.onTaskWake v i σ = (unlink i (S.sleepList σ)).bind fun l => join v i (rest l σ)
  next : Valid σ → S.getNext v σ = some (r,τ) → Valid τ ∧ S.sleepList τ = S.sleepList σ ∧
    (levels τ).items = (levels σ).items ∧ (∀ i,r = some i → ∃ p,i ∈ (levels σ).items p) ∧
    (r = none → ∀ p,(levels σ).items p = [])
  first : ∀ σ,S.getFirst σ = firstOf (levels σ) (S.sleepList σ)
  size : ∀ σ,S.getSize σ = sizeOf (levels σ) (S.sleepList σ)
  weightChange : Valid σ → (i ∈ S.sleepList σ ∨ ∃ p,priority old = some p ∧ i ∈ (levels σ).items p) →
    S.onTaskWeightChange v i old σ = some τ → Valid τ ∧ S.sleepList τ = S.sleepList σ ∧
    (i ∈ S.sleepList σ ∧ (levels τ).items = (levels σ).items ∨
      ∃ p q,i ∈ (levels σ).items p ∧ priority (v i).weight = some q ∧ i ∈ (levels τ).items q ∧
        ∀ j r,j ≠ i ∨ r ≠ q → (j ∈ (levels τ).items r ↔ j ∈ (levels σ).items r ∧ (j ≠ i ∨ r ≠ p)))
  yield : Valid σ → S.onTaskYield v i σ = some (handled,τ) →
    Valid τ ∧ S.sleepList τ = S.sleepList σ ∧ (levels τ).items = (levels σ).items
  timeSlice : Valid σ → S.onTaskTimeSlice v i σ = some (rotated,τ) →
    Valid τ ∧ S.sleepList τ = S.sleepList σ ∧ (levels τ).items = (levels σ).items
  timeSlice_defined : ∃ r,S.onTaskTimeSlice v i σ = some r
  deadlineMissed : S.onTaskDeadlineMissed i σ = some (false,σ)

namespace Levelled

variable {S : Strategy n} {B : IndexSet P} (lists : Levelled S B) {σ τ : S.State} {v : Views n} {i : Fin n}
  {w : Fin n → Int}

theorem remove (valid : lists.Valid σ) (called : S.removeTask v i σ = some τ) : lists.Valid τ ∧
    (i ∈ S.sleepList σ ∧ S.sleepList τ = (S.sleepList σ).erase i ∧ (lists.levels τ).items = (lists.levels σ).items ∨
      i ∉ S.sleepList σ ∧ S.sleepList τ = S.sleepList σ ∧ ∃ p,i ∈ (lists.levels σ).items p ∧
        (lists.levels τ).items = update (lists.levels σ).items p (((lists.levels σ).items p).erase i)) := by
  rw [lists.removeTask] at called
  split at called
  · obtain ⟨l,unlinked,same⟩ := of_bind called
    obtain ⟨asleep,rfl⟩ := unlink_parts unlinked
    cases same
    obtain ⟨levels,sleep,keeps⟩ := lists.rest_parts ((S.sleepList σ).erase i) σ
    exact ⟨keeps valid,.inl ⟨asleep,sleep,by rw [levels]⟩⟩
  · obtain ⟨keeps,sleep,left⟩ := lists.leave_parts called
    exact ⟨keeps valid,.inr ⟨‹_›,sleep,left⟩⟩

theorem remove_defined (filed : i ∈ S.sleepList σ ∨ ∃ p,lists.priority (v i).weight = some p ∧ i ∈ (lists.levels σ).items p) :
    ∃ τ,S.removeTask v i σ = some τ := by
  rw [lists.removeTask]
  split
  · rw [unlink_defined ‹_›]
    exact ⟨_,rfl⟩
  · obtain ⟨p,prio,linked⟩ := filed.resolve_left ‹_›
    exact lists.leave_defined prio linked

theorem sleep (valid : lists.Valid σ) (called : S.onTaskSleep v i σ = some τ) : lists.Valid τ ∧ i ∉ S.sleepList σ ∧
    S.sleepList τ = S.sleepList σ ++ [i] ∧ ∃ p,i ∈ (lists.levels σ).items p ∧
      (lists.levels τ).items = update (lists.levels σ).items p (((lists.levels σ).items p).erase i) := by
  rw [lists.onTaskSleep] at called
  obtain ⟨u,leaves,called⟩ := of_bind called
  obtain ⟨l,linked,rfl⟩ := of_return called
  obtain ⟨valid',kept,left⟩ := lists.leave_parts leaves
  obtain ⟨levels,sleep,keeps⟩ := lists.rest_parts l u
  rw [kept] at linked
  obtain ⟨awake,rfl⟩ := linkBack_parts linked
  exact ⟨keeps (valid' valid),awake,sleep,levels ▸ left⟩

theorem sleep_defined (prio : lists.priority (v i).weight = some p) (linked : i ∈ (lists.levels σ).items p)
    (awake : i ∉ S.sleepList σ) : ∃ τ,S.onTaskSleep v i σ = some τ := by
  obtain ⟨u,leaves⟩ := lists.leave_defined prio linked
  rw [lists.onTaskSleep,leaves,Option.bind_some,linkBack_defined (by rwa [(lists.leave_parts leaves).2.1])]
  exact ⟨_,rfl⟩

theorem wake (valid : lists.Valid σ) (called : S.onTaskWake v i σ = some τ) : lists.Valid τ ∧ i ∈ S.sleepList σ ∧
    S.sleepList τ = (S.sleepList σ).erase i ∧ ∃ p,lists.priority (v i).weight = some p ∧
      (lists.levels τ).items = update (lists.levels σ).items p ((lists.levels σ).items p ++ [i]) := by
  rw [lists.onTaskWake] at called
  obtain ⟨l,unlinked,joins⟩ := of_bind called
  obtain ⟨asleep,rfl⟩ := unlink_parts unlinked
  obtain ⟨levels,sleep,keeps⟩ := lists.rest_parts ((S.sleepList σ).erase i) σ
  obtain ⟨valid',kept,joined⟩ := lists.join_parts joins
  rw [levels] at joined
  exact ⟨valid' (keeps valid),asleep,kept.trans sleep,joined⟩

theorem wake_defined (prio : lists.priority (v i).weight = some p) (asleep : i ∈ S.sleepList σ)
    (fresh : ∀ q,i ∉ (lists.levels σ).items q) : ∃ τ,S.onTaskWake v i σ = some τ := by
  rw [lists.onTaskWake,unlink_defined asleep]
  refine lists.join_defined prio ?_
  rw [(lists.rest_parts _ σ).1]
  exact fresh

structure Inv (w : Fin n → Int) (σ : S.State) : Prop where
  valid : lists.Valid σ
  distinct : (S.sleepList σ).Nodup
  apart : ∀ i ∈ S.sleepList σ,∀ p,i ∉ (lists.levels σ).items p
  filed : ∀ p,∀ i ∈ (lists.levels σ).items p,lists.priority (w i) = some p

theorem mem_runnable : i ∈ S.runnable σ ↔ ∃ p,i ∈ (lists.levels σ).items p := by
  rw [Strategy.runnable,lists.runnableLists,Levels.mem_union]

theorem place_ready_iff (inv : lists.Inv w σ) : S.place σ i = .ready ↔ ∃ p,i ∈ (lists.levels σ).items p := by
  rw [← lists.mem_runnable]
  refine ⟨S.mem_runnable_of_ready,fun linked => S.place_ready_of (fun asleep => ?_) linked⟩
  obtain ⟨p,inside⟩ := lists.mem_runnable.mp linked
  exact inv.apart i asleep p inside

theorem place_free_iff : S.place σ i = .free ↔ i ∉ S.sleepList σ ∧ ∀ p,i ∉ (lists.levels σ).items p := by
  rw [S.place_free_iff,lists.mem_runnable,not_exists]

theorem filed_cases (inv : lists.Inv w σ) (filed : S.place σ i ≠ .free) :
    i ∈ S.sleepList σ ∨ ∃ p,lists.priority (w i) = some p ∧ i ∈ (lists.levels σ).items p := by
  by_contra neither
  rw [not_or,not_exists] at neither
  exact filed (lists.place_free_iff.mpr ⟨neither.1,fun p linked => neither.2 p ⟨inv.filed p _ linked,linked⟩⟩)

theorem kept (inv : lists.Inv w σ) (same : lists.Valid τ ∧ S.sleepList τ = S.sleepList σ ∧
    (lists.levels τ).items = (lists.levels σ).items) : lists.Inv w τ ∧ S.place τ = S.place σ := by
  obtain ⟨valid,sleep,items⟩ := same
  refine ⟨⟨valid,sleep ▸ inv.distinct,by rw [sleep,items]; exact inv.apart,by rw [items]; exact inv.filed⟩,?_⟩
  funext i
  simp [Strategy.place,lists.mem_runnable,sleep,items]

theorem moved (sleeping : ∀ j,j ≠ i → (j ∈ S.sleepList τ ↔ j ∈ S.sleepList σ))
    (running : ∀ j,j ≠ i → ∀ p,j ∈ (lists.levels τ).items p ↔ j ∈ (lists.levels σ).items p) (own : S.place τ i = place) :
    S.place τ = update (S.place σ) i place :=
  S.place_update sleeping (fun j apart => by
    rw [lists.mem_runnable,lists.mem_runnable]
    exact exists_congr (running j apart)) own

theorem mem_join {items items' : Fin P → List (Fin n)} (joined : items' = update items p (items p ++ [i])) :
    j ∈ items' q ↔ j ∈ items q ∨ (j = i ∧ q = p) := by
  rw [joined,update_apply]
  split
  · subst q; simp
  · simp [*]

theorem mem_leave {l : Levels (Fin n) B} {items' : Fin P → List (Fin n)} (linked : i ∈ l.items p)
    (left : items' = update l.items p ((l.items p).erase i)) :
    j ∈ items' q ↔ j ∈ l.items q ∧ j ≠ i := by
  rw [left,update_apply]
  by_cases same : j = i
  · subst same
    split
    · simpa using (l.items_nodup p).not_mem_erase
    · rename_i apart
      simpa using fun there => apart (l.items_apart there linked)
  · split
    · subst q; simp [same,mem_erase_of_ne same]
    · simp [same]

theorem relinked {l m : Levels (Fin n) B} {items : Fin P → List (Fin n)} (linked : i ∈ l.items p)
    (left : m.items = update l.items p ((l.items p).erase i))
    (joined : items = update m.items q (m.items q ++ [i])) :
    i ∈ items q ∧ ∀ j r,j ≠ i ∨ r ≠ q → (j ∈ items r ↔ j ∈ l.items r ∧ (j ≠ i ∨ r ≠ p)) := by
  refine ⟨(mem_join joined).mpr (.inr ⟨rfl,rfl⟩),fun j r other => ?_⟩
  rw [mem_join joined,mem_leave linked left]
  by_cases at_ : j = i
  · subst at_
    have elsewhere : r ≠ q := other.resolve_left (· rfl)
    have only : j ∈ l.items r → r = p := fun there => l.items_apart there linked
    simp only [ne_eq,not_true_eq_false,and_false,true_and,false_or]
    exact ⟨fun there => absurd there elsewhere,fun ⟨there,apart⟩ => absurd (only there) apart⟩
  · simp [at_]

section

variable (inv : lists.Inv v.weights σ)
include inv

theorem added (free : S.place σ i = .free) (called : S.addTask v i σ = some τ) :
    lists.Inv v.weights τ ∧ S.place τ = update (S.place σ) i .ready := by
  obtain ⟨valid,sleep,p,prio,items⟩ := lists.add inv.valid called
  obtain ⟨awake,absent⟩ := lists.place_free_iff.mp free
  have inv' : lists.Inv v.weights τ := by
    refine ⟨valid,sleep ▸ inv.distinct,fun j asleep q inside => ?_,fun q j inside => ?_⟩
    · rw [sleep] at asleep
      rcases (mem_join items).mp inside with old | ⟨rfl,_⟩
      · exact inv.apart j asleep q old
      · exact awake asleep
    · rcases (mem_join items).mp inside with old | ⟨rfl,rfl⟩
      · exact inv.filed q j old
      · exact prio
  refine ⟨inv',lists.moved (fun j _ => by rw [sleep]) (fun j apart q => by simp [mem_join items,apart]) ?_⟩
  exact (lists.place_ready_iff inv').mpr ⟨p,(mem_join items).mpr (.inr ⟨rfl,rfl⟩)⟩

theorem removed (called : S.removeTask v i σ = some τ) :
    S.place σ i ≠ .free ∧ lists.Inv v.weights τ ∧ S.place τ = update (S.place σ) i .free := by
  obtain ⟨valid,⟨asleep,sleep,items⟩ | ⟨awake,sleep,p,linked,items⟩⟩ := lists.remove inv.valid called
  · refine ⟨fun free => (lists.place_free_iff.mp free).1 asleep,⟨valid,sleep ▸ inv.distinct.erase i,fun j inside q => ?_,
      by rw [items]; exact inv.filed⟩,lists.moved (fun j apart => by rw [sleep,mem_erase_of_ne apart])
      (fun j _ q => by rw [items]) ?_⟩
    · rw [items]; rw [sleep] at inside
      exact inv.apart j (mem_of_mem_erase inside) q
    · refine lists.place_free_iff.mpr ⟨by rw [sleep]; exact inv.distinct.not_mem_erase,fun q => ?_⟩
      rw [items]; exact inv.apart i asleep q
  · refine ⟨fun free => (lists.place_free_iff.mp free).2 p linked,⟨valid,sleep ▸ inv.distinct,fun j inside q there => ?_,
      fun q j there => inv.filed q j ((mem_leave linked items).mp there).1⟩,lists.moved (fun j _ => by rw [sleep])
      (fun j apart q => by simp [mem_leave linked items,apart]) ?_⟩
    · rw [sleep] at inside
      exact inv.apart j inside q ((mem_leave linked items).mp there).1
    · exact lists.place_free_iff.mpr ⟨by rw [sleep]; exact awake,fun q there => ((mem_leave linked items).mp there).2 rfl⟩

theorem slept (called : S.onTaskSleep v i σ = some τ) :
    S.place σ i = .ready ∧ lists.Inv v.weights τ ∧ S.place τ = update (S.place σ) i .asleep := by
  obtain ⟨valid,awake,sleep,p,linked,items⟩ := lists.sleep inv.valid called
  refine ⟨(lists.place_ready_iff inv).mpr ⟨p,linked⟩,⟨valid,?_,fun j inside q there => ?_,
    fun q j there => inv.filed q j ((mem_leave linked items).mp there).1⟩,
    lists.moved (fun j apart => by simp [sleep,apart]) (fun j apart q => by simp [mem_leave linked items,apart])
    (S.place_asleep_iff.mpr (by simp [sleep]))⟩
  · rw [sleep]
    exact nodup_append.mpr ⟨inv.distinct,by simp,by grind⟩
  · obtain ⟨old,apart⟩ := (mem_leave linked items).mp there
    rw [sleep,mem_append,mem_singleton] at inside
    exact inv.apart j (inside.resolve_right apart) q old

theorem woken (called : S.onTaskWake v i σ = some τ) :
    S.place σ i = .asleep ∧ lists.Inv v.weights τ ∧ S.place τ = update (S.place σ) i .ready := by
  obtain ⟨valid,asleep,sleep,p,prio,items⟩ := lists.wake inv.valid called
  have inv' : lists.Inv v.weights τ := by
    refine ⟨valid,sleep ▸ inv.distinct.erase i,fun j inside q there => ?_,fun q j there => ?_⟩
    · rw [sleep] at inside
      rcases (mem_join items).mp there with old | ⟨rfl,_⟩
      · exact inv.apart j (mem_of_mem_erase inside) q old
      · exact inv.distinct.not_mem_erase inside
    · rcases (mem_join items).mp there with old | ⟨rfl,rfl⟩
      · exact inv.filed q j old
      · exact prio
  refine ⟨S.place_asleep_iff.mpr asleep,inv',lists.moved (fun j apart => by rw [sleep,mem_erase_of_ne apart])
    (fun j apart q => by simp [mem_join items,apart]) ?_⟩
  exact (lists.place_ready_iff inv').mpr ⟨p,(mem_join items).mpr (.inr ⟨rfl,rfl⟩)⟩

end

theorem reweighted (inv : lists.Inv w σ) (filed : S.place σ i ≠ .free) (others : ∀ j,j ≠ i → (v j).weight = w j)
    (called : S.onTaskWeightChange v i (w i) σ = some τ) : lists.Inv v.weights τ ∧ S.place τ = S.place σ := by
  obtain ⟨valid,sleep,⟨asleep,items⟩ | ⟨p,q,linked,prio,here,mem⟩⟩ :=
    lists.weightChange inv.valid (lists.filed_cases inv filed) called
  · refine ⟨⟨valid,sleep ▸ inv.distinct,by rw [sleep,items]; exact inv.apart,fun r j there => ?_⟩,?_⟩
    · rw [items] at there
      have apart : j ≠ i := by rintro rfl; exact inv.apart j asleep r there
      exact (congrArg lists.priority (others j apart)).trans (inv.filed r j there)
    · funext j; simp [Strategy.place,lists.mem_runnable,sleep,items]
  · have only : ∀ {r},i ∈ (lists.levels τ).items r → r = q := fun there => (lists.levels τ).items_apart there here
    have other : ∀ {j r},j ≠ i → (j ∈ (lists.levels τ).items r ↔ j ∈ (lists.levels σ).items r) := by
      intro j r apart
      simp [mem j r (.inl apart),apart]
    refine ⟨⟨valid,sleep ▸ inv.distinct,fun j asleep r there => ?_,fun r j there => ?_⟩,?_⟩
    · rw [sleep] at asleep
      have apart : j ≠ i := by rintro rfl; exact inv.apart j asleep p linked
      exact inv.apart j asleep r ((other apart).mp there)
    · by_cases at_ : j = i
      · subst at_; rw [only there]; exact prio
      · exact (congrArg lists.priority (others j at_)).trans (inv.filed r j ((other at_).mp there))
    · funext j
      by_cases at_ : j = i
      · subst at_
        have awake : j ∉ S.sleepList σ := fun asleep => inv.apart j asleep p linked
        rw [S.place_ready_of (by rw [sleep]; exact awake) (lists.mem_runnable.mpr ⟨q,here⟩),
          S.place_ready_of awake (lists.mem_runnable.mpr ⟨p,linked⟩)]
      · simp [Strategy.place,lists.mem_runnable,sleep,other at_]

theorem first_mem {l : Levels (Fin n) B} {sleep : List (Fin n)} (got : firstOf l sleep = some i) :
    i ∈ sleep ∨ ∃ p,i ∈ l.items p := by
  unfold firstOf at got
  split at got
  · exact .inl (mem_of_head? got)
  · obtain ⟨p,_,head⟩ := of_bind got
    exact .inr ⟨p,mem_of_head? head⟩

theorem first_defined {l : Levels (Fin n) B} {sleep : List (Fin n)} (filed : i ∈ sleep ∨ ∃ p,i ∈ l.items p) :
    ∃ j,firstOf l sleep = some j := by
  have head : ∀ {items : List (Fin n)},items ≠ [] → ∃ j,items.head? = some j := by
    intro items some_
    cases items with
    | nil => exact absurd rfl some_
    | cons j rest => exact ⟨j,rfl⟩
  unfold firstOf
  split
  · rename_i empty
    rcases filed with asleep | ⟨p,linked⟩
    · exact head (ne_nil_of_mem asleep)
    · simp [Levels.isEmpty_iff.mp empty p] at linked
  · rename_i used
    obtain ⟨p,at_,here,_⟩ := Levels.highest_defined used
    obtain ⟨j,got⟩ := head here
    exact ⟨j,by simp [at_,got]⟩

def lawful : Lawful S where
  Inv := lists.Inv
  Fits w := (lists.priority w).isSome = true
  initial :=
    have ⟨valid,items,sleep⟩ := lists.initial
    ⟨valid,by simp [sleep],by simp [sleep],by simp [items]⟩
  initial_free := lists.place_free_iff.mpr ⟨by simp [lists.initial.2.2],by simp [lists.initial.2.1]⟩
  congr inv same := ⟨inv.valid,inv.distinct,inv.apart,fun p i linked => by
    rw [same i fun free => (lists.place_free_iff.mp free).2 p linked]
    exact inv.filed p i linked⟩
  nodup inv := by
    refine nodup_append.mpr ⟨?_,inv.distinct,fun i linked j asleep same => ?_⟩
    · rw [Strategy.runnable,lists.runnableLists]; exact Levels.nodup_union
    · subst same
      obtain ⟨p,inside⟩ := lists.mem_runnable.mp linked
      exact inv.apart i asleep p inside
  unaware unaware := by rw [lists.aware] at unaware; cases unaware
  size _ := by
    rw [lists.size,Strategy.runnable,lists.runnableLists,length_append,length_flatten,Nat.add_comm]
    simp [sizeOf,Levels.union,comp_def]
  add := lists.added
  remove := lists.removed
  remove_defined inv filed := lists.remove_defined (lists.filed_cases inv filed)
  sleep _ := lists.slept
  sleep_defined _ inv ready :=
    have ⟨p,linked⟩ := (lists.place_ready_iff inv).mp ready
    lists.sleep_defined (inv.filed p _ linked) linked fun asleep => inv.apart _ asleep p linked
  wake _ := lists.woken
  wake_defined _ inv fits asleep :=
    have ⟨_,prio⟩ := Option.isSome_iff_exists.mp fits
    have linked := S.place_asleep_iff.mp asleep
    lists.wake_defined prio linked (inv.apart _ linked)
  next inv called :=
    have ⟨valid,sleep,items,_⟩ := lists.next inv.valid called
    lists.kept inv ⟨valid,sleep,items⟩
  next_some inv called := ⟨(lists.place_ready_iff inv).mpr ((lists.next inv.valid called).2.2.2.1 _ rfl),fun unaware => by
    rw [lists.aware] at unaware; cases unaware⟩
  next_none inv called ready := by
    obtain ⟨p,linked⟩ := (lists.place_ready_iff inv).mp ready
    simp [(lists.next inv.valid called).2.2.2.2 rfl p] at linked
  first _ got free := by
    rw [lists.first] at got
    obtain ⟨awake,absent⟩ := lists.place_free_iff.mp free
    rcases first_mem got with asleep | ⟨p,linked⟩
    · exact awake asleep
    · exact absent p linked
  first_defined _ filed := by
    rw [lists.first]
    exact first_defined (by_contra fun neither => filed (lists.place_free_iff.mpr (by
      rw [not_or,not_exists] at neither
      exact neither)))
  weightChange _ := lists.reweighted
  yield inv called := lists.kept inv (lists.yield inv.valid called)
  timeSlice inv called := lists.kept inv (lists.timeSlice inv.valid called)
  timeSlice_defined _ := lists.timeSlice_defined
  deadlineMissed inv called := by rw [lists.deadlineMissed] at called; cases called; exact ⟨inv,rfl⟩
  deadlineMissed_defined _ := ⟨_,lists.deadlineMissed⟩

end Levelled
end SuperTinyKernel
