import Mathlib.Data.List.Cycle
import SuperTinyKernel.Library.Run

-- A closed-loop list of distinct entries with a cursor on the entry served last, which is
-- always one of a non-empty list.
structure Rota (α : Type) where
  items : List α
  cursor : Option α
  nodup : items.Nodup
  member : ∀ x,cursor = some x → x ∈ items
  placed : cursor = none → items = []

namespace Rota

open List

variable {α : Type} [DecidableEq α] {r s : Rota α} {x : α}

def empty : Rota α := ⟨[],none,by simp,by simp,by simp⟩

def seek (x : α) (r : Rota α) : Option (Rota α) :=
  if linked : x ∈ r.items then
    some ⟨r.items,some x,r.nodup,fun _ same => Option.some.inj same ▸ linked,by simp⟩
  else none

def linkBack (x : α) (r : Rota α) : Option (Rota α) :=
  if linked : x ∈ r.items then none
  else some ⟨r.items ++ [x],some (r.cursor.getD x),nodup_append.mpr ⟨r.nodup,by simp,by grind⟩,by
    rintro y same
    cases Option.some.inj same
    cases at_ : r.cursor with
    | none => simp
    | some z => simp [r.member z at_],by simp⟩

-- For an entry that joins for the first time. A cursor on the tail moves onto it, so that the
-- head is served next.
def append (x : α) (r : Rota α) : Option (Rota α) := do
  let s ← r.linkBack x
  if r.cursor = r.items.getLast? then s.seek x else some s

theorem erase_alone {l : List α} (distinct : l.Nodup) (linked : x ∈ l) (alone : l.next x linked = x) :
    l.erase x = [] := by
  obtain ⟨i,inside,rfl⟩ := getElem_of_mem linked
  rw [next_getElem l distinct i inside,distinct.getElem_inj_iff] at alone
  have single : l.length = 1 := by
    rcases Nat.lt_or_ge (i+1) l.length with more | last
    · rw [Nat.mod_eq_of_lt more] at alone; omega
    · have : i + 1 = l.length := by omega
      rw [this,Nat.mod_self] at alone; omega
  obtain ⟨y,rfl⟩ := length_eq_one_iff.mp single
  simp

-- The cursor steps back from an unlinked entry, so that its successor is served next.
def unlink (x : α) (r : Rota α) : Option (Rota α) :=
  if linked : x ∈ r.items then
    let next := r.items.next x linked
    if alone : next = x then
      some ⟨r.items.erase x,none,r.nodup.erase x,by simp,fun _ => erase_alone r.nodup linked alone⟩
    else
      have stays : next ∈ r.items.erase x := (mem_erase_of_ne alone).mpr (next_mem _ _ _)
      some ⟨r.items.erase x,if r.cursor = some x then some ((r.items.erase x).prev next stays) else r.cursor,
        r.nodup.erase x,by
          intro y at_
          split at at_
          · cases at_; exact prev_mem _ _ _
          · rename_i other
            exact (mem_erase_of_ne (by rintro rfl; exact other at_)).mpr (r.member y at_),by
          intro at_
          split at at_
          · cases at_
          · simp [r.placed at_] at linked⟩
  else none

def advance (r : Rota α) : Option α × Rota α :=
  match at_ : r.cursor with
  | none => (none,r)
  | some x =>
    let next := r.items.next x (r.member x at_)
    (some next,⟨r.items,some next,r.nodup,fun _ same => Option.some.inj same ▸ next_mem _ _ _,by simp⟩)

omit [DecidableEq α] in
theorem cursor_none_iff : r.cursor = none ↔ r.items = [] := by
  refine ⟨r.placed,fun none => ?_⟩
  cases at_ : r.cursor with
  | none => rfl
  | some x => have := r.member x at_; simp [none] at this

theorem linkBack_parts (linked : r.linkBack x = some s) : x ∉ r.items ∧ s.items = r.items ++ [x] := by
  unfold linkBack at linked
  split at linked
  · cases linked
  · cases linked; exact ⟨‹_›,rfl⟩

theorem linkBack_defined (fresh : x ∉ r.items) : ∃ s,r.linkBack x = some s := by
  simp [linkBack,fresh]

theorem seek_parts (moved : r.seek x = some s) : x ∈ r.items ∧ s.items = r.items ∧ s.cursor = some x := by
  unfold seek at moved
  split at moved
  · cases moved; exact ⟨‹_›,rfl,rfl⟩
  · cases moved

theorem seek_defined (linked : x ∈ r.items) : ∃ s,r.seek x = some s := by
  simp [seek,linked]

theorem append_parts (linked : r.append x = some s) : x ∉ r.items ∧ s.items = r.items ++ [x] := by
  obtain ⟨t,back,moved⟩ := of_bind linked
  obtain ⟨fresh,items⟩ := linkBack_parts back
  split at moved
  · exact ⟨fresh,(seek_parts moved).2.1.trans items⟩
  · cases moved; exact ⟨fresh,items⟩

theorem unlink_parts (unlinked : r.unlink x = some s) : x ∈ r.items ∧ s.items = r.items.erase x := by
  unfold unlink at unlinked
  split at unlinked
  · dsimp only at unlinked
    split at unlinked <;> (cases unlinked; exact ⟨‹_›,rfl⟩)
  · cases unlinked

theorem unlink_defined (linked : x ∈ r.items) : ∃ s,r.unlink x = some s := by
  simp only [unlink,linked,↓reduceDIte]
  split <;> exact ⟨_,rfl⟩

@[simp] theorem advance_items (r : Rota α) : r.advance.2.items = r.items := by
  unfold advance
  split <;> rfl

theorem advance_mem (served : r.advance.1 = some x) : x ∈ r.items := by
  unfold advance at served
  split at served
  · cases served
  · cases served; exact next_mem _ _ _

theorem advance_next (served : r.advance.1 = some x) :
    ∃ y inside,r.cursor = some y ∧ x = r.items.next y inside ∧ r.advance.2.cursor = some x := by
  unfold advance at served ⊢
  split at served
  · cases served
  · rename_i y at_
    cases served
    exact ⟨y,r.member y at_,at_,rfl,rfl⟩

theorem advance_none_iff : r.advance.1 = none ↔ r.items = [] := by
  rw [← cursor_none_iff]
  unfold advance
  split <;> simp_all

end Rota
