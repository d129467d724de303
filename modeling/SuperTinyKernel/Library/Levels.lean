import Mathlib.Data.List.FinRange
import SuperTinyKernel.Library.Rota

-- A finite set of indices with a largest member, as a bitmap implements it.
structure IndexSet (P : Nat) where
  Carrier : Type
  empty : Carrier
  set : Carrier → Fin P → Carrier
  clear : Carrier → Fin P → Carrier
  isSet : Carrier → Fin P → Bool
  isEmpty : Carrier → Bool
  highest : Carrier → Nat
  isSet_empty : isSet empty p = false
  isSet_set : isSet (set b q) p = (decide (p = q) || isSet b p)
  isSet_clear : isSet (clear b q) p = (!decide (p = q) && isSet b p)
  isEmpty_iff : isEmpty b = true ↔ ∀ p,isSet b p = false
  highest_spec : isSet b p = true → ∃ q : Fin P,highest b = q ∧ isSet b q = true ∧ ∀ r,isSet b r = true → r ≤ q

-- One rota for each level, every entry in at most one of them, and the set of non-empty
-- levels.
structure Levels (α : Type) (B : IndexSet P) where
  lists : Fin P → Rota α
  ready : B.Carrier
  exact : ∀ p,B.isSet ready p = true ↔ (lists p).items ≠ []
  apart : ∀ p q x,x ∈ (lists p).items → x ∈ (lists q).items → p = q

namespace Levels

open Function List

variable {α : Type} [DecidableEq α] {B : IndexSet P} {l l' : Levels α B} {x y : α} {p q : Fin P}

def empty : Levels α B := ⟨fun _ => .empty,B.empty,by simp [Rota.empty,B.isSet_empty],by simp [Rota.empty]⟩

def items (l : Levels α B) (p : Fin P) : List α := (l.lists p).items

-- Level `p` becomes `r`. An entry of another level must not be linked here as well.
def relink (p : Fin P) (r : Rota α) (l : Levels α B) : Option (Levels α B) :=
  if fresh : ∀ q,q ≠ p → ∀ x ∈ r.items,x ∉ (l.lists q).items then
    some {
      lists := update l.lists p r
      ready := if r.items = [] then B.clear l.ready p else if l.items p = [] then B.set l.ready p else l.ready
      exact := by
        intro q
        by_cases at_ : q = p
        · subst at_
          have old := l.exact q
          by_cases none : r.items = []
          · simp [none,B.isSet_clear]
          · by_cases first : l.items q = []
            · simp [none,first,B.isSet_set]
            · simpa [none,first] using old.mpr first
        · have old := l.exact q
          split
          · simpa [at_,B.isSet_clear] using old
          · split
            · simpa [at_,B.isSet_set] using old
            · simpa [at_] using old
      apart := by
        intro a b x first second
        by_cases at_ : a = p <;> by_cases there : b = p
        · rw [at_,there]
        · subst at_
          simp only [update_self,update_of_ne there] at first second
          exact absurd second (fresh b there x first)
        · subst there
          simp only [update_self,update_of_ne at_] at first second
          exact absurd first (fresh a at_ x second)
        · simp only [update_of_ne at_,update_of_ne there] at first second
          exact l.apart a b x first second}
  else none

def linkBack (x : α) (p : Fin P) (l : Levels α B) : Option (Levels α B) := do l.relink p (← (l.lists p).linkBack x)
def append (x : α) (p : Fin P) (l : Levels α B) : Option (Levels α B) := do l.relink p (← (l.lists p).append x)
def unlink (x : α) (p : Fin P) (l : Levels α B) : Option (Levels α B) := do l.relink p (← (l.lists p).unlink x)
def seek (x : α) (p : Fin P) (l : Levels α B) : Option (Levels α B) := do l.relink p (← (l.lists p).seek x)

def advance (p : Fin P) (l : Levels α B) : Option (α × Levels α B) := do
  let x ← (l.lists p).advance.1
  return (x,← l.relink p (l.lists p).advance.2)

def highest (l : Levels α B) : Option (Fin P) :=
  if inside : B.highest l.ready < P then some ⟨B.highest l.ready,inside⟩ else none

omit [DecidableEq α] in
theorem items_nodup (l : Levels α B) (p : Fin P) : (l.items p).Nodup := (l.lists p).nodup
omit [DecidableEq α] in
theorem items_apart (l : Levels α B) (first : x ∈ l.items p) (second : x ∈ l.items q) : p = q :=
  l.apart p q x first second

theorem relink_parts {r : Rota α} (linked : l.relink p r = some l') :
    (∀ q,q ≠ p → ∀ x ∈ r.items,x ∉ l.items q) ∧ l'.items = update l.items p r.items := by
  unfold relink at linked
  split at linked
  · rename_i fresh
    cases linked
    refine ⟨fresh,?_⟩
    funext q
    by_cases at_ : q = p
    · subst at_; simp [items]
    · simp [items,at_]
  · cases linked

theorem relink_lists {r : Rota α} (linked : l.relink p r = some l') : l'.lists = update l.lists p r := by
  unfold relink at linked
  split at linked
  · cases linked
    rfl
  · cases linked

theorem relink_defined {r : Rota α} (fresh : ∀ q,q ≠ p → ∀ x ∈ r.items,x ∉ l.items q) : ∃ l',l.relink p r = some l' := by
  unfold relink
  rw [dif_pos (show ∀ q,q ≠ p → ∀ x ∈ r.items,x ∉ (l.lists q).items from fresh)]
  exact ⟨_,rfl⟩

theorem relink_subset {r : Rota α} (subset : ∀ x ∈ r.items,x ∈ l.items p) : ∃ l',l.relink p r = some l' :=
  relink_defined fun q apart x inside outside => apart (l.apart q p x outside (subset x inside))

theorem joined {r : Rota α} (fresh : x ∉ l.items p) (items : r.items = l.items p ++ [x])
    (relinked : l.relink p r = some l') :
    (∀ q,x ∉ l.items q) ∧ l'.items = update l.items p (l.items p ++ [x]) := by
  obtain ⟨others,levels⟩ := relink_parts relinked
  refine ⟨fun q => ?_,by rw [levels,items]⟩
  by_cases at_ : q = p
  · subst at_; exact fresh
  · exact others q at_ x (by simp [items])

theorem linkBack_parts (linked : l.linkBack x p = some l') :
    (∀ q,x ∉ l.items q) ∧ l'.items = update l.items p (l.items p ++ [x]) := by
  obtain ⟨r,back,relinked⟩ := of_bind linked
  obtain ⟨fresh,items⟩ := Rota.linkBack_parts back
  exact joined fresh items relinked

theorem append_parts (linked : l.append x p = some l') :
    (∀ q,x ∉ l.items q) ∧ l'.items = update l.items p (l.items p ++ [x]) := by
  obtain ⟨r,back,relinked⟩ := of_bind linked
  obtain ⟨fresh,items⟩ := Rota.append_parts back
  exact joined fresh items relinked

theorem linkBack_defined (fresh : ∀ q,x ∉ l.items q) (p : Fin P) : ∃ l',l.linkBack x p = some l' := by
  obtain ⟨r,back⟩ := Rota.linkBack_defined (r := l.lists p) (fresh p)
  have items := (Rota.linkBack_parts back).2
  obtain ⟨l',relinked⟩ := relink_defined (l := l) (p := p) (r := r) (by
    intro q apart y inside outside
    rw [items,mem_append,mem_singleton] at inside
    rcases inside with inside | rfl
    · exact apart (l.apart q p y outside inside)
    · exact fresh q outside)
  exact ⟨l',by simp [linkBack,back,relinked]⟩

theorem unlink_parts (unlinked : l.unlink x p = some l') :
    x ∈ l.items p ∧ l'.items = update l.items p ((l.items p).erase x) := by
  obtain ⟨r,removed,relinked⟩ := of_bind unlinked
  obtain ⟨linked,items⟩ := Rota.unlink_parts removed
  exact ⟨linked,by rw [(relink_parts relinked).2,items]; rfl⟩

theorem unlink_defined (linked : x ∈ l.items p) : ∃ l',l.unlink x p = some l' := by
  obtain ⟨r,removed⟩ := Rota.unlink_defined (r := l.lists p) linked
  have items := (Rota.unlink_parts removed).2
  obtain ⟨l',relinked⟩ := relink_subset (l := l) (p := p) (r := r) (fun y inside => by
    rw [items] at inside
    exact mem_of_mem_erase inside)
  exact ⟨l',by simp [unlink,removed,relinked]⟩

theorem seek_parts (moved : l.seek x p = some l') : x ∈ l.items p ∧ l'.items = l.items := by
  obtain ⟨r,found,relinked⟩ := of_bind moved
  obtain ⟨linked,items,_⟩ := Rota.seek_parts found
  refine ⟨linked,?_⟩
  rw [(relink_parts relinked).2,items]
  exact update_eq_self ..

theorem seek_defined (linked : x ∈ l.items p) : ∃ l',l.seek x p = some l' := by
  obtain ⟨r,found⟩ := Rota.seek_defined (r := l.lists p) linked
  have items := (Rota.seek_parts found).2.1
  obtain ⟨l',relinked⟩ := relink_subset (l := l) (p := p) (r := r) (fun y inside => by rwa [items] at inside)
  exact ⟨l',by simp [seek,found,relinked]⟩

theorem advance_parts (served : l.advance p = some (x,l')) : x ∈ l.items p ∧ l'.items = l.items := by
  obtain ⟨y,next,served⟩ := of_bind served
  obtain ⟨l₁,relinked,same⟩ := of_bind served
  cases same
  refine ⟨Rota.advance_mem next,?_⟩
  rw [(relink_parts relinked).2,Rota.advance_items]
  exact update_eq_self ..

theorem advance_defined (entries : l.items p ≠ []) : ∃ x l',l.advance p = some (x,l') := by
  obtain ⟨x,served⟩ := Option.ne_none_iff_exists'.mp fun none => entries (Rota.advance_none_iff.mp none)
  obtain ⟨l',relinked⟩ := relink_subset (l := l) (p := p) (r := (l.lists p).advance.2)
    fun x inside => by rwa [Rota.advance_items] at inside
  exact ⟨x,l',by simp [advance,served,relinked]⟩

omit [DecidableEq α] in
theorem isEmpty_iff : B.isEmpty l.ready = true ↔ ∀ p,l.items p = [] := by
  rw [B.isEmpty_iff]
  refine forall_congr' fun p => ?_
  have := l.exact p
  rw [← Bool.not_eq_true,this,not_not]
  rfl

omit [DecidableEq α] in
theorem highest_defined (used : ¬B.isEmpty l.ready = true) :
    ∃ p,l.highest = some p ∧ l.items p ≠ [] ∧ ∀ r,l.items r ≠ [] → r ≤ p := by
  obtain ⟨q,entries⟩ := not_forall.mp (mt isEmpty_iff.mpr used)
  obtain ⟨p,at_,here,above⟩ := B.highest_spec ((l.exact q).mpr entries)
  refine ⟨p,?_,(l.exact p).mp here,fun r entries => above r ((l.exact r).mpr entries)⟩
  unfold highest
  rw [dif_pos (by omega)]
  simp [at_]

def union (l : Levels α B) : List (List α) := (List.finRange P).map l.items

omit [DecidableEq α] in
theorem mem_union : x ∈ l.union.flatten ↔ ∃ p,x ∈ l.items p := by simp [union]

omit [DecidableEq α] in
theorem nodup_union : l.union.flatten.Nodup := by
  refine nodup_flatten.mpr ⟨?_,?_⟩
  · intro entries member
    obtain ⟨p,_,rfl⟩ := mem_map.mp member
    exact (l.lists p).nodup
  · refine List.Pairwise.map _ ?_ (nodup_finRange P)
    intro p q apart x first second
    exact apart (l.apart p q x first second)

end Levels
