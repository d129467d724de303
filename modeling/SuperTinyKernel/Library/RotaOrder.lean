import SuperTinyKernel.Library.Rota

namespace Rota

open Function List

variable {α : Type} [DecidableEq α] {r s : Rota α} {l : List α} {u x y z : α} {last : Option α}

-- The entries in the order in which a cursor on `u` comes by them, `u` itself last.
def turns (l : List α) (u : α) : List α := l.rotate (l.idxOf u + 1)

theorem turns_split {a b : List α} (fresh : u ∉ a) : turns (a ++ u :: b) u = b ++ (a ++ [u]) := by
  have at_ : (a ++ u :: b).idxOf u + 1 = (a ++ [u]).length := by
    rw [idxOf_append_of_notMem fresh]
    simp
  have shape : a ++ u :: b = (a ++ [u]) ++ b := by simp
  rw [turns,at_,shape,rotate_append_length_eq]

omit [DecidableEq α] in
theorem split_nodup (distinct : l.Nodup) (inside : u ∈ l) : ∃ l₁ l₂,l = l₁ ++ u :: l₂ ∧ u ∉ l₁ ∧ u ∉ l₂ := by
  obtain ⟨l₁,l₂,rfl⟩ := append_of_mem inside
  have parts := nodup_append.mp distinct
  exact ⟨l₁,l₂,rfl,fun early => parts.2.2 u early u (by simp) rfl,(nodup_cons.mp parts.2.1).1⟩

theorem turns_nodup (distinct : l.Nodup) : (turns l u).Nodup := nodup_rotate.mpr distinct

theorem turns_head (distinct : l.Nodup) (inside : u ∈ l) : (turns l u).head? = some (l.next u inside) := by
  obtain ⟨i,bound,rfl⟩ := getElem_of_mem inside
  have size : 0 < (turns l l[i]).length := by simp only [turns,length_rotate]; omega
  rw [head?_eq_getElem?,getElem?_eq_getElem size]
  simp only [turns,getElem_rotate,next_getElem l distinct i bound,distinct.idxOf_getElem i bound,Nat.zero_add]

theorem turns_advance (distinct : l.Nodup) (inside : u ∈ l) (next : turns l u = z :: rest) : turns l z = rest ++ [z] := by
  obtain ⟨l₁,l₂,rfl,fresh,absent⟩ := split_nodup distinct inside
  rw [turns_split fresh] at next
  cases l₂ with
  | nil =>
    cases l₁ with
    | nil =>
      obtain ⟨rfl,rfl⟩ := List.cons.inj next
      exact turns_split fresh
    | cons first l₁ =>
      obtain ⟨rfl,rfl⟩ := List.cons.inj next
      exact turns_split (a := []) not_mem_nil
  | cons first l₂ =>
    obtain ⟨rfl,rfl⟩ := List.cons.inj next
    have early : first ∉ l₁ ++ [u] := by
      intro early
      have parts := nodup_append.mp distinct
      rcases mem_append.mp early with before | at_
      · exact parts.2.2 first before first (by simp) rfl
      · exact absent (by simp [mem_singleton.mp at_])
    have shape : l₁ ++ u :: first :: l₂ = (l₁ ++ [u]) ++ first :: l₂ := by simp
    rw [shape,turns_split early]
    simp

theorem turns_append (distinct : l.Nodup) (inside : u ∈ l) (x : α) : (turns l u).Sublist (turns (l ++ [x]) u) := by
  obtain ⟨l₁,l₂,rfl,fresh,_⟩ := split_nodup distinct inside
  have shape : (l₁ ++ u :: l₂) ++ [x] = l₁ ++ u :: (l₂ ++ [x]) := by simp
  rw [shape,turns_split fresh,turns_split fresh]
  exact List.Sublist.append_right (sublist_append_left l₂ [x]) _

theorem turns_erase (distinct : l.Nodup) (inside : u ∈ l) (other : x ≠ u) : turns (l.erase x) u = (turns l u).erase x := by
  obtain ⟨l₁,l₂,rfl,fresh,_⟩ := split_nodup distinct inside
  rw [turns_split fresh]
  by_cases early : x ∈ l₁
  · have late : x ∉ l₂ := fun late => (nodup_append.mp distinct).2.2 x early x (by simp [late]) rfl
    rw [erase_append_left _ early,turns_split fun here => fresh (mem_of_mem_erase here),
      erase_append_right _ late,erase_append_left _ early]
  · have skips : (u :: l₂).erase x = u :: l₂.erase x := erase_cons_tail (by simpa using other.symm)
    rw [erase_append_right _ early,skips,turns_split fresh]
    by_cases late : x ∈ l₂
    · rw [erase_append_left _ late]
    · have absent : x ∉ l₂ ++ (l₁ ++ [u]) := by simp [late,early,other]
      rw [erase_of_not_mem absent,erase_of_not_mem late]

theorem turns_unlink (distinct : l.Nodup) (inside : z ∈ l) (stays : l.next z inside ∈ l.erase z) :
    turns (l.erase z) ((l.erase z).prev (l.next z inside) stays) = (turns l z).erase z := by
  have others : l.next z inside ≠ z := fun same => distinct.not_mem_erase (same ▸ stays)
  have head := turns_head distinct inside
  obtain ⟨l₁,l₂,rfl,fresh,absent⟩ := split_nodup distinct inside
  have left : (l₁ ++ z :: l₂).erase z = l₁ ++ l₂ := by
    rw [erase_append_right _ fresh,erase_cons_head]
  have rest : (turns (l₁ ++ z :: l₂) z).erase z = l₂ ++ l₁ := by
    have gone : z ∉ l₂ ++ l₁ := by simp [fresh,absent]
    rw [turns_split fresh,← append_assoc,erase_append_right _ gone]
    simp
  rw [rest]
  generalize (l₁ ++ z :: l₂).next z inside = first at *
  have first_ : (l₂ ++ l₁).head? = some first := by
    rw [turns_split fresh,← append_assoc] at head
    cases some_ : l₂ ++ l₁ with
    | nil =>
      rw [some_] at head
      exact absurd (Option.some.inj head) fun same => others same.symm
    | cons y tail =>
      rw [some_] at head
      exact head
  have remaining : (l₁ ++ l₂).Nodup := left ▸ distinct.erase z
  have found : ∀ q (linked : q ∈ l₁ ++ l₂),turns (l₁ ++ l₂) q = l₂ ++ l₁ →
      turns ((l₁ ++ z :: l₂).erase z) (((l₁ ++ z :: l₂).erase z).prev first stays) = l₂ ++ l₁ := by
    intro q linked order
    have next := turns_head remaining linked
    rw [order,first_] at next
    obtain rfl := Option.some.inj next
    have back : ((l₁ ++ z :: l₂).erase z).prev ((l₁ ++ l₂).next q linked) stays = q := by
      simp only [left]
      exact prev_next _ remaining q linked
    rw [back,left,order]
  rcases eq_nil_or_concat l₁ with rfl | ⟨l₁,q,rfl⟩
  · rcases eq_nil_or_concat l₂ with rfl | ⟨l₂,q,rfl⟩
    · cases first_
    · have apart : q ∉ l₂ := fun early => (nodup_append.mp (by simpa using remaining)).2.2 q early q (by simp) rfl
      refine found q (by simp) ?_
      have order := turns_split (a := l₂) (b := []) apart
      simpa using order
  · have apart : q ∉ l₁ := by
      intro early
      have parts := nodup_append.mp (by simpa [concat_eq_append] using remaining : (l₁ ++ q :: l₂).Nodup)
      exact parts.2.2 q early q (by simp) rfl
    refine found q (by simp) ?_
    have order := turns_split (a := l₁) (b := l₂) apart
    simpa [concat_eq_append] using order

-- From the cursor, and from `last` where it is linked, `y` comes before `x`.
def Due (r : Rota α) (last : Option α) (y x : α) : Prop :=
  ∀ u ∈ r.items,r.cursor = some u ∨ last = some u → [y,x].Sublist (turns r.items u)

theorem Due.relast (due : r.Due last y x) (weaker : ∀ u ∈ r.items,last' = some u → last = some u) : r.Due last' y x :=
  fun u inside at_ => due u inside (at_.imp id (weaker u inside))

theorem linkBack_cursor (linked : r.linkBack z = some s) (some_ : r.items ≠ []) : s.cursor = r.cursor := by
  unfold linkBack at linked
  split at linked
  · cases linked
  · cases linked
    obtain ⟨c,at_⟩ := Option.ne_none_iff_exists'.mp fun none => some_ (r.placed none)
    exact (congrArg (fun c => some (c.getD z)) at_).trans at_.symm

theorem append_cursor (linked : r.append z = some s) (some_ : r.items ≠ []) :
    s.cursor = r.cursor ∨ r.cursor = r.items.getLast? ∧ s.cursor = some z := by
  obtain ⟨t,back,moved⟩ := of_bind linked
  split at moved
  · rename_i tail
    exact .inr ⟨tail,(seek_parts moved).2.2⟩
  · cases moved
    exact .inl (linkBack_cursor back some_)

theorem turns_tail {l : List α} (tail : l.getLast? = some u) (distinct : l.Nodup) (fresh : z ∉ l) :
    (turns l u).Sublist (turns (l ++ [z]) z) := by
  obtain ⟨front,rfl⟩ := getLast?_eq_some_iff.mp tail
  have before : u ∉ front := fun early => (nodup_append.mp distinct).2.2 u early u (by simp) rfl
  rw [turns_split before,turns_split (b := []) fresh]
  exact sublist_append_left _ [z]

theorem Due.joins (due : r.Due last y x) (linked : r.linkBack z = some s ∨ r.append z = some s)
    (inside : y ∈ r.items) (apart : last ≠ some z) : s.Due last y x := by
  have some_ := ne_nil_of_mem inside
  have fresh : z ∉ r.items := linked.elim (fun back => (linkBack_parts back).1) fun back => (append_parts back).1
  have items : s.items = r.items ++ [z] :=
    linked.elim (fun back => (linkBack_parts back).2) fun back => (append_parts back).2
  have cursor : s.cursor = r.cursor ∨ r.cursor = r.items.getLast? ∧ s.cursor = some z :=
    linked.elim (fun back => .inl (linkBack_cursor back some_)) fun back => append_cursor back some_
  have kept : ∀ u ∈ r.items,r.cursor = some u ∨ last = some u → [y,x].Sublist (turns s.items u) := by
    intro u inside at_
    rw [items]
    exact (due u inside at_).trans (turns_append r.nodup inside z)
  intro u member at_
  by_cases new : u = z
  · subst new
    rcases at_ with at_ | at_
    · rcases cursor with same | ⟨tail,_⟩
      · exact absurd (r.member u (same ▸ at_)) fresh
      · cases here : r.cursor with
        | none => exact absurd (r.placed here) some_
        | some c =>
          have last_ : r.items.getLast? = some c := tail.symm.trans here
          rw [items]
          exact (due c (r.member c here) (.inl here)).trans (turns_tail last_ r.nodup fresh)
    · exact absurd at_ apart
  · have old : u ∈ r.items := by
      rw [items] at member
      exact (mem_append.mp member).resolve_right (by simpa using new)
    refine kept u old (at_.imp (fun at_ => ?_) id)
    rcases cursor with same | ⟨_,moved⟩
    · exact same ▸ at_
    · exact absurd (Option.some.inj (at_.symm.trans moved)) new

theorem unlink_cursor (unlinked : r.unlink z = some s) (inside : z ∈ r.items) (some_ : s.items ≠ []) :
    r.cursor ≠ some z ∧ s.cursor = r.cursor ∨ r.cursor = some z ∧
      ∃ stays : r.items.next z inside ∈ s.items,s.cursor = some (s.items.prev (r.items.next z inside) stays) := by
  have items := (unlink_parts unlinked).2
  unfold unlink at unlinked
  rw [dif_pos inside] at unlinked
  dsimp only at unlinked
  split at unlinked
  · rename_i alone
    rw [items,erase_alone r.nodup inside alone] at some_
    exact absurd rfl some_
  · rename_i others
    cases unlinked
    by_cases at_ : r.cursor = some z
    · exact .inr ⟨at_,(mem_erase_of_ne others).mpr (next_mem _ _ _),by simp [at_]⟩
    · exact .inl ⟨at_,by simp [at_]⟩

theorem pair_erase (pair : [y,x].Sublist l) (left : z ≠ y) (right : z ≠ x) : [y,x].Sublist (l.erase z) := by
  have same : [y,x].erase z = [y,x] := erase_of_not_mem (by simp [left,right])
  have erased := List.Sublist.erase z pair
  rwa [same] at erased

theorem Due.unlink (due : r.Due last y x) (unlinked : r.unlink z = some s) (left : z ≠ y) (right : z ≠ x) :
    s.Due last y x := by
  obtain ⟨inside,items⟩ := unlink_parts unlinked
  intro u member at_
  have some_ := ne_nil_of_mem member
  have old : u ∈ r.items := mem_of_mem_erase (items ▸ member)
  have other : z ≠ u := by
    rintro rfl
    exact r.nodup.not_mem_erase (items ▸ member)
  have kept : r.cursor = some u ∨ last = some u → [y,x].Sublist (turns s.items u) := by
    intro at_
    rw [items,turns_erase r.nodup old other]
    exact pair_erase (due u old at_) left right
  rcases at_ with at_ | at_
  · rcases unlink_cursor unlinked inside some_ with ⟨_,same⟩ | ⟨here,stays,moved⟩
    · exact kept (.inl (same ▸ at_))
    · have back := Option.some.inj (at_.symm.trans moved)
      have order := turns_unlink r.nodup inside (items ▸ stays)
      have same : turns s.items u = (turns r.items z).erase z := by
        rw [back]
        simp only [items]
        exact order
      rw [same]
      exact pair_erase (due z inside (.inl here)) left right
  · exact kept (.inr at_)

theorem Due.seek (due : r.Due (some z) y x) (moved : r.seek z = some s) : s.Due (some z) y x := by
  obtain ⟨inside,items,cursor⟩ := seek_parts moved
  intro u member at_
  have same : z = u := Option.some.inj (at_.elim (fun at_ => cursor.symm.trans at_) id)
  subst same
  rw [items]
  exact due z inside (.inr rfl)

theorem advance_cases (r : Rota α) : r.advance.1 = none ∧ r.advance.2 = r ∨ ∃ z,r.advance.1 = some z := by
  unfold advance
  split
  · exact .inl ⟨rfl,rfl⟩
  · exact .inr ⟨_,rfl⟩

theorem advance_turns (served : r.advance.1 = some z) :
    ∃ c rest,c ∈ r.items ∧ r.cursor = some c ∧ turns r.items c = z :: rest ∧ turns r.items z = rest ++ [z] ∧
      r.advance.2.cursor = some z := by
  unfold advance at served ⊢
  split at served
  · cases served
  · rename_i c at_
    have inside := r.member c at_
    have head := turns_head r.nodup inside
    cases order : turns r.items c with
    | nil => rw [order] at head; cases head
    | cons first rest =>
      rw [order] at head
      obtain rfl := Option.some.inj head
      cases served
      exact ⟨c,rest,inside,at_,order,turns_advance r.nodup inside order,rfl⟩

theorem due_served (served : r.advance.1 = some x) (inside : y ∈ r.items) (other : y ≠ x) : r.advance.2.Due (some x) y x := by
  obtain ⟨c,rest,_,_,order,after,cursor⟩ := advance_turns served
  have rest_ : y ∈ rest := by
    have member : y ∈ turns r.items c := mem_rotate.mpr inside
    rw [order] at member
    exact (mem_cons.mp member).resolve_left other
  intro u member at_
  have same : x = u := Option.some.inj (at_.elim (fun at_ => cursor.symm.trans at_) id)
  subst same
  rw [advance_items,after]
  exact List.Sublist.append (singleton_sublist.mpr rest_) (List.Sublist.refl [x])

theorem Due.advance (due : r.Due last y x) (served : r.advance.1 = some z) (other : z ≠ y) :
    z ≠ x ∧ r.advance.2.Due (some z) y x := by
  obtain ⟨c,rest,inside,at_,order,after,cursor⟩ := advance_turns served
  have pair := due c inside (.inl at_)
  rw [order] at pair
  have later : [y,x].Sublist rest := by
    cases pair with
    | cons _ later => exact later
    | cons_cons _ _ => exact absurd rfl other
  have member : x ∈ rest := later.subset (by simp)
  refine ⟨?_,fun u _ at_ => ?_⟩
  · rintro rfl
    have distinct := turns_nodup (u := c) r.nodup
    rw [order] at distinct
    exact (nodup_cons.mp distinct).1 member
  · have same : z = u := Option.some.inj (at_.elim (fun at_ => cursor.symm.trans at_) id)
    subst same
    rw [advance_items,after]
    exact later.trans (sublist_append_left rest [z])

omit [DecidableEq α] in
theorem pair_before {A B : List α} (distinct : (A ++ z :: B).Nodup) (pair : [y,z].Sublist (A ++ z :: B)) (other : y ≠ z) :
    y ∈ A := by
  have parts := nodup_append.mp distinct
  obtain ⟨front,back,whole,first,second⟩ := sublist_append_iff.mp pair
  cases front with
  | nil =>
    subst whole
    cases second with
    | cons _ later => exact absurd (later.subset (by simp)) (nodup_cons.mp parts.2.1).1
    | cons_cons _ _ => exact absurd rfl other
  | cons a rest =>
    obtain ⟨rfl,_⟩ := List.cons.inj whole
    exact first.subset (by simp)

omit [DecidableEq α] in
theorem pair_behind {A B : List α} (distinct : (A ++ z :: B).Nodup) (pair : [z,y].Sublist (A ++ z :: B)) (other : y ≠ z) :
    y ∈ B := by
  have parts := nodup_append.mp distinct
  obtain ⟨front,back,whole,first,second⟩ := sublist_append_iff.mp pair
  cases front with
  | nil =>
    subst whole
    exact (mem_cons.mp (second.subset (by simp : y ∈ [z,y]))).resolve_left other
  | cons a rest =>
    obtain ⟨rfl,_⟩ := List.cons.inj whole
    exact absurd rfl (parts.2.2 z (first.subset (by simp)) z (by simp))

omit [DecidableEq α] in
theorem pair_moved {A B A' B' : List α} (distinct : (A ++ z :: B).Nodup) (other : y ≠ z)
    (before : y ∈ A → y ∈ A') (behind : y ∈ B → y ∈ B') :
    ([y,z].Sublist (A ++ z :: B) → [y,z].Sublist (A' ++ z :: B')) ∧
      ([z,y].Sublist (A ++ z :: B) → [z,y].Sublist (A' ++ z :: B')) := by
  refine ⟨fun pair => ?_,fun pair => ?_⟩
  · have front := singleton_sublist.mpr (before (pair_before distinct pair other))
    exact List.Sublist.append front (by simp)
  · have back := singleton_sublist.mpr (behind (pair_behind distinct pair other))
    exact List.Sublist.append (nil_sublist A') (back.cons_cons z)

-- An entry that is unlinked and linked again at the end does not pass `y`: if it stands behind
-- the cursor, `y` is not among those it is moved past, and otherwise not among those it now
-- precedes. A cursor on the head would step back to the end of the list.
def spares (r : Rota α) (z y : α) : Bool :=
  match r.cursor with
  | none => true
  | some c =>
    if r.items.idxOf c < r.items.idxOf z then decide (r.items.idxOf y < r.items.idxOf z)
    else decide (r.items.idxOf z < r.items.idxOf y ∧ r.items.idxOf c ≠ 0)

theorem idxOf_split {l₁ l₂ : List α} (fresh : u ∉ l₁) : (l₁ ++ u :: l₂).idxOf u = l₁.length := by
  rw [idxOf_append_of_notMem fresh]
  simp

theorem idxOf_early {a b : List α} (early : y ∈ a) : (a ++ b).idxOf y < a.length := by
  rw [idxOf_append_of_mem early]
  exact idxOf_lt_length_of_mem early

theorem idxOf_late {a b : List α} (late : y ∉ a) : a.length ≤ (a ++ b).idxOf y := by
  rw [idxOf_append_of_notMem late]
  exact Nat.le_add_right _ _

theorem turns_last (distinct : l.Nodup) (inside : u ∈ l) : (turns l u).getLast? = some u := by
  obtain ⟨l₁,l₂,rfl,fresh,_⟩ := split_nodup distinct inside
  rw [turns_split fresh,← append_assoc,getLast?_concat]

theorem unlink_back {l₁ l₂ : List α} (unlinked : r.unlink z = some s) (split : r.items = (l₁ ++ [y]) ++ z :: l₂)
    (here : r.cursor = some z) : s.cursor = some y := by
  obtain ⟨inside,left⟩ := unlink_parts unlinked
  have distinct := r.nodup
  rw [split] at distinct
  have fresh : z ∉ l₁ ++ [y] := fun early => (nodup_append.mp distinct).2.2 z early z (by simp) rfl
  have absent : z ∉ l₂ := (nodup_cons.mp (nodup_append.mp distinct).2.1).1
  have items : s.items = (l₁ ++ [y]) ++ l₂ := by
    rw [left,split,erase_append_right _ fresh,erase_cons_head]
  have some_ : s.items ≠ [] := by simp [items]
  rcases unlink_cursor unlinked inside some_ with ⟨elsewhere,_⟩ | ⟨_,stays,back⟩
  · exact absurd here elsewhere
  · have order := turns_unlink r.nodup inside (left ▸ stays)
    have rest : (turns r.items z).erase z = l₂ ++ (l₁ ++ [y]) := by
      have gone : z ∉ l₂ ++ (l₁ ++ [y]) := fun member => (mem_append.mp member).elim absent fresh
      rw [split,turns_split fresh,← append_assoc,erase_append_right _ gone]
      simp
    have last_ := turns_last s.nodup (s.member _ back)
    have same : turns s.items (s.items.prev (r.items.next z inside) stays) = l₂ ++ (l₁ ++ [y]) := by
      simp only [left]
      exact order.trans rest
    rw [same,← append_assoc,getLast?_concat] at last_
    rw [back,last_]

-- Where `z` is in the order of the turns, before and after it is moved.
structure Moved (r s : Rota α) (z y : α) (A B A' B' : List α) : Prop where
  before : ∃ c ∈ r.items,r.cursor = some c ∧ turns r.items c = A ++ z :: B
  after : ∀ u,s.cursor = some u → turns s.items u = A' ++ z :: B'
  front : y ∈ A → y ∈ A'
  back : y ∈ B → y ∈ B'

theorem relinked_moved (unlinked : r.unlink z = some t) (linked : t.linkBack z = some s) (spared : r.spares z y = true)
    (inside : y ∈ r.items) (other : y ≠ z) : ∃ A B A' B',Moved r s z y A B A' B' := by
  obtain ⟨linked_,left⟩ := unlink_parts unlinked
  have joined := (linkBack_parts linked).2
  have some_ := ne_nil_of_mem (left ▸ (mem_erase_of_ne other).mpr inside : y ∈ t.items)
  obtain ⟨c,here⟩ := Option.ne_none_iff_exists'.mp fun none => ne_nil_of_mem inside (r.placed none)
  have kept : c ≠ z → s.cursor = some c := by
    intro apart
    rw [linkBack_cursor linked some_]
    rcases unlink_cursor unlinked linked_ some_ with ⟨_,same⟩ | ⟨gone,_⟩
    · exact same.trans here
    · exact absurd (Option.some.inj (here.symm.trans gone)) apart
  have member := r.member c here
  have distinct := r.nodup
  obtain ⟨l₁,l₂,split,early,late⟩ := split_nodup r.nodup linked_
  simp only [spares,here,split,idxOf_split early] at spared
  rw [split] at inside distinct member
  have items : s.items = (l₁ ++ l₂) ++ [z] := by
    rw [joined,left,split,erase_append_right _ early,erase_cons_head]
  have parts := nodup_append.mp distinct
  rcases mem_append.mp member with front | behind
  · -- The cursor stands in front of `z`, and so does `y`.
    rw [if_pos (idxOf_early front)] at spared
    have before : y ∈ l₁ := Decidable.byContradiction fun after => by
      have := idxOf_late (b := z :: l₂) after
      have := of_decide_eq_true spared
      omega
    have cursor := kept fun same => early (same ▸ front)
    obtain ⟨m₁,m₂,rfl,fresh,_⟩ := split_nodup parts.1 front
    have old : r.items = m₁ ++ c :: (m₂ ++ z :: l₂) := by simp [split]
    have new : s.items = m₁ ++ c :: (m₂ ++ l₂ ++ [z]) := by simp [items]
    refine ⟨m₂,l₂ ++ (m₁ ++ [c]),m₂ ++ l₂,m₁ ++ [c],⟨c,by simp [old],here,?_⟩,?_,?_,?_⟩
    · rw [old,turns_split fresh]; simp
    · intro u at_
      obtain rfl := Option.some.inj (cursor.symm.trans at_)
      rw [new,turns_split fresh]; simp
    · exact mem_append_left l₂
    · intro second
      refine (mem_append.mp second).resolve_left fun last_ => ?_
      exact parts.2.2 y before y (by simp [last_]) rfl
  · have absent : c ∉ l₁ := fun front => parts.2.2 c front c behind rfl
    have order : ¬(l₁ ++ z :: l₂).idxOf c < l₁.length := Nat.not_lt.mpr (idxOf_late absent)
    rw [if_neg order] at spared
    obtain ⟨after,offHead⟩ := of_decide_eq_true spared
    have last_ : y ∈ l₂ := by
      rcases mem_append.mp inside with first | second
      · have := idxOf_early (b := z :: l₂) first
        omega
      · exact (mem_cons.mp second).resolve_left other
    rcases mem_cons.mp behind with rfl | back
    · -- The cursor is on `z` and steps back to the entry in front of it.
      rcases eq_nil_or_concat l₁ with rfl | ⟨m,q,rfl⟩
      · simp at offHead
      · rw [concat_eq_append] at split items early
        have fresh : q ∉ m := fun first => by
          have nodup := (nodup_append.mp (concat_eq_append ▸ parts.1)).2.2
          exact nodup q first q (by simp) rfl
        have cursor := (linkBack_cursor linked some_).trans (unlink_back unlinked split here)
        have new : s.items = m ++ q :: (l₂ ++ [c]) := by simp [items]
        refine ⟨l₂ ++ (m ++ [q]),[],l₂,m ++ [q],⟨c,by simp [split],here,?_⟩,?_,fun _ => last_,fun none => by cases none⟩
        · rw [split,turns_split early]; simp
        · intro u at_
          obtain rfl := Option.some.inj (cursor.symm.trans at_)
          rw [new,turns_split fresh]; simp
    · -- The cursor stands behind `z`, and so does `y`.
      have cursor := kept fun same => late (same ▸ back)
      obtain ⟨m₁,m₂,rfl,fresh,_⟩ := split_nodup (nodup_cons.mp parts.2.1).2 back
      have old : r.items = (l₁ ++ z :: m₁) ++ c :: m₂ := by simp [split]
      have new : s.items = (l₁ ++ m₁) ++ c :: (m₂ ++ [z]) := by simp [items]
      have apart : c ≠ z := fun same => late (same ▸ back)
      refine ⟨m₂ ++ l₁,m₁ ++ [c],m₂,l₁ ++ (m₁ ++ [c]),⟨c,by simp [old],here,?_⟩,?_,?_,?_⟩
      · rw [old,turns_split (by simp [absent,fresh,apart])]; simp
      · intro u at_
        obtain rfl := Option.some.inj (cursor.symm.trans at_)
        rw [new,turns_split (by simp [absent,fresh])]; simp
      · intro first
        refine (mem_append.mp first).resolve_right fun early => ?_
        exact parts.2.2 y early y (by simp [last_]) rfl
      · exact mem_append_right l₁

theorem Due.relink (due : r.Due last y x) (unlinked : r.unlink z = some t) (linked : t.linkBack z = some s)
    (spared : z = x ∧ r.spares z y = true ∨ z = y ∧ r.spares z x = true) (left : x ∈ r.items) (right : y ∈ r.items)
    (apart : x ≠ y) : s.Due none y x := by
  intro u _ at_
  have at_ : s.cursor = some u := at_.resolve_right (by simp)
  rcases spared with ⟨rfl,spared⟩ | ⟨rfl,spared⟩
  · obtain ⟨A,B,A',B',⟨c,inside,here,order⟩,after,front,back⟩ := relinked_moved unlinked linked spared right apart.symm
    have distinct := turns_nodup (u := c) r.nodup
    have pair := due c inside (.inl here)
    rw [order] at distinct pair
    rw [after u at_]
    exact (pair_moved distinct apart.symm front back).1 pair
  · obtain ⟨A,B,A',B',⟨c,inside,here,order⟩,after,front,back⟩ := relinked_moved unlinked linked spared left apart
    have distinct := turns_nodup (u := c) r.nodup
    have pair := due c inside (.inl here)
    rw [order] at distinct pair
    rw [after u at_]
    exact (pair_moved distinct apart front back).2 pair

-- Several rotas, and two entries of one of them. `log` has the served entries, the newest
-- first; `last` is the newest while it stays linked.
section
variable {ι : Type} [DecidableEq ι] {f : ι → Rota α} {p q : ι} {a b : α} {log : List α}

def Apart (f : ι → Rota α) : Prop := ∀ q q' x,x ∈ (f q).items → x ∈ (f q').items → q = q'

def seen (a b : α) (log : List α) : List α := log.filter fun i => decide (i = a ∨ i = b)

structure Turn (f : ι → Rota α) (p : ι) (a b : α) (last : Option α) (log : List α) : Prop where
  left : a ∈ (f p).items
  right : b ∈ (f p).items
  alternates : (seen a b log).IsChain (· ≠ ·)
  due : ∀ x y,x = a ∧ y = b ∨ x = b ∧ y = a → (seen a b log).head? = some x → (f p).Due last y x
  linked : log ≠ [] → ∀ t,last = some t → ∃ q,t ∈ (f q).items

omit [DecidableEq ι] in
theorem seen_some (some_ : (seen a b log).head? = some x) : log ≠ [] := by
  rintro rfl
  cases some_

omit [DecidableEq ι] in
theorem Turn.start (left : a ∈ (f p).items) (right : b ∈ (f p).items) : Turn f p a b last [] :=
  ⟨left,right,List.IsChain.nil,fun _ _ _ none => (by cases none),fun none => absurd rfl none⟩

omit [DecidableEq ι] in
theorem Turn.relast (turn : Turn f p a b last log) (weaker : ∀ u,last' = some u → last = some u) : Turn f p a b last' log :=
  ⟨turn.left,turn.right,turn.alternates,fun x y pair newest => (turn.due x y pair newest).relast fun u _ => weaker u,
    fun some_ t at_ => turn.linked some_ t (weaker t at_)⟩

omit [DecidableEq α] in
theorem mem_update (kept : ∀ x ∈ (f q).items,x ∈ r.items) (inside : x ∈ (f q').items) :
    x ∈ (update f q r q').items := by
  by_cases at_ : q' = q
  · subst at_
    rw [update_self]
    exact kept x inside
  · rwa [update_of_ne at_]

theorem Turn.joins (turn : Turn f p a b last log) (linked : (f q).linkBack z = some r ∨ (f q).append z = some r)
    (fresh : ∀ q,z ∉ (f q).items) : Turn (update f q r) p a b last log := by
  have items : r.items = (f q).items ++ [z] :=
    linked.elim (fun back => (linkBack_parts back).2) fun back => (append_parts back).2
  have kept : ∀ {q' x},x ∈ (f q').items → x ∈ (update f q r q').items :=
    mem_update fun x inside => by rw [items]; exact mem_append_left _ inside
  refine ⟨kept turn.left,kept turn.right,turn.alternates,fun x y pair newest => ?_,fun some_ t at_ => ?_⟩
  · have due := turn.due x y pair newest
    have inside : y ∈ (f p).items := by
      rcases pair with ⟨_,rfl⟩ | ⟨_,rfl⟩
      · exact turn.right
      · exact turn.left
    by_cases at_ : p = q
    · subst at_
      rw [update_self]
      refine due.joins linked inside fun same => ?_
      obtain ⟨q',member⟩ := turn.linked (seen_some newest) z same
      exact fresh q' member
    · rwa [update_of_ne at_]
  · obtain ⟨q',member⟩ := turn.linked some_ t at_
    exact ⟨q',kept member⟩

theorem Turn.unlinks (turn : Turn f p a b last log) (unlinked : (f q).unlink z = some r) (left : z ≠ a) (right : z ≠ b)
    (gone : last' ≠ some z) (stays : ∀ u,last' = some u → last = some u) :
    Turn (update f q r) p a b last' log := by
  have items := (unlink_parts unlinked).2
  have kept : ∀ {q' x},x ≠ z → x ∈ (f q').items → x ∈ (update f q r q').items := by
    intro q' x other inside
    by_cases at_ : q' = q
    · subst at_
      rw [update_self,items]
      exact (mem_erase_of_ne other).mpr inside
    · rwa [update_of_ne at_]
  refine ⟨kept left.symm turn.left,kept right.symm turn.right,turn.alternates,fun x y pair newest => ?_,
    fun some_ t at_ => ?_⟩
  · have due : (f p).Due last' y x := (turn.due x y pair newest).relast fun u _ at_ => stays u at_
    by_cases at_ : p = q
    · subst at_
      rw [update_self]
      rcases pair with ⟨rfl,rfl⟩ | ⟨rfl,rfl⟩
      · exact due.unlink unlinked right left
      · exact due.unlink unlinked left right
    · rwa [update_of_ne at_]
  · obtain ⟨q',member⟩ := turn.linked some_ t (stays t at_)
    exact ⟨q',kept (fun same => gone (same ▸ at_)) member⟩

theorem Turn.seeks (turn : Turn f p a b (some z) log) (moved : (f q).seek z = some r) :
    Turn (update f q r) p a b (some z) log := by
  have items := (seek_parts moved).2.1
  have kept : ∀ {q' x},x ∈ (f q').items → x ∈ (update f q r q').items :=
    mem_update fun x inside => by rwa [items]
  refine ⟨kept turn.left,kept turn.right,turn.alternates,fun x y pair newest => ?_,fun some_ t at_ => ?_⟩
  · have due := turn.due x y pair newest
    by_cases at_ : p = q
    · subst at_
      rw [update_self]
      exact due.seek moved
    · rwa [update_of_ne at_]
  · obtain ⟨q',member⟩ := turn.linked some_ t at_
    exact ⟨q',kept member⟩

theorem Turn.serves (turn : Turn f p a b last log) (separate : Apart f) (apart : a ≠ b)
    (served : (f q).advance.1 = some z) : Turn (update f q (f q).advance.2) p a b (some z) (z :: log) := by
  have member : z ∈ (f q).items := advance_mem served
  have kept : ∀ {q' x},x ∈ (f q').items → x ∈ (update f q (f q).advance.2 q').items :=
    mem_update fun x inside => by rwa [advance_items]
  have linked : ∀ t,some z = some t → ∃ q',t ∈ (update f q (f q).advance.2 q').items := by
    rintro t ⟨⟩
    exact ⟨q,kept member⟩
  by_cases here : q = p
  · subst here
    have after : update f q (f q).advance.2 q = (f q).advance.2 := update_self ..
    by_cases one : z = a ∨ z = b
    · have newer : seen a b (z :: log) = z :: seen a b log := filter_cons_of_pos (decide_eq_true one)
      refine ⟨kept turn.left,kept turn.right,?_,fun x y pair newest => ?_,fun _ => linked⟩
      · rw [newer]
        refine isChain_cons.mpr ⟨fun x newest same => ?_,turn.alternates⟩
        subst same
        rcases one with rfl | rfl
        · exact ((turn.due z b (.inl ⟨rfl,rfl⟩) newest).advance served apart).1 rfl
        · exact ((turn.due z a (.inr ⟨rfl,rfl⟩) newest).advance served apart.symm).1 rfl
      · rw [newer] at newest
        obtain rfl := Option.some.inj newest
        rw [after]
        rcases pair with ⟨rfl,rfl⟩ | ⟨rfl,rfl⟩
        · exact due_served served turn.right apart.symm
        · exact due_served served turn.left apart
    · have same : seen a b (z :: log) = seen a b log := filter_cons_of_neg (by simpa using one)
      refine ⟨kept turn.left,kept turn.right,by rw [same]; exact turn.alternates,fun x y pair newest => ?_,fun _ => linked⟩
      rw [same] at newest
      rw [after]
      refine ((turn.due x y pair newest).advance served fun here => one ?_).2
      rcases pair with ⟨_,rfl⟩ | ⟨_,rfl⟩
      · exact .inr here
      · exact .inl here
  · have other : ∀ x ∈ (f p).items,z ≠ x := by
      rintro x inside rfl
      exact here (separate q p z member inside)
    have same : seen a b (z :: log) = seen a b log := by
      refine filter_cons_of_neg ?_
      simp [other a turn.left,other b turn.right]
    refine ⟨kept turn.left,kept turn.right,by rw [same]; exact turn.alternates,fun x y pair newest => ?_,fun _ => linked⟩
    rw [same] at newest
    rw [update_of_ne (Ne.symm here)]
    exact (turn.due x y pair newest).relast fun u inside at_ => absurd (Option.some.inj at_) (other u inside)

theorem Turn.relinks (turn : Turn f p a b none log) (apart : a ≠ b) (unlinked : (f q).unlink z = some r)
    (linked : r.linkBack z = some s) (spared : z = a ∨ z = b → ((f p).spares z (if z = a then b else a)) = true) :
    Turn (update f q s) p a b none log := by
  have joined := (linkBack_parts linked).2
  have left := (unlink_parts unlinked).2
  have kept : ∀ {q' x},x ∈ (f q').items → x ∈ (update f q s q').items := by
    refine mem_update fun x inside => ?_
    rw [joined,left]
    by_cases at_ : x = z
    · simp [at_]
    · exact mem_append_left _ ((mem_erase_of_ne at_).mpr inside)
  refine ⟨kept turn.left,kept turn.right,turn.alternates,fun x y pair newest => ?_,fun _ t none => (by cases none)⟩
  have due := turn.due x y pair newest
  by_cases here : p = q
  · subst here
    rw [update_self]
    have inside : x ∈ (f p).items ∧ y ∈ (f p).items ∧ x ≠ y := by
      rcases pair with ⟨rfl,rfl⟩ | ⟨rfl,rfl⟩
      · exact ⟨turn.left,turn.right,apart⟩
      · exact ⟨turn.right,turn.left,apart.symm⟩
    by_cases one : z = x
    · refine due.relink unlinked linked (.inl ⟨one,?_⟩) inside.1 inside.2.1 inside.2.2
      rcases pair with ⟨rfl,rfl⟩ | ⟨rfl,rfl⟩
      · simpa [one] using spared (.inl one)
      · simpa [one,apart.symm] using spared (.inr one)
    · by_cases two : z = y
      · refine due.relink unlinked linked (.inr ⟨two,?_⟩) inside.1 inside.2.1 inside.2.2
        rcases pair with ⟨rfl,rfl⟩ | ⟨rfl,rfl⟩
        · simpa [two,apart.symm] using spared (.inr two)
        · simpa [two] using spared (.inl two)
      · refine (due.unlink unlinked two one).joins (.inl linked) ?_ (by simp)
        rw [left]
        exact (mem_erase_of_ne (Ne.symm two)).mpr inside.2.1
  · rwa [update_of_ne here]

end

end Rota
