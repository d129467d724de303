import SuperTinyKernel.Library.RotaOrder
import SuperTinyKernel.Strategies.Thresholds

namespace SuperTinyKernel.PreemptionThreshold

open Function List

-- With TIMESLICE the cursor of a level stays on the running task, and a rotation is requested
-- by a bit in m_advance_bitmap.

variable {n P : Nat} {B : IndexSet P} {s t u : State n B} {v v' : Views n} {i j h : Fin n} {p q : Fin P} {b : Bool}

namespace State

def cursor (s : State n B) (p : Fin P) : Option (Fin n) := (s.levels.lists p).cursor
def rotates (s : State n B) (p : Fin P) : Bool := B.isSet s.advanceBitmap p

theorem cursor_linked (at_ : s.cursor p = some i) : i ∈ s.levels.items p := (s.levels.lists p).member i at_

end State

-- No threshold of another task keeps level `p` from being served.
def Clear (v : Views n) (s : State n B) (p : Fin P) (i : Fin n) : Prop :=
  ∀ q h,s.held q = some h → h ≠ i → getTaskThreshold v h < p ∨ p < q

-- Level `p` is at task `i`: next is its successor if the level rotates, and the task itself
-- otherwise.
structure Stands (v : Views n) (s : State n B) (p : Fin P) (i : Fin n) (rotates : Bool) : Prop where
  cursor : s.cursor p = some i
  rotates : s.rotates p = rotates
  clear : Clear v s p i

structure Poised (v : Views n) (s : State n B) : Prop where
  inv : (lists n B true).Inv v.weights s
  holds : ∀ p h,s.held p = some h → Stands v s p h false

def SameBands (v v' : Views n) (s : State n B) : Prop :=
  ∀ q h,s.held q = some h → getTaskThreshold v' h = getTaskThreshold v h

theorem Poised.valid (poised : Poised v s) : Valid s := poised.inv.valid

theorem Poised.prio (poised : Poised v s) (linked : i ∈ s.levels.items p) : decodePriority (v i).weight = p :=
  level_some (poised.inv.filed p i linked)

theorem Poised.least (poised : Poised v s) (linked : i ∈ s.levels.items p) : p ≤ getTaskThreshold v i := by
  have least := threshold_ge v i
  rw [poised.prio linked] at least
  exact least

theorem Poised.alone (poised : Poised v s) (clear : Clear v s p i) (held : s.held p = some h) : h = i := by
  by_contra other
  have least := poised.least (poised.valid.linked p h held)
  rcases clear p h held other with low | high
  · omega
  · exact absurd high (lt_irrefl p)

-- A call about task `j` that moves no cursor: the levels stay at their tasks, and only `j`
-- loses a hold.
structure Beside (j : Fin n) (s t : State n B) : Prop where
  held : ∀ q h,t.held q = some h → s.held q = some h ∧ h ≠ j
  stays : ∀ q h,h ≠ j → s.cursor q = some h → t.cursor q = some h ∧ t.rotates q = s.rotates q

theorem Beside.trans (left : Beside j s t) (right : Beside j t u) : Beside j s u := by
  refine ⟨fun q h holds => left.held q h (right.held q h holds).1,fun q h other at_ => ?_⟩
  obtain ⟨at_,kept⟩ := left.stays q h other at_
  obtain ⟨at_,kept'⟩ := right.stays q h other at_
  exact ⟨at_,kept'.trans kept⟩

theorem Clear.narrow (clear : Clear v s p i) (bands : SameBands v v' t)
    (fewer : ∀ q h,t.held q = some h → s.held q = some h) : Clear v' t p i := by
  intro q h holds other
  rw [bands q h holds]
  exact clear q h (fewer q h holds) other

theorem Stands.beside (stands : Stands v s p i b) (bands : SameBands v v' t) (beside : Beside j s t) (other : i ≠ j) :
    Stands v' t p i b := by
  obtain ⟨at_,kept⟩ := beside.stays p i other stands.cursor
  exact ⟨at_,kept.trans stands.rotates,stands.clear.narrow bands fun q h holds => (beside.held q h holds).1⟩

theorem Stands.same (stands : Stands v s p i b) (bands : SameBands v v' s) : Stands v' s p i b :=
  ⟨stands.cursor,stands.rotates,stands.clear.narrow bands fun _ _ holds => holds⟩

theorem Poised.beside (poised : Poised v s) (bands : SameBands v v' t) (beside : Beside j s t)
    (inv : (lists n B true).Inv v'.weights t) : Poised v' t := by
  refine ⟨inv,fun p h holds => ?_⟩
  obtain ⟨before,other⟩ := beside.held p h holds
  exact (poised.holds p h before).beside bands beside other

theorem Poised.same (poised : Poised v s) (bands : SameBands v v' s) (inv : (lists n B true).Inv v'.weights s) : Poised v' s :=
  ⟨inv,fun p h holds => (poised.holds p h holds).same bands⟩

theorem addActive_beside (valid : Valid s) (added : addActive v j s = some t) : Beside j s t := by
  obtain ⟨p,_,added⟩ := of_bind added
  obtain ⟨levels,linked,rfl⟩ := of_return added
  have fresh := (Levels.linkBack_parts linked).1
  obtain ⟨r,back,relinked⟩ := of_bind linked
  refine ⟨fun q h holds => ⟨holds,?_⟩,fun q h _ at_ => ⟨?_,rfl⟩⟩
  · rintro rfl
    exact fresh q (valid.linked q h holds)
  · show (levels.lists q).cursor = some h
    rw [Levels.relink_lists relinked,update_apply]
    split
    · subst q
      have some_ : (s.levels.lists p).items ≠ [] := ne_nil_of_mem (State.cursor_linked at_)
      rw [Rota.linkBack_cursor back some_]
      exact at_
    · exact at_

theorem removeActive_beside (valid : Valid s) (removed : removeActive true j p s = some t) : Beside j s t := by
  obtain ⟨holds,_⟩ := removeActive_holds valid removed
  obtain ⟨levels,unlinked,rfl⟩ := of_return removed
  refine ⟨fun q h held => (holds q h).mp held,fun q h other at_ => ?_⟩
  obtain ⟨linked,items⟩ := Levels.unlink_parts unlinked
  obtain ⟨r,left,relinked⟩ := of_bind unlinked
  have lists := Levels.relink_lists relinked
  by_cases here : q = p
  · subst q
    have stays : h ∈ levels.items p := by
      rw [items,update_self]
      exact (mem_erase_of_ne other).mpr (State.cursor_linked at_)
    have here : levels.lists p = r := by rw [lists,update_self]
    have some_ : r.items ≠ [] := by
      rw [← here]
      exact ne_nil_of_mem stays
    have apart : (s.levels.lists p).cursor ≠ some j := fun there => other (Option.some.inj (at_.symm.trans there))
    refine ⟨?_,?_⟩
    · show (levels.lists p).cursor = some h
      rw [here]
      rcases Rota.unlink_cursor left linked some_ with ⟨_,same⟩ | ⟨there,_⟩
      · rw [same]
        exact at_
      · exact absurd there apart
    · show B.isSet (if levels.items p = [] then B.clear s.advanceBitmap p
        else if (s.levels.lists p).cursor = some j then B.set s.advanceBitmap p else s.advanceBitmap) p = _
      rw [if_neg (ne_nil_of_mem stays),if_neg apart]
      rfl
  · refine ⟨?_,?_⟩
    · show (levels.lists q).cursor = some h
      rw [lists,update_of_ne here]
      exact at_
    · show B.isSet (if levels.items p = [] then B.clear s.advanceBitmap p
        else if (s.levels.lists p).cursor = some j then B.set s.advanceBitmap p else s.advanceBitmap) q = _
      split
      · rw [B.isSet_clear,decide_eq_false here]
        rfl
      · split
        · rw [B.isSet_set,decide_eq_false here]
          rfl
        · rfl

theorem addTask_beside (valid : Valid s) (added : addTask true v j s = some t) : Beside j s t := addActive_beside valid added

theorem onTaskSleep_beside (valid : Valid s) (slept : onTaskSleep true v j s = some t) : Beside j s t := by
  obtain ⟨p,_,slept⟩ := of_bind slept
  obtain ⟨u,removed,slept⟩ := of_bind slept
  obtain ⟨sleep,_,rfl⟩ := of_return slept
  have beside := removeActive_beside valid removed
  exact ⟨beside.held,beside.stays⟩

theorem onTaskWake_beside (valid : Valid s) (woken : onTaskWake v j s = some t) : Beside j s t := by
  obtain ⟨sleep,_,woken⟩ := of_bind woken
  have beside := addActive_beside (s := {s with sleep := sleep}) (valid.same rfl rfl rfl) woken
  exact ⟨beside.held,beside.stays⟩

theorem removeTask_beside (inv : (lists n B true).Inv w s) (removed : removeTask true v j s = some t) : Beside j s t := by
  unfold removeTask at removed
  split at removed
  · rename_i asleep
    obtain ⟨sleep,_,rfl⟩ := of_return removed
    refine ⟨fun q h holds => ⟨holds,?_⟩,fun q h _ at_ => ⟨at_,rfl⟩⟩
    rintro rfl
    exact inv.apart h asleep q (Valid.linked inv.valid q h holds)
  · obtain ⟨p,_,removed⟩ := of_bind removed
    exact removeActive_beside inv.valid removed

theorem seek_cursor {levels : Levels (Fin n) B} (moved : s.levels.seek i p = some levels) :
    levels.items = s.levels.items ∧ (levels.lists p).cursor = some i ∧
      ∀ q,q ≠ p → (levels.lists q).cursor = s.cursor q := by
  have items := (Levels.seek_parts moved).2
  obtain ⟨r,found,relinked⟩ := of_bind moved
  have lists := Levels.relink_lists relinked
  refine ⟨items,?_,fun q elsewhere => ?_⟩
  · rw [lists,update_self]
    exact (Rota.seek_parts found).2.2
  · rw [lists,update_of_ne elsewhere]
    rfl

structure Turned (p : Fin P) (i : Fin n) (s t : State n B) : Prop where
  items : t.levels.items = s.levels.items
  cursor : t.cursor p = some i
  rotates : t.rotates p = true
  others : ∀ q,q ≠ p → t.cursor q = s.cursor q ∧ t.rotates q = s.rotates q
  held : ∀ q h,t.held q = some h → s.held q = some h
  free : t.held p ≠ some i

theorem turned {levels : Levels (Fin n) B} (moved : s.levels.seek i p = some levels) (same : t.levels = levels)
    (rotation : t.advanceBitmap = B.set s.advanceBitmap p) (held : ∀ q h,t.held q = some h → s.held q = some h)
    (free : t.held p ≠ some i) : Turned p i s t := by
  obtain ⟨items,here,others⟩ := seek_cursor moved
  refine ⟨by rw [same,items],?_,?_,fun q elsewhere => ⟨?_,?_⟩,held,free⟩
  · rw [State.cursor,same]
    exact here
  · rw [State.rotates,rotation,B.isSet_set,decide_eq_true rfl]
    rfl
  · rw [State.cursor,same]
    exact others q elsewhere
  · rw [State.rotates,rotation,B.isSet_set,decide_eq_false elsewhere]
    rfl

theorem onTaskYield_turned (valid : Valid s) (called : onTaskYield true v i s = some (handled,t)) :
    t = s ∨ ∃ p,level P (v i).weight = some p ∧ i ∈ s.levels.items p ∧ Turned p i s t := by
  unfold onTaskYield at called
  split at called
  · cases called
    exact .inl rfl
  · rename_i p here
    split at called
    · rename_i linked
      obtain ⟨levels,moved,same⟩ := of_bind called
      cases same
      have held := fun q h => releaseOf_held (q := q) (j := h) valid linked
      exact .inr ⟨p,here,linked,turned moved rfl rfl (fun q h holds => ((held q h).mp holds).1)
        fun holds => ((held p i).mp holds).2 rfl⟩
    · cases called
      exact .inl rfl

def sliceable (v : Views n) (s : State n B) (i : Fin n) : Bool :=
  (level P (v i).weight).any fun p => decide (i ∈ s.levels.items p ∧ s.held p ≠ some i ∧ (s.levels.items p).length > 1)

theorem onTaskTimeSlice_turned (called : onTaskTimeSlice true v i s = some (rotated,t)) :
    t = s ∧ sliceable v s i = false ∨
      sliceable v s i = true ∧ ∃ p,level P (v i).weight = some p ∧ i ∈ s.levels.items p ∧ Turned p i s t := by
  unfold onTaskTimeSlice at called
  unfold sliceable
  split at called
  · rename_i nowhere
    cases called
    exact .inl ⟨rfl,by rw [nowhere]; rfl⟩
  · rename_i p here
    rw [here,Option.any_some]
    split at called
    · rename_i eligible
      obtain ⟨levels,moved,same⟩ := of_bind called
      cases same
      exact .inr ⟨decide_eq_true eligible.2,p,rfl,eligible.2.1,turned moved rfl rfl (fun _ _ holds => holds) eligible.2.2.1⟩
    · rename_i barred
      cases called
      exact .inl ⟨rfl,decide_eq_false fun eligible => barred ⟨rfl,eligible⟩⟩

theorem Turned.stands (turned : Turned p i s t) (clear : Clear v s p i) : Stands v t p i true :=
  ⟨turned.cursor,turned.rotates,clear.narrow (fun _ _ _ => rfl) turned.held⟩

theorem Turned.others_stand (turned : Turned p i s t) (stands : Stands v s q j b) (other : q ≠ p) : Stands v t q j b := by
  obtain ⟨cursor,rotates⟩ := turned.others q other
  exact ⟨cursor.trans stands.cursor,rotates.trans stands.rotates,stands.clear.narrow (fun _ _ _ => rfl) turned.held⟩

theorem Turned.poised (turned : Turned p i s t) (poised : Poised v s) (clear : Clear v s p i)
    (inv : (lists n B true).Inv v.weights t) : Poised v t := by
  refine ⟨inv,fun q h holds => ?_⟩
  have before := turned.held q h holds
  by_cases here : q = p
  · subst q
    obtain rfl := poised.alone clear before
    exact absurd holds turned.free
  · exact turned.others_stand (poised.holds q h before) here

-- Task `j` of level `q` is returned. A level is passed over for a higher one, or served in its
-- order.
structure Chosen (v : Views n) (s t : State n B) (q : Fin P) (j : Fin n) : Prop where
  items : t.levels.items = s.levels.items
  linked : j ∈ s.levels.items q
  stands : Stands v t q j false
  served : ∀ p i b,Stands v s p i b → p < q ∧ Stands v t p i b ∨
    p = q ∧ (b = false ∧ j = i ∨ b = true ∧ ∃ inside,j = (s.levels.items p).next i inside)

theorem takeNext_taken (taken : takeNext true p s = some (j,t)) : ∃ h,s.cursor p = some h ∧
    (s.rotates p = false ∧ j = h ∨ s.rotates p = true ∧ ∃ inside,j = (s.levels.items p).next h inside) ∧
    t.cursor p = some j ∧ t.rotates p = false ∧ (∀ q,q ≠ p → t.cursor q = s.cursor q ∧ t.rotates q = s.rotates q) := by
  have cleared : ∀ q,B.isSet (B.clear s.advanceBitmap p) q = (!decide (q = p) && s.rotates q) := fun q => B.isSet_clear
  have here : B.isSet (B.clear s.advanceBitmap p) p = false := by rw [cleared,decide_eq_true rfl]; rfl
  have there : ∀ q,q ≠ p → B.isSet (B.clear s.advanceBitmap p) q = s.rotates q := fun q elsewhere => by
    rw [cleared,decide_eq_false elsewhere]; rfl
  unfold takeNext at taken
  dsimp only at taken
  rw [Bool.not_true,Bool.false_or] at taken
  split at taken
  · rename_i rotates
    obtain ⟨⟨next,levels⟩,served,same⟩ := of_bind taken
    cases same
    obtain ⟨first,advanced,served⟩ := of_bind served
    obtain ⟨moved,relinked,same⟩ := of_bind served
    obtain ⟨rfl,rfl⟩ := Prod.mk.inj (Option.some.inj same)
    have lists := Levels.relink_lists relinked
    obtain ⟨h,inside,at_,same,cursor⟩ := Rota.advance_next advanced
    refine ⟨h,at_,.inr ⟨rotates,inside,same⟩,?_,here,fun q elsewhere => ⟨?_,there q elsewhere⟩⟩
    · show (moved.lists p).cursor = some first
      rw [lists,update_self]
      exact cursor
    · show (moved.lists q).cursor = s.cursor q
      rw [lists,update_of_ne elsewhere]
      rfl
  · rename_i stays
    obtain ⟨next,at_,same⟩ := of_bind taken
    cases same
    exact ⟨j,at_,.inl ⟨eq_false_of_ne_true stays,rfl⟩,at_,here,fun q elsewhere => ⟨rfl,there q elsewhere⟩⟩

theorem Poised.resumes (poised : Poised v s) (holds : Holds s q j) (top : Top s hi) (within : hi ≤ getTaskThreshold v j) :
    Chosen v s {s with running := some j} q j := by
  have stands := poised.holds q j holds.1
  refine ⟨rfl,poised.valid.linked q j holds.1,⟨stands.cursor,stands.rotates,stands.clear⟩,fun p i b before => ?_⟩
  have linked := State.cursor_linked before.cursor
  by_cases own : j = i
  · subst own
    obtain rfl := s.levels.items_apart linked (poised.valid.linked q j holds.1)
    exact .inr ⟨rfl,.inl ⟨before.rotates.symm.trans stands.rotates,rfl⟩⟩
  · have below : p ≤ hi := top.2 p (ne_nil_of_mem linked)
    rcases before.clear q j holds.1 own with low | high
    · omega
    · exact .inl ⟨high,⟨before.cursor,before.rotates,before.clear⟩⟩

theorem Poised.above (poised : Poised v s) (above : ∀ p j,Holds s p j → getTaskThreshold v j < hi)
    (held : s.held p = some i) : p < hi ∧ getTaskThreshold v i < hi := by
  obtain ⟨q,j,_,highest⟩ := holder_highest poised.valid held
  have over_ := above q j highest
  have least := poised.least (poised.valid.linked q j highest.1)
  have own := poised.least (poised.valid.linked p i held)
  by_cases same : i = j
  · subst same
    omega
  · rcases (poised.holds q j highest.1).clear p i held same with low | high
    · omega
    · exact absurd (highest.2 p i held) (not_le.mpr high)

theorem Poised.serves (poised : Poised v s) (top : Top s hi) (above : ∀ p j,Holds s p j → getTaskThreshold v j < hi)
    (taken : takeNext true hi s = some (j,u)) {t : State n B} (items : t.levels = u.levels) (bits : t.advanceBitmap = u.advanceBitmap)
    (held : ∀ q h,t.held q = some h → q = hi ∧ h = j ∨ s.held q = some h) : Chosen v s t hi j := by
  obtain ⟨_,_,listed,linked⟩ := takeNext_parts poised.valid taken
  obtain ⟨h,at_,next,cursor,still,others⟩ := takeNext_taken taken
  have clear : ∀ p i,p < hi → Clear v s p i → Clear v t p i := by
    intro p i below clear q k holds other
    rcases held q k holds with ⟨rfl,_⟩ | before
    · exact .inr below
    · exact clear q k before other
  refine ⟨by rw [items,listed],linked,⟨?_,?_,?_⟩,fun p i b before => ?_⟩
  · rw [State.cursor,items]
    exact cursor
  · rw [State.rotates,bits]
    exact still
  · intro q k holds other
    rcases held q k holds with ⟨_,same⟩ | before
    · exact absurd same other
    · exact .inl (poised.above above before).2
  · have linked := State.cursor_linked before.cursor
    rcases Fin.lt_or_eq_of_le (top.2 p (ne_nil_of_mem linked)) with below | rfl
    · obtain ⟨same,kept⟩ := others p (Fin.ne_of_lt below)
      refine .inl ⟨below,?_,?_,clear p i below before.clear⟩
      · rw [State.cursor,items]
        exact same.trans before.cursor
      · rw [State.rotates,bits]
        exact kept.trans before.rotates
    · obtain rfl := Option.some.inj (at_.symm.trans before.cursor)
      refine .inr ⟨rfl,?_⟩
      rw [before.rotates] at next
      exact next

theorem Chosen.poised (chosen : Chosen v s t q j) (poised : Poised v s) (inv : (lists n B true).Inv v.weights t)
    (held : ∀ p h,t.held p = some h → p = q ∧ h = j ∨ s.held p = some h) : Poised v t := by
  refine ⟨inv,fun p h holds => ?_⟩
  rcases held p h holds with ⟨rfl,rfl⟩ | before
  · exact chosen.stands
  · have stands := poised.holds p h before
    rcases chosen.served p h false stands with ⟨_,kept⟩ | ⟨rfl,⟨_,rfl⟩ | ⟨rotates,_⟩⟩
    · exact kept
    · exact chosen.stands
    · cases rotates

theorem getNext_chosen (poised : Poised v s) (called : getNext true v s = some (some j,t)) :
    Poised v t ∧ ∃ q,Chosen v s t q j := by
  have inv : (lists n B true).Inv v.weights t := ((lists n B true).lawful.next poised.inv called).1
  rcases getNext_paths poised.valid called with ⟨none,_⟩ | ⟨_,same,path⟩
  · cases none
  · cases same
    cases path with
    | resumes holds top within =>
      have chosen := poised.resumes holds top within
      exact ⟨chosen.poised poised inv fun _ _ held => .inr held,_,chosen⟩
    | @serves hi u top above taken =>
      have kept := takeNext_holds taken
      have held : ∀ q h,(if getTaskThreshold v j > hi then u.hold hi j else u).held q = some h → q = hi ∧ h = j ∨ s.held q = some h := by
        intro q h holds
        rw [← kept]
        split at holds
        · change update u.held hi (some j) q = some h at holds
          rw [update_apply] at holds
          split at holds
          · rename_i here
            cases holds
            exact .inl ⟨here,rfl⟩
          · exact .inr holds
        · exact .inr holds
      have chosen := poised.serves top above taken (t := {if getTaskThreshold v j > hi then u.hold hi j else u with
        running := some j}) (by dsimp only; split <;> rfl) (by dsimp only; split <;> rfl) held
      exact ⟨chosen.poised poised inv held,_,chosen⟩

theorem getNext_idle (poised : Poised v s) (called : getNext true v s = some (none,t)) :
    Poised v t ∧ ∀ p i b,¬Stands v s p i b := by
  have inv : (lists n B true).Inv v.weights t := ((lists n B true).lawful.next poised.inv called).1
  rcases getNext_paths poised.valid called with ⟨_,empty,rfl⟩ | ⟨_,some_,_⟩
  · refine ⟨⟨inv,fun p h held => ?_⟩,fun p i b stands => ?_⟩
    · have stands := poised.holds p h held
      exact ⟨stands.cursor,stands.rotates,stands.clear⟩
    · have linked := State.cursor_linked stands.cursor
      rw [empty p] at linked
      cases linked
  · cases some_

end SuperTinyKernel.PreemptionThreshold
