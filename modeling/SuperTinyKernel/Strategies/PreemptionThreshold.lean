import SuperTinyKernel.Strategies.Levelled
import SuperTinyKernel.Strategies.PriorityBitmap

namespace SuperTinyKernel.PreemptionThreshold

open Function

variable {n P : Nat} {B : IndexSet P}

-- m_tasks with m_prev and m_ready_bitmap are the levels.
structure State (n : Nat) (B : IndexSet P) where
  levels : Levels (Fin n) B
  sleep : List (Fin n)
  held : Fin P → Option (Fin n)
  heldBitmap : B.Carrier
  advanceBitmap : B.Carrier
  running : Option (Fin n)

def empty : State n B := ⟨.empty,[],fun _ => none,B.empty,B.empty,none⟩

def decodePriority (w : Int) : Nat := (w / 65536 % 65536).toNat
def decodeThreshold (w : Int) : Nat := (w % 65536).toNat

def level (P : Nat) (w : Int) : Option (Fin P) :=
  if inside : decodePriority w < P then some ⟨decodePriority w,inside⟩ else none

def getTaskThreshold (v : Views n) (i : Fin n) : Nat :=
  let prio := decodePriority (v i).weight
  let thr := decodeThreshold (v i).baseWeight
  if thr > prio then thr else prio

namespace State

def hold (s : State n B) (p : Fin P) (i : Fin n) : State n B :=
  {s with held := update s.held p (some i),heldBitmap := B.set s.heldBitmap p}
def release (s : State n B) (p : Fin P) : State n B :=
  {s with held := update s.held p none,heldBitmap := B.clear s.heldBitmap p}
def releaseOf (s : State n B) (p : Fin P) (i : Fin n) : State n B := if s.held p = some i then s.release p else s

end State

def addActive (v : Views n) (i : Fin n) (s : State n B) : Option (State n B) := do
  return {s with levels := ← s.levels.linkBack i (← level P (v i).weight)}

-- In sticky mode the successor of an unlinked cursor must run next.
def removeActive (timeSlice : Bool) (i : Fin n) (p : Fin P) (s : State n B) : Option (State n B) := do
  let levels ← s.levels.unlink i p
  let advance :=
    if timeSlice then
      if levels.items p = [] then B.clear s.advanceBitmap p
      else if (s.levels.lists p).cursor = some i then B.set s.advanceBitmap p
      else s.advanceBitmap
    else s.advanceBitmap
  return {s.releaseOf p i with
    levels := levels
    running := if s.running = some i then none else s.running
    advanceBitmap := advance}

-- In sticky mode the cursor stays on the running task.
def addTask (timeSlice : Bool) (v : Views n) (i : Fin n) (s : State n B) : Option (State n B) :=
  if timeSlice then addActive v i s
  else do return {s with levels := ← s.levels.append i (← level P (v i).weight)}

def removeTask (timeSlice : Bool) (v : Views n) (i : Fin n) (s : State n B) : Option (State n B) :=
  if i ∈ s.sleep then do return {s with sleep := ← unlink i s.sleep}
  else do removeActive timeSlice i (← level P (v i).weight) s

-- m_held[GetHighestReadyPriority(m_held_bitmap)]; a null holder would be dereferenced.
def holder (s : State n B) : Option (Fin n) :=
  if inside : B.highest s.heldBitmap < P then s.held ⟨B.highest s.heldBitmap,inside⟩ else none

def takeNext (timeSlice : Bool) (hi : Fin P) (s : State n B) : Option (Fin n × State n B) := do
  let advance := !timeSlice || B.isSet s.advanceBitmap hi
  let s := if timeSlice then {s with advanceBitmap := B.clear s.advanceBitmap hi} else s
  if advance then
    let (next,levels) ← s.levels.advance hi
    return (next,{s with levels := levels})
  else return (← (s.levels.lists hi).cursor,s)

def getNext (timeSlice : Bool) (v : Views n) (s : State n B) : Option (Option (Fin n) × State n B) :=
  if B.isEmpty s.levels.ready then some (none,{s with running := none})
  else do
    let hi ← s.levels.highest
    let holds ← (if B.isEmpty s.heldBitmap then some none
      else (holder s).map fun i => if hi ≤ getTaskThreshold v i then some i else none)
    match holds with
    | some i => return (some i,{s with running := some i})
    | none =>
      let (next,s) ← takeNext timeSlice hi s
      let s := if getTaskThreshold v next > hi then s.hold hi next else s
      return (some next,{s with running := some next})

def onTaskSleep (timeSlice : Bool) (v : Views n) (i : Fin n) (s : State n B) : Option (State n B) := do
  let s ← removeActive timeSlice i (← level P (v i).weight) s
  return {s with sleep := ← linkBack i s.sleep}

def onTaskWake (v : Views n) (i : Fin n) (s : State n B) : Option (State n B) := do
  addActive v i {s with sleep := ← unlink i s.sleep}

def updateHold (v : Views n) (i : Fin n) (p : Fin P) (s : State n B) : State n B :=
  if getTaskThreshold v i > p then if s.running = some i ∧ s.held p = none then s.hold p i else s
  else s.releaseOf p i

def onTaskWeightChange (timeSlice : Bool) (v : Views n) (i : Fin n) (old : Int) (s : State n B) :
    Option (State n B) :=
  if i ∈ s.sleep then some s
  else do
    let oldPrio ← level P old
    let newPrio ← level P (v i).weight
    if oldPrio = newPrio then return updateHold v i newPrio s
    else
      let wasHeld := s.held oldPrio = some i
      let s ← addActive v i (← removeActive timeSlice i oldPrio s)
      return if wasHeld ∧ getTaskThreshold v i > newPrio ∧ s.held newPrio = none then s.hold newPrio i else s

def onTaskYield (timeSlice : Bool) (v : Views n) (i : Fin n) (s : State n B) : Option (Bool × State n B) :=
  match level P (v i).weight with
  | none => some (false,s)
  | some p =>
    if i ∈ s.levels.items p then do
      let levels ← s.levels.seek i p
      let advance := if timeSlice then B.set s.advanceBitmap p else s.advanceBitmap
      return (true,{s.releaseOf p i with levels := levels,advanceBitmap := advance})
    else some (false,s)

-- A lone task continues with a fresh slice.
def onTaskTimeSlice (timeSlice : Bool) (v : Views n) (i : Fin n) (s : State n B) : Option (Bool × State n B) :=
  match level P (v i).weight with
  | none => some (false,s)
  | some p =>
    if timeSlice = true ∧ i ∈ s.levels.items p ∧ s.held p ≠ some i ∧ (s.levels.items p).length > 1 then do
      return (true,{s with levels := ← s.levels.seek i p,advanceBitmap := B.set s.advanceBitmap p})
    else some (false,s)

-- SwitchStrategyPreemptionThreshold.
def strategy (n : Nat) (B : IndexSet P) (timeSlice : Bool) : Strategy n where
  api := ⟨true,true,false,true,true,timeSlice⟩
  State := State n B
  initial := empty
  addTask := addTask timeSlice
  removeTask := removeTask timeSlice
  getNext := getNext timeSlice
  getFirst s := firstOf s.levels s.sleep
  getSize s := sizeOf s.levels s.sleep
  onTaskSleep := onTaskSleep timeSlice
  onTaskWake := onTaskWake
  onTaskWeightChange := onTaskWeightChange timeSlice
  onTaskYield := onTaskYield timeSlice
  onTaskTimeSlice := onTaskTimeSlice timeSlice
  onTaskDeadlineMissed _ s := some (false,s)
  runnableLists s := s.levels.union
  sleepList := State.sleep

variable {s t : State n B} {v : Views n} {i : Fin n} {p : Fin P}

-- A holder is runnable at its level, and the bitmap marks exactly the levels with a holder.
structure Valid (s : State n B) : Prop where
  linked : ∀ p i,s.held p = some i → i ∈ s.levels.items p
  marked : ∀ p,B.isSet s.heldBitmap p = (s.held p).isSome

theorem valid_empty : Valid (empty : State n B) := ⟨by simp [empty],by simp [empty,B.isSet_empty]⟩

theorem Valid.relevel (valid : Valid s) (held : t.held = s.held) (bitmap : t.heldBitmap = s.heldBitmap)
    (linked : ∀ p i,s.held p = some i → i ∈ t.levels.items p) : Valid t :=
  ⟨fun p i holds => linked p i (held ▸ holds),fun p => by rw [bitmap,held]; exact valid.marked p⟩

theorem Valid.same (valid : Valid s) (held : t.held = s.held) (bitmap : t.heldBitmap = s.heldBitmap)
    (items : t.levels.items = s.levels.items) : Valid t :=
  valid.relevel held bitmap fun p i holds => items ▸ valid.linked p i holds

theorem Valid.hold (valid : Valid s) (linked : i ∈ s.levels.items p) : Valid (s.hold p i) := by
  refine ⟨fun q j holds => ?_,fun q => ?_⟩
  · by_cases at_ : q = p
    · subst at_
      simp only [State.hold,update_self,Option.some.injEq] at holds
      subst holds; exact linked
    · simp only [State.hold,update_of_ne at_] at holds
      exact valid.linked q j holds
  · by_cases at_ : q = p
    · subst at_; simp [State.hold,B.isSet_set]
    · simp [State.hold,B.isSet_set,at_,valid.marked]

theorem Valid.releaseOf (valid : Valid s) : Valid (s.releaseOf p i) ∧ (s.releaseOf p i).levels = s.levels ∧
    (s.releaseOf p i).sleep = s.sleep ∧ (s.releaseOf p i).held p ≠ some i ∧
    ∀ q j,(s.releaseOf p i).held q = some j → s.held q = some j := by
  unfold State.releaseOf
  split
  · have other : ∀ q j,(s.release p).held q = some j → s.held q = some j := by
      intro q j holds
      by_cases at_ : q = p
      · subst at_; simp [State.release] at holds
      · simpa [State.release,at_] using holds
    refine ⟨⟨fun q j holds => valid.linked q j (other q j holds),fun q => ?_⟩,rfl,rfl,by simp [State.release],other⟩
    by_cases at_ : q = p
    · subst at_; simp [State.release,B.isSet_clear]
    · simp [State.release,B.isSet_clear,at_,valid.marked]
  · exact ⟨valid,rfl,rfl,‹_›,fun _ _ holds => holds⟩

theorem addActive_parts (added : addActive v i s = some t) :
    (Valid s → Valid t) ∧ t.sleep = s.sleep ∧ ∃ p,level P (v i).weight = some p ∧
      t.levels.items = update s.levels.items p (s.levels.items p ++ [i]) := by
  obtain ⟨p,prio,added⟩ := of_bind added
  obtain ⟨levels,linked,rfl⟩ := of_return added
  have items := (Levels.linkBack_parts linked).2
  exact ⟨fun valid => valid.relevel rfl rfl fun q j holds => (Levelled.mem_join items).mpr (.inl (valid.linked q j holds)),
    rfl,p,prio,items⟩

theorem addActive_defined (prio : level P (v i).weight = some p) (fresh : ∀ q,i ∉ s.levels.items q) :
    ∃ t,addActive v i s = some t := by
  obtain ⟨levels,linked⟩ := Levels.linkBack_defined fresh p
  exact ⟨{s with levels := levels},by simp [addActive,prio,linked]⟩

theorem removeActive_parts (removed : removeActive timeSlice i p s = some t) :
    (Valid s → Valid t) ∧ t.sleep = s.sleep ∧ i ∈ s.levels.items p ∧
      t.levels.items = update s.levels.items p ((s.levels.items p).erase i) := by
  obtain ⟨levels,unlinked,same⟩ := of_bind removed
  obtain ⟨linked,items⟩ := Levels.unlink_parts unlinked
  cases same
  refine ⟨fun valid => ?_,by unfold State.releaseOf; split <;> rfl,linked,items⟩
  obtain ⟨released,_,_,free,old⟩ := valid.releaseOf (p := p) (i := i)
  refine released.relevel rfl rfl fun q j holds => (Levelled.mem_leave linked items).mpr ⟨valid.linked q j (old q j holds),?_⟩
  rintro rfl
  have at_ : q = p := s.levels.items_apart (valid.linked q j (old q j holds)) linked
  subst at_
  exact free holds

theorem removeActive_defined (timeSlice : Bool) (linked : i ∈ s.levels.items p) : ∃ t,removeActive timeSlice i p s = some t := by
  obtain ⟨levels,unlinked⟩ := Levels.unlink_defined linked
  exact ⟨_,by simp only [removeActive,unlinked]; rfl⟩

theorem addTask_parts (added : addTask timeSlice v i s = some t) :
    (Valid s → Valid t) ∧ t.sleep = s.sleep ∧ ∃ p,level P (v i).weight = some p ∧
      t.levels.items = update s.levels.items p (s.levels.items p ++ [i]) := by
  unfold addTask at added
  split at added
  · exact addActive_parts added
  · obtain ⟨p,prio,added⟩ := of_bind added
    obtain ⟨levels,linked,rfl⟩ := of_return added
    have items := (Levels.append_parts linked).2
    exact ⟨fun valid => valid.relevel rfl rfl fun q j holds =>
      (Levelled.mem_join items).mpr (.inl (valid.linked q j holds)),rfl,p,prio,items⟩

theorem takeNext_parts (valid : Valid s) (taken : takeNext timeSlice p s = some (i,t)) :
    Valid t ∧ t.sleep = s.sleep ∧ t.levels.items = s.levels.items ∧ i ∈ s.levels.items p := by
  unfold takeNext at taken
  extract_lets advance u at taken
  have kept : u.levels = s.levels ∧ u.sleep = s.sleep ∧ u.held = s.held ∧ u.heldBitmap = s.heldBitmap := by
    simp only [u]; split <;> exact ⟨rfl,rfl,rfl,rfl⟩
  obtain ⟨levels,sleep,held,bitmap⟩ := kept
  split at taken
  · obtain ⟨⟨next,moved⟩,served,same⟩ := of_bind taken
    cases same
    obtain ⟨linked,items⟩ := Levels.advance_parts served
    rw [levels] at linked items
    exact ⟨valid.same held bitmap items,sleep,items,linked⟩
  · obtain ⟨next,cursor,same⟩ := of_bind taken
    obtain ⟨rfl,rfl⟩ := Prod.mk.inj (Option.some.inj same)
    rw [levels] at cursor
    exact ⟨valid.same held bitmap (by rw [levels]),sleep,by rw [levels],(s.levels.lists p).member _ cursor⟩

theorem holder_linked (valid : Valid s) (holds : holder s = some i) : ∃ p,i ∈ s.levels.items p := by
  unfold holder at holds
  split at holds
  · exact ⟨_,valid.linked _ _ holds⟩
  · cases holds

theorem getNext_parts (valid : Valid s) (called : getNext timeSlice v s = some (r,t)) :
    Valid t ∧ t.sleep = s.sleep ∧ t.levels.items = s.levels.items ∧ (∀ i,r = some i → ∃ p,i ∈ s.levels.items p) ∧
      (r = none → ∀ p,s.levels.items p = []) := by
  unfold getNext at called
  split at called
  · rename_i empty
    cases called
    exact ⟨valid.same rfl rfl rfl,rfl,rfl,by simp,fun _ => Levels.isEmpty_iff.mp empty⟩
  · obtain ⟨hi,_,called⟩ := of_bind called
    obtain ⟨holds,held,called⟩ := of_bind called
    cases holds with
    | some i =>
      cases called
      refine ⟨valid.same rfl rfl rfl,rfl,rfl,fun j chosen => ?_,by simp⟩
      cases chosen
      split at held
      · cases held
      · obtain ⟨j,holds,same⟩ := of_map held
        split at same
        · cases same; exact holder_linked valid holds
        · cases same
    | none =>
      obtain ⟨⟨next,u⟩,taken,same⟩ := of_bind called
      cases same
      obtain ⟨valid',sleep,items,linked⟩ := takeNext_parts valid taken
      refine ⟨?_,?_,?_,fun j chosen => ⟨hi,Option.some.inj chosen ▸ linked⟩,by simp⟩
      · refine Valid.same (s := if getTaskThreshold v next > hi then u.hold hi next else u) ?_ rfl rfl rfl
        split
        · exact valid'.hold (items ▸ linked)
        · exact valid'
      · dsimp only; split <;> exact sleep
      · dsimp only; split <;> exact items

theorem updateHold_parts (valid : Valid s) (linked : i ∈ s.levels.items p) :
    Valid (updateHold v i p s) ∧ (updateHold v i p s).sleep = s.sleep ∧ (updateHold v i p s).levels = s.levels := by
  unfold updateHold
  split
  · split
    · exact ⟨valid.hold linked,rfl,rfl⟩
    · exact ⟨valid,rfl,rfl⟩
  · have ⟨released,levels,sleep,_⟩ := valid.releaseOf (p := p) (i := i)
    exact ⟨released,sleep,levels⟩

theorem onTaskWeightChange_parts (valid : Valid s)
    (filed : i ∈ s.sleep ∨ ∃ p,level P old = some p ∧ i ∈ s.levels.items p)
    (called : onTaskWeightChange timeSlice v i old s = some t) :
    Valid t ∧ t.sleep = s.sleep ∧ (i ∈ s.sleep ∧ t.levels.items = s.levels.items ∨
      ∃ p q,i ∈ s.levels.items p ∧ level P (v i).weight = some q ∧ i ∈ t.levels.items q ∧
        ∀ j r,j ≠ i ∨ r ≠ q → (j ∈ t.levels.items r ↔ j ∈ s.levels.items r ∧ (j ≠ i ∨ r ≠ p))) := by
  unfold onTaskWeightChange at called
  split at called
  · cases called; exact ⟨valid,rfl,.inl ⟨‹_›,rfl⟩⟩
  · obtain ⟨p,was,linked⟩ := filed.resolve_left ‹_›
    obtain ⟨p',was',called⟩ := of_bind called
    obtain rfl := Option.some.inj (was.symm.trans was')
    obtain ⟨q,prio,called⟩ := of_bind called
    split at called
    · subst q
      cases called
      obtain ⟨valid',sleep,levels⟩ := updateHold_parts (v := v) valid linked
      refine ⟨valid',sleep,.inr ⟨p,p,linked,prio,levels ▸ linked,fun j r other => ?_⟩⟩
      rw [levels]
      exact ⟨fun there => ⟨there,other⟩,And.left⟩
    · obtain ⟨u,removed,called⟩ := of_bind called
      obtain ⟨w,added,rfl⟩ := of_return called
      obtain ⟨keeps,sleep,_,left⟩ := removeActive_parts removed
      obtain ⟨keeps',sleep',q',prio',joined⟩ := addActive_parts added
      obtain rfl := Option.some.inj (prio.symm.trans prio')
      obtain ⟨here,mem⟩ := Levelled.relinked linked left joined
      split
      · exact ⟨(keeps' (keeps valid)).hold here,sleep'.trans sleep,.inr ⟨p,q,linked,prio,here,mem⟩⟩
      · exact ⟨keeps' (keeps valid),sleep'.trans sleep,.inr ⟨p,q,linked,prio,here,mem⟩⟩

theorem onTaskYield_parts (valid : Valid s) (called : onTaskYield timeSlice v i s = some (handled,t)) :
    Valid t ∧ t.sleep = s.sleep ∧ t.levels.items = s.levels.items := by
  unfold onTaskYield at called
  split at called
  · cases called; exact ⟨valid,rfl,rfl⟩
  · split at called
    · rename_i p _ _
      obtain ⟨levels,moved,same⟩ := of_bind called
      cases same
      have ⟨released,kept,sleep,_⟩ := valid.releaseOf (p := p) (i := i)
      have items := (Levels.seek_parts moved).2
      exact ⟨released.same rfl rfl (by rw [kept]; exact items),sleep,items⟩
    · cases called; exact ⟨valid,rfl,rfl⟩

theorem onTaskTimeSlice_parts (valid : Valid s) (called : onTaskTimeSlice timeSlice v i s = some (rotated,t)) :
    Valid t ∧ t.sleep = s.sleep ∧ t.levels.items = s.levels.items := by
  unfold onTaskTimeSlice at called
  split at called
  · cases called; exact ⟨valid,rfl,rfl⟩
  · split at called
    · obtain ⟨levels,moved,same⟩ := of_bind called
      cases same
      have items := (Levels.seek_parts moved).2
      exact ⟨valid.same rfl rfl items,rfl,items⟩
    · cases called; exact ⟨valid,rfl,rfl⟩

theorem onTaskTimeSlice_defined : ∃ r,onTaskTimeSlice timeSlice v i s = some r := by
  unfold onTaskTimeSlice
  split
  · exact ⟨_,rfl⟩
  · split
    · rename_i p _ rotates
      obtain ⟨levels,moved⟩ := Levels.seek_defined rotates.2.1
      exact ⟨_,by simp only [moved]; rfl⟩
    · exact ⟨_,rfl⟩

def lists (n : Nat) (B : IndexSet P) (timeSlice : Bool) : Levelled (strategy n B timeSlice) B where
  levels := State.levels
  priority := level P
  Valid := Valid
  aware := rfl
  runnableLists _ := rfl
  initial := ⟨valid_empty,fun _ => rfl,rfl⟩
  add valid added := have ⟨keeps,sleep,filed⟩ := addTask_parts added; ⟨keeps valid,sleep,filed⟩
  join := addActive
  leave v i s := do removeActive timeSlice i (← level P (v i).weight) s
  rest l s := {s with sleep := l}
  join_parts := addActive_parts
  join_defined := addActive_defined
  leave_parts left :=
    have ⟨p,_,removed⟩ := of_bind left
    have ⟨keeps,sleep,items⟩ := removeActive_parts removed
    ⟨keeps,sleep,p,items⟩
  leave_defined prio linked :=
    have ⟨t,removed⟩ := removeActive_defined timeSlice linked
    ⟨t,Option.bind_eq_some_iff.mpr ⟨_,prio,removed⟩⟩
  rest_parts _ _ := ⟨rfl,rfl,fun valid => valid.same rfl rfl rfl⟩
  removeTask _ _ _ := rfl
  onTaskSleep _ _ _ := (Option.bind_assoc ..).symm
  onTaskWake _ _ _ := rfl
  next := getNext_parts
  first _ := rfl
  size _ := rfl
  weightChange := onTaskWeightChange_parts
  yield := onTaskYield_parts
  timeSlice := onTaskTimeSlice_parts
  timeSlice_defined := onTaskTimeSlice_defined
  deadlineMissed := rfl

def lawful (n : Nat) (B : IndexSet P) (timeSlice : Bool) : Lawful (strategy n B timeSlice) :=
  (lists n B timeSlice).lawful

end SuperTinyKernel.PreemptionThreshold
