import SuperTinyKernel.Strategies.Client
import SuperTinyKernel.Strategies.PreemptionThreshold

namespace SuperTinyKernel.PreemptionThreshold

-- A priority below 32768, so that the weight is not negative.
def makeWeight (priority threshold : Nat) : Int := priority * 65536 + threshold

variable {n P : Nat} {B : IndexSet P} {timeSlice : Bool} {s t : State n B} {v : Views n}

theorem releaseOf_held (valid : Valid s) (linked : i ∈ s.levels.items p) :
    (s.releaseOf p i).held q = some j ↔ s.held q = some j ∧ j ≠ i := by
  have only : s.held q = some i → q = p := fun holds => s.levels.items_apart (valid.linked q i holds) linked
  unfold State.releaseOf
  split
  · rename_i holds
    simp only [State.release,Function.update_apply]
    split
    · subst q
      simp only [reduceCtorEq,holds,Option.some.injEq,false_iff,not_and,not_not]
      exact Eq.symm
    · rename_i elsewhere
      refine ⟨fun there => ⟨there,?_⟩,And.left⟩
      rintro rfl
      exact elsewhere (only there)
  · rename_i free
    refine ⟨fun there => ⟨there,?_⟩,And.left⟩
    rintro rfl
    obtain rfl := only there
    exact free there

theorem releaseOf_running (s : State n B) (p : Fin P) (i : Fin n) : (s.releaseOf p i).running = s.running := by
  unfold State.releaseOf
  split <;> rfl

theorem addActive_holds (added : addActive v i s = some t) : t.held = s.held ∧ t.running = s.running := by
  obtain ⟨p,_,added⟩ := of_bind added
  obtain ⟨levels,_,rfl⟩ := of_return added
  exact ⟨rfl,rfl⟩

theorem removeActive_holds (valid : Valid s) (removed : removeActive timeSlice i p s = some t) :
    (∀ q j,t.held q = some j ↔ s.held q = some j ∧ j ≠ i) ∧ t.running = if s.running = some i then none else s.running := by
  have linked := (removeActive_parts removed).2.2.1
  obtain ⟨levels,_,rfl⟩ := of_return removed
  exact ⟨fun q j => releaseOf_held valid linked,rfl⟩

theorem holder_highest (valid : Valid s) (held : s.held q = some j) :
    ∃ p i,holder s = some i ∧ s.held p = some i ∧ ∀ r k,s.held r = some k → r ≤ p := by
  have used : B.isSet s.heldBitmap q = true := by rw [valid.marked,held]; rfl
  obtain ⟨p,at_,here,above⟩ := B.highest_spec used
  rw [valid.marked] at here
  obtain ⟨i,holds⟩ := Option.isSome_iff_exists.mp here
  refine ⟨p,i,?_,holds,fun r k holds => above r (by rw [valid.marked,holds]; rfl)⟩
  unfold holder
  rw [dif_pos (by omega)]
  simpa [at_] using holds

theorem unheld (valid : Valid s) (empty : B.isEmpty s.heldBitmap = true) (q : Fin P) : s.held q = none := by
  have clear := B.isEmpty_iff.mp empty q
  rw [valid.marked] at clear
  simpa using clear

def Top (s : State n B) (hi : Fin P) : Prop := s.levels.items hi ≠ [] ∧ ∀ q,s.levels.items q ≠ [] → q ≤ hi

def Holds (s : State n B) (p : Fin P) (i : Fin n) : Prop := s.held p = some i ∧ ∀ q j,s.held q = some j → q ≤ p

inductive Selects (v : Views n) (s : State n B) : Option (Fin n) → (Fin P → Option (Fin n)) → Prop where
  | idle (empty : ∀ q,s.levels.items q = []) : Selects v s none s.held
  | resumes (holds : Holds s p i) (top : Top s hi) (within : hi ≤ getTaskThreshold v i) : Selects v s (some i) s.held
  | serves (linked : i ∈ s.levels.items hi) (top : Top s hi) (above : ∀ p j,Holds s p j → getTaskThreshold v j < hi) :
      Selects v s (some i) (if getTaskThreshold v i > hi then Function.update s.held hi (some i) else s.held)

theorem takeNext_holds (taken : takeNext timeSlice p s = some (i,t)) : t.held = s.held := by
  unfold takeNext at taken
  extract_lets advance u at taken
  have kept : u.held = s.held := by simp only [u]; split <;> rfl
  split at taken
  · obtain ⟨_,_,same⟩ := of_bind taken
    cases same
    exact kept
  · obtain ⟨_,_,same⟩ := of_bind taken
    obtain ⟨_,rfl⟩ := Prod.mk.inj (Option.some.inj same)
    exact kept

theorem takeNext_defined (timeSlice : Bool) (s : State n B) (entries : s.levels.items p ≠ []) :
    ∃ r,takeNext timeSlice p s = some r := by
  obtain ⟨x,at_⟩ := Option.ne_none_iff_exists'.mp fun none => entries ((s.levels.lists p).placed none)
  unfold takeNext
  extract_lets advance u
  have kept : u.levels = s.levels := by simp only [u]; split <;> rfl
  split
  · obtain ⟨y,l,served⟩ := Levels.advance_defined entries
    exact ⟨_,by simp only [kept,served]; rfl⟩
  · exact ⟨_,by simp only [kept,at_]; rfl⟩

-- GetNext finds the highest holder, if the highest level is within its threshold, or serves
-- that level.
inductive Path (timeSlice : Bool) (v : Views n) (s : State n B) (i : Fin n) : State n B → Prop where
  | resumes (holds : Holds s p i) (top : Top s hi) (within : hi ≤ getTaskThreshold v i) :
      Path timeSlice v s i {s with running := some i}
  | serves (top : Top s hi) (above : ∀ p j,Holds s p j → getTaskThreshold v j < hi)
      (taken : takeNext timeSlice hi s = some (i,u)) :
      Path timeSlice v s i {if getTaskThreshold v i > hi then u.hold hi i else u with
        running := some i}

theorem getNext_paths (valid : Valid s) (called : getNext timeSlice v s = some (r,t)) :
    r = none ∧ (∀ q,s.levels.items q = []) ∧ t = {s with running := none} ∨ ∃ i,r = some i ∧ Path timeSlice v s i t := by
  unfold getNext at called
  split at called
  · rename_i empty
    cases called
    exact .inl ⟨rfl,Levels.isEmpty_iff.mp empty,rfl⟩
  · rename_i used
    obtain ⟨hi,highest,called⟩ := of_bind called
    obtain ⟨holds,held,called⟩ := of_bind called
    have top : Top s hi := by
      obtain ⟨p,at_,here,above⟩ := Levels.highest_defined used
      cases highest.symm.trans at_
      exact ⟨here,above⟩
    cases holds with
    | some i =>
      cases called
      split at held
      · cases held
      · obtain ⟨j,holder_,same⟩ := of_map held
        split at same
        · rename_i within
          cases same
          have : ∃ p,s.held p = some i := by
            unfold holder at holder_
            split at holder_
            · exact ⟨_,holder_⟩
            · cases holder_
          obtain ⟨p,here⟩ := this
          obtain ⟨p,j,holder',holds⟩ := holder_highest valid here
          cases holder_.symm.trans holder'
          exact .inr ⟨i,rfl,.resumes holds top within⟩
        · cases same
    | none =>
      obtain ⟨⟨next,u⟩,taken,same⟩ := of_bind called
      cases same
      have above : ∀ p j,Holds s p j → getTaskThreshold v j < hi := by
        intro p j highest
        split at held
        · rename_i empty
          exact absurd highest.1 (by simp [unheld valid empty])
        · obtain ⟨k,holder_,same⟩ := of_map held
          obtain ⟨p',j',holder',holds⟩ := holder_highest valid highest.1
          cases holder_.symm.trans holder'
          obtain rfl : p = p' := Fin.le_antisymm (holds.2 p j highest.1) (highest.2 p' k holds.1)
          cases highest.1.symm.trans holds.1
          split at same
          · cases same
          · omega
      exact .inr ⟨next,rfl,.serves top above taken⟩

theorem getNext_selects (valid : Valid s) (called : getNext timeSlice v s = some (r,t)) :
    Selects v s r t.held ∧ t.running = r := by
  rcases getNext_paths valid called with ⟨rfl,empty,rfl⟩ | ⟨i,rfl,path⟩
  · exact ⟨.idle empty,rfl⟩
  · cases path with
    | resumes holds top within => exact ⟨.resumes holds top within,rfl⟩
    | serves top above taken =>
      have served := Selects.serves (v := v) (takeNext_parts valid taken).2.2.2 top above
      rw [← takeNext_holds taken] at served
      dsimp only
      split at served
      · rename_i banded
        rw [if_pos banded]
        exact ⟨served,rfl⟩
      · rename_i plain
        rw [if_neg plain]
        exact ⟨served,rfl⟩

theorem getNext_defined (timeSlice : Bool) (v : Views n) (valid : Valid s) : ∃ r,getNext timeSlice v s = some r := by
  unfold getNext
  split
  · exact ⟨_,rfl⟩
  · rename_i used
    obtain ⟨hi,highest,here,_⟩ := Levels.highest_defined used
    obtain ⟨⟨next,t⟩,taken⟩ := takeNext_defined timeSlice s here
    simp only [highest,Option.bind_eq_bind,Option.bind_some]
    by_cases empty : B.isEmpty s.heldBitmap = true
    · exact ⟨_,by simp only [empty,if_true,Option.bind_some,taken]; rfl⟩
    · obtain ⟨p,marked⟩ := not_forall.mp (mt B.isEmpty_iff.mpr empty)
      rw [valid.marked] at marked
      obtain ⟨j,held⟩ := Option.isSome_iff_exists.mp (Bool.not_eq_false _ |>.mp marked)
      obtain ⟨_,i,holder_,_⟩ := holder_highest valid held
      by_cases within : hi ≤ getTaskThreshold v i
      · exact ⟨_,by simp only [empty,holder_,Option.map_some,within,Bool.false_eq_true,if_false,if_true,Option.bind_some]; rfl⟩
      · exact ⟨_,by simp only [empty,holder_,Option.map_some,within,Bool.false_eq_true,if_false,Option.bind_some,taken]; rfl⟩

theorem addTask_holds (added : addTask timeSlice v i s = some t) : t.held = s.held ∧ t.running = s.running := by
  unfold addTask at added
  split at added
  · exact addActive_holds added
  · obtain ⟨p,_,added⟩ := of_bind added
    obtain ⟨levels,_,rfl⟩ := of_return added
    exact ⟨rfl,rfl⟩

theorem onTaskWake_holds (woken : onTaskWake v i s = some t) : t.held = s.held ∧ t.running = s.running := by
  obtain ⟨sleep,_,woken⟩ := of_bind woken
  have same := addActive_holds woken
  exact same

theorem onTaskTimeSlice_holds (called : onTaskTimeSlice timeSlice v i s = some (rotated,t)) :
    t.held = s.held ∧ t.running = s.running := by
  unfold onTaskTimeSlice at called
  split at called
  · cases called
    exact ⟨rfl,rfl⟩
  · split at called
    · obtain ⟨levels,_,same⟩ := of_bind called
      cases same
      exact ⟨rfl,rfl⟩
    · cases called
      exact ⟨rfl,rfl⟩

variable {c d : Client (strategy n B timeSlice)}

def drops : StrategyCall n → Fin n → Bool
  | .removeTask i,j | .onTaskSleep i,j | .onTaskYield i,j => decide (i = j)
  | _,_ => false

def quiet : StrategyCall n → Bool
  | .getNext | .onTaskWeightChange _ _ => false
  | _ => true

structure Quiet (c : Client (strategy n B timeSlice)) (e : StrategyCall n) (d : Client (strategy n B timeSlice)) : Prop where
  held : ∀ q j,d.state.held q = some j ↔ c.state.held q = some j ∧ drops e j = false
  running : ∀ j,d.state.running = some j → c.state.running = some j ∧
    ∀ q,j ∈ c.state.levels.items q → j ∈ d.state.levels.items q
  views : ∀ q j,j ∈ c.state.levels.items q → d.views j = c.views j
  stays : ∀ q j,drops e j = false → j ∈ c.state.levels.items q → j ∈ d.state.levels.items q

theorem Quiet.same (held : d.state.held = c.state.held) (running : d.state.running = c.state.running)
    (views : ∀ q j,j ∈ c.state.levels.items q → d.views j = c.views j)
    (stays : ∀ q j,j ∈ c.state.levels.items q → j ∈ d.state.levels.items q) (kept : ∀ j,drops e j = false) : Quiet c e d :=
  ⟨fun q j => by rw [held]; exact ⟨fun holds => ⟨holds,kept j⟩,And.left⟩,fun j runs => ⟨running ▸ runs,fun q => stays q j⟩,views,
    fun q j _ => stays q j⟩

theorem Quiet.leaves {t : State n B} (valid : Valid c.state) (removed : removeActive timeSlice i p c.state = some t)
    (held : d.state.held = t.held) (running : d.state.running = t.running) (levels : d.state.levels = t.levels)
    (views : d.views = c.views) (own : ∀ j,drops e j = decide (i = j)) : Quiet c e d := by
  obtain ⟨holds,runs⟩ := removeActive_holds valid removed
  obtain ⟨_,_,linked,items⟩ := removeActive_parts removed
  have apart : ∀ j,drops e j = false ↔ j ≠ i := fun j => by rw [own,decide_eq_false_iff_not,ne_comm]
  have stays : ∀ q j,j ≠ i → j ∈ c.state.levels.items q → j ∈ d.state.levels.items q := fun q j other inside => by
    rw [levels]
    exact (Levelled.mem_leave linked items).mpr ⟨inside,other⟩
  refine ⟨fun q j => by rw [held,apart]; exact holds q j,fun j running_ => ?_,fun q j _ => by rw [views],
    fun q j kept => stays q j ((apart j).mp kept)⟩
  rw [running,runs] at running_
  split at running_
  · cases running_
  · rename_i other
    exact ⟨running_,fun q => stays q j fun same => other (same ▸ running_)⟩

theorem Quiet.unheld (never : ∀ q,c.state.held q ≠ some i) (held : d.state.held = c.state.held)
    (running : d.state.running = c.state.running) (levels : d.state.levels = c.state.levels) (views : d.views = c.views)
    (own : ∀ j,drops e j = decide (i = j)) : Quiet c e d := by
  refine ⟨fun q j => ?_,fun j runs => ⟨running ▸ runs,fun q inside => levels ▸ inside⟩,fun q j _ => by rw [views],
    fun q j _ inside => levels ▸ inside⟩
  rw [held,own,decide_eq_false_iff_not]
  refine ⟨fun holds => ⟨holds,?_⟩,And.left⟩
  rintro rfl
  exact never q holds

theorem step_quiet (inv : (lists n B timeSlice).Inv c.views.weights c.state) (calm : quiet e = true)
    (taken : c.step e = some d) : Quiet c e d := by
  have valid : Valid c.state := inv.valid
  cases Client.step_steps taken with
  | @addTask i view σ free added =>
    obtain ⟨held,running⟩ := addTask_holds added
    obtain ⟨_,_,p,_,items⟩ := addTask_parts added
    have absent := ((lists n B timeSlice).place_free_iff.mp free).2
    refine Quiet.same held running (fun q j inside => Function.update_of_ne ?_ _ _)
      (fun q j inside => (Levelled.mem_join items).mpr (.inl inside)) fun _ => rfl
    rintro rfl
    exact absent q inside
  | @removeTask i σ removed =>
    change removeTask _ _ _ _ = _ at removed
    unfold removeTask at removed
    split at removed
    · rename_i asleep
      obtain ⟨sleep,_,same⟩ := of_bind removed
      cases same
      exact Quiet.unheld (fun q holds => inv.apart i asleep q (valid.linked q i holds)) rfl rfl rfl rfl fun _ => rfl
    · obtain ⟨p,_,removed⟩ := of_bind removed
      exact Quiet.leaves valid removed rfl rfl rfl rfl fun _ => rfl
  | onTaskSleep slept =>
    obtain ⟨p,_,slept⟩ := of_bind slept
    obtain ⟨u,removed,slept⟩ := of_bind slept
    obtain ⟨sleep,_,same⟩ := of_bind slept
    cases same
    exact Quiet.leaves valid removed rfl rfl rfl rfl fun _ => rfl
  | onTaskWake woken =>
    obtain ⟨held,running⟩ := onTaskWake_holds woken
    obtain ⟨_,_,_,p,_,items⟩ := (lists n B timeSlice).wake valid woken
    exact Quiet.same held running (fun _ _ _ => rfl) (fun q j inside => (Levelled.mem_join items).mpr (.inl inside)) fun _ => rfl
  | @onTaskYield i handled σ called =>
    have items := (onTaskYield_parts valid called).2.2
    have found : ∀ q,c.state.held q = some i → level P (c.views i).weight = some q ∧ i ∈ c.state.levels.items q :=
      fun q holds => ⟨inv.filed q i (valid.linked q i holds),valid.linked q i holds⟩
    change onTaskYield _ _ _ _ = _ at called
    unfold onTaskYield at called
    split at called
    · rename_i nowhere
      cases called
      refine Quiet.unheld (fun q holds => ?_) rfl rfl rfl rfl fun _ => rfl
      cases nowhere.symm.trans (found q holds).1
    · rename_i p here
      split at called
      · rename_i linked
        obtain ⟨levels,moved,same⟩ := of_bind called
        cases same
        refine ⟨fun q j => ?_,fun j runs => ?_,fun _ _ _ => rfl,fun q j _ inside => items ▸ inside⟩
        · refine (releaseOf_held valid linked).trans (and_congr_right fun _ => ?_)
          rw [drops,decide_eq_false_iff_not,ne_comm]
        · exact ⟨(releaseOf_running c.state p i).symm.trans runs,fun q inside => items ▸ inside⟩
      · rename_i unlinked
        cases called
        refine Quiet.unheld (fun q holds => ?_) rfl rfl rfl rfl fun _ => rfl
        obtain ⟨at_,inside⟩ := found q holds
        cases here.symm.trans at_
        exact unlinked inside
  | onTaskTimeSlice called =>
    obtain ⟨held,running⟩ := onTaskTimeSlice_holds called
    have items := (onTaskTimeSlice_parts valid called).2.2
    exact Quiet.same held running (fun _ _ _ => rfl) (fun q j inside => items ▸ inside) fun _ => rfl
  | getNext | onTaskWeightChange => cases calm


-- The selected tasks with a protected band that have not slept, yielded or been removed since.
def holding (_ : Client (strategy n B timeSlice)) (e : StrategyCall n) (d : Client (strategy n B timeSlice))
    (w : Fin n → Bool) : Fin n → Bool :=
  match e,d.last with
  | .getNext,some i =>
    if decodePriority (d.views i).weight < getTaskThreshold d.views i then Function.update w i true else w
  | .getNext,none => w
  | e,_ => fun j => w j && !drops e j

-- A holder is preempted only from above its threshold, so the levels of the holders grow
-- with their bands apart.
structure Nested (c : Client (strategy n B timeSlice)) (w : Fin n → Bool) : Prop where
  inv : (lists n B timeSlice).Inv c.views.weights c.state
  marks : ∀ i,w i = true ↔ ∃ p,c.state.held p = some i
  nested : ∀ p q i j,c.state.held p = some i → c.state.held q = some j → p < q → getTaskThreshold c.views i < q

theorem threshold_ge (v : Views n) (i : Fin n) : decodePriority (v i).weight ≤ getTaskThreshold v i := by
  simp only [getTaskThreshold]
  split <;> omega

theorem level_some (at_ : level P w = some p) : decodePriority w = p := by
  unfold level at at_
  split at at_
  · cases at_
    rfl
  · cases at_

theorem Nested.prio (nested : Nested c w) (inside : i ∈ c.state.levels.items p) : decodePriority (c.views i).weight = p :=
  level_some (nested.inv.filed p i inside)

theorem Nested.initial : Nested (.initial (strategy n B timeSlice)) fun _ => false :=
  ⟨(lists n B timeSlice).lawful.initial,fun i => ⟨fun off => absurd off Bool.false_ne_true,fun ⟨_,holds⟩ => by cases holds⟩,
    fun _ _ _ _ holds => (by cases holds)⟩

theorem Nested.calm (nested : Nested c w) (quiet_ : Quiet c e d) (inv : (lists n B timeSlice).Inv d.views.weights d.state)
    (same : ∀ j,holding c e d w j = (w j && !drops e j)) : Nested d (holding c e d w) := by
  refine ⟨inv,fun i => ?_,fun p q i j low high below => ?_⟩
  · rw [same,Bool.and_eq_true,nested.marks,Bool.not_eq_true']
    constructor
    · rintro ⟨⟨p,holds⟩,kept⟩
      exact ⟨p,(quiet_.held p i).mpr ⟨holds,kept⟩⟩
    · rintro ⟨p,holds⟩
      obtain ⟨holds,kept⟩ := (quiet_.held p i).mp holds
      exact ⟨⟨p,holds⟩,kept⟩
  · have low := ((quiet_.held p i).mp low).1
    have high := ((quiet_.held q j).mp high).1
    have view : getTaskThreshold d.views i = getTaskThreshold c.views i := by
      unfold getTaskThreshold
      rw [quiet_.views p i (nested.inv.valid.linked p i low)]
    rw [view]
    exact nested.nested p q i j low high below

theorem Nested.above (nested : Nested c w)
    (clear : ∀ p j,Holds c.state p j → getTaskThreshold c.views j < hi) (held : c.state.held p = some i) :
    p < hi ∧ getTaskThreshold c.views i < hi := by
  have valid : Valid c.state := nested.inv.valid
  obtain ⟨q,j,_,highest⟩ := holder_highest valid held
  have over_ := clear q j highest
  have prio := nested.prio (valid.linked q j highest.1)
  have least := threshold_ge c.views j
  have below : p ≤ q := highest.2 p i held
  rcases Fin.lt_or_eq_of_le below with lower | rfl
  · have := nested.nested p q i j held highest.1 lower
    omega
  · cases held.symm.trans highest.1
    omega

theorem getNext_taken (inv : (lists n B timeSlice).Inv c.views.weights c.state) (taken : c.step .getNext = some d) :
    Selects c.views c.state d.last d.state.held ∧ d.state.running = d.last ∧ d.views = c.views ∧
      d.state.levels.items = c.state.levels.items := by
  obtain ⟨⟨next,σ⟩,called,rfl⟩ := of_return taken
  obtain ⟨selects,running⟩ := getNext_selects inv.valid called
  exact ⟨selects,running,rfl,(getNext_parts inv.valid called).2.2.1⟩

theorem Nested.next (nested : Nested c w) (taken : c.step .getNext = some d) : Nested d (holding c .getNext d w) := by
  have inv := Client.step_inv (lists n B timeSlice).lawful rfl nested.inv taken
  have valid : Valid c.state := nested.inv.valid
  obtain ⟨selects,_,views,items⟩ := getNext_taken nested.inv taken
  generalize last : d.last = r at selects
  generalize after : d.state.held = held at selects
  simp only [holding,last]
  cases selects with
  | idle empty => exact ⟨inv,fun i => by rw [after]; exact nested.marks i,by rw [after,views]; exact nested.nested⟩
  | @resumes p i hi holds top within =>
    have marked : w i = true := (nested.marks i).mpr ⟨p,holds.1⟩
    have same : (if decodePriority (d.views i).weight < getTaskThreshold d.views i then Function.update w i true else w) = w := by
      split
      · rw [← marked,Function.update_eq_self]
      · rfl
    dsimp only
    rw [same]
    exact ⟨inv,fun i => by rw [after]; exact nested.marks i,by rw [after,views]; exact nested.nested⟩
  | @serves hi i linked top clear =>
    have prio : decodePriority (d.views i).weight = hi := by rw [views]; exact nested.prio linked
    dsimp only
    rw [prio,views]
    by_cases banded : getTaskThreshold c.views i > hi
    · rw [if_pos banded] at after
      rw [if_pos banded]
      have held : ∀ q j,d.state.held q = some j ↔ q = hi ∧ j = i ∨ q ≠ hi ∧ c.state.held q = some j := by
        intro q j
        rw [after,Function.update_apply]
        split
        · simp [*,eq_comm]
        · simp [*]
      have lower : ∀ q j,c.state.held q = some j → q < hi ∧ getTaskThreshold c.views j < hi :=
        fun q j holds => nested.above clear holds
      refine ⟨inv,fun j => ?_,fun p q j k low high below => ?_⟩
      · rw [Function.update_apply]
        split
        · subst j
          exact ⟨fun _ => ⟨hi,(held hi i).mpr (.inl ⟨rfl,rfl⟩)⟩,fun _ => rfl⟩
        · rename_i other
          rw [nested.marks]
          refine exists_congr fun q => ?_
          rw [held]
          exact ⟨fun holds => .inr ⟨fun same => absurd (lower q j holds).1 (by omega),holds⟩,
            fun holds => (holds.resolve_left fun here => other here.2).2⟩
      · rw [views]
        rcases (held p j).mp low with ⟨rfl,rfl⟩ | ⟨_,low⟩
        · rcases (held q k).mp high with ⟨rfl,_⟩ | ⟨_,high⟩
          · exact absurd below (lt_irrefl _)
          · have := (lower q k high).1
            omega
        · rcases (held q k).mp high with ⟨rfl,_⟩ | ⟨_,high⟩
          · exact (lower p j low).2
          · exact nested.nested p q j k low high below
    · rw [if_neg banded] at after
      rw [if_neg banded]
      exact ⟨inv,fun i => by rw [after]; exact nested.marks i,by rw [after,views]; exact nested.nested⟩

theorem Nested.step (nested : Nested c w) (constant : Client.keepsWeights e = true) (taken : c.step e = some d) :
    Nested d (holding c e d w) := by
  have inv := Client.step_inv (lists n B timeSlice).lawful rfl nested.inv taken
  cases e with
  | getNext => exact nested.next taken
  | onTaskWeightChange i view => cases constant
  | _ => exact nested.calm (step_quiet nested.inv rfl taken) inv fun _ => rfl

theorem Nested.selects (nested : Nested c w) (marked : w i = true) (taken : c.step .getNext = some d) :
    ∃ j,d.last = some j ∧ (j = i ∨
      (strategy n B timeSlice).place c.state j = .ready ∧ getTaskThreshold c.views i < decodePriority (c.views j).weight) := by
  have valid : Valid c.state := nested.inv.valid
  obtain ⟨p,held⟩ := (nested.marks i).mp marked
  obtain ⟨selects,_⟩ := getNext_taken nested.inv taken
  have ready : ∀ {j q},j ∈ c.state.levels.items q → (strategy n B timeSlice).place c.state j = .ready :=
    fun inside => ((lists n B timeSlice).place_ready_iff nested.inv).mpr ⟨_,inside⟩
  generalize d.last = r,d.state.held = held' at selects
  cases selects with
  | idle empty => exact absurd (valid.linked p i held) (by simp [empty p])
  | @resumes q j hi holds top within =>
    refine ⟨j,rfl,?_⟩
    rcases Fin.lt_or_eq_of_le (holds.2 p i held) with lower | rfl
    · have inside := valid.linked q j holds.1
      have := nested.nested p q i j held holds.1 lower
      exact .inr ⟨ready inside,by rwa [nested.prio inside]⟩
    · cases held.symm.trans holds.1
      exact .inl rfl
  | @serves hi j linked top clear => exact ⟨j,rfl,.inr ⟨ready linked,by rw [nested.prio linked]; exact (nested.above clear held).2⟩⟩

end SuperTinyKernel.PreemptionThreshold

namespace SuperTinyKernel

open Transition PreemptionThreshold

-- A task selected with its threshold above its priority is preempted only from above it, and
-- is the next one of its band that runs.
theorem holders_protected (B : IndexSet P) {c : Client (PreemptionThreshold.strategy n B timeSlice)} {i : Fin n}
    (run : Run (observe Client.step holding) (fun _ e => Client.keepsWeights e = true)
      (.initial _,fun _ => false) (c,w)) (held : w i = true) :
    ∃ d j,c.step .getNext = some d ∧ d.last = some j ∧
      (j = i ∨ (PreemptionThreshold.strategy n B timeSlice).place c.state j = .ready ∧
        getTaskThreshold c.views i < decodePriority (c.views j).weight) ∧
      ((∀ k,(PreemptionThreshold.strategy n B timeSlice).place c.state k = .ready →
        decodePriority (c.views k).weight ≤ getTaskThreshold c.views i) → j = i) := by
  have nested : Nested c w := run.keeps (I := fun p => Nested p.1 p.2) .initial (by
    intro p e q nested constant observed
    obtain ⟨taken,watched⟩ := observe_some observed
    rw [watched]
    exact nested.step constant taken)
  obtain ⟨⟨next,σ⟩,called⟩ := getNext_defined timeSlice c.views nested.inv.valid
  have taken : c.step .getNext = some {c with state := σ,last := next,left := false} := by
    change (PreemptionThreshold.getNext timeSlice c.views c.state).bind _ = _
    rw [called]
    rfl
  obtain ⟨j,last,chosen⟩ := nested.selects held taken
  refine ⟨_,j,taken,last,chosen,fun low => ?_⟩
  rcases chosen with same | ⟨ready,above⟩
  · exact same
  · have := low j ready
    omega

def banded (p t : Nat) : TaskView := ⟨false,makeWeight p t,makeWeight p t,0,0,0⟩

def preemptedHolder (x y z : Fin n) : List (StrategyCall n) :=
  [.addTask x (banded 1 2),.getNext,.addTask y (banded 2 2),.addTask z (banded 3 3),.getNext,.onTaskSleep z]

theorem preemptedHolder_resumed :
    ∃ (c d : Client (PreemptionThreshold.strategy 3 (readyBitmapSelect 4 (by decide)) false)) (w : Fin 3 → Bool),
      exec (observe Client.step holding) (.initial _,fun _ => false) (preemptedHolder 0 1 2) = some (c,w) ∧
      (PreemptionThreshold.strategy 3 (readyBitmapSelect 4 (by decide)) false).place c.state 1 = .ready ∧
      w 0 = true ∧ c.step .getNext = some d ∧ d.last = some 0 := by
  have found : ∃ p : Client (PreemptionThreshold.strategy 3 (readyBitmapSelect 4 (by decide)) false) × (Fin 3 → Bool),
      exec (observe Client.step holding) (.initial _,fun _ => false) (preemptedHolder 0 1 2) = some p ∧
      (PreemptionThreshold.strategy 3 (readyBitmapSelect 4 (by decide)) false).place p.1.state 1 = .ready ∧ p.2 0 = true ∧
      ∀ k,(PreemptionThreshold.strategy 3 (readyBitmapSelect 4 (by decide)) false).place p.1.state k = .ready →
        decodePriority (p.1.views k).weight ≤ getTaskThreshold p.1.views 0 := by decide
  obtain ⟨⟨c,w⟩,ran,ready,held,low⟩ := found
  have run := Run.ofExecAllowed (fun _ e => Client.keepsWeights e) (by decide) ran
  obtain ⟨d,j,taken,last,_,resumed⟩ := holders_protected _ run held
  obtain rfl := resumed low
  exact ⟨c,d,w,ran,ready,held,taken,last⟩

end SuperTinyKernel
