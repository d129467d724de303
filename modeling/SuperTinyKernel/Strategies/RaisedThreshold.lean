import SuperTinyKernel.Strategies.Thresholds

namespace SuperTinyKernel.PreemptionThreshold

variable {n P : Nat} {B : IndexSet P} {timeSlice : Bool} {s t : State n B} {v : Views n}
  {c d : Client (strategy n B timeSlice)}

-- The task holds its new level. On its old level a running task may take a free hold; to
-- another it takes the hold it has.
def KeepsHold (s : State n B) (v : Views n) (i : Fin n) (o q : Fin P) : Prop :=
  getTaskThreshold v i > q ∧
    if o = q then s.held q = some i ∨ s.running = some i ∧ s.held q = none else s.held o = some i ∧ s.held q = none

instance : Decidable (KeepsHold s v i o q) := inferInstanceAs (Decidable (_ ∧ _))

theorem hold_held (s : State n B) : (s.hold p i).held r = some j ↔ r = p ∧ j = i ∨ r ≠ p ∧ s.held r = some j := by
  simp only [State.hold,Function.update_apply]
  split
  · simp [*,eq_comm]
  · simp [*]

theorem updateHold_holds (valid : Valid s) (linked : i ∈ s.levels.items q) :
    ((updateHold v i q s).held r = some j ↔ j ≠ i ∧ s.held r = some j ∨ j = i ∧ r = q ∧ KeepsHold s v i q q) ∧
      (updateHold v i q s).running = s.running := by
  have only : s.held r = some i → r = q := fun holds => s.levels.items_apart (valid.linked r i holds) linked
  have keeps : KeepsHold s v i q q ↔ getTaskThreshold v i > q ∧ (s.held q = some i ∨ s.running = some i ∧ s.held q = none) := by
    simp [KeepsHold]
  rw [keeps]
  unfold updateHold
  by_cases banded : getTaskThreshold v i > q
  · rw [if_pos banded]
    by_cases takes : s.running = some i ∧ s.held q = none
    · rw [if_pos takes,hold_held]
      refine ⟨?_,rfl⟩
      constructor
      · rintro (⟨rfl,rfl⟩ | ⟨apart,holds⟩)
        · exact .inr ⟨rfl,rfl,banded,.inr takes⟩
        · exact .inl ⟨fun same => apart (only (same ▸ holds)),holds⟩
      · rintro (⟨apart,holds⟩ | ⟨rfl,rfl,_⟩)
        · exact .inr ⟨fun same => (by rw [same,takes.2] at holds; cases holds),holds⟩
        · exact .inl ⟨rfl,rfl⟩
    · rw [if_neg takes]
      refine ⟨?_,rfl⟩
      constructor
      · intro holds
        by_cases at_ : j = i
        · subst at_
          obtain rfl := only holds
          exact .inr ⟨rfl,rfl,banded,.inl holds⟩
        · exact .inl ⟨at_,holds⟩
      · rintro (⟨_,holds⟩ | ⟨rfl,rfl,_,holds | takes'⟩)
        · exact holds
        · exact holds
        · exact absurd takes' takes
  · rw [if_neg banded]
    refine ⟨(releaseOf_held valid linked).trans ?_,releaseOf_running s q i⟩
    constructor
    · exact fun ⟨holds,apart⟩ => .inl ⟨apart,holds⟩
    · rintro (⟨apart,holds⟩ | ⟨_,_,above,_⟩)
      · exact ⟨holds,apart⟩
      · exact absurd above banded

theorem onTaskWeightChange_holds (valid : Valid s) (awake : i ∉ s.sleep) (linked : i ∈ s.levels.items o) (was : level P old = some o)
    (now : level P (v i).weight = some q) (called : onTaskWeightChange timeSlice v i old s = some t) :
    (∀ r j,t.held r = some j ↔ j ≠ i ∧ s.held r = some j ∨ j = i ∧ r = q ∧ KeepsHold s v i o q) ∧
      (∀ j,t.running = some j → s.running = some j) ∧ (t.running = some i → o = q) := by
  unfold onTaskWeightChange at called
  rw [if_neg awake,was,now] at called
  simp only [Option.bind_eq_bind,Option.bind_some] at called
  by_cases same : o = q
  · subst same
    rw [if_pos rfl] at called
    cases called
    have running := (updateHold_holds (v := v) (r := o) (j := i) valid linked).2
    exact ⟨fun r j => (updateHold_holds valid linked).1,fun j runs => running ▸ runs,fun _ => rfl⟩
  · rw [if_neg same] at called
    obtain ⟨u,removed,called⟩ := of_bind called
    obtain ⟨w,added,called⟩ := of_bind called
    cases called
    obtain ⟨held,running⟩ := removeActive_holds valid removed
    obtain ⟨held',running'⟩ := addActive_holds added
    have free : w.held q = none ↔ s.held q = none := by
      rw [held',← not_iff_not,← ne_eq,← ne_eq,Option.ne_none_iff_exists',Option.ne_none_iff_exists']
      constructor
      · rintro ⟨j,holds⟩
        exact ⟨j,((held q j).mp holds).1⟩
      · rintro ⟨j,holds⟩
        refine ⟨j,(held q j).mpr ⟨holds,?_⟩⟩
        rintro rfl
        exact same (s.levels.items_apart linked (valid.linked q j holds))
    have runs : ∀ j,w.running = some j → s.running = some j ∧ j ≠ i := by
      intro j runs
      rw [running',running] at runs
      split at runs
      · cases runs
      · rename_i other
        exact ⟨runs,fun same => other (same ▸ runs)⟩
    have keeps : KeepsHold s v i o q ↔ s.held o = some i ∧ getTaskThreshold v i > q ∧ s.held q = none := by
      rw [KeepsHold,if_neg same]
      tauto
    rw [keeps]
    split
    · rename_i moves
      rw [free] at moves
      refine ⟨fun r j => ?_,fun j at_ => (runs j at_).1,fun at_ => absurd rfl (runs i at_).2⟩
      rw [hold_held,held',held]
      constructor
      · rintro (⟨rfl,rfl⟩ | ⟨_,holds,apart⟩)
        · exact .inr ⟨rfl,rfl,moves⟩
        · exact .inl ⟨apart,holds⟩
      · rintro (⟨apart,holds⟩ | ⟨rfl,rfl,_⟩)
        · exact .inr ⟨fun at_ => (by rw [at_,moves.2.2] at holds; cases holds),holds,apart⟩
        · exact .inl ⟨rfl,rfl⟩
    · rename_i stays
      rw [free] at stays
      refine ⟨fun r j => ?_,fun j at_ => (runs j at_).1,fun at_ => absurd rfl (runs i at_).2⟩
      rw [held',held]
      constructor
      · exact fun ⟨holds,apart⟩ => .inl ⟨apart,holds⟩
      · rintro (⟨apart,holds⟩ | ⟨_,_,moves⟩)
        · exact ⟨holds,apart⟩
        · exact absurd moves stays

-- Task `a` on level `p` is protected up to `T`: it holds its level if that is inside the band,
-- and no other holder stands in the way.
def Guards (a : Fin n) (T : Nat) (s : State n B) (v : Views n) (own : Prop) (p : Fin P) : Prop :=
  (p ≤ T → own) ∧ ∀ r j,s.held r = some j → j ≠ a → r ≤ T → r ≤ p ∧ (own ∨ getTaskThreshold v j < p)

instance [Decidable own] : Decidable (Guards a T s v own p) := inferInstanceAs (Decidable (_ ∧ _))

-- Task `i` moves from level `o` to level `q`, and as another task than `a` takes no hold into
-- the band.
def MovesAside (a : Fin n) (T : Nat) (s : State n B) (v v' : Views n) (i : Fin n) (p o q : Fin P) : Prop :=
  (i = a → Guards a T s v (KeepsHold s v' i o q) q) ∧
    (i ≠ a → KeepsHold s v' i o q → q ≤ T → q ≤ p ∧ (s.held p = some a ∨ getTaskThreshold v' i < p))

instance : Decidable (MovesAside a T s v v' i p o q) := inferInstanceAs (Decidable (_ ∧ _))

def movesAside (a : Fin n) (T : Nat) (s : State n B) (v v' : Views n) (i : Fin n) : Bool :=
  decide (∀ p o q,level P (v a).weight = some p → level P (v i).weight = some o → level P (v' i).weight = some q →
    MovesAside a T s v v' i p o q)

def keepsBand (a : Fin n) (T : Nat) (c : Client (strategy n B timeSlice)) : StrategyCall n → Bool
  | .onTaskWeightChange i view => movesAside a T c.state c.views (Function.update c.views i view) i
  | _ => true

-- Neither sleep, yield or removal of the task, nor a lower threshold.
def continues (a : Fin n) (c : Client (strategy n B timeSlice)) : StrategyCall n → Bool
  | .onTaskWeightChange i view => decide (i = a → decodeThreshold (c.views a).baseWeight ≤ decodeThreshold view.baseWeight)
  | e => !drops e a

structure Guarded (a : Fin n) (T : Nat) (c : Client (strategy n B timeSlice)) (p : Fin P) : Prop where
  inv : (lists n B timeSlice).Inv c.views.weights c.state
  inside : a ∈ c.state.levels.items p
  raised : T ≤ decodeThreshold (c.views a).baseWeight
  guards : Guards a T c.state c.views (c.state.held p = some a) p
  running : ∀ j,c.state.running = some j → j = a ∨ ∃ r : Fin P,T < r ∧ j ∈ c.state.levels.items r

variable {a : Fin n} {T : Nat}

theorem threshold_raw (v : Views n) (i : Fin n) : decodeThreshold (v i).baseWeight ≤ getTaskThreshold v i := by
  simp only [getTaskThreshold]
  split <;> omega

theorem threshold_congr {v v' : Views n} (same : v' i = v i) : getTaskThreshold v' i = getTaskThreshold v i := by
  unfold getTaskThreshold
  rw [same]

theorem Selects.kept (inv : (lists n B timeSlice).Inv c.views.weights c.state) (selects : Selects c.views c.state r held)
    (holds : c.state.held q = some k) : held q = some k := by
  have valid : Valid c.state := inv.valid
  cases selects with
  | idle | resumes => exact holds
  | @serves hi i linked top clear =>
    split
    · rw [Function.update_of_ne ?_]
      · exact holds
      · rintro rfl
        obtain ⟨p,j,_,highest⟩ := holder_highest valid holds
        have over_ := clear p j highest
        have prio : decodePriority (c.views j).weight = p := level_some (inv.filed p j (valid.linked p j highest.1))
        have least := threshold_ge c.views j
        have above : q ≤ p := highest.2 q k holds
        omega
    · exact holds

theorem Guarded.chosen (guarded : Guarded a T c p) (selects : Selects c.views c.state (some j) held) :
    (j = a ∨ ∃ r : Fin P,T < r ∧ j ∈ c.state.levels.items r) ∧
      ∀ r k,held r = some k → c.state.held r = some k ∨ T < r ∧ k ∈ c.state.levels.items r := by
  have valid : Valid c.state := guarded.inv.valid
  have raw := threshold_raw c.views a
  have raised := guarded.raised
  cases selects with
  | @resumes q _ hi holds top within =>
    refine ⟨?_,fun r k holds => .inl holds⟩
    by_cases at_ : j = a
    · exact .inl at_
    · have linked := valid.linked q j holds.1
      refine .inr ⟨q,?_,linked⟩
      by_contra low
      obtain ⟨below,own⟩ := guarded.guards.2 q j holds.1 at_ (by omega)
      have least : p ≤ hi := top.2 p (List.ne_nil_of_mem guarded.inside)
      rcases own with own | over_
      · have same : p = q := Fin.le_antisymm (holds.2 p a own) below
        rw [same] at own
        exact at_ (Option.some.inj (holds.1.symm.trans own))
      · omega
  | @serves hi _ linked top clear =>
    have least : p ≤ hi := top.2 p (List.ne_nil_of_mem guarded.inside)
    have high : T < hi := by
      by_contra low
      have own := guarded.guards.1 (by omega)
      obtain ⟨q,k,_,holds⟩ := holder_highest valid own
      have over_ := clear q k holds
      have prio := level_some (guarded.inv.filed q k (valid.linked q k holds.1))
      have least := threshold_ge c.views k
      change decodePriority (c.views k).weight = q at prio
      by_cases at_ : k = a
      · subst at_
        omega
      · have below := (guarded.guards.2 q k holds.1 at_ (by omega)).1
        have same : p = q := Fin.le_antisymm (holds.2 p a own) below
        rw [same] at own
        exact at_ (Option.some.inj (holds.1.symm.trans own))
    refine ⟨.inr ⟨hi,high,linked⟩,fun r k holds => ?_⟩
    split at holds
    · rw [Function.update_apply] at holds
      split at holds
      · cases holds
        subst r
        exact .inr ⟨high,linked⟩
      · exact .inl holds
    · exact .inl holds

theorem Guarded.next (guarded : Guarded a T c p) (taken : c.step .getNext = some d) : Guarded a T d p := by
  have inv := Client.step_inv (lists n B timeSlice).lawful rfl guarded.inv taken
  obtain ⟨selects,running,views,items⟩ := getNext_taken guarded.inv taken
  have kept : ∀ {q k},c.state.held q = some k → d.state.held q = some k := fun holds => selects.kept guarded.inv holds
  have chosen : (∀ j,d.last = some j → j = a ∨ ∃ r : Fin P,T < r ∧ j ∈ c.state.levels.items r) ∧
      ∀ r k,d.state.held r = some k → c.state.held r = some k ∨ T < r ∧ k ∈ c.state.levels.items r := by
    generalize d.last = last at selects
    cases last with
    | none =>
      refine ⟨fun j none => (by cases none),fun r k holds => ?_⟩
      generalize d.state.held = held at selects holds
      cases selects
      exact .inl holds
    | some j =>
      obtain ⟨own,others⟩ := guarded.chosen selects
      exact ⟨fun k same => Option.some.inj same ▸ own,others⟩
  refine ⟨inv,items ▸ guarded.inside,views ▸ guarded.raised,⟨fun low => kept (guarded.guards.1 low),fun r j holds other low => ?_⟩,
    fun j runs => ?_⟩
  · rcases chosen.2 r j holds with holds | ⟨high,_⟩
    · obtain ⟨below,own⟩ := guarded.guards.2 r j holds other low
      refine ⟨below,own.imp kept fun less => ?_⟩
      rwa [views]
    · omega
  · rw [items]
    exact chosen.1 j (running ▸ runs)

theorem Guarded.calm (guarded : Guarded a T c p) (quiet_ : Quiet c e d) (inv : (lists n B timeSlice).Inv d.views.weights d.state)
    (kept : drops e a = false) : Guarded a T d p := by
  have valid : Valid c.state := guarded.inv.valid
  refine ⟨inv,quiet_.stays p a kept guarded.inside,?_,⟨fun low => ?_,fun r j holds other low => ?_⟩,fun j runs => ?_⟩
  · rw [quiet_.views p a guarded.inside]
    exact guarded.raised
  · exact (quiet_.held p a).mpr ⟨guarded.guards.1 low,kept⟩
  · have holds := ((quiet_.held r j).mp holds).1
    obtain ⟨below,own⟩ := guarded.guards.2 r j holds other low
    refine ⟨below,own.imp (fun own => (quiet_.held p a).mpr ⟨own,kept⟩) fun less => ?_⟩
    rwa [threshold_congr (quiet_.views r j (valid.linked r j holds))]
  · obtain ⟨runs,stays⟩ := quiet_.running j runs
    refine (guarded.running j runs).imp id ?_
    rintro ⟨r,high,inside⟩
    exact ⟨r,high,stays r inside⟩

structure Reweighs (c : Client (strategy n B timeSlice)) (i : Fin n) (v : Views n) (d : Client (strategy n B timeSlice))
    (o q : Fin P) : Prop where
  linked : i ∈ c.state.levels.items o
  was : level P (c.views i).weight = some o
  now : level P (v i).weight = some q
  views : d.views = v
  here : i ∈ d.state.levels.items q
  others : ∀ j r,j ≠ i → (j ∈ d.state.levels.items r ↔ j ∈ c.state.levels.items r)
  held : ∀ r j,d.state.held r = some j ↔ j ≠ i ∧ c.state.held r = some j ∨ j = i ∧ r = q ∧ KeepsHold c.state v i o q
  running : ∀ j,d.state.running = some j → c.state.running = some j
  still : d.state.running = some i → o = q

theorem step_reweighs (inv : (lists n B timeSlice).Inv c.views.weights c.state)
    (taken : c.step (.onTaskWeightChange i view) = some d) :
    i ∈ c.state.sleep ∧ d.state = c.state ∧ d.views = Function.update c.views i view ∨
      ∃ o q,Reweighs c i (Function.update c.views i view) d o q := by
  have valid : Valid c.state := inv.valid
  cases Client.step_steps taken with
  | onTaskWeightChange _ filed called =>
    rcases (lists n B timeSlice).filed_cases inv filed with asleep | ⟨o,was,linked⟩
    · exact .inl ⟨asleep,Option.some.inj (called.symm.trans (if_pos asleep)),rfl⟩
    · have awake : i ∉ c.state.sleep := fun asleep => inv.apart i asleep o linked
      obtain ⟨_,_,⟨asleep,_⟩ | ⟨p,q,inside,now,here,mem⟩⟩ := onTaskWeightChange_parts valid (.inr ⟨o,was,linked⟩) called
      · exact absurd asleep awake
      · obtain ⟨held,running,still⟩ := onTaskWeightChange_holds valid awake linked was now called
        exact .inr ⟨o,q,linked,was,now,rfl,here,fun j r other => by simp [mem j r (.inl other),other],held,running,still⟩

theorem Reweighs.guarded (moves : Reweighs c a v d o q) (inv : (lists n B timeSlice).Inv d.views.weights d.state)
    (same : ∀ j,j ≠ a → v j = c.views j) (raised : T ≤ decodeThreshold (v a).baseWeight)
    (guards : Guards a T c.state c.views (KeepsHold c.state v a o q) q)
    (running : ∀ j,c.state.running = some j → j = a ∨ ∃ r : Fin P,T < r ∧ j ∈ c.state.levels.items r) : Guarded a T d q := by
  have own : d.state.held q = some a ↔ KeepsHold c.state v a o q := by simp [moves.held]
  refine ⟨inv,moves.here,moves.views ▸ raised,⟨fun low => own.mpr (guards.1 low),fun r j holds other low => ?_⟩,fun j runs => ?_⟩
  · have holds := (((moves.held r j).mp holds).resolve_right fun here => other here.1).2
    obtain ⟨below,keeps⟩ := guards.2 r j holds other low
    refine ⟨below,keeps.imp own.mpr fun less => ?_⟩
    rwa [moves.views,threshold_congr (same j other)]
  · by_cases at_ : j = a
    · exact .inl at_
    · obtain ⟨r,high,inside⟩ := (running j (moves.running j runs)).resolve_left at_
      exact .inr ⟨r,high,(moves.others j r at_).mpr inside⟩

theorem Guarded.passes (guarded : Guarded a T c p) (moves : Reweighs c i v d o q)
    (inv : (lists n B timeSlice).Inv d.views.weights d.state) (same : ∀ j,j ≠ i → v j = c.views j) (other : i ≠ a)
    (aside : KeepsHold c.state v i o q → q ≤ T → q ≤ p ∧ (c.state.held p = some a ∨ getTaskThreshold v i < p)) : Guarded a T d p := by
  have own : d.state.held p = some a ↔ c.state.held p = some a := by simp [moves.held,other.symm]
  refine ⟨inv,(moves.others a p other.symm).mpr guarded.inside,?_,⟨fun low => own.mpr (guarded.guards.1 low),fun r j holds apart low => ?_⟩,
    fun j runs => ?_⟩
  · rw [moves.views,same a other.symm]
    exact guarded.raised
  · rw [own,moves.views]
    rcases (moves.held r j).mp holds with ⟨elsewhere,holds⟩ | ⟨rfl,rfl,keeps⟩
    · rw [threshold_congr (same j elsewhere)]
      exact guarded.guards.2 r j holds apart low
    · exact aside keeps low
  · refine (guarded.running j (moves.running j runs)).imp id ?_
    rintro ⟨r,high,inside⟩
    by_cases at_ : j = i
    · subst at_
      obtain rfl := c.state.levels.items_apart inside moves.linked
      exact ⟨r,high,moves.still runs ▸ moves.here⟩
    · exact ⟨r,high,(moves.others j r at_).mpr inside⟩

theorem movesAside_parts {v' : Views n} (aside : movesAside a T s v v' i = true) (filed : level P (v a).weight = some p)
    (was : level P (v i).weight = some o) (now : level P (v' i).weight = some q) : MovesAside a T s v v' i p o q :=
  of_decide_eq_true aside p o q filed was now

theorem Guarded.step (guarded : Guarded a T c p) (continues_ : continues a c e = true) (keeps : keepsBand a T c e = true)
    (taken : c.step e = some d) : ∃ q,Guarded a T d q := by
  have inv := Client.step_inv (lists n B timeSlice).lawful rfl guarded.inv taken
  cases e with
  | getNext => exact ⟨p,guarded.next taken⟩
  | onTaskWeightChange i view =>
    have same : ∀ j,j ≠ i → Function.update c.views i view j = c.views j := fun j other => Function.update_of_ne other _ _
    rcases step_reweighs guarded.inv taken with ⟨asleep,state,views⟩ | ⟨o,q,moves⟩
    · -- Nothing is said about a sleeping task.
      have awake : ∀ {r j},j ∈ c.state.levels.items r → j ≠ i := by
        rintro r j inside rfl
        exact guarded.inv.apart j asleep r inside
      refine ⟨p,inv,state ▸ guarded.inside,?_,⟨fun low => state ▸ guarded.guards.1 low,fun r j holds other low => ?_⟩,
        state ▸ guarded.running⟩
      · rw [views,same a (awake guarded.inside)]
        exact guarded.raised
      · rw [state] at holds ⊢
        rw [views,threshold_congr (same j (awake (guarded.inv.valid.linked r j holds)))]
        exact guarded.guards.2 r j holds other low
    · have aside := movesAside_parts keeps (guarded.inv.filed p a guarded.inside) moves.was moves.now
      by_cases at_ : i = a
      · subst at_
        refine ⟨q,moves.guarded inv same ?_ (aside.1 rfl) guarded.running⟩
        rw [Function.update_self]
        exact le_trans guarded.raised (of_decide_eq_true continues_ rfl)
      · exact ⟨p,guarded.passes moves inv same at_ (aside.2 at_)⟩
  | _ => exact ⟨p,guarded.calm (step_quiet guarded.inv rfl taken) inv (Bool.not_eq_true' _ |>.mp continues_)⟩

theorem running_last (run : Transition.Run Client.step Allowed (.initial (strategy n B timeSlice)) c) (j : Fin n)
    (runs : c.state.running = some j) : c.last = some j := by
  have reached := run.keeps (I := fun c : Client (strategy n B timeSlice) => (lists n B timeSlice).Inv c.views.weights c.state ∧
    ∀ j,c.state.running = some j → c.last = some j) ⟨(lists n B timeSlice).lawful.initial,fun j none => (by cases none)⟩ (by
    rintro c e d ⟨inv,last⟩ _ taken
    refine ⟨Client.step_inv (lists n B timeSlice).lawful rfl inv taken,fun j runs => ?_⟩
    cases e with
    | getNext => rw [← (getNext_taken inv taken).2.1]; exact runs
    | onTaskWeightChange i view =>
      rw [Client.step_last (by simp) taken]
      rcases step_reweighs inv taken with ⟨_,state,_⟩ | ⟨o,q,moves⟩
      · exact last j (state ▸ runs)
      · exact last j (moves.running j runs)
    | _ =>
      rw [Client.step_last (by simp) taken]
      exact last j ((step_quiet inv rfl taken).running j runs).1)
  exact reached.2 j runs

-- A rotation is requested of levels with tasks only, and of none without time slices.
def Turns (timeSlice : Bool) (s : State n B) : Prop :=
  ∀ p,B.isSet s.advanceBitmap p = true → timeSlice = true ∧ ∃ i,i ∈ s.levels.items p

theorem Turns.joins (turns : Turns timeSlice s) (same : t.advanceBitmap = s.advanceBitmap)
    (items : t.levels.items = Function.update s.levels.items p (s.levels.items p ++ [i])) : Turns timeSlice t := fun q set =>
  (turns q (same ▸ set)).imp_right fun ⟨j,inside⟩ => ⟨j,(Levelled.mem_join items).mpr (.inl inside)⟩

theorem Turns.add (turns : Turns timeSlice s) (added : addActive v i s = some t) : Turns timeSlice t := by
  obtain ⟨_,_,p,_,items⟩ := addActive_parts added
  obtain ⟨_,_,added⟩ := of_bind added
  obtain ⟨_,_,rfl⟩ := of_return added
  exact turns.joins rfl items

theorem Turns.request (turns : Turns true s) (inside : i ∈ s.levels.items p) (set : t.advanceBitmap = B.set s.advanceBitmap p)
    (items : t.levels.items = s.levels.items) : Turns true t := by
  intro q turned
  rw [set,B.isSet_set] at turned
  rw [items]
  by_cases at_ : q = p
  · exact ⟨rfl,i,at_ ▸ inside⟩
  · exact turns q (by simpa [at_] using turned)

theorem Turns.remove (turns : Turns timeSlice s) (removed : removeActive timeSlice i p s = some t) : Turns timeSlice t := by
  obtain ⟨_,_,_,items⟩ := removeActive_parts removed
  obtain ⟨levels,_,rfl⟩ := of_return removed
  intro q set
  dsimp only at set items ⊢
  cases timeSlice with
  | false => cases (turns q set).1
  | true =>
    rw [if_pos rfl] at set
    by_cases at_ : q = p
    · subst at_
      refine ⟨rfl,List.exists_mem_of_ne_nil _ fun empty => ?_⟩
      rw [if_pos empty,B.isSet_clear] at set
      simp at set
    · rw [items,Function.update_of_ne at_]
      refine turns q ?_
      split at set
      · simpa [B.isSet_clear,at_] using set
      · split at set
        · simpa [B.isSet_set,at_] using set
        · exact set

theorem takeNext_turns (taken : takeNext timeSlice hi s = some (i,t)) (set : B.isSet t.advanceBitmap p = true) :
    B.isSet s.advanceBitmap p = true := by
  unfold takeNext at taken
  extract_lets advance w at taken
  have kept : B.isSet w.advanceBitmap p = true → B.isSet s.advanceBitmap p = true := by
    simp only [w]
    split
    · exact fun set => (Bool.and_eq_true_iff.mp (B.isSet_clear ▸ set)).2
    · exact id
  split at taken
  · obtain ⟨_,_,same⟩ := of_bind taken
    cases same
    exact kept set
  · obtain ⟨_,_,same⟩ := of_bind taken
    obtain ⟨_,rfl⟩ := Prod.mk.inj (Option.some.inj same)
    exact kept set

theorem Turns.updateHold (turns : Turns timeSlice s) : Turns timeSlice (updateHold v i p s) := by
  unfold PreemptionThreshold.updateHold State.releaseOf
  split <;> split <;> exact turns

structure Coherent (c : Client (strategy n B timeSlice)) : Prop where
  inv : (lists n B timeSlice).Inv c.views.weights c.state
  band : ∀ p i,c.state.held p = some i → p < getTaskThreshold c.views i
  runs : ∀ i,c.state.running = some i → ∃ p,i ∈ c.state.levels.items p
  turns : Turns timeSlice c.state

theorem step_turns (inv : (lists n B timeSlice).Inv c.views.weights c.state) (turns : Turns timeSlice c.state)
    (taken : c.step e = some d) : Turns timeSlice d.state := by
  cases Client.step_steps taken with
  | addTask free added =>
    obtain ⟨_,_,_,_,items⟩ := addTask_parts added
    refine turns.joins ?_ items
    change addTask _ _ _ _ = _ at added
    unfold addTask addActive at added
    split at added <;> (obtain ⟨_,_,added⟩ := of_bind added; obtain ⟨_,_,rfl⟩ := of_return added; rfl)
  | removeTask removed =>
    change removeTask _ _ _ _ = _ at removed
    unfold removeTask at removed
    split at removed
    · obtain ⟨_,_,rfl⟩ := of_return removed
      exact turns
    · obtain ⟨_,_,removed⟩ := of_bind removed
      exact turns.remove removed
  | @getNext next σ called =>
    have items := (getNext_parts inv.valid called).2.2.1
    refine fun p set => items ▸ turns p ?_
    rcases getNext_paths inv.valid called with ⟨_,_,rfl⟩ | ⟨i,_,path⟩
    · exact set
    · cases path with
      | resumes => exact set
      | serves _ _ served =>
        refine takeNext_turns served ?_
        dsimp only at set
        split at set <;> exact set
  | onTaskSleep slept =>
    obtain ⟨_,_,slept⟩ := of_bind slept
    obtain ⟨_,removed,slept⟩ := of_bind slept
    obtain ⟨_,_,rfl⟩ := of_return slept
    have left := turns.remove removed
    exact left
  | onTaskWake woken =>
    obtain ⟨sleep,_,woken⟩ := of_bind woken
    have rested : Turns timeSlice {c.state with sleep := sleep} := turns
    exact rested.add woken
  | onTaskWeightChange _ _ called =>
    change onTaskWeightChange _ _ _ _ _ = _ at called
    unfold onTaskWeightChange at called
    split at called
    · cases called
      exact turns
    · obtain ⟨_,_,called⟩ := of_bind called
      obtain ⟨_,_,called⟩ := of_bind called
      split at called
      · cases called
        exact turns.updateHold
      · obtain ⟨_,removed,called⟩ := of_bind called
        obtain ⟨_,added,rfl⟩ := of_return called
        have joined := (turns.remove removed).add added
        dsimp only
        split <;> exact joined
  | onTaskYield called =>
    have items := (onTaskYield_parts inv.valid called).2.2
    change onTaskYield _ _ _ _ = _ at called
    unfold onTaskYield at called
    split at called
    · cases called; exact turns
    · split at called
      · obtain ⟨levels,_,same⟩ := of_bind called
        cases same
        cases timeSlice with
        | false => exact fun p set => items ▸ turns p set
        | true => exact turns.request ‹_› rfl items
      · cases called; exact turns
  | onTaskTimeSlice called =>
    have items := (onTaskTimeSlice_parts inv.valid called).2.2
    change onTaskTimeSlice _ _ _ _ = _ at called
    unfold onTaskTimeSlice at called
    split at called
    · cases called; exact turns
    · split at called
      · rename_i rotates
        obtain ⟨levels,_,same⟩ := of_bind called
        cases same
        obtain ⟨rfl,inside,_⟩ := rotates
        exact turns.request inside rfl items
      · cases called; exact turns

theorem Coherent.step (coherent : Coherent c) (taken : c.step e = some d) : Coherent d := by
  have inv := Client.step_inv (lists n B timeSlice).lawful rfl coherent.inv taken
  have valid : Valid c.state := coherent.inv.valid
  refine ⟨inv,?_,?_,step_turns coherent.inv coherent.turns taken⟩
  · intro p i holds
    cases e with
    | getNext =>
      obtain ⟨selects,_,views,_⟩ := getNext_taken coherent.inv taken
      rw [views]
      generalize d.last = next at selects
      generalize d.state.held = held at selects holds
      cases selects with
      | idle | resumes => exact coherent.band p i holds
      | serves linked top above =>
        split at holds
        · rename_i hi j banded
          by_cases at_ : p = hi
          · subst at_
            rw [Function.update_self] at holds
            exact Option.some.inj holds ▸ banded
          · exact coherent.band p i (by rwa [Function.update_of_ne at_] at holds)
        · exact coherent.band p i holds
    | onTaskWeightChange j view =>
      rcases step_reweighs coherent.inv taken with ⟨asleep,state,views⟩ | ⟨o,q,moves⟩
      · rw [state] at holds
        have apart : i ≠ j := by
          rintro rfl
          exact coherent.inv.apart i asleep p (valid.linked p i holds)
        rw [views,threshold_congr (Function.update_of_ne apart _ _)]
        exact coherent.band p i holds
      · rw [moves.views]
        rcases (moves.held p i).mp holds with ⟨apart,holds⟩ | ⟨rfl,rfl,keeps⟩
        · rw [threshold_congr (Function.update_of_ne apart _ _)]
          exact coherent.band p i holds
        · exact keeps.1
    | _ =>
      have quiet_ := step_quiet coherent.inv rfl taken
      have held := ((quiet_.held p i).mp holds).1
      rw [threshold_congr (quiet_.views p i (valid.linked p i held))]
      exact coherent.band p i held
  · intro i runs
    cases e with
    | getNext =>
      obtain ⟨⟨next,σ⟩,called,rfl⟩ := of_return taken
      obtain ⟨_,_,items,chosen,_⟩ := getNext_parts valid called
      obtain ⟨p,inside⟩ := chosen i ((getNext_selects valid called).2.symm.trans runs)
      exact ⟨p,items ▸ inside⟩
    | onTaskWeightChange j view =>
      rcases step_reweighs coherent.inv taken with ⟨_,state,_⟩ | ⟨o,q,moves⟩
      · exact state ▸ coherent.runs i (state ▸ runs)
      · by_cases at_ : i = j
        · exact ⟨q,at_ ▸ moves.here⟩
        · obtain ⟨p,inside⟩ := coherent.runs i (moves.running i runs)
          exact ⟨p,(moves.others i p at_).mpr inside⟩
    | _ =>
      obtain ⟨before,stays⟩ := (step_quiet coherent.inv rfl taken).running i runs
      obtain ⟨p,inside⟩ := coherent.runs i before
      exact ⟨p,stays p inside⟩

theorem bitmaps_consistent (B : IndexSet P) {c : Client (strategy n B timeSlice)}
    (run : Transition.Run Client.step (fun _ _ => True) (.initial _) c) :
    (∀ p,(B.isSet c.state.levels.ready p = true ↔ c.state.levels.items p ≠ []) ∧
      (c.state.levels.items p ≠ [] → ∃ i ∈ c.state.levels.items p,(c.state.levels.lists p).cursor = some i) ∧
      (B.isSet c.state.heldBitmap p = true ↔ c.state.held p ≠ none) ∧
      (∀ i,c.state.held p = some i → i ∈ c.state.levels.items p ∧ decodePriority (c.views i).weight = p ∧
        p < getTaskThreshold c.views i) ∧
      (B.isSet c.state.advanceBitmap p = true → c.state.levels.items p ≠ [])) ∧
    ∀ i,c.state.running = some i → (strategy n B timeSlice).place c.state i = .ready := by
  have start : Coherent (.initial (strategy n B timeSlice)) := by
    refine ⟨(lists n B timeSlice).lawful.initial,fun p i holds => (by cases holds),fun i runs => (by cases runs),fun p set => ?_⟩
    change B.isSet B.empty p = true at set
    simp [B.isSet_empty] at set
  have coherent := run.keeps start fun c e d coherent _ taken => coherent.step taken
  have valid : Valid c.state := coherent.inv.valid
  refine ⟨fun p => ⟨c.state.levels.exact p,fun some => ?_,?_,fun i holds => ?_,fun set => ?_⟩,fun i runs => ?_⟩
  · cases at_ : (c.state.levels.lists p).cursor with
    | none => exact absurd ((c.state.levels.lists p).placed at_) some
    | some i => exact ⟨i,(c.state.levels.lists p).member i at_,rfl⟩
  · rw [valid.marked,Option.isSome_iff_ne_none]
  · have inside := valid.linked p i holds
    exact ⟨inside,level_some (coherent.inv.filed p i inside),coherent.band p i holds⟩
  · obtain ⟨_,_,inside⟩ := coherent.turns p set
    exact List.ne_nil_of_mem inside
  · exact ((lists n B timeSlice).place_ready_iff coherent.inv).mpr (coherent.runs i runs)

def heldSlice (x y z : Fin n) : List (StrategyCall n) :=
  [.addTask x (banded 1 2),.getNext,.addTask y (banded 3 3),.addTask z (banded 3 3),.getNext,.onTaskTimeSlice y]

theorem heldSlice_consistent :
    ∃ c : Client (strategy 3 (readyBitmapSelect 4 (by decide)) true),Transition.exec Client.step (.initial _) (heldSlice 0 1 2) = some c ∧
      c.state.held 1 = some 0 ∧ 1 < getTaskThreshold c.views 0 ∧ c.state.levels.items 3 ≠ [] :=
  Transition.exec_shows (P := fun c => c.state.held 1 = some 0 ∧
    (readyBitmapSelect 4 (by decide)).isSet c.state.advanceBitmap 3 = true) (by decide) fun _ ran found =>
    have levels := (bitmaps_consistent _ (.ofExec ran)).1
    ⟨found.1,((levels 1).2.2.2.1 0 found.1).2.2,(levels 3).2.2.2.2 found.2⟩

end SuperTinyKernel.PreemptionThreshold

namespace SuperTinyKernel

open Transition PreemptionThreshold

-- The task GetNext returned last raises its threshold. While no change of a weight takes its
-- protection away, only tasks above the threshold are selected over it.
theorem raised_threshold_protects (B : IndexSet P) {c c' d d' : Client (PreemptionThreshold.strategy n B timeSlice)} {a : Fin n}
    (history : Run Client.step (fun _ _ => True) (.initial _) c) (last : c.last = some a)
    (ready : (PreemptionThreshold.strategy n B timeSlice).place c.state a = .ready)
    (keeps : keepsBand a (decodeThreshold view.baseWeight) c (.onTaskWeightChange a view) = true)
    (raised : c.step (.onTaskWeightChange a view) = some c')
    (run : Run Client.step
      (fun c e => (continues a c e && keepsBand a (decodeThreshold view.baseWeight) c e) = true) c' d)
    (next : d.step .getNext = some d') (selected : d'.last = some j) :
    j = a ∨ decodeThreshold view.baseWeight < decodePriority (d.views j).weight := by
  have inv := Client.reached_inv (lists n B timeSlice).lawful rfl history
  have inv' := Client.step_inv (lists n B timeSlice).lawful rfl inv raised
  obtain ⟨p,inside⟩ := ((lists n B timeSlice).place_ready_iff inv).mp ready
  have start : ∃ q,Guarded a (decodeThreshold view.baseWeight) c' q := by
    rcases step_reweighs inv raised with ⟨asleep,_⟩ | ⟨o,q,moves⟩
    · exact absurd inside (inv.apart a asleep p)
    · have aside := movesAside_parts keeps moves.was moves.was moves.now
      refine ⟨q,moves.guarded inv' (fun j other => Function.update_of_ne other _ _) (by rw [Function.update_self])
        (aside.1 rfl) fun j runs => .inl ?_⟩
      exact Option.some.inj ((running_last history j runs).symm.trans last)
  obtain ⟨q,guarded⟩ := run.keeps (I := fun c => ∃ q,Guarded a (decodeThreshold view.baseWeight) c q) start (by
    rintro c e d ⟨q,guarded⟩ allowed taken
    obtain ⟨continues_,keeps⟩ := Bool.and_eq_true_iff.mp allowed
    exact guarded.step continues_ keeps taken)
  obtain ⟨selects,_⟩ := getNext_taken guarded.inv next
  rw [selected] at selects
  refine (guarded.chosen selects).1.imp id ?_
  rintro ⟨r,high,linked⟩
  have prio : decodePriority (d.views j).weight = r := level_some (guarded.inv.filed r j linked)
  omega

def runningTask (x y : Fin n) : List (StrategyCall n) := [.addTask x (banded 1 1),.addTask y (banded 2 2),.onTaskSleep y,.getNext]

def raisedThreshold (y z : Fin n) : List (StrategyCall n) := [.onTaskWake y,.getNext,.addTask z (banded 3 3)]

theorem raisedThreshold_protects :
    ∃ (c c' d d' : Client (PreemptionThreshold.strategy 3 (readyBitmapSelect 4 (by decide)) false)) (j : Fin 3),
      exec Client.step (.initial _) (runningTask 0 1) = some c ∧ c.last = some 0 ∧
      c.step (.onTaskWeightChange 0 (banded 1 2)) = some c' ∧ exec Client.step c' (raisedThreshold 1 2) = some d ∧
      d.last = some 0 ∧ d.step .getNext = some d' ∧ d'.last = some j ∧ j ≠ 0 ∧ 2 < decodePriority (d.views j).weight := by
  have found : ∃ c : Client (PreemptionThreshold.strategy 3 (readyBitmapSelect 4 (by decide)) false),
      exec Client.step (.initial _) (runningTask 0 1) = some c ∧
      c.last = some 0 ∧ (PreemptionThreshold.strategy 3 (readyBitmapSelect 4 (by decide)) false).place c.state 0 = .ready ∧
      keepsBand 0 2 c (.onTaskWeightChange 0 (banded 1 2)) = true ∧ ∃ c',c.step (.onTaskWeightChange 0 (banded 1 2)) = some c' ∧
      execAllowed Client.step (fun c e => continues 0 c e && keepsBand 0 2 c e) c' (raisedThreshold 1 2) = true ∧
      ∃ d,exec Client.step c' (raisedThreshold 1 2) = some d ∧ d.last = some 0 ∧
      ∃ d',d.step .getNext = some d' ∧ d'.last = some 2 := by decide
  obtain ⟨c,ran,last,ready,keeps,c',raised,allowed,d,continued,resumed,d',next,selected⟩ := found
  have above := raised_threshold_protects _ (.ofExec ran) last ready keeps raised
    (.ofExecAllowed (fun c e => continues 0 c e && keepsBand 0 2 c e) allowed continued) next selected
  exact ⟨c,c',d,d',2,ran,last,raised,continued,resumed,next,selected,by decide,above.resolve_left (by decide)⟩

-- Task 0 inherits priority 3 and gets its own back. Its raised threshold does not keep task 1
-- away.
def restoredTask (x y : Fin n) : List (StrategyCall n) :=
  runningTask x y ++ [.onTaskWeightChange x ⟨false,makeWeight 3 3,makeWeight 1 1,0,0,0⟩,.onTaskWeightChange x (banded 1 1)]

theorem restoredTask_unprotected :
    ∃ (c c' d d' : Client (PreemptionThreshold.strategy 3 (readyBitmapSelect 4 (by decide)) false)),
      Run Client.step (fun _ _ => True) (.initial _) c ∧ c.running = some 0 ∧
      (PreemptionThreshold.strategy 3 (readyBitmapSelect 4 (by decide)) false).place c.state 0 = .ready ∧
      level 4 (c.views 0).weight = some 1 ∧ c.state.held 1 = none ∧ decodeThreshold (c.views 0).baseWeight < 2 ∧
      c.step (.onTaskWeightChange 0 (banded 1 2)) = some c' ∧
      Run Client.step (fun c e => continues 0 c e = true) c' d ∧
      d.step .getNext = some d' ∧ d'.last = some 1 ∧ decodePriority (d.views 1).weight ≤ 2 := by
  have found : ∃ c : Client (PreemptionThreshold.strategy 3 (readyBitmapSelect 4 (by decide)) false),
      exec Client.step (.initial _) (restoredTask 0 1) = some c ∧
      (c.running = some 0 ∧ (PreemptionThreshold.strategy 3 (readyBitmapSelect 4 (by decide)) false).place c.state 0 = .ready ∧
        level 4 (c.views 0).weight = some 1 ∧ c.state.held 1 = none ∧ decodeThreshold (c.views 0).baseWeight < 2) ∧
      ∃ c',c.step (.onTaskWeightChange 0 (banded 1 2)) = some c' ∧
      execAllowed Client.step (continues 0) c' [.onTaskWake 1] = true ∧
      ∃ d,exec Client.step c' [.onTaskWake 1] = some d ∧
      ∃ d',d.step .getNext = some d' ∧ d'.last = some 1 ∧ decodePriority (d.views 1).weight ≤ 2 := by decide
  obtain ⟨c,ran,⟨runs,ready,level_,free,low⟩,c',raised,allowed,d,continued,d',next⟩ := found
  exact ⟨c,c',d,d',.ofExec ran,runs,ready,level_,free,low,raised,.ofExecAllowed _ allowed continued,next⟩

end SuperTinyKernel
