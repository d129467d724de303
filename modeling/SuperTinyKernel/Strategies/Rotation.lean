import SuperTinyKernel.Strategies.Client
import SuperTinyKernel.Strategies.Bundled
import SuperTinyKernel.Library.RotaOrder

namespace SuperTinyKernel

open Transition Function List

-- Strategies that serve their runnable tasks in turn: one closed-loop list with a cursor,
-- or one for each priority.

def Edits (op : Rota α → Option (Rota α)) (f g : Fin P → Rota α) : Prop :=
  ∃ p r,op (f p) = some r ∧ g = update f p r

structure Rotating (S : Strategy n) (P : Nat) where
  rotas : S.State → Fin P → Rota (Fin n)
  lists : ∀ σ,S.runnableLists σ = (List.finRange P).map fun p => (rotas σ p).items
  apart : ∀ σ,Rota.Apart (rotas σ)
  add : S.addTask v i σ = some τ → Edits (Rota.append i) (rotas σ) (rotas τ)
  remove : S.removeTask v i σ = some τ → rotas τ = rotas σ ∨ Edits (Rota.unlink i) (rotas σ) (rotas τ)
  sleep : S.onTaskSleep v i σ = some τ → Edits (Rota.unlink i) (rotas σ) (rotas τ)
  wake : S.onTaskWake v i σ = some τ → Edits (Rota.linkBack i) (rotas σ) (rotas τ)
  next : S.getNext v σ = some (r,τ) → r = none ∧ rotas τ = rotas σ ∨
    ∃ p i,r = some i ∧ (rotas σ p).advance.1 = some i ∧ rotas τ = update (rotas σ) p (rotas σ p).advance.2
  yield : S.onTaskYield v i σ = some (handled,τ) → rotas τ = rotas σ ∨ Edits (Rota.seek i) (rotas σ) (rotas τ)
  timeSlice : S.onTaskTimeSlice v i σ = some (rotated,τ) → rotas τ = rotas σ

namespace RoundRobin

theorem single {r r' : Rota α} {op : Rota α → Option (Rota α)} (edited : op r = some r') :
    Edits (P := 1) op (fun _ => r) fun _ => r' :=
  ⟨0,r',edited,by funext p; rw [Subsingleton.elim p 0,update_self]⟩

theorem runnableLists_rotas (n : Nat) (noSleepYield : Bool) (s : State n) :
    (strategy n noSleepYield).runnableLists s = (List.finRange 1).map fun _ => s.tasks.items := rfl

def rotating (n : Nat) (noSleepYield : Bool) : Rotating (strategy n noSleepYield) 1 where
  rotas s _ := s.tasks
  lists := runnableLists_rotas n noSleepYield
  apart _ := fun p q _ _ _ => Subsingleton.elim p q
  add added := by
    obtain ⟨tasks,linked,rfl⟩ := of_return added
    exact single linked
  remove removed := by
    change removeTask _ _ = _ at removed
    unfold removeTask at removed
    split at removed
    · obtain ⟨tasks,unlinked,rfl⟩ := of_return removed
      exact .inr (single unlinked)
    · obtain ⟨sleep,unlinked,rfl⟩ := of_return removed
      exact .inl rfl
  sleep slept := by
    obtain ⟨tasks,unlinked,slept⟩ := of_bind slept
    obtain ⟨sleep,linked,rfl⟩ := of_return slept
    exact single unlinked
  wake woken := by
    obtain ⟨sleep,unlinked,woken⟩ := of_bind woken
    obtain ⟨tasks,linked,rfl⟩ := of_return woken
    exact single linked
  next called := by
    rename_i σ _ _
    obtain ⟨rfl,rfl⟩ := Prod.mk.inj (Option.some.inj called)
    rcases σ.tasks.advance_cases with ⟨none,same⟩ | ⟨i,served⟩
    · exact .inl ⟨none,funext fun _ => same⟩
    · exact .inr ⟨0,i,served,served,funext fun p => by rw [Subsingleton.elim p 0,update_self]⟩
  yield called := by
    obtain rfl := congrArg Prod.snd (Option.some.inj called)
    simp only [onTaskYield]
    split
    · split
      · rename_i moved
        exact .inr (single moved)
      · exact .inl rfl
    · exact .inl rfl
  timeSlice called := by cases called; rfl

end RoundRobin

namespace FixedPriority

variable {P : Nat} {B : IndexSet P} {s t : State n B} {v : Views n} {i : Fin n}

theorem addActive_edits (added : addActive v i s = some t) : Edits (Rota.linkBack i) s.levels.lists t.levels.lists := by
  obtain ⟨p,_,added⟩ := of_bind added
  obtain ⟨levels,linked,rfl⟩ := of_return added
  obtain ⟨r,back,relinked⟩ := of_bind linked
  exact ⟨p,r,back,Levels.relink_lists relinked⟩

theorem removeActive_edits (removed : removeActive i w s = some t) :
    Edits (Rota.unlink i) s.levels.lists t.levels.lists := by
  obtain ⟨p,_,removed⟩ := of_bind removed
  obtain ⟨levels,unlinked,rfl⟩ := of_return removed
  obtain ⟨r,gone,relinked⟩ := of_bind unlinked
  exact ⟨p,r,gone,Levels.relink_lists relinked⟩

theorem runnableLists_rotas (n : Nat) (B : IndexSet P) (noSleepYield : Bool) (s : State n B) :
    (strategy n B noSleepYield).runnableLists s = (List.finRange P).map fun p => (s.levels.lists p).items := rfl

def rotating (n : Nat) (B : IndexSet P) (noSleepYield : Bool) : Rotating (strategy n B noSleepYield) P where
  rotas s := s.levels.lists
  lists := runnableLists_rotas n B noSleepYield
  apart s := s.levels.apart
  add added := by
    obtain ⟨p,_,added⟩ := of_bind added
    obtain ⟨levels,linked,same⟩ := of_bind added
    cases same
    obtain ⟨r,back,relinked⟩ := of_bind linked
    exact ⟨p,r,back,Levels.relink_lists relinked⟩
  remove removed := by
    change removeTask _ _ _ = _ at removed
    unfold removeTask at removed
    split at removed
    · obtain ⟨sleep,_,same⟩ := of_bind removed
      cases same
      exact .inl rfl
    · exact .inr (removeActive_edits removed)
  sleep slept := by
    obtain ⟨u,removed,slept⟩ := of_bind slept
    obtain ⟨sleep,_,same⟩ := of_bind slept
    cases same
    have left := removeActive_edits removed
    exact left
  wake woken := by
    obtain ⟨sleep,_,woken⟩ := of_bind woken
    have joined := addActive_edits woken
    exact joined
  next called := by
    change getNext _ = _ at called
    unfold getNext at called
    split at called
    · cases called
      exact .inl ⟨rfl,rfl⟩
    · obtain ⟨p,_,called⟩ := of_bind called
      obtain ⟨⟨i,levels⟩,served,same⟩ := of_bind called
      cases same
      obtain ⟨j,next,served⟩ := of_bind served
      obtain ⟨l,relinked,same⟩ := of_bind served
      cases same
      exact .inr ⟨p,i,rfl,next,Levels.relink_lists relinked⟩
  yield called := by
    change onTaskYield _ _ _ _ = _ at called
    unfold onTaskYield at called
    split at called
    · obtain ⟨p,_,called⟩ := of_bind called
      split at called
      · obtain ⟨levels,moved,same⟩ := of_bind called
        cases same
        obtain ⟨r,found,relinked⟩ := of_bind moved
        exact .inr ⟨p,r,found,Levels.relink_lists relinked⟩
      · cases called
        exact .inl rfl
    · cases called
      exact .inl rfl
  timeSlice called := by cases called; rfl

end FixedPriority

namespace Client

variable {S : Strategy n} {c d : Client S}

def keepsBoth (x y : Fin n) : StrategyCall n → Bool
  | .removeTask i | .onTaskSleep i => decide (i ≠ x ∧ i ≠ y)
  | .onTaskWeightChange _ _ => false
  | _ => true

def yieldsLast (c : Client S) : StrategyCall n → Bool
  | .onTaskYield i => decide (c.last = some i)
  | _ => true

def yieldsRunning (c : Client S) : StrategyCall n → Bool
  | .onTaskYield i => decide (c.running = some i)
  | _ => true

end Client

namespace Rotating

variable {S : Strategy n} (rotating : Rotating S P) {c d : Client S} {x y : Fin n} {p : Fin P} {log : List (Fin n)}

theorem free_absent (free : S.place c.state i = .free) (q : Fin P) : i ∉ (rotating.rotas c.state q).items := by
  intro inside
  refine (S.place_free_iff.mp free).2 ?_
  rw [Strategy.runnable,rotating.lists]
  exact mem_flatten.mpr ⟨_,mem_map.mpr ⟨q,mem_finRange q,rfl⟩,inside⟩

theorem wake_absent (woken : S.onTaskWake v i σ = some τ) (q : Fin P) : i ∉ (rotating.rotas σ q).items := by
  obtain ⟨p,r,back,same⟩ := rotating.wake woken
  obtain ⟨fresh,items⟩ := Rota.linkBack_parts back
  intro inside
  by_cases at_ : q = p
  · subst at_
    exact fresh inside
  · have here : i ∈ (rotating.rotas τ p).items := by rw [same,update_self,items]; simp
    have there : i ∈ (rotating.rotas τ q).items := by rwa [same,update_of_ne at_]
    exact at_ (rotating.apart τ q p i there here)

theorem step_turn (turn : Rota.Turn (rotating.rotas c.state) p x y c.running log) (apart : x ≠ y)
    (usual : Client.keepsBoth x y e = true) (yields : c.yieldsRunning e = true) (taken : c.step e = some d) :
    Rota.Turn (rotating.rotas d.state) p x y d.running (c.served e d log) := by
  cases Client.step_steps taken with
  | @addTask i view σ free added =>
    obtain ⟨q,r,linked,same⟩ := rotating.add added
    dsimp only
    rw [same]
    exact turn.joins (.inr linked) (rotating.free_absent free)
  | @removeTask i σ removed =>
    obtain ⟨left,right⟩ := of_decide_eq_true usual
    obtain ⟨gone,stays⟩ := c.running_leaves i
    rcases rotating.remove removed with same | ⟨q,r,unlinked,same⟩
    · dsimp only
      rw [same]
      exact turn.relast stays
    · dsimp only
      rw [same]
      exact turn.unlinks unlinked left right gone stays
  | getNext called =>
    rcases rotating.next called with ⟨rfl,same⟩ | ⟨q,i,rfl,served,same⟩
    · dsimp only
      rw [same]
      exact turn.relast fun t none => (by cases none)
    · dsimp only
      rw [same]
      exact turn.serves (rotating.apart c.state) apart served
  | @onTaskSleep i σ slept =>
    obtain ⟨left,right⟩ := of_decide_eq_true usual
    obtain ⟨gone,stays⟩ := c.running_leaves i
    obtain ⟨q,r,unlinked,same⟩ := rotating.sleep slept
    dsimp only
    rw [same]
    exact turn.unlinks unlinked left right gone stays
  | onTaskWake woken =>
    obtain ⟨q,r,linked,same⟩ := rotating.wake woken
    dsimp only
    rw [same]
    exact turn.joins (.inl linked) (rotating.wake_absent woken)
  | onTaskWeightChange => cases usual
  | @onTaskYield i handled σ called =>
    have runs : c.running = some i := of_decide_eq_true yields
    change Rota.Turn (rotating.rotas σ) p x y c.running log
    rcases rotating.yield called with same | ⟨q,r,moved,same⟩
    · rw [same]
      exact turn
    · rw [runs] at turn ⊢
      rw [same]
      exact turn.seeks moved
  | @onTaskTimeSlice i rotated σ called =>
    change Rota.Turn (rotating.rotas σ) p x y c.running log
    rw [rotating.timeSlice called]
    exact turn

theorem start_turn (peers : ∃ level ∈ S.runnableLists c.state,x ∈ level ∧ y ∈ level) :
    ∃ p,Rota.Turn (rotating.rotas c.state) p x y c.running [] := by
  obtain ⟨level,listed,left,right⟩ := peers
  rw [rotating.lists] at listed
  obtain ⟨p,_,rfl⟩ := mem_map.mp listed
  exact ⟨p,.start left right⟩

theorem alternates (rotating : Rotating S P) (apart : x ≠ y)
    (peers : ∃ level ∈ S.runnableLists c.state,x ∈ level ∧ y ∈ level)
    (run : Run (observe Client.step Client.served)
      (fun p e => (p.1.yieldsRunning e && Client.keepsBoth x y e) = true) (c,[]) (d,log)) :
    (Rota.seen x y log).IsChain (· ≠ ·) := by
  obtain ⟨p,start⟩ := rotating.start_turn peers
  have turn := run.keeps (I := fun q => Rota.Turn (rotating.rotas q.1.state) p x y q.1.running q.2) start (by
    intro q e q' turn allowed observed
    obtain ⟨taken,watched⟩ := observe_some observed
    obtain ⟨yields,usual⟩ := Bool.and_eq_true_iff.mp allowed
    rw [watched]
    exact rotating.step_turn turn apart usual yields taken)
  exact turn.alternates

end Rotating

def Bundled.rotates : Bundled → Bool
  | .roundRobin _ | .fixedPriority _ _ => true
  | _ => false

theorem peers_alternate (b : Bundled) (rotates : b.rotates = true) {c d : Client (b.strategy n)} {x y : Fin n} (apart : x ≠ y)
    (peers : ∃ level ∈ (b.strategy n).runnableLists c.state,x ∈ level ∧ y ∈ level)
    (run : Run (observe Client.step Client.served)
      (fun p e => (p.1.yieldsRunning e && Client.keepsBoth x y e) = true) (c,[]) (d,log)) :
    (Rota.seen x y log).IsChain (· ≠ ·) := by
  cases b with
  | roundRobin noSleepYield => exact (RoundRobin.rotating n noSleepYield).alternates apart peers run
  | fixedPriority B noSleepYield => exact (FixedPriority.rotating n B noSleepYield).alternates apart peers run
  | _ => cases rotates

def equalTasks (x y z : Fin n) : List (StrategyCall n) :=
  [.addTask x ⟨false,1,1,0,0,0⟩,.addTask y ⟨false,1,1,0,0,0⟩,.addTask z ⟨false,1,1,0,0,0⟩]

def restingTask (y : Fin n) : List (StrategyCall n) :=
  [.getNext,.getNext,.onTaskSleep y,.getNext,.onTaskWake y,.getNext,.onTaskYield y,.getNext,.getNext]

theorem restingTask_alternates : ∃ (c d : Client ((Bundled.roundRobin true).strategy 3)) (log : List (Fin 3)),
    exec Client.step (.initial _) (equalTasks 0 1 2) = some c ∧
      exec (observe Client.step Client.served) (c,[]) (restingTask 1) = some (d,log) ∧
      log = [2,0,1,2,1,0] ∧ (Rota.seen 0 2 log).IsChain (· ≠ ·) := by
  have found : ∃ c,exec Client.step (.initial ((Bundled.roundRobin true).strategy 3)) (equalTasks 0 1 2) = some c ∧
      (∃ level ∈ ((Bundled.roundRobin true).strategy 3).runnableLists c.state,0 ∈ level ∧ 2 ∈ level) ∧
      execAllowed (observe Client.step Client.served)
        (fun p e => p.1.yieldsRunning e && Client.keepsBoth 0 2 e) (c,[]) (restingTask 1) = true ∧
      ∃ p,exec (observe Client.step Client.served) (c,[]) (restingTask 1) = some p ∧
        p.2 = [2,0,1,2,1,0] := by decide
  obtain ⟨c,added,peers,allowed,⟨d,log⟩,ran,logged⟩ := found
  exact ⟨c,d,log,added,ran,logged,
    peers_alternate (.roundRobin true) rfl (by decide) peers (Run.ofExecAllowed _ allowed ran)⟩

-- A task that slept and was woken stands behind the others, and its yield puts the cursor
-- there.
def lateYield (y : Fin n) : List (StrategyCall n) := [.getNext,.getNext,.onTaskSleep y,.onTaskWake y,.onTaskYield y,.getNext]

theorem lateYield_repeats : ∃ (c d : Client ((Bundled.roundRobin true).strategy 3)) (log : List (Fin 3)),
    (∃ level ∈ ((Bundled.roundRobin true).strategy 3).runnableLists c.state,0 ∈ level ∧ 2 ∈ level) ∧
      Run Client.step (fun _ _ => True) (.initial _) c ∧
      Run (observe Client.step Client.served)
        (fun p e => (p.1.yieldsLast e && Client.keepsBoth 0 2 e) = true) (c,[]) (d,log) ∧
      ¬ (Rota.seen 0 2 log).IsChain (· ≠ ·) := by
  have found : ∃ c,exec Client.step (.initial ((Bundled.roundRobin true).strategy 3)) (equalTasks 0 1 2) = some c ∧
      (∃ level ∈ ((Bundled.roundRobin true).strategy 3).runnableLists c.state,0 ∈ level ∧ 2 ∈ level) ∧
      execAllowed (observe Client.step Client.served)
        (fun p e => p.1.yieldsLast e && Client.keepsBoth 0 2 e) (c,[]) (lateYield 1) = true ∧
      ∃ p,exec (observe Client.step Client.served) (c,[]) (lateYield 1) = some p ∧
        ¬ (Rota.seen 0 2 p.2).IsChain (· ≠ ·) := by decide
  obtain ⟨c,added,peers,allowed,⟨d,log⟩,ran,repeats⟩ := found
  exact ⟨c,d,log,peers,.ofExec added,.ofExecAllowed _ allowed ran,repeats⟩

namespace FixedPriority

variable {P : Nat} {B : IndexSet P} {noSleepYield : Bool} {c d : Client (strategy n B noSleepYield)}

theorem onTaskWeightChange_relinks {s t : State n B}
    (unchanged : getTaskPriorityFromWeight P (v i).weight = getTaskPriorityFromWeight P old)
    (notified : onTaskWeightChange v i old s = some t) : t.levels.lists = s.levels.lists ∨
      ∃ p r r',getTaskPriorityFromWeight P old = some p ∧ (s.levels.lists p).unlink i = some r ∧ r.linkBack i = some r' ∧
        t.levels.lists = update s.levels.lists p r' := by
  unfold onTaskWeightChange at notified
  split at notified
  · cases notified
    exact .inl rfl
  · obtain ⟨u,removed,added⟩ := of_bind notified
    obtain ⟨p,level,removed⟩ := of_bind removed
    obtain ⟨levels,unlinked,rfl⟩ := of_return removed
    obtain ⟨r,gone,relinked⟩ := of_bind unlinked
    obtain ⟨q,level',added⟩ := of_bind added
    obtain rfl : p = q := Option.some.inj (level.symm.trans (unchanged.symm.trans level'))
    obtain ⟨levels',linked,rfl⟩ := of_return added
    obtain ⟨r',back,relinked'⟩ := of_bind linked
    have left := Levels.relink_lists relinked
    have joined := Levels.relink_lists relinked'
    rw [left,update_self] at back
    refine .inr ⟨p,r,r',level,gone,back,?_⟩
    change levels'.lists = _
    rw [joined,left,update_idem]

def renotifies (c : Client (strategy n B noSleepYield)) : StrategyCall n → Bool
  | .getNext => true
  | .onTaskWeightChange i view =>
    decide (getTaskPriorityFromWeight P view.weight = getTaskPriorityFromWeight P (c.views i).weight)
  | _ => false

-- A notification of one of the two does not move it past the other.
def sparesTurns (x y : Fin n) (c : Client (strategy n B noSleepYield)) : StrategyCall n → Bool
  | .onTaskWeightChange i _ => (getTaskPriorityFromWeight P (c.views i).weight).all fun p =>
    (decide (i ≠ x) || (c.state.levels.lists p).spares x y) && (decide (i ≠ y) || (c.state.levels.lists p).spares y x)
  | _ => true

theorem renotified_turn (turn : Rota.Turn c.state.levels.lists p x y none log) (apart : x ≠ y)
    (usual : renotifies c e = true) (spared : sparesTurns x y c e = true) (taken : c.step e = some d) :
    Rota.Turn d.state.levels.lists p x y none (c.served e d log) := by
  cases Client.step_steps taken with
  | @getNext next σ called =>
    rcases (rotating n B noSleepYield).next called with ⟨rfl,same⟩ | ⟨q,i,rfl,served,same⟩
    · change Rota.Turn ((rotating n B noSleepYield).rotas σ) p x y none log
      rw [same]
      exact turn
    · change Rota.Turn ((rotating n B noSleepYield).rotas σ) p x y none (i :: log)
      rw [same]
      exact (turn.serves c.state.levels.apart apart served).relast fun t none => (by cases none)
  | @onTaskWeightChange i view σ _ _ notified =>
    change Rota.Turn σ.levels.lists p x y none log
    have unchanged := of_decide_eq_true usual
    rcases onTaskWeightChange_relinks (by rwa [update_self]) notified with same | ⟨q,r,r',level,unlinked,linked,same⟩
    · rw [same]
      exact turn
    · rw [same]
      refine turn.relinks apart unlinked linked fun one => ?_
      have inside : i ∈ (c.state.levels.lists q).items := (Rota.unlink_parts unlinked).1
      have here : p = q := by
        rcases one with rfl | rfl
        · exact c.state.levels.apart p q i turn.left inside
        · exact c.state.levels.apart p q i turn.right inside
      subst here
      simp only [sparesTurns,level,Option.all_some,Bool.and_eq_true,Bool.or_eq_true] at spared
      rcases one with rfl | rfl
      · simpa using spared.1
      · simpa [apart.symm] using spared.2
  | _ => cases usual

end FixedPriority

-- Where no notification moves one of two tasks of a level past the other, they are
-- returned in turn.
theorem renotified_alternate (B : IndexSet P) {c d : Client (FixedPriority.strategy n B noSleepYield)} {x y : Fin n}
    (apart : x ≠ y) (peers : ∃ level ∈ (FixedPriority.strategy n B noSleepYield).runnableLists c.state,x ∈ level ∧ y ∈ level)
    (run : Run (observe Client.step Client.served)
      (fun p e => (FixedPriority.renotifies p.1 e && FixedPriority.sparesTurns x y p.1 e) = true) (c,[]) (d,log)) :
    (Rota.seen x y log).IsChain (· ≠ ·) := by
  obtain ⟨p,start⟩ := (FixedPriority.rotating n B noSleepYield).start_turn peers
  have turn := run.keeps (I := fun q => Rota.Turn q.1.state.levels.lists p x y none q.2)
    (start.relast fun t none => (by cases none)) (by
    intro q e q' turn allowed observed
    obtain ⟨taken,watched⟩ := observe_some observed
    obtain ⟨usual,spared⟩ := Bool.and_eq_true_iff.mp allowed
    rw [watched]
    exact FixedPriority.renotified_turn turn apart usual spared taken)
  exact turn.alternates

def quietUnlocks (y z : Fin n) : List (StrategyCall n) :=
  [.getNext,.getNext,.onTaskWeightChange y ⟨false,1,1,0,0,0⟩,.getNext,.onTaskWeightChange z ⟨false,1,1,0,0,0⟩,.getNext]

theorem quietUnlocks_alternate :
    ∃ (c d : Client (FixedPriority.strategy 3 (readyBitmapSelect 2 (by decide)) false)) (log : List (Fin 3)),
      exec Client.step (.initial _) (equalTasks 0 1 2) = some c ∧
      exec (observe Client.step Client.served) (c,[]) (quietUnlocks 1 2) = some (d,log) ∧
      log = [1,2,1,0] ∧ (Rota.seen 1 2 log).IsChain (· ≠ ·) := by
  have found : ∃ c : Client (FixedPriority.strategy 3 (readyBitmapSelect 2 (by decide)) false),
      exec Client.step (.initial _) (equalTasks 0 1 2) = some c ∧
      (∃ level ∈ (FixedPriority.strategy 3 (readyBitmapSelect 2 (by decide)) false).runnableLists c.state,1 ∈ level ∧ 2 ∈ level) ∧
      execAllowed (observe Client.step Client.served)
        (fun p e => FixedPriority.renotifies p.1 e && FixedPriority.sparesTurns 1 2 p.1 e) (c,[]) (quietUnlocks 1 2) = true ∧
      ∃ p,exec (observe Client.step Client.served) (c,[]) (quietUnlocks 1 2) = some p ∧
        p.2 = [1,2,1,0] := by decide
  obtain ⟨c,added,peers,allowed,⟨d,log⟩,ran,logged⟩ := found
  exact ⟨c,d,log,added,ran,logged,
    renotified_alternate _ (by decide) peers (Run.ofExecAllowed _ allowed ran)⟩

-- The task GetNext returned first unlocks its mutex and is returned again.
def loneUnlock (x : Fin n) : List (StrategyCall n) := [.getNext,.onTaskWeightChange x ⟨false,1,1,0,0,0⟩,.getNext]

theorem loneUnlock_repeats :
    ∃ (c d : Client (FixedPriority.strategy 3 (readyBitmapSelect 2 (by decide)) false)) (log : List (Fin 3)),
      (∃ level ∈ (FixedPriority.strategy 3 (readyBitmapSelect 2 (by decide)) false).runnableLists c.state,0 ∈ level ∧ 1 ∈ level) ∧
      Run Client.step (fun _ _ => True) (.initial _) c ∧
      Run (observe Client.step Client.served)
        (fun p e => FixedPriority.renotifies p.1 e = true) (c,[]) (d,log) ∧ log = [0,0] ∧
      ¬ (Rota.seen 0 1 log).IsChain (· ≠ ·) := by
  have found : ∃ c : Client (FixedPriority.strategy 3 (readyBitmapSelect 2 (by decide)) false),
      exec Client.step (.initial _) (equalTasks 0 1 2) = some c ∧
      (∃ level ∈ (FixedPriority.strategy 3 (readyBitmapSelect 2 (by decide)) false).runnableLists c.state,0 ∈ level ∧ 1 ∈ level) ∧
      execAllowed (observe Client.step Client.served)
        (fun p e => FixedPriority.renotifies p.1 e) (c,[]) (loneUnlock 0) = true ∧
      ∃ p,exec (observe Client.step Client.served) (c,[]) (loneUnlock 0) = some p ∧
        p.2 = [0,0] := by decide
  obtain ⟨c,added,peers,allowed,⟨d,_⟩,ran,rfl⟩ := found
  exact ⟨c,d,_,peers,.ofExec added,.ofExecAllowed _ allowed ran,rfl,by decide⟩

end SuperTinyKernel
