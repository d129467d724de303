import SuperTinyKernel.Strategies.Client
import SuperTinyKernel.Strategies.SmoothWeighted
import SuperTinyKernel.Library.Balance

namespace SuperTinyKernel.SmoothWeighted

variable {n : Nat} {noSleepYield : Bool} {s t : State n} {v : Views n} {i j : Fin n}

def candidate (v : Views n) (s : State n) (i : Fin n) : Int := s.current i + (v i).weight

theorem scan_current (tasks : List (Fin n)) (distinct : tasks.Nodup) (skip : Option (Fin n)) (a : Scan n) (j : Fin n) :
    (tasks.foldl (weigh v skip) a).current j = if j ∈ tasks then a.current j + (v j).weight else a.current j := by
  have own : ∀ (a : Scan n) k,(weigh v skip a k).current = Function.update a.current k (a.current k + (v k).weight) := by
    intro a k
    unfold weigh
    dsimp only
    split <;> rfl
  induction tasks generalizing a with
  | nil => simp
  | cons k rest ih =>
    obtain ⟨fresh,distinct⟩ := List.nodup_cons.mp distinct
    rw [List.foldl_cons,ih distinct,own,Function.update_apply]
    by_cases at_ : j = k
    · subst at_
      simp [fresh]
    · simp [at_]

theorem scan_next (tasks : List (Fin n)) (distinct : tasks.Nodup) (skip : Option (Fin n)) (a : Scan n) :
    ((tasks.foldl (weigh v skip) a).next = a.next ∧ (tasks.foldl (weigh v skip) a).maxWeight = a.maxWeight ∧
      ∀ j ∈ tasks,skip ≠ some j → a.current j + (v j).weight ≤ a.maxWeight) ∨
    ∃ front i rear,tasks = front ++ i :: rear ∧ (tasks.foldl (weigh v skip) a).next = some i ∧
      (tasks.foldl (weigh v skip) a).maxWeight = a.current i + (v i).weight ∧ skip ≠ some i ∧
      a.maxWeight < a.current i + (v i).weight ∧
      (∀ j ∈ front,skip ≠ some j → a.current j + (v j).weight < a.current i + (v i).weight) ∧
      ∀ j ∈ rear,skip ≠ some j → a.current j + (v j).weight ≤ a.current i + (v i).weight := by
  induction tasks generalizing a with
  | nil => exact .inl ⟨rfl,rfl,by simp⟩
  | cons k rest ih =>
    obtain ⟨fresh,distinct⟩ := List.nodup_cons.mp distinct
    have kept : ∀ j ∈ rest,(weigh v skip a k).current j = a.current j := by
      intro j inside
      have apart : j ≠ k := by rintro rfl; exact fresh inside
      unfold weigh
      dsimp only
      split <;> exact Function.update_of_ne apart _ _
    rw [List.foldl_cons]
    by_cases taken : skip ≠ some k ∧ a.current k + (v k).weight > a.maxWeight
    · have own : (weigh v skip a k).next = some k ∧ (weigh v skip a k).maxWeight = a.current k + (v k).weight := by
        simp [weigh,taken]
      rcases ih distinct (weigh v skip a k) with ⟨next,max,rest_⟩ | ⟨front,i,rear,split,next,max,other,above,before,after⟩
      · refine .inr ⟨[],k,rest,rfl,by rw [next,own.1],by rw [max,own.2],taken.1,taken.2,by simp,fun j inside other => ?_⟩
        have := rest_ j inside other
        rwa [kept j inside,own.2] at this
      · have mine : i ∈ rest := by simp [split]
        rw [kept i mine] at max above before after
        rw [own.2] at above
        refine .inr ⟨k :: front,i,rear,by simp [split],next,max,other,by omega,fun j inside apart => ?_,fun j inside apart => ?_⟩
        · rcases List.mem_cons.mp inside with rfl | inside
          · exact above
          · have := before j inside apart
            rwa [kept j (by simp [split,inside])] at this
        · have := after j inside apart
          rwa [kept j (by simp [split,inside])] at this
    · have own : (weigh v skip a k).next = a.next ∧ (weigh v skip a k).maxWeight = a.maxWeight := by
        simp only [weigh,taken,if_false,and_self]
      have low : skip ≠ some k → a.current k + (v k).weight ≤ a.maxWeight := fun other => not_lt.mp fun more => taken ⟨other,more⟩
      rcases ih distinct (weigh v skip a k) with ⟨next,max,rest_⟩ | ⟨front,i,rear,split,next,max,other,above,before,after⟩
      · refine .inl ⟨next.trans own.1,max.trans own.2,fun j inside other => ?_⟩
        rcases List.mem_cons.mp inside with rfl | inside
        · exact low other
        · have := rest_ j inside other
          rwa [kept j inside,own.2] at this
      · have mine : i ∈ rest := by simp [split]
        rw [kept i mine] at max above before after
        rw [own.2] at above
        refine .inr ⟨k :: front,i,rear,by simp [split],next,max,other,above,fun j inside apart => ?_,fun j inside apart => ?_⟩
        · rcases List.mem_cons.mp inside with rfl | inside
          · have := low apart
            omega
          · have := before j inside apart
            rwa [kept j (by simp [split,inside])] at this
        · have := after j inside apart
          rwa [kept j (by simp [split,inside])] at this

-- GetNext returns the first of the largest weights, without the task that yielded unless it is
-- alone.
inductive Chosen (v : Views n) (s : State n) (i : Fin n) : Prop where
  | alone (yields : s.yielded = some i) : Chosen v s i
  | first (split : s.tasks = front ++ i :: rear) (other : s.yielded ≠ some i) (valid : int32Min < candidate v s i)
      (before : ∀ j ∈ front,s.yielded ≠ some j → candidate v s j < candidate v s i)
      (after : ∀ j ∈ rear,s.yielded ≠ some j → candidate v s j ≤ candidate v s i) : Chosen v s i

structure Served (v : Views n) (s : State n) (i : Fin n) (t : State n) : Prop where
  inside : i ∈ s.tasks
  current : ∀ j ∈ s.tasks,t.current j = candidate v s j - if j = i then s.totalWeight else 0
  tasks : t.tasks = s.tasks
  totalWeight : t.totalWeight = s.totalWeight
  yielded : t.yielded = none

theorem getNext_served (distinct : s.tasks.Nodup) (called : getNext v s = some (some i,t)) :
    Served v s i t ∧ Chosen v s i := by
  unfold getNext at called
  split at called
  · cases called
  · obtain ⟨⟨next,maxWeight⟩,picked,same⟩ := of_bind called
    cases same
    have weights := scan_current (v := v) s.tasks distinct s.yielded ⟨s.current,none,int32Min⟩
    have served : i ∈ s.tasks → maxWeight = candidate v s i → Served v s i {s with
        current := Function.update (s.tasks.foldl (weigh v s.yielded) ⟨s.current,none,int32Min⟩).current i
          (maxWeight - s.totalWeight)
        yielded := none
        yields := by simp} := by
      intro inside max
      refine ⟨inside,fun j member => ?_,rfl,rfl,rfl⟩
      dsimp only
      rw [Function.update_apply]
      split
      · subst j
        rw [max]
      · rw [weights,if_pos member,sub_zero]
        rfl
    split at picked
    · rename_i j chosen
      obtain ⟨rfl,rfl⟩ := Prod.mk.inj (Option.some.inj picked)
      rcases scan_next (v := v) s.tasks distinct s.yielded ⟨s.current,none,int32Min⟩ with
        ⟨next,_⟩ | ⟨front,k,rear,split,next,max,other,above,before,after⟩
      · rw [next] at chosen
        cases chosen
      · obtain rfl := Option.some.inj (chosen.symm.trans next)
        exact ⟨served (by simp [split]) max,.first split other above before after⟩
    · obtain ⟨k,yields,same⟩ := of_map picked
      obtain ⟨rfl,rfl⟩ := Prod.mk.inj same
      have inside := s.yields k yields
      refine ⟨served inside ?_,.alone yields⟩
      rw [weights,if_pos inside]
      rfl

theorem getNext_defined (distinct : s.tasks.Nodup) (inside : i ∈ s.tasks)
    (able : s.yielded.isSome = true ∨ int32Min < candidate v s i) : ∃ j t,getNext v s = some (some j,t) := by
  have some_ : s.tasks.isEmpty = false := by simpa using List.ne_nil_of_mem inside
  unfold getNext
  rw [if_neg (by simp [some_])]
  extract_lets scan
  cases chosen : scan.next with
  | some j => exact ⟨j,_,rfl⟩
  | none =>
    have yields : s.yielded.isSome = true := by
      rcases able with yields | more
      · exact yields
      · rcases scan_next (v := v) s.tasks distinct s.yielded ⟨s.current,none,int32Min⟩ with ⟨_,_,low⟩ | ⟨_,j,_,_,next,_⟩
        · by_contra quiet
          have least : candidate v s i ≤ int32Min := low i inside (by intro yields; simp [yields] at quiet)
          omega
        · cases chosen.symm.trans next
    obtain ⟨k,yields⟩ := Option.isSome_iff_exists.mp yields
    exact ⟨k,_,by rw [yields]; rfl⟩

theorem getNext_none (called : getNext v s = some (none,t)) : t = s := by
  unfold getNext at called
  split at called
  · cases called
    rfl
  · obtain ⟨_,_,same⟩ := of_bind called
    cases same

variable {c d : Client (strategy n noSleepYield)}

def weightSum (v : Views n) (tasks : List (Fin n)) : Int := (tasks.map v.weights).sum

theorem weightSum_congr {v v' : Views n} {tasks : List (Fin n)} (same : ∀ i ∈ tasks,v' i = v i) :
    weightSum v' tasks = weightSum v tasks := by
  unfold weightSum
  rw [List.map_congr_left fun i inside => ?_]
  unfold Views.weights
  rw [same i inside]

structure Weighted (c : Client (strategy n noSleepYield)) : Prop where
  distinct : (c.state.tasks ++ c.state.sleep).Nodup
  total : c.state.totalWeight = weightSum c.views c.state.tasks

theorem Weighted.tasks (weighted : Weighted c) : c.state.tasks.Nodup := (List.nodup_append.mp weighted.distinct).1

theorem addActive_total (added : addActive v i s = some t) (total : s.totalWeight = weightSum v s.tasks) :
    t.totalWeight = weightSum v t.tasks := by
  unfold addActive at added
  split at added
  · cases added
  · cases added
    simp [weightSum,Views.weights,total]

theorem removeActive_total (removed : removeActive v i s = some t) (total : s.totalWeight = weightSum v s.tasks) :
    t.totalWeight = weightSum v t.tasks := by
  unfold removeActive at removed
  split at removed
  · rename_i inside
    cases removed
    have left := List.sum_map_erase v.weights inside
    simp only [weightSum,Views.weights] at left total ⊢
    omega
  · cases removed

theorem onTaskYield_total (noSleepYield : Bool) (i : Fin n) (total : s.totalWeight = weightSum v s.tasks) :
    (onTaskYield noSleepYield i s).2.totalWeight = weightSum v (onTaskYield noSleepYield i s).2.tasks := by
  unfold onTaskYield
  split <;> exact total

theorem Weighted.step (weighted : Weighted c) (taken : c.step e = some d) : Weighted d := by
  have inv : (d.state.tasks ++ d.state.sleep).Nodup :=
    Client.step_inv (lawful n noSleepYield) rfl (show (lawful n noSleepYield).Inv _ _ from weighted.distinct) taken
  refine ⟨inv,?_⟩
  have total := weighted.total
  cases Client.step_steps taken with
  | @addTask i view σ free added =>
    have absent := (lists n noSleepYield).place_free_iff.mp free
    refine addActive_total added (total.trans (weightSum_congr fun j inside => Function.update_of_ne ?_ _ _).symm)
    rintro rfl
    exact absent (List.mem_append_left _ inside)
  | removeTask removed =>
    change removeTask _ _ _ = _ at removed
    unfold removeTask at removed
    split at removed
    · exact removeActive_total removed total
    · obtain ⟨sleep,_,rfl⟩ := of_return removed
      exact total
  | @getNext next σ called =>
    cases next with
    | none =>
      obtain rfl := getNext_none called
      exact total
    | some i =>
      obtain ⟨served,_⟩ := getNext_served weighted.tasks called
      exact served.totalWeight.trans (total.trans (by rw [served.tasks]))
  | onTaskSleep slept =>
    obtain ⟨u,removed,slept⟩ := of_bind slept
    obtain ⟨sleep,_,rfl⟩ := of_return slept
    have left := removeActive_total removed total
    exact left
  | onTaskWake woken =>
    obtain ⟨sleep,_,woken⟩ := of_bind woken
    exact addActive_total woken total
  | onTaskWeightChange inherits => cases inherits
  | @onTaskYield i _ _ called =>
    obtain rfl := congrArg Prod.snd (Option.some.inj called)
    exact onTaskYield_total noSleepYield i total
  | onTaskTimeSlice called =>
    cases called
    exact total

theorem Weighted.set (weighted : Weighted c) :
    c.state.totalWeight = Balance.total c.state.tasks.toFinset c.views.weights := by
  rw [weighted.total,Balance.total,List.sum_toFinset _ weighted.tasks]
  rfl

structure Cycling (c : Client (strategy n noSleepYield)) (base : Int) (d : Client (strategy n noSleepYield)) (log : List (Fin n)) :
    Prop where
  views : d.views = c.views
  tasks : d.state.tasks = c.state.tasks
  totalWeight : d.state.totalWeight = c.state.totalWeight
  yielded : log ≠ [] → d.state.yielded = none
  rounds : Balance.Rounds c.state.tasks.toFinset c.views.weights (fun j => c.state.current j - base) log
    fun j => d.state.current j - base

theorem Cycling.start (c : Client (strategy n noSleepYield)) (base : Int) : Cycling c base c [] :=
  ⟨rfl,rfl,rfl,fun none => absurd rfl none,.nil⟩

-- Whoever GetNext returns can pay: in the first round everybody can, later the largest balance
-- is positive.
theorem Cycling.able (cycling : Cycling c base d log) (positive : ∀ i ∈ c.state.tasks,0 < (c.views i).weight)
    (equal : ∀ i ∈ c.state.tasks,c.state.current i = base) (chosen : Chosen d.views d.state i) (inside : i ∈ c.state.tasks)
    (payer : j ∈ c.state.tasks) (pays : base < candidate d.views d.state j) : base < candidate d.views d.state i := by
  by_cases first : log = []
  · have balance := cycling.rounds.balance i (List.mem_toFinset.mpr inside)
    have weight := positive i inside
    have start := equal i inside
    rw [first,← cycling.views] at balance
    simp only [List.length_nil,List.count_nil,Nat.cast_zero,zero_mul,mul_zero] at balance
    rw [← cycling.views] at weight
    unfold candidate
    omega
  · have nobody := cycling.yielded first
    cases chosen with
    | alone yields => cases nobody.symm.trans yields
    | first split _ _ before after =>
      rw [← cycling.tasks,split,List.mem_append,List.mem_cons] at payer
      rcases payer with front | rfl | rear
      · have := before j front (by simp [nobody])
        omega
      · exact pays
      · have := after j rear (by simp [nobody])
        omega

theorem Cycling.next (cycling : Cycling c base d log) (weighted : Weighted c) (some_ : c.state.tasks ≠ [])
    (positive : ∀ i ∈ c.state.tasks,0 < (c.views i).weight) (equal : ∀ i ∈ c.state.tasks,c.state.current i = base)
    (range : int32Min ≤ base) : ∃ i d',d.step .getNext = some d' ∧ d'.last = some i ∧ Cycling c base d' (i :: log) := by
  have distinct : d.state.tasks.Nodup := cycling.tasks ▸ weighted.tasks
  obtain ⟨j,member,pays⟩ := cycling.rounds.payer (by simpa [Finset.nonempty_iff_ne_empty] using some_)
    (fun k member => positive k (List.mem_toFinset.mp member))
    (fun k member => by rw [equal k (List.mem_toFinset.mp member),sub_self])
  have payer := List.mem_toFinset.mp member
  have pays : base < candidate d.views d.state j := by
    rw [← cycling.views] at pays
    unfold candidate
    unfold Views.weights at pays
    omega
  obtain ⟨i,t,called⟩ := getNext_defined (i := j) distinct (by rw [cycling.tasks]; exact payer) (.inr (lt_of_le_of_lt range pays))
  obtain ⟨served,chosen⟩ := getNext_served distinct called
  have inside : i ∈ c.state.tasks := cycling.tasks ▸ served.inside
  have able := cycling.able positive equal chosen inside payer pays
  refine ⟨i,{d with state := t,last := some i,left := false},?_,rfl,cycling.views,served.tasks.trans cycling.tasks,
    served.totalWeight.trans cycling.totalWeight,fun _ => served.yielded,?_⟩
  · change (getNext d.views d.state).bind _ = _
    rw [called]
    rfl
  · refine cycling.rounds.snoc (List.mem_toFinset.mpr inside) ?_ fun k member => ?_
    · rw [← cycling.views]
      unfold candidate at able
      unfold Views.weights
      omega
    · have paid := served.current k (by rw [cycling.tasks]; exact List.mem_toFinset.mp member)
      rw [cycling.totalWeight,cycling.views] at paid
      unfold candidate at paid
      dsimp only
      rw [paid,Balance.settle,← weighted.set]
      unfold Views.weights
      ring

theorem Cycling.run (weighted : Weighted c) (some_ : c.state.tasks ≠ [])
    (positive : ∀ i ∈ c.state.tasks,0 < (c.views i).weight) (equal : ∀ i ∈ c.state.tasks,c.state.current i = base)
    (range : int32Min ≤ base) (m : Nat) : ∃ d log,log.length = m ∧ Cycling c base d log ∧
      Transition.exec (Transition.observe Client.step Client.served) (c,[]) (List.replicate m .getNext) = some (d,log) := by
  induction m with
  | zero => exact ⟨c,[],rfl,.start c base,rfl⟩
  | succ m ih =>
    obtain ⟨d,log,length,cycling,ran⟩ := ih
    obtain ⟨i,d',taken,last,cycling⟩ := cycling.next weighted some_ positive equal range
    refine ⟨d',i :: log,by simp [length],cycling,?_⟩
    rw [List.replicate_succ',Transition.exec_snoc,ran]
    simp [Transition.observe,taken,Client.served,last]

end SuperTinyKernel.SmoothWeighted

namespace SuperTinyKernel

open Transition SmoothWeighted

end SuperTinyKernel

namespace SuperTinyKernel.SmoothWeighted

variable {n : Nat} {noSleepYield : Bool} {s t : State n} {v : Views n} {c d : Client (strategy n noSleepYield)} {i j : Fin n}

def boosted (c : Client (strategy n noSleepYield)) (e : StrategyCall n) (_ : Client (strategy n noSleepYield))
    (woken : List (Fin n × Int)) : List (Fin n × Int) :=
  match e with
  | .getNext => []
  | .onTaskWake i => (i,c.state.totalWeight) :: woken
  | .removeTask i | .onTaskSleep i => woken.filter fun p => p.1 ≠ i
  | _ => woken

def comesAndGoes : StrategyCall n → Bool
  | .onTaskYield _ | .onTaskTimeSlice _ | .onTaskWeightChange _ _ => false
  | _ => true

structure Boosts (s : State n) (woken : List (Fin n × Int)) : Prop where
  quiet : s.yielded = none
  boost : ∀ i w,(i,w) ∈ woken → i ∈ s.tasks ∧ s.current i = w

theorem addActive_boosts (added : addActive v i s = some t) (boosts : Boosts s woken) : Boosts t woken := by
  unfold addActive at added
  split at added
  · cases added
  · cases added
    exact ⟨boosts.quiet,fun j w at_ => ⟨List.mem_append_left _ (boosts.boost j w at_).1,(boosts.boost j w at_).2⟩⟩

theorem removeActive_boosts (removed : removeActive v i s = some t) (boosts : Boosts s woken) :
    Boosts t (woken.filter fun p => p.1 ≠ i) := by
  unfold removeActive at removed
  split at removed
  · cases removed
    refine ⟨by simp [boosts.quiet],fun j w at_ => ?_⟩
    obtain ⟨at_,apart⟩ := List.mem_filter.mp at_
    obtain ⟨inside,boost⟩ := boosts.boost j w at_
    exact ⟨(List.mem_erase_of_ne (by simpa using apart)).mpr inside,boost⟩
  · cases removed

theorem Boosts.weigh (boosts : Boosts s woken) (absent : i ∉ s.tasks) (w : Int) : Boosts (setCurrentWeight i w s) woken := by
  refine ⟨boosts.quiet,fun j w at_ => ?_⟩
  obtain ⟨inside,boost⟩ := boosts.boost j w at_
  exact ⟨inside,(Function.update_of_ne (by rintro rfl; exact absent inside) _ _).trans boost⟩

theorem Boosts.step (boosts : Boosts c.state woken) (weighted : Weighted c) (usual : comesAndGoes e = true)
    (taken : c.step e = some d) : Boosts d.state (boosted c e d woken) := by
  cases Client.step_steps taken with
  | @addTask i view σ free added =>
    have absent := (lists n noSleepYield).place_free_iff.mp free
    exact addActive_boosts added (boosts.weigh (fun inside => absent (List.mem_append_left _ inside)) noWeight)
  | removeTask removed =>
    change removeTask _ _ _ = _ at removed
    unfold removeTask at removed
    split at removed
    · exact removeActive_boosts removed boosts
    · obtain ⟨sleep,_,rfl⟩ := of_return removed
      exact ⟨boosts.quiet,fun j w at_ => boosts.boost j w (List.mem_filter.mp at_).1⟩
  | @getNext next σ called =>
    refine ⟨?_,fun j w at_ => absurd at_ (by simp [boosted])⟩
    cases next with
    | none =>
      obtain rfl := getNext_none called
      exact boosts.quiet
    | some i => exact (getNext_served weighted.tasks called).1.yielded
  | onTaskSleep slept =>
    obtain ⟨u,removed,slept⟩ := of_bind slept
    obtain ⟨sleep,_,rfl⟩ := of_return slept
    have left := removeActive_boosts removed boosts
    exact ⟨left.quiet,left.boost⟩
  | onTaskWake woken_ =>
    obtain ⟨sleep,_,added⟩ := of_bind woken_
    obtain ⟨absent,tasks,_⟩ := addActive_parts added
    have rest : Boosts {c.state with sleep := sleep} woken := ⟨boosts.quiet,boosts.boost⟩
    obtain ⟨quiet,boost⟩ := addActive_boosts added (rest.weigh absent c.state.totalWeight)
    refine ⟨quiet,fun j w at_ => ?_⟩
    rcases List.mem_cons.mp at_ with same | at_
    · cases same
      refine ⟨by rw [tasks]; simp,?_⟩
      unfold addActive at added
      split at added
      · cases added
      · cases added
        exact Function.update_self _ _ _
    · exact boost j w at_
  | onTaskWeightChange | onTaskYield | onTaskTimeSlice => cases usual

-- The balance of every other runnable task is within the boost: below it for the tasks
-- that the scan meets first.
def Within (c : Client (strategy n noSleepYield)) (i : Fin n) (boost : Int) : Prop :=
  int32Min < boost + (c.views i).weight ∧ ∀ j ∈ c.state.tasks,j ≠ i →
    c.state.current j + (c.views j).weight < boost + (c.views i).weight ∨
    c.state.tasks.idxOf i < c.state.tasks.idxOf j ∧ c.state.current j + (c.views j).weight = boost + (c.views i).weight

theorem Within.chosen (within : Within c i boost) (distinct : c.state.tasks.Nodup) (inside : i ∈ c.state.tasks)
    (boosted : c.state.current i = boost) (quiet : c.state.yielded = none) (chosen : Chosen c.views c.state j) : j = i := by
  cases chosen with
  | alone yields => cases quiet.symm.trans yields
  | first split _ _ before after =>
    rename_i front rear
    by_contra other
    have least := within.2 j (by simp [split]) other
    unfold candidate at before after
    rw [split,List.mem_append,List.mem_cons] at inside
    rcases inside with ahead | same | behind
    · have := before i ahead (by simp [quiet])
      omega
    · exact other same.symm
    · have := after i behind (by simp [quiet])
      have order : c.state.tasks.idxOf j ≤ c.state.tasks.idxOf i := by
        rw [split] at distinct ⊢
        obtain ⟨_,_,apart⟩ := List.nodup_append.mp distinct
        rw [List.idxOf_append_of_notMem (fun ahead => apart j ahead j (by simp) rfl),
          List.idxOf_append_of_notMem (fun ahead => apart i ahead i (by simp [behind]) rfl),List.idxOf_cons_self]
        exact Nat.le_add_right _ _
      omega

end SuperTinyKernel.SmoothWeighted

namespace SuperTinyKernel

open Transition SmoothWeighted

end SuperTinyKernel
