import SuperTinyKernel.Strategies.Monotonic
import SuperTinyKernel.Library.ResponseTime

namespace SuperTinyKernel.SchedulabilityCheck

open Function List

structure TaskTiming where
  duration : UInt32
  period : UInt32
  deriving DecidableEq,Repr

structure TaskCpuLoad where
  task : UInt16
  total : UInt16
  deriving DecidableEq,Repr

structure SchedulabilityCheckResult where
  schedulable : Bool
  cpuLoad : List TaskCpuLoad
  wcrt : List UInt32
  deriving DecidableEq,Repr

def idivCeil (x y : UInt32) : UInt32 :=
  if y ≠ 0 then
    if x % y > 0 then x / y + 1 else x / y
  else 0

-- One pass of the inner for loop over the tasks of higher priority.
def response (above : List TaskTiming) (cx w0 : UInt32) : UInt32 :=
  above.foldl (fun w i => w + idivCeil w0 i.period * i.duration) cx

-- The while loop. It is not known to end, so `fuel` bounds its turns.
def converge (above : List TaskTiming) (cx tx : UInt32) : Nat → UInt32 → Option UInt32
  | 0,_ => none
  | fuel+1,w0 =>
    let w := response above cx w0
    if w ≠ w0 ∧ w ≤ tx then converge above cx tx fuel w else some w

-- The for loop from the second task on.
def calculateFrom (fuel : Nat) : List TaskTiming → List TaskTiming → Bool → List UInt32 → Option (Bool × List UInt32)
  | _,[],schedulable,wcrt => some (schedulable,wcrt)
  | above,x :: rest,schedulable,wcrt => do
    let w ← converge above x.duration x.period fuel x.duration
    calculateFrom fuel (above ++ [x]) rest (if w > x.period then false else schedulable) (wcrt ++ [w])

def calculateWCRT (fuel : Nat) : List TaskTiming → Option (Bool × List UInt32)
  | [] => some (true,[])
  | first :: rest => calculateFrom fuel [first] rest true [first.duration]

def taskLoad (x : TaskTiming) : UInt16 := if x.period ≠ 0 then (x.duration * 100 / x.period).toUInt16 else 0

def cpuLoadFrom : UInt16 → List TaskTiming → List TaskCpuLoad
  | _,[] => []
  | total,x :: rest => ⟨taskLoad x,total + taskLoad x⟩ :: cpuLoadFrom (total + taskLoad x) rest

def getTaskCpuLoad (tasks : List TaskTiming) : List TaskCpuLoad := cpuLoadFrom 0 tasks

def timing (t : TaskView) : TaskTiming := ⟨UInt32.ofInt t.hrtDeadline,UInt32.ofInt t.hrtPeriodicity⟩

-- The source leaves zeros behind the entries of the tasks that were read.
def isSchedulableWCRT (fuel count : Nat) (v : Views n) (tasks : List (Fin n)) : Option SchedulabilityCheckResult := do
  let read := (tasks.take count).map fun i => timing (v i)
  let (schedulable,wcrt) ← calculateWCRT fuel read
  return ⟨schedulable,getTaskCpuLoad read,wcrt⟩

def TaskTiming.Admitted (x : TaskTiming) : Prop :=
  1 ≤ x.period ∧ x.period < 2147483647 ∧ 1 ≤ x.duration ∧ x.duration < 2147483647

instance (x : TaskTiming) : Decidable x.Admitted := inferInstanceAs (Decidable (_ ∧ _))

def TaskTiming.job (x : TaskTiming) : ResponseTime.Job := ⟨x.duration.toNat,x.period.toNat⟩

-- The response-time recurrence of a task below `above` over the unbounded numbers.
def wcrtRecurrence (above : List TaskTiming) (x : TaskTiming) : Nat → Nat :=
  ResponseTime.recurrence x.duration.toNat (above.map TaskTiming.job)

open ResponseTime

variable {above rest tasks : List TaskTiming} {x : TaskTiming} {cx tx w w0 : UInt32} {wcrt out : List UInt32}

theorem ceilDiv_eq (x y : Nat) (positive : 0 < y) : x ⌈/⌉ y = if x % y > 0 then x / y + 1 else x / y := by
  rw [Nat.ceilDiv_eq_add_pred_div]
  have parts := Nat.div_add_mod x y
  have below := Nat.mod_lt x positive
  split
  · refine Nat.div_eq_of_lt_le ?_ ?_
    · rw [Nat.mul_comm,Nat.mul_add]; omega
    · rw [Nat.mul_comm,Nat.mul_add,Nat.mul_add]; omega
  · refine Nat.div_eq_of_lt_le ?_ ?_
    · rw [Nat.mul_comm]; omega
    · rw [Nat.mul_comm,Nat.mul_add]; omega

theorem idivCeil_toNat (x y : UInt32) : (idivCeil x y).toNat = x.toNat ⌈/⌉ y.toNat := by
  by_cases zero : y = 0
  · subst zero
    simp [idivCeil]
  · have positive : 0 < y.toNat := Nat.pos_of_ne_zero fun none_ => zero (UInt32.toNat_inj.mp none_)
    rw [idivCeil,if_pos zero,ceilDiv_eq _ _ positive]
    have remainder : x % y > 0 ↔ x.toNat % y.toNat > 0 := by
      rw [gt_iff_lt,UInt32.lt_iff_toNat_lt,UInt32.toNat_mod]
      rfl
    by_cases left : x % y > 0
    · rw [if_pos left,if_pos (remainder.mp left),UInt32.toNat_add,UInt32.toNat_div]
      have two : 2 ≤ y.toNat := by
        have := remainder.mp left
        have := Nat.mod_lt x.toNat positive
        omega
      have half : x.toNat / y.toNat ≤ x.toNat / 2 := Nat.div_le_div_left two (by decide)
      have := x.toNat_lt
      exact Nat.mod_eq_of_lt (by simp; omega)
    · rw [if_neg left,if_neg fun more => left (remainder.mpr more),UInt32.toNat_div]

theorem response_toNat (above : List TaskTiming) (cx w0 : UInt32) :
    (response above cx w0).toNat = recurrence cx.toNat (above.map TaskTiming.job) w0.toNat % 2 ^ 32 := by
  induction above generalizing cx with
  | nil => exact (Nat.mod_eq_of_lt cx.toNat_lt).symm
  | cons i rest ih =>
    have turned := ih (cx + idivCeil w0 i.period * i.duration)
    rw [UInt32.toNat_add,UInt32.toNat_mul,idivCeil_toNat] at turned
    rw [show response (i :: rest) cx w0 = response rest (cx + idivCeil w0 i.period * i.duration) w0 from rfl,turned]
    simp only [recurrence,map_cons,demand_cons,TaskTiming.job]
    omega

theorem converge_fixed (converged : converge above cx tx fuel w0 = some w) (met : w ≤ tx) : response above cx w = w := by
  induction fuel generalizing w0 with
  | zero => cases converged
  | succ fuel ih =>
    rw [converge] at converged
    split at converged
    · exact ih converged
    · rename_i stops
      cases converged
      have stationary : response above cx w0 = w0 := by
        by_contra moved
        exact stops ⟨moved,met⟩
      rw [stationary,stationary]

-- Tasks that leave the processor not overloaded and whose costs fit in half a word.
structure Light (above : List TaskTiming) : Prop where
  admitted : ∀ x ∈ above,x.Admitted
  utilization : utilization (above.map TaskTiming.job) ≤ 1
  work : work (above.map TaskTiming.job) < 2147483647

theorem TaskTiming.Admitted.bounds (admitted : x.Admitted) :
    0 < x.period.toNat ∧ x.period.toNat < 2147483647 ∧ 0 < x.duration.toNat ∧ x.duration.toNat < 2147483647 :=
  ⟨UInt32.le_iff_toNat_le.mp admitted.1,UInt32.lt_iff_toNat_lt.mp admitted.2.1,
    UInt32.le_iff_toNat_le.mp admitted.2.2.1,UInt32.lt_iff_toNat_lt.mp admitted.2.2.2⟩

theorem periods_positive (admitted : ∀ x ∈ above,x.Admitted) : ∀ j ∈ above.map TaskTiming.job,0 < j.period := by
  intro j inside
  obtain ⟨x,member,rfl⟩ := mem_map.mp inside
  exact (admitted x member).bounds.1

-- Below light tasks the iteration cannot stop at a wrapped sum, which would have to exceed the
-- exact one by a whole word.
theorem Light.fixed (light : Light above) (admitted : x.Admitted) (fixed : response above x.duration w = w) :
    wcrtRecurrence above x w.toNat = w.toNat := by
  have bound : wcrtRecurrence above x w.toNat ≤ _ :=
    recurrence_le (periods_positive light.admitted) light.utilization
  have wrapped := response_toNat above x.duration w
  rw [fixed] at wrapped
  have cost := admitted.bounds.2.2.2
  have work := light.work
  simp only [wcrtRecurrence] at bound ⊢
  omega

theorem Light.append (light : Light above) (admitted : x.Admitted) (fixed : wcrtRecurrence above x r = r)
    (met : r ≤ x.period.toNat) : Light (above ++ [x]) := by
  have positive := periods_positive light.admitted
  obtain ⟨_,period,cost,_⟩ := admitted.bounds
  have running : 0 < r := by rw [← fixed]; exact lt_of_lt_of_le cost (cost_le _ _ _)
  refine ⟨fun y inside => ?_,?_,?_⟩
  · rcases mem_append.mp inside with old | new
    · exact light.admitted y old
    · rw [mem_singleton.mp new]; exact admitted
  · rw [map_append]
    exact utilization_le positive cost fixed met
  · have once := work_le positive running
    rw [map_append,map_singleton,work_append]
    simp only [wcrtRecurrence,recurrence] at fixed
    simp only [TaskTiming.job] at *
    omega

def Meets (above : List TaskTiming) (x : TaskTiming) : Prop :=
  ∃ r,IsLeast (fixedPoints (wcrtRecurrence above x)) r ∧ r ≤ x.period.toNat

theorem Light.empty : Light [] := ⟨by simp,by simp [ResponseTime.utilization],by decide⟩

theorem calculateFrom_flag (calculated : calculateFrom fuel above rest schedulable wcrt = some (true,out)) :
    schedulable = true := by
  induction rest generalizing above schedulable wcrt with
  | nil => cases calculated; rfl
  | cons x rest ih =>
    obtain ⟨w,_,calculated⟩ := of_bind calculated
    have kept := ih calculated
    split at kept
    · cases kept
    · exact kept

theorem calculateFrom_sound (light : Light above) (admitted : ∀ x ∈ rest,x.Admitted)
    (calculated : calculateFrom fuel above rest schedulable wcrt = some (true,out)) :
    ∀ higher x lower,rest = higher ++ x :: lower → Meets (above ++ higher) x := by
  induction rest generalizing above schedulable wcrt with
  | nil =>
    intro higher x lower split
    simp at split
  | cons y rest ih =>
    obtain ⟨w,converged,calculated⟩ := of_bind calculated
    have within : w ≤ y.period := by
      by_contra missed
      rw [if_pos (UInt32.not_le.mp missed)] at calculated
      exact Bool.noConfusion (calculateFrom_flag calculated)
    rw [if_neg (UInt32.not_lt.mpr within)] at calculated
    have allowed := admitted y (by simp)
    have fixed := light.fixed allowed (converge_fixed converged within)
    have met : w.toNat ≤ y.period.toNat := UInt32.le_iff_toNat_le.mp within
    have later := ih (light.append allowed fixed met) (fun x inside => admitted x (by simp [inside])) calculated
    intro higher x lower split
    cases higher with
    | nil =>
      obtain ⟨rfl,rfl⟩ := cons_eq_cons.mp split
      rw [append_nil]
      obtain ⟨r,least,under⟩ := exists_least fixed
      exact ⟨r,least,under.trans met⟩
    | cons z higher =>
      obtain ⟨rfl,tail⟩ := cons_eq_cons.mp split
      have := later higher x lower tail
      rwa [append_assoc] at this

theorem calculateWCRT_meets (admitted : ∀ x ∈ tasks,x.Admitted) (first : ∀ x ∈ tasks.head?,x.duration ≤ x.period)
    (checked : calculateWCRT fuel tasks = some (true,wcrt)) (split : tasks = above ++ x :: rest) : Meets above x := by
  cases tasks with
  | nil => simp at split
  | cons y lower =>
    have allowed := admitted y (by simp)
    have met : y.duration.toNat ≤ y.period.toNat := UInt32.le_iff_toNat_le.mp (first y rfl)
    have alone : wcrtRecurrence [] y y.duration.toNat = y.duration.toNat := rfl
    have light : Light ([] ++ [y]) := Light.empty.append allowed alone met
    cases above with
    | nil =>
      obtain ⟨rfl,rfl⟩ := cons_eq_cons.mp split
      obtain ⟨r,least,under⟩ := exists_least alone
      exact ⟨r,least,under.trans met⟩
    | cons z above =>
      obtain ⟨rfl,tail⟩ := cons_eq_cons.mp split
      exact calculateFrom_sound light (fun x inside => admitted x (by simp [inside])) checked above x rest tail

def threeTasks : List TaskTiming := [⟨1,4⟩,⟨2,6⟩,⟨3,12⟩]

-- What AddTask takes is kept by the casts, so the analysis is sound for the parameters of the
-- tasks.
theorem toNat_ofInt {z : Int} (positive : 1 ≤ z) (below : z < 2147483647) : ((UInt32.ofInt z).toNat : Int) = z := by
  rw [UInt32.ofInt,UInt32.toNat_ofNat']
  omega

def InRange (t : TaskView) : Prop :=
  1 ≤ t.hrtPeriodicity ∧ t.hrtPeriodicity < 2147483647 ∧ 1 ≤ t.hrtDeadline ∧ t.hrtDeadline < 2147483647

theorem timing_admitted {t : TaskView} (range : InRange t) : (timing t).Admitted := by
  obtain ⟨positive,below,started,short⟩ := range
  have period := toNat_ofInt positive below
  have duration := toNat_ofInt started short
  refine ⟨UInt32.le_iff_toNat_le.mpr ?_,UInt32.lt_iff_toNat_lt.mpr ?_,UInt32.le_iff_toNat_le.mpr ?_,UInt32.lt_iff_toNat_lt.mpr ?_⟩
  all_goals simp only [timing,UInt32.reduceToNat]; omega

theorem isSchedulableWCRT_sound {v : Views n} {linked higher lower : List (Fin n)} (range : ∀ i ∈ linked,InRange (v i))
    (first : ∀ i ∈ linked.head?,(v i).hrtDeadline ≤ (v i).hrtPeriodicity)
    (checked : isSchedulableWCRT fuel linked.length v linked = some result) (schedulable : result.schedulable = true)
    (split : linked = higher ++ i :: lower) :
    ∃ r,IsLeast (fixedPoints (wcrtRecurrence (higher.map fun j => timing (v j)) (timing (v i)))) r ∧
      (r : Int) ≤ (v i).hrtPeriodicity := by
  rw [isSchedulableWCRT,take_length] at checked
  obtain ⟨⟨flag,wcrt⟩,calculated,made⟩ := of_bind checked
  cases made
  cases schedulable
  have mapped : (linked.map fun j => timing (v j)) = (higher.map fun j => timing (v j)) ++ timing (v i) :: lower.map fun j => timing (v j) := by
    rw [split,map_append,map_cons]
  have admitted : ∀ x ∈ linked.map fun j => timing (v j),x.Admitted := by
    intro x inside
    obtain ⟨j,member,rfl⟩ := mem_map.mp inside
    exact timing_admitted (range j member)
  have short : ∀ x ∈ (linked.map fun j => timing (v j)).head?,x.duration ≤ x.period := by
    intro x front
    rw [head?_map] at front
    obtain ⟨j,head,rfl⟩ := of_map front
    obtain ⟨positive,below,started,brief⟩ := range j (mem_of_mem_head? head)
    have period := toNat_ofInt positive below
    have duration := toNat_ofInt started brief
    have le := first j head
    rw [UInt32.le_iff_toNat_le]
    simp only [timing]
    omega
  obtain ⟨r,least,met⟩ := calculateWCRT_meets admitted short calculated mapped
  obtain ⟨positive,below,_⟩ := range i (by rw [split]; simp)
  refine ⟨r,least,?_⟩
  rw [← toNat_ofInt positive below]
  exact_mod_cast met

def twoViews (i : Fin n) : TaskView := if i.val = 0 then ⟨false,1,1,4,1,0⟩ else ⟨false,1,1,6,2,0⟩

theorem twoViews_schedulable : ∃ r,IsLeast (fixedPoints (wcrtRecurrence [⟨1,4⟩] ⟨2,6⟩)) r ∧ (r : Int) ≤ 6 := by
  have range : ∀ i ∈ ([0,1] : List (Fin 2)),InRange (twoViews i) := by unfold InRange; decide
  have found : ∃ r,isSchedulableWCRT 3 2 twoViews ([0,1] : List (Fin 2)) = some r ∧ r.schedulable = true := by decide +kernel
  obtain ⟨_,checked,schedulable⟩ := found
  exact isSchedulableWCRT_sound range (by decide) checked schedulable (show _ = [0] ++ 1 :: [] from rfl)

-- Every value the iteration of a task comes by, in unbounded numbers, is followed by a sum
-- that fits in a word.
def Fits (tasks : List TaskTiming) : Prop :=
  ∀ above x rest,tasks = above ++ x :: rest → above ≠ [] →
    ∀ w,Visited (wcrtRecurrence above x) x.period.toNat x.duration.toNat w → wcrtRecurrence above x w < 2 ^ 32

-- Where the iteration of a task stops: at a stationary value or over the period.
def Stops (above : List TaskTiming) (x : TaskTiming) (w : UInt32) : Prop :=
  ∃ v,Visited (wcrtRecurrence above x) x.period.toNat x.duration.toNat v ∧ w.toNat = wcrtRecurrence above x v ∧
    (wcrtRecurrence above x v = v ∨ x.period < w)

theorem converge_stops (visited : Visited (wcrtRecurrence above x) x.period.toNat x.duration.toNat w0.toNat)
    (fits : ∀ w,Visited (wcrtRecurrence above x) x.period.toNat x.duration.toNat w → wcrtRecurrence above x w < 2 ^ 32)
    (enough : x.period.toNat + 1 - w0.toNat < fuel) :
    ∃ w,converge above x.duration x.period fuel w0 = some w ∧ Stops above x w := by
  induction fuel generalizing w0 with
  | zero => omega
  | succ fuel ih =>
    rw [converge]
    have next : (response above x.duration w0).toNat = wcrtRecurrence above x w0.toNat := by
      rw [response_toNat]
      exact Nat.mod_eq_of_lt (fits _ visited)
    by_cases goes : response above x.duration w0 ≠ w0 ∧ response above x.duration w0 ≤ x.period
    · rw [if_pos goes]
      have moved : wcrtRecurrence above x w0.toNat ≠ w0.toNat := by
        rw [← next]
        exact fun same => goes.1 (UInt32.toNat_inj.mp same)
      have within : wcrtRecurrence above x w0.toNat ≤ x.period.toNat := by
        rw [← next]
        exact UInt32.le_iff_toNat_le.mp goes.2
      have rises : w0.toNat ≤ wcrtRecurrence above x w0.toNat :=
        visited.rises (recurrence_mono _ _) (cost_le _ _ _)
      refine ih ?_ ?_
      · rw [next]
        exact .next visited moved within
      · omega
    · refine ⟨_,if_neg goes,_,visited,next,?_⟩
      by_cases same : response above x.duration w0 = w0
      · exact .inl (next.symm.trans (congrArg UInt32.toNat same))
      · exact .inr (UInt32.not_le.mp fun met => goes ⟨same,met⟩)

theorem calculateFrom_stops (inside : tasks = above ++ rest) (some_ : above ≠ []) (fits : Fits tasks) :
    ∃ flag out,calculateFrom (2 ^ 32 + 1) above rest schedulable wcrt = some (flag,wcrt ++ out) ∧
      (schedulable = false → flag = false) ∧
      ∀ higher x lower,rest = higher ++ x :: lower →
        ∃ w,out[higher.length]? = some w ∧ Stops (above ++ higher) x w ∧ (x.period < w → flag = false) := by
  induction rest generalizing above schedulable wcrt with
  | nil => exact ⟨schedulable,[],by rw [append_nil]; rfl,id,fun higher x lower split => by simp at split⟩
  | cons y rest ih =>
    have enough : y.period.toNat + 1 - y.duration.toNat < 2 ^ 32 + 1 := by
      have := y.period.toNat_lt
      omega
    obtain ⟨w,converged,stops⟩ := converge_stops .start (fits above y rest inside some_) enough
    have further : tasks = above ++ [y] ++ rest := by rw [inside,append_assoc]; rfl
    obtain ⟨flag,out,calculated,kept,later⟩ :=
      @ih _ (wcrt ++ [w]) (if w > y.period then false else schedulable) further (by simp)
    refine ⟨flag,w :: out,?_,fun off => kept (by rw [off,ite_self]),fun higher x lower split => ?_⟩
    · rw [calculateFrom,converged,append_cons wcrt]
      exact calculated
    · cases higher with
      | nil =>
        obtain ⟨rfl,rfl⟩ := cons_eq_cons.mp split
        exact ⟨w,rfl,by rwa [append_nil],fun missed => kept (if_pos missed)⟩
      | cons z higher =>
        obtain ⟨rfl,tail⟩ := cons_eq_cons.mp split
        obtain ⟨w,at_,stops,missed⟩ := later higher x lower tail
        exact ⟨w,at_,by rwa [append_assoc] at stops,missed⟩

theorem Stops.least (stops : Stops above x w) (least : IsLeast (fixedPoints (wcrtRecurrence above x)) r)
    (met : r ≤ x.period.toNat) : w.toNat = r := by
  obtain ⟨v,visited,reached,ends⟩ := stops
  have mono : Monotone (wcrtRecurrence above x) := recurrence_mono _ _
  have fixed : wcrtRecurrence above x r = r := least.1
  have low : x.duration.toNat ≤ r := by
    rw [← fixed]
    exact cost_le _ _ _
  have under : v ≤ r := visited.le_fixed mono fixed low
  have next := mono under
  rcases ends with stationary | missed
  · rw [reached,stationary]
    exact le_antisymm under (least.2 stationary)
  · have late := UInt32.lt_iff_toNat_lt.mp missed
    omega

-- The least solution of every recurrence below the highest task is reported, and a task
-- without one within its period makes the set unschedulable.
theorem wcrt_exact (fits : Fits tasks) : ∃ fuel schedulable wcrt,calculateWCRT fuel tasks = some (schedulable,wcrt) ∧
    ∀ above x rest,tasks = above ++ x :: rest → above ≠ [] →
      (∀ r,IsLeast (fixedPoints (wcrtRecurrence above x)) r → r ≤ x.period.toNat →
        wcrt[above.length]?.map UInt32.toNat = some r) ∧
      ((∀ r,wcrtRecurrence above x r = r → ¬r ≤ x.period.toNat) → schedulable = false) := by
  cases tasks with
  | nil => exact ⟨0,_,_,rfl,fun above x rest split => by simp at split⟩
  | cons first lower =>
    obtain ⟨flag,out,calculated,_,stopped⟩ := calculateFrom_stops rfl (cons_ne_nil first []) fits
    refine ⟨_,flag,_,calculated,fun above x rest split some_ => ?_⟩
    obtain ⟨z,higher,rfl⟩ := exists_cons_of_ne_nil some_
    obtain ⟨rfl,tail⟩ := cons_eq_cons.mp split
    obtain ⟨w,at_,stops,missed⟩ := stopped higher x rest tail
    refine ⟨fun r least met => ?_,fun none_ => missed ?_⟩
    · rw [show ([first.duration] ++ out)[(first :: higher).length]? = some w from at_]
      exact congrArg some (stops.least least met)
    · obtain ⟨v,_,reached,stationary | late⟩ := stops
      · rw [UInt32.lt_iff_toNat_lt,reached,stationary]
        exact not_le.mp (none_ v stationary)
      · exact late

theorem fits_of_lt (small : ∀ above x rest,tasks = above ++ x :: rest →
    wcrtRecurrence above x (max x.duration.toNat x.period.toNat) < 2 ^ 32) : Fits tasks := by
  intro above x rest split _ w visited
  exact lt_of_le_of_lt (recurrence_mono _ _ visited.le_max) (small above x rest split)

theorem threeTasks_fits : Fits threeTasks := fits_of_lt fun above x rest split => by
  rcases above with _ | ⟨_,_ | ⟨_,_ | ⟨_,above⟩⟩⟩
  all_goals simp only [threeTasks,nil_append,cons_append,List.cons.injEq] at split
  · obtain ⟨rfl,_⟩ := split
    decide +kernel
  · obtain ⟨rfl,rfl,_⟩ := split
    decide +kernel
  · obtain ⟨rfl,rfl,rfl,_⟩ := split
    decide +kernel
  · exact absurd split.2.2.2 (by simp)

theorem wcrt_exact_three : Fits threeTasks ∧ ∃ fuel schedulable wcrt,calculateWCRT fuel threeTasks = some (schedulable,wcrt) ∧
    wcrt[2]?.map UInt32.toNat = some 10 := by
  refine ⟨threeTasks_fits,?_⟩
  obtain ⟨fuel,schedulable,wcrt,calculated,exact_⟩ := wcrt_exact threeTasks_fits
  refine ⟨fuel,schedulable,wcrt,calculated,(exact_ [⟨1,4⟩,⟨2,6⟩] ⟨3,12⟩ [] rfl (cons_ne_nil _ _)).1 10 ⟨?_,fun r fixed => ?_⟩ ?_⟩
  · decide +kernel
  · by_contra below
    have small : ∀ r < 10,wcrtRecurrence [⟨1,4⟩,⟨2,6⟩] ⟨3,12⟩ r ≠ r := by decide +kernel
    exact small r (not_le.mp below) fixed
  · decide +kernel

def exactLoad (x : TaskTiming) : Nat := x.duration.toNat * 100 / x.period.toNat

def exactTotal (tasks : List TaskTiming) : Nat := (tasks.map exactLoad).sum

theorem taskLoad_toNat (product : x.duration.toNat * 100 < 2 ^ 32) (short : exactLoad x < 2 ^ 16) :
    (taskLoad x).toNat = exactLoad x := by
  unfold taskLoad
  split
  · rw [UInt32.toNat_toUInt16,UInt32.toNat_div,UInt32.toNat_mul]
    rw [show (100 : UInt32).toNat = 100 from rfl,Nat.mod_eq_of_lt product]
    exact Nat.mod_eq_of_lt short
  · rename_i zero
    rw [exactLoad,not_not.mp zero]
    exact (Nat.div_zero _).symm

theorem cpuLoadFrom_exact (above : List TaskTiming) {total : UInt16} (products : ∀ x ∈ rest,x.duration.toNat * 100 < 2 ^ 32)
    (before : total.toNat = exactTotal above) (short : exactTotal (above ++ rest) < 2 ^ 16) :
    ∀ higher x lower,rest = higher ++ x :: lower → ∃ load,(cpuLoadFrom total rest)[higher.length]? = some load ∧
      load.task.toNat = exactLoad x ∧ load.total.toNat = exactTotal (above ++ higher ++ [x]) := by
  induction rest generalizing above total with
  | nil =>
    intro higher x lower split
    simp at split
  | cons y rest ih =>
    have sum : exactTotal (above ++ y :: rest) = exactTotal above + exactLoad y + exactTotal rest := by
      simp [exactTotal,Nat.add_assoc]
    have next : exactTotal (above ++ [y]) = exactTotal above + exactLoad y := by simp [exactTotal]
    have own := taskLoad_toNat (products y mem_cons_self) (by omega)
    have added : (total + taskLoad y).toNat = exactTotal (above ++ [y]) := by
      rw [UInt16.toNat_add,before,own,next]
      exact Nat.mod_eq_of_lt (by omega)
    intro higher x lower split
    cases higher with
    | nil =>
      obtain ⟨rfl,rfl⟩ := cons_eq_cons.mp split
      exact ⟨_,rfl,own,by rw [append_nil]; exact added⟩
    | cons z higher =>
      obtain ⟨rfl,tail⟩ := cons_eq_cons.mp split
      obtain ⟨load,at_,task,all⟩ := ih _ (fun x inside => products x (mem_cons_of_mem _ inside)) added
        (by rwa [append_assoc]) higher x lower tail
      exact ⟨load,at_,task,by rw [all,append_assoc above]; rfl⟩

-- While no product leaves the word and the loads sum to less than 2 ^ 16 percent, every load
-- and every total is exact.
theorem cpuLoad_exact (products : ∀ x ∈ tasks,x.duration.toNat * 100 < 2 ^ 32) (short : exactTotal tasks < 2 ^ 16)
    (split : tasks = above ++ x :: rest) : ∃ load,(getTaskCpuLoad tasks)[above.length]? = some load ∧
      load.task.toNat = exactLoad x ∧ load.total.toNat = exactTotal (above ++ [x]) :=
  cpuLoadFrom_exact [] products rfl short above x rest split

theorem cpuLoad_exact_three : exactTotal threeTasks = 83 ∧ ∃ load,(getTaskCpuLoad threeTasks)[2]? = some load ∧
    load.task.toNat = 25 ∧ load.total.toNat = 83 := by
  have split : threeTasks = [⟨1,4⟩,⟨2,6⟩] ++ ⟨3,12⟩ :: [] := rfl
  exact ⟨by decide +kernel,cpuLoad_exact (by decide +kernel) (by decide +kernel) split⟩

-- A task that fills fifty million ticks is reported with a load of 14 percent.
theorem cpuLoad_wraps : (⟨50000000,50000000⟩ : TaskTiming).Admitted ∧ exactLoad ⟨50000000,50000000⟩ = 100 ∧
    getTaskCpuLoad [⟨50000000,50000000⟩] = [⟨14,14⟩] := by decide +kernel

end SuperTinyKernel.SchedulabilityCheck
