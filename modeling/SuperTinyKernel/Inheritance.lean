import SuperTinyKernel.Ownership

namespace SuperTinyKernel

open Transition

def LockEvent.on (m : SyncId) : LockEvent n → Bool
  | .lock m' _ | .unlock m' => decide (m' = m)
  | _ => true

namespace Locks

variable {c : Config n} {law : Lawful c.strategy} {l l' : Locks c} {kind : SyncId → LockKind}

def weight (l : Locks c) (a : Fin n) : Int := (l.system.tasks a).getWeight c.strategy.api
def baseWeight (l : Locks c) (a : Fin n) : Int := (l.system.tasks a).getBaseWeight c.strategy.api
def waiting (l : Locks c) (m : SyncId) : List (Fin n) := l.system.kernel.waitList m

def owns (l : Locks c) (a : Fin n) (m : SyncId) : Bool :=
  (l.system.tasks a).user.any fun u => decide ((l.lock m).owner = some u.id)

def patient (kind : SyncId → LockKind) (l : Locks c) (e : LockEvent n) : Bool := (l.failing kind e).isNone

-- An Unlock() resets a weight only if nobody above the base weight waits for another lock of
-- the task.
def sparesOthers (kind : SyncId → LockKind) (l : Locks c) : LockEvent n → Bool
  | .unlock m => !l.resets kind m || decide (∀ i j,l.system.caller = some i →
      (l.system.tasks j).waitObj.syncObj ≠ some m →
      ((l.system.tasks j).waitObj.syncObj.any fun m' => l.owns i m') = true → l.baseWeight j ≤ l.baseWeight i)
  | _ => true

def restrained (kind : SyncId → LockKind) (l : Locks c) (e : LockEvent n) : Bool :=
  l.patient kind e && l.sparesOthers kind e

theorem Fit.owns_iff (fit : Fit law l) (a : Fin n) (m : SyncId) : l.owns a m = true ↔ l.tenure.owner m = some a := by
  unfold owns
  rw [Option.any_eq_true]
  constructor
  · rintro ⟨u,bound,owned⟩
    exact fit.owner_self bound (of_decide_eq_true owned)
  · intro owner
    obtain ⟨o,owned,found⟩ := of_bind owner
    obtain ⟨u,bound,rfl⟩ := Kernel.found_user found
    exact ⟨u,bound,decide_eq_true owned⟩

theorem owns_bound (owned : l.owns a m = true) : ∃ u,(l.system.tasks a).user = some u := by
  unfold owns at owned
  rw [Option.any_eq_true] at owned
  exact owned.imp fun _ => And.left

theorem Fit.waiting_iff (fit : Fit law l) (j : Fin n) (m : SyncId) : j ∈ l.waiting m ↔ l.tenure.waits j = some m :=
  fit.system.sound.filed.linked m j

theorem Fit.weight_eq (inherits : c.strategy.api.priorityInheritance = true) (bound : (l.system.tasks a).user = some u) :
    l.weight a = l.tenure.weight a := System.weight_tenure inherits bound

theorem Effect.covered (effect : Effect kind l l' e) (fit : Fit law l) (covered : l.tenure.Covered)
    (allowed : l.restrained kind e = true) : l'.tenure.Covered := by
  obtain ⟨patient,spares⟩ := Bool.and_eq_true_iff.mp allowed
  have never : ∀ m,l.failing kind e ≠ some m := fun m fails => by simp [Locks.patient,fails] at patient
  have light : ∀ {m i},e = .unlock m → l.system.caller = some i → l.resets kind m = true →
      ∀ m' j,m' ≠ m → l.tenure.owner m' = some i → l.tenure.waits j = some m' → l.tenure.base j ≤ l.tenure.base i := by
    rintro m i rfl calls resets m' j other owns waits
    have waits : (l.system.tasks j).waitObj.syncObj = some m' := waits
    rw [sparesOthers,resets,Bool.not_true,Bool.false_or] at spares
    refine of_decide_eq_true spares i j calls ?_ ?_
    · rw [waits]; exact fun same => other (Option.some.inj same)
    · rw [waits]; exact (fit.owns_iff i m').mpr owns
  cases effect with
  | drift drifts => exact covered.drifts drifts
  | same _ same => rw [same]; exact covered
  | take _ free taken => rw [taken]; exact covered.take fit.valid free
  | block _ owns blocked => rw [blocked]; exact covered.block owns _
  | refuse fails | giveUp fails | late fails => exact absurd fails (never _)
  | release _ _ _ freed => rw [freed]; exact covered.release
  | reset calls _ _ freed resets => rw [freed]; exact covered.resetRelease _ (light rfl calls resets)
  | handOver calls _ resets highest passed =>
    rw [passed]; exact covered.handOver fit.valid _ (light rfl calls resets) highest

theorem initial_covered : (Locks.initial c).tenure.Covered := by
  intro m a i owns waits
  cases waits

-- Without failing waits, and where no Unlock() resets a weight that another lock of the task
-- is owed: an owner weighs at least as much as every task that waits.
theorem owner_outweighs_waiters (b : Bundled) (chosen : c.strategy = b.strategy n)
    (inherits : c.strategy.api.priorityInheritance = true)
    (run : Run (Locks.step kind) (fun l e => l.restrained kind e = true) (Locks.initial c) l)
    {m : SyncId} {a j : Fin n} (owns : l.owns a m = true) (waits : j ∈ l.waiting m) : l.baseWeight j ≤ l.weight a := by
  obtain ⟨fit,covered⟩ := run.keeps (I := fun l => Fit (b.law chosen) l ∧ l.tenure.Covered)
    ⟨initial_fit _,initial_covered⟩ fun l e l' valid allowed taken =>
      have ⟨fit,effect⟩ := step_effect inherits valid.1 taken
      ⟨fit,effect.covered valid.1 valid.2 allowed⟩
  obtain ⟨u,bound⟩ := owns_bound owns
  rw [Fit.weight_eq inherits bound]
  exact covered m a j ((fit.owns_iff a m).mp owns) ((fit.waiting_iff j m).mp waits)

def nestedLocks : List (LockEvent 2) :=
  [.kernel (.addTask ⟨10,10,1,0⟩),.kernel (.addTask ⟨11,11,5,0⟩),.kernel .start,.kernel (.sleep 1),.kernel .force,
    .lock 0 none,.lock 1 none,.kernel (.tick 1),.kernel .leave,.lock 0 none,.kernel .force]

theorem nestedLocks_outweighs : ∃ l : Locks (inheritKernel 2 (by decide)),l.owns 0 0 = true ∧ l.owns 0 1 = true ∧
    1 ∈ l.waiting 0 ∧ l.baseWeight 1 = 5 ∧ l.baseWeight 1 ≤ l.weight 0 := by
  have found : ∃ l : Locks (inheritKernel 2 (by decide)),
      exec (Locks.step fun _ => .mutex) (Locks.initial _) nestedLocks = some l ∧
      l.owns 0 0 = true ∧ l.owns 0 1 = true ∧ 1 ∈ l.waiting 0 ∧ l.baseWeight 1 = 5 := by decide +kernel
  obtain ⟨l,ran,first,second,waits,base⟩ := found
  exact ⟨l,first,second,waits,base,owner_outweighs_waiters Bundled.fp32 rfl rfl
    (Run.ofExecAllowed _ (by decide +kernel) ran) first waits⟩

-- A task waits for one lock at a time, which has one owner.
theorem waiters_find_owner (b : Bundled) (chosen : c.strategy = b.strategy n)
    (inherits : c.strategy.api.priorityInheritance = true)
    (run : Run (Locks.step kind) (fun _ _ => True) (Locks.initial c) l) {m : SyncId} {j : Fin n} (waits : j ∈ l.waiting m) :
    (∃ a,l.owns a m = true ∧ ∀ a',l.owns a' m = true → a' = a) ∧ (l.waiting m).count j = 1 ∧
      ∀ m',j ∈ l.waiting m' → m' = m := by
  have fit : Fit (b.law chosen) l := run.keeps (initial_fit _) fun l e l' fit _ taken => (step_effect inherits fit taken).1
  have blocked := (fit.waiting_iff j m).mp waits
  obtain ⟨a,owner⟩ := Option.ne_none_iff_exists'.mp (fit.valid.owned j m blocked)
  refine ⟨⟨a,(fit.owns_iff a m).mpr owner,fun a' owns => ?_⟩,
    List.count_eq_one_of_mem (fit.system.sound.filed.distinct m) waits,fun m' waits' => ?_⟩
  · exact Option.some.inj (((fit.owns_iff a' m).mp owns).symm.trans owner)
  · exact Option.some.inj (((fit.waiting_iff j m').mp waits').symm.trans blocked)

theorem nestedLocks_owned : ∃ l : Locks (inheritKernel 2 (by decide)),
    exec (Locks.step fun _ => .mutex) (Locks.initial _) nestedLocks = some l ∧ 1 ∈ l.waiting 0 ∧ ∃ a,l.owns a 0 = true := by
  refine exec_shows (P := fun l => 1 ∈ l.waiting 0) (by decide +kernel) fun l ran waits => ⟨waits,?_⟩
  exact (waiters_find_owner Bundled.fp32 rfl rfl (.ofExec ran) waits).1.imp fun _ => And.left

-- Unlocking the second lock takes the weight that is owed to the waiter of the first.
theorem unlockOther_drops : ∃ l : Locks (inheritKernel 2 (by decide)),
    Run (Locks.step fun _ => .mutex) (fun l e => l.patient (fun _ => .mutex) e = true) (Locks.initial _) l ∧
      l.owns 0 0 = true ∧ 1 ∈ l.waiting 0 ∧ l.baseWeight 1 = 5 ∧ l.weight 0 = 1 := by
  exact Run.foundAllowed (nestedLocks ++ [.unlock 1]) (by decide +kernel) (by decide +kernel)

-- A failing wait leaves nobody behind who is heavier than the owner by itself. If the lock has
-- changed hands meanwhile, its owner's inherited weight is that of a task that still waits.
def relieves (kind : SyncId → LockKind) (l : Locks c) (e : LockEvent n) : Bool :=
  match l.failing kind e with
  | none => true
  | some m => decide (∀ a,l.owns a m = true →
      if e = .finish ∧ l.unchanged = false then
        (l.system.tasks a).rtWeight = noWeight ∨ ∃ j ∈ l.waiting m,(l.system.tasks a).rtWeight = l.baseWeight j
      else ∀ j ∈ l.waiting m,l.baseWeight j ≤ l.baseWeight a)

def owed (l : Locks c) (m : SyncId) (a : Fin n) : Int :=
  (l.waiting m).foldl (fun best j => max best (l.baseWeight j)) (l.baseWeight a)

theorem Fit.owed_eq (fit : Fit law l) (low : l.tenure.base a ≤ w)
    (each : ∀ j,l.tenure.waits j = some m → l.tenure.base j ≤ w)
    (top : w = l.tenure.base a ∨ ∃ j,l.tenure.waits j = some m ∧ w = l.tenure.base j) : l.owed m a = w := by
  obtain ⟨start,above,reached⟩ := foldl_max l.baseWeight (l.waiting m) (l.baseWeight a)
  refine le_antisymm ?_ ?_
  · rcases reached with reached | ⟨j,member,reached⟩
    · exact reached.trans_le low
    · exact reached.trans_le (each j ((fit.waiting_iff j m).mp member))
  · rcases top with top | ⟨j,waits,top⟩
    · exact top.trans_le start
    · exact top.trans_le (above j ((fit.waiting_iff j m).mpr waits))

structure Lone (m : SyncId) (p : Tenure (Fin n) SyncId Int) : Prop where
  covered : p.Covered
  others : ∀ m',m' ≠ m → p.owner m' = none

theorem Lone.only {p : Tenure (Fin n) SyncId Int} (lone : Lone m p) (owns : p.owner m' = some a) : m' = m :=
  Decidable.byContradiction fun other => by rw [lone.others m' other] at owns; cases owns

theorem Lone.settle {p : Tenure (Fin n) SyncId Int} (lone : Lone m p) (owns : p.owner m' = some a)
    (light : ∀ j,p.waits j = some m' → p.base j ≤ p.base a) : Lone m (p.settle a none) := by
  refine ⟨lone.covered.settle a fun m'' j owned waits => ?_,lone.others⟩
  obtain rfl : m'' = m' := (lone.only owned).trans (lone.only owns).symm
  exact light j waits

theorem relieves_light (fit : Fit law l) (relieved : l.relieves kind e = true) (fails : l.failing kind e = some m)
    (owns : l.tenure.owner m = some a) (now : ¬(e = .finish ∧ l.unchanged = false)) (j : Fin n)
    (waits : l.tenure.waits j = some m) : l.tenure.base j ≤ l.tenure.base a := by
  rw [relieves,fails] at relieved
  have light := of_decide_eq_true relieved a ((fit.owns_iff a m).mpr owns)
  rw [if_neg now] at light
  exact light j ((fit.waiting_iff j m).mpr waits)

theorem Effect.lone (effect : Effect kind l l' e) (fit : Fit law l) (lone : Lone m l.tenure) (alone : e.on m = true)
    (relieved : l.relieves kind e = true) : Lone m l'.tenure := by
  have reset : ∀ {i : Fin n} m' j,m' ≠ m → l.tenure.owner m' = some i → l.tenure.waits j = some m' →
      l.tenure.base j ≤ l.tenure.base i := fun m' j other owns => absurd (lone.only owns) other
  cases effect with
  | drift drifts => exact ⟨lone.covered.drifts drifts,fun m' other => drifts.owner ▸ lone.others m' other⟩
  | same _ same | late _ _ same => rw [same]; exact lone
  | take _ free taken =>
    obtain rfl := of_decide_eq_true alone
    rw [taken]
    exact ⟨lone.covered.take fit.valid free,fun m' other => (Tenure.own_owner_other other).trans (lone.others m' other)⟩
  | block _ owns blocked =>
    rw [blocked]
    exact ⟨lone.covered.block owns _,fun m' other => by rw [Tenure.block_owner]; exact lone.others m' other⟩
  | refuse fails owns highest settled =>
    rename_i m' timeout a i r
    have light := relieves_light fit relieved fails owns (fun both => by cases both.1)
    have raised : Lone m (l.tenure.raise a (l.tenure.base i)) :=
      ⟨lone.covered.raise _ _,fun m' other => by rw [Tenure.raise_owner]; exact lone.others m' other⟩
    have light : ∀ j,(l.tenure.raise a (l.tenure.base i)).waits j = some m' →
        (l.tenure.raise a (l.tenure.base i)).base j ≤ (l.tenure.raise a (l.tenure.base i)).base a := by
      rw [Tenure.raise_waits,Tenure.raise_base]; exact light
    obtain rfl := highest.light (fit.valid.raise _ _) light
    rw [settled]
    exact raised.settle (by rw [Tenure.raise_owner]; exact owns) light
  | release _ _ _ freed =>
    obtain rfl := of_decide_eq_true alone
    rw [freed]
    exact ⟨lone.covered.release,fun m' other => (Tenure.own_owner_other other).trans (lone.others m' other)⟩
  | reset _ _ _ freed =>
    obtain rfl := of_decide_eq_true alone
    rw [freed]
    exact ⟨lone.covered.resetRelease _ reset,fun m' other => (Tenure.own_owner_other other).trans (lone.others m' other)⟩
  | handOver _ _ _ highest passed =>
    obtain rfl := of_decide_eq_true alone
    rw [passed]
    exact ⟨lone.covered.handOver fit.valid _ reset highest,fun m' other =>
      (Tenure.handOver_owner_other other).trans (lone.others m' other)⟩
  | giveUp fails now owns highest settled =>
    have light := relieves_light fit relieved fails owns (fun both => by rw [now] at both; cases both.2)
    obtain rfl := highest.light fit.valid light
    rw [settled]
    exact lone.settle owns light

-- On one lock, where failing waits leave nobody behind who is owed more: a failing wait leaves
-- the owner with exactly what it owes.
theorem failing_wait_relieves (b : Bundled) (chosen : c.strategy = b.strategy n)
    (inherits : c.strategy.api.priorityInheritance = true)
    (run : Run (Locks.step kind) (fun l e => (e.on m && l.relieves kind e) = true) (Locks.initial c) l)
    (relieved : l.relieves kind e = true) (taken : l.step kind e = some l') (fails : l.failing kind e = some m)
    {a : Fin n} (owns : l'.owns a m = true) : l'.weight a = l'.owed m a := by
  obtain ⟨fit,lone⟩ := run.keeps (I := fun l => Fit (b.law chosen) l ∧ Lone m l.tenure)
    ⟨initial_fit _,initial_covered,fun _ _ => rfl⟩ fun l e l' valid allowed taken =>
      have ⟨fit,effect⟩ := step_effect inherits valid.1 taken
      have both := Bool.and_eq_true_iff.mp allowed
      ⟨fit,effect.lone valid.1 valid.2 both.1 both.2⟩
  obtain ⟨fit',effect⟩ := step_effect inherits fit taken
  obtain ⟨u,bound⟩ := owns_bound owns
  rw [Fit.weight_eq inherits bound]
  have owned := (fit'.owns_iff a m).mp owns
  have returned : ∀ {p : Tenure (Fin n) SyncId Int} {o},p.owner m = some o → l'.tenure = p.settle o none →
      (∀ j,p.waits j = some m → p.base j ≤ p.base o) → l'.tenure.weight a = l'.owed m a := by
    intro p o own settled light
    rw [settled] at owned
    obtain rfl : o = a := Option.some.inj (own.symm.trans owned)
    have plain : l'.tenure.weight o = l'.tenure.base o := by rw [settled]; exact Tenure.settle_weight
    rw [plain]
    exact (fit'.owed_eq (le_refl _) (by rw [settled]; exact light) (.inl rfl)).symm
  cases effect with
  | same none | take none | block none => rw [none] at fails; cases fails
  | drift | release | reset | handOver => cases fails
  | refuse same own highest settled =>
    rename_i m' timeout o i r
    obtain rfl : m' = m := Option.some.inj (same.symm.trans fails)
    have light := relieves_light fit relieved fails own (fun both => by cases both.1)
    have light : ∀ j,(l.tenure.raise o (l.tenure.base i)).waits j = some m' →
        (l.tenure.raise o (l.tenure.base i)).base j ≤ (l.tenure.raise o (l.tenure.base i)).base o := by
      rw [Tenure.raise_waits,Tenure.raise_base]; exact light
    obtain rfl := highest.light (fit.valid.raise _ _) light
    exact returned (by rw [Tenure.raise_owner]; exact own) settled light
  | giveUp same now own highest settled =>
    rename_i m' o r
    obtain rfl : m' = m := Option.some.inj (same.symm.trans fails)
    have light := relieves_light fit relieved fails own (fun both => by rw [now] at both; cases both.2)
    obtain rfl := highest.light fit.valid light
    exact returned own settled light
  | late same moved kept =>
    rename_i m'
    obtain rfl : m' = m := Option.some.inj (same.symm.trans fails)
    rw [kept] at owned
    have excused : (l.system.tasks a).rtWeight = noWeight ∨ ∃ j ∈ l.waiting m',(l.system.tasks a).rtWeight = l.baseWeight j := by
      rw [relieves,fails] at relieved
      have excused := of_decide_eq_true relieved a ((fit.owns_iff a m').mpr owned)
      rwa [if_pos ⟨rfl,moved⟩] at excused
    obtain ⟨v,before⟩ := owns_bound ((fit.owns_iff a m').mpr owned)
    have boost : l.tenure.boost a = System.inherited (l.system.tasks a).rtWeight := by
      simp [Locks.tenure,System.tenure,before]
    have top : l.tenure.weight a = l.tenure.base a ∨ ∃ j,l.tenure.waits j = some m' ∧ l.tenure.weight a = l.tenure.base j := by
      unfold Tenure.weight
      rw [boost,System.inherited]
      split
      · exact .inl rfl
      · rename_i lent
        obtain ⟨j,member,same⟩ := excused.resolve_left lent
        exact .inr ⟨j,(fit.waiting_iff j m').mp member,same⟩
    rw [kept]
    exact (fit'.owed_eq (by rw [kept]; exact fit.valid.base_le a)
      (by rw [kept]; exact fun j waits => lone.covered m' a j owned waits) (by rw [kept]; exact top)).symm

def lockTimesOut : List (LockEvent 2) :=
  [.kernel (.addTask ⟨10,10,1,0⟩),.kernel (.addTask ⟨11,11,5,0⟩),.kernel .start,.kernel (.sleep 1),.kernel .force,
    .lock 0 none,.kernel (.tick 1),.kernel .leave,.lock 0 (some 2),.kernel .force,.kernel (.tick 1),.kernel (.tick 1),
    .kernel .leave]

theorem lockTimesOut_relieved : ∃ l l' : Locks (inheritKernel 2 (by decide)),l.step (fun _ => .mutex) .finish = some l' ∧
    l.weight 0 = 5 ∧ l'.owns 0 0 = true ∧ l'.owed 0 0 = 1 ∧ l'.weight 0 = l'.owed 0 0 := by
  have found : ∃ l : Locks (inheritKernel 2 (by decide)),
      exec (Locks.step fun _ => .mutex) (Locks.initial _) lockTimesOut = some l ∧
      l.relieves (fun _ => .mutex) .finish = true ∧ l.failing (fun _ => .mutex) .finish = some 0 ∧ l.weight 0 = 5 ∧
      ∃ l',l.step (fun _ => .mutex) .finish = some l' ∧ l'.owns 0 0 = true ∧ l'.owed 0 0 = 1 := by decide +kernel
  obtain ⟨l,ran,relieves,fails,boosted,l',taken,owns,owed⟩ := found
  exact ⟨l,l',taken,boosted,owns,owed,failing_wait_relieves Bundled.fp32 rfl rfl
    (Run.ofExecAllowed _ (by decide +kernel) ran) relieves taken fails owns⟩

-- Two tasks of the same weight wait. The one that times out takes away the weight owed to the
-- other.
def equalWaiters : List (LockEvent 3) :=
  [.kernel (.addTask ⟨10,10,1,0⟩),.kernel (.addTask ⟨11,11,5,0⟩),.kernel (.addTask ⟨12,12,5,0⟩),.kernel .start,
    .kernel (.sleep 1),.kernel .force,.kernel (.sleep 2),.kernel .force,.lock 0 none,.kernel (.tick 1),.kernel (.tick 1),
    .kernel .leave,.lock 0 (some 2),.kernel .force,.kernel (.tick 1),.kernel .leave,.lock 0 none,.kernel .force,
    .kernel (.tick 1),.kernel .leave,.finish]

theorem equalWaiters_drops : ∃ l : Locks (inheritKernel 3 (by decide)),
    Run (Locks.step fun _ => .mutex) (fun _ e => e.on 0 = true) (Locks.initial _) l ∧ l.owns 0 0 = true ∧
      l.waiting 0 = [1] ∧ l.owed 0 0 = 5 ∧ l.weight 0 = 1 := by
  exact Run.foundAllowed equalWaiters (by decide +kernel) (by decide +kernel)

-- A FastMutex for which nobody waits is not unlocked by a task that still has an
-- inherited weight, unless the task owns another lock.
def ReturnsBoost (kind : SyncId → LockKind) (l : Locks c) : LockEvent n → Prop
  | .unlock m => kind m = .fastMutex → (l.waiting m).isEmpty = true → ∀ a,l.owns a m = true →
      (l.system.tasks a).rtWeight = noWeight ∨ ∃ m',m' ≠ m ∧ l.owns a m' = true
  | _ => True

theorem Effect.spent (effect : Effect kind l l' e) (fit : Fit law l) (spent : l.tenure.Spent)
    (returns : l.ReturnsBoost kind e) : l'.tenure.Spent := by
  cases effect with
  | drift drifts => exact spent.drifts drifts
  | same _ same | late _ _ same => rw [same]; exact spent
  | take _ free taken => rw [taken]; exact spent.take free _
  | block _ owns blocked => rw [blocked]; exact spent.raise owns _
  | refuse _ owns _ settled => rw [settled]; exact (spent.raise owns _).settle (by rw [Tenure.raise_owner]; exact owns) _
  | release calls owns _ freed fast empty =>
    rw [freed]
    refine spent.pass owns none ?_
    rcases returns fast empty _ ((fit.owns_iff _ _).mpr owns) with plain | ⟨m',other,owned⟩
    · exact .inl (by simp [Locks.tenure,System.tenure,System.inherited,plain])
    · exact .inr ⟨m',other,(fit.owns_iff _ m').mp owned⟩
  | reset _ owns _ freed => rw [freed]; exact spent.reset owns none
  | handOver _ owns _ _ passed => rw [passed]; exact spent.handOver owns _ _
  | giveUp _ _ owns _ settled => rw [settled]; exact spent.settle owns _

-- Where no task with an inherited weight unlocks its last lock as a FastMutex without waiters:
-- a task that owns no lock has its base weight.
theorem boost_ends_with_last_lock (b : Bundled) (chosen : c.strategy = b.strategy n)
    (inherits : c.strategy.api.priorityInheritance = true)
    (run : Run (Locks.step kind) (fun l e => l.ReturnsBoost kind e) (Locks.initial c) l)
    {a : Fin n} {u : UserTask} (bound : (l.system.tasks a).user = some u) (free : ∀ m,l.owns a m = false) :
    l.weight a = l.baseWeight a := by
  obtain ⟨fit,spent⟩ := run.keeps (I := fun l => Fit (b.law chosen) l ∧ l.tenure.Spent)
    ⟨initial_fit _,fun a w lent => by cases lent⟩ fun l e l' valid allowed taken =>
      have ⟨fit,effect⟩ := step_effect inherits valid.1 taken
      ⟨fit,effect.spent valid.1 valid.2 allowed⟩
  rw [Fit.weight_eq inherits bound,Tenure.weight]
  cases lent : l.tenure.boost a with
  | none => rfl
  | some w =>
    obtain ⟨m,owns⟩ := spent a w lent
    have owned := (fit.owns_iff a m).mpr owns
    rw [free m] at owned
    cases owned

theorem step_lock_other (taken : l.step kind e = some l') (alone : e.on m = true) (other : m' ≠ m) :
    l'.lock m' = l.lock m' := by
  have set : ∀ (l : Locks c) x,(l.setLock m x).lock m' = l.lock m' := fun l x => by
    unfold setLock; exact Function.update_of_ne other x l.lock
  have handed : ∀ l₁ : Locks c,l₁.handOver kind m = some l' → l'.lock m' = l₁.lock m' := by
    intro l₁ taken
    unfold handOver at taken
    split at taken
    · cases taken; exact set l₁ {}
    · obtain ⟨u,_,taken⟩ := of_bind taken
      obtain ⟨s,_,taken⟩ := of_bind taken
      obtain ⟨t,_,rfl⟩ := of_return taken
      exact set {l₁ with system := t} _
  have blocks : ∀ {i u timeout},l.block i u m timeout = some l' → l'.lock m' = l.lock m' := by
    intro i u timeout taken
    obtain ⟨o,_,taken⟩ := of_bind taken
    obtain ⟨s,_,taken⟩ := of_bind taken
    split at taken
    · obtain ⟨t,_,same⟩ := of_bind taken
      cases same; rfl
    · split at taken
      · cases taken
      · obtain ⟨t,_,same⟩ := of_bind taken
        cases same; rfl
  cases e with
  | kernel e =>
    replace taken : l.kernel e = some l' := taken
    unfold kernel at taken
    split at taken
    · obtain ⟨t,_,same⟩ := of_bind taken
      cases same; rfl
    · cases taken
  | lock m₁ timeout =>
    obtain rfl : m₁ = m := of_decide_eq_true alone
    obtain ⟨i,_,taken⟩ := of_bind taken
    obtain ⟨u,_,taken⟩ := of_bind taken
    split at taken
    · unfold timedLockEx at taken
      dsimp only at taken
      cases type : kind m₁ <;> simp only [type] at taken
      · split at taken
        · cases taken; exact set l _
        · split at taken
          · split at taken <;> cases taken
            exact set l _
          · split at taken
            · exact blocks taken
            · cases taken; rfl
      · split at taken
        · cases taken; exact set l _
        · split at taken
          · cases taken
          · split at taken
            · exact blocks taken
            · cases taken; rfl
    · cases taken
  | unlock m₁ =>
    obtain rfl : m₁ = m := of_decide_eq_true alone
    obtain ⟨i,_,taken⟩ := of_bind taken
    obtain ⟨u,_,taken⟩ := of_bind taken
    split at taken
    · unfold unlock at taken
      dsimp only at taken
      split at taken
      · cases type : kind m₁ <;> simp only [type] at taken
        · split at taken
          · obtain ⟨s,_,taken⟩ := of_bind taken
            exact handed {l with system := s} taken
          · cases taken; exact set l _
        · split at taken
          · cases taken; exact set l {}
          · obtain ⟨s,_,taken⟩ := of_bind taken
            exact handed {l with system := s} taken
      · cases taken
    · cases taken
  | finish =>
    obtain ⟨i,_,taken⟩ := of_bind taken
    obtain ⟨u,_,taken⟩ := of_bind taken
    unfold finish at taken
    split at taken
    · split at taken
      · split at taken <;> cases taken
        rfl
      · split at taken
        · cases taken
        · obtain ⟨t,_,same⟩ := of_bind taken
          cases same; rfl
    · cases taken

theorem lock_unused (run : Run (Locks.step kind) (fun _ e => e.on m = true) (Locks.initial c) l)
    (other : m' ≠ m) : (l.lock m').owner = none :=
  run.keeps (I := fun l => (l.lock m').owner = none) rfl fun _ _ _ before alone taken => by
    rw [step_lock_other taken alone other]; exact before

def lockHandedOver : List (LockEvent 2) :=
  [.kernel (.addTask ⟨10,10,1,0⟩),.kernel (.addTask ⟨11,11,5,0⟩),.kernel .start,.kernel (.sleep 1),.kernel .force,
    .lock 0 none,.kernel (.tick 1),.kernel .leave,.lock 0 none,.kernel .force,.unlock 0]

theorem lockHandedOver_plain : ∃ l : Locks (inheritKernel 2 (by decide)),l.owns 1 0 = true ∧ l.weight 0 = l.baseWeight 0 := by
  have ran : (exec (Locks.step fun _ => .fastMutex) (Locks.initial (inheritKernel 2 (by decide)))
      lockHandedOver).map (fun l => (l.owns 1 0,(l.system.tasks 0).user,l.owns 0 0)) = some (true,some ⟨10,10,1,0⟩,false) := by
    decide +kernel
  obtain ⟨l,ran,seen⟩ := of_map ran
  simp only [Prod.mk.injEq] at seen
  have free : ∀ m,l.owns 0 m = false := by
    intro m
    by_cases here : m = 0
    · subst here; exact seen.2.2
    · have unused := lock_unused (Run.ofExecAllowed (fun _ e => e.on 0) (by decide +kernel) ran) here
      simp [owns,unused]
  have run : Run (Locks.step fun _ => .fastMutex) (fun l e => l.ReturnsBoost (fun _ => .fastMutex) e)
      (Locks.initial _) l :=
    (Run.ofExecAllowed (fun l e => decide (e = .unlock 0 → (l.waiting 0).isEmpty = false) && e.on 0)
      (by decide +kernel) ran).weaken fun l e allowed => by
        obtain ⟨queued,alone⟩ := Bool.and_eq_true_iff.mp allowed
        cases e with
        | unlock m =>
          obtain rfl : m = 0 := of_decide_eq_true alone
          intro _ empty
          rw [of_decide_eq_true queued rfl] at empty
          cases empty
        | _ => trivial
  exact ⟨l,seen.1,boost_ends_with_last_lock Bundled.fp32 rfl rfl run seen.2.1 free⟩

-- The heavy task has timed out, but is not behind its Wait() yet, when the light one unlocks
-- the FastMutex.
def lateGiveUp : List (LockEvent 2) :=
  [.kernel (.addTask ⟨10,10,1,0⟩),.kernel (.addTask ⟨11,11,5,0⟩),.kernel .start,.kernel (.sleep 1),.kernel .force,
    .lock 0 none,.kernel (.tick 1),.kernel .leave,.lock 0 (some 2),.kernel .force,.kernel (.tick 1),.kernel (.tick 1),
    .kernel (.tick 1),.unlock 0,.kernel (.tick 1),.kernel .leave,.finish]

theorem lateGiveUp_keeps_boost : ∃ l : Locks (inheritKernel 2 (by decide)),
    Run (Locks.step fun _ => .fastMutex) (fun _ _ => True) (Locks.initial _) l ∧
      (∀ m,(l.lock m).owner = none) ∧ l.waiting 0 = [] ∧ l.call 1 = .none ∧ l.baseWeight 0 = 1 ∧ l.weight 0 = 5 := by
  have ran : (exec (Locks.step fun _ => .fastMutex) (Locks.initial (inheritKernel 2 (by decide))) lateGiveUp).map
      (fun l => ((l.lock 0).owner,l.waiting 0,l.call 1,l.baseWeight 0,l.weight 0)) = some (none,[],.none,1,5) := by
    decide +kernel
  obtain ⟨l,ran,seen⟩ := of_map ran
  simp only [Prod.mk.injEq] at seen
  refine ⟨l,Run.ofExec ran,fun m => ?_,seen.2⟩
  by_cases here : m = 0
  · subst here; exact seen.1
  · exact lock_unused (Run.ofExecAllowed (fun _ e => e.on 0) (by decide +kernel) ran) here

end Locks
end SuperTinyKernel
