import Mathlib

set_option linter.unusedSectionVars false

-- Priority inheritance with one inherited weight for each task, over any tasks, locks and
-- weights. How much of a loan a release or a task that gives up takes back is left to the user
-- of the operations.
structure Tenure (Task Lock Weight : Type) where
  base : Task → Weight
  boost : Task → Option Weight
  waits : Task → Option Lock
  owner : Lock → Option Task

namespace Tenure

open Function

variable {Task Lock Weight : Type} [LinearOrder Weight] [DecidableEq Task] [DecidableEq Lock]
  {p q : Tenure Task Lock Weight} {a b i : Task} {m : Lock} {w : Weight} {r : Option Weight}

def weight (p : Tenure Task Lock Weight) (a : Task) : Weight := (p.boost a).getD (p.base a)

def settle (p : Tenure Task Lock Weight) (a : Task) (r : Option Weight) : Tenure Task Lock Weight :=
  {p with boost := update p.boost a r}

def raise (p : Tenure Task Lock Weight) (a : Task) (w : Weight) : Tenure Task Lock Weight :=
  if p.weight a < w then p.settle a (some w) else p

def own (p : Tenure Task Lock Weight) (m : Lock) (a : Option Task) : Tenure Task Lock Weight :=
  {p with owner := update p.owner m a}

def wait (p : Tenure Task Lock Weight) (i : Task) (m : Option Lock) : Tenure Task Lock Weight :=
  {p with waits := update p.waits i m}

def block (p : Tenure Task Lock Weight) (i a : Task) (m : Lock) : Tenure Task Lock Weight :=
  (p.raise a (p.base i)).wait i (some m)

def handOver (p : Tenure Task Lock Weight) (i a : Task) (m : Lock) (r : Option Weight) : Tenure Task Lock Weight :=
  let q := ((p.settle i none).wait a none).own m (some a)
  match r with
  | none => q
  | some w => q.raise a w

-- The weight of the heaviest task that waits for the lock, if it is above `w`.
inductive Highest (p : Tenure Task Lock Weight) (m : Lock) (w : Weight) : Option Weight → Prop where
  | nobody : (∀ j,p.waits j = some m → p.base j ≤ w) → Highest p m w none
  | found {top : Task} : p.waits top = some m → w < p.base top →
      (∀ j,p.waits j = some m → p.base j ≤ p.base top) → Highest p m w (some (p.base top))

-- Apart from the operations of the locks, tasks arrive and waits end.
structure Drifts (p q : Tenure Task Lock Weight) : Prop where
  owner : q.owner = p.owner
  task : ∀ a,(q.base a = p.base a ∧ q.boost a = p.boost a ∧ (q.waits a = p.waits a ∨ q.waits a = none)) ∨
    ((∀ m,p.owner m ≠ some a) ∧ q.boost a = none ∧ q.waits a = none)

structure Valid (p : Tenure Task Lock Weight) : Prop where
  raised : ∀ a w,p.boost a = some w → p.base a < w
  owned : ∀ i m,p.waits i = some m → p.owner m ≠ none

def Covered (p : Tenure Task Lock Weight) : Prop :=
  ∀ m a i,p.owner m = some a → p.waits i = some m → p.base i ≤ p.weight a

def Spent (p : Tenure Task Lock Weight) : Prop := ∀ a w,p.boost a = some w → ∃ m,p.owner m = some a

theorem settle_boost : (p.settle a r).boost a = r := update_self ..
theorem settle_boost_other (apart : b ≠ a) : (p.settle a r).boost b = p.boost b := update_of_ne apart ..
theorem own_owner : (p.own m o).owner m = o := update_self ..
theorem own_owner_other (apart : m' ≠ m) : (p.own m o).owner m' = p.owner m' := update_of_ne apart ..
theorem wait_waits : (p.wait i o).waits i = o := update_self ..
theorem wait_waits_other (apart : j ≠ i) : (p.wait i o).waits j = p.waits j := update_of_ne apart ..

@[simp] theorem raise_base : (p.raise a w).base = p.base := by unfold raise; split <;> rfl
@[simp] theorem raise_waits : (p.raise a w).waits = p.waits := by unfold raise; split <;> rfl
@[simp] theorem raise_owner : (p.raise a w).owner = p.owner := by unfold raise; split <;> rfl

@[simp] theorem block_owner : (p.block i a m).owner = p.owner := raise_owner

theorem handOver_owner_other (apart : m' ≠ m) : (p.handOver i a m r).owner m' = p.owner m' := by
  unfold handOver
  cases r with
  | none => exact own_owner_other apart
  | some w => rw [raise_owner]; exact own_owner_other apart

theorem raise_boost_other (apart : b ≠ a) : (p.raise a w).boost b = p.boost b := by
  unfold raise; split <;> simp [settle,apart]

theorem settle_weight : (p.settle a r).weight a = r.getD (p.base a) := by simp [weight,settle]
theorem settle_weight_other (apart : b ≠ a) : (p.settle a r).weight b = p.weight b := by simp [weight,settle,apart]

theorem raise_weight : (p.raise a w).weight a = max (p.weight a) w := by
  unfold raise
  split
  · rename_i below
    rw [settle_weight,max_eq_right below.le]; rfl
  · rename_i enough
    rw [max_eq_left (not_lt.mp enough)]

theorem weight_le_raise (b : Task) : p.weight b ≤ (p.raise a w).weight b := by
  by_cases at_ : b = a
  · subst at_; rw [raise_weight]; exact le_max_left _ _
  · rw [weight,weight,raise_boost_other at_,raise_base]

section

variable (valid : p.Valid)
include valid

theorem Valid.base_le (a : Task) : p.base a ≤ p.weight a := by
  unfold weight
  cases lent : p.boost a with
  | none => exact le_refl _
  | some w => exact (valid.raised a w lent).le

theorem Valid.raise (a : Task) (w : Weight) : (p.raise a w).Valid := by
  refine ⟨fun b v lent => ?_,fun i m waits => ?_⟩
  · rw [raise_base]
    by_cases at_ : b = a
    · subst at_
      unfold Tenure.raise at lent
      split at lent
      · rename_i below
        rw [settle_boost] at lent
        cases lent
        exact lt_of_le_of_lt (valid.base_le b) below
      · exact valid.raised b v lent
    · rw [raise_boost_other at_] at lent
      exact valid.raised b v lent
  · rw [raise_waits] at waits
    rw [raise_owner]
    exact valid.owned i m waits

theorem Valid.settle (above : ∀ w,r = some w → p.base a < w) : (p.settle a r).Valid := by
  refine ⟨fun b w lent => ?_,valid.owned⟩
  by_cases at_ : b = a
  · subst at_
    rw [settle_boost] at lent
    exact above w lent
  · rw [settle_boost_other at_] at lent
    exact valid.raised b w lent

theorem Valid.own (a : Option Task) (kept : a = none → ∀ i,p.waits i ≠ some m) : (p.own m a).Valid := by
  refine ⟨valid.raised,fun i m' waits => ?_⟩
  by_cases here : m' = m
  · subst here
    rw [own_owner]
    exact fun free => kept free i waits
  · rw [own_owner_other here]
    exact valid.owned i m' waits

theorem Valid.wait (owned : ∀ m,o = some m → p.owner m ≠ none) : (p.wait i o).Valid := by
  refine ⟨valid.raised,fun j m waits => ?_⟩
  by_cases at_ : j = i
  · subst at_
    rw [wait_waits] at waits
    exact owned m waits
  · rw [wait_waits_other at_] at waits
    exact valid.owned j m waits

theorem Valid.block (owns : p.owner m = some a) (i : Task) : (p.block i a m).Valid :=
  (valid.raise a (p.base i)).wait (by rintro _ ⟨⟩; simp [owns])

theorem Valid.handOver (i a : Task) (m : Lock) (r : Option Weight) : (p.handOver i a m r).Valid := by
  have given : (((p.settle i none).wait a none).own m (some a)).Valid :=
    ((valid.settle (by simp)).wait (by simp)).own (some a) (by simp)
  cases r with
  | none => exact given
  | some w => exact given.raise a w

theorem Valid.drifts (drifts : Drifts p q) : q.Valid := by
  refine ⟨fun a w lent => ?_,fun i m waits => ?_⟩
  · rcases drifts.task a with ⟨base,boost,_⟩ | ⟨_,plain,_⟩
    · rw [base]; exact valid.raised a w (boost ▸ lent)
    · rw [plain] at lent; cases lent
  · rw [drifts.owner]
    rcases drifts.task i with ⟨_,_,same | none⟩ | ⟨_,_,none⟩
    · exact valid.owned i m (same ▸ waits)
    · rw [none] at waits; cases waits
    · rw [none] at waits; cases waits

-- A task that gives up asks for more than its owner weighs, so it gets more than the base
-- weight.
theorem Highest.above (highest : p.Highest m (p.weight a) r) (w : Weight) (found : r = some w) :
    p.base a < w := by
  cases highest with
  | nobody => cases found
  | found _ above => cases found; exact lt_of_le_of_lt (valid.base_le a) above

theorem Highest.light (highest : p.Highest m (p.weight a) r)
    (light : ∀ i,p.waits i = some m → p.base i ≤ p.base a) : r = none := by
  cases highest with
  | nobody => rfl
  | found waits above => exact absurd (light _ waits) (not_le.mpr (lt_of_le_of_lt (valid.base_le a) above))

end

section

variable (covered : p.Covered)
include covered

theorem Covered.drifts (drifts : Drifts p q) : q.Covered := by
  intro m a i owns waits
  rw [drifts.owner] at owns
  rcases drifts.task i with ⟨base,_,same | none⟩ | ⟨_,_,none⟩
  · rcases drifts.task a with ⟨heavy,boost,_⟩ | ⟨stranger,_⟩
    · rw [base,weight,heavy,boost]
      exact covered m a i owns (same ▸ waits)
    · exact absurd owns (stranger m)
  · rw [none] at waits; cases waits
  · rw [none] at waits; cases waits

theorem Covered.raise (a : Task) (w : Weight) : (p.raise a w).Covered := by
  intro m b i owns waits
  rw [raise_owner] at owns
  rw [raise_waits] at waits
  rw [raise_base]
  exact (covered m b i owns waits).trans (weight_le_raise b)

theorem Covered.take (valid : p.Valid) (free : p.owner m = none) : (p.own m (some a)).Covered := by
  intro m' b i owns waits
  by_cases here : m' = m
  · subst here; exact absurd free (valid.owned i m' waits)
  · rw [own_owner_other here] at owns
    exact covered m' b i owns waits

theorem Covered.block (owns : p.owner m = some a) (i : Task) : (p.block i a m).Covered := by
  intro m' b j owned waits
  have owned : (p.raise a (p.base i)).owner m' = some b := owned
  change (p.raise a (p.base i)).base j ≤ (p.raise a (p.base i)).weight b
  by_cases at_ : j = i
  · subst at_
    rw [Tenure.block,wait_waits] at waits
    cases waits
    rw [raise_owner] at owned
    obtain rfl : b = a := Option.some.inj (owned.symm.trans owns)
    rw [raise_base,raise_weight]
    exact le_max_right _ _
  · rw [Tenure.block,wait_waits_other at_] at waits
    exact covered.raise a (p.base i) m' b j owned waits

theorem Covered.release : (p.own m none).Covered := by
  intro m' b i owns waits
  by_cases here : m' = m
  · subst here; rw [own_owner] at owns; cases owns
  · rw [own_owner_other here] at owns
    exact covered m' b i owns waits

theorem Covered.returned (owns : p.owner m = some b) (waits : p.waits i = some m)
    (light : b = a → p.base i ≤ p.base a) : (p.settle a none).base i ≤ (p.settle a none).weight b := by
  by_cases at_ : b = a
  · subst at_
    rw [settle_weight]
    exact light rfl
  · rw [settle_weight_other at_]
    exact covered m b i owns waits

theorem Covered.settle (a : Task)
    (light : ∀ m i,p.owner m = some a → p.waits i = some m → p.base i ≤ p.base a) : (p.settle a none).Covered := by
  intro m b i owns waits
  refine covered.returned owns waits fun same => ?_
  subst same
  exact light m i owns waits

theorem Covered.resetRelease (i : Task)
    (light : ∀ m' j,m' ≠ m → p.owner m' = some i → p.waits j = some m' → p.base j ≤ p.base i) :
    ((p.settle i none).own m none).Covered := by
  intro m' b j owns waits
  by_cases here : m' = m
  · subst here; rw [own_owner] at owns; cases owns
  · rw [own_owner_other here] at owns
    refine covered.returned owns waits fun same => ?_
    subst same
    exact light m' j here owns waits

theorem Covered.handOver (valid : p.Valid) (i : Task)
    (light : ∀ m' j,m' ≠ m → p.owner m' = some i → p.waits j = some m' → p.base j ≤ p.base i)
    (highest : (((p.settle i none).wait a none).own m (some a)).Highest m (p.base a) r) :
    (p.handOver i a m r).Covered := by
  have base : p.base a ≤ (p.settle i none).weight a := (valid.settle (r := none) (a := i) (by simp)).base_le a
  have others : ∀ m' b j,m' ≠ m → (((p.settle i none).wait a none).own m (some a)).owner m' = some b →
      (((p.settle i none).wait a none).own m (some a)).waits j = some m' → p.base j ≤ (p.settle i none).weight b := by
    intro m' b j other owns waits
    rw [own_owner_other other] at owns
    by_cases at_ : j = a
    · subst at_; exact absurd (wait_waits.symm.trans waits) (by simp)
    · have linked : p.waits j = some m' := (wait_waits_other at_).symm.trans waits
      refine covered.returned owns linked fun same => ?_
      subst same
      exact light m' j other owns linked
  unfold Tenure.handOver
  cases highest with
  | nobody below =>
    intro m' b j owns waits
    by_cases here : m' = m
    · subst here
      rw [own_owner] at owns
      cases owns
      exact (below j waits).trans base
    · exact others m' b j here owns waits
  | found _ _ below =>
    intro m' b j owns waits
    rw [raise_owner] at owns
    rw [raise_waits] at waits
    rw [raise_base]
    by_cases here : m' = m
    · subst here
      rw [own_owner] at owns
      cases owns
      rw [raise_weight]
      exact (below j waits).trans (le_max_right _ _)
    · exact le_trans (others m' b j here owns waits)
        (weight_le_raise (p := ((p.settle i none).wait a none).own m (some a)) b)

end

section

variable (spent : p.Spent)
include spent

theorem Spent.drifts (drifts : Drifts p q) : q.Spent := by
  intro a w lent
  rw [drifts.owner]
  rcases drifts.task a with ⟨_,boost,_⟩ | ⟨_,plain,_⟩
  · exact spent a w (boost ▸ lent)
  · rw [plain] at lent; cases lent

theorem Spent.settle (owns : p.owner m = some a) (r : Option Weight) : (p.settle a r).Spent := by
  intro b w lent
  by_cases at_ : b = a
  · exact ⟨m,at_ ▸ owns⟩
  · rw [settle_boost_other at_] at lent
    exact spent b w lent

theorem Spent.raise (owns : p.owner m = some a) (w : Weight) : (p.raise a w).Spent := by
  unfold Tenure.raise
  split
  · exact spent.settle owns (some w)
  · exact spent

theorem Spent.take (free : p.owner m = none) (a : Option Task) : (p.own m a).Spent := by
  intro b w lent
  obtain ⟨m',owns⟩ := spent b w lent
  have other : m' ≠ m := by rintro rfl; rw [free] at owns; cases owns
  exact ⟨m',by rw [own_owner_other other]; exact owns⟩

theorem Spent.pass (owns : p.owner m = some a) (o : Option Task)
    (kept : p.boost a = none ∨ ∃ m',m' ≠ m ∧ p.owner m' = some a) : (p.own m o).Spent := by
  intro b w lent
  obtain ⟨m',owned⟩ := spent b w lent
  by_cases at_ : b = a
  · subst at_
    rcases kept with plain | ⟨m',other,owned⟩
    · rw [show p.boost b = some w from lent] at plain; cases plain
    · exact ⟨m',by rw [own_owner_other other]; exact owned⟩
  · have other : m' ≠ m := by
      rintro rfl
      exact at_ (Option.some.inj (owned.symm.trans owns))
    exact ⟨m',by rw [own_owner_other other]; exact owned⟩

theorem Spent.reset (owns : p.owner m = some a) (o : Option Task) :
    ((p.settle a none).own m o).Spent :=
  (spent.settle owns none).pass owns o (.inl settle_boost)

theorem Spent.handOver (owns : p.owner m = some i) (a : Task) (r : Option Weight) :
    (p.handOver i a m r).Spent := by
  have given : (((p.settle i none).wait a none).own m (some a)).Spent := spent.reset owns (some a)
  unfold Tenure.handOver
  cases r with
  | none => exact given
  | some w => exact given.raise (m := m) own_owner w

end

end Tenure
