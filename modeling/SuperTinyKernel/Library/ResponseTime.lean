import Mathlib

-- Response times under fixed priorities. A job of cost `c` is finished at the least `x` in
-- which its cost and all that the jobs `above` it can ask for within `x` fit.
namespace ResponseTime

structure Job where
  cost : Nat
  period : Nat
  deriving DecidableEq,Repr

def demand (above : List Job) (x : Nat) : Nat := (above.map fun j => (x ⌈/⌉ j.period) * j.cost).sum

def recurrence (c : Nat) (above : List Job) (x : Nat) : Nat := c + demand above x

def work (above : List Job) : Nat := (above.map Job.cost).sum

def utilization (above : List Job) : ℚ := (above.map fun j => (j.cost : ℚ) / j.period).sum

variable {above : List Job} {c r x y T : Nat}

@[simp] theorem demand_cons (j : Job) : demand (j :: above) x = (x ⌈/⌉ j.period) * j.cost + demand above x := rfl

@[simp] theorem work_cons (j : Job) : work (j :: above) = j.cost + work above := rfl

@[simp] theorem utilization_cons (j : Job) : utilization (j :: above) = (j.cost : ℚ) / j.period + utilization above := rfl

@[simp] theorem work_append (j : Job) : work (above ++ [j]) = work above + j.cost := by
  simp [work]

@[simp] theorem utilization_append (j : Job) :
    utilization (above ++ [j]) = utilization above + (j.cost : ℚ) / j.period := by
  simp [utilization]

theorem demand_mono (above : List Job) : Monotone (demand above) := by
  intro x y le
  induction above with
  | nil => exact le_rfl
  | cons j rest ih =>
    rw [demand_cons,demand_cons]
    have ceil : x ⌈/⌉ j.period ≤ y ⌈/⌉ j.period := by
      rw [Nat.ceilDiv_eq_add_pred_div,Nat.ceilDiv_eq_add_pred_div]
      exact Nat.div_le_div_right (by omega)
    exact Nat.add_le_add (Nat.mul_le_mul_right _ ceil) ih

theorem recurrence_mono (c : Nat) (above : List Job) : Monotone (recurrence c above) :=
  fun _ _ le => Nat.add_le_add_left (demand_mono above le) c

theorem cost_le (c : Nat) (above : List Job) (x : Nat) : c ≤ recurrence c above x := Nat.le_add_right _ _

theorem exists_least (fixed : recurrence c above x = x) :
    ∃ r,IsLeast (Function.fixedPoints (recurrence c above)) r ∧ r ≤ x := by
  have some_ : (Function.fixedPoints (recurrence c above)).Nonempty := ⟨x,fixed⟩
  exact ⟨sInf _,⟨Nat.sInf_mem some_,fun _ => Nat.sInf_le⟩,Nat.sInf_le fixed⟩

theorem div_le_ceil (positive : 0 < T) : (x : ℚ) / T ≤ (x ⌈/⌉ T : Nat) := by
  have le : x ≤ T * (x ⌈/⌉ T) := le_smul_ceilDiv positive
  rw [div_le_iff₀ (by exact_mod_cast positive),mul_comm]
  exact_mod_cast le

theorem ceil_le_div (positive : 0 < T) : ((x ⌈/⌉ T : Nat) : ℚ) ≤ (x : ℚ) / T + 1 := by
  have le : T * (x ⌈/⌉ T) ≤ x + T := by
    rw [Nat.ceilDiv_eq_add_pred_div]
    have := Nat.mul_div_le (x + T - 1) T
    omega
  have bound : (T : ℚ) * (x ⌈/⌉ T : Nat) ≤ x + T := by exact_mod_cast le
  have above : (0 : ℚ) < T := by exact_mod_cast positive
  rw [div_add_one above.ne',le_div_iff₀ above]
  linarith

section

variable (positive : ∀ j ∈ above,0 < j.period)
include positive

theorem le_demand : x * utilization above ≤ demand above x := by
  induction above with
  | nil => simp [utilization,demand]
  | cons j rest ih =>
    rw [utilization_cons,demand_cons,Nat.cast_add,Nat.cast_mul,mul_add]
    have ceil : (x : ℚ) / j.period ≤ _ := div_le_ceil (positive j (by simp))
    have own : (x : ℚ) * (j.cost / j.period) ≤ (x ⌈/⌉ j.period : Nat) * j.cost := calc
      (x : ℚ) * (j.cost / j.period) = x / j.period * j.cost := by ring
      _ ≤ _ := mul_le_mul_of_nonneg_right ceil (by positivity)
    exact add_le_add own (ih fun k inside => positive k (by simp [inside]))

theorem demand_le : (demand above x : ℚ) ≤ x * utilization above + work above := by
  induction above with
  | nil => simp [utilization,demand,work]
  | cons j rest ih =>
    rw [utilization_cons,demand_cons,work_cons,Nat.cast_add,Nat.cast_mul,Nat.cast_add]
    have ceil : _ ≤ (x : ℚ) / j.period + 1 := ceil_le_div (positive j (by simp))
    have own : ((x ⌈/⌉ j.period : Nat) : ℚ) * j.cost ≤ x * (j.cost / j.period) + j.cost := calc
      _ ≤ ((x : ℚ) / j.period + 1) * j.cost := mul_le_mul_of_nonneg_right ceil (by positivity)
      _ = _ := by ring
    linarith [ih fun k inside => positive k (by simp [inside])]

theorem recurrence_le (light : utilization above ≤ 1) :
    recurrence c above x ≤ c + x + work above := by
  have asked : (demand above x : ℚ) ≤ x + work above := calc
    (demand above x : ℚ) ≤ x * utilization above + work above := demand_le positive
    _ ≤ x * 1 + work above := by gcongr
    _ = x + work above := by ring
  have bound : demand above x ≤ x + work above := by exact_mod_cast asked
  rw [recurrence]
  omega

theorem work_le (started : 0 < x) : work above ≤ demand above x := by
  induction above with
  | nil => exact le_rfl
  | cons j rest ih =>
    rw [work_cons,demand_cons]
    have period := positive j (by simp)
    have once : 1 ≤ x ⌈/⌉ j.period := by
      rw [Nat.ceilDiv_eq_add_pred_div,Nat.one_le_div_iff period]
      omega
    exact Nat.add_le_add (Nat.le_mul_of_pos_left _ once) (ih fun k inside => positive k (by simp [inside]))

theorem utilization_le (started : 0 < c) (fixed : recurrence c above r = r)
    (met : r ≤ T) : utilization (above ++ [⟨c,T⟩]) ≤ 1 := by
  have running : 0 < r := by rw [← fixed]; exact lt_of_lt_of_le started (cost_le c above r)
  have split : (c : ℚ) + demand above r = r := by exact_mod_cast fixed
  have shared : (r : ℚ) * utilization above ≤ demand above r := le_demand positive
  have pos : (0 : ℚ) < r := by exact_mod_cast running
  have within : (r : ℚ) ≤ T := by exact_mod_cast met
  have own : (r : ℚ) * (c / T) ≤ c := by
    rw [mul_div_assoc',div_le_iff₀ (lt_of_lt_of_le pos within),mul_comm]
    exact mul_le_mul_of_nonneg_left within (by positivity)
  rw [utilization_append]
  refine le_of_mul_le_mul_left ?_ pos
  rw [mul_add,mul_one]
  linarith

end

-- The values an iteration from `a` comes by until it is stationary or over a bound.
inductive Visited (f : Nat → Nat) (bound a : Nat) : Nat → Prop where
  | start : Visited f bound a a
  | next : Visited f bound a w → f w ≠ w → f w ≤ bound → Visited f bound a (f w)

theorem Visited.rises {f : Nat → Nat} (visited : Visited f bound a w) (mono : Monotone f) (first : a ≤ f a) :
    w ≤ f w := by
  induction visited with
  | start => exact first
  | next _ _ _ ih => exact mono ih

theorem Visited.le_fixed {f : Nat → Nat} (visited : Visited f bound a w) (mono : Monotone f) (fixed : f r = r)
    (first : a ≤ r) : w ≤ r := by
  induction visited with
  | start => exact first
  | next _ _ _ ih => exact (mono ih).trans (le_of_eq fixed)

theorem Visited.le_max {f : Nat → Nat} (visited : Visited f bound a w) : w ≤ max a bound := by
  cases visited with
  | start => exact le_max_left _ _
  | next _ _ within => exact le_max_of_le_right within

end ResponseTime
