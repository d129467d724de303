import Mathlib.Order.Bounds.Defs
import Mathlib.Data.Nat.Bitwise
import SuperTinyKernel.Memory.BlockPool

namespace SuperTinyKernel.BlockPool

def roundUp (x alignment : Nat) : Nat := (x + (alignment - 1)) / alignment * alignment

theorem le_roundUp {alignment : Nat} (some_ : 0 < alignment) (x : Nat) : x ≤ roundUp x alignment := by
  have parts := Nat.div_add_mod (x + (alignment - 1)) alignment
  have small := Nat.mod_lt (x + (alignment - 1)) some_
  unfold roundUp
  rw [Nat.mul_comm]
  omega

theorem roundUp_le (x alignment : Nat) : roundUp x alignment ≤ x + (alignment - 1) := Nat.div_mul_le_self _ _

theorem land_high {w k x : Nat} (few : k ≤ w) (small : x < 2 ^ w) : x &&& (2 ^ w - 1 - (2 ^ k - 1)) = x / 2 ^ k * 2 ^ k := by
  have high : 2 ^ w - 1 - (2 ^ k - 1) = (2 ^ (w - k) - 1) * 2 ^ k := by
    have whole : 2 ^ w = 2 ^ (w - k) * 2 ^ k := by rw [← Nat.pow_add,Nat.sub_add_cancel few]
    have positive := Nat.two_pow_pos k
    rw [Nat.sub_mul,← whole,Nat.one_mul]
    omega
  rw [high]
  refine Nat.eq_of_testBit_eq fun i => ?_
  rw [Nat.testBit_and,Nat.testBit_mul_two_pow,Nat.testBit_mul_two_pow,Nat.testBit_two_pow_sub_one,Nat.testBit_div_two_pow]
  by_cases low : k ≤ i
  · rw [Nat.sub_add_cancel low]
    by_cases inside : i < w
    · simp [low,show i - k < w - k by omega]
    · have out : x.testBit i = false := Nat.testBit_lt_two_pow (Nat.lt_of_lt_of_le small (Nat.pow_le_pow_right Nat.two_pos (by omega)))
      simp [out]
  · simp [low]

namespace Config

variable (c : Config) {x alignment k : Nat}

theorem minus_one (some_ : 0 < alignment) (small : alignment < c.limit) : c.minus alignment 1 = alignment - 1 := by
  unfold minus wrap
  rw [show alignment + (c.limit - 1) = alignment - 1 + c.limit by omega,Nat.add_mod_right,Nat.mod_eq_of_lt (by omega)]

theorem alignUp_eq (power : alignment = 2 ^ k) (small : alignment < c.limit) (inside : x < c.limit) :
    c.alignUp x alignment = if x + (alignment - 1) < c.limit then roundUp x alignment else 0 := by
  have positive : 0 < alignment := by
    rw [power]
    exact Nat.two_pow_pos k
  have few : k ≤ 8 * c.wordBytes := by
    rw [power] at small
    exact Nat.le_of_lt ((Nat.pow_lt_pow_iff_right Nat.one_lt_two).mp small)
  have below : c.wrap (x + (alignment - 1)) < c.limit := Nat.mod_lt _ (Nat.two_pow_pos _)
  unfold alignUp
  rw [c.minus_one positive small]
  have masked : c.wrap (x + (alignment - 1)) &&& (c.limit - 1 - (alignment - 1)) =
      c.wrap (x + (alignment - 1)) / alignment * alignment := by
    rw [power] at below ⊢
    exact land_high few below
  rw [masked]
  split
  · rename_i fits
    rw [wrap,Nat.mod_eq_of_lt fits]
    rfl
  · rename_i over_
    have rest : c.wrap (x + (alignment - 1)) < alignment := by
      unfold wrap
      rw [Nat.mod_eq_sub_mod (by omega),Nat.mod_eq_of_lt (by omega)]
      omega
    rw [Nat.div_eq_of_lt rest,Nat.zero_mul]

theorem power_half (power : alignment = 2 ^ k) (small : alignment < c.limit) : 2 * alignment ≤ c.limit := by
  have few : k + 1 ≤ 8 * c.wordBytes := by
    rw [power] at small
    exact (Nat.pow_lt_pow_iff_right Nat.one_lt_two).mp small
  rw [power,Nat.mul_comm,← Nat.pow_succ]
  exact Nat.pow_le_pow_right Nat.two_pos few

end Config

variable {c : Config} {blockSize usable n : Nat}

def Fits (a : Arguments c) (n : Nat) : Prop :=
  n = 0 ∨ roundUp a.storage a.alignment + n * roundUp a.rawBlockSize a.alignment + c.bitmapBytes n ≤ a.storage + a.storageSize

structure Unused (p : Pool) : Prop where
  blocks : p.blocks = 0
  capacity : p.capacity = 0
  bitmapAt : p.bitmapAt = 0
  freeList : p.freeList = 0
  usedCount : p.usedCount = 0

end SuperTinyKernel.BlockPool
