import SuperTinyKernel.KernelTask

namespace SuperTinyKernel.Posix

-- struct timespec and its conversion to a timeout of the kernel.

structure Timespec where
  sec : Int
  nsec : Int
  deriving DecidableEq,Repr

def isValidTimespec (ts : Timespec) : Bool := decide (0 ≤ ts.nsec ∧ ts.nsec < 1000000000)

-- Time is an int64_t, whose overflow is undefined.
def int64 (x : Int) : Option Int := if -9223372036854775808 ≤ x ∧ x ≤ 9223372036854775807 then some x else none

def int32Max : Int := 2147483647

-- `res` is GetTickResolution(), in microseconds per tick.
def getTimeNowMs (res : Nat) (ticks : Int) : Option Int :=
  if res = 1000 then some ticks else (int64 (ticks * res)).map fun us => us.tdiv 1000

def targetMs (ts : Timespec) : Option Int := do
  let sec ← int64 (ts.sec * 1000)
  int64 (sec + (ts.nsec + 999999).tdiv 1000000)

def timespecToRelativeTimeout (res : Nat) (ticks : Int) (abstime : Timespec) : Option Int := do
  let now ← getTimeNowMs res ticks
  let target ← targetMs abstime
  let rel ← int64 (target - now)
  if 0 < rel then
    let rel := if int32Max < rel then int32Max else rel
    let ticks := if 0 < res then (rel * 1000 + res - 1).tdiv res else rel
    some (if waitInfinite - 1 < ticks then waitInfinite - 1 else ticks)
  else some noWait

def clockNs (res : Nat) (ticks : Int) : Int := ticks * res * 1000
def Timespec.ns (ts : Timespec) : Int := ts.sec * 1000000000 + ts.nsec

-- The distance of abstime in whole milliseconds, as the conversion sees it.
def distanceMs (res : Nat) (ticks : Int) (ts : Timespec) : Int :=
  ts.sec * 1000 + (ts.nsec + 999999) / 1000000 - ticks * res / 1000

-- The distance, cut to INT32_MAX milliseconds, is a number of ticks that a timed wait can have.
def withinTimeout (res : Nat) (ticks : Int) (ts : Timespec) : Bool :=
  decide (min (distanceMs res ticks ts) int32Max * 1000 ≤ (waitInfinite - 1) * res)

theorem int64_some (fits : int64 x = some y) : y = x := by
  unfold int64 at fits
  split at fits
  · exact (Option.some.inj fits).symm
  · cases fits

theorem getTimeNowMs_some (later : 0 ≤ ticks) (read : getTimeNowMs res ticks = some now) : now = ticks * res / 1000 := by
  unfold getTimeNowMs at read
  split at read
  · rename_i milli
    cases read
    rw [milli]
    omega
  · obtain ⟨us,fits,rfl⟩ := of_map read
    rw [int64_some fits]
    have positive : 0 ≤ ticks * res := Int.mul_nonneg later (Int.natCast_nonneg res)
    exact Int.tdiv_eq_ediv_of_nonneg positive

theorem targetMs_some (valid : isValidTimespec ts = true) (made : targetMs ts = some target) :
    target = ts.sec * 1000 + (ts.nsec + 999999) / 1000000 := by
  obtain ⟨positive,_⟩ := of_decide_eq_true valid
  obtain ⟨sec,fits,made⟩ := of_bind made
  rw [int64_some made,int64_some fits,Int.tdiv_eq_ediv_of_nonneg (by omega)]

theorem timespecToRelativeTimeout_some (some : 0 < res) (later : 0 ≤ ticks) (valid : isValidTimespec ts = true)
    (made : timespecToRelativeTimeout res ticks ts = .some n) :
    (distanceMs res ticks ts ≤ 0 ∧ n = noWait) ∨
      (0 < distanceMs res ticks ts ∧
        n = min ((min (distanceMs res ticks ts) int32Max * 1000 + res - 1) / res) (waitInfinite - 1)) := by
  obtain ⟨now,read,made⟩ := of_bind made
  obtain ⟨target,aimed,made⟩ := of_bind made
  obtain ⟨rel,fits,made⟩ := of_bind made
  have distance : rel = distanceMs res ticks ts := by
    rw [int64_some fits,getTimeNowMs_some later read,targetMs_some valid aimed]
    rfl
  rw [distance] at made
  generalize distanceMs res ticks ts = d at made ⊢
  split at made
  · rename_i ahead
    refine .inr ⟨ahead,?_⟩
    have cut : (if int32Max < d then int32Max else d) = min d int32Max := by split <;> omega
    have positive : 0 ≤ min d int32Max * 1000 + res - 1 := by
      have := (by decide : (0 : Int) < int32Max)
      omega
    dsimp only at made
    rw [cut,Int.tdiv_eq_ediv_of_nonneg positive] at made
    rw [← Option.some.inj made]
    split <;> omega
  · exact .inl ⟨by omega,(Option.some.inj made).symm⟩

theorem timespec_le_target (ts : Timespec) : ts.ns ≤ (ts.sec * 1000 + (ts.nsec + 999999) / 1000000) * 1000000 := by
  unfold Timespec.ns
  omega

theorem distanceMs_antitone (earlier : since ≤ now) : distanceMs res now ts ≤ distanceMs res since ts := by
  have less : since * res ≤ now * res := Int.mul_le_mul_of_nonneg_right earlier (Int.natCast_nonneg res)
  unfold distanceMs
  generalize since * (res : Int) = a at less ⊢
  generalize now * (res : Int) = b at less ⊢
  omega

theorem reached_noWait (passed : distanceMs res ticks ts ≤ 0) : ts.ns ≤ clockNs res ticks := by
  have target := timespec_le_target ts
  unfold distanceMs at passed
  unfold clockNs
  generalize ticks * (res : Int) = a at passed ⊢
  omega

theorem timeout_reaches (some : 0 < res) (ahead : 0 < distanceMs res ticks ts) (within : withinTimeout res ticks ts = true)
    (clamped : ts.ns ≤ clockNs res ticks + int32Max * 1000000)
    (made : n = min ((min (distanceMs res ticks ts) int32Max * 1000 + res - 1) / res) (waitInfinite - 1)) :
    0 < n ∧ n < waitInfinite ∧ ts.ns ≤ clockNs res (ticks + n) := by
  have within := of_decide_eq_true within
  have target := timespec_le_target ts
  have positive : (0 : Int) < res := Int.natCast_pos.mpr some
  unfold clockNs at clamped ⊢
  rw [Int.add_mul]
  unfold distanceMs at ahead within made
  generalize ts.sec * 1000 + (ts.nsec + 999999) / 1000000 = aim at *
  generalize ts.ns = goal at *
  generalize (res : Int) = r at *
  have limit : int32Max = 2147483647 := rfl
  have most : waitInfinite = 2147483647 := rfl
  generalize cut : min (aim - ticks * r / 1000) int32Max = m at *
  generalize ticks * r = now at *
  have enough : m * 1000 ≤ (m * 1000 + r - 1) / r * r := by
    have division := Int.emod_add_mul_ediv (m * 1000 + r - 1) r
    have rest := Int.emod_lt_of_pos (m * 1000 + r - 1) positive
    rw [Int.mul_comm r] at division
    omega
  have few : (m * 1000 + r - 1) / r ≤ waitInfinite - 1 := by
    have bound : (m * 1000 + r - 1) / r < waitInfinite - 1 + 1 := by
      refine Int.ediv_lt_of_lt_mul positive ?_
      rw [Int.add_mul]
      omega
    omega
  have least : 0 < (m * 1000 + r - 1) / r := Int.lt_of_lt_of_le Int.one_pos ((Int.le_ediv_iff_mul_le positive).mpr (by omega))
  have exact_ : n = (m * 1000 + r - 1) / r := by omega
  rw [exact_]
  generalize (m * 1000 + r - 1) / r = k at *
  generalize k * r = span at *
  omega

end SuperTinyKernel.Posix
