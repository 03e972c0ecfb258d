import Mathlib.Data.Nat.Basic
import Mathlib.Tactic.Common

/-!
# Machine arithmetic and the macros of `utility.h`

The kernel is built with `-m32`: an `int` is a 32-bit two's-complement number and
an `unsigned int` a number modulo `2^32`. Values are kept as `Int` and `Nat`, and
the wrap is written where the source computes, so that it is visible exactly at
the places where it can happen.
-/

namespace Nachos

/-- The largest `int`. -/
def intMax : Int := 2147483647

/-- What an `int` holds after a computation whose exact result is `x`. -/
def toInt32 (x : Int) : Int := x.bmod 4294967296

/-- What an `unsigned int` holds after a computation whose exact result is `x`. -/
def toUInt32 (x : Int) : Nat := (x % 4294967296).toNat

theorem toInt32_of_range {x : Int} (hlo : -2147483648 ≤ x) (hhi : x ≤ intMax) :
    toInt32 x = x := by
  unfold intMax at hhi
  exact Int.bmod_eq_of_le_mul_two (by omega) (by omega)

theorem toInt32_small {v : Int} (h0 : -1 ≤ v) (h1 : v ≤ 2) : toInt32 v = v :=
  toInt32_of_range (by omega) (by simp only [intMax]; omega)

theorem toInt32_range (x : Int) : -2147483648 ≤ toInt32 x ∧ toInt32 x ≤ intMax := by
  unfold toInt32 intMax
  rw [Int.bmod_def]
  split <;> omega

/-- Between `0` and `2^32` the wrap shows as a negative number or not at all. -/
theorem toInt32_eq_of_nonneg {x : Int} (hlo : 0 ≤ x) (hhi : x < 4294967296) (h : 0 ≤ toInt32 x) :
    toInt32 x = x := by
  unfold toInt32 at h ⊢
  rw [Int.bmod_def] at h ⊢
  split at h <;> split <;> omega

theorem toUInt32_toInt32 (x : Int) : toUInt32 (toInt32 x) = toUInt32 x := by
  have h : x.bmod 4294967296 % 4294967296 = x % 4294967296 := Int.bmod_emod
  unfold toUInt32 toInt32
  rw [h]

theorem toUInt32_toInt (a : BitVec 32) : toUInt32 a.toInt = a.toNat := by
  have hlt := a.isLt
  unfold toUInt32
  rw [BitVec.toInt_eq_toNat_cond]
  split <;> omega

/-- Consecutive addresses are different, as long as they do not go all the way round. -/
theorem toUInt32_step (a : Int) {i j : Nat} (hi : i < 4294967296) (hj : j < 4294967296)
    (h : toUInt32 (toInt32 (a + i)) = toUInt32 (toInt32 (a + j))) : i = j := by
  rw [toUInt32_toInt32, toUInt32_toInt32] at h
  unfold toUInt32 at h
  omega

/-- `divRoundUp(n, s)`: the quotient, one more when there is a remainder. -/
def divRoundUp (n s : Nat) : Nat := n / s + if n % s > 0 then 1 else 0

theorem le_divRoundUp_mul (n : Nat) {s : Nat} (hs : 0 < s) : n ≤ divRoundUp n s * s := by
  unfold divRoundUp
  have hdm := Nat.div_add_mod n s
  have hlt := Nat.mod_lt n hs
  have hmul : (n / s) * s = s * (n / s) := Nat.mul_comm _ _
  split
  · rw [Nat.add_mul]; omega
  · rw [Nat.add_zero]; omega

end Nachos
