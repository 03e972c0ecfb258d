import Mathlib.Order.Bounds.Basic
import Mathlib.Tactic.Common

/-!
# Things that turn

The parts of a wheel go past one after the other, each in the same time. The times at which a part
begins to pass are multiples of that, and come back with every turn. The first of them from some
time on is found by rounding up and then counting the parts ahead.
-/

namespace Base

/-- A wheel of `slots` parts that go past in `ticks` each. At time 0 part 0 begins to pass. -/
structure Wheel where
  slots : Int
  ticks : Int
  slots_pos : 0 < slots
  ticks_pos : 0 < ticks

namespace Wheel

variable (w : Wheel) {k t u lo : Int}

/-- Part `k` begins to pass at `t`. -/
def Begins (k t : Int) : Prop := w.ticks ∣ t ∧ t / w.ticks % w.slots = k % w.slots

/-- All of part `k` passes between `lo` and `hi`. -/
def Passes (k lo hi : Int) : Prop := ∃ t, lo ≤ t ∧ w.Begins k t ∧ t + w.ticks ≤ hi

/-- The first time from `t` on at which some part begins to pass. -/
def roundUp (t : Int) : Int := t + (-t) % w.ticks

/-- How many parts pass before part `k`, when part `j` is about to. -/
def ahead (k j : Int) : Int := (k - j) % w.slots

/-- The first time from `t` on at which part `k` begins to pass. -/
def next (k t : Int) : Int := w.roundUp t + w.ahead k (w.roundUp t / w.ticks) * w.ticks

theorem ahead_nonneg (k j : Int) : 0 ≤ w.ahead k j := Int.emod_nonneg _ (Int.ne_of_gt w.slots_pos)

theorem ahead_lt (k j : Int) : w.ahead k j < w.slots := Int.emod_lt_of_pos _ w.slots_pos

theorem dvd_roundUp (t : Int) : w.ticks ∣ w.roundUp t := by
  refine ⟨-((-t) / w.ticks), ?_⟩
  have hdivision := Int.mul_ediv_add_emod (-t) w.ticks
  unfold roundUp
  rw [Int.mul_neg]
  omega

theorem le_roundUp (t : Int) : t ≤ w.roundUp t := by
  have hnonneg := Int.emod_nonneg (-t) (Int.ne_of_gt w.ticks_pos)
  unfold roundUp
  omega

theorem roundUp_lt (t : Int) : w.roundUp t < t + w.ticks := by
  have hlt := Int.emod_lt_of_pos (-t) w.ticks_pos
  unfold roundUp
  omega

/-- Two multiples are apart by as much as one of them at least. -/
theorem add_ticks_le (ht : w.ticks ∣ t) (hu : w.ticks ∣ u) (h : t < u) : t + w.ticks ≤ u := by
  have hle := Int.le_of_dvd (by omega) (Int.dvd_sub hu ht)
  omega

theorem roundUp_le (hu : w.ticks ∣ u) (h : t ≤ u) : w.roundUp t ≤ u := by
  have hlt := w.roundUp_lt t
  by_contra hgt
  have hstep := w.add_ticks_le hu (w.dvd_roundUp t) (by omega)
  omega

/-- After `j` parts it is the turn of the one that is `j` further on. -/
theorem begins_add (ht : w.ticks ∣ t) (k j : Int) :
    w.Begins k (t + j * w.ticks) ↔ w.slots ∣ k - t / w.ticks - j := by
  have hdiv : (t + j * w.ticks) / w.ticks = t / w.ticks + j :=
    Int.add_mul_ediv_right t j (Int.ne_of_gt w.ticks_pos)
  unfold Begins
  rw [hdiv, and_iff_right (Int.dvd_add ht (Int.dvd_mul_left j w.ticks)), eq_comm,
    Int.emod_eq_emod_iff_emod_sub_eq_zero, ← Int.dvd_iff_emod_eq_zero, Int.sub_sub]

theorem begins_ahead (ht : w.ticks ∣ t) (k : Int) :
    w.Begins k (t + w.ahead k (t / w.ticks) * w.ticks) := by
  rw [w.begins_add ht]
  unfold ahead
  exact Int.dvd_self_sub_emod

/-- Part `k` does not begin to pass before that. -/
theorem ahead_le (ht : w.ticks ∣ t) (h : w.Begins k u) (hle : t ≤ u) :
    t + w.ahead k (t / w.ticks) * w.ticks ≤ u := by
  obtain ⟨j, hj⟩ : w.ticks ∣ u - t := Int.dvd_sub h.1 ht
  obtain rfl : u = t + j * w.ticks := by
    rw [Int.mul_comm] at hj
    omega
  have hnonneg : 0 ≤ j := by
    refine Int.le_of_mul_le_mul_right (a := w.ticks) ?_ w.ticks_pos
    rw [Int.zero_mul]
    omega
  have hahead : w.ahead k (t / w.ticks) ≤ j := by
    -- `j` parts go past until then, so `j` is as many as are ahead, and whole turns
    have hmod : w.ahead k (t / w.ticks) = j % w.slots :=
      Int.emod_eq_emod_iff_emod_sub_eq_zero.mpr
        (Int.emod_eq_zero_of_dvd ((w.begins_add ht k j).mp h))
    have hdivision := Int.mul_ediv_add_emod j w.slots
    have hquotient := Int.mul_nonneg (Int.le_of_lt w.slots_pos)
      (Int.ediv_nonneg hnonneg (Int.le_of_lt w.slots_pos))
    omega
  exact Int.add_le_add_left (Int.mul_le_mul_of_nonneg_right hahead (Int.le_of_lt w.ticks_pos)) t

/-- **The first time that part `k` comes.** -/
theorem isLeast_next (k t : Int) : IsLeast {u | t ≤ u ∧ w.Begins k u} (w.next k t) := by
  have hdvd := w.dvd_roundUp t
  refine ⟨⟨?_, w.begins_ahead hdvd k⟩, fun u hu => w.ahead_le hdvd hu.2 (w.roundUp_le hu.2.1 hu.1)⟩
  have hmul := Int.mul_nonneg (w.ahead_nonneg k (w.roundUp t / w.ticks)) (Int.le_of_lt w.ticks_pos)
  have hle := w.le_roundUp t
  unfold next
  omega

/-- **A part has passed when there was time for those ahead of it and for itself.** -/
theorem passes_iff (hlo : w.ticks ∣ lo) (k hi : Int) :
    w.Passes k lo hi ↔ w.ahead k (lo / w.ticks) < (hi - lo) / w.ticks := by
  -- if it passes at all, it passes when it comes first
  have hfirst : w.Passes k lo hi ↔ lo + w.ahead k (lo / w.ticks) * w.ticks + w.ticks ≤ hi := by
    constructor
    · rintro ⟨t, hle, hbegins, hend⟩
      have hahead := w.ahead_le hlo hbegins hle
      omega
    · intro hend
      have hmul := Int.mul_nonneg (w.ahead_nonneg k (lo / w.ticks)) (Int.le_of_lt w.ticks_pos)
      exact ⟨_, by omega, w.begins_ahead hlo k, hend⟩
  rw [hfirst, Int.lt_iff_add_one_le, Int.le_ediv_iff_mul_le w.ticks_pos, Int.add_mul, Int.one_mul]
  omega

end Wheel

end Base
