import Mathlib.Algebra.GroupWithZero.Nat
import Mathlib.Data.List.Perm.Basic
import Mathlib.Order.Interval.Finset.Nat
import Mathlib.Tactic.Common

/-!
# Ranges that lie end to end

A list of ranges of numbers covers a number when one of them does. Ranges cover at most as many
numbers as their lengths add up to, and they cover an interval of just that many numbers exactly
when they lie end to end in some order.
-/

namespace Base

/-- The numbers from `start` on, `length` of them. -/
structure Range where
  start : Nat
  length : Nat
  deriving DecidableEq, Repr

namespace Range

/-- `x` is one of the numbers of the range. -/
def Mem (r : Range) (x : Nat) : Prop := r.start ≤ x ∧ x < r.start + r.length

instance (r : Range) (x : Nat) : Decidable (r.Mem x) :=
  inferInstanceAs (Decidable (r.start ≤ x ∧ x < r.start + r.length))

end Range

variable {l l' : List Range} {n x : Nat}

/-- One of the ranges covers `x`. -/
def Covered (l : List Range) (x : Nat) : Prop := ∃ r ∈ l, r.Mem x

/-- What the lengths add up to. -/
def totalLength (l : List Range) : Nat := (l.map Range.length).sum

/-- The ranges lie end to end from `n` on. -/
def EndToEnd : Nat → List Range → Prop
  | _, [] => True
  | n, r :: l => r.start = n ∧ EndToEnd (n + r.length) l

/-- The ranges lie end to end from `n` on, in some order. -/
def Tile (n : Nat) (l : List Range) : Prop := ∃ l', l'.Perm l ∧ EndToEnd n l'

/-- The ranges cover an interval. -/
def Interval (l : List Range) (lo hi : Nat) : Prop := ∀ x, Covered l x ↔ lo ≤ x ∧ x < hi

theorem covered_nil (x : Nat) : ¬ Covered [] x := fun ⟨_, hr, _⟩ => absurd hr List.not_mem_nil

theorem covered_cons (r : Range) (l : List Range) (x : Nat) :
    Covered (r :: l) x ↔ r.Mem x ∨ Covered l x := by
  unfold Covered
  simp only [List.mem_cons, exists_eq_or_imp]

theorem totalLength_cons (r : Range) (l : List Range) :
    totalLength (r :: l) = r.length + totalLength l := rfl

theorem totalLength_append (l l' : List Range) :
    totalLength (l ++ l') = totalLength l + totalLength l' := by
  unfold totalLength
  rw [List.map_append, List.sum_append]

theorem Covered.perm (h : l.Perm l') : Covered l x ↔ Covered l' x := by
  unfold Covered
  simp only [h.mem_iff]

theorem totalLength_perm (h : l.Perm l') : totalLength l = totalLength l' :=
  (h.map Range.length).sum_eq

/-- All the numbers that are covered. -/
def covering : List Range → Finset Nat
  | [] => ∅
  | r :: l => Finset.Ico r.start (r.start + r.length) ∪ covering l

theorem mem_covering : x ∈ covering l ↔ Covered l x := by
  induction l with
  | nil => simp [covering, covered_nil]
  | cons r l ih =>
      rw [covering, Finset.mem_union, Finset.mem_Ico, ih, covered_cons]
      rfl

theorem card_covering_le (l : List Range) : (covering l).card ≤ totalLength l := by
  induction l with
  | nil => exact Nat.le_refl 0
  | cons r l ih =>
      have hunion := Finset.card_union_le (Finset.Ico r.start (r.start + r.length)) (covering l)
      rw [Nat.card_Ico] at hunion
      rw [covering, totalLength_cons]
      omega

/-- Ranges that cover an interval as long as they are all together cover nothing else. -/
theorem covered_of_full (h : ∀ y, n ≤ y → y < n + totalLength l → Covered l y) (hx : Covered l x) :
    n ≤ x ∧ x < n + totalLength l := by
  by_contra hout
  -- with `x` they would cover one number more than there is room for
  have hsub : insert x (Finset.Ico n (n + totalLength l)) ⊆ covering l := by
    intro y hy
    rcases Finset.mem_insert.mp hy with rfl | hy
    · exact mem_covering.mpr hx
    · have hy' := Finset.mem_Ico.mp hy
      exact mem_covering.mpr (h y hy'.1 hy'.2)
  have hcard := Finset.card_le_card hsub
  rw [Finset.card_insert_of_notMem (fun hin => hout (Finset.mem_Ico.mp hin)), Nat.card_Ico] at hcard
  have hle := card_covering_le l
  omega

theorem EndToEnd.interval : ∀ {l : List Range} {n : Nat}, EndToEnd n l →
    Interval l n (n + totalLength l) := by
  intro l
  induction l with
  | nil =>
      intro n _ x
      exact iff_of_false (covered_nil x) fun h => absurd h.2 (by
        show ¬ x < n + 0
        omega)
  | cons r l ih =>
      intro n h x
      obtain ⟨rfl, hrest⟩ := h
      rw [covered_cons, ih hrest x, totalLength_cons]
      unfold Range.Mem
      omega

theorem Tile.interval (h : Tile n l) : Interval l n (n + totalLength l) := by
  obtain ⟨l', hl', hends⟩ := h
  intro x
  rw [← Covered.perm hl', ← totalLength_perm hl']
  exact hends.interval x

/-- A range starts at the beginning of the interval, and the others cover what comes behind it. -/
theorem Interval.first (hpos : ∀ r ∈ l, 0 < r.length) (h : Interval l n (n + totalLength l))
    (hne : l ≠ []) : ∃ r ∈ l, r.start = n ∧
      Interval (l.erase r) (n + r.length) (n + r.length + totalLength (l.erase r)) := by
  have hlen : 0 < totalLength l := by
    obtain ⟨r, l', rfl⟩ := List.exists_cons_of_ne_nil hne
    have hr := hpos r List.mem_cons_self
    rw [totalLength_cons]
    omega
  obtain ⟨r, hr, hlo, hhi⟩ := (h n).mpr ⟨Nat.le_refl n, by omega⟩
  -- a range from before `n` would cover something outside of the interval
  have hstart : r.start = n := by
    have hrpos := hpos r hr
    have hfirst := (h r.start).mp ⟨r, hr, Nat.le_refl _, by omega⟩
    omega
  have hperm := List.perm_cons_erase hr
  have htotal := totalLength_perm hperm
  rw [totalLength_cons] at htotal
  have hrest : ∀ y, n + r.length ≤ y → y < n + r.length + totalLength (l.erase r) →
      Covered (l.erase r) y := by
    intro y hlo' hhi'
    have hy := (h y).mpr ⟨by omega, by omega⟩
    rw [Covered.perm hperm, covered_cons] at hy
    refine hy.resolve_left fun hmem => ?_
    have hend := hmem.2
    omega
  exact ⟨r, hr, hstart, fun y => ⟨covered_of_full hrest, fun hy => hrest y hy.1 hy.2⟩⟩

theorem Interval.tile : ∀ (k : Nat) {l : List Range} {n : Nat}, l.length = k →
    (∀ r ∈ l, 0 < r.length) → Interval l n (n + totalLength l) → Tile n l := by
  intro k
  induction k with
  | zero =>
      intro l n hk _ _
      rw [List.eq_nil_of_length_eq_zero hk]
      exact ⟨[], List.Perm.refl _, trivial⟩
  | succ k ih =>
      intro l n hk hpos h
      have hne : l ≠ [] := by
        rintro rfl
        exact absurd hk (by simp)
      -- the induction takes off the range at the front
      obtain ⟨r, hr, hstart, hrest⟩ := h.first hpos hne
      have hlength : (l.erase r).length = k := by
        rw [List.length_erase_of_mem hr, hk]
        rfl
      obtain ⟨l', hl', hends⟩ :=
        ih hlength (fun r' hr' => hpos r' (List.mem_of_mem_erase hr')) hrest
      exact ⟨r :: l', (hl'.cons r).trans (List.perm_cons_erase hr).symm, hstart, hends⟩

/-- **Ranges cover an interval as long as they are together when they lie end to end.** -/
theorem interval_iff_tile (hpos : ∀ r ∈ l, 0 < r.length) :
    Interval l n (n + totalLength l) ↔ Tile n l :=
  ⟨Interval.tile l.length rfl hpos, Tile.interval⟩

end Base
