import Mathlib.Data.List.Perm.Basic
import Mathlib.Data.List.Pairwise

/-!
# Stable sorts

A three-way comparison is a total preorder when it changes its sign with the order of its arguments
and what is not bigger is so transitively. A sort is stable when those that compare equal are where
they were among themselves. Said by filters, this is kept when one is taken out on both sides, and
it names the one that comes first.
-/

namespace Base

variable {α : Type}

/-- A comparison function for a total preorder. -/
structure Comparator (compare : α → α → Int) : Prop where
  swap : ∀ x y, compare x y < 0 ↔ 0 < compare y x
  trans : ∀ x y z, compare x y ≤ 0 → compare y z ≤ 0 → compare x z ≤ 0

/-- `xs` is a stable sort of `log`. -/
structure StableSorted (compare : α → α → Int) (log xs : List α) : Prop where
  perm : xs.Perm log
  sorted : xs.Pairwise fun x y => compare x y ≤ 0
  stable : ∀ x, xs.filter (fun y => compare x y = 0) = log.filter fun y => compare x y = 0

/-- `x` is the least of `log`, and the first of those that are. -/
structure ComesFirst (compare : α → α → Int) (log : List α) (x : α) : Prop where
  least : ∀ y ∈ log, compare x y ≤ 0
  first : (log.filter fun y => compare x y = 0).head? = some x

variable {compare : α → α → Int}

namespace Comparator

theorem self (h : Comparator compare) (x : α) : compare x x = 0 := by
  have := h.swap x x
  omega

/-- Two that compare equal are the same to a third. -/
theorem eq_trans (h : Comparator compare) {x y z : α} (hxy : compare x y = 0)
    (hyz : compare y z = 0) : compare x z = 0 := by
  have hzy := h.swap y z
  have hyx := h.swap x y
  -- neither is bigger, one way round and the other
  have h1 := h.trans x y z (by omega) (by omega)
  have hyx' := h.swap y x
  have hzy' := h.swap z y
  have h2 := h.trans z y x (by omega) (by omega)
  have hxz := h.swap x z
  have hzx := h.swap z x
  omega

theorem eq_symm (h : Comparator compare) {x y : α} (hxy : compare x y = 0) : compare y x = 0 := by
  have h1 := h.swap x y
  have h2 := h.swap y x
  omega

end Comparator

namespace StableSorted

variable {log xs : List α}

theorem nil (compare : α → α → Int) : StableSorted compare [] [] :=
  ⟨.refl _, .nil, fun _ => rfl⟩

theorem comesFirst (hc : Comparator compare) {x : α} (h : StableSorted compare log (x :: xs)) :
    ComesFirst compare log x where
  least := by
    intro y hy
    rcases List.mem_cons.mp (h.perm.mem_iff.mpr hy) with rfl | hin
    · exact Int.le_of_eq (hc.self y)
    · exact (List.pairwise_cons.mp h.sorted).1 y hin
  first := by
    rw [← h.stable x, List.filter_cons, if_pos (decide_eq_true (hc.self x)), List.head?_cons]

/-- **One is taken out.** -/
theorem erase [DecidableEq α] (h : StableSorted compare log xs) (x : α) :
    StableSorted compare (log.erase x) (xs.erase x) where
  perm := h.perm.erase x
  sorted := h.sorted.sublist List.erase_sublist
  stable := by
    intro y
    rw [← List.erase_filter, ← List.erase_filter, h.stable y]

end StableSorted

end Base
