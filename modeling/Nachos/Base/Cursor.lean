import Mathlib.Data.List.GetD
import Mathlib.Tactic.Common

/-!
# Files read and written through an offset

A file is a list of items and an open file an offset into it. What matters about the offset
is what it still has before it, so `Cursor` states that instead of the number: reading takes the
first item of what is ahead, and with nothing ahead writing appends.
-/

namespace Base

variable {α : Type}

/-- `old` with `buffer` written at `off`. A gap before it is filled with `blank`. -/
def writeOver (blank : α) (old : List α) (off : Nat) (buffer : List α) : List α :=
  old.take off ++ List.replicate (off - old.length) blank ++ buffer ++
    old.drop (off + buffer.length)

theorem length_writeOver (blank : α) (old : List α) (off : Nat) (buffer : List α) :
    (writeOver blank old off buffer).length = max old.length (off + buffer.length) := by
  simp only [writeOver, List.length_append, List.length_take, List.length_replicate,
    List.length_drop]
  omega

/-- Only the bytes that are written change. -/
theorem getD_writeOver (blank : α) (old : List α) (off : Nat) (buffer : List α) (i : Nat) :
    (writeOver blank old off buffer).getD i blank =
      if off ≤ i ∧ i < off + buffer.length then buffer.getD (i - off) blank
      else old.getD i blank := by
  have hgap : (old.take off ++ List.replicate (off - old.length) blank).length = off := by
    rw [List.length_append, List.length_take, List.length_replicate]
    omega
  unfold writeOver
  rw [List.append_assoc]
  by_cases hlow : i < off
  · -- before the buffer there is what there was, or the gap
    rw [if_neg (by omega), List.getD_append _ _ _ _ (by omega)]
    by_cases hold : i < old.length
    · rw [List.getD_append _ _ _ _ (by rw [List.length_take]; omega)]
      simp [List.getD_eq_getElem?_getD, hlow]
    · rw [List.getD_append_right _ _ _ _ (by rw [List.length_take]; omega),
        List.getD_eq_default _ _ (Nat.le_of_not_lt hold)]
      simp [List.getD_eq_getElem?_getD, List.getElem?_replicate]
      split <;> rfl
  · rw [List.getD_append_right _ _ _ _ (by omega), hgap]
    -- in the buffer, or behind it where the rest of the file is
    by_cases hin : i < off + buffer.length
    · rw [if_pos ⟨by omega, hin⟩, List.getD_append _ _ _ _ (by omega)]
    · rw [if_neg (by omega), List.getD_append_right _ _ _ _ (by omega)]
      simp only [List.getD_eq_getElem?_getD, List.getElem?_drop]
      rw [show off + buffer.length + (i - off - buffer.length) = i by omega]

/-- From `off` on, the file holds `rest`. -/
def Cursor (file : List α) (off : Nat) (rest : List α) : Prop :=
  ∃ pre, file = pre ++ rest ∧ off = pre.length

namespace Cursor

variable {file rest : List α} {off : Nat} {x : α}

theorem start (file : List α) : Cursor file 0 file := ⟨[], rfl, rfl⟩

theorem finish (file : List α) : Cursor file file.length [] := ⟨file, by simp, rfl⟩

theorem length (h : Cursor file off rest) : off + rest.length = file.length := by
  obtain ⟨pre, rfl, rfl⟩ := h
  rw [List.length_append]

theorem get (h : Cursor file off (x :: rest)) : file[off]? = some x := by
  obtain ⟨pre, rfl, rfl⟩ := h
  simp

theorem get_end (h : Cursor file off []) : file[off]? = none := by
  have hl := h.length
  simp only [List.length_nil] at hl
  exact List.getElem?_eq_none (by omega)

/-- Reading an item. -/
theorem next (h : Cursor file off (x :: rest)) : Cursor file (off + 1) rest := by
  obtain ⟨pre, rfl, rfl⟩ := h
  exact ⟨pre ++ [x], by simp, by simp⟩

/-- Writing at the end. -/
theorem writeOver_eq (h : Cursor file off []) (blank : α) (buffer : List α) :
    writeOver blank file off buffer = file ++ buffer := by
  have hl := h.length
  simp only [List.length_nil, Nat.add_zero] at hl
  subst hl
  simp [writeOver]

theorem append (h : Cursor file off []) (buffer : List α) :
    Cursor (file ++ buffer) (off + buffer.length) [] := by
  have hl := h.length
  simp only [List.length_nil, Nat.add_zero] at hl
  exact ⟨file ++ buffer, by simp, by simp [hl]⟩

end Cursor

/-! ### Lines -/

variable [DecidableEq α]

/-- The lines of a file that `nl` ends, without it. -/
def linesOf (nl : α) : List α → List (List α)
  | [] => []
  | c :: cs =>
      if c = nl then [] :: linesOf nl cs
      else
        match linesOf nl cs with
        | [] => []
        | l :: ls => (c :: l) :: ls

theorem linesOf_line {nl : α} {l : List α} (h : nl ∉ l) (cs : List α) :
    linesOf nl (l ++ nl :: cs) = l :: linesOf nl cs := by
  induction l with
  | nil => simp [linesOf]
  | cons c l ih =>
      simp only [List.mem_cons, not_or] at h
      rw [List.cons_append, linesOf, if_neg (Ne.symm h.1), ih h.2]

theorem linesOf_open {nl : α} {l : List α} (h : nl ∉ l) : linesOf nl l = [] := by
  induction l with
  | nil => rfl
  | cons c l ih =>
      simp only [List.mem_cons, not_or] at h
      rw [linesOf, if_neg (Ne.symm h.1), ih h.2]

/-- Lines one after the other, and the start of one more. -/
theorem linesOf_lines {β : Type} {nl : α} {f : β → List α} {l : List α} (xs : List β)
    (hf : ∀ x ∈ xs, nl ∉ f x) (hl : nl ∉ l) :
    linesOf nl ((xs.flatMap fun x => f x ++ [nl]) ++ l) = xs.map f := by
  induction xs with
  | nil => exact linesOf_open hl
  | cons x xs ih =>
      have hx := hf x List.mem_cons_self
      have hxs := ih fun y hy => hf y (List.mem_cons_of_mem _ hy)
      simp only [List.flatMap_cons, List.append_assoc, List.cons_append, List.nil_append]
      rw [linesOf_line hx, hxs, List.map_cons]

end Base
