import Nachos.Proof.Turns

/-!
# What the water system computes

The greedy choice read from the end: what the next volume adds to the digits written so far
and to what the two taps have given. Then the system calls, for files whose contents and
offset are known.
-/

namespace Nachos

namespace WaterSystem

open Base (upd upd_self upd_ne Cursor writeOver)
open Handler (signedChar)

/-! ## Digits and volumes -/

theorem IsDigit.ne {c d : UInt8} (h : IsDigit c) (hd : d.toNat < 48) : c ≠ d := by
  rintro rfl
  have h1 := h.1
  omega

theorem signedChar_digit {c : UInt8} (h : IsDigit c) : signedChar c = c.toNat := by
  obtain ⟨_, h2⟩ := h
  exact Int.bmod_eq_of_le_mul_two (by omega) (by omega)

theorem value_append (ds : List UInt8) (c : UInt8) :
    value (ds ++ [c]) = value ds * 10 + (c.toNat - 48) := by
  unfold value
  rw [List.foldl_append]
  rfl

theorem value_le (ds es : List UInt8) : value ds ≤ value (ds ++ es) := by
  induction es generalizing ds with
  | nil => rw [List.append_nil]
  | cons e es ih =>
      -- the induction is over what is still to be read
      have h1 := ih (ds ++ [e])
      rw [value_append, List.append_assoc, List.singleton_append] at h1
      omega

/-- What the taps have given when the volumes have been drawn. -/
def fill : Nat → Nat → List Nat → Nat × Nat
  | a, b, [] => (a, b)
  | a, b, v :: vs => if a ≤ b then fill (a + v) b vs else fill a (b + v) vs

theorem fill_append (us : List Nat) (v : Nat) : ∀ a b,
    fill a b (us ++ [v]) =
      if (fill a b us).1 ≤ (fill a b us).2 then ((fill a b us).1 + v, (fill a b us).2)
      else ((fill a b us).1, (fill a b us).2 + v) := by
  induction us with
  | nil => intro a b; rfl
  | cons u us ih =>
      intro a b
      rw [List.cons_append, fill, fill]
      split
      · exact ih _ _
      · exact ih _ _

theorem taps_append (us : List Nat) (v : Nat) : ∀ a b,
    taps a b (us ++ [v]) =
      taps a b us ++ [if (fill a b us).1 ≤ (fill a b us).2 then 49 else 50] := by
  induction us with
  | nil =>
      intro a b
      by_cases h : a ≤ b
      · simp [taps, fill, h]
      · simp [taps, fill, h]
  | cons u us ih =>
      intro a b
      rw [List.cons_append, taps, taps, fill]
      split
      · rw [ih, List.cons_append]
      · rw [ih, List.cons_append]

theorem taps_length (us : List Nat) : ∀ a b, (taps a b us).length = us.length := by
  induction us with
  | nil => intro a b; rfl
  | cons u us ih =>
      intro a b
      rw [taps]
      split
      · rw [List.length_cons, ih, List.length_cons]
      · rw [List.length_cons, ih, List.length_cons]

theorem mem_taps (us : List Nat) : ∀ a b, ∀ d ∈ taps a b us, d = 49 ∨ d = 50 := by
  induction us with
  | nil => intro a b d hd; exact absurd hd List.not_mem_nil
  | cons u us ih =>
      intro a b d hd
      rw [taps] at hd
      split at hd
      · rcases List.mem_cons.mp hd with hd | hd
        · exact Or.inl hd
        · exact ih _ _ d hd
      · rcases List.mem_cons.mp hd with hd | hd
        · exact Or.inr hd
        · exact ih _ _ d hd

/-- What `result.txt` holds when the volumes have been served. -/
def digits (us : List (List UInt8)) : List UInt8 := taps 0 0 (us.map value)

/-- What the taps have given then. -/
def given (us : List (List UInt8)) : Nat × Nat := fill 0 0 (us.map value)

theorem digits_length (us : List (List UInt8)) : (digits us).length = us.length := by
  rw [digits, taps_length, List.length_map]

theorem digits_append (us : List (List UInt8)) (v : List UInt8) :
    digits (us ++ [v]) = digits us ++ [if (given us).1 ≤ (given us).2 then 49 else 50] := by
  rw [digits, List.map_append, List.map_singleton, taps_append]
  rfl

theorem given_append (us : List (List UInt8)) (v : List UInt8) :
    given (us ++ [v]) =
      if (given us).1 ≤ (given us).2 then ((given us).1 + value v, (given us).2)
      else ((given us).1, (given us).2 + value v) := by
  rw [given, List.map_append, List.map_singleton, fill_append]
  rfl

theorem total_append (us ws : List (List UInt8)) : total (us ++ ws) = total us + total ws := by
  induction us with
  | nil => rw [List.nil_append, total, Nat.zero_add]
  | cons u us ih => rw [List.cons_append, total, total, ih, Nat.add_assoc]

/-- The taps have given no more and no less than was drawn. -/
theorem fill_total (us : List (List UInt8)) : ∀ a b,
    (fill a b (us.map value)).1 + (fill a b (us.map value)).2 = a + b + total us := by
  induction us with
  | nil => intro a b; rfl
  | cons u us ih =>
      intro a b
      rw [List.map_cons, fill, total]
      split
      · rw [ih]; omega
      · rw [ih]; omega

theorem given_total (us : List (List UInt8)) : (given us).1 + (given us).2 = total us := by
  rw [given, fill_total]
  omega

/-- Digits with a space after each. -/
def spaced (ds : List UInt8) : List UInt8 := ds.flatMap fun d => [d, 32]

theorem spaced_append (ds : List UInt8) (d : UInt8) :
    spaced (ds ++ [d]) = spaced ds ++ [d, 32] := by
  simp [spaced]

theorem tapLine_eq (V : List (List UInt8)) : tapLine V = spaced (digits V) ++ [13] := rfl

theorem newline_not_mem_spaced {V : List (List UInt8)} {ds es : List UInt8}
    (h : digits V = ds ++ es) : 10 ∉ spaced ds := by
  intro hm
  obtain ⟨d, hd, hmem⟩ := List.mem_flatMap.mp hm
  have hdV : d ∈ digits V := by
    rw [h]
    exact List.mem_append_left _ hd
  rcases mem_taps _ _ _ d hdV with rfl | rfl
  · exact absurd hmem (by decide)
  · exact absurd hmem (by decide)

theorem newline_not_mem_tapLine (V : List (List UInt8)) : 10 ∉ tapLine V := by
  have hs : 10 ∉ spaced (digits V) := newline_not_mem_spaced (List.append_nil (digits V)).symm
  rw [tapLine_eq]
  intro hm
  rcases List.mem_append.mp hm with hm | hm
  · exact hs hm
  · exact absurd hm (by decide)

/-! ## Text -/

/-- The volumes after the first of a line, each with the space before it. -/
def tailText (ws : List (List UInt8)) : List UInt8 := ws.flatMap fun w => 32 :: w

theorem lineText_cons (v : List UInt8) (ws : List (List UInt8)) :
    lineText (v :: ws) = v ++ tailText ws := rfl

theorem tailText_cons (w : List UInt8) (ws : List (List UInt8)) :
    tailText (w :: ws) = 32 :: lineText (w :: ws) := rfl

/-- The lines of `input.txt`. -/
def inText (ls : List (List (List UInt8))) : List UInt8 := ls.flatMap fun V => lineText V ++ [10]

/-- The lines of `output.txt`. -/
def outText (ls : List (List (List UInt8))) : List UInt8 := ls.flatMap fun V => tapLine V ++ [10]

theorem outText_append (ls : List (List (List UInt8))) (V : List (List UInt8)) :
    outText (ls ++ [V]) = outText ls ++ (spaced (digits V) ++ [13, 10]) := by
  simp [outText, tapLine_eq]

theorem newline_not_mem_lineText {V : List (List UInt8)} (h : ∀ v ∈ V, ∀ c ∈ v, IsDigit c) :
    10 ∉ lineText V := by
  cases V with
  | nil => exact List.not_mem_nil
  | cons v vs =>
      intro hm
      rcases List.mem_append.mp hm with hm | hm
      · exact (h v List.mem_cons_self _ hm).ne (by decide) rfl
      · obtain ⟨w, hw, hm⟩ := List.mem_flatMap.mp hm
        rcases List.mem_cons.mp hm with hm | hm
        · exact absurd hm (by decide)
        · exact (h w (List.mem_cons_of_mem _ hw) _ hm).ne (by decide) rfl

/-! ## System calls on known files -/

/-- A file that is open, with `bs` in it and `rest` still to be read. -/
def Reads (file : Option (List UInt8)) (fID : Option Nat) (bs rest : List UInt8) : Prop :=
  file = some bs ∧ ∃ off, fID = some off ∧ Cursor bs off rest

section Calls

variable {files : Files} {f : File} {fID : Option Nat} {bs rest : List UInt8} {x : UInt8}

theorem openFile_some (h : files f = some bs) :
    openFile files f = some 0 ∧ Reads (files f) (some 0) bs bs := by
  refine ⟨?_, h, 0, rfl, Cursor.start bs⟩
  rw [openFile, h]
  rfl

theorem Reads.getc (h : Reads (files f) fID bs (x :: rest)) (c : UInt8) :
    ∃ off, read files f fID c = (1, x, some off) ∧ Reads (files f) (some off) bs rest := by
  obtain ⟨hf, off, rfl, ha⟩ := h
  refine ⟨off + 1, ?_, hf, off + 1, rfl, ha.next⟩
  simp only [read, hf, Option.getD_some, ha.get]

theorem Reads.eof (h : Reads (files f) fID bs []) (c : UInt8) :
    read files f fID c = (-2, c, fID) := by
  obtain ⟨hf, off, rfl, ha⟩ := h
  simp only [read, hf, Option.getD_some, ha.get_end]

theorem Reads.at_end (h : Reads (files f) fID bs []) : fID = some bs.length := by
  obtain ⟨-, off, rfl, ha⟩ := h
  exact congrArg some (by simpa using ha.length)

theorem Reads.put (h : Reads (files f) fID bs []) (buffer : List UInt8) :
    ∃ off, write files f fID buffer = (upd files f (some (bs ++ buffer)), some off) ∧
      Reads (some (bs ++ buffer)) (some off) (bs ++ buffer) [] := by
  obtain ⟨hf, off, rfl, ha⟩ := h
  refine ⟨off + buffer.length, ?_, rfl, off + buffer.length, rfl, ha.append buffer⟩
  simp only [write, hf, Option.getD_some, ha.writeOver_eq]

/-- `Seek(-1)`, which is asked for the length, when that is an `int`. -/
theorem Reads.seek_end (h : Reads (files f) fID bs rest) (hl : bs.length < 2147483648) :
    seek files f (-1) fID = ((bs.length : Int), some bs.length) := by
  obtain ⟨hf, off, rfl, -⟩ := h
  have h32 : toInt32 bs.length = bs.length :=
    toInt32_of_range (by omega) (by simp only [intMax]; omega)
  simp only [seek, hf, Option.getD_some, h32, if_true, Int.toNat_natCast]
  rw [if_neg (by omega)]

theorem seek_start (h : files f = some bs) (hl : bs.length < 2147483648) (off : Nat) :
    seek files f 0 (some off) = (0, some 0) := by
  have h32 : toInt32 bs.length = bs.length :=
    toInt32_of_range (by omega) (by simp only [intMax]; omega)
  have h0 : ¬ (0 : Int) = -1 := by decide
  simp only [seek, h, Option.getD_some, h32, if_neg h0]
  rw [if_neg (by omega)]
  rfl

end Calls

end WaterSystem

end Nachos
