import Nachos.Lib.Utility
import Mathlib.Data.List.Basic
import Mathlib.Data.List.Nodup
import Mathlib.Data.List.Sort

/-!
# The bitmap of `lib/bitmap.cc`

Bits are packed into 32-bit words, found by division and remainder, and a partly
used last word is allowed. Frames, process slots and semaphore slots are all
handed out by `FindAndSet` on such a map.

Nothing outside this module unfolds a word. The rest of the development reads a
bitmap through `test` and through `clearBits`, the increasing list of the indices
still to be handed out: `findAndSet` takes the head of that list and leaves its
tail.
-/

namespace Nachos

/-- `BitsInWord`. -/
def bitsInWord : Nat := 32

/-- A map of `numBits` bits in as many words as they need. -/
structure Bitmap where
  /-- How many bits are managed. -/
  numBits : Nat
  /-- The words, `numWords` of them. -/
  map : List (BitVec 32)
  /-- The constructor asserts that there is something to manage. -/
  pos : 0 < numBits
  /-- `numWords = divRoundUp(numBits, BitsInWord)`. -/
  words : map.length = divRoundUp numBits bitsInWord

namespace Bitmap

/-- The mask `1 << (which % BitsInWord)`. -/
def bit (which : Nat) : BitVec 32 := 1#32 <<< (which % bitsInWord)

/-- `Test`: whether the bit is set. -/
def test (b : Bitmap) (which : Nat) : Bool :=
  (b.map.getD (which / bitsInWord) 0#32 &&& bit which) != 0#32

/-- `Mark`. The source asserts `which < numBits`. -/
def mark (b : Bitmap) (which : Nat) : Bitmap where
  numBits := b.numBits
  map := b.map.modify (which / bitsInWord) (fun w => w ||| bit which)
  pos := b.pos
  words := by rw [List.length_modify]; exact b.words

/-- `Clear`. The source asserts `which < numBits`. -/
def clear (b : Bitmap) (which : Nat) : Bitmap where
  numBits := b.numBits
  map := b.map.modify (which / bitsInWord) (fun w => w &&& ~~~ bit which)
  pos := b.pos
  words := by rw [List.length_modify]; exact b.words

/-- The words before the constructor's loop of `Clear`s: all zero already. -/
def zeroed (numItems : Nat) (h : 0 < numItems) : Bitmap where
  numBits := numItems
  map := List.replicate (divRoundUp numItems bitsInWord) 0#32
  pos := h
  words := List.length_replicate

/-- The constructor. -/
def new (numItems : Nat) (h : 0 < numItems) : Bitmap :=
  (List.range numItems).foldl clear (zeroed numItems h)

/-- The loop of `FindAndSet` from index `i`, with `k` indices to go. -/
def findAndSetFrom (b : Bitmap) : Nat → Nat → Int × Bitmap
  | _, 0 => (-1, b)
  | i, k + 1 => if !b.test i then (i, b.mark i) else findAndSetFrom b (i + 1) k

/-- `FindAndSet`: the first clear bit, now set, or `-1`. -/
def findAndSet (b : Bitmap) : Int × Bitmap := b.findAndSetFrom 0 b.numBits

/-- `NumClear`: how many bits are clear. -/
def numClear (b : Bitmap) : Nat :=
  (List.range b.numBits).foldl (fun count i => if !b.test i then count + 1 else count) 0

/-- The indices `FindAndSet` has still to hand out, in the order it will. -/
def clearBits (b : Bitmap) : List Nat := (List.range b.numBits).filter (fun i => !b.test i)

@[simp] theorem numBits_mark (b : Bitmap) (i : Nat) : (b.mark i).numBits = b.numBits := rfl

/-! ## Single bits -/

theorem and_bit_ne_zero (w : BitVec 32) (i : Nat) :
    (w &&& bit i != 0#32) = w.getLsbD (i % bitsInWord) := by
  have hlt : i % bitsInWord < 32 := Nat.mod_lt _ (by decide)
  rw [bit, ← BitVec.twoPow_eq, BitVec.and_twoPow]
  cases hb : w.getLsbD (i % bitsInWord) with
  | false => simp
  | true =>
      have hne : BitVec.twoPow 32 (i % bitsInWord) ≠ 0#32 := by
        intro h0
        have := congrArg (fun v => v.getLsbD (i % bitsInWord)) h0
        simp [hlt] at this
      simp [hne]

theorem test_eq (b : Bitmap) (i : Nat) :
    b.test i = (b.map.getD (i / bitsInWord) 0#32).getLsbD (i % bitsInWord) :=
  and_bit_ne_zero _ _

theorem word_lt {b : Bitmap} {i : Nat} (h : i < b.numBits) : i / bitsInWord < b.map.length := by
  rw [b.words]
  have := le_divRoundUp_mul b.numBits (s := bitsInWord) (by decide)
  exact Nat.div_lt_of_lt_mul (by rw [Nat.mul_comm]; omega)

theorem getD_modify (m : List (BitVec 32)) (f : BitVec 32 → BitVec 32) {k : Nat} (j : Nat)
    (hk : k < m.length) :
    (m.modify k f).getD j 0#32 = if j = k then f (m.getD k 0#32) else m.getD j 0#32 := by
  rw [List.getD_eq_getElem?_getD, List.getElem?_modify, List.getD_eq_getElem?_getD]
  by_cases hjk : j = k
  · subst hjk; simp [hk]
  · have : k ≠ j := fun h => hjk h.symm
    simp [hjk, this]

theorem eq_iff_div_mod (i j : Nat) :
    j = i ↔ j / bitsInWord = i / bitsInWord ∧ j % bitsInWord = i % bitsInWord := by
  constructor
  · intro h; subst h; exact ⟨rfl, rfl⟩
  · rintro ⟨h1, h2⟩
    rw [← Nat.div_add_mod j bitsInWord, h1, h2, Nat.div_add_mod]

/-- **`Mark` adds exactly its index.** -/
theorem test_mark {b : Bitmap} {i : Nat} (h : i < b.numBits) (j : Nat) :
    (b.mark i).test j = (decide (j = i) || b.test j) := by
  have hm : i % bitsInWord < 32 := Nat.mod_lt _ (by decide)
  rw [test_eq, test_eq, mark, getD_modify _ _ _ (word_lt h)]
  -- only a bit in the word of `i` can change
  by_cases hw : j / bitsInWord = i / bitsInWord
  · rw [if_pos hw, BitVec.getLsbD_or, bit, ← BitVec.twoPow_eq, BitVec.getLsbD_twoPow, hw]
    have hji : j = i ↔ i % bitsInWord = j % bitsInWord := by
      rw [eq_iff_div_mod]; simp [hw, eq_comm]
    simp [hm, hji, Bool.or_comm]
  · have hne : j ≠ i := fun e => hw (by rw [e])
    rw [if_neg hw]; simp [hne]

/-- **`Clear` removes exactly its index.** -/
theorem test_clear {b : Bitmap} {i : Nat} (h : i < b.numBits) (j : Nat) :
    (b.clear i).test j = (!decide (j = i) && b.test j) := by
  have hm : i % bitsInWord < 32 := Nat.mod_lt _ (by decide)
  have hjm : j % bitsInWord < 32 := Nat.mod_lt _ (by decide)
  rw [test_eq, test_eq, clear, getD_modify _ _ _ (word_lt h)]
  by_cases hw : j / bitsInWord = i / bitsInWord
  · rw [if_pos hw, BitVec.getLsbD_and, BitVec.getLsbD_not, bit, ← BitVec.twoPow_eq,
      BitVec.getLsbD_twoPow, hw]
    have hji : j = i ↔ i % bitsInWord = j % bitsInWord := by
      rw [eq_iff_div_mod]; simp [hw, eq_comm]
    simp [hm, hjm, hji, Bool.and_comm]
  · have hne : j ≠ i := fun e => hw (by rw [e])
    rw [if_neg hw]; simp [hne]

theorem test_zeroed (n : Nat) (h : 0 < n) (i : Nat) : (zeroed n h).test i = false := by
  rw [test_eq]
  simp only [zeroed, List.getD_eq_getElem?_getD, List.getElem?_replicate]
  split <;> simp

/-- Bits that are changed one after another, and all to `v`. -/
theorem foldl_spec {f : Bitmap → Nat → Bitmap} {v : Bool}
    (hbits : ∀ b i, (f b i).numBits = b.numBits)
    (hf : ∀ b i j, i < b.numBits → (f b i).test j = if j = i then v else b.test j) :
    ∀ (is : List Nat) (b : Bitmap), (∀ i ∈ is, i < b.numBits) →
      (is.foldl f b).numBits = b.numBits ∧
      ∀ j, (is.foldl f b).test j = if j ∈ is then v else b.test j := by
  intro is
  induction is with
  | nil => intro b _; exact ⟨rfl, fun j => by rw [if_neg List.not_mem_nil]; rfl⟩
  | cons i is ih =>
      intro b hlt
      obtain ⟨hn, htest⟩ := ih (f b i) fun k hk => by
        rw [hbits]
        exact hlt k (List.mem_cons_of_mem i hk)
      refine ⟨hn.trans (hbits b i), fun j => ?_⟩
      rw [List.foldl_cons, htest j, hf b i j (hlt i List.mem_cons_self)]
      by_cases hji : j = i <;> by_cases hj : j ∈ is <;> simp [hji, hj]

theorem foldl_mark (is : List Nat) {b : Bitmap} (hlt : ∀ i ∈ is, i < b.numBits) :
    (is.foldl mark b).numBits = b.numBits ∧
    ∀ j, (is.foldl mark b).test j = if j ∈ is then true else b.test j :=
  foldl_spec (f := mark) (fun _ _ => rfl)
    (fun b i j hi => by rw [test_mark hi]; by_cases hj : j = i <;> simp [hj]) is b hlt

theorem foldl_clear (is : List Nat) {b : Bitmap} (hlt : ∀ i ∈ is, i < b.numBits) :
    (is.foldl clear b).numBits = b.numBits ∧
    ∀ j, (is.foldl clear b).test j = if j ∈ is then false else b.test j :=
  foldl_spec (f := clear) (fun _ _ => rfl)
    (fun b i j hi => by rw [test_clear hi]; by_cases hj : j = i <;> simp [hj]) is b hlt

/-- The loop of the constructor. -/
theorem new_spec (n : Nat) (h : 0 < n) :
    (new n h).numBits = n ∧ ∀ i, (new n h).test i = false := by
  have hloop := foldl_clear (List.range n) (b := zeroed n h) fun i hi => List.mem_range.mp hi
  refine ⟨hloop.1, fun i => ?_⟩
  rw [new, hloop.2, test_zeroed n h, ite_self]

@[simp] theorem numBits_new (n : Nat) (h : 0 < n) : (new n h).numBits = n :=
  (new_spec n h).1

@[simp] theorem test_new (n : Nat) (h : 0 < n) (i : Nat) : (new n h).test i = false :=
  (new_spec n h).2 i

/-! ## Handing out bits -/

theorem mem_clearBits {b : Bitmap} {i : Nat} :
    i ∈ b.clearBits ↔ i < b.numBits ∧ b.test i = false := by
  simp [clearBits]

theorem clearBits_sorted (b : Bitmap) : b.clearBits.Pairwise (· < ·) :=
  List.Pairwise.filter _ List.pairwise_lt_range

theorem clearBits_nodup (b : Bitmap) : b.clearBits.Nodup :=
  b.clearBits_sorted.imp (fun h => Nat.ne_of_lt h)

/-- **`NumClear` counts what can still be handed out.** -/
theorem numClear_eq (b : Bitmap) : b.numClear = b.clearBits.length := by
  have hfold : ∀ (is : List Nat) (c : Nat),
      is.foldl (fun count i => if !b.test i then count + 1 else count) c
        = c + (is.filter (fun i => !b.test i)).length := by
    intro is
    induction is with
    | nil => intro c; simp
    | cons i is ih =>
        intro c
        rw [List.foldl_cons, ih, List.filter_cons]
        split
        · rw [List.length_cons]; omega
        · rfl
  rw [numClear, hfold, clearBits, Nat.zero_add]

/-- The loop, started at `i`, stops at the first clear index it meets. -/
theorem findAndSetFrom_eq (b : Bitmap) : ∀ (k i : Nat),
    b.findAndSetFrom i k =
      match (List.range' i k).filter (fun j => !b.test j) with
      | [] => (-1, b)
      | j :: _ => ((j : Int), b.mark j) := by
  intro k
  induction k with
  | zero => intro i; simp [findAndSetFrom]
  | succ k ih =>
      intro i
      rw [findAndSetFrom, List.range'_succ, List.filter_cons]
      by_cases ht : b.test i = true
      -- the bit is taken, and the loop goes on at the next index
      · simp only [ht, Bool.not_true, Bool.false_eq_true, if_false]
        exact ih (i + 1)
      · have hf : b.test i = false := by simpa using ht
        simp [hf]

/-- **`FindAndSet` takes the least clear index, or reports that there is none.** -/
theorem findAndSet_eq (b : Bitmap) :
    b.findAndSet = match b.clearBits with
      | [] => (-1, b)
      | j :: _ => ((j : Int), b.mark j) := by
  rw [findAndSet, findAndSetFrom_eq, clearBits, List.range_eq_range']

/-- Marking the least clear index leaves the others, in order. -/
theorem clearBits_mark_head {b : Bitmap} {j : Nat} {js : List Nat} (h : b.clearBits = j :: js) :
    (b.mark j).clearBits = js := by
  have hj : j < b.numBits := (mem_clearBits.mp (h ▸ List.mem_cons_self)).1
  -- the least clear index is at the front, and nowhere else
  have hnd : j ∉ js := (List.nodup_cons.mp (h ▸ b.clearBits_nodup)).1
  have hstep : (b.mark j).clearBits = b.clearBits.filter (fun i => decide (i ≠ j)) := by
    rw [clearBits, clearBits, numBits_mark, List.filter_filter]
    refine List.filter_congr ?_
    intro i _
    rw [test_mark hj]
    cases b.test i <;> by_cases hij : i = j <;> simp [hij]
  rw [hstep, h, List.filter_cons]
  simp only [ne_eq, not_true_eq_false, decide_false, Bool.false_eq_true, if_false]
  refine List.filter_eq_self.mpr ?_
  intro i hi
  simpa using fun he : i = j => hnd (he ▸ hi)

end Bitmap

end Nachos
