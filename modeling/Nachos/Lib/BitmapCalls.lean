import Nachos.Lib.Bitmap
import Nachos.Base.Objects

/-!
# The calls of the bitmap

The operations of `lib/bitmap.cc` as their callers meet them: the index is an `int`, and an
assertion that fails is the end. `Mark` and `Clear` look at what they have done through `Test`,
which asserts the index again, and the loops of `FindAndSet` and `NumClear` go through `Test` and
`Mark` like any other caller.
-/

namespace Nachos

/-- An `ASSERT` of the library has failed. -/
inductive AssertionFailed where
  | here
  deriving DecidableEq, Repr

namespace Bitmap

/-- A program over a bitmap that may stop on an assertion. -/
abbrev Calls := EStateM AssertionFailed Bitmap

/-- `ASSERT`. -/
def assert (c : Prop) [Decidable c] : Calls Unit := if c then pure () else throw .here

/-- `Test`. -/
def testCall (which : Int) : Calls Bool := do
  let b ← get
  assert (0 ≤ which ∧ which < b.numBits)
  pure (b.test which.toNat)

/-- `Mark`. -/
def markCall (which : Int) : Calls Unit := do
  let b ← get
  assert (0 ≤ which ∧ which < b.numBits)
  set (b.mark which.toNat)
  let isSet ← testCall which
  assert (isSet = true)

/-- `Clear`. -/
def clearCall (which : Int) : Calls Unit := do
  let b ← get
  assert (0 ≤ which ∧ which < b.numBits)
  set (b.clear which.toNat)
  let isSet ← testCall which
  assert (isSet = false)

/-- The loop of `FindAndSet` from index `i`, with `k` indices to go. -/
def findAndSetLoop : Nat → Nat → Calls Int
  | _, 0 => pure (-1)
  | i, k + 1 => do
      let isSet ← testCall i
      if !isSet then do
        markCall i
        pure (i : Int)
      else
        findAndSetLoop (i + 1) k

/-- `FindAndSet`. -/
def findAndSetCall : Calls Int := do
  let b ← get
  findAndSetLoop 0 b.numBits

/-- The loop of `NumClear` from index `i`, with `k` indices to go. -/
def numClearLoop : Nat → Nat → Int → Calls Int
  | _, 0, count => pure count
  | i, k + 1, count => do
      let isSet ← testCall i
      numClearLoop (i + 1) k (if !isSet then count + 1 else count)

/-- `NumClear`. -/
def numClearCall : Calls Int := do
  let b ← get
  numClearLoop 0 b.numBits 0

/-- The loop of `Clear`s in the constructor. -/
def clearLoop : Nat → Nat → Calls Unit
  | _, 0 => pure ()
  | i, k + 1 => do
      clearCall i
      clearLoop (i + 1) k

/-- `Bitmap(numItems)`; `none` when one of its assertions fails. -/
def construct (numItems : Int) : Option Bitmap :=
  if h : 0 < numItems.toNat then
    match clearLoop 0 numItems.toNat (zeroed numItems.toNat h) with
    | .ok _ b => some b
    | .error _ _ => none
  else none

/-- What can be asked of a bitmap. -/
inductive Call where
  | mark (which : Int)
  | clear (which : Int)
  | test (which : Int)
  | findAndSet
  | numClear
  deriving DecidableEq, Repr

/-- What it answers. -/
inductive Answer where
  | done
  | bool (b : Bool)
  | int (i : Int)
  deriving DecidableEq, Repr

/-- A call, and its answer. -/
def call : Call → Calls Answer
  | .mark which => do markCall which; pure .done
  | .clear which => do clearCall which; pure .done
  | .test which => do let b ← testCall which; pure (.bool b)
  | .findAndSet => do let i ← findAndSetCall; pure (.int i)
  | .numClear => do let n ← numClearCall; pure (.int n)

/-- The index of a call is one of `n` bits. -/
def Call.InRange (n : Nat) : Call → Prop
  | .mark which => 0 ≤ which ∧ which < n
  | .clear which => 0 ≤ which ∧ which < n
  | .test which => 0 ≤ which ∧ which < n
  | .findAndSet => True
  | .numClear => True

/-! ## No assertion fails on an index in range -/

theorem assert_bind {α : Type} {c : Prop} [Decidable c] (h : c) (k : Unit → Calls α)
    (b : Bitmap) : (assert c >>= k) b = k () b := Base.guard_bind h _ k b

theorem testCall_eq {b : Bitmap} {i : Nat} (h : i < b.numBits) :
    testCall i b = .ok (b.test i) b := by
  unfold testCall
  rw [Base.get_bind, assert_bind (by omega), Int.toNat_natCast]
  rfl

theorem markCall_eq {b : Bitmap} {i : Nat} (h : i < b.numBits) :
    markCall i b = .ok () (b.mark i) := by
  have ht : (b.mark i).test i = true := by rw [test_mark h]; simp
  unfold markCall
  rw [Base.get_bind, assert_bind (by omega), Base.set_bind, Int.toNat_natCast,
    Base.bind_eq_of_ok (testCall_eq (b := b.mark i) h), ht]
  rfl

theorem clearCall_eq {b : Bitmap} {i : Nat} (h : i < b.numBits) :
    clearCall i b = .ok () (b.clear i) := by
  have ht : (b.clear i).test i = false := by rw [test_clear h]; simp
  unfold clearCall
  rw [Base.get_bind, assert_bind (by omega), Base.set_bind, Int.toNat_natCast,
    Base.bind_eq_of_ok (testCall_eq (b := b.clear i) h), ht]
  rfl

theorem findAndSetLoop_eq (b : Bitmap) : ∀ (k i : Nat), i + k ≤ b.numBits →
    findAndSetLoop i k b = .ok (b.findAndSetFrom i k).1 (b.findAndSetFrom i k).2 := by
  intro k
  induction k with
  | zero => intro i _; rfl
  | succ k ih =>
      intro i hk
      have hi : i < b.numBits := by omega
      rw [findAndSetLoop, Base.bind_eq_of_ok (testCall_eq hi), findAndSetFrom]
      split
      · rw [Base.bind_eq_of_ok (markCall_eq hi)]
        rfl
      · exact ih (i + 1) (by omega)

theorem findAndSetCall_eq (b : Bitmap) :
    findAndSetCall b = .ok b.findAndSet.1 b.findAndSet.2 := by
  unfold findAndSetCall
  rw [Base.get_bind]
  exact findAndSetLoop_eq b b.numBits 0 (by omega)

theorem numClearLoop_eq (b : Bitmap) : ∀ (k i : Nat) (count : Int), i + k ≤ b.numBits →
    numClearLoop i k count b =
      .ok (count + ((List.range' i k).filter fun j => !b.test j).length) b := by
  intro k
  induction k with
  | zero =>
      intro i count _
      rw [List.range'_zero, List.filter_nil, List.length_nil, Int.natCast_zero, Int.add_zero]
      rfl
  | succ k ih =>
      intro i count hk
      have hi : i < b.numBits := by omega
      rw [numClearLoop, Base.bind_eq_of_ok (testCall_eq hi), ih (i + 1) _ (by omega),
        List.range'_succ, List.filter_cons]
      split
      · rw [List.length_cons]
        congr 1
        omega
      · rfl

theorem numClearCall_eq (b : Bitmap) : numClearCall b = .ok (b.clearBits.length : Int) b := by
  unfold numClearCall
  rw [Base.get_bind, numClearLoop_eq b _ _ _ (by omega), Int.zero_add, clearBits,
    List.range_eq_range']

theorem clearLoop_eq : ∀ (k i : Nat) (b : Bitmap), i + k ≤ b.numBits →
    clearLoop i k b = .ok () ((List.range' i k).foldl clear b) := by
  intro k
  induction k with
  | zero => intro i b _; rfl
  | succ k ih =>
      intro i b hk
      rw [clearLoop, Base.bind_eq_of_ok (clearCall_eq (by omega)),
        ih (i + 1) (b.clear i) (show i + 1 + k ≤ b.numBits by omega), List.range'_succ,
        List.foldl_cons]

theorem construct_eq {n : Nat} (h : 0 < n) : construct n = some (new n h) := by
  unfold construct
  simp only [Int.toNat_natCast]
  rw [dif_pos h, clearLoop_eq n 0 (zeroed n h) (by simp [zeroed]), new, List.range_eq_range']

end Bitmap

end Nachos
