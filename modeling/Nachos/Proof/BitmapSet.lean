import Mathlib.Data.Finset.Card
import Mathlib.Data.Finset.Range
import Mathlib.Order.Bounds.Basic
import Nachos.Lib.BitmapCalls

/-!
# The bitmap is a set

The words of a bitmap hold a set of indices below `numBits`: bit `i % 32` of word `i / 32` is set
when `i` is in it, and no other bit is, not even in the unused part of the last word. Every call
with an index in range does to the set what its name says, and no assertion fails.

`FindAndSet` hands out the least index that is not in the set. How many it has still to hand out is
`NumClear`, and that is a fact about the set alone.
-/

namespace Nachos.Bitmap

open Base (History Allowed runCalls bind_eq_of_ok)

/-! ## The set -/

/-- What a call does to a set of indices below `n`, and what it answers. -/
inductive SetStep (n : Nat) : Finset Nat → Call → Answer → Finset Nat → Prop where
  | mark (S : Finset Nat) (i : Nat) : SetStep n S (.mark i) .done (insert i S)
  | clear (S : Finset Nat) (i : Nat) : SetStep n S (.clear i) .done (S.erase i)
  | test (S : Finset Nat) (i : Nat) : SetStep n S (.test i) (.bool (decide (i ∈ S))) S
  | found {S : Finset Nat} {i : Nat} :
      IsLeast {j | j < n ∧ j ∉ S} i → SetStep n S .findAndSet (.int i) (insert i S)
  | full {S : Finset Nat} : S = Finset.range n → SetStep n S .findAndSet (.int (-1)) S
  | numClear (S : Finset Nat) : SetStep n S .numClear (.int ((n : Int) - S.card)) S

/-- **Room for `k` more.** The next `k` calls of `FindAndSet` hand out `k` different indices, none
of which was in the set. -/
theorem history_findAndSet {n : Nat} : ∀ {k : Nat} {S S' : Finset Nat} {answers : List Answer},
    S ⊆ Finset.range n → S.card + k ≤ n →
    History (SetStep n) S (List.replicate k .findAndSet) answers S' →
    ∃ js : List Nat, answers = js.map (fun j : Nat => Answer.int j) ∧ js.Nodup ∧ js.length = k ∧
      ∀ j ∈ js, j < n ∧ j ∉ S := by
  intro k
  induction k with
  | zero =>
      intro S S' answers _ _ h
      cases h
      exact ⟨[], rfl, List.nodup_nil, rfl, fun j hj => absurd hj List.not_mem_nil⟩
  | succ k ih =>
      intro S S' answers hsub hroom h
      rw [List.replicate_succ] at h
      cases h with
      | cons hstep hrest =>
          cases hstep with
          | @found i hi =>
              obtain ⟨hin, hiS⟩ := hi.1
              have hsub' : insert i S ⊆ Finset.range n :=
                Finset.insert_subset (Finset.mem_range.mpr hin) hsub
              have hcard := Finset.card_insert_of_notMem hiS
              obtain ⟨js, rfl, hnd, hlen, hjs⟩ := ih hsub' (by omega) hrest
              refine ⟨i :: js, rfl, List.nodup_cons.mpr ⟨?_, hnd⟩,
                by rw [List.length_cons, hlen], ?_⟩
              · intro hij
                exact (hjs i hij).2 (Finset.mem_insert_self i S)
              · intro j hj
                rcases List.mem_cons.mp hj with rfl | hj
                · exact ⟨hin, hiS⟩
                · exact ⟨(hjs j hj).1, fun hjS => (hjs j hj).2 (Finset.mem_insert_of_mem hjS)⟩
          | full hS =>
              have hcard : S.card = n := by rw [hS, Finset.card_range]
              omega

/-! ## The words hold the set -/

/-- **The packed words represent the set.** -/
structure Represents (n : Nat) (b : Bitmap) (S : Finset Nat) : Prop where
  size : b.numBits = n
  sub : S ⊆ Finset.range n
  bits : ∀ i, (b.map.getD (i / bitsInWord) 0#32).getLsbD (i % bitsInWord) = decide (i ∈ S)

variable {n : Nat} {b : Bitmap} {S : Finset Nat}

theorem Represents.test (h : Represents n b S) (i : Nat) : b.test i = decide (i ∈ S) := by
  rw [test_eq]
  exact h.bits i

theorem Represents.of_test (hsize : b.numBits = n) (hsub : S ⊆ Finset.range n)
    (htest : ∀ i, b.test i = decide (i ∈ S)) : Represents n b S :=
  ⟨hsize, hsub, fun i => test_eq b i ▸ htest i⟩

theorem represents_new (hn : 0 < n) : Represents n (new n hn) ∅ :=
  .of_test (numBits_new n hn) (Finset.empty_subset _) fun i => by rw [test_new]; simp

theorem Represents.mark (h : Represents n b S) {i : Nat} (hi : i < n) :
    Represents n (b.mark i) (insert i S) := by
  refine .of_test h.size (Finset.insert_subset (Finset.mem_range.mpr hi) h.sub) fun j => ?_
  rw [test_mark (h.size ▸ hi), h.test j, ← Bool.decide_or]
  exact decide_eq_decide.mpr Finset.mem_insert.symm

theorem Represents.clear (h : Represents n b S) {i : Nat} (hi : i < n) :
    Represents n (b.clear i) (S.erase i) := by
  refine .of_test h.size ((Finset.erase_subset i S).trans h.sub) fun j => ?_
  rw [test_clear (h.size ▸ hi), h.test j, ← decide_not, ← Bool.decide_and]
  exact decide_eq_decide.mpr Finset.mem_erase.symm

theorem Represents.mem_clearBits (h : Represents n b S) {i : Nat} :
    i ∈ b.clearBits ↔ i < n ∧ i ∉ S := by
  rw [Bitmap.mem_clearBits, h.size, h.test i, decide_eq_false_iff_not]

/-- What is to be handed out is what is not in the set. -/
theorem Represents.toFinset_clearBits (h : Represents n b S) :
    b.clearBits.toFinset = Finset.range n \ S := by
  ext i
  rw [List.mem_toFinset, h.mem_clearBits, Finset.mem_sdiff, Finset.mem_range]

theorem Represents.length_clearBits (h : Represents n b S) :
    (b.clearBits.length : Int) = (n : Int) - S.card := by
  have hle := Finset.card_le_card h.sub
  have hcard := List.toFinset_card_of_nodup b.clearBits_nodup
  rw [h.toFinset_clearBits, Finset.card_sdiff_of_subset h.sub] at hcard
  rw [Finset.card_range] at hle hcard
  omega

/-- **`FindAndSet`** takes the least index that is not in the set, or finds the set full. -/
theorem Represents.findAndSet (h : Represents n b S) :
    ∃ S', SetStep n S .findAndSet (.int b.findAndSet.1) S' ∧ Represents n b.findAndSet.2 S' := by
  rw [findAndSet_eq]
  cases hc : b.clearBits with
  | nil =>
      have hfull : Finset.range n \ S = ∅ := by rw [← h.toFinset_clearBits, hc]; rfl
      have hS : S = Finset.range n :=
        Finset.Subset.antisymm h.sub (Finset.sdiff_eq_empty_iff_subset.mp hfull)
      exact ⟨S, .full hS, h⟩
  | cons j js =>
      have hj := h.mem_clearBits.mp (hc ▸ List.mem_cons_self)
      have hleast : IsLeast {i | i < n ∧ i ∉ S} j := by
        refine ⟨hj, fun i hi => ?_⟩
        have hmem := h.mem_clearBits.mpr hi
        rw [hc] at hmem
        rcases List.mem_cons.mp hmem with rfl | hmem
        · exact Nat.le_refl _
        · exact Nat.le_of_lt ((List.pairwise_cons.mp (hc ▸ b.clearBits_sorted)).1 i hmem)
      exact ⟨insert j S, .found hleast, h.mark hj.1⟩

/-- **One call.** -/
theorem Represents.call (h : Represents n b S) {c : Call} (hc : c.InRange n) :
    ∃ r b' S', Bitmap.call c b = .ok r b' ∧ SetStep n S c r S' ∧ Represents n b' S' := by
  have hsize := h.size
  cases c with
  | mark which =>
      obtain ⟨i, rfl⟩ := Int.eq_ofNat_of_zero_le hc.1
      have hi : i < n := Int.ofNat_lt.mp hc.2
      exact ⟨_, _, _, bind_eq_of_ok (markCall_eq (by omega)), .mark S i, h.mark hi⟩
  | clear which =>
      obtain ⟨i, rfl⟩ := Int.eq_ofNat_of_zero_le hc.1
      have hi : i < n := Int.ofNat_lt.mp hc.2
      exact ⟨_, _, _, bind_eq_of_ok (clearCall_eq (by omega)), .clear S i, h.clear hi⟩
  | test which =>
      obtain ⟨i, rfl⟩ := Int.eq_ofNat_of_zero_le hc.1
      have hi : i < n := Int.ofNat_lt.mp hc.2
      refine ⟨_, b, S, bind_eq_of_ok (testCall_eq (by omega)), ?_, h⟩
      rw [h.test i]
      exact .test S i
  | findAndSet =>
      obtain ⟨S', hstep, hrep⟩ := h.findAndSet
      exact ⟨_, _, S', bind_eq_of_ok (findAndSetCall_eq b), hstep, hrep⟩
  | numClear =>
      refine ⟨_, b, S, bind_eq_of_ok (numClearCall_eq b), ?_, h⟩
      rw [h.length_clearBits]
      exact .numClear S

/-- A history of calls in range. -/
theorem Represents.runCalls (h : Represents n b S) (calls : List Call)
    (hcalls : ∀ c ∈ calls, c.InRange n) :
    ∃ answers b' S', Base.runCalls Bitmap.call calls b = .ok answers b' ∧
      History (SetStep n) S calls answers S' ∧ Represents n b' S' :=
  Base.runCalls_refines (fun _ _ _ hR hc => hR.call hc) calls h (Allowed.of_forall calls S hcalls)

/-- **Room for `k` more, of the bitmap.** -/
theorem Represents.room (h : Represents n b S) {k : Nat} {free : Int}
    (hfree : numClearCall b = .ok free b) (hk : (k : Int) ≤ free) :
    ∃ (js : List Nat) (b' : Bitmap),
      Base.runCalls Bitmap.call (List.replicate k .findAndSet) b
        = .ok (js.map fun j : Nat => Answer.int j) b' ∧
      js.Nodup ∧ js.length = k ∧ ∀ j ∈ js, j < n ∧ j ∉ S := by
  have heq : (b.clearBits.length : Int) = free := by
    rw [numClearCall_eq] at hfree
    injection hfree
  have hlen := h.length_clearBits
  obtain ⟨answers, b', S', hrun, hhist, _⟩ := h.runCalls (List.replicate k .findAndSet)
    fun c hc => by rw [List.eq_of_mem_replicate hc]; trivial
  obtain ⟨js, rfl, hnd, hjlen, hjs⟩ := history_findAndSet h.sub (by omega) hhist
  exact ⟨js, b', hrun, hnd, hjlen, hjs⟩

/-- **The bitmap is a set, through every history of calls in range.** -/
theorem bitmap_refines_set {n : Nat} (hn : 0 < n) (calls : List Call)
    (hcalls : ∀ c ∈ calls, c.InRange n) :
    ∃ b₀ answers b S, construct n = some b₀ ∧ Represents n b₀ ∅ ∧
      Base.runCalls Bitmap.call calls b₀ = .ok answers b ∧
      History (SetStep n) ∅ calls answers S ∧ Represents n b S ∧
      ∀ (k : Nat) (free : Int), numClearCall b = .ok free b → (k : Int) ≤ free →
        ∃ (js : List Nat) (b' : Bitmap),
          Base.runCalls Bitmap.call (List.replicate k .findAndSet) b
            = .ok (js.map fun j : Nat => Answer.int j) b' ∧
          js.Nodup ∧ js.length = k ∧ ∀ j ∈ js, j < n ∧ j ∉ S := by
  have hnew := represents_new hn
  obtain ⟨answers, b, S, hrun, hhist, hrep⟩ := hnew.runCalls calls hcalls
  exact ⟨new n hn, answers, b, S, construct_eq hn, hnew, hrun, hhist, hrep,
    fun _ _ hfree hk => hrep.room hfree hk⟩

/-- Forty bits in two words: the sign bit of the first and the second word are in range. -/
theorem bitmap_refines_set_forty :
    0 < 40 ∧ ∃ b₀ answers b S, construct (40 : Nat) = some b₀ ∧ Represents 40 b₀ ∅ ∧
      Base.runCalls Bitmap.call [.mark 31, .mark 39, .findAndSet, .clear 31, .test 31] b₀
        = .ok answers b ∧
      History (SetStep 40) ∅ [.mark 31, .mark 39, .findAndSet, .clear 31, .test 31] answers S ∧
      Represents 40 b S ∧
      ∀ (k : Nat) (free : Int), numClearCall b = .ok free b → (k : Int) ≤ free →
        ∃ (js : List Nat) (b' : Bitmap),
          Base.runCalls Bitmap.call (List.replicate k .findAndSet) b
            = .ok (js.map fun j : Nat => Answer.int j) b' ∧
          js.Nodup ∧ js.length = k ∧ ∀ j ∈ js, j < 40 ∧ j ∉ S :=
  ⟨by decide, bitmap_refines_set (by decide) [.mark 31, .mark 39, .findAndSet, .clear 31, .test 31]
    (by simp [Call.InRange])⟩

end Nachos.Bitmap
