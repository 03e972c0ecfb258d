import Nachos.Machine.MipsSim

/-!
# Multiplication

The loop of `Mult` adds up shifted copies of `b`, one for every bit of `a`. Five words take part:
the two of the sum, the two of the copy and what is left of `a`. With `n` turns to go they are
related by one equation: the sum at the end is the sum so far and the copy times the low `n` bits of
what is left, modulo `2^64`.

The right shift of `a` is arithmetic even when `a` stands for an unsigned number. It fills in bits
from above, and none of them gets down to the lowest place in 32 turns.
-/

namespace Nachos.Multiplication

open Base (bind_eq_of_ok upd_ne)

/-! ## Double words -/

/-- The number in a high and a low word. -/
def dword (hi lo : BitVec 32) : Nat := hi.toNat * 4294967296 + lo.toNat

theorem dword_lt (hi lo : BitVec 32) : dword hi lo < 18446744073709551616 := by
  have hhi := hi.isLt
  have hlo := lo.isLt
  unfold dword
  omega

theorem toNat_append_words (hi lo : BitVec 32) : (hi ++ lo).toNat = dword hi lo := by
  unfold dword
  rw [BitVec.toNat_append, Nat.shiftLeft_eq, Nat.mul_comm, ← Nat.two_pow_add_eq_or_of_lt lo.isLt]

/-- The carry out of the low words. -/
theorem dword_add (hi lo bHi bLo : BitVec 32) :
    dword ((if lo + bLo < bLo then hi + 1#32 else hi) + bHi) (lo + bLo)
      = (dword hi lo + dword bHi bLo) % 18446744073709551616 := by
  have hhi := hi.isLt
  have hlo := lo.isLt
  have hbHi := bHi.isLt
  have hbLo := bLo.isLt
  have hsum : (lo + bLo).toNat = (lo.toNat + bLo.toNat) % 4294967296 := BitVec.toNat_add lo bLo
  unfold dword
  by_cases hcarry : lo + bLo < bLo
  · have hc := BitVec.lt_def.mp hcarry
    rw [if_pos hcarry, BitVec.toNat_add, BitVec.toNat_add, hsum]
    simp only [BitVec.toNat_ofNat]
    omega
  · have hc : ¬ (lo + bLo).toNat < bLo.toNat := fun h => hcarry (BitVec.lt_def.mpr h)
    rw [if_neg hcarry, BitVec.toNat_add, hsum]
    omega

theorem or_one_of_even {x : BitVec 32} (h : x.toNat % 2 = 0) :
    (x ||| 1#32).toNat = x.toNat + 1 := by
  have hx := x.isLt
  have hand : x &&& 1#32 = 0#32 := by
    apply BitVec.eq_of_toNat_eq
    rw [BitVec.toNat_and]
    simpa [Nat.and_one_is_mod] using h
  rw [← BitVec.add_eq_or_of_and_eq_zero x 1#32 hand, BitVec.toNat_add]
  simp only [BitVec.toNat_ofNat]
  omega

theorem toNat_shiftLeft_one (x : BitVec 32) : (x <<< 1).toNat = x.toNat * 2 % 4294967296 := by
  rw [BitVec.toNat_shiftLeft, Nat.shiftLeft_eq]

theorem and_signBit (x : BitVec 32) : x &&& 0x80000000#32 ≠ 0#32 ↔ 2147483648 ≤ x.toNat := by
  have htwo : (0x80000000#32 : BitVec 32) = BitVec.twoPow 32 31 := by decide
  rw [htwo, BitVec.and_twoPow, show x.getLsbD 31 = x.msb from rfl, BitVec.msb_eq_decide]
  by_cases h : 2147483648 ≤ x.toNat
  · simp [h]
  · simp [h]

/-- The copy moves to the left, and the top of the low word into the high one. -/
theorem dword_shift (bHi bLo : BitVec 32) :
    dword ((bHi <<< 1) ||| (if bLo &&& 0x80000000#32 ≠ 0#32 then 1#32 else 0#32)) (bLo <<< 1)
      = 2 * dword bHi bLo % 18446744073709551616 := by
  have hbHi := bHi.isLt
  have hbLo := bLo.isLt
  have heven : (bHi <<< 1).toNat % 2 = 0 := by
    rw [toNat_shiftLeft_one]
    omega
  unfold dword
  by_cases htop : bLo &&& 0x80000000#32 ≠ 0#32
  · have := (and_signBit bLo).mp htop
    rw [if_pos htop, or_one_of_even heven, toNat_shiftLeft_one, toNat_shiftLeft_one]
    omega
  · have : ¬ 2147483648 ≤ bLo.toNat := fun h => htop ((and_signBit bLo).mpr h)
    rw [if_neg htop, BitVec.or_zero, toNat_shiftLeft_one, toNat_shiftLeft_one]
    omega

/-! ## The loop -/

theorem and_one (a : BitVec 32) : a &&& 1#32 ≠ 0#32 ↔ a.toNat % 2 = 1 := by
  have hto : (a &&& 1#32).toNat = a.toNat % 2 := by
    rw [BitVec.toNat_and]
    exact Nat.and_one_is_mod _
  constructor
  · intro h
    by_contra hne
    exact h (BitVec.eq_of_toNat_eq (by rw [hto]; simp; omega))
  · intro h h0
    rw [h0] at hto
    simp at hto
    omega

/-- Nothing but the lowest bit. -/
theorem eq_one_of_odd {a : BitVec 32} (hodd : a.toNat % 2 = 1)
    (hrest : a &&& 0xfffffffe#32 = 0#32) : a.toNat = 1 := by
  have hsplit : a = (a &&& 0xfffffffe#32) ||| (a &&& 1#32) := by
    rw [← BitVec.and_or_distrib_left,
      show (0xfffffffe#32 ||| 1#32 : BitVec 32) = BitVec.allOnes 32 by decide, BitVec.and_allOnes]
  rw [hrest, BitVec.zero_or] at hsplit
  have hto : (a &&& 1#32).toNat = a.toNat % 2 := by
    rw [BitVec.toNat_and]
    exact Nat.and_one_is_mod _
  rw [← hsplit] at hto
  omega

/-- The low bits of `a >> 1`, below those that the sign fills in. -/
theorem sshiftRight_low (a : BitVec 32) {n : Nat} (hn : n ≤ 31) :
    (a.sshiftRight 1).toNat % 2 ^ n = a.toNat / 2 % 2 ^ n := by
  apply Nat.eq_of_testBit_eq
  intro i
  rw [Nat.testBit_mod_two_pow, Nat.testBit_mod_two_pow, Nat.testBit_div_two]
  by_cases hi : i < n
  · have hbit := BitVec.getLsbD_sshiftRight a 1 i
    have hle : ¬ 32 ≤ i := by omega
    have hlt : i + 1 < 32 := by omega
    simp only [hle, decide_false, Bool.not_false, Bool.true_and, Nat.add_comm 1 i, hlt,
      if_true] at hbit
    rw [show (a.sshiftRight 1).toNat.testBit i = (a.sshiftRight 1).getLsbD i from rfl, hbit]
    rfl
  · simp [hi]

/-- One turn, in numbers. -/
theorem step_arith {x d A n : Nat} :
    (x + A % 2 * d + A / 2 % 2 ^ n * (2 * d)) = x + A % 2 ^ (n + 1) * d := by
  have hA : A % 2 ^ (n + 1) = A % 2 + 2 * (A / 2 % 2 ^ n) := by
    rw [Nat.pow_succ, Nat.mul_comm, Nat.mod_mul]
  rw [hA, Nat.add_mul]
  have : 2 * (A / 2 % 2 ^ n) * d = A / 2 % 2 ^ n * (2 * d) := by
    rw [Nat.mul_comm 2, Nat.mul_assoc]
  omega

/-- **The loop invariant**, with `n` turns to go. -/
theorem multLoop_eq : ∀ (n : Nat) (a bHi bLo hi lo : BitVec 32), n ≤ 32 →
    dword (multLoop n a bHi bLo hi lo).1 (multLoop n a bHi bLo hi lo).2
      = (dword hi lo + a.toNat % 2 ^ n * dword bHi bLo) % 18446744073709551616 := by
  intro n
  induction n with
  | zero =>
      intro a bHi bLo hi lo _
      rw [Nat.pow_zero, Nat.mod_one, Nat.zero_mul, Nat.add_zero, Nat.mod_eq_of_lt (dword_lt hi lo)]
      rfl
  | succ n ih =>
      intro a bHi bLo hi lo hn
      have hshift := sshiftRight_low a (n := n) (by omega)
      rw [multLoop]
      by_cases hodd : a &&& 1#32 ≠ 0#32
      · have hbit := (and_one a).mp hodd
        have hsum := dword_add hi lo bHi bLo
        rw [if_pos hodd, if_pos hodd]
        by_cases hrest : a &&& 0xfffffffe#32 = 0#32
        · have hone := eq_one_of_odd hbit hrest
          rw [if_pos ⟨hodd, hrest⟩, hone, Nat.mod_eq_of_lt (Nat.one_lt_two_pow (by omega)),
            Nat.one_mul]
          exact hsum
        · rw [if_neg fun h => hrest h.2, ih _ _ _ _ _ (by omega), hshift, dword_shift, hsum,
            ← step_arith (n := n), hbit, Nat.one_mul, Nat.mod_add_mod, Nat.add_mod,
            Nat.mul_mod_mod, ← Nat.add_mod]
      · have hne : ¬ a.toNat % 2 = 1 := mt (and_one a).mpr hodd
        have hbit : a.toNat % 2 = 0 := by omega
        rw [if_neg hodd, if_neg hodd, if_neg fun h => hodd h.1, ih _ _ _ _ _ (by omega), hshift,
          dword_shift, ← step_arith (n := n), hbit, Nat.zero_mul, Nat.add_zero, Nat.add_mod,
          Nat.mul_mod_mod, ← Nat.add_mod]

/-- The whole loop multiplies without signs. -/
theorem multLoop_full (a b : BitVec 32) :
    dword (multLoop 32 a 0#32 b 0#32 0#32).1 (multLoop 32 a 0#32 b 0#32 0#32).2
      = a.toNat * b.toNat := by
  have ha := a.isLt
  have hb := b.isLt
  have hlt : a.toNat * b.toNat < 4294967296 * 4294967296 := Nat.mul_lt_mul'' ha hb
  have hzero : dword 0#32 0#32 = 0 := by decide
  have hcopy : dword 0#32 b = b.toNat := by
    unfold dword
    simp
  rw [multLoop_eq 32 a 0#32 b 0#32 0#32 (Nat.le_refl _), hzero, hcopy, Nat.zero_add,
    Nat.mod_eq_of_lt ha, Nat.mod_eq_of_lt hlt]

/-! ## Signs -/

/-- The absolute value of an `int`, which for the most negative one wraps to itself. -/
theorem toInt_of_slt {a : BitVec 32} (h : a.slt 0#32 = true) : a.toInt = -((-a).toNat : Int) := by
  have hneg : a.toInt < 0 := by simpa [BitVec.slt_iff_toInt_lt] using h
  have ha := a.isLt
  rw [BitVec.toInt_eq_toNat_cond] at hneg ⊢
  rw [BitVec.toNat_neg]
  split at hneg
  · omega
  · rw [if_neg (by omega)]
    omega

theorem toInt_of_not_slt {a : BitVec 32} (h : a.slt 0#32 = false) : a.toInt = (a.toNat : Int) := by
  have hnot : ¬ a.toInt < 0 := by
    intro hlt
    have := BitVec.slt_iff_toInt_lt (x := a) (y := 0#32)
    simp [h] at this
    omega
  have ha := a.isLt
  rw [BitVec.toInt_eq_toNat_cond] at hnot ⊢
  split at hnot
  · rw [if_pos ‹_›]
  · omega

theorem toNat_neg_le {a : BitVec 32} (h : a.slt 0#32 = true) : (-a).toNat ≤ 2147483648 := by
  have hle := BitVec.le_two_mul_toInt (x := a)
  have ha := toInt_of_slt h
  omega

theorem toNat_le {a : BitVec 32} (h : a.slt 0#32 = false) : a.toNat ≤ 2147483648 := by
  have hlt := BitVec.two_mul_toInt_lt (x := a)
  have ha := toInt_of_not_slt h
  omega

/-- The complement of the two words and one more, with the carry. -/
theorem dword_negate (hi lo : BitVec 32) :
    dword (if ~~~lo + 1#32 = 0#32 then ~~~hi + 1#32 else ~~~hi) (~~~lo + 1#32)
      = (18446744073709551616 - dword hi lo) % 18446744073709551616 := by
  have hhi := hi.isLt
  have hlo := lo.isLt
  have hnot : (~~~hi).toNat = 4294967295 - hi.toNat := BitVec.toNat_not
  have hsum : (~~~lo + 1#32).toNat = (4294967295 - lo.toNat + 1) % 4294967296 := by
    rw [BitVec.toNat_add, BitVec.toNat_not]
    rfl
  unfold dword
  by_cases hzero : ~~~lo + 1#32 = 0#32
  · have h0 : (~~~lo + 1#32).toNat = 0 := by rw [hzero]; rfl
    rw [if_pos hzero, BitVec.toNat_add, hnot, h0]
    simp only [BitVec.toNat_ofNat]
    omega
  · have h0 : (~~~lo + 1#32).toNat ≠ 0 := fun h => hzero (BitVec.eq_of_toNat_eq h)
    rw [if_neg hzero, hnot, hsum]
    omega

/-- What the words are as a number with a sign. -/
theorem toInt_append_words (hi lo : BitVec 32) : (hi ++ lo).toInt
    = if 2 * dword hi lo < 18446744073709551616 then (dword hi lo : Int)
      else (dword hi lo : Int) - 18446744073709551616 := by
  rw [BitVec.toInt_eq_toNat_cond, toNat_append_words]
  rfl

/-! ## The product -/

/-- The words of a product that is to be positive. -/
theorem toInt_product {hi lo x y : BitVec 32} (h : dword hi lo = x.toNat * y.toNat)
    (hx : x.toNat ≤ 2147483648) (hy : y.toNat ≤ 2147483648) :
    (hi ++ lo).toInt = (x.toNat : Int) * (y.toNat : Int) := by
  have hle : x.toNat * y.toNat ≤ 2147483648 * 2147483648 := Nat.mul_le_mul hx hy
  rw [toInt_append_words, h, if_pos (by omega), Int.natCast_mul]

/-- The words of a product that is to be negative, complemented. -/
theorem toInt_negated {hi lo x y : BitVec 32} (h : dword hi lo = x.toNat * y.toNat)
    (hx : x.toNat ≤ 2147483648) (hy : y.toNat ≤ 2147483648) :
    ((if ~~~lo + 1#32 = 0#32 then ~~~hi + 1#32 else ~~~hi) ++ (~~~lo + 1#32)).toInt
      = -((x.toNat : Int) * (y.toNat : Int)) := by
  have hle : x.toNat * y.toNat ≤ 2147483648 * 2147483648 := Nat.mul_le_mul hx hy
  rw [toInt_append_words, dword_negate, h, ← Int.natCast_mul]
  split <;> omega

/-- **Without signs.** -/
theorem mult_unsigned (a b : BitVec 32) :
    ((mult a b false).1 ++ (mult a b false).2).toNat = a.toNat * b.toNat := by
  rw [toNat_append_words]
  unfold mult
  by_cases hzero : a = 0#32 ∨ b = 0#32
  · rw [if_pos hzero]
    rcases hzero with rfl | rfl
    · simp [dword]
    · simp [dword]
  · rw [if_neg hzero]
    exact multLoop_full a b

/-- **With signs**, the most negative number among them. -/
theorem mult_signed (a b : BitVec 32) :
    ((mult a b true).1 ++ (mult a b true).2).toInt = a.toInt * b.toInt := by
  unfold mult
  by_cases hzero : a = 0#32 ∨ b = 0#32
  · rw [if_pos hzero]
    rcases hzero with rfl | rfl
    · simp
    · simp
  · rw [if_neg hzero]
    cases ha : a.slt 0#32 with
    | false =>
        cases hb : b.slt 0#32 with
        | false =>
            rw [toInt_of_not_slt ha, toInt_of_not_slt hb]
            exact toInt_product (multLoop_full a b) (toNat_le ha) (toNat_le hb)
        | true =>
            rw [toInt_of_not_slt ha, toInt_of_slt hb, Int.mul_neg]
            exact toInt_negated (multLoop_full a (-b)) (toNat_le ha) (toNat_neg_le hb)
    | true =>
        cases hb : b.slt 0#32 with
        | false =>
            rw [toInt_of_slt ha, toInt_of_not_slt hb, Int.neg_mul]
            exact toInt_negated (multLoop_full (-a) b) (toNat_neg_le ha) (toNat_le hb)
        | true =>
            rw [toInt_of_slt ha, toInt_of_slt hb, Int.neg_mul_neg]
            exact toInt_product (multLoop_full (-a) (-b)) (toNat_neg_le ha) (toNat_neg_le hb)

/-- `OP_MULT` and `OP_MULTU`: the two words go to their registers. -/
theorem multiply_eq (i : Instruction) (pcAfter : BitVec 32) (signedArith : Bool) (m : Machine) :
    ∃ m', i.multiply pcAfter signedArith m = .ok (.at pcAfter) m' ∧
      m'.registers hiReg = (mult (m.registers i.rs) (m.registers i.rt) signedArith).1 ∧
      m'.registers loReg = (mult (m.registers i.rs) (m.registers i.rt) signedArith).2 := by
  have hreg : ∀ r : Fin numGPRegs, Mips.reg r m = .ok (m.registers r) m := fun r =>
    if_pos (Nat.lt_trans r.isLt (by decide))
  have hrun : i.multiply pcAfter signedArith m = .ok (.at pcAfter)
      ((m.writeRegister loReg (mult (m.registers i.rs) (m.registers i.rt)
      signedArith).2).writeRegister
        hiReg (mult (m.registers i.rs) (m.registers i.rt) signedArith).1) := by
    unfold Instruction.multiply
    rw [bind_eq_of_ok (hreg i.rs), bind_eq_of_ok (hreg i.rt)]
    rfl
  have hne : loReg ≠ hiReg := by decide
  refine ⟨_, hrun, ?_, ?_⟩
  · simp [Machine.writeRegister]
  · simp [Machine.writeRegister, upd_ne _ _ hne]

/-- **The double word is the product**, and the two instructions leave it in `HiReg` and `LoReg`. -/
theorem mult_exact :
    (∀ a b : BitVec 32,
      ((mult a b true).1 ++ (mult a b true).2).toInt = a.toInt * b.toInt ∧
      ((mult a b false).1 ++ (mult a b false).2).toNat = a.toNat * b.toNat) ∧
    ∀ (i : Instruction) (pcAfter : BitVec 32) (m : Machine), ∃ m₁ m₂,
      i.multiply pcAfter true m = .ok (.at pcAfter) m₁ ∧
      (m₁.registers hiReg ++ m₁.registers loReg).toInt
        = (m.registers i.rs).toInt * (m.registers i.rt).toInt ∧
      i.multiply pcAfter false m = .ok (.at pcAfter) m₂ ∧
      (m₂.registers hiReg ++ m₂.registers loReg).toNat
        = (m.registers i.rs).toNat * (m.registers i.rt).toNat := by
  refine ⟨fun a b => ⟨mult_signed a b, mult_unsigned a b⟩, ?_⟩
  intro i pcAfter m
  obtain ⟨m₁, hrun₁, hhi₁, hlo₁⟩ := multiply_eq i pcAfter true m
  obtain ⟨m₂, hrun₂, hhi₂, hlo₂⟩ := multiply_eq i pcAfter false m
  refine ⟨m₁, m₂, hrun₁, ?_, hrun₂, ?_⟩
  · rw [hhi₁, hlo₁]
    exact mult_signed _ _
  · rw [hhi₂, hlo₂]
    exact mult_unsigned _ _

/-- The most negative number is its own absolute value and the square of it is right. -/
example : mult 0x80000000#32 0x80000000#32 true = (0x40000000#32, 0#32) := by decide

end Nachos.Multiplication
