import Nachos.Machine.Mips1
import Nachos.Proof.DelayedLoads

/-!
# The interpreter and the architecture

`Decode` and the switch of `OneInstruction` against the definition of MIPS-I, for the instructions
that compute in registers. First the fields: the masks and shifts of `Decode` are the bits that
the architecture names, and its two tables give the same operations. Then the values, which the
code computes with `int`s and `unsigned int`s as it goes.

They agree but for one pair. `SRL` and `SRLV` shift a variable `tmp` that is an `int`, so
the sign comes in from the left as it does for `SRA`.
-/

namespace Nachos

open Base (upd bind_ok bind_eq_of_ok)

/-! ## Decoding -/

namespace Mips1

theorem registerField_eq (w : BitVec 32) (lo : Nat) :
    Instruction.registerField w lo = register w lo := by
  apply Fin.ext
  show ((w >>> lo) &&& 0x1f#32).toNat = (w.extractLsb' lo 5).toNat
  rw [BitVec.toNat_and, BitVec.toNat_ushiftRight, BitVec.extractLsb'_toNat]
  exact Nat.and_two_pow_sub_one_eq_mod _ 5

theorem op_eq (w : BitVec 32) : ((w >>> 26) &&& 0x3f#32).toNat = op w := by
  unfold op
  rw [BitVec.toNat_and, BitVec.toNat_ushiftRight, BitVec.extractLsb'_toNat]
  exact Nat.and_two_pow_sub_one_eq_mod _ 6

theorem funct_eq (w : BitVec 32) : (w &&& 0x3f#32).toNat = funct w := by
  unfold funct
  rw [BitVec.toNat_and, BitVec.extractLsb'_toNat]
  exact Nat.and_two_pow_sub_one_eq_mod _ 6

theorem shamt_eq (w : BitVec 32) : ((w >>> 6) &&& 0x1f#32).toNat = shamt w := by
  unfold shamt
  rw [BitVec.toNat_and, BitVec.toNat_ushiftRight, BitVec.extractLsb'_toNat]
  exact Nat.and_two_pow_sub_one_eq_mod _ 5

theorem low_eq (w : BitVec 32) : w &&& 0xffff#32 = (immediate w).setWidth 32 := by
  apply BitVec.eq_of_toNat_eq
  unfold immediate
  rw [BitVec.toNat_and, BitVec.toNat_setWidth, BitVec.extractLsb'_toNat]
  have h := Nat.and_two_pow_sub_one_eq_mod w.toNat 16
  simp at h ⊢
  omega

theorem low_sign (w : BitVec 32) :
    (w &&& 0xffff#32) &&& 0x8000#32 ≠ 0#32 ↔ (immediate w).msb = true := by
  rw [low_eq, show 0x8000#32 = BitVec.twoPow 32 15 from rfl, BitVec.and_twoPow,
    BitVec.getLsbD_setWidth, BitVec.msb_eq_getLsbD_last]
  cases (immediate w).getLsbD 15 <;> decide

theorem or_high {x : BitVec 16} (h : x.msb = true) :
    x.setWidth 32 ||| 0xffff0000#32 = x.signExtend 32 := by
  apply BitVec.eq_of_getLsbD_eq
  intro i hi
  rw [show 0xffff0000#32 = BitVec.allOnes 32 <<< 16 from rfl, BitVec.getLsbD_signExtend, h,
    BitVec.getLsbD_or, BitVec.getLsbD_setWidth, BitVec.getLsbD_shiftLeft, BitVec.getLsbD_allOnes]
  by_cases hlt : i < 16
  · simp [hi, hlt]
  · have hi' : i - 16 < 32 := by omega
    simp [hi, hlt, hi']

/-- The immediate operand of `Decode` is the sign-extended one. -/
theorem extra_immediate (w : BitVec 32) :
    (if (w &&& 0xffff#32) &&& 0x8000#32 ≠ 0#32 then (w &&& 0xffff#32) ||| 0xffff0000#32
      else w &&& 0xffff#32) = (immediate w).signExtend 32 := by
  by_cases h : (immediate w).msb = true
  · rw [if_pos ((low_sign w).mpr h), low_eq, or_high h]
  · rw [if_neg (mt (low_sign w).mp h), low_eq,
      BitVec.signExtend_eq_setWidth_of_msb_false (by simpa using h)]

/-- The switch takes the sign off again for the logical operations. -/
theorem signExtend_and_low (x : BitVec 16) : x.signExtend 32 &&& 0xffff#32 = x.setWidth 32 := by
  apply BitVec.eq_of_getLsbD_eq
  intro i hi
  rw [show 0xffff#32 = (BitVec.allOnes 16).setWidth 32 from rfl, BitVec.getLsbD_and,
    BitVec.getLsbD_setWidth, BitVec.getLsbD_setWidth, BitVec.getLsbD_signExtend,
    BitVec.getLsbD_allOnes]
  by_cases hlt : i < 16
  · simp [hi, hlt]
  · simp [hi, hlt, BitVec.getLsbD_of_ge x i (by omega)]

theorem signExtend_shift (x : BitVec 16) : x.signExtend 32 <<< 16 = x ++ 0#16 := by
  apply BitVec.eq_of_getLsbD_eq
  intro i hi
  rw [BitVec.getLsbD_shiftLeft, BitVec.getLsbD_append, BitVec.getLsbD_signExtend]
  by_cases hlt : i < 16
  · simp [hlt]
  · have hi' : i - 16 < 16 := by omega
    have hi'' : i - 16 < 32 := by omega
    simp [hi, hlt, hi', hi'']

theorem fiveBits_toNat (x : BitVec 32) : (x &&& 0x1f#32).toNat = x.toNat % 32 := by
  rw [BitVec.toNat_and]
  exact Nat.and_two_pow_sub_one_eq_mod _ 5

end Mips1

namespace Instruction

open Mips1

theorem opInfo_eq (w : BitVec 32) (h : op w < opTable.length) :
    opInfo w = opTable.get ⟨op w, h⟩ := by
  unfold opInfo
  congr 1
  exact Fin.ext (op_eq w)

theorem special_eq (w : BitVec 32) (h : funct w < specialTable.length) :
    special w = specialTable.get ⟨funct w, h⟩ := by
  unfold special
  congr 1
  exact Fin.ext (funct_eq w)

/-- The operations with an immediate operand. -/
def immediateOps : List OpCode := [.addiu, .slti, .sltiu, .andi, .ori, .xori, .lui]

theorem opTable_alu : ∀ k : Fin opTable.length, (opTable.get k).opCode ∈ aluOps →
    k.val ≠ 0 ∧ immediateOperation k.val = some (opTable.get k).opCode ∧
      (opTable.get k).format = .ifmt ∧ (opTable.get k).opCode ∈ immediateOps := by
  decide

theorem specialTable_alu : ∀ k : Fin specialTable.length, specialTable.get k ∈ aluOps →
    registerOperation k.val = some (specialTable.get k) ∧ specialTable.get k ∉ immediateOps := by
  decide

theorem opTable_special : ∀ k : Fin opTable.length, (opTable.get k).opCode = .special →
    k.val = 0 ∧ (opTable.get k).format = .rfmt := by
  decide

theorem bcond_not_alu (w : BitVec 32) : bcond w ∉ aluOps := by
  unfold bcond
  dsimp only
  split_ifs <;> decide

/-- What `Decode` makes of a word with an operation of the list. -/
structure Decoded (w : BitVec 32) : Prop where
  operation : Mips1.operation w = some (decode w).opCode
  rs : (decode w).rs = Mips1.rs w
  rt : (decode w).rt = Mips1.rt w
  rd : (decode w).rd = Mips1.rd w
  /-- The operand of an immediate operation. -/
  signed : (decode w).opCode ∈ immediateOps → (decode w).extra = (immediate w).signExtend 32
  /-- The amount of a shift. -/
  amount : (decode w).opCode ∉ immediateOps → (decode w).extra.toNat = shamt w

theorem extra_of_rfmt {w : BitVec 32} (h : (opInfo w).format = .rfmt) :
    (decode w).extra = (w >>> 6) &&& 0x1f#32 := by
  unfold decode
  dsimp only
  rw [h]

theorem extra_of_ifmt {w : BitVec 32} (h : (opInfo w).format = .ifmt) :
    (decode w).extra = if (w &&& 0xffff#32) &&& 0x8000#32 ≠ 0#32 then
      (w &&& 0xffff#32) ||| 0xffff0000#32 else w &&& 0xffff#32 := by
  unfold decode
  dsimp only
  rw [h]

/-- **The tables and masks of `Decode` are those of the architecture.** -/
theorem decoded {w : BitVec 32} (h : (decode w).opCode ∈ aluOps) : Decoded w := by
  have hop : op w < opTable.length := by
    rw [← op_eq]
    exact opTable_length ▸ sixBits_lt _
  have hfunct : funct w < specialTable.length := by
    rw [← funct_eq]
    exact specialTable_length ▸ sixBits_lt _
  have hcode : (decode w).opCode = if (opInfo w).opCode = .special then special w
      else if (opInfo w).opCode = .bcond then bcond w else (opInfo w).opCode := rfl
  have hinfo := opInfo_eq w hop
  by_cases hs : (opInfo w).opCode = .special
  · rw [if_pos hs, special_eq w hfunct] at hcode
    obtain ⟨hzero, hformat⟩ := opTable_special ⟨op w, hop⟩ (hinfo ▸ hs)
    obtain ⟨hoper, hnot⟩ := specialTable_alu ⟨funct w, hfunct⟩ (hcode ▸ h)
    refine ⟨?_, registerField_eq w 21, registerField_eq w 16, registerField_eq w 11, ?_, ?_⟩
    · rw [hcode]
      exact (if_pos hzero).trans hoper
    · intro hi
      exact absurd (hcode ▸ hi) hnot
    · intro _
      rw [extra_of_rfmt (hinfo ▸ hformat)]
      exact shamt_eq w
  · rw [if_neg hs] at hcode
    by_cases hb : (opInfo w).opCode = .bcond
    · rw [if_pos hb] at hcode
      exact absurd (hcode ▸ h) (bcond_not_alu w)
    · rw [if_neg hb, hinfo] at hcode
      obtain ⟨hne, hoper, hformat, hin⟩ := opTable_alu ⟨op w, hop⟩ (hcode ▸ h)
      refine ⟨?_, registerField_eq w 21, registerField_eq w 16, registerField_eq w 11, ?_, ?_⟩
      · rw [hcode]
        exact (if_neg hne).trans hoper
      · intro _
        rw [extra_of_ifmt (hinfo ▸ hformat)]
        exact extra_immediate w
      · intro hnot
        exact absurd (hcode ▸ hin) hnot

end Instruction

/-! ## The registers -/

namespace Mips1

/-- Where the machine keeps a register. -/
def Reg.index : Reg → Nat
  | .gpr n => n
  | .hi => hiReg
  | .lo => loReg

theorem Reg.index_lt (r : Reg) : r.index < pcReg := by
  cases r with
  | gpr n => exact gp_lt_pc n
  | hi => decide
  | lo => decide

theorem Reg.index_inj {r r' : Reg} (h : r.index = r'.index) : r = r' := by
  cases r with
  | gpr n =>
      have hn : (n : Nat) < 32 := n.isLt
      cases r' with
      | gpr k => exact congrArg Reg.gpr (Fin.ext h)
      | hi => exact absurd h (Nat.ne_of_lt hn)
      | lo => exact absurd h (Nat.ne_of_lt (Nat.lt_trans hn (by decide)))
  | hi =>
      cases r' with
      | gpr k => exact absurd h.symm (Nat.ne_of_lt k.isLt)
      | hi => rfl
      | lo => exact absurd h (by decide)
  | lo =>
      cases r' with
      | gpr k => exact absurd h.symm (Nat.ne_of_lt (Nat.lt_trans k.isLt (by decide)))
      | hi => exact absurd h (by decide)
      | lo => rfl

end Mips1

namespace Machine

open Mips1

/-- What is in a register. -/
def read (m : Machine) (r : Reg) : BitVec 32 := m.registers r.index

/-- The machine with these registers written. -/
def setAll : Machine → List (Reg × BitVec 32) → Machine
  | m, [] => m
  | m, x :: ws => setAll (m.writeRegister x.1.index x.2) ws

theorem read_writeRegister (m : Machine) (r r' : Reg) (v : BitVec 32) :
    (m.writeRegister r.index v).read r' = if r' = r then v else m.read r' := by
  show upd m.registers r.index v r'.index = _
  by_cases h : r' = r
  · rw [if_pos h, h, Base.upd_self]
  · rw [if_neg h, Base.upd_ne _ _ fun he => h (Reg.index_inj he)]
    rfl

theorem setAll_read_ne {r : Reg} : ∀ {ws : List (Reg × BitVec 32)} {m : Machine},
    r ∉ ws.map Prod.fst → (m.setAll ws).read r = m.read r := by
  intro ws
  induction ws with
  | nil => intro m _; rfl
  | cons x ws ih =>
      intro m h
      rw [List.map_cons, List.mem_cons, not_or] at h
      rw [setAll, ih h.2, read_writeRegister, if_neg h.1]

theorem setAll_read {r : Reg} {v : BitVec 32} : ∀ {ws : List (Reg × BitVec 32)} {m : Machine},
    (ws.map Prod.fst).Nodup → (r, v) ∈ ws → (m.setAll ws).read r = v := by
  intro ws
  induction ws with
  | nil => intro m _ h; exact absurd h List.not_mem_nil
  | cons x ws ih =>
      intro m hn h
      rw [List.map_cons, List.nodup_cons] at hn
      rcases List.mem_cons.mp h with rfl | h
      · rw [setAll, setAll_read_ne hn.1, read_writeRegister, if_pos rfl]
      · exact ih hn.2 h

/-- Registers from `PCReg` on are none of these. -/
theorem setAll_upper {n : Nat} (h : pcReg ≤ n) : ∀ (ws : List (Reg × BitVec 32)) (m : Machine),
    (m.setAll ws).registers n = m.registers n := by
  intro ws
  induction ws with
  | nil => intro m; rfl
  | cons x ws ih =>
      intro m
      have hx := x.1.index_lt
      rw [setAll, ih]
      exact Base.upd_ne _ _ (by omega)

/-- The end of an instruction, when no load is pending. -/
theorem read_advanced {t : Machine} (hl : t.registers loadReg = 0#32) (next : Next) (r : Reg) :
    (t.advanced next).read r = if r = .gpr 0 then 0#32 else t.read r := by
  have hlt : r.index < 34 := r.index_lt
  unfold read
  rw [advanced_registers, Base.upd_ne, Base.upd_ne, Base.upd_ne, delayedLoad_registers]
  · by_cases h0 : r = .gpr 0
    · rw [if_pos h0, h0]
      rfl
    · have hz : r.index ≠ 0 := fun he => h0 (@Reg.index_inj r (.gpr 0) he)
      rw [if_neg h0, if_neg hz, if_neg, if_neg, if_neg]
      · rw [hl]
        exact hz
      · unfold loadReg; omega
      · unfold loadValueReg; omega
  · unfold prevPCReg; omega
  · unfold pcReg; omega
  · unfold nextPCReg; omega

end Machine

/-! ## The cases of the switch -/

namespace Instruction

open Mips Mips1

variable (i : Instruction) (pcAfter : BitVec 32) {m : Machine}

theorem toRd_eq (f : BitVec 32 → BitVec 32 → BitVec 32) : i.toRd pcAfter f m =
    .ok (.at pcAfter) (m.setAll [(.gpr i.rd, f (m.read (.gpr i.rs)) (m.read (.gpr i.rt)))]) := by
  unfold toRd
  rw [bind_eq_of_ok (reg_eq (gp_lt i.rs)), bind_eq_of_ok (reg_eq (gp_lt i.rt)),
    bind_eq_of_ok (setReg_eq (gp_lt i.rd) _)]
  rfl

theorem shifted_eq (f : BitVec 32 → BitVec 32) : i.shifted pcAfter f m =
    .ok (.at pcAfter) (m.setAll [(.gpr i.rd, f (m.read (.gpr i.rt)))]) := by
  unfold shifted
  rw [bind_eq_of_ok (reg_eq (gp_lt i.rt)), bind_eq_of_ok (setReg_eq (gp_lt i.rd) _)]
  rfl

theorem toRt_eq (f : BitVec 32 → BitVec 32) : i.toRt pcAfter f m =
    .ok (.at pcAfter) (m.setAll [(.gpr i.rt, f (m.read (.gpr i.rs)))]) := by
  unfold toRt
  rw [bind_eq_of_ok (reg_eq (gp_lt i.rs)), bind_eq_of_ok (setReg_eq (gp_lt i.rt) _)]
  rfl

theorem moveFrom_eq (r : Reg) : i.moveFrom pcAfter r.index m =
    .ok (.at pcAfter) (m.setAll [(.gpr i.rd, m.read r)]) := by
  unfold moveFrom
  rw [bind_eq_of_ok (reg_eq (Nat.lt_trans r.index_lt (by decide))),
    bind_eq_of_ok (setReg_eq (gp_lt i.rd) _)]
  rfl

theorem moveTo_eq (r : Reg) : i.moveTo pcAfter r.index m =
    .ok (.at pcAfter) (m.setAll [(r, m.read (.gpr i.rs))]) := by
  unfold moveTo
  rw [bind_eq_of_ok (reg_eq (gp_lt i.rs)),
    bind_eq_of_ok (setReg_eq (Nat.lt_trans r.index_lt (by decide)) _)]
  rfl

theorem setHiLo_eq (hi lo : BitVec 32) :
    (do setHiLo hi lo; return Next.at pcAfter : Mips Next) m =
      .ok (.at pcAfter) (m.setAll [(.lo, lo), (.hi, hi)]) := by
  have hset : setHiLo hi lo m = .ok () (m.setAll [(.lo, lo), (.hi, hi)]) := by
    unfold setHiLo
    rw [bind_eq_of_ok (setReg_eq (by decide) _)]
    exact setReg_eq (by decide) _
  rw [bind_eq_of_ok hset]
  rfl

theorem flag_slt (a b : BitVec 32) : flag (a.slt b) = truth (a.toInt < b.toInt) := by
  unfold flag truth
  simp only [BitVec.slt_iff_toInt_lt]

theorem flag_ult (a b : BitVec 32) : flag (a.ult b) = truth (a.toNat < b.toNat) := by
  unfold flag truth
  simp only [BitVec.ult_iff_toNat_lt]

/-- **A division that the architecture has a result for**: the divisor is not zero, and the exact
quotient is a word. -/
def Divisible (o : OpCode) (s t : BitVec 32) : Prop :=
  (o = .div → t ≠ 0#32 ∧ FitsInt (s.toInt.tdiv t.toInt)) ∧ (o = .divu → t ≠ 0#32)

theorem div_writes (hne : m.read (.gpr i.rt) ≠ 0#32)
    (hfits : FitsInt ((m.read (.gpr i.rs)).toInt.tdiv (m.read (.gpr i.rt)).toInt)) :
    i.div pcAfter m = .ok (.at pcAfter) (m.setAll [
      (.lo, BitVec.ofInt 32 ((m.read (.gpr i.rs)).toInt.tdiv (m.read (.gpr i.rt)).toInt)),
      (.hi, BitVec.ofInt 32 ((m.read (.gpr i.rs)).toInt.tmod (m.read (.gpr i.rt)).toInt))]) := by
  have htrap : ¬ (m.registers i.rt = 0#32 ∨
      (m.registers i.rs = 0x80000000#32 ∧ m.registers i.rt = 0xffffffff#32)) := by
    rintro (h0 | ⟨h1, h2⟩)
    · exact hne h0
    · have hs : m.read (.gpr i.rs) = 0x80000000#32 := h1
      have ht : m.read (.gpr i.rt) = 0xffffffff#32 := h2
      rw [hs, ht] at hfits
      exact absurd hfits (by decide)
  have hlo : BitVec.ofInt 32 ((m.read (.gpr i.rs)).toInt.tdiv (m.read (.gpr i.rt)).toInt) =
      (m.read (.gpr i.rs)).sdiv (m.read (.gpr i.rt)) := by
    apply BitVec.eq_of_toInt_eq
    rw [BitVec.toInt_ofInt, BitVec.toInt_sdiv]
  have hne' : m.registers i.rt ≠ 0#32 := hne
  rw [div_eq, if_neg hne', hostDiv, if_neg htrap, hlo, ← BitVec.toInt_srem, BitVec.ofInt_toInt]
  exact setHiLo_eq pcAfter _ _

theorem divu_writes (hne : m.read (.gpr i.rt) ≠ 0#32) :
    i.divu pcAfter m = .ok (.at pcAfter) (m.setAll [
      (.lo, BitVec.ofNat 32 ((m.read (.gpr i.rs)).toNat / (m.read (.gpr i.rt)).toNat)),
      (.hi, BitVec.ofNat 32 ((m.read (.gpr i.rs)).toNat % (m.read (.gpr i.rt)).toNat))]) := by
  have hne' : m.registers i.rt ≠ 0#32 := hne
  rw [divu, bind_eq_of_ok (reg_eq (gp_lt i.rs)), bind_eq_of_ok (reg_eq (gp_lt i.rt)),
    if_neg hne', hostDivU, if_neg hne', ← BitVec.toNat_udiv, ← BitVec.toNat_umod,
    BitVec.ofNat_toNat, BitVec.ofNat_toNat, BitVec.setWidth_eq, BitVec.setWidth_eq]
  exact setHiLo_eq pcAfter _ _

/-- **The switch writes what the architecture says**, but for the logical shifts to the right. -/
theorem execute_alu {w : BitVec 32} (h : (decode w).opCode ∈ aluOps)
    (hsrl : (decode w).opCode ≠ .srl) (hsrlv : (decode w).opCode ≠ .srlv)
    (hdiv : Divisible (decode w).opCode (m.read (.gpr (Mips1.rs w))) (m.read (.gpr (Mips1.rt w)))) :
    (decode w).execute pcAfter m =
      .ok (.at pcAfter) (m.setAll (Mips1.writes (decode w).opCode w m.read)) := by
  have hd := decoded h
  have himm : (decode w).opCode ∈ immediateOps → (decode w).extra = (immediate w).signExtend 32 :=
    hd.signed
  have hamount : (decode w).opCode ∉ immediateOps → (decode w).extra.toNat = shamt w := hd.amount
  rw [← hd.rs, ← hd.rt] at hdiv
  unfold execute
  cases hop : (decode w).opCode with
  | srl => exact absurd hop hsrl
  | srlv => exact absurd hop hsrlv
  | div =>
      dsimp only
      obtain ⟨hne, hfits⟩ := hdiv.1 hop
      rw [div_writes _ pcAfter hne hfits, hd.rs, hd.rt]
      rfl
  | divu =>
      dsimp only
      rw [divu_writes _ pcAfter (hdiv.2 hop), hd.rs, hd.rt]
      rfl
  | addu | subu | and | or | xor | nor =>
      dsimp only
      rw [toRd_eq, hd.rs, hd.rt, hd.rd]
      rfl
  | slt =>
      dsimp only
      rw [toRd_eq, flag_slt, hd.rs, hd.rt, hd.rd]
      rfl
  | sltu =>
      dsimp only
      rw [toRd_eq, flag_ult, hd.rs, hd.rt, hd.rd]
      rfl
  | sllv | srav =>
      dsimp only
      rw [toRd_eq, hd.rs, hd.rt, hd.rd]
      simp only [BitVec.shiftLeft_eq', BitVec.sshiftRight', fiveBits_toNat]
      rfl
  | sll | sra =>
      dsimp only
      rw [shifted_eq, hd.rt, hd.rd]
      simp only [BitVec.shiftLeft_eq', BitVec.sshiftRight', hamount (by rw [hop]; decide)]
      rfl
  | addiu =>
      dsimp only
      rw [toRt_eq, himm (by rw [hop]; decide), hd.rs, hd.rt]
      rfl
  | slti =>
      dsimp only
      rw [toRt_eq, flag_slt, himm (by rw [hop]; decide), hd.rs, hd.rt]
      rfl
  | sltiu =>
      dsimp only
      rw [toRt_eq, flag_ult, himm (by rw [hop]; decide), hd.rs, hd.rt]
      rfl
  | andi | ori | xori =>
      dsimp only
      rw [toRt_eq, himm (by rw [hop]; decide), signExtend_and_low, hd.rs, hd.rt]
      rfl
  | lui =>
      dsimp only
      rw [bind_eq_of_ok (setReg_eq (gp_lt _) _), himm (by rw [hop]; decide),
        signExtend_shift, hd.rt]
      rfl
  | mfhi =>
      dsimp only
      rw [show hiReg = Reg.index .hi from rfl, moveFrom_eq, hd.rd]
      rfl
  | mflo =>
      dsimp only
      rw [show loReg = Reg.index .lo from rfl, moveFrom_eq, hd.rd]
      rfl
  | mthi =>
      dsimp only
      rw [show hiReg = Reg.index .hi from rfl, moveTo_eq, hd.rs]
      rfl
  | mtlo =>
      dsimp only
      rw [show loReg = Reg.index .lo from rfl, moveTo_eq, hd.rs]
      rfl
  | _ => exact absurd h (by rw [hop]; decide)

/-- **`SRL` brings in the sign.** -/
theorem execute_srl {w : BitVec 32} (h : (decode w).opCode = .srl) :
    (decode w).execute pcAfter m = .ok (.at pcAfter)
      (m.setAll [(.gpr (Mips1.rd w), (m.read (.gpr (Mips1.rt w))).sshiftRight (shamt w))]) := by
  have hd := decoded (w := w) (by rw [h]; decide)
  have hamount := hd.amount (by rw [h]; decide)
  have hx : (decode w).execute pcAfter =
      (decode w).shifted pcAfter fun rt => rt.sshiftRight' (decode w).extra := by
    unfold execute
    rw [h]
  rw [hx, shifted_eq, hd.rt, hd.rd, BitVec.sshiftRight', hamount]

theorem execute_srlv {w : BitVec 32} (h : (decode w).opCode = .srlv) :
    (decode w).execute pcAfter m = .ok (.at pcAfter)
      (m.setAll [(.gpr (Mips1.rd w), (m.read (.gpr (Mips1.rt w))).sshiftRight
        ((m.read (.gpr (Mips1.rs w))).toNat % 32))]) := by
  have hd := decoded (w := w) (by rw [h]; decide)
  have hx : (decode w).execute pcAfter =
      (decode w).toRd pcAfter fun rs rt => rt.sshiftRight' (rs &&& 0x1f#32) := by
    unfold execute
    rw [h]
  rw [hx, toRd_eq, hd.rs, hd.rt, hd.rd, BitVec.sshiftRight', fiveBits_toNat]

end Instruction

/-! ## One instruction -/

namespace Machine

open Mips Mips1 Instruction

/-- The word that the machine is about to decode, if it can be fetched. -/
def word (m : Machine) : Option (BitVec 32) :=
  match Mips.readMem (m.registers pcReg) 4 m with
  | .ok raw _ => some raw
  | .error _ _ => none

variable {m : Machine}

theorem fetch_of_word {w : BitVec 32} (h : m.word = some w) :
    ∃ t, Mips.fetch m = .ok (decode w) t ∧ t.user = m.user := by
  unfold word at h
  cases hr : Mips.readMem (m.registers pcReg) 4 m with
  | error e t =>
      rw [hr] at h
      exact absurd h (by simp)
  | ok raw t =>
      rw [hr] at h
      have hw : raw = w := Option.some.inj h
      refine ⟨t, ?_, (safe_readMem _ (Or.inr (Or.inr rfl))).ok hr⟩
      unfold Mips.fetch
      rw [bind_eq_of_ok (reg_eq (by decide)), bind_eq_of_ok hr, hw]
      rfl

/-- An instruction that gets to its end. -/
theorem oneInstruction_completed {i : Instruction} {next : Next} {t t' : Machine}
    (hf : Mips.fetch m = .ok i t) (hx : i.execute (t.registers nextPCReg + 4#32) t = .ok next t')
    (hl : (t'.registers loadReg).toNat < numTotalRegs) :
    m.oneInstruction = .completed (t'.advanced next) := by
  unfold oneInstruction Mips.oneInstruction
  rw [bind_eq_of_ok hf, bind_eq_of_ok (reg_eq (by decide)), bind_eq_of_ok hx, advance_eq hl]
  rfl

/-- **What the architecture asks of operation `o`**: its destinations have their values, and no
other register has changed. Register 0 is 0. -/
structure Meets (m : Machine) (o : OpCode) (w : BitVec 32) (m' : Machine) : Prop where
  value : ∀ x ∈ writes o w m.read, m'.read x.1 = x.2
  others : ∀ r, r ≠ .gpr 0 → r ∉ (writes o w m.read).map Prod.fst → m'.read r = m.read r
  zero : m'.read (.gpr 0) = 0#32

/-- The machine executes the word as MIPS-I defines it. -/
def Conforms (m : Machine) (w : BitVec 32) : Prop :=
  ∃ o m', Mips1.operation w = some o ∧ m.oneInstruction = .completed m' ∧ m.Meets o w m'

/-- A logical shift to the right, by one place or more, of a word with its top bit set. -/
def ShiftsSign (m : Machine) (w : BitVec 32) : Prop :=
  (m.read (.gpr (Mips1.rt w))).msb = true ∧
    ((Mips1.operation w = some .srl ∧ shamt w ≠ 0) ∨
      (Mips1.operation w = some .srlv ∧ (m.read (.gpr (Mips1.rs w))).toNat % 32 ≠ 0))

/-- An instruction that writes registers, and nothing else, ends with them written. -/
theorem completed_of_writes {w : BitVec 32} {ws : List (Reg × BitVec 32)} (hw : m.word = some w)
    (hload : m.registers loadReg = 0#32) (hn : (ws.map Prod.fst).Nodup)
    (hd : ∀ x ∈ ws, x.1 ≠ .gpr 0)
    (hx : ∀ (t : Machine) (pcAfter : BitVec 32), t.registers = m.registers →
      (decode w).execute pcAfter t = .ok (.at pcAfter) (t.setAll ws)) :
    ∃ m', m.oneInstruction = .completed m' ∧ (∀ x ∈ ws, m'.read x.1 = x.2) ∧
      (∀ r, r ≠ .gpr 0 → r ∉ ws.map Prod.fst → m'.read r = m.read r) ∧
      m'.read (.gpr 0) = 0#32 := by
  obtain ⟨t, hf, hu⟩ := fetch_of_word hw
  have hregs : t.registers = m.registers := congrArg View.registers hu
  have hl : (t.setAll ws).registers loadReg = 0#32 := by
    rw [setAll_upper (by decide), hregs, hload]
  have hend := oneInstruction_completed hf (hx t _ hregs) (by rw [hl]; decide)
  refine ⟨_, hend, ?_, ?_, ?_⟩
  · intro x hxw
    rw [read_advanced hl, if_neg (hd x hxw), setAll_read hn (v := x.2) hxw]
  · intro r h0 hr
    rw [read_advanced hl, if_neg h0, setAll_read_ne hr]
    exact congrFun hregs _
  · rw [read_advanced hl, if_pos rfl]

/-- An arithmetic and a logical shift are the same when the sign is clear or nothing is shifted. -/
theorem sshiftRight_eq_iff (x : BitVec 32) (k : Nat) :
    x.sshiftRight k = x >>> k ↔ ¬ (x.msb = true ∧ k ≠ 0) := by
  constructor
  · rintro he ⟨hmsb, hk⟩
    have hm := congrArg BitVec.msb he
    rw [BitVec.msb_sshiftRight, BitVec.msb_ushiftRight, hmsb] at hm
    simp [hk] at hm
  · intro h
    by_cases hmsb : x.msb = true
    · have hk : k = 0 := Classical.not_not.mp fun hk => h ⟨hmsb, hk⟩
      rw [hk, BitVec.sshiftRight_zero, BitVec.ushiftRight_zero]
    · rw [BitVec.sshiftRight_eq_of_msb_false (by simpa using hmsb)]

/-- The two shifts whose variable has a sign: what they leave, against what they should. -/
theorem conforms_shift {w : BitVec 32} {o : OpCode} {k : Nat} (hw : m.word = some w)
    (ho : Mips1.operation w = some o) (hload : m.registers loadReg = 0#32)
    (hdest : Mips1.rd w ≠ 0)
    (hspec : writes o w m.read = [(.gpr (Mips1.rd w), m.read (.gpr (Mips1.rt w)) >>> k)])
    (hx : ∀ (t : Machine) (pcAfter : BitVec 32), t.registers = m.registers →
      (decode w).execute pcAfter t = .ok (.at pcAfter)
        (t.setAll [(.gpr (Mips1.rd w), (m.read (.gpr (Mips1.rt w))).sshiftRight k)])) :
    m.Conforms w ↔ ¬ ((m.read (.gpr (Mips1.rt w))).msb = true ∧ k ≠ 0) := by
  have hd : Reg.gpr (Mips1.rd w) ≠ .gpr 0 := fun he => hdest (Reg.gpr.inj he)
  obtain ⟨m', hend, hvalue, hothers, hzero⟩ :=
    completed_of_writes hw hload (by simp) (by simpa using hd) hx
  have hgot : m'.read (.gpr (Mips1.rd w)) = (m.read (.gpr (Mips1.rt w))).sshiftRight k :=
    hvalue (_, _) List.mem_cons_self
  rw [← sshiftRight_eq_iff, ← hgot]
  constructor
  · rintro ⟨o', m'', ho', hend', hmeets⟩
    rw [ho] at ho'
    rw [hend] at hend'
    injection ho' with ho'
    injection hend' with hend'
    subst ho' hend'
    exact hmeets.value (_, _) (by rw [hspec]; exact List.mem_cons_self)
  · intro he
    refine ⟨o, m', ho, hend, ?_, ?_, hzero⟩
    · rw [hspec]
      simpa using he
    · rw [hspec]
      exact hothers

/-- **The instruction set, and where it fails.** Take any word whose operation is one of the list,
with a destination other than register 0, no load pending and, for a division, operands that have a
quotient. Then `OneInstruction` completes it as MIPS-I defines it exactly when it does not shift a
negative word to the right logically. -/
theorem conforms_iff (m : Machine) (w : BitVec 32) (hw : m.word = some w)
    (hop : (decode w).opCode ∈ aluOps) (hload : m.registers loadReg = 0#32)
    (hdest : ∀ x ∈ writes (decode w).opCode w m.read, x.1 ≠ .gpr 0)
    (hdiv : Divisible (decode w).opCode (m.read (.gpr (Mips1.rs w))) (m.read (.gpr (Mips1.rt w)))) :
    m.Conforms w ↔ ¬ m.ShiftsSign w := by
  have ho := (decoded hop).operation
  have hread : ∀ {t : Machine}, t.registers = m.registers → t.read = m.read := by
    intro t ht
    funext r
    exact congrFun ht _
  unfold ShiftsSign
  rw [ho]
  by_cases hsrl : (decode w).opCode = .srl
  · rw [hsrl] at ho hdest ⊢
    have hrd : Mips1.rd w ≠ 0 := fun he => hdest (_, _) List.mem_cons_self (congrArg Reg.gpr he)
    rw [conforms_shift hw ho hload hrd rfl fun t pcAfter ht => hread ht ▸ execute_srl pcAfter hsrl]
    simp
  by_cases hsrlv : (decode w).opCode = .srlv
  · rw [hsrlv] at ho hdest ⊢
    have hrd : Mips1.rd w ≠ 0 := fun he => hdest (_, _) List.mem_cons_self (congrArg Reg.gpr he)
    rw [conforms_shift hw ho hload hrd rfl fun t pcAfter ht =>
      hread ht ▸ execute_srlv pcAfter hsrlv]
    simp
  · refine iff_of_true ?_ (by simp [hsrl, hsrlv])
    obtain ⟨m', hend, hvalue, hothers, hzero⟩ :=
      completed_of_writes hw hload (writes_nodup _ w m.read) hdest fun t pcAfter ht => by
        rw [← hread ht] at hdiv ⊢
        exact execute_alu pcAfter hop hsrl hsrlv hdiv
    exact ⟨_, m', ho, hend, hvalue, hothers, hzero⟩

/-- `srl $3, $1, 4`, of a word with its top bit set and of one without. -/
def shifting (value : BitVec 32) : Machine := sample [0x00011902#32] (upd (fun _ => 0#32) 1 value)

theorem conforms_shifting : (shifting 0x12345678#32).Conforms 0x00011902#32 := by
  refine (conforms_iff _ _ (by decide) (by decide) (by decide) (by decide) ?_).mpr ?_
  · exact ⟨fun h => absurd h (by decide), fun h => absurd h (by decide)⟩
  · rintro ⟨h, _⟩
    exact absurd h (by decide)

/-- The word `0x80000000` is shifted to `0xf8000000`. -/
theorem shifting_conforms_not : ¬ (∀ (m : Machine) (w : BitVec 32), m.word = some w →
    (decode w).opCode ∈ aluOps → m.registers loadReg = 0#32 →
    (∀ x ∈ writes (decode w).opCode w m.read, x.1 ≠ .gpr 0) →
    Divisible (decode w).opCode (m.read (.gpr (Mips1.rs w))) (m.read (.gpr (Mips1.rt w))) →
    m.Conforms w) := by
  intro h
  obtain ⟨o, m', ho, hend, hmeets⟩ :=
    h (shifting 0x80000000#32) 0x00011902#32 (by decide) (by decide)
    (by decide) (by decide) ⟨fun h => absurd h (by decide), fun h => absurd h (by decide)⟩
  have hsrl : o = .srl := by
    have hspec : Mips1.operation 0x00011902#32 = some .srl := by decide
    rw [hspec] at ho
    exact (Option.some.inj ho).symm
  subst hsrl
  have hspec : m'.read (.gpr 3) = 0x08000000#32 := hmeets.value (.gpr 3, 0x08000000#32) (by decide)
  have hgot : ∀ {m'}, (shifting 0x80000000#32).oneInstruction = .completed m' →
      m'.read (.gpr 3) = 0xf8000000#32 := by
    intro m' hm
    have hrun : (shifting 0x80000000#32).oneInstruction =
      .completed
      ((((shifting 0x80000000#32).touch 0 false).setAll [(.gpr 3, 0xf8000000#32)]).advanced
        (.at 4#32)) := by rfl
    rw [hrun] at hm
    injection hm with hm
    rw [← hm]
    decide
  rw [hgot hend] at hspec
  exact absurd hspec (by decide)

end Machine

end Nachos
