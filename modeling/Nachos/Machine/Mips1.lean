import Nachos.Machine.MipsSim

/-!
# The integer instructions of MIPS-I

What the architecture says, apart from what the interpreter does: the fields of an instruction word,
the numbers of the operations, and the registers that an operation writes with their values.
Only the operations that compute in registers and never trap are here, with the division.

The values are given by the numbers that are meant. A sum is a sum modulo `2^32`, a logical
shift brings in zeros and an arithmetic one the sign, and a quotient is rounded towards zero.
-/

namespace Nachos

namespace Mips1

/-- The registers that these instructions compute with. -/
inductive Reg where
  | gpr (n : Fin numGPRegs)
  | hi
  | lo
  deriving DecidableEq, Repr

/-! ## The fields of a word -/

/-- The five bits from `lo` on, as the number of a register. -/
def register (w : BitVec 32) (lo : Nat) : Fin numGPRegs :=
  ⟨(w.extractLsb' lo 5).toNat, BitVec.isLt _⟩

/-- Bits 31:26. -/
def op (w : BitVec 32) : Nat := (w.extractLsb' 26 6).toNat

/-- Bits 25:21. -/
def rs (w : BitVec 32) : Fin numGPRegs := register w 21

/-- Bits 20:16. -/
def rt (w : BitVec 32) : Fin numGPRegs := register w 16

/-- Bits 15:11. -/
def rd (w : BitVec 32) : Fin numGPRegs := register w 11

/-- Bits 10:6, the amount of a shift. -/
def shamt (w : BitVec 32) : Nat := (w.extractLsb' 6 5).toNat

/-- Bits 5:0. -/
def funct (w : BitVec 32) : Nat := (w.extractLsb' 0 6).toNat

/-- Bits 15:0. -/
def immediate (w : BitVec 32) : BitVec 16 := w.extractLsb' 0 16

/-! ## The operations -/

/-- By the field `funct`, when the field `op` is 0. -/
def registerOperation : Nat → Option OpCode
  | 0x00 => some .sll
  | 0x02 => some .srl
  | 0x03 => some .sra
  | 0x04 => some .sllv
  | 0x06 => some .srlv
  | 0x07 => some .srav
  | 0x10 => some .mfhi
  | 0x11 => some .mthi
  | 0x12 => some .mflo
  | 0x13 => some .mtlo
  | 0x1a => some .div
  | 0x1b => some .divu
  | 0x21 => some .addu
  | 0x23 => some .subu
  | 0x24 => some .and
  | 0x25 => some .or
  | 0x26 => some .xor
  | 0x27 => some .nor
  | 0x2a => some .slt
  | 0x2b => some .sltu
  | _ => none

/-- By the field `op`. -/
def immediateOperation : Nat → Option OpCode
  | 0x09 => some .addiu
  | 0x0a => some .slti
  | 0x0b => some .sltiu
  | 0x0c => some .andi
  | 0x0d => some .ori
  | 0x0e => some .xori
  | 0x0f => some .lui
  | _ => none

/-- The operation that a word stands for, when it is one of these. -/
def operation (w : BitVec 32) : Option OpCode :=
  if op w = 0 then registerOperation (funct w) else immediateOperation (op w)

/-- A comparison sets its destination to 1 or to 0. -/
def truth (p : Prop) [Decidable p] : BitVec 32 := if p then 1#32 else 0#32

/-- **The registers that an operation writes, and with what**, from the word and the registers
before. -/
def writes (o : OpCode) (w : BitVec 32) (r : Reg → BitVec 32) : List (Reg × BitVec 32) :=
  let s := r (.gpr (rs w))
  let t := r (.gpr (rt w))
  let signed := (immediate w).signExtend 32
  let unsigned := (immediate w).setWidth 32
  match o with
  | .addu => [(.gpr (rd w), s + t)]
  | .subu => [(.gpr (rd w), s - t)]
  | .and => [(.gpr (rd w), s &&& t)]
  | .or => [(.gpr (rd w), s ||| t)]
  | .xor => [(.gpr (rd w), s ^^^ t)]
  | .nor => [(.gpr (rd w), ~~~(s ||| t))]
  | .slt => [(.gpr (rd w), truth (s.toInt < t.toInt))]
  | .sltu => [(.gpr (rd w), truth (s.toNat < t.toNat))]
  | .sll => [(.gpr (rd w), t <<< shamt w)]
  | .srl => [(.gpr (rd w), t >>> shamt w)]
  | .sra => [(.gpr (rd w), t.sshiftRight (shamt w))]
  | .sllv => [(.gpr (rd w), t <<< (s.toNat % 32))]
  | .srlv => [(.gpr (rd w), t >>> (s.toNat % 32))]
  | .srav => [(.gpr (rd w), t.sshiftRight (s.toNat % 32))]
  | .addiu => [(.gpr (rt w), s + signed)]
  | .slti => [(.gpr (rt w), truth (s.toInt < signed.toInt))]
  | .sltiu => [(.gpr (rt w), truth (s.toNat < signed.toNat))]
  | .andi => [(.gpr (rt w), s &&& unsigned)]
  | .ori => [(.gpr (rt w), s ||| unsigned)]
  | .xori => [(.gpr (rt w), s ^^^ unsigned)]
  | .lui => [(.gpr (rt w), immediate w ++ 0#16)]
  | .mfhi => [(.gpr (rd w), r .hi)]
  | .mflo => [(.gpr (rd w), r .lo)]
  | .mthi => [(.hi, s)]
  | .mtlo => [(.lo, s)]
  | .div => [(.lo, BitVec.ofInt 32 (s.toInt.tdiv t.toInt)),
      (.hi, BitVec.ofInt 32 (s.toInt.tmod t.toInt))]
  | .divu =>
      [(.lo, BitVec.ofNat 32 (s.toNat / t.toNat)), (.hi, BitVec.ofNat 32 (s.toNat % t.toNat))]
  | _ => []

/-- The operations that compute in registers and do not trap. -/
def aluOps : List OpCode := [
  .addu, .addiu, .subu, .and, .andi, .or, .ori, .xor, .xori, .nor, .lui, .slt, .slti, .sltu,
  .sltiu, .sll, .srl, .sra, .sllv, .srlv, .srav, .mfhi, .mflo, .mthi, .mtlo, .div, .divu]

/-- No register is written twice. -/
theorem writes_nodup (o : OpCode) (w : BitVec 32) (r : Reg → BitVec 32) :
    ((writes o w r).map Prod.fst).Nodup := by
  cases o <;> simp [writes]

end Mips1

end Nachos
