import Nachos.Base.Program
import Nachos.Machine.Translate
import Mathlib.Algebra.Ring.Nat

/-!
# The instruction interpreter: `machine/mipssim.cc`

`OneInstruction` fetches a word, decodes it through two tables and executes it. A load does
not reach its register at once: its number and value wait in two registers of their own, and
`DelayedLoad` writes them at the end of the *next* instruction. Whoever interrupts the
user program, an exception or a device, calls `DelayedLoad(0, 0)` first.

The body of `OneInstruction` is a program that changes the machine and may stop in the middle.
It stops because it has called `RaiseException`, or because the simulator itself fails: an
`ASSERT`, a register number outside the array, or a division that the host traps on. These
failures are outcomes of the model, so that their absence can be proved.

The interpreter is the one of a build with `SIM_FIX`. The trace that the debugging flag `m`
prints is left out.
-/

namespace Nachos

open Base (upd)

/-- `NumGPRegs`. -/
def numGPRegs : Nat := 32

instance : NeZero numGPRegs := ⟨by decide⟩

/-! ## Decoding -/

/-- The values of the field `opCode`. -/
inductive OpCode where
  | add | addi | addiu | addu | and | andi | beq | bgez | bgezal | bgtz | blez | bltz | bltzal | bne
  | div | divu | j | jal | jalr | jr | lb | lbu | lh | lhu | lui | lw | lwl | lwr
  | mfhi | mflo | mthi | mtlo | mult | multu | nor | or | ori | rfe | sb | sh | sll | sllv
  | slt | slti | sltiu | sltu | sra | srav | srl | srlv | sub | subu | sw | swl | swr
  | xor | xori | syscall | unimp | res
  /-- `SPECIAL`: the code is in the second table. -/
  | special
  /-- `BCOND`: the code is in the field `rt`. -/
  | bcond
  deriving DecidableEq, Repr

/-- Which operand an instruction has beside its registers. -/
inductive Format where
  | ifmt
  | jfmt
  | rfmt
  deriving DecidableEq, Repr

/-- An entry of `opTable`. -/
structure OpInfo where
  opCode : OpCode
  format : Format
  deriving DecidableEq, Repr

/-- What bits 31:26 of an instruction mean. -/
def opTable : List OpInfo := [
  ⟨.special, .rfmt⟩, ⟨.bcond, .ifmt⟩, ⟨.j, .jfmt⟩, ⟨.jal, .jfmt⟩,
  ⟨.beq, .ifmt⟩, ⟨.bne, .ifmt⟩, ⟨.blez, .ifmt⟩, ⟨.bgtz, .ifmt⟩,
  ⟨.addi, .ifmt⟩, ⟨.addiu, .ifmt⟩, ⟨.slti, .ifmt⟩, ⟨.sltiu, .ifmt⟩,
  ⟨.andi, .ifmt⟩, ⟨.ori, .ifmt⟩, ⟨.xori, .ifmt⟩, ⟨.lui, .ifmt⟩,
  ⟨.unimp, .ifmt⟩, ⟨.unimp, .ifmt⟩, ⟨.unimp, .ifmt⟩, ⟨.unimp, .ifmt⟩,
  ⟨.res, .ifmt⟩, ⟨.res, .ifmt⟩, ⟨.res, .ifmt⟩, ⟨.res, .ifmt⟩,
  ⟨.res, .ifmt⟩, ⟨.res, .ifmt⟩, ⟨.res, .ifmt⟩, ⟨.res, .ifmt⟩,
  ⟨.res, .ifmt⟩, ⟨.res, .ifmt⟩, ⟨.res, .ifmt⟩, ⟨.res, .ifmt⟩,
  ⟨.lb, .ifmt⟩, ⟨.lh, .ifmt⟩, ⟨.lwl, .ifmt⟩, ⟨.lw, .ifmt⟩,
  ⟨.lbu, .ifmt⟩, ⟨.lhu, .ifmt⟩, ⟨.lwr, .ifmt⟩, ⟨.res, .ifmt⟩,
  ⟨.sb, .ifmt⟩, ⟨.sh, .ifmt⟩, ⟨.swl, .ifmt⟩, ⟨.sw, .ifmt⟩,
  ⟨.res, .ifmt⟩, ⟨.res, .ifmt⟩, ⟨.swr, .ifmt⟩, ⟨.res, .ifmt⟩,
  ⟨.unimp, .ifmt⟩, ⟨.unimp, .ifmt⟩, ⟨.unimp, .ifmt⟩, ⟨.unimp, .ifmt⟩,
  ⟨.res, .ifmt⟩, ⟨.res, .ifmt⟩, ⟨.res, .ifmt⟩, ⟨.res, .ifmt⟩,
  ⟨.unimp, .ifmt⟩, ⟨.unimp, .ifmt⟩, ⟨.unimp, .ifmt⟩, ⟨.unimp, .ifmt⟩,
  ⟨.res, .ifmt⟩, ⟨.res, .ifmt⟩, ⟨.res, .ifmt⟩, ⟨.res, .ifmt⟩]

/-- What the field `funct` of a `SPECIAL` instruction means. -/
def specialTable : List OpCode := [
  .sll, .res, .srl, .sra, .sllv, .res, .srlv, .srav,
  .jr, .jalr, .res, .res, .syscall, .unimp, .res, .res,
  .mfhi, .mthi, .mflo, .mtlo, .res, .res, .res, .res,
  .mult, .multu, .div, .divu, .res, .res, .res, .res,
  .add, .addu, .sub, .subu, .and, .or, .xor, .nor,
  .res, .res, .slt, .sltu, .res, .res, .res, .res,
  .res, .res, .res, .res, .res, .res, .res, .res,
  .res, .res, .res, .res, .res, .res, .res, .res]

theorem opTable_length : opTable.length = 64 := rfl

theorem specialTable_length : specialTable.length = 64 := rfl

/-- The low six bits of a number index either table. -/
theorem sixBits_lt (v : BitVec 32) : (v &&& 0x3f#32).toNat < 64 := by
  rw [BitVec.toNat_and]
  exact Nat.lt_of_le_of_lt Nat.and_le_right (by decide)

theorem fiveBits_lt (v : BitVec 32) : (v &&& 0x1f#32).toNat < numGPRegs := by
  rw [BitVec.toNat_and]
  exact Nat.lt_of_le_of_lt Nat.and_le_right (by decide)

/-- A decoded instruction. The register numbers have five bits. -/
structure Instruction where
  opCode : OpCode
  rs : Fin numGPRegs
  rt : Fin numGPRegs
  rd : Fin numGPRegs
  /-- The immediate operand, the target of a jump or the amount of a shift. -/
  extra : BitVec 32
  deriving DecidableEq, Repr

namespace Instruction

/-- Five bits of the word. -/
def registerField (value : BitVec 32) (shift : Nat) : Fin numGPRegs :=
  ⟨((value >>> shift) &&& 0x1f#32).toNat, fiveBits_lt _⟩

/-- `opTable[(value >> 26) & 0x3f]`. -/
def opInfo (value : BitVec 32) : OpInfo :=
  opTable.get ⟨((value >>> 26) &&& 0x3f#32).toNat, opTable_length ▸ sixBits_lt _⟩

/-- `specialTable[value & 0x3f]`. -/
def special (value : BitVec 32) : OpCode :=
  specialTable.get ⟨(value &&& 0x3f#32).toNat, specialTable_length ▸ sixBits_lt _⟩

/-- The branches that are told apart by the field `rt`. -/
def bcond (value : BitVec 32) : OpCode :=
  let i := value &&& 0x1f0000#32
  if i = 0#32 then .bltz
  else if i = 0x10000#32 then .bgez
  else if i = 0x100000#32 then .bltzal
  else if i = 0x110000#32 then .bgezal
  else .unimp

/-- `Decode`. -/
def decode (value : BitVec 32) : Instruction :=
  let info := opInfo value
  { opCode :=
      if info.opCode = .special then special value
      else if info.opCode = .bcond then bcond value
      else info.opCode
    rs := registerField value 21
    rt := registerField value 16
    rd := registerField value 11
    extra :=
      match info.format with
      | .ifmt =>
          let extra := value &&& 0xffff#32
          -- the sign of the immediate operand is extended
          if extra &&& 0x8000#32 ≠ 0#32 then extra ||| 0xffff0000#32 else extra
      | .rfmt => (value >>> 6) &&& 0x1f#32
      | .jfmt => value &&& 0x3ffffff#32 }

end Instruction

/-! ## Programs of the interpreter -/

/-- How the simulator itself can fail. -/
inductive Crash where
  /-- An `ASSERT`. -/
  | assertion
  /-- A register number that is not below `NumTotalRegs`. -/
  | overrun
  /-- A division that the host has no result for. -/
  | division
  deriving DecidableEq, Repr

/-- Why the rest of `OneInstruction` is not executed. -/
inductive Halt where
  /-- `RaiseException(which, badVAddr)`. -/
  | raise (which : ExceptionType) (badVAddr : BitVec 32)
  | crash (why : Crash)
  deriving DecidableEq, Repr

/-- Code of the interpreter. It ends early on an exception. -/
abbrev Mips := EStateM Halt Machine

namespace Mips

/-- `registers[num]`. -/
def reg (num : Nat) : Mips (BitVec 32) := fun m =>
  if num < numTotalRegs then .ok (m.registers num) m else .error (.crash .overrun) m

/-- `registers[num] = value`. -/
def setReg (num : Nat) (value : BitVec 32) : Mips Unit := fun m =>
  if num < numTotalRegs then .ok () (m.writeRegister num value) else .error (.crash .overrun) m

/-- `RaiseException`, after which `OneInstruction` returns. -/
def raise {α : Type} (which : ExceptionType) (badVAddr : BitVec 32) : Mips α :=
  throw (.raise which badVAddr)

/-- `ReadMem`, which raises the exception itself. -/
def readMem (addr : BitVec 32) (size : Nat) : Mips (BitVec 32) := fun m =>
  match m.readMem addr.toInt size with
  | none => .error (.crash .assertion) m
  | some (.error which) => .error (.raise which addr) m
  | some (.ok (value, m')) => .ok (BitVec.ofInt 32 value) m'

/-- `WriteMem`, likewise. -/
def writeMem (addr : BitVec 32) (size : Nat) (value : BitVec 32) : Mips Unit := fun m =>
  match m.writeMem addr.toInt size value.toInt with
  | none => .error (.crash .assertion) m
  | some (.error which) => .error (.raise which addr) m
  | some (.ok m') => .ok () m'

/-- `a / b` and `a % b` of two `int`s, on a host that traps when the quotient does not exist or
is no `int`. -/
def hostDiv (a b : BitVec 32) : Mips (BitVec 32 × BitVec 32) :=
  if b = 0#32 ∨ (a = 0x80000000#32 ∧ b = 0xffffffff#32) then throw (.crash .division)
  else pure (a.sdiv b, a.srem b)

/-- The same for `unsigned int`s. -/
def hostDivU (a b : BitVec 32) : Mips (BitVec 32 × BitVec 32) :=
  if b = 0#32 then throw (.crash .division) else pure (a / b, a % b)

end Mips

/-- `SIGN_BIT`. -/
def signBit : BitVec 32 := 0x80000000#32

/-- `R31`, which calls put their return address in. -/
def r31 : Nat := 31

/-- `IndexToAddr`. -/
def indexToAddr (x : BitVec 32) : BitVec 32 := x <<< 2

/-! ## Multiplication -/

/-- The loop of `Mult`: the bits of `a` one at a time, and `b` shifted along with them. -/
def multLoop : Nat → BitVec 32 → BitVec 32 → BitVec 32 → BitVec 32 → BitVec 32 →
    BitVec 32 × BitVec 32
  | 0, _, _, _, hi, lo => (hi, lo)
  | n + 1, a, bHi, bLo, hi, lo =>
      let odd := a &&& 1#32 ≠ 0#32
      let lo' := if odd then lo + bLo else lo
      -- the low word is below what was added to it when there was a carry
      let hi' := if odd then (if lo' < bLo then hi + 1#32 else hi) + bHi else hi
      if odd ∧ a &&& 0xfffffffe#32 = 0#32 then (hi', lo')
      else
        multLoop n (a.sshiftRight 1)
          ((bHi <<< 1) ||| (if bLo &&& 0x80000000#32 ≠ 0#32 then 1#32 else 0#32))
          (bLo <<< 1) hi' lo'

/-- `Mult`: the high and the low word of the product. -/
def mult (a b : BitVec 32) (signedArith : Bool) : BitVec 32 × BitVec 32 :=
  if a = 0#32 ∨ b = 0#32 then (0#32, 0#32)
  else
    let negA := signedArith && a.slt 0#32
    let negB := signedArith && b.slt 0#32
    let a := if negA then -a else a
    let b := if negB then -b else b
    let (hi, lo) := multLoop 32 a 0#32 b 0#32 0#32
    if negA != negB then
      -- the product is negative: both words are complemented, with the carry between them
      let lo := ~~~lo + 1#32
      (if lo = 0#32 then ~~~hi + 1#32 else ~~~hi, lo)
    else (hi, lo)

/-! ## Executing an instruction -/

/-- What an instruction leaves for the end of `OneInstruction`. -/
structure Next where
  pcAfter : BitVec 32
  nextLoadReg : Fin numGPRegs
  nextLoadValue : BitVec 32
  deriving DecidableEq, Repr

/-- No load is started. -/
def Next.at (pcAfter : BitVec 32) : Next := ⟨pcAfter, 0, 0#32⟩

namespace Instruction

open Mips

variable (i : Instruction) (pcAfter : BitVec 32)

/-- `registers[rd] = f(registers[rs], registers[rt])`. -/
def toRd (f : BitVec 32 → BitVec 32 → BitVec 32) : Mips Next := do
  let rs ← reg i.rs
  let rt ← reg i.rt
  setReg i.rd (f rs rt)
  return .at pcAfter

/-- `registers[rd] = f(registers[rt])`. -/
def shifted (f : BitVec 32 → BitVec 32) : Mips Next := do
  let rt ← reg i.rt
  setReg i.rd (f rt)
  return .at pcAfter

/-- `registers[rt] = f(registers[rs])`. -/
def toRt (f : BitVec 32 → BitVec 32) : Mips Next := do
  let rs ← reg i.rs
  setReg i.rt (f rs)
  return .at pcAfter

/-- The operands have one sign and the sum has the other. `op` is the operand that the sum is
compared with. -/
def addOverflows (a b op sum : BitVec 32) : Bool :=
  ((a ^^^ b) &&& signBit) == 0#32 && ((op ^^^ sum) &&& signBit) != 0#32

/-- `ADD`. On overflow nothing is written. -/
def add : Mips Next := do
  let rs ← reg i.rs
  let rt ← reg i.rt
  let sum := rs + rt
  if addOverflows rs rt rs sum then raise .overflowException 0#32
  else
    setReg i.rd sum
    return .at pcAfter

/-- `ADDI`, which compares the sum with its immediate operand. -/
def addi : Mips Next := do
  let rs ← reg i.rs
  let sum := rs + i.extra
  if addOverflows rs i.extra i.extra sum then raise .overflowException 0#32
  else
    setReg i.rt sum
    return .at pcAfter

/-- `SUB`. -/
def sub : Mips Next := do
  let rs ← reg i.rs
  let rt ← reg i.rt
  let diff := rs - rt
  if ((rs ^^^ rt) &&& signBit) != 0#32 && ((rs ^^^ diff) &&& signBit) != 0#32 then
    raise .overflowException 0#32
  else
    setReg i.rd diff
    return .at pcAfter

/-- `pcAfter = registers[NextPCReg] + IndexToAddr(extra)` when the branch is taken. -/
def branch (taken : Bool) : Mips Next := do
  if taken then
    let nextPC ← reg nextPCReg
    return .at (nextPC + indexToAddr i.extra)
  else return .at pcAfter

/-- `BEQ` and `BNE`. -/
def branchTwo (c : BitVec 32 → BitVec 32 → Bool) : Mips Next := do
  let rs ← reg i.rs
  let rt ← reg i.rt
  i.branch pcAfter (c rs rt)

/-- The branches that compare one register with zero. -/
def branchOne (c : BitVec 32 → Bool) : Mips Next := do
  let rs ← reg i.rs
  i.branch pcAfter (c rs)

/-- `registers[num] = registers[NextPCReg] + 4`. -/
def link (num : Nat) : Mips Unit := do
  let nextPC ← reg nextPCReg
  setReg num (nextPC + 4#32)

/-- The jump that `J` makes, and `JAL` after it has linked. -/
def jump : Next := .at ((pcAfter &&& 0xf0000000#32) ||| indexToAddr i.extra)

/-- `JR`, and `JALR` after it has linked. -/
def jumpReg : Mips Next := do
  let rs ← reg i.rs
  return .at rs

/-- The two halves of a result go to `LO` and `HI`. -/
def setHiLo (hi lo : BitVec 32) : Mips Unit := do
  setReg loReg lo
  setReg hiReg hi

/-- `DIV`. A zero divisor is not left to the host. -/
def div : Mips Next := do
  let rs ← reg i.rs
  let rt ← reg i.rt
  if rt = 0#32 then
    setHiLo 0#32 0#32
    return .at pcAfter
  else
    let q ← hostDiv rs rt
    setHiLo q.2 q.1
    return .at pcAfter

/-- `DIVU`. -/
def divu : Mips Next := do
  let rs ← reg i.rs
  let rt ← reg i.rt
  if rt = 0#32 then
    setHiLo 0#32 0#32
    return .at pcAfter
  else
    let q ← hostDivU rs rt
    setHiLo q.2 q.1
    return .at pcAfter

/-- `MULT` and `MULTU`. -/
def multiply (signedArith : Bool) : Mips Next := do
  let rs ← reg i.rs
  let rt ← reg i.rt
  let p := mult rs rt signedArith
  setHiLo p.1 p.2
  return .at pcAfter

/-- `MFHI` and `MFLO`. -/
def moveFrom (num : Nat) : Mips Next := do
  let value ← reg num
  setReg i.rd value
  return .at pcAfter

/-- `MTHI` and `MTLO`. -/
def moveTo (num : Nat) : Mips Next := do
  let rs ← reg i.rs
  setReg num rs
  return .at pcAfter

/-- `tmp`, the address of a load or a store. -/
def address : Mips (BitVec 32) := do
  let rs ← reg i.rs
  return rs + i.extra

/-- `LB` and `LBU`. -/
def loadByte (signed : Bool) : Mips Next := do
  let tmp ← i.address
  let value ← readMem tmp 1
  let value :=
    if value &&& 0x80#32 ≠ 0#32 ∧ signed then value ||| 0xffffff00#32 else value &&& 0xff#32
  return ⟨pcAfter, i.rt, value⟩

/-- `LH` and `LHU`. -/
def loadHalf (signed : Bool) : Mips Next := do
  let tmp ← i.address
  if tmp &&& 1#32 ≠ 0#32 then raise .addressErrorException tmp
  else
    let value ← readMem tmp 2
    let value :=
      if value &&& 0x8000#32 ≠ 0#32 ∧ signed then value ||| 0xffff0000#32 else value &&& 0xffff#32
    return ⟨pcAfter, i.rt, value⟩

/-- `LW`. -/
def loadWord : Mips Next := do
  let tmp ← i.address
  if tmp &&& 3#32 ≠ 0#32 then raise .addressErrorException tmp
  else
    let value ← readMem tmp 4
    return ⟨pcAfter, i.rt, value⟩

/-- What `LWL` and `LWR` merge into: the value that is on its way to the register, or the one in
it. -/
def loadTarget : Mips (BitVec 32) := do
  let pending ← reg loadReg
  if pending = BitVec.ofNat 32 i.rt then reg loadValueReg else reg i.rt

/-- The switch of `LWL`, over `3 - byte`. -/
def mergeLeft (which old value : BitVec 32) : BitVec 32 :=
  match which.toNat with
  | 0 => value
  | 1 => (old &&& 0xff#32) ||| (value <<< 8)
  | 2 => (old &&& 0xffff#32) ||| (value <<< 16)
  | 3 => (old &&& 0xffffff#32) ||| (value <<< 24)
  | _ => old

/-- The switch of `LWR`. -/
def mergeRight (which old value : BitVec 32) : BitVec 32 :=
  match which.toNat with
  | 0 => (old &&& 0xffffff00#32) ||| ((value.sshiftRight 24) &&& 0xff#32)
  | 1 => (old &&& 0xffff0000#32) ||| ((value.sshiftRight 16) &&& 0xffff#32)
  | 2 => (old &&& 0xff000000#32) ||| ((value.sshiftRight 8) &&& 0xffffff#32)
  | 3 => value
  | _ => old

/-- `LWL` and `LWR`, which read the aligned word around the address. -/
def loadUnaligned (merge : BitVec 32 → BitVec 32 → BitVec 32 → BitVec 32) : Mips Next := do
  let tmp ← i.address
  let byte := tmp &&& 3#32
  let value ← readMem (tmp - byte) 4
  let old ← i.loadTarget
  return ⟨pcAfter, i.rt, merge (3#32 - byte) old value⟩

/-- `SB`, `SH` and `SW`. -/
def store (size : Nat) : Mips Next := do
  let tmp ← i.address
  let rt ← reg i.rt
  writeMem tmp size rt
  return .at pcAfter

/-- The switch of `SWL`, over `3 - byte`. -/
def storeLeft (which rt value : BitVec 32) : BitVec 32 :=
  match which.toNat with
  | 0 => rt
  | 1 => (value &&& 0xff000000#32) ||| ((rt.sshiftRight 8) &&& 0xffffff#32)
  | 2 => (value &&& 0xffff0000#32) ||| ((rt.sshiftRight 16) &&& 0xffff#32)
  | 3 => (value &&& 0xffffff00#32) ||| ((rt.sshiftRight 24) &&& 0xff#32)
  | _ => value

/-- The switch of `SWR`. -/
def storeRight (which rt value : BitVec 32) : BitVec 32 :=
  match which.toNat with
  | 0 => (value &&& 0xffffff#32) ||| (rt <<< 24)
  | 1 => (value &&& 0xffff#32) ||| (rt <<< 16)
  | 2 => (value &&& 0xff#32) ||| (rt <<< 8)
  | 3 => rt
  | _ => value

/-- `SWL` and `SWR`, which read the aligned word around the address and write it back. -/
def storeUnaligned (merge : BitVec 32 → BitVec 32 → BitVec 32 → BitVec 32) : Mips Next := do
  let tmp ← i.address
  let byte := tmp &&& 3#32
  let value ← readMem (tmp - byte) 4
  let rt ← reg i.rt
  writeMem (tmp - byte) 4 (merge (3#32 - byte) rt value)
  return .at pcAfter

/-- `1` or `0`, for the comparisons. -/
def flag (b : Bool) : BitVec 32 := if b then 1#32 else 0#32

/-- The switch of `OneInstruction`. -/
def execute : Mips Next :=
  match i.opCode with
  | .add => i.add pcAfter
  | .addi => i.addi pcAfter
  | .addiu => i.toRt pcAfter fun rs => rs + i.extra
  | .addu => i.toRd pcAfter fun rs rt => rs + rt
  | .and => i.toRd pcAfter fun rs rt => rs &&& rt
  | .andi => i.toRt pcAfter fun rs => rs &&& (i.extra &&& 0xffff#32)
  | .beq => i.branchTwo pcAfter fun rs rt => rs == rt
  | .bgezal => do
      link r31
      i.branchOne pcAfter fun rs => rs &&& signBit == 0#32
  | .bgez => i.branchOne pcAfter fun rs => rs &&& signBit == 0#32
  | .bgtz => i.branchOne pcAfter fun rs => (0#32).slt rs
  | .blez => i.branchOne pcAfter fun rs => rs.sle 0#32
  | .bltzal => do
      link r31
      i.branchOne pcAfter fun rs => rs &&& signBit != 0#32
  | .bltz => i.branchOne pcAfter fun rs => rs &&& signBit != 0#32
  | .bne => i.branchTwo pcAfter fun rs rt => rs != rt
  | .div => i.div pcAfter
  | .divu => i.divu pcAfter
  | .jal => do
      link r31
      return i.jump pcAfter
  | .j => return i.jump pcAfter
  | .jalr => do
      link i.rd
      i.jumpReg
  | .jr => i.jumpReg
  | .lb => i.loadByte pcAfter true
  | .lbu => i.loadByte pcAfter false
  | .lh => i.loadHalf pcAfter true
  | .lhu => i.loadHalf pcAfter false
  | .lui => do
      setReg i.rt (i.extra <<< 16)
      return .at pcAfter
  | .lw => i.loadWord pcAfter
  | .lwl => i.loadUnaligned pcAfter mergeLeft
  | .lwr => i.loadUnaligned pcAfter mergeRight
  | .mfhi => i.moveFrom pcAfter hiReg
  | .mflo => i.moveFrom pcAfter loReg
  | .mthi => i.moveTo pcAfter hiReg
  | .mtlo => i.moveTo pcAfter loReg
  | .mult => i.multiply pcAfter true
  | .multu => i.multiply pcAfter false
  | .nor => i.toRd pcAfter fun rs rt => ~~~(rs ||| rt)
  | .or => i.toRd pcAfter fun rs rt => rs ||| rt
  | .ori => i.toRt pcAfter fun rs => rs ||| (i.extra &&& 0xffff#32)
  | .sb => i.store pcAfter 1
  | .sh => i.store pcAfter 2
  | .sll => i.shifted pcAfter fun rt => rt <<< i.extra
  | .sllv => i.toRd pcAfter fun rs rt => rt <<< (rs &&& 0x1f#32)
  | .slt => i.toRd pcAfter fun rs rt => flag (rs.slt rt)
  | .slti => i.toRt pcAfter fun rs => flag (rs.slt i.extra)
  | .sltiu => i.toRt pcAfter fun rs => flag (rs.ult i.extra)
  | .sltu => i.toRd pcAfter fun rs rt => flag (rs.ult rt)
  | .sra => i.shifted pcAfter fun rt => rt.sshiftRight' i.extra
  | .srav => i.toRd pcAfter fun rs rt => rt.sshiftRight' (rs &&& 0x1f#32)
  -- `tmp` is an `int` here, too
  | .srl => i.shifted pcAfter fun rt => rt.sshiftRight' i.extra
  | .srlv => i.toRd pcAfter fun rs rt => rt.sshiftRight' (rs &&& 0x1f#32)
  | .sub => i.sub pcAfter
  | .subu => i.toRd pcAfter fun rs rt => rs - rt
  | .sw => i.store pcAfter 4
  | .swl => i.storeUnaligned pcAfter storeLeft
  | .swr => i.storeUnaligned pcAfter storeRight
  | .syscall => raise .syscallException 0#32
  | .xor => i.toRd pcAfter fun rs rt => rs ^^^ rt
  | .xori => i.toRt pcAfter fun rs => rs ^^^ (i.extra &&& 0xffff#32)
  | .res => raise .illegalInstrException 0#32
  | .unimp => raise .illegalInstrException 0#32
  -- `default: ASSERT(FALSE)`
  | .rfe => throw (.crash .assertion)
  | .special => throw (.crash .assertion)
  | .bcond => throw (.crash .assertion)

end Instruction

/-! ## One instruction -/

namespace Machine

/-- `DelayedLoad`. -/
def delayedLoad (m : Machine) (nextReg nextValue : BitVec 32) : Machine :=
  let m := m.writeRegister (m.registers loadReg).toNat (m.registers loadValueReg)
  let m := m.writeRegister loadReg nextReg
  let m := m.writeRegister loadValueReg nextValue
  m.writeRegister 0 0#32

end Machine

namespace Mips

/-- `DelayedLoad`, whose target comes from a register. -/
def delayedLoad (nextReg nextValue : BitVec 32) : Mips Unit := fun m =>
  if (m.registers loadReg).toNat < numTotalRegs then .ok () (m.delayedLoad nextReg nextValue)
  else .error (.crash .overrun) m

/-- The fetch, and `Decode`. -/
def fetch : Mips Instruction := do
  let pc ← reg pcReg
  let raw ← readMem pc 4
  return Instruction.decode raw

/-- The end of `OneInstruction`. -/
def advance (next : Next) : Mips Unit := do
  delayedLoad (BitVec.ofNat 32 next.nextLoadReg) next.nextLoadValue
  let pc ← reg pcReg
  setReg prevPCReg pc
  let nextPC ← reg nextPCReg
  setReg pcReg nextPC
  setReg nextPCReg next.pcAfter

/-- `OneInstruction`, as far as it gets. -/
def oneInstruction : Mips Unit := do
  let i ← fetch
  let nextPC ← reg nextPCReg
  let next ← i.execute (nextPC + 4#32)
  advance next

end Mips

namespace Machine

/-- `RaiseException`, as far as the call of `ExceptionHandler`. -/
def raiseException (badVAddr : BitVec 32) : Mips Unit := do
  Mips.setReg badVAddrReg badVAddr
  Mips.delayedLoad 0#32 0#32

/-- How `OneInstruction` ends. -/
inductive Outcome where
  /-- The instruction has been executed. -/
  | completed (m : Machine)
  /-- `ExceptionHandler(which)` is entered, with the machine in this state. -/
  | raised (which : ExceptionType) (m : Machine)
  /-- The simulator fails. -/
  | crashed (why : Crash)

/-- What becomes of an instruction that has stopped. -/
def conclude : EStateM.Result Halt Machine Unit → Outcome
  | .ok () m => .completed m
  | .error (.crash why) _ => .crashed why
  | .error (.raise which badVAddr) m =>
      match raiseException badVAddr m with
      | .ok () m' => .raised which m'
      | .error _ _ => .crashed .overrun

/-- `OneInstruction`. -/
def oneInstruction (m : Machine) : Outcome := conclude (Mips.oneInstruction m)

end Machine

end Nachos
