import Nachos.Base.Bytes
import Nachos.Machine.MipsSim

/-!
# What one instruction can do

Every case of the switch looks at registers and memory first, may raise an exception there,
and writes last. From this shape, `AtomicAt` of `Base.Program`, most follows: an exception
finds the machine as it was, the registers from `PCReg` on are written at the end of
`OneInstruction` only, and no register number leaves the array, because a decoded one has five
bits.

Two kinds of cases need a second look. `ADD`, `ADDI` and `SUB` detect an overflow from sign
bits, and the tests are compared with the sums and differences of the integers. `DIV` keeps the
host from dividing by zero, but there is a second division that a host has no result for.
-/

namespace Nachos

open Base (upd AtomicAt Calm SafeAt bind_ok bind_eq_of_ok bind_eq_of_error)

/-! ## What an instruction finds -/

namespace Machine

/-- What the user program sees of the machine. -/
structure View where
  registers : Nat → BitVec 32
  memory : Memory
  /-- The entries of the page table, without the bits that record accesses. -/
  pages : Nat → Bool × Bool × Int
  size : Nat

/-- The view of the user program. -/
def user (m : Machine) : View where
  registers := m.registers
  memory := m.mainMemory
  pages := fun v =>
    ((m.pageTable v).valid, (m.pageTable v).readOnly, (m.pageTable v).physicalPage)
  size := m.pageTableSize

/-- The registers from `PCReg` on. -/
def upper (u : View) : Nat → BitVec 32 := fun n => u.registers (pcReg + n)

theorem user_touch (m : Machine) (vpn : Nat) (w : Bool) : (m.touch vpn w).user = m.user := by
  have hmap := sameMap_touch m vpn w
  unfold user
  simp only [hmap.valid, hmap.readOnly, hmap.physicalPage]
  rfl

theorem translate_user {m m' : Machine} {addr : Int} {size p : Nat} {w : Bool}
    (h : m.translate addr size w = some (.ok (p, m'))) : m'.user = m.user := by
  rw [translate_machine h, user_touch]

theorem sameMap_of_user {m m' : Machine} (h : m'.user = m.user) : SameMap m m' where
  size := congrArg View.size h
  valid := fun v => congrArg Prod.fst (congrFun (congrArg View.pages h) v)
  readOnly := fun v => congrArg (·.2.1) (congrFun (congrArg View.pages h) v)
  physicalPage := fun v => congrArg (·.2.2) (congrFun (congrArg View.pages h) v)

end Machine

/-! ## The primitives -/

/-- An exception other than an overflow. -/
def Faults : Halt → Prop
  | .raise which _ => which ≠ .overflowException
  | .crash _ => False

/-- An exception. -/
def Raises : Halt → Prop
  | .raise _ _ => True
  | .crash _ => False

theorem Faults.raises : ∀ e, Faults e → Raises e := by
  intro e h
  cases e with
  | raise which bad => trivial
  | crash why => exact h

theorem gp_lt (r : Fin numGPRegs) : (r : Nat) < numTotalRegs :=
  Nat.lt_trans r.isLt (by decide)

theorem gp_lt_pc (r : Fin numGPRegs) : (r : Nat) < pcReg := Nat.lt_trans r.isLt (by decide)

namespace Mips

open Machine

variable {m : Machine} {E : Halt → Prop}

theorem reg_eq {num : Nat} (h : num < numTotalRegs) : reg num m = .ok (m.registers num) m :=
  if_pos h

theorem setReg_eq {num : Nat} (h : num < numTotalRegs) (v : BitVec 32) :
    setReg num v m = .ok () (m.writeRegister num v) :=
  if_pos h

theorem safe_reg {num : Nat} (h : num < numTotalRegs) : SafeAt user E (reg num) m :=
  .of_ok (reg_eq h) rfl

theorem calm_reg {num : Nat} (h : num < numTotalRegs) :
    Calm (fun m : Machine => upper m.user) (reg num) :=
  fun _ => ⟨_, _, reg_eq h, rfl⟩

/-- A general register, `HI` or `LO` is written. -/
theorem calm_setReg {num : Nat} (h : num < pcReg) (v : BitVec 32) :
    Calm (fun m : Machine => upper m.user) (setReg num v) := by
  intro m
  refine ⟨(), _, setReg_eq (Nat.lt_trans h (by decide)) v, ?_⟩
  funext n
  show upd m.registers num v (pcReg + n) = m.registers (pcReg + n)
  exact Base.upd_ne _ _ (by omega)

/-- **A read looks only**, and may raise. -/
theorem safe_readMem (addr : BitVec 32) {size : Nat} (hs : IsSize size) :
    SafeAt user Faults (readMem addr size) m := by
  cases ht : m.translate addr.toInt size false with
  | none => exact absurd ht (translate_ne_none m _ hs _)
  | some r =>
      cases r with
      | error which =>
          have hr : readMem addr size m = .error (.raise which addr) m := by
            unfold readMem Machine.readMem
            rw [ht]
            rfl
          exact .of_error hr rfl (translate_error_ne ht).1
      | ok p =>
          have hr : readMem addr size m =
              .ok (BitVec.ofInt 32 (valueAt p.2.mainMemory p.1 size)) p.2 := by
            unfold readMem Machine.readMem
            rw [ht]
            rfl
          exact .of_ok hr (translate_user (p := p.1) (w := false) ht)

/-- **A write raises or changes memory**, and no register either way. -/
theorem atomic_writeMem (addr : BitVec 32) {size : Nat} (hs : IsSize size) (v : BitVec 32) :
    AtomicAt user upper Faults (writeMem addr size v) m := by
  cases ht : m.translate addr.toInt size true with
  | none => exact absurd ht (translate_ne_none m _ hs _)
  | some r =>
      cases r with
      | error which =>
          have hr : writeMem addr size v m = .error (.raise which addr) m := by
            unfold writeMem Machine.writeMem
            rw [ht]
            rfl
          exact .of_error hr rfl (translate_error_ne ht).1
      | ok p =>
          have hr : writeMem addr size v m = .ok () { p.2 with
              mainMemory := putBytes p.2.mainMemory p.1 size (toUInt32 v.toInt) } := by
            unfold writeMem Machine.writeMem
            rw [ht]
            rfl
          refine .of_ok hr ?_
          have hreg : p.2.registers = m.registers := translate_registers (p := p.1) ht
          funext n
          exact congrFun hreg _

end Mips

/-! ## The cases of the switch -/

namespace Instruction

open Mips Machine

variable (i : Instruction) (pcAfter : BitVec 32) {m : Machine}

/-- A register below `PCReg` is written, and nothing is raised after that. -/
theorem calm_write {num : Nat} (h : num < pcReg) (v : BitVec 32) (next : Next) :
    Calm (fun m : Machine => upper m.user) (do setReg num v; return next) :=
  (calm_setReg h v).bind fun _ => .pure _ _

theorem atomic_toRd (f : BitVec 32 → BitVec 32 → BitVec 32) :
    AtomicAt user upper Faults (i.toRd pcAfter f) m := by
  refine (safe_reg (gp_lt i.rs)).bind_atomic fun rs _ _ => ?_
  refine (safe_reg (gp_lt i.rt)).bind_atomic fun rt _ _ => ?_
  exact (calm_write (gp_lt_pc i.rd) _ _).atomicAt

theorem atomic_shifted (f : BitVec 32 → BitVec 32) :
    AtomicAt user upper Faults (i.shifted pcAfter f) m := by
  refine (safe_reg (gp_lt i.rt)).bind_atomic fun rt _ _ => ?_
  exact (calm_write (gp_lt_pc i.rd) _ _).atomicAt

theorem atomic_toRt (f : BitVec 32 → BitVec 32) :
    AtomicAt user upper Faults (i.toRt pcAfter f) m := by
  refine (safe_reg (gp_lt i.rs)).bind_atomic fun rs _ _ => ?_
  exact (calm_write (gp_lt_pc i.rt) _ _).atomicAt

theorem calm_branch (taken : Bool) :
    Calm (fun m : Machine => upper m.user) (i.branch pcAfter taken) :=
  .ite ((calm_reg (by decide)).bind fun _ => .pure _ _) (.pure _ _)

theorem calm_branchOne (c : BitVec 32 → Bool) :
    Calm (fun m : Machine => upper m.user) (i.branchOne pcAfter c) :=
  (calm_reg (gp_lt i.rs)).bind fun _ => i.calm_branch pcAfter _

theorem calm_branchTwo (c : BitVec 32 → BitVec 32 → Bool) :
    Calm (fun m : Machine => upper m.user) (i.branchTwo pcAfter c) :=
  (calm_reg (gp_lt i.rs)).bind fun _ =>
    (calm_reg (gp_lt i.rt)).bind fun _ => i.calm_branch pcAfter _

theorem calm_link {num : Nat} (h : num < pcReg) :
    Calm (fun m : Machine => upper m.user) (link num) :=
  (calm_reg (by decide)).bind fun _ => calm_setReg h _

theorem calm_jumpReg : Calm (fun m : Machine => upper m.user) i.jumpReg :=
  (calm_reg (gp_lt i.rs)).bind fun _ => .pure _ _

theorem calm_setHiLo (hi lo : BitVec 32) : Calm (fun m : Machine => upper m.user) (setHiLo hi lo) :=
  (calm_setReg (by decide) lo).bind fun _ => calm_setReg (by decide) hi

theorem calm_divide (hi lo : BitVec 32) :
    Calm (fun m : Machine => upper m.user) (do setHiLo hi lo; return Next.at pcAfter) :=
  (calm_setHiLo hi lo).bind fun _ => .pure _ _

theorem calm_multiply (signedArith : Bool) :
    Calm (fun m : Machine => upper m.user) (i.multiply pcAfter signedArith) :=
  (calm_reg (gp_lt i.rs)).bind fun _ =>
    (calm_reg (gp_lt i.rt)).bind fun _ => calm_divide pcAfter _ _

theorem calm_divu : Calm (fun m : Machine => upper m.user) (i.divu pcAfter) := by
  refine (calm_reg (gp_lt i.rs)).bind fun rs => ?_
  refine (calm_reg (gp_lt i.rt)).bind fun rt => ?_
  by_cases hrt : rt = 0#32
  · rw [if_pos hrt]
    exact calm_divide pcAfter _ _
  · rw [if_neg hrt, hostDivU, if_neg hrt]
    exact (Calm.pure _ _).bind fun _ => calm_divide pcAfter _ _

theorem calm_moveFrom {num : Nat} (h : num < numTotalRegs) :
    Calm (fun m : Machine => upper m.user) (i.moveFrom pcAfter num) :=
  (calm_reg h).bind fun _ => calm_write (gp_lt_pc i.rd) _ _

theorem calm_moveTo {num : Nat} (h : num < pcReg) :
    Calm (fun m : Machine => upper m.user) (i.moveTo pcAfter num) :=
  (calm_reg (gp_lt i.rs)).bind fun _ => calm_write h _ _

theorem safe_address {E : Halt → Prop} : SafeAt user E i.address m :=
  (safe_reg (gp_lt i.rs)).bind fun _ _ _ => .pure _

theorem safe_loadByte (signed : Bool) : SafeAt user Faults (i.loadByte pcAfter signed) m := by
  refine i.safe_address.bind fun tmp _ _ => ?_
  exact (safe_readMem tmp (Or.inl rfl)).bind fun _ _ _ => .pure _

theorem safe_raise {which : ExceptionType} {bad : BitVec 32} (h : which ≠ .overflowException) :
    SafeAt user Faults (raise which bad : Mips Next) m :=
  .of_error rfl rfl h

theorem safe_loadHalf (signed : Bool) : SafeAt user Faults (i.loadHalf pcAfter signed) m := by
  refine i.safe_address.bind fun tmp _ _ => ?_
  refine .ite (fun _ => safe_raise (by decide)) fun _ => ?_
  exact (safe_readMem tmp (Or.inr (Or.inl rfl))).bind fun _ _ _ => .pure _

theorem safe_loadWord : SafeAt user Faults (i.loadWord pcAfter) m := by
  refine i.safe_address.bind fun tmp _ _ => ?_
  refine .ite (fun _ => safe_raise (by decide)) fun _ => ?_
  exact (safe_readMem tmp (Or.inr (Or.inr rfl))).bind fun _ _ _ => .pure _

theorem safe_loadTarget {E : Halt → Prop} : SafeAt user E i.loadTarget m := by
  refine (safe_reg (by decide)).bind fun _ _ _ => ?_
  exact .ite (fun _ => safe_reg (by decide)) fun _ => safe_reg (gp_lt i.rt)

theorem safe_loadUnaligned (merge : BitVec 32 → BitVec 32 → BitVec 32 → BitVec 32) :
    SafeAt user Faults (i.loadUnaligned pcAfter merge) m := by
  refine i.safe_address.bind fun tmp _ _ => ?_
  refine (safe_readMem _ (Or.inr (Or.inr rfl))).bind fun value _ _ => ?_
  exact i.safe_loadTarget.bind fun _ _ _ => .pure _

theorem atomic_store {size : Nat} (hs : IsSize size) :
    AtomicAt user upper Faults (i.store pcAfter size) m := by
  refine i.safe_address.bind_atomic fun tmp _ _ => ?_
  refine (safe_reg (gp_lt i.rt)).bind_atomic fun rt _ _ => ?_
  exact (atomic_writeMem tmp hs rt).bind_calm fun _ => .pure _ _

/-- The word is read before it is written back: the second access can still fail. -/
theorem atomic_storeUnaligned (merge : BitVec 32 → BitVec 32 → BitVec 32 → BitVec 32) :
    AtomicAt user upper Faults (i.storeUnaligned pcAfter merge) m := by
  refine i.safe_address.bind_atomic fun tmp _ _ => ?_
  refine (safe_readMem _ (Or.inr (Or.inr rfl))).bind_atomic fun value _ _ => ?_
  refine (safe_reg (gp_lt i.rt)).bind_atomic fun rt _ _ => ?_
  exact (atomic_writeMem _ (Or.inr (Or.inr rfl)) _).bind_calm fun _ => .pure _ _

/-! ### The instructions that trap on overflow -/

/-- The numbers an `int` can hold. -/
def FitsInt (x : Int) : Prop := -2147483648 ≤ x ∧ x ≤ 2147483647

instance (x : Int) : Decidable (FitsInt x) := inferInstanceAs (Decidable (_ ∧ _))

theorem fitsInt_toInt (x : BitVec 32) : FitsInt x.toInt := by
  have h1 := BitVec.le_toInt x
  have h2 := BitVec.toInt_lt (x := x)
  simp at h1 h2
  exact ⟨by omega, by omega⟩

theorem signBit_and (x : BitVec 32) : (x &&& signBit == 0#32) = !x.msb := by
  rw [show signBit = BitVec.twoPow 32 31 from rfl, BitVec.and_twoPow, BitVec.msb_eq_getLsbD_last]
  cases x.getLsbD 31 <;> rfl

theorem signBit_and_ne (x : BitVec 32) : (x &&& signBit != 0#32) = x.msb := by
  rw [bne, signBit_and, Bool.not_not]

/-- A sum of two `int`s that is too large for one is off by `2^32`. -/
theorem toInt_add_cases (a b : BitVec 32) :
    (a + b).toInt = a.toInt + b.toInt ∨ (a + b).toInt = a.toInt + b.toInt - 4294967296 ∨
      (a + b).toInt = a.toInt + b.toInt + 4294967296 := by
  have ha := fitsInt_toInt a
  have hb := fitsInt_toInt b
  unfold FitsInt at ha hb
  rw [BitVec.toInt_add, Int.bmod_def]
  split <;> omega

theorem toInt_sub_cases (a b : BitVec 32) :
    (a - b).toInt = a.toInt - b.toInt ∨ (a - b).toInt = a.toInt - b.toInt - 4294967296 ∨
      (a - b).toInt = a.toInt - b.toInt + 4294967296 := by
  have ha := fitsInt_toInt a
  have hb := fitsInt_toInt b
  unfold FitsInt at ha hb
  rw [BitVec.toInt_sub, Int.bmod_def]
  split <;> omega

theorem msb_eq_neg (x : BitVec 32) : x.msb = decide (x.toInt < 0) := BitVec.msb_eq_toInt

/-- **The test of `ADD` and `ADDI` is exact**, whichever operand the sum is compared with. -/
theorem addOverflows_iff {a b op : BitVec 32} (hop : op = a ∨ op = b) :
    addOverflows a b op (a + b) = true ↔ ¬ FitsInt (a.toInt + b.toInt) := by
  have ha := fitsInt_toInt a
  have hb := fitsInt_toInt b
  have hs := fitsInt_toInt (a + b)
  have hsum := toInt_add_cases a b
  unfold addOverflows FitsInt at *
  rw [signBit_and, signBit_and_ne, BitVec.msb_xor, BitVec.msb_xor]
  simp only [msb_eq_neg, Bool.and_eq_true, Bool.not_eq_true', bne_iff_ne,
    ne_eq, decide_eq_decide, bne_eq_false_iff_eq]
  rcases hop with rfl | rfl
  · omega
  · omega

/-- **The test of `SUB` is exact.** -/
theorem subOverflows_iff (a b : BitVec 32) :
    (((a ^^^ b) &&& signBit) != 0#32 && ((a ^^^ (a - b)) &&& signBit) != 0#32) = true ↔
      ¬ FitsInt (a.toInt - b.toInt) := by
  have ha := fitsInt_toInt a
  have hb := fitsInt_toInt b
  have hs := fitsInt_toInt (a - b)
  have hdiff := toInt_sub_cases a b
  unfold FitsInt at *
  rw [signBit_and_ne, signBit_and_ne, BitVec.msb_xor, BitVec.msb_xor]
  simp only [msb_eq_neg, Bool.and_eq_true, bne_iff_ne, ne_eq, decide_eq_decide]
  omega

/-- The end of the three cases. -/
theorem checked_eq (overflows : Bool) {num : Nat} (h : num < numTotalRegs) (v : BitVec 32) :
    (if overflows then raise .overflowException 0#32
      else do setReg num v; return Next.at pcAfter : Mips Next) m =
      if overflows then .error (.raise .overflowException 0#32) m
      else .ok (.at pcAfter) (m.writeRegister num v) := by
  cases overflows with
  | true => rfl
  | false => exact bind_eq_of_ok (setReg_eq h v)

theorem add_eq : i.add pcAfter m =
    if addOverflows (m.registers i.rs) (m.registers i.rt) (m.registers i.rs)
        (m.registers i.rs + m.registers i.rt) then .error (.raise .overflowException 0#32) m
    else .ok (.at pcAfter) (m.writeRegister i.rd (m.registers i.rs + m.registers i.rt)) := by
  unfold add
  rw [bind_eq_of_ok (reg_eq (gp_lt i.rs)), bind_eq_of_ok (reg_eq (gp_lt i.rt))]
  exact checked_eq pcAfter _ (gp_lt i.rd) _

theorem addi_eq : i.addi pcAfter m =
    if addOverflows (m.registers i.rs) i.extra i.extra (m.registers i.rs + i.extra) then
      .error (.raise .overflowException 0#32) m
    else .ok (.at pcAfter) (m.writeRegister i.rt (m.registers i.rs + i.extra)) := by
  unfold addi
  rw [bind_eq_of_ok (reg_eq (gp_lt i.rs))]
  exact checked_eq pcAfter _ (gp_lt i.rt) _

theorem sub_eq : i.sub pcAfter m =
    if ((m.registers i.rs ^^^ m.registers i.rt) &&& signBit) != 0#32 &&
        ((m.registers i.rs ^^^ (m.registers i.rs - m.registers i.rt)) &&& signBit) != 0#32 then
      .error (.raise .overflowException 0#32) m
    else .ok (.at pcAfter) (m.writeRegister i.rd (m.registers i.rs - m.registers i.rt)) := by
  unfold sub
  rw [bind_eq_of_ok (reg_eq (gp_lt i.rs)), bind_eq_of_ok (reg_eq (gp_lt i.rt))]
  exact checked_eq pcAfter _ (gp_lt i.rd) _

theorem atomic_checked {x : Mips Next} {c : Bool} {r : Fin numGPRegs} {v : BitVec 32}
    (hx : x m = if c then .error (.raise .overflowException 0#32) m
      else .ok (.at pcAfter) (m.writeRegister r v)) : AtomicAt user upper Raises x m := by
  cases c with
  | true => exact .of_error hx rfl trivial
  | false =>
      refine .of_ok hx ?_
      obtain ⟨_, _, hw, hu⟩ := calm_setReg (gp_lt_pc r) v m
      rw [setReg_eq (gp_lt r)] at hw
      injection hw with _ hw
      rw [hw]
      exact hu

/-- The three instructions that trap on overflow, with operands that make them. -/
def Overflows (m : Machine) : Prop :=
  (i.opCode = .add ∧ ¬ FitsInt ((m.registers i.rs).toInt + (m.registers i.rt).toInt)) ∨
  (i.opCode = .addi ∧ ¬ FitsInt ((m.registers i.rs).toInt + i.extra.toInt)) ∨
  (i.opCode = .sub ∧ ¬ FitsInt ((m.registers i.rs).toInt - (m.registers i.rt).toInt))

/-! ### The division -/

/-- The division whose quotient is no `int`. -/
def Traps (m : Machine) : Prop :=
  i.opCode = .div ∧ m.registers i.rs = 0x80000000#32 ∧ m.registers i.rt = 0xffffffff#32

theorem div_eq : i.div pcAfter m =
    (if m.registers i.rt = 0#32 then do setHiLo 0#32 0#32; return Next.at pcAfter
      else do
        let q ← hostDiv (m.registers i.rs) (m.registers i.rt)
        setHiLo q.2 q.1
        return Next.at pcAfter : Mips Next) m := by
  unfold div
  rw [bind_eq_of_ok (reg_eq (gp_lt i.rs)), bind_eq_of_ok (reg_eq (gp_lt i.rt))]

theorem atomic_div
    (h : ¬ (m.registers i.rs = 0x80000000#32 ∧ m.registers i.rt = 0xffffffff#32)) :
    AtomicAt user upper Faults (i.div pcAfter) m := by
  unfold AtomicAt
  rw [div_eq]
  by_cases hrt : m.registers i.rt = 0#32
  · rw [if_pos hrt]
    exact (calm_divide pcAfter _ _).atomicAt (E := Faults)
  · rw [if_neg hrt, hostDiv, if_neg (by simp only [hrt, false_or]; exact h)]
    exact ((Calm.pure _ _).bind fun _ => calm_divide pcAfter _ _).atomicAt (E := Faults)

theorem div_traps (h : m.registers i.rs = 0x80000000#32 ∧ m.registers i.rt = 0xffffffff#32) :
    i.div pcAfter m = .error (.crash .division) m := by
  rw [div_eq, if_neg (by rw [h.2]; decide), hostDiv, if_pos (Or.inr h)]
  rfl

/-! ### All cases -/

/-- The codes that the switch has a case for. -/
def Listed (op : OpCode) : Prop := op ≠ .rfe ∧ op ≠ .special ∧ op ≠ .bcond

/-- **All cases but four raise only faults, and nothing after they have written.** -/
theorem execute_plain (hl : Listed i.opCode) (hadd : i.opCode ≠ .add) (haddi : i.opCode ≠ .addi)
    (hsub : i.opCode ≠ .sub) (hdiv : i.opCode ≠ .div) :
    AtomicAt user upper Faults (i.execute pcAfter) m := by
  unfold execute
  cases hop : i.opCode with
  | add => exact absurd hop hadd
  | addi => exact absurd hop haddi
  | sub => exact absurd hop hsub
  | div => exact absurd hop hdiv
  | rfe => exact absurd hop hl.1
  | special => exact absurd hop hl.2.1
  | bcond => exact absurd hop hl.2.2
  | addu | and | nor | or | sllv | slt | sltu | srav | srlv | subu | xor =>
      exact i.atomic_toRd pcAfter _
  | sll | sra | srl => exact i.atomic_shifted pcAfter _
  | addiu | andi | ori | slti | sltiu | xori => exact i.atomic_toRt pcAfter _
  | lui => exact (calm_write (gp_lt_pc i.rt) _ _).atomicAt
  | beq | bne => exact (i.calm_branchTwo pcAfter _).atomicAt
  | bgez | bgtz | blez | bltz => exact (i.calm_branchOne pcAfter _).atomicAt
  | bgezal | bltzal =>
      exact ((calm_link (by decide)).bind fun _ => i.calm_branchOne pcAfter _).atomicAt
  | divu => exact (i.calm_divu pcAfter).atomicAt
  | j => exact (Calm.pure _ _).atomicAt
  | jal => exact ((calm_link (by decide)).bind fun _ => .pure _ _).atomicAt
  | jalr => exact ((calm_link (gp_lt_pc i.rd)).bind fun _ => i.calm_jumpReg).atomicAt
  | jr => exact i.calm_jumpReg.atomicAt
  | lb | lbu => exact (i.safe_loadByte pcAfter _).atomicAt
  | lh | lhu => exact (i.safe_loadHalf pcAfter _).atomicAt
  | lw => exact (i.safe_loadWord pcAfter).atomicAt
  | lwl | lwr => exact (i.safe_loadUnaligned pcAfter _).atomicAt
  | mfhi | mflo => exact (i.calm_moveFrom pcAfter (by decide)).atomicAt
  | mthi | mtlo => exact (i.calm_moveTo pcAfter (by decide)).atomicAt
  | mult | multu => exact (i.calm_multiply pcAfter _).atomicAt
  | sb => exact i.atomic_store pcAfter (Or.inl rfl)
  | sh => exact i.atomic_store pcAfter (Or.inr (Or.inl rfl))
  | sw => exact i.atomic_store pcAfter (Or.inr (Or.inr rfl))
  | swl | swr => exact i.atomic_storeUnaligned pcAfter _
  | syscall | res | unimp => exact (safe_raise (by decide)).atomicAt

/-- **An instruction raises before it has changed anything**, and the simulator does not fail unless
a quotient is too large. -/
theorem execute_atomic (hl : Listed i.opCode) (ht : ¬ i.Traps m) :
    AtomicAt user upper Raises (i.execute pcAfter) m := by
  by_cases hadd : i.opCode = .add
  · unfold execute
    rw [hadd]
    exact atomic_checked pcAfter (i.add_eq pcAfter)
  by_cases haddi : i.opCode = .addi
  · unfold execute
    rw [haddi]
    exact atomic_checked pcAfter (i.addi_eq pcAfter)
  by_cases hsub : i.opCode = .sub
  · unfold execute
    rw [hsub]
    exact atomic_checked pcAfter (i.sub_eq pcAfter)
  by_cases hdiv : i.opCode = .div
  · unfold execute
    rw [hdiv]
    exact (i.atomic_div pcAfter fun h => ht ⟨hdiv, h⟩).mono Faults.raises
  · exact (i.execute_plain pcAfter hl hadd haddi hsub hdiv).mono Faults.raises

theorem execute_traps (ht : i.Traps m) : i.execute pcAfter m = .error (.crash .division) m := by
  unfold execute
  rw [ht.1]
  exact i.div_traps pcAfter ht.2

/-- It raises an overflow. -/
def RaisesOverflow {α : Type} (r : EStateM.Result Halt Machine α) : Prop :=
  ∃ bad t, r = .error (.raise .overflowException bad) t

theorem raisesOverflow_checked {c : Bool} {t : Machine} :
    RaisesOverflow (if c then .error (.raise .overflowException 0#32) m
      else .ok (Next.at pcAfter) t) ↔ c = true := by
  cases c with
  | true => exact iff_of_true ⟨_, _, rfl⟩ rfl
  | false =>
      refine iff_of_false ?_ (by simp)
      rintro ⟨_, _, h⟩
      exact absurd h (by simp)

theorem not_raisesOverflow {x : Mips Next} (hx : AtomicAt user upper Faults x m) :
    ¬ RaisesOverflow (x m) := by
  rintro ⟨bad, t, h⟩
  exact (hx.error h).2 rfl

/-- **An overflow is raised exactly when the exact result is no `int`.** -/
theorem execute_overflow_iff (hl : Listed i.opCode) :
    RaisesOverflow (i.execute pcAfter m) ↔ i.Overflows m := by
  unfold Overflows
  by_cases hadd : i.opCode = .add
  · have hx : i.execute pcAfter = i.add pcAfter := by unfold execute; rw [hadd]
    rw [hx, add_eq, raisesOverflow_checked, addOverflows_iff (Or.inl rfl)]
    simp only [hadd, true_and, reduceCtorEq, false_and, or_false]
  by_cases haddi : i.opCode = .addi
  · have hx : i.execute pcAfter = i.addi pcAfter := by unfold execute; rw [haddi]
    rw [hx, addi_eq, raisesOverflow_checked, addOverflows_iff (Or.inr rfl)]
    simp only [haddi, true_and, reduceCtorEq, false_and, or_false, false_or]
  by_cases hsub : i.opCode = .sub
  · have hx : i.execute pcAfter = i.sub pcAfter := by unfold execute; rw [hsub]
    rw [hx, sub_eq, raisesOverflow_checked, subOverflows_iff]
    simp only [hsub, true_and, reduceCtorEq, false_and, false_or]
  simp only [hadd, haddi, hsub, false_and, or_false, iff_false]
  by_cases hdiv : i.opCode = .div
  · by_cases ht : i.Traps m
    · rw [i.execute_traps pcAfter ht]
      rintro ⟨_, _, h⟩
      exact absurd h (by simp)
    · unfold execute
      rw [hdiv]
      exact not_raisesOverflow (i.atomic_div pcAfter fun h => ht ⟨hdiv, h⟩)
  · exact not_raisesOverflow (i.execute_plain pcAfter hl hadd haddi hsub hdiv)

theorem listed_specialTable : ∀ op ∈ specialTable, Listed op := by
  unfold Listed
  decide

theorem listed_opTable : ∀ info ∈ opTable, info.opCode ≠ .rfe := by decide

theorem listed_bcond (value : BitVec 32) : Listed (bcond value) := by
  unfold bcond Listed
  dsimp only
  split_ifs <;> decide

/-- **`Decode` leads to a case of the switch**, whatever the word. -/
theorem decode_listed (value : BitVec 32) : Listed (decode value).opCode := by
  show Listed (if (opInfo value).opCode = .special then special value
    else if (opInfo value).opCode = .bcond then bcond value else (opInfo value).opCode)
  split
  · exact listed_specialTable _ (List.get_mem _ _)
  · split
    · exact listed_bcond value
    · exact ⟨listed_opTable _ (List.get_mem _ _), ‹_›, ‹_›⟩

end Instruction

/-! ## One instruction -/

namespace Machine

open Mips Instruction

/-- The instruction that the machine is about to execute, if it can be fetched. -/
def fetched (m : Machine) : Option Instruction :=
  match Mips.fetch m with
  | .ok i _ => some i
  | .error _ _ => none

/-- On entry to the handler of an exception. -/
def trapped (m : Machine) (badVAddr : BitVec 32) : Machine :=
  (m.writeRegister badVAddrReg badVAddr).delayedLoad 0#32 0#32

/-- After an instruction. -/
def advanced (m : Machine) (next : Next) : Machine :=
  let m := m.delayedLoad (BitVec.ofNat 32 next.nextLoadReg) next.nextLoadValue
  let m := m.writeRegister prevPCReg (m.registers pcReg)
  let m := m.writeRegister pcReg (m.registers nextPCReg)
  m.writeRegister nextPCReg next.pcAfter

variable {m : Machine}

theorem raiseException_eq (h : (m.registers loadReg).toNat < numTotalRegs) (bad : BitVec 32) :
    raiseException bad m = .ok () (m.trapped bad) := by
  unfold raiseException
  rw [bind_eq_of_ok (setReg_eq (by decide) bad)]
  exact if_pos h

theorem conclude_raise (h : (m.registers loadReg).toNat < numTotalRegs) (which : ExceptionType)
    (bad : BitVec 32) : conclude (.error (.raise which bad) m) = .raised which (m.trapped bad) := by
  unfold conclude
  dsimp only
  rw [raiseException_eq h]

theorem advance_eq (h : (m.registers loadReg).toNat < numTotalRegs) (next : Next) :
    Mips.advance next m = .ok () (m.advanced next) := by
  unfold Mips.advance
  have hd : Mips.delayedLoad (BitVec.ofNat 32 next.nextLoadReg) next.nextLoadValue m =
      .ok () (m.delayedLoad (BitVec.ofNat 32 next.nextLoadReg) next.nextLoadValue) := if_pos h
  rw [bind_eq_of_ok hd, bind_eq_of_ok (reg_eq (by decide)),
    bind_eq_of_ok (setReg_eq (by decide) _), bind_eq_of_ok (reg_eq (by decide)),
    bind_eq_of_ok (setReg_eq (by decide) _)]
  exact setReg_eq (by decide) _

theorem safe_fetch : SafeAt user Faults Mips.fetch m := by
  refine (safe_reg (by decide)).bind fun pc _ _ => ?_
  exact (safe_readMem pc (Or.inr (Or.inr rfl))).bind fun _ _ _ => .pure _

theorem fetch_listed {i : Instruction} {t : Machine} (h : Mips.fetch m = .ok i t) :
    Listed i.opCode := by
  obtain ⟨pc, t₁, _, h⟩ := bind_ok h
  obtain ⟨raw, t₂, _, h⟩ := bind_ok h
  injection h with h _
  rw [← h]
  exact decode_listed raw

/-- **All that `OneInstruction` can do.** -/
inductive Executes (m : Machine) : Outcome → Prop where
  /-- The fetch fails. -/
  | unfetched {which : ExceptionType} {bad : BitVec 32} {t : Machine} : m.fetched = none →
      t.user = m.user → which ≠ .overflowException → Executes m (.raised which (t.trapped bad))
  /-- The instruction raises an exception and has changed nothing. -/
  | raises {i : Instruction} {which : ExceptionType} {bad : BitVec 32} {t : Machine} :
      m.fetched = some i → t.user = m.user → (which = .overflowException ↔ i.Overflows m) →
      ¬ i.Traps m → Executes m (.raised which (t.trapped bad))
  /-- It gets to its end, where the registers from `PCReg` on are as they were. -/
  | completes {i : Instruction} {next : Next} {t : Machine} : m.fetched = some i →
      upper t.user = upper m.user → ¬ i.Overflows m → ¬ i.Traps m →
      Executes m (.completed (t.advanced next))
  /-- It divides what the host cannot divide. -/
  | traps {i : Instruction} : m.fetched = some i → i.Traps m → Executes m (.crashed .division)

theorem overflows_congr {t : Machine} (h : t.user = m.user) (i : Instruction) :
    i.Overflows t ↔ i.Overflows m := by
  have hr : t.registers = m.registers := congrArg View.registers h
  unfold Overflows
  rw [hr]

theorem traps_congr {t : Machine} (h : t.user = m.user) (i : Instruction) :
    i.Traps t ↔ i.Traps m := by
  have hr : t.registers = m.registers := congrArg View.registers h
  unfold Traps
  rw [hr]

theorem loadReg_of_upper {t : Machine} (h : upper t.user = upper m.user) :
    t.registers loadReg = m.registers loadReg := congrFun h 3

theorem executes (h : (m.registers loadReg).toNat < numTotalRegs) :
    Executes m m.oneInstruction := by
  unfold oneInstruction Mips.oneInstruction
  cases hf : Mips.fetch m with
  | error e t =>
      obtain ⟨hu, he⟩ := safe_fetch.error hf
      have hfetched : m.fetched = none := by unfold fetched; rw [hf]
      have hload : (t.registers loadReg).toNat < numTotalRegs := by
        rwa [loadReg_of_upper (congrArg upper hu)]
      rw [bind_eq_of_error hf]
      cases e with
      | crash why => exact absurd he id
      | raise which bad =>
          rw [conclude_raise hload]
          exact .unfetched hfetched hu he
  | ok i t =>
      have hu := safe_fetch.ok hf
      have hfetched : m.fetched = some i := by unfold fetched; rw [hf]
      have hlisted := fetch_listed hf
      rw [bind_eq_of_ok hf, bind_eq_of_ok (reg_eq (by decide))]
      by_cases htr : i.Traps t
      · rw [bind_eq_of_error (i.execute_traps _ htr)]
        exact .traps hfetched ((traps_congr hu i).mp htr)
      · have hatomic := i.execute_atomic (t.registers nextPCReg + 4#32) hlisted htr
        have hover := i.execute_overflow_iff (t.registers nextPCReg + 4#32) hlisted (m := t)
        have htr' := mt (traps_congr hu i).mpr htr
        cases hx : i.execute (t.registers nextPCReg + 4#32) t with
        | error e t' =>
            obtain ⟨hu', he⟩ := hatomic.error hx
            rw [bind_eq_of_error hx]
            cases e with
            | crash why => exact absurd he id
            | raise which bad =>
                have huser := hu'.trans hu
                have hload : (t'.registers loadReg).toNat < numTotalRegs := by
                  rwa [loadReg_of_upper (congrArg upper huser)]
                have hwhich : which = .overflowException ↔ i.Overflows m := by
                  rw [← overflows_congr hu, ← hover, hx]
                  constructor
                  · intro hw
                    exact ⟨bad, t', by rw [hw]⟩
                  · rintro ⟨_, _, hw⟩
                    injection hw with hw
                    injection hw
                rw [conclude_raise hload]
                exact .raises hfetched huser hwhich htr'
        | ok next t' =>
            have hupper : upper t'.user = upper m.user := (hatomic.ok hx).trans (congrArg upper hu)
            have hload : (t'.registers loadReg).toNat < numTotalRegs := by
              rwa [loadReg_of_upper hupper]
            have hno : ¬ i.Overflows m := by
              rw [← overflows_congr hu, ← hover, hx]
              rintro ⟨_, _, hw⟩
              exact absurd hw (by simp)
            rw [bind_eq_of_ok hx, advance_eq hload]
            exact .completes hfetched hupper hno htr'

/-! ### Failures of the simulator -/

/-- The machine is about to make a division whose quotient is no `int`. -/
def Divides (m : Machine) : Prop := ∃ i, m.fetched = some i ∧ i.Traps m

theorem oneInstruction_crashed_iff (h : (m.registers loadReg).toNat < numTotalRegs) (why : Crash) :
    m.oneInstruction = .crashed why ↔ why = .division ∧ m.Divides := by
  have hx := executes h
  generalize m.oneInstruction = r at hx
  cases hx with
  | unfetched hf _ _ =>
      refine iff_of_false (by simp) ?_
      rintro ⟨_, i, hi, _⟩
      rw [hf] at hi
      exact absurd hi (by simp)
  | raises hf _ _ ht =>
      refine iff_of_false (by simp) ?_
      rintro ⟨_, i, hi, hti⟩
      rw [hf] at hi
      exact ht (Option.some.inj hi ▸ hti)
  | completes hf _ _ ht =>
      refine iff_of_false (by simp) ?_
      rintro ⟨_, i, hi, hti⟩
      rw [hf] at hi
      exact ht (Option.some.inj hi ▸ hti)
  | traps hf ht =>
      constructor
      · intro hw
        injection hw with hw
        exact ⟨hw.symm, _, hf, ht⟩
      · rintro ⟨hw, _⟩
        rw [hw]

/-- **The simulator survives an instruction exactly when it is not that division.** Neither an
`ASSERT` fails nor is a register number out of range, whatever the word and the operands. -/
theorem oneInstruction_safe_iff (m : Machine) (h : (m.registers loadReg).toNat < numGPRegs) :
    (∀ why, m.oneInstruction ≠ .crashed why) ↔
      ¬ ∃ i, m.fetched = some i ∧ i.opCode = .div ∧ m.registers i.rs = 0x80000000#32 ∧
        m.registers i.rt = 0xffffffff#32 := by
  have hiff := oneInstruction_crashed_iff (Nat.lt_trans h (by decide))
  constructor
  · intro hno hdiv
    exact hno .division ((hiff _).mpr ⟨rfl, hdiv⟩)
  · intro hno why hc
    exact hno ((hiff why).mp hc).2

/-- A machine with these words from address 0 on, and one page of memory. -/
def sample (words : List (BitVec 32)) (registers : Nat → BitVec 32) : Machine where
  registers := registers
  mainMemory := fun a => Base.byteOf (words.getD (a.toNat / 4) 0#32) (a.toNat % 4)
  pageTable := fun v => ⟨v, v, true, false, false, false⟩
  pageTableSize := 1

/-- `div $1, $2`, with the smallest number and minus one. -/
def dividing : Machine :=
  sample [0x0022001a#32] (upd (upd (fun _ => 0#32) 1 0x80000000#32) 2 0xffffffff#32)

theorem dividing_fetched : dividing.fetched = some ⟨.div, 1, 2, 0, 0#32⟩ := by decide

/-- The division is reached. -/
theorem dividing_crashes :
    (dividing.registers loadReg).toNat < numGPRegs ∧
    dividing.oneInstruction = .crashed .division := by
  refine ⟨by decide, ?_⟩
  rw [oneInstruction_crashed_iff (by decide)]
  exact ⟨rfl, _, dividing_fetched, rfl, by decide, by decide⟩

/-- With other operands it is not. -/
theorem division_survives : ¬ ∃ why, (sample [0x0022001a#32] fun _ => 7#32).oneInstruction =
    .crashed why :=
  not_exists.mpr ((oneInstruction_safe_iff _ (by decide)).mpr (by
    rintro ⟨i, _, _, h, _⟩
    exact absurd h (by simp [sample])))

/-! ### Exceptions -/

theorem delayedLoad_registers (m : Machine) (nextReg nextValue : BitVec 32) (n : Nat) :
    (m.delayedLoad nextReg nextValue).registers n =
      if n = 0 then 0#32 else if n = loadValueReg then nextValue else if n = loadReg then nextReg
      else if n = (m.registers loadReg).toNat then m.registers loadValueReg else m.registers n :=
  rfl

theorem trapped_registers {t : Machine} (bad : BitVec 32) {n : Nat} (h : n ≤ nextPCReg) :
    (t.trapped bad).registers n =
      if n = 0 then 0#32 else if n = (t.registers loadReg).toNat then t.registers loadValueReg
      else t.registers n := by
  have hpc : nextPCReg = 35 := rfl
  have h1 : n ≠ loadValueReg := by unfold loadValueReg; omega
  have h2 : n ≠ loadReg := by unfold loadReg; omega
  have h3 : n ≠ badVAddrReg := by unfold badVAddrReg; omega
  unfold trapped
  rw [delayedLoad_registers, if_neg h1, if_neg h2]
  simp only [writeRegister, Base.upd_ne _ _ h3,
    Base.upd_ne t.registers _ (show loadReg ≠ badVAddrReg by decide)]
  rfl

/-- The fetch, written out. -/
theorem fetched_eq (m : Machine) : m.fetched =
    match (m.translate (m.registers pcReg).toInt 4 false).map (Except.map Prod.fst) with
    | some (.ok p) => some (decode (BitVec.ofInt 32 (valueAt m.mainMemory p 4)))
    | _ => none := by
  unfold fetched Mips.fetch
  rw [bind_eq_of_ok (reg_eq (by decide))]
  cases ht : m.translate (m.registers pcReg).toInt 4 false with
  | none => exact absurd ht (translate_ne_none m _ (Or.inr (Or.inr rfl)) _)
  | some r =>
      cases r with
      | error which =>
          have hr : Mips.readMem (m.registers pcReg) 4 m =
              .error (.raise which (m.registers pcReg)) m := by
            unfold Mips.readMem Machine.readMem
            rw [ht]
            rfl
          rw [bind_eq_of_error hr]
          rfl
      | ok p =>
          have hr : Mips.readMem (m.registers pcReg) 4 m =
              .ok (BitVec.ofInt 32 (valueAt p.2.mainMemory p.1 4)) p.2 := by
            unfold Mips.readMem Machine.readMem
            rw [ht]
            rfl
          have hmem : p.2.mainMemory = m.mainMemory :=
            congrArg View.memory (translate_user (p := p.1) (w := false) ht)
          rw [bind_eq_of_ok hr, hmem]
          rfl

theorem fetched_congr {t : Machine} (hpc : t.registers pcReg = m.registers pcReg)
    (hmem : t.mainMemory = m.mainMemory) (hmap : SameMap m t) : t.fetched = m.fetched := by
  rw [fetched_eq, fetched_eq, hpc, hmem, hmap.translate]

/-- What the handler of an exception finds. -/
theorem trapped_of_user {t : Machine} (h0 : m.registers 0 = 0#32)
    (hl : (m.registers loadReg).toNat < numGPRegs) (hu : t.user = m.user) (bad : BitVec 32) :
    (∀ n, n ≤ nextPCReg → (t.trapped bad).registers n =
      if n = (m.registers loadReg).toNat ∧ n ≠ 0 then m.registers loadValueReg
      else m.registers n) ∧
    (t.trapped bad).mainMemory = m.mainMemory ∧ (t.trapped bad).fetched = m.fetched := by
  have hr : t.registers = m.registers := congrArg View.registers hu
  have hmem : t.mainMemory = m.mainMemory := congrArg View.memory hu
  have hmap := sameMap_of_user hu
  have hregs : ∀ n, n ≤ nextPCReg → (t.trapped bad).registers n =
      if n = (m.registers loadReg).toNat ∧ n ≠ 0 then m.registers loadValueReg
      else m.registers n := by
    intro n hn
    rw [trapped_registers bad hn, hr]
    by_cases hn0 : n = 0
    · rw [hn0]
      simp [h0]
    · simp [hn0]
  refine ⟨hregs, hmem, fetched_congr ?_ hmem ⟨hmap.size, hmap.valid, hmap.readOnly,
    hmap.physicalPage⟩⟩
  -- the pending load is for a general register, so the program counter stays
  rw [hregs pcReg (by decide), if_neg]
  intro hpc
  have : pcReg < numGPRegs := hpc.1 ▸ hl
  exact absurd this (by decide)

/-- Up to the trap, an instruction that raises an exception has changed nothing. -/
theorem raised_trapped (h : (m.registers loadReg).toNat < numTotalRegs) {which : ExceptionType}
    {m' : Machine} (hr : m.oneInstruction = .raised which m') :
    ∃ t bad, t.user = m.user ∧ m' = Machine.trapped t bad := by
  have hx := executes h
  rw [hr] at hx
  cases hx with
  | unfetched _ hu _ => exact ⟨_, _, hu, rfl⟩
  | raises _ hu _ _ => exact ⟨_, _, hu, rfl⟩

theorem not_overflows_of_traps {i : Instruction} (h : i.Traps m) : ¬ i.Overflows m := by
  rintro (⟨ho, -⟩ | ⟨ho, -⟩ | ⟨ho, -⟩)
  · exact absurd (h.1.symm.trans ho) (by simp)
  · exact absurd (h.1.symm.trans ho) (by simp)
  · exact absurd (h.1.symm.trans ho) (by simp)

theorem raises_overflow_iff (h : (m.registers loadReg).toNat < numTotalRegs) :
    (∃ m', m.oneInstruction = .raised .overflowException m') ↔
      ∃ i, m.fetched = some i ∧ i.Overflows m := by
  have hx := executes h
  generalize m.oneInstruction = r at hx
  cases hx with
  | unfetched hf hu hw =>
      refine iff_of_false ?_ ?_
      · rintro ⟨m', hr⟩
        injection hr with hr _
        exact hw hr
      · rintro ⟨i, hi, _⟩
        rw [hf] at hi
        exact absurd hi (by simp)
  | raises hf hu hw _ =>
      constructor
      · rintro ⟨m', hr⟩
        injection hr with hr _
        exact ⟨_, hf, hw.mp hr⟩
      · rintro ⟨i, hi, ho⟩
        rw [hf] at hi
        cases hi
        exact ⟨_, by rw [hw.mpr ho]⟩
  | completes hf _ ho _ =>
      refine iff_of_false (by simp) ?_
      rintro ⟨i, hi, ho'⟩
      rw [hf] at hi
      cases hi
      exact ho ho'
  | traps hf ht =>
      refine iff_of_false (by simp) ?_
      rintro ⟨i, hi, ho⟩
      rw [hf] at hi
      cases hi
      exact not_overflows_of_traps ht ho

/-- `add $3, $1, $1`, with a load of 5 to register 1 on its way. -/
def overflowing : Machine :=
  sample [0x00211820#32]
    (upd (upd (upd (fun _ => 0#32) 1 0x7fffffff#32) loadReg 1#32) loadValueReg 5#32)

end Machine

end Nachos
