import Nachos.Proof.Dispatch
import Nachos.Proof.Interpreter

/-!
# Interrupts do not show

An interrupt between two instructions calls `DelayedLoad(0, 0)`: the load that would have reached
its register after the next instruction reaches it before. A program that leaves the
register alone for one instruction cannot tell the difference.

`Early` relates a machine with its load pending to the one with the load done. Every case
of the switch keeps it, as long as the case neither reads nor writes the register in
question; `LWL` and `LWR` may merge into it, since they look for the value where it is. At the
end of the instruction the difference is gone, but for the value of a load to register 0.
-/

namespace Nachos

open Base (upd Sim bind_ok bind_eq_of_ok bind_eq_of_error)

namespace Instruction

/-! ## What an instruction reads and writes -/

/-- The general registers that an instruction reads. -/
def reads (i : Instruction) : List (Fin numGPRegs) :=
  match i.opCode with
  | .add | .addu | .and | .nor | .or | .sllv | .slt | .sltu | .srav | .srlv | .sub | .subu | .xor
  | .beq | .bne | .div | .divu | .mult | .multu
  | .sb | .sh | .sw | .swl | .swr | .lwl | .lwr => [i.rs, i.rt]
  | .sll | .sra | .srl => [i.rt]
  | .addi | .addiu | .andi | .ori | .slti | .sltiu | .xori
  | .bgez | .bgezal | .bgtz | .blez | .bltz | .bltzal | .jalr | .jr
  | .lb | .lbu | .lh | .lhu | .lw | .mthi | .mtlo => [i.rs]
  | .j | .jal | .lui | .mfhi | .mflo | .syscall | .unimp | .res | .rfe | .special | .bcond => []

/-- The general registers that it writes, at once or by a load. -/
def writes (i : Instruction) : List (Fin numGPRegs) :=
  match i.opCode with
  | .add | .addu | .and | .nor | .or | .sllv | .slt | .sltu | .srav | .srlv | .sub | .subu | .xor
  | .sll | .sra | .srl | .mfhi | .mflo | .jalr => [i.rd]
  | .addi | .addiu | .andi | .ori | .slti | .sltiu | .xori | .lui
  | .lb | .lbu | .lh | .lhu | .lw | .lwl | .lwr => [i.rt]
  | .bgezal | .bltzal | .jal => [31]
  | .beq | .bne | .bgez | .bgtz | .blez | .bltz | .div | .divu | .mult | .multu | .mthi | .mtlo
  | .sb | .sh | .sw | .swl | .swr | .j | .jr | .syscall | .unimp | .res | .rfe | .special
  | .bcond => []

/-- The instruction may follow a load to register `r`. -/
def MayFollow (i : Instruction) (r : Fin numGPRegs) : Prop :=
  (r ∉ i.reads ∧ r ∉ i.writes) ∨
    ((i.opCode = .lwl ∨ i.opCode = .lwr) ∧ i.rt = r ∧ i.rs ≠ r)

instance (i : Instruction) (r : Fin numGPRegs) : Decidable (i.MayFollow r) :=
  inferInstanceAs (Decidable (_ ∨ _))

end Instruction

/-! ## The load done early -/

/-- `t` is `s` with the pending load, to register `r`, done. -/
structure Early (r : Fin numGPRegs) (s t : Machine) : Prop where
  pending : s.registers loadReg = BitVec.ofNat 32 r
  done : r ≠ 0 → t.registers r = s.registers loadValueReg
  none : t.registers loadReg = 0#32
  rest : ∀ n, n ≠ loadReg → n ≠ loadValueReg → (r = 0 ∨ n ≠ r) → t.registers n = s.registers n
  memory : t.mainMemory = s.mainMemory
  pageTable : t.pageTable = s.pageTable
  size : t.pageTableSize = s.pageTableSize

theorem Early.sameMap {r : Fin numGPRegs} {s t : Machine} (h : Early r s t) :
    Machine.SameMap s t where
  size := h.size
  valid := fun v => by rw [h.pageTable]
  readOnly := fun v => by rw [h.pageTable]
  physicalPage := fun v => by rw [h.pageTable]

theorem Early.touch {r : Fin numGPRegs} {s t : Machine} (h : Early r s t) (vpn : Nat) (w : Bool) :
    Early r (s.touch vpn w) (t.touch vpn w) where
  pending := h.pending
  done := h.done
  none := h.none
  rest := h.rest
  memory := h.memory
  pageTable := by
    unfold Machine.touch
    rw [h.pageTable]
  size := h.size

/-- A register that is not waited for. -/
structure Clear (r : Fin numGPRegs) (n : Nat) : Prop where
  lt : n < numTotalRegs
  load : n ≠ loadReg
  value : n ≠ loadValueReg
  ne : r = 0 ∨ n ≠ r

theorem Early.same {r : Fin numGPRegs} {s t : Machine} (hR : Early r s t) {n : Nat}
    (h : Clear r n) : t.registers n = s.registers n :=
  hR.rest n h.load h.value h.ne

theorem Early.writeRegister {r : Fin numGPRegs} {s t : Machine} (hR : Early r s t) {n : Nat}
    (h : Clear r n) (v : BitVec 32) : Early r (s.writeRegister n v) (t.writeRegister n v) := by
  constructor
  case pending => exact (Base.upd_ne _ _ h.load.symm).trans hR.pending
  case done =>
    intro hr
    have hn : (r : Nat) ≠ n := fun he => h.ne.elim hr fun hne => hne he.symm
    exact (Base.upd_ne _ _ hn).trans
      ((hR.done hr).trans (Base.upd_ne _ _ h.value.symm).symm)
  case none => exact (Base.upd_ne _ _ h.load.symm).trans hR.none
  case rest =>
    intro k hk hk' hkr
    show upd t.registers n v k = upd s.registers n v k
    rw [Base.upd_apply, Base.upd_apply, hR.rest k hk hk' hkr]
  case memory => exact hR.memory
  case pageTable => exact hR.pageTable
  case size => exact hR.size

theorem clear_gp {r n : Fin numGPRegs} (h : r = 0 ∨ n ≠ r) : Clear r n where
  lt := gp_lt n
  load := Nat.ne_of_lt (Nat.lt_trans n.isLt (by decide))
  value := Nat.ne_of_lt (Nat.lt_trans n.isLt (by decide))
  ne := h.imp_right fun hn he => hn (Fin.ext he)

theorem clear_special {r : Fin numGPRegs} {n : Nat} (hlt : n < loadReg) (hgp : numGPRegs ≤ n) :
    Clear r n where
  lt := Nat.lt_trans hlt (by decide)
  load := Nat.ne_of_lt hlt
  value := Nat.ne_of_lt (Nat.lt_trans hlt (by decide))
  ne := Or.inr (Nat.ne_of_gt (Nat.lt_of_lt_of_le r.isLt hgp))

theorem clear_hi {r : Fin numGPRegs} : Clear r hiReg := clear_special (by decide) (by decide)

theorem clear_lo {r : Fin numGPRegs} : Clear r loReg := clear_special (by decide) (by decide)

theorem clear_pc {r : Fin numGPRegs} : Clear r pcReg := clear_special (by decide) (by decide)

theorem clear_nextPC {r : Fin numGPRegs} : Clear r nextPCReg :=
  clear_special (by decide) (by decide)

namespace Mips

open Machine

variable {r : Fin numGPRegs}

theorem sim_reg {n : Nat} (h : Clear r n) : Sim (Early r) Eq (reg n) (reg n) := by
  intro s t hR
  rw [reg_eq h.lt, reg_eq h.lt]
  exact ⟨(hR.same h).symm, hR⟩

theorem sim_setReg {n : Nat} (h : Clear r n) (v : BitVec 32) :
    Sim (Early r) Eq (setReg n v) (setReg n v) := by
  intro s t hR
  rw [setReg_eq h.lt, setReg_eq h.lt]
  exact ⟨rfl, hR.writeRegister h v⟩

theorem sim_readMem (addr : BitVec 32) (size : Nat) :
    Sim (Early r) Eq (readMem addr size) (readMem addr size) := by
  intro s t hR
  unfold readMem Machine.readMem
  rcases hR.sameMap.translate_cases addr.toInt size false with
    ⟨hs, ht⟩ | ⟨e, hs, ht⟩ | ⟨p, hs, ht⟩
  · rw [hs, ht]
    exact ⟨rfl, hR⟩
  · rw [hs, ht]
    exact ⟨rfl, hR⟩
  · rw [hs, ht]
    have hE := hR.touch (toUInt32 addr.toInt / pageSize) false
    refine ⟨?_, hE⟩
    show BitVec.ofInt 32 (valueAt _ p size) = BitVec.ofInt 32 (valueAt _ p size)
    rw [hE.memory]

theorem sim_writeMem (addr : BitVec 32) (size : Nat) (v : BitVec 32) :
    Sim (Early r) Eq (writeMem addr size v) (writeMem addr size v) := by
  intro s t hR
  unfold writeMem Machine.writeMem
  rcases hR.sameMap.translate_cases addr.toInt size true with
    ⟨hs, ht⟩ | ⟨e, hs, ht⟩ | ⟨p, hs, ht⟩
  · rw [hs, ht]
    exact ⟨rfl, hR⟩
  · rw [hs, ht]
    exact ⟨rfl, hR⟩
  · rw [hs, ht]
    have hE := hR.touch (toUInt32 addr.toInt / pageSize) true
    refine ⟨rfl, hE.pending, hE.done, hE.none, hE.rest, ?_, hE.pageTable, hE.size⟩
    show putBytes _ p size _ = putBytes _ p size _
    rw [hE.memory]

end Mips

/-! ## The cases of the switch -/

/-- They lead on to the same place and start the same load. What a load to register 0 delivers
makes no difference. -/
structure Next.Agree (a b : Next) : Prop where
  pcAfter : a.pcAfter = b.pcAfter
  nextLoadReg : a.nextLoadReg = b.nextLoadReg
  nextLoadValue : a.nextLoadReg ≠ 0 → a.nextLoadValue = b.nextLoadValue

theorem Next.Agree.refl (a : Next) : Next.Agree a a := ⟨rfl, rfl, fun _ => rfl⟩

namespace Instruction

open Mips Machine

variable {r : Fin numGPRegs} (i : Instruction) (pcAfter : BitVec 32)

theorem sim_next (next : Next) : Sim (Early r) Next.Agree (pure next : Mips Next) (pure next) :=
  .pure (.refl next)

theorem sim_write {n : Nat} (h : Clear r n) (v : BitVec 32) (next : Next) :
    Sim (Early r) Next.Agree (do setReg n v; return next) (do setReg n v; return next) :=
  (sim_setReg h v).bind_eq fun _ => sim_next next

theorem sim_toRd (hs : Clear r i.rs) (ht : Clear r i.rt) (hd : Clear r i.rd)
    (f : BitVec 32 → BitVec 32 → BitVec 32) :
    Sim (Early r) Next.Agree (i.toRd pcAfter f) (i.toRd pcAfter f) :=
  (sim_reg hs).bind_eq fun _ => (sim_reg ht).bind_eq fun _ => sim_write hd _ _

theorem sim_shifted (ht : Clear r i.rt) (hd : Clear r i.rd) (f : BitVec 32 → BitVec 32) :
    Sim (Early r) Next.Agree (i.shifted pcAfter f) (i.shifted pcAfter f) :=
  (sim_reg ht).bind_eq fun _ => sim_write hd _ _

theorem sim_toRt (hs : Clear r i.rs) (ht : Clear r i.rt) (f : BitVec 32 → BitVec 32) :
    Sim (Early r) Next.Agree (i.toRt pcAfter f) (i.toRt pcAfter f) :=
  (sim_reg hs).bind_eq fun _ => sim_write ht _ _

/-- The three that may overflow. -/
theorem sim_checked {n : Nat} (h : Clear r n) (overflows : Bool) (v : BitVec 32) :
    Sim (Early r) Next.Agree
      (if overflows then raise .overflowException 0#32 else do setReg n v; return Next.at pcAfter)
      (if overflows then raise .overflowException 0#32
        else do setReg n v; return Next.at pcAfter) :=
  .ite (.throw _) (sim_write h v _)

theorem sim_add (hs : Clear r i.rs) (ht : Clear r i.rt) (hd : Clear r i.rd) :
    Sim (Early r) Next.Agree (i.add pcAfter) (i.add pcAfter) :=
  (sim_reg hs).bind_eq fun _ => (sim_reg ht).bind_eq fun _ => sim_checked pcAfter hd _ _

theorem sim_addi (hs : Clear r i.rs) (ht : Clear r i.rt) :
    Sim (Early r) Next.Agree (i.addi pcAfter) (i.addi pcAfter) :=
  (sim_reg hs).bind_eq fun _ => sim_checked pcAfter ht _ _

theorem sim_sub (hs : Clear r i.rs) (ht : Clear r i.rt) (hd : Clear r i.rd) :
    Sim (Early r) Next.Agree (i.sub pcAfter) (i.sub pcAfter) :=
  (sim_reg hs).bind_eq fun _ => (sim_reg ht).bind_eq fun _ => sim_checked pcAfter hd _ _

theorem sim_branch (taken : Bool) :
    Sim (Early r) Next.Agree (i.branch pcAfter taken) (i.branch pcAfter taken) :=
  .ite ((sim_reg clear_nextPC).bind_eq fun _ => sim_next _) (sim_next _)

theorem sim_branchTwo (hs : Clear r i.rs) (ht : Clear r i.rt)
    (c : BitVec 32 → BitVec 32 → Bool) :
    Sim (Early r) Next.Agree (i.branchTwo pcAfter c) (i.branchTwo pcAfter c) :=
  (sim_reg hs).bind_eq fun _ => (sim_reg ht).bind_eq fun _ => i.sim_branch pcAfter _

theorem sim_branchOne (hs : Clear r i.rs) (c : BitVec 32 → Bool) :
    Sim (Early r) Next.Agree (i.branchOne pcAfter c) (i.branchOne pcAfter c) :=
  (sim_reg hs).bind_eq fun _ => i.sim_branch pcAfter _

theorem sim_link {n : Nat} (h : Clear r n) : Sim (Early r) Eq (link n) (link n) :=
  (sim_reg clear_nextPC).bind_eq fun _ => sim_setReg h _

theorem sim_jumpReg (hs : Clear r i.rs) : Sim (Early r) Next.Agree i.jumpReg i.jumpReg :=
  (sim_reg hs).bind_eq fun _ => sim_next _

theorem sim_setHiLo (hi lo : BitVec 32) : Sim (Early r) Eq (setHiLo hi lo) (setHiLo hi lo) :=
  (sim_setReg clear_lo lo).bind_eq fun _ => sim_setReg clear_hi hi

theorem sim_divide (hi lo : BitVec 32) :
    Sim (Early r) Next.Agree (do setHiLo hi lo; return Next.at pcAfter)
      (do setHiLo hi lo; return Next.at pcAfter) :=
  (sim_setHiLo hi lo).bind_eq fun _ => sim_next _

theorem sim_div (hs : Clear r i.rs) (ht : Clear r i.rt) :
    Sim (Early r) Next.Agree (i.div pcAfter) (i.div pcAfter) := by
  refine (sim_reg hs).bind_eq fun rs => (sim_reg ht).bind_eq fun rt => ?_
  refine .ite (sim_divide pcAfter _ _) (.bind_eq (.ite (.throw _) (.pure rfl)) fun q => ?_)
  exact sim_divide pcAfter _ _

theorem sim_divu (hs : Clear r i.rs) (ht : Clear r i.rt) :
    Sim (Early r) Next.Agree (i.divu pcAfter) (i.divu pcAfter) := by
  refine (sim_reg hs).bind_eq fun rs => (sim_reg ht).bind_eq fun rt => ?_
  refine .ite (sim_divide pcAfter _ _) (.bind_eq (.ite (.throw _) (.pure rfl)) fun q => ?_)
  exact sim_divide pcAfter _ _

theorem sim_multiply (hs : Clear r i.rs) (ht : Clear r i.rt) (signedArith : Bool) :
    Sim (Early r) Next.Agree (i.multiply pcAfter signedArith) (i.multiply pcAfter signedArith) :=
  (sim_reg hs).bind_eq fun _ => (sim_reg ht).bind_eq fun _ => sim_divide pcAfter _ _

theorem sim_moveFrom {n : Nat} (h : Clear r n) (hd : Clear r i.rd) :
    Sim (Early r) Next.Agree (i.moveFrom pcAfter n) (i.moveFrom pcAfter n) :=
  (sim_reg h).bind_eq fun _ => sim_write hd _ _

theorem sim_moveTo {n : Nat} (h : Clear r n) (hs : Clear r i.rs) :
    Sim (Early r) Next.Agree (i.moveTo pcAfter n) (i.moveTo pcAfter n) :=
  (sim_reg hs).bind_eq fun _ => sim_write h _ _

theorem sim_address (hs : Clear r i.rs) : Sim (Early r) Eq i.address i.address :=
  (sim_reg hs).bind_eq fun _ => .pure rfl

theorem sim_loadByte (hs : Clear r i.rs) (signed : Bool) :
    Sim (Early r) Next.Agree (i.loadByte pcAfter signed) (i.loadByte pcAfter signed) :=
  (i.sim_address hs).bind_eq fun _ => (sim_readMem _ 1).bind_eq fun _ => sim_next _

theorem sim_loadHalf (hs : Clear r i.rs) (signed : Bool) :
    Sim (Early r) Next.Agree (i.loadHalf pcAfter signed) (i.loadHalf pcAfter signed) :=
  (i.sim_address hs).bind_eq fun _ =>
    .ite (.throw _) ((sim_readMem _ 2).bind_eq fun _ => sim_next _)

theorem sim_loadWord (hs : Clear r i.rs) :
    Sim (Early r) Next.Agree (i.loadWord pcAfter) (i.loadWord pcAfter) :=
  (i.sim_address hs).bind_eq fun _ =>
    .ite (.throw _) ((sim_readMem _ 4).bind_eq fun _ => sim_next _)

theorem ofNat_eq_iff (a b : Fin numGPRegs) : BitVec.ofNat 32 a = BitVec.ofNat 32 b ↔ a = b := by
  constructor
  · intro h
    have ha : (a : Nat) < 32 := a.isLt
    have hb : (b : Nat) < 32 := b.isLt
    have hn := congrArg BitVec.toNat h
    rw [BitVec.toNat_ofNat, BitVec.toNat_ofNat, Nat.mod_eq_of_lt (by omega),
      Nat.mod_eq_of_lt (by omega)] at hn
    exact Fin.ext hn
  · intro h
    rw [h]

theorem loadTarget_eq {m : Machine} : i.loadTarget m =
    .ok (if m.registers loadReg = BitVec.ofNat 32 i.rt then m.registers loadValueReg
      else m.registers i.rt) m := by
  unfold loadTarget
  rw [bind_eq_of_ok (reg_eq (by decide))]
  split
  · exact reg_eq (by decide)
  · exact reg_eq (gp_lt i.rt)

/-- **The merging loads find the value wherever it is**: on its way in one run, in its register
in the other. -/
theorem sim_loadTarget :
    Sim (Early r) (fun a b => i.rt ≠ 0 → a = b) i.loadTarget i.loadTarget := by
  intro s t hR
  rw [loadTarget_eq, loadTarget_eq]
  refine ⟨fun hrt => ?_, hR⟩
  have ht : t.registers loadReg ≠ BitVec.ofNat 32 i.rt := by
    rw [hR.none]
    exact fun he => hrt ((ofNat_eq_iff 0 i.rt).mp he).symm
  rw [if_neg ht, hR.pending]
  by_cases hr : r = i.rt
  · subst hr
    rw [if_pos rfl, hR.done hrt]
  · rw [if_neg (mt (ofNat_eq_iff r i.rt).mp hr)]
    have hclear : Clear r i.rt := clear_gp (Or.inr (Ne.symm hr))
    exact (hR.rest _ hclear.load hclear.value hclear.ne).symm

theorem sim_loadUnaligned (hs : Clear r i.rs)
    (merge : BitVec 32 → BitVec 32 → BitVec 32 → BitVec 32) :
    Sim (Early r) Next.Agree (i.loadUnaligned pcAfter merge) (i.loadUnaligned pcAfter merge) := by
  refine (i.sim_address hs).bind_eq fun tmp => ?_
  refine (sim_readMem _ 4).bind_eq fun value => ?_
  refine i.sim_loadTarget.bind fun a b hab => .pure ⟨rfl, rfl, fun hrt => ?_⟩
  show merge _ a value = merge _ b value
  rw [hab hrt]

theorem sim_store (hs : Clear r i.rs) (ht : Clear r i.rt) (size : Nat) :
    Sim (Early r) Next.Agree (i.store pcAfter size) (i.store pcAfter size) :=
  (i.sim_address hs).bind_eq fun _ => (sim_reg ht).bind_eq fun _ =>
    (sim_writeMem _ size _).bind_eq fun _ => sim_next _

theorem sim_storeUnaligned (hs : Clear r i.rs) (ht : Clear r i.rt)
    (merge : BitVec 32 → BitVec 32 → BitVec 32 → BitVec 32) :
    Sim (Early r) Next.Agree (i.storeUnaligned pcAfter merge) (i.storeUnaligned pcAfter merge) := by
  refine (i.sim_address hs).bind_eq fun tmp => ?_
  refine (sim_readMem _ 4).bind_eq fun value => ?_
  refine (sim_reg ht).bind_eq fun rt => ?_
  exact (sim_writeMem _ 4 _).bind_eq fun _ => sim_next _

/-- The base register of a load may not be waited for. -/
theorem MayFollow.clear_base (h : r = 0 ∨ i.MayFollow r) (hs : i.rs ∈ i.reads) : Clear r i.rs := by
  refine clear_gp ?_
  rcases h with h | ⟨hr, _⟩ | ⟨_, _, hne⟩
  · exact Or.inl h
  · exact Or.inr fun he => hr (he ▸ hs)
  · exact Or.inr hne

/-- Other instructions touch nothing that is waited for. -/
theorem MayFollow.clear (h : r = 0 ∨ i.MayFollow r) (hl : i.opCode ≠ .lwl) (hr : i.opCode ≠ .lwr)
    {n : Fin numGPRegs} (hn : n ∈ i.reads ∨ n ∈ i.writes) : Clear r n := by
  refine clear_gp ?_
  rcases h with h | ⟨hread, hwrite⟩ | ⟨hop, _⟩
  · exact Or.inl h
  · refine Or.inr fun he => ?_
    rcases hn with hn | hn
    · exact hread (he ▸ hn)
    · exact hwrite (he ▸ hn)
  · exact absurd hop (by simp [hl, hr])

/-- **Every case of the switch commutes with the load.** -/
theorem sim_execute (h : r = 0 ∨ i.MayFollow r) :
    Sim (Early r) Next.Agree (i.execute pcAfter) (i.execute pcAfter) := by
  have hclear := MayFollow.clear i h
  unfold execute
  cases hop : i.opCode with
  | lwl | lwr =>
      exact i.sim_loadUnaligned pcAfter (MayFollow.clear_base i h (by simp [reads, hop])) _
  | add =>
      refine i.sim_add pcAfter ?_ ?_ ?_ <;> apply hclear <;> simp [reads, writes, hop]
  | addi =>
      refine i.sim_addi pcAfter ?_ ?_ <;> apply hclear <;> simp [reads, writes, hop]
  | sub =>
      refine i.sim_sub pcAfter ?_ ?_ ?_ <;> apply hclear <;> simp [reads, writes, hop]
  | addu | and | nor | or | sllv | slt | sltu | srav | srlv | subu | xor =>
      refine i.sim_toRd pcAfter ?_ ?_ ?_ _ <;> apply hclear <;> simp [reads, writes, hop]
  | sll | sra | srl =>
      refine i.sim_shifted pcAfter ?_ ?_ _ <;> apply hclear <;> simp [reads, writes, hop]
  | addiu | andi | ori | slti | sltiu | xori =>
      refine i.sim_toRt pcAfter ?_ ?_ _ <;> apply hclear <;> simp [reads, writes, hop]
  | lui =>
      refine sim_write ?_ _ _
      apply hclear <;> simp [reads, writes, hop]
  | beq | bne =>
      refine i.sim_branchTwo pcAfter ?_ ?_ _ <;> apply hclear <;> simp [reads, writes, hop]
  | bgez | bgtz | blez | bltz =>
      refine i.sim_branchOne pcAfter ?_ _
      apply hclear <;> simp [reads, writes, hop]
  | bgezal | bltzal =>
      refine (sim_link (n := r31) ?_).bind_eq fun _ => i.sim_branchOne pcAfter ?_ _
      · apply hclear (n := 31) <;> simp [reads, writes, hop]
      · apply hclear <;> simp [reads, writes, hop]
  | div =>
      refine i.sim_div pcAfter ?_ ?_ <;> apply hclear <;> simp [reads, writes, hop]
  | divu =>
      refine i.sim_divu pcAfter ?_ ?_ <;> apply hclear <;> simp [reads, writes, hop]
  | j => exact sim_next _
  | jal =>
      refine (sim_link (n := r31) ?_).bind_eq fun _ => sim_next _
      apply hclear (n := 31) <;> simp [reads, writes, hop]
  | jalr =>
      refine (sim_link ?_).bind_eq fun _ => i.sim_jumpReg ?_ <;> apply hclear <;>
        simp [reads, writes, hop]
  | jr =>
      refine i.sim_jumpReg ?_
      apply hclear <;> simp [reads, writes, hop]
  | lb | lbu =>
      refine i.sim_loadByte pcAfter ?_ _
      apply hclear <;> simp [reads, writes, hop]
  | lh | lhu =>
      refine i.sim_loadHalf pcAfter ?_ _
      apply hclear <;> simp [reads, writes, hop]
  | lw =>
      refine i.sim_loadWord pcAfter ?_
      apply hclear <;> simp [reads, writes, hop]
  | mfhi =>
      refine i.sim_moveFrom pcAfter clear_hi ?_
      apply hclear <;> simp [reads, writes, hop]
  | mflo =>
      refine i.sim_moveFrom pcAfter clear_lo ?_
      apply hclear <;> simp [reads, writes, hop]
  | mthi =>
      refine i.sim_moveTo pcAfter clear_hi ?_
      apply hclear <;> simp [reads, writes, hop]
  | mtlo =>
      refine i.sim_moveTo pcAfter clear_lo ?_
      apply hclear <;> simp [reads, writes, hop]
  | mult | multu =>
      refine i.sim_multiply pcAfter ?_ ?_ _ <;> apply hclear <;> simp [reads, writes, hop]
  | sb | sh | sw =>
      refine i.sim_store pcAfter ?_ ?_ _ <;> apply hclear <;> simp [reads, writes, hop]
  | swl | swr =>
      refine i.sim_storeUnaligned pcAfter ?_ ?_ _ <;> apply hclear <;> simp [reads, writes, hop]
  | syscall | unimp | res => exact .throw _
  | rfe | special | bcond => exact .throw _

end Instruction

/-! ## One instruction, with the load done early -/

/-- **The registers as every instruction finds them**: register 0 is zero, and the pending load is
for a general register. -/
structure WellKept (registers : Nat → BitVec 32) : Prop where
  zero : registers 0 = 0#32
  load : (registers loadReg).toNat < numGPRegs

section Early

variable {r : Fin numGPRegs} {s t : Machine} (h : Early r s t)

include h

theorem Early.load_toNat : (s.registers loadReg).toNat = r := by
  have hr : (r : Nat) < 32 := r.isLt
  rw [h.pending, BitVec.toNat_ofNat, Nat.mod_eq_of_lt (by omega)]

theorem Early.load_lt : (s.registers loadReg).toNat < numTotalRegs := by
  rw [h.load_toNat]
  exact gp_lt r

theorem Early.none_lt : (t.registers loadReg).toNat < numTotalRegs := by
  rw [h.none]
  decide

/-- The end of an instruction, for one register. -/
theorem Early.delayedLoad (nextReg v w : BitVec 32) {n : Nat} (hn : n ≠ loadValueReg) :
    (s.delayedLoad nextReg v).registers n = (t.delayedLoad nextReg w).registers n := by
  rw [Machine.delayedLoad_registers, Machine.delayedLoad_registers]
  by_cases hn0 : n = 0
  · rw [if_pos hn0, if_pos hn0]
  rw [if_neg hn0, if_neg hn0, if_neg hn, if_neg hn]
  by_cases hnl : n = loadReg
  · rw [if_pos hnl, if_pos hnl]
  have ht0 : n ≠ (t.registers loadReg).toNat := by rw [h.none]; exact hn0
  rw [if_neg hnl, if_neg hnl, if_neg ht0, h.load_toNat]
  by_cases hnr : n = r
  · have hr0 : r ≠ 0 := fun he => hn0 (by rw [hnr, he]; rfl)
    rw [if_pos hnr, hnr, h.done hr0]
  · rw [if_neg hnr, h.rest n hnl hn (Or.inr hnr)]

end Early

namespace Machine

open Mips Instruction

/-- What an interrupt does: `DelayedLoad(0, 0)`. -/
def committed (m : Machine) : Machine := m.delayedLoad 0#32 0#32

/-- The register that the pending load is for. -/
def pending (m : Machine) (h : WellKept m.registers) : Fin numGPRegs :=
  ⟨(m.registers loadReg).toNat, h.load⟩

theorem early_committed {m : Machine} (h : WellKept m.registers) :
    Early (m.pending h) m m.committed := by
  have hr : (m.pending h : Nat) = (m.registers loadReg).toNat := rfl
  have hl := h.load
  constructor
  case pending =>
    show _ = BitVec.ofNat 32 (m.registers loadReg).toNat
    rw [BitVec.ofNat_toNat, BitVec.setWidth_eq]
  case done =>
    intro hr0
    have h0 : (m.registers loadReg).toNat ≠ 0 := fun he => hr0 (Fin.ext he)
    unfold committed
    rw [delayedLoad_registers, hr, if_neg h0, if_neg, if_neg, if_pos rfl]
    · exact Nat.ne_of_lt (Nat.lt_trans hl (by decide))
    · exact Nat.ne_of_lt (Nat.lt_trans hl (by decide))
  case none => rfl
  case rest =>
    intro n hn hn' hne
    unfold committed
    rw [delayedLoad_registers, if_neg hn', if_neg hn]
    by_cases hn0 : n = 0
    · rw [if_pos hn0, hn0, h.zero]
    · rw [if_neg hn0, if_neg]
      rintro rfl
      rcases hne with hne | hne
      · exact hn0 (congrArg Fin.val hne)
      · exact hne rfl
  case memory => rfl
  case pageTable => rfl
  case size => rfl

/-- Two machines that differ in registers only. -/
theorem ext_registers {s t : Machine} (hm : t.mainMemory = s.mainMemory)
    (hp : t.pageTable = s.pageTable) (hz : t.pageTableSize = s.pageTableSize)
    (hr : ∀ n, s.registers n = t.registers n) : s = t := by
  obtain ⟨sr, sm, sp, sz⟩ := s
  obtain ⟨tr, tm, tp, tz⟩ := t
  have hregs : sr = tr := funext hr
  simp only at hm hp hz
  rw [hregs, hm, hp, hz]

/-- What a load to register 0 would deliver is all that a commit hides. -/
theorem committed_eq {s t : Machine} (hm : t.mainMemory = s.mainMemory)
    (hp : t.pageTable = s.pageTable) (hz : t.pageTableSize = s.pageTableSize)
    (hr : ∀ n, n ≠ loadValueReg → s.registers n = t.registers n)
    (hv : (s.registers loadReg).toNat ≠ 0 → s.registers loadValueReg = t.registers loadValueReg) :
    s.committed = t.committed := by
  refine ext_registers hm hp hz fun n => ?_
  unfold committed
  rw [delayedLoad_registers, delayedLoad_registers, ← hr loadReg (by decide)]
  by_cases hn0 : n = 0
  · rw [if_pos hn0, if_pos hn0]
  by_cases hnv : n = loadValueReg
  · rw [if_neg hn0, if_neg hn0, if_pos hnv, if_pos hnv]
  rw [if_neg hn0, if_neg hn0, if_neg hnv, if_neg hnv, ← hr n hnv]
  by_cases hnl : n = (s.registers loadReg).toNat
  · rw [if_pos hnl, if_pos hnl, hv (hnl ▸ hn0)]
  · rw [if_neg hnl, if_neg hnl]

/-- With nothing pending there is nothing to do. -/
theorem committed_of_idle {m : Machine} (h0 : m.registers 0 = 0#32)
    (hl : m.registers loadReg = 0#32) (hv : m.registers loadValueReg = 0#32) : m.committed = m := by
  refine ext_registers rfl rfl rfl fun n => ?_
  unfold committed
  rw [delayedLoad_registers, hl]
  by_cases hn0 : n = 0
  · rw [if_pos hn0, hn0, h0]
  by_cases hnv : n = loadValueReg
  · rw [if_neg hn0, if_pos hnv, hnv, hv]
  by_cases hnl : n = loadReg
  · rw [if_neg hn0, if_neg hnv, if_pos hnl, hnl, hl]
  · have hz : n ≠ (0#32).toNat := hn0
    rw [if_neg hn0, if_neg hnv, if_neg hnl, if_neg hz]

theorem committed_committed (m : Machine) : m.committed.committed = m.committed :=
  committed_of_idle rfl rfl rfl

variable {r : Fin numGPRegs} {s t : Machine}

/-- **The handler of an exception sees no difference.** -/
theorem trapped_eq (h : Early r s t) (bad : BitVec 32) : s.trapped bad = t.trapped bad := by
  have hbad : Clear r badVAddrReg :=
    ⟨by decide, by decide, by decide, Or.inr (Nat.ne_of_gt (Nat.lt_trans r.isLt (by decide)))⟩
  have hE := h.writeRegister hbad bad
  refine ext_registers hE.memory hE.pageTable hE.size fun n => ?_
  by_cases hn : n = loadValueReg
  · subst hn
    rfl
  · exact hE.delayedLoad _ _ _ hn

theorem advanced_registers (m : Machine) (next : Next) (n : Nat) :
    (m.advanced next).registers n =
      upd (upd (upd (m.delayedLoad (BitVec.ofNat 32 next.nextLoadReg) next.nextLoadValue).registers
        prevPCReg ((m.delayedLoad (BitVec.ofNat 32 next.nextLoadReg) next.nextLoadValue).registers
          pcReg))
        pcReg ((m.delayedLoad (BitVec.ofNat 32 next.nextLoadReg) next.nextLoadValue).registers
          nextPCReg)) nextPCReg next.pcAfter n := rfl

theorem advanced_loadReg (m : Machine) (next : Next) :
    (m.advanced next).registers loadReg = BitVec.ofNat 32 next.nextLoadReg := rfl

theorem advanced_loadValueReg (m : Machine) (next : Next) :
    (m.advanced next).registers loadValueReg = next.nextLoadValue := rfl

/-- **After the instruction the difference is gone.** -/
theorem advanced_agree (h : Early r s t) {a b : Next} (hab : a.Agree b) :
    (s.advanced a).committed = (t.advanced b).committed ∧
      (s.advanced a).registers loadReg = (t.advanced b).registers loadReg := by
  have hdl : ∀ n, n ≠ loadValueReg →
      (s.delayedLoad (BitVec.ofNat 32 a.nextLoadReg) a.nextLoadValue).registers n =
      (t.delayedLoad (BitVec.ofNat 32 b.nextLoadReg) b.nextLoadValue).registers n := by
    intro n hn
    rw [hab.nextLoadReg]
    exact h.delayedLoad _ _ _ hn
  refine ⟨committed_eq h.memory h.pageTable h.size ?_ ?_, ?_⟩
  · intro n hn
    rw [advanced_registers, advanced_registers, hdl pcReg (by decide), hdl nextPCReg (by decide),
      hab.pcAfter]
    simp only [Base.upd_apply, hdl n hn]
  · rw [advanced_loadReg, advanced_loadValueReg, advanced_loadValueReg]
    intro hne
    exact hab.nextLoadValue fun he => hne (by rw [he]; rfl)
  · rw [advanced_loadReg, advanced_loadReg, hab.nextLoadReg]

/-! ## Two runs of one instruction -/

/-- The same thing happens, and the machines are the same once their pending loads are done. -/
inductive Outcome.Agree : Outcome → Outcome → Prop where
  | completed {a b : Machine} : a.committed = b.committed →
      a.registers loadReg = b.registers loadReg → Agree (.completed a) (.completed b)
  | raised (which : ExceptionType) (a : Machine) : Agree (.raised which a) (.raised which a)
  | crashed (why : Crash) : Agree (.crashed why) (.crashed why)

theorem Outcome.Agree.refl (x : Outcome) : Agree x x := by
  cases x with
  | completed a => exact .completed rfl rfl
  | raised which a => exact .raised which a
  | crashed why => exact .crashed why

theorem Outcome.Agree.symm {x y : Outcome} (h : Agree x y) : Agree y x := by
  cases h with
  | completed hc hl => exact .completed hc.symm hl.symm
  | raised which a => exact .raised which a
  | crashed why => exact .crashed why

theorem Outcome.Agree.trans {x y z : Outcome} (h : Agree x y) (h' : Agree y z) : Agree x z := by
  cases h with
  | completed hc hl =>
      cases h' with
      | completed hc' hl' => exact .completed (hc.trans hc') (hl.trans hl')
  | raised which a => exact h'
  | crashed why => exact h'

/-- The instruction that comes next leaves the register alone that is waited for. -/
def NoHazard (m : Machine) : Prop :=
  ∀ i, m.fetched = some i → ∀ r : Fin numGPRegs, r ≠ 0 →
    m.registers loadReg = BitVec.ofNat 32 r → i.MayFollow r

theorem sim_fetch : Sim (Early r) Eq Mips.fetch Mips.fetch :=
  (sim_reg clear_pc).bind_eq fun _ =>
    (sim_readMem _ 4).bind_eq fun _ => .pure rfl

/-- **Doing the pending load early changes nothing that counts.** -/
theorem oneInstruction_early (h : Early r s t)
    (hz : ∀ i, s.fetched = some i → r = 0 ∨ i.MayFollow r) :
    Outcome.Agree s.oneInstruction t.oneInstruction := by
  -- however the two runs stop, they do it for one reason, and the handler sees no difference
  have hstop : ∀ {e : Halt} {s' t' : Machine}, Early r s' t' →
      Outcome.Agree (conclude (.error e s')) (conclude (.error e t')) := by
    intro e s' t' hE
    cases e with
    | crash why => exact .crashed why
    | raise which bad =>
        rw [conclude_raise hE.load_lt, conclude_raise hE.none_lt, trapped_eq hE]
        exact .raised which _
  unfold oneInstruction Mips.oneInstruction
  rcases sim_fetch.cases h with ⟨e, s', t', hs, ht, hE⟩ | ⟨i, j, s', t', hs, ht, hij, hE⟩
  · rw [bind_eq_of_error hs, bind_eq_of_error ht]
    exact hstop hE
  · subst hij
    have hfetched : s.fetched = some i := by unfold fetched; rw [hs]
    have hlt := (clear_nextPC (r := r)).lt
    rw [bind_eq_of_ok hs, bind_eq_of_ok ht, bind_eq_of_ok (reg_eq hlt), bind_eq_of_ok (reg_eq hlt),
      hE.same clear_nextPC]
    rcases (sim_execute i (s'.registers nextPCReg + 4#32) (hz i hfetched)).cases hE with
      ⟨e, s'', t'', hxs, hxt, hE'⟩ | ⟨a, b, s'', t'', hxs, hxt, hab, hE'⟩
    · rw [bind_eq_of_error hxs, bind_eq_of_error hxt]
      exact hstop hE'
    · rw [bind_eq_of_ok hxs, bind_eq_of_ok hxt, advance_eq hE'.load_lt, advance_eq hE'.none_lt]
      obtain ⟨hc, hl⟩ := advanced_agree hE' hab
      exact .completed hc hl

theorem fetched_committed {m : Machine} (h : WellKept m.registers) :
    m.committed.fetched = m.fetched := by
  have hE := early_committed h
  exact fetched_congr (hE.same clear_pc) rfl hE.sameMap

theorem oneInstruction_committed {m : Machine} (h : WellKept m.registers) (hz : m.NoHazard) :
    Outcome.Agree m.oneInstruction m.committed.oneInstruction := by
  refine oneInstruction_early (early_committed h) fun i hi => ?_
  by_cases hr : m.pending h = 0
  · exact Or.inl hr
  · exact Or.inr (hz i hi _ hr (early_committed h).pending)

/-- The state at the end keeps the registers well, if the one at the start does. -/
def Outcome.Keeps : Outcome → Prop
  | .completed m => WellKept m.registers
  | .raised _ m => WellKept m.registers
  | .crashed _ => True

theorem wellKept_committed (m : Machine) : WellKept m.committed.registers :=
  ⟨rfl, show (0#32).toNat < numGPRegs by decide⟩

theorem wellKept_trapped (m : Machine) (bad : BitVec 32) : WellKept (m.trapped bad).registers :=
  ⟨rfl, show (0#32).toNat < numGPRegs by decide⟩

theorem wellKept_advanced (m : Machine) (next : Next) : WellKept (m.advanced next).registers := by
  refine ⟨rfl, ?_⟩
  have hlt : (next.nextLoadReg : Nat) < 32 := next.nextLoadReg.isLt
  rw [advanced_loadReg, BitVec.toNat_ofNat, Nat.mod_eq_of_lt (by omega)]
  exact hlt

/-- **An instruction keeps the registers well**, whether it is executed or raises an exception. -/
theorem oneInstruction_keeps {m : Machine} (h : WellKept m.registers) : m.oneInstruction.Keeps := by
  have hx := executes (m := m) (Nat.lt_trans h.load (by decide))
  generalize m.oneInstruction = r at hx
  cases hx with
  | unfetched _ _ _ => exact wellKept_trapped _ _
  | raises _ _ _ _ => exact wellKept_trapped _ _
  | completes _ _ _ _ => exact wellKept_advanced _ _
  | traps _ _ => trivial

end Machine

/-! ## Runs of a user program -/

/-- A kernel, as far as a user program meets it: what it does about an exception, in a state of its
own. `none` when it does not go back to the program. -/
structure Trap (κ : Type) where
  handle : ExceptionType → κ → Machine → Option (κ × Machine)
  /-- It keeps the registers well. -/
  keeps : ∀ {which k m k' m'}, WellKept m.registers → handle which k m = some (k', m') →
    WellKept m'.registers

namespace Trap

open Machine

variable {κ : Type} (T : Trap κ)

/-- `OneTick`: an interrupt is due or not. -/
def tick (fires : Bool) (p : κ × Machine) : κ × Machine :=
  if fires then (p.1, p.2.committed) else p

/-- Once round the loop of `Machine::Run`. -/
def turn (fires : Bool) (p : κ × Machine) : Option (κ × Machine) :=
  match p.2.oneInstruction with
  | .completed m => some (tick fires (p.1, m))
  | .raised which m => (T.handle which p.1 m).map (tick fires)
  | .crashed _ => none

/-- The state after `n` instructions, with interrupts at the boundaries in `fires`. -/
def run (fires : Nat → Bool) (p : κ × Machine) : Nat → Option (κ × Machine)
  | 0 => some p
  | n + 1 => (run fires p n).bind (T.turn (fires n))

/-- The state with its pending load done. -/
def settled (p : κ × Machine) : κ × Machine := (p.1, p.2.committed)

/-- The two are the same but for a load that is done in `p` and pending in `q`. -/
structure Hidden (p q : κ × Machine) : Prop where
  kept : WellKept p.2.registers
  kept' : WellKept q.2.registers
  same : settled p = settled q
  load : p.2.registers loadReg = 0#32 ∨ p.2.registers loadReg = q.2.registers loadReg

theorem Hidden.tick {p q : κ × Machine} (h : Hidden p q) (fires : Bool) :
    Hidden (tick fires p) q := by
  cases fires with
  | false => exact h
  | true =>
      refine ⟨wellKept_committed _, h.kept', ?_, Or.inl rfl⟩
      rw [← h.same]
      exact congrArg (Prod.mk p.1) (committed_committed p.2)

theorem Hidden.noHazard {p q : κ × Machine} (h : Hidden p q) (hz : q.2.NoHazard) :
    p.2.NoHazard := by
  intro i hi r hr hload
  have hfetched : q.2.fetched = p.2.fetched := by
    rw [← fetched_committed h.kept, ← fetched_committed h.kept']
    exact congrArg fetched (Prod.mk.inj h.same).2.symm
  rcases h.load with hl | hl
  · -- nothing is pending, so `r` would be register 0
    rw [hl] at hload
    exact absurd ((Instruction.ofNat_eq_iff 0 r).mp hload).symm hr
  · exact hz i (hfetched ▸ hi) r hr (hl ▸ hload)

/-- **One turn does not reveal the difference.** -/
theorem Hidden.turn {p q : κ × Machine} (h : Hidden p q) (hz : q.2.NoHazard) (fires : Bool) :
    (T.turn fires p = none ∧ T.turn false q = none) ∨
    ∃ p' q', T.turn fires p = some p' ∧ T.turn false q = some q' ∧ Hidden p' q' := by
  have hp := oneInstruction_keeps h.kept
  have hq := oneInstruction_keeps h.kept'
  obtain ⟨hk, hcommitted⟩ : p.1 = q.1 ∧ p.2.committed = q.2.committed := Prod.mk.inj h.same
  -- both agree with the machine that has nothing pending
  have hagree : Outcome.Agree p.2.oneInstruction q.2.oneInstruction :=
    (oneInstruction_committed h.kept (h.noHazard hz)).trans
      (hcommitted ▸ (oneInstruction_committed h.kept' hz).symm)
  unfold Trap.turn
  generalize p.2.oneInstruction = x at hp hagree
  generalize q.2.oneInstruction = y at hq hagree
  cases hagree with
  | @completed a b hc hl =>
      have hab : Hidden (p.1, a) (q.1, b) := by
        refine ⟨hp, hq, ?_, Or.inr hl⟩
        unfold settled
        rw [hk, hc]
      exact Or.inr ⟨_, (q.1, b), rfl, rfl, hab.tick fires⟩
  | raised which a =>
      dsimp only
      rw [← hk]
      cases hT : T.handle which p.1 a with
      | none => exact Or.inl ⟨rfl, rfl⟩
      | some b =>
          have hkept := T.keeps hp hT
          exact Or.inr ⟨_, b, rfl, rfl, Hidden.tick ⟨hkept, hkept, rfl, Or.inr rfl⟩ fires⟩
  | crashed why => exact Or.inl ⟨rfl, rfl⟩

/-- No instruction of the run without interrupts meets the load before it. -/
def HazardFree (p : κ × Machine) : Prop :=
  ∀ n q, T.run (fun _ => false) p n = some q → q.2.NoHazard

/-- A run with interrupts stays beside the one without. -/
theorem run_hidden {p : κ × Machine} (hw : WellKept p.2.registers) (hz : T.HazardFree p)
    (fires : Nat → Bool) (n : Nat) :
    (T.run fires p n = none ∧ T.run (fun _ => false) p n = none) ∨
    ∃ a b, T.run fires p n = some a ∧ T.run (fun _ => false) p n = some b ∧ Hidden a b := by
  induction n with
  | zero => exact Or.inr ⟨p, p, rfl, rfl, ⟨hw, hw, rfl, Or.inr rfl⟩⟩
  | succ n ih =>
      unfold run
      rcases ih with ⟨ha, hb⟩ | ⟨a, b, ha, hb, hab⟩
      · rw [ha, hb]
        exact Or.inl ⟨rfl, rfl⟩
      · rw [ha, hb]
        exact hab.turn T (hz n b hb) (fires n)

/-- **Interrupts do not show.** Whatever the instructions between which interrupts come, after
every instruction the machine and the kernel are the same once a pending load is done: the
general registers, `HI`, `LO`, the program counters and memory. -/
theorem run_transparent (p : κ × Machine) (hw : WellKept p.2.registers) (hz : T.HazardFree p)
    (f g : Nat → Bool) (n : Nat) : (T.run f p n).map settled = (T.run g p n).map settled := by
  have hone : ∀ fires : Nat → Bool,
      (T.run fires p n).map settled = (T.run (fun _ => false) p n).map settled := by
    intro fires
    rcases T.run_hidden hw hz fires n with ⟨ha, hb⟩ | ⟨a, b, ha, hb, hab⟩
    · rw [ha, hb]
    · rw [ha, hb]
      exact congrArg some hab.same
  rw [hone f, hone g]

end Trap

/-! ## The kernel as it is -/

/-- **`ExceptionHandler` keeps the registers well**: it writes neither register 0 nor `LoadReg`. -/
def Kernel.trap {η : Type} (H : HostOps η) : Trap (Kernel η) where
  handle := fun which k m =>
    match exceptionHandler H which { k with machine := m } with
    | .returned k' => some (k', k'.machine)
    | _ => none
  keeps := by
    intro which k m k' m' hw h
    split at h
    · rename_i k₁ hk
      have hregs : ∀ {n}, handlerWrites n = false → k₁.machine.registers n = m.registers n :=
        exceptionHandler_registers H hk
      injection h with h
      injection h with _ h
      subst h
      refine ⟨(hregs rfl).trans hw.zero, ?_⟩
      rw [hregs rfl]
      exact hw.load
    · exact absurd h (by simp)

instance (m : Machine) : Decidable m.NoHazard :=
  decidable_of_iff (∀ i ∈ m.fetched.toList, ∀ r : Fin numGPRegs, r ≠ 0 →
    m.registers loadReg = BitVec.ofNat 32 r → i.MayFollow r) (by
      unfold Machine.NoHazard
      simp only [Option.mem_toList])

/-- `lw $1, 12($0)`, `addu $2, $3, $3`, `addu $2, $1, $1` and a word that is no instruction. -/
def loading : Machine :=
  Machine.sample [0x8c01000c#32, 0x00631021#32, 0x00211021#32, 0xffffffff#32]
    (upd (fun _ => 0#32) nextPCReg 4#32)

/-- The sum of the loaded words is the same with an interrupt after every instruction as with
none. -/
theorem loading_transparent :
    ((Kernel.trap Kernel.bareHost).run (fun _ => true) (Kernel.closing 0#32, loading) 3).isSome ∧
    ((Kernel.trap Kernel.bareHost).run (fun _ => true) (Kernel.closing 0#32, loading) 3).map
        Trap.settled =
      ((Kernel.trap Kernel.bareHost).run (fun _ => false) (Kernel.closing 0#32, loading) 3).map
        Trap.settled := by
  refine ⟨by decide, Trap.run_transparent _ _ ⟨rfl, by decide⟩ ?_ _ _ 3⟩
  intro n q hq
  have hend : ∀ m, (Kernel.trap Kernel.bareHost).run (fun _ => false)
      (Kernel.closing 0#32, loading) (m + 4) = none := by
    intro m
    induction m with
    | zero => rfl
    | succ m ih =>
        rw [Trap.run, show m + 1 + 3 = m + 4 from rfl, ih]
        rfl
  have hcheck : ∀ m < 4, ((Kernel.trap Kernel.bareHost).run (fun _ => false)
      (Kernel.closing 0#32, loading) m).all (fun q => decide q.2.NoHazard) = true := by decide
  by_cases hn : n < 4
  · have hall := hcheck n hn
    rw [hq] at hall
    simpa using hall
  · obtain ⟨m, rfl⟩ : ∃ m, n = m + 4 := ⟨n - 4, by omega⟩
    rw [hend m] at hq
    exact absurd hq (by simp)

end Nachos
