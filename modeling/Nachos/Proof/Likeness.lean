import Nachos.Proof.DelayedLoads
import Nachos.Userprog.Multiprogram

/-!
# What a user program can see of the machine

The interpreter has four ways to the machine: it reads and writes a register, and it reads and
writes memory. A relation between machines that these four keep is kept by every instruction, by the
exceptions it raises and by the load it leaves behind. `Respects` says this once.

The relation that it is used for is `Alike`: the same registers, the same pages, and the same byte
behind each address. Where the bytes are in main memory makes no difference to it, and it says
nothing about the bytes that no page leads to.
-/

namespace Nachos

open Base (upd Sim bind_eq_of_ok)

/-! ## Relations that the interpreter keeps -/

/-- The two machines do the same in the four ways, and are related again. -/
structure Respects (R : Machine → Machine → Prop) : Prop where
  reg : ∀ n, n < numTotalRegs → Sim R Eq (Mips.reg n) (Mips.reg n)
  setReg : ∀ n v, n < numTotalRegs → Sim R Eq (Mips.setReg n v) (Mips.setReg n v)
  readMem : ∀ addr size, Machine.IsSize size →
    Sim R Eq (Mips.readMem addr size) (Mips.readMem addr size)
  writeMem : ∀ addr size v, Machine.IsSize size →
    Sim R Eq (Mips.writeMem addr size v) (Mips.writeMem addr size v)

namespace Respects

open Mips Instruction Machine

variable {R : Machine → Machine → Prop} (h : Respects R)

include h

theorem gp (r : Fin numGPRegs) : Sim R Eq (Mips.reg r) (Mips.reg r) := h.reg r (gp_lt r)

theorem write {n : Nat} (hn : n < numTotalRegs) (v : BitVec 32) (next : Next) :
    Sim R Eq (do Mips.setReg n v; return next) (do Mips.setReg n v; return next) :=
  (h.setReg n v hn).bind_eq fun _ => .pure rfl

variable (i : Instruction) (pcAfter : BitVec 32)

theorem toRd (f : BitVec 32 → BitVec 32 → BitVec 32) :
    Sim R Eq (i.toRd pcAfter f) (i.toRd pcAfter f) :=
  (h.gp i.rs).bind_eq fun _ => (h.gp i.rt).bind_eq fun _ => h.write (gp_lt i.rd) _ _

theorem shifted (f : BitVec 32 → BitVec 32) : Sim R Eq (i.shifted pcAfter f)
    (i.shifted pcAfter f) :=
  (h.gp i.rt).bind_eq fun _ => h.write (gp_lt i.rd) _ _

theorem toRt (f : BitVec 32 → BitVec 32) : Sim R Eq (i.toRt pcAfter f) (i.toRt pcAfter f) :=
  (h.gp i.rs).bind_eq fun _ => h.write (gp_lt i.rt) _ _

theorem add : Sim R Eq (i.add pcAfter) (i.add pcAfter) :=
  (h.gp i.rs).bind_eq fun _ => (h.gp i.rt).bind_eq fun _ =>
    .ite (.throw _) (h.write (gp_lt i.rd) _ _)

theorem addi : Sim R Eq (i.addi pcAfter) (i.addi pcAfter) :=
  (h.gp i.rs).bind_eq fun _ => .ite (.throw _) (h.write (gp_lt i.rt) _ _)

theorem sub : Sim R Eq (i.sub pcAfter) (i.sub pcAfter) :=
  (h.gp i.rs).bind_eq fun _ => (h.gp i.rt).bind_eq fun _ =>
    .ite (.throw _) (h.write (gp_lt i.rd) _ _)

theorem branch (taken : Bool) : Sim R Eq (i.branch pcAfter taken) (i.branch pcAfter taken) :=
  .ite ((h.reg nextPCReg (by decide)).bind_eq fun _ => .pure rfl) (.pure rfl)

theorem branchTwo (c : BitVec 32 → BitVec 32 → Bool) :
    Sim R Eq (i.branchTwo pcAfter c) (i.branchTwo pcAfter c) :=
  (h.gp i.rs).bind_eq fun _ => (h.gp i.rt).bind_eq fun _ => h.branch i pcAfter _

theorem branchOne (c : BitVec 32 → Bool) : Sim R Eq (i.branchOne pcAfter c)
    (i.branchOne pcAfter c) :=
  (h.gp i.rs).bind_eq fun _ => h.branch i pcAfter _

theorem link {n : Nat} (hn : n < numTotalRegs) : Sim R Eq (link n) (link n) :=
  (h.reg nextPCReg (by decide)).bind_eq fun _ => h.setReg n _ hn

theorem jumpReg : Sim R Eq i.jumpReg i.jumpReg := (h.gp i.rs).bind_eq fun _ => .pure rfl

theorem setHiLo (hi lo : BitVec 32) (next : Next) :
    Sim R Eq (do setHiLo hi lo; return next) (do setHiLo hi lo; return next) := by
  refine .bind_eq ?_ fun _ => .pure rfl
  exact (h.setReg loReg lo (by decide)).bind_eq fun _ => h.setReg hiReg hi (by decide)

theorem div : Sim R Eq (i.div pcAfter) (i.div pcAfter) := by
  refine (h.gp i.rs).bind_eq fun rs => (h.gp i.rt).bind_eq fun rt => ?_
  refine .ite (h.setHiLo _ _ _) (.bind_eq (.ite (.throw _) (.pure rfl)) fun q => ?_)
  exact h.setHiLo _ _ _

theorem divu : Sim R Eq (i.divu pcAfter) (i.divu pcAfter) := by
  refine (h.gp i.rs).bind_eq fun rs => (h.gp i.rt).bind_eq fun rt => ?_
  refine .ite (h.setHiLo _ _ _) (.bind_eq (.ite (.throw _) (.pure rfl)) fun q => ?_)
  exact h.setHiLo _ _ _

theorem multiply (signedArith : Bool) :
    Sim R Eq (i.multiply pcAfter signedArith) (i.multiply pcAfter signedArith) :=
  (h.gp i.rs).bind_eq fun _ => (h.gp i.rt).bind_eq fun _ => h.setHiLo _ _ _

theorem moveFrom {n : Nat} (hn : n < numTotalRegs) :
    Sim R Eq (i.moveFrom pcAfter n) (i.moveFrom pcAfter n) :=
  (h.reg n hn).bind_eq fun _ => h.write (gp_lt i.rd) _ _

theorem moveTo {n : Nat} (hn : n < numTotalRegs) :
    Sim R Eq (i.moveTo pcAfter n) (i.moveTo pcAfter n) :=
  (h.gp i.rs).bind_eq fun _ => h.write hn _ _

theorem address : Sim R Eq i.address i.address := (h.gp i.rs).bind_eq fun _ => .pure rfl

theorem loadByte (signed : Bool) :
    Sim R Eq (i.loadByte pcAfter signed) (i.loadByte pcAfter signed) :=
  (h.address i).bind_eq fun _ => (h.readMem _ 1 (.inl rfl)).bind_eq fun _ => .pure rfl

theorem loadHalf (signed : Bool) :
    Sim R Eq (i.loadHalf pcAfter signed) (i.loadHalf pcAfter signed) :=
  (h.address i).bind_eq fun _ =>
    .ite (.throw _) ((h.readMem _ 2 (.inr (.inl rfl))).bind_eq fun _ => .pure rfl)

theorem loadWord : Sim R Eq (i.loadWord pcAfter) (i.loadWord pcAfter) :=
  (h.address i).bind_eq fun _ =>
    .ite (.throw _) ((h.readMem _ 4 (.inr (.inr rfl))).bind_eq fun _ => .pure rfl)

theorem loadTarget : Sim R Eq i.loadTarget i.loadTarget :=
  (h.reg loadReg (by decide)).bind_eq fun _ => .ite (h.reg loadValueReg (by decide)) (h.gp i.rt)

theorem loadUnaligned (merge : BitVec 32 → BitVec 32 → BitVec 32 → BitVec 32) :
    Sim R Eq (i.loadUnaligned pcAfter merge) (i.loadUnaligned pcAfter merge) :=
  (h.address i).bind_eq fun _ => (h.readMem _ 4 (.inr (.inr rfl))).bind_eq fun _ =>
    (h.loadTarget i).bind_eq fun _ => .pure rfl

theorem store {size : Nat} (hs : IsSize size) : Sim R Eq (i.store pcAfter size)
    (i.store pcAfter size) :=
  (h.address i).bind_eq fun _ => (h.gp i.rt).bind_eq fun _ =>
    (h.writeMem _ size _ hs).bind_eq fun _ => .pure rfl

theorem storeUnaligned (merge : BitVec 32 → BitVec 32 → BitVec 32 → BitVec 32) :
    Sim R Eq (i.storeUnaligned pcAfter merge) (i.storeUnaligned pcAfter merge) :=
  (h.address i).bind_eq fun _ => (h.readMem _ 4 (.inr (.inr rfl))).bind_eq fun _ =>
    (h.gp i.rt).bind_eq fun _ => (h.writeMem _ 4 _ (.inr (.inr rfl))).bind_eq fun _ => .pure rfl

/-- Every case of the switch. -/
theorem execute : Sim R Eq (i.execute pcAfter) (i.execute pcAfter) := by
  unfold Instruction.execute
  cases i.opCode with
  | lwl | lwr => exact h.loadUnaligned i pcAfter _
  | add => exact h.add i pcAfter
  | addi => exact h.addi i pcAfter
  | sub => exact h.sub i pcAfter
  | addu | and | nor | or | sllv | slt | sltu | srav | srlv | subu | xor => exact h.toRd i pcAfter _
  | sll | sra | srl => exact h.shifted i pcAfter _
  | addiu | andi | ori | slti | sltiu | xori => exact h.toRt i pcAfter _
  | lui => exact h.write (gp_lt i.rt) _ _
  | beq | bne => exact h.branchTwo i pcAfter _
  | bgez | bgtz | blez | bltz => exact h.branchOne i pcAfter _
  | bgezal | bltzal =>
      exact (h.link (n := r31) (by decide)).bind_eq fun _ => h.branchOne i pcAfter _
  | div => exact h.div i pcAfter
  | divu => exact h.divu i pcAfter
  | j => exact .pure rfl
  | jal => exact (h.link (n := r31) (by decide)).bind_eq fun _ => .pure rfl
  | jalr => exact (h.link (gp_lt i.rd)).bind_eq fun _ => h.jumpReg i
  | jr => exact h.jumpReg i
  | lb | lbu => exact h.loadByte i pcAfter _
  | lh | lhu => exact h.loadHalf i pcAfter _
  | lw => exact h.loadWord i pcAfter
  | mfhi | mflo => exact h.moveFrom i pcAfter (by decide)
  | mthi | mtlo => exact h.moveTo i pcAfter (by decide)
  | mult | multu => exact h.multiply i pcAfter _
  | sb => exact h.store i pcAfter (.inl rfl)
  | sh => exact h.store i pcAfter (.inr (.inl rfl))
  | sw => exact h.store i pcAfter (.inr (.inr rfl))
  | swl | swr => exact h.storeUnaligned i pcAfter _
  | syscall | unimp | res => exact .throw _
  | rfe | special | bcond => exact .throw _

omit h in
/-- `DelayedLoad` as reads and writes of registers. -/
theorem delayedLoad_eq (nextReg nextValue : BitVec 32) : Mips.delayedLoad nextReg nextValue = (do
    let target ← Mips.reg loadReg
    let value ← Mips.reg loadValueReg
    Mips.setReg target.toNat value
    Mips.setReg loadReg nextReg
    Mips.setReg loadValueReg nextValue
    Mips.setReg 0 0#32) := by
  funext m
  rw [bind_eq_of_ok (reg_eq (by decide)), bind_eq_of_ok (reg_eq (by decide))]
  unfold Mips.delayedLoad
  split
  · rename_i hlt
    rw [bind_eq_of_ok (setReg_eq hlt _), bind_eq_of_ok (setReg_eq (by decide) _),
      bind_eq_of_ok (setReg_eq (by decide) _), setReg_eq (by decide)]
    rfl
  · rename_i hge
    refine (Base.bind_eq_of_error ?_).symm
    exact if_neg hge

theorem delayedLoad (nextReg nextValue : BitVec 32) :
    Sim R Eq (Mips.delayedLoad nextReg nextValue) (Mips.delayedLoad nextReg nextValue) := by
  rw [delayedLoad_eq]
  refine (h.reg loadReg (by decide)).bind_eq fun target =>
    (h.reg loadValueReg (by decide)).bind_eq fun value => .bind_eq ?_ fun _ =>
    (h.setReg loadReg _ (by decide)).bind_eq fun _ =>
    (h.setReg loadValueReg _ (by decide)).bind_eq fun _ => h.setReg 0 _ (by decide)
  by_cases hlt : target.toNat < numTotalRegs
  · exact h.setReg _ _ hlt
  · -- the array is overrun on both sides
    intro s t hR
    have hover : ∀ m : Machine, Mips.setReg target.toNat value m = .error (.crash .overrun) m :=
      fun m => if_neg hlt
    rw [hover, hover]
    exact ⟨rfl, hR⟩

/-- **An instruction, up to its end or to what stops it.** -/
theorem oneInstruction : Sim R Eq Mips.oneInstruction Mips.oneInstruction := by
  have hfetch : Sim R Eq fetch fetch :=
    (h.reg pcReg (by decide)).bind_eq fun _ => (h.readMem _ 4 (.inr (.inr rfl))).bind_eq fun _ =>
      .pure rfl
  refine hfetch.bind_eq fun i => (h.reg nextPCReg (by decide)).bind_eq fun nextPC =>
    (h.execute i _).bind_eq fun next => (h.delayedLoad _ _).bind_eq fun _ => ?_
  exact (h.reg pcReg (by decide)).bind_eq fun _ =>
    (h.setReg prevPCReg _ (by decide)).bind_eq fun _ =>
    (h.reg nextPCReg (by decide)).bind_eq fun _ => (h.setReg pcReg _ (by decide)).bind_eq fun _ =>
      h.setReg nextPCReg _ (by decide)

theorem raiseException (badVAddr : BitVec 32) :
    Sim R Eq (Machine.raiseException badVAddr) (Machine.raiseException badVAddr) :=
  (h.setReg badVAddrReg badVAddr (by decide)).bind_eq fun _ => h.delayedLoad _ _

end Respects

/-! ## Machines that a program cannot tell apart -/

namespace Machine

/-- The frame is behind one of the pages. -/
def Owns (m : Machine) (f : Int) : Prop :=
  ∃ v, v < m.pageTableSize ∧ (m.pageTable v).physicalPage = f

/-- The same registers, pages and bytes. -/
structure Alike (m t : Machine) : Prop where
  registers : ∀ n, n < numTotalRegs → t.registers n = m.registers n
  size : t.pageTableSize = m.pageTableSize
  valid : ∀ v, v < m.pageTableSize → (t.pageTable v).valid = (m.pageTable v).valid
  readOnly : ∀ v, v < m.pageTableSize → (t.pageTable v).readOnly = (m.pageTable v).readOnly
  left : m.Linear
  right : t.Linear
  image : t.image = m.image

/-- All that has happened between the two is in the registers and in the frames of the pages. -/
structure Within (m m' : Machine) : Prop where
  map : SameMap m m'
  memory : ∀ q : Nat, ¬ m.Owns (q / pageSize : Nat) → m'.mainMemory q = m.mainMemory q

variable {m m' m'' t t' : Machine}

theorem SameMap.owns (h : SameMap m m') (f : Int) : m'.Owns f ↔ m.Owns f := by
  unfold Owns
  simp only [h.size, h.physicalPage]

theorem Within.refl (m : Machine) : Within m m := ⟨.refl m, fun _ _ => rfl⟩

theorem Within.trans (h : Within m m') (h' : Within m' m'') : Within m m'' where
  map := h.map.trans h'.map
  memory := fun q hq => (h'.memory q fun ho => hq ((h.map.owns _).mp ho)).trans (h.memory q hq)

theorem Alike.refl (h : m.Linear) : Alike m m :=
  ⟨fun _ _ => rfl, rfl, fun _ _ => rfl, fun _ _ => rfl, h, h, rfl⟩

theorem Alike.symm (h : Alike m t) : Alike t m where
  registers := fun n hn => (h.registers n hn).symm
  size := h.size.symm
  valid := fun v hv => (h.valid v (h.size ▸ hv)).symm
  readOnly := fun v hv => (h.readOnly v (h.size ▸ hv)).symm
  left := h.right
  right := h.left
  image := h.image.symm

theorem Alike.trans (h : Alike m t) (h' : Alike t t') : Alike m t' where
  registers := fun n hn => (h'.registers n hn).trans (h.registers n hn)
  size := h'.size.trans h.size
  valid := fun v hv => (h'.valid v (h.size ▸ hv)).trans (h.valid v hv)
  readOnly := fun v hv => (h'.readOnly v (h.size ▸ hv)).trans (h.readOnly v hv)
  left := h.left
  right := h'.right
  image := h'.image.trans h.image

/-- **The frames of the pages are all that the image depends on.** -/
theorem image_of_owned (hm : m.Linear) (hmap : SameMap m m')
    (hmem : ∀ q : Nat, m.Owns (q / pageSize : Nat) → m'.mainMemory q = m.mainMemory q) :
    m'.image = m.image := by
  funext a
  unfold image
  rw [hmap.place]
  split
  · cases hp : m.place a false with
    | none => rfl
    | some p =>
        obtain ⟨hlt, hvalid, _, _, hplace⟩ := (place_iff _ _ _ _).mp hp
        obtain ⟨h0, h1⟩ := hm.inside _ hlt hvalid
        refine hmem p ⟨_, hlt, ?_⟩
        have hoff : toUInt32 (a : Int) % pageSize < pageSize := Nat.mod_lt _ (by decide)
        unfold pageSize at *
        unfold toUInt32 numPhysPages at *
        omega
  · rfl

/-- A machine that is changed outside the frames of the pages looks as before. -/
theorem Alike.of_owned (h : Alike m t) (hmap : SameMap m m')
    (hreg : ∀ n, n < numTotalRegs → m'.registers n = m.registers n)
    (hmem : ∀ q : Nat, m.Owns (q / pageSize : Nat) → m'.mainMemory q = m.mainMemory q) :
    Alike m' t where
  registers := fun n hn => (h.registers n hn).trans (hreg n hn).symm
  size := h.size.trans hmap.size.symm
  valid := fun v hv => (h.valid v (hmap.size ▸ hv)).trans (hmap.valid v).symm
  readOnly := fun v hv => (h.readOnly v (hmap.size ▸ hv)).trans (hmap.readOnly v).symm
  left := h.left.congr hmap
  right := h.right
  image := h.image.trans (image_of_owned h.left hmap hmem).symm

/-- Both sides change their registers and their memory in the same way. -/
theorem Alike.step (h : Alike m t) (hm : SameMap m m') (ht : SameMap t t')
    (hreg : ∀ n, n < numTotalRegs → t'.registers n = m'.registers n)
    (himage : t'.image = m'.image) : Alike m' t' where
  registers := hreg
  size := ht.size.trans (h.size.trans hm.size.symm)
  valid := fun v hv => by
    rw [ht.valid, hm.valid]
    exact h.valid v (hm.size ▸ hv)
  readOnly := fun v hv => by
    rw [ht.readOnly, hm.readOnly]
    exact h.readOnly v (hm.size ▸ hv)
  left := h.left.congr hm
  right := h.right.congr ht
  image := himage

theorem sameMap_writeRegister (m : Machine) (n : Nat) (v : BitVec 32) :
    SameMap m (m.writeRegister n v) :=
  ⟨rfl, fun _ => rfl, fun _ => rfl, fun _ => rfl⟩

theorem Alike.writeRegister (h : Alike m t) (n : Nat) (v : BitVec 32) :
    Alike (m.writeRegister n v) (t.writeRegister n v) := by
  refine h.step (sameMap_writeRegister m n v) (sameMap_writeRegister t n v) (fun k hk => ?_) ?_
  · show upd t.registers n v k = upd m.registers n v k
    rw [Base.upd_apply, Base.upd_apply, h.registers k hk]
  · rw [image_congr (sameMap_writeRegister m n v) rfl,
      image_congr (sameMap_writeRegister t n v) rfl, h.image]

theorem Alike.trapped (h : Alike m t) (bad : BitVec 32) : Alike (m.trapped bad)
    (t.trapped bad) := by
  have hw := h.writeRegister badVAddrReg bad
  refine h.step (sameMap_trapped m bad) (sameMap_trapped t bad) (fun n hn => ?_) ?_
  · unfold Machine.trapped
    rw [delayedLoad_registers, delayedLoad_registers, hw.registers loadReg (by decide),
      hw.registers loadValueReg (by decide), hw.registers n hn]
  · rw [image_congr (sameMap_trapped m bad) rfl, image_congr (sameMap_trapped t bad) rfl, h.image]

theorem Within.writeRegister (h : Within m m') (n : Nat) (v : BitVec 32) :
    Within m (m'.writeRegister n v) :=
  ⟨h.map.trans (sameMap_writeRegister m' n v), h.memory⟩

theorem Within.touch (h : Within m m') (vpn : Nat) (w : Bool) : Within m (m'.touch vpn w) :=
  ⟨h.map.trans (sameMap_touch m' vpn w), h.memory⟩

theorem Alike.touch (h : Alike m t) (vpn : Nat) (w : Bool) :
    Alike (m.touch vpn w) (t.touch vpn w) := by
  refine h.step (sameMap_touch m vpn w) (sameMap_touch t vpn w) h.registers ?_
  rw [image_congr (sameMap_touch m vpn w) rfl, image_congr (sameMap_touch t vpn w) rfl, h.image]

/-- **The accesses of both go through or fail alike.** Where they go may differ. -/
theorem Alike.translate (h : Alike m t) (addr : Int) {size : Nat} (hs : IsSize size) (w : Bool) :
    (∃ e, m.translate addr size w = some (.error e) ∧ t.translate addr size w = some (.error e)) ∨
    ∃ p p', m.translate addr size w = some (.ok (p, m.touch (toUInt32 addr / pageSize) w)) ∧
      t.translate addr size w = some (.ok (p', t.touch (toUInt32 addr / pageSize) w)) := by
  have hmok := translate_ok_iff m addr hs w
  have htok := translate_ok_iff t addr hs w
  by_cases hok : addr % size = 0 ∧ toUInt32 addr / pageSize < m.pageTableSize ∧
      (m.pageTable (toUInt32 addr / pageSize)).valid = true ∧
      ((m.pageTable (toUInt32 addr / pageSize)).readOnly && w) = false
  · -- valid pages have frames on both sides
    obtain ⟨h0, h1, h2, h3⟩ := hok
    have h1' : toUInt32 addr / pageSize < t.pageTableSize := h.size.symm ▸ h1
    have h2' := (h.valid _ h1).trans h2
    have h3' : ((t.pageTable (toUInt32 addr / pageSize)).readOnly && w) = false := by
      rw [h.readOnly _ h1]
      exact h3
    obtain ⟨hlo, hhi⟩ := h.left.inside _ h1 h2
    obtain ⟨hlo', hhi'⟩ := h.right.inside _ h1' h2'
    have hframe : ∀ {f : Int}, 0 ≤ f → f < numPhysPages → toUInt32 f < numPhysPages := by
      intro f hf hf'
      unfold toUInt32
      unfold numPhysPages at *
      omega
    exact .inr ⟨_, _, (hmok _ _).mpr ⟨h0, h1, h2, h3, hframe hlo hhi, rfl, rfl⟩,
      (htok _ _).mpr ⟨h0, h1', h2', h3', hframe hlo' hhi', rfl, rfl⟩⟩
  · -- the conditions are looked at in one order
    left
    unfold Machine.translate
    simp only [aligned_iff hs, h.size]
    by_cases h0 : addr % size = 0
    swap
    · refine ⟨.addressErrorException, ?_, ?_⟩ <;> rw [if_pos h0]
    by_cases h1 : toUInt32 addr / pageSize < m.pageTableSize
    swap
    · refine ⟨.addressErrorException, ?_, ?_⟩ <;>
        rw [if_neg (not_not.mpr h0), if_pos (Nat.le_of_not_lt h1)]
    rw [if_neg (not_not.mpr h0), if_neg (not_not.mpr h0), if_neg (Nat.not_le.mpr h1),
      if_neg (Nat.not_le.mpr h1), h.valid _ h1, h.readOnly _ h1]
    cases h2 : (m.pageTable (toUInt32 addr / pageSize)).valid with
    | false => exact ⟨.pageFaultException, rfl, rfl⟩
    | true =>
        cases h3 : (m.pageTable (toUInt32 addr / pageSize)).readOnly && w with
        | true => exact ⟨.readOnlyException, rfl, rfl⟩
        | false => exact absurd ⟨h0, h1, h2, h3⟩ hok

theorem valueAt_congr {mem mem' : Memory} {p p' size : Nat} (hs : IsSize size)
    (h : bytesAt mem p size = bytesAt mem' p' size) :
    valueAt mem p size = valueAt mem' p' size := by
  unfold valueAt
  rcases hs with rfl | rfl | rfl
  · rw [if_pos rfl, if_pos rfl, h]
  · rw [if_neg (by decide), if_pos rfl, if_neg (by decide), if_pos rfl, h]
  · rw [if_neg (by decide), if_neg (by decide), if_neg (by decide), if_neg (by decide), h]

theorem bytes_of_translate {addr : Int} {size p : Nat} (hs : IsSize size)
    (h : m.translate addr size false = some (.ok (p, m'))) :
    bytesAt m.mainMemory p size = m.image.value (toUInt32 addr) size := by
  have hbytes : bytesAt m.mainMemory (p + 0) size = m.image.value (toUInt32 addr + 0) size := by
    refine bytesAt_eq_value 0 fun i _ hi => ?_
    obtain ⟨hlt, hx⟩ := place_of_translate hs h (show i < size by omega)
    exact (image_of_place hlt hx).symm
  exact hbytes

/-- What both read. -/
theorem Alike.value (h : Alike m t) {addr : Int} {size p p' : Nat} (hs : IsSize size)
    (hm : m.translate addr size false = some (.ok (p, m')))
    (ht : t.translate addr size false = some (.ok (p', t'))) :
    valueAt t.mainMemory p' size = valueAt m.mainMemory p size := by
  refine valueAt_congr hs ?_
  rw [bytes_of_translate hs hm, bytes_of_translate hs ht, h.image]

/-- The machine after `WriteMem`. -/
def stored (m : Machine) (addr : Int) (p size : Nat) (v : Int) : Machine :=
  { m.touch (toUInt32 addr / pageSize) true with
    mainMemory := putBytes m.mainMemory p size (toUInt32 v) }

theorem sameMap_stored (m : Machine) (addr : Int) (p size : Nat) (v : Int) :
    SameMap m (m.stored addr p size v) :=
  have h := sameMap_touch m (toUInt32 addr / pageSize) true
  ⟨h.size, h.valid, h.readOnly, h.physicalPage⟩

/-- What both write. -/
theorem Alike.stored (h : Alike m t) {addr v : Int} {size p p' : Nat} (hs : IsSize size)
    (hm : m.translate addr size true = some (.ok (p, m')))
    (ht : t.translate addr size true = some (.ok (p', t'))) :
    Alike (m.stored addr p size v) (t.stored addr p' size v) := by
  refine h.step (sameMap_stored m addr p size v) (sameMap_stored t addr p' size v) h.registers ?_
  rw [image_putBytes h.left.injective hs hm (sameMap_stored m addr p size v) rfl,
    image_putBytes h.right.injective hs ht (sameMap_stored t addr p' size v) rfl, h.image]

/-- A write stays in the frame of its page. -/
theorem within_stored (hm : m.Linear) {addr v : Int} {size p : Nat} (hs : IsSize size)
    (h : m.translate addr size true = some (.ok (p, m'))) : Within m (m.stored addr p size v) where
  map := sameMap_stored m addr p size v
  memory := fun q hq => by
    show putBytes m.mainMemory p size (toUInt32 v) q = m.mainMemory q
    rw [putBytes_at, if_neg]
    rintro ⟨hlo, hhi⟩
    obtain ⟨_, hplace⟩ := place_of_translate hs h (show q - p < size by omega)
    obtain ⟨hlt, hvalid, _, _, hq'⟩ := (place_iff _ _ _ _).mp hplace
    obtain ⟨h0, h1⟩ := hm.inside _ hlt hvalid
    refine hq ⟨_, hlt, ?_⟩
    have hoff :=
      Nat.mod_lt (toUInt32 ((toUInt32 addr + (q - p) : Nat) : Int)) (show 0 < pageSize by decide)
    generalize
      (m.pageTable (toUInt32 ((toUInt32 addr + (q - p) : Nat) : Int) / pageSize)).physicalPage = f
      at *
    generalize toUInt32 ((toUInt32 addr + (q - p) : Nat) : Int) % pageSize = k at *
    unfold pageSize at *
    unfold toUInt32 numPhysPages at *
    omega

/-- **What a program cannot see, an instruction cannot either**, and it stays within the frames of
the program. -/
theorem respects_alike (m₀ : Machine) : Respects fun m t => Alike m t ∧ Within m₀ m where
  reg := by
    rintro n hn m t ⟨h, hw⟩
    rw [Mips.reg_eq hn, Mips.reg_eq hn]
    exact ⟨(h.registers n hn).symm, h, hw⟩
  setReg := by
    rintro n v hn m t ⟨h, hw⟩
    rw [Mips.setReg_eq hn, Mips.setReg_eq hn]
    exact ⟨rfl, h.writeRegister n v, hw.writeRegister n v⟩
  readMem := by
    rintro addr size hs m t ⟨h, hw⟩
    unfold Mips.readMem Machine.readMem
    rcases h.translate addr.toInt hs false with ⟨e, hm, ht⟩ | ⟨p, p', hm, ht⟩
    · rw [hm, ht]
      exact ⟨rfl, h, hw⟩
    · rw [hm, ht]
      exact ⟨congrArg (BitVec.ofInt 32) (h.value hs hm ht).symm, h.touch _ _, hw.touch _ _⟩
  writeMem := by
    rintro addr size v hs m t ⟨h, hw⟩
    unfold Mips.writeMem Machine.writeMem
    rcases h.translate addr.toInt hs true with ⟨e, hm, ht⟩ | ⟨p, p', hm, ht⟩
    · rw [hm, ht]
      exact ⟨rfl, h, hw⟩
    · rw [hm, ht]
      exact ⟨rfl, h.stored hs hm ht, hw.trans (within_stored h.left hs hm)⟩

/-! ## What is done for a program -/

section Acts

variable {handling handling' : Option ExceptionType} {told : Told}

/-- The two ways for two programs of the interpreter to end, from machines that look alike. -/
theorem Alike.run {α : Type} {x : Mips α} (h : Alike m t)
    (hx : Sim (fun s t => Alike s t ∧ Within m s) Eq x x) :
    (∃ e s' t', x m = .error e s' ∧ x t = .error e t' ∧ Alike s' t' ∧ Within m s') ∨
    ∃ a s' t', x m = .ok a s' ∧ x t = .ok a t' ∧ Alike s' t' ∧ Within m s' := by
  rcases hx.cases ⟨h, .refl m⟩ with ⟨e, s', t', hs, ht, hR⟩ | ⟨a, b, s', t', hs, ht, rfl, hR⟩
  · exact .inl ⟨e, s', t', hs, ht, hR⟩
  · exact .inr ⟨a, s', t', hs, ht, hR⟩

/-- The exception that an instruction raises finds the machines alike. -/
theorem Alike.oneInstruction (h : Alike m t) :
    (∃ m' t', m.oneInstruction = .completed m' ∧ t.oneInstruction = .completed t' ∧
      Alike m' t' ∧ Within m m') ∨
    (∃ which m' t', m.oneInstruction = .raised which m' ∧ t.oneInstruction = .raised which t' ∧
      Alike m' t' ∧ Within m m') ∨ ∃ why, m.oneInstruction = .crashed why := by
  unfold Machine.oneInstruction
  rcases h.run (respects_alike m).oneInstruction with
    ⟨e, s', t', hm, ht, hs, hw⟩ | ⟨_, s', t', hm, ht, hs, hw⟩
  · rw [hm, ht]
    cases e with
    | crash why => exact .inr (.inr ⟨why, rfl⟩)
    | raise which bad =>
        rcases hs.run ((respects_alike s').raiseException bad) with
          ⟨e, s'', t'', hm', ht', _⟩ | ⟨_, s'', t'', hm', ht', hs', hw'⟩
        · exact .inr (.inr ⟨.overrun, by simp only [conclude, hm']⟩)
        · refine .inr (.inl ⟨which, s'', t'', ?_, ?_, hs', hw.trans hw'⟩)
          · simp only [conclude, hm']
          · simp only [conclude, ht']
  · rw [hm, ht]
    exact .inl ⟨s', t', rfl, rfl, hs, hw⟩

section Calls

variable {addr v : Int} {size p : Nat} {e : ExceptionType}

theorem call_read_failed (h : m.translate addr size false = some (.error e)) :
    m.call (.read addr size) = some (.failed, m.trapped (BitVec.ofInt 32 addr)) := by
  simp [Machine.call, Machine.readMem, h, Except.map]

theorem call_read (h : m.translate addr size false = some (.ok (p, m'))) :
    m.call (.read addr size) = some (.value (valueAt m'.mainMemory p size), m') := by
  simp [Machine.call, Machine.readMem, h, Except.map]

theorem call_write_failed (h : m.translate addr size true = some (.error e)) :
    m.call (.write addr size v) = some (.failed, m.trapped (BitVec.ofInt 32 addr)) := by
  simp [Machine.call, Machine.writeMem, h, Except.map]

theorem call_write
    (h : m.translate addr size true = some (.ok (p, m.touch (toUInt32 addr / pageSize) true))) :
    m.call (.write addr size v) = some (.done, m.stored addr p size v) := by
  simp only [Machine.call, Machine.writeMem, h, Except.map, Option.map_some]
  rfl

end Calls

/-- A call of `ReadMem` or `WriteMem`. -/
theorem Alike.call (h : Alike m t) {a : Access} (hs : IsSize a.size) {r : Reply}
    (hm : m.call a = some (r, m')) :
    ∃ t', t.call a = some (r, t') ∧ Alike m' t' ∧ Within m m' := by
  have hfail : ∀ bad, Within m (m.trapped bad) := fun bad => ⟨sameMap_trapped m bad, fun _ _ => rfl⟩
  cases a with
  | read addr size =>
      rcases h.translate addr hs false with ⟨e, hm', ht⟩ | ⟨p, p', hm', ht⟩
      · obtain ⟨rfl, rfl⟩ := Prod.mk.inj (Option.some.inj ((call_read_failed hm').symm.trans hm))
        exact ⟨_, call_read_failed ht, h.trapped _, hfail _⟩
      · obtain ⟨rfl, rfl⟩ := Prod.mk.inj (Option.some.inj ((call_read hm').symm.trans hm))
        refine ⟨_, (call_read ht).trans ?_, h.touch (toUInt32 addr / pageSize) false,
          (Within.refl m).touch _ _⟩
        exact congrArg (fun v => some (Reply.value v, _)) (h.value hs hm' ht)
  | write addr size v =>
      rcases h.translate addr hs true with ⟨e, hm', ht⟩ | ⟨p, p', hm', ht⟩
      · obtain ⟨rfl, rfl⟩ := Prod.mk.inj (Option.some.inj ((call_write_failed hm').symm.trans hm))
        exact ⟨_, call_write_failed ht, h.trapped _, hfail _⟩
      · obtain ⟨rfl, rfl⟩ := Prod.mk.inj (Option.some.inj ((call_write hm').symm.trans hm))
        exact ⟨_, call_write ht, h.stored hs hm' ht, within_stored h.left hs hm'⟩

/-- **An act leads to the same** on machines that look alike, it is answered in the same way, and
it changes nothing outside the frames of the program. -/
theorem Alike.act (h : Alike m t) {a : UserAct}
    (ha : m.act handling a = some (m', handling', told)) :
    ∃ t', t.act handling a = some (t', handling', told) ∧ Alike m' t' ∧ Within m m' := by
  cases a with
  | instruction =>
      unfold Machine.act at ha ⊢
      obtain ⟨rfl, ha⟩ := Option.ite_none_right_eq_some.mp ha
      rw [if_pos rfl]
      rcases h.oneInstruction with ⟨s', t', hs, ht, hR⟩ | ⟨which, s', t', hs, ht, hR⟩ | ⟨why, hs⟩
      · rw [hs] at ha
        obtain ⟨rfl, rfl, rfl⟩ := Option.some.inj ha
        rw [ht]
        exact ⟨t', rfl, hR⟩
      · rw [hs] at ha
        obtain ⟨rfl, rfl, rfl⟩ := Option.some.inj ha
        rw [ht]
        exact ⟨t', rfl, hR⟩
      · rw [hs] at ha
        exact absurd ha (by simp)
  | interrupt =>
      unfold Machine.act afterInterrupt at ha ⊢
      rcases h.run ((respects_alike m).delayedLoad 0#32 0#32) with
        ⟨e, s', t', hs, ht, _⟩ | ⟨_, s', t', hs, ht, hR⟩
      · rw [hs] at ha
        exact absurd ha (by simp)
      · rw [hs] at ha
        obtain ⟨rfl, rfl, rfl⟩ := Option.some.inj ha
        rw [ht]
        exact ⟨t', rfl, hR⟩
  | access a =>
      unfold Machine.act at ha ⊢
      obtain ⟨hgo, ha⟩ := Option.ite_none_right_eq_some.mp ha
      obtain ⟨⟨r, s'⟩, hcall, he⟩ := Option.map_eq_some_iff.mp ha
      obtain ⟨rfl, rfl, rfl⟩ := he
      obtain ⟨t', ht, hR⟩ := h.call hgo.2 hcall
      refine ⟨t', (if_pos hgo).trans ?_, hR⟩
      rw [ht]
      rfl
  | readRegister num =>
      unfold Machine.act at ha ⊢
      obtain ⟨hgo, ha⟩ := Option.ite_none_right_eq_some.mp ha
      obtain ⟨rfl, rfl, rfl⟩ := Option.some.inj ha
      refine ⟨t, (if_pos hgo).trans ?_, h, .refl m⟩
      exact congrArg (fun v => some (t, handling, Told.register v)) (h.registers num hgo.2)
  | writeRegister num value =>
      unfold Machine.act at ha ⊢
      obtain ⟨hgo, ha⟩ := Option.ite_none_right_eq_some.mp ha
      obtain ⟨rfl, rfl, rfl⟩ := Option.some.inj ha
      exact ⟨_, if_pos hgo, h.writeRegister num value, (Within.refl m).writeRegister num value⟩
  | resume =>
      unfold Machine.act at ha ⊢
      obtain ⟨hgo, ha⟩ := Option.ite_none_right_eq_some.mp ha
      obtain ⟨rfl, rfl, rfl⟩ := Option.some.inj ha
      exact ⟨t, if_pos hgo, h, .refl m⟩

end Acts

end Machine

end Nachos
