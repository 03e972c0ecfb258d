import Nachos.Base.System
import Nachos.Lib.Utility

/-!
# The simulated machine: registers, memory and address translation

`machine/machine.h` and `machine/translate.cc`, as built without a TLB. Main
memory is an array of bytes in the address space of the host, and it is modelled
by what lies at every *offset from its first byte*: the kernel writes into it
through host pointers, and a pointer past the end of the array still names a byte
of the host. The offsets `0 .. MemorySize - 1` are main memory proper.

A page table is likewise whatever entries lie behind its pointer; only
`pageTableSize` says how many of them the hardware looks at.
-/

namespace Nachos

/-- `PageSize`, in bytes. -/
def pageSize : Nat := 512

/-- `NumPhysPages`: the frames there are. -/
def numPhysPages : Nat := 128

theorem numPhysPages_pos : 0 < numPhysPages := by decide

/-- `MemorySize`. -/
def memorySize : Nat := numPhysPages * pageSize

/-- The bytes of the host, by offset from `mainMemory`. -/
abbrev Memory := Int → UInt8

/-- The exceptions of `machine.h`. -/
inductive ExceptionType where
  | noException
  | syscallException
  | pageFaultException
  | readOnlyException
  | busErrorException
  | addressErrorException
  | overflowException
  | illegalInstrException
  | numExceptionTypes
  deriving DecidableEq, Repr

/-- One entry of a page table. -/
structure TranslationEntry where
  /-- The page number in virtual memory. -/
  virtualPage : Int
  /-- The page number in main memory. -/
  physicalPage : Int
  /-- The entry has been set up. -/
  valid : Bool
  /-- The user program may not write to the page. -/
  readOnly : Bool
  /-- Set when the page is referenced. -/
  use : Bool
  /-- Set when the page is modified. -/
  dirty : Bool
  deriving DecidableEq, Repr

/-- The state of the simulated hardware that the kernel touches. -/
structure Machine where
  /-- The user registers, by number. -/
  registers : Nat → BitVec 32
  /-- Main memory and what surrounds it. -/
  mainMemory : Memory
  /-- The entries behind the page table pointer. -/
  pageTable : Nat → TranslationEntry
  /-- How many of them there are said to be. -/
  pageTableSize : Nat

/-! ## Registers -/

/-- `StackReg`: the stack pointer of the user program. -/
def stackReg : Nat := 29

/-- `HiReg`: the upper half of a product, or a remainder. -/
def hiReg : Nat := 32

/-- `LoReg`: the lower half of a product, or a quotient. -/
def loReg : Nat := 33

/-- `PCReg`: the instruction that is executed. -/
def pcReg : Nat := 34

/-- `NextPCReg`: the one after it, which a branch does not skip. -/
def nextPCReg : Nat := 35

/-- `PrevPCReg`: the one before, for debugging. -/
def prevPCReg : Nat := 36

/-- The register that the pending load is for. -/
def loadReg : Nat := 37

/-- What it is to be given. -/
def loadValueReg : Nat := 38

/-- The address that an exception is about. -/
def badVAddrReg : Nat := 39

/-- `NumTotalRegs`. -/
def numTotalRegs : Nat := 40

namespace Machine

/-- `ReadRegister`. -/
def readRegister (m : Machine) (num : Nat) : BitVec 32 := m.registers num

/-- `WriteRegister`. -/
def writeRegister (m : Machine) (num : Nat) (value : BitVec 32) : Machine :=
  { m with registers := Base.upd m.registers num value }

/-! ## Translation -/

/-- The entry of page `vpn` with its `use` bit set, and `dirty` too on a write. -/
def touch (m : Machine) (vpn : Nat) (writing : Bool) : Machine :=
  let entry := m.pageTable vpn
  { m with pageTable :=
      Base.upd m.pageTable vpn { entry with use := true, dirty := entry.dirty || writing } }

/-- `Translate`: the physical address, or the exception. The outer `none` is the
final `ASSERT`. -/
def translate (m : Machine) (virtAddr : Int) (size : Nat) (writing : Bool) :
    Option (Except ExceptionType (Nat × Machine)) :=
  if (size = 4 ∧ virtAddr % 4 ≠ 0) ∨ (size = 2 ∧ virtAddr % 2 ≠ 0) then
    some (.error .addressErrorException)
  else
    let vpn := toUInt32 virtAddr / pageSize
    let offset := toUInt32 virtAddr % pageSize
    if m.pageTableSize ≤ vpn then some (.error .addressErrorException)
    else if !(m.pageTable vpn).valid then some (.error .pageFaultException)
    else if (m.pageTable vpn).readOnly && writing then some (.error .readOnlyException)
    else
      let pageFrame := toUInt32 (m.pageTable vpn).physicalPage
      if numPhysPages ≤ pageFrame then some (.error .busErrorException)
      else
        let physAddr := pageFrame * pageSize + offset
        if physAddr + size ≤ memorySize then some (.ok (physAddr, m.touch vpn writing)) else none

/-- The unsigned number in the `size` bytes from `a` on, lowest byte first. -/
def bytesAt (mem : Memory) (a : Nat) : Nat → Nat
  | 0 => 0
  | size + 1 => (mem a).toNat + 256 * bytesAt mem (a + 1) size

/-- The value `ReadMem` delivers: a byte is a signed `char`, a half word is unsigned. -/
def valueAt (mem : Memory) (a size : Nat) : Int :=
  if size = 1 then (bytesAt mem a 1 : Int).bmod 256
  else if size = 2 then bytesAt mem a 2
  else toInt32 (bytesAt mem a 4)

/-- `ReadMem` for `size` 1, 2 or 4. -/
def readMem (m : Machine) (addr : Int) (size : Nat) :
    Option (Except ExceptionType (Int × Machine)) :=
  (m.translate addr size false).map fun r =>
    r.map fun p => (valueAt p.2.mainMemory p.1 size, p.2)

/-- Main memory with the low `size` bytes of `value` at `a`, lowest byte first. -/
def putBytes (mem : Memory) (a : Nat) : Nat → Nat → Memory
  | 0, _ => mem
  | size + 1, value =>
      putBytes (Base.upd mem (a : Int) (UInt8.ofNat (value % 256))) (a + 1) size (value / 256)

/-- `WriteMem` for `size` 1, 2 or 4. -/
def writeMem (m : Machine) (addr : Int) (size : Nat) (value : Int) :
    Option (Except ExceptionType Machine) :=
  (m.translate addr size true).map fun r =>
    r.map fun p => { p.2 with mainMemory := putBytes p.2.mainMemory p.1 size (toUInt32 value) }

@[simp] theorem registers_touch (m : Machine) (vpn : Nat) (w : Bool) :
    (m.touch vpn w).registers = m.registers := rfl

/-- All that a translation changes is the bits that record it. -/
theorem translate_machine {m m' : Machine} {addr : Int} {size p : Nat} {w : Bool}
    (h : m.translate addr size w = some (.ok (p, m'))) :
    m' = m.touch (toUInt32 addr / pageSize) w := by
  unfold translate at h
  split at h
  · exact absurd h (by simp)
  · dsimp only at h
    split at h
    · exact absurd h (by simp)
    split at h
    · exact absurd h (by simp)
    split at h
    · exact absurd h (by simp)
    split at h
    · exact absurd h (by simp)
    split at h
    · injection h with h; injection h with h; injection h with _ h
      exact h.symm
    · exact absurd h (by simp)

theorem translate_registers {m m' : Machine} {addr : Int} {size p : Nat} {w : Bool}
    (h : m.translate addr size w = some (.ok (p, m'))) : m'.registers = m.registers := by
  rw [translate_machine h, registers_touch]

theorem ok_of_map_map {ε α β : Type} {r : Option (Except ε α)} {f : α → β} {b : β}
    (h : r.map (fun x => x.map f) = some (.ok b)) : ∃ a, r = some (.ok a) ∧ f a = b := by
  cases r with
  | none => exact absurd h (by simp)
  | some x =>
      cases x with
      | error e => exact absurd h (by simp [Except.map])
      | ok a => exact ⟨a, rfl, by simpa [Except.map] using h⟩

theorem readMem_registers {m m' : Machine} {addr v : Int} {size : Nat}
    (h : m.readMem addr size = some (.ok (v, m'))) : m'.registers = m.registers := by
  obtain ⟨p, hp, he⟩ := ok_of_map_map h
  injection he with _ he
  subst he
  exact translate_registers hp

theorem writeMem_registers {m m' : Machine} {addr v : Int} {size : Nat}
    (h : m.writeMem addr size v = some (.ok m')) : m'.registers = m.registers := by
  obtain ⟨p, hp, he⟩ := ok_of_map_map h
  subst he
  show p.2.registers = m.registers
  exact translate_registers hp

/-! ## Where a translation can fail -/

/-- The sizes of an access. -/
def IsSize (size : Nat) : Prop := size = 1 ∨ size = 2 ∨ size = 4

/-- **The final `ASSERT` of `Translate` holds**: an aligned access does not run over the end of a
page. -/
theorem translate_ne_none (m : Machine) (addr : Int) {size : Nat} (hs : IsSize size) (w : Bool) :
    m.translate addr size w ≠ none := by
  unfold translate
  split
  · simp
  · rename_i haligned
    dsimp only
    split
    · simp
    split
    · simp
    split
    · simp
    split
    · simp
    · rename_i hframe
      have hfits : toUInt32 (m.pageTable (toUInt32 addr / pageSize)).physicalPage * pageSize
          + toUInt32 addr % pageSize + size ≤ memorySize := by
        unfold memorySize numPhysPages pageSize at *
        unfold IsSize at hs
        unfold toUInt32 at *
        omega
      rw [if_pos hfits]
      simp

/-- An access fails for a reason that has to do with the address. -/
theorem translate_error_ne {m : Machine} {addr : Int} {size : Nat} {w : Bool} {e : ExceptionType}
    (h : m.translate addr size w = some (.error e)) :
    e ≠ .overflowException ∧ e ≠ .syscallException := by
  unfold translate at h
  dsimp only at h
  repeat' split at h
  all_goals
    first
    | (injection h with h; injection h with h; subst h; decide)
    | exact absurd h (by simp)

theorem aligned_iff {size : Nat} (hs : IsSize size) (addr : Int) :
    ((size = 4 ∧ addr % 4 ≠ 0) ∨ (size = 2 ∧ addr % 2 ≠ 0)) ↔ ¬ (addr % size = 0) := by
  rcases hs with rfl | rfl | rfl
  · simp
  · simp
  · simp

/-- **When an access is allowed, and where it goes.** -/
theorem translate_ok_iff (m : Machine) (addr : Int) {size : Nat} (hs : IsSize size) (w : Bool)
    (p : Nat) (m' : Machine) :
    m.translate addr size w = some (.ok (p, m')) ↔
      addr % size = 0 ∧ toUInt32 addr / pageSize < m.pageTableSize ∧
      (m.pageTable (toUInt32 addr / pageSize)).valid = true ∧
      ((m.pageTable (toUInt32 addr / pageSize)).readOnly && w) = false ∧
      toUInt32 (m.pageTable (toUInt32 addr / pageSize)).physicalPage < numPhysPages ∧
      p = toUInt32 (m.pageTable (toUInt32 addr / pageSize)).physicalPage * pageSize
        + toUInt32 addr % pageSize ∧
      m' = m.touch (toUInt32 addr / pageSize) w := by
  have hnone := m.translate_ne_none addr hs w
  unfold translate at hnone ⊢
  simp only [aligned_iff hs] at hnone ⊢
  by_cases h0 : addr % size = 0
  swap
  · rw [if_pos h0]
    exact iff_of_false (by simp) fun h => h0 h.1
  rw [if_neg (not_not.mpr h0)] at hnone ⊢
  by_cases h1 : m.pageTableSize ≤ toUInt32 addr / pageSize
  · rw [if_pos h1]
    exact iff_of_false (by simp) fun h => absurd h.2.1 (by omega)
  rw [if_neg h1] at hnone ⊢
  cases h2 : (m.pageTable (toUInt32 addr / pageSize)).valid with
  | false => simp
  | true =>
      rw [h2, if_neg (by simp)] at hnone
      rw [if_neg (by simp)]
      cases h3 : (m.pageTable (toUInt32 addr / pageSize)).readOnly && w with
      | true => simp
      | false =>
          rw [h3, if_neg (by simp)] at hnone
          rw [if_neg (by simp)]
          by_cases h4 :
            numPhysPages ≤ toUInt32 (m.pageTable (toUInt32 addr / pageSize)).physicalPage
          · rw [if_pos h4]
            exact iff_of_false (by simp) fun h => absurd h.2.2.2.2.1 (by omega)
          · rw [if_neg h4] at hnone ⊢
            split at hnone
            · rename_i hfits
              rw [if_pos hfits]
              simp only [Option.some.injEq, Except.ok.injEq, Prod.mk.injEq]
              exact ⟨fun h => ⟨h0, by omega, trivial, trivial, by omega, h.1.symm, h.2.symm⟩,
                fun h => ⟨h.2.2.2.2.2.1.symm, h.2.2.2.2.2.2.symm⟩⟩
            · exact absurd rfl hnone

/-! ## Bytes and strings of the user -/

/-- The byte at a virtual address, if it can be read. -/
def byteAt (m : Machine) (addr : Int) : Option UInt8 :=
  match m.translate addr 1 false with
  | some (.ok (p, _)) => some (m.mainMemory p)
  | _ => none

/-- The string at a virtual address, cut off after `n` characters, if all of it can be read. -/
def stringAt (m : Machine) : Nat → Int → Option (List UInt8)
  | 0, _ => some []
  | n + 1, addr =>
      match m.byteAt (toInt32 addr) with
      | none => none
      | some c => if c = 0 then some [] else (m.stringAt n (addr + 1)).map (c :: ·)

/-- The bits that record an access do not influence the next one. -/
theorem byteAt_touch (m : Machine) (vpn : Nat) (w : Bool) (addr : Int) :
    (m.touch vpn w).byteAt addr = m.byteAt addr := by
  have hvalid : ∀ v, ((m.touch vpn w).pageTable v).valid = (m.pageTable v).valid := by
    intro v
    by_cases hv : v = vpn
    · subst hv; simp [touch]
    · simp [touch, Base.upd_ne _ _ hv]
  have hphys : ∀ v, ((m.touch vpn w).pageTable v).physicalPage = (m.pageTable v).physicalPage := by
    intro v
    by_cases hv : v = vpn
    · subst hv; simp [touch]
    · simp [touch, Base.upd_ne _ _ hv]
  have hsize : (m.touch vpn w).pageTableSize = m.pageTableSize := rfl
  unfold byteAt translate
  simp only [hvalid, hphys, hsize, Bool.and_false, Bool.false_eq_true, if_false]
  split_ifs <;> rfl

theorem stringAt_touch (m : Machine) (vpn : Nat) (w : Bool) : ∀ (n : Nat) (addr : Int),
    (m.touch vpn w).stringAt n addr = m.stringAt n addr := by
  intro n
  induction n with
  | zero => intro _; rfl
  | succ n ih =>
      intro addr
      rw [stringAt, stringAt, byteAt_touch, ih]

/-- **`ReadMem` of one byte delivers it as a signed character**, and fails when it cannot be
read. -/
theorem readMem_byte (m : Machine) (addr v : Int) (m' : Machine) :
    m.readMem addr 1 = some (.ok (v, m')) ↔
      ∃ c, m.byteAt addr = some c ∧ v = (c.toNat : Int).bmod 256
        ∧ m' = m.touch (toUInt32 addr / pageSize) false := by
  unfold byteAt
  constructor
  · intro h
    obtain ⟨⟨p, m₁⟩, hp, he⟩ := ok_of_map_map h
    rw [hp]
    have hm := translate_machine hp
    injection he with hv hm'
    refine ⟨m.mainMemory p, rfl, ?_, hm' ▸ hm⟩
    rw [← hv, hm]
    simp [valueAt, bytesAt, touch]
  · intro h
    obtain ⟨c, hc, hv, hm'⟩ := h
    split at hc
    · rename_i p m₁ hp
      have hm := translate_machine hp
      injection hc with hc
      unfold readMem
      rw [hp, hv, hm', hm, ← hc]
      simp [valueAt, bytesAt, touch, Except.map]
    · exact absurd hc (by simp)

/-! ## Where a byte is -/

/-- The physical address of a byte of the user, if the access is allowed. -/
def place (m : Machine) (addr : Int) (writing : Bool) : Option Nat :=
  match m.translate addr 1 writing with
  | some (.ok (p, _)) => some p
  | _ => none

/-- The two differ at most in registers, in memory and in the bits that record accesses. -/
structure SameMap (m m' : Machine) : Prop where
  size : m'.pageTableSize = m.pageTableSize
  valid : ∀ v, (m'.pageTable v).valid = (m.pageTable v).valid
  readOnly : ∀ v, (m'.pageTable v).readOnly = (m.pageTable v).readOnly
  physicalPage : ∀ v, (m'.pageTable v).physicalPage = (m.pageTable v).physicalPage

theorem SameMap.refl (m : Machine) : SameMap m m := ⟨rfl, fun _ => rfl, fun _ => rfl, fun _ => rfl⟩

theorem SameMap.trans {m m' m'' : Machine} (h : SameMap m m') (h' : SameMap m' m'') :
    SameMap m m'' :=
  ⟨h'.size.trans h.size, fun v => (h'.valid v).trans (h.valid v),
    fun v => (h'.readOnly v).trans (h.readOnly v),
    fun v => (h'.physicalPage v).trans (h.physicalPage v)⟩

theorem sameMap_touch (m : Machine) (vpn : Nat) (w : Bool) : SameMap m (m.touch vpn w) :=
  ⟨rfl, Base.upd_field TranslationEntry.valid rfl, Base.upd_field TranslationEntry.readOnly rfl,
    Base.upd_field TranslationEntry.physicalPage rfl⟩

theorem SameMap.place {m m' : Machine} (h : SameMap m m') (addr : Int) (w : Bool) :
    m'.place addr w = m.place addr w := by
  unfold Machine.place translate
  simp only [h.size, h.valid, h.readOnly, h.physicalPage]
  split_ifs <;> rfl

/-- Nothing but the map decides where an access goes, and whether it is allowed. -/
theorem SameMap.translate {m m' : Machine} (h : SameMap m m') (addr : Int) (size : Nat) (w : Bool) :
    (m'.translate addr size w).map (Except.map Prod.fst) =
      (m.translate addr size w).map (Except.map Prod.fst) := by
  unfold Machine.translate
  simp only [h.size, h.valid, h.readOnly, h.physicalPage]
  split_ifs <;> rfl

/-- Two machines with one map: an access fails in both, or goes to the same place in both. -/
theorem SameMap.translate_cases {m m' : Machine} (h : SameMap m m') (addr : Int) (size : Nat)
    (w : Bool) :
    (m.translate addr size w = none ∧ m'.translate addr size w = none) ∨
    (∃ e, m.translate addr size w = some (.error e) ∧
      m'.translate addr size w = some (.error e)) ∨
    ∃ p, m.translate addr size w = some (.ok (p, m.touch (toUInt32 addr / pageSize) w)) ∧
      m'.translate addr size w = some (.ok (p, m'.touch (toUInt32 addr / pageSize) w)) := by
  have hsame := h.translate addr size w
  cases hm : m.translate addr size w with
  | none =>
      rw [hm] at hsame
      exact Or.inl ⟨rfl, Option.map_eq_none_iff.mp hsame⟩
  | some r =>
      rw [hm] at hsame
      obtain ⟨r', hm', he⟩ := Option.map_eq_some_iff.mp hsame
      cases r with
      | error e =>
          cases r' with
          | error e' => cases he; exact Or.inr (Or.inl ⟨e, rfl, hm'⟩)
          | ok p' => exact absurd he (by simp [Except.map])
      | ok p =>
          cases r' with
          | error e' => exact absurd he (by simp [Except.map])
          | ok p' =>
              obtain ⟨a, n⟩ := p
              obtain ⟨a', n'⟩ := p'
              have ha : a' = a := by simpa [Except.map] using he
              subst ha
              exact Or.inr
                (Or.inr ⟨a', by rw [translate_machine hm], by rw [hm', translate_machine hm']⟩)

theorem translate_of_place {m : Machine} {addr : Int} {w : Bool} {p : Nat}
    (h : m.place addr w = some p) :
    m.translate addr 1 w = some (.ok (p, m.touch (toUInt32 addr / pageSize) w)) := by
  unfold place at h
  split at h
  · rename_i q m' ht
    cases h
    rw [ht, translate_machine ht]
  · exact absurd h (by simp)

/-- **The place of a byte, written out.** The final `ASSERT` of `Translate` holds for a byte. -/
theorem place_iff (m : Machine) (addr : Int) (w : Bool) (p : Nat) :
    m.place addr w = some p ↔
      toUInt32 addr / pageSize < m.pageTableSize ∧
      (m.pageTable (toUInt32 addr / pageSize)).valid = true ∧
      ((m.pageTable (toUInt32 addr / pageSize)).readOnly && w) = false ∧
      toUInt32 (m.pageTable (toUInt32 addr / pageSize)).physicalPage < numPhysPages ∧
      p = toUInt32 (m.pageTable (toUInt32 addr / pageSize)).physicalPage * pageSize
        + toUInt32 addr % pageSize := by
  have hok := fun m' => translate_ok_iff m addr (Or.inl rfl) w p m'
  unfold place
  constructor
  · intro h
    split at h
    · rename_i q m' ht
      cases h
      obtain ⟨_, h1, h2, h3, h4, h5, _⟩ := (hok m').mp ht
      exact ⟨h1, h2, h3, h4, h5⟩
    · exact absurd h (by simp)
  · rintro ⟨h1, h2, h3, h4, h5⟩
    rw [(hok _).mpr ⟨by omega, h1, h2, h3, h4, h5, rfl⟩]

theorem place_lt {m : Machine} {addr : Int} {w : Bool} {p : Nat} (h : m.place addr w = some p) :
    p < memorySize := by
  obtain ⟨_, _, _, hframe, hp⟩ := (place_iff _ _ _ _).mp h
  have hoff : toUInt32 addr % pageSize < pageSize := Nat.mod_lt _ (by decide)
  unfold memorySize numPhysPages pageSize at *
  omega

/-- What can be written can be read. -/
theorem place_read {m : Machine} {addr : Int} {p : Nat} (h : m.place addr true = some p) :
    m.place addr false = some p := by
  obtain ⟨h1, h2, _, h4, h5⟩ := (place_iff _ _ _ _).mp h
  exact (place_iff _ _ _ _).mpr ⟨h1, h2, by simp, h4, h5⟩

theorem byteAt_of_place {m : Machine} {addr : Int} {p : Nat} (h : m.place addr false = some p) :
    m.byteAt addr = some (m.mainMemory p) := by
  unfold byteAt
  rw [translate_of_place h]

theorem place_of_byteAt {m : Machine} {addr : Int} {c : UInt8} (h : m.byteAt addr = some c) :
    ∃ p, m.place addr false = some p ∧ m.mainMemory p = c := by
  unfold byteAt at h
  split at h
  · rename_i p m' ht
    injection h with h
    exact ⟨p, by unfold place; rw [ht], h⟩
  · exact absurd h (by simp)

theorem byteAt_congr {m m' : Machine} (h : SameMap m m') (hmem : m'.mainMemory = m.mainMemory)
    (addr : Int) : m'.byteAt addr = m.byteAt addr := by
  cases hp : m.place addr false with
  | some p =>
      rw [byteAt_of_place hp, byteAt_of_place ((h.place addr false).trans hp), hmem]
  | none =>
      have hnone : ∀ {n : Machine}, n.place addr false = none → n.byteAt addr = none := by
        intro n hn
        cases hb : n.byteAt addr with
        | none => rfl
        | some c =>
            obtain ⟨p, hq, _⟩ := place_of_byteAt hb
            rw [hn] at hq
            exact absurd hq (by simp)
      rw [hnone hp, hnone ((h.place addr false).trans hp)]

/-- **`WriteMem` of one byte** changes that byte. -/
theorem writeMem_byte {m : Machine} {addr : Int} {p : Nat} (h : m.place addr true = some p)
    (v : Int) :
    m.writeMem addr 1 v = some (.ok
      { m.touch (toUInt32 addr / pageSize) true with
        mainMemory := Base.upd m.mainMemory (p : Int) (UInt8.ofNat (toUInt32 v % 256)) }) := by
  unfold writeMem
  rw [translate_of_place h]
  rfl

/-- No frame is behind two pages. -/
def Injective (m : Machine) : Prop :=
  ∀ v v', v < m.pageTableSize → v' < m.pageTableSize → (m.pageTable v).valid = true →
    (m.pageTable v').valid = true →
    toUInt32 (m.pageTable v).physicalPage = toUInt32 (m.pageTable v').physicalPage → v = v'

/-- Then no byte of memory is at two addresses. -/
theorem Injective.place {m : Machine} (hm : m.Injective) {addr addr' : Int} {w w' : Bool} {p : Nat}
    (h : m.place addr w = some p) (h' : m.place addr' w' = some p) :
    toUInt32 addr = toUInt32 addr' := by
  obtain ⟨h1, h2, _, _, h3⟩ := (place_iff _ _ _ _).mp h
  obtain ⟨h1', h2', _, _, h3'⟩ := (place_iff _ _ _ _).mp h'
  have hx : toUInt32 addr % pageSize < pageSize := Nat.mod_lt _ (by decide)
  have hy : toUInt32 addr' % pageSize < pageSize := Nat.mod_lt _ (by decide)
  have hframe : toUInt32 (m.pageTable (toUInt32 addr / pageSize)).physicalPage =
      toUInt32 (m.pageTable (toUInt32 addr' / pageSize)).physicalPage := by
    unfold pageSize at *
    omega
  have hpage := hm _ _ h1 h1' h2 h2' hframe
  rw [hframe] at h3
  have hd := Nat.div_add_mod (toUInt32 addr) pageSize
  have hd' := Nat.div_add_mod (toUInt32 addr') pageSize
  rw [hpage] at hd
  omega

end Machine

end Nachos
