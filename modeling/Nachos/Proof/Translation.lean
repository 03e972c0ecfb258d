import Nachos.Machine.Translate

/-!
# What `Translate` decides

An access goes through when five conditions hold, and they are looked at in a fixed order: the
first one that fails names the exception. The conditions are stated here in the numbers that
are meant. The code arrives at them with a signed address and a signed frame number taken as
unsigned ones, so a negative frame number is a very large one, and is refused like any other
that is too large.
-/

namespace Nachos

namespace Machine

/-- A call of `Translate`: the exception it returns, `*physAddr` and the machine afterwards. `none`
is an `ASSERT` that fails. -/
def translateCall (m : Machine) (virtAddr : BitVec 32) (physAddr size : Nat) (writing : Bool) :
    Option (ExceptionType × Nat × Machine) :=
  (m.translate virtAddr.toInt size writing).map fun r =>
    match r with
    | .error e => (e, physAddr, m)
    | .ok (p, m') => (.noException, p, m')

/-- The entry that an address is about. -/
def entryOf (m : Machine) (virtAddr : BitVec 32) : TranslationEntry :=
  m.pageTable (virtAddr.toNat / pageSize)

/-- **The conditions of an access**, each with the exception for its failure. -/
def conditions (m : Machine) (virtAddr : BitVec 32) (size : Nat) (writing : Bool) :
    List (Bool × ExceptionType) := [
  (virtAddr.toNat % size = 0, .addressErrorException),
  (virtAddr.toNat / pageSize < m.pageTableSize, .addressErrorException),
  ((m.entryOf virtAddr).valid, .pageFaultException),
  (!((m.entryOf virtAddr).readOnly && writing), .readOnlyException),
  (0 ≤ (m.entryOf virtAddr).physicalPage ∧ (m.entryOf virtAddr).physicalPage < numPhysPages,
    .busErrorException)]

/-- The exception for the first condition that fails. -/
def verdict : List (Bool × ExceptionType) → ExceptionType
  | [] => .noException
  | (holds, e) :: cs => if holds then verdict cs else e

/-- Page frames are numbered with `int`s. -/
def FramesAreInts (m : Machine) : Prop :=
  ∀ v, -2147483648 ≤ (m.pageTable v).physicalPage ∧ (m.pageTable v).physicalPage ≤ intMax

/-- **An access that is allowed**: `size` bytes inside one frame, and the bits that record it. -/
structure Granted (m : Machine) (virtAddr : BitVec 32) (size : Nat) (writing : Bool) (p : Nat)
    (m' : Machine) : Prop where
  place : (p : Int) =
    (m.entryOf virtAddr).physicalPage * pageSize + (virtAddr.toNat % pageSize : Nat)
  frame : p / pageSize = (p + size - 1) / pageSize
  memory : p + size ≤ memorySize
  entry : m'.entryOf virtAddr = { m.entryOf virtAddr with
    use := true, dirty := (m.entryOf virtAddr).dirty || writing }
  others : ∀ v, v ≠ virtAddr.toNat / pageSize → m'.pageTable v = m.pageTable v
  rest : m' = { m with pageTable := m'.pageTable }

/-! ## The numbers of the code and the numbers that are meant -/

theorem toInt_emod {size : Nat} (hs : IsSize size) (a : BitVec 32) :
    a.toInt % size = 0 ↔ a.toNat % size = 0 := by
  rw [BitVec.toInt_eq_toNat_cond]
  unfold IsSize at hs
  rcases hs with rfl | rfl | rfl <;> split <;> omega

/-- Taken as unsigned, the frame numbers that are too small are too large. -/
theorem frame_lt_iff {f : Int} (hlo : -2147483648 ≤ f) (hhi : f ≤ intMax) :
    toUInt32 f < numPhysPages ↔ 0 ≤ f ∧ f < numPhysPages := by
  unfold intMax at hhi
  unfold toUInt32 numPhysPages
  omega

/-! ## The decision -/

theorem verdict_noException : ∀ (cs : List (Bool × ExceptionType)), (∀ c ∈ cs, c.2 ≠ .noException) →
    (verdict cs = .noException ↔ ∀ c ∈ cs, c.1 = true) := by
  intro cs
  induction cs with
  | nil => intro _; simp [verdict]
  | cons c cs ih =>
      intro hne
      obtain ⟨holds, e⟩ := c
      have hrest := ih fun c hc => hne c (List.mem_cons_of_mem _ hc)
      have he : e ≠ .noException := hne (holds, e) List.mem_cons_self
      cases holds with
      | true => simpa [verdict] using hrest
      | false => simp [verdict, he]

section Decision

variable {m : Machine} {virtAddr : BitVec 32} {size : Nat} {writing : Bool}

theorem conditions_noException_iff :
    verdict (m.conditions virtAddr size writing) = .noException ↔
      ∀ c ∈ m.conditions virtAddr size writing, c.1 = true := by
  refine verdict_noException _ fun c hc => ?_
  simp only [conditions, List.mem_cons, List.not_mem_nil, or_false] at hc
  rcases hc with rfl | rfl | rfl | rfl | rfl <;> simp

/-- What all conditions say together. -/
theorem conditions_iff : (∀ c ∈ m.conditions virtAddr size writing, c.1 = true) ↔
    virtAddr.toNat % size = 0 ∧ virtAddr.toNat / pageSize < m.pageTableSize ∧
      (m.entryOf virtAddr).valid = true ∧ ((m.entryOf virtAddr).readOnly && writing) = false ∧
      0 ≤ (m.entryOf virtAddr).physicalPage ∧ (m.entryOf virtAddr).physicalPage < numPhysPages := by
  unfold conditions
  simp only [List.forall_mem_cons, List.not_mem_nil, false_imp_iff, implies_true, and_true,
    decide_eq_true_eq, Bool.not_eq_true']

/-- **An access that fails** does so for the first condition that fails. -/
theorem translate_error (hf : m.FramesAreInts) (hs : IsSize size)
    (hv : verdict (m.conditions virtAddr size writing) ≠ .noException) :
    m.translate virtAddr.toInt size writing =
      some (.error (verdict (m.conditions virtAddr size writing))) := by
  have hframe := frame_lt_iff (hf (virtAddr.toNat / pageSize)).1 (hf (virtAddr.toNat / pageSize)).2
  unfold translate
  unfold conditions entryOf at hv ⊢
  simp only [aligned_iff hs, toInt_emod hs, toUInt32_toInt]
  by_cases h0 : virtAddr.toNat % size = 0
  swap
  · simp [verdict, h0]
  by_cases h1 : virtAddr.toNat / pageSize < m.pageTableSize
  swap
  · simp [verdict, h0, h1, Nat.le_of_not_lt h1]
  rw [if_neg (not_not.mpr h0), if_neg (Nat.not_le.mpr h1)]
  cases h2 : (m.pageTable (virtAddr.toNat / pageSize)).valid with
  | false => simp [verdict, h0, h1]
  | true =>
      cases h3 : (m.pageTable (virtAddr.toNat / pageSize)).readOnly && writing with
      | true => simp [verdict, h0, h1]
      | false =>
          by_cases h4 : 0 ≤ (m.pageTable (virtAddr.toNat / pageSize)).physicalPage ∧
              (m.pageTable (virtAddr.toNat / pageSize)).physicalPage < numPhysPages
          · exact absurd (by simp [verdict, h0, h1, h2, h3, h4]) hv
          · have hge :
              numPhysPages ≤ toUInt32 (m.pageTable (virtAddr.toNat / pageSize)).physicalPage :=
              Nat.le_of_not_lt fun hlt => h4 (hframe.mp hlt)
            have hfalse : decide (0 ≤ (m.pageTable (virtAddr.toNat / pageSize)).physicalPage ∧
                (m.pageTable (virtAddr.toNat / pageSize)).physicalPage < numPhysPages) = false :=
              decide_eq_false h4
            rw [if_pos hge, hfalse]
            simp [verdict, h0, h1]

/-- **An access that is allowed.** -/
theorem translate_granted (hf : m.FramesAreInts) (hs : IsSize size)
    (hall : ∀ c ∈ m.conditions virtAddr size writing, c.1 = true) :
    ∃ p m', m.translate virtAddr.toInt size writing = some (.ok (p, m')) ∧
      m.Granted virtAddr size writing p m' := by
  obtain ⟨h0, h1, h2, h3, hlo, hhi⟩ := conditions_iff.mp hall
  have hframe := (frame_lt_iff (hf (virtAddr.toNat / pageSize)).1
    (hf (virtAddr.toNat / pageSize)).2).mpr ⟨hlo, hhi⟩
  obtain ⟨f, hnum⟩ := Int.eq_ofNat_of_zero_le hlo
  have hentry : toUInt32 (m.pageTable (virtAddr.toNat / pageSize)).physicalPage = f := by
    rw [show (m.pageTable (virtAddr.toNat / pageSize)).physicalPage = f from hnum]
    rw [hnum] at hhi
    unfold toUInt32
    unfold numPhysPages at hhi
    omega
  refine ⟨f * pageSize + virtAddr.toNat % pageSize, m.touch (virtAddr.toNat / pageSize) writing, ?_,
    ?_⟩
  · refine (translate_ok_iff m virtAddr.toInt hs writing _ _).mpr ?_
    rw [toUInt32_toInt, toInt_emod hs]
    exact ⟨h0, h1, h2, h3, hframe, by rw [hentry], rfl⟩
  · rw [hnum] at hhi
    have hps : pageSize = 512 := rfl
    have hpp : numPhysPages = 128 := rfl
    have hms : memorySize = 65536 := rfl
    unfold IsSize at hs
    refine ⟨by rw [hnum]; push_cast; rfl, ?_, ?_, Base.upd_self _ _ _,
      fun v hv => Base.upd_ne _ _ hv, rfl⟩
    -- an aligned access does not reach over the end of a page
    · rw [hps]
      rcases hs with rfl | rfl | rfl <;> omega
    · rw [hps, hms]
      rcases hs with rfl | rfl | rfl <;> omega

end Decision

/--
**Address translation.**

For every page table, address, size and mode, `Translate` returns, and what it returns is the
exception for the first condition that fails. Without one the bytes lie inside one frame and only
the bits of the entry change; with one nothing changes.
-/
theorem translate_decides (m : Machine) (virtAddr : BitVec 32) (physAddr size : Nat)
    (writing : Bool) (hf : m.FramesAreInts) (hs : IsSize size) :
    ∃ e p m', m.translateCall virtAddr physAddr size writing = some (e, p, m') ∧
      e = verdict (m.conditions virtAddr size writing) ∧
      (e = .noException ↔ ∀ c ∈ m.conditions virtAddr size writing, c.1 = true) ∧
      (e = .noException → m.Granted virtAddr size writing p m') ∧
      (e ≠ .noException → p = physAddr ∧ m' = m) := by
  by_cases hv : verdict (m.conditions virtAddr size writing) = .noException
  · have hall := conditions_noException_iff.mp hv
    obtain ⟨p, m', ht, hgranted⟩ := translate_granted hf hs hall
    refine ⟨.noException, p, m', ?_, hv.symm, ⟨fun _ => hall, fun _ => rfl⟩, fun _ => hgranted,
      fun h => absurd rfl h⟩
    rw [translateCall, ht]
    rfl
  · refine ⟨verdict (m.conditions virtAddr size writing), physAddr, m, ?_, rfl,
      conditions_noException_iff, fun h => absurd h hv, fun _ => ⟨rfl, rfl⟩⟩
    rw [translateCall, translate_error hf hs hv]
    rfl

/-- A table of two pages, the second of which is read only and names frame `-1`. -/
def secondReadOnly : Machine where
  registers := fun _ => 0#32
  mainMemory := fun _ => 0
  pageTable := fun v => ⟨v, if v = 1 then -1 else 3, true, v = 1, false, false⟩
  pageTableSize := 2

/-- The first page can be written to; the second is read only first of all. -/
theorem translate_decides_twoPages :
    (∃ p m', secondReadOnly.translateCall 8#32 0 4 true = some (.noException, p, m') ∧
      secondReadOnly.Granted 8#32 4 true p m') ∧
    ∃ p m', secondReadOnly.translateCall 512#32 7 4 true = some (.readOnlyException, p, m') ∧
      p = 7 ∧ m' = secondReadOnly := by
  have hf : secondReadOnly.FramesAreInts := by
    intro v
    by_cases hv : v = 1
    · subst hv; decide
    · simp [secondReadOnly, hv, intMax]
  constructor
  · obtain ⟨e, p, m', hcall, he, _, hgranted, _⟩ :=
      translate_decides secondReadOnly 8#32 0 4 true hf (.inr (.inr rfl))
    have hno : e = .noException := he.trans (by decide)
    rw [hno] at hcall
    exact ⟨p, m', hcall, hgranted hno⟩
  · obtain ⟨e, p, m', hcall, he, _, _, hsame⟩ := translate_decides secondReadOnly 512#32 7 4 true hf
      (.inr (.inr rfl))
    have hro : e = .readOnlyException := he.trans (by decide)
    rw [hro] at hcall
    exact ⟨p, m', hcall, hsame (by rw [hro]; decide)⟩

end Machine

end Nachos
