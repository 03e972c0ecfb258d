import Nachos.Proof.Loader

/-!
# What a new process finds in its frames

The destructor of an address space clears bits of `gPhysPageBitmap` and nothing else, and the
constructor hands the frames out as they are. Whatever its two loops do not overwrite is
what the last owner left, `uninitData` included, of which `noff.h` says that it
should be zeroed before use.

So a new space reveals nothing of the past exactly when the file happens to cover it: the
loops read a whole page for every page of the space, and a long enough file fills
all of them.
-/

namespace Nachos

/-- The contents of memory do not show in a new space, and uninitialized data is zero. -/
structure RevealsNothing (file : HostFile) (stack : Nat → UInt8) (b : Bitmap) : Prop where
  /-- Whatever main memory held, every byte of the space reads the same. -/
  same : ∀ (mem mem' : Memory) (r r' : Built),
    (∀ a : Int, ¬ (0 ≤ a ∧ a < memorySize) → mem a = mem' a) →
    AddrSpace.construct file stack b mem = some r →
    AddrSpace.construct file stack b mem' = some r' →
    ∀ (m : Machine) (v : Nat), v < r.numPages * pageSize →
      (r.restoreState m).byteAt v = (r'.restoreState m).byteAt v
  /-- What the header calls uninitialized data reads as zero. -/
  zeroed : ∀ (mem : Memory) (r : Built), AddrSpace.construct file stack b mem = some r →
    ∀ (m : Machine) (v : Nat), v < r.numPages * pageSize →
      (noffHeader file stack).uninitData.virtualAddr ≤ v →
      (v : Int) < (noffHeader file stack).uninitData.virtualAddr
        + (noffHeader file stack).uninitData.size →
      (r.restoreState m).byteAt v = some 0

/-- A loop puts a byte of the file at `a`: byte `j` of its `k`-th page goes `virtualAddr + j`
past the `k`-th frame. -/
def NoffHeader.Reaches (h : NoffHeader) (file : HostFile) (b : Bitmap) (a : Int) : Prop :=
  ∃ seg ∈ [h.code, h.initData], 0 < seg.size ∧ ∃ (k : Nat) (p : Int) (j : Nat),
    (h.frames b)[k]? = some p ∧ j < pageSize ∧
    (seg.inFileAddr + (k * pageSize : Nat) + j).toNat < file.length ∧
    a = seg.virtualAddr + p * pageSize + j

/-- The file covers the space. -/
structure NoffHeader.Covers (h : NoffHeader) (file : HostFile) (b : Bitmap) : Prop where
  /-- Some loop reaches every byte of every frame that is handed out. -/
  everywhere : ∀ p ∈ h.frames b, ∀ j : Nat, j < pageSize → h.Reaches file b (p * pageSize + j)
  /-- On uninitialized data the last of them puts a zero. -/
  zeros : ∀ v : Nat, h.uninitData.virtualAddr ≤ v →
    (v : Int) < h.uninitData.virtualAddr + h.uninitData.size →
    ∀ p off, (h.frames b)[v / pageSize]? = some p →
      h.source file (h.frames b) (p * pageSize + (v % pageSize : Nat)) = some off →
      file.getD off 0 = 0

theorem reaches_iff {h : NoffHeader} {file : HostFile} {b : Bitmap} {a : Int} :
    h.Reaches file b a ↔ (h.source file (h.frames b) a).isSome := by
  rw [source_isSome]
  unfold NoffHeader.Reaches
  simp only [landing_isSome_iff (frames_nodup h b)]

/-! ## Reading through the new page table -/

theorem allocPages_valid :
    ∀ (k i : Nat) (b : Bitmap), ∀ e ∈ (allocPages i k b).1, e.valid = true := by
  intro k
  induction k with
  | zero => intro i b e he; exact absurd he (by simp [allocPages])
  | succ k ih =>
      intro i b e he
      simp only [allocPages, List.mem_cons] at he
      rcases he with rfl | he
      · rfl
      · exact ih _ _ e he

theorem frames_length (h : NoffHeader) (b : Bitmap) : (h.frames b).length = h.pagesGranted b := by
  rw [← alloc_frames, List.length_map, alloc_length]

/-- **A byte of the new space is in the frame of its page.** -/
theorem byteAt_built {h : NoffHeader} {b : Bitmap} (hb : b.numBits = numPhysPages) {mem : Memory}
    {v : Nat} {p : Int} (hp : (h.frames b)[v / pageSize]? = some p) (m : Machine) :
    ((h.built b mem).restoreState m).byteAt v =
    some (mem (p * pageSize + (v % pageSize : Nat))) := by
  obtain ⟨n, rfl, hn, _⟩ := mem_frames (List.mem_of_getElem? hp)
  rw [hb] at hn
  have hk : v / pageSize < h.pagesGranted b := by
    rw [← frames_length]
    exact (List.getElem?_eq_some_iff.mp hp).1
  have hv : toUInt32 (v : Int) = v := by
    have hle := pagesGranted_le_phys h hb
    unfold toUInt32
    unfold numPhysPages pageSize at *
    omega
  -- the entry that the hardware looks at
  rw [built_frame h b mem] at hp
  obtain ⟨e, he, hframe⟩ := Option.map_eq_some_iff.mp hp
  have hentry : ((h.built b mem).restoreState m).pageTable (v / pageSize) = e := by
    show ((h.built b mem).pageTable[v / pageSize]?).getD _ = e
    rw [he]
    rfl
  have hvalid : e.valid = true := allocPages_valid _ 0 b e (List.mem_of_getElem? he)
  have hplace : ((h.built b mem).restoreState m).place v false =
      some (n * pageSize + v % pageSize) := by
    rw [Machine.place_iff, hv, hentry, hframe]
    have hn32 : toUInt32 (n : Int) = n := by
      unfold toUInt32
      unfold numPhysPages at hn
      omega
    rw [hn32]
    exact ⟨hk, hvalid, by simp, hn, rfl⟩
  rw [Machine.byteAt_of_place hplace]
  show some (mem ((n * pageSize + v % pageSize : Nat) : Int)) = _
  rw [Int.natCast_add, Int.natCast_mul]

theorem numPages_built (h : NoffHeader) (b : Bitmap) (mem : Memory) :
    (h.built b mem).numPages = h.pagesGranted b := rfl

theorem frame_of_page {h : NoffHeader} {b : Bitmap} {v : Nat}
    (hv : v < h.pagesGranted b * pageSize) : ∃ p, (h.frames b)[v / pageSize]? = some p := by
  have hk : v / pageSize < (h.frames b).length := by
    rw [frames_length]
    exact Nat.div_lt_of_lt_mul (by rw [Nat.mul_comm]; exact hv)
  exact ⟨_, List.getElem?_eq_getElem hk⟩

/-- A machine that maps nothing. -/
def Machine.bare : Machine where
  registers := fun _ => 0#32
  mainMemory := fun _ => 0
  pageTable := fun _ => ⟨0, 0, false, false, false, false⟩
  pageTableSize := 0

/-- Main memory full of ones. -/
def ones : Memory := fun a => if 0 ≤ a ∧ a < memorySize then 1 else 0

theorem ones_inside {a : Int} (h : 0 ≤ a ∧ a < memorySize) : ones a = 1 := by
  unfold ones
  rw [if_pos h]

theorem ones_outside {a : Int} (h : ¬ (0 ≤ a ∧ a < memorySize)) : ones a = 0 := by
  unfold ones
  rw [if_neg h]

/-! ## When nothing is left of the past -/

section

variable {file : HostFile} {stack : Nat → UInt8} {b : Bitmap}

/-- The constructor in closed form, for a file whose header is right. -/
theorem construct_eq (hb : b.numBits = numPhysPages)
    (hm : (noffHeader file stack).noffMagic = noffMagicNumber)
    (hl : (noffHeader file stack).Loads b)
    (hroom : (noffHeader file stack).numPages ≤ b.numClear) (mem : Memory) :
    AddrSpace.construct file stack b mem = some ((noffHeader file stack).built b
      (overlay file ((noffHeader file stack).source file ((noffHeader file stack).frames b))
        mem)) := by
  rw [construct_eq_load hm, load_eq hb (noffHeader_inRange file stack) hl hroom]

/-- Bytes that no loop reaches show what memory held. -/
theorem covers_of_revealsNothing (hb : b.numBits = numPhysPages)
    (hm : (noffHeader file stack).noffMagic = noffMagicNumber)
    (hl : (noffHeader file stack).Loads b)
    (hroom : (noffHeader file stack).numPages ≤ b.numClear) (h : RevealsNothing file stack b) :
    (noffHeader file stack).Covers file b where
  everywhere := by
    intro p hp j hj
    obtain ⟨k, hk, hpk⟩ := List.getElem_of_mem hp
    have hp' : ((noffHeader file stack).frames b)[k]? = some p := by
      rw [← hpk]
      exact List.getElem?_eq_getElem hk
    rw [reaches_iff]
    -- memories of zeros and of ones tell a byte that is left alone
    have hdiv : (k * pageSize + j) / pageSize = k := by
      unfold pageSize at *
      omega
    have hmod : (k * pageSize + j) % pageSize = j := by
      unfold pageSize at *
      omega
    rw [← hdiv] at hp'
    have hlt : k * pageSize + j < (noffHeader file stack).pagesGranted b * pageSize := by
      rw [frames_length] at hk
      unfold pageSize at *
      omega
    have hsame := h.same (fun _ => 0) ones _ _ (fun a ha => (ones_outside ha).symm)
      (construct_eq hb hm hl hroom _) (construct_eq hb hm hl hroom _)
      Machine.bare (k * pageSize + j) (by rw [numPages_built]; exact hlt)
    rw [byteAt_built hb hp', byteAt_built hb hp', hmod] at hsame
    cases hsrc : (noffHeader file stack).source file ((noffHeader file stack).frames b)
        (p * pageSize + j) with
    | some off => rfl
    | none =>
        have hinside : 0 ≤ p * pageSize + (j : Int) ∧ p * pageSize + (j : Int) < memorySize := by
          obtain ⟨n, rfl, hn, _⟩ := mem_frames hp
          rw [hb] at hn
          unfold memorySize
          unfold numPhysPages pageSize at *
          omega
        rw [overlay, overlay, hsrc] at hsame
        simp only [Option.map_none, Option.getD_none, Option.some.injEq, ones_inside hinside]
          at hsame
        exact absurd hsame (by decide)
  zeros := by
    intro v hv0 hv1 p off hp hoff
    have hlt : v < (noffHeader file stack).pagesGranted b * pageSize := by
      have hk := (List.getElem?_eq_some_iff.mp hp).1
      rw [frames_length] at hk
      exact (Nat.div_lt_iff_lt_mul (by decide)).mp hk
    have hz := h.zeroed (fun _ => 0) _ (construct_eq hb hm hl hroom _)
      Machine.bare v (by rw [numPages_built]; exact hlt) hv0 hv1
    rw [byteAt_built hb hp, overlay, hoff] at hz
    exact Option.some.inj hz

/-- A space without frames has no bytes to cover. -/
theorem covers_of_short (hshort : b.numClear < (noffHeader file stack).numPages) :
    (noffHeader file stack).Covers file b where
  everywhere := by
    intro p hp
    rw [frames_of_short hshort] at hp
    exact absurd hp (by simp)
  zeros := by
    intro v _ _ p off hp
    rw [frames_of_short hshort] at hp
    exact absurd hp (by simp)

theorem revealsNothing_of_covers (hb : b.numBits = numPhysPages)
    (hm : (noffHeader file stack).noffMagic = noffMagicNumber)
    (hl : (noffHeader file stack).Loads b)
    (hroom : (noffHeader file stack).numPages ≤ b.numClear)
    (h : (noffHeader file stack).Covers file b) : RevealsNothing file stack b := by
  -- a byte of the space comes from the file
  have hsource : ∀ {v : Nat} {p : Int}, ((noffHeader file stack).frames b)[v / pageSize]? = some p →
      ∃ off, (noffHeader file stack).source file ((noffHeader file stack).frames b)
        (p * pageSize + (v % pageSize : Nat)) = some off := by
    intro v p hp
    have hj : v % pageSize < pageSize := Nat.mod_lt _ (by decide)
    exact Option.isSome_iff_exists.mp
      (reaches_iff.mp (h.everywhere p (List.mem_of_getElem? hp) _ hj))
  constructor
  · intro mem mem' r r' _ hr hr' m v hv
    rw [construct_eq hb hm hl hroom] at hr hr'
    obtain rfl := Option.some.inj hr
    obtain rfl := Option.some.inj hr'
    rw [numPages_built] at hv
    obtain ⟨p, hp⟩ := frame_of_page hv
    obtain ⟨off, hoff⟩ := hsource hp
    rw [byteAt_built hb hp, byteAt_built hb hp, overlay, overlay, hoff]
    rfl
  · intro mem r hr m v hv hv0 hv1
    rw [construct_eq hb hm hl hroom] at hr
    obtain rfl := Option.some.inj hr
    rw [numPages_built] at hv
    obtain ⟨p, hp⟩ := frame_of_page hv
    obtain ⟨off, hoff⟩ := hsource hp
    rw [byteAt_built hb hp, overlay, hoff]
    exact congrArg some (h.zeros v hv0 hv1 p off hp hoff)

end

/--
**When a new address space reveals nothing.**

For every NOFF file and every bitmap of frames: nothing of what main memory held shows in the
new space, and uninitialized data is zero, if and only if, unless a loop aborts on a negative
position, the loops reach every byte of every frame handed out and the last to reach a byte of
uninitialized data puts a zero there.
-/
theorem fresh_space_iff (file : HostFile) (stack : Nat → UInt8) (b : Bitmap)
    (hb : b.numBits = numPhysPages) (hm : (noffHeader file stack).noffMagic = noffMagicNumber) :
    RevealsNothing file stack b ↔
      ((noffHeader file stack).Loads b → (noffHeader file stack).Covers file b) := by
  constructor
  · intro h hl
    by_cases hroom : (noffHeader file stack).numPages ≤ b.numClear
    · exact covers_of_revealsNothing hb hm hl hroom h
    · exact covers_of_short (Nat.not_le.mp hroom)
  · intro h
    by_cases hret : (noffHeader file stack).Loads b ∧ (noffHeader file stack).numPages ≤ b.numClear
    · exact revealsNothing_of_covers hb hm hret.1 hret.2 (h hret.1)
    · -- the constructor does not return
      have hnone : ∀ {mem r}, AddrSpace.construct file stack b mem = some r → False := by
        intro mem r hr
        rw [construct_eq_load hm] at hr
        exact hret (loads_of_load hr)
      exact ⟨fun _ _ _ _ _ hr => (hnone hr).elim, fun _ _ hr => (hnone hr).elim⟩

/-- A program that asks for four bytes of uninitialized data and brings a page of zeros for each of
its three pages. -/
def zeroPages : HostFile :=
  [0xad, 0xdf, 0xba, 0] ++ [0, 0, 0, 0, 52, 0, 0, 0, 4, 0, 0, 0] ++ noSegment ++ noSegment
    ++ [4, 0, 0, 0, 0, 0, 0, 0, 4, 0, 0, 0] ++ List.replicate 1536 0

/-- Its header. -/
def zeroHeader : NoffHeader :=
  ⟨noffMagicNumber, ⟨0, 52, 4⟩, ⟨0, 0, 0⟩, ⟨0, 0, 0⟩, ⟨4, 0, 4⟩⟩

theorem zeroPages_header : noffHeader zeroPages (fun _ => 0) = zeroHeader := by decide +kernel

theorem zeroPages_covers : (noffHeader zeroPages fun _ => 0).Covers zeroPages frameOneTaken := by
  rw [zeroPages_header]
  constructor
  · intro p hp j hj
    obtain ⟨k, hk, hpk⟩ := List.getElem_of_mem hp
    refine ⟨_, List.mem_cons_self, by decide, k, p, j, ?_, hj, ?_, ?_⟩
    · rw [← hpk]
      exact List.getElem?_eq_getElem hk
    · -- three pages from offset 52 on
      have hlen : zeroPages.length = 1588 := by decide +kernel
      have hpages : k < 3 := by
        rw [frames_length] at hk
        exact Nat.lt_of_lt_of_eq hk (by decide +kernel)
      rw [hlen]
      unfold pageSize at *
      dsimp only [zeroHeader]
      omega
    · dsimp only [zeroHeader]
      omega
  · intro v hv0 hv1 p off hp hoff
    dsimp only [zeroHeader] at hv0 hv1
    have hv : v = 4 ∨ v = 5 ∨ v = 6 ∨ v = 7 := by omega
    have hzero : ((zeroHeader.frames frameOneTaken)[v / pageSize]?.bind fun p =>
        (zeroHeader.source zeroPages (zeroHeader.frames frameOneTaken)
          (p * pageSize + (v % pageSize : Nat))).map fun off => zeroPages.getD off 0) = some 0 := by
      rcases hv with rfl | rfl | rfl | rfl <;> decide +kernel
    rw [hp, Option.bind_some, hoff] at hzero
    exact Option.some.inj hzero

/-- Such a program starts, and finds zeros. -/
theorem zeroPages_fresh : RevealsNothing zeroPages (fun _ => 0) frameOneTaken ∧
    ∃ r, AddrSpace.construct zeroPages (fun _ => 0) frameOneTaken ones = some r ∧ r.numPages = 3 ∧
      (r.restoreState Machine.bare).byteAt 4 = some 0 := by
  refine ⟨(fresh_space_iff zeroPages (fun _ => 0) frameOneTaken (by decide +kernel)
    (by decide +kernel)).mpr fun _ => zeroPages_covers, ?_⟩
  have hrun : (AddrSpace.construct zeroPages (fun _ => 0) frameOneTaken ones).map
      (fun r => (r.numPages, (r.restoreState Machine.bare).byteAt 4)) = some (3, some 0) := by
    decide +kernel
  obtain ⟨r, hr, he⟩ := Option.map_eq_some_iff.mp hrun
  injection he with hpages hbyte
  exact ⟨r, hr, hpages, hbyte⟩

/-- The same without the zeros: its code is the four bytes that the header tells of. -/
def shortFile : HostFile :=
  [0xad, 0xdf, 0xba, 0] ++ [0, 0, 0, 0, 52, 0, 0, 0, 4, 0, 0, 0] ++ noSegment ++ noSegment
    ++ [4, 0, 0, 0, 0, 0, 0, 0, 4, 0, 0, 0] ++ [1, 2, 3, 4]

/-- What the last owner of frame 0 left is the uninitialized data of the next. -/
theorem shortFile_reveals : ¬ ∀ (file : HostFile) (stack : Nat → UInt8) (b : Bitmap),
    b.numBits = numPhysPages → (noffHeader file stack).noffMagic = noffMagicNumber →
    RevealsNothing file stack b := by
  intro h
  have hrun : (AddrSpace.construct shortFile (fun _ => 0) frameOneTaken ones).map
      (fun r => (r.numPages, (r.restoreState Machine.bare).byteAt 4)) = some (3, some 1) := by
    decide +kernel
  obtain ⟨r, hr, he⟩ := Option.map_eq_some_iff.mp hrun
  injection he with hpages hbyte
  have hz := (h shortFile (fun _ => 0) frameOneTaken (by decide +kernel) (by decide +kernel)).zeroed
    ones r hr Machine.bare 4 (by rw [hpages]; decide) (by decide +kernel) (by decide +kernel)
  have hcontra : some (0 : UInt8) = some 1 := hz.symm.trans hbyte
  exact absurd hcontra (by decide)

end Nachos
