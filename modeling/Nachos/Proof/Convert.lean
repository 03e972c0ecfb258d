import Nachos.Coff2noff.Convert

/-!
# The parts of the conversion

What each part of `coff2noff` does, when it goes well and when it does not: `Read` and `Write`, the
copy of one section, the choice of the case by the name of the section, and `main` up to its loop. A
file with its headers, on a host with memory for the table, comes down to the loop over the sections
and the write of the header; any other file is refused before the loop.
-/

namespace Nachos.Coff2noff

open Base (byteOf packWords writeOver length_writeOver getD_writeOver bind_eq_of_ok
  bind_eq_of_error get_bind set_bind modify_bind)

variable {host : Host} {file : List UInt8} {c : Conv} {s : Scnhdr}

/-! ## Reading and writing -/

/-- `Read` gets what it asks for. A count of -1 is what `read` returns for an error. -/
def Reads (file : List UInt8) (block : Bool) (nBytes : BitVec 32) (fdIn : Nat) : Prop :=
  nBytes.toInt = -1 ∨
    0 ≤ nBytes.toInt ∧ block = true ∧
      (nBytes.toInt.toNat = 0 ∨ fdIn + nBytes.toInt.toNat ≤ file.length)

/-- `Write` writes what it is given. -/
def Writes (room : Nat) (block : Bool) (nBytes : BitVec 32) (fdOut : Nat) : Prop :=
  nBytes.toInt = -1 ∨
    0 ≤ nBytes.toInt ∧ block = true ∧ (nBytes.toInt.toNat = 0 ∨ fdOut + nBytes.toInt.toNat ≤ room)

theorem read_ok {block : Bool} {nBytes : BitVec 32} (h : Reads file block nBytes c.fdIn) :
    read file block nBytes c = .ok ((file.drop c.fdIn).take nBytes.toInt.toNat)
      { c with fdIn := c.fdIn + nBytes.toInt.toNat } := by
  have hread : hostRead file c.fdIn block nBytes.toInt =
      (nBytes.toInt, (file.drop c.fdIn).take nBytes.toInt.toNat) := by
    unfold hostRead
    rcases h with h | ⟨hn, hb, h⟩
    · rw [if_pos (Or.inl (by omega)), h]
      rfl
    · rw [if_neg (by rw [hb]; simpa using hn)]
      dsimp only
      rw [List.length_take, List.length_drop, show min nBytes.toInt.toNat (file.length - c.fdIn) =
        nBytes.toInt.toNat by omega, Int.toNat_of_nonneg hn]
  have hlength : ((file.drop c.fdIn).take nBytes.toInt.toNat).length = nBytes.toInt.toNat := by
    rw [List.length_take, List.length_drop]
    rcases h with h | ⟨_, _, h⟩ <;> omega
  unfold read
  rw [get_bind, hread]
  dsimp only
  rw [if_neg (not_not.mpr rfl), set_bind, hlength]
  rfl

theorem read_fails {block : Bool} {nBytes : BitVec 32} (h : ¬ Reads file block nBytes c.fdIn) :
    read file block nBytes c = .error .tooShort c := by
  have hread : (hostRead file c.fdIn block nBytes.toInt).1 ≠ nBytes.toInt := by
    unfold hostRead
    intro he
    refine h ?_
    split at he
    · exact Or.inl he.symm
    · rename_i hno
      rw [not_or] at hno
      refine Or.inr ⟨by omega, by simpa using hno.2, ?_⟩
      dsimp only at he
      rw [List.length_take, List.length_drop] at he
      omega
  unfold read
  rw [get_bind, if_pos hread]
  rfl

theorem write_ok {block : Bool} {nBytes : BitVec 32} {buffer : List UInt8}
    (h : Writes host.room block nBytes c.fdOut) (hbuffer : buffer.length = nBytes.toInt.toNat) :
    write host block buffer nBytes c = .ok () { c with
      out := if nBytes.toInt.toNat = 0 then c.out else writeOver 0 c.out c.fdOut buffer
      fdOut := c.fdOut + nBytes.toInt.toNat } := by
  have hwrite : hostWrite host.room c.out c.fdOut block nBytes.toInt buffer = (nBytes.toInt,
      if nBytes.toInt.toNat = 0 then c.out else writeOver 0 c.out c.fdOut buffer) := by
    unfold hostWrite
    rcases h with h | ⟨hn, hb, h⟩
    · rw [if_pos (Or.inl (by omega)), h]
      rfl
    · rw [if_neg (by rw [hb]; simpa using hn)]
      dsimp only
      by_cases hzero : nBytes.toInt.toNat = 0
      · rw [if_pos (by omega), if_pos hzero, if_pos (by omega)]
        exact Prod.ext (by show (0 : Int) = _; omega) rfl
      · rw [show min nBytes.toInt.toNat (host.room - c.fdOut) = nBytes.toInt.toNat by omega,
          if_neg hzero, if_neg hzero, ← hbuffer, List.take_length, hbuffer, Int.toNat_of_nonneg hn]
  unfold write
  rw [get_bind, hwrite]
  dsimp only
  rw [if_neg (not_not.mpr rfl)]
  rfl

theorem write_fails {block : Bool} {nBytes : BitVec 32} {buffer : List UInt8}
    (h : ¬ Writes host.room block nBytes c.fdOut) :
    write host block buffer nBytes c = .error .unableToWrite c := by
  have hwrite : (hostWrite host.room c.out c.fdOut block nBytes.toInt buffer).1 ≠ nBytes.toInt := by
    unfold hostWrite
    intro he
    refine h ?_
    split at he
    · exact Or.inl he.symm
    · rename_i hno
      rw [not_or] at hno
      refine Or.inr ⟨by omega, by simpa using hno.2, ?_⟩
      dsimp only at he
      split at he
      · split at he <;> omega
      · dsimp only at he
        omega
  unfold write
  rw [get_bind, if_pos hwrite]
  rfl

theorem toInt_ofNat {n : Nat} (hn : n < 2147483648) : (BitVec.ofNat 32 n).toInt = n := by
  have hnat : (BitVec.ofNat 32 n).toNat = n := by
    rw [BitVec.toNat_ofNat]
    exact Nat.mod_eq_of_lt (by omega)
  rw [BitVec.toInt_eq_toNat_of_lt (by omega), hnat]

/-- A header is read. -/
theorem read_header {block : Bool} {n : Nat} (hn : n < 2147483648) (hblock : block = true)
    (hlen : c.fdIn + n ≤ file.length) : read file block (BitVec.ofNat 32 n) c =
      .ok ((file.drop c.fdIn).take n) { c with fdIn := c.fdIn + n } := by
  have hint := toInt_ofNat hn
  have hreads : Reads file block (BitVec.ofNat 32 n) c.fdIn :=
    Or.inr ⟨by omega, hblock, Or.inr (by omega)⟩
  have hread := read_ok hreads
  rw [hint, Int.toNat_natCast] at hread
  exact hread

theorem read_header_fails {block : Bool} {n : Nat} (hn : n < 2147483648)
    (h : block = false ∨ n ≠ 0 ∧ file.length < c.fdIn + n) :
    read file block (BitVec.ofNat 32 n) c = .error .tooShort c := by
  have hint := toInt_ofNat hn
  refine read_fails ?_
  rintro (hneg | ⟨_, hblock, hlen⟩)
  · omega
  · rcases h with h | ⟨h0, h⟩
    · exact absurd (hblock.symm.trans h) Bool.noConfusion
    · omega

/-! ## One section -/

/-- The bytes that are copied for a section of this size. -/
def Scnhdr.count (s : Scnhdr) : Nat := s.sSize.toInt.toNat

/-- A section can be copied, when the files are at these offsets. -/
def Copies (host : Host) (file : List UInt8) (s : Scnhdr) (fdIn fdOut : Nat) : Prop :=
  s.sSize.toInt = -1 ∨
    0 ≤ s.sSize.toInt ∧ s.sSize.toNat ≤ host.memory ∧
      lseek s.sScnptr fdIn + s.count ≤ file.length ∧ fdOut + s.count ≤ host.room

/-- What is left when a section has been copied. -/
def copied (file : List UInt8) (put : Segment → NoffHeader → NoffHeader) (s : Scnhdr)
    (c : Conv) : Conv where
  fdIn := lseek s.sScnptr c.fdIn + s.count
  out := if s.count = 0 then c.out
    else writeOver 0 c.out c.fdOut ((file.drop (lseek s.sScnptr c.fdIn)).take s.count)
  fdOut := c.fdOut + s.count
  inNoffFile := c.inNoffFile + s.sSize
  noffH := put ⟨s.sPaddr, c.inNoffFile, s.sSize⟩ c.noffH

theorem copies_iff (hs : s.sSize ≠ 0#32) (fdIn fdOut : Nat) :
    Copies host file s fdIn fdOut ↔
      Reads file (decide (s.sSize.toNat ≤ host.memory)) s.sSize (lseek s.sScnptr fdIn) ∧
        Writes host.room (decide (s.sSize.toNat ≤ host.memory)) s.sSize fdOut := by
  have hpos : 0 ≤ s.sSize.toInt → s.count ≠ 0 := by
    intro hn hzero
    refine hs (BitVec.eq_of_toInt_eq ?_)
    have hz : s.sSize.toInt.toNat = 0 := hzero
    rw [BitVec.toInt_zero]
    omega
  unfold Copies Reads Writes
  constructor
  · rintro (h | ⟨hn, hm, hr, hw⟩)
    · exact ⟨Or.inl h, Or.inl h⟩
    · exact ⟨Or.inr ⟨hn, decide_eq_true hm, Or.inr hr⟩, Or.inr ⟨hn, decide_eq_true hm, Or.inr hw⟩⟩
  · rintro ⟨h | ⟨hn, hm, hr⟩, hw⟩
    · exact Or.inl h
    · rcases hw with h | ⟨_, _, hw⟩
      · exact Or.inl h
      · exact Or.inr ⟨hn, of_decide_eq_true hm, hr.resolve_left (hpos hn),
          hw.resolve_left (hpos hn)⟩

theorem copySegment_ok (put : Segment → NoffHeader → NoffHeader) (hs : s.sSize ≠ 0#32)
    (h : Copies host file s c.fdIn c.fdOut) :
    copySegment host file put s c = .ok () (copied file put s c) := by
  obtain ⟨hr, hw⟩ := (copies_iff hs _ _).mp h
  have hlength : ((file.drop (lseek s.sScnptr c.fdIn)).take s.sSize.toInt.toNat).length =
      s.sSize.toInt.toNat := by
    rw [List.length_take, List.length_drop]
    rcases hr with hr | ⟨_, _, hr⟩ <;> omega
  unfold copySegment
  rw [modify_bind]
  exact (bind_eq_of_ok (read_ok (by exact hr))).trans
    (bind_eq_of_ok (write_ok (by exact hw) (by exact hlength)))

theorem copySegment_fails (put : Segment → NoffHeader → NoffHeader) (hs : s.sSize ≠ 0#32)
    (h : ¬ Copies host file s c.fdIn c.fdOut) :
    ∃ e c', copySegment host file put s c = .error e c' := by
  unfold copySegment
  rw [modify_bind]
  by_cases hr : Reads file (decide (s.sSize.toNat ≤ host.memory)) s.sSize (lseek s.sScnptr c.fdIn)
  · have hw : ¬ Writes host.room (decide (s.sSize.toNat ≤ host.memory)) s.sSize c.fdOut :=
      fun hw => h ((copies_iff hs _ _).mpr ⟨hr, hw⟩)
    exact ⟨_, _, (bind_eq_of_ok (read_ok (by exact hr))).trans
      (bind_eq_of_error (write_fails (by exact hw)))⟩
  · exact ⟨_, _, bind_eq_of_error (read_fails (by exact hr))⟩

/-! ## The names of the sections -/

/-- A section that is not empty, of that name. -/
def Scnhdr.Is (s : Scnhdr) (name : List UInt8) : Prop := s.sSize ≠ 0#32 ∧ s.named name = true

theorem strcmpEq_unique {t : Nat → UInt8} : ∀ {a b : List UInt8} {i : Nat}, (0 : UInt8) ∉ a →
    (0 : UInt8) ∉ b → strcmpEq t a i = true → strcmpEq t b i = true → a = b := by
  intro a
  induction a with
  | nil =>
      intro b i _ hb h h'
      cases b with
      | nil => rfl
      | cons c b =>
          simp only [strcmpEq, beq_iff_eq, Bool.and_eq_true] at h h'
          exact absurd (h.symm.trans h'.1) fun hc => hb (hc ▸ List.mem_cons_self)
  | cons c a ih =>
      intro b i ha hb h h'
      cases b with
      | nil =>
          simp only [strcmpEq, beq_iff_eq, Bool.and_eq_true] at h h'
          exact absurd (h'.symm.trans h.1) fun hc => ha (hc ▸ List.mem_cons_self)
      | cons c' b =>
          simp only [strcmpEq, beq_iff_eq, Bool.and_eq_true] at h h'
          rw [ih (fun hm => ha (List.mem_cons_of_mem _ hm))
            (fun hm => hb (List.mem_cons_of_mem _ hm)) h.2 h'.2, h.1.symm.trans h'.1]

/-- The segments that are copied. -/
inductive Raw where
  | code
  | initData
  | readonlyData
  deriving DecidableEq, Repr

/-- What it is called in the input. -/
def Raw.name : Raw → List UInt8
  | .code => dotText
  | .initData => dotData
  | .readonlyData => dotRdata

/-- Its segment in the header. -/
def Raw.get : Raw → NoffHeader → Segment
  | .code, h => h.code
  | .initData, h => h.initData
  | .readonlyData, h => h.readonlyData

/-- The header with another segment for it. -/
def Raw.put : Raw → Segment → NoffHeader → NoffHeader
  | .code, seg, h => { h with code := seg }
  | .initData, seg, h => { h with initData := seg }
  | .readonlyData, seg, h => { h with readonlyData := seg }

@[simp] theorem Raw.get_put_self (k : Raw) (seg : Segment) (h : NoffHeader) :
    k.get (k.put seg h) = seg := by
  cases k <;> rfl

theorem Raw.get_put_ne {k k' : Raw} (hk : k' ≠ k) (seg : Segment) (h : NoffHeader) :
    k'.get (k.put seg h) = k'.get h := by
  cases k <;> cases k' <;> first | rfl | exact absurd rfl hk

@[simp] theorem Raw.put_noffMagic (k : Raw) (seg : Segment) (h : NoffHeader) :
    (k.put seg h).noffMagic = h.noffMagic := by
  cases k <;> rfl

@[simp] theorem Raw.put_uninitData (k : Raw) (seg : Segment) (h : NoffHeader) :
    (k.put seg h).uninitData = h.uninitData := by
  cases k <;> rfl

theorem Raw.noZero (k : Raw) : (0 : UInt8) ∉ k.name := by
  cases k <;> decide

theorem bss_noZero : (0 : UInt8) ∉ dotBss := by decide

theorem Raw.name_ne_bss (k : Raw) : k.name ≠ dotBss := by
  cases k <;> decide

theorem Raw.name_inj {k k' : Raw} (h : k.name = k'.name) : k = k' := by
  cases k <;> cases k' <;> first | rfl | exact absurd h (by decide)

theorem Scnhdr.Is.unique {a b : List UInt8} (ha : s.Is a) (hb : s.Is b) (hza : (0 : UInt8) ∉ a)
    (hzb : (0 : UInt8) ∉ b) : a = b :=
  strcmpEq_unique hza hzb ha.2 hb.2

/-- **The loop looks at the name.** -/
theorem loadSection_empty (h : s.sSize = 0#32) : loadSection host file s = pure () := if_pos h

theorem loadSection_raw (k : Raw) (h : s.Is k.name) :
    loadSection host file s = copySegment host file k.put s := by
  have hno : ∀ k' : Raw, k' ≠ k → ¬ s.named k'.name = true := fun _ hne hn =>
    hne (Raw.name_inj (strcmpEq_unique (Raw.noZero _) (Raw.noZero _) hn h.2))
  unfold loadSection
  rw [if_neg h.1]
  cases k with
  | code => exact if_pos h.2
  | initData => exact (if_neg (hno .code (by decide))).trans (if_pos h.2)
  | readonlyData =>
      exact (if_neg (hno .code (by decide))).trans
        ((if_neg (hno .initData (by decide))).trans (if_pos h.2))

theorem loadSection_bss (h : s.Is dotBss) : loadSection host file s = mergeBss s := by
  have hno : ∀ k : Raw, ¬ s.named k.name = true := fun k hn =>
    k.name_ne_bss (strcmpEq_unique k.noZero bss_noZero hn h.2)
  unfold loadSection
  rw [if_neg h.1]
  exact (if_neg (hno .code)).trans ((if_neg (hno .initData)).trans
    ((if_neg (hno .readonlyData)).trans (if_pos h.2)))

theorem loadSection_unknown (h : s.sSize ≠ 0#32) (hraw : ∀ k : Raw, ¬ s.Is k.name)
    (hbss : ¬ s.Is dotBss) : loadSection host file s = throw (.unknownType s.sName) := by
  have hno : ∀ name, ¬ s.Is name → ¬ s.named name = true := fun name hn hname => hn ⟨h, hname⟩
  unfold loadSection
  rw [if_neg h]
  exact (if_neg (hno _ (hraw .code))).trans ((if_neg (hno _ (hraw .initData))).trans
    ((if_neg (hno _ (hraw .readonlyData))).trans (if_neg (hno _ hbss))))

/-! ## The file header and the section headers -/

/-- The `filehdr` of a file. -/
def fileHeader (file : List UInt8) : Filehdr := Filehdr.ofBytes fun k => file.getD k 0

/-- Its `aouthdr`. -/
def systemHeader (file : List UInt8) : Aouthdr :=
  Aouthdr.ofBytes fun k => file.getD (filehdrSize + k) 0

/-- How many section headers follow. -/
def numSections (file : List UInt8) : Nat := (fileHeader file).fNscns.toNat

/-- The section headers of a file. -/
def sectionsOf (file : List UInt8) : List Scnhdr :=
  Scnhdr.table (numSections file) fun k => file.getD (filehdrSize + aouthdrSize + k) 0

/-- A file begins as a MIPSEL and OMAGIC file does, and is long enough for its section headers. -/
structure HasHeaders (file : List UInt8) : Prop where
  length : filehdrSize + aouthdrSize + numSections file * scnhdrSize ≤ file.length
  magic : (fileHeader file).fMagic = mipselMagic
  omagic : (systemHeader file).magic = oMagic

theorem shortAt_congr {b b' : Nat → UInt8} {i : Nat} (h0 : b i = b' i)
    (h1 : b (i + 1) = b' (i + 1)) : shortAt b i = shortAt b' i := by
  unfold shortAt
  rw [h0, h1]

theorem Filehdr.ofBytes_congr {b b' : Nat → UInt8} (h : ∀ k, k < filehdrSize → b k = b' k) :
    Filehdr.ofBytes b = Filehdr.ofBytes b' := by
  have h0 : shortAt b 0 = shortAt b' 0 := shortAt_congr (h _ (by decide)) (h _ (by decide))
  have h2 : shortAt b 2 = shortAt b' 2 := shortAt_congr (h _ (by decide)) (h _ (by decide))
  unfold Filehdr.ofBytes
  rw [h0, h2]

theorem Aouthdr.ofBytes_congr {b b' : Nat → UInt8} (h : ∀ k, k < aouthdrSize → b k = b' k) :
    Aouthdr.ofBytes b = Aouthdr.ofBytes b' := by
  have h0 : shortAt b 0 = shortAt b' 0 := shortAt_congr (h _ (by decide)) (h _ (by decide))
  unfold Aouthdr.ofBytes
  rw [h0]

theorem Scnhdr.ofBytes_congr {b b' : Nat → UInt8} (h : ∀ k, k < scnhdrSize → b k = b' k) :
    Scnhdr.ofBytes b = Scnhdr.ofBytes b' := by
  have h40 : scnhdrSize = 40 := rfl
  have hname : (fun k => if k < 8 then b k else 0) = fun k => if k < 8 then b' k else 0 := by
    funext k
    split
    · exact h k (by omega)
    · rfl
  have hword : ∀ i, i + 4 ≤ 40 → Base.wordAt b i = Base.wordAt b' i := fun i hi =>
    Base.wordAt_congr fun k hk => h (i + k) (by omega)
  unfold Scnhdr.ofBytes
  rw [hname, hword 8 (by omega), hword 16 (by omega), hword 20 (by omega)]

theorem Scnhdr.table_congr {n : Nat} {b b' : Nat → UInt8}
    (h : ∀ k, k < n * scnhdrSize → b k = b' k) : Scnhdr.table n b = Scnhdr.table n b' := by
  unfold Scnhdr.table
  refine List.map_congr_left fun i hi => ofBytes_congr fun k hk => h _ ?_
  have hi := List.mem_range.mp hi
  simp only [scnhdrSize] at hk ⊢
  omega

/-- What is read from `off` on. -/
theorem getD_take_drop {off n k : Nat} (hk : k < n) :
    ((file.drop off).take n).getD k 0 = file.getD (off + k) 0 := by
  simp only [List.getD_eq_getElem?_getD, List.getElem?_take, if_pos hk, List.getElem?_drop]

theorem fileHeader_read : Filehdr.ofBytes (fun k =>
    ((file.drop 0).take filehdrSize).getD k 0) = fileHeader file :=
  Filehdr.ofBytes_congr fun k hk => by rw [getD_take_drop hk, Nat.zero_add]

theorem systemHeader_read : Aouthdr.ofBytes (fun k =>
    ((file.drop (0 + filehdrSize)).take aouthdrSize).getD k 0) = systemHeader file :=
  Aouthdr.ofBytes_congr fun k hk => by rw [getD_take_drop hk, Nat.zero_add]

theorem sectionsOf_read : Scnhdr.table (numSections file) (fun k =>
    ((file.drop (0 + filehdrSize + aouthdrSize)).take (numSections file * scnhdrSize)).getD k 0) =
      sectionsOf file :=
  Scnhdr.table_congr fun k hk => by rw [getD_take_drop hk, Nat.zero_add]

/-- `main` from the loop on. -/
def finish (host : Host) (file : List UInt8) (sections : List Scnhdr) : CoffM Unit := do
  loadSections host file sections
  modify fun c => { c with fdOut := 0, noffH := swapHeader c.noffH }
  let c ← get
  write host true c.noffH.bytes (BitVec.ofNat 32 noffHeaderSize)

/-- The state before the loop. -/
def Conv.ready (fdIn : Nat) (stack : NoffHeader) : Conv :=
  ⟨fdIn, [], noffHeaderSize, BitVec.ofNat 32 noffHeaderSize, stack.init⟩

/-- The file header is read. -/
theorem read_filehdr (h : filehdrSize ≤ file.length) (stack : NoffHeader) :
    read file true (BitVec.ofNat 32 filehdrSize) (Conv.start stack) =
      .ok ((file.drop 0).take filehdrSize) { Conv.start stack with fdIn := 0 + filehdrSize } := by
  have h20 : filehdrSize = 20 := rfl
  exact read_header (by omega) rfl (by show 0 + _ ≤ _; omega)

/-- The system header is read. -/
theorem read_aouthdr (h : filehdrSize + aouthdrSize ≤ file.length) (stack : NoffHeader) :
    read file true (BitVec.ofNat 32 aouthdrSize) { Conv.start stack with fdIn := 0 + filehdrSize } =
      .ok ((file.drop (0 + filehdrSize)).take aouthdrSize)
        { Conv.start stack with fdIn := 0 + filehdrSize + aouthdrSize } := by
  have h56 : aouthdrSize = 56 := rfl
  exact read_header (by omega) rfl (by show 0 + _ + _ ≤ _; omega)

/-- **Up to the loop.** -/
theorem main_eq (h : HasHeaders file) (hmemory : numSections file * scnhdrSize ≤ host.memory)
    (stack : NoffHeader) : main host file (Conv.start stack) = finish host file (sectionsOf file)
      (Conv.ready (0 + filehdrSize + aouthdrSize + numSections file * scnhdrSize) stack) := by
  have hlen := h.length
  have hnum : numSections file < 65536 := (fileHeader file).fNscns.isLt
  have hbytes : numSections file * scnhdrSize = numSections file * 40 := rfl
  have hread : read file (decide (numSections file * scnhdrSize ≤ host.memory))
        (BitVec.ofNat 32 (numSections file * scnhdrSize))
        { Conv.start stack with fdIn := 0 + filehdrSize + aouthdrSize } =
      .ok ((file.drop (0 + filehdrSize + aouthdrSize)).take (numSections file * scnhdrSize))
        { Conv.start stack with
          fdIn := 0 + filehdrSize + aouthdrSize + numSections file * scnhdrSize } :=
    read_header (by omega) (decide_eq_true hmemory) (by show 0 + _ + _ + _ ≤ _; omega)
  unfold main
  rw [bind_eq_of_ok (read_filehdr (by omega) stack)]
  dsimp only
  rw [fileHeader_read, if_neg (not_not.mpr h.magic),
    bind_eq_of_ok (read_aouthdr (by omega) stack)]
  dsimp only
  rw [systemHeader_read, if_neg (not_not.mpr h.omagic)]
  refine (bind_eq_of_ok hread).trans ?_
  dsimp only
  rw [show (fileHeader file).fNscns.toNat = numSections file from rfl, sectionsOf_read]
  rfl

/-- A file without its headers is refused. -/
theorem main_fails (h : ¬ (HasHeaders file ∧ numSections file * scnhdrSize ≤ host.memory))
    (stack : NoffHeader) : ∃ e c, main host file (Conv.start stack) = .error e c := by
  have hnum : numSections file < 65536 := (fileHeader file).fNscns.isLt
  have h20 : filehdrSize = 20 := rfl
  have h56 : aouthdrSize = 56 := rfl
  have hbytes : numSections file * scnhdrSize = numSections file * 40 := rfl
  unfold main
  by_cases hlen₁ : file.length < filehdrSize
  · refine ⟨_, _, bind_eq_of_error (read_header_fails (by omega) (Or.inr ⟨by omega, ?_⟩))⟩
    show file.length < 0 + filehdrSize
    omega
  rw [bind_eq_of_ok (read_filehdr (by omega) stack)]
  dsimp only
  rw [fileHeader_read]
  by_cases hmagic : (fileHeader file).fMagic = mipselMagic
  · rw [if_neg (not_not.mpr hmagic)]
    by_cases hlen₂ : file.length < filehdrSize + aouthdrSize
    · refine ⟨_, _, bind_eq_of_error (read_header_fails (by omega) (Or.inr ⟨by omega, ?_⟩))⟩
      show file.length < 0 + filehdrSize + aouthdrSize
      omega
    rw [bind_eq_of_ok (read_aouthdr (by omega) stack)]
    dsimp only
    rw [systemHeader_read]
    by_cases homagic : (systemHeader file).magic = oMagic
    · rw [if_neg (not_not.mpr homagic)]
      refine ⟨_, _, bind_eq_of_error (read_header_fails ?_ ?_)⟩
      · show numSections file * scnhdrSize < 2147483648
        omega
      · show decide (numSections file * scnhdrSize ≤ host.memory) = false ∨
          numSections file * scnhdrSize ≠ 0 ∧
            file.length < 0 + filehdrSize + aouthdrSize + numSections file * scnhdrSize
        by_cases hmemory : numSections file * scnhdrSize ≤ host.memory
        · have hno : ¬ filehdrSize + aouthdrSize + numSections file * scnhdrSize ≤ file.length :=
            fun hle => h ⟨⟨hle, hmagic, homagic⟩, hmemory⟩
          omega
        · exact Or.inl (decide_eq_false hmemory)
    · rw [if_pos homagic]
      exact ⟨_, _, rfl⟩
  · rw [if_pos hmagic]
    exact ⟨_, _, rfl⟩

end Nachos.Coff2noff
