import Mathlib.Algebra.GroupWithZero.Nat
import Nachos.Proof.Convert
import Nachos.Userprog.AddrSpace

/-!
# Every section arrives

Sections are copied in the order of their headers, each to where the output ends at that moment.
The invariant of the loop says of the segments so far that each holds the bytes of its section
and that no two of them share a byte, and of `inNoffFile` that it is the offset of the output,
although nothing connects the two. The header goes over the bytes that were left for it.

What the output means is stated through the `NoffHeader.decode` of the loader.
-/

namespace Nachos.Coff2noff

open Base (byteOf packWords writeOver length_writeOver getD_writeOver bind_eq_of_ok get_bind
  modify_bind)

variable {host : Host} {file out : List UInt8} {c : Conv} {s : Scnhdr} {k : Raw}

/-! ## What is asked of a file and of a host -/

/-- The raw data of the section are in the file. -/
structure Scnhdr.Inside (file : List UInt8) (s : Scnhdr) : Prop where
  ptr : 0 ≤ s.sScnptr.toInt
  size : 0 ≤ s.sSize.toInt
  le : s.sScnptr.toInt + s.sSize.toInt ≤ file.length

/-- The bytes that a section takes in the output. -/
def Scnhdr.rawSize (s : Scnhdr) : Nat :=
  if s.named dotText || s.named dotData || s.named dotRdata then s.sSize.toNat else 0

/-- The names of sections. -/
def names : List (List UInt8) := [dotText, dotData, dotRdata, dotBss]

/-- The sections of a file: not empty ones have one of the four names, no two of them the same,
and their raw data are in the file. -/
structure Regular (file : List UInt8) (sections : List Scnhdr) : Prop where
  named : ∀ s ∈ sections, s.sSize ≠ 0#32 → (∃ k : Raw, s.Is k.name) ∨ s.Is dotBss
  once : sections.Pairwise fun s s' => ∀ name ∈ names, s.Is name → ¬ s'.Is name
  inside : ∀ s ∈ sections, ∀ k : Raw, s.Is k.name → s.Inside file

/-- The host has room for the sections. -/
structure Host.Holds (host : Host) (sections : List Scnhdr) : Prop where
  table : sections.length * scnhdrSize ≤ host.memory
  memory : ∀ s ∈ sections, s.rawSize ≤ host.memory
  room : noffHeaderSize + (sections.map Scnhdr.rawSize).sum ≤ host.room

theorem Raw.mem_names (k : Raw) : k.name ∈ names := by
  cases k <;> decide

theorem bss_mem_names : dotBss ∈ names := by decide

theorem rawSize_of_is (h : s.Is k.name) : s.rawSize = s.sSize.toNat := by
  unfold Scnhdr.rawSize
  cases k with
  | code => rw [show s.named dotText = true from h.2]; rfl
  | initData => rw [show s.named dotData = true from h.2, Bool.or_true]; rfl
  | readonlyData => rw [show s.named dotRdata = true from h.2, Bool.or_true]; rfl

/-! ## The segments -/

/-- Byte `x` of the output belongs to the segment. -/
def Segment.Covers (seg : Segment) (x : Nat) : Prop :=
  seg.inFileAddr.toNat ≤ x ∧ x < seg.inFileAddr.toNat + seg.size.toNat

/-- The segment holds the section. -/
structure Placed (file out : List UInt8) (seg : Segment) (s : Scnhdr) : Prop where
  virtualAddr : seg.virtualAddr = s.sPaddr
  size : seg.size = s.sSize
  fits : seg.inFileAddr.toNat + seg.size.toNat ≤ out.length
  bytes : ∀ j, j < seg.size.toNat →
    out.getD (seg.inFileAddr.toNat + j) 0 = file.getD (s.sScnptr.toNat + j) 0

/-- After the sections `before`. -/
structure Converted (host : Host) (file : List UInt8) (before : List Scnhdr) (c : Conv) : Prop where
  position : c.inNoffFile.toNat = c.fdOut
  start : noffHeaderSize ≤ c.fdOut
  length : c.out.length ≤ c.fdOut
  magic : c.noffH.noffMagic = noffMagicNumber
  placed : ∀ k : Raw, ∀ s ∈ before, s.Is k.name → Placed file c.out (k.get c.noffH) s
  absent : ∀ k : Raw, (∀ s ∈ before, ¬ s.Is k.name) → (k.get c.noffH).size = 0#32
  between : ∀ (k : Raw) x, (k.get c.noffH).Covers x → noffHeaderSize ≤ x ∧ x < c.fdOut
  apart : ∀ k k' : Raw, k ≠ k' → ∀ x, (k.get c.noffH).Covers x → ¬ (k'.get c.noffH).Covers x
  bss : ∀ s ∈ before, s.Is dotBss →
    c.noffH.uninitData.virtualAddr = s.sPaddr ∧ c.noffH.uninitData.size = s.sSize
  noBss : (∀ s ∈ before, ¬ s.Is dotBss) → c.noffH.uninitData.size = 0#32

theorem Segment.not_covers {seg : Segment} (h : seg.size = 0#32) (x : Nat) : ¬ seg.Covers x := by
  rintro ⟨hlo, hhi⟩
  rw [h] at hhi
  simp only [BitVec.toNat_ofNat] at hhi
  omega

/-- A segment stays where it is when more is written behind it. -/
theorem Placed.keep {seg : Segment} (h : Placed file out seg s) {off : Nat}
    (hoff : out.length ≤ off)
    (buffer : List UInt8) : Placed file (writeOver 0 out off buffer) seg s where
  virtualAddr := h.virtualAddr
  size := h.size
  fits := by
    have hfits := h.fits
    rw [length_writeOver]
    omega
  bytes := by
    intro j hj
    have hfits := h.fits
    rw [getD_writeOver, if_neg (by omega)]
    exact h.bytes j hj

/-! ## One section -/

/-- A section of that name is one of those before, if the new one has another name. -/
theorem mem_before {before : List Scnhdr} {s' : Scnhdr} {name : List UInt8} (hno : ¬ s.Is name)
    (hs' : s' ∈ before ++ [s]) (his : s'.Is name) : s' ∈ before := by
  rcases List.mem_append.mp hs' with hs' | hs'
  · exact hs'
  · obtain rfl := List.mem_singleton.mp hs'
    exact absurd his hno

/-- A section that changes nothing: it is empty. -/
theorem Converted.skip {before : List Scnhdr} (h : Converted host file before c)
    (hs : s.sSize = 0#32) : Converted host file (before ++ [s]) c := by
  have hno : ∀ name, ¬ s.Is name := fun _ his => his.1 hs
  exact ⟨h.position, h.start, h.length, h.magic,
    fun k s' hs' his => h.placed k s' (mem_before (hno _) hs' his) his,
    fun k hall => h.absent k fun s' hs' => hall s' (List.mem_append_left _ hs'), h.between, h.apart,
    fun s' hs' his => h.bss s' (mem_before (hno _) hs' his) his,
    fun hall => h.noBss fun s' hs' => hall s' (List.mem_append_left _ hs')⟩

theorem Scnhdr.Inside.count_eq (h : s.Inside file) : s.count = s.sSize.toNat := by
  have hsize := h.size
  have hlt := s.sSize.isLt
  unfold Scnhdr.count
  rw [BitVec.toInt_eq_toNat_cond] at hsize ⊢
  split at hsize
  · rw [if_pos ‹_›]
    rfl
  · omega

theorem Scnhdr.Inside.lseek_eq (h : s.Inside file) (fdIn : Nat) :
    lseek s.sScnptr fdIn = s.sScnptr.toNat ∧ (s.sScnptr.toInt : Int) = s.sScnptr.toNat := by
  have hptr := h.ptr
  have hlt := s.sScnptr.isLt
  refine ⟨if_neg (by omega), ?_⟩
  rw [BitVec.toInt_eq_toNat_cond] at hptr ⊢
  split at hptr
  · rw [if_pos ‹_›]
  · omega

theorem Scnhdr.Inside.end_le (h : s.Inside file) : s.sScnptr.toNat + s.count ≤ file.length := by
  have hle := h.le
  have hptr := (h.lseek_eq 0).2
  have hcount : (s.count : Int) = s.sSize.toInt := Int.toNat_of_nonneg h.size
  omega

/-- The raw data of a section. -/
def Scnhdr.rawBytes (file : List UInt8) (s : Scnhdr) : List UInt8 :=
  (file.drop s.sScnptr.toNat).take s.count

theorem Scnhdr.Inside.length_rawBytes (h : s.Inside file) : (s.rawBytes file).length = s.count := by
  have hend := h.end_le
  unfold Scnhdr.rawBytes
  rw [List.length_take, List.length_drop]
  omega

theorem getD_rawBytes {j : Nat} (hj : j < s.count) :
    (s.rawBytes file).getD j 0 = file.getD (s.sScnptr.toNat + j) 0 := by
  simp only [Scnhdr.rawBytes, List.getD_eq_getElem?_getD, List.getElem?_take, if_pos hj,
    List.getElem?_drop]

theorem Scnhdr.Inside.count_pos (h : s.Inside file) (hs : s.sSize ≠ 0#32) : 0 < s.count := by
  rw [h.count_eq]
  exact Nat.pos_of_ne_zero fun hz => hs (BitVec.eq_of_toNat_eq hz)

/-- The raw data are written at the end. -/
theorem copied_out (put : Segment → NoffHeader → NoffHeader) (hin : s.Inside file)
    (hs : s.sSize ≠ 0#32) :
    (copied file put s c).out = writeOver 0 c.out c.fdOut (s.rawBytes file) := by
  have hpos := hin.count_pos hs
  unfold copied Scnhdr.rawBytes
  dsimp only
  rw [if_neg (by omega), (hin.lseek_eq c.fdIn).1]

/-- The new segment is behind the others. -/
theorem Converted.covers_copied {before : List Scnhdr} (h : Converted host file before c)
    (hin : s.Inside file) {x : Nat} (hx : (k.get (copied file k.put s c).noffH).Covers x) :
    c.fdOut ≤ x ∧ x < c.fdOut + s.count := by
  rw [show k.get (copied file k.put s c).noffH = ⟨s.sPaddr, c.inNoffFile, s.sSize⟩ from
    Raw.get_put_self _ _ _] at hx
  obtain ⟨hlo, hhi⟩ := hx
  dsimp only at hlo hhi
  rw [h.position] at hlo hhi
  rw [hin.count_eq]
  exact ⟨hlo, hhi⟩

/-- It holds the section. -/
theorem Converted.placed_copied {before : List Scnhdr} (h : Converted host file before c)
    (hin : s.Inside file) (hs : s.sSize ≠ 0#32) :
    Placed file (copied file k.put s c).out (k.get (copied file k.put s c).noffH) s := by
  rw [show k.get (copied file k.put s c).noffH = ⟨s.sPaddr, c.inNoffFile, s.sSize⟩ from
    Raw.get_put_self _ _ _, copied_out k.put hin hs]
  refine ⟨rfl, rfl, ?_, ?_⟩
  · dsimp only
    rw [length_writeOver, hin.length_rawBytes, h.position, hin.count_eq]
    omega
  · intro j hj
    dsimp only at hj ⊢
    rw [← hin.count_eq] at hj
    rw [getD_writeOver, h.position, hin.length_rawBytes, if_pos ⟨by omega, by omega⟩,
      Nat.add_sub_cancel_left]
    exact getD_rawBytes hj

/-- **A section is copied.** -/
theorem Converted.copy {before : List Scnhdr} (h : Converted host file before c) (hs : s.Is k.name)
    (hfirst : ∀ s' ∈ before, ¬ s'.Is k.name) (hin : s.Inside file)
    (hroom : c.fdOut + s.count ≤ host.room) :
    Converted host file (before ++ [s]) (copied file k.put s c) := by
  have hbelow := host.room_lt
  have hstart := h.start
  have hlen := h.length
  have hout := copied_out (c := c) k.put hin hs.1
  have hother : ∀ k', k' ≠ k → k'.get (copied file k.put s c).noffH = k'.get c.noffH :=
    fun k' hne => Raw.get_put_ne hne _ _
  have huninit : (copied file k.put s c).noffH.uninitData = c.noffH.uninitData :=
    Raw.put_uninitData _ _ _
  have hnot : ∀ k' : Raw, k' ≠ k → ¬ s.Is k'.name := fun k' hne his =>
    hne (Raw.name_inj (his.unique hs k'.noZero k.noZero))
  have hbss : ¬ s.Is dotBss := fun his => k.name_ne_bss (hs.unique his k.noZero bss_noZero)
  refine ⟨?_, ?_, ?_, ?_, ?_, ?_, ?_, ?_, ?_, ?_⟩
  · show (c.inNoffFile + s.sSize).toNat = c.fdOut + s.count
    rw [BitVec.toNat_add, h.position, ← hin.count_eq]
    omega
  · show noffHeaderSize ≤ c.fdOut + s.count
    omega
  · rw [hout, length_writeOver, hin.length_rawBytes]
    show max c.out.length (c.fdOut + s.count) ≤ c.fdOut + s.count
    omega
  · exact (Raw.put_noffMagic _ _ _).trans h.magic
  · intro k' s' hs' his
    by_cases hk : k' = k
    · subst hk
      obtain rfl : s' = s := by
        rcases List.mem_append.mp hs' with hs' | hs'
        · exact absurd his (hfirst s' hs')
        · exact List.mem_singleton.mp hs'
      exact h.placed_copied hin hs.1
    · rw [hother k' hk, hout]
      exact (h.placed k' s' (mem_before (hnot k' hk) hs' his) his).keep hlen _
  · intro k' hall
    have hk : k' ≠ k := by
      rintro rfl
      exact hall s (List.mem_append_right _ List.mem_cons_self) hs
    rw [hother k' hk]
    exact h.absent k' fun s' hs' => hall s' (List.mem_append_left _ hs')
  · intro k' x hx
    show noffHeaderSize ≤ x ∧ x < c.fdOut + s.count
    by_cases hk : k' = k
    · have hnew := h.covers_copied (k := k) hin (hk ▸ hx)
      omega
    · have hold := h.between k' x (hother k' hk ▸ hx)
      omega
  · -- the new segment and an old one, either way round
    have hcases : ∀ k', k' ≠ k → ∀ x, (k.get (copied file k.put s c).noffH).Covers x →
        ¬ (k'.get (copied file k.put s c).noffH).Covers x := by
      intro k' hk x hx hx'
      have hnew := h.covers_copied hin hx
      have hold := h.between k' x (hother k' hk ▸ hx')
      omega
    intro k₁ k₂ hne x hx hx'
    by_cases h1 : k₁ = k
    · subst h1
      exact hcases k₂ (Ne.symm hne) x hx hx'
    · by_cases h2 : k₂ = k
      · subst h2
        exact hcases k₁ h1 x hx' hx
      · exact h.apart k₁ k₂ hne x (hother k₁ h1 ▸ hx) (hother k₂ h2 ▸ hx')
  · intro s' hs' his
    rw [huninit]
    exact h.bss s' (mem_before hbss hs' his) his
  · intro hall
    rw [huninit]
    exact h.noBss fun s' hs' => hall s' (List.mem_append_left _ hs')

theorem loadSection_copies (hs : s.Is k.name) (hin : s.Inside file)
    (hmemory : s.rawSize ≤ host.memory) (hroom : c.fdOut + s.count ≤ host.room) :
    loadSection host file s c = .ok () (copied file k.put s c) := by
  rw [rawSize_of_is hs] at hmemory
  have hend := hin.end_le
  rw [← (hin.lseek_eq c.fdIn).1] at hend
  rw [loadSection_raw k hs]
  exact copySegment_ok k.put hs.1 (Or.inr ⟨hin.size, hmemory, hend, hroom⟩)

/-- **The first `.bss` is noted.** -/
theorem Converted.note {before : List Scnhdr} (h : Converted host file before c) (hs : s.Is dotBss)
    (hfirst : ∀ s' ∈ before, ¬ s'.Is dotBss) :
    ∃ c', loadSection host file s c = .ok () c' ∧ c'.fdOut = c.fdOut ∧
      Converted host file (before ++ [s]) c' := by
  have hzero := h.noBss hfirst
  have hraw : ∀ k : Raw, ¬ s.Is k.name :=
    fun k his => k.name_ne_bss (his.unique hs k.noZero bss_noZero)
  have hget : ∀ (k : Raw) (u : Segment), k.get { c.noffH with uninitData := u } =
    k.get c.noffH := by
    intro k u
    cases k <;> rfl
  refine ⟨{ c with noffH := { c.noffH with
    uninitData := { c.noffH.uninitData with virtualAddr := s.sPaddr, size := s.sSize } } },
      ?_, rfl, ?_⟩
  · rw [loadSection_bss hs]
    unfold mergeBss
    rw [get_bind, if_neg (not_not.mpr hzero)]
    rfl
  · refine ⟨h.position, h.start, h.length, h.magic, fun k s' hs' his => ?_, fun k hall => ?_,
      fun k x hx => ?_, fun k k' hne x hx hx' => ?_, fun s' hs' his => ?_, fun hall => ?_⟩
    · rw [hget]
      exact h.placed k s' (mem_before (hraw k) hs' his) his
    · rw [hget]
      exact h.absent k fun s' hs' => hall s' (List.mem_append_left _ hs')
    · rw [hget] at hx
      exact h.between k x hx
    · rw [hget] at hx hx'
      exact h.apart k k' hne x hx hx'
    · rcases List.mem_append.mp hs' with hs' | hs'
      · exact absurd his (hfirst s' hs')
      · obtain rfl := List.mem_singleton.mp hs'
        exact ⟨rfl, rfl⟩
    · exact absurd hs (hall s (List.mem_append_right _ List.mem_cons_self))

/-! ## The loop -/

/-- **Sections in any order.** -/
theorem loadSections_ok : ∀ (sections before : List Scnhdr)
    {c : Conv}, Converted host file before c →
    Regular file (before ++ sections) → (∀ s ∈ sections, s.rawSize ≤ host.memory) →
    c.fdOut + (sections.map Scnhdr.rawSize).sum ≤ host.room →
    ∃ c', loadSections host file sections c = .ok () c' ∧ c'.fdOut ≤ host.room ∧
      Converted host file (before ++ sections) c' := by
  intro sections
  induction sections with
  | nil =>
      intro before c h _ _ hroom
      exact ⟨c, rfl, hroom, by rwa [List.append_nil]⟩
  | cons s sections ih =>
      intro before c h hregular hmemory hroom
      rw [List.map_cons, List.sum_cons] at hroom
      have hmem : s ∈ before ++ s :: sections := List.mem_append_right _ List.mem_cons_self
      have hfirst : ∀ name ∈ names, s.Is name → ∀ s' ∈ before, ¬ s'.Is name := by
        intro name hname his s' hs' his'
        exact (List.pairwise_append.mp hregular.once).2.2 s' hs' s List.mem_cons_self name
          hname his' his
      obtain ⟨c₁, hrun₁, hroom₁, h₁⟩ : ∃ c₁, loadSection host file s c = .ok () c₁ ∧
          c₁.fdOut + (sections.map Scnhdr.rawSize).sum ≤ host.room ∧
          Converted host file (before ++ [s]) c₁ := by
        by_cases hempty : s.sSize = 0#32
        · refine ⟨c, ?_, by omega, h.skip hempty⟩
          rw [loadSection_empty hempty]
          rfl
        · rcases hregular.named s hmem hempty with ⟨k, his⟩ | his
          · have hin := hregular.inside s hmem k his
            rw [rawSize_of_is his, ← hin.count_eq] at hroom
            refine ⟨_, loadSection_copies his hin (hmemory s List.mem_cons_self) (by omega), ?_,
              h.copy his (hfirst _ k.mem_names his) hin (by omega)⟩
            show c.fdOut + s.count + _ ≤ host.room
            omega
          · obtain ⟨c₁, hrun, hsame, hnext⟩ := h.note his (hfirst _ bss_mem_names his)
            exact ⟨c₁, hrun, by omega, hnext⟩
      have hassoc : before ++ [s] ++ sections = before ++ s :: sections := by simp
      obtain ⟨c', hrun', hroom', h'⟩ := ih (before ++ [s]) h₁ (by rwa [hassoc])
        (fun s' hs' => hmemory s' (List.mem_cons_of_mem _ hs')) hroom₁
      rw [hassoc] at h'
      refine ⟨c', ?_, hroom', h'⟩
      rw [loadSections, bind_eq_of_ok hrun₁]
      exact hrun'

/-- Before the loop. -/
theorem converted_start (fdIn : Nat) (h : NoffHeader) :
    Converted host file [] (Conv.ready fdIn h) where
  position := rfl
  start := Nat.le_refl _
  length := Nat.zero_le _
  magic := rfl
  placed := fun _ s hs => absurd hs List.not_mem_nil
  absent := fun k _ => by cases k <;> rfl
  between := fun k x hx => absurd hx (Segment.not_covers (by cases k <;> rfl) x)
  apart := fun k _ _ x hx => absurd hx (Segment.not_covers (by cases k <;> rfl) x)
  bss := fun s hs => absurd hs List.not_mem_nil
  noBss := fun _ => rfl

/-! ## What the loader finds -/

theorem length_bytes (h : NoffHeader) : h.bytes.length = noffHeaderSize := by
  unfold NoffHeader.bytes
  rw [List.length_map, List.length_range]

theorem toNat_byteOf (w : BitVec 32) (k : Nat) :
    (byteOf w k).toNat = w.toNat >>> (8 * k) % 256 := by
  unfold byteOf
  rw [UInt8.toNat_ofBitVec, BitVec.extractLsb'_toNat]

/-- A word, as the loader reads it. -/
theorem wordAt_byteOf {buf : Nat → UInt8} {off : Nat} {w : BitVec 32}
    (h : ∀ k, k < 4 → buf (off + k) = byteOf w k) : Nachos.wordAt buf off = w.toInt := by
  have hlt := w.isLt
  have h0 : (buf off).toNat = w.toNat % 256 := by
    rw [show buf off = byteOf w 0 from h 0 (by omega), toNat_byteOf]
    simp
  have h1 : (buf (off + 1)).toNat = w.toNat / 256 % 256 := by
    rw [h 1 (by omega), toNat_byteOf, Nat.shiftRight_eq_div_pow]
  have h2 : (buf (off + 2)).toNat = w.toNat / 65536 % 256 := by
    rw [h 2 (by omega), toNat_byteOf, Nat.shiftRight_eq_div_pow]
  have h3 : (buf (off + 3)).toNat = w.toNat / 16777216 % 256 := by
    rw [h 3 (by omega), toNat_byteOf, Nat.shiftRight_eq_div_pow]
  have hsum : ((buf off).toNat : Int) + 256 * (buf (off + 1)).toNat + 65536 *
    (buf (off + 2)).toNat +
      16777216 * (buf (off + 3)).toNat = w.toNat := by
    rw [h0, h1, h2, h3]
    omega
  unfold Nachos.wordAt
  rw [hsum, BitVec.toInt_eq_toNat_bmod]
  rfl

/-- The segment as the loader has it, in integers. -/
def Segment.toInts (s : Segment) : Nachos.Segment :=
  ⟨s.virtualAddr.toInt, s.inFileAddr.toInt, s.size.toInt⟩

/-- The header as the loader has it. -/
def NoffHeader.toInts (h : NoffHeader) : Nachos.NoffHeader :=
  ⟨h.noffMagic.toInt, h.code.toInts, h.initData.toInts, h.readonlyData.toInts, h.uninitData.toInts⟩

/-- **The loader reads the header that was written.** -/
theorem decode_bytes (h : NoffHeader) {buf : Nat → UInt8}
    (hbuf : ∀ i, i < noffHeaderSize → buf i = h.bytes.getD i 0) :
    Nachos.NoffHeader.decode buf = h.toInts := by
  have hword : ∀ i, i < 13 → Nachos.wordAt buf (4 * i) = (h.words.getD i 0).toInt := by
    intro i hi
    refine wordAt_byteOf fun k hk => ?_
    have hlt : 4 * i + k < noffHeaderSize := by
      show 4 * i + k < 52
      omega
    have hdiv : (4 * i + k) / 4 = i := by omega
    have hmod : (4 * i + k) % 4 = k := by omega
    rw [hbuf _ hlt]
    unfold NoffHeader.bytes
    rw [List.getD_eq_getElem _ _ (by rw [List.length_map, List.length_range]; exact hlt),
      List.getElem_map, List.getElem_range]
    unfold packWords
    rw [hdiv, hmod]
  have hsegment : ∀ i, i + 2 < 13 → Nachos.segmentAt buf (4 * i) =
      ⟨(h.words.getD i 0).toInt, (h.words.getD (i + 1) 0).toInt,
      (h.words.getD (i + 2) 0).toInt⟩ := by
    intro i hi
    unfold Nachos.segmentAt
    rw [hword i (by omega), show 4 * i + 4 = 4 * (i + 1) by omega, hword (i + 1) (by omega),
      show 4 * i + 8 = 4 * (i + 2) by omega, hword (i + 2) (by omega)]
  unfold Nachos.NoffHeader.decode
  rw [show (0 : Nat) = 4 * 0 from rfl, hword 0 (by omega), show (4 : Nat) = 4 * 1 from rfl,
    hsegment 1 (by omega), show (16 : Nat) = 4 * 4 from rfl, hsegment 4 (by omega),
    show (28 : Nat) = 4 * 7 from rfl, hsegment 7 (by omega), show (40 : Nat) = 4 * 10 from rfl,
    hsegment 10 (by omega)]
  rfl

/-! ## The output -/

/-- A segment of the loader's header. -/
def Raw.of : Raw → Nachos.NoffHeader → Nachos.Segment
  | .code, h => h.code
  | .initData, h => h.initData
  | .readonlyData, h => h.readonlyData

/-- The file has the section's bytes where the segment says. -/
structure Delivered (file out : List UInt8) (seg : Nachos.Segment) (s : Scnhdr) : Prop where
  virtualAddr : seg.virtualAddr = s.sPaddr.toInt
  size : seg.size = s.sSize.toInt
  start : (noffHeaderSize : Int) ≤ seg.inFileAddr
  fits : seg.inFileAddr + seg.size ≤ out.length
  bytes : ∀ j : Nat, (j : Int) < seg.size →
    out.getD (seg.inFileAddr + j).toNat 0 = file.getD (s.sScnptr.toInt + j).toNat 0

/-- Byte `x` of the file belongs to the segment. -/
def InSegment (seg : Nachos.Segment) (x : Int) : Prop :=
  seg.inFileAddr ≤ x ∧ x < seg.inFileAddr + seg.size

/-- The output has every section. -/
structure Complete (file out : List UInt8) (sections : List Scnhdr)
    (noffH : Nachos.NoffHeader) : Prop where
  magic : noffH.noffMagic = Nachos.noffMagicNumber
  delivered : ∀ k : Raw, ∀ s ∈ sections, s.Is k.name → Delivered file out (k.of noffH) s
  absent : ∀ k : Raw, (∀ s ∈ sections, ¬ s.Is k.name) → (k.of noffH).size = 0
  header : ∀ (k : Raw) x, InSegment (k.of noffH) x → (noffHeaderSize : Int) ≤ x
  disjoint : ∀ k k' : Raw, k ≠ k' → ∀ x, InSegment (k.of noffH) x → ¬ InSegment (k'.of noffH) x
  bss : ∀ s ∈ sections, s.Is dotBss → noffH.uninitData.virtualAddr = s.sPaddr.toInt ∧
    noffH.uninitData.size = s.sSize.toInt
  noBss : (∀ s ∈ sections, ¬ s.Is dotBss) → noffH.uninitData.size = 0

theorem Raw.of_toInts (k : Raw) (h : NoffHeader) : k.of h.toInts = (k.get h).toInts := by
  cases k <;> rfl

/-- The numbers of a segment with something in it are small. -/
theorem Converted.small {sections : List Scnhdr} (h : Converted host file sections c)
    (hroom : c.fdOut ≤ host.room) (k : Raw) :
    (k.get c.noffH).size = 0#32 ∨
      (k.get c.noffH).inFileAddr.toInt = (k.get c.noffH).inFileAddr.toNat ∧
        (k.get c.noffH).size.toInt = (k.get c.noffH).size.toNat := by
  have hbelow := host.room_lt
  have hlen := h.length
  by_cases hex : ∃ s ∈ sections, s.Is k.name
  · obtain ⟨s, hs, his⟩ := hex
    have hfits := (h.placed k s hs his).fits
    exact Or.inr ⟨BitVec.toInt_eq_toNat_of_lt (by omega), BitVec.toInt_eq_toNat_of_lt (by omega)⟩
  · exact Or.inl (h.absent k fun s hs his => hex ⟨s, hs, his⟩)

/-- The loader's segment is the one that was copied. -/
theorem Converted.covers {sections : List Scnhdr} (h : Converted host file sections c)
    (hroom : c.fdOut ≤ host.room) {k : Raw} {x : Int} (hx : InSegment (k.get c.noffH).toInts x) :
    0 ≤ x ∧ (k.get c.noffH).Covers x.toNat := by
  obtain ⟨hlo, hhi⟩ := hx
  dsimp only [Segment.toInts] at hlo hhi
  rcases h.small hroom k with hzero | ⟨hstart, hsize⟩
  · rw [hzero, BitVec.toInt_zero] at hhi
    omega
  · rw [hstart] at hlo hhi
    rw [hsize] at hhi
    exact ⟨by omega, by omega, by omega⟩

/-- **The file with its header.** -/
theorem Converted.complete {sections : List Scnhdr} (h : Converted host file sections c)
    (hregular : Regular file sections) (hroom : c.fdOut ≤ host.room) :
    Complete file (writeOver 0 c.out 0 c.noffH.bytes) sections c.noffH.toInts where
  magic := by
    show c.noffH.noffMagic.toInt = _
    rw [h.magic]
    rfl
  delivered := by
    intro k s hs his
    have hplaced := h.placed k s hs his
    have hin := hregular.inside s hs k his
    have hfits := hplaced.fits
    have hlen := h.length
    have hpos : 0 < s.sSize.toNat := by
      refine Nat.pos_of_ne_zero fun hz => his.1 (BitVec.eq_of_toNat_eq hz)
    obtain ⟨hstart, hsize⟩ := (h.small hroom k).resolve_left (by rw [hplaced.size]; exact his.1)
    have hfirst : noffHeaderSize ≤ (k.get c.noffH).inFileAddr.toNat :=
      (h.between k _ ⟨Nat.le_refl _, by rw [hplaced.size]; omega⟩).1
    rw [Raw.of_toInts]
    refine ⟨congrArg BitVec.toInt hplaced.virtualAddr,
      congrArg BitVec.toInt hplaced.size, ?_, ?_, ?_⟩
    · show (noffHeaderSize : Int) ≤ (k.get c.noffH).inFileAddr.toInt
      omega
    · show (k.get c.noffH).inFileAddr.toInt + (k.get c.noffH).size.toInt ≤ _
      rw [length_writeOver]
      omega
    · intro j hj
      change (j : Int) < (k.get c.noffH).size.toInt at hj
      show List.getD _ ((k.get c.noffH).inFileAddr.toInt + j).toNat 0 = _
      rw [hstart, (hin.lseek_eq 0).2, getD_writeOver, length_bytes, if_neg (by omega)]
      exact hplaced.bytes j (by omega)
  absent := by
    intro k hall
    rw [Raw.of_toInts]
    show (k.get c.noffH).size.toInt = 0
    rw [h.absent k hall]
    rfl
  header := by
    intro k x hx
    rw [Raw.of_toInts] at hx
    obtain ⟨hpos, hcovers⟩ := h.covers hroom hx
    have hfirst := (h.between k _ hcovers).1
    omega
  disjoint := by
    intro k k' hne x hx hx'
    rw [Raw.of_toInts] at hx hx'
    exact h.apart k k' hne _ (h.covers hroom hx).2 (h.covers hroom hx').2
  bss := by
    intro s hs his
    obtain ⟨hvirtual, hsize⟩ := h.bss s hs his
    exact ⟨congrArg BitVec.toInt hvirtual, congrArg BitVec.toInt hsize⟩
  noBss := by
    intro hall
    show c.noffH.uninitData.size.toInt = 0
    rw [h.noBss hall]
    rfl

theorem length_sectionsOf (file : List UInt8) : (sectionsOf file).length = numSections file := by
  unfold sectionsOf Scnhdr.table
  rw [List.length_map, List.length_range]

/-- There is room for the header. -/
theorem header_fits (hroom : noffHeaderSize ≤ host.room) :
    Writes host.room true (BitVec.ofNat 32 noffHeaderSize) 0 :=
  Or.inr ⟨by decide, rfl, Or.inr (by show 0 + noffHeaderSize ≤ _; omega)⟩

theorem header_fits_not (hroom : ¬ noffHeaderSize ≤ host.room) :
    ¬ Writes host.room true (BitVec.ofNat 32 noffHeaderSize) 0 := by
  rintro (hneg | ⟨_, _, hzero | hle⟩)
  · exact absurd hneg (by decide)
  · exact absurd hzero (by decide)
  · rw [Nat.zero_add] at hle
    exact hroom hle

/-- **The header is written last**, over what the loop has left. -/
theorem convert_ok {stack : NoffHeader} (h : HasHeaders file)
    (hmemory : numSections file * scnhdrSize ≤ host.memory) (hroom : noffHeaderSize ≤ host.room)
    (hrun : loadSections host file (sectionsOf file)
      (Conv.ready (0 + filehdrSize + aouthdrSize + numSections file * scnhdrSize) stack) =
      .ok () c) :
    convert host file stack = .ok (writeOver 0 c.out 0 c.noffH.bytes) := by
  have hmain : main host file (Conv.start stack) =
      .ok () { c with out := writeOver 0 c.out 0 c.noffH.bytes, fdOut := noffHeaderSize } := by
    rw [main_eq h hmemory stack]
    unfold finish
    rw [bind_eq_of_ok hrun, modify_bind, get_bind]
    exact write_ok (header_fits hroom) (length_bytes _)
  unfold convert
  rw [hmain]

/-- The loader reads the header from the output. -/
theorem decode_out (c : Conv) : Nachos.NoffHeader.decode
    (fun i => (writeOver 0 c.out 0 c.noffH.bytes).getD i 0) = c.noffH.toInts := by
  refine decode_bytes _ fun i hi => ?_
  rw [getD_writeOver, if_pos ⟨Nat.zero_le i, by rw [length_bytes]; omega⟩, Nat.sub_zero]

/-- A section header with small numbers. -/
def scnhdrBytes (name : List UInt8) (paddr size ptr : UInt8) : List UInt8 :=
  name ++ List.replicate (8 - name.length) 0 ++ [paddr, 0, 0, 0, 0, 0, 0, 0, size, 0, 0, 0,
    ptr, 0, 0, 0]
    ++ List.replicate 16 0

/-- `.bss`, `.rdata`, an empty section of another name, and `.text`. -/
def fourSections : List UInt8 :=
  [0x62, 0x01, 4, 0] ++ List.replicate 16 0 ++ [0x07, 0x01] ++ List.replicate 54 0
    ++ scnhdrBytes dotBss 128 16 0 ++ scnhdrBytes dotRdata 64 2 240 ++
    scnhdrBytes [46, 108, 105, 116] 0 0 0 ++ scnhdrBytes dotText 0 4 236 ++ [1, 2, 3, 4, 5, 6]

/-- A host with room enough for it. -/
def smallHost : Host := ⟨4096, 65536, by decide⟩

instance (s : Scnhdr) (name : List UInt8) : Decidable (s.Is name) :=
  inferInstanceAs (Decidable (s.sSize ≠ 0#32 ∧ s.named name = true))

theorem fourSections_regular : Regular fourSections (sectionsOf fourSections) where
  named := by
    have hall : ∀ s ∈ sectionsOf fourSections, s.sSize ≠ 0#32 →
        (s.Is dotText ∨ s.Is dotData ∨ s.Is dotRdata) ∨ s.Is dotBss := by decide +kernel
    intro s hs hsize
    refine (hall s hs hsize).imp_left fun h => ?_
    rcases h with h | h | h
    · exact ⟨.code, h⟩
    · exact ⟨.initData, h⟩
    · exact ⟨.readonlyData, h⟩
  once := by decide +kernel
  inside := by
    have hall : ∀ s ∈ sectionsOf fourSections, s.Is dotText ∨ s.Is dotData ∨ s.Is dotRdata →
        0 ≤ s.sScnptr.toInt ∧ 0 ≤ s.sSize.toInt ∧
          s.sScnptr.toInt + s.sSize.toInt ≤ (fourSections.length : Int) := by decide +kernel
    intro s hs k his
    obtain ⟨hptr, hsize, hle⟩ := hall s hs (by
      cases k with
      | code => exact Or.inl his
      | initData => exact Or.inr (Or.inl his)
      | readonlyData => exact Or.inr (Or.inr his))
    exact ⟨hptr, hsize, hle⟩

end Nachos.Coff2noff
