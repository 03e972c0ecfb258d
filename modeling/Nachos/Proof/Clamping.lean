import Nachos.Filesys.Traffic
import Nachos.Proof.FileBytes
import Nachos.Proof.Allocation

/-!
# A request is cut at the end of the file

`ReadAt` and `WriteAt` compare `position + numBytes` with the length of the file. When that sum is
an `int`, the request is cut: no transfer goes past the end of the file and no sector behind it is
asked for. When it is not, the sum is negative, the comparison lets the request pass, and either
all of `numBytes` is transferred or the loop goes on through all sectors there could be.
-/

namespace Nachos.Filesys

open Base (Logged Emits Grows final final_bind bind_eq_of_ok mem_bind mem_note note quiet quiet_ok)

namespace Traffic

/-- What a request to a file of `len` bytes may cause. -/
def Event.Within (len : Int) : Event → Prop
  | .ask offset => 0 ≤ offset ∧ offset < divRoundUpInt len sectorSize * sectorSize
  | .transfer position count => 0 ≤ count ∧ count ≤ max 0 (len - position)

/-- **The request stays within a file of `len` bytes**, whatever is in the file and in the buffers,
and whatever buffers the host has room for. -/
structure KeepsWithin (len numBytes position : Int) : Prop where
  read : ∀ host (file : OpenFile), file.hdr.fileLength = len → ∀ buf into,
    Emits (Event.Within len) (readAt host file buf into numBytes position)
  write : ∀ host (file : OpenFile), file.hdr.fileLength = len → ∀ buf buf' buf'' src,
    Emits (Event.Within len) (writeAt host file buf buf' buf'' src numBytes position)

/-! ## Requests that do not wrap -/

section Within

variable {len : Nat}

theorem byteToSector_within (hdr : FileHeader) {i : Nat} (hlen : len ≤ maxFileSize)
    (hi : i * sectorSize < len) :
    Emits (Event.Within len) (byteToSector hdr (toInt32 ((i : Int) * sectorSize))) := by
  have hsmall : i < 16777216 := by
    have : i * 128 < 3840 := Nat.lt_of_lt_of_le hi hlen
    omega
  have hround := le_divRoundUp_mul len (s := sectorSize) (by decide)
  refine (Emits.note ?_).bind fun _ => Emits.quiet _
  rw [OpenFile.toInt32_sector hsmall]
  unfold Event.Within
  rw [divRoundUpInt_natCast, ← Int.natCast_mul]
  exact ⟨Int.natCast_nonneg _, by omega⟩

theorem readSectors_within (hdr : FileHeader) (first size : Int) (hlen : len ≤ maxFileSize) :
    ∀ (k i : Nat) (buf : Nat → UInt8), (0 < k → (i + k - 1) * sectorSize < len) →
      Emits (Event.Within len) (readSectors hdr first size k i buf) := by
  intro k
  induction k with
  | zero => exact fun _ _ _ => Emits.pure _
  | succ k ih =>
      intro i buf hlast
      have hend := hlast (Nat.succ_pos k)
      simp only [sectorSize] at hend
      refine (byteToSector_within hdr hlen (by simp only [sectorSize]; omega)).bind fun _ => ?_
      refine (Emits.quiet _).bind fun _ => (Emits.quiet _).bind fun _ => ?_
      exact ih (i + 1) _ fun _ => by simp only [sectorSize]; omega

theorem writeSectors_within (hdr : FileHeader) (first size : Int) (hlen : len ≤ maxFileSize) :
    ∀ (k i : Nat) (buf : Nat → UInt8), (0 < k → (i + k - 1) * sectorSize < len) →
      Emits (Event.Within len) (writeSectors hdr first size k i buf) := by
  intro k
  induction k with
  | zero => exact fun _ _ _ => Emits.pure _
  | succ k ih =>
      intro i buf hlast
      have hend := hlast (Nat.succ_pos k)
      simp only [sectorSize] at hend
      refine (byteToSector_within hdr hlen (by simp only [sectorSize]; omega)).bind fun _ => ?_
      refine (Emits.quiet _).bind fun _ => (Emits.quiet _).bind fun _ => ?_
      exact ih (i + 1) _ fun _ => by simp only [sectorSize]; omega

theorem bcopy_within (size off : Int) {p m : Nat} (hm : m ≤ len - p) :
    Emits (Event.Within len) (bcopy size off p m) :=
  (Emits.note ⟨by omega, by omega⟩).bind fun _ => Emits.quiet _

theorem newBuffer_within (host : Nat → Bool) (size : Int) :
    Emits (Event.Within len) (newBuffer host size) :=
  Emits.ite (fun _ => Emits.pure _) fun _ => Emits.throw _

variable {file : OpenFile} (hfile : file.hdr.fileLength = len) (hlen : len ≤ maxFileSize)
  (host : Nat → Bool)
include hfile hlen

/-- A request for nothing, or behind the end, causes nothing. -/
theorem readAt_within (buf into : Nat → UInt8) {k p : Nat} (hsum : p + k < 2147483648) :
    Emits (Event.Within len) (readAt host file buf into k p) := by
  unfold readAt
  rw [hfile]
  refine Emits.ite (fun _ => Emits.pure _) fun hreq => ?_
  rw [OpenFile.span_eq hlen (by omega) (by omega) hsum]
  refine (newBuffer_within host _).bind fun _ => ?_
  refine Emits.bind ?_ fun _ => (bcopy_within _ _ (by omega)).bind fun _ => Emits.pure _
  dsimp only
  rw [OpenFile.Span.turns_eq (Nat.div_le_div_right (by omega))]
  exact readSectors_within _ _ _ hlen _ _ _ fun _ => by simp only [sectorSize]; omega

theorem readPart_within (size : Int) (buf' buf : Nat → UInt8) (off : Int) {sector : Nat}
    (hsec : sector * sectorSize < len) (needed : Bool) :
    Emits (Event.Within len) (readPart host file size buf' buf off sector needed) := by
  have hsmall : sector * 128 < 3840 := Nat.lt_of_lt_of_le hsec hlen
  refine Emits.ite (fun _ => ?_) fun _ => Emits.pure _
  rw [OpenFile.toInt32_sector (by omega)]
  refine (readAt_within hfile hlen host _ _ ?_).bind fun _ => ?_
  · simp only [sectorSize]
    omega
  · exact (Emits.quiet _).bind fun _ => Emits.pure _

theorem writeAt_within (buf buf' buf'' src : Nat → UInt8) {k p : Nat} (hsum : p + k < 2147483648) :
    Emits (Event.Within len) (writeAt host file buf buf' buf'' src k p) := by
  unfold writeAt
  rw [hfile]
  refine Emits.ite (fun _ => Emits.pure _) fun hreq => ?_
  rw [OpenFile.span_eq hlen (by omega) (by omega) hsum]
  refine (newBuffer_within host _).bind fun _ => ?_
  refine (readPart_within hfile hlen host _ _ _ _ ?_ _).bind fun _ => ?_
  · simp only [sectorSize]
    omega
  refine (readPart_within hfile hlen host _ _ _ _ ?_ _).bind fun _ => ?_
  · simp only [sectorSize]
    omega
  refine (bcopy_within _ _ (by omega)).bind fun _ => Emits.bind ?_ fun _ => Emits.pure _
  dsimp only
  rw [OpenFile.Span.turns_eq (Nat.div_le_div_right (by omega))]
  exact writeSectors_within _ _ _ hlen _ _ _ fun _ => by simp only [sectorSize]; omega

end Within

/-! ## Nothing that is noted is lost -/

theorem byteToSector_grows (hdr : FileHeader) (offset : Int) : Grows (byteToSector hdr offset) :=
  (Grows.note _).bind fun _ => Grows.quiet _

theorem readSectors_grows (hdr : FileHeader) (first size : Int) :
    ∀ (k : Nat) (i : Int) (buf : Nat → UInt8), Grows (readSectors hdr first size k i buf) := by
  intro k
  induction k with
  | zero => exact fun _ _ => Grows.pure _
  | succ k ih =>
      intro i buf
      refine (byteToSector_grows hdr _).bind fun _ => (Grows.quiet _).bind fun _ => ?_
      exact (Grows.quiet _).bind fun _ => ih (i + 1) _

theorem bcopy_grows (size off position n : Int) : Grows (bcopy size off position n) :=
  (Grows.note _).bind fun _ => Grows.quiet _

/-! ## Requests that wrap -/

/-- The sum of two `int`s that are not negative, when it is none. -/
theorem toInt32_of_large {x : Int} (hlo : intMax < x) (hhi : x < 4294967296) :
    toInt32 x = x - 4294967296 := by
  unfold intMax at hlo
  unfold toInt32
  rw [Int.bmod_def]
  split <;> omega

theorem tdiv_neg {x : Int} (h : x ≤ -128) : x.tdiv sectorSize < 0 := by
  show x.tdiv 128 < 0
  rw [Int.tdiv_eq_ediv]
  have hsign : Int.sign 128 = 1 := rfl
  split <;> omega

section Wraps

variable {len p : Nat} {numBytes : Int} (hp : p < len) (hlen : len ≤ maxFileSize)
  (hint : numBytes ≤ intMax)
include hp hlen hint

/-- The check against the end of the file does not see it. -/
theorem span_of_wrap (hwrap : intMax < p + numBytes) :
    OpenFile.Span.new len numBytes p = ⟨numBytes, (p / sectorSize : Nat),
      (toInt32 (p + numBytes - 1)).tdiv sectorSize⟩ := by
  have hlen' : len ≤ 3840 := hlen
  have hlarge := toInt32_of_large hwrap (by unfold intMax at hint; omega)
  have hclip : OpenFile.Span.clipped len numBytes p = numBytes := by
    unfold OpenFile.Span.clipped
    rw [hlarge]
    exact if_neg (by unfold intMax at hint; omega)
  unfold OpenFile.Span.new
  rw [hclip, OpenFile.tdiv_natCast]

/-- Behind the largest `int` the last sector is negative: no sector is read. -/
theorem turns_of_wrap (hwrap : intMax + 1 < p + numBytes) :
    (OpenFile.Span.new len numBytes p).turns = 0 := by
  have hlen' : len ≤ 3840 := hlen
  rw [span_of_wrap hp hlen hint (by omega)]
  unfold intMax at hint
  have hlarge := toInt32_of_large (x := p + numBytes - 1) (by omega) (by omega)
  have hlast := tdiv_neg (x := toInt32 (p + numBytes - 1)) (by omega)
  unfold OpenFile.Span.turns
  generalize p / sectorSize = first
  exact Int.toNat_eq_zero.mpr (by dsimp only; omega)

/-- The last byte is the largest `int`, and all sectors there could be are in the loop. -/
theorem span_of_edge (hedge : p + numBytes = intMax + 1) :
    OpenFile.Span.new len numBytes p = ⟨numBytes, (p / sectorSize : Nat), 16777215⟩ := by
  rw [span_of_wrap hp hlen hint (by omega), show p + numBytes - 1 = intMax by omega]
  rfl

end Wraps

theorem lt_of_lt_divRoundUp {n i : Nat} (h : i < divRoundUp n sectorSize) : i * sectorSize < n := by
  change i < n / 128 + (if n % 128 > 0 then 1 else 0) at h
  show i * 128 < n
  split at h <;> omega

theorem byteToSector_ok {hdr : FileHeader} {len : Nat} (h : hdr.Sound len) {i : Nat}
    (hi : i * sectorSize < len) (s : Logged Disk Event) :
    ∃ t, byteToSector hdr (toInt32 ((i : Int) * sectorSize)) s = .ok (hdr.sec i : Int) t := by
  have hbound : i * sectorSize < 3840 := Nat.lt_of_lt_of_le hi h.le
  have hsector : hdr.byteToSectorInt (toInt32 ((i : Int) * sectorSize)) s.state =
      .ok (hdr.sec i : Int) s.state := by
    rw [OpenFile.byteToSectorInt_eq hdr (by simp only [sectorSize] at hbound; omega)]
    exact h.byteToSector hi s.state
  refine ⟨⟨s.state, s.log ++ [.ask (toInt32 ((i : Int) * sectorSize))]⟩, ?_⟩
  have hnote : (note (.ask (toInt32 ((i : Int) * sectorSize))) : TrafficM Unit) s =
      .ok () ⟨s.state, s.log ++ [.ask (toInt32 ((i : Int) * sectorSize))]⟩ := rfl
  refine (bind_eq_of_ok hnote).trans ?_
  exact quiet_ok hsector

/-- The loop from inside the file asks for the sector behind it, if it goes that far. -/
theorem readSectors_asks {hdr : FileHeader} {len : Nat} (h : hdr.Sound len) {first : Nat}
    {size : Int} (hsize : maxFileSize ≤ size) :
    ∀ (k i : Nat) (buf : Nat → UInt8) (s : Logged Disk Event), first ≤ i →
      i ≤ divRoundUp len sectorSize → divRoundUp len sectorSize < i + k →
      Event.ask (divRoundUp len sectorSize * sectorSize : Nat)
        ∈ (final (readSectors hdr first size k i buf s)).log := by
  have hround : divRoundUp len sectorSize ≤ 30 := divRoundUp_le h.le
  intro k
  induction k with
  | zero => exact fun i _ _ _ hi hk => absurd hk (by omega)
  | succ k ih =>
      intro i buf s hfirst hi hk
      unfold readSectors
      by_cases hend : i = divRoundUp len sectorSize
      · -- the sector behind the file
        rw [OpenFile.toInt32_sector (by omega), hend]
        refine mem_bind (mem_bind (mem_note _ _) fun _ => Grows.quiet _) fun _ => ?_
        refine (Grows.quiet _).bind fun _ => (Grows.quiet _).bind fun _ => ?_
        exact readSectors_grows _ _ _ _ _ _
      · -- a sector of the file is read, and the loop goes on
        have hin : i * sectorSize < len := lt_of_lt_divRoundUp (by omega)
        have hroom :
            inside size (toInt32 (((i : Int) - first) * sectorSize)) sectorSize = pure () := by
          have hmax : (3840 : Int) ≤ size := hsize
          rw [OpenFile.toInt32_offset hfirst (by omega)]
          exact if_pos (by simp only [sectorSize]; omega)
        obtain ⟨t, hask⟩ := byteToSector_ok h hin s
        have hread := quiet_ok (s := t) (readSector_ok (h.valid i hin) t.state)
        rw [bind_eq_of_ok hask, bind_eq_of_ok hread, hroom]
        exact ih (i + 1) _ _ (by omega) (by omega) (by omega)

/-! ## The requests that are not cut -/

/-- A host that has room for everything. -/
theorem newBuffer_ok (size : Int) (s : Logged Disk Event) :
    newBuffer (fun _ => true) size s = .ok (toUInt32 size : Int) s := rfl

theorem readSectors_none (hdr : FileHeader) (first size i : Int) (buf : Nat → UInt8) :
    readSectors hdr first size 0 i buf = pure buf := rfl

section Requests

variable {file : OpenFile} {len p : Nat} (h : file.hdr.Sound len) (hp : p < len) {numBytes : Int}
  (hint : numBytes ≤ intMax) (buf into : Nat → UInt8) (s : Logged Disk Event)
include h hp hint

/-- **All of `numBytes` goes to the caller**, from a buffer that no sector was read to. -/
theorem readAt_transfers (hwrap : intMax + 1 < p + numBytes) :
    Event.transfer p numBytes
      ∈ (final (readAt (fun _ => true) file buf into numBytes p s)).log := by
  have hreq : ¬ (numBytes ≤ 0 ∨ (len : Int) ≤ p) := by
    have : len ≤ 3840 := h.le
    unfold intMax at hwrap
    omega
  unfold readAt
  rw [h.length, if_neg hreq, turns_of_wrap hp h.le hint hwrap, span_of_wrap hp h.le hint (by omega),
    bind_eq_of_ok (newBuffer_ok _ s), readSectors_none, pure_bind]
  exact mem_bind (mem_bind (mem_note _ _) fun _ => Grows.quiet _) fun _ => Grows.pure _

/-- **The sector behind the file is asked for.** -/
theorem readAt_asks (hedge : p + numBytes = intMax + 1) :
    Event.ask (divRoundUp len sectorSize * sectorSize : Nat)
      ∈ (final (readAt (fun _ => true) file buf into numBytes p s)).log := by
  have hlen : len ≤ 3840 := h.le
  have hreq : ¬ (numBytes ≤ 0 ∨ (len : Int) ≤ p) := by
    unfold intMax at hedge
    omega
  have hround : divRoundUp len sectorSize ≤ 30 := divRoundUp_le h.le
  have hfirst : p / sectorSize ≤ divRoundUp len sectorSize := by
    show p / 128 ≤ len / 128 + (if len % 128 > 0 then 1 else 0)
    split <;> omega
  unfold readAt
  rw [h.length, if_neg hreq, span_of_edge hp h.le hint hedge]
  obtain ⟨first, hf⟩ : ∃ first, first = p / sectorSize := ⟨_, rfl⟩
  rw [← hf] at hfirst ⊢
  have hturns : OpenFile.Span.turns ⟨numBytes, (first : Int), 16777215⟩ = 16777216 - first := by
    unfold OpenFile.Span.turns
    dsimp only
    omega
  have hsize : (maxFileSize : Int)
      ≤ toUInt32 (OpenFile.Span.size ⟨numBytes, (first : Int), 16777215⟩) := by
    unfold OpenFile.Span.size OpenFile.Span.numSectors
    dsimp only
    rw [toInt32_of_range (x := 1 + 16777215 - first) (by omega) (by unfold intMax; omega),
      toUInt32_toInt32]
    unfold toUInt32
    show (3840 : Int) ≤ (((1 + 16777215 - (first : Int)) * 128 % 4294967296).toNat : Int)
    omega
  rw [hturns, bind_eq_of_ok (newBuffer_ok _ s)]
  refine mem_bind (readSectors_asks h hsize _ _ _ _ (Nat.le_refl _) hfirst (by omega)) fun _ => ?_
  exact (bcopy_grows _ _ _ _).bind fun _ => Grows.pure _

end Requests

/-- A file of `len` bytes, in the sectors from 2 on. -/
def contiguous (len : Nat) : OpenFile :=
  ⟨⟨BitVec.ofNat 32 len, 0#32, fun i => BitVec.ofNat 32 (i + 2)⟩⟩

theorem contiguous_sound {len : Nat} (hlen : len ≤ maxFileSize) :
    (contiguous len).hdr.Sound len := by
  have hlen' : len ≤ 3840 := hlen
  have hsec : ∀ i, i * sectorSize < len → (contiguous len).hdr.sec i = i + 2 := by
    intro i hi
    simp only [sectorSize] at hi
    exact Nat.mod_eq_of_lt (by omega)
  refine ⟨?_, hlen, ?_, ?_⟩
  · show (BitVec.ofNat 32 len).toInt = len
    rw [BitVec.toInt_eq_toNat_of_lt] <;> rw [BitVec.toNat_ofNat] <;> omega
  · intro i hi
    rw [hsec i hi]
    simp only [sectorSize, numSectors] at hi ⊢
    omega
  · intro i j hi hj he
    rw [hsec i hi, hsec j hj] at he
    omega

/-! ## All requests -/

section All

variable {len numBytes position : Int}

/-- Nothing is done for a request that the functions refuse. -/
theorem keepsWithin_of_refused (hreq : numBytes ≤ 0 ∨ len ≤ position) :
    KeepsWithin len numBytes position := by
  constructor
  · intro host file hfile buf into
    unfold readAt
    rw [hfile, if_pos hreq]
    exact Emits.pure _
  · intro host file hfile buf buf' buf'' src
    unfold writeAt
    rw [hfile, if_pos hreq]
    exact Emits.pure _

theorem keepsWithin_of_sum (h0 : 0 ≤ len) (hlen : len ≤ maxFileSize) (hpos : 0 ≤ position)
    (hnum : 0 ≤ numBytes) (hsum : position + numBytes ≤ intMax) :
    KeepsWithin len numBytes position := by
  obtain ⟨l, rfl⟩ := Int.eq_ofNat_of_zero_le h0
  obtain ⟨p, rfl⟩ := Int.eq_ofNat_of_zero_le hpos
  obtain ⟨k, rfl⟩ := Int.eq_ofNat_of_zero_le hnum
  have hl : l ≤ maxFileSize := Int.ofNat_le.mp hlen
  have hk : p + k < 2147483648 := by
    unfold intMax at hsum
    omega
  exact ⟨fun host file hfile buf into => readAt_within hfile hl host buf into hk,
    fun host file hfile buf buf' buf'' src => writeAt_within hfile hl host buf buf' buf'' src hk⟩

/-- **A sum that is no `int`** defeats the check. -/
theorem not_keepsWithin (hlen : len ≤ maxFileSize) (hpos : 0 ≤ position) (hin : position < len)
    (hint : numBytes ≤ intMax) (hwrap : intMax < position + numBytes) :
    ¬ KeepsWithin len numBytes position := by
  intro h
  obtain ⟨l, rfl⟩ : ∃ l : Nat, len = l := ⟨len.toNat, by omega⟩
  obtain ⟨p, rfl⟩ := Int.eq_ofNat_of_zero_le hpos
  have hl : l ≤ maxFileSize := Int.ofNat_le.mp hlen
  have hlen' : l ≤ 3840 := hl
  have hp : p < l := Int.ofNat_lt.mp hin
  have hsound := contiguous_sound hl
  have hread := h.read (fun _ => true) _ hsound.length (fun _ => 0) (fun _ => 0) ⟨fun _ _ => 0, []⟩
  by_cases hedge : (p : Int) + numBytes = intMax + 1
  · rcases hread _ (readAt_asks hsound hp hint _ _ _ hedge) with hmem | hok
    · exact absurd hmem List.not_mem_nil
    · have hlt := hok.2
      rw [divRoundUpInt_natCast, ← Int.natCast_mul] at hlt
      exact absurd hlt (Int.lt_irrefl _)
  · rcases hread _ (readAt_transfers hsound hp hint _ _ _ (by omega)) with hmem | hok
    · exact absurd hmem List.not_mem_nil
    · have hle : numBytes ≤ max 0 ((l : Int) - p) := hok.2
      unfold intMax at hwrap
      omega

/-- **Exactly the requests that end below `2^31` are cut.** A request is within the file if it is
refused or if `position + numBytes` is an `int`, and otherwise it is not. -/
theorem keepsWithin_iff (h0 : 0 ≤ len) (hlen : len ≤ maxFileSize) (hpos : 0 ≤ position)
    (hint : numBytes ≤ intMax) :
    KeepsWithin len numBytes position ↔
      numBytes ≤ 0 ∨ len ≤ position ∨ position + numBytes ≤ intMax := by
  constructor
  · intro h
    by_contra hnot
    exact not_keepsWithin hlen hpos (by omega) hint (by omega) h
  · rintro (hreq | hreq | hsum)
    · exact keepsWithin_of_refused (.inl hreq)
    · exact keepsWithin_of_refused (.inr hreq)
    · by_cases hnum : 0 ≤ numBytes
      · exact keepsWithin_of_sum h0 hlen hpos hnum hsum
      · exact keepsWithin_of_refused (.inl (by omega))

/-- The largest `int`, asked of the first byte of a file of 200. -/
theorem keepsWithin_iff_largest :
    ((0 : Int) ≤ 200 ∧ (200 : Int) ≤ maxFileSize ∧ (0 : Int) ≤ 0 ∧ (2147483647 : Int) ≤ intMax) ∧
    (KeepsWithin 200 2147483647 0 ↔
      (2147483647 : Int) ≤ 0 ∨ (200 : Int) ≤ 0 ∨ (0 : Int) + 2147483647 ≤ intMax) :=
  ⟨by decide, keepsWithin_iff (by decide) (by decide) (by decide) (by decide)⟩

/-- At position 128 of the same file the sum is `2^31`, and the sector behind the file is asked
for. -/
theorem not_keepsWithin_200 : ¬ KeepsWithin 200 2147483520 128 :=
  not_keepsWithin (by decide) (by decide) (by decide) (by decide) (by decide)

end All

end Traffic

end Nachos.Filesys
