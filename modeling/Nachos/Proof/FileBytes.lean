import Nachos.Filesys.Requests
import Nachos.Proof.Disk

/-!
# A file is an array of bytes

For requests that end below `2^31` the sums of `ReadAt` and `WriteAt` do not wrap, and what they do
is what `Filesys.Disk` says of small numbers. Together with what reading and writing sectors
does, this gives the meaning of a file: a request transfers the bytes it asks for, as far as the
file goes, and a write leaves every other byte of the file and of the disk alone. The bytes behind
the end of the file, in its last sector, are nobody's.
-/

namespace Nachos.Filesys

open Base (blit blit_zero blit_outside bind_eq_of_ok)

namespace OpenFile

/-! ## Small numbers -/

theorem tdiv_natCast (a : Nat) : (a : Int).tdiv sectorSize = ((a / sectorSize : Nat) : Int) := rfl

theorem toInt32_natCast {a : Nat} (h : a < 2147483648) : toInt32 (a : Int) = a :=
  toInt32_of_range (by omega) (by unfold intMax; omega)

/-- Where a sector starts in the file. -/
theorem toInt32_sector {i : Nat} (hi : i < 16777216) :
    toInt32 ((i : Int) * sectorSize) = (i * sectorSize : Nat) :=
  toInt32_natCast (by simp only [sectorSize]; omega)

/-- Where a sector starts in the buffer. -/
theorem toInt32_offset {first i : Nat} (hle : first ≤ i) (hi : i < 16777216) :
    toInt32 (((i : Int) - first) * sectorSize) = ((i - first) * sectorSize : Nat) := by
  rw [← Int.natCast_sub hle]
  exact toInt32_sector (by omega)

/-- The numbers of a request that starts in the file and does not wrap. -/
theorem span_eq {len k p : Nat} (hlen : len ≤ maxFileSize) (hk : 0 < k) (hp : p < len)
    (hsum : p + k < 2147483648) : Span.new len k p =
      ⟨(min k (len - p) : Nat), (p / sectorSize : Nat),
        ((p + min k (len - p) - 1) / sectorSize : Nat)⟩ := by
  have hlen' : len ≤ 3840 := hlen
  have hclip : Span.clipped len k p = (min k (len - p) : Nat) := by
    have hs : toInt32 ((p : Int) + k) = (p + k : Nat) := toInt32_natCast hsum
    have hd : toInt32 ((len : Int) - p) = (len - p : Nat) := by
      rw [show (len : Int) - p = (len - p : Nat) by omega]
      exact toInt32_natCast (by omega)
    unfold Span.clipped
    rw [hs, hd]
    split <;> omega
  have hend : toInt32 ((p : Int) + (min k (len - p) : Nat) - 1) =
    (p + min k (len - p) - 1 : Nat) := by
    rw [show (p : Int) + (min k (len - p) : Nat) - 1 = (p + min k (len - p) - 1 : Nat) by omega]
    exact toInt32_natCast (by omega)
  unfold Span.new
  rw [hclip, hend, tdiv_natCast, tdiv_natCast]

theorem byteToSectorInt_eq (hdr : FileHeader) {i : Nat} (hi : i < 16777216) :
    hdr.byteToSectorInt (toInt32 ((i : Int) * sectorSize)) = hdr.byteToSector (i * sectorSize) := by
  unfold FileHeader.byteToSectorInt FileHeader.byteToSector
  rw [toInt32_sector hi, tdiv_natCast]
  by_cases h : i * sectorSize / sectorSize < numDirect
  · rw [if_pos h, if_pos ⟨Int.natCast_nonneg _, Int.ofNat_lt.mpr h⟩, Int.toNat_natCast]
  · rw [if_neg h, if_neg fun hc => h (Int.ofNat_lt.mp hc.2)]

theorem inside_of_le {size off n : Nat} (h : off + n ≤ size) :
    inside (size : Int) off n = pure () :=
  if_pos ⟨by omega, by omega⟩

theorem newBuffer_natCast (size : Nat) : newBuffer (size : Int) = pure () := if_pos (by omega)

/-- The loop over small sector numbers. -/
theorem readSectorsInt_eq (hdr : FileHeader) {first size : Nat} : ∀ (k i : Nat) (buf : Nat → UInt8),
    first ≤ i → i + k < 16777216 → (i - first + k) * sectorSize ≤ size →
    readSectorsInt hdr first size k i buf = readSectors hdr k i ((i - first) * sectorSize) buf := by
  intro k
  induction k with
  | zero => intro i buf _ _ _; rfl
  | succ k ih =>
      intro i buf hle hlt hsize
      have hin : (i - first) * sectorSize + sectorSize ≤ size := by
        simp only [sectorSize] at hsize ⊢
        omega
      unfold readSectorsInt readSectors
      rw [byteToSectorInt_eq hdr (by omega), toInt32_offset hle (by omega), inside_of_le hin]
      refine bind_congr fun sector => bind_congr fun data => ?_
      rw [pure_bind, Int.toNat_natCast]
      have hnext := ih (i + 1) (blit buf ((i - first) * sectorSize) sectorSize data) (by omega)
        (by omega) (by simp only [sectorSize] at hsize ⊢; omega)
      rw [show i + 1 - first = (i - first) + 1 by omega, Nat.succ_mul] at hnext
      exact hnext

theorem writeSectorsInt_eq (hdr : FileHeader) {first size : Nat} (buf : Nat → UInt8) :
    ∀ (k i : Nat), first ≤ i → i + k < 16777216 → (i - first + k) * sectorSize ≤ size →
    writeSectorsInt hdr first size k i buf =
    writeSectors hdr k i ((i - first) * sectorSize) buf := by
  intro k
  induction k with
  | zero => intro i _ _ _; rfl
  | succ k ih =>
      intro i hle hlt hsize
      have hin : (i - first) * sectorSize + sectorSize ≤ size := by
        simp only [sectorSize] at hsize ⊢
        omega
      unfold writeSectorsInt writeSectors
      rw [byteToSectorInt_eq hdr (by omega), toInt32_offset hle (by omega), inside_of_le hin]
      refine bind_congr fun sector => ?_
      rw [pure_bind, Int.toNat_natCast]
      refine bind_congr fun _ => ?_
      have hnext := ih (i + 1) (by omega) (by omega) (by simp only [sectorSize] at hsize ⊢; omega)
      rw [show i + 1 - first = (i - first) + 1 by omega, Nat.succ_mul] at hnext
      exact hnext

namespace Span

variable {m first last : Nat}

theorem numSectors_eq (hle : first ≤ last) (hlast : last < 16777215) :
    numSectors ⟨m, first, last⟩ = (1 + last - first : Nat) := by
  unfold numSectors
  rw [show (1 + (last : Int) - first) = (1 + last - first : Nat) by omega]
  exact toInt32_natCast (by omega)

theorem size_eq (hle : first ≤ last) (hlast : last < 16777215) :
    size ⟨m, first, last⟩ = ((1 + last - first) * sectorSize : Nat) := by
  unfold size
  rw [numSectors_eq hle hlast, show ((1 + last - first : Nat) : Int) * sectorSize =
    ((1 + last - first) * sectorSize : Nat) by simp only [sectorSize]; omega]
  exact toInt32_natCast (by simp only [sectorSize]; omega)

theorem turns_eq (hle : first ≤ last) : turns ⟨m, first, last⟩ = 1 + last - first := by
  unfold turns
  dsimp only
  omega

theorem start_eq {p : Nat} (hp : p < 2147483648) (hstart : first * sectorSize ≤ p) :
    start ⟨m, first, last⟩ p = (p - first * sectorSize : Nat) := by
  unfold start
  rw [show (p : Int) - first * sectorSize = (p - first * sectorSize : Nat) by
    simp only [sectorSize] at hstart ⊢; omega]
  exact toInt32_natCast (by omega)

end Span

section Small

variable {file : OpenFile} {len : Nat} (hlen : file.hdr.fileLength = len) (hle : len ≤ maxFileSize)
  {k p : Nat} (hk : 0 < k) (hp : p < len) (hsum : p + k < 2147483648)
include hlen hle hk hp hsum

/-- **`ReadAt` of a request that does not wrap.** -/
theorem readAtInt_eq (buf into : Nat → UInt8) :
    file.readAtInt buf into k p = (do
      let r ← file.readAt buf into k p
      return ((r.1 : Int), r.2)) := by
  have hlen' : len ≤ 3840 := hle
  have hreq : ¬ ((k : Int) ≤ 0 ∨ (len : Int) ≤ p) := by omega
  have hreq' : ¬ (k = 0 ∨ (len : Int) ≤ p) := by omega
  unfold readAtInt readAt
  rw [hlen, if_neg hreq, if_neg hreq', span_eq hle hk hp hsum, clip_eq (Nat.le_of_lt hp)]
  dsimp only
  obtain ⟨m, hm⟩ : ∃ m, m = min k (len - p) := ⟨_, rfl⟩
  obtain ⟨first, hfirst⟩ : ∃ first, first = p / sectorSize := ⟨_, rfl⟩
  obtain ⟨last, hlast⟩ : ∃ last, last = (p + m - 1) / sectorSize := ⟨_, rfl⟩
  rw [← hm, ← hfirst, ← hlast]
  have hfl : first ≤ last ∧ last < 16777215 ∧ first * sectorSize ≤ p ∧
      p - first * sectorSize + m ≤ (1 + last - first) * sectorSize := by
    subst hfirst hlast
    simp only [sectorSize]
    omega
  obtain ⟨hfl, hbig, hstart, hroom⟩ := hfl
  rw [Span.size_eq hfl hbig, Span.turns_eq hfl, Span.start_eq (by omega) hstart,
    newBuffer_natCast, pure_bind, readSectorsInt_eq _ _ _ _ (Nat.le_refl _) (by omega)
      (by rw [Nat.sub_self, Nat.zero_add]), Nat.sub_self, Nat.zero_mul, bind_assoc]
  refine bind_congr fun buf' => ?_
  rw [inside_of_le hroom, pure_bind, pure_bind, Int.toNat_natCast, Int.toNat_natCast]

end Small

/-- A read for `WriteAt`. It delivers at most a sector, so it fits. -/
theorem readPartInt_eq {file : OpenFile} {len size off sector : Nat} (h : file.hdr.Sound len)
    (buf' buf : Nat → UInt8) (needed : Bool) (hsec : sector * sectorSize < len)
    (hoff : off + sectorSize ≤ size) (d : Disk) :
    file.readPartInt size buf' buf off sector needed d =
      file.readPart buf' buf off sector needed d := by
  have hlen : len ≤ 3840 := h.le
  have hpos : toInt32 ((sector : Int) * sectorSize) = (sector * sectorSize : Nat) :=
    toInt32_sector (by simp only [sectorSize] at hsec; omega)
  unfold readPartInt readPart
  cases needed with
  | false => rw [if_neg (by decide), if_neg (by decide)]
  | true =>
      obtain ⟨into', hread, _⟩ := readAt_ok h buf' (fun j => buf (off + j)) (n := sectorSize)
        (by decide) hsec d
      have hint := readAtInt_eq h.length h.le (k := sectorSize) (by decide) hsec (by
        simp only [sectorSize] at hsec ⊢
        omega) buf' fun j => buf (off + j)
      have hfits : off + min sectorSize (len - sector * sectorSize) ≤ size := by omega
      rw [if_pos rfl, if_pos rfl, hpos, Int.toNat_natCast, hint, bind_assoc, bind_eq_of_ok hread,
        bind_eq_of_ok hread, pure_bind, inside_of_le hfits, pure_bind]

/-- **`WriteAt` of a request that does not wrap.** -/
theorem writeAtInt_eq {file : OpenFile} {len k p : Nat} (h : file.hdr.Sound len) (hk : 0 < k)
    (hp : p < len) (hsum : p + k < 2147483648) (buf buf' buf'' src : Nat → UInt8) (d : Disk) :
    file.writeAtInt buf buf' buf'' src k p d = (do
      let n ← file.writeAt buf buf' buf'' src k p
      return (n : Int)) d := by
  have hlen : len ≤ 3840 := h.le
  have hreq : ¬ ((k : Int) ≤ 0 ∨ (len : Int) ≤ p) := by omega
  have hreq' : ¬ (k = 0 ∨ (len : Int) ≤ p) := by omega
  unfold writeAtInt writeAt
  rw [h.length, if_neg hreq, if_neg hreq', span_eq h.le hk hp hsum, clip_eq (Nat.le_of_lt hp)]
  dsimp only
  obtain ⟨m, hm⟩ : ∃ m, m = min k (len - p) := ⟨_, rfl⟩
  obtain ⟨first, hfirst⟩ : ∃ first, first = p / sectorSize := ⟨_, rfl⟩
  obtain ⟨last, hlast⟩ : ∃ last, last = (p + m - 1) / sectorSize := ⟨_, rfl⟩
  rw [← hm, ← hfirst, ← hlast]
  have hfl : first ≤ last ∧ last < 16777215 ∧ first * sectorSize ≤ p ∧
      p - first * sectorSize + m ≤ (1 + last - first) * sectorSize ∧
      first * sectorSize < len ∧ last * sectorSize < len ∧
      sectorSize ≤ (1 + last - first) * sectorSize ∧
      (last - first) * sectorSize + sectorSize ≤ (1 + last - first) * sectorSize := by
    subst hfirst hlast
    simp only [sectorSize]
    omega
  obtain ⟨hfl, hbig, hstart, hroom, hsec, hsec', hone, hend⟩ := hfl
  -- the comparisons are the same on small numbers
  have hfirstAligned : decide ((p : Int) = toInt32 ((first : Int) * sectorSize)) =
      decide (p = first * sectorSize) := by
    rw [toInt32_sector (by omega), decide_eq_decide]
    omega
  have hlastAligned : decide (toInt32 ((p : Int) + m) = toInt32 (((last : Int) + 1) * sectorSize)) =
      decide (p + m = (last + 1) * sectorSize) := by
    rw [show (p : Int) + m = (p + m : Nat) by omega, toInt32_natCast (by omega),
      show (last : Int) + 1 = (last + 1 : Nat) from rfl, toInt32_sector (by omega),
      decide_eq_decide]
    omega
  have hdiffer : decide ((first : Int) ≠ last) = decide (first ≠ last) := by
    rw [decide_eq_decide]
    omega
  have hoff : toInt32 (((last : Int) - first) * sectorSize) = ((last - first) * sectorSize : Nat) :=
    toInt32_offset hfl (by omega)
  rw [hfirstAligned, hlastAligned, hdiffer, hoff, Span.size_eq hfl hbig, Span.turns_eq hfl,
    Span.start_eq (by omega) hstart, newBuffer_natCast, pure_bind, inside_of_le hroom]
  obtain ⟨buf₁, hread₁, _⟩ := readPart_ok h buf' buf 0 hsec (!decide (p = first * sectorSize)) d
  obtain ⟨buf₂, hread₂, _⟩ := readPart_ok h buf'' buf₁ ((last - first) * sectorSize) hsec'
    (!decide (p + m = (last + 1) * sectorSize)
      && (decide (first ≠ last) || decide (p = first * sectorSize))) d
  have hint₁ : file.readPartInt ((1 + last - first) * sectorSize : Nat) buf' buf 0 first
      (!decide (p = first * sectorSize)) d = .ok buf₁ d :=
    (readPartInt_eq h buf' buf _ hsec (show 0 + sectorSize ≤ _ by rw [Nat.zero_add]; exact hone)
      d).trans hread₁
  have hint₂ := (readPartInt_eq h buf'' buf₁ _ hsec' hend d).trans hread₂
  rw [bind_eq_of_ok hint₁, bind_eq_of_ok hint₂, bind_assoc, bind_eq_of_ok hread₁, bind_assoc,
    bind_eq_of_ok hread₂, pure_bind, Int.toNat_natCast, Int.toNat_natCast,
    writeSectorsInt_eq _ _ _ _ (Nat.le_refl _) (by omega) (by rw [Nat.sub_self, Nat.zero_add]),
    Nat.sub_self, Nat.zero_mul, bind_assoc]
  rfl

end OpenFile

/-! ## The array -/

/-- The number of bytes that a request transfers. -/
def transferred (len numBytes position : Int) : Int :=
  if numBytes ≤ 0 ∨ len ≤ position then 0 else min numBytes (len - position)

/-- **What a write does to a file of `len` bytes.** -/
structure BytesWritten (hdr : FileHeader) (len : Nat) (src : Nat → UInt8) (position m : Int)
    (d d' : Disk) : Prop where
  bytes : ∀ j : Nat, (j : Int) < m → hdr.byte d' (position.toNat + j) = src j
  rest : ∀ k : Nat, k < len → (k : Int) < position ∨ position + m ≤ k → hdr.byte d' k = hdr.byte d k
  sectors : ∀ s, (∀ i, i * sectorSize < len → s ≠ hdr.sec i) → d' s = d s

/-- **What a read does to the caller's buffer.** -/
structure BytesRead (hdr : FileHeader) (d : Disk) (position m : Int) (into into' : Nat → UInt8) :
    Prop where
  bytes : ∀ j : Nat, (j : Int) < m → into' j = hdr.byte d (position.toNat + j)
  rest : ∀ j : Nat, m ≤ j → into' j = into j

/-- **A file is an array of bytes.** A request at any position that is not negative, and that ends
below `2^31`, transfers the bytes it asks for as far as the file goes, and returns their number.
A write leaves every other byte of the file and every other sector as it was; a read leaves the
disk. -/
theorem file_bytes (file : OpenFile) (len : Nat) (h : file.hdr.Sound len) (numBytes position : Int)
    (hpos : 0 ≤ position) (hsum : position + numBytes < 2147483648) (d : Disk) :
    (∀ buf buf' buf'' src, ∃ d',
      file.writeAtInt buf buf' buf'' src numBytes position d =
        .ok (transferred len numBytes position) d' ∧
      BytesWritten file.hdr len src position (transferred len numBytes position) d d') ∧
    ∀ buf into, ∃ into',
      file.readAtInt buf into numBytes position d =
        .ok (transferred len numBytes position, into') d ∧
      BytesRead file.hdr d position (transferred len numBytes position) into into' := by
  unfold transferred
  by_cases hreq : numBytes ≤ 0 ∨ (len : Int) ≤ position
  · rw [if_pos hreq]
    constructor
    · intro buf buf' buf'' src
      refine ⟨d, ?_, ⟨fun j hj => absurd hj (by omega), fun _ _ _ => rfl, fun _ _ => rfl⟩⟩
      unfold OpenFile.writeAtInt
      rw [h.length, if_pos hreq]
      rfl
    · intro buf into
      refine ⟨into, ?_, ⟨fun j hj => absurd hj (by omega), fun _ _ => rfl⟩⟩
      unfold OpenFile.readAtInt
      rw [h.length, if_pos hreq]
      rfl
  · obtain ⟨k, rfl⟩ : ∃ k : Nat, numBytes = k := ⟨numBytes.toNat, by omega⟩
    obtain ⟨p, rfl⟩ : ∃ p : Nat, position = p := ⟨position.toNat, by omega⟩
    have hk : 0 < k := by omega
    have hp : p < len := by omega
    rw [if_neg hreq, show min (k : Int) (len - p) = (min k (len - p) : Nat) by omega]
    constructor
    · intro buf buf' buf'' src
      obtain ⟨d', hrun, hbytes, hrest, hsec⟩ := writeAt_bytes h buf buf' buf'' src hk hp d
      refine ⟨d', ?_, ⟨fun j hj => ?_, fun i hi hout => hrest i hi (by omega), hsec⟩⟩
      · rw [OpenFile.writeAtInt_eq h hk hp (by omega), bind_eq_of_ok hrun]
        rfl
      · rw [Int.toNat_natCast]
        exact hbytes j (by omega)
    · intro buf into
      obtain ⟨into', hrun, hbytes, hrest⟩ := readAt_bytes h buf into hk hp d
      refine ⟨into', ?_, ⟨fun j hj => ?_, fun j hj => hrest j (by omega)⟩⟩
      · rw [OpenFile.readAtInt_eq h.length h.le hk hp (by omega), bind_eq_of_ok hrun]
        rfl
      · rw [Int.toNat_natCast]
        exact hbytes j (by omega)

/-- A file of 200 bytes, in the sectors 5 and 7. -/
def twoSectors : OpenFile := ⟨⟨200#32, 2#32, fun i => if i = 0 then 5#32 else 7#32⟩⟩

theorem twoSectors_sound : twoSectors.hdr.Sound 200 := by
  have hlow : ∀ i, i * sectorSize < 200 → i = 0 ∨ i = 1 := by
    intro i hi
    simp only [sectorSize] at hi
    omega
  refine ⟨rfl, by decide, ?_, ?_⟩
  · intro i hi
    rcases hlow i hi with rfl | rfl <;> decide
  · intro i j hi hj he
    rcases hlow i hi with rfl | rfl
    · rcases hlow j hj with rfl | rfl
      · rfl
      · exact absurd he (by decide)
    · rcases hlow j hj with rfl | rfl
      · exact absurd he (by decide)
      · rfl

/-- A disk with nothing on it. -/
def blankDisk : Disk := fun _ _ => 0

/-- Ten bytes across the boundary are written, and of a hundred at position 150 fifty are read. -/
theorem twoSectors_bytes :
    (∃ d', twoSectors.writeAtInt (fun _ => 1) (fun _ => 2) (fun _ => 3)
        UInt8.ofNat 10 125 blankDisk =
        .ok 10 d' ∧
      BytesWritten twoSectors.hdr 200 UInt8.ofNat 125 10 blankDisk d') ∧
    ∃ into', twoSectors.readAtInt (fun _ => 1) (fun _ => 2) 100 150 blankDisk =
        .ok (50, into') blankDisk ∧
      BytesRead twoSectors.hdr blankDisk 150 50 (fun _ => 2) into' :=
  ⟨(file_bytes twoSectors 200 twoSectors_sound 10 125 (by decide) (by decide) blankDisk).1 _ _ _ _,
    (file_bytes twoSectors 200 twoSectors_sound 100 150 (by decide) (by decide) blankDisk).2 _ _⟩

end Nachos.Filesys
