import Nachos.Base.Program
import Nachos.Filesys.FileSystem

/-!
# What reading and writing files does

A file whose header is sound is read and written without an `ASSERT` failing: reading gives
the bytes in its sectors, writing changes these and no other sector. Headers, the free map and the
directory are read back as they were written.
-/

namespace Nachos.Filesys

open Base (upd upd_self upd_ne blit blit_inside blit_zero blit_outside bind_eq_of_ok wordAt
  wordAt_congr wordAt_packWords wordAt_of_bytes packWords byteOf)

/-! ## Sectors -/

theorem readSector_ok {n : Nat} (h : n < numSectors) (d : Disk) :
    readSector (n : Int) d = .ok (d n) d := by
  have hc : decide (0 ≤ (n : Int) ∧ (n : Int) < numSectors) = true := decide_eq_true (by omega)
  unfold readSector
  rw [hc]
  rfl

theorem writeSector_ok {n : Nat} (h : n < numSectors) (data : Nat → UInt8) (d : Disk) :
    writeSector (n : Int) data d = .ok () (upd d n (blit (d n) 0 sectorSize data)) := by
  have hc : decide (0 ≤ (n : Int) ∧ (n : Int) < numSectors) = true := decide_eq_true (by omega)
  unfold writeSector
  rw [hc]
  rfl

/-- The number of the `i`-th sector of a file. -/
def FileHeader.sec (hdr : FileHeader) (i : Nat) : Nat := (hdr.dataSectors i).toNat

/-- A sector number is a small positive `int`. -/
theorem toInt_sector {w : BitVec 32} (h : w.toNat < numSectors) : w.toInt = w.toNat := by
  have : w.toNat < 1024 := h
  exact BitVec.toInt_eq_toNat_of_lt (by omega)

/-- A file of `len` bytes whose sectors exist and are different. -/
structure FileHeader.Sound (hdr : FileHeader) (len : Nat) : Prop where
  length : hdr.fileLength = len
  le : len ≤ maxFileSize
  valid : ∀ i, i * sectorSize < len → hdr.sec i < Filesys.numSectors
  inj : ∀ i j, i * sectorSize < len → j * sectorSize < len → hdr.sec i = hdr.sec j → i = j

/-- Byte `k` of a file. -/
def FileHeader.byte (hdr : FileHeader) (d : Disk) (k : Nat) : UInt8 :=
  d (hdr.sec (k / sectorSize)) (k % sectorSize)

theorem FileHeader.byte_in (hdr : FileHeader) (d : Disk) (i : Nat) {j : Nat} (hj : j < sectorSize) :
    hdr.byte d (i * sectorSize + j) = d (hdr.sec i) j := by
  have hdiv : (i * sectorSize + j) / sectorSize = i := by
    rw [Nat.mul_comm, Nat.mul_add_div (by decide), Nat.div_eq_of_lt hj, Nat.add_zero]
  have hmod : (i * sectorSize + j) % sectorSize = j := by
    rw [Nat.mul_comm, Nat.mul_add_mod, Nat.mod_eq_of_lt hj]
  rw [FileHeader.byte, hdiv, hmod]

theorem FileHeader.Sound.byteToSector {hdr : FileHeader} {len : Nat} (h : hdr.Sound len) {i : Nat}
    (hi : i * sectorSize < len) (d : Disk) :
    hdr.byteToSector (i * sectorSize) d = .ok (hdr.sec i : Int) d := by
  have hdiv : i * sectorSize / sectorSize = i := Nat.mul_div_cancel _ (by decide)
  have hlt : i < numDirect := by
    have := Nat.lt_of_lt_of_le hi h.le
    exact Nat.lt_of_mul_lt_mul_right this
  unfold FileHeader.byteToSector
  rw [hdiv, if_pos hlt, toInt_sector (h.valid i hi)]
  rfl

/-- **Reading sectors** fills the buffer with them and nothing else. -/
theorem readSectors_ok {hdr : FileHeader} {len : Nat} (h : hdr.Sound len) (d : Disk) :
    ∀ (k i off : Nat) (buf : Nat → UInt8), (∀ j, j < k → (i + j) * sectorSize < len) →
      ∃ buf', OpenFile.readSectors hdr k i off buf d = .ok buf' d
        ∧ (∀ j, j < k * sectorSize → buf' (off + j) = hdr.byte d (i * sectorSize + j))
        ∧ ∀ m, m < off → buf' m = buf m := by
  intro k
  induction k with
  | zero =>
      intro i off buf _
      exact ⟨buf, rfl, fun j hj => absurd hj (by omega), fun _ _ => rfl⟩
  | succ k ih =>
      intro i off buf hk
      have hi : i * sectorSize < len := hk 0 (by omega)
      obtain ⟨buf', hrun, hin, hout⟩ := ih (i + 1) (off + sectorSize)
        (blit buf off sectorSize (d (hdr.sec i)))
        (fun j hj => by have := hk (j + 1) (by omega); rwa [show i + 1 + j = i + (j + 1) by omega])
      refine ⟨buf', ?_, ?_, ?_⟩
      · unfold OpenFile.readSectors
        rw [bind_eq_of_ok (h.byteToSector hi d), bind_eq_of_ok (readSector_ok (h.valid i hi) d)]
        exact hrun
      · intro j hj
        by_cases hfirst : j < sectorSize
        · rw [hout _ (by omega), blit_inside _ _ hfirst, FileHeader.byte_in _ _ _ hfirst]
        · have hrest := hin (j - sectorSize) (by rw [Nat.add_mul] at hj; omega)
          rwa [show off + sectorSize + (j - sectorSize) = off + j by omega,
            show (i + 1) * sectorSize + (j - sectorSize) = i * sectorSize + j by
              rw [Nat.add_mul]; omega] at hrest
      · intro m hm
        rw [hout m (by omega), blit_outside _ _ (.inl hm)]

/-- **Writing sectors** puts the buffer there and leaves the others alone. -/
theorem writeSectors_ok {hdr : FileHeader} {len : Nat} (h : hdr.Sound len) (buf : Nat → UInt8) :
    ∀ (k i off : Nat) (d : Disk), (∀ j, j < k → (i + j) * sectorSize < len) →
      ∃ d', OpenFile.writeSectors hdr k i off buf d = .ok () d'
        ∧ (∀ j, j < k * sectorSize → hdr.byte d' (i * sectorSize + j) = buf (off + j))
        ∧ ∀ n, (∀ j, j < k → n ≠ hdr.sec (i + j)) → d' n = d n := by
  intro k
  induction k with
  | zero =>
      intro i off d _
      exact ⟨d, rfl, fun j hj => absurd hj (by omega), fun _ _ => rfl⟩
  | succ k ih =>
      intro i off d hk
      have hi : i * sectorSize < len := hk 0 (by omega)
      have hnext : ∀ j, j < k → (i + 1 + j) * sectorSize < len := fun j hj => by
        have := hk (j + 1) (by omega)
        rwa [show i + 1 + j = i + (j + 1) by omega]
      obtain ⟨d', hrun, hin, hout⟩ := ih (i + 1) (off + sectorSize)
        (upd d (hdr.sec i) (blit (d (hdr.sec i)) 0 sectorSize (fun j => buf (off + j)))) hnext
      refine ⟨d', ?_, ?_, ?_⟩
      · unfold OpenFile.writeSectors
        rw [bind_eq_of_ok (h.byteToSector hi d), bind_eq_of_ok (writeSector_ok (h.valid i hi) _ d)]
        exact hrun
      · intro j hj
        by_cases hfirst : j < sectorSize
        · -- the later sectors are different ones
          have hkeep : d' (hdr.sec i) = _ := hout (hdr.sec i) fun j hj he => by
            have := h.inj i (i + 1 + j) hi (hnext j hj) he
            omega
          rw [FileHeader.byte_in _ _ _ hfirst, hkeep, upd_self]
          exact blit_zero _ _ hfirst
        · have hrest := hin (j - sectorSize) (by rw [Nat.add_mul] at hj; omega)
          rwa [show off + sectorSize + (j - sectorSize) = off + j by omega,
            show (i + 1) * sectorSize + (j - sectorSize) = i * sectorSize + j by
              rw [Nat.add_mul]; omega] at hrest
      · intro n hn
        rw [hout n fun j hj => by
          rw [show i + 1 + j = i + (j + 1) by omega]
          exact hn (j + 1) (by omega)]
        exact upd_ne _ _ (hn 0 (by omega))

/-! ## Files -/

theorem clip_eq {len n pos : Nat} (h : pos ≤ len) :
    OpenFile.clip len n pos = min n (len - pos) := by
  unfold OpenFile.clip
  split <;> omega

/-- **`ReadAt`** inside a sound file gives the bytes that are there, and changes nothing. -/
theorem readAt_bytes {file : OpenFile} {len : Nat} (h : file.hdr.Sound len) (buf into : Nat → UInt8)
    {n pos : Nat} (hn : 0 < n) (hpos : pos < len) (d : Disk) :
    ∃ into', file.readAt buf into n pos d = .ok (min n (len - pos), into') d
      ∧ (∀ j, j < min n (len - pos) → into' j = file.hdr.byte d (pos + j))
      ∧ ∀ j, min n (len - pos) ≤ j → into' j = into j := by
  have hreq : ¬ (n = 0 ∨ file.hdr.fileLength ≤ pos) := by
    rw [h.length]
    omega
  have hsec : ∀ j, j < 1 + (pos + min n (len - pos) - 1) / sectorSize - pos / sectorSize →
      (pos / sectorSize + j) * sectorSize < len := by
    simp only [sectorSize]
    omega
  obtain ⟨buf', hrun, hin, _⟩ := readSectors_ok h d _ (pos / sectorSize) 0 buf hsec
  refine ⟨blit into 0 (min n (len - pos)) fun j => buf' (pos - pos / sectorSize * sectorSize + j),
    ?_, fun j hj => ?_, fun j hj => blit_outside _ _ (.inr (by omega))⟩
  · unfold OpenFile.readAt
    rw [if_neg hreq, h.length, clip_eq (by omega)]
    exact bind_eq_of_ok hrun
  · rw [blit_zero _ _ hj]
    have := hin (pos - pos / sectorSize * sectorSize + j) (by simp only [sectorSize]; omega)
    rw [Nat.zero_add] at this
    rw [this]
    congr 1
    simp only [sectorSize]
    omega

theorem readAt_ok {file : OpenFile} {len : Nat} (h : file.hdr.Sound len) (buf into : Nat → UInt8)
    {n pos : Nat} (hn : 0 < n) (hpos : pos < len) (d : Disk) :
    ∃ into', file.readAt buf into n pos d = .ok (min n (len - pos), into') d
      ∧ ∀ j, j < min n (len - pos) → into' j = file.hdr.byte d (pos + j) := by
  obtain ⟨into', hrun, hbytes, _⟩ := readAt_bytes h buf into hn hpos d
  exact ⟨into', hrun, hbytes⟩

theorem readPart_ok {file : OpenFile} {len : Nat} (h : file.hdr.Sound len) (buf' buf : Nat → UInt8)
    (off : Nat) {sector : Nat} (hsec : sector * sectorSize < len) (needed : Bool) (d : Disk) :
    ∃ buf₁, file.readPart buf' buf off sector needed d = .ok buf₁ d ∧
      (∀ j, j < off → buf₁ j = buf j) ∧ (needed = false → buf₁ = buf) ∧
      (needed = true → ∀ j, j < sectorSize → sector * sectorSize + j < len →
        buf₁ (off + j) = file.hdr.byte d (sector * sectorSize + j)) := by
  cases needed with
  | false => exact ⟨buf, rfl, fun _ _ => rfl, fun _ => rfl, fun hf => absurd hf (by decide)⟩
  | true =>
      obtain ⟨into', hread, hbytes⟩ := readAt_ok h buf' (fun j => buf (off + j)) (n := sectorSize)
        (by decide) hsec d
      refine ⟨_, bind_eq_of_ok hread, fun j hj => if_pos hj, fun hf => absurd hf (by decide), ?_⟩
      intro _ j hj hlen
      dsimp only
      rw [if_neg (by omega), Nat.add_sub_cancel_left, hbytes j (by omega)]

/-- The buffer of `WriteAt` before the copy: around the request it holds the bytes of the file,
whether these are in one sector or in two. -/
theorem ends_read {hdr : FileHeader} {d : Disk} {len first last pos m t : Nat}
    {buf₁ buf₂ : Nat → UInt8} (hm : 0 < m) (hfirst : first = pos / sectorSize)
    (hlast : last = (pos + m - 1) / sectorSize)
    (hin₁ : pos ≠ first * sectorSize → ∀ j, j < sectorSize → first * sectorSize + j < len →
      buf₁ j = hdr.byte d (first * sectorSize + j))
    (hout₂ : ∀ j, j < (last - first) * sectorSize → buf₂ j = buf₁ j)
    (hsame₂ : first = last → pos ≠ first * sectorSize → buf₂ = buf₁)
    (hin₂ : pos + m ≠ (last + 1) * sectorSize → first ≠ last ∨ pos = first * sectorSize →
      ∀ j, j < sectorSize → last * sectorSize + j < len →
      buf₂ ((last - first) * sectorSize + j) = hdr.byte d (last * sectorSize + j))
    (hk : first * sectorSize + t < len) (ht : t < (1 + last - first) * sectorSize)
    (hout : first * sectorSize + t < pos ∨ pos + m ≤ first * sectorSize + t) :
    buf₂ t = hdr.byte d (first * sectorSize + t) := by
  simp only [sectorSize] at *
  rcases hout with hbefore | hafter
  · have hread := hin₁ (by omega) t (by omega) hk
    by_cases hone : first = last
    · rw [hsame₂ hone (by omega), hread]
    · rw [hout₂ t (by omega), hread]
  · by_cases hneeded : first ≠ last ∨ pos = first * 128
    · have hread := hin₂ (by omega) hneeded (t - (last - first) * 128) (by omega) (by omega)
      rw [show (last - first) * 128 + (t - (last - first) * 128) = t by omega] at hread
      rw [hread]
      congr 1
      omega
    · rw [hsame₂ (by omega) (by omega), hin₁ (by omega) t (by omega) hk]

/-- **`WriteAt`** inside a sound file. The sectors at both ends are read first if they are not
written in full, so that the bytes of the file around the request stay. -/
theorem writeAt_bytes {file : OpenFile} {len : Nat} (h : file.hdr.Sound len)
    (buf buf' buf'' src : Nat → UInt8) {n pos : Nat} (hn : 0 < n) (hpos : pos < len) (d : Disk) :
    ∃ d', file.writeAt buf buf' buf'' src n pos d = .ok (min n (len - pos)) d'
      ∧ (∀ j, j < min n (len - pos) → file.hdr.byte d' (pos + j) = src j)
      ∧ (∀ k, k < len → k < pos ∨ pos + min n (len - pos) ≤ k →
        file.hdr.byte d' k = file.hdr.byte d k)
      ∧ ∀ s, (∀ i, i * sectorSize < len → s ≠ file.hdr.sec i) → d' s = d s := by
  have hreq : ¬ (n = 0 ∨ file.hdr.fileLength ≤ pos) := by
    rw [h.length]
    omega
  obtain ⟨m, hm⟩ : ∃ m, m = min n (len - pos) := ⟨_, rfl⟩
  rw [← hm]
  obtain ⟨first, hfirst⟩ : ∃ first, first = pos / sectorSize := ⟨_, rfl⟩
  obtain ⟨last, hlast⟩ : ∃ last, last = (pos + m - 1) / sectorSize := ⟨_, rfl⟩
  have hsec : ∀ j, j < 1 + last - first → (first + j) * sectorSize < len := by
    subst hfirst hlast
    simp only [sectorSize]
    omega
  have hle : first ≤ last := by
    subst hfirst hlast
    exact Nat.div_le_div_right (by omega)
  have hfirst' : first * sectorSize < len := hsec 0 (by omega)
  have hlast' : last * sectorSize < len := by
    have hend := hsec (last - first) (by omega)
    rwa [Nat.add_sub_cancel' hle] at hend
  obtain ⟨buf₁, hread₁, _, hsame₁, hin₁⟩ := readPart_ok h buf' buf 0 hfirst'
    (!decide (pos = first * sectorSize)) d
  obtain ⟨buf₂, hread₂, hout₂, hsame₂, hin₂⟩ :=
    readPart_ok h buf'' buf₁ ((last - first) * sectorSize)
    hlast' (!decide (pos + m = (last + 1) * sectorSize)
      && (decide (first ≠ last) || decide (pos = first * sectorSize))) d
  obtain ⟨d', hwrite, hin, hout⟩ := writeSectors_ok h
    (blit buf₂ (pos - first * sectorSize) m src) (1 + last - first) first 0 d hsec
  refine ⟨d', ?_, ?_, ?_, ?_⟩
  · unfold OpenFile.writeAt
    rw [if_neg hreq, h.length, clip_eq (by omega), ← hm]
    dsimp only
    rw [← hfirst, ← hlast, bind_eq_of_ok hread₁, bind_eq_of_ok hread₂]
    exact bind_eq_of_ok hwrite
  · intro j hj
    have hb := hin (pos - first * sectorSize + j) (by
      subst hfirst hlast
      simp only [sectorSize]
      omega)
    rw [Nat.zero_add, blit_inside _ _ hj] at hb
    rw [← hb]
    congr 1
    subst hfirst
    simp only [sectorSize]
    omega
  · intro k hk hrange
    by_cases hbetween : first ≤ k / sectorSize ∧ k / sectorSize ≤ last
    · -- in a sector that is written, but not in the part of it that is asked for
      have hstart : first * sectorSize ≤ pos := by
        rw [hfirst]
        exact Nat.div_mul_le_self _ _
      obtain ⟨t, rfl⟩ : ∃ t, k = first * sectorSize + t := ⟨k - first * sectorSize, by
        simp only [sectorSize] at hbetween ⊢
        omega⟩
      have ht : t < (1 + last - first) * sectorSize := by
        simp only [sectorSize] at hbetween ⊢
        omega
      have hb := hin t ht
      rw [Nat.zero_add, blit_outside _ _ (by omega)] at hb
      rw [hb]
      refine ends_read (by omega) hfirst hlast ?_ hout₂ ?_ ?_ hk ht hrange
      · intro hne j hj hlen
        have hread := hin₁ (by simpa using hne) j hj hlen
        rwa [Nat.zero_add] at hread
      · intro hone hne
        exact hsame₂ (by simp [hone, hone ▸ hne])
      · intro hne hneeded
        exact hin₂ (by simpa [hne] using hneeded)
    · have hother : d' (file.hdr.sec (k / sectorSize)) = d (file.hdr.sec (k / sectorSize)) := by
        refine hout _ fun j hj he => hbetween ?_
        have hk' : k / sectorSize * sectorSize < len :=
          Nat.lt_of_le_of_lt (Nat.div_mul_le_self _ _) hk
        have hsame := h.inj _ _ hk' (hsec j hj) he
        omega
      exact congrFun hother _
  · intro s hs
    exact hout s fun j hj => hs _ (hsec j hj)

/-- **`WriteAt`** of a whole file. -/
theorem writeAt_ok {file : OpenFile} {len : Nat} (h : file.hdr.Sound len) (hlen : 0 < len)
    (buf buf' buf'' src : Nat → UInt8) (d : Disk) :
    ∃ d', file.writeAt buf buf' buf'' src len 0 d = .ok len d'
      ∧ (∀ k, k < len → file.hdr.byte d' k = src k)
      ∧ ∀ n, (∀ i, i * sectorSize < len → n ≠ file.hdr.sec i) → d' n = d n := by
  obtain ⟨d', hrun, hbytes, _, hother⟩ := writeAt_bytes h buf buf' buf'' src hlen hlen d
  rw [Nat.sub_zero, Nat.min_self] at hrun hbytes
  refine ⟨d', hrun, fun k hk => ?_, hother⟩
  rw [← hbytes k hk, Nat.zero_add]

/-! ## Headers on the disk -/

/-- The header in sector `n`. -/
def header (d : Disk) (n : Nat) : FileHeader := FileHeader.ofBytes (d n)

theorem fetchFrom_ok {n : Nat} (h : n < numSectors) (d : Disk) :
    FileHeader.fetchFrom (n : Int) d = .ok (header d n) d := bind_eq_of_ok (readSector_ok h d)

/-- A word of a sector that was written from packed words. -/
theorem wordAt_blit (b : Nat → UInt8) (w : Nat → BitVec 32) {n i : Nat} (hi : 4 * i + 4 ≤ n) :
    wordAt (blit b 0 n (packWords w)) (4 * i) = w i := by
  rw [← wordAt_packWords w i]
  exact wordAt_congr fun k hk => blit_zero _ _ (by omega)

/-- **A header is read back as it was written.** -/
theorem header_written (hdr : FileHeader) (b : Nat → UInt8) :
    (FileHeader.ofBytes (blit b 0 sectorSize hdr.bytes)).numBytes = hdr.numBytes
    ∧ (FileHeader.ofBytes (blit b 0 sectorSize hdr.bytes)).numSectors = hdr.numSectors
    ∧ ∀ i, i < numDirect →
        (FileHeader.ofBytes (blit b 0 sectorSize hdr.bytes)).dataSectors i = hdr.dataSectors i := by
  have hword : ∀ i, i < 32 → wordAt (blit b 0 sectorSize hdr.bytes) (4 * i) = hdr.word i :=
    fun i hi => wordAt_blit b hdr.word (by simp only [sectorSize]; omega)
  refine ⟨hword 0 (by omega), hword 1 (by omega), fun i hi => hword (i + 2) ?_⟩
  have : i < 30 := hi
  omega

/-! ## The free map on the disk -/

theorem PersistentBitmap.setBytes_congr (b : Bitmap) {buf buf' : Nat → UInt8}
    (h : ∀ k, k < b.map.length * 4 → buf k = buf' k) : setBytes b buf = setBytes b buf' := by
  have hmap : (List.range b.map.length).map (fun i => wordAt buf (4 * i))
      = (List.range b.map.length).map fun i => wordAt buf' (4 * i) := by
    refine List.map_congr_left fun i hi => ?_
    have hlt := List.mem_range.mp hi
    exact wordAt_congr fun k hk => h _ (by omega)
  simp only [setBytes, hmap]

/-- **A map is read back as it was written.** -/
theorem PersistentBitmap.setBytes_bytes {b c : Bitmap} (hbits : b.numBits = c.numBits) :
    setBytes b (bytes c) = c := by
  have hlen : b.map.length = c.map.length := by rw [b.words, c.words, hbits]
  obtain ⟨numBits, map, pos, words⟩ := c
  unfold setBytes
  congr 1
  refine List.ext_getElem (by simpa using hlen) fun i h1 h2 => ?_
  rw [List.getElem_map, List.getElem_range]
  unfold bytes
  rw [wordAt_packWords, List.getD_eq_getElem?_getD, List.getElem?_eq_getElem h2]
  rfl

/-- The free map that is on the disk. -/
def freeMap (d : Disk) : Bitmap :=
  PersistentBitmap.setBytes (Bitmap.new numSectors numSectors_pos) ((header d 0).byte d)

theorem new_length : (Bitmap.new numSectors numSectors_pos).map.length * 4 = freeMapFileSize := by
  rw [(Bitmap.new numSectors numSectors_pos).words, Bitmap.numBits_new]
  rfl

theorem PersistentBitmap.fetchFrom_ok {file : OpenFile} {b : Bitmap} {d : Disk}
    (h : file.hdr.Sound (b.map.length * 4)) (hpos : 0 < b.map.length * 4) (buf : Nat → UInt8) :
    fetchFrom b file buf d = .ok (setBytes b (file.hdr.byte d)) d := by
  obtain ⟨into', hread, hin⟩ := readAt_ok h buf (bytes b) hpos hpos d
  have hmap : setBytes b into' = setBytes b (file.hdr.byte d) := by
    refine setBytes_congr _ fun k hk => ?_
    rw [hin k (by omega), Nat.zero_add]
  unfold fetchFrom
  rw [bind_eq_of_ok hread, ← hmap]
  rfl

theorem fetchMap_ok {file : OpenFile} {d : Disk} (h : file.hdr.Sound freeMapFileSize)
    (hfile : file.hdr = header d 0) (buf : Nat → UInt8) :
    PersistentBitmap.new file numSectors numSectors_pos buf d = .ok (freeMap d) d := by
  unfold PersistentBitmap.new freeMap
  rw [← hfile]
  exact PersistentBitmap.fetchFrom_ok (new_length ▸ h) (new_length ▸ by decide) buf

/-- Writing a map of the same size: it is on the disk then, and only the sectors of its file have
changed. -/
theorem writeMap_ok {file : OpenFile} {b : Bitmap} (h : file.hdr.Sound freeMapFileSize)
    (hbits : b.numBits = numSectors) (buf buf' buf'' : Nat → UInt8) (d : Disk) :
    ∃ d', PersistentBitmap.writeBack b file buf buf' buf'' d = .ok () d'
      ∧ PersistentBitmap.setBytes (Bitmap.new numSectors numSectors_pos) (file.hdr.byte d') = b
      ∧ ∀ n, (∀ i, i * sectorSize < freeMapFileSize → n ≠ file.hdr.sec i) → d' n = d n := by
  have hlen : b.map.length * 4 = freeMapFileSize := by
    rw [b.words, hbits]
    rfl
  obtain ⟨d', hwrite, hin, hout⟩ := writeAt_ok h (by decide) buf buf' buf''
    (PersistentBitmap.bytes b) d
  refine ⟨d', ?_, ?_, hout⟩
  · unfold PersistentBitmap.writeBack
    rw [hlen, bind_eq_of_ok hwrite]
    rfl
  · rw [PersistentBitmap.setBytes_congr _ fun k hk => hin k (new_length ▸ hk)]
    exact PersistentBitmap.setBytes_bytes (by rw [Bitmap.numBits_new, hbits])

end Nachos.Filesys
