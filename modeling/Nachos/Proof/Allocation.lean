import Nachos.Base.Owned
import Nachos.Proof.Directory

/-!
# Who has which sector

The sectors that are marked in the free map belong to the parts of the file system: the headers
and the data of the two files it keeps for itself, and those of the files in the directory.
`Create` gives free sectors to the parts of a new file and `Remove` takes them back, both
first in the copy of the map that they work on. When the copies are on the disk, what
the disk says is what was given and taken.
-/

namespace Nachos.Filesys

open Base (upd upd_self upd_ne upd_apply Owned bind_eq_of_ok blit)

/-! ## The parts of the file system -/

/-- What takes up a sector. -/
inductive Part where
  | mapHeader
  | dirHeader
  | mapData (j : Nat)
  | dirData (j : Nat)
  /-- The header of the file in entry `i`. -/
  | header (i : Nat)
  /-- Its `j`-th data sector. -/
  | data (i j : Nat)
  deriving DecidableEq

/-- The number of data sectors, as the loops over them count. -/
def FileHeader.count (hdr : FileHeader) : Nat := hdr.numSectors.toInt.toNat

/-- The `j`-th sector listed in a header. -/
def FileHeader.listed (hdr : FileHeader) (j : Nat) : Option Nat :=
  if j < hdr.count then some (hdr.sec j) else none

/-- The sector of each part, as the disk says. -/
def held (d : Disk) : Part → Option Nat
  | .mapHeader => some freeMapSector.toNat
  | .dirHeader => some directorySector.toNat
  | .mapData j => (header d freeMapSector.toNat).listed j
  | .dirData j => (header d directorySector.toNat).listed j
  | .header i =>
      if i < numDirEntries ∧ (entryAt d i).inUse = true then some (entryAt d i).sector.toNat
      else none
  | .data i j =>
      if i < numDirEntries ∧ (entryAt d i).inUse = true then
        (header d (entryAt d i).sector.toNat).listed j
      else none

/-- The name of a file in the directory. -/
def DirectoryEntry.fileName (e : DirectoryEntry) : List UInt8 := cstr e.name fileNameMaxLen

/-- The marked sectors are those of the parts, no two parts have the same one, and no two files
have the same name. -/
structure Consistent (d : Disk) : Prop where
  marked : Owned (freeMap d).test (held d)
  names : ∀ i j, i < numDirEntries → j < numDirEntries → (entryAt d i).inUse = true →
    (entryAt d j).inUse = true → (entryAt d i).fileName = (entryAt d j).fileName → i = j

/-! ## Giving and taking -/

theorem test_lt {b : Bitmap} {n : Nat} (hbits : b.numBits = numSectors) (h : b.test n = true) :
    n < numSectors := by
  by_contra hge
  have hlen : b.map.length = 32 := by rw [b.words, hbits]; rfl
  have hword : b.map.length ≤ n / bitsInWord := by
    rw [hlen]
    simp only [numSectors, bitsInWord] at *
    omega
  rw [Bitmap.test_eq, List.getD_eq_getElem?_getD, List.getElem?_eq_none hword] at h
  simp at h

theorem mark_test {b : Bitmap} {i : Nat} (h : i < b.numBits) :
    (b.mark i).test = upd b.test i true := by
  funext n
  rw [Bitmap.test_mark h, upd_apply]
  by_cases hn : n = i <;> simp [hn]

theorem clear_test {b : Bitmap} {i : Nat} (h : i < b.numBits) :
    (b.clear i).test = upd b.test i false := by
  funext n
  rw [Bitmap.test_clear h, upd_apply]
  by_cases hn : n = i <;> simp [hn]

theorem sec_ofInt {n : Nat} (h : n < numSectors) : (BitVec.ofInt 32 (n : Int)).toNat = n := by
  rw [BitVec.ofInt_natCast, BitVec.toNat_ofNat]
  have : n < 1024 := h
  omega

theorem divRoundUpInt_natCast (n s : Nat) : divRoundUpInt n s = (divRoundUp n s : Nat) := by
  unfold divRoundUpInt divRoundUp
  rw [← Int.ofNat_tdiv, ← Int.ofNat_tmod]
  split <;> split <;> omega

theorem toInt_ofInt_small {n : Nat} (h : n < 2147483648) :
    (BitVec.ofInt 32 (n : Int)).toInt = n := by
  rw [BitVec.toInt_ofInt]
  exact Int.bmod_eq_of_le_mul_two (by omega) (by omega)

/-- What a header can list is enough for the largest file. -/
theorem divRoundUp_le {size : Nat} (h : size ≤ maxFileSize) :
    divRoundUp size sectorSize ≤ numDirect := by
  have hle : size ≤ 3840 := h
  show size / 128 + (if size % 128 > 0 then 1 else 0) ≤ 30
  split <;> omega

section Loops

variable {part : Nat → Part} (hpart : ∀ i j, part i = part j → i = j)
include hpart

/-- **The loop of `Allocate`** gives a clear sector to each part it is for. -/
theorem allocateFrom_ok (d : Disk) : ∀ (k i : Nat) (hdr : FileHeader) (b : Bitmap)
    (f : Part → Option Nat), Owned b.test f → b.numBits = numSectors → k ≤ b.clearBits.length →
      i + k ≤ numDirect → (∀ j, i ≤ j → f (part j) = none) →
      ∃ hdr' b' f', FileHeader.allocateFrom k i hdr b d = .ok (hdr', b') d
        ∧ b'.numBits = numSectors ∧ b'.clearBits = b.clearBits.drop k
        ∧ hdr'.numBytes = hdr.numBytes ∧ hdr'.numSectors = hdr.numSectors
        ∧ (∀ j, j < i → hdr'.dataSectors j = hdr.dataSectors j)
        ∧ Owned b'.test f'
        ∧ (∀ j, i ≤ j → j < i + k → f' (part j) = some (hdr'.sec j))
        ∧ ∀ x, (∀ j, i ≤ j → j < i + k → x ≠ part j) → f' x = f x := by
  intro k
  induction k with
  | zero =>
      intro i hdr b f ho hbits _ _ _
      exact ⟨hdr, b, f, rfl, hbits, rfl, rfl, rfl, fun _ _ => rfl, ho,
        fun j h1 h2 => absurd h2 (by omega), fun _ _ => rfl⟩
  | succ k ih =>
      intro i hdr b f ho hbits hk hi hf
      cases hclear : b.clearBits with
      | nil => rw [hclear] at hk; exact absurd hk (by simp)
      | cons id rest =>
          obtain ⟨hlt, hfree⟩ :=
            Bitmap.mem_clearBits.mp (hclear ▸ List.mem_cons_self : id ∈ b.clearBits)
          have hset : b.findAndSet = ((id : Int), b.mark id) := by rw [Bitmap.findAndSet_eq, hclear]
          have hrest : (b.mark id).clearBits = rest := Bitmap.clearBits_mark_head hclear
          have hgive : Owned (b.mark id).test (upd f (part i) (some id)) := by
            rw [mark_test hlt]
            exact ho.give hfree (hf i (Nat.le_refl _))
          obtain ⟨hdr', b', f', hrun, hbits', hclear', hnb, hns, hkeep, ho', hin, hout⟩ :=
            ih (i + 1)
              { hdr with dataSectors := upd hdr.dataSectors i (BitVec.ofInt 32 (id : Int)) }
              (b.mark id) (upd f (part i) (some id)) hgive hbits
              (by rw [hrest]; rw [hclear] at hk; simpa using hk) (by omega) (fun j hj => by
                rw [upd_ne _ _ fun he => by have := hpart _ _ he; omega]
                exact hf j (by omega))
          refine ⟨hdr', b', f', ?_, hbits', ?_, hnb, hns, ?_, ho', ?_, ?_⟩
          · unfold FileHeader.allocateFrom
            rw [if_pos (by omega), hset]
            exact hrun
          · rw [hclear', hrest, List.drop_succ_cons]
          · intro j hj
            rw [hkeep j (by omega)]
            exact upd_ne _ _ (by omega)
          · intro j h1 h2
            by_cases hji : j = i
            · subst hji
              rw [hout (part j) fun m h1 _ he => by have := hpart _ _ he; omega, upd_self,
                FileHeader.sec, hkeep j (by omega)]
              simp only [upd_self]
              rw [sec_ofInt (hbits ▸ hlt)]
            · exact hin j (by omega) (by omega)
          · intro x hx
            rw [hout x fun j h1 h2 => hx j (by omega) (by omega)]
            exact upd_ne _ _ (hx i (Nat.le_refl _) (by omega))

/-- **The loop of `Deallocate`** takes back the sectors that are listed. -/
theorem deallocateFrom_ok (hdr : FileHeader) (d : Disk) : ∀ (k i : Nat) (b : Bitmap)
    (f : Part → Option Nat), Owned b.test f → b.numBits = numSectors → i + k ≤ numDirect →
      (∀ j, i ≤ j → j < i + k → f (part j) = some (hdr.sec j)) →
      ∃ b' f', FileHeader.deallocateFrom hdr k i b d = .ok b' d ∧ b'.numBits = numSectors
        ∧ Owned b'.test f' ∧ (∀ j, i ≤ j → j < i + k → f' (part j) = none)
        ∧ ∀ x, (∀ j, i ≤ j → j < i + k → x ≠ part j) → f' x = f x := by
  intro k
  induction k with
  | zero =>
      intro i b f ho hbits _ _
      exact ⟨b, f, rfl, hbits, ho, fun j h1 h2 => absurd h2 (by omega), fun _ _ => rfl⟩
  | succ k ih =>
      intro i b f ho hbits hi hf
      have hhas := hf i (Nat.le_refl _) (by omega)
      have hmarked : b.test (hdr.sec i) = true := (ho.use_iff _).mpr ⟨_, hhas⟩
      have hlt : hdr.sec i < numSectors := test_lt hbits hmarked
      have hint : (hdr.dataSectors i).toInt = (hdr.sec i : Int) := toInt_sector hlt
      have htake : Owned (b.clear (hdr.sec i)).test (upd f (part i) none) := by
        rw [clear_test (by omega)]
        exact ho.take hhas
      obtain ⟨b', f', hrun, hbits', ho', hin, hout⟩ := ih (i + 1)
        (b.clear (hdr.sec i)) (upd f (part i) none) htake hbits (by omega)
        (fun j h1 h2 => by
          rw [upd_ne _ _ fun he => by have := hpart _ _ he; omega]
          exact hf j (by omega) (by omega))
      refine ⟨b', f', ?_, hbits', ho', ?_, ?_⟩
      · unfold FileHeader.deallocateFrom
        have hc : (decide (0 ≤ (hdr.sec i : Int) ∧ (hdr.sec i : Int) < b.numBits)
            && b.test (hdr.sec i : Int).toNat) = true := by
          rw [Int.toNat_natCast, hmarked, Bool.and_true]
          exact decide_eq_true (by omega)
        rw [if_pos (by omega), hint, hc]
        exact hrun
      · intro j h1 h2
        by_cases hji : j = i
        · subst hji
          rw [hout (part j) fun m h1 _ he => by have := hpart _ _ he; omega, upd_self]
        · exact hin j (by omega) (by omega)
      · intro x hx
        rw [hout x fun j h1 h2 => hx j (by omega) (by omega)]
        exact upd_ne _ _ (hx i (Nat.le_refl _) (by omega))

/-- **`Allocate`** gives as many sectors as the size needs, or there are too few. -/
theorem allocate_cases (hdr : FileHeader) {b : Bitmap} {f : Part → Option Nat} (ho : Owned b.test f)
    (hbits : b.numBits = numSectors) (hf : ∀ j, f (part j) = none) {size : Nat}
    (hsize : size ≤ maxFileSize) (d : Disk) :
    (b.clearBits.length < divRoundUp size sectorSize
      ∧ ∃ hdr', hdr.allocate b (size : Int) d = .ok (false, hdr', b) d)
    ∨ ∃ hdr' b' f', hdr.allocate b (size : Int) d = .ok (true, hdr', b') d
        ∧ b'.numBits = numSectors
        ∧ b'.clearBits = b.clearBits.drop (divRoundUp size sectorSize)
        ∧ hdr'.fileLength = size ∧ hdr'.count = divRoundUp size sectorSize
        ∧ Owned b'.test f' ∧ (∀ j, f' (part j) = hdr'.listed j)
        ∧ ∀ x, (∀ j, x ≠ part j) → f' x = f x := by
  have hcount := divRoundUp_le hsize
  have hsec : (BitVec.ofInt 32 (divRoundUpInt size sectorSize)).toInt
      = (divRoundUp size sectorSize : Nat) := by
    rw [divRoundUpInt_natCast, toInt_ofInt_small]
    have : numDirect = 30 := rfl
    omega
  have hlen : (BitVec.ofInt 32 (size : Int)).toInt = size := toInt_ofInt_small (by
    have hle : size ≤ 3840 := hsize
    omega)
  unfold FileHeader.allocate
  dsimp only
  rw [hsec, Bitmap.numClear_eq]
  split
  · exact .inl ⟨by omega, _, rfl⟩
  · obtain ⟨hdr', b', f', hrun, hbits', hclear', hnb, hns, _, ho', hin, hout⟩ :=
      allocateFrom_ok hpart d (divRoundUp size sectorSize) 0
        { hdr with
          numBytes := BitVec.ofInt 32 size
          numSectors := BitVec.ofInt 32 (divRoundUpInt size sectorSize) } b f ho hbits (by omega)
        (by omega) (fun j _ => hf j)
    have hcount' : hdr'.count = divRoundUp size sectorSize := by
      rw [FileHeader.count, hns, hsec, Int.toNat_natCast]
    refine .inr ⟨hdr', b', f', ?_, hbits', hclear', ?_, hcount', ho', fun j => ?_, fun x hx => ?_⟩
    · rw [Int.toNat_natCast, bind_eq_of_ok hrun]
      rfl
    · rw [FileHeader.fileLength, hnb, hlen]
    · unfold FileHeader.listed
      rw [hcount']
      by_cases hj : j < divRoundUp size sectorSize
      · rw [if_pos hj]
        exact hin j (Nat.zero_le _) (by omega)
      · rw [if_neg hj, hout _ fun m _ hm he => by have := hpart _ _ he; omega]
        exact hf j
    · exact hout x fun j _ _ => hx j

/-- **`Deallocate`** takes back what `Allocate` gave. -/
theorem deallocate_ok (hdr : FileHeader) {b : Bitmap} {f : Part → Option Nat} (ho : Owned b.test f)
    (hbits : b.numBits = numSectors) (hcount : hdr.count ≤ numDirect)
    (hf : ∀ j, f (part j) = hdr.listed j) (d : Disk) :
    ∃ b' f', hdr.deallocate b d = .ok b' d ∧ b'.numBits = numSectors ∧ Owned b'.test f'
      ∧ (∀ j, f' (part j) = none) ∧ ∀ x, (∀ j, x ≠ part j) → f' x = f x := by
  obtain ⟨b', f', hrun, hbits', ho', hin, hout⟩ := deallocateFrom_ok hpart hdr d hdr.count 0 b f ho
    hbits (by omega) (fun j _ hj => by rw [hf, FileHeader.listed, if_pos (by omega)])
  refine ⟨b', f', hrun, hbits', ho', fun j => ?_, fun x hx => hout x fun j _ _ => hx j⟩
  by_cases hj : j < hdr.count
  · exact hin j (Nat.zero_le _) (by omega)
  · rw [hout _ fun m _ hm he => by have := hpart _ _ he; omega, hf, FileHeader.listed, if_neg hj]

end Loops

/-! ## Between two calls -/

theorem PersistentBitmap.setBytes_numBits (b : Bitmap) (buf : Nat → UInt8) :
    (setBytes b buf).numBits = b.numBits := rfl

@[simp] theorem freeMap_numBits (d : Disk) : (freeMap d).numBits = numSectors := by
  rw [freeMap, PersistentBitmap.setBytes_numBits, Bitmap.numBits_new]

/-- What holds between two calls. -/
structure FsInv (s : FsState) : Prop where
  consistent : Consistent s.disk
  /-- The headers of the two open files are those on the disk. -/
  mapHdr : s.fs.freeMapFile.hdr = header s.disk 0
  dirHdr : s.fs.directoryFile.hdr = header s.disk 1
  /-- The free map takes one sector. -/
  mapSize : (header s.disk 0).fileLength = freeMapFileSize ∧ (header s.disk 0).count = 1
  /-- The directory takes two. -/
  dirSize : (header s.disk 1).fileLength = directoryFileSize ∧ (header s.disk 1).count = 2
  /-- No file has more sectors than its header can list. -/
  counts : ∀ i, i < numDirEntries → (entryAt s.disk i).inUse = true →
    (header s.disk (entryAt s.disk i).sector.toNat).count ≤ numDirect

theorem lt_one_sector {i : Nat} : i * sectorSize < freeMapFileSize ↔ i < 1 := by
  show i * 128 < 128 ↔ i < 1
  omega

theorem lt_two_sectors {i : Nat} : i * sectorSize < directoryFileSize ↔ i < 2 := by
  show i * 128 < 200 ↔ i < 2
  omega

/-- A file whose sectors are held is sound. -/
theorem sound_of_owned {b : Bitmap} {f : Part → Option Nat} (ho : Owned b.test f)
    (hbits : b.numBits = numSectors) {hdr : FileHeader} {part : Nat → Part}
    (hpart : ∀ i j, part i = part j → i = j) (hf : ∀ j, f (part j) = hdr.listed j) {len : Nat}
    (hlen : hdr.fileLength = len) (hle : len ≤ maxFileSize)
    (hcount : ∀ i, i * sectorSize < len → i < hdr.count) : hdr.Sound len := by
  have hheld : ∀ i, i * sectorSize < len → f (part i) = some (hdr.sec i) := fun i hi => by
    rw [hf, FileHeader.listed, if_pos (hcount i hi)]
  refine ⟨hlen, hle, fun i hi => ?_, fun i j hi hj he => ?_⟩
  · exact test_lt hbits ((ho.use_iff _).mpr ⟨_, hheld i hi⟩)
  · have hj' := hheld j hj
    rw [← he] at hj'
    exact hpart i j (ho.unique _ _ _ (hheld i hi) hj')

/-- The two files that the file system keeps for itself, in a map `b` whose sectors are given out
as `f` says. -/
structure OwnFiles (d : Disk) (b : Bitmap) (f : Part → Option Nat) : Prop where
  owned : Owned b.test f
  bits : b.numBits = numSectors
  mapData : ∀ j, f (.mapData j) = (header d 0).listed j
  dirData : ∀ j, f (.dirData j) = (header d 1).listed j
  mapSize : (header d 0).fileLength = freeMapFileSize ∧ (header d 0).count = 1
  dirSize : (header d 1).fileLength = directoryFileSize ∧ (header d 1).count = 2

namespace OwnFiles

variable {d : Disk} {b : Bitmap} {f : Part → Option Nat} (h : OwnFiles d b f)
include h

theorem mapSound : (header d 0).Sound freeMapFileSize :=
  sound_of_owned h.owned h.bits (fun _ _ => Part.mapData.inj) h.mapData h.mapSize.1 (by decide)
    fun i hi => by rw [h.mapSize.2]; exact lt_one_sector.mp hi

theorem dirSound : (header d 1).Sound directoryFileSize :=
  sound_of_owned h.owned h.bits (fun _ _ => Part.dirData.inj) h.dirData h.dirSize.1 (by decide)
    fun i hi => by rw [h.dirSize.2]; exact lt_two_sectors.mp hi

theorem sec_mapData {i : Nat} (hi : i * sectorSize < freeMapFileSize) :
    f (.mapData i) = some ((header d 0).sec i) := by
  rw [h.mapData, FileHeader.listed, h.mapSize.2, if_pos (lt_one_sector.mp hi)]

theorem sec_dirData {i : Nat} (hi : i * sectorSize < directoryFileSize) :
    f (.dirData i) = some ((header d 1).sec i) := by
  rw [h.dirData, FileHeader.listed, h.dirSize.2, if_pos (lt_two_sectors.mp hi)]

theorem disjoint (i j : Nat) (hi : i * sectorSize < freeMapFileSize)
    (hj : j * sectorSize < directoryFileSize) : (header d 0).sec i ≠ (header d 1).sec j :=
  fun he => by
  have hd := h.sec_dirData hj
  rw [← he] at hd
  exact Part.noConfusion (h.owned.unique _ _ _ (h.sec_mapData hi) hd)

end OwnFiles

namespace FsInv

variable {s : FsState} (h : FsInv s)
include h

theorem ownFiles : OwnFiles s.disk (freeMap s.disk) (held s.disk) :=
  ⟨h.consistent.marked, freeMap_numBits _, fun _ => rfl, fun _ => rfl, h.mapSize, h.dirSize⟩

theorem mapSound : s.fs.freeMapFile.hdr.Sound freeMapFileSize := by
  rw [h.mapHdr]
  exact h.ownFiles.mapSound

theorem dirSound : s.fs.directoryFile.hdr.Sound directoryFileSize := by
  rw [h.dirHdr]
  exact h.ownFiles.dirSound

theorem disjoint (i j : Nat) (hi : i * sectorSize < freeMapFileSize)
    (hj : j * sectorSize < directoryFileSize) :
    s.fs.freeMapFile.hdr.sec i ≠ s.fs.directoryFile.hdr.sec j := by
  rw [h.mapHdr, h.dirHdr]
  exact h.ownFiles.disjoint i j hi hj

end FsInv

/-! ## Writing the copies back -/

theorem FileHeader.Sound.byte_congr {hdr : FileHeader} {len : Nat} {d d' : Disk}
    (hd : ∀ i, i * sectorSize < len → d' (hdr.sec i) = d (hdr.sec i)) {k : Nat} (hk : k < len) :
    hdr.byte d' k = hdr.byte d k := by
  have hle := Nat.div_mul_le_self k sectorSize
  unfold FileHeader.byte
  rw [hd (k / sectorSize) (by omega)]

/-- The map and the directory are on the disk, and nothing else has changed. -/
structure Written (fs : FileSystem) (b : Bitmap) (dir : Directory) (d d' : Disk) : Prop where
  map : PersistentBitmap.setBytes (Bitmap.new numSectors numSectors_pos)
    (fs.freeMapFile.hdr.byte d') = b
  dir : ∀ i, i < numDirEntries →
    (DirectoryEntry.ofBytes fun k => fs.directoryFile.hdr.byte d' (entrySize * i + k)).view
      = (dir.table i).view
  frame : ∀ n, (∀ i, i * sectorSize < freeMapFileSize → n ≠ fs.freeMapFile.hdr.sec i) →
    (∀ i, i * sectorSize < directoryFileSize → n ≠ fs.directoryFile.hdr.sec i) → d' n = d n

section Flush

variable {fs : FileSystem} {b : Bitmap} (dir : Directory)
  (hmap : fs.freeMapFile.hdr.Sound freeMapFileSize)
  (hdir : fs.directoryFile.hdr.Sound directoryFileSize)
  (hdisj : ∀ i j, i * sectorSize < freeMapFileSize → j * sectorSize < directoryFileSize →
    fs.freeMapFile.hdr.sec i ≠ fs.directoryFile.hdr.sec j)
  (hbits : b.numBits = numSectors) (hsize : dir.tableSize = numDirEntries)
include hmap hdir hdisj hbits hsize

/-- The order of `Create`. -/
theorem flush_dir_map (m : Nat → Nat → UInt8) (d : Disk) :
    ∃ d₁ d', dir.writeBack fs.directoryFile (m 0) (m 1) (m 2) d = .ok () d₁
      ∧ PersistentBitmap.writeBack b fs.freeMapFile (m 3) (m 4) (m 5) d₁ = .ok () d'
      ∧ Written fs b dir d d' := by
  obtain ⟨d₁, hrun₁, hview, hframe₁⟩ := writeDirectory_ok hdir hsize (m 0) (m 1) (m 2) d
  obtain ⟨d', hrun₂, hmap', hframe₂⟩ := writeMap_ok hmap hbits (m 3) (m 4) (m 5) d₁
  refine ⟨d₁, d', hrun₁, hrun₂, hmap', fun i hi => ?_, fun n hnm hnd => ?_⟩
  · rw [← hview i hi]
    refine DirectoryEntry.view_congr fun k hk => ?_
    refine FileHeader.Sound.byte_congr (fun j hj => hframe₂ _ fun m hm he => ?_) (entry_lt hi hk)
    exact hdisj m j hm hj he.symm
  · rw [hframe₂ n hnm, hframe₁ n hnd]

/-- The order of `Remove`. -/
theorem flush_map_dir (m : Nat → Nat → UInt8) (d : Disk) :
    ∃ d₁ d', PersistentBitmap.writeBack b fs.freeMapFile (m 0) (m 1) (m 2) d = .ok () d₁
      ∧ dir.writeBack fs.directoryFile (m 3) (m 4) (m 5) d₁ = .ok () d'
      ∧ Written fs b dir d d' := by
  obtain ⟨d₁, hrun₁, hmap', hframe₁⟩ := writeMap_ok hmap hbits (m 0) (m 1) (m 2) d
  obtain ⟨d', hrun₂, hview, hframe₂⟩ := writeDirectory_ok hdir hsize (m 3) (m 4) (m 5) d₁
  refine ⟨d₁, d', hrun₁, hrun₂, ?_, hview, fun n hnm hnd => ?_⟩
  · rw [← hmap']
    refine PersistentBitmap.setBytes_congr _ fun k hk => ?_
    rw [new_length] at hk
    exact FileHeader.Sound.byte_congr (fun j hj => hframe₂ _ fun m hm => hdisj j m hj hm) hk
  · rw [hframe₂ n hnd, hframe₁ n hnm]

end Flush

/-- What the disk says once the copies are on it: `d` may differ from the old disk only in sectors
that nobody had. -/
structure Settled (s : FsState) (b : Bitmap) (dir : Directory) (d d' : Disk) : Prop where
  map : freeMap d' = b
  mapHdr : header d' 0 = header s.disk 0
  dirHdr : header d' 1 = header s.disk 1
  entries : ∀ i, i < numDirEntries → (entryAt d' i).view = (dir.table i).view
  frame : ∀ n, (∀ j, held s.disk (.mapData j) ≠ some n) → (∀ j, held s.disk (.dirData j) ≠ some n) →
    d' n = d n

namespace FsInv

variable {s : FsState} (h : FsInv s)
include h

theorem settled {b : Bitmap} {dir : Directory} {d d' : Disk}
    (hd : ∀ x n, held s.disk x = some n → d n = s.disk n) (hw : Written s.fs b dir d d') :
    Settled s b dir d d' := by
  have hframe : ∀ n, (∀ j, held s.disk (.mapData j) ≠ some n) →
      (∀ j, held s.disk (.dirData j) ≠ some n) → d' n = d n := fun n hm hdir => by
    refine hw.frame n (fun i hi he => hm i ?_) (fun i hi he => hdir i ?_)
    · rw [he, h.mapHdr]; exact h.ownFiles.sec_mapData hi
    · rw [he, h.dirHdr]; exact h.ownFiles.sec_dirData hi
  have hfixed : ∀ x n, held s.disk x = some n → (∀ j, x ≠ .mapData j) → (∀ j, x ≠ .dirData j) →
      d' n = s.disk n := fun x n hx hm hdir => by
    rw [hframe n (fun j hj => hm j (h.consistent.marked.unique _ _ _ hx hj))
      (fun j hj => hdir j (h.consistent.marked.unique _ _ _ hx hj)), hd x n hx]
  have h0 : header d' 0 = header s.disk 0 := by
    unfold header
    rw [hfixed .mapHeader 0 rfl (by simp) (by simp)]
  have h1 : header d' 1 = header s.disk 1 := by
    unfold header
    rw [hfixed .dirHeader 1 rfl (by simp) (by simp)]
  refine ⟨?_, h0, h1, fun i hi => ?_, hframe⟩
  · unfold freeMap
    rw [h0, ← h.mapHdr]
    exact hw.map
  · unfold entryAt
    rw [h1, ← h.dirHdr]
    exact hw.dir i hi

end FsInv

/-- Two entries that show the same are used in the same way. -/
theorem view_parts {e e' : DirectoryEntry} (h : e.view = e'.view) :
    e.inUse = e'.inUse ∧ e.sector = e'.sector ∧ e.fileName = e'.fileName := by
  simp only [DirectoryEntry.view, Prod.mk.injEq] at h
  exact h

/-- The file in entry `i` is where it was, if its sectors did not change. -/
theorem Settled.held_keep {s : FsState} {b : Bitmap} {dir : Directory} {d d' : Disk}
    (h : Settled s b dir d d') {i : Nat}
    (hview : i < numDirEntries → (dir.table i).view = (entryAt s.disk i).view)
    (hhdr : i < numDirEntries → (entryAt s.disk i).inUse = true →
      d' (entryAt s.disk i).sector.toNat = s.disk (entryAt s.disk i).sector.toNat) :
    held d' (.header i) = held s.disk (.header i) ∧
    ∀ j, held d' (.data i j) = held s.disk (.data i j) := by
  by_cases hi : i < numDirEntries
  · obtain ⟨hu, hs, _⟩ := view_parts ((h.entries i hi).trans (hview hi))
    simp only [held]
    rw [hu, hs]
    refine ⟨rfl, fun j => ?_⟩
    split
    · rename_i hin
      unfold header
      rw [hhdr hi hin.2]
    · rfl
  · simp only [held, hi, false_and, if_false]
    exact ⟨trivial, fun _ => trivial⟩

/-- A header is in its sector, with the sectors it lists. -/
theorem header_listed {d : Disk} {n : Nat} {c : Nat → UInt8} (hdr : FileHeader)
    (hd : d n = blit c 0 sectorSize hdr.bytes) (hcount : hdr.count ≤ numDirect) :
    (header d n).fileLength = hdr.fileLength ∧ (header d n).count = hdr.count
      ∧ ∀ j, (header d n).listed j = hdr.listed j := by
  obtain ⟨hnb, hns, hdata⟩ := header_written hdr c
  have hc : (header d n).count = hdr.count := by
    unfold FileHeader.count header
    rw [hd, hns]
  refine ⟨?_, hc, fun j => ?_⟩
  · unfold FileHeader.fileLength header
    rw [hd, hnb]
  unfold FileHeader.listed
  rw [hc]
  split
  · unfold FileHeader.sec header
    rw [hd, hdata j (by omega)]
  · rfl

theorem FsInv.held_header {s : FsState} {i : Nat} (hi : i < numDirEntries)
    (hu : (entryAt s.disk i).inUse = true) :
    held s.disk (.header i) = some (entryAt s.disk i).sector.toNat := if_pos ⟨hi, hu⟩

/-- The file of another entry is not touched. -/
theorem FsInv.keep_header {s : FsState} (h : FsInv s) {b : Bitmap} {dir : Directory} {d d' : Disk}
    (hset : Settled s b dir d d') (hd : ∀ x n, held s.disk x = some n → d n = s.disk n) {i : Nat}
    (hi : i < numDirEntries) (hu : (entryAt s.disk i).inUse = true) :
    d' (entryAt s.disk i).sector.toNat = s.disk (entryAt s.disk i).sector.toNat := by
  have hheld := FsInv.held_header hi hu
  rw [hset.frame _ (fun j hj => Part.noConfusion (h.consistent.marked.unique _ _ _ hheld hj))
    (fun j hj => Part.noConfusion (h.consistent.marked.unique _ _ _ hheld hj)), hd _ _ hheld]

/-- **The files of the other entries** are where they were, under the same names and with the same
headers, when a call was about entry `i`. -/
theorem FsInv.others {s : FsState} (h : FsInv s) {b : Bitmap} {dir : Directory} {d d' : Disk}
    (hset : Settled s b dir d d') (hd : ∀ x n, held s.disk x = some n → d n = s.disk n) {i : Nat}
    (hview : ∀ m, m ≠ i → m < numDirEntries → (dir.table m).view = (entryAt s.disk m).view)
    {m : Nat} (hm : m ≠ i) :
    (held d' (.header m) = held s.disk (.header m) ∧
      ∀ j, held d' (.data m j) = held s.disk (.data m j))
    ∧ (m < numDirEntries → (entryAt d' m).inUse = (entryAt s.disk m).inUse
      ∧ (entryAt d' m).fileName = (entryAt s.disk m).fileName
      ∧ ((entryAt d' m).inUse = true →
          (header d' (entryAt d' m).sector.toNat).count ≤ numDirect)) := by
  refine ⟨hset.held_keep (hview m hm) fun hlt hu => h.keep_header hset hd hlt hu, fun hlt => ?_⟩
  obtain ⟨hu, hs, hn⟩ := view_parts ((hset.entries m hlt).trans (hview m hm hlt))
  refine ⟨hu, hn, fun hu' => ?_⟩
  have hold := hu.symm.trans hu'
  unfold header
  rw [hs, h.keep_header hset hd hlt hold]
  exact h.counts m hlt hold

/-- The two files of the file system itself stay where they are. -/
theorem Settled.held_system {s : FsState} {b : Bitmap} {dir : Directory} {d d' : Disk}
    (h : Settled s b dir d d') (j : Nat) :
    held d' (.mapData j) = held s.disk (.mapData j) ∧
    held d' (.dirData j) = held s.disk (.dirData j) := by
  constructor
  · show (header d' 0).listed j = (header s.disk 0).listed j
    rw [h.mapHdr]
  · show (header d' 1).listed j = (header s.disk 1).listed j
    rw [h.dirHdr]

theorem FsInv.of_settled {s : FsState} (h : FsInv s) {b : Bitmap} {dir : Directory} {d d' : Disk}
    (hset : Settled s b dir d d') {f : Part → Option Nat} (ho : Owned b.test f)
    (hheld : ∀ x, held d' x = f x)
    (hnames : ∀ i j, i < numDirEntries → j < numDirEntries → (entryAt d' i).inUse = true →
      (entryAt d' j).inUse = true → (entryAt d' i).fileName = (entryAt d' j).fileName → i = j)
    (hcounts : ∀ i, i < numDirEntries → (entryAt d' i).inUse = true →
      (header d' (entryAt d' i).sector.toNat).count ≤ numDirect) : FsInv ⟨s.fs, d'⟩ where
  consistent := by
    refine ⟨?_, hnames⟩
    rw [hset.map]
    exact ho.congr hheld
  mapHdr := h.mapHdr.trans hset.mapHdr.symm
  dirHdr := h.dirHdr.trans hset.dirHdr.symm
  mapSize := by
    show (header d' 0).fileLength = _ ∧ (header d' 0).count = _
    rw [hset.mapHdr]
    exact h.mapSize
  dirSize := by
    show (header d' 1).fileLength = _ ∧ (header d' 1).count = _
    rw [hset.dirHdr]
    exact h.dirSize
  counts := hcounts

/-- **A file was created**: the disk says what was given to its parts. -/
theorem FsInv.created {s : FsState} (h : FsInv s) {dir : Directory} (hshows : dir.Shows s.disk)
    {i id : Nat} {name : List UInt8} (hi : i < numDirEntries)
    (hnew : ∀ j, j < numDirEntries → (dir.table j).inUse = true →
      cstr (dir.table j).name fileNameMaxLen ≠ key name)
    (hid : (freeMap s.disk).test id = false) (hlt : id < numSectors) {hdr : FileHeader}
    (hcount : hdr.count ≤ numDirect) {b : Bitmap} {f : Part → Option Nat} (ho : Owned b.test f)
    (hin : ∀ j, f (.data i j) = hdr.listed j)
    (hout : ∀ x, (∀ j, x ≠ .data i j) → f x = upd (held s.disk) (.header i) (some id) x) {d' : Disk}
    (hw : Written s.fs b (dir.enter i name id)
      (upd s.disk id (blit (s.disk id) 0 sectorSize hdr.bytes)) d') : FsInv ⟨s.fs, d'⟩ := by
  have hnobody : ∀ x, held s.disk x ≠ some id := fun x hx => by
    have := (h.consistent.marked.use_iff id).mpr ⟨x, hx⟩
    rw [hid] at this
    exact Bool.noConfusion this
  have hd : ∀ x n, held s.disk x = some n →
      upd s.disk id (blit (s.disk id) 0 sectorSize hdr.bytes) n = s.disk n := fun x n hx =>
    upd_ne _ _ fun he => hnobody x (he ▸ hx)
  have hset := h.settled hd hw
  -- the header is in its sector, which the map and the directory do not touch
  have hwritten : d' id = blit (s.disk id) 0 sectorSize hdr.bytes := by
    rw [hset.frame id (fun j => hnobody _) (fun j => hnobody _), upd_self]
  obtain ⟨_, hc, hlisted⟩ := header_listed hdr hwritten hcount
  -- the entry that was taken
  have hentry := hset.entries i hi
  rw [enter_view, if_pos rfl] at hentry
  simp only [DirectoryEntry.view, Prod.mk.injEq] at hentry
  obtain ⟨huse, hsector, hname⟩ := hentry
  have hsec : (entryAt d' i).sector.toNat = id := by rw [hsector, sec_ofInt hlt]
  -- the others
  have hother : ∀ m, m ≠ i → m < numDirEntries →
      ((dir.enter i name id).table m).view = (entryAt s.disk m).view := fun m hm hlt => by
    rw [enter_view, if_neg hm]
    exact hshows.2 m hlt
  have hkeep : ∀ m, m ≠ i → _ := fun m hm => h.others hset hd hother hm
  have hunused : ∀ m, m ≠ i → m < numDirEntries → (entryAt d' m).inUse = true →
      (entryAt d' m).fileName ≠ key name := fun m hm hlt hu hk => by
    obtain ⟨hu', hn', _⟩ := (hkeep m hm).2 hlt
    obtain ⟨hu'', _, hn''⟩ := view_parts (hshows.2 m hlt)
    exact hnew m hlt (hu''.trans (hu'.symm.trans hu)) (hn''.trans (hn'.symm.trans hk))
  refine h.of_settled hset ho (fun x => ?_) ?_ ?_
  · cases x with
    | mapHeader => rw [hout _ (by simp)]; rfl
    | dirHeader => rw [hout _ (by simp)]; rfl
    | mapData j => rw [hout _ (by simp), upd_ne _ _ (by simp), (hset.held_system j).1]
    | dirData j => rw [hout _ (by simp), upd_ne _ _ (by simp), (hset.held_system j).2]
    | header m =>
        rw [hout _ (by simp)]
        by_cases hm : m = i
        · rw [hm, upd_self]
          show (if _ then _ else _) = _
          rw [if_pos ⟨hi, huse⟩, hsec]
        · rw [upd_ne _ _ (by simpa using hm), (hkeep m hm).1.1]
    | data m j =>
        by_cases hm : m = i
        · rw [hm, hin]
          show (if _ then _ else _) = _
          rw [if_pos ⟨hi, huse⟩, hsec, hlisted]
        · rw [hout _ (fun k he => hm (Part.data.inj he).1), upd_ne _ _ (by simp), (hkeep m hm).1.2]
  · -- the new name was not in the directory before
    intro m n hm hn hum hun he
    by_cases hmi : m = i
    · by_cases hni : n = i
      · rw [hmi, hni]
      · rw [hmi] at he
        exact absurd (he.symm.trans hname) (hunused n hni hn hun)
    · by_cases hni : n = i
      · rw [hni] at he
        exact absurd (he.trans hname) (hunused m hmi hm hum)
      · obtain ⟨hum', hnm, _⟩ := (hkeep m hmi).2 hm
        obtain ⟨hun', hnn, _⟩ := (hkeep n hni).2 hn
        exact h.consistent.names m n hm hn (hum'.symm.trans hum) (hun'.symm.trans hun)
          (hnm.symm.trans (he.trans hnn))
  · intro m hm hum
    by_cases hmi : m = i
    · rw [hmi, hsec, hc]
      exact hcount
    · exact ((hkeep m hmi).2 hm).2.2 hum

/-- **A file was removed**: its parts have nothing any more. -/
theorem FsInv.removed {s : FsState} (h : FsInv s) {dir : Directory} (hshows : dir.Shows s.disk)
    {i : Nat} (hi : i < numDirEntries) {b : Bitmap} {f : Part → Option Nat} (ho : Owned b.test f)
    (hnone : f (.header i) = none ∧ ∀ j, f (.data i j) = none)
    (hout : ∀ x, x ≠ .header i → (∀ j, x ≠ .data i j) → f x = held s.disk x) {d' : Disk}
    (hw : Written s.fs b (dir.drop i) s.disk d') : FsInv ⟨s.fs, d'⟩ := by
  have hset := h.settled (fun _ _ _ => rfl) hw
  have hgone : (entryAt d' i).inUse = false := by
    have hentry := hset.entries i hi
    simp only [Directory.drop, upd_self] at hentry
    exact (view_parts hentry).1
  have hother : ∀ m, m ≠ i → m < numDirEntries →
      ((dir.drop i).table m).view = (entryAt s.disk m).view := fun m hm hlt => by
    simp only [Directory.drop, upd_ne _ _ hm]
    exact hshows.2 m hlt
  have hkeep : ∀ m, m ≠ i → _ := fun m hm => h.others hset (fun _ _ _ => rfl) hother hm
  -- what is in use is another entry
  have hne : ∀ m, (entryAt d' m).inUse = true → m ≠ i := fun m hu he => by
    rw [he, hgone] at hu
    exact Bool.noConfusion hu
  refine h.of_settled hset ho (fun x => ?_) ?_ ?_
  · cases x with
    | mapHeader => rw [hout _ (by simp) (by simp)]; rfl
    | dirHeader => rw [hout _ (by simp) (by simp)]; rfl
    | mapData j => rw [hout _ (by simp) (by simp), (hset.held_system j).1]
    | dirData j => rw [hout _ (by simp) (by simp), (hset.held_system j).2]
    | header m =>
        by_cases hm : m = i
        · rw [hm, hnone.1]
          simp [held, hgone]
        · rw [hout _ (by simpa using hm) (by simp), (hkeep m hm).1.1]
    | data m j =>
        by_cases hm : m = i
        · rw [hm, hnone.2]
          simp [held, hgone]
        · rw [hout _ (by simp) (fun k he => hm (Part.data.inj he).1), (hkeep m hm).1.2]
  · intro m n hm hn hum hun he
    obtain ⟨hum', hnm, _⟩ := (hkeep m (hne m hum)).2 hm
    obtain ⟨hun', hnn, _⟩ := (hkeep n (hne n hun)).2 hn
    exact h.consistent.names m n hm hn (hum'.symm.trans hum) (hun'.symm.trans hun)
      (hnm.symm.trans (he.trans hnn))
  · intro m hm hum
    exact ((hkeep m (hne m hum)).2 hm).2.2 hum

/-! ## The calls -/

/-- **`Find`** gives the sector of the file, or there is none. -/
theorem FsInv.find_cases {s : FsState} (h : FsInv s) {dir : Directory} (hshows : dir.Shows s.disk)
    (name : List UInt8) :
    (dir.find name = -1 ∧ ∀ j, j < numDirEntries → (dir.table j).inUse = true →
      cstr (dir.table j).name fileNameMaxLen ≠ key name)
    ∨ ∃ i, i < numDirEntries ∧ dir.findIndex name = (i : Int) ∧ (entryAt s.disk i).inUse = true
        ∧ dir.find name = ((entryAt s.disk i).sector.toNat : Int)
        ∧ (entryAt s.disk i).sector.toNat < numSectors := by
  rcases findIndex_cases dir name with ⟨hnot, hnew⟩ | ⟨i, hi, hfound, hu, _⟩
  · rw [hshows.1] at hnew
    exact .inl ⟨by simp [Directory.find, hnot], hnew⟩
  · rw [hshows.1] at hi
    obtain ⟨hu', hs', _⟩ := view_parts (hshows.2 i hi)
    have huse := hu'.symm.trans hu
    have hlt := test_lt (freeMap_numBits _)
      ((h.consistent.marked.use_iff _).mpr ⟨_, FsInv.held_header hi huse⟩)
    refine .inr ⟨i, hi, hfound, huse, ?_, hlt⟩
    have hne : (i : Int) ≠ -1 := by omega
    unfold Directory.find
    rw [hfound, if_pos hne, Int.toNat_natCast, hs', toInt_sector hlt]

/-- **`Create`**: it returns, a failure changes nothing, and a success keeps the file system in
order. -/
theorem FsInv.create {s : FsState} (h : FsInv s) (f : Fresh) (name : List UInt8) {size : Nat}
    (hsize : size ≤ maxFileSize) :
    ∃ success d', s.fs.create f name size s.disk = .ok success d'
      ∧ (success = false → d' = s.disk) ∧ FsInv ⟨s.fs, d'⟩ := by
  have hfails : ∀ r : EStateM.Result Stop Disk Bool, r = .ok false s.disk →
      ∃ success d', r = .ok success d' ∧ (success = false → d' = s.disk) ∧ FsInv ⟨s.fs, d'⟩ :=
    fun r hr => ⟨false, s.disk, hr, fun _ => rfl, h⟩
  obtain ⟨dir, hfetch, hshows⟩ := fetchDirectory_ok (Directory.new numDirEntries f.table)
    h.dirSound h.dirHdr rfl (f.buf 0)
  unfold FileSystem.create
  rw [bind_eq_of_ok hfetch]
  rcases h.find_cases hshows name with ⟨hfind, hnew⟩ | ⟨i, hi, _, hu, hfind, hlt⟩
  · rw [if_neg (by simp [hfind]), bind_eq_of_ok (fetchMap_ok h.mapSound h.mapHdr (f.buf 1))]
    cases hclear : (freeMap s.disk).clearBits with
    | nil =>
        have hset : (freeMap s.disk).findAndSet = (-1, freeMap s.disk) := by
          rw [Bitmap.findAndSet_eq, hclear]
        rw [hset]
        exact hfails _ rfl
    | cons id rest =>
        obtain ⟨hlt, hfree⟩ := Bitmap.mem_clearBits.mp
          (hclear ▸ List.mem_cons_self : id ∈ (freeMap s.disk).clearBits)
        rw [freeMap_numBits] at hlt
        have hset : (freeMap s.disk).findAndSet = ((id : Int), (freeMap s.disk).mark id) := by
          rw [Bitmap.findAndSet_eq, hclear]
        have hne : ¬ ((id : Int) = -1) := by omega
        rw [hset]
        simp only [if_neg hne]
        rcases add_cases dir name id with hfull | ⟨i, hi, hunused, hadd⟩
        · -- no entry is free: the copies are dropped
          rw [hfull]
          exact hfails _ rfl
        rw [hshows.1] at hi
        rw [hadd]
        simp only [Bool.not_true, Bool.false_eq_true, if_false]
        have hentry : (entryAt s.disk i).inUse = false :=
          (view_parts (hshows.2 i hi)).1.symm.trans hunused
        have hgive :
            Owned ((freeMap s.disk).mark id).test (upd (held s.disk) (.header i) (some id)) := by
          rw [mark_test (by rw [freeMap_numBits]; exact hlt)]
          exact h.consistent.marked.give hfree (by simp [held, hentry])
        have hempty : ∀ j, upd (held s.disk) (.header i) (some id) (.data i j) = none := fun j => by
          rw [upd_ne _ _ (by simp)]
          simp [held, hentry]
        rcases allocate_cases (fun a b he => (Part.data.inj he).2) f.hdr hgive
          (by rw [Bitmap.numBits_mark, freeMap_numBits]) hempty hsize s.disk
          with ⟨_, hdr, hshort⟩ | ⟨hdr, b, g, halloc, hbits, _, _, hcount, ho, hin, hout⟩
        · -- too few sectors are left: likewise
          rw [bind_eq_of_ok hshort]
          exact hfails _ rfl
        rw [bind_eq_of_ok halloc]
        simp only [Bool.not_true, Bool.false_eq_true, if_false]
        have hcount' : hdr.count ≤ numDirect := by
          rw [hcount]
          exact divRoundUp_le hsize
        have hhdr : hdr.writeBack (id : Int) s.disk = _ := writeSector_ok hlt hdr.bytes s.disk
        obtain ⟨d₁, d', hrun₁, hrun₂, hw⟩ := flush_dir_map (dir.enter i name id) h.mapSound
          h.dirSound h.disjoint hbits hshows.1 (fun k => f.buf (k + 2))
          (upd s.disk id (blit (s.disk id) 0 sectorSize hdr.bytes))
        rw [bind_eq_of_ok hhdr, bind_eq_of_ok hrun₁, bind_eq_of_ok hrun₂]
        refine ⟨true, d', rfl, fun hf => absurd hf (by simp), ?_⟩
        exact h.created hshows hi hnew hfree hlt hcount' ho hin hout hw
  · -- there is a file of that name
    rw [if_pos (by rw [hfind]; omega)]
    exact hfails _ rfl

/-- **`Remove`**: likewise. -/
theorem FsInv.remove {s : FsState} (h : FsInv s) (f : Fresh) (name : List UInt8) :
    ∃ success d', s.fs.remove f name s.disk = .ok success d'
      ∧ (success = false → d' = s.disk) ∧ FsInv ⟨s.fs, d'⟩ := by
  obtain ⟨dir, hfetch, hshows⟩ := fetchDirectory_ok (Directory.new numDirEntries f.table)
    h.dirSound h.dirHdr rfl (f.buf 0)
  unfold FileSystem.remove
  rw [bind_eq_of_ok hfetch]
  rcases h.find_cases hshows name with ⟨hfind, _⟩ | ⟨i, hi, hindex, hu, hfind, hlt⟩
  · rw [if_pos hfind]
    exact ⟨false, s.disk, rfl, fun _ => rfl, h⟩
  -- the data sectors are taken back first, then the one of the header
  have hheld := FsInv.held_header hi hu
  have hdata : ∀ j, held s.disk (.data i j)
      = (header s.disk (entryAt s.disk i).sector.toNat).listed j := fun j => if_pos ⟨hi, hu⟩
  obtain ⟨b, g, hdealloc, hbits, ho, hnone, hout⟩ := deallocate_ok
    (fun a b he => (Part.data.inj he).2) _ h.consistent.marked (freeMap_numBits _)
    (h.counts i hi hu) hdata s.disk
  have hhas : g (.header i) = some (entryAt s.disk i).sector.toNat := by
    rw [hout _ (by simp), hheld]
  have htake := ho.take hhas
  rw [← clear_test (by rw [hbits]; exact hlt)] at htake
  have hremove : (dir.remove name).2 = dir.drop i := by
    have hne : ¬ ((i : Int) = -1) := by omega
    unfold Directory.remove
    rw [hindex, if_neg hne, Int.toNat_natCast]
  have hassert : decide (0 ≤ ((entryAt s.disk i).sector.toNat : Int)
      ∧ ((entryAt s.disk i).sector.toNat : Int) < b.numBits) = true := decide_eq_true (by omega)
  obtain ⟨d₁, d', hrun₁, hrun₂, hw⟩ := flush_map_dir (dir.drop i) h.mapSound h.dirSound
    h.disjoint (b := b.clear (entryAt s.disk i).sector.toNat) hbits hshows.1
    (fun k => f.buf (k + 2)) s.disk
  rw [if_neg (by rw [hfind]; omega), hfind, bind_eq_of_ok (fetchFrom_ok hlt s.disk),
    bind_eq_of_ok (fetchMap_ok h.mapSound h.mapHdr (f.buf 1)), bind_eq_of_ok hdealloc]
  have hcheck : assert true s.disk = .ok () s.disk := rfl
  rw [hassert, bind_eq_of_ok hcheck, Int.toNat_natCast, hremove, bind_eq_of_ok hrun₁,
    bind_eq_of_ok hrun₂]
  refine ⟨true, d', rfl, fun hf => absurd hf (by simp), ?_⟩
  refine h.removed hshows hi htake ⟨upd_self _ _ _, fun j => ?_⟩ (fun x hx hx' => ?_) hw
  · rw [upd_ne _ _ (by simp)]
    exact hnone j
  · rw [upd_ne _ _ hx]
    exact hout x hx'

/-! ## Formatting -/

/-- The map with the sectors of the two headers marked. -/
def firstMap : Bitmap :=
  ((Bitmap.new numSectors numSectors_pos).mark freeMapSector.toNat).mark directorySector.toNat

/-- What the two headers have been given. -/
def firstHeld : Part → Option Nat :=
  upd (upd (fun _ => none) .mapHeader (some 0)) .dirHeader (some 1)

theorem firstMap_numBits : firstMap.numBits = numSectors := by
  rw [firstMap, Bitmap.numBits_mark, Bitmap.numBits_mark, Bitmap.numBits_new]

theorem firstMap_test : firstMap.test = upd (upd (fun _ => false) 0 true) 1 true := by
  have hmap : freeMapSector.toNat < (Bitmap.new numSectors numSectors_pos).numBits := by
    rw [Bitmap.numBits_new]
    decide
  have hdir : directorySector.toNat
      < ((Bitmap.new numSectors numSectors_pos).mark freeMapSector.toNat).numBits := by
    rw [Bitmap.numBits_mark, Bitmap.numBits_new]
    decide
  have hnew : (Bitmap.new numSectors numSectors_pos).test = fun _ => false :=
    funext fun i => Bitmap.test_new _ _ i
  rw [firstMap, mark_test hdir, mark_test hmap, hnew]
  rfl

theorem firstMap_owned : Owned firstMap.test firstHeld := by
  have hmap := (Owned.nothing (α := Part) (β := Nat)).give (x := .mapHeader) (b := 0) rfl rfl
  rw [firstMap_test]
  exact hmap.give (x := .dirHeader) (b := 1) rfl rfl

/-- There is room for the map and the directory. -/
theorem firstMap_room : 3 ≤ firstMap.clearBits.length := by
  have hsub : [2, 3, 4] ⊆ firstMap.clearBits := fun n hn => by
    have hn' : n = 2 ∨ n = 3 ∨ n = 4 := by simpa using hn
    refine Bitmap.mem_clearBits.mpr ⟨?_, ?_⟩
    · rw [firstMap_numBits]
      exact Nat.lt_of_le_of_lt (m := 4) (by omega) (by decide)
    · rw [firstMap_test, upd_ne _ _ (by omega), upd_ne _ _ (by omega)]
  exact (List.subperm_of_subset (by decide) hsub).length_le

/-- The file system that has only its own two files. -/
structure First (d : Disk) (b : Bitmap) (f : Part → Option Nat) : Prop extends OwnFiles d b f where
  headers : f .mapHeader = some 0 ∧ f .dirHeader = some 1
  files : ∀ i, f (.header i) = none ∧ ∀ j, f (.data i j) = none

/-- Once its map and its empty directory are on the disk, it is in order. -/
theorem First.fsInv {d : Disk} {b : Bitmap} {f : Part → Option Nat} (h : First d b f)
    {dir : Directory} (hdir : ∀ i, (dir.table i).inUse = false) {d' : Disk}
    (hw : Written ⟨⟨header d 0⟩, ⟨header d 1⟩⟩ b dir d d') :
    FsInv ⟨⟨⟨header d 0⟩, ⟨header d 1⟩⟩, d'⟩ := by
  have hfixed : ∀ x n, f x = some n → (∀ j, x ≠ .mapData j) → (∀ j, x ≠ .dirData j) → d' n = d n :=
    fun x n hx hm hd => hw.frame n
      (fun i hi he => hm i (h.owned.unique _ _ _ hx (he ▸ h.sec_mapData hi)))
      (fun i hi he => hd i (h.owned.unique _ _ _ hx (he ▸ h.sec_dirData hi)))
  have h0 : header d' 0 = header d 0 := by
    unfold header
    rw [hfixed .mapHeader 0 h.headers.1 (by simp) (by simp)]
  have h1 : header d' 1 = header d 1 := by
    unfold header
    rw [hfixed .dirHeader 1 h.headers.2 (by simp) (by simp)]
  have hunused : ∀ i, i < numDirEntries → (entryAt d' i).inUse = false := fun i hi => by
    have hview := hw.dir i hi
    unfold entryAt
    rw [h1]
    exact (view_parts hview).1.trans (hdir i)
  have hnone : ∀ i, ¬ (i < numDirEntries ∧ (entryAt d' i).inUse = true) := fun i hi => by
    rw [hunused i hi.1] at hi
    exact Bool.noConfusion hi.2
  refine ⟨⟨?_, fun i j hi _ hu => ?_⟩, h0.symm, h1.symm, ?_, ?_, fun i hi hu => ?_⟩
  · have hmap : freeMap d' = b := by
      unfold freeMap
      rw [h0]
      exact hw.map
    show Owned (freeMap d').test (held d')
    rw [hmap]
    refine h.owned.congr fun x => ?_
    cases x with
    | mapHeader => exact h.headers.1.symm
    | dirHeader => exact h.headers.2.symm
    | mapData j =>
        rw [h.mapData]
        show (header d' 0).listed j = _
        rw [h0]
    | dirData j =>
        rw [h.dirData]
        show (header d' 1).listed j = _
        rw [h1]
    | header i => rw [(h.files i).1]; exact if_neg (hnone i)
    | data i j => rw [(h.files i).2]; exact if_neg (hnone i)
  · exact absurd ⟨hi, hu⟩ (hnone i)
  · show (header d' 0).fileLength = _ ∧ (header d' 0).count = _
    rw [h0]
    exact h.mapSize
  · show (header d' 1).fileLength = _ ∧ (header d' 1).count = _
    rw [h1]
    exact h.dirSize
  · exact absurd ⟨hi, hu⟩ (hnone i)

/-- **A disk that was formatted is in order.** -/
theorem format_ok (f : Fresh) (d : Disk) :
    ∃ fs d', FileSystem.format f d = .ok fs d' ∧ FsInv ⟨fs, d'⟩ := by
  have hneed : divRoundUp freeMapFileSize sectorSize = 1
      ∧ divRoundUp directoryFileSize sectorSize = 2 := by decide
  obtain ⟨mapHdr, b₁, f₁, halloc₁, hbits₁, hclear₁, hlen₁, hcount₁, ho₁, hin₁, hout₁⟩ :=
    (allocate_cases (fun _ _ => Part.mapData.inj) f.hdr firstMap_owned firstMap_numBits
      (fun _ => rfl) (by decide : freeMapFileSize ≤ maxFileSize) d).resolve_left fun hshort => by
        have := firstMap_room
        rw [hneed.1] at hshort
        omega
  obtain ⟨dirHdr, b₂, f₂, halloc₂, hbits₂, _, hlen₂, hcount₂, ho₂, hin₂, hout₂⟩ :=
    (allocate_cases (fun _ _ => Part.dirData.inj) f.hdr' ho₁ hbits₁
      (fun j => by rw [hout₁ _ (by simp)]; rfl)
      (by decide : directoryFileSize ≤ maxFileSize) d).resolve_left fun hshort => by
        have := firstMap_room
        rw [hclear₁, hneed.1, hneed.2, List.length_drop] at hshort
        omega
  have hcm : mapHdr.count = 1 := hcount₁.trans hneed.1
  have hcd : dirHdr.count = 2 := hcount₂.trans hneed.2
  -- the disk with the two headers
  let d₁ := upd d 0 (blit (d 0) 0 sectorSize mapHdr.bytes)
  let d₂ := upd d₁ 1 (blit (d₁ 1) 0 sectorSize dirHdr.bytes)
  have hwrite₁ : mapHdr.writeBack freeMapSector d = .ok () d₁ :=
    writeSector_ok (n := 0) (by decide) _ d
  have hwrite₂ : dirHdr.writeBack directorySector d₁ = .ok () d₂ :=
    writeSector_ok (n := 1) (by decide) _ d₁
  have hopen₁ : OpenFile.new freeMapSector d₂ = .ok ⟨header d₂ 0⟩ d₂ :=
    bind_eq_of_ok (fetchFrom_ok (n := 0) (by decide) d₂)
  have hopen₂ : OpenFile.new directorySector d₂ = .ok ⟨header d₂ 1⟩ d₂ :=
    bind_eq_of_ok (fetchFrom_ok (n := 1) (by decide) d₂)
  obtain ⟨hml, hmc, hmlist⟩ := header_listed (d := d₂) (n := 0) (c := d 0) mapHdr
    (by rw [show d₂ 0 = d₁ 0 from upd_ne _ _ (by decide)]; exact upd_self _ _ _)
    (by rw [hcm]; decide)
  obtain ⟨hdl, hdc, hdlist⟩ := header_listed (d := d₂) (n := 1) (c := d₁ 1) dirHdr
    (upd_self _ _ _) (by rw [hcd]; decide)
  have hfirst : First d₂ b₂ f₂ := by
    refine ⟨⟨ho₂, hbits₂, fun j => ?_, fun j => ?_, ⟨hml.trans hlen₁, hmc.trans hcm⟩,
      ⟨hdl.trans hlen₂, hdc.trans hcd⟩⟩, ⟨?_, ?_⟩, fun i => ⟨?_, fun j => ?_⟩⟩
    · rw [hout₂ _ (by simp), hin₁, hmlist]
    · rw [hin₂, hdlist]
    · rw [hout₂ _ (by simp), hout₁ _ (by simp)]; rfl
    · rw [hout₂ _ (by simp), hout₁ _ (by simp)]; rfl
    · rw [hout₂ _ (by simp), hout₁ _ (by simp)]; rfl
    · rw [hout₂ _ (by simp), hout₁ _ (by simp)]; rfl
  let fs : FileSystem := ⟨⟨header d₂ 0⟩, ⟨header d₂ 1⟩⟩
  have hmapSound : fs.freeMapFile.hdr.Sound freeMapFileSize := hfirst.mapSound
  obtain ⟨d₃, d', hrun₁, hrun₂, hw⟩ := flush_map_dir (Directory.new numDirEntries f.table) hmapSound
    hfirst.dirSound hfirst.disjoint hbits₂ rfl f.buf d₂
  refine ⟨fs, d', ?_, hfirst.fsInv (fun _ => rfl) hw⟩
  have hcheck : ∀ d, assert true d = .ok () d := fun _ => rfl
  refine (bind_eq_of_ok halloc₁).trans ?_
  refine (bind_eq_of_ok (hcheck d)).trans ?_
  refine (bind_eq_of_ok halloc₂).trans ?_
  refine (bind_eq_of_ok (hcheck d)).trans ?_
  rw [bind_eq_of_ok hwrite₁, bind_eq_of_ok hwrite₂, bind_eq_of_ok hopen₁, bind_eq_of_ok hopen₂,
    bind_eq_of_ok hrun₁, bind_eq_of_ok hrun₂]
  rfl

/-! ## Runs -/

/-- The sizes a file can have. -/
def Call.fits : Call → Bool
  | .create _ _ initialSize => decide (0 ≤ initialSize ∧ initialSize ≤ maxFileSize)
  | .remove _ _ => true

theorem FsInv.call {s : FsState} (h : FsInv s) {c : Call} (hc : c.fits = true) :
    ∃ success d', s.call c = .ok success d' ∧ (success = false → d' = s.disk) ∧
    FsInv ⟨s.fs, d'⟩ := by
  cases c with
  | create f name initialSize =>
      have hfits := of_decide_eq_true hc
      obtain ⟨size, rfl⟩ := Int.eq_ofNat_of_zero_le hfits.1
      exact h.create f name (by omega)
  | remove f name => exact h.remove f name

theorem fsInv_reachBy {s : FsState} (h : FsState.sys.ReachBy (fun _ c => c.fits = true) s) :
    FsInv s := by
  refine h.invariant ?_ ?_
  · rintro s ⟨f, d, hf⟩
    obtain ⟨fs, d', hok, hinv⟩ := format_ok f d
    rw [hf] at hok
    injection hok with hfs hd
    rwa [← hfs, ← hd] at hinv
  · intro s c s' _ hI hc hs
    obtain ⟨success, d', hcall, _, hinv⟩ := hI.call hc
    have hstep : some (FsState.mk s.fs d') = some s' := by
      rw [← hs]
      simp only [FsState.sys, hcall]
    exact Option.some.inj hstep ▸ hinv

/-- **The file system stays in order.** A disk can be formatted. After that and any calls of
`Create` and `Remove`, the marked sectors are those of the parts of the file system, each with its
own, and the names in the directory are different. The next call returns, and if it returns
`FALSE` the disk is what it was. -/
theorem allocation_consistent :
    (∀ (f : Fresh) (d : Disk), ∃ fs d', FileSystem.format f d = .ok fs d') ∧
      ∀ s, FsState.sys.ReachBy (fun _ c => c.fits = true) s →
        Consistent s.disk ∧ ∀ c : Call, c.fits = true →
          ∃ success d', s.call c = .ok success d' ∧ (success = false → d' = s.disk) := by
  constructor
  · intro f d
    obtain ⟨fs, d', hok, _⟩ := format_ok f d
    exact ⟨fs, d', hok⟩
  · intro s h
    have hI := fsInv_reachBy h
    refine ⟨hI.consistent, fun c hc => ?_⟩
    obtain ⟨success, d', hcall, hsame, _⟩ := hI.call hc
    exact ⟨success, d', hcall, hsame⟩

/-- Memory that happens to be zero. -/
def zeros : Fresh where
  hdr := ⟨0, 0, fun _ => 0⟩
  hdr' := ⟨0, 0, fun _ => 0⟩
  table := fun _ => ⟨false, 0, fun _ => 0, fun _ => 0⟩
  buf := fun _ _ => 0

/-- Formats an empty disk and creates one file of 300 bytes. -/
def oneFile : DiskM (FileSystem × Bool) := do
  let fs ← FileSystem.format zeros
  let success ← fs.create zeros [97] 300
  return (fs, success)

theorem allocation_consistent_one : ∃ s, FsState.sys.ReachBy (fun _ c => c.fits = true) s
    ∧ (entryAt s.disk 0).fileName = [97] ∧ (freeMap s.disk).test 8 = true ∧ Consistent s.disk := by
  obtain ⟨fs, d, hformat, hinv⟩ := format_ok zeros fun _ _ => 0
  obtain ⟨success, d', hcreate', _, _⟩ := hinv.call (c := .create zeros [97] 300) (by decide)
  have hcreate : fs.create zeros [97] 300 d = .ok success d' := hcreate'
  have hrun : oneFile (fun _ _ => 0) = .ok (fs, success) d' := by
    unfold oneFile
    rw [bind_eq_of_ok hformat, bind_eq_of_ok hcreate]
    rfl
  have hsee : (match oneFile fun _ _ => 0 with
      | .ok _ d => some ((entryAt d 0).fileName, (freeMap d).test 8)
      | .error _ _ => none) = some ([97], true) := by decide +kernel
  rw [hrun] at hsee
  simp only [Option.some.injEq, Prod.mk.injEq] at hsee
  have hreach : FsState.sys.ReachBy (fun _ c => c.fits = true) ⟨fs, d'⟩ := by
    refine .tail (.init ⟨zeros, _, hformat⟩ : FsState.sys.ReachBy _ ⟨fs, d⟩)
      (l := .create zeros [97] 300) (by decide) ?_
    simp only [FsState.sys, FsState.call]
    rw [hcreate]
  exact ⟨⟨fs, d'⟩, hreach, hsee.1, hsee.2, (allocation_consistent.2 _ hreach).1⟩

end Nachos.Filesys
