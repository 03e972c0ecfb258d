import Nachos.Base.FileStore
import Nachos.Filesys.Volume
import Nachos.Proof.FileBytes
import Nachos.Proof.Files

/-!
# The file system is a store of files

The directory, the headers, the free map and the sectors together are a store: files under names of
at most nine characters, ten of them at most, each an array of bytes. `Represents` says which store
a volume is. It survives a restart, because everything in it but the handles is on the disk.

A file can be removed while it is open. What was opened before must not be used any more then,
since the sectors are given to other files; in the store the handle is gone, and `Permitted` asks
for a handle.
-/

namespace Nachos.Filesys

open Base (upd upd_self upd_ne upd_apply bind_ok bind_eq_of_ok blit FileStore History
  Allowed runCalls)

/-- A store of files of bytes, with numbers for handles. -/
abbrev Store := FileStore (List UInt8) Nat UInt8

/-! ## Requests of any two numbers -/

section Requests

variable (file : OpenFile) {len : Nat} (h : file.hdr.Sound len) {numBytes position : Int}
  (hpos : 0 ≤ position) (hsum : position + numBytes < 2147483648) (d : Disk)
include h hpos hsum

theorem OpenFile.readAtInt_amount (buf into : Nat → UInt8) : ∃ into',
    file.readAtInt buf into numBytes position d =
      .ok ((min numBytes.toNat (len - position.toNat) : Nat), into') d
    ∧ (∀ j, j < min numBytes.toNat (len - position.toNat) →
        into' j = file.hdr.byte d (position.toNat + j))
    ∧ ∀ j, min numBytes.toNat (len - position.toNat) ≤ j → into' j = into j := by
  by_cases hreq : numBytes ≤ 0 ∨ (len : Int) ≤ position
  · have hnone : min numBytes.toNat (len - position.toNat) = 0 := by omega
    rw [hnone]
    refine ⟨into, ?_, fun j hj => absurd hj (by omega), fun _ _ => rfl⟩
    unfold OpenFile.readAtInt
    rw [h.length, if_pos hreq]
    rfl
  · obtain ⟨k, rfl⟩ : ∃ k : Nat, numBytes = k := ⟨numBytes.toNat, by omega⟩
    obtain ⟨p, rfl⟩ : ∃ p : Nat, position = p := ⟨position.toNat, by omega⟩
    rw [Int.toNat_natCast, Int.toNat_natCast]
    have hk : 0 < k := by omega
    have hp : p < len := by omega
    obtain ⟨into', hrun, hbytes, hrest⟩ := readAt_bytes h buf into hk hp d
    refine ⟨into', ?_, hbytes, hrest⟩
    rw [OpenFile.readAtInt_eq h.length h.le (by omega) (by omega) (by omega), bind_eq_of_ok hrun]
    rfl

theorem OpenFile.writeAtInt_amount (buf buf' buf'' src : Nat → UInt8) : ∃ d',
    file.writeAtInt buf buf' buf'' src numBytes position d =
      .ok (min numBytes.toNat (len - position.toNat) : Nat) d'
    ∧ (∀ k, k < len → file.hdr.byte d' k =
        if position.toNat ≤ k ∧ k < position.toNat + min numBytes.toNat (len - position.toNat)
        then src (k - position.toNat) else file.hdr.byte d k)
    ∧ ∀ n, (∀ i, i * sectorSize < len → n ≠ file.hdr.sec i) → d' n = d n := by
  by_cases hreq : numBytes ≤ 0 ∨ (len : Int) ≤ position
  · have hnone : min numBytes.toNat (len - position.toNat) = 0 := by omega
    rw [hnone]
    refine ⟨d, ?_, fun k _ => (if_neg (by omega)).symm, fun _ _ => rfl⟩
    unfold OpenFile.writeAtInt
    rw [h.length, if_pos hreq]
    rfl
  · obtain ⟨k, rfl⟩ : ∃ k : Nat, numBytes = k := ⟨numBytes.toNat, by omega⟩
    obtain ⟨p, rfl⟩ : ∃ p : Nat, position = p := ⟨position.toNat, by omega⟩
    rw [Int.toNat_natCast, Int.toNat_natCast]
    have hk : 0 < k := by omega
    have hp : p < len := by omega
    obtain ⟨d', hrun, hbytes, hrest, hother⟩ := writeAt_bytes h buf buf' buf'' src hk hp d
    refine ⟨d', ?_, fun j hj => ?_, hother⟩
    · rw [OpenFile.writeAtInt_eq h (by omega) (by omega) (by omega), bind_eq_of_ok hrun]
      rfl
    · by_cases hin : p ≤ j ∧ j < p + min k (len - p)
      · rw [if_pos hin, ← hbytes (j - p) (by omega), Nat.add_sub_cancel' hin.1]
      · rw [if_neg hin, hrest j hj (by omega)]

end Requests

/-! ## Opening, listing and starting again -/

namespace FsInv

variable {s : FsState} (h : FsInv s)
include h

/-- **The file system is found again on its disk.** -/
theorem load_ok : FileSystem.load s.disk = .ok s.fs s.disk := by
  have hmap : OpenFile.new freeMapSector s.disk = .ok s.fs.freeMapFile s.disk := by
    have hopen : OpenFile.new freeMapSector s.disk = .ok ⟨header s.disk 0⟩ s.disk :=
      bind_eq_of_ok (fetchFrom_ok (n := 0) (by decide) s.disk)
    rw [hopen, ← h.mapHdr]
  have hdir : OpenFile.new directorySector s.disk = .ok s.fs.directoryFile s.disk := by
    have hopen : OpenFile.new directorySector s.disk = .ok ⟨header s.disk 1⟩ s.disk :=
      bind_eq_of_ok (fetchFrom_ok (n := 1) (by decide) s.disk)
    rw [hopen, ← h.dirHdr]
  unfold FileSystem.load
  rw [bind_eq_of_ok hmap, bind_eq_of_ok hdir]
  rfl

theorem open_cases (f : Fresh) (name : List UInt8) :
    (s.fs.openFile f name s.disk = .ok none s.disk
      ∧ ∀ i, Used s.disk i → (entryAt s.disk i).fileName ≠ key name)
    ∨ ∃ i, s.fs.openFile f name s.disk = .ok (some ⟨⟨fileHdr s.disk i⟩, 0⟩) s.disk
        ∧ Used s.disk i ∧ (entryAt s.disk i).fileName = key name := by
  obtain ⟨dir, hfetch, hshows⟩ := fetchDirectory_ok (Directory.new numDirEntries f.table)
    h.dirSound h.dirHdr rfl (f.buf 0)
  unfold FileSystem.openFile
  rw [bind_eq_of_ok hfetch]
  rcases h.find_cases hshows name with ⟨hfind, hnone⟩ | ⟨i, hi, hindex, hu, hfind, hlt⟩
  · rw [if_neg (by rw [hfind]; omega)]
    refine .inl ⟨rfl, fun i hi he => ?_⟩
    obtain ⟨hused, hsame⟩ := shows_used hshows hi.1
    exact hnone i hi.1 (hused.mpr hi) (hsame.trans he)
  · have hopen : OpenFile.new ((entryAt s.disk i).sector.toNat : Int) s.disk =
        .ok ⟨fileHdr s.disk i⟩ s.disk := bind_eq_of_ok (fetchFrom_ok hlt s.disk)
    rw [if_pos (by rw [hfind]; omega), hfind, bind_eq_of_ok hopen]
    refine .inr ⟨i, rfl, ⟨hi, hu⟩, ?_⟩
    rcases findIndex_cases dir name with ⟨hnot, _⟩ | ⟨m, hm, hm', _, hname⟩
    · rw [hindex] at hnot
      exact absurd hnot (by omega)
    · rw [hindex] at hm'
      obtain rfl : i = m := by omega
      exact (shows_used hshows hi).2.symm.trans hname

end FsInv

/-- A string that ends before the `n` characters are over is the same however far one looks. -/
theorem takeWhile_cstrFrom (s : Nat → UInt8) :
    ∀ (n i m : Nat), (cstrFrom s n i).length < n → n ≤ m →
    0 ∈ (List.range m).map (fun j => s (i + j))
      ∧ ((List.range m).map fun j => s (i + j)).takeWhile (· ≠ 0) = cstrFrom s n i := by
  intro n
  induction n with
  | zero => intro i m h _; exact absurd h (by simp)
  | succ n ih =>
      intro i m h hm
      obtain ⟨m, rfl⟩ : ∃ m', m = m' + 1 := ⟨m - 1, by omega⟩
      have hcons : (List.range (m + 1)).map (fun j => s (i + j)) =
          s i :: (List.range m).map fun j => s (i + 1 + j) := by
        rw [List.range_succ_eq_map, List.map_cons, List.map_map, Nat.add_zero]
        congr 1
        refine List.map_congr_left fun j _ => ?_
        rw [Function.comp_apply, Nat.succ_eq_add_one, Nat.add_assoc, Nat.add_comm 1 j]
      rw [hcons]
      unfold cstrFrom at h ⊢
      by_cases h0 : s i = 0
      · rw [if_pos h0, h0]
        exact ⟨List.mem_cons_self, rfl⟩
      · rw [if_neg h0] at h ⊢
        obtain ⟨hmem, heq⟩ := ih (i + 1) m (by simpa using h) (by omega)
        refine ⟨List.mem_cons_of_mem _ hmem, ?_⟩
        rw [List.takeWhile_cons_of_pos (by simpa using h0), heq]

/-- **A name of less than nine characters is printed as it is.** -/
theorem printed_ok {dir : Directory} {d : Disk} (hshows : dir.Shows d) {i : Nat}
    (hi : i < numDirEntries) (hshort : (entryAt d i).fileName.length < fileNameMaxLen) :
    dir.printed i d = .ok (entryAt d i).fileName d := by
  have hname : cstrFrom (fun j => dir.bytes (entrySize * i + 8 + j)) fileNameMaxLen 0 =
      (entryAt d i).fileName := by
    rw [← (shows_used hshows hi).2]
    refine cstrFrom_congr _ _ fun j hj => ?_
    have hdiv : (entrySize * i + 8 + (0 + j)) / entrySize = i := by
      simp only [entrySize, fileNameMaxLen] at hj ⊢
      omega
    have hmod : (entrySize * i + 8 + (0 + j)) % entrySize = 8 + j := by
      simp only [entrySize, fileNameMaxLen] at hj ⊢
      omega
    simp only [fileNameMaxLen] at hj
    rw [Directory.bytes, hdiv, hmod, DirectoryEntry.bytes, if_neg (by omega), if_neg (by omega),
      if_neg (by omega), if_pos (by omega), Nat.add_sub_cancel_left, Nat.zero_add]
  have hroom : fileNameMaxLen ≤ dir.tableSize * entrySize - (entrySize * i + 8) := by
    rw [hshows.1]
    simp only [fileNameMaxLen, numDirEntries, entrySize] at hi ⊢
    omega
  obtain ⟨hmem, htake⟩ := takeWhile_cstrFrom (fun j => dir.bytes (entrySize * i + 8 + j))
    fileNameMaxLen 0 _ (by rw [hname]; exact hshort) hroom
  simp only [Nat.zero_add] at hmem htake
  unfold Directory.printed
  rw [if_pos hmem, htake, hname]
  rfl

theorem listFrom_ok {dir : Directory} {d : Disk} (hshows : dir.Shows d)
    (hshort : ∀ i, Used d i → (entryAt d i).fileName.length < fileNameMaxLen) :
    ∀ (k i : Nat), i + k = numDirEntries →
      dir.listFrom k i d = .ok (((List.range' i k).filter fun j => (entryAt d j).inUse).map
        fun j => (entryAt d j).fileName) d := by
  intro k
  induction k with
  | zero => intro i _; rfl
  | succ k ih =>
      intro i hi
      have hlt : i < numDirEntries := by omega
      rw [List.range'_succ, Directory.listFrom]
      by_cases hu : Used d i
      · rw [if_pos ((shows_used hshows hlt).1.mpr hu),
          bind_eq_of_ok (printed_ok hshows hlt (hshort i hu)),
          bind_eq_of_ok (ih (i + 1) (by omega)),
          List.filter_cons_of_pos (p := fun j => (entryAt d j).inUse) hu.2, List.map_cons]
        rfl
      · rw [if_neg fun hin => hu ((shows_used hshows hlt).1.mp hin), ih (i + 1) (by omega),
          List.filter_cons_of_neg (p := fun j => (entryAt d j).inUse) fun hin => hu ⟨hlt, hin⟩]

/-- **`List` prints each name once.** -/
theorem FsInv.list_ok {s : FsState} (h : FsInv s) (f : Fresh)
    (hshort : ∀ i, Used s.disk i → (entryAt s.disk i).fileName.length < fileNameMaxLen) :
    ∃ l : List (List UInt8), s.fs.list f s.disk = .ok l s.disk ∧ l.Nodup ∧
      ∀ k, k ∈ l ↔ ∃ i, Used s.disk i ∧ (entryAt s.disk i).fileName = k := by
  obtain ⟨dir, hfetch, hshows⟩ := fetchDirectory_ok (Directory.new numDirEntries f.table)
    h.dirSound h.dirHdr rfl (f.buf 0)
  have hlist := listFrom_ok hshows hshort numDirEntries 0 (Nat.zero_add _)
  rw [← List.range_eq_range'] at hlist
  have hmem : ∀ i, i ∈ (List.range numDirEntries).filter (fun j => (entryAt s.disk j).inUse) ↔
      Used s.disk i := fun i => by
    rw [List.mem_filter, List.mem_range]
    rfl
  refine ⟨((List.range numDirEntries).filter fun j => (entryAt s.disk j).inUse).map fun j =>
    (entryAt s.disk j).fileName, ?_, ?_, fun k => ?_⟩
  · unfold FileSystem.list Directory.list
    rw [bind_eq_of_ok hfetch, hshows.1]
    exact hlist
  · refine List.Nodup.map_on (fun i hi j hj he => ?_) (List.nodup_range.filter _)
    have hi' := (hmem i).mp hi
    have hj' := (hmem j).mp hj
    exact h.consistent.names i j hi'.1 hj'.1 hi'.2 hj'.2 he
  · rw [List.mem_map]
    exact exists_congr fun i => and_congr_left fun _ => hmem i

/-! ## Which store a volume is -/

/-- The file in entry `i` has these `len` bytes. -/
structure Holds (d : Disk) (i len : Nat) (c : Nat → UInt8) : Prop where
  length : (fileHdr d i).fileLength = len
  le : len ≤ maxFileSize
  count : (fileHdr d i).count = divRoundUp len sectorSize
  bytes : ∀ k, k < len → (fileHdr d i).byte d k = c k

/-- **The volume is this store.** Every file is in an entry under its name. -/
structure Represents (v : Volume) (S : Store) : Prop where
  inv : FsInv ⟨v.fs, v.disk⟩
  names : ∀ k, k ∈ S.names ↔ ∃ i, Used v.disk i ∧ (entryAt v.disk i).fileName = k
  files : ∀ i, Used v.disk i →
    Holds v.disk i (S.length (entryAt v.disk i).fileName) (S.elem (entryAt v.disk i).fileName)
  handles : ∀ h k p, S.opened h = some (k, p) → p < 2147483648 ∧ ∃ i, Used v.disk i ∧
    (entryAt v.disk i).fileName = k ∧ v.opened h = some ⟨⟨fileHdr v.disk i⟩, p⟩

theorem lt_count {len i : Nat} (h : i * sectorSize < len) : i < divRoundUp len sectorSize := by
  have hlt : i * 128 < len := h
  show i < len / 128 + if len % 128 > 0 then 1 else 0
  split <;> omega

/-- The file is sound, because it has its sectors for itself. -/
theorem Holds.sound {s : FsState} {i len : Nat} {c : Nat → UInt8} (h : Holds s.disk i len c)
    (hI : FsInv s) (hi : Used s.disk i) : (fileHdr s.disk i).Sound len :=
  sound_of_owned hI.consistent.marked (freeMap_numBits _) (fun _ _ he => (Part.data.inj he).2)
    (fun _ => if_pos hi) h.length h.le fun _ hj => Nat.lt_of_lt_of_eq (lt_count hj) h.count.symm

theorem Holds.congr {d d' : Disk} {i len : Nat} {c c' : Nat → UInt8} (h : Holds d i len c)
    (hi : Used d i) (hsame : SameFile d d' i) (hc : ∀ k, k < len → c' k = c k) :
    Holds d' i len c' := by
  have hhdr := hsame.header hi
  refine ⟨by rw [hhdr, h.length], h.le, by rw [hhdr, h.count], fun k hk => ?_⟩
  have hdiv : k / sectorSize * sectorSize < len :=
    Nat.lt_of_le_of_lt (Nat.div_mul_le_self _ _) hk
  have hsec := hsame.data hi (k / sectorSize) (by rw [h.count]; exact lt_count hdiv)
  rw [hhdr, FileHeader.byte, hsec, hc k hk]
  exact h.bytes k hk

namespace Represents

variable {v : Volume} {S : Store} (h : Represents v S)
include h

theorem mem {i : Nat} (hi : Used v.disk i) : (entryAt v.disk i).fileName ∈ S.names :=
  (h.names _).mpr ⟨i, hi, rfl⟩

/-- Two files in the directory have different names. -/
theorem entry_unique {i j : Nat} (hi : Used v.disk i) (hj : Used v.disk j)
    (he : (entryAt v.disk i).fileName = (entryAt v.disk j).fileName) : i = j :=
  h.inv.consistent.names i j hi.1 hj.1 hi.2 hj.2 he

/-- **The store is full when the directory is.** -/
theorem card_lt_iff : S.names.card < numDirEntries ↔ ∃ i, i < numDirEntries ∧ ¬ Used v.disk i := by
  classical
  let U := (Finset.range numDirEntries).filter fun i => Used v.disk i
  have hU : ∀ i, i ∈ U ↔ Used v.disk i := fun i =>
    ⟨fun hi => (Finset.mem_filter.mp hi).2,
      fun hi => Finset.mem_filter.mpr ⟨Finset.mem_range.mpr hi.1, hi⟩⟩
  have himage : S.names = U.image fun i => (entryAt v.disk i).fileName := by
    ext k
    rw [h.names, Finset.mem_image]
    exact exists_congr fun i => and_congr_left fun _ => (hU i).symm
  have hcard : S.names.card = U.card := by
    rw [himage]
    refine Finset.card_image_of_injOn fun i hi j hj he => ?_
    exact h.entry_unique ((hU i).mp hi) ((hU j).mp hj) he
  have hsub : U ⊆ Finset.range numDirEntries := Finset.filter_subset _ _
  rw [hcard]
  constructor
  · intro hlt
    by_contra hall
    have hfull : Finset.range numDirEntries ⊆ U := fun i hi => by
      by_contra hnot
      exact hall ⟨i, Finset.mem_range.mp hi, fun hu => hnot ((hU i).mpr hu)⟩
    have hle := Finset.card_le_card hfull
    rw [Finset.card_range] at hle
    omega
  · rintro ⟨i, hi, hfree⟩
    have hlt := Finset.card_lt_card ((Finset.ssubset_iff_of_subset hsub).mpr
      ⟨i, Finset.mem_range.mpr hi, fun hu => hfree ((hU i).mp hu)⟩)
    rwa [Finset.card_range] at hlt

/-- Nothing has happened to the files. -/
theorem of_same {d' : Disk} (hI : FsInv ⟨v.fs, d'⟩)
    (hsame : ∀ m, m < numDirEntries → SameFile v.disk d' m) :
    Represents { v with disk := d' } S := by
  refine ⟨hI, fun k => ?_, fun i hi => ?_, fun g k p hg => ?_⟩
  · rw [h.names]
    constructor
    · rintro ⟨i, hi, hk⟩
      exact ⟨i, (hsame i hi.1).used.mpr hi, (hsame i hi.1).name.trans hk⟩
    · rintro ⟨i, hi, hk⟩
      exact ⟨i, (hsame i hi.1).used.mp hi, (hsame i hi.1).name.symm.trans hk⟩
  · have hi' := (hsame i hi.1).used.mp hi
    rw [show (entryAt d' i).fileName = (entryAt v.disk i).fileName from (hsame i hi.1).name]
    exact (h.files i hi').congr hi' (hsame i hi.1) fun _ _ => rfl
  · obtain ⟨hp, i, hi, hk, ho⟩ := h.handles g k p hg
    refine ⟨hp, i, (hsame i hi.1).used.mpr hi, (hsame i hi.1).name.trans hk, ?_⟩
    rw [show fileHdr d' i = fileHdr v.disk i from (hsame i hi.1).header hi]
    exact ho

end Represents

/-! ## Calls -/

/-- What a call asks of the store. -/
def Request.op : Request → FileStore.Op (List UInt8) Nat UInt8
  | .create _ name initialSize => .create (key name) initialSize.toNat
  | .remove _ name => .remove (key name)
  | .list _ => .list
  | .openFile h _ name => .openAs h (key name)
  | .close h => .close h
  | .seek h position => .seek h position.toNat
  | .length h => .length h
  | .read h _ _ numBytes => .read h numBytes.toNat
  | .readAt h _ _ numBytes position => .readAt h numBytes.toNat position.toNat
  | .write h _ _ _ src numBytes => .write h src numBytes.toNat
  | .writeAt h _ _ _ src numBytes position => .writeAt h src numBytes.toNat position.toNat
  | .restart => .restart

/-- The buffer that the caller gives to be read into. -/
def Request.into : Request → Nat → UInt8
  | .read _ _ into _ => into
  | .readAt _ _ into _ _ => into
  | _ => fun _ => 0

/-- The answer to a call is this reply. Behind what was read the buffer is as it was. -/
inductive Says (c : Request) : Answer → FileStore.Reply (List UInt8) UInt8 → Prop where
  | done : Says c .done .done
  | flag (b : Bool) : Says c (.flag b) (.flag b)
  | count (n : Nat) : Says c (.count n) (.count n)
  | bytes (n : Nat) {into : Nat → UInt8} : (∀ j, n ≤ j → into j = c.into j) →
      Says c (.bytes n into) (.elems ((List.range n).map into))
  | lines (l : List (List UInt8)) : Says c (.lines l) (.names l)

/-- What a call answers and does, on the store. -/
def Spec (S : Store) (c : Request) (a : Answer) (T : Store) : Prop :=
  ∃ r, Says c a r ∧ FileStore.Step numDirEntries S c.op r T

/-- **What the callers have to keep to**: a file is no larger than a header can hold, what is used
as a handle is one, no position is negative, and no sum of a position and a length passes the
largest `int`. `List` prints names of nine characters only by luck: the tenth byte is never set. -/
def Permitted (S : Store) : Request → Prop
  | .create _ _ initialSize => 0 ≤ initialSize ∧ initialSize ≤ maxFileSize
  | .list _ => ∀ k ∈ S.names, k.length < fileNameMaxLen
  | .seek h position => (∃ k p, S.opened h = some (k, p)) ∧ 0 ≤ position ∧ position < 2147483648
  | .length h => ∃ k p, S.opened h = some (k, p)
  | .read h _ _ numBytes => ∃ k p, S.opened h = some (k, p) ∧ p + numBytes < 2147483648
  | .write h _ _ _ _ numBytes => ∃ k p, S.opened h = some (k, p) ∧ p + numBytes < 2147483648
  | .readAt h _ _ numBytes position =>
      (∃ k p, S.opened h = some (k, p)) ∧ 0 ≤ position ∧ position + numBytes < 2147483648
  | .writeAt h _ _ _ _ numBytes position =>
      (∃ k p, S.opened h = some (k, p)) ∧ 0 ≤ position ∧ position + numBytes < 2147483648
  | _ => True

section Steps

variable {v : Volume} {S : Store}

theorem onDisk_ok {α : Type} {x : FileSystem → DiskM α} {a : α} {d' : Disk}
    (hx : x v.fs v.disk = .ok a d') : Volume.onDisk x v = .ok a { v with disk := d' } := by
  unfold Volume.onDisk
  rw [hx]

theorem handle_ok {h : Nat} {o : OpenHandle} (ho : v.opened h = some o) :
    Volume.handle h v = .ok o v := by
  unfold Volume.handle
  rw [ho]

/-- The position after a transfer does not wrap. -/
theorem advance_ok {S : Store} {k : List UInt8} {p n : Nat} (hp : p < 2147483648)
    (hlen : S.length k ≤ maxFileSize) (file : OpenFile) :
    OpenHandle.advance ⟨file, p⟩ (S.amount k p n : Nat) = ⟨file, (p + S.amount k p n : Nat)⟩
      ∧ p + S.amount k p n < 2147483648 := by
  have hsmall : p + S.amount k p n < 2147483648 := by
    have hmax : S.length k ≤ 3840 := hlen
    unfold FileStore.amount
    omega
  refine ⟨?_, hsmall⟩
  unfold OpenHandle.advance
  rw [← Int.natCast_add, OpenFile.toInt32_natCast hsmall]

variable (hR : Represents v S)
include hR

theorem create_refines (f : Fresh) (name : List UInt8) {size : Nat} (hsize : size ≤ maxFileSize) :
    ∃ b v' T, Volume.call (.create f name size) v = .ok (.flag b) v'
      ∧ FileStore.Step numDirEntries S (.create (key name) size) (.flag b) T ∧ Represents v' T := by
  rcases hR.inv.create_cases f name hsize with ⟨hrun, hwhy⟩ | ⟨i, d', hrun, hI, he⟩
  · refine ⟨false, v, S, ?_, .refused ?_, hR⟩
    · exact bind_eq_of_ok (onDisk_ok (x := fun fs => fs.create f name size) hrun)
    · rcases hwhy with ⟨i, hi, hname⟩ | hall
      · exact .inl (hname ▸ hR.mem hi)
      · refine .inr (Nat.le_of_not_lt fun hlt => ?_)
        obtain ⟨i, hi, hfree⟩ := hR.card_lt_iff.mp hlt
        exact hfree (hall i hi)
  · have hnew : key name ∉ S.names := fun hmem => by
      obtain ⟨m, hm, hname⟩ := (hR.names _).mp hmem
      exact he.new m hm hname
    refine ⟨true, { v with disk := d' }, S.add (key name) size ((fileHdr d' i).byte d'), ?_,
      .created _ hnew (hR.card_lt_iff.mpr ⟨i, he.index, he.free⟩), ?_⟩
    · exact bind_eq_of_ok (onDisk_ok (x := fun fs => fs.create f name size) hrun)
    -- the other files are the same, and have other names
    have hold : ∀ m, Used d' m → m ≠ i → Used v.disk m ∧
        (entryAt d' m).fileName = (entryAt v.disk m).fileName ∧
        (entryAt v.disk m).fileName ≠ key name := fun m hm hne => by
      have hsame := he.others m hne hm.1
      exact ⟨hsame.used.mp hm, hsame.name, he.new m (hsame.used.mp hm)⟩
    have hkeep : ∀ m, Used v.disk m → m ≠ i := fun m hm heq => he.free (heq ▸ hm)
    refine ⟨hI, fun k => ?_, fun m hm => ?_, fun g k p hg => ?_⟩
    · show k ∈ insert (key name) S.names ↔ _
      rw [Finset.mem_insert, hR.names]
      constructor
      · rintro (rfl | ⟨m, hm, hk⟩)
        · exact ⟨i, he.used, he.name⟩
        · have hsame := he.others m (hkeep m hm) hm.1
          exact ⟨m, hsame.used.mpr hm, hsame.name.trans hk⟩
      · rintro ⟨m, hm, hk⟩
        by_cases hmi : m = i
        · exact .inl (hk.symm.trans (hmi ▸ he.name))
        · obtain ⟨hm', hname, _⟩ := hold m hm hmi
          exact .inr ⟨m, hm', hname.symm.trans hk⟩
    · by_cases hmi : m = i
      · subst hmi
        show Holds d' m (upd S.length _ _ _) (upd S.elem _ _ _)
        rw [he.name, upd_self, upd_self]
        exact ⟨he.length, hsize, he.count, fun _ _ => rfl⟩
      · obtain ⟨hm', hname, hne⟩ := hold m hm hmi
        show Holds d' m (upd S.length _ _ _) (upd S.elem _ _ _)
        rw [hname, upd_ne _ _ hne, upd_ne _ _ hne]
        exact (hR.files m hm').congr hm' (he.others m hmi hm.1) fun _ _ => rfl
    · obtain ⟨hp, m, hm, hk, ho⟩ := hR.handles g k p hg
      have hsame := he.others m (hkeep m hm) hm.1
      refine ⟨hp, m, hsame.used.mpr hm, hsame.name.trans hk, ?_⟩
      rw [show fileHdr d' m = fileHdr v.disk m from hsame.header hm]
      exact ho

theorem remove_refines (f : Fresh) (name : List UInt8) :
    ∃ b v' T, Volume.call (.remove f name) v = .ok (.flag b) v'
      ∧ FileStore.Step numDirEntries S (.remove (key name)) (.flag b) T ∧ Represents v' T := by
  rcases hR.inv.remove_cases f name with ⟨hrun, hnone⟩ | ⟨i, d', hrun, hI, hd⟩
  · refine ⟨false, v, S, ?_, .absent fun hmem => ?_, hR⟩
    · exact bind_eq_of_ok (onDisk_ok (x := fun fs => fs.remove f name) hrun)
    · obtain ⟨i, hi, hname⟩ := (hR.names _).mp hmem
      exact hnone i hi hname
  · refine ⟨true, { v with disk := d' }, S.erase (key name), ?_,
      .removed (hd.name ▸ hR.mem hd.used), ?_⟩
    · exact bind_eq_of_ok (onDisk_ok (x := fun fs => fs.remove f name) hrun)
    -- what is left is another entry, with another name
    have hold : ∀ m, Used d' m → m ≠ i ∧ Used v.disk m ∧ SameFile v.disk d' m := fun m hm => by
      have hne : m ≠ i := fun heq => hd.gone (heq ▸ hm)
      have hsame := hd.others m hne hm.1
      exact ⟨hne, hsame.used.mp hm, hsame⟩
    have hother : ∀ m, Used v.disk m → (entryAt v.disk m).fileName ≠ key name → m ≠ i :=
      fun m hm hne heq => hne (heq ▸ hd.name)
    refine ⟨hI, fun k => ?_, fun m hm => ?_, fun g k p hg => ?_⟩
    · show k ∈ S.names.erase (key name) ↔ _
      rw [Finset.mem_erase, hR.names]
      constructor
      · rintro ⟨hk, m, hm, rfl⟩
        have hsame := hd.others m (hother m hm hk) hm.1
        exact ⟨m, hsame.used.mpr hm, hsame.name⟩
      · rintro ⟨m, hm, rfl⟩
        obtain ⟨hne, hm', hsame⟩ := hold m hm
        refine ⟨fun he => hne (hR.entry_unique hm' hd.used ?_), m, hm', hsame.name.symm⟩
        rw [← hsame.name, he, hd.name]
    · obtain ⟨_, hm', hsame⟩ := hold m hm
      rw [show (entryAt d' m).fileName = (entryAt v.disk m).fileName from hsame.name]
      exact (hR.files m hm').congr hm' hsame fun _ _ => rfl
    · obtain ⟨hg', hne⟩ := Option.filter_eq_some_iff.mp hg
      obtain ⟨hp, m, hm, hk, ho⟩ := hR.handles g k p hg'
      have hsame := hd.others m (hother m hm (hk ▸ of_decide_eq_true hne)) hm.1
      refine ⟨hp, m, hsame.used.mpr hm, hsame.name.trans hk, ?_⟩
      rw [show fileHdr d' m = fileHdr v.disk m from hsame.header hm]
      exact ho

theorem list_refines (f : Fresh) (hshort : ∀ k ∈ S.names, k.length < fileNameMaxLen) :
    ∃ l, Volume.call (.list f) v = .ok (.lines l) v
      ∧ FileStore.Step numDirEntries S .list (.names l) S := by
  obtain ⟨l, hrun, hnodup, hmem⟩ := hR.inv.list_ok f fun i hi => hshort _ (hR.mem hi)
  refine ⟨l, bind_eq_of_ok (onDisk_ok (x := fun fs => fs.list f) hrun), .listed hnodup ?_⟩
  ext k
  rw [List.mem_toFinset, hmem, hR.names]

/-! ### Handles -/

theorem Represents.pointed {h : Nat} {o : Option OpenHandle} {q : Option (List UInt8 × Nat)}
    (hq : ∀ k p, q = some (k, p) → p < 2147483648 ∧ ∃ i, Used v.disk i ∧
      (entryAt v.disk i).fileName = k ∧ o = some ⟨⟨fileHdr v.disk i⟩, p⟩) :
    Represents { v with opened := upd v.opened h o } (S.point h q) := by
  refine ⟨hR.inv, hR.names, hR.files, fun g k p hg => ?_⟩
  rw [show (S.point h q).opened = upd S.opened h q from rfl, upd_apply] at hg
  show p < 2147483648 ∧ ∃ i, Used v.disk i ∧ (entryAt v.disk i).fileName = k ∧
    upd v.opened h o g = some ⟨⟨fileHdr v.disk i⟩, p⟩
  rw [upd_apply]
  by_cases hgh : g = h
  · rw [if_pos hgh] at hg ⊢
    exact hq k p hg
  · rw [if_neg hgh] at hg ⊢
    exact hR.handles g k p hg

theorem open_refines (h : Nat) (f : Fresh) (name : List UInt8) :
    ∃ b v' T, Volume.call (.openFile h f name) v = .ok (.flag b) v'
      ∧ FileStore.Step numDirEntries S (.openAs h (key name)) (.flag b) T ∧ Represents v' T := by
  rcases hR.inv.open_cases f name with ⟨hrun, hnone⟩ | ⟨i, hrun, hi, hname⟩
  · refine ⟨false, _, S.point h none, ?_, .notFound fun hmem => ?_,
      hR.pointed (o := none) fun _ _ hq => Option.noConfusion rfl (heq_of_eq hq)⟩
    · exact bind_eq_of_ok (onDisk_ok (x := fun fs => fs.openFile f name) hrun)
    · obtain ⟨i, hi, hname⟩ := (hR.names _).mp hmem
      exact hnone i hi hname
  · refine ⟨true, _, S.point h (some (key name, 0)), ?_, .found (hname ▸ hR.mem hi),
      hR.pointed (o := some ⟨⟨fileHdr v.disk i⟩, 0⟩) fun k p hq => ?_⟩
    · exact bind_eq_of_ok (onDisk_ok (x := fun fs => fs.openFile f name) hrun)
    · obtain ⟨rfl, rfl⟩ := Prod.mk.inj (Option.some.inj hq)
      exact ⟨by decide, i, hi, hname, rfl⟩

theorem close_refines (h : Nat) : ∃ v', Volume.call (.close h) v = .ok .done v'
    ∧ FileStore.Step numDirEntries S (.close h) .done (S.point h none)
    ∧ Represents v' (S.point h none) :=
  ⟨_, rfl, .closed, hR.pointed (o := none) fun _ _ hq => Option.noConfusion rfl (heq_of_eq hq)⟩

theorem seek_refines {h p : Nat} {k : List UInt8} {q : Nat} (hopen : S.opened h = some (k, q))
    (hp : p < 2147483648) : ∃ v', Volume.call (.seek h p) v = .ok .done v'
      ∧ FileStore.Step numDirEntries S (.seek h p) .done (S.point h (some (k, p)))
      ∧ Represents v' (S.point h (some (k, p))) := by
  obtain ⟨_, i, hi, hk, ho⟩ := hR.handles h k q hopen
  refine ⟨_, bind_eq_of_ok (handle_ok ho), .sought hopen, hR.pointed fun k' p' hq => ?_⟩
  obtain ⟨rfl, rfl⟩ := Prod.mk.inj (Option.some.inj hq)
  exact ⟨hp, i, hi, hk, rfl⟩

theorem length_refines {h : Nat} {k : List UInt8} {q : Nat} (hopen : S.opened h = some (k, q)) :
    Volume.call (.length h) v = .ok (.count (S.length k : Nat)) v
      ∧ FileStore.Step numDirEntries S (.length h) (.count (S.length k)) S := by
  obtain ⟨_, i, hi, rfl, ho⟩ := hR.handles h k q hopen
  refine ⟨(bind_eq_of_ok (handle_ok ho)).trans ?_, .length hopen⟩
  have hlen := (hR.files i hi).length
  show EStateM.Result.ok (Answer.count (fileHdr v.disk i).fileLength) v = _
  rw [hlen]

/-! ### Reading and writing -/

/-- What `ReadAt` through a handle gives is in the store. -/
theorem read_slice {h : Nat} {k : List UInt8} {q : Nat} (hopen : S.opened h = some (k, q))
    {numBytes position : Int} (hpos : 0 ≤ position) (hsum : position + numBytes < 2147483648)
    (buf into : Nat → UInt8) : ∃ i into', Used v.disk i ∧ (entryAt v.disk i).fileName = k
      ∧ v.opened h = some ⟨⟨fileHdr v.disk i⟩, q⟩
      ∧ OpenFile.readAtInt ⟨fileHdr v.disk i⟩ buf into numBytes position v.disk =
          .ok ((S.amount k position.toNat numBytes.toNat : Nat), into') v.disk
      ∧ (List.range (S.amount k position.toNat numBytes.toNat)).map into' =
          S.slice k position.toNat numBytes.toNat
      ∧ ∀ j, S.amount k position.toNat numBytes.toNat ≤ j → into' j = into j := by
  obtain ⟨_, i, hi, rfl, ho⟩ := hR.handles h k q hopen
  have hfile := hR.files i hi
  have hsound : (fileHdr v.disk i).Sound _ := hfile.sound (s := ⟨v.fs, v.disk⟩) hR.inv hi
  obtain ⟨into', hrun, hbytes, hrest⟩ :=
    OpenFile.readAtInt_amount ⟨fileHdr v.disk i⟩ hsound hpos hsum v.disk buf into
  refine ⟨i, into', hi, rfl, ho, hrun, List.map_congr_left fun j hj => ?_, hrest⟩
  have hj' : j < min numBytes.toNat (S.length (entryAt v.disk i).fileName - position.toNat) :=
    List.mem_range.mp hj
  rw [hbytes j hj']
  exact hfile.bytes _ (by omega)

/-- What `WriteAt` through a handle does is what is put into the store. -/
theorem write_put {h : Nat} {k : List UInt8} {q : Nat} (hopen : S.opened h = some (k, q))
    {numBytes position : Int} (hpos : 0 ≤ position) (hsum : position + numBytes < 2147483648)
    (buf buf' buf'' src : Nat → UInt8) : ∃ i d', Used v.disk i ∧ (entryAt v.disk i).fileName = k
      ∧ v.opened h = some ⟨⟨fileHdr v.disk i⟩, q⟩
      ∧ OpenFile.writeAtInt ⟨fileHdr v.disk i⟩ buf buf' buf'' src numBytes position v.disk =
          .ok (S.amount k position.toNat numBytes.toNat : Nat) d'
      ∧ Represents { v with disk := d' } (S.put k src numBytes.toNat position.toNat)
      ∧ Used d' i ∧ (entryAt d' i).fileName = k ∧ fileHdr d' i = fileHdr v.disk i := by
  obtain ⟨_, i, hi, rfl, ho⟩ := hR.handles h k q hopen
  have hfile := hR.files i hi
  have hsound : (fileHdr v.disk i).Sound _ := hfile.sound (s := ⟨v.fs, v.disk⟩) hR.inv hi
  obtain ⟨d', hrun, hbytes, hother⟩ :=
    OpenFile.writeAtInt_amount ⟨fileHdr v.disk i⟩ hsound hpos hsum v.disk buf buf' buf'' src
  have honly : OnlyData v.disk d' i := fun n hn =>
    hother n fun j hj => hn j (by rw [hfile.count]; exact lt_count hj)
  have hI : FsInv ⟨v.fs, d'⟩ := only_fsInv hR.inv hi honly
  have hhdr : ∀ m, Used v.disk m → fileHdr d' m = fileHdr v.disk m := fun m hm =>
    only_fileHdr hR.inv hi honly hm
  have hother : ∀ m, m < numDirEntries → m ≠ i → SameFile v.disk d' m := fun m hm hne =>
    only_sameFile hR.inv hi honly hm hne
  have hview : ∀ m, m < numDirEntries → (entryAt d' m).inUse = (entryAt v.disk m).inUse ∧
      (entryAt d' m).fileName = (entryAt v.disk m).fileName := fun m hm => by
    obtain ⟨hu, _, hn⟩ := view_parts (only_entries (s := ⟨v.fs, v.disk⟩) hR.inv hi honly hm)
    exact ⟨hu, hn⟩
  have hused : ∀ m, Used d' m ↔ Used v.disk m := fun m =>
    and_congr_right fun hm => by rw [(hview m hm).1]
  refine ⟨i, d', hi, rfl, ho, hrun, ⟨hI, fun k => ?_, fun m hm => ?_, fun g k p hg => ?_⟩,
    (hused i).mpr hi, (hview i hi.1).2, hhdr i hi⟩
  · show k ∈ S.names ↔ ∃ m, Used d' m ∧ (entryAt d' m).fileName = k
    rw [hR.names]
    refine exists_congr fun m => ?_
    rw [hused m]
    exact and_congr_right fun hm => by rw [(hview m hm.1).2]
  · have hm' : Used v.disk m := (hused m).mp hm
    show Holds d' m (S.length (entryAt d' m).fileName) (upd S.elem _ _ (entryAt d' m).fileName)
    rw [(hview m hm'.1).2]
    by_cases hmi : m = i
    · subst hmi
      rw [upd_self]
      refine ⟨by rw [hhdr m hm', hfile.length], hfile.le, by rw [hhdr m hm', hfile.count],
        fun j hj => ?_⟩
      rw [hhdr m hm']
      refine (hbytes j hj).trans ?_
      rw [hfile.bytes j hj]
      rfl
    · have hne : (entryAt v.disk m).fileName ≠ (entryAt v.disk i).fileName := fun he =>
        hmi (hR.entry_unique hm' hi he)
      rw [upd_ne _ _ hne]
      exact (hR.files m hm').congr hm' (hother m hm'.1 hmi) fun _ _ => rfl
  · obtain ⟨hp, m, hm, hk, ho⟩ := hR.handles g k p hg
    refine ⟨hp, m, (hused m).mpr hm, (hview m hm.1).2.trans hk, ?_⟩
    show v.opened g = some ⟨⟨fileHdr d' m⟩, p⟩
    rw [hhdr m hm]
    exact ho

theorem handle_length {h : Nat} {k : List UInt8} {q : Nat} (hopen : S.opened h = some (k, q)) :
    S.length k ≤ maxFileSize := by
  obtain ⟨_, i, hi, rfl, _⟩ := hR.handles h k q hopen
  exact (hR.files i hi).le

theorem read_refines {h : Nat} {k : List UInt8} {p : Nat} (hopen : S.opened h = some (k, p))
    {numBytes : Int} (hsum : p + numBytes < 2147483648) (buf into : Nat → UInt8) :
    ∃ into' v', Volume.call (.read h buf into numBytes) v =
        .ok (.bytes (S.amount k p numBytes.toNat : Nat) into') v'
      ∧ (List.range (S.amount k p numBytes.toNat)).map into' = S.slice k p numBytes.toNat
      ∧ (∀ j, S.amount k p numBytes.toNat ≤ j → into' j = into j)
      ∧ Represents v' (S.point h (some (k, p + S.amount k p numBytes.toNat))) := by
  obtain ⟨i, into', hi, hk, ho, hrun, hslice, hrest⟩ :=
    read_slice hR hopen (Int.natCast_nonneg p) hsum buf into
  rw [Int.toNat_natCast] at hrun hslice hrest
  obtain ⟨hadvance, hsmall⟩ := advance_ok (n := numBytes.toNat) (hR.handles h k p hopen).1
    (handle_length hR hopen) ⟨fileHdr v.disk i⟩
  have hread : OpenHandle.read ⟨⟨fileHdr v.disk i⟩, p⟩ buf into numBytes v.disk =
      .ok (((S.amount k p numBytes.toNat : Nat), into'),
        ⟨⟨fileHdr v.disk i⟩, (p + S.amount k p numBytes.toNat : Nat)⟩) v.disk := by
    unfold OpenHandle.read
    rw [bind_eq_of_ok hrun, ← hadvance]
    rfl
  refine ⟨into', _, ?_, hslice, hrest,
    hR.pointed (o := some ⟨⟨fileHdr v.disk i⟩, (p + S.amount k p numBytes.toNat : Nat)⟩)
    fun k' p' hq => ?_⟩
  · exact (bind_eq_of_ok (handle_ok ho)).trans (bind_eq_of_ok (onDisk_ok (x := fun _ => _) hread))
  · obtain ⟨rfl, rfl⟩ := Prod.mk.inj (Option.some.inj hq)
    exact ⟨hsmall, i, hi, hk, rfl⟩

theorem readAt_refines {h : Nat} {k : List UInt8} {q : Nat} (hopen : S.opened h = some (k, q))
    {numBytes position : Int} (hpos : 0 ≤ position) (hsum : position + numBytes < 2147483648)
    (buf into : Nat → UInt8) :
    ∃ into', Volume.call (.readAt h buf into numBytes position) v =
        .ok (.bytes (S.amount k position.toNat numBytes.toNat : Nat) into') v
      ∧ (List.range (S.amount k position.toNat numBytes.toNat)).map into' =
          S.slice k position.toNat numBytes.toNat
      ∧ ∀ j, S.amount k position.toNat numBytes.toNat ≤ j → into' j = into j := by
  obtain ⟨i, into', hi, hk, ho, hrun, hslice, hrest⟩ := read_slice hR hopen hpos hsum buf into
  refine ⟨into', ?_, hslice, hrest⟩
  exact (bind_eq_of_ok (handle_ok ho)).trans (bind_eq_of_ok (onDisk_ok (x := fun _ => _) hrun))

theorem write_refines {h : Nat} {k : List UInt8} {p : Nat} (hopen : S.opened h = some (k, p))
    {numBytes : Int} (hsum : p + numBytes < 2147483648) (buf buf' buf'' src : Nat → UInt8) :
    ∃ v', Volume.call (.write h buf buf' buf'' src numBytes) v =
        .ok (.count (S.amount k p numBytes.toNat : Nat)) v'
      ∧ Represents v' ((S.put k src numBytes.toNat p).point h
        (some (k, p + S.amount k p numBytes.toNat))) := by
  obtain ⟨i, d', hi, hk, ho, hrun, hR', hi', hk', hhdr⟩ :=
    write_put hR hopen (Int.natCast_nonneg p) hsum buf buf' buf'' src
  rw [Int.toNat_natCast] at hrun hR'
  obtain ⟨hadvance, hsmall⟩ := advance_ok (n := numBytes.toNat) (hR.handles h k p hopen).1
    (handle_length hR hopen) ⟨fileHdr v.disk i⟩
  have hwrite : OpenHandle.write ⟨⟨fileHdr v.disk i⟩, p⟩ buf buf' buf'' src numBytes v.disk =
      .ok ((S.amount k p numBytes.toNat : Nat),
        ⟨⟨fileHdr v.disk i⟩, (p + S.amount k p numBytes.toNat : Nat)⟩) d' := by
    unfold OpenHandle.write
    rw [bind_eq_of_ok hrun, ← hadvance]
    rfl
  refine ⟨_, ?_,
    hR'.pointed (o := some ⟨⟨fileHdr v.disk i⟩, (p + S.amount k p numBytes.toNat : Nat)⟩)
    fun k' p' hq => ?_⟩
  · exact (bind_eq_of_ok (handle_ok ho)).trans (bind_eq_of_ok (onDisk_ok (x := fun _ => _) hwrite))
  · obtain ⟨rfl, rfl⟩ := Prod.mk.inj (Option.some.inj hq)
    exact ⟨hsmall, i, hi', hk', by rw [hhdr]⟩

theorem writeAt_refines {h : Nat} {k : List UInt8} {q : Nat} (hopen : S.opened h = some (k, q))
    {numBytes position : Int} (hpos : 0 ≤ position) (hsum : position + numBytes < 2147483648)
    (buf buf' buf'' src : Nat → UInt8) :
    ∃ v', Volume.call (.writeAt h buf buf' buf'' src numBytes position) v =
        .ok (.count (S.amount k position.toNat numBytes.toNat : Nat)) v'
      ∧ Represents v' (S.put k src numBytes.toNat position.toNat) := by
  obtain ⟨i, d', _, _, ho, hrun, hR', _⟩ := write_put hR hopen hpos hsum buf buf' buf'' src
  refine ⟨_, ?_, hR'⟩
  exact (bind_eq_of_ok (handle_ok ho)).trans (bind_eq_of_ok (onDisk_ok (x := fun _ => _) hrun))

theorem restart_refines : ∃ v', Volume.call .restart v = .ok .done v' ∧
    Represents v' S.closeAll := by
  have hload : FileSystem.load v.disk = .ok v.fs v.disk := hR.inv.load_ok
  have hrun : Volume.restart v = .ok () ⟨v.fs, v.disk, fun _ => none⟩ := by
    unfold Volume.restart
    rw [hload]
  exact ⟨_, bind_eq_of_ok hrun, hR.inv, hR.names, hR.files,
    fun _ _ _ hg => absurd hg (by simp [FileStore.closeAll])⟩

/-- **One call.** -/
theorem call_refines {c : Request} (hc : Permitted S c) :
    ∃ a v' T, Volume.call c v = .ok a v' ∧ Spec S c a T ∧ Represents v' T := by
  cases c with
  | create f name initialSize =>
      obtain ⟨size, rfl⟩ := Int.eq_ofNat_of_zero_le hc.1
      have hsize : size ≤ maxFileSize := Int.ofNat_le.mp hc.2
      obtain ⟨b, v', T, hrun, hstep, hR'⟩ := create_refines hR f name hsize
      exact ⟨_, v', T, hrun, ⟨_, .flag b, hstep⟩, hR'⟩
  | remove f name =>
      obtain ⟨b, v', T, hrun, hstep, hR'⟩ := remove_refines hR f name
      exact ⟨_, v', T, hrun, ⟨_, .flag b, hstep⟩, hR'⟩
  | list f =>
      obtain ⟨l, hrun, hstep⟩ := list_refines hR f hc
      exact ⟨_, v, S, hrun, ⟨_, .lines l, hstep⟩, hR⟩
  | openFile h f name =>
      obtain ⟨b, v', T, hrun, hstep, hR'⟩ := open_refines hR h f name
      exact ⟨_, v', T, hrun, ⟨_, .flag b, hstep⟩, hR'⟩
  | close h =>
      obtain ⟨v', hrun, hstep, hR'⟩ := close_refines hR h
      exact ⟨_, v', _, hrun, ⟨_, .done, hstep⟩, hR'⟩
  | seek h position =>
      obtain ⟨⟨k, q, hopen⟩, h0, hlt⟩ := hc
      obtain ⟨p, rfl⟩ := Int.eq_ofNat_of_zero_le h0
      obtain ⟨v', hrun, hstep, hR'⟩ := seek_refines hR hopen (p := p) (by omega)
      exact ⟨_, v', _, hrun, ⟨_, .done, hstep⟩, hR'⟩
  | length h =>
      obtain ⟨k, q, hopen⟩ := hc
      obtain ⟨hrun, hstep⟩ := length_refines hR hopen
      exact ⟨_, v, S, hrun, ⟨_, .count _, hstep⟩, hR⟩
  | read h buf into numBytes =>
      obtain ⟨k, p, hopen, hsum⟩ := hc
      obtain ⟨into', v', hrun, hslice, hrest, hR'⟩ := read_refines hR hopen hsum buf into
      refine ⟨_, v', _, hrun, ⟨_, .bytes _ hrest, ?_⟩, hR'⟩
      rw [hslice]
      exact .read hopen
  | readAt h buf into numBytes position =>
      obtain ⟨⟨k, q, hopen⟩, h0, hsum⟩ := hc
      obtain ⟨into', hrun, hslice, hrest⟩ := readAt_refines hR hopen h0 hsum buf into
      refine ⟨_, v, S, hrun, ⟨_, .bytes _ hrest, ?_⟩, hR⟩
      rw [hslice]
      exact .readAt hopen
  | write h buf buf' buf'' src numBytes =>
      obtain ⟨k, p, hopen, hsum⟩ := hc
      obtain ⟨v', hrun, hR'⟩ := write_refines hR hopen hsum buf buf' buf'' src
      exact ⟨_, v', _, hrun, ⟨_, .count _, .write hopen⟩, hR'⟩
  | writeAt h buf buf' buf'' src numBytes position =>
      obtain ⟨⟨k, q, hopen⟩, h0, hsum⟩ := hc
      obtain ⟨v', hrun, hR'⟩ := writeAt_refines hR hopen h0 hsum buf buf' buf'' src
      exact ⟨_, v', _, hrun, ⟨_, .count _, .writeAt hopen⟩, hR'⟩
  | restart =>
      obtain ⟨v', hrun, hR'⟩ := restart_refines hR
      exact ⟨_, v', _, hrun, ⟨_, .done, .restarted⟩, hR'⟩

end Steps

/-! ## Runs -/

/-- No entry is in use after formatting: the empty directory is what is written last. -/
theorem format_unused {f : Fresh} {d : Disk} {fs : FileSystem} {d' : Disk}
    (h : FileSystem.format f d = .ok fs d') (hI : FsInv ⟨fs, d'⟩) (i : Nat) : ¬ Used d' i := by
  unfold FileSystem.format at h
  obtain ⟨_, _, _, h⟩ := bind_ok h
  obtain ⟨_, _, _, h⟩ := bind_ok h
  obtain ⟨_, _, _, h⟩ := bind_ok h
  obtain ⟨_, _, _, h⟩ := bind_ok h
  obtain ⟨_, _, _, h⟩ := bind_ok h
  obtain ⟨_, _, _, h⟩ := bind_ok h
  obtain ⟨_, _, _, h⟩ := bind_ok h
  obtain ⟨directoryFile, _, _, h⟩ := bind_ok h
  obtain ⟨_, d₃, _, h⟩ := bind_ok h
  obtain ⟨_, d₄, hwrite, h⟩ := bind_ok h
  injection h with hfs hd
  subst hfs hd
  have hsize : (Directory.new numDirEntries f.table).tableSize = numDirEntries := rfl
  obtain ⟨d₅, hwrite', hviews, _⟩ :=
    writeDirectory_ok hI.dirSound hsize (f.buf 3) (f.buf 4) (f.buf 5) d₃
  rw [hwrite] at hwrite'
  injection hwrite' with _ hd
  subst hd
  rintro ⟨hi, hu⟩
  have hview := hviews i hi
  rw [show directoryFile.hdr = header d₄ 1 from hI.dirHdr] at hview
  have hunused : (entryAt d₄ i).inUse = false := (view_parts hview).1
  rw [hunused] at hu
  exact Bool.noConfusion hu

/-- A disk that was just formatted. -/
theorem format_represents (f : Fresh) (d : Disk) : ∃ fs d', FileSystem.format f d = .ok fs d' ∧
    Represents ⟨fs, d', fun _ => none⟩ FileStore.empty := by
  obtain ⟨fs, d', hrun, hI⟩ := format_ok f d
  have hnone := format_unused hrun hI
  refine ⟨fs, d', hrun, hI, fun k => ?_, fun i hi => absurd hi (hnone i), fun _ _ _ hg => ?_⟩
  · constructor
    · intro hk
      exact absurd hk (Finset.notMem_empty k)
    · rintro ⟨i, hi, _⟩
      exact absurd hi (hnone i)
  · exact absurd hg (by simp [FileStore.empty])

/-- **The file system is a store of files.** A disk can be formatted, and then whatever calls are
made, of any length and in any order and with restarts between them: as long as each is permitted
where it is made, all of them return, and they answer as a store does that was empty at first. -/
theorem volume_refines_store (f : Fresh) (d : Disk) : ∃ fs d', FileSystem.format f d = .ok fs d' ∧
    ∀ cs : List Request, Allowed Spec Permitted FileStore.empty cs →
      ∃ answers v S, runCalls Volume.call cs ⟨fs, d', fun _ => none⟩ = .ok answers v
        ∧ History Spec FileStore.empty cs answers S ∧ Represents v S := by
  obtain ⟨fs, d', hrun, hR⟩ := format_represents f d
  have hstep : ∀ v S c, Represents v S → Permitted S c →
      ∃ a v' T, Volume.call c v = .ok a v' ∧ Spec S c a T ∧ Represents v' T :=
    fun _ _ _ hR hc => call_refines hR hc
  exact ⟨fs, d', hrun, fun cs hcs => Base.runCalls_refines hstep cs hR hcs⟩

/-- A file of 300 bytes is created, opened and written across two of its sectors, and read after a
restart. -/
def writeThenRead : List Request :=
  [.create zeros [97] 300, .openFile 0 zeros [97],
    .writeAt 0 (fun _ => 0) (fun _ => 0) (fun _ => 0) (fun _ => 7) 10 125, .restart,
    .openFile 1 zeros [97], .readAt 1 (fun _ => 0) (fun _ => 0) 10 125]

theorem writeThenRead_allowed : Allowed Spec Permitted FileStore.empty writeThenRead := by
  -- the file is there after every call, so each `Open` finds it
  have hfound : ∀ {S T : Store} {h : Nat} {a : Answer}, key [97] ∈ S.names →
      Spec S (.openFile h zeros [97]) a T → T = S.point h (some (key [97], 0)) := by
    rintro S T h a hin ⟨r, _, hstep⟩
    cases hstep with
    | found _ => rfl
    | notFound hnone => exact absurd hin hnone
  refine .cons ⟨by decide, by decide⟩ fun a S ⟨r, _, hstep⟩ => ?_
  have hin : key [97] ∈ S.names := by
    cases hstep with
    | created c _ _ => exact Finset.mem_insert_self _ _
    | refused hwhy =>
        rcases hwhy with hmem | hfull
        · exact absurd hmem (Finset.notMem_empty _)
        · exact absurd hfull (by decide)
  refine .cons trivial fun a T hopen => ?_
  obtain rfl := hfound hin hopen
  refine .cons ⟨⟨key [97], 0, FileStore.opened_point _ _ _⟩, by decide, by decide⟩
    fun a T ⟨r, _, hstep⟩ => ?_
  have hin' : key [97] ∈ T.names := by
    cases hstep with
    | writeAt _ => exact hin
  refine .cons trivial fun a U ⟨r, _, hstep⟩ => ?_
  have hin'' : key [97] ∈ U.names := by
    cases hstep with
    | restarted => exact hin'
  refine .cons trivial fun a V hopen => ?_
  obtain rfl := hfound hin'' hopen
  exact .cons ⟨⟨key [97], 0, FileStore.opened_point _ _ _⟩, by decide,
    by decide⟩ fun _ _ _ => .nil _

theorem volume_refines_store_writeThenRead :
    ∃ fs d', FileSystem.format zeros (fun _ _ => 0) = .ok fs d' ∧
      ∃ answers v S, runCalls Volume.call writeThenRead ⟨fs, d', fun _ => none⟩ = .ok answers v
        ∧ History Spec FileStore.empty writeThenRead answers S ∧ Represents v S := by
  obtain ⟨fs, d', hrun, hall⟩ := volume_refines_store zeros fun _ _ => 0
  exact ⟨fs, d', hrun, hall writeThenRead writeThenRead_allowed⟩

/-! ## What happens to other files -/

/-- A part of a file is read through a handle of its own. -/
def openAndRead (h : Nat) (f : Fresh) (name : List UInt8) (buf into : Nat → UInt8)
    (numBytes position : Int) : List Request :=
  [.openFile h f name, .readAt h buf into numBytes position]

/-- What such a read answers is a matter of the length of the file and of its bytes. -/
theorem openAndRead_ok {v : Volume} {S : Store} (hR : Represents v S) {name : List UInt8}
    (hk : key name ∈ S.names) (h : Nat) (f : Fresh) (buf into : Nat → UInt8)
    {numBytes position : Int} (hpos : 0 ≤ position) (hsum : position + numBytes < 2147483648) :
    ∃ n into' w, runCalls Volume.call (openAndRead h f name buf into numBytes position) v =
        .ok [.flag true, .bytes (n : Nat) into'] w
      ∧ n = S.amount (key name) position.toNat numBytes.toNat
      ∧ (List.range n).map into' = S.slice (key name) position.toNat numBytes.toNat
      ∧ ∀ j, n ≤ j → into' j = into j := by
  obtain ⟨b, w, T, hopen, hstep, hT⟩ := open_refines hR h f name
  cases hstep with
  | notFound hnone => exact absurd hk hnone
  | found _ =>
      obtain ⟨into', hread, hslice, hrest⟩ :=
        readAt_refines hT (FileStore.opened_point S h (some (key name, 0))) hpos hsum buf into
      exact ⟨_, into', w, Base.runCalls_cons hopen (Base.runCalls_cons hread rfl), rfl,
        hslice, hrest⟩

/-- **A file keeps what is in it.** Other files are created, written and removed, files are opened
and closed, and the machine is started again: as long as the file itself is neither written nor
removed, every part of it reads as it did before. -/
theorem untouched_file_kept {v : Volume} {S : Store} (hR : Represents v S) {name : List UInt8}
    (hk : key name ∈ S.names) (cs : List Request)
    (hcs : Allowed Spec (fun T c => Permitted T c ∧ ¬ T.Touches (key name) c.op) S cs) :
    ∃ answers v', runCalls Volume.call cs v = .ok answers v' ∧
      ∀ (h : Nat) (f : Fresh) (buf into : Nat → UInt8) (numBytes position : Int), 0 ≤ position →
        position + numBytes < 2147483648 → ∃ answer w w',
          runCalls Volume.call (openAndRead h f name buf into numBytes position) v =
              .ok [.flag true, answer] w
          ∧ runCalls Volume.call (openAndRead h f name buf into numBytes position) v' =
              .ok [.flag true, answer] w' := by
  have hstep : ∀ v T c, (Represents v T ∧ FileStore.Same (key name) S T) →
      (Permitted T c ∧ ¬ T.Touches (key name) c.op) → ∃ a v' U, Volume.call c v = .ok a v' ∧
        Spec T c a U ∧ Represents v' U ∧ FileStore.Same (key name) S U := by
    rintro v T c ⟨hT, hsame⟩ ⟨hc, hspare⟩
    obtain ⟨a, v', U, hrun, hspec, hU⟩ := call_refines hT hc
    obtain ⟨r, _, hmove⟩ := id hspec
    exact ⟨a, v', U, hrun, hspec, hU, hsame.trans (hmove.same hsame.mem hspare)⟩
  obtain ⟨answers, v', T, hrun, _, hT, hsame⟩ :=
    Base.runCalls_refines hstep cs ⟨hR, hk, rfl, rfl⟩ hcs
  refine ⟨answers, v', hrun, fun h f buf into numBytes position hpos hsum => ?_⟩
  obtain ⟨n, into₁, w, hread, hn, hslice, hrest⟩ := openAndRead_ok hR hk h f buf into hpos hsum
  obtain ⟨m, into₂, w', hread', hm, hslice', hrest'⟩ :=
    openAndRead_ok hT hsame.mem h f buf into hpos hsum
  have hnm : m = n := by
    rw [hm, hn, FileStore.amount, FileStore.amount, hsame.length]
  subst hnm
  have hbytes : (List.range m).map into₂ = (List.range m).map into₁ := by
    rw [hslice, hslice']
    exact FileStore.slice_congr hsame.length (fun j _ => congrFun hsame.elem j) _ _
  have hinto : into₂ = into₁ := by
    funext j
    by_cases hj : j < m
    · exact List.map_inj_left.mp hbytes j (List.mem_range.mpr hj)
    · rw [hrest j (by omega), hrest' j (by omega)]
  subst hinto
  exact ⟨_, w, w', hread, hread'⟩

/-- A file is left alone while another one is created, opened and removed again, across a
restart. -/
theorem untouched_file_kept_restart : ∃ v S, Represents v S ∧ ∃ answers v',
    runCalls Volume.call
        [.create zeros [98] 200, .openFile 0 zeros [98], .restart, .remove zeros [98]] v =
      .ok answers v' ∧ ∀ (h : Nat) (f : Fresh) (buf into : Nat → UInt8) (numBytes position : Int),
        0 ≤ position → position + numBytes < 2147483648 → ∃ answer w w',
          runCalls Volume.call (openAndRead h f [97] buf into numBytes position) v =
              .ok [.flag true, answer] w
          ∧ runCalls Volume.call (openAndRead h f [97] buf into numBytes position) v' =
              .ok [.flag true, answer] w' := by
  obtain ⟨fs, d', _, hR₀⟩ := format_represents zeros fun _ _ => 0
  obtain ⟨b, v, S, _, hstep, hR⟩ := create_refines hR₀ zeros [97] (show 300 ≤ maxFileSize by decide)
  have hk : key [97] ∈ S.names := by
    cases hstep with
    | created c _ _ => exact Finset.mem_insert_self _ _
    | refused hwhy =>
        rcases hwhy with hmem | hfull
        · exact absurd hmem (Finset.notMem_empty _)
        · exact absurd hfull (by decide)
  have hother : ¬ key [98] = key [97] := by decide
  refine ⟨v, S, hR, untouched_file_kept hR hk _ ?_⟩
  exact .cons ⟨⟨by decide, by decide⟩, id⟩ fun _ _ _ => .cons ⟨trivial, id⟩ fun _ _ _ =>
    .cons ⟨trivial, id⟩ fun _ _ _ => .cons ⟨trivial, hother⟩ fun _ _ _ => .nil _

end Nachos.Filesys
