import Mathlib.Data.Finset.Prod
import Nachos.Proof.Allocation

/-!
# The files on the disk

What a call does to the files, one by one. `SameFile` says that a file is where it was, under the
same name and with the same bytes; a call leaves every other file the same. The header of a file
and its data never share a sector with anything else, so this is a matter of which
sectors are written.

Ten files of at most thirty sectors do not fill the disk. So `Create` fails only for the two reasons
that have to do with the directory.
-/

namespace Nachos.Filesys

open Base (upd upd_self upd_ne Owned bind_eq_of_ok blit)

/-- There is a file in entry `i`. -/
def Used (d : Disk) (i : Nat) : Prop := i < numDirEntries ∧ (entryAt d i).inUse = true

/-- Its header. -/
def fileHdr (d : Disk) (i : Nat) : FileHeader := header d (entryAt d i).sector.toNat

/-- The file in entry `i` is the same on both disks. -/
structure SameFile (d d' : Disk) (i : Nat) : Prop where
  inUse : (entryAt d' i).inUse = (entryAt d i).inUse
  name : (entryAt d' i).fileName = (entryAt d i).fileName
  header : Used d i → fileHdr d' i = fileHdr d i
  data : Used d i → ∀ j, j < (fileHdr d i).count →
    d' ((fileHdr d i).sec j) = d ((fileHdr d i).sec j)

theorem SameFile.used {d d' : Disk} {i : Nat} (h : SameFile d d' i) : Used d' i ↔ Used d i := by
  unfold Used
  rw [h.inUse]

theorem held_data {s : FsState} {i : Nat} (hi : Used s.disk i) {j : Nat}
    (hj : j < (fileHdr s.disk i).count) :
    held s.disk (.data i j) = some ((fileHdr s.disk i).sec j) := by
  have hused : held s.disk (.data i j) = (fileHdr s.disk i).listed j := if_pos hi
  rw [hused, FileHeader.listed, if_pos hj]

namespace FsInv

variable {s : FsState} (h : FsInv s)
include h

/-- A sector of a file is not one of the map or the directory. -/
theorem settled_keep {b : Bitmap} {dir : Directory} {d d' : Disk} (hset : Settled s b dir d d')
    (hd : ∀ x n, held s.disk x = some n → d n = s.disk n) {x : Part} {n : Nat}
    (hx : held s.disk x = some n) (hm : ∀ j, x ≠ .mapData j) (hdir : ∀ j, x ≠ .dirData j) :
    d' n = s.disk n := by
  rw [hset.frame n (fun j hj => hm j (h.consistent.marked.unique _ _ _ hx hj))
    (fun j hj => hdir j (h.consistent.marked.unique _ _ _ hx hj)), hd x n hx]

/-- **The file of another entry** is the same after the copies have been written back. -/
theorem sameFile {b : Bitmap} {dir : Directory} {d d' : Disk} (hset : Settled s b dir d d')
    (hd : ∀ x n, held s.disk x = some n → d n = s.disk n) {m : Nat} (hm : m < numDirEntries)
    (hview : (dir.table m).view = (entryAt s.disk m).view) : SameFile s.disk d' m := by
  obtain ⟨hu, hs, hn⟩ := view_parts ((hset.entries m hm).trans hview)
  have hhdr : Used s.disk m → fileHdr d' m = fileHdr s.disk m := fun hused => by
    have hkeep := h.settled_keep hset hd (FsInv.held_header hused.1 hused.2) (by simp) (by simp)
    unfold fileHdr header
    rw [hs, hkeep]
  exact ⟨hu, hn, hhdr, fun hused j hj =>
    h.settled_keep hset hd (held_data hused hj) (by simp) (by simp)⟩

end FsInv

/-! ## Room -/

/-- The parts there can be. -/
def allParts : Finset Part :=
  ((({.mapHeader, .dirHeader} ∪ (Finset.range 1).image Part.mapData) ∪
    (Finset.range 2).image Part.dirData) ∪ (Finset.range numDirEntries).image Part.header)
    ∪ (Finset.range numDirEntries ×ˢ Finset.range numDirect).image fun p => Part.data p.1 p.2

theorem allParts_card : allParts.card ≤ 315 := by
  have hdata : ((Finset.range numDirEntries ×ˢ Finset.range numDirect).image
      fun p => Part.data p.1 p.2).card ≤ 300 := by
    refine Finset.card_image_le.trans ?_
    rw [Finset.card_product, Finset.card_range, Finset.card_range]
    decide
  have hheader : ((Finset.range numDirEntries).image Part.header).card ≤ 10 :=
    Finset.card_image_le.trans (by rw [Finset.card_range]; decide)
  have hdir : ((Finset.range 2).image Part.dirData).card ≤ 2 := Finset.card_image_le
  have hmap : ((Finset.range 1).image Part.mapData).card ≤ 1 := Finset.card_image_le
  have hfirst : ({.mapHeader, .dirHeader} : Finset Part).card ≤ 2 := Finset.card_le_two
  calc allParts.card
      ≤ _ + _ := Finset.card_union_le _ _
    _ ≤ (_ + _) + _ := Nat.add_le_add_right (Finset.card_union_le _ _) _
    _ ≤ ((_ + _) + _) + _ :=
      Nat.add_le_add_right (Nat.add_le_add_right (Finset.card_union_le _ _) _) _
    _ ≤ (((2 + 1) + 2) + 10) + 300 :=
        Nat.add_le_add (Nat.add_le_add (Nat.add_le_add ((Finset.card_union_le _ _).trans
          (Nat.add_le_add hfirst hmap)) hdir) hheader) hdata

namespace FsInv

variable {s : FsState} (h : FsInv s)
include h

/-- Who has a sector is one of them. -/
theorem mem_allParts {x : Part} {n : Nat} (hx : held s.disk x = some n) : x ∈ allParts := by
  have hlist : ∀ {hdr : FileHeader} {j : Nat}, hdr.listed j = some n → j < hdr.count := by
    intro hdr j hj
    by_contra hge
    rw [FileHeader.listed, if_neg hge] at hj
    exact absurd hj (by simp)
  have hfile : ∀ {i : Nat} {o : Option Nat}, (if i < numDirEntries ∧ (entryAt s.disk i).inUse = true
      then o else none) = some n → Used s.disk i ∧ o = some n := by
    intro i o ho
    by_cases hi : Used s.disk i
    · exact ⟨hi, (if_pos hi).symm.trans ho⟩
    · exact absurd ((if_neg hi).symm.trans ho) (by simp)
  cases x with
  | mapHeader => simp [allParts]
  | dirHeader => simp [allParts]
  | mapData j =>
      have hj := hlist hx
      rw [show (header s.disk freeMapSector.toNat).count = 1 from h.mapSize.2] at hj
      simp only [allParts, Finset.mem_union, Finset.mem_image, Finset.mem_range]
      exact .inl (.inl (.inl (.inr ⟨j, hj, rfl⟩)))
  | dirData j =>
      have hj := hlist hx
      rw [show (header s.disk directorySector.toNat).count = 2 from h.dirSize.2] at hj
      simp only [allParts, Finset.mem_union, Finset.mem_image, Finset.mem_range]
      exact .inl (.inl (.inr ⟨j, hj, rfl⟩))
  | header i =>
      obtain ⟨hi, _⟩ := hfile hx
      simp only [allParts, Finset.mem_union, Finset.mem_image, Finset.mem_range]
      exact .inl (.inr ⟨i, hi.1, rfl⟩)
  | data i j =>
      obtain ⟨hi, hj⟩ := hfile hx
      have hcount := h.counts i hi.1 hi.2
      have hlt := hlist hj
      simp only [allParts, Finset.mem_union, Finset.mem_image, Finset.mem_product, Finset.mem_range]
      exact .inr ⟨(i, j), ⟨hi.1, by omega⟩, rfl⟩

/-- **The disk never fills**: at most 315 of the 1024 sectors are marked. -/
theorem room : 709 ≤ (freeMap s.disk).clearBits.length := by
  -- what no part has is clear
  have hsub : Finset.range numSectors \ allParts.image (fun x => (held s.disk x).getD 0) ⊆
      (freeMap s.disk).clearBits.toFinset := by
    intro n hn
    obtain ⟨hlt, hnot⟩ := Finset.mem_sdiff.mp hn
    refine List.mem_toFinset.mpr (Bitmap.mem_clearBits.mpr ⟨?_, ?_⟩)
    · rw [freeMap_numBits]
      exact Finset.mem_range.mp hlt
    · by_contra hmarked
      obtain ⟨x, hx⟩ := (h.consistent.marked.use_iff n).mp (by simpa using hmarked)
      exact hnot (Finset.mem_image.mpr ⟨x, h.mem_allParts hx, by rw [hx]; rfl⟩)
  have himage : (allParts.image fun x => (held s.disk x).getD 0).card ≤ 315 :=
    Finset.card_image_le.trans allParts_card
  calc 709
      ≤ numSectors - (allParts.image fun x => (held s.disk x).getD 0).card := by
        simp only [numSectors]
        omega
    _ ≤ (Finset.range numSectors \ allParts.image fun x => (held s.disk x).getD 0).card := by
        have hdiff := Finset.le_card_sdiff (allParts.image fun x => (held s.disk x).getD 0)
          (Finset.range numSectors)
        rwa [Finset.card_range] at hdiff
    _ ≤ (freeMap s.disk).clearBits.toFinset.card := Finset.card_le_card hsub
    _ ≤ (freeMap s.disk).clearBits.length := List.toFinset_card_le _

end FsInv

/-! ## Creating -/

/-- **What a `Create` did** that returned `TRUE`: the file is in entry `i`. -/
structure Entered (d d' : Disk) (i : Nat) (name : List UInt8) (size : Nat) : Prop where
  index : i < numDirEntries
  free : ¬ Used d i
  new : ∀ j, Used d j → (entryAt d j).fileName ≠ key name
  used : Used d' i
  name : (entryAt d' i).fileName = key name
  length : (fileHdr d' i).fileLength = size
  count : (fileHdr d' i).count = divRoundUp size sectorSize
  others : ∀ m, m ≠ i → m < numDirEntries → SameFile d d' m

/-- The entries in memory are those on the disk. -/
theorem shows_used {dir : Directory} {d : Disk} (hshows : dir.Shows d) {j : Nat}
    (hj : j < numDirEntries) : ((dir.table j).inUse = true ↔ Used d j)
      ∧ cstr (dir.table j).name fileNameMaxLen = (entryAt d j).fileName := by
  obtain ⟨hu, _, hn⟩ := view_parts (hshows.2 j hj)
  refine ⟨?_, hn⟩
  rw [hu]
  exact ⟨fun h => ⟨hj, h⟩, fun h => h.2⟩

/-- A new header and a new entry, with nothing else changed. -/
theorem FsInv.entered {s : FsState} (h : FsInv s) {dir : Directory} (hshows : dir.Shows s.disk)
    {i id : Nat} {name : List UInt8} (hi : i < numDirEntries)
    (hunused : (dir.table i).inUse = false)
    (hnew : ∀ j, j < numDirEntries → (dir.table j).inUse = true →
      cstr (dir.table j).name fileNameMaxLen ≠ key name)
    (hid : (freeMap s.disk).test id = false) (hlt : id < numSectors) {hdr : FileHeader} {size : Nat}
    (hlength : hdr.fileLength = size) (hcount : hdr.count = divRoundUp size sectorSize)
    (hsize : size ≤ maxFileSize) {b : Bitmap} {d' : Disk}
    (hw : Written s.fs b (dir.enter i name id)
      (upd s.disk id (blit (s.disk id) 0 sectorSize hdr.bytes)) d') :
    Entered s.disk d' i name size := by
  have hnobody : ∀ x, held s.disk x ≠ some id := fun x hx => by
    have hmarked := (h.consistent.marked.use_iff id).mpr ⟨x, hx⟩
    rw [hid] at hmarked
    exact Bool.noConfusion hmarked
  have hd : ∀ x n, held s.disk x = some n →
      upd s.disk id (blit (s.disk id) 0 sectorSize hdr.bytes) n = s.disk n := fun x n hx =>
    upd_ne _ _ fun he => hnobody x (he ▸ hx)
  have hset := h.settled hd hw
  have hwritten : d' id = blit (s.disk id) 0 sectorSize hdr.bytes := by
    rw [hset.frame id (fun j => hnobody _) (fun j => hnobody _), upd_self]
  obtain ⟨hl, hc, _⟩ := header_listed hdr hwritten (by rw [hcount]; exact divRoundUp_le hsize)
  have hentry := hset.entries i hi
  rw [enter_view, if_pos rfl] at hentry
  simp only [DirectoryEntry.view, Prod.mk.injEq] at hentry
  obtain ⟨huse, hsector, hname⟩ := hentry
  have hhdr : fileHdr d' i = header d' id := by rw [fileHdr, hsector, sec_ofInt hlt]
  refine ⟨hi, fun hu => ?_, fun j hj => ?_, ⟨hi, huse⟩, hname, ?_, ?_, fun m hm hmlt => ?_⟩
  · rw [← (shows_used hshows hi).1, hunused] at hu
    exact Bool.noConfusion hu
  · obtain ⟨hused, hsame⟩ := shows_used hshows hj.1
    rw [← hsame]
    exact hnew j hj.1 (hused.mpr hj)
  · rw [hhdr, hl, hlength]
  · rw [hhdr, hc, hcount]
  · refine h.sameFile hset hd hmlt ?_
    rw [enter_view, if_neg hm]
    exact hshows.2 m hmlt

/-- `Add` fails only when every entry is in use. -/
theorem add_cases_full {dir : Directory} {name : List UInt8} (hnew : dir.findIndex name = -1)
    (sector : Int) :
    (dir.add name sector = (false, dir) ∧ ∀ i, i < dir.tableSize → (dir.table i).inUse = true)
    ∨ ∃ i, i < dir.tableSize ∧ (dir.table i).inUse = false
        ∧ dir.add name sector = (true, dir.enter i name sector) := by
  unfold Directory.add
  rw [if_neg (by rw [hnew]; exact fun hne => hne rfl)]
  have h := addFrom_cases dir name sector dir.tableSize 0
  simp only [Nat.zero_add] at h
  exact h

/-- **`Create`**: the name is taken, or the directory is full, or there is a new file. -/
theorem FsInv.create_cases {s : FsState} (h : FsInv s) (f : Fresh) (name : List UInt8) {size : Nat}
    (hsize : size ≤ maxFileSize) :
    (s.fs.create f name size s.disk = .ok false s.disk
      ∧ ((∃ i, Used s.disk i ∧ (entryAt s.disk i).fileName = key name)
        ∨ ∀ i, i < numDirEntries → Used s.disk i))
    ∨ ∃ i d', s.fs.create f name size s.disk = .ok true d' ∧ FsInv ⟨s.fs, d'⟩
        ∧ Entered s.disk d' i name size := by
  obtain ⟨dir, hfetch, hshows⟩ := fetchDirectory_ok (Directory.new numDirEntries f.table)
    h.dirSound h.dirHdr rfl (f.buf 0)
  unfold FileSystem.create
  rw [bind_eq_of_ok hfetch]
  rcases findIndex_cases dir name with ⟨hindex, hnew⟩ | ⟨i, hi, hindex, hu, hname⟩
  · have hfind : dir.find name = -1 := by simp [Directory.find, hindex]
    rw [if_neg (by simp [hfind]), bind_eq_of_ok (fetchMap_ok h.mapSound h.mapHdr (f.buf 1))]
    have hroom := h.room
    cases hclear : (freeMap s.disk).clearBits with
    | nil => rw [hclear] at hroom; exact absurd hroom (by simp)
    | cons id rest =>
        obtain ⟨hlt, hfree⟩ := Bitmap.mem_clearBits.mp
          (hclear ▸ List.mem_cons_self : id ∈ (freeMap s.disk).clearBits)
        rw [freeMap_numBits] at hlt
        have hset : (freeMap s.disk).findAndSet = ((id : Int), (freeMap s.disk).mark id) := by
          rw [Bitmap.findAndSet_eq, hclear]
        have hne : ¬ ((id : Int) = -1) := by omega
        rw [hset]
        simp only [if_neg hne]
        rcases add_cases_full hindex id with ⟨hfull, hall⟩ | ⟨i, hi, hunused, hadd⟩
        · rw [hfull]
          refine .inl ⟨rfl, .inr fun i hi => ?_⟩
          exact (shows_used hshows hi).1.mp (hall i (hshows.1.symm ▸ hi))
        rw [hadd]
        rw [hshows.1] at hi hnew
        simp only [Bool.not_true, Bool.false_eq_true, if_false]
        -- the entry had no file, so its parts have no sector
        have hentry : ¬ Used s.disk i := fun hused => by
          rw [← (shows_used hshows hi).1, hunused] at hused
          exact Bool.noConfusion hused
        have hgive :
            Owned ((freeMap s.disk).mark id).test (upd (held s.disk) (.header i) (some id)) := by
          rw [mark_test (by rw [freeMap_numBits]; exact hlt)]
          exact h.consistent.marked.give hfree (if_neg hentry)
        have hempty : ∀ j, upd (held s.disk) (.header i) (some id) (.data i j) = none := fun j => by
          rw [upd_ne _ _ (by simp)]
          exact if_neg hentry
        rcases allocate_cases (fun a b he => (Part.data.inj he).2) f.hdr hgive
          (by rw [Bitmap.numBits_mark, freeMap_numBits]) hempty hsize s.disk with
          ⟨hshort, _⟩ | ⟨hdr, b, g, halloc, hbits, _, hlength, hcount, ho, hin, hout⟩
        · -- there are always enough sectors
          have hneed := divRoundUp_le hsize
          have hdirect : numDirect = 30 := rfl
          rw [Bitmap.clearBits_mark_head hclear] at hshort
          rw [hclear, List.length_cons] at hroom
          omega
        rw [bind_eq_of_ok halloc]
        simp only [Bool.not_true, Bool.false_eq_true, if_false]
        have hhdr : hdr.writeBack (id : Int) s.disk = _ := writeSector_ok hlt hdr.bytes s.disk
        obtain ⟨d₁, d', hrun₁, hrun₂, hw⟩ := flush_dir_map (dir.enter i name id) h.mapSound
          h.dirSound h.disjoint hbits hshows.1 (fun k => f.buf (k + 2))
          (upd s.disk id (blit (s.disk id) 0 sectorSize hdr.bytes))
        rw [bind_eq_of_ok hhdr, bind_eq_of_ok hrun₁, bind_eq_of_ok hrun₂]
        refine .inr ⟨i, d', rfl, ?_, ?_⟩
        · refine h.created hshows hi hnew hfree hlt ?_ ho hin hout hw
          rw [hcount]
          exact divRoundUp_le hsize
        · exact h.entered hshows hi hunused hnew hfree hlt hlength hcount hsize hw
  · rw [hshows.1] at hi
    obtain ⟨hused, hsame⟩ := shows_used hshows hi
    rcases h.find_cases hshows name with ⟨_, hnone⟩ | ⟨_, _, _, _, hfind, _⟩
    · exact absurd hname (hnone i hi hu)
    · rw [if_pos (by rw [hfind]; omega)]
      exact .inl ⟨rfl, .inl ⟨i, hused.mp hu, hsame.symm.trans hname⟩⟩

/-! ## Removing -/

/-- **What a `Remove` did** that returned `TRUE`: the file was in entry `i`. -/
structure Dropped (d d' : Disk) (i : Nat) (name : List UInt8) : Prop where
  used : Used d i
  name : (entryAt d i).fileName = key name
  gone : ¬ Used d' i
  others : ∀ m, m ≠ i → m < numDirEntries → SameFile d d' m

theorem FsInv.dropped {s : FsState} (h : FsInv s) {dir : Directory} (hshows : dir.Shows s.disk)
    {i : Nat} {name : List UInt8} (hi : Used s.disk i)
    (hname : (entryAt s.disk i).fileName = key name)
    {b : Bitmap} {d' : Disk} (hw : Written s.fs b (dir.drop i) s.disk d') :
    Dropped s.disk d' i name := by
  have hset := h.settled (fun _ _ _ => rfl) hw
  refine ⟨hi, hname, fun hu => ?_, fun m hm hmlt => ?_⟩
  · have hentry := hset.entries i hi.1
    simp only [Directory.drop, upd_self] at hentry
    have hunused : (entryAt d' i).inUse = false := (view_parts hentry).1
    exact absurd hu.2 (by rw [hunused]; exact Bool.noConfusion)
  · refine h.sameFile hset (fun _ _ _ => rfl) hmlt ?_
    simp only [Directory.drop, upd_ne _ _ hm]
    exact hshows.2 m hmlt

/-- **`Remove`**: there is no file of that name, or there is none any more. -/
theorem FsInv.remove_cases {s : FsState} (h : FsInv s) (f : Fresh) (name : List UInt8) :
    (s.fs.remove f name s.disk = .ok false s.disk
      ∧ ∀ i, Used s.disk i → (entryAt s.disk i).fileName ≠ key name)
    ∨ ∃ i d', s.fs.remove f name s.disk = .ok true d' ∧ FsInv ⟨s.fs, d'⟩
        ∧ Dropped s.disk d' i name := by
  obtain ⟨dir, hfetch, hshows⟩ := fetchDirectory_ok (Directory.new numDirEntries f.table)
    h.dirSound h.dirHdr rfl (f.buf 0)
  unfold FileSystem.remove
  rw [bind_eq_of_ok hfetch]
  rcases h.find_cases hshows name with ⟨hfind, hnone⟩ | ⟨i, hi, hindex, hu, hfind, hlt⟩
  · rw [if_pos hfind]
    refine .inl ⟨rfl, fun i hi he => ?_⟩
    obtain ⟨hused, hsame⟩ := shows_used hshows hi.1
    exact hnone i hi.1 (hused.mpr hi) (hsame.trans he)
  have hname : (entryAt s.disk i).fileName = key name := by
    rcases findIndex_cases dir name with ⟨hnot, _⟩ | ⟨m, hm, hm', _, hname⟩
    · rw [hindex] at hnot
      exact absurd hnot (by omega)
    · rw [hindex] at hm'
      obtain rfl : i = m := by omega
      exact (shows_used hshows hi).2.symm.trans hname
  obtain ⟨b, g, hdealloc, hbits, ho, hnone, hout⟩ := deallocate_ok
    (fun a b he => (Part.data.inj he).2) _ h.consistent.marked (freeMap_numBits _)
    (h.counts i hi hu) (fun j => if_pos ⟨hi, hu⟩) s.disk
  have hhas : g (.header i) = some (entryAt s.disk i).sector.toNat := by
    rw [hout _ (by simp), FsInv.held_header hi hu]
  have htake := ho.take hhas
  rw [← clear_test (by rw [hbits]; exact hlt)] at htake
  have hremove : (dir.remove name).2 = dir.drop i := by
    have hne : ¬ ((i : Int) = -1) := by omega
    unfold Directory.remove
    rw [hindex, if_neg hne, Int.toNat_natCast]
  have hassert : decide (0 ≤ ((entryAt s.disk i).sector.toNat : Int)
      ∧ ((entryAt s.disk i).sector.toNat : Int) < b.numBits) = true := decide_eq_true (by omega)
  obtain ⟨d₁, d', hrun₁, hrun₂, hw⟩ := flush_map_dir (dir.drop i) h.mapSound h.dirSound
    h.disjoint (b := b.clear (entryAt s.disk i).sector.toNat) hbits hshows.1
    (fun k => f.buf (k + 2)) s.disk
  rw [if_neg (by rw [hfind]; omega), hfind, bind_eq_of_ok (fetchFrom_ok hlt s.disk),
    bind_eq_of_ok (fetchMap_ok h.mapSound h.mapHdr (f.buf 1)), bind_eq_of_ok hdealloc]
  have hcheck : assert true s.disk = .ok () s.disk := rfl
  rw [hassert, bind_eq_of_ok hcheck, Int.toNat_natCast, hremove, bind_eq_of_ok hrun₁,
    bind_eq_of_ok hrun₂]
  refine .inr ⟨i, d', rfl, ?_, h.dropped hshows ⟨hi, hu⟩ hname hw⟩
  refine h.removed hshows hi htake ⟨upd_self _ _ _, fun j => ?_⟩ (fun x hx hx' => ?_) hw
  · rw [upd_ne _ _ (by simp)]
    exact hnone j
  · rw [upd_ne _ _ hx]
    exact hout x hx'

/-! ## Writing to a file -/

/-- Only the data of the file in entry `i` may differ. -/
def OnlyData (d d' : Disk) (i : Nat) : Prop :=
  ∀ n, (∀ j, j < (fileHdr d i).count → n ≠ (fileHdr d i).sec j) → d' n = d n

section OnlyData

variable {s : FsState} (h : FsInv s) {i : Nat} (hi : Used s.disk i) {d' : Disk}
  (hd : OnlyData s.disk d' i)
include h hi hd

theorem only_keep {x : Part} {n : Nat} (hx : held s.disk x = some n) (hne : ∀ j, x ≠ .data i j) :
    d' n = s.disk n :=
  hd n fun j hj he => hne j (h.consistent.marked.unique _ _ _ hx (he ▸ held_data hi hj))

theorem only_headers : header d' 0 = header s.disk 0 ∧ header d' 1 = header s.disk 1 := by
  have h0 : d' 0 = s.disk 0 := only_keep h hi hd (x := .mapHeader) rfl (by simp)
  have h1 : d' 1 = s.disk 1 := only_keep h hi hd (x := .dirHeader) rfl (by simp)
  unfold header
  rw [h0, h1]
  exact ⟨rfl, rfl⟩

theorem only_entries {m : Nat} (hm : m < numDirEntries) :
    (entryAt d' m).view = (entryAt s.disk m).view := by
  unfold entryAt
  rw [(only_headers h hi hd).2]
  refine DirectoryEntry.view_congr fun k hk => ?_
  refine FileHeader.Sound.byte_congr (fun j hj => ?_) (entry_lt hm hk)
  exact only_keep h hi hd (h.ownFiles.sec_dirData hj) (by simp)

/-- The disk says what it said of everything but that data. -/
theorem only_settled : Settled s (freeMap s.disk) ⟨numDirEntries, entryAt s.disk⟩ d' d' := by
  obtain ⟨h0, h1⟩ := only_headers h hi hd
  refine ⟨?_, h0, h1, fun m hm => only_entries h hi hd hm, fun _ _ _ => rfl⟩
  unfold freeMap
  rw [h0]
  refine PersistentBitmap.setBytes_congr _ fun k hk => ?_
  rw [new_length] at hk
  refine FileHeader.Sound.byte_congr (fun j hj => ?_) hk
  exact only_keep h hi hd (h.ownFiles.sec_mapData hj) (by simp)

theorem only_fileHdr {m : Nat} (hm : Used s.disk m) : fileHdr d' m = fileHdr s.disk m := by
  obtain ⟨_, hs, _⟩ := view_parts (only_entries h hi hd hm.1)
  unfold fileHdr header
  rw [hs, only_keep h hi hd (FsInv.held_header hm.1 hm.2) (by simp)]

/-- **A write to a file leaves the others the same.** -/
theorem only_sameFile {m : Nat} (hm : m < numDirEntries) (hne : m ≠ i) : SameFile s.disk d' m := by
  obtain ⟨hu, _, hn⟩ := view_parts (only_entries h hi hd hm)
  refine ⟨hu, hn, fun hused => only_fileHdr h hi hd hused, fun hused j hj => ?_⟩
  exact only_keep h hi hd (held_data hused hj) fun k he => hne (Part.data.inj he).1

/-- **It keeps the file system in order.** -/
theorem only_fsInv : FsInv ⟨s.fs, d'⟩ := by
  have hset := only_settled h hi hd
  have hparts : ∀ m, held d' (.header m) = held s.disk (.header m)
      ∧ ∀ j, held d' (.data m j) = held s.disk (.data m j) := fun m =>
    hset.held_keep (fun _ => rfl) fun hm hu =>
      only_keep h hi hd (FsInv.held_header hm hu) (by simp)
  have hview : ∀ m, m < numDirEntries → (entryAt d' m).inUse = (entryAt s.disk m).inUse
      ∧ (entryAt d' m).fileName = (entryAt s.disk m).fileName := fun m hm => by
    obtain ⟨hu, _, hn⟩ := view_parts (only_entries h hi hd hm)
    exact ⟨hu, hn⟩
  refine h.of_settled hset h.consistent.marked (fun x => ?_) (fun m n hm hn hum hun he => ?_)
    (fun m hm hum => ?_)
  · cases x with
    | mapHeader => rfl
    | dirHeader => rfl
    | mapData j => exact (hset.held_system j).1
    | dirData j => exact (hset.held_system j).2
    | header m => exact (hparts m).1
    | data m j => exact (hparts m).2 j
  · rw [(hview m hm).1] at hum
    rw [(hview n hn).1] at hun
    rw [(hview m hm).2, (hview n hn).2] at he
    exact h.consistent.names m n hm hn hum hun he
  · rw [(hview m hm).1] at hum
    have hhdr := only_fileHdr h hi hd ⟨hm, hum⟩
    unfold fileHdr at hhdr
    rw [hhdr]
    exact h.counts m hm hum

end OnlyData

/-! ## When a file can be created -/

/-- **When `Create` succeeds.** In every state that `Create` and `Remove` lead to on a
formatted disk, more than half of the sectors are free. So a file of a size that a header can hold
is created exactly when no file has its name (as far as names are compared) and the directory has an
entry left. -/
theorem create_succeeds_iff (s : FsState) (h : FsState.sys.ReachBy (fun _ c => c.fits = true) s)
    (f : Fresh) (name : List UInt8) (size : Nat) (hsize : size ≤ maxFileSize) :
    709 ≤ (freeMap s.disk).numClear ∧ ∃ success d', s.fs.create f name size s.disk =
    .ok success d' ∧
      (success = true ↔ (∀ i, Used s.disk i → (entryAt s.disk i).fileName ≠ key name)
        ∧ ∃ i, i < numDirEntries ∧ ¬ Used s.disk i) := by
  have hI := fsInv_reachBy h
  constructor
  · rw [Bitmap.numClear_eq]
    exact hI.room
  · rcases hI.create_cases f name hsize with ⟨hrun, hwhy⟩ | ⟨i, d', hrun, _, he⟩
    · refine ⟨false, s.disk, hrun, ⟨fun hf => absurd hf (by simp), ?_⟩⟩
      rintro ⟨hnew, i, hi, hfree⟩
      rcases hwhy with ⟨m, hm, hname⟩ | hall
      · exact absurd hname (hnew m hm)
      · exact absurd (hall i hi) hfree
    · exact ⟨true, d', hrun, ⟨fun _ => ⟨he.new, i, he.index, he.free⟩, fun _ => rfl⟩⟩

/-- The file system on a disk of zeros that was just formatted. -/
def formatted : DiskM FsState := do
  let fs ← FileSystem.format zeros
  return ⟨fs, ← get⟩

/-- Two of the largest files, of which the first is removed. -/
def twoFiles : List Call :=
  [.create zeros [97] maxFileSize, .create zeros [98] maxFileSize, .remove zeros [97]]

/-- Its name can be used again, and the other cannot. -/
theorem create_succeeds_iff_removed : ∃ s, FsState.sys.ReachBy (fun _ c => c.fits = true) s ∧
    (∃ d', s.fs.create zeros [97] maxFileSize s.disk = .ok true d') ∧
    ∃ d', s.fs.create zeros [98] maxFileSize s.disk = .ok false d' := by
  have hrun : ((formatted.run' fun _ _ => 0).bind fun s =>
      (FsState.sys.runBy (fun _ c => c.fits = true) s twoFiles).map fun s =>
        ((List.range numDirEntries).filter fun i => (entryAt s.disk i).inUse,
          (entryAt s.disk 1).fileName)) = some ([1], [98]) := by
    decide +kernel
  obtain ⟨fs, d, hformat, _⟩ := format_ok zeros fun _ _ => 0
  have hstart : (formatted.run' fun _ _ => 0) = some ⟨fs, d⟩ := by
    have hok : formatted (fun _ _ => 0) = .ok ⟨fs, d⟩ d := by
      unfold formatted
      rw [bind_eq_of_ok hformat]
      rfl
    delta EStateM.run' EStateM.run
    rw [hok]
  rw [hstart, Option.bind_some] at hrun
  obtain ⟨s, hs, hsee⟩ := Option.map_eq_some_iff.mp hrun
  obtain ⟨huse, hname⟩ := Prod.mk.inj hsee
  have hreach : FsState.sys.ReachBy (fun _ c => c.fits = true) s :=
    .runBy twoFiles (.init ⟨zeros, _, hformat⟩) hs
  -- the second file is the only one
  have hused : ∀ i, Used s.disk i ↔ i = 1 := by
    intro i
    have hmem :
        i ∈ (List.range numDirEntries).filter (fun i => (entryAt s.disk i).inUse) ↔ i = 1 := by
      rw [huse, List.mem_singleton]
    rwa [List.mem_filter, List.mem_range] at hmem
  refine ⟨s, hreach, ?_, ?_⟩
  · obtain ⟨success, d', hcreate, hiff⟩ :=
      (create_succeeds_iff s hreach zeros [97] maxFileSize (Nat.le_refl _)).2
    have hsuccess : success = true := by
      refine hiff.mpr ⟨fun i hi => ?_, 0, by decide, fun h => absurd ((hused 0).mp h) (by decide)⟩
      rw [(hused i).mp hi, hname]
      decide
    exact ⟨d', hsuccess ▸ hcreate⟩
  · obtain ⟨success, d', hcreate, hiff⟩ :=
      (create_succeeds_iff s hreach zeros [98] maxFileSize (Nat.le_refl _)).2
    have hfails : success = false := by
      refine Bool.eq_false_iff.mpr fun h => (hiff.mp h).1 1 ((hused 1).mpr rfl) ?_
      rw [hname]
      decide
    exact ⟨d', hfails ▸ hcreate⟩
end Nachos.Filesys
