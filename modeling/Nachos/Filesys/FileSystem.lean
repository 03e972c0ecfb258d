import Nachos.Filesys.Disk

/-!
# The directory and the file system: `directory.cc` and `filesys.cc`

`Create` and `Remove` work on private copies of the directory and of the free map and write
them back when everything went well. A name is a C string: the bytes before its zero.
-/

namespace Nachos.Filesys

open Base (upd wordAt byteOf)

/-- `FileNameMaxLen`, without the zero. -/
def fileNameMaxLen : Nat := 9

/-! ## Strings -/

/-- The bytes of a C string, with its zero. -/
def charAt (s : List UInt8) : Nat → UInt8 := fun k => s.getD k 0

/-- `strncmp` from `i`, with `k` characters to go. -/
def strncmpFrom (s t : Nat → UInt8) : Nat → Nat → Int
  | 0, _ => 0
  | k + 1, i =>
      if s i ≠ t i then ((s i).toNat : Int) - (t i).toNat
      else if s i = 0 then 0
      else strncmpFrom s t k (i + 1)

/-- `strncmp`: at most `n` characters are compared. -/
def strncmp (s t : Nat → UInt8) (n : Nat) : Int := strncmpFrom s t n 0

/-- `strncpy`: what comes after the zero is filled with zeros. -/
def strncpy (dst src : Nat → UInt8) (n : Nat) : Nat → UInt8 :=
  fun k => if k < n then (if ∃ j, j < k ∧ src j = 0 then 0 else src k) else dst k

/-! ## The directory -/

/-- A file of the directory: its name and the sector of its header. -/
structure DirectoryEntry where
  inUse : Bool
  sector : BitVec 32
  /-- `fileNameMaxLen + 1` of them. -/
  name : Nat → UInt8
  /-- The three bytes after `inUse` and the two after `name`. -/
  pad : Nat → UInt8

/-- `sizeof(DirectoryEntry)`. -/
def entrySize : Nat := 20

namespace DirectoryEntry

/-- The entry as it lies in memory. -/
def bytes (e : DirectoryEntry) : Nat → UInt8 := fun k =>
  if k = 0 then (if e.inUse then 1 else 0)
  else if k < 4 then e.pad (k - 1)
  else if k < 8 then byteOf e.sector (k - 4)
  else if k < 18 then e.name (k - 8)
  else e.pad (k - 15)

/-- The entry that lies at `b`. -/
def ofBytes (b : Nat → UInt8) : DirectoryEntry where
  inUse := b 0 != 0
  sector := wordAt b 4
  name := fun j => b (8 + j)
  pad := fun j => if j < 3 then b (j + 1) else b (j + 15)

end DirectoryEntry

/-- The directory in memory. -/
structure Directory where
  tableSize : Nat
  /-- `tableSize` of them. -/
  table : Nat → DirectoryEntry

namespace Directory

/-- The constructor. Of the entries only `inUse` is set. -/
def new (size : Nat) (fresh : Nat → DirectoryEntry) : Directory where
  tableSize := size
  table := fun i => { fresh i with inUse := false }

/-- The table as it lies in memory. -/
def bytes (dir : Directory) : Nat → UInt8 :=
  fun k => (dir.table (k / entrySize)).bytes (k % entrySize)

/-- The table that lies at `b`. -/
def setBytes (dir : Directory) (b : Nat → UInt8) : Directory :=
  { dir with table := fun i => DirectoryEntry.ofBytes fun k => b (entrySize * i + k) }

/-- `FetchFrom`: a read of the whole file over the table. -/
def fetchFrom (dir : Directory) (file : OpenFile) (buf : Nat → UInt8) : DiskM Directory := do
  let r ← file.readAt buf dir.bytes (dir.tableSize * entrySize) 0
  return dir.setBytes r.2

/-- `WriteBack`. -/
def writeBack (dir : Directory) (file : OpenFile) (buf buf' buf'' : Nat → UInt8) : DiskM Unit := do
  let _ ← file.writeAt buf buf' buf'' dir.bytes (dir.tableSize * entrySize) 0

/-- The loop of `FindIndex` from `i`, with `k` entries to go. -/
def findIndexFrom (dir : Directory) (name : List UInt8) : Nat → Nat → Int
  | 0, _ => -1
  | k + 1, i =>
      if (dir.table i).inUse &&
          decide (strncmp (dir.table i).name (charAt name) fileNameMaxLen = 0) then i
      else findIndexFrom dir name k (i + 1)

/-- `FindIndex`: where the name is in the table, or -1. -/
def findIndex (dir : Directory) (name : List UInt8) : Int := dir.findIndexFrom name dir.tableSize 0

/-- `Find`: the sector of the header of the file, or -1. -/
def find (dir : Directory) (name : List UInt8) : Int :=
  let i := dir.findIndex name
  if i ≠ -1 then (dir.table i.toNat).sector.toInt else -1

/-- An entry that is taken for a file. -/
def enter (dir : Directory) (i : Nat) (name : List UInt8) (newSector : Int) : Directory :=
  { dir with table := upd dir.table i { dir.table i with
      inUse := true
      name := strncpy (dir.table i).name (charAt name) fileNameMaxLen
      sector := BitVec.ofInt 32 newSector } }

/-- The loop of `Add` from `i`, with `k` entries to go. -/
def addFrom (dir : Directory) (name : List UInt8) (newSector : Int) : Nat → Nat → Bool × Directory
  | 0, _ => (false, dir)
  | k + 1, i =>
      if !(dir.table i).inUse then (true, dir.enter i name newSector)
      else addFrom dir name newSector k (i + 1)

/-- `Add`, with the directory as it leaves it. -/
def add (dir : Directory) (name : List UInt8) (newSector : Int) : Bool × Directory :=
  if dir.findIndex name ≠ -1 then (false, dir) else dir.addFrom name newSector dir.tableSize 0

/-- An entry that is given up. -/
def drop (dir : Directory) (i : Nat) : Directory :=
  { dir with table := upd dir.table i { dir.table i with inUse := false } }

/-- `Remove`, with the directory as it leaves it. -/
def remove (dir : Directory) (name : List UInt8) : Bool × Directory :=
  let i := dir.findIndex name
  if i = -1 then (false, dir) else (true, dir.drop i.toNat)

end Directory

/-! ## The file system -/

/-- `FreeMapSector`: where the header of the bitmap file is. -/
def freeMapSector : Int := 0

/-- `DirectorySector`: where the header of the directory file is. -/
def directorySector : Int := 1

/-- `FreeMapFileSize`: a bit for every sector. -/
def freeMapFileSize : Nat := numSectors / 8

/-- `NumDirEntries`: how many files there can be. -/
def numDirEntries : Nat := 10

/-- `DirectoryFileSize`. -/
def directoryFileSize : Nat := entrySize * numDirEntries

/-- What the calls of `new` during one operation hand out. -/
structure Fresh where
  /-- `new FileHeader`. -/
  hdr : FileHeader
  /-- The second one, when the disk is formatted. -/
  hdr' : FileHeader
  /-- `new DirectoryEntry[size]`. -/
  table : Nat → DirectoryEntry
  /-- The buffers of `ReadAt` and `WriteAt`, in the order in which they are allocated. -/
  buf : Nat → Nat → UInt8

/-- The two files that stay open while Nachos is running. -/
structure FileSystem where
  freeMapFile : OpenFile
  directoryFile : OpenFile

namespace FileSystem

/-- The constructor, with `format` set. -/
def format (f : Fresh) : DiskM FileSystem := do
  let freeMap := ((Bitmap.new numSectors numSectors_pos).mark freeMapSector.toNat).mark
    directorySector.toNat
  let directory := Directory.new numDirEntries f.table
  let (ok, mapHdr, freeMap) ← f.hdr.allocate freeMap freeMapFileSize
  assert ok
  let (ok, dirHdr, freeMap) ← f.hdr'.allocate freeMap directoryFileSize
  assert ok
  mapHdr.writeBack freeMapSector
  dirHdr.writeBack directorySector
  let freeMapFile ← OpenFile.new freeMapSector
  let directoryFile ← OpenFile.new directorySector
  PersistentBitmap.writeBack freeMap freeMapFile (f.buf 0) (f.buf 1) (f.buf 2)
  directory.writeBack directoryFile (f.buf 3) (f.buf 4) (f.buf 5)
  return ⟨freeMapFile, directoryFile⟩

/-- `Create`. Only at the end is anything written, so a failure leaves the disk alone. -/
def create (fs : FileSystem) (f : Fresh) (name : List UInt8) (initialSize : Int) : DiskM Bool := do
  let directory ← (Directory.new numDirEntries f.table).fetchFrom fs.directoryFile (f.buf 0)
  if directory.find name ≠ -1 then return false
  else
    let freeMap ← PersistentBitmap.new fs.freeMapFile numSectors numSectors_pos (f.buf 1)
    let (sector, freeMap) := freeMap.findAndSet
    if sector = -1 then return false
    else
      -- a sector for the header is marked in the copy only
      let (added, directory) := directory.add name sector
      if !added then return false
      else
        let (allocated, hdr, freeMap) ← f.hdr.allocate freeMap initialSize
        if !allocated then return false
        else
          hdr.writeBack sector
          directory.writeBack fs.directoryFile (f.buf 2) (f.buf 3) (f.buf 4)
          PersistentBitmap.writeBack freeMap fs.freeMapFile (f.buf 5) (f.buf 6) (f.buf 7)
          return true

/-- `Remove`. The header of the file is forgotten with its sectors. -/
def remove (fs : FileSystem) (f : Fresh) (name : List UInt8) : DiskM Bool := do
  let directory ← (Directory.new numDirEntries f.table).fetchFrom fs.directoryFile (f.buf 0)
  let sector := directory.find name
  if sector = -1 then return false
  else
    let fileHdr ← FileHeader.fetchFrom sector
    let freeMap ← PersistentBitmap.new fs.freeMapFile numSectors numSectors_pos (f.buf 1)
    -- first the sectors of the data, then that of the header
    let freeMap ← fileHdr.deallocate freeMap
    assert (decide (0 ≤ sector ∧ sector < freeMap.numBits))
    let freeMap := freeMap.clear sector.toNat
    let directory := (directory.remove name).2
    PersistentBitmap.writeBack freeMap fs.freeMapFile (f.buf 2) (f.buf 3) (f.buf 4)
    directory.writeBack fs.directoryFile (f.buf 5) (f.buf 6) (f.buf 7)
    return true

end FileSystem

/-! ## Runs -/

/-- A call, with what it allocates. -/
inductive Call where
  | create (f : Fresh) (name : List UInt8) (initialSize : Int)
  | remove (f : Fresh) (name : List UInt8)

/-- The file system and its disk. -/
structure FsState where
  fs : FileSystem
  disk : Disk

/-- What a call does. -/
def FsState.call (s : FsState) : Call → EStateM.Result Stop Disk Bool
  | .create f name initialSize => s.fs.create f name initialSize s.disk
  | .remove f name => s.fs.remove f name s.disk

/-- The runs of calls on a disk that was formatted, whatever was on it before. -/
def FsState.sys : Base.System FsState Call where
  init := fun s => ∃ f d, FileSystem.format f d = .ok s.fs s.disk
  step := fun s c =>
    match s.call c with
    | .ok _ d => some { s with disk := d }
    | .error _ _ => none

end Nachos.Filesys
