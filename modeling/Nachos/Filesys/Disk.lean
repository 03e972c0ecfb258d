import Nachos.Base.Bytes
import Nachos.Base.System
import Nachos.Lib.Bitmap

/-!
# Files on the disk: `synchdisk.cc`, `filehdr.cc`, `openfile.cc` and `pbitmap.cc`

The disk file system, which is there when `FILESYS_STUB` is not set. A file is a header, which
fills one sector and lists the sectors of the data, and the data itself. `SynchDisk` lets one
request at a time through and waits for it, so a request is one step here.

Objects go to the disk as they lie in memory, with whatever the parts that nobody has set
contain. Every `new` that leaves something unset is therefore an argument of the function that
calls it.
-/

namespace Nachos.Filesys

open Base (upd wordAt packWords blit)

/-- `SectorSize`, in bytes. -/
def sectorSize : Nat := 128

/-- The sectors of the whole disk. -/
def numSectors : Nat := 1024

theorem numSectors_pos : 0 < numSectors := by decide

/-- Byte `j` of sector `i`, for the sectors and bytes there are. -/
abbrev Disk := Nat → Nat → UInt8

/-- How the file system can stop. -/
inductive Stop where
  /-- An `ASSERT` failed. -/
  | assertion
  /-- An array was used beyond its end. -/
  | overrun
  deriving DecidableEq, Repr

/-- Code that works on the disk. -/
abbrev DiskM := EStateM Stop Disk

/-- `ASSERT`. -/
def assert (c : Bool) : DiskM Unit := if c then pure () else throw .assertion

/-- `SynchDisk::ReadSector`. -/
def readSector (sectorNumber : Int) : DiskM (Nat → UInt8) := do
  assert (decide (0 ≤ sectorNumber ∧ sectorNumber < numSectors))
  return (← get) sectorNumber.toNat

/-- `SynchDisk::WriteSector`. -/
def writeSector (sectorNumber : Int) (data : Nat → UInt8) : DiskM Unit := do
  assert (decide (0 ≤ sectorNumber ∧ sectorNumber < numSectors))
  modify fun d => upd d sectorNumber.toNat (blit (d sectorNumber.toNat) 0 sectorSize data)

/-! ## File headers -/

/-- What fits into a sector beside the two counters. -/
def numDirect : Nat := (sectorSize - 2 * 4) / 4

/-- `MaxFileSize`: a header has no indirect blocks. -/
def maxFileSize : Nat := numDirect * sectorSize

/-- `divRoundUp` of two `int`s. -/
def divRoundUpInt (n s : Int) : Int := n.tdiv s + if n.tmod s > 0 then 1 else 0

/-- A file header as it lies in its sector. -/
structure FileHeader where
  numBytes : BitVec 32
  numSectors : BitVec 32
  /-- `numDirect` of them. -/
  dataSectors : Nat → BitVec 32

namespace FileHeader

/-- The words of the header. -/
def word (hdr : FileHeader) : Nat → BitVec 32
  | 0 => hdr.numBytes
  | 1 => hdr.numSectors
  | i + 2 => hdr.dataSectors i

/-- The header as it lies in memory. -/
def bytes (hdr : FileHeader) : Nat → UInt8 := packWords hdr.word

/-- The header that lies at `b`. -/
def ofBytes (b : Nat → UInt8) : FileHeader where
  numBytes := wordAt b 0
  numSectors := wordAt b 4
  dataSectors := fun i => wordAt b (4 * (i + 2))

/-- The loop of `Allocate` from `i`, with `k` sectors to go. -/
def allocateFrom : Nat → Nat → FileHeader → Bitmap → DiskM (FileHeader × Bitmap)
  | 0, _, hdr, freeMap => pure (hdr, freeMap)
  | k + 1, i, hdr, freeMap =>
      if i < numDirect then do
        let r := freeMap.findAndSet
        assert (decide (0 ≤ r.1))
        allocateFrom k (i + 1)
          { hdr with dataSectors := upd hdr.dataSectors i (BitVec.ofInt 32 r.1) } r.2
      else throw .overrun

/-- `Allocate`, with the header and the map as it leaves them. -/
def allocate (hdr : FileHeader) (freeMap : Bitmap) (fileSize : Int) :
    DiskM (Bool × FileHeader × Bitmap) :=
  let hdr := { hdr with
    numBytes := BitVec.ofInt 32 fileSize
    numSectors := BitVec.ofInt 32 (divRoundUpInt fileSize sectorSize) }
  if (freeMap.numClear : Int) < hdr.numSectors.toInt then pure (false, hdr, freeMap)
  else do
    let r ← allocateFrom hdr.numSectors.toInt.toNat 0 hdr freeMap
    return (true, r)

/-- The loop of `Deallocate` from `i`, with `k` sectors to go. -/
def deallocateFrom (hdr : FileHeader) : Nat → Nat → Bitmap → DiskM Bitmap
  | 0, _, freeMap => pure freeMap
  | k + 1, i, freeMap =>
      if i < numDirect then do
        let n := (hdr.dataSectors i).toInt
        assert (decide (0 ≤ n ∧ n < freeMap.numBits) && freeMap.test n.toNat)
        deallocateFrom hdr k (i + 1) (freeMap.clear n.toNat)
      else throw .overrun

/-- `Deallocate`: the sectors of the file are clear in the map afterwards. -/
def deallocate (hdr : FileHeader) (freeMap : Bitmap) : DiskM Bitmap :=
  deallocateFrom hdr hdr.numSectors.toInt.toNat 0 freeMap

/-- `FetchFrom`. -/
def fetchFrom (sector : Int) : DiskM FileHeader := do
  return ofBytes (← readSector sector)

/-- `WriteBack`. The header fills its sector. -/
def writeBack (hdr : FileHeader) (sector : Int) : DiskM Unit := writeSector sector hdr.bytes

/-- `ByteToSector`: the sector in which the byte at `offset` is. -/
def byteToSector (hdr : FileHeader) (offset : Nat) : DiskM Int :=
  if offset / sectorSize < numDirect then pure (hdr.dataSectors (offset / sectorSize)).toInt
  else throw .overrun

/-- `FileLength`. -/
def fileLength (hdr : FileHeader) : Int := hdr.numBytes.toInt

end FileHeader

/-! ## Open files -/

/-- A file that is open: its header stays in memory. -/
structure OpenFile where
  hdr : FileHeader

namespace OpenFile

/-- The constructor. -/
def new (sector : Int) : DiskM OpenFile := do
  return ⟨← FileHeader.fetchFrom sector⟩

/-- The sectors from `i` on, `k` of them, read to `buf` from `off` on. -/
def readSectors (hdr : FileHeader) : Nat → Nat → Nat → (Nat → UInt8) → DiskM (Nat → UInt8)
  | 0, _, _, buf => pure buf
  | k + 1, i, off, buf => do
      let data ← readSector (← hdr.byteToSector (i * sectorSize))
      readSectors hdr k (i + 1) (off + sectorSize) (blit buf off sectorSize data)

/-- The sectors from `i` on, `k` of them, written from `buf`. -/
def writeSectors (hdr : FileHeader) : Nat → Nat → Nat → (Nat → UInt8) → DiskM Unit
  | 0, _, _, _ => pure ()
  | k + 1, i, off, buf => do
      writeSector (← hdr.byteToSector (i * sectorSize)) (fun j => buf (off + j))
      writeSectors hdr k (i + 1) (off + sectorSize) buf

/-- The number of bytes between `position` and the end of the file, if that is less. -/
def clip (fileLength : Int) (numBytes position : Nat) : Nat :=
  if (position + numBytes : Int) > fileLength then (fileLength - position).toNat else numBytes

/-- `ReadAt`: the number of bytes read, and `into` with them. `buf` is the buffer as it was
allocated. -/
def readAt (file : OpenFile) (buf into : Nat → UInt8) (numBytes position : Nat) :
    DiskM (Nat × (Nat → UInt8)) :=
  if numBytes = 0 ∨ file.hdr.fileLength ≤ position then pure (0, into)
  else do
    let numBytes := clip file.hdr.fileLength numBytes position
    let firstSector := position / sectorSize
    let lastSector := (position + numBytes - 1) / sectorSize
    let buf ← readSectors file.hdr (1 + lastSector - firstSector) firstSector 0 buf
    return (numBytes, blit into 0 numBytes (fun j => buf (position - firstSector * sectorSize + j)))

/-- One of the two reads of `WriteAt`: if it is needed, a sector goes to `buf` at `off`. -/
def readPart (file : OpenFile) (buf' buf : Nat → UInt8) (off sector : Nat) (needed : Bool) :
    DiskM (Nat → UInt8) :=
  if needed then do
    let r ← file.readAt buf' (fun j => buf (off + j)) sectorSize (sector * sectorSize)
    return fun j => if j < off then buf j else r.2 (j - off)
  else return buf

/-- `WriteAt`. The first and the last sector are read before if they are not written in full;
`buf'` and `buf''` are what those two reads allocate. -/
def writeAt (file : OpenFile) (buf buf' buf'' src : Nat → UInt8) (numBytes position : Nat) :
    DiskM Nat :=
  if numBytes = 0 ∨ file.hdr.fileLength ≤ position then pure 0
  else do
    let numBytes := clip file.hdr.fileLength numBytes position
    let firstSector := position / sectorSize
    let lastSector := (position + numBytes - 1) / sectorSize
    let firstAligned := decide (position = firstSector * sectorSize)
    let lastAligned := decide (position + numBytes = (lastSector + 1) * sectorSize)
    let buf ← file.readPart buf' buf 0 firstSector (!firstAligned)
    let buf ← file.readPart buf'' buf ((lastSector - firstSector) * sectorSize) lastSector
      (!lastAligned && (decide (firstSector ≠ lastSector) || firstAligned))
    let buf := blit buf (position - firstSector * sectorSize) numBytes src
    writeSectors file.hdr (1 + lastSector - firstSector) firstSector 0 buf
    return numBytes

end OpenFile

/-! ## The bitmap on the disk -/

namespace PersistentBitmap

/-- The words of the map as they lie in memory. -/
def bytes (b : Bitmap) : Nat → UInt8 := packWords fun i => b.map.getD i 0#32

/-- The map whose words lie at `buf`. -/
def setBytes (b : Bitmap) (buf : Nat → UInt8) : Bitmap where
  numBits := b.numBits
  map := (List.range b.map.length).map fun i => wordAt buf (4 * i)
  pos := b.pos
  words := by rw [List.length_map, List.length_range]; exact b.words

/-- `FetchFrom`: a read of the whole file over the words. -/
def fetchFrom (b : Bitmap) (file : OpenFile) (buf : Nat → UInt8) : DiskM Bitmap := do
  let r ← file.readAt buf (bytes b) (b.map.length * 4) 0
  return setBytes b r.2

/-- The constructor that reads the map from a file. -/
def new (file : OpenFile) (numItems : Nat) (h : 0 < numItems) (buf : Nat → UInt8) : DiskM Bitmap :=
  fetchFrom (Bitmap.new numItems h) file buf

/-- `WriteBack`. -/
def writeBack (b : Bitmap) (file : OpenFile) (buf buf' buf'' : Nat → UInt8) : DiskM Unit := do
  let _ ← file.writeAt buf buf' buf'' (bytes b) (b.map.length * 4) 0

end PersistentBitmap

end Nachos.Filesys
