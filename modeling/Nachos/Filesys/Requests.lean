import Nachos.Filesys.Disk
import Nachos.Lib.Utility

/-!
# Requests as a caller makes them: `ReadAt` and `WriteAt` on `int`s

The file system makes requests of its own with small numbers, and `Filesys.Disk` has `ReadAt`
and `WriteAt` for those. A caller passes any two `int`s. Here the sums and products are wrapped
where the code computes them, the buffer has the size that comes out, and an index outside an array
stops the program.
-/

namespace Nachos.Filesys

open Base (blit)

/-- `ByteToSector`, of any `int`. -/
def FileHeader.byteToSectorInt (hdr : FileHeader) (offset : Int) : DiskM Int :=
  if 0 ≤ offset.tdiv sectorSize ∧ offset.tdiv sectorSize < numDirect then
    pure (hdr.dataSectors (offset.tdiv sectorSize).toNat).toInt
  else throw .overrun

/-- `new char[size]`. -/
def newBuffer (size : Int) : DiskM Unit := if 0 ≤ size then pure () else throw .overrun

/-- The bytes from `off` on, `n` of them, are in a buffer of this size. -/
def inside (size off n : Int) : DiskM Unit :=
  if 0 ≤ off ∧ off + n ≤ size then pure () else throw .overrun

namespace OpenFile

/-- What both functions compute from a request that they do not refuse. -/
structure Span where
  /-- `numBytes`, as it is after the check against the end of the file. -/
  numBytes : Int
  firstSector : Int
  lastSector : Int
  deriving DecidableEq, Repr

namespace Span

/-- `numBytes`, cut at the end of the file. -/
def clipped (fileLength numBytes position : Int) : Int :=
  if toInt32 (position + numBytes) > fileLength then toInt32 (fileLength - position) else numBytes

/-- What is computed from the arguments. -/
def new (fileLength numBytes position : Int) : Span where
  numBytes := clipped fileLength numBytes position
  firstSector := position.tdiv sectorSize
  lastSector := (toInt32 (position + clipped fileLength numBytes position - 1)).tdiv sectorSize

/-- `numSectors`. -/
def numSectors (s : Span) : Int := toInt32 (1 + s.lastSector - s.firstSector)

/-- The size of `buf`. -/
def size (s : Span) : Int := toInt32 (s.numSectors * sectorSize)

/-- Where in `buf` the request starts. -/
def start (s : Span) (position : Int) : Int := toInt32 (position - s.firstSector * sectorSize)

/-- How often the loops over the sectors go round. -/
def turns (s : Span) : Nat := (s.lastSector - s.firstSector + 1).toNat

end Span

/-- The loop of `ReadAt` from `i`, with `k` sectors to go. -/
def readSectorsInt (hdr : FileHeader) (firstSector size : Int) :
    Nat → Int → (Nat → UInt8) → DiskM (Nat → UInt8)
  | 0, _, buf => pure buf
  | k + 1, i, buf => do
      let data ← readSector (← hdr.byteToSectorInt (toInt32 (i * sectorSize)))
      inside size (toInt32 ((i - firstSector) * sectorSize)) sectorSize
      readSectorsInt hdr firstSector size k (i + 1)
        (blit buf (toInt32 ((i - firstSector) * sectorSize)).toNat sectorSize data)

/-- The loop of `WriteAt` from `i`, with `k` sectors to go. -/
def writeSectorsInt (hdr : FileHeader) (firstSector size : Int) :
    Nat → Int → (Nat → UInt8) → DiskM Unit
  | 0, _, _ => pure ()
  | k + 1, i, buf => do
      let sector ← hdr.byteToSectorInt (toInt32 (i * sectorSize))
      inside size (toInt32 ((i - firstSector) * sectorSize)) sectorSize
      writeSector sector (fun j => buf ((toInt32 ((i - firstSector) * sectorSize)).toNat + j))
      writeSectorsInt hdr firstSector size k (i + 1) buf

/-- `ReadAt`. -/
def readAtInt (file : OpenFile) (buf into : Nat → UInt8) (numBytes position : Int) :
    DiskM (Int × (Nat → UInt8)) :=
  if numBytes ≤ 0 ∨ file.hdr.fileLength ≤ position then pure (0, into)
  else do
    let s := Span.new file.hdr.fileLength numBytes position
    newBuffer s.size
    let buf ← readSectorsInt file.hdr s.firstSector s.size s.turns s.firstSector buf
    inside s.size (s.start position) s.numBytes
    return (s.numBytes,
      blit into 0 s.numBytes.toNat (fun j => buf ((s.start position).toNat + j)))

/-- One of the two reads of `WriteAt`, to a place in its buffer. -/
def readPartInt (file : OpenFile) (size : Int) (buf' buf : Nat → UInt8) (off sector : Int)
    (needed : Bool) : DiskM (Nat → UInt8) :=
  if needed then do
    let r ← file.readAtInt buf' (fun j => buf (off.toNat + j)) sectorSize
      (toInt32 (sector * sectorSize))
    inside size off r.1
    return fun j => if j < off.toNat then buf j else r.2 (j - off.toNat)
  else return buf

/-- `WriteAt`. -/
def writeAtInt (file : OpenFile) (buf buf' buf'' src : Nat → UInt8) (numBytes position : Int) :
    DiskM Int :=
  if numBytes ≤ 0 ∨ file.hdr.fileLength ≤ position then pure 0
  else do
    let s := Span.new file.hdr.fileLength numBytes position
    newBuffer s.size
    let firstAligned := decide (position = toInt32 (s.firstSector * sectorSize))
    let lastAligned := decide
      (toInt32 (position + s.numBytes) = toInt32 ((s.lastSector + 1) * sectorSize))
    let buf ← file.readPartInt s.size buf' buf 0 s.firstSector (!firstAligned)
    let buf ← file.readPartInt s.size buf'' buf
      (toInt32 ((s.lastSector - s.firstSector) * sectorSize)) s.lastSector
      (!lastAligned && (decide (s.firstSector ≠ s.lastSector) || firstAligned))
    inside s.size (s.start position) s.numBytes
    let buf := blit buf (s.start position).toNat s.numBytes.toNat src
    writeSectorsInt file.hdr s.firstSector s.size s.turns s.firstSector buf
    return s.numBytes

end OpenFile

end Nachos.Filesys
