import Nachos.Filesys.Requests
import Nachos.Base.Logs

/-!
# What a request asks for

`ReadAt` and `WriteAt` once more, on any two `int`s, with a note of every offset they give to
`ByteToSector` and of every transfer between the buffer and the caller. The notes are all that is
new: without them these are the functions of `Filesys.Requests`. That is so for a host that
refuses a buffer of a negative size. Here the host is an argument, since to `new` such a size is a
large one, and what the functions do with the buffer is theirs to answer for.
-/

namespace Nachos.Filesys.Traffic

open Base (Logged note quiet blit Erases)

/-- What is noted. -/
inductive Event where
  /-- `ByteToSector(offset)`. -/
  | ask (offset : Int)
  /-- `bcopy` of `count` bytes of the file, from `position` on. -/
  | transfer (position count : Int)
  deriving DecidableEq, Repr

/-- Code that works on the disk, with its notes. -/
abbrev TrafficM := EStateM Stop (Logged Disk Event)

/-- `ByteToSector`, noted before it looks into the header. -/
def byteToSector (hdr : FileHeader) (offset : Int) : TrafficM Int := do
  note (.ask offset)
  quiet (hdr.byteToSectorInt offset)

/-- `bcopy` between the caller and a buffer of this size. -/
def bcopy (size off position n : Int) : TrafficM Unit := do
  note (.transfer position n)
  quiet (inside size off n)

/-- `new char[size]`: the size of the buffer. Whether there is room for it, the host knows. -/
def newBuffer (host : Nat → Bool) (size : Int) : TrafficM Int :=
  if host (toUInt32 size) then pure (toUInt32 size) else throw .overrun

/-- The loop of `ReadAt` from `i`, with `k` sectors to go. -/
def readSectors (hdr : FileHeader) (firstSector size : Int) :
    Nat → Int → (Nat → UInt8) → TrafficM (Nat → UInt8)
  | 0, _, buf => pure buf
  | k + 1, i, buf => do
      let sector ← byteToSector hdr (toInt32 (i * sectorSize))
      let data ← quiet (readSector sector)
      quiet (inside size (toInt32 ((i - firstSector) * sectorSize)) sectorSize)
      readSectors hdr firstSector size k (i + 1)
        (blit buf (toInt32 ((i - firstSector) * sectorSize)).toNat sectorSize data)

/-- The loop of `WriteAt` from `i`, with `k` sectors to go. -/
def writeSectors (hdr : FileHeader) (firstSector size : Int) :
    Nat → Int → (Nat → UInt8) → TrafficM Unit
  | 0, _, _ => pure ()
  | k + 1, i, buf => do
      let sector ← byteToSector hdr (toInt32 (i * sectorSize))
      quiet (inside size (toInt32 ((i - firstSector) * sectorSize)) sectorSize)
      quiet (writeSector sector
        (fun j => buf ((toInt32 ((i - firstSector) * sectorSize)).toNat + j)))
      writeSectors hdr firstSector size k (i + 1) buf

/-- `ReadAt`. -/
def readAt (host : Nat → Bool) (file : OpenFile) (buf into : Nat → UInt8)
    (numBytes position : Int) : TrafficM (Int × (Nat → UInt8)) :=
  if numBytes ≤ 0 ∨ file.hdr.fileLength ≤ position then pure (0, into)
  else do
    let s := OpenFile.Span.new file.hdr.fileLength numBytes position
    let size ← newBuffer host s.size
    let buf ← readSectors file.hdr s.firstSector size s.turns s.firstSector buf
    bcopy size (s.start position) position s.numBytes
    return (s.numBytes,
      blit into 0 s.numBytes.toNat (fun j => buf ((s.start position).toNat + j)))

/-- One of the two reads of `WriteAt`, to a place in its buffer. -/
def readPart (host : Nat → Bool) (file : OpenFile) (size : Int) (buf' buf : Nat → UInt8)
    (off sector : Int) (needed : Bool) : TrafficM (Nat → UInt8) :=
  if needed then do
    let r ← readAt host file buf' (fun j => buf (off.toNat + j)) sectorSize
      (toInt32 (sector * sectorSize))
    quiet (inside size off r.1)
    return fun j => if j < off.toNat then buf j else r.2 (j - off.toNat)
  else return buf

/-- `WriteAt`. -/
def writeAt (host : Nat → Bool) (file : OpenFile) (buf buf' buf'' src : Nat → UInt8)
    (numBytes position : Int) : TrafficM Int :=
  if numBytes ≤ 0 ∨ file.hdr.fileLength ≤ position then pure 0
  else do
    let s := OpenFile.Span.new file.hdr.fileLength numBytes position
    let size ← newBuffer host s.size
    let firstAligned := decide (position = toInt32 (s.firstSector * sectorSize))
    let lastAligned := decide
      (toInt32 (position + s.numBytes) = toInt32 ((s.lastSector + 1) * sectorSize))
    let buf ← readPart host file size buf' buf 0 s.firstSector (!firstAligned)
    let buf ← readPart host file size buf'' buf
      (toInt32 ((s.lastSector - s.firstSector) * sectorSize)) s.lastSector
      (!lastAligned && (decide (s.firstSector ≠ s.lastSector) || firstAligned))
    bcopy size (s.start position) position s.numBytes
    let buf := blit buf (s.start position).toNat s.numBytes.toNat src
    writeSectors file.hdr s.firstSector size s.turns s.firstSector buf
    return s.numBytes

/-! ## Without the notes -/

theorem byteToSector_erases (hdr : FileHeader) (offset : Int) :
    Erases (byteToSector hdr offset) (hdr.byteToSectorInt offset) :=
  Erases.note _ (Erases.quiet _)

theorem bcopy_erases (size off position n : Int) :
    Erases (bcopy size off position n) (inside size off n) :=
  Erases.note _ (Erases.quiet _)

theorem readSectors_erases (hdr : FileHeader) (firstSector size : Int) :
    ∀ (k : Nat) (i : Int) (buf : Nat → UInt8),
      Erases (readSectors hdr firstSector size k i buf)
        (OpenFile.readSectorsInt hdr firstSector size k i buf)
  | 0, _, buf => Erases.pure buf
  | k + 1, i, _ =>
      (byteToSector_erases hdr _).bind fun sector =>
      (Erases.quiet (readSector sector)).bind fun _ =>
      (Erases.quiet _).bind fun _ => readSectors_erases hdr firstSector size k (i + 1) _

theorem writeSectors_erases (hdr : FileHeader) (firstSector size : Int) :
    ∀ (k : Nat) (i : Int) (buf : Nat → UInt8),
      Erases (writeSectors hdr firstSector size k i buf)
        (OpenFile.writeSectorsInt hdr firstSector size k i buf)
  | 0, _, _ => Erases.pure ()
  | k + 1, i, buf =>
      (byteToSector_erases hdr _).bind fun _ =>
      (Erases.quiet _).bind fun _ =>
      (Erases.quiet _).bind fun _ => writeSectors_erases hdr firstSector size k (i + 1) buf

/-- A host that has room for whatever is not negative as an `int`. -/
def ample (n : Nat) : Bool := decide (n < 2147483648)

/-- On that host the buffer has the size that the program computed, or there is none. -/
theorem newBuffer_erases {α : Type} {k : Int → TrafficM α} {l : Unit → DiskM α} (x : Int)
    (hk : Erases (k (toInt32 x)) (l ())) :
    Erases (newBuffer ample (toInt32 x) >>= k) (Filesys.newBuffer (toInt32 x) >>= l) := by
  have hrange := toInt32_range x
  unfold intMax at hrange
  unfold newBuffer Filesys.newBuffer ample
  by_cases h : 0 ≤ toInt32 x
  · have hsame : (toUInt32 (toInt32 x) : Int) = toInt32 x := by
      unfold toUInt32
      omega
    rw [if_pos (decide_eq_true (by omega)), if_pos h, hsame]
    exact hk
  · have hlarge : ¬ toUInt32 (toInt32 x) < 2147483648 := by
      unfold toUInt32
      omega
    rw [if_neg (by simpa using hlarge), if_neg h]
    exact fun _ => rfl

/-- **`ReadAt` without its notes.** -/
theorem readAt_erases (file : OpenFile) (buf into : Nat → UInt8) (numBytes position : Int) :
    Erases (readAt ample file buf into numBytes position)
      (file.readAtInt buf into numBytes position) := by
  refine Erases.ite (fun _ => Erases.pure _) fun _ => newBuffer_erases _ ?_
  refine (readSectors_erases _ _ _ _ _ _).bind fun buf' => ?_
  exact (bcopy_erases _ _ _ _).bind fun _ => Erases.pure _

theorem readPart_erases (file : OpenFile) (size : Int) (buf' buf : Nat → UInt8) (off sector : Int)
    (needed : Bool) :
    Erases (readPart ample file size buf' buf off sector needed)
      (file.readPartInt size buf' buf off sector needed) := by
  refine Erases.ite (fun _ => ?_) fun _ => Erases.pure _
  refine (readAt_erases file _ _ _ _).bind fun r => ?_
  exact (Erases.quiet _).bind fun _ => Erases.pure _

/-- **`WriteAt` without its notes.** -/
theorem writeAt_erases (file : OpenFile) (buf buf' buf'' src : Nat → UInt8)
    (numBytes position : Int) :
    Erases (writeAt ample file buf buf' buf'' src numBytes position)
      (file.writeAtInt buf buf' buf'' src numBytes position) := by
  refine Erases.ite (fun _ => Erases.pure _) fun _ => newBuffer_erases _ ?_
  refine (readPart_erases _ _ _ _ _ _ _).bind fun _ => ?_
  refine (readPart_erases _ _ _ _ _ _ _).bind fun _ => ?_
  refine (bcopy_erases _ _ _ _).bind fun _ => ?_
  exact (writeSectors_erases _ _ _ _ _ _).bind fun _ => Erases.pure _

end Nachos.Filesys.Traffic
