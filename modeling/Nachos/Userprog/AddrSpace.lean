import Nachos.Lib.Bitmap
import Nachos.Machine.Translate

/-!
# Address spaces: `userprog/noff.h` and `userprog/addrspace.cc`

The constructor reads a NOFF header, takes as many frames as the program needs
from `gPhysPageBitmap`, and then runs one loop per segment that reads a page of
the file for *every* page of the address space. The destination of each read is
`mainMemory + virtualAddr + frame * PageSize`: the virtual address of the segment
is added to a physical frame, and no address is translated.

The build defines `RDATA`, so the header has a `readonlyData` segment. The
constructor neither counts it nor loads it; `AddrSpace::Load` does both.

When too few frames are clear the constructor deletes `executable`, gives the lock back and
*goes on* with no pages, and so it comes to the other `V` and to the other `delete` as well. The
destructor of an `OpenFile` closes its descriptor, and `Close` asserts that the host had it open.
The second time it has not.
-/

namespace Nachos

/-- `UserStackSize`. -/
def userStackSize : Nat := 1024

/-- `NOFFMAGIC`. -/
def noffMagicNumber : Int := 0xbadfad

/-- A segment of a NOFF file. -/
structure Segment where
  /-- Location in virtual memory. -/
  virtualAddr : Int
  /-- Location in the file. -/
  inFileAddr : Int
  /-- Size in bytes. -/
  size : Int
  deriving DecidableEq, Repr

/-- The header of a NOFF file. -/
structure NoffHeader where
  /-- Should be `NOFFMAGIC`. -/
  noffMagic : Int
  /-- Executable code. -/
  code : Segment
  /-- Initialized data. -/
  initData : Segment
  /-- Read only data. -/
  readonlyData : Segment
  /-- Uninitialized data. -/
  uninitData : Segment
  deriving DecidableEq, Repr

/-- `sizeof(NoffHeader)`: thirteen `int`s. -/
def noffHeaderSize : Nat := 52

/-- The bytes of a file of the host. -/
abbrev HostFile := List UInt8

/-! ## Reading the header -/

/-- The `int` at byte `off` of a buffer, lowest byte first. -/
def wordAt (buf : Nat → UInt8) (off : Nat) : Int :=
  toInt32 ((buf off).toNat + 256 * (buf (off + 1)).toNat
    + 65536 * (buf (off + 2)).toNat + 16777216 * (buf (off + 3)).toNat)

/-- The three `int`s of a segment. -/
def segmentAt (buf : Nat → UInt8) (off : Nat) : Segment :=
  ⟨wordAt buf off, wordAt buf (off + 4), wordAt buf (off + 8)⟩

/-- The buffer read as a `NoffHeader`. -/
def NoffHeader.decode (buf : Nat → UInt8) : NoffHeader :=
  ⟨wordAt buf 0, segmentAt buf 4, segmentAt buf 16, segmentAt buf 28, segmentAt buf 40⟩

/-- `WordToHost` on a little-endian host. -/
def wordToHost (word : Int) : Int := word

/-- `WordToHost` on each field of a segment. -/
def Segment.swap (s : Segment) : Segment :=
  ⟨wordToHost s.virtualAddr, wordToHost s.inFileAddr, wordToHost s.size⟩

/-- `SwapHeader`. -/
def swapHeader (h : NoffHeader) : NoffHeader :=
  ⟨wordToHost h.noffMagic, h.code.swap, h.initData.swap, h.readonlyData.swap, h.uninitData.swap⟩

/-- `noffH` after `ReadAt((char *)&noffH, sizeof(noffH), 0)`: where the file ends early, what
the stack held before. -/
def headerBuffer (file : HostFile) (stack : Nat → UInt8) (i : Nat) : UInt8 :=
  if i < noffHeaderSize then file.getD i (stack i) else stack i

/-- `noffH` when the magic number is tested. -/
def noffHeader (file : HostFile) (stack : Nat → UInt8) : NoffHeader :=
  let noffH := NoffHeader.decode (headerBuffer file stack)
  if noffH.noffMagic ≠ noffMagicNumber ∧ wordToHost noffH.noffMagic = noffMagicNumber then
    swapHeader noffH
  else noffH

/-! ## Pages and frames -/

/-- `size` before it is rounded: an `unsigned int`. -/
def NoffHeader.spaceSize (h : NoffHeader) : Nat :=
  toUInt32 (h.code.size + h.initData.size + h.uninitData.size + userStackSize)

/-- `numPages` as first computed. -/
def NoffHeader.numPages (h : NoffHeader) : Nat := divRoundUp h.spaceSize pageSize

/-- The loop that fills the page table, from page `i` on with `k` pages to go. -/
def allocPages : Nat → Nat → Bitmap → List TranslationEntry × Bitmap
  | _, 0, b => ([], b)
  | i, k + 1, b =>
      let r := b.findAndSet
      let rest := allocPages (i + 1) k r.2
      ({ virtualPage := i, physicalPage := r.1, valid := true, readOnly := false,
         use := false, dirty := false } :: rest.1, rest.2)

/-- The pages the constructor goes on with: none when too few frames are clear. -/
def NoffHeader.pagesGranted (h : NoffHeader) (b : Bitmap) : Nat :=
  if b.numClear < h.numPages then 0 else h.numPages

/-! ## Loading -/

/-- `OpenFile::ReadAt` into memory. `Lseek` aborts on a negative position; `read` delivers what
the file has. -/
def readAt (file : HostFile) (into : Int) (numBytes : Nat) (position : Int) (mem : Memory) :
    Option Memory :=
  if position < 0 then none
  else some fun a =>
    if into ≤ a ∧ a < into + (min numBytes (file.length - position.toNat) : Nat) then
      file.getD (position + (a - into)).toNat 0
    else mem a

/-- The position read for page `i`: computed as `unsigned`, passed as `int`. -/
def loadPosition (seg : Segment) (i : Nat) : Int := toInt32 (seg.inFileAddr + (i * pageSize : Nat))

/-- No loop of the constructor asks for a negative position. -/
def NoffHeader.seeks (h : NoffHeader) (numPages : Nat) : Bool :=
  [h.code, h.initData].all fun seg =>
    decide (0 < seg.size → ∀ i, i < numPages → 0 ≤ loadPosition seg i)

/-- The loop of a segment, from page `i` on. -/
def loadPages (file : HostFile) (seg : Segment) :
    Nat → List TranslationEntry → Memory → Option Memory
  | _, [], mem => some mem
  | i, e :: es, mem =>
      (readAt file (seg.virtualAddr + e.physicalPage * pageSize) pageSize (loadPosition seg i)
        mem).bind (loadPages file seg (i + 1) es)

/-- A segment is loaded when its size is positive. -/
def loadSegment (file : HostFile) (seg : Segment) (table : List TranslationEntry) (mem : Memory) :
    Option Memory :=
  if 0 < seg.size then loadPages file seg 0 table mem else some mem

/-- What the constructor leaves behind. -/
structure Built where
  /-- `gPhysPageBitmap`. -/
  bitmap : Bitmap
  /-- Main memory. -/
  mem : Memory
  /-- The field `numPages`. -/
  numPages : Nat
  /-- The array `pageTable`. -/
  pageTable : List TranslationEntry

/-- The page table and the bitmap after the loop that fills the table. -/
def NoffHeader.alloc (h : NoffHeader) (b : Bitmap) : List TranslationEntry × Bitmap :=
  allocPages 0 (h.pagesGranted b) b

/-- What is left behind, given memory after the loads. -/
def NoffHeader.built (h : NoffHeader) (b : Bitmap) (mem : Memory) : Built where
  bitmap := (h.alloc b).2
  mem := mem
  numPages := h.pagesGranted b
  pageTable := (h.alloc b).1

/-- The constructor from the point where it takes `addrLock`. -/
def AddrSpace.load (h : NoffHeader) (file : HostFile) (b : Bitmap) (mem : Memory) : Option Built :=
  (loadSegment file h.code (h.alloc b).1 mem).bind fun mem₁ =>
    (loadSegment file h.initData (h.alloc b).1 mem₁).bind fun mem₂ =>
      -- `delete executable`, for the second time when too few frames were clear
      if b.numClear < h.numPages then none else some (h.built b mem₂)

/-- The constructor, once the file is open. `none` is an `ASSERT` that fails. -/
def AddrSpace.construct (file : HostFile) (stack : Nat → UInt8) (b : Bitmap) (mem : Memory) :
    Option Built :=
  if (noffHeader file stack).noffMagic ≠ noffMagicNumber then none
  else AddrSpace.load (noffHeader file stack) file b mem

/-! ## `Load` -/

/-- `size` as `Load` computes it: the read only data count here. -/
def NoffHeader.loadSize (h : NoffHeader) : Nat :=
  toUInt32 (h.code.size + h.readonlyData.size + h.initData.size + h.uninitData.size + userStackSize)

/-- `numPages` as `Load` computes it. -/
def NoffHeader.loadNumPages (h : NoffHeader) : Nat := divRoundUp h.loadSize pageSize

/-- One segment, read in one piece to its virtual address. -/
def readSegment (file : HostFile) (seg : Segment) (mem : Memory) : Option Memory :=
  if 0 < seg.size then readAt file seg.virtualAddr seg.size.toNat seg.inFileAddr mem else some mem

/-- `Load` from the point where it has the header, on the address space that the constructor has
left. It replaces `numPages` and keeps the table. -/
def AddrSpace.loadHeader (h : NoffHeader) (file : HostFile) (space : Built) : Option Built :=
  if h.loadNumPages ≤ numPhysPages then
    (readSegment file h.code space.mem).bind fun mem₁ =>
      (readSegment file h.initData mem₁).bind fun mem₂ =>
        (readSegment file h.readonlyData mem₂).map fun mem₃ =>
          { space with mem := mem₃, numPages := h.loadNumPages }
  else none

/-- `Load`, once the file is open. `none` is an `ASSERT` that fails. -/
def AddrSpace.loadProgram (file : HostFile) (stack : Nat → UInt8) (space : Built) : Option Built :=
  if (noffHeader file stack).noffMagic ≠ noffMagicNumber then none
  else AddrSpace.loadHeader (noffHeader file stack) file space

/-! ## `RestoreState` -/

/-- The hardware is told of the table, and of `numPages`. Behind the end of the table lies whatever
the host has there. -/
def Built.restoreState (r : Built) (m : Machine) : Machine :=
  { m with
    mainMemory := r.mem
    pageTable := fun i => (r.pageTable[i]?).getD (m.pageTable i)
    pageTableSize := r.numPages }

end Nachos
