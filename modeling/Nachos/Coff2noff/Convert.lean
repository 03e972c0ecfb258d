import Nachos.Base.Bytes
import Nachos.Base.Cursor
import Nachos.Base.Program

/-!
# From COFF to NOFF: `coff2noff/coff2noff.c`

The program reads the headers of a COFF file and copies its sections to the output, one after the
other in the order of their headers. Where a section goes is counted in `inNoffFile`, apart from the
offset that the output really has. The NOFF header is written last, over the bytes that were left
for it.

It is compiled for a 32-bit host with the low byte first, with `RDATA`: a `long` is a word, and
`WordToHost` and `ShortToHost` do nothing. What it prints is left out.
-/

namespace Nachos.Coff2noff

open Base (packWords writeOver)

/-! ## The formats -/

/-- `MIPSELMAGIC`. -/
def mipselMagic : BitVec 16 := 0x0162#16

/-- `OMAGIC`, which is octal 407. -/
def oMagic : BitVec 16 := 0x0107#16

/-- `NOFFMAGIC`. -/
def noffMagicNumber : BitVec 32 := 0xbadfad#32

/-- `WordToHost`, on a host that stores the low byte first. -/
def wordToHost (word : BitVec 32) : BitVec 32 := word

/-- `ShortToHost`, likewise. -/
def shortToHost (shortword : BitVec 16) : BitVec 16 := shortword

/-- The short that lies at `b + i`. -/
def shortAt (b : Nat → UInt8) (i : Nat) : BitVec 16 := (b (i + 1)).toBitVec ++ (b i).toBitVec

/-- A `filehdr`. -/
structure Filehdr where
  fMagic : BitVec 16
  fNscns : BitVec 16
  deriving DecidableEq, Repr

/-- `sizeof(struct filehdr)`. -/
def filehdrSize : Nat := 20

/-- The header that lies at `b`. -/
def Filehdr.ofBytes (b : Nat → UInt8) : Filehdr :=
  ⟨shortToHost (shortAt b 0), shortToHost (shortAt b 2)⟩

/-- An `aouthdr`. -/
structure Aouthdr where
  magic : BitVec 16
  deriving DecidableEq, Repr

/-- `sizeof(struct aouthdr)`. -/
def aouthdrSize : Nat := 56

/-- The header that lies at `b`. -/
def Aouthdr.ofBytes (b : Nat → UInt8) : Aouthdr := ⟨shortToHost (shortAt b 0)⟩

/-- A `scnhdr`. -/
structure Scnhdr where
  /-- Eight of them. -/
  sName : Nat → UInt8
  sPaddr : BitVec 32
  sSize : BitVec 32
  sScnptr : BitVec 32

/-- `sizeof(struct scnhdr)`. -/
def scnhdrSize : Nat := 40

/-- The header that lies at `b`. -/
def Scnhdr.ofBytes (b : Nat → UInt8) : Scnhdr where
  sName := fun k => if k < 8 then b k else 0
  sPaddr := wordToHost (Base.wordAt b 8)
  sSize := wordToHost (Base.wordAt b 16)
  sScnptr := wordToHost (Base.wordAt b 20)

/-- `n` section headers that lie one after the other. -/
def Scnhdr.table (n : Nat) (b : Nat → UInt8) : List Scnhdr :=
  (List.range n).map fun i => Scnhdr.ofBytes fun k => b (scnhdrSize * i + k)

/-- `!strcmp(s_name, name)`. -/
def strcmpEq (s : Nat → UInt8) : List UInt8 → Nat → Bool
  | [], i => s i == 0
  | c :: name, i => s i == c && strcmpEq s name (i + 1)

/-- The section has this name. -/
def Scnhdr.named (s : Scnhdr) (name : List UInt8) : Bool := strcmpEq s.sName name 0

/-- `".text"`. -/
def dotText : List UInt8 := [46, 116, 101, 120, 116]

/-- `".data"`. -/
def dotData : List UInt8 := [46, 100, 97, 116, 97]

/-- `".rdata"`. -/
def dotRdata : List UInt8 := [46, 114, 100, 97, 116, 97]

/-- `".bss"`. -/
def dotBss : List UInt8 := [46, 98, 115, 115]

/-- A segment of a NOFF file. -/
structure Segment where
  virtualAddr : BitVec 32
  inFileAddr : BitVec 32
  size : BitVec 32
  deriving DecidableEq, Repr

/-- The header of a NOFF file. -/
structure NoffHeader where
  noffMagic : BitVec 32
  code : Segment
  initData : Segment
  readonlyData : Segment
  uninitData : Segment
  deriving DecidableEq, Repr

/-- `sizeof(NoffHeader)`. -/
def noffHeaderSize : Nat := 52

/-- One segment of the header. -/
def Segment.swap (s : Segment) : Segment :=
  ⟨wordToHost s.virtualAddr, wordToHost s.inFileAddr, wordToHost s.size⟩

/-- `SwapHeader`. -/
def swapHeader (h : NoffHeader) : NoffHeader :=
  ⟨wordToHost h.noffMagic, h.code.swap, h.initData.swap, h.readonlyData.swap, h.uninitData.swap⟩

/-- The fields, in their order. -/
def Segment.words (s : Segment) : List (BitVec 32) := [s.virtualAddr, s.inFileAddr, s.size]

/-- The words of the whole header. -/
def NoffHeader.words (h : NoffHeader) : List (BitVec 32) :=
  h.noffMagic :: (h.code.words ++ h.initData.words ++ h.readonlyData.words ++ h.uninitData.words)

/-- The header as it lies in memory. -/
def NoffHeader.bytes (h : NoffHeader) : List UInt8 :=
  (List.range noffHeaderSize).map (packWords fun i => h.words.getD i 0)

/-! ## The host -/

/-- What the host has to offer. Its file offsets are words with a sign. -/
structure Host where
  /-- The largest block that `malloc` gives. -/
  memory : Nat
  /-- The longest file that can be written. -/
  room : Nat
  room_lt : room < 2147483648

/-- Why the program exits with status 1. It has unlinked the output. -/
inductive Failure where
  | tooShort
  | unableToWrite
  | notMipsel
  | notOmagic
  | bothBss
  | unknownType (sName : Nat → UInt8)

/-- What it says, up to the name of the section. -/
def Failure.message : Failure → String
  | tooShort => "File is too short\n"
  | unableToWrite => "Unable to write file\n"
  | notMipsel => "File is not a MIPSEL COFF file\n"
  | notOmagic => "File is not a OMAGIC file\n"
  | bothBss => "Can't handle both bss and sbss\n"
  | unknownType _ => "Unknown segment type: "

/-- `read` from a regular file: what is there, as much as is asked for. A count that is negative or
a block that `malloc` did not give is an error. -/
def hostRead (file : List UInt8) (off : Nat) (block : Bool) (nBytes : Int) : Int × List UInt8 :=
  if nBytes < 0 ∨ block = false then (-1, [])
  else
    let bytes := (file.drop off).take nBytes.toNat
    (bytes.length, bytes)

/-- `write`, and the file after it. -/
def hostWrite (room : Nat) (out : List UInt8) (off : Nat) (block : Bool) (nBytes : Int)
    (buffer : List UInt8) : Int × List UInt8 :=
  if nBytes < 0 ∨ block = false then (-1, out)
  else
    let n := min nBytes.toNat (room - off)
    if n = 0 then (if nBytes = 0 then 0 else -1, out)
    else (n, writeOver 0 out off (buffer.take n))

/-- The offset after `lseek(fd, off, 0)`, whose result nobody looks at. -/
def lseek (off : BitVec 32) (offset : Nat) : Nat := if off.toInt < 0 then offset else off.toNat

/-! ## The program -/

/-- The variables of `main`, and the files. -/
structure Conv where
  /-- The offset of the input. -/
  fdIn : Nat
  /-- The output. -/
  out : List UInt8
  /-- The offset of the output. -/
  fdOut : Nat
  inNoffFile : BitVec 32
  noffH : NoffHeader

/-- Code of the program, which may exit early. -/
abbrev CoffM := EStateM Failure Conv

section Program

variable (host : Host) (file : List UInt8)

/-- `Read`. -/
def read (block : Bool) (nBytes : BitVec 32) : CoffM (List UInt8) := do
  let c ← get
  let r := hostRead file c.fdIn block nBytes.toInt
  if r.1 ≠ nBytes.toInt then throw .tooShort
  else do
    set { c with fdIn := c.fdIn + r.2.length }
    return r.2

/-- `Write`. -/
def write (block : Bool) (buffer : List UInt8) (nBytes : BitVec 32) : CoffM Unit := do
  let c ← get
  let r := hostWrite host.room c.out c.fdOut block nBytes.toInt buffer
  if r.1 ≠ nBytes.toInt then throw .unableToWrite
  else set { c with out := r.2, fdOut := c.fdOut + r.1.toNat }

/-- `.text`, `.data` or `.rdata`: its segment is noted in the header and its bytes are copied. -/
def copySegment (put : Segment → NoffHeader → NoffHeader) (s : Scnhdr) : CoffM Unit := do
  modify fun c => { c with
    noffH := put ⟨s.sPaddr, c.inNoffFile, s.sSize⟩ c.noffH
    fdIn := lseek s.sScnptr c.fdIn }
  let block := decide (s.sSize.toNat ≤ host.memory)
  let buffer ← read file block s.sSize
  write host block buffer s.sSize
  modify fun c => { c with inNoffFile := c.inNoffFile + s.sSize }

/-- `.bss`. -/
def mergeBss (s : Scnhdr) : CoffM Unit := do
  let c ← get
  let u := c.noffH.uninitData
  if u.size ≠ 0#32 then
    -- the comparison in the source: sections that lie end to end are refused
    if s.sPaddr = u.virtualAddr + u.size then throw .bothBss
    else set { c with noffH := { c.noffH with uninitData := { u with size := u.size + s.sSize } } }
  else
    set { c with noffH := { c.noffH with
      uninitData := { u with virtualAddr := s.sPaddr, size := s.sSize } } }

/-- One turn of the loop. -/
def loadSection (s : Scnhdr) : CoffM Unit :=
  if s.sSize = 0#32 then pure ()
  else if s.named dotText then copySegment host file (fun seg h => { h with code := seg }) s
  else if s.named dotData then copySegment host file (fun seg h => { h with initData := seg }) s
  else if s.named dotRdata then
    copySegment host file (fun seg h => { h with readonlyData := seg }) s
  else if s.named dotBss then mergeBss s
  else throw (.unknownType s.sName)

/-- The loop. -/
def loadSections : List Scnhdr → CoffM Unit
  | [] => pure ()
  | s :: ss => do
      loadSection host file s
      loadSections ss

/-- What is known of the header before the loop. -/
def NoffHeader.init (h : NoffHeader) : NoffHeader :=
  { noffMagic := noffMagicNumber
    code := { h.code with size := 0#32 }
    initData := { h.initData with size := 0#32 }
    readonlyData := { h.readonlyData with size := 0#32 }
    uninitData := { h.uninitData with size := 0#32 } }

/-- `main`, once the files are open. -/
def main : CoffM Unit := do
  let bytes ← read file true (BitVec.ofNat 32 filehdrSize)
  let fileh := Filehdr.ofBytes fun k => bytes.getD k 0
  if fileh.fMagic ≠ mipselMagic then throw .notMipsel
  else do
    let bytes ← read file true (BitVec.ofNat 32 aouthdrSize)
    let systemh := Aouthdr.ofBytes fun k => bytes.getD k 0
    if systemh.magic ≠ oMagic then throw .notOmagic
    else do
      let numsections := fileh.fNscns.toNat
      let bytes ← read file (decide (numsections * scnhdrSize ≤ host.memory))
        (BitVec.ofNat 32 (numsections * scnhdrSize))
      let sections := Scnhdr.table numsections fun k => bytes.getD k 0
      modify fun c => { c with
        noffH := c.noffH.init
        inNoffFile := BitVec.ofNat 32 noffHeaderSize
        fdOut := noffHeaderSize }
      loadSections host file sections
      -- the header is written last, in front of the segments
      modify fun c => { c with fdOut := 0, noffH := swapHeader c.noffH }
      let c ← get
      write host true c.noffH.bytes (BitVec.ofNat 32 noffHeaderSize)

/-- The state when the files have been opened. The header is whatever the stack held. -/
def Conv.start (stack : NoffHeader) : Conv := ⟨0, [], 0, 0#32, stack⟩

/-- The output, if the program exits with status 0. -/
def convert (stack : NoffHeader) : Except Failure (List UInt8) :=
  match main host file (Conv.start stack) with
  | .ok _ c => .ok c.out
  | .error e _ => .error e

end Program

end Nachos.Coff2noff
