import Nachos.Base.Program
import Nachos.Threads.STable

/-!
# Files of the host: `filesys/openfile.h`, `filesys/filesys.h` and `lib/sysdep.cc`

The kernel is built with `FILESYS_STUB`: a Nachos file is a file of the host, and an
`OpenFile` is a descriptor with an offset of its own. The host is not part of the
kernel. `HostOps` lists the calls the kernel makes to it; what it answers, and what
becomes of its files, is left to it.

`sysdep.cc` wraps these calls, and some of the wrappers assert that the call went well.
-/

namespace Nachos

/-- How the kernel can stop in the middle of what it does. -/
inductive Stop where
  /-- `Halt` was called. -/
  | halted
  /-- An `ASSERT` failed, or an exception of the host was not caught. -/
  | aborted
  /-- A pointer was followed that points nowhere, or memory behind an object was written to. -/
  | crashed
  /-- It waits for something that does not happen. -/
  | blocked
  deriving DecidableEq, Repr

/-- The flags that the kernel opens files with. -/
inductive OpenFlags where
  /-- `O_RDWR | O_CREAT | O_TRUNC`. -/
  | create
  /-- `O_RDWR`. -/
  | readWrite
  /-- `O_RDONLY`. -/
  | read
  deriving DecidableEq, Repr

/-- The last argument of `lseek`. -/
inductive Whence where
  /-- `SEEK_SET`. -/
  | set
  /-- `SEEK_CUR`. -/
  | cur
  /-- `SEEK_END`. -/
  | fromEnd
  deriving DecidableEq, Repr

/-- The calls to the host, which is in some state `η`. -/
structure HostOps (η : Type) where
  /-- `open`: a descriptor, or `-1`. -/
  open_ : CString → OpenFlags → η → Int × η
  close : Int → η → Int × η
  /-- `read` of so many bytes: the number it returns, and what it put into the buffer. -/
  read : Int → Int → η → (Int × List UInt8) × η
  /-- `write` of so many bytes of a buffer. -/
  write : Int → List UInt8 → Int → η → Int × η
  lseek : Int → Int → Whence → η → Int × η
  /-- `rand`, after `srand(time(NULL))`. -/
  rand : η → Nat × η
  /-- What a variable that nobody has set happens to hold. -/
  unset : η → Int

/-- An open file. -/
structure OpenFile where
  /-- The descriptor. -/
  file : Int
  currentOffset : Int
  type : Int
  deriving DecidableEq, Repr

/-- `MAX_FILE_OPEN`: the slots of a file table. -/
def maxFileOpen : Nat := 10

/-- `INPUT_TYPE`. -/
def inputType : Int := 1

/-- `OUTPUT_TYPE`. -/
def outputType : Int := 0

/-- `READONLY_TYPE`. -/
def readonlyType : Int := 3

/-- `READWRITE_TYPE`. -/
def readwriteType : Int := 2

/-- `INDEX_STDIN`. -/
def indexStdin : Int := 1

/-- `INDEX_STDOUT`. -/
def indexStdout : Int := 0

/-- A computation on the host. -/
abbrev HostM (η : Type) := EStateM Stop η

/-- `ASSERT`. -/
def assert {σ : Type} (c : Prop) [Decidable c] : EStateM Stop σ Unit :=
  if c then pure () else throw .aborted

variable {η : Type} (H : HostOps η)

/-! ## `sysdep.cc` -/

/-- A call to the host. -/
def hostCall {α : Type} (f : η → α × η) : HostM η α :=
  fun s => .ok (f s).1 (f s).2

/-- `OpenForWrite`, which creates the file or empties it. -/
def openForWrite (name : CString) : HostM η Int := do
  let fd ← hostCall (H.open_ name .create)
  assert (0 ≤ fd)
  pure fd

/-- `OpenForReadWrite`, with `crashOnError` false. -/
def openForReadWrite (name : CString) : HostM η Int := hostCall (H.open_ name .readWrite)

/-- `OpenForRead`, with `crashOnError` false. -/
def openForRead (name : CString) : HostM η Int := hostCall (H.open_ name .read)

/-- `ReadPartial`, whose answer is that of the host. -/
def readPartial (fd nBytes : Int) : HostM η (Int × List UInt8) := hostCall (H.read fd nBytes)

/-- `WriteFile`. A short write is fatal. -/
def writeFile (fd : Int) (buffer : List UInt8) (nBytes : Int) : HostM η Unit := do
  let retVal ← hostCall (H.write fd buffer nBytes)
  assert (retVal = nBytes)

/-- `Lseek`. -/
def lseek (fd offset : Int) (whence : Whence) : HostM η Unit := do
  let retVal ← hostCall (H.lseek fd offset whence)
  assert (0 ≤ retVal)

/-- `Tell`: the offset of the descriptor. -/
def tell (fd : Int) : HostM η Int := hostCall (H.lseek fd 0 .cur)

/-- `Close`. -/
def closeFile (fd : Int) : HostM η Int := do
  let retVal ← hostCall (H.close fd)
  assert (0 ≤ retVal)
  pure retVal

/-! ## `OpenFile`

A method that changes the object returns it. -/

namespace OpenFile

/-- `ReadAt`. It moves the offset of the descriptor. -/
def readAt (f : OpenFile) (numBytes position : Int) : HostM η (Int × List UInt8) := do
  lseek H f.file position .set
  readPartial H f.file numBytes

/-- `WriteAt`, likewise. -/
def writeAt (f : OpenFile) (from_ : List UInt8) (numBytes position : Int) : HostM η Int := do
  lseek H f.file position .set
  writeFile H f.file from_ numBytes
  pure numBytes

/-- `Read`. An error, of -1, moves `currentOffset` back. -/
def read (f : OpenFile) (numBytes : Int) : HostM η ((Int × List UInt8) × OpenFile) := do
  let r ← f.readAt H numBytes f.currentOffset
  pure (r, { f with currentOffset := toInt32 (f.currentOffset + r.1) })

/-- `Write`. -/
def write (f : OpenFile) (from_ : List UInt8) (numBytes : Int) : HostM η (Int × OpenFile) := do
  let numWritten ← f.writeAt H from_ numBytes f.currentOffset
  pure (numWritten, { f with currentOffset := toInt32 (f.currentOffset + numWritten) })

/-- `Length`, which leaves the offset of the descriptor at the end. -/
def length (f : OpenFile) : HostM η Int := do
  lseek H f.file 0 .fromEnd
  tell H f.file

/-- `GetCurrentOffset`. -/
def getCurrentOffset (f : OpenFile) : HostM η (Int × OpenFile) := do
  let offset ← tell H f.file
  pure (offset, { f with currentOffset := offset })

/-- `Seek`. -/
def seek (f : OpenFile) (position : Int) : HostM η OpenFile := do
  lseek H f.file position .set
  let offset ← tell H f.file
  pure { f with currentOffset := offset }

end OpenFile

/-! ## `FileSystem` -/

namespace FileSystem

/-- `Create`. -/
def create (name : CString) : HostM η Bool := do
  let fileDescriptor ← openForWrite H name
  if fileDescriptor = -1 then pure false
  else
    let _ ← closeFile H fileDescriptor
    pure true

/-- `Open(name)`. The constructor leaves `type` alone; nobody asks this object for it. -/
def open_ (name : CString) : HostM η (Option OpenFile) := do
  let fileDescriptor ← openForReadWrite H name
  if fileDescriptor = -1 then pure none else pure (some ⟨fileDescriptor, 0, 0⟩)

/-- `Open(name, type)`. For another type than the four the descriptor is never set. -/
def openType (name : CString) (type : Int) : HostM η (Option OpenFile) := do
  let fileDescriptor ←
    if type = outputType then openForWrite H name
    else if type = inputType ∨ type = readonlyType then openForRead H name
    else if type = readwriteType then openForReadWrite H name
    -- no branch is taken, and the variable has whatever was there
    else hostCall fun s => (H.unset s, s)
  if fileDescriptor = -1 then pure none else pure (some ⟨fileDescriptor, 0, type⟩)

/-- The loop of `FindFreeSlot` from index `i`, with `k` indices to go. -/
def findFreeSlotFrom (fileTable : Nat → Option OpenFile) : Nat → Nat → Int
  | _, 0 => -1
  | i, k + 1 => if (fileTable i).isNone then i else findFreeSlotFrom fileTable (i + 1) k

/-- `FindFreeSlot`. The first two slots belong to the console. -/
def findFreeSlot (fileTable : Nat → Option OpenFile) : Int :=
  findFreeSlotFrom fileTable 2 (maxFileOpen - 2)

end FileSystem

end Nachos
