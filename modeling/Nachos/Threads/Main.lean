import Nachos.Filesys.Volume

/-!
# The file commands of `main.cc`

`-r`, `-cp`, `-l` and `-p` remove a file, copy one in from UNIX, list the directory and print a
file. One run of the program does what it is asked to in this order. The next run starts the file
system again from the disk.
-/

namespace Nachos.Filesys

open Base (blit)

/-- A file of UNIX. A read gives a part of what is left, which need not be all that was asked for:
the `k`-th one no more than `short k + 1` bytes. -/
structure UnixFile where
  bytes : List UInt8
  short : Nat → Nat

/-- `ReadPartial`, the `k`-th time, with this much of the file left. -/
def UnixFile.readPartial (u : UnixFile) (k : Nat) (rest : List UInt8) (nBytes : Nat) : List UInt8 :=
  rest.take (min nBytes (u.short k + 1))

theorem UnixFile.readPartial_length (u : UnixFile) (k : Nat) (rest : List UInt8) (nBytes : Nat) :
    (u.readPartial k rest nBytes).length = min (min nBytes (u.short k + 1)) rest.length :=
  List.length_take

/-- What the calls of `new` during one run hand out. -/
structure RunMemory where
  /-- For `Remove`, `Create`, `Open` (twice) and `List`. -/
  fresh : Nat → Fresh
  /-- The buffers of `ReadAt` and `WriteAt`, in the order in which they are allocated. -/
  buf : Nat → Nat → UInt8
  /-- The buffers of `Copy` and `Print`. -/
  buffer : Nat → UInt8

/-- Whether a call was successful. -/
def Answer.success : Answer → Bool
  | .flag success => success
  | _ => false

/-- The number a call returned, and the buffer it filled. -/
def Answer.amount : Answer → Int × (Nat → UInt8)
  | .bytes n into => (n, into)
  | _ => (0, fun _ => 0)

/-- The lines that were printed. -/
def Answer.printed : Answer → List (List UInt8)
  | .lines l => l
  | _ => []

/-- `TransferSize`: how much `Copy` and `Print` move at a time. -/
def transferSize : Nat := 128

/-- Text, as bytes. -/
def text (s : String) : List UInt8 := s.toList.map fun c => UInt8.ofNat c.toNat

/-- The loop of `Copy`, from the `k`-th read on. -/
def copyLoop (h : Nat) (m : RunMemory) (u : UnixFile) (k : Nat) (buffer : Nat → UInt8)
    (rest : List UInt8) : VolumeM Unit :=
  let chunk := u.readPartial k rest transferSize
  if hread : 0 < chunk.length then do
    -- only as much is written as was read, wherever a read is short
    let buffer := blit buffer 0 chunk.length fun j => chunk.getD j 0
    let _ ← Volume.call
      (.write h (m.buf (3 * k)) (m.buf (3 * k + 1)) (m.buf (3 * k + 2)) buffer chunk.length)
    copyLoop h m u (k + 1) buffer (rest.drop chunk.length)
  else pure ()
termination_by rest.length
decreasing_by
  have hlen := u.readPartial_length k rest transferSize
  rw [List.length_drop]
  show rest.length - (u.readPartial k rest transferSize).length < rest.length
  have hpos : 0 < (u.readPartial k rest transferSize).length := hread
  omega

/-- `Copy`, when the UNIX file is open. What it prints is returned, and the new file is kept under
`h` while it is open. -/
def copyFile (h : Nat) (m : RunMemory) (u : UnixFile) (dst : List UInt8) :
    VolumeM (List UInt8) := do
  let fileLength := toInt32 u.bytes.length
  let created ← Volume.call (.create (m.fresh 1) dst fileLength)
  if !created.success then
    return text "Copy: couldn't create output file " ++ dst ++ text "\n"
  else
    let opened ← Volume.call (.openFile h (m.fresh 2) dst)
    if !opened.success then throw (.stop .assertion)
    else
      copyLoop h m u 0 m.buffer u.bytes
      let _ ← Volume.call (.close h)
      return []

/-- `Copy`, with the message it prints. -/
def copy (h : Nat) (m : RunMemory) (unix : List UInt8 → Option UnixFile) (src dst : List UInt8) :
    VolumeM (List UInt8) :=
  match unix src with
  | none => return text "Copy: couldn't open input file " ++ src ++ text "\n"
  | some u => copyFile h m u dst

/-- The loop of `Print` from the `k`-th read on, as far as `fuel` reads go. -/
def printLoop (h : Nat) (m : RunMemory) : Nat → Nat → (Nat → UInt8) → VolumeM (Option (List UInt8))
  | 0, _, _ => pure none
  | fuel + 1, k, buffer => do
      let r ← Volume.call (.read h (m.buf k) buffer transferSize)
      let amountRead := r.amount.1
      if 0 < amountRead then
        let rest ← printLoop h m fuel (k + 1) r.amount.2
        return rest.map ((List.range amountRead.toNat).map r.amount.2 ++ ·)
      else return some []

/-- `Print`, and what it prints. -/
def print (h : Nat) (m : RunMemory) (fuel : Nat) (name : List UInt8) :
    VolumeM (Option (List UInt8)) := do
  let opened ← Volume.call (.openFile h (m.fresh 3) name)
  if !opened.success then
    return some (text "Print: unable to open file " ++ name ++ text "\n")
  else
    let out ← printLoop h m fuel 0 m.buffer
    let _ ← Volume.call (.close h)
    return out

/-! ## One run -/

/-- The command line, as far as it is about files. -/
structure CommandLine where
  removeFileName : Option (List UInt8)
  /-- `copyUnixFileName` and `copyNachosFileName`. -/
  copyFileNames : Option (List UInt8 × List UInt8)
  dirListFlag : Bool
  printFileName : Option (List UInt8)

/-- A run of the program: its command line, the UNIX files at the time and its memory. -/
structure Run where
  line : CommandLine
  unix : List UInt8 → Option UnixFile
  memory : RunMemory

/-- What a run prints. -/
structure Output where
  copied : List UInt8
  listed : List (List UInt8)
  /-- Of `Print`, if it got to its end. -/
  printed : Option (List UInt8)

namespace Run

/-- `-r`. -/
def remove (r : Run) : VolumeM Unit :=
  match r.line.removeFileName with
  | some name => do
      let _ ← Volume.call (.remove (r.memory.fresh 0) name)
  | none => pure ()

/-- `-cp`. -/
def copy (r : Run) : VolumeM (List UInt8) :=
  match r.line.copyFileNames with
  | some (src, dst) => Filesys.copy 0 r.memory r.unix src dst
  | none => pure []

/-- `-l`. -/
def list (r : Run) : VolumeM (List (List UInt8)) :=
  if r.line.dirListFlag then do
    let a ← Volume.call (.list (r.memory.fresh 4))
    return a.printed
  else pure []

/-- `-p`. -/
def print (r : Run) (fuel : Nat) : VolumeM (Option (List UInt8)) :=
  match r.line.printFileName with
  | some name => Filesys.print 0 r.memory fuel name
  | none => pure (some [])

end Run

/-- `main`, on a disk that has a file system, with at most `fuel` reads in `Print`. -/
def nachos (fuel : Nat) (r : Run) : VolumeM Output := do
  let _ ← Volume.call .restart
  r.remove
  let copied ← r.copy
  let listed ← r.list
  let printed ← r.print fuel
  return ⟨copied, listed, printed⟩

end Nachos.Filesys
