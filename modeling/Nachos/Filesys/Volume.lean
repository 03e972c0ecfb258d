import Nachos.Filesys.Requests
import Nachos.Filesys.FileSystem

/-!
# A disk with open files: the rest of `filesys.cc`, `openfile.cc` and `directory.cc`

`Open` gives an `OpenFile` to the caller. It has the header of the file, as it was then, and the
position for the next `Read` or `Write`. Here the caller keeps it under a number. The file system
can be started again on the disk as it is, with `format` not set; nothing is left then of what
was open before.
-/

namespace Nachos.Filesys

open Base (upd)

/-! ## Open files -/

/-- An `OpenFile` with its `seekPosition`, which `ReadAt` and `WriteAt` do not look at. -/
structure OpenHandle where
  file : OpenFile
  seekPosition : Int

namespace OpenHandle

/-- `Seek`. -/
def seek (o : OpenHandle) (position : Int) : OpenHandle := { o with seekPosition := position }

/-- `seekPosition += result`. -/
def advance (o : OpenHandle) (result : Int) : OpenHandle :=
  { o with seekPosition := toInt32 (o.seekPosition + result) }

/-- `Read`: what `ReadAt` returns, and the file with its new position. -/
def read (o : OpenHandle) (buf into : Nat → UInt8) (numBytes : Int) :
    DiskM ((Int × (Nat → UInt8)) × OpenHandle) := do
  let r ← o.file.readAtInt buf into numBytes o.seekPosition
  return (r, o.advance r.1)

/-- `Write`, likewise. -/
def write (o : OpenHandle) (buf buf' buf'' src : Nat → UInt8) (numBytes : Int) :
    DiskM (Int × OpenHandle) := do
  let result ← o.file.writeAtInt buf buf' buf'' src numBytes o.seekPosition
  return (result, o.advance result)

/-- `Length`. -/
def length (o : OpenHandle) : Int := o.file.hdr.fileLength

end OpenHandle

/-! ## The directory and the file system -/

namespace Directory

/-- What `printf` makes of the name of entry `i`. It goes on behind the name to the next zero, and
there need not be one. -/
def printed (dir : Directory) (i : Nat) : DiskM (List UInt8) :=
  let rest := (List.range (dir.tableSize * entrySize - (entrySize * i + 8))).map fun j =>
    dir.bytes (entrySize * i + 8 + j)
  if 0 ∈ rest then pure (rest.takeWhile (· ≠ 0)) else throw .overrun

/-- The loop of `List` from `i`, with `k` entries to go. -/
def listFrom (dir : Directory) : Nat → Nat → DiskM (List (List UInt8))
  | 0, _ => pure []
  | k + 1, i =>
      if (dir.table i).inUse then do
        let line ← dir.printed i
        let rest ← listFrom dir k (i + 1)
        return line :: rest
      else listFrom dir k (i + 1)

/-- `List`: the lines that are printed. -/
def list (dir : Directory) : DiskM (List (List UInt8)) := dir.listFrom dir.tableSize 0

end Directory

namespace FileSystem

/-- The constructor, with `format` not set. -/
def load : DiskM FileSystem := do
  let freeMapFile ← OpenFile.new freeMapSector
  let directoryFile ← OpenFile.new directorySector
  return ⟨freeMapFile, directoryFile⟩

/-- `Open`. -/
def openFile (fs : FileSystem) (f : Fresh) (name : List UInt8) : DiskM (Option OpenHandle) := do
  let directory ← (Directory.new numDirEntries f.table).fetchFrom fs.directoryFile (f.buf 0)
  let sector := directory.find name
  if sector ≥ 0 then
    let file ← OpenFile.new sector
    return some ⟨file, 0⟩
  else return none

/-- `List`, of a copy of the directory. -/
def list (fs : FileSystem) (f : Fresh) : DiskM (List (List UInt8)) := do
  let directory ← (Directory.new numDirEntries f.table).fetchFrom fs.directoryFile (f.buf 0)
  directory.list

end FileSystem

/-! ## Calls -/

/-- How a call can fail to return. -/
inductive Crash where
  | stop (why : Stop)
  /-- A null pointer was used. -/
  | null
  deriving DecidableEq, Repr

/-- The file system, its disk and what the callers have opened. -/
structure Volume where
  fs : FileSystem
  disk : Disk
  opened : Nat → Option OpenHandle

/-- Code that uses the file system. -/
abbrev VolumeM := EStateM Crash Volume

namespace Volume

/-- The file system is called. -/
def onDisk {α : Type} (x : FileSystem → DiskM α) : VolumeM α := fun v =>
  match x v.fs v.disk with
  | .ok a d => .ok a { v with disk := d }
  | .error why d => .error (.stop why) { v with disk := d }

/-- What is kept under `h`. -/
def handle (h : Nat) : VolumeM OpenHandle := fun v =>
  match v.opened h with
  | some o => .ok o v
  | none => .error .null v

/-- `h` is given an open file, or closed. -/
def setHandle (h : Nat) (o : Option OpenHandle) : VolumeM Unit :=
  modify fun v => { v with opened := upd v.opened h o }

/-- The file system is started again. -/
def restart : VolumeM Unit := fun v =>
  match FileSystem.load v.disk with
  | .ok fs d => .ok () ⟨fs, d, fun _ => none⟩
  | .error why d => .error (.stop why) { v with disk := d }

end Volume

/-- A call, with the memory it gets from `new`. -/
inductive Request where
  | create (f : Fresh) (name : List UInt8) (initialSize : Int)
  | remove (f : Fresh) (name : List UInt8)
  | list (f : Fresh)
  | openFile (h : Nat) (f : Fresh) (name : List UInt8)
  | close (h : Nat)
  | seek (h : Nat) (position : Int)
  | length (h : Nat)
  | read (h : Nat) (buf into : Nat → UInt8) (numBytes : Int)
  | readAt (h : Nat) (buf into : Nat → UInt8) (numBytes position : Int)
  | write (h : Nat) (buf buf' buf'' src : Nat → UInt8) (numBytes : Int)
  | writeAt (h : Nat) (buf buf' buf'' src : Nat → UInt8) (numBytes position : Int)
  | restart

/-- What a call returns, or prints. -/
inductive Answer where
  | done
  | flag (success : Bool)
  | count (n : Int)
  | bytes (n : Int) (into : Nat → UInt8)
  | lines (l : List (List UInt8))

namespace Volume

open Answer in
/-- **A call**, and its answer. -/
def call : Request → VolumeM Answer
  | .create f name initialSize => do
      let success ← onDisk fun fs => fs.create f name initialSize
      return flag success
  | .remove f name => do
      let success ← onDisk fun fs => fs.remove f name
      return flag success
  | .list f => do
      let l ← onDisk fun fs => fs.list f
      return lines l
  | .openFile h f name => do
      -- without such a file the handle is left a null pointer
      let o ← onDisk fun fs => fs.openFile f name
      setHandle h o
      return flag o.isSome
  | .close h => do
      setHandle h none
      return done
  | .seek h position => do
      let o ← handle h
      setHandle h (some (o.seek position))
      return done
  | .length h => do
      let o ← handle h
      return count o.length
  | .read h buf into numBytes => do
      let o ← handle h
      let r ← onDisk fun _ => o.read buf into numBytes
      setHandle h (some r.2)
      return bytes r.1.1 r.1.2
  | .readAt h buf into numBytes position => do
      let o ← handle h
      let r ← onDisk fun _ => o.file.readAtInt buf into numBytes position
      return bytes r.1 r.2
  | .write h buf buf' buf'' src numBytes => do
      let o ← handle h
      let r ← onDisk fun _ => o.write buf buf' buf'' src numBytes
      setHandle h (some r.2)
      return count r.1
  | .writeAt h buf buf' buf'' src numBytes position => do
      let o ← handle h
      let n ← onDisk fun _ => o.file.writeAtInt buf buf' buf'' src numBytes position
      return count n
  | .restart => do
      restart
      return done

end Volume

end Nachos.Filesys
