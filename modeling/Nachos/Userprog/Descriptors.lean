import Nachos.Filesys.OpenFile
import Nachos.Threads.PTable

/-!
# Descriptors of the host

The kernel opens files of the host in five places: the constructor of a `FileSystem`, of
which the kernel has one and every PCB has one; the system call `Open`; `SC_Exec`, which
opens the program to see whether it is there; `ExecUpdate`, which does so again; and the
constructor of an address space, which reads the program. `OpenFile` closes its descriptor
when it is deleted.

The processes are those of `PState`. A step of the table comes with what the host answers
to the calls of `open` in it: a descriptor that is not in use, or -1. `Open` and `Close` of
the user are steps of their own.

Once it is past `delete`, a pointer is not used again, with one exception that ends in an
abort anyway; so the variable that held it is taken to be empty.

`PCB::SetFileName` is a `strcpy` into the 32 bytes of `FileName`, which looks at no length. The
next member of a PCB is the pointer `fileTable`. A name that is too long runs over it, and then
nobody reaches the files that it pointed to: the PCB is `wild`.
-/

namespace Nachos

open Base (upd)

/-- What a process does next, and what the host answers. -/
inductive FileAct where
  /-- The next thing in the kernel. -/
  | go
  /-- `SC_Exec`, with the descriptor of the first `Open`. -/
  | exec (filename : Option String) (probe : Int)
  | join (pID : Int)
  | exit (exitCode : Int)
  /-- `ExecUpdate`: the name of the caller, the descriptor of `fileOpen`, whether the new
  `FileSystem` can create its two files, and their descriptors. -/
  | check (callerName : String) (fileOpen : Int) (creates : Bool) (stdin stdout : Int)
  /-- `StartProcess_2`: the descriptor of `executable`, and the header found. -/
  | load (executable : Int) (h : NoffHeader)
  /-- The system call `Open`. For a type that `FileSystem::Open` does not know, `fd` is what the
  variable happens to hold. -/
  | open_ (type fd : Int)
  /-- The system call `Close`. -/
  | close (id : Int)
  deriving DecidableEq

/-- The processes and the files they have open. -/
structure FileState where
  tab : PState
  /-- `kernel->fileSystem->fileTable`. -/
  kernelTable : Nat → Option OpenFile
  /-- `fileTable->fileTable` of each PCB. -/
  fileTable : Uid → Nat → Option OpenFile
  /-- The descriptor behind `fileOpen` or `executable` of the code that the process runs. -/
  var : Uid → Option Int
  /-- The descriptors in use. -/
  isOpen : Int → Bool
  /-- The pointer `fileTable` of a PCB was overwritten by the name of its program. -/
  wild : Uid → Bool
  /-- An `ASSERT` about files failed, or a pointer was followed that was overwritten. -/
  stopped : Bool

namespace FileState

/-- `-1` or a descriptor that is not in use. -/
def answers (s : FileState) (fd : Int) : Bool :=
  decide (fd = -1) || (decide (0 ≤ fd) && !s.isOpen fd)

/-- The host opens `fd`. -/
def opened (s : FileState) (fd : Int) : FileState :=
  if fd = -1 then s else { s with isOpen := upd s.isOpen fd true }

/-- The file that belongs to a descriptor. -/
def fileOf (fd type : Int) : Option OpenFile := if fd = -1 then none else some ⟨fd, 0, type⟩

/-- `Close`, which asserts that the host agrees. -/
def closed (s : FileState) (fd : Int) : FileState :=
  if s.isOpen fd then { s with isOpen := upd s.isOpen fd false } else { s with stopped := true }

/-- `delete fileOpen`, or `delete executable`. -/
def deleteVar (s : FileState) (u : Uid) : FileState :=
  match s.var u with
  | none => s
  | some fd => { s.closed fd with var := upd s.var u none }

/-- The table of a new `FileSystem`. -/
def consoles (stdin stdout : Int) : Nat → Option OpenFile :=
  upd (upd (fun _ => none) indexStdin.toNat (fileOf stdin inputType)) indexStdout.toNat
    (fileOf stdout outputType)

/-- The constructor of `FileSystem`. Both calls of `Create` close what they open; they and the last
`Open` assert that they could. -/
def newFileSystem (s : FileState) (creates : Bool) (stdin stdout : Int) :
    Option (FileState × (Nat → Option OpenFile)) :=
  if creates = false then some ({ s with stopped := true }, fun _ => none)
  else if s.answers stdin = false then none
  else if (s.opened stdin).answers stdout = false then none
  else if stdout = -1 then some ({ s.opened stdin with stopped := true }, fun _ => none)
  else some ((s.opened stdin).opened stdout, consoles stdin stdout)

/-- `strcpy(FileName, fn)` goes beyond `FileName`, the zero at the end included. -/
def overruns (fn : Option String) : Bool :=
  match fn with
  | none => false
  | some name => decide (PState.fileNameSize < name.length + 1)

/-- `ExecUpdate` from its checks to `PCB::Exec`. When there is no slot, `fileOpen` is forgotten. -/
def execUpdate (s : FileState) (u : Uid) (filename : Option String) (callerName : String)
    (fileOpen : Int) (creates : Bool) (stdin stdout : Int) : Option FileState :=
  (PState.step s.tab (u, .check callerName (decide (fileOpen ≠ -1)))).bind fun t =>
    if filename = none ∨ filename = some callerName then some { s with tab := t }
    else if s.answers fileOpen = false then none
    else if fileOpen = -1 then some { s with tab := t }
    else if s.tab.bm.findAndSet.1 = -1 then some { s.opened fileOpen with tab := t }
    else
      ((s.opened fileOpen).newFileSystem creates stdin stdout).map fun r =>
        { r.1 with
          tab := t
          fileTable := upd s.fileTable s.tab.next r.2
          wild := upd s.wild s.tab.next (overruns filename)
          var := upd s.var u (some fileOpen) }

/-- The start of the constructor of an address space. -/
def openExecutable (s : FileState) (u : Uid) (executable : Int) (h : NoffHeader) :
    Option FileState :=
  if s.answers executable = false then none
  else
    (PState.step s.tab (u, .load (if executable = -1 then none else some h))).map fun t =>
      { s.opened executable with
        tab := t
        var := upd s.var u (if executable = -1 then none else some executable) }

/-- A step of the table in which the host is not asked for a descriptor. The constructor of an
address space deletes `executable` at its end, and before that if there are too few frames;
`ExecUpdate` deletes `fileOpen` at its end. The destructor of a PCB deletes its `FileSystem`
after `Finish`, which does not return. -/
def goOn (s : FileState) (u : Uid) : Option FileState :=
  (PState.step s.tab (u, .go)).map fun t =>
    match s.tab.pc u with
    | .addrAlloc h =>
        if s.tab.phys.numClear < h.numPages then { s.deleteVar u with tab := t }
        else { s with tab := t }
    | .addrLoad _ =>
        if t.status = .running then { s.deleteVar u with tab := t } else { s with tab := t }
    | .execDone _ => { s.deleteVar u with tab := t }
    | _ => { s with tab := t }

/-- The system call `Open`. The exits that end in `break` reach an `ASSERTNOTREACHED`. -/
def openCall (s : FileState) (u : Uid) (type fd : Int) : Option FileState :=
  match s.tab.pcb (s.tab.obj u).pid with
  | none => some { s with stopped := true }
  | some o =>
      let freeSlot := FileSystem.findFreeSlot (s.fileTable o)
      if s.wild o then some { s with stopped := true }
      else if type = inputType ∨ type = outputType ∨ freeSlot = -1 then
        some { s with stopped := true }
      else if type = readonlyType ∨ type = readwriteType then
        if s.answers fd = false then none
        else if fd = -1 then some s
        else
          some { s.opened fd with
            fileTable := upd s.fileTable o (upd (s.fileTable o) freeSlot.toNat (fileOf fd type)) }
      else if fd = -1 then some s
      else some { s with
        fileTable := upd s.fileTable o (upd (s.fileTable o) freeSlot.toNat (fileOf fd type)) }

/-- The system call `Close`. -/
def closeCall (s : FileState) (u : Uid) (id : Int) : FileState :=
  match s.tab.pcb (s.tab.obj u).pid with
  | none => { s with stopped := true }
  | some o =>
      if s.wild o = false ∧ 2 ≤ id ∧ id ≤ (maxFileOpen : Int) - 1 then
        match s.fileTable o id.toNat with
        | none => s
        | some file =>
            { s.closed file.file with
              fileTable := upd s.fileTable o (upd (s.fileTable o) id.toNat none) }
      else { s with stopped := true }

/-- One step of process `l.1`. -/
def step (s : FileState) (l : Uid × FileAct) : Option FileState :=
  if s.stopped = true ∨ s.tab.status ≠ .running then none
  else
    match s.tab.pc l.1, l.2 with
    | .user _, .exec filename probe =>
        if s.answers probe = false then none
        else if probe = -1 then some s
        else (PState.step s.tab (l.1, .exec filename)).map fun t => { s with tab := t }
    | .user _, .join pID => (PState.step s.tab (l.1, .join pID)).map fun t => { s with tab := t }
    | .user _, .exit exitCode =>
        (PState.step s.tab (l.1, .exit exitCode)).map fun t => { s with tab := t }
    | .user _, .open_ type fd => s.openCall l.1 type fd
    | .user _, .close id => some (s.closeCall l.1 id)
    | .execBody filename, .check callerName fileOpen creates stdin stdout =>
        s.execUpdate l.1 filename callerName fileOpen creates stdin stdout
    | .start, .load executable h => s.openExecutable l.1 executable h
    | _, .go => s.goOn l.1
    | _, _ => none

/-- Before any file is open. -/
def blank (h : NoffHeader) : FileState where
  tab := PState.boot h
  kernelTable := fun _ => none
  fileTable := fun _ _ => none
  var := fun _ => none
  isOpen := fun _ => false
  wild := fun _ => false
  stopped := false

/-- The kernel makes its own `FileSystem`, then the table makes the PCB of the initial process,
which gets the name of the initial program. -/
def boot (name : String) (h : NoffHeader) (stdin stdout stdin' stdout' : Int) : Option FileState :=
  ((blank h).newFileSystem true stdin stdout).bind fun r =>
    (newFileSystem { r.1 with kernelTable := r.2 } true stdin' stdout').map fun r' =>
      { r'.1 with
        fileTable := upd r'.1.fileTable 0 r'.2
        wild := upd r'.1.wild 0 (overruns (some name)) }

/-- The runs of the processes and their files, for any initial program of the name that fits in
memory. -/
def sys (name : String) : Base.System FileState (Uid × FileAct) where
  init := fun s => ∃ h : NoffHeader, h.numPages ≤ numPhysPages ∧
    ∃ stdin stdout stdin' stdout', boot name h stdin stdout stdin' stdout' = some s
  step := step

end FileState

end Nachos
