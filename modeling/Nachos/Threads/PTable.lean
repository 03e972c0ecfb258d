import Nachos.Base.System
import Nachos.Threads.Semaphore
import Nachos.Userprog.AddrSpace

/-!
# Processes: `threads/ptable.cc` and `threads/pcb.cc`

`Exec`, `Join` and `Exit`, the start of a child in `StartProcess_2` and the parts of
`AddrSpace` they go through, as a system of processes that take turns.

Simulated time advances only when interrupts are turned on again, so the CPU can
change hands at the end of a `P` or a `V`, when a `P` goes to sleep, after
`Thread::Fork`, and in user mode. A process is therefore at one of the points
`PC`: before a semaphore operation, or between two of them. A few stretches that
run without interruption are cut in two so that each step does one thing. That
only adds interleavings.

Every PCB is named by a `Uid` that is never used again, together with the thread
it belongs to. `delete` marks the object dead and leaves it readable: the
destructor of a PCB never returns (`Thread::Finish` switches away inside it), so
its memory stays, and for the semaphores inside it the model takes the memory to
be left alone too. Whether such an object is ever used is what `Stranded` and
`Parents` are about.

`joined`, `exitArg`, `frees`, `stranded`, the field `parent` of a PCB and the
arguments `g` of the join points are history: no step looks at them.
-/

namespace Nachos

open Base (upd)

/-- Names a PCB and its thread. -/
abbrev Uid := Nat

/-- `MAXPROCESS`. -/
def maxProcess : Nat := 10

/-- The semaphores processes meet at. -/
inductive SemRef where
  | bmsem
  | addrLock
  | joinsem (u : Uid)
  | exitsem (u : Uid)
  | multex (u : Uid)
  deriving DecidableEq, Repr

/-- A process control block, with the id of its thread. -/
structure PCB where
  /-- `thread->processID`. -/
  pid : Nat
  parentID : Int
  exitcode : Int
  numwait : Int
  /-- Constructed and not deleted. -/
  alive : Bool
  /-- Who executed the `Exec`. -/
  parent : Uid
  deriving DecidableEq, Repr

/-- Where a process is. -/
inductive PC where
  /-- Not forked yet. -/
  | unborn
  /-- `StartProcess_2`, before the file is opened. -/
  | start
  /-- `AddrSpace::AddrSpace`: `addrLock->P()`. -/
  | addrWait (h : NoffHeader)
  /-- Holding `addrLock`, before the frames are counted. -/
  | addrAlloc (h : NoffHeader)
  /-- Frames taken: `addrLock->V()`. -/
  | addrPost (h : NoffHeader)
  /-- Too few frames: the first `addrLock->V()`. -/
  | addrShort
  /-- The second one. -/
  | addrShortAgain
  /-- Before `executable` is deleted a second time. -/
  | addrDelete
  /-- Before the segments are read. -/
  | addrLoad (h : NoffHeader)
  /-- In user mode, with what the last of these calls returned. -/
  | user (ret : Option Int)
  /-- `ExecUpdate`: `bmsem->P()`. -/
  | execWait (filename : Option String)
  /-- Holding `bmsem`, before the checks. -/
  | execBody (filename : Option String)
  /-- A check failed: `bmsem->V()`. -/
  | execFail
  /-- `PCB::Exec` for the new PCB `o` in slot `id`: `multex->P()`. -/
  | execLock (id : Nat) (o : Uid)
  /-- Before the thread is forked. -/
  | execFork (id : Nat) (o : Uid)
  /-- `multex->V()`. -/
  | execUnlock (id : Nat) (o : Uid)
  /-- `bmsem->V()`. -/
  | execDone (id : Nat)
  /-- `JoinUpdate(c)`, called when `g` had slot `c`: `IncNumWait` of `o`, `multex->P()`. -/
  | joinInc (c : Nat) (g o : Uid)
  /-- `++numwait`. -/
  | joinIncr (c : Nat) (g o : Uid)
  /-- `multex->V()`. -/
  | joinIncV (c : Nat) (g o : Uid)
  /-- Before `pcb[pID]` is read for `JoinWait`. -/
  | joinGo (c : Nat) (g : Uid)
  /-- `joinsem->P()` of `o`. -/
  | joinWait (c : Nat) (g o : Uid)
  /-- Past it, before `pcb[pID]` is read for `GetExitCode` and `ExitRelease`. -/
  | joinRead (c : Nat) (g o : Uid)
  /-- `exitsem->V()` of `o`, with the exit code. -/
  | joinPost (c : Nat) (g o : Uid) (v : Int)
  /-- `return exitCode`. -/
  | joinRet (c : Nat) (g : Uid) (v : Int)
  /-- `ExitUpdate`: `DecNumWait` of `o`, `multex->P()`. -/
  | exitDec (o : Uid)
  /-- `if (numwait > 0) --numwait`. -/
  | exitDecr (o : Uid)
  /-- `multex->V()`. -/
  | exitDecV (o : Uid)
  /-- Before `pcb[processID]` is read for `JoinRelease`. -/
  | exitRel
  /-- `joinsem->V()` of `o`. -/
  | exitPost (o : Uid)
  /-- Before `pcb[processID]` is read for `ExitWait`. -/
  | exitGo
  /-- `exitsem->P()` of `o`. -/
  | exitWait (o : Uid)
  /-- Before `Remove(processID)`. -/
  | exitRemove
  /-- `Thread::Finish` was called. -/
  | finished
  deriving DecidableEq, Repr

/-- How the simulation stands. -/
inductive Status where
  /-- It goes on. -/
  | running
  /-- `Halt` was called. -/
  | halted
  /-- An `ASSERT` failed. -/
  | aborted
  /-- Something was read that was never written. -/
  | crashed
  deriving DecidableEq, Repr

/-- What a process does next, where it has a choice, and what its surroundings answer. -/
inductive Act where
  /-- The next thing in the kernel. -/
  | go
  /-- The system call `Exec`. -/
  | exec (filename : Option String)
  /-- The system call `Join`. -/
  | join (pID : Int)
  /-- The system call `Exit`. -/
  | exit (exitCode : Int)
  /-- In `ExecUpdate`: what `currentThread->getName()` reads as, and whether the file opens.
  The name of a forked thread points into a buffer that the caller of `ExecUpdate` deletes. -/
  | check (callerName : String) (opens : Bool)
  /-- In the constructor of an address space: the header found, if the file opens. -/
  | load (found : Option NoffHeader)
  deriving DecidableEq, Repr

/-- The processes and everything they share. -/
structure PState where
  bm : Bitmap
  pcb : Nat → Option Uid
  /-- The PCBs. -/
  obj : Uid → PCB
  /-- The semaphores. -/
  sem : SemRef → Semaphore
  /-- `gPhysPageBitmap`. -/
  phys : Bitmap
  /-- The page table of a process, as long as its address space lives. -/
  table : Uid → List TranslationEntry
  /-- Where each process is. -/
  pc : Uid → PC
  /-- The next name. -/
  next : Uid
  /-- Whether the simulation goes on. -/
  status : Status
  /-- Somebody's `Join` on the process passed the checks. -/
  joined : Uid → Bool
  /-- What the process gave to `ExitUpdate`. -/
  exitArg : Uid → Option Int
  /-- How often the address space of the process was deleted. -/
  frees : Uid → Nat
  /-- Threads that were queued on a semaphore when it was deleted. -/
  stranded : List Uid

namespace PState

/-- The same state, with process `u` at `k`. -/
def goto (s : PState) (u : Uid) (k : PC) : PState := { s with pc := upd s.pc u k }

/-- The simulation ends. -/
def stop (s : PState) (st : Status) : PState := { s with status := st }

/-- `IsExist`. -/
def isExist (s : PState) (pID : Int) : Bool :=
  decide (0 ≤ pID) && decide (pID < maxProcess) && s.bm.test pID.toNat

/-- `pcb[i]`, when `i` is an index. -/
def slot (s : PState) (i : Int) : Option Uid :=
  if 0 ≤ i ∧ i < maxProcess then s.pcb i.toNat else none

/-! ## `Exec` -/

/-- `new PCB(idSlot)`, its parent, and `bm->Mark(idSlot)`. -/
def create (s : PState) (u : Uid) (id : Nat) (bm : Bitmap) : PState where
  bm := bm.mark id
  pcb := upd s.pcb id (some s.next)
  obj := upd s.obj s.next
    { pid := id, parentID := (s.obj u).pid, exitcode := 0, numwait := 0, alive := true,
      parent := u }
  sem :=
    upd (upd (upd s.sem (.joinsem s.next) (Semaphore.new 0)) (.exitsem s.next) (Semaphore.new 0))
    (.multex s.next) (Semaphore.new 1)
  phys := s.phys
  table := s.table
  pc := upd s.pc u (.execLock id s.next)
  next := s.next + 1
  status := s.status
  joined := s.joined
  exitArg := s.exitArg
  frees := s.frees
  stranded := s.stranded

/-- `ExecUpdate` between `bmsem->P()` and `PCB::Exec`. -/
def execUpdate (s : PState) (u : Uid) (filename : Option String) (callerName : String)
    (opens : Bool) : PState :=
  match filename with
  | none => s.goto u .execFail
  | some name =>
      if name = callerName then s.goto u .execFail
      else if opens = false then s.goto u .execFail
      else
        let r := s.bm.findAndSet
        -- `GetFreeSlot` has marked the slot already, before `bm->Mark`
        if r.1 = -1 then { s with bm := r.2 }.goto u .execFail
        else s.create u r.1.toNat r.2

/-- The size of `PCB::FileName`. -/
def fileNameSize : Nat := 32

/-- What `ExecUpdate` copies to `FileName` of the new PCB, when it makes one. -/
def setFileName (s : PState) (u : Uid) (filename : Option String) (callerName : String)
    (opens : Bool) : Option String :=
  match (s.execUpdate u filename callerName opens).pc u with
  | .execLock _ _ => filename
  | _ => none

/-- `thread->Fork(StartProcess_2, pID)`. -/
def fork (s : PState) (u : Uid) (id : Nat) (o : Uid) : PState :=
  { s with pc := upd (upd s.pc o .start) u (.execUnlock id o) }

/-! ## The constructor of an address space -/

/-- The file is opened and its magic number is tested. If it does not open, the constructor
leaves `numPages` and `pageTable` as it found them, and `InitRegisters` reads them. -/
def openExecutable (s : PState) (u : Uid) : Option NoffHeader → PState
  | none => s.stop .crashed
  | some h => if h.noffMagic ≠ noffMagicNumber then s.stop .aborted else s.goto u (.addrWait h)

/-- `NumClear` and the loop over `FindAndSet`. With too few frames it runs over no page. -/
def allocate (s : PState) (u : Uid) (h : NoffHeader) : PState :=
  { s with
    phys := (h.alloc s.phys).2
    table := upd s.table u (h.alloc s.phys).1
    pc := upd s.pc u (if s.phys.numClear < h.numPages then .addrShort else .addrPost h) }

/-- The reads of the segments, up to `machine->Run()`. -/
def loadSegments (s : PState) (u : Uid) (h : NoffHeader) : PState :=
  if h.seeks (s.table u).length then s.goto u (.user none) else s.stop .aborted

/-- The destructor: `Clear` for each page. -/
def clearFrames (b : Bitmap) (table : List TranslationEntry) : Bitmap :=
  table.foldl (fun b e => b.clear e.physicalPage.toNat) b

/-- The address space of `u` is deleted. -/
def freeSpace (s : PState) (u : Uid) : PState :=
  { s with
    phys := clearFrames s.phys (s.table u)
    table := upd s.table u []
    frees := upd s.frees u (s.frees u + 1) }

/-! ## `Join` -/

/-- The checks of `JoinUpdate` and the call of `IncNumWait`. -/
def joinUpdate (s : PState) (u : Uid) (pID : Int) : PState :=
  if s.isExist pID = false then s.goto u (.user (some (-1)))
  else if ((s.obj u).pid : Int) = pID then s.goto u (.user (some (-1)))
  else
    match s.slot pID with
    | none => s.stop .crashed
    | some g =>
        -- only the parent may join
        if ((s.obj u).pid : Int) ≠ (s.obj g).parentID then s.goto u (.user (some (-1)))
        else
          match s.slot (s.obj g).parentID with
          | none => s.stop .crashed
          | some o =>
              { s.goto u (.joinInc pID.toNat g o) with joined := upd s.joined g true }

/-- A change of `numwait`. -/
def setNumWait (s : PState) (u o : Uid) (n : Int) (k : PC) : PState :=
  { s with obj := upd s.obj o { s.obj o with numwait := n }, pc := upd s.pc u k }

/-- `++numwait`. -/
def incNumWait (s : PState) (u : Uid) (c : Nat) (g o : Uid) : PState :=
  s.setNumWait u o (toInt32 ((s.obj o).numwait + 1)) (.joinIncV c g o)

/-- `pcb[pID]->JoinWait()`, up to its semaphore. -/
def joinWait (s : PState) (u : Uid) (c : Nat) (g : Uid) : PState :=
  match s.pcb c with
  | none => s.stop .crashed
  | some o => s.goto u (.joinWait c g o)

/-- `pcb[pID]->GetExitCode()` and `pcb[pID]->ExitRelease()`, up to its semaphore. -/
def getExitCode (s : PState) (u : Uid) (c : Nat) (g : Uid) : PState :=
  match s.pcb c with
  | none => s.stop .crashed
  | some o => s.goto u (.joinPost c g o (s.obj o).exitcode)

/-! ## `Exit` -/

/-- `ExitUpdate` up to the call of `DecNumWait`. Process 0 frees its space and halts; nothing
runs after that. -/
def exitUpdate (s : PState) (u : Uid) (exitCode : Int) : PState :=
  -- the first process halts the machine and waits for nobody
  if (s.obj u).pid = 0 then s.stop .halted
  else if s.isExist (s.obj u).pid = false then s.goto u (.user none)
  else
    match s.pcb (s.obj u).pid with
    | none => s.stop .crashed
    | some me =>
        match s.slot (s.obj me).parentID with
        | none => s.stop .crashed
        | some o =>
            { s with
              obj := upd s.obj me { s.obj me with exitcode := exitCode }
              exitArg := upd s.exitArg u (some exitCode)
              pc := upd s.pc u (.exitDec o) }

/-- `if (numwait > 0) --numwait`. -/
def decNumWait (s : PState) (u o : Uid) : PState :=
  s.setNumWait u o (if 0 < (s.obj o).numwait then (s.obj o).numwait - 1 else (s.obj o).numwait)
    (.exitDecV o)

/-- `pcb[processID]->JoinRelease()`, up to its semaphore. -/
def joinRelease (s : PState) (u : Uid) : PState :=
  match s.pcb (s.obj u).pid with
  | none => s.stop .crashed
  | some o => s.goto u (.exitPost o)

/-- `pcb[processID]->ExitWait()`, up to its semaphore. -/
def exitWait (s : PState) (u : Uid) : PState :=
  match s.pcb (s.obj u).pid with
  | none => s.stop .crashed
  | some o => s.goto u (.exitWait o)

/-- The threads that are queued on a semaphore of `o`. -/
def queued (s : PState) (o : Uid) : List Uid :=
  (s.sem (.joinsem o)).queue ++ (s.sem (.exitsem o)).queue ++ (s.sem (.multex o)).queue

/-- `delete pcb[pID]` for the PCB of the running thread: the semaphores go, the frames are
cleared, and `Finish` does not return. -/
def delete (s : PState) (u : Uid) (i : Nat) : PState :=
  { s.freeSpace u with
    bm := s.bm.clear i
    obj := upd s.obj u { s.obj u with alive := false }
    stranded := s.stranded ++ s.queued u
    pc := upd s.pc u .finished }

/-- `Remove(processID)`, and the second `FreeSpace` should it return. `Finish` asserts that it is
called on the running thread. -/
def remove (s : PState) (u : Uid) : PState :=
  if s.bm.test (s.obj u).pid then
    match s.pcb (s.obj u).pid with
    | none => s.stop .crashed
    | some o => if o = u then s.delete u (s.obj u).pid else s.stop .aborted
  -- `Remove` has found no process, and returns
  else (s.freeSpace u).goto u (.user none)

end PState

/-! ## The steps -/

/-- The points before a `P`: its semaphore, and where it leads. -/
def PC.waits : PC → Option (SemRef × PC)
  | .addrWait h => some (.addrLock, .addrAlloc h)
  | .execWait filename => some (.bmsem, .execBody filename)
  | .execLock id o => some (.multex o, .execFork id o)
  | .joinInc c g o => some (.multex o, .joinIncr c g o)
  | .joinWait c g o => some (.joinsem o, .joinRead c g o)
  | .exitDec o => some (.multex o, .exitDecr o)
  | .exitWait o => some (.exitsem o, .exitRemove)
  | _ => none

/-- The points before a `V`: its semaphore, and where it leads. -/
def PC.posts : PC → Option (SemRef × PC)
  | .addrPost h => some (.addrLock, .addrLoad h)
  | .addrShort => some (.addrLock, .addrShortAgain)
  | .addrShortAgain => some (.addrLock, .addrDelete)
  | .execFail => some (.bmsem, .user (some (-1)))
  | .execUnlock id o => some (.multex o, .execDone id)
  | .execDone id => some (.bmsem, .user (some id))
  | .joinIncV c g o => some (.multex o, .joinGo c g)
  | .joinPost c g o v => some (.exitsem o, .joinRet c g v)
  | .exitDecV o => some (.multex o, .exitRel)
  | .exitPost o => some (.joinsem o, .exitGo)
  | _ => none

namespace PState

/-- One pass of `P` by process `u`. A process asleep in the queue cannot take one. -/
def P (s : PState) (u : Uid) (r : SemRef) (k : PC) : Option PState :=
  if u ∈ (s.sem r).queue then none
  else
    let q := (s.sem r).P u
    if q.2 then some { s with sem := upd s.sem r q.1, pc := upd s.pc u k }
    else some { s with sem := upd s.sem r q.1 }

/-- `V` by process `u`. -/
def V (s : PState) (u : Uid) (r : SemRef) (k : PC) : PState :=
  { s with sem := upd s.sem r (s.sem r).V.1, pc := upd s.pc u k }

/-- The steps that are no semaphore operations. -/
def advance (s : PState) (u : Uid) (a : Act) : Option PState :=
  match s.pc u, a with
  | .start, .load found => some (s.openExecutable u found)
  | .addrAlloc h, .go => some (s.allocate u h)
  -- the first `delete` has closed the file, and `Close` asserts that closing works
  | .addrDelete, .go => some (s.stop .aborted)
  | .addrLoad h, .go => some (s.loadSegments u h)
  | .user _, .exec filename => some (s.goto u (.execWait filename))
  | .user _, .join pID => some (s.joinUpdate u pID)
  | .user _, .exit exitCode => some (s.exitUpdate u exitCode)
  | .execBody filename, .check callerName opens => some (s.execUpdate u filename callerName opens)
  | .execFork id o, .go => some (s.fork u id o)
  | .joinIncr c g o, .go => some (s.incNumWait u c g o)
  | .joinGo c g, .go => some (s.joinWait u c g)
  | .joinRead c g _, .go => some (s.getExitCode u c g)
  | .joinRet _ _ v, .go => some (s.goto u (.user (some v)))
  | .exitDecr o, .go => some (s.decNumWait u o)
  | .exitRel, .go => some (s.joinRelease u)
  | .exitGo, .go => some (s.exitWait u)
  | .exitRemove, .go => some (s.remove u)
  | _, _ => none

/-- One step of process `u`. Any process that is not asleep may take it. -/
def step (s : PState) (l : Uid × Act) : Option PState :=
  if s.status ≠ .running then none
  else
    match (s.pc l.1).waits with
    | some (r, k) => s.P l.1 r k
    | none =>
        match (s.pc l.1).posts with
        | some (r, k) => some (s.V l.1 r k)
        | none => s.advance l.1 l.2

/-- `gPhysPageBitmap` as it is created. -/
def freeFrames : Bitmap := Bitmap.new numPhysPages numPhysPages_pos

/-- The initial process, once `main` has built its address space from `h`. -/
def boot (h : NoffHeader) : PState where
  bm := (Bitmap.new maxProcess (by decide)).mark 0
  pcb := upd (fun _ => none) 0 (some 0)
  obj := fun u =>
    { pid := 0, parentID := -1, exitcode := 0, numwait := 0, alive := decide (u = 0), parent := 0 }
  sem := fun r => Semaphore.new
    (match r with
      | .bmsem => 1
      | .addrLock => 1
      | .multex _ => 1
      | .joinsem _ => 0
      | .exitsem _ => 0)
  phys := (h.alloc freeFrames).2
  table := upd (fun _ => []) 0 (h.alloc freeFrames).1
  pc := upd (fun _ => .unborn) 0 (.user none)
  next := 1
  status := .running
  joined := fun _ => false
  exitArg := fun _ => none
  frees := fun _ => 0
  stranded := []

/-- The runs of the process table, for any initial program that fits in memory. -/
def sys : Base.System PState (Uid × Act) where
  init := fun s => ∃ h : NoffHeader, h.numPages ≤ numPhysPages ∧ s = boot h
  step := step

end PState

end Nachos
