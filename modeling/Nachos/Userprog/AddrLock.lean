import Nachos.Base.System
import Nachos.Threads.Semaphore
import Nachos.Userprog.AddrSpace

/-!
# The lock of the constructor: `addrLock` in `userprog/addrspace.cc`

`addrLock` guards `gPhysPageBitmap` while a constructor counts the clear frames and takes
those it needs. When there are too few it deletes `executable`, releases the lock, sets
`numPages` to zero and *goes on*: it runs over an empty table, comes to the other `V` as
well, and is stopped only where `executable` is deleted a second time. Until then other
threads may run.

Threads run the constructor at the same time, each with the header of its own file.
The destructor clears frames without the lock.
-/

namespace Nachos

open Base (upd)

/-- Where a thread is in the constructor, with the header it has read, `numPages`, and whether it
has deleted `executable` already. -/
inductive SpacePC where
  /-- In no constructor. -/
  | out
  /-- `addrLock->P()`. -/
  | wait (h : NoffHeader)
  /-- Before the test of `numclear`. -/
  | test (h : NoffHeader)
  /-- Before the loop that fills the page table. -/
  | fill (h : NoffHeader) (numPages : Nat) (deleted : Bool)
  /-- Before the `addrLock->V()` that follows. -/
  | release (h : NoffHeader) (numPages : Nat) (deleted : Bool)
  /-- Before the loops that load the segments, and the `delete executable` at the end. -/
  | load (h : NoffHeader) (numPages : Nat) (deleted : Bool)
  deriving DecidableEq

/-- The lock, the bitmap, and the threads in the constructor. -/
structure SpaceState where
  addrLock : Semaphore
  gPhysPageBitmap : Bitmap
  pc : Nat → SpacePC
  /-- How often each thread has got through `P`. -/
  taken : Nat → Nat
  /-- How often each thread has called `V`. -/
  given : Nat → Nat
  /-- An `ASSERT` failed, and the simulation is over. -/
  aborted : Bool

/-- What happens next. -/
inductive SpaceEvent where
  /-- Thread `t` is in the constructor, with the header of its file read. -/
  | construct (t : Nat) (h : NoffHeader)
  /-- Thread `t` goes on. -/
  | go (t : Nat)
  /-- `gPhysPageBitmap->Clear(which)` in the destructor. -/
  | clear (which : Nat)

namespace SpaceState

/-- As `main` creates them. -/
def start : SpaceState where
  addrLock := Semaphore.new 1
  gPhysPageBitmap := Bitmap.new numPhysPages numPhysPages_pos
  pc := fun _ => .out
  taken := fun _ => 0
  given := fun _ => 0
  aborted := false

/-- A pass of `addrLock->P()`. -/
def P (s : SpaceState) (t : Nat) (h : NoffHeader) : Option SpaceState :=
  if t ∈ s.addrLock.queue then none
  else
    let q := s.addrLock.P t
    if q.2 then
      some { s with
        addrLock := q.1
        pc := upd s.pc t (.test h)
        taken := upd s.taken t (s.taken t + 1) }
    else some { s with addrLock := q.1 }

/-- `addrLock->V()`. -/
def V (s : SpaceState) (t : Nat) (k : SpacePC) : SpaceState :=
  { s with
    addrLock := s.addrLock.V.1
    pc := upd s.pc t k
    given := upd s.given t (s.given t + 1) }

/-- The end of the constructor. A negative position fails the `ASSERT` in `Lseek`, and a descriptor
that is closed already the one in `Close`. -/
def finish (s : SpaceState) (t : Nat) (h : NoffHeader) (numPages : Nat) (deleted : Bool) :
    SpaceState :=
  if h.seeks numPages = true ∧ deleted = false then { s with pc := upd s.pc t .out }
  else { s with aborted := true }

/-- Thread `t` goes on. -/
def advance (s : SpaceState) (t : Nat) : Option SpaceState :=
  match s.pc t with
  | .out => none
  | .wait h => s.P t h
  | .test h =>
      if s.gPhysPageBitmap.numClear < h.numPages then some (s.V t (.fill h 0 true))
      else some { s with pc := upd s.pc t (.fill h h.numPages false) }
  | .fill h numPages deleted =>
      some { s with
        gPhysPageBitmap := (allocPages 0 numPages s.gPhysPageBitmap).2
        pc := upd s.pc t (.release h numPages deleted) }
  | .release h numPages deleted => some (s.V t (.load h numPages deleted))
  | .load h numPages deleted => some (s.finish t h numPages deleted)

/-- One event. -/
def step (s : SpaceState) (e : SpaceEvent) : Option SpaceState :=
  if s.aborted then none
  else
    match e with
    | .construct t h => if s.pc t = .out then some { s with pc := upd s.pc t (.wait h) } else none
    | .go t => s.advance t
    | .clear which => some { s with gPhysPageBitmap := s.gPhysPageBitmap.clear which }

/-- The runs, with any number of threads. -/
def sys : Base.System SpaceState SpaceEvent where
  init := fun s => s = start
  step := step

end SpaceState

end Nachos
