import Nachos.Filesys.Disk
import Nachos.Threads.Semaphore

/-!
# The disk and its driver: `machine/disk.cc` and `filesys/synchdisk.cc`

The disk takes one request at a time: `ReadRequest` and `WriteRequest` assert that it is not
active, read or write the file of the host at once and schedule an interrupt. The interrupt
handler clears the flag and releases `semaphore`. `SynchDisk` puts a lock around that.

A request that has got through the lock has a number, its place in the order of the lock.
The interrupt that it schedules carries the number too, so that one can tell whose interrupt
it was. Nothing else uses the numbers. How long a request takes is left open: an interrupt that
is scheduled may come at any time.
-/

namespace Nachos.Filesys

open Base (upd blit)

/-- A call of `ReadSector` or `WriteSector`. -/
inductive DiskCall where
  | readSector (sectorNumber : Int)
  | writeSector (sectorNumber : Int) (data : Nat → UInt8)

namespace DiskCall

/-- The sector that a call is about. -/
def sectorNumber : DiskCall → Int
  | readSector sectorNumber => sectorNumber
  | writeSector sectorNumber _ => sectorNumber

/-- `Read` or `WriteFile`: what is in the buffer, and what is on the disk, afterwards. -/
def transfer (d : Disk) : DiskCall → (Nat → UInt8) × Disk
  | readSector sectorNumber => (d sectorNumber.toNat, d)
  | writeSector sectorNumber data =>
      (data, upd d sectorNumber.toNat (blit (d sectorNumber.toNat) 0 sectorSize data))

end DiskCall

/-- Where a thread is. -/
inductive SynchDiskPC where
  /-- In none of these calls. -/
  | out
  /-- `lock->Acquire()`. -/
  | acquire (c : DiskCall)
  /-- Before `disk->ReadRequest` or `disk->WriteRequest`. -/
  | request (n : Nat) (c : DiskCall)
  /-- `semaphore->P()`. -/
  | wait (n : Nat) (c : DiskCall) (data : Nat → UInt8)
  /-- `lock->Release()`. -/
  | release (n : Nat) (c : DiskCall) (data : Nat → UInt8)

/-- A call that has returned. -/
structure DiskReturn where
  /-- Its place in the order of the lock. -/
  number : Nat
  call : DiskCall
  /-- What it has left in the buffer. -/
  data : Nat → UInt8

/-- The disk, its driver and the threads that use it. -/
structure SynchDisk where
  disk : Disk
  active : Bool
  lock : Semaphore
  semaphore : Semaphore
  pc : Nat → SynchDiskPC
  /-- The interrupts that are scheduled, by the numbers of their requests. -/
  pending : List Nat
  /-- An `ASSERT` has failed. -/
  aborted : Bool
  /-- The calls in the order in which they got the lock. -/
  acquired : List DiskCall
  /-- The requests whose interrupt has come. -/
  completed : List Nat
  /-- The calls that have returned. -/
  returned : List DiskReturn

/-- What happens next. -/
inductive DiskEvent where
  /-- Thread `t` makes a call. -/
  | call (t : Nat) (c : DiskCall)
  /-- Thread `t` goes on. -/
  | go (t : Nat)
  /-- The interrupt of a request comes. -/
  | interrupt (n : Nat)

namespace SynchDisk

/-- The constructor, over a disk that holds `d`. -/
def new (d : Disk) : SynchDisk where
  disk := d
  active := false
  lock := Semaphore.new 1
  semaphore := Semaphore.new 0
  pc := fun _ => .out
  pending := []
  aborted := false
  acquired := []
  completed := []
  returned := []

/-- A pass of the `P` of the lock. -/
def acquire (s : SynchDisk) (t : Nat) (c : DiskCall) : Option SynchDisk :=
  if t ∈ s.lock.queue then none
  else
    let q := s.lock.P t
    if q.2 then
      some { s with
        lock := q.1
        pc := upd s.pc t (.request s.acquired.length c)
        acquired := s.acquired ++ [c] }
    else some { s with lock := q.1 }

/-- `ReadRequest` and `WriteRequest`. -/
def request (s : SynchDisk) (t n : Nat) (c : DiskCall) : SynchDisk :=
  -- the driver takes one request at a time
  if s.active then { s with aborted := true }
  else if 0 ≤ c.sectorNumber ∧ c.sectorNumber < numSectors then
    { s with
      disk := (c.transfer s.disk).2
      active := true
      pending := s.pending ++ [n]
      pc := upd s.pc t (.wait n c (c.transfer s.disk).1) }
  else { s with aborted := true }

/-- A pass of `semaphore->P()`. -/
def wait (s : SynchDisk) (t n : Nat) (c : DiskCall) (data : Nat → UInt8) : Option SynchDisk :=
  if t ∈ s.semaphore.queue then none
  else
    let q := s.semaphore.P t
    if q.2 then some { s with semaphore := q.1, pc := upd s.pc t (.release n c data) }
    else some { s with semaphore := q.1 }

/-- `lock->Release()`, and the call returns. -/
def release (s : SynchDisk) (t n : Nat) (c : DiskCall) (data : Nat → UInt8) : SynchDisk :=
  { s with
    lock := s.lock.V.1
    pc := upd s.pc t .out
    returned := s.returned ++ [⟨n, c, data⟩] }

/-- `Disk::CallBack` and `SynchDisk::CallBack`. -/
def callBack (s : SynchDisk) (n : Nat) : SynchDisk :=
  { s with
    active := false
    semaphore := s.semaphore.V.1
    pending := s.pending.erase n
    completed := s.completed ++ [n] }

/-- Thread `t` goes on. -/
def go (s : SynchDisk) (t : Nat) : Option SynchDisk :=
  match s.pc t with
  | .out => none
  | .acquire c => s.acquire t c
  | .request n c => some (s.request t n c)
  | .wait n c data => s.wait t n c data
  | .release n c data => some (s.release t n c data)

/-- One event. -/
def step (s : SynchDisk) (e : DiskEvent) : Option SynchDisk :=
  if s.aborted then none
  else
    match e with
    | .call t c =>
        match s.pc t with
        | .out => some { s with pc := upd s.pc t (.acquire c) }
        | _ => none
    | .go t => s.go t
    | .interrupt n => if n ∈ s.pending then some (s.callBack n) else none

/-- The runs of the disk, with any number of threads. -/
def sys (d : Disk) : Base.System SynchDisk DiskEvent where
  init := fun s => s = new d
  step := step

end SynchDisk

end Nachos.Filesys
