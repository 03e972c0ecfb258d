import Nachos.Base.Mesa
import Nachos.Threads.Semaphore

/-!
# Locks and conditions: `threads/synch.cc`

`Lock::Acquire`, `Release` and `Condition::Wait`, `Signal`, `Broadcast`, for one lock and any number
of conditions that are used with it. A lock is a semaphore of value 1. A condition is a queue of
semaphores, one for each thread that waits, made by `Wait` itself and deleted by it at its
end; the signaller takes it off the queue and calls its `V`, possibly before the waiter
has called `P`.

Every access to shared data is a step of its own, and a thread can be preempted between any two.
Inside `P` it goes to sleep and passes again later, as in `Semaphore`. The assertions that the
caller holds the lock are comments in the source. Here it is the label that is not
enabled elsewhere: a thread calls `Acquire` only outside, and the others only while it has the lock.
-/

namespace Nachos

open Base (upd Mesa MesaEvent)

/-- Where a thread is. A semaphore that it has made goes with the condition it is for. -/
inductive MonitorPC (κ : Type) where
  /-- Without the lock. -/
  | out
  /-- `Acquire`, in the loop of `P`. When `Wait` has called it, with its semaphore. -/
  | acquire (back : Option (κ × Nat))
  /-- `Acquire`, at `lockHolder = kernel->currentThread`. -/
  | held (back : Option (κ × Nat))
  /-- With the lock, and not in a call. -/
  | inside
  /-- `Release`, at `lockHolder = NULL`. -/
  | release (sleep : Option (κ × Nat))
  /-- `Release`, at `semaphore->V()`. -/
  | unlock (sleep : Option (κ × Nat))
  /-- `Wait`, at `new Semaphore`. -/
  | waitNew (c : κ)
  /-- `Wait`, at `waitQueue->Append(waiter)`. -/
  | waitAppend (c : κ) (w : Nat)
  /-- `Wait`, in the loop of `waiter->P()`. -/
  | waitP (c : κ) (w : Nat)
  /-- `Wait`, at `delete waiter`. -/
  | waitDelete (c : κ) (w : Nat)
  /-- `Signal`, at its test and `waitQueue->RemoveFront()`; `all` when `Broadcast` has called it. -/
  | signal (c : κ) (all : Bool)
  /-- `Signal`, at `waiter->V()`. -/
  | signalV (c : κ) (w : Nat) (all : Bool)
  /-- `Broadcast`, at the head of its loop. -/
  | test (c : κ)
  deriving DecidableEq

/-- A lock, its conditions and the threads that use them. -/
structure Monitor (κ : Type) where
  /-- The semaphore of the lock. -/
  lock : Semaphore
  lockHolder : Option Nat
  waitQueue : κ → List Nat
  /-- The semaphores of the waiting threads, by number. -/
  waiter : Nat → Semaphore
  /-- How many of them have been made. -/
  allocated : Nat
  deleted : Nat → Bool
  /-- Who has made them. No step reads this. -/
  creator : Nat → Nat
  pc : Nat → MonitorPC κ
  /-- Every `ASSERT` so far has held, and no semaphore was used after it had been deleted. -/
  asserts : Bool

/-- What a thread does next. -/
inductive MonitorCall (κ : Type) where
  | acquire
  | release
  | wait (c : κ)
  | signal (c : κ)
  | broadcast (c : κ)
  /-- It goes on. -/
  | go
  deriving DecidableEq

namespace Monitor

variable {κ : Type} [DecidableEq κ]

/-- The constructors. -/
def new : Monitor κ where
  lock := Semaphore.new 1
  lockHolder := none
  waitQueue := fun _ => []
  waiter := fun _ => Semaphore.new 0
  allocated := 0
  deleted := fun _ => false
  creator := fun _ => 0
  pc := fun _ => .out
  asserts := true

/-- Thread `t` goes on at `p`. -/
def goto (s : Monitor κ) (t : Nat) (p : MonitorPC κ) : Monitor κ := { s with pc := upd s.pc t p }

/-- A pass of the `P` of the lock. -/
def acquire (s : Monitor κ) (t : Nat) (back : Option (κ × Nat)) : Option (Monitor κ) :=
  if t ∈ s.lock.queue then none
  else
    let q := s.lock.P t
    if q.2 then some { s.goto t (.held back) with lock := q.1 } else some { s with lock := q.1 }

/-- Where `Acquire` returns to. -/
def afterAcquire : Option (κ × Nat) → MonitorPC κ
  | none => .inside
  | some (c, w) => .waitDelete c w

/-- Where `Release` returns to. -/
def afterRelease : Option (κ × Nat) → MonitorPC κ
  | none => .out
  | some (c, w) => .waitP c w

/-- A pass of the `P` of semaphore `w`. -/
def waitP (s : Monitor κ) (t : Nat) (c : κ) (w : Nat) : Option (Monitor κ) :=
  if t ∈ (s.waiter w).queue then none
  else
    let q := (s.waiter w).P t
    let s := { s with waiter := upd s.waiter w q.1, asserts := s.asserts && !s.deleted w }
    -- with the unit, `Wait` goes on to take the lock again
    some (if q.2 then s.goto t (.acquire (some (c, w))) else s)

/-- `new Semaphore("condition", 0)`. -/
def waitNew (s : Monitor κ) (t : Nat) (c : κ) : Monitor κ :=
  { s.goto t (.waitAppend c s.allocated) with
    waiter := upd s.waiter s.allocated (Semaphore.new 0)
    allocated := s.allocated + 1
    creator := upd s.creator s.allocated t }

/-- `waitQueue->Append(waiter)`. -/
def waitAppend (s : Monitor κ) (t : Nat) (c : κ) (w : Nat) : Monitor κ :=
  { s.goto t (.release (some (c, w))) with
    waitQueue := upd s.waitQueue c (s.waitQueue c ++ [w])
    asserts := s.asserts && !(s.waitQueue c).contains w }

/-- `Signal`, up to its `V`. -/
def signal (s : Monitor κ) (t : Nat) (c : κ) (all : Bool) : Monitor κ :=
  match s.waitQueue c with
  | [] => s.goto t (if all then .test c else .inside)
  | w :: ws => { s.goto t (.signalV c w all) with waitQueue := upd s.waitQueue c ws }

/-- `waiter->V()`. -/
def signalV (s : Monitor κ) (t : Nat) (c : κ) (w : Nat) (all : Bool) : Monitor κ :=
  { s.goto t (if all then .test c else .inside) with
    waiter := upd s.waiter w (s.waiter w).V.1
    asserts := s.asserts && !s.deleted w }

/-- The thread goes on from where it is. -/
def go (s : Monitor κ) (t : Nat) : Option (Monitor κ) :=
  match s.pc t with
  | .out => none
  | .inside => none
  | .acquire back => s.acquire t back
  | .held back => some { s.goto t (afterAcquire back) with lockHolder := some t }
  | .release sleep => some { s.goto t (.unlock sleep) with lockHolder := none }
  | .unlock sleep => some { s.goto t (afterRelease sleep) with lock := s.lock.V.1 }
  | .waitNew c => some (s.waitNew t c)
  | .waitAppend c w => some (s.waitAppend t c w)
  | .waitP c w => s.waitP t c w
  | .waitDelete _ w => some { s.goto t .inside with deleted := upd s.deleted w true }
  | .signal c all => some (s.signal t c all)
  | .signalV c w all => some (s.signalV t c w all)
  | .test c => some (s.goto t (if (s.waitQueue c).isEmpty then .inside else .signal c true))

/-- A call by a thread that has the lock. -/
def call (s : Monitor κ) (t : Nat) (p : MonitorPC κ) : Option (Monitor κ) :=
  if s.pc t = .inside then some (s.goto t p) else none

/-- One step of thread `l.1`. -/
def step (s : Monitor κ) (l : Nat × MonitorCall κ) : Option (Monitor κ) :=
  match l.2 with
  | .go => s.go l.1
  | .acquire => if s.pc l.1 = .out then some (s.goto l.1 (.acquire none)) else none
  | .release => s.call l.1 (.release none)
  | .wait c => s.call l.1 (.waitNew c)
  | .signal c => s.call l.1 (.signal c false)
  | .broadcast c => s.call l.1 (.test c)

/-- The runs of the monitor, with any number of threads. -/
def sys : Base.System (Monitor κ) (Nat × MonitorCall κ) where
  init := fun s => s = new
  step := step

/-- What a step is, as seen from outside: each call has its effect at one of its steps. -/
def event (s : Monitor κ) (l : Nat × MonitorCall κ) : Option (MesaEvent Nat κ) :=
  match l.2, s.pc l.1 with
  | .acquire, .out => some (.call l.1)
  | .broadcast c, .inside => some (.broadcast l.1 c)
  | .go, .acquire _ => if s.lock.value = 0 then none else some (.enter l.1)
  | .go, .unlock none => some (.leave l.1)
  | .go, .waitAppend c _ => some (.wait l.1 c)
  | .go, .signal c false => some (.signal l.1 c)
  | _, _ => none

/-- The runs, with the events so far beside them. -/
def logged : Base.System (Monitor κ × List (MesaEvent Nat κ)) (Nat × MonitorCall κ) :=
  sys.record [] fun s l _ es => es ++ (event s l).toList

end Monitor

end Nachos
