import Nachos.Base.System
import Nachos.Threads.Semaphore

/-!
# The synchronized list: `threads/synchlist.cc`

A list, a lock around it, and a condition on which consumers wait while it is empty. The
lock is a semaphore of value 1. The condition is a queue of semaphores, one for each
consumer that waits, created by the consumer and signalled by whoever takes it off the
queue.

Every access to shared data is a step of its own. A thread can be preempted between any
two of them, also while it holds the lock, and inside `P` it goes to sleep and passes
again later, as in `Semaphore`.

`Append` and `RemoveFront` of the list itself assert that the item is not in it already
and that it is not empty.
-/

namespace Nachos

open Base (upd)

/-- What a thread acquires the lock for. -/
inductive LockFor (α : Type) where
  /-- `Append`. -/
  | append (item : α)
  /-- `RemoveFront`. -/
  | remove
  /-- To come back from `Condition::Wait`, where it waited on semaphore `w`. -/
  | woken (w : Nat)
  deriving DecidableEq

/-- What a thread does after it has released the lock. -/
inductive LockThen (α : Type) where
  /-- It returns. -/
  | done (ret : Option α)
  /-- In `Condition::Wait`, it goes to sleep on semaphore `w`. -/
  | sleep (w : Nat)
  deriving DecidableEq

/-- Where a thread is. -/
inductive SynchPC (α : Type) where
  /-- Outside, with what its last call returned. -/
  | out (ret : Option α)
  /-- `Acquire`, in the loop of `P`. -/
  | acquire (why : LockFor α)
  /-- `Acquire`, at `lockHolder = kernel->currentThread`. -/
  | held (why : LockFor α)
  /-- `Append`, at `list->Append(item)`. -/
  | append (item : α)
  /-- `Signal`. -/
  | signal
  /-- `Signal`, at `waiter->V()`. -/
  | signalV (w : Nat)
  /-- `RemoveFront`, at the head of its loop. -/
  | test
  /-- `RemoveFront`, at `list->RemoveFront()`. -/
  | take
  /-- `Wait`, at `new Semaphore`. -/
  | waitNew
  /-- `Wait`, at `waitQueue->Append(waiter)`. -/
  | waitAppend (w : Nat)
  /-- `Wait`, in the loop of `waiter->P()`. -/
  | waitP (w : Nat)
  /-- `Wait`, at `delete waiter`. -/
  | waitDelete (w : Nat)
  /-- `Release`, at `lockHolder = NULL`. -/
  | release (next : LockThen α)
  /-- `Release`, at `semaphore->V()`. -/
  | unlock (next : LockThen α)
  deriving DecidableEq

namespace SynchPC

/-- The thread is past the `P` of the lock and not past its `V`. -/
def holds {α : Type} : SynchPC α → Bool
  | out _ => false
  | acquire _ => false
  | waitP _ => false
  | _ => true

end SynchPC

/-- A synchronized list and the threads that use it. -/
structure SynchList (α : Type) where
  list : List α
  /-- The semaphore of the lock. -/
  lock : Semaphore
  lockHolder : Option Nat
  /-- The queue of the condition. -/
  waitQueue : List Nat
  /-- The semaphores of the condition. -/
  waiter : Nat → Semaphore
  /-- How many of them have been created. -/
  allocated : Nat
  pc : Nat → SynchPC α
  /-- The items appended so far, in the order of the lock. -/
  appended : List α
  /-- The items removed so far, in the order of the lock. -/
  removed : List α
  /-- Every `ASSERT` so far has held. -/
  asserts : Bool

/-- What a thread does next. -/
inductive SynchCall (α : Type) where
  /-- It calls `Append`. -/
  | append (item : α)
  /-- It calls `RemoveFront`. -/
  | removeFront
  /-- It goes on. -/
  | go
  deriving DecidableEq

namespace SynchList

variable {α : Type} [DecidableEq α]

/-- The constructor. -/
def new : SynchList α where
  list := []
  lock := Semaphore.new 1
  lockHolder := none
  waitQueue := []
  waiter := fun _ => Semaphore.new 0
  allocated := 0
  pc := fun _ => .out none
  appended := []
  removed := []
  asserts := true

/-- Thread `t` goes on at `p`. -/
def goto (s : SynchList α) (t : Nat) (p : SynchPC α) : SynchList α := { s with pc := upd s.pc t p }

/-- A pass of the `P` of the lock. -/
def acquire (s : SynchList α) (t : Nat) (why : LockFor α) : Option (SynchList α) :=
  if t ∈ s.lock.queue then none
  else
    let q := s.lock.P t
    if q.2 then some { s.goto t (.held why) with lock := q.1 } else some { s with lock := q.1 }

/-- Where `Acquire` returns to. -/
def afterAcquire : LockFor α → SynchPC α
  | .append item => .append item
  | .remove => .test
  | .woken w => .waitDelete w

/-- Where `Release` returns to. -/
def afterRelease : LockThen α → SynchPC α
  | .done ret => .out ret
  | .sleep w => .waitP w

/-- `list->Append(item)`. -/
def append (s : SynchList α) (t : Nat) (item : α) : SynchList α :=
  { s.goto t .signal with
    list := s.list ++ [item]
    appended := s.appended ++ [item]
    -- the assertion of `List::Append`: the item is not in the list yet
    asserts := s.asserts && !s.list.contains item }

/-- `Signal`, up to its `V`. -/
def signal (s : SynchList α) (t : Nat) : SynchList α :=
  match s.waitQueue with
  | [] => s.goto t (.release (.done none))
  | w :: ws => { s.goto t (.signalV w) with waitQueue := ws }

/-- `list->RemoveFront()`. -/
def take (s : SynchList α) (t : Nat) : SynchList α :=
  match s.list with
  | [] => { s.goto t (.release (.done none)) with asserts := false }
  | item :: items =>
      { s.goto t (.release (.done (some item))) with
        list := items
        removed := s.removed ++ [item] }

/-- A pass of the `P` of semaphore `w`. -/
def waitP (s : SynchList α) (t w : Nat) : Option (SynchList α) :=
  if t ∈ (s.waiter w).queue then none
  else
    let q := (s.waiter w).P t
    if q.2 then some { s.goto t (.acquire (.woken w)) with waiter := upd s.waiter w q.1 }
    else some { s with waiter := upd s.waiter w q.1 }

/-- The thread goes on from where it is. -/
def go (s : SynchList α) (t : Nat) : Option (SynchList α) :=
  match s.pc t with
  | .out _ => none
  | .acquire why => s.acquire t why
  | .held why => some { s.goto t (afterAcquire why) with lockHolder := some t }
  | .append item => some (s.append t item)
  | .signal => some (s.signal t)
  | .signalV w =>
      some { s.goto t (.release (.done none)) with waiter := upd s.waiter w (s.waiter w).V.1 }
  | .test => some (s.goto t (if s.list.isEmpty then .waitNew else .take))
  | .take => some (s.take t)
  | .waitNew =>
      some { s.goto t (.waitAppend s.allocated) with
        waiter := upd s.waiter s.allocated (Semaphore.new 0)
        allocated := s.allocated + 1 }
  | .waitAppend w =>
      some { s.goto t (.release (.sleep w)) with
        waitQueue := s.waitQueue ++ [w]
        asserts := s.asserts && !s.waitQueue.contains w }
  | .waitP w => s.waitP t w
  | .waitDelete _ => some (s.goto t .test)
  | .release next => some { s.goto t (.unlock next) with lockHolder := none }
  | .unlock next => some { s.goto t (afterRelease next) with lock := s.lock.V.1 }

/-- One step of thread `l.1`. -/
def step (s : SynchList α) (l : Nat × SynchCall α) : Option (SynchList α) :=
  match l.2 with
  | .go => s.go l.1
  | .append item =>
      if let .out _ := s.pc l.1 then some (s.goto l.1 (.acquire (.append item))) else none
  | .removeFront => if let .out _ := s.pc l.1 then some (s.goto l.1 (.acquire .remove)) else none

variable (α) in
/-- The runs of the list, with any number of producers and consumers. -/
def sys : Base.System (SynchList α) (Nat × SynchCall α) where
  init := fun s => s = new
  step := step

end SynchList

end Nachos
