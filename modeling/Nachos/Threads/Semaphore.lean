import Nachos.Base.System
import Nachos.Lib.Utility

/-!
# Semaphores: `threads/synch.cc`

`P` and `V` run with interrupts off, so each is atomic up to the point where `P`
calls `Thread::Sleep`. A sleeping thread is put back on the ready list by `V`,
and when it is next given the CPU it goes round the loop of `P` once more. The
model therefore has one function for *one pass* of that loop, and a blocked `P`
is the same pass taken again later.

`V` wakes a waiter *and* increments the value, so between the two a newcomer may
take the unit and the woken thread will queue again.

`value` is an `int`. Nothing stops `V` at the largest one.
-/

namespace Nachos

/-- `value` and the queue of sleeping threads. The debugging name is left out. -/
structure Semaphore where
  /-- Units on offer. -/
  value : Int
  /-- Threads asleep in `P`, in the order they will be woken. -/
  queue : List Nat
  deriving DecidableEq, Repr

namespace Semaphore

/-- The constructor. -/
def new (initialValue : Int) : Semaphore := ⟨initialValue, []⟩

/-- One pass of the loop in `P` by thread `t`: it queues itself and goes to sleep,
or takes a unit and is through. -/
def P (s : Semaphore) (t : Nat) : Semaphore × Bool :=
  if s.value = 0 then ({ s with queue := s.queue ++ [t] }, false)
  else ({ s with value := toInt32 (s.value - 1) }, true)

/-- `V`: the front of the queue, if any, goes to the ready list; the value goes up. -/
def V (s : Semaphore) : Semaphore × Option Nat :=
  ({ value := toInt32 (s.value + 1), queue := s.queue.tail }, s.queue.head?)

theorem P_zero {s : Semaphore} (t : Nat) (h : s.value = 0) :
    s.P t = ({ s with queue := s.queue ++ [t] }, false) := by
  rw [P, if_pos h]

theorem P_pos {s : Semaphore} (t : Nat) (h : s.value ≠ 0) :
    s.P t = ({ s with value := toInt32 (s.value - 1) }, true) := by
  rw [P, if_neg h]

end Semaphore

/-! ## One semaphore and the threads that use it -/

/-- A semaphore in use. -/
structure SemState where
  /-- The semaphore. -/
  sem : Semaphore
  /-- Threads `V` took off the queue that have not been given the CPU since. -/
  woken : List Nat
  /-- Calls of `P` that got through. -/
  doneP : Nat
  /-- Calls of `V`. -/
  doneV : Nat
  deriving DecidableEq

/-- What a thread, or an interrupt handler, does to the semaphore next. -/
inductive SemOp where
  /-- Thread `t` calls `P`, or is given the CPU again inside it. -/
  | P (t : Nat)
  /-- Somebody calls `V`. -/
  | V
  deriving DecidableEq, Repr

namespace SemState

/-- A fresh semaphore. -/
def start (initial : Int) : SemState := ⟨Semaphore.new initial, [], 0, 0⟩

/-- A thread asleep in the queue cannot move; everything else can, in any order. -/
def step (s : SemState) : SemOp → Option SemState
  | .P t =>
      if t ∈ s.sem.queue then none
      else
        let r := s.sem.P t
        some { sem := r.1
               woken := s.woken.erase t
               doneP := if r.2 then s.doneP + 1 else s.doneP
               doneV := s.doneV }
  | .V =>
      let r := s.sem.V
      some { sem := r.1
             woken := s.woken ++ r.2.toList
             doneP := s.doneP
             doneV := s.doneV + 1 }

/-- The runs of a semaphore created with `initial`. -/
def sys (initial : Int) : Base.System SemState SemOp where
  init := fun s => s = start initial
  step := step

end SemState

end Nachos
