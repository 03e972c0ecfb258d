import Nachos.Base.System
import Nachos.Threads.Semaphore

/-!
# The keyboard: `machine/console.cc` and `SynchConsoleInput::GetChar`

The device holds one character. A poll interrupt looks whether the input file has anything to
read, takes a character from it and releases `waitFor`; the reader of the character has the next
poll scheduled. At the end of the file there is no character, and no further poll, but `waitFor`
is released once more, so that somebody gets to know.

`incoming` is a `char`, and that there is no character in it is said by the value `EOF`, which as
a `char` is the byte 255.
-/

namespace Nachos

open Base (upd)

/-- `EOF` as a `char`. -/
def eofChar : UInt8 := 255

/-- Where a thread is in `SynchConsoleInput::GetChar`. -/
inductive GetCharPC where
  /-- Outside. -/
  | out
  /-- `lock->Acquire()`. -/
  | acquire
  /-- `waitFor->P()`. -/
  | wait
  /-- Before `consoleInput->GetChar()`. -/
  | get
  /-- `lock->Release()`, with the character that is to be returned. -/
  | release (ch : UInt8)
  deriving DecidableEq, Repr

/-- The keyboard, its driver and the threads that read from it. -/
structure ConsoleInput where
  /-- What has not been read of the input file. -/
  unread : List UInt8
  incoming : UInt8
  lock : Semaphore
  waitFor : Semaphore
  /-- Polls that are scheduled. -/
  pending : Nat
  pc : Nat → GetCharPC
  /-- The `ASSERT` in `CallBack` has failed. -/
  aborted : Bool
  /-- What `ConsoleInput::GetChar` has returned. -/
  taken : List UInt8
  /-- What calls of `SynchConsoleInput::GetChar` have returned. -/
  returned : List UInt8

/-- What happens next. -/
inductive InputEvent where
  /-- Thread `t` calls `GetChar`. -/
  | call (t : Nat)
  /-- Thread `t` goes on. -/
  | go (t : Nat)
  /-- A poll that was scheduled is due. `ready` is what `PollFile` finds. -/
  | poll (ready : Bool)
  deriving DecidableEq, Repr

namespace ConsoleInput

/-- The constructors, over an input file that holds `bytes`. -/
def new (bytes : List UInt8) : ConsoleInput where
  unread := bytes
  incoming := eofChar
  lock := Semaphore.new 1
  waitFor := Semaphore.new 0
  pending := 1
  pc := fun _ => .out
  aborted := false
  taken := []
  returned := []

/-- `ConsoleInput::CallBack` and `SynchConsoleInput::CallBack`. -/
def callBack (s : ConsoleInput) (ready : Bool) : ConsoleInput :=
  if s.incoming ≠ eofChar then { s with aborted := true }
  -- nothing to read: poll again later
  else if !ready then { s with pending := s.pending - 1 + 1 }
  else
    match s.unread with
    -- `ReadPartial` returns 0
    | [] => { s with pending := s.pending - 1, waitFor := s.waitFor.V.1 }
    | c :: unread =>
        { s with
          pending := s.pending - 1
          unread := unread
          incoming := c
          waitFor := s.waitFor.V.1 }

/-- `ConsoleInput::GetChar`, called by thread `t`. -/
def getChar (s : ConsoleInput) (t : Nat) : ConsoleInput :=
  { s with
    pending := if s.incoming ≠ eofChar then s.pending + 1 else s.pending
    incoming := eofChar
    taken := s.taken ++ [s.incoming]
    pc := upd s.pc t (.release s.incoming) }

/-- A pass of the `P` of the lock. -/
def acquire (s : ConsoleInput) (t : Nat) : Option ConsoleInput :=
  if t ∈ s.lock.queue then none
  else
    let q := s.lock.P t
    if q.2 then some { s with lock := q.1, pc := upd s.pc t .wait } else some { s with lock := q.1 }

/-- A pass of `waitFor->P()`. -/
def wait (s : ConsoleInput) (t : Nat) : Option ConsoleInput :=
  if t ∈ s.waitFor.queue then none
  else
    let q := s.waitFor.P t
    if q.2 then some { s with waitFor := q.1, pc := upd s.pc t .get }
    else some { s with waitFor := q.1 }

/-- `lock->Release()`, and `GetChar` returns. -/
def release (s : ConsoleInput) (t : Nat) (ch : UInt8) : ConsoleInput :=
  { s with
    lock := s.lock.V.1
    pc := upd s.pc t .out
    returned := s.returned ++ [ch] }

/-- Thread `t` goes on. -/
def go (s : ConsoleInput) (t : Nat) : Option ConsoleInput :=
  match s.pc t with
  | .out => none
  | .acquire => s.acquire t
  | .wait => s.wait t
  | .get => some (s.getChar t)
  | .release ch => some (s.release t ch)

/-- One event. -/
def step (s : ConsoleInput) (e : InputEvent) : Option ConsoleInput :=
  if s.aborted then none
  else
    match e with
    | .call t => if s.pc t = .out then some { s with pc := upd s.pc t .acquire } else none
    | .go t => s.go t
    | .poll ready => if 0 < s.pending then some (s.callBack ready) else none

/-- The runs of the keyboard, with any number of readers. -/
def sys (bytes : List UInt8) : Base.System ConsoleInput InputEvent where
  init := fun s => s = new bytes
  step := step

end ConsoleInput

end Nachos
