import Nachos.Base.System
import Nachos.Threads.Semaphore

/-!
# The console display: `userprog/synchconsole.cc` and `machine/console.cc`

`SynchConsoleOutput` has two ways in. `PutChar` writes one character under `lock`;
`Write` writes a whole line under `WLineBlock`. Both hand their characters to the
same device, which takes one at a time: `ConsoleOutput::PutChar` asserts that it is
not busy, and an interrupt clears the flag and releases `waitFor` when the
character is out.

`PrintNum` and `Write` to `stdout` come in through the first, `PrintChar` and
`PrintString` through the second. Each lock keeps its own callers apart; nothing
keeps the callers of one apart from those of the other.
-/

namespace Nachos

open Base (upd upd_self upd_ne upd_apply Exclusive)

/-! ## The number that `PrintNum` writes -/

/-- `while (temp > 0) { countDigits++; temp /= 10; }`; each round makes `temp` smaller. -/
def countDigits : Nat → Nat → Nat
  | 0, _ => 0
  | fuel + 1, temp => if 0 < temp then countDigits fuel (temp / 10) + 1 else 0

/-- The loop that puts the digits of `number` into `buffer`, the last one first, at the indices
from `indexStart + k - 1` down to `indexStart`. -/
def putDigits (indexStart : Nat) : Nat → Nat → List UInt8 → List UInt8
  | 0, _, buffer => buffer
  | k + 1, number, buffer =>
      putDigits indexStart k (number / 10)
        (buffer.set (indexStart + k) (UInt8.ofNat (number % 10 + 48)))

/-- The characters of `buffer` that are written. The buffer has twelve bytes. -/
def printNumBuffer (number : Int) : List UInt8 :=
  let indexStart := if number < 0 then 1 else 0
  let n := (if number < 0 then toInt32 (-number) else number).toNat
  let digits := countDigits n n
  let buffer := putDigits indexStart digits n (List.replicate 12 0)
  if number < 0 then (buffer.set 0 45).take (digits + 1) else buffer.take digits

/-- The indices of `buffer` that are written to, the terminating zero included. -/
def printNumIndices (number : Int) : List Nat :=
  let indexStart := if number < 0 then 1 else 0
  let n := (if number < 0 then toInt32 (-number) else number).toNat
  let digits := countDigits n n
  (List.range digits).map (indexStart + ·) ++ if number < 0 then [0, digits + 1] else [digits]

/-! ## The display -/

/-- The semaphores of `SynchConsoleOutput`. -/
inductive ConsoleSem where
  | lock
  | wLineBlock
  | waitFor
  deriving DecidableEq, Repr

/-- The system calls that write to the console. -/
inductive ConsoleCall where
  | printNum (number : Int)
  | printChar (c : UInt8)
  /-- `PrintString`, with the string up to its end. -/
  | printString (buffer : List UInt8)
  /-- `Write` to `stdout`, with the buffer up to its end. -/
  | writeStdout (buffer : List UInt8)
  deriving DecidableEq, Repr

/-- Where a thread is. -/
inductive ConsolePC where
  /-- In none of these calls. -/
  | idle
  /-- `SynchConsoleOutput::PutChar(ch)`: `lock->Acquire()`; then come the characters of `rest`. -/
  | putWait (ch : UInt8) (rest : List UInt8)
  /-- Before `consoleOutput->PutChar(ch)`. -/
  | putIssue (ch : UInt8) (rest : List UInt8)
  /-- `waitFor->P()`. -/
  | putDone (rest : List UInt8)
  /-- `lock->Release()`. -/
  | putRel (rest : List UInt8)
  /-- `SynchConsoleOutput::Write`: `WLineBlock->P()`. -/
  | lineWait (from_ : List UInt8)
  /-- At the head of the loop. -/
  | lineLoop (from_ : List UInt8)
  /-- `waitFor->P()`. -/
  | lineDone (from_ : List UInt8)
  /-- `WLineBlock->V()`. -/
  | lineRel
  deriving DecidableEq, Repr

/-- The characters that `PrintNum` puts out. The largest negative number has no opposite, and only
its sign appears. -/
def printNumText (number : Int) : List UInt8 := if number = 0 then [48] else printNumBuffer number

/-- One call of `PutChar` after the other. -/
def ConsolePC.putAll : List UInt8 → ConsolePC
  | [] => .idle
  | ch :: rest => .putWait ch rest

/-- Where a call begins. `PrintString` writes the terminating zero too. -/
def ConsoleCall.start : ConsoleCall → ConsolePC
  | .printNum number => .putAll (printNumText number)
  | .writeStdout buffer => .putAll buffer
  | .printChar c => .lineWait [c]
  | .printString buffer => .lineWait (buffer ++ [0])

/-- The points before a `P`. -/
def ConsolePC.waits : ConsolePC → Option (ConsoleSem × ConsolePC)
  | .putWait ch rest => some (.lock, .putIssue ch rest)
  | .putDone rest => some (.waitFor, .putRel rest)
  | .lineWait cs => some (.wLineBlock, .lineLoop cs)
  | .lineDone cs => some (.waitFor, .lineLoop cs)
  | _ => none

/-- The display, its locks and the threads that use it. -/
structure ConsoleState where
  /-- The semaphores. -/
  sem : ConsoleSem → Semaphore
  putBusy : Bool
  /-- Console write interrupts that are scheduled. -/
  pending : Nat
  /-- What is on the display. -/
  written : List UInt8
  /-- Where each thread is. -/
  pc : Nat → ConsolePC
  /-- The `ASSERT` in `ConsoleOutput::PutChar` failed. -/
  aborted : Bool

/-- What happens next. -/
inductive ConsoleEvent where
  /-- Thread `t` makes a system call. -/
  | call (t : Nat) (c : ConsoleCall)
  /-- Thread `t` goes on. -/
  | go (t : Nat)
  /-- A character is out. -/
  | interrupt
  deriving DecidableEq, Repr

namespace ConsoleState

/-- Nobody writes. -/
def start : ConsoleState where
  sem := fun r => Semaphore.new (match r with | .lock => 1 | .wLineBlock => 1 | .waitFor => 0)
  putBusy := false
  pending := 0
  written := []
  pc := fun _ => .idle
  aborted := false

/-- `ConsoleOutput::PutChar`, with its assertion. -/
def putChar (s : ConsoleState) (t : Nat) (ch : UInt8) (k : ConsolePC) : ConsoleState :=
  if s.putBusy then { s with aborted := true }
  else
    { s with
      putBusy := true
      pending := s.pending + 1
      written := s.written ++ [ch]
      pc := upd s.pc t k }

/-- One pass of `P`. -/
def P (s : ConsoleState) (t : Nat) (r : ConsoleSem) (k : ConsolePC) : Option ConsoleState :=
  if t ∈ (s.sem r).queue then none
  else
    let q := (s.sem r).P t
    if q.2 then some { s with sem := upd s.sem r q.1, pc := upd s.pc t k }
    else some { s with sem := upd s.sem r q.1 }

/-- `V` by thread `t`. -/
def V (s : ConsoleState) (t : Nat) (r : ConsoleSem) (k : ConsolePC) : ConsoleState :=
  { s with sem := upd s.sem r (s.sem r).V.1, pc := upd s.pc t k }

/-- Thread `t` goes on, at a point that is not before a `P`. -/
def advance (s : ConsoleState) (t : Nat) : Option ConsoleState :=
  match s.pc t with
  | .putIssue ch rest => some (s.putChar t ch (.putDone rest))
  | .putRel rest => some (s.V t .lock (.putAll rest))
  | .lineLoop [] => some { s with pc := upd s.pc t .lineRel }
  | .lineLoop (ch :: cs) => some (s.putChar t ch (.lineDone cs))
  | .lineRel => some (s.V t .wLineBlock .idle)
  | _ => none

/-- `ConsoleOutput::CallBack` and `SynchConsoleOutput::CallBack`. -/
def callBack (s : ConsoleState) : ConsoleState :=
  { s with
    putBusy := false
    pending := s.pending - 1
    sem := upd s.sem .waitFor (s.sem .waitFor).V.1 }

/-- One event. -/
def step (s : ConsoleState) (e : ConsoleEvent) : Option ConsoleState :=
  if s.aborted then none
  else
    match e with
    | .call t c => if s.pc t = .idle then some { s with pc := upd s.pc t c.start } else none
    | .go t =>
        match (s.pc t).waits with
        | some (r, k) => s.P t r k
        | none => s.advance t
    | .interrupt => if 0 < s.pending then some s.callBack else none

/-- The runs of the display, with any number of threads. -/
def sys : Base.System ConsoleState ConsoleEvent where
  init := fun s => s = start
  step := step

end ConsoleState

end Nachos
