import Nachos.Userprog.ConsoleInput

/-!
# Lines from the keyboard: `SynchConsoleInput::Read`

A call clears its buffer, takes the line for itself, and then takes one character after the other
from the device, waiting for each, until the buffer is full or a line ends. A character `EOF` is
not one, and is waited for again.

The device goes on between any two steps of the reader. Each call is recorded when it returns, with
the memory before and after it and with the characters that the device gave it.
-/

namespace Nachos

open Base (upd)

/-- `ConsoleInput::GetChar`, as the device sees it. -/
def ConsoleInput.give (s : ConsoleInput) : ConsoleInput :=
  { s with
    pending := if s.incoming ≠ eofChar then s.pending + 1 else s.pending
    incoming := eofChar
    taken := s.taken ++ [s.incoming] }

theorem ConsoleInput.getChar_eq (s : ConsoleInput) (t : Nat) :
    s.getChar t = { s.give with pc := upd s.pc t (.release s.incoming) } := rfl

/-- Where the reader is in `SynchConsoleInput::Read`. -/
inductive ReadPC where
  /-- Outside. -/
  | out
  /-- `RLineBlock->P()`. -/
  | block
  /-- At the head of the outer loop. -/
  | loop
  /-- `waitFor->P()`. -/
  | wait
  /-- Before `consoleInput->GetChar()`. -/
  | get
  /-- `RLineBlock->V()`. -/
  | unblock
  deriving DecidableEq, Repr

/-- A call that has returned. -/
structure ReadCall where
  into : Nat
  numBytes : Nat
  result : Int
  /-- The memory at the call. -/
  before : Nat → UInt8
  /-- The memory at the return. -/
  after : Nat → UInt8
  /-- What the device gave to the call, without `EOF`. -/
  consumed : List UInt8

/-- The keyboard and a thread that reads lines. -/
structure LineReader where
  device : ConsoleInput
  rLineBlock : Semaphore
  mem : Nat → UInt8
  pc : ReadPC
  /-- The parameters and variables of the call. -/
  into : Nat
  numBytes : Nat
  loop : Nat
  eolncond : Bool
  ch : UInt8
  /-- The memory at the call. -/
  before : Nat → UInt8
  /-- What the device gave to the call, without `EOF`. -/
  got : List UInt8
  /-- The calls that have returned. -/
  reads : List ReadCall

/-- What happens next. -/
inductive ReadEvent where
  /-- `Read(into, numBytes)` is called. `ch` is not set; it is what is found there. -/
  | call (into numBytes : Nat) (ch : UInt8)
  /-- The reader goes on. -/
  | go
  /-- A poll that was scheduled is due. `ready` is what `PollFile` finds. -/
  | poll (ready : Bool)
  deriving DecidableEq, Repr

namespace LineReader

/-- The constructors, over an input file that holds `bytes`. -/
def new (bytes : List UInt8) (mem : Nat → UInt8) : LineReader where
  device := ConsoleInput.new bytes
  rLineBlock := Semaphore.new 1
  mem := mem
  pc := .out
  into := 0
  numBytes := 0
  loop := 0
  eolncond := false
  ch := 0
  before := mem
  got := []
  reads := []

/-- The start of `Read`, up to `RLineBlock->P()`. -/
def enter (s : LineReader) (into numBytes : Nat) (ch : UInt8) : LineReader :=
  { s with
    mem := fun a => if into ≤ a ∧ a < into + numBytes then 0 else s.mem a
    pc := .block
    into := into
    numBytes := numBytes
    loop := 0
    eolncond := false
    ch := ch
    before := s.mem
    got := [] }

/-- A pass of `RLineBlock->P()` by thread `t`. -/
def takeLine (s : LineReader) (t : Nat) : Option LineReader :=
  if t ∈ s.rLineBlock.queue then none
  else
    let q := s.rLineBlock.P t
    some { s with rLineBlock := q.1, pc := if q.2 then .loop else .block }

/-- A pass of `waitFor->P()` by thread `t`. -/
def await (s : LineReader) (t : Nat) : Option LineReader :=
  if t ∈ s.device.waitFor.queue then none
  else
    let q := s.device.waitFor.P t
    some { s with device := { s.device with waitFor := q.1 }, pc := if q.2 then .get else .wait }

/-- A character is taken, and put where it belongs. -/
def takeChar (s : LineReader) : LineReader :=
  let ch := s.device.incoming
  let s := { s with device := s.device.give, ch := ch }
  if ch = eofChar then { s with pc := .wait }
  else if ch = 10 ∨ ch = 1 then { s with eolncond := true, pc := .loop, got := s.got ++ [ch] }
  else
    { s with
      mem := upd s.mem (s.into + s.loop) ch
      loop := s.loop + 1
      pc := .loop
      got := s.got ++ [ch] }

/-- `RLineBlock->V()`, and `Read` returns. -/
def leave (s : LineReader) : LineReader :=
  { s with
    rLineBlock := s.rLineBlock.V.1
    pc := .out
    got := []
    reads := s.reads ++ [{
      into := s.into
      numBytes := s.numBytes
      result := if s.ch = 1 then -1 else s.loop
      before := s.before
      after := s.mem
      consumed := s.got }] }

/-- The reader, thread `t`, goes on. -/
def go (s : LineReader) (t : Nat) : Option LineReader :=
  match s.pc with
  | .out => none
  | .block => s.takeLine t
  | .loop =>
      some { s with pc := if s.loop < s.numBytes ∧ s.eolncond = false then .wait else .unblock }
  | .wait => s.await t
  | .get => some s.takeChar
  | .unblock => some s.leave

/-- One event. -/
def step (t : Nat) (s : LineReader) (e : ReadEvent) : Option LineReader :=
  if s.device.aborted then none
  else
    match e with
    | .call into numBytes ch => if s.pc = .out then some (s.enter into numBytes ch) else none
    | .go => s.go t
    | .poll ready =>
        if 0 < s.device.pending then some { s with device := s.device.callBack ready } else none

/-- The runs of the keyboard with one reader, thread `t`. -/
def sys (t : Nat) (bytes : List UInt8) : Base.System LineReader ReadEvent where
  init := fun s => ∃ mem, s = new bytes mem
  step := step t

end LineReader

end Nachos
