import Nachos.Base.System
import Nachos.Lib.SortedList
import Nachos.Lib.Utility

/-!
# Simulated time and interrupts: `machine/interrupt.cc`

Devices ask for an interrupt by `Schedule`, which puts it on a list sorted by time. Time
moves in `OneTick`, which runs after every user instruction and whenever interrupts are
turned on again, and in `Idle`, which jumps to the first interrupt on the list. Both then
go through `CheckIfDue`, whose loop calls back every interrupt that is due.

A callback may do to this module what any kernel code may, except turn interrupts on: it
may schedule further interrupts, and ask for a context switch on return. The loop is
therefore modelled by its position: `callBack p` while the callback of `p` runs, and the
next round of the loop when it returns. What else the kernel does is none of this
module's business, so the steps outside the loop come in any order.
-/

namespace Nachos

/-- Interrupts off or on. -/
inductive IntStatus where
  | intOff
  | intOn
  deriving DecidableEq, Repr

/-- What the machine is doing, for the statistics. -/
inductive MachineStatus where
  | idleMode
  | systemMode
  | userMode
  deriving DecidableEq, Repr

/-- The device an interrupt comes from. -/
inductive IntType where
  | timerInt
  | diskInt
  | consoleWriteInt
  | consoleReadInt
  | networkSendInt
  | networkRecvInt
  deriving DecidableEq, Repr

/-- An interrupt that is to occur. -/
structure PendingInterrupt where
  /-- The object to call. -/
  callOnInterrupt : Nat
  when : Int
  type : IntType
  /-- Which object this is: how many were allocated before it. -/
  id : Nat
  deriving DecidableEq, Repr

/-- `PendingCompare`. -/
def pendingCompare (x y : PendingInterrupt) : Int :=
  if x.when < y.when then -1 else if x.when > y.when then 1 else 0

/-- `UserTick`: what the clock advances by in user mode. -/
def userTick : Int := 1

/-- `SystemTick`: the same for the kernel, when it turns interrupts on. -/
def systemTick : Int := 10

/-- The clocks of `stats.h`. -/
structure Statistics where
  totalTicks : Int
  idleTicks : Int
  systemTicks : Int
  userTicks : Int
  deriving DecidableEq, Repr

/-- Where the kernel is. -/
inductive IntPhase where
  /-- Not in `CheckIfDue`. -/
  | outside
  /-- In the loop of `CheckIfDue(advanceClock)`, calling back `p`. -/
  | callBack (p : PendingInterrupt) (advanceClock : Bool)
  /-- `Halt` was called. -/
  | halted
  deriving DecidableEq, Repr

/-- The interrupt hardware and the clocks. -/
structure Interrupt where
  level : IntStatus
  pending : List PendingInterrupt
  inHandler : Bool
  yieldOnReturn : Bool
  status : MachineStatus
  stats : Statistics
  /-- How many interrupts have been allocated. -/
  allocated : Nat
  phase : IntPhase
  deriving DecidableEq, Repr

/-- What happens next. -/
inductive IntCall where
  /-- A device calls `Schedule`. -/
  | schedule (toCall : Nat) (fromNow : Int) (type : IntType)
  /-- `SetLevel`. -/
  | setLevel (now : IntStatus)
  /-- `OneTick`, after a user instruction. -/
  | oneTick
  /-- `Idle`. -/
  | idle
  /-- The machine enters or leaves user mode. -/
  | setStatus (st : MachineStatus)
  /-- A callback calls `YieldOnReturn`. -/
  | yieldOnReturn
  /-- The callback returns. -/
  | ret
  deriving DecidableEq, Repr

namespace Interrupt

/-- The constructors of `Interrupt` and `Statistics`. -/
def new : Interrupt where
  level := .intOff
  pending := []
  inHandler := false
  yieldOnReturn := false
  status := .systemMode
  stats := ⟨0, 0, 0, 0⟩
  allocated := 0
  phase := .outside

/-- `Schedule`, which asserts `fromNow > 0`. -/
def schedule (s : Interrupt) (toCall : Nat) (fromNow : Int) (type : IntType) : Option Interrupt :=
  if 0 < fromNow then
    let toOccur := ⟨toCall, toInt32 (s.stats.totalTicks + fromNow), type, s.allocated⟩
    some { s with
      pending := SortedList.insert pendingCompare toOccur s.pending
      allocated := s.allocated + 1 }
  else none

/-- What the caller of `CheckIfDue(advanceClock)` does with its result. -/
def afterCheck (s : Interrupt) (advanceClock fired : Bool) : Interrupt :=
  if advanceClock then
    -- `Idle`
    if fired then { s with phase := .outside, status := .systemMode }
    else { s with phase := .halted }
  else if s.yieldOnReturn then
    -- `OneTick`, with a context switch
    { s with phase := .outside, level := .intOn, yieldOnReturn := false, status := .systemMode }
  else { s with phase := .outside, level := .intOn }

/-- The body of the loop up to the callback. -/
def callNext (s : Interrupt) (advanceClock : Bool) : Interrupt :=
  match s.pending with
  | [] => s
  | p :: ps => { s with pending := ps, phase := .callBack p advanceClock }

/-- The clock is moved on to the first interrupt. -/
def advanceTo (s : Interrupt) (time : Int) : Interrupt :=
  { s with
    stats.idleTicks := toInt32 (s.stats.idleTicks + (time - s.stats.totalTicks))
    stats.totalTicks := time }

/-- `CheckIfDue`, up to the first callback. -/
def checkIfDue (s : Interrupt) (advanceClock : Bool) : Interrupt :=
  match s.pending with
  | [] => s.afterCheck advanceClock false
  | next :: _ =>
      if next.when > s.stats.totalTicks then
        -- not due yet, and only `Idle` may move the clock
        if !advanceClock then s.afterCheck advanceClock false
        else callNext { s.advanceTo next.when with inHandler := true } advanceClock
      else callNext { s with inHandler := true } advanceClock

/-- The rest of the loop of `CheckIfDue`, after a callback. -/
def loop (s : Interrupt) (advanceClock : Bool) : Interrupt :=
  match s.pending with
  | [] => afterCheck { s with inHandler := false } advanceClock true
  | next :: _ =>
      if next.when ≤ s.stats.totalTicks then s.callNext advanceClock
      else afterCheck { s with inHandler := false } advanceClock true

/-- Time passes, in the mode the machine is in. -/
def tick (s : Interrupt) : Interrupt :=
  if s.status = .systemMode then
    { s with
      stats.totalTicks := toInt32 (s.stats.totalTicks + Nachos.systemTick)
      stats.systemTicks := toInt32 (s.stats.systemTicks + Nachos.systemTick) }
  else
    { s with
      stats.totalTicks := toInt32 (s.stats.totalTicks + Nachos.userTick)
      stats.userTicks := toInt32 (s.stats.userTicks + Nachos.userTick) }

/-- `OneTick`, up to the first callback. -/
def oneTick (s : Interrupt) : Interrupt := checkIfDue { s.tick with level := .intOff } false

/-- `SetLevel`. -/
def setLevel (s : Interrupt) (now : IntStatus) : Interrupt :=
  if now = .intOn ∧ s.level = .intOff then oneTick { s with level := now }
  else { s with level := now }

/-- `Idle`, up to the first callback. `CheckIfDue` asserts that interrupts are off. -/
def idle (s : Interrupt) : Option Interrupt :=
  if s.level = .intOff then some (checkIfDue { s with status := .idleMode } true) else none

/-- One step. `SetLevel` asserts that no handler turns interrupts on. -/
def step (s : Interrupt) (c : IntCall) : Option Interrupt :=
  match s.phase, c with
  | .outside, .schedule toCall fromNow type => s.schedule toCall fromNow type
  | .outside, .setLevel now => some (s.setLevel now)
  | .outside, .oneTick => some s.oneTick
  | .outside, .idle => s.idle
  | .outside, .setStatus st => some { s with status := st }
  | .callBack _ _, .schedule toCall fromNow type => s.schedule toCall fromNow type
  | .callBack _ _, .setLevel .intOff => some (s.setLevel .intOff)
  | .callBack _ _, .yieldOnReturn => some { s with yieldOnReturn := true }
  | .callBack _ advanceClock, .ret => some (s.loop advanceClock)
  | _, _ => none

/-- The runs of the interrupt hardware. -/
def sys : Base.System Interrupt IntCall where
  init := fun s => s = new
  step := step

end Interrupt

end Nachos
