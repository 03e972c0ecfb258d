import Nachos.Base.System
import Nachos.Machine.Interrupt
import Nachos.Machine.Translate
import Nachos.Threads.Semaphore

/-!
# Threads and the scheduler: `threads/scheduler.cc`, `threads/thread.cc`

One thread has the CPU and all others are stopped somewhere in the middle of `Fork`,
`Yield` or `Sleep`. Where a stopped thread is, is on its stack; the model keeps it as the
`point` at which the thread goes on when it is given the CPU.

`Run` gives the CPU away in the middle of a function and comes back, much later, in the
middle of it. The step is therefore cut at `SWITCH`: the first half ends in the mode
`switched`, with another stack in use, and `resume` is what the new stack finds to do. A
thread that sleeps keeps the CPU as long as nobody is ready: it goes round the loop of
`Sleep`, where only interrupt handlers do anything, and one of them may wake that very
thread.

Interrupts are seen through what their handlers do here: a list of `V`s, and perhaps a
request to yield. Time passes only while interrupts are on, and every function of this
module that turns them off turns them on again as its last act, so a tick may come
wherever ordinary code runs with interrupts on, and nowhere else.

The user half of a context switch is here too: the registers of the machine, its page
table pointer, and the copies kept in the threads.
-/

namespace Nachos

open Base (upd)

/-! ## The processor -/

/-- The part of the machine that belongs to the running user program. -/
structure Processor where
  registers : Nat → BitVec 32
  /-- The page table, by the pointer to it. -/
  pageTable : Option Nat
  pageTableSize : Nat

namespace Processor

/-- `WriteRegister`. -/
def writeRegister (m : Processor) (num : Nat) (value : BitVec 32) : Processor :=
  { m with registers := upd m.registers num value }

/-- `DelayedLoad`: the pending load is done and another one is pending. -/
def delayedLoad (m : Processor) (nextReg nextValue : BitVec 32) : Processor :=
  let m := m.writeRegister (m.registers loadReg).toNat (m.registers loadValueReg)
  let m := m.writeRegister loadReg nextReg
  let m := m.writeRegister loadValueReg nextValue
  m.writeRegister 0 0#32

/-- No load is pending. -/
def Settled (r : Nat → BitVec 32) : Prop := r loadReg = 0#32 ∧ r loadValueReg = 0#32

end Processor

/-- An address space, as a context switch sees it. -/
structure Space where
  pageTable : Nat
  numPages : Nat
  deriving DecidableEq, Repr

namespace Space

/-- `InitRegisters`. -/
def initRegisters (sp : Space) (m : Processor) : Processor :=
  let m := (List.range numTotalRegs).foldl (fun m i => m.writeRegister i 0#32) m
  let m := m.writeRegister pcReg 0#32
  let m := m.writeRegister nextPCReg 4#32
  m.writeRegister stackReg (BitVec.ofNat 32 (sp.numPages * pageSize) - 16#32)

/-- `RestoreState`. -/
def restoreState (sp : Space) (m : Processor) : Processor :=
  { m with pageTable := some sp.pageTable, pageTableSize := sp.numPages }

end Space

/-! ## Threads -/

/-- `ThreadStatus`. -/
inductive ThreadStatus where
  | justCreated
  | running
  | ready
  | blocked
  deriving DecidableEq, Repr

/-- Where a thread goes on when it has the CPU. -/
inductive ThreadPoint where
  /-- It has not been forked. -/
  | justCreated
  /-- `Begin`, from `ThreadRoot`. -/
  | begin
  /-- Ordinary code, in user or in system mode. -/
  | code (user : Bool)
  /-- `P` of semaphore `k`, at the head of its loop. -/
  | inP (k : Nat) (oldLevel : IntStatus)
  /-- `Sleep(FALSE)`, called by `P` of semaphore `k`. -/
  | asleep (k : Nat) (oldLevel : IntStatus)
  /-- `Yield`, after its `Run`. -/
  | inYield (oldLevel : IntStatus) (user : Bool)
  /-- `Sleep(TRUE)`, called by `Finish`. -/
  | finishing
  /-- It is not coming back, and is `toBeDestroyed`. -/
  | finished
  /-- It has been deleted. -/
  | destroyed
  deriving DecidableEq, Repr

namespace ThreadPoint

/-- The thread may be given the CPU again. -/
def waits : ThreadPoint → Bool
  | begin => true
  | asleep _ _ => true
  | inYield _ _ => true
  | _ => false

/-- Only the thread that has the CPU is there. -/
def executes : ThreadPoint → Bool
  | code _ => true
  | inP _ _ => true
  | finishing => true
  | _ => false

/-- The thread has run for the last time. -/
def isOver : ThreadPoint → Bool
  | finished => true
  | destroyed => true
  | _ => false

end ThreadPoint

/-- What the thread that has the CPU is about. -/
inductive CpuMode where
  /-- It is at its point. -/
  | running
  /-- It is in the loop of `Sleep`. -/
  | idling
  /-- `SWITCH` has just been made to it. -/
  | switched
  | halted
  deriving DecidableEq, Repr

/-- Threads, semaphores and the processor. -/
structure Sched where
  /-- `kernel->currentThread`. -/
  currentThread : Nat
  /-- The thread whose stack is in use. -/
  stack : Nat
  level : IntStatus
  readyList : List Nat
  toBeDestroyed : Option Nat
  sem : Nat → Semaphore
  point : Nat → ThreadPoint
  status : Nat → ThreadStatus
  mode : CpuMode
  machine : Processor
  userRegisters : Nat → Nat → BitVec 32
  space : Nat → Option Space
  /-- Every `ASSERT` so far has held. -/
  asserts : Bool

/-- What happens next. -/
inductive SchedCall where
  /-- The thread forks `t`. -/
  | fork (t : Nat)
  | yield
  /-- It calls `P` of semaphore `k`. -/
  | P (k : Nat)
  /-- It goes round the loop of `P`. -/
  | pass
  /-- It calls `V` of semaphore `k`. -/
  | V (k : Nat)
  | finish
  | setLevel (now : IntStatus)
  /-- Time passes. Either no interrupt is due, or the handlers do these `V`s and perhaps
  ask for a context switch. -/
  | oneTick (fired : Option (List Nat × Bool))
  /-- The loop of `Sleep` finds a thread. -/
  | findNext
  /-- The loop of `Sleep` finds none, and the handlers of the next interrupts do these `V`s. -/
  | idle (vs : List Nat)
  /-- The loop of `Sleep` finds none, and no interrupt is pending. -/
  | halt
  /-- The thread that was switched to goes on. -/
  | resume
  /-- The user program executes an instruction that leaves these registers. -/
  | instruction (registers : Nat → BitVec 32)
  /-- `RaiseException`. -/
  | raise (badVAddr : BitVec 32)
  /-- The kernel goes back to the user program. -/
  | userMode
  /-- The kernel writes a register of the user program. -/
  | writeRegister (num : Nat) (value : BitVec 32)
  /-- The thread is given an address space to run. -/
  | execute (sp : Space)

namespace Sched

/-- `ASSERT`: whether all have held so far. -/
def assert (s : Sched) (b : Bool) : Sched := { s with asserts := s.asserts && b }

/-- `ReadyToRun`, with the assertion of `List::Append`. -/
def readyToRun (s : Sched) (t : Nat) : Sched :=
  let s := s.assert (s.level == .intOff)
  let s := s.assert (!s.readyList.contains t)
  { s with status := upd s.status t .ready, readyList := s.readyList ++ [t] }

/-- `FindNextToRun`. -/
def findNextToRun (s : Sched) : Option Nat × Sched :=
  let s := s.assert (s.level == .intOff)
  match s.readyList with
  | [] => (none, s)
  | t :: ts => (some t, { s with readyList := ts })

/-- `SaveUserState`, for a thread with an address space. -/
def saveUserState (s : Sched) (t : Nat) : Sched :=
  if (s.space t).isSome then
    { s with userRegisters := upd s.userRegisters t fun i =>
        if i < numTotalRegs then s.machine.registers i else s.userRegisters t i }
  else s

/-- `RestoreUserState` and `RestoreState`, for a thread with an address space. -/
def restoreUserState (s : Sched) (t : Nat) : Sched :=
  match s.space t with
  | none => s
  | some sp =>
      { s with machine := sp.restoreState { s.machine with
          registers := fun i =>
            if i < numTotalRegs then s.userRegisters t i else s.machine.registers i } }

/-- `Run`, as far as `SWITCH`. -/
def run (s : Sched) (nextThread : Nat) (finishing : Bool) : Sched :=
  let oldThread := s.currentThread
  let s := s.assert (s.level == .intOff)
  -- the old thread is deleted by the next one, on another stack
  let s := if finishing then
      { s.assert s.toBeDestroyed.isNone with
        toBeDestroyed := some oldThread
        point := upd s.point oldThread .finished }
    else s
  let s := s.saveUserState oldThread
  { s with
    currentThread := nextThread
    status := upd s.status nextThread .running
    stack := nextThread
    mode := .switched }

/-- `CheckToBeDestroyed`, with the assertion of `~Thread`. -/
def checkToBeDestroyed (s : Sched) : Sched :=
  match s.toBeDestroyed with
  | none => s
  | some d =>
      { s.assert (d != s.currentThread) with
        toBeDestroyed := none
        point := upd s.point d .destroyed }

/-- The body of `V`. -/
def semV (s : Sched) (k : Nat) : Sched :=
  let q := (s.sem k).V
  let s := { s with sem := upd s.sem k q.1 }
  match q.2 with
  | none => s
  | some t => s.readyToRun t

/-- `V`, called by the thread that runs. -/
def callV (s : Sched) (k : Nat) : Sched :=
  { semV { s with level := .intOff } k with level := s.level }

/-- `Fork`. -/
def fork (s : Sched) (t : Nat) : Sched :=
  { readyToRun { s with point := upd s.point t .begin, level := .intOff } t with level := s.level }

/-- `Yield`, as far as `SWITCH`. -/
def yield (s : Sched) (user : Bool) : Sched :=
  let this := s.stack
  let oldLevel := s.level
  let s := { s with level := .intOff }
  let s := s.assert (this == s.currentThread)
  match s.findNextToRun with
  | (none, s) => { s with level := oldLevel }
  | (some nextThread, s) =>
      let s := s.readyToRun this
      run { s with point := upd s.point this (.inYield oldLevel user) } nextThread false

/-- `Sleep`, as far as its loop. -/
def sleep (s : Sched) (point : ThreadPoint) : Sched :=
  let this := s.stack
  let s := s.assert (this == s.currentThread)
  let s := s.assert (s.level == .intOff)
  { s with
    status := upd s.status this .blocked
    point := upd s.point this point
    mode := .idling }

/-- `P`, as far as its loop. -/
def callP (s : Sched) (k : Nat) : Sched :=
  { s with level := .intOff, point := upd s.point s.stack (.inP k s.level) }

/-- One pass of the loop of `P`, with the assertion of `List::Append`. -/
def pass (s : Sched) (k : Nat) (oldLevel : IntStatus) : Sched :=
  let q := (s.sem k).P s.stack
  -- with the unit, `P` returns and restores the level it found
  if q.2 then
    { s with
      sem := upd s.sem k q.1
      point := upd s.point s.stack (.code false)
      level := oldLevel }
  else
    let s := s.assert (!(s.sem k).queue.contains s.stack)
    sleep { s with sem := upd s.sem k q.1 } (.asleep k oldLevel)

/-- `Finish`. -/
def finish (s : Sched) : Sched :=
  let s := { s with level := .intOff }
  (s.assert (s.stack == s.currentThread)).sleep .finishing

/-- The handlers, with interrupts off. -/
def handlers (s : Sched) (vs : List Nat) : Sched :=
  vs.foldl semV { s with machine := s.machine.delayedLoad 0#32 0#32 }

/-- `OneTick`. -/
def oneTick (s : Sched) (user : Bool) : Option (List Nat × Bool) → Sched
  | none => s
  | some (vs, yieldOnReturn) =>
      let s := { handlers { s with level := .intOff } vs with level := .intOn }
      if yieldOnReturn then s.yield user else s

/-- The loop of `Sleep`, when a thread is ready, and `Run`. -/
def findNext (s : Sched) : Option Sched :=
  match s.findNextToRun with
  | (none, _) => none
  | (some nextThread, s) =>
      some (s.run nextThread (decide (s.point s.stack = .finishing)))

/-- `Run`, from `SWITCH` on. -/
def backFromSwitch (s : Sched) : Sched :=
  (s.assert (s.level == .intOff)).checkToBeDestroyed.restoreUserState s.stack

/-- What the thread that was switched to does. -/
def resume (s : Sched) : Option Sched :=
  match s.point s.stack with
  -- a thread that runs for the first time does not come back from `SWITCH`
  | .begin =>
      let s := (s.assert (s.stack == s.currentThread)).checkToBeDestroyed
      some { s with level := .intOn, point := upd s.point s.stack (.code false), mode := .running }
  | .inYield oldLevel user =>
      let s := s.backFromSwitch
      some { s with level := oldLevel, point := upd s.point s.stack (.code user), mode := .running }
  | .asleep k oldLevel =>
      let s := s.backFromSwitch
      some { s with point := upd s.point s.stack (.inP k oldLevel), mode := .running }
  | _ => none

/-- `StartProcess_2` and `Execute`: the thread becomes a user program. -/
def execute (s : Sched) (sp : Space) : Sched :=
  { s with
    space := upd s.space s.stack (some sp)
    machine := sp.restoreState (sp.initRegisters s.machine)
    point := upd s.point s.stack (.code true) }

/-- The registers of a pending load are written by the machine only. -/
def kernelWrites (num : Nat) : Bool := num != loadReg && num != loadValueReg

/-- What ordinary code may do. -/
def codeStep (s : Sched) (user : Bool) : SchedCall → Option Sched
  | .oneTick fired => if s.level = .intOn then some (s.oneTick user fired) else none
  | .raise badVAddr =>
      some { s with
        machine := (s.machine.writeRegister badVAddrReg badVAddr).delayedLoad 0#32 0#32
        point := upd s.point s.stack (.code false) }
  | .instruction registers =>
      if user then some { s with machine := { s.machine with registers := registers } } else none
  | .fork t => if !user && s.point t = .justCreated then some (s.fork t) else none
  | .yield => if !user then some (s.yield false) else none
  | .P k => if !user then some (s.callP k) else none
  | .V k => if !user then some (s.callV k) else none
  | .finish => if !user then some s.finish else none
  | .setLevel now => if !user then some { s with level := now } else none
  | .userMode =>
      if !user && (s.space s.stack).isSome then
        some { s with point := upd s.point s.stack (.code true) }
      else none
  | .writeRegister num value =>
      if !user && kernelWrites num then some { s with machine := s.machine.writeRegister num value }
      else none
  | .execute sp => if !user && (s.space s.stack).isNone then some (s.execute sp) else none
  | _ => none

/-- One step. -/
def step (s : Sched) (c : SchedCall) : Option Sched :=
  match s.mode with
  | .running =>
      match s.point s.stack, c with
      | .code user, c => s.codeStep user c
      | .inP k oldLevel, .pass => some (s.pass k oldLevel)
      | _, _ => none
  | .idling =>
      match c with
      | .findNext => s.findNext
      | .idle vs => if s.readyList = [] then some (s.handlers vs) else none
      | .halt => if s.readyList = [] then some { s with mode := .halted } else none
      | _ => none
  | .switched => if let .resume := c then s.resume else none
  | .halted => none

/-- The main thread runs, nobody else has been forked, and nobody waits for anything. -/
def Boot (s : Sched) : Prop :=
  s.currentThread = s.stack ∧ s.readyList = [] ∧ s.toBeDestroyed = none ∧
    (∀ k, (s.sem k).queue = []) ∧
    (∀ t, s.point t = if t = s.stack then .code false else .justCreated) ∧
    s.mode = .running ∧ (∀ t, s.space t = none) ∧ s.asserts = true

/-- The runs of the kernel's threads. -/
def sys : Base.System Sched SchedCall where
  init := Boot
  step := step

end Sched

end Nachos
