import Nachos.Base.Projection
import Nachos.Proof.FlatMemory
import Nachos.Threads.PTable

/-!
# Several user programs on one machine

`Scheduler::Run` with `Thread::SaveUserState`, `RestoreUserState` and `AddrSpace::RestoreState`,
the constructor, `Load`, `InitRegisters` and the destructor of `AddrSpace`, and what happens on the
machine while a program has it: `OneInstruction`, `DelayedLoad` by an interrupt, and the accesses
that the exception handler makes to the registers and the memory of the program it works for.

There is one set of registers, one main memory and one page table pointer. A program that is
switched away from leaves its registers in its thread. Its page table stays where it is, an
array of its own that the machine no longer looks at. Its bytes stay in main memory.

What the kernel does with the things it reads is not part of this model: the labels say what it
writes. They may depend on what it has read, and so that is recorded, in `heard`.
-/

namespace Nachos

open Base (upd)

/-! ## What is done for one program -/

/-- What happens on the machine while the program has it. -/
inductive UserAct where
  /-- The machine executes an instruction. -/
  | instruction
  /-- An interrupt is due: `CheckIfDue` calls `DelayedLoad(0, 0)`. -/
  | interrupt
  /-- The exception handler calls `ReadMem` or `WriteMem`. -/
  | access (a : Access)
  /-- It calls `ReadRegister`. -/
  | readRegister (num : Nat)
  /-- It calls `WriteRegister`. -/
  | writeRegister (num : Nat) (value : BitVec 32)
  /-- It returns to the user program. -/
  | resume
  deriving DecidableEq, Repr

/-- What the kernel hears of it. -/
inductive Told where
  | completed
  | raised (which : ExceptionType)
  | reply (r : Reply)
  | register (value : BitVec 32)
  | nothing
  deriving DecidableEq, Repr

namespace Machine

/-- `DelayedLoad(0, 0)`; `none` when it overruns the registers. -/
def afterInterrupt (m : Machine) : Option Machine :=
  match Mips.delayedLoad 0#32 0#32 m with
  | .ok _ m' => some m'
  | .error _ _ => none

/-- An act for a program whose exception `handling` the kernel is working on, if any. `none` when
the simulator fails, or it is not the time for such an act. -/
def act (m : Machine) (handling : Option ExceptionType) :
    UserAct → Option (Machine × Option ExceptionType × Told)
  | .instruction =>
      if handling = none then
        match m.oneInstruction with
        | .completed m' => some (m', none, .completed)
        | .raised which m' => some (m', some which, .raised which)
        | .crashed _ => none
      else none
  | .interrupt => m.afterInterrupt.map fun m' => (m', handling, .nothing)
  | .access a =>
      if handling ≠ none ∧ (a.size = 1 ∨ a.size = 2 ∨ a.size = 4) then
        (m.call a).map fun p => (p.2, handling, .reply p.1)
      else none
  | .readRegister num =>
      if handling ≠ none ∧ num < numTotalRegs then
        some (m, handling, .register (m.readRegister num))
      else none
  | .writeRegister num value =>
      if handling ≠ none ∧ num < numTotalRegs then
        some (m.writeRegister num value, handling, .nothing)
      else none
  | .resume => if handling ≠ none then some (m, none, .nothing) else none

/-- `AddrSpace::InitRegisters`. -/
def initRegisters (numPages : Nat) (m : Machine) : Machine :=
  let m := (List.range numTotalRegs).foldl (fun m i => m.writeRegister i 0#32) m
  let m := m.writeRegister pcReg 0#32
  let m := m.writeRegister nextPCReg 4#32
  m.writeRegister stackReg (BitVec.ofNat 32 (numPages * pageSize) - 16#32)

end Machine

/-! ## A program that has the machine to itself -/

/-- The machine, and what the kernel knows of the program on it. -/
structure Alone where
  machine : Machine
  /-- The exception that the kernel is working on. -/
  handling : Option ExceptionType
  /-- What it has heard, the latest first. -/
  heard : List Told

/-- One act. -/
def Alone.step (p : Alone) (a : UserAct) : Option Alone :=
  (p.machine.act p.handling a).map fun r => ⟨r.1, r.2.1, r.2.2 :: p.heard⟩

/-- Its runs. They may start anywhere. -/
def Alone.sys : Base.System Alone UserAct where
  init := fun _ => True
  step := Alone.step

/-! ## Several programs -/

/-- The thread of a user program, with its address space. -/
structure UserThread where
  /-- The registers as they were when the thread was switched away from. -/
  userRegisters : Nat → BitVec 32
  /-- The array `space->pageTable`, as it was then. -/
  pageTable : Nat → TranslationEntry
  /-- `space->numPages`. -/
  numPages : Nat
  handling : Option ExceptionType
  heard : List Told

namespace UserThread

/-- `SaveUserState`. `SaveState` has nothing to do. -/
def saveUserState (p : UserThread) (m : Machine) : UserThread :=
  { p with
    userRegisters := fun n => if n < numTotalRegs then m.readRegister n else p.userRegisters n
    pageTable := m.pageTable }

/-- `RestoreUserState`. -/
def restoreUserState (p : UserThread) (m : Machine) : Machine :=
  { m with registers := fun n => if n < numTotalRegs then p.userRegisters n else m.registers n }

/-- `RestoreState`. -/
def restoreState (p : UserThread) (m : Machine) : Machine :=
  { m with pageTable := p.pageTable, pageTableSize := p.numPages }

end UserThread

/-- The labels. -/
inductive Turn (ι : Type) where
  | act (i : ι) (a : UserAct)
  /-- `Run` switches away from the program. -/
  | leave (i : ι)
  /-- `Run` returns in its thread. -/
  | enter (i : ι)
  /-- `StartProcess_2`: the constructor, `InitRegisters` and `RestoreState`. -/
  | start (i : ι) (file : HostFile) (stack : Nat → UInt8)
  /-- The same for the program of the command line, which is read by `Load`, too. -/
  | boot (i : ι) (file : HostFile) (stack : Nat → UInt8)
  /-- The thread deletes its address space, and finishes. -/
  | exit (i : ι)
  /-- An interrupt while no user program has the machine. -/
  | idle

/-- The machine, the frames and the threads. -/
structure Multiprogram (ι : Type) where
  machine : Machine
  /-- `gPhysPageBitmap`. -/
  bitmap : Bitmap
  /-- Whose registers and page table are in the machine. -/
  current : Option ι
  thread : ι → Option UserThread

namespace Multiprogram

variable {ι : Type} [DecidableEq ι]

/-- The program `i` has been loaded. It runs. -/
def execute (s : Multiprogram ι) (i : ι) (r : Built) : Multiprogram ι where
  machine := r.restoreState (s.machine.initRegisters r.numPages)
  bitmap := r.bitmap
  current := some i
  thread := upd s.thread i (some
    { userRegisters := fun _ => 0#32
      pageTable := fun v => (r.pageTable[v]?).getD (s.machine.pageTable v)
      numPages := r.numPages
      handling := none
      heard := [] })

/-- The act of the program that has the machine. -/
def act (s : Multiprogram ι) (i : ι) (p : UserThread) (a : UserAct) : Option (Multiprogram ι) :=
  (s.machine.act p.handling a).map fun r =>
    { s with
      machine := r.1
      thread := upd s.thread i (some { p with handling := r.2.1, heard := r.2.2 :: p.heard }) }

/-- `~AddrSpace`, by the thread itself. -/
def deleteSpace (s : Multiprogram ι) (i : ι) (p : UserThread) : Multiprogram ι :=
  { s with
    bitmap := PState.clearFrames s.bitmap ((List.range p.numPages).map s.machine.pageTable)
    current := none
    thread := upd s.thread i none }

/-- One turn. -/
def step (s : Multiprogram ι) : Turn ι → Option (Multiprogram ι)
  | .act i a => if s.current = some i then (s.thread i).bind fun p => s.act i p a else none
  | .leave i =>
      if s.current = some i then
        (s.thread i).map fun p =>
          { s with current := none, thread := upd s.thread i (some (p.saveUserState s.machine)) }
      else none
  | .enter i =>
      if s.current = none then
        (s.thread i).map fun p =>
          { s with current := some i, machine := p.restoreState (p.restoreUserState s.machine) }
      else none
  | .start i file stack =>
      if s.current = none ∧ (s.thread i).isNone then
        (AddrSpace.construct file stack s.bitmap s.machine.mainMemory).map (s.execute i)
      else none
  | .boot i file stack =>
      -- nothing has been executed before
      if s.current = none ∧ (s.thread i).isNone ∧ s.bitmap.numClear = numPhysPages then
        ((AddrSpace.construct file stack s.bitmap s.machine.mainMemory).bind
          (AddrSpace.loadProgram file stack)).map (s.execute i)
      else none
  | .exit i => if s.current = some i then (s.thread i).map (s.deleteSpace i) else none
  | .idle =>
      if s.current = none then s.machine.afterInterrupt.map fun m' => { s with machine := m' }
      else none

/-- No program has been executed. -/
def Boot (s : Multiprogram ι) : Prop :=
  s.bitmap = PState.freeFrames ∧ s.current = none ∧ ∀ i, s.thread i = none

/-- The runs of any number of programs. -/
def sys : Base.System (Multiprogram ι) (Turn ι) where
  init := Boot
  step := step

end Multiprogram

/-- The acts of program `i`. -/
def Turn.own {ι : Type} [DecidableEq ι] (i : ι) : Turn ι → Option UserAct
  | .act j a => if j = i then some a else none
  | _ => none

end Nachos
