import Nachos.Threads.Scheduler

/-!
# Time slicing: `machine/timer.cc`, `threads/alarm.cc`

The timer asks for an interrupt, and its callback asks for the next one. In between it
calls the alarm, which wants the thread that was interrupted to yield, unless the machine
was idle.

Here the interrupt hardware and the threads run together. A tick of the running thread
goes through `CheckIfDue`, one callback after the other; what the callbacks do to the
threads is a list of `V`s, and since no callback looks at a thread, the threads see them
when the loop is left, together with the wish to yield. The loop of `Sleep` goes through
`CheckIfDue` in the same way.

A thread that turns interrupts on again makes a tick happen. As in `Sched`, that tick is a
step of its own, and may come wherever ordinary code runs with interrupts on.
-/

namespace Nachos

/-- The average time between timer interrupts. -/
def timerTicks : Int := 100

/-- The timer, as the object to call. -/
def timerObject : Nat := 0

/-- The timer device, on the hardware it asks for its interrupts. -/
structure Timer where
  randomize : Bool
  disable : Bool
  interrupt : Interrupt

namespace Timer

/-- How far off the next interrupt is, when `RandomNumber` gives `r`. -/
def delay (t : Timer) (r : Nat) : Int :=
  if t.randomize then 1 + (r : Int) % (timerTicks * 2) else timerTicks

/-- `SetInterrupt`. -/
def setInterrupt (t : Timer) (r : Nat) : Option Timer :=
  if !t.disable then
    (t.interrupt.schedule timerObject (t.delay r) .timerInt).map fun i => { t with interrupt := i }
  else some t

/-- The constructor, called by that of `Alarm`. -/
def new (doRandom : Bool) (r : Nat) : Option Timer :=
  setInterrupt { randomize := doRandom, disable := false, interrupt := .new } r

/-- `Alarm::CallBack`. -/
def alarm (t : Timer) : Option Timer :=
  if t.interrupt.status ≠ .idleMode then
    (t.interrupt.step .yieldOnReturn).map fun i => { t with interrupt := i }
  else some t

/-- `CallBack`. -/
def callBack (t : Timer) (r : Nat) : Option Timer := t.alarm.bind fun t => t.setInterrupt r

/-- `ChangeLevel`. -/
def changeLevel (t : Timer) (now : IntStatus) : Timer := { t with interrupt.level := now }

/-- The most that `SetInterrupt` asks for. -/
def period (t : Timer) : Int := if t.randomize then timerTicks * 2 else timerTicks

end Timer

/-- The threads, with the hardware that lets time pass. -/
structure TimeSharing where
  timer : Timer
  sched : Sched
  /-- The semaphores the callbacks of this loop have called `V` of. -/
  signalled : List Nat

/-- What happens next. -/
inductive TimeCall where
  /-- The thread that has the CPU goes on, with no time passing. -/
  | thread (c : SchedCall)
  /-- A device other than the timer calls `Schedule`. -/
  | schedule (toCall : Nat) (fromNow : Int) (type : IntType)
  /-- The machine enters or leaves user mode. -/
  | setStatus (st : MachineStatus)
  | oneTick
  | idle
  /-- A callback calls `V` of semaphore `k`. -/
  | V (k : Nat)
  /-- The callback returns. -/
  | ret
  /-- The callback of the timer, when `RandomNumber` gives `r`. -/
  | timer (r : Nat)

namespace TimeSharing

/-- The time. -/
def now (s : TimeSharing) : Int := s.timer.interrupt.stats.totalTicks

/-- Where the kernel is. -/
def phase (s : TimeSharing) : IntPhase := s.timer.interrupt.phase

/-- A step in which no time passes. -/
def isThread : SchedCall → Bool
  | .oneTick _ => false
  | .idle _ => false
  | .halt => false
  | _ => true

/-- The threads have moved on, and the level is what they left it at. -/
def withSched (s : TimeSharing) (sched : Sched) : TimeSharing :=
  { s with sched := sched, timer := s.timer.changeLevel sched.level }

/-- A step of the interrupt hardware. -/
def hardware (s : TimeSharing) (c : IntCall) : Option TimeSharing :=
  (s.timer.interrupt.step c).map fun i => { s with timer.interrupt := i }

/-- The threads learn what the callbacks did, in `OneTick` or in `Idle`. -/
def told (s : TimeSharing) (advanceClock yieldOnReturn : Bool) : Option TimeSharing :=
  let c : SchedCall :=
    if advanceClock then .idle s.signalled else .oneTick (some (s.signalled, yieldOnReturn))
  (s.sched.step c).map { s with signalled := [] }.withSched

/-- The callback returns, and `CheckIfDue` goes on. -/
def ret (s : TimeSharing) : Option TimeSharing :=
  match s.phase with
  | .callBack _ advanceClock =>
      let i := s.timer.interrupt.loop advanceClock
      -- the last callback: the threads are told of all of them at once
      if i.phase = .outside then
        { s with timer.interrupt := i }.told advanceClock s.timer.interrupt.yieldOnReturn
      else some { s with timer.interrupt := i }
  | _ => none

/-- `Idle`, called by the loop of `Sleep`, up to the first callback. -/
def idle (s : TimeSharing) : Option TimeSharing :=
  (s.hardware .idle).bind fun s' =>
    if s'.phase = .halted then (s'.sched.step .halt).map fun sched => { s' with sched := sched }
    else some s'

/-- One step. -/
def step (s : TimeSharing) (c : TimeCall) : Option TimeSharing :=
  match s.phase, c with
  | .outside, .thread c => if isThread c then (s.sched.step c).map s.withSched else none
  | .outside, .schedule toCall fromNow type =>
      if toCall ≠ timerObject then s.hardware (.schedule toCall fromNow type) else none
  | .outside, .setStatus st => if st ≠ .idleMode then s.hardware (.setStatus st) else none
  | .outside, .oneTick =>
      if (s.sched.step (.oneTick none)).isSome then s.hardware .oneTick else none
  | .outside, .idle => if (s.sched.step (.idle [])).isSome then s.idle else none
  | .callBack p _, .timer r =>
      if p.callOnInterrupt = timerObject then
        (s.timer.callBack r).bind fun t => { s with timer := t }.ret
      else none
  | .callBack p _, c =>
      -- the callback of another device
      if p.callOnInterrupt = timerObject then none
      else match c with
        | .schedule toCall fromNow type =>
            if toCall ≠ timerObject then s.hardware (.schedule toCall fromNow type) else none
        | .V k => some { s with signalled := s.signalled ++ [k] }
        | .ret => s.ret
        | _ => none
  | _, _ => none

/-- The kernel has been initialized, and the main thread runs. -/
def Boot (s : TimeSharing) : Prop :=
  ∃ doRandom r t, Timer.new doRandom r = some t ∧ Sched.Boot s.sched ∧
    s.timer = t.changeLevel s.sched.level ∧ s.signalled = []

/-- The runs of threads that share the CPU. -/
def sys : Base.System TimeSharing TimeCall where
  init := Boot
  step := step

/-- No sum with `totalTicks` leaves the `int`s. -/
def NoOverflow (s : TimeSharing) (c : TimeCall) : Prop :=
  s.now + timerTicks * 2 ≤ intMax ∧
    match c with
    | .schedule _ fromNow _ => s.now + fromNow ≤ intMax
    | _ => True

instance (s : TimeSharing) (c : TimeCall) : Decidable (NoOverflow s c) :=
  match c with
  | .schedule _ fromNow _ =>
      inferInstanceAs (Decidable (s.now + timerTicks * 2 ≤ intMax ∧ s.now + fromNow ≤ intMax))
  | .thread _ => inferInstanceAs (Decidable (s.now + timerTicks * 2 ≤ intMax ∧ True))
  | .setStatus _ => inferInstanceAs (Decidable (s.now + timerTicks * 2 ≤ intMax ∧ True))
  | .oneTick => inferInstanceAs (Decidable (s.now + timerTicks * 2 ≤ intMax ∧ True))
  | .idle => inferInstanceAs (Decidable (s.now + timerTicks * 2 ≤ intMax ∧ True))
  | .V _ => inferInstanceAs (Decidable (s.now + timerTicks * 2 ≤ intMax ∧ True))
  | .ret => inferInstanceAs (Decidable (s.now + timerTicks * 2 ≤ intMax ∧ True))
  | .timer _ => inferInstanceAs (Decidable (s.now + timerTicks * 2 ≤ intMax ∧ True))

end TimeSharing

end Nachos
