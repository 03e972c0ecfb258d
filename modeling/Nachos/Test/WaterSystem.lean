import Nachos.Base.Cursor
import Nachos.Base.System
import Nachos.Userprog.Exception

/-!
# The water taps: `test/watersystem_main.c`, `test/student.c` and `test/watertap.c`

`watersystem_main` reads `input.txt` and gives `student` one line of it at a time, in
`student.txt`. `student` gives `watertap` one volume at a time, in `watertap.txt`, and marks the
last of a line with a star. `watertap` picks a tap and writes its number to `result.txt`, which
`watersystem_main` copies to `output.txt` when the line is done. Four semaphores, all at zero
to begin with, say whose turn it is.

A step is one system call of one process, together with what the process computes until its next
call; which process moves is the label, so the order of the labels is the interleaving. A
file is a list of bytes or is missing. `CreateFile` makes it or empties it, and `Open` of a missing
file answers `-1`. Each process has a file table of its own, so a process sees of an open file
only the offset behind its own variable: `none` when the variable stands for no open file.
-/

namespace Nachos

namespace WaterSystem

open Base (upd writeOver)
open Handler (signedChar)

/-- The files, by name. -/
inductive File where
  | input | output | student | watertap | result
  deriving DecidableEq

/-- The semaphores, by name. -/
inductive Sem where
  | main | student | watertap | mainWatertap
  deriving DecidableEq

/-- The files that are there, with their bytes. -/
abbrev Files := File → Option (List UInt8)

/-! ## The system calls -/

/-- `CreateFile`. An old file is emptied. -/
def createFile (files : Files) (f : File) : Files := upd files f (some [])

/-- `Open`, with `none` for `-1`. -/
def openFile (files : Files) (f : File) : Option Nat := (files f).map fun _ => 0

/-- `Read(&c, 1, fID)`: the answer, the character and the offset after it. -/
def read (files : Files) (f : File) (fID : Option Nat) (c : UInt8) : Int × UInt8 × Option Nat :=
  match fID with
  | none => (-1, c, none)
  | some off =>
      match ((files f).getD [])[off]? with
      | none => (-2, c, some off)
      | some b => (1, b, some (off + 1))

/-- `Write(buffer, size, fID)`. No caller looks at the answer. -/
def write (files : Files) (f : File) (fID : Option Nat) (buffer : List UInt8) :
    Files × Option Nat :=
  match fID with
  | none => (files, none)
  | some off =>
      (upd files f (some (writeOver 0 ((files f).getD []) off buffer)), some (off + buffer.length))

/-- `Seek(position, fID)`: the answer and the offset. -/
def seek (files : Files) (f : File) (position : Int) (fID : Option Nat) : Int × Option Nat :=
  match fID with
  | none => (-1, none)
  | some off =>
      let length := toInt32 ((files f).getD []).length
      let position := if position = -1 then length else position
      if position > length ∨ position < 0 then (-1, some off) else (position, some position.toNat)

/-- `Signal`. -/
def signal (sem : Sem → Nat) (x : Sem) : Sem → Nat := upd sem x (sem x + 1)

/-! ## The processes -/

/-- Where `watersystem_main` is: before which call. -/
inductive MainPc where
  | createSemaphores | createOutput | openInput | openOutput
  /-- The `Read` in the loop that reads `num`. -/
  | readNum
  | execStudent | execWatertap
  /-- `while (num--)`. -/
  | head
  /-- The calls of `WriteToStudent`. -/
  | createStudent | openStudent | readInput | writeStudent | closeStudent
  /-- `Signal("student")` and `Wait("main")`. -/
  | signalStudent | waitMain
  /-- The calls of `WriteToOutput`; `writeOutput` is before the character that was read. -/
  | openResult | readResult | writeOutput | writeSpace | writeEnd | closeResult | signalWatertap
  /-- The `Close` after the loop of `WriteToOutput`. -/
  | closeAgain
  | closeInput | closeOutput | finished
  deriving DecidableEq

/-- Where `student` is: before which call. -/
inductive StudentPc where
  /-- Before `Exec`. -/
  | unborn
  /-- `Signal("main_watertap")` and the `CreateFile` after it. -/
  | signalFirst | createFirst
  /-- The `Wait` at the head of the outer loop. -/
  | waitLine
  | createResult | openStudent | seekEnd | seekStart | openWatertap
  /-- The calls of the inner loop. -/
  | readStudent | writeWatertap | writeStar | closeWatertap | signalWatertap | waitServed
  | createWatertap | reopenWatertap
  /-- After the inner loop. -/
  | closeLast | closeStudent | signalMain
  /-- The exits. -/
  | failClose | failSignal | finished
  deriving DecidableEq

/-- Where `watertap` is: before which call. -/
inductive WatertapPc where
  /-- Before `Exec`. -/
  | unborn
  | waitMain | openResult
  | waitVolume | openWatertap | readWatertap | closeWatertap
  /-- `Write` of a tap. -/
  | writeResult (digit : UInt8)
  /-- The two calls after the last volume of a line. -/
  | closeResult | signalLast
  /-- `Signal("student")` after another volume. -/
  | signalNext
  /-- The exits: `failResult` when there is no `result.txt`, the others when there is no
  `watertap.txt`. -/
  | failResult | failClose | failSignal | finished
  deriving DecidableEq

/-- The variables of `watersystem_main`. The characters of its three functions are read before they
are used, so one variable stands for them. -/
structure Main where
  pc : MainPc
  num : Int
  c : UInt8
  fIDInput : Option Nat
  fIDOutput : Option Nat
  fIDStudent : Option Nat
  fIDResult : Option Nat

/-- The variables of `student`. -/
structure Student where
  pc : StudentPc
  c : UInt8
  fileLength : Int
  pos : Int
  fIDStudent : Option Nat
  fIDWatertap : Option Nat

/-- The variables of `watertap`. -/
structure Watertap where
  pc : WatertapPc
  c : UInt8
  tap1 : Int
  tap2 : Int
  volume : Int
  isEndStudentQueue : Bool
  fIDWatertap : Option Nat
  fIDResult : Option Nat

/-- The files, the semaphores and the three programs. -/
structure State where
  files : Files
  sem : Sem → Nat
  main : Main
  student : Student
  watertap : Watertap

/-- Who moves. -/
inductive Proc where
  | main | student | watertap
  deriving DecidableEq

/-- `num` after another character of its line. -/
def addDigit (num : Int) (c : UInt8) : Int :=
  if signedChar c ≥ 48 ∧ signedChar c ≤ 57 then
    toInt32 (num * 10 + (signedChar c - 48))
  else num

/-- A step of `watersystem_main`. `CreateSemaphore`, `CreateFile` and `Exec` do not fail. -/
def mainStep (s : State) : Option State :=
  match s.main.pc with
  | .createSemaphores => some { s with sem := (fun _ => 0), main.pc := .createOutput }
  | .createOutput => some { s with files := createFile s.files .output, main.pc := .openInput }
  | .openInput =>
      match openFile s.files .input with
      | none => some { s with main.pc := .finished }
      | some off => some { s with main.fIDInput := some off, main.pc := .openOutput }
  | .openOutput =>
      match openFile s.files .output with
      | none => some { s with main.fIDInput := none, main.pc := .finished }
      | some off => some { s with main.fIDOutput := some off, main.num := 0, main.pc := .readNum }
  | .readNum =>
      let r := read s.files .input s.main.fIDInput s.main.c
      let main := { s.main with c := r.2.1, fIDInput := r.2.2 }
      if r.2.1 ≠ 10 then some { s with main := { main with num := addDigit s.main.num r.2.1 } }
      else some { s with main := { main with pc := .execStudent } }
  | .execStudent => some { s with student.pc := .signalFirst, main.pc := .execWatertap }
  | .execWatertap =>
      some { s with
        watertap := { s.watertap with tap1 := 0, tap2 := 0, pc := .waitMain }
        main.pc := .head }
  | .head =>
      if s.main.num ≠ 0 then
        some { s with main.num := toInt32 (s.main.num - 1), main.pc := .createStudent }
      else some { s with main.num := toInt32 (s.main.num - 1), main.pc := .closeInput }
  | .createStudent => some { s with files := createFile s.files .student, main.pc := .openStudent }
  | .openStudent =>
      match openFile s.files .student with
      -- `main` does not look at the answer of `WriteToStudent` and goes on
      | none =>
          some { s with
            main := { s.main with fIDInput := none, fIDOutput := none, pc := .signalStudent } }
      | some off => some { s with main.fIDStudent := some off, main.pc := .readInput }
  | .readInput =>
      let r := read s.files .input s.main.fIDInput s.main.c
      let main := { s.main with c := r.2.1, fIDInput := r.2.2 }
      if r.1 < 1 then some { s with main := { main with pc := .closeStudent } }
      else if r.2.1 ≠ 10 then some { s with main := { main with pc := .writeStudent } }
      else some { s with main := { main with pc := .closeStudent } }
  | .writeStudent =>
      let w := write s.files .student s.main.fIDStudent [s.main.c]
      some { s with files := w.1, main.fIDStudent := w.2, main.pc := .readInput }
  | .closeStudent => some { s with main.fIDStudent := none, main.pc := .signalStudent }
  | .signalStudent => some { s with sem := signal s.sem .student, main.pc := .waitMain }
  | .waitMain =>
      if s.sem .main = 0 then none
      else some { s with sem := upd s.sem .main (s.sem .main - 1), main.pc := .openResult }
  | .openResult =>
      match openFile s.files .result with
      | none =>
          some { s with
            main := { s.main with fIDInput := none, fIDOutput := none, pc := .finished } }
      | some off => some { s with main.fIDResult := some off, main.pc := .readResult }
  | .readResult =>
      let r := read s.files .result s.main.fIDResult s.main.c
      let main := { s.main with c := r.2.1, fIDResult := r.2.2 }
      if r.1 < 1 then some { s with main := { main with pc := .writeEnd } }
      else some { s with main := { main with pc := .writeOutput } }
  | .writeOutput =>
      let w := write s.files .output s.main.fIDOutput [s.main.c]
      some { s with files := w.1, main.fIDOutput := w.2, main.pc := .writeSpace }
  | .writeSpace =>
      let w := write s.files .output s.main.fIDOutput [32]
      some { s with files := w.1, main.fIDOutput := w.2, main.pc := .readResult }
  | .writeEnd =>
      let w := write s.files .output s.main.fIDOutput [13, 10]
      some { s with files := w.1, main.fIDOutput := w.2, main.pc := .closeResult }
  | .closeResult => some { s with main.fIDResult := none, main.pc := .signalWatertap }
  | .signalWatertap => some { s with sem := signal s.sem .mainWatertap, main.pc := .closeAgain }
  | .closeAgain => some { s with main.fIDResult := none, main.pc := .head }
  | .closeInput => some { s with main.fIDInput := none, main.pc := .closeOutput }
  | .closeOutput => some { s with main.fIDOutput := none, main.pc := .finished }
  | .finished => none

namespace Student

/-- `while (pos < file_length)`. -/
def loop (p : Student) : Student :=
  if p.pos < p.fileLength then { p with pc := .readStudent } else { p with pc := .closeLast }

/-- `pos++`, and round again. -/
def next (p : Student) : Student := loop { p with pos := toInt32 (p.pos + 1) }

/-- The test of `flag_watertap`. -/
def testFlag (p : Student) (flagWatertap : Bool) : Student :=
  if flagWatertap then { p with pc := .closeWatertap } else p.next

/-- From the test for the end of the queue on. -/
def testEnd (p : Student) (flagWatertap : Bool) : Student :=
  if p.pos = toInt32 (p.fileLength - 1) then { p with pc := .writeStar }
  else p.testFlag flagWatertap

end Student

/-- A step of `student`. -/
def studentStep (s : State) : Option State :=
  match s.student.pc with
  | .unborn => none
  | .signalFirst => some { s with sem := signal s.sem .mainWatertap, student.pc := .createFirst }
  | .createFirst => some { s with files := createFile s.files .watertap, student.pc := .waitLine }
  | .waitLine =>
      if s.sem .student = 0 then none
      else
        some { s with
          sem := upd s.sem .student (s.sem .student - 1)
          student.pc := .createResult }
  | .createResult => some { s with files := createFile s.files .result, student.pc := .openStudent }
  | .openStudent =>
      match openFile s.files .student with
      | none => some { s with student.pc := .failSignal }
      | some off => some { s with student.fIDStudent := some off, student.pc := .seekEnd }
  | .seekEnd =>
      let r := seek s.files .student (-1) s.student.fIDStudent
      some { s with student.fileLength := r.1, student.fIDStudent := r.2, student.pc := .seekStart }
  | .seekStart =>
      let r := seek s.files .student 0 s.student.fIDStudent
      some { s with student.fIDStudent := r.2, student.pos := 0, student.pc := .openWatertap }
  | .openWatertap =>
      match openFile s.files .watertap with
      | none => some { s with student.pc := .failClose }
      | some off =>
          some { s with student := Student.loop { s.student with fIDWatertap := some off } }
  | .readStudent =>
      let r := read s.files .student s.student.fIDStudent s.student.c
      let student := { s.student with c := r.2.1, fIDStudent := r.2.2 }
      if r.2.1 ≠ 32 then some { s with student := { student with pc := .writeWatertap } }
      else some { s with student := student.testEnd true }
  | .writeWatertap =>
      let w := write s.files .watertap s.student.fIDWatertap [s.student.c]
      some { s with
        files := w.1
        student := Student.testEnd { s.student with fIDWatertap := w.2 } false }
  | .writeStar =>
      let w := write s.files .watertap s.student.fIDWatertap [42]
      some { s with
        files := w.1
        student := Student.testFlag { s.student with fIDWatertap := w.2 } true }
  | .closeWatertap => some { s with student.fIDWatertap := none, student.pc := .signalWatertap }
  | .signalWatertap => some { s with sem := signal s.sem .watertap, student.pc := .waitServed }
  | .waitServed =>
      if s.sem .student = 0 then none
      else
        some { s with
          sem := upd s.sem .student (s.sem .student - 1)
          student.pc := .createWatertap }
  | .createWatertap =>
      some { s with files := createFile s.files .watertap, student.pc := .reopenWatertap }
  | .reopenWatertap =>
      match openFile s.files .watertap with
      | none => some { s with student.pc := .failClose }
      | some off =>
          some { s with student := Student.next { s.student with fIDWatertap := some off } }
  | .closeLast => some { s with student.fIDWatertap := none, student.pc := .closeStudent }
  | .closeStudent => some { s with student.fIDStudent := none, student.pc := .signalMain }
  | .signalMain => some { s with sem := signal s.sem .main, student.pc := .waitLine }
  | .failClose => some { s with student.fIDStudent := none, student.pc := .failSignal }
  | .failSignal => some { s with sem := signal s.sem .main, student.pc := .finished }
  | .finished => none

namespace Watertap

/-- From the test of `is_end_student_queue` on. -/
def served (p : Watertap) : Watertap :=
  if p.isEndStudentQueue then { p with tap1 := 0, tap2 := 0, pc := .closeResult }
  else { p with pc := .signalNext }

/-- From the test of `volume` on. -/
def serve (p : Watertap) : Watertap :=
  if p.volume ≠ 0 then
    if p.tap1 ≤ p.tap2 then { p with tap1 := toInt32 (p.tap1 + p.volume), pc := .writeResult 49 }
    else { p with tap2 := toInt32 (p.tap2 + p.volume), pc := .writeResult 50 }
  else p.served

end Watertap

/-- A step of `watertap`. -/
def watertapStep (s : State) : Option State :=
  match s.watertap.pc with
  | .unborn => none
  | .waitMain =>
      if s.sem .mainWatertap = 0 then none
      else
        some { s with
          sem := upd s.sem .mainWatertap (s.sem .mainWatertap - 1)
          watertap.pc := .openResult }
  | .openResult =>
      match openFile s.files .result with
      | none => some { s with watertap.pc := .failResult }
      | some off => some { s with watertap.fIDResult := some off, watertap.pc := .waitVolume }
  | .waitVolume =>
      if s.sem .watertap = 0 then none
      else
        some { s with
          sem := upd s.sem .watertap (s.sem .watertap - 1)
          watertap.c := 0
          watertap.pc := .openWatertap }
  | .openWatertap =>
      match openFile s.files .watertap with
      | none => some { s with watertap.pc := .failClose }
      | some off =>
          some { s with
            watertap.fIDWatertap := some off
            watertap.volume := 0
            watertap.isEndStudentQueue := false
            watertap.pc := .readWatertap }
  | .readWatertap =>
      let r := read s.files .watertap s.watertap.fIDWatertap s.watertap.c
      let watertap := { s.watertap with c := r.2.1, fIDWatertap := r.2.2 }
      if r.1 = -2 then some { s with watertap := { watertap with pc := .closeWatertap } }
      else if r.2.1 ≠ 42 then
        some { s with
          watertap := { watertap with
            volume := toInt32 (s.watertap.volume * 10 + (signedChar r.2.1 - 48)) } }
      else
        some { s with
          watertap := { watertap with isEndStudentQueue := true, pc := .closeWatertap } }
  | .closeWatertap =>
      some { s with watertap := Watertap.serve { s.watertap with fIDWatertap := none } }
  | .writeResult digit =>
      let w := write s.files .result s.watertap.fIDResult [digit]
      some { s with files := w.1, watertap := Watertap.served { s.watertap with fIDResult := w.2 } }
  | .closeResult => some { s with watertap.fIDResult := none, watertap.pc := .signalLast }
  | .signalLast => some { s with sem := signal s.sem .student, watertap.pc := .waitMain }
  | .signalNext => some { s with sem := signal s.sem .student, watertap.pc := .waitVolume }
  | .failResult => some { s with sem := signal s.sem .student, watertap.pc := .finished }
  | .failClose => some { s with watertap.fIDResult := none, watertap.pc := .failSignal }
  | .failSignal => some { s with sem := signal s.sem .student, watertap.pc := .finished }
  | .finished => none

/-- A step of one of them. -/
def step (s : State) : Proc → Option State
  | .main => mainStep s
  | .student => studentStep s
  | .watertap => watertapStep s

/-! ## What it is for -/

/-- The character is a decimal digit. -/
def IsDigit (c : UInt8) : Prop := 48 ≤ c.toNat ∧ c.toNat ≤ 57

instance (c : UInt8) : Decidable (IsDigit c) := inferInstanceAs (Decidable (_ ∧ _))

/-- The number that a string of digits stands for. -/
def value (ds : List UInt8) : Nat := ds.foldl (fun n c => n * 10 + (c.toNat - 48)) 0

/-- What a line of volumes comes to. -/
def total : List (List UInt8) → Nat
  | [] => 0
  | v :: vs => value v + total vs

/-- Volumes with single spaces between them. -/
def lineText : List (List UInt8) → List UInt8
  | [] => []
  | v :: vs => v ++ vs.flatMap fun w => 32 :: w

/-- An `input.txt`: how many lines there are, and the volumes of each. -/
structure Input where
  count : List UInt8
  lines : List (List (List UInt8))
  count_digits : ∀ c ∈ count, IsDigit c
  count_value : value count = lines.length
  lines_ne : ∀ V ∈ lines, V ≠ []
  volume_digits : ∀ V ∈ lines, ∀ v ∈ V, ∀ c ∈ v, IsDigit c
  volume_pos : ∀ V ∈ lines, ∀ v ∈ V, 0 < value v
  sums : ∀ V ∈ lines, total V < 2147483648

/-- The file itself. -/
def Input.bytes (I : Input) : List UInt8 :=
  I.count ++ 10 :: I.lines.flatMap fun V => lineText V ++ [10]

/-- The greedy choice: which tap each volume is drawn from, `a` and `b` being what the two have
given so far. -/
def taps : Nat → Nat → List Nat → List UInt8
  | _, _, [] => []
  | a, b, v :: vs => if a ≤ b then 49 :: taps (a + v) b vs else 50 :: taps a (b + v) vs

/-- The line of `output.txt` for a line of volumes, before its newline. -/
def tapLine (V : List (List UInt8)) : List UInt8 :=
  ((taps 0 0 (V.map value)).flatMap fun d => [d, 32]) ++ [13]

/-- `student` and `watertap` do not both have `watertap.txt` open. -/
def Apart (s : State) : Prop := ¬ (s.student.fIDWatertap ≠ none ∧ s.watertap.fIDWatertap ≠ none)

/-- Each line that `watersystem_main` has written is the one for the same line of its input. What is
in `output.txt` before it creates that file is not its own. -/
def OutputRight (I : Input) (s : State) : Prop :=
  s.main.pc ≠ .createSemaphores → s.main.pc ≠ .createOutput →
    ∀ out, s.files .output = some out → ∀ (k : Nat) (l : List UInt8),
      (Base.linesOf 10 out)[k]? = some l → ∃ V, I.lines[k]? = some V ∧ l = tapLine V

/-- The runs over an input. `result` is what `result.txt` holds beforehand; the other files may be
there or not, and variables that are not set hold anything. -/
def sys (I : Input) (result : Option (List UInt8)) : Base.System State Proc where
  init := fun s =>
    s.files .input = some I.bytes ∧ s.files .result = result ∧ s.sem = (fun _ => 0) ∧
    s.main.pc = .createSemaphores ∧
    s.student.pc = .unborn ∧ s.student.fIDStudent = none ∧ s.student.fIDWatertap = none ∧
    s.watertap.pc = .unborn ∧ s.watertap.fIDWatertap = none ∧ s.watertap.fIDResult = none
  step := step

end WaterSystem

end Nachos
