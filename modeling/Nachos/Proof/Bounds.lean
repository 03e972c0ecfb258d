import Nachos.Proof.Writes

/-!
# The bounds of the file table

`fileTable` has ten slots, and four cases take an index into it from the user. Each has a
test of its own. `Seek` lets exactly the ids of slots through. `Read` and `Write` compare
with `>` where `>=` is meant, and with id 10 follow whatever is behind the table. `Close` only
goes on for the slots of files, and leaves the switch for every other id.

That a case stays inside the table is said without looking at its code: it does the same
whatever is behind the table, and leaves that as it is.
-/

namespace Nachos

open Base (Keeps Sim bind_ok bind_eq_of_ok bind_eq_of_error upd upd_self upd_ne upd_apply)

namespace Kernel

variable {η : Type}

/-- A table with `f` behind it. -/
def putBehind (f table : Nat → Option OpenFile) (i : Nat) : Option OpenFile :=
  if i < maxFileOpen then table i else f i

/-- The same kernel with `f` behind the table of `fs`. -/
def withBehind (fs : Uid) (f : Nat → Option OpenFile) (k : Kernel η) : Kernel η :=
  { k with fileTables := upd k.fileTables fs (putBehind f (k.fileTables fs)) }

/-- What becomes of an outcome when the kernel is changed. -/
def Outcome.map (g : Kernel η → Kernel η) : Outcome η → Outcome η
  | .returned k => .returned (g k)
  | .notReached => .notReached
  | .stopped why => .stopped why

theorem withBehind_slot (fs : Uid) (f : Nat → Option OpenFile) (k : Kernel η) {i : Nat}
    (hi : i < maxFileOpen) : (k.withBehind fs f).fileTables fs i = k.fileTables fs i := by
  show upd k.fileTables fs _ fs i = _
  rw [upd_self, putBehind, if_pos hi]

theorem withBehind_behind (fs : Uid) (f : Nat → Option OpenFile) (k : Kernel η) {i : Nat}
    (hi : maxFileOpen ≤ i) : (k.withBehind fs f).fileTables fs i = f i := by
  show upd k.fileTables fs _ fs i = _
  rw [upd_self, putBehind, if_neg (by omega)]

end Kernel

namespace Handler

variable {η : Type} (fs : Uid) (f : Nat → Option OpenFile)

/-- The second kernel is the first one with `f` behind the table. -/
def Behind (k k' : Kernel η) : Prop := k' = k.withBehind fs f

/-- A program that does the same whatever is behind the table. -/
abbrev Blind {α : Type} (x : Handler η α) : Prop := Sim (Behind fs f) Eq x x

variable {fs f}

/-! ## The primitives -/

theorem blind_readRegister (num : Nat) : Blind fs f (readRegister num : Handler η Int) := by
  rintro k _ rfl
  exact ⟨rfl, rfl⟩

theorem blind_writeRegister (num : Nat) (value : Int) :
    Blind fs f (writeRegister num value : Handler η Unit) := by
  rintro k _ rfl
  exact ⟨rfl, rfl⟩

theorem blind_printf (text : String) : Blind fs f (printf text : Handler η Unit) := by
  rintro k _ rfl
  exact ⟨rfl, rfl⟩

theorem blind_onHost {α : Type} (x : HostM η α) : Blind fs f (onHost x) := by
  rintro k _ rfl
  have hhost : (k.withBehind fs f).host = k.host := rfl
  unfold onHost
  rw [hhost]
  cases x k.host with
  | ok a h => exact ⟨rfl, rfl⟩
  | error e h => exact ⟨rfl, rfl⟩

theorem blind_keyboard {α : Type} (scan : Scan α) : Blind fs f (keyboard scan : Handler η α) := by
  rintro k _ rfl
  have hin : (k.withBehind fs f).input = k.input := rfl
  unfold keyboard
  rw [hin]
  cases scan k.input with
  | none => exact ⟨rfl, rfl⟩
  | some p => exact ⟨rfl, rfl⟩

theorem blind_newChar (size : Int) : Blind fs f (newChar size : Handler η Unit) :=
  .ite (.pure rfl) (.throw _)

theorem blind_fault {α : Type} (which : ExceptionType) :
    Blind fs f (fault which : Handler η α) := by
  refine Sim.bind_eq (blind_printf _) fun _ => ?_
  exact Sim.throw _

theorem blind_readMem (addr : Int) : Blind fs f (readMem addr : Handler η Int) := by
  rintro k _ rfl
  have hm : (k.withBehind fs f).machine = k.machine := rfl
  unfold readMem
  rw [hm]
  cases k.machine.readMem addr 1 with
  | none => exact ⟨rfl, rfl⟩
  | some r =>
      cases r with
      | error which => exact blind_fault (α := Int) which k _ rfl
      | ok p => exact ⟨rfl, rfl⟩

theorem blind_writeMem (addr value : Int) : Blind fs f (writeMem addr value : Handler η Unit) := by
  rintro k _ rfl
  have hm : (k.withBehind fs f).machine = k.machine := rfl
  unfold writeMem
  rw [hm]
  cases k.machine.writeMem addr 1 value with
  | none => exact ⟨rfl, rfl⟩
  | some r =>
      cases r with
      | error which => exact blind_fault (α := Unit) which k _ rfl
      | ok p => exact ⟨rfl, rfl⟩

theorem blind_user2SystemFrom : ∀ (n : Nat) (addr : Int),
    Blind fs f (user2SystemFrom n addr : Handler η CString) := by
  intro n
  induction n with
  | zero => intro _; exact Sim.pure rfl
  | succ n ih =>
      intro addr
      rw [user2SystemFrom]
      refine Sim.bind_eq (blind_readMem _) fun oneChar => Sim.ite (Sim.pure rfl) ?_
      exact Sim.bind_eq (ih _) fun _ => Sim.pure rfl

theorem blind_user2System (addr limit : Int) :
    Blind fs f (user2System addr limit : Handler η CString) :=
  Sim.bind_eq (blind_newChar _) fun _ => blind_user2SystemFrom _ _

theorem blind_system2UserFrom (addr : Int) (buffer : List UInt8) : ∀ (n i : Nat),
    Blind fs f (system2UserFrom addr buffer n i : Handler η Int) := by
  intro n
  induction n with
  | zero => intro _; exact Sim.pure rfl
  | succ n ih =>
      intro i
      rw [system2UserFrom]
      refine Sim.bind_eq (blind_writeMem _ _) fun _ => ?_
      split
      · exact Sim.pure rfl
      · exact ih (i + 1)

theorem blind_system2User (addr len : Int) (buffer : List UInt8) :
    Blind fs f (system2User addr len buffer : Handler η Int) := by
  unfold system2User
  refine Sim.ite (Sim.pure rfl) (Sim.ite (Sim.pure rfl) ?_)
  exact blind_system2UserFrom _ _ _ _

/-- A call into what the processes share. -/
theorem blind_resume {α σ ι : Type} {put : Kernel η → σ → List ι → Kernel η}
    {called : Kernel η → Option (Except Stop α × σ × List ι)}
    (hput : ∀ k s run, put (k.withBehind fs f) s run = (put k s run).withBehind fs f)
    (hcalled : ∀ k, called (k.withBehind fs f) = called k) :
    Blind fs f (fun k => resume (put k) k (called k) : Handler η α) := by
  rintro k _ rfl
  beta_reduce
  rw [hcalled]
  rcases called k with _ | ⟨r, s, run⟩
  · exact ⟨rfl, rfl⟩
  · cases r with
    | ok a => exact ⟨rfl, hput k s run⟩
    | error e => exact ⟨rfl, hput k s run⟩

theorem blind_callPTab (a : Act) : Blind fs f (callPTab a : Handler η Int) :=
  blind_resume (fun _ _ _ => rfl) fun _ => rfl

theorem blind_callDisplay (c : ConsoleCall) : Blind fs f (callDisplay c : Handler η Unit) :=
  blind_resume (fun _ _ _ => rfl) fun _ => rfl

theorem blind_increasePC : Blind fs f (increasePC : Handler η Unit) := by
  rintro k _ rfl
  exact ⟨rfl, rfl⟩

theorem blind_leaveWith (result : Int) : Blind fs f (leaveWith result : Handler η Exit) := by
  refine Sim.bind_eq (blind_writeRegister _ _) fun _ => ?_
  exact Sim.bind_eq blind_increasePC fun _ => Sim.pure rfl

theorem blind_leaveSaying (text : String) (result : Int) :
    Blind fs f (leaveSaying text result : Handler η Exit) :=
  Sim.bind_eq (blind_printf _) fun _ => blind_leaveWith _

/-! ## The slots of the table -/

theorem blind_fileAt {id : Int} (hid : id.toNat < maxFileOpen) :
    Blind fs f (fileAt fs id : Handler η (Option OpenFile)) := by
  rintro k _ rfl
  exact ⟨(Kernel.withBehind_slot fs f k hid).symm, rfl⟩

theorem blind_setFile {id : Int} (hid : id.toNat < maxFileOpen) (file : Option OpenFile) :
    Blind fs f (setFile fs id file : Handler η Unit) := by
  rintro k _ rfl
  refine ⟨rfl, ?_⟩
  -- the slot is inside the table, so it is not one of those behind it
  show Kernel.mk .. = Kernel.mk ..
  congr 1
  funext u i
  by_cases hu : u = fs
  · subst hu
    simp only [Kernel.withBehind, Kernel.putBehind, upd_self, upd_apply]
    by_cases hi : i = id.toNat
    · rw [if_pos hi, if_pos hi, if_pos (hi ▸ hid)]
    · rw [if_neg hi, if_neg hi]
  · simp only [Kernel.withBehind, upd_ne _ _ hu]

/-! ## The four cases -/

variable (H : HostOps η)

theorem blind_seekTo {id : Int} (hid : id.toNat < maxFileOpen) (file : OpenFile) (position : Int) :
    Blind fs f (seekTo H fs id file position) := by
  refine Sim.bind_eq (blind_onHost _) fun length => ?_
  refine Sim.ite (blind_leaveSaying _ _) ?_
  refine Sim.bind_eq (blind_onHost _) fun file => ?_
  exact Sim.bind_eq (blind_setFile hid _) fun _ => blind_leaveWith _

theorem blind_scSeek : Blind fs f (scSeek H fs) := by
  refine Sim.bind_eq (blind_readRegister 4) fun position => ?_
  refine Sim.bind_eq (blind_readRegister 5) fun id => ?_
  split
  · exact blind_leaveSaying _ _
  · rename_i hid
    have hslot : id.toNat < maxFileOpen := by omega
    refine Sim.bind_eq (blind_fileAt hslot) fun file => ?_
    cases file with
    | none => exact blind_leaveSaying _ _
    | some file =>
        refine Sim.ite (blind_leaveSaying _ _) (Sim.ite ?_ (blind_seekTo H hslot file position))
        exact Sim.bind_eq (blind_onHost _) fun length => blind_seekTo H hslot file length

theorem blind_scClose : Blind fs f (scClose H fs) := by
  refine Sim.bind_eq (blind_readRegister 4) fun id => ?_
  unfold closeSlot
  split
  · rename_i hid
    have hslot : id.toNat < maxFileOpen := by omega
    refine Sim.bind_eq (blind_fileAt hslot) fun file => ?_
    cases file with
    | none => exact blind_leaveWith _
    | some file =>
        refine Sim.bind_eq (blind_onHost _) fun _ => ?_
        exact Sim.bind_eq (blind_setFile hslot _) fun _ => blind_leaveWith _
  · refine Sim.bind_eq (blind_writeRegister _ _) fun _ => ?_
    exact Sim.bind_eq blind_increasePC fun _ => Sim.pure rfl

theorem blind_readStdin (virAddr charcount : Int) : Blind fs f (readStdin H virAddr charcount) := by
  refine Sim.bind_eq (blind_onHost _) fun ch => ?_
  refine Sim.bind_eq (blind_keyboard _) fun r => ?_
  exact Sim.bind_eq (blind_system2User _ _ _) fun _ => blind_leaveWith _

theorem blind_readFile {id : Int} (hid : id.toNat < maxFileOpen) (virAddr charcount : Int)
    (file : OpenFile) (cur : Int) : Blind fs f (readFile H fs virAddr charcount id file cur) := by
  refine Sim.bind_eq (blind_onHost _) fun r => ?_
  refine Sim.bind_eq (blind_setFile hid _) fun _ => ?_
  refine Sim.ite ?_ (blind_leaveWith _)
  refine Sim.bind_eq (blind_onHost _) fun p => ?_
  refine Sim.bind_eq (blind_setFile hid _) fun _ => ?_
  exact Sim.bind_eq (blind_system2User _ _ _) fun _ => blind_leaveWith _

/-- What is left of `Read` once the file is known. -/
def readFileCase (fs : Uid) (virAddr charcount id : Int) (file : OpenFile) : Handler η Exit := do
  let p ← onHost (file.getCurrentOffset H)
  setFile fs id (some p.2)
  newChar charcount
  if id = indexStdin then readStdin H virAddr charcount
  else readFile H fs virAddr charcount id p.2 p.1

theorem blind_readFileCase {id : Int} (hid : id.toNat < maxFileOpen) (virAddr charcount : Int)
    (file : OpenFile) : Blind fs f (readFileCase H fs virAddr charcount id file) := by
  refine Sim.bind_eq (blind_onHost _) fun p => ?_
  refine Sim.bind_eq (blind_setFile hid _) fun _ => ?_
  refine Sim.bind_eq (blind_newChar _) fun _ => ?_
  exact Sim.ite (blind_readStdin H _ _) (blind_readFile H hid _ _ _ _)

theorem blind_scJoin : Blind fs f (scJoin : Handler η Exit) := by
  refine Sim.bind_eq (blind_readRegister 4) fun pID => ?_
  exact Sim.bind_eq (blind_callPTab _) fun _ => blind_leaveWith _

theorem blind_writeFileCase {id : Int} (hid : id.toNat < maxFileOpen) (virAddr charcount : Int)
    (file : OpenFile) : Blind fs f (writeFileCase H fs virAddr charcount id file) := by
  refine Sim.bind_eq (blind_onHost _) fun p => ?_
  refine Sim.bind_eq (blind_setFile hid _) fun _ => ?_
  refine Sim.bind_eq (blind_user2System _ _) fun buffer => ?_
  -- what does not return runs on into `Join`
  refine Sim.ite ?_ ?_
  · exact Sim.bind_eq (blind_callDisplay _) fun _ => blind_leaveWith _
  · refine Sim.ite ?_ blind_scJoin
    refine Sim.bind_eq (blind_onHost _) fun w => ?_
    refine Sim.bind_eq (blind_setFile hid _) fun _ => ?_
    refine Sim.ite ?_ ?_
    · refine Sim.bind_eq (blind_onHost _) fun p => ?_
      exact Sim.bind_eq (blind_setFile hid _) fun _ => blind_leaveWith _
    · exact Sim.bind_eq (blind_writeRegister _ _) fun _ => blind_scJoin

/-- The test that `Read` and `Write` share. -/
def testId (fs : Uid) (id : Int) (found : OpenFile → Handler η Exit) : Handler η Exit := do
  if id < 0 ∨ id > maxFileOpen then leaveSaying "\nInvalid file id." (-1)
  else
    match ← fileAt fs id with
    | none => leaveSaying "\nFile does not exist in file table" (-1)
    | some file => found file

/-- `Read` once it has a file. -/
def readFound (fs : Uid) (virAddr charcount id : Int) (file : OpenFile) : Handler η Exit :=
  if id = indexStdout then leaveSaying "\nCan't read file stdout." (-1)
  else readFileCase H fs virAddr charcount id file

/-- `Write` once it has a file. -/
def writeFound (fs : Uid) (virAddr charcount id : Int) (file : OpenFile) : Handler η Exit :=
  if file.type = readonlyType ∨ id = indexStdin then
    leaveSaying "\nCan't write in file stdin or file only read." (-1)
  else writeFileCase H fs virAddr charcount id file

theorem scRead_eq_testId (fs : Uid) (k : Kernel η) :
    scRead H fs k =
      testId fs (k.machine.readRegister 6).toInt
        (readFound H fs (k.machine.readRegister 4).toInt (k.machine.readRegister 5).toInt
          (k.machine.readRegister 6).toInt) k := rfl

theorem scWrite_eq_testId (fs : Uid) (k : Kernel η) :
    scWrite H fs k =
      testId fs (k.machine.readRegister 6).toInt
        (writeFound H fs (k.machine.readRegister 4).toInt (k.machine.readRegister 5).toInt
          (k.machine.readRegister 6).toInt) k := rfl

/-- The id just behind the table is let through; any other one that is, is the id of a slot. -/
theorem blind_testId {id : Int} (hid : id ≠ maxFileOpen) {found : OpenFile → Handler η Exit}
    (hfound : id.toNat < maxFileOpen → ∀ file, Blind fs f (found file)) :
    Blind fs f (testId fs id found) := by
  unfold testId
  split
  · exact blind_leaveSaying _ _
  · have hslot : id.toNat < maxFileOpen := by omega
    refine Sim.bind_eq (blind_fileAt hslot) fun file => ?_
    cases file with
    | none => exact blind_leaveSaying _ _
    | some file => exact hfound hslot file

theorem testId_outside {id : Int} (hid : id < 0 ∨ id > maxFileOpen) (fs : Uid)
    (found : OpenFile → Handler η Exit) (k : Kernel η) :
    testId fs id found k = leaveSaying "\nInvalid file id." (-1) k := by
  unfold testId
  rw [if_pos hid]

theorem testId_none {id : Int} (hid : ¬ (id < 0 ∨ id > maxFileOpen)) {fs : Uid} {k : Kernel η}
    (hk : k.fileTables fs id.toNat = none) (found : OpenFile → Handler η Exit) :
    testId fs id found k = leaveSaying "\nFile does not exist in file table" (-1) k := by
  unfold testId
  have hat : fileAt fs id k = .ok none k := by rw [← hk]; rfl
  rw [if_neg hid, bind_eq_of_ok hat]

theorem testId_some {id : Int} (hid : ¬ (id < 0 ∨ id > maxFileOpen)) {fs : Uid} {k : Kernel η}
    {file : OpenFile} (hk : k.fileTables fs id.toNat = some file)
    (found : OpenFile → Handler η Exit) : testId fs id found k = found file k := by
  unfold testId
  have hat : fileAt fs id k = .ok (some file) k := by rw [← hk]; rfl
  rw [if_neg hid, bind_eq_of_ok hat]

/-- Reading a file prints nothing. -/
theorem keeps_printed_readFileCase {id : Int} (hid : id ≠ indexStdin) (fs : Uid)
    (virAddr charcount : Int) (file : OpenFile) :
    Keeps Kernel.printed (readFileCase H fs virAddr charcount id file) := by
  have hhost : ∀ {α : Type} (x : HostM η α), Keeps Kernel.printed (onHost x) := by
    intro α x k a k' h
    rw [onHost_rest h]
  have hset : ∀ file, Keeps Kernel.printed (setFile fs id file : Handler η Unit) :=
    fun file => .modify fun _ => rfl
  have hleave : ∀ n, Keeps Kernel.printed (leaveWith n : Handler η Exit) :=
    fun n => .bind (.modify fun _ => rfl) fun _ => .bind (.modify fun _ => rfl) fun _ => .pure _
  refine .bind (hhost _) fun p => .bind (hset _) fun _ => .bind (keeps_newChar _) fun _ => ?_
  rw [if_neg hid]
  refine .bind (hhost _) fun r => .bind (hset _) fun _ => .ite ?_ (hleave _)
  refine .bind (hhost _) fun p => .bind (hset _) fun _ => ?_
  exact .bind (keeps_system2User (fun _ _ _ => rfl) _ _ _) fun _ => hleave _

end Handler

/-- The system calls that take the id of a file. -/
inductive IdCall where
  | read
  | write
  | seek
  | close
  deriving DecidableEq, Repr

namespace IdCall

/-- Its case. -/
def syscall : IdCall → Syscall
  | .read => .read
  | .write => .write
  | .seek => .seek
  | .close => .close

/-- The register with the id. -/
def reg : IdCall → Nat
  | .read => 6
  | .write => 6
  | .seek => 5
  | .close => 4

/-- The ids that the test of a case is right about. -/
def Tests (id : Int) : IdCall → Prop
  | .read => id ≠ maxFileOpen
  | .write => id ≠ maxFileOpen
  | .seek => True
  | .close => 0 ≤ id ∧ id < maxFileOpen

end IdCall

namespace Kernel

variable {η : Type} {H : HostOps η} {fs : Uid} {k : Kernel η} {c : IdCall}

/-- What a call owes the file table of `fs`, with `id` the id it is given. -/
structure Bounded (H : HostOps η) (fs : Uid) (id : Int) (k : Kernel η) : Prop where
  /-- It does the same whatever is behind the table, and leaves that as it is. -/
  inside : ∀ f, exceptionHandler H .syscallException (k.withBehind fs f) =
    (exceptionHandler H .syscallException k).map (withBehind fs f)
  /-- A slot with `NULL` in it is not followed: nothing is asked of the host, no file changes, and
  the kernel goes on to one of its exits. -/
  nonNull : 0 ≤ id → id < maxFileOpen → k.fileTables fs id.toNat = none →
    (∀ why, exceptionHandler H .syscallException k ≠ .stopped why) ∧
    ∀ k', exceptionHandler H .syscallException k = .returned k' →
      k'.host = k.host ∧ k'.fileTables = k.fileTables
  /-- Any other id is answered with `-1`. -/
  outside : ¬ (0 ≤ id ∧ id < maxFileOpen) →
    ∃ k', exceptionHandler H .syscallException k = .returned k' ∧
      (k'.machine.readRegister 2).toInt = -1

/-- The kernel after a call that only says something. -/
def said (k : Kernel η) (text : String) (result : Int) : Kernel η :=
  match Handler.leaveSaying text result k with
  | .ok _ k' => k'
  | .error _ k' => k'

theorem leaveSaying_eq (k : Kernel η) (text : String) (result : Int) :
    Handler.leaveSaying text result k = .ok .ret (k.said text result) := rfl

theorem said_printed (k : Kernel η) (text : String) (result : Int) :
    (k.said text result).printed = k.printed ++ [text] := rfl

theorem said_result (k : Kernel η) (text : String) :
    ((k.said text (-1)).machine.readRegister 2).toInt = -1 := by
  rfl

theorem returned_of_body (hfs : k.fileSystem = some fs) (hc : k.syscall = some c.syscall)
    {k' : Kernel η} (h : c.syscall.body H fs k = .ok .ret k') :
    exceptionHandler H .syscallException k = .returned k' :=
  (returned_iff H k k').mpr ((dispatch_eq H hfs hc).trans h)

/-- Two runs that go the same way end the same way. -/
theorem handler_behind {f : Nat → Option OpenFile} (hfs : k.fileSystem = some fs)
    (hc : k.syscall = some c.syscall) {x : Handler η Exit} (hx : Handler.Blind fs f x)
    (hk : c.syscall.body H fs k = x k)
    (hk' : c.syscall.body H fs (k.withBehind fs f) = x (k.withBehind fs f)) :
    exceptionHandler H .syscallException (k.withBehind fs f) =
      (exceptionHandler H .syscallException k).map (withBehind fs f) := by
  have hfs' : (k.withBehind fs f).fileSystem = some fs := hfs
  have hc' : (k.withBehind fs f).syscall = some c.syscall := hc
  unfold exceptionHandler
  rw [dispatch_eq H hfs hc, dispatch_eq H hfs' hc', hk, hk']
  rcases hx.cases (show Handler.Behind fs f k _ from rfl) with
    ⟨e, s, _, hs, ht, _⟩ | ⟨a, _, s, _, hs, ht, rfl, hR⟩
  · rw [hs, ht]
    rfl
  · rw [hs, ht, hR]
    cases a with
    | ret => rfl
    | brk => rfl

/-- The answer to a call that finds no file. -/
theorem said_bounded (hfs : k.fileSystem = some fs) (hc : k.syscall = some c.syscall)
    {text : String} (h : c.syscall.body H fs k = Handler.leaveSaying text (-1) k) :
    exceptionHandler H .syscallException k = .returned (k.said text (-1)) :=
  returned_of_body hfs hc (h.trans (leaveSaying_eq k text (-1)))

theorem nonNull_of_said {text : String}
    (h : exceptionHandler H .syscallException k = .returned (k.said text (-1))) :
    (∀ why, exceptionHandler H .syscallException k ≠ .stopped why) ∧
    ∀ k', exceptionHandler H .syscallException k = .returned k' →
      k'.host = k.host ∧ k'.fileTables = k.fileTables := by
  rw [h]
  constructor
  · intro why he
    cases he
  · intro k' hk'
    cases hk'
    exact ⟨rfl, rfl⟩

/-! ## `Read` and `Write` -/

section Tested

variable {id : Int} {found : OpenFile → Handler η Exit} (hfs : k.fileSystem = some fs)
  (hc : k.syscall = some c.syscall)
  (hbody : ∀ f, c.syscall.body H fs (k.withBehind fs f) =
    Handler.testId fs id found (k.withBehind fs f))
include hfs hc hbody

theorem testId_bounded (hk : c.syscall.body H fs k = Handler.testId fs id found k)
    (hfound : ∀ f, id.toNat < maxFileOpen → ∀ file, Handler.Blind fs f (found file))
    (hid : id ≠ maxFileOpen) : Bounded H fs id k where
  inside := fun f => handler_behind hfs hc (Handler.blind_testId hid (hfound f)) hk (hbody f)
  nonNull := by
    intro h0 h10 hnull
    have hsaid := Handler.testId_none (by omega) hnull found
    exact nonNull_of_said (said_bounded hfs hc (hk.trans hsaid))
  outside := by
    intro hout
    refine ⟨_, said_bounded hfs hc (hk.trans (Handler.testId_outside ?_ fs found k)),
      said_result k _⟩
    omega

/-- With the id just behind the table the answer depends on what is there. -/
theorem testId_not_bounded (hid : id = maxFileOpen) (file : OpenFile)
    (hfound : ∀ k' e k'', k'.printed = k.printed → found file k' = .ok e k'' →
      k''.printed ≠ k.printed ++ ["\nFile does not exist in file table"]) :
    ¬ Bounded H fs id k := by
  intro h
  have hslot : maxFileOpen ≤ id.toNat := by omega
  have hpast : ¬ (id < 0 ∨ id > maxFileOpen) := by omega
  have hfs' : ∀ f, (k.withBehind fs f).fileSystem = some fs := fun _ => hfs
  have hc' : ∀ f, (k.withBehind fs f).syscall = some c.syscall := fun _ => hc
  -- with nothing there, the caller is told that there is no file
  have hnone : exceptionHandler H .syscallException (k.withBehind fs fun _ => none) =
      .returned ((k.withBehind fs fun _ => none).said
        "\nFile does not exist in file table" (-1)) := by
    refine said_bounded (hfs' _) (hc' _) ((hbody _).trans (Handler.testId_none hpast ?_ found))
    exact withBehind_behind fs _ k hslot
  have hsome := h.inside fun _ => some file
  have hnone' := h.inside fun _ => none
  rw [hnone] at hnone'
  -- so that is what happens whatever is there
  obtain ⟨k₀, hk₀⟩ : ∃ k₀, exceptionHandler H .syscallException k = .returned k₀ := by
    cases hr : exceptionHandler H .syscallException k with
    | returned k₀ => exact ⟨k₀, rfl⟩
    | notReached => rw [hr] at hnone'; cases hnone'
    | stopped why => rw [hr] at hnone'; cases hnone'
  rw [hk₀] at hnone' hsome
  injection hnone' with hnone'
  have hprinted : k₀.printed = k.printed ++ ["\nFile does not exist in file table"] :=
    (congrArg printed hnone').symm
  have hdispatch := (returned_iff H _ _).mp hsome
  rw [dispatch_eq H (hfs' _) (hc' _), hbody,
    Handler.testId_some hpast (withBehind_behind fs _ k hslot)] at hdispatch
  exact hfound (k.withBehind fs fun _ => some file) .ret _ rfl hdispatch hprinted

end Tested

theorem read_bounded_iff (hfs : k.fileSystem = some fs) (hc : k.syscall = some .read) :
    Bounded H fs (k.machine.readRegister 6).toInt k ↔
      (k.machine.readRegister 6).toInt ≠ maxFileOpen := by
  have hbody : ∀ f, Syscall.body H fs .read (k.withBehind fs f) =
      Handler.testId fs (k.machine.readRegister 6).toInt
        (Handler.readFound H fs (k.machine.readRegister 4).toInt (k.machine.readRegister 5).toInt
          (k.machine.readRegister 6).toInt) (k.withBehind fs f) :=
    fun f => Handler.scRead_eq_testId H fs (k.withBehind fs f)
  constructor
  · intro h hid
    have hstdout : (k.machine.readRegister 6).toInt ≠ indexStdout := by rw [hid]; decide
    have hstdin : (k.machine.readRegister 6).toInt ≠ indexStdin := by rw [hid]; decide
    refine testId_not_bounded (c := .read) hfs hc hbody hid ⟨0, 0, readwriteType⟩ ?_ h
    intro k' e k'' hk' he
    unfold Handler.readFound at he
    rw [if_neg hstdout] at he
    rw [Handler.keeps_printed_readFileCase H hstdin fs _ _ _ _ _ _ he, hk']
    simp
  · refine testId_bounded (c := .read) hfs hc hbody (Handler.scRead_eq_testId H fs k) ?_
    intro f hslot file
    exact Sim.ite (Handler.blind_leaveSaying _ _) (Handler.blind_readFileCase H hslot _ _ _)

theorem write_bounded_iff (hfs : k.fileSystem = some fs) (hc : k.syscall = some .write) :
    Bounded H fs (k.machine.readRegister 6).toInt k ↔
      (k.machine.readRegister 6).toInt ≠ maxFileOpen := by
  have hbody : ∀ f, Syscall.body H fs .write (k.withBehind fs f) =
      Handler.testId fs (k.machine.readRegister 6).toInt
        (Handler.writeFound H fs (k.machine.readRegister 4).toInt (k.machine.readRegister 5).toInt
          (k.machine.readRegister 6).toInt) (k.withBehind fs f) :=
    fun f => Handler.scWrite_eq_testId H fs (k.withBehind fs f)
  constructor
  · intro h hid
    refine testId_not_bounded (c := .write) hfs hc hbody hid ⟨0, 0, readonlyType⟩ ?_ h
    intro k' e k'' hk' he
    unfold Handler.writeFound at he
    rw [if_pos (Or.inl rfl), leaveSaying_eq] at he
    injection he with _ he
    rw [← he, said_printed, hk']
    intro hp
    exact absurd (List.append_cancel_left hp) (by decide)
  · refine testId_bounded (c := .write) hfs hc hbody (Handler.scWrite_eq_testId H fs k) ?_
    intro f hslot file
    exact Sim.ite (Handler.blind_leaveSaying _ _) (Handler.blind_writeFileCase H hslot _ _ _)

/-! ## `Seek` and `Close` -/

theorem seek_bounded (hfs : k.fileSystem = some fs) (hc : k.syscall = some .seek) :
    Bounded H fs (k.machine.readRegister 5).toInt k where
  inside := fun f => handler_behind (c := .seek) hfs hc (Handler.blind_scSeek H) rfl rfl
  nonNull := by
    intro h0 h10 hnull
    have hat : Handler.fileAt fs (k.machine.readRegister 5).toInt k = .ok none k := by
      rw [← hnull]
      rfl
    have hsaid : Handler.scSeek H fs k =
        Handler.leaveSaying "\nLoi di chuyen con tro vi file nay khong ton tai." (-1) k := by
      have hread : ∀ num, Handler.readRegister num k = .ok (k.machine.readRegister num).toInt k :=
        fun _ => rfl
      unfold Handler.scSeek
      rw [bind_eq_of_ok (hread 4), bind_eq_of_ok (hread 5), if_neg (by omega), bind_eq_of_ok hat]
    exact nonNull_of_said (said_bounded (c := .seek) hfs hc hsaid)
  outside := by
    intro hout
    have hsaid : Handler.scSeek H fs k =
        Handler.leaveSaying "\nLoi di chuyen con tro vi id nam ngoai bang mo ta file." (-1) k := by
      have hread : ∀ num, Handler.readRegister num k = .ok (k.machine.readRegister num).toInt k :=
        fun _ => rfl
      unfold Handler.scSeek
      rw [bind_eq_of_ok (hread 4), bind_eq_of_ok (hread 5), if_pos (by omega)]
    exact ⟨_, said_bounded (c := .seek) hfs hc hsaid, said_result k _⟩

/-- `Close` of an id without a slot of its own leaves the switch. -/
theorem close_notReached (hfs : k.fileSystem = some fs) (hc : k.syscall = some .close)
    (hid : ¬ (2 ≤ (k.machine.readRegister 4).toInt
      ∧ (k.machine.readRegister 4).toInt ≤ (maxFileOpen : Int) - 1)) :
    exceptionHandler H .syscallException k = .notReached := by
  obtain ⟨k', hk'⟩ := (Handler.scClose_brk H fs k).mpr hid
  exact (notReached_iff H k).mpr ⟨k', (dispatch_eq H hfs hc).trans hk'⟩

theorem close_bounded_iff (hfs : k.fileSystem = some fs) (hc : k.syscall = some .close) :
    Bounded H fs (k.machine.readRegister 4).toInt k ↔
      0 ≤ (k.machine.readRegister 4).toInt ∧ (k.machine.readRegister 4).toInt < maxFileOpen := by
  constructor
  · intro h
    by_contra hout
    obtain ⟨k', hk', _⟩ := h.outside hout
    rw [close_notReached hfs hc (by omega)] at hk'
    cases hk'
  · intro hin
    refine ⟨fun f => handler_behind (c := .close) hfs hc (Handler.blind_scClose H) rfl rfl, ?_,
      fun hout => absurd hin hout⟩
    intro _ _ hnull
    by_cases hid : 2 ≤ (k.machine.readRegister 4).toInt
        ∧ (k.machine.readRegister 4).toInt ≤ (maxFileOpen : Int) - 1
    · have hat : Handler.fileAt fs (k.machine.readRegister 4).toInt k = .ok none k := by
        rw [← hnull]
        rfl
      have hbody : Handler.scClose H fs k = Handler.leaveWith (-1) k := by
        show Handler.closeSlot H fs (k.machine.readRegister 4).toInt k = _
        unfold Handler.closeSlot
        rw [if_pos hid, bind_eq_of_ok hat]
      have hret := returned_of_body (c := .close) hfs hc hbody
      rw [hret]
      refine ⟨fun why he => (by cases he), fun k' hk' => ?_⟩
      cases hk'
      exact ⟨rfl, rfl⟩
    · rw [close_notReached hfs hc hid]
      exact ⟨fun why he => (by cases he), fun k' hk' => (by cases hk')⟩

/-- **A call stays inside the file table, follows no `NULL` and refuses every other id exactly when
its test is right about its id.** `Seek` always does. `Read` and `Write` take the id just behind
the table for that of a slot. `Close` of an id without a slot does not come back. -/
theorem descriptor_bounds_iff (H : HostOps η) (c : IdCall) {k : Kernel η} {fs : Uid}
    (hfs : k.fileSystem = some fs) (hc : k.syscall = some c.syscall) :
    Bounded H fs (k.machine.readRegister c.reg).toInt k ↔
      c.Tests (k.machine.readRegister c.reg).toInt := by
  cases c with
  | read => exact read_bounded_iff hfs hc
  | write => exact write_bounded_iff hfs hc
  | seek => exact iff_of_true (seek_bounded hfs hc) trivial
  | close => exact close_bounded_iff hfs hc

/-- The initial process calls `Close(5)`, with nothing in slot 5. -/
theorem descriptor_bounds_unused :
    (closing 5#32).fileSystem = some 0 ∧ (closing 5#32).syscall = some .close ∧
      Bounded bareHost 0 5 (closing 5#32) := by
  refine ⟨by decide, by decide, ?_⟩
  have hid : 0 ≤ (5#32).toInt ∧ (5#32).toInt < maxFileOpen := by decide
  exact (descriptor_bounds_iff bareHost .close (k := closing 5#32) (by decide) (by decide)).mpr hid

/-- The initial process calls `Read(0, 0, id)`. -/
def readingFrom (id : BitVec 32) : Kernel Unit :=
  { closing 0#32 with
    machine :=
      { (closing 0#32).machine with
        registers := fun r => if r = 2 then 7#32 else if r = 6 then id else 0#32 } }

/-- `Read` with id 10 looks behind the table. -/
theorem descriptor_bounds_ten :
    ¬ ∀ (η : Type) (H : HostOps η) (c : IdCall) (k : Kernel η) (fs : Uid), k.fileSystem = some fs →
      k.syscall = some c.syscall → Bounded H fs (k.machine.readRegister c.reg).toInt k := by
  intro h
  have hb := h Unit bareHost .read (readingFrom 10#32) 0 (by decide) (by decide)
  exact absurd rfl ((read_bounded_iff (k := readingFrom 10#32) (by decide) (by decide)).mp hb)

end Kernel

end Nachos
