import Nachos.Proof.Names
import Nachos.Proof.Opening
import Nachos.Proof.Output

/-!
# System calls that take a string

Seven cases fetch a string with `User2System`, each with a limit of its own, and none of them
notices when the string goes on behind it: the kernel then acts on the part before the limit.
The copies that are made of it go to arrays of fixed size. A name for `Exec` of 32 or
33 characters is complete, and does not fit into `FileName`. `PrintString` writes a byte more than
the string has.

What a call should do with its string does not depend on the state of the host or of the
tables, so it is asked for in all of them.
-/

namespace Nachos

open Base (bind_ok bind_eq_of_ok upd upd_self upd_ne System)

/-- The system calls that take a string. -/
inductive StringCall where
  | createFile
  | open_
  | exec
  | createSemaphore
  | wait
  | signal
  | printString
  deriving DecidableEq, Repr

namespace StringCall

/-- Its case. -/
def syscall : StringCall → Syscall
  | .createFile => .createFile
  | .open_ => .open_
  | .exec => .exec
  | .createSemaphore => .createSemaphore
  | .wait => .wait
  | .signal => .signal
  | .printString => .printString

/-- How many characters the case reads. -/
def limit : StringCall → Nat
  | .createFile => 32
  | .open_ => 32
  | .exec => 33
  | .createSemaphore => 33
  | .wait => 33
  | .signal => 33
  | .printString => 255

open Handler in
/-- What the case does with its string. `arg` is what it has in register 5. -/
def act {η : Type} (H : HostOps η) (fs : Uid) (arg : Int) : StringCall → CString → Handler η Exit
  | .createFile, name => do
      if (← onHost (FileSystem.create H name)) = false then
        leaveSaying ("\n Error create file '" ++ text name ++ "'") (-1)
      else leaveWith 0
  | .open_, name => do
      let k ← get
      openSlot H fs name arg (FileSystem.findFreeSlot (k.fileTables fs))
  | .exec, name => do
      match ← onHost (FileSystem.open_ H name) with
      | none => leaveSaying "\nExec:: Can't open this file." (-1)
      | some file =>
          let _ ← onHost (closeFile H file.file)
          let id ← execUpdate name
          leaveWith id
  | .createSemaphore, name => do
      let res ← callSTab (.create name arg)
      if res = -1 then leaveSaying "\n Khong the khoi tao semaphore" (-1) else leaveWith res
  | .wait, name => do
      let res ← callSTab (.wait name)
      if res = -1 then leaveSaying "\n Khong ton tai ten semaphore nay!" (-1) else leaveWith res
  | .signal, name => do
      let res ← callSTab (.signal name)
      if res = -1 then leaveSaying "\n Khong ton tai ten semaphore nay!" (-1) else leaveWith res
  | .printString, buffer => do
      callDisplay (.printString buffer)
      leave

variable {η : Type} {H : HostOps η} {fs : Uid}

/-- Each case fetches its string and acts on it. -/
theorem body_eq (c : StringCall) (k : Kernel η) :
    c.syscall.body H fs k = (do
      let name ← Handler.user2System (k.machine.readRegister 4).toInt c.limit
      c.act H fs (k.machine.readRegister 5).toInt name) k := by
  cases c <;> rfl

/-- **What the kernel acts on** is what the limit leaves of the string. -/
theorem body_string (H : HostOps η) (fs : Uid) (c : StringCall) {k : Kernel η} {s : List UInt8}
    (hs : HoldsString k.machine (k.machine.readRegister 4).toInt s) :
    ∃ k₁, Handler.Looked k k₁ ∧ c.syscall.body H fs k =
      c.act H fs (k.machine.readRegister 5).toInt (s.take c.limit) k₁ := by
  have hlimit : (c.limit : Int) < intMax := by cases c <;> decide
  obtain ⟨k₁, hk₁, hlook⟩ := Handler.user2System_string hs (by omega) hlimit
  refine ⟨k₁, hlook, ?_⟩
  rw [body_eq, bind_eq_of_ok hk₁, Int.toNat_natCast]

/-- A name is of no use to `Open` with another type than those of files. -/
theorem act_open_other {arg : Int} (h : arg ≠ readonlyType ∧ arg ≠ readwriteType) (x y : CString) :
    (StringCall.open_).act H fs arg x = (StringCall.open_).act H fs arg y := by
  have hslot : ∀ slot, Handler.openSlot H fs x arg slot = Handler.openSlot H fs y arg slot := by
    intro slot
    unfold Handler.openSlot
    by_cases hi : arg = inputType
    · rw [if_pos hi, if_pos hi]
    · by_cases ho : arg = outputType
      · rw [if_neg hi, if_pos ho, if_neg hi, if_pos ho]
      · have hread : ¬ (arg = inputType ∨ arg = readonlyType) := not_or.mpr ⟨hi, h.1⟩
        have hopen : FileSystem.openType H x arg = FileSystem.openType H y arg := by
          unfold FileSystem.openType
          simp only [if_neg ho, if_neg hread, if_neg h.2]
        rw [hopen]
  show (get >>= fun k => Handler.openSlot H fs x arg (FileSystem.findFreeSlot (k.fileTables fs))) =
    (get >>= fun k => Handler.openSlot H fs y arg (FileSystem.findFreeSlot (k.fileTables fs)))
  simp only [hslot]

end StringCall

/-! ## What a call owes its string -/

namespace Kernel

variable {η : Type}

/-- The call comes back with an error, and nothing has happened. -/
def Refused (H : HostOps η) (k : Kernel η) : Prop :=
  ∃ k', exceptionHandler H .syscallException k = .returned k' ∧
    (k'.machine.readRegister 2).toInt = -1 ∧
    k' = { k with machine := k'.machine, printed := k'.printed } ∧
    k'.machine.mainMemory = k.machine.mainMemory

/-- **The kernel acts on exactly `s`.** That it has looked at the pages of the string does not
matter. For `PrintString` it is the display that counts. -/
def ActsOn (H : HostOps η) (fs : Uid) (c : StringCall) (s : List UInt8) (k : Kernel η) : Prop :=
  if c = .printString then
    k.display.pc k.currentThread = .idle →
      ∀ k', exceptionHandler H .syscallException k = .returned k' → Shows k k' s
  else
    ∃ k₁, Handler.Looked k k₁ ∧ dispatch H .syscallException k =
      c.act H fs (k.machine.readRegister 5).toInt s k₁

end Kernel

/-- The copies of a name that are made in the kernel have room for it and its terminator. -/
def StringCall.Fits (name : CString) : StringCall → Prop
  | .exec => ∀ (p : PState) (u : Uid) (callerName : String) (opens : Bool) (copy : String),
      p.setFileName u (some (Handler.text name)) callerName opens = some copy →
        copy.length + 1 ≤ PState.fileNameSize
  | .createSemaphore => ∀ (t : STable) (init : Int) (i : Nat) (q : Sem),
      (t.create name init).2.semTab i = some q → t.semTab i ≠ some q →
        q.name.length + 1 ≤ semNameSize
  | _ => True

/-- **A string is not altered on its way**: whatever the state of the kernel, the call that `m`
makes acts on exactly `s` or is refused, and the copies that are made have room. -/
structure Machine.Unaltered (m : Machine) (c : StringCall) (s : List UInt8) : Prop where
  acts : ∀ (η : Type) (H : HostOps η) (fs : Uid) (k : Kernel η), k.machine = m →
    k.fileSystem = some fs → k.ActsOn H fs c s ∨ k.Refused H
  fits : ∀ name, m.stringAt c.limit (m.readRegister 4).toInt = some name → c.Fits name

/-- The strings that a call is made for. -/
def StringCall.Suits (arg : Int) (s : List UInt8) : StringCall → Prop
  | .createFile => s.length ≤ 32
  | .open_ => s.length ≤ 32 ∨ (arg ≠ readonlyType ∧ arg ≠ readwriteType)
  | .exec => s.length ≤ 31
  | .createSemaphore => s.length ≤ 33
  | .wait => s.length ≤ 33
  | .signal => s.length ≤ 33
  | .printString => False

/-! ## Copies -/

theorem STable.create_semTab {t : STable} {name : CString} {init : Int} {i : Nat} {q : Sem}
    (h : (t.create name init).2.semTab i = some q) : t.semTab i = some q ∨ q.name = name := by
  unfold STable.create at h
  split at h
  · exact .inl h
  · split at h
    · exact .inl h
    · have h' : upd t.semTab t.bm.findAndSet.1.toNat (some ⟨name, Semaphore.new init⟩) i = some q :=
        h
      rw [Base.upd_apply] at h'
      split at h'
      · exact .inr (by rw [← Option.some.inj h'])
      · exact .inl h'

theorem length_text (name : CString) : (Handler.text name).length = name.length := by
  unfold Handler.text
  simp

/-- A name that comes back is the one that went in. -/
theorem PState.setFileName_eq {p : PState} {u : Uid} {f : Option String} {callerName : String}
    {opens : Bool} {copy : String} (h : p.setFileName u f callerName opens = some copy) :
    f = some copy := by
  unfold PState.setFileName at h
  split at h
  · exact h
  · exact absurd h (by simp)

/-- The first `Exec` of the initial process makes a PCB. -/
theorem PState.setFileName_boot {name : String} (h : name ≠ "") :
    (PState.boot PState.stackOnly).setFileName 0 (some name) "" true = some name := by
  have hfree : (PState.boot PState.stackOnly).bm.findAndSet.1 ≠ -1 := by decide
  unfold PState.setFileName PState.execUpdate
  dsimp only
  rw [if_neg h, if_neg (by simp), if_neg hfree]
  unfold PState.create
  dsimp only
  rw [upd_self]

theorem StringCall.fits_take {c : StringCall} {s : List UInt8}
    (h : c = .exec → s.length ≤ 31) : c.Fits (s.take c.limit) := by
  have hlen := List.length_take_le c.limit s
  cases c with
  | exec =>
      intro p u callerName opens copy hcopy
      have hname : Handler.text (s.take 33) = copy := Option.some.inj (PState.setFileName_eq hcopy)
      rw [← hname, length_text, List.length_take]
      have := h rfl
      unfold PState.fileNameSize
      omega
  | createSemaphore =>
      intro t init i q hq hne
      rcases STable.create_semTab hq with hold | hnew
      · exact absurd hold hne
      · rw [hnew]
        have hlen' : (s.take 33).length ≤ 33 := hlen
        unfold semNameSize
        show (s.take 33).length + 1 ≤ 50
        omega
  | createFile => trivial
  | open_ => trivial
  | wait => trivial
  | signal => trivial
  | printString => trivial

theorem StringCall.fits_exec {s : List UInt8} (h : StringCall.exec.Fits (s.take 33)) :
    s.length ≤ 31 := by
  by_contra hlong
  have hne : Handler.text (s.take 33) ≠ "" := by
    intro he
    have hl := length_text (s.take 33)
    rw [he, List.length_take] at hl
    have h0 : ("" : String).length = 0 := rfl
    omega
  -- the initial process can make a PCB, and the copy is made there
  have hfit := h _ _ _ _ _ (PState.setFileName_boot hne)
  rw [length_text, List.length_take] at hfit
  unfold PState.fileNameSize at hfit
  omega

/-! ## Strings within the limit -/

namespace Kernel

variable {η : Type} {H : HostOps η} {fs : Uid} {c : StringCall} {s : List UInt8} {k : Kernel η}

theorem actsOn_of_act (hfs : k.fileSystem = some fs) (hc : k.syscall = some c.syscall)
    (hs : HoldsString k.machine (k.machine.readRegister 4).toInt s) (hne : c ≠ .printString)
    (hact : ∀ k₁, c.act H fs (k.machine.readRegister 5).toInt (s.take c.limit) k₁ =
      c.act H fs (k.machine.readRegister 5).toInt s k₁) : ActsOn H fs c s k := by
  obtain ⟨k₁, hlook, hbody⟩ := StringCall.body_string H fs c hs
  unfold ActsOn
  rw [if_neg hne]
  refine ⟨k₁, hlook, ?_⟩
  rw [dispatch_eq H hfs hc, hbody, hact]

theorem actsOn_of_suits (hfs : k.fileSystem = some fs) (hc : k.syscall = some c.syscall)
    (hs : HoldsString k.machine (k.machine.readRegister 4).toInt s)
    (h : c.Suits (k.machine.readRegister 5).toInt s) : ActsOn H fs c s k := by
  have hne : c ≠ .printString := by
    rintro rfl
    exact h
  refine actsOn_of_act hfs hc hs hne fun k₁ => ?_
  have hwhole : s.length ≤ c.limit → s.take c.limit = s := List.take_of_length_le
  cases c with
  | createFile => rw [hwhole h]
  | open_ =>
      rcases h with hlen | hother
      · rw [hwhole hlen]
      · rw [StringCall.act_open_other hother _ s]
  | exec =>
      have hlen : s.length ≤ 31 := h
      rw [hwhole (show s.length ≤ 33 by omega)]
  | createSemaphore => rw [hwhole h]
  | wait => rw [hwhole h]
  | signal => rw [hwhole h]
  | printString => exact absurd rfl hne

/-! ## Strings beyond it -/

/-- A call that acts on a part of its string is found out by something that the part and the whole
lead to different values of. -/
theorem not_actsOn (hfs : k.fileSystem = some fs) (hc : k.syscall = some c.syscall)
    (hs : HoldsString k.machine (k.machine.readRegister 4).toInt s) (hne : c ≠ .printString)
    {ρ : Type} (f : Kernel η → ρ) {a : ρ}
    (hpart : ∀ k₁, k₁ = { k with machine := k₁.machine } → ∃ k',
      c.act H fs (k.machine.readRegister 5).toInt (s.take c.limit) k₁ = .ok .ret k' ∧ f k' = a ∧
        (k'.machine.readRegister 2).toInt ≠ -1)
    (hwhole : ∀ k₁ k', k₁ = { k with machine := k₁.machine } →
      c.act H fs (k.machine.readRegister 5).toInt s k₁ = .ok .ret k' → f k' ≠ a) :
    ¬ (ActsOn H fs c s k ∨ Refused H k) := by
  obtain ⟨k₁, hlook, hbody⟩ := StringCall.body_string H fs c hs
  obtain ⟨k', hk', hf, hr⟩ := hpart k₁ hlook.rest
  -- the call acts on the part, and there is only one way it can end
  have hd : dispatch H .syscallException k = .ok .ret k' := by
    rw [dispatch_eq H hfs hc, hbody, hk']
  rintro (hacts | ⟨k'', hret, hr', _⟩)
  · unfold ActsOn at hacts
    rw [if_neg hne] at hacts
    obtain ⟨k₂, hlook₂, hd₂⟩ := hacts
    exact hwhole k₂ k' hlook₂.rest (hd₂.symm.trans hd) hf
  · rw [returned_iff, hd] at hret
    injection hret with _ hret
    rw [← hret] at hr'
    exact hr hr'

/-- The initial process, with machine `m` and surroundings of our choice. -/
def amid (m : Machine) (h : η) (sTab : STableState) (run : List (Nat × STableCall)) : Kernel η :=
  { opening h with machine := m, sTab := sTab, sTabRun := run }

/-- Nobody has created a semaphore. -/
def noSemaphores : STableState := ⟨STable.new, fun _ => .out none⟩

/-- `CreateFile` on a host that remembers the names it has seen. -/
theorem act_createFile {name : CString} (hn : name ≠ []) {arg : Int} {k : Kernel (List CString)}
    (hk : k.host = []) :
    ∃ k', (StringCall.createFile).act registry fs arg name k = .ok .ret k' ∧ k'.host = [name] ∧
      (k'.machine.readRegister 2).toInt = 0 := by
  have hcreate : FileSystem.create registry name k.host = .ok true [name] := by
    rw [hk]
    have hopen : openForWrite registry name [] = .ok 3 [name] := by
      unfold openForWrite
      have hcall : hostCall (registry.open_ name .create) [] = .ok 3 [name] := by
        simp [hostCall, registry, hn]
      rw [bind_eq_of_ok hcall]
      rfl
    unfold FileSystem.create
    rw [bind_eq_of_ok hopen]
    rfl
  refine ⟨_, bind_eq_of_ok (onHost_eq hcreate), rfl, rfl⟩

/-- `Open` on the same host. -/
theorem act_open {name : CString} (hn : name ≠ []) {arg : Int}
    (harg : arg = readonlyType ∨ arg = readwriteType) {k : Kernel (List CString)} (hk : k.host = [])
    (hfree : FileSystem.findFreeSlot (k.fileTables fs) = 2) :
    ∃ k', (StringCall.open_).act registry fs arg name k = .ok .ret k' ∧ k'.host = [name] ∧
      (k'.machine.readRegister 2).toInt = 2 := by
  have hopen : FileSystem.openType registry name arg k.host = .ok (some ⟨3, 0, arg⟩) [name] := by
    rw [hk]
    unfold FileSystem.openType openForRead openForReadWrite
    have hcall : ∀ flags, hostCall (registry.open_ name flags) [] = .ok 3 [name] := by
      intro flags
      simp [hostCall, registry, hn]
    rcases harg with rfl | rfl
    · rw [if_neg (by decide), if_pos (by decide), bind_eq_of_ok (hcall _)]
      rfl
    · rw [if_neg (by decide), if_neg (by decide), if_pos (by decide), bind_eq_of_ok (hcall _)]
      rfl
  have hslot : (StringCall.open_).act registry fs arg name k =
      Handler.openSlot registry fs name arg 2 k := by
    rw [← hfree]
    rfl
  rw [hslot]
  unfold Handler.openSlot
  rw [if_neg (by rcases harg with rfl | rfl <;> decide),
    if_neg (by rcases harg with rfl | rfl <;> decide), if_pos (by decide),
    bind_eq_of_ok (onHost_eq hopen)]
  exact ⟨_, rfl, rfl, rfl⟩

/-! ### Semaphores -/

/-- A table with one semaphore. -/
def oneSemaphore (name : CString) (init : Int) : STableState :=
  ⟨STable.new.put name init, fun _ => .out none⟩

theorem clearBits_new : STable.new.bm.clearBits = [0, 1, 2, 3, 4, 5, 6, 7, 8, 9] := by decide

theorem find_new (name : CString) : STable.new.find name = none := by
  cases h : STable.new.find name with
  | none => rfl
  | some i =>
      have hb := (STable.find_some h).2.1
      simp [STable.new] at hb

theorem find_one (name : CString) (init : Int) : (STable.new.put name init).find name = some 0 := by
  refine (STable.find_eq_some_iff
    (STable.named_put STable.named_new (find_new name) clearBits_new)).mpr ⟨by decide, ?_, ?_⟩
  · exact (STable.test_put clearBits_new 0).mpr (.inl rfl)
  · rw [STable.nameAt_put clearBits_new, if_pos rfl]

theorem find_other {name other : CString} (h : other ≠ name) (init : Int) :
    (STable.new.put name init).find other = none := by
  cases hf : (STable.new.put name init).find other with
  | none => rfl
  | some i =>
      obtain ⟨_, hb, hn⟩ := STable.find_some hf
      have hi : i = 0 := by
        rcases (STable.test_put clearBits_new i).mp hb with hi | hi
        · exact hi
        · simp [STable.new] at hi
      -- the one name in the table is another
      rw [STable.nameAt_put clearBits_new, if_pos hi] at hn
      exact absurd hn.symm h

/-- A call that is answered at once. -/
theorem callSTab_now {call : STableCall} {s' : STableState} {r : Int}
    (hstep : k.sTab.step (k.currentThread, call) = some s')
    (hret : s'.pc k.currentThread = .out (some r)) :
    Handler.callSTab call k = .ok r { k with sTab := s' } := by
  have hback : Handler.backFromSTab k.currentThread s' = some (.ok r) := by
    unfold Handler.backFromSTab
    rw [hret]
    rfl
  unfold Handler.callSTab
  dsimp only
  rw [hstep, Option.getD_some, System.await_now hback]
  rfl

section Semaphores

variable {name other : CString} {arg : Int}

theorem act_create (hk : k.sTab = noSemaphores) :
    ∃ k', (StringCall.createSemaphore).act H fs arg name k = .ok .ret k' ∧
      (k'.sTab.tab.semTab 0).map Sem.name = some name ∧ (k'.machine.readRegister 2).toInt = 0 := by
  have hcreate : STable.new.create name arg = (0, STable.new.put name arg) := by
    unfold STable.create
    rw [find_new]
    dsimp only
    rw [if_neg (by decide)]
  have hstep : k.sTab.step (k.currentThread, .create name arg) =
      some (noSemaphores.leave k.currentThread (0, STable.new.put name arg)) := by
    rw [hk, ← hcreate]
    rfl
  have hcall := callSTab_now hstep (show (noSemaphores.leave k.currentThread _).pc _ = _ from
    upd_self _ _ _)
  refine ⟨_, bind_eq_of_ok hcall, ?_, rfl⟩
  show ((STable.new.put name arg).semTab 0).map Sem.name = some name
  rw [STable.semTab_put clearBits_new, upd_self]
  rfl

theorem act_signal {v : Int} (hk : k.sTab = oneSemaphore name v) :
    ∃ k', (StringCall.signal).act H fs arg name k = .ok .ret k' ∧
      (k'.machine.readRegister 2).toInt = 0 := by
  have hstep : ∃ t, k.sTab.step (k.currentThread, .signal name) =
      some ((oneSemaphore name v).leave k.currentThread (0, t)) := by
    refine ⟨(STable.new.put name v).setSem 0 ((STable.new.put name v).semAt 0).V.1, ?_⟩
    rw [hk]
    show some ((oneSemaphore name v).leave _ ((STable.new.put name v).signal name)) = _
    unfold STable.signal
    rw [find_one]
  obtain ⟨t, ht⟩ := hstep
  have hcall := callSTab_now ht (show (STableState.leave _ _ _).pc _ = _ from upd_self _ _ _)
  exact ⟨_, bind_eq_of_ok hcall, rfl⟩

theorem act_signal_other {v : Int} (hk : k.sTab = oneSemaphore name v) (hne : other ≠ name)
    {k' : Kernel η} (h : (StringCall.signal).act H fs arg other k = .ok .ret k') :
    (k'.machine.readRegister 2).toInt = -1 := by
  have hstep : k.sTab.step (k.currentThread, .signal other) =
      some ((oneSemaphore name v).leave k.currentThread (-1, STable.new.put name v)) := by
    rw [hk]
    show some ((oneSemaphore name v).leave _ ((STable.new.put name v).signal other)) = _
    unfold STable.signal
    rw [find_other hne]
  have hcall := callSTab_now hstep (show (STableState.leave _ _ _).pc _ = _ from upd_self _ _ _)
  have hact : (StringCall.signal).act H fs arg other k = _ := bind_eq_of_ok hcall
  rw [hact] at h
  injection h with _ h
  rw [← h]
  rfl

theorem act_wait (hk : k.sTab = oneSemaphore name 1) (hrun : k.sTabRun = [(k.currentThread, .go)]) :
    ∃ k', (StringCall.wait).act H fs arg name k = .ok .ret k' ∧
      (k'.machine.readRegister 2).toInt = 0 := by
  let s₁ : STableState :=
    ⟨STable.new.put name 1, upd (fun _ => .out none) k.currentThread (.waiting 0)⟩
  have hstep : k.sTab.step (k.currentThread, .wait name) = some s₁ := by
    rw [hk]
    show some ((oneSemaphore name 1).wait k.currentThread name) = _
    unfold STableState.wait oneSemaphore
    dsimp only
    rw [find_one]
  have hwait : s₁.pc k.currentThread = .waiting 0 := by simp [s₁]
  have hsem : s₁.tab.semAt 0 = Semaphore.new 1 := by
    show (STable.new.put name 1).semAt 0 = _
    rw [STable.semAt_put clearBits_new, if_pos rfl]
  obtain ⟨s₂, hgo, hout⟩ : ∃ s₂, s₁.step (k.currentThread, .go) = some s₂ ∧
      s₂.pc k.currentThread = .out (some 0) := by
    refine ⟨s₁.leave k.currentThread (0, s₁.tab.setSem 0 ((Semaphore.new 1).P k.currentThread).1),
      ?_, upd_self _ _ _⟩
    unfold STableState.step
    dsimp only
    rw [hwait]
    dsimp only
    unfold STableState.pass
    rw [hsem]
    rfl
  -- one step to find the semaphore and one to get through
  have hcall : Handler.callSTab (.wait name) k = .ok 0 { k with sTab := s₂, sTabRun := [] } := by
    have hback₁ : Handler.backFromSTab k.currentThread s₁ = none := by
      unfold Handler.backFromSTab
      rw [hwait]
    have hback₂ : Handler.backFromSTab k.currentThread s₂ = some (.ok 0) := by
      unfold Handler.backFromSTab
      rw [hout]
      rfl
    have hgo' : STableState.sys.step s₁ (k.currentThread, .go) = some s₂ := hgo
    unfold Handler.callSTab
    dsimp only
    rw [hstep, Option.getD_some, hrun, System.await, hback₁]
    dsimp only
    rw [hgo', Option.getD_some, System.await_now hback₂]
    rfl
  exact ⟨_, bind_eq_of_ok hcall, rfl⟩

theorem act_wait_other {v : Int} (hk : k.sTab = oneSemaphore name v) (hne : other ≠ name)
    {k' : Kernel η} (h : (StringCall.wait).act H fs arg other k = .ok .ret k') :
    (k'.machine.readRegister 2).toInt = -1 := by
  have hstep : k.sTab.step (k.currentThread, .wait other) =
      some ((oneSemaphore name v).leave k.currentThread (-1, STable.new.put name v)) := by
    rw [hk]
    show some ((oneSemaphore name v).wait k.currentThread other) = _
    unfold STableState.wait oneSemaphore
    dsimp only
    rw [find_other hne]
  have hcall := callSTab_now hstep (show (STableState.leave _ _ _).pc _ = _ from upd_self _ _ _)
  have hact : (StringCall.wait).act H fs arg other k = _ := bind_eq_of_ok hcall
  rw [hact] at h
  injection h with _ h
  rw [← h]
  rfl

end Semaphores

/-! ### `PrintString` -/

/-- `PrintString` shows the terminator too, and the caller is told nothing. -/
theorem not_actsOn_printString (hfs : k.fileSystem = some fs) (hc : k.syscall = some .printString)
    (hs : HoldsString k.machine (k.machine.readRegister 4).toInt s) (hf : k.display.Free)
    (hidle : k.display.pc k.currentThread = .idle)
    (hrun : k.displayRun = .go k.currentThread ::
      ConsoleState.lineEvents k.currentThread (s.take 255 ++ [0])) :
    ¬ (ActsOn H fs .printString s k ∨ Refused H k) := by
  obtain ⟨k₁, hlook, hbody⟩ := StringCall.body_string H fs .printString hs
  have hk₁ : k₁.display = k.display ∧ k₁.displayRun = k.displayRun
      ∧ k₁.currentThread = k.currentThread := by
    rw [hlook.rest]
    exact ⟨rfl, rfl, rfl⟩
  have hrun₁ : k₁.displayRun = .go k₁.currentThread ::
      ConsoleState.lineEvents k₁.currentThread (s.take 255 ++ [0]) := by
    rw [hk₁.2.1, hk₁.2.2]
    exact hrun
  obtain ⟨d, hcall, hw⟩ := callDisplay_line (by rw [hk₁.1]; exact hf)
    (by rw [hk₁.1, hk₁.2.2]; exact hidle) hrun₁
  obtain ⟨k', hk'⟩ : ∃ k', Handler.leave (k₁.withDisplay d []) = .ok .ret k' := ⟨_, rfl⟩
  have hret : exceptionHandler H .syscallException k = .returned k' := by
    rw [returned_iff, dispatch_eq H hfs hc]
    exact hbody.trans ((bind_eq_of_ok hcall).trans hk')
  have hrest : k'.display = d ∧ k'.machine.readRegister 2 = k₁.machine.readRegister 2 := by
    have hl := hk'
    injection hl with _ hl
    rw [← hl]
    exact ⟨rfl, rfl⟩
  rintro (hacts | ⟨k'', hret', hr, _⟩)
  · unfold ActsOn at hacts
    rw [if_pos rfl] at hacts
    have hsole : ConsoleState.Sole k.currentThread k.displayRun := by
      rw [hrun]
      intro e he u hu
      rcases List.mem_cons.mp he with rfl | he
      · injection hu with hu
        exact hu.symm
      · exact ConsoleState.sole_lineEvents _ _ e he u hu
    -- alone at the display, the call has written all there is, the terminator too
    have hwritten := (hacts hidle k' hret).written hsole
    rw [hrest.1, hw, hk₁.1] at hwritten
    have hsame := List.append_cancel_left hwritten
    exact hs.bare (by rw [← hsame]; simp)
  · rw [hret] at hret'
    injection hret' with hret'
    rw [← hret', hrest.2] at hr
    -- nothing writes register 2: it still holds the code of the call, which is not -1
    have hcode : (k₁.machine.readRegister 2).toInt = (k.machine.readRegister 2).toInt := by
      unfold Machine.readRegister
      rw [hlook.registers]
    have hc' : Syscall.ofCode (k.machine.readRegister 2).toInt = some .printString := hc
    rw [← hcode, hr] at hc'
    exact absurd hc' (by decide)

/-! ## When a string arrives -/

section Long

variable {m : Machine} (hs : HoldsString m (m.readRegister 4).toInt s)
include hs

theorem long_createFile (hc : Syscall.ofCode (m.readRegister 2).toInt = some .createFile)
    (hlong : 32 < s.length) :
    ¬ (ActsOn registry 0 .createFile s (amid m [] noSemaphores []) ∨
      Refused registry (amid m [] noSemaphores [])) := by
  have hpart : s.take 32 ≠ [] := List.ne_nil_of_length_pos (by rw [List.length_take]; omega)
  have hwhole : s ≠ [] := List.ne_nil_of_length_pos (by omega)
  refine not_actsOn (c := .createFile) (a := [s.take 32]) rfl hc hs (by decide) Kernel.host ?_ ?_
  · intro k₁ hk₁
    obtain ⟨k', hk', hhost, hr⟩ := act_createFile hpart (k := k₁) (by rw [hk₁]; rfl)
    exact ⟨k', hk', hhost, by rw [hr]; decide⟩
  · intro k₁ k' hk₁ hact he
    obtain ⟨k'', hk'', hhost, _⟩ := act_createFile hwhole (k := k₁) (by rw [hk₁]; rfl)
    rw [hk''] at hact
    injection hact with _ hact
    rw [← hact, hhost] at he
    exact absurd (congrArg List.length (List.cons.inj he).1) (by rw [List.length_take]; omega)

theorem long_open (hc : Syscall.ofCode (m.readRegister 2).toInt = some .open_)
    (harg : (m.readRegister 5).toInt = readonlyType ∨ (m.readRegister 5).toInt = readwriteType)
    (hlong : 32 < s.length) :
    ¬ (ActsOn registry 0 .open_ s (amid m [] noSemaphores []) ∨
      Refused registry (amid m [] noSemaphores [])) := by
  have hpart : s.take 32 ≠ [] := List.ne_nil_of_length_pos (by rw [List.length_take]; omega)
  have hwhole : s ≠ [] := List.ne_nil_of_length_pos (by omega)
  refine not_actsOn (c := .open_) (a := [s.take 32]) rfl hc hs (by decide) Kernel.host ?_ ?_
  · intro k₁ hk₁
    obtain ⟨k', hk', hhost, hr⟩ := act_open hpart harg (k := k₁) (by rw [hk₁]; rfl)
      (by rw [hk₁]; rfl)
    exact ⟨k', hk', hhost, by rw [hr]; decide⟩
  · intro k₁ k' hk₁ hact he
    obtain ⟨k'', hk'', hhost, _⟩ := act_open hwhole harg (k := k₁) (by rw [hk₁]; rfl)
      (by rw [hk₁]; rfl)
    have hact' : (StringCall.open_).act registry 0 (m.readRegister 5).toInt s k₁ = .ok .ret k' :=
      hact
    rw [hk''] at hact'
    injection hact' with _ hact'
    rw [← hact', hhost] at he
    exact absurd (congrArg List.length (List.cons.inj he).1) (by rw [List.length_take]; omega)

theorem long_create (hc : Syscall.ofCode (m.readRegister 2).toInt = some .createSemaphore)
    (hlong : 33 < s.length) :
    ¬ (ActsOn bareHost 0 .createSemaphore s (amid m () noSemaphores []) ∨
      Refused bareHost (amid m () noSemaphores [])) := by
  refine not_actsOn (c := .createSemaphore) (a := some (s.take 33)) rfl hc hs (by decide)
    (fun k => (k.sTab.tab.semTab 0).map Sem.name) ?_ ?_
  · intro k₁ hk₁
    obtain ⟨k', hk', hname, hr⟩ := act_create (k := k₁) (by rw [hk₁]; rfl)
    exact ⟨k', hk', hname, by rw [hr]; decide⟩
  · intro k₁ k' hk₁ hact he
    obtain ⟨k'', hk'', hname, _⟩ := act_create (k := k₁) (by rw [hk₁]; rfl)
    rw [hk''] at hact
    injection hact with _ hact
    rw [← hact, hname] at he
    exact absurd (congrArg List.length (Option.some.inj he)) (by rw [List.length_take]; omega)

theorem long_wait (hc : Syscall.ofCode (m.readRegister 2).toInt = some .wait)
    (hlong : 33 < s.length) :
    ¬ (ActsOn bareHost 0 .wait s (amid m () (oneSemaphore (s.take 33) 1) [(0, .go)]) ∨
      Refused bareHost (amid m () (oneSemaphore (s.take 33) 1) [(0, .go)])) := by
  have hne : s ≠ s.take 33 := fun he =>
    absurd (congrArg List.length he) (by rw [List.length_take]; omega)
  refine not_actsOn (c := .wait) (a := 0) rfl hc hs (by decide)
    (fun k => (k.machine.readRegister 2).toInt) ?_ ?_
  · intro k₁ hk₁
    obtain ⟨k', hk', hr⟩ := act_wait (k := k₁) (by rw [hk₁]; rfl) (by rw [hk₁]; rfl)
    exact ⟨k', hk', hr, by rw [hr]; decide⟩
  · intro k₁ k' hk₁ hact he
    rw [act_wait_other (k := k₁) (by rw [hk₁]; rfl) hne hact] at he
    exact absurd he (by decide)

theorem long_signal (hc : Syscall.ofCode (m.readRegister 2).toInt = some .signal)
    (hlong : 33 < s.length) :
    ¬ (ActsOn bareHost 0 .signal s (amid m () (oneSemaphore (s.take 33) 1) []) ∨
      Refused bareHost (amid m () (oneSemaphore (s.take 33) 1) [])) := by
  have hne : s ≠ s.take 33 := fun he =>
    absurd (congrArg List.length he) (by rw [List.length_take]; omega)
  refine not_actsOn (c := .signal) (a := 0) rfl hc hs (by decide)
    (fun k => (k.machine.readRegister 2).toInt) ?_ ?_
  · intro k₁ hk₁
    obtain ⟨k', hk', hr⟩ := act_signal (k := k₁) (by rw [hk₁]; rfl)
    exact ⟨k', hk', hr, by rw [hr]; decide⟩
  · intro k₁ k' hk₁ hact he
    rw [act_signal_other (k := k₁) (by rw [hk₁]; rfl) hne hact] at he
    exact absurd he (by decide)

/-- A string that arrives has a length that suits the call. -/
theorem suits_of_unaltered {c : StringCall}
    (hc : Syscall.ofCode (m.readRegister 2).toInt = some c.syscall) (h : m.Unaltered c s) :
    c.Suits (m.readRegister 5).toInt s := by
  cases c with
  | createFile =>
      by_contra hlong
      exact long_createFile hs hc (not_le.mp hlong) (h.acts _ _ 0 _ rfl rfl)
  | open_ =>
      by_contra hbad
      obtain ⟨hlong, htype⟩ := not_or.mp hbad
      have harg : (m.readRegister 5).toInt = readonlyType ∨
          (m.readRegister 5).toInt = readwriteType := by
        by_contra hother
        exact htype (not_or.mp hother)
      exact long_open hs hc harg (not_le.mp hlong) (h.acts _ _ 0 _ rfl rfl)
  | exec => exact StringCall.fits_exec (h.fits _ (hs.stringAt 33))
  | createSemaphore =>
      by_contra hlong
      exact long_create hs hc (not_le.mp hlong) (h.acts _ _ 0 _ rfl rfl)
  | wait =>
      by_contra hlong
      exact long_wait hs hc (not_le.mp hlong) (h.acts _ _ 0 _ rfl rfl)
  | signal =>
      by_contra hlong
      exact long_signal hs hc (not_le.mp hlong) (h.acts _ _ 0 _ rfl rfl)
  | printString =>
      let k := (amid m () noSemaphores []).withDisplay ConsoleState.start
        (.go 0 :: ConsoleState.lineEvents 0 (s.take 255 ++ [0]))
      exact not_actsOn_printString (H := bareHost) (k := k) rfl hc hs
        ConsoleState.free_start rfl rfl (h.acts _ _ 0 k rfl rfl)

/-- **A string is not altered exactly when its length suits the call.** -/
theorem strings_unaltered_iff {c : StringCall}
    (hc : Syscall.ofCode (m.readRegister 2).toInt = some c.syscall) :
    m.Unaltered c s ↔ c.Suits (m.readRegister 5).toInt s := by
  refine ⟨suits_of_unaltered hs hc, fun h => ⟨fun η H fs k hk hfs => .inl ?_, fun name hn => ?_⟩⟩
  · subst hk
    exact actsOn_of_suits hfs hc hs h
  · rw [hs.stringAt c.limit] at hn
    rw [← Option.some.inj hn]
    refine StringCall.fits_take fun he => ?_
    subst he
    exact h

end Long

/-- `Open("a", ReadOnly)`. -/
theorem strings_unaltered_open : (opening ()).machine.Unaltered .open_ [97] :=
  (strings_unaltered_iff (opening_setting ()).name rfl).mpr (.inl (by decide))

/-- `CreateFile` with a name of 40 letters. -/
def longName : Machine :=
  { (opening ()).machine with
    registers := fun r => if r = 2 then 4#32 else 0#32
    mainMemory := fun a => if a < 40 then 97 else 0 }

/-- It creates the file of the first 32 of them. -/
theorem strings_altered_createFile :
    ¬ ∀ (m : Machine) (c : StringCall) (s : List UInt8),
      Syscall.ofCode (m.readRegister 2).toInt = some c.syscall →
      HoldsString m (m.readRegister 4).toInt s → m.Unaltered c s := by
  intro h
  have hs : HoldsString longName (longName.readRegister 4).toInt (List.replicate 40 97) :=
    ⟨by decide, by decide +kernel, by decide +kernel⟩
  have hsuits := suits_of_unaltered hs rfl (h longName .createFile _ rfl hs)
  exact absurd hsuits (show ¬ (List.replicate 40 (97 : UInt8)).length ≤ 32 by decide)

end Kernel

end Nachos
