import Nachos.Userprog.Exception
import Nachos.Proof.Table

/-!
# Every system call but two comes back one instruction further

`ExceptionHandler` has some sixty exits. Of a case it is enough to know that nothing
before its exit touches what is watched, and that the exit calls `increasePC`: `Keeps f` for
each primitive, `Ends f g` for each exit, and the rule that puts the two together along the
body of the case. What is watched is the program counters, or the registers that the handler
has no business with. Since `Write` runs on into `Join` without having advanced anything, that
one exit serves for both.

Two cases have exits that end in `break`: `Open` for the types of the console and for a
full file table, and `Close` for an id outside the slots that files are kept in. These
lead to the `ASSERTNOTREACHED` at the end.
-/

namespace Nachos

open Base (Keeps Ends bind_ok bind_eq_of_ok)

/-- The program counters. -/
structure PCs where
  /-- `PrevPCReg`. -/
  prevPC : BitVec 32
  /-- `PCReg`. -/
  pc : BitVec 32
  /-- `NextPCReg`. -/
  nextPC : BitVec 32
  deriving DecidableEq

/-- One instruction further. -/
def PCs.advance (p : PCs) : PCs := ⟨p.pc, p.pc + 4, p.pc + 8⟩

/-- The program counters of the caller. -/
def Kernel.pcs {η : Type} (k : Kernel η) : PCs :=
  ⟨k.machine.readRegister prevPCReg, k.machine.readRegister pcReg, k.machine.readRegister nextPCReg⟩

namespace Handler

variable {η : Type} {ρ : Type} {f : Kernel η → ρ}

/-! ## What the primitives keep -/

theorem keeps_readRegister (num : Nat) : Keeps f (readRegister num : Handler η Int) := by
  intro k a k' h
  injection h with _ h
  exact congrArg f h.symm

theorem keeps_fileAt (fs : Uid) (id : Int) : Keeps f (fileAt fs id : Handler η _) := by
  intro k a k' h
  injection h with _ h
  exact congrArg f h.symm

theorem keeps_assert (c : Prop) [Decidable c] : Keeps f (assert c : Handler η Unit) :=
  .ite (.pure ()) (.throw _)

theorem keeps_newChar (size : Int) : Keeps f (newChar size : Handler η Unit) := keeps_assert _

/-- An exception in the kernel is the end. -/
theorem fault_ne_ok {α : Type} (which : ExceptionType) (k k' : Kernel η) (a : α) :
    fault which k ≠ .ok a k' := by
  intro h
  obtain ⟨_, _, _, h2⟩ := bind_ok h
  exact absurd h2 (by intro h; cases h)

section Memory

variable (hf : ∀ k m, m.registers = k.machine.registers → f { k with machine := m } = f k)
include hf

theorem keeps_readMem (addr : Int) : Keeps f (readMem addr : Handler η Int) := by
  intro k a k' h
  unfold readMem at h
  split at h
  · exact absurd h (by simp)
  · exact absurd h (fault_ne_ok _ _ _ _)
  · rename_i hr
    injection h with _ h
    rw [← h]
    exact hf _ _ (Machine.readMem_registers hr)

theorem keeps_writeMem (addr value : Int) : Keeps f (writeMem addr value : Handler η Unit) := by
  intro k a k' h
  unfold writeMem at h
  split at h
  · exact absurd h (by simp)
  · exact absurd h (fault_ne_ok _ _ _ _)
  · rename_i hr
    injection h with _ h
    rw [← h]
    exact hf _ _ (Machine.writeMem_registers hr)

theorem keeps_user2SystemFrom : ∀ (n : Nat) (addr : Int),
    Keeps f (user2SystemFrom n addr : Handler η CString) := by
  intro n
  induction n with
  | zero => intro _; exact .pure _
  | succ n ih =>
      intro addr
      rw [user2SystemFrom]
      refine .bind (keeps_readMem hf _) fun oneChar => ?_
      refine .ite (.pure _) ?_
      exact .bind (ih _) fun rest => .pure _

theorem keeps_user2System (addr limit : Int) :
    Keeps f (user2System addr limit : Handler η CString) :=
  .bind (keeps_newChar _) fun _ => keeps_user2SystemFrom hf _ _

theorem keeps_system2UserFrom (addr : Int) (buffer : List UInt8) : ∀ (n i : Nat),
    Keeps f (system2UserFrom addr buffer n i : Handler η Int) := by
  intro n
  induction n with
  | zero => intro _; exact .pure _
  | succ n ih =>
      intro i
      rw [system2UserFrom]
      refine .bind (keeps_writeMem hf _ _) fun _ => ?_
      exact .ite (.pure _) (ih (i + 1))

theorem keeps_system2User (addr len : Int) (buffer : List UInt8) :
    Keeps f (system2User addr len buffer : Handler η Int) :=
  .ite (.pure _) (.ite (.pure _) (keeps_system2UserFrom hf _ _ _ _))

end Memory

theorem resume_ok {α σ ι : Type} {put : σ → List ι → Kernel η} {k k' : Kernel η} {a : α}
    {r : Option (Except Stop α × σ × List ι)} (h : resume put k r = .ok a k') :
    ∃ s run, r = some (.ok a, s, run) ∧ k' = put s run := by
  unfold resume at h
  split at h
  · exact absurd h (by simp)
  · rename_i s run
    injection h with ha h
    exact ⟨s, run, by rw [ha], h.symm⟩
  · exact absurd h (by simp)

/-! ## What is watched -/

/-- Something computed from the registers, though not from register 2, that `increasePC` takes to
its `g`. -/
structure Watch (f : Kernel η → ρ) (g : ρ → ρ) : Prop where
  congr : ∀ k k' : Kernel η, k'.machine.registers = k.machine.registers → f k' = f k
  result : ∀ (k : Kernel η) (value : BitVec 32),
    f { k with machine := k.machine.writeRegister 2 value } = f k
  advance : ∀ k k' : Kernel η, increasePC k = .ok () k' → f k' = g (f k)

section Watch

variable {g : ρ → ρ} (w : Watch f g)
include w

theorem Watch.writeRegister (value : Int) : Keeps f (writeRegister 2 value : Handler η Unit) :=
  .modify fun _ => w.result _ _

theorem Watch.printf (t : String) : Keeps f (printf t : Handler η Unit) :=
  .modify fun _ => w.congr _ _ rfl

theorem Watch.setFile (fs : Uid) (id : Int) (file : Option OpenFile) :
    Keeps f (setFile fs id file : Handler η Unit) := .modify fun _ => w.congr _ _ rfl

theorem Watch.onHost {α : Type} (x : HostM η α) : Keeps f (onHost x) := by
  intro k a k' h
  unfold Handler.onHost at h
  split at h
  · injection h with _ h
    rw [← h]
    exact w.congr _ _ rfl
  · exact absurd h (by simp)

theorem Watch.keyboard {α : Type} (scan : Scan α) : Keeps f (keyboard scan : Handler η α) := by
  intro k a k' h
  unfold Handler.keyboard at h
  split at h
  · injection h with _ h
    rw [← h]
    exact w.congr _ _ rfl
  · exact absurd h (by simp)

theorem Watch.callPTab (a : Act) : Keeps f (callPTab a : Handler η Int) := by
  intro k r k' h
  obtain ⟨s, run, _, rfl⟩ := resume_ok h
  exact w.congr _ _ rfl

theorem Watch.callSTab (c : STableCall) : Keeps f (callSTab c : Handler η Int) := by
  intro k r k' h
  obtain ⟨s, run, _, rfl⟩ := resume_ok h
  exact w.congr _ _ rfl

theorem Watch.callDisplay (c : ConsoleCall) : Keeps f (callDisplay c : Handler η Unit) := by
  intro k r k' h
  obtain ⟨s, run, _, rfl⟩ := resume_ok h
  exact w.congr _ _ rfl

theorem Watch.user2System (addr limit : Int) :
    Keeps f (user2System addr limit : Handler η CString) :=
  keeps_user2System (fun k _ h => w.congr k _ h) _ _

theorem Watch.system2User (addr len : Int) (buffer : List UInt8) :
    Keeps f (system2User addr len buffer : Handler η Int) :=
  keeps_system2User (fun k _ h => w.congr k _ h) _ _ _

theorem ends_exit (e : Exit) : Ends f g (· = e) (do increasePC; pure e : Handler η Exit) := by
  intro k a k' h
  obtain ⟨_, t, h1, h2⟩ := bind_ok h
  injection h2 with h2 h3
  rw [← h3]
  exact ⟨w.advance k t h1, h2.symm⟩

theorem returns_leave : Ends f g (· = .ret) (leave : Handler η Exit) := ends_exit w .ret

theorem returns_leaveWith (result : Int) : Ends f g (· = .ret)
    (leaveWith result : Handler η Exit) :=
  .after (w.writeRegister _) fun _ => returns_leave w

theorem returns_leaveSaying (t : String) (result : Int) :
    Ends f g (· = .ret) (leaveSaying t result : Handler η Exit) :=
  .after (w.printf _) fun _ => returns_leaveWith w _

/-! ## The cases that always return -/

variable (H : HostOps η)

theorem returns_scAdd : Ends f g (· = .ret) (scAdd : Handler η Exit) := by
  refine Ends.after (keeps_readRegister 4) fun op1 => ?_
  refine Ends.after (keeps_readRegister 5) fun op2 => ?_
  exact returns_leaveWith w _

theorem returns_clearInputBuffer :
    Ends f g (· = .ret) (do keyboard clearInputBuffer; leave : Handler η Exit) :=
  .after (w.keyboard _) fun _ => returns_leave w

theorem returns_leaveNumber (isNegative : Bool) (res : Int) (flagZero : Bool) :
    Ends f g (· = .ret) (leaveNumber isNegative res flagZero : Handler η Exit) := by
  refine Ends.ite (returns_leaveSaying w _ _) ?_
  refine Ends.ite (returns_leaveSaying w _ _) ?_
  exact Ends.ite (returns_leaveSaying w _ _) (returns_leaveWith w _)

theorem returns_scReadNum : Ends f g (· = .ret) (scReadNum : Handler η Exit) := by
  refine Ends.after (w.keyboard _) fun c => ?_
  refine Ends.ite ?_ (Ends.ite (returns_leaveSaying w _ _) ?_)
  · refine Ends.after (w.keyboard _) fun line => ?_
    cases line with
    | number res flagZero => exact returns_leaveNumber w _ _ _
    | other =>
        refine Ends.after (w.printf _) fun _ => ?_
        exact Ends.after (w.writeRegister _) fun _ => returns_clearInputBuffer w
  · refine Ends.after (w.writeRegister _) fun _ => ?_
    exact Ends.after (w.printf _) fun _ => returns_clearInputBuffer w

theorem returns_scPrintNum : Ends f g (· = .ret) (scPrintNum : Handler η Exit) := by
  refine Ends.after (keeps_readRegister 4) fun number => ?_
  exact Ends.ite (Ends.after (w.callDisplay _) fun _ => returns_leave w)
    (Ends.after (w.callDisplay _) fun _ => returns_leave w)

theorem returns_scPrintString : Ends f g (· = .ret) (scPrintString : Handler η Exit) := by
  refine Ends.after (keeps_readRegister 4) fun virtAddr => ?_
  refine Ends.after (w.user2System _ _) fun buffer => ?_
  exact Ends.after (w.callDisplay _) fun _ => returns_leave w

theorem returns_scReadString : Ends f g (· = .ret) (scReadString : Handler η Exit) := by
  refine Ends.after (keeps_readRegister 4) fun virAddr => ?_
  refine Ends.after (keeps_readRegister 5) fun length => ?_
  refine Ends.after (keeps_newChar _) fun _ => ?_
  refine Ends.after (w.keyboard _) fun strName => ?_
  cases strName with
  | none =>
      -- the kernel's own buffer is overrun: there is no exit
      intro k e k' h
      exact absurd h (by intro h; cases h)
  | some strName =>
      refine Ends.after (w.system2User _ _ _) fun numBytes => ?_
      refine Ends.ite (Ends.after (w.printf _) fun _ => returns_leave w) ?_
      refine Ends.ite (Ends.after (w.printf _) fun _ => returns_leave w) ?_
      exact Ends.ite (Ends.after (w.printf _) fun _ => returns_leave w) (returns_leave w)

theorem returns_scRandomNum : Ends f g (· = .ret) (scRandomNum H) :=
  .after (w.onHost _) fun _ => returns_leaveWith w _

theorem returns_scReadChar : Ends f g (· = .ret) (scReadChar : Handler η Exit) := by
  refine Ends.after (w.keyboard _) fun result => ?_
  refine Ends.ite (Ends.after (w.printf _) fun _ => returns_leaveWith w _) ?_
  refine Ends.after (w.keyboard _) fun c => ?_
  refine Ends.ite ?_ (returns_leaveWith w _)
  refine Ends.after (w.printf _) fun _ => ?_
  exact Ends.after (w.keyboard _) fun _ => returns_leaveWith w _

theorem returns_scPrintChar : Ends f g (· = .ret) (scPrintChar : Handler η Exit) := by
  refine Ends.after (keeps_readRegister 4) fun c => ?_
  exact Ends.after (w.callDisplay _) fun _ => returns_leave w

theorem returns_scCreateFile : Ends f g (· = .ret) (scCreateFile H) := by
  refine Ends.after (keeps_readRegister 4) fun virAddr => ?_
  refine Ends.after (w.user2System _ _) fun filename => ?_
  refine Ends.after (w.onHost _) fun created => ?_
  exact Ends.ite (returns_leaveSaying w _ _) (returns_leaveWith w _)

theorem returns_seekTo (fs : Uid) (id : Int) (file : OpenFile) (position : Int) :
    Ends f g (· = .ret) (seekTo H fs id file position) := by
  refine Ends.after (w.onHost _) fun length => ?_
  refine Ends.ite (returns_leaveSaying w _ _) ?_
  refine Ends.after (w.onHost _) fun file => ?_
  exact Ends.after (w.setFile _ _ _) fun _ => returns_leaveWith w _

theorem returns_scSeek (fs : Uid) : Ends f g (· = .ret) (scSeek H fs) := by
  refine Ends.after (keeps_readRegister 4) fun position => ?_
  refine Ends.after (keeps_readRegister 5) fun id => ?_
  refine Ends.ite (returns_leaveSaying w _ _) ?_
  refine Ends.after (keeps_fileAt _ _) fun file => ?_
  cases file with
  | none => exact returns_leaveSaying w _ _
  | some file =>
      refine Ends.ite (returns_leaveSaying w _ _) ?_
      exact Ends.ite (Ends.after (w.onHost _) fun _ => returns_seekTo w H _ _ _ _)
        (returns_seekTo w H _ _ _ _)

theorem returns_readStdin (virAddr charcount : Int) : Ends f g (· = .ret)
    (readStdin H virAddr charcount) := by
  refine Ends.after (w.onHost _) fun ch => ?_
  refine Ends.after (w.keyboard _) fun r => ?_
  exact Ends.after (w.system2User _ _ _) fun _ => returns_leaveWith w _

theorem returns_readFile (fs : Uid) (virAddr charcount id : Int) (file : OpenFile) (cur : Int) :
    Ends f g (· = .ret) (readFile H fs virAddr charcount id file cur) := by
  refine Ends.after (w.onHost _) fun r => ?_
  refine Ends.after (w.setFile _ _ _) fun _ => ?_
  refine Ends.ite ?_ (returns_leaveWith w _)
  refine Ends.after (w.onHost _) fun p => ?_
  refine Ends.after (w.setFile _ _ _) fun _ => ?_
  exact Ends.after (w.system2User _ _ _) fun _ => returns_leaveWith w _

theorem returns_scRead (fs : Uid) : Ends f g (· = .ret) (scRead H fs) := by
  refine Ends.after (keeps_readRegister 4) fun virAddr => ?_
  refine Ends.after (keeps_readRegister 5) fun charcount => ?_
  refine Ends.after (keeps_readRegister 6) fun id => ?_
  refine Ends.ite (returns_leaveSaying w _ _) ?_
  refine Ends.after (keeps_fileAt _ _) fun file => ?_
  cases file with
  | none => exact returns_leaveSaying w _ _
  | some file =>
      refine Ends.ite (returns_leaveSaying w _ _) ?_
      refine Ends.after (w.onHost _) fun p => ?_
      refine Ends.after (w.setFile _ _ _) fun _ => ?_
      refine Ends.after (keeps_newChar _) fun _ => ?_
      exact Ends.ite (returns_readStdin w H _ _) (returns_readFile w H _ _ _ _ _ _)

theorem returns_scJoin : Ends f g (· = .ret) (scJoin : Handler η Exit) := by
  refine Ends.after (keeps_readRegister 4) fun pID => ?_
  exact Ends.after (w.callPTab _) fun _ => returns_leaveWith w _

/-- What falls through into `Join` has not advanced anything yet. -/
theorem returns_writeToFile (fs : Uid) (buffer : List UInt8) (charcount id : Int) (file : OpenFile)
    (cur : Int) : Ends f g (· = .ret) (writeToFile H fs buffer charcount id file cur) := by
  refine Ends.ite ?_ (returns_scJoin w)
  refine Ends.after (w.onHost _) fun r => ?_
  refine Ends.after (w.setFile _ _ _) fun _ => ?_
  refine Ends.ite ?_ (Ends.after (w.writeRegister _) fun _ => returns_scJoin w)
  refine Ends.after (w.onHost _) fun p => ?_
  exact Ends.after (w.setFile _ _ _) fun _ => returns_leaveWith w _

theorem returns_scWrite (fs : Uid) : Ends f g (· = .ret) (scWrite H fs) := by
  refine Ends.after (keeps_readRegister 4) fun virAddr => ?_
  refine Ends.after (keeps_readRegister 5) fun charcount => ?_
  refine Ends.after (keeps_readRegister 6) fun id => ?_
  refine Ends.ite (returns_leaveSaying w _ _) ?_
  refine Ends.after (keeps_fileAt _ _) fun file => ?_
  cases file with
  | none => exact returns_leaveSaying w _ _
  | some file =>
      refine Ends.ite (returns_leaveSaying w _ _) ?_
      refine Ends.after (w.onHost _) fun p => ?_
      refine Ends.after (w.setFile _ _ _) fun _ => ?_
      refine Ends.after (w.user2System _ _) fun buffer => ?_
      exact Ends.ite (Ends.after (w.callDisplay _) fun _ => returns_leaveWith w _)
        (returns_writeToFile w H _ _ _ _ _ _)

theorem returns_scExec : Ends f g (· = .ret) (scExec H) := by
  refine Ends.after (keeps_readRegister 4) fun virtAddr => ?_
  refine Ends.after (w.user2System _ _) fun name => ?_
  refine Ends.after (w.onHost _) fun file => ?_
  cases file with
  | none => exact returns_leaveSaying w _ _
  | some file =>
      refine Ends.after (w.onHost _) fun _ => ?_
      exact Ends.after (w.callPTab _) fun _ => returns_leaveWith w _

theorem returns_scExit : Ends f g (· = .ret) (scExit : Handler η Exit) := by
  refine Ends.after (keeps_readRegister 4) fun exitStatus => ?_
  exact Ends.after (w.callPTab _) fun _ => returns_leave w

theorem returns_semaphoreCase (virtAddr : Int) (call : CString → STableCall) (failed : String) :
    Ends f g (· = .ret) (semaphoreCase virtAddr call failed : Handler η Exit) := by
  refine Ends.after (w.user2System _ _) fun name => ?_
  refine Ends.after (w.callSTab _) fun res => ?_
  exact Ends.ite (returns_leaveSaying w _ _) (returns_leaveWith w _)

theorem returns_scCreateSemaphore : Ends f g (· = .ret) (scCreateSemaphore : Handler η Exit) := by
  refine Ends.after (keeps_readRegister 4) fun virtAddr => ?_
  exact Ends.after (keeps_readRegister 5) fun _ => returns_semaphoreCase w _ _ _

theorem returns_scWait : Ends f g (· = .ret) (scWait : Handler η Exit) :=
  .after (keeps_readRegister 4) fun _ => returns_semaphoreCase w _ _ _

theorem returns_scSignal : Ends f g (· = .ret) (scSignal : Handler η Exit) :=
  .after (keeps_readRegister 4) fun _ => returns_semaphoreCase w _ _ _

end Watch

/-! ## Strings of the user -/

theorem signedChar_eq_zero (c : UInt8) : signedChar c = 0 ↔ c = 0 := by
  have hlt := c.toNat_lt
  have hc : c = 0 ↔ c.toNat = 0 := by rw [← UInt8.toNat_inj]; rfl
  rw [hc]
  unfold signedChar
  rw [Int.bmod_def]
  split <;> omega

/-- The character that `User2System` stores is the one that was read. -/
theorem ofNat_signedChar (c : UInt8) : UInt8.ofNat (toUInt32 (signedChar c) % 256) = c := by
  have hlt := c.toNat_lt
  have hn : toUInt32 (signedChar c) % 256 = c.toNat := by
    unfold toUInt32 signedChar
    rw [Int.bmod_def]
    split <;> omega
  rw [hn, UInt8.ofNat_toNat]

theorem readMem_ok (addr v : Int) (k k' : Kernel η) :
    readMem addr k = .ok v k' ↔
      ∃ c, k.machine.byteAt addr = some c ∧ v = signedChar c
        ∧ k' = { k with machine := k.machine.touch (toUInt32 addr / pageSize) false } := by
  constructor
  · intro h
    unfold readMem at h
    split at h
    · exact absurd h (by simp)
    · exact absurd h (fault_ne_ok _ _ _ _)
    · rename_i hr
      obtain ⟨c, hc, hv, hm⟩ := (Machine.readMem_byte _ _ _ _).mp hr
      injection h with h1 h2
      exact ⟨c, hc, by rw [← h1, hv]; rfl, by rw [← h2, hm]⟩
  · intro h
    obtain ⟨c, hc, hv, hk⟩ := h
    unfold readMem
    rw [(Machine.readMem_byte _ _ _ _).mpr ⟨c, hc, rfl, rfl⟩, hv, hk]
    rfl

/-- What the loop of `User2System` delivers is the string that is there. -/
theorem stringAt_of_user2SystemFrom : ∀ (n : Nat) (addr : Int) (k k' : Kernel η) (cs : CString),
    user2SystemFrom n addr k = .ok cs k' → k.machine.stringAt n addr = some cs := by
  intro n
  induction n with
  | zero =>
      intro addr k k' cs h
      injection h with hcs _
      rw [Machine.stringAt, hcs]
  | succ n ih =>
      intro addr k k' cs h
      rw [user2SystemFrom] at h
      obtain ⟨v, t, hv, ht⟩ := bind_ok h
      obtain ⟨c, hc, hvc, rfl⟩ := (readMem_ok _ _ _ _).mp hv
      rw [Machine.stringAt, hc]
      show (if c = 0 then some [] else _) = some cs
      by_cases h0 : c = 0
      · rw [if_pos (hvc.trans ((signedChar_eq_zero c).mpr h0))] at ht
        injection ht with hcs _
        rw [if_pos h0, ← hcs]
      · rw [if_neg (fun hz => h0 ((signedChar_eq_zero c).mp (hvc ▸ hz)))] at ht
        obtain ⟨rest, u, hu, hpure⟩ := bind_ok ht
        injection hpure with hcs _
        -- the access has left the string as it was
        have hrest := ih (addr + 1) _ u rest hu
        rw [Machine.stringAt_touch] at hrest
        rw [if_neg h0, hrest, ← hcs, hvc, ofNat_signedChar]
        rfl

/-- A string that can be read is delivered. -/
theorem user2SystemFrom_of_stringAt : ∀ (n : Nat) (addr : Int) (k : Kernel η) (cs : CString),
    k.machine.stringAt n addr = some cs → ∃ k', user2SystemFrom n addr k = .ok cs k' := by
  intro n
  induction n with
  | zero =>
      intro addr k cs h
      rw [Machine.stringAt] at h
      injection h with hcs
      exact ⟨k, by rw [← hcs]; rfl⟩
  | succ n ih =>
      intro addr k cs h
      rw [Machine.stringAt] at h
      cases hc : k.machine.byteAt (toInt32 addr) with
      | none => rw [hc] at h; exact absurd h (by simp)
      | some c =>
          rw [hc] at h
          change (if c = 0 then some [] else _) = some cs at h
          have hread := (readMem_ok (toInt32 addr) _ k _).mpr ⟨c, hc, rfl, rfl⟩
          rw [user2SystemFrom, bind_eq_of_ok hread]
          by_cases h0 : c = 0
          · rw [if_pos h0] at h
            injection h with h
            rw [if_pos ((signedChar_eq_zero c).mpr h0), ← h]
            exact ⟨_, rfl⟩
          · rw [if_neg h0] at h
            rw [if_neg (fun hz => h0 ((signedChar_eq_zero c).mp hz))]
            obtain ⟨rest, hrest, hcs⟩ := Option.map_eq_some_iff.mp h
            obtain ⟨u, hu⟩ := ih (addr + 1)
              { k with machine := k.machine.touch (toUInt32 (toInt32 addr) / pageSize) false } rest
              (by rw [Machine.stringAt_touch]; exact hrest)
            rw [bind_eq_of_ok hu, ofNat_signedChar, ← hcs]
            exact ⟨u, rfl⟩

/-- **`User2System` delivers the string that is there, or none.** -/
theorem user2System_ok (addr limit : Int) (k : Kernel η) (cs : CString) :
    (∃ k', user2System addr limit k = .ok cs k') ↔
      0 ≤ toInt32 (limit + 1) ∧ k.machine.stringAt limit.toNat addr = some cs := by
  by_cases hsize : 0 ≤ toInt32 (limit + 1)
  · have hnew : newChar (toInt32 (limit + 1)) k = .ok () k := by
      unfold newChar assert
      rw [if_pos hsize]
      rfl
    rw [user2System, bind_eq_of_ok hnew]
    refine ⟨fun h => ⟨hsize, ?_⟩, fun h => user2SystemFrom_of_stringAt _ _ k cs h.2⟩
    obtain ⟨k', hk⟩ := h
    exact stringAt_of_user2SystemFrom _ _ k k' cs hk
  · refine ⟨fun h => ?_, fun h => absurd h.1 hsize⟩
    obtain ⟨k', hk⟩ := h
    obtain ⟨_, t, hnew, _⟩ := bind_ok hk
    unfold newChar assert at hnew
    rw [if_neg hsize] at hnew
    exact absurd hnew (by intro h; cases h)

/-- The same for a limit that `limit + 1` does not wrap for. -/
theorem user2System_iff {addr limit : Int} (h0 : 0 ≤ limit) (hmax : limit < intMax) (k : Kernel η)
    (cs : CString) :
    (∃ k', user2System addr limit k = .ok cs k') ↔
      k.machine.stringAt limit.toNat addr = some cs := by
  have hsize : 0 ≤ toInt32 (limit + 1) := by
    rw [toInt32_of_range (by omega) (by omega)]
    omega
  rw [user2System_ok]
  exact and_iff_right hsize

/-! ## The cases that may leave the switch -/

/-- The type and the slot for which `Open` breaks. -/
def OpenFails (type freeSlot : Int) : Prop :=
  type = inputType ∨ type = outputType ∨ freeSlot = -1

section Leaving

variable {g : ρ → ρ} (w : Watch f g) (H : HostOps η)

theorem any_exit {g : ρ → ρ} {x : Handler η Exit} (h : Ends f g (· = .ret) x) :
    Ends f g (fun _ => True) x := Ends.mono h fun _ _ => trivial

include w

theorem exits_fail : Ends f g (fun _ => True)
    (do writeRegister 2 (-1); leaveSwitch : Handler η Exit) :=
  .after (w.writeRegister _) fun _ => Ends.mono (ends_exit w .brk) fun _ _ => trivial

theorem returns_openSlot {type slot : Int} (h : ¬ OpenFails type slot) (fs : Uid) (name : CString) :
    Ends f g (· = .ret) (openSlot H fs name type slot) := by
  unfold OpenFails at h
  unfold openSlot
  rw [if_neg (by tauto), if_neg (by tauto), if_pos (by tauto)]
  refine Ends.after (w.onHost _) fun file => ?_
  cases file with
  | none => exact returns_leave w
  | some file => exact Ends.after (w.setFile _ _ _) fun _ => returns_leaveWith w _

theorem exits_openSlot (fs : Uid) (name : CString) (type slot : Int) :
    Ends f g (fun _ => True) (openSlot H fs name type slot) := by
  by_cases h : OpenFails type slot
  · unfold openSlot
    refine Ends.ite (Ends.after (w.writeRegister _) fun _ => exits_fail w) ?_
    refine Ends.ite (Ends.after (w.writeRegister _) fun _ => exits_fail w) ?_
    refine Ends.ite ?_ (exits_fail w)
    refine Ends.after (w.onHost _) fun file => ?_
    cases file with
    | none => exact any_exit (returns_leave w)
    | some file => exact Ends.after (w.setFile _ _ _) fun _ => any_exit (returns_leaveWith w _)
  · exact any_exit (returns_openSlot w H h fs name)

theorem exits_scOpen (fs : Uid) : Ends f g (fun _ => True) (scOpen H fs) := by
  refine Ends.after (keeps_readRegister 4) fun virAddr => ?_
  refine Ends.after (keeps_readRegister 5) fun type => ?_
  refine Ends.after (w.user2System _ _) fun fileName => ?_
  exact Ends.after Keeps.get fun _ => exits_openSlot w H _ _ _ _

theorem returns_closeSlot {id : Int} (h : 2 ≤ id ∧ id ≤ (maxFileOpen : Int) - 1) (fs : Uid) :
    Ends f g (· = .ret) (closeSlot H fs id) := by
  unfold closeSlot
  rw [if_pos h]
  refine Ends.after (keeps_fileAt _ _) fun file => ?_
  cases file with
  | none => exact returns_leaveWith w _
  | some file =>
      refine Ends.after (w.onHost _) fun _ => ?_
      exact Ends.after (w.setFile _ _ _) fun _ => returns_leaveWith w _

theorem exits_closeSlot (fs : Uid) (id : Int) : Ends f g (fun _ => True) (closeSlot H fs id) := by
  by_cases h : 2 ≤ id ∧ id ≤ (maxFileOpen : Int) - 1
  · exact any_exit (returns_closeSlot w H h fs)
  · unfold closeSlot
    rw [if_neg h]
    exact exits_fail w

theorem exits_scClose (fs : Uid) : Ends f g (fun _ => True) (scClose H fs) :=
  .after (keeps_readRegister 4) fun id => exits_closeSlot w H fs id

end Leaving

/-! ## The program counters -/

open Kernel (pcs)

/-- **`increasePC` goes one instruction further.** -/
theorem pcs_increasePC (k : Kernel η) :
    ∃ k', increasePC k = .ok () k' ∧ k'.pcs = k.pcs.advance := by
  refine ⟨_, rfl, ?_⟩
  have hne : (nextPCReg ≠ prevPCReg ∧ nextPCReg ≠ pcReg) ∧ pcReg ≠ prevPCReg := by decide
  have h8 : ∀ x : BitVec 32, x + 4 + 4 = x + 8 := by
    intro x
    rw [BitVec.add_assoc]; rfl
  simp only [pcs, PCs.advance, Machine.writeRegister, Machine.readRegister, Base.upd_apply, hne.2,
    hne.1.1.symm, hne.1.2.symm, hne.2.symm, if_true, if_false, h8]

theorem watch_pcs : Watch (η := η) pcs PCs.advance where
  congr := by
    intro k k' h
    simp only [pcs, Machine.readRegister, h]
  result := fun _ _ => rfl
  advance := by
    intro k k' h
    obtain ⟨k₁, hk₁, hadv⟩ := pcs_increasePC k
    rw [hk₁] at h
    injection h with _ h
    rw [← h, hadv]

/-- The exits with a `return`. -/
def Returns (x : Handler η Exit) : Prop := Ends pcs PCs.advance (· = .ret) x

/-- Any exit. -/
def Exits (x : Handler η Exit) : Prop := Ends pcs PCs.advance (fun _ => True) x

theorem Returns.not_brk {x : Handler η Exit} (h : Returns x) (k : Kernel η) :
    ¬ ∃ k', x k = .ok .brk k' := by
  intro hb
  obtain ⟨k', hk⟩ := hb
  exact absurd (h k .brk k' hk).2 (by decide)

variable (H : HostOps η)

theorem openSlot_brk (fs : Uid) (name : CString) (type slot : Int) (k : Kernel η) :
    (∃ k', openSlot H fs name type slot k = .ok .brk k') ↔ OpenFails type slot := by
  constructor
  · intro hb
    by_contra h
    exact Returns.not_brk (returns_openSlot watch_pcs H h fs name) k hb
  · intro h
    unfold openSlot
    by_cases hin : type = inputType
    · rw [if_pos hin]; exact ⟨_, rfl⟩
    by_cases hout : type = outputType
    · rw [if_neg hin, if_pos hout]; exact ⟨_, rfl⟩
    have hslot : slot = -1 := by
      rcases h with h | h | h
      · exact absurd h hin
      · exact absurd h hout
      · exact h
    rw [if_neg hin, if_neg hout, if_neg (by simpa using hslot)]
    exact ⟨_, rfl⟩

theorem scOpen_eq (fs : Uid) (k : Kernel η) :
    scOpen H fs k =
      (user2System (k.machine.readRegister 4).toInt 32 >>= fun name => get >>= fun t =>
        openSlot H fs name (k.machine.readRegister 5).toInt
          (FileSystem.findFreeSlot (t.fileTables fs))) k := rfl

/-- **When `Open` leaves the switch**: its name can be read, and then it fails. -/
theorem scOpen_brk (fs : Uid) (k : Kernel η) :
    (∃ k', scOpen H fs k = .ok .brk k') ↔
      (k.machine.stringAt 32 (k.machine.readRegister 4).toInt).isSome = true
        ∧ OpenFails (k.machine.readRegister 5).toInt
            (FileSystem.findFreeSlot (k.fileTables fs)) := by
  have hfiles : ∀ (t : Kernel η) (name : CString),
      user2System (k.machine.readRegister 4).toInt 32 k = .ok name t →
        t.fileTables = k.fileTables :=
    fun t name => keeps_user2System (f := Kernel.fileTables) (fun _ _ _ => rfl) _ _ k name t
  rw [scOpen_eq]
  constructor
  · intro hb
    obtain ⟨k', hk⟩ := hb
    obtain ⟨name, t, hname, ht⟩ := bind_ok hk
    rw [← hfiles t name hname]
    refine ⟨?_, (openSlot_brk H fs name _ _ t).mp ⟨k', ht⟩⟩
    have hstr := (user2System_iff (by decide) (by decide) k name).mp ⟨t, hname⟩
    exact Option.isSome_iff_exists.mpr ⟨name, hstr⟩
  · intro h
    obtain ⟨name, hname⟩ := Option.isSome_iff_exists.mp h.1
    obtain ⟨t, ht⟩ := (user2System_iff (show (0 : Int) ≤ 32 by decide) (by decide) k name).mpr hname
    rw [bind_eq_of_ok ht]
    rw [← hfiles t name ht] at h
    exact (openSlot_brk H fs name _ _ t).mpr h.2

/-- **When `Close` leaves the switch**: its id is outside the slots that files are kept in. -/
theorem scClose_brk (fs : Uid) (k : Kernel η) :
    (∃ k', scClose H fs k = .ok .brk k') ↔
      ¬ (2 ≤ (k.machine.readRegister 4).toInt
          ∧ (k.machine.readRegister 4).toInt ≤ (maxFileOpen : Int) - 1) := by
  have heq : scClose H fs k = closeSlot H fs (k.machine.readRegister 4).toInt k := rfl
  rw [heq]
  constructor
  · intro hb h
    exact Returns.not_brk (returns_closeSlot watch_pcs H h fs) k hb
  · intro h
    unfold closeSlot
    rw [if_neg h]
    exact ⟨_, rfl⟩

end Handler

/-! ## The dispatcher -/

namespace Syscall

open Handler

variable {η : Type} (H : HostOps η) (fs : Uid)

section Watch

variable {ρ : Type} {f : Kernel η → ρ} {g : ρ → ρ} (w : Watch f g)
include w

/-- The cases with a `break` among their exits are two. -/
theorem ends_body_ret {c : Syscall} (hopen : c ≠ .open_) (hclose : c ≠ .close) :
    Ends f g (· = .ret) (c.body H fs) := by
  cases c with
  | halt => intro k e k' h; exact absurd h (by intro h; cases h)
  | exit => exact returns_scExit w
  | exec => exact returns_scExec w H
  | join => exact returns_scJoin w
  | createFile => exact returns_scCreateFile w H
  | open_ => exact absurd rfl hopen
  | read => exact returns_scRead w H fs
  | write => exact returns_scWrite w H fs
  | seek => exact returns_scSeek w H fs
  | close => exact absurd rfl hclose
  | add => exact returns_scAdd w
  | readNum => exact returns_scReadNum w
  | randomNum => exact returns_scRandomNum w H
  | readChar => exact returns_scReadChar w
  | printChar => exact returns_scPrintChar w
  | printNum => exact returns_scPrintNum w
  | readString => exact returns_scReadString w
  | printString => exact returns_scPrintString w
  | createSemaphore => exact returns_scCreateSemaphore w
  | wait => exact returns_scWait w
  | signal => exact returns_scSignal w

theorem ends_body (c : Syscall) : Ends f g (fun _ => True) (c.body H fs) := by
  by_cases hopen : c = .open_
  · subst hopen; exact exits_scOpen w H fs
  by_cases hclose : c = .close
  · subst hclose; exact exits_scClose w H fs
  exact any_exit (ends_body_ret H fs w hopen hclose)

end Watch

theorem returns_body {c : Syscall} (hopen : c ≠ .open_) (hclose : c ≠ .close) :
    Returns (c.body H fs) := ends_body_ret H fs watch_pcs hopen hclose

/-- **Every exit of every case has advanced the program counters once.** -/
theorem exits_body (c : Syscall) : Exits (c.body H fs) := ends_body H fs watch_pcs c

end Syscall

namespace Kernel

variable {η : Type}

/-- What a system call owes its caller: it comes back one instruction further or not at all, and
does not run into the end of the function. -/
structure Robust (H : HostOps η) (k : Kernel η) : Prop where
  /-- The program counters have been advanced exactly once. -/
  advanced : ∀ k', exceptionHandler H .syscallException k = .returned k' →
    k'.machine.readRegister prevPCReg = k.machine.readRegister pcReg
      ∧ k'.machine.readRegister pcReg = k.machine.readRegister pcReg + 4
      ∧ k'.machine.readRegister nextPCReg = k.machine.readRegister pcReg + 8
  /-- `ASSERTNOTREACHED` is not reached. -/
  notReached : exceptionHandler H .syscallException k ≠ .notReached

/-- The calls that end in a `break`: `Open` of a readable name with one of the two console types
or with all slots in use, and `Close` of an id that is not one of the slots of files. -/
def LeavesSwitch (k : Kernel η) : Prop :=
  ∃ fs, k.fileSystem = some fs
    ∧ ((k.syscall = some .open_
          ∧ (k.machine.stringAt 32 (k.machine.readRegister 4).toInt).isSome = true
          ∧ Handler.OpenFails (k.machine.readRegister 5).toInt
              (FileSystem.findFreeSlot (k.fileTables fs)))
      ∨ (k.syscall = some .close
          ∧ ¬ (2 ≤ (k.machine.readRegister 4).toInt
              ∧ (k.machine.readRegister 4).toInt ≤ (maxFileOpen : Int) - 1)))

theorem dispatch_eq (H : HostOps η) {k : Kernel η} {fs : Uid} {c : Syscall}
    (hfs : k.fileSystem = some fs) (hc : k.syscall = some c) :
    dispatch H .syscallException k = c.body H fs k := by
  unfold dispatch
  rw [hfs, hc]

theorem notReached_iff (H : HostOps η) (k : Kernel η) :
    exceptionHandler H .syscallException k = .notReached ↔
      ∃ k', dispatch H .syscallException k = .ok .brk k' := by
  unfold exceptionHandler
  split
  · rename_i h; simp [h]
  · rename_i h; simp [h]
  · rename_i h; simp [h]

theorem returned_iff (H : HostOps η) (k k' : Kernel η) :
    exceptionHandler H .syscallException k = .returned k' ↔
      dispatch H .syscallException k = .ok .ret k' := by
  unfold exceptionHandler
  split
  · rename_i h; simp [h]
  · rename_i h; simp [h]
  · rename_i h; simp [h]

theorem body_brk (H : HostOps η) {k : Kernel η} {fs : Uid} {c : Syscall}
    (hfs : k.fileSystem = some fs) (hc : k.syscall = some c) :
    (∃ k', c.body H fs k = .ok .brk k') ↔ k.LeavesSwitch := by
  unfold LeavesSwitch
  rw [hc]
  constructor
  · intro hb
    refine ⟨fs, hfs, ?_⟩
    by_cases hopen : c = .open_
    · subst hopen
      exact Or.inl ⟨rfl, (Handler.scOpen_brk H fs k).mp hb⟩
    by_cases hclose : c = .close
    · subst hclose
      exact Or.inr ⟨rfl, (Handler.scClose_brk H fs k).mp hb⟩
    exact absurd hb ((Syscall.returns_body H fs hopen hclose).not_brk k)
  · intro h
    obtain ⟨fs', hfs', h⟩ := h
    have hfs'' : fs' = fs := by rw [hfs] at hfs'; exact (Option.some.inj hfs').symm
    subst hfs''
    rcases h with ⟨hcode, h⟩ | ⟨hcode, h⟩
    · have hc' : c = .open_ := Option.some.inj hcode
      subst hc'
      exact (Handler.scOpen_brk H fs' k).mpr h
    · have hc' : c = .close := Option.some.inj hcode
      subst hc'
      exact (Handler.scClose_brk H fs' k).mpr h

/-- **A system call is robust exactly when it does not leave the switch.** -/
theorem syscall_robust_iff (H : HostOps η) (k : Kernel η) (c : Syscall) (hc : k.syscall = some c) :
    Robust H k ↔ ¬ k.LeavesSwitch := by
  cases hfs : k.fileSystem with
  | none =>
      -- the caller has no PCB: nothing is handled at all
      have hd : dispatch H .syscallException k = .error .crashed k := by
        unfold dispatch
        rw [hfs]
      refine ⟨fun _ h => ?_, fun _ => ⟨fun k' hk => ?_, fun hn => ?_⟩⟩
      · obtain ⟨fs, hfs', _⟩ := h
        rw [hfs] at hfs'
        exact absurd hfs' (by simp)
      · rw [returned_iff, hd] at hk
        exact absurd hk (by simp)
      · obtain ⟨k', hk⟩ := (notReached_iff H k).mp hn
        rw [hd] at hk
        exact absurd hk (by simp)
  | some fs =>
      have hd := dispatch_eq H hfs hc
      constructor
      · intro hr hl
        refine hr.notReached ((notReached_iff H k).mpr ?_)
        rw [hd]
        exact (body_brk H hfs hc).mpr hl
      · intro hl
        refine ⟨fun k' hk => ?_, fun hn => hl ?_⟩
        · rw [returned_iff, hd] at hk
          have hadv := (Syscall.exits_body H fs c k .ret k' hk).1
          injection hadv with h1 h2 h3
          exact ⟨h1, h2, h3⟩
        · rw [notReached_iff, hd] at hn
          exact (body_brk H hfs hc).mp hn

/-! ## The registers that the handler leaves alone -/

/-- The registers that `ExceptionHandler` writes: the result and the program counters. -/
def handlerWrites (n : Nat) : Bool := n == 2 || n == prevPCReg || n == pcReg || n == nextPCReg

/-- The other registers. -/
def otherRegisters (k : Kernel η) : Nat → BitVec 32 := fun n =>
  if handlerWrites n then 0#32 else k.machine.registers n

theorem otherRegisters_upd (k : Kernel η) {num : Nat} (h : handlerWrites num = true)
    (value : BitVec 32) :
    otherRegisters { k with machine := k.machine.writeRegister num value } = otherRegisters k := by
  funext n
  unfold otherRegisters
  split
  · rfl
  · rename_i hn
    exact Base.upd_ne _ _ fun he => hn (he ▸ h)

theorem watch_otherRegisters : Handler.Watch (η := η) otherRegisters id where
  congr := by
    intro k k' h
    unfold otherRegisters
    rw [h]
  result := fun k value => otherRegisters_upd k rfl value
  advance := by
    intro k k' h
    injection h with _ h
    rw [← h]
    refine (otherRegisters_upd { k with machine := _ } rfl _).trans ?_
    refine (otherRegisters_upd { k with machine := _ } rfl _).trans ?_
    exact otherRegisters_upd k rfl _

theorem dispatch_otherRegisters (H : HostOps η) {which : ExceptionType} {k k' : Kernel η} {e : Exit}
    (h : dispatch H which k = .ok e k') : otherRegisters k' = otherRegisters k := by
  unfold dispatch at h
  split at h
  · exact absurd h (by simp)
  · split at h
    · injection h with _ h
      rw [h]
    · split at h
      · exact (Syscall.ends_body H _ watch_otherRegisters _ k e k' h).1
      · injection h with _ h
        rw [h]
    · exact absurd h (Handler.fault_ne_ok _ _ _ _)

/-- **`ExceptionHandler` writes no other register.** -/
theorem exceptionHandler_registers (H : HostOps η) {which : ExceptionType} {k k' : Kernel η}
    (h : exceptionHandler H which k = .returned k') {n : Nat} (hn : handlerWrites n = false) :
    k'.machine.registers n = k.machine.registers n := by
  unfold exceptionHandler at h
  split at h
  · rename_i k₁ hd
    injection h with h
    subst h
    have hother := congrFun (dispatch_otherRegisters H hd) n
    unfold otherRegisters at hother
    rwa [hn] at hother
  · exact absurd h (by simp)
  · exact absurd h (by simp)

/-- A host that refuses whatever it is asked. -/
def bareHost : HostOps Unit where
  open_ := fun _ _ h => (-1, h)
  close := fun _ h => (-1, h)
  read := fun _ _ h => ((-1, []), h)
  write := fun _ _ _ h => (-1, h)
  lseek := fun _ _ _ h => (-1, h)
  rand := fun h => (0, h)
  unset := fun _ => 0

/-- The initial process, which has only the console open, calls `Close(id)`. -/
def closing (id : BitVec 32) : Kernel Unit where
  machine :=
    { registers := fun r => if r = 2 then 10#32 else if r = 4 then id else 0#32
      mainMemory := fun _ => 0
      pageTable := fun _ => ⟨0, 0, false, false, false, false⟩
      pageTableSize := 0 }
  currentThread := 0
  fileTables := fun _ i =>
    if i = 0 then some ⟨4, 0, outputType⟩ else if i = 1 then some ⟨3, 0, inputType⟩ else none
  host := ()
  input := []
  printed := []
  pTab := PState.boot PState.stackOnly
  pTabRun := []
  sTab := ⟨STable.new, fun _ => .out none⟩
  sTabRun := []
  display := ConsoleState.start
  displayRun := []

/-- `Close(5)` is an error of the caller, and the caller hears about it. -/
theorem close_unused_robust : (closing 5#32).syscall = some .close ∧
    Robust bareHost (closing 5#32) := by
  refine ⟨by decide, (syscall_robust_iff bareHost (closing 5#32) .close (by decide)).mpr ?_⟩
  intro h
  obtain ⟨fs, _, hopen | hclose⟩ := h
  · exact absurd hopen.1 (by decide)
  · exact absurd (by decide) hclose.2

/-- `Close(-1)`, as after a failed `Open`, takes the whole kernel down. -/
theorem close_negative_not_robust :
    ¬ ∀ (η : Type) (H : HostOps η) (k : Kernel η) (c : Syscall),
      k.syscall = some c → c ≠ .halt → Robust H k := by
  intro h
  have hr := h Unit bareHost (closing (BitVec.ofInt 32 (-1))) .close (by decide) (by decide)
  exact hr.notReached rfl

end Kernel

end Nachos
