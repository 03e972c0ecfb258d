import Nachos.Proof.Dispatch

/-!
# `Write` and the processes

The case of `Write` has no `return` at its end, and what follows is the case of `Join`,
which takes the address of the buffer for the id of a process. Control gets there in two
ways: the file is one for reading and writing and has taken nothing, or it is of none of
the types that the case knows.

In the first way the -2 in register 2 is overwritten, whatever `Join` answers. In the
second all is well as long as `Join` refuses the address, which it does when that is not
the id of a child of the caller. Otherwise the caller waits for the exit of that child.
-/

namespace Nachos

open Base (Keeps SafeAt bind_ok bind_eq_of_ok upd)

namespace PState

/-- The table itself: `bm`, `pcb[]`, the PCBs and the semaphores. -/
def contents (s : PState) : Bitmap × (Nat → Option Uid) × (Uid → PCB) × (SemRef → Semaphore) :=
  (s.bm, s.pcb, s.obj, s.sem)

/-- The checks of `JoinUpdate` turn process `u` away. -/
def refusesJoin (s : PState) (u : Uid) (pID : Int) : Bool :=
  !s.isExist pID || decide (((s.obj u).pid : Int) = pID)
    || (s.slot pID).any fun g => decide (((s.obj u).pid : Int) ≠ (s.obj g).parentID)

/-- Turned away, the process is back at once. -/
theorem joinUpdate_refused {s : PState} {u : Uid} {pID : Int} (h : s.refusesJoin u pID = true) :
    s.joinUpdate u pID = s.goto u (.user (some (-1))) := by
  unfold joinUpdate
  by_cases hex : s.isExist pID = false
  · rw [if_pos hex]
  · rw [if_neg hex]
    by_cases hme : ((s.obj u).pid : Int) = pID
    · rw [if_pos hme]
    · rw [if_neg hme]
      rw [refusesJoin, Bool.not_eq_false] at *
      rw [hex, decide_eq_false hme] at h
      cases hg : s.slot pID with
      | none => rw [hg] at h; exact absurd h (by simp)
      | some g =>
          rw [hg] at h
          have hp : ((s.obj u).pid : Int) ≠ (s.obj g).parentID := by simpa using h
          exact if_pos hp

/-- Otherwise it has a way to go, or the kernel has followed a null pointer. -/
theorem joinUpdate_accepted {s : PState} {u : Uid} {pID : Int} (h : s.refusesJoin u pID = false) :
    s.joinUpdate u pID = s.stop .crashed ∨
      ∃ g o, s.joinUpdate u pID =
        { s.goto u (.joinInc pID.toNat g o) with joined := upd s.joined g true } := by
  simp only [refusesJoin, Bool.or_eq_false_iff, Bool.not_eq_eq_eq_not, Bool.not_false,
    decide_eq_false_iff_not] at h
  obtain ⟨⟨hex, hme⟩, hp⟩ := h
  unfold joinUpdate
  rw [if_neg (by simp [hex]), if_neg hme]
  cases hg : s.slot pID with
  | none => exact Or.inl rfl
  | some g =>
      rw [hg] at hp
      have hp' : ¬ ((s.obj u).pid : Int) ≠ (s.obj g).parentID := by simpa using hp
      show (if _ then _ else _) = _ ∨ _
      rw [if_neg hp']
      cases ho : s.slot (s.obj g).parentID with
      | none => exact Or.inl rfl
      | some o =>
          refine Or.inr ⟨g, o, ?_⟩
          dsimp only
          rw [if_neg hp', ho]

end PState

namespace Kernel

variable {η : Type}

/-- What `Join` depends on and what it may change. -/
def processes (k : Kernel η) : PState × List (Uid × Act) × Uid × BitVec 32 :=
  (k.pTab, k.pTabRun, k.currentThread, k.machine.readRegister 4)

/-- The caller runs in user mode when it makes the call. -/
def Calling (k : Kernel η) : Prop :=
  k.pTab.status = .running ∧ ∃ ret, k.pTab.pc k.currentThread = .user ret

/-- The same state with another future for the processes. -/
def withRun (k : Kernel η) (run : List (Uid × Act)) : Kernel η := { k with pTabRun := run }

end Kernel

namespace Handler

variable {η : Type} (H : HostOps η)

/-! ## When control runs on -/

/-- The call gets to the end of the case of `Write`, with `file` the one it is about: the id is
that of a file, the file is not one for reading only, the buffer can be brought to the
kernel, and a file for reading and writing takes what there is, which is nothing. -/
structure RunsOn (fs : Uid) (k : Kernel η) (file : OpenFile) : Prop where
  id : 2 ≤ (k.machine.readRegister 6).toInt ∧ (k.machine.readRegister 6).toInt ≤ maxFileOpen
  opened : k.fileTables fs (k.machine.readRegister 6).toInt.toNat = some file
  writable : file.type ≠ readonlyType
  size : 0 ≤ toInt32 ((k.machine.readRegister 5).toInt + 1)
  text : (k.machine.stringAt (k.machine.readRegister 5).toInt.toNat
    (k.machine.readRegister 4).toInt).isSome = true
  nothing : file.type = readwriteType → (k.machine.readRegister 5).toInt ≤ 0 ∧
    ∃ r h, (file.getCurrentOffset H >>= fun p =>
      p.2.write H [0] (k.machine.readRegister 5).toInt) k.host = .ok r h

/-- What is left of `Write` once the file is known to be writable. -/
def writeFileCase (fs : Uid) (virAddr charcount id : Int) (file : OpenFile) : Handler η Exit := do
  let p ← onHost (file.getCurrentOffset H)
  setFile fs id (some p.2)
  let buffer ← user2System virAddr charcount
  if id = indexStdout then
    callDisplay (.writeStdout buffer)
    leaveWith ((buffer.length : Int) - 1)
  else
    writeToFile H fs (buffer ++ List.replicate (charcount.toNat + 1 - buffer.length) 0) charcount id
      p.2 p.1

theorem scWrite_eq (fs : Uid) (k : Kernel η) :
    scWrite H fs k =
      (if (k.machine.readRegister 6).toInt < 0 ∨ (k.machine.readRegister 6).toInt > maxFileOpen then
        leaveSaying "\nInvalid file id." (-1)
      else
        match k.fileTables fs (k.machine.readRegister 6).toInt.toNat with
        | none => leaveSaying "\nFile does not exist in file table" (-1)
        | some file =>
            if file.type = readonlyType ∨ (k.machine.readRegister 6).toInt = indexStdin then
              leaveSaying "\nCan't write in file stdin or file only read." (-1)
            else
              writeFileCase H fs (k.machine.readRegister 4).toInt (k.machine.readRegister 5).toInt
                (k.machine.readRegister 6).toInt file) k := by
  have hread : ∀ num, readRegister num k = .ok (k.machine.readRegister num).toInt k := fun _ => rfl
  rw [scWrite, bind_eq_of_ok (hread 4), bind_eq_of_ok (hread 5), bind_eq_of_ok (hread 6)]
  split
  · rfl
  · have hat : fileAt fs (k.machine.readRegister 6).toInt k =
        .ok (k.fileTables fs (k.machine.readRegister 6).toInt.toNat) k := rfl
    rw [bind_eq_of_ok hat]
    rfl

/-! ## The host only aborts -/

theorem host_assert {c : Prop} [Decidable c] (h : η) :
    SafeAt (fun _ => ()) (· = Stop.aborted) (assert c : HostM η Unit) h :=
  .ite (fun _ => .of_ok rfl rfl) (fun _ => .of_error rfl rfl rfl)

theorem host_getCurrentOffset (file : OpenFile) (h : η) :
    SafeAt (fun _ => ()) (· = Stop.aborted) (file.getCurrentOffset H) h :=
  .of_ok rfl rfl

theorem host_write (file : OpenFile) (buffer : List UInt8) (n : Int) (h : η) :
    SafeAt (fun _ => ()) (· = Stop.aborted) (file.write H buffer n) h := by
  refine .bind (.bind (.bind (.of_ok rfl rfl) fun _ t _ => host_assert t) fun _ t _ => ?_)
    fun _ t _ => .of_ok rfl rfl
  exact .bind (.bind (.of_ok rfl rfl) fun _ t _ => host_assert t) fun _ t _ => .of_ok rfl rfl

theorem onHost_ok {α : Type} {x : HostM η α} {k k' : Kernel η} {a : α} (h : onHost x k = .ok a k') :
    x k.host = .ok a k'.host := by
  unfold onHost at h
  split at h
  · rename_i hx
    injection h with h1 h2
    rw [hx, ← h1, ← h2]
  · exact absurd h (by simp)

theorem onHost_rest {α : Type} {x : HostM η α} {k k' : Kernel η} {a : α}
    (h : onHost x k = .ok a k') : k' = { k with host := k'.host } := by
  unfold onHost at h
  split at h
  · injection h with _ h
    rw [← h]
  · exact absurd h (by simp)

/-- A write that comes back has taken all of it. -/
theorem write_fst {file : OpenFile} {buffer : List UInt8} {n : Int} {h h' : η} {r : Int × OpenFile}
    (hr : file.write H buffer n h = .ok r h') : r.1 = n := by
  obtain ⟨w, t, hw, hp⟩ := bind_ok hr
  obtain ⟨_, _, _, hw⟩ := bind_ok hw
  obtain ⟨_, _, _, hw⟩ := bind_ok hw
  injection hw with hw _
  injection hp with hp _
  rw [← hp, ← hw]

/-! ## What does not concern the processes -/

open Kernel (processes)

section Safe

variable {E : Stop → Prop} {k : Kernel η}

theorem safe_leaveWith (result : Int) : SafeAt processes E (leaveWith result) k := .of_ok rfl rfl

theorem safe_leaveSaying (t : String) (result : Int) :
    SafeAt processes E (leaveSaying t result) k := .of_ok rfl rfl

theorem safe_setFile (fs : Uid) (id : Int) (file : Option OpenFile) :
    SafeAt processes E (setFile fs id file) k := .of_ok rfl rfl

theorem safe_callDisplay (c : ConsoleCall) (ha : E .aborted) (hb : E .blocked) :
    SafeAt processes E (callDisplay c) k := by
  have hcall : callDisplay c k = resume (fun s run => { k with display := s, displayRun := run }) k
      (ConsoleState.sys.await (backFromDisplay k.currentThread)
        ((ConsoleState.step k.display (.call k.currentThread c)).getD k.display) k.displayRun) :=
        rfl
  -- the display does not come back, or comes back with an answer, or has failed
  cases hr : ConsoleState.sys.await (backFromDisplay k.currentThread)
      ((ConsoleState.step k.display (.call k.currentThread c)).getD k.display) k.displayRun with
  | none => exact .of_error (by rw [hcall, hr]; rfl) rfl hb
  | some p =>
      obtain ⟨answer, s, run⟩ := p
      have hback := Base.System.await_back _ hr
      cases answer with
      | ok a =>
          exact .of_ok (t := { k with display := s, displayRun := run })
            (by rw [hcall, hr]; rfl) rfl
      | error e =>
          refine .of_error (e := e) (t := { k with display := s, displayRun := run })
            (by rw [hcall, hr]; rfl) rfl ?_
          unfold backFromDisplay at hback
          split at hback
          · cases hback
            exact ha
          · split at hback
            · cases hback
            · cases hback

variable (ha : E .aborted)
include ha

theorem safe_onHost {α : Type} {x : HostM η α}
    (hx : SafeAt (fun _ => ()) (· = Stop.aborted) x k.host) : SafeAt processes E (onHost x) k := by
  cases hr : x k.host with
  | ok a h => exact .of_ok (t := { k with host := h }) (by unfold onHost; rw [hr]) rfl
  | error e h =>
      refine .of_error (e := e) (t := { k with host := h }) (by unfold onHost; rw [hr]) rfl ?_
      rw [(hx.error hr).2]
      exact ha

variable (hh : E .halted)
include hh

theorem safe_readMem (addr : Int) : SafeAt processes E (readMem addr) k := by
  unfold SafeAt readMem
  split
  · rename_i h
    split at h
    · exact absurd h (by simp)
    · exact absurd h (fault_ne_ok _ _ _ _)
    · rename_i hr
      injection h with _ h
      rw [← h]
      simp only [processes, Machine.readRegister, Machine.readMem_registers hr]
  · rename_i h
    split at h
    · injection h with h1 h2
      rw [← h1, ← h2]
      exact ⟨rfl, ha⟩
    · injection h with h1 h2
      rw [← h1, ← h2]
      exact ⟨rfl, hh⟩
    · exact absurd h (by simp)

theorem safe_user2SystemFrom : ∀ (n : Nat) (addr : Int) {k : Kernel η},
    SafeAt processes E (user2SystemFrom n addr) k := by
  intro n
  induction n with
  | zero => intro _ _; exact .pure _
  | succ n ih =>
      intro addr k
      rw [user2SystemFrom]
      refine .bind (safe_readMem ha hh _) fun oneChar t _ => ?_
      refine .ite (fun _ => .pure _) fun _ => ?_
      exact .bind (ih _) fun rest t _ => .pure _

theorem safe_user2System (addr limit : Int) : SafeAt processes E (user2System addr limit) k :=
  .bind (.ite (fun _ => .pure _) fun _ => .of_error rfl rfl ha) fun _ _ _ =>
    safe_user2SystemFrom ha hh _ _

end Safe

/-! ## The two ways through the case -/

/-- The buffer of a write of nothing. -/
theorem stringAt_nothing {k : Kernel η} {n : Int} (hn : n ≤ 0) {addr : Int} {cs : CString}
    (h : k.machine.stringAt n.toNat addr = some cs) : cs = [] ∧ n.toNat = 0 := by
  have h0 : n.toNat = 0 := by omega
  rw [h0, Machine.stringAt] at h
  exact ⟨(Option.some.inj h).symm, h0⟩

/-- **The call runs on into `Join`**, which finds the processes as they were. -/
theorem RunsOn.join {H : HostOps η} {fs : Uid} {k : Kernel η} {file : OpenFile}
    (h : RunsOn H fs k file) :
    ∃ k₁, processes k₁ = processes k ∧ scWrite H fs k = scJoin k₁ := by
  obtain ⟨cs, hcs⟩ := Option.isSome_iff_exists.mp h.text
  have hid := h.id
  -- up to the buffer
  let p := (H.lseek file.file 0 .cur k.host).1
  let host := (H.lseek file.file 0 .cur k.host).2
  let told : OpenFile := { file with currentOffset := p }
  let id := (k.machine.readRegister 6).toInt
  let k₁ : Kernel η :=
    { k with host := host
             fileTables := upd k.fileTables fs (upd (k.fileTables fs) id.toNat (some told)) }
  obtain ⟨k₂, hk₂⟩ := (user2System_ok _ _ k₁ cs).mpr ⟨h.size, hcs⟩
  have hproc : processes k₂ = processes k₁ :=
    (safe_user2System (E := fun _ => True) trivial trivial _ _).ok hk₂
  have hhost : k₂.host = host :=
    keeps_user2System (f := Kernel.host) (fun _ _ _ => rfl) _ _ k₁ cs k₂ hk₂
  have hcase : scWrite H fs k =
      writeToFile H fs
        (cs ++ List.replicate ((k.machine.readRegister 5).toInt.toNat + 1 - cs.length) 0)
        (k.machine.readRegister 5).toInt id told p k₂ := by
    rw [scWrite_eq, if_neg (by omega), h.opened]
    dsimp only
    rw [if_neg (by
      rintro (h1 | h1)
      · exact h.writable h1
      · simp only [indexStdin] at h1; omega)]
    unfold writeFileCase
    have hoff : onHost (file.getCurrentOffset H) k = .ok (p, told) { k with host := host } := rfl
    have hset : setFile fs id (some told) { k with host := host } = .ok () k₁ := rfl
    rw [bind_eq_of_ok hoff, bind_eq_of_ok hset, bind_eq_of_ok hk₂,
      if_neg (by simp only [indexStdout]; omega)]
  rw [hcase]
  unfold writeToFile
  by_cases ht : told.type = readwriteType
  · -- nothing is written
    obtain ⟨hn, r, h', hw⟩ := h.nothing ht
    obtain ⟨hnil, h0⟩ := stringAt_nothing hn hcs
    have hw' : told.write H [0] (k.machine.readRegister 5).toInt k₂.host = .ok r h' := by
      rw [hhost]
      exact hw
    have hbuf :
        cs ++ List.replicate ((k.machine.readRegister 5).toInt.toNat + 1 - cs.length) 0 = [0] := by
      rw [hnil, h0]
      rfl
    have hon : onHost (told.write H [0] (k.machine.readRegister 5).toInt) k₂ =
        .ok r { k₂ with host := h' } := by
      unfold onHost
      rw [hw']
    have hr : ¬ r.1 > 0 := by
      rw [write_fst H hw]
      omega
    rw [if_pos ht, hbuf, bind_eq_of_ok hon]
    have hset : setFile fs id (some r.2) { k₂ with host := h' } = .ok () _ := rfl
    rw [bind_eq_of_ok hset, if_neg hr]
    have hreg : ∀ t : Kernel η, writeRegister 2 (-2) t = .ok () _ := fun _ => rfl
    rw [bind_eq_of_ok (hreg _)]
    refine ⟨_, ?_, rfl⟩
    exact hproc
  · -- a type that the case does not know: it does nothing at all
    rw [if_neg ht]
    exact ⟨k₂, hproc, rfl⟩

/-- The reasons for which a call with this id may stop: a fault, an assertion about the host, or
the display. -/
def Stops (id : Int) (e : Stop) : Prop := e ≠ .crashed ∧ (e = .blocked → id = indexStdout)

theorem stops_aborted (id : Int) : Stops id .aborted := ⟨by simp, by simp⟩

theorem stops_halted (id : Int) : Stops id .halted := ⟨by simp, by simp⟩

/-- **A call that does not run on has nothing to do with the processes.** -/
theorem safe_of_not_runsOn {fs : Uid} {k : Kernel η} (h : ∀ file, ¬ RunsOn H fs k file) :
    SafeAt processes (Stops (k.machine.readRegister 6).toInt) (scWrite H fs) k := by
  have ha := stops_aborted (k.machine.readRegister 6).toInt
  have hh := stops_halted (k.machine.readRegister 6).toInt
  unfold SafeAt
  rw [scWrite_eq]
  refine SafeAt.ite (fun _ => safe_leaveSaying _ _) fun hid => ?_
  cases hopen : k.fileTables fs (k.machine.readRegister 6).toInt.toNat with
  | none => exact safe_leaveSaying _ _
  | some file =>
      refine SafeAt.ite (fun _ => safe_leaveSaying _ _) fun hwritable => ?_
      have hwritable' := not_or.mp hwritable
      unfold writeFileCase
      refine .bind (safe_onHost ha (host_getCurrentOffset H file _)) fun p k₁ hp => ?_
      refine .bind (safe_setFile _ _ _) fun _ k₂ hset => ?_
      refine .bind (safe_user2System ha hh _ _) fun cs k₃ hcs => ?_
      refine SafeAt.ite (fun hout => ?_) fun hout => ?_
      · exact .bind (safe_callDisplay _ ha ⟨by simp, fun _ => hout⟩) fun _ _ _ => safe_leaveWith _
      · -- the machine of `k₂` is that of `k`
        cases hp
        cases hset
        obtain ⟨hsize, htext⟩ := (user2System_ok _ _ _ cs).mp ⟨k₃, hcs⟩
        have hhost := keeps_user2System (f := Kernel.host) (fun _ _ _ => rfl) _ _ _ cs k₃ hcs
        have hrun : ∀ hnothing, RunsOn H fs k file := fun hnothing =>
          { id := by simp only [indexStdin, indexStdout] at *; omega
            opened := hopen
            writable := hwritable'.1
            size := hsize
            text := Option.isSome_iff_exists.mpr ⟨cs, htext⟩
            nothing := hnothing }
        unfold writeToFile
        refine SafeAt.ite (fun ht => ?_) fun ht => ?_
        · refine .bind (safe_onHost ha (host_write H _ _ _ _)) fun w k₄ hw => ?_
          refine .bind (safe_setFile _ _ _) fun _ k₅ _ => ?_
          refine SafeAt.ite (fun _ => ?_) fun hpos => ?_
          · refine .bind (safe_onHost ha (host_getCurrentOffset H _ _)) fun _ _ _ => ?_
            exact .bind (safe_setFile _ _ _) fun _ _ _ => safe_leaveWith _
          · -- it has taken nothing
            have hwrite := onHost_ok hw
            rw [write_fst H hwrite] at hpos
            obtain ⟨hnil, h0⟩ := stringAt_nothing (Int.not_lt.mp hpos) htext
            rw [hnil, h0, hhost] at hwrite
            exact absurd (hrun fun _ => ⟨Int.not_lt.mp hpos, w, k₄.host, hwrite⟩) (h file)
        · -- of a type that the case does not know
          exact absurd (hrun fun ht' => absurd ht' ht) (h file)

/-! ## What `Join` makes of it -/

/-- A process in user mode gets as far as the checks. -/
theorem step_join {k : Kernel η} (hk : k.Calling) (pID : Int) :
    PState.step k.pTab (k.currentThread, .join pID) =
      some (k.pTab.joinUpdate k.currentThread pID) := by
  obtain ⟨hrun, ret, hret⟩ := hk
  unfold PState.step
  rw [if_neg (by simp [hrun])]
  simp only [hret, PC.waits, PC.posts, PState.advance]

theorem joinUpdate_eq {k : Kernel η} (hk : k.Calling) (pID : Int) :
    joinUpdate pID k = resume (fun s run => { k with pTab := s, pTabRun := run }) k
      (PState.sys.await (backFromPTab k.currentThread) (k.pTab.joinUpdate k.currentThread pID)
        k.pTabRun) := by
  have h : ((PState.step k.pTab (k.currentThread, .join pID)).getD k.pTab) =
      k.pTab.joinUpdate k.currentThread pID := by rw [step_join hk]; rfl
  rw [← h]
  rfl

/-- **Turned away, the call returns -1** and leaves the table as it was. -/
theorem scJoin_refused {k : Kernel η} (hk : k.Calling)
    (h : k.pTab.refusesJoin k.currentThread (k.machine.readRegister 4).toInt = true) :
    ∃ k', scJoin k = .ok .ret k' ∧ k'.pTab.contents = k.pTab.contents
      ∧ (k'.machine.readRegister 2).toInt = -1 := by
  have hback : backFromPTab k.currentThread (k.pTab.joinUpdate k.currentThread
      (k.machine.readRegister 4).toInt) = some (.ok (-1)) := by
    rw [PState.joinUpdate_refused h]
    unfold backFromPTab PState.goto
    simp only [hk.1, Base.upd_self]
    rfl
  have hjoin := joinUpdate_eq hk (k.machine.readRegister 4).toInt
  rw [Base.System.await_now hback] at hjoin
  have hread : readRegister 4 k = .ok (k.machine.readRegister 4).toInt k := rfl
  rw [scJoin, bind_eq_of_ok hread, bind_eq_of_ok hjoin]
  refine ⟨_, rfl, ?_, by rfl⟩
  show (k.pTab.joinUpdate k.currentThread (k.machine.readRegister 4).toInt).contents = _
  rw [PState.joinUpdate_refused h]
  rfl

/-- **Accepted, it is not back** as long as nobody else moves. -/
theorem scJoin_accepted {k : Kernel η} (hk : k.Calling) (hrun : k.pTabRun = [])
    (h : k.pTab.refusesJoin k.currentThread (k.machine.readRegister 4).toInt = false) :
    ∃ e k', scJoin k = .error e k' ∧ (e = .crashed ∨ e = .blocked) := by
  have hjoin := joinUpdate_eq hk (k.machine.readRegister 4).toInt
  rw [hrun] at hjoin
  have hstop : ∃ e k', joinUpdate (k.machine.readRegister 4).toInt k = .error e k' ∧
      (e = .crashed ∨ e = .blocked) := by
    rcases PState.joinUpdate_accepted h with hc | ⟨g, o, hc⟩
    · rw [hc] at hjoin
      exact ⟨_, _, hjoin, Or.inl rfl⟩
    · have hback : backFromPTab k.currentThread (k.pTab.joinUpdate k.currentThread
          (k.machine.readRegister 4).toInt) = none := by
        rw [hc]
        unfold backFromPTab PState.goto
        simp only [hk.1, Base.upd_self]
      rw [Base.System.await, hback] at hjoin
      exact ⟨_, _, hjoin, Or.inr rfl⟩
  obtain ⟨e, k', he, hor⟩ := hstop
  refine ⟨e, k', ?_, hor⟩
  have hread : readRegister 4 k = .ok (k.machine.readRegister 4).toInt k := rfl
  rw [scJoin, bind_eq_of_ok hread]
  exact Base.bind_eq_of_error he

/-! ## The call as a whole -/

/-- **What `Write` owes to the processes**, whatever they do meanwhile: the table is as it was, the
caller does not wait for one of them, and a file for reading and writing that has taken nothing
is reported with -2. -/
structure LeavesAlone (fs : Uid) (k : Kernel η) : Prop where
  table : ∀ run, SafeAt (fun k => k.pTab.contents) (Stops (k.machine.readRegister 6).toInt)
    (scWrite H fs) (k.withRun run)
  nothing : ∀ run file, RunsOn H fs k file → file.type = readwriteType →
    ∃ k', scWrite H fs (k.withRun run) = .ok .ret k' ∧ (k'.machine.readRegister 2).toInt = -2

theorem RunsOn.withRun {H : HostOps η} {fs : Uid} {k : Kernel η} {file : OpenFile}
    (run : List (Uid × Act)) (h : RunsOn H fs k file) : RunsOn H fs (k.withRun run) file :=
  ⟨h.id, h.opened, h.writable, h.size, h.text, h.nothing⟩

theorem RunsOn.of_withRun {H : HostOps η} {fs : Uid} {k : Kernel η} {file : OpenFile}
    {run : List (Uid × Act)} (h : RunsOn H fs (k.withRun run) file) : RunsOn H fs k file :=
  ⟨h.id, h.opened, h.writable, h.size, h.text, h.nothing⟩

theorem Calling.of_processes {k k₁ : Kernel η} {run : List (Uid × Act)} (hk : k.Calling)
    (h : processes k₁ = processes (k.withRun run)) :
    k₁.Calling ∧ k₁.pTab = k.pTab ∧ k₁.pTabRun = run ∧
      k₁.pTab.refusesJoin k₁.currentThread (k₁.machine.readRegister 4).toInt =
        k.pTab.refusesJoin k.currentThread (k.machine.readRegister 4).toInt := by
  injection h with h1 h
  injection h with h2 h
  injection h with h3 h4
  refine ⟨?_, h1, h2, by rw [h1, h3, h4]; rfl⟩
  unfold Kernel.Calling
  rw [h1, h3]
  exact hk

/-- **Running on breaks the promise** when the file was to be reported, or `Join` accepts. -/
theorem RunsOn.not_leaves_alone {H : HostOps η} {fs : Uid} {k : Kernel η} {file : OpenFile}
    (hk : k.Calling) (hrun : RunsOn H fs k file)
    (hor : file.type = readwriteType ∨
      k.pTab.refusesJoin k.currentThread (k.machine.readRegister 4).toInt = false) :
    ¬ LeavesAlone H fs k := by
  intro h
  obtain ⟨k₁, hproc, hjoin⟩ := (hrun.withRun []).join
  obtain ⟨hk₁, _, hnil, hsame⟩ := Calling.of_processes hk hproc
  cases href : k.pTab.refusesJoin k.currentThread (k.machine.readRegister 4).toInt with
  | false =>
      -- the caller waits
      obtain ⟨e, k', he, hor'⟩ := scJoin_accepted hk₁ hnil (hsame.trans href)
      have hstop := ((h.table []).error (hjoin.trans he)).2
      rcases hor' with rfl | rfl
      · exact hstop.1 rfl
      · have hout := hstop.2 rfl
        have := hrun.id
        simp only [indexStdout] at hout
        omega
  | true =>
      -- it is back with -1
      have ht : file.type = readwriteType := by
        rcases hor with ht | ht
        · exact ht
        · rw [href] at ht
          exact absurd ht (by simp)
      obtain ⟨k', hk', _, hr2⟩ := scJoin_refused hk₁ (hsame.trans href)
      obtain ⟨k'', hk'', hr2'⟩ := h.nothing [] file hrun ht
      rw [hjoin, hk'] at hk''
      injection hk'' with _ hk''
      rw [← hk'', hr2] at hr2'
      exact absurd hr2' (by decide)

/-- **When `Write` leaves the processes alone**: unless it runs on into `Join`, and either the file
is one for reading and writing or the address of the buffer is the id of a process that the
caller may join. -/
theorem write_leaves_alone_iff (fs : Uid) (k : Kernel η) (hk : k.Calling) :
    LeavesAlone H fs k ↔ ¬ ∃ file, RunsOn H fs k file ∧
      (file.type = readwriteType ∨
        k.pTab.refusesJoin k.currentThread (k.machine.readRegister 4).toInt = false) := by
  constructor
  · rintro h ⟨file, hrun, hor⟩
    exact hrun.not_leaves_alone hk hor h
  · intro h
    refine ⟨fun run => ?_, fun run file hrun ht => absurd ⟨file, hrun, Or.inl ht⟩ h⟩
    by_cases hrun : ∃ file, RunsOn H fs (k.withRun run) file
    · obtain ⟨file, hrun⟩ := hrun
      obtain ⟨k₁, hproc, hjoin⟩ := hrun.join
      obtain ⟨hk₁, htab, _, hsame⟩ := Calling.of_processes hk hproc
      have href : k.pTab.refusesJoin k.currentThread (k.machine.readRegister 4).toInt = true := by
        by_contra hno
        exact h ⟨file, hrun.of_withRun, Or.inr (by simpa using hno)⟩
      obtain ⟨k', hk', hcontents, _⟩ := scJoin_refused hk₁ (hsame.trans href)
      exact .of_ok (hjoin.trans hk') (by rw [hcontents, htab]; rfl)
    · exact (safe_of_not_runsOn H (fun file hf => hrun ⟨file, hf⟩)).map (fun p => p.1.contents)

/-- A host that does whatever it is asked. -/
def willingHost : HostOps Unit where
  open_ := fun _ _ h => (3, h)
  close := fun _ h => (0, h)
  read := fun _ _ h => ((0, []), h)
  write := fun _ _ n h => (n, h)
  lseek := fun _ _ _ h => (0, h)
  rand := fun h => (0, h)
  unset := fun _ => 0

/-- The initial process has executed a program, which is in slot 1. -/
def withChild : PState :=
  (PState.sys.run (PState.boot PState.stackOnly) (PState.execRun 0 "child")).getD
    (PState.boot PState.stackOnly)

/-- The initial process, with a child in slot 1 and a file for reading and writing in slot 2, calls
`Write(virAddr, charcount, 2)`. -/
def writing (virAddr charcount : BitVec 32) : Kernel Unit where
  machine :=
    { registers := fun r =>
        if r = 4 then virAddr else if r = 5 then charcount else if r = 6 then 2#32 else 8#32
      mainMemory := fun _ => 97
      pageTable := fun _ => ⟨0, 0, true, false, false, false⟩
      pageTableSize := 1 }
  currentThread := 0
  fileTables := fun _ i => if i = 2 then some ⟨5, 0, readwriteType⟩ else none
  host := ()
  input := []
  printed := []
  pTab := withChild
  pTabRun := []
  sTab := ⟨STable.new, fun _ => .out none⟩
  sTabRun := []
  display := ConsoleState.start
  displayRun := []

theorem writing_calling (virAddr charcount : BitVec 32) : (writing virAddr charcount).Calling := by
  have hstatus : withChild.status = .running := by decide +kernel
  have hpc : withChild.pc 0 = .user (some 1) := by decide +kernel
  exact ⟨hstatus, some 1, hpc⟩

/-- A character is written, and no process hears of it. -/
theorem write_one_leaves_alone :
    (writing 1#32 1#32).Calling ∧ LeavesAlone willingHost 0 (writing 1#32 1#32) := by
  refine ⟨writing_calling _ _,
    (write_leaves_alone_iff willingHost 0 _ (writing_calling _ _)).mpr ?_⟩
  rintro ⟨file, hrun, _⟩
  have hfile : some (⟨5, 0, readwriteType⟩ : OpenFile) = some file := hrun.opened
  have hn := (hrun.nothing (by rw [← Option.some.inj hfile])).1
  exact absurd hn (by decide)

/-- Nothing is written from address 1, and the caller waits for the exit of its child. -/
theorem write_nothing_joins :
    ¬ ∀ (η : Type) (H : HostOps η) (fs : Uid) (k : Kernel η), k.Calling → LeavesAlone H fs k := by
  intro h
  have hrun : RunsOn willingHost 0 (writing 1#32 0#32) ⟨5, 0, readwriteType⟩ :=
    { id := by decide
      opened := rfl
      writable := by decide
      size := by decide
      text := rfl
      nothing := fun _ => ⟨by decide, _, _, rfl⟩ }
  exact hrun.not_leaves_alone (writing_calling 1#32 0#32) (Or.inr (by decide +kernel))
    (h Unit willingHost 0 (writing 1#32 0#32) (writing_calling _ _))

end Handler

end Nachos
