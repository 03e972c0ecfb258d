import Nachos.Base.Owned
import Nachos.Proof.Table
import Nachos.Userprog.Descriptors

/-!
# Who has which descriptor

Every descriptor in use is in one place: in the file table of the kernel, in that of a PCB in
the process table, or in a variable of the code that a process runs in the kernel. When all
processes are in user mode there are no such variables, and only the tables are left.

Four kinds of steps break this. The destructor of a PCB never gets to its file table, because
`Thread::Finish` does not return: whatever the process had open, its console at least, stays
open without anybody who could close it. `ExecUpdate` returns without deleting `fileOpen` when
the process table is full. It copies a name that is too long over the pointer to the file table
of the new PCB. And `Open` with a type that it does not know puts a number into the file table
that no host has given out.
-/

namespace Nachos

open Base (upd upd_self upd_ne upd_apply Owned)

/-- The code that a process runs at this point has a file open. -/
def PC.hasFile : PC → Bool
  | .addrWait _ => true
  | .addrAlloc _ => true
  | .addrPost _ => true
  | .addrLoad _ => true
  | .execLock _ _ => true
  | .execFork _ _ => true
  | .execUnlock _ _ => true
  | .execDone _ => true
  | _ => false

/-- In user mode, not started, or gone. -/
def PC.idle : PC → Bool
  | .unborn => true
  | .start => true
  | .user _ => true
  | .finished => true
  | _ => false

theorem PC.hasFile_of_idle {p : PC} (h : p.idle = true) : p.hasFile = false := by
  cases p <;> simp_all [PC.idle, PC.hasFile]

theorem PC.waits_hasFile {p k : PC} {r : SemRef} (h : p.waits = some (r, k)) :
    k.hasFile = p.hasFile := by
  cases p <;> simp only [PC.waits, Option.some.injEq, Prod.mk.injEq, reduceCtorEq] at h <;>
    (obtain ⟨rfl, rfl⟩ := h; rfl)

theorem PC.posts_hasFile {p k : PC} {r : SemRef} (h : p.posts = some (r, k))
    (hp : ∀ id, p ≠ .execDone id) : k.hasFile = p.hasFile := by
  cases p <;> simp only [PC.posts, Option.some.injEq, Prod.mk.injEq, reduceCtorEq] at h <;>
    first
    | (obtain ⟨rfl, rfl⟩ := h; rfl)
    | exact absurd rfl (hp _)

namespace PState

/-- Only the making and the removal of a PCB change who is alive. -/
theorem step_alive {s t : PState} {u : Uid} {a : Act} (hs : s.step (u, a) = some t)
    (hmake : ∀ n, s.pc u ≠ .execBody n) (hremove : s.pc u ≠ .exitRemove) (v : Uid) :
    (t.obj v).alive = (s.obj v).alive := by
  have hupd : ∀ o x, x.alive = (s.obj o).alive → (upd s.obj o x v).alive = (s.obj v).alive :=
    fun o x hx => Base.upd_field PCB.alive hx v
  cases step_effect hs with
  | create hpc => exact absurd hpc (hmake _)
  | delete hpc => exact absurd hpc hremove
  | numWait => exact hupd _ _ rfl
  | exit => exact hupd _ _ rfl
  | _ => rfl

/-- A step of `u` leaves the others where they are, but for the one it forks. -/
theorem step_hasFile_ne {s t : PState} {u : Uid} {a : Act} (h : TableInv s)
    (hs : s.step (u, a) = some t) {v : Uid} (hv : v ≠ u) : (t.pc v).hasFile = (s.pc v).hasFile := by
  have hne : ∀ k, (upd s.pc u k v).hasFile = (s.pc v).hasFile := fun k => by rw [upd_ne _ _ hv]
  cases step_effect hs with
  | fork hpc =>
      rename_i id o
      rw [fork_pc, if_neg hv]
      split
      · rename_i hvo
        rw [hvo, (h.target u o (by rw [hpc]; rfl)).2]
        rfl
      · rfl
  | sleep => rfl
  | stop => rfl
  | _ => exact hne _

/-- At these points a process needs more than `go`. -/
theorem go_asks {s t : PState} {u : Uid} (hs : s.step (u, .go) = some t) :
    s.pc u ≠ .start ∧ (∀ ret, s.pc u ≠ .user ret) ∧ ∀ n, s.pc u ≠ .execBody n := by
  have hstuck : ∀ p, s.pc u = p → p.waits = none → p.posts = none →
      s.advance u .go = some t := fun p hp hw hv =>
    step_advance (by rw [hp]; exact hw) (by rw [hp]; exact hv) hs
  refine ⟨fun hpc => ?_, fun ret hpc => ?_, fun n hpc => ?_⟩ <;>
    · have := hstuck _ hpc rfl rfl
      unfold advance at this
      rw [hpc] at this
      exact absurd this (by simp)

/-- Where `go` leads, as far as files are concerned. -/
theorem go_hasFile {s t : PState} {u : Uid} (hs : s.step (u, .go) = some t)
    (halloc : ∀ h, s.pc u ≠ .addrAlloc h) (hload : ∀ h, s.pc u ≠ .addrLoad h)
    (hdone : ∀ id, s.pc u ≠ .execDone id) : (t.pc u).hasFile = (s.pc u).hasFile := by
  have hat : ∀ k, (upd s.pc u k u).hasFile = k.hasFile := fun k => by rw [upd_self]
  obtain ⟨hstart, huser, hbody⟩ := go_asks hs
  cases step_effect hs with
  | pass hw => exact (hat _).trans (PC.waits_hasFile hw)
  | sleep => rfl
  | post hp => exact (hat _).trans (PC.posts_hasFile hp hdone)
  | stop => rfl
  | move hm =>
      refine (hat _).trans ?_
      cases hm with
      | load hpc => exact absurd hpc hstart
      | loaded hpc => exact absurd hpc (hload _)
      | exec hpc => exact absurd hpc (huser _)
      | execFails hpc => exact absurd hpc (hbody _)
      | joinFails hpc => exact absurd hpc (huser _)
      | exitNone hpc => exact absurd hpc (huser _)
      | joinGo hpc => rw [hpc]; rfl
      | joinRead hpc => rw [hpc]; rfl
      | joinRet hpc => rw [hpc]; rfl
      | exitRel hpc => rw [hpc]; rfl
      | exitGo hpc => rw [hpc]; rfl
  | allocate hpc => exact absurd hpc (halloc _)
  | create hpc => exact absurd hpc (hbody _)
  | fork hpc => rw [hpc, fork_pc, if_pos rfl]; rfl
  | join hpc => exact absurd hpc (huser _)
  | numWait hn =>
      refine (hat _).trans ?_
      rcases hn with ⟨c, g, hpc, rfl⟩ | ⟨hpc, rfl⟩
      · rw [hpc]; rfl
      · rw [hpc]; rfl
  | exit hpc => exact absurd hpc (huser _)
  | delete hpc => rw [hpc]; exact hat _
  | keep hpc => rw [hpc]; exact hat _

/-- A process that enters the kernel has no file open yet. -/
theorem call_hasFile {s t : PState} {u : Uid} {a : Act} {ret : Option Int}
    (hpc : s.pc u = .user ret) (hs : s.step (u, a) = some t) : (t.pc u).hasFile = false := by
  have hat : ∀ k, (upd s.pc u k u).hasFile = k.hasFile := fun k => by rw [upd_self]
  have hstay : (s.pc u).hasFile = false := by rw [hpc]; rfl
  cases step_effect hs with
  | pass hw => rw [hpc] at hw; exact absurd hw (by simp [PC.waits])
  | sleep => exact hstay
  | post hp => rw [hpc] at hp; exact absurd hp (by simp [PC.posts])
  | stop => exact hstay
  | move hm =>
      refine (hat _).trans ?_
      cases hm <;> first | rfl | (rename_i h; rw [hpc] at h; exact PC.noConfusion h)
  | numWait hn =>
      rcases hn with ⟨c, g, h, _⟩ | ⟨h, _⟩
      · rw [hpc] at h; exact PC.noConfusion h
      · rw [hpc] at h; exact PC.noConfusion h
  | join => exact hat _
  | exit => exact hat _
  | allocate h => rw [hpc] at h; exact PC.noConfusion h
  | create h => rw [hpc] at h; exact PC.noConfusion h
  | fork h => rw [hpc] at h; exact PC.noConfusion h
  | delete h => rw [hpc] at h; exact PC.noConfusion h
  | keep h => rw [hpc] at h; exact PC.noConfusion h

end PState

/-! ## Who holds what -/

/-- The places where a descriptor can be. -/
inductive Holder where
  /-- Slot `j` of the kernel. -/
  | kernel (j : Nat)
  /-- Slot `j` of the PCB `o`. -/
  | table (o : Uid) (j : Nat)
  /-- The variable of the code that `u` runs. -/
  | var (u : Uid)
  deriving DecidableEq

namespace FileState

/-- What is there. A PCB that was deleted has nothing, and one whose pointer was overwritten has
nothing either. -/
def held (s : FileState) : Holder → Option Int
  | .kernel j => (s.kernelTable j).map OpenFile.file
  | .table o j =>
      if (s.tab.obj o).alive && !s.wild o then (s.fileTable o j).map OpenFile.file else none
  | .var u => s.var u

/-- Every descriptor in use has one holder, and the variables are those of the code that has a
file open. No pointer was overwritten. -/
structure FileInv (s : FileState) : Prop where
  owned : Owned s.isOpen s.held
  var : ∀ u, (s.var u).isSome = (s.tab.pc u).hasFile
  tame : ∀ o, s.wild o = false

/-- While the simulation goes on. -/
def Going (s : FileState) : Prop := s.stopped = false ∧ s.tab.status = .running

theorem FileInv.var_none {s : FileState} (h : FileInv s) {u : Uid}
    (hu : (s.tab.pc u).hasFile = false) : s.var u = none := by
  have := h.var u
  rw [hu] at this
  exact Option.isSome_eq_false_iff.mp this |> Option.isNone_iff_eq_none.mp

theorem FileInv.held_table {s : FileState} (h : FileInv s) {o : Uid}
    (halive : (s.tab.obj o).alive = true) (j : Nat) :
    s.held (.table o j) = (s.fileTable o j).map OpenFile.file := by
  simp [held, halive, h.tame]

theorem FileInv.var_some {s : FileState} (h : FileInv s) {u : Uid}
    (hu : (s.tab.pc u).hasFile = true) : ∃ fd, s.var u = some fd := by
  have := h.var u
  rw [hu] at this
  exact Option.isSome_iff_exists.mp this

/-- A step of the table that opens and closes nothing. -/
theorem FileInv.keep {s : FileState} (h : FileInv s) {t : PState}
    (halive : ∀ v, (t.obj v).alive = (s.tab.obj v).alive)
    (hpc : ∀ v, (t.pc v).hasFile = (s.tab.pc v).hasFile) : FileInv { s with tab := t } where
  owned := by
    refine h.owned.congr fun x => ?_
    cases x with
    | kernel j => rfl
    | table o j =>
        show (if (t.obj o).alive && !s.wild o then _ else _) = _
        rw [halive]
        rfl
    | var u => rfl
  var := fun u => (h.var u).trans (hpc u).symm
  tame := h.tame

/-- A step of the table in which `u` closes the file in its variable. -/
theorem FileInv.deleteVar {s : FileState} (h : FileInv s) {t : PState} {u : Uid}
    (halive : ∀ v, (t.obj v).alive = (s.tab.obj v).alive) (hu : (s.tab.pc u).hasFile = true)
    (hu' : (t.pc u).hasFile = false) (hpc : ∀ v, v ≠ u → (t.pc v).hasFile = (s.tab.pc v).hasFile) :
    FileInv { s.deleteVar u with tab := t } := by
  obtain ⟨fd, hfd⟩ := h.var_some hu
  have hopen : s.isOpen fd = true := (h.owned.use_iff fd).mpr ⟨.var u, hfd⟩
  have he : s.deleteVar u =
      { s with isOpen := upd s.isOpen fd false, var := upd s.var u none } := by
    unfold FileState.deleteVar
    rw [hfd]
    dsimp only
    unfold closed
    rw [if_pos hopen]
  rw [he]
  refine ⟨?_, fun v => ?_, h.tame⟩
  · refine (h.owned.take (x := .var u) hfd).congr fun x => ?_
    cases x with
    | kernel j => rfl
    | table o j =>
        show (if (t.obj o).alive && !s.wild o then _ else _) = _
        rw [halive]
        rfl
    | var v => simp [held, upd_apply]
  · show (upd s.var u none v).isSome = (t.pc v).hasFile
    by_cases hv : v = u
    · rw [hv, upd_self, hu']
      rfl
    · rw [upd_ne _ _ hv, hpc v hv, h.var v]

/-! ## Opening -/

/-- What a call of `open` gave out. -/
def given (fd : Int) : Option Int := if fd = -1 then none else some fd

theorem given_of_ne {fd : Int} (h : fd ≠ -1) : given fd = some fd := if_neg h

@[simp] theorem fileOf_file (fd type : Int) : (fileOf fd type).map OpenFile.file = given fd := by
  unfold fileOf given
  split <;> rfl

/-- The host gives out what is not in use. -/
theorem answers_free {s : FileState} {fd : Int} (ha : s.answers fd = true) (hne : fd ≠ -1) :
    s.isOpen fd = false := by
  simp only [answers, Bool.or_eq_true, decide_eq_true_eq, hne, false_or, Bool.and_eq_true,
    Bool.not_eq_true'] at ha
  exact ha.2

/-- Whoever had nothing gets what was opened. -/
theorem owned_opened {s : FileState} {f : Holder → Option Int} (h : Owned s.isOpen f) {fd : Int}
    (ha : s.answers fd = true) {x : Holder} (hx : f x = none) :
    Owned (s.opened fd).isOpen (upd f x (given fd)) := by
  unfold opened given
  split
  · rw [← hx, Base.upd_eq_self]
    exact h
  · rename_i hne
    exact h.give (answers_free ha hne) hx

@[simp] theorem opened_isOpen (s : FileState) (fd x : Int) :
    (s.opened fd).isOpen x = (s.isOpen x || decide (fd ≠ -1 ∧ x = fd)) := by
  unfold opened
  by_cases hfd : fd = -1
  · simp [hfd]
  · by_cases hx : x = fd <;> simp [hfd, upd_apply, hx]

@[simp] theorem opened_tab (s : FileState) (fd : Int) : (s.opened fd).tab = s.tab := by
  unfold opened; split <;> rfl

@[simp] theorem opened_var (s : FileState) (fd : Int) : (s.opened fd).var = s.var := by
  unfold opened; split <;> rfl

@[simp] theorem opened_fileTable (s : FileState) (fd : Int) :
    (s.opened fd).fileTable = s.fileTable := by
  unfold opened; split <;> rfl

@[simp] theorem opened_wild (s : FileState) (fd : Int) : (s.opened fd).wild = s.wild := by
  unfold opened; split <;> rfl

@[simp] theorem opened_stopped (s : FileState) (fd : Int) : (s.opened fd).stopped = s.stopped := by
  unfold opened; split <;> rfl

@[simp] theorem opened_kernelTable (s : FileState) (fd : Int) :
    (s.opened fd).kernelTable = s.kernelTable := by
  unfold opened; split <;> rfl

/-- A `FileSystem` is made, with a console at least to write to, or the simulation ends. -/
theorem newFileSystem_cases {s : FileState} {creates : Bool} {stdin stdout : Int}
    {r : FileState × (Nat → Option OpenFile)} (h : s.newFileSystem creates stdin stdout = some r) :
    r.1.stopped = true ∨ (s.answers stdin = true ∧ (s.opened stdin).answers stdout = true
      ∧ stdout ≠ -1 ∧ r = ((s.opened stdin).opened stdout, consoles stdin stdout)) := by
  unfold newFileSystem at h
  split at h
  · cases h; exact .inl rfl
  split at h
  · exact absurd h (by simp)
  rename_i hin
  split at h
  · exact absurd h (by simp)
  rename_i hout
  split at h
  · cases h; exact .inl rfl
  rename_i hne
  exact .inr ⟨by simpa using hin, by simpa using hout, hne, (Option.some.inj h).symm⟩

theorem newFileSystem_tab {s : FileState} {creates : Bool} {stdin stdout : Int}
    {r : FileState × (Nat → Option OpenFile)} (h : s.newFileSystem creates stdin stdout = some r) :
    r.1.tab = s.tab := by
  unfold newFileSystem at h
  split at h
  · cases h; rfl
  split at h
  · exact absurd h (by simp)
  split at h
  · exact absurd h (by simp)
  split at h
  · cases h; simp
  · cases h; simp

theorem owned_newFileSystem {s : FileState} {f : Holder → Option Int} (h : Owned s.isOpen f)
    {stdin stdout : Int} (hin : s.answers stdin = true)
    (hout : (s.opened stdin).answers stdout = true) {x y : Holder} (hx : f x = none)
    (hy : f y = none) (hyx : y ≠ x) :
    Owned ((s.opened stdin).opened stdout).isOpen
    (upd (upd f x (given stdin)) y (given stdout)) := by
  refine owned_opened (owned_opened h hin hx) hout ?_
  rw [upd_ne _ _ hyx]
  exact hy

/-- The table of a new `FileSystem`, slot by slot. -/
theorem consoles_file (stdin stdout : Int) (j : Nat) :
    (consoles stdin stdout j).map OpenFile.file =
      if j = 0 then given stdout else if j = 1 then given stdin else none := by
  show Option.map OpenFile.file (if j = 0 then _ else if j = 1 then _ else none) = _
  by_cases h0 : j = 0
  · rw [if_pos h0, if_pos h0, fileOf_file]
  · rw [if_neg h0, if_neg h0]
    by_cases h1 : j = 1
    · rw [if_pos h1, if_pos h1, fileOf_file]
    · rw [if_neg h1, if_neg h1]
      rfl

/-- `StartProcess_2` opens the program. -/
theorem FileInv.openExecutable {s s' : FileState} (h : FileInv s) {u : Uid} {fd : Int}
    {hd : NoffHeader} (hpc : s.tab.pc u = .start) (hs : s.openExecutable u fd hd = some s')
    (hgo : s'.Going) : FileInv s' := by
  unfold FileState.openExecutable at hs
  split at hs
  · exact absurd hs (by simp)
  rename_i ha
  obtain ⟨t, ht, rfl⟩ := Option.map_eq_some_iff.mp hs
  have hrun : t.status = .running := hgo.2
  have hadv := PState.step_advance (by rw [hpc]; rfl) (by rw [hpc]; rfl) ht
  unfold PState.advance at hadv
  rw [hpc] at hadv
  have hadv' := Option.some.inj hadv
  -- without the file, or with another magic number, the kernel is gone
  have hne : fd ≠ -1 := fun he => by
    rw [if_pos he] at hadv'
    rw [← hadv'] at hrun
    exact absurd hrun (by simp [PState.openExecutable, PState.stop])
  rw [if_neg hne] at hadv'
  have hmagic : hd.noffMagic = noffMagicNumber := by
    by_contra hm
    rw [← hadv'] at hrun
    exact absurd hrun (by simp [PState.openExecutable, PState.stop, hm])
  have ht' : t = s.tab.goto u (.addrWait hd) := by
    rw [← hadv']
    simp [PState.openExecutable, hmagic]
  have hvar : s.var u = none := h.var_none (by rw [hpc]; rfl)
  rw [ht', if_neg hne]
  refine ⟨?_, fun v => ?_, fun o => by simpa using h.tame o⟩
  · refine (owned_opened h.owned (by simpa using ha) (x := .var u) hvar).congr fun x => ?_
    cases x with
    | kernel j => simp [held, upd_apply]
    | table o j => simp [held, upd_apply, PState.goto]
    | var v => simp [held, upd_apply, given_of_ne hne]
  · show (upd s.var u (some fd) v).isSome = ((s.tab.goto u (.addrWait hd)).pc v).hasFile
    rw [PState.goto_pc, upd_apply]
    split
    · rfl
    · exact h.var v

/-- The checks of `ExecUpdate`, seen from the table. -/
theorem execBody_step {s t : PState} {u : Uid} {n : Option String} {nm : String} {op : Bool}
    (hpc : s.pc u = .execBody n) (hs : s.step (u, .check nm op) = some t) :
    t = s.execUpdate u n nm op := by
  have hadv := PState.step_advance (by rw [hpc]; rfl) (by rw [hpc]; rfl) hs
  unfold PState.advance at hadv
  rw [hpc] at hadv
  exact (Option.some.inj hadv).symm

/-- A failing `ExecUpdate` that opened nothing. -/
theorem FileInv.execFail {s : FileState} (h : FileInv s) {u : Uid} {n : Option String}
    (hpc : s.tab.pc u = .execBody n) : FileInv { s with tab := s.tab.goto u .execFail } := by
  refine h.keep (fun _ => rfl) fun v => ?_
  rw [PState.goto_pc]
  split
  · rename_i hv
    rw [hv, hpc]
    rfl
  · rfl

/-- A new PCB comes with its own `FileSystem`, and `fileOpen` stays open until the end. -/
theorem FileInv.create {s : FileState} (h : FileInv s) (htab : PState.TableInv s.tab) {u : Uid}
    {n : Option String} {id : Nat} {b : Bitmap} {fd stdin stdout : Int}
    (hpc : s.tab.pc u = .execBody n) (hfd : s.answers fd = true) (hne : fd ≠ -1)
    (hin : (s.opened fd).answers stdin = true)
    (hout : ((s.opened fd).opened stdin).answers stdout = true) (hname : overruns n = false) :
    FileInv { ((s.opened fd).opened stdin).opened stdout with
      tab := s.tab.create u id b
      fileTable := upd s.fileTable s.tab.next (consoles stdin stdout)
      wild := upd s.wild s.tab.next (overruns n)
      var := upd s.var u (some fd) } := by
  have hvar : s.var u = none := h.var_none (by rw [hpc]; rfl)
  have hdead : (s.tab.obj s.tab.next).alive = false := (htab.fresh _ (Nat.le_refl _)).1
  -- a PCB that does not exist yet has nothing
  have hnew : ∀ j, s.held (.table s.tab.next j) = none := fun j => by simp [held, hdead]
  have hnew' : ∀ j, upd s.held (.var u) (given fd) (.table s.tab.next j) = none := fun j => by
    rw [upd_ne _ _ (by simp)]
    exact hnew j
  have htame : ∀ o, upd s.wild s.tab.next (overruns n) o = false := fun o =>
    Base.forall_upd (P := fun _ w => w = false) hname (fun v _ => h.tame v) o
  refine ⟨?_, fun v => ?_, htame⟩
  · refine (owned_newFileSystem (owned_opened h.owned hfd (x := .var u) hvar) hin hout
      (hnew' 1) (hnew' 0) (by simp)).congr fun x => ?_
    cases x with
    | kernel j => simp [held, upd_apply]
    | var v => simp [held, upd_apply, given_of_ne hne]
    | table o j =>
        show (if ((s.tab.create u id b).obj o).alive && !upd s.wild s.tab.next (overruns n) o then
          (upd s.fileTable s.tab.next (consoles stdin stdout) o j).map OpenFile.file else none) = _
        rw [htame]
        by_cases ho : o = s.tab.next
        · subst ho
          rw [PState.create_obj_self, upd_self, if_pos (by rfl), consoles_file]
          simp only [upd_apply, Holder.table.injEq, true_and, reduceCtorEq, if_false, hnew]
        · rw [PState.create_obj_ne _ _ _ _ _ ho, upd_ne _ _ ho]
          simp [upd_apply, held, ho, h.tame]
  · show (upd s.var u (some fd) v).isSome = ((s.tab.create u id b).pc v).hasFile
    rw [PState.create_pc, upd_apply]
    split
    · rfl
    · exact h.var v

/-- How `ExecUpdate` gets on: it fails before the file is open, it finds no slot, or it makes a
PCB with a `FileSystem`. -/
theorem execUpdate_cases {s s' : FileState} {u : Uid} {n : Option String} {nm : String} {fd : Int}
    {creates : Bool} {stdin stdout : Int} (hpc : s.tab.pc u = .execBody n)
    (hs : s.execUpdate u n nm fd creates stdin stdout = some s') :
    ((n = none ∨ n = some nm ∨ fd = -1) ∧ s' = { s with tab := s.tab.goto u .execFail })
    ∨ (n ≠ none ∧ n ≠ some nm ∧ fd ≠ -1 ∧ s.tab.bm.findAndSet.1 = -1 ∧ s.answers fd = true
        ∧ s' = { s.opened fd with tab := s.tab.goto u .execFail })
    ∨ (n ≠ none ∧ n ≠ some nm ∧ s.answers fd = true ∧ fd ≠ -1 ∧ s.tab.bm.findAndSet.1 ≠ -1 ∧
        ∃ id b r,
        (s.opened fd).newFileSystem creates stdin stdout = some r
        ∧ s' = { r.1 with
            tab := s.tab.create u id b
            fileTable := upd s.fileTable s.tab.next r.2
            wild := upd s.wild s.tab.next (overruns n)
            var := upd s.var u (some fd) }) := by
  unfold FileState.execUpdate at hs
  obtain ⟨t, ht, hrest⟩ := Option.bind_eq_some_iff.mp hs
  have ht' := execBody_step hpc ht
  by_cases hname : n = none ∨ n = some nm
  · -- refused by its name, before anything is opened
    rw [if_pos hname] at hrest
    have he : t = s.tab.goto u .execFail := by
      rw [ht']
      rcases hname with rfl | rfl <;> simp [PState.execUpdate]
    rw [← Option.some.inj hrest, he]
    exact .inl ⟨hname.imp_right .inl, rfl⟩
  rw [if_neg hname] at hrest
  split at hrest
  · exact absurd hrest (by simp)
  rename_i ha
  by_cases hfd : fd = -1
  · rw [if_pos hfd] at hrest
    have he : t = s.tab.goto u .execFail := by
      rw [ht']
      cases n with
      | none => rfl
      | some name => simp [PState.execUpdate, hfd]
    rw [← Option.some.inj hrest, he]
    exact .inl ⟨.inr (.inr hfd), rfl⟩
  rw [if_neg hfd] at hrest
  obtain ⟨name, rfl⟩ : ∃ name, n = some name :=
    Option.ne_none_iff_exists'.mp fun e => hname (.inl e)
  have hne : name ≠ nm := fun e => hname (.inr (by rw [e]))
  by_cases hfree : s.tab.bm.findAndSet.1 = -1
  · -- the table is full: `fileOpen` stays open behind the `return`
    rw [if_pos hfree] at hrest
    have hbm : s.tab.bm.findAndSet.2 = s.tab.bm := by
      rcases PState.findAndSet_cases s.tab.bm with ⟨h, _⟩ | ⟨id, h, _⟩
      · rw [h]
      · rw [h] at hfree
        simp only at hfree
        omega
    have he : t = s.tab.goto u .execFail := by
      rw [ht']
      simp [PState.execUpdate, hne, hfd, hfree, hbm]
    rw [← Option.some.inj hrest, he]
    exact .inr (.inl ⟨by simp, by simpa using hne, hfd, hfree, by simpa using ha, rfl⟩)
  · rw [if_neg hfree] at hrest
    obtain ⟨r, hr, rfl⟩ := Option.map_eq_some_iff.mp hrest
    have he : t = s.tab.create u s.tab.bm.findAndSet.1.toNat s.tab.bm.findAndSet.2 := by
      rw [ht']
      simp [PState.execUpdate, hne, hfd, hfree]
    rw [he]
    exact .inr (.inr ⟨by simp, by simpa using hne, by simpa using ha, hfd, hfree, _, _, r, hr, rfl⟩)

/-- `ExecUpdate`, unless it opens the file and finds no slot, or no room for the name. -/
theorem FileInv.execUpdate {s s' : FileState} (h : FileInv s) (htab : PState.TableInv s.tab)
    {u : Uid} {n : Option String} {nm : String} {fd : Int} {creates : Bool} {stdin stdout : Int}
    (hpc : s.tab.pc u = .execBody n)
    (hslot : n ≠ none → n ≠ some nm → fd ≠ -1 →
      s.tab.bm.findAndSet.1 ≠ -1 ∧ overruns n = false)
    (hs : s.execUpdate u n nm fd creates stdin stdout = some s') (hgo : s'.Going) : FileInv s' := by
  rcases execUpdate_cases hpc hs with
    ⟨_, rfl⟩ | ⟨hn, hnm, hfd, hfull, _⟩ | ⟨hn, hnm, ha, hfd, _, id, b, r, hr, rfl⟩
  · exact h.execFail hpc
  · exact absurd hfull (hslot hn hnm hfd).1
  · obtain ⟨hin, hout, _, rfl⟩ := (newFileSystem_cases hr).resolve_left (by simpa using hgo.1)
    exact h.create htab hpc ha hfd hin hout (hslot hn hnm hfd).2

/-- `FindFreeSlot` finds an empty slot, if it finds one. -/
theorem findFreeSlotFrom_none (f : Nat → Option OpenFile) : ∀ (k i : Nat),
    FileSystem.findFreeSlotFrom f i k ≠ -1 →
    f (FileSystem.findFreeSlotFrom f i k).toNat = none := by
  intro k
  induction k with
  | zero => intro _ h; exact absurd rfl h
  | succ k ih =>
      intro i h
      rw [FileSystem.findFreeSlotFrom] at h ⊢
      by_cases hi : (f i).isNone
      · rw [if_pos hi]
        exact Option.isNone_iff_eq_none.mp hi
      · rw [if_neg hi] at h ⊢
        exact ih (i + 1) h

/-- A process in user mode finds its own PCB. -/
theorem pcb_user {t : PState} (h : PState.TableInv t) {u : Uid} {ret : Option Int}
    (hpc : t.pc u = .user ret) : t.pcb (t.obj u).pid = some u ∧ (t.obj u).alive = true := by
  have halive := h.active u (by rw [hpc]; rfl)
  exact ⟨(h.held u halive).2, halive⟩

/-- `Open` of a type it knows. -/
theorem FileInv.openCall {s s' : FileState} (h : FileInv s) (htab : PState.TableInv s.tab) {u : Uid}
    {ret : Option Int} {type fd : Int} (hpc : s.tab.pc u = .user ret)
    (htype : 0 ≤ type ∧ type ≤ 3 ∨ FileSystem.findFreeSlot (s.fileTable u) = -1 ∨ fd = -1)
    (hs : s.openCall u type fd = some s') (hgo : s'.Going) : FileInv s' := by
  obtain ⟨hpcb, halive⟩ := pcb_user htab hpc
  unfold FileState.openCall at hs
  rw [hpcb] at hs
  dsimp only at hs
  rw [if_neg (by simp [h.tame])] at hs
  split at hs
  · rw [← Option.some.inj hs] at hgo
    exact absurd hgo.1 (by simp)
  rename_i hok
  have hslot : FileSystem.findFreeSlot (s.fileTable u) ≠ -1 := fun e => hok (.inr (.inr e))
  have hfree := findFreeSlotFrom_none (s.fileTable u) _ _ hslot
  split at hs
  · split at hs
    · exact absurd hs (by simp)
    rename_i ha
    split at hs
    · rw [← Option.some.inj hs]
      exact h
    rename_i hfd
    rw [← Option.some.inj hs]
    refine ⟨?_, fun v => by simpa using h.var v, fun o => by simpa using h.tame o⟩
    have hnone : s.held (.table u (FileSystem.findFreeSlot (s.fileTable u)).toNat) = none := by
      rw [h.held_table halive, FileSystem.findFreeSlot, hfree]
      rfl
    refine (owned_opened h.owned (by simpa using ha) hnone).congr fun x => ?_
    cases x with
    | kernel j => simp [held, upd_apply]
    | var v => simp [held, upd_apply]
    | table o j =>
        by_cases ho : o = u
        · subst ho
          by_cases hj : j = (FileSystem.findFreeSlot (s.fileTable o)).toNat
          · subst hj
            simp [held, halive, h.tame]
          · simp [held, halive, h.tame, upd_apply, hj]
        · simp [held, upd_apply, ho]
  · rename_i hother
    -- the four known types are 0 to 3, and the first two were refused
    have hunknown : ¬ (0 ≤ type ∧ type ≤ 3) := fun ht => by
      simp only [inputType, outputType, readonlyType, readwriteType] at hok hother
      omega
    have hfd : fd = -1 := (htype.resolve_left hunknown).resolve_left hslot
    rw [if_pos hfd] at hs
    rw [← Option.some.inj hs]
    exact h

theorem FileInv.closeCall {s : FileState} (h : FileInv s) (htab : PState.TableInv s.tab) {u : Uid}
    {ret : Option Int} {id : Int} (hpc : s.tab.pc u = .user ret) (hgo : (s.closeCall u id).Going) :
    FileInv (s.closeCall u id) := by
  obtain ⟨hpcb, halive⟩ := pcb_user htab hpc
  unfold FileState.closeCall at hgo ⊢
  rw [hpcb] at hgo ⊢
  dsimp only at hgo ⊢
  split
  · split
    · exact h
    · rename_i file hfile
      have hheld : s.held (.table u id.toNat) = some file.file := by
        rw [h.held_table halive, hfile]
        rfl
      have hopen : s.isOpen file.file = true := (h.owned.use_iff _).mpr ⟨_, hheld⟩
      unfold closed
      rw [if_pos hopen]
      refine ⟨?_, h.var, h.tame⟩
      refine (h.owned.take hheld).congr fun x => ?_
      cases x with
      | kernel j => simp [held, upd_apply]
      | var v => simp [held, upd_apply]
      | table o j =>
          by_cases ho : o = u
          · subst ho
            by_cases hj : j = id.toNat
            · subst hj
              simp [held]
            · simp [held, upd_apply, hj]
          · simp [held, upd_apply, ho]
  · rename_i hid
    rw [if_neg hid] at hgo
    exact absurd hgo.1 (by simp)

/-- The calls that only enter the kernel. -/
theorem FileInv.call {s : FileState} (h : FileInv s) (htab : PState.TableInv s.tab) {u : Uid}
    {a : Act} {ret : Option Int} {t : PState} (hpc : s.tab.pc u = .user ret)
    (hs : s.tab.step (u, a) = some t) : FileInv { s with tab := t } := by
  refine h.keep (PState.step_alive hs (by rw [hpc]; simp) (by rw [hpc]; simp)) fun v => ?_
  by_cases hv : v = u
  · rw [hv, PState.call_hasFile hpc hs, hpc]
    rfl
  · exact PState.step_hasFile_ne htab hs hv

/-- What a process does in the kernel, short of removing itself. -/
theorem FileInv.goOn {s s' : FileState} (h : FileInv s) (htab : PState.TableInv s.tab) {u : Uid}
    (hremove : s.tab.pc u ≠ .exitRemove) (hs : s.goOn u = some s') (hgo : s'.Going) :
    FileInv s' := by
  obtain ⟨t, ht, rfl⟩ := Option.map_eq_some_iff.mp hs
  have hne : ∀ v, v ≠ u → (t.pc v).hasFile = (s.tab.pc v).hasFile :=
    fun v hv => PState.step_hasFile_ne htab ht hv
  have halive := PState.step_alive ht (PState.go_asks ht).2.2 hremove
  have hkeep : (t.pc u).hasFile = (s.tab.pc u).hasFile → FileInv { s with tab := t } := fun hu =>
    h.keep halive fun v => if hv : v = u then hv ▸ hu else hne v hv
  have hdelete : (s.tab.pc u).hasFile = true → (t.pc u).hasFile = false →
      FileInv { s.deleteVar u with tab := t } := fun hu hu' => h.deleteVar halive hu hu' hne
  have hadv : (s.tab.pc u).waits = none → (s.tab.pc u).posts = none →
    s.tab.advance u .go = some t :=
    fun hw hp => PState.step_advance hw hp ht
  split at hgo
  · -- the frames are taken, or there are too few and `executable` is deleted
    rename_i hd hpc
    have hadv := hadv (by rw [hpc]; rfl) (by rw [hpc]; rfl)
    unfold PState.advance at hadv
    rw [hpc] at hadv
    have htu : t.pc u = if s.tab.phys.numClear < hd.numPages then .addrShort else .addrPost hd := by
      rw [← Option.some.inj hadv, PState.allocate_pc, if_pos rfl]
    split
    · rename_i hshort
      rw [if_pos hshort] at htu
      exact hdelete (by rw [hpc]; rfl) (by rw [htu]; rfl)
    · rename_i hshort
      rw [if_neg hshort] at htu
      exact hkeep (by rw [htu, hpc]; rfl)
  · -- the segments are read and `executable` is deleted
    rename_i hd hpc
    have hadv := hadv (by rw [hpc]; rfl) (by rw [hpc]; rfl)
    unfold PState.advance at hadv
    rw [hpc] at hadv
    have hadv' : s.tab.loadSegments u hd = t := Option.some.inj hadv
    have hrun : t.status = .running := by
      have := hgo.2
      split at this <;> exact this
    have htu : t.pc u = .user none := by
      rw [← hadv'] at hrun ⊢
      unfold PState.loadSegments at hrun ⊢
      split at hrun
      · rename_i hseek
        rw [if_pos hseek, PState.goto_pc, if_pos rfl]
      · exact absurd hrun (by simp [PState.stop])
    rw [if_pos hrun]
    exact hdelete (by rw [hpc]; rfl) (by rw [htu]; rfl)
  · -- the end of `ExecUpdate`, with its `delete fileOpen`
    rename_i id hpc
    have htu : t = s.tab.V u .bmsem (.user (some id)) := PState.step_posts (by rw [hpc]; rfl) ht
    exact hdelete (by rw [hpc]; rfl) (by rw [htu, PState.V_pc, if_pos rfl]; rfl)
  · rename_i halloc hload hdone
    exact hkeep (PState.go_hasFile ht halloc hload hdone)

/-! ## Runs -/

/-- The steps that lose no descriptor: no PCB is removed, `ExecUpdate` does not open its file
with all slots of the process table taken or for a name that has no room in `FileName`, and `Open`
is not asked for a type it does not know while its table has a free slot. -/
def spared (s : FileState) (l : Uid × FileAct) : Bool :=
  match s.tab.pc l.1, l.2 with
  | .exitRemove, _ => false
  | .execBody filename, .check callerName fileOpen _ _ _ =>
      decide (filename = none ∨ filename = some callerName ∨ fileOpen = -1
        ∨ s.tab.bm.findAndSet.1 ≠ -1 ∧ overruns filename = false)
  | .user _, .open_ type fd =>
      decide (0 ≤ type ∧ type ≤ 3 ∨ FileSystem.findFreeSlot (s.fileTable l.1) = -1 ∨ fd = -1)
  | _, _ => true

theorem openCall_tab {s s' : FileState} {u : Uid} {type fd : Int}
    (hs : s.openCall u type fd = some s') : s'.tab = s.tab := by
  unfold FileState.openCall at hs
  split at hs
  · rw [← Option.some.inj hs]
  dsimp only at hs
  split at hs
  · rw [← Option.some.inj hs]
  split at hs
  · rw [← Option.some.inj hs]
  split at hs
  · split at hs
    · exact absurd hs (by simp)
    split at hs
    · rw [← Option.some.inj hs]
    · rw [← Option.some.inj hs]
      exact opened_tab s fd
  · split at hs <;> rw [← Option.some.inj hs]

theorem closeCall_tab (s : FileState) (u : Uid) (id : Int) : (s.closeCall u id).tab = s.tab := by
  unfold FileState.closeCall
  split
  · rfl
  split
  · split
    · rfl
    · unfold closed
      split <;> rfl
  · rfl

/-- A step of the files is a step of the table, or the table does not change. -/
theorem step_tab {s s' : FileState} {l : Uid × FileAct} (hs : s.step l = some s') :
    s'.tab = s.tab ∨ ∃ a, s.tab.step (l.1, a) = some s'.tab := by
  unfold step at hs
  split at hs
  · exact absurd hs (by simp)
  split at hs
  · split at hs
    · exact absurd hs (by simp)
    split at hs
    · exact .inl (by rw [← Option.some.inj hs])
    obtain ⟨t, ht, rfl⟩ := Option.map_eq_some_iff.mp hs
    exact .inr ⟨_, ht⟩
  · obtain ⟨t, ht, rfl⟩ := Option.map_eq_some_iff.mp hs
    exact .inr ⟨_, ht⟩
  · obtain ⟨t, ht, rfl⟩ := Option.map_eq_some_iff.mp hs
    exact .inr ⟨_, ht⟩
  · exact .inl (openCall_tab hs)
  · rw [← Option.some.inj hs]
    exact .inl (closeCall_tab s _ _)
  · obtain ⟨t, ht, hs⟩ := Option.bind_eq_some_iff.mp hs
    refine .inr ⟨_, ht.trans (congrArg some ?_)⟩
    split at hs
    · rw [← Option.some.inj hs]
    split at hs
    · exact absurd hs (by simp)
    split at hs
    · rw [← Option.some.inj hs]
    split at hs
    · rw [← Option.some.inj hs]
    · obtain ⟨r, _, rfl⟩ := Option.map_eq_some_iff.mp hs
      rfl
  · unfold FileState.openExecutable at hs
    split at hs
    · exact absurd hs (by simp)
    obtain ⟨t, ht, rfl⟩ := Option.map_eq_some_iff.mp hs
    exact .inr ⟨_, ht⟩
  · obtain ⟨t, ht, rfl⟩ := Option.map_eq_some_iff.mp hs
    refine .inr ⟨_, ht.trans (congrArg some ?_)⟩
    split
    · split <;> rfl
    · split <;> rfl
    · rfl
    · rfl
  · exact absurd hs (by simp)

theorem step_going {s s' : FileState} {l : Uid × FileAct} (hs : s.step l = some s') : s.Going := by
  unfold step at hs
  split at hs
  · exact absurd hs (by simp)
  · rename_i hno
    exact ⟨by simpa using fun h => hno (.inl h), not_not.mp fun h => hno (.inr h)⟩

/-- Between its checks a process takes no other step. -/
theorem execBody_check {s s' : FileState} {u : Uid} {a : FileAct} {n : Option String}
    (hpc : s.tab.pc u = .execBody n) (hs : s.step (u, a) = some s') :
    ∃ nm fd creates stdin stdout, a = .check nm fd creates stdin stdout
      ∧ s.execUpdate u n nm fd creates stdin stdout = some s' := by
  unfold step at hs
  split at hs
  · exact absurd hs (by simp)
  dsimp only at hs
  rw [hpc] at hs
  cases a with
  | check nm fd creates stdin stdout => exact ⟨nm, fd, creates, stdin, stdout, rfl, hs⟩
  | go =>
      obtain ⟨t, ht, _⟩ := Option.map_eq_some_iff.mp hs
      exact absurd hpc ((PState.go_asks ht).2.2 n)
  | _ => exact absurd hs (by simp)

theorem fileInv_step {s s' : FileState} {u : Uid} {a : FileAct} (h : FileInv s)
    (htab : PState.TableInv s.tab) (hg : s.spared (u, a) = true) (hs : s.step (u, a) = some s')
    (hgo : s'.Going) : FileInv s' := by
  unfold step at hs
  split at hs
  · exact absurd hs (by simp)
  dsimp only at hs
  unfold spared at hg
  split at hs
  · rename_i ret n probe hpc
    split at hs
    · exact absurd hs (by simp)
    split at hs
    · rw [← Option.some.inj hs]; exact h
    obtain ⟨t, ht, rfl⟩ := Option.map_eq_some_iff.mp hs
    exact h.call htab hpc ht
  · rename_i ret pID hpc
    obtain ⟨t, ht, rfl⟩ := Option.map_eq_some_iff.mp hs
    exact h.call htab hpc ht
  · rename_i ret e hpc
    obtain ⟨t, ht, rfl⟩ := Option.map_eq_some_iff.mp hs
    exact h.call htab hpc ht
  · rename_i ret type fd hpc
    dsimp only at hg
    rw [hpc] at hg
    exact h.openCall htab hpc (by simpa using hg) hs hgo
  · rename_i ret id hpc
    rw [← Option.some.inj hs] at hgo ⊢
    exact h.closeCall htab hpc hgo
  · rename_i n nm fd creates stdin stdout hpc
    dsimp only at hg
    rw [hpc] at hg
    have hg' := of_decide_eq_true hg
    refine h.execUpdate htab hpc (fun h1 h2 h3 => ?_) hs hgo
    exact ((hg'.resolve_left h1).resolve_left h2).resolve_left h3
  · rename_i executable hd hpc
    exact h.openExecutable hpc hs hgo
  · refine h.goOn htab (fun hpc => ?_) hs hgo
    dsimp only at hg
    rw [hpc] at hg
    exact absurd hg (by simp)
  · exact absurd hs (by simp)

/-- **The table is that of the processes**: forgetting the files leaves a run of `PState`. -/
theorem tab_reachable {name : String} {G : FileState → Uid × FileAct → Prop} {s : FileState}
    (h : (sys name).ReachBy G s) : PState.sys.Reachable s.tab := by
  refine h.invariant (I := fun s => PState.sys.Reachable s.tab) ?_ ?_
  · rintro s ⟨hd, hfit, i, o, i', o', hb⟩
    refine .init ⟨hd, hfit, ?_⟩
    obtain ⟨r, hr, hb⟩ := Option.bind_eq_some_iff.mp hb
    obtain ⟨r', hr', rfl⟩ := Option.map_eq_some_iff.mp hb
    exact (newFileSystem_tab hr').trans (newFileSystem_tab hr)
  · intro s l s' _ hI _ hs
    rcases step_tab hs with he | ⟨a, ha⟩
    · rw [he]; exact hI
    · exact .tail hI trivial ha

theorem fileInv_boot {name : String} (hname : overruns (some name) = false) {hd : NoffHeader}
    {i o i' o' : Int} {s : FileState} (hb : boot name hd i o i' o' = some s) (hgo : s.Going) :
    FileInv s := by
  obtain ⟨r, hr, hb⟩ := Option.bind_eq_some_iff.mp hb
  obtain ⟨r', hr', rfl⟩ := Option.map_eq_some_iff.mp hb
  obtain ⟨hin', hout', _, rfl⟩ := (newFileSystem_cases hr').resolve_left (by simpa using hgo.1)
  have hgo' : r.1.stopped = false := by simpa using hgo.1
  obtain ⟨hin, hout, _, rfl⟩ := (newFileSystem_cases hr).resolve_left (by simpa using hgo')
  have hkernel :=
    owned_newFileSystem (x := .kernel 1) (y := .kernel 0) Owned.nothing hin hout rfl rfl (by simp)
  have hboth := owned_newFileSystem (x := .table 0 1) (y := .table 0 0)
    (s := { ((blank hd).opened i).opened o with kernelTable := consoles i o }) hkernel hin'
    hout' rfl rfl (by simp)
  refine ⟨?_, fun v => ?_, fun v => by simp [upd_apply, blank, hname]⟩
  · refine hboth.congr fun x => ?_
    cases x with
    | kernel j => simp [held, upd_apply, consoles_file]
    | var v => simp [held, upd_apply, blank]
    | table v j =>
        by_cases hv : v = 0
        · subst hv
          simp [held, upd_apply, blank, PState.boot, consoles_file, hname]
        · simp [held, upd_apply, blank, PState.boot, hv]
  · have hpc := PState.boot_pc (Q := fun p => p.hasFile = false) rfl rfl hd v
    simp [blank, hpc]

theorem fileInv_spared {name : String} (hname : overruns (some name) = false) {s : FileState}
    (h : (sys name).ReachBy (fun s l => s.spared l = true) s) : s.Going → FileInv s := by
  refine h.invariant (I := fun s => s.Going → FileInv s) ?_ ?_
  · rintro s ⟨hd, _, i, o, i', o', hb⟩ hgo
    exact fileInv_boot hname hb hgo
  · intro s l s' hr hI hg hs hgo
    exact fileInv_step (hI (step_going hs)) (PState.tableInv_reachable (tab_reachable hr)) hg hs hgo

/-- Nobody is in the kernel. -/
def Quiet (s : FileState) : Prop := s.Going ∧ ∀ u, (s.tab.pc u).idle = true

/-- In the file table of the kernel, or in that which the pointer of a PCB in the process table
leads to. -/
def InTables (s : FileState) (fd : Int) : Prop :=
  (∃ j file, s.kernelTable j = some file ∧ file.file = fd)
  ∨ ∃ i o j file, i < maxProcess ∧ s.tab.bm.test i = true ∧ s.tab.pcb i = some o
      ∧ s.wild o = false ∧ s.fileTable o j = some file ∧ file.file = fd

/-- The descriptors in use are those in the tables. -/
def Conserved (s : FileState) : Prop := ∀ fd, s.isOpen fd = true ↔ s.InTables fd

theorem inTables_iff {s : FileState} (htab : PState.TableInv s.tab) (fd : Int) :
    s.InTables fd ↔ ∃ x, s.held x = some fd ∧ ∀ u, x ≠ .var u := by
  constructor
  · rintro (⟨j, file, hf, he⟩ | ⟨i, o, j, file, hi, htest, hpcb, htame, hf, he⟩)
    · exact ⟨.kernel j, by simp [held, hf, he], by simp⟩
    · obtain ⟨o', hpcb', halive⟩ := (htab.slot i hi).mp htest
      have ho : o' = o := Option.some.inj (hpcb'.symm.trans hpcb)
      rw [ho] at halive
      exact ⟨.table o j, by simp [held, halive, htame, hf, he], by simp⟩
  · rintro ⟨x, hx, hvar⟩
    cases x with
    | kernel j =>
        obtain ⟨file, hf, he⟩ := Option.map_eq_some_iff.mp hx
        exact .inl ⟨j, file, hf, he⟩
    | table o j =>
        simp only [held] at hx
        split at hx
        · rename_i hthere
          obtain ⟨halive, htame⟩ := Bool.and_eq_true_iff.mp hthere
          obtain ⟨file, hf, he⟩ := Option.map_eq_some_iff.mp hx
          obtain ⟨hlt, hpcb⟩ := htab.held o halive
          exact .inr ⟨_, o, j, file, hlt, htab.test_pid halive, hpcb, by simpa using htame, hf, he⟩
        · exact absurd hx (by simp)
    | var u => exact absurd rfl (hvar u)

theorem FileInv.conserved {s : FileState} (h : FileInv s) (htab : PState.TableInv s.tab)
    (hq : s.Quiet) : s.Conserved := by
  have hvar : ∀ u, s.var u = none := fun u => h.var_none (PC.hasFile_of_idle (hq.2 u))
  intro fd
  rw [h.owned.use_iff, inTables_iff htab]
  constructor
  · rintro ⟨x, hx⟩
    refine ⟨x, hx, fun u he => ?_⟩
    rw [he] at hx
    exact absurd ((hvar u).symm.trans hx) (by simp)
  · rintro ⟨x, hx, _⟩
    exact ⟨x, hx⟩

/-! ## What is lost -/

/-- **A process that is removed closes nothing**: what it had open has no holder any more. -/
theorem FileInv.remove_loses {s s' : FileState} (h : FileInv s) {u : Uid} {a : FileAct}
    (hpc : s.tab.pc u = .exitRemove) (hs : s.step (u, a) = some s')
    (htab : PState.TableInv s.tab) {j : Nat} {file : OpenFile}
    (hfile : s.fileTable u j = some file) :
    s'.isOpen file.file = true ∧ ∀ x, s'.held x ≠ some file.file := by
  have hgoes : s.goOn u = some s' := by
    unfold step at hs
    split at hs
    · exact absurd hs (by simp)
    dsimp only at hs
    rw [hpc] at hs
    cases a with
    | go => exact hs
    | _ => exact absurd hs (by simp)
  have halive := htab.active u (by rw [hpc]; rfl)
  obtain ⟨t, ht, rfl⟩ := Option.map_eq_some_iff.mp hgoes
  have hadv := PState.step_advance (by rw [hpc]; rfl) (by rw [hpc]; rfl) ht
  unfold PState.advance at hadv
  rw [hpc] at hadv
  have hdel : t = s.tab.delete u (s.tab.obj u).pid := by
    rw [← Option.some.inj hadv]
    unfold PState.remove
    rw [if_pos (htab.test_pid halive), (htab.held u halive).2]
    exact if_pos rfl
  have hheld : s.held (.table u j) = some file.file := by
    rw [h.held_table halive, hfile]
    rfl
  rw [hpc, hdel]
  refine ⟨(h.owned.use_iff _).mpr ⟨_, hheld⟩, h.owned.lost hheld ?_ fun x c hx => ?_⟩
  · simp [held]
  · cases x with
    | kernel i => exact hx
    | var v => exact hx
    | table o i =>
        by_cases ho : o = u
        · rw [ho] at hx
          simp [held] at hx
        · simpa [held, PState.delete_obj_ne _ _ _ _ ho] using hx

/-- **A full table loses the file of the caller.** -/
theorem FileInv.execUpdate_loses {s s' : FileState} (h : FileInv s) {u : Uid} {n : Option String}
    {nm : String} {fd : Int} {creates : Bool} {stdin stdout : Int} (hpc : s.tab.pc u = .execBody n)
    (hn : n ≠ none) (hnm : n ≠ some nm) (hfd : fd ≠ -1) (hfull : s.tab.bm.findAndSet.1 = -1)
    (hs : s.step (u, .check nm fd creates stdin stdout) = some s') :
    s'.isOpen fd = true ∧ ∀ x, s'.held x ≠ some fd := by
  obtain ⟨_, _, _, _, _, ha, hexec⟩ := execBody_check hpc hs
  obtain ⟨rfl, rfl, rfl, rfl, rfl⟩ := FileAct.check.inj ha
  rcases execUpdate_cases hpc hexec with
    ⟨hfails, _⟩ | ⟨_, _, _, _, ha, rfl⟩ | ⟨_, _, _, _, hfree, _⟩
  · rcases hfails with h1 | h2 | h3
    · exact absurd h1 hn
    · exact absurd h2 hnm
    · exact absurd h3 hfd
  · have hclosed : s.isOpen fd = false := answers_free ha hfd
    refine ⟨by simp [opened, hfd], fun x hx => ?_⟩
    have hbefore : s.held x = some fd := by
      cases x with
      | kernel j => simpa [held] using hx
      | table o j => simpa [held, PState.goto] using hx
      | var v => simpa [held] using hx
    have := (h.owned.use_iff fd).mpr ⟨x, hbefore⟩
    rw [hclosed] at this
    exact Bool.noConfusion this
  · exact absurd hfull hfree

/-- **A name that is too long loses the console of the new process**, to write to at least. -/
theorem FileInv.execUpdate_overruns {s s' : FileState} (h : FileInv s) {u : Uid} {n : Option String}
    {nm : String} {fd : Int} {creates : Bool} {stdin stdout : Int} (hpc : s.tab.pc u = .execBody n)
    (hlong : overruns n = true) (hs : s.step (u, .check nm fd creates stdin stdout) = some s')
    (hmade : s'.tab.pc u ≠ .execFail) (hgo : s'.Going) :
    s'.isOpen stdout = true ∧ ∀ x, s'.held x ≠ some stdout := by
  obtain ⟨_, _, _, _, _, ha, hexec⟩ := execBody_check hpc hs
  obtain ⟨rfl, rfl, rfl, rfl, rfl⟩ := FileAct.check.inj ha
  have hfails : (s.tab.goto u .execFail).pc u = .execFail := upd_self _ _ _
  rcases execUpdate_cases hpc hexec with
    ⟨_, rfl⟩ | ⟨_, _, _, _, _, rfl⟩ | ⟨_, _, ha, hfd, _, id, b, r, hr, rfl⟩
  · exact absurd hfails hmade
  · exact absurd hfails hmade
  · obtain ⟨_, hout, hne, rfl⟩ := (newFileSystem_cases hr).resolve_left (by simpa using hgo.1)
    -- the descriptor was not in use, and is not `fileOpen` either
    have hclosed := answers_free hout hne
    simp only [opened_isOpen, Bool.or_eq_false_iff, decide_eq_false_iff_not] at hclosed
    obtain ⟨⟨hclosed, hother⟩, _⟩ := hclosed
    have hnobody : ∀ x, s.held x ≠ some stdout := fun x hx => by
      rw [(h.owned.use_iff stdout).mpr ⟨x, hx⟩] at hclosed
      exact Bool.noConfusion hclosed
    refine ⟨by simp [hne], fun x hx => ?_⟩
    cases x with
    | kernel j => exact hnobody (.kernel j) (by simpa [held] using hx)
    | table o j =>
        by_cases ho : o = s.tab.next
        · simp [held, ho, hlong] at hx
        · refine hnobody (.table o j) ?_
          simpa [held, upd_ne _ _ ho, PState.create_obj_ne _ _ _ _ _ ho] using hx
    | var v =>
        by_cases hv : v = u
        · simp only [held, hv, upd_self, Option.some.injEq] at hx
          exact hother ⟨hfd, hx.symm⟩
        · exact hnobody (.var v) (by simpa [held, upd_ne _ _ hv] using hx)

/-- **Descriptors are conserved** as long as no step loses one: whenever nobody is in the kernel,
the descriptors in use are those in the tables, and a failing `ExecUpdate` leaves them as they
were. -/
theorem descriptors_conserved (name : String) (hname : overruns (some name) = false) (s : FileState)
    (h : (sys name).ReachBy (fun s l => s.spared l = true) s) :
    (s.Quiet → s.Conserved)
    ∧ ∀ u a s' n, s.tab.pc u = .execBody n → s.spared (u, a) = true → s.step (u, a) = some s' →
        s'.tab.pc u = .execFail → s'.isOpen = s.isOpen := by
  have htab := PState.tableInv_reachable (tab_reachable h)
  refine ⟨fun hq => (fileInv_spared hname h hq.1).conserved htab hq, ?_⟩
  intro u a s' n hpc hg hs hfail
  obtain ⟨nm, fd, creates, stdin, stdout, rfl, hexec⟩ := execBody_check hpc hs
  have hg' := of_decide_eq_true (by simpa only [spared, hpc] using hg)
  rcases execUpdate_cases hpc hexec with
    ⟨_, rfl⟩ | ⟨hn, hnm, hfd, hfull, _⟩ | ⟨_, _, _, _, _, id, b, r, _, rfl⟩
  · rfl
  · exact absurd hfull (((hg'.resolve_left hn).resolve_left hnm).resolve_left hfd).1
  · have hcreate : (s.tab.create u id b).pc u = .execFail := hfail
    rw [PState.create_pc, if_pos rfl] at hcreate
    exact PC.noConfusion hcreate

/-- A run from the start, looked at through `f`. -/
theorem reachBy_of_run {G : FileState → Uid × FileAct → Prop} [∀ s l, Decidable (G s l)] {α : Type}
    {f : FileState → α} {x : α} (ls : List (Uid × FileAct))
    (h : ((boot "main" PState.stackOnly 3 4 5 6).bind fun s =>
      ((sys "main").runBy G s ls).map f) = some x) :
    ∃ s, (sys "main").ReachBy G s ∧ f s = x := by
  obtain ⟨s, hb, hr⟩ := Option.bind_eq_some_iff.mp h
  obtain ⟨s', hs', hf⟩ := Option.map_eq_some_iff.mp hr
  exact ⟨s', Base.System.ReachBy.runBy ls
    (.init ⟨PState.stackOnly, by decide, 3, 4, 5, 6, hb⟩) hs', hf⟩

/-- The initial process executes a program, which gets to user mode. -/
def childRun : List (Uid × FileAct) :=
  [(0, .exec (some "child") 7), (0, .go), (0, .check "main" 7 true 8 9), (0, .go),
    (0, .go), (0, .go),
    (0, .go), (1, .load 7 PState.stackOnly), (1, .go), (1, .go), (1, .go), (1, .go)]

/-- The child exits, its parent joins it, and the child is about to be removed. -/
def exitRun : List (Uid × FileAct) :=
  [(1, .exit 0), (1, .go), (1, .go), (1, .go), (1, .go), (1, .go), (1, .go), (1, .go), (0, .join 1),
    (0, .go), (0, .go), (0, .go), (0, .go), (0, .go), (0, .go), (0, .go), (0, .go), (1, .go)]

/-- Whoever was not forked yet is idle, so a state is quiet when the first two processes are. -/
theorem quiet_of_two {s : FileState} (htab : PState.TableInv s.tab) (hgo : s.Going)
    (hnext : s.tab.next = 2) (h0 : (s.tab.pc 0).idle = true) (h1 : (s.tab.pc 1).idle = true) :
    s.Quiet := by
  refine ⟨hgo, fun u => ?_⟩
  by_cases hu : s.tab.next ≤ u
  · rw [(htab.fresh u hu).2]
    rfl
  · have hlt : u < 2 := Nat.lt_of_not_le (hnext ▸ hu)
    obtain rfl | rfl := Nat.le_one_iff_eq_zero_or_eq_one.mp (Nat.le_of_lt_succ hlt)
    · exact h0
    · exact h1

theorem descriptors_conserved_open : ∃ s, (sys "main").ReachBy (fun s l => s.spared l = true) s
    ∧ s.Quiet ∧ s.isOpen 7 = true ∧ s.Conserved := by
  obtain ⟨s, hr, hf⟩ := reachBy_of_run (G := fun s l => s.spared l = true)
    (f := fun s => (s.stopped, s.tab.status, s.tab.next, s.tab.pc 0, s.tab.pc 1, s.isOpen 7))
    (x := (false, .running, 2, .user (some 1), .user none, true))
    (childRun ++ [(1, .open_ 3 7)]) (by decide +kernel)
  simp only [Prod.mk.injEq] at hf
  obtain ⟨hstop, hrun, hnext, h0, h1, h7⟩ := hf
  have hq : s.Quiet :=
    quiet_of_two (PState.tableInv_reachable (tab_reachable hr)) ⟨hstop, hrun⟩ hnext
    (by rw [h0]; rfl) (by rw [h1]; rfl)
  exact ⟨s, hr, hq, h7, (descriptors_conserved "main" (by decide) s hr).1 hq⟩

/-- The child opens a file and exits: nobody is in the kernel, and the file is open still. -/
theorem descriptors_lost : ∃ s, (sys "main").Reachable s ∧ s.Quiet ∧ ¬ s.Conserved := by
  obtain ⟨s, hr, hf⟩ := reachBy_of_run (G := fun s l => s.spared l = true)
    (f := fun s => (decide (s.tab.pc 1 = .exitRemove ∧ (s.fileTable 1 2).isSome),
      (s.step (1, .go)).map fun s' => (s'.stopped, s'.tab.status, s'.tab.next,
        (s'.tab.pc 0).idle && (s'.tab.pc 1).idle)))
    (x := (true, some (false, .running, 2, true)))
    (childRun ++ [(1, .open_ 3 7)] ++ exitRun) (by decide +kernel)
  simp only [Prod.mk.injEq, decide_eq_true_eq] at hf
  obtain ⟨⟨hpc, hsome⟩, hf⟩ := hf
  obtain ⟨file, hfile⟩ := Option.isSome_iff_exists.mp hsome
  obtain ⟨s', hs, hf⟩ := Option.map_eq_some_iff.mp hf
  simp only [Prod.mk.injEq] at hf
  obtain ⟨hstop', hrun', hnext, hidle⟩ := hf
  obtain ⟨h0, h1⟩ := Bool.and_eq_true_iff.mp hidle
  have hr' : (sys "main").Reachable s' := hr.reachable.tail trivial hs
  have htab' := PState.tableInv_reachable (tab_reachable hr')
  obtain ⟨hopen, hnobody⟩ := (fileInv_spared (by decide) hr (step_going hs)).remove_loses hpc hs
    (PState.tableInv_reachable (tab_reachable hr)) hfile
  refine ⟨s', hr', quiet_of_two htab' ⟨hstop', hrun'⟩ hnext h0 h1, fun hc => ?_⟩
  obtain ⟨x, hx, _⟩ := (inTables_iff htab' _).mp ((hc _).mp hopen)
  exact hnobody x hx

end FileState

end Nachos
