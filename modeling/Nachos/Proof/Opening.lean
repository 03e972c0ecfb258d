import Nachos.Proof.Strings

/-!
# What `Open` returns

`Open` looks for a free slot, opens the file and puts it there; the number of the slot is the
id. Register 2 is written when that went well, and on the ways out that lead to
`ASSERTNOTREACHED`. When the host does not open the file, `Open` returns with register 2
as it was: it holds the code of the call, 6, and 6 is a slot like any other. A name of
more than 32 characters is cut off, and another file is opened.

As long as neither happens, the ids that a process holds are different from each other.
-/

namespace Nachos

open Base (bind_ok bind_eq_of_ok upd upd_self upd_ne System)

/-- The flags that a file of this type is opened with. -/
def openFlags (type : Int) : OpenFlags := if type = readonlyType then .read else .readWrite

/-- A host that knows by which name a descriptor was opened. -/
structure NamedHost {η : Type} (H : HostOps η) where
  nameOf : η → Int → Option CString
  opened : ∀ name flags h, (H.open_ name flags h).1 ≠ -1 →
    nameOf (H.open_ name flags h).2 (H.open_ name flags h).1 = some name

/-! ## The free slot -/

theorem findFreeSlotFrom_free (f : Nat → Option OpenFile) : ∀ (k i : Nat),
    (∃ j, i ≤ j ∧ j < i + k ∧ f j = none) →
    ∃ n : Nat, FileSystem.findFreeSlotFrom f i k = n ∧ i ≤ n ∧ n < i + k ∧ f n = none := by
  intro k
  induction k with
  | zero =>
      intro i h
      obtain ⟨j, h1, h2, _⟩ := h
      omega
  | succ k ih =>
      intro i h
      obtain ⟨j, h1, h2, hj⟩ := h
      rw [FileSystem.findFreeSlotFrom]
      by_cases hi : (f i).isNone
      · rw [if_pos hi]
        exact ⟨i, rfl, Nat.le_refl i, by omega, Option.isNone_iff_eq_none.mp hi⟩
      · rw [if_neg hi]
        have hne : j ≠ i := by
          rintro rfl
          exact hi (by rw [hj]; rfl)
        obtain ⟨n, hn, h3, h4, h5⟩ := ih (i + 1) ⟨j, by omega, by omega, hj⟩
        exact ⟨n, hn, by omega, by omega, h5⟩

theorem findFreeSlotFrom_full (f : Nat → Option OpenFile) : ∀ (k i : Nat),
    (∀ j, i ≤ j → j < i + k → f j ≠ none) → FileSystem.findFreeSlotFrom f i k = -1 := by
  intro k
  induction k with
  | zero => intro _ _; rfl
  | succ k ih =>
      intro i h
      have hi := h i (Nat.le_refl i) (by omega)
      rw [FileSystem.findFreeSlotFrom, if_neg fun hn => hi (Option.isNone_iff_eq_none.mp hn)]
      exact ih (i + 1) fun j h1 h2 => h j (by omega) (by omega)

/-- **`FindFreeSlot`** finds a free slot when there is one. -/
theorem findFreeSlot_free {f : Nat → Option OpenFile}
    (h : ∃ j, 2 ≤ j ∧ j < maxFileOpen ∧ f j = none) :
    ∃ n : Nat, FileSystem.findFreeSlot f = n ∧ 2 ≤ n ∧ n < maxFileOpen ∧ f n = none := by
  obtain ⟨j, h1, h2, hj⟩ := h
  have hmax : maxFileOpen = 10 := rfl
  obtain ⟨n, hn, h3, h4, h5⟩ := findFreeSlotFrom_free f (maxFileOpen - 2) 2 ⟨j, h1, by omega, hj⟩
  exact ⟨n, hn, h3, by omega, h5⟩

/-! ## The case -/

namespace Handler

variable {η : Type} {H : HostOps η}

theorem openType_eq {type : Int} (htype : type = readonlyType ∨ type = readwriteType)
    (name : CString) (h : η) : FileSystem.openType H name type h =
      .ok (if (H.open_ name (openFlags type) h).1 = -1 then none
        else some ⟨(H.open_ name (openFlags type) h).1, 0, type⟩)
        (H.open_ name (openFlags type) h).2 := by
  rcases htype with rfl | rfl
  · have hopen : openForRead H name h =
        .ok (H.open_ name .read h).1 (H.open_ name .read h).2 := rfl
    unfold FileSystem.openType
    rw [if_neg (by decide), if_pos (by decide), bind_eq_of_ok hopen]
    show (if (H.open_ name .read h).1 = -1 then _ else _ : HostM η _) _ = _
    split <;> rename_i hfd
    · rw [show openFlags readonlyType = .read from rfl, if_pos hfd]
      rfl
    · rw [show openFlags readonlyType = .read from rfl, if_neg hfd]
      rfl
  · have hopen : openForReadWrite H name h =
        .ok (H.open_ name .readWrite h).1 (H.open_ name .readWrite h).2 := rfl
    unfold FileSystem.openType
    rw [if_neg (by decide), if_neg (by decide), if_pos rfl, bind_eq_of_ok hopen]
    show (if (H.open_ name .readWrite h).1 = -1 then _ else _ : HostM η _) _ = _
    split <;> rename_i hfd
    · rw [show openFlags readwriteType = .readWrite from rfl, if_pos hfd]
      rfl
    · rw [show openFlags readwriteType = .readWrite from rfl, if_neg hfd]
      rfl

/-- **What `Open` does**, for a name of which `name` is what the kernel has read. -/
structure Opened (H : HostOps η) (fs : Uid) (name : CString) (type : Int)
    (k k' : Kernel η) : Prop where
  rest : k'.pTab = k.pTab ∧ k'.currentThread = k.currentThread
  map : k.machine.SameMap k'.machine ∧ k'.machine.mainMemory = k.machine.mainMemory
  host : k'.host = (H.open_ name (openFlags type) k.host).2
  failed : (H.open_ name (openFlags type) k.host).1 = -1 →
    k'.fileTables = k.fileTables ∧ k'.machine.readRegister 2 = k.machine.readRegister 2
  opened : (H.open_ name (openFlags type) k.host).1 ≠ -1 → ∃ n : Nat, 2 ≤ n ∧ n < maxFileOpen ∧
    k.fileTables fs n = none ∧ (k'.machine.readRegister 2).toInt = n ∧
    k'.fileTables = upd k.fileTables fs (upd (k.fileTables fs) n
      (some ⟨(H.open_ name (openFlags type) k.host).1, 0, type⟩))

theorem scOpen_opened {k : Kernel η} {fs : Uid} {s : List UInt8}
    (hname : HoldsString k.machine (k.machine.readRegister 4).toInt s)
    (htype : (k.machine.readRegister 5).toInt = readonlyType ∨
      (k.machine.readRegister 5).toInt = readwriteType)
    (hfree : ∃ j, 2 ≤ j ∧ j < maxFileOpen ∧ k.fileTables fs j = none) :
    ∃ k', scOpen H fs k = .ok .ret k' ∧
      Opened H fs (s.take 32) (k.machine.readRegister 5).toInt k k' := by
  obtain ⟨k₁, hu2s, hlook⟩ : ∃ k₁, user2System (k.machine.readRegister 4).toInt 32 k =
      .ok (s.take 32) k₁ ∧ Looked k k₁ := user2System_string hname (by decide) (by decide)
  obtain ⟨htab, hthread, hfiles, hhost⟩ := only_machine hlook.rest
  obtain ⟨n, hslot, h2, h10, hnone⟩ := findFreeSlot_free hfree
  have hget : (get : Handler η (Kernel η)) k₁ = .ok k₁ k₁ := rfl
  have hopen := openType_eq (H := H) htype (s.take 32) k₁.host
  have hin : (k.machine.readRegister 5).toInt ≠ inputType := by
    rcases htype with h | h <;> rw [h] <;> decide
  have hout : (k.machine.readRegister 5).toInt ≠ outputType := by
    rcases htype with h | h <;> rw [h] <;> decide
  have heq : scOpen H fs k = openSlot H fs (s.take 32) (k.machine.readRegister 5).toInt n k₁ := by
    rw [scOpen_eq, bind_eq_of_ok hu2s, bind_eq_of_ok hget, hfiles, hslot]
  rw [heq]
  unfold openSlot
  rw [if_neg hin, if_neg hout, if_pos (by omega), bind_eq_of_ok (Kernel.onHost_eq hopen), hhost]
  by_cases hfd : (H.open_ (s.take 32) (openFlags (k.machine.readRegister 5).toInt) k.host).1 = -1
  · rw [if_pos hfd]
    refine ⟨_, rfl, ⟨htab, hthread⟩, ⟨⟨hlook.map.size, hlook.map.valid, hlook.map.readOnly,
      hlook.map.physicalPage⟩, hlook.memory⟩, rfl, fun _ => ⟨hfiles, ?_⟩, fun h => absurd hfd h⟩
    show k₁.machine.registers 2 = k.machine.registers 2
    rw [hlook.registers]
  · rw [if_neg hfd]
    obtain ⟨k', hleave, hr2, hrest⟩ := Kernel.leaveWith_ok (n : Int) (({ k₁ with
      host := (H.open_ (s.take 32) (openFlags (k.machine.readRegister 5).toInt) k.host).2 } :
        Kernel η).putFile fs n ⟨(H.open_ (s.take 32) (openFlags (k.machine.readRegister 5).toInt)
          k.host).1, 0, (k.machine.readRegister 5).toInt⟩)
    have hmax : (maxFileOpen : Int) ≤ intMax := by decide
    refine ⟨k', ?_, ⟨by rw [hrest]; exact htab, by rw [hrest]; exact hthread⟩, ⟨?_, ?_⟩,
      by rw [hrest]; rfl, fun h => absurd h hfd,
      fun _ => ⟨n, h2, h10, hnone, by rw [hr2, Kernel.ofInt_toInt (by omega)], ?_⟩⟩
    · dsimp only
      rw [bind_eq_of_ok (Kernel.setFile_eq _ _ _ _)]
      exact hleave
    · rw [hrest]
      exact ⟨hlook.map.size, hlook.map.valid, hlook.map.readOnly, hlook.map.physicalPage⟩
    · rw [hrest]
      exact hlook.memory
    · rw [hrest]
      show upd k₁.fileTables fs (upd (k₁.fileTables fs) (n : Int).toNat _) = _
      rw [hfiles, Int.toNat_natCast]

/-- **What `Close` does** when it returns. -/
theorem scClose_ok {k k' : Kernel η} {fs : Uid} {id : Int}
    (h4 : (k.machine.readRegister 4).toInt = id) (h : scClose H fs k = .ok .ret k') :
    2 ≤ id ∧ id < maxFileOpen ∧ k'.pTab = k.pTab ∧ k'.currentThread = k.currentThread ∧
      (((k'.machine.readRegister 2).toInt = 0 ∧ (k.fileTables fs id.toNat).isSome = true ∧
          k'.fileTables = upd k.fileTables fs (upd (k.fileTables fs) id.toNat none)) ∨
        ((k'.machine.readRegister 2).toInt = -1 ∧ k'.fileTables = k.fileTables)) := by
  have heq : scClose H fs k = closeSlot H fs id k := by
    rw [← h4]
    rfl
  rw [heq] at h
  unfold closeSlot at h
  split at h
  · rename_i hid
    refine ⟨hid.1, by omega, ?_⟩
    have hat : fileAt fs id k = .ok (k.fileTables fs id.toNat) k := rfl
    rw [bind_eq_of_ok hat] at h
    cases hslot : k.fileTables fs id.toNat with
    | none =>
        rw [hslot] at h
        injection h with _ h
        rw [← h]
        exact ⟨rfl, rfl, .inr ⟨rfl, rfl⟩⟩
    | some file =>
        rw [hslot] at h
        obtain ⟨_, k₁, hclose, hrest⟩ := bind_ok h
        have hk₁ := onHost_rest hclose
        injection hrest with _ hrest
        rw [← hrest, hk₁]
        exact ⟨rfl, rfl, .inl ⟨rfl, rfl, rfl⟩⟩
  · injection h with h
    exact absurd h (by simp)

end Handler

/-! ## The call -/

theorem ite_some_ne {p : Prop} [Decidable p] {a b : Syscall} {x : Option Syscall}
    (h : (if p then some a else x) = some b) (hab : a ≠ b) : x = some b := by
  split at h
  · exact absurd (Option.some.inj h) hab
  · exact h

theorem Syscall.code_open {code : Int} (h : Syscall.ofCode code = some .open_) : code = 6 := by
  by_contra hne
  unfold Syscall.ofCode at h
  -- the cases before `SC_Open`, and those behind it
  iterate 5 replace h := ite_some_ne h (by decide)
  rw [if_neg hne] at h
  iterate 15 replace h := ite_some_ne h (by decide)
  exact absurd h (by simp)

namespace Kernel

variable {η : Type} {H : HostOps η}

/-- **The setting**: the process calls `Open` with the name `s` and one of the two types of files,
and has a slot free. -/
structure OpenSetting (k : Kernel η) (fs : Uid) (s : List UInt8) : Prop where
  owner : k.fileSystem = some fs
  call : k.syscall = some .open_
  name : HoldsString k.machine (k.machine.readRegister 4).toInt s
  type : (k.machine.readRegister 5).toInt = readonlyType ∨
    (k.machine.readRegister 5).toInt = readwriteType
  free : ∃ j, 2 ≤ j ∧ j < maxFileOpen ∧ k.fileTables fs j = none

/-- What the host answers when it is asked to open `s`. -/
def hostOpen (H : HostOps η) (k : Kernel η) (s : CString) : Int :=
  (H.open_ s (openFlags (k.machine.readRegister 5).toInt) k.host).1

/-- **What `Open` should return**: `-1`, with the table as it was, exactly when the host does not
open the file; or else the number of a slot that was free and now has the file, of that name and
type and at its beginning, with all other slots of all processes as they were. -/
def OpenLaw (N : NamedHost H) (k : Kernel η) (fs : Uid) (s : List UInt8) : Prop :=
  ∃ k', exceptionHandler H .syscallException k = .returned k' ∧
    ((k.hostOpen H s = -1 ∧ (k'.machine.readRegister 2).toInt = -1 ∧ k'.fileTables = k.fileTables) ∨
      (k.hostOpen H s ≠ -1 ∧ ∃ n : Nat, 2 ≤ n ∧ n < maxFileOpen ∧
        (k'.machine.readRegister 2).toInt = n ∧ k.fileTables fs n = none ∧
        (∃ file, k'.fileTables fs n = some file ∧ N.nameOf k'.host file.file = some s ∧
          file.type = (k.machine.readRegister 5).toInt ∧ file.currentOffset = 0) ∧
        ∀ u i, (u ≠ fs ∨ i ≠ n) → k'.fileTables u i = k.fileTables u i))

section Open

variable {k : Kernel η} {fs : Uid} {s : List UInt8} (S : OpenSetting k fs s)
include S

theorem open_returned : ∃ k', exceptionHandler H .syscallException k = .returned k' ∧
    Handler.Opened H fs (s.take 32) (k.machine.readRegister 5).toInt k k' := by
  obtain ⟨k', hk', hop⟩ := Handler.scOpen_opened (H := H) S.name S.type S.free
  refine ⟨k', ?_, hop⟩
  rw [returned_iff, dispatch_eq H S.owner S.call]
  exact hk'

/-- When the file does not open, the answer is the code of the call. -/
theorem OpenLaw.opens {N : NamedHost H} (h : OpenLaw N k fs s) : k.hostOpen H (s.take 32) ≠ -1 := by
  intro hfd
  obtain ⟨k', hk', hlaw⟩ := h
  obtain ⟨k'', hk'', hop⟩ := open_returned (H := H) S
  rw [hk'] at hk''
  injection hk'' with hk''
  subst hk''
  obtain ⟨htab, hr2⟩ := hop.failed hfd
  -- register 2 has brought the code of the call, and nothing has been written to it
  have hcode := Syscall.code_open S.call
  rw [← hr2] at hcode
  rcases hlaw with ⟨_, hr, _⟩ | ⟨_, n, _, _, _, hnone, ⟨file, hfile, _⟩, _⟩
  · omega
  · rw [htab, hnone] at hfile
    exact absurd hfile (by simp)

/-- The file that is opened has the name that was read. -/
theorem OpenLaw.short {N : NamedHost H} (h : OpenLaw N k fs s) : s.length ≤ 32 := by
  have hfd := h.opens S
  obtain ⟨k', hk', hlaw⟩ := h
  obtain ⟨k'', hk'', hop⟩ := open_returned (H := H) S
  rw [hk'] at hk''
  injection hk'' with hk''
  subst hk''
  obtain ⟨n', _, _, _, hr2', htab⟩ := hop.opened hfd
  rcases hlaw with ⟨_, hr, _⟩ | ⟨_, n, _, _, hr2, _, ⟨file, hfile, hname, _⟩, _⟩
  · omega
  · -- the slot that is returned has the file of the name that was cut
    have hn : n' = n := by omega
    rw [htab, upd_self, hn, upd_self] at hfile
    rw [← Option.some.inj hfile, hop.host] at hname
    have htake := N.opened (s.take 32) (openFlags (k.machine.readRegister 5).toInt) k.host hfd
    rw [htake] at hname
    have hlen := congrArg List.length (Option.some.inj hname)
    rw [List.length_take] at hlen
    omega

theorem OpenLaw.of_opens (N : NamedHost H) (hlen : s.length ≤ 32) (hfd : k.hostOpen H s ≠ -1) :
    OpenLaw N k fs s := by
  obtain ⟨k', hk', hop⟩ := open_returned (H := H) S
  rw [List.take_of_length_le hlen] at hop
  obtain ⟨n, h2, h10, hnone, hr2, htab⟩ := hop.opened hfd
  refine ⟨k', hk', .inr ⟨hfd, n, h2, h10, hr2, hnone, ?_, fun u i hui => ?_⟩⟩
  · refine ⟨_, by rw [htab, upd_self, upd_self], ?_, rfl, rfl⟩
    rw [hop.host]
    exact N.opened s _ _ hfd
  · rw [htab]
    by_cases hu : u = fs
    · rw [hu, upd_self]
      exact upd_ne _ _ (hui.resolve_left (fun h => h hu))
    · rw [upd_ne _ _ hu]

/-- **One call.** -/
theorem openLaw_iff (N : NamedHost H) :
    OpenLaw N k fs s ↔ s.length ≤ 32 ∧ k.hostOpen H s ≠ -1 := by
  constructor
  · intro h
    have hlen := h.short S
    refine ⟨hlen, ?_⟩
    have hfd := h.opens S
    rwa [List.take_of_length_le hlen] at hfd
  · rintro ⟨hlen, hfd⟩
    exact .of_opens S N hlen hfd

end Open

/-! ## Sequences of calls -/

/-- What happens next. -/
inductive FileEvent (η : Type) where
  /-- `Open(name, type)`, with the address of the name. -/
  | open_ (name type : BitVec 32)
  /-- `Close(id)`. -/
  | close (id : BitVec 32)
  /-- The program computes. -/
  | user (m : Machine)
  /-- The other processes and the host do something of their own. -/
  | others (tables : Uid → Nat → Option OpenFile) (h : η)

/-- The calls of the process whose table is `fs`. Beside the kernel there is a list of the ids that
`Open` has returned and `Close` has not taken back. -/
def session (H : HostOps η) (fs : Uid) : System (Kernel η × List Int) (FileEvent η) where
  init := fun s => s.1.fileSystem = some fs ∧ s.2 = []
  step := fun s e =>
    match e with
    | .open_ name type =>
        (s.1.call H 6 name type 0).map fun r => (r.2, if r.1 = -1 then s.2 else s.2 ++ [r.1])
    | .close id =>
        (s.1.call H 10 id 0 0).map fun r => (r.2, if r.1 = 0 then s.2.erase id.toInt else s.2)
    | .user m => some ({ s.1 with machine := m }, s.2)
    | .others tables h =>
        some ({ s.1 with fileTables := upd tables fs (s.1.fileTables fs), host := h }, s.2)

/-- The file opens, by a name that the kernel reads as it is. -/
def OpensWell (H : HostOps η) (s : Kernel η × List Int) (e : FileEvent η) : Prop :=
  ∀ virAddr type, e = .open_ virAddr type → ∃ name, HoldsString s.1.machine virAddr.toInt name ∧
    name.length ≤ 32 ∧ (type.toInt = readonlyType ∨ type.toInt = readwriteType) ∧
    (H.open_ name (openFlags type.toInt) s.1.host).1 ≠ -1

/-- The ids that are held are the numbers of slots in use, each held once. -/
structure HoldsIds (fs : Uid) (s : Kernel η × List Int) : Prop where
  owner : s.1.fileSystem = some fs
  once : s.2.Nodup
  used : ∀ id ∈ s.2, 0 ≤ id ∧ (s.1.fileTables fs id.toNat).isSome = true

/-- `Open` without a free slot does not come back. -/
theorem call_open_free {k k' : Kernel η} {fs : Uid} {r : Int} {a b : BitVec 32}
    (hfs : k.fileSystem = some fs) (h : k.call H 6 a b 0 = some (r, k')) :
    ∃ j, 2 ≤ j ∧ j < maxFileOpen ∧ k.fileTables fs j = none := by
  by_contra hfull
  have hslot : FileSystem.findFreeSlot (k.fileTables fs) = -1 := by
    refine findFreeSlotFrom_full _ _ 2 fun j h1 h2 hj => hfull ⟨j, h1, ?_, hj⟩
    unfold maxFileOpen at h2 ⊢
    omega
  obtain ⟨hbody, _⟩ := body_of_call hfs (c := .open_) (by decide) h
  have hopen : Handler.scOpen H fs (k.load 6 a b 0) = .ok .ret k' := hbody
  rw [Handler.scOpen_eq] at hopen
  obtain ⟨name, t, hname, hrest⟩ := bind_ok hopen
  have hfiles : t.fileTables = k.fileTables :=
    (Handler.only_machine (Handler.looked_user2System hname).rest).2.2.1
  have hrest' : Handler.openSlot H fs name b.toInt (FileSystem.findFreeSlot (t.fileTables fs)) t =
      .ok .ret k' := hrest
  rw [hfiles] at hrest'
  -- without a slot the case ends with `break`, behind which there is an `ASSERTNOTREACHED`
  obtain ⟨k'', hbrk⟩ := (Handler.openSlot_brk H fs name b.toInt
    (FileSystem.findFreeSlot (k.fileTables fs)) t).mpr (.inr (.inr hslot))
  rw [hbrk] at hrest'
  injection hrest' with hrest'
  exact absurd hrest' (by simp)

theorem fileSystem_of {k k' : Kernel η}
    (h : k'.pTab = k.pTab ∧ k'.currentThread = k.currentThread) : k'.fileSystem = k.fileSystem := by
  unfold fileSystem
  rw [h.1, h.2]

/-- A successful `Open` returns the number of a slot that was free, so nobody holds it. -/
theorem HoldsIds.open_ {fs : Uid} {s : Kernel η × List Int} {k' : Kernel η} {r : Int}
    {a b : BitVec 32} (h : HoldsIds fs s) (hwell : OpensWell H s (.open_ a b))
    (hcall : s.1.call H 6 a b 0 = some (r, k')) :
    HoldsIds fs (k', if r = -1 then s.2 else s.2 ++ [r]) := by
  obtain ⟨name, hname, hlen, htype, hfd⟩ := hwell a b rfl
  obtain ⟨hbody, hr⟩ := body_of_call h.owner (c := .open_) (by decide) hcall
  have hfree := call_open_free h.owner hcall
  obtain ⟨k'', hk'', hop⟩ := Handler.scOpen_opened (H := H) (k := s.1.load 6 a b 0)
    (s := name) (hname.congr fun x => byteAt_load _ _ _ _ _ x) htype hfree
  have hsame : Handler.scOpen H fs (s.1.load 6 a b 0) = .ok .ret k' := hbody
  rw [hk''] at hsame
  injection hsame with _ hsame
  subst hsame
  rw [List.take_of_length_le hlen] at hop
  obtain ⟨n, h2, _, hnone, hr2, htab⟩ := hop.opened hfd
  rw [hr2] at hr
  have hnone' : s.1.fileTables fs n = none := hnone
  have hnew : (n : Int) ∉ s.2 := by
    intro hn
    have := (h.used n hn).2
    rw [Int.toNat_natCast, hnone'] at this
    exact absurd this (by simp)
  rw [hr, if_neg (by omega)]
  refine ⟨(fileSystem_of hop.rest).trans h.owner, ?_, fun id hid => ?_⟩
  · exact List.concat_eq_append ▸ h.once.concat hnew
  · show 0 ≤ id ∧ (k''.fileTables fs id.toNat).isSome = true
    rw [htab, upd_self]
    rcases List.mem_append.mp hid with hid | hid
    · obtain ⟨h0, hs⟩ := h.used id hid
      refine ⟨h0, ?_⟩
      have hne : id.toNat ≠ n := fun he => hnew (by rw [← he, Int.toNat_of_nonneg h0]; exact hid)
      rw [upd_ne _ _ hne]
      exact hs
    · rw [List.mem_singleton.mp hid, Int.toNat_natCast, upd_self]
      exact ⟨by omega, rfl⟩

/-- `Close` frees the slot of the id that it takes back. -/
theorem HoldsIds.close {fs : Uid} {s : Kernel η × List Int} {k' : Kernel η} {r : Int}
    {id : BitVec 32} (h : HoldsIds fs s) (hcall : s.1.call H 10 id 0 0 = some (r, k')) :
    HoldsIds fs (k', if r = 0 then s.2.erase id.toInt else s.2) := by
  obtain ⟨hbody, hr⟩ := body_of_call h.owner (c := .close) (by decide) hcall
  have hclose : Handler.scClose H fs (s.1.load 10 id 0 0) = .ok .ret k' := hbody
  obtain ⟨h2, _, htab, hthread, hcases⟩ := Handler.scClose_ok
    (show ((s.1.load 10 id 0 0).machine.readRegister 4).toInt = id.toInt from rfl) hclose
  have howner : k'.fileSystem = some fs := (fileSystem_of ⟨htab, hthread⟩).trans h.owner
  rcases hcases with ⟨hr2, _, hfiles⟩ | ⟨hr2, hfiles⟩
  · rw [hr, hr2, if_pos rfl]
    refine ⟨howner, h.once.erase _, fun i hi => ?_⟩
    obtain ⟨hne, hi'⟩ := h.once.mem_erase_iff.mp hi
    obtain ⟨h0, hs⟩ := h.used i hi'
    refine ⟨h0, ?_⟩
    show (k'.fileTables fs i.toNat).isSome = true
    rw [hfiles, upd_self, upd_ne _ _ (by omega)]
    exact hs
  · rw [hr, hr2, if_neg (by decide)]
    refine ⟨howner, h.once, fun i hi => ?_⟩
    show 0 ≤ i ∧ (k'.fileTables fs i.toNat).isSome = true
    rw [hfiles]
    exact h.used i hi

theorem HoldsIds.step {fs : Uid} {s s' : Kernel η × List Int} {e : FileEvent η} (h : HoldsIds fs s)
    (hwell : OpensWell H s e) (hs : (session H fs).step s e = some s') : HoldsIds fs s' := by
  cases e with
  | open_ a b =>
      obtain ⟨⟨r, k'⟩, hcall, he⟩ := Option.map_eq_some_iff.mp hs
      rw [← he]
      exact h.open_ hwell hcall
  | close id =>
      obtain ⟨⟨r, k'⟩, hcall, he⟩ := Option.map_eq_some_iff.mp hs
      rw [← he]
      exact h.close hcall
  | user m =>
      rw [← Option.some.inj hs]
      exact ⟨h.owner, h.once, h.used⟩
  | others tables host =>
      rw [← Option.some.inj hs]
      refine ⟨h.owner, h.once, fun id hid => ?_⟩
      show 0 ≤ id ∧ (upd tables fs (s.1.fileTables fs) fs id.toNat).isSome = true
      rw [upd_self]
      exact h.used id hid

theorem holdsIds_reachBy {fs : Uid} {s : Kernel η × List Int}
    (h : (session H fs).ReachBy (OpensWell H) s) : HoldsIds fs s := by
  refine System.ReachBy.invariant (I := HoldsIds fs) ?_ ?_ h
  · rintro s ⟨howner, hnil⟩
    refine ⟨howner, by rw [hnil]; exact List.nodup_nil, fun id hid => ?_⟩
    rw [hnil] at hid
    exact absurd hid (by simp)
  · intro s e s' _ hi hwell hs
    exact hi.step hwell hs

/-- **The law of `Open`**: it holds of a call when the name has at most 32 characters and the host
opens the file, and of no other; and a process all of whose calls are of this kind never holds one
id twice. -/
theorem open_law (N : NamedHost H) (fs : Uid) :
    (∀ k s, OpenSetting k fs s → (OpenLaw N k fs s ↔ s.length ≤ 32 ∧ k.hostOpen H s ≠ -1)) ∧
    (∀ s, (session H fs).ReachBy (OpensWell H) s → s.2.Nodup) :=
  ⟨fun _ _ S => openLaw_iff S N, fun _ h => (holdsIds_reachBy h).once⟩

/-- A host that opens whatever has a name, and remembers it. -/
def registry : HostOps (List CString) where
  open_ := fun name _ h => if name = [] then (-1, h) else ((h.length : Int) + 3, h ++ [name])
  close := fun _ h => (0, h)
  read := fun _ _ h => ((0, []), h)
  write := fun _ _ n h => (n, h)
  lseek := fun _ _ _ h => (0, h)
  rand := fun h => (0, h)
  unset := fun _ => 0

/-- Its descriptors know their names. -/
def registryNames : NamedHost registry where
  nameOf := fun h fd => h[(fd - 3).toNat]?
  opened := fun name flags h hfd => by
    by_cases hname : name = []
    · exact absurd (by simp [registry, hname]) hfd
    · simp [registry, hname]

/-- The initial process calls `Open("a", ReadOnly)`, on a host in state `h`. -/
def opening (h : η) : Kernel η where
  machine :=
    { registers := fun r => if r = 2 then 6#32 else if r = 5 then 3#32 else 0#32
      mainMemory := fun a => if a = 0 then 97 else 0
      pageTable := fun v => ⟨v, v, true, false, false, false⟩
      pageTableSize := 2 }
  currentThread := 0
  fileTables := fun _ i =>
    if i = 0 then some ⟨4, 0, outputType⟩ else if i = 1 then some ⟨3, 0, inputType⟩ else none
  host := h
  input := []
  printed := []
  pTab := PState.boot PState.stackOnly
  pTabRun := []
  sTab := ⟨STable.new, fun _ => .out none⟩
  sTabRun := []
  display := ConsoleState.start
  displayRun := []

theorem opening_setting (h : η) : OpenSetting (opening h) 0 [97] where
  owner := rfl
  call := rfl
  name := by
    have hm : HoldsString (opening ()).machine 0 [97] := ⟨by decide, by decide, by decide⟩
    exact hm
  type := .inl rfl
  free := ⟨2, by decide, by decide, rfl⟩

/-- A file that is there. -/
theorem open_law_there : OpenLaw registryNames (opening []) 0 [97] :=
  ((open_law registryNames 0).1 _ _ (opening_setting [])).mpr ⟨by decide, by decide⟩

/-- A file that is not there: `Open` returns 6. -/
theorem open_law_missing :
    ¬ ∀ (η : Type) (H : HostOps η) (N : NamedHost H) (fs : Uid) (k : Kernel η) (s : List UInt8),
      OpenSetting k fs s → OpenLaw N k fs s := by
  intro h
  have hlaw :=
    h Unit bareHost ⟨fun _ _ => none, fun _ _ _ hfd => absurd rfl hfd⟩ 0 (opening ()) [97]
    (opening_setting ())
  exact hlaw.opens (opening_setting ()) rfl

end Kernel

end Nachos
