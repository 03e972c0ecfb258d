import Nachos.Proof.Bounds
import Nachos.Proof.Fidelity

/-!
# Where a transfer begins

The place in a file is kept twice, in `currentOffset` of the `OpenFile` and by the host. `Read`
and `Write` begin with `getCurrentOffset`, which takes the host's word for it, so the host is
the one that counts. `Length`, which `Seek` calls before it refuses a position, asks the host
by going to the end of the file, and nobody goes back.
-/

namespace Nachos

open Base (Keeps bind_ok bind_eq_of_ok upd upd_self upd_ne)

/-- What is in the file after `bs` has been written at `p`. -/
def deposit (c : List UInt8) (p : Nat) (bs : List UInt8) : List UInt8 :=
  if bs = [] then c else overwrite c p bs

namespace Kernel

variable {η : Type}

/-- The caller has a file open in slot `id`, of one of the two types. -/
structure Regular (fs : Uid) (id fd : Int) (k : Kernel η) : Prop where
  owner : k.fileSystem = some fs
  slot : 2 ≤ id ∧ id < maxFileOpen
  opened : ∃ o t, (t = readonlyType ∨ t = readwriteType) ∧
    k.fileTables fs id.toNat = some ⟨fd, o, t⟩

theorem Regular.load {fs : Uid} {id fd : Int} {k : Kernel η} (h : Regular fs id fd k)
    (code arg1 arg2 arg3 : BitVec 32) : Regular fs id fd (k.load code arg1 arg2 arg3) :=
  ⟨h.owner, h.slot, h.opened⟩

theorem newChar_ok {size : Int} {k k' : Kernel η} (h : Handler.newChar size k = .ok () k') :
    0 ≤ size ∧ k' = k := by
  unfold Handler.newChar assert at h
  split at h
  · injection h with _ h
    exact ⟨‹_›, h.symm⟩
  · exact absurd h (by intro h; cases h)

/-- The end of a case changes nothing but registers. -/
theorem leaveWith_rest {result : Int} {k k' : Kernel η} {e : Exit}
    (h : Handler.leaveWith result k = .ok e k') :
    k'.machine.readRegister 2 = BitVec.ofInt 32 result ∧ k' = { k with machine := k'.machine } := by
  obtain ⟨k'', hk'', hr, hrest⟩ := leaveWith_ok result k
  rw [hk''] at h
  injection h with _ h
  rw [← h]
  exact ⟨hr, by rw [hrest]⟩

theorem leaveWith_host {result : Int} {k k' : Kernel η} {e : Exit}
    (h : Handler.leaveWith result k = .ok e k') :
    k'.machine.readRegister 2 = BitVec.ofInt 32 result ∧ k'.host = k.host :=
  ⟨(leaveWith_rest h).1, by rw [(leaveWith_rest h).2]⟩

section Regular

variable {H : HostOps η} {fs : Uid} {id fd : Int} {k k' : Kernel η} (F : PlainFile H fd)
  (hk : Regular fs id fd k)
include hk

/-- **`Read` of a file** takes what there is from the place of the host on, at most `n` bytes. -/
theorem scRead_moves {n : Int} {e : Exit} (h5 : (k.machine.readRegister 5).toInt = n)
    (h6 : (k.machine.readRegister 6).toInt = id) (hpos : (F.pos k.host : Int) ≤ intMax)
    (hlen : ((F.content k.host).length : Int) ≤ intMax) (h : Handler.scRead H fs k = .ok e k') :
    let bs := ((F.content k.host).drop (F.pos k.host)).take n.toNat
    F.content k'.host = F.content k.host ∧ F.pos k'.host = F.pos k.host + bs.length ∧
      (k'.machine.readRegister 2).toInt = if bs = [] then -2 else (bs.length : Int) := by
  intro bs
  obtain ⟨o, t, ht, ho⟩ := hk.opened
  have hslot := hk.slot
  rw [Handler.scRead_eq_testId, h5, h6, Handler.testId_some (by omega) ho] at h
  unfold Handler.readFound at h
  rw [if_neg (by simp only [indexStdout]; omega)] at h
  unfold Handler.readFileCase at h
  obtain ⟨h₁, hoff, hpos₁, hcont₁⟩ := F.getCurrentOffset_ok (h := k.host) hpos ⟨fd, o, t⟩ rfl
  rw [bind_eq_of_ok (onHost_eq hoff), bind_eq_of_ok (setFile_eq _ _ _ _)] at h
  obtain ⟨_, k₁, hnew, h⟩ := bind_ok h
  obtain ⟨hn, rfl⟩ := newChar_ok hnew
  rw [if_neg (by simp only [indexStdin]; omega)] at h
  unfold Handler.readFile at h
  obtain ⟨m, rfl⟩ := Int.eq_ofNat_of_zero_le hn
  obtain ⟨o₂, h₂, hread₂, hpos₂, hcont₂⟩ := F.read_ok (h := h₁) (p := F.pos k.host) (n := m) hpos
    ⟨fd, F.pos k.host, t⟩ rfl rfl
  have hbs : ((F.content h₁).drop (F.pos k.host)).take m = bs := by
    show _ = ((F.content k.host).drop (F.pos k.host)).take (Int.toNat (m : Int))
    rw [hcont₁, Int.toNat_natCast]
  have hfits : bs.length ≤ (F.content k.host).length - F.pos k.host := by
    rw [← hbs, hcont₁, List.length_take, List.length_drop]
    omega
  rw [hbs] at hread₂ hpos₂
  rw [bind_eq_of_ok (onHost_eq hread₂), bind_eq_of_ok (setFile_eq _ _ _ _)] at h
  dsimp only at h
  -- what is returned is the difference of two places, so nothing must wrap around
  split at h
  · rename_i hpositive
    have hne : bs ≠ [] := by
      rintro he
      rw [he] at hpositive
      simp at hpositive
    have hlt : (F.pos k.host : Int) + bs.length ≤ intMax := by omega
    obtain ⟨h₃, htell, hpos₃, hcont₃⟩ := F.getCurrentOffset_ok (h := h₂) (by omega)
      ⟨fd, o₂, t⟩ rfl
    rw [bind_eq_of_ok (onHost_eq htell), bind_eq_of_ok (setFile_eq _ _ _ _)] at h
    obtain ⟨_, k₂, hcopy, h⟩ := bind_ok h
    have hhost₂ := Handler.keeps_system2User (f := Kernel.host) (fun _ _ _ => rfl) _ _ _ _ _ _ hcopy
    obtain ⟨hr, hhost⟩ := leaveWith_host h
    have hresult : toInt32 ((F.pos h₂ : Int) - F.pos k.host) = bs.length := by
      rw [hpos₂, toInt32_of_range (by omega) (by omega)]
      omega
    rw [hhost, hhost₂]
    refine ⟨hcont₃.trans (hcont₂.trans hcont₁), hpos₃.trans hpos₂, ?_⟩
    rw [hr, hresult, ofInt_toInt (by omega), if_neg hne]
  · rename_i hnone
    have he : bs = [] := List.eq_nil_iff_length_eq_zero.mpr (by omega)
    obtain ⟨hr, hhost⟩ := leaveWith_host h
    rw [hhost, hr, if_pos he]
    exact ⟨hcont₂.trans hcont₁, hpos₂, rfl⟩

/-- **`Write` of a file** brings `n` bytes to the place of the host, or refuses. -/
theorem scWrite_moves {n : Int} {e : Exit} (h5 : (k.machine.readRegister 5).toInt = n)
    (h6 : (k.machine.readRegister 6).toInt = id) (hn : 1 ≤ n)
    (hfits : (F.pos k.host : Int) + n ≤ intMax) (h : Handler.scWrite H fs k = .ok e k') :
    ∃ bs, F.content k'.host = deposit (F.content k.host) (F.pos k.host) bs ∧
      F.pos k'.host = F.pos k.host + bs.length ∧ (bs = [] ∨ (bs.length : Int) = n) ∧
      (k'.machine.readRegister 2).toInt = if bs = [] then -1 else (bs.length : Int) := by
  obtain ⟨o, t, ht, ho⟩ := hk.opened
  have hslot := hk.slot
  rw [Handler.scWrite_eq_testId, h5, h6, Handler.testId_some (by omega) ho] at h
  unfold Handler.writeFound at h
  rcases ht with rfl | rfl
  · -- a file for reading only is left alone
    rw [if_pos (.inl rfl), leaveSaying_eq] at h
    injection h with _ h
    rw [← h]
    exact ⟨[], rfl, rfl, .inl rfl, rfl⟩
  · rw [if_neg (by simp only [indexStdin, readwriteType, readonlyType]; omega)] at h
    unfold Handler.writeFileCase at h
    obtain ⟨h₁, hoff, hpos₁, hcont₁⟩ := F.getCurrentOffset_ok (h := k.host) (by omega)
      ⟨fd, o, readwriteType⟩ rfl
    rw [bind_eq_of_ok (onHost_eq hoff), bind_eq_of_ok (setFile_eq _ _ _ _)] at h
    obtain ⟨cs, k₁, htext, h⟩ := bind_ok h
    have hhost₁ := (Handler.only_machine (Handler.looked_user2System htext).rest).2.2.2
    rw [if_neg (by simp only [indexStdout]; omega)] at h
    unfold Handler.writeToFile at h
    obtain ⟨m, rfl⟩ := Int.eq_ofNat_of_zero_le (show (0 : Int) ≤ n by omega)
    rw [if_pos rfl] at h
    -- the array of the kernel has a byte more than are written
    let array := cs ++ List.replicate ((m : Int).toNat + 1 - cs.length) 0
    have harray : m ≤ array.length := by
      simp only [array, List.length_append, List.length_replicate, Int.toNat_natCast]
      omega
    obtain ⟨o₂, h₂, hwrite, hpos₂, hcont₂⟩ := F.write_ok (h := k₁.host) harray
      (p := F.pos k.host) (by omega) ⟨fd, F.pos k.host, readwriteType⟩ rfl rfl
    rw [bind_eq_of_ok (onHost_eq hwrite), bind_eq_of_ok (setFile_eq _ _ _ _)] at h
    dsimp only at h
    rw [if_pos (by omega)] at h
    obtain ⟨h₃, htell, hpos₃, hcont₃⟩ := F.getCurrentOffset_ok (h := h₂) (by omega)
      ⟨fd, o₂, readwriteType⟩ rfl
    rw [bind_eq_of_ok (onHost_eq htell), bind_eq_of_ok (setFile_eq _ _ _ _)] at h
    obtain ⟨hr, hhost⟩ := leaveWith_host h
    have hlength : (array.take m).length = m := by rw [List.length_take]; omega
    have hne : array.take m ≠ [] := by
      intro he
      rw [he, List.length_nil] at hlength
      omega
    have hresult : toInt32 ((F.pos h₂ : Int) - F.pos k.host) = m := by
      rw [hpos₂, toInt32_of_range (by omega) (by omega)]
      omega
    refine ⟨array.take m, ?_, ?_, .inr (by rw [hlength]), ?_⟩
    · rw [hhost]
      show F.content h₃ = _
      rw [hcont₃, hcont₂, hhost₁, deposit, if_neg hne]
      exact congrArg (overwrite · _ _) hcont₁
    · rw [hhost, hlength]
      exact hpos₃.trans hpos₂
    · rw [hr, hresult, ofInt_toInt (by omega), if_neg hne, hlength]

omit hk in
/-- A position inside the file is accepted, and is what `Seek` returns: so one that is refused is
outside, and asking for the length has moved the file. -/
theorem seekTo_refused {file : OpenFile} {position : Int} {e : Exit} (hfile : file.file = fd)
    (hlen : ((F.content k.host).length : Int) ≤ intMax) (hne : position ≠ -1)
    (h : Handler.seekTo H fs id file position k = .ok e k')
    (hr : (k'.machine.readRegister 2).toInt = -1) :
    ∃ h', k' = { k with host := h' }.said "\nLoi di chuyen con tro file den vi tri nay." (-1) ∧
      F.content h' = F.content k.host ∧ F.pos h' = (F.content k.host).length ∧
      (position > (F.content k.host).length ∨ position < 0) := by
  obtain ⟨h', hlength, hcont, hpos⟩ := F.length_ok (h := k.host) hlen file hfile
  rw [Handler.seekTo, bind_eq_of_ok (onHost_eq hlength)] at h
  split at h
  · rename_i hout
    rw [leaveSaying_eq] at h
    injection h with _ h
    exact ⟨h', h.symm, hcont, hpos, hout⟩
  · rename_i hin
    exfalso
    obtain ⟨_, _, _, h⟩ := bind_ok h
    obtain ⟨_, _, _, h⟩ := bind_ok h
    obtain ⟨hr', _⟩ := leaveWith_host h
    obtain ⟨m, rfl⟩ := Int.eq_ofNat_of_zero_le (show (0 : Int) ≤ position by omega)
    rw [hr', ofInt_toInt (by omega)] at hr
    omega

/-- **A `Seek` that is refused** leaves the file at its end. -/
theorem scSeek_refused {e : Exit} (h5 : (k.machine.readRegister 5).toInt = id)
    (hlen : ((F.content k.host).length : Int) ≤ intMax) (h : Handler.scSeek H fs k = .ok e k')
    (hr : (k'.machine.readRegister 2).toInt = -1) :
    Regular fs id fd k' ∧ F.content k'.host = F.content k.host ∧
      F.pos k'.host = (F.content k.host).length := by
  obtain ⟨o, t, ht, ho⟩ := hk.opened
  have hslot := hk.slot
  have hread : ∀ num, Handler.readRegister num k = .ok (k.machine.readRegister num).toInt k :=
    fun _ => rfl
  have hat : Handler.fileAt fs id k = .ok (some ⟨fd, o, t⟩) k := by rw [← ho]; rfl
  rw [Handler.scSeek, bind_eq_of_ok (hread 4), bind_eq_of_ok (hread 5), h5, if_neg (by omega),
    bind_eq_of_ok hat] at h
  dsimp only at h
  rw [if_neg (by omega)] at h
  split at h
  · -- `Seek(-1, id)` is for the end of the file, which is not refused
    obtain ⟨h₁, hlength, hcont₁, _⟩ := F.length_ok (h := k.host) hlen ⟨fd, o, t⟩ rfl
    rw [bind_eq_of_ok (onHost_eq hlength)] at h
    obtain ⟨_, _, _, _, hout⟩ := seekTo_refused F (k := { k with host := h₁ }) rfl
      (by rw [hcont₁]; exact hlen) (by omega) h hr
    rw [hcont₁] at hout
    omega
  · rename_i hne
    obtain ⟨h', rfl, hcont, hpos, _⟩ := seekTo_refused F rfl hlen hne h hr
    exact ⟨⟨hk.owner, hk.slot, o, t, ht, ho⟩, hcont, hpos⟩

/-- A `Read` of no bytes always comes back. -/
theorem read_nothing (hpos : (F.pos k.host : Int) ≤ intMax) {num : BitVec 32}
    (hid : num.toInt = id) : ∃ r k', k.call H 7 0 0 num = some (r, k') := by
  obtain ⟨o, t, ht, ho⟩ := hk.opened
  have hslot := hk.slot
  let k₀ := k.load 7 0 0 num
  have hnum : (k₀.machine.readRegister 6).toInt = id := hid
  obtain ⟨h₁, hoff, hpos₁, hcont₁⟩ := F.getCurrentOffset_ok (h := k.host) hpos ⟨fd, o, t⟩ rfl
  obtain ⟨o₂, h₂, hread, _, _⟩ := F.read_ok (h := h₁) (p := F.pos k.host) (n := 0) hpos
    ⟨fd, F.pos k.host, t⟩ rfl rfl
  rw [List.take_zero] at hread
  have hcase : Handler.scRead H fs k₀ =
      Handler.leaveWith (-2) ({ { k₀ with host := h₁ }.putFile fs id ⟨fd, F.pos k.host, t⟩ with
        host := h₂ }.putFile fs id ⟨fd, o₂, t⟩) := by
    rw [Handler.scRead_eq_testId, hnum, Handler.testId_some (k := k₀) (by omega) ho]
    unfold Handler.readFound
    rw [if_neg (by simp only [indexStdout]; omega)]
    unfold Handler.readFileCase
    rw [bind_eq_of_ok (onHost_eq (k := k₀) hoff), bind_eq_of_ok (setFile_eq _ _ _ _)]
    have hnew : ∀ k₁ : Kernel η, Handler.newChar (k₀.machine.readRegister 5).toInt k₁ = .ok () k₁ :=
      fun _ => rfl
    rw [bind_eq_of_ok (hnew _), if_neg (by simp only [indexStdin]; omega)]
    unfold Handler.readFile
    exact (bind_eq_of_ok (onHost_eq hread)).trans (bind_eq_of_ok (setFile_eq _ _ _ _))
  have hleave :=
    leaveWith_ok (-2) ({ { k₀ with host := h₁ }.putFile fs id ⟨fd, F.pos k.host, t⟩ with
    host := h₂ }.putFile fs id ⟨fd, o₂, t⟩)
  obtain ⟨k', hk', _, _⟩ := hleave
  exact ⟨_, k', call_of_body hk.owner (c := .read) (by decide) (hcase.trans hk')⟩

end Regular

/-! ## After a `Seek` that is refused -/

section Seek

variable {H : HostOps η} {fs : Uid} {fd : Int} {id : BitVec 32} {k k' : Kernel η}

/-- **Transfers begin at `p`**: a `Read` that comes back has fetched what follows `p`, and a `Write`
that comes back without an error has put its bytes at `p`. -/
structure TransfersAt (F : PlainFile H fd) (id : BitVec 32) (k : Kernel η) (p : Nat) : Prop where
  read : ∀ dst n r k', k.call H 7 dst n id = some (r, k') →
    F.content k'.host = F.content k.host ∧
      F.pos k'.host = p + (((F.content k.host).drop p).take n.toInt.toNat).length
  write : ∀ buf n r k', 1 ≤ n.toInt → (p : Int) + n.toInt ≤ intMax →
    k.call H 8 buf n id = some (r, k') → r ≠ -1 →
      ∃ bs, (bs.length : Int) = n.toInt ∧ F.content k'.host = overwrite (F.content k.host) p bs ∧
        F.pos k'.host = p + bs.length

/-- The next transfer begins where it would have begun before. -/
def Harmless (F : PlainFile H fd) (id : BitVec 32) (k k' : Kernel η) : Prop :=
  ∃ p, TransfersAt F id k p ∧ TransfersAt F id k' p

/-- **Transfers begin at the place of the host.** -/
theorem transfersAt_pos {F : PlainFile H fd} (hk : Regular fs id.toInt fd k)
    (hpos : (F.pos k.host : Int) ≤ intMax) (hlen : ((F.content k.host).length : Int) ≤ intMax) :
    TransfersAt F id k (F.pos k.host) where
  read := by
    intro dst n r k' hcall
    obtain ⟨hbody, _⟩ := body_of_call hk.owner (c := .read) (by decide) hcall
    obtain ⟨hcont, hpos', _⟩ := scRead_moves F (hk.load 7 dst n id) (n := n.toInt) rfl rfl hpos hlen
      hbody
    exact ⟨hcont, hpos'⟩
  write := by
    intro buf n r k' hn hfits hcall hr
    obtain ⟨hbody, hr2⟩ := body_of_call hk.owner (c := .write) (by decide) hcall
    obtain ⟨bs, hcont, hpos', hsize, hcount⟩ :=
      scWrite_moves F (hk.load 8 buf n id) (n := n.toInt) rfl rfl hn hfits hbody
    have hne : bs ≠ [] := by
      intro he
      rw [if_pos he] at hcount
      exact hr (hr2.trans hcount)
    refine ⟨bs, hsize.resolve_left hne, ?_, hpos'⟩
    rw [hcont, deposit, if_neg hne]
    rfl

theorem TransfersAt.unique {F : PlainFile H fd} {p : Nat} (h : TransfersAt F id k p)
    (hk : Regular fs id.toInt fd k) (hpos : (F.pos k.host : Int) ≤ intMax)
    (hlen : ((F.content k.host).length : Int) ≤ intMax) : p = F.pos k.host := by
  obtain ⟨r, k', hcall⟩ := read_nothing F hk hpos rfl
  have h1 : F.pos k'.host = p := (h.read _ _ _ _ hcall).2
  have h2 : F.pos k'.host = F.pos k.host := ((transfersAt_pos hk hpos hlen).read _ _ _ _ hcall).2
  rw [← h1, h2]

section Refused

variable (F : PlainFile H fd) (hk : Regular fs id.toInt fd k) (hpos : (F.pos k.host : Int) ≤ intMax)
  (hlen : ((F.content k.host).length : Int) ≤ intMax) {position : BitVec 32}
  (hfail : k.call H 9 position id 0 = some (-1, k'))
include hk hpos hlen hfail

omit hpos in
theorem seek_refused : Regular fs id.toInt fd k' ∧
    F.pos k'.host = (F.content k.host).length ∧ F.content k'.host = F.content k.host := by
  obtain ⟨hbody, hr⟩ := body_of_call hk.owner (c := .seek) (by decide) hfail
  obtain ⟨hk', hcont, hend⟩ := scSeek_refused F (hk.load 9 position id 0) rfl hlen hbody hr.symm
  exact ⟨hk', hend, hcont⟩

theorem Harmless.at_end (h : Harmless F id k k') : F.pos k.host = (F.content k.host).length := by
  obtain ⟨hk', hend, hcont⟩ := seek_refused F hk hlen hfail
  obtain ⟨p, hp, hp'⟩ := h
  rw [← hp.unique hk hpos hlen, ← hend]
  exact hp'.unique hk' (by rw [hend]; exact hlen) (by rw [hcont]; exact hlen)

/-- **A `Seek` that is refused is harmless exactly when the file was at its end already.** -/
theorem seek_harmless_iff : Harmless F id k k' ↔ F.pos k.host = (F.content k.host).length := by
  refine ⟨Harmless.at_end F hk hpos hlen hfail, fun heq => ?_⟩
  obtain ⟨hk', hend, hcont⟩ := seek_refused F hk hlen hfail
  refine ⟨F.pos k.host, transfersAt_pos hk hpos hlen, ?_⟩
  rw [heq, ← hend]
  exact transfersAt_pos hk' (by rw [hend]; exact hlen) (by rw [hcont]; exact hlen)

end Refused

end Seek

/-- The file of `copying` has two bytes. It is at offset `p`. -/
def placed (p : Nat) : Kernel (List UInt8 × Nat) := { copying 99 with host := ([120, 121], p) }

theorem placed_regular (p : Nat) : Regular 0 2 5 (placed p) :=
  ⟨rfl, by decide, 0, readwriteType, .inr rfl, rfl⟩

theorem placed_refused (p : Nat) :
    ∃ k', (placed p).call arrayHost 9 100#32 2#32 0 = some (-1, k') := ⟨_, rfl⟩

/-- `Seek(100, 2)` when the file is at its end. -/
theorem seek_harmless_end :
    ∃ k', (placed 2).call arrayHost 9 100#32 2#32 0 = some (-1, k') ∧
      Harmless arrayFile 2#32 (placed 2) k' := by
  obtain ⟨k', hk'⟩ := placed_refused 2
  refine ⟨k', hk', ?_⟩
  exact (seek_harmless_iff arrayFile (placed_regular 2) (by decide) (by decide) hk').mpr rfl

/-- `Seek(100, 2)` when the file is at offset 0: the next `Read` finds its end. -/
theorem seek_moves_file :
    ¬ ∀ (η : Type) (H : HostOps η) (fd : Int) (F : PlainFile H fd) (fs : Uid)
    (id position : BitVec 32)
      (k k' : Kernel η), Regular fs id.toInt fd k → (F.pos k.host : Int) ≤ intMax →
      ((F.content k.host).length : Int) ≤ intMax → k.call H 9 position id 0 = some (-1, k') →
      Harmless F id k k' := by
  intro h
  obtain ⟨k', hk'⟩ := placed_refused 0
  have hh := h _ arrayHost 5 arrayFile 0 2#32 100#32 (placed 0) k' (placed_regular 0) (by decide)
    (by decide) hk'
  have hend := hh.at_end arrayFile (placed_regular 0) (by decide) (by decide) hk'
  exact absurd hend (by decide)

end Kernel

end Nachos
