import Nachos.Proof.Fidelity
import Mathlib.Data.List.GetD

/-!
# The buffer of `ReadString`

The case collects the line in a buffer of the kernel, of the length that the caller gave,
hands it to `System2User` with the length of the line, and only then compares that with
the length it was given.

Nothing stops the loop at the end of the kernel's buffer, so a line that does not leave
room for the terminator is stored behind it. A shorter one arrives, but `System2User`
copies as many bytes as it is told and adds no terminator: the string is terminated only
if its place was followed by a zero before.
-/

namespace Nachos

open Base (bind_eq_of_ok)

namespace Handler

variable {η : Type}

/-! ## The copy -/

/-- **`System2User`**, with a place for each byte. -/
theorem copied_system2User (dst : Int) (buffer : List UInt8) {P : Nat → Nat} {n : Nat}
    {k : Kernel η} (hP : ∀ j < n, k.machine.place (toInt32 (dst + j)) true = some (P j))
    (hinj : ∀ j j', j < n → j' < n → P j = P j' → j = j') :
    ∃ r k', system2User dst n buffer k = .ok r k' ∧ Copied P buffer 0 n k k' := by
  obtain ⟨r, k', hrun, hcop⟩ := copied_system2UserFrom dst buffer P n 0 k
    (fun j _ hj => hP j (by omega)) (fun j j' _ hj _ hj' => hinj j j' (by omega) (by omega))
  rw [Nat.zero_add] at hcop
  unfold system2User
  rw [if_neg (by omega)]
  by_cases hn : n = 0
  · -- nothing to copy
    subst hn
    have hk' : k = k' := by
      injection hrun
    exact ⟨0, k', by rw [← hk']; rfl, hcop⟩
  · rw [if_neg (by omega), Int.toNat_natCast]
    exact ⟨r, k', hrun, hcop⟩

/-! ## The line -/

/-- A line that leaves room for the terminator is collected. -/
theorem readLine_line {length : Int} {rest : List UInt8} :
    ∀ {cs : List UInt8} (inputLength : Nat), (10 : UInt8) ∉ cs →
      (inputLength : Int) + cs.length < length →
      readLine length inputLength (cs ++ 10 :: rest) = some (some cs, rest) := by
  intro cs
  induction cs with
  | nil =>
      intro inputLength _ hroom
      rw [List.length_nil] at hroom
      rw [List.nil_append, readLine, if_neg (by omega), if_pos rfl]
  | cons c cs ih =>
      intro inputLength h hroom
      rw [List.length_cons] at hroom
      have hc : c ≠ 10 := fun he => h (by rw [he]; exact List.mem_cons_self)
      have hrest := ih (inputLength + 1) (fun hm => h (List.mem_cons_of_mem c hm)) (by omega)
      rw [List.cons_append, readLine, if_neg (by omega), if_neg hc, hrest]
      rfl

/-- One that does not is stored behind the buffer. -/
theorem readLine_overrun {length : Int} (rest : List UInt8) :
    ∀ {cs : List UInt8} (inputLength : Nat), (10 : UInt8) ∉ cs →
      length ≤ (inputLength : Int) + cs.length →
      ∃ rest', readLine length inputLength (cs ++ 10 :: rest) = some (none, rest') := by
  intro cs
  induction cs with
  | nil =>
      -- it is the terminator that has no room
      intro inputLength _ hroom
      rw [List.length_nil] at hroom
      exact ⟨rest, by rw [List.nil_append, readLine, if_pos (by omega)]⟩
  | cons c cs ih =>
      intro inputLength h hroom
      rw [List.length_cons] at hroom
      have hc : c ≠ 10 := fun he => h (by rw [he]; exact List.mem_cons_self)
      rw [List.cons_append, readLine]
      by_cases hfull : length ≤ inputLength
      · exact ⟨_, if_pos hfull⟩
      · obtain ⟨rest', hrest⟩ :=
          ih (inputLength + 1) (fun hm => h (List.mem_cons_of_mem c hm)) (by omega)
        refine ⟨rest', ?_⟩
        rw [if_neg hfull, if_neg hc, hrest]
        rfl

/-! ## The case -/

/-- What `ReadString` does when the line is copied. -/
def readStringEnd (inputLength : Nat) (length numBytes : Int) : Handler η Exit :=
  if (inputLength : Int) > length then do
    printf "\nChuoi nhap co do dai qua lon so voi quy dinh mat roi\n"
    leave
  else if numBytes = 0 then do
    printf "Chuoi rong\n"
    leave
  else if numBytes > 2147483647 then do
    printf "\nChuoi qua lon so vs he thong"
    leave
  else leave

/-- It returns, and writes no memory. -/
theorem readStringEnd_ok (inputLength : Nat) (length numBytes : Int) (k : Kernel η) :
    ∃ k', readStringEnd inputLength length numBytes k = .ok .ret k' ∧
      k'.machine.mainMemory = k.machine.mainMemory ∧ k.machine.SameMap k'.machine := by
  have hmap : ∀ registers, k.machine.SameMap { k.machine with registers := registers } :=
    fun _ => ⟨rfl, fun _ => rfl, fun _ => rfl, fun _ => rfl⟩
  unfold readStringEnd
  split
  · exact ⟨_, rfl, rfl, hmap _⟩
  split
  · exact ⟨_, rfl, rfl, hmap _⟩
  split
  · exact ⟨_, rfl, rfl, hmap _⟩
  · exact ⟨_, rfl, rfl, hmap _⟩

/-- The case up to the end of its loop. -/
theorem scReadString_collect {k : Kernel η} (hlen : 0 ≤ (k.machine.readRegister 5).toInt) :
    scReadString k = (do
      match ← keyboard (readLine (k.machine.readRegister 5).toInt 0) with
      | none => throw Stop.crashed
      | some strName =>
          let numBytes ← system2User (k.machine.readRegister 4).toInt strName.length strName
          readStringEnd strName.length (k.machine.readRegister 5).toInt numBytes) k := by
  have hread : ∀ num, readRegister num k = .ok (k.machine.readRegister num).toInt k := fun _ => rfl
  have hnew : newChar (k.machine.readRegister 5).toInt k = .ok () k := by
    unfold newChar assert
    rw [if_pos hlen]
    rfl
  unfold scReadString
  rw [bind_eq_of_ok (hread 4), bind_eq_of_ok (hread 5), bind_eq_of_ok hnew]
  rfl

/-- A line that fits is copied. -/
theorem scReadString_eq {k : Kernel η} {cs rest : List UInt8} (hline : (10 : UInt8) ∉ cs)
    (hin : k.input = cs ++ 10 :: rest)
    (hroom : (cs.length : Int) < (k.machine.readRegister 5).toInt) :
    scReadString k = (do
        let numBytes ← system2User (k.machine.readRegister 4).toInt cs.length cs
        readStringEnd cs.length (k.machine.readRegister 5).toInt numBytes)
      { k with input := rest } := by
  have hscan : keyboard (readLine (k.machine.readRegister 5).toInt 0) k =
      .ok (some cs) { k with input := rest } := by
    unfold keyboard
    rw [hin, readLine_line 0 hline (by omega)]
  rw [scReadString_collect (by omega), bind_eq_of_ok hscan]

/-- A line that does not fit runs over the buffer of the kernel. -/
theorem scReadString_overrun {k : Kernel η} {cs rest : List UInt8} (hline : (10 : UInt8) ∉ cs)
    (hin : k.input = cs ++ 10 :: rest) (hlen : 0 ≤ (k.machine.readRegister 5).toInt)
    (hfull : (k.machine.readRegister 5).toInt ≤ cs.length) :
    ∃ k', scReadString k = .error .crashed k' := by
  have hroom : (k.machine.readRegister 5).toInt ≤ ((0 : Nat) : Int) + cs.length := by omega
  obtain ⟨rest', hrest⟩ := readLine_overrun rest 0 hline hroom
  have hscan : keyboard (readLine (k.machine.readRegister 5).toInt 0) k =
      .ok none { k with input := rest' } := by
    unfold keyboard
    rw [hin, hrest]
  exact ⟨{ k with input := rest' }, by rw [scReadString_collect hlen, bind_eq_of_ok hscan]; rfl⟩

end Handler

/-! ## The call -/

namespace Kernel

variable {η : Type}

/-- **The setting**: the caller has a buffer of `length` bytes, and there is a line at the keyboard.
The frames of the caller are different ones. -/
structure LineSetting (k : Kernel η) (fs : Uid) (length : Nat) (cs rest : List UInt8) : Prop where
  owner : k.fileSystem = some fs
  call : k.syscall = some .readString
  argument : (k.machine.readRegister 5).toInt = length
  positive : 1 ≤ length
  buffer : ∀ j < length,
    (k.machine.place (toInt32 ((k.machine.readRegister 4).toInt + j)) true).isSome = true
  frames : k.machine.Injective
  line : (10 : UInt8) ∉ cs
  input : k.input = cs ++ 10 :: rest

/-- **What `ReadString` is for**: it returns, nothing but the buffer has changed, and in the buffer
there is a terminated string, a prefix of the line, or all of it when the line is shorter than the
buffer. -/
def ReadsString (H : HostOps η) (k : Kernel η) (length : Nat) (cs : List UInt8) : Prop :=
  ∃ k', exceptionHandler H .syscallException k = .returned k' ∧
    (∀ a : Int, (∀ j < length, ∀ q : Nat,
      k.machine.place (toInt32 ((k.machine.readRegister 4).toInt + j)) true = some q → a ≠ q) →
        k'.machine.mainMemory a = k.machine.mainMemory a) ∧
    ∃ s : List UInt8, s.length < length ∧ s <+: cs ∧ (cs.length < length → s = cs) ∧ 0 ∉ s ∧
      (∀ j < s.length,
        k'.machine.byteAt (toInt32 ((k.machine.readRegister 4).toInt + j)) = some (s.getD j 0)) ∧
      k'.machine.byteAt (toInt32 ((k.machine.readRegister 4).toInt + s.length)) = some 0

section ReadString

variable {H : HostOps η} {k : Kernel η} {fs : Uid} {length : Nat} {cs rest : List UInt8}
  (S : LineSetting k fs length cs rest)
include S

/-- **A line that does not fit**: the call does not come back. -/
theorem readString_overruns (hfull : length ≤ cs.length) (k' : Kernel η) :
    exceptionHandler H .syscallException k ≠ .returned k' := by
  intro h
  obtain ⟨k₁, hrun⟩ := Handler.scReadString_overrun S.line S.input (by rw [S.argument]; omega)
    (by rw [S.argument]; omega)
  have hbody : (Syscall.readString).body H fs k = Handler.scReadString k := rfl
  rw [returned_iff, dispatch_eq H S.owner S.call, hbody, hrun] at h
  exact absurd h (by simp)

/-- Where byte `j` of the buffer is. -/
theorem LineSetting.place {j : Nat} (hj : j < length) :
    k.machine.place (toInt32 ((k.machine.readRegister 4).toInt + j)) true =
      some (k.target (k.machine.readRegister 4) j) := by
  obtain ⟨q, hq⟩ := Option.isSome_iff_exists.mp (S.buffer j hj)
  rw [target, hq]
  rfl

theorem LineSetting.target_inj {j j' : Nat} (hj : j < length) (hj' : j' < length)
    (h : k.target (k.machine.readRegister 4) j = k.target (k.machine.readRegister 4) j') :
    j = j' := by
  have hsize := S.frames.count_le S.buffer
  have hmem : memorySize < 4294967296 := by decide
  exact S.frames.step (by omega) (by omega) (S.place hj) (h ▸ S.place hj')

theorem LineSetting.target_ne {n j : Nat} (hn : n < length) (hj : j < n) :
    (k.target (k.machine.readRegister 4) n : Int) ≠ k.target (k.machine.readRegister 4) j := by
  intro he
  have hnj := S.target_inj hn (show j < length by omega) (by exact_mod_cast he)
  omega

theorem LineSetting.byteAt {k' : Kernel η} (hmap : k.machine.SameMap k'.machine) {j : Nat}
    (hj : j < length) : k'.machine.byteAt (toInt32 ((k.machine.readRegister 4).toInt + j)) =
      some (k'.machine.mainMemory (k.target (k.machine.readRegister 4) j)) :=
  Machine.byteAt_of_place (Machine.place_read ((hmap.place _ _).trans (S.place hj)))

/-- **A line that fits** is copied up to its end, or up to a zero of its own. -/
theorem readString_copies (hshort : cs.length < length) :
    ∃ k', exceptionHandler H .syscallException k = .returned k' ∧ k.machine.SameMap k'.machine ∧
      (∀ j < cs.length, Ahead cs j →
        k'.machine.mainMemory (k.target (k.machine.readRegister 4) j) = cs.getD j 0) ∧
      (∀ a : Int, (∀ j < cs.length, a ≠ k.target (k.machine.readRegister 4) j) →
        k'.machine.mainMemory a = k.machine.mainMemory a) := by
  obtain ⟨r, k₁, hrun, hcop⟩ := Handler.copied_system2User (k.machine.readRegister 4).toInt cs
    (k := { k with input := rest }) (n := cs.length) (fun j hj => S.place (by omega))
    (fun j j' hj hj' => S.target_inj (by omega) (by omega))
  obtain ⟨k', hend, hmem, hmap⟩ := Handler.readStringEnd_ok cs.length length r k₁
  have hbody : (Syscall.readString).body H fs k = Handler.scReadString k := rfl
  have heq := Handler.scReadString_eq S.line S.input (by rw [S.argument]; omega)
  rw [S.argument, bind_eq_of_ok hrun, hend] at heq
  refine ⟨k', ?_, hcop.map.trans hmap, ?_, ?_⟩
  · rw [returned_iff, dispatch_eq H S.owner S.call, hbody, heq]
  · intro j hj hal
    rw [hmem]
    exact hcop.copied j (Nat.zero_le j) hj fun l _ hl => hal l hl
  · intro a ha
    rw [hmem]
    exact hcop.other a fun j _ hj _ => ha j hj

/-- It is there as a string when its place was followed by a zero already. -/
theorem ReadsString.of_terminated (hshort : cs.length < length) (h0 : 0 ∉ cs)
    (hend : k.machine.byteAt (toInt32 ((k.machine.readRegister 4).toInt + cs.length)) = some 0) :
    ReadsString H k length cs := by
  obtain ⟨k', hk', hmap, hcopied, hother⟩ := readString_copies S (H := H) hshort
  have hahead : ∀ j ≤ cs.length, Ahead cs j := by
    intro j hj l hl he
    rw [List.getD_eq_getElem cs 0 (by omega)] at he
    exact h0 (he ▸ List.getElem_mem _)
  refine ⟨k', hk', ?_, cs, hshort, List.prefix_rfl, fun _ => rfl, h0, ?_, ?_⟩
  · exact fun a ha => hother a fun j hj => ha j (by omega) _ (S.place (by omega))
  · intro j hj
    rw [S.byteAt hmap (by omega), hcopied j hj (hahead j (by omega))]
  · rw [S.byteAt hmap hshort, hother, ← S.byteAt (.refl _) hshort, hend]
    exact fun j hj => S.target_ne hshort hj

/-- And only then. -/
theorem ReadsString.terminated (h : ReadsString H k length cs) (hshort : cs.length < length) :
    0 ∉ cs ∧
      k.machine.byteAt (toInt32 ((k.machine.readRegister 4).toInt + cs.length)) = some 0 := by
  obtain ⟨k', hk', _, s, _, _, hall, h0, _, hend⟩ := h
  rw [hall hshort] at h0 hend
  obtain ⟨k'', hk'', hmap, _, hother⟩ := readString_copies S (H := H) hshort
  rw [hk'] at hk''
  injection hk'' with hk''
  subst hk''
  refine ⟨h0, ?_⟩
  rw [S.byteAt hmap hshort, hother] at hend
  · rw [S.byteAt (.refl _) hshort, hend]
  · exact fun j hj => S.target_ne hshort hj

theorem ReadsString.shorter (h : ReadsString H k length cs) : cs.length < length := by
  obtain ⟨k', hk', _⟩ := h
  by_contra hlong
  exact readString_overruns S (by omega) k' hk'

/-- **When `ReadString` leaves a string in its buffer**: the line is shorter than the buffer, has no
zero in it and is followed by one that was there before. -/
theorem readString_iff :
    ReadsString H k length cs ↔ cs.length < length ∧ 0 ∉ cs ∧
      k.machine.byteAt (toInt32 ((k.machine.readRegister 4).toInt + cs.length)) = some 0 := by
  constructor
  · intro h
    exact ⟨h.shorter S, h.terminated S (h.shorter S)⟩
  · intro h
    obtain ⟨hshort, h0, hend⟩ := h
    exact .of_terminated S hshort h0 hend

end ReadString

/-- The initial process calls `ReadString(512, 3)` with `cs` and a newline at the keyboard, and `x`
in all of its memory. -/
def asking (x : UInt8) (cs : List UInt8) : Kernel Unit :=
  { closing 0 with
    machine :=
      { registers := fun r => if r = 2 then 50#32 else if r = 4 then 512#32
        else if r = 5 then 3#32 else 0#32
        mainMemory := fun _ => x
        pageTable := fun v => ⟨v, v, true, false, false, false⟩
        pageTableSize := 2 }
    input := cs ++ [10] }

theorem asking_frames (x : UInt8) (cs : List UInt8) : (asking x cs).machine.Injective := by
  intro v v' h h' _ _ he
  have h2 : v < 2 := h
  have h2' : v' < 2 := h'
  have he' : toUInt32 (v : Int) = toUInt32 (v' : Int) := he
  unfold toUInt32 at he'
  omega

theorem asking_setting :
    ∀ x ∈ [(0 : UInt8), 120], LineSetting (asking x [97, 98]) 0 3 [97, 98] [] := by
  intro x hx
  have hx' : x = 0 ∨ x = 120 := by simpa using hx
  refine ⟨rfl, rfl, rfl, by decide, ?_, asking_frames x _, by decide, rfl⟩
  rcases hx' with rfl | rfl <;> decide +kernel

/-- Two letters, in a buffer that was zero. -/
theorem readString_cleared : ReadsString bareHost (asking 0 [97, 98]) 3 [97, 98] :=
  (readString_iff (asking_setting 0 (by decide))).mpr ⟨by decide, by decide, by decide +kernel⟩

/-- Two letters, in a buffer that was not: no zero follows them. -/
theorem readString_unterminated :
    ¬ ∀ (η : Type) (H : HostOps η) (k : Kernel η) (fs : Uid) (length : Nat) (cs rest : List UInt8),
      LineSetting k fs length cs rest → ReadsString H k length cs := by
  intro h
  have S := asking_setting 120 (by decide)
  have hend := ((h Unit bareHost _ 0 3 [97, 98] [] S).terminated S (by decide)).2
  exact absurd hend (by decide +kernel)

end Kernel

end Nachos
