import Nachos.Proof.Writes
import Mathlib.Data.Finset.Card

/-!
# What a file keeps of what is written to it

`Write`, `Seek` back and `Read` bring a string of bytes to a file of the host and from there to
another place in the memory of the caller. The host is taken to keep a file as an array of
bytes. On the way to it the bytes go through `User2System`, which stops at the first zero and
leaves zeros behind it; on the way back they go through `System2User`, which stops after
the first zero and leaves the rest of the destination alone. Each of the calls reports the
full number all the same.

So the bytes up to the first zero arrive, and the ones behind it are what the destination
held before.
-/

namespace Nachos

open Base (bind_ok bind_eq_of_ok upd upd_self upd_ne)

/-! ## Consecutive addresses of the user -/

namespace Machine

/-- Bytes at consecutive addresses are in different places. -/
theorem Injective.step {m : Machine} (hm : m.Injective) {dst : Int} {i j p : Nat} {w : Bool}
    (hi : i < 4294967296) (hj : j < 4294967296) (h : m.place (toInt32 (dst + i)) w = some p)
    (h' : m.place (toInt32 (dst + j)) w = some p) : i = j :=
  toUInt32_step dst hi hj (hm.place h h')

/-- There are no more of them than there are bytes of memory. -/
theorem Injective.count_le {m : Machine} (hm : m.Injective) {dst : Int} {n : Nat}
    (h : ∀ j < n, (m.place (toInt32 (dst + j)) true).isSome = true) : n ≤ memorySize := by
  by_contra hn
  have hsize : memorySize + 1 ≤ 4294967296 := by decide
  let P := fun j : Nat => (m.place (toInt32 (dst + j)) true).getD 0
  have hP : ∀ j < memorySize + 1, m.place (toInt32 (dst + j)) true = some (P j) := by
    intro j hj
    obtain ⟨q, hq⟩ := Option.isSome_iff_exists.mp (h j (by omega))
    show _ = some ((m.place (toInt32 (dst + j)) true).getD 0)
    rw [hq]
    rfl
  have hcard : (Finset.range (memorySize + 1)).card ≤ (Finset.range memorySize).card := by
    refine Finset.card_le_card_of_injOn P ?_ ?_
    · intro j hj
      exact Finset.mem_coe.mpr (Finset.mem_range.mpr
        (place_lt (hP j (Finset.mem_range.mp (Finset.mem_coe.mp hj)))))
    · intro j hj j' hj' he
      have hj₁ := Finset.mem_range.mp (Finset.mem_coe.mp hj)
      have hj₁' := Finset.mem_range.mp (Finset.mem_coe.mp hj')
      exact hm.step (by omega) (by omega) (hP j hj₁) (by rw [hP j' hj₁', ← he])
  rw [Finset.card_range, Finset.card_range] at hcard
  omega

end Machine

/-! ## The bytes -/

/-- What arrives in the file: the bytes before the first zero, and zeros. -/
def cut (b : List UInt8) : List UInt8 :=
  b.takeWhile (· ≠ 0) ++ List.replicate (b.length - (b.takeWhile (· ≠ 0)).length) 0

theorem length_cut (b : List UInt8) : (cut b).length = b.length := by
  have h := (List.takeWhile_prefix (l := b) (fun c : UInt8 => decide (c ≠ 0))).length_le
  unfold cut
  rw [List.length_append, List.length_replicate]
  omega

/-- The array of the kernel, which has room for one zero more. -/
theorem cut_array (b : List UInt8) :
    let array := b.takeWhile (· ≠ 0) ++
      List.replicate (b.length + 1 - (b.takeWhile (· ≠ 0)).length) 0
    array.take b.length = cut b ∧ b.length ≤ array.length := by
  intro array
  have h := (List.takeWhile_prefix (l := b) (fun c : UInt8 => decide (c ≠ 0))).length_le
  have hsucc : b.length + 1 - (b.takeWhile (· ≠ 0)).length =
      (b.length - (b.takeWhile (· ≠ 0)).length) + 1 := by omega
  have harray : array = cut b ++ [0] := by
    simp only [array, cut]
    rw [hsucc, List.replicate_succ', List.append_assoc]
  rw [harray]
  refine ⟨?_, by rw [List.length_append, length_cut]; omega⟩
  rw [← length_cut b, List.take_left]

theorem cut_cons {c : UInt8} (h : c ≠ 0) (b : List UInt8) : cut (c :: b) = c :: cut b := by
  simp [cut, h]

/-- Byte `j` is not behind a zero. -/
def Ahead (b : List UInt8) (j : Nat) : Prop := ∀ l < j, b.getD l 0 ≠ 0

/-- Up to the first zero the bytes are the same. -/
theorem cut_getD : ∀ {b : List UInt8} {j : Nat}, Ahead b j → (cut b).getD j 0 = b.getD j 0 := by
  intro b
  induction b with
  | nil => intro _ _; simp [cut]
  | cons c b ih =>
      intro j h
      by_cases hc : c = 0
      · have hj : j = 0 := by
          by_contra hj
          exact h 0 (Nat.pos_of_ne_zero hj) (by simp [hc])
        simp [hc, hj, cut]
      · rw [cut_cons hc]
        cases j with
        | zero => rfl
        | succ j =>
            simp only [List.getD_cons_succ]
            exact ih fun l hl => by simpa using h (l + 1) (Nat.succ_lt_succ hl)

theorem ahead_cut {b : List UInt8} {j : Nat} : Ahead (cut b) j ↔ Ahead b j := by
  constructor
  · intro h l
    induction l using Nat.strongRecOn with
    | ind l ih =>
        intro hl hz
        have hal : Ahead b l := fun i hi => ih i hi (Nat.lt_trans hi hl)
        exact h l hl ((cut_getD hal).trans hz)
  · intro h l hl hz
    have hal : Ahead b l := fun i hi => h i (Nat.lt_trans hi hl)
    rw [cut_getD hal] at hz
    exact h l hl hz

/-- What `User2System` finds of the bytes that are there. -/
theorem stringAt_of_bytes {m : Machine} : ∀ (b : List UInt8) {addr : Int},
    (∀ i < b.length, m.byteAt (toInt32 (addr + i)) = some (b.getD i 0)) →
      m.stringAt b.length addr = some (b.takeWhile (· ≠ 0)) := by
  intro b
  induction b with
  | nil => intro _ _; rfl
  | cons c b ih =>
      intro addr h
      have h0 := h 0 (by simp)
      have hrest : m.stringAt b.length (addr + 1) = some (b.takeWhile (· ≠ 0)) :=
        ih fun i hi => by
          have hi' := h (i + 1) (by simpa using hi)
          rw [List.getD_cons_succ] at hi'
          rw [show addr + 1 + (i : Int) = addr + ((i + 1 : Nat) : Int) by push_cast; omega]
          exact hi'
      rw [show addr + ((0 : Nat) : Int) = addr by simp, List.getD_cons_zero] at h0
      rw [List.length_cons, Machine.stringAt, h0]
      by_cases hc : c = 0
      · simp [hc]
      · simp only [hc, if_false]
        rw [hrest]
        simp [hc]

/-! ## Copying to and from the user -/

namespace Handler

variable {η : Type}

theorem only_machine {k k' : Kernel η} (h : k' = { k with machine := k'.machine }) :
    k'.pTab = k.pTab ∧ k'.currentThread = k.currentThread ∧ k'.fileTables = k.fileTables
      ∧ k'.host = k.host := by
  rw [h]
  exact ⟨rfl, rfl, rfl, rfl⟩

/-- The second kernel differs from the first one in the record of accesses only. -/
structure Looked (k k' : Kernel η) : Prop where
  rest : k' = { k with machine := k'.machine }
  registers : k'.machine.registers = k.machine.registers
  memory : k'.machine.mainMemory = k.machine.mainMemory
  map : k.machine.SameMap k'.machine

theorem Looked.refl (k : Kernel η) : Looked k k := ⟨rfl, rfl, rfl, .refl _⟩

theorem Looked.trans {k k' k'' : Kernel η} (h : Looked k k') (h' : Looked k' k'') : Looked k k'' :=
  ⟨by rw [h'.rest, h.rest], h'.registers.trans h.registers, h'.memory.trans h.memory,
    h.map.trans h'.map⟩

theorem looked_touch (k : Kernel η) (vpn : Nat) (w : Bool) :
    Looked k { k with machine := k.machine.touch vpn w } :=
  ⟨rfl, rfl, rfl, Machine.sameMap_touch _ _ _⟩

theorem looked_user2SystemFrom : ∀ (n : Nat) (addr : Int) {k k' : Kernel η} {cs : CString},
    user2SystemFrom n addr k = .ok cs k' → Looked k k' := by
  intro n
  induction n with
  | zero =>
      intro _ k k' cs h
      injection h with _ h
      exact h ▸ .refl k
  | succ n ih =>
      intro addr k k' cs h
      rw [user2SystemFrom] at h
      obtain ⟨v, t, hv, ht⟩ := bind_ok h
      obtain ⟨c, _, _, rfl⟩ := (readMem_ok _ _ _ _).mp hv
      refine (looked_touch k (toUInt32 (toInt32 addr) / pageSize) false).trans ?_
      split at ht
      · injection ht with _ ht
        exact ht ▸ .refl _
      · obtain ⟨rest, u, hu, hpure⟩ := bind_ok ht
        injection hpure with _ hpure
        exact hpure ▸ ih _ hu

theorem looked_user2System {addr limit : Int} {k k' : Kernel η} {cs : CString}
    (h : user2System addr limit k = .ok cs k') : Looked k k' := by
  obtain ⟨_, t, hnew, hloop⟩ := bind_ok h
  unfold newChar assert at hnew
  split at hnew
  · injection hnew with _ hnew
    exact hnew ▸ looked_user2SystemFrom _ _ hloop
  · exact absurd hnew (by intro h; cases h)

/-- **`User2System`** delivers the bytes before the first zero, and changes nothing. -/
theorem user2System_bytes {k : Kernel η} {b : List UInt8} {addr : Int}
    (hsize : (b.length : Int) < intMax)
    (hb : ∀ i < b.length, k.machine.byteAt (toInt32 (addr + i)) = some (b.getD i 0)) :
    ∃ k', user2System addr b.length k = .ok (b.takeWhile (· ≠ 0)) k' ∧ Looked k k' := by
  obtain ⟨k', hk'⟩ := (user2System_iff (by omega) hsize k _).mpr (stringAt_of_bytes b hb)
  exact ⟨k', hk', looked_user2System hk'⟩

/-- What a copy to the user changes: `P j` is where byte `j` goes. -/
structure Copied (P : Nat → Nat) (buffer : List UInt8) (i stop : Nat) (k k' : Kernel η) : Prop where
  rest : k' = { k with machine := k'.machine }
  registers : k'.machine.registers = k.machine.registers
  map : k.machine.SameMap k'.machine
  copied : ∀ j, i ≤ j → j < stop → (∀ l, i ≤ l → l < j → buffer.getD l 0 ≠ 0) →
    k'.machine.mainMemory (P j) = buffer.getD j 0
  other : ∀ a : Int, (∀ j, i ≤ j → j < stop → (∀ l, i ≤ l → l < j → buffer.getD l 0 ≠ 0) →
    a ≠ P j) → k'.machine.mainMemory a = k.machine.mainMemory a

/-- **The loop of `System2User`** copies up to the first zero and that zero. -/
theorem copied_system2UserFrom (dst : Int) (buffer : List UInt8) (P : Nat → Nat) :
    ∀ (n i : Nat) (k : Kernel η),
      (∀ j, i ≤ j → j < i + n → k.machine.place (toInt32 (dst + j)) true = some (P j)) →
      (∀ j j', i ≤ j → j < i + n → i ≤ j' → j' < i + n → P j = P j' → j = j') →
      ∃ r k', system2UserFrom dst buffer n i k = .ok r k' ∧ Copied P buffer i (i + n) k k' := by
  intro n
  induction n with
  | zero =>
      intro i k _ _
      exact ⟨i, k, rfl, rfl, rfl, .refl _, fun j h1 h2 => absurd h2 (by omega), fun _ _ => rfl⟩
  | succ n ih =>
      intro i k hP hinj
      let c := buffer.getD i 0
      let m : Machine :=
        { k.machine.touch (toUInt32 (toInt32 (dst + i)) / pageSize) true with
          mainMemory := upd k.machine.mainMemory (P i : Int) c }
      have hwrite : writeMem (toInt32 (dst + i)) (signedChar c) k =
          .ok () { k with machine := m } := by
        unfold writeMem
        rw [Machine.writeMem_byte (hP i (Nat.le_refl i) (by omega)), ofNat_signedChar]
      have hmap : k.machine.SameMap m :=
        let h := Machine.sameMap_touch k.machine (toUInt32 (toInt32 (dst + i)) / pageSize) true
        ⟨h.size, h.valid, h.readOnly, h.physicalPage⟩
      rw [system2UserFrom]
      rw [bind_eq_of_ok hwrite]
      by_cases hc : c = 0
      · -- the copy ends here
        rw [if_pos ((signedChar_eq_zero c).mpr hc)]
        refine ⟨_, _, rfl, rfl, rfl, hmap, ?_, ?_⟩
        · intro j h1 h2 hz
          have hj : j = i := by
            by_contra hj
            exact hz i (Nat.le_refl i) (by omega) hc
          rw [hj]
          exact upd_self _ _ _
        · intro a ha
          exact upd_ne _ _ (ha i (Nat.le_refl i) (by omega) fun l h1 h2 => absurd h2 (by omega))
      · rw [if_neg fun h => hc ((signedChar_eq_zero c).mp h)]
        obtain ⟨r, k', hk', hcop⟩ := ih (i + 1) { k with machine := m }
          (fun j h1 h2 => by
            show m.place _ _ = _
            rw [hmap.place]
            exact hP j (by omega) (by omega))
          (fun j j' h1 h2 h3 h4 => hinj j j' (by omega) (by omega) (by omega) (by omega))
        refine ⟨r, k', hk', ?_, hcop.registers, hmap.trans hcop.map, ?_, ?_⟩
        · rw [hcop.rest]
        · intro j h1 h2 hz
          by_cases hj : j = i
          · -- the rest of the copy goes elsewhere
            rw [hcop.other _ fun j' h3 h4 _ he =>
              absurd (hinj j j' h1 (by omega) (by omega) (by omega)
              (by exact_mod_cast he)) (by omega), hj]
            exact upd_self _ _ _
          · exact hcop.copied j (by omega) (by omega) fun l h3 h4 => hz l (by omega) h4
        · intro a ha
          rw [hcop.other a fun j h3 h4 hz => ha j (by omega) (by omega) fun l h5 h6 => ?_]
          · exact upd_ne _ _ (ha i (Nat.le_refl i) (by omega) fun l h1 h2 => absurd h2 (by omega))
          · by_cases hl : l = i
            · rw [hl]; exact hc
            · exact hz l (by omega) h6

end Handler

/-! ## The host keeps a file as an array of bytes -/

/-- The array with `bs` written at `p`; a gap before it is filled with zeros. -/
def overwrite (c : List UInt8) (p : Nat) (bs : List UInt8) : List UInt8 :=
  (c ++ List.replicate (p - c.length) 0).take p ++ bs ++ c.drop (p + bs.length)

theorem length_overwrite (c : List UInt8) (p : Nat) (bs : List UInt8) :
    (overwrite c p bs).length = max c.length (p + bs.length) := by
  simp only [overwrite, List.length_append, List.length_take, List.length_replicate,
    List.length_drop]
  omega

/-- What is written is there. -/
theorem overwrite_read (c : List UInt8) (p : Nat) (bs : List UInt8) :
    ((overwrite c p bs).drop p).take bs.length = bs := by
  have hlen : ((c ++ List.replicate (p - c.length) 0).take p).length = p := by
    simp only [List.length_take, List.length_append, List.length_replicate]
    omega
  unfold overwrite
  rw [List.append_assoc, List.drop_left' hlen, List.take_left]

/-- **The file behind descriptor `fd` is an array of bytes with a position.** Offsets and sizes are
those of an `int`. -/
structure PlainFile {η : Type} (H : HostOps η) (fd : Int) where
  content : η → List UInt8
  pos : η → Nat
  lseek_set : ∀ h (off : Nat), (off : Int) ≤ intMax →
    let r := H.lseek fd off .set h
    r.1 = off ∧ pos r.2 = off ∧ content r.2 = content h
  lseek_cur : ∀ h, (pos h : Int) ≤ intMax →
    let r := H.lseek fd 0 .cur h
    r.1 = pos h ∧ pos r.2 = pos h ∧ content r.2 = content h
  lseek_end : ∀ h, ((content h).length : Int) ≤ intMax →
    let r := H.lseek fd 0 .fromEnd h
    r.1 = (content h).length ∧ pos r.2 = (content h).length ∧ content r.2 = content h
  read : ∀ h (n : Nat),
    let r := H.read fd n h
    r.1.2 = ((content h).drop (pos h)).take n ∧ r.1.1 = r.1.2.length ∧
      pos r.2 = pos h + r.1.2.length ∧ content r.2 = content h
  write : ∀ h buffer (n : Nat), n ≤ buffer.length → (pos h : Int) + n ≤ intMax →
    let r := H.write fd buffer n h
    r.1 = n ∧ pos r.2 = pos h + n ∧ content r.2 = overwrite (content h) (pos h) (buffer.take n)

namespace PlainFile

variable {η : Type} {H : HostOps η} {fd : Int} (F : PlainFile H fd)

/-! ### The operations of `OpenFile` on such a file -/

/-- `Lseek` passes its assertion when the host returns an offset. -/
theorem lseek_passes {off : Int} {whence : Whence} {h : η} (hr : 0 ≤ (H.lseek fd off whence h).1) :
    lseek H fd off whence h = .ok () (H.lseek fd off whence h).2 := by
  have hcall : hostCall (H.lseek fd off whence) h =
      .ok (H.lseek fd off whence h).1 (H.lseek fd off whence h).2 := rfl
  unfold lseek
  rw [bind_eq_of_ok hcall]
  unfold assert
  rw [if_pos hr]
  rfl

theorem lseek_ok {h : η} {p : Nat} (hp : (p : Int) ≤ intMax) :
    ∃ h', lseek H fd p .set h = .ok () h' ∧ F.pos h' = p ∧ F.content h' = F.content h := by
  obtain ⟨h1, h2, h3⟩ := F.lseek_set h p hp
  exact ⟨_, lseek_passes (by rw [h1]; omega), h2, h3⟩

theorem getCurrentOffset_ok {h : η} (hpos : (F.pos h : Int) ≤ intMax) (file : OpenFile)
    (hfile : file.file = fd) :
    ∃ h', file.getCurrentOffset H h = .ok (F.pos h, { file with currentOffset := F.pos h }) h' ∧
      F.pos h' = F.pos h ∧ F.content h' = F.content h := by
  obtain ⟨h1, h2, h3⟩ := F.lseek_cur h hpos
  refine ⟨_, ?_, h2, h3⟩
  rw [← h1, ← hfile]
  rfl

theorem length_ok {h : η} (hlen : ((F.content h).length : Int) ≤ intMax) (file : OpenFile)
    (hfile : file.file = fd) :
    ∃ h', file.length H h = .ok ((F.content h).length : Int) h' ∧ F.content h' = F.content h ∧
      F.pos h' = (F.content h).length := by
  obtain ⟨h1, h2, h3⟩ := F.lseek_end h hlen
  have hcall : lseek H fd 0 .fromEnd h = .ok () (H.lseek fd 0 .fromEnd h).2 :=
    lseek_passes (by rw [h1]; omega)
  obtain ⟨h4, h5, h6⟩ := F.lseek_cur (H.lseek fd 0 .fromEnd h).2 (by rw [h2]; exact hlen)
  refine ⟨_, ?_, h6.trans h3, h5.trans h2⟩
  unfold OpenFile.length
  rw [hfile, bind_eq_of_ok hcall, ← h2, ← h4]
  rfl

theorem seek_ok {h : η} {p : Nat} (hp : (p : Int) ≤ intMax) (file : OpenFile)
    (hfile : file.file = fd) :
    ∃ h', file.seek H p h = .ok { file with currentOffset := p } h' ∧ F.pos h' = p ∧
      F.content h' = F.content h := by
  obtain ⟨t, ht, hpos, hcont⟩ := F.lseek_ok (h := h) hp
  obtain ⟨h4, h5, h6⟩ := F.lseek_cur t (by rw [hpos]; exact hp)
  refine ⟨_, ?_, h5.trans hpos, h6.trans hcont⟩
  unfold OpenFile.seek
  rw [hfile, bind_eq_of_ok ht]
  have htell : tell H fd t = .ok (p : Int) (H.lseek fd 0 .cur t).2 := by
    rw [← hpos, ← h4]
    rfl
  rw [bind_eq_of_ok htell, ← hfile]
  rfl

theorem write_ok {h : η} {p n : Nat} {buffer : List UInt8} (hbuf : n ≤ buffer.length)
    (hp : (p : Int) + n ≤ intMax) (file : OpenFile) (hfile : file.file = fd)
    (hoff : file.currentOffset = p) :
    ∃ o h', file.write H buffer n h = .ok ((n : Int), { file with currentOffset := o }) h' ∧
      F.pos h' = p + n ∧ F.content h' = overwrite (F.content h) p (buffer.take n) := by
  obtain ⟨t, ht, hpos, hcont⟩ := F.lseek_ok (h := h) (p := p) (by omega)
  obtain ⟨h1, h2, h3⟩ := F.write t buffer n hbuf (by rw [hpos]; exact hp)
  refine ⟨toInt32 (p + n), _, ?_, by rw [h2, hpos], by rw [h3, hpos, hcont]⟩
  have hwrite : writeFile H fd buffer n t = .ok () (H.write fd buffer n t).2 := by
    have hc : hostCall (H.write fd buffer n) t =
        .ok (H.write fd buffer n t).1 (H.write fd buffer n t).2 := rfl
    unfold writeFile
    rw [bind_eq_of_ok hc]
    unfold assert
    rw [if_pos h1]
    rfl
  have hat : file.writeAt H buffer n p h = .ok (n : Int) (H.write fd buffer n t).2 := by
    unfold OpenFile.writeAt
    rw [hfile, bind_eq_of_ok ht, bind_eq_of_ok hwrite]
    rfl
  unfold OpenFile.write
  rw [hoff, bind_eq_of_ok hat]
  rfl

theorem read_ok {h : η} {p n : Nat} (hp : (p : Int) ≤ intMax) (file : OpenFile)
    (hfile : file.file = fd) (hoff : file.currentOffset = p) :
    let bs := ((F.content h).drop p).take n
    ∃ o h', file.read H n h = .ok (((bs.length : Int), bs), { file with currentOffset := o }) h' ∧
      F.pos h' = p + bs.length ∧ F.content h' = F.content h := by
  intro bs
  obtain ⟨t, ht, hpos, hcont⟩ := F.lseek_ok (h := h) hp
  obtain ⟨h1, h2, h3, h4⟩ := F.read t n
  rw [hpos, hcont] at h1
  rw [h1] at h2 h3
  have hread : readPartial H fd n t = .ok ((bs.length : Int), bs) (H.read fd n t).2 := by
    have hc : readPartial H fd n t = .ok (H.read fd n t).1 (H.read fd n t).2 := rfl
    rw [hc]
    congr 1
    exact Prod.ext h2 h1
  refine ⟨toInt32 (p + bs.length), _, ?_, by rw [h3, hpos], by rw [h4, hcont]⟩
  have hat : file.readAt H n p h = .ok ((bs.length : Int), bs) (H.read fd n t).2 := by
    unfold OpenFile.readAt
    rw [hfile, bind_eq_of_ok ht]
    exact hread
  unfold OpenFile.read
  rw [hoff, bind_eq_of_ok hat]
  rfl

end PlainFile

/-! ## System calls of a user program -/

namespace Kernel

variable {η : Type}

/-- The user program loads the code and the arguments into their registers. -/
def load (k : Kernel η) (code arg1 arg2 arg3 : BitVec 32) : Kernel η :=
  { k with
    machine :=
      (((k.machine.writeRegister 2 code).writeRegister 4 arg1).writeRegister 5 arg2).writeRegister
        6 arg3 }

/-- A system call: what it returns in register 2, if it returns. -/
def call (H : HostOps η) (k : Kernel η) (code arg1 arg2 arg3 : BitVec 32) :
    Option (Int × Kernel η) :=
  match exceptionHandler H .syscallException (k.load code arg1 arg2 arg3) with
  | .returned k' => some ((k'.machine.readRegister 2).toInt, k')
  | _ => none

/-- `Write(buf, n, id); Seek(p, id); Read(dst, n, id)`: what `Write` and `Read` return. -/
def writeSeekRead (H : HostOps η) (buf dst id : BitVec 32) (n p : Nat) (k : Kernel η) :
    Option (Int × Int × Kernel η) :=
  (k.call H 8 buf (BitVec.ofNat 32 n) id).bind fun w =>
    (w.2.call H 9 (BitVec.ofNat 32 p) id 0).bind fun s =>
      (s.2.call H 7 dst (BitVec.ofNat 32 n) id).map fun r => (w.1, r.1, r.2)

theorem call_of_body {H : HostOps η} {k k' : Kernel η} {fs : Uid} {code arg1 arg2 arg3 : BitVec 32}
    {c : Syscall} (hfs : k.fileSystem = some fs) (hc : Syscall.ofCode code.toInt = some c)
    (hbody : c.body H fs (k.load code arg1 arg2 arg3) = .ok .ret k') :
    k.call H code arg1 arg2 arg3 = some ((k'.machine.readRegister 2).toInt, k') := by
  have hd : dispatch H .syscallException (k.load code arg1 arg2 arg3) = .ok .ret k' := by
    have he : dispatch H .syscallException (k.load code arg1 arg2 arg3)
        = c.body H fs (k.load code arg1 arg2 arg3) := dispatch_eq H hfs hc
    rw [he]
    exact hbody
  unfold call exceptionHandler
  rw [hd]

/-- A system call that returns has gone through its case. -/
theorem body_of_call {H : HostOps η} {k k' : Kernel η} {fs : Uid} {code arg1 arg2 arg3 : BitVec 32}
    {c : Syscall} {r : Int} (hfs : k.fileSystem = some fs) (hc : Syscall.ofCode code.toInt = some c)
    (h : k.call H code arg1 arg2 arg3 = some (r, k')) :
    c.body H fs (k.load code arg1 arg2 arg3) = .ok .ret k' ∧
    r = (k'.machine.readRegister 2).toInt := by
  have he : dispatch H .syscallException (k.load code arg1 arg2 arg3)
      = c.body H fs (k.load code arg1 arg2 arg3) := dispatch_eq H hfs hc
  unfold call at h
  split at h
  · rename_i k₁ hk₁
    injection h with h
    injection h with hr hk'
    subst hk'
    rw [returned_iff, he] at hk₁
    exact ⟨hk₁, hr.symm⟩
  · exact absurd h (by simp)

theorem ofNat_toInt {n : Nat} (h : (n : Int) ≤ intMax) : (BitVec.ofNat 32 n).toInt = n := by
  unfold intMax at h
  rw [BitVec.toInt_ofNat']
  exact Int.bmod_eq_of_le_mul_two (by omega) (by omega)

theorem ofInt_toInt {n : Nat} (h : (n : Int) ≤ intMax) : (BitVec.ofInt 32 n).toInt = n := by
  unfold intMax at h
  rw [BitVec.toInt_ofInt]
  exact Int.bmod_eq_of_le_mul_two (by omega) (by omega)

/-- The slot of the file with another object in it. -/
def putFile (k : Kernel η) (fs : Uid) (id : Int) (file : OpenFile) : Kernel η :=
  { k with fileTables := upd k.fileTables fs (upd (k.fileTables fs) id.toNat (some file)) }

theorem setFile_eq (k : Kernel η) (fs : Uid) (id : Int) (file : OpenFile) :
    Handler.setFile fs id (some file) k = .ok () (k.putFile fs id file) := rfl

theorem onHost_eq {α : Type} {x : HostM η α} {k : Kernel η} {a : α} {h : η}
    (hx : x k.host = .ok a h) : Handler.onHost x k = .ok a { k with host := h } := by
  unfold Handler.onHost
  rw [hx]

theorem leaveWith_ok (result : Int) (k : Kernel η) :
    ∃ k', Handler.leaveWith result k = .ok .ret k' ∧
      k'.machine.readRegister 2 = BitVec.ofInt 32 result ∧
      k' = { k with machine := { k.machine with registers := k'.machine.registers } } :=
  ⟨_, rfl, rfl, rfl⟩

/-- The caller has its file open in slot `id`, for reading and writing. -/
structure HasFile (fs : Uid) (id : Int) (fd : Int) (k : Kernel η) : Prop where
  owner : k.fileSystem = some fs
  slot : 2 ≤ id ∧ id < maxFileOpen
  opened : ∃ o, k.fileTables fs id.toNat = some ⟨fd, o, readwriteType⟩

/-- The file is still open after a call, and the pages are where they were. -/
structure Kept (fs : Uid) (id : Int) (fd : Int) (k k' : Kernel η) : Prop where
  file : HasFile fs id fd k'
  map : k.machine.SameMap k'.machine

theorem HasFile.load {fs : Uid} {id fd : Int} {k : Kernel η} (h : HasFile fs id fd k)
    (code arg1 arg2 arg3 : BitVec 32) : HasFile fs id fd (k.load code arg1 arg2 arg3) :=
  ⟨h.owner, h.slot, h.opened⟩

theorem Kept.of_load {fs : Uid} {id fd : Int} {k k' : Kernel η} {code arg1 arg2 arg3 : BitVec 32}
    (h : Kept fs id fd (k.load code arg1 arg2 arg3) k') : Kept fs id fd k k' :=
  ⟨h.file, h.map.size, h.map.valid, h.map.readOnly, h.map.physicalPage⟩

theorem sameMap_load (k : Kernel η) (code arg1 arg2 arg3 : BitVec 32) :
    k.machine.SameMap (k.load code arg1 arg2 arg3).machine :=
  ⟨rfl, fun _ => rfl, fun _ => rfl, fun _ => rfl⟩

theorem byteAt_load (k : Kernel η) (code arg1 arg2 arg3 : BitVec 32) (addr : Int) :
    (k.load code arg1 arg2 arg3).machine.byteAt addr = k.machine.byteAt addr :=
  Machine.byteAt_congr (sameMap_load k code arg1 arg2 arg3) rfl addr

/-- The end of a case that has put the file back, with the result in register 2. -/
theorem leave_kept {fs : Uid} {id fd : Int} {k k₁ k₂ : Kernel η} {result : Nat}
    (hleave : Handler.leaveWith (result : Int) k₁ = .ok .ret k₂) (hk : HasFile fs id fd k)
    (htab : k₁.pTab = k.pTab) (hthread : k₁.currentThread = k.currentThread)
    (hfile : ∃ o, k₁.fileTables fs id.toNat = some ⟨fd, o, readwriteType⟩)
    (hmap : k.machine.SameMap k₁.machine) (hresult : (result : Int) ≤ intMax) :
    (k₂.machine.readRegister 2).toInt = result ∧ Kept fs id fd k k₂ ∧
      k₂.machine.mainMemory = k₁.machine.mainMemory ∧ k₂.host = k₁.host := by
  obtain ⟨k', hk', hr2, hrest⟩ := leaveWith_ok (result : Int) k₁
  rw [hk'] at hleave
  injection hleave with _ hleave
  rw [← hleave]
  refine ⟨by rw [hr2, ofInt_toInt hresult], ⟨⟨?_, hk.slot, ?_⟩, ?_⟩, by rw [hrest], by rw [hrest]⟩
  · rw [hrest]
    show k₁.pTab.pcb (k₁.pTab.obj k₁.currentThread).pid = some fs
    rw [htab, hthread]
    exact hk.owner
  · rw [hrest]
    exact hfile
  · rw [hrest]
    exact ⟨hmap.size, hmap.valid, hmap.readOnly, hmap.physicalPage⟩

section Cases

variable {H : HostOps η} {fs : Uid} {id fd : Int} {k : Kernel η} (F : PlainFile H fd)
  (hk : HasFile fs id fd k)
include hk

/-- **`Write`** reports all of the bytes and brings to the file what is before the first zero. -/
theorem scWrite_ok {b : List UInt8} {buf : Int} (h4 : (k.machine.readRegister 4).toInt = buf)
    (h5 : (k.machine.readRegister 5).toInt = b.length) (h6 : (k.machine.readRegister 6).toInt = id)
    (hn : 1 ≤ b.length) (hsize : (b.length : Int) < intMax)
    (hfit : (F.pos k.host : Int) + b.length ≤ intMax)
    (hb : ∀ i < b.length, k.machine.byteAt (toInt32 (buf + i)) = some (b.getD i 0)) :
    ∃ k', Handler.scWrite H fs k = .ok .ret k' ∧ (k'.machine.readRegister 2).toInt = b.length ∧
      Kept fs id fd k k' ∧ k'.machine.mainMemory = k.machine.mainMemory ∧
      F.content k'.host = overwrite (F.content k.host) (F.pos k.host) (cut b) := by
  obtain ⟨o, ho⟩ := hk.opened
  have hslot := hk.slot
  -- the buffer is fetched
  obtain ⟨h₁, hoff, hpos₁, hcont₁⟩ := F.getCurrentOffset_ok (h := k.host) (by omega)
    ⟨fd, o, readwriteType⟩ rfl
  let k₁ := { k with host := h₁ }.putFile fs id ⟨fd, F.pos k.host, readwriteType⟩
  obtain ⟨k₂, hu2s, hlook⟩ := Handler.user2System_bytes (k := k₁) hsize hb
  obtain ⟨htab₂, hthread₂, _, hhost₂⟩ := Handler.only_machine hlook.rest
  have hcontent₂ : F.content k₂.host = F.content k.host := by
    rw [hhost₂]
    exact hcont₁
  -- it is written
  have harray := cut_array b
  obtain ⟨o₃, h₃, hwrite, hpos₃, hcont₃⟩ := F.write_ok (h := k₂.host) harray.2
    (p := F.pos k.host) (by omega) ⟨fd, F.pos k.host, readwriteType⟩ rfl rfl
  obtain ⟨h₄, htell, hpos₄, hcont₄⟩ := F.getCurrentOffset_ok (h := h₃) (by omega)
    ⟨fd, o₃, readwriteType⟩ rfl
  let k₄ := { { k₂ with host := h₃ }.putFile fs id ⟨fd, o₃, readwriteType⟩ with
    host := h₄ }.putFile fs id ⟨fd, F.pos h₃, readwriteType⟩
  have hresult : toInt32 ((F.pos h₃ : Int) - F.pos k.host) = b.length := by
    rw [hpos₃, toInt32_of_range (by omega) (by omega)]
    omega
  obtain ⟨k', hleave, _, _⟩ := leaveWith_ok ((b.length : Nat) : Int) k₄
  obtain ⟨hr2, hkept, hmem, hhost⟩ := leave_kept hleave hk htab₂ hthread₂
    ⟨F.pos h₃, by simp [k₄, putFile]⟩ hlook.map (by omega)
  refine ⟨k', ?_, hr2, hkept, ?_, ?_⟩
  · rw [Handler.scWrite_eq, h4, h5, h6, if_neg (by omega), ho]
    dsimp only
    rw [if_neg (by simp only [indexStdin, readwriteType, readonlyType]; omega)]
    unfold Handler.writeFileCase
    rw [bind_eq_of_ok (onHost_eq hoff), bind_eq_of_ok (setFile_eq _ _ _ _), bind_eq_of_ok hu2s,
      if_neg (by simp only [indexStdout]; omega)]
    unfold Handler.writeToFile
    rw [if_pos rfl, Int.toNat_natCast, bind_eq_of_ok (onHost_eq hwrite),
      bind_eq_of_ok (setFile_eq _ _ _ _), if_pos (by dsimp only; omega),
      bind_eq_of_ok (onHost_eq htell), bind_eq_of_ok (setFile_eq _ _ _ _)]
    dsimp only
    rw [hresult]
    exact hleave
  · rw [hmem]
    exact hlook.memory
  · rw [hhost]
    show F.content h₄ = _
    rw [hcont₄, hcont₃, harray.1, hcontent₂]

/-- **`Seek`** to a position inside the file. -/
theorem scSeek_ok {p : Nat} (h4 : (k.machine.readRegister 4).toInt = p)
    (h5 : (k.machine.readRegister 5).toInt = id) (hp : p ≤ (F.content k.host).length)
    (hlen : ((F.content k.host).length : Int) ≤ intMax) :
    ∃ k', Handler.scSeek H fs k = .ok .ret k' ∧ Kept fs id fd k k' ∧
      k'.machine.mainMemory = k.machine.mainMemory ∧ F.pos k'.host = p ∧
      F.content k'.host = F.content k.host := by
  obtain ⟨o, ho⟩ := hk.opened
  have hslot := hk.slot
  obtain ⟨h₁, hlength, hcont₁, _⟩ := F.length_ok (h := k.host) hlen ⟨fd, o, readwriteType⟩ rfl
  obtain ⟨h₂, hseek, hpos₂, hcont₂⟩ := F.seek_ok (h := h₁) (p := p) (by omega)
    ⟨fd, o, readwriteType⟩ rfl
  let k₂ := { k with host := h₂ }.putFile fs id ⟨fd, p, readwriteType⟩
  obtain ⟨k', hleave, _, _⟩ := leaveWith_ok ((p : Nat) : Int) k₂
  obtain ⟨_, hkept, hmem, hhost⟩ := leave_kept hleave hk rfl rfl
    ⟨p, by simp [k₂, putFile]⟩ (.refl _) (by omega)
  refine ⟨k', ?_, hkept, hmem, by rw [hhost]; exact hpos₂, by rw [hhost, ← hcont₁]; exact hcont₂⟩
  have hread : ∀ num, Handler.readRegister num k = .ok (k.machine.readRegister num).toInt k :=
    fun _ => rfl
  have hat : Handler.fileAt fs id k = .ok (k.fileTables fs id.toNat) k := rfl
  rw [Handler.scSeek, bind_eq_of_ok (hread 4), bind_eq_of_ok (hread 5), h4, h5, if_neg (by omega),
    bind_eq_of_ok hat, ho]
  dsimp only
  rw [if_neg (by omega), if_neg (by omega), Handler.seekTo, bind_eq_of_ok (onHost_eq hlength),
    if_neg (by omega), bind_eq_of_ok (onHost_eq hseek), bind_eq_of_ok (setFile_eq _ _ _ _)]
  exact hleave

/-- **`Read`** reports all of the bytes and brings to the caller what is before the first zero, and
that zero. `P j` is where byte `j` goes. -/
theorem scRead_ok (bs : List UInt8) {dst : Int} {P : Nat → Nat}
    (h4 : (k.machine.readRegister 4).toInt = dst)
    (h5 : (k.machine.readRegister 5).toInt = bs.length) (h6 : (k.machine.readRegister 6).toInt = id)
    (hn : 1 ≤ bs.length) (hfit : (F.pos k.host : Int) + bs.length ≤ intMax)
    (hbs : ((F.content k.host).drop (F.pos k.host)).take bs.length = bs)
    (hP : ∀ j < bs.length, k.machine.place (toInt32 (dst + j)) true = some (P j))
    (hinj : ∀ j j', j < bs.length → j' < bs.length → P j = P j' → j = j') :
    ∃ k', Handler.scRead H fs k = .ok .ret k' ∧ (k'.machine.readRegister 2).toInt = bs.length ∧
      Kept fs id fd k k' ∧
      (∀ j < bs.length, Ahead bs j → k'.machine.mainMemory (P j) = bs.getD j 0) ∧
      (∀ a : Int, (∀ j < bs.length, Ahead bs j → a ≠ P j) →
        k'.machine.mainMemory a = k.machine.mainMemory a) := by
  obtain ⟨o, ho⟩ := hk.opened
  have hslot := hk.slot
  -- the bytes are fetched from the file
  obtain ⟨h₁, hoff, hpos₁, hcont₁⟩ := F.getCurrentOffset_ok (h := k.host) (by omega)
    ⟨fd, o, readwriteType⟩ rfl
  obtain ⟨o₂, h₂, hread₂, hpos₂, hcont₂⟩ := F.read_ok (h := h₁) (p := F.pos k.host) (n := bs.length)
    (by omega) ⟨fd, F.pos k.host, readwriteType⟩ rfl rfl
  rw [hcont₁, hbs] at hread₂ hpos₂
  obtain ⟨h₃, htell, hpos₃, hcont₃⟩ := F.getCurrentOffset_ok (h := h₂) (by omega)
    ⟨fd, o₂, readwriteType⟩ rfl
  -- and copied to the caller
  let k₃ := { { { k with host := h₁ }.putFile fs id ⟨fd, F.pos k.host, readwriteType⟩ with
    host := h₂ }.putFile fs id ⟨fd, o₂, readwriteType⟩ with
    host := h₃ }.putFile fs id ⟨fd, F.pos h₂, readwriteType⟩
  obtain ⟨r, k₄, hcopy, hcop⟩ := Handler.copied_system2UserFrom dst bs P bs.length 0 k₃
    (fun j _ hj => hP j (by omega)) (fun j j' _ hj _ hj' => hinj j j' (by omega) (by omega))
  obtain ⟨htab₄, hthread₄, hfiles₄, _⟩ := Handler.only_machine hcop.rest
  have hresult : toInt32 ((F.pos h₂ : Int) - F.pos k.host) = bs.length := by
    rw [hpos₂, toInt32_of_range (by omega) (by omega)]
    omega
  obtain ⟨k', hleave, _, _⟩ := leaveWith_ok ((bs.length : Nat) : Int) k₄
  obtain ⟨hr2, hkept, hmem, _⟩ := leave_kept hleave hk htab₄ hthread₄
    ⟨F.pos h₂, by rw [hfiles₄]; simp [k₃, putFile]⟩ hcop.map (by omega)
  refine ⟨k', ?_, hr2, hkept, ?_, ?_⟩
  · have hread : ∀ num, Handler.readRegister num k = .ok (k.machine.readRegister num).toInt k :=
      fun _ => rfl
    have hat : Handler.fileAt fs id k = .ok (k.fileTables fs id.toNat) k := rfl
    have hnew : ∀ t : Kernel η, Handler.newChar (bs.length : Int) t = .ok () t := fun t => by
      unfold Handler.newChar assert
      rw [if_pos (by omega)]
      rfl
    have hs2u : Handler.system2User dst (bs.length : Int) bs k₃ = .ok r k₄ := by
      unfold Handler.system2User
      rw [if_neg (by omega), if_neg (by omega), Int.toNat_natCast]
      exact hcopy
    rw [Handler.scRead, bind_eq_of_ok (hread 4), bind_eq_of_ok (hread 5), bind_eq_of_ok (hread 6),
      h4, h5, h6, if_neg (by omega), bind_eq_of_ok hat, ho]
    dsimp only
    rw [if_neg (by simp only [indexStdout]; omega), bind_eq_of_ok (onHost_eq hoff),
      bind_eq_of_ok (setFile_eq _ _ _ _), bind_eq_of_ok (hnew _),
      if_neg (by simp only [indexStdin]; omega)]
    unfold Handler.readFile
    rw [bind_eq_of_ok (onHost_eq hread₂), bind_eq_of_ok (setFile_eq _ _ _ _),
      if_pos (by dsimp only; omega), bind_eq_of_ok (onHost_eq htell),
      bind_eq_of_ok (setFile_eq _ _ _ _)]
    dsimp only
    rw [hresult, bind_eq_of_ok hs2u]
    exact hleave
  · intro j hj hal
    rw [hmem]
    exact hcop.copied j (Nat.zero_le j) (by omega) fun l _ hl => hal l hl
  · intro a ha
    rw [hmem]
    exact hcop.other a fun j _ hj hz => ha j (by omega) fun l hl => hz l (Nat.zero_le l) hl

end Cases

/-! ## The three calls together -/

/-- **The setting**: the caller has `b` at `buf`, room for it at `dst`, and a file open for reading
and writing whose size an `int` can tell, also with `b` in it. The frames of the caller are
different ones. -/
structure Setting {H : HostOps η} {fd : Int} (F : PlainFile H fd) (fs : Uid)
    (buf dst id : BitVec 32) (b : List UInt8) (k : Kernel η) : Prop where
  file : HasFile fs id.toInt fd k
  nonempty : 1 ≤ b.length
  source : ∀ i < b.length, k.machine.byteAt (toInt32 (buf.toInt + i)) = some (b.getD i 0)
  dest : ∀ j < b.length, (k.machine.place (toInt32 (dst.toInt + j)) true).isSome = true
  frames : k.machine.Injective
  fits : (F.pos k.host : Int) + b.length ≤ intMax
  length : ((F.content k.host).length : Int) ≤ intMax

/-- **The bytes come back**: both calls report all of the bytes, the destination holds
them, and no other byte of memory has changed. -/
def Faithful (H : HostOps η) (buf dst id : BitVec 32) (b : List UInt8) (p : Nat)
    (k : Kernel η) : Prop :=
  ∃ k', k.writeSeekRead H buf dst id b.length p = some ((b.length : Int), (b.length : Int), k') ∧
    (∀ j < b.length, k'.machine.byteAt (toInt32 (dst.toInt + j)) = some (b.getD j 0)) ∧
    (∀ a : Int, (∀ j < b.length, ∀ q : Nat,
      k.machine.place (toInt32 (dst.toInt + j)) true = some q → a ≠ q) →
        k'.machine.mainMemory a = k.machine.mainMemory a)

/-- Where byte `j` of the destination is. -/
def target (k : Kernel η) (dst : BitVec 32) (j : Nat) : Nat :=
  (k.machine.place (toInt32 (dst.toInt + j)) true).getD 0

section Together

variable {H : HostOps η} {fd : Int} {F : PlainFile H fd} {fs : Uid} {buf dst id : BitVec 32}
  {b : List UInt8} {k : Kernel η}

theorem Setting.place (S : Setting F fs buf dst id b k) {j : Nat} (hj : j < b.length) :
    k.machine.place (toInt32 (dst.toInt + j)) true = some (k.target dst j) := by
  obtain ⟨q, hq⟩ := Option.isSome_iff_exists.mp (S.dest j hj)
  rw [target, hq]
  rfl

theorem Setting.target_inj (S : Setting F fs buf dst id b k) {j j' : Nat} (hj : j < b.length)
    (hj' : j' < b.length) (h : k.target dst j = k.target dst j') : j = j' := by
  have hsize := S.frames.count_le S.dest
  have hmem : memorySize < 4294967296 := by decide
  exact S.frames.step (by omega) (by omega) (S.place hj) (h ▸ S.place hj')

/-- The bytes fit in memory, so there are not that many. -/
theorem Setting.small (S : Setting F fs buf dst id b k) : (b.length : Int) < intMax := by
  have hsize := S.frames.count_le S.dest
  unfold memorySize numPhysPages pageSize at hsize
  unfold intMax
  omega

/-- **What the three calls do.** -/
theorem writeSeekRead_ok (S : Setting F fs buf dst id b k) :
    ∃ k', k.writeSeekRead H buf dst id b.length (F.pos k.host) =
        some ((b.length : Int), (b.length : Int), k') ∧
      k.machine.SameMap k'.machine ∧
      (∀ j < b.length, Ahead b j → k'.machine.mainMemory (k.target dst j) = b.getD j 0) ∧
      (∀ a : Int, (∀ j < b.length, Ahead b j → a ≠ k.target dst j) →
        k'.machine.mainMemory a = k.machine.mainMemory a) := by
  have hfits := S.fits
  have hlength := S.length
  have hcount : (BitVec.ofNat 32 b.length).toInt = b.length := ofNat_toInt (by omega)
  -- Write
  obtain ⟨k₁, hw, hw2, hkept₁, hmem₁, hcont₁⟩ := scWrite_ok F
    (S.file.load 8 buf (BitVec.ofNat 32 b.length) id) (b := b) rfl hcount rfl S.nonempty S.small
    hfits fun i hi => by rw [byteAt_load]; exact S.source i hi
  have hcall₁ := call_of_body (c := .write) S.file.owner (by decide) hw
  have hlen₁ : ((F.content k₁.host).length : Int) ≤ intMax := by
    rw [hcont₁, length_overwrite, length_cut]
    show ((max (F.content k.host).length (F.pos k.host + b.length) : Nat) : Int) ≤ intMax
    omega
  -- Seek
  obtain ⟨k₂, hs, hkept₂, hmem₂, hpos₂, hcont₂⟩ := scSeek_ok F
    (hkept₁.file.load 9 (BitVec.ofNat 32 (F.pos k.host)) id 0) (p := F.pos k.host)
    (ofNat_toInt (by omega)) rfl (by
      show F.pos k.host ≤ (F.content k₁.host).length
      rw [hcont₁, length_overwrite]
      show F.pos k.host ≤ max _ (F.pos k.host + _)
      omega) hlen₁
  have hcall₂ := call_of_body (c := .seek) hkept₁.file.owner (by decide) hs
  -- Read
  have hmap : k.machine.SameMap k₂.machine := hkept₁.of_load.map.trans hkept₂.of_load.map
  have hcont : F.content k₂.host = overwrite (F.content k.host) (F.pos k.host) (cut b) :=
    hcont₂.trans hcont₁
  obtain ⟨k₃, hr, hr2, hkept₃, hcopied, hother⟩ := scRead_ok F
    (hkept₂.file.load 7 dst (BitVec.ofNat 32 b.length) id) (cut b) (P := k.target dst) rfl
    (by rw [length_cut]; exact hcount) rfl (by rw [length_cut]; exact S.nonempty)
    (by
      show (F.pos k₂.host : Int) + _ ≤ intMax
      rw [hpos₂, length_cut]
      exact hfits)
    (by
      show ((F.content k₂.host).drop (F.pos k₂.host)).take _ = _
      rw [hpos₂, hcont, overwrite_read])
    (fun j hj => by
      rw [length_cut] at hj
      rw [← S.place hj, ← hmap.place]
      exact (sameMap_load k₂ 7 dst (BitVec.ofNat 32 b.length) id).place _ _)
    (fun j j' hj hj' => by
      rw [length_cut] at hj hj'
      exact S.target_inj hj hj')
  have hcall₃ := call_of_body (c := .read) hkept₂.file.owner (by decide) hr
  rw [length_cut] at hr2 hcopied hother
  refine ⟨k₃, ?_, hmap.trans hkept₃.of_load.map, ?_, ?_⟩
  · unfold writeSeekRead
    rw [hcall₁]
    dsimp only [Option.bind_some]
    rw [hcall₂]
    dsimp only [Option.bind_some]
    rw [hcall₃, hw2, hr2]
    rfl
  · intro j hj hal
    rw [hcopied j hj (ahead_cut.mpr hal), cut_getD hal]
  · intro a ha
    rw [hother a fun j hj hal => ha j hj (ahead_cut.mp hal)]
    show k₂.machine.mainMemory a = _
    rw [hmem₂]
    show k₁.machine.mainMemory a = _
    rw [hmem₁]
    rfl

/-- Byte `j` is behind a zero. -/
theorem not_ahead {b : List UInt8} {j : Nat} : ¬ Ahead b j ↔ ∃ l < j, b.getD l 0 = 0 := by
  simp only [Ahead, not_forall, not_not, exists_prop]

/-- What the destination holds in the end: the bytes of `b` as far as the first zero, and behind it
what it held before. -/
theorem destination (S : Setting F fs buf dst id b k) :
    ∃ k', k.writeSeekRead H buf dst id b.length (F.pos k.host) =
        some ((b.length : Int), (b.length : Int), k') ∧
      (∀ j < b.length, Ahead b j →
        k'.machine.byteAt (toInt32 (dst.toInt + j)) = some (b.getD j 0)) ∧
      (∀ j < b.length, ¬ Ahead b j → k'.machine.byteAt (toInt32 (dst.toInt + j)) =
        k.machine.byteAt (toInt32 (dst.toInt + j))) ∧
      (∀ a : Int, (∀ j < b.length, a ≠ k.target dst j) →
        k'.machine.mainMemory a = k.machine.mainMemory a) := by
  obtain ⟨k', hrun, hmap, hcopied, hother⟩ := writeSeekRead_ok S
  have hold : ∀ j < b.length,
      k.machine.byteAt (toInt32 (dst.toInt + j)) = some (k.machine.mainMemory (k.target dst j)) :=
    fun j hj => Machine.byteAt_of_place (Machine.place_read (S.place hj))
  have hnew : ∀ j < b.length,
      k'.machine.byteAt (toInt32 (dst.toInt + j)) = some (k'.machine.mainMemory (k.target dst j)) :=
    fun j hj => Machine.byteAt_of_place (Machine.place_read ((hmap.place _ _).trans (S.place hj)))
  refine ⟨k', hrun, ?_, ?_, fun a ha => hother a fun j hj _ => ha j hj⟩
  · intro j hj hal
    rw [hnew j hj, hcopied j hj hal]
  · -- no byte that is copied goes there
    intro j hj hal
    rw [hnew j hj, hold j hj, hother]
    intro j' hj' hal' he
    refine hal ?_
    rw [S.target_inj hj hj' (by exact_mod_cast he)]
    exact hal'

theorem Faithful.behind (S : Setting F fs buf dst id b k)
    (h : Faithful H buf dst id b (F.pos k.host) k) {j : Nat} (hj : j < b.length)
    (hz : ∃ l < j, b.getD l 0 = 0) :
    k.machine.byteAt (toInt32 (dst.toInt + j)) = some (b.getD j 0) := by
  obtain ⟨k', hrun, _, hbehind, _⟩ := destination S
  obtain ⟨k'', hrun', hbytes, _⟩ := h
  rw [hrun] at hrun'
  injection hrun' with he
  injection he with _ he
  injection he with _ he
  rw [← he] at hbytes
  rw [← hbehind j hj (not_ahead.mpr hz)]
  exact hbytes j hj

/-- **When a file gives back what was written to it**: the bytes behind the first zero, if there
are any, are in the destination already. -/
theorem file_fidelity_iff (S : Setting F fs buf dst id b k) :
    Faithful H buf dst id b (F.pos k.host) k ↔
      ∀ j < b.length, (∃ l < j, b.getD l 0 = 0) →
        k.machine.byteAt (toInt32 (dst.toInt + j)) = some (b.getD j 0) := by
  refine ⟨fun h j hj hz => h.behind S hj hz, fun h => ?_⟩
  obtain ⟨k', hrun, hahead, hbehind, hother⟩ := destination S
  refine ⟨k', hrun, fun j hj => ?_, fun a ha => hother a fun j hj => ha j hj _ (S.place hj)⟩
  by_cases hal : Ahead b j
  · exact hahead j hj hal
  · rw [hbehind j hj hal]
    exact h j hj (not_ahead.mp hal)

end Together

/-- A host with one file. -/
def arrayHost : HostOps (List UInt8 × Nat) where
  open_ := fun _ _ h => (5, h)
  close := fun _ h => (0, h)
  read := fun _ n h =>
    let bs := (h.1.drop h.2).take n.toNat
    ((bs.length, bs), (h.1, h.2 + bs.length))
  write := fun _ buffer n h => (n, (overwrite h.1 h.2 (buffer.take n.toNat), h.2 + n.toNat))
  lseek := fun _ off whence h =>
    match whence with
    | .set => (off, (h.1, off.toNat))
    | .cur => (h.2, h)
    | .fromEnd => (h.1.length, (h.1, h.1.length))
  rand := fun h => (0, h)
  unset := fun _ => 0

/-- Its one file is a plain one. -/
def arrayFile : PlainFile arrayHost 5 where
  content := Prod.fst
  pos := Prod.snd
  lseek_set := fun _ _ _ => ⟨rfl, rfl, rfl⟩
  lseek_cur := fun _ _ => ⟨rfl, rfl, rfl⟩
  lseek_end := fun _ _ => ⟨rfl, rfl, rfl⟩
  read := fun _ _ => ⟨rfl, rfl, rfl, rfl⟩
  write := fun _ _ _ _ _ => ⟨rfl, rfl, rfl⟩

/-- The initial process, with `a`, `x`, `b` at address 0 and a file in slot 2 at offset 1. -/
def copying (x : UInt8) : Kernel (List UInt8 × Nat) where
  machine :=
    { registers := fun _ => 0
      mainMemory := fun a => if a = 0 then 97 else if a = 1 then x else if a = 2 then 98 else 0
      pageTable := fun v => ⟨v, v, true, false, false, false⟩
      pageTableSize := 2 }
  currentThread := 0
  fileTables := fun _ i => if i = 2 then some ⟨5, 0, readwriteType⟩ else none
  host := ([120, 121], 1)
  input := []
  printed := []
  pTab := PState.boot PState.stackOnly
  pTabRun := []
  sTab := ⟨STable.new, fun _ => .out none⟩
  sTabRun := []
  display := ConsoleState.start
  displayRun := []

theorem copying_frames (x : UInt8) : (copying x).machine.Injective := by
  intro v v' h h' _ _ he
  have h2 : v < 2 := h
  have h2' : v' < 2 := h'
  have he' : toUInt32 (v : Int) = toUInt32 (v' : Int) := he
  unfold toUInt32 at he'
  omega

theorem copying_setting : ∀ x ∈ [(0 : UInt8), 99],
    Setting arrayFile 0 0#32 512#32 2#32 [97, x, 98] (copying x) := by
  intro x hx
  have hx' : x = 0 ∨ x = 99 := by simpa using hx
  have hfits : ((1 : Nat) : Int) + (3 : Nat) ≤ intMax := by decide
  have hlength : ((2 : Nat) : Int) ≤ intMax := by decide
  refine ⟨⟨rfl, by decide, 0, rfl⟩, by simp, ?_, ?_, copying_frames x, hfits, hlength⟩
  · rcases hx' with rfl | rfl <;> decide +kernel
  · rcases hx' with rfl | rfl <;> decide +kernel

/-- Three letters go to the file and come back. -/
theorem file_fidelity_letters :
    Faithful arrayHost 0#32 512#32 2#32 [97, 99, 98] 1 (copying 99) := by
  refine (file_fidelity_iff (copying_setting 99 (by decide))).mpr ?_
  decide +kernel

/-- A zero between two letters, and the second one does not come back. -/
theorem file_fidelity_zero :
    ¬ ∀ (η : Type) (H : HostOps η) (fd : Int) (F : PlainFile H fd) (fs : Uid)
    (buf dst id : BitVec 32) (b : List UInt8) (k : Kernel η),
      Setting F fs buf dst id b k → Faithful H buf dst id b (F.pos k.host) k := by
  intro h
  have S := copying_setting 0 (by decide)
  have hb := (h _ _ _ arrayFile 0 0#32 512#32 2#32 [97, 0, 98] (copying 0) S).behind S (j := 2)
    (by decide) ⟨1, by decide, rfl⟩
  exact absurd hb (by decide +kernel)

end Kernel

end Nachos
