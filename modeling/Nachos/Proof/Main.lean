import Nachos.Proof.Volume
import Nachos.Threads.Main

/-!
# What was copied in is printed

`Copy` and `Print` are callers of the file system, so what they do is said of the store. `Copy`
puts the whole UNIX file under the new name, whatever parts the host gives it in, and `Print` reads
the file to its end. No run takes a file away that it is not asked to remove, so a file can be
printed by any later run.
-/

namespace Nachos.Filesys

open Base (upd upd_self upd_ne bind_eq_of_ok blit blit_zero FileStore History Allowed runCalls)

section Programs

variable {v : Volume} {S : Store}

/-- A file that was there is still there, with the same contents. -/
def Kept (S T : Store) : Prop := ∀ k ∈ S.names, FileStore.Same k S T

theorem Kept.refl (S : Store) : Kept S S := fun _ hk => ⟨hk, rfl, rfl⟩

theorem Kept.trans {S T U : Store} (hST : Kept S T) (hTU : Kept T U) : Kept S U := fun k hk =>
  (hST k hk).trans (hTU k (hST k hk).mem)

theorem Kept.point (S : Store) (h : Nat) (o : Option (List UInt8 × Nat)) : Kept S (S.point h o) :=
  fun _ hk => ⟨hk, rfl, rfl⟩

/-! ## Copying -/

/-- File `k` has the bytes of the list. -/
structure Contains (S : Store) (k : List UInt8) (l : List UInt8) : Prop where
  mem : k ∈ S.names
  length : S.length k = l.length
  elem : ∀ j, j < l.length → S.elem k j = l.getD j 0

/-- What is read of a file is the list. -/
theorem Contains.slice {k l : List UInt8} (h : Contains S k l) : S.slice k 0 (S.length k) = l := by
  have hamount : S.amount k 0 (S.length k) = l.length := by
    rw [FileStore.amount, Nat.sub_zero, Nat.min_self, h.length]
  refine List.ext_getElem (by rw [FileStore.length_slice, hamount]) fun j _ hj => ?_
  simp only [FileStore.slice, List.getElem_map, List.getElem_range, Nat.zero_add]
  rw [h.elem j hj, List.getD_eq_getElem?_getD, List.getElem?_eq_getElem hj, Option.getD_some]

theorem Contains.same {T : Store} {k l : List UInt8} (h : Contains S k l)
    (hsame : FileStore.Same k S T) : Contains T k l :=
  ⟨hsame.mem, hsame.length.trans h.length, fun j hj => by rw [hsame.elem]; exact h.elem j hj⟩

/-- The state of a copy: the first `p` bytes are there. -/
structure Copied (S : Store) (h : Nat) (k all : List UInt8) (p : Nat) : Prop where
  opened : S.opened h = some (k, p)
  le : p ≤ all.length
  small : all.length ≤ maxFileSize
  length : S.length k = all.length
  elem : ∀ j, j < p → S.elem k j = all.getD j 0

/-- One chunk. -/
theorem Copied.write {h p n : Nat} {k all : List UInt8} (hc : Copied S h k all p)
    (hn : p + n ≤ all.length) {src : Nat → UInt8} (hsrc : ∀ j, j < n → src j = all.getD (p + j) 0) :
    Copied ((S.put k src n p).point h (some (k, p + S.amount k p n))) h k all (p + n) := by
  have hamount : S.amount k p n = n := by rw [FileStore.amount, hc.length]; omega
  refine ⟨?_, hn, hc.small, hc.length, fun j hj => ?_⟩
  · rw [hamount]
    exact upd_self _ _ _
  · show (S.put k src n p).elem k j = _
    by_cases hin : p ≤ j
    · obtain ⟨i, rfl⟩ : ∃ i, j = p + i := ⟨j - p, by omega⟩
      rw [FileStore.elem_put _ _ _ (by rw [hamount]; omega), hsrc i (by omega)]
    · rw [FileStore.elem_put_outside _ _ _ (.inl (by omega)), hc.elem j (by omega)]

/-- **The loop of `Copy`** gets to the end of the UNIX file, and everything it was given is in the
new one. Other files stay as they are. -/
theorem copyLoop_ok {h : Nat} {kk all : List UInt8} (m : RunMemory) (u : UnixFile) :
    ∀ (n k p : Nat) (buffer : Nat → UInt8) (v : Volume) (S : Store), (all.drop p).length = n →
      Represents v S → Copied S h kk all p →
      ∃ v' T, copyLoop h m u k buffer (all.drop p) v = .ok () v' ∧ Represents v' T
        ∧ Copied T h kk all all.length ∧ T.names = S.names
        ∧ ∀ k', k' ≠ kk → T.length k' = S.length k' ∧ T.elem k' = S.elem k' := by
  intro n
  induction n using Nat.strongRecOn with
  | ind n ih =>
      intro k p buffer v S hn hR hc
      have hp := hc.le
      have hchunk := u.readPartial_length k (all.drop p) transferSize
      rw [List.length_drop] at hchunk hn
      unfold copyLoop
      by_cases hpos : 0 < (u.readPartial k (all.drop p) transferSize).length
      · obtain ⟨a, ha⟩ : ∃ a, a = (u.readPartial k (all.drop p) transferSize).length := ⟨_, rfl⟩
        rw [dif_pos hpos, ← ha]
        rw [← ha] at hchunk hpos
        have hend : p + a ≤ all.length := by omega
        have hsum : (p : Int) + (a : Nat) < 2147483648 := by
          have hsmall : all.length ≤ 3840 := hc.small
          omega
        -- the buffer has the chunk at its start
        have hsrc : ∀ j, j < a → blit buffer 0 a
            (fun j => (u.readPartial k (all.drop p) transferSize).getD j 0) j =
            all.getD (p + j) 0 := by
          intro j hj
          rw [blit_zero _ _ hj, UnixFile.readPartial, List.getD_eq_getElem?_getD,
            List.getElem?_take_of_lt (by omega), List.getElem?_drop, ← List.getD_eq_getElem?_getD]
        obtain ⟨v₁, hwrite, hR₁⟩ :=
          write_refines hR hc.opened hsum (m.buf (3 * k)) (m.buf (3 * k + 1))
          (m.buf (3 * k + 2)) (blit buffer 0 a
            fun j => (u.readPartial k (all.drop p) transferSize).getD j 0)
        rw [Int.toNat_natCast] at hR₁
        rw [bind_eq_of_ok hwrite, List.drop_drop]
        obtain ⟨v', T, hrun, hR', hcT, hnames, hother⟩ :=
          ih (all.length - (p + a)) (by omega) (k + 1)
          (p + a) _ v₁ _ (by rw [List.length_drop]) hR₁ (hc.write hend hsrc)
        refine ⟨v', T, hrun, hR', hcT, hnames, fun k' hk' => ?_⟩
        obtain ⟨hlen, helem⟩ := hother k' hk'
        exact ⟨hlen, helem.trans (FileStore.elem_put_other _ _ _ _ hk')⟩
      · rw [dif_neg hpos]
        have hall : p = all.length := by
          have htransfer : transferSize = 128 := rfl
          omega
        refine ⟨v, S, rfl, hR, ?_, rfl, fun _ _ => ⟨rfl, rfl⟩⟩
        rw [← hall]
        exact hc

theorem message_ne (l : List UInt8) : l ++ text "\n" ≠ [] := fun h =>
  absurd (List.append_eq_nil_iff.mp h).2 (by decide)

/-- What `Copy` does: it either prints a message, or the file is there. -/
structure CopyDone (S : Store) (dst : List UInt8) (u : UnixFile) (out : List UInt8)
    (T : Store) : Prop where
  kept : Kept S T
  names : ∀ k ∈ T.names, k ∈ S.names ∨ k = key dst
  contents : out = [] → Contains T (key dst) u.bytes
  quiet : out = [] ↔ key dst ∉ S.names ∧ S.names.card < numDirEntries

/-- **`Copy`** of a UNIX file that is not too large. -/
theorem copyFile_refines (hR : Represents v S) (h : Nat) (m : RunMemory) (u : UnixFile)
    (dst : List UInt8) (hlen : u.bytes.length ≤ maxFileSize) :
    ∃ out v' T, copyFile h m u dst v = .ok out v' ∧ Represents v' T ∧ CopyDone S dst u out T := by
  have hint : toInt32 (u.bytes.length : Int) = (u.bytes.length : Nat) := by
    have hle : u.bytes.length ≤ 3840 := hlen
    exact OpenFile.toInt32_natCast (by omega)
  obtain ⟨b, v₁, S₁, hcreate, hstep, hR₁⟩ := create_refines hR (m.fresh 1) dst hlen
  rw [← hint] at hcreate
  unfold copyFile
  rw [bind_eq_of_ok hcreate]
  cases hstep with
  | refused hwhy =>
      refine ⟨_, v₁, S, rfl, hR₁, Kept.refl S,
        fun k hk => .inl hk, fun hout => ?_, fun hout => ?_, ?_⟩
      · exact absurd hout (message_ne _)
      · exact absurd hout (message_ne _)
      · rintro ⟨hnew, hroom⟩
        rcases hwhy with htaken | hfull
        · exact absurd htaken hnew
        · omega
  | created c hnew hroom =>
      have hin : key dst ∈ (S.add (key dst) u.bytes.length c).names := Finset.mem_insert_self _ _
      obtain ⟨b, v₂, S₂, hopen, hstep, hR₂⟩ := open_refines hR₁ h (m.fresh 2) dst
      have hgo : (!(Answer.flag true).success) = false := rfl
      rw [hgo, if_neg (by decide), bind_eq_of_ok hopen]
      cases hstep with
      | notFound hnone => exact absurd hin hnone
      | found _ =>
          have hstart : Copied ((S.add (key dst) u.bytes.length c).point h (some (key dst, 0))) h
              (key dst) u.bytes 0 :=
            ⟨upd_self _ _ _, Nat.zero_le _, hlen, upd_self _ _ _, fun j hj => absurd hj (by omega)⟩
          obtain ⟨v₃, S₃, hloop, hR₃, hdone, hnames, hother⟩ := copyLoop_ok m u _ 0 0 m.buffer v₂ _
            rfl hR₂ hstart
          obtain ⟨v₄, hclose, _, hR₄⟩ := close_refines hR₃ h
          rw [List.drop_zero] at hloop
          rw [hgo, if_neg (by decide), bind_eq_of_ok hloop, bind_eq_of_ok hclose]
          refine ⟨[], v₄, _, rfl, hR₄, fun k hk => ?_, fun k hk => ?_, fun _ => ?_,
            fun _ => ⟨hnew, hroom⟩, fun _ => rfl⟩
          · have hne : k ≠ key dst := fun he => hnew (he ▸ hk)
            obtain ⟨hl, he⟩ := hother k hne
            refine ⟨?_, hl.trans (upd_ne _ _ hne), he.trans (upd_ne _ _ hne)⟩
            show k ∈ S₃.names
            rw [hnames]
            exact Finset.mem_insert_of_mem hk
          · rw [show (S₃.point h none).names = S₃.names from rfl, hnames] at hk
            exact (Finset.mem_insert.mp hk).symm
          · refine ⟨?_, hdone.length, hdone.elem⟩
            show key dst ∈ S₃.names
            rw [hnames]
            exact hin

/-! ## Printing -/

/-- **The loop of `Print`** reads to the end of the file. -/
theorem printLoop_ok {h : Nat} {k : List UInt8} (m : RunMemory) :
    ∀ (fuel n p : Nat) (buffer : Nat → UInt8) (v : Volume) (S : Store), Represents v S →
      S.opened h = some (k, p) → p ≤ S.length k →
      S.length k - p + transferSize ≤ fuel * transferSize →
      ∃ v', printLoop h m fuel n buffer v = .ok (some (S.slice k p (S.length k - p))) v'
        ∧ Represents v' (S.point h (some (k, S.length k))) := by
  intro fuel
  induction fuel with
  | zero =>
      intro n p buffer v S _ _ _ hfuel
      simp only [transferSize] at hfuel
      omega
  | succ fuel ih =>
      intro n p buffer v S hR hopen hp hfuel
      have hmax : S.length k ≤ 3840 := handle_length hR hopen
      have h128 : transferSize = 128 := rfl
      have hsum : (p : Int) + (transferSize : Nat) < 2147483648 := by omega
      obtain ⟨into, v₁, hread, hslice, _, hR₁⟩ := read_refines hR hopen hsum (m.buf n) buffer
      rw [Int.toNat_natCast] at hread hslice hR₁
      obtain ⟨a, ha⟩ : ∃ a, a = S.amount k p transferSize := ⟨_, rfl⟩
      have ha' : a = min transferSize (S.length k - p) := ha
      rw [← ha] at hread hslice hR₁
      unfold printLoop
      rw [bind_eq_of_ok hread]
      by_cases hpos : 0 < a
      · have hcond : (0 : Int) < (Answer.bytes (a : Nat) into).amount.1 := Int.natCast_pos.mpr hpos
        have hpoint : (S.point h (some (k, p + a))).opened h = some (k, p + a) :=
          FileStore.opened_point _ _ _
        have hend : p + a ≤ S.length k := by omega
        obtain ⟨v', hrest, hR'⟩ := ih (n + 1) (p + a) into v₁ _ hR₁ hpoint hend (by
          show S.length k - (p + a) + transferSize ≤ fuel * transferSize
          rw [h128] at hfuel ha' ⊢
          omega)
        rw [if_pos hcond]
        refine ⟨v', (bind_eq_of_ok hrest).trans ?_, ?_⟩
        · have hsplit := S.slice_append k p a (S.length k - (p + a)) hend
          rw [show a + (S.length k - (p + a)) = S.length k - p by omega, ha,
            S.slice_amount, ← hslice, ← ha] at hsplit
          rw [← hsplit]
          rfl
        · rwa [FileStore.point_point] at hR'
      · have hcond : ¬ (0 : Int) < (Answer.bytes (a : Nat) into).amount.1 := fun h0 =>
          hpos (Int.natCast_pos.mp h0)
        have hall : p + a = S.length k := by omega
        rw [if_neg hcond]
        refine ⟨v₁, ?_, hall ▸ hR₁⟩
        rw [S.slice_end (by omega)]
        rfl

/-- Thirty reads of 128 bytes are enough for the largest file, and one more to see its end. -/
def enoughReads : Nat := maxFileSize / transferSize + 1

/-- **`Print`** of a file that is there. -/
theorem print_refines (hR : Represents v S) (h : Nat) (m : RunMemory) {fuel : Nat}
    (hfuel : enoughReads ≤ fuel) (name : List UInt8) (hname : key name ∈ S.names) :
    ∃ v' T, print h m fuel name v = .ok (some (S.slice (key name) 0 (S.length (key name)))) v'
      ∧ Represents v' T ∧ Kept S T ∧ T.names = S.names := by
  obtain ⟨b, v₁, S₁, hopen, hstep, hR₁⟩ := open_refines hR h (m.fresh 3) name
  unfold print
  rw [bind_eq_of_ok hopen]
  cases hstep with
  | notFound hnone => exact absurd hname hnone
  | found _ =>
      have hgo : (!(Answer.flag true).success) = false := rfl
      have hpoint : (S.point h (some (key name, 0))).opened h = some (key name, 0) :=
        FileStore.opened_point _ _ _
      have hmax : S.length (key name) ≤ 3840 := handle_length hR₁ hpoint
      have hreads : enoughReads = 31 := rfl
      have henough : S.length (key name) - 0 + 128 ≤ fuel * 128 := by omega
      obtain ⟨v₂, hloop, hR₂⟩ :=
        printLoop_ok m fuel 0 0 m.buffer v₁ _ hR₁ hpoint (Nat.zero_le _) henough
      obtain ⟨v₃, hclose, _, hR₃⟩ := close_refines hR₂ h
      rw [hgo, if_neg (by decide), bind_eq_of_ok hloop, bind_eq_of_ok hclose]
      exact ⟨v₃, _, rfl, hR₃, fun k hk => ⟨hk, rfl, rfl⟩, rfl⟩

theorem print_missing (hR : Represents v S) (h : Nat) (m : RunMemory) (fuel : Nat)
    (name : List UInt8) (hname : key name ∉ S.names) :
    ∃ v' T, print h m fuel name v =
        .ok (some (text "Print: unable to open file " ++ name ++ text "\n")) v'
      ∧ Represents v' T ∧ Kept S T ∧ T.names = S.names := by
  obtain ⟨b, v₁, S₁, hopen, hstep, hR₁⟩ := open_refines hR h (m.fresh 3) name
  unfold print
  rw [bind_eq_of_ok hopen]
  cases hstep with
  | found hmem => exact absurd hmem hname
  | notFound _ => exact ⟨v₁, _, rfl, hR₁, fun k hk => ⟨hk, rfl, rfl⟩, rfl⟩

/-! ## One run -/

/-- The run is asked to remove the file of this name. -/
def Run.Removes (r : Run) (k : List UInt8) : Prop :=
  ∃ name, r.line.removeFileName = some name ∧ key name = k

/-- The run is asked to copy the UNIX file `u` to the name. -/
def Run.Copies (r : Run) (u : UnixFile) (k : List UInt8) : Prop :=
  ∃ src dst, r.line.copyFileNames = some (src, dst) ∧ r.unix src = some u ∧ key dst = k

/-- What is copied fits into a file, under a name that `List` can print. -/
def Run.Fits (r : Run) : Prop :=
  ∀ src dst, r.line.copyFileNames = some (src, dst) → (key dst).length < fileNameMaxLen ∧
    ∀ u, r.unix src = some u → u.bytes.length ≤ maxFileSize

/-- **What a run prints and does.** -/
structure RunSpec (S : Store) (r : Run) (o : Output) (T : Store) : Prop where
  kept : ∀ k ∈ S.names, ¬ r.Removes k → FileStore.Same k S T
  names : ∀ k ∈ T.names, (k ∈ S.names ∧ ¬ r.Removes k) ∨
    ∃ src dst, r.line.copyFileNames = some (src, dst) ∧ key dst = k
  copied : ∀ u k, r.Copies u k → o.copied = [] → Contains T k u.bytes
  quiet : ∀ u k, r.Copies u k → k ∉ S.names → S.names.card < numDirEntries → o.copied = []
  listed : r.line.dirListFlag = true → o.listed.Nodup ∧ o.listed.toFinset = T.names
  printed : ∀ name, r.line.printFileName = some name → key name ∈ T.names →
    o.printed = some (T.slice (key name) 0 (T.length (key name)))

variable (hR : Represents v S)
include hR

theorem remove_step (r : Run) : ∃ v' T, r.remove v = .ok () v' ∧ Represents v' T
    ∧ (∀ k ∈ S.names, ¬ r.Removes k → FileStore.Same k S T)
    ∧ ∀ k ∈ T.names, k ∈ S.names ∧ ¬ r.Removes k := by
  unfold Run.remove
  cases hname : r.line.removeFileName with
  | none =>
      refine ⟨v, S, rfl, hR, fun k hk _ => ⟨hk, rfl, rfl⟩, fun k hk => ⟨hk, ?_⟩⟩
      rintro ⟨name, hsome, _⟩
      exact Option.noConfusion rfl (heq_of_eq (hname.symm.trans hsome))
  | some name =>
      have hremoves : ∀ k, r.Removes k ↔ key name = k := fun k => by
        constructor
        · rintro ⟨name', hsome, hk⟩
          rw [hname] at hsome
          exact Option.some.inj hsome ▸ hk
        · exact fun hk => ⟨name, hname, hk⟩
      obtain ⟨b, v₁, S₁, hrun, hstep, hR₁⟩ := remove_refines hR (r.memory.fresh 0) name
      refine ⟨v₁, S₁, bind_eq_of_ok hrun, hR₁, ?_⟩
      cases hstep with
      | removed hmem =>
          refine ⟨fun k hk hnot => ⟨Finset.mem_erase.mpr ⟨fun he => ?_, hk⟩, rfl, rfl⟩,
            fun k hk => ?_⟩
          · exact hnot ((hremoves k).mpr he.symm)
          · obtain ⟨hne, hk'⟩ := Finset.mem_erase.mp hk
            exact ⟨hk', fun hr => hne ((hremoves k).mp hr).symm⟩
      | absent hnone =>
          refine ⟨fun k hk _ => ⟨hk, rfl, rfl⟩, fun k hk => ⟨hk, fun hr => hnone ?_⟩⟩
          rw [(hremoves k).mp hr]
          exact hk

theorem copy_step (r : Run) (hfits : r.Fits) : ∃ out v' T, r.copy v = .ok out v' ∧ Represents v' T
    ∧ Kept S T
    ∧ (∀ k ∈ T.names, k ∈ S.names ∨ ∃ src dst, r.line.copyFileNames = some (src, dst) ∧ key dst = k)
    ∧ (∀ u k, r.Copies u k → out = [] → Contains T k u.bytes)
    ∧ ∀ u k, r.Copies u k → k ∉ S.names → S.names.card < numDirEntries → out = [] := by
  unfold Run.copy
  cases hline : r.line.copyFileNames with
  | none =>
      have hnever : ∀ u k, ¬ r.Copies u k := by
        rintro u k ⟨src, dst, hsome, _⟩
        exact Option.noConfusion rfl (heq_of_eq (hline.symm.trans hsome))
      exact ⟨[], v, S, rfl, hR, Kept.refl S,
        fun k hk => .inl hk, fun u k hc => absurd hc (hnever u k),
        fun u k hc => absurd hc (hnever u k)⟩
  | some names =>
      obtain ⟨src, dst⟩ := names
      have hcopies : ∀ u k, r.Copies u k → r.unix src = some u ∧ key dst = k := by
        rintro u k ⟨src', dst', hsome, hu, hk⟩
        obtain ⟨rfl, rfl⟩ := Prod.mk.inj (Option.some.inj (hline.symm.trans hsome))
        exact ⟨hu, hk⟩
      cases hunix : r.unix src with
      | none =>
          have hnever : ∀ u k, ¬ r.Copies u k := fun u k hc =>
            Option.noConfusion rfl (heq_of_eq (hunix.symm.trans (hcopies u k hc).1))
          refine ⟨text "Copy: couldn't open input file " ++ src ++ text "\n", v, S, ?_, hR,
            Kept.refl S, fun k hk => .inl hk, fun u k hc => absurd hc (hnever u k),
            fun u k hc => absurd hc (hnever u k)⟩
          show copy 0 r.memory r.unix src dst v = _
          unfold copy
          rw [hunix]
          rfl
      | some u =>
          obtain ⟨out, v₁, S₁, hrun, hR₁, hdone⟩ := copyFile_refines hR 0 r.memory u dst
            ((hfits src dst hline).2 u hunix)
          refine ⟨out, v₁, S₁, ?_, hR₁, hdone.kept, fun k hk => ?_, fun u' k hc hout => ?_,
            fun u' k hc hnew hroom => ?_⟩
          · show copy 0 r.memory r.unix src dst v = _
            unfold copy
            rw [hunix]
            exact hrun
          · rcases hdone.names k hk with hold | hnew
            · exact .inl hold
            · exact .inr ⟨src, dst, rfl, hnew.symm⟩
          · obtain ⟨hu', rfl⟩ := hcopies u' k hc
            obtain rfl := Option.some.inj (hunix.symm.trans hu')
            exact hdone.contents hout
          · obtain ⟨_, rfl⟩ := hcopies u' k hc
            exact hdone.quiet.mpr ⟨hnew, hroom⟩

theorem list_step (r : Run) (hshort : ∀ k ∈ S.names, k.length < fileNameMaxLen) :
    ∃ l, r.list v = .ok l v ∧ (r.line.dirListFlag = true → l.Nodup ∧ l.toFinset = S.names) := by
  unfold Run.list
  cases hflag : r.line.dirListFlag with
  | false => exact ⟨[], rfl, fun h => Bool.noConfusion h⟩
  | true =>
      obtain ⟨l, hrun, hstep⟩ := list_refines hR (r.memory.fresh 4) hshort
      refine ⟨l, bind_eq_of_ok hrun, fun _ => ?_⟩
      cases hstep with
      | listed hnodup hnames => exact ⟨hnodup, hnames⟩

theorem print_step (r : Run) {fuel : Nat} (hfuel : enoughReads ≤ fuel) :
    ∃ out v' T, r.print fuel v = .ok out v' ∧ Represents v' T ∧ Kept S T ∧ T.names = S.names
      ∧ ∀ name, r.line.printFileName = some name → key name ∈ S.names →
          out = some (S.slice (key name) 0 (S.length (key name))) := by
  unfold Run.print
  cases hline : r.line.printFileName with
  | none =>
      exact ⟨_, v, S, rfl, hR, Kept.refl S, rfl,
        fun _ hsome => Option.noConfusion rfl (heq_of_eq hsome)⟩
  | some name =>
      by_cases hname : key name ∈ S.names
      · obtain ⟨v', T, hrun, hR', hkept, hnames⟩ := print_refines hR 0 r.memory hfuel name hname
        refine ⟨_, v', T, hrun, hR', hkept, hnames, fun name' hsome _ => ?_⟩
        rw [Option.some.inj hsome]
      · obtain ⟨v', T, hrun, hR', hkept, hnames⟩ := print_missing hR 0 r.memory fuel name hname
        refine ⟨_, v', T, hrun, hR', hkept, hnames, fun name' hsome hmem => ?_⟩
        rw [← Option.some.inj hsome] at hmem
        exact absurd hmem hname

/-- **One run.** -/
theorem nachos_refines (hshort : ∀ k ∈ S.names, k.length < fileNameMaxLen) {fuel : Nat}
    (hfuel : enoughReads ≤ fuel) (r : Run) (hfits : r.Fits) :
    ∃ o v' T, nachos fuel r v = .ok o v' ∧ RunSpec S r o T ∧ Represents v' T := by
  obtain ⟨v₁, hrestart, hR₁⟩ := restart_refines hR
  obtain ⟨v₂, S₂, hremove, hR₂, hkept₂, hnames₂⟩ := remove_step hR₁ r
  obtain ⟨copied, v₃, S₃, hcopy, hR₃, hkept₃, hnames₃, hcopied, hquiet⟩ := copy_step hR₂ r hfits
  have hshort₃ : ∀ k ∈ S₃.names, k.length < fileNameMaxLen := fun k hk => by
    rcases hnames₃ k hk with hold | ⟨src, dst, hline, rfl⟩
    · exact hshort k (hnames₂ k hold).1
    · exact (hfits src dst hline).1
  obtain ⟨listed, hlist, hlisted⟩ := list_step hR₃ r hshort₃
  obtain ⟨printed, v₄, S₄, hprint, hR₄, hkept₄, hnames₄, hprinted⟩ := print_step hR₃ r hfuel
  refine ⟨⟨copied, listed, printed⟩, v₄, S₄, ?_,
    ⟨fun k hk hnot => ?_, fun k hk => ?_, fun u k hc hout => ?_,
    fun u k hc hnew hroom => ?_, fun hflag => ?_, fun name hname hmem => ?_⟩, hR₄⟩
  · unfold nachos
    rw [bind_eq_of_ok hrestart, bind_eq_of_ok hremove, bind_eq_of_ok hcopy, bind_eq_of_ok hlist,
      bind_eq_of_ok hprint]
    rfl
  · have h₂ := hkept₂ k hk hnot
    have h₄ := h₂.trans ((hkept₃.trans hkept₄) k h₂.mem)
    exact ⟨h₄.mem, h₄.length, h₄.elem⟩
  · rw [hnames₄] at hk
    rcases hnames₃ k hk with hold | hnew
    · exact .inl (hnames₂ k hold)
    · exact .inr hnew
  · have hin := hcopied u k hc hout
    exact hin.same (hkept₄ k hin.mem)
  · refine hquiet u k hc (fun hk => hnew (hnames₂ k hk).1) (Nat.lt_of_le_of_lt ?_ hroom)
    exact Finset.card_le_card fun k hk => (hnames₂ k hk).1
  · rw [hnames₄]
    exact hlisted hflag
  · rw [hnames₄] at hmem
    have hsame := hkept₄ _ hmem
    rw [hprinted name hname hmem, hsame.length,
      FileStore.slice_congr hsame.length fun j _ => by rw [hsame.elem]]

end Programs

/-! ## Many runs -/

/-- The name that a run copies to. -/
def Run.target (r : Run) : Option (List UInt8) := r.line.copyFileNames.map fun p => key p.2

theorem Run.target_eq {r : Run} {src dst : List UInt8}
    (h : r.line.copyFileNames = some (src, dst)) : r.target = some (key dst) := by
  rw [Run.target, h]
  rfl

/-- Every file has been copied in by some run. -/
theorem names_of_history {before : List Run} {os : List Output} {S : Store}
    (h : History RunSpec FileStore.empty before os S) (k : List UInt8) (hk : k ∈ S.names) :
    ∃ r ∈ before, r.target = some k := by
  refine History.invariant (P := fun T : Store => ∀ k ∈ T.names, ∃ r ∈ before, r.target = some k)
    before
    (fun r hr T o T' hT hstep k hk => ?_) (fun k hk => absurd hk (Finset.notMem_empty k)) h k hk
  rcases hstep.names k hk with ⟨hold, _⟩ | ⟨src, dst, hline, rfl⟩
  · exact hT k hold
  · exact ⟨r, hr, Run.target_eq hline⟩

theorem card_of_history {before : List Run} {os : List Output} {S : Store}
    (h : History RunSpec FileStore.empty before os S) : S.names.card ≤ before.length := by
  have hsub : S.names ⊆ (before.filterMap Run.target).toFinset := fun k hk => by
    obtain ⟨r, hr, ht⟩ := names_of_history h k hk
    exact List.mem_toFinset.mpr (List.mem_filterMap.mpr ⟨r, hr, ht⟩)
  calc S.names.card
      ≤ (before.filterMap Run.target).toFinset.card := Finset.card_le_card hsub
    _ ≤ (before.filterMap Run.target).length := List.toFinset_card_le _
    _ ≤ before.length := List.length_filterMap_le _ _

/-- The runs of the program on a formatted disk, one after the other. -/
theorem runs_refine {fuel : Nat} (hfuel : enoughReads ≤ fuel) {v : Volume} {S : Store}
    (hR : Represents v S) (hshort : ∀ k ∈ S.names, k.length < fileNameMaxLen) (runs : List Run)
    (hfits : ∀ r ∈ runs, r.Fits) :
    ∃ os v' T, runCalls (nachos fuel) runs v = .ok os v' ∧ History RunSpec S runs os T := by
  have hstep : ∀ (v : Volume) (S : Store) (r : Run),
      (Represents v S ∧ ∀ k ∈ S.names, k.length < fileNameMaxLen) → r.Fits →
      ∃ o v' T, nachos fuel r v = .ok o v' ∧ RunSpec S r o T ∧
        Represents v' T ∧ ∀ k ∈ T.names, k.length < fileNameMaxLen := by
    intro v S r hRS hr
    obtain ⟨o, v', T, hrun, hspec, hR'⟩ := nachos_refines hRS.1 hRS.2 hfuel r hr
    refine ⟨o, v', T, hrun, hspec, hR', fun k hk => ?_⟩
    rcases hspec.names k hk with ⟨hold, _⟩ | ⟨src, dst, hline, rfl⟩
    · exact hRS.2 k hold
    · exact (hr src dst hline).1
  obtain ⟨os, v', T, hrun, hhist, _⟩ := Base.runCalls_refines hstep runs ⟨hR, hshort⟩
    (Allowed.of_forall runs S hfits)
  exact ⟨os, v', T, hrun, hhist⟩

/-- **What was copied in is printed.** On a formatted disk Nachos is run again and again. One run
copies a UNIX file to some name without printing a message. Then a later run that prints the
file prints exactly the bytes of the UNIX file, unless it or a run between the two was asked
to remove a file of that name. A run whose name is new prints no message if fewer than ten came
before it. -/
theorem copied_file_printed (fuel : Nat) (hfuel : enoughReads ≤ fuel) (f : Fresh) (d : Disk) :
    ∃ fs d', FileSystem.format f d = .ok fs d' ∧
      ∀ (before between : List Run) (c p : Run) (u : UnixFile) (name : List UInt8),
        (∀ r ∈ before ++ c :: (between ++ [p]), r.Fits) → c.Copies u (key name) →
        (∀ r ∈ between ++ [p], ¬ r.Removes (key name)) → p.line.printFileName = some name →
        ∃ os o os' o' v', runCalls (nachos fuel) (before ++ c :: (between ++ [p]))
            ⟨fs, d', fun _ => none⟩ = .ok (os ++ o :: (os' ++ [o'])) v'
          ∧ os.length = before.length ∧ os'.length = between.length
          ∧ (o.copied = [] → o'.printed = some u.bytes)
          ∧ (before.length < numDirEntries → (∀ r ∈ before, r.target ≠ some (key name)) →
              o.copied = []) := by
  obtain ⟨fs, d', hformat, hR⟩ := format_represents f d
  refine ⟨fs, d', hformat, fun before between c p u name hfits hcopies hstays hprint => ?_⟩
  obtain ⟨rs, v', T, hrun, hhist⟩ := runs_refine hfuel hR
    (fun k hk => absurd hk (Finset.notMem_empty k)) _ hfits
  obtain ⟨os, rs₁, S₁, rfl, hlen, hbefore, hhist⟩ := History.append_inv before hhist
  cases hhist with
  | @cons _ S₂ _ _ _ o rs₂ hc hhist =>
      obtain ⟨os', rs₃, S₃, rfl, hlen', hbetween, hhist⟩ := History.append_inv between hhist
      cases hhist with
      | @cons _ S₄ _ _ _ o' rs₄ hp hhist =>
          cases hhist
          refine ⟨os, o, os', o', v', hrun, hlen, hlen', fun hquiet => ?_, fun hten hnew => ?_⟩
          · have hin := hc.copied u _ hcopies hquiet
            have hstill : Contains S₃ (key name) u.bytes := by
              refine History.invariant (P := fun T : Store => Contains T (key name) u.bytes) between
                (fun r hr T o T' hT hstep => ?_) hin hbetween
              exact hT.same (hstep.kept _ hT.mem (hstays r (List.mem_append_left _ hr)))
            have hlast := hstill.same (hp.kept _ hstill.mem (hstays p (by simp)))
            rw [hp.printed name hprint hlast.mem, hlast.slice]
          · refine hc.quiet u _ hcopies (fun hk => ?_)
              (Nat.lt_of_le_of_lt (card_of_history hbefore) hten)
            obtain ⟨r, hr, ht⟩ := names_of_history hbefore _ hk
            exact hnew r hr ht

/-- A run that copies the UNIX file `hello`, five bytes that are read in three parts, to `hi`. -/
def copyHello : Run where
  line := ⟨none, some ([1], [104, 105]), false, none⟩
  unix := fun _ => some ⟨[104, 101, 108, 108, 111], fun _ => 1⟩
  memory := ⟨fun _ => zeros, fun _ _ => 0, fun _ => 0⟩

/-- A run that prints it. -/
def printHello : Run := { copyHello with line := ⟨none, none, true, some [104, 105]⟩ }

theorem copied_file_printed_hello : ∃ fs d', FileSystem.format zeros (fun _ _ => 0) = .ok fs d' ∧
    ∃ o o' v', runCalls (nachos enoughReads) [copyHello, printHello] ⟨fs, d', fun _ => none⟩ =
        .ok [o, o'] v' ∧ o'.printed = some [104, 101, 108, 108, 111] := by
  obtain ⟨fs, d', hformat, hall⟩ :=
    copied_file_printed enoughReads (Nat.le_refl _) zeros fun _ _ => 0
  have hfits : ∀ r ∈ [copyHello, printHello], r.Fits := by
    intro r hr src dst hline
    rcases List.mem_pair.mp hr with rfl | rfl
    · obtain ⟨rfl, rfl⟩ := Prod.mk.inj (Option.some.inj hline)
      refine ⟨by decide, fun u hu => ?_⟩
      obtain rfl := Option.some.inj hu
      decide
    · exact Option.noConfusion rfl (heq_of_eq hline)
  obtain ⟨os, o, os', o', v', hrun, hlen, hlen', hprinted, hquiet⟩ :=
    hall [] [] copyHello printHello
    ⟨[104, 101, 108, 108, 111], fun _ => 1⟩ [104, 105] hfits ⟨[1], [104, 105], rfl, rfl, rfl⟩
    (fun r hr => by
      rintro ⟨name, hsome, _⟩
      rw [List.mem_singleton.mp hr] at hsome
      exact Option.noConfusion rfl (heq_of_eq hsome)) rfl
  obtain rfl := List.length_eq_zero_iff.mp hlen
  obtain rfl := List.length_eq_zero_iff.mp hlen'
  refine ⟨fs, d', hformat, o, o', v', hrun, hprinted (hquiet (by decide) fun r hr => ?_)⟩
  exact absurd hr (by simp)

end Nachos.Filesys
