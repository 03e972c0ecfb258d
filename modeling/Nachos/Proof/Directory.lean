import Nachos.Proof.Disk

/-!
# The directory

The first nine characters of a name decide which file it is. An entry is seen through
`view`: whether it is in use, its sector and its name. That is all that anybody looks at, and
it is what comes back from the disk.
-/

namespace Nachos.Filesys

open Base (upd upd_self upd_ne bind_eq_of_ok wordAt wordAt_congr wordAt_of_bytes)

/-! ## Strings -/

/-- The characters of a string from `i` on, at most `k` of them. -/
def cstrFrom (s : Nat → UInt8) : Nat → Nat → List UInt8
  | 0, _ => []
  | k + 1, i => if s i = 0 then [] else s i :: cstrFrom s k (i + 1)

/-- The first `n` characters of a string. -/
def cstr (s : Nat → UInt8) (n : Nat) : List UInt8 := cstrFrom s n 0

theorem cstrFrom_congr {s t : Nat → UInt8} : ∀ (k i : Nat),
    (∀ j, j < k → s (i + j) = t (i + j)) → cstrFrom s k i = cstrFrom t k i := by
  intro k
  induction k with
  | zero => intro _ _; rfl
  | succ k ih =>
      intro i h
      have hi : s i = t i := h 0 (by omega)
      have hnext : ∀ j, j < k → s (i + 1 + j) = t (i + 1 + j) := fun j hj => by
        rw [show i + 1 + j = i + (j + 1) by omega]
        exact h (j + 1) (by omega)
      rw [cstrFrom, cstrFrom, hi, ih (i + 1) hnext]

/-- **`strncmp` compares the first characters.** -/
theorem strncmpFrom_eq_zero {s t : Nat → UInt8} : ∀ (k i : Nat),
    strncmpFrom s t k i = 0 ↔ cstrFrom s k i = cstrFrom t k i := by
  intro k
  induction k with
  | zero => intro _; simp [strncmpFrom, cstrFrom]
  | succ k ih =>
      intro i
      rw [strncmpFrom, cstrFrom, cstrFrom]
      by_cases hne : s i = t i
      · rw [if_neg (not_not.mpr hne)]
        by_cases h0 : s i = 0
        · rw [if_pos h0, if_pos h0, if_pos (hne ▸ h0)]
          simp
        · rw [if_neg h0, if_neg h0, if_neg (hne ▸ h0), ih (i + 1), hne]
          simp
      · rw [if_pos hne]
        have hval : ((s i).toNat : Int) - (t i).toNat ≠ 0 := fun h =>
          hne (UInt8.toNat_inj.mp (by omega))
        simp only [hval, false_iff]
        by_cases hs : s i = 0
        · have ht : t i ≠ 0 := fun h => hne (hs.trans h.symm)
          simp [hs, ht]
        · by_cases ht : t i = 0
          · simp [hs, ht]
          · simp [hs, ht, hne]

theorem strncmp_eq_zero {s t : Nat → UInt8} (n : Nat) : strncmp s t n = 0 ↔ cstr s n = cstr t n :=
  strncmpFrom_eq_zero n 0

/-- **`strncpy` copies the first characters.** -/
theorem cstr_strncpy (dst src : Nat → UInt8) (n : Nat) :
    cstr (strncpy dst src n) n = cstr src n := by
  -- from `i` on, as long as no zero was met
  have hfrom : ∀ k i, i + k = n → (∀ j, j < i → src j ≠ 0) →
      cstrFrom (strncpy dst src n) k i = cstrFrom src k i := by
    intro k
    induction k with
    | zero => intro i _ _; rfl
    | succ k ih =>
        intro i hi hno
        have hcopy : strncpy dst src n i = src i := by
          unfold strncpy
          rw [if_pos (by omega), if_neg]
          rintro ⟨j, hj, h0⟩
          exact hno j hj h0
        rw [cstrFrom, cstrFrom, hcopy]
        by_cases h0 : src i = 0
        · rw [if_pos h0, if_pos h0]
        · rw [if_neg h0, if_neg h0, ih (i + 1) (by omega)]
          intro j hj
          by_cases hji : j = i
          · rw [hji]; exact h0
          · exact hno j (by omega)
  exact hfrom n 0 (by omega) fun j hj => absurd hj (by omega)

/-! ## Entries -/

/-- What is looked at in an entry. -/
def DirectoryEntry.view (e : DirectoryEntry) : Bool × BitVec 32 × List UInt8 :=
  (e.inUse, e.sector, cstr e.name fileNameMaxLen)

theorem DirectoryEntry.view_congr {b b' : Nat → UInt8} (h : ∀ k, k < entrySize → b k = b' k) :
    (ofBytes b).view = (ofBytes b').view := by
  have hsize : entrySize = 20 := rfl
  have hsector : wordAt b 4 = wordAt b' 4 := wordAt_congr fun k hk => h _ (by omega)
  have hname : cstr (fun j => b (8 + j)) fileNameMaxLen =
    cstr (fun j => b' (8 + j)) fileNameMaxLen :=
    cstrFrom_congr _ _ fun j hj => h _ (by simp only [fileNameMaxLen] at hj; omega)
  simp only [view, ofBytes, h 0 (by decide), hsector, hname]

/-- **An entry is read back as it was written.** -/
theorem DirectoryEntry.view_bytes (e : DirectoryEntry) : (ofBytes e.bytes).view = e.view := by
  have hsector : wordAt e.bytes 4 = e.sector := wordAt_of_bytes fun k hk => by
    unfold bytes
    rw [if_neg (by omega), if_neg (by omega), if_pos (by omega), Nat.add_sub_cancel_left]
  have hname : cstr (fun j => e.bytes (8 + j)) fileNameMaxLen = cstr e.name fileNameMaxLen :=
    cstrFrom_congr _ _ fun j hj => by
      simp only [fileNameMaxLen] at hj
      unfold bytes
      rw [if_neg (by omega), if_neg (by omega), if_neg (by omega), if_pos (by omega),
        show 8 + (0 + j) - 8 = 0 + j by omega]
  have hinUse : (e.bytes 0 != 0) = e.inUse := by
    cases hu : e.inUse <;> simp [bytes, hu]
  simp only [view, ofBytes, hinUse, hsector, hname]

/-! ## The directory on the disk -/

/-- Entry `i` of the directory that is on the disk. -/
def entryAt (d : Disk) (i : Nat) : DirectoryEntry :=
  DirectoryEntry.ofBytes fun k => (header d 1).byte d (entrySize * i + k)

/-- The two directories show the same. -/
def Directory.Shows (dir : Directory) (d : Disk) : Prop :=
  dir.tableSize = numDirEntries ∧ ∀ i, i < numDirEntries → (dir.table i).view = (entryAt d i).view

theorem entry_lt {i k size : Nat} (hi : i < size) (hk : k < entrySize) :
    entrySize * i + k < size * entrySize := by
  simp only [entrySize] at *
  omega

/-- **`FetchFrom`** a file that is long enough. -/
theorem Directory.fetchFrom_views {file : OpenFile} {len : Nat} (dir : Directory)
    (h : file.hdr.Sound len) (hlen : dir.tableSize * entrySize ≤ len) (buf : Nat → UInt8)
    (d : Disk) : ∃ dir', dir.fetchFrom file buf d = .ok dir' d ∧ dir'.tableSize = dir.tableSize ∧
      ∀ i, i < dir.tableSize → (dir'.table i).view =
        (DirectoryEntry.ofBytes fun k => file.hdr.byte d (entrySize * i + k)).view := by
  rcases Nat.eq_zero_or_pos dir.tableSize with hzero | hpos
  · refine ⟨dir.setBytes dir.bytes, ?_, rfl, fun i hi => absurd hi (by omega)⟩
    unfold Directory.fetchFrom OpenFile.readAt
    rw [if_pos (.inl (by rw [hzero, Nat.zero_mul]))]
    rfl
  · have hbytes : 0 < dir.tableSize * entrySize := Nat.mul_pos hpos (by decide)
    obtain ⟨into', hread, hin⟩ := readAt_ok h buf dir.bytes hbytes
      (show 0 < len by omega) d
    refine ⟨dir.setBytes into', ?_, rfl, fun i hi => ?_⟩
    · unfold Directory.fetchFrom
      rw [bind_eq_of_ok hread]
      rfl
    · refine DirectoryEntry.view_congr fun k hk => ?_
      have hlt := entry_lt hi hk
      rw [hin _ (by omega), Nat.zero_add]

/-- **`WriteBack`** to a file that is long enough. -/
theorem Directory.writeBack_views {file : OpenFile} {len : Nat} (dir : Directory)
    (h : file.hdr.Sound len) (hlen : dir.tableSize * entrySize ≤ len) (buf buf' buf'' : Nat → UInt8)
    (d : Disk) :
    ∃ d', dir.writeBack file buf buf' buf'' d = .ok () d'
      ∧ (∀ i, i < dir.tableSize →
          (DirectoryEntry.ofBytes fun k => file.hdr.byte d' (entrySize * i + k)).view
            = (dir.table i).view)
      ∧ ∀ n, (∀ i, i * sectorSize < len → n ≠ file.hdr.sec i) → d' n = d n := by
  rcases Nat.eq_zero_or_pos dir.tableSize with hzero | hpos
  · refine ⟨d, ?_, fun i hi => absurd hi (by omega), fun n _ => rfl⟩
    unfold Directory.writeBack OpenFile.writeAt
    rw [if_pos (.inl (by rw [hzero, Nat.zero_mul]))]
    rfl
  · have hbytes : 0 < dir.tableSize * entrySize := Nat.mul_pos hpos (by decide)
    obtain ⟨d', hwrite, hin, _, hout⟩ := writeAt_bytes h buf buf' buf'' dir.bytes hbytes
      (show 0 < len by omega) d
    refine ⟨d', ?_, fun i hi => ?_, hout⟩
    · unfold Directory.writeBack
      rw [bind_eq_of_ok hwrite]
      rfl
    · rw [← DirectoryEntry.view_bytes (dir.table i)]
      refine DirectoryEntry.view_congr fun k hk => ?_
      have hdiv : (entrySize * i + k) / entrySize = i := by
        rw [Nat.mul_add_div (by decide), Nat.div_eq_of_lt hk, Nat.add_zero]
      have hmod : (entrySize * i + k) % entrySize = k := by
        rw [Nat.mul_add_mod, Nat.mod_eq_of_lt hk]
      have hlt := entry_lt hi hk
      have hbyte := hin (entrySize * i + k) (by omega)
      rw [Nat.zero_add] at hbyte
      rw [hbyte, Directory.bytes, hdiv, hmod]

theorem fetchDirectory_ok {file : OpenFile} {d : Disk} (dir : Directory)
    (h : file.hdr.Sound directoryFileSize) (hfile : file.hdr = header d 1)
    (hsize : dir.tableSize = numDirEntries) (buf : Nat → UInt8) :
    ∃ dir', dir.fetchFrom file buf d = .ok dir' d ∧ dir'.Shows d := by
  obtain ⟨dir', hrun, hsize', hviews⟩ := dir.fetchFrom_views h (by rw [hsize]; decide) buf d
  refine ⟨dir', hrun, hsize'.trans hsize, fun i hi => ?_⟩
  rw [hviews i (hsize ▸ hi), hfile]
  rfl

theorem writeDirectory_ok {file : OpenFile} {dir : Directory} (h : file.hdr.Sound directoryFileSize)
    (hsize : dir.tableSize = numDirEntries) (buf buf' buf'' : Nat → UInt8) (d : Disk) :
    ∃ d', dir.writeBack file buf buf' buf'' d = .ok () d'
      ∧ (∀ i, i < numDirEntries →
          (DirectoryEntry.ofBytes fun k => file.hdr.byte d' (entrySize * i + k)).view
            = (dir.table i).view)
      ∧ ∀ n, (∀ i, i * sectorSize < directoryFileSize → n ≠ file.hdr.sec i) → d' n = d n := by
  have hviews := dir.writeBack_views h (by rw [hsize]; decide) buf buf' buf'' d
  rwa [hsize] at hviews

/-! ## Looking up, adding and removing -/

/-- The name under which a file is entered. -/
def key (name : List UInt8) : List UInt8 := cstr (charAt name) fileNameMaxLen

theorem findIndexFrom_cases (dir : Directory) (name : List UInt8) : ∀ (k i : Nat),
    (dir.findIndexFrom name k i = -1
      ∧ ∀ j, j < k → (dir.table (i + j)).inUse = true →
          cstr (dir.table (i + j)).name fileNameMaxLen ≠ key name)
    ∨ ∃ j, j < k ∧ dir.findIndexFrom name k i = ((i + j : Nat) : Int)
        ∧ (dir.table (i + j)).inUse = true
        ∧ cstr (dir.table (i + j)).name fileNameMaxLen = key name := by
  intro k
  induction k with
  | zero => intro _; exact .inl ⟨rfl, fun j hj => absurd hj (by omega)⟩
  | succ k ih =>
      intro i
      rw [Directory.findIndexFrom]
      by_cases hi : (dir.table i).inUse = true ∧ cstr (dir.table i).name fileNameMaxLen = key name
      · refine .inr ⟨0, by omega, ?_, hi⟩
        rw [if_pos]
        · rfl
        · rw [hi.1, Bool.true_and, decide_eq_true_eq]
          exact (strncmp_eq_zero _).mpr hi.2
      · rw [if_neg]
        · have hshift : ∀ j, i + (j + 1) = i + 1 + j := fun j => by omega
          rcases ih (i + 1) with ⟨he, hno⟩ | ⟨j, hj, he, hin⟩
          · refine .inl ⟨he, fun j hj hu hn => ?_⟩
            cases j with
            | zero => exact hi ⟨hu, hn⟩
            | succ j =>
                rw [hshift j] at hu hn
                exact hno j (by omega) hu hn
          · refine .inr ⟨j + 1, by omega, ?_⟩
            rw [hshift j]
            exact ⟨he, hin⟩
        · rw [Bool.and_eq_true, decide_eq_true_eq]
          exact fun h => hi ⟨h.1, (strncmp_eq_zero _).mp h.2⟩

/-- **`FindIndex`** finds the entry of that name, if there is one. -/
theorem findIndex_cases (dir : Directory) (name : List UInt8) :
    (dir.findIndex name = -1 ∧ ∀ i, i < dir.tableSize → (dir.table i).inUse = true →
      cstr (dir.table i).name fileNameMaxLen ≠ key name)
    ∨ ∃ i, i < dir.tableSize ∧ dir.findIndex name = (i : Int) ∧ (dir.table i).inUse = true
        ∧ cstr (dir.table i).name fileNameMaxLen = key name := by
  have h := findIndexFrom_cases dir name dir.tableSize 0
  simp only [Nat.zero_add] at h
  exact h

theorem addFrom_cases (dir : Directory) (name : List UInt8) (sector : Int) : ∀ (k i : Nat),
    (dir.addFrom name sector k i = (false, dir) ∧ ∀ j, j < k → (dir.table (i + j)).inUse = true)
    ∨ ∃ j, j < k ∧ (dir.table (i + j)).inUse = false
        ∧ dir.addFrom name sector k i = (true, dir.enter (i + j) name sector) := by
  intro k
  induction k with
  | zero => intro _; exact .inl ⟨rfl, fun j hj => absurd hj (by omega)⟩
  | succ k ih =>
      intro i
      rw [Directory.addFrom]
      by_cases hi : (dir.table i).inUse = true
      · rw [if_neg (by rw [hi]; exact Bool.noConfusion)]
        rcases ih (i + 1) with ⟨he, hall⟩ | ⟨j, hj, hu, he⟩
        · refine .inl ⟨he, fun j hj => ?_⟩
          cases j with
          | zero => exact hi
          | succ j =>
              rw [show i + (j + 1) = i + 1 + j by omega]
              exact hall j (by omega)
        · refine .inr ⟨j + 1, by omega, ?_⟩
          rw [show i + (j + 1) = i + 1 + j by omega]
          exact ⟨hu, he⟩
      · have hfree : (dir.table i).inUse = false := by simpa using hi
        exact .inr ⟨0, by omega, hfree, by rw [hfree]; rfl⟩

/-- **`Add`** takes an entry that is not in use, if there is one. -/
theorem add_cases (dir : Directory) (name : List UInt8) (sector : Int) :
    dir.add name sector = (false, dir)
    ∨ ∃ i, i < dir.tableSize ∧ (dir.table i).inUse = false
        ∧ dir.add name sector = (true, dir.enter i name sector) := by
  unfold Directory.add
  split
  · exact .inl rfl
  · have h := addFrom_cases dir name sector dir.tableSize 0
    simp only [Nat.zero_add] at h
    exact h.imp_left And.left

theorem enter_view (dir : Directory) (i : Nat) (name : List UInt8) (sector : Int) (j : Nat) :
    ((dir.enter i name sector).table j).view =
      if j = i then (true, BitVec.ofInt 32 sector, key name) else (dir.table j).view := by
  unfold Directory.enter
  by_cases hj : j = i
  · subst hj
    rw [if_pos rfl]
    simp only [DirectoryEntry.view, upd_self, cstr_strncpy, key]
  · rw [if_neg hj]
    simp only [upd_ne _ _ hj]

end Nachos.Filesys
