import Mathlib.Data.List.Perm.Subperm
import Nachos.Proof.Allocation

/-!
# The sectors of one file

`Allocate` compares the sectors that a file needs with those that are free, and then fills the table
of the header one after another. It does not compare them with the length of the table. For a file
that fits, the table gets the first free sectors, which are marked, and `Deallocate` gives the same
map back. A larger file for which there is room on the disk runs over the end of the table.
-/

namespace Nachos

/-! ## Marking and clearing -/

namespace Bitmap

/-- A bitmap is its bits. -/
theorem eq_of_test {b c : Bitmap} (hbits : b.numBits = c.numBits) (h : ∀ i, b.test i = c.test i) :
    b = c := by
  have hlen : b.map.length = c.map.length := by rw [b.words, c.words, hbits]
  have hmap : b.map = c.map := by
    refine List.ext_getElem hlen fun k hk hk' => ?_
    apply BitVec.eq_of_getLsbD_eq
    intro j hj
    change j < bitsInWord at hj
    have hdiv : (bitsInWord * k + j) / bitsInWord = k := by
      rw [Nat.mul_add_div (by decide), Nat.div_eq_of_lt hj, Nat.add_zero]
    have hmod : (bitsInWord * k + j) % bitsInWord = j := by
      rw [Nat.mul_add_mod, Nat.mod_eq_of_lt hj]
    have hbit := h (bitsInWord * k + j)
    rw [test_eq, test_eq, hdiv, hmod] at hbit
    simpa [List.getD_eq_getElem?_getD, hk, hk'] using hbit
  cases b
  cases c
  cases hbits
  cases hmap
  rfl

/-- **Clearing what was clear before it was marked** gives the map back. -/
theorem clear_mark {b : Bitmap} {is : List Nat} (h : ∀ i ∈ is, i ∈ b.clearBits) :
    is.foldl clear (is.foldl mark b) = b := by
  have hlt : ∀ i ∈ is, i < b.numBits := fun i hi => (mem_clearBits.mp (h i hi)).1
  obtain ⟨hbits, hmarked⟩ := foldl_mark is hlt
  obtain ⟨hbits', hcleared⟩ := foldl_clear is (b := is.foldl mark b) (by rwa [hbits])
  refine eq_of_test (hbits'.trans hbits) fun j => ?_
  rw [hcleared, hmarked]
  by_cases hj : j ∈ is
  · rw [if_pos hj, (mem_clearBits.mp (h j hj)).2]
  · rw [if_neg hj, if_neg hj]

end Bitmap

namespace Filesys

open Base (upd upd_self upd_ne bind_eq_of_ok bind_eq_of_error)

namespace FileHeader

/-! ## The loops -/

/-- The loop of `Allocate` takes the next free sectors, as long as the table has room for them. -/
theorem allocateFrom_given (d : Disk) : ∀ (k i : Nat) (hdr : FileHeader) (b : Bitmap),
    k ≤ b.clearBits.length → i + k ≤ numDirect →
    ∃ hdr', allocateFrom k i hdr b d = .ok (hdr', (b.clearBits.take k).foldl Bitmap.mark b) d ∧
      hdr'.numSectors = hdr.numSectors ∧
      ∀ j, hdr'.dataSectors j = if i ≤ j ∧ j < i + k then
        BitVec.ofInt 32 ((b.clearBits.getD (j - i) 0 : Nat) : Int) else hdr.dataSectors j := by
  intro k
  induction k with
  | zero =>
      intro i hdr b _ _
      refine ⟨hdr, rfl, rfl, fun j => ?_⟩
      rw [if_neg (by omega)]
  | succ k ih =>
      intro i hdr b hk hi
      cases hc : b.clearBits with
      | nil => rw [hc] at hk; exact absurd hk (by simp)
      | cons id rest =>
          have hset : b.findAndSet = ((id : Int), b.mark id) := by rw [Bitmap.findAndSet_eq, hc]
          have hrest : (b.mark id).clearBits = rest := Bitmap.clearBits_mark_head hc
          rw [hc, List.length_cons] at hk
          obtain ⟨hdr', hrun, hcount, hdata⟩ := ih (i + 1)
            { hdr with dataSectors := upd hdr.dataSectors i (BitVec.ofInt 32 (id : Int)) }
            (b.mark id) (by rw [hrest]; omega) (by omega)
          rw [hrest] at hrun hdata
          refine ⟨hdr', ?_, hcount, fun j => ?_⟩
          · unfold allocateFrom
            rw [if_pos (by omega), hset]
            exact hrun
          · rw [hdata j]
            by_cases hji : j = i
            · subst hji
              rw [if_neg (by omega), if_pos (by omega), Nat.sub_self]
              exact upd_self _ _ _
            · by_cases hlt : i + 1 ≤ j ∧ j < i + 1 + k
              · obtain ⟨m, hm⟩ : ∃ m, j - i = m + 1 := ⟨j - i - 1, by omega⟩
                have hm' : j - (i + 1) = m := by omega
                rw [if_pos hlt, if_pos (by omega), hm, hm', List.getD_cons_succ]
              · rw [if_neg hlt, if_neg (by omega)]
                exact upd_ne _ _ hji

/-- Without room in the table it goes beyond the end. -/
theorem allocateFrom_overrun (d : Disk) : ∀ (k i : Nat) (hdr : FileHeader) (b : Bitmap),
    k ≤ b.clearBits.length → i ≤ numDirect → numDirect < i + k →
    allocateFrom k i hdr b d = .error .overrun d := by
  intro k
  induction k with
  | zero => intro i _ _ _ hi hlt; exact absurd hlt (by omega)
  | succ k ih =>
      intro i hdr b hk hi hlt
      unfold allocateFrom
      by_cases hroom : i < numDirect
      · cases hc : b.clearBits with
        | nil => rw [hc] at hk; exact absurd hk (by simp)
        | cons id rest =>
            have hset : b.findAndSet = ((id : Int), b.mark id) := by rw [Bitmap.findAndSet_eq, hc]
            have hrest : (b.mark id).clearBits = rest := Bitmap.clearBits_mark_head hc
            rw [hc, List.length_cons] at hk
            rw [if_pos hroom, hset]
            exact ih (i + 1) _ (b.mark id) (by rw [hrest]; omega) (by omega) (by omega)
      · rw [if_neg hroom]
        rfl

/-- The loop of `Deallocate` clears the sectors that are listed, when they are different and
marked. -/
theorem deallocateFrom_given (hdr : FileHeader) (d : Disk) :
    ∀ (is : List Nat) (i : Nat) (b : Bitmap),
    i + is.length ≤ numDirect → is.Nodup → (∀ n ∈ is, n < b.numBits ∧ b.test n = true) →
    (∀ j, j < is.length → (hdr.dataSectors (i + j)).toInt = (is.getD j 0 : Nat)) →
    deallocateFrom hdr is.length i b d = .ok (is.foldl Bitmap.clear b) d := by
  intro is
  induction is with
  | nil => intro _ _ _ _ _ _; rfl
  | cons n is ih =>
      intro i b hi hnd hmarked hlisted
      obtain ⟨hn, hnd⟩ := List.nodup_cons.mp hnd
      obtain ⟨hlt, htest⟩ := hmarked n List.mem_cons_self
      have hfirst : (hdr.dataSectors i).toInt = (n : Int) := hlisted 0 (by simp)
      have hassert : (decide (0 ≤ (n : Int) ∧ (n : Int) < b.numBits)
          && b.test (n : Int).toNat) = true := by
        rw [Int.toNat_natCast, htest, Bool.and_true]
        exact decide_eq_true (by omega)
      rw [List.length_cons] at hi hlisted ⊢
      unfold deallocateFrom
      rw [if_pos (by omega), hfirst, hassert, Int.toNat_natCast]
      refine ih (i + 1) (b.clear n) (by omega) hnd (fun m hm => ?_) fun j hj => ?_
      · obtain ⟨hmlt, hmtest⟩ := hmarked m (List.mem_cons_of_mem n hm)
        refine ⟨hmlt, ?_⟩
        rw [Bitmap.test_clear hlt, hmtest, Bool.and_true, Bool.not_eq_true',
          decide_eq_false_iff_not]
        exact fun he => hn (he ▸ hm)
      · have := hlisted (j + 1) (by omega)
        rwa [List.getD_cons_succ, ← Nat.add_assoc, Nat.add_right_comm] at this

/-! ## The request -/

/-- What a successful `Allocate` of `n` sectors has done to the header and the map. -/
structure Gives (n : Int) (hdr hdr' : FileHeader) (b b' : Bitmap) : Prop where
  fits : n ≤ numDirect
  enough : n ≤ b.numClear
  /-- The header fits into a sector. -/
  sector : 2 * 4 + 4 * hdr'.numSectors.toInt ≤ sectorSize
  count : hdr'.numSectors.toInt = n
  others : ∀ j : Nat, n ≤ j → hdr'.dataSectors j = hdr.dataSectors j
  distinct : ∀ i j : Nat, (i : Int) < n → (j : Int) < n →
    hdr'.dataSectors i = hdr'.dataSectors j → i = j
  clear : ∀ j : Nat, (j : Int) < n → 0 ≤ (hdr'.dataSectors j).toInt ∧
    (hdr'.dataSectors j).toInt < b.numBits ∧ b.test (hdr'.dataSectors j).toInt.toNat = false
  marked : ∀ m : Nat, b'.test m = true ↔
    b.test m = true ∨ ∃ j : Nat, (j : Int) < n ∧ (hdr'.dataSectors j).toInt = m
  restores : ∀ d, hdr'.deallocate b' d = .ok b d

/-- **`Allocate` is right** for a map and a size: whatever header it fills, it gives all that the
file needs, or nothing. -/
def AllocatesRight (b : Bitmap) (fileSize : Int) : Prop :=
  ∀ (hdr : FileHeader) (d : Disk), ∃ ok hdr' b', hdr.allocate b fileSize d = .ok (ok, hdr', b') d ∧
    (ok = false → b' = b) ∧
    (ok = true → Gives (divRoundUpInt fileSize Filesys.sectorSize) hdr hdr' b b')

variable {b : Bitmap} {size : Nat}

/-- The header with its two counters set. -/
def sized (hdr : FileHeader) (size : Nat) : FileHeader :=
  { hdr with
    numBytes := BitVec.ofInt 32 size
    numSectors := BitVec.ofInt 32 (divRoundUp size Filesys.sectorSize : Nat) }

theorem divRoundUp_small (hsize : size < 2147483648) :
    divRoundUp size sectorSize < 2147483648 := by
  unfold divRoundUp sectorSize
  split <;> omega

theorem allocate_full (hsize : size < 2147483648) (hdr : FileHeader) (d : Disk)
    (hfull : b.clearBits.length < divRoundUp size sectorSize) :
    hdr.allocate b (size : Int) d = .ok (false, hdr.sized size, b) d := by
  unfold allocate
  dsimp only
  rw [divRoundUpInt_natCast, toInt_ofInt_small (divRoundUp_small hsize), Bitmap.numClear_eq,
    if_pos (by omega)]
  rfl

theorem allocate_run (hsize : size < 2147483648) (hdr : FileHeader) (d : Disk)
    (henough : divRoundUp size sectorSize ≤ b.clearBits.length) :
    hdr.allocate b (size : Int) d = (do
      let r ← allocateFrom (divRoundUp size sectorSize) 0 (hdr.sized size) b
      return (true, r)) d := by
  unfold allocate
  dsimp only
  rw [divRoundUpInt_natCast, toInt_ofInt_small (divRoundUp_small hsize), Bitmap.numClear_eq,
    if_neg (by omega), Int.toNat_natCast]
  rfl

/-- Too few sectors are free: nothing is given. -/
theorem allocatesRight_of_full (hsize : size < 2147483648)
    (hfull : b.clearBits.length < divRoundUp size sectorSize) : AllocatesRight b (size : Int) :=
  fun hdr d => ⟨false, hdr.sized size, b, allocate_full hsize hdr d hfull, fun _ => rfl,
    fun h => absurd h (by simp)⟩

/-- **A table of free sectors**, all different, that have been marked. -/
theorem gives_of_table {is : List Nat} {hdr hdr' : FileHeader} (hnd : is.Nodup)
    (hfree : ∀ m ∈ is, m ∈ b.clearBits) (hfits : is.length ≤ numDirect)
    (hcount : hdr'.numSectors.toInt = (is.length : Int))
    (hlisted : ∀ j, j < is.length → (hdr'.dataSectors j).toInt = (is.getD j 0 : Nat))
    (hothers : ∀ j, is.length ≤ j → hdr'.dataSectors j = hdr.dataSectors j) :
    Gives is.length hdr hdr' b (is.foldl Bitmap.mark b) := by
  have hlt : ∀ m ∈ is, m < b.numBits := fun m hm => (Bitmap.mem_clearBits.mp (hfree m hm)).1
  have hget : ∀ j (hj : j < is.length), (hdr'.dataSectors j).toInt =
    ((is.get ⟨j, hj⟩ : Nat) : Int) := by
    intro j hj
    rw [hlisted j hj, List.getD_eq_getElem?_getD, List.getElem?_eq_getElem hj]
    rfl
  obtain ⟨hbits, hmarked⟩ := Bitmap.foldl_mark is hlt
  refine ⟨by omega, ?_, ?_, hcount, fun j hj => hothers j (by omega), ?_, ?_, ?_, ?_⟩
  · rw [Bitmap.numClear_eq]
    exact Int.ofNat_le.mpr (hnd.subperm hfree).length_le
  · have : numDirect = 30 := rfl
    have : sectorSize = 128 := rfl
    rw [hcount]
    omega
  · intro i j hi hj he
    have hi' : i < is.length := by omega
    have hj' : j < is.length := by omega
    have hij : is.get ⟨i, hi'⟩ = is.get ⟨j, hj'⟩ := by
      rw [← Int.ofNat_inj, ← hget i hi', ← hget j hj', he]
    exact (hnd.getElem_inj_iff).mp hij
  · intro j hj
    have hj' : j < is.length := by omega
    have hin := List.get_mem is ⟨j, hj'⟩
    have hbit := hlt _ hin
    rw [hget j hj', Int.toNat_natCast]
    exact ⟨by omega, by omega, (Bitmap.mem_clearBits.mp (hfree _ hin)).2⟩
  · intro m
    have hmem : (is.foldl Bitmap.mark b).test m = true ↔ b.test m = true ∨ m ∈ is := by
      rw [hmarked m]
      by_cases hm : m ∈ is <;> simp [hm]
    refine hmem.trans <| or_congr Iff.rfl ⟨fun hm => ?_, fun ⟨j, hj, hto⟩ => ?_⟩
    · obtain ⟨⟨j, hj⟩, rfl⟩ := List.get_of_mem hm
      exact ⟨j, by omega, hget j hj⟩
    · have hj' : j < is.length := by omega
      have hm : is.get ⟨j, hj'⟩ = m := by
        rw [← Int.ofNat_inj, ← hget j hj', hto]
      exact hm ▸ List.get_mem is ⟨j, hj'⟩
  · intro d
    have hrun := deallocateFrom_given hdr' d is 0 (is.foldl Bitmap.mark b) (by omega) hnd
      (fun m hm => ⟨by rw [hbits]; exact hlt m hm, by rw [hmarked m, if_pos hm]⟩)
      (fun j hj => by rw [Nat.zero_add, hlisted j hj])
    unfold deallocate
    rw [hcount, Int.toNat_natCast, hrun, Bitmap.clear_mark hfree]

/-- The sectors that are needed are free and fit into the table. -/
theorem allocatesRight_of_fits (hbits : b.numBits ≤ 2147483647) (hsize : size < 2147483648)
    (henough : divRoundUp size sectorSize ≤ b.clearBits.length)
    (hfits : divRoundUp size sectorSize ≤ numDirect) : AllocatesRight b (size : Int) := by
  intro hdr d
  obtain ⟨n, hn⟩ : ∃ n, divRoundUp size sectorSize = n := ⟨_, rfl⟩
  have hallocate := allocate_run hsize hdr d henough
  rw [hn] at henough hfits hallocate
  obtain ⟨hdr', hrun, hcount, hdata⟩ :=
    allocateFrom_given d n 0 (hdr.sized size) b henough (by omega)
  have hlen : (b.clearBits.take n).length = n := by rw [List.length_take]; omega
  have hnum : hdr'.numSectors.toInt = ((b.clearBits.take n).length : Int) := by
    rw [hcount, hlen, ← hn]
    exact toInt_ofInt_small (divRoundUp_small hsize)
  have hlisted : ∀ j, j < (b.clearBits.take n).length →
      (hdr'.dataSectors j).toInt = ((b.clearBits.take n).getD j 0 : Nat) := by
    intro j hj
    have hj' : j < b.clearBits.length := by omega
    have hget : b.clearBits.getD j 0 = b.clearBits.get ⟨j, hj'⟩ := by
      rw [List.getD_eq_getElem?_getD, List.getElem?_eq_getElem hj']
      rfl
    have hlt := (Bitmap.mem_clearBits.mp (List.get_mem b.clearBits ⟨j, hj'⟩)).1
    rw [hdata j, if_pos (by omega), Nat.sub_zero,
      List.getD_eq_getElem?_getD (l := b.clearBits.take n),
      List.getElem?_take_of_lt (by omega), ← List.getD_eq_getElem?_getD]
    exact toInt_ofInt_small (by rw [hget]; omega)
  have hgives : Gives n hdr hdr' b ((b.clearBits.take n).foldl Bitmap.mark b) := by
    have hothers : ∀ j, (b.clearBits.take n).length ≤ j →
        hdr'.dataSectors j = hdr.dataSectors j := by
      intro j hj
      rw [hdata j, if_neg (by omega)]
      rfl
    have := gives_of_table (b.clearBits_nodup.sublist (List.take_sublist n _))
      (fun m hm => List.mem_of_mem_take hm) (by omega) hnum hlisted hothers
    rwa [hlen] at this
  refine ⟨true, hdr', (b.clearBits.take n).foldl Bitmap.mark b, ?_, fun h => absurd h (by simp),
    fun _ => ?_⟩
  · rw [hallocate, bind_eq_of_ok hrun]
    rfl
  · rw [divRoundUpInt_natCast, hn]
    exact hgives

/-- **Too long for the table**: there is room on the disk, and the loop runs over the end. -/
theorem not_allocatesRight (hsize : size < 2147483648)
    (henough : divRoundUp size sectorSize ≤ b.clearBits.length)
    (hlong : numDirect < divRoundUp size sectorSize) : ¬ AllocatesRight b (size : Int) := by
  intro h
  obtain ⟨ok, hdr', b', hrun, _⟩ := h ⟨0#32, 0#32, fun _ => 0#32⟩ (fun _ _ => 0)
  rw [allocate_run hsize _ _ henough,
    bind_eq_of_error (allocateFrom_overrun _ _ 0 _ b henough (by omega) (by omega))] at hrun
  exact absurd hrun (by simp)

/-- **`Allocate` is right exactly when the file fits into the table or does not fit on the
disk.** -/
theorem allocatesRight_iff {b : Bitmap} {fileSize : Int} (hbits : (b.numBits : Int) ≤ intMax)
    (h0 : 0 ≤ fileSize) (hmax : fileSize ≤ intMax) :
    AllocatesRight b fileSize ↔
      divRoundUpInt fileSize Filesys.sectorSize ≤ numDirect ∨
      (b.numClear : Int) < divRoundUpInt fileSize Filesys.sectorSize := by
  obtain ⟨size, rfl⟩ := Int.eq_ofNat_of_zero_le h0
  unfold intMax at hbits hmax
  have hsize : size < 2147483648 := by omega
  rw [divRoundUpInt_natCast, Bitmap.numClear_eq]
  constructor
  · intro h
    by_contra hnot
    exact not_allocatesRight hsize (by omega) (by omega) h
  · intro h
    by_cases hfull : b.clearBits.length < divRoundUp size sectorSize
    · exact allocatesRight_of_full hsize hfull
    · exact allocatesRight_of_fits (by omega) hsize (by omega) (by omega)

/-- The largest file there can be, on a disk of which nothing is used. -/
theorem allocatesRight_iff_largest :
    (((Bitmap.new Filesys.numSectors numSectors_pos).numBits : Int) ≤ intMax ∧ (0 : Int) ≤ 3840 ∧
      (3840 : Int) ≤ intMax) ∧
    (AllocatesRight (Bitmap.new Filesys.numSectors numSectors_pos) 3840 ↔
      divRoundUpInt 3840 Filesys.sectorSize ≤ numDirect ∨
      ((Bitmap.new Filesys.numSectors numSectors_pos).numClear : Int)
        < divRoundUpInt 3840 Filesys.sectorSize) := by
  have hbits : ((Bitmap.new Filesys.numSectors numSectors_pos).numBits : Int) ≤ intMax := by
    rw [Bitmap.numBits_new]
    decide
  exact ⟨⟨hbits, by decide, by decide⟩, allocatesRight_iff hbits (by decide) (by decide)⟩

/-- A file of 4000 bytes on the same disk needs 32 sectors. -/
theorem not_allocatesRight_4000 :
    ¬ AllocatesRight (Bitmap.new Filesys.numSectors numSectors_pos) 4000 := by
  have hclear : (Bitmap.new Filesys.numSectors numSectors_pos).clearBits =
    List.range Filesys.numSectors := by
    unfold Bitmap.clearBits
    rw [Bitmap.numBits_new]
    exact List.filter_eq_self.mpr fun i _ => by rw [Bitmap.test_new]; rfl
  show ¬ AllocatesRight _ ((4000 : Nat) : Int)
  refine not_allocatesRight (by decide) ?_ (by decide)
  rw [hclear, List.length_range]
  decide

end FileHeader

end Filesys

end Nachos
