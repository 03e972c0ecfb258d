import Nachos.Proof.FlatMemory
import Nachos.Proof.Instructions
import Nachos.Proof.Translation

/-!
# Words at any address

`SWR` and `SWL` store the two parts of a word that straddles an aligned one, `LWR` and `LWL` load
them. Each reads the aligned word around its address and puts together the bytes of two words, by a
mask and a shift that depend on the address modulo four. What a pair does is stated for single bytes
here: byte `i` of the register belongs at address `A + i`, the right instruction takes care of the
bytes up to the end of an aligned word and the left one of those from its start.

The second load merges into a register that the first has not reached yet. It looks for
the value where it is, in the register or on its way, so that an interrupt between the two
makes no difference.
-/

namespace Nachos

open Base (upd byteOf bind_eq_of_ok)

/-! ## Masks and shifts -/

namespace Instruction

/-- Bytes are the same when their bits are. -/
theorem byteOf_ext {x y : BitVec 32} {i j : Nat}
    (h : ∀ t, t < 8 → x.getLsbD (8 * i + t) = y.getLsbD (8 * j + t)) : byteOf x i = byteOf y j := by
  unfold byteOf
  congr 1
  apply BitVec.eq_of_getLsbD_eq
  intro t ht
  rw [BitVec.getLsbD_extractLsb', BitVec.getLsbD_extractLsb', h t ht]

/-- The `k` top bytes of `x` in place of the `k` bottom bytes of `y`. -/
theorem byteOf_top {x y hi lo : BitVec 32} {k j : Nat} (hk : k < 4) (hj : j < 4)
    (hhi : ∀ n, n < 32 → hi.getLsbD n = decide (8 * k ≤ n))
    (hlo : ∀ n, n < 32 → lo.getLsbD n = decide (n < 8 * k)) :
    byteOf ((y &&& hi) ||| (x.sshiftRight (32 - 8 * k) &&& lo)) j =
      if j < k then byteOf x (j + 4 - k) else byteOf y j := by
  split
  · rename_i hlt
    apply byteOf_ext
    intro t ht
    have hn : 8 * j + t < 32 := by omega
    have hbit : 8 * (j + 4 - k) + t = 32 - 8 * k + (8 * j + t) := by omega
    have hin : 32 - 8 * k + (8 * j + t) < 32 := by omega
    rw [BitVec.getLsbD_or, BitVec.getLsbD_and, BitVec.getLsbD_and, BitVec.getLsbD_sshiftRight,
      hhi _ hn, hlo _ hn, decide_eq_false (by omega),
      decide_eq_true (show 8 * j + t < 8 * k by omega), hbit, if_pos hin]
    simp [hn]
  · apply byteOf_ext
    intro t ht
    have hn : 8 * j + t < 32 := by omega
    rw [BitVec.getLsbD_or, BitVec.getLsbD_and, BitVec.getLsbD_and, hhi _ hn, hlo _ hn,
      decide_eq_true (by omega), decide_eq_false (by omega)]
    simp

/-- `x` from byte `k` on, over `y`. -/
theorem byteOf_bottom {x y lo : BitVec 32} {k j : Nat} (hj : j < 4)
    (hlo : ∀ n, n < 32 → lo.getLsbD n = decide (n < 8 * k)) :
    byteOf ((y &&& lo) ||| (x <<< (8 * k))) j = if j < k then byteOf y j else byteOf x (j - k) := by
  split
  · apply byteOf_ext
    intro t ht
    have hn : 8 * j + t < 32 := by omega
    rw [BitVec.getLsbD_or, BitVec.getLsbD_and, BitVec.getLsbD_shiftLeft, hlo _ hn,
      decide_eq_true (show 8 * j + t < 8 * k by omega)]
    simp
  · apply byteOf_ext
    intro t ht
    have hn : 8 * j + t < 32 := by omega
    have hbit : 8 * (j - k) + t = 8 * j + t - 8 * k := by omega
    rw [BitVec.getLsbD_or, BitVec.getLsbD_and, BitVec.getLsbD_shiftLeft, hlo _ hn,
      decide_eq_false (show ¬ 8 * j + t < 8 * k by omega), hbit]
    simp [hn]

section Switches

variable {b j : Nat} (hb : b < 4) (hj : j < 4) (x y : BitVec 32)
include hb hj

theorem storeLeft_byte : byteOf (storeLeft (3#32 - BitVec.ofNat 32 b) x y) j =
    if j < b + 1 then byteOf x (j + 4 - (b + 1)) else byteOf y j := by
  have hcase : b = 0 ∨ b = 1 ∨ b = 2 ∨ b = 3 := by omega
  rcases hcase with rfl | rfl | rfl | rfl
  · exact byteOf_top (k := 1) (by decide) hj (by decide) (by decide)
  · exact byteOf_top (k := 2) (by decide) hj (by decide) (by decide)
  · exact byteOf_top (k := 3) (by decide) hj (by decide) (by decide)
  · rw [if_pos (by omega)]
    rfl

theorem mergeRight_byte : byteOf (mergeRight (3#32 - BitVec.ofNat 32 b) y x) j =
    if j < 4 - b then byteOf x (j + 4 - (4 - b)) else byteOf y j := by
  have hcase : b = 0 ∨ b = 1 ∨ b = 2 ∨ b = 3 := by omega
  rcases hcase with rfl | rfl | rfl | rfl
  · rw [if_pos (by omega)]
    rfl
  · exact byteOf_top (k := 3) (by decide) hj (by decide) (by decide)
  · exact byteOf_top (k := 2) (by decide) hj (by decide) (by decide)
  · exact byteOf_top (k := 1) (by decide) hj (by decide) (by decide)

theorem storeRight_byte : byteOf (storeRight (3#32 - BitVec.ofNat 32 b) x y) j =
    if j < b then byteOf y j else byteOf x (j - b) := by
  have hcase : b = 0 ∨ b = 1 ∨ b = 2 ∨ b = 3 := by omega
  rcases hcase with rfl | rfl | rfl | rfl
  · rfl
  · exact byteOf_bottom (k := 1) hj (by decide)
  · exact byteOf_bottom (k := 2) hj (by decide)
  · exact byteOf_bottom (k := 3) hj (by decide)

theorem mergeLeft_byte : byteOf (mergeLeft (3#32 - BitVec.ofNat 32 b) y x) j =
    if j < 3 - b then byteOf y j else byteOf x (j - (3 - b)) := by
  have hcase : b = 0 ∨ b = 1 ∨ b = 2 ∨ b = 3 := by omega
  rcases hcase with rfl | rfl | rfl | rfl
  · exact byteOf_bottom (k := 3) hj (by decide)
  · exact byteOf_bottom (k := 2) hj (by decide)
  · exact byteOf_bottom (k := 1) hj (by decide)
  · rfl

end Switches

end Instruction

/-- The two instructions of a pair. -/
inductive Half where
  | right
  | left
  deriving DecidableEq, Repr

namespace Half

open Instruction

/-- The byte of the word whose address the instruction is given. -/
def offset : Half → Nat
  | right => 0
  | left => 3

theorem offset_lt (h : Half) : h.offset < 4 := by
  cases h <;> decide

/-- The store. -/
def storeOp : Half → OpCode
  | right => .swr
  | left => .swl

/-- The load. -/
def loadOp : Half → OpCode
  | right => .lwr
  | left => .lwl

/-- What the store makes of the word in memory. -/
def storeMerge : Half → BitVec 32 → BitVec 32 → BitVec 32 → BitVec 32
  | right => storeRight
  | left => storeLeft

/-- What the load makes of the register. -/
def loadMerge : Half → BitVec 32 → BitVec 32 → BitVec 32 → BitVec 32
  | right => mergeRight
  | left => mergeLeft

/-- The address that the instruction is given, for a word at `A`. -/
def address (h : Half) (A : BitVec 32) : BitVec 32 := A + BitVec.ofNat 32 h.offset

/-- How far that is into an aligned word. -/
def lane (h : Half) (A : BitVec 32) : Nat := (h.address A).toNat % 4

/-- Byte `i` of the word at `A` is byte `j` of the aligned word that the instruction accesses. -/
def Meets (h : Half) (A : BitVec 32) (i j : Nat) : Prop := i + h.lane A = j + h.offset

/-- Byte `i` is one of those that the instruction takes care of. -/
def Covers (h : Half) (A : BitVec 32) (i : Nat) : Prop := ∃ j, j < 4 ∧ h.Meets A i j

theorem lane_lt (h : Half) (A : BitVec 32) : h.lane A < 4 := Nat.mod_lt _ (by decide)

variable {A : BitVec 32} {i j : Nat} (x y : BitVec 32)

theorem storeMerge_byte (h : Half) (hi : i < 4) (hj : j < 4) (hij : h.Meets A i j) :
    byteOf (h.storeMerge (3#32 - BitVec.ofNat 32 (h.lane A)) x y) j = byteOf x i := by
  have hb := h.lane_lt A
  unfold Meets at hij
  cases h with
  | right =>
      have hi' : j - lane right A = i := by simp only [offset] at hij; omega
      refine (storeRight_byte hb hj x y).trans ?_
      rw [if_neg (by simp only [offset] at hij; omega), hi']
  | left =>
      have hi' : j + 4 - (lane left A + 1) = i := by simp only [offset] at hij; omega
      refine (storeLeft_byte hb hj x y).trans ?_
      rw [if_pos (by simp only [offset] at hij; omega), hi']

theorem storeMerge_rest (h : Half) (hj : j < 4) (hno : ∀ i, i < 4 → ¬ h.Meets A i j) :
    byteOf (h.storeMerge (3#32 - BitVec.ofNat 32 (h.lane A)) x y) j = byteOf y j := by
  have hb := h.lane_lt A
  unfold Meets at hno
  cases h with
  | right =>
      refine (storeRight_byte hb hj x y).trans (if_pos ?_)
      have hno' := hno (j - lane right A)
      simp only [offset] at hno'
      omega
  | left =>
      refine (storeLeft_byte hb hj x y).trans (if_neg ?_)
      have hno' := hno (j + 3 - lane left A)
      simp only [offset] at hno'
      omega

theorem loadMerge_byte (h : Half) (hi : i < 4) (hj : j < 4) (hij : h.Meets A i j) :
    byteOf (h.loadMerge (3#32 - BitVec.ofNat 32 (h.lane A)) y x) i = byteOf x j := by
  have hb := h.lane_lt A
  unfold Meets at hij
  cases h with
  | right =>
      have hj' : i + 4 - (4 - lane right A) = j := by simp only [offset] at hij; omega
      refine (mergeRight_byte hb hi x y).trans ?_
      rw [if_pos (by simp only [offset] at hij; omega), hj']
  | left =>
      have hj' : i - (3 - lane left A) = j := by simp only [offset] at hij; omega
      refine (mergeLeft_byte hb hi x y).trans ?_
      rw [if_neg (by simp only [offset] at hij; omega), hj']

theorem loadMerge_rest (h : Half) (hi : i < 4) (hno : ¬ h.Covers A i) :
    byteOf (h.loadMerge (3#32 - BitVec.ofNat 32 (h.lane A)) y x) i = byteOf y i := by
  have hb := h.lane_lt A
  unfold Covers Meets at hno
  cases h with
  | right =>
      refine (mergeRight_byte hb hi x y).trans (if_neg ?_)
      intro hlt
      exact hno ⟨i + lane right A, by omega, rfl⟩
  | left =>
      refine (mergeLeft_byte hb hi x y).trans (if_pos ?_)
      refine Nat.lt_of_not_le fun hle => hno ⟨i - (3 - lane left A), by omega, ?_⟩
      simp only [offset]
      omega

/-- **The two complement each other**: every byte is covered by one or by the other. -/
theorem covers_or {h h' : Half} (hne : h ≠ h') (A : BitVec 32) (hi : i < 4) :
    h.Covers A i ∨ h'.Covers A i := by
  have hA := A.isLt
  have hor : right.Covers A i ∨ left.Covers A i := by
    have hr : lane right A = A.toNat % 4 := by simp [lane, address, offset]
    have hl : lane left A = (A.toNat + 3) % 4 := by
      simp only [lane, address, offset, BitVec.toNat_add, BitVec.toNat_ofNat]
      omega
    by_cases hlt : i + A.toNat % 4 < 4
    · exact Or.inl ⟨i + A.toNat % 4, hlt, by rw [Meets, hr]; rfl⟩
    · refine Or.inr ⟨i + (A.toNat + 3) % 4 - 3, by omega, ?_⟩
      rw [Meets, hl]
      simp only [offset]
      omega
  cases h with
  | right =>
      cases h' with
      | right => exact absurd rfl hne
      | left => exact hor
  | left =>
      cases h' with
      | right => exact hor.symm
      | left => exact absurd rfl hne

end Half

/-! ## The aligned word -/

namespace Machine

open Instruction Mips

theorem byteOf_eq (w : BitVec 32) (k : Nat) :
    byteOf w k = UInt8.ofNat (w.toNat / 256 ^ k % 256) := by
  have hpow : (256 : Nat) ^ k = 2 ^ (8 * k) := by rw [Nat.pow_mul]
  apply UInt8.toNat_inj.mp
  unfold byteOf
  rw [UInt8.toNat_ofBitVec, BitVec.extractLsb'_toNat, UInt8.toNat_ofNat', Nat.shiftRight_eq_div_pow,
    hpow]
  omega

/-- The bytes of the word that `ReadMem` delivers. -/
theorem byteOf_valueAt (mem : Memory) (p : Nat) {j : Nat} (hj : j < 4) :
    byteOf (BitVec.ofInt 32 (valueAt mem p 4)) j = mem ((p + j : Nat) : Int) := by
  have hv := valueAt_mod mem p (show IsSize 4 from Or.inr (Or.inr rfl))
  have hn : (BitVec.ofInt 32 (valueAt mem p 4)).toNat = bytesAt mem p 4 := by
    rw [BitVec.toNat_ofInt]
    omega
  have hbytes : bytesAt mem p 4 = (mem (p : Nat)).toNat + 256 * ((mem (p + 1 : Nat)).toNat +
      256 * ((mem (p + 1 + 1 : Nat)).toNat +
      256 * ((mem (p + 1 + 1 + 1 : Nat)).toNat + 256 * 0))) := rfl
  have h0 := (mem (p : Nat)).toNat_lt
  have h1 := (mem (p + 1 : Nat)).toNat_lt
  have h2 := (mem (p + 1 + 1 : Nat)).toNat_lt
  have h3 := (mem (p + 1 + 1 + 1 : Nat)).toNat_lt
  apply UInt8.toNat_inj.mp
  rw [byteOf_eq, hn, hbytes, UInt8.toNat_ofNat']
  have hcase : j = 0 ∨ j = 1 ∨ j = 2 ∨ j = 3 := by omega
  rcases hcase with rfl | rfl | rfl | rfl
  · show _ = (mem (p : Nat)).toNat
    omega
  · show _ = (mem (p + 1 : Nat)).toNat
    omega
  · show _ = (mem (p + 1 + 1 : Nat)).toNat
    omega
  · show _ = (mem (p + 1 + 1 + 1 : Nat)).toNat
    omega

variable {m : Machine}

theorem place_congr {a a' : Int} (h : toUInt32 a = toUInt32 a') (w : Bool) :
    m.place a w = m.place a' w := by
  apply Option.ext
  intro p
  rw [place_iff, place_iff, h]

/-- Where byte `i` of the word at `A` is. -/
def bytePlace (m : Machine) (A : BitVec 32) (i : Nat) (w : Bool) : Option Nat :=
  m.place (A + BitVec.ofNat 32 i).toInt w

/-- **The aligned word around an address**, when the address is mapped: its accesses go through, and
its bytes are at consecutive places. -/
theorem aligned_window {h : Half} {A : BitVec 32} {w : Bool} {p : Nat}
    (hp : m.place (h.address A).toInt w = some p) :
    ∃ base n, m.translate ((h.address A) - (h.address A &&& 3#32)).toInt 4 w =
        some (.ok (base, n)) ∧
      ∀ i j, j < 4 → h.Meets A i j → m.bytePlace A i w = some (base + j) := by
  have hthree : (h.address A &&& 3#32).toNat = (h.address A).toNat % 4 := by
    rw [BitVec.toNat_and]
    exact Nat.and_two_pow_sub_one_eq_mod _ 2
  have hlt := (h.address A).isLt
  have hD : ((h.address A) - (h.address A &&& 3#32)).toNat =
      (h.address A).toNat - (h.address A).toNat % 4 := by
    rw [BitVec.toNat_sub, hthree]
    omega
  -- the word is on the page of the address
  have hpage : ((h.address A).toNat - (h.address A).toNat % 4) / pageSize =
      (h.address A).toNat / pageSize := by
    unfold pageSize
    omega
  have hplace : (m.place ((h.address A) - (h.address A &&& 3#32)).toInt w).isSome := by
    obtain ⟨h1, h2, h3, h4, _⟩ := (place_iff _ _ _ _).mp hp
    rw [toUInt32_toInt] at h1 h2 h3 h4
    simp only [Option.isSome_iff_exists, place_iff, toUInt32_toInt, hD, hpage]
    exact ⟨_, h1, h2, h3, h4, rfl⟩
  have haligned : ((h.address A) - (h.address A &&& 3#32)).toInt % (4 : Nat) = 0 := by
    rw [toInt_emod (Or.inr (Or.inr rfl)), hD]
    omega
  obtain ⟨base, m', ht⟩ := (m.allows_iff _ (Or.inr (Or.inr rfl)) w).mpr ⟨haligned, hplace⟩
  refine ⟨base, m', ht, ?_⟩
  intro i j hj hij
  obtain ⟨_, hq⟩ := place_of_translate (Or.inr (Or.inr rfl)) ht hj
  rw [← hq]
  refine place_congr ?_ w
  have hA := A.isLt
  unfold Half.Meets Half.lane at hij
  unfold Half.address at hij hD hlt hthree ⊢
  rw [toUInt32_toInt, toUInt32_toInt, toUInt32_natCast, hD]
  · simp only [BitVec.toNat_add, BitVec.toNat_ofNat] at hij hlt ⊢
    omega
  · rw [hD]
    omega

/-- What can be written can be read. -/
theorem translate_read {a : Int} {p : Nat} {m' : Machine}
    (h : m.translate a 4 true = some (.ok (p, m'))) :
    ∃ n, m.translate a 4 false = some (.ok (p, n)) := by
  obtain ⟨h0, h1, h2, _, h4, h5, _⟩ := (translate_ok_iff m a (Or.inr (Or.inr rfl)) true p m').mp h
  exact ⟨_, (translate_ok_iff m a (Or.inr (Or.inr rfl)) false p _).mpr
    ⟨h0, h1, h2, Bool.and_false _, h4, h5, rfl⟩⟩

/-- An access that goes through does so in every machine with the same map. -/
theorem translate_sameMap {n m' : Machine} (hmap : SameMap m n) {a : Int} {p : Nat} {w : Bool}
    (h : m.translate a 4 w = some (.ok (p, m'))) :
    ∃ n', n.translate a 4 w = some (.ok (p, n')) := by
  rcases hmap.translate_cases a 4 w with ⟨hm, _⟩ | ⟨e, hm, _⟩ | ⟨q, hm, hn⟩
  · rw [h] at hm
    exact absurd hm (by simp)
  · rw [h] at hm
    exact absurd hm (by simp)
  · rw [h] at hm
    injection hm with hm
    injection hm with hm
    injection hm with hq _
    exact ⟨_, hq ▸ hn⟩

theorem address_and_three (h : Half) (A : BitVec 32) :
    h.address A &&& 3#32 = BitVec.ofNat 32 (h.lane A) := by
  apply BitVec.eq_of_toNat_eq
  have hlt := h.lane_lt A
  have hlane : (BitVec.ofNat 32 (h.lane A)).toNat = h.lane A := by
    rw [BitVec.toNat_ofNat]
    omega
  rw [BitVec.toNat_and, hlane]
  exact Nat.and_two_pow_sub_one_eq_mod _ 2

/-- `m'` is `m` with the bytes of `value` that `S` names stored from `A` on, and nothing else. -/
structure Stored (S : Nat → Prop) (A value : BitVec 32) (m m' : Machine) : Prop where
  bytes : ∀ i, i < 4 → S i →
    ∃ p, m.bytePlace A i true = some p ∧ m'.mainMemory p = byteOf value i
  rest : ∀ q : Nat, (∀ i, i < 4 → S i → m.bytePlace A i true ≠ some q) →
    m'.mainMemory q = m.mainMemory q

/-- `value` has the bytes of memory from `A` on where `S` says so, and those of `old` elsewhere. -/
structure Loaded (S : Nat → Prop) (A : BitVec 32) (m : Machine) (old value : BitVec 32) : Prop where
  bytes : ∀ i, i < 4 → S i →
    ∃ p, m.bytePlace A i false = some p ∧ byteOf value i = m.mainMemory p
  rest : ∀ i, i < 4 → ¬ S i → byteOf value i = byteOf old i

/-- The aligned word with part of it replaced, written back. -/
theorem stored_putBytes {h : Half} {A rt : BitVec 32} {base : Nat} {m' : Machine}
    (hbase : ∀ i j, j < 4 → h.Meets A i j → m.bytePlace A i true = some (base + j))
    (hmem : m'.mainMemory = putBytes m.mainMemory base 4
      (h.storeMerge (3#32 - BitVec.ofNat 32 (h.lane A)) rt
        (BitVec.ofInt 32 (valueAt m.mainMemory base 4))).toNat) :
    Stored (h.Covers A) A rt m m' where
  bytes := by
    rintro i hi ⟨j, hj, hij⟩
    refine ⟨base + j, hbase i j hj hij, ?_⟩
    rw [hmem, putBytes_at, if_pos (by omega), Nat.add_sub_cancel_left, ← byteOf_eq,
      h.storeMerge_byte _ _ hi hj hij]
  rest := by
    intro q hq
    rw [hmem, putBytes_at]
    split
    · rename_i hin
      obtain ⟨j, rfl⟩ : ∃ j, q = base + j := ⟨q - base, by omega⟩
      have hj : j < 4 := by omega
      -- a byte of the aligned word that no byte of the register belongs to
      have hno : ∀ i, i < 4 → ¬ h.Meets A i j := fun i hi hij =>
        hq i hi ⟨j, hj, hij⟩ (hbase i j hj hij)
      rw [Nat.add_sub_cancel_left, ← byteOf_eq, h.storeMerge_rest _ _ hj hno, byteOf_valueAt _ _ hj]
    · rfl

theorem address_eq (i : Instruction) {a : BitVec 32} (h : m.registers i.rs + i.extra = a) :
    i.address m = .ok a m := by
  unfold Instruction.address
  rw [bind_eq_of_ok (reg_eq (gp_lt i.rs)), h]
  rfl

theorem readMem_of_translate {a : BitVec 32} {base : Nat} {n : Machine}
    (h : m.translate a.toInt 4 false = some (.ok (base, n))) :
    Mips.readMem a 4 m = .ok (BitVec.ofInt 32 (valueAt n.mainMemory base 4)) n := by
  unfold Mips.readMem Machine.readMem
  rw [h]
  rfl

theorem writeMem_of_translate {a : BitVec 32} {base : Nat} {n : Machine} (v : BitVec 32)
    (h : m.translate a.toInt 4 true = some (.ok (base, n))) :
    Mips.writeMem a 4 v m =
      .ok () { n with mainMemory := putBytes n.mainMemory base 4 v.toNat } := by
  unfold Mips.writeMem Machine.writeMem
  rw [h, toUInt32_toInt]
  rfl

/-- **One partial store.** -/
theorem storeUnaligned_eq (i : Instruction) (pcAfter : BitVec 32) {h : Half}
    {A : BitVec 32} {p : Nat} (hA : m.registers i.rs + i.extra = h.address A)
    (hp : m.place (h.address A).toInt true = some p) :
    ∃ m', i.storeUnaligned pcAfter h.storeMerge m = .ok (.at pcAfter) m' ∧
      m'.registers = m.registers ∧ SameMap m m' ∧
      Stored (h.Covers A) A (m.registers i.rt) m m' := by
  obtain ⟨base, _, ht, hbase⟩ := aligned_window hp
  obtain ⟨n, hread⟩ := translate_read ht
  have hn : n.user = m.user := translate_user hread
  obtain ⟨n', hwrite⟩ := translate_sameMap (sameMap_of_user hn) ht
  have hn' : n'.user = m.user := (translate_user hwrite).trans hn
  have hmem : n.mainMemory = m.mainMemory := congrArg View.memory hn
  have hmem' : n'.mainMemory = m.mainMemory := congrArg View.memory hn'
  have hregs : n.registers = m.registers := congrArg View.registers hn
  have hmap := sameMap_of_user hn'
  have hx : i.storeUnaligned pcAfter h.storeMerge m = .ok (.at pcAfter) { n' with
      mainMemory := putBytes m.mainMemory base 4 (h.storeMerge (3#32 - BitVec.ofNat 32 (h.lane A))
        (m.registers i.rt) (BitVec.ofInt 32 (valueAt m.mainMemory base 4))).toNat } := by
    unfold storeUnaligned
    rw [bind_eq_of_ok (address_eq i hA), bind_eq_of_ok (readMem_of_translate hread),
      bind_eq_of_ok (reg_eq (gp_lt i.rt)),
      bind_eq_of_ok (writeMem_of_translate _ hwrite), hmem, hmem', hregs, address_and_three]
    rfl
  exact ⟨_, hx, congrArg View.registers hn',
    ⟨hmap.size, hmap.valid, hmap.readOnly, hmap.physicalPage⟩, stored_putBytes hbase rfl⟩

/-- **One partial load**, of which the register learns later. -/
theorem loadUnaligned_eq (i : Instruction) (pcAfter : BitVec 32) {h : Half}
    {A : BitVec 32} {p : Nat} (hA : m.registers i.rs + i.extra = h.address A)
    (hp : m.place (h.address A).toInt false = some p) :
    ∃ value m', i.loadUnaligned pcAfter h.loadMerge m = .ok ⟨pcAfter, i.rt, value⟩ m' ∧
      m'.user = m.user ∧
      Loaded (h.Covers A) A m (if m.registers loadReg = BitVec.ofNat 32 i.rt
        then m.registers loadValueReg else m.registers i.rt) value := by
  obtain ⟨base, n, hread, hbase⟩ := aligned_window hp
  have hn : n.user = m.user := translate_user hread
  have hmem : n.mainMemory = m.mainMemory := congrArg View.memory hn
  have hregs : n.registers = m.registers := congrArg View.registers hn
  have hx : i.loadUnaligned pcAfter h.loadMerge m = .ok ⟨pcAfter, i.rt, h.loadMerge
      (3#32 - BitVec.ofNat 32 (h.lane A)) (if m.registers loadReg = BitVec.ofNat 32 i.rt
        then m.registers loadValueReg else m.registers i.rt)
      (BitVec.ofInt 32 (valueAt m.mainMemory base 4))⟩ n := by
    unfold loadUnaligned
    rw [bind_eq_of_ok (address_eq i hA), bind_eq_of_ok (readMem_of_translate hread),
      bind_eq_of_ok i.loadTarget_eq, hmem, hregs, address_and_three]
    rfl
  refine ⟨_, n, hx, hn, ?_, ?_⟩
  · rintro k hk ⟨j, hj, hkj⟩
    exact ⟨base + j, hbase k j hj hkj, by rw [h.loadMerge_byte _ _ hk hj hkj,
      byteOf_valueAt _ _ hj]⟩
  · intro k hk hno
    exact h.loadMerge_rest _ _ hk hno

/-! ## One instruction of a pair -/

/-- The machine is about to execute `o` on register `rt`, with an address from register `base`. -/
def Poised (m : Machine) (o : OpCode) (rt base : Fin numGPRegs) (a : BitVec 32) : Prop :=
  ∃ w, m.word = some w ∧ (decode w).opCode = o ∧ (decode w).rt = rt ∧ (decode w).rs = base ∧
    m.registers base + (decode w).extra = a

/-- An interrupt comes, or none does. -/
def interrupted (fires : Bool) (m : Machine) : Machine := if fires then m.committed else m

theorem sameMap_interrupted (fires : Bool) (m : Machine) : SameMap m (m.interrupted fires) := by
  cases fires with
  | false => exact SameMap.refl m
  | true => exact ⟨rfl, fun _ => rfl, fun _ => rfl, fun _ => rfl⟩

theorem mainMemory_interrupted (fires : Bool) (m : Machine) :
    (m.interrupted fires).mainMemory = m.mainMemory := by
  cases fires <;> rfl

theorem SameMap.bytePlace {n : Machine} (h : SameMap m n) (A : BitVec 32) (i : Nat) (w : Bool) :
    n.bytePlace A i w = m.bytePlace A i w := h.place _ w

theorem execute_storeOp {i : Instruction} {h : Half} (hop : i.opCode = h.storeOp)
    (pcAfter : BitVec 32) : i.execute pcAfter = i.storeUnaligned pcAfter h.storeMerge := by
  unfold execute
  cases h with
  | right => rw [hop]; rfl
  | left => rw [hop]; rfl

theorem execute_loadOp {i : Instruction} {h : Half} (hop : i.opCode = h.loadOp)
    (pcAfter : BitVec 32) : i.execute pcAfter = i.loadUnaligned pcAfter h.loadMerge := by
  unfold execute
  cases h with
  | right => rw [hop]; rfl
  | left => rw [hop]; rfl

/-- **`SWR` or `SWL`**, with no load pending. -/
theorem store_step {h : Half} {A : BitVec 32} {rt base : Fin numGPRegs}
    (hpo : m.Poised h.storeOp rt base (h.address A)) (hp : (m.bytePlace A h.offset true).isSome)
    (hl : m.registers loadReg = 0#32) :
    ∃ m₁, m.oneInstruction = .completed m₁ ∧ SameMap m m₁ ∧
      Stored (h.Covers A) A (m.registers rt) m m₁ ∧ m₁.registers loadReg = 0#32 ∧
      ∀ r : Fin numGPRegs, r ≠ 0 → m₁.registers r = m.registers r := by
  obtain ⟨w, hw, hop, rfl, rfl, ha⟩ := hpo
  obtain ⟨t, hf, hu⟩ := fetch_of_word hw
  have hregs : t.registers = m.registers := congrArg View.registers hu
  have hmem : t.mainMemory = m.mainMemory := congrArg View.memory hu
  have hmap := sameMap_of_user hu
  obtain ⟨p, hp⟩ := Option.isSome_iff_exists.mp hp
  obtain ⟨t', hx, hregs', hmap', hstored⟩ := storeUnaligned_eq (m := t) (decode w)
    (t.registers nextPCReg + 4#32) (by rw [hregs, ha]) ((hmap.place _ true).trans hp)
  rw [← execute_storeOp hop] at hx
  have hl' : t'.registers loadReg = 0#32 := by rw [hregs', hregs, hl]
  refine ⟨_, oneInstruction_completed hf hx (by rw [hl']; decide), ?_, ?_, rfl, ?_⟩
  · have hboth := hmap.trans hmap'
    exact ⟨hboth.size, hboth.valid, hboth.readOnly, hboth.physicalPage⟩
  · rw [hregs] at hstored
    constructor
    · intro i hi hc
      obtain ⟨q, hq, hb⟩ := hstored.bytes i hi hc
      exact ⟨q, (hmap.bytePlace A i true).symm.trans hq, hb⟩
    · intro q hq
      refine (hstored.rest q fun i hi hc => ?_).trans (congrFun hmem _)
      rw [hmap.bytePlace]
      exact hq i hi hc
  · intro r hr
    have hread := read_advanced hl' (.at (t.registers nextPCReg + 4#32)) (.gpr r)
    rw [if_neg fun he => hr (Mips1.Reg.gpr.inj he)] at hread
    exact hread.trans (congrFun (hregs'.trans hregs) _)

/-- What the merging loads merge into. -/
def mergeTarget (m : Machine) (rt : Fin numGPRegs) : BitVec 32 :=
  if m.registers loadReg = BitVec.ofNat 32 rt then m.registers loadValueReg else m.registers rt

/-- **`LWR` or `LWL`**, with a load pending or not. -/
theorem load_step {h : Half} {A : BitVec 32} {rt base : Fin numGPRegs}
    (hpo : m.Poised h.loadOp rt base (h.address A)) (hp : (m.bytePlace A h.offset false).isSome)
    (hl : (m.registers loadReg).toNat < numTotalRegs) :
    ∃ m₁ value, m.oneInstruction = .completed m₁ ∧ SameMap m m₁ ∧ m₁.mainMemory = m.mainMemory ∧
      m₁.registers loadReg = BitVec.ofNat 32 rt ∧ m₁.registers loadValueReg = value ∧
      (m.registers loadReg = 0#32 →
        ∀ r : Fin numGPRegs, r ≠ 0 → m₁.registers r = m.registers r) ∧
      Loaded (h.Covers A) A m (m.mergeTarget rt) value := by
  obtain ⟨w, hw, hop, rfl, rfl, ha⟩ := hpo
  obtain ⟨t, hf, hu⟩ := fetch_of_word hw
  have hregs : t.registers = m.registers := congrArg View.registers hu
  have hmem : t.mainMemory = m.mainMemory := congrArg View.memory hu
  have hmap := sameMap_of_user hu
  obtain ⟨p, hp⟩ := Option.isSome_iff_exists.mp hp
  obtain ⟨value, t', hx, hu', hloaded⟩ := loadUnaligned_eq (m := t) (decode w)
    (t.registers nextPCReg + 4#32) (by rw [hregs, ha]) ((hmap.place _ false).trans hp)
  rw [← execute_loadOp hop] at hx
  have hregs' : t'.registers = m.registers := (congrArg View.registers hu').trans hregs
  refine ⟨_, value, oneInstruction_completed hf hx (by rw [hregs']; exact hl), ?_, ?_, rfl, rfl, ?_,
    ?_⟩
  · have hboth := hmap.trans (sameMap_of_user hu')
    exact ⟨hboth.size, hboth.valid, hboth.readOnly, hboth.physicalPage⟩
  · exact (congrArg View.memory hu').trans hmem
  · intro h0 r hr
    have hread := read_advanced (by rw [hregs', h0])
      ⟨t.registers nextPCReg + 4#32, (decode w).rt, value⟩ (.gpr r)
    rw [if_neg fun he => hr (Mips1.Reg.gpr.inj he)] at hread
    exact hread.trans (congrFun hregs' _)
  · rw [hregs] at hloaded
    refine ⟨?_, hloaded.rest⟩
    intro i hi hc
    obtain ⟨q, hq, hb⟩ := hloaded.bytes i hi hc
    exact ⟨q, (hmap.bytePlace A i false).symm.trans hq, by rw [hb, hmem]⟩

/-- A load that has started reaches its register, whatever is loaded next. -/
theorem delayedLoad_pending {rt : Fin numGPRegs} {value : BitVec 32} (hrt : rt ≠ 0)
    (hl : m.registers loadReg = BitVec.ofNat 32 rt) (hv : m.registers loadValueReg = value)
    (nextReg nextValue : BitVec 32) : (m.delayedLoad nextReg nextValue).registers rt = value := by
  have hval : (rt : Nat) ≠ 0 := fun he => hrt (Fin.ext he)
  have hlt : (rt : Nat) < 32 := rt.isLt
  have hnat : (BitVec.ofNat 32 (rt : Nat)).toNat = rt := by
    rw [BitVec.toNat_ofNat]
    omega
  rw [delayedLoad_registers, if_neg hval, if_neg, if_neg, hl, hnat, if_pos rfl, hv]
  · unfold loadReg; omega
  · unfold loadValueReg; omega

/-- An interrupt moves the value from one place to the other. -/
theorem mergeTarget_interrupted {rt : Fin numGPRegs} {value : BitVec 32} (hrt : rt ≠ 0)
    (hl : m.registers loadReg = BitVec.ofNat 32 rt) (hv : m.registers loadValueReg = value)
    (fires : Bool) : (m.interrupted fires).mergeTarget rt = value := by
  unfold mergeTarget
  cases fires with
  | false =>
      show (if m.registers loadReg = _ then _ else _) = value
      rw [if_pos hl]
      exact hv
  | true =>
      have hne : m.committed.registers loadReg ≠ BitVec.ofNat 32 rt := fun he =>
        hrt ((ofNat_eq_iff 0 rt).mp he).symm
      show (if m.committed.registers loadReg = _ then _ else _) = value
      rw [if_neg hne]
      exact delayedLoad_pending hrt hl hv _ _

/-- It changes no other register. -/
theorem interrupted_registers {rt r : Fin numGPRegs} (hl : m.registers loadReg = BitVec.ofNat 32 rt)
    (h0 : r ≠ 0) (hr : r ≠ rt) (fires : Bool) :
    (m.interrupted fires).registers r = m.registers r := by
  cases fires with
  | false => rfl
  | true =>
      have hlt : (r : Nat) < 32 := r.isLt
      have hlt' : (rt : Nat) < 32 := rt.isLt
      have hval : (r : Nat) ≠ 0 := fun he => h0 (Fin.ext he)
      show (m.delayedLoad 0#32 0#32).registers r = m.registers r
      rw [delayedLoad_registers, if_neg hval, if_neg, if_neg, if_neg]
      · rw [hl, BitVec.toNat_ofNat]
        intro he
        exact hr (Fin.ext (by omega))
      · unfold loadReg; omega
      · unfold loadValueReg; omega

/-! ## Pairs -/

/-- Two partial stores of one word. The second leaves what the first has stored, since no two bytes
share a place. -/
theorem Stored.trans {S T : Nat → Prop} {A value : BitVec 32} {n n' : Machine} (hm : m.Injective)
    (hmap : SameMap m n) (h : Stored S A value m n) (h' : Stored T A value n n')
    (hor : ∀ i, i < 4 → S i ∨ T i) : Stored (fun _ => True) A value m n' where
  bytes := by
    intro i hi _
    by_cases hT : T i
    · obtain ⟨p, hp, hb⟩ := h'.bytes i hi hT
      exact ⟨p, (hmap.bytePlace A i true).symm.trans hp, hb⟩
    · have hS : S i := (hor i hi).resolve_right hT
      obtain ⟨p, hp, hb⟩ := h.bytes i hi hS
      refine ⟨p, hp, (h'.rest p ?_).trans hb⟩
      intro j hj hTj hpj
      rw [hmap.bytePlace] at hpj
      -- the places are the same, so the addresses are
      have hsame := hm.place hp hpj
      rw [toUInt32_toInt, toUInt32_toInt, BitVec.toNat_add, BitVec.toNat_add, BitVec.toNat_ofNat,
        BitVec.toNat_ofNat] at hsame
      have hij : i = j := by omega
      exact hT (hij ▸ hTj)
  rest := by
    intro q hq
    have hn : n'.mainMemory q = n.mainMemory q := by
      refine h'.rest q fun i hi _ => ?_
      rw [hmap.bytePlace]
      exact hq i hi trivial
    exact hn.trans (h.rest q fun i hi _ => hq i hi trivial)

/-- `value` is the word at `A`, its low byte first. -/
def WordAt (m : Machine) (A value : BitVec 32) : Prop :=
  ∀ i, i < 4 → ∃ p, m.bytePlace A i false = some p ∧ byteOf value i = m.mainMemory p

/-- Two partial loads, the second of which merges into what the first has delivered. -/
theorem Loaded.trans {S T : Nat → Prop} {A old value value' : BitVec 32} {n : Machine}
    (hmap : SameMap m n) (hmem : n.mainMemory = m.mainMemory) (h : Loaded S A m old value)
    (h' : Loaded T A n value value') (hor : ∀ i, i < 4 → S i ∨ T i) : m.WordAt A value' := by
  intro i hi
  by_cases hT : T i
  · obtain ⟨p, hp, hb⟩ := h'.bytes i hi hT
    exact ⟨p, (hmap.bytePlace A i false).symm.trans hp, by rw [hb, hmem]⟩
  · obtain ⟨p, hp, hb⟩ := h.bytes i hi ((hor i hi).resolve_right hT)
    exact ⟨p, hp, (h'.rest i hi hT).trans hb⟩

/-- An interrupt leaves what was stored. -/
theorem Stored.interrupted {S : Nat → Prop} {A value : BitVec 32} {n : Machine}
    (h : Stored S A value m n) (fires : Bool) : Stored S A value m (n.interrupted fires) where
  bytes := by
    intro i hi hS
    rw [mainMemory_interrupted]
    exact h.bytes i hi hS
  rest := by
    intro q hq
    rw [mainMemory_interrupted]
    exact h.rest q hq

/-- After it the delayed load is what it was, or done. -/
theorem interrupted_loadReg (fires : Bool) (m : Machine) :
    (m.interrupted fires).registers loadReg = m.registers loadReg ∨
      (m.interrupted fires).registers loadReg = 0#32 := by
  cases fires with
  | false => exact Or.inl rfl
  | true => exact Or.inr rfl

theorem interrupted_loadReg_lt {rt : Fin numGPRegs} (hl : m.registers loadReg = BitVec.ofNat 32 rt)
    (fires : Bool) : ((m.interrupted fires).registers loadReg).toNat < numTotalRegs := by
  rcases interrupted_loadReg fires m with h | h
  · have hr : (rt : Nat) < 32 := rt.isLt
    rw [h, hl, BitVec.toNat_ofNat]
    unfold numTotalRegs
    omega
  · rw [h]
    decide

/-- **Unaligned pairs.** Let the four bytes from `A` on be mapped and writable, and no load
pending. The two partial stores of a register, in either order and with or without an interrupt
between them, put its four bytes there and change no other byte of memory. The two
partial loads, likewise, leave the word that is there for the register, whatever it held before.
The address of the second instruction is the one it would have had before the first. -/
theorem unaligned_pairs (m : Machine) (A : BitVec 32) (rt base base' : Fin numGPRegs)
    (first second : Half) (fires : Bool) (hm : m.Injective)
    (hmapped : ∀ i, i < 4 → (m.bytePlace A i true).isSome) (hrt : rt ≠ 0)
    (hload : m.registers loadReg = 0#32) (hpair : first ≠ second) :
    (m.Poised first.storeOp rt base (first.address A) →
      ∃ m₁, m.oneInstruction = .completed m₁ ∧
        (base' ≠ 0 → (m₁.interrupted fires).registers base' = m.registers base') ∧
        ((m₁.interrupted fires).Poised second.storeOp rt base' (second.address A) →
          ∃ m₂, (m₁.interrupted fires).oneInstruction = .completed m₂ ∧
            Stored (fun _ => True) A (m.registers rt) m m₂)) ∧
    (m.Poised first.loadOp rt base (first.address A) →
      ∃ m₁, m.oneInstruction = .completed m₁ ∧
        (base' ≠ 0 → base' ≠ rt → (m₁.interrupted fires).registers base' = m.registers base') ∧
        ((m₁.interrupted fires).Poised second.loadOp rt base' (second.address A) →
          ∃ m₂, (m₁.interrupted fires).oneInstruction = .completed m₂ ∧
            ∀ nextReg nextValue,
            m.WordAt A ((m₂.delayedLoad nextReg nextValue).registers rt))) := by
  have hor : ∀ i, i < 4 → first.Covers A i ∨ second.Covers A i := fun i hi =>
    Half.covers_or hpair A hi
  constructor
  · intro hpo
    obtain ⟨m₁, hone, hmap, hstored, hl, hregs⟩ := store_step hpo (hmapped _ first.offset_lt) hload
    have hkeep : ∀ r : Fin numGPRegs, r ≠ 0 →
        (m₁.interrupted fires).registers r = m.registers r := fun r hr =>
      (@interrupted_registers m₁ 0 r hl hr hr fires).trans (hregs r hr)
    refine ⟨m₁, hone, hkeep base', fun hpo' => ?_⟩
    have hmap' := hmap.trans (sameMap_interrupted fires m₁)
    have hl' : (m₁.interrupted fires).registers loadReg = 0#32 :=
      (interrupted_loadReg fires m₁).elim (fun h => h.trans hl) id
    obtain ⟨m₂, htwo, _, hstored', _⟩ := store_step hpo'
      (by rw [hmap'.bytePlace]; exact hmapped _ second.offset_lt) hl'
    rw [hkeep rt hrt] at hstored'
    exact ⟨m₂, htwo, Stored.trans hm hmap' (hstored.interrupted fires) hstored' hor⟩
  · intro hpo
    have hread : ∀ i, i < 4 → (m.bytePlace A i false).isSome := by
      intro i hi
      obtain ⟨p, hp⟩ := Option.isSome_iff_exists.mp (hmapped i hi)
      exact Option.isSome_iff_exists.mpr ⟨p, place_read hp⟩
    obtain ⟨m₁, value, hone, hmap, hmem, hl, hv, hregs, hloaded⟩ :=
      load_step hpo (hread _ first.offset_lt) (by rw [hload]; decide)
    refine ⟨m₁, hone, fun h0 hne => ?_, fun hpo' => ?_⟩
    · exact (interrupted_registers hl h0 hne fires).trans (hregs hload base' h0)
    have hmap' := hmap.trans (sameMap_interrupted fires m₁)
    have hmem' := (mainMemory_interrupted fires m₁).trans hmem
    obtain ⟨m₂, value', htwo, _, _, hl', hv', _, hloaded'⟩ := load_step hpo'
      (by rw [hmap'.bytePlace]; exact hread _ second.offset_lt) (interrupted_loadReg_lt hl fires)
    rw [mergeTarget_interrupted hrt hl hv] at hloaded'
    refine ⟨m₂, htwo, fun nextReg nextValue => ?_⟩
    rw [delayedLoad_pending hrt hl' hv']
    exact Loaded.trans hmap' hmem' hloaded hloaded' hor

/-- `swr $1, 41($0)` and `swl $1, 44($0)`. -/
def storingPair : Machine :=
  sample [0xb8010029#32, 0xa801002c#32] (upd (upd (fun _ => 0#32) nextPCReg 4#32) 1 0x12345678#32)

/-- `lwl $1, 44($0)` and `lwr $1, 41($0)`. -/
def loadingPair : Machine :=
  sample [0x8801002c#32, 0x98010029#32] (upd (fun _ => 0#32) nextPCReg 4#32)

/-- The machine after an instruction that completes. -/
def stepped (m : Machine) : Machine :=
  match m.oneInstruction with
  | .completed m' => m'
  | _ => m

theorem eq_stepped {m m' : Machine} (h : m.oneInstruction = .completed m') : m' = m.stepped := by
  unfold stepped
  rw [h]

theorem sample_injective (words : List (BitVec 32)) (r : Nat → BitVec 32) :
    (sample words r).Injective := by
  intro v v' hv hv' _ _ _
  have h1 : v < 1 := hv
  have h2 : v' < 1 := hv'
  omega

/-- The word at address 41 is stored and loaded, the second time with an interrupt in the middle. -/
theorem unaligned_pairs_at_41 :
    (∃ m₁ m₂, storingPair.oneInstruction = .completed m₁ ∧ m₁.oneInstruction = .completed m₂ ∧
      Stored (fun _ => True) 41#32 0x12345678#32 storingPair m₂) ∧
    ∃ m₁ m₂, loadingPair.oneInstruction = .completed m₁ ∧
      m₁.committed.oneInstruction = .completed m₂ ∧
      loadingPair.WordAt 41#32 (m₂.committed.registers 1) := by
  constructor
  · obtain ⟨m₁, hone, _, hnext⟩ := (unaligned_pairs storingPair 41#32 1 0 0 .right .left false
      (sample_injective _ _) (by decide) (by decide) rfl (by decide)).1
      ⟨0xb8010029#32, by decide, by decide, by decide, by decide, by decide⟩
    have hm₁ : m₁ = storingPair.stepped := eq_stepped hone
    obtain ⟨m₂, htwo, hstored⟩ := hnext (by
      rw [hm₁]
      exact ⟨0xa801002c#32, by decide +kernel, by decide, by decide, by decide, by decide⟩)
    exact ⟨m₁, m₂, hone, htwo, hstored⟩
  · obtain ⟨m₁, hone, _, hnext⟩ := (unaligned_pairs loadingPair 41#32 1 0 0 .left .right true
      (sample_injective _ _) (by decide) (by decide) rfl (by decide)).2
      ⟨0x8801002c#32, by decide, by decide, by decide, by decide, by decide⟩
    have hm₁ : m₁ = loadingPair.stepped := eq_stepped hone
    obtain ⟨m₂, htwo, hloaded⟩ := hnext (by
      rw [hm₁]
      exact ⟨0x98010029#32, by decide +kernel, by decide, by decide, by decide, by decide⟩)
    exact ⟨m₁, m₂, hone, htwo, hloaded 0#32 0#32⟩

end Machine

end Nachos
