import Nachos.Proof.Interpreter
import Mathlib.Algebra.Group.Int.Defs

/-!
# The memory of a user program is an array of bytes

A user program knows nothing of frames. To it memory is one byte per virtual address, and
`ReadMem` and `WriteMem` are reads and writes of one, two or four of these bytes, the low one
first. The page table scatters the bytes over main memory; as long as no frame is behind
two pages, nothing of that shows.

`Flat` is the array as the program imagines it. `image` is the array that a machine
stands for, and every call of `ReadMem` and `WriteMem` does to the image what it would do to the
array.
-/

namespace Nachos

open Base (upd)

/-! ## The array -/

/-- One byte per virtual address. -/
abbrev Flat := Nat → UInt8

namespace Flat

/-- The number in the `size` bytes from `a` on, the low byte first. -/
def value (f : Flat) (a : Nat) : Nat → Nat
  | 0 => 0
  | size + 1 => (f a).toNat + 256 * f.value (a + 1) size

/-- The array with the low `size` bytes of `v` at `a`, the low one first. -/
def store (f : Flat) (a size : Nat) (v : Int) : Flat := fun x =>
  if a ≤ x ∧ x < a + size then UInt8.ofNat ((v / 256 ^ (x - a) % 256).toNat) else f x

end Flat

/-- A call of `ReadMem` or `WriteMem`. -/
inductive Access where
  | read (addr : Int) (size : Nat)
  | write (addr : Int) (size : Nat) (value : Int)
  deriving DecidableEq, Repr

/-- How many bytes it is about. -/
def Access.size : Access → Nat
  | read _ size => size
  | write _ size _ => size

/-- What comes of it. -/
inductive Reply where
  /-- `ReadMem` returns `TRUE`, with this value. -/
  | value (v : Int)
  /-- `WriteMem` returns `TRUE`. -/
  | done
  /-- An exception has been raised, and `FALSE` is returned. -/
  | failed
  deriving DecidableEq, Repr

namespace Flat

/-- What a call may do to the array. -/
inductive Step : Flat → Access → Reply → Flat → Prop where
  | read {f : Flat} {addr v : Int} {size : Nat} :
      v % 2 ^ (8 * size) = f.value (toUInt32 addr) size → Step f (.read addr size) (.value v) f
  | write {f : Flat} {addr v : Int} {size : Nat} :
      Step f (.write addr size v) .done (f.store (toUInt32 addr) size v)
  | failed {f : Flat} {a : Access} : Step f a .failed f

/-- What a sequence of calls may do. -/
inductive Run : Flat → List Access → List Reply → Flat → Prop where
  | nil {f : Flat} : Run f [] [] f
  | cons {f f' f'' : Flat} {a : Access} {as : List Access} {r : Reply} {rs : List Reply} :
      Step f a r f' → Run f' as rs f'' → Run f (a :: as) (r :: rs) f''

end Flat

/-! ## The machine -/

namespace Machine

/-- A call, as far as the handler of its exception. `none` when the `ASSERT` of `Translate`
fails. -/
def call (m : Machine) : Access → Option (Reply × Machine)
  | .read addr size =>
      (m.readMem addr size).map fun
        | .ok (v, m') => (.value v, m')
        | .error _ => (.failed, m.trapped (BitVec.ofInt 32 addr))
  | .write addr size value =>
      (m.writeMem addr size value).map fun
        | .ok m' => (.done, m')
        | .error _ => (.failed, m.trapped (BitVec.ofInt 32 addr))

/-- One call after the other. -/
def calls : Machine → List Access → Option (List Reply × Machine)
  | m, [] => some ([], m)
  | m, a :: as =>
      (m.call a).bind fun p => (calls p.2 as).map fun q => (p.1 :: q.1, q.2)

/-- The valid entries of the page table lead to distinct frames of main memory. -/
structure Linear (m : Machine) : Prop where
  inside : ∀ v, v < m.pageTableSize → (m.pageTable v).valid = true →
    0 ≤ (m.pageTable v).physicalPage ∧ (m.pageTable v).physicalPage < numPhysPages
  distinct : ∀ v v', v < m.pageTableSize → v' < m.pageTableSize → (m.pageTable v).valid = true →
    (m.pageTable v').valid = true → (m.pageTable v).physicalPage = (m.pageTable v').physicalPage →
    v = v'

/-- The array that the machine stands for: the byte behind each address that is mapped. -/
def image (m : Machine) : Flat := fun a =>
  if a < 4294967296 then
    match m.place a false with
    | some p => m.mainMemory p
    | none => 0
  else 0

variable {m m' : Machine}

theorem Linear.injective (h : m.Linear) : m.Injective := by
  intro v v' hv hv' hval hval' he
  have hi := h.inside v hv hval
  have hi' := h.inside v' hv' hval'
  refine h.distinct v v' hv hv' hval hval' ?_
  unfold toUInt32 numPhysPages at *
  omega

theorem Linear.congr (h : m.Linear) (hmap : SameMap m m') : m'.Linear where
  inside := by
    simp only [hmap.size, hmap.valid, hmap.physicalPage]
    exact h.inside
  distinct := by
    simp only [hmap.size, hmap.valid, hmap.physicalPage]
    exact h.distinct

theorem toUInt32_natCast {a : Nat} (h : a < 4294967296) : toUInt32 (a : Int) = a := by
  unfold toUInt32
  omega

theorem toUInt32_lt (x : Int) : toUInt32 x < 4294967296 := by
  unfold toUInt32
  omega

/-- **An access stays on its page**: its bytes are at consecutive places. -/
theorem place_of_translate {addr : Int} {size p i : Nat} {w : Bool} (hs : IsSize size)
    (h : m.translate addr size w = some (.ok (p, m'))) (hi : i < size) :
    toUInt32 addr + i < 4294967296 ∧
      m.place ((toUInt32 addr + i : Nat) : Int) w = some (p + i) := by
  obtain ⟨h0, h1, h2, h3, h4, h5, _⟩ := (translate_ok_iff m addr hs w p m').mp h
  have hlt := toUInt32_lt addr
  -- the alignment keeps the last byte on the page, and below `2^32`
  have hpage : toUInt32 addr % pageSize + size ≤ pageSize ∧
      toUInt32 addr + size ≤ 4294967296 := by
    unfold pageSize
    unfold toUInt32 at *
    rcases hs with rfl | rfl | rfl <;> omega
  have hsum : toUInt32 addr + i < 4294967296 := by omega
  have hdiv : (toUInt32 addr + i) / pageSize = toUInt32 addr / pageSize := by
    unfold pageSize at *
    omega
  have hmod : (toUInt32 addr + i) % pageSize = toUInt32 addr % pageSize + i := by
    unfold pageSize at *
    omega
  refine ⟨hsum, ?_⟩
  rw [place_iff, toUInt32_natCast hsum, hdiv, hmod]
  exact ⟨h1, h2, h3, h4, by omega⟩

theorem image_of_place {a p : Nat} (ha : a < 4294967296) (h : m.place a false = some p) :
    m.image a = m.mainMemory p := by
  unfold image
  rw [if_pos ha, h]

theorem image_congr (hmap : SameMap m m') (hmem : m'.mainMemory = m.mainMemory) :
    m'.image = m.image := by
  funext a
  unfold image
  rw [hmap.place, hmem]

/-- The bytes of an access, in main memory and in the image. -/
theorem bytesAt_eq_value {a p : Nat} : ∀ {size : Nat} (k : Nat),
    (∀ i, k ≤ i → i < k + size → m.mainMemory (p + i : Nat) = m.image (a + i)) →
    bytesAt m.mainMemory (p + k) size = m.image.value (a + k) size := by
  intro size
  induction size with
  | zero => intro _ _; rfl
  | succ size ih =>
      intro k h
      rw [bytesAt, Flat.value, h k (Nat.le_refl k) (by omega), Nat.add_assoc p k 1,
        Nat.add_assoc a k 1, ih (k + 1) fun i h1 h2 => h i (by omega) (by omega)]

theorem bytesAt_lt (mem : Memory) : ∀ (a size : Nat), bytesAt mem a size < 2 ^ (8 * size) := by
  intro a size
  induction size generalizing a with
  | zero => simp [bytesAt]
  | succ size ih =>
      have hb : (mem a).toNat < 256 := (mem a).toNat_lt
      have hi := ih (a + 1)
      rw [bytesAt, show 8 * (size + 1) = 8 * size + 8 by omega, Nat.pow_add]
      omega

/-- **The value that `ReadMem` delivers is the bytes**, modulo its size. -/
theorem valueAt_mod (mem : Memory) (a : Nat) {size : Nat} (hs : IsSize size) :
    valueAt mem a size % 2 ^ (8 * size) = bytesAt mem a size := by
  have hlt := bytesAt_lt mem a size
  unfold valueAt
  rcases hs with rfl | rfl | rfl
  · rw [if_pos rfl]
    have hp : (2 : Int) ^ (8 * 1) = 256 := by decide
    rw [hp, Int.bmod_def]
    split <;> omega
  · rw [if_neg (by decide), if_pos rfl]
    have hp : (2 : Int) ^ (8 * 2) = 65536 := by decide
    rw [hp]
    omega
  · rw [if_neg (by decide), if_neg (by decide)]
    have hp : (2 : Int) ^ (8 * 4) = 4294967296 := by decide
    unfold toInt32
    rw [hp, Int.bmod_def]
    split <;> omega

/-! ## One call -/

/-- What `WriteMem` leaves at each offset. -/
theorem putBytes_at : ∀ (size : Nat) (mem : Memory) (p v q : Nat),
    putBytes mem p size v (q : Int) =
      if p ≤ q ∧ q < p + size then UInt8.ofNat (v / 256 ^ (q - p) % 256) else mem q := by
  intro size
  induction size with
  | zero =>
      intro mem p v q
      rw [putBytes, if_neg (by omega)]
  | succ size ih =>
      intro mem p v q
      rw [putBytes, ih]
      rcases Nat.lt_trichotomy q p with hlt | rfl | hgt
      · rw [if_neg (by omega), if_neg (by omega), Base.upd_ne _ _ (by omega)]
      · rw [if_neg (by omega), if_pos (by omega), Base.upd_self, Nat.sub_self, Nat.pow_zero,
          Nat.div_one]
      · have hpow : q - p = (q - (p + 1)) + 1 := by omega
        rw [Base.upd_ne _ _ (by omega), hpow, Nat.pow_succ', Nat.div_div_eq_div_mul]
        by_cases hin : q < p + (size + 1)
        · rw [if_pos (by omega), if_pos (by omega)]
        · rw [if_neg (by omega), if_neg (by omega)]

/-- The bytes of a value and of its 32 bits are the same. -/
theorem byte_toUInt32 (v : Int) {i : Nat} (h : i < 4) :
    toUInt32 v / 256 ^ i % 256 = (v / 256 ^ i % 256).toNat := by
  unfold toUInt32
  have hi : i = 0 ∨ i = 1 ∨ i = 2 ∨ i = 3 := by omega
  rcases hi with rfl | rfl | rfl | rfl <;> omega

theorem IsSize.le {size : Nat} (h : IsSize size) : size ≤ 4 := by
  rcases h with rfl | rfl | rfl <;> decide

/-- **A write to main memory is a write to the array.** The frames are distinct, so that
no other address shows the bytes that have changed. -/
theorem image_putBytes {addr v : Int} {size p : Nat} {m' m'' : Machine} (hm : m.Injective)
    (hs : IsSize size) (h : m.translate addr size true = some (.ok (p, m')))
    (hmap : SameMap m m'')
    (hmem : m''.mainMemory = putBytes m.mainMemory p size (toUInt32 v)) :
    m''.image = m.image.store (toUInt32 addr) size v := by
  have hplace : ∀ {i : Nat}, i < size → _ := fun hi => place_of_translate hs h hi
  funext x
  unfold Flat.store
  by_cases hin : toUInt32 addr ≤ x ∧ x < toUInt32 addr + size
  · rw [if_pos hin]
    have hi : x - toUInt32 addr < size := by omega
    obtain ⟨hlt, hx⟩ := hplace hi
    rw [show toUInt32 addr + (x - toUInt32 addr) = x by omega] at hlt hx
    have hread := (hmap.place x false).trans (place_read hx)
    rw [image_of_place hlt hread, hmem, putBytes_at, if_pos (by omega), Nat.add_sub_cancel_left,
      byte_toUInt32 v (Nat.lt_of_lt_of_le hi hs.le)]
  · rw [if_neg hin]
    by_cases hlt : x < 4294967296
    swap
    · unfold image
      rw [if_neg hlt, if_neg hlt]
    cases hx : m.place x false with
    | none =>
        have hx' := (hmap.place x false).trans hx
        unfold image
        rw [hx, hx']
    | some q =>
        have hout : ¬ (p ≤ q ∧ q < p + size) := by
          intro hq
          -- otherwise the byte would be at two addresses
          obtain ⟨hlt', hq'⟩ := hplace (show q - p < size by omega)
          rw [show p + (q - p) = q by omega] at hq'
          have hsame := hm.place hx hq'
          rw [toUInt32_natCast hlt, toUInt32_natCast hlt'] at hsame
          omega
        rw [image_of_place hlt hx, image_of_place hlt ((hmap.place x false).trans hx), hmem,
          putBytes_at, if_neg hout]

/-- What is read from main memory is what the array holds. -/
theorem value_of_translate {addr : Int} {size p : Nat} (hs : IsSize size)
    (h : m.translate addr size false = some (.ok (p, m'))) :
    valueAt m.mainMemory p size % 2 ^ (8 * size) = m.image.value (toUInt32 addr) size := by
  have hbytes : bytesAt m.mainMemory (p + 0) size = m.image.value (toUInt32 addr + 0) size := by
    refine bytesAt_eq_value 0 ?_
    intro i _ hi
    obtain ⟨hlt, hx⟩ := place_of_translate hs h (show i < size by omega)
    exact (image_of_place hlt hx).symm
  rw [valueAt_mod m.mainMemory p hs]
  exact congrArg Nat.cast hbytes

theorem sameMap_trapped (m : Machine) (bad : BitVec 32) : SameMap m (m.trapped bad) :=
  ⟨rfl, fun _ => rfl, fun _ => rfl, fun _ => rfl⟩

/-- Whether a call is allowed: its address is aligned, and it is mapped for the purpose. -/
def Allows (m : Machine) : Access → Prop
  | .read addr size => addr % size = 0 ∧ (m.place addr false).isSome
  | .write addr size _ => addr % size = 0 ∧ (m.place addr true).isSome

theorem allows_iff (m : Machine) (addr : Int) {size : Nat} (hs : IsSize size) (w : Bool) :
    (∃ p m', m.translate addr size w = some (.ok (p, m'))) ↔
      addr % size = 0 ∧ (m.place addr w).isSome := by
  simp only [Option.isSome_iff_exists, place_iff, translate_ok_iff m addr hs]
  constructor
  · rintro ⟨p, m', h0, h1, h2, h3, h4, h5, _⟩
    exact ⟨h0, p, h1, h2, h3, h4, h5⟩
  · rintro ⟨h0, p, h1, h2, h3, h4, h5⟩
    exact ⟨p, _, h0, h1, h2, h3, h4, h5, rfl⟩

theorem Allows.congr (hmap : SameMap m m') (a : Access) : m'.Allows a ↔ m.Allows a := by
  cases a <;> simp only [Allows, hmap.place]

/-- What one call of `ReadMem` or `WriteMem` does, to the array and to the machine. -/
structure Called (m : Machine) (a : Access) (r : Reply) (m' : Machine) : Prop where
  step : Flat.Step m.image a r m'.image
  /-- The map is what it was. -/
  map : SameMap m m'
  /-- A call fails if and only if it is not allowed. -/
  failed : r = .failed ↔ ¬ m.Allows a
  /-- Then main memory is what it was. -/
  memory : r = .failed → m'.mainMemory = m.mainMemory

theorem called_failed {a : Access} (h : ¬ m.Allows a) (bad : BitVec 32) :
    Called m a .failed (m.trapped bad) where
  step := by
    rw [image_congr (sameMap_trapped m bad) rfl]
    exact .failed
  map := sameMap_trapped m bad
  failed := iff_of_true rfl h
  memory := fun _ => rfl

theorem read_refines {addr : Int} {size : Nat} (hs : IsSize size) :
    ∃ r m', m.call (.read addr size) = some (r, m') ∧ Called m (.read addr size) r m' := by
  have hallows := m.allows_iff addr hs false
  cases ht : m.translate addr size false with
  | none => exact absurd ht (m.translate_ne_none addr hs false)
  | some x =>
      cases x with
      | error e =>
          refine ⟨.failed, m.trapped (BitVec.ofInt 32 addr), ?_, called_failed ?_ _⟩
          · simp [call, readMem, ht, Except.map]
          · intro h
            obtain ⟨p, m', hp⟩ := hallows.mpr h
            rw [ht] at hp
            cases hp
      | ok y =>
          obtain ⟨p, m'⟩ := y
          have hm' := translate_machine ht
          have hmap : SameMap m m' := hm' ▸ sameMap_touch m _ _
          have hmem : m'.mainMemory = m.mainMemory := by rw [hm']; rfl
          refine ⟨.value (valueAt m'.mainMemory p size), m', ?_, ?_, hmap, ?_, ?_⟩
          · simp [call, readMem, ht, Except.map]
          · rw [image_congr hmap hmem, hmem]
            exact .read (value_of_translate hs ht)
          · exact iff_of_false (by simp) (not_not.mpr (hallows.mp ⟨p, m', ht⟩))
          · exact fun _ => hmem

theorem write_refines (hm : m.Injective) {addr v : Int} {size : Nat} (hs : IsSize size) :
    ∃ r m', m.call (.write addr size v) = some (r, m') ∧ Called m (.write addr size v) r m' := by
  have hallows := m.allows_iff addr hs true
  cases ht : m.translate addr size true with
  | none => exact absurd ht (m.translate_ne_none addr hs true)
  | some x =>
      cases x with
      | error e =>
          refine ⟨.failed, m.trapped (BitVec.ofInt 32 addr), ?_, called_failed ?_ _⟩
          · simp [call, writeMem, ht, Except.map]
          · intro h
            obtain ⟨p, m', hp⟩ := hallows.mpr h
            rw [ht] at hp
            cases hp
      | ok y =>
          obtain ⟨p, m'⟩ := y
          have hm' := translate_machine ht
          have htouch : SameMap m m' := hm' ▸ sameMap_touch m _ _
          have hmem : m'.mainMemory = m.mainMemory := by rw [hm']; rfl
          have hmap : SameMap m
              { m' with mainMemory := putBytes m'.mainMemory p size (toUInt32 v) } :=
            ⟨htouch.size, htouch.valid, htouch.readOnly, htouch.physicalPage⟩
          refine ⟨.done, { m' with mainMemory := putBytes m'.mainMemory p size (toUInt32 v) }, ?_,
            ?_, hmap, ?_, ?_⟩
          · simp [call, writeMem, ht, Except.map]
          · rw [image_putBytes (v := v) hm hs ht hmap (by rw [hmem])]
            exact .write
          · exact iff_of_false (by simp) (not_not.mpr (hallows.mp ⟨p, m', ht⟩))
          · exact fun h => absurd h (by simp)

/-- **One call is one step of the array.** -/
theorem call_refines (hm : m.Injective) {a : Access} (hs : IsSize a.size) :
    ∃ r m', m.call a = some (r, m') ∧ Called m a r m' := by
  cases a with
  | read addr size => exact read_refines hs
  | write addr size v => exact write_refines hm hs

/-! ## Every sequence of calls -/

/-- **The memory of a user program is an array of bytes.** Whatever the calls, each returns. Each
that is allowed does to the bytes of the program what it would do to an array; each that is not
fails, and that leaves every byte of main memory as it was. -/
theorem calls_flat (m : Machine) (h : m.Linear) (as : List Access)
    (hs : ∀ a ∈ as, IsSize a.size) :
    (∃ rs m', m.calls as = some (rs, m') ∧ Flat.Run m.image as rs m'.image ∧
      List.Forall₂ (fun a r => r = .failed ↔ ¬ m.Allows a) as rs) ∧
    ∀ before a after, as = before ++ a :: after →
      ∃ rs n r n', m.calls before = some (rs, n) ∧ n.call a = some (r, n') ∧
        (r = .failed → n'.mainMemory = n.mainMemory) := by
  induction as generalizing m with
  | nil =>
      refine ⟨⟨[], m, rfl, .nil, .nil⟩, ?_⟩
      intro before a after he
      exact absurd he (by simp)
  | cons a as ih =>
      obtain ⟨r, m', hcall, hc⟩ := call_refines h.injective (hs a (by simp))
      obtain ⟨⟨rs, m'', hcalls, hrun, hall⟩, hmem⟩ :=
        ih m' (h.congr hc.map) fun b hb => hs b (List.mem_cons_of_mem _ hb)
      refine ⟨⟨r :: rs, m'', ?_, .cons hc.step hrun, .cons hc.failed ?_⟩, ?_⟩
      · rw [calls, hcall, Option.bind_some, hcalls]
        rfl
      · simpa only [Allows.congr hc.map] using hall
      · intro before b after he
        cases before with
        | nil =>
            obtain ⟨rfl, rfl⟩ := List.cons.inj he
            exact ⟨[], m, r, m', rfl, hcall, hc.memory⟩
        | cons b' before =>
            obtain ⟨rfl, rfl⟩ := List.cons.inj he
            obtain ⟨rs', n, r', n', hbefore, hb, hkeep⟩ := hmem before b after rfl
            refine ⟨r :: rs', n, r', n', ?_, hb, hkeep⟩
            rw [calls, hcall, Option.bind_some, hbefore]
            rfl

/-- Two pages in the frames 5 and 3, in this order. The second is not to be written to. -/
def twoPages : Machine where
  registers := fun _ => 0#32
  mainMemory := fun _ => 0
  pageTable := fun v =>
    { virtualPage := v, physicalPage := if v = 0 then 5 else 3, valid := true, readOnly := v = 1,
      use := false, dirty := false }
  pageTableSize := 2

/-- Two bytes written as one half word are read back one by one. The bytes of the second page
stay, and a half word at an odd address is no half word. -/
def wordAndBytes : List Access :=
  [.write 510 2 513, .read 510 1, .read 511 1, .write 512 1 7, .read 512 1, .read 511 2]

theorem twoPages_linear : twoPages.Linear where
  inside := by
    intro v hv _
    show 0 ≤ (if v = 0 then (5 : Int) else 3) ∧ (if v = 0 then (5 : Int) else 3) < numPhysPages
    split <;> exact ⟨by decide, by decide⟩
  distinct := by
    intro v v' hv hv' _ _ he
    have hv2 : v < 2 := hv
    have hv2' : v' < 2 := hv'
    have he' : (if v = 0 then (5 : Int) else 3) = if v' = 0 then (5 : Int) else 3 := he
    split at he' <;> split at he' <;> omega

theorem twoPages_flat : (∀ a ∈ wordAndBytes, IsSize a.size) ∧
    (∃ rs m', twoPages.calls wordAndBytes = some (rs, m') ∧
      Flat.Run twoPages.image wordAndBytes rs m'.image ∧
      rs = [.done, .value 1, .value 2, .failed, .value 0, .failed]) := by
  have hs : ∀ a ∈ wordAndBytes, IsSize a.size := by
    unfold wordAndBytes IsSize
    decide
  obtain ⟨⟨rs, m', hcalls, hrun, _⟩, _⟩ := calls_flat twoPages twoPages_linear wordAndBytes hs
  refine ⟨hs, rs, m', hcalls, hrun, ?_⟩
  have hreplies : (twoPages.calls wordAndBytes).map Prod.fst =
      some [.done, .value 1, .value 2, .failed, .value 0, .failed] := by decide +kernel
  rw [hcalls] at hreplies
  exact Option.some.inj hreplies

end Machine

end Nachos
