import Nachos.Base.Slots
import Nachos.Proof.Directory
import Nachos.Proof.FileBytes

/-!
# The directory is a map

Whatever the history of `Add` and `Remove`, the directory behaves as a map from names to sectors
with room for `tableSize` names. Slots are used again as they are, with the name before in what
the new one leaves over, and a name of nine characters has no zero after it. What a slot holds is
therefore its view: the characters up to a zero or to the ninth. The invariant is that the
views in use are the pairs of the map in some order, and that no name comes twice.

The directory may be written to its file and read back at any time, into memory that held something
else.
-/

namespace Nachos.Filesys

open Base (upd upd_self upd_ne bind_eq_of_ok occupied mem_occupied occupied_congr occupied_fill
  occupied_length_lt occupied_length_eq putNew takeOut lookup_eq_none lookup_eq_some
  putNew_fst takeOut_fst lookup_takeOut_self lookup_takeOut_ne)

/-! ## Names -/

/-- A name of one to nine characters. -/
structure FileName where
  chars : List UInt8
  pos : 1 ≤ chars.length
  le : chars.length ≤ fileNameMaxLen
  noZero : (0 : UInt8) ∉ chars
  deriving DecidableEq

theorem FileName.ext_chars {a b : FileName} (h : a.chars = b.chars) : a = b := by
  obtain ⟨ca, _, _, _⟩ := a
  obtain ⟨cb, _, _, _⟩ := b
  subst h
  rfl

theorem cstrFrom_charAt {l : List UInt8} (h : (0 : UInt8) ∉ l) : ∀ (k i : Nat),
    cstrFrom (charAt l) k i = (l.drop i).take k := by
  intro k
  induction k with
  | zero => intro i; simp [cstrFrom]
  | succ k ih =>
      intro i
      rw [cstrFrom]
      by_cases hi : i < l.length
      · have hc : charAt l i = l.get ⟨i, hi⟩ := by simp [charAt, hi]
        have hne : charAt l i ≠ 0 := fun h0 => h (h0 ▸ hc ▸ List.get_mem l ⟨i, hi⟩)
        rw [if_neg hne, ih, List.drop_eq_getElem_cons hi, List.take_succ_cons, hc]
        rfl
      · have hc : charAt l i = 0 := by simp [charAt, Nat.le_of_not_lt hi]
        rw [if_pos hc, List.drop_eq_nil_of_le (Nat.le_of_not_lt hi), List.take_nil]

/-- A name is entered as it is. -/
theorem key_chars (name : FileName) : key name.chars = name.chars := by
  unfold key cstr
  rw [cstrFrom_charAt name.noZero, List.drop_zero, List.take_of_length_le name.le]

/-! ## The map -/

/-- The names of a directory, with their sectors. -/
abbrev Names := List (FileName × BitVec 32)

/-- `Find`, of the map. -/
def Names.find (t : Names) (name : FileName) : Int :=
  match t.lookup name with
  | some sector => sector.toInt
  | none => -1

/-- What is in a slot. -/
def DirectoryEntry.slot (e : DirectoryEntry) : Option (List UInt8 × BitVec 32) :=
  if e.view.1 then some (e.view.2.2, e.view.2.1) else none

namespace Directory

/-- What is in slot `i`. -/
def slot (dir : Directory) (i : Nat) : Option (List UInt8 × BitVec 32) := (dir.table i).slot

/-- **The directory holds the map.** -/
structure Holds (dir : Directory) (size : Nat) (t : Names) : Prop where
  room : dir.tableSize = size
  slots : (occupied dir.slot size).Perm (t.map fun x => (x.1.chars, x.2))
  once : (t.map Prod.fst).Nodup

variable {dir : Directory} {size : Nat} {t : Names}

theorem Holds.mem (h : dir.Holds size t) (name : FileName) (sector : BitVec 32) :
    (name, sector) ∈ t ↔ ∃ i, i < size ∧ dir.slot i = some (name.chars, sector) := by
  rw [← mem_occupied, h.slots.mem_iff, List.mem_map]
  constructor
  · intro hin
    exact ⟨_, hin, rfl⟩
  · rintro ⟨⟨name', sector'⟩, hin, he⟩
    injection he with hn hs
    have hname : name' = name := FileName.ext_chars hn
    have hsector : sector' = sector := hs
    rwa [hname, hsector] at hin

theorem slot_of_used {i : Nat} (h : (dir.table i).inUse = true) :
    dir.slot i = some (cstr (dir.table i).name fileNameMaxLen, (dir.table i).sector) := by
  unfold slot DirectoryEntry.slot DirectoryEntry.view
  rw [h]
  rfl

theorem slot_of_free {i : Nat} (h : (dir.table i).inUse = false) : dir.slot i = none := by
  unfold slot DirectoryEntry.slot DirectoryEntry.view
  rw [h]
  rfl

theorem slot_eq_some {i : Nat} {chars : List UInt8} {sector : BitVec 32}
    (h : dir.slot i = some (chars, sector)) : (dir.table i).inUse = true ∧
      cstr (dir.table i).name fileNameMaxLen = chars ∧ (dir.table i).sector = sector := by
  cases hu : (dir.table i).inUse with
  | false =>
      rw [slot_of_free hu] at h
      exact absurd h (by simp)
  | true =>
      rw [slot_of_used hu] at h
      injection h with h
      injection h with h1 h2
      exact ⟨rfl, h1, h2⟩

/-- **`FindIndex` looks in the map.** -/
theorem Holds.findIndex (h : dir.Holds size t) (name : FileName) :
    (dir.findIndex name.chars = -1 ∧ t.lookup name = none) ∨
      ∃ i, i < size ∧ dir.findIndex name.chars = (i : Int) ∧
        t.lookup name = some (dir.table i).sector ∧
        dir.slot i = some (name.chars, (dir.table i).sector) := by
  rcases findIndex_cases dir name.chars with ⟨he, hno⟩ | ⟨i, hi, he, hu, hn⟩
  · refine Or.inl ⟨he, lookup_eq_none.mpr fun sector hin => ?_⟩
    obtain ⟨i, hi, hs⟩ := (h.mem name sector).mp hin
    obtain ⟨hu, hn, _⟩ := slot_eq_some hs
    exact hno i (h.room ▸ hi) hu (hn.trans (key_chars name).symm)
  · rw [key_chars] at hn
    have hs := slot_of_used hu
    rw [hn] at hs
    exact Or.inr ⟨i, h.room ▸ hi, he,
      (lookup_eq_some h.once).mpr ((h.mem name _).mpr ⟨i, h.room ▸ hi, hs⟩), hs⟩

/-- **`Find`.** -/
theorem Holds.find (h : dir.Holds size t) (name : FileName) :
    dir.find name.chars = Names.find t name := by
  unfold Directory.find Names.find
  rcases h.findIndex name with ⟨he, hl⟩ | ⟨i, _, he, hl, _⟩
  · rw [he, hl]
    rfl
  · rw [he, hl]
    dsimp only
    rw [if_pos (by omega), Int.toNat_natCast]

theorem slot_enter (dir : Directory) (i : Nat) (name : FileName) (sector : BitVec 32) (j : Nat) :
    (dir.enter i name.chars sector.toInt).slot j =
      if j = i then some (name.chars, sector) else dir.slot j := by
  unfold slot DirectoryEntry.slot
  rw [enter_view]
  by_cases hj : j = i
  · rw [if_pos hj, if_pos hj, key_chars, BitVec.ofInt_toInt]
    rfl
  · rw [if_neg hj, if_neg hj]

theorem slot_drop (dir : Directory) (i j : Nat) :
    (dir.drop i).slot j = if j = i then none else dir.slot j := by
  unfold slot drop
  dsimp only
  by_cases hj : j = i
  · subst hj
    rw [if_pos rfl, upd_self]
    rfl
  · rw [if_neg hj, upd_ne _ _ hj]

/-- **`Add`** is what the map does, and leaves the directory alone when it fails. -/
theorem Holds.add (h : dir.Holds size t) (name : FileName) (sector : BitVec 32) :
    (dir.add name.chars sector.toInt).1 = (putNew size t name sector).1 ∧
    (dir.add name.chars sector.toInt).2.Holds size (putNew size t name sector).2 ∧
    ((dir.add name.chars sector.toInt).1 = false → (dir.add name.chars sector.toInt).2 = dir) := by
  have hlength : (occupied dir.slot size).length = t.length := by
    rw [h.slots.length_eq, List.length_map]
  unfold Directory.add putNew
  rcases h.findIndex name with ⟨he, hl⟩ | ⟨i, _, he, hl, _⟩
  · rw [he, if_neg (not_not.mpr rfl), h.room]
    have hcases := addFrom_cases dir name.chars sector.toInt size 0
    simp only [Nat.zero_add] at hcases
    rcases hcases with ⟨hadd, hall⟩ | ⟨i, hi, hfree, hadd⟩
    · -- every slot is in use
      have hfull : (occupied dir.slot size).length = size := occupied_length_eq fun i hi => by
        rw [slot_of_used (hall i hi)]
        rfl
      rw [hadd, if_neg (by omega)]
      exact ⟨rfl, h, fun _ => rfl⟩
    · have hslot := slot_of_free hfree
      have hroom := occupied_length_lt hi hslot
      rw [hadd, if_pos ⟨hl, by omega⟩]
      refine ⟨rfl, ⟨h.room, ?_, ?_⟩, fun hf => absurd hf (by simp)⟩
      · refine (occupied_fill hi hslot ?_ fun j hj => ?_).trans (h.slots.cons _)
        · rw [slot_enter, if_pos rfl]
        · rw [slot_enter, if_neg hj]
      · rw [List.map_cons, List.nodup_cons]
        refine ⟨?_, h.once⟩
        intro hin
        obtain ⟨⟨name', sector'⟩, hx, rfl⟩ := List.mem_map.mp hin
        exact lookup_eq_none.mp hl _ hx
  · rw [he, hl, if_pos (by omega), if_neg (by simp)]
    exact ⟨rfl, h, fun _ => rfl⟩

/-- The pairs of a map apart from one. -/
theorem filter_perm {name : FileName} {sector : BitVec 32} : ∀ {t : Names},
    (t.map Prod.fst).Nodup → (name, sector) ∈ t →
    t.Perm ((name, sector) :: t.filter fun x => x.1 ≠ name) := by
  intro t
  induction t with
  | nil => intro _ h; exact absurd h List.not_mem_nil
  | cons x t ih =>
      intro hn h
      rw [List.map_cons, List.nodup_cons] at hn
      rcases List.mem_cons.mp h with rfl | h
      · -- the name does not come again
        have hrest : (t.filter fun x => decide (x.1 ≠ name)) = t := by
          refine List.filter_eq_self.mpr fun y hy => decide_eq_true fun he => hn.1 ?_
          exact List.mem_map.mpr ⟨y, hy, he⟩
        rw [List.filter_cons_of_neg (by simp), hrest]
      · have hne : x.1 ≠ name := fun he => hn.1 (he ▸ List.mem_map.mpr ⟨_, h, rfl⟩)
        rw [List.filter_cons_of_pos (by simpa using hne)]
        exact ((ih hn.2 h).cons x).trans (List.Perm.swap _ _ _)

/-- **`Remove`** is what the map does, and leaves the directory alone when it fails. -/
theorem Holds.remove (h : dir.Holds size t) (name : FileName) :
    (dir.remove name.chars).1 = (takeOut t name).1 ∧
    (dir.remove name.chars).2.Holds size (takeOut t name).2 ∧
    ((dir.remove name.chars).1 = false → (dir.remove name.chars).2 = dir) := by
  unfold Directory.remove takeOut
  rcases h.findIndex name with ⟨he, hl⟩ | ⟨i, hi, he, hl, hslot⟩
  · rw [he, hl, if_pos rfl, if_neg (by simp)]
    exact ⟨rfl, h, fun _ => rfl⟩
  · rw [he, hl, if_neg (by omega), if_pos Option.isSome_some, Int.toNat_natCast]
    refine ⟨rfl, ⟨h.room, ?_, ?_⟩, fun hf => absurd hf (by simp)⟩
    · have hin := (lookup_eq_some h.once).mp hl
      have hfill : (occupied dir.slot size).Perm
          ((name.chars, (dir.table i).sector) :: occupied (dir.drop i).slot size) := by
        refine occupied_fill hi ?_ hslot fun j hj => ?_
        · rw [slot_drop, if_pos rfl]
        · rw [slot_drop, if_neg hj]
      have hmap := (filter_perm h.once hin).map fun x => (x.1.chars, x.2)
      exact (hfill.symm.trans (h.slots.trans hmap)).cons_inv
    · exact h.once.sublist (List.filter_sublist.map _)

/-- The empty directory. -/
theorem holds_new (size : Nat) (fresh : Nat → DirectoryEntry) : (new size fresh).Holds size [] := by
  refine ⟨rfl, ?_, List.nodup_nil⟩
  have hempty : occupied (new size fresh).slot size = [] := by
    refine List.eq_nil_iff_forall_not_mem.mpr fun x hx => ?_
    obtain ⟨i, _, hi⟩ := mem_occupied.mp hx
    rw [slot_of_free rfl] at hi
    exact absurd hi (by simp)
  rw [hempty]
  rfl

theorem Holds.of_views (h : dir.Holds size t) {dir' : Directory} (hsize : dir'.tableSize = size)
    (hviews : ∀ i, i < size → (dir'.table i).view = (dir.table i).view) : dir'.Holds size t := by
  refine ⟨hsize, ?_, h.once⟩
  have hslots : ∀ i, i < size → dir'.slot i = dir.slot i := fun i hi => by
    unfold slot DirectoryEntry.slot
    rw [hviews i hi]
  rw [occupied_congr hslots]
  exact h.slots

/-- **Written back and fetched again.** -/
theorem Holds.reload (h : dir.Holds size t) {into : Directory} (hinto : into.tableSize = size)
    {file : OpenFile} {len : Nat} (hfile : file.hdr.Sound len) (hlen : size * entrySize ≤ len)
    (buf : Nat → Nat → UInt8) (d : Disk) :
    ∃ dir' d₁, dir.writeBack file (buf 0) (buf 1) (buf 2) d = .ok () d₁ ∧
      into.fetchFrom file (buf 3) d₁ = .ok dir' d₁ ∧ dir'.Holds size t := by
  obtain ⟨d₁, hwrite, hwritten, _⟩ :=
    dir.writeBack_views hfile (by rw [h.room]; exact hlen) (buf 0) (buf 1) (buf 2) d
  obtain ⟨dir', hfetch, hsize, hfetched⟩ :=
    into.fetchFrom_views hfile (by rw [hinto]; exact hlen) (buf 3) d₁
  refine ⟨dir', d₁, hwrite, hfetch, h.of_views (hsize.trans hinto) fun i hi => ?_⟩
  rw [hfetched i (by omega), hwritten i (by rw [h.room]; exact hi)]

end Directory

/-! ## Histories -/

/-- What is done to a directory. It is fetched into the table that it came from, or into a new
one, whose entries are left as they are found. -/
inductive DirCall
  | add (name : FileName) (sector : BitVec 32)
  | remove (name : FileName)
  | reload (fresh : Option (Nat → DirectoryEntry)) (buf : Nat → Nat → UInt8)

/-- Where the directory is fetched. -/
def Directory.into (dir : Directory) : Option (Nat → DirectoryEntry) → Directory
  | none => dir
  | some fresh => new dir.tableSize fresh

/-- A step, of the code. -/
def Directory.exec (dir : Directory) (file : OpenFile) : DirCall → DiskM (Bool × Directory)
  | .add name sector => pure (dir.add name.chars sector.toInt)
  | .remove name => pure (dir.remove name.chars)
  | .reload fresh buf => do
      dir.writeBack file (buf 0) (buf 1) (buf 2)
      let dir' ← (dir.into fresh).fetchFrom file (buf 3)
      return (true, dir')

/-- A history, with the results of its steps. -/
def Directory.execAll (file : OpenFile) : Directory → List DirCall → DiskM (List Bool × Directory)
  | dir, [] => pure ([], dir)
  | dir, c :: cs => do
      let r ← dir.exec file c
      let rs ← execAll file r.2 cs
      return (r.1 :: rs.1, rs.2)

/-- A step, of the map. -/
def Names.exec (size : Nat) (t : Names) : DirCall → Bool × Names
  | .add name sector => putNew size t name sector
  | .remove name => takeOut t name
  | .reload _ _ => (true, t)

/-- A history, of the map. -/
def Names.execAll (size : Nat) : Names → List DirCall → List Bool × Names
  | t, [] => ([], t)
  | t, c :: cs =>
      let r := Names.exec size t c
      let rs := execAll size r.2 cs
      (r.1 :: rs.1, rs.2)

/-- The step reads the directory back from its file. -/
def DirCall.reloads : DirCall → Bool
  | .reload _ _ => true
  | _ => false

/-- One step. The file is only needed to reload. -/
theorem Directory.Holds.exec {dir : Directory} {size : Nat} {t : Names} (h : dir.Holds size t)
    {file : OpenFile} {len : Nat} {c : DirCall}
    (hfile : c.reloads = true → file.hdr.Sound len ∧ size * entrySize ≤ len) (d : Disk) :
    ∃ dir' d', dir.exec file c d = .ok ((Names.exec size t c).1, dir') d' ∧
      dir'.Holds size (Names.exec size t c).2 := by
  cases c with
  | add name sector =>
      obtain ⟨hresult, hafter, _⟩ := h.add name sector
      refine ⟨_, d, ?_, hafter⟩
      unfold Directory.exec Names.exec
      rw [← hresult]
      rfl
  | remove name =>
      obtain ⟨hresult, hafter, _⟩ := h.remove name
      refine ⟨_, d, ?_, hafter⟩
      unfold Directory.exec Names.exec
      rw [← hresult]
      rfl
  | reload fresh buf =>
      obtain ⟨hsound, hlen⟩ := hfile rfl
      have hinto : (dir.into fresh).tableSize = size := by
        cases fresh <;> exact h.room
      obtain ⟨dir', d₁, hwrite, hfetch, hafter⟩ := h.reload hinto hsound hlen buf d
      refine ⟨dir', d₁, ?_, hafter⟩
      rw [Directory.exec, bind_eq_of_ok hwrite, bind_eq_of_ok hfetch]
      rfl

/-- Every history. -/
theorem Directory.Holds.execAll {file : OpenFile} {len size : Nat} : ∀ (calls : List DirCall)
    {dir : Directory} {t : Names} (d : Disk), dir.Holds size t →
    (∀ c ∈ calls, c.reloads = true → file.hdr.Sound len ∧ size * entrySize ≤ len) →
    ∃ dir' d', dir.execAll file calls d = .ok ((Names.execAll size t calls).1, dir') d' ∧
      dir'.Holds size (Names.execAll size t calls).2 := by
  intro calls
  induction calls with
  | nil => intro dir t d h _; exact ⟨dir, d, rfl, h⟩
  | cons c cs ih =>
      intro dir t d h hfile
      obtain ⟨dir₁, d₁, hrun₁, h₁⟩ := h.exec (hfile c List.mem_cons_self) d
      obtain ⟨dir', d', hrun', h'⟩ := ih d₁ h₁ fun c hc => hfile c (List.mem_cons_of_mem _ hc)
      refine ⟨dir', d', ?_, h'⟩
      rw [Directory.execAll, bind_eq_of_ok hrun₁, bind_eq_of_ok hrun']
      rfl

/-- What is seen of a directory that holds the map. -/
structure Directory.IsMap (dir : Directory) (size : Nat) (t : Names) : Prop where
  once : (t.map Prod.fst).Nodup
  found : ∀ name : FileName, dir.find name.chars = Names.find t name
  added : ∀ (name : FileName) (sector : BitVec 32), (dir.add name.chars sector.toInt).1 = true ↔
    t.lookup name = none ∧ t.length < size
  full : ∀ (name : FileName) (sector : BitVec 32), (dir.add name.chars sector.toInt).1 = false →
    (dir.add name.chars sector.toInt).2 = dir
  removed : ∀ name : FileName, (dir.remove name.chars).1 = true ↔ (t.lookup name).isSome = true
  absent : ∀ name : FileName, (dir.remove name.chars).1 = false → (dir.remove name.chars).2 = dir
  gone : ∀ name : FileName, (dir.remove name.chars).2.find name.chars = -1
  others : ∀ name other : FileName, other ≠ name →
    (dir.remove name.chars).2.find other.chars = dir.find other.chars

theorem Directory.Holds.isMap {dir : Directory} {size : Nat} {t : Names} (h : dir.Holds size t) :
    dir.IsMap size t where
  once := h.once
  found := h.find
  added name sector := by
    rw [(h.add name sector).1, putNew_fst]
  full name sector := (h.add name sector).2.2
  removed name := by
    rw [(h.remove name).1, takeOut_fst]
  absent name := (h.remove name).2.2
  gone name := by
    rw [(h.remove name).2.1.find name]
    unfold Names.find
    rw [lookup_takeOut_self]
  others name other hne := by
    rw [(h.remove name).2.1.find other, h.find other]
    unfold Names.find
    rw [lookup_takeOut_ne hne]

/-- **Every history of a directory is the history of the map**, step by step, and the directory
answers as the map does. -/
theorem directory_is_map (size : Nat) (fresh : Nat → DirectoryEntry) (file : OpenFile) (len : Nat)
    (calls : List DirCall)
    (hfile : ∀ c ∈ calls, c.reloads = true → file.hdr.Sound len ∧ size * entrySize ≤ len)
    (d : Disk) :
    ∃ dir d', (Directory.new size fresh).execAll file calls d =
        .ok ((Names.execAll size [] calls).1, dir) d' ∧
      dir.IsMap size (Names.execAll size [] calls).2 := by
  obtain ⟨dir, d', hrun, h⟩ := (Directory.holds_new size fresh).execAll calls d hfile
  exact ⟨dir, d', hrun, h.isMap⟩

/-- A name that leaves no room for a zero. -/
def nineChars : FileName where
  chars := [110, 105, 110, 101, 99, 104, 97, 114, 115]
  pos := by decide
  le := by decide
  noZero := by decide

/-- It is entered, found after a reload, not entered twice, and taken out. -/
theorem directory_is_map_nineChars :
    ∃ dir d', (Directory.new 10 fun _ => ⟨true, 0, fun _ => 1, fun _ => 0⟩).execAll twoSectors
        [.add nineChars 7, .reload (some fun _ => ⟨true, 0, fun _ => 1, fun _ => 0⟩) fun _ _ => 5,
          .add nineChars 8, .remove nineChars, .remove nineChars] blankDisk =
        .ok ([true, true, false, true, false], dir) d' ∧
      dir.IsMap 10 [] :=
  directory_is_map 10 (fun _ => ⟨true, 0, fun _ => 1, fun _ => 0⟩) twoSectors 200
    [.add nineChars 7, .reload (some fun _ => ⟨true, 0, fun _ => 1, fun _ => 0⟩) fun _ _ => 5,
      .add nineChars 8, .remove nineChars, .remove nineChars]
    (fun _ _ _ => ⟨twoSectors_sound, by decide⟩) blankDisk

end Nachos.Filesys
