import Nachos.Threads.STable
import Mathlib.Data.Set.Card

/-!
# The table of named semaphores is a map from names to semaphores

`Create`, `Wait` and `Signal` each scan ten slots, and what they find is decided by
a bitmap, an array of pointers and a comparison of strings. `NamedSems` says what
the three scans are for, without slots: a partial map from names to semaphores with
at most ten names in it. Every run of the table is, call by call and result by
result, a run of that map.

The scans agree because two facts survive every call: a bit is set exactly when its
slot holds a semaphore, and no name is in two slots.
-/

namespace Nachos

open Base (upd upd_self upd_ne upd_apply)

/-! ## The map -/

/-- Where a thread is, by the name it waits on. -/
inductive NamedPC where
  /-- Outside, with what its last call returned. -/
  | out (ret : Option Int)
  /-- `Wait`, in the loop of `P` of the semaphore of that name. -/
  | waiting (name : CString)
  deriving DecidableEq

/-- A partial map from names to semaphores, and its users. -/
structure NamedSems where
  /-- The semaphore of each name. -/
  sem : CString → Option Semaphore
  /-- Where each thread is. -/
  pc : Nat → NamedPC

namespace NamedSems

/-- A thread returns from a call. -/
def leave (m : NamedSems) (t : Nat) (ret : Int) : NamedSems :=
  { m with pc := upd m.pc t (.out (some ret)) }

/-- The semaphore of a name is replaced, or added. -/
def put (m : NamedSems) (name : CString) (q : Semaphore) : NamedSems :=
  { m with sem := upd m.sem name (some q) }

/-- There are names to spare. -/
def Room (m : NamedSems) : Prop := Set.ncard {n | (m.sem n).isSome = true} < maxSemaphore

open Classical in
/-- A new name is added while there is room; anything else is refused. -/
noncomputable def create (m : NamedSems) (t : Nat) (name : CString) (init : Int) : NamedSems :=
  if m.sem name = none ∧ m.Room then (m.put name (Semaphore.new init)).leave t 0 else m.leave t (-1)

/-- An unknown name is refused; otherwise the thread enters `P` of that semaphore. -/
def wait (m : NamedSems) (t : Nat) (name : CString) : NamedSems :=
  match m.sem name with
  | none => m.leave t (-1)
  | some _ => { m with pc := upd m.pc t (.waiting name) }

/-- An unknown name is refused; otherwise that semaphore, and no other, is signalled. -/
def signal (m : NamedSems) (t : Nat) (name : CString) : NamedSems :=
  match m.sem name with
  | none => m.leave t (-1)
  | some q => (m.put name q.V.1).leave t 0

/-- One pass of the loop of `P` of the semaphore of that name, and of no other. -/
def pass (m : NamedSems) (t : Nat) (name : CString) : Option NamedSems :=
  match m.sem name with
  | none => none
  | some q =>
      if t ∈ q.queue then none
      else if (q.P t).2 then some ((m.put name (q.P t).1).leave t 0)
      else some (m.put name (q.P t).1)

/-- One step of thread `l.1`. -/
noncomputable def step (m : NamedSems) (l : Nat × STableCall) : Option NamedSems :=
  match m.pc l.1, l.2 with
  | .out _, .create name init => some (m.create l.1 name init)
  | .out _, .wait name => some (m.wait l.1 name)
  | .out _, .signal name => some (m.signal l.1 name)
  | .waiting name, .go => m.pass l.1 name
  | _, _ => none

/-- No name, and nobody inside. -/
def start : NamedSems := ⟨fun _ => none, fun _ => .out none⟩

/-- The runs of the map, with any number of threads. -/
noncomputable def sys : Base.System NamedSems (Nat × STableCall) where
  init := fun m => m = start
  step := step

end NamedSems

/-! ## The table as a map -/

namespace STable

/-- What is read of the slots that are in use. -/
def nameAt (t : STable) (i : Nat) : CString := ((t.semTab i).map Sem.name).getD []

/-- The semaphore the scans find under a name. -/
def lookup (t : STable) (name : CString) : Option Semaphore := (t.find name).map t.semAt

/-- What every call keeps. -/
structure Named (t : STable) : Prop where
  /-- A bit is set exactly when its slot is not `NULL`. -/
  bits : ∀ i, i < maxSemaphore → (t.bm.test i = true ↔ (t.semTab i).isSome = true)
  /-- No name is in two slots. -/
  distinct : ∀ i j, i < maxSemaphore → j < maxSemaphore → t.bm.test i = true →
    t.bm.test j = true → t.nameAt i = t.nameAt j → i = j

theorem named_new : Named new where
  bits := by intro i _; simp [new]
  distinct := by intro i j _ _ hi; simp [new] at hi

/-- A slot in use has a name. -/
theorem map_name {t : STable} {i : Nat} (h : t.bm.test i = true) :
    (t.semTab i).map Sem.name = some (t.nameAt i) := by
  obtain ⟨s, hs⟩ := Option.isSome_iff_exists.mp (t.filled i h)
  rw [nameAt, hs]
  rfl

theorem find_some {t : STable} {name : CString} {i : Nat} (h : t.find name = some i) :
    i < maxSemaphore ∧ t.bm.test i = true ∧ t.nameAt i = name := by
  have hp := List.find?_some h
  rw [Bool.and_eq_true] at hp
  have hn := of_decide_eq_true hp.2
  rw [map_name hp.1] at hn
  exact ⟨List.mem_range.mp (List.mem_of_find?_eq_some h), hp.1, Option.some.inj hn⟩

theorem find_none {t : STable} {name : CString} (h : t.find name = none) {i : Nat}
    (hi : i < maxSemaphore) (hb : t.bm.test i = true) : t.nameAt i ≠ name := by
  have hp := List.find?_eq_none.mp h i (List.mem_range.mpr hi)
  intro hn
  rw [map_name hb, hn, hb] at hp
  simp at hp

/-- **The scan finds the slot of a name, whichever it is.** -/
theorem find_eq_some_iff {t : STable} (h : t.Named) {name : CString} {i : Nat} :
    t.find name = some i ↔ i < maxSemaphore ∧ t.bm.test i = true ∧ t.nameAt i = name := by
  refine ⟨find_some, ?_⟩
  rintro ⟨hi, hb, hn⟩
  cases hf : t.find name with
  | none => exact absurd hn (find_none hf hi hb)
  | some j =>
      -- the scan stops at the first slot of that name, and there is only one
      obtain ⟨hj, hbj, hnj⟩ := find_some hf
      rw [h.distinct i j hi hj hb hbj (hn.trans hnj.symm)]

/-! ### Replacing a semaphore -/

theorem nameAt_setSem (t : STable) (i : Nat) (q : Semaphore) (j : Nat) :
    (t.setSem i q).nameAt j = t.nameAt j := by
  rw [nameAt, nameAt, setSem]
  by_cases hj : j = i
  · subst hj
    simp only [upd_self, Option.map_map]
    rfl
  · simp only [upd_ne _ _ hj]

theorem semAt_setSem {t : STable} {i : Nat} (hb : t.bm.test i = true) (q : Semaphore) (j : Nat) :
    (t.setSem i q).semAt j = if j = i then q else t.semAt j := by
  rw [semAt, semAt, setSem]
  by_cases hj : j = i
  · obtain ⟨s, hs⟩ := Option.isSome_iff_exists.mp (t.filled i hb)
    subst hj
    simp [hs]
  · simp only [upd_ne _ _ hj, if_neg hj]

theorem isSome_setSem (t : STable) (i : Nat) (q : Semaphore) (j : Nat) :
    ((t.setSem i q).semTab j).isSome = (t.semTab j).isSome := by
  rw [setSem]
  by_cases hj : j = i
  · subst hj; simp
  · simp only [upd_ne _ _ hj]

theorem named_setSem {t : STable} (h : t.Named) (i : Nat) (q : Semaphore) :
    (t.setSem i q).Named where
  bits := by
    intro j hj
    rw [isSome_setSem]
    exact h.bits j hj
  distinct := by
    intro j k hj hk hbj hbk hn
    rw [nameAt_setSem, nameAt_setSem] at hn
    exact h.distinct j k hj hk hbj hbk hn

theorem find_setSem {t : STable} (h : t.Named) (i : Nat) (q : Semaphore) (name : CString) :
    (t.setSem i q).find name = t.find name := by
  refine Option.ext fun j => ?_
  rw [find_eq_some_iff (named_setSem h i q), find_eq_some_iff h, nameAt_setSem]
  rfl

/-- **Only the name of slot `i` has another semaphore.** -/
theorem lookup_setSem {t : STable} (h : t.Named) {i : Nat} (hi : i < maxSemaphore)
    (hb : t.bm.test i = true) (q : Semaphore) :
    (t.setSem i q).lookup = upd t.lookup (t.nameAt i) (some q) := by
  funext name
  rw [lookup, find_setSem h, upd_apply]
  by_cases hn : name = t.nameAt i
  · rw [if_pos hn, (find_eq_some_iff h).mpr ⟨hi, hb, hn.symm⟩, Option.map_some, semAt_setSem hb,
      if_pos rfl]
  · rw [if_neg hn, lookup]
    cases hf : t.find name with
    | none => rfl
    | some j =>
        have hne : j ≠ i := fun e => hn ((find_some hf).2.2.symm.trans (by rw [e]))
        rw [Option.map_some, Option.map_some, semAt_setSem hb, if_neg hne]

/-! ### Adding a semaphore -/

section Put

variable {t : STable} {name : CString} {init : Int} {j : Nat} {js : List Nat}

theorem bm_put (hc : t.bm.clearBits = j :: js) : (t.put name init).bm = t.bm.mark j := by
  show t.bm.findAndSet.2 = _
  rw [Bitmap.findAndSet_eq, hc]

theorem semTab_put (hc : t.bm.clearBits = j :: js) :
    (t.put name init).semTab = upd t.semTab j (some ⟨name, Semaphore.new init⟩) := by
  show upd t.semTab t.bm.findAndSet.1.toNat _ = _
  rw [Bitmap.findAndSet_eq, hc]
  rfl

/-- The slot that is handed out was free. -/
theorem free_slot (hc : t.bm.clearBits = j :: js) : j < maxSemaphore ∧ t.bm.test j = false := by
  have hj := Bitmap.mem_clearBits.mp (hc ▸ List.mem_cons_self)
  exact ⟨t.slots ▸ hj.1, hj.2⟩

theorem test_put (hc : t.bm.clearBits = j :: js) (i : Nat) :
    (t.put name init).bm.test i = true ↔ i = j ∨ t.bm.test i = true := by
  rw [bm_put hc, Bitmap.test_mark (t.slots.symm ▸ (free_slot hc).1), Bool.or_eq_true,
    decide_eq_true_iff]

theorem nameAt_put (hc : t.bm.clearBits = j :: js) (i : Nat) :
    (t.put name init).nameAt i = if i = j then name else t.nameAt i := by
  rw [nameAt, nameAt, semTab_put hc, upd_apply]
  split <;> rfl

theorem semAt_put (hc : t.bm.clearBits = j :: js) (i : Nat) :
    (t.put name init).semAt i = if i = j then Semaphore.new init else t.semAt i := by
  rw [semAt, semAt, semTab_put hc, upd_apply]
  split <;> rfl

theorem named_put (h : t.Named) (hf : t.find name = none) (hc : t.bm.clearBits = j :: js) :
    (t.put name init).Named where
  bits := by
    intro i hi
    rw [test_put hc, semTab_put hc, upd_apply]
    by_cases hij : i = j
    · simp [hij]
    · simp only [hij, false_or, if_false]
      exact h.bits i hi
  distinct := by
    intro i k hi hk hbi hbk hn
    rw [test_put hc] at hbi hbk
    rw [nameAt_put hc, nameAt_put hc] at hn
    by_cases hij : i = j <;> by_cases hkj : k = j
    · rw [hij, hkj]
    · -- the new name was in no slot
      rw [if_pos hij, if_neg hkj] at hn
      exact absurd hn.symm (find_none hf hk (hbk.resolve_left hkj))
    · rw [if_neg hij, if_pos hkj] at hn
      exact absurd hn (find_none hf hi (hbi.resolve_left hij))
    · rw [if_neg hij, if_neg hkj] at hn
      exact h.distinct i k hi hk (hbi.resolve_left hij) (hbk.resolve_left hkj) hn

/-- **Only the new name is added.** -/
theorem lookup_put (h : t.Named) (hf : t.find name = none) (hc : t.bm.clearBits = j :: js) :
    (t.put name init).lookup = upd t.lookup name (some (Semaphore.new init)) := by
  have hp : (t.put name init).Named := named_put h hf hc
  obtain ⟨hj, hfree⟩ := free_slot hc
  funext other
  rw [upd_apply, lookup, lookup]
  by_cases hn : other = name
  · have hfind : (t.put name init).find other = some j :=
      (find_eq_some_iff hp).mpr ⟨hj, (test_put hc j).mpr (Or.inl rfl), by
        rw [nameAt_put hc, if_pos rfl, hn]⟩
    rw [if_pos hn, hfind, Option.map_some, semAt_put hc, if_pos rfl]
  · rw [if_neg hn]
    -- the slot that was taken had no name, and has another one now
    have hfind : (t.put name init).find other = t.find other := by
      refine Option.ext fun i => ?_
      rw [find_eq_some_iff hp, find_eq_some_iff h, test_put hc, nameAt_put hc]
      by_cases hij : i = j
      · subst hij
        simp only [true_or, if_true, true_and, hfree, Bool.false_eq_true, false_and, and_false,
          iff_false, not_and]
        exact fun _ e => hn e.symm
      · simp [hij]
    rw [hfind]
    cases hq : t.find other with
    | none => rfl
    | some i =>
        have hne : i ≠ j := fun e => by
          have hb := (find_some hq).2.1
          rw [e, hfree] at hb
          exact absurd hb (by simp)
        rw [Option.map_some, Option.map_some, semAt_put hc, if_neg hne]

end Put

/-! ### Counting names -/

theorem isSome_lookup {t : STable} (h : t.Named) (name : CString) :
    (t.lookup name).isSome = true ↔
      ∃ i, i < maxSemaphore ∧ t.bm.test i = true ∧ t.nameAt i = name := by
  rw [lookup, Option.isSome_map, Option.isSome_iff_exists]
  exact exists_congr fun i => find_eq_some_iff h

/-- **There are as many names as bits set.** -/
theorem ncard_names {t : STable} (h : t.Named) :
    Set.ncard {n | (t.lookup n).isSome = true} + t.bm.clearBits.length = maxSemaphore := by
  have hset : {n | (t.lookup n).isSome = true} =
      (((Finset.range maxSemaphore).filter fun i => t.bm.test i = true).image t.nameAt :
        Set _) := by
    ext name
    simp only [Set.mem_ofPred_eq, isSome_lookup h, Finset.coe_image, Finset.coe_filter,
      Finset.mem_range, Set.mem_image, and_assoc]
  have hinj : Set.InjOn t.nameAt
      ((Finset.range maxSemaphore).filter fun i => t.bm.test i = true : Finset Nat) := by
    intro i hi j hj hij
    simp only [Finset.coe_filter, Finset.mem_range, Set.mem_ofPred_eq] at hi hj
    exact h.distinct i j hi.1 hj.1 hi.2 hj.2 hij
  have hclear : t.bm.clearBits.length
      = ((Finset.range maxSemaphore).filter fun i => ¬ t.bm.test i = true).card := by
    rw [← List.toFinset_card_of_nodup t.bm.clearBits_nodup]
    congr 1
    ext i
    rw [List.mem_toFinset, Bitmap.mem_clearBits, t.slots, Finset.mem_filter, Finset.mem_range,
      Bool.not_eq_true]
  rw [hset, Set.ncard_coe_finset, Finset.card_image_of_injOn hinj, hclear,
    Finset.card_filter_add_card_filter_not, Finset.card_range]

theorem room_iff {t : STable} (h : t.Named) :
    Set.ncard {n | (t.lookup n).isSome = true} < maxSemaphore ↔ ¬ t.bm.findAndSet.1 < 0 := by
  have hn := ncard_names h
  rw [Bitmap.findAndSet_eq]
  cases hc : t.bm.clearBits with
  | nil => rw [hc] at hn; simp at hn ⊢; omega
  | cons j js => rw [hc] at hn; simp at hn ⊢; omega

end STable

/-! ## Every run of the table is a run of the map -/

namespace STableState

/-- Where a thread is, by the name of the slot it waits on. -/
def namedPC (t : STable) : STablePC → NamedPC
  | .out ret => .out ret
  | .waiting i => .waiting (t.nameAt i)

/-- The map that a state of the table stands for. -/
def named (s : STableState) : NamedSems := ⟨s.tab.lookup, fun t => namedPC s.tab (s.pc t)⟩

/-- What every step keeps: the table is well named, and whoever waits waits on a slot in use. -/
structure Inv (s : STableState) : Prop where
  table : s.tab.Named
  waits : ∀ t i, s.pc t = .waiting i → i < maxSemaphore ∧ s.tab.bm.test i = true

/-- No semaphore, and nobody inside. -/
def start : STableState := ⟨STable.new, fun _ => .out none⟩

theorem inv_start : Inv start where
  table := STable.named_new
  waits := by intro t i h; exact absurd h (by simp [start])

theorem named_start : named start = NamedSems.start := by
  have hf : STable.new.lookup = fun _ => none := by
    funext name
    refine Option.map_eq_none_iff.mpr (List.find?_eq_none.mpr ?_)
    intro i _
    simp [STable.new]
  simp only [named, start, NamedSems.start, namedPC, hf]

/-- Waiting threads are not moved by a return, whatever it did to free slots. -/
theorem inv_leave {s : STableState} {t : Nat} {r : Int × STable} (h : Inv s) (hn : r.2.Named)
    (hb : ∀ i, s.tab.bm.test i = true → r.2.bm.test i = true) : Inv (s.leave t r) where
  table := hn
  waits := by
    intro u i hu
    simp only [leave, upd_apply] at hu
    split at hu
    · exact absurd hu (by simp)
    · obtain ⟨hi, hbi⟩ := h.waits u i hu
      exact ⟨hi, hb i hbi⟩

/-- What a return does to the map. -/
theorem named_leave {s : STableState} {t : Nat} {r : Int × STable} (h : Inv s)
    (hnm : ∀ i, s.tab.bm.test i = true → r.2.nameAt i = s.tab.nameAt i) :
    (s.leave t r).named = NamedSems.leave { s.named with sem := r.2.lookup } t r.1 := by
  simp only [named, leave, NamedSems.leave, NamedSems.mk.injEq, true_and]
  funext u
  simp only [upd_apply]
  split
  · rfl
  · cases hu : s.pc u with
    | out ret => rfl
    | waiting i =>
        simp only [namedPC]
        rw [hnm i (h.waits u i hu).2]

theorem leave_same {s : STableState} (h : Inv s) (t : Nat) (ret : Int) :
    Inv (s.leave t (ret, s.tab)) ∧ (s.leave t (ret, s.tab)).named = s.named.leave t ret :=
  ⟨inv_leave h h.table fun _ hi => hi, named_leave h fun _ _ => rfl⟩

/-- **`Create` adds the name, or refuses it, as the map does.** -/
theorem create_named {s : STableState} (h : Inv s) (t : Nat) (name : CString) (init : Int) :
    Inv (s.leave t (s.tab.create name init)) ∧
      (s.leave t (s.tab.create name init)).named = s.named.create t name init := by
  have hroom : s.named.Room ↔ ¬ s.tab.bm.findAndSet.1 < 0 := STable.room_iff h.table
  have hlook : s.named.sem name = (s.tab.find name).map s.tab.semAt := rfl
  rw [STable.create, NamedSems.create, hroom, hlook]
  cases hf : s.tab.find name with
  | some i => simpa using leave_same h t (-1)
  | none =>
      by_cases hfull : s.tab.bm.findAndSet.1 < 0
      · simpa [hfull] using leave_same h t (-1)
      · simp only [hfull, Option.map_none, not_false_eq_true, and_self, if_true, if_false]
        cases hc : s.tab.bm.clearBits with
        | nil => exact absurd (by rw [Bitmap.findAndSet_eq, hc]; exact Int.negSucc_lt_zero 0) hfull
        | cons j js =>
            refine ⟨inv_leave h (STable.named_put h.table hf hc) ?_, ?_⟩
            · intro i hi
              exact (STable.test_put hc i).mpr (Or.inr hi)
            · rw [named_leave h]
              · simp only [NamedSems.put, STable.lookup_put h.table hf hc]
                rfl
              · intro i hi
                have hne : i ≠ j := fun e => by
                  rw [e, (STable.free_slot hc).2] at hi
                  exact absurd hi (by simp)
                rw [STable.nameAt_put hc, if_neg hne]

theorem wait_named {s : STableState} (h : Inv s) (t : Nat) (name : CString) :
    Inv (s.wait t name) ∧ (s.wait t name).named = s.named.wait t name := by
  have hlook : s.named.sem name = (s.tab.find name).map s.tab.semAt := rfl
  rw [wait, NamedSems.wait, hlook]
  cases hf : s.tab.find name with
  | none => exact leave_same h t (-1)
  | some i =>
      obtain ⟨hi, hb, hn⟩ := STable.find_some hf
      refine ⟨⟨h.table, ?_⟩, ?_⟩
      · intro u k hu
        simp only [upd_apply] at hu
        split at hu
        · cases hu; exact ⟨hi, hb⟩
        · exact h.waits u k hu
      · simp only [named, Option.map_some, NamedSems.mk.injEq, true_and]
        funext u
        simp only [upd_apply]
        split
        · rw [namedPC, hn]
        · rfl

/-- Replacing the semaphore of a slot in use replaces that of its name. -/
theorem setSem_named {s : STableState} (h : Inv s) {i : Nat} (hi : i < maxSemaphore)
    (hb : s.tab.bm.test i = true) (q : Semaphore) :
    Inv { s with tab := s.tab.setSem i q } ∧
      named { s with tab := s.tab.setSem i q } = s.named.put (s.tab.nameAt i) q := by
  refine ⟨⟨STable.named_setSem h.table i q, h.waits⟩, ?_⟩
  simp only [named, NamedSems.put, STable.lookup_setSem h.table hi hb q, NamedSems.mk.injEq,
    true_and]
  funext u
  cases s.pc u with
  | out ret => rfl
  | waiting k => rw [namedPC, namedPC, STable.nameAt_setSem]

theorem leave_setSem (s : STableState) (t i : Nat) (ret : Int) (q : Semaphore) :
    s.leave t (ret, s.tab.setSem i q)
      = leave { s with tab := s.tab.setSem i q } t (ret, s.tab.setSem i q) := rfl

theorem signal_named {s : STableState} (h : Inv s) (t : Nat) (name : CString) :
    Inv (s.leave t (s.tab.signal name)) ∧
      (s.leave t (s.tab.signal name)).named = s.named.signal t name := by
  have hlook : s.named.sem name = (s.tab.find name).map s.tab.semAt := rfl
  rw [STable.signal, NamedSems.signal, hlook]
  cases hf : s.tab.find name with
  | none => exact leave_same h t (-1)
  | some i =>
      obtain ⟨hi, hb, hn⟩ := STable.find_some hf
      obtain ⟨hinv, hnamed⟩ := setSem_named h hi hb (s.tab.semAt i).V.1
      obtain ⟨hinv', hnamed'⟩ := leave_same hinv t 0
      rw [leave_setSem]
      exact ⟨hinv', by rw [hnamed', hnamed, hn]; rfl⟩

/-- **A pass of `P` in a slot is a pass of `P` of its name.** -/
theorem pass_named {s : STableState} (h : Inv s) {t i : Nat} (hw : s.pc t = .waiting i) :
    (∀ s', s.pass t i = some s' → Inv s') ∧
      (s.pass t i).map named = s.named.pass t (s.tab.nameAt i) := by
  obtain ⟨hi, hb⟩ := h.waits t i hw
  have hlook : s.named.sem (s.tab.nameAt i) = some (s.tab.semAt i) := by
    show (s.tab.find _).map _ = _
    rw [(STable.find_eq_some_iff h.table).mpr ⟨hi, hb, rfl⟩]
    rfl
  obtain ⟨hinv, hnamed⟩ := setSem_named h hi hb ((s.tab.semAt i).P t).1
  obtain ⟨hinv', hnamed'⟩ := leave_same hinv t 0
  rw [pass, NamedSems.pass, hlook]
  by_cases hq : t ∈ (s.tab.semAt i).queue
  · simp [hq]
  · simp only [hq, if_false]
    split
    · rw [leave_setSem]
      refine ⟨?_, by rw [Option.map_some, hnamed', hnamed]⟩
      intro s' hs
      exact Option.some.inj hs ▸ hinv'
    · refine ⟨?_, by rw [Option.map_some, hnamed]⟩
      intro s' hs
      exact Option.some.inj hs ▸ hinv

/-- **Each step keeps the invariant and is the same step of the map.** -/
theorem step_named {s : STableState} (h : Inv s) (l : Nat × STableCall) :
    (∀ s', s.step l = some s' → Inv s') ∧ (s.step l).map named = s.named.step l := by
  obtain ⟨t, call⟩ := l
  have hpc : s.named.pc t = namedPC s.tab (s.pc t) := rfl
  simp only [step, NamedSems.step, hpc]
  cases hw : s.pc t with
  | out ret =>
      have hone : ∀ {s₁ : STableState} {m : NamedSems}, Inv s₁ ∧ s₁.named = m →
          (∀ s', some s₁ = some s' → Inv s') ∧ (some s₁).map named = some m := by
        rintro s₁ m ⟨h1, h2⟩
        refine ⟨?_, congrArg some h2⟩
        intro s' hs
        exact Option.some.inj hs ▸ h1
      cases call with
      | create name init => exact hone (create_named h t name init)
      | wait name => exact hone (wait_named h t name)
      | signal name => exact hone (signal_named h t name)
      | go => exact ⟨fun s' hs => absurd hs (by simp), rfl⟩
  | waiting i =>
      cases call with
      | go => exact pass_named h hw
      | create name init => exact ⟨fun s' hs => absurd hs (by simp), rfl⟩
      | wait name => exact ⟨fun s' hs => absurd hs (by simp), rfl⟩
      | signal name => exact ⟨fun s' hs => absurd hs (by simp), rfl⟩

theorem inv_reachable {s : STableState} (h : sys.Reachable s) : Inv s := by
  refine h.invariant (I := Inv) ?_ ?_
  · intro s hs
    exact hs ▸ inv_start
  · intro s l s' _ hI _ hst
    exact (step_named hI l).1 s' hst

/-- Every run of the table is the same run of the map. -/
theorem run_named (ls : List (Nat × STableCall)) :
    (sys.run start ls).map named = NamedSems.sys.run NamedSems.start ls := by
  rw [← named_start]
  exact Base.System.run_map (I := Inv) (fun s l s' h hs => (step_named h l).1 s' hs)
    (fun s l h => (step_named h l).2) ls inv_start

/--
**The table refines the map.**

Whatever the calls and their order, the table and the map take the same steps, with the
same results and the same semaphore under each name. In every state on the way a bit is
set exactly when its slot is not `NULL`, and the names in use are pairwise distinct.
-/
theorem stable_refines_named (ls : List (Nat × STableCall)) :
    (sys.run start ls).map named = NamedSems.sys.run NamedSems.start ls ∧
      ∀ s ∈ sys.run start ls, s.tab.Named := by
  refine ⟨run_named ls, ?_⟩
  intro s hs
  exact (inv_reachable (Base.System.Reachable.of_run rfl hs)).table

end STableState

end Nachos
