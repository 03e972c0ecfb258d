import Mathlib.Data.List.Perm.Basic
import Mathlib.Tactic.Common

/-!
# Maps in a table of slots

A map with room for a number of keys is kept in a table, each of whose slots is free or holds a key
with its value. What the table holds is the list of its slots in use, in an order that nobody
cares about; the map is a list of pairs in which no key comes twice.
-/

namespace Base

/-! ## Slots -/

section Slots

variable {α : Type} {slot slot' : Nat → Option α} {n i : Nat} {a : α}

/-- What the first `n` slots hold. -/
def occupied (slot : Nat → Option α) (n : Nat) : List α := (List.range n).filterMap slot

theorem mem_occupied : a ∈ occupied slot n ↔ ∃ i, i < n ∧ slot i = some a := by
  simp [occupied]

theorem occupied_congr (h : ∀ i, i < n → slot' i = slot i) :
    occupied slot' n = occupied slot n := by
  unfold occupied
  refine List.filterMap_congr fun i hi => h i (List.mem_range.mp hi)

/-- A slot apart from the others. -/
theorem range_perm (hi : i < n) : (List.range n).Perm (i :: (List.range n).erase i) :=
  List.perm_cons_erase (List.mem_range.mpr hi)

theorem mem_range_erase {j : Nat} (hj : j ∈ (List.range n).erase i) : j ≠ i :=
  (List.Nodup.mem_erase_iff List.nodup_range).mp hj |>.1

/-- **A free slot is filled.** -/
theorem occupied_fill (hi : i < n) (h : slot i = none) (h' : slot' i = some a)
    (hrest : ∀ j, j ≠ i → slot' j = slot j) : (occupied slot' n).Perm (a :: occupied slot n) := by
  have hbefore : (occupied slot n).Perm (((List.range n).erase i).filterMap slot) := by
    have hp := (range_perm hi).filterMap slot
    rwa [List.filterMap_cons_none h] at hp
  have hafter : (occupied slot' n).Perm (a :: ((List.range n).erase i).filterMap slot') := by
    have hp := (range_perm hi).filterMap slot'
    rwa [List.filterMap_cons_some h'] at hp
  -- away from `i` both tables hold the same
  have hsame : ((List.range n).erase i).filterMap slot' = ((List.range n).erase i).filterMap slot :=
    List.filterMap_congr fun j hj => hrest j (mem_range_erase hj)
  rw [hsame] at hafter
  exact hafter.trans (hbefore.symm.cons a)

/-- While a slot is free, the table is not full. -/
theorem occupied_length_lt (hi : i < n) (h : slot i = none) : (occupied slot n).length < n := by
  have hp := (range_perm hi).filterMap slot
  rw [List.filterMap_cons_none h] at hp
  have hle := List.length_filterMap_le slot ((List.range n).erase i)
  have herase := (range_perm hi).length_eq
  rw [List.length_range, List.length_cons] at herase
  unfold occupied
  rw [hp.length_eq]
  omega

theorem occupied_length_eq (h : ∀ i, i < n → (slot i).isSome) : (occupied slot n).length = n := by
  induction n with
  | zero => rfl
  | succ n ih =>
      obtain ⟨a, ha⟩ := Option.isSome_iff_exists.mp (h n (by omega))
      have hn := ih fun i hi => h i (by omega)
      unfold occupied at hn ⊢
      rw [List.range_succ, List.filterMap_append, List.length_append, hn,
        List.filterMap_cons_some ha]
      rfl

end Slots

/-! ## Maps -/

section Maps

variable {K V : Type} [DecidableEq K] {t : List (K × V)} {k : K} {v : V}

/-- A key that is not there is put in, as long as there is room. -/
def putNew (room : Nat) (t : List (K × V)) (k : K) (v : V) : Bool × List (K × V) :=
  if t.lookup k = none ∧ t.length < room then (true, (k, v) :: t) else (false, t)

/-- A key that is there is taken out. -/
def takeOut (t : List (K × V)) (k : K) : Bool × List (K × V) :=
  if (t.lookup k).isSome then (true, t.filter fun x => x.1 ≠ k) else (false, t)

theorem lookup_eq_none : t.lookup k = none ↔ ∀ v, (k, v) ∉ t := by
  rw [List.lookup_eq_none_iff]
  constructor
  · intro h v hv
    exact absurd (h _ hv) (by simp)
  · intro h x hx
    rw [bne_iff_ne]
    rintro rfl
    exact h x.2 hx

theorem lookup_eq_some (h : (t.map Prod.fst).Nodup) : t.lookup k = some v ↔ (k, v) ∈ t := by
  induction t with
  | nil => simp
  | cons x t ih =>
      obtain ⟨k', v'⟩ := x
      rw [List.map_cons, List.nodup_cons] at h
      by_cases hk : k = k'
      · subst hk
        simp only [List.lookup_cons_self, Option.some.injEq, List.mem_cons, Prod.mk.injEq, true_and]
        constructor
        · intro hv
          exact Or.inl hv.symm
        -- the key does not come again further on
        · rintro (hv | hin)
          · exact hv.symm
          · exact absurd (List.mem_map.mpr ⟨_, hin, rfl⟩) h.1
      · rw [List.lookup_cons, beq_false_of_ne hk]
        simp [ih h.2, hk]

theorem putNew_fst {room : Nat} :
    (putNew room t k v).1 = true ↔ t.lookup k = none ∧ t.length < room := by
  unfold putNew
  split
  · rename_i h
    exact iff_of_true rfl h
  · rename_i h
    exact iff_of_false Bool.false_ne_true h

theorem takeOut_fst : (takeOut t k).1 = true ↔ (t.lookup k).isSome = true := by
  unfold takeOut
  split
  · rename_i h
    exact iff_of_true rfl h
  · rename_i h
    exact iff_of_false Bool.false_ne_true h

theorem lookup_filter_ne {k' : K} (h : k' ≠ k) :
    (t.filter fun x => x.1 ≠ k).lookup k' = t.lookup k' := by
  induction t with
  | nil => rfl
  | cons x t ih =>
      by_cases hx : x.1 = k
      · rw [List.filter_cons_of_neg (by simpa using hx), ih, List.lookup_cons,
          beq_false_of_ne (hx ▸ h)]
      · rw [List.filter_cons_of_pos (by simpa using hx), List.lookup_cons, List.lookup_cons, ih]

theorem lookup_takeOut_self : (takeOut t k).2.lookup k = none := by
  unfold takeOut
  split
  · exact lookup_eq_none.mpr fun v hv => absurd (List.mem_filter.mp hv).2 (by simp)
  · rename_i h
    exact Option.not_isSome_iff_eq_none.mp h

theorem lookup_takeOut_ne {k' : K} (h : k' ≠ k) : (takeOut t k).2.lookup k' = t.lookup k' := by
  unfold takeOut
  split
  · exact lookup_filter_ne h
  · rfl

end Maps

end Base
