import Mathlib.Data.Finset.Card
import Nachos.Base.Objects

/-!
# Stores of files

A file is an array under a name, and its length is fixed when it is created. It is read and written
through handles. A handle has a position, which goes on with what is read or written. `Step` says
what each operation answers and does: two handles on one file see each other's writes, a
file that is removed takes its handles with it, and after a restart there are no handles.

What is new in a file that was just created is anything. A store has room for `capacity` files.
-/

namespace Base

/-- A store of files, and the handles on them with their positions. -/
structure FileStore (κ ι α : Type) where
  names : Finset κ
  length : κ → Nat
  elem : κ → Nat → α
  opened : ι → Option (κ × Nat)

namespace FileStore

variable {κ ι α : Type}

/-- No files, no handles. -/
def empty [Inhabited α] : FileStore κ ι α where
  names := ∅
  length := fun _ => 0
  elem := fun _ _ => default
  opened := fun _ => none

/-- How much of `n` elements from `p` on there is. -/
def amount (S : FileStore κ ι α) (k : κ) (p n : Nat) : Nat := min n (S.length k - p)

/-- At most `n` elements from `p` on. -/
def slice (S : FileStore κ ι α) (k : κ) (p n : Nat) : List α :=
  (List.range (S.amount k p n)).map fun j => S.elem k (p + j)

/-- The handles are lost, the files stay. -/
def closeAll (S : FileStore κ ι α) : FileStore κ ι α := { S with opened := fun _ => none }

/-- What a handle is on, and where. -/
def point [DecidableEq ι] (S : FileStore κ ι α) (h : ι) (o : Option (κ × Nat)) : FileStore κ ι α :=
  { S with opened := upd S.opened h o }

@[simp] theorem length_slice (S : FileStore κ ι α) (k : κ) (p n : Nat) :
    (S.slice k p n).length = S.amount k p n := by
  rw [slice, List.length_map, List.length_range]

/-- A read is as long as there is something to read. -/
theorem slice_amount (S : FileStore κ ι α) (k : κ) (p n : Nat) :
    S.slice k p (S.amount k p n) = S.slice k p n := by
  have hsame : S.amount k p (S.amount k p n) = S.amount k p n := by unfold amount; omega
  rw [slice, hsame, slice]

/-- **What is read in two goes** is what is read in one. -/
theorem slice_append (S : FileStore κ ι α) (k : κ) (p m n : Nat) (hm : p + m ≤ S.length k) :
    S.slice k p m ++ S.slice k (p + m) n = S.slice k p (m + n) := by
  have hfirst : S.amount k p m = m := by unfold amount; omega
  have hboth : S.amount k p (m + n) = m + S.amount k (p + m) n := by unfold amount; omega
  unfold slice
  rw [hfirst, hboth, List.range_add, List.map_append, List.map_map]
  congr 2
  funext j
  rw [Function.comp_apply, Nat.add_assoc]

/-- Nothing is read at the end. -/
theorem slice_end {S : FileStore κ ι α} {k : κ} {p : Nat} (h : S.length k ≤ p) (n : Nat) :
    S.slice k p n = [] := by
  have hnone : S.amount k p n = 0 := by unfold amount; omega
  rw [slice, hnone]
  rfl

/-- Files with the same contents are read alike. -/
theorem slice_congr {S T : FileStore κ ι α} {k : κ} (hlen : T.length k = S.length k)
    (helem : ∀ j, j < S.length k → T.elem k j = S.elem k j) (p n : Nat) :
    T.slice k p n = S.slice k p n := by
  have hamount : T.amount k p n = S.amount k p n := by unfold amount; rw [hlen]
  unfold slice
  rw [hamount]
  refine List.map_congr_left fun j hj => helem _ ?_
  have := List.mem_range.mp hj
  unfold amount at this
  omega

@[simp] theorem opened_point [DecidableEq ι] (S : FileStore κ ι α) (h : ι) (o : Option (κ × Nat)) :
    (S.point h o).opened h = o := upd_self _ _ _

theorem point_point [DecidableEq ι] (S : FileStore κ ι α) (h : ι) (o q : Option (κ × Nat)) :
    (S.point h o).point h q = S.point h q := by
  have hlast : upd (upd S.opened h o) h q = upd S.opened h q := by
    funext g
    rw [upd_apply, upd_apply, upd_apply]
    split <;> rfl
  show { S with opened := upd (upd S.opened h o) h q } = { S with opened := upd S.opened h q }
  rw [hlast]

section Names

variable [DecidableEq κ]

/-- A new file, or an old name with new contents. -/
def add (S : FileStore κ ι α) (k : κ) (size : Nat) (c : Nat → α) : FileStore κ ι α where
  names := insert k S.names
  length := upd S.length k size
  elem := upd S.elem k c
  opened := S.opened

/-- A file is taken out, and its handles with it. -/
def erase (S : FileStore κ ι α) (k : κ) : FileStore κ ι α :=
  { S with
    names := S.names.erase k
    opened := fun h => (S.opened h).filter fun o => decide (o.1 ≠ k) }

/-- At most `n` elements from `p` on are replaced. -/
def put (S : FileStore κ ι α) (k : κ) (src : Nat → α) (n p : Nat) : FileStore κ ι α :=
  { S with elem := upd S.elem k fun j =>
      if p ≤ j ∧ j < p + S.amount k p n then src (j - p) else S.elem k j }

/-- **What was written is there.** -/
theorem elem_put (S : FileStore κ ι α) (k : κ) (src : Nat → α) {n p j : Nat}
    (hj : j < S.amount k p n) : (S.put k src n p).elem k (p + j) = src j := by
  simp only [put, upd_self]
  rw [if_pos ⟨by omega, by omega⟩, Nat.add_sub_cancel_left]

/-- The rest of the file is as it was. -/
theorem elem_put_outside (S : FileStore κ ι α) (k : κ) (src : Nat → α) {n p j : Nat}
    (hj : j < p ∨ p + S.amount k p n ≤ j) : (S.put k src n p).elem k j = S.elem k j := by
  simp only [put, upd_self]
  rw [if_neg (by omega)]

theorem elem_put_other (S : FileStore κ ι α) {k k' : κ} (src : Nat → α) (n p : Nat) (h : k' ≠ k) :
    (S.put k src n p).elem k' = S.elem k' := upd_ne _ _ h

end Names

/-- What can be asked of a store. -/
inductive Op (κ ι α : Type) where
  | create (k : κ) (size : Nat)
  | remove (k : κ)
  | list
  | openAs (h : ι) (k : κ)
  | close (h : ι)
  | seek (h : ι) (p : Nat)
  | length (h : ι)
  | read (h : ι) (n : Nat)
  | readAt (h : ι) (n p : Nat)
  | write (h : ι) (src : Nat → α) (n : Nat)
  | writeAt (h : ι) (src : Nat → α) (n p : Nat)
  | restart

/-- What it replies. -/
inductive Reply (κ α : Type) where
  | done
  | flag (success : Bool)
  | count (n : Nat)
  | elems (l : List α)
  | names (l : List κ)

variable [DecidableEq κ] [DecidableEq ι]

/-- **What a store of files is for.** -/
inductive Step (capacity : Nat) :
    FileStore κ ι α → Op κ ι α → Reply κ α → FileStore κ ι α → Prop where
  | created {S : FileStore κ ι α} {k : κ} {size : Nat} (c : Nat → α) :
      k ∉ S.names → S.names.card < capacity →
      Step capacity S (.create k size) (.flag true) (S.add k size c)
  | refused {S : FileStore κ ι α} {k : κ} {size : Nat} :
      k ∈ S.names ∨ capacity ≤ S.names.card → Step capacity S (.create k size) (.flag false) S
  | removed {S : FileStore κ ι α} {k : κ} :
      k ∈ S.names → Step capacity S (.remove k) (.flag true) (S.erase k)
  | absent {S : FileStore κ ι α} {k : κ} :
      k ∉ S.names → Step capacity S (.remove k) (.flag false) S
  | listed {S : FileStore κ ι α} {l : List κ} :
      l.Nodup → l.toFinset = S.names → Step capacity S .list (.names l) S
  | found {S : FileStore κ ι α} {h : ι} {k : κ} :
      k ∈ S.names → Step capacity S (.openAs h k) (.flag true) (S.point h (some (k, 0)))
  | notFound {S : FileStore κ ι α} {h : ι} {k : κ} :
      k ∉ S.names → Step capacity S (.openAs h k) (.flag false) (S.point h none)
  | closed {S : FileStore κ ι α} {h : ι} : Step capacity S (.close h) .done (S.point h none)
  | sought {S : FileStore κ ι α} {h : ι} {k : κ} {p q : Nat} :
      S.opened h = some (k, q) → Step capacity S (.seek h p) .done (S.point h (some (k, p)))
  | length {S : FileStore κ ι α} {h : ι} {k : κ} {q : Nat} :
      S.opened h = some (k, q) → Step capacity S (.length h) (.count (S.length k)) S
  | read {S : FileStore κ ι α} {h : ι} {k : κ} {p n : Nat} :
      S.opened h = some (k, p) →
      Step capacity S (.read h n) (.elems (S.slice k p n))
        (S.point h (some (k, p + S.amount k p n)))
  | readAt {S : FileStore κ ι α} {h : ι} {k : κ} {p q n : Nat} :
      S.opened h = some (k, q) → Step capacity S (.readAt h n p) (.elems (S.slice k p n)) S
  | write {S : FileStore κ ι α} {h : ι} {k : κ} {src : Nat → α} {p n : Nat} :
      S.opened h = some (k, p) →
      Step capacity S (.write h src n) (.count (S.amount k p n))
        ((S.put k src n p).point h (some (k, p + S.amount k p n)))
  | writeAt {S : FileStore κ ι α} {h : ι} {k : κ} {src : Nat → α} {p q n : Nat} :
      S.opened h = some (k, q) →
      Step capacity S (.writeAt h src n p) (.count (S.amount k p n)) (S.put k src n p)
  | restarted {S : FileStore κ ι α} : Step capacity S .restart .done S.closeAll

/-! ## What leaves a file alone -/

/-- The operation changes file `k`, or takes it away. -/
def Touches (S : FileStore κ ι α) (k : κ) : Op κ ι α → Prop
  | .remove k' => k' = k
  | .write h _ _ => ∃ p, S.opened h = some (k, p)
  | .writeAt h _ _ _ => ∃ p, S.opened h = some (k, p)
  | _ => False

/-- The file is there, with the same contents. -/
structure Same (k : κ) (S T : FileStore κ ι α) : Prop where
  mem : k ∈ T.names
  length : T.length k = S.length k
  elem : T.elem k = S.elem k

omit [DecidableEq κ] [DecidableEq ι] in
theorem Same.trans {k : κ} {S T U : FileStore κ ι α} (hST : Same k S T) (hTU : Same k T U) :
    Same k S U :=
  ⟨hTU.mem, hTU.length.trans hST.length, hTU.elem.trans hST.elem⟩

/-- **One step.** A file that is there stays as it is unless the operation is about it. -/
theorem Step.same {capacity : Nat} {S T : FileStore κ ι α} {o : Op κ ι α} {r : Reply κ α} {k : κ}
    (h : Step capacity S o r T) (hk : k ∈ S.names) (hspare : ¬ S.Touches k o) : Same k S T := by
  have hself : Same k S S := ⟨hk, rfl, rfl⟩
  cases h with
  | created c hnew hroom =>
      rename_i k' _
      have hne : k ≠ k' := fun he => hnew (he ▸ hk)
      exact ⟨Finset.mem_insert_of_mem hk, upd_ne _ _ hne, upd_ne _ _ hne⟩
  | refused _ => exact hself
  | removed _ => exact ⟨Finset.mem_erase.mpr ⟨fun he => hspare he.symm, hk⟩, rfl, rfl⟩
  | absent _ => exact hself
  | listed _ _ => exact hself
  | found _ => exact ⟨hk, rfl, rfl⟩
  | notFound _ => exact ⟨hk, rfl, rfl⟩
  | closed => exact ⟨hk, rfl, rfl⟩
  | sought _ => exact ⟨hk, rfl, rfl⟩
  | length _ => exact hself
  | read _ => exact ⟨hk, rfl, rfl⟩
  | readAt _ => exact hself
  | write ho =>
      exact ⟨hk, rfl, elem_put_other _ _ _ _ fun he => hspare ⟨_, he ▸ ho⟩⟩
  | writeAt ho =>
      exact ⟨hk, rfl, elem_put_other _ _ _ _ fun he => hspare ⟨_, he ▸ ho⟩⟩
  | restarted => exact ⟨hk, rfl, rfl⟩

end FileStore

end Base
