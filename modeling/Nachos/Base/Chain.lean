import Mathlib.Data.List.Nodup
import Mathlib.Data.List.Perm.Subperm
import Nachos.Base.System

/-!
# Chains of nodes in a heap

A node holds an item and the address of the next node, or none. `Seg cell p ns q` says that whoever
starts at `p` and follows the links meets the nodes `ns`, each with its address, and is then at `q`.
A chain that ends at no address meets no node twice (`Seg.nodup`), so it is no longer than there are
addresses and a walk along it comes to an end.

A write into a node changes one link. `Seg.relink` says what the chain is afterwards: the nodes up
to the one that was written, and then whatever its new link leads to.
-/

namespace Base

variable {α β : Type}

/-! ## The heap -/

/-- Cells at addresses, with nothing from some address on. -/
structure Heap (β : Type) where
  cell : Nat → Option β
  /-- The first address that has never been used. -/
  top : Nat
  unused : ∀ a, top ≤ a → cell a = none

namespace Heap

/-- Nothing allocated. -/
def empty : Heap β where
  cell := fun _ => none
  top := 0
  unused := fun _ _ => rfl

/-- The address at which the next cell is put: the one the allocator would like, if nothing is
there. -/
def place (h : Heap β) (wish : Nat) : Nat := if (h.cell wish).isNone then wish else h.top

/-- `x` in a new cell. -/
def alloc (h : Heap β) (wish : Nat) (x : β) : Heap β where
  cell := upd h.cell (h.place wish) (some x)
  top := max h.top (h.place wish + 1)
  unused := by
    intro a ha
    rw [upd_ne _ _ (by omega)]
    exact h.unused a (by omega)

/-- `x` in place of what is at `a`, when something is. -/
def write (h : Heap β) (a : Nat) (x : β) : Heap β where
  cell := if (h.cell a).isSome then upd h.cell a (some x) else h.cell
  top := h.top
  unused := by
    intro b hb
    have hnone := h.unused b hb
    split
    · rename_i ha
      have hne : b ≠ a := by
        intro he
        rw [he] at hnone
        rw [hnone] at ha
        exact absurd ha (by simp)
      rw [upd_ne _ _ hne, hnone]
    · exact hnone

/-- The cell at `a` is given back. -/
def free (h : Heap β) (a : Nat) : Heap β where
  cell := upd h.cell a none
  top := h.top
  unused := by
    intro b hb
    rw [upd_apply]
    split
    · rfl
    · exact h.unused b hb

theorem cell_place (h : Heap β) (wish : Nat) : h.cell (h.place wish) = none := by
  unfold place
  split
  · rename_i hw
    exact Option.isNone_iff_eq_none.mp hw
  · exact h.unused _ (Nat.le_refl _)

@[simp] theorem free_cell (h : Heap β) (a : Nat) : (h.free a).cell = upd h.cell a none := rfl

theorem write_cell {h : Heap β} {a : Nat} {y : β} (ha : h.cell a = some y) (x : β) :
    (h.write a x).cell = upd h.cell a (some x) := by
  have hsome : (h.cell a).isSome := by rw [ha]; rfl
  exact if_pos hsome

theorem lt_top {h : Heap β} {a : Nat} {x : β} (ha : h.cell a = some x) : a < h.top := by
  by_contra hle
  rw [h.unused a (by omega)] at ha
  exact absurd ha (by simp)

end Heap

/-! ## Segments -/

/-- An item and a link. -/
structure Node (α : Type) where
  item : α
  next : Option Nat
  deriving DecidableEq, Repr

/-- From `p` the links lead past the nodes `ns` to `q`. -/
inductive Seg (cell : Nat → Option (Node α)) :
    Option Nat → List (Nat × α) → Option Nat → Prop where
  | nil (p : Option Nat) : Seg cell p [] p
  | cons {a : Nat} {x : α} {p q : Option Nat} {ns : List (Nat × α)} :
      cell a = some ⟨x, p⟩ → Seg cell p ns q → Seg cell (some a) ((a, x) :: ns) q

namespace Seg

variable {cell cell' : Nat → Option (Node α)} {p q r : Option Nat} {ns ms : List (Nat × α)}

theorem append (h : Seg cell p ns q) (h' : Seg cell q ms r) : Seg cell p (ns ++ ms) r := by
  induction h with
  | nil _ => exact h'
  | cons ha _ ih => exact .cons ha (ih h')

theorem split : ∀ {ns : List (Nat × α)} {p : Option Nat}, Seg cell p (ns ++ ms) r →
    ∃ q, Seg cell p ns q ∧ Seg cell q ms r := by
  intro ns
  induction ns with
  | nil => intro p h; exact ⟨p, .nil p, h⟩
  | cons n ns ih =>
      intro p h
      cases h with
      | cons ha hrest =>
          obtain ⟨q, h1, h2⟩ := ih hrest
          exact ⟨q, .cons ha h1, h2⟩

/-- **The frame rule.** A chain is as it was when its nodes are. -/
theorem frame (h : Seg cell p ns q) (hcell : ∀ a ∈ ns.map Prod.fst, cell' a = cell a) :
    Seg cell' p ns q := by
  induction h with
  | nil p => exact .nil p
  | cons ha _ ih =>
      refine .cons ?_ (ih fun b hb => hcell b (List.mem_cons_of_mem _ hb))
      rw [hcell _ List.mem_cons_self, ha]

theorem upd_frame (h : Seg cell p ns q) {a : Nat} {x : Option (Node α)}
    (ha : a ∉ ns.map Prod.fst) : Seg (upd cell a x) p ns q :=
  h.frame fun _ hb => upd_ne _ _ fun he => ha (he ▸ hb)

/-- What starts at a node starts with that node. -/
theorem head {n : Nat × α} (h : Seg cell p (n :: ns) q) :
    p = some n.1 ∧ ∃ p', cell n.1 = some ⟨n.2, p'⟩ ∧ Seg cell p' ns q := by
  cases h with
  | cons ha hrest => exact ⟨rfl, _, ha, hrest⟩

/-- There is one way to go. -/
theorem unique : ∀ {ns ms : List (Nat × α)} {p : Option Nat}, Seg cell p ns none →
    Seg cell p ms none → ns = ms := by
  intro ns
  induction ns with
  | nil =>
      intro ms p h hms
      cases h
      cases hms
      rfl
  | cons n ns ih =>
      intro ms p h hms
      obtain ⟨rfl, p', hn, hrest⟩ := h.head
      cases hms with
      | cons ha hms =>
          rw [hn] at ha
          injection ha with ha
          injection ha with hx hp
          subst hp
          rw [ih hrest hms, ← hx]

/-- **A chain that comes to an end has no cycle.** -/
theorem nodup : ∀ {ns : List (Nat × α)} {p : Option Nat}, Seg cell p ns none →
    (ns.map Prod.fst).Nodup := by
  intro ns
  induction ns with
  | nil => intro _ _; exact List.nodup_nil
  | cons n ns ih =>
      intro p h
      obtain ⟨hp, p', hn, hrest⟩ := h.head
      rw [List.map_cons, List.nodup_cons]
      refine ⟨?_, ih hrest⟩
      intro hmem
      -- the second visit would go on as the first did, and yet be shorter
      obtain ⟨⟨b, y⟩, hin, hb⟩ := List.mem_map.mp hmem
      obtain ⟨us, vs, rfl⟩ := List.append_of_mem hin
      obtain ⟨q, _, hq⟩ := hrest.split
      have hqa : q = some n.1 := by rw [hq.head.1, ← hb]
      have heq := (hp ▸ h).unique (hqa ▸ hq)
      have hlen := congrArg List.length heq
      simp only [List.length_cons, List.length_append] at hlen
      omega

theorem isSome (h : Seg cell p ns q) {n : Nat × α} (hn : n ∈ ns) :
    ∃ p', cell n.1 = some ⟨n.2, p'⟩ := by
  obtain ⟨us, vs, rfl⟩ := List.append_of_mem hn
  obtain ⟨_, _, h'⟩ := h.split
  obtain ⟨_, p', hp', _⟩ := h'.head
  exact ⟨p', hp'⟩

/-- No node of a chain is where nothing is. -/
theorem notMem (h : Seg cell p ns q) {a : Nat} (ha : cell a = none) : a ∉ ns.map Prod.fst := by
  intro hmem
  obtain ⟨n, hn, rfl⟩ := List.mem_map.mp hmem
  obtain ⟨p', hp'⟩ := h.isSome hn
  rw [ha] at hp'
  exact absurd hp' (by simp)

/-- **A chain is no longer than the heap.** -/
theorem length_le {h : Heap (Node α)} (hs : Seg h.cell p ns none) : ns.length ≤ h.top := by
  have hsub : ns.map Prod.fst ⊆ List.range h.top := by
    intro a ha
    obtain ⟨n, hn, rfl⟩ := List.mem_map.mp ha
    obtain ⟨p', hp'⟩ := hs.isSome hn
    exact List.mem_range.mpr (Heap.lt_top hp')
  have hle := (hs.nodup.subperm hsub).length_le
  rwa [List.length_map, List.length_range] at hle

/-- **A link is changed.** The chain is the same up to the node `b`, and goes on from its new
link. -/
theorem relink {us vs ws : List (Nat × α)} {b : Nat} {y : α} {q r' : Option Nat}
    (h : Seg cell p (us ++ (b, y) :: vs) r) (hus : ∀ a ∈ us.map Prod.fst, cell' a = cell a)
    (hb : cell' b = some ⟨y, q⟩) (hws : Seg cell' q ws r') :
    Seg cell' p (us ++ (b, y) :: ws) r' := by
  obtain ⟨q₁, h1, h2⟩ := h.split
  have hq₁ : q₁ = some b := h2.head.1
  subst hq₁
  exact (h1.frame hus).append (.cons hb hws)

theorem start_eq_none (h : Seg cell p ns none) : p = none ↔ ns = [] := by
  cases h with
  | nil _ => simp
  | cons _ _ => simp

/-- The address a chain ends at is the one it starts at when it is a single node, and only then. -/
theorem start_eq_end {n : Nat × α} (h : Seg cell p (n :: ns) none) :
    p = (n :: ns).getLast?.map Prod.fst ↔ ns = [] := by
  rw [h.head.1]
  cases hc : ns.getLast? with
  | none =>
      rw [List.getLast?_eq_none_iff] at hc
      subst hc
      simp
  -- the last node is a later one, and a chain meets no node twice
  | some m =>
      have hm := List.mem_of_getLast? hc
      have hne : ns ≠ [] := List.ne_nil_of_mem hm
      rw [List.getLast?_cons_of_ne_nil hne, hc]
      simp only [Option.map_some, Option.some.injEq, hne, iff_false]
      exact fun he => (List.nodup_cons.mp h.nodup).1 (he ▸ List.mem_map_of_mem hm)

end Seg

end Base
