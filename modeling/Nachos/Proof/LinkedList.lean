import Nachos.Lib.LinkedList

/-!
# A linked list is a sequence

The chain from `first` holds the items in order, `last` is its end and `numInList` its length, and
apart from its elements the memory is as it was: nothing else has been written, and what was deleted
has been given back. Every operation finds one of a few shapes of the chain, and each shape is one
link that is changed.
-/

namespace Nachos.LinkedList

open Base (Heap Node Seg History Allowed runCalls watched guard_ok guard_bind bind_eq_of_ok get_bind
  set_bind modify_bind upd upd_self upd_ne)

variable {α : Type}

/-! ## Elements -/

theorem assert_bind {β : Type} {c : Prop} [Decidable c] (h : c) (k : Unit → ListM α β)
    (l : LinkedList α) : (assert c >>= k) l = k () l := guard_bind h _ k l

theorem assert_eq {c : Prop} [Decidable c] (h : c) (l : LinkedList α) :
    (assert c : ListM α Unit) l = .ok () l := guard_ok h _ l

theorem deref_eq {l : LinkedList α} {a : Nat} {e : ListElement α} (h : l.heap.cell a = some e) :
    deref (some a) l = .ok e l := by
  unfold deref
  rw [get_bind, Option.bind_some, h]
  rfl

theorem setNext_eq {l : LinkedList α} {a : Nat} {e : ListElement α} (h : l.heap.cell a = some e)
    (next : Option Nat) :
    setNext (some a) next l = .ok () { l with heap := l.heap.write a { e with next := next } } := by
  unfold setNext
  dsimp only
  rw [bind_eq_of_ok (deref_eq h)]
  rfl

theorem delete_eq {l : LinkedList α} {a : Nat} {e : ListElement α} (h : l.heap.cell a = some e) :
    delete (some a) l = .ok () { l with heap := l.heap.free a } := by
  unfold delete
  dsimp only
  rw [bind_eq_of_ok (deref_eq h)]
  rfl

/-! ## The chain -/

/-- The chain of a list, whatever else is in memory. -/
structure Chain (l : LinkedList α) (ns : List (Nat × α)) : Prop where
  linked : Seg l.heap.cell l.first ns none
  lastAt : l.last = ns.getLast?.map Prod.fst
  count : l.numInList = ns.length

/-- **The list holds these nodes**, and the rest of the memory is as `other` has it. -/
structure Holds (other : Nat → Option (ListElement α)) (l : LinkedList α)
    (ns : List (Nat × α)) : Prop extends Chain l ns where
  own : ∀ a ∈ ns.map Prod.fst, other a = none
  rest : ∀ a, a ∉ ns.map Prod.fst → l.heap.cell a = other a

variable {l : LinkedList α} {ns : List (Nat × α)} {other : Nat → Option (ListElement α)}
  {item : α}

theorem Chain.isEmpty_eq (h : Chain l ns) : l.isEmpty = ns.isEmpty := by
  unfold LinkedList.isEmpty
  rw [h.count]
  cases ns <;> simp
  omega

theorem Chain.first_eq_none (h : Chain l ns) : l.first = none ↔ ns = [] := h.linked.start_eq_none

theorem Chain.last_eq_none (h : Chain l ns) : l.last = none ↔ ns = [] := by
  rw [h.lastAt, Option.map_eq_none_iff, List.getLast?_eq_none_iff]

theorem Chain.nodup (h : Chain l ns) : (ns.map Prod.fst).Nodup := h.linked.nodup

/-- The last node has no link. -/
theorem Chain.end_eq {us : List (Nat × α)} {b : Nat} {y : α} (h : Chain l (us ++ [(b, y)])) :
    l.last = some b ∧ l.heap.cell b = some ⟨y, none⟩ := by
  refine ⟨by rw [h.lastAt]; simp, ?_⟩
  obtain ⟨q, _, hs⟩ := h.linked.split
  obtain ⟨_, p', hb, hnil⟩ := hs.head
  cases hnil
  exact hb

/-- One element or more. -/
theorem Chain.first_eq_last {n : Nat × α} (h : Chain l (n :: ns)) : l.first = l.last ↔ ns = [] := by
  rw [h.lastAt]
  exact h.linked.start_eq_end

theorem holds_new (heap : Heap (ListElement α)) : Holds heap.cell (new heap) [] where
  linked := .nil none
  lastAt := rfl
  count := rfl
  own := fun _ ha => absurd ha List.not_mem_nil
  rest := fun _ _ => rfl

/-! ## Elements that are not linked yet -/

/-- The list holds the nodes, and a new element is waiting at `a`. -/
structure Pending (other : Nat → Option (ListElement α)) (l : LinkedList α) (ns : List (Nat × α))
    (a : Nat) (item : α) : Prop extends Chain l ns where
  waiting : l.heap.cell a = some ⟨item, none⟩
  apart : a ∉ ns.map Prod.fst
  own : ∀ b ∈ ns.map Prod.fst, other b = none
  ownNew : other a = none
  rest : ∀ b, b ∉ ns.map Prod.fst → b ≠ a → l.heap.cell b = other b

theorem Holds.alloc (h : Holds other l ns) (wish : Nat) (item : α) :
    Pending other { l with heap := l.heap.alloc wish ⟨item, none⟩ } ns
    (l.heap.place wish) item := by
  have hfree := l.heap.cell_place wish
  have hapart := h.linked.notMem hfree
  refine ⟨⟨?_, h.lastAt, h.count⟩, ?_, hapart, h.own, ?_, ?_⟩
  · exact h.linked.upd_frame hapart
  · exact upd_self _ _ _
  · rw [← h.rest _ hapart, hfree]
  · intro b hb hne
    exact (upd_ne _ _ hne).trans (h.rest b hb)

variable {a : Nat}

/-- **The new element is in the chain.** Whichever link was changed for it, the list holds one node
more, and it has only to be counted. -/
theorem Pending.linked_in (h : Pending other l ns a item) {heap' : Heap (ListElement α)}
    {first' last' : Option Nat} {ms : List (Nat × α)} (hperm : ms.Perm ((a, item) :: ns))
    (hseg : Seg heap'.cell first' ms none) (hlast : last' = ms.getLast?.map Prod.fst)
    (hrest : ∀ b, b ∉ ms.map Prod.fst → heap'.cell b = l.heap.cell b) :
    Holds other ⟨heap', first', last', l.numInList + 1⟩ ms := by
  have hmem : ∀ b, b ∈ ms.map Prod.fst ↔ b = a ∨ b ∈ ns.map Prod.fst := by
    intro b
    rw [(hperm.map Prod.fst).mem_iff, List.map_cons, List.mem_cons]
  refine ⟨⟨hseg, hlast, ?_⟩, ?_, ?_⟩
  · rw [h.count, hperm.length_eq, List.length_cons, Int.natCast_succ]
  · intro b hb
    rcases (hmem b).mp hb with rfl | hb
    · exact h.ownNew
    · exact h.own b hb
  · intro b hb
    have hnot := fun hor => hb ((hmem b).mpr hor)
    rw [hrest b hb]
    exact h.rest b (fun hin => hnot (.inr hin)) fun he => hnot (.inl he)

/-- The first of all. -/
theorem Pending.link_only (h : Pending other l [] a item) :
    Holds other ⟨l.heap, some a, some a, l.numInList + 1⟩ [(a, item)] :=
  h.linked_in (.refl _) (.cons h.waiting (.nil none)) rfl fun _ _ => rfl

/-- In front of the others. -/
theorem Pending.link_front (h : Pending other l ns a item) (hne : ns ≠ []) :
    Holds other ⟨l.heap.write a ⟨item, l.first⟩, some a, l.last, l.numInList + 1⟩
      ((a, item) :: ns) := by
  have hcell := Heap.write_cell h.waiting ⟨item, l.first⟩
  refine h.linked_in (.refl _) ?_ ?_ ?_
  · rw [hcell]
    exact .cons (upd_self _ _ _) (h.linked.upd_frame h.apart)
  · rw [h.lastAt, List.getLast?_cons_of_ne_nil hne]
  · intro b hb
    rw [hcell, upd_ne _ _ fun he : b = a => hb (he ▸ List.mem_cons_self)]

/-- Behind the node `b`. -/
theorem Pending.link_after {us vs : List (Nat × α)} {b : Nat} {y : α}
    (h : Pending other l (us ++ (b, y) :: vs) a item) {q : Option Nat}
    {heap' : Heap (ListElement α)} (hq : Seg l.heap.cell q vs none)
    (ha : heap'.cell a = some ⟨item, q⟩) (hb : heap'.cell b = some ⟨y, some a⟩)
    (hothers : ∀ c, c ≠ a → c ≠ b → heap'.cell c = l.heap.cell c) {last' : Option Nat}
    (hlast : last' = (us ++ (b, y) :: (a, item) :: vs).getLast?.map Prod.fst) :
    Holds other ⟨heap', l.first, last', l.numInList + 1⟩ (us ++ (b, y) :: (a, item) :: vs) := by
  have hnd := h.nodup
  have hapart := h.apart
  simp only [List.map_append, List.map_cons, List.nodup_append, List.nodup_cons, List.mem_append,
    List.mem_cons] at hnd hapart
  refine h.linked_in ?_ ?_ hlast ?_
  · refine (List.Perm.append_left us (List.Perm.swap (a, item) (b, y) vs)).trans ?_
    exact List.perm_middle
  · refine h.linked.relink ?_ hb (.cons ha (hq.frame ?_))
    · intro c hc
      refine hothers c (fun he => hapart (.inl (he ▸ hc))) fun he => ?_
      exact hnd.2.2 c hc b (.inl rfl) he
    · intro c hc
      refine hothers c (fun he => hapart (.inr (.inr (he ▸ hc)))) fun he => ?_
      exact hnd.2.1.1 (he ▸ hc)
  · intro c hc
    simp only [List.map_append, List.map_cons, List.mem_append, List.mem_cons, not_or] at hc
    exact hothers c hc.2.2.1 hc.2.1

/-! ## Elements that are taken out -/

/-- **A node is out of the chain.** Its cell has been given back, and it has only to be counted. -/
theorem Holds.linked_out (h : Holds other l ns) {c : Nat} {z : α} {heap' : Heap (ListElement α)}
    {first' last' : Option Nat} {ms : List (Nat × α)} (hperm : ns.Perm ((c, z) :: ms))
    (hseg : Seg heap'.cell first' ms none) (hlast : last' = ms.getLast?.map Prod.fst)
    (hc : heap'.cell c = none)
    (hrest : ∀ b, b ∉ ns.map Prod.fst → heap'.cell b = l.heap.cell b) :
    Holds other ⟨heap', first', last', l.numInList - 1⟩ ms := by
  have hmem : ∀ b, b ∈ ns.map Prod.fst ↔ b = c ∨ b ∈ ms.map Prod.fst := by
    intro b
    rw [(hperm.map Prod.fst).mem_iff, List.map_cons, List.mem_cons]
  refine ⟨⟨hseg, hlast, ?_⟩, fun b hb => h.own b ((hmem b).mpr (.inr hb)), ?_⟩
  · dsimp only
    rw [h.count, hperm.length_eq, List.length_cons, Int.natCast_succ]
    omega
  · intro b hb
    by_cases hbc : b = c
    · rw [hbc, hc, h.own c ((hmem c).mpr (.inl rfl))]
    · have hout : b ∉ ns.map Prod.fst := fun hin => ((hmem b).mp hin).elim hbc hb
      rw [hrest b hout, h.rest b hout]

/-- The first one. -/
theorem Holds.unlink_front {n : Nat × α} (h : Holds other l (n :: ns)) {p : Option Nat}
    (hn : l.heap.cell n.1 = some ⟨n.2, p⟩) {last' : Option Nat}
    (hlast : last' = ns.getLast?.map Prod.fst) :
    Holds other ⟨l.heap.free n.1, p, last', l.numInList - 1⟩ ns := by
  have hnd := List.nodup_cons.mp h.nodup
  obtain ⟨_, p', hn', hseg⟩ := h.linked.head
  have hp : p' = p := by
    rw [hn] at hn'
    injection hn' with hn'
    injection hn' with _ hp
    exact hp.symm
  refine h.linked_out (.refl _) ?_ hlast (upd_self _ _ _) ?_
  · exact hp ▸ hseg.upd_frame hnd.1
  · intro b hb
    exact upd_ne _ _ fun he => hb (he ▸ List.mem_cons_self)

/-- The one behind `b`. -/
theorem Holds.unlink_after {us vs : List (Nat × α)} {b c : Nat} {y z : α}
    (h : Holds other l (us ++ (b, y) :: (c, z) :: vs)) {q : Option Nat}
    (hc : l.heap.cell c = some ⟨z, q⟩) (hb : l.heap.cell b = some ⟨y, some c⟩)
    {last' : Option Nat} (hlast : last' = (us ++ (b, y) :: vs).getLast?.map Prod.fst) :
    Holds other ⟨(l.heap.write b ⟨y, q⟩).free c, l.first, last', l.numInList - 1⟩
      (us ++ (b, y) :: vs) := by
  have hnd := h.nodup
  simp only [List.map_append, List.map_cons, List.nodup_append, List.nodup_cons,
    List.mem_cons, not_or] at hnd
  have hcell : ((l.heap.write b ⟨y, q⟩).free c).cell
      = upd (upd l.heap.cell b (some ⟨y, q⟩)) c none := by
    rw [Heap.free_cell, Heap.write_cell hb]
  have hvs : Seg l.heap.cell q vs none := by
    obtain ⟨_, _, h2⟩ := h.linked.split
    obtain ⟨_, _, _, h3⟩ := h2.head
    obtain ⟨_, q', hc', h4⟩ := h3.head
    rw [hc] at hc'
    injection hc' with hc'
    injection hc' with _ hq
    exact hq ▸ h4
  refine h.linked_out (z := z) ?_ ?_ hlast (by rw [hcell, upd_self]) ?_
  · exact (List.Perm.append_left us (List.Perm.swap (c, z) (b, y) vs)).trans List.perm_middle
  · rw [hcell]
    refine h.linked.relink ?_ ?_ (hvs.frame ?_)
    · intro d hd
      rw [upd_ne _ _ (hnd.2.2 d hd c (.inr (.inl rfl))), upd_ne _ _ (hnd.2.2 d hd b (.inl rfl))]
    · rw [upd_ne _ _ hnd.2.1.1.1, upd_self]
    · intro d hd
      rw [upd_ne _ _ fun he : d = c => hnd.2.1.2.1 (he ▸ hd),
        upd_ne _ _ fun he : d = b => hnd.2.1.1.2 (he ▸ hd)]
  · intro d hd
    simp only [List.map_append, List.map_cons, List.mem_append, List.mem_cons, not_or] at hd
    rw [hcell, upd_ne _ _ hd.2.2.1, upd_ne _ _ hd.2.1]

/-! ## The operations -/

/-- The last link leads to the new element. -/
theorem Pending.setNext_last {us : List (Nat × α)} {b : Nat} {y : α}
    (h : Pending other l (us ++ [(b, y)]) a item) :
    ∃ l', setNext l.last (some a) l = .ok () l' ∧
      Holds other { l' with last := some a, numInList := l'.numInList + 1 }
        (us ++ [(b, y)] ++ [(a, item)]) := by
  obtain ⟨hlast, hb⟩ := h.end_eq
  have hab : a ≠ b := fun he => h.apart (by rw [he]; simp)
  have hcell := Heap.write_cell hb ⟨y, some a⟩
  refine ⟨_, (congrArg (fun p => setNext p (some a) l) hlast).trans (setNext_eq hb (some a)), ?_⟩
  rw [List.append_assoc]
  refine h.link_after (.nil none) ?_ ?_ ?_ (by simp)
  · rw [hcell, upd_ne _ _ hab, h.waiting]
  · rw [hcell, upd_self]
  · intro c _ hc
    rw [hcell, upd_ne _ _ hc]

/-- **`RemoveFront`.** -/
theorem Holds.removeFront {n : Nat × α} (h : Holds other l (n :: ns)) :
    ∃ l', removeFront l = .ok n.2 l' ∧ Holds other l' ns := by
  obtain ⟨hfirst, p, hn, hseg⟩ := h.linked.head
  have hunlink : ∃ last', unlinkFront l = .ok () ⟨l.heap, p, last', l.numInList⟩ ∧
      last' = ns.getLast?.map Prod.fst := by
    unfold unlinkFront
    rw [get_bind]
    by_cases hns : ns = []
    · subst hns
      cases hseg
      exact ⟨none, by rw [if_pos (h.first_eq_last.mpr rfl)]; rfl, rfl⟩
    · rw [if_neg (fun he => hns (h.first_eq_last.mp he)), hfirst, bind_eq_of_ok (deref_eq hn)]
      exact ⟨l.last, rfl, by rw [h.lastAt, List.getLast?_cons_of_ne_nil hns]⟩
  obtain ⟨last', hunlink, hlast⟩ := hunlink
  refine ⟨_, ?_, h.unlink_front hn hlast⟩
  unfold LinkedList.removeFront
  rw [get_bind, assert_bind (by rw [h.isEmpty_eq]; rfl), hfirst, bind_eq_of_ok (deref_eq hn),
    bind_eq_of_ok hunlink, modify_bind]
  exact bind_eq_of_ok (delete_eq (l := ⟨l.heap, p, last', l.numInList - 1⟩) hn)

theorem fixLast_eq {b : Nat} {y : α} {q : Option Nat} (hb : l.heap.cell b = some ⟨y, q⟩) :
    fixLast (some b) l = .ok () { l with last := if q = none then some b else l.last } := by
  unfold fixLast
  rw [bind_eq_of_ok (deref_eq hb)]
  by_cases hq : q = none
  · rw [if_pos hq, if_pos hq]
    rfl
  · rw [if_neg hq, if_neg hq]
    rfl

/-- The loop of `SanityCheck` at a node gets to the last one. -/
theorem sanityFrom_eq {numInList : Int} {last : Option Nat} : ∀ {ns : List (Nat × α)} {n : Nat × α}
    {p : Option Nat} {k : Nat} {numFound : Int}, Seg l.heap.cell p (n :: ns) none →
    last = (n :: ns).getLast?.map Prod.fst → numFound + ns.length = numInList → ns.length < k →
    sanityFrom numInList last k numFound p l = .ok numInList l := by
  intro ns
  induction ns with
  | nil =>
      intro n p k numFound hs hlast hcount hk
      cases k with
      | zero => exact absurd hk (by simp)
      | succ k =>
          have hcount' : numFound = numInList := by simpa using hcount
          rw [sanityFrom, if_pos (hlast ▸ hs.start_eq_end.mpr rfl), hcount']
          rfl
  | cons m ns ih =>
      intro n p k numFound hs hlast hcount hk
      cases k with
      | zero => exact absurd hk (by simp)
      | succ k =>
          have hne : p ≠ last := fun he => absurd (hs.start_eq_end.mp (he.trans hlast)) (by simp)
          rw [List.length_cons, Int.natCast_succ] at hcount
          obtain ⟨hp, p', hn, hrest⟩ := hs.head
          rw [sanityFrom, if_neg hne, assert_bind (by omega), hp, bind_eq_of_ok (deref_eq hn)]
          refine ih hrest ?_ (by omega) (Nat.lt_of_succ_lt_succ hk)
          rw [hlast, List.getLast?_cons_of_ne_nil (by simp)]

/-- **`SanityCheck`** finds nothing wrong. -/
theorem Chain.sanityCheck_eq (h : Chain l ns) : sanityCheck l = .ok () l := by
  unfold sanityCheck
  rw [get_bind]
  cases ns with
  | nil =>
      rw [if_pos (h.first_eq_none.mpr rfl)]
      exact assert_eq ⟨h.count, h.last_eq_none.mpr rfl⟩ l
  | cons n ns =>
      have hfirst : l.first ≠ none := fun he => absurd (h.first_eq_none.mp he) (by simp)
      have hend : ∃ b y, l.last = some b ∧ l.heap.cell b = some ⟨y, none⟩ := by
        obtain ⟨us, ⟨b, y⟩, he⟩ := List.eq_nil_or_concat (n :: ns) |>.resolve_left (by simp)
        rw [he, List.concat_eq_append] at h
        exact ⟨b, y, h.end_eq⟩
      obtain ⟨b, y, hlast, hb⟩ := hend
      have hderef : deref l.last l = .ok ⟨y, none⟩ l := by
        rw [hlast]
        exact deref_eq hb
      rw [if_neg hfirst]
      by_cases hns : l.first = l.last
      · have hone : l.numInList = 1 := by rw [h.count, h.first_eq_last.mp hns]; rfl
        rw [if_pos hns, assert_bind hone, bind_eq_of_ok hderef]
        exact assert_eq rfl l
      · have hcount : (1 : Int) + ns.length = l.numInList := by
          rw [h.count, List.length_cons, Int.natCast_succ]
          omega
        rw [if_neg hns, bind_eq_of_ok (sanityFrom_eq h.linked h.lastAt hcount (by omega)),
          assert_bind rfl, bind_eq_of_ok hderef]
        exact assert_eq rfl l

/-- **The list represents the sequence**, and has left the rest of the memory as `other` has it. -/
def Represents (other : Nat → Option (ListElement α)) (l : LinkedList α) (xs : List α) : Prop :=
  xs.Nodup ∧ ∃ ns, Holds other l ns ∧ ns.map Prod.snd = xs

theorem Represents.sanityCheck {xs : List α} (h : Represents other l xs) :
    sanityCheck l = .ok () l := by
  obtain ⟨_, ns, hh, _⟩ := h
  exact hh.sanityCheck_eq

theorem represents_new (heap : Heap (ListElement α)) : Represents heap.cell (new heap) [] :=
  ⟨List.nodup_nil, [], holds_new heap, rfl⟩

variable [DecidableEq α]

/-- **`IsInList`** looks at every item. -/
theorem isInListFrom_eq : ∀ {ns : List (Nat × α)} {p : Option Nat} {k : Nat},
    Seg l.heap.cell p ns none → ns.length ≤ k →
    isInListFrom item k p l = .ok (decide (item ∈ ns.map Prod.snd)) l := by
  intro ns
  induction ns with
  | nil =>
      intro p k hs _
      cases hs
      cases k <;> rfl
  | cons n ns ih =>
      intro p k hs hk
      obtain ⟨rfl, p', hn, hrest⟩ := hs.head
      cases k with
      | zero => exact absurd hk (by simp)
      | succ k =>
          rw [isInListFrom, bind_eq_of_ok (deref_eq hn)]
          by_cases hx : item = n.2
          · rw [if_pos hx, hx]
            simp
            rfl
          · rw [if_neg hx, ih hrest (Nat.le_of_succ_le_succ hk)]
            simp [hx]

theorem Chain.isInList_eq (h : Chain l ns) (item : α) :
    isInList item l = .ok (decide (item ∈ ns.map Prod.snd)) l := by
  unfold isInList
  rw [get_bind]
  exact isInListFrom_eq h.linked (Nat.le_succ_of_le h.linked.length_le)

theorem Holds.begin_eq (h : Holds other l ns) (hitem : item ∉ ns.map Prod.snd) (wish : Nat) :
    ∃ a l', begin wish item l = .ok (some a) l' ∧ Pending other l' ns a item := by
  have hp := h.alloc wish item
  refine ⟨_, _, ?_, hp⟩
  have hnew : newElement wish item l = .ok (some (l.heap.place wish))
      { l with heap := l.heap.alloc wish ⟨item, none⟩ } := rfl
  unfold begin
  rw [bind_eq_of_ok hnew, bind_eq_of_ok (hp.isInList_eq item), assert_bind (decide_eq_false hitem)]
  rfl

theorem finish_eq {ms : List (Nat × α)}
    (h : Holds other { l with numInList := l.numInList + 1 } ms) (hitem : item ∈ ms.map Prod.snd) :
    finish item l = .ok () { l with numInList := l.numInList + 1 } := by
  unfold finish
  rw [modify_bind, bind_eq_of_ok (h.isInList_eq item)]
  exact assert_eq (decide_eq_true hitem) _

/-- **`Append`.** -/
theorem Holds.append (h : Holds other l ns) (hitem : item ∉ ns.map Prod.snd) (wish : Nat) :
    ∃ a l', append wish item l = .ok () l' ∧ Holds other l' (ns ++ [(a, item)]) := by
  obtain ⟨a, l₁, hbegin, hp⟩ := h.begin_eq hitem wish
  have hin : item ∈ (ns ++ [(a, item)]).map Prod.snd := by simp
  have hlink : ∃ l₂, linkLast (some a) l₁ = .ok () l₂ ∧
      Holds other { l₂ with numInList := l₂.numInList + 1 } (ns ++ [(a, item)]) := by
    unfold linkLast
    rw [get_bind, hp.isEmpty_eq]
    rcases ns.eq_nil_or_concat with rfl | ⟨us, ⟨b, y⟩, rfl⟩
    · exact ⟨_, rfl, hp.link_only⟩
    · rw [List.concat_eq_append] at hp ⊢
      obtain ⟨l₂, hset, hh⟩ := hp.setNext_last
      rw [if_neg (by simp), bind_eq_of_ok hset]
      exact ⟨_, rfl, hh⟩
  obtain ⟨l₂, hlink, hh⟩ := hlink
  refine ⟨a, _, ?_, hh⟩
  unfold LinkedList.append
  rw [bind_eq_of_ok hbegin, bind_eq_of_ok hlink]
  exact finish_eq hh hin

/-- **`Prepend`.** -/
theorem Holds.prepend (h : Holds other l ns) (hitem : item ∉ ns.map Prod.snd) (wish : Nat) :
    ∃ a l', prepend wish item l = .ok () l' ∧ Holds other l' ((a, item) :: ns) := by
  obtain ⟨a, l₁, hbegin, hp⟩ := h.begin_eq hitem wish
  have hlink : ∃ l₂, linkFirst (some a) l₁ = .ok () l₂ ∧
      Holds other { l₂ with numInList := l₂.numInList + 1 } ((a, item) :: ns) := by
    unfold linkFirst
    rw [get_bind, hp.isEmpty_eq]
    cases ns with
    | nil => exact ⟨_, rfl, hp.link_only⟩
    | cons n ns =>
        rw [if_neg (by simp), bind_eq_of_ok (setNext_eq hp.waiting l₁.first)]
        exact ⟨_, rfl, hp.link_front (by simp)⟩
  obtain ⟨l₂, hlink, hh⟩ := hlink
  refine ⟨a, _, ?_, hh⟩
  unfold LinkedList.prepend
  rw [bind_eq_of_ok hbegin, bind_eq_of_ok hlink]
  exact finish_eq hh (by simp)

/-- The loop of **`Remove`**, behind the node `b`. -/
theorem removeFrom_eq : ∀ {ms : List (Nat × α)} (us : List (Nat × α)) {b : Nat} {y : α}
    {p : Option Nat} {k : Nat},
    Holds other l (us ++ (b, y) :: ms) → l.heap.cell b = some ⟨y, p⟩ → Seg l.heap.cell p ms none →
    item ∈ ms.map Prod.snd → ms.length ≤ k →
    ∃ c l' ws, removeFrom item k (some b) p l = .ok (some c) l' ∧
      Holds other l' (us ++ (b, y) :: ws) ∧ ws.map Prod.snd = (ms.map Prod.snd).erase item := by
  intro ms
  induction ms with
  | nil => intro _ _ _ _ _ _ _ _ hitem _; exact absurd hitem List.not_mem_nil
  | cons n ms ih =>
      obtain ⟨c, z⟩ := n
      intro us b y p k h hb hs hitem hk
      obtain ⟨rfl, q, hc, hrest⟩ := hs.head
      cases k with
      | zero => exact absurd hk (by simp)
      | succ k =>
          rw [removeFrom, bind_eq_of_ok (deref_eq hc)]
          by_cases hz : item = z
          · have hbc : c ≠ b := by
              have hnd := h.nodup
              simp only [List.map_append, List.map_cons, List.nodup_append, List.nodup_cons,
                List.mem_cons, not_or] at hnd
              exact fun he => hnd.2.1.1.1 he.symm
            have hcell := Heap.write_cell hb ⟨y, q⟩
            -- the end of the list is now at `b` when `c` was the last one
            have hlast : (if q = none then some b else l.last)
                = (us ++ (b, y) :: ms).getLast?.map Prod.fst := by
              by_cases hq : q = none
              · rw [if_pos hq, hrest.start_eq_none.mp hq]
                simp
              · have hne : ms ≠ [] := fun he => hq (hrest.start_eq_none.mpr he)
                rw [if_neg hq, h.lastAt]
                simp [List.getLast?_append, List.getLast?_cons_of_ne_nil hne]
            have hfix := fixLast_eq (l := { l with heap := l.heap.write b ⟨y, q⟩ }) (b := b)
              (y := y) (q := q) (by rw [hcell, upd_self])
            have hdelete := delete_eq (a := c) (e := ⟨z, q⟩)
              (l := ⟨l.heap.write b ⟨y, q⟩, l.first, if q = none then some b else l.last,
                l.numInList⟩) (by rw [hcell, upd_ne _ _ hbc, hc])
            rw [if_pos hz, bind_eq_of_ok (setNext_eq hb q), bind_eq_of_ok hfix,
              bind_eq_of_ok hdelete, modify_bind]
            refine ⟨c, _, ms, rfl, h.unlink_after hc hb hlast, ?_⟩
            rw [List.map_cons, hz, List.erase_cons_head]
          · have hin : item ∈ ms.map Prod.snd := by
              rw [List.map_cons] at hitem
              exact (List.mem_cons.mp hitem).resolve_left hz
            rw [if_neg hz]
            rw [List.append_cons] at h
            obtain ⟨c', l', ws, hrun, hh, hws⟩ :=
              ih _ h hc hrest hin (Nat.le_of_succ_le_succ hk)
            rw [← List.append_cons] at hh
            refine ⟨c', l', (c, z) :: ws, hrun, hh, ?_⟩
            rw [List.map_cons, List.map_cons, hws,
              List.erase_cons_tail (by simpa using fun he : z = item => hz he.symm)]

theorem Holds.unlink (h : Holds other l ns) (hitem : item ∈ ns.map Prod.snd) :
    ∃ l' ns', unlink item l = .ok () l' ∧ Holds other l' ns' ∧
      ns'.map Prod.snd = (ns.map Prod.snd).erase item := by
  cases ns with
  | nil => exact absurd hitem List.not_mem_nil
  | cons n ns =>
      obtain ⟨hfirst, p, hn, hrest⟩ := h.linked.head
      unfold LinkedList.unlink
      rw [get_bind, hfirst, bind_eq_of_ok (deref_eq hn)]
      by_cases hx : item = n.2
      · obtain ⟨l', hfront, hh⟩ := h.removeFront
        refine ⟨l', ns, ?_, hh, by rw [List.map_cons, hx, List.erase_cons_head]⟩
        rw [if_pos hx, bind_eq_of_ok hfront]
        exact assert_eq hx l'
      · have hin : item ∈ ns.map Prod.snd := by
          rw [List.map_cons] at hitem
          exact (List.mem_cons.mp hitem).resolve_left hx
        obtain ⟨c, l', ws, hrun, hh, hws⟩ := removeFrom_eq [] (k := l.heap.top + 1) h hn hrest
          hin (Nat.le_succ_of_le hrest.length_le)
        refine ⟨l', n :: ws, ?_, hh, ?_⟩
        · rw [if_neg hx, bind_eq_of_ok hrun]
          exact assert_eq (by simp) l'
        · rw [List.map_cons, List.map_cons, hws,
            List.erase_cons_tail (by simpa using fun he : n.2 = item => hx he.symm)]

/-- **`Remove`**, of an item that is there once. -/
theorem Holds.remove (h : Holds other l ns) (hnd : (ns.map Prod.snd).Nodup)
    (hitem : item ∈ ns.map Prod.snd) :
    ∃ l' ns', remove item l = .ok () l' ∧ Holds other l' ns' ∧
      ns'.map Prod.snd = (ns.map Prod.snd).erase item := by
  obtain ⟨l', ns', hrun, hh, hns⟩ := h.unlink hitem
  refine ⟨l', ns', ?_, hh, hns⟩
  have hout : item ∉ ns'.map Prod.snd := by
    rw [hns]
    exact hnd.not_mem_erase
  unfold LinkedList.remove
  rw [bind_eq_of_ok (h.isInList_eq item), assert_bind (decide_eq_true hitem), bind_eq_of_ok hrun,
    bind_eq_of_ok (hh.isInList_eq item)]
  exact assert_eq (decide_eq_false hout) l'

/-! ## The sequence -/

/-- What a call does to a sequence, and what it answers. -/
inductive SeqStep : List α → Call α → Answer α → List α → Prop where
  | append (xs : List α) (wish : Nat) (item : α) :
      SeqStep xs (.append wish item) .done (xs ++ [item])
  | prepend (xs : List α) (wish : Nat) (item : α) :
      SeqStep xs (.prepend wish item) .done (item :: xs)
  | removeFront (x : α) (xs : List α) : SeqStep (x :: xs) .removeFront (.item x) xs
  | remove (xs : List α) (item : α) : SeqStep xs (.remove item) .done (xs.erase item)
  | isInList (xs : List α) (item : α) :
      SeqStep xs (.isInList item) (.bool (decide (item ∈ xs))) xs

/-- What is added is not there, and what is removed is. -/
def Permitted (xs : List α) : Call α → Prop
  | .append _ item => item ∉ xs
  | .prepend _ item => item ∉ xs
  | .removeFront => xs ≠ []
  | .remove item => item ∈ xs
  | .isInList _ => True

/-- **One call.** -/
theorem Represents.call {xs : List α} (h : Represents other l xs) {c : Call α}
    (hc : Permitted xs c) :
    ∃ r l' xs', LinkedList.call c l = .ok r l' ∧ SeqStep xs c r xs' ∧ Represents other l' xs' := by
  obtain ⟨hnd, ns, hh, rfl⟩ := h
  cases c with
  | append wish item =>
      obtain ⟨a, l', hrun, hh'⟩ := hh.append hc wish
      have hitems : (ns ++ [(a, item)]).map Prod.snd = ns.map Prod.snd ++ [item] := by simp
      refine ⟨_, l', _, bind_eq_of_ok hrun, .append _ wish item, ?_, _, hh', hitems⟩
      exact List.nodup_append.mpr ⟨hnd, List.nodup_singleton item, fun x hx y hy he =>
        hc (List.mem_singleton.mp hy ▸ he ▸ hx)⟩
  | prepend wish item =>
      obtain ⟨a, l', hrun, hh'⟩ := hh.prepend hc wish
      exact ⟨_, l', _, bind_eq_of_ok hrun, .prepend _ wish item, List.nodup_cons.mpr ⟨hc, hnd⟩, _,
        hh', rfl⟩
  | removeFront =>
      cases ns with
      | nil => exact absurd rfl hc
      | cons n ns =>
          obtain ⟨l', hrun, hh'⟩ := hh.removeFront
          exact ⟨_, l', _, bind_eq_of_ok hrun, .removeFront n.2 (ns.map Prod.snd),
            (List.nodup_cons.mp hnd).2, ns, hh', rfl⟩
  | remove item =>
      obtain ⟨l', ns', hrun, hh', hns⟩ := hh.remove hnd hc
      exact ⟨_, l', _, bind_eq_of_ok hrun, .remove _ item, hnd.erase item, ns', hh', hns⟩
  | isInList item =>
      exact ⟨_, l, _, bind_eq_of_ok (hh.isInList_eq item), .isInList _ item, hnd, ns, hh, rfl⟩

/-- **The list is a sequence, through every history.** -/
theorem list_represents_sequence (heap : Heap (ListElement α)) {calls : List (Call α)}
    (hcalls : Allowed SeqStep Permitted [] calls) :
    ∃ answers l xs ns,
      runCalls call calls (new heap) = .ok answers l ∧
      runCalls (watched sanityCheck call) calls (new heap) = .ok answers l ∧
      History SeqStep [] calls answers xs ∧
      Seg l.heap.cell l.first ns none ∧ (ns.map Prod.fst).Nodup ∧
      l.numInList = ns.length ∧ l.last = ns.getLast?.map Prod.fst ∧
      (l.first = none ↔ xs = []) ∧ (l.last = none ↔ xs = []) ∧ ns.map Prod.snd = xs ∧
      ∀ a, a ∉ ns.map Prod.fst → l.heap.cell a = heap.cell a := by
  obtain ⟨answers, l, xs, hrun, hwatched, hhist, hrep⟩ := Base.runCalls_watched _
    (fun _ _ => Represents.sanityCheck) (fun _ _ _ hR hc => hR.call hc) calls
    (represents_new heap) hcalls
  obtain ⟨_, ns, hh, hitems⟩ := hrep
  have hnil : ns = [] ↔ xs = [] := by rw [← hitems, List.map_eq_nil_iff]
  exact ⟨answers, l, xs, ns, hrun, hwatched, hhist, hh.linked, hh.nodup, hh.count, hh.lastAt,
    hh.first_eq_none.trans hnil, hh.last_eq_none.trans hnil, hitems, hh.rest⟩

/-- The last item is removed, and its memory is used again for the next. -/
theorem list_represents_sequence_reuse :
    ∃ answers l xs ns,
      runCalls call [.append 0 5, .append 1 6, .remove 6, .prepend 1 7, .removeFront]
        (new (Heap.empty : Heap (ListElement Nat))) = .ok answers l ∧
      runCalls (watched sanityCheck call)
        [.append 0 5, .append 1 6, .remove 6, .prepend 1 7, .removeFront]
        (new Heap.empty) = .ok answers l ∧
      History SeqStep [] [.append 0 5, .append 1 6, .remove 6, .prepend 1 7, .removeFront]
        answers xs ∧
      Seg l.heap.cell l.first ns none ∧ (ns.map Prod.fst).Nodup ∧
      l.numInList = ns.length ∧ l.last = ns.getLast?.map Prod.fst ∧
      (l.first = none ↔ xs = []) ∧ (l.last = none ↔ xs = []) ∧ ns.map Prod.snd = xs ∧
      ∀ a, a ∉ ns.map Prod.fst → l.heap.cell a = Heap.empty.cell a := by
  refine list_represents_sequence Heap.empty ?_
  refine .cons (by simp [Permitted]) fun _ _ h1 => ?_
  cases h1
  refine .cons (by simp [Permitted]) fun _ _ h2 => ?_
  cases h2
  refine .cons (by simp [Permitted]) fun _ _ h3 => ?_
  cases h3
  refine .cons (by simp [Permitted]) fun _ _ h4 => ?_
  cases h4
  exact .cons (by simp [Permitted]) fun _ _ _ => .nil _

end Nachos.LinkedList
