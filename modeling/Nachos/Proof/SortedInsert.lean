import Nachos.Base.StableSort
import Nachos.Proof.LinkedList

/-!
# A sorted list is a stable sort

The log of a sorted list is what has been inserted and not yet removed, in the order in which it was
inserted. The chain is a stable sort of the log: `Insert` walks past everything that is not bigger,
so what compares equal stays in front of the newcomer. Its four ways through the chain are the ways
of `SortedList.insert` through a list.
-/

namespace Nachos

open Base (Comparator StableSorted ComesFirst)

/-! ## The sort -/

namespace SortedList

variable {α : Type} {compare : α → α → Int} {item : α}

theorem filter_insert_of_neg {p : α → Bool} (hp : p item = false) :
    ∀ xs : List α, (insert compare item xs).filter p = xs.filter p := by
  intro xs
  induction xs with
  | nil => rw [insert, List.filter_cons_of_neg (by simp [hp])]
  | cons x xs ih =>
      rw [insert]
      split
      · rw [List.filter_cons_of_neg (by simp [hp])]
      · rw [List.filter_cons, List.filter_cons, ih]

/-- What compares equal is in front of the newcomer. -/
theorem filter_insert_of_eq (hc : Comparator compare) {x : α} (hx : compare x item = 0) :
    ∀ {xs : List α}, xs.Pairwise (fun y z => compare y z ≤ 0) →
      (insert compare item xs).filter (fun y => compare x y = 0)
        = xs.filter (fun y => compare x y = 0) ++ [item] := by
  intro xs
  induction xs with
  | nil =>
      intro _
      rw [insert, List.filter_cons, if_pos (decide_eq_true hx)]
      rfl
  | cons y ys ih =>
      intro hs
      obtain ⟨hy, hys⟩ := List.pairwise_cons.mp hs
      rw [insert]
      split
      · rename_i hlt
        -- everything from here on is bigger
        have hbig : ∀ z ∈ y :: ys, ¬ compare x z = 0 := by
          intro z hz hxz
          have hzi := hc.eq_trans (hc.eq_symm hxz) hx
          have hyi := (hc.swap item y).mp hlt
          rcases List.mem_cons.mp hz with rfl | hz
          · omega
          · have := hc.trans y z item (hy z hz) (by omega)
            omega
        have hnil : (y :: ys).filter (fun z => compare x z = 0) = [] :=
          List.filter_eq_nil_iff.mpr fun z hz => by simpa using hbig z hz
        rw [List.filter_cons, if_pos (decide_eq_true hx), hnil]
        rfl
      · rw [List.filter_cons, List.filter_cons, ih hys]
        split <;> rfl

/-- **`Insert` sorts stably.** -/
theorem stableSorted_insert (hc : Comparator compare) {log xs : List α}
    (h : StableSorted compare log xs) (item : α) :
    StableSorted compare (log ++ [item]) (insert compare item xs) where
  perm := (insert_perm compare item xs).trans
    ((h.perm.cons item).trans (List.perm_append_singleton item log).symm)
  sorted := insert_pairwise hc.trans (fun _ _ hlt => Int.le_of_lt hlt)
    (fun y _ hge => by
      have := hc.swap item y
      have := hc.swap y item
      omega) h.sorted
  stable := by
    intro x
    rw [List.filter_append]
    by_cases hx : compare x item = 0
    · rw [filter_insert_of_eq hc hx h.sorted, h.stable x,
        List.filter_cons, if_pos (decide_eq_true hx)]
      rfl
    · rw [filter_insert_of_neg (p := fun y => compare x y = 0) (decide_eq_false hx), h.stable x,
        List.filter_cons, if_neg (by simpa using hx), List.filter_nil, List.append_nil]

end SortedList

/-! ## The chain -/

namespace LinkedList

open Base (Heap Node Seg History Allowed runCalls watched bind_eq_of_ok get_bind modify_bind upd
  upd_self upd_ne)

variable {α : Type} {l : LinkedList α} {ns : List (Nat × α)} {compare : α → α → Int}
  {other : Nat → Option (ListElement α)} {item : α} {a : Nat}

/-- A node with another behind it has a link to it. -/
theorem Chain.link {us vs : List (Nat × α)} {n : Nat × α} (h : Chain l (us ++ n :: vs)) :
    ∃ p, l.heap.cell n.1 = some ⟨n.2, p⟩ ∧ Seg l.heap.cell p vs none := by
  obtain ⟨_, _, hs⟩ := h.linked.split
  exact hs.head.2

theorem Pending.ne_new {us vs : List (Nat × α)} {b : Nat} {y : α}
    (h : Pending other l (us ++ (b, y) :: vs) a item) : b ≠ a :=
  fun he => h.apart (by rw [he]; simp)

/-- Between the node `b` and the one behind it. -/
theorem Pending.link_between {us vs : List (Nat × α)} {b : Nat} {y : α} {q : Option Nat}
    (h : Pending other l (us ++ (b, y) :: vs) a item) (hb : l.heap.cell b = some ⟨y, q⟩)
    (hs : Seg l.heap.cell q vs none) (hne : vs ≠ []) :
    Holds other ⟨(l.heap.write a ⟨item, q⟩).write b ⟨y, some a⟩, l.first, l.last, l.numInList + 1⟩
      (us ++ (b, y) :: (a, item) :: vs) := by
  have hab := h.ne_new
  have hca := Heap.write_cell h.waiting ⟨item, q⟩
  have hb' : (l.heap.write a ⟨item, q⟩).cell b = some ⟨y, q⟩ := by rw [hca, upd_ne _ _ hab, hb]
  have hcb := Heap.write_cell hb' ⟨y, some a⟩
  refine h.link_after hs ?_ ?_ ?_ ?_
  · rw [hcb, upd_ne _ _ fun he : a = b => hab he.symm, hca, upd_self]
  · rw [hcb, upd_self]
  · intro d hda hdb
    rw [hcb, upd_ne _ _ hdb, hca, upd_ne _ _ hda]
  · rw [h.lastAt]
    simp [List.getLast?_append, List.getLast?_cons_of_ne_nil hne]

/-- The loop of **`Insert`** at the node `b`: it puts the new element in front of the first bigger
one, or gets to the end. -/
theorem insertFrom_eq (compare : α → α → Int) : ∀ {vs : List (Nat × α)} (us : List (Nat × α))
    {b : Nat} {y : α} {k : Nat},
    Pending other l (us ++ (b, y) :: vs) a item → vs.length < k →
    (∃ l' ws, insertFrom compare item (some a) k (some b) l = .ok true l' ∧
      Holds other l' (us ++ (b, y) :: ws) ∧
      ws.map Prod.snd = SortedList.insert compare item (vs.map Prod.snd)) ∨
    (insertFrom compare item (some a) k (some b) l = .ok false l ∧
      SortedList.insert compare item (vs.map Prod.snd) = vs.map Prod.snd ++ [item]) := by
  intro vs
  induction vs with
  | nil =>
      intro us b y k h hk
      obtain ⟨p, hb, hnil⟩ := h.link
      cases hnil
      cases k with
      | zero => exact absurd hk (by simp)
      | succ k =>
          rw [insertFrom, bind_eq_of_ok (deref_eq hb)]
          exact .inr ⟨rfl, rfl⟩
  | cons n vs ih =>
      obtain ⟨c, z⟩ := n
      intro us b y k h hk
      obtain ⟨p, hb, hs⟩ := h.link
      obtain ⟨rfl, q, hc, _⟩ := hs.head
      cases k with
      | zero => exact absurd hk (by simp)
      | succ k =>
          rw [insertFrom, bind_eq_of_ok (deref_eq hb)]
          dsimp only
          rw [bind_eq_of_ok (deref_eq hc), List.map_cons, SortedList.insert]
          by_cases hlt : compare item z < 0
          · have hab : b ≠ a := h.ne_new
            have hb' : (l.heap.write a ⟨item, some c⟩).cell b = some ⟨y, some c⟩ := by
              rw [Heap.write_cell h.waiting, upd_ne _ _ hab, hb]
            have hset := setNext_eq (l := { l with heap := l.heap.write a ⟨item, some c⟩ }) hb'
              (some a)
            refine .inl ⟨_, (a, item) :: (c, z) :: vs, ?_, h.link_between hb hs (by simp), ?_⟩
            · rw [if_pos hlt, bind_eq_of_ok (setNext_eq h.waiting (some c)), bind_eq_of_ok hset,
                modify_bind]
              rfl
            · rw [if_pos hlt]
              rfl
          · rw [if_neg hlt, if_neg hlt]
            rw [List.append_cons] at h
            rcases ih _ h (Nat.lt_of_succ_lt_succ hk) with ⟨l', ws, hrun, hh, hws⟩ | ⟨hrun, hend⟩
            · rw [← List.append_cons] at hh
              exact .inl ⟨l', (c, z) :: ws, hrun, hh, by rw [List.map_cons, hws]⟩
            · exact .inr ⟨hrun, by rw [hend]; rfl⟩

/-- The loop of `SortedList::SanityCheck` behind the node `b`. -/
theorem sortedFrom_eq : ∀ {ns : List (Nat × α)} {b : Nat} {y : α} {p q : Option Nat} {k : Nat},
    l.heap.cell b = some ⟨y, q⟩ → Seg l.heap.cell p ns none →
    (y :: ns.map Prod.snd).Pairwise (fun x z => compare x z ≤ 0) → ns.length ≤ k →
    sortedFrom compare k (some b) p l = .ok () l := by
  intro ns
  induction ns with
  | nil =>
      intro b y p q k _ hs _ _
      cases hs
      cases k <;> rfl
  | cons n ns ih =>
      intro b y p q k hb hs hsorted hk
      obtain ⟨rfl, p', hn, hrest⟩ := hs.head
      rw [List.map_cons] at hsorted
      obtain ⟨hle, hsorted'⟩ := List.pairwise_cons.mp hsorted
      cases k with
      | zero => exact absurd hk (by simp)
      | succ k =>
          rw [sortedFrom, bind_eq_of_ok (deref_eq hb), bind_eq_of_ok (deref_eq hn),
            assert_bind (hle n.2 List.mem_cons_self)]
          exact ih hn hrest hsorted' (Nat.le_of_succ_le_succ hk)

/-- **`SortedList::SanityCheck`** finds nothing wrong. -/
theorem Chain.sortedSanityCheck_eq (h : Chain l ns)
    (hsorted : (ns.map Prod.snd).Pairwise fun x y => compare x y ≤ 0) :
    sortedSanityCheck compare l = .ok () l := by
  unfold sortedSanityCheck
  rw [bind_eq_of_ok h.sanityCheck_eq, get_bind]
  cases ns with
  | nil =>
      rw [if_neg (not_not.mpr ((h.first_eq_none.mpr rfl).trans (h.last_eq_none.mpr rfl).symm))]
      rfl
  | cons n ns =>
      obtain ⟨hfirst, p, hn, hs⟩ := h.linked.head
      split
      · rw [hfirst, bind_eq_of_ok (deref_eq hn)]
        exact sortedFrom_eq hn hs hsorted (Nat.le_succ_of_le hs.length_le)
      · rfl

/-- The chain is a stable sort of the log. -/
def SortedBy (compare : α → α → Int) (other : Nat → Option (ListElement α)) (l : LinkedList α)
    (log : List α) : Prop :=
  log.Nodup ∧ ∃ ns, Holds other l ns ∧ StableSorted compare log (ns.map Prod.snd)

theorem SortedBy.sanityCheck {log : List α} (h : SortedBy compare other l log) :
    sortedSanityCheck compare l = .ok () l := by
  obtain ⟨_, ns, hh, hsort⟩ := h
  exact hh.sortedSanityCheck_eq hsort.sorted

theorem sortedBy_new (compare : α → α → Int) (heap : Heap (ListElement α)) :
    SortedBy compare heap.cell (new heap) [] :=
  ⟨List.nodup_nil, [], holds_new heap, .nil compare⟩

variable [DecidableEq α]

/-- **`Insert`.** -/
theorem Holds.insert (h : Holds other l ns) (hitem : item ∉ ns.map Prod.snd) (wish : Nat)
    (compare : α → α → Int) :
    ∃ l' ns', insert compare wish item l = .ok () l' ∧ Holds other l' ns' ∧
      ns'.map Prod.snd = SortedList.insert compare item (ns.map Prod.snd) := by
  obtain ⟨a, l₁, hbegin, hp⟩ := h.begin_eq hitem wish
  unfold LinkedList.insert
  rw [bind_eq_of_ok hbegin, get_bind, hp.isEmpty_eq]
  cases ns with
  | nil => exact ⟨_, [(a, item)], finish_eq hp.link_only (by simp), hp.link_only, rfl⟩
  | cons n ns =>
      obtain ⟨hfirst, p, hn, hs⟩ := hp.linked.head
      rw [if_neg (by simp), hfirst, bind_eq_of_ok (deref_eq hn), List.map_cons, SortedList.insert]
      by_cases hlt : compare item n.2 < 0
      · have hh := hp.link_front (by simp)
        rw [hfirst] at hh
        rw [if_pos hlt, if_pos hlt, bind_eq_of_ok (setNext_eq hp.waiting (some n.1))]
        exact ⟨_, (a, item) :: n :: ns, finish_eq hh (by simp), hh, rfl⟩
      · rw [if_neg hlt, if_neg hlt]
        rcases insertFrom_eq compare [] (k := l₁.heap.top + 1) hp
          (Nat.lt_succ_of_le hs.length_le) with ⟨l', ws, hrun, hh, hws⟩ | ⟨hrun, hend⟩
        · rw [bind_eq_of_ok hrun]
          exact ⟨l', n :: ws, rfl, hh, by rw [List.map_cons, hws]⟩
        · obtain ⟨us, ⟨b, y⟩, he⟩ := (List.eq_nil_or_concat (n :: ns)).resolve_left (by simp)
          rw [List.concat_eq_append] at he
          rw [he] at hp
          obtain ⟨l₂, hset, hh⟩ := hp.setNext_last
          rw [← he] at hh
          rw [bind_eq_of_ok hrun, if_neg (by simp), bind_eq_of_ok hset]
          refine ⟨_, n :: ns ++ [(a, item)], finish_eq hh (by simp), hh, ?_⟩
          rw [hend]
          simp

/-- **`RemoveFront` until nothing is left** gives the items in the order of the chain. -/
theorem Holds.drain (compare : α → α → Int) : ∀ {ns : List (Nat × α)} {l : LinkedList α},
    Holds other l ns → ∃ l', runCalls (sortedCall compare) (List.replicate ns.length .removeFront) l
      = .ok (ns.map fun n => .item n.2) l' ∧ Holds other l' [] := by
  intro ns
  induction ns with
  | nil => intro l h; exact ⟨l, rfl, h⟩
  | cons n ns ih =>
      intro l h
      obtain ⟨l₁, hrun, h₁⟩ := h.removeFront
      obtain ⟨l₂, hruns, h₂⟩ := ih h₁
      have hcall : sortedCall compare .removeFront l = .ok (.item n.2) l₁ := bind_eq_of_ok hrun
      exact ⟨l₂, Base.runCalls_cons hcall hruns, h₂⟩

/-! ## The log -/

/-- What a call does to the log, and what it answers. -/
inductive LogStep (compare : α → α → Int) : List α → SortedCall α → Answer α → List α → Prop where
  | insert (log : List α) (wish : Nat) (item : α) :
      LogStep compare log (.insert wish item) .done (log ++ [item])
  | removeFront {log : List α} {x : α} :
      ComesFirst compare log x → LogStep compare log .removeFront (.item x) (log.erase x)
  | remove (log : List α) (item : α) : LogStep compare log (.remove item) .done (log.erase item)
  | isInList (log : List α) (item : α) :
      LogStep compare log (.isInList item) (.bool (decide (item ∈ log))) log

/-- What is inserted is not there, and what is removed is. -/
def SortedPermitted (log : List α) : SortedCall α → Prop
  | .insert _ item => item ∉ log
  | .removeFront => log ≠ []
  | .remove item => item ∈ log
  | .isInList _ => True

/-- **One call.** -/
theorem SortedBy.call {log : List α} (hcmp : Comparator compare) (h : SortedBy compare other l log)
    {c : SortedCall α} (hc : SortedPermitted log c) :
    ∃ r l' log', sortedCall compare c l = .ok r l' ∧ LogStep compare log c r log' ∧
      SortedBy compare other l' log' := by
  obtain ⟨hnd, ns, hh, hsort⟩ := h
  cases c with
  | insert wish item =>
      have hitem : item ∉ ns.map Prod.snd := fun hin => hc (hsort.perm.mem_iff.mp hin)
      obtain ⟨l', ns', hrun, hh', hns⟩ := hh.insert hitem wish compare
      refine ⟨_, l', _, bind_eq_of_ok hrun, .insert log wish item, ?_, ns', hh', ?_⟩
      · exact List.nodup_append.mpr ⟨hnd, List.nodup_singleton item, fun x hx y hy he =>
          hc (List.mem_singleton.mp hy ▸ he ▸ hx)⟩
      · rw [hns]
        exact SortedList.stableSorted_insert hcmp hsort item
  | removeFront =>
      cases ns with
      | nil => exact absurd hsort.perm.nil_eq.symm hc
      | cons n ns =>
          obtain ⟨l', hrun, hh'⟩ := hh.removeFront
          have hsort' := hsort.erase n.2
          rw [List.map_cons, List.erase_cons_head] at hsort'
          exact ⟨_, l', _, bind_eq_of_ok hrun, .removeFront (hsort.comesFirst hcmp),
            hnd.erase n.2, ns, hh', hsort'⟩
  | remove item =>
      obtain ⟨l', ns', hrun, hh', hns⟩ :=
        hh.remove (hsort.perm.nodup_iff.mpr hnd) (hsort.perm.mem_iff.mpr hc)
      refine ⟨_, l', _, bind_eq_of_ok hrun, .remove log item, hnd.erase item, ns', hh', ?_⟩
      rw [hns]
      exact hsort.erase item
  | isInList item =>
      have hin : (item ∈ ns.map Prod.snd) = (item ∈ log) := propext hsort.perm.mem_iff
      have hrun := hh.isInList_eq item
      simp only [hin] at hrun
      exact ⟨_, l, _, bind_eq_of_ok hrun, .isInList log item, hnd, ns, hh, hsort⟩

/-- **The sorted list is a stable sort of its log, through every history.** -/
theorem sortedList_stable (heap : Heap (ListElement α)) (hcmp : Comparator compare)
    {calls : List (SortedCall α)} (hcalls : Allowed (LogStep compare) SortedPermitted [] calls) :
    ∃ answers l log ns,
      runCalls (sortedCall compare) calls (new heap) = .ok answers l ∧
      runCalls (watched (sortedSanityCheck compare) (sortedCall compare)) calls (new heap)
        = .ok answers l ∧
      History (LogStep compare) [] calls answers log ∧
      Seg l.heap.cell l.first ns none ∧ l.numInList = log.length ∧
      l.last = ns.getLast?.map Prod.fst ∧ StableSorted compare log (ns.map Prod.snd) ∧
      ∃ l', runCalls (sortedCall compare) (List.replicate log.length .removeFront) l
        = .ok (ns.map fun n => .item n.2) l' ∧ l'.first = none := by
  obtain ⟨answers, l, log, hrun, hwatched, hhist, _, ns, hh, hsort⟩ := Base.runCalls_watched _
    (fun _ _ => SortedBy.sanityCheck) (fun _ _ _ hR hc => hR.call hcmp hc) calls
    (sortedBy_new compare heap) hcalls
  have hlen : ns.length = log.length := by rw [← hsort.perm.length_eq, List.length_map]
  obtain ⟨l', hdrain, hempty⟩ := hh.drain compare
  exact ⟨answers, l, log, ns, hrun, hwatched, hhist, hh.linked, hlen ▸ hh.count, hh.lastAt, hsort,
    l', hlen ▸ hdrain, hempty.first_eq_none.mpr rfl⟩

/-- Two pairs with one key, a removal in between and the first one taken. -/
theorem sortedList_stable_ties :
    Comparator (fun x y : Nat × Nat => (x.1 : Int) - y.1) ∧ ∃ answers l log ns,
      runCalls (sortedCall fun x y : Nat × Nat => (x.1 : Int) - y.1)
        [.insert 0 (2, 0), .insert 1 (1, 0), .insert 2 (2, 1), .remove (1, 0), .removeFront]
        (new Heap.empty) = .ok answers l ∧
      runCalls (watched (sortedSanityCheck fun x y : Nat × Nat => (x.1 : Int) - y.1)
          (sortedCall fun x y : Nat × Nat => (x.1 : Int) - y.1))
        [.insert 0 (2, 0), .insert 1 (1, 0), .insert 2 (2, 1), .remove (1, 0), .removeFront]
        (new Heap.empty) = .ok answers l ∧
      History (LogStep fun x y : Nat × Nat => (x.1 : Int) - y.1) []
        [.insert 0 (2, 0), .insert 1 (1, 0), .insert 2 (2, 1), .remove (1, 0), .removeFront]
        answers log ∧
      Seg l.heap.cell l.first ns none ∧ l.numInList = log.length ∧
      l.last = ns.getLast?.map Prod.fst ∧
      StableSorted (fun x y : Nat × Nat => (x.1 : Int) - y.1) log (ns.map Prod.snd) ∧
      ∃ l', runCalls (sortedCall fun x y : Nat × Nat => (x.1 : Int) - y.1)
          (List.replicate log.length .removeFront) l
        = .ok (ns.map fun n => .item n.2) l' ∧ l'.first = none := by
  have hcmp : Comparator fun x y : Nat × Nat => (x.1 : Int) - y.1 :=
    ⟨fun _ _ => by omega, fun _ _ _ _ _ => by omega⟩
  refine ⟨hcmp, sortedList_stable Heap.empty hcmp ?_⟩
  refine .cons (by simp [SortedPermitted]) fun _ _ h1 => ?_
  cases h1
  refine .cons (by simp [SortedPermitted]) fun _ _ h2 => ?_
  cases h2
  refine .cons (by simp [SortedPermitted]) fun _ _ h3 => ?_
  cases h3
  refine .cons (by simp [SortedPermitted]) fun _ _ h4 => ?_
  cases h4
  exact .cons (by simp [SortedPermitted]) fun _ _ _ => .nil _

end LinkedList

end Nachos
