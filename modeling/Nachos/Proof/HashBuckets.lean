import Nachos.Lib.HashTable
import Nachos.Proof.LinkedList

/-!
# Lists that share a memory

The buckets of a hash table are lists in one memory, and no two of them share an element. An
operation on one of them does to the memory what `Holds` says: it writes the elements of its own
list and what it allocates, so the others are left as they were.

While the table is built again, the lists of the old array are there as well. `Stored t old ps` is
about both: the buckets of `t` are those of `ps`, and nothing is shared among them and `old`.
-/

namespace Nachos

open Base (Heap Node Seg bind_eq_of_ok get_bind)

/-- A list object and the memory it points into. -/
def ListObject.inMemory {α : Type} (o : ListObject) (heap : Heap (ListElement α)) : LinkedList α :=
  ⟨heap, o.first, o.last, o.numInList⟩

namespace LinkedList

variable {α : Type}

/-- The fields of the list itself. -/
def object (l : LinkedList α) : ListObject := ⟨l.first, l.last, l.numInList⟩

/-- What is in memory beside some nodes. -/
def outside (heap : Heap (ListElement α)) (ns : List (Nat × α)) : Nat → Option (ListElement α) :=
  fun a => if a ∈ ns.map Prod.fst then none else heap.cell a

theorem Chain.holds {l : LinkedList α} {ns : List (Nat × α)} (h : Chain l ns) :
    Holds (outside l.heap ns) l ns where
  toChain := h
  own := fun _ ha => if_pos ha
  rest := fun _ ha => (if_neg ha).symm

end LinkedList

namespace HashTable

open LinkedList (ListM Chain Holds outside)

variable {α β : Type}

/-! ## Apart -/

/-- The lists are chains in one memory, without an element in common. -/
structure Apart (heap : Heap (ListElement α)) (ps : List (ListObject × List (Nat × α))) : Prop where
  chains : ∀ p ∈ ps, Chain (p.1.inMemory heap) p.2
  apart : ps.Pairwise fun p q => ∀ a ∈ p.2.map Prod.fst, a ∉ q.2.map Prod.fst

variable {heap heap' : Heap (ListElement α)} {ps qs us vs : List (ListObject × List (Nat × α))}
  {o o' : ListObject} {ns ns' : List (Nat × α)}

theorem apart_nil (heap : Heap (ListElement α)) : Apart heap [] := ⟨by simp, .nil⟩

theorem Apart.perm (h : Apart heap ps) (hp : ps.Perm qs) : Apart heap qs where
  chains := fun p hpq => h.chains p (hp.mem_iff.mpr hpq)
  apart := by
    refine (hp.pairwise_iff ?_).mp h.apart
    intro p q hpq a ha hb
    exact hpq a hb ha

theorem Apart.tail {p : ListObject × List (Nat × α)} (h : Apart heap (p :: ps)) :
    Apart heap ps where
  chains := fun q hq => h.chains q (List.mem_cons_of_mem p hq)
  apart := (List.pairwise_cons.mp h.apart).2

/-- **One list changes, the others stay.** -/
theorem Apart.step (h : Apart heap ((o, ns) :: ps))
    (h' : Holds (outside heap ns) (o'.inMemory heap') ns') : Apart heap' ((o', ns') :: ps) := by
  obtain ⟨hapart, htail⟩ := List.pairwise_cons.mp h.apart
  -- a node of another list is neither written nor allocated
  have hother : ∀ q ∈ ps, ∀ a ∈ q.2.map Prod.fst,
      a ∉ ns'.map Prod.fst ∧ heap'.cell a = heap.cell a := by
    intro q hq a ha
    have hout : outside heap ns a = heap.cell a := if_neg fun hin => hapart q hq a hin ha
    have hne : heap.cell a ≠ none := fun hnone =>
      (h.chains q (List.mem_cons_of_mem _ hq)).linked.notMem hnone ha
    have hnot : a ∉ ns'.map Prod.fst := fun hin => hne (hout ▸ h'.own a hin)
    exact ⟨hnot, (h'.rest a hnot).trans hout⟩
  refine ⟨?_, List.pairwise_cons.mpr ⟨?_, htail⟩⟩
  · intro q hq
    rcases List.mem_cons.mp hq with rfl | hq
    · exact h'.toChain
    · have hc := h.chains q (List.mem_cons_of_mem _ hq)
      exact ⟨hc.linked.frame fun a ha => (hother q hq a ha).2, hc.lastAt, hc.count⟩
  · intro q hq a ha hin
    exact (hother q hq a hin).1 ha

/-- The same, wherever the list is. -/
theorem Apart.step_at (h : Apart heap (us ++ (o, ns) :: vs))
    (h' : Holds (outside heap ns) (o'.inMemory heap') ns') :
    Apart heap' (us ++ (o', ns') :: vs) :=
  ((h.perm List.perm_middle).step h').perm List.perm_middle.symm

/-- The empty lists of a new array. -/
theorem Apart.append_empty (h : Apart heap ps) (n : Nat) :
    Apart heap (ps ++ List.replicate n (⟨none, none, 0⟩, [])) where
  chains := by
    intro p hp
    rcases List.mem_append.mp hp with hp | hp
    · exact h.chains p hp
    · rw [List.eq_of_mem_replicate hp]
      exact ⟨.nil none, rfl, rfl⟩
  apart := by
    refine List.pairwise_append.mpr ⟨h.apart, ?_, ?_⟩
    · exact List.pairwise_replicate.mpr (.inr fun a ha => absurd ha List.not_mem_nil)
    · intro p _ q hq a _
      rw [List.eq_of_mem_replicate hq]
      exact List.not_mem_nil

/-! ## The table in memory -/

/-- The buckets of the table, and old lists beside them. -/
structure Stored (t : HashTable α) (old ps : List (ListObject × List (Nat × α))) : Prop where
  buckets : t.buckets = ps.map Prod.fst
  size : t.numBuckets = ps.length
  apart : Apart t.heap (old ++ ps)

/-- The items, bucket by bucket. -/
def contents (ps : List (ListObject × List (Nat × α))) : List (List α) :=
  ps.map fun p => p.2.map Prod.snd

@[simp] theorem length_contents (ps : List (ListObject × List (Nat × α))) :
    (contents ps).length = ps.length := List.length_map _

theorem contents_replicate (n : Nat) (o : ListObject) :
    contents (List.replicate n (o, ([] : List (Nat × α)))) = List.replicate n [] :=
  List.map_replicate

theorem contents_append (ps qs : List (ListObject × List (Nat × α))) :
    contents (ps ++ qs) = contents ps ++ contents qs := List.map_append

theorem contents_cons (o : ListObject) (ns : List (Nat × α))
    (ps : List (ListObject × List (Nat × α))) :
    contents ((o, ns) :: ps) = ns.map Prod.snd :: contents ps := rfl

variable {t : HashTable α} {old : List (ListObject × List (Nat × α))} {op : ListM α β} {r : β}

theorem Stored.chain (h : Stored t old (us ++ (o, ns) :: vs)) : Chain (o.inMemory t.heap) ns :=
  h.apart.chains (o, ns) (List.mem_append_right _ (List.mem_append_right _ List.mem_cons_self))

theorem Stored.bucket_lt (h : Stored t old (us ++ (o, ns) :: vs)) : us.length < t.numBuckets := by
  rw [h.size, List.length_append, List.length_cons]
  omega

theorem onList_eq {l : LinkedList α} (hop : op (o.inMemory t.heap) = .ok r l) :
    onList o op t = .ok (r, l.object) { t with heap := l.heap } := by
  unfold onList
  rw [get_bind]
  unfold ListObject.inMemory at hop
  rw [hop]
  rfl

/-- An operation on a list of the old array. -/
theorem Stored.onList {l : LinkedList α} (h : Stored t ((o, ns) :: old) ps)
    (hop : op (o.inMemory t.heap) = .ok r l) (hl : Holds (outside t.heap ns) l ns') :
    ∃ t', onList o op t = .ok (r, l.object) t' ∧ Stored t' ((l.object, ns') :: old) ps ∧
      t'.numItems = t.numItems :=
  ⟨_, onList_eq hop, ⟨h.buckets, h.size, h.apart.step hl⟩, rfl⟩

/-- **An operation on one bucket.** -/
theorem Stored.onBucket {l : LinkedList α} (h : Stored t old (us ++ (o, ns) :: vs))
    (hop : op (o.inMemory t.heap) = .ok r l) (hl : Holds (outside t.heap ns) l ns') :
    ∃ t', onBucket us.length op t = .ok r t' ∧
      Stored t' old (us ++ (l.object, ns') :: vs) ∧ t'.numItems = t.numItems := by
  have hget : t.buckets[us.length]? = some o := by
    rw [h.buckets]
    simp
  have hset : t.buckets.set us.length l.object = (us ++ (l.object, ns') :: vs).map Prod.fst := by
    rw [h.buckets]
    simp
  refine ⟨{ t with heap := l.heap, buckets := t.buckets.set us.length l.object }, ?_,
    ⟨hset, ?_, ?_⟩, rfl⟩
  · unfold HashTable.onBucket
    rw [get_bind, hget]
    dsimp only
    rw [bind_eq_of_ok (onList_eq hop)]
    rfl
  · have hsize := h.size
    simp only [List.length_append, List.length_cons] at hsize ⊢
    exact hsize
  · have hapart := h.apart
    rw [← List.append_assoc] at hapart ⊢
    exact hapart.step_at hl

/-- An operation that only looks. -/
theorem Stored.onBucket_read (h : Stored t old (us ++ (o, ns) :: vs))
    (hop : op (o.inMemory t.heap) = .ok r (o.inMemory t.heap)) :
    HashTable.onBucket us.length op t = .ok r t := by
  have hget : t.buckets[us.length]? = some o := by
    rw [h.buckets]
    simp
  have hset : t.buckets.set us.length o = t.buckets := by
    rw [h.buckets]
    simp
  unfold HashTable.onBucket
  rw [get_bind, hget]
  dsimp only
  rw [bind_eq_of_ok (onList_eq hop)]
  change EStateM.Result.ok r { t with buckets := t.buckets.set us.length o } = .ok r t
  rw [hset]

/-- A new array: the buckets there were are the old ones now. -/
theorem Stored.initBuckets (h : Stored t [] ps) (n : Nat) :
    ∃ t', initBuckets n t = .ok () t' ∧
      Stored t' ps (List.replicate n (⟨none, none, 0⟩, [])) ∧ t'.numItems = t.numItems :=
  ⟨_, rfl, ⟨by simp, by simp, h.apart.append_empty n⟩, rfl⟩

/-- The buckets before and behind one of them. -/
theorem exists_bucket {j : Nat} (hj : j < ps.length) :
    ∃ us o ns vs, ps = us ++ (o, ns) :: vs ∧ us.length = j := by
  refine ⟨ps.take j, (ps.get ⟨j, hj⟩).1, (ps.get ⟨j, hj⟩).2, ps.drop (j + 1), ?_, ?_⟩
  · rw [Prod.eta, List.get_eq_getElem, List.getElem_cons_drop, List.take_append_drop]
  · rw [List.length_take]
    omega

end HashTable

end Nachos
