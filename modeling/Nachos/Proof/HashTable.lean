import Mathlib.Data.Finset.Card
import Nachos.Proof.HashBuckets

/-!
# The hash table is a map

Whatever the hash and however often the table is built again, every item is in the bucket that its
key hashes to. What is looked for in one bucket is therefore looked for in all of them, and the
table is the list of its items, in an order that does not matter because no key comes twice.
-/

namespace Nachos.HashTable

open Base (Heap Node Seg History Allowed runCalls watched guard_ok guard_bind bind_eq_of_ok get_bind
  set_bind modify_bind)
open LinkedList (ListM Chain Holds outside)

variable {α κ : Type} {hash : κ → BitVec 32} {getKey : α → κ}

theorem assert_bind {β : Type} {c : Prop} [Decidable c] (h : c) (k : Unit → HashM α β)
    (t : HashTable α) : (assert c >>= k) t = k () t := guard_bind h _ k t

theorem assert_eq {c : Prop} [Decidable c] (h : c) (t : HashTable α) :
    (assert c : HashM α Unit) t = .ok () t := guard_ok h _ t

/-! ## Placement -/

/-- **Every item is in the bucket of its hash.** -/
structure Placed (hash : κ → BitVec 32) (getKey : α → κ) (bs : List (List α)) : Prop where
  pos : 0 < bs.length
  inPlace : ∀ i xs, bs[i]? = some xs → ∀ x ∈ xs, (hash (getKey x)).toNat % bs.length = i

theorem Placed.mem {us vs : List (List α)} {xs : List α}
    (h : Placed hash getKey (us ++ xs :: vs)) {x : α} (hx : x ∈ xs) :
    (hash (getKey x)).toNat % (us ++ xs :: vs).length = us.length :=
  h.inPlace us.length xs (by simp) x hx

/-- A bucket may be changed as long as what is in it belongs there. -/
theorem Placed.change {us vs : List (List α)} {xs ys : List α}
    (h : Placed hash getKey (us ++ xs :: vs))
    (hys : ∀ y ∈ ys, (hash (getKey y)).toNat % (us ++ xs :: vs).length = us.length) :
    Placed hash getKey (us ++ ys :: vs) := by
  have hlen : (us ++ ys :: vs).length = (us ++ xs :: vs).length := by simp
  refine ⟨hlen ▸ h.pos, ?_⟩
  intro i zs hi z hz
  rw [hlen]
  by_cases hiu : i = us.length
  · subst hiu
    have hzs : ys = zs := by simpa using hi
    exact hys z (hzs ▸ hz)
  · have hsame : (us ++ xs :: vs)[i]? = some zs := by
      rw [← hi]
      rcases Nat.lt_or_ge i us.length with hlt | hge
      · rw [List.getElem?_append_left hlt, List.getElem?_append_left hlt]
      · obtain ⟨k, hk⟩ : ∃ k, i - us.length = k + 1 := ⟨i - us.length - 1, by omega⟩
        rw [List.getElem?_append_right hge, List.getElem?_append_right hge, hk,
          List.getElem?_cons_succ, List.getElem?_cons_succ]
    exact h.inPlace i zs hsame z hz

theorem placed_empty (hash : κ → BitVec 32) (getKey : α → κ) {n : Nat} (hn : 0 < n) :
    Placed hash getKey (List.replicate n []) where
  pos := by rwa [List.length_replicate]
  inPlace := by
    intro i xs hi x hx
    rw [List.getElem?_replicate] at hi
    split at hi
    · injection hi with hi
      rw [← hi] at hx
      exact absurd hx List.not_mem_nil
    · exact absurd hi (by simp)

/-- An item of another bucket has another key. -/
theorem Placed.find?_flatten [DecidableEq κ] {us vs : List (List α)} {xs : List α}
    (h : Placed hash getKey (us ++ xs :: vs)) {key : κ}
    (hkey : (hash key).toNat % (us ++ xs :: vs).length = us.length) :
    (us ++ xs :: vs).flatten.find? (fun x => key = getKey x)
      = xs.find? (fun x => key = getKey x) := by
  have hno : ∀ i ys, (us ++ xs :: vs)[i]? = some ys → i ≠ us.length →
      ∀ y ∈ ys, ¬ key = getKey y := by
    intro i ys hi hne y hy he
    have := h.inPlace i ys hi y hy
    rw [← he, hkey] at this
    exact hne this.symm
  have hus : us.flatten.find? (fun x => key = getKey x) = none := by
    rw [List.find?_eq_none]
    intro y hy
    obtain ⟨ys, hys, hy⟩ := List.mem_flatten.mp hy
    obtain ⟨i, hi, rfl⟩ := List.getElem_of_mem hys
    have hget : (us ++ xs :: vs)[i]? = some us[i] := by
      rw [List.getElem?_append_left hi, List.getElem?_eq_getElem hi]
    simpa using hno i _ hget (by omega) y hy
  have hvs : vs.flatten.find? (fun x => key = getKey x) = none := by
    rw [List.find?_eq_none]
    intro y hy
    obtain ⟨ys, hys, hy⟩ := List.mem_flatten.mp hy
    obtain ⟨i, hi, rfl⟩ := List.getElem_of_mem hys
    have hget : (us ++ xs :: vs)[us.length + (i + 1)]? = some vs[i] := by
      rw [List.getElem?_append_right (by omega), Nat.add_sub_cancel_left, List.getElem?_cons_succ,
        List.getElem?_eq_getElem hi]
    simpa using hno _ _ hget (by omega) y hy
  rw [List.flatten_append, List.flatten_cons, List.find?_append, List.find?_append, hus, hvs,
    Option.none_or, Option.or_none]

/-! ## Looking -/

variable {t : HashTable α} {old ps us vs : List (ListObject × List (Nat × α))}
  {o : ListObject} {ns : List (Nat × α)}

theorem Stored.hashValue_eq (h : Stored t old ps) (hpos : 0 < ps.length) (key : κ) :
    hashValue hash key t = .ok ((hash key).toNat % ps.length) t := by
  unfold hashValue
  rw [get_bind, h.size, assert_bind (Nat.mod_lt _ hpos)]
  rfl

section Find

variable [DecidableEq κ]

theorem findFrom_eq {l : LinkedList α} (key : κ) :
    ∀ {ns : List (Nat × α)} {p : Option Nat} {k : Nat}, Seg l.heap.cell p ns none → ns.length ≤ k →
    findFrom getKey key k p l = .ok ((ns.map Prod.snd).find? fun x => key = getKey x) l := by
  intro ns
  induction ns with
  | nil =>
      intro p k hs _
      cases hs
      cases k <;> rfl
  | cons n ns ih =>
      intro p k hs hk
      obtain ⟨rfl, p', hn, hrest⟩ := hs.head
      cases k with
      | zero => exact absurd hk (by simp)
      | succ k =>
          rw [findFrom, bind_eq_of_ok (LinkedList.deref_eq hn), List.map_cons, List.find?_cons]
          by_cases hx : key = getKey n.2
          · rw [if_pos hx, decide_eq_true hx]
            rfl
          · rw [if_neg hx, decide_eq_false hx]
            exact ih hrest (Nat.le_of_succ_le_succ hk)

theorem findInList_eq {l : LinkedList α} (h : Chain l ns) (key : κ) :
    findInList getKey key l = .ok ((ns.map Prod.snd).find? fun x => key = getKey x) l := by
  unfold findInList
  rw [get_bind]
  exact findFrom_eq key h.linked (Nat.le_succ_of_le h.linked.length_le)

theorem Stored.findInBucket_eq (h : Stored t old (us ++ (o, ns) :: vs)) (key : κ) :
    findInBucket getKey us.length key t
      = .ok ((ns.map Prod.snd).find? fun x => key = getKey x) t :=
  h.onBucket_read (findInList_eq h.chain key)

/-- **`Find`** looks at every item of the table. -/
theorem Stored.find_eq (h : Stored t old ps) (hp : Placed hash getKey (contents ps)) (key : κ) :
    find hash getKey key t = .ok ((contents ps).flatten.find? fun x => key = getKey x) t := by
  have hpos : 0 < ps.length := length_contents ps ▸ hp.pos
  obtain ⟨us, o, ns, vs, rfl, hj⟩ := exists_bucket (Nat.mod_lt (hash key).toNat hpos)
  unfold HashTable.find
  rw [bind_eq_of_ok (h.hashValue_eq hpos key), ← hj, h.findInBucket_eq key]
  rw [contents_append, contents_cons] at hp ⊢
  rw [hp.find?_flatten]
  simp only [List.length_append, List.length_cons, length_contents] at hj ⊢
  exact hj.symm

theorem Stored.isInTable_eq (h : Stored t old ps) (hp : Placed hash getKey (contents ps))
    (key : κ) : isInTable hash getKey key t
      = .ok ((contents ps).flatten.find? fun x => key = getKey x).isSome t := by
  unfold isInTable
  rw [bind_eq_of_ok (h.find_eq hp key)]
  rfl

end Find

/-! ## Checking -/

theorem checkFrom_eq {l : LinkedList α} {i n : Nat} (hi : i < n) : ∀ {ns : List (Nat × α)}
    {p : Option Nat} {k : Nat}, Seg l.heap.cell p ns none →
    (∀ x ∈ ns.map Prod.snd, (hash (getKey x)).toNat % n = i) → ns.length ≤ k →
    checkFrom hash getKey i n k p l = .ok () l := by
  intro ns
  induction ns with
  | nil =>
      intro p k hs _ _
      cases hs
      cases k <;> rfl
  | cons m ns ih =>
      intro p k hs hplaced hk
      obtain ⟨rfl, p', hm, hrest⟩ := hs.head
      have hmi := hplaced m.2 List.mem_cons_self
      cases k with
      | zero => exact absurd hk (by simp)
      | succ k =>
          rw [checkFrom, bind_eq_of_ok (LinkedList.deref_eq hm),
            LinkedList.assert_bind (hmi ▸ hi), LinkedList.assert_bind hmi.symm]
          exact ih hrest (fun x hx => hplaced x (List.mem_cons_of_mem _ hx))
            (Nat.le_of_succ_le_succ hk)

theorem checkList_eq {l : LinkedList α} (h : Chain l ns) {i n : Nat} (hi : i < n)
    (hplaced : ∀ x ∈ ns.map Prod.snd, (hash (getKey x)).toNat % n = i) :
    checkList hash getKey i n l = .ok (ns.length : Int) l := by
  unfold checkList
  rw [bind_eq_of_ok h.sanityCheck_eq, get_bind,
    bind_eq_of_ok (checkFrom_eq hi h.linked hplaced (Nat.le_succ_of_le h.linked.length_le)),
    h.count]
  rfl

theorem Stored.checkBuckets_eq : ∀ {vs : List (ListObject × List (Nat × α))}
    (us : List (ListObject × List (Nat × α))) (numFound : Int),
    Stored t old (us ++ vs) → Placed hash getKey (contents (us ++ vs)) →
    checkBuckets hash getKey us.length vs.length numFound t
      = .ok (numFound + (contents vs).flatten.length) t := by
  intro vs
  induction vs with
  | nil =>
      intro us numFound _ _
      change EStateM.Result.ok numFound t = .ok (numFound + 0) t
      rw [Int.add_zero]
  | cons p vs ih =>
      obtain ⟨o, ns⟩ := p
      intro us numFound h hp
      have hplaced : ∀ x ∈ ns.map Prod.snd, (hash (getKey x)).toNat % t.numBuckets = us.length := by
        intro x hx
        have hx' := hp
        rw [contents_append, contents_cons] at hx'
        have := hx'.mem hx
        rwa [← contents_cons o, ← contents_append, length_contents,
          length_contents, ← h.size] at this
      have hrest := ih (us ++ [(o, ns)]) (numFound + (ns.length : Int))
        (by rwa [← List.append_cons]) (by rwa [← List.append_cons])
      rw [List.length_append] at hrest
      rw [List.length_cons, checkBuckets, get_bind,
        bind_eq_of_ok (h.onBucket_read (checkList_eq h.chain h.bucket_lt hplaced))]
      refine hrest.trans ?_
      rw [contents_cons, List.flatten_cons, List.length_append, List.length_map, Int.natCast_add]
      congr 1
      omega

/-- **`SanityCheck`** finds nothing wrong. -/
theorem Stored.sanityCheck_eq (h : Stored t old ps) (hp : Placed hash getKey (contents ps))
    (hcount : t.numItems = (contents ps).flatten.length) :
    sanityCheck hash getKey t = .ok () t := by
  have hrun : checkBuckets hash getKey 0 ps.length 0 t
      = .ok (0 + (contents ps).flatten.length) t := Stored.checkBuckets_eq [] 0 h hp
  unfold sanityCheck
  rw [get_bind, h.size, bind_eq_of_ok hrun]
  exact assert_eq (by rw [hcount, Int.zero_add]) t

/-! ## Changing -/

section Change

variable [DecidableEq α] {pick : Heap (ListElement α) → Nat}

/-- An item is put where it belongs. -/
theorem Stored.place (h : Stored t old ps) (hp : Placed hash getKey (contents ps)) {item : α}
    (hitem : item ∉ (contents ps).flatten) (pick : Heap (ListElement α) → Nat) :
    ∃ t' ps', place hash getKey pick item t = .ok () t' ∧ Stored t' old ps' ∧
      Placed hash getKey (contents ps') ∧ ps'.length = ps.length ∧
      (contents ps').flatten.Perm (item :: (contents ps).flatten) ∧ t'.numItems = t.numItems := by
  have hpos : 0 < ps.length := length_contents ps ▸ hp.pos
  obtain ⟨us, o, ns, vs, rfl, hj⟩ := exists_bucket (Nat.mod_lt (hash (getKey item)).toNat hpos)
  have hnot : item ∉ ns.map Prod.snd := fun hin => hitem (by
    rw [contents_append, contents_cons, List.flatten_append, List.flatten_cons]
    exact List.mem_append_right _ (List.mem_append_left _ hin))
  obtain ⟨a, l, hrun, hl⟩ := h.chain.holds.append hnot (pick t.heap)
  obtain ⟨t', hbucket, hstored, hitems⟩ := h.onBucket hrun hl
  refine ⟨t', _, ?_, hstored, ?_, by simp, ?_, hitems⟩
  · unfold HashTable.place
    rw [bind_eq_of_ok (h.hashValue_eq hpos _), get_bind, ← hj]
    exact hbucket
  · rw [← length_contents (us ++ (o, ns) :: vs)] at hj
    rw [contents_append, contents_cons] at hp hj ⊢
    refine hp.change fun y hy => ?_
    rw [List.map_append] at hy
    rcases List.mem_append.mp hy with hy | hy
    · exact hp.mem hy
    · have hyi : y = item := by simpa using hy
      rw [hyi, ← hj, length_contents]
  · rw [contents_append, contents_append, contents_cons, contents_cons, List.flatten_append,
      List.flatten_append, List.flatten_cons, List.flatten_cons, List.map_append, List.append_assoc]
    exact ((List.Perm.append_left _ List.perm_middle).trans List.perm_middle)

/-- The inner loop of `ReHash` empties a list. -/
theorem Stored.moveAll (pick : Heap (ListElement α) → Nat) : ∀ {ns : List (Nat × α)}
    {o : ListObject} {t : HashTable α} {ps : List (ListObject × List (Nat × α))}
    {k : Nat}, Stored t ((o, ns) :: old) ps →
    Placed hash getKey (contents ps) → (ns.map Prod.snd ++ (contents ps).flatten).Nodup →
    ns.length ≤ k → ∃ t' ps', moveAll hash getKey pick k o t = .ok () t' ∧ Stored t' old ps' ∧
      Placed hash getKey (contents ps') ∧ ps'.length = ps.length ∧
      (contents ps').flatten.Perm (ns.map Prod.snd ++ (contents ps).flatten) ∧
      t'.numItems = t.numItems := by
  intro ns
  induction ns with
  | nil =>
      intro o t ps k h hp _ _
      have hzero : o.numInList = 0 := (h.apart.chains _ List.mem_cons_self).count
      refine ⟨t, ps, ?_, ⟨h.buckets, h.size, h.apart.tail⟩, hp, rfl, .refl _, rfl⟩
      cases k with
      | zero => exact congrFun (if_pos hzero) t
      | succ k => exact congrFun (if_pos hzero) t
  | cons n ns ih =>
      intro o t ps k h hp hnd hk
      have hc := h.apart.chains _ List.mem_cons_self
      have hne : o.numInList ≠ 0 := by
        have hcount := hc.count
        change o.numInList = ((n :: ns).length : Int) at hcount
        rw [hcount, List.length_cons]
        omega
      cases k with
      | zero => exact absurd hk (by simp)
      | succ k =>
          rw [List.map_cons, List.cons_append, List.nodup_cons] at hnd
          obtain ⟨l, hfront, hl⟩ := hc.holds.removeFront
          obtain ⟨t₁, hrun₁, h₁, hn₁⟩ := h.onList hfront hl
          have hnot : n.2 ∉ (contents ps).flatten := fun hin => hnd.1 (List.mem_append_right _ hin)
          obtain ⟨t₂, ps₂, hrun₂, h₂, hp₂, hlen₂, hperm₂, hn₂⟩ := h₁.place hp hnot pick
          have hmove : (ns.map Prod.snd ++ (contents ps₂).flatten).Perm
              (n.2 :: (ns.map Prod.snd ++ (contents ps).flatten)) :=
            (hperm₂.append_left _).trans List.perm_middle
          obtain ⟨t₃, ps₃, hrun₃, h₃, hp₃, hlen₃, hperm₃, hn₃⟩ := ih h₂ hp₂
            (hmove.nodup_iff.mpr (List.nodup_cons.mpr hnd)) (Nat.le_of_succ_le_succ hk)
          refine ⟨t₃, ps₃, ?_, h₃, hp₃, hlen₃.trans hlen₂, hperm₃.trans hmove,
            hn₃.trans (hn₂.trans hn₁)⟩
          rw [HashTable.moveAll, if_neg hne, bind_eq_of_ok hrun₁, bind_eq_of_ok hrun₂, hrun₃]

/-- The outer loop of `ReHash` empties the old array. -/
theorem Stored.moveTables (hash : κ → BitVec 32) (getKey : α → κ)
    (pick : Heap (ListElement α) → Nat) : ∀ {old : List (ListObject × List (Nat × α))}
    {t : HashTable α} {ps : List (ListObject × List (Nat × α))}, Stored t old ps →
    Placed hash getKey (contents ps) → ((contents old).flatten ++ (contents ps).flatten).Nodup →
    ∃ t' ps', moveTables hash getKey pick (old.map Prod.fst) t = .ok () t' ∧ Stored t' [] ps' ∧
      Placed hash getKey (contents ps') ∧ ps'.length = ps.length ∧
      (contents ps').flatten.Perm ((contents old).flatten ++ (contents ps).flatten) ∧
      t'.numItems = t.numItems := by
  intro old
  induction old with
  | nil => intro t ps h hp _; exact ⟨t, ps, rfl, h, hp, rfl, .refl _, rfl⟩
  | cons p old ih =>
      obtain ⟨o, ns⟩ := p
      intro t ps h hp hnd
      rw [contents_cons, List.flatten_cons] at hnd ⊢
      have hcount : o.numInList.toNat = ns.length := by
        have hc := (h.apart.chains _ List.mem_cons_self).count
        change o.numInList = (ns.length : Int) at hc
        rw [hc, Int.toNat_natCast]
      have hswap : (ns.map Prod.snd ++ (contents old).flatten ++ (contents ps).flatten).Perm
          ((contents old).flatten ++ (ns.map Prod.snd ++ (contents ps).flatten)) := by
        rw [← List.append_assoc]
        exact List.perm_append_comm.append_right _
      have hnd' := hswap.nodup_iff.mp hnd
      obtain ⟨t₁, ps₁, hrun₁, h₁, hp₁, hlen₁, hperm₁, hn₁⟩ :=
        h.moveAll pick hp (List.nodup_append.mp hnd').2.1 (Nat.le_of_eq hcount.symm)
      have hperm := (hperm₁.append_left (contents old).flatten).trans hswap.symm
      obtain ⟨t₂, ps₂, hrun₂, h₂, hp₂, hlen₂, hperm₂, hn₂⟩ := ih h₁ hp₁ (hperm.nodup_iff.mpr hnd)
      refine ⟨t₂, ps₂, ?_, h₂, hp₂, hlen₂.trans hlen₁, hperm₂.trans hperm, hn₂.trans hn₁⟩
      rw [List.map_cons, HashTable.moveTables, bind_eq_of_ok hrun₁, hrun₂]

/-- **`ReHash`** moves every item to where it belongs in a larger table. -/
theorem Stored.reHash (h : Stored t [] ps) (hp : Placed hash getKey (contents ps))
    (hnd : (contents ps).flatten.Nodup) (hcount : t.numItems = (contents ps).flatten.length)
    (pick : Heap (ListElement α) → Nat) :
    ∃ t' ps', reHash hash getKey pick t = .ok () t' ∧ Stored t' [] ps' ∧
      Placed hash getKey (contents ps') ∧ (contents ps').flatten.Perm (contents ps).flatten ∧
      t'.numItems = t.numItems := by
  have hpos : 0 < t.numBuckets * increaseSizeBy := by
    rw [h.size, ← length_contents]
    exact Nat.mul_pos hp.pos (by decide)
  obtain ⟨t₁, hinit, h₁, hn₁⟩ := h.initBuckets (t.numBuckets * increaseSizeBy)
  have hflat : (List.replicate (t.numBuckets * increaseSizeBy) ([] : List α)).flatten = [] :=
    List.flatten_replicate_nil
  have hmove := h₁.moveTables hash getKey pick
  rw [contents_replicate, hflat, List.append_nil] at hmove
  obtain ⟨t', ps', hrun, h', hp', _, hperm, hn⟩ := hmove (placed_empty hash getKey hpos) hnd
  have hcheck := h'.sanityCheck_eq hp'
    (hn.trans (hn₁.trans (hcount.trans (by rw [hperm.length_eq]))))
  refine ⟨t', ps', ?_, h', hp', hperm, hn.trans hn₁⟩
  unfold HashTable.reHash
  rw [get_bind, bind_eq_of_ok (h.sanityCheck_eq hp hcount), h.buckets, bind_eq_of_ok hinit,
    bind_eq_of_ok hrun, hcheck]

end Change

/-! ## The table -/

/-- **The table is sound**: every item in its place, no key twice, and the items counted. -/
structure Sound (hash : κ → BitVec 32) (getKey : α → κ) (t : HashTable α)
    (ps : List (ListObject × List (Nat × α))) : Prop where
  stored : Stored t [] ps
  placed : Placed hash getKey (contents ps)
  keys : ((contents ps).flatten.map getKey).Nodup
  count : t.numItems = (contents ps).flatten.length

theorem Sound.nodup (h : Sound hash getKey t ps) : (contents ps).flatten.Nodup :=
  h.keys.of_map getKey

theorem sound_new (hash : κ → BitVec 32) (getKey : α → κ) (heap : Heap (ListElement α)) :
    Sound hash getKey (new heap) (List.replicate initialBuckets (⟨none, none, 0⟩, [])) where
  stored := ⟨rfl, rfl, (apart_nil heap).append_empty initialBuckets⟩
  placed := by
    rw [contents_replicate]
    exact placed_empty hash getKey (by decide)
  keys := by
    rw [contents_replicate, List.flatten_replicate_nil]
    exact List.nodup_nil
  count := by
    rw [contents_replicate, List.flatten_replicate_nil]
    rfl

theorem Sound.grow [DecidableEq α] (h : Sound hash getKey t ps)
    (pick : Heap (ListElement α) → Nat) :
    ∃ t' ps', grow hash getKey pick t = .ok () t' ∧ Sound hash getKey t' ps' ∧
      (contents ps').flatten.Perm (contents ps).flatten := by
  unfold HashTable.grow
  rw [get_bind]
  split
  · obtain ⟨t', ps', hrun, hs, hp, hperm, hn⟩ := h.stored.reHash h.placed h.nodup h.count pick
    refine ⟨t', ps', hrun, ⟨hs, hp, (hperm.map getKey).nodup_iff.mpr h.keys, ?_⟩, hperm⟩
    rw [hn, h.count, hperm.length_eq]
  · exact ⟨t, ps, rfl, h, .refl _⟩

section Table

variable [DecidableEq κ]

theorem find?_key {xs : List α} (hnd : (xs.map getKey).Nodup) {x : α} (hx : x ∈ xs) :
    xs.find? (fun y => getKey x = getKey y) = some x := by
  cases hf : xs.find? (fun y => getKey x = getKey y) with
  | none => exact absurd (decide_eq_true rfl) (List.find?_eq_none.mp hf x hx)
  | some y =>
      have hy := List.mem_of_find?_eq_some hf
      have hkey : getKey x = getKey y := by simpa using List.find?_some hf
      rw [List.inj_on_of_nodup_map hnd hx hy hkey]

theorem find?_key_none {xs : List α} {key : κ} (h : ∀ x ∈ xs, getKey x ≠ key) :
    xs.find? (fun y => key = getKey y) = none :=
  List.find?_eq_none.mpr fun x hx => by simpa using fun he : key = getKey x => h x hx he.symm

variable [DecidableEq α]

/-- **`Insert`**, of an item whose key is not there. -/
theorem Sound.insert (h : Sound hash getKey t ps) {item : α}
    (hkey : ∀ x ∈ (contents ps).flatten, getKey x ≠ getKey item)
    (pick : Heap (ListElement α) → Nat) :
    ∃ t' ps', insert hash getKey pick item t = .ok () t' ∧ Sound hash getKey t' ps' ∧
      (contents ps').flatten.Perm (item :: (contents ps).flatten) := by
  obtain ⟨t₁, ps₁, hgrow, h₁, hperm₁⟩ := h.grow pick
  have hnot : item ∉ (contents ps₁).flatten := fun hin => hkey item (hperm₁.mem_iff.mp hin) rfl
  obtain ⟨t₂, ps₂, hplace, hs₂, hp₂, _, hperm₂, hn₂⟩ := h₁.stored.place h₁.placed hnot pick
  have hperm := hperm₂.trans (hperm₁.cons item)
  have hsound : Sound hash getKey { t₂ with numItems := t₂.numItems + 1 } ps₂ := by
    refine ⟨⟨hs₂.buckets, hs₂.size, hs₂.apart⟩, hp₂, ?_, ?_⟩
    · rw [(hperm.map getKey).nodup_iff, List.map_cons, List.nodup_cons]
      refine ⟨fun hin => ?_, h.keys⟩
      obtain ⟨x, hx, he⟩ := List.mem_map.mp hin
      exact hkey x hx he
    · change t₂.numItems + 1 = _
      rw [hn₂, h₁.count, hperm₂.length_eq, List.length_cons, Int.natCast_succ]
  have hin : item ∈ (contents ps₂).flatten := hperm.mem_iff.mpr List.mem_cons_self
  refine ⟨_, ps₂, ?_, hsound, hperm⟩
  unfold HashTable.insert
  rw [bind_eq_of_ok (h.stored.isInTable_eq h.placed _), find?_key_none hkey,
    assert_bind Option.isSome_none,
    bind_eq_of_ok hgrow, bind_eq_of_ok hplace, modify_bind,
    bind_eq_of_ok (hsound.stored.isInTable_eq hsound.placed _), find?_key hsound.keys hin]
  exact assert_eq rfl _

/-- **`Remove`**, of a key that is there. -/
theorem Sound.remove (h : Sound hash getKey t ps) {x : α} (hx : x ∈ (contents ps).flatten) :
    ∃ t' ps', remove hash getKey (getKey x) t = .ok x t' ∧ Sound hash getKey t' ps' ∧
      (contents ps).flatten.Perm (x :: (contents ps').flatten) := by
  have hpos : 0 < ps.length := length_contents ps ▸ h.placed.pos
  have hfind := find?_key h.keys hx
  obtain ⟨us, o, ns, vs, rfl, hj⟩ := exists_bucket (Nat.mod_lt (hash (getKey x)).toNat hpos)
  have hplaced := h.placed
  have hnodup := h.nodup
  have hkeys := h.keys
  have hlen : (contents us ++ ns.map Prod.snd :: contents vs).length
      = (us ++ (o, ns) :: vs).length := by simp
  rw [contents_append, contents_cons] at hplaced hfind hnodup hkeys hx
  rw [hplaced.find?_flatten (by rw [hlen, length_contents, hj])] at hfind
  have hin := List.mem_of_find?_eq_some hfind
  have hnd : (ns.map Prod.snd).Nodup := by
    rw [List.flatten_append, List.flatten_cons] at hnodup
    exact (List.nodup_append.mp (List.nodup_append.mp hnodup).2.1).1
  obtain ⟨l, ns', hrun, hl, hns⟩ := h.stored.chain.holds.remove hnd hin
  obtain ⟨t₁, hbucket, hs₁, hn₁⟩ := h.stored.onBucket hrun hl
  have hperm : (contents (us ++ (o, ns) :: vs)).flatten.Perm
      (x :: (contents (us ++ (l.object, ns') :: vs)).flatten) := by
    rw [contents_append, contents_append, contents_cons, contents_cons, hns, List.flatten_append,
      List.flatten_append, List.flatten_cons, List.flatten_cons]
    have hbucketPerm := (List.perm_cons_erase hin).append_right (contents vs).flatten
    exact (hbucketPerm.append_left _).trans List.perm_middle
  have hkeys' := (hperm.map getKey).nodup_iff.mp h.keys
  rw [List.map_cons, List.nodup_cons] at hkeys'
  have hsound : Sound hash getKey { t₁ with numItems := t₁.numItems - 1 }
      (us ++ (l.object, ns') :: vs) := by
    refine ⟨⟨hs₁.buckets, hs₁.size, hs₁.apart⟩, ?_, hkeys'.2, ?_⟩
    · rw [contents_append, contents_cons]
      refine hplaced.change fun y hy => ?_
      rw [hns] at hy
      exact hplaced.mem (List.mem_of_mem_erase hy)
    · change t₁.numItems - 1 = _
      rw [hn₁, h.count, hperm.length_eq, List.length_cons, Int.natCast_succ]
      omega
  have hgone : ∀ y ∈ (contents (us ++ (l.object, ns') :: vs)).flatten, getKey y ≠ getKey x :=
    fun y hy he => hkeys'.1 (he ▸ List.mem_map_of_mem hy)
  refine ⟨_, _, ?_, hsound, hperm⟩
  unfold HashTable.remove
  rw [bind_eq_of_ok (h.stored.hashValue_eq hpos _), ← hj,
    bind_eq_of_ok (h.stored.findInBucket_eq _), hfind]
  dsimp only
  rw [bind_eq_of_ok hbucket, modify_bind,
    bind_eq_of_ok (hsound.stored.isInTable_eq hsound.placed _), find?_key_none hgone,
    assert_bind Option.isSome_none]
  rfl

end Table

/-! ## Iterating -/

theorem deref_eq {a : Nat} {e : ListElement α} (h : t.heap.cell a = some e) :
    deref (some a) t = .ok e t := by
  unfold HashTable.deref
  rw [get_bind, Option.bind_some, h]
  rfl

theorem Stored.bucketAt_eq (h : Stored t old (us ++ (o, ns) :: vs)) :
    bucketAt us.length t = .ok o t := by
  have hget : t.buckets[us.length]? = some o := by
    rw [h.buckets]
    simp
  unfold bucketAt
  rw [get_bind, hget]
  rfl

/-- Behind the last bucket there is nothing. -/
theorem Stored.enter_end (h : Stored t old ps) : enter ps.length t = .ok ⟨ps.length, none⟩ t := by
  have hfind : findNextFullBucket ps.length t = .ok ps.length t := by
    unfold findNextFullBucket
    rw [get_bind, h.size, Nat.sub_self]
    rfl
  unfold enter
  rw [bind_eq_of_ok hfind, get_bind, h.size, if_neg (Nat.lt_irrefl _)]
  rfl

/-- A bucket in which nothing is is passed by. -/
theorem Stored.enter_empty (h : Stored t old (us ++ (o, []) :: vs)) :
    enter us.length t = enter (us.length + 1) t := by
  have hzero : o.numInList = 0 := h.chain.count
  have hfrom : findNextFullBucket us.length t = findNextFullBucket (us.length + 1) t := by
    have hnext : t.numBuckets - us.length = t.numBuckets - (us.length + 1) + 1 := by
      have := h.bucket_lt
      omega
    unfold findNextFullBucket
    rw [get_bind, get_bind, hnext, findNextFrom, bind_eq_of_ok h.bucketAt_eq,
      if_neg (not_not.mpr hzero)]
  unfold enter
  cases hf : findNextFullBucket (us.length + 1) t with
  | ok b t' => rw [bind_eq_of_ok (hfrom.trans hf), bind_eq_of_ok hf]
  | error e t' =>
      rw [Base.bind_eq_of_error (hfrom.trans hf), Base.bind_eq_of_error hf]

/-- A bucket in which something is is entered at its first element. -/
theorem Stored.enter_full (h : Stored t old (us ++ (o, ns) :: vs)) (hne : ns ≠ []) :
    enter us.length t = .ok ⟨us.length, some o.first⟩ t := by
  have hcount : o.numInList ≠ 0 := by
    have hc := h.chain.count
    change o.numInList = (ns.length : Int) at hc
    have := List.length_pos_of_ne_nil hne
    omega
  have hfind : findNextFullBucket us.length t = .ok us.length t := by
    have hnext : t.numBuckets - us.length = t.numBuckets - (us.length + 1) + 1 := by
      have := h.bucket_lt
      omega
    unfold findNextFullBucket
    rw [get_bind, hnext, findNextFrom, bind_eq_of_ok h.bucketAt_eq, if_pos hcount]
    rfl
  unfold enter
  rw [bind_eq_of_ok hfind, get_bind, if_pos h.bucket_lt, bind_eq_of_ok h.bucketAt_eq]
  rfl

/-- An iterator in a bucket is not done. -/
theorem Stored.isDone_eq (h : Stored t old (us ++ (o, ns) :: vs)) (p : Option (Option Nat)) :
    isDone ⟨us.length, p⟩ t = .ok false t := by
  have hne : (us.length == t.numBuckets) = false := by
    rw [beq_eq_false_iff_ne]
    exact Nat.ne_of_lt h.bucket_lt
  change EStateM.Result.ok (us.length == t.numBuckets) t = _
  rw [hne]

theorem Stored.item_eq (h : Stored t old (us ++ (o, ns) :: vs)) {a : Nat} {e : ListElement α}
    (ha : t.heap.cell a = some e) : item ⟨us.length, some (some a)⟩ t = .ok e.item t := by
  unfold item
  rw [bind_eq_of_ok (h.isDone_eq _), assert_bind rfl]
  dsimp only
  rw [assert_bind (by simp), bind_eq_of_ok (deref_eq ha)]
  rfl

/-- The walk through the rest of a bucket, and then through the buckets behind it. -/
theorem Stored.collect_bucket (h : Stored t old (us ++ (o, ns) :: vs)) {rest : List α}
    (hrest : ∀ k, rest.length ≤ k → ∃ it, enter (us.length + 1) t = .ok it t ∧
      collect k it t = .ok rest t) :
    ∀ {ms : List (Nat × α)} {n : Nat × α} {p : Option Nat} {k : Nat},
      Seg t.heap.cell p (n :: ms) none → (n :: ms).length + rest.length ≤ k →
      collect k ⟨us.length, some p⟩ t = .ok ((n :: ms).map Prod.snd ++ rest) t := by
  intro ms
  induction ms with
  | nil =>
      intro n p k hs hk
      obtain ⟨rfl, p', hn, hnil⟩ := hs.head
      cases hnil
      cases k with
      | zero => exact absurd hk (by simp)
      | succ k =>
          obtain ⟨it, henter, hcollect⟩ := hrest k (by simp at hk; omega)
          have hnext : next ⟨us.length, some (some n.1)⟩ t = .ok it t := by
            unfold next
            dsimp only
            rw [bind_eq_of_ok (deref_eq hn), if_pos rfl]
            exact henter
          rw [collect, bind_eq_of_ok (h.isDone_eq _), if_neg (by simp),
            bind_eq_of_ok (h.item_eq hn), bind_eq_of_ok hnext, bind_eq_of_ok hcollect]
          rfl
  | cons m ms ih =>
      intro n p k hs hk
      obtain ⟨rfl, p', hn, hs'⟩ := hs.head
      have hp' := hs'.head.1
      cases k with
      | zero => exact absurd hk (by simp)
      | succ k =>
          have hnext : next ⟨us.length, some (some n.1)⟩ t = .ok ⟨us.length, some p'⟩ t := by
            unfold next
            dsimp only
            rw [bind_eq_of_ok (deref_eq hn), if_neg (by rw [hp']; simp)]
            rfl
          have hcollect := ih hs' (k := k) (by simp at hk ⊢; omega)
          rw [collect, bind_eq_of_ok (h.isDone_eq _), if_neg (by simp),
            bind_eq_of_ok (h.item_eq hn), bind_eq_of_ok hnext, bind_eq_of_ok hcollect]
          rfl

/-- From any bucket on. -/
theorem Stored.collect_from : ∀ {vs : List (ListObject × List (Nat × α))}
    (us : List (ListObject × List (Nat × α))) {k : Nat},
    Stored t old (us ++ vs) → (contents vs).flatten.length ≤ k →
    ∃ it, enter us.length t = .ok it t ∧ collect k it t = .ok (contents vs).flatten t := by
  intro vs
  induction vs with
  | nil =>
      intro us k h _
      rw [List.append_nil] at h
      refine ⟨_, h.enter_end, ?_⟩
      have hdone : isDone ⟨us.length, none⟩ t = .ok true t := by
        change EStateM.Result.ok (us.length == t.numBuckets) t = _
        rw [h.size, beq_self_eq_true]
      cases k with
      | zero => rw [collect, bind_eq_of_ok hdone]; rfl
      | succ k => rw [collect, bind_eq_of_ok hdone]; rfl
  | cons q vs ih =>
      obtain ⟨o, ns⟩ := q
      intro us k h hk
      have hrest : ∀ k, (contents vs).flatten.length ≤ k → ∃ it,
          enter (us.length + 1) t = .ok it t ∧ collect k it t = .ok (contents vs).flatten t := by
        intro k hk
        have hus : (us ++ [(o, ns)]).length = us.length + 1 := by simp
        rw [← hus]
        exact ih _ (by rwa [← List.append_cons]) hk
      rw [contents_cons, List.flatten_cons] at hk ⊢
      cases ns with
      | nil =>
          rw [h.enter_empty]
          exact hrest k hk
      | cons n ns =>
          refine ⟨_, h.enter_full (by simp), ?_⟩
          exact h.collect_bucket hrest h.chain.linked
            (by rwa [List.length_append, List.length_map] at hk)

/-- **The iterator** comes by every item, and then it is done. -/
theorem Stored.iterate_eq (h : Stored t [] ps) {k : Nat} (hk : (contents ps).flatten.length ≤ k) :
    iterate k t = .ok (contents ps).flatten t := by
  obtain ⟨it, henter, hcollect⟩ := Stored.collect_from [] h hk
  have hiterator : iterator t = .ok it t := henter
  unfold iterate
  rw [bind_eq_of_ok hiterator, hcollect]

/-! ## The map -/

/-- The table holds the items of `S`. -/
def Represents [DecidableEq α] (hash : κ → BitVec 32) (getKey : α → κ) (t : HashTable α)
    (S : Finset α) : Prop :=
  ∃ ps, Sound hash getKey t ps ∧ (contents ps).flatten.toFinset = S

/-- What is inserted has a key of its own, and what is removed is there. -/
def Permitted (getKey : α → κ) (S : Finset α) : Call α κ → Prop
  | .insert _ item => ∀ x ∈ S, getKey x ≠ getKey item
  | .remove key => ∃ x ∈ S, getKey x = key
  | .find _ => True

section Map

variable [DecidableEq α]

/-- What a call does to a set of items, each under its key, and what it answers. -/
inductive TableStep (getKey : α → κ) : Finset α → Call α κ → Answer α → Finset α → Prop where
  | insert (S : Finset α) (pick : Heap (ListElement α) → Nat) (item : α) :
      TableStep getKey S (.insert pick item) .done (Insert.insert item S)
  | remove {S : Finset α} {x : α} :
      x ∈ S → TableStep getKey S (.remove (getKey x)) (.item x) (S.erase x)
  | found {S : Finset α} {x : α} :
      x ∈ S → TableStep getKey S (.find (getKey x)) (.found (some x)) S
  | absent {S : Finset α} {key : κ} :
      (∀ x ∈ S, getKey x ≠ key) → TableStep getKey S (.find key) (.found none) S

variable {S : Finset α}

theorem represents_new (hash : κ → BitVec 32) (getKey : α → κ) (heap : Heap (ListElement α)) :
    Represents hash getKey (new heap) ∅ := by
  refine ⟨_, sound_new hash getKey heap, ?_⟩
  rw [contents_replicate, List.flatten_replicate_nil]
  rfl

theorem Represents.sanityCheck (h : Represents hash getKey t S) :
    sanityCheck hash getKey t = .ok () t := by
  obtain ⟨ps, hs, _⟩ := h
  exact hs.stored.sanityCheck_eq hs.placed hs.count

/-- Items with keys of their own can be inserted one after the other. -/
theorem allowed_inserts (pick : Heap (ListElement α) → Nat) {cs : List (Call α κ)} :
    ∀ {xs : List α} {S : Finset α}, (xs.map getKey).Nodup →
      (∀ x ∈ S, ∀ y ∈ xs, getKey x ≠ getKey y) →
      (Allowed (TableStep getKey) (Permitted getKey) (S ∪ xs.toFinset) cs) →
      Allowed (TableStep getKey) (Permitted getKey) S (xs.map (Call.insert pick) ++ cs) := by
  intro xs
  induction xs with
  | nil =>
      intro S _ _ hcs
      rwa [List.toFinset_nil, Finset.union_empty] at hcs
  | cons x xs ih =>
      intro S hnodup hnew hcs
      obtain ⟨hx, hxs⟩ := List.nodup_cons.mp hnodup
      refine .cons (fun y hy => hnew y hy x List.mem_cons_self) fun _ _ hstep => ?_
      cases hstep
      refine ih hxs (fun y hy z hz => ?_) ?_
      · rcases Finset.mem_insert.mp hy with rfl | hy
        · exact fun he => hx (he ▸ List.mem_map_of_mem hz)
        · exact hnew y hy z (List.mem_cons_of_mem x hz)
      · rwa [Finset.insert_union, ← Finset.union_insert, ← List.toFinset_cons]

variable [DecidableEq κ]

/-- **One call.** -/
theorem Represents.call (h : Represents hash getKey t S) {c : Call α κ}
    (hc : Permitted getKey S c) :
    ∃ r t' S', HashTable.call hash getKey c t = .ok r t' ∧ TableStep getKey S c r S' ∧
      Represents hash getKey t' S' := by
  obtain ⟨ps, hs, rfl⟩ := h
  cases c with
  | insert pick item =>
      have hkey : ∀ x ∈ (contents ps).flatten, getKey x ≠ getKey item :=
        fun x hx => hc x (List.mem_toFinset.mpr hx)
      obtain ⟨t', ps', hrun, hs', hperm⟩ := hs.insert hkey pick
      refine ⟨_, t', _, bind_eq_of_ok hrun, .insert _ pick item, ps', hs', ?_⟩
      rw [List.toFinset_eq_of_perm _ _ hperm, List.toFinset_cons]
  | remove key =>
      obtain ⟨x, hx, rfl⟩ := hc
      obtain ⟨t', ps', hrun, hs', hperm⟩ := hs.remove (List.mem_toFinset.mp hx)
      have hnot := (List.nodup_cons.mp (hperm.nodup_iff.mp hs.nodup)).1
      refine ⟨_, t', _, bind_eq_of_ok hrun, .remove hx, ps', hs', ?_⟩
      rw [List.toFinset_eq_of_perm _ _ hperm, List.toFinset_cons,
        Finset.erase_insert (by rwa [List.mem_toFinset])]
  | find key =>
      have hrun := hs.stored.find_eq hs.placed key
      by_cases hx : ∃ x ∈ (contents ps).flatten, getKey x = key
      · obtain ⟨x, hx, rfl⟩ := hx
        rw [find?_key hs.keys hx] at hrun
        exact ⟨_, t, _, bind_eq_of_ok hrun, .found (List.mem_toFinset.mpr hx), ps, hs, rfl⟩
      · have hno : ∀ x ∈ (contents ps).flatten, getKey x ≠ key := fun x hin he => hx ⟨x, hin, he⟩
        rw [find?_key_none hno] at hrun
        exact ⟨_, t, _, bind_eq_of_ok hrun, .absent fun x hin => hno x (List.mem_toFinset.mp hin),
          ps, hs, rfl⟩

/-- **The hash table is a map, through every history and any number of times that it is built
again.** -/
theorem hashTable_refines_map (hash : κ → BitVec 32) (getKey : α → κ)
    (heap : Heap (ListElement α)) {calls : List (Call α κ)}
    (hcalls : Allowed (TableStep getKey) (Permitted getKey) ∅ calls) :
    ∃ answers t S ps,
      runCalls (call hash getKey) calls (new heap) = .ok answers t ∧
      runCalls (watched (sanityCheck hash getKey) (call hash getKey)) calls (new heap)
        = .ok answers t ∧
      History (TableStep getKey) ∅ calls answers S ∧ Stored t [] ps ∧
      (∀ i xs, (contents ps)[i]? = some xs → ∀ x ∈ xs,
        (hash (getKey x)).toNat % t.numBuckets = i) ∧
      ((contents ps).flatten.map getKey).Nodup ∧ (contents ps).flatten.toFinset = S ∧
      t.numItems = S.card ∧
      ∀ k, S.card ≤ k → ∃ xs, iterate k t = .ok xs t ∧ xs.Nodup ∧ xs.toFinset = S := by
  obtain ⟨answers, t, S, hrun, hwatched, hhist, ps, hs, hS⟩ := Base.runCalls_watched _
    (fun _ _ => Represents.sanityCheck) (fun _ _ _ hR hc => hR.call hc) calls
    (represents_new hash getKey heap) hcalls
  have hcard : (contents ps).flatten.length = S.card := by
    rw [← hS, List.toFinset_card_of_nodup hs.nodup]
  refine ⟨answers, t, S, ps, hrun, hwatched, hhist, hs.stored, ?_, hs.keys, hS, ?_, ?_⟩
  · rw [hs.stored.size, ← length_contents]
    exact hs.placed.inPlace
  · rw [hs.count, hcard]
  · intro k hk
    exact ⟨_, hs.stored.iterate_eq (hcard ▸ hk), hs.nodup, hS⟩

/-- Four buckets are not enough for the last of these. -/
def crowd : List (Call Nat Nat) :=
  (List.range 13).map (Call.insert fun _ => 7) ++ [.remove 5, .find 5]

/-- The last of them finds twelve items in four buckets, and the table is built again. -/
theorem hashTable_refines_map_reHash : ∃ answers t S ps,
    runCalls (call (BitVec.ofNat 32) (fun n : Nat => n)) crowd (new Heap.empty) = .ok answers t ∧
      History (TableStep fun n : Nat => n) ∅ crowd answers S ∧ Stored t [] ps ∧
      t.numBuckets = 16 ∧ (∀ i xs, (contents ps)[i]? = some xs → ∀ x ∈ xs, x % 16 = i) ∧
      t.numItems = S.card ∧
      ∀ k, S.card ≤ k → ∃ xs, iterate k t = .ok xs t ∧ xs.Nodup ∧ xs.toFinset = S := by
  have hallowed : Allowed (TableStep fun n : Nat => n) (Permitted fun n : Nat => n) ∅ crowd := by
    refine allowed_inserts _ (by decide) (by simp) (.cons ⟨5, by decide, rfl⟩ fun _ _ h => ?_)
    exact .cons trivial fun _ _ _ => .nil _
  obtain ⟨answers, t, S, ps, hrun, _, hhist, hstored, hplaced, _, _, hcount, hwalk⟩ :=
    hashTable_refines_map (BitVec.ofNat 32) (fun n : Nat => n) Heap.empty hallowed
  have hgrown : (match runCalls (call (BitVec.ofNat 32) (fun n : Nat => n)) crowd
    (new Heap.empty) with
      | .ok _ t => t.numBuckets
      | .error _ _ => 0) = 16 := by
    decide +kernel
  rw [hrun] at hgrown
  have hbuckets : t.numBuckets = 16 := hgrown
  refine ⟨answers, t, S, ps, hrun, hhist, hstored, hbuckets, fun i xs hi x hx => ?_, hcount, hwalk⟩
  have h := hplaced i xs hi x hx
  rw [hbuckets] at h
  rw [BitVec.toNat_ofNat] at h
  omega
end Map

end Nachos.HashTable
