import Nachos.Proof.SynchLists
import Mathlib.Data.List.Sort

/-!
# A synchronized list as a mailbox

Here one thread, thread 0, appends, and all the others take. The items are numbers, each larger than
those before it, so that the order in which they went in can be read off them. A taker keeps the
lock until it has its item in hand and is about to return: what calls have returned, and what has
been taken off the list, differ at most by that one item.
-/

namespace Nachos

open Base (upd upd_self upd_ne upd_eq_self upd_field)

namespace SynchPC

variable {α : Type}

/-- The item that the thread is to append, as long as it has not. -/
def bringing : SynchPC α → Option α
  | acquire (.append item) => some item
  | held (.append item) => some item
  | append item => some item
  | _ => none

/-- The item that it has taken, as long as it has not returned. -/
def carrying : SynchPC α → Option α
  | release (.done ret) => ret
  | unlock (.done ret) => ret
  | _ => none

/-- The thread is outside, or in `RemoveFront`. -/
def fetching : SynchPC α → Bool
  | acquire (.append _) => false
  | held (.append _) => false
  | append _ => false
  | signal => false
  | signalV _ => false
  | release (.done none) => false
  | unlock (.done none) => false
  | _ => true

/-- Thread 0 is outside or in `Append`, another thread outside or in `RemoveFront`. -/
def Role (t : Nat) (p : SynchPC α) : Prop := (∃ ret, p = .out ret) ∨ p.fetching = decide (t ≠ 0)

/-- One thread moves within its role. -/
theorem role_upd {pc : Nat → SynchPC α} {t : Nat} {p : SynchPC α} (h : ∀ u, (pc u).Role u)
    (hp : p.Role t) (u : Nat) : (upd pc t p u).Role u :=
  Base.forall_upd (P := fun v (q : SynchPC α) => q.Role v) hp (fun v _ => h v) u

theorem holds_of_carrying {p : SynchPC α} {x : α} (h : p.carrying = some x) : p.holds = true := by
  cases p with
  | release next => rfl
  | unlock next => rfl
  | _ => simp [carrying] at h

end SynchPC

namespace SynchList

variable {α : Type} {s s' : SynchList α} {t : Nat} {p : SynchPC α}

/-- What a step of a thread does to the list, to the record of it, and to what the thread is
about. -/
inductive Effect (s : SynchList α) (t : Nat) (p : SynchPC α) (s' : SynchList α) : Prop where
  /-- It appends its item. -/
  | appends (item : α) : s.pc t = .append item → s'.appended = s.appended ++ [item] →
      s'.removed = s.removed → p = .signal → Effect s t p s'
  /-- It takes an item. -/
  | takes (item : α) (items : List α) : s.pc t = .take → s.list = item :: items →
      s'.appended = s.appended → s'.removed = s.removed ++ [item] →
      p = .release (.done (some item)) → Effect s t p s'
  /-- It returns. -/
  | returns (ret : Option α) : s.pc t = .unlock (.done ret) → s'.appended = s.appended →
      s'.removed = s.removed → p = .out ret → Effect s t p s'
  /-- It does something else. -/
  | moves : s'.appended = s.appended → s'.removed = s.removed → p.bringing = (s.pc t).bringing →
      p.carrying = (s.pc t).carrying → (∀ ret, p ≠ .out ret) →
      (s.pc t = .take ∧ s.list = [] ∨ p.fetching = (s.pc t).fetching) → Effect s t p s'

/-- The common case: the thread gets from `q` to `p`, and is about the same as before. -/
theorem Effect.move {q : SynchPC α} (ht : s.pc t = q) (happ : s'.appended = s.appended)
    (hrem : s'.removed = s.removed) (hbring : p.bringing = q.bringing)
    (hcarry : p.carrying = q.carrying) (hfetch : p.fetching = q.fetching)
    (hout : ∀ ret, p ≠ .out ret) : Effect s t p s' := by
  subst ht
  exact .moves happ hrem hbring hcarry hout (Or.inr hfetch)

variable [DecidableEq α]

/-- **Every step has one of these effects.** -/
theorem go_effect (hs : s.go t = some s') : ∃ p, s'.pc = upd s.pc t p ∧ Effect s t p s' := by
  unfold go at hs
  split at hs
  case h_1 => exact absurd hs (by simp)
  case h_2 why ht =>
    unfold acquire at hs
    split at hs
    · exact absurd hs (by simp)
    dsimp only at hs
    split at hs
    · cases hs
      exact ⟨_, rfl, .move ht rfl rfl (by cases why <;> rfl) rfl (by cases why <;> rfl) (by simp)⟩
    · cases hs
      exact ⟨_, (upd_eq_self s.pc t).symm, .move rfl rfl rfl rfl rfl rfl (by simp [ht])⟩
  case h_3 why ht =>
    cases hs
    refine ⟨afterAcquire why, rfl, .move ht rfl rfl ?_ ?_ ?_ ?_⟩
    · cases why <;> rfl
    · cases why <;> rfl
    · cases why <;> rfl
    · cases why <;> simp [afterAcquire]
  case h_4 item ht => cases hs; exact ⟨.signal, rfl, .appends item ht rfl rfl rfl⟩
  case h_5 ht =>
    cases hs
    unfold signal
    split
    · exact ⟨_, rfl, .move ht rfl rfl rfl rfl rfl (by simp)⟩
    · exact ⟨_, rfl, .move ht rfl rfl rfl rfl rfl (by simp)⟩
  case h_6 w ht => cases hs; exact ⟨_, rfl, .move ht rfl rfl rfl rfl rfl (by simp)⟩
  case h_7 ht =>
    cases hs
    refine ⟨_, rfl, .move ht rfl rfl ?_ ?_ ?_ ?_⟩
    · split <;> rfl
    · split <;> rfl
    · split <;> rfl
    · intro ret; split <;> simp
  case h_8 ht =>
    cases hs
    unfold take
    split
    · rename_i hl
      exact ⟨_, rfl, .moves rfl rfl (by rw [ht]; rfl) (by rw [ht]; rfl) (by simp) (Or.inl ⟨ht, hl⟩)⟩
    · rename_i item items hl
      exact ⟨_, rfl, .takes item items ht hl rfl rfl rfl⟩
  case h_9 ht => cases hs; exact ⟨_, rfl, .move ht rfl rfl rfl rfl rfl (by simp)⟩
  case h_10 w ht => cases hs; exact ⟨_, rfl, .move ht rfl rfl rfl rfl rfl (by simp)⟩
  case h_11 w ht =>
    unfold waitP at hs
    split at hs
    · exact absurd hs (by simp)
    dsimp only at hs
    split at hs
    · cases hs
      exact ⟨_, rfl, .move ht rfl rfl rfl rfl rfl (by simp)⟩
    · cases hs
      exact ⟨_, (upd_eq_self s.pc t).symm, .move rfl rfl rfl rfl rfl rfl (by simp [ht])⟩
  case h_12 w ht => cases hs; exact ⟨_, rfl, .move ht rfl rfl rfl rfl rfl (by simp)⟩
  case h_13 next ht =>
    cases hs
    refine ⟨.unlock next, rfl, .move ht rfl rfl rfl ?_ ?_ (by simp)⟩
    · cases next <;> rfl
    · cases next with
      | sleep w => rfl
      | done ret => cases ret <;> rfl
  case h_14 next ht =>
    cases hs
    cases next with
    | done ret => exact ⟨.out ret, rfl, .returns ret ht rfl rfl rfl⟩
    | sleep w => exact ⟨_, rfl, .move ht rfl rfl rfl rfl rfl (by simp [afterRelease])⟩

end SynchList

/-! ## Mailboxes -/

/-- A mailbox. There are the pointers below `limit`, of which those that are `mine` are for this
box, and calls have returned those in `got`. -/
structure Mailbox (mine : Nat → Prop) (limit : Nat) (got : List Nat)
    (s : SynchList Nat) : Prop where
  inv : s.Inv
  sorted : s.appended.Pairwise (· < ·)
  own : ∀ p ∈ s.appended, p < limit ∧ mine p
  /-- Thread 0 alone brings pointers, and they come after those that are there. -/
  bringing : ∀ t p, (s.pc t).bringing = some p → t = 0 ∧ p < limit ∧ mine p ∧
    ∀ q ∈ s.appended, q < p
  /-- Nothing that is for this box has been left out. -/
  all : ∀ p, p < limit → mine p → p ∈ s.appended ∨ (s.pc 0).bringing = some p
  /-- One thread may have a pointer in hand, the last that was taken. -/
  carrying : ∀ t p, (s.pc t).carrying = some p → s.removed = got ++ [p]
  returned : (∀ t, (s.pc t).carrying = none) → s.removed = got
  /-- Thread 0 never takes, and the other threads do nothing else. -/
  roles : ∀ t, (s.pc t).Role t

namespace Mailbox

variable {mine mine' : Nat → Prop} {limit limit' : Nat} {got : List Nat} {s s' : SynchList Nat}
  {t : Nat}

theorem new (h : ∀ p, p < limit → ¬ mine p) : Mailbox mine limit [] SynchList.new where
  inv := SynchList.inv_new
  sorted := List.Pairwise.nil
  own := by intro p hp; simp [SynchList.new] at hp
  bringing := by intro t p hp; simp [SynchList.new, SynchPC.bringing] at hp
  all := fun p hp hm => absurd hm (h p hp)
  carrying := by intro t p hp; simp [SynchList.new, SynchPC.carrying] at hp
  returned := fun _ => rfl
  roles := fun _ => Or.inl ⟨none, rfl⟩

/-- There may be more pointers, as long as they are for other boxes. -/
theorem grow (h : Mailbox mine limit got s) (hle : limit ≤ limit')
    (hold : ∀ p, p < limit → (mine' p ↔ mine p)) (hnew : ∀ p, limit ≤ p → p < limit' → ¬ mine' p) :
    Mailbox mine' limit' got s where
  inv := h.inv
  sorted := h.sorted
  own := by
    intro p hp
    obtain ⟨hlt, hm⟩ := h.own p hp
    exact ⟨Nat.lt_of_lt_of_le hlt hle, (hold p hlt).mpr hm⟩
  bringing := by
    intro t p hp
    obtain ⟨ht, hlt, hm, hq⟩ := h.bringing t p hp
    exact ⟨ht, Nat.lt_of_lt_of_le hlt hle, (hold p hlt).mpr hm, hq⟩
  all := by
    intro p hp hm
    by_cases hlt : p < limit
    · exact h.all p hlt ((hold p hlt).mp hm)
    · exact absurd hm (hnew p (Nat.le_of_not_lt hlt) hp)
  carrying := h.carrying
  returned := h.returned
  roles := h.roles

/-- What has been taken was put there before. -/
theorem got_sorted (h : Mailbox mine limit got s) :
    got.Pairwise (· < ·) ∧ ∀ p ∈ got, p < limit ∧ mine p := by
  have hsub : got.Sublist s.appended := by
    have hremoved : got.Sublist s.removed := by
      by_cases hno : ∀ t, (s.pc t).carrying = none
      · rw [h.returned hno]
      · obtain ⟨t, ht⟩ := not_forall.mp hno
        obtain ⟨p, hp⟩ := Option.ne_none_iff_exists'.mp ht
        rw [h.carrying t p hp]
        exact List.sublist_append_left got [p]
    rw [h.inv.fifo]
    exact hremoved.trans (List.sublist_append_left _ _)
  exact ⟨h.sorted.sublist hsub, fun p hp => h.own p (hsub.subset hp)⟩

/-- **In order.** -/
theorem got_sublist [DecidablePred mine] (h : Mailbox mine limit got s) :
    got.Sublist ((List.range limit).filter (fun p => decide (mine p))) := by
  obtain ⟨hsorted, hmine⟩ := h.got_sorted
  have hnodup : got.Nodup := hsorted.imp Nat.ne_of_lt
  have hsubset : got ⊆ (List.range limit).filter (fun p => decide (mine p)) := by
    intro p hp
    obtain ⟨hlt, hm⟩ := hmine p hp
    exact List.mem_filter.mpr ⟨List.mem_range.mpr hlt, decide_eq_true hm⟩
  have hrange : ((List.range limit).filter fun p => decide (mine p)).Pairwise (· < ·) :=
    List.pairwise_lt_range.sublist List.filter_sublist
  exact List.sublist_of_subperm_of_pairwise (hnodup.subperm hsubset) hsorted hrange

/-! ## Every step keeps it -/

/-- A thread moves, and that is of no concern to the box. -/
theorem glide (h : Mailbox mine limit got s) {k : SynchPC Nat} (hinv : s'.Inv)
    (hpc : s'.pc = upd s.pc t k) (happ : s'.appended = s.appended) (hrem : s'.removed = s.removed)
    (hbring : k.bringing = (s.pc t).bringing) (hcarry : k.carrying = (s.pc t).carrying)
    (hrole : k.Role t) : Mailbox mine limit got s' where
  inv := hinv
  sorted := by rw [happ]; exact h.sorted
  own := by rw [happ]; exact h.own
  bringing := by
    intro u p hp
    rw [hpc, upd_field SynchPC.bringing hbring] at hp
    rw [happ]
    exact h.bringing u p hp
  all := by
    intro p hp hm
    rw [hpc, happ, upd_field SynchPC.bringing hbring]
    exact h.all p hp hm
  carrying := by
    intro u p hp
    rw [hpc, upd_field SynchPC.carrying hcarry] at hp
    rw [hrem]
    exact h.carrying u p hp
  returned := by
    intro hno
    rw [hrem]
    refine h.returned fun u => ?_
    have hu := hno u
    rwa [hpc, upd_field SynchPC.carrying hcarry] at hu
  roles := by
    rw [hpc]
    exact SynchPC.role_upd h.roles hrole

theorem step_append {p : Nat} (hs : s.step (t, .append p) = some s') :
    (∃ ret, s.pc t = .out ret) ∧ s' = s.goto t (.acquire (.append p)) := by
  unfold SynchList.step at hs
  dsimp only at hs
  split at hs
  · rename_i ret ht
    exact ⟨⟨ret, ht⟩, (Option.some.inj hs).symm⟩
  · exact absurd hs (by simp)

theorem step_removeFront (hs : s.step (t, .removeFront) = some s') :
    (∃ ret, s.pc t = .out ret) ∧ s' = s.goto t (.acquire .remove) := by
  unfold SynchList.step at hs
  dsimp only at hs
  split at hs
  · rename_i ret ht
    exact ⟨⟨ret, ht⟩, (Option.some.inj hs).symm⟩
  · exact absurd hs (by simp)

/-- **Thread 0 calls `Append` with a new pointer.** -/
theorem append (h : Mailbox mine limit got s) (hold : ∀ p, p < limit → (mine' p ↔ mine p))
    (hnew : mine' limit) (hs : s.step (0, .append limit) = some s') :
    Mailbox mine' (limit + 1) got s' := by
  obtain ⟨⟨ret, ht⟩, rfl⟩ := step_append hs
  have hinv : (s.goto 0 (.acquire (.append limit))).Inv := SynchList.inv_call h.inv ht (by simp)
  have hcarry : ∀ u, (upd s.pc 0 (.acquire (.append limit)) u).carrying = (s.pc u).carrying :=
    upd_field SynchPC.carrying (by rw [ht]; rfl)
  refine ⟨hinv, h.sorted, ?_, ?_, ?_, ?_, ?_, ?_⟩
  · intro p hp
    obtain ⟨hlt, hm⟩ := h.own p hp
    exact ⟨Nat.lt_succ_of_lt hlt, (hold p hlt).mpr hm⟩
  · intro u p hp
    have hp' : (upd s.pc 0 (.acquire (.append limit)) u).bringing = some p := hp
    by_cases hu : u = 0
    · rw [hu, upd_self] at hp'
      have hpl : limit = p := Option.some.inj hp'
      rw [← hpl]
      exact ⟨hu, Nat.lt_succ_self limit, hnew, fun q hq => (h.own q hq).1⟩
    · rw [upd_ne _ _ hu] at hp'
      exact absurd (h.bringing u p hp').1 hu
  · intro p hp hm
    by_cases hpl : p = limit
    · right
      show (upd s.pc 0 (.acquire (.append limit)) 0).bringing = some p
      rw [upd_self, hpl]
      rfl
    · -- thread 0 was outside, so what was there before is in the box
      have hlt : p < limit := by omega
      left
      refine (h.all p hlt ((hold p hlt).mp hm)).resolve_right fun hb => ?_
      rw [ht] at hb
      exact absurd hb (by simp [SynchPC.bringing])
  · intro u p hp
    exact h.carrying u p ((hcarry u).symm.trans hp)
  · intro hno
    exact h.returned fun u => (hcarry u).symm.trans (hno u)
  · exact SynchPC.role_upd h.roles (Or.inr rfl)

/-- **Another thread calls `RemoveFront`.** -/
theorem removeFront (h : Mailbox mine limit got s) (ht0 : t ≠ 0)
    (hs : s.step (t, .removeFront) = some s') : Mailbox mine limit got s' := by
  obtain ⟨⟨ret, ht⟩, rfl⟩ := step_removeFront hs
  exact h.glide (k := .acquire .remove) (SynchList.inv_call h.inv ht (by simp)) rfl rfl rfl
    (by rw [ht]; rfl) (by rw [ht]; rfl) (Or.inr (decide_eq_true ht0).symm)

/-- The pointer that is appended is new to the list. -/
theorem distinct (h : Mailbox mine limit got s) (t : Nat) : SynchList.Distinct s (t, .go) := by
  intro p hp hmem
  have hbring : (s.pc t).bringing = some p := by
    cases hpc : s.pc t with
    | append item =>
        rw [hpc] at hp
        exact hp
    | _ =>
        rw [hpc] at hp
        simp [SynchPC.appending] at hp
  have hlt := (h.bringing t p hbring).2.2.2 p (by
    rw [h.inv.fifo]
    exact List.mem_append_right _ hmem)
  exact Nat.lt_irrefl p hlt

/-- While a thread holds the lock and carries nothing, nobody carries anything. -/
theorem carrying_none (h : Mailbox mine limit got s) (ht : (s.pc t).holds = true)
    {u : Nat} (hu : u ≠ t) : (s.pc u).carrying = none := by
  cases hc : (s.pc u).carrying with
  | none => rfl
  | some p => exact absurd (h.inv.alone ht (SynchPC.holds_of_carrying hc)) hu

/-- `list->Append(item)`. -/
theorem go_appends (h : Mailbox mine limit got s) (hinv : s'.Inv) {p : Nat}
    (hpc : s'.pc = upd s.pc t .signal) (ht : s.pc t = .append p)
    (happ : s'.appended = s.appended ++ [p]) (hrem : s'.removed = s.removed) :
    Mailbox mine limit got s' := by
  obtain ⟨ht0, hlt, hm, hq⟩ := h.bringing t p (by rw [ht]; rfl)
  have hcarry : ∀ u, (s'.pc u).carrying = (s.pc u).carrying := by
    intro u
    rw [hpc]
    exact upd_field SynchPC.carrying (by rw [ht]; rfl) u
  refine ⟨hinv, ?_, ?_, ?_, ?_, ?_, ?_, ?_⟩
  · rw [happ]
    exact List.pairwise_append.mpr ⟨h.sorted, List.pairwise_singleton _ _, fun q hq' p' hp' => by
      rw [List.mem_singleton.mp hp']
      exact hq q hq'⟩
  · intro q hq'
    rw [happ] at hq'
    rcases List.mem_append.mp hq' with hq' | hq'
    · exact h.own q hq'
    · rw [List.mem_singleton.mp hq']
      exact ⟨hlt, hm⟩
  · -- thread 0 has nothing more to bring, and the others never have
    intro u q hb
    rw [hpc] at hb
    by_cases hut : u = t
    · rw [hut, upd_self] at hb
      exact absurd hb (by simp [SynchPC.bringing])
    · rw [upd_ne _ _ hut] at hb
      exact absurd ((h.bringing u q hb).1.trans ht0.symm) hut
  · intro q hql hqm
    left
    rw [happ]
    rcases h.all q hql hqm with hq' | hb
    · exact List.mem_append_left _ hq'
    · rw [← ht0, ht] at hb
      rw [← Option.some.inj hb]
      exact List.mem_append_right _ (List.mem_singleton_self _)
  · intro u q hc
    rw [hrem]
    exact h.carrying u q ((hcarry u).symm.trans hc)
  · intro hno
    rw [hrem]
    exact h.returned fun u => (hcarry u).symm.trans (hno u)
  · rw [hpc]
    exact SynchPC.role_upd h.roles (Or.inr (by rw [ht0]; rfl))

/-- `list->RemoveFront()`. -/
theorem go_takes (h : Mailbox mine limit got s) (hinv : s'.Inv) {p : Nat}
    (hpc : s'.pc = upd s.pc t (.release (.done (some p)))) (ht : s.pc t = .take)
    (happ : s'.appended = s.appended) (hrem : s'.removed = s.removed ++ [p]) :
    Mailbox mine limit got s' := by
  have hbring : ∀ u, (s'.pc u).bringing = (s.pc u).bringing := by
    intro u
    rw [hpc]
    exact upd_field SynchPC.bringing (by rw [ht]; rfl) u
  have hgot : s.removed = got := h.returned fun u => by
    by_cases hut : u = t
    · rw [hut, ht]
      rfl
    · exact h.carrying_none (t := t) (by rw [ht]; rfl) hut
  refine ⟨hinv, by rw [happ]; exact h.sorted, by rw [happ]; exact h.own, ?_, ?_, ?_, ?_, ?_⟩
  · intro u q hb
    rw [happ]
    exact h.bringing u q ((hbring u).symm.trans hb)
  · intro q hql hqm
    rw [happ, hbring]
    exact h.all q hql hqm
  · intro u q hc
    rw [hpc] at hc
    rw [hrem, hgot]
    by_cases hut : u = t
    · rw [hut, upd_self] at hc
      rw [Option.some.inj hc]
    · rw [upd_ne _ _ hut, h.carrying_none (t := t) (by rw [ht]; rfl) hut] at hc
      exact absurd hc (by simp)
  · intro hno
    have hself := hno t
    rw [hpc, upd_self] at hself
    exact absurd hself (by simp [SynchPC.carrying])
  · have hrole := (h.roles t).resolve_left (by simp [ht])
    rw [ht] at hrole
    rw [hpc]
    exact SynchPC.role_upd h.roles (Or.inr hrole)

/-- A thread returns with what it has taken. -/
theorem go_returns (h : Mailbox mine limit got s) (hinv : s'.Inv) {p : Nat}
    (hpc : s'.pc = upd s.pc t (.out (some p))) (ht : s.pc t = .unlock (.done (some p)))
    (happ : s'.appended = s.appended) (hrem : s'.removed = s.removed) :
    Mailbox mine limit (got ++ [p]) s' := by
  have hbring : ∀ u, (s'.pc u).bringing = (s.pc u).bringing := by
    intro u
    rw [hpc]
    exact upd_field SynchPC.bringing (by rw [ht]; rfl) u
  have hnone : ∀ u, (s'.pc u).carrying = none := by
    intro u
    rw [hpc]
    by_cases hut : u = t
    · rw [hut, upd_self]
      rfl
    · rw [upd_ne _ _ hut]
      exact h.carrying_none (t := t) (by rw [ht]; rfl) hut
  refine ⟨hinv, by rw [happ]; exact h.sorted, by rw [happ]; exact h.own, ?_, ?_, ?_, ?_, ?_⟩
  · intro u q hb
    rw [happ]
    exact h.bringing u q ((hbring u).symm.trans hb)
  · intro q hql hqm
    rw [happ, hbring]
    exact h.all q hql hqm
  · intro u q hc
    rw [hnone u] at hc
    exact absurd hc (by simp)
  · intro _
    rw [hrem]
    exact h.carrying t p (by rw [ht]; rfl)
  · rw [hpc]
    exact SynchPC.role_upd h.roles (Or.inl ⟨some p, rfl⟩)

/-- **A thread goes on.** Either it returns with a pointer, the next one, or it does not. Thread 0
returns with none, the others only with one. -/
theorem go (h : Mailbox mine limit got s) (hs : s.step (t, .go) = some s') :
    (t ≠ 0 ∧ ∃ p, s'.pc t = .out (some p) ∧ Mailbox mine limit (got ++ [p]) s') ∨
      ((t ≠ 0 → ∀ ret, s'.pc t ≠ .out ret) ∧ Mailbox mine limit got s') := by
  have hinv := SynchList.inv_step h.inv (h.distinct t) hs
  obtain ⟨k, hpc, heff⟩ := SynchList.go_effect (show s.go t = some s' from hs)
  have hk : s'.pc t = k := by rw [hpc, upd_self]
  rw [hk]
  cases heff with
  | appends p ht happ hrem hkk =>
      subst hkk
      exact Or.inr ⟨by simp, h.go_appends hinv hpc ht happ hrem⟩
  | takes p items ht hl happ hrem hkk =>
      subst hkk
      exact Or.inr ⟨by simp, h.go_takes hinv hpc ht happ hrem⟩
  | returns ret ht happ hrem hkk =>
      subst hkk
      have hrole := (h.roles t).resolve_left (by simp [ht])
      rw [ht] at hrole
      cases ret with
      | some p =>
          refine Or.inl ⟨?_, p, rfl, h.go_returns hinv hpc ht happ hrem⟩
          exact of_decide_eq_true hrole.symm
      | none =>
          refine Or.inr ⟨fun ht0 => ?_, ?_⟩
          · exact absurd ht0 (of_decide_eq_false hrole.symm)
          · exact h.glide hinv hpc happ hrem (by rw [ht]; rfl) (by rw [ht]; rfl)
              (Or.inl ⟨none, rfl⟩)
  | moves happ hrem hbring hcarry hout hfetch =>
      refine Or.inr ⟨fun _ => hout, h.glide hinv hpc happ hrem hbring hcarry (Or.inr ?_)⟩
      rcases hfetch with ⟨htake, hempty⟩ | hfetch
      · exact absurd hempty (h.inv.taking t htake)
      · rw [hfetch]
        refine (h.roles t).resolve_left ?_
        rintro ⟨ret, ht⟩
        rw [SynchList.step, SynchList.go, ht] at hs
        exact absurd hs (by simp)

end Mailbox

end Nachos
