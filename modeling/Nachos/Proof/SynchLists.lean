import Nachos.Threads.SynchList
import Nachos.Proof.Semaphore
import Mathlib.Data.List.Nodup
import Mathlib.Data.Set.Card

/-!
# The synchronized list is a queue, and no signal is missed

Order is the easy half: items go in at one end and come out at the other, and both happen
inside the lock.

The other half is that a consumer does not sleep on while there is an item for it. A
signal may come before the consumer has gone to sleep, and an item may be taken by a third
thread before the consumer that was woken for it has the lock again. What survives is a
count: as long as somebody is on the queue of the condition, the consumers that were
signalled and are not back yet are at least as many as the items. Inside the lock the
count may be short by one, by the item that was just appended or by the one that is about
to be taken.
-/

namespace Nachos

open Base (upd upd_self upd_ne upd_apply upd_eq_self Exclusive)

namespace SynchPC

variable {α : Type}

/-- The semaphore that the thread has created and not deleted. -/
def owns : SynchPC α → Option Nat
  | waitAppend w => some w
  | release (.sleep w) => some w
  | unlock (.sleep w) => some w
  | waitP w => some w
  | acquire (.woken w) => some w
  | held (.woken w) => some w
  | waitDelete w => some w
  | _ => none

/-- The semaphore it has put on the queue. -/
def inWait : SynchPC α → Option Nat
  | waitAppend _ => none
  | p => p.owns

/-- The semaphore whose `P` is still before it. -/
def before : SynchPC α → Option Nat
  | release (.sleep w) => some w
  | unlock (.sleep w) => some w
  | waitP w => some w
  | _ => none

/-- The thread found the list empty and has not released the lock since. -/
def bare : SynchPC α → Bool
  | waitNew => true
  | waitAppend _ => true
  | release (.sleep _) => true
  | unlock (.sleep _) => true
  | _ => false

/-- The thread has still to signal for an item, or to take one. -/
def owes : SynchPC α → Bool
  | signal => true
  | test => true
  | take => true
  | _ => false

/-- The item it is about to put on the list. -/
def appending : SynchPC α → Option α
  | append item => some item
  | _ => none

theorem owns_of_inWait {p : SynchPC α} {w : Nat} (h : p.inWait = some w) : p.owns = some w := by
  cases p <;> first | exact h | simp [inWait] at h

theorem inWait_of_before {p : SynchPC α} {w : Nat} (h : p.before = some w) :
    p.inWait = some w := by
  cases p with
  | release n => cases n <;> simp_all [before, inWait, owns]
  | unlock n => cases n <;> simp_all [before, inWait, owns]
  | waitP u => simpa [before, inWait, owns] using h
  | _ => simp [before] at h

theorem holds_of_bare {p : SynchPC α} (h : p.bare = true) : p.holds = true := by
  cases p <;> simp_all [bare, holds]

theorem holds_of_owes {p : SynchPC α} (h : p.owes = true) : p.holds = true := by
  cases p <;> simp_all [owes, holds]

end SynchPC

namespace SynchList

variable {α : Type}

/-- The consumer has been signalled and is not back from `Wait`. -/
def Signalled (s : SynchList α) (t : Nat) : Prop :=
  ∃ w, (s.pc t).inWait = some w ∧ w ∉ s.waitQueue

/-- A consumer off the queue has got its `V`, or it is being given. -/
def Granted (s : SynchList α) : Prop :=
  ∀ t w, (s.pc t).before = some w → w ∉ s.waitQueue →
    (s.waiter w).value = 1 ∨ ∃ u, s.pc u = .signalV w

/-- There are consumers on their way back for all items, or for all but one which the thread
that holds the lock will see to. -/
def Covered (s : SynchList α) (n : Nat) : Prop :=
  s.waitQueue ≠ [] → s.list.length ≤ n ∨ s.list.length ≤ n + 1 ∧ ∃ t, (s.pc t).owes = true

/-- What holds at every moment. -/
structure Inv (s : SynchList α) : Prop where
  fifo : s.appended = s.removed ++ s.list
  asserts : s.asserts = true
  lock : Exclusive s.lock.value (fun t => (s.pc t).holds = true)
  nodup : s.waitQueue.Nodup
  /-- A semaphore on the queue is at 0 and somebody has still to pass its `P`. -/
  queued : ∀ w ∈ s.waitQueue, (s.waiter w).value = 0 ∧ ∃ t, (s.pc t).before = some w
  /-- No two threads wait on one semaphore. -/
  owner : ∀ t u w, (s.pc t).owns = some w → (s.pc u).owns = some w → t = u
  old : ∀ t w, (s.pc t).owns = some w → w < s.allocated
  fresh : ∀ t w, s.pc t = .waitAppend w → w ∉ s.waitQueue ∧ (s.waiter w).value = 0
  woken : ∀ t w, s.pc t = .signalV w → w ∉ s.waitQueue ∧ w < s.allocated ∧ (s.waiter w).value = 0
  granted : s.Granted
  bare : ∀ t, (s.pc t).bare = true → s.list = []
  taking : ∀ t, s.pc t = .take → s.list ≠ []
  /-- The signalled consumers can be counted, and there are enough of them. -/
  covered : ∃ L : List Nat, L.Nodup ∧ (∀ t, t ∈ L ↔ s.Signalled t) ∧ s.Covered L.length

theorem inv_new : Inv (new : SynchList α) where
  fifo := rfl
  asserts := rfl
  lock := Or.inl ⟨rfl, fun t => by simp [new, SynchPC.holds]⟩
  nodup := List.nodup_nil
  queued := by intro w hw; simp [new] at hw
  owner := by intro t u w h; simp [new, SynchPC.owns] at h
  old := by intro t w h; simp [new, SynchPC.owns] at h
  fresh := by intro t w h; simp [new] at h
  woken := by intro t w h; simp [new] at h
  granted := by intro t w h; simp [new, SynchPC.before] at h
  bare := by intro t h; simp [new, SynchPC.bare] at h
  taking := by intro t h; simp [new] at h
  covered := ⟨[], List.nodup_nil, fun t => by simp [Signalled, new, SynchPC.inWait, SynchPC.owns],
    fun hq => absurd rfl hq⟩

section Steps

variable {s s' : SynchList α} {t : Nat} {p : SynchPC α}

/-- Only one thread holds the lock. -/
theorem Inv.alone (h : Inv s) (ht : (s.pc t).holds = true) {u : Nat} (hu : (s.pc u).holds = true) :
    u = t := h.lock.unique hu ht

/-- A semaphore that is being put on the queue, or that has been taken off it, is at 0. -/
theorem Inv.zero (h : Inv s) {u w : Nat} (hu : s.pc u = .waitAppend w ∨ s.pc u = .signalV w) :
    (s.waiter w).value = 0 := by
  rcases hu with hu | hu
  · exact (h.fresh u w hu).2
  · exact (h.woken u w hu).2.2

/-- A consumer that has its `V`, or is being given it, keeps that when a thread moves that gives
another one, or none. -/
theorem Inv.granted_keep (h : Inv s) {u w : Nat} (hu : (s.pc u).before = some w)
    (hw : w ∉ s.waitQueue) (hsig : s.pc t ≠ .signalV w) (p : SynchPC α) :
    (s.waiter w).value = 1 ∨ ∃ v, upd s.pc t p v = .signalV w := by
  rcases h.granted u w hu hw with h1 | ⟨v, hv⟩
  · exact Or.inl h1
  · have hvt : v ≠ t := fun e => hsig (e ▸ hv)
    exact Or.inr ⟨v, by rw [upd_ne _ _ hvt]; exact hv⟩

/-- Nothing is taken back from the consumers when a thread moves that has no `V` to give. -/
theorem Inv.granted_other (h : Inv s) (hpc : s'.pc = upd s.pc t p)
    (hq : s'.waitQueue = s.waitQueue)
    (hval : ∀ w, w < s.allocated → (s'.waiter w).value = (s.waiter w).value)
    (hbefore : ∀ w, p.before = some w → (s.pc t).before = some w)
    (hsig : ∀ w, s.pc t ≠ .signalV w) : s'.Granted := by
  intro u w hu hw
  rw [hpc] at hu ⊢
  rw [hq] at hw
  have hu' : (s.pc u).before = some w := by
    by_cases hut : u = t
    · rw [hut, upd_self] at hu
      rw [hut]
      exact hbefore w hu
    · rw [upd_ne _ _ hut] at hu
      exact hu
  rw [hval w (h.old u w (SynchPC.owns_of_inWait (SynchPC.inWait_of_before hu')))]
  exact h.granted_keep hu' hw (hsig w) p

/-- **A step inside one thread** that leaves the list and the queue as they are. -/
theorem Inv.quiet (h : Inv s)
    (he : s' = { s with pc := upd s.pc t p, lock := s'.lock, lockHolder := s'.lockHolder
                        waiter := s'.waiter })
    (hlock : Exclusive s'.lock.value (fun u => (upd s.pc t p u).holds = true))
    (hown : p.owns = (s.pc t).owns) (hin : p.inWait = (s.pc t).inWait)
    (hbefore : ∀ w ∈ s.waitQueue, (s.pc t).before = some w → p.before = some w)
    (hval : ∀ w ∈ s.waitQueue, (s'.waiter w).value = 0)
    (hfresh : ∀ u w, u ≠ t → s.pc u = .waitAppend w ∨ s.pc u = .signalV w → (s'.waiter w).value = 0)
    (hnew : ∀ w, p = .waitAppend w ∨ p = .signalV w →
      p = s.pc t ∧ (s'.waiter w).value = (s.waiter w).value)
    (hgranted : s'.Granted)
    (hbare : p.bare = true → s.list = []) (htake : p = .take → s.list ≠ [])
    (howes : (s.pc t).owes = true → p.owes = true ∨ s.list = [] ∨ s.waitQueue = []) : Inv s' := by
  have hself : upd s.pc t p t = p := upd_self _ _ _
  have hne : ∀ u, u ≠ t → upd s.pc t p u = s.pc u := fun u hu => upd_ne _ _ hu
  have howns : ∀ u, (upd s.pc t p u).owns = (s.pc u).owns := Base.upd_field SynchPC.owns hown
  have hwait : ∀ u, (upd s.pc t p u).inWait = (s.pc u).inWait := Base.upd_field SynchPC.inWait hin
  rw [he] at hgranted ⊢
  refine ⟨h.fifo, h.asserts, hlock, h.nodup, ?_, ?_, ?_, ?_, ?_, hgranted, ?_, ?_, ?_⟩
  · intro w hw
    refine ⟨hval w hw, ?_⟩
    obtain ⟨_, u, hu⟩ := h.queued w hw
    refine ⟨u, ?_⟩
    by_cases hut : u = t
    · rw [hut] at hu ⊢
      show (upd s.pc t p t).before = some w
      rw [hself]
      exact hbefore w hw hu
    · show (upd s.pc t p u).before = some w
      rw [hne u hut]
      exact hu
  · intro u v w hu hv
    simp only [howns] at hu hv
    exact h.owner u v w hu hv
  · intro u w hu
    simp only [howns] at hu
    exact h.old u w hu
  · refine Base.forall_upd (P := fun _ (q : SynchPC α) => ∀ w, q = .waitAppend w →
      w ∉ s.waitQueue ∧ (s'.waiter w).value = 0) ?_ ?_
    · intro w hp
      obtain ⟨he', hv⟩ := hnew w (Or.inl hp)
      obtain ⟨h1, h2⟩ := h.fresh t w (he'.symm.trans hp)
      exact ⟨h1, hv.trans h2⟩
    · intro u hut w hu
      exact ⟨(h.fresh u w hu).1, hfresh u w hut (Or.inl hu)⟩
  · refine Base.forall_upd (P := fun _ (q : SynchPC α) => ∀ w, q = .signalV w →
      w ∉ s.waitQueue ∧ w < s.allocated ∧ (s'.waiter w).value = 0) ?_ ?_
    · intro w hp
      obtain ⟨he', hv⟩ := hnew w (Or.inr hp)
      obtain ⟨h1, h2, h3⟩ := h.woken t w (he'.symm.trans hp)
      exact ⟨h1, h2, hv.trans h3⟩
    · intro u hut w hu
      exact ⟨(h.woken u w hu).1, (h.woken u w hu).2.1, hfresh u w hut (Or.inr hu)⟩
  · exact Base.forall_upd (P := fun _ (q : SynchPC α) => q.bare = true → s.list = []) hbare
      fun u _ => h.bare u
  · exact Base.forall_upd (P := fun _ (q : SynchPC α) => q = .take → s.list ≠ []) htake
      fun u _ => h.taking u
  · obtain ⟨L, hL, hmem, hcov⟩ := h.covered
    refine ⟨L, hL, ?_, ?_⟩
    · intro u
      rw [hmem]
      simp only [Signalled, hwait]
    · -- the thread may have been the one that owed, and then there is nothing left to owe
      intro hq
      rcases hcov hq with h1 | ⟨h1, u, hu⟩
      · exact Or.inl h1
      · by_cases hut : u = t
        · rw [hut] at hu
          rcases howes hu with h2 | h2 | h2
          · exact Or.inr ⟨h1, t, by simp only [hself]; exact h2⟩
          · exact Or.inl (by rw [h2]; exact Nat.zero_le _)
          · exact absurd h2 hq
        · exact Or.inr ⟨h1, u, by simp only [hne u hut]; exact hu⟩

/-- A step inside one thread that leaves the semaphores of the condition as they are too. -/
theorem Inv.glide (h : Inv s)
    (he : s' = { s with pc := upd s.pc t p, lock := s'.lock, lockHolder := s'.lockHolder })
    (hlock : Exclusive s'.lock.value (fun u => (upd s.pc t p u).holds = true))
    (hown : p.owns = (s.pc t).owns) (hin : p.inWait = (s.pc t).inWait)
    (hbefore : p.before = (s.pc t).before)
    (hnew : ∀ w, p ≠ .waitAppend w ∧ p ≠ .signalV w) (hold : ∀ w, s.pc t ≠ .signalV w)
    (hbare : p.bare = true → s.list = []) (htake : p = .take → s.list ≠ [])
    (howes : (s.pc t).owes = true → p.owes = true ∨ s.list = []) : Inv s' := by
  have hwaiter : s'.waiter = s.waiter := by rw [he]
  refine h.quiet (t := t) (p := p) (by rw [hwaiter]; exact he) hlock hown hin ?_ ?_ ?_ ?_ ?_
    hbare htake ?_
  · intro w _ hw
    exact hbefore.trans hw
  · intro w hw
    rw [hwaiter]
    exact (h.queued w hw).1
  · intro u w _ hu
    rw [hwaiter]
    exact h.zero hu
  · intro w hw
    exact absurd hw (not_or.mpr (hnew w))
  · exact h.granted_other (t := t) (p := p) (by rw [he]) (by rw [he]) (fun w _ => by rw [hwaiter])
      (fun w hw => hbefore.symm.trans hw) hold
  · intro ho
    exact (howes ho).imp_right Or.inl

/-- A semaphore on the queue is one that was created. -/
theorem Inv.queued_lt (h : Inv s) {w : Nat} (hw : w ∈ s.waitQueue) : w < s.allocated := by
  obtain ⟨_, u, hu⟩ := h.queued w hw
  exact h.old u w (SynchPC.owns_of_inWait (SynchPC.inWait_of_before hu))

/-- Outside the debt of the thread that holds the lock the count is exact. -/
theorem Inv.covered_of_holder (h : Inv s) (ht : (s.pc t).holds = true)
    (hno : (s.pc t).owes = false) {n : Nat} (hcov : s.Covered n) (hq : s.waitQueue ≠ []) :
    s.list.length ≤ n := by
  rcases hcov hq with h1 | ⟨_, u, hu⟩
  · exact h1
  · rw [h.alone ht (SynchPC.holds_of_owes hu), hno] at hu
    exact absurd hu (by simp)

/-- **A step of the thread that holds the lock.** What the invariant says of the places where
the lock is held is then about this thread alone. -/
theorem Inv.holder (h : Inv s) (hh : (s.pc t).holds = true) (hp : p.holds = true)
    (hpc : s'.pc = upd s.pc t p) (hlock : s'.lock = s.lock)
    (hfifo : s'.appended = s'.removed ++ s'.list) (hassert : s'.asserts = true)
    (hnodup : s'.waitQueue.Nodup)
    (hqueued : ∀ w ∈ s'.waitQueue, (s'.waiter w).value = 0 ∧ ∃ u, (upd s.pc t p u).before = some w)
    (halloc : s.allocated ≤ s'.allocated)
    (hown : ∀ w, p.owns = some w →
      w < s'.allocated ∧ ∀ u, u ≠ t → (s.pc u).owns = some w → False)
    (hfresh : ∀ w, p = .waitAppend w → w ∉ s'.waitQueue ∧ (s'.waiter w).value = 0)
    (hwoken : ∀ w, p = .signalV w → w ∉ s'.waitQueue ∧ w < s'.allocated ∧ (s'.waiter w).value = 0)
    (hgranted : s'.Granted)
    (hbare : p.bare = true → s'.list = []) (htake : p = .take → s'.list ≠ [])
    (hcov : ∃ L : List Nat, L.Nodup ∧ (∀ u, u ∈ L ↔ s'.Signalled u) ∧ s'.Covered L.length) :
    Inv s' := by
  have hself : upd s.pc t p t = p := upd_self _ _ _
  have hne : ∀ u, u ≠ t → upd s.pc t p u = s.pc u := fun u hu => upd_ne _ _ hu
  have halone : ∀ u, (upd s.pc t p u).holds = true → u = t := by
    intro u hu
    by_contra hut
    rw [hne u hut] at hu
    exact hut (h.alone hh hu)
  refine ⟨hfifo, hassert, ?_, hnodup, ?_, ?_, ?_, ?_, ?_, hgranted, ?_, ?_, hcov⟩
  · rw [hpc, hlock]
    exact h.lock.upd_same (hp.trans hh.symm)
  · rw [hpc]
    exact hqueued
  · intro u v w hu hv
    rw [hpc] at hu hv
    by_cases hut : u = t <;> by_cases hvt : v = t
    · rw [hut, hvt]
    · rw [hut, hself] at hu
      rw [hne v hvt] at hv
      exact absurd hv ((hown w hu).2 v hvt)
    · rw [hvt, hself] at hv
      rw [hne u hut] at hu
      exact absurd hu ((hown w hv).2 u hut)
    · rw [hne u hut] at hu
      rw [hne v hvt] at hv
      exact h.owner u v w hu hv
  · intro u w hu
    rw [hpc] at hu
    by_cases hut : u = t
    · rw [hut, hself] at hu
      exact (hown w hu).1
    · rw [hne u hut] at hu
      exact Nat.lt_of_lt_of_le (h.old u w hu) halloc
  · intro u w hu
    rw [hpc] at hu
    have hut := halone u (by rw [hu]; rfl)
    rw [hut, hself] at hu
    exact hfresh w hu
  · intro u w hu
    rw [hpc] at hu
    have hut := halone u (by rw [hu]; rfl)
    rw [hut, hself] at hu
    exact hwoken w hu
  · intro u hu
    rw [hpc] at hu
    have hut := halone u (SynchPC.holds_of_bare hu)
    rw [hut, hself] at hu
    exact hbare hu
  · intro u hu
    rw [hpc] at hu
    have hut := halone u (by rw [hu]; rfl)
    rw [hut, hself] at hu
    exact htake hu

/-- The semaphores on the queue stay with their owners when a thread moves that owns none of
them. -/
theorem Inv.queued_other (h : Inv s) (ht : (s.pc t).before = none) {w : Nat}
    (hw : w ∈ s.waitQueue) (p : SynchPC α) :
    (s.waiter w).value = 0 ∧ ∃ u, (upd s.pc t p u).before = some w := by
  obtain ⟨h1, u, hu⟩ := h.queued w hw
  have hut : u ≠ t := fun e => by
    rw [e, ht] at hu
    exact absurd hu (by simp)
  exact ⟨h1, u, by rw [upd_ne _ _ hut]; exact hu⟩

/-- The signalled consumers stay the same when a thread moves that is not one of them. -/
theorem signalled_other (hpc : s'.pc = upd s.pc t p) (hq : s'.waitQueue = s.waitQueue)
    (hp : p.inWait = none) (ht : (s.pc t).inWait = none) (u : Nat) :
    s.Signalled u ↔ s'.Signalled u := by
  unfold Signalled
  rw [hpc, hq]
  by_cases hut : u = t
  · simp [hut, hp, ht]
  · rw [upd_ne _ _ hut]

/-- **`Signal`** takes the first semaphore off the queue. -/
theorem inv_signal (h : Inv s) (ht : s.pc t = .signal) : Inv (s.signal t) := by
  cases hq : s.waitQueue with
  | nil =>
      have he : s.signal t = s.goto t (.release (.done none)) := by rw [signal, hq]
      rw [he]
      exact h.quiet (p := .release (.done none)) rfl (h.lock.upd_same (by rw [ht]; rfl))
        (by rw [ht]; rfl)
        (by rw [ht]; rfl) (fun w hw => absurd hw (by simp [hq])) (fun w hw => (h.queued w hw).1)
        (fun u w _ hu => h.zero hu) (fun w hw => absurd hw (by simp))
        (h.granted_other (t := t) (p := .release (.done none)) (by exact rfl) (by exact rfl)
          (fun _ _ => rfl) (by simp [SynchPC.before]) (by simp [ht]))
        (by simp [SynchPC.bare]) (by simp) (fun _ => Or.inr (Or.inr hq))
  | cons w ws =>
      have he : s.signal t = { s.goto t (.signalV w) with waitQueue := ws } := by rw [signal, hq]
      have hnd := h.nodup
      rw [hq] at hnd
      obtain ⟨hw, hws⟩ := List.nodup_cons.mp hnd
      have hmem : w ∈ s.waitQueue := by rw [hq]; exact List.mem_cons_self
      have hsub : ∀ v ∈ ws, v ∈ s.waitQueue := fun v hv => by
        rw [hq]; exact List.mem_cons_of_mem w hv
      -- the consumer that is signalled
      obtain ⟨_, c, hc⟩ := h.queued w hmem
      have hcin := SynchPC.inWait_of_before hc
      have hct : c ≠ t := fun e => by rw [e, ht] at hc; exact absurd hc (by simp [SynchPC.before])
      obtain ⟨L, hL, hLm, hcov⟩ := h.covered
      have hcL : c ∉ L := fun hcL => by
        obtain ⟨x, hx, hxq⟩ := (hLm c).mp hcL
        rw [hcin] at hx
        exact hxq (Option.some.inj hx ▸ hmem)
      rw [he]
      refine h.holder (by rw [ht]; rfl) (p := .signalV w) rfl rfl rfl h.fifo h.asserts hws
        (fun v hv => h.queued_other (by rw [ht]; rfl) (hsub v hv) _) (Nat.le_refl _)
        (fun v hv => absurd hv (by simp [SynchPC.owns])) (fun v hv => absurd hv (by simp)) ?_ ?_
        (by simp [SynchPC.bare]) (by simp) ⟨c :: L, List.nodup_cons.mpr ⟨hcL, hL⟩, ?_, ?_⟩
      · intro v hv
        cases hv
        exact ⟨hw, h.queued_lt hmem, (h.queued w hmem).1⟩
      · intro u v hu hv
        simp only [goto] at hu ⊢
        by_cases hvw : v = w
        · exact Or.inr ⟨t, by rw [upd_self, hvw]⟩
        · have hut : u ≠ t := fun e => by
            rw [e, upd_self] at hu; exact absurd hu (by simp [SynchPC.before])
          rw [upd_ne _ _ hut] at hu
          refine h.granted_keep hu ?_ (by simp [ht]) _
          rw [hq]
          exact fun hvq => (List.mem_cons.mp hvq).elim hvw hv
      · intro u
        simp only [Signalled, goto, upd_apply]
        constructor
        · intro hu
          rcases List.mem_cons.mp hu with hu' | hu'
          · exact ⟨w, by rw [hu', if_neg hct]; exact hcin, hw⟩
          · obtain ⟨x, hx, hxq⟩ := (hLm u).mp hu'
            have hut : u ≠ t := fun e => by
              rw [e, ht] at hx; exact absurd hx (by simp [SynchPC.inWait, SynchPC.owns])
            exact ⟨x, by rw [if_neg hut]; exact hx, fun hxs => hxq (hsub x hxs)⟩
        · rintro ⟨x, hx, hxs⟩
          split at hx
          · exact absurd hx (by simp [SynchPC.inWait, SynchPC.owns])
          · by_cases hxw : x = w
            · rw [hxw] at hx
              rw [h.owner u c w (SynchPC.owns_of_inWait hx) (SynchPC.owns_of_inWait hcin)]
              exact List.mem_cons_self
            · refine List.mem_cons_of_mem c ((hLm u).mpr ⟨x, hx, ?_⟩)
              rw [hq]
              exact fun hxq => (List.mem_cons.mp hxq).elim hxw hxs
      · -- one consumer more is on its way: the debt of the append is paid
        intro _
        rcases hcov (by rw [hq]; simp) with h1 | ⟨h1, _⟩
        · exact Or.inl (Nat.le_succ_of_le h1)
        · exact Or.inl h1

/-- **`list->RemoveFront()`** is called with the list not empty. -/
theorem inv_take (h : Inv s) (ht : s.pc t = .take) : Inv (s.take t) := by
  cases hl : s.list with
  | nil => exact absurd hl (h.taking t ht)
  | cons item items =>
      have he : s.take t = { s.goto t (.release (.done (some item))) with
          list := items, removed := s.removed ++ [item] } := by rw [take, hl]
      have hlen : s.list.length = items.length + 1 := by rw [hl]; rfl
      obtain ⟨L, hL, hLm, hcov⟩ := h.covered
      rw [he]
      refine h.holder (by rw [ht]; rfl) (p := .release (.done (some item))) rfl rfl rfl ?_ h.asserts
        h.nodup (fun v hv => h.queued_other (by rw [ht]; rfl) hv _) (Nat.le_refl _)
        (fun v hv => absurd hv (by simp [SynchPC.owns])) (fun v hv => absurd hv (by simp))
        (fun v hv => absurd hv (by simp))
        (h.granted_other (t := t) (p := .release (.done (some item))) (by exact rfl) (by exact rfl)
          (fun _ _ => rfl) (by simp [SynchPC.before]) (by simp [ht]))
        (by simp [SynchPC.bare]) (by simp) ⟨L, hL, ?_, ?_⟩
      · show s.appended = (s.removed ++ [item]) ++ items
        rw [h.fifo, hl]
        simp
      · intro u
        rw [hLm]
        exact signalled_other (p := .release (.done (some item))) (by exact rfl) (by exact rfl) rfl
          (by rw [ht]; rfl) u
      · -- one item fewer makes up for the one that was owed
        intro hq
        rcases hcov hq with h1 | ⟨h1, _⟩
        · exact Or.inl (show items.length ≤ L.length by omega)
        · exact Or.inl (show items.length ≤ L.length by omega)

/-- `new Semaphore`: a semaphore that nobody knows yet. -/
theorem inv_waitNew (h : Inv s) (ht : s.pc t = .waitNew) :
    Inv { s.goto t (.waitAppend s.allocated) with
      waiter := upd s.waiter s.allocated (Semaphore.new 0), allocated := s.allocated + 1 } := by
  have hlt : ∀ w ∈ s.waitQueue, w ≠ s.allocated := fun w hw e =>
    absurd (h.queued_lt hw) (by rw [e]; exact Nat.lt_irrefl _)
  obtain ⟨L, hL, hLm, hcov⟩ := h.covered
  have hempty : s.list = [] := h.bare t (by rw [ht]; rfl)
  refine h.holder (by rw [ht]; rfl) (p := .waitAppend s.allocated) rfl rfl rfl h.fifo h.asserts
    h.nodup ?_ (Nat.le_succ _) ?_ ?_ (fun v hv => absurd hv (by simp)) ?_
    (fun _ => hempty) (by simp) ⟨L, hL, ?_, ?_⟩
  · intro w hw
    obtain ⟨h1, h2⟩ := h.queued_other (by rw [ht]; rfl) hw (p := .waitAppend s.allocated)
    refine ⟨?_, h2⟩
    show (upd s.waiter s.allocated _ w).value = 0
    rw [upd_ne _ _ (hlt w hw)]
    exact h1
  · intro w hw
    cases hw
    refine ⟨Nat.lt_succ_self _, ?_⟩
    intro u _ hu
    exact absurd (h.old u _ hu) (Nat.lt_irrefl _)
  · intro w hw
    cases hw
    refine ⟨fun hm => hlt _ hm rfl, ?_⟩
    show (upd s.waiter s.allocated _ s.allocated).value = 0
    rw [upd_self]
    rfl
  · refine h.granted_other (t := t) (p := .waitAppend s.allocated) (by exact rfl) (by exact rfl) ?_
      (by simp [SynchPC.before]) (by simp [ht])
    intro w hw
    show (upd s.waiter s.allocated _ w).value = _
    rw [upd_ne _ _ (Nat.ne_of_lt hw)]
  · intro u
    rw [hLm]
    exact signalled_other (p := .waitAppend s.allocated) (by exact rfl) (by exact rfl) rfl
      (by rw [ht]; rfl) u
  · intro _
    exact Or.inl (by rw [show ({ s.goto t _ with waiter := _, allocated := _ } : SynchList α).list
      = [] from hempty]; exact Nat.zero_le _)

/-- `waitQueue->Append(waiter)`. The list is empty, so no signal is due. -/
theorem inv_waitAppend (h : Inv s) {w : Nat} (ht : s.pc t = .waitAppend w) :
    Inv { s.goto t (.release (.sleep w)) with
      waitQueue := s.waitQueue ++ [w], asserts := s.asserts && !s.waitQueue.contains w } := by
  obtain ⟨hw, hval⟩ := h.fresh t w ht
  have hown : (s.pc t).owns = some w := by rw [ht]; rfl
  have hempty : s.list = [] := h.bare t (by rw [ht]; rfl)
  obtain ⟨L, hL, hLm, hcov⟩ := h.covered
  refine h.holder (by rw [ht]; rfl) (p := .release (.sleep w)) rfl rfl rfl h.fifo
    (by simp [h.asserts, hw]) ?_ ?_ (Nat.le_refl _) ?_ (fun v hv => absurd hv (by simp))
    (fun v hv => absurd hv (by simp)) ?_ (fun _ => hempty) (by simp) ⟨L, hL, ?_, ?_⟩
  · exact List.concat_eq_append ▸ h.nodup.concat hw
  · intro v hv
    rcases List.mem_append.mp hv with h1 | h1
    · exact h.queued_other (by rw [ht]; rfl) h1 _
    · rw [List.mem_singleton.mp h1]
      exact ⟨hval, t, by rw [upd_self]; rfl⟩
  · intro v hv
    cases hv
    exact ⟨h.old t w hown, fun u hut hu => hut (h.owner u t w hu hown)⟩
  · intro u v hu hv
    simp only [goto] at hu ⊢
    obtain ⟨hvq, hvw⟩ := not_or.mp (fun h1 => hv (List.mem_append.mpr h1))
    have hut : u ≠ t := fun e => by
      rw [e, upd_self] at hu
      exact hvw (List.mem_singleton.mpr (Option.some.inj hu).symm)
    rw [upd_ne _ _ hut] at hu
    exact h.granted_keep hu hvq (by simp [ht]) _
  · intro u
    rw [hLm]
    by_cases hut : u = t
    · simp [Signalled, goto, hut, ht, SynchPC.inWait, SynchPC.owns]
    · simp only [Signalled, goto, upd_ne _ _ hut, List.mem_append, List.mem_singleton, not_or]
      refine exists_congr fun x => and_congr_right fun hx => ?_
      have hxw : x ≠ w := fun e =>
        hut (h.owner u t w (e ▸ SynchPC.owns_of_inWait hx) hown)
      simp [hxw]
  · intro _
    exact Or.inl (by rw [show ({ s.goto t _ with waitQueue := _, asserts := _ } : SynchList α).list
      = [] from hempty]; exact Nat.zero_le _)

/-- A consumer is back from `Wait`, and owes its signal to the list. -/
theorem inv_waitDelete (h : Inv s) {w : Nat} (ht : s.pc t = .waitDelete w) :
    Inv (s.goto t .test) := by
  have hh : (s.pc t).holds = true := by rw [ht]; rfl
  obtain ⟨L, hL, hLm, hcov⟩ := h.covered
  refine h.holder hh (p := .test) rfl rfl rfl h.fifo h.asserts h.nodup
    (fun v hv => h.queued_other (by rw [ht]; rfl) hv _) (Nat.le_refl _)
    (fun v hv => absurd hv (by simp [SynchPC.owns])) (fun v hv => absurd hv (by simp))
    (fun v hv => absurd hv (by simp))
    (h.granted_other (t := t) (p := .test) (by exact rfl) (by exact rfl) (fun _ _ => rfl)
      (by simp [SynchPC.before]) (by simp [ht]))
    (by simp [SynchPC.bare]) (by simp) ⟨L.erase t, hL.erase t, ?_, ?_⟩
  · intro u
    rw [hL.mem_erase_iff, hLm]
    by_cases hut : u = t
    · simp [Signalled, goto, hut, SynchPC.inWait, SynchPC.owns]
    · simp only [Signalled, goto, upd_ne _ _ hut, hut, ne_eq, not_false_eq_true, true_and]
  · -- one consumer fewer is on its way, and it owes the item it was woken for
    intro hq
    have h1 := h.covered_of_holder hh (by rw [ht]; rfl) hcov hq
    have h2 := SemState.length_le_erase_succ L t
    exact Or.inr ⟨Nat.le_trans h1 h2, t, by simp only [goto, upd_self]; rfl⟩

/-- The value of the lock is 0 or 1, and does not wrap. -/
theorem Inv.lock_value (h : Inv s) : s.lock.value = 0 ∨ s.lock.value = 1 := by
  rcases h.lock with h1 | h1
  · exact Or.inr h1.1
  · exact Or.inl h1.1

/-- **`Acquire`**, a pass of its `P`. -/
theorem inv_acquire (h : Inv s) {why : LockFor α} (ht : s.pc t = .acquire why)
    (hs : s.acquire t why = some s') : Inv s' := by
  simp only [acquire] at hs
  split at hs
  · exact absurd hs (by simp)
  · by_cases hv : s.lock.value = 0
    · rw [Semaphore.P_zero t hv] at hs
      cases hs
      refine h.glide (t := t) (p := s.pc t) (by rw [upd_eq_self]) (h.lock.upd_same rfl)
        rfl rfl rfl ?_ (by simp [ht]) (h.bare t) (h.taking t) Or.inl
      simp [ht]
    · rw [Semaphore.P_pos t hv] at hs
      cases hs
      have hw : toInt32 (s.lock.value - 1) = s.lock.value - 1 := by
        rcases h.lock_value with h1 | h1 <;> exact toInt32_small (by omega) (by omega)
      refine h.glide (t := t) (p := .held why) rfl ?_ (by rw [ht]; cases why <;> rfl)
        (by rw [ht]; cases why <;> rfl) (by rw [ht]; rfl) (by simp) (by simp [ht])
        (by simp [SynchPC.bare]) (by simp) (by rw [ht]; simp [SynchPC.owes])
      show Exclusive (toInt32 (s.lock.value - 1)) _
      rw [hw]
      exact h.lock.upd_enter hv rfl

/-- **`Release`**, its `V`. -/
theorem inv_unlock (h : Inv s) {next : LockThen α} (ht : s.pc t = .unlock next) :
    Inv { s.goto t (afterRelease next) with lock := s.lock.V.1 } := by
  obtain ⟨h0, hl⟩ := h.lock.upd_leave (i := t) (k := afterRelease next) (by rw [ht]; rfl)
    (by cases next <;> rfl)
  have hw : toInt32 (s.lock.value + 1) = s.lock.value + 1 := toInt32_small (by omega) (by omega)
  refine h.glide (t := t) (p := afterRelease next) rfl ?_ (by rw [ht]; cases next <;> rfl)
    (by rw [ht]; cases next <;> rfl) (by rw [ht]; cases next <;> rfl)
    (by cases next <;> simp [afterRelease])
    (by simp [ht]) (by cases next <;> simp [afterRelease, SynchPC.bare])
    (by cases next <;> simp [afterRelease]) (by rw [ht]; simp [SynchPC.owes])
  show Exclusive (toInt32 (s.lock.value + 1)) _
  rw [hw]
  exact hl

/-- **`Wait`**, a pass of its `P`. Whoever passes is no longer on the queue. -/
theorem inv_waitP (h : Inv s) {w : Nat} (ht : s.pc t = .waitP w) (hs : s.waitP t w = some s') :
    Inv s' := by
  simp only [waitP] at hs
  split at hs
  · exact absurd hs (by simp)
  · by_cases hv : (s.waiter w).value = 0
    · rw [Semaphore.P_zero t hv] at hs
      cases hs
      have hsame := Base.upd_field (f := s.waiter) (i := w)
        (x := { s.waiter w with queue := (s.waiter w).queue ++ [t] }) Semaphore.value rfl
      refine h.quiet (t := t) (p := s.pc t) (by rw [upd_eq_self]) (h.lock.upd_same rfl) rfl rfl
        (fun _ _ hb => hb) ?_ ?_ ?_ ?_ (h.bare t) (h.taking t) Or.inl
      · intro v hq
        exact (hsame v).trans (h.queued v hq).1
      · intro u v _ hu
        exact (hsame v).trans (h.zero hu)
      · intro v _
        exact ⟨rfl, hsame v⟩
      · exact h.granted_other (t := t) (p := s.pc t) (by rw [upd_eq_self]) (by exact rfl)
          (fun v _ => hsame v) (fun _ hb => hb) (by simp [ht])
    · rw [Semaphore.P_pos t hv] at hs
      cases hs
      have hw : w ∉ s.waitQueue := fun hq => hv (h.queued w hq).1
      refine h.quiet (t := t) (p := .acquire (.woken w)) rfl (h.lock.upd_same (by rw [ht]; rfl))
        (by rw [ht]; rfl) (by rw [ht]; rfl) ?_ ?_ ?_ (by simp) ?_ (by simp [SynchPC.bare]) (by simp)
        (by rw [ht]; simp [SynchPC.owes])
      · intro v hq hb
        rw [ht] at hb
        exact absurd (Option.some.inj hb ▸ hq) hw
      · intro v hq
        have hvw : v ≠ w := fun e => hw (e ▸ hq)
        show (upd s.waiter w _ v).value = 0
        rw [upd_ne _ _ hvw]
        exact (h.queued v hq).1
      · intro u v hut hu
        have hvw : v ≠ w := fun e => hv (e ▸ h.zero hu)
        show (upd s.waiter w _ v).value = 0
        rw [upd_ne _ _ hvw]
        exact h.zero hu
      · intro u v hu hvq
        simp only [goto] at hu ⊢
        have hut : u ≠ t := fun e => by
          rw [e, upd_self] at hu; exact absurd hu (by simp [SynchPC.before])
        rw [upd_ne _ _ hut] at hu
        have hvw : v ≠ w := fun e => hut (h.owner u t w
          (e ▸ SynchPC.owns_of_inWait (SynchPC.inWait_of_before hu)) (by rw [ht]; rfl))
        rw [upd_ne _ _ hvw]
        exact h.granted_keep hu hvq (by simp [ht]) _

/-- `waiter->V()`. The semaphore is off the queue. -/
theorem inv_signalV (h : Inv s) {w : Nat} (ht : s.pc t = .signalV w) :
    Inv { s.goto t (.release (.done none)) with waiter := upd s.waiter w (s.waiter w).V.1 } := by
  refine h.quiet (t := t) (p := .release (.done none)) rfl (h.lock.upd_same (by rw [ht]; rfl))
    (by rw [ht]; rfl) (by rw [ht]; rfl) (by rw [ht]; simp [SynchPC.before]) ?_ ?_ (by simp) ?_
    (by simp [SynchPC.bare]) (by simp) (by rw [ht]; simp [SynchPC.owes])
  · intro v hq
    have hvw : v ≠ w := fun e => (h.woken t w ht).1 (e ▸ hq)
    show (upd s.waiter w _ v).value = 0
    rw [upd_ne _ _ hvw]
    exact (h.queued v hq).1
  · intro u v hut hu
    exact absurd (h.alone (t := t) (by rw [ht]; rfl)
      (by rcases hu with hu | hu <;> rw [hu] <;> rfl)) hut
  · intro u v hu hvq
    simp only [goto] at hu ⊢
    by_cases hvw : v = w
    · left
      rw [hvw, upd_self]
      show toInt32 ((s.waiter w).value + 1) = 1
      rw [(h.woken t w ht).2.2]
      rfl
    · have hut : u ≠ t := fun e => by
        rw [e, upd_self] at hu; exact absurd hu (by simp [SynchPC.before])
      rw [upd_ne _ _ hut] at hu
      rw [upd_ne _ _ hvw]
      -- the `V` that is being given is the other one
      exact h.granted_keep hu hvq (by simpa [ht] using Ne.symm hvw) _

/-- `lockHolder = kernel->currentThread`, and back to where `Acquire` was called. -/
theorem inv_held (h : Inv s) {why : LockFor α} (ht : s.pc t = .held why) :
    Inv { s.goto t (afterAcquire why) with lockHolder := some t } := by
  refine h.glide (t := t) (p := afterAcquire why) rfl
    (h.lock.upd_same (by rw [ht]; cases why <;> rfl))
    ?_ ?_ ?_ ?_ (by simp [ht]) ?_ ?_ (by rw [ht]; simp [SynchPC.owes])
  all_goals first | rw [ht] | skip
  all_goals cases why <;> simp [afterAcquire, SynchPC.owns, SynchPC.inWait, SynchPC.before,
    SynchPC.bare]

/-- `while (list->IsEmpty())`. -/
theorem inv_test (h : Inv s) (ht : s.pc t = .test) :
    Inv (s.goto t (if s.list.isEmpty then .waitNew else .take)) := by
  cases hl : s.list with
  | nil =>
      exact h.glide (t := t) (p := .waitNew) rfl (h.lock.upd_same (by rw [ht]; rfl))
        (by rw [ht]; rfl)
        (by rw [ht]; rfl) (by rw [ht]; rfl) (by simp) (by simp [ht]) (fun _ => hl) (by simp)
        (fun _ => Or.inr hl)
  | cons x xs =>
      exact h.glide (t := t) (p := .take) rfl (h.lock.upd_same (by rw [ht]; rfl)) (by rw [ht]; rfl)
        (by rw [ht]; rfl) (by rw [ht]; rfl) (by simp) (by simp [ht]) (by simp [SynchPC.bare])
        (fun _ => by simp [hl])
        (fun _ => Or.inl rfl)

/-- `lockHolder = NULL`. -/
theorem inv_release (h : Inv s) {next : LockThen α} (ht : s.pc t = .release next) :
    Inv { s.goto t (.unlock next) with lockHolder := none } := by
  refine h.glide (t := t) (p := .unlock next) rfl (h.lock.upd_same (by rw [ht]; rfl)) ?_ ?_
    ?_ (by simp) (by simp [ht]) ?_ (by simp) (by rw [ht]; simp [SynchPC.owes])
  · rw [ht]; cases next <;> rfl
  · rw [ht]; cases next <;> rfl
  · rw [ht]; cases next <;> rfl
  · intro hb
    refine h.bare t ?_
    rw [ht]
    cases next with
    | done r => exact absurd hb (by simp [SynchPC.bare])
    | sleep w => rfl

/-- A thread calls `Append` or `RemoveFront`. -/
theorem inv_call (h : Inv s) {ret : Option α} {why : LockFor α} (ht : s.pc t = .out ret)
    (hwhy : ∀ w, why ≠ .woken w) : Inv (s.goto t (.acquire why)) := by
  refine h.glide (t := t) (p := .acquire why) rfl (h.lock.upd_same (by rw [ht]; rfl)) ?_ ?_
    (by rw [ht]; rfl)
    (by simp) (by simp [ht]) (by simp [SynchPC.bare]) (by simp) (by rw [ht]; simp [SynchPC.owes])
  all_goals
    rw [ht]
    cases why with
    | woken w => exact absurd rfl (hwhy w)
    | _ => rfl

/-- The consumer has got its `V` and is not back from `Wait`. -/
def Woken (s : SynchList α) (t : Nat) : Prop :=
  ∃ w, (s.pc t).inWait = some w ∧ ((s.pc t).before = none ∨ 0 < (s.waiter w).value)

/-- When nobody holds the lock no `V` is still to come, and a consumer off the queue has its own. -/
theorem Inv.woken_iff (h : Inv s) (hfree : ∀ t, (s.pc t).holds = false) (t : Nat) :
    s.Woken t ↔ s.Signalled t := by
  refine exists_congr fun w => and_congr_right fun hin => ?_
  constructor
  · intro hw hq
    obtain ⟨h0, u, hu⟩ := h.queued w hq
    rcases hw with hw | hw
    · have hut := h.owner u t w (SynchPC.owns_of_inWait (SynchPC.inWait_of_before hu))
        (SynchPC.owns_of_inWait hin)
      rw [hut, hw] at hu
      exact absurd hu (by simp)
    · rw [h0] at hw
      exact absurd hw (by simp)
  · intro hq
    cases hb : (s.pc t).before with
    | none => exact Or.inl rfl
    | some v =>
        have hv : v = w := Option.some.inj ((SynchPC.inWait_of_before hb).symm.trans hin)
        rw [hv] at hb
        rcases h.granted t w hb hq with h1 | ⟨u, hu⟩
        · exact Or.inr (by rw [h1]; exact Int.one_pos)
        · have := hfree u
          rw [hu] at this
          exact absurd this (by simp [SynchPC.holds])

end Steps

section Runs

variable [DecidableEq α] {s s' : SynchList α} {t : Nat}

/-- An item that goes on the list is not in it. -/
def Distinct (s : SynchList α) (l : Nat × SynchCall α) : Prop :=
  ∀ item ∈ (s.pc l.1).appending, item ∉ s.list

instance (s : SynchList α) (l : Nat × SynchCall α) : Decidable (Distinct s l) :=
  inferInstanceAs (Decidable (∀ item ∈ (s.pc l.1).appending, item ∉ s.list))

/-- **`list->Append(item)`**. The signal for the item is still due. -/
theorem inv_append (h : Inv s) {item : α} (ht : s.pc t = .append item) (hitem : item ∉ s.list) :
    Inv (s.append t item) := by
  have hh : (s.pc t).holds = true := by rw [ht]; rfl
  obtain ⟨L, hL, hLm, hcov⟩ := h.covered
  refine h.holder hh (p := .signal) rfl rfl rfl ?_ ?_ h.nodup
    (fun v hv => h.queued_other (by rw [ht]; rfl) hv _) (Nat.le_refl _)
    (fun v hv => absurd hv (by simp [SynchPC.owns])) (fun v hv => absurd hv (by simp))
    (fun v hv => absurd hv (by simp))
    (h.granted_other (t := t) (p := .signal) (by exact rfl) (by exact rfl) (fun _ _ => rfl)
      (by simp [SynchPC.before]) (by simp [ht]))
    (by simp [SynchPC.bare]) (by simp) ⟨L, hL, ?_, ?_⟩
  · show s.appended ++ [item] = s.removed ++ (s.list ++ [item])
    rw [h.fifo, List.append_assoc]
  · simp [append, h.asserts, hitem]
  · intro u
    rw [hLm]
    exact signalled_other (p := .signal) (by exact rfl) (by exact rfl) rfl (by rw [ht]; rfl) u
  · intro hq
    have h1 := h.covered_of_holder hh (by rw [ht]; rfl) hcov hq
    refine Or.inr ⟨?_, t, by simp only [append, goto, upd_self]; rfl⟩
    show (s.list ++ [item]).length ≤ L.length + 1
    rw [List.length_append]
    exact Nat.succ_le_succ h1

/-- One step of a thread, from wherever it is. -/
theorem inv_go (h : Inv s) (hd : ∀ item ∈ (s.pc t).appending, item ∉ s.list)
    (hs : s.go t = some s') : Inv s' := by
  unfold go at hs
  split at hs
  case h_1 => exact absurd hs (by simp)
  case h_2 why ht => exact inv_acquire h ht hs
  case h_3 why ht => cases hs; exact inv_held h ht
  case h_4 item ht => cases hs; exact inv_append h ht (hd item (by rw [ht]; rfl))
  case h_5 ht => cases hs; exact inv_signal h ht
  case h_6 w ht => cases hs; exact inv_signalV h ht
  case h_7 ht => cases hs; exact inv_test h ht
  case h_8 ht => cases hs; exact inv_take h ht
  case h_9 ht => cases hs; exact inv_waitNew h ht
  case h_10 w ht => cases hs; exact inv_waitAppend h ht
  case h_11 w ht => exact inv_waitP h ht hs
  case h_12 w ht => cases hs; exact inv_waitDelete h ht
  case h_13 next ht => cases hs; exact inv_release h ht
  case h_14 next ht => cases hs; exact inv_unlock h ht

theorem inv_step {l : Nat × SynchCall α} (h : Inv s) (hd : Distinct s l) (hs : step s l = some s') :
    Inv s' := by
  unfold step at hs
  split at hs
  · exact inv_go h hd hs
  · split at hs
    · rename_i ht
      cases hs
      exact inv_call h ht (by simp)
    · exact absurd hs (by simp)
  · split at hs
    · rename_i ht
      cases hs
      exact inv_call h ht (by simp)
    · exact absurd hs (by simp)

/-- The invariant, over whole runs. -/
theorem inv_reach (h : (sys α).ReachBy Distinct s) : Inv s :=
  h.invariant (fun s hs => by rw [show s = new from hs]; exact inv_new)
    (fun _ _ _ _ hi hd hst => inv_step hi hd hst)

/-- **The list is a queue and no signal is missed.** With any number of producers and
consumers, in any interleaving in which no item is appended that is in the list, what was
removed is a prefix of what was appended; nobody takes from an empty list, and no `ASSERT`
fails; and whenever nobody holds the lock and somebody is on the queue of the condition,
there are as many consumers on their way back from `Wait` as there are items. -/
theorem synchlist_sound (h : (sys α).ReachBy Distinct s) :
    s.removed <+: s.appended ∧ s.appended = s.removed ++ s.list ∧
      (∀ t, s.pc t = .take → s.list ≠ []) ∧ s.asserts = true ∧
      (∀ t u, (s.pc t).holds = true → (s.pc u).holds = true → t = u) ∧
      ((∀ t, (s.pc t).holds = false) → s.waitQueue ≠ [] →
        { t | s.Woken t }.Finite ∧ s.list.length ≤ { t | s.Woken t }.ncard) := by
  have hi := inv_reach h
  refine ⟨⟨s.list, hi.fifo.symm⟩, hi.fifo, hi.taking, hi.asserts, fun t u => hi.lock.unique, ?_⟩
  intro hfree hq
  obtain ⟨L, hL, hLm, hcov⟩ := hi.covered
  have hset : { t | s.Woken t } = (L.toFinset : Set Nat) := by
    ext t
    rw [List.coe_toFinset]
    exact (hi.woken_iff hfree t).trans (hLm t).symm
  rw [hset, Set.ncard_coe_finset, List.toFinset_card_of_nodup hL]
  refine ⟨Finset.finite_toSet _, ?_⟩
  rcases hcov hq with h1 | ⟨_, t, ht⟩
  · exact h1
  · exact absurd (SynchPC.holds_of_owes ht) (by rw [hfree t]; simp)

/-- Two consumers wait, the first of them still on its way to sleep when it is signalled. -/
theorem synchlist_sound_two_waiting :
    ∃ s : SynchList Nat, (sys Nat).ReachBy Distinct s ∧ s.list = [7] ∧ s.waitQueue = [1] ∧
      s.pc 1 = .waitP 0 ∧ 1 ≤ { t | s.Woken t }.ncard := by
  have hrun : ∃ s, (sys Nat).runBy Distinct new
      ((1, .removeFront) :: List.replicate 7 (1, .go) ++
      (4, .removeFront) :: List.replicate 7 (4, .go) ++
        (2, .append 7) :: List.replicate 7 (2, .go)) = some s ∧ s.list = [7] ∧ s.waitQueue = [1] ∧
      s.pc 1 = .waitP 0 ∧ s.lock.value = 1 := ⟨_, rfl, by decide, by decide, by decide, by decide⟩
  obtain ⟨s, hs, hl, hq, hp, hv⟩ := hrun
  have hr : (sys Nat).ReachBy Distinct s := Base.System.ReachBy.runBy _ (.init rfl) hs
  have hfree : ∀ t, (s.pc t).holds = false := by
    rcases (inv_reach hr).lock with h1 | h1
    · exact fun t => by simpa using h1.2 t
    · exact absurd h1.1 (by rw [hv]; decide)
  have := ((synchlist_sound hr).2.2.2.2.2 hfree (by simp [hq])).2
  rw [hl] at this
  exact ⟨s, hr, hl, hq, hp, this⟩

end Runs

end SynchList

end Nachos
