import Nachos.Threads.Monitor
import Mathlib.Data.List.Nodup

/-!
# Locks and conditions are a monitor

The lock is a semaphore of value 1, so one thread at most is past its `P` and not past its `V`. All
that concerns a condition happens there, but for one thing: a waiter gives the lock back before
it goes to sleep. The semaphore that it has put on the queue keeps the signal for it until then.

`LockInv` is about the semaphore of the lock, and `WaitInv` about those of the conditions. A
semaphore of a condition is at 0 as long as it is on the queue, and when it has been taken off,
whoever did that is still at its `V` or the value is 1.
-/

namespace Nachos

open Base (upd upd_self upd_ne upd_apply Exclusive Mesa MesaEvent)

namespace MonitorPC

variable {κ : Type}

/-- Past the `P` of the lock, and not past its `V`. -/
def holds : MonitorPC κ → Bool
  | out => false
  | acquire _ => false
  | waitP _ _ => false
  | _ => true

/-- In `Acquire`. -/
def acquires : MonitorPC κ → Bool
  | acquire _ => true
  | _ => false

/-- The semaphore that the thread has made and not deleted. -/
def owns : MonitorPC κ → Option (κ × Nat)
  | acquire back => back
  | held back => back
  | release sleep => sleep
  | unlock sleep => sleep
  | waitAppend c w => some (c, w)
  | waitP c w => some (c, w)
  | waitDelete c w => some (c, w)
  | _ => none

/-- The semaphore that it has put on the queue, and has not passed. -/
def before : MonitorPC κ → Option (κ × Nat)
  | release sleep => sleep
  | unlock sleep => sleep
  | waitP c w => some (c, w)
  | _ => none

/-- The semaphore that it puts on the queue next. -/
def appends : MonitorPC κ → Option Nat
  | waitAppend _ w => some w
  | _ => none

/-- The semaphore that it may be asleep on. -/
def sleeps : MonitorPC κ → Option Nat
  | waitP _ w => some w
  | _ => none

/-- The semaphore that it has taken off the queue and owes a `V`. -/
def gives : MonitorPC κ → Option (κ × Nat)
  | signalV c w _ => some (c, w)
  | _ => none

/-- The condition that it wakes all waiters of. -/
def sweeps : MonitorPC κ → Option κ
  | test c => some c
  | signal c true => some c
  | signalV c _ true => some c
  | _ => none

/-- Inside the monitor. A thread that waits has left it as soon as it is on the queue. -/
def within : MonitorPC κ → Bool
  | release (some _) => false
  | unlock (some _) => false
  | p => p.holds

theorem owns_of_before {p : MonitorPC κ} {x : κ × Nat} (h : p.before = some x) :
    p.owns = some x := by
  cases p <;> first | exact h | exact absurd h (by simp [before])

theorem owns_of_appends {p : MonitorPC κ} {w : Nat} (h : p.appends = some w) :
    ∃ c, p.owns = some (c, w) := by
  cases p with
  | waitAppend c v =>
      obtain rfl := Option.some.inj h
      exact ⟨c, rfl⟩
  | _ => exact absurd h (by simp [appends])

/-- It does that before it is on the queue. -/
theorem before_of_appends {p : MonitorPC κ} {w : Nat} (h : p.appends = some w) :
    p.before = none := by
  cases p with
  | waitAppend c v => rfl
  | _ => exact absurd h (by simp [appends])

theorem owns_of_sleeps {p : MonitorPC κ} {w : Nat} (h : p.sleeps = some w) :
    ∃ c, p.owns = some (c, w) := by
  cases p with
  | waitP c v =>
      obtain rfl := Option.some.inj h
      exact ⟨c, rfl⟩
  | _ => exact absurd h (by simp [sleeps])

theorem holds_of_gives {p : MonitorPC κ} {x : κ × Nat} (h : p.gives = some x) : p.holds = true := by
  cases p <;> first | rfl | exact absurd h (by simp [gives])

theorem holds_of_sweeps {p : MonitorPC κ} {c : κ} (h : p.sweeps = some c) : p.holds = true := by
  cases p <;> first | rfl | exact absurd h (by simp [sweeps])

theorem holds_of_within {p : MonitorPC κ} (h : p.within = true) : p.holds = true := by
  cases p with
  | release sleep => rfl
  | unlock sleep => rfl
  | _ => exact h

end MonitorPC

namespace Monitor

variable {κ : Type}

/-- The semaphore of the lock. -/
structure LockInv (s : Monitor κ) : Prop where
  exclusive : Exclusive s.lock.value (fun t => (s.pc t).holds = true)
  queued : ∀ t ∈ s.lock.queue, (s.pc t).acquires = true
  nodup : s.lock.queue.Nodup
  /-- When the lock is free, somebody who is not asleep is on the way to it. -/
  wakeup : s.lock.queue ≠ [] → s.lock.value ≠ 0 →
    ∃ u, (s.pc u).acquires = true ∧ u ∉ s.lock.queue

/-- The semaphores of the conditions. -/
structure WaitInv (s : Monitor κ) : Prop where
  asserts : s.asserts = true
  mine : ∀ t c w, (s.pc t).owns = some (c, w) →
    s.creator w = t ∧ w < s.allocated ∧ s.deleted w = false
  unmade : ∀ w, s.deleted w = true → w < s.allocated
  queued : ∀ c w, w ∈ s.waitQueue c → (s.waiter w).value = 0 ∧
    (s.pc (s.creator w)).before = some (c, w)
  nodup : ∀ c, (s.waitQueue c).Nodup
  fresh : ∀ t w, (s.pc t).appends = some w → (s.waiter w).value = 0 ∧ (s.waiter w).queue = []
  /-- A semaphore that is about to be given its `V`. -/
  given : ∀ t c w, (s.pc t).gives = some (c, w) →
    (s.waiter w).value = 0 ∧ w ∉ s.waitQueue c ∧ (s.pc (s.creator w)).before = some (c, w)
  /-- A semaphore off the queue has been given it, or is about to be. -/
  granted : ∀ t c w, (s.pc t).before = some (c, w) → w ∉ s.waitQueue c →
    (s.waiter w).value = 1 ∨ ∃ u, (s.pc u).gives = some (c, w)
  asleep : ∀ t w, t ∈ (s.waiter w).queue → (s.waiter w).value = 0 ∧ (s.pc t).sleeps = some w
  alone : ∀ w, (s.waiter w).queue.Nodup

section Steps

variable {s s' : Monitor κ} {t u : Nat} {p : MonitorPC κ}

/-! ## The lock -/

/-- Only one thread has the lock. -/
theorem LockInv.unique (h : LockInv s) (ht : (s.pc t).holds = true) (hu : (s.pc u).holds = true) :
    u = t := h.exclusive.unique hu ht

/-- A step in which the lock stays as it is. -/
theorem LockInv.move (h : LockInv s) (hpc : s'.pc = upd s.pc t p) (hl : s'.lock = s.lock)
    (hholds : p.holds = (s.pc t).holds) (hacq : (s.pc t).acquires = true → p.acquires = true) :
    LockInv s' := by
  have hkeep : ∀ u, (s.pc u).acquires = true → (upd s.pc t p u).acquires = true := by
    intro u hu
    by_cases hut : u = t
    · rw [hut, upd_self]
      exact hacq (hut ▸ hu)
    · rwa [upd_ne _ _ hut]
  constructor
  case exclusive =>
    rw [hpc, hl]
    exact h.exclusive.upd_same hholds
  case queued =>
    rw [hpc, hl]
    exact fun u hu => hkeep u (h.queued u hu)
  case nodup => rw [hl]; exact h.nodup
  case wakeup =>
    rw [hpc, hl]
    intro hq hv
    obtain ⟨u, hu, hout⟩ := h.wakeup hq hv
    exact ⟨u, hkeep u hu, hout⟩

theorem LockInv.value (h : LockInv s) : s.lock.value = 0 ∨ s.lock.value = 1 := by
  rcases h.exclusive with ⟨h1, _⟩ | ⟨h0, _⟩
  · exact .inr h1
  · exact .inl h0

/-- The lock is free, and the thread takes it. -/
theorem lockInv_enter (h : LockInv s) {back : Option (κ × Nat)} (hq : t ∉ s.lock.queue)
    (hv : s.lock.value ≠ 0) (hpc : s'.pc = upd s.pc t (.held back))
    (hl : s'.lock = (s.lock.P t).1) : LockInv s' := by
  have h1 : s.lock.value = 1 := h.value.resolve_left hv
  rw [Semaphore.P_pos t hv, h1] at hl
  have hvalue : s'.lock.value = 0 := by rw [hl]; rfl
  have hqueue : s'.lock.queue = s.lock.queue := by rw [hl]
  constructor
  case exclusive =>
    rw [hpc, hvalue]
    have := h.exclusive.upd_enter (i := t) (k := .held back) hv rfl
    rwa [h1] at this
  case queued =>
    rw [hpc, hqueue]
    intro u hu
    have hut : u ≠ t := fun he => hq (he ▸ hu)
    rw [upd_ne _ _ hut]
    exact h.queued u hu
  case nodup => rw [hqueue]; exact h.nodup
  case wakeup => exact fun _ h0 => absurd hvalue h0

/-- The lock is not free. -/
theorem lockInv_sleep (h : LockInv s) {back : Option (κ × Nat)} (ht : s.pc t = .acquire back)
    (hq : t ∉ s.lock.queue) (hv : s.lock.value = 0) :
    LockInv { s with lock := (s.lock.P t).1 } := by
  rw [Semaphore.P_zero t hv]
  constructor
  case exclusive => exact h.exclusive
  case queued =>
    intro u hu
    rcases List.mem_append.mp hu with hu | hu
    · exact h.queued u hu
    · rw [List.mem_singleton.mp hu, show s.pc t = _ from ht]
      rfl
  case nodup => exact List.nodup_append.mpr ⟨h.nodup, List.nodup_singleton t, fun a ha b hb => by
      rw [List.mem_singleton.mp hb]
      exact fun he => hq (he ▸ ha)⟩
  case wakeup => exact fun _ h0 => absurd hv h0

/-- `V` of the lock wakes the first of its queue. -/
theorem lockInv_unlock (h : LockInv s) {sleep : Option (κ × Nat)} (ht : s.pc t = .unlock sleep)
    (hp : p.holds = false) (hpc : s'.pc = upd s.pc t p) (hl : s'.lock = s.lock.V.1) :
    LockInv s' := by
  have hself : (s.pc t).holds = true := by rw [ht]; rfl
  obtain ⟨h0, hex⟩ := h.exclusive.upd_leave hself hp
  have hvalue : s'.lock.value = s.lock.value + 1 := by
    rw [hl, h0]
    show toInt32 (s.lock.value + 1) = 1
    rw [h0]
    rfl
  have hqueue : s'.lock.queue = s.lock.queue.tail := by rw [hl]; rfl
  have hacq : ∀ u ∈ s.lock.queue, (upd s.pc t p u).acquires = true := by
    intro u hu
    have hut : u ≠ t := fun he => by
      have := h.queued u hu
      rw [he, ht] at this
      exact Bool.noConfusion this
    rw [upd_ne _ _ hut]
    exact h.queued u hu
  constructor
  case exclusive => rw [hpc, hvalue]; exact hex
  case queued =>
    rw [hpc, hqueue]
    exact fun u hu => hacq u (List.mem_of_mem_tail hu)
  case nodup => rw [hqueue]; exact h.nodup.tail
  case wakeup =>
    rw [hpc, hqueue]
    intro hne _
    -- the one that has been woken
    cases hq : s.lock.queue with
    | nil => rw [hq] at hne; exact absurd rfl hne
    | cons u us =>
        refine ⟨u, hacq u (by rw [hq]; exact List.mem_cons_self), ?_⟩
        have hnd := h.nodup
        rw [hq] at hnd
        exact (List.nodup_cons.mp hnd).1

/-! ## The conditions -/

/-- The thread that a semaphore on a queue belongs to. -/
theorem WaitInv.queued_lt (h : WaitInv s) {c : κ} {w : Nat} (hw : w ∈ s.waitQueue c) :
    w < s.allocated := (h.mine _ c w (MonitorPC.owns_of_before (h.queued c w hw).2)).2.1

/-- Who has put a semaphore on the queue of a condition, and not passed it, has made it. -/
theorem WaitInv.creator (h : WaitInv s) {c : κ} {w : Nat} (hu : (s.pc u).before = some (c, w)) :
    s.creator w = u := (h.mine u c w (MonitorPC.owns_of_before hu)).1

/-- A semaphore is on the queue that its thread says. -/
theorem WaitInv.queued_before (h : WaitInv s) {c : κ} {w : Nat} (hw : w ∈ s.waitQueue c)
    (hu : s.creator w = u) : (s.pc u).before = some (c, w) := hu ▸ (h.queued c w hw).2

/-- A step of a thread that has no part in the queues. -/
theorem WaitInv.move (h : WaitInv s) {lock : Semaphore} {holder : Option Nat}
    (howns : ∀ x, p.owns = some x → (s.pc t).owns = some x) (hbefore : p.before = (s.pc t).before)
    (hgives : p.gives = none) (hgave : (s.pc t).gives = none) (happends : p.appends = none)
    (hsleeps : (s.pc t).sleeps = none) :
    WaitInv { s with pc := upd s.pc t p, lock := lock, lockHolder := holder } := by
  have hbef : ∀ u, (upd s.pc t p u).before = (s.pc u).before :=
    Base.upd_field MonitorPC.before hbefore
  have hgiv : ∀ u, (upd s.pc t p u).gives = (s.pc u).gives :=
    Base.upd_field MonitorPC.gives (hgives.trans hgave.symm)
  constructor
  case asserts => exact h.asserts
  case mine =>
    refine Base.forall_upd (P := fun u (q : MonitorPC κ) => ∀ c w, q.owns = some (c, w) →
      s.creator w = u ∧ w < s.allocated ∧ s.deleted w = false) ?_ ?_
    · exact fun c w hw => h.mine t c w (howns _ hw)
    · exact fun u _ c w hw => h.mine u c w hw
  case unmade => exact h.unmade
  case queued =>
    intro c w hw
    obtain ⟨h0, hb⟩ := h.queued c w hw
    exact ⟨h0, (hbef _).trans hb⟩
  case nodup => exact h.nodup
  case fresh =>
    refine Base.forall_upd (P := fun _ (q : MonitorPC κ) => ∀ w, q.appends = some w →
      (s.waiter w).value = 0 ∧ (s.waiter w).queue = []) ?_ ?_
    · intro w hw
      rw [happends] at hw
      exact absurd hw (by simp)
    · exact fun u _ w hw => h.fresh u w hw
  case given =>
    intro u c w hu
    obtain ⟨h0, hw, hb⟩ := h.given u c w ((hgiv u).symm.trans hu)
    exact ⟨h0, hw, (hbef _).trans hb⟩
  case granted =>
    intro u c w hu hw
    rcases h.granted u c w ((hbef u).symm.trans hu) hw with h1 | ⟨v, hv⟩
    · exact .inl h1
    · exact .inr ⟨v, (hgiv v).trans hv⟩
  case asleep =>
    intro u w hu
    obtain ⟨h0, hs⟩ := h.asleep u w hu
    have hut : u ≠ t := fun he => by
      rw [he, hsleeps] at hs
      exact absurd hs (by simp)
    exact ⟨h0, (congrArg MonitorPC.sleeps (upd_ne s.pc p hut)).trans hs⟩
  case alone => exact h.alone

theorem waitInv_waitNew (h : WaitInv s) {c : κ} (ht : s.pc t = .waitNew c) :
    WaitInv (s.waitNew t c) := by
  -- nobody knows the new semaphore
  have hne : ∀ {w}, w < s.allocated → w ≠ s.allocated := fun hlt => Nat.ne_of_lt hlt
  have hmine : ∀ {u c w}, (s.pc u).owns = some (c, w) → w ≠ s.allocated :=
    fun hw => hne (h.mine _ _ _ hw).2.1
  have hbef : ∀ u, (upd s.pc t (.waitAppend c s.allocated) u).before = (s.pc u).before :=
    Base.upd_field MonitorPC.before (by rw [ht]; rfl)
  have hgiv : ∀ u, (upd s.pc t (.waitAppend c s.allocated) u).gives = (s.pc u).gives :=
    Base.upd_field MonitorPC.gives (by rw [ht]; rfl)
  have hold : ∀ {w}, w ≠ s.allocated →
      upd s.waiter s.allocated (Semaphore.new 0) w = s.waiter w ∧
        upd s.creator s.allocated t w = s.creator w := fun hw => ⟨upd_ne _ _ hw, upd_ne _ _ hw⟩
  constructor
  case asserts => exact h.asserts
  case mine =>
    refine Base.forall_upd (P := fun u (q : MonitorPC κ) => ∀ c w, q.owns = some (c, w) →
      upd s.creator s.allocated t w = u ∧ w < s.allocated + 1 ∧ s.deleted w = false) ?_ ?_
    · rintro d w hw
      obtain ⟨_, rfl⟩ := Prod.mk.inj (Option.some.inj hw)
      refine ⟨upd_self _ _ _, Nat.lt_succ_self _, ?_⟩
      exact Bool.eq_false_iff.mpr fun hd => Nat.lt_irrefl _ (h.unmade _ hd)
    · intro u _ d w hw
      obtain ⟨h1, h2, h3⟩ := h.mine u d w hw
      exact ⟨(hold (hne h2)).2.trans h1, Nat.lt_succ_of_lt h2, h3⟩
  case unmade => exact fun w hw => Nat.lt_succ_of_lt (h.unmade w hw)
  case queued =>
    intro d w hw
    obtain ⟨h0, hb⟩ := h.queued d w hw
    obtain ⟨h1, h2⟩ := hold (hne (h.queued_lt hw))
    show (upd s.waiter s.allocated (Semaphore.new 0) w).value = 0 ∧
      (upd s.pc t (.waitAppend c s.allocated) (upd s.creator s.allocated t w)).before = some (d, w)
    rw [h1, h2, hbef]
    exact ⟨h0, hb⟩
  case nodup => exact h.nodup
  case fresh =>
    refine Base.forall_upd (P := fun _ (q : MonitorPC κ) => ∀ w, q.appends = some w →
      (upd s.waiter s.allocated (Semaphore.new 0) w).value = 0 ∧
        (upd s.waiter s.allocated (Semaphore.new 0) w).queue = []) ?_ ?_
    · intro w hw
      obtain rfl := Option.some.inj hw
      rw [upd_self]
      exact ⟨rfl, rfl⟩
    · intro u _ w hw
      by_cases hwa : w = s.allocated
      · rw [hwa, upd_self]
        exact ⟨rfl, rfl⟩
      · rw [(hold hwa).1]
        exact h.fresh u w hw
  case given =>
    intro u d w hu
    obtain ⟨h0, hw, hb⟩ := h.given u d w ((hgiv u).symm.trans hu)
    obtain ⟨h1, h2⟩ := hold (hmine (MonitorPC.owns_of_before hb))
    show (upd s.waiter s.allocated (Semaphore.new 0) w).value = 0 ∧ w ∉ s.waitQueue d ∧
      (upd s.pc t (.waitAppend c s.allocated) (upd s.creator s.allocated t w)).before = some (d, w)
    rw [h1, h2, hbef]
    exact ⟨h0, hw, hb⟩
  case granted =>
    intro u d w hu hw
    have hu' := (hbef u).symm.trans hu
    have hwa := hmine (MonitorPC.owns_of_before hu')
    rcases h.granted u d w hu' hw with h1 | ⟨v, hv⟩
    · refine .inl ?_
      show (upd s.waiter s.allocated (Semaphore.new 0) w).value = 1
      rw [(hold hwa).1]
      exact h1
    · exact .inr ⟨v, (hgiv v).trans hv⟩
  case asleep =>
    intro u w hu
    have hu' : u ∈ (upd s.waiter s.allocated (Semaphore.new 0) w).queue := hu
    by_cases hwa : w = s.allocated
    · rw [hwa, upd_self] at hu'
      exact absurd hu' (by simp [Semaphore.new])
    · rw [(hold hwa).1] at hu'
      obtain ⟨h0, hs⟩ := h.asleep u w hu'
      have hut : u ≠ t := fun he => by
        rw [he, ht] at hs
        exact absurd hs (by simp [MonitorPC.sleeps])
      refine ⟨?_, (congrArg MonitorPC.sleeps (upd_ne s.pc _ hut)).trans hs⟩
      show (upd s.waiter s.allocated (Semaphore.new 0) w).value = 0
      rw [(hold hwa).1]
      exact h0
  case alone =>
    refine Base.forall_upd (P := fun _ (q : Semaphore) => q.queue.Nodup) List.nodup_nil ?_
    exact fun w _ => h.alone w

/-- The semaphore has been given its `V`, and the thread passes. -/
theorem waitInv_pass (h : WaitInv s) {c : κ} {w : Nat} (ht : s.pc t = .waitP c w)
    (hv : (s.waiter w).value ≠ 0) :
    WaitInv { s.goto t (.acquire (some (c, w))) with
      waiter := upd s.waiter w ((s.waiter w).P t).1
      asserts := s.asserts && !s.deleted w } := by
  have htbef : (s.pc t).before = some (c, w) := by rw [ht]; rfl
  obtain ⟨hcr, hlt, hdel⟩ := h.mine t c w (by rw [ht]; rfl)
  have hnot : ∀ d, w ∉ s.waitQueue d := fun d hd => hv (h.queued d w hd).1
  have hungiven : ∀ u d, (s.pc u).gives ≠ some (d, w) := fun u d hu => hv (h.given u d w hu).1
  have h1 : (s.waiter w).value = 1 :=
    (h.granted t c w htbef (hnot c)).resolve_right fun ⟨u, hu⟩ => hungiven u c hu
  have hempty : (s.waiter w).queue = [] := List.eq_nil_iff_forall_not_mem.mpr fun u hu =>
    hv (h.asleep u w hu).1
  have hP : ((s.waiter w).P t).1 = ⟨0, []⟩ := by
    rw [Semaphore.P_pos t hv, h1, hempty]
    rfl
  rw [hP]
  -- whoever is before another semaphore is another thread
  have hother : ∀ {u d x}, (s.pc u).before = some (d, x) → x ≠ w → u ≠ t := fun hu hx he => by
    rw [he, htbef] at hu
    exact hx (Prod.mk.inj (Option.some.inj hu)).2.symm
  have hgiv : ∀ u, (upd s.pc t (.acquire (some (c, w))) u).gives = (s.pc u).gives :=
    Base.upd_field MonitorPC.gives (by rw [ht]; rfl)
  constructor
  case asserts =>
    show (s.asserts && !s.deleted w) = true
    rw [h.asserts, hdel]
    rfl
  case mine =>
    refine Base.forall_upd (P := fun u (q : MonitorPC κ) => ∀ d x, q.owns = some (d, x) →
      s.creator x = u ∧ x < s.allocated ∧ s.deleted x = false) ?_ fun u _ d x hx => h.mine u d x hx
    intro d x hx
    obtain ⟨rfl, rfl⟩ := Prod.mk.inj (Option.some.inj hx)
    exact ⟨hcr, hlt, hdel⟩
  case unmade => exact h.unmade
  case queued =>
    intro d x hx
    obtain ⟨h0, hb⟩ := h.queued d x hx
    have hxw : x ≠ w := fun he => hnot d (he ▸ hx)
    refine ⟨?_, ?_⟩
    · show (upd s.waiter w ⟨0, []⟩ x).value = 0
      rwa [upd_ne _ _ hxw]
    · show (upd s.pc t (.acquire (some (c, w))) (s.creator x)).before = some (d, x)
      rwa [upd_ne _ _ (hother hb hxw)]
  case nodup => exact h.nodup
  case fresh =>
    refine Base.forall_upd (P := fun _ (q : MonitorPC κ) => ∀ x, q.appends = some x →
      (upd s.waiter w ⟨0, []⟩ x).value = 0 ∧ (upd s.waiter w ⟨0, []⟩ x).queue = []) ?_ ?_
    · exact fun x hx => absurd hx (by simp [MonitorPC.appends])
    · intro u _ x hx
      by_cases hxw : x = w
      · rw [hxw, upd_self]
        exact ⟨rfl, rfl⟩
      · rw [upd_ne _ _ hxw]
        exact h.fresh u x hx
  case given =>
    intro u d x hu
    have hu' := (hgiv u).symm.trans hu
    obtain ⟨h0, hx, hb⟩ := h.given u d x hu'
    have hxw : x ≠ w := fun he => hungiven u d (he ▸ hu')
    refine ⟨?_, hx, ?_⟩
    · show (upd s.waiter w ⟨0, []⟩ x).value = 0
      rwa [upd_ne _ _ hxw]
    · show (upd s.pc t (.acquire (some (c, w))) (s.creator x)).before = some (d, x)
      rwa [upd_ne _ _ (hother hb hxw)]
  case granted =>
    intro u d x hu hx
    have hut : u ≠ t := fun he => by
      have hu' : (upd s.pc t (.acquire (some (c, w))) u).before = some (d, x) := hu
      rw [he, upd_self] at hu'
      exact absurd hu' (by simp [MonitorPC.before])
    have hu' : (s.pc u).before = some (d, x) :=
      (congrArg MonitorPC.before (upd_ne s.pc _ hut)).symm.trans hu
    have hxw : x ≠ w := fun he => hut ((h.creator hu').symm.trans (he ▸ hcr))
    rcases h.granted u d x hu' hx with h2 | ⟨v, hv'⟩
    · refine .inl ?_
      show (upd s.waiter w ⟨0, []⟩ x).value = 1
      rwa [upd_ne _ _ hxw]
    · exact .inr ⟨v, (hgiv v).trans hv'⟩
  case asleep =>
    intro u x hu
    have hu' : u ∈ (upd s.waiter w ⟨0, []⟩ x).queue := hu
    by_cases hxw : x = w
    · rw [hxw, upd_self] at hu'
      exact absurd hu' (by simp)
    · rw [upd_ne _ _ hxw] at hu'
      obtain ⟨h0, hs⟩ := h.asleep u x hu'
      have hut : u ≠ t := fun he => by
        rw [he, ht] at hs
        exact hxw (Option.some.inj hs).symm
      refine ⟨?_, (congrArg MonitorPC.sleeps (upd_ne s.pc _ hut)).trans hs⟩
      show (upd s.waiter w ⟨0, []⟩ x).value = 0
      rwa [upd_ne _ _ hxw]
  case alone =>
    exact Base.forall_upd (P := fun _ (q : Semaphore) => q.queue.Nodup) List.nodup_nil
      fun x _ => h.alone x

/-- It has not, and the thread goes to sleep. -/
theorem waitInv_sleep (h : WaitInv s) {c : κ} {w : Nat} (ht : s.pc t = .waitP c w)
    (hq : t ∉ (s.waiter w).queue) (hv : (s.waiter w).value = 0) :
    WaitInv { s with
      waiter := upd s.waiter w ((s.waiter w).P t).1
      asserts := s.asserts && !s.deleted w } := by
  obtain ⟨hcr, _, hdel⟩ := h.mine t c w (by rw [ht]; rfl)
  rw [Semaphore.P_zero t hv]
  have hvalue :
    ∀ x, (upd s.waiter w { s.waiter w with queue := (s.waiter w).queue ++ [t] } x).value =
      (s.waiter x).value := Base.upd_field Semaphore.value rfl
  refine ⟨?_, h.mine, h.unmade, ?_, h.nodup, ?_, ?_, ?_, ?_, ?_⟩
  · show (s.asserts && !s.deleted w) = true
    rw [h.asserts, hdel]
    rfl
  · intro d x hx
    exact ⟨(hvalue x).trans (h.queued d x hx).1, (h.queued d x hx).2⟩
  · intro u x hx
    -- a fresh semaphore is not the one that somebody sleeps on
    have hxw : x ≠ w := fun he => by
      obtain ⟨d, hd⟩ := MonitorPC.owns_of_appends hx
      rw [← (h.mine u d x hd).1, he, hcr, ht] at hx
      exact absurd hx (by simp [MonitorPC.appends])
    show (upd s.waiter w _ x).value = 0 ∧ (upd s.waiter w _ x).queue = []
    rw [upd_ne _ _ hxw]
    exact h.fresh u x hx
  · intro u d x hu
    exact ⟨(hvalue x).trans (h.given u d x hu).1, (h.given u d x hu).2⟩
  · intro u d x hu hx
    exact (h.granted u d x hu hx).imp_left (hvalue x).trans
  · intro u x hu
    have hu' :
        u ∈ (upd s.waiter w { s.waiter w with queue := (s.waiter w).queue ++ [t] } x).queue := hu
    by_cases hxw : x = w
    · subst hxw
      rw [upd_self] at hu'
      refine ⟨(hvalue x).trans hv, ?_⟩
      rcases List.mem_append.mp hu' with hu' | hu'
      · exact (h.asleep u x hu').2
      · rw [List.mem_singleton.mp hu']
        show (s.pc t).sleeps = some x
        rw [ht]
        rfl
    · rw [upd_ne _ _ hxw] at hu'
      exact ⟨(hvalue x).trans (h.asleep u x hu').1, (h.asleep u x hu').2⟩
  · refine Base.forall_upd (P := fun _ (q : Semaphore) => q.queue.Nodup) ?_ fun x _ => h.alone x
    refine List.nodup_append.mpr ⟨h.alone w, List.nodup_singleton t, fun a ha b hb => ?_⟩
    rw [List.mem_singleton.mp hb]
    exact fun he => hq (he ▸ ha)

/-- `delete waiter`: nobody has the semaphore any more. -/
theorem waitInv_delete (h : WaitInv s) {w : Nat} (hlt : w < s.allocated)
    (hw : ∀ u c, (s.pc u).owns ≠ some (c, w)) :
    WaitInv { s with deleted := upd s.deleted w true } where
  asserts := h.asserts
  mine := fun u c x hx => by
    obtain ⟨h1, h2, h3⟩ := h.mine u c x hx
    have hxw : x ≠ w := fun he => hw u c (he ▸ hx)
    exact ⟨h1, h2, (upd_ne _ _ hxw).trans h3⟩
  unmade := fun x hx => by
    by_cases hxw : x = w
    · exact hxw ▸ hlt
    · exact h.unmade x ((upd_ne s.deleted _ hxw).symm.trans hx)
  queued := h.queued
  nodup := h.nodup
  fresh := h.fresh
  given := h.given
  granted := h.granted
  asleep := h.asleep
  alone := h.alone

/-- Nobody but its maker sleeps on a semaphore. -/
theorem WaitInv.queue_le (h : WaitInv s) (w : Nat) :
    (s.waiter w).queue = [] ∨ (s.waiter w).queue = [s.creator w] := by
  have hall : ∀ u ∈ (s.waiter w).queue, u = s.creator w := fun u hu => by
    obtain ⟨c, hc⟩ := MonitorPC.owns_of_sleeps (h.asleep u w hu).2
    exact (h.mine u c w hc).1.symm
  have hnd := h.alone w
  generalize (s.waiter w).queue = q at hall hnd
  cases q with
  | nil => exact .inl rfl
  | cons a as =>
      cases as with
      | nil => exact .inr (by rw [hall a List.mem_cons_self])
      | cons b bs =>
          have hab : a = b := (hall a (by simp)).trans (hall b (by simp)).symm
          exact absurd (hab ▸ List.mem_cons_self) (List.nodup_cons.mp hnd).1

/-- The `V` of a signal. Its thread wakes, or will not go to sleep. -/
theorem waitInv_signalV (h : WaitInv s) (hL : LockInv s) {c : κ} {w : Nat} {all : Bool}
    (ht : s.pc t = .signalV c w all) : WaitInv (s.signalV t c w all) := by
  obtain ⟨h0, hnot, hbef⟩ := h.given t c w (by rw [ht]; rfl)
  obtain ⟨_, _, hdel⟩ := h.mine _ c w (MonitorPC.owns_of_before hbef)
  have hV : (s.waiter w).V.1 = ⟨1, []⟩ := by
    unfold Semaphore.V
    rw [h0]
    rcases h.queue_le w with hq | hq
    · rw [hq]; rfl
    · rw [hq]; rfl
  -- only a thread that has the lock gives
  have hgives : ∀ u x, u ≠ t → (s.pc u).gives ≠ some x := fun u x hut hu =>
    hut (hL.unique (by rw [ht]; rfl) (MonitorPC.holds_of_gives hu))
  have hafter : ∀ p : MonitorPC κ, p = (if all then .test c else .inside) →
      p.owns = none ∧ p.before = none ∧ p.gives = none ∧ p.appends = none ∧ p.sleeps = none := by
    rintro _ rfl
    cases all <;> exact ⟨rfl, rfl, rfl, rfl, rfl⟩
  obtain ⟨hown', hbef', hgiv', happ', _⟩ := hafter _ rfl
  have hother : ∀ {u x}, (s.pc u).before = some x → u ≠ t := fun hu he => by
    rw [he, ht] at hu
    exact absurd hu (by simp [MonitorPC.before])
  have hqueued : ∀ d x, x ∈ s.waitQueue d → x ≠ w := fun d x hx he => by
    have hd := (h.queued d x hx).2
    rw [he, hbef] at hd
    obtain ⟨rfl, _⟩ := Prod.mk.inj (Option.some.inj hd)
    exact hnot (he ▸ hx)
  unfold signalV goto
  rw [hV]
  constructor
  case asserts =>
    show (s.asserts && !s.deleted w) = true
    rw [h.asserts, hdel]
    rfl
  case mine =>
    refine Base.forall_upd (P := fun u (q : MonitorPC κ) => ∀ d x, q.owns = some (d, x) →
      s.creator x = u ∧ x < s.allocated ∧ s.deleted x = false) ?_ fun u _ d x hx => h.mine u d x hx
    intro d x hx
    rw [hown'] at hx
    exact absurd hx (by simp)
  case unmade => exact h.unmade
  case queued =>
    intro d x hx
    obtain ⟨hx0, hb⟩ := h.queued d x hx
    refine ⟨?_, ?_⟩
    · show (upd s.waiter w ⟨1, []⟩ x).value = 0
      rwa [upd_ne _ _ (hqueued d x hx)]
    · exact (congrArg MonitorPC.before (upd_ne s.pc _ (hother hb))).trans hb
  case nodup => exact h.nodup
  case fresh =>
    refine Base.forall_upd (P := fun _ (q : MonitorPC κ) => ∀ x, q.appends = some x →
      (upd s.waiter w ⟨1, []⟩ x).value = 0 ∧ (upd s.waiter w ⟨1, []⟩ x).queue = []) ?_ ?_
    · intro x hx
      rw [happ'] at hx
      exact absurd hx (by simp)
    · intro u _ x hx
      have hxw : x ≠ w := fun he => by
        obtain ⟨d, hd⟩ := MonitorPC.owns_of_appends hx
        rw [← (h.mine u d x hd).1, he] at hx
        rw [MonitorPC.before_of_appends hx] at hbef
        exact absurd hbef (by simp)
      rw [upd_ne _ _ hxw]
      exact h.fresh u x hx
  case given =>
    intro u d x hu
    have hu' : (upd s.pc t (if all then .test c else .inside) u).gives = some (d, x) := hu
    by_cases hut : u = t
    · rw [hut, upd_self, hgiv'] at hu'
      exact absurd hu' (by simp)
    · rw [upd_ne _ _ hut] at hu'
      exact absurd hu' (hgives u _ hut)
  case granted =>
    intro u d x hu hx
    have hut : u ≠ t := fun he => by
      have hu' : (upd s.pc t (if all then .test c else .inside) u).before = some (d, x) := hu
      rw [he, upd_self, hbef'] at hu'
      exact absurd hu' (by simp)
    have hu' : (s.pc u).before = some (d, x) :=
      (congrArg MonitorPC.before (upd_ne s.pc _ hut)).symm.trans hu
    refine .inl ?_
    show (upd s.waiter w ⟨1, []⟩ x).value = 1
    by_cases hxw : x = w
    · rw [hxw, upd_self]
    · rw [upd_ne _ _ hxw]
      refine (h.granted u d x hu' hx).resolve_right fun ⟨v, hv⟩ => ?_
      by_cases hvt : v = t
      · rw [hvt, ht] at hv
        exact hxw (Prod.mk.inj (Option.some.inj hv)).2.symm
      · exact hgives v _ hvt hv
  case asleep =>
    intro u x hu
    have hu' : u ∈ (upd s.waiter w ⟨1, []⟩ x).queue := hu
    by_cases hxw : x = w
    · rw [hxw, upd_self] at hu'
      exact absurd hu' (by simp)
    · rw [upd_ne _ _ hxw] at hu'
      obtain ⟨hx0, hs⟩ := h.asleep u x hu'
      have hut : u ≠ t := fun he => by
        rw [he, ht] at hs
        exact absurd hs (by simp [MonitorPC.sleeps])
      refine ⟨?_, (congrArg MonitorPC.sleeps (upd_ne s.pc _ hut)).trans hs⟩
      show (upd s.waiter w ⟨1, []⟩ x).value = 0
      rwa [upd_ne _ _ hxw]
  case alone =>
    exact Base.forall_upd (P := fun _ (q : Semaphore) => q.queue.Nodup) List.nodup_nil
      fun x _ => h.alone x

end Steps

section Conditions

variable [DecidableEq κ] {s s' : Monitor κ} {t u : Nat} {p : MonitorPC κ}

theorem waitInv_waitAppend (h : WaitInv s) {c : κ} {w : Nat} (ht : s.pc t = .waitAppend c w) :
    WaitInv (s.waitAppend t c w) := by
  obtain ⟨hcr, hlt, hdel⟩ := h.mine t c w (by rw [ht]; rfl)
  obtain ⟨h0, hempty⟩ := h.fresh t w (by rw [ht]; rfl)
  have htbef : (s.pc t).before = none := by rw [ht]; rfl
  -- the semaphore is on no queue yet
  have hnot : ∀ d, w ∉ s.waitQueue d := fun d hd => by
    have := h.queued_before hd hcr
    rw [htbef] at this
    exact absurd this (by simp)
  have hother : ∀ {u x}, (s.pc u).before = some x → u ≠ t := fun hu he => by
    rw [he, htbef] at hu
    exact absurd hu (by simp)
  have hgiv : ∀ u, (upd s.pc t (.release (some (c, w))) u).gives = (s.pc u).gives :=
    Base.upd_field MonitorPC.gives (by rw [ht]; rfl)
  constructor
  case asserts =>
    show (s.asserts && !(s.waitQueue c).contains w) = true
    rw [h.asserts, List.contains_eq_mem, decide_eq_false (hnot c)]
    rfl
  case mine =>
    refine Base.forall_upd (P := fun u (q : MonitorPC κ) => ∀ d x, q.owns = some (d, x) →
      s.creator x = u ∧ x < s.allocated ∧ s.deleted x = false) ?_ ?_
    · intro d x hx
      obtain ⟨rfl, rfl⟩ := Prod.mk.inj (Option.some.inj hx)
      exact ⟨hcr, hlt, hdel⟩
    · exact fun u _ d x hx => h.mine u d x hx
  case unmade => exact h.unmade
  case queued =>
    intro d x hx
    have hcases : x ∈ s.waitQueue d ∨ (d = c ∧ x = w) := by
      by_cases hd : d = c
      · have hx' : x ∈ upd s.waitQueue c (s.waitQueue c ++ [w]) d := hx
        rw [hd, upd_self] at hx'
        rcases List.mem_append.mp hx' with hx' | hx'
        · exact .inl (hd ▸ hx')
        · exact .inr ⟨hd, List.mem_singleton.mp hx'⟩
      · exact .inl ((upd_ne s.waitQueue _ hd) ▸ hx)
    rcases hcases with hx | ⟨rfl, rfl⟩
    · obtain ⟨h1, hb⟩ := h.queued d x hx
      refine ⟨h1, ?_⟩
      show (upd s.pc t (.release (some (c, w))) (s.creator x)).before = some (d, x)
      rwa [upd_ne _ _ (hother hb)]
    · refine ⟨h0, ?_⟩
      show (upd s.pc t (.release (some (d, x))) (s.creator x)).before = some (d, x)
      rw [hcr, upd_self]
      rfl
  case nodup =>
    refine Base.forall_upd (P := fun _ (q : List Nat) => q.Nodup) ?_ fun d _ => h.nodup d
    refine List.nodup_append.mpr ⟨h.nodup c, List.nodup_singleton w, fun a ha b hb => ?_⟩
    rw [List.mem_singleton.mp hb]
    exact fun he => hnot c (he ▸ ha)
  case fresh =>
    refine Base.forall_upd (P := fun _ (q : MonitorPC κ) => ∀ x, q.appends = some x →
      (s.waiter x).value = 0 ∧ (s.waiter x).queue = []) ?_ fun u _ x hx => h.fresh u x hx
    exact fun x hx => absurd hx (by simp [MonitorPC.appends])
  case given =>
    intro u d x hu
    obtain ⟨h1, hx, hb⟩ := h.given u d x ((hgiv u).symm.trans hu)
    have hcx := hother hb
    refine ⟨h1, ?_, ?_⟩
    · show x ∉ upd s.waitQueue c (s.waitQueue c ++ [w]) d
      by_cases hd : d = c
      · rw [hd, upd_self]
        intro hx'
        rcases List.mem_append.mp hx' with hx' | hx'
        · exact hx (hd ▸ hx')
        · rw [List.mem_singleton.mp hx'] at hcx
          exact hcx hcr
      · rwa [upd_ne _ _ hd]
    · show (upd s.pc t (.release (some (c, w))) (s.creator x)).before = some (d, x)
      rwa [upd_ne _ _ hcx]
  case granted =>
    intro u d x hu hx
    have hx' : x ∉ upd s.waitQueue c (s.waitQueue c ++ [w]) d := hx
    by_cases hut : u = t
    · -- it is on the queue now
      have hu' : (upd s.pc t (.release (some (c, w))) u).before = some (d, x) := hu
      rw [hut, upd_self] at hu'
      obtain ⟨rfl, rfl⟩ := Prod.mk.inj (Option.some.inj hu')
      rw [upd_self] at hx'
      exact absurd (List.mem_append_right _ List.mem_cons_self) hx'
    · have hu' : (s.pc u).before = some (d, x) :=
        (congrArg MonitorPC.before (upd_ne s.pc _ hut)).symm.trans hu
      have hx'' : x ∉ s.waitQueue d := by
        by_cases hd : d = c
        · rw [hd, upd_self] at hx'
          exact hd ▸ fun hm => hx' (List.mem_append_left _ hm)
        · rwa [upd_ne _ _ hd] at hx'
      rcases h.granted u d x hu' hx'' with h1 | ⟨v, hv⟩
      · exact .inl h1
      · exact .inr ⟨v, (hgiv v).trans hv⟩
  case asleep =>
    intro u x hu
    obtain ⟨h1, hs⟩ := h.asleep u x hu
    have hut : u ≠ t := fun he => by
      rw [he, ht] at hs
      exact absurd hs (by simp [MonitorPC.sleeps])
    exact ⟨h1, (congrArg MonitorPC.sleeps (upd_ne s.pc _ hut)).trans hs⟩
  case alone => exact h.alone

/-- A signal takes the first semaphore off the queue. -/
theorem waitInv_signal (h : WaitInv s) {c : κ} {w : Nat} {ws : List Nat} {all : Bool}
    (ht : s.pc t = .signal c all) (hq : s.waitQueue c = w :: ws) :
    WaitInv { s.goto t (.signalV c w all) with waitQueue := upd s.waitQueue c ws } := by
  have hnd := h.nodup c
  rw [hq] at hnd
  obtain ⟨hnot, hnd'⟩ := List.nodup_cons.mp hnd
  have hsub : ∀ {d x}, x ∈ upd s.waitQueue c ws d → x ∈ s.waitQueue d := fun {d x} hx => by
    by_cases hd : d = c
    · rw [hd, upd_self] at hx
      rw [hd, hq]
      exact List.mem_cons_of_mem _ hx
    · rwa [upd_ne _ _ hd] at hx
  have hother : ∀ {u x}, (s.pc u).before = some x → u ≠ t := fun hu he => by
    rw [he, ht] at hu
    exact absurd hu (by simp [MonitorPC.before])
  have hbef : ∀ {u x}, (s.pc u).before = some x →
      (upd s.pc t (.signalV c w all) u).before = some x := fun hu =>
    (congrArg MonitorPC.before (upd_ne s.pc _ (hother hu))).trans hu
  constructor
  case asserts => exact h.asserts
  case mine =>
    refine Base.forall_upd (P := fun u (q : MonitorPC κ) => ∀ d x, q.owns = some (d, x) →
      s.creator x = u ∧ x < s.allocated ∧ s.deleted x = false) ?_ fun u _ d x hx => h.mine u d x hx
    exact fun d x hx => absurd hx (by simp [MonitorPC.owns])
  case unmade => exact h.unmade
  case queued => exact fun d x hx => ⟨(h.queued d x (hsub hx)).1, hbef (h.queued d x (hsub hx)).2⟩
  case nodup =>
    exact Base.forall_upd (P := fun _ (q : List Nat) => q.Nodup) hnd' fun d _ => h.nodup d
  case fresh =>
    refine Base.forall_upd (P := fun _ (q : MonitorPC κ) => ∀ x, q.appends = some x →
      (s.waiter x).value = 0 ∧ (s.waiter x).queue = []) ?_ fun u _ x hx => h.fresh u x hx
    exact fun x hx => absurd hx (by simp [MonitorPC.appends])
  case given =>
    refine Base.forall_upd (P := fun _ (q : MonitorPC κ) => ∀ d x, q.gives = some (d, x) →
      (s.waiter x).value = 0 ∧ x ∉ upd s.waitQueue c ws d ∧
        (upd s.pc t (.signalV c w all) (s.creator x)).before = some (d, x)) ?_ ?_
    · intro d x hx
      obtain ⟨rfl, rfl⟩ := Prod.mk.inj (Option.some.inj hx)
      obtain ⟨h0, hb⟩ := h.queued c w (hq ▸ List.mem_cons_self)
      exact ⟨h0, by rwa [upd_self], hbef hb⟩
    · intro u _ d x hx
      obtain ⟨h0, hx', hb⟩ := h.given u d x hx
      exact ⟨h0, fun hm => hx' (hsub hm), hbef hb⟩
  case granted =>
    intro u d x hu hx
    have hx' : x ∉ upd s.waitQueue c ws d := hx
    have hut : u ≠ t := fun he => by
      have hu' : (upd s.pc t (.signalV c w all) u).before = some (d, x) := hu
      rw [he, upd_self] at hu'
      exact absurd hu' (by simp [MonitorPC.before])
    have hu' : (s.pc u).before = some (d, x) :=
      (congrArg MonitorPC.before (upd_ne s.pc _ hut)).symm.trans hu
    by_cases hm : x ∈ s.waitQueue d
    · -- it is the one that has been taken off
      have hcw : d = c ∧ x = w := by
        by_cases hd : d = c
        · rw [hd, upd_self] at hx'
          rw [hd, hq] at hm
          exact ⟨hd, (List.mem_cons.mp hm).resolve_right hx'⟩
        · rw [upd_ne _ _ hd] at hx'
          exact absurd hm hx'
      obtain ⟨rfl, rfl⟩ := hcw
      exact .inr ⟨t, congrArg MonitorPC.gives (upd_self s.pc t _)⟩
    · rcases h.granted u d x hu' hm with h1 | ⟨v, hv⟩
      · exact .inl h1
      · have hvt : v ≠ t := fun he => by
          rw [he, ht] at hv
          exact absurd hv (by simp [MonitorPC.gives])
        exact .inr ⟨v, (congrArg MonitorPC.gives (upd_ne s.pc _ hvt)).trans hv⟩
  case asleep =>
    intro u x hu
    obtain ⟨h0, hs⟩ := h.asleep u x hu
    have hut : u ≠ t := fun he => by
      rw [he, ht] at hs
      exact absurd hs (by simp [MonitorPC.sleeps])
    exact ⟨h0, (congrArg MonitorPC.sleeps (upd_ne s.pc _ hut)).trans hs⟩
  case alone => exact h.alone

end Conditions

end Monitor

end Nachos
