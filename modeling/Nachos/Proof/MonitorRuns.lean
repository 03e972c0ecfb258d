import Nachos.Proof.Mesa

/-!
# Runs of locks and conditions

Every run is a run of a monitor, and no run gets stuck on the way into it. A waiter that has been
signalled cannot be left asleep: its semaphore is off the queue, so it has been given its `V`, or
somebody is at that `V` and has the lock.
-/

namespace Nachos

open Base (upd upd_self upd_ne Mesa MesaEvent)

/-- The steps that a thread that has the lock can take before it is inside, or gives the lock back,
when there are `n c` semaphores on the queue of `c`. -/
def MonitorPC.rank {κ : Type} (n : κ → Nat) : MonitorPC κ → Nat
  | waitNew _ => 5
  | waitAppend _ _ => 4
  | release _ => 3
  | unlock _ => 2
  | held _ => 2
  | waitDelete _ _ => 1
  | signal _ false => 2
  | signalV _ _ false => 1
  -- three steps for each semaphore, and the last test
  | signal c true => if n c = 0 then 2 else 3 * n c
  | signalV c _ true => 3 * n c + 2
  | test c => 3 * n c + 1
  | _ => 0

namespace Monitor

variable {κ : Type}

/-! ## Steps -/

/-- A state, and the monitor that it stands for. -/
structure Inv (s : Monitor κ) (m : Mesa Nat κ) : Prop where
  lock : LockInv s
  wait : WaitInv s
  holder : HolderInv s
  abs : Abs s m

/-- A step from `q` to `p` that no other thread can see. -/
structure Quiet (q p : MonitorPC κ) : Prop where
  holds : p.holds = q.holds
  owns : ∀ x, p.owns = some x → q.owns = some x
  shows : p.shows = q.shows
  gives : p.gives = none
  gave : q.gives = none
  appends : p.appends = none
  sleeps : q.sleeps = none

section Runs

variable {s s' : Monitor κ} {m : Mesa Nat κ} {t u : Nat} {p : MonitorPC κ} {c : κ}

theorem Inv.quiet (h : Inv s m) (hq : Quiet (s.pc t) p) {holder : Option Nat}
    (hholder : HolderInv { s with pc := upd s.pc t p, lockHolder := holder }) :
    Inv { s with pc := upd s.pc t p, lockHolder := holder } m := by
  have hacq : p.acquires = (s.pc t).acquires := (Prod.mk.inj (Prod.mk.inj hq.shows).2).1
  have hbefore : p.before = (s.pc t).before :=
    (Prod.mk.inj (Prod.mk.inj (Prod.mk.inj hq.shows).2).2).1
  exact ⟨h.lock.move rfl rfl hq.holds (hacq.trans ·),
    h.wait.move hq.owns hbefore hq.gives hq.gave hq.appends hq.sleeps, hholder,
    h.abs.move rfl rfl rfl hq.shows⟩

theorem Inv.goto (h : Inv s m) (hq : Quiet (s.pc t) p) (hp : p.named = (s.pc t).named) :
    Inv (s.goto t p) m := h.quiet hq (h.holder.move rfl rfl hp)

/-- `lockHolder` is set by the thread that has the lock. -/
theorem Inv.held (h : Inv s m) {back : Option (κ × Nat)} (ht : s.pc t = .held back) :
    Inv { s.goto t (afterAcquire back) with lockHolder := some t } m := by
  refine h.quiet ?_ ?_
  · rw [ht]
    cases back with
    | none => exact ⟨rfl, fun _ hx => hx, rfl, rfl, rfl, rfl, rfl⟩
    | some x => exact ⟨rfl, fun _ hx => hx, rfl, rfl, rfl, rfl, rfl⟩
  · refine Base.forall_upd (P := fun u (q : MonitorPC κ) => some t = some u ↔ q.named = true) ?_ ?_
    · cases back <;> exact iff_of_true rfl rfl
    · intro u hut
      refine iff_of_false (fun he => hut (Option.some.inj he).symm) fun hu => hut ?_
      exact h.lock.unique (by rw [ht]; rfl) (MonitorPC.holds_of_named hu)

theorem Inv.release (h : Inv s m) {sleep : Option (κ × Nat)} (ht : s.pc t = .release sleep) :
    Inv { s.goto t (.unlock sleep) with lockHolder := none } m := by
  refine h.quiet ?_ ?_
  · rw [ht]
    cases sleep <;> exact ⟨rfl, fun _ hx => hx, rfl, rfl, rfl, rfl, rfl⟩
  · refine Base.forall_upd (P := fun u (q : MonitorPC κ) => none = some u ↔ q.named = true) ?_ ?_
    · exact iff_of_false (by simp) Bool.false_ne_true
    · intro u hut
      refine iff_of_false (by simp) fun hu => hut ?_
      exact h.lock.unique (by rw [ht]; rfl) (MonitorPC.holds_of_named hu)

theorem Inv.sleep (h : Inv s m) {back : Option (κ × Nat)} (ht : s.pc t = .acquire back)
    (hq : t ∉ s.lock.queue) (hv : s.lock.value = 0) : Inv { s with lock := (s.lock.P t).1 } m := by
  refine ⟨lockInv_sleep h.lock ht hq hv, ?_, h.holder,
    h.abs.congr (fun _ => rfl) rfl fun _ _ _ => rfl⟩
  exact ⟨h.wait.asserts, h.wait.mine, h.wait.unmade, h.wait.queued, h.wait.nodup, h.wait.fresh,
    h.wait.given, h.wait.granted, h.wait.asleep, h.wait.alone⟩

/-- The `V` of the lock within `Wait`. -/
theorem Inv.unlock_wait (h : Inv s m) {w : Nat} (ht : s.pc t = .unlock (some (c, w))) :
    Inv { s.goto t (.waitP c w) with lock := s.lock.V.1 } m := by
  refine ⟨lockInv_unlock h.lock ht rfl rfl rfl, ?_, ?_, h.abs.move rfl rfl rfl (by rw [ht]; rfl)⟩
  · exact h.wait.move (by rw [ht]; exact fun _ hx => hx) (by rw [ht]; rfl) rfl (by rw [ht]; rfl) rfl
      (by rw [ht]; rfl)
  · exact h.holder.move rfl rfl (by rw [ht]; rfl)

theorem Inv.waitNew (h : Inv s m) (ht : s.pc t = .waitNew c) : Inv (s.waitNew t c) m := by
  refine ⟨?_, waitInv_waitNew h.wait ht, ?_, ?_⟩
  · exact h.lock.move (p := .waitAppend c s.allocated) rfl rfl (by rw [ht]; rfl)
      (by rw [ht]; exact id)
  · exact h.holder.move (p := .waitAppend c s.allocated) rfl rfl (by rw [ht]; rfl)
  · refine h.abs.congr (Base.upd_field MonitorPC.shows (by rw [ht]; rfl)) rfl fun d w hw => ?_
    exact upd_ne _ _ (Nat.ne_of_lt (h.wait.queued_lt hw))

theorem Inv.waitP (h : Inv s m) {w : Nat} (ht : s.pc t = .waitP c w)
    (hs : s.waitP t c w = some s') : Inv s' m := by
  obtain ⟨hq, hs⟩ := Option.ite_none_left_eq_some.mp hs
  obtain rfl := Option.some.inj hs
  by_cases hv : (s.waiter w).value = 0
  · rw [if_neg (by rw [Semaphore.P_zero t hv]; exact Bool.false_ne_true)]
    refine ⟨⟨h.lock.exclusive, h.lock.queued, h.lock.nodup, h.lock.wakeup⟩,
      waitInv_sleep h.wait ht hq hv, h.holder, h.abs.congr (fun _ => rfl) rfl fun _ _ _ => rfl⟩
  · rw [if_pos (by rw [Semaphore.P_pos t hv])]
    refine ⟨?_, waitInv_pass h.wait ht hv, ?_, abs_pass h.abs h.wait ht hv rfl rfl rfl⟩
    · exact h.lock.move (p := .acquire (some (c, w))) rfl rfl (by rw [ht]; rfl) (fun _ => rfl)
    · exact h.holder.move (p := .acquire (some (c, w))) rfl rfl (by rw [ht]; rfl)

theorem Inv.waitDelete (h : Inv s m) {w : Nat} (ht : s.pc t = .waitDelete c w) :
    Inv { s.goto t .inside with deleted := upd s.deleted w true } m := by
  obtain ⟨hcr, hlt, _⟩ := h.wait.mine t c w (by rw [ht]; rfl)
  have hgoto : Inv (s.goto t .inside) m := by
    refine h.goto ?_ (by rw [ht]; rfl)
    rw [ht]
    exact ⟨rfl, fun _ hx => absurd hx (by simp [MonitorPC.owns]), rfl, rfl, rfl, rfl, rfl⟩
  refine ⟨⟨hgoto.lock.exclusive, hgoto.lock.queued, hgoto.lock.nodup, hgoto.lock.wakeup⟩,
    waitInv_delete hgoto.wait hlt ?_, hgoto.holder,
    hgoto.abs.congr (fun _ => rfl) rfl fun _ _ _ => rfl⟩
  -- the thread alone has it, and has it no more
  refine Base.forall_upd (P := fun _ (q : MonitorPC κ) => ∀ d, q.owns ≠ some (d, w)) ?_ ?_
  · exact fun _ => by simp [MonitorPC.owns]
  · exact fun u hut d hu => hut ((h.wait.mine u d w hu).1.symm.trans hcr)

theorem Inv.signalV (h : Inv s m) {w : Nat} {all : Bool} (ht : s.pc t = .signalV c w all) :
    Inv (s.signalV t c w all) m := by
  have hp : ∀ p : MonitorPC κ, p = (if all then .test c else .inside) →
      p.holds = true ∧ p.named = true ∧ p.shows = (s.pc t).shows := by
    rintro _ rfl
    rw [ht]
    cases all <;> exact ⟨rfl, rfl, rfl⟩
  obtain ⟨hholds, hnamed, hshows⟩ := hp _ rfl
  refine ⟨?_, waitInv_signalV h.wait h.lock ht, ?_, h.abs.move rfl rfl rfl hshows⟩
  · exact h.lock.move rfl rfl (by rw [ht]; exact hholds)
      (by rw [ht]; exact fun hf => Bool.noConfusion hf)
  · exact h.holder.move rfl rfl (by rw [ht]; exact hnamed)

theorem Inv.test (h : Inv s m) (ht : s.pc t = .test c) :
    Inv (s.goto t (if (s.waitQueue c).isEmpty then .inside else .signal c true)) m := by
  cases hq : s.waitQueue c with
  | nil =>
      refine ⟨h.lock.move rfl rfl (by rw [ht]; rfl)
        (by rw [ht]; exact fun hf => Bool.noConfusion hf), ?_,
        h.holder.move rfl rfl (by rw [ht]; rfl), abs_swept h.abs h.lock ht hq⟩
      exact h.wait.move (by rw [ht]; exact fun _ hx => hx) (by rw [ht]; rfl) rfl
        (by rw [ht]; rfl) rfl (by rw [ht]; rfl)
  | cons w ws =>
      refine h.goto ?_ (by rw [ht]; rfl)
      rw [ht]
      exact ⟨rfl, fun _ hx => hx, rfl, rfl, rfl, rfl, rfl⟩

theorem inv_new : Inv (new : Monitor κ) Mesa.empty := by
  have hne : ∀ {c : κ}, ¬ (new : Monitor κ).Sweeping c := by
    rintro c ⟨u, hu⟩
    exact absurd hu (by simp [new, MonitorPC.sweeps])
  constructor
  case lock =>
    refine ⟨.inl ⟨rfl, fun _ => Bool.false_ne_true⟩, ?_, List.nodup_nil, fun hq => absurd rfl hq⟩
    exact fun _ hu => absurd hu (by simp [new, Semaphore.new])
  case wait =>
    constructor <;> simp [new, Semaphore.new, MonitorPC.owns, MonitorPC.appends, MonitorPC.gives,
      MonitorPC.before]
  case holder => exact fun _ => iff_of_false (by simp [new]) Bool.false_ne_true
  case abs =>
    refine ⟨fun _ => iff_of_false (by simp [Mesa.empty]) Bool.false_ne_true,
      fun u => ?_, fun _ _ => rfl, fun _ _ => rfl⟩
    exact iff_of_false (Set.notMem_empty u) (not_entering rfl rfl)

/-- A thread that enters has called `Acquire`. -/
theorem acquires_of_enter (h : event s (u, .go) = some (.enter t)) : (s.pc u).acquires = true := by
  cases hpc : s.pc u with
  | acquire back => rfl
  | unlock sleep => cases sleep <;> exact absurd h (by simp [event, hpc])
  | signal c all => cases all <;> exact absurd h (by simp [event, hpc])
  | _ => exact absurd h (by simp [event, hpc])

variable [DecidableEq κ]

theorem Inv.enter (h : Inv s m) {back : Option (κ × Nat)} (ht : s.pc t = .acquire back)
    (hq : t ∉ s.lock.queue) (hv : s.lock.value ≠ 0) :
    ∃ m', Mesa.Step m (.enter t) m' ∧
      Inv { s.goto t (.held back) with lock := (s.lock.P t).1 } m' := by
  obtain ⟨hfree, hmem, habs⟩ := abs_enter { s.goto t (.held back) with lock := (s.lock.P t).1 }
    h.abs h.lock ht hv rfl rfl rfl
  refine ⟨_, .enter hfree hmem, lockInv_enter h.lock hq hv rfl rfl, ?_, ?_, habs⟩
  · exact h.wait.move (by rw [ht]; exact fun _ hx => hx) (by rw [ht]; rfl) rfl (by rw [ht]; rfl) rfl
      (by rw [ht]; rfl)
  · exact h.holder.move rfl rfl (by rw [ht]; rfl)

/-- The `V` of the lock, when a thread has called `Release` itself. -/
theorem Inv.unlock (h : Inv s m) (ht : s.pc t = .unlock none) :
    ∃ m', Mesa.Step m (.leave t) m' ∧ Inv { s.goto t .out with lock := s.lock.V.1 } m' := by
  obtain ⟨hin, habs⟩ := abs_leave { s.goto t .out with lock := s.lock.V.1 } h.abs ht rfl rfl rfl
  refine ⟨_, .leave hin, lockInv_unlock h.lock ht rfl rfl rfl, ?_, ?_, habs⟩
  · exact h.wait.move (by rw [ht]; exact fun _ hx => hx) (by rw [ht]; rfl) rfl (by rw [ht]; rfl) rfl
      (by rw [ht]; rfl)
  · exact h.holder.move rfl rfl (by rw [ht]; rfl)

theorem Inv.waitAppend (h : Inv s m) {w : Nat} (ht : s.pc t = .waitAppend c w) :
    ∃ m', Mesa.Step m (.wait t c) m' ∧ Inv (s.waitAppend t c w) m' := by
  obtain ⟨hin, habs⟩ := abs_wait h.abs h.lock h.wait ht
  refine ⟨_, .wait hin, ?_, waitInv_waitAppend h.wait ht, ?_, habs⟩
  · exact h.lock.move (p := .release (some (c, w))) rfl rfl (by rw [ht]; rfl) (by rw [ht]; exact id)
  · exact h.holder.move (p := .release (some (c, w))) rfl rfl (by rw [ht]; rfl)

/-- The state after `Signal` has taken a semaphore off the queue. -/
theorem Inv.take (h : Inv s m) {w : Nat} {ws : List Nat} {all : Bool} {m' : Mesa Nat κ}
    (ht : s.pc t = .signal c all) (hq : s.waitQueue c = w :: ws)
    (habs : Abs { s.goto t (.signalV c w all) with waitQueue := upd s.waitQueue c ws } m') :
    Inv { s.goto t (.signalV c w all) with waitQueue := upd s.waitQueue c ws } m' := by
  refine ⟨?_, waitInv_signal h.wait ht hq, ?_, habs⟩
  · exact h.lock.move (p := .signalV c w all) rfl rfl (by rw [ht]; rfl) (by rw [ht]; exact id)
  · exact h.holder.move (p := .signalV c w all) rfl rfl (by rw [ht]; rfl)

/-- `Signal` called by a thread itself. -/
theorem Inv.signal (h : Inv s m) (ht : s.pc t = .signal c false) :
    ∃ m', Mesa.Step m (.signal t c) m' ∧ Inv (s.signal t c false) m' := by
  unfold Monitor.signal
  cases hq : s.waitQueue c with
  | nil =>
      have hin : m.inside = some t := (h.abs.inside t).mpr (by rw [ht]; rfl)
      have hnone : ¬ s.Sweeping c :=
        h.lock.none_sweeping (t := t) (by rw [ht]; rfl) (by rw [ht]; rfl) c
      refine ⟨m, .unheard hin (by rw [h.abs.waiting c hnone, hq]; rfl), h.goto ?_ (by rw [ht]; rfl)⟩
      rw [ht]
      exact ⟨rfl, fun _ hx => hx, rfl, rfl, rfl, rfl, rfl⟩
  | cons w ws =>
      obtain ⟨hin, hwait, habs⟩ := abs_signal
        { s.goto t (.signalV c w false) with waitQueue := upd s.waitQueue c ws }
        h.abs h.lock h.wait ht hq rfl rfl rfl
      exact ⟨_, .signal hin hwait, h.take ht hq habs⟩

/-- `Signal` called by `Broadcast`. -/
theorem Inv.sweep (h : Inv s m) (ht : s.pc t = .signal c true) : Inv (s.signal t c true) m := by
  unfold Monitor.signal
  cases hq : s.waitQueue c with
  | nil =>
      refine h.goto ?_ (by rw [ht]; rfl)
      rw [ht]
      exact ⟨rfl, fun _ hx => hx, rfl, rfl, rfl, rfl, rfl⟩
  | cons w ws => exact h.take ht hq (abs_sweep h.abs ht rfl rfl rfl)

/-- What a step does to the monitor that a state stands for. -/
def Follows (s : Monitor κ) (l : Nat × MonitorCall κ) (s' : Monitor κ) (m : Mesa Nat κ) : Prop :=
  (event s l = none → Inv s' m) ∧ ∀ e, event s l = some e → ∃ m', Mesa.Step m e m' ∧ Inv s' m'

theorem Follows.silent {l : Nat × MonitorCall κ} (he : event s l = none) (h : Inv s' m) :
    Follows s l s' m :=
  ⟨fun _ => h, fun e h' => absurd (he.symm.trans h') (by simp)⟩

theorem Follows.seen {l : Nat × MonitorCall κ} {e : MesaEvent Nat κ} (he : event s l = some e)
    (h : ∃ m', Mesa.Step m e m' ∧ Inv s' m') : Follows s l s' m := by
  refine ⟨fun h' => absurd (he.symm.trans h') (by simp), fun e' h' => ?_⟩
  obtain rfl := Option.some.inj (he.symm.trans h')
  exact h

/-- A thread goes on. -/
theorem Inv.go (h : Inv s m) (hs : s.go t = some s') : Follows s (t, .go) s' m := by
  unfold Monitor.go at hs
  cases ht : s.pc t with
  | out => rw [ht] at hs; exact absurd hs (by simp)
  | inside => rw [ht] at hs; exact absurd hs (by simp)
  | acquire back =>
      rw [ht] at hs
      obtain ⟨hq, hs⟩ := Option.ite_none_left_eq_some.mp hs
      by_cases hv : s.lock.value = 0
      · rw [if_neg (by rw [Semaphore.P_zero t hv]; exact Bool.false_ne_true)] at hs
        obtain rfl := Option.some.inj hs
        exact .silent (by simp only [event, ht, if_pos hv]) (h.sleep ht hq hv)
      · rw [if_pos (by rw [Semaphore.P_pos t hv])] at hs
        obtain rfl := Option.some.inj hs
        exact .seen (by simp only [event, ht, if_neg hv]) (h.enter ht hq hv)
  | held back =>
      rw [ht] at hs
      obtain rfl := Option.some.inj hs
      exact .silent (by simp only [event, ht]) (h.held ht)
  | release sleep =>
      rw [ht] at hs
      obtain rfl := Option.some.inj hs
      exact .silent (by simp only [event, ht]) (h.release ht)
  | unlock sleep =>
      rw [ht] at hs
      obtain rfl := Option.some.inj hs
      cases sleep with
      | none => exact .seen (by simp only [event, ht]) (h.unlock ht)
      | some x => exact .silent (by simp only [event, ht]) (h.unlock_wait ht)
  | waitNew c =>
      rw [ht] at hs
      obtain rfl := Option.some.inj hs
      exact .silent (by simp only [event, ht]) (h.waitNew ht)
  | waitAppend c w =>
      rw [ht] at hs
      obtain rfl := Option.some.inj hs
      exact .seen (by simp only [event, ht]) (h.waitAppend ht)
  | waitP c w =>
      rw [ht] at hs
      exact .silent (by simp only [event, ht]) (h.waitP ht hs)
  | waitDelete c w =>
      rw [ht] at hs
      obtain rfl := Option.some.inj hs
      exact .silent (by simp only [event, ht]) (h.waitDelete ht)
  | signal c all =>
      rw [ht] at hs
      obtain rfl := Option.some.inj hs
      cases all with
      | false => exact .seen (by simp only [event, ht]) (h.signal ht)
      | true => exact .silent (by simp only [event, ht]) (h.sweep ht)
  | signalV c w all =>
      rw [ht] at hs
      obtain rfl := Option.some.inj hs
      exact .silent (by simp only [event, ht]) (h.signalV ht)
  | test c =>
      rw [ht] at hs
      obtain rfl := Option.some.inj hs
      exact .silent (by simp only [event, ht]) (h.test ht)

/-- A thread calls a function of the lock or of a condition. -/
theorem Inv.step {l : Nat × MonitorCall κ} (h : Inv s m) (hs : step s l = some s') :
    Follows s l s' m := by
  obtain ⟨t, a⟩ := l
  cases a with
  | go => exact h.go hs
  | acquire =>
      obtain ⟨ht, hs⟩ := Option.ite_none_right_eq_some.mp hs
      obtain rfl := Option.some.inj hs
      obtain ⟨hout, habs⟩ := abs_call h.abs h.wait ht
      refine .seen (e := .call t) (by simp only [event, ht]) ⟨_, .call hout, ?_, ?_, ?_, habs⟩
      · exact h.lock.move rfl rfl (by rw [ht]; rfl) fun _ => rfl
      · exact h.wait.move (by simp [MonitorPC.owns]) (by rw [ht]; rfl) rfl (by rw [ht]; rfl) rfl
          (by rw [ht]; rfl)
      · exact h.holder.move rfl rfl (by rw [ht]; rfl)
  | release =>
      obtain ⟨ht, hs⟩ := Option.ite_none_right_eq_some.mp hs
      obtain rfl := Option.some.inj hs
      refine .silent (by simp only [event]) (h.goto ?_ (by rw [ht]; rfl))
      rw [ht]
      exact ⟨rfl, fun _ hx => hx, rfl, rfl, rfl, rfl, rfl⟩
  | wait c =>
      obtain ⟨ht, hs⟩ := Option.ite_none_right_eq_some.mp hs
      obtain rfl := Option.some.inj hs
      refine .silent (by simp only [event]) (h.goto ?_ (by rw [ht]; rfl))
      rw [ht]
      exact ⟨rfl, fun _ hx => hx, rfl, rfl, rfl, rfl, rfl⟩
  | signal c =>
      obtain ⟨ht, hs⟩ := Option.ite_none_right_eq_some.mp hs
      obtain rfl := Option.some.inj hs
      refine .silent (by simp only [event]) (h.goto ?_ (by rw [ht]; rfl))
      rw [ht]
      exact ⟨rfl, fun _ hx => hx, rfl, rfl, rfl, rfl, rfl⟩
  | broadcast c =>
      obtain ⟨ht, hs⟩ := Option.ite_none_right_eq_some.mp hs
      obtain rfl := Option.some.inj hs
      obtain ⟨hin, habs⟩ := abs_broadcast h.abs h.lock h.wait ht
      refine .seen (e := .broadcast t c) (by simp only [event, ht])
        ⟨_, .broadcast hin, ?_, ?_, ?_, habs⟩
      · exact h.lock.move rfl rfl (by rw [ht]; rfl)
          (by rw [ht]; exact fun hf => Bool.noConfusion hf)
      · exact h.wait.move (by rw [ht]; exact fun _ hx => hx) (by rw [ht]; rfl) rfl
          (by rw [ht]; rfl) rfl (by rw [ht]; rfl)
      · exact h.holder.move rfl rfl (by rw [ht]; rfl)

/-! ## Runs -/

theorem inv_reachable {x : Monitor κ × List (MesaEvent Nat κ)} (h : logged.Reachable x) :
    ∃ m, Mesa.Run Mesa.empty x.2 m ∧ Inv x.1 m := by
  refine h.invariant (I := fun (x : Monitor κ × List (MesaEvent Nat κ)) =>
    ∃ m, Mesa.Run Mesa.empty x.2 m ∧ Inv x.1 m) ?_ ?_
  · rintro ⟨_, _⟩ ⟨rfl, rfl⟩
    exact ⟨_, .nil _, inv_new⟩
  · rintro x l y _ ⟨m, hrun, hinv⟩ _ hs
    obtain ⟨hstep, hlog⟩ := Base.System.record_step hs
    obtain ⟨hnone, hsome⟩ := hinv.step hstep
    rw [hlog]
    exact hrun.extend hnone hsome

/-- **Locks and conditions are a monitor.** Whatever the threads call, and wherever they are
preempted, what is seen of a run is a run of the abstract monitor. -/
theorem monitor_refines_mesa {x : Monitor κ × List (MesaEvent Nat κ)} (h : logged.Reachable x) :
    ∃ m, Mesa.Run Mesa.empty x.2 m ∧ Abs x.1 m ∧ HolderInv x.1 ∧ x.1.asserts = true := by
  obtain ⟨m, hrun, hinv⟩ := inv_reachable h
  exact ⟨m, hrun, hinv.abs, hinv.holder, hinv.wait.asserts⟩

/-- Thread 0 waits and has gone to sleep. Thread 1 signals, and has not come to its `V`. -/
def signalled : List (Nat × MonitorCall Unit) :=
  [(0, .acquire), (0, .go), (0, .go), (0, .wait ()), (0, .go), (0, .go), (0, .go),
    (0, .go), (0, .go), (1, .acquire), (1, .go), (1, .go), (1, .signal ()), (1, .go)]

theorem monitor_refines_mesa_signalled : ∃ x m, logged.Reachable x ∧
    Mesa.Run Mesa.empty [.call 0, .enter 0, .wait 0 (), .call 1, .enter 1, .signal 1 ()] m ∧
    Abs x.1 m := by
  have hrun : ∃ x, logged.run (new, []) signalled = some x ∧
      x.2 = [.call 0, .enter 0, .wait 0 (), .call 1, .enter 1, .signal 1 ()] := ⟨_, rfl, rfl⟩
  obtain ⟨x, hx, hlog⟩ := hrun
  have hr : logged.Reachable x := .of_run (s := (new, [])) ⟨rfl, rfl⟩ hx
  obtain ⟨m, hm, habs, _⟩ := monitor_refines_mesa hr
  exact ⟨x, m, hr, hlog ▸ hm, habs⟩

/-! ## Progress -/

/-- The threads go on, with no new call, until one is inside. -/
def Arrives (s : Monitor κ) : Prop :=
  ∃ (us : List Nat) (s' : Monitor κ),
    sys.run s (us.map fun u => (u, MonitorCall.go)) = some s' ∧ ∃ u, s'.pc u = .inside

theorem arrives_inside (h : s.pc u = .inside) : Arrives s := ⟨[], s, rfl, u, h⟩

theorem arrives_go (s' : Monitor κ) (hs : s.go u = some s') (h : Arrives s') : Arrives s := by
  obtain ⟨us, s'', hrun, hin⟩ := h
  exact ⟨u :: us, s'', (Base.System.run_cons (M := sys) (l := (u, MonitorCall.go)) hs _).trans hrun,
    hin⟩

/-- A step of a thread that has the lock leaves those on their way. -/
theorem Inv.others (h : Inv s m) (hs : s.go u = some s') (hu : (s.pc u).holds = true)
    (ht : s.Entering t) : ∃ m', Inv s' m' ∧ s'.Entering t := by
  obtain ⟨hnone, hsome⟩ := h.go hs
  have hmem := (h.abs.entering t).mpr ht
  cases he : event s (u, .go) with
  | none => exact ⟨m, hnone he, ((hnone he).abs.entering t).mp hmem⟩
  | some e =>
      obtain ⟨m', hstep, hinv⟩ := hsome e he
      refine ⟨m', hinv, (hinv.abs.entering t).mp (hstep.entering ?_ hmem)⟩
      rintro rfl
      have hacq := acquires_of_enter he
      generalize s.pc u = p at hu hacq
      cases p <;> first | exact Bool.noConfusion hu | exact Bool.noConfusion hacq

/-- The lock is free, and a thread wants it that is not asleep. -/
theorem arrives_acquire {back : Option (κ × Nat)} (ht : s.pc t = .acquire back)
    (hq : t ∉ s.lock.queue) (hv : s.lock.value ≠ 0) : Arrives s := by
  have hgo : s.go t = some { s.goto t (.held back) with lock := (s.lock.P t).1 } := by
    unfold Monitor.go
    rw [ht]
    exact (if_neg hq).trans (if_pos (by rw [Semaphore.P_pos t hv]))
  refine arrives_go _ hgo ?_
  generalize hs₁ : { s.goto t (.held back) with lock := (s.lock.P t).1 } = s₁
  have ht₁ : s₁.pc t = .held back := by rw [← hs₁]; exact upd_self _ _ _
  refine arrives_go { s₁.goto t (afterAcquire back) with lockHolder := some t } (u := t) ?_ ?_
  · unfold Monitor.go
    rw [ht₁]
  · cases back with
    | none => exact arrives_inside (u := t) (upd_self _ _ _)
    | some x =>
        obtain ⟨c, w⟩ := x
        generalize hs₂ : { s₁.goto t (afterAcquire (some (c, w))) with lockHolder := some t } = s₂
        have ht₂ : s₂.pc t = .waitDelete c w := by rw [← hs₂]; exact upd_self _ _ _
        refine arrives_go { s₂.goto t .inside with deleted := upd s₂.deleted w true } (u := t) ?_
          (arrives_inside (u := t) (upd_self _ _ _))
        unfold Monitor.go
        rw [ht₂]

/-- The lock is free, and somebody is on its way to it. -/
theorem Inv.arrives_free (h : Inv s m) (hv : s.lock.value ≠ 0) (ht : s.Entering t) : Arrives s := by
  have hfree : ∀ u, (s.pc u).holds ≠ true := fun u hu => hv (h.lock.exclusive.zero hu)
  rcases ht with ht | ⟨c, w, hb, hswept⟩
  · -- whoever is woken, or has not gone to sleep
    have hawake : ∃ u, (s.pc u).acquires = true ∧ u ∉ s.lock.queue := by
      by_cases hq : s.lock.queue = []
      · exact ⟨t, ht, by simp [hq]⟩
      · exact h.lock.wakeup hq hv
    obtain ⟨u, hu, hq⟩ := hawake
    cases hpc : s.pc u with
    | acquire back => exact arrives_acquire hpc hq hv
    | _ => rw [hpc] at hu; exact Bool.noConfusion hu
  · -- a waiter, which has been given its `V`
    have hout : w ∉ s.waitQueue c := fun hm => by
      obtain ⟨u, hu⟩ := hswept hm
      exact hfree u (MonitorPC.holds_of_sweeps hu)
    have hone : (s.waiter w).value = 1 :=
      (h.wait.granted t c w hb hout).resolve_right fun ⟨u, hu⟩ =>
        hfree u (MonitorPC.holds_of_gives hu)
    have hne : (s.waiter w).value ≠ 0 := by rw [hone]; exact Int.one_ne_zero
    cases hpc : s.pc t with
    | waitP d x =>
        rw [hpc] at hb
        obtain ⟨rfl, rfl⟩ := Prod.mk.inj (Option.some.inj hb)
        have hawake : t ∉ (s.waiter x).queue := fun hm => hne (h.wait.asleep t x hm).1
        have hq : t ∉ s.lock.queue := fun hm => by
          have hacq := h.lock.queued t hm
          rw [hpc] at hacq
          exact Bool.noConfusion hacq
        refine arrives_go { s.goto t (.acquire (some (d, x))) with
            waiter := upd s.waiter x ((s.waiter x).P t).1
            asserts := s.asserts && !s.deleted x } (u := t) ?_
          (arrives_acquire (upd_self _ _ _) hq hv)
        unfold Monitor.go
        rw [hpc]
        refine (if_neg hawake).trans (congrArg some (if_pos ?_))
        rw [Semaphore.P_pos t hne]
    | release sleep => exact absurd (by rw [hpc]; rfl) (hfree t)
    | unlock sleep => exact absurd (by rw [hpc]; rfl) (hfree t)
    | _ => rw [hpc] at hb; exact absurd hb (by simp [MonitorPC.before])

/-- Where a thread that has the lock has got to. -/
def rank (s : Monitor κ) (u : Nat) : Nat := (s.pc u).rank fun c => (s.waitQueue c).length

/-- A thread that has the lock goes on until it is inside or has given it back. -/
theorem Inv.arrives_held (h : Inv s m) (hu : (s.pc u).holds = true) (ht : s.Entering t) :
    Arrives s := by
  induction hn : rank s u using Nat.strong_induction_on generalizing s m with
  | _ n ih =>
      subst hn
      have hnext : ∀ s', s.go u = some s' → (s'.pc u).holds = true → rank s' u < rank s u →
          Arrives s := by
        intro s' hs hu' hlt
        obtain ⟨m', h', ht'⟩ := h.others hs hu ht
        exact arrives_go _ hs (ih _ hlt h' hu' ht' rfl)
      have hgoto : ∀ {s₁ : Monitor κ} {p : MonitorPC κ}, s₁.pc = upd s.pc u p → s.go u = some s₁ →
          p.holds = true → p.rank (fun c => (s₁.waitQueue c).length) < rank s u → Arrives s := by
        intro s₁ p hpc hs hp hlt
        have hself : s₁.pc u = p := by rw [hpc, upd_self]
        exact hnext s₁ hs (by rw [hself]; exact hp) (by unfold rank; rw [hself]; exact hlt)
      cases hpc : s.pc u with
      | inside => exact arrives_inside hpc
      | out => rw [hpc] at hu; exact Bool.noConfusion hu
      | acquire back => rw [hpc] at hu; exact Bool.noConfusion hu
      | waitP c w => rw [hpc] at hu; exact Bool.noConfusion hu
      | held back =>
          refine hgoto (p := afterAcquire back) rfl (by unfold Monitor.go; rw [hpc]) ?_ ?_
          · cases back <;> rfl
          · rw [rank, hpc]
            cases back with
            | none => exact Nat.zero_lt_two
            | some x => exact Nat.lt_succ_self 1
      | release sleep =>
          refine hgoto (p := .unlock sleep) rfl (by unfold Monitor.go; rw [hpc]) rfl ?_
          rw [rank, hpc]
          exact Nat.lt_succ_self 2
      | unlock sleep =>
          have hgo : s.go u = some { s.goto u (afterRelease sleep) with lock := s.lock.V.1 } := by
            unfold Monitor.go
            rw [hpc]
          obtain ⟨m', h', ht'⟩ := h.others hgo hu ht
          refine arrives_go _ hgo (h'.arrives_free ?_ ht')
          show toInt32 (s.lock.value + 1) ≠ 0
          rw [h.lock.exclusive.zero hu]
          decide
      | waitNew c =>
          refine hgoto (p := .waitAppend c s.allocated) rfl (by unfold Monitor.go; rw [hpc]) rfl ?_
          rw [rank, hpc]
          exact Nat.lt_succ_self 4
      | waitAppend c w =>
          refine hgoto (p := .release (some (c, w))) rfl (by unfold Monitor.go; rw [hpc]) rfl ?_
          rw [rank, hpc]
          exact Nat.lt_succ_self 3
      | waitDelete c w =>
          refine hgoto (p := .inside) rfl (by unfold Monitor.go; rw [hpc]) rfl ?_
          rw [rank, hpc]
          exact Nat.lt_succ_self 0
      | signal c all =>
          have hgo : s.go u = some (s.signal u c all) := by unfold Monitor.go; rw [hpc]
          unfold Monitor.signal at hgo
          cases hq : s.waitQueue c with
          | nil =>
              rw [hq] at hgo
              refine hgoto rfl hgo (by cases all <;> rfl) ?_
              rw [rank, hpc]
              cases all <;> simp [MonitorPC.rank, Monitor.goto, hq]
          | cons w ws =>
              rw [hq] at hgo
              refine hgoto (p := .signalV c w all) rfl hgo rfl ?_
              rw [rank, hpc]
              cases all with
              | false => exact Nat.lt_succ_self 1
              | true =>
                  simp only [MonitorPC.rank, upd_self, hq, List.length_cons]
                  split <;> omega
      | signalV c w all =>
          refine hgoto (p := if all then .test c else .inside) rfl (by unfold Monitor.go; rw [hpc])
            (by cases all <;> rfl) ?_
          rw [rank, hpc]
          cases all with
          | false => exact Nat.zero_lt_one
          | true => exact Nat.lt_succ_self _
      | test c =>
          have hgo : s.go u =
              some (s.goto u (if (s.waitQueue c).isEmpty then .inside else .signal c true)) := by
            unfold Monitor.go
            rw [hpc]
          cases hq : s.waitQueue c with
          | nil =>
              rw [hq] at hgo
              refine hgoto (p := .inside) rfl hgo rfl ?_
              rw [rank, hpc]
              exact Nat.succ_pos _
          | cons w ws =>
              rw [hq] at hgo
              refine hgoto (p := .signal c true) rfl hgo rfl ?_
              rw [rank, hpc]
              simp [MonitorPC.rank, Monitor.goto, hq]

theorem Inv.arrives (h : Inv s m) (ht : s.Entering t) : Arrives s := by
  rcases h.lock.exclusive with ⟨hv, _⟩ | ⟨_, u, hu, _⟩
  · exact h.arrives_free (by rw [hv]; exact Int.one_ne_zero) ht
  · exact h.arrives_held hu ht

/-- **No wakeup is lost, and nobody is shut out.** A thread asleep in `Wait` has not been signalled,
or the `V` for it is the next thing its signaller does. As long as somebody wants to enter, the
calls that are under way bring a thread in. -/
theorem monitor_progress (h : sys.Reachable s) :
    (∀ t w, t ∈ (s.waiter w).queue → ∃ c, s.pc t = .waitP c w ∧
      (w ∈ s.waitQueue c ∨ ∃ u all, s.pc u = .signalV c w all)) ∧
      ∀ t, s.Entering t → Arrives s := by
  obtain ⟨es, hes⟩ := h.record (fun s l _ es => es ++ (event s l).toList) []
  obtain ⟨m, _, hinv⟩ := inv_reachable hes
  refine ⟨fun t w ht => ?_, fun t ht => hinv.arrives ht⟩
  obtain ⟨h0, hs⟩ := hinv.wait.asleep t w ht
  cases hpc : s.pc t with
  | waitP c x =>
      rw [hpc] at hs
      obtain rfl := Option.some.inj hs
      refine ⟨c, rfl, or_iff_not_imp_left.mpr fun hout => ?_⟩
      rcases hinv.wait.granted t c x (by rw [hpc]; rfl) hout with h1 | ⟨u, hu⟩
      · exact absurd (h1.symm.trans h0) Int.one_ne_zero
      · cases hpu : s.pc u with
        | signalV d y all =>
            rw [hpu] at hu
            obtain ⟨rfl, rfl⟩ := Prod.mk.inj (Option.some.inj hu)
            exact ⟨u, all, hpu⟩
        | _ => rw [hpu] at hu; exact absurd hu (by simp [MonitorPC.gives])
  | _ => rw [hpc] at hs; exact absurd hs (by simp [MonitorPC.sleeps])

theorem monitor_progress_signalled : ∃ s : Monitor Unit, sys.Reachable s ∧ 0 ∈ (s.waiter 0).queue ∧
    s.waitQueue () = [] ∧ (∃ u all, s.pc u = .signalV () 0 all) ∧ Arrives s := by
  have hrun : ∃ s, sys.run (new : Monitor Unit) signalled = some s ∧ 0 ∈ (s.waiter 0).queue ∧
      s.waitQueue () = [] ∧ s.pc 0 = .waitP () 0 := ⟨_, rfl, List.mem_cons_self, rfl, rfl⟩
  obtain ⟨s, hs, hasleep, hq, hpc⟩ := hrun
  have hr : sys.Reachable s := .of_run rfl hs
  obtain ⟨hwoken, harrives⟩ := monitor_progress hr
  have hent : s.Entering 0 := .inr ⟨(), 0, by rw [hpc]; rfl, fun hm => by rw [hq] at hm; simp at hm⟩
  obtain ⟨_, _, hv⟩ := hwoken 0 0 hasleep
  exact ⟨s, hr, hasleep, hq, hv.resolve_left (by rw [hq]; simp), harrives 0 hent⟩

end Runs

end Monitor

end Nachos
