import Nachos.Threads.Scheduler
import Mathlib.Data.List.Nodup

/-!
# Every thread is in one place

A thread is handed from the CPU to the ready list or to the queue of a semaphore, from
such a queue to the ready list, and from there back to the CPU. What keeps it from being
in two places is that its `point` says which of them it can be in: a thread in the queue
of semaphore `k` is asleep in `P` of `k`, a thread on the ready list has begun nothing or
is inside `Yield` or `Sleep`, and only the thread that has the CPU is anywhere else.

The assertions are part of the state. They hold because each of them says of one transfer
that the thread was not there already, or that the interrupts are off.
-/

namespace Nachos

open Base (upd upd_self upd_ne upd_apply)

namespace Sched

/-- What holds at every moment. -/
structure Inv (s : Sched) : Prop where
  asserts : s.asserts = true
  stack : s.stack = s.currentThread
  readyNodup : s.readyList.Nodup
  queueNodup : ∀ k, (s.sem k).queue.Nodup
  /-- A thread on the ready list can go on. -/
  ready : ∀ t ∈ s.readyList, (s.point t).waits = true
  /-- A thread in a queue is asleep in that `P`, and nobody has made it ready. -/
  queued : ∀ k, ∀ t ∈ (s.sem k).queue, (∃ old, s.point t = .asleep k old) ∧ t ∉ s.readyList
  /-- Nobody executes but the thread that has the CPU. -/
  others : ∀ t, (s.point t).executes = true → t = s.stack
  doomed : ∀ d, s.toBeDestroyed = some d ↔ s.point d = .finished
  free : s.mode ≠ .switched → s.toBeDestroyed = none
  running : s.mode = .running → (∃ user, s.point s.stack = .code user) ∨
    ∃ k old, s.point s.stack = .inP k old ∧ s.level = .intOff
  idling : s.mode = .idling ∨ s.mode = .halted → s.level = .intOff ∧
    (s.point s.stack = .finishing ∨ ∃ k old, s.point s.stack = .asleep k old)
  /-- A thread that was just switched to has left the place it waited in. -/
  switched : s.mode = .switched → s.level = .intOff ∧ (s.point s.stack).waits = true ∧
    s.stack ∉ s.readyList ∧ ∀ k, s.stack ∉ (s.sem k).queue

theorem inv_boot {s : Sched} (h : Boot s) : Inv s := by
  obtain ⟨hc, hr, hd, hq, hp, hm, _, ha⟩ := h
  have hstack : s.point s.stack = .code false := by rw [hp, if_pos rfl]
  refine ⟨ha, hc.symm, by simp [hr], by simp [hq], by simp [hr], by simp [hq], ?_, ?_, fun _ => hd,
    fun _ => Or.inl ⟨false, hstack⟩, ?_, ?_⟩
  · intro t ht
    by_contra hne
    rw [hp, if_neg hne] at ht
    exact absurd ht (by simp [ThreadPoint.executes])
  · intro d
    rw [hd, hp]
    split <;> simp
  · intro he
    rw [hm] at he
    simp at he
  · intro he
    rw [hm] at he
    simp at he

section Steps

variable {s : Sched}

/-- The running thread is in no list. -/
theorem Inv.executing (h : Inv s) {t : Nat} (ht : (s.point t).executes = true) :
    t ∉ s.readyList ∧ ∀ k, t ∉ (s.sem k).queue := by
  refine ⟨?_, ?_⟩
  · intro hm
    have hw := h.ready t hm
    cases hp : s.point t <;> simp [hp, ThreadPoint.waits, ThreadPoint.executes] at hw ht
  · intro k hm
    obtain ⟨⟨old, hp⟩, _⟩ := h.queued k t hm
    simp [hp, ThreadPoint.executes] at ht

/-- Fields that the invariant does not mention may change; the level may, in ordinary code. -/
theorem Inv.congr (h : Inv s) {s' : Sched}
    (he : s' = { s with level := s'.level, status := s'.status, machine := s'.machine,
                        userRegisters := s'.userRegisters, space := s'.space })
    (hl : s'.level = .intOff ∨ s'.level = s.level ∨
      s.mode = .running ∧ ∃ user, s.point s.stack = .code user) : Inv s' := by
  have hoff : s.level = .intOff → (s'.level = .intOff ∨
      s.mode = .running ∧ ∃ user, s.point s.stack = .code user) := by
    intro ho
    rcases hl with h1 | h1 | h1
    · exact Or.inl h1
    · exact Or.inl (h1.trans ho)
    · exact Or.inr h1
  rw [he]
  refine ⟨h.asserts, h.stack, h.readyNodup, h.queueNodup, h.ready, h.queued, h.others, h.doomed,
    h.free, ?_, ?_, ?_⟩
  · intro hm
    rcases h.running hm with hc | ⟨k, old, hp, ho⟩
    · exact Or.inl hc
    · rcases hoff ho with h1 | ⟨_, user, hc⟩
      · exact Or.inr ⟨k, old, hp, h1⟩
      · exact Or.inl ⟨user, hc⟩
  · intro hm
    obtain ⟨ho, hp⟩ := h.idling hm
    rcases hoff ho with h1 | ⟨hr, _⟩
    · exact ⟨h1, hp⟩
    · rw [hr] at hm
      simp at hm
  · intro hm
    obtain ⟨ho, hp⟩ := h.switched hm
    rcases hoff ho with h1 | ⟨hr, _⟩
    · exact ⟨h1, hp⟩
    · have hm' : s.mode = .switched := hm
      rw [hr] at hm'
      exact absurd hm' (by simp)

/-- An assertion that holds does nothing. -/
theorem assert_true (s : Sched) {b : Bool} (hb : b = true) : s.assert b = s := by
  rw [hb, assert, Bool.and_true]

theorem assert_off (hl : s.level = .intOff) : s.assert (s.level == .intOff) = s :=
  s.assert_true (by rw [hl]; rfl)

/-! ### `ReadyToRun` and `V` -/

theorem readyToRun_eq (hl : s.level = .intOff) {t : Nat} (ht : t ∉ s.readyList) :
    s.readyToRun t
      = { s with status := upd s.status t .ready, readyList := s.readyList ++ [t] } := by
  simp [readyToRun, assert, hl, ht]

/-- What a `V` leaves alone. -/
theorem semV_frame (s : Sched) (k : Nat) :
    (s.semV k).currentThread = s.currentThread ∧ (s.semV k).stack = s.stack ∧
      (s.semV k).level = s.level ∧ (s.semV k).toBeDestroyed = s.toBeDestroyed ∧
      (s.semV k).point = s.point ∧ (s.semV k).mode = s.mode ∧ (s.semV k).machine = s.machine ∧
      (s.semV k).userRegisters = s.userRegisters ∧ (s.semV k).space = s.space := by
  cases hq : ((s.sem k).V).2 with
  | none => simp [semV, hq]
  | some t => simp [semV, hq, readyToRun, assert]

/-- **A `V` moves the front of its queue to the ready list.** -/
theorem inv_semV (h : Inv s) (hl : s.level = .intOff) (hm : s.mode ≠ .switched) (k : Nat) :
    Inv (s.semV k) := by
  have hm' : ∀ {P : Prop}, s.mode = .switched → P := fun he => absurd he hm
  cases hq : (s.sem k).queue with
  | nil =>
      have hqueue : ∀ j, (upd s.sem k ((s.sem k).V).1 j).queue = (s.sem j).queue := by
        intro j
        by_cases hj : j = k
        · rw [hj, upd_self, Semaphore.V, hq]; rfl
        · rw [upd_ne _ _ hj]
      have he : s.semV k = { s with sem := upd s.sem k ((s.sem k).V).1 } := by
        simp [semV, Semaphore.V, hq]
      rw [he]
      refine ⟨h.asserts, h.stack, h.readyNodup, ?_, h.ready, ?_, h.others, h.doomed, h.free,
        h.running, h.idling, hm'⟩
      · intro j
        show (upd s.sem k _ j).queue.Nodup
        rw [hqueue]
        exact h.queueNodup j
      · intro j t ht
        have ht' : t ∈ (upd s.sem k ((s.sem k).V).1 j).queue := ht
        rw [hqueue] at ht'
        exact h.queued j t ht'
  | cons t ts =>
      have hmem : t ∈ (s.sem k).queue := by rw [hq]; exact List.mem_cons_self
      obtain ⟨⟨old, hpt⟩, hnr⟩ := h.queued k t hmem
      have hnd := h.queueNodup k
      rw [hq] at hnd
      have he : s.semV k = { s with
          sem := upd s.sem k ((s.sem k).V).1, status := upd s.status t .ready
          readyList := s.readyList ++ [t] } := by
        simp only [semV, Semaphore.V, hq, List.head?_cons]
        rw [readyToRun_eq]
        · exact hl
        · exact hnr
      -- who is left in a queue was not the front of this one: the point says which queue it is
      have hleft : ∀ j u, u ∈ (upd s.sem k ((s.sem k).V).1 j).queue →
          u ∈ (s.sem j).queue ∧ u ≠ t := by
        intro j u hu
        by_cases hj : j = k
        · rw [hj, upd_self, Semaphore.V, hq] at hu
          rw [hj, hq]
          exact ⟨List.mem_cons_of_mem t hu, fun e => (List.nodup_cons.mp hnd).1 (e ▸ hu)⟩
        · rw [upd_ne _ _ hj] at hu
          refine ⟨hu, ?_⟩
          intro e
          obtain ⟨⟨old', hpu⟩, _⟩ := h.queued j u hu
          rw [e, hpt] at hpu
          exact hj (ThreadPoint.asleep.inj hpu).1.symm
      rw [he]
      refine ⟨h.asserts, h.stack, ?_, ?_, ?_, ?_, h.others, h.doomed, h.free, h.running, h.idling,
        hm'⟩
      · exact List.concat_eq_append ▸ h.readyNodup.concat hnr
      · intro j
        show (upd s.sem k _ j).queue.Nodup
        by_cases hj : j = k
        · rw [hj, upd_self, Semaphore.V, hq]
          exact (List.nodup_cons.mp hnd).2
        · rw [upd_ne _ _ hj]
          exact h.queueNodup j
      · intro u hu
        rcases List.mem_append.mp hu with hu' | hu'
        · exact h.ready u hu'
        · rw [List.mem_singleton.mp hu']
          show (s.point t).waits = true
          rw [hpt]; rfl
      · intro j u hu
        obtain ⟨hu1, hu2⟩ := hleft j u hu
        obtain ⟨hp, hn⟩ := h.queued j u hu1
        refine ⟨hp, ?_⟩
        intro hmem'
        rcases List.mem_append.mp hmem' with h1 | h1
        · exact hn h1
        · exact hu2 (List.mem_singleton.mp h1)

theorem foldl_semV_frame : ∀ (vs : List Nat) (s : Sched),
    (vs.foldl semV s).currentThread = s.currentThread ∧ (vs.foldl semV s).stack = s.stack ∧
      (vs.foldl semV s).level = s.level ∧ (vs.foldl semV s).toBeDestroyed = s.toBeDestroyed ∧
      (vs.foldl semV s).point = s.point ∧ (vs.foldl semV s).mode = s.mode ∧
      (vs.foldl semV s).machine = s.machine ∧
      (vs.foldl semV s).userRegisters = s.userRegisters ∧ (vs.foldl semV s).space = s.space := by
  intro vs
  induction vs with
  | nil => intro _; exact ⟨rfl, rfl, rfl, rfl, rfl, rfl, rfl, rfl, rfl⟩
  | cons k vs ih =>
      intro s
      obtain ⟨h1, h2, h3, h4, h5, h6, h7, h8, h9⟩ := ih (s.semV k)
      obtain ⟨g1, g2, g3, g4, g5, g6, g7, g8, g9⟩ := semV_frame s k
      exact ⟨h1.trans g1, h2.trans g2, h3.trans g3, h4.trans g4, h5.trans g5, h6.trans g6,
        h7.trans g7, h8.trans g8, h9.trans g9⟩

theorem inv_foldl_semV : ∀ (vs : List Nat) {s : Sched}, Inv s → s.level = .intOff →
    s.mode ≠ .switched → Inv (vs.foldl semV s) := by
  intro vs
  induction vs with
  | nil => intro _ h _ _; exact h
  | cons k vs ih =>
      intro s h hl hm
      obtain ⟨_, _, g3, _, _, g6, _⟩ := semV_frame s k
      exact ih (inv_semV h hl hm k) (g3.trans hl) (by rw [g6]; exact hm)

theorem inv_handlers (h : Inv s) (hl : s.level = .intOff) (hm : s.mode ≠ .switched)
    (vs : List Nat) : Inv (s.handlers vs) :=
  inv_foldl_semV vs (s := { s with machine := s.machine.delayedLoad 0#32 0#32 })
    (h.congr rfl (Or.inr (Or.inl rfl))) hl hm

theorem inv_callV (h : Inv s) {user : Bool} (hm : s.mode = .running)
    (hp : s.point s.stack = .code user) (k : Nat) : Inv (s.callV k) := by
  have hoff : Inv { s with level := .intOff } := h.congr rfl (Or.inl rfl)
  have hv := inv_semV hoff rfl (by rw [hm]; simp) k
  obtain ⟨_, g2, _, _, g5, g6, _⟩ := semV_frame { s with level := .intOff } k
  refine hv.congr rfl (Or.inr (Or.inr ⟨g6.trans hm, user, ?_⟩))
  rw [g5, g2]
  exact hp

theorem inv_fork (h : Inv s) {user : Bool} (hm : s.mode = .running)
    (hp : s.point s.stack = .code user) {t : Nat} (ht : s.point t = .justCreated) :
    Inv (s.fork t) := by
  have hne : t ≠ s.stack := by
    intro e
    rw [e, hp] at ht
    exact absurd ht (by simp)
  have hnr : t ∉ s.readyList := fun hmem => by
    have := h.ready t hmem
    rw [ht] at this
    exact absurd this (by simp [ThreadPoint.waits])
  have hnq : ∀ k, t ∉ (s.sem k).queue := fun k hmem => by
    obtain ⟨⟨old, hpt⟩, _⟩ := h.queued k t hmem
    rw [ht] at hpt
    exact absurd hpt (by simp)
  have he : s.fork t = { s with
      point := upd s.point t .begin, status := upd s.status t .ready
      readyList := s.readyList ++ [t] } := by
    unfold fork
    rw [readyToRun_eq]
    · rfl
    · exact hnr
  have hstack : upd s.point t .begin s.stack = s.point s.stack := upd_ne _ _ hne.symm
  -- only the new thread has moved, and it was nowhere
  rw [he]
  refine ⟨h.asserts, h.stack, ?_, h.queueNodup, ?_, ?_, ?_, ?_, h.free, ?_, ?_, ?_⟩
  · exact List.concat_eq_append ▸ h.readyNodup.concat hnr
  · intro u hu
    show (upd s.point t .begin u).waits = true
    by_cases hut : u = t
    · rw [hut, upd_self]; rfl
    · rw [upd_ne _ _ hut]
      rcases List.mem_append.mp hu with hu' | hu'
      · exact h.ready u hu'
      · exact absurd (List.mem_singleton.mp hu') hut
  · intro k u hu
    have hut : u ≠ t := fun e => hnq k (e ▸ hu)
    obtain ⟨⟨old, hpu⟩, hn⟩ := h.queued k u hu
    refine ⟨⟨old, (upd_ne _ _ hut).trans hpu⟩, ?_⟩
    intro hmem
    rcases List.mem_append.mp hmem with h1 | h1
    · exact hn h1
    · exact hut (List.mem_singleton.mp h1)
  · intro u hu
    by_cases hut : u = t
    · rw [hut] at hu
      simp [ThreadPoint.executes] at hu
    · simp only [upd_ne _ _ hut] at hu
      exact h.others u hu
  · intro d
    rw [h.doomed d]
    by_cases hdt : d = t
    · simp [hdt, ht]
    · simp only [upd_ne _ _ hdt]
  · intro _
    exact Or.inl ⟨user, hstack.trans hp⟩
  · intro hmode
    have hmode' : s.mode = .idling ∨ s.mode = .halted := hmode
    rw [hm] at hmode'
    simp at hmode'
  · intro hmode
    have hmode' : s.mode = .switched := hmode
    rw [hm] at hmode'
    exact absurd hmode' (by simp)

/-! ### Giving the CPU away -/

theorem saveUserState_eq (s : Sched) (t : Nat) :
    s.saveUserState t = { s with userRegisters := (s.saveUserState t).userRegisters } := by
  unfold saveUserState
  split <;> rfl

/-- `Run` of a thread that is not finishing, with interrupts off. -/
theorem run_eq (hl : s.level = .intOff) (next : Nat) :
    s.run next false = { s with
      currentThread := next, stack := next, status := upd s.status next .running, mode := .switched
      userRegisters := (s.saveUserState s.currentThread).userRegisters } := by
  unfold run
  simp only [assert_off hl, Bool.false_eq_true, if_false]
  rw [saveUserState_eq]

/-- `Run` of a thread that is finishing, with interrupts off and nobody to be destroyed. -/
theorem run_finishing_eq (hl : s.level = .intOff) (hd : s.toBeDestroyed = none) (next : Nat) :
    s.run next true = { s with
      currentThread := next, stack := next, status := upd s.status next .running, mode := .switched
      toBeDestroyed := some s.currentThread
      point := upd s.point s.currentThread .finished
      userRegisters := (s.saveUserState s.currentThread).userRegisters } := by
  have hnone : s.assert s.toBeDestroyed.isNone = s := s.assert_true (by rw [hd]; rfl)
  unfold run
  simp only [assert_off hl, hnone, if_true]
  rw [saveUserState_eq]
  simp only [saveUserState]
  split <;> rfl

theorem findNextToRun_eq (hl : s.level = .intOff) :
    s.findNextToRun = (s.readyList.head?, { s with readyList := s.readyList.tail }) := by
  unfold findNextToRun
  simp only [assert_off hl]
  cases hr : s.readyList with
  | nil =>
      have he : { s with readyList := [] } = s := by rw [← hr]
      simp [he]
  | cons t ts => rfl

/-- `Yield` when nobody is ready. -/
theorem yield_nil (h : Inv s) (hr : s.readyList = []) (user : Bool) : s.yield user = s := by
  have hst : (s.stack == s.currentThread) = true := by simp [h.stack]
  unfold yield
  simp only [assert, hst, Bool.and_true]
  rw [findNextToRun_eq rfl]
  have he : { s with readyList := [] } = s := by rw [← hr]
  simp [hr, he]

/-- `Yield` when somebody is ready. -/
theorem yield_cons (h : Inv s) {next : Nat} {rest : List Nat} (hr : s.readyList = next :: rest)
    (hne : s.stack ∉ rest) (user : Bool) :
    s.yield user = { s with
      currentThread := next, stack := next, level := .intOff, mode := .switched
      status := upd (upd s.status s.stack .ready) next .running
      readyList := rest ++ [s.stack]
      point := upd s.point s.stack (.inYield s.level user)
      userRegisters := (s.saveUserState s.currentThread).userRegisters } := by
  have hst : (s.stack == s.currentThread) = true := by simp [h.stack]
  unfold yield
  simp only [assert, hst, Bool.and_true]
  rw [findNextToRun_eq rfl]
  simp only [hr, List.head?_cons, List.tail_cons]
  rw [readyToRun_eq rfl hne, run_eq rfl]
  simp only [saveUserState]
  split <;> rfl

/-- **`Yield` puts its thread on the ready list and takes the front off it.** -/
theorem inv_yield (h : Inv s) {user : Bool} (hp : s.point s.stack = .code user) (u : Bool) :
    Inv (s.yield u) := by
  have hex : (s.point s.stack).executes = true := by rw [hp]; rfl
  obtain ⟨hnr, hnq⟩ := h.executing hex
  cases hr : s.readyList with
  | nil => rw [yield_nil h hr]; exact h
  | cons next rest =>
      rw [hr] at hnr
      have hne : next ≠ s.stack := fun e => hnr (e ▸ List.mem_cons_self)
      have hrest : s.stack ∉ rest := fun hmem => hnr (List.mem_cons_of_mem next hmem)
      have hnd := h.readyNodup
      rw [hr] at hnd
      obtain ⟨hn1, hn2⟩ := List.nodup_cons.mp hnd
      have hnext : (s.point next).waits = true :=
        h.ready next (by rw [hr]; exact List.mem_cons_self)
      have hpt : ∀ t, t ≠ s.stack →
          upd s.point s.stack (.inYield s.level u) t = s.point t := fun t ht => upd_ne _ _ ht
      -- the thread goes to the end of the list, its successor has left the front of it
      rw [yield_cons h hr hrest]
      refine ⟨h.asserts, rfl, ?_, h.queueNodup, ?_, ?_, ?_, ?_, fun he => absurd rfl he,
        fun he => absurd he (by simp), fun he => absurd he (by simp), ?_⟩
      · exact List.concat_eq_append ▸ hn2.concat hrest
      · intro t ht
        show (upd s.point s.stack _ t).waits = true
        by_cases hts : t = s.stack
        · rw [hts, upd_self]; rfl
        · rw [hpt t hts]
          rcases List.mem_append.mp ht with h1 | h1
          · exact h.ready t (by rw [hr]; exact List.mem_cons_of_mem next h1)
          · exact absurd (List.mem_singleton.mp h1) hts
      · intro k t ht
        have hts : t ≠ s.stack := fun e => hnq k (e ▸ ht)
        obtain ⟨⟨old, hpo⟩, hn⟩ := h.queued k t ht
        rw [hr] at hn
        refine ⟨⟨old, (hpt t hts).trans hpo⟩, ?_⟩
        intro hmem
        rcases List.mem_append.mp hmem with h1 | h1
        · exact hn (List.mem_cons_of_mem next h1)
        · exact hts (List.mem_singleton.mp h1)
      · intro t ht
        by_cases hts : t = s.stack
        · rw [hts] at ht
          simp [ThreadPoint.executes] at ht
        · simp only [hpt t hts] at ht
          exact absurd (h.others t ht) hts
      · intro d
        rw [h.doomed d]
        by_cases hds : d = s.stack
        · simp [hds, hp]
        · simp only [hpt d hds]
      · intro _
        refine ⟨rfl, ?_, ?_, ?_⟩
        · show (upd s.point s.stack _ next).waits = true
          rw [hpt next hne]
          exact hnext
        · intro hmem
          rcases List.mem_append.mp hmem with h1 | h1
          · exact hn1 h1
          · exact hne (List.mem_singleton.mp h1)
        · intro k hmem
          exact (h.queued k next hmem).2 (by rw [hr]; exact List.mem_cons_self)

/-- The thread that has the CPU moves on, by itself. -/
theorem Inv.move (h : Inv s) (hm : s.mode ≠ .switched) (hex : (s.point s.stack).executes = true)
    {s' : Sched} {p : ThreadPoint}
    (he : s' = { s with level := s'.level, status := s'.status, machine := s'.machine,
                        userRegisters := s'.userRegisters, space := s'.space, mode := s'.mode,
                        sem := s'.sem, point := upd s.point s.stack p })
    (hq : ∀ k, (s'.sem k).queue = (s.sem k).queue)
    (hp : s'.mode = .running ∧ ((∃ user, p = .code user) ∨
      ∃ k old, p = .inP k old ∧ s'.level = .intOff) ∨
      s'.mode = .idling ∧ s'.level = .intOff ∧ p = .finishing) : Inv s' := by
  obtain ⟨hnr, hnq⟩ := h.executing hex
  have hpx : p.executes = true := by
    rcases hp with ⟨_, ⟨user, rfl⟩ | ⟨k, old, rfl, _⟩⟩ | ⟨_, _, rfl⟩ <;> rfl
  have hself : upd s.point s.stack p s.stack = p := upd_self _ _ _
  rw [he]
  refine ⟨h.asserts, h.stack, h.readyNodup, ?_, ?_, ?_, ?_, ?_, fun _ => h.free hm, ?_, ?_, ?_⟩
  · intro k
    simp only [hq]
    exact h.queueNodup k
  · intro t ht
    have hts : t ≠ s.stack := fun e => hnr (e ▸ ht)
    show (upd s.point s.stack p t).waits = true
    rw [upd_ne _ _ hts]
    exact h.ready t ht
  · intro k t ht
    simp only [hq] at ht
    have hts : t ≠ s.stack := fun e => hnq k (e ▸ ht)
    obtain ⟨⟨old, hpt⟩, hn⟩ := h.queued k t ht
    exact ⟨⟨old, (upd_ne _ _ hts).trans hpt⟩, hn⟩
  · intro t ht
    by_cases hts : t = s.stack
    · exact hts
    · simp only [upd_ne _ _ hts] at ht
      exact h.others t ht
  · intro d
    rw [h.doomed d]
    by_cases hds : d = s.stack
    · rw [hds]
      simp only [hself]
      refine ⟨fun hf => ?_, fun hf => ?_⟩
      · rw [hf] at hex; exact absurd hex (by simp [ThreadPoint.executes])
      · rw [hf] at hpx; exact absurd hpx (by simp [ThreadPoint.executes])
    · simp only [upd_ne _ _ hds]
  · intro hrun
    rcases hp with ⟨_, ⟨user, rfl⟩ | ⟨k, old, rfl, ho⟩⟩ | ⟨hi, _⟩
    · exact Or.inl ⟨user, hself⟩
    · exact Or.inr ⟨k, old, hself, ho⟩
    · exact absurd (hi.symm.trans hrun) (by simp)
  · intro hidle
    rcases hp with ⟨hr, _⟩ | ⟨_, ho, rfl⟩
    · simp only [hr] at hidle
      simp at hidle
    · exact ⟨ho, Or.inl hself⟩
  · intro hsw
    rcases hp with ⟨hr, _⟩ | ⟨hi, _⟩
    · exact absurd (hr.symm.trans hsw) (by simp)
    · exact absurd (hi.symm.trans hsw) (by simp)

theorem sleep_eq (hst : s.stack = s.currentThread) (hl : s.level = .intOff) (p : ThreadPoint) :
    s.sleep p = { s with
      status := upd s.status s.stack .blocked
      point := upd s.point s.stack p
      mode := .idling } := by
  have h1 : s.assert (s.stack == s.currentThread) = s := s.assert_true (by simp [hst])
  unfold sleep
  simp only [h1, assert_off hl]

theorem inv_finish (h : Inv s) {user : Bool} (hm : s.mode = .running)
    (hp : s.point s.stack = .code user) : Inv s.finish := by
  have hoff : assert { s with level := .intOff } (s.stack == s.currentThread)
      = { s with level := .intOff } := assert_true _ (by simp [h.stack])
  unfold finish
  simp only [hoff]
  rw [sleep_eq (s := { s with level := .intOff }) h.stack rfl]
  exact h.move (by rw [hm]; simp) (by rw [hp]; rfl) rfl (fun _ => rfl) (Or.inr ⟨rfl, rfl, rfl⟩)

/-- The head of the loop of `P`: interrupts are off and the thread is in no list. -/
theorem Inv.inP (h : Inv s) (hm : s.mode = .running) {k : Nat} {old : IntStatus}
    (hp : s.point s.stack = .inP k old) :
    s.level = .intOff ∧ s.stack ∉ s.readyList ∧ ∀ k, s.stack ∉ (s.sem k).queue := by
  refine ⟨?_, h.executing (by rw [hp]; rfl)⟩
  rcases h.running hm with ⟨user, hc⟩ | ⟨_, _, _, ho⟩
  · rw [hp] at hc; exact absurd hc (by simp)
  · exact ho

/-- A pass of `P` with nothing on offer. -/
theorem pass_zero (h : Inv s) (hm : s.mode = .running) {k : Nat} {old : IntStatus}
    (hp : s.point s.stack = .inP k old) (hz : (s.sem k).value = 0) :
    s.pass k old = { s with
      sem := upd s.sem k { s.sem k with queue := (s.sem k).queue ++ [s.stack] }
      status := upd s.status s.stack .blocked
      point := upd s.point s.stack (.asleep k old), mode := .idling } := by
  obtain ⟨hl, _, hnq⟩ := h.inP hm hp
  have h1 : s.assert (!(s.sem k).queue.contains s.stack) = s := s.assert_true (by simp [hnq k])
  unfold pass
  rw [Semaphore.P_zero _ hz]
  simp only [Bool.false_eq_true, if_false, h1]
  rw [sleep_eq]
  · exact h.stack
  · exact hl

/-- A pass of `P` with a unit on offer. -/
theorem pass_pos {k : Nat} (hz : (s.sem k).value ≠ 0) (old : IntStatus) :
    s.pass k old = { s with
      sem := upd s.sem k { s.sem k with value := toInt32 ((s.sem k).value - 1) }
      point := upd s.point s.stack (.code false), level := old } := by
  unfold pass
  rw [Semaphore.P_pos _ hz]
  rfl

/-- **A pass of `P`** takes a unit and goes on, or goes to sleep in the queue. -/
theorem inv_pass (h : Inv s) (hm : s.mode = .running) {k : Nat} {old : IntStatus}
    (hp : s.point s.stack = .inP k old) : Inv (s.pass k old) := by
  obtain ⟨hl, hnr, hnq⟩ := h.inP hm hp
  by_cases hz : (s.sem k).value = 0
  · -- nothing on offer: the thread goes to sleep
    have hqueue : ∀ j t, t ∈ (upd s.sem k
        { s.sem k with queue := (s.sem k).queue ++ [s.stack] } j).queue →
        t ∈ (s.sem j).queue ∨ (t = s.stack ∧ j = k) := by
      intro j t ht
      by_cases hj : j = k
      · rw [hj, upd_self] at ht
        rw [hj]
        rcases List.mem_append.mp ht with h1 | h1
        · exact Or.inl h1
        · exact Or.inr ⟨List.mem_singleton.mp h1, rfl⟩
      · rw [upd_ne _ _ hj] at ht
        exact Or.inl ht
    have hself : upd s.point s.stack (.asleep k old) s.stack = .asleep k old := upd_self _ _ _
    rw [pass_zero h hm hp hz]
    refine ⟨h.asserts, h.stack, h.readyNodup, ?_, ?_, ?_, ?_, ?_,
      fun _ => h.free (by rw [hm]; simp),
      fun hr => absurd hr (by simp), fun _ => ⟨hl, Or.inr ⟨k, old, hself⟩⟩,
      fun hs => absurd hs (by simp)⟩
    · intro j
      show (upd s.sem k _ j).queue.Nodup
      by_cases hj : j = k
      · rw [hj, upd_self]
        exact List.concat_eq_append ▸ (h.queueNodup k).concat (hnq k)
      · rw [upd_ne _ _ hj]
        exact h.queueNodup j
    · intro t ht
      have hts : t ≠ s.stack := fun e => hnr (e ▸ ht)
      show (upd s.point s.stack _ t).waits = true
      rw [upd_ne _ _ hts]
      exact h.ready t ht
    · intro j t ht
      rcases hqueue j t ht with h1 | ⟨rfl, rfl⟩
      · have hts : t ≠ s.stack := fun e => hnq j (e ▸ h1)
        obtain ⟨⟨o, hpt⟩, hn⟩ := h.queued j t h1
        exact ⟨⟨o, (upd_ne _ _ hts).trans hpt⟩, hn⟩
      · exact ⟨⟨old, hself⟩, hnr⟩
    · intro t ht
      by_cases hts : t = s.stack
      · exact hts
      · simp only [upd_ne _ _ hts] at ht
        exact h.others t ht
    · intro d
      rw [h.doomed d]
      by_cases hds : d = s.stack
      · simp [hds, hp]
      · simp only [upd_ne _ _ hds]
  · -- a unit is taken, and no queue changes
    rw [pass_pos hz]
    refine h.move (by rw [hm]; simp) (by rw [hp]; rfl) (p := .code false) rfl ?_
      (Or.inl ⟨hm, Or.inl ⟨false, rfl⟩⟩)
    intro j
    show (upd s.sem k _ j).queue = _
    by_cases hj : j = k
    · rw [hj, upd_self]
    · rw [upd_ne _ _ hj]

/-- What the loop of `Sleep` does when it finds a thread. -/
theorem findNext_cases (h : Inv s) (hm : s.mode = .idling) {s' : Sched}
    (hs : s.findNext = some s') : ∃ next rest, s.readyList = next :: rest ∧
      ((s.point s.stack = .finishing ∧ s' = { s with
          currentThread := next, stack := next, readyList := rest, mode := .switched
          status := upd s.status next .running, toBeDestroyed := some s.stack
          point := upd s.point s.stack .finished
          userRegisters := (s.saveUserState s.stack).userRegisters }) ∨
        ((∃ k old, s.point s.stack = .asleep k old) ∧ s' = { s with
          currentThread := next, stack := next, readyList := rest, mode := .switched
          status := upd s.status next .running
          userRegisters := (s.saveUserState s.stack).userRegisters })) := by
  obtain ⟨hl, hp⟩ := h.idling (Or.inl hm)
  have hd : s.toBeDestroyed = none := h.free (by rw [hm]; simp)
  unfold findNext at hs
  rw [findNextToRun_eq hl] at hs
  cases hr : s.readyList with
  | nil => simp [hr] at hs
  | cons next rest =>
      simp only [hr, List.head?_cons, List.tail_cons, Option.some.injEq] at hs
      refine ⟨next, rest, rfl, ?_⟩
      have hsave : ∀ c, (saveUserState { s with currentThread := c, readyList := rest }
          s.stack).userRegisters = (s.saveUserState s.stack).userRegisters := by
        intro c
        simp only [saveUserState]
        split <;> rfl
      rcases hp with hf | ⟨k, old, ha⟩
      · rw [hf] at hs
        simp only [decide_true] at hs
        rw [run_finishing_eq (s := { s with readyList := rest }) hl hd] at hs
        simp only [← h.stack, hsave] at hs
        exact Or.inl ⟨hf, hs.symm⟩
      · rw [ha] at hs
        simp only [reduceCtorEq, decide_false] at hs
        rw [run_eq (s := { s with readyList := rest }) hl] at hs
        simp only [← h.stack, hsave] at hs
        exact Or.inr ⟨⟨k, old, ha⟩, hs.symm⟩

/-- **The loop of `Sleep` finds a thread**, perhaps the one that sleeps. -/
theorem inv_findNext (h : Inv s) (hm : s.mode = .idling) {s' : Sched} (hs : s.findNext = some s') :
    Inv s' := by
  have hl := (h.idling (Or.inl hm)).1
  have hd : s.toBeDestroyed = none := h.free (by rw [hm]; simp)
  obtain ⟨next, rest, hr, hcase⟩ := findNext_cases h hm hs
  have hnd := h.readyNodup
  rw [hr] at hnd
  obtain ⟨hn1, hn2⟩ := List.nodup_cons.mp hnd
  have hmem : next ∈ s.readyList := by rw [hr]; exact List.mem_cons_self
  have hnext := h.ready next hmem
  have hrest : ∀ t ∈ rest, t ∈ s.readyList := fun t ht => by
    rw [hr]; exact List.mem_cons_of_mem next ht
  have hnq : ∀ k, next ∉ (s.sem k).queue := fun k hk => (h.queued k next hk).2 hmem
  rcases hcase with ⟨hf, rfl⟩ | ⟨⟨k, old, ha⟩, rfl⟩
  · -- the thread has finished: it is left to be destroyed
    have hne : next ≠ s.stack := fun e => by
      rw [e, hf] at hnext; exact absurd hnext (by simp [ThreadPoint.waits])
    have hpt : ∀ t, t ≠ s.stack → upd s.point s.stack .finished t = s.point t :=
      fun t ht => upd_ne _ _ ht
    have hw : ∀ t, (s.point t).waits = true → t ≠ s.stack := fun t ht e => by
      rw [e, hf] at ht; exact absurd ht (by simp [ThreadPoint.waits])
    refine ⟨h.asserts, rfl, hn2, h.queueNodup, ?_, ?_, ?_, ?_, fun he => absurd rfl he,
      fun he => absurd he (by simp), fun he => absurd he (by simp), fun _ => ⟨hl, ?_, hn1, hnq⟩⟩
    · intro t ht
      have hwt := h.ready t (hrest t ht)
      show (upd s.point s.stack _ t).waits = true
      rw [hpt t (hw t hwt)]
      exact hwt
    · intro j t ht
      obtain ⟨⟨o, hpo⟩, hn⟩ := h.queued j t ht
      have hts : t ≠ s.stack := hw t (by rw [hpo]; rfl)
      exact ⟨⟨o, (hpt t hts).trans hpo⟩, fun hm => hn (hrest t hm)⟩
    · intro t ht
      by_cases hts : t = s.stack
      · rw [hts] at ht
        simp [ThreadPoint.executes] at ht
      · simp only [hpt t hts] at ht
        exact absurd (h.others t ht) hts
    · intro d
      by_cases hds : d = s.stack
      · simp [hds]
      · have hnf : s.point d ≠ .finished := fun e => by
          have := (h.doomed d).mpr e
          rw [hd] at this
          exact absurd this (by simp)
        simp only [hpt d hds, Option.some.injEq, hnf, iff_false]
        exact fun e => hds e.symm
    · show (upd s.point s.stack _ next).waits = true
      rw [hpt next hne]
      exact hnext
  · -- the thread sleeps on, or is itself the one that was found
    refine ⟨h.asserts, rfl, hn2, h.queueNodup, fun t ht => h.ready t (hrest t ht), ?_, ?_,
      h.doomed, fun he => absurd rfl he, fun he => absurd he (by simp),
      fun he => absurd he (by simp), fun _ => ⟨hl, hnext, hn1, hnq⟩⟩
    · intro j t ht
      obtain ⟨hpo, hn⟩ := h.queued j t ht
      exact ⟨hpo, fun hm => hn (hrest t hm)⟩
    · intro t ht
      have hts := h.others t ht
      rw [hts, ha] at ht
      exact absurd ht (by simp [ThreadPoint.executes])

/-! ### Being given the CPU -/

/-- The points after the finished thread has been deleted. -/
def swept (s : Sched) (t : Nat) : ThreadPoint :=
  if s.point t = .finished then .destroyed else s.point t

theorem swept_of_ne {t : Nat} (ht : s.point t ≠ .finished) : s.swept t = s.point t := by
  rw [swept, if_neg ht]

/-- **The finished thread is deleted**, and it is not the one that runs. -/
theorem checkToBeDestroyed_eq (h : Inv s) (hm : s.mode = .switched) :
    s.checkToBeDestroyed = { s with toBeDestroyed := none, point := s.swept } := by
  unfold checkToBeDestroyed
  cases hd : s.toBeDestroyed with
  | none =>
      have hsw : s.swept = s.point := by
        funext t
        refine swept_of_ne ?_
        intro hf
        have := (h.doomed t).mpr hf
        rw [hd] at this
        exact absurd this (by simp)
      have he : { s with toBeDestroyed := none } = s := by rw [← hd]
      rw [hsw]
      exact he.symm
  | some d =>
      -- the thread that runs was waiting, so it is not the finished one
      have hfin : s.point d = .finished := (h.doomed d).mp hd
      have hw := (h.switched hm).2.1
      have hne : (d != s.currentThread) = true := by
        rw [← h.stack]
        simp only [bne_iff_ne, ne_eq]
        intro e
        rw [← e, hfin] at hw
        exact absurd hw (by simp [ThreadPoint.waits])
      have hsw : s.swept = upd s.point d .destroyed := by
        funext t
        by_cases htd : t = d
        · rw [htd, upd_self, swept, if_pos hfin]
        · rw [upd_ne _ _ htd]
          refine swept_of_ne ?_
          intro hf
          have := (h.doomed t).mpr hf
          rw [hd] at this
          exact htd (Option.some.inj this).symm
      simp only [assert_true s hne, hsw]

theorem restoreUserState_eq (s : Sched) (t : Nat) :
    s.restoreUserState t = { s with machine := (s.restoreUserState t).machine } := by
  unfold restoreUserState
  split <;> rfl

theorem backFromSwitch_eq (h : Inv s) (hm : s.mode = .switched) :
    s.backFromSwitch = { s with toBeDestroyed := none, point := s.swept
                                machine := (s.restoreUserState s.stack).machine } := by
  unfold backFromSwitch
  rw [assert_off (h.switched hm).1, checkToBeDestroyed_eq h hm, restoreUserState_eq]
  simp only [restoreUserState]
  cases s.space s.stack <;> rfl

/-- The thread that was switched to goes on, outside all lists. -/
theorem Inv.resumed (h : Inv s) (hm : s.mode = .switched) {s' : Sched} {p : ThreadPoint}
    (he : s' = { s with level := s'.level, machine := s'.machine, toBeDestroyed := none
                        point := upd s.swept s.stack p, mode := .running })
    (hp : (∃ user, p = .code user) ∨ ∃ k old, p = .inP k old ∧ s'.level = .intOff) : Inv s' := by
  obtain ⟨_, hw, hnr, hnq⟩ := h.switched hm
  have hpx : p.executes = true := by
    rcases hp with ⟨user, rfl⟩ | ⟨k, old, rfl, _⟩ <;> rfl
  have hself : upd s.swept s.stack p s.stack = p := upd_self _ _ _
  have hwait : ∀ t, t ≠ s.stack → (s.point t).waits = true →
      upd s.swept s.stack p t = s.point t := by
    intro t hts hwt
    rw [upd_ne _ _ hts]
    refine swept_of_ne ?_
    intro hf
    rw [hf] at hwt
    exact absurd hwt (by simp [ThreadPoint.waits])
  rw [he]
  refine ⟨h.asserts, h.stack, h.readyNodup, h.queueNodup, ?_, ?_, ?_, ?_, fun _ => rfl, ?_,
    fun hi => absurd hi (by simp), fun hs => absurd hs (by simp)⟩
  · intro t ht
    have hts : t ≠ s.stack := fun e => hnr (e ▸ ht)
    have hwt := h.ready t ht
    show (upd s.swept s.stack p t).waits = true
    rw [hwait t hts hwt]
    exact hwt
  · intro k t ht
    have hts : t ≠ s.stack := fun e => hnq k (e ▸ ht)
    obtain ⟨⟨old, hpt⟩, hn⟩ := h.queued k t ht
    exact ⟨⟨old, (hwait t hts (by rw [hpt]; rfl)).trans hpt⟩, hn⟩
  · intro t ht
    by_cases hts : t = s.stack
    · exact hts
    · simp only [upd_ne _ _ hts, swept] at ht
      split at ht
      · exact absurd ht (by simp [ThreadPoint.executes])
      · exact h.others t ht
  · intro d
    simp only [reduceCtorEq, false_iff]
    intro hf
    by_cases hds : d = s.stack
    · rw [hds, hself] at hf
      rw [hf] at hpx
      exact absurd hpx (by simp [ThreadPoint.executes])
    · simp only [upd_ne _ _ hds, swept] at hf
      split at hf
      · exact absurd hf (by simp)
      · rename_i hne; exact hne hf
  · intro _
    rcases hp with ⟨user, rfl⟩ | ⟨k, old, rfl, ho⟩
    · exact Or.inl ⟨user, hself⟩
    · exact Or.inr ⟨k, old, hself, ho⟩

/-- What the thread that was switched to does: it begins, or comes back from `Run`. -/
theorem resume_cases (h : Inv s) (hm : s.mode = .switched) {s' : Sched} (hs : s.resume = some s') :
    (s.point s.stack = .begin ∧ s' = { s with
        toBeDestroyed := none, level := .intOn, mode := .running
        point := upd s.swept s.stack (.code false) }) ∨
      ∃ p, ((∃ old user, s.point s.stack = .inYield old user ∧ p = .code user) ∨
          (∃ k old, s.point s.stack = .asleep k old ∧ p = .inP k old ∧ s'.level = .intOff)) ∧
        s' = { s with
          toBeDestroyed := none, level := s'.level, mode := .running, point := upd s.swept s.stack p
          machine := (s.restoreUserState s.stack).machine } := by
  have hl := (h.switched hm).1
  unfold resume at hs
  split at hs
  · rename_i hp
    have h1 : s.assert (s.stack == s.currentThread) = s := s.assert_true (by simp [h.stack])
    rw [h1, checkToBeDestroyed_eq h hm] at hs
    exact Or.inl ⟨hp, (Option.some.inj hs).symm⟩
  · rename_i old user hp
    rw [backFromSwitch_eq h hm] at hs
    have hs' := Option.some.inj hs
    subst hs'
    exact Or.inr ⟨.code user, Or.inl ⟨old, user, hp, rfl⟩, rfl⟩
  · rename_i k old hp
    rw [backFromSwitch_eq h hm] at hs
    have hs' := Option.some.inj hs
    subst hs'
    exact Or.inr ⟨.inP k old, Or.inr ⟨k, old, hp, rfl, hl⟩, rfl⟩
  · exact absurd hs (by simp)

theorem inv_resume (h : Inv s) (hm : s.mode = .switched) {s' : Sched} (hs : s.resume = some s') :
    Inv s' := by
  rcases resume_cases h hm hs with ⟨_, rfl⟩ | ⟨p, hp, he⟩
  · exact h.resumed hm rfl (Or.inl ⟨false, rfl⟩)
  · refine h.resumed hm (p := p) (by rw [he]) ?_
    rcases hp with ⟨_, user, _, rfl⟩ | ⟨k, old, _, rfl, ho⟩
    · exact Or.inl ⟨user, rfl⟩
    · exact Or.inr ⟨k, old, rfl, ho⟩

/-! ### All steps -/

/-- After the handlers, with interrupts on again, the thread is where it was. -/
theorem inv_ticked (h : Inv s) {user : Bool} (hm : s.mode = .running)
    (hp : s.point s.stack = .code user) (vs : List Nat) :
    Inv { handlers { s with level := .intOff } vs with level := .intOn } ∧
      (handlers { s with level := .intOff } vs).point
        (handlers { s with level := .intOff } vs).stack = .code user := by
  have hoff : Inv { s with level := .intOff } := h.congr rfl (Or.inl rfl)
  have hh := inv_handlers hoff rfl (by rw [hm]; simp) vs
  obtain ⟨_, g2, _, _, g5, g6, _⟩ := foldl_semV_frame vs
    { s with level := .intOff, machine := s.machine.delayedLoad 0#32 0#32 }
  have hpoint : (handlers { s with level := .intOff } vs).point
      (handlers { s with level := .intOff } vs).stack = .code user := by
    unfold handlers
    rw [g5, g2]
    exact hp
  exact ⟨hh.congr rfl (Or.inr (Or.inr ⟨g6.trans hm, user, hpoint⟩)), hpoint⟩

theorem inv_oneTick (h : Inv s) {user : Bool} (hm : s.mode = .running)
    (hp : s.point s.stack = .code user) (fired : Option (List Nat × Bool)) :
    Inv (s.oneTick user fired) := by
  match fired with
  | none => exact h
  | some (vs, y) =>
      -- the thread may yield from where it was
      obtain ⟨hon, hpoint⟩ := inv_ticked h hm hp vs
      simp only [oneTick]
      split
      · exact inv_yield hon hpoint user
      · exact hon

/-- The steps of ordinary code, in user or in system mode. -/
inductive CodeStep (s : Sched) (user : Bool) : Sched → Prop where
  | oneTick (fired : Option (List Nat × Bool)) : CodeStep s user (s.oneTick user fired)
  | raise (bad : BitVec 32) : CodeStep s user { s with
      machine := (s.machine.writeRegister badVAddrReg bad).delayedLoad 0#32 0#32
      point := upd s.point s.stack (.code false) }
  | instruction (r : Nat → BitVec 32) (hu : user = true) :
      CodeStep s user { s with machine := { s.machine with registers := r } }
  | fork (t : Nat) (ht : s.point t = .justCreated) (hu : user = false) : CodeStep s user (s.fork t)
  | yield (hu : user = false) : CodeStep s user (s.yield false)
  | P (k : Nat) (hu : user = false) : CodeStep s user (s.callP k)
  | V (k : Nat) (hu : user = false) : CodeStep s user (s.callV k)
  | finish (hu : user = false) : CodeStep s user s.finish
  | setLevel (now : IntStatus) (hu : user = false) : CodeStep s user { s with level := now }
  | userMode (hsp : (s.space s.stack).isSome = true) (hu : user = false) :
      CodeStep s user { s with point := upd s.point s.stack (.code true) }
  | writeRegister (num : Nat) (value : BitVec 32) (hk : kernelWrites num = true)
      (hu : user = false) : CodeStep s user { s with machine := s.machine.writeRegister num value }
  | execute (sp : Space) (hsp : (s.space s.stack).isNone = true) (hu : user = false) :
      CodeStep s user (s.execute sp)

theorem codeStep_cases {user : Bool} {c : SchedCall} {s' : Sched}
    (hs : s.codeStep user c = some s') : CodeStep s user s' := by
  unfold codeStep at hs
  cases c <;> simp only [Option.ite_none_right_eq_some, Option.some.injEq, Bool.and_eq_true,
    Bool.not_eq_true', decide_eq_true_eq, reduceCtorEq] at hs
  case oneTick fired => exact hs.2 ▸ .oneTick fired
  case raise bad => exact hs ▸ .raise bad
  case instruction r => exact hs.2 ▸ .instruction r hs.1
  case fork t => exact hs.2 ▸ .fork t hs.1.2 hs.1.1
  case yield => exact hs.2 ▸ .yield hs.1
  case P k => exact hs.2 ▸ .P k hs.1
  case V k => exact hs.2 ▸ .V k hs.1
  case finish => exact hs.2 ▸ .finish hs.1
  case setLevel now => exact hs.2 ▸ .setLevel now hs.1
  case userMode => exact hs.2 ▸ .userMode hs.1.2 hs.1.1
  case writeRegister num value => exact hs.2 ▸ .writeRegister num value hs.1.2 hs.1.1
  case execute sp => exact hs.2 ▸ .execute sp hs.1.2 hs.1.1

theorem inv_codeStep (h : Inv s) {user : Bool} (hm : s.mode = .running)
    (hp : s.point s.stack = .code user) {s' : Sched} (hs : CodeStep s user s') : Inv s' := by
  have hns : s.mode ≠ .switched := by rw [hm]; simp
  have hex : (s.point s.stack).executes = true := by rw [hp]; rfl
  cases hs with
  | oneTick fired => exact inv_oneTick h hm hp fired
  | raise bad => exact h.move hns hex rfl (fun _ => rfl) (Or.inl ⟨hm, Or.inl ⟨false, rfl⟩⟩)
  | instruction r _ => exact h.congr rfl (Or.inr (Or.inl rfl))
  | fork t ht _ => exact inv_fork h hm hp ht
  | yield _ => exact inv_yield h hp false
  | P k _ =>
      exact h.move hns hex rfl (fun _ => rfl) (Or.inl ⟨hm, Or.inr ⟨k, s.level, rfl, rfl⟩⟩)
  | V k _ => exact inv_callV h hm hp k
  | finish _ => exact inv_finish h hm hp
  | setLevel now _ => exact h.congr rfl (Or.inr (Or.inr ⟨hm, user, hp⟩))
  | userMode _ _ => exact h.move hns hex rfl (fun _ => rfl) (Or.inl ⟨hm, Or.inl ⟨true, rfl⟩⟩)
  | writeRegister num value _ _ => exact h.congr rfl (Or.inr (Or.inl rfl))
  | execute sp _ _ => exact h.move hns hex rfl (fun _ => rfl) (Or.inl ⟨hm, Or.inl ⟨true, rfl⟩⟩)

/-- **Every step keeps the invariant.** -/
theorem inv_step (h : Inv s) {c : SchedCall} {s' : Sched} (hs : s.step c = some s') : Inv s' := by
  unfold step at hs
  cases hm : s.mode with
  | running =>
      simp only [hm] at hs
      split at hs
      · rename_i user hp
        exact inv_codeStep h hm hp (codeStep_cases hs)
      · rename_i k old hp
        exact Option.some.inj hs ▸ inv_pass h hm hp
      · exact absurd hs (by simp)
  | idling =>
      obtain ⟨hl, hp⟩ := h.idling (Or.inl hm)
      simp only [hm] at hs
      split at hs
      · exact inv_findNext h hm hs
      · simp only [Option.ite_none_right_eq_some, Option.some.injEq] at hs
        obtain ⟨_, rfl⟩ := hs
        exact inv_handlers h hl (by rw [hm]; simp) _
      · simp only [Option.ite_none_right_eq_some, Option.some.injEq] at hs
        obtain ⟨_, rfl⟩ := hs
        exact ⟨h.asserts, h.stack, h.readyNodup, h.queueNodup, h.ready, h.queued,
          h.others, h.doomed,
          fun _ => h.free (by rw [hm]; simp), fun hr => absurd hr (by simp), fun _ => ⟨hl, hp⟩,
          fun hr => absurd hr (by simp)⟩
      · exact absurd hs (by simp)
  | switched =>
      simp only [hm] at hs
      split at hs
      · exact inv_resume h hm hs
      · exact absurd hs (by simp)
  | halted => simp [hm] at hs

end Steps

theorem inv_reachable {s : Sched} (h : sys.Reachable s) : Inv s :=
  h.invariant (I := Inv) (fun _ hb => inv_boot hb) (fun _ _ _ _ hI _ hst => inv_step hI hst)

/-! ## What it says -/

/-- What is promised at every moment. -/
structure Sound (s : Sched) : Prop where
  /-- A thread occurs at most once on the ready list and in all queues together. -/
  once : ∀ t, s.readyList.count t ≤ 1 ∧ (∀ k, (s.sem k).queue.count t ≤ 1) ∧
    (t ∈ s.readyList → ∀ k, t ∉ (s.sem k).queue) ∧
    ∀ j k, t ∈ (s.sem j).queue → t ∈ (s.sem k).queue → j = k
  /-- A thread that executes outside the loop of `Sleep` occurs in none of them. -/
  executing : s.mode = .running ∨ s.mode = .switched →
    s.currentThread ∉ s.readyList ∧ ∀ k, s.currentThread ∉ (s.sem k).queue
  /-- Nor does a thread that has called `Finish`. -/
  finished : ∀ t, s.point t = .finishing ∨ (s.point t).isOver = true →
    t ∉ s.readyList ∧ ∀ k, t ∉ (s.sem k).queue
  /-- Such a thread has the CPU only as long as it has not given it away. -/
  gone : ∀ t, (s.point t).isOver = true → t ≠ s.currentThread
  /-- At most one thread waits to be destroyed, -/
  awaiting : ∀ d, s.point d = .finished ↔ s.toBeDestroyed = some d
  /-- and none does when a thread is in a position to call `Finish`. -/
  cleared : s.mode = .running → s.toBeDestroyed = none
  /-- No assertion has failed. -/
  asserts : s.asserts = true

theorem Inv.notOver {s : Sched} (h : Inv s) {t : Nat} (ht : (s.point t).isOver = true) :
    t ≠ s.stack := by
  intro e
  rw [e] at ht
  cases hm : s.mode with
  | running =>
      rcases h.running hm with ⟨user, hp⟩ | ⟨k, old, hp, _⟩ <;>
        simp [hp, ThreadPoint.isOver] at ht
  | idling =>
      rcases (h.idling (Or.inl hm)).2 with hp | ⟨k, old, hp⟩ <;> simp [hp, ThreadPoint.isOver] at ht
  | halted =>
      rcases (h.idling (Or.inr hm)).2 with hp | ⟨k, old, hp⟩ <;> simp [hp, ThreadPoint.isOver] at ht
  | switched =>
      have hw := (h.switched hm).2.1
      cases hp : s.point s.stack <;> simp [hp, ThreadPoint.isOver, ThreadPoint.waits] at ht hw

theorem Inv.sound {s : Sched} (h : Inv s) : Sound s where
  once := by
    intro t
    refine ⟨List.nodup_iff_count_le_one.mp h.readyNodup t,
      fun k => List.nodup_iff_count_le_one.mp (h.queueNodup k) t,
      fun hr k hq => (h.queued k t hq).2 hr, ?_⟩
    intro j k hj hk
    obtain ⟨⟨o, hp⟩, _⟩ := h.queued j t hj
    obtain ⟨⟨o', hp'⟩, _⟩ := h.queued k t hk
    rw [hp] at hp'
    exact (ThreadPoint.asleep.inj hp').1
  executing := by
    intro hm
    rw [← h.stack]
    rcases hm with hm | hm
    · refine h.executing ?_
      rcases h.running hm with ⟨user, hp⟩ | ⟨k, old, hp, _⟩ <;> rw [hp] <;> rfl
    · exact (h.switched hm).2.2
  finished := by
    intro t ht
    refine ⟨fun hr => ?_, fun k hq => ?_⟩
    · have hw := h.ready t hr
      rcases ht with hp | hp
      · simp [hp, ThreadPoint.waits] at hw
      · cases hpt : s.point t <;> simp [hpt, ThreadPoint.isOver, ThreadPoint.waits] at hp hw
    · obtain ⟨⟨o, hpo⟩, _⟩ := h.queued k t hq
      rcases ht with hp | hp <;> simp [hpo, ThreadPoint.isOver] at hp
  gone := by
    intro t ht
    rw [← h.stack]
    exact h.notOver ht
  awaiting := fun d => (h.doomed d).symm
  cleared := fun hm => h.free (by rw [hm]; simp)
  asserts := h.asserts

section Over

variable {s : Sched} {t : Nat}

/-- The point of the thread that has the CPU may change, not that of one that is over. -/
theorem over_upd (h : Inv s) (ht : (s.point t).isOver = true) (p : ThreadPoint) :
    (upd s.point s.stack p t).isOver = true := by
  rw [upd_ne _ _ (h.notOver ht)]
  exact ht

theorem over_yield (h : Inv s) {u : Bool} (hp : s.point s.stack = .code u)
    (ht : (s.point t).isOver = true) (user : Bool) : ((s.yield user).point t).isOver = true := by
  cases hr : s.readyList with
  | nil => rw [yield_nil h hr]; exact ht
  | cons next rest =>
      have hnr := (h.executing (t := s.stack) (by rw [hp]; rfl)).1
      rw [hr] at hnr
      rw [yield_cons h hr (fun hm => hnr (List.mem_cons_of_mem next hm))]
      exact over_upd h ht _

theorem over_codeStep (h : Inv s) {user : Bool} (hm : s.mode = .running)
    (hp : s.point s.stack = .code user) (ht : (s.point t).isOver = true) {s' : Sched}
    (hs : CodeStep s user s') : (s'.point t).isOver = true := by
  cases hs with
  | oneTick fired =>
      match fired with
      | none => exact ht
      | some (vs, y) =>
          have hI := inv_oneTick h hm hp (some (vs, false))
          obtain ⟨_, g2, _, _, g5, _⟩ := foldl_semV_frame vs
            { s with level := .intOff, machine := s.machine.delayedLoad 0#32 0#32 }
          have ht' : ((handlers { s with level := .intOff } vs).point t).isOver = true := by
            simp only [handlers]
            rw [g5]
            exact ht
          simp only [oneTick]
          split
          · refine over_yield (u := user) hI ?_ ht' user
            simp only [oneTick, Bool.false_eq_true, if_false, handlers]
            rw [g5, g2]
            exact hp
          · exact ht'
  | raise bad => exact over_upd h ht _
  | instruction r _ => exact ht
  | fork u hu _ =>
      have hne : t ≠ u := fun e => by
        rw [e, hu] at ht
        exact absurd ht (by simp [ThreadPoint.isOver])
      show (upd s.point u .begin t).isOver = true
      rw [upd_ne _ _ hne]
      exact ht
  | yield _ => exact over_yield h hp ht false
  | P k _ => exact over_upd h ht _
  | V k _ =>
      simp only [callV]
      rw [(semV_frame { s with level := .intOff } k).2.2.2.2.1]
      exact ht
  | finish _ => exact over_upd h ht _
  | setLevel now _ => exact ht
  | userMode _ _ => exact over_upd h ht _
  | writeRegister num value _ _ => exact ht
  | execute sp _ _ => exact over_upd h ht _

/-- **A thread that is over stays so.** -/
theorem over_step (h : Inv s) (ht : (s.point t).isOver = true) {c : SchedCall} {s' : Sched}
    (hs : s.step c = some s') : (s'.point t).isOver = true := by
  unfold step at hs
  cases hm : s.mode with
  | running =>
      simp only [hm] at hs
      split at hs
      · rename_i user hp
        exact over_codeStep h hm hp ht (codeStep_cases hs)
      · rename_i k old hp
        have hs' := Option.some.inj hs
        subst hs'
        by_cases hz : (s.sem k).value = 0
        · rw [pass_zero h hm hp hz]
          exact over_upd h ht _
        · rw [pass_pos hz]
          exact over_upd h ht _
      · exact absurd hs (by simp)
  | idling =>
      simp only [hm] at hs
      split at hs
      · obtain ⟨next, rest, _, ⟨_, rfl⟩ | ⟨_, rfl⟩⟩ := findNext_cases h hm hs
        · exact over_upd h ht _
        · exact ht
      · simp only [Option.ite_none_right_eq_some, Option.some.injEq] at hs
        obtain ⟨_, rfl⟩ := hs
        simp only [handlers]
        rw [(foldl_semV_frame _ _).2.2.2.2.1]
        exact ht
      · simp only [Option.ite_none_right_eq_some, Option.some.injEq] at hs
        obtain ⟨_, rfl⟩ := hs
        exact ht
      · exact absurd hs (by simp)
  | switched =>
      have hover : ∀ p, (upd s.swept s.stack p t).isOver = true := by
        intro p
        rw [upd_ne _ _ (h.notOver ht), swept]
        split
        · rfl
        · exact ht
      simp only [hm] at hs
      split at hs
      · rcases resume_cases h hm hs with ⟨_, rfl⟩ | ⟨p, _, he⟩
        · exact hover _
        · rw [he]
          exact hover p
      · exact absurd hs (by simp)
  | halted => simp [hm] at hs

end Over

/--
**Scheduler integrity.**

In every reachable state each thread is in at most one place, the running thread and
finished threads are in none, at most one finished thread waits to be destroyed and none
does while another could finish, and no assertion has failed. A thread that has finished
does not run again, whatever happens next.
-/
theorem scheduler_sound (s : Sched) (h : sys.Reachable s) :
    Sound s ∧ ∀ t, (s.point t).isOver = true → ∀ cs s', sys.run s cs = some s' →
      (s'.point t).isOver = true ∧ t ≠ s'.currentThread := by
  have hI := inv_reachable h
  refine ⟨hI.sound, ?_⟩
  intro t ht cs s' hr
  have hrun :=
    Base.System.run_invariant (M := sys) (I := fun s => Inv s ∧ (s.point t).isOver = true)
    (fun s c s' hs hst => ⟨inv_step hs.1 hst, over_step hs.1 hs.2 hst⟩) cs ⟨hI, ht⟩ hr
  exact ⟨hrun.2, hrun.1.sound.gone t hrun.2⟩

/-- The kernel as it starts, with every semaphore at 0. -/
def boot : Sched where
  currentThread := 0
  stack := 0
  level := .intOn
  readyList := []
  toBeDestroyed := none
  sem := fun _ => Semaphore.new 0
  point := fun t => if t = 0 then .code false else .justCreated
  status := fun t => if t = 0 then .running else .justCreated
  mode := .running
  machine := ⟨fun _ => 0#32, none, 0⟩
  userRegisters := fun _ _ => 0#32
  space := fun _ => none
  asserts := true

theorem boot_init : sys.init boot :=
  ⟨rfl, rfl, rfl, fun _ => rfl, fun _ => rfl, rfl, fun _ => rfl, rfl⟩

/-- The main thread forks another, sleeps, is woken by it and runs again when it has
finished; then it sleeps alone until an interrupt handler wakes it in the loop of `Sleep`. -/
theorem scheduler_sound_self_wake :
    ∃ s, sys.Reachable s ∧ s.point 1 = .destroyed ∧ s.point 0 = .inP 7 .intOn ∧ Sound s := by
  have hrun : ∃ s, sys.run boot [.fork 1, .P 3, .pass, .findNext, .resume, .V 3, .finish, .findNext,
      .resume, .pass, .P 7, .pass, .idle [7], .findNext, .resume] = some s ∧
        s.point 1 = .destroyed ∧ s.point 0 = .inP 7 .intOn :=
    ⟨_, rfl, by decide, by decide⟩
  obtain ⟨s, hs, h1, h0⟩ := hrun
  have hr := Base.System.Reachable.of_run boot_init hs
  exact ⟨s, hr, h1, h0, (scheduler_sound s hr).1⟩

end Sched

end Nachos
