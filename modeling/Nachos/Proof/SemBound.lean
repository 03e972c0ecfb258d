import Nachos.Proof.Names

/-!
# How many `Wait`s a user semaphore lets through

`CreateSemaphore` hands the user's `semval` to the semaphore as it is, and `P` blocks
only at zero. A semaphore that starts below zero therefore never blocks anybody until
its value has wrapped round, and one that is signalled at the largest `int` is below
zero from then on. Between those two the count is exact: the value is `semval` plus
the `Signal`s less the `Wait`s that came back.

The record kept beside the table counts, for each name, the calls that found it.
-/

namespace Nachos

open Base (upd upd_self upd_ne upd_apply)

/-- What has been done to each name so far. -/
structure SemLog where
  /-- The `semval` of the `CreateSemaphore` that returned 0. -/
  semval : CString → Option Int
  /-- `Wait`s that returned 0. -/
  waited : CString → Nat
  /-- `Signal`s that found the name. -/
  signalled : CString → Nat

namespace SemLog

/-- Nothing yet. -/
def blank : SemLog := ⟨fun _ => none, fun _ => 0, fun _ => 0⟩

/-- The record after the step `l` from `s` to `s'`, of which thread `l.1` returned 0 or not. -/
def note (s : STableState) (l : Nat × STableCall) (s' : STableState) (h : SemLog) : SemLog :=
  if s'.pc l.1 = .out (some 0) then
    match s.pc l.1, l.2 with
    | .out _, .create name init => { h with semval := upd h.semval name (some init) }
    | .out _, .signal name => { h with signalled := upd h.signalled name (h.signalled name + 1) }
    | .waiting i, .go =>
        { h with waited := upd h.waited (s.tab.nameAt i) (h.waited (s.tab.nameAt i) + 1) }
    | _, _ => h
  else h

end SemLog

namespace STableState

/-- The runs of the table, with the record beside them. -/
def logged : Base.System (STableState × SemLog) (Nat × STableCall) := sys.record .blank SemLog.note

theorem logged_init : logged.init (start, .blank) := ⟨rfl, rfl⟩

/-- The promise about the semaphore of that name. -/
def Bounded (name : CString) (p : STableState × SemLog) : Prop :=
  ∀ semval, p.2.semval name = some semval →
    (p.2.waited name : Int) ≤ max semval 0 + p.2.signalled name ∧
      ∃ q, p.1.tab.lookup name = some q ∧ 0 ≤ q.value

/-- The semaphore of that name is not created below zero, nor signalled at the largest `int`. -/
def InRange (name : CString) (s : STableState) (l : Nat × STableCall) : Prop :=
  match l.2 with
  | .create n semval =>
      n = name → s.tab.find n = none → 0 < s.tab.bm.numClear → 0 ≤ semval ∧ semval ≤ intMax
  | .signal n => n = name → ∀ q ∈ s.tab.lookup n, q.value < intMax
  | _ => True

instance (name : CString) (s : STableState) (l : Nat × STableCall) :
    Decidable (InRange name s l) :=
  match l with
  | (_, .create n v) => inferInstanceAs (Decidable (n = name → s.tab.find n = none →
      0 < s.tab.bm.numClear → 0 ≤ v ∧ v ≤ intMax))
  | (_, .signal n) =>
      inferInstanceAs (Decidable (n = name → ∀ q ∈ s.tab.lookup n, q.value < intMax))
  | (_, .wait _) => inferInstanceAs (Decidable True)
  | (_, .go) => inferInstanceAs (Decidable True)

/-- The count behind the promise. -/
structure Counted (name : CString) (p : STableState × SemLog) : Prop where
  inv : p.1.Inv
  /-- Nothing has been done to a name that is not there. -/
  absent : p.1.tab.lookup name = none →
    p.2.semval name = none ∧ p.2.waited name = 0 ∧ p.2.signalled name = 0
  /-- The value of one that is there is what the record makes it. -/
  present : ∀ q, p.1.tab.lookup name = some q → ∃ semval, p.2.semval name = some semval ∧
    0 ≤ semval ∧ q.value = semval + p.2.signalled name - p.2.waited name ∧
    0 ≤ q.value ∧ q.value ≤ intMax

theorem Counted.bounded {name : CString} {p : STableState × SemLog} (h : Counted name p) :
    Bounded name p := by
  intro semval hs
  cases hq : p.1.tab.lookup name with
  | none =>
      rw [(h.absent hq).1] at hs
      exact absurd hs (by simp)
  | some q =>
      obtain ⟨v, hv, hv0, heq, hn, _⟩ := h.present q hq
      rw [hv] at hs
      cases hs
      exact ⟨by omega, q, rfl, hn⟩

theorem counted_start (name : CString) : Counted name (start, .blank) := by
  have hl : start.tab.lookup name = none := congrFun (congrArg NamedSems.sem named_start) name
  exact ⟨inv_start, fun _ => ⟨rfl, rfl, rfl⟩, fun q hq => absurd (hl.symm.trans hq) (by simp)⟩

/-- A step that does nothing to the name, nor to what is recorded of it. -/
theorem Counted.other {name : CString} {p q : STableState × SemLog} (h : Counted name p)
    (hi : q.1.Inv) (hl : q.1.tab.lookup name = p.1.tab.lookup name)
    (hv : q.2.semval name = p.2.semval name) (hw : q.2.waited name = p.2.waited name)
    (hg : q.2.signalled name = p.2.signalled name) : Counted name q := by
  refine ⟨hi, ?_, ?_⟩
  · intro hn
    rw [hv, hw, hg]
    exact h.absent (hl.symm.trans hn)
  · intro x hx
    rw [hv, hw, hg]
    exact h.present x (hl.symm.trans hx)

/-- A step that changes the semaphore of `n`, or makes it, and what is recorded of `n`. -/
theorem Counted.changed {name n : CString} {p q : STableState × SemLog} (h : Counted name p)
    (hi : q.1.Inv) {x : Semaphore} (hl : q.1.tab.lookup = upd p.1.tab.lookup n (some x))
    (hrest : ∀ m, m ≠ n → q.2.semval m = p.2.semval m ∧ q.2.waited m = p.2.waited m ∧
      q.2.signalled m = p.2.signalled m)
    (hn : n = name → ∃ semval, q.2.semval n = some semval ∧ 0 ≤ semval ∧
      x.value = semval + q.2.signalled n - q.2.waited n ∧ 0 ≤ x.value ∧ x.value ≤ intMax) :
    Counted name q := by
  by_cases he : n = name
  · subst he
    have hx : q.1.tab.lookup n = some x := by rw [hl, upd_self]
    refine ⟨hi, ?_, ?_⟩
    · intro hnone
      exact absurd (hx.symm.trans hnone) (by simp)
    · intro y hy
      rw [← Option.some.inj (hx.symm.trans hy)]
      exact hn rfl
  · obtain ⟨hv, hw, hg⟩ := hrest name (Ne.symm he)
    refine h.other hi ?_ hv hw hg
    rw [hl, upd_ne _ _ (Ne.symm he)]

section Step

variable {name : CString} {s : STableState} {h : SemLog} {t : Nat}

/-- A call that is refused changes nothing and is not recorded. -/
theorem counted_refused (hc : Counted name (s, h)) (call : STableCall) :
    Counted name (s.leave t (-1, s.tab), .note s (t, call) (s.leave t (-1, s.tab)) h) := by
  have hnote : SemLog.note s (t, call) (s.leave t (-1, s.tab)) h = h := by
    rw [SemLog.note, if_neg]
    simp [leave]
  rw [hnote]
  exact hc.other (leave_same hc.inv t (-1)).1 rfl rfl rfl rfl

theorem counted_create (hc : Counted name (s, h)) {r : Option Int} (hpc : s.pc t = .out r)
    {n : CString} {init : Int} (hg : InRange name s (t, .create n init)) :
    Counted name (s.leave t (s.tab.create n init),
      .note s (t, .create n init) (s.leave t (s.tab.create n init)) h) := by
  have hinv := (create_named hc.inv t n init).1
  rw [STable.create] at hinv ⊢
  cases hf : s.tab.find n with
  | some i => exact counted_refused hc _
  | none =>
      cases hb : s.tab.bm.clearBits with
      | nil =>
          have hfull : s.tab.bm.findAndSet.1 < 0 := by
            rw [Bitmap.findAndSet_eq, hb]; exact Int.negSucc_lt_zero 0
          simp only [hfull, if_true]
          exact counted_refused hc _
      | cons j js =>
          have hroom : ¬ s.tab.bm.findAndSet.1 < 0 := by
            rw [Bitmap.findAndSet_eq, hb]; simp
          rw [hf] at hinv
          simp only [hroom, if_false] at hinv ⊢
          have hlook : (s.tab.put n init).lookup = _ := STable.lookup_put hc.inv.table hf hb
          have hnote : SemLog.note s (t, .create n init) (s.leave t (0, s.tab.put n init)) h
              = { h with semval := upd h.semval n (some init) } := by
            simp [SemLog.note, leave, hpc]
          rw [hnote]
          refine hc.changed hinv hlook (fun m hm => ⟨upd_ne _ _ hm, rfl, rfl⟩) ?_
          -- a new semaphore: nothing has been done to it yet
          rintro rfl
          have hnone : s.tab.lookup n = none := by rw [STable.lookup, hf]; rfl
          obtain ⟨hv0, hv1⟩ := hg rfl hf (by rw [Bitmap.numClear_eq, hb]; simp)
          obtain ⟨_, hw, hgn⟩ := hc.absent hnone
          refine ⟨init, upd_self _ _ _, hv0, ?_, hv0, hv1⟩
          simp only at hw hgn ⊢
          rw [hw, hgn, Semaphore.new]
          simp

theorem counted_wait (hc : Counted name (s, h)) {r : Option Int} (hpc : s.pc t = .out r)
    (n : CString) : Counted name (s.wait t n, .note s (t, .wait n) (s.wait t n) h) := by
  have hnote : SemLog.note s (t, .wait n) (s.wait t n) h = h := by
    rw [SemLog.note, hpc]
    split <;> rfl
  have htab : (s.wait t n).tab = s.tab := by
    rw [wait]
    split <;> rfl
  rw [hnote]
  exact hc.other (wait_named hc.inv t n).1 (by simp only [htab]) rfl rfl rfl

/-- **`V` below the largest `int` keeps the count.** -/
theorem counted_signal (hc : Counted name (s, h)) {r : Option Int} (hpc : s.pc t = .out r)
    {n : CString} (hg : InRange name s (t, .signal n)) :
    Counted name (s.leave t (s.tab.signal n),
      .note s (t, .signal n) (s.leave t (s.tab.signal n)) h) := by
  have hinv := (signal_named hc.inv t n).1
  rw [STable.signal] at hinv ⊢
  cases hf : s.tab.find n with
  | none => exact counted_refused hc _
  | some i =>
      rw [hf] at hinv
      obtain ⟨hi, hb, hni⟩ := STable.find_some hf
      have hlook := STable.lookup_setSem hc.inv.table hi hb (s.tab.semAt i).V.1
      have hnote : SemLog.note s (t, .signal n)
          (s.leave t (0, s.tab.setSem i (s.tab.semAt i).V.1)) h
          = { h with signalled := upd h.signalled n (h.signalled n + 1) } := by
        simp [SemLog.note, leave, hpc]
      simp only
      rw [hnote]
      rw [hni] at hlook
      refine hc.changed hinv hlook (fun m hm => ⟨rfl, rfl, upd_ne _ _ hm⟩) ?_
      rintro rfl
      have hsome : s.tab.lookup n = some (s.tab.semAt i) := by rw [STable.lookup, hf]; rfl
      obtain ⟨v, hv, hv0, heq, h0, hmax⟩ := hc.present _ hsome
      have hlt := hg rfl _ hsome
      have hval : toInt32 ((s.tab.semAt i).value + 1) = (s.tab.semAt i).value + 1 :=
        toInt32_of_range (by omega) (by omega)
      refine ⟨v, hv, hv0, ?_⟩
      simp only [Semaphore.V, upd_self, hval] at heq ⊢
      push_cast
      omega

/-- **A pass of `P` keeps the count**: it comes back only with a unit it took. -/
theorem counted_pass (hc : Counted name (s, h)) {i : Nat} (hpc : s.pc t = .waiting i)
    {s' : STableState} (hs : s.pass t i = some s') :
    Counted name (s', .note s (t, .go) s' h) := by
  have hinv := (pass_named hc.inv hpc).1 s' hs
  obtain ⟨hi, hb⟩ := hc.inv.waits t i hpc
  have hlook := STable.lookup_setSem hc.inv.table hi hb ((s.tab.semAt i).P t).1
  have hsome : s.tab.lookup (s.tab.nameAt i) = some (s.tab.semAt i) := by
    rw [STable.lookup, (STable.find_eq_some_iff hc.inv.table).mpr ⟨hi, hb, rfl⟩]
    rfl
  rw [pass] at hs
  split at hs
  · exact absurd hs (by simp)
  · by_cases hz : (s.tab.semAt i).value = 0
    · -- the thread queues: the value stays
      rw [Semaphore.P_zero t hz] at hs hlook
      have hs' := Option.some.inj hs
      subst hs'
      have hnote : SemLog.note s (t, .go)
          { s with
            tab := s.tab.setSem i
              { s.tab.semAt i with queue := (s.tab.semAt i).queue ++ [t] } } h = h := by
        simp [SemLog.note, hpc]
      rw [hnote]
      refine hc.changed hinv hlook (fun _ _ => ⟨rfl, rfl, rfl⟩) ?_
      rintro rfl
      exact hc.present (s.tab.semAt i) hsome
    · rw [Semaphore.P_pos t hz] at hs hlook
      have hs' := Option.some.inj hs
      subst hs'
      have hnote : SemLog.note s (t, .go)
          (s.leave t (0, s.tab.setSem i
            { s.tab.semAt i with value := toInt32 ((s.tab.semAt i).value - 1) })) h
          = { h with waited := upd h.waited (s.tab.nameAt i) (h.waited (s.tab.nameAt i) + 1) } := by
        simp [SemLog.note, leave, hpc]
      rw [hnote]
      refine hc.changed hinv hlook (fun m hm => ⟨rfl, upd_ne _ _ hm, rfl⟩) ?_
      rintro rfl
      obtain ⟨v, hv, hv0, heq, h0, hmax⟩ := hc.present _ hsome
      have hval : toInt32 ((s.tab.semAt i).value - 1) = (s.tab.semAt i).value - 1 :=
        toInt32_of_range (by omega) (by omega)
      refine ⟨v, hv, hv0, ?_⟩
      simp only [upd_self, hval] at heq ⊢
      push_cast
      omega

end Step

theorem counted_step {name : CString} {p q : STableState × SemLog} {l : Nat × STableCall}
    (hc : Counted name p) (hg : InRange name p.1 l) (hs : logged.step p l = some q) :
    Counted name q := by
  obtain ⟨s, h⟩ := p
  obtain ⟨t, call⟩ := l
  obtain ⟨hst, hq⟩ := Base.System.record_step hs
  rw [← Prod.mk.eta (p := q), hq]
  simp only [sys, step] at hst
  cases hpc : s.pc t with
  | out r =>
      cases call with
      | create n init =>
          rw [hpc] at hst
          rw [← Option.some.inj hst]
          exact counted_create hc hpc hg
      | wait n =>
          rw [hpc] at hst
          rw [← Option.some.inj hst]
          exact counted_wait hc hpc n
      | signal n =>
          rw [hpc] at hst
          rw [← Option.some.inj hst]
          exact counted_signal hc hpc hg
      | go => exact absurd hst (by simp [hpc])
  | waiting i =>
      cases call with
      | go =>
          rw [hpc] at hst
          exact counted_pass hc hpc hst
      | create n init => exact absurd hst (by simp [hpc])
      | wait n => exact absurd hst (by simp [hpc])
      | signal n => exact absurd hst (by simp [hpc])

/--
**The bound on a user semaphore.**

In every run in which the semaphore of that name is neither created below zero nor
signalled at the largest `int`, at every moment the `Wait`s that came back are at most
`semval` and the `Signal`s together, and the value is not negative.
-/
theorem semaphore_bounded_of_inRange (name : CString) (p : STableState × SemLog)
    (h : logged.ReachBy (fun p l => InRange name p.1 l) p) : Bounded name p := by
  refine (h.invariant (I := Counted name) ?_ ?_).bounded
  · rintro ⟨s, h⟩ ⟨hs, hb⟩
    simp only at hs hb
    rw [hs, hb]
    exact counted_start name
  · intro p l q _ hc hg hs
    exact counted_step hc hg hs

/-- A semaphore created with 1: one `Wait` comes back, a second thread sleeps, a `Signal`. -/
theorem semaphore_bounded_after_signal :
    ∃ p, logged.ReachBy (fun p l => InRange [115] p.1 l) p ∧ p.2.waited [115] = 2 ∧
      p.2.signalled [115] = 1 ∧ Bounded [115] p := by
  have hrun : ∃ p, logged.runBy (fun p l => InRange [115] p.1 l) (start, .blank)
      [(1, .create [115] 1), (1, .wait [115]), (1, .go), (2, .wait [115]), (2, .go),
        (1, .signal [115]), (2, .go)] = some p ∧ p.2.waited [115] = 2 ∧ p.2.signalled [115] = 1 :=
    ⟨_, rfl, by decide, by decide⟩
  obtain ⟨p, hp, hw, hg⟩ := hrun
  have hr := Base.System.ReachBy.runBy _ (.init logged_init) hp
  exact ⟨p, hr, hw, hg, semaphore_bounded_of_inRange _ p hr⟩

/-- Created with -1, a semaphore lets a `Wait` through that nobody signalled. -/
theorem semaphore_below_zero_lets_through :
    ¬ ∀ (name : CString) (semval : Int), -2147483648 ≤ semval → semval ≤ intMax →
      ∀ p, logged.Reachable p → p.2.semval name = some semval →
        (p.2.waited name : Int) ≤ max semval 0 + p.2.signalled name ∧
          ∃ q, p.1.tab.lookup name = some q ∧ 0 ≤ q.value := by
  intro hall
  have hrun : ∃ p, logged.run (start, .blank)
      [(1, .create [115] (-1)), (1, .wait [115]), (1, .go)] = some p ∧
        p.2.semval [115] = some (-1) ∧ p.2.waited [115] = 1 ∧ p.2.signalled [115] = 0 :=
    ⟨_, rfl, by decide, by decide, by decide⟩
  obtain ⟨p, hp, hv, hw, hg⟩ := hrun
  have hr := Base.System.Reachable.of_run logged_init hp
  have hb := (hall [115] (-1) (by decide) (by decide) p hr hv).1
  rw [hw, hg] at hb
  exact absurd hb (by decide)

end STableState

end Nachos
