import Mathlib.Logic.Basic
import Mathlib.Order.Basic

/-!
# Labelled systems, their runs and their invariants

A system is a set of initial states and a partial step function. A label says
which party moves and what its surroundings answer, so a run is a list of labels
and an interleaving is nothing more than the order of that list.

Most invariants hold of every run. Some hold only of runs that keep clear of one
particular step, and those are the reason for `ReachBy G`: the states reached by
runs all of whose steps meet `G`, a condition on the state *before* the step and
the label. `Reachable` is the case in which nothing is excluded.
-/

namespace Base

/-- The map `f` with `x` at `i`. -/
def upd {ι α : Type} [DecidableEq ι] (f : ι → α) (i : ι) (x : α) : ι → α :=
  fun j => if j = i then x else f j

@[simp] theorem upd_self {ι α : Type} [DecidableEq ι] (f : ι → α) (i : ι) (x : α) :
    upd f i x i = x := by
  simp [upd]

theorem upd_ne {ι α : Type} [DecidableEq ι] (f : ι → α) {i j : ι} (x : α) (h : j ≠ i) :
    upd f i x j = f j := by
  simp [upd, h]

theorem upd_apply {ι α : Type} [DecidableEq ι] (f : ι → α) (i j : ι) (x : α) :
    upd f i x j = if j = i then x else f j := rfl

theorem upd_eq_self {ι α : Type} [DecidableEq ι] (f : ι → α) (i : ι) : upd f i (f i) = f := by
  funext j
  by_cases hj : j = i
  · rw [hj, upd_self]
  · rw [upd_ne _ _ hj]

/-- What holds of the new value, and of the old ones elsewhere, holds everywhere. -/
theorem forall_upd {ι α : Type} [DecidableEq ι] {f : ι → α} {i : ι} {x : α} {P : ι → α → Prop}
    (hx : P i x) (hf : ∀ j, j ≠ i → P j (f j)) (j : ι) : P j (upd f i x j) := by
  by_cases hj : j = i
  · rw [hj, upd_self]
    exact hx
  · rw [upd_ne _ _ hj]
    exact hf j hj

/-- An update that leaves a field as it was leaves it so everywhere. -/
theorem upd_field {ι α β : Type} [DecidableEq ι] {f : ι → α} {i : ι} {x : α} (g : α → β)
    (h : g x = g (f i)) (j : ι) : g (upd f i x j) = g (f j) :=
  forall_upd (P := fun j y => g y = g (f j)) h (fun _ _ => rfl) j

/-- Initial states and one step per label. -/
structure System (σ ι : Type) where
  /-- The states a run may start in. -/
  init : σ → Prop
  /-- What the label does, `none` when it is not enabled. -/
  step : σ → ι → Option σ

namespace System

variable {σ ι : Type} (M : System σ ι)

/-- States reached by runs all of whose steps meet `G`. -/
inductive ReachBy (G : σ → ι → Prop) : σ → Prop where
  | init {s : σ} : M.init s → ReachBy G s
  | tail {s s' : σ} {l : ι} : ReachBy G s → G s l → M.step s l = some s' → ReachBy G s'

/-- States reached by any run. -/
def Reachable (s : σ) : Prop := M.ReachBy (fun _ _ => True) s

/-- The state a list of labels leads to when every step meets `G`. -/
def runBy (G : σ → ι → Prop) [∀ s l, Decidable (G s l)] : σ → List ι → Option σ
  | s, [] => some s
  | s, l :: ls => if G s l then (M.step s l).bind (fun s' => runBy G s' ls) else none

/-- The state a list of labels leads to. -/
def run (s : σ) (ls : List ι) : Option σ := M.runBy (fun _ _ => True) s ls

variable {M}

/-- **The invariant rule.** What holds initially and is kept by every allowed step
holds of every state such runs reach. -/
theorem ReachBy.invariant {G : σ → ι → Prop} {I : σ → Prop}
    (h0 : ∀ s, M.init s → I s)
    (hs : ∀ s l s', M.ReachBy G s → I s → G s l → M.step s l = some s' → I s')
    {s : σ} (h : M.ReachBy G s) : I s := by
  induction h with
  | init hi => exact h0 _ hi
  | tail hr hg hst ih => exact hs _ _ _ hr ih hg hst

theorem ReachBy.mono {G H : σ → ι → Prop} (hGH : ∀ s l, G s l → H s l) {s : σ}
    (h : M.ReachBy G s) : M.ReachBy H s := by
  induction h with
  | init hi => exact .init hi
  | tail _ hg hst ih => exact .tail ih (hGH _ _ hg) hst

theorem ReachBy.reachable {G : σ → ι → Prop} {s : σ} (h : M.ReachBy G s) : M.Reachable s :=
  h.mono (fun _ _ _ => trivial)

/-- A run that meets `G` stays inside `ReachBy G`. -/
theorem ReachBy.runBy {G : σ → ι → Prop} [∀ s l, Decidable (G s l)] :
    ∀ (ls : List ι) {s s' : σ}, M.ReachBy G s → M.runBy G s ls = some s' → M.ReachBy G s' := by
  intro ls
  induction ls with
  | nil =>
      intro s s' h hr
      have he : s = s' := by simpa [System.runBy] using hr
      exact he ▸ h
  | cons l ls ih =>
      intro s s' h hr
      rw [System.runBy] at hr
      split at hr
      · rename_i hg
        cases hq : M.step s l with
        | none => rw [hq] at hr; exact absurd hr (by simp)
        | some t =>
            rw [hq] at hr
            exact ih (.tail h hg hq) hr
      · exact absurd hr (by simp)

theorem Reachable.of_run {s s' : σ} {ls : List ι} (h : M.init s) (hr : M.run s ls = some s') :
    M.Reachable s' :=
  ReachBy.runBy ls (.init h) hr

theorem run_cons {s s' : σ} {l : ι} (h : M.step s l = some s') (ls : List ι) :
    M.run s (l :: ls) = M.run s' ls := by
  simp only [run, runBy, if_true]
  rw [h, Option.bind_some]

/-- What every step keeps, every run keeps. -/
theorem run_invariant {I : σ → Prop} (hI : ∀ s l s', I s → M.step s l = some s' → I s') :
    ∀ (ls : List ι) {s s' : σ}, I s → M.run s ls = some s' → I s' := by
  intro ls
  induction ls with
  | nil =>
      intro s s' h hr
      have he : s = s' := by simpa [run, runBy] using hr
      exact he ▸ h
  | cons l ls ih =>
      intro s s' h hr
      simp only [run, runBy, if_true] at hr
      obtain ⟨t, ht, hr'⟩ := Option.bind_eq_some_iff.mp hr
      exact ih (hI s l t h ht) hr'

/-- **The rule of waiting.** If each step keeps `I` or reaches `Goal`, a run keeps `I` or
passes through `Goal`. -/
theorem runBy_until {G : σ → ι → Prop} [∀ s l, Decidable (G s l)] {I Goal : σ → Prop}
    (hI : ∀ s l s', M.ReachBy G s → I s → G s l → M.step s l = some s' → I s' ∨ Goal s') :
    ∀ (ls : List ι) {s s' : σ}, M.ReachBy G s → I s → M.runBy G s ls = some s' →
      I s' ∨ ∃ ls₁ ls₂ m, ls = ls₁ ++ ls₂ ∧ M.runBy G s ls₁ = some m ∧ Goal m := by
  intro ls
  induction ls with
  | nil =>
      intro s s' _ h hr
      have he : s = s' := by simpa [System.runBy] using hr
      exact Or.inl (he ▸ h)
  | cons l ls ih =>
      intro s s' hs h hr
      rw [System.runBy] at hr
      split at hr
      · rename_i hg
        obtain ⟨t, ht, hr'⟩ := Option.bind_eq_some_iff.mp hr
        -- the run passes through `Goal` here, or goes on from `t` with `I`
        have hone : M.runBy G s [l] = some t := by simp [System.runBy, hg, ht]
        rcases hI s l t hs h hg ht with h' | h'
        · rcases ih (.tail hs hg ht) h' hr' with h'' | ⟨ls₁, ls₂, m, hls, hm, hgoal⟩
          · exact Or.inl h''
          · refine Or.inr ⟨l :: ls₁, ls₂, m, by rw [hls, List.cons_append], ?_, hgoal⟩
            rw [System.runBy, if_pos hg, ht]
            exact hm
        · exact Or.inr ⟨[l], ls, t, rfl, hone, h'⟩
      · exact absurd hr (by simp)

/-! ### Systems seen through a map, and systems with a record -/

/-- **The simulation rule.** A map that takes each step of `M` to the same step of `N`
takes each run of `M` to the same run of `N`. -/
theorem run_map {τ : Type} {N : System τ ι} {f : σ → τ} {I : σ → Prop}
    (hI : ∀ s l s', I s → M.step s l = some s' → I s')
    (hf : ∀ s l, I s → (M.step s l).map f = N.step (f s) l) :
    ∀ (ls : List ι) {s : σ}, I s → (M.run s ls).map f = N.run (f s) ls := by
  intro ls
  induction ls with
  | nil => intro _ _; rfl
  | cons l ls ih =>
      intro s h
      have hl := hf s l h
      simp only [run, runBy, if_true]
      rw [← hl]
      cases hq : M.step s l with
      | none => rfl
      | some s' => exact ih (hI s l s' h hq)

variable (M) in
/-- The same system, with a record of its run kept beside it that no step reads. -/
def record {η : Type} (blank : η) (note : σ → ι → σ → η → η) : System (σ × η) ι where
  init := fun p => M.init p.1 ∧ p.2 = blank
  step := fun p l => (M.step p.1 l).map fun s' => (s', note p.1 l s' p.2)

theorem record_step {η : Type} {blank : η} {note : σ → ι → σ → η → η} {p q : σ × η} {l : ι}
    (h : (M.record blank note).step p l = some q) :
    M.step p.1 l = some q.1 ∧ q.2 = note p.1 l q.1 p.2 := by
  obtain ⟨s', hs, rfl⟩ := Option.map_eq_some_iff.mp h
  exact ⟨hs, rfl⟩

/-- Every run is a run with its record. -/
theorem Reachable.record {η : Type} {s : σ} (h : M.Reachable s) (note : σ → ι → σ → η → η)
    (blank : η) : ∃ x, (M.record blank note).Reachable (s, x) := by
  induction h with
  | init hi => exact ⟨blank, .init ⟨hi, rfl⟩⟩
  | @tail s s' l _ _ hs ih =>
      obtain ⟨x, hx⟩ := ih
      refine ⟨note s l s' x, .tail (l := l) hx trivial ?_⟩
      exact Option.map_eq_some_iff.mpr ⟨s', hs, rfl⟩

end System

/-! ## Exclusion

A binary semaphore is read through the set of parties that are past its `P` and
not past its `V`. -/

/-- The value is one and nobody is inside, or it is zero and exactly one is. -/
def Exclusive {α : Type} (v : Int) (inside : α → Prop) : Prop :=
  (v = 1 ∧ ∀ a, ¬ inside a) ∨ (v = 0 ∧ ∃ a, inside a ∧ ∀ b, inside b → b = a)

theorem Exclusive.congr {α : Type} {v : Int} {I J : α → Prop} (h : Exclusive v I)
    (hIJ : ∀ a, J a ↔ I a) : Exclusive v J := by
  have : J = I := funext fun a => propext (hIJ a)
  exact this ▸ h

/-- Passing `P`: the value was one, so the newcomer is alone. -/
theorem Exclusive.enter {α : Type} {v : Int} {I J : α → Prop} {a : α} (h : Exclusive v I)
    (hv : v ≠ 0) (ha : J a) (hne : ∀ b, b ≠ a → (J b ↔ I b)) : Exclusive (v - 1) J := by
  rcases h with ⟨hv1, hno⟩ | ⟨hv0, _⟩
  · refine Or.inr ⟨by omega, a, ha, ?_⟩
    intro b hb
    by_contra hba
    exact hno b ((hne b hba).mp hb)
  · exact absurd hv0 hv

/-- Passing `V`: whoever was inside leaves, so nobody is left. -/
theorem Exclusive.leave {α : Type} {v : Int} {I J : α → Prop} {a : α} (h : Exclusive v I)
    (ha : I a) (hJ : ¬ J a) (hne : ∀ b, b ≠ a → (J b ↔ I b)) :
    v = 0 ∧ Exclusive (v + 1) J := by
  rcases h with ⟨_, hno⟩ | ⟨hv0, c, hc, huniq⟩
  · exact absurd ha (hno a)
  · refine ⟨hv0, Or.inl ⟨by omega, ?_⟩⟩
    intro b hb
    -- whoever is still inside was the only one before, and so was `a`
    by_cases hba : b = a
    · exact hJ (hba ▸ hb)
    · have h1 : b = c := huniq b ((hne b hba).mp hb)
      have h2 : a = c := huniq a ha
      exact hba (h1.trans h2.symm)

theorem Exclusive.unique {α : Type} {v : Int} {I : α → Prop} {a b : α} (h : Exclusive v I)
    (ha : I a) (hb : I b) : a = b := by
  rcases h with ⟨_, hno⟩ | ⟨_, c, _, huniq⟩
  · exact absurd ha (hno a)
  · rw [huniq a ha, huniq b hb]

theorem Exclusive.zero {α : Type} {v : Int} {I : α → Prop} {a : α} (h : Exclusive v I)
    (ha : I a) : v = 0 := by
  rcases h with ⟨_, hno⟩ | ⟨h0, _⟩
  · exact absurd ha (hno a)
  · exact h0

/-! The same for parties whose places are kept in a map, and `c` tells the places inside. -/

section Places

variable {ι κ : Type} [DecidableEq ι] {v : Int} {f : ι → κ} {i : ι} {k : κ} {c : κ → Bool}

theorem Exclusive.upd_same (h : Exclusive v (fun a => c (f a) = true)) (hk : c k = c (f i)) :
    Exclusive v (fun a => c (upd f i k a) = true) := by
  refine h.congr fun a => ?_
  rw [upd_apply]
  split
  · rename_i ha; rw [ha, hk]
  · rfl

theorem Exclusive.upd_enter (h : Exclusive v (fun a => c (f a) = true)) (hv : v ≠ 0)
    (hk : c k = true) : Exclusive (v - 1) (fun a => c (upd f i k a) = true) := by
  refine h.enter (a := i) hv (by rw [upd_self]; exact hk) fun a ha => ?_
  rw [upd_ne _ _ ha]

theorem Exclusive.upd_leave (h : Exclusive v (fun a => c (f a) = true)) (hi : c (f i) = true)
    (hk : c k = false) : v = 0 ∧ Exclusive (v + 1) (fun a => c (upd f i k a) = true) := by
  refine h.leave (a := i) hi (by rw [upd_self, hk]; exact Bool.noConfusion) fun a ha => ?_
  rw [upd_ne _ _ ha]

end Places

end Base
