import Nachos.Base.System

/-!
# A system as one of its parties sees it

Several parties share a system, and a label belongs to one of them or to nobody. A party that
cannot tell whether the others are there may reason as if it were alone.

A *view* relates the states of the shared system to those of a system that the party has to
itself. If its own labels do the same on both sides, and the other labels leave the view as it is,
a run of the shared system is to the party the run of its own labels.
-/

namespace Base

namespace System

variable {σ τ ι κ : Type} (M : System σ ι)

/-- The labels lead from the one state to the other, and each step meets `G`. -/
inductive Path (G : σ → ι → Prop) : σ → List ι → σ → Prop where
  | nil (s : σ) : Path G s [] s
  | cons {s s' s'' : σ} {l : ι} {ls : List ι} :
      G s l → M.step s l = some s' → Path G s' ls s'' → Path G s (l :: ls) s''

variable {M} {G : σ → ι → Prop} {s s' : σ} {ls : List ι}

theorem Path.mono {H : σ → ι → Prop} (h : M.Path G s ls s')
    (hGH : ∀ s, ∀ l ∈ ls, G s l → H s l) : M.Path H s ls s' := by
  induction h with
  | nil s => exact .nil s
  | cons hg hst _ ih =>
      exact .cons (hGH _ _ List.mem_cons_self hg) hst
        (ih fun s l hl => hGH s l (List.mem_cons_of_mem _ hl))

/-- A run is a path when each of its labels meets the condition wherever it stands. -/
theorem path_of_run : ∀ (ls : List ι) {s s' : σ}, (∀ s, ∀ l ∈ ls, G s l) → M.run s ls = some s' →
    M.Path G s ls s' := by
  intro ls
  induction ls with
  | nil =>
      intro s s' _ hr
      obtain rfl : s = s' := by simpa [run, runBy] using hr
      exact .nil s
  | cons l ls ih =>
      intro s s' hG hr
      simp only [run, runBy, if_true] at hr
      obtain ⟨t, ht, hr'⟩ := Option.bind_eq_some_iff.mp hr
      exact .cons (hG s l List.mem_cons_self) ht
        (ih (fun s l hl => hG s l (List.mem_cons_of_mem _ hl)) hr')

/-- **The projection rule.** -/
theorem Path.project {N : System τ κ} {own : ι → Option κ} {I : σ → Prop} {V : σ → τ → Prop}
    (hI : ∀ s l s', I s → G s l → M.step s l = some s' → I s')
    (hown : ∀ s l s' t a, I s → V s t → M.step s l = some s' → own l = some a →
      ∃ t', N.step t a = some t' ∧ V s' t')
    (hother : ∀ s l s' t, I s → G s l → V s t → M.step s l = some s' → own l = none → V s' t)
    (h : M.Path G s ls s') (hs : I s) {t : τ} (ht : V s t) :
    ∃ t', N.run t (ls.filterMap own) = some t' ∧ V s' t' := by
  induction h generalizing t with
  | nil s => exact ⟨t, rfl, ht⟩
  | @cons s s' s'' l ls hg hst _ ih =>
      have hs' := hI s l s' hs hg hst
      -- a label of somebody else leaves the view as it is, an own one is a step on both sides
      cases ho : own l with
      | none =>
          rw [List.filterMap_cons_none ho]
          exact ih hs' (hother s l s' t hs hg ht hst ho)
      | some a =>
          obtain ⟨t', hstep, ht'⟩ := hown s l s' t a hs ht hst ho
          rw [List.filterMap_cons_some ho, run_cons hstep]
          exact ih hs' ht'

end System

end Base
