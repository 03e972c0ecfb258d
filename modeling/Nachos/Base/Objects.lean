import Nachos.Base.Program

/-!
# Objects and their histories

An object is a state that is called again and again. A call is a program over the state: it answers,
or it stops and the object is gone. What the object is for is said by an abstract one, as a relation
between a state, a call, an answer and the next state.

A caller has obligations too, and they are about the abstract state: an item is added only when it
is not there. `Allowed` says that every call keeps them, wherever the calls before it lead.
`runCalls_refines` is the rule by which the rest of the development compares the two.
-/

namespace Base

variable {ε σ τ κ ρ : Type}

/-- One call after another, with the answers in order. -/
def runCalls (call : κ → EStateM ε σ ρ) : List κ → EStateM ε σ (List ρ)
  | [] => pure []
  | c :: cs => do
      let r ← call c
      let rs ← runCalls call cs
      pure (r :: rs)

/-- The calls were answered so, and took the one abstract state to the other. -/
inductive History (spec : τ → κ → ρ → τ → Prop) : τ → List κ → List ρ → τ → Prop where
  | nil (t : τ) : History spec t [] [] t
  | cons {t t' t'' : τ} {c : κ} {cs : List κ} {r : ρ} {rs : List ρ} :
      spec t c r t' → History spec t' cs rs t'' → History spec t (c :: cs) (r :: rs) t''

/-- Every call is permitted where it is made. -/
inductive Allowed (spec : τ → κ → ρ → τ → Prop) (ok : τ → κ → Prop) : τ → List κ → Prop where
  | nil (t : τ) : Allowed spec ok t []
  | cons {t : τ} {c : κ} {cs : List κ} :
      ok t c → (∀ r t', spec t c r t' → Allowed spec ok t' cs) → Allowed spec ok t (c :: cs)

variable {call : κ → EStateM ε σ ρ} {spec : τ → κ → ρ → τ → Prop} {ok : τ → κ → Prop}
  {R : σ → τ → Prop}

theorem runCalls_cons {c : κ} {cs : List κ} {r : ρ} {rs : List ρ} {s t u : σ}
    (hc : call c s = .ok r t) (hcs : runCalls call cs t = .ok rs u) :
    runCalls call (c :: cs) s = .ok (r :: rs) u := by
  rw [runCalls, bind_eq_of_ok hc, bind_eq_of_ok hcs]
  rfl

theorem Allowed.of_forall {p : κ → Prop} :
    ∀ (cs : List κ) (t : τ), (∀ c ∈ cs, p c) → Allowed spec (fun _ c => p c) t cs := by
  intro cs
  induction cs with
  | nil => intro t _; exact .nil t
  | cons c cs ih =>
      intro t h
      refine .cons (h c List.mem_cons_self) ?_
      intro _ t' _
      exact ih t' fun d hd => h d (List.mem_cons_of_mem c hd)

/-- **A history can be cut** anywhere. -/
theorem History.append_inv : ∀ (cs : List κ) {ds : List κ} {t t'' : τ} {rs : List ρ},
    History spec t (cs ++ ds) rs t'' → ∃ rs₁ rs₂ t', rs = rs₁ ++ rs₂ ∧ rs₁.length = cs.length ∧
      History spec t cs rs₁ t' ∧ History spec t' ds rs₂ t'' := by
  intro cs
  induction cs with
  | nil => intro ds t t'' rs h; exact ⟨[], rs, t, rfl, rfl, .nil t, h⟩
  | cons c cs ih =>
      intro ds t t'' rs h
      cases h with
      | cons hc hrest =>
          obtain ⟨rs₁, rs₂, t', rfl, hlen, hcs, hds⟩ := ih hrest
          exact ⟨_ :: rs₁, rs₂, t', rfl, by rw [List.length_cons, hlen, List.length_cons],
            .cons hc hcs, hds⟩

/-- What every call of it keeps, a history keeps. -/
theorem History.invariant {P : τ → Prop} : ∀ (cs : List κ) {t t' : τ} {rs : List ρ},
    (∀ c ∈ cs, ∀ t r t', P t → spec t c r t' → P t') → P t → History spec t cs rs t' → P t' := by
  intro cs
  induction cs with
  | nil => intro t t' rs _ ht h; cases h; exact ht
  | cons c cs ih =>
      intro t t' rs hkeep ht h
      cases h with
      | cons hc hrest =>
          exact ih (fun c' hc' => hkeep c' (List.mem_cons_of_mem c hc'))
            (hkeep c List.mem_cons_self _ _ _ ht hc) hrest

/-- A call with a check behind it. -/
def watched (check : EStateM ε σ Unit) (call : κ → EStateM ε σ ρ) (c : κ) : EStateM ε σ ρ := do
  let r ← call c
  check
  pure r

theorem watched_eq {check : EStateM ε σ Unit} {c : κ} {r : ρ} {s t : σ} (hc : call c s = .ok r t)
    (hcheck : check t = .ok () t) : watched check call c s = .ok r t := by
  rw [watched, bind_eq_of_ok hc, bind_eq_of_ok hcheck]
  rfl

/-- **The refinement rule, with a check.** When every permitted call answers as the abstract object
does and leaves related states related, and the check passes on related states, then every sequence
of calls goes as the abstract object has it, watched or not. -/
theorem runCalls_watched (check : EStateM ε σ Unit) (hcheck : ∀ s t, R s t → check s = .ok () s)
    (hstep : ∀ s t c, R s t → ok t c →
      ∃ r s' t', call c s = .ok r s' ∧ spec t c r t' ∧ R s' t') :
    ∀ (cs : List κ) {s : σ} {t : τ}, R s t → Allowed spec ok t cs →
      ∃ rs s' t', runCalls call cs s = .ok rs s' ∧ runCalls (watched check call) cs s = .ok rs s' ∧
        History spec t cs rs t' ∧ R s' t' := by
  intro cs
  induction cs with
  | nil => intro s t hR _; exact ⟨[], s, t, rfl, rfl, .nil t, hR⟩
  | cons c cs ih =>
      intro s t hR hall
      cases hall with
      | cons hok hrest =>
          -- `hstep` answers the first call, and the rest is permitted wherever that leads
          obtain ⟨r, s', t', hc, hspec, hR'⟩ := hstep s t c hR hok
          obtain ⟨rs, s'', t'', hcs, hcs', hhist, hR''⟩ := ih hR' (hrest r t' hspec)
          have hw := watched_eq hc (hcheck s' t' hR')
          exact ⟨r :: rs, s'', t'', runCalls_cons hc hcs, runCalls_cons hw hcs',
            .cons hspec hhist, hR''⟩

/-- **The refinement rule.** -/
theorem runCalls_refines
    (hstep : ∀ s t c, R s t → ok t c →
      ∃ r s' t', call c s = .ok r s' ∧ spec t c r t' ∧ R s' t')
    (cs : List κ) {s : σ} {t : τ} (hR : R s t) (hall : Allowed spec ok t cs) :
    ∃ rs s' t', runCalls call cs s = .ok rs s' ∧ History spec t cs rs t' ∧ R s' t' := by
  obtain ⟨rs, s', t', hrun, _, hhist, hR'⟩ :=
    runCalls_watched (pure ()) (fun _ _ _ => rfl) hstep cs hR hall
  exact ⟨rs, s', t', hrun, hhist, hR'⟩

end Base
