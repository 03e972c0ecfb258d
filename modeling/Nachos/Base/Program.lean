import Nachos.Base.System

/-!
# Programs that change a state and may stop

A sequential program over a state that can stop for good in the middle: `EStateM`,
whose errors are the ways of stopping. Two things are said of such programs. `Keeps f`
says that `f` of the state is at the end what it was at the start. `Ends f g Q` is for
a program that leaves through one of several exits: `g` has been applied to `f` of
the state exactly once, and the exit satisfies `Q`. A program has the second property
when everything before the last step has the first one.

A program is atomic when stopping undoes nothing because nothing was done: it looks first,
which is `SafeAt`, and writes last, which is `Calm`.

Some steps wait for other parties. They are runs of a `System` that go on until the
waiting party is through, along whatever schedule its surroundings choose.
-/

namespace Base

variable {ε σ ρ α β : Type}

/-! ## What a program keeps -/

/-- Whenever `x` gets to its end, `f` of the state is what it was. -/
def Keeps (f : σ → ρ) (x : EStateM ε σ α) : Prop :=
  ∀ s a s', x s = .ok a s' → f s' = f s

/-- Whenever `x` gets to its end, `f` of the state has been through `g` once, and the value is
one of `Q`. -/
def Ends (f : σ → ρ) (g : ρ → ρ) (Q : α → Prop) (x : EStateM ε σ α) : Prop :=
  ∀ s a s', x s = .ok a s' → f s' = g (f s) ∧ Q a

/-- A program that gets to its end does so through both of its parts. -/
theorem bind_ok {x : EStateM ε σ α} {k : α → EStateM ε σ β} {s s' : σ} {b : β}
    (h : (x >>= k) s = .ok b s') : ∃ a t, x s = .ok a t ∧ k a t = .ok b s' := by
  change EStateM.bind x k s = .ok b s' at h
  unfold EStateM.bind at h
  cases hx : x s with
  | error e t => rw [hx] at h; exact absurd h (by simp)
  | ok a t => rw [hx] at h; exact ⟨a, t, rfl, h⟩

theorem bind_eq_of_ok {x : EStateM ε σ α} {k : α → EStateM ε σ β} {s t : σ} {a : α}
    (h : x s = .ok a t) : (x >>= k) s = k a t := by
  change EStateM.bind x k s = k a t
  unfold EStateM.bind
  rw [h]

theorem bind_eq_of_error {x : EStateM ε σ α} {k : α → EStateM ε σ β} {s t : σ} {e : ε}
    (h : x s = .error e t) : (x >>= k) s = .error e t := by
  change EStateM.bind x k s = .error e t
  unfold EStateM.bind
  rw [h]

theorem get_bind (k : σ → EStateM ε σ α) (s : σ) : (get >>= k) s = k s s := rfl

theorem set_bind (t : σ) (k : PUnit → EStateM ε σ α) (s : σ) : (set t >>= k) s = k ⟨⟩ t := rfl

/-- A check that goes well. -/
theorem guard_ok {c : Prop} [Decidable c] (h : c) (e : ε) (s : σ) :
    (if c then pure () else throw e : EStateM ε σ Unit) s = .ok () s := by
  rw [if_pos h]
  rfl

theorem guard_bind {c : Prop} [Decidable c] (h : c) (e : ε) (k : Unit → EStateM ε σ α) (s : σ) :
    ((if c then pure () else throw e : EStateM ε σ Unit) >>= k) s = k () s :=
  bind_eq_of_ok (guard_ok h e s)

theorem modify_bind (u : σ → σ) (k : PUnit → EStateM ε σ α) (s : σ) :
    (modify u >>= k) s = k ⟨⟩ (u s) := rfl

section Rules

variable {f : σ → ρ} {g : ρ → ρ} {Q : β → Prop}

theorem Keeps.pure (a : α) : Keeps f (Pure.pure a : EStateM ε σ α) := by
  intro s b s' h
  injection h with _ h
  exact congrArg f h.symm

theorem Keeps.throw (e : ε) : Keeps f (throw e : EStateM ε σ α) := by
  intro s b s' h
  exact absurd h (by intro h; cases h)

theorem Keeps.get : Keeps f (get : EStateM ε σ σ) := by
  intro s b s' h
  injection h with _ h
  exact congrArg f h.symm

theorem Keeps.modify {u : σ → σ} (h : ∀ s, f (u s) = f s) :
    Keeps f (modify u : EStateM ε σ PUnit) := by
  intro s b s' hs
  injection hs with _ hs
  rw [← hs]
  exact h s

theorem Keeps.bind {x : EStateM ε σ α} {k : α → EStateM ε σ β} (hx : Keeps f x)
    (hk : ∀ a, Keeps f (k a)) : Keeps f (x >>= k) := by
  intro s b s' h
  obtain ⟨a, t, h1, h2⟩ := bind_ok h
  rw [hk a t b s' h2, hx s a t h1]

theorem Keeps.ite {c : Prop} [Decidable c] {x y : EStateM ε σ α} (hx : Keeps f x)
    (hy : Keeps f y) : Keeps f (if c then x else y) := by
  split
  · exact hx
  · exact hy

/-- What comes before the exit keeps `f`; the rest is up to the exit. -/
theorem Ends.after {x : EStateM ε σ α} {k : α → EStateM ε σ β} (hx : Keeps f x)
    (hk : ∀ a, Ends f g Q (k a)) : Ends f g Q (x >>= k) := by
  intro s b s' h
  obtain ⟨a, t, h1, h2⟩ := bind_ok h
  rw [← hx s a t h1]
  exact hk a t b s' h2

theorem Ends.ite {c : Prop} [Decidable c] {x y : EStateM ε σ β} (hx : Ends f g Q x)
    (hy : Ends f g Q y) : Ends f g Q (if c then x else y) := by
  split
  · exact hx
  · exact hy

theorem Ends.mono {Q' : β → Prop} {x : EStateM ε σ β} (h : Ends f g Q x) (hQ : ∀ b, Q b → Q' b) :
    Ends f g Q' x := by
  intro s b s' hs
  exact ⟨(h s b s' hs).1, hQ b (h s b s' hs).2⟩

end Rules

/-! ## What a program keeps even when it stops -/

/-- However `x` ends from `s`, `f` of the state is what it was, and it stops only for a reason
in `E`. -/
def SafeAt (f : σ → ρ) (E : ε → Prop) (x : EStateM ε σ α) (s : σ) : Prop :=
  match x s with
  | .ok _ s' => f s' = f s
  | .error e s' => f s' = f s ∧ E e

section SafeRules

variable {f : σ → ρ} {E : ε → Prop} {s : σ}

theorem SafeAt.of_ok {x : EStateM ε σ α} {a : α} {t : σ} (hx : x s = .ok a t) (hf : f t = f s) :
    SafeAt f E x s := by
  unfold SafeAt
  rw [hx]
  exact hf

theorem SafeAt.of_error {x : EStateM ε σ α} {e : ε} {t : σ} (hx : x s = .error e t)
    (hf : f t = f s) (he : E e) : SafeAt f E x s := by
  unfold SafeAt
  rw [hx]
  exact ⟨hf, he⟩

theorem SafeAt.ok {x : EStateM ε σ α} {a : α} {s' : σ} (h : SafeAt f E x s) (hx : x s = .ok a s') :
    f s' = f s := by
  unfold SafeAt at h
  rw [hx] at h
  exact h

theorem SafeAt.error {x : EStateM ε σ α} {e : ε} {s' : σ} (h : SafeAt f E x s)
    (hx : x s = .error e s') : f s' = f s ∧ E e := by
  unfold SafeAt at h
  rw [hx] at h
  exact h

theorem SafeAt.pure (a : α) : SafeAt f E (Pure.pure a : EStateM ε σ α) s := .of_ok rfl rfl

theorem SafeAt.modify {u : σ → σ} (h : f (u s) = f s) :
    SafeAt f E (modify u : EStateM ε σ PUnit) s := .of_ok rfl h

/-- The second part is entered only in the states that the first one leads to. -/
theorem SafeAt.bind {x : EStateM ε σ α} {k : α → EStateM ε σ β} (hx : SafeAt f E x s)
    (hk : ∀ a t, x s = .ok a t → SafeAt f E (k a) t) : SafeAt f E (x >>= k) s := by
  cases hr : x s with
  | ok a t =>
      have ht := hx.ok hr
      have hka := hk a t hr
      unfold SafeAt at hka ⊢
      rw [bind_eq_of_ok hr]
      rw [← ht]
      exact hka
  | error e t =>
      obtain ⟨ht, he⟩ := hx.error hr
      exact .of_error (bind_eq_of_error hr) ht he

theorem SafeAt.ite {c : Prop} [Decidable c] {x y : EStateM ε σ α} (hx : c → SafeAt f E x s)
    (hy : ¬ c → SafeAt f E y s) : SafeAt f E (if c then x else y) s := by
  split
  · exact hx ‹_›
  · exact hy ‹_›

theorem SafeAt.map {τ : Type} (g : ρ → τ) {x : EStateM ε σ α} (h : SafeAt f E x s) :
    SafeAt (fun s => g (f s)) E x s := by
  unfold SafeAt at h ⊢
  split at h
  · exact congrArg g h
  · exact ⟨congrArg g h.1, h.2⟩

theorem SafeAt.mono {E' : ε → Prop} {x : EStateM ε σ α} (h : SafeAt f E x s)
    (hE : ∀ e, E e → E' e) : SafeAt f E' x s := by
  unfold SafeAt at h ⊢
  split at h
  · exact h
  · exact ⟨h.1, hE _ h.2⟩

end SafeRules

/-! ## Programs that stop before they have changed anything -/

/-- From `s`, `x` gets to its end with `h` of what `f` shows as it was, or it stops for a reason in
`E` with all that `f` shows as it was. -/
def AtomicAt {τ : Type} (f : σ → ρ) (h : ρ → τ) (E : ε → Prop) (x : EStateM ε σ α) (s : σ) : Prop :=
  match x s with
  | .ok _ s' => h (f s') = h (f s)
  | .error e s' => f s' = f s ∧ E e

/-- `x` always gets to its end, and keeps `g`. -/
def Calm (g : σ → ρ) (x : EStateM ε σ α) : Prop := ∀ s, ∃ a s', x s = .ok a s' ∧ g s' = g s

section AtomicRules

variable {τ : Type} {f : σ → ρ} {h : ρ → τ} {E : ε → Prop} {s : σ}

theorem Calm.pure (g : σ → ρ) (a : α) : Calm g (Pure.pure a : EStateM ε σ α) :=
  fun s => ⟨a, s, rfl, rfl⟩

theorem Calm.bind {g : σ → ρ} {x : EStateM ε σ α} {k : α → EStateM ε σ β} (hx : Calm g x)
    (hk : ∀ a, Calm g (k a)) : Calm g (x >>= k) := by
  intro s
  obtain ⟨a, t, h1, ht⟩ := hx s
  obtain ⟨b, u, h2, hu⟩ := hk a t
  exact ⟨b, u, (bind_eq_of_ok h1).trans h2, hu.trans ht⟩

theorem Calm.ite {g : σ → ρ} {c : Prop} [Decidable c] {x y : EStateM ε σ α} (hx : Calm g x)
    (hy : Calm g y) : Calm g (if c then x else y) := by
  split
  · exact hx
  · exact hy

theorem AtomicAt.of_ok {x : EStateM ε σ α} {a : α} {t : σ} (hx : x s = .ok a t)
    (ht : h (f t) = h (f s)) : AtomicAt f h E x s := by
  unfold AtomicAt
  rw [hx]
  exact ht

theorem AtomicAt.of_error {x : EStateM ε σ α} {e : ε} {t : σ} (hx : x s = .error e t)
    (ht : f t = f s) (he : E e) : AtomicAt f h E x s := by
  unfold AtomicAt
  rw [hx]
  exact ⟨ht, he⟩

theorem AtomicAt.ok {x : EStateM ε σ α} {a : α} {t : σ} (hx : AtomicAt f h E x s)
    (ha : x s = .ok a t) : h (f t) = h (f s) := by
  unfold AtomicAt at hx
  rw [ha] at hx
  exact hx

theorem AtomicAt.error {x : EStateM ε σ α} {e : ε} {t : σ} (hx : AtomicAt f h E x s)
    (he : x s = .error e t) : f t = f s ∧ E e := by
  unfold AtomicAt at hx
  rw [he] at hx
  exact hx

theorem Calm.atomicAt {x : EStateM ε σ α} (hx : Calm (fun s => h (f s)) x) :
    AtomicAt f h E x s := by
  obtain ⟨a, t, hxs, ht⟩ := hx s
  exact .of_ok hxs ht

theorem SafeAt.atomicAt {x : EStateM ε σ α} (hx : SafeAt f E x s) : AtomicAt f h E x s := by
  cases hr : x s with
  | ok a t => exact .of_ok hr (congrArg h (hx.ok hr))
  | error e t => exact .of_error hr (hx.error hr).1 (hx.error hr).2

/-- What only looks may come first. -/
theorem SafeAt.bind_atomic {x : EStateM ε σ α} {k : α → EStateM ε σ β} (hx : SafeAt f E x s)
    (hk : ∀ a t, x s = .ok a t → AtomicAt f h E (k a) t) : AtomicAt f h E (x >>= k) s := by
  cases hr : x s with
  | ok a t =>
      have ht := hx.ok hr
      have hka := hk a t hr
      unfold AtomicAt at hka ⊢
      rw [bind_eq_of_ok hr, ← ht]
      exact hka
  | error e t =>
      obtain ⟨ht, he⟩ := hx.error hr
      exact .of_error (bind_eq_of_error hr) ht he

/-- What never stops may come last. -/
theorem AtomicAt.bind_calm {x : EStateM ε σ α} {k : α → EStateM ε σ β} (hx : AtomicAt f h E x s)
    (hk : ∀ a, Calm (fun s => h (f s)) (k a)) : AtomicAt f h E (x >>= k) s := by
  cases hr : x s with
  | ok a t =>
      obtain ⟨b, u, h2, hu⟩ := hk a t
      exact .of_ok ((bind_eq_of_ok hr).trans h2) (hu.trans (hx.ok hr))
  | error e t =>
      obtain ⟨ht, he⟩ := hx.error hr
      exact .of_error (bind_eq_of_error hr) ht he

theorem AtomicAt.ite {c : Prop} [Decidable c] {x y : EStateM ε σ α} (hx : c → AtomicAt f h E x s)
    (hy : ¬ c → AtomicAt f h E y s) : AtomicAt f h E (if c then x else y) s := by
  split
  · exact hx ‹_›
  · exact hy ‹_›

theorem AtomicAt.mono {E' : ε → Prop} {x : EStateM ε σ α} (hx : AtomicAt f h E x s)
    (hE : ∀ e, E e → E' e) : AtomicAt f h E' x s := by
  unfold AtomicAt at hx ⊢
  split at hx
  · exact hx
  · exact ⟨hx.1, hE _ hx.2⟩

end AtomicRules

/-! ## Two runs of a program -/

/-- From related states the two stop for the same reason or both get to their ends, with values in
`Q`, and the states are related again. -/
def Sim (R : σ → σ → Prop) (Q : α → α → Prop) (x y : EStateM ε σ α) : Prop :=
  ∀ s t, R s t →
    match x s, y t with
    | .ok a s', .ok b t' => Q a b ∧ R s' t'
    | .error e s', .error e' t' => e = e' ∧ R s' t'
    | _, _ => False

section SimRules

variable {R : σ → σ → Prop} {P : α → α → Prop} {Q : β → β → Prop}

/-- The two ways in which two runs can go. -/
theorem Sim.cases {x y : EStateM ε σ α} (h : Sim R P x y) {s t : σ} (hR : R s t) :
    (∃ e s' t', x s = .error e s' ∧ y t = .error e t' ∧ R s' t') ∨
    ∃ a b s' t', x s = .ok a s' ∧ y t = .ok b t' ∧ P a b ∧ R s' t' := by
  have hst := h s t hR
  cases hs : x s with
  | ok a s' =>
      cases ht : y t with
      | ok b t' =>
          rw [hs, ht] at hst
          exact Or.inr ⟨a, b, s', t', rfl, rfl, hst.1, hst.2⟩
      | error e t' => rw [hs, ht] at hst; exact absurd hst id
  | error e s' =>
      cases ht : y t with
      | ok b t' => rw [hs, ht] at hst; exact absurd hst id
      | error e' t' =>
          rw [hs, ht] at hst
          exact Or.inl ⟨e, s', t', rfl, by rw [hst.1], hst.2⟩

theorem Sim.pure {a b : α} (h : P a b) : Sim R P (Pure.pure a : EStateM ε σ α) (Pure.pure b) :=
  fun _ _ hR => ⟨h, hR⟩

theorem Sim.throw (e : ε) : Sim R P (throw e : EStateM ε σ α) (throw e) := fun _ _ hR => ⟨rfl, hR⟩

theorem Sim.bind {x y : EStateM ε σ α} {k l : α → EStateM ε σ β} (hx : Sim R P x y)
    (hk : ∀ a b, P a b → Sim R Q (k a) (l b)) : Sim R Q (x >>= k) (y >>= l) := by
  intro s t hR
  rcases hx.cases hR with ⟨e, s', t', hs, ht, hR'⟩ | ⟨a, b, s', t', hs, ht, hP, hR'⟩
  · rw [bind_eq_of_error hs, bind_eq_of_error ht]
    exact ⟨rfl, hR'⟩
  · rw [bind_eq_of_ok hs, bind_eq_of_ok ht]
    exact hk a b hP s' t' hR'

/-- The first parts agree on their value. -/
theorem Sim.bind_eq {x : EStateM ε σ α} {k : α → EStateM ε σ β} (hx : Sim R Eq x x)
    (hk : ∀ a, Sim R Q (k a) (k a)) : Sim R Q (x >>= k) (x >>= k) :=
  hx.bind fun a _ hab => hab ▸ hk a

theorem Sim.ite {c : Prop} [Decidable c] {x y x' y' : EStateM ε σ α} (hx : Sim R P x x')
    (hy : Sim R P y y') : Sim R P (if c then x else y) (if c then x' else y') := by
  split
  · exact hx
  · exact hy

end SimRules

/-! ## Waiting -/

/-- The schedule `ls` goes on from `s` until `back` has an answer, and is then interrupted; a label
that is not enabled is passed over. `none` when the schedule ends first. -/
def System.await {ι : Type} (M : System σ ι) (back : σ → Option ρ) :
    σ → List ι → Option (ρ × σ × List ι)
  | s, [] => (back s).map fun r => (r, s, [])
  | s, l :: ls =>
      match back s with
      | some r => some (r, s, l :: ls)
      | none => await M back ((M.step s l).getD s) ls

/-- The answer is the one that the last state gives. -/
theorem System.await_back {ι : Type} {M : System σ ι} {back : σ → Option ρ} :
    ∀ (ls : List ι) {s s' : σ} {r : ρ} {ls' : List ι},
      M.await back s ls = some (r, s', ls') → back s' = some r := by
  intro ls
  induction ls with
  | nil =>
      intro s s' r ls' h
      obtain ⟨a, ha, he⟩ := Option.map_eq_some_iff.mp h
      injection he with h1 h2
      injection h2 with h2 _
      rw [← h1, ← h2, ha]
  | cons l ls ih =>
      intro s s' r ls' h
      rw [System.await] at h
      split at h
      · rename_i a ha
        injection h with h
        injection h with h1 h2
        injection h2 with h2 _
        rw [← h1, ← h2, ha]
      · exact ih h

/-- **The rule for a wait.** It uses up labels as long as `back` has no answer. -/
theorem System.await_rule {ι : Type} {M : System σ ι} {back : σ → Option ρ}
    {R : σ → List ι → σ → Prop} (hdone : ∀ s r, back s = some r → R s [] s)
    (hstep : ∀ s l ls s', back s = none → R ((M.step s l).getD s) ls s' → R s (l :: ls) s') :
    ∀ (ls : List ι) {s s' : σ} {r : ρ} {ls' : List ι},
      M.await back s ls = some (r, s', ls') → ∃ used, ls = used ++ ls' ∧ R s used s' := by
  intro ls
  induction ls with
  | nil =>
      intro s s' r ls' h
      obtain ⟨a, ha, he⟩ := Option.map_eq_some_iff.mp h
      injection he with _ h2
      injection h2 with h2 h3
      subst h2 h3
      exact ⟨[], rfl, hdone s a ha⟩
  -- a label is used up only as long as there is no answer
  | cons l ls ih =>
      intro s s' r ls' h
      rw [System.await] at h
      split at h
      · rename_i a ha
        injection h with h
        injection h with _ h2
        injection h2 with h2 h3
        subst h2 h3
        exact ⟨[], rfl, hdone s a ha⟩
      · rename_i hnone
        obtain ⟨used, hls, hR⟩ := ih h
        exact ⟨l :: used, by rw [hls]; rfl, hstep s l used s' hnone hR⟩

/-- Whoever is through already does not wait. -/
theorem System.await_now {ι : Type} {M : System σ ι} {back : σ → Option ρ} {s : σ} {r : ρ}
    (h : back s = some r) (ls : List ι) : M.await back s ls = some (r, s, ls) := by
  cases ls with
  | nil => simp [System.await, h]
  | cons l ls => simp [System.await, h]

end Base
