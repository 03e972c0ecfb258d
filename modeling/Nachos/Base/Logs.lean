import Nachos.Base.Program

/-!
# Programs that keep a log

What a program asks of its surroundings is not always in its result, and is all that is left of a
program that stops. Here a program notes such events in a log beside its state. `Emits ok` says that
it notes nothing but events of one kind, however it ends. `Erases` says that without the log it is
another program.
-/

namespace Base

variable {ε σ η α β : Type}

/-- A state with a log beside it. -/
structure Logged (σ η : Type) where
  state : σ
  log : List η

/-- The event `e` has happened. -/
def note (e : η) : EStateM ε (Logged σ η) Unit := modify fun s => { s with log := s.log ++ [e] }

/-- A program that notes nothing. -/
def quiet (x : EStateM ε σ α) : EStateM ε (Logged σ η) α := fun s =>
  match x s.state with
  | .ok a t => .ok a { s with state := t }
  | .error e t => .error e { s with state := t }

/-- Where a program is when it is over, in either way. -/
def final : EStateM.Result ε σ α → σ
  | .ok _ s => s
  | .error _ s => s

theorem quiet_ok {x : EStateM ε σ α} {s : Logged σ η} {a : α} {t : σ} (h : x s.state = .ok a t) :
    quiet x s = .ok a { s with state := t } := by
  unfold quiet
  rw [h]

theorem final_quiet (x : EStateM ε σ α) (s : Logged σ η) : (final (quiet x s)).log = s.log := by
  unfold quiet
  split <;> rfl

theorem final_bind (x : EStateM ε σ α) (k : α → EStateM ε σ β) (s : σ) :
    (∃ a t, x s = .ok a t ∧ final ((x >>= k) s) = final (k a t)) ∨
    ∃ e t, x s = .error e t ∧ final ((x >>= k) s) = t := by
  cases h : x s with
  | ok a t => exact .inl ⟨a, t, rfl, by rw [bind_eq_of_ok h]⟩
  | error e t => exact .inr ⟨e, t, rfl, by rw [bind_eq_of_error h]; rfl⟩

/-! ## Nothing but allowed events -/

/-- However it ends, the program has noted nothing but events in `ok`. -/
def Emits (ok : η → Prop) (x : EStateM ε (Logged σ η) α) : Prop :=
  ∀ s, ∀ e ∈ (final (x s)).log, e ∈ s.log ∨ ok e

section Emits

variable {ok : η → Prop}

theorem Emits.pure (a : α) : Emits ok (Pure.pure a : EStateM ε (Logged σ η) α) :=
  fun _ _ he => .inl he

theorem Emits.throw (e : ε) : Emits ok (throw e : EStateM ε (Logged σ η) α) :=
  fun _ _ he => .inl he

theorem Emits.note {e : η} (he : ok e) : Emits ok (note e : EStateM ε (Logged σ η) Unit) := by
  intro s e' h
  rcases List.mem_append.mp h with h | h
  · exact .inl h
  · exact .inr (List.mem_singleton.mp h ▸ he)

theorem Emits.quiet (x : EStateM ε σ α) : Emits ok (quiet x : EStateM ε (Logged σ η) α) := by
  intro s e he
  rw [final_quiet] at he
  exact .inl he

theorem Emits.bind {x : EStateM ε (Logged σ η) α} {k : α → EStateM ε (Logged σ η) β}
    (hx : Emits ok x) (hk : ∀ a, Emits ok (k a)) : Emits ok (x >>= k) := by
  intro s e he
  rcases final_bind x k s with ⟨a, t, hxs, hf⟩ | ⟨err, t, hxs, hf⟩
  · rw [hf] at he
    rcases hk a t e he with he | he
    · exact hx s e (by rw [hxs]; exact he)
    · exact .inr he
  · rw [hf] at he
    exact hx s e (by rw [hxs]; exact he)

theorem Emits.ite {c : Prop} [Decidable c] {x y : EStateM ε (Logged σ η) α} (hx : c → Emits ok x)
    (hy : ¬ c → Emits ok y) : Emits ok (if c then x else y) := by
  split
  · exact hx ‹_›
  · exact hy ‹_›

end Emits

/-! ## Nothing is taken back -/

/-- What is in the log stays there. -/
def Grows (x : EStateM ε (Logged σ η) α) : Prop := ∀ s, ∀ e ∈ s.log, e ∈ (final (x s)).log

theorem Grows.pure (a : α) : Grows (Pure.pure a : EStateM ε (Logged σ η) α) := fun _ _ he => he

theorem Grows.note (e : η) : Grows (note e : EStateM ε (Logged σ η) Unit) :=
  fun _ _ he => List.mem_append_left _ he

theorem Grows.quiet (x : EStateM ε σ α) : Grows (quiet x : EStateM ε (Logged σ η) α) := by
  intro s e he
  rw [final_quiet]
  exact he

/-- What the first part has noted is in the log at the end. -/
theorem mem_bind {x : EStateM ε (Logged σ η) α} {k : α → EStateM ε (Logged σ η) β} {s : Logged σ η}
    {e : η} (hx : e ∈ (final (x s)).log) (hk : ∀ a, Grows (k a)) :
    e ∈ (final ((x >>= k) s)).log := by
  rcases final_bind x k s with ⟨a, t, hxs, hf⟩ | ⟨err, t, hxs, hf⟩
  · rw [hxs] at hx
    rw [hf]
    exact hk a t e hx
  · rw [hxs] at hx
    rw [hf]
    exact hx

theorem Grows.bind {x : EStateM ε (Logged σ η) α} {k : α → EStateM ε (Logged σ η) β}
    (hx : Grows x) (hk : ∀ a, Grows (k a)) : Grows (x >>= k) :=
  fun s e he => mem_bind (hx s e he) hk

theorem mem_note (e : η) (s : Logged σ η) :
    e ∈ (final (note e s : EStateM.Result ε (Logged σ η) Unit)).log :=
  List.mem_append_right _ List.mem_cons_self

/-! ## Without the log -/

/-- The result without the log. -/
def forget : EStateM.Result ε (Logged σ η) α → EStateM.Result ε σ α
  | .ok a s => .ok a s.state
  | .error e s => .error e s.state

/-- Without its log, `x` is `y`. -/
def Erases (x : EStateM ε (Logged σ η) α) (y : EStateM ε σ α) : Prop :=
  ∀ s, forget (x s) = y s.state

section Erases

variable {x : EStateM ε (Logged σ η) α} {y : EStateM ε σ α}

theorem Erases.pure (a : α) : Erases (Pure.pure a : EStateM ε (Logged σ η) α) (Pure.pure a) :=
  fun _ => rfl

theorem Erases.quiet (y : EStateM ε σ α) : Erases (quiet y : EStateM ε (Logged σ η) α) y := by
  intro s
  unfold Base.quiet
  cases y s.state <;> rfl

theorem Erases.bind {k : α → EStateM ε (Logged σ η) β} {l : α → EStateM ε σ β} (hx : Erases x y)
    (hk : ∀ a, Erases (k a) (l a)) : Erases (x >>= k) (y >>= l) := by
  intro s
  have hs := hx s
  cases h : x s with
  | ok a t =>
      rw [h] at hs
      rw [bind_eq_of_ok h, bind_eq_of_ok hs.symm]
      exact hk a t
  | error e t =>
      rw [h] at hs
      rw [bind_eq_of_error h, bind_eq_of_error hs.symm]
      rfl

/-- A note is all that is lost. -/
theorem Erases.note {k : Unit → EStateM ε (Logged σ η) α} (e : η) (hk : Erases (k ()) y) :
    Erases (note e >>= k) y :=
  fun s => hk { s with log := s.log ++ [e] }

theorem Erases.ite {c : Prop} [Decidable c] {x' : EStateM ε (Logged σ η) α} {y' : EStateM ε σ α}
    (hx : c → Erases x y) (hx' : ¬ c → Erases x' y') :
    Erases (if c then x else x') (if c then y else y') := by
  split
  · exact hx ‹_›
  · exact hx' ‹_›

end Erases

end Base
