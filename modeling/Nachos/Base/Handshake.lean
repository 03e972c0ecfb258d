import Mathlib.Logic.Basic
import Mathlib.Order.Basic

/-!
# A handshake over two semaphores

One party, the *leaver*, releases a first semaphore and then waits for a second.
Any number of others wait for the first; whoever gets its unit, the *taker*, owes
a release of the second. So a single token goes round: it is on the first
semaphore, with a taker, on the second semaphore, or spent.

`Handshake J E T st` says where it is, from the values `J` and `E` of the two
semaphores, the set `T` of takers and the stage `st` of the leaver. The four
moves of the token are the four lemmas below.
-/

namespace Base

/-- How far the leaver is. -/
inductive Stage where
  /-- It has not released the first semaphore. -/
  | before
  /-- It has, and is not past the second. -/
  | offered
  /-- It is past both. -/
  | past
  deriving DecidableEq, Repr

/-- Where the token is. -/
inductive Handshake {α : Type} (J E : Int) (T : α → Prop) : Stage → Prop where
  | running : J = 0 → E = 0 → (∀ a, ¬ T a) → Handshake J E T .before
  | offered : J = 1 → E = 0 → (∀ a, ¬ T a) → Handshake J E T .offered
  | taken (a : α) : J = 0 → E = 0 → T a → (∀ b, T b → b = a) → Handshake J E T .offered
  | granted : J = 0 → E = 1 → (∀ a, ¬ T a) → Handshake J E T .offered
  | gone : J = 0 → E = 0 → (∀ a, ¬ T a) → Handshake J E T .past

variable {α : Type} {J E : Int} {T T' : α → Prop} {st : Stage}

theorem Handshake.values (h : Handshake J E T st) : (J = 0 ∨ J = 1) ∧ (E = 0 ∨ E = 1) := by
  cases h <;> constructor <;> first | exact .inl ‹_› | exact .inr ‹_›

theorem Handshake.congr (h : Handshake J E T st) (hT : ∀ a, T' a ↔ T a) : Handshake J E T' st := by
  have : T' = T := funext fun a => propext (hT a)
  exact this ▸ h

/-- The leaver releases the first semaphore. -/
theorem Handshake.offer (h : Handshake J E T .before) : Handshake (J + 1) E T .offered := by
  cases h with
  | running hJ hE hT => exact .offered (by omega) hE hT

/-- Somebody gets the unit of the first semaphore. -/
theorem Handshake.take {a : α} (h : Handshake J E T st) (hJ : J ≠ 0) (ha : T' a)
    (hne : ∀ b, b ≠ a → (T' b ↔ T b)) : Handshake (J - 1) E T' st := by
  cases h with
  | offered hJ1 hE hT =>
      -- the token was offered, so nobody else had taken it
      refine .taken a (by omega) hE ha fun b hb => ?_
      by_contra hba
      exact hT b ((hne b hba).mp hb)
  | running hJ0 => exact absurd hJ0 hJ
  | taken _ hJ0 => exact absurd hJ0 hJ
  | granted hJ0 => exact absurd hJ0 hJ
  | gone hJ0 => exact absurd hJ0 hJ

/-- While there is a taker, the leaver waits and both semaphores are at zero. -/
theorem Handshake.of_taker {a : α} (h : Handshake J E T st) (ha : T a) :
    st = .offered ∧ J = 0 ∧ E = 0 ∧ ∀ b, T b → b = a := by
  cases h with
  | taken c hJ hE _ huniq =>
      refine ⟨rfl, hJ, hE, fun b hb => ?_⟩
      rw [huniq b hb, huniq a ha]
  | running _ _ hT => exact absurd ha (hT a)
  | offered _ _ hT => exact absurd ha (hT a)
  | granted _ _ hT => exact absurd ha (hT a)
  | gone _ _ hT => exact absurd ha (hT a)

/-- The taker releases the second semaphore. -/
theorem Handshake.grant {a : α} (h : Handshake J E T st) (ha : T a) (ha' : ¬ T' a)
    (hne : ∀ b, b ≠ a → (T' b ↔ T b)) : Handshake J (E + 1) T' st := by
  obtain ⟨rfl, hJ, hE, huniq⟩ := h.of_taker ha
  refine .granted hJ (by omega) fun b hb => ?_
  by_cases hba : b = a
  · exact ha' (hba ▸ hb)
  · exact hba (huniq b ((hne b hba).mp hb))

/-- The leaver gets past the second semaphore. -/
theorem Handshake.leave (h : Handshake J E T st) (hE : E ≠ 0) : Handshake J (E - 1) T .past := by
  cases h with
  | granted hJ hE1 hT => exact .gone hJ (by omega) hT
  | running _ hE0 => exact absurd hE0 hE
  | offered _ hE0 => exact absurd hE0 hE
  | taken _ _ hE0 => exact absurd hE0 hE
  | gone _ hE0 => exact absurd hE0 hE

end Base
