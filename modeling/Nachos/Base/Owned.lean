import Nachos.Base.System

/-!
# Resources with one holder each

Some resources are in use, and holders have them, at most one each. `Owned` says that what is
in use is exactly what somebody has, and that nobody else has it too. A resource comes into
use by being given to a holder and goes out of use by being taken from one; those are the two
rules. What is in use without a holder cannot be taken back any more.
-/

namespace Base

variable {α β : Type} {use : β → Bool} {held : α → Option β}

/-- What is in use is what somebody has, and nobody else has it too. -/
structure Owned (use : β → Bool) (held : α → Option β) : Prop where
  use_iff : ∀ b, use b = true ↔ ∃ x, held x = some b
  unique : ∀ x y b, held x = some b → held y = some b → x = y

theorem Owned.congr {held' : α → Option β} (h : Owned use held) (he : ∀ x, held' x = held x) :
    Owned use held' := by
  have : held' = held := funext he
  exact this ▸ h

theorem Owned.nothing : Owned (fun _ : β => false) (fun _ : α => none) :=
  ⟨fun b => by simp, fun x y b hx => by simp at hx⟩

variable [DecidableEq α] [DecidableEq β]

/-- **Given out**: the resource was not in use, and the holder had none. -/
theorem Owned.give (h : Owned use held) {x : α} {b : β} (hb : use b = false) (hx : held x = none) :
    Owned (upd use b true) (upd held x (some b)) := by
  -- what is not in use nobody has
  have hfree : ∀ y, held y ≠ some b := fun y hy => by
    have := (h.use_iff b).mpr ⟨y, hy⟩
    rw [hb] at this
    exact Bool.noConfusion this
  constructor
  · intro c
    by_cases hc : c = b
    · rw [hc, upd_self]
      exact ⟨fun _ => ⟨x, upd_self _ _ _⟩, fun _ => rfl⟩
    · rw [upd_ne _ _ hc, h.use_iff]
      constructor
      · rintro ⟨y, hy⟩
        have hyx : y ≠ x := fun e => by rw [e, hx] at hy; exact absurd hy (by simp)
        exact ⟨y, by rw [upd_ne _ _ hyx]; exact hy⟩
      · rintro ⟨y, hy⟩
        by_cases hyx : y = x
        · rw [hyx, upd_self] at hy
          exact absurd (Option.some.inj hy).symm hc
        · rw [upd_ne _ _ hyx] at hy
          exact ⟨y, hy⟩
  · intro y z c hy hz
    rw [upd_apply] at hy hz
    split at hy <;> split at hz
    · rename_i h1 h2
      rw [h1, h2]
    · cases hy
      exact absurd hz (hfree z)
    · cases hz
      exact absurd hy (hfree y)
    · exact h.unique y z c hy hz

/-- **Taken back** from the one who had it. -/
theorem Owned.take (h : Owned use held) {x : α} {b : β} (hx : held x = some b) :
    Owned (upd use b false) (upd held x none) := by
  have hother : ∀ y, y ≠ x → held y ≠ some b := fun y hyx hy => hyx (h.unique y x b hy hx)
  constructor
  · intro c
    by_cases hc : c = b
    · rw [hc, upd_self]
      refine ⟨fun hf => absurd hf (by simp), ?_⟩
      rintro ⟨y, hy⟩
      by_cases hyx : y = x
      · rw [hyx, upd_self] at hy
        exact absurd hy (by simp)
      · rw [upd_ne _ _ hyx] at hy
        exact absurd hy (hother y hyx)
    · rw [upd_ne _ _ hc, h.use_iff]
      constructor
      · rintro ⟨y, hy⟩
        have hyx : y ≠ x := fun e => by
          rw [e, hx] at hy
          exact hc (Option.some.inj hy).symm
        exact ⟨y, by rw [upd_ne _ _ hyx]; exact hy⟩
      · rintro ⟨y, hy⟩
        by_cases hyx : y = x
        · rw [hyx, upd_self] at hy
          exact absurd hy (by simp)
        · rw [upd_ne _ _ hyx] at hy
          exact ⟨y, hy⟩
  · intro y z c hy hz
    rw [upd_apply] at hy hz
    split at hy
    · exact absurd hy (by simp)
    · split at hz
      · exact absurd hz (by simp)
      · exact h.unique y z c hy hz

omit [DecidableEq α] [DecidableEq β] in
/-- What its only holder lets go of without giving it back has no holder left. -/
theorem Owned.lost (h : Owned use held) {held' : α → Option β} {x : α} {b : β}
    (hx : held x = some b) (hx' : held' x ≠ some b)
    (hsub : ∀ y c, held' y = some c → held y = some c) : ∀ y, held' y ≠ some b := by
  intro y hy
  have hyx := h.unique y x b (hsub y b hy) hx
  rw [hyx] at hy
  exact hx' hy

end Base
