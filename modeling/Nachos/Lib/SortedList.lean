import Mathlib.Data.List.Perm.Basic

/-!
# The sorted list of `lib/list.cc`

`Insert` walks past every element that is not bigger than the new one, so among equals
the new one comes last. What order that makes of the whole list is for the caller to
say: `insert_pairwise` asks only that a comparison decides, for the new element and each
old one, which of the two comes first.
-/

namespace Nachos

namespace SortedList

variable {α : Type}

/-- `Insert`: in front of the first element that is bigger. -/
def insert (compare : α → α → Int) (item : α) : List α → List α
  | [] => [item]
  | y :: ys => if compare item y < 0 then item :: y :: ys else y :: insert compare item ys

theorem insert_perm (compare : α → α → Int) (item : α) :
    ∀ l : List α, (insert compare item l).Perm (item :: l) := by
  intro ys
  induction ys with
  | nil => exact .refl _
  | cons y ys ih =>
      rw [insert]
      split
      · exact .refl _
      · exact (ih.cons y).trans (.swap item y ys)

/-- **`Insert` keeps the order.** -/
theorem insert_pairwise {compare : α → α → Int} {R : α → α → Prop} {item : α}
    (htrans : ∀ a b c, R a b → R b c → R a c) :
    ∀ {l : List α}, (∀ y ∈ l, compare item y < 0 → R item y) →
      (∀ y ∈ l, ¬ compare item y < 0 → R y item) → l.Pairwise R →
      (insert compare item l).Pairwise R := by
  intro ys
  induction ys with
  | nil => intro _ _ _; exact List.pairwise_singleton R item
  | cons y ys ih =>
      intro hlt hge h
      obtain ⟨hy, hys⟩ := List.pairwise_cons.mp h
      rw [insert]
      split
      · rename_i hc
        have hiy := hlt y List.mem_cons_self hc
        refine List.pairwise_cons.mpr ⟨?_, h⟩
        intro z hz
        rcases List.mem_cons.mp hz with hzy | hzy
        · exact hzy ▸ hiy
        · exact htrans item y z hiy (hy z hzy)
      · rename_i hc
        refine List.pairwise_cons.mpr ⟨?_, ?_⟩
        · intro z hz
          rcases List.mem_cons.mp ((insert_perm compare item ys).mem_iff.mp hz) with hzi | hzi
          · exact hzi ▸ hge y List.mem_cons_self hc
          · exact hy z hzi
        · exact ih (fun z hz => hlt z (List.mem_cons_of_mem y hz))
            (fun z hz => hge z (List.mem_cons_of_mem y hz)) hys

end SortedList

end Nachos
