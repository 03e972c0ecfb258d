import Nachos.Base.System
import Mathlib.Data.Set.Insert

/-!
# Monitors with conditions

What a monitor of the Mesa kind is for. At most one party is inside. A party inside may wait on a
condition, and has left the monitor then. A signal makes the party that has waited longest one
of those that want to enter, a broadcast all of them; the signaller stays inside. Which
of the parties that want to enter is the next is left open.

The state says no more than who is inside, who wants to enter, and who waits for what in which
order. An implementation is right if its runs are runs of this.
-/

namespace Base

/-- A monitor for parties in `θ`, with a condition for each element of `κ`. -/
structure Mesa (θ κ : Type) where
  inside : Option θ
  /-- Who has called, or has been woken, and has not entered yet. -/
  entering : Set θ
  /-- Who waits on a condition, the longest first. -/
  waiting : κ → List θ

/-- What can be seen of the parties. -/
inductive MesaEvent (θ κ : Type) where
  /-- Somebody outside wants to enter. -/
  | call (t : θ)
  | enter (t : θ)
  | leave (t : θ)
  | wait (t : θ) (c : κ)
  | signal (t : θ) (c : κ)
  | broadcast (t : θ) (c : κ)
  deriving DecidableEq

namespace Mesa

variable {θ κ : Type} [DecidableEq κ]

/-- Nobody is there. -/
def empty : Mesa θ κ := ⟨none, ∅, fun _ => []⟩

/-- The party is neither inside nor on its way there. -/
def Outside (m : Mesa θ κ) (t : θ) : Prop :=
  m.inside ≠ some t ∧ t ∉ m.entering ∧ ∀ c, t ∉ m.waiting c

/-- **What a monitor is for.** -/
inductive Step : Mesa θ κ → MesaEvent θ κ → Mesa θ κ → Prop where
  | call {m : Mesa θ κ} {t : θ} : m.Outside t →
      Step m (.call t) { m with entering := insert t m.entering }
  | enter {m : Mesa θ κ} {t : θ} : m.inside = none → t ∈ m.entering →
      Step m (.enter t) { m with inside := some t, entering := m.entering \ {t} }
  | leave {m : Mesa θ κ} {t : θ} : m.inside = some t → Step m (.leave t) { m with inside := none }
  | wait {m : Mesa θ κ} {t : θ} {c : κ} : m.inside = some t →
      Step m (.wait t c) { m with inside := none, waiting := upd m.waiting c (m.waiting c ++ [t]) }
  /-- There is nobody to wake. -/
  | unheard {m : Mesa θ κ} {t : θ} {c : κ} : m.inside = some t → m.waiting c = [] →
      Step m (.signal t c) m
  | signal {m : Mesa θ κ} {t u : θ} {c : κ} {us : List θ} : m.inside = some t →
      m.waiting c = u :: us →
      Step m (.signal t c) { m with entering := insert u m.entering, waiting := upd m.waiting c us }
  | broadcast {m : Mesa θ κ} {t : θ} {c : κ} : m.inside = some t →
      Step m (.broadcast t c)
        { m with entering := m.entering ∪ { u | u ∈ m.waiting c }, waiting := upd m.waiting c [] }

/-- What a sequence of events leads to. -/
inductive Run : Mesa θ κ → List (MesaEvent θ κ) → Mesa θ κ → Prop where
  | nil (m : Mesa θ κ) : Run m [] m
  | snoc {m m' m'' : Mesa θ κ} {es : List (MesaEvent θ κ)} {e : MesaEvent θ κ} :
      Run m es m' → Step m' e m'' → Run m (es ++ [e]) m''

variable {m m' : Mesa θ κ} {es : List (MesaEvent θ κ)}

/-- Only its own step takes a party that wants to enter in. -/
theorem Step.entering {e : MesaEvent θ κ} {t : θ} (hs : Step m e m') (hne : e ≠ .enter t)
    (ht : t ∈ m.entering) : t ∈ m'.entering := by
  cases hs with
  | call _ => exact Set.mem_insert_of_mem _ ht
  | enter _ _ =>
      exact ⟨ht, fun he => hne (congrArg MesaEvent.enter (Set.mem_singleton_iff.mp he).symm)⟩
  | leave _ => exact ht
  | wait _ => exact ht
  | unheard _ _ => exact ht
  | signal _ _ => exact Set.mem_insert_of_mem _ ht
  | broadcast _ => exact Set.mem_union_left _ ht

/-- A run goes on with what a step is seen as, if anything. -/
theorem Run.extend (h : Run m es m') {o : Option (MesaEvent θ κ)} {P : Mesa θ κ → Prop}
    (hnone : o = none → P m') (hsome : ∀ e, o = some e → ∃ m'', Step m' e m'' ∧ P m'') :
    ∃ m'', Run m (es ++ o.toList) m'' ∧ P m'' := by
  cases o with
  | none => exact ⟨m', by simpa using h, hnone rfl⟩
  | some e =>
      obtain ⟨m'', hstep, hP⟩ := hsome e rfl
      exact ⟨m'', .snoc h hstep, hP⟩

end Mesa

end Base
