import Nachos.Proof.Joins

/-!
# Nobody is left waiting on a deleted PCB

`Semaphore::~Semaphore` assumes that nobody is still waiting. `Remove` deletes the
three semaphores of a PCB, so whoever is queued on one of them then sleeps for
good. Two things can go wrong, and both need the process to be gone through
`exitsem` already.

A parent that calls `Join` a second time, after the child was released and before
it has run `Remove`, finds the bit still set and queues on a `joinsem` that will
not be released again. And two children of the process that exit at the same time
meet in `DecNumWait` at its `multex`.
-/

namespace Nachos

open Base (upd upd_self upd_ne upd_apply Stage)

/-- The process whose `DecNumWait` this one is in. -/
def PC.decObj : PC → Option Uid
  | .exitDec o => some o
  | .exitDecr o => some o
  | .exitDecV o => some o
  | _ => none

namespace PState

/-- `Remove` is called while nobody is in `DecNumWait` of the PCB. -/
def CalmRemove (s : PState) (l : Uid × Act) : Prop :=
  s.pc l.1 = .exitRemove → ∀ v, v < s.next → (s.pc v).decObj ≠ some l.1

instance (s : PState) (l : Uid × Act) : Decidable (CalmRemove s l) :=
  inferInstanceAs
    (Decidable (s.pc l.1 = .exitRemove → ∀ v, v < s.next → (s.pc v).decObj ≠ some l.1))

/-- No second `Join`, and no `Remove` during a `DecNumWait`. -/
def Orderly (s : PState) (l : Uid × Act) : Prop := FirstJoin s l ∧ CalmRemove s l

instance (s : PState) (l : Uid × Act) : Decidable (Orderly s l) :=
  inferInstanceAs (Decidable (FirstJoin s l ∧ CalmRemove s l))

/-- When a process removes itself, nobody is queued on its semaphores. -/
theorem queued_nil {s : PState} {u : Uid} {a : Act} (ht : TableInv s) (hq : QueueInv s)
    (ho : ObjInv s) (hf : FirstInv s) (hg : CalmRemove s (u, a)) (hpc : s.pc u = .exitRemove) :
    s.queued u = [] := by
  have hempty : ∀ r, (∀ t k, (s.pc t).waits = some (r, k) → False) → (s.sem r).queue = [] := by
    intro r hno
    refine List.eq_nil_iff_forall_not_mem.mpr fun t ht' => ?_
    obtain ⟨k, hk⟩ := hq r t ht'
    exact hno t k hk
  have hjoin : (s.sem (.joinsem u)).queue = [] := by
    refine hempty _ fun t k hk => ?_
    cases hp : s.pc t <;> rw [hp] at hk <;> simp [PC.waits] at hk
    rename_i c g o
    -- a process that is being joined is not past `exitsem`
    have hou := hf.same t c g o (by rw [hp]; rfl) (by rw [hp]; rfl)
    have hw := hf.waited t c g (by rw [hp]; rfl)
    rw [← hou, hk.1] at hw
    exact hw.notPast (by rw [hpc]; rfl)
  have hexit : (s.sem (.exitsem u)).queue = [] := by
    refine hempty _ fun t k hk => ?_
    have hfits := ho t
    cases hp : s.pc t <;> rw [hp] at hk hfits <;> simp [PC.waits] at hk
    rename_i o
    -- nobody waits for the `exitsem` of another
    replace hfits : o = t := hfits
    rw [← hfits, hk.1, hpc] at hp
    exact PC.noConfusion hp
  have hmul : (s.sem (.multex u)).queue = [] := by
    refine hempty _ fun t k hk => ?_
    have hfits := ho t
    cases hp : s.pc t <;> rw [hp] at hk hfits <;> simp [PC.waits] at hk
    case execLock id o =>
        -- whoever is about to be forked does not run
        have := (ht.target t o (by rw [hp]; rfl)).2
        rw [hk.1, hpc] at this
        exact PC.noConfusion this
    case joinInc c g o =>
        replace hfits : o = t := hfits
        rw [← hfits, hk.1, hpc] at hp
        exact PC.noConfusion hp
    case exitDec o =>
        have hlt := ht.lt_next (ht.active t (by rw [hp]; rfl))
        exact hg hpc t hlt (by rw [hp, hk.1]; rfl)
  rw [queued, hjoin, hexit, hmul]
  rfl

theorem stranded_step {s s' : PState} {u : Uid} (he : Effect s u s') :
    s'.stranded = s.stranded ∨ (s.pc u = .exitRemove ∧ s'.stranded = s.stranded ++ s.queued u) := by
  cases he with
  | delete hpc => exact .inr ⟨hpc, rfl⟩
  | _ => exact .inl rfl

/--
**Nobody is stranded.**

In every run with no second `Join` on a process and no `Remove` during a `DecNumWait` of the PCB,
whenever a PCB is deleted no thread is queued on its `joinsem`, `exitsem` or `multex`.
-/
theorem none_stranded (s : PState) (h : sys.ReachBy Orderly s) : s.stranded = [] := by
  refine inv_reachBy (I := fun s => s.stranded = []) h (fun _ => rfl) ?_
  intro s s' u a hr hI hg hst
  have hr' := hr.reachable
  rcases stranded_step (step_effect hst) with he | ⟨hpc, he⟩
  · rw [he]; exact hI
  · rw [he, hI, queued_nil (tableInv_reachable hr') (queueInv_reachable hr')
      (objInv_reachable hr') (firstInv_reachBy (fun _ _ hg => hg.1) hr) hg.2 hpc]
    rfl

/-- One `Join`, one `Exit`, and the child is gone. -/
theorem none_stranded_meet : ∃ s, sys.ReachBy Orderly s ∧ s.pc 1 = .finished ∧ s.stranded = [] := by
  obtain ⟨s, hr, hf⟩ := reachBy_of_run (G := Orderly) (f := fun s => s.pc 1) (x := .finished)
    (meetRun ++ goRun 0 4 ++ goRun 1 2) (by decide +kernel)
  exact ⟨s, hr, hf, none_stranded s hr⟩

/-- The initial process joins its child again before the child has run `Remove`. -/
theorem second_join_stranded : ¬ ∀ s, sys.Reachable s → s.stranded = [] := by
  intro h
  obtain ⟨s, hr, hf⟩ := reachable_of_run (f := fun s => s.stranded) (x := [0])
    (meetRun ++ goRun 0 4 ++ [(0, .join 1)] ++ goRun 0 5 ++ goRun 1 2) (by decide +kernel)
  rw [h s hr] at hf
  exact absurd hf (by simp)

end PState

end Nachos
