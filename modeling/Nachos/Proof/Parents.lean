import Nachos.Proof.Joins

/-!
# Whose child a process is

A PCB remembers its parent by slot. `ExitUpdate` and `JoinUpdate` go through
`pcb[parentID]`, and nothing makes a process outlive its children: a parent that
exits first leaves them with a slot that is empty or, later, somebody else's.

So the link is good exactly as long as no process removes its PCB while a child of
it is alive. The field `parent`, which no step reads, remembers who it was.
-/

namespace Nachos

open Base (upd upd_self upd_ne upd_apply upd_field)

namespace PState

/-- A process removes its PCB only when no child of it is alive. -/
def Childless (s : PState) (l : Uid × Act) : Prop :=
  s.pc l.1 = .exitRemove → ∀ v, v < s.next → (s.obj v).alive = true → v ≠ 0 → (s.obj v).parent ≠ l.1

instance (s : PState) (l : Uid × Act) : Decidable (Childless s l) :=
  inferInstanceAs (Decidable (s.pc l.1 = .exitRemove →
    ∀ v, v < s.next → (s.obj v).alive = true → v ≠ 0 → (s.obj v).parent ≠ l.1))

/-- The parent of a live process is alive, and is the one its PCB names. -/
def ParentInv (s : PState) : Prop :=
  ∀ v, (s.obj v).alive = true → v ≠ 0 →
    (s.obj (s.obj v).parent).alive = true ∧ (s.obj v).parentID = (s.obj (s.obj v).parent).pid

theorem ParentInv.of_same {s s' : PState} (h : ParentInv s)
    (hobj : ∀ v, (s'.obj v).alive = (s.obj v).alive ∧ (s'.obj v).pid = (s.obj v).pid
      ∧ (s'.obj v).parentID = (s.obj v).parentID ∧ (s'.obj v).parent = (s.obj v).parent) :
    ParentInv s' := by
  intro v hv hv0
  obtain ⟨h1, _, h3, h4⟩ := hobj v
  rw [h1] at hv
  obtain ⟨ha, hp⟩ := h v hv hv0
  rw [h4, h3, (hobj _).1, (hobj _).2.1]
  exact ⟨ha, hp⟩

theorem parentInv_create {s : PState} {u : Uid} {n : Option String} {id : Nat} (ht : TableInv s)
    (h : ParentInv s) (hpc : s.pc u = .execBody n) :
    ParentInv (s.create u id (s.bm.mark id)) := by
  have hold : ∀ v, (s.obj v).alive = true → (s.create u id (s.bm.mark id)).obj v = s.obj v :=
    fun v hv => create_obj_ne _ _ _ _ _ (Nat.ne_of_lt (ht.lt_next hv))
  have hau : (s.obj u).alive = true := ht.active u (by rw [hpc]; rfl)
  intro v hv hv0
  by_cases hvn : v = s.next
  · rw [hvn, create_obj_self, hold u hau]
    exact ⟨hau, rfl⟩
  · rw [create_obj_ne _ _ _ _ _ hvn] at hv ⊢
    obtain ⟨ha, hp⟩ := h v hv hv0
    rw [hold _ ha]
    exact ⟨ha, hp⟩

theorem parentInv_delete {s : PState} {u : Uid} {a : Act} (ht : TableInv s) (h : ParentInv s)
    (hg : Childless s (u, a)) (hpc : s.pc u = .exitRemove) :
    ParentInv (s.delete u (s.obj u).pid) := by
  intro v hv hv0
  have hvu : v ≠ u := by
    intro he
    rw [he, delete_obj_self] at hv
    exact Bool.noConfusion hv
  rw [delete_obj_ne _ _ _ _ hvu] at hv ⊢
  have hpu : (s.obj v).parent ≠ u := hg hpc v (ht.lt_next hv) hv hv0
  rw [delete_obj_ne _ _ _ _ hpu]
  exact h v hv hv0

theorem parentInv_step {s s' : PState} {u : Uid} {a : Act} (ht : TableInv s) (h : ParentInv s)
    (hg : Childless s (u, a)) (he : Effect s u s') : ParentInv s' := by
  cases he with
  | create hpc _ _ _ => exact parentInv_create ht h hpc
  | delete hpc _ _ => exact parentInv_delete ht h hg hpc
  | @numWait n o k _ =>
      refine h.of_same fun v => ?_
      exact ⟨upd_field PCB.alive (by rfl) v, upd_field PCB.pid (by rfl) v,
        upd_field PCB.parentID (by rfl) v, upd_field PCB.parent (by rfl) v⟩
  | @exit ret e me o _ _ _ _ =>
      refine h.of_same fun v => ?_
      exact ⟨upd_field PCB.alive (by rfl) v, upd_field PCB.pid (by rfl) v,
        upd_field PCB.parentID (by rfl) v, upd_field PCB.parent (by rfl) v⟩
  | _ => exact h.of_same fun v => ⟨rfl, rfl, rfl, rfl⟩

/-- Every occupied slot but the first names as its parent a slot that is occupied by the process
which executed the `Exec`. -/
def ParentsLive (s : PState) : Prop :=
  ∀ i, 0 < i → i < maxProcess → s.bm.test i = true → ∃ v p, s.pcb i = some v
    ∧ (s.obj v).parent = p ∧ s.isExist (s.obj v).parentID = true
    ∧ s.slot (s.obj v).parentID = some p ∧ (s.obj p).alive = true

/--
**Parents are there.**

In every run in which a process removes its PCB only when no child of it is alive, the parent of
every process in the table is alive and in the slot that `parentID` names.
-/
theorem parents_live (s : PState) (h : sys.ReachBy Childless s) : ParentsLive s := by
  have hT := tableInv_reachable h.reachable
  have hP : ParentInv s := by
    refine inv_reachBy h ?_ ?_
    · intro hd v hv hv0
      exact absurd (by simpa [boot] using hv) hv0
    · intro s s' u a hr hI hg hst
      exact parentInv_step (tableInv_reachable hr.reachable) hI hg (step_effect hst)
  intro i h0 hmax htest
  obtain ⟨v, hv, ha⟩ := (hT.slot i hmax).mp htest
  have hv0 : v ≠ 0 := by
    intro he
    have := (hT.placed i v hv).1
    rw [he, hT.main.2] at this
    omega
  obtain ⟨hpa, hpid⟩ := hP v ha hv0
  obtain ⟨hlt, hslot⟩ := hT.held _ hpa
  refine ⟨v, _, hv, rfl, ?_, ?_, hpa⟩
  · rw [hpid]
    exact isExist_iff.mpr ⟨Int.natCast_nonneg _, Int.ofNat_lt.mpr hlt, by
      rw [Int.toNat_natCast]; exact hT.test_pid hpa⟩
  · rw [hpid, PState.slot, if_pos ⟨Int.natCast_nonneg _, Int.ofNat_lt.mpr hlt⟩, Int.toNat_natCast]
    exact hslot

/-- The initial process executes `A`, which executes `B`. -/
def familyRun : List (Uid × Act) :=
  execRun 0 "A" ++ startRun 1 ++ execRun 1 "B" ++ startRun 2

/-- `B` exits and is joined by `A`, and gets out of the table. -/
def removeRun : List (Uid × Act) :=
  [(2, .exit 0)] ++ goRun 2 7 ++ [(1, .join 2)] ++ goRun 1 8 ++ goRun 2 2

/-- After that `A` executes `C`, which has the slot of `B`. -/
theorem parents_live_removed : ∃ s, sys.ReachBy Childless s ∧ s.pcb 2 = some 3 ∧
    (s.obj 2).alive = false ∧ ParentsLive s := by
  obtain ⟨s, hr, hf⟩ := reachBy_of_run (G := Childless) (f := fun s => (s.pcb 2, (s.obj 2).alive))
    (x := (some 3, false)) (familyRun ++ removeRun ++ execRun 1 "C" ++ startRun 3)
    (by decide +kernel)
  obtain ⟨hslot, hgone⟩ := Prod.mk.inj hf
  exact ⟨s, hr, hslot, hgone, parents_live s hr⟩

/-- `A` exits and is joined while `B` is still running: the slot that `B` names is empty. -/
theorem orphan_parent_gone : ¬ ∀ s, sys.Reachable s → ParentsLive s := by
  intro h
  obtain ⟨s, hr, hf⟩ := reachable_of_run
    (f := fun s => (s.pcb 2, s.bm.test 2, (s.obj 2).parentID, s.bm.test 1))
    (x := (some 2, true, 1, false))
    (familyRun ++ [(1, .exit 0)] ++ goRun 1 7 ++ [(0, .join 1)] ++ goRun 0 8 ++ goRun 1 2)
    (by decide +kernel)
  simp only [Prod.mk.injEq] at hf
  obtain ⟨hslot, htest, hpar, hgone⟩ := hf
  obtain ⟨v, p, hv, _, hex, _, _⟩ := h s hr 2 (by decide) (by decide) htest
  rw [hslot] at hv
  rw [← Option.some.inj hv, hpar] at hex
  obtain ⟨_, _, ht⟩ := isExist_iff.mp hex
  rw [show (1 : Int).toNat = 1 from rfl, hgone] at ht
  exact Bool.noConfusion ht

end PState

end Nachos
