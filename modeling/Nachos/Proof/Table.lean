import Nachos.Proof.Effects

/-!
# The process table

A bitmap and an array of pointers, changed at different moments by processes that
block and resume in between. `TableInv` is what ties them together: a bit is set
exactly while the pointer beside it leads to a live PCB, a live PCB sits in the
slot of its own id, and a process that can still run has a live PCB.

`bmsem` is read through the processes that are past its `P` and not past its `V`.
There is at most one of them, so each of the five ways out of `ExecUpdate` finds
the semaphore at zero and leaves it at one.
-/

namespace Nachos

open Base (upd upd_self upd_ne upd_apply upd_field Exclusive)

/-- Forked and not finished. -/
def PC.active : PC → Bool
  | .unborn => false
  | .finished => false
  | _ => true

/-- The PCB whose thread this process is about to fork. -/
def PC.target : PC → Option Uid
  | .execLock _ o => some o
  | .execFork _ o => some o
  | _ => none

/-- Past `bmsem->P()` and not past `bmsem->V()`. -/
def PC.inExec : PC → Bool
  | .execBody _ => true
  | .execFail => true
  | .execLock _ _ => true
  | .execFork _ _ => true
  | .execUnlock _ _ => true
  | .execDone _ => true
  | _ => false

/-- In `ExitUpdate`, past its checks. -/
def PC.exiting : PC → Bool
  | .exitDec _ => true
  | .exitDecr _ => true
  | .exitDecV _ => true
  | .exitRel => true
  | .exitPost _ => true
  | .exitGo => true
  | .exitWait _ => true
  | .exitRemove => true
  | _ => false

/-- The slot that a call of `ExecUpdate` has taken. -/
def PC.execId : PC → Option Nat
  | .execLock id _ => some id
  | .execFork id _ => some id
  | .execUnlock id _ => some id
  | .execDone id => some id
  | _ => none

/-- What a `P` changes of all this: only that of `bmsem` leads into `ExecUpdate`. -/
theorem PC.waits_spec {p k : PC} {r : SemRef} (h : p.waits = some (r, k)) :
    p.active = true ∧ k.target = p.target ∧ k.exiting = p.exiting
      ∧ (r = .bmsem → p.inExec = false ∧ k.inExec = true)
      ∧ (r ≠ .bmsem → k.inExec = p.inExec) := by
  cases p <;> simp only [PC.waits, Option.some.injEq, Prod.mk.injEq, reduceCtorEq] at h <;>
    (obtain ⟨rfl, rfl⟩ := h; simp [PC.active, PC.target, PC.exiting, PC.inExec])

theorem PC.posts_spec {p k : PC} {r : SemRef} (h : p.posts = some (r, k)) :
    p.active = true ∧ k.target = p.target ∧ (k.exiting = true → p.exiting = true)
      ∧ (r = .bmsem → p.inExec = true ∧ k.inExec = false)
      ∧ (r ≠ .bmsem → k.inExec = p.inExec) := by
  cases p <;> simp only [PC.posts, Option.some.injEq, Prod.mk.injEq, reduceCtorEq] at h <;>
    (obtain ⟨rfl, rfl⟩ := h; simp [PC.active, PC.target, PC.exiting, PC.inExec])

namespace PState

theorem Move.spec {s : PState} {u : Uid} {k : PC} (h : Move s u k) :
    (s.pc u).active = true ∧ k.target = (s.pc u).target
      ∧ (k.exiting = true → (s.pc u).exiting = true) ∧ k.inExec = (s.pc u).inExec := by
  cases h <;> rename_i hpc <;> simp [*, PC.active, PC.target, PC.exiting, PC.inExec]

/-- The process table is in order. -/
structure TableInv (s : PState) : Prop where
  /-- One bit for each slot. -/
  numBits : s.bm.numBits = maxProcess
  /-- A bit is set while its slot leads to a live PCB. -/
  slot : ∀ i, i < maxProcess →
    (s.bm.test i = true ↔ ∃ u, s.pcb i = some u ∧ (s.obj u).alive = true)
  /-- A live PCB is in the slot of its id. -/
  held : ∀ u, (s.obj u).alive = true → (s.obj u).pid < maxProcess ∧ s.pcb (s.obj u).pid = some u
  /-- Slots hold PCBs of their own id only. -/
  placed : ∀ i u, s.pcb i = some u → (s.obj u).pid = i ∧ u < s.next
  /-- The initial process is there. -/
  main : (s.obj 0).alive = true ∧ (s.obj 0).pid = 0
  /-- Names that were not given out stand for nothing. -/
  fresh : ∀ u, s.next ≤ u → (s.obj u).alive = false ∧ s.pc u = .unborn
  /-- Whoever can run is alive. -/
  active : ∀ u, (s.pc u).active = true → (s.obj u).alive = true
  /-- Whoever is about to be forked is alive and cannot run yet. -/
  target : ∀ u o, (s.pc u).target = some o → (s.obj o).alive = true ∧ s.pc o = .unborn
  /-- The initial process does not get past the checks of `ExitUpdate`. -/
  exiting : ∀ u, (s.pc u).exiting = true → u ≠ 0
  /-- One process at a time is inside `ExecUpdate`. -/
  excl : Exclusive (s.sem .bmsem).value (fun u => (s.pc u).inExec = true)

theorem TableInv.lt_next {s : PState} (h : TableInv s) {u : Uid} (hu : (s.obj u).alive = true) :
    u < s.next := by
  by_contra hge
  have := (h.fresh u (Nat.le_of_not_lt hge)).1
  rw [this] at hu
  exact Bool.noConfusion hu

theorem TableInv.test_pid {s : PState} (h : TableInv s) {u : Uid} (hu : (s.obj u).alive = true) :
    s.bm.test (s.obj u).pid = true :=
  (h.slot _ (h.held u hu).1).mpr ⟨u, (h.held u hu).2, hu⟩

theorem TableInv.pid_inj {s : PState} (h : TableInv s) {u v : Uid} (hu : (s.obj u).alive = true)
    (hv : (s.obj v).alive = true) (he : (s.obj u).pid = (s.obj v).pid) : u = v := by
  have h1 := (h.held u hu).2
  rw [he, (h.held v hv).2] at h1
  exact (Option.some.inj h1).symm

/-- A process that can run has its bit set: `Remove` never finds it clear. -/
theorem TableInv.not_keep {s : PState} (h : TableInv s) {u : Uid} (hpc : s.pc u = .exitRemove)
    (htest : s.bm.test (s.obj u).pid = false) : False := by
  rw [h.test_pid (h.active u (by rw [hpc]; rfl))] at htest
  exact Bool.noConfusion htest

/-- A process that moves on leaves the table in order, as long as it leaves the table alone. -/
theorem TableInv.of_pc {s s' : PState} {u : Uid} {k : PC} (h : TableInv s) (hbm : s'.bm = s.bm)
    (hpcb : s'.pcb = s.pcb) (hnext : s'.next = s.next)
    (hobj : ∀ v, (s'.obj v).alive = (s.obj v).alive ∧ (s'.obj v).pid = (s.obj v).pid)
    (hpc : s'.pc = upd s.pc u k) (hu : (s.pc u).active = true)
    (htarget : k.target = (s.pc u).target) (hexit : k.exiting = true → u ≠ 0)
    (hexcl : Exclusive (s'.sem .bmsem).value (fun v => (s'.pc v).inExec = true)) : TableInv s' where
  numBits := by rw [hbm]; exact h.numBits
  slot := by
    intro i hi
    rw [hbm, hpcb, h.slot i hi]
    constructor
    · rintro ⟨v, hv, ha⟩; exact ⟨v, hv, by rw [(hobj v).1]; exact ha⟩
    · rintro ⟨v, hv, ha⟩; exact ⟨v, hv, by rw [← (hobj v).1]; exact ha⟩
  held := by
    intro v hv
    rw [(hobj v).1] at hv
    rw [(hobj v).2, hpcb]
    exact h.held v hv
  placed := by
    intro i v hv
    rw [hpcb] at hv
    rw [(hobj v).2, hnext]
    exact h.placed i v hv
  main := by rw [(hobj 0).1, (hobj 0).2]; exact h.main
  fresh := by
    intro v hv
    rw [hnext] at hv
    have hne : v ≠ u := fun he =>
      Nat.not_lt.mpr hv (he ▸ h.lt_next (h.active u hu))
    rw [(hobj v).1, hpc, upd_ne _ _ hne]
    exact h.fresh v hv
  active := by
    intro v hv
    rw [hpc, upd_apply] at hv
    rw [(hobj v).1]
    split at hv
    · rename_i hvu; rw [hvu]; exact h.active u hu
    · exact h.active v hv
  target := by
    intro v o ht
    have ht' : (s.pc v).target = some o := by
      rw [hpc, upd_apply] at ht
      split at ht
      · rename_i hvu; rw [hvu, ← htarget]; exact ht
      · exact ht
    obtain ⟨ha, hb⟩ := h.target v o ht'
    -- nobody forks a process that is already running
    have hne : o ≠ u := by
      intro he
      rw [← he, hb] at hu
      exact Bool.noConfusion hu
    rw [(hobj o).1, hpc, upd_ne _ _ hne]
    exact ⟨ha, hb⟩
  exiting := by
    intro v hv
    rw [hpc, upd_apply] at hv
    split at hv
    · rename_i hvu; rw [hvu]; exact hexit hv
    · exact h.exiting v hv
  excl := hexcl

theorem TableInv.excl_same {s : PState} (h : TableInv s) {u : Uid} {k : PC}
    (hk : k.inExec = (s.pc u).inExec) :
    Exclusive (s.sem .bmsem).value (fun v => (upd s.pc u k v).inExec = true) := by
  refine h.excl.congr fun v => ?_
  rw [upd_apply]
  split
  · rename_i hvu; rw [hvu, hk]
  · rfl

theorem inExec_others (s : PState) (u : Uid) (k : PC) (v : Uid) (hv : v ≠ u) :
    ((upd s.pc u k v).inExec = true ↔ (s.pc v).inExec = true) := by
  rw [upd_ne _ _ hv]

theorem excl_value {v : Int} {α : Type} {I : α → Prop} (h : Exclusive v I) : v = 0 ∨ v = 1 := by
  rcases h with ⟨h, _⟩ | ⟨h, _⟩
  · exact .inr h
  · exact .inl h

theorem tableInv_pass {s : PState} {u : Uid} {r : SemRef} {k : PC} (h : TableInv s)
    (hw : (s.pc u).waits = some (r, k)) (hv : (s.sem r).value ≠ 0) :
    TableInv (s.passed u r k) := by
  obtain ⟨hact, htar, hexi, hin, hout⟩ := PC.waits_spec hw
  refine h.of_pc rfl rfl rfl (fun _ => ⟨rfl, rfl⟩) rfl hact htar ?_ ?_
  · intro hx; exact h.exiting u (hexi ▸ hx)
  · show Exclusive (upd s.sem r _ .bmsem).value _
    by_cases hr : r = .bmsem
    · subst hr
      rw [upd_self]
      obtain ⟨_, hk⟩ := hin rfl
      have hrange := excl_value h.excl
      show Exclusive (toInt32 _) _
      rw [toInt32_of_range (by omega) (by simp only [intMax]; omega)]
      exact h.excl.enter (a := u) (J := fun v => (upd s.pc u k v).inExec = true) hv
        (by rw [upd_self]; exact hk) (inExec_others s u k)
    · rw [upd_ne _ _ (Ne.symm hr)]
      exact h.excl_same (hout hr)

theorem tableInv_post {s : PState} {u : Uid} {r : SemRef} {k : PC} (h : TableInv s)
    (hp : (s.pc u).posts = some (r, k)) : TableInv (s.V u r k) := by
  obtain ⟨hact, htar, hexi, hin, hout⟩ := PC.posts_spec hp
  refine h.of_pc rfl rfl rfl (fun _ => ⟨rfl, rfl⟩) rfl hact htar ?_ ?_
  · intro hx; exact h.exiting u (hexi hx)
  · show Exclusive (upd s.sem r _ .bmsem).value _
    by_cases hr : r = .bmsem
    · subst hr
      rw [upd_self]
      obtain ⟨hu, hk⟩ := hin rfl
      obtain ⟨hz, hex⟩ := h.excl.leave (a := u) (J := fun v => (upd s.pc u k v).inExec = true) hu
        (by rw [upd_self, hk]; exact Bool.noConfusion) (inExec_others s u k)
      show Exclusive (toInt32 _) _
      rw [toInt32_of_range (by omega) (by simp only [intMax]; omega)]
      exact hex
    · rw [upd_ne _ _ (Ne.symm hr)]
      exact h.excl_same (hout hr)

theorem tableInv_create {s : PState} {u : Uid} {n : Option String} {id : Nat} (h : TableInv s)
    (hpc : s.pc u = .execBody n) (hid : id < s.bm.numBits) (hclear : s.bm.test id = false) :
    TableInv (s.create u id (s.bm.mark id)) := by
  have hau : (s.obj u).alive = true := h.active u (by rw [hpc]; rfl)
  have hun : u ≠ s.next := Nat.ne_of_lt (h.lt_next hau)
  have hid' : id < maxProcess := h.numBits ▸ hid
  have htest : ∀ j, ((s.bm.mark id).mark id).test j = (decide (j = id) || s.bm.test j) := by
    intro j
    rw [Bitmap.test_mark (by rw [Bitmap.numBits_mark]; exact hid), Bitmap.test_mark hid]
    cases decide (j = id) <;> simp
  -- whoever was alive keeps object and slot: the slot taken was clear
  have hold : ∀ v, (s.obj v).alive = true → v ≠ s.next ∧ (s.obj v).pid ≠ id := by
    intro v hv
    refine ⟨Nat.ne_of_lt (h.lt_next hv), fun he => ?_⟩
    rw [← he, h.test_pid hv] at hclear
    exact Bool.noConfusion hclear
  have hobj : ∀ v, v ≠ s.next → (s.create u id (s.bm.mark id)).obj v = s.obj v :=
    fun v hv => upd_ne _ _ hv
  have hpcs : ∀ v, v ≠ u → (s.create u id (s.bm.mark id)).pc v = s.pc v := fun v hv => upd_ne _ _ hv
  have hpu : (s.create u id (s.bm.mark id)).pc u = .execLock id s.next := upd_self _ _ _
  refine
    { numBits := h.numBits, slot := ?_, held := ?_, placed := ?_, main := ?_, fresh := ?_,
      active := ?_, target := ?_, exiting := ?_, excl := ?_ }
  · -- bit and pointer of the new slot come together, the other slots stay
    intro i hi
    show ((s.bm.mark id).mark id).test i = true ↔ ∃ v, upd s.pcb id (some s.next) i = some v ∧ _
    rw [htest]
    by_cases hi' : i = id
    · subst hi'
      simp [create]
    · simp only [hi', decide_false, Bool.false_or, upd_ne _ _ hi']
      rw [h.slot i hi]
      constructor
      · rintro ⟨v, hv, ha⟩; exact ⟨v, hv, by rw [hobj v (hold v ha).1]; exact ha⟩
      · rintro ⟨v, hv, ha⟩
        rw [hobj v (Nat.ne_of_lt (h.placed i v hv).2)] at ha
        exact ⟨v, hv, ha⟩
  · intro v hv
    by_cases hvn : v = s.next
    · subst hvn
      simp [create, hid']
    · rw [hobj v hvn] at hv ⊢
      exact ⟨(h.held v hv).1, (upd_ne _ _ (hold v hv).2).trans (h.held v hv).2⟩
  · intro i v hv
    replace hv : upd s.pcb id (some s.next) i = some v := hv
    by_cases hi' : i = id
    · subst hi'
      rw [upd_self] at hv
      have hvn := Option.some.inj hv
      subst hvn
      simp [create]
    · rw [upd_ne _ _ hi'] at hv
      obtain ⟨hp, hlt⟩ := h.placed i v hv
      rw [hobj v (Nat.ne_of_lt hlt)]
      exact ⟨hp, Nat.lt_succ_of_lt hlt⟩
  · rw [hobj 0 (hold 0 h.main.1).1]; exact h.main
  · intro v hv
    replace hv : s.next + 1 ≤ v := hv
    have hlt : s.next < v := hv
    rw [hobj v (Nat.ne_of_gt hlt), hpcs v (Nat.ne_of_gt (Nat.lt_trans (h.lt_next hau) hlt))]
    exact h.fresh v (Nat.le_of_lt hlt)
  · intro v hv
    have ha : (s.obj v).alive = true := by
      by_cases hvu : v = u
      · rw [hvu]; exact hau
      · rw [hpcs v hvu] at hv; exact h.active v hv
    rw [hobj v (hold v ha).1]; exact ha
  · -- the caller is about to fork the new process, and nobody forks the caller
    intro v o ht
    by_cases hvu : v = u
    · rw [hvu, hpu] at ht
      have ho := Option.some.inj ht
      subst ho
      exact ⟨by simp [create], (hpcs _ (Ne.symm hun)).trans (h.fresh _ (Nat.le_refl _)).2⟩
    · rw [hpcs v hvu] at ht
      obtain ⟨ha, hb⟩ := h.target v o ht
      have hou : o ≠ u := by
        intro he
        rw [he, hpc] at hb
        exact PC.noConfusion hb
      rw [hobj o (hold o ha).1, hpcs o hou]
      exact ⟨ha, hb⟩
  · intro v hv
    by_cases hvu : v = u
    · rw [hvu, hpu] at hv
      exact Bool.noConfusion hv
    · rw [hpcs v hvu] at hv
      exact h.exiting v hv
  · show Exclusive (s.sem .bmsem).value (fun v => (upd s.pc u _ v).inExec = true)
    exact h.excl_same (by rw [hpc]; rfl)

theorem tableInv_fork {s : PState} {u : Uid} {id : Nat} {o : Uid} (h : TableInv s)
    (hpc : s.pc u = .execFork id o) : TableInv (s.fork u id o) := by
  obtain ⟨hao, hbo⟩ := h.target u o (by rw [hpc]; rfl)
  have hau : (s.obj u).alive = true := h.active u (by rw [hpc]; rfl)
  have hou : o ≠ u := by
    intro he
    rw [he, hpc] at hbo
    exact PC.noConfusion hbo
  have hpcs : ∀ v, v ≠ u → v ≠ o → (s.fork u id o).pc v = s.pc v := by
    intro v hv hvo
    exact (upd_ne _ _ hv).trans (upd_ne _ _ hvo)
  have hpu : (s.fork u id o).pc u = .execUnlock id o := upd_self _ _ _
  have hpo : (s.fork u id o).pc o = .start := (upd_ne _ _ hou).trans (upd_self _ _ _)
  refine
    { numBits := h.numBits, slot := h.slot, held := h.held, placed := h.placed, main := h.main,
      fresh := ?_, active := ?_, target := ?_, exiting := ?_, excl := ?_ }
  · intro v hv
    refine ⟨(h.fresh v hv).1, ?_⟩
    rw [hpcs v (Nat.ne_of_gt (Nat.lt_of_lt_of_le (h.lt_next hau) hv))
      (Nat.ne_of_gt (Nat.lt_of_lt_of_le (h.lt_next hao) hv))]
    exact (h.fresh v hv).2
  · intro v hv
    by_cases hvu : v = u
    · rw [hvu]; exact hau
    by_cases hvo : v = o
    · rw [hvo]; exact hao
    rw [hpcs v hvu hvo] at hv
    exact h.active v hv
  · intro v o' ht
    by_cases hvu : v = u
    · rw [hvu, hpu] at ht; exact absurd ht (by simp [PC.target])
    by_cases hvo : v = o
    · rw [hvo, hpo] at ht; exact absurd ht (by simp [PC.target])
    rw [hpcs v hvu hvo] at ht
    obtain ⟨ha, hb⟩ := h.target v o' ht
    -- only one process at a time is about to fork
    have hexec : ∀ w p, (s.pc w).target = some p → (s.pc w).inExec = true := by
      intro w p hw
      cases hc : s.pc w <;> simp [hc, PC.target] at hw <;> rfl
    have hvu' : v = u := h.excl.unique (hexec v o' ht) (hexec u o (by rw [hpc]; rfl))
    exact absurd hvu' hvu
  · intro v hv
    by_cases hvu : v = u
    · rw [hvu, hpu] at hv; exact Bool.noConfusion hv
    by_cases hvo : v = o
    · rw [hvo, hpo] at hv; exact Bool.noConfusion hv
    rw [hpcs v hvu hvo] at hv
    exact h.exiting v hv
  · refine h.excl.congr fun v => ?_
    by_cases hvu : v = u
    · rw [hvu, hpu, hpc]; simp [PC.inExec]
    by_cases hvo : v = o
    · rw [hvo, hpo, hbo]; simp [PC.inExec]
    rw [hpcs v hvu hvo]

theorem tableInv_delete {s : PState} {u : Uid} (h : TableInv s) (hpc : s.pc u = .exitRemove) :
    TableInv (s.delete u (s.obj u).pid) := by
  have hau : (s.obj u).alive = true := h.active u (by rw [hpc]; rfl)
  have hu0 : u ≠ 0 := h.exiting u (by rw [hpc]; rfl)
  have hid : (s.obj u).pid < s.bm.numBits := h.numBits ▸ (h.held u hau).1
  have hobj : ∀ v, v ≠ u → (s.delete u (s.obj u).pid).obj v = s.obj v := fun v hv => upd_ne _ _ hv
  have hdead : ((s.delete u (s.obj u).pid).obj u).alive = false := by simp [delete]
  have hpid : ∀ v, ((s.delete u (s.obj u).pid).obj v).pid = (s.obj v).pid := by
    intro v
    by_cases hv : v = u
    · subst hv; simp [delete]
    · rw [hobj v hv]
  have halive : ∀ v, ((s.delete u (s.obj u).pid).obj v).alive = true →
      v ≠ u ∧ (s.obj v).alive = true := by
    intro v hv
    by_cases hvu : v = u
    · rw [hvu, hdead] at hv; exact Bool.noConfusion hv
    · rw [hobj v hvu] at hv; exact ⟨hvu, hv⟩
  have hpcs : ∀ v, v ≠ u → (s.delete u (s.obj u).pid).pc v = s.pc v := fun v hv => upd_ne _ _ hv
  have hpu : (s.delete u (s.obj u).pid).pc u = .finished := upd_self _ _ _
  refine
    { numBits := h.numBits, slot := ?_, held := ?_, placed := ?_, main := ?_, fresh := ?_,
      active := ?_, target := ?_, exiting := ?_, excl := ?_ }
  · -- the pointer stays behind the cleared bit, at an object that is gone
    intro i hi
    show (s.bm.clear (s.obj u).pid).test i = true ↔ ∃ v, s.pcb i = some v ∧ _
    rw [Bitmap.test_clear hid]
    by_cases hi' : i = (s.obj u).pid
    · subst hi'
      simp only [decide_true, Bool.not_true, Bool.false_and, Bool.false_eq_true, false_iff]
      rintro ⟨v, hv, ha⟩
      rw [(h.held u hau).2] at hv
      exact (halive v ha).1 (Option.some.inj hv).symm
    · simp only [hi', decide_false, Bool.not_false, Bool.true_and]
      rw [h.slot i hi]
      constructor
      · rintro ⟨v, hv, ha⟩
        have hvu : v ≠ u := fun he => hi' (he ▸ (h.placed i v hv).1.symm)
        exact ⟨v, hv, by rw [hobj v hvu]; exact ha⟩
      · rintro ⟨v, hv, ha⟩; exact ⟨v, hv, (halive v ha).2⟩
  · intro v hv
    rw [hpid v]
    exact h.held v (halive v hv).2
  · intro i v hv
    rw [hpid v]
    exact h.placed i v hv
  · rw [hobj 0 (Ne.symm hu0)]; exact h.main
  · intro v hv
    have hvu : v ≠ u := Nat.ne_of_gt (Nat.lt_of_lt_of_le (h.lt_next hau) hv)
    rw [hobj v hvu, hpcs v hvu]
    exact h.fresh v hv
  · intro v hv
    by_cases hvu : v = u
    · rw [hvu, hpu] at hv; exact Bool.noConfusion hv
    · rw [hpcs v hvu] at hv
      rw [hobj v hvu]
      exact h.active v hv
  · intro v o ht
    by_cases hvu : v = u
    · rw [hvu, hpu] at ht; exact absurd ht (by simp [PC.target])
    · rw [hpcs v hvu] at ht
      obtain ⟨ha, hb⟩ := h.target v o ht
      have hou : o ≠ u := by
        intro he
        rw [he, hpc] at hb
        exact PC.noConfusion hb
      rw [hobj o hou, hpcs o hou]
      exact ⟨ha, hb⟩
  · intro v hv
    by_cases hvu : v = u
    · rw [hvu, hpu] at hv; exact Bool.noConfusion hv
    · rw [hpcs v hvu] at hv
      exact h.exiting v hv
  · show Exclusive (s.sem .bmsem).value (fun v => (upd s.pc u _ v).inExec = true)
    exact h.excl_same (by rw [hpc]; rfl)

/-- **Every step keeps the table in order.** -/
theorem tableInv_step {s s' : PState} {u : Uid} (h : TableInv s) (he : Effect s u s') :
    TableInv s' := by
  cases he with
  | pass hw _ hv => exact tableInv_pass h hw hv
  | @sleep r k hw _ _ =>
      have hpc : (s.slept u r).pc = upd s.pc u (s.pc u) := by
        funext v
        rw [upd_apply]
        split
        · rename_i hv; rw [hv]; rfl
        · rfl
      obtain ⟨hact, _, _, _, _⟩ := PC.waits_spec hw
      refine h.of_pc rfl rfl rfl (fun _ => ⟨rfl, rfl⟩) hpc hact rfl (h.exiting u) ?_
      -- a semaphore that somebody queues on keeps its value
      have hval : ((s.slept u r).sem .bmsem).value = (s.sem .bmsem).value := by
        show (upd s.sem r _ .bmsem).value = _
        rw [upd_apply]
        split
        · rename_i hr; rw [← hr]
        · rfl
      rw [hval]
      exact h.excl
  | post hp => exact tableInv_post h hp
  | stop => exact ⟨h.1, h.2, h.3, h.4, h.5, h.6, h.7, h.8, h.9, h.10⟩
  | move hm =>
      obtain ⟨hact, htar, hexi, hin⟩ := hm.spec
      exact h.of_pc rfl rfl rfl (fun _ => ⟨rfl, rfl⟩) rfl hact htar
        (fun hx => h.exiting u (hexi hx)) (h.excl_same hin)
  | allocate hpc =>
      refine h.of_pc rfl rfl rfl (fun _ => ⟨rfl, rfl⟩) rfl (by rw [hpc]; rfl) ?_ ?_ (h.excl_same ?_)
      · rw [hpc]; split <;> rfl
      · intro hx; split at hx <;> exact Bool.noConfusion hx
      · rw [hpc]; split <;> rfl
  | create hpc hid hclear _ => exact tableInv_create h hpc hid hclear
  | fork hpc => exact tableInv_fork h hpc
  | join hpc _ _ _ _ _ _ =>
      exact h.of_pc rfl rfl rfl (fun _ => ⟨rfl, rfl⟩) rfl (by rw [hpc]; rfl) (by rw [hpc]; rfl)
        (fun hx => Bool.noConfusion hx) (h.excl_same (by rw [hpc]; rfl))
  | @numWait n o k hk =>
      have hobj : ∀ v, ((s.setNumWait u o n k).obj v).alive = (s.obj v).alive
          ∧ ((s.setNumWait u o n k).obj v).pid = (s.obj v).pid :=
        fun v => ⟨upd_field PCB.alive (by rfl) v, upd_field PCB.pid (by rfl) v⟩
      rcases hk with ⟨c, g, hpc, rfl⟩ | ⟨hpc, rfl⟩
      · exact h.of_pc rfl rfl rfl hobj rfl (by rw [hpc]; rfl) (by rw [hpc]; rfl)
          (fun hx => Bool.noConfusion hx) (h.excl_same (by rw [hpc]; rfl))
      · exact h.of_pc rfl rfl rfl hobj rfl (by rw [hpc]; rfl) (by rw [hpc]; rfl)
          (fun _ => h.exiting u (by rw [hpc]; rfl)) (h.excl_same (by rw [hpc]; rfl))
  | @exit ret e me o hpc hpid hme _ =>
      refine h.of_pc (k := .exitDec o) rfl rfl rfl ?_ rfl (by rw [hpc]; rfl) (by rw [hpc]; rfl) ?_
        (h.excl_same (by rw [hpc]; rfl))
      · intro v
        exact ⟨upd_field PCB.alive (by rfl) v, upd_field PCB.pid (by rfl) v⟩
      · -- process 0 takes the other branch of `ExitUpdate`
        intro _ h0
        rw [h0] at hpid
        exact hpid h.main.2
  | delete hpc _ _ => exact tableInv_delete h hpc
  | keep hpc htest => exact (h.not_keep hpc htest).elim

theorem tableInv_boot (h : NoffHeader) : TableInv (boot h) := by
  have hpid : (0 : Nat) < maxProcess := by decide
  have htest : ∀ i, (boot h).bm.test i = decide (i = 0) := by
    intro i
    show ((Bitmap.new maxProcess _).mark 0).test i = _
    rw [Bitmap.test_mark (by simp [maxProcess]), Bitmap.test_new, Bool.or_false]
  have hpc : ∀ u, u ≠ 0 → (boot h).pc u = .unborn := by
    intro u hu
    show upd (fun _ => PC.unborn) 0 (.user none) u = _
    exact upd_ne _ _ hu
  refine
    { numBits := by simp [boot, maxProcess], slot := ?_, held := ?_, placed := ?_,
      main := ⟨rfl, rfl⟩, fresh := ?_, active := ?_, target := ?_, exiting := ?_, excl := ?_ }
  · intro i _
    rw [htest]
    show _ ↔ ∃ u, upd (fun _ => none) 0 (some 0) i = some u ∧ decide (u = 0) = true
    rw [upd_apply]
    by_cases hi : i = 0
    · simp [hi]
    · simp [hi]
  · intro u hu
    have hu0 : u = 0 := by simpa [boot] using hu
    subst hu0
    exact ⟨hpid, rfl⟩
  · intro i u hu
    replace hu : upd (fun _ => none) 0 (some 0) i = some u := hu
    rw [upd_apply] at hu
    split at hu
    · rename_i hi
      have hu0 := Option.some.inj hu
      subst hu0
      exact ⟨hi.symm, Nat.one_pos⟩
    · exact absurd hu (by simp)
  · intro u hu
    have hu0 : u ≠ 0 := Nat.ne_of_gt hu
    exact ⟨by simp [boot, hu0], hpc u hu0⟩
  · intro u hu
    by_cases hu0 : u = 0
    · rw [hu0]; rfl
    · rw [hpc u hu0] at hu; exact Bool.noConfusion hu
  · intro u o ht
    rw [boot_pc (Q := fun p => p.target = none) rfl rfl h u] at ht
    exact absurd ht (by simp)
  · intro u hu
    rw [boot_pc (Q := fun p => p.exiting = false) rfl rfl h u] at hu
    exact Bool.noConfusion hu
  · refine .inl ⟨rfl, fun u hu => ?_⟩
    replace hu : ((boot h).pc u).inExec = true := hu
    rw [boot_pc (Q := fun p => p.inExec = false) rfl rfl h u] at hu
    exact Bool.noConfusion hu

theorem tableInv_reachable {s : PState} (h : sys.Reachable s) : TableInv s := by
  refine inv_reachBy h tableInv_boot ?_
  intro s s' u a _ hI _ hst
  exact tableInv_step hI (step_effect hst)

/-! ## What the calls promise -/

/-- The process table as its users see it. -/
structure TableIntegrity (s : PState) : Prop where
  /-- A bit is set while its slot leads to a live PCB. -/
  slots : ∀ i, i < maxProcess →
    (s.bm.test i = true ↔ ∃ u, s.pcb i = some u ∧ (s.obj u).alive = true)
  /-- The slot of the initial process is always set. -/
  zero : s.bm.test 0 = true
  /-- Ids are indices. -/
  ids : ∀ u, (s.obj u).alive = true → (s.obj u).pid < maxProcess
  /-- They tell live processes apart. -/
  distinct : ∀ u v, (s.obj u).alive = true → (s.obj v).alive = true →
    (s.obj u).pid = (s.obj v).pid → u = v
  /-- The PCB of a running process is live, in user mode and in the kernel. -/
  running : ∀ u, (s.pc u).active = true → (s.obj u).alive = true

/-- `ExecUpdate` has a reason to refuse: no name, the name of the caller's thread, a file that
does not open, or no slot. -/
def Refused (s : PState) (filename : Option String) (callerName : String) (opens : Bool) : Prop :=
  filename = none ∨ filename = some callerName ∨ opens = false
    ∨ ∀ i, i < maxProcess → s.bm.test i = true

/-- `bm` and `pcb[]` are as before. -/
def SameTable (s s' : PState) : Prop := s'.bm = s.bm ∧ s'.pcb = s.pcb

/-- What the steps of a process inside `ExecUpdate` do to the table and to `bmsem`. -/
structure ExecContract (s : PState) (u : Uid) (a : Act) (s' : PState) : Prop where
  /-- `bmsem->P()` sleeps, or takes the one unit. -/
  wait : ∀ n, s.pc u = .execWait n → SameTable s s' ∧
    ((s'.pc u = .execWait n ∧ (s'.sem .bmsem).value = (s.sem .bmsem).value)
      ∨ (s'.pc u = .execBody n ∧ (s.sem .bmsem).value = 1 ∧ (s'.sem .bmsem).value = 0))
  /-- A refusal changes nothing. -/
  refuse : ∀ n nm op, s.pc u = .execBody n → a = .check nm op → Refused s n nm op →
    SameTable s s' ∧ s'.sem = s.sem ∧ s'.pc u = .execFail
  /-- It releases `bmsem` and returns `-1`. -/
  fail : s.pc u = .execFail → SameTable s s' ∧ s'.pc u = .user (some (-1))
    ∧ (s.sem .bmsem).value = 0 ∧ (s'.sem .bmsem).value = 1
  /-- Otherwise one clear bit is set, and its slot leads to the new PCB. -/
  grant : ∀ n nm op, s.pc u = .execBody n → a = .check nm op → ¬ Refused s n nm op →
    ∃ id o, id < maxProcess ∧ s.bm.test id = false
      ∧ (∀ j, s'.bm.test j = (decide (j = id) || s.bm.test j)) ∧ s'.pcb = upd s.pcb id (some o)
      ∧ (s'.sem .bmsem).value = (s.sem .bmsem).value ∧ (s'.pc u).execId = some id
  /-- From there on the table stays as it is, up to the release of `bmsem` and the return of
  the id. -/
  finish : ∀ id, (s.pc u).execId = some id → SameTable s s' ∧
    (((s'.pc u).execId = some id ∧ (s'.sem .bmsem).value = (s.sem .bmsem).value)
      ∨ (s'.pc u = .user (some id) ∧ (s.sem .bmsem).value = 0 ∧ (s'.sem .bmsem).value = 1))

/-- What the steps of a process inside `ExitUpdate` do to the bitmap. -/
structure ExitContract (s : PState) (u : Uid) (a : Act) (s' : PState) : Prop where
  /-- The call does nothing to it. -/
  call : ∀ ret e, s.pc u = .user ret → a = .exit e → s'.bm = s.bm
  /-- Nor does anything before `Remove`. -/
  before : (s.pc u).exiting = true → s.pc u ≠ .exitRemove → s'.bm = s.bm
  /-- `Remove` clears the bit of the caller, which was set, and no other. -/
  remove : s.pc u = .exitRemove → s.bm.test (s.obj u).pid = true
    ∧ ∀ j, s'.bm.test j = (!decide (j = (s.obj u).pid) && s.bm.test j)

/-- Inside `ExecUpdate` the value of `bmsem` is zero, and its `V` makes it one. -/
theorem TableInv.release {s : PState} (h : TableInv s) {u : Uid} (hu : (s.pc u).inExec = true)
    (k : PC) : (s.sem .bmsem).value = 0 ∧ ((s.V u .bmsem k).sem .bmsem).value = 1 := by
  have hz : (s.sem .bmsem).value = 0 := by
    rcases h.excl with ⟨_, hno⟩ | ⟨hz, _⟩
    · exact absurd hu (hno u)
    · exact hz
  refine ⟨hz, ?_⟩
  rw [V_sem_self]
  show toInt32 ((s.sem .bmsem).value + 1) = 1
  rw [hz]
  rfl

theorem execContract_step {s s' : PState} {u : Uid} {a : Act} (h : TableInv s)
    (hs : s.step (u, a) = some s') : ExecContract s u a s' where
  wait := by
    intro n hpc
    obtain ⟨_, ⟨_, rfl⟩ | ⟨hv, rfl⟩⟩ := step_waits (by rw [hpc]; rfl) hs
    · exact ⟨⟨rfl, rfl⟩, .inl ⟨hpc, slept_sem_value s u _ _⟩⟩
    · refine ⟨⟨rfl, rfl⟩, .inr ⟨by simp, ?_⟩⟩
      have h1 : (s.sem .bmsem).value = 1 := by
        rcases excl_value h.excl with h0 | h1
        · exact absurd h0 hv
        · exact h1
      refine ⟨h1, ?_⟩
      rw [passed_sem_self, h1]
      rfl
  refuse := by
    intro n nm op hpc ha hr
    subst ha
    have hadv := step_advance (by rw [hpc]; rfl) (by rw [hpc]; rfl) hs
    simp only [advance, hpc, Option.some.injEq] at hadv
    subst hadv
    rcases execUpdate_cases s u n nm op with ⟨he, _⟩ | ⟨h1, h2, h3, id, _, hlt, hclear, _⟩
    · rw [he]
      exact ⟨⟨rfl, rfl⟩, rfl, upd_self _ _ _⟩
    · exfalso
      rcases hr with hr | hr | hr | hr
      · exact h1 hr
      · exact h2 hr
      · rw [h3] at hr; exact Bool.noConfusion hr
      · rw [hr id (h.numBits ▸ hlt)] at hclear; exact Bool.noConfusion hclear
  fail := by
    intro hpc
    have h' := step_posts (by rw [hpc]; rfl) hs
    subst h'
    exact ⟨⟨rfl, rfl⟩, by simp, h.release (by rw [hpc]; rfl) _⟩
  grant := by
    intro n nm op hpc ha hr
    subst ha
    have hadv := step_advance (by rw [hpc]; rfl) (by rw [hpc]; rfl) hs
    simp only [advance, hpc, Option.some.injEq] at hadv
    subst hadv
    rcases execUpdate_cases s u n nm op with ⟨_, hbad⟩ | ⟨_, _, _, id, he, hlt, hclear, _⟩
    · rw [h.numBits] at hbad
      exact absurd hbad hr
    · rw [he]
      refine ⟨id, s.next, h.numBits ▸ hlt, hclear, ?_, rfl, rfl, ?_⟩
      · intro j
        show ((s.bm.mark id).mark id).test j = _
        rw [Bitmap.test_mark (by rw [Bitmap.numBits_mark]; exact hlt), Bitmap.test_mark hlt]
        cases decide (j = id) <;> simp
      · rw [create_pc, if_pos rfl]
        rfl
  finish := by
    intro id hid
    cases hpc : s.pc u <;> simp only [hpc, PC.execId, Option.some.injEq, reduceCtorEq] at hid <;>
      subst hid
    · -- `multex->P()`
      obtain ⟨_, ⟨_, rfl⟩ | ⟨_, rfl⟩⟩ := step_waits (by rw [hpc]; rfl) hs
      · exact ⟨⟨rfl, rfl⟩, .inl ⟨by show (s.pc u).execId = _; rw [hpc]; rfl, slept_sem_value ..⟩⟩
      · exact ⟨⟨rfl, rfl⟩, .inl ⟨by simp [PC.execId], by rw [passed_sem_ne]; simp⟩⟩
    · -- `Fork`
      have hadv := step_advance (by rw [hpc]; rfl) (by rw [hpc]; rfl) hs
      cases a <;> simp only [advance, hpc, Option.some.injEq, reduceCtorEq] at hadv
      subst hadv
      refine ⟨⟨rfl, rfl⟩, .inl ⟨?_, rfl⟩⟩
      rw [fork_pc, if_pos rfl]
      rfl
    · -- `multex->V()`
      have h' := step_posts (by rw [hpc]; rfl) hs
      subst h'
      exact ⟨⟨rfl, rfl⟩, .inl ⟨by simp [PC.execId], by rw [V_sem_ne]; simp⟩⟩
    · -- `bmsem->V()`
      have h' := step_posts (by rw [hpc]; rfl) hs
      subst h'
      exact ⟨⟨rfl, rfl⟩, .inr ⟨by simp, h.release (by rw [hpc]; rfl) _⟩⟩

theorem exitContract_step {s s' : PState} {u : Uid} {a : Act} (h : TableInv s)
    (hs : s.step (u, a) = some s') : ExitContract s u a s' where
  call := by
    intro ret e hpc ha
    subst ha
    have hadv := step_advance (by rw [hpc]; rfl) (by rw [hpc]; rfl) hs
    simp only [advance, hpc, Option.some.injEq] at hadv
    subst hadv
    unfold exitUpdate
    repeat' split
    all_goals rfl
  before := by
    intro hex hne
    cases step_effect hs with
    | pass => rfl
    | sleep => rfl
    | post => rfl
    | stop => rfl
    | move => rfl
    | allocate => rfl
    | create hpc => rw [hpc] at hex; exact Bool.noConfusion hex
    | fork => rfl
    | join => rfl
    | numWait => rfl
    | exit => rfl
    | delete hpc => exact absurd hpc hne
    | keep hpc => exact absurd hpc hne
  remove := by
    intro hpc
    have hau : (s.obj u).alive = true := h.active u (by rw [hpc]; rfl)
    refine ⟨h.test_pid hau, ?_⟩
    have hadv := step_advance (by rw [hpc]; rfl) (by rw [hpc]; rfl) hs
    cases a <;> simp only [advance, hpc, Option.some.injEq, reduceCtorEq] at hadv
    subst hadv
    intro j
    unfold remove
    rw [if_pos (h.test_pid hau), (h.held u hau).2]
    simp only [if_true]
    exact Bitmap.test_clear (h.numBits ▸ (h.held u hau).1) j

/--
**The process table keeps its integrity.**

In every state that any interleaving of the calls reaches, bits, slots and live PCBs agree; and
every step that a process takes inside `ExecUpdate` or `ExitUpdate` from there keeps the promises
these calls make.
-/
theorem table_integrity (s : PState) (h : sys.Reachable s) :
    TableIntegrity s ∧ ∀ u a s', s.step (u, a) = some s' →
      ExecContract s u a s' ∧ ExitContract s u a s' := by
  have hI := tableInv_reachable h
  refine ⟨⟨hI.slot, ?_, ?_, ?_, hI.active⟩, ?_⟩
  · have := hI.test_pid hI.main.1
    rwa [hI.main.2] at this
  · intro u hu; exact (hI.held u hu).1
  · intro u v hu hv he; exact hI.pid_inj hu hv he
  · intro u a s' hs; exact ⟨execContract_step hI hs, exitContract_step hI hs⟩

/-- A program of no segments: two pages of stack. -/
def stackOnly : NoffHeader := ⟨noffMagicNumber, ⟨0, 0, 0⟩, ⟨0, 0, 0⟩, ⟨0, 0, 0⟩, ⟨0, 0, 0⟩⟩

/-- Process `u` executes `name` without being interrupted. -/
def execRun (u : Uid) (name : String) : List (Uid × Act) :=
  [(u, .exec (some name)), (u, .go), (u, .check "main" true), (u, .go), (u, .go),
    (u, .go), (u, .go)]

/-- Process `u` starts and gets to user mode. -/
def startRun (u : Uid) : List (Uid × Act) :=
  [(u, .load (some stackOnly)), (u, .go), (u, .go), (u, .go), (u, .go)]

/-- A run of the table whose steps meet `G`, looked at through `f`. -/
theorem reachBy_of_run {G : PState → Uid × Act → Prop} [∀ s l, Decidable (G s l)] {α : Type}
    {f : PState → α} {x : α} (ls : List (Uid × Act))
    (h : (sys.runBy G (boot stackOnly) ls).map f = some x) : ∃ s, sys.ReachBy G s ∧ f s = x := by
  obtain ⟨s, hs, hf⟩ := Option.map_eq_some_iff.mp h
  exact ⟨s, Base.System.ReachBy.runBy ls (.init ⟨stackOnly, by decide, rfl⟩) hs, hf⟩

theorem reachable_of_run {α : Type} {f : PState → α} {x : α} (ls : List (Uid × Act))
    (h : (sys.run (boot stackOnly) ls).map f = some x) : ∃ s, sys.Reachable s ∧ f s = x :=
  reachBy_of_run ls h

theorem table_integrity_exec : ∃ s, sys.Reachable s ∧ s.pc 0 = .user (some 1)
    ∧ s.pc 1 = .user none ∧ TableIntegrity s := by
  obtain ⟨s, hr, hf⟩ := reachable_of_run (f := fun s => (s.pc 0, s.pc 1))
    (x := (.user (some 1), .user none)) (execRun 0 "child" ++ startRun 1) (by decide +kernel)
  injection hf with h0 h1
  exact ⟨s, hr, h0, h1, (table_integrity s hr).1⟩

end PState

end Nachos
