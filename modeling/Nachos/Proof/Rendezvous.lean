import Nachos.Base.Handshake
import Nachos.Proof.Table

/-!
# How `Join` and `Exit` meet

`ExitUpdate` releases `joinsem` and waits for `exitsem`; `JoinUpdate` waits for
`joinsem`, reads the exit code and releases `exitsem`. Each child is the leaver of
a handshake, and the token that goes round is the permission to read its exit
code: whoever is between the two semaphores finds the child still waiting, its
PCB live and its slot held.

That holds for every run. What it does not settle is *whose* code is read.
`JoinUpdate` looks `pcb[pID]` up three times with context switches in between, and
a second `Join` on the same child may find another process in the slot. Where each
child is joined once, the three answers are the same.
-/

namespace Nachos

open Base (upd upd_self upd_ne upd_apply upd_field Stage Handshake)

/-- The process whose exit code is being read. -/
def PC.takes : PC → Option Uid
  | .joinRead _ _ o => some o
  | .joinPost _ _ o _ => some o
  | _ => none

/-- How far a process is in leaving. -/
def PC.stage : PC → Stage
  | .exitGo => .offered
  | .exitWait _ => .offered
  | .exitRemove => .past
  | .finished => .past
  | _ => .before

namespace PState

/-! ## Queues -/

/-- Whoever is queued on a semaphore is at a `P` of it. -/
def QueueInv (s : PState) : Prop :=
  ∀ r t, t ∈ (s.sem r).queue → ∃ k, (s.pc t).waits = some (r, k)

/-- A process that is at no `P` is in no queue, and may move on. -/
theorem QueueInv.of_pc {s s' : PState} {u : Uid} {k : PC} (h : QueueInv s)
    (hsem : ∀ r t, t ∈ (s'.sem r).queue → t ∈ (s.sem r).queue) (hpc : s'.pc = upd s.pc u k)
    (hu : (s.pc u).waits = none) : QueueInv s' := by
  intro r t ht
  have ht' := hsem r t ht
  obtain ⟨k', hk'⟩ := h r t ht'
  have hne : t ≠ u := by
    intro he
    rw [he, hu] at hk'
    exact absurd hk' (by simp)
  rw [hpc, upd_ne _ _ hne]
  exact ⟨k', hk'⟩

theorem Move.waits_none {s : PState} {u : Uid} {k : PC} (h : Move s u k) :
    (s.pc u).waits = none := by
  cases h <;> rename_i hpc <;> simp [*, PC.waits]

theorem queueInv_step {s s' : PState} {u : Uid} (ht : TableInv s) (h : QueueInv s)
    (he : Effect s u s') : QueueInv s' := by
  cases he with
  | @pass r k hw hq _ =>
      intro r' t ht'
      have hin : t ∈ (s.sem r').queue := by
        by_cases hr : r' = r
        · rw [hr, passed_sem_self] at ht'; rw [hr]; exact ht'
        · rwa [passed_sem_ne _ _ _ _ _ hr] at ht'
      obtain ⟨k', hk'⟩ := h r' t hin
      -- the process that passed was queued nowhere
      have hne : t ≠ u := by
        intro he
        rw [he, hw] at hk'
        have hr : r = r' := by injection hk' with hk'; injection hk'
        rw [he, ← hr] at hin
        exact hq hin
      rw [passed_pc, if_neg hne]
      exact ⟨k', hk'⟩
  | @sleep r k hw _ _ =>
      intro r' t ht'
      by_cases hr : r' = r
      · subst hr
        rw [slept_sem_self] at ht'
        rcases List.mem_append.mp ht' with ht' | ht'
        · exact h _ t ht'
        · rw [List.mem_singleton.mp ht']; exact ⟨k, hw⟩
      · rw [slept_sem_ne _ _ _ _ hr] at ht'
        exact h r' t ht'
  | @post r k hp =>
      refine h.of_pc (k := k) (fun r' t ht' => ?_) rfl (waits_none_of_posts hp)
      -- a `V` only takes the front off
      by_cases hr : r' = r
      · rw [hr, V_sem_self] at ht'; rw [hr]; exact List.mem_of_mem_tail ht'
      · rwa [V_sem_ne _ _ _ _ _ hr] at ht'
  | stop => exact h
  | move hm => exact h.of_pc (fun _ _ ht' => ht') rfl hm.waits_none
  | allocate hpc => exact h.of_pc (fun _ _ ht' => ht') rfl (by rw [hpc]; rfl)
  | create hpc _ _ _ =>
      refine h.of_pc (fun r t ht' => ?_) rfl (by rw [hpc]; rfl)
      -- the semaphores of a new PCB have empty queues
      simp only [create, upd_apply] at ht'
      split at ht'
      · exact absurd ht' (by simp [Semaphore.new])
      split at ht'
      · exact absurd ht' (by simp [Semaphore.new])
      split at ht'
      · exact absurd ht' (by simp [Semaphore.new])
      · exact ht'
  | @fork id o hpc =>
      intro r t ht'
      obtain ⟨k, hk⟩ := h r t ht'
      -- neither the parent nor the child is waiting
      have hne : t ≠ u := by
        intro he
        rw [he, hpc] at hk
        exact absurd hk (by simp [PC.waits])
      have hno : t ≠ o := by
        intro he
        rw [he, (ht.target u o (by rw [hpc]; rfl)).2] at hk
        exact absurd hk (by simp [PC.waits])
      rw [fork_pc, if_neg hne, if_neg hno]
      exact ⟨k, hk⟩
  | join hpc _ _ _ _ _ _ => exact h.of_pc (fun _ _ ht' => ht') rfl (by rw [hpc]; rfl)
  | numWait hk =>
      refine h.of_pc (fun _ _ ht' => ht') rfl ?_
      rcases hk with ⟨_, _, hpc, _⟩ | ⟨hpc, _⟩ <;> rw [hpc] <;> rfl
  | exit hpc _ _ _ => exact h.of_pc (fun _ _ ht' => ht') rfl (by rw [hpc]; rfl)
  | delete hpc _ _ => exact h.of_pc (fun _ _ ht' => ht') rfl (by rw [hpc]; rfl)
  | keep hpc _ => exact h.of_pc (fun _ _ ht' => ht') rfl (by rw [hpc]; rfl)

theorem queueInv_reachable {s : PState} (h : sys.Reachable s) : QueueInv s := by
  refine inv_reachBy h ?_ ?_
  · intro hd r t ht
    exact absurd ht (by simp [boot, Semaphore.new])
  · intro s s' u a hr hI _ hst
    exact queueInv_step (tableInv_reachable hr) hI (step_effect hst)

/-! ## Objects -/

/-- The object a point carries is the one its name says: in `ExitUpdate` and in `IncNumWait` the
process itself, in `JoinUpdate` an occupant of the slot. -/
def Fits (s : PState) (u : Uid) : PC → Prop
  | .exitPost o => o = u
  | .exitWait o => o = u
  | .joinInc _ _ o => o = u
  | .joinIncr _ _ o => o = u
  | .joinIncV _ _ o => o = u
  | .joinWait c _ o => (s.obj o).pid = c ∧ o < s.next
  | .joinRead c _ o => (s.obj o).pid = c ∧ o < s.next
  | .joinPost c _ o _ => (s.obj o).pid = c ∧ o < s.next
  | _ => True

/-- Every process is at a point that fits. -/
def ObjInv (s : PState) : Prop := ∀ u, Fits s u (s.pc u)

theorem Fits.mono {s s' : PState} {u : Uid} {p : PC} (h : Fits s u p) (hnext : s.next ≤ s'.next)
    (hpid : ∀ o, o < s.next → (s'.obj o).pid = (s.obj o).pid) : Fits s' u p := by
  cases p <;> first
    | exact h
    | exact ⟨(hpid _ h.2).trans h.1, Nat.lt_of_lt_of_le h.2 hnext⟩

theorem ObjInv.of_pc {s s' : PState} {u : Uid} {k : PC} (h : ObjInv s) (hnext : s.next ≤ s'.next)
    (hpid : ∀ o, o < s.next → (s'.obj o).pid = (s.obj o).pid) (hpc : s'.pc = upd s.pc u k)
    (hk : Fits s u k) : ObjInv s' := by
  intro v
  rw [hpc, upd_apply]
  split
  · rename_i hv; rw [hv]; exact hk.mono hnext hpid
  · exact (h v).mono hnext hpid

theorem fits_waits {s : PState} {u : Uid} {p k : PC} {r : SemRef} (hw : p.waits = some (r, k))
    (h : Fits s u p) : Fits s u k := by
  cases p <;> simp only [PC.waits, Option.some.injEq, Prod.mk.injEq, reduceCtorEq] at hw <;>
    (obtain ⟨rfl, rfl⟩ := hw; first | exact h | trivial)

theorem fits_posts {s : PState} {u : Uid} {p k : PC} {r : SemRef} (hp : p.posts = some (r, k)) :
    Fits s u k := by
  cases p <;> simp only [PC.posts, Option.some.injEq, Prod.mk.injEq, reduceCtorEq] at hp <;>
    (obtain ⟨rfl, rfl⟩ := hp; trivial)

theorem Move.fits {s : PState} {u : Uid} {k : PC} (ht : TableInv s) (h : Move s u k) :
    Fits s u k := by
  have hown : ∀ o, (s.pc u).active = true → s.pcb (s.obj u).pid = some o → o = u := by
    intro o hact ho
    rw [(ht.held u (ht.active u hact)).2] at ho
    exact (Option.some.inj ho).symm
  cases h with
  | joinGo _ ho => exact ht.placed _ _ ho
  | joinRead _ ho => exact ht.placed _ _ ho
  | exitRel hpc ho => exact hown _ (by rw [hpc]; rfl) ho
  | exitGo hpc ho => exact hown _ (by rw [hpc]; rfl) ho
  | _ => trivial

theorem TableInv.slot_self {s : PState} (h : TableInv s) {u o : Uid}
    (hu : (s.obj u).alive = true) (ho : s.slot (s.obj u).pid = some o) : o = u := by
  have hlt := (h.held u hu).1
  rw [PState.slot, if_pos ⟨Int.natCast_nonneg _, Int.ofNat_lt.mpr hlt⟩, Int.toNat_natCast,
    (h.held u hu).2] at ho
  exact (Option.some.inj ho).symm

theorem objInv_step {s s' : PState} {u : Uid} (ht : TableInv s) (h : ObjInv s)
    (he : Effect s u s') : ObjInv s' := by
  cases he with
  | pass hw _ _ => exact h.of_pc (Nat.le_refl _) (fun _ _ => rfl) rfl (fits_waits hw (h u))
  | sleep _ _ _ => exact fun v => (h v).mono (Nat.le_refl _) (fun _ _ => rfl)
  | post hp => exact h.of_pc (Nat.le_refl _) (fun _ _ => rfl) rfl (fits_posts hp)
  | stop => exact fun v => (h v).mono (Nat.le_refl _) (fun _ _ => rfl)
  | move hm => exact h.of_pc (Nat.le_refl _) (fun _ _ => rfl) rfl (hm.fits ht)
  | allocate hpc =>
      refine h.of_pc (Nat.le_refl _) (fun _ _ => rfl) rfl ?_
      split <;> trivial
  | create hpc _ _ _ =>
      refine h.of_pc (Nat.le_succ _) (fun o ho => ?_) rfl trivial
      rw [create_obj_ne _ _ _ _ _ (Nat.ne_of_lt ho)]
  | @fork id o hpc =>
      intro v
      rw [fork_pc]
      split
      · trivial
      split
      · trivial
      · exact (h v).mono (Nat.le_refl _) (fun _ _ => rfl)
  | join hpc _ _ _ _ _ ho =>
      exact h.of_pc (Nat.le_refl _) (fun _ _ => rfl) rfl
        (ht.slot_self (ht.active u (by rw [hpc]; rfl)) ho)
  | @numWait n o k hk =>
      refine h.of_pc (Nat.le_refl _) (fun v _ => ?_) rfl ?_
      · exact upd_field PCB.pid (by rfl) v
      · rcases hk with ⟨c, g, hpc, rfl⟩ | ⟨_, rfl⟩
        · have := h u
          rwa [hpc] at this
        · trivial
  | @exit ret e me o _ _ _ _ =>
      refine h.of_pc (k := .exitDec o) (Nat.le_refl _) (fun v _ => ?_) rfl trivial
      exact upd_field PCB.pid (by rfl) v
  | delete hpc _ _ =>
      refine h.of_pc (Nat.le_refl _) (fun v _ => ?_) rfl trivial
      by_cases hv : v = u
      · rw [hv, delete_obj_self]
      · rw [delete_obj_ne _ _ _ _ hv]
  | keep _ _ => exact h.of_pc (Nat.le_refl _) (fun _ _ => rfl) rfl trivial

theorem objInv_reachable {s : PState} (h : sys.Reachable s) : ObjInv s := by
  refine inv_reachBy h ?_ ?_
  · intro hd u
    exact boot_pc (Q := Fits (boot hd) u) trivial trivial hd u
  · intro s s' u a hr hI _ hst
    exact objInv_step (tableInv_reachable hr) hI (step_effect hst)

/-! ## Exit codes -/

/-- The exit code of a process that has called `Exit`. -/
structure CodeInv (s : PState) : Prop where
  /-- It is what the process gave to `ExitUpdate`. -/
  given : ∀ u, (s.pc u).exiting = true → s.exitArg u = some (s.obj u).exitcode
  /-- Whoever has called `Exit` does not come back from it. -/
  stays : ∀ u e, s.exitArg u = some e → (s.pc u).exiting = true ∨ s.pc u = .finished

/-- A process that moves on keeps its exit code, and stays in `ExitUpdate` if it is there. -/
theorem CodeInv.of_pc {s s' : PState} {u : Uid} {k : PC} (h : CodeInv s)
    (harg : s'.exitArg = s.exitArg) (hpc : s'.pc = upd s.pc u k)
    (hcode : ∀ v, (s.pc v).exiting = true → (s'.obj v).exitcode = (s.obj v).exitcode)
    (hk : k.exiting = (s.pc u).exiting) (hfin : s.pc u ≠ .finished) : CodeInv s' where
  given := by
    intro v hv
    have hv' : (s.pc v).exiting = true := by
      rw [hpc, upd_apply] at hv
      split at hv
      · rename_i hvu; rw [hvu, ← hk]; exact hv
      · exact hv
    rw [harg, hcode v hv']
    exact h.given v hv'
  stays := by
    intro v e hv
    rw [harg] at hv
    rw [hpc, upd_apply]
    split
    · rename_i hvu
      rw [hvu] at hv
      rw [hk]
      exact (h.stays u e hv).imp id fun hf => absurd hf hfin
    · exact h.stays v e hv

theorem PC.exiting_posts {p k : PC} {r : SemRef} (h : p.posts = some (r, k)) :
    k.exiting = p.exiting := by
  cases p <;> simp only [PC.posts, Option.some.injEq, Prod.mk.injEq, reduceCtorEq] at h <;>
    (obtain ⟨rfl, rfl⟩ := h; rfl)

theorem Move.exiting {s : PState} {u : Uid} {k : PC} (h : Move s u k) :
    k.exiting = (s.pc u).exiting := by
  cases h <;> rename_i hpc <;> simp [*, PC.exiting]

theorem ne_finished {p : PC} (h : p.active = true) : p ≠ .finished := by
  intro he
  rw [he] at h
  exact Bool.noConfusion h

theorem codeInv_step {s s' : PState} {u : Uid} (ht : TableInv s) (h : CodeInv s)
    (he : Effect s u s') : CodeInv s' := by
  cases he with
  | pass hw _ _ =>
      obtain ⟨hact, _, hexi, _, _⟩ := PC.waits_spec hw
      exact h.of_pc rfl rfl (fun _ _ => rfl) hexi (ne_finished hact)
  | sleep _ _ _ => exact ⟨h.given, h.stays⟩
  | post hp =>
      exact h.of_pc rfl rfl (fun _ _ => rfl) (PC.exiting_posts hp)
        (ne_finished (PC.posts_spec hp).1)
  | stop => exact ⟨h.given, h.stays⟩
  | move hm => exact h.of_pc rfl rfl (fun _ _ => rfl) hm.exiting (ne_finished hm.spec.1)
  | allocate hpc =>
      refine h.of_pc rfl rfl (fun _ _ => rfl) ?_ (ne_finished (by rw [hpc]; rfl))
      rw [hpc]
      split <;> rfl
  | create hpc _ _ _ =>
      refine h.of_pc rfl rfl (fun v hv => ?_) (by rw [hpc]; rfl) (ne_finished (by rw [hpc]; rfl))
      have hact : (s.pc v).active = true := by
        cases hv' : s.pc v <;> first | rfl | (rw [hv'] at hv; exact Bool.noConfusion hv)
      rw [create_obj_ne _ _ _ _ _ (Nat.ne_of_lt (ht.lt_next (ht.active v hact)))]
  | @fork id o hpc =>
      have hbo := (ht.target u o (by rw [hpc]; rfl)).2
      have hexi : ∀ v, ((s.fork u id o).pc v).exiting = (s.pc v).exiting := by
        intro v
        rw [fork_pc]
        split
        · rename_i hv; rw [hv, hpc]; rfl
        split
        · rename_i hv; rw [hv, hbo]; rfl
        · rfl
      refine ⟨fun v hv => h.given v (hexi v ▸ hv), fun v e hv => ?_⟩
      rcases h.stays v e hv with h1 | h1
      · exact .inl ((hexi v).trans h1)
      · refine .inr ?_
        rw [fork_pc, if_neg, if_neg]
        · exact h1
        · intro hvo; rw [hvo, hbo] at h1; exact PC.noConfusion h1
        · intro hvu; rw [hvu, hpc] at h1; exact PC.noConfusion h1
  | join hpc _ _ _ _ _ _ =>
      exact h.of_pc rfl rfl (fun _ _ => rfl) (by rw [hpc]; rfl) (ne_finished (by rw [hpc]; rfl))
  | @numWait n o k hk =>
      refine h.of_pc rfl rfl (fun v _ => ?_) ?_ ?_
      · exact upd_field PCB.exitcode (by rfl) v
      · rcases hk with ⟨_, _, hpc, rfl⟩ | ⟨hpc, rfl⟩ <;> rw [hpc] <;> rfl
      · rcases hk with ⟨_, _, hpc, _⟩ | ⟨hpc, _⟩ <;> exact ne_finished (by rw [hpc]; rfl)
  | @exit ret e me o hpc _ hme _ =>
      -- the PCB that gets the code is the caller's own
      have hau : (s.obj u).alive = true := ht.active u (by rw [hpc]; rfl)
      rw [(ht.held u hau).2] at hme
      have hmu := Option.some.inj hme
      subst hmu
      refine ⟨fun v hv => ?_, fun v e' hv => ?_⟩
      · by_cases hvu : v = u
        · subst hvu
          show upd s.exitArg v (some e) v = some (upd s.obj v _ v).exitcode
          rw [upd_self, upd_self]
        · replace hv : (upd s.pc u _ v).exiting = true := hv
          rw [upd_ne _ _ hvu] at hv
          show upd s.exitArg u (some e) v = some (upd s.obj u _ v).exitcode
          rw [upd_ne _ _ hvu, upd_ne _ _ hvu]
          exact h.given v hv
      · show (upd s.pc u _ v).exiting = true ∨ upd s.pc u _ v = .finished
        by_cases hvu : v = u
        · rw [hvu, upd_self]; exact .inl rfl
        · replace hv : upd s.exitArg u (some e) v = some e' := hv
          rw [upd_ne _ _ hvu] at hv
          rw [upd_ne _ _ hvu]
          exact h.stays v e' hv
  | delete hpc _ _ =>
      refine ⟨fun v hv => ?_, fun v e hv => ?_⟩
      · by_cases hvu : v = u
        · rw [hvu, delete_pc, if_pos rfl] at hv; exact Bool.noConfusion hv
        · rw [delete_pc, if_neg hvu] at hv
          rw [delete_obj_ne _ _ _ _ hvu]
          exact h.given v hv
      · by_cases hvu : v = u
        · rw [hvu, delete_pc, if_pos rfl]; exact .inr rfl
        · rw [delete_pc, if_neg hvu]; exact h.stays v e hv
  | keep hpc htest => exact (ht.not_keep hpc htest).elim

theorem codeInv_reachable {s : PState} (h : sys.Reachable s) : CodeInv s := by
  refine inv_reachBy h ?_ ?_
  · intro hd
    refine ⟨fun u hu => ?_, fun u e he => absurd he (by simp [boot])⟩
    rw [boot_pc (Q := fun p => p.exiting = false) rfl rfl hd u] at hu
    exact Bool.noConfusion hu
  · intro s s' u a hr hI _ hst
    exact codeInv_step (tableInv_reachable hr) hI (step_effect hst)

/-! ## The handshake -/

/-- The token of process `w`: on `joinsem`, with a process that reads its code, on `exitsem`, or
spent. -/
def Hand (s : PState) (w : Uid) : Prop :=
  Handshake (s.sem (.joinsem w)).value (s.sem (.exitsem w)).value
    (fun j => (s.pc j).takes = some w) (s.pc w).stage

/-- Every process that was ever created has one token. -/
def HandInv (s : PState) : Prop := ∀ w, w < s.next → Hand s w

theorem Hand.of_same {s s' : PState} {w : Uid} (h : Hand s w)
    (hJ : (s'.sem (.joinsem w)).value = (s.sem (.joinsem w)).value)
    (hE : (s'.sem (.exitsem w)).value = (s.sem (.exitsem w)).value)
    (hT : ∀ j, (s'.pc j).takes = some w ↔ (s.pc j).takes = some w)
    (hst : (s'.pc w).stage = (s.pc w).stage) : Hand s' w := by
  unfold Hand
  rw [hJ, hE, hst]
  exact Handshake.congr h hT

theorem takes_upd {f : Uid → PC} {u w : Uid} {k : PC}
    (hk : k.takes = some w ↔ (f u).takes = some w) (j : Uid) :
    (upd f u k j).takes = some w ↔ (f j).takes = some w := by
  rw [upd_apply]
  split
  · rename_i hj; rw [hj]; exact hk
  · rfl

theorem stage_upd {f : Uid → PC} {u w : Uid} {k : PC} (hk : w = u → k.stage = (f u).stage) :
    (upd f u k w).stage = (f w).stage := by
  rw [upd_apply]
  split
  · rename_i hw; rw [hw]; exact hk hw
  · rfl

theorem Hand.of_pc {s s' : PState} {u w : Uid} {k : PC} (h : Hand s w)
    (hJ : (s'.sem (.joinsem w)).value = (s.sem (.joinsem w)).value)
    (hE : (s'.sem (.exitsem w)).value = (s.sem (.exitsem w)).value)
    (hpc : s'.pc = upd s.pc u k) (hT : k.takes = some w ↔ (s.pc u).takes = some w)
    (hst : w = u → k.stage = (s.pc u).stage) : Hand s' w := by
  refine h.of_same hJ hE (fun j => ?_) ?_
  · rw [hpc]; exact takes_upd hT j
  · rw [hpc]; exact stage_upd hst

theorem toInt32_pred {v : Int} (h : v = 0 ∨ v = 1) : toInt32 (v - 1) = v - 1 :=
  toInt32_of_range (by omega) (by simp only [intMax]; omega)

theorem toInt32_succ {v : Int} (h : v = 0 ∨ v = 1) : toInt32 (v + 1) = v + 1 :=
  toInt32_of_range (by omega) (by simp only [intMax]; omega)

/-- `JoinWait` moves the token from `joinsem` to the process that got through. -/
theorem hand_joinWait {s : PState} {u : Uid} {c : Nat} {g o w : Uid} (h : Hand s w)
    (hpc : s.pc u = .joinWait c g o) (hv : (s.sem (.joinsem o)).value ≠ 0) :
    Hand (s.passed u (.joinsem o) (.joinRead c g o)) w := by
  by_cases hw : w = o
  · subst hw
    unfold Hand
    rw [passed_sem_self, passed_sem_ne _ _ _ _ _ (by simp)]
    show Handshake (toInt32 ((s.sem (.joinsem w)).value - 1)) _ _ _
    rw [toInt32_pred (Handshake.values h).1, passed_pc, ← upd_apply,
      stage_upd (fun _ => by rw [hpc]; rfl)]
    refine Handshake.take (a := u) h hv ?_ fun j hj => ?_
    · rw [passed_pc, if_pos rfl]; rfl
    · rw [passed_pc, if_neg hj]
  · refine h.of_pc ?_ ?_ rfl ?_ (fun _ => by rw [hpc]; rfl)
    · rw [passed_sem_ne _ _ _ _ _ (by simpa using hw)]
    · rw [passed_sem_ne _ _ _ _ _ (by simp)]
    · rw [hpc]
      simp only [PC.takes, Option.some.injEq, reduceCtorEq, iff_false]
      exact fun he => hw he.symm

/-- `ExitWait` spends the token. -/
theorem hand_exitWait {s : PState} {u w : Uid} (h : Hand s w) (hpc : s.pc u = .exitWait u)
    (hv : (s.sem (.exitsem u)).value ≠ 0) :
    Hand (s.passed u (.exitsem u) .exitRemove) w := by
  have hT : ∀ j, ((s.passed u (.exitsem u) .exitRemove).pc j).takes = some w ↔
      (s.pc j).takes = some w := takes_upd (by rw [hpc]; simp [PC.takes])
  by_cases hw : w = u
  · subst hw
    unfold Hand
    rw [passed_sem_self, passed_sem_ne _ _ _ _ _ (by simp), passed_pc, if_pos rfl]
    show Handshake _ (toInt32 ((s.sem (.exitsem w)).value - 1)) _ _
    rw [toInt32_pred (Handshake.values h).2]
    exact Handshake.congr (Handshake.leave h hv) hT
  · refine h.of_same ?_ ?_ hT (stage_upd fun he => absurd he hw)
    · rw [passed_sem_ne _ _ _ _ _ (by simp)]
    · rw [passed_sem_ne _ _ _ _ _ (by simpa using hw)]

theorem hand_pass {s : PState} {u w : Uid} {r : SemRef} {k : PC} (ho : ObjInv s) (h : Hand s w)
    (hw : (s.pc u).waits = some (r, k)) (hv : (s.sem r).value ≠ 0) : Hand (s.passed u r k) w := by
  have hfits := ho u
  cases hpc : s.pc u <;> rw [hpc] at hw hfits <;>
    simp only [PC.waits, Option.some.injEq, Prod.mk.injEq, reduceCtorEq] at hw <;>
    obtain ⟨rfl, rfl⟩ := hw
  case joinWait c g o => exact hand_joinWait h hpc hv
  case exitWait o =>
      replace hfits : o = u := hfits
      subst hfits
      exact hand_exitWait h hpc hv
  all_goals
    refine h.of_pc ?_ ?_ rfl ?_ (fun _ => by rw [hpc]; rfl)
    · rw [passed_sem_ne _ _ _ _ _ (by simp)]
    · rw [passed_sem_ne _ _ _ _ _ (by simp)]
    · rw [hpc]; simp [PC.takes]

/-- `ExitRelease` moves the token to `exitsem`. -/
theorem hand_joinPost {s : PState} {u : Uid} {c : Nat} {g o w : Uid} {v : Int} (h : Hand s w)
    (hpc : s.pc u = .joinPost c g o v) :
    Hand (s.V u (.exitsem o) (.joinRet c g v)) w := by
  by_cases hw : w = o
  · subst hw
    unfold Hand
    rw [V_sem_self, V_sem_ne _ _ _ _ _ (by simp)]
    show Handshake _ (toInt32 ((s.sem (.exitsem w)).value + 1)) _ _
    rw [toInt32_succ (Handshake.values h).2, V_pc, ← upd_apply,
      stage_upd (fun _ => by rw [hpc]; rfl)]
    refine Handshake.grant (a := u) h (by rw [hpc]; rfl) ?_ fun j hj => ?_
    · rw [V_pc, if_pos rfl]; simp [PC.takes]
    · rw [V_pc, if_neg hj]
  · refine h.of_pc ?_ ?_ rfl ?_ (fun _ => by rw [hpc]; rfl)
    · rw [V_sem_ne _ _ _ _ _ (by simp)]
    · rw [V_sem_ne _ _ _ _ _ (by simpa using hw)]
    · rw [hpc]
      simp only [PC.takes, Option.some.injEq, reduceCtorEq, false_iff]
      exact fun he => hw he.symm

/-- `JoinRelease` puts the token on `joinsem`. -/
theorem hand_exitPost {s : PState} {u w : Uid} (h : Hand s w) (hpc : s.pc u = .exitPost u) :
    Hand (s.V u (.joinsem u) .exitGo) w := by
  have hT : ∀ j, ((s.V u (.joinsem u) .exitGo).pc j).takes = some w ↔ (s.pc j).takes = some w :=
    takes_upd (by rw [hpc]; simp [PC.takes])
  by_cases hw : w = u
  · subst hw
    unfold Hand at h ⊢
    rw [hpc] at h
    rw [V_sem_self, V_sem_ne _ _ _ _ _ (by simp), V_pc, if_pos rfl]
    show Handshake (toInt32 ((s.sem (.joinsem w)).value + 1)) _ _ _
    rw [toInt32_succ (Handshake.values h).1]
    exact Handshake.congr (Handshake.offer h) hT
  · refine h.of_same ?_ ?_ hT (stage_upd fun he => absurd he hw)
    · rw [V_sem_ne _ _ _ _ _ (by simpa using hw)]
    · rw [V_sem_ne _ _ _ _ _ (by simp)]

theorem hand_post {s : PState} {u w : Uid} {r : SemRef} {k : PC} (ho : ObjInv s) (h : Hand s w)
    (hp : (s.pc u).posts = some (r, k)) : Hand (s.V u r k) w := by
  have hfits := ho u
  cases hpc : s.pc u <;> rw [hpc] at hp hfits <;>
    simp only [PC.posts, Option.some.injEq, Prod.mk.injEq, reduceCtorEq] at hp <;>
    obtain ⟨rfl, rfl⟩ := hp
  case joinPost c g o v => exact hand_joinPost h hpc
  case exitPost o =>
      replace hfits : o = u := hfits
      subst hfits
      exact hand_exitPost h hpc
  all_goals
    refine h.of_pc ?_ ?_ rfl ?_ (fun _ => by rw [hpc]; rfl)
    · rw [V_sem_ne _ _ _ _ _ (by simp)]
    · rw [V_sem_ne _ _ _ _ _ (by simp)]
    · rw [hpc]; simp [PC.takes]

/-- Whoever is read from is live and in its slot. -/
theorem HandInv.read {s : PState} (ht : TableInv s) (ho : ObjInv s) (h : HandInv s) {u : Uid}
    {c : Nat} {g o : Uid} (hpc : s.pc u = .joinRead c g o) :
    (s.pc o).stage = .offered ∧ (s.obj o).alive = true ∧ s.pcb c = some o := by
  have hfits := ho u
  rw [hpc] at hfits
  obtain ⟨hpid, hlt⟩ : (s.obj o).pid = c ∧ o < s.next := hfits
  have hst := (Handshake.of_taker (a := u) (h o hlt) (by rw [hpc]; rfl)).1
  have hact : (s.pc o).active = true := by
    cases hp : s.pc o <;> rw [hp] at hst <;> first | rfl | exact absurd hst (by simp [PC.stage])
  have hal := ht.active o hact
  exact ⟨hst, hal, hpid ▸ (ht.held o hal).2⟩

theorem hand_move {s : PState} {u w : Uid} {k : PC} (ht : TableInv s) (ho : ObjInv s)
    (h : HandInv s) (hw : w < s.next) (hm : Move s u k) : Hand (s.goto u k) w := by
  refine (h w hw).of_pc rfl rfl rfl ?_ ?_
  · cases hm with
    | @joinRead c g o o' hpc ho' =>
        -- `pcb[pID]` still leads to the process whose unit was taken
        rw [(HandInv.read ht ho h hpc).2.2] at ho'
        rw [hpc, Option.some.inj ho']
        rfl
    | _ => rename_i hpc; simp [*, PC.takes]
  · intro _
    cases hm <;> rename_i hpc <;> simp [*, PC.stage]

theorem handInv_step {s s' : PState} {u : Uid} (ht : TableInv s) (ho : ObjInv s) (h : HandInv s)
    (he : Effect s u s') : HandInv s' := by
  cases he with
  | pass hw _ hv => exact fun w hlt => hand_pass ho (h w hlt) hw hv
  | sleep _ _ _ =>
      exact fun w hlt => (h w hlt).of_same (slept_sem_value ..) (slept_sem_value ..)
        (fun _ => Iff.rfl) rfl
  | post hp => exact fun w hlt => hand_post ho (h w hlt) hp
  | stop => exact h
  | move hm => exact fun w hlt => hand_move ht ho h hlt hm
  | allocate hpc =>
      refine fun w hlt => (h w hlt).of_pc rfl rfl rfl ?_ fun _ => ?_
      · rw [hpc]; split <;> simp [PC.takes]
      · rw [hpc]; split <;> rfl
  | @create n id hpc _ _ _ =>
      intro w hlt
      have hk : PC.takes (.execLock id s.next) = some w ↔ (s.pc u).takes = some w := by
        rw [hpc]; simp [PC.takes]
      by_cases hw : w = s.next
      · -- a new process: nobody has met it
        subst hw
        have hnone : ∀ j, (s.pc j).takes ≠ some s.next := by
          intro j hj
          have hfits := ho j
          cases hp : s.pc j <;> rw [hp] at hj hfits <;>
            simp only [PC.takes, Option.some.injEq, reduceCtorEq] at hj
          all_goals
            rw [hj] at hfits
            exact absurd hfits.2 (Nat.lt_irrefl _)
        have hun : s.next ≠ u :=
          Nat.ne_of_gt (ht.lt_next (ht.active u (by rw [hpc]; rfl)))
        have hst : ((s.create u id (s.bm.mark id)).pc s.next).stage = .before := by
          rw [create_pc, if_neg hun, (ht.fresh _ (Nat.le_refl _)).2]; rfl
        unfold Hand
        rw [hst]
        refine .running ?_ ?_ fun j hj => hnone j ((takes_upd hk j).mp hj)
        · simp [create, upd_apply, Semaphore.new]
        · simp [create, upd_apply, Semaphore.new]
      · have hlt' : w < s.next := Nat.lt_of_le_of_ne (Nat.le_of_lt_succ hlt) hw
        refine (h w hlt').of_pc ?_ ?_ rfl hk fun _ => by rw [hpc]; rfl
        · simp [create, upd_apply, hw]
        · simp [create, upd_apply, hw]
  | @fork id o hpc =>
      intro w hlt
      have hbo := (ht.target u o (by rw [hpc]; rfl)).2
      refine (h w hlt).of_same rfl rfl (fun j => ?_) ?_
      · rw [fork_pc]
        split
        · rename_i hj; rw [hj, hpc]; simp [PC.takes]
        split
        · rename_i hj; rw [hj, hbo]; simp [PC.takes]
        · rfl
      · rw [fork_pc]
        split
        · rename_i hj; rw [hj, hpc]; rfl
        split
        · rename_i hj; rw [hj, hbo]; rfl
        · rfl
  | join hpc _ _ _ _ _ _ =>
      exact fun w hlt => (h w hlt).of_pc rfl rfl rfl (by rw [hpc]; simp [PC.takes])
        fun _ => by rw [hpc]; rfl
  | numWait hk =>
      refine fun w hlt => (h w hlt).of_pc rfl rfl rfl ?_ fun _ => ?_
      · rcases hk with ⟨_, _, hpc, rfl⟩ | ⟨hpc, rfl⟩ <;> rw [hpc] <;> simp [PC.takes]
      · rcases hk with ⟨_, _, hpc, rfl⟩ | ⟨hpc, rfl⟩ <;> rw [hpc] <;> rfl
  | @exit ret e me o hpc _ _ _ =>
      exact fun w hlt => (h w hlt).of_pc (k := .exitDec o) rfl rfl rfl
        (by rw [hpc]; simp [PC.takes]) fun _ => by rw [hpc]; rfl
  | delete hpc _ _ =>
      exact fun w hlt => (h w hlt).of_pc rfl rfl rfl (by rw [hpc]; simp [PC.takes])
        fun _ => by rw [hpc]; rfl
  | keep hpc htest => exact (ht.not_keep hpc htest).elim

theorem handInv_reachable {s : PState} (h : sys.Reachable s) : HandInv s := by
  refine inv_reachBy h ?_ ?_
  · intro hd w hw
    have hw0 : w = 0 := Nat.lt_one_iff.mp hw
    subst hw0
    refine .running rfl rfl fun j hj => ?_
    replace hj : ((boot hd).pc j).takes = some 0 := hj
    rw [boot_pc (Q := fun p => p.takes = none) rfl rfl hd j] at hj
    exact absurd hj (by simp)
  · intro s s' u a hr hI _ hst
    exact handInv_step (tableInv_reachable hr) (objInv_reachable hr) hI (step_effect hst)

end PState

end Nachos
