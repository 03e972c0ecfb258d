import Nachos.Threads.PTable

/-!
# What one step of a process can do

Said once, so that no invariant has to take the step function apart again. Most
steps only move the process on (`Move`) or operate on one semaphore; the rest are
listed with the conditions under which they happen and the state they leave.
-/

namespace Nachos.PState

open Base (upd upd_ne)

/-- `P` found a unit. -/
def passed (s : PState) (u : Uid) (r : SemRef) (k : PC) : PState :=
  { s with
    sem := upd s.sem r { s.sem r with value := toInt32 ((s.sem r).value - 1) }
    pc := upd s.pc u k }

/-- `P` found none. -/
def slept (s : PState) (u : Uid) (r : SemRef) : PState :=
  { s with sem := upd s.sem r { s.sem r with queue := (s.sem r).queue ++ [u] } }

/-! ## Fields after a step -/

section Fields

variable (s : PState) (u o v : Uid) (r r' : SemRef) (k : PC) (id : Nat) (b : Bitmap)
  (h : NoffHeader)

@[simp] theorem goto_pc : (s.goto u k).pc v = if v = u then k else s.pc v := rfl

@[simp] theorem passed_pc : (s.passed u r k).pc v = if v = u then k else s.pc v := rfl

@[simp] theorem V_pc : (s.V u r k).pc v = if v = u then k else s.pc v := rfl

@[simp] theorem create_pc :
    (s.create u id b).pc v = if v = u then .execLock id s.next else s.pc v := rfl

@[simp] theorem fork_pc : (s.fork u id o).pc v =
    if v = u then .execUnlock id o else if v = o then .start else s.pc v := rfl

@[simp] theorem delete_pc : (s.delete u id).pc v = if v = u then .finished else s.pc v := rfl

@[simp] theorem allocate_pc : (s.allocate u h).pc v =
    if v = u then (if s.phys.numClear < h.numPages then .addrShort else .addrPost h) else s.pc v :=
  rfl

@[simp] theorem allocate_table : (s.allocate u h).table v =
    if v = u then (h.alloc s.phys).1 else s.table v := rfl

@[simp] theorem delete_table : (s.delete u id).table v = if v = u then [] else s.table v := rfl

@[simp] theorem delete_frees :
    (s.delete u id).frees v = if v = u then s.frees u + 1 else s.frees v := rfl

theorem create_obj_ne (h : v ≠ s.next) : (s.create u id b).obj v = s.obj v := Base.upd_ne _ _ h

@[simp] theorem create_obj_self : (s.create u id b).obj s.next =
    { pid := id, parentID := (s.obj u).pid, exitcode := 0, numwait := 0, alive := true,
      parent := u } :=
  Base.upd_self _ _ _

theorem delete_obj_ne (h : v ≠ u) : (s.delete u id).obj v = s.obj v := Base.upd_ne _ _ h

@[simp] theorem delete_obj_self : (s.delete u id).obj u = { s.obj u with alive := false } :=
  Base.upd_self _ _ _

@[simp] theorem passed_sem_self :
    (s.passed u r k).sem r = { s.sem r with value := toInt32 ((s.sem r).value - 1) } :=
  Base.upd_self _ _ _

theorem passed_sem_ne (h : r' ≠ r) : (s.passed u r k).sem r' = s.sem r' := Base.upd_ne _ _ h

@[simp] theorem slept_sem_self :
    (s.slept u r).sem r = { s.sem r with queue := (s.sem r).queue ++ [u] } :=
  Base.upd_self _ _ _

theorem slept_sem_ne (h : r' ≠ r) : (s.slept u r).sem r' = s.sem r' := Base.upd_ne _ _ h

@[simp] theorem V_sem_self : (s.V u r k).sem r = (s.sem r).V.1 := Base.upd_self _ _ _

theorem V_sem_ne (h : r' ≠ r) : (s.V u r k).sem r' = s.sem r' := Base.upd_ne _ _ h

@[simp] theorem slept_sem_value : ((s.slept u r).sem r').value = (s.sem r').value := by
  by_cases h : r' = r
  · rw [h, slept_sem_self]
  · rw [slept_sem_ne _ _ _ _ h]

end Fields

/-! ## Steps -/

/-- Steps that change nothing but where the process is. -/
inductive Move (s : PState) (u : Uid) : PC → Prop where
  | load {h : NoffHeader} : s.pc u = .start → Move s u (.addrWait h)
  | loaded {h : NoffHeader} : s.pc u = .addrLoad h → Move s u (.user none)
  | exec {ret : Option Int} {n : Option String} : s.pc u = .user ret → Move s u (.execWait n)
  | execFails {n : Option String} : s.pc u = .execBody n → Move s u .execFail
  | joinFails {ret : Option Int} : s.pc u = .user ret → Move s u (.user (some (-1)))
  | joinGo {c : Nat} {g o : Uid} : s.pc u = .joinGo c g → s.pcb c = some o →
      Move s u (.joinWait c g o)
  | joinRead {c : Nat} {g o o' : Uid} : s.pc u = .joinRead c g o → s.pcb c = some o' →
      Move s u (.joinPost c g o' (s.obj o').exitcode)
  | joinRet {c : Nat} {g : Uid} {v : Int} : s.pc u = .joinRet c g v → Move s u (.user (some v))
  | exitNone {ret : Option Int} : s.pc u = .user ret → Move s u (.user none)
  | exitRel {o : Uid} : s.pc u = .exitRel → s.pcb (s.obj u).pid = some o → Move s u (.exitPost o)
  | exitGo {o : Uid} : s.pc u = .exitGo → s.pcb (s.obj u).pid = some o → Move s u (.exitWait o)

/-- Everything a step of `u` can do. -/
inductive Effect (s : PState) (u : Uid) : PState → Prop where
  | pass {r : SemRef} {k : PC} : (s.pc u).waits = some (r, k) → u ∉ (s.sem r).queue →
      (s.sem r).value ≠ 0 → Effect s u (s.passed u r k)
  | sleep {r : SemRef} {k : PC} : (s.pc u).waits = some (r, k) → u ∉ (s.sem r).queue →
      (s.sem r).value = 0 → Effect s u (s.slept u r)
  | post {r : SemRef} {k : PC} : (s.pc u).posts = some (r, k) → Effect s u (s.V u r k)
  | stop {st : Status} : Effect s u (s.stop st)
  | move {k : PC} : Move s u k → Effect s u (s.goto u k)
  | allocate {h : NoffHeader} : s.pc u = .addrAlloc h → Effect s u (s.allocate u h)
  | create {n : Option String} {id : Nat} : s.pc u = .execBody n → id < s.bm.numBits →
      s.bm.test id = false → (∀ j, j < id → s.bm.test j = true) →
      Effect s u (s.create u id (s.bm.mark id))
  | fork {id : Nat} {o : Uid} : s.pc u = .execFork id o → Effect s u (s.fork u id o)
  | join {ret : Option Int} {c : Nat} {g o : Uid} : s.pc u = .user ret → c < maxProcess →
      s.bm.test c = true → (s.obj u).pid ≠ c → s.pcb c = some g →
      (s.obj g).parentID = (s.obj u).pid → s.slot (s.obj u).pid = some o →
      Effect s u { s.goto u (.joinInc c g o) with joined := upd s.joined g true }
  | numWait {n : Int} {o : Uid} {k : PC} :
      ((∃ c g, s.pc u = .joinIncr c g o ∧ k = .joinIncV c g o)
        ∨ (s.pc u = .exitDecr o ∧ k = .exitDecV o)) → Effect s u (s.setNumWait u o n k)
  | exit {ret : Option Int} {e : Int} {me o : Uid} : s.pc u = .user ret → (s.obj u).pid ≠ 0 →
      s.pcb (s.obj u).pid = some me → s.slot (s.obj me).parentID = some o →
      Effect s u { s with
        obj := upd s.obj me { s.obj me with exitcode := e }
        exitArg := upd s.exitArg u (some e)
        pc := upd s.pc u (.exitDec o) }
  | delete : s.pc u = .exitRemove → s.bm.test (s.obj u).pid = true →
      s.pcb (s.obj u).pid = some u → Effect s u (s.delete u (s.obj u).pid)
  | keep : s.pc u = .exitRemove → s.bm.test (s.obj u).pid = false →
      Effect s u ((s.freeSpace u).goto u (.user none))

theorem findAndSet_cases (b : Bitmap) :
    (b.findAndSet = (-1, b) ∧ ∀ j, j < b.numBits → b.test j = true)
    ∨ ∃ id : Nat, b.findAndSet = ((id : Int), b.mark id) ∧ id < b.numBits ∧ b.test id = false
        ∧ ∀ j, j < id → b.test j = true := by
  rw [Bitmap.findAndSet_eq]
  cases hc : b.clearBits with
  | nil =>
      refine .inl ⟨rfl, fun j hj => ?_⟩
      by_contra hne
      have : j ∈ b.clearBits := Bitmap.mem_clearBits.mpr ⟨hj, by simpa using hne⟩
      rw [hc] at this
      exact absurd this (by simp)
  | cons id rest =>
      have hid : id ∈ b.clearBits := hc ▸ List.mem_cons_self
      obtain ⟨hlt, hclear⟩ := Bitmap.mem_clearBits.mp hid
      refine .inr ⟨id, rfl, hlt, hclear, fun j hj => ?_⟩
      by_contra hne
      have hjc : j ∈ b.clearBits := Bitmap.mem_clearBits.mpr ⟨by omega, by simpa using hne⟩
      have hsorted := b.clearBits_sorted
      rw [hc] at hjc hsorted
      rcases List.mem_cons.mp hjc with h | h
      · omega
      · have := (List.pairwise_cons.mp hsorted).1 j h
        omega

/-- The checks of `ExecUpdate` fail, or a PCB is made in the first clear slot. -/
theorem execUpdate_cases (s : PState) (u : Uid) (n : Option String) (nm : String) (op : Bool) :
    (s.execUpdate u n nm op = s.goto u .execFail
      ∧ (n = none ∨ n = some nm ∨ op = false ∨ ∀ j, j < s.bm.numBits → s.bm.test j = true))
    ∨ (n ≠ none ∧ n ≠ some nm ∧ op = true ∧
      ∃ id : Nat, s.execUpdate u n nm op = s.create u id (s.bm.mark id)
        ∧ id < s.bm.numBits ∧ s.bm.test id = false ∧ ∀ j, j < id → s.bm.test j = true) := by
  cases n with
  | none => exact .inl ⟨rfl, .inl rfl⟩
  | some name =>
      by_cases hn : name = nm
      · exact .inl ⟨by simp [execUpdate, hn], .inr (.inl (by rw [hn]))⟩
      cases op with
      | false => exact .inl ⟨by simp [execUpdate], .inr (.inr (.inl rfl))⟩
      | true =>
          rcases findAndSet_cases s.bm with ⟨hf, hfull⟩ | ⟨id, hf, hlt, hclear, hfirst⟩
          · exact .inl ⟨by simp [execUpdate, hn, hf], .inr (.inr (.inr hfull))⟩
          · refine .inr ⟨by simp, by simpa using hn, rfl, id, ?_, hlt, hclear, hfirst⟩
            have hid : (id : Int) ≠ -1 := by omega
            simp [execUpdate, hn, hf, hid]

theorem isExist_iff {s : PState} {pID : Int} :
    s.isExist pID = true ↔ 0 ≤ pID ∧ pID < maxProcess ∧ s.bm.test pID.toNat = true := by
  simp [isExist, and_assoc]

theorem joinUpdate_effect {s : PState} {u : Uid} {ret : Option Int} (hpc : s.pc u = .user ret)
    (pID : Int) : Effect s u (s.joinUpdate u pID) := by
  unfold joinUpdate
  split
  · exact .move (.joinFails hpc)
  rename_i hex
  obtain ⟨h0, hmax, htest⟩ := isExist_iff.mp (Bool.not_eq_false _ ▸ hex)
  split
  · exact .move (.joinFails hpc)
  rename_i hself
  have hslot : s.slot pID = s.pcb pID.toNat := if_pos ⟨h0, hmax⟩
  split
  · exact .stop
  rename_i g hg
  split
  · exact .move (.joinFails hpc)
  rename_i hpar
  have hpar' : (s.obj g).parentID = (s.obj u).pid := (not_not.mp hpar).symm
  split
  · exact .stop
  rename_i o ho
  rw [hpar'] at ho
  rw [hslot] at hg
  exact .join hpc (by omega) htest (fun h => hself (by omega)) hg hpar' ho

theorem exitUpdate_effect {s : PState} {u : Uid} {ret : Option Int} (hpc : s.pc u = .user ret)
    (e : Int) : Effect s u (s.exitUpdate u e) := by
  unfold exitUpdate
  split
  · exact .stop
  rename_i hpid
  split
  · exact .move (.exitNone hpc)
  split
  · exact .stop
  rename_i me hme
  split
  · exact .stop
  rename_i o ho
  exact .exit hpc hpid hme ho

theorem remove_effect {s : PState} {u : Uid} (hpc : s.pc u = .exitRemove) :
    Effect s u (s.remove u) := by
  unfold remove
  split
  · rename_i htest
    split
    · exact .stop
    rename_i o ho
    split
    · rename_i hou
      subst hou
      exact .delete hpc htest ho
    · exact .stop
  · rename_i htest
    exact .keep hpc (by simpa using htest)

theorem advance_effect {s s' : PState} {u : Uid} {a : Act} (h : s.advance u a = some s') :
    Effect s u s' := by
  unfold advance at h
  split at h
  all_goals try (have h' := Option.some.inj h; subst h')
  · rename_i found hpc
    unfold openExecutable
    cases found with
    | none => exact .stop
    | some h =>
        dsimp only
        split
        · exact .stop
        · exact .move (.load hpc)
  · rename_i h hpc; exact .allocate hpc
  · exact .stop
  · rename_i h hpc
    unfold loadSegments
    split
    · exact .move (.loaded hpc)
    · exact .stop
  · rename_i ret n hpc; exact .move (.exec hpc)
  · rename_i ret pID hpc; exact joinUpdate_effect hpc pID
  · rename_i ret e hpc; exact exitUpdate_effect hpc e
  · rename_i n nm op hpc
    rcases execUpdate_cases s u n nm op with ⟨he, _⟩ | ⟨_, _, _, id, he, hlt, hc, hf⟩
    · rw [he]; exact .move (.execFails hpc)
    · rw [he]; exact .create hpc hlt hc hf
  · rename_i id o hpc; exact .fork hpc
  · rename_i c g o hpc; exact .numWait (.inl ⟨c, g, hpc, rfl⟩)
  · rename_i c g hpc
    unfold joinWait
    split
    · exact .stop
    · rename_i o ho; exact .move (.joinGo hpc ho)
  · rename_i c g o hpc
    unfold getExitCode
    split
    · exact .stop
    · rename_i o' ho; exact .move (.joinRead hpc ho)
  · rename_i c g v hpc; exact .move (.joinRet hpc)
  · rename_i o hpc; exact .numWait (.inr ⟨hpc, rfl⟩)
  · rename_i hpc
    unfold joinRelease
    split
    · exact .stop
    · rename_i o ho; exact .move (.exitRel hpc ho)
  · rename_i hpc
    unfold exitWait
    split
    · exact .stop
    · rename_i o ho; exact .move (.exitGo hpc ho)
  · rename_i hpc; exact remove_effect hpc
  · exact absurd h (by simp)

theorem step_running {s s' : PState} {l : Uid × Act} (h : s.step l = some s') :
    s.status = .running := by
  unfold step at h
  split at h
  · exact absurd h (by simp)
  · rename_i hs
    exact not_not.mp hs

/-- A step before a `P` is a pass of it. -/
theorem step_waits {s s' : PState} {u : Uid} {a : Act} {r : SemRef} {k : PC}
    (hw : (s.pc u).waits = some (r, k)) (h : s.step (u, a) = some s') :
    u ∉ (s.sem r).queue ∧ (((s.sem r).value = 0 ∧ s' = s.slept u r)
      ∨ ((s.sem r).value ≠ 0 ∧ s' = s.passed u r k)) := by
  have hrun := step_running h
  unfold step at h
  rw [if_neg (not_not.mpr hrun)] at h
  dsimp only at h
  rw [hw] at h
  dsimp only at h
  unfold P at h
  split at h
  · exact absurd h (by simp)
  rename_i hq
  refine ⟨hq, ?_⟩
  by_cases hv : (s.sem r).value = 0
  · rw [Semaphore.P_zero u hv] at h
    exact .inl ⟨hv, (Option.some.inj h).symm⟩
  · rw [Semaphore.P_pos u hv] at h
    exact .inr ⟨hv, (Option.some.inj h).symm⟩

theorem waits_none_of_posts {p k : PC} {r : SemRef} (hp : p.posts = some (r, k)) :
    p.waits = none := by
  cases p <;> first | rfl | exact absurd hp (by simp [PC.posts])

/-- A step before a `V` is that `V`. -/
theorem step_posts {s s' : PState} {u : Uid} {a : Act} {r : SemRef} {k : PC}
    (hp : (s.pc u).posts = some (r, k)) (h : s.step (u, a) = some s') : s' = s.V u r k := by
  have hrun := step_running h
  unfold step at h
  rw [if_neg (not_not.mpr hrun)] at h
  dsimp only at h
  rw [waits_none_of_posts hp, hp] at h
  exact (Option.some.inj h).symm

/-- Every other step is a call or a stretch of the kernel. -/
theorem step_advance {s s' : PState} {u : Uid} {a : Act} (hw : (s.pc u).waits = none)
    (hp : (s.pc u).posts = none) (h : s.step (u, a) = some s') : s.advance u a = some s' := by
  have hrun := step_running h
  unfold step at h
  rw [if_neg (not_not.mpr hrun)] at h
  dsimp only at h
  rwa [hw, hp] at h

/-- **Every step is one of these.** -/
theorem step_effect {s s' : PState} {u : Uid} {a : Act} (h : s.step (u, a) = some s') :
    Effect s u s' := by
  cases hw : (s.pc u).waits with
  | some rk =>
      obtain ⟨hq, ⟨hv, rfl⟩ | ⟨hv, rfl⟩⟩ := step_waits hw h
      · exact .sleep hw hq hv
      · exact .pass hw hq hv
  | none =>
      cases hp : (s.pc u).posts with
      | some rk =>
          have h' := step_posts hp h
          subst h'
          exact .post hp
      | none => exact advance_effect (step_advance hw hp h)

/-! ## Runs -/

/-- At the start the initial process is in user mode and nobody else is there. -/
theorem boot_pc {Q : PC → Prop} (hu : Q (.user none)) (hb : Q .unborn) (hd : NoffHeader) (u : Uid) :
    Q ((boot hd).pc u) := by
  by_cases h0 : u = 0
  · rw [h0]; exact hu
  · show Q (upd (fun _ => PC.unborn) 0 (.user none) u)
    rw [upd_ne _ _ h0]; exact hb

/-- **The invariant rule for the table**: from any initial program, by any step of any process. -/
theorem inv_reachBy {G : PState → Uid × Act → Prop} {I : PState → Prop} {s : PState}
    (h : sys.ReachBy G s) (h0 : ∀ hd, I (boot hd))
    (hs : ∀ s s' u a, sys.ReachBy G s → I s → G s (u, a) → s.step (u, a) = some s' → I s') :
    I s := by
  refine h.invariant ?_ ?_
  · intro s hi
    obtain ⟨hd, _, he⟩ := hi
    rw [he]
    exact h0 hd
  · intro s l s' hr hI hg hst
    exact hs s s' l.1 l.2 hr hI hg hst

end Nachos.PState
