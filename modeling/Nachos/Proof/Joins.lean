import Nachos.Proof.Rendezvous

/-!
# What a `Join` returns

Runs in which every child is joined at most once. There the process in slot `c`
when `Join(c)` is called is the one whose `joinsem` is waited for, whose exit code
is read and whose `exitsem` is released, and it stays in its slot until then:
nobody but the joining process can release it.
-/

namespace Nachos

open Base (upd upd_self upd_ne upd_apply upd_field Stage Handshake)

/-- In `JoinUpdate(c)`, called when `g` had slot `c`, and before the release of `exitsem`. -/
def PC.joining : PC → Option (Nat × Uid)
  | .joinInc c g _ => some (c, g)
  | .joinIncr c g _ => some (c, g)
  | .joinIncV c g _ => some (c, g)
  | .joinGo c g => some (c, g)
  | .joinWait c g _ => some (c, g)
  | .joinRead c g _ => some (c, g)
  | .joinPost c g _ _ => some (c, g)
  | _ => none

/-- The process that `pcb[c]` turned out to be. -/
def PC.joinObj : PC → Option Uid
  | .joinWait _ _ o => some o
  | .joinRead _ _ o => some o
  | .joinPost _ _ o _ => some o
  | _ => none

/-- The exit code read for `g`, which `JoinUpdate` will return. -/
def PC.joinValue : PC → Option (Uid × Int)
  | .joinPost _ g _ v => some (g, v)
  | .joinRet _ g v => some (g, v)
  | _ => none

theorem PC.joining_waits {p k : PC} {r : SemRef} (h : p.waits = some (r, k)) :
    k.joining = p.joining ∧ (∀ o, k.joinObj = some o → p.joinObj = some o) ∧ k.joinValue = none
      ∧ (k.stage = p.stage ∨ ∃ o, p = .exitWait o ∧ r = .exitsem o) := by
  cases p <;> simp only [PC.waits, Option.some.injEq, Prod.mk.injEq, reduceCtorEq] at h <;>
    (obtain ⟨rfl, rfl⟩ := h; simp [PC.joining, PC.joinObj, PC.joinValue, PC.stage])

theorem PC.joining_posts {p k : PC} {r : SemRef} (h : p.posts = some (r, k)) :
    (∀ x, k.joining = some x → p.joining = some x) ∧ k.joinObj = none
      ∧ (∀ x, k.joinValue = some x → p.joinValue = some x) ∧ k.stage ≠ .past
      ∧ ∀ g, r = .exitsem g → ∃ c g' v, p = .joinPost c g' g v ∧ k.joining = none := by
  cases p <;> simp only [PC.posts, Option.some.injEq, Prod.mk.injEq, reduceCtorEq] at h <;>
    (obtain ⟨rfl, rfl⟩ := h; simp [PC.joining, PC.joinObj, PC.joinValue, PC.stage])

namespace PState

/-- The process that a `Join` which passes its checks is about. -/
def joinTarget (s : PState) (l : Uid × Act) : Option Uid :=
  match s.pc l.1, l.2 with
  | .user _, .join pID =>
      if s.isExist pID = true ∧ ((s.obj l.1).pid : Int) ≠ pID then
        (s.slot pID).filter fun g => decide ((s.obj g).parentID = (s.obj l.1).pid)
      else none
  | _, _ => none

/-- A `Join` that passes its checks is the first one on that process. -/
def FirstJoin (s : PState) (l : Uid × Act) : Prop := ∀ g ∈ s.joinTarget l, s.joined g = false

instance (s : PState) (l : Uid × Act) : Decidable (FirstJoin s l) :=
  inferInstanceAs (Decidable (∀ g ∈ s.joinTarget l, s.joined g = false))

theorem joinTarget_of_step {s s' : PState} {u : Uid} {a : Act} {ret : Option Int} {c : Nat}
    {g o : Uid} (h : s.step (u, a) = some s') (hpc : s.pc u = .user ret)
    (hpc' : s'.pc u = .joinInc c g o) : s.joinTarget (u, a) = some g := by
  have hadv := step_advance (by rw [hpc]; rfl) (by rw [hpc]; rfl) h
  cases a with
  | join pID =>
      simp only [advance, hpc, Option.some.injEq] at hadv
      subst hadv
      unfold joinUpdate at hpc'
      simp only [joinTarget, hpc]
      split at hpc'
      · exact absurd hpc' (by simp)
      rename_i hex
      split at hpc'
      · exact absurd hpc' (by simp)
      rename_i hself
      rw [if_pos ⟨by simpa using hex, hself⟩]
      split at hpc'
      · exact absurd hpc' (by simp [stop, hpc])
      rename_i g' hg'
      split at hpc'
      · exact absurd hpc' (by simp)
      rename_i hpar
      split at hpc'
      · exact absurd hpc' (by simp [stop, hpc])
      have hg : g' = g := by
        simp only [goto_pc, if_true] at hpc'
        injection hpc'
      rw [hg', ← hg]
      simp [(not_not.mp hpar).symm]
  | exit e =>
      simp only [advance, hpc, Option.some.injEq] at hadv
      subst hadv
      exfalso
      revert hpc'
      unfold exitUpdate
      repeat' split
      all_goals simp [stop, hpc]
  | exec n =>
      simp only [advance, hpc, Option.some.injEq] at hadv
      subst hadv
      exact absurd hpc' (by simp)
  | go => exact absurd hadv (by simp [advance, hpc])
  | check nm op => exact absurd hadv (by simp [advance, hpc])
  | load f => exact absurd hadv (by simp [advance, hpc])

/-- `g` has slot `c`, lives, and has not been released. -/
structure Waited (s : PState) (c : Nat) (g : Uid) : Prop where
  /-- Its join is recorded. -/
  joined : s.joined g = true
  /-- It was created. -/
  lt : g < s.next
  /-- It has the slot. -/
  slot : s.pcb c = some g
  /-- It lives. -/
  alive : (s.obj g).alive = true
  /-- `exitsem` is closed. -/
  closed : (s.sem (.exitsem g)).value = 0
  /-- It is not past it. -/
  notPast : (s.pc g).stage ≠ .past

/-- Joins and the processes they are about. -/
structure FirstInv (s : PState) : Prop where
  /-- A process that is being joined waits to be released. -/
  waited : ∀ j c g, (s.pc j).joining = some (c, g) → Waited s c g
  /-- It is the one found when the slot is looked up again. -/
  same : ∀ j c g o, (s.pc j).joining = some (c, g) → (s.pc j).joinObj = some o → o = g
  /-- One process at a time joins it. -/
  unique : ∀ i j c d g, (s.pc i).joining = some (c, g) → (s.pc j).joining = some (d, g) → i = j
  /-- A process nobody has joined is not released. -/
  unjoined : ∀ g, g < s.next → s.joined g = false →
    (s.sem (.exitsem g)).value = 0 ∧ (s.pc g).stage ≠ .past
  /-- The code that was read is the one given to `ExitUpdate`. -/
  code : ∀ j g v, (s.pc j).joinValue = some (g, v) → s.exitArg g = some v

theorem Waited.of_same {s s' : PState} {c : Nat} {g : Uid} (h : Waited s c g)
    (hjoined : s.joined g = true → s'.joined g = true) (hnext : s.next ≤ s'.next)
    (hpcb : s'.pcb c = s.pcb c) (hal : (s'.obj g).alive = (s.obj g).alive)
    (hE : (s'.sem (.exitsem g)).value = 0) (hst : (s'.pc g).stage ≠ .past) : Waited s' c g where
  joined := hjoined h.joined
  lt := Nat.lt_of_lt_of_le h.lt hnext
  slot := hpcb.trans h.slot
  alive := hal.trans h.alive
  closed := hE
  notPast := hst

/-- A step of `u` to `k` that begins no join, leaves the table alone and opens no `exitsem`. -/
theorem FirstInv.of_pc {s s' : PState} {u : Uid} {k : PC} (h : FirstInv s)
    (hpc : s'.pc = upd s.pc u k) (hjoined : s'.joined = s.joined) (hnext : s'.next = s.next)
    (hpcb : s'.pcb = s.pcb) (hal : ∀ v, (s'.obj v).alive = (s.obj v).alive)
    (hE : ∀ g, (s.sem (.exitsem g)).value = 0 → (s'.sem (.exitsem g)).value = 0)
    (harg : ∀ g v, s.exitArg g = some v → s'.exitArg g = some v)
    (hk : ∀ x, k.joining = some x → (s.pc u).joining = some x)
    (hobj : ∀ c g o, k.joining = some (c, g) → k.joinObj = some o → o = g)
    (hval : ∀ g v, k.joinValue = some (g, v) → s.exitArg g = some v)
    (hst : (s.sem (.exitsem u)).value = 0 → (s.pc u).stage ≠ .past → k.stage ≠ .past) :
    FirstInv s' := by
  have hstage : ∀ g, (s.sem (.exitsem g)).value = 0 → (s.pc g).stage ≠ .past →
      (s'.pc g).stage ≠ .past := by
    intro g h0 hg
    rw [hpc, upd_apply]
    split
    · rename_i hgu; rw [hgu] at h0 hg; exact hst h0 hg
    · exact hg
  have hjoining : ∀ j x, (s'.pc j).joining = some x → (s.pc j).joining = some x := by
    intro j x hj
    rw [hpc, upd_apply] at hj
    split at hj
    · rename_i hju; rw [hju]; exact hk x hj
    · exact hj
  refine ⟨?_, ?_, ?_, ?_, ?_⟩
  · intro j c g hj
    have hw := h.waited j c g (hjoining j _ hj)
    exact hw.of_same (by rw [hjoined]; exact id) (Nat.le_of_eq hnext.symm) (by rw [hpcb]) (hal g)
      (hE g hw.closed) (hstage g hw.closed hw.notPast)
  · intro j c g o hj ho
    by_cases hju : j = u
    · rw [hju, hpc, upd_self] at hj ho
      exact hobj c g o hj ho
    · rw [hpc, upd_ne _ _ hju] at hj ho
      exact h.same j c g o hj ho
  · intro i j c d g hi hj; exact h.unique i j c d g (hjoining i _ hi) (hjoining j _ hj)
  · intro g hg hjg
    rw [hnext] at hg
    rw [hjoined] at hjg
    obtain ⟨h1, h2⟩ := h.unjoined g hg hjg
    exact ⟨hE g h1, hstage g h1 h2⟩
  · intro j g v hj
    by_cases hju : j = u
    · rw [hju, hpc, upd_self] at hj
      exact harg g v (hval g v hj)
    · rw [hpc, upd_ne _ _ hju] at hj
      exact harg g v (h.code j g v hj)

theorem firstInv_pass {s : PState} {u : Uid} {r : SemRef} {k : PC} (ho : ObjInv s)
    (h : FirstInv s) (hw : (s.pc u).waits = some (r, k)) (hv : (s.sem r).value ≠ 0) :
    FirstInv (s.passed u r k) := by
  obtain ⟨hj, hobj, hval, hst⟩ := PC.joining_waits hw
  refine h.of_pc rfl rfl rfl rfl (fun _ => rfl) ?_ (fun _ _ hx => hx) (fun x hx => hj ▸ hx)
    (fun c g o hc hc' => h.same u c g o (hj ▸ hc) (hobj o hc')) ?_ ?_
  · intro g hg
    rw [passed_sem_ne]
    · exact hg
    · intro he; rw [he] at hg; exact hv hg
  · intro g v hx
    rw [hval] at hx
    exact absurd hx (by simp)
  · intro h0 hp
    rcases hst with hst | ⟨o, hpc, hr⟩
    · rw [hst]; exact hp
    · -- the `exitsem` that was passed is the process's own, and it was open
      have hfits := ho u
      rw [hpc] at hfits
      replace hfits : o = u := hfits
      rw [hr, hfits] at hv
      exact absurd h0 hv

theorem firstInv_post {s : PState} {u : Uid} {r : SemRef} {k : PC} (h : FirstInv s)
    (hp : (s.pc u).posts = some (r, k)) : FirstInv (s.V u r k) := by
  obtain ⟨hj, hobj, hval, hst, hrel⟩ := PC.joining_posts hp
  by_cases hr : ∃ g, r = .exitsem g
  · obtain ⟨o, rfl⟩ := hr
    obtain ⟨c, g, v, hpc, hk⟩ := hrel o rfl
    have hog : o = g := h.same u c g o (by rw [hpc]; rfl) (by rw [hpc]; rfl)
    subst hog
    -- the process just released was joined by `u` alone, and `u` is done with it
    have hother : ∀ j d g', ((s.V u (.exitsem o) k).pc j).joining = some (d, g') →
        j ≠ u ∧ g' ≠ o ∧ (s.pc j).joining = some (d, g') := by
      intro j d g' hx
      have hju : j ≠ u := by
        intro he
        rw [he, V_pc, if_pos rfl, hk] at hx
        exact absurd hx (by simp)
      rw [V_pc, if_neg hju] at hx
      refine ⟨hju, fun he => ?_, hx⟩
      exact hju (h.unique j u d c o (he ▸ hx) (by rw [hpc]; rfl))
    have hstage : ∀ g', (s.pc g').stage ≠ .past → ((s.V u (.exitsem o) k).pc g').stage ≠ .past := by
      intro g' hg'
      rw [V_pc]
      split
      · exact hst
      · exact hg'
    refine ⟨?_, ?_, ?_, ?_, ?_⟩
    · intro j d g' hx
      obtain ⟨_, hne, hx'⟩ := hother j d g' hx
      have hw := h.waited j d g' hx'
      refine hw.of_same id (Nat.le_refl _) rfl rfl ?_ (hstage g' hw.notPast)
      rw [V_sem_ne _ _ _ _ _ (by simpa using hne)]
      exact hw.closed
    · intro j d g' o' hx hx'
      obtain ⟨hju, _, hx1⟩ := hother j d g' hx
      rw [V_pc, if_neg hju] at hx'
      exact h.same j d g' o' hx1 hx'
    · intro i j d d' g' hi hj'
      exact h.unique i j d d' g' (hother i d g' hi).2.2 (hother j d' g' hj').2.2
    · intro g' hlt hjg
      obtain ⟨h1, h2⟩ := h.unjoined g' hlt hjg
      have hne : g' ≠ o := by
        intro he
        have hjo := (h.waited u c o (by rw [hpc]; rfl)).joined
        rw [← he, show s.joined g' = false from hjg] at hjo
        exact Bool.noConfusion hjo
      exact ⟨by rw [V_sem_ne _ _ _ _ _ (by simpa using hne)]; exact h1, hstage g' h2⟩
    · intro j g' v' hx
      by_cases hju : j = u
      · rw [hju, V_pc, if_pos rfl] at hx
        exact h.code u g' v' (hval _ hx)
      · rw [V_pc, if_neg hju] at hx
        exact h.code j g' v' hx
  · refine h.of_pc rfl rfl rfl rfl (fun _ => rfl) ?_ (fun _ _ hx => hx) hj ?_ ?_ (fun _ _ => hst)
    · intro g hg
      rw [V_sem_ne _ _ _ _ _ (fun he => hr ⟨g, he.symm⟩)]
      exact hg
    · intro c g o _ hx
      rw [hobj] at hx
      exact absurd hx (by simp)
    · intro g v hx; exact h.code u g v (hval _ hx)

theorem exiting_of_offered {p : PC} (h : p.stage = .offered) : p.exiting = true := by
  cases p <;> first | rfl | exact absurd h (by simp [PC.stage])

theorem firstInv_move {s : PState} {u : Uid} {k : PC} (ht : TableInv s) (ho : ObjInv s)
    (hh : HandInv s) (hc : CodeInv s) (h : FirstInv s) (hm : Move s u k) :
    FirstInv (s.goto u k) := by
  refine h.of_pc rfl rfl rfl rfl (fun _ => rfl) (fun _ hg => hg) (fun _ _ hx => hx) ?_ ?_ ?_ ?_
  · cases hm <;> rename_i hpc <;> simp [*, PC.joining]
  · intro c g o hj hobj
    cases hm with
    | @joinGo c' g' o' hpc hslot =>
        have hw := h.waited u c' g' (by rw [hpc]; rfl)
        simp only [PC.joining, PC.joinObj, Option.some.injEq, Prod.mk.injEq] at hj hobj
        rw [hw.slot] at hslot
        rw [← hj.2, ← hobj]
        exact (Option.some.inj hslot).symm
    | @joinRead c' g' o' o'' hpc hslot =>
        have hw := h.waited u c' g' (by rw [hpc]; rfl)
        simp only [PC.joining, PC.joinObj, Option.some.injEq, Prod.mk.injEq] at hj hobj
        rw [hw.slot] at hslot
        rw [← hj.2, ← hobj]
        exact (Option.some.inj hslot).symm
    | _ => exact absurd hobj (by simp [PC.joinObj])
  · intro g v hx
    cases hm with
    | @joinRead c' g' o' o'' hpc hslot =>
        have hw := h.waited u c' g' (by rw [hpc]; rfl)
        obtain ⟨hst, _, hslot'⟩ := HandInv.read ht ho hh hpc
        simp only [PC.joinValue, Option.some.injEq, Prod.mk.injEq] at hx
        -- the process read from is the one in the slot all along
        rw [hslot'] at hslot
        rw [hw.slot] at hslot'
        rw [← hx.1, ← hx.2, ← Option.some.inj hslot, Option.some.inj hslot']
        exact hc.given o' (exiting_of_offered hst)
    | _ => exact absurd hx (by simp [PC.joinValue])
  · intro _ hp
    have hstage : k.stage = (s.pc u).stage := by
      cases hm <;> rename_i hpc <;> simp [*, PC.stage]
    rw [hstage]; exact hp

theorem firstInv_create {s : PState} {u : Uid} {n : Option String} {id : Nat} (ht : TableInv s)
    (h : FirstInv s) (hpc : s.pc u = .execBody n) (hclear : s.bm.test id = false) :
    FirstInv (s.create u id (s.bm.mark id)) := by
  have hun : s.next ≠ u := Nat.ne_of_gt (ht.lt_next (ht.active u (by rw [hpc]; rfl)))
  have hpcs : ∀ j, (s.create u id (s.bm.mark id)).pc j = .execLock id s.next ∧ j = u
      ∨ (s.create u id (s.bm.mark id)).pc j = s.pc j := by
    intro j
    rw [create_pc]
    by_cases hj : j = u
    · exact .inl ⟨if_pos hj, hj⟩
    · exact .inr (if_neg hj)
  have hjoining : ∀ j x, ((s.create u id (s.bm.mark id)).pc j).joining = some x →
      (s.create u id (s.bm.mark id)).pc j = s.pc j := by
    intro j x hj
    rcases hpcs j with ⟨hp, _⟩ | hp
    · rw [hp] at hj; exact absurd hj (by simp [PC.joining])
    · exact hp
  have hstage : ∀ g, (s.pc g).stage ≠ .past →
      ((s.create u id (s.bm.mark id)).pc g).stage ≠ .past := by
    intro g hg
    rcases hpcs g with ⟨hp, _⟩ | hp
    · rw [hp]; exact Stage.noConfusion
    · rw [hp]; exact hg
  have hsem : ∀ g, g ≠ s.next →
      (s.create u id (s.bm.mark id)).sem (.exitsem g) = s.sem (.exitsem g) := by
    intro g hg
    simp [create, upd_apply, hg]
  refine ⟨?_, ?_, ?_, ?_, ?_⟩
  · intro j c g hj
    rw [hjoining j _ hj] at hj
    have hw := h.waited j c g hj
    -- the slot taken was clear, that of `g` is not
    have hcid : c ≠ id := by
      intro he
      have := ht.test_pid hw.alive
      rw [(ht.placed c g hw.slot).1, he, hclear] at this
      exact Bool.noConfusion this
    have hgn := Nat.ne_of_lt hw.lt
    refine hw.of_same (fun hx => hx) (Nat.le_succ _) (upd_ne _ _ hcid) ?_ ?_ (hstage g hw.notPast)
    · rw [create_obj_ne _ _ _ _ _ hgn]
    · rw [hsem g hgn]; exact hw.closed
  · intro j c g o hj ho
    have hp := hjoining j _ hj
    rw [hp] at hj ho
    exact h.same j c g o hj ho
  · intro i j c d g hi hj
    rw [hjoining i _ hi] at hi
    rw [hjoining j _ hj] at hj
    exact h.unique i j c d g hi hj
  · intro g hlt hjg
    by_cases hgn : g = s.next
    · -- the new process has its `exitsem` closed and has not run
      subst hgn
      refine ⟨by simp [create, upd_apply, Semaphore.new], ?_⟩
      rw [create_pc, if_neg hun, (ht.fresh _ (Nat.le_refl _)).2]
      exact Stage.noConfusion
    · obtain ⟨h1, h2⟩ := h.unjoined g (Nat.lt_of_le_of_ne (Nat.le_of_lt_succ hlt) hgn) hjg
      exact ⟨by rw [hsem g hgn]; exact h1, hstage g h2⟩
  · intro j g v hj
    rcases hpcs j with ⟨hp, _⟩ | hp
    · rw [hp] at hj; exact absurd hj (by simp [PC.joinValue])
    · rw [hp] at hj; exact h.code j g v hj

theorem firstInv_fork {s : PState} {u : Uid} {id : Nat} {o : Uid} (ht : TableInv s)
    (h : FirstInv s) (hpc : s.pc u = .execFork id o) : FirstInv (s.fork u id o) := by
  have hbo := (ht.target u o (by rw [hpc]; rfl)).2
  -- neither of the two processes that move is joining or leaving
  have hsame : ∀ j, ((s.fork u id o).pc j).joining = (s.pc j).joining
      ∧ ((s.fork u id o).pc j).joinObj = (s.pc j).joinObj
      ∧ ((s.fork u id o).pc j).joinValue = (s.pc j).joinValue
      ∧ ((s.fork u id o).pc j).stage = (s.pc j).stage := by
    intro j
    rw [fork_pc]
    split
    · rename_i hj; rw [hj, hpc]; exact ⟨rfl, rfl, rfl, rfl⟩
    split
    · rename_i hj; rw [hj, hbo]; exact ⟨rfl, rfl, rfl, rfl⟩
    · exact ⟨rfl, rfl, rfl, rfl⟩
  refine ⟨?_, ?_, ?_, ?_, ?_⟩
  · intro j c g hj
    have hw := h.waited j c g ((hsame j).1 ▸ hj)
    exact hw.of_same (fun hx => hx) (Nat.le_refl _) rfl rfl hw.closed
      (by rw [(hsame g).2.2.2]; exact hw.notPast)
  · intro j c g o' hj ho
    exact h.same j c g o' ((hsame j).1 ▸ hj) ((hsame j).2.1 ▸ ho)
  · intro i j c d g hi hj
    exact h.unique i j c d g ((hsame i).1 ▸ hi) ((hsame j).1 ▸ hj)
  · intro g hlt hjg
    obtain ⟨h1, h2⟩ := h.unjoined g hlt hjg
    exact ⟨h1, by rw [(hsame g).2.2.2]; exact h2⟩
  · intro j g v hj; exact h.code j g v ((hsame j).2.2.1 ▸ hj)

theorem firstInv_join {s : PState} {u : Uid} {c : Nat} {g o : Uid}
    (ht : TableInv s) (h : FirstInv s) (hmax : c < maxProcess) (htest : s.bm.test c = true)
    (hslot : s.pcb c = some g) (hfirst : s.joined g = false) :
    FirstInv { s.goto u (.joinInc c g o) with joined := upd s.joined g true } := by
  have hlt : g < s.next := (ht.placed c g hslot).2
  have hal : (s.obj g).alive = true := by
    obtain ⟨g', hg', ha⟩ := (ht.slot c hmax).mp htest
    rw [hslot] at hg'
    rw [Option.some.inj hg']
    exact ha
  obtain ⟨hE, hst⟩ := h.unjoined g hlt hfirst
  -- nobody was joining `g`
  have hnone : ∀ j d, (s.pc j).joining ≠ some (d, g) := by
    intro j d hj
    rw [(h.waited j d g hj).joined] at hfirst
    exact Bool.noConfusion hfirst
  have hcases : ∀ j x, (upd s.pc u (.joinInc c g o) j).joining = some x →
      (j = u ∧ x = (c, g)) ∨ (j ≠ u ∧ (s.pc j).joining = some x) := by
    intro j x hj
    rw [upd_apply] at hj
    split at hj
    · rename_i hju; exact .inl ⟨hju, (Option.some.inj hj).symm⟩
    · rename_i hju; exact .inr ⟨hju, hj⟩
  have hstage : ∀ g', (s.pc g').stage ≠ .past →
      (upd s.pc u (.joinInc c g o) g').stage ≠ .past := by
    intro g' hg'
    rw [upd_apply]
    split
    · exact Stage.noConfusion
    · exact hg'
  have hjoined : ∀ g', s.joined g' = true → upd s.joined g true g' = true := by
    intro g' hg'
    rw [upd_apply]
    split
    · rfl
    · exact hg'
  refine ⟨?_, ?_, ?_, ?_, ?_⟩
  · intro j d g' hj
    rcases hcases j _ hj with ⟨_, hx⟩ | ⟨_, hj'⟩
    · obtain ⟨rfl, rfl⟩ := Prod.mk.inj hx
      exact ⟨upd_self _ _ _, hlt, hslot, hal, hE, hstage _ hst⟩
    · have hw := h.waited j d g' hj'
      exact hw.of_same (hjoined g') (Nat.le_refl _) rfl rfl hw.closed (hstage g' hw.notPast)
  · intro j d g' o' hj ho
    rcases hcases j _ hj with ⟨hju, _⟩ | ⟨hju, hj'⟩
    · replace ho : (upd s.pc u (.joinInc c g o) j).joinObj = some o' := ho
      rw [hju, upd_self] at ho
      exact absurd ho (by simp [PC.joinObj])
    · replace ho : (upd s.pc u (.joinInc c g o) j).joinObj = some o' := ho
      rw [upd_ne _ _ hju] at ho
      exact h.same j d g' o' hj' ho
  · -- whoever joins `g` now is `u`: before, nobody did
    intro i j d e g' hi hj
    rcases hcases i _ hi with ⟨hiu, hx⟩ | ⟨_, hi'⟩ <;>
      rcases hcases j _ hj with ⟨hju, hy⟩ | ⟨_, hj'⟩
    · rw [hiu, hju]
    · obtain ⟨rfl, rfl⟩ := Prod.mk.inj hx
      exact absurd hj' (hnone j e)
    · obtain ⟨rfl, rfl⟩ := Prod.mk.inj hy
      exact absurd hi' (hnone i d)
    · exact h.unique i j d e g' hi' hj'
  · intro g' hlt' hjg
    replace hjg : upd s.joined g true g' = false := hjg
    rw [upd_apply] at hjg
    split at hjg
    · exact Bool.noConfusion hjg
    · obtain ⟨h1, h2⟩ := h.unjoined g' hlt' hjg
      exact ⟨h1, hstage g' h2⟩
  · intro j g' v hj
    replace hj : (upd s.pc u (.joinInc c g o) j).joinValue = some (g', v) := hj
    rw [upd_apply] at hj
    split at hj
    · exact absurd hj (by simp [PC.joinValue])
    · exact h.code j g' v hj

theorem firstInv_delete {s : PState} {u : Uid} (h : FirstInv s) (hpc : s.pc u = .exitRemove) :
    FirstInv (s.delete u (s.obj u).pid) := by
  have hjoining : ∀ j x, ((s.delete u (s.obj u).pid).pc j).joining = some x →
      (s.delete u (s.obj u).pid).pc j = s.pc j := by
    intro j x hj
    rw [delete_pc] at hj ⊢
    split at hj
    · exact absurd hj (by simp [PC.joining])
    · rename_i hju; rw [if_neg hju]
  have hstage : ∀ g, (s.pc g).stage ≠ .past →
      g ≠ u ∧ ((s.delete u (s.obj u).pid).pc g).stage ≠ .past := by
    intro g hg
    have hgu : g ≠ u := fun he => hg (by rw [he, hpc]; rfl)
    rw [delete_pc, if_neg hgu]
    exact ⟨hgu, hg⟩
  refine ⟨?_, ?_, ?_, ?_, ?_⟩
  · intro j c g hj
    rw [hjoining j _ hj] at hj
    have hw := h.waited j c g hj
    obtain ⟨hgu, hst⟩ := hstage g hw.notPast
    exact hw.of_same (fun hx => hx) (Nat.le_refl _) rfl (by rw [delete_obj_ne _ _ _ _ hgu])
      hw.closed hst
  · intro j c g o hj ho
    have hp := hjoining j _ hj
    rw [hp] at hj ho
    exact h.same j c g o hj ho
  · intro i j c d g hi hj
    rw [hjoining i _ hi] at hi
    rw [hjoining j _ hj] at hj
    exact h.unique i j c d g hi hj
  · intro g hlt hjg
    obtain ⟨h1, h2⟩ := h.unjoined g hlt hjg
    exact ⟨h1, (hstage g h2).2⟩
  · intro j g v hj
    rw [delete_pc] at hj
    split at hj
    · exact absurd hj (by simp [PC.joinValue])
    · exact h.code j g v hj

/-- **A step that is no second `Join` keeps joins and processes together.** -/
theorem firstInv_step {s s' : PState} {u : Uid} {a : Act} (ht : TableInv s) (ho : ObjInv s)
    (hh : HandInv s) (hc : CodeInv s) (h : FirstInv s) (hg : FirstJoin s (u, a))
    (hs : s.step (u, a) = some s') : FirstInv s' := by
  cases step_effect hs with
  | pass hw _ hv => exact firstInv_pass ho h hw hv
  | @sleep r k hw _ _ =>
      have hE : ∀ g, ((s.slept u r).sem (.exitsem g)).value = (s.sem (.exitsem g)).value :=
        fun g => slept_sem_value ..
      refine ⟨fun j c g hj => ?_, h.same, h.unique, fun g hlt hjg => ?_, h.code⟩
      · have hw := h.waited j c g hj
        exact hw.of_same (fun hx => hx) (Nat.le_refl _) rfl rfl ((hE g).trans hw.closed) hw.notPast
      · obtain ⟨h1, h2⟩ := h.unjoined g hlt hjg
        exact ⟨(hE g).trans h1, h2⟩
  | post hp => exact firstInv_post h hp
  | stop =>
      refine ⟨fun j c g hj => ?_, h.same, h.unique, h.unjoined, h.code⟩
      have hw := h.waited j c g hj
      exact hw.of_same (fun hx => hx) (Nat.le_refl _) rfl rfl hw.closed hw.notPast
  | move hm => exact firstInv_move ht ho hh hc h hm
  | allocate hpc =>
      refine h.of_pc rfl rfl rfl rfl (fun _ => rfl) (fun _ hx => hx) (fun _ _ hx => hx) ?_ ?_ ?_ ?_
      · intro x hx; split at hx <;> exact absurd hx (by simp [PC.joining])
      · intro c g o hx; split at hx <;> exact absurd hx (by simp [PC.joining])
      · intro g v hx; split at hx <;> exact absurd hx (by simp [PC.joinValue])
      · intro _ _; split <;> exact Stage.noConfusion
  | create hpc _ hclear _ => exact firstInv_create ht h hpc hclear
  | fork hpc => exact firstInv_fork ht h hpc
  | @join ret c g o hpc hmax htest _ hslot _ _ =>
      -- the one place where it matters that this is the first `Join`
      have htar : s.joinTarget (u, a) = some g := by
        refine joinTarget_of_step (c := c) (o := o) hs hpc ?_
        show (s.goto u _).pc u = _
        rw [goto_pc, if_pos rfl]
      exact firstInv_join ht h hmax htest hslot (hg g htar)
  | @numWait n o k hk =>
      refine h.of_pc rfl rfl rfl rfl (fun v => ?_) (fun _ hx => hx) (fun _ _ hx => hx) ?_ ?_ ?_ ?_
      · exact upd_field PCB.alive (by rfl) v
      · intro x hx
        rcases hk with ⟨_, _, hpc, rfl⟩ | ⟨_, rfl⟩
        · rw [hpc]; exact hx
        · exact absurd hx (by simp [PC.joining])
      · intro c g o' _ hx
        rcases hk with ⟨_, _, _, rfl⟩ | ⟨_, rfl⟩ <;> exact absurd hx (by simp [PC.joinObj])
      · intro g v hx
        rcases hk with ⟨_, _, _, rfl⟩ | ⟨_, rfl⟩ <;> exact absurd hx (by simp [PC.joinValue])
      · intro _ _
        rcases hk with ⟨_, _, _, rfl⟩ | ⟨_, rfl⟩ <;> exact Stage.noConfusion
  | @exit ret e me o hpc _ _ _ =>
      refine h.of_pc (k := .exitDec o) rfl rfl rfl rfl (fun v => ?_) (fun _ hx => hx) ?_ ?_ ?_ ?_ ?_
      · exact upd_field PCB.alive (by rfl) v
      · -- a process whose code was read does not call `Exit` again
        intro g v hx
        have hgu : g ≠ u := by
          intro he
          rcases hc.stays g v hx with h1 | h1 <;> rw [he, hpc] at h1
          · exact Bool.noConfusion h1
          · exact PC.noConfusion h1
        exact (upd_ne _ _ hgu).trans hx
      · intro x hx; exact absurd hx (by simp [PC.joining])
      · intro c g o' hx; exact absurd hx (by simp [PC.joining])
      · intro g v hx; exact absurd hx (by simp [PC.joinValue])
      · intro _ _; exact Stage.noConfusion
  | delete hpc _ _ => exact firstInv_delete h hpc
  | keep hpc htest => exact (ht.not_keep hpc htest).elim

theorem firstInv_boot (hd : NoffHeader) : FirstInv (boot hd) := by
  have hnone : ∀ j, ((boot hd).pc j).joining = none ∧ ((boot hd).pc j).joinValue = none :=
    boot_pc (Q := fun p => p.joining = none ∧ p.joinValue = none) ⟨rfl, rfl⟩ ⟨rfl, rfl⟩ hd
  refine ⟨?_, ?_, ?_, ?_, ?_⟩
  · intro j c g hj; rw [(hnone j).1] at hj; exact absurd hj (by simp)
  · intro j c g o hj; rw [(hnone j).1] at hj; exact absurd hj (by simp)
  · intro i j c d g hi; rw [(hnone i).1] at hi; exact absurd hi (by simp)
  · intro g hlt _
    rw [Nat.lt_one_iff.mp hlt]
    exact ⟨rfl, Stage.noConfusion⟩
  · intro j g v hj; rw [(hnone j).2] at hj; exact absurd hj (by simp)

theorem firstInv_reachBy {G : PState → Uid × Act → Prop} (hG : ∀ s l, G s l → FirstJoin s l)
    {s : PState} (h : sys.ReachBy G s) : FirstInv s := by
  refine inv_reachBy h firstInv_boot ?_
  intro s s' u a hr hI hg hst
  have hr' := hr.reachable
  exact firstInv_step (tableInv_reachable hr') (objInv_reachable hr') (handInv_reachable hr')
    (codeInv_reachable hr') hI (hG _ _ hg) hst

/-! ## Agreement -/

/-- What a process in `JoinUpdate(c)` can rely on. -/
structure JoinAgreement (s : PState) : Prop where
  /-- Until it has released the child, the process that had slot `c` when `Join` was called has it
  still: its bit is set and its PCB is live. -/
  held : ∀ j c g, (s.pc j).joining = some (c, g) →
    s.bm.test c = true ∧ s.pcb c = some g ∧ (s.obj g).alive = true
  /-- The value it has read, which it will return, is what that process gave to `ExitUpdate`. -/
  code : ∀ j g v, (s.pc j).joinValue = some (g, v) → s.exitArg g = some v

/-- How a call of `JoinUpdate` by `j` goes on when anybody takes a step. -/
structure JoinPath (s s' : PState) (j : Uid) : Prop where
  /-- It begins with the process that has the slot. -/
  call : ∀ ret c g, s.pc j = .user ret → (s'.pc j).joining = some (c, g) → s.pcb c = some g
  /-- It is about that process until the exit code has been read and the child released. -/
  wait : ∀ c g, (s.pc j).joining = some (c, g) →
    (s'.pc j).joining = some (c, g) ∨ ∃ v, (s.pc j).joinValue = some (g, v) ∧
    s'.pc j = .joinRet c g v
  /-- It returns the code that was read. -/
  ret : ∀ c g v, s.pc j = .joinRet c g v → s'.pc j = .joinRet c g v ∨ s'.pc j = .user (some v)

theorem joinPath_self {s s' : PState} {u : Uid} (he : Effect s u s') : JoinPath s s' u := by
  refine ⟨?_, ?_, ?_⟩
  · -- from user mode only `JoinUpdate` itself gets there
    intro ret c g hpc hj
    cases he with
    | pass hw => rw [hpc] at hw; exact absurd hw (by simp [PC.waits])
    | sleep hw => rw [hpc] at hw; exact absurd hw (by simp [PC.waits])
    | post hp => rw [hpc] at hp; exact absurd hp (by simp [PC.posts])
    | stop => rw [stop, hpc] at hj; exact absurd hj (by simp [PC.joining])
    | move hm =>
        rw [goto_pc, if_pos rfl] at hj
        cases hm <;> rename_i hpc' <;> simp_all [PC.joining]
    | join _ _ _ _ hslot _ _ =>
        replace hj : ((s.goto u _).pc u).joining = some (c, g) := hj
        rw [goto_pc, if_pos rfl] at hj
        obtain ⟨rfl, rfl⟩ := Prod.mk.inj (Option.some.inj hj)
        exact hslot
    | @exit _ e me o =>
        replace hj : (upd s.pc u (.exitDec o) u).joining = some (c, g) := hj
        rw [upd_self] at hj
        exact absurd hj (by simp [PC.joining])
    | numWait hk =>
        rcases hk with ⟨_, _, hp, _⟩ | ⟨hp, _⟩ <;> rw [hpc] at hp <;> exact PC.noConfusion hp
    | allocate hp => rw [hpc] at hp; exact PC.noConfusion hp
    | create hp => rw [hpc] at hp; exact PC.noConfusion hp
    | fork hp => rw [hpc] at hp; exact PC.noConfusion hp
    | delete hp => rw [hpc] at hp; exact PC.noConfusion hp
    | keep hp => rw [hpc] at hp; exact PC.noConfusion hp
  · intro c g hj
    cases he with
    | pass hw => rw [passed_pc, if_pos rfl, (PC.joining_waits hw).1]; exact .inl hj
    | sleep => exact .inl hj
    | @post r k hp =>
        rw [V_pc, if_pos rfl]
        cases hpc : s.pc u <;> rw [hpc] at hp hj <;>
          simp only [PC.posts, PC.joining, Option.some.injEq, Prod.mk.injEq, reduceCtorEq] at hp hj
        · obtain ⟨rfl, rfl⟩ := hj
          obtain ⟨_, rfl⟩ := hp
          exact .inl rfl
        · -- `ExitRelease`: the code has been read
          obtain ⟨rfl, rfl⟩ := hj
          obtain ⟨_, rfl⟩ := hp
          exact .inr ⟨_, rfl, rfl⟩
    | stop => exact .inl hj
    | move hm =>
        rw [goto_pc, if_pos rfl]
        cases hm <;> rename_i hpc' <;> simp_all [PC.joining]
    | numWait hk =>
        refine .inl ?_
        show (upd s.pc u _ u).joining = _
        rw [upd_self]
        rcases hk with ⟨_, _, hp, rfl⟩ | ⟨hp, rfl⟩ <;> rw [hp] at hj <;> exact hj
    | join hp => rw [hp] at hj; exact absurd hj (by simp [PC.joining])
    | exit hp => rw [hp] at hj; exact absurd hj (by simp [PC.joining])
    | allocate hp => rw [hp] at hj; exact absurd hj (by simp [PC.joining])
    | create hp => rw [hp] at hj; exact absurd hj (by simp [PC.joining])
    | fork hp => rw [hp] at hj; exact absurd hj (by simp [PC.joining])
    | delete hp => rw [hp] at hj; exact absurd hj (by simp [PC.joining])
    | keep hp => rw [hp] at hj; exact absurd hj (by simp [PC.joining])
  · intro c g v hpc
    cases he with
    | pass hw => rw [hpc] at hw; exact absurd hw (by simp [PC.waits])
    | sleep hw => rw [hpc] at hw; exact absurd hw (by simp [PC.waits])
    | post hp => rw [hpc] at hp; exact absurd hp (by simp [PC.posts])
    | stop => exact .inl hpc
    | move hm =>
        rw [goto_pc, if_pos rfl]
        cases hm <;> rename_i hpc' <;> simp_all
    | numWait hk =>
        rcases hk with ⟨_, _, hp, _⟩ | ⟨hp, _⟩ <;> rw [hpc] at hp <;> exact PC.noConfusion hp
    | join hp => rw [hpc] at hp; exact PC.noConfusion hp
    | exit hp => rw [hpc] at hp; exact PC.noConfusion hp
    | allocate hp => rw [hpc] at hp; exact PC.noConfusion hp
    | create hp => rw [hpc] at hp; exact PC.noConfusion hp
    | fork hp => rw [hpc] at hp; exact PC.noConfusion hp
    | delete hp => rw [hpc] at hp; exact PC.noConfusion hp
    | keep hp => rw [hpc] at hp; exact PC.noConfusion hp

/-- A step of somebody else leaves a process where it is, unless it forks it. -/
theorem effect_pc_other {s s' : PState} {u v : Uid} (ht : TableInv s) (he : Effect s u s')
    (hv : v ≠ u) : s'.pc v = s.pc v ∨ (s.pc v = .unborn ∧ s'.pc v = .start) := by
  cases he with
  | pass => exact .inl (upd_ne _ _ hv)
  | sleep => exact .inl rfl
  | post => exact .inl (upd_ne _ _ hv)
  | stop => exact .inl rfl
  | move => exact .inl (upd_ne _ _ hv)
  | allocate => exact .inl (upd_ne _ _ hv)
  | create => exact .inl (upd_ne _ _ hv)
  | @fork id o hpc =>
      rw [fork_pc, if_neg hv]
      split
      · rename_i hvo
        rw [hvo]
        exact .inr ⟨(ht.target u o (by rw [hpc]; rfl)).2, rfl⟩
      · exact .inl rfl
  | join => exact .inl (upd_ne _ _ hv)
  | numWait => exact .inl (upd_ne _ _ hv)
  | exit => exact .inl (upd_ne _ _ hv)
  | delete => exact .inl (upd_ne _ _ hv)
  | keep => exact .inl (upd_ne _ _ hv)

theorem joinPath_step {s s' : PState} {u j : Uid} (ht : TableInv s) (he : Effect s u s') :
    JoinPath s s' j := by
  by_cases hju : j = u
  · rw [hju]; exact joinPath_self he
  · rcases effect_pc_other ht he hju with hp | ⟨hp, hp'⟩
    · refine ⟨?_, ?_, ?_⟩
      · intro ret c g hpc hj; rw [hp, hpc] at hj; exact absurd hj (by simp [PC.joining])
      · intro c g hj; rw [hp]; exact .inl hj
      · intro c g v hpc; rw [hp]; exact .inl hpc
    · refine ⟨?_, ?_, ?_⟩
      · intro ret c g hpc; rw [hp] at hpc; exact PC.noConfusion hpc
      · intro c g hj; rw [hp] at hj; exact absurd hj (by simp [PC.joining])
      · intro c g v hpc; rw [hp] at hpc; exact PC.noConfusion hpc

/--
**`Join` and `Exit` agree.**

In every run in which each `Join` that passes its checks is the first one on its child, with any
number of processes and in any order of their steps: from the call until the exit code has been
read and the child released, the process that had the slot when `Join` was called keeps it; and
the value that is read and returned is the one it gave to `ExitUpdate`, which it has called before.
-/
theorem join_agreement (s : PState) (h : sys.ReachBy FirstJoin s) :
    JoinAgreement s ∧ ∀ u a s', s.step (u, a) = some s' → ∀ j, JoinPath s s' j := by
  have hT := tableInv_reachable h.reachable
  have hF := firstInv_reachBy (fun _ _ hg => hg) h
  refine ⟨⟨?_, hF.code⟩, ?_⟩
  · intro j c g hj
    have hw := hF.waited j c g hj
    refine ⟨?_, hw.slot, hw.alive⟩
    have := hT.test_pid hw.alive
    rwa [(hT.placed c g hw.slot).1] at this
  · intro u a s' hs j; exact joinPath_step hT (step_effect hs)

/-- Process `u` takes `n` steps in the kernel. -/
def goRun (u : Uid) (n : Nat) : List (Uid × Act) := List.replicate n (u, .go)

/-- The initial process executes a child and joins it; the child exits with `7`. Both end up
waiting for the other, and the initial process has been given the unit. -/
def meetRun : List (Uid × Act) :=
  execRun 0 "child" ++ [(0, .join 1)] ++ goRun 0 5 ++ startRun 1 ++ [(1, .exit 7)] ++ goRun 1 7

theorem join_agreement_meet : ∃ s, sys.ReachBy FirstJoin s ∧ s.pc 0 = .joinRet 1 1 7
    ∧ s.exitArg 1 = some 7 := by
  obtain ⟨s, hr, hf⟩ := reachBy_of_run (G := FirstJoin) (f := fun s => s.pc 0)
    (x := .joinRet 1 1 7) (meetRun ++ goRun 0 3) (by decide +kernel)
  exact ⟨s, hr, hf, (join_agreement s hr).1.code 0 1 7 (by rw [hf]; rfl)⟩

end PState

end Nachos
