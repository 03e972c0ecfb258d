import Nachos.Userprog.AddrLock
import Nachos.Proof.Loader

/-!
# Constructors that run out of frames

A constructor that finds too few frames clear does not touch the bitmap, as it should. But it calls
`V` twice, and from then on the lock lets two threads in, until the constructor comes to delete
`executable` for the second time and the kernel aborts.

As long as every constructor finds the frames it needs, `addrLock` is a lock.
-/

namespace Nachos

open Base (upd upd_self upd_ne upd_apply Exclusive System)

/-- Between `P` and the `V` that belongs to it. -/
def SpacePC.inside : SpacePC → Bool
  | .test _ => true
  | .fill _ _ deleted => !deleted
  | .release _ _ deleted => !deleted
  | _ => false

/-- Past the branch for too few frames. -/
def SpacePC.short : SpacePC → Bool
  | .fill _ _ deleted => deleted
  | .release _ _ deleted => deleted
  | .load _ _ deleted => deleted
  | _ => false

/-- The header whose pages are compared with `numclear` next. -/
def SpacePC.tests : SpacePC → Option NoffHeader
  | .test h => some h
  | _ => none

theorem SpacePC.tests_eq_some {k : SpacePC} {h : NoffHeader} : k.tests = some h ↔ k = .test h := by
  cases k <;> simp [tests]

namespace SpaceState

/-- The constructor of thread `t` is not getting the frames it needs. -/
def RunsShort (s : SpaceState) (t : Nat) : Prop :=
  (s.pc t).short = true ∨ ∃ h, s.pc t = .test h ∧ s.gPhysPageBitmap.numClear < h.numPages

/-- No constructor finds too few frames. -/
def Enough (s : SpaceState) (e : SpaceEvent) : Prop :=
  ∀ t h, e = .go t → s.pc t = .test h → h.numPages ≤ s.gPhysPageBitmap.numClear

theorem enough_go_iff {s : SpaceState} {t : Nat} :
    Enough s (.go t) ↔ ∀ h ∈ (s.pc t).tests, h.numPages ≤ s.gPhysPageBitmap.numClear := by
  constructor
  · intro hg h hmem
    exact hg t h rfl (SpacePC.tests_eq_some.mp hmem)
  · intro hall u h he hpc
    cases he
    exact hall h (SpacePC.tests_eq_some.mpr hpc)

instance : (s : SpaceState) → (e : SpaceEvent) → Decidable (Enough s e)
  | _, .go _ => decidable_of_iff _ enough_go_iff.symm
  | _, .construct _ _ => .isTrue fun _ _ he => absurd he (by simp)
  | _, .clear _ => .isTrue fun _ _ he => absurd he (by simp)

/-- **What the lock is for**: at most one unit, at most one thread inside, and as many `V` as `P` by
each thread that is not. -/
structure Guarded (s : SpaceState) : Prop where
  value : s.addrLock.value ≤ 1
  exclusive : ∀ t u, (s.pc t).inside = true → (s.pc u).inside = true → t = u
  balanced : ∀ t, s.given t + (if (s.pc t).inside then 1 else 0) = s.taken t

/-- What carries it. -/
structure LockInv (s : SpaceState) : Prop where
  lock : Exclusive s.addrLock.value (fun t => (s.pc t).inside = true)
  enough : ∀ t, (s.pc t).short = false
  balanced : ∀ t, s.given t + (if (s.pc t).inside then 1 else 0) = s.taken t

theorem LockInv.guarded {s : SpaceState} (h : LockInv s) : Guarded s where
  value := by
    rcases h.lock with ⟨hv, _⟩ | ⟨hv, _⟩ <;> omega
  exclusive := fun _ _ ht hu => h.lock.unique ht hu
  balanced := h.balanced

theorem lockInv_start : LockInv start where
  lock := .inl ⟨rfl, fun _ => by simp [start, SpacePC.inside]⟩
  enough := fun _ => rfl
  balanced := fun _ => rfl

/-! ## The steps -/

/-- A step is one of the simulation as long as it goes on. -/
theorem step_going {s s' : SpaceState} {e : SpaceEvent} (hs : s.step e = some s') :
    s.aborted = false := by
  unfold SpaceState.step at hs
  split at hs
  · exact absurd hs (by simp)
  · rename_i h
    simpa using h

theorem step_go {s : SpaceState} (hgo : s.aborted = false) (t : Nat) :
    s.step (.go t) = s.advance t := by
  unfold SpaceState.step
  rw [if_neg (by simp [hgo])]

section Steps

variable {s s' : SpaceState} {t : Nat}

/-- Nobody has gone short of frames when a thread moves that has not. -/
theorem LockInv.enough_upd (h : LockInv s) (t : Nat) {k : SpacePC}
    (hk : k.short = false) (u : Nat) : (upd s.pc t k u).short = false :=
  Base.forall_upd (P := fun _ (q : SpacePC) => q.short = false) hk (fun v _ => h.enough v) u

/-- A move that passes neither `P` nor `V`. -/
theorem LockInv.move (h : LockInv s) {k : SpacePC} (hin : k.inside = (s.pc t).inside)
    (hk : k.short = false) (b : Bitmap) :
    LockInv { s with gPhysPageBitmap := b, pc := upd s.pc t k } where
  lock := h.lock.upd_same hin
  enough := h.enough_upd t hk
  balanced := fun u => by
    show s.given u + (if (upd s.pc t k u).inside then 1 else 0) = s.taken u
    rw [Base.upd_field SpacePC.inside hin, h.balanced u]

/-- A pass of `P`. -/
theorem LockInv.P (h : LockInv s) {hd : NoffHeader} (hpc : s.pc t = .wait hd)
    (hs : s.P t hd = some s') : LockInv s' := by
  unfold SpaceState.P at hs
  split at hs
  · exact absurd hs (by simp)
  by_cases hv : s.addrLock.value = 0
  · rw [Semaphore.P_zero t hv] at hs
    have hs' := Option.some.inj hs
    subst hs'
    exact ⟨h.lock, h.enough, h.balanced⟩
  · rw [Semaphore.P_pos t hv] at hs
    have hs' := Option.some.inj hs
    subst hs'
    have hbal := h.balanced t
    rw [hpc] at hbal
    refine ⟨?_, h.enough_upd t rfl, fun u => ?_⟩
    · show Exclusive (toInt32 (s.addrLock.value - 1)) _
      -- the value is 0 or 1, so nothing wraps
      have hv1 : toInt32 (s.addrLock.value - 1) = s.addrLock.value - 1 := by
        rcases h.lock with ⟨hv, _⟩ | ⟨hv, _⟩ <;> exact toInt32_small (by omega) (by omega)
      rw [hv1]
      exact h.lock.upd_enter hv rfl
    · show s.given u + (if (upd s.pc t (.test hd) u).inside then 1 else 0) =
        upd s.taken t (s.taken t + 1) u
      by_cases hu : u = t
      · rw [hu, upd_self, upd_self, ← hbal]
        rfl
      · rw [upd_ne _ _ hu, upd_ne _ _ hu, h.balanced u]

/-- The `V` of the thread that has the lock. -/
theorem LockInv.V (h : LockInv s) (hin : (s.pc t).inside = true) (hd : NoffHeader) (n : Nat) :
    LockInv (s.V t (.load hd n false)) := by
  obtain ⟨h0, hleft⟩ := h.lock.upd_leave hin (k := .load hd n false) rfl
  have hbal := h.balanced t
  rw [hin] at hbal
  refine ⟨?_, h.enough_upd t rfl, fun u => ?_⟩
  · show Exclusive (toInt32 (s.addrLock.value + 1)) _
    rw [toInt32_small (by omega) (by omega)]
    exact hleft
  · show upd s.given t (s.given t + 1) u +
      (if (upd s.pc t (.load hd n false) u).inside then 1 else 0) = s.taken u
    by_cases hu : u = t
    · rw [hu, upd_self, upd_self, ← hbal]
      rfl
    · rw [upd_ne _ _ hu, upd_ne _ _ hu, h.balanced u]

/-- The end of a constructor that has come to it with the lock given back once. -/
theorem LockInv.finish (h : LockInv s) {hd : NoffHeader} {n : Nat} {deleted : Bool}
    (hpc : s.pc t = .load hd n deleted) : LockInv (s.finish t hd n deleted) := by
  unfold SpaceState.finish
  split
  · exact h.move (k := .out) (by rw [hpc]; rfl) rfl _
  · exact ⟨h.lock, h.enough, h.balanced⟩

theorem LockInv.advance (h : LockInv s) (hg : Enough s (.go t)) (hs : s.advance t = some s') :
    LockInv s' := by
  unfold SpaceState.advance at hs
  split at hs
  case h_1 => exact absurd hs (by simp)
  case h_2 hd hpc => exact h.P hpc hs
  case h_3 hd hpc =>
    -- `Enough` keeps out of the branch that calls `V` early
    rw [if_neg (by have := hg t hd rfl hpc; omega)] at hs
    have hs' := Option.some.inj hs
    subst hs'
    exact h.move (by rw [hpc]; rfl) rfl _
  case h_4 hd n deleted hpc =>
    have hs' := Option.some.inj hs
    subst hs'
    have hshort := h.enough t
    rw [hpc] at hshort
    exact h.move (k := .release hd n deleted) (by rw [hpc]; rfl) hshort _
  case h_5 hd n deleted hpc =>
    have hs' := Option.some.inj hs
    subst hs'
    have hshort : deleted = false := by simpa [hpc, SpacePC.short] using h.enough t
    subst hshort
    -- this `V` is the first of its constructor, so the thread is still inside
    exact h.V (by rw [hpc]; rfl) hd n
  case h_6 hd n deleted hpc =>
    have hs' := Option.some.inj hs
    subst hs'
    exact h.finish hpc

theorem LockInv.step (h : LockInv s) {e : SpaceEvent} (hg : Enough s e) (hs : s.step e = some s') :
    LockInv s' := by
  have hgo := step_going hs
  cases e with
  | construct t hd =>
      unfold SpaceState.step at hs
      rw [if_neg (by simp [hgo])] at hs
      dsimp only at hs
      split at hs
      · rename_i hpc
        have hs' := Option.some.inj hs
        subst hs'
        exact h.move (by rw [hpc]; rfl) rfl _
      · exact absurd hs (by simp)
  | go t =>
      rw [step_go hgo] at hs
      exact h.advance hg hs
  | clear which =>
      unfold SpaceState.step at hs
      rw [if_neg (by simp [hgo])] at hs
      have hs' := Option.some.inj hs
      subst hs'
      exact ⟨h.lock, h.enough, h.balanced⟩

end Steps

theorem lockInv_reachBy {s : SpaceState} (h : sys.ReachBy Enough s) : LockInv s := by
  refine System.ReachBy.invariant (I := LockInv) ?_ ?_ h
  · rintro s rfl
    exact lockInv_start
  · intro s e s' _ hi hg hs
    exact hi.step hg hs

/-! ## Too few frames -/

/-- A constructor that has found too few frames has no pages to fill. -/
def NoPages (s : SpaceState) : Prop := ∀ t hd n, s.pc t = .fill hd n true → n = 0

theorem NoPages.upd {s : SpaceState} (h : NoPages s) {t : Nat} {k : SpacePC}
    (hk : ∀ hd n, k = .fill hd n true → n = 0) :
    ∀ u hd n, upd s.pc t k u = .fill hd n true → n = 0 := by
  intro u hd n he
  rw [upd_apply] at he
  split at he
  · exact hk hd n he
  · exact h u hd n he

theorem NoPages.advance {s s' : SpaceState} (h : NoPages s) {t : Nat} (hs : s.advance t = some s') :
    NoPages s' := by
  unfold SpaceState.advance at hs
  split at hs
  case h_1 => exact absurd hs (by simp)
  case h_2 hd hpc =>
    unfold SpaceState.P at hs
    split at hs
    · exact absurd hs (by simp)
    dsimp only at hs
    split at hs
    · have hs' := Option.some.inj hs
      subst hs'
      exact h.upd (by simp)
    · have hs' := Option.some.inj hs
      subst hs'
      exact h
  case h_3 hd hpc =>
    split at hs
    · have hs' := Option.some.inj hs
      subst hs'
      -- the branch for too few frames sets `numPages` to zero
      exact h.upd fun hd n hn => by
        injection hn with _ hn
        exact hn.symm
    · have hs' := Option.some.inj hs
      subst hs'
      exact h.upd (by simp)
  case h_6 hd n deleted hpc =>
    have hs' := Option.some.inj hs
    subst hs'
    unfold finish
    split
    · exact h.upd (by simp)
    · exact h
  all_goals
    have hs' := Option.some.inj hs
    subst hs'
    exact h.upd (by simp)

theorem NoPages.step {s s' : SpaceState} (h : NoPages s) {e : SpaceEvent}
    (hs : s.step e = some s') : NoPages s' := by
  have hgo := step_going hs
  cases e with
  | construct t hd =>
      unfold SpaceState.step at hs
      rw [if_neg (by simp [hgo])] at hs
      dsimp only at hs
      split at hs
      · have hs' := Option.some.inj hs
        subst hs'
        exact h.upd (by simp)
      · exact absurd hs (by simp)
  | go t =>
      rw [step_go hgo] at hs
      exact h.advance hs
  | clear which =>
      unfold SpaceState.step at hs
      rw [if_neg (by simp [hgo])] at hs
      have hs' := Option.some.inj hs
      subst hs'
      exact h

theorem noPages_reachable {s : SpaceState} (h : sys.Reachable s) : NoPages s := by
  refine System.ReachBy.invariant (I := NoPages) ?_ ?_ h
  · rintro s rfl t hd n hpc
    exact absurd hpc (by simp [start])
  · intro s e s' _ hi _ hs
    exact hi.step hs

/-- **A constructor that runs short leaves the bitmap alone**, at each of its steps. -/
theorem bitmap_of_short {s s' : SpaceState} {t : Nat} (h : sys.Reachable s) (hshort : s.RunsShort t)
    (hs : s.step (.go t) = some s') : s'.gPhysPageBitmap = s.gPhysPageBitmap := by
  have hs' : s.advance t = some s' := (step_go (step_going hs) t).symm.trans hs
  unfold SpaceState.advance at hs'
  rcases hshort with hshort | ⟨hd, hpc, hclear⟩
  · cases hpc : s.pc t with
    | fill hd n deleted =>
        rw [hpc] at hshort hs'
        rw [show deleted = true from hshort] at hpc
        -- the loop that fills the page table runs over no pages
        have hn := noPages_reachable h t hd n hpc
        have he := Option.some.inj hs'
        subst he
        rw [hn]
        rfl
    | release hd n deleted =>
        rw [hpc] at hs'
        have he := Option.some.inj hs'
        subst he
        rfl
    | load hd n deleted =>
        rw [hpc] at hs'
        have he := Option.some.inj hs'
        subst he
        unfold finish
        split <;> rfl
    | _ =>
        rw [hpc] at hshort
        exact absurd hshort (by simp [SpacePC.short])
  · rw [hpc] at hs'
    dsimp only at hs'
    rw [if_pos hclear] at hs'
    have he := Option.some.inj hs'
    subst he
    rfl

/-! ## One constructor at a time -/

/-- Thread `t` runs the constructor from beginning to end. -/
def alone (t : Nat) (h : NoffHeader) : List SpaceEvent :=
  [.construct t h, .go t, .go t, .go t, .go t, .go t]

/-- The constructor from the loop over the pages on, by a thread that has not got the frames if
`deleted` says so. -/
theorem run_fill {s : SpaceState} {t n : Nat} {hd : NoffHeader} {deleted : Bool} {v : Int}
    (hgo : s.aborted = false) (hpc : s.pc t = .fill hd n deleted) (hlock : s.addrLock = ⟨v, []⟩) :
    ∃ s', sys.run s [.go t, .go t, .go t] = some s' ∧
      s'.gPhysPageBitmap = (allocPages 0 n s.gPhysPageBitmap).2 ∧
      s'.addrLock = ⟨toInt32 (v + 1), []⟩ ∧
      (s'.aborted = false ↔ hd.seeks n = true ∧ deleted = false) := by
  let s₁ : SpaceState := { s with
    gPhysPageBitmap := (allocPages 0 n s.gPhysPageBitmap).2
    pc := upd s.pc t (.release hd n deleted) }
  have h₁ : sys.step s (.go t) = some s₁ := by
    refine (step_go hgo t).trans ?_
    unfold advance
    rw [hpc]
  let s₂ : SpaceState := s₁.V t (.load hd n deleted)
  have h₂ : sys.step s₁ (.go t) = some s₂ := by
    refine (step_go (s := s₁) hgo t).trans ?_
    unfold advance
    rw [show s₁.pc t = .release hd n deleted from upd_self _ _ _]
  have h₃ : sys.step s₂ (.go t) = some (s₂.finish t hd n deleted) := by
    refine (step_go (s := s₂) hgo t).trans ?_
    unfold advance
    rw [show s₂.pc t = .load hd n deleted from upd_self _ _ _]
  have hlock' : s₂.addrLock = ⟨toInt32 (v + 1), []⟩ := by
    show s.addrLock.V.1 = _
    rw [hlock]
    rfl
  refine ⟨s₂.finish t hd n deleted, ?_, ?_⟩
  · rw [System.run_cons h₁, System.run_cons h₂, System.run_cons h₃]
    rfl
  · unfold finish
    split
    · rename_i hend
      exact ⟨rfl, hlock', fun _ => hend, fun _ => hgo⟩
    · rename_i hend
      exact ⟨rfl, hlock', fun h => absurd h (by simp), fun h => absurd h hend⟩

/-- **What a constructor does that is alone.** The bitmap is as `AddrSpace.load` says, and the
kernel goes on when `AddrSpace.load` returns, and only then. There was one call of `V`, or two when
too few frames were clear. -/
theorem run_alone {s : SpaceState} {t : Nat} (hd : NoffHeader) (hgo : s.aborted = false)
    (hpc : s.pc t = .out) (hlock : s.addrLock = ⟨1, []⟩) (file : HostFile) (mem : Memory) :
    ∃ s', sys.run s (alone t hd) = some s' ∧
      s'.gPhysPageBitmap = (hd.alloc s.gPhysPageBitmap).2 ∧
      s'.addrLock = ⟨if s.gPhysPageBitmap.numClear < hd.numPages then 2 else 1, []⟩ ∧
      (s'.aborted = false ↔ (AddrSpace.load hd file s.gPhysPageBitmap mem).isSome) := by
  let s₁ : SpaceState := { s with pc := upd s.pc t (.wait hd) }
  have h₁ : sys.step s (.construct t hd) = some s₁ := by
    show s.step (.construct t hd) = some s₁
    unfold SpaceState.step
    rw [if_neg (by simp [hgo])]
    exact if_pos hpc
  let s₂ : SpaceState := { s₁ with
    addrLock := ⟨0, []⟩, pc := upd s₁.pc t (.test hd), taken := upd s₁.taken t (s₁.taken t + 1) }
  have h₂ : sys.step s₁ (.go t) = some s₂ := by
    have hl : s₁.addrLock = ⟨1, []⟩ := hlock
    refine (step_go (s := s₁) hgo t).trans ?_
    unfold advance
    rw [show s₁.pc t = .wait hd from upd_self _ _ _]
    dsimp only
    unfold SpaceState.P
    rw [hl]
    rfl
  have hpc₂ : s₂.pc t = .test hd := upd_self _ _ _
  have h₃ : sys.step s₂ (.go t) = if s.gPhysPageBitmap.numClear < hd.numPages
      then some (s₂.V t (.fill hd 0 true))
      else some { s₂ with pc := upd s₂.pc t (.fill hd hd.numPages false) } := by
    refine (step_go (s := s₂) hgo t).trans ?_
    unfold advance
    rw [hpc₂]
  have hrun : sys.run s (alone t hd) = sys.run s₂ [.go t, .go t, .go t, .go t] := by
    unfold alone
    rw [System.run_cons h₁, System.run_cons h₂]
  rw [load_isSome_iff, ← seeks_iff]
  by_cases hshort : s.gPhysPageBitmap.numClear < hd.numPages
  · -- the lock has been released once already
    rw [if_pos hshort] at h₃
    obtain ⟨s', hs', hbits, hl, hend⟩ := run_fill (s := s₂.V t (.fill hd 0 true)) (v := 1) hgo
      (upd_self _ _ _) rfl
    refine ⟨s', by rw [hrun, System.run_cons h₃, hs'], ?_, ?_, ?_⟩
    · rw [hbits, NoffHeader.alloc, NoffHeader.pagesGranted, if_pos hshort]
      rfl
    · rw [hl, if_pos hshort]
      rfl
    · rw [hend]
      simp [hshort]
  · rw [if_neg hshort] at h₃
    obtain ⟨s', hs', hbits, hl, hend⟩ := run_fill
      (s := { s₂ with pc := upd s₂.pc t (.fill hd hd.numPages false) }) (v := 0) hgo
      (upd_self _ _ _) rfl
    refine ⟨s', by rw [hrun, System.run_cons h₃, hs'], ?_, ?_, ?_⟩
    · rw [hbits, NoffHeader.alloc, NoffHeader.pagesGranted, if_neg hshort]
    · rw [hl, if_neg hshort]
      rfl
    · rw [hend, NoffHeader.pagesGranted, if_neg hshort]
      simp [Nat.not_lt.mp hshort]

/-- A constructor that is alone leaves the lock as it found it when it finds the frames it needs,
and only then. Otherwise it leaves the bitmap alone, and does not return. -/
theorem alone_clean_iff {s : SpaceState} {t : Nat} (hd : NoffHeader) (hgo : s.aborted = false)
    (hpc : s.pc t = .out) (hlock : s.addrLock = ⟨1, []⟩) :
    ∃ s', sys.run s (alone t hd) = some s' ∧
      (s.gPhysPageBitmap.numClear < hd.numPages →
        s'.gPhysPageBitmap = s.gPhysPageBitmap ∧ s'.aborted = true) ∧
      (s'.addrLock.value = s.addrLock.value ↔ hd.numPages ≤ s.gPhysPageBitmap.numClear) := by
  obtain ⟨s', hrun, hbits, hl, hret⟩ := run_alone hd hgo hpc hlock [] (fun _ => 0)
  refine ⟨s', hrun, fun hshort => ⟨?_, ?_⟩, ?_⟩
  · rw [hbits, NoffHeader.alloc, NoffHeader.pagesGranted, if_pos hshort]
    rfl
  · rw [← Bool.not_eq_false, hret, load_isSome_iff]
    exact fun h => Nat.not_lt.mpr h.2 hshort
  · rw [hl, hlock]
    dsimp only
    split <;> simp <;> omega

/-! ## All of them together -/

/-- **Constructors and their lock.** In no run does a constructor that runs short touch the bitmap.
One that is alone leaves the lock as it found it exactly when it does not run short, and when it
does it ends in an abort; and in a run in which none does, however many threads there are, the lock
is one. -/
theorem addrLock_exclusive (s : SpaceState) :
    (sys.Reachable s → ∀ t s', s.RunsShort t → s.step (.go t) = some s' →
      s'.gPhysPageBitmap = s.gPhysPageBitmap) ∧
    (∀ t hd, s.aborted = false → s.pc t = .out → s.addrLock = ⟨1, []⟩ →
      ∃ s', sys.run s (alone t hd) = some s' ∧
        (s.gPhysPageBitmap.numClear < hd.numPages →
          s'.gPhysPageBitmap = s.gPhysPageBitmap ∧ s'.aborted = true) ∧
        (s'.addrLock.value = s.addrLock.value ↔ hd.numPages ≤ s.gPhysPageBitmap.numClear)) ∧
    (sys.ReachBy Enough s → Guarded s) :=
  ⟨fun h _ _ hshort hs => bitmap_of_short h hshort hs,
    fun _ hd hgo hpc hl => alone_clean_iff hd hgo hpc hl, fun h => (lockInv_reachBy h).guarded⟩

/-- The header of a program with `size` bytes of code. -/
def program (size : Int) : NoffHeader :=
  ⟨noffMagicNumber, ⟨0, 52, size⟩, ⟨0, 0, 0⟩, ⟨0, 0, 0⟩, ⟨0, 0, 0⟩⟩

/-- A program that fits is built at the start. When it has been built twice, thread 0 has the lock,
and thread 1 waits for it. -/
theorem addrLock_exclusive_fits :
    (∃ s', sys.run start (alone 0 (program 100)) = some s' ∧ s'.addrLock.value = 1) ∧
      ∃ s, sys.ReachBy Enough s ∧ (s.pc 0).inside = true ∧ s.addrLock.queue = [1] ∧ Guarded s := by
  constructor
  · obtain ⟨s', hrun, _, hiff⟩ := (addrLock_exclusive start).2.1 0 (program 100) rfl rfl rfl
    exact ⟨s', hrun, hiff.mpr (by decide +kernel)⟩
  · have hrun : (sys.runBy Enough start (alone 0 (program 100) ++ alone 1 (program 100) ++
        [.construct 0 (program 100), .construct 1 (program 100), .go 0, .go 1])).map
        (fun s => ((s.pc 0).inside, s.addrLock.queue)) = some (true, [1]) := by
      decide +kernel
    obtain ⟨s, hs, he⟩ := Option.map_eq_some_iff.mp hrun
    obtain ⟨hin, hqueue⟩ := Prod.mk.inj he
    have hr : sys.ReachBy Enough s := .runBy _ (.init rfl) hs
    exact ⟨s, hr, hin, hqueue, (addrLock_exclusive s).2.2 hr⟩

/-- The constructor of a program that is larger than memory has called `V` twice when two others
come, and both have the lock. -/
theorem addrLock_two_units : ¬ ∀ s, sys.Reachable s → s.aborted = false → Guarded s := by
  intro h
  have hrun : (sys.run start [.construct 0 (program 100000), .go 0, .go 0, .go 0, .go 0,
      .construct 1 (program 100), .construct 2 (program 100), .go 1, .go 2]).map
      (fun s => (s.aborted, (s.pc 1).inside, (s.pc 2).inside)) = some (false, true, true) := by
    decide +kernel
  obtain ⟨s, hs, he⟩ := Option.map_eq_some_iff.mp hrun
  simp only [Prod.mk.injEq] at he
  obtain ⟨hgo, h1, h2⟩ := he
  have h12 := (h s (System.Reachable.of_run rfl hs) hgo).exclusive 1 2 h1 h2
  exact absurd h12 (by decide)

end SpaceState

end Nachos
