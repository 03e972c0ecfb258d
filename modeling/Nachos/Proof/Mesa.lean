import Nachos.Proof.Monitor

/-!
# The runs of locks and conditions are those of a monitor

Each call has its effect at one step: `Acquire` at the pass of its `P`, `Release` at its `V`, `Wait`
when its semaphore is on the queue, `Signal` when it has taken one off. `Broadcast` takes
them off one at a time, and its effect is at its beginning. From there to its end it has the lock,
so no waiter is added, and those still on the queue have been woken already.
-/

namespace Nachos

open Base (upd upd_self upd_ne Mesa MesaEvent)

namespace MonitorPC

variable {κ : Type}

/-- What the relation to the monitor reads of where a thread is. -/
def shows (p : MonitorPC κ) : Bool × Bool × Option (κ × Nat) × Option κ :=
  (p.within, p.acquires, p.before, p.sweeps)

/-- From the assignment of `lockHolder` in `Acquire` to that in `Release`. -/
def named : MonitorPC κ → Bool
  | held _ => false
  | unlock _ => false
  | p => p.holds

theorem holds_of_named {p : MonitorPC κ} (h : p.named = true) : p.holds = true := by
  cases p with
  | held back => rfl
  | unlock sleep => rfl
  | _ => exact h

end MonitorPC

namespace Monitor

variable {κ : Type}

section Relation

/-- Some thread is in `Broadcast`. -/
def Sweeping (s : Monitor κ) (c : κ) : Prop := ∃ t, (s.pc t).sweeps = some c

/-- A thread that waits is on its way back when its semaphore is off the queue, or will be taken off
by the `Broadcast` that goes on. -/
def Entering (s : Monitor κ) (t : Nat) : Prop :=
  (s.pc t).acquires = true ∨
    ∃ c w, (s.pc t).before = some (c, w) ∧ (w ∈ s.waitQueue c → s.Sweeping c)

/-- The monitor that a state stands for. -/
structure Abs (s : Monitor κ) (m : Mesa Nat κ) : Prop where
  inside : ∀ t, m.inside = some t ↔ (s.pc t).within = true
  entering : ∀ t, t ∈ m.entering ↔ s.Entering t
  waiting : ∀ c, ¬ s.Sweeping c → m.waiting c = (s.waitQueue c).map s.creator
  swept : ∀ c, s.Sweeping c → m.waiting c = []

/-- `lockHolder` is the thread that has the lock. -/
def HolderInv (s : Monitor κ) : Prop := ∀ t, s.lockHolder = some t ↔ (s.pc t).named = true

end Relation

section Silent

variable {s s' : Monitor κ} {m : Mesa Nat κ} {t u : Nat} {p : MonitorPC κ} {c : κ}

theorem HolderInv.move (h : HolderInv s) (hpc : s'.pc = upd s.pc t p)
    (hholder : s'.lockHolder = s.lockHolder) (hp : p.named = (s.pc t).named) : HolderInv s' := by
  intro u
  rw [hpc, hholder, Base.upd_field MonitorPC.named hp]
  exact h u

/-- Two states that show the same of their threads and queues. -/
theorem Abs.congr (h : Abs s m) (hpc : ∀ u, (s'.pc u).shows = (s.pc u).shows)
    (hqueue : s'.waitQueue = s.waitQueue)
    (hcreator : ∀ c w, w ∈ s.waitQueue c → s'.creator w = s.creator w) : Abs s' m := by
  have hwithin : ∀ u, (s'.pc u).within = (s.pc u).within := fun u => (Prod.mk.inj (hpc u)).1
  have hacq : ∀ u, (s'.pc u).acquires = (s.pc u).acquires := fun u =>
    (Prod.mk.inj (Prod.mk.inj (hpc u)).2).1
  have hbefore : ∀ u, (s'.pc u).before = (s.pc u).before := fun u =>
    (Prod.mk.inj (Prod.mk.inj (Prod.mk.inj (hpc u)).2).2).1
  have hsweeps : ∀ u, (s'.pc u).sweeps = (s.pc u).sweeps := fun u =>
    (Prod.mk.inj (Prod.mk.inj (Prod.mk.inj (hpc u)).2).2).2
  have hsweeping : ∀ c, s'.Sweeping c ↔ s.Sweeping c := fun c =>
    exists_congr fun u => by rw [hsweeps u]
  constructor
  case inside => intro u; rw [hwithin u]; exact h.inside u
  case entering =>
    intro u
    rw [h.entering u]
    unfold Entering
    simp only [hacq, hbefore, hqueue, hsweeping]
  case waiting =>
    intro c hc
    rw [h.waiting c fun hs => hc ((hsweeping c).mpr hs), hqueue]
    exact List.map_congr_left fun w hw => (hcreator c w hw).symm
  case swept => exact fun c hc => h.swept c ((hsweeping c).mp hc)

/-- A step that cannot be seen from outside. -/
theorem Abs.move (h : Abs s m) (hpc : s'.pc = upd s.pc t p) (hqueue : s'.waitQueue = s.waitQueue)
    (hcreator : s'.creator = s.creator) (hp : p.shows = (s.pc t).shows) : Abs s' m :=
  h.congr (by rw [hpc]; exact Base.upd_field MonitorPC.shows hp) hqueue fun _ _ _ => by
    rw [hcreator]

/-- Nobody else is in `Broadcast` when a thread has the lock. -/
theorem LockInv.not_sweeping (h : LockInv s) (ht : (s.pc t).holds = true)
    (hno : (s.pc t).sweeps ≠ some c) : ¬ s.Sweeping c := by
  rintro ⟨u, hu⟩
  rw [h.unique ht (MonitorPC.holds_of_sweeps hu)] at hu
  exact hno hu

theorem LockInv.none_sweeping (h : LockInv s) (ht : (s.pc t).holds = true)
    (hno : (s.pc t).sweeps = none) (c : κ) : ¬ s.Sweeping c :=
  h.not_sweeping ht (by rw [hno]; simp)

/-- Who waits on a condition that nobody broadcasts to. -/
theorem Abs.mem_waiting (h : Abs s m) (hw : WaitInv s) (hc : ¬ s.Sweeping c) :
    u ∈ m.waiting c ↔ ∃ w ∈ s.waitQueue c, (s.pc u).before = some (c, w) := by
  rw [h.waiting c hc, List.mem_map]
  constructor
  · rintro ⟨w, hmem, rfl⟩
    exact ⟨w, hmem, (hw.queued c w hmem).2⟩
  · rintro ⟨w, hmem, hb⟩
    exact ⟨w, hmem, hw.creator hb⟩

/-- Who is on its way out of the monitor, or is not there, does not wait. -/
theorem Abs.not_waiting (h : Abs s m) (hw : WaitInv s) (ht : (s.pc t).before = none) (c : κ) :
    t ∉ m.waiting c := by
  intro hmem
  by_cases hc : s.Sweeping c
  · rw [h.swept c hc] at hmem
    exact absurd hmem (by simp)
  · obtain ⟨w, _, hb⟩ := (h.mem_waiting hw hc).mp hmem
    rw [ht] at hb
    exact absurd hb (by simp)

/-- A step after which the same thread is inside. -/
theorem Abs.inside_upd (h : Abs s m) (hpc : s'.pc = upd s.pc t p)
    (hp : p.within = (s.pc t).within) : ∀ u, m.inside = some u ↔ (s'.pc u).within = true := by
  intro u
  rw [hpc, Base.upd_field MonitorPC.within hp]
  exact h.inside u

theorem not_entering (ht : (s.pc t).before = none) (ha : (s.pc t).acquires = false) :
    ¬ s.Entering t := by
  rintro (hacq | ⟨c, w, hb, _⟩)
  · rw [ha] at hacq
    exact Bool.noConfusion hacq
  · rw [ht] at hb
    exact absurd hb (by simp)

end Silent

/-! ## The steps that can be seen -/

section Seen

variable {s s' : Monitor κ} {m : Mesa Nat κ} {t u : Nat} {p : MonitorPC κ} {c : κ}

/-- A thread that is where it was, and whose semaphore is on its way as it was. -/
theorem entering_congr (hpc : s'.pc u = s.pc u) (hq : ∀ c w, (s.pc u).before = some (c, w) →
      ((w ∈ s'.waitQueue c → s'.Sweeping c) ↔ (w ∈ s.waitQueue c → s.Sweeping c))) :
    s'.Entering u ↔ s.Entering u := by
  unfold Entering
  rw [hpc]
  exact or_congr_right (exists_congr fun c => exists_congr fun w => and_congr_right (hq c w))

/-- A step of one thread after which the queues and the broadcasts are as before. -/
theorem entering_other (hpc : s'.pc = upd s.pc t p) (hqueue : s'.waitQueue = s.waitQueue)
    (hsweeping : ∀ c, s'.Sweeping c ↔ s.Sweeping c) (hut : u ≠ t) :
    s'.Entering u ↔ s.Entering u := by
  refine entering_congr (by rw [hpc, upd_ne _ _ hut]) fun c w _ => ?_
  rw [hqueue, hsweeping]

theorem sweeping_upd (hpc : s'.pc = upd s.pc t p) (hp : p.sweeps = (s.pc t).sweeps) (c : κ) :
    s'.Sweeping c ↔ s.Sweeping c :=
  exists_congr fun u => by rw [hpc, Base.upd_field MonitorPC.sweeps hp]

/-- `Acquire` is called. -/
theorem abs_call (h : Abs s m) (hw : WaitInv s) (ht : s.pc t = .out) :
    m.Outside t ∧ Abs (s.goto t (.acquire none)) { m with entering := insert t m.entering } := by
  have hpc : (s.goto t (.acquire none)).pc = upd s.pc t (.acquire none) := rfl
  have hsweeping := sweeping_upd (s := s) hpc (by rw [ht]; rfl)
  refine ⟨⟨fun hi => ?_, fun he => ?_, h.not_waiting hw (by rw [ht]; rfl)⟩, ?_, ?_, ?_, ?_⟩
  · have := (h.inside t).mp hi
    rw [ht] at this
    exact Bool.noConfusion this
  · exact not_entering (by rw [ht]; rfl) (by rw [ht]; rfl) ((h.entering t).mp he)
  · exact h.inside_upd rfl (by rw [ht]; rfl)
  · intro u
    by_cases hut : u = t
    · rw [hut]
      refine iff_of_true (Set.mem_insert t _) (.inl ?_)
      exact congrArg MonitorPC.acquires (upd_self s.pc t _)
    · rw [entering_other hpc rfl hsweeping hut, ← h.entering u]
      exact Set.mem_insert_iff.trans (or_iff_right hut)
  · exact fun c hc => h.waiting c fun hs => hc ((hsweeping c).mpr hs)
  · exact fun c hc => h.swept c ((hsweeping c).mp hc)

/-- The thread passes the `P` of the lock. -/
theorem abs_enter (s' : Monitor κ) (h : Abs s m) (hL : LockInv s) {back : Option (κ × Nat)}
    (ht : s.pc t = .acquire back) (hv : s.lock.value ≠ 0) (hpc : s'.pc = upd s.pc t (.held back))
    (hqueue : s'.waitQueue = s.waitQueue) (hcreator : s'.creator = s.creator) :
    m.inside = none ∧ t ∈ m.entering ∧
      Abs s' { m with inside := some t, entering := m.entering \ {t} } := by
  have hsweeping := sweeping_upd (s := s) hpc (by rw [ht]; rfl)
  have hnobody : ∀ u, (s.pc u).within ≠ true := fun u hu =>
    hv (hL.exclusive.zero (MonitorPC.holds_of_within hu))
  refine ⟨Option.eq_none_iff_forall_ne_some.mpr fun u hu => hnobody u ((h.inside u).mp hu),
    (h.entering t).mpr (.inl (by rw [ht]; rfl)), ?_, ?_, ?_, ?_⟩
  · intro u
    rw [hpc]
    by_cases hut : u = t
    · rw [hut, upd_self]
      exact iff_of_true rfl rfl
    · rw [upd_ne _ _ hut]
      exact iff_of_false (fun he => hut (Option.some.inj he).symm) (hnobody u)
  · intro u
    by_cases hut : u = t
    · rw [hut]
      refine iff_of_false (fun he => he.2 rfl) (not_entering ?_ ?_)
      · rw [hpc, upd_self]; rfl
      · rw [hpc, upd_self]; rfl
    · rw [entering_other hpc hqueue hsweeping hut, ← h.entering u]
      exact and_iff_left hut
  · intro c hc
    rw [hqueue, hcreator]
    exact h.waiting c fun hs => hc ((hsweeping c).mpr hs)
  · exact fun c hc => h.swept c ((hsweeping c).mp hc)

/-- The `V` of the lock. -/
theorem abs_leave (s' : Monitor κ) (h : Abs s m) (ht : s.pc t = .unlock none)
    (hpc : s'.pc = upd s.pc t .out)
    (hqueue : s'.waitQueue = s.waitQueue) (hcreator : s'.creator = s.creator) :
    m.inside = some t ∧ Abs s' { m with inside := none } := by
  have hsweeping := sweeping_upd (s := s) hpc (by rw [ht]; rfl)
  have hin : m.inside = some t := (h.inside t).mpr (by rw [ht]; rfl)
  refine ⟨hin, ?_, ?_, ?_, ?_⟩
  · intro u
    refine iff_of_false (by simp) ?_
    rw [hpc]
    by_cases hut : u = t
    · rw [hut, upd_self]
      exact Bool.false_ne_true
    · rw [upd_ne _ _ hut]
      exact fun hu => hut (Option.some.inj (hin.symm.trans ((h.inside u).mpr hu))).symm
  · intro u
    rw [h.entering u]
    by_cases hut : u = t
    · rw [hut]
      refine iff_of_false (not_entering (by rw [ht]; rfl) (by rw [ht]; rfl)) (not_entering ?_ ?_)
      · rw [hpc, upd_self]; rfl
      · rw [hpc, upd_self]; rfl
    · exact (entering_other hpc hqueue hsweeping hut).symm
  · intro c hc
    rw [hqueue, hcreator]
    exact h.waiting c fun hs => hc ((hsweeping c).mpr hs)
  · exact fun c hc => h.swept c ((hsweeping c).mp hc)

/-- The lock is given back by a thread that has put its semaphore on the queue. -/
theorem abs_wait [DecidableEq κ] (h : Abs s m) (hL : LockInv s) (hw : WaitInv s) {w : Nat}
    (ht : s.pc t = .waitAppend c w) :
    m.inside = some t ∧ Abs (s.waitAppend t c w)
      { m with inside := none, waiting := upd m.waiting c (m.waiting c ++ [t]) } := by
  have hcr : s.creator w = t := (hw.mine t c w (by rw [ht]; rfl)).1
  have hin : m.inside = some t := (h.inside t).mpr (by rw [ht]; rfl)
  have hpc : (s.waitAppend t c w).pc = upd s.pc t (.release (some (c, w))) := rfl
  have hqueue : (s.waitAppend t c w).waitQueue = upd s.waitQueue c (s.waitQueue c ++ [w]) := rfl
  have hsweeping := sweeping_upd hpc (by rw [ht]; rfl)
  have hnone : ∀ d, ¬ s.Sweeping d := hL.none_sweeping (t := t) (by rw [ht]; rfl) (by rw [ht]; rfl)
  refine ⟨hin, ?_, ?_, ?_, ?_⟩
  · intro u
    refine iff_of_false (by simp) ?_
    rw [hpc]
    by_cases hut : u = t
    · rw [hut, upd_self]
      exact Bool.false_ne_true
    · rw [upd_ne _ _ hut]
      exact fun hu => hut (Option.some.inj (hin.symm.trans ((h.inside u).mpr hu))).symm
  · intro u
    rw [h.entering u]
    by_cases hut : u = t
    · rw [hut]
      refine iff_of_false (not_entering (by rw [ht]; rfl) (by rw [ht]; rfl)) ?_
      rintro (hacq | ⟨d, x, hb, hswept⟩)
      · rw [hpc, upd_self] at hacq
        exact Bool.noConfusion hacq
      · -- it is on the queue
        rw [hpc, upd_self] at hb
        obtain ⟨rfl, rfl⟩ := Prod.mk.inj (Option.some.inj hb)
        refine hnone c ((hsweeping c).mp (hswept ?_))
        rw [hqueue, upd_self]
        exact List.mem_append_right _ List.mem_cons_self
    · refine (entering_congr (by rw [hpc, upd_ne _ _ hut]) fun d x hb => ?_).symm
      have hx : x ∉ [w] := fun he => by
        rw [List.mem_singleton.mp he] at hb
        exact hut ((hw.creator hb).symm.trans hcr)
      rw [hsweeping, hqueue]
      by_cases hd : d = c
      · rw [hd, upd_self, List.mem_append, or_iff_left hx]
      · rw [upd_ne _ _ hd]
  · intro d _
    rw [hqueue]
    show upd m.waiting c (m.waiting c ++ [t]) d =
      (upd s.waitQueue c (s.waitQueue c ++ [w]) d).map s.creator
    by_cases hd : d = c
    · rw [hd, upd_self, upd_self, List.map_append, h.waiting c (hnone c), List.map_singleton, hcr]
    · rw [upd_ne _ _ hd, upd_ne _ _ hd]
      exact h.waiting d (hnone d)
  · exact fun d hd => absurd ((hsweeping d).mp hd) (hnone d)

/-- A signal takes the semaphore off that has been on the queue for longest. -/
theorem abs_signal [DecidableEq κ] (s' : Monitor κ) (h : Abs s m) (hL : LockInv s)
    (hw : WaitInv s) {w : Nat}
    {ws : List Nat} (ht : s.pc t = .signal c false) (hq : s.waitQueue c = w :: ws)
    (hpc : s'.pc = upd s.pc t (.signalV c w false)) (hqueue : s'.waitQueue = upd s.waitQueue c ws)
    (hcreator : s'.creator = s.creator) :
    m.inside = some t ∧ m.waiting c = s.creator w :: ws.map s.creator ∧
      Abs s' { m with entering := insert (s.creator w) m.entering
                      waiting := upd m.waiting c (ws.map s.creator) } := by
  have hsweeping := sweeping_upd hpc (by rw [ht]; rfl)
  have hnone : ∀ d, ¬ s.Sweeping d := hL.none_sweeping (t := t) (by rw [ht]; rfl) (by rw [ht]; rfl)
  have hnot : w ∉ ws := by
    have hnd := hw.nodup c
    rw [hq] at hnd
    exact (List.nodup_cons.mp hnd).1
  have hbef := (hw.queued c w (hq ▸ List.mem_cons_self)).2
  have hother : ∀ {v x}, (s.pc v).before = some x → v ≠ t := fun hv he => by
    rw [he, ht] at hv
    exact absurd hv (by simp [MonitorPC.before])
  refine ⟨(h.inside t).mpr (by rw [ht]; rfl), by rw [h.waiting c (hnone c), hq]; rfl,
    ?_, ?_, ?_, ?_⟩
  · exact h.inside_upd hpc (by rw [ht]; rfl)
  · intro u
    rw [Set.mem_insert_iff, h.entering u]
    by_cases hu : u = s.creator w
    · refine iff_of_true (.inl hu) (.inr ⟨c, w, ?_, fun hm => ?_⟩)
      · rw [hu, hpc, upd_ne _ _ (hother hbef)]
        exact hbef
      · rw [hqueue, upd_self] at hm
        exact absurd hm hnot
    · rw [or_iff_right hu]
      by_cases hut : u = t
      · rw [hut]
        refine iff_of_false (not_entering (by rw [ht]; rfl) (by rw [ht]; rfl)) (not_entering ?_ ?_)
        · rw [hpc, upd_self]; rfl
        · rw [hpc, upd_self]; rfl
      · refine (entering_congr (by rw [hpc, upd_ne _ _ hut]) fun d x hb => ?_).symm
        rw [hsweeping, hqueue]
        by_cases hd : d = c
        · have hxw : x ≠ w := fun he => hu (by rw [← hw.creator hb, he])
          rw [hd, upd_self, hq, List.mem_cons, or_iff_right hxw]
        · rw [upd_ne _ _ hd]
  · intro d _
    rw [hqueue, hcreator]
    exact Base.forall_upd
      (P := fun d (us : List Nat) => us = (upd s.waitQueue c ws d).map s.creator)
      (by rw [upd_self]) (fun d hd => by rw [upd_ne _ _ hd]; exact h.waiting d (hnone d)) d
  · exact fun d hd => absurd ((hsweeping d).mp hd) (hnone d)

/-- `Broadcast` is called: all that wait are on their way. -/
theorem abs_broadcast (h : Abs s m) (hL : LockInv s) (hw : WaitInv s) [DecidableEq κ]
    (ht : s.pc t = .inside) :
    m.inside = some t ∧ Abs (s.goto t (.test c))
      { m with
        entering := m.entering ∪ { u | u ∈ m.waiting c }
        waiting := upd m.waiting c [] } := by
  have hpc : (s.goto t (.test c)).pc = upd s.pc t (.test c) := rfl
  have hnone : ∀ d, ¬ s.Sweeping d := hL.none_sweeping (t := t) (by rw [ht]; rfl) (by rw [ht]; rfl)
  have hsweeping : ∀ d, (s.goto t (.test c)).Sweeping d ↔ d = c := by
    intro d
    constructor
    · rintro ⟨u, hu⟩
      by_cases hut : u = t
      · rw [hpc, hut, upd_self] at hu
        exact (Option.some.inj hu).symm
      · rw [hpc, upd_ne _ _ hut] at hu
        exact absurd ⟨u, hu⟩ (hnone d)
    · rintro rfl
      exact ⟨t, by rw [hpc, upd_self]; rfl⟩
  refine ⟨(h.inside t).mpr (by rw [ht]; rfl), ?_, ?_, ?_, ?_⟩
  · exact h.inside_upd hpc (by rw [ht]; rfl)
  · intro u
    rw [Set.mem_union, h.entering u, Set.mem_ofPred_eq, h.mem_waiting hw (hnone c)]
    unfold Entering
    rw [hpc, Base.upd_field MonitorPC.acquires (by rw [ht]; rfl),
      Base.upd_field MonitorPC.before (by rw [ht]; rfl), or_assoc]
    refine or_congr_right ⟨?_, ?_⟩
    · rintro (⟨d, w, hb, hnot⟩ | ⟨w, _, hb⟩)
      · exact ⟨d, w, hb, fun hm => absurd (hnot hm) (hnone d)⟩
      · exact ⟨c, w, hb, fun _ => (hsweeping c).mpr rfl⟩
    · rintro ⟨d, w, hb, hswept⟩
      by_cases hm : w ∈ s.waitQueue d
      · obtain rfl := (hsweeping d).mp (hswept hm)
        exact .inr ⟨w, hm, hb⟩
      · exact .inl ⟨d, w, hb, fun hm' => absurd hm' hm⟩
  · intro d hd
    have hdc : d ≠ c := fun he => hd ((hsweeping d).mpr he)
    exact (upd_ne _ _ hdc).trans (h.waiting d (hnone d))
  · intro d hd
    rw [(hsweeping d).mp hd]
    exact upd_self _ _ _

/-- `Broadcast` takes a semaphore off the queue. -/
theorem abs_sweep [DecidableEq κ] (h : Abs s m) {w : Nat} {ws : List Nat}
    (ht : s.pc t = .signal c true) (hpc : s'.pc = upd s.pc t (.signalV c w true))
    (hqueue : s'.waitQueue = upd s.waitQueue c ws) (hcreator : s'.creator = s.creator) :
    Abs s' m := by
  have hsweeping := sweeping_upd hpc (by rw [ht]; rfl)
  have hc : s.Sweeping c := ⟨t, by rw [ht]; rfl⟩
  constructor
  case inside => exact h.inside_upd hpc (by rw [ht]; rfl)
  case entering =>
    intro u
    rw [h.entering u]
    unfold Entering
    rw [hpc, Base.upd_field MonitorPC.acquires (by rw [ht]; rfl),
      Base.upd_field MonitorPC.before (by rw [ht]; rfl)]
    refine or_congr_right (exists_congr fun d => exists_congr fun x => and_congr_right fun _ => ?_)
    rw [hsweeping, hqueue]
    by_cases hd : d = c
    · rw [hd]
      exact iff_of_true (fun _ => hc) fun _ => hc
    · rw [upd_ne _ _ hd]
  case waiting =>
    intro d hd
    have hd' : ¬ s.Sweeping d := fun hs => hd ((hsweeping d).mpr hs)
    have hdc : d ≠ c := fun he => hd' (he ▸ hc)
    rw [hqueue, hcreator, upd_ne _ _ hdc]
    exact h.waiting d hd'
  case swept => exact fun d hd => h.swept d ((hsweeping d).mp hd)

/-- `Broadcast` finds the queue empty. -/
theorem abs_swept (h : Abs s m) (hL : LockInv s) (ht : s.pc t = .test c) (hq : s.waitQueue c = []) :
    Abs (s.goto t .inside) m := by
  have hpc : (s.goto t .inside).pc = upd s.pc t .inside := rfl
  have hold : ∀ d, d ≠ c → ¬ s.Sweeping d := fun d hd =>
    hL.not_sweeping (t := t) (by rw [ht]; rfl)
      (by rw [ht]; exact fun he => hd (Option.some.inj he).symm)
  have hnew : ∀ d, ¬ (s.goto t .inside).Sweeping d := by
    rintro d ⟨u, hu⟩
    by_cases hut : u = t
    · rw [hpc, hut, upd_self] at hu
      exact absurd hu (by simp [MonitorPC.sweeps])
    · rw [hpc, upd_ne _ _ hut] at hu
      exact hut (hL.unique (by rw [ht]; rfl) (MonitorPC.holds_of_sweeps hu))
  constructor
  case inside => exact h.inside_upd hpc (by rw [ht]; rfl)
  case entering =>
    intro u
    rw [h.entering u]
    unfold Entering
    rw [hpc, Base.upd_field MonitorPC.acquires (by rw [ht]; rfl),
      Base.upd_field MonitorPC.before (by rw [ht]; rfl)]
    refine or_congr_right (exists_congr fun d => exists_congr fun x => and_congr_right fun _ => ?_)
    show (x ∈ s.waitQueue d → _) ↔ (x ∈ s.waitQueue d → _)
    by_cases hd : d = c
    · rw [hd, hq]
      exact iff_of_true (fun hx => absurd hx (by simp)) fun hx => absurd hx (by simp)
    · exact imp_congr_right fun _ => iff_of_false (hold d hd) (hnew d)
  case waiting =>
    intro d _
    by_cases hd : d = c
    · subst hd
      show m.waiting d = (s.waitQueue d).map s.creator
      rw [hq]
      exact h.swept d ⟨t, by rw [ht]; rfl⟩
    · exact h.waiting d (hold d hd)
  case swept => exact fun d hd => absurd hd (hnew d)

/-- A waiter passes the `P` of its semaphore, and wants the lock. -/
theorem abs_pass (h : Abs s m) (hw : WaitInv s) {w : Nat} (ht : s.pc t = .waitP c w)
    (hv : (s.waiter w).value ≠ 0) (hpc : s'.pc = upd s.pc t (.acquire (some (c, w))))
    (hqueue : s'.waitQueue = s.waitQueue) (hcreator : s'.creator = s.creator) : Abs s' m := by
  have hsweeping := sweeping_upd hpc (by rw [ht]; rfl)
  constructor
  case inside => exact h.inside_upd hpc (by rw [ht]; rfl)
  case entering =>
    intro u
    rw [h.entering u]
    by_cases hut : u = t
    · rw [hut]
      refine iff_of_true (.inr ⟨c, w, by rw [ht]; rfl, fun hm => ?_⟩) (.inl ?_)
      · exact absurd (hw.queued c w hm).1 hv
      · rw [hpc, upd_self]
        rfl
    · exact (entering_other hpc hqueue hsweeping hut).symm
  case waiting =>
    intro d hd
    rw [hqueue, hcreator]
    exact h.waiting d fun hs => hd ((hsweeping d).mpr hs)
  case swept => exact fun d hd => h.swept d ((hsweeping d).mp hd)

end Seen

end Monitor

end Nachos
