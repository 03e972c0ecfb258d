import Nachos.Proof.Threads

/-!
# A user program does not see the context switches

Only a thread with an address space is saved when it gives the CPU away and restored when
it comes back, so the rest of the kernel is free to leave anything in the registers. What
has to be true is that the two ends meet: a thread has its address space when it comes
back only if it had it when it left, and its page table was in the machine then.

A load that is pending belongs to the instruction stream, not to the registers. The
machine finishes it before it enters the kernel and before it calls an interrupt handler,
and a user program is switched away from only in one of these two ways.

The record kept beside the threads is the machine as each of them left it.
-/

namespace Nachos

open Base (upd upd_self upd_ne upd_apply)

namespace Processor

/-- **`DelayedLoad(0, 0)` leaves no load pending.** -/
theorem settled_delayedLoad (m : Processor) : Settled (m.delayedLoad 0#32 0#32).registers := by
  simp only [delayedLoad, writeRegister]
  refine ⟨?_, ?_⟩
  · rw [upd_ne _ _ (by decide), upd_ne _ _ (by decide), upd_self]
  · rw [upd_ne _ _ (by decide), upd_self]

theorem settled_writeRegister {m : Processor} (h : Settled m.registers) {num : Nat}
    (hn : Sched.kernelWrites num = true) (value : BitVec 32) :
    Settled (m.writeRegister num value).registers := by
  simp only [Sched.kernelWrites, Bool.and_eq_true, bne_iff_ne] at hn
  refine ⟨?_, ?_⟩
  · show upd m.registers num value loadReg = 0#32
    rw [upd_ne _ _ (Ne.symm hn.1)]
    exact h.1
  · show upd m.registers num value loadValueReg = 0#32
    rw [upd_ne _ _ (Ne.symm hn.2)]
    exact h.2

end Processor

open Processor (Settled)

namespace Sched

/-- The machine as each thread left it. -/
abbrev SwitchLog := Nat → Option Processor

/-- The record after the step from `s` to `s'`: who gave the CPU away, and what was in the
machine. -/
def noteSwitch (s : Sched) (_ : SchedCall) (s' : Sched) (g : SwitchLog) : SwitchLog :=
  if s.mode ≠ .switched ∧ s'.mode = .switched then upd g s.currentThread (some s'.machine) else g

/-- The runs of the threads, with the record beside them. -/
def switches : Base.System (Sched × SwitchLog) SchedCall := sys.record (fun _ => none) noteSwitch

/-- What is kept of thread `t`, of address space `sp`, is what it left. -/
def SavedAs (s : Sched) (g : SwitchLog) (t : Nat) (sp : Space) : Prop :=
  ∃ m, g t = some m ∧ (∀ i, i < numTotalRegs → s.userRegisters t i = m.registers i) ∧
    m.pageTable = some sp.pageTable ∧ m.pageTableSize = sp.numPages ∧ Settled m.registers

/-- What holds at every moment. -/
structure Kept (s : Sched) (g : SwitchLog) : Prop where
  inv : Inv s
  /-- The page table of the thread that has the CPU is in the machine, and no load is pending
  outside user mode. -/
  live : s.mode ≠ .switched → ∀ sp, s.space s.stack = some sp →
    s.machine.pageTable = some sp.pageTable ∧ s.machine.pageTableSize = sp.numPages ∧
      (s.point s.stack ≠ .code true → Settled s.machine.registers)
  /-- A thread that has given the CPU away has been saved. -/
  saved : ∀ t sp, s.space t = some sp → (s.point t).waits = true →
    t ≠ s.stack ∨ s.mode = .switched → SavedAs s g t sp
  /-- A thread that has not begun has no address space. -/
  fresh : ∀ t, s.point t = .begin ∨ s.point t = .justCreated → s.space t = none

theorem kept_boot {s : Sched} (h : Boot s) : Kept s (fun _ => none) := by
  have hI := inv_boot h
  obtain ⟨_, _, _, _, _, _, hsp, _⟩ := h
  refine ⟨hI, ?_, ?_, fun t _ => hsp t⟩
  · intro _ sp he
    rw [hsp] at he
    exact absurd he (by simp)
  · intro t sp he
    rw [hsp] at he
    exact absurd he (by simp)

section Steps

variable {s s' : Sched} {g : SwitchLog}

/-- The thread that has the CPU has begun. -/
theorem Inv.begun (h : Inv s) (hm : s.mode ≠ .switched) :
    s.point s.stack ≠ .begin ∧ s.point s.stack ≠ .justCreated := by
  cases hmode : s.mode with
  | running => rcases h.running hmode with ⟨_, hp⟩ | ⟨_, _, hp, _⟩ <;> simp [hp]
  | idling => rcases (h.idling (Or.inl hmode)).2 with hp | ⟨_, _, hp⟩ <;> simp [hp]
  | halted => rcases (h.idling (Or.inr hmode)).2 with hp | ⟨_, _, hp⟩ <;> simp [hp]
  | switched => exact absurd hmode hm

/-- A step in which the thread that has the CPU keeps it and no other thread moves, except
that a new one may be forked. -/
theorem Kept.stay (h : Kept s g) (hm : s.mode ≠ .switched) (hI : Inv s') (hm' : s'.mode ≠ .switched)
    (hst : s'.stack = s.stack) (hsp : s'.space = s.space)
    (hur : s'.userRegisters = s.userRegisters)
    (hpage : s'.machine.pageTable = s.machine.pageTable ∧
      s'.machine.pageTableSize = s.machine.pageTableSize)
    (hpt : ∀ t, t ≠ s.stack → s'.point t = s.point t ∨
      s'.point t = .begin ∧ s.point t = .justCreated)
    (hown : s'.point s.stack ≠ .begin ∧ s'.point s.stack ≠ .justCreated)
    (hset : s'.point s.stack ≠ .code true → (s.space s.stack).isSome = true →
      Settled s'.machine.registers) : Kept s' g := by
  refine ⟨hI, ?_, ?_, ?_⟩
  · intro _ sp he
    rw [hst, hsp] at he
    obtain ⟨h1, h2, _⟩ := h.live hm sp he
    refine ⟨hpage.1.trans h1, hpage.2.trans h2, ?_⟩
    intro hu
    rw [hst] at hu
    exact hset hu (by rw [he]; rfl)
  · intro t sp he hw hor
    rw [hst] at hor
    have hts : t ≠ s.stack := hor.resolve_right hm'
    rw [hsp] at he
    have hold : (s.point t).waits = true := by
      rcases hpt t hts with h1 | ⟨_, h1⟩
      · rw [← h1]; exact hw
      · rw [h.fresh t (Or.inr h1)] at he
        exact absurd he (by simp)
    obtain ⟨m, h1, h2, h3⟩ := h.saved t sp he hold (Or.inl hts)
    exact ⟨m, h1, by rw [hur]; exact h2, h3⟩
  · intro t ht
    rw [hsp]
    by_cases hts : t = s.stack
    · rw [hts] at ht
      exact absurd ht (not_or.mpr hown)
    · rcases hpt t hts with h1 | ⟨_, h1⟩
      · rw [h1] at ht
        exact h.fresh t ht
      · exact h.fresh t (Or.inr h1)

theorem saveUserState_self {sp : Space} (hsp : s.space s.stack = some sp) {i : Nat}
    (hi : i < numTotalRegs) :
    (s.saveUserState s.stack).userRegisters s.stack i = s.machine.registers i := by
  unfold saveUserState
  rw [hsp, Option.isSome_some, if_pos rfl]
  simp only [upd_self, hi, if_true]

theorem saveUserState_ne {t u : Nat} (htu : u ≠ t) :
    (s.saveUserState t).userRegisters u = s.userRegisters u := by
  unfold saveUserState
  split
  · exact upd_ne _ _ htu
  · rfl

/-- **The thread that has the CPU gives it away**, with no load pending. -/
theorem Kept.switch (h : Kept s g) (hm : s.mode ≠ .switched) (hI : Inv s')
    (hm' : s'.mode = .switched) (hsp : s'.space = s.space)
    (hur : s'.userRegisters = (s.saveUserState s.stack).userRegisters)
    (hpt : ∀ t, t ≠ s.stack → s'.point t = s.point t)
    (hown : s'.point s.stack ≠ .begin ∧ s'.point s.stack ≠ .justCreated)
    (hset : (s.space s.stack).isSome = true → Settled s.machine.registers) :
    Kept s' (upd g s.stack (some s.machine)) := by
  refine ⟨hI, fun hn => absurd hm' hn, ?_, ?_⟩
  · intro t sp he hw _
    rw [hsp] at he
    by_cases hts : t = s.stack
    · subst hts
      obtain ⟨h1, h2, _⟩ := h.live hm sp he
      refine ⟨s.machine, upd_self _ _ _, ?_, h1, h2, hset (by rw [he]; rfl)⟩
      intro i hi
      rw [hur]
      exact saveUserState_self he hi
    · rw [hpt t hts] at hw
      obtain ⟨m, h1, h2, h3⟩ := h.saved t sp he hw (Or.inl hts)
      refine ⟨m, (upd_ne _ _ hts).trans h1, ?_, h3⟩
      rw [hur, saveUserState_ne hts]
      exact h2
  · intro t ht
    rw [hsp]
    by_cases hts : t = s.stack
    · rw [hts] at ht
      exact absurd ht (not_or.mpr hown)
    · rw [hpt t hts] at ht
      exact h.fresh t ht

/-- The record of a step that switched. -/
theorem noteSwitch_eq (hI : Inv s) (hm : s.mode ≠ .switched) (hm' : s'.mode = .switched)
    (c : SchedCall) : noteSwitch s c s' g = upd g s.stack (some s'.machine) := by
  rw [noteSwitch, if_pos ⟨hm, hm'⟩, hI.stack]

/-- The record of one that did not. -/
theorem noteSwitch_same (h : s.mode = .switched ∨ s'.mode ≠ .switched) (c : SchedCall) :
    noteSwitch s c s' g = g := by
  refine if_neg ?_
  rintro ⟨h1, h2⟩
  rcases h with h | h
  · exact h1 h
  · exact h h2

theorem Kept.noted (h : Kept s' g) (hm' : s'.mode ≠ .switched) (c : SchedCall) :
    Kept s' (noteSwitch s c s' g) := by
  rw [noteSwitch_same (Or.inr hm')]
  exact h

/-- `Yield`, with no load pending. -/
theorem kept_yield (h : Kept s g) {user : Bool} (hm : s.mode = .running)
    (hp : s.point s.stack = .code user)
    (hset : (s.space s.stack).isSome = true → Settled s.machine.registers) (u : Bool) :
    (s.yield u = s ∨ (s.yield u).mode = .switched ∧ (s.yield u).machine = s.machine) ∧
      Kept (s.yield u)
        (if (s.yield u).mode = .switched then upd g s.stack (some s.machine) else g) := by
  have hnr := (h.inv.executing (t := s.stack) (by rw [hp]; rfl)).1
  have hI := inv_yield h.inv hp u
  cases hr : s.readyList with
  | nil =>
      rw [yield_nil h.inv hr, hm]
      exact ⟨Or.inl rfl, h⟩
  | cons next rest =>
      rw [hr] at hnr
      have he := yield_cons h.inv hr (fun hmem => hnr (List.mem_cons_of_mem next hmem)) u
      have hmode : (s.yield u).mode = .switched := by rw [he]
      rw [if_pos hmode]
      refine ⟨Or.inr ⟨hmode, by rw [he]⟩, ?_⟩
      refine h.switch (by rw [hm]; simp) hI hmode (by rw [he]) (by rw [he, h.inv.stack]) ?_ ?_ hset
      · intro t hts
        rw [he]
        exact upd_ne _ _ hts
      · rw [he]
        simp

/-- The handlers touch no thread's registers but the live ones, and leave no load pending. -/
theorem kept_handlers (h : Kept s g) (hl : s.level = .intOff) (hm : s.mode ≠ .switched)
    (vs : List Nat) : Kept (s.handlers vs) g ∧ Settled (s.handlers vs).machine.registers ∧
      (s.handlers vs).mode = s.mode ∧ (s.handlers vs).point = s.point ∧
      (s.handlers vs).stack = s.stack ∧ (s.handlers vs).space = s.space := by
  obtain ⟨_, g2, _, _, g5, g6, g7, g8, g9⟩ := foldl_semV_frame vs
    { s with machine := s.machine.delayedLoad 0#32 0#32 }
  have hset : Settled (s.handlers vs).machine.registers := by
    unfold handlers
    rw [g7]
    exact Processor.settled_delayedLoad _
  refine ⟨?_, hset, g6, g5, g2, g9⟩
  refine h.stay hm (inv_handlers h.inv hl hm vs) (by rw [handlers, g6]; exact hm) g2 g9
    g8 ?_ ?_ ?_ ?_
  · unfold handlers
    rw [g7]
    exact ⟨rfl, rfl⟩
  · intro t _
    rw [handlers, g5]
    exact Or.inl rfl
  · rw [handlers, g5]
    exact h.inv.begun hm
  · intro _ _
    exact hset

/-- A step of the running thread that changes its own point, and perhaps registers. -/
theorem Kept.own (h : Kept s g) (hm : s.mode = .running) (hI : Inv s') {p : ThreadPoint}
    (hm' : s'.mode ≠ .switched) (hst : s'.stack = s.stack) (hsp : s'.space = s.space)
    (hur : s'.userRegisters = s.userRegisters)
    (hpage : s'.machine.pageTable = s.machine.pageTable ∧
      s'.machine.pageTableSize = s.machine.pageTableSize)
    (hpt : s'.point = upd s.point s.stack p) (hp : p ≠ .begin ∧ p ≠ .justCreated)
    (hset : p ≠ .code true → (s.space s.stack).isSome = true → Settled s'.machine.registers) :
    Kept s' g := by
  have hself : s'.point s.stack = p := by rw [hpt, upd_self]
  refine h.stay (by rw [hm]; simp) hI hm' hst hsp hur hpage ?_ (hself.symm ▸ hp) (hself.symm ▸ hset)
  intro t hts
  rw [hpt, upd_ne _ _ hts]
  exact Or.inl rfl

/-- No load is pending in the kernel. -/
theorem Kept.settled (h : Kept s g) (hm : s.mode ≠ .switched) (hp : s.point s.stack ≠ .code true)
    (hsp : (s.space s.stack).isSome = true) : Settled s.machine.registers := by
  obtain ⟨sp, he⟩ := Option.isSome_iff_exists.mp hsp
  exact (h.live hm sp he).2.2 hp

/-- **A tick**: a user program is switched away from only after the handlers have run. -/
theorem kept_oneTick (h : Kept s g) {user : Bool} (hm : s.mode = .running)
    (hp : s.point s.stack = .code user) (fired : Option (List Nat × Bool)) (c : SchedCall) :
    Kept (s.oneTick user fired) (noteSwitch s c (s.oneTick user fired) g) := by
  have hns : s.mode ≠ .switched := by rw [hm]; simp
  match fired with
  | none => exact (noteSwitch_same (Or.inr hns) c).symm ▸ h
  | some (vs, y) =>
      have hoff : Kept { s with level := .intOff } g :=
        h.stay hns (h.inv.congr rfl (Or.inl rfl)) hns rfl rfl rfl ⟨rfl, rfl⟩ (fun _ _ => Or.inl rfl)
          (h.inv.begun hns) (h.settled hns)
      obtain ⟨hk, hset, k1, k2, k3, k4⟩ := kept_handlers hoff rfl hns vs
      generalize hs₁ : handlers { s with level := .intOff } vs = s₁ at hk hset k1 k2 k3 k4
      have hm₁ : s₁.mode = .running := k1.trans hm
      have hp₁ : s₁.point s₁.stack = .code user := by rw [k2, k3]; exact hp
      have hon : Kept { s₁ with level := .intOn } g :=
        hk.stay (by rw [hm₁]; simp) (hk.inv.congr rfl (Or.inr (Or.inr ⟨hm₁, user, hp₁⟩)))
          (by rw [hm₁]; simp) rfl rfl rfl ⟨rfl, rfl⟩ (fun _ _ => Or.inl rfl)
          (hk.inv.begun (by rw [hm₁]; simp)) (fun _ _ => hset)
      simp only [oneTick, hs₁]
      split
      · obtain ⟨hmach, hky⟩ := kept_yield hon hm₁ hp₁ (fun _ => hset) user
        rcases hmach with he | ⟨he, hme⟩
        · rw [he]
          rw [noteSwitch_same (Or.inr (by simp [hm₁]))]
          exact hon
        · rw [noteSwitch_eq h.inv hns he, hme]
          rw [if_pos he] at hky
          exact k3 ▸ hky
      · rw [noteSwitch_same (Or.inr (by simp [hm₁]))]
        exact hon

/-- The thread that is forked has not run yet. -/
theorem kept_fork (h : Kept s g) {user : Bool} {t : Nat} (hm : s.mode = .running)
    (hp : s.point s.stack = .code user) (ht : s.point t = .justCreated) (hI : Inv (s.fork t))
    (hset : (s.space s.stack).isSome = true → Settled s.machine.registers) : Kept (s.fork t) g := by
  have hns : s.mode ≠ .switched := by rw [hm]; simp
  have hne : s.stack ≠ t := fun e => by
    rw [← e, hp] at ht
    exact absurd ht (by simp)
  have hself : (s.fork t).point s.stack = s.point s.stack := upd_ne _ _ hne
  refine h.stay hns hI hns rfl rfl rfl ⟨rfl, rfl⟩ ?_ (hself.symm ▸ h.inv.begun hns) (fun _ => hset)
  intro u _
  by_cases hut : u = t
  · exact Or.inr ⟨by rw [hut]; exact upd_self _ _ _, by rw [hut]; exact ht⟩
  · exact Or.inl (upd_ne _ _ hut)

/-- The thread had no address space; from now on its page table is in the machine. -/
theorem kept_execute (h : Kept s g) (hm : s.mode = .running) (sp : Space)
    (hI : Inv (s.execute sp)) : Kept (s.execute sp) g := by
  have hns : s.mode ≠ .switched := by rw [hm]; simp
  have hpt : ∀ t, t ≠ s.stack → (s.execute sp).point t = s.point t ∧
      (s.execute sp).space t = s.space t := fun t hts => ⟨upd_ne _ _ hts, upd_ne _ _ hts⟩
  refine ⟨hI, ?_, ?_, ?_⟩
  · intro _ sp' he
    have he' : upd s.space s.stack (some sp) s.stack = some sp' := he
    rw [upd_self] at he'
    cases he'
    exact ⟨rfl, rfl, fun hne => absurd (upd_self _ _ _) hne⟩
  · intro t sp' he hw hor
    have hts : t ≠ s.stack := hor.resolve_right hns
    rw [(hpt t hts).2] at he
    rw [(hpt t hts).1] at hw
    exact h.saved t sp' he hw (Or.inl hts)
  · intro t ht
    by_cases hts : t = s.stack
    · rw [hts] at ht
      simp [Sched.execute] at ht
    · rw [(hpt t hts).1] at ht
      rw [(hpt t hts).2]
      exact h.fresh t ht

theorem kept_codeStep (h : Kept s g) {user : Bool} (hm : s.mode = .running)
    (hp : s.point s.stack = .code user) (c : SchedCall) (hs : CodeStep s user s') :
    Kept s' (noteSwitch s c s' g) := by
  have hns : s.mode ≠ .switched := by rw [hm]; simp
  have hI := inv_codeStep h.inv hm hp hs
  have hkernel : user = false → (s.space s.stack).isSome = true → Settled s.machine.registers := by
    intro hu
    exact h.settled hns (by rw [hp, hu]; simp)
  cases hs with
  | oneTick fired => exact kept_oneTick h hm hp fired c
  | raise bad =>
      -- the machine finishes the load before it enters the kernel
      refine Kept.noted ?_ (by exact hns) c
      exact h.own hm hI (p := .code false) hns rfl rfl rfl ⟨rfl, rfl⟩ rfl (by simp)
        (fun _ _ => Processor.settled_delayedLoad _)
  | instruction r hu =>
      -- a load may be left pending, but not for the kernel to see
      refine Kept.noted ?_ (by exact hns) c
      exact h.stay hns hI hns rfl rfl rfl ⟨rfl, rfl⟩ (fun _ _ => Or.inl rfl) (h.inv.begun hns)
        (fun hne _ => absurd (by rw [hu] at hp; exact hp) hne)
  | fork t ht hu => exact Kept.noted (kept_fork h hm hp ht hI (hkernel hu)) (by exact hns) c
  | yield hu =>
      -- the record is written exactly when the CPU is given away
      obtain ⟨hmach, hky⟩ := kept_yield h hm hp (hkernel hu) false
      rcases hmach with he | ⟨he, hme⟩
      · rw [he, noteSwitch_same (Or.inr hns)]
        exact h
      · rw [noteSwitch_eq h.inv hns he, hme]
        rw [if_pos he] at hky
        exact hky
  | P k hu =>
      refine Kept.noted ?_ (by exact hns) c
      exact h.own hm hI (p := .inP k s.level) hns rfl rfl rfl ⟨rfl, rfl⟩ rfl (by simp)
        (fun _ => hkernel hu)
  | V k hu =>
      obtain ⟨_, g2, _, _, g5, g6, g7, g8, g9⟩ := semV_frame { s with level := .intOff } k
      refine Kept.noted ?_ (by simp only [callV, g6]; exact hns) c
      refine h.stay hns hI (by simp only [callV, g6]; exact hns) g2 g9 g8 ?_ ?_ ?_ ?_
      · simp only [callV, g7, and_self]
      · intro t _
        simp only [callV, g5, true_or]
      · simp only [callV, g5]
        exact h.inv.begun hns
      · simp only [callV, g7]
        exact fun _ => hkernel hu
  | finish hu =>
      refine Kept.noted ?_ (by simp [Sched.finish, sleep]) c
      exact h.own hm hI (p := .finishing) (by simp [Sched.finish, sleep]) rfl rfl rfl ⟨rfl, rfl⟩ rfl
        (by simp) (fun _ => hkernel hu)
  | setLevel now hu =>
      refine Kept.noted ?_ (by exact hns) c
      exact h.stay hns hI hns rfl rfl rfl ⟨rfl, rfl⟩ (fun _ _ => Or.inl rfl) (h.inv.begun hns)
        (fun _ => hkernel hu)
  | userMode _ hu =>
      refine Kept.noted ?_ (by exact hns) c
      exact h.own hm hI (p := .code true) hns rfl rfl rfl ⟨rfl, rfl⟩ rfl (by simp)
        (fun hne _ => absurd rfl hne)
  | writeRegister num value hk hu =>
      -- the kernel does not write the two registers of the pending load
      refine Kept.noted ?_ (by exact hns) c
      exact h.stay hns hI hns rfl rfl rfl ⟨rfl, rfl⟩ (fun _ _ => Or.inl rfl) (h.inv.begun hns)
        (fun _ hsp => Processor.settled_writeRegister (hkernel hu hsp) hk value)
  | execute sp hnone hu => exact Kept.noted (kept_execute h hm sp hI) (by exact hns) c

theorem kept_pass (h : Kept s g) (hm : s.mode = .running) {k : Nat} {old : IntStatus}
    (hp : s.point s.stack = .inP k old) (c : SchedCall) :
    Kept (s.pass k old) (noteSwitch s c (s.pass k old) g) := by
  have hns : s.mode ≠ .switched := by rw [hm]; simp
  have hI := inv_pass h.inv hm hp
  have hset := h.settled hns (by rw [hp]; simp)
  by_cases hz : (s.sem k).value = 0
  · rw [pass_zero h.inv hm hp hz] at hI ⊢
    refine Kept.noted ?_ (by simp) c
    exact h.own hm hI (p := .asleep k old) (by simp) rfl rfl rfl ⟨rfl, rfl⟩ rfl (by simp)
      (fun _ => hset)
  · rw [pass_pos hz] at hI ⊢
    refine Kept.noted ?_ (by exact hns) c
    exact h.own hm hI (p := .code false) hns rfl rfl rfl ⟨rfl, rfl⟩ rfl (by simp) (fun _ => hset)

theorem kept_findNext (h : Kept s g) (hm : s.mode = .idling) (hs : s.findNext = some s')
    (c : SchedCall) : Kept s' (noteSwitch s c s' g) := by
  have hns : s.mode ≠ .switched := by rw [hm]; simp
  have hI := inv_findNext h.inv hm hs
  have hset := h.settled hns (by
    rcases (h.inv.idling (Or.inl hm)).2 with hp | ⟨_, _, hp⟩ <;> rw [hp] <;> simp)
  obtain ⟨next, rest, _, ⟨_, rfl⟩ | ⟨⟨k, old, ha⟩, rfl⟩⟩ := findNext_cases h.inv hm hs
  · rw [noteSwitch_eq h.inv hns rfl]
    exact h.switch hns hI rfl rfl rfl (fun t hts => upd_ne _ _ hts) (by simp) hset
  · rw [noteSwitch_eq h.inv hns rfl]
    exact h.switch hns hI rfl rfl rfl (fun _ _ => rfl) (by simp [ha]) hset

/-- What `RestoreUserState` and `RestoreState` put into the machine. -/
theorem restoreUserState_some {t : Nat} {sp : Space} (hsp : s.space t = some sp) :
    (∀ i, i < numTotalRegs →
        (s.restoreUserState t).machine.registers i = s.userRegisters t i) ∧
      (s.restoreUserState t).machine.pageTable = some sp.pageTable ∧
      (s.restoreUserState t).machine.pageTableSize = sp.numPages := by
  unfold restoreUserState
  rw [hsp]
  refine ⟨?_, rfl, rfl⟩
  intro i hi
  show (if i < numTotalRegs then s.userRegisters t i else s.machine.registers i) = _
  rw [if_pos hi]

theorem settled_congr {r r' : Nat → BitVec 32} (h : ∀ i, i < numTotalRegs → r i = r' i)
    (hr : Settled r') : Settled r :=
  ⟨(h loadReg (by decide)).trans hr.1, (h loadValueReg (by decide)).trans hr.2⟩

/-- The thread that was switched to finds what it left. -/
theorem kept_resume (h : Kept s g) (hm : s.mode = .switched) (hs : s.resume = some s') :
    Kept s' g := by
  have hI := inv_resume h.inv hm hs
  -- nobody else moves, except that the finished thread is gone for good
  have hother : ∀ {p : ThreadPoint} {q : ThreadPoint → Prop}, (q .destroyed → False) →
      ∀ t, t ≠ s.stack → q (upd s.swept s.stack p t) → q (s.point t) := by
    intro p q hq t hts hqt
    rw [upd_ne _ _ hts, swept] at hqt
    split at hqt
    · exact absurd hqt (fun hd => hq hd)
    · exact hqt
  have hrest : ∀ (p : ThreadPoint) (hp : p ≠ .begin ∧ p ≠ .justCreated),
      (∀ t sp, s.space t = some sp → (upd s.swept s.stack p t).waits = true → t ≠ s.stack →
        SavedAs s g t sp) ∧
      (∀ t, upd s.swept s.stack p t = .begin ∨ upd s.swept s.stack p t = .justCreated →
        s.space t = none) := by
    intro p hp
    refine ⟨?_, ?_⟩
    · intro t sp he hw hts
      have hw' : (s.point t).waits = true :=
        hother (q := fun x => x.waits = true) (by simp [ThreadPoint.waits]) t hts hw
      exact h.saved t sp he hw' (Or.inl hts)
    · intro t ht
      by_cases hts : t = s.stack
      · rw [hts, upd_self] at ht
        exact absurd ht (not_or.mpr hp)
      · exact h.fresh t
          (hother (q := fun x => x = .begin ∨ x = .justCreated) (by simp) t hts ht)
  rcases resume_cases h.inv hm hs with ⟨hb, rfl⟩ | ⟨p, hp, he⟩
  · obtain ⟨h1, h2⟩ := hrest (.code false) (by simp)
    refine ⟨hI, ?_, fun t sp he hw hor => h1 t sp he hw (hor.resolve_right (by simp)), h2⟩
    intro _ sp hsp
    rw [show s.space s.stack = none from h.fresh _ (Or.inl hb)] at hsp
    exact absurd hsp (by simp)
  · have hpn : p ≠ .begin ∧ p ≠ .justCreated := by
      rcases hp with ⟨_, _, _, rfl⟩ | ⟨_, _, _, rfl, _⟩ <;> simp
    obtain ⟨h1, h2⟩ := hrest p hpn
    rw [he] at hI ⊢
    refine ⟨hI, ?_, fun t sp he hw hor => h1 t sp he hw (hor.resolve_right (by simp)), h2⟩
    intro _ sp hsp
    have hsp' : s.space s.stack = some sp := hsp
    obtain ⟨r1, r2, r3⟩ := restoreUserState_some hsp'
    obtain ⟨m, _, hm2, _, _, hset⟩ :=
      h.saved s.stack sp hsp' (h.inv.switched hm).2.1 (Or.inr hm)
    refine ⟨r2, r3, fun _ => ?_⟩
    exact settled_congr (fun i hi => (r1 i hi).trans (hm2 i hi)) hset

/-- **Every step keeps what was saved.** -/
theorem kept_step (h : Kept s g) {c : SchedCall} (hs : s.step c = some s') :
    Kept s' (noteSwitch s c s' g) := by
  unfold step at hs
  cases hm : s.mode with
  | running =>
      simp only [hm] at hs
      split at hs
      · rename_i user hp
        exact kept_codeStep h hm hp _ (codeStep_cases hs)
      · rename_i k old hp
        exact Option.some.inj hs ▸ kept_pass h hm hp _
      · exact absurd hs (by simp)
  | idling =>
      have hns : s.mode ≠ .switched := by rw [hm]; simp
      obtain ⟨hl, hp⟩ := h.inv.idling (Or.inl hm)
      simp only [hm] at hs
      split at hs
      · exact kept_findNext h hm hs _
      · simp only [Option.ite_none_right_eq_some, Option.some.injEq] at hs
        obtain ⟨_, rfl⟩ := hs
        obtain ⟨hk, _, k1, _⟩ := kept_handlers h hl hns _
        exact hk.noted (by rw [k1]; exact hns) _
      · have hI : Inv s' := inv_step (c := .halt) h.inv (by unfold step; simp only [hm]; exact hs)
        simp only [Option.ite_none_right_eq_some, Option.some.injEq] at hs
        obtain ⟨_, rfl⟩ := hs
        refine Kept.noted ?_ (by simp) _
        exact h.stay hns hI (by simp) rfl rfl rfl ⟨rfl, rfl⟩ (fun _ _ => Or.inl rfl)
          (h.inv.begun hns) (h.settled hns)
      · exact absurd hs (by simp)
  | switched =>
      simp only [hm] at hs
      split at hs
      · rw [noteSwitch_same (Or.inl hm)]
        exact kept_resume h hm hs
      · exact absurd hs (by simp)
  | halted => simp [hm] at hs

end Steps

theorem kept_reachable {p : Sched × SwitchLog} (h : switches.Reachable p) : Kept p.1 p.2 := by
  refine h.invariant (I := fun p => Kept p.1 p.2) ?_ ?_
  · rintro ⟨s, g⟩ ⟨hs, hg⟩
    simp only at hs hg
    rw [hg]
    exact kept_boot hs
  · intro p c q _ hk _ hs
    obtain ⟨hst, hq⟩ := Base.System.record_step hs
    rw [hq]
    exact kept_step hk hst

/--
**Context switches are transparent.**

Whatever was run in between, a thread with an address space that comes back from `Run`
finds the forty registers, the page table and its size as they were in the machine when
it last gave the CPU away, and its saved registers have no load pending.
-/
theorem resume_restores (p q : Sched × SwitchLog) (h : switches.Reachable p)
    (hs : switches.step p .resume = some q)
    (hsp : (p.1.space p.1.currentThread).isSome = true) :
    ∃ m, p.2 p.1.currentThread = some m ∧
      (∀ i, i < numTotalRegs → q.1.machine.registers i = m.registers i) ∧
      q.1.machine.pageTable = m.pageTable ∧ q.1.machine.pageTableSize = m.pageTableSize ∧
      Settled (p.1.userRegisters p.1.currentThread) := by
  have hk := kept_reachable h
  obtain ⟨s, g⟩ := p
  obtain ⟨hst, _⟩ := Base.System.record_step hs
  simp only at hk hst hsp ⊢
  rw [← hk.inv.stack] at hsp ⊢
  obtain ⟨sp, hspace⟩ := Option.isSome_iff_exists.mp hsp
  have hst' : step s .resume = some q.1 := hst
  have hm : s.mode = .switched := by
    cases hmode : s.mode with
    | switched => rfl
    | running =>
        unfold step at hst'
        simp only [hmode] at hst'
        split at hst'
        · simp [codeStep] at hst'
        · rename_i hc; exact absurd hc (by simp)
        · exact absurd hst' (by simp)
    | idling => simp [step, hmode] at hst'
    | halted => simp [step, hmode] at hst'
  simp only [step, hm] at hst'
  obtain ⟨m, hg, hregs, hpt, hsize, hset⟩ :=
    hk.saved s.stack sp hspace (hk.inv.switched hm).2.1 (Or.inr hm)
  obtain ⟨r1, r2, r3⟩ := restoreUserState_some hspace
  refine ⟨m, hg, ?_⟩
  rcases resume_cases hk.inv hm hst' with ⟨hb, _⟩ | ⟨pt, _, he⟩
  · rw [hk.fresh _ (Or.inl hb)] at hspace
    exact absurd hspace (by simp)
  · rw [he]
    exact ⟨fun i hi => (r1 i hi).trans (hregs i hi), r2.trans hpt.symm, r3.trans hsize.symm,
      settled_congr hregs hset⟩

theorem switches_init : switches.init (boot, fun _ => none) := ⟨boot_init, rfl⟩

/-- A user program is preempted with a load of 5 into register 8 pending, another one runs and
leaves 9 in that register, and the first one comes back: its register 8 is 5. -/
theorem resume_restores_preempted :
    ∃ p q, switches.Reachable p ∧ switches.step p .resume = some q ∧
      q.1.machine.registers 8 = 5#32 ∧ q.1.machine.pageTable = some 100 ∧
      ∃ m, p.2 p.1.currentThread = some m ∧
        (∀ i, i < numTotalRegs → q.1.machine.registers i = m.registers i) ∧
        q.1.machine.pageTable = m.pageTable ∧ q.1.machine.pageTableSize = m.pageTableSize ∧
        Settled (p.1.userRegisters p.1.currentThread) := by
  have hrun : ∃ p q, switches.run (boot, fun _ => none)
      [.fork 1, .execute ⟨100, 3⟩,
        .instruction (fun i =>
          if i = loadReg then 8#32 else if i = loadValueReg then 5#32 else 7#32),
        .oneTick (some ([], true)), .resume, .execute ⟨200, 4⟩, .instruction (fun _ => 9#32),
        .oneTick (some ([], true))] = some p ∧
      switches.step p .resume = some q ∧ (p.1.space p.1.currentThread).isSome = true ∧
      q.1.machine.registers 8 = 5#32 ∧ q.1.machine.pageTable = some 100 :=
    ⟨_, _, rfl, rfl, by decide, by decide, by decide⟩
  obtain ⟨p, q, hp, hq, hsp, h8, hpt⟩ := hrun
  have hr := Base.System.Reachable.of_run switches_init hp
  exact ⟨p, q, hr, hq, h8, hpt, resume_restores p q hr hq hsp⟩

end Sched

end Nachos
