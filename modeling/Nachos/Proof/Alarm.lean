import Nachos.Threads.Alarm
import Nachos.Proof.Interrupts
import Nachos.Proof.Threads

/-!
# No thread waits for ever

The timer has always one interrupt pending, except inside its own callback, and that one is
never further off than one period. When it is called back in a tick, the running thread
yields, and every other thread on the ready list moves up by one place. So a place on the
list costs one period, and the few ticks by which a tick of system code overshoots.

That the machine never halts by itself is the other side of it: `Idle` always finds the
interrupt of the timer.
-/

namespace Nachos

/-- An interrupt of the timer. -/
def PendingInterrupt.isTimer (p : PendingInterrupt) : Bool := p.callOnInterrupt == timerObject

theorem PendingInterrupt.isTimer_iff {p : PendingInterrupt} :
    p.isTimer = true ↔ p.callOnInterrupt = timerObject := beq_iff_eq

namespace Interrupt

/-! ## Through `CheckIfDue` -/

/-- How `CheckIfDue(advanceClock)` is left, or where it has got to. -/
structure Lands (s s' : Interrupt) (advanceClock : Bool) : Prop where
  /-- In a callback nothing but the list and the clock has changed. -/
  inside : ∀ p a, s'.phase = .callBack p a →
    a = advanceClock ∧ s'.status = s.status ∧ s'.yieldOnReturn = s.yieldOnReturn
  /-- A wish to yield is granted by `OneTick`, and kept by `Idle`. -/
  outside : s'.phase = .outside → s'.yieldOnReturn = (advanceClock && s.yieldOnReturn) ∧
    (s'.status = .systemMode ∨ s'.status = s.status ∧ advanceClock = false)
  /-- The machine halts when nothing is pending. -/
  halted : s'.phase = .halted → s.pending = []

theorem lands_afterCheck (s : Interrupt) (b : Bool) {adv fired : Bool}
    (h : adv = true → fired = false → s.pending = []) :
    Lands s (afterCheck { s with inHandler := b } adv fired) adv := by
  unfold afterCheck
  cases adv with
  | true =>
      cases fired with
      | true => exact ⟨by simp, fun _ => ⟨by simp, Or.inl rfl⟩, by simp⟩
      | false => exact ⟨by simp, by simp, fun _ => h rfl rfl⟩
  | false =>
      cases hy : s.yieldOnReturn with
      | true => exact ⟨by simp [hy], fun _ => by simp, by simp⟩
      | false => exact ⟨by simp [hy], fun _ => by simp, by simp⟩

theorem lands_callNext {s : Interrupt} {p : PendingInterrupt} {ps : List PendingInterrupt}
    (hp : s.pending = p :: ps) (adv : Bool) : Lands s (s.callNext adv) adv := by
  unfold callNext
  rw [hp]
  refine ⟨?_, by simp, by simp⟩
  intro q a hq
  simp only [IntPhase.callBack.injEq] at hq
  exact ⟨hq.2.symm, rfl, rfl⟩

theorem lands_checkIfDue (s : Interrupt) (adv : Bool) : Lands s (s.checkIfDue adv) adv := by
  unfold checkIfDue
  split
  · rename_i hp
    exact lands_afterCheck s s.inHandler fun _ _ => hp
  · rename_i p ps hp
    split
    · split
      · rename_i hadv
        refine lands_afterCheck s s.inHandler ?_
        intro he
        rw [he] at hadv
        exact absurd hadv (by simp)
      · obtain ⟨h1, h2, h3⟩ :=
          lands_callNext (s := { s.advanceTo p.when with inHandler := true }) hp adv
        exact ⟨h1, h2, fun hh => h3 hh⟩
    · obtain ⟨h1, h2, h3⟩ := lands_callNext (s := { s with inHandler := true }) hp adv
      exact ⟨h1, h2, h3⟩

theorem lands_loop (s : Interrupt) (adv : Bool) : Lands s (s.loop adv) adv := by
  unfold loop
  split
  · exact lands_afterCheck s false fun _ he => absurd he (by simp)
  · rename_i p ps hp
    split
    · exact lands_callNext hp adv
    · exact lands_afterCheck s false fun _ he => absurd he (by simp)

/-- The clock stands still in the loop. -/
theorem loop_stats (s : Interrupt) (adv : Bool) : (s.loop adv).stats = s.stats := by
  unfold loop afterCheck callNext
  repeat' split
  all_goals rfl

theorem checkIfDue_stats (s : Interrupt) : (s.checkIfDue false).stats = s.stats := by
  unfold checkIfDue afterCheck callNext
  repeat' split
  all_goals first | rfl | contradiction

/-- A tick is about the clock. -/
theorem tick_frame (s : Interrupt) : s.tick.pending = s.pending ∧ s.tick.status = s.status := by
  unfold tick
  split <;> exact ⟨rfl, rfl⟩

/-- The loop only takes interrupts off the list. -/
theorem Entered.subset {s s' : Interrupt} (h : Entered s s') : ∀ q ∈ s'.pending, q ∈ s.pending := by
  intro q hq
  cases h with
  | left hp _ _ _ _ => exact hp ▸ hq
  | called p adv hp _ _ _ => rw [hp]; exact List.mem_cons_of_mem p hq

/-- The callback of the timer is running. -/
def inTimer (s : Interrupt) : Bool :=
  match s.phase with
  | .callBack p _ => p.isTimer
  | _ => false

/-- How many interrupts of the timer are pending. -/
def timers (s : Interrupt) : Nat := s.pending.countP PendingInterrupt.isTimer

/-- **The timer's interrupt is pending until it is called back.** -/
theorem Entered.timers {s s' : Interrupt} (h : Entered s s') (hone : s.timers = 1) :
    s'.timers = if s'.inTimer then 0 else 1 := by
  cases h with
  | left hp _ _ hph _ =>
      have hin : s'.inTimer = false := by
        unfold inTimer
        split
        · rename_i p a hpa; exact absurd hpa (hph p a)
        · rfl
      rw [hin, Interrupt.timers, hp]
      exact hone
  | called p adv hp _ hph _ =>
      have hin : s'.inTimer = p.isTimer := by rw [inTimer, hph]
      rw [Interrupt.timers, hp, List.countP_cons] at hone
      rw [hin, Interrupt.timers]
      cases hpt : p.isTimer with
      | true => simpa [hpt] using hone
      | false => simpa [hpt] using hone

/-- What `Schedule` puts on the list. -/
theorem Inv.scheduled {s s' : Interrupt} {h : IntLog} (hI : Inv s h) {toCall : Nat} {fromNow : Int}
    {type : IntType} (hfit : s.stats.totalTicks + fromNow ≤ intMax)
    (hs : s.schedule toCall fromNow type = some s') : 0 < fromNow ∧ s' = { s with
      pending := SortedList.insert pendingCompare
        ⟨toCall, s.stats.totalTicks + fromNow, type, s.allocated⟩ s.pending
      allocated := s.allocated + 1 } := by
  unfold schedule at hs
  split at hs
  · rename_i hpos
    rw [hI.core.when_eq hpos hfit] at hs
    exact ⟨hpos, (Option.some.inj hs).symm⟩
  · exact absurd hs (by simp)

theorem countP_insert (f : PendingInterrupt → Bool) (q : PendingInterrupt)
    (l : List PendingInterrupt) :
    (SortedList.insert pendingCompare q l).countP f = l.countP f + if f q then 1 else 0 := by
  rw [(SortedList.insert_perm _ q l).countP_eq, List.countP_cons]

theorem mem_insert {q x : PendingInterrupt} {l : List PendingInterrupt} :
    x ∈ SortedList.insert pendingCompare q l ↔ x = q ∨ x ∈ l := by
  rw [(SortedList.insert_perm _ q l).mem_iff, List.mem_cons]

end Interrupt

namespace Timer

/-! ## The timer -/

theorem period_pos (t : Timer) : 0 < t.period := by
  unfold period timerTicks
  split <;> omega

theorem period_le (t : Timer) : t.period ≤ timerTicks * 2 := by
  unfold period timerTicks
  split <;> omega

/-- The delay is random or not, and never longer than a period. -/
theorem delay_bounds (t : Timer) (r : Nat) : 0 < t.delay r ∧ t.delay r ≤ t.period := by
  unfold delay period timerTicks
  split <;> omega

/-- No interrupt of the timer is further off than a period. -/
def Soon (t : Timer) : Prop :=
  ∀ q ∈ t.interrupt.pending, q.isTimer = true → q.when ≤ t.interrupt.stats.totalTicks + t.period

/-- What holds when `CheckIfDue` looks at the list. -/
structure Armed (t : Timer) : Prop where
  enabled : t.disable = false
  core : ∃ h, Interrupt.Core t.interrupt.pending t.interrupt.stats t.interrupt.allocated h
  one : t.interrupt.timers = 1
  soon : t.Soon

/-- What holds at every moment. -/
structure Inv (t : Timer) : Prop where
  enabled : t.disable = false
  hw : ∃ h, t.interrupt.Inv h
  /-- The machine is idle in `Idle` only. -/
  idle : ∀ p a, t.interrupt.phase = .callBack p a → (t.interrupt.status = .idleMode ↔ a = true)
  busy : t.interrupt.phase = .outside → t.interrupt.status ≠ .idleMode
  alive : t.interrupt.phase ≠ .halted
  /-- Only a callback in a tick wants a switch. -/
  quiet : (∀ p, t.interrupt.phase ≠ .callBack p false) → t.interrupt.yieldOnReturn = false
  timers : t.interrupt.timers = if t.interrupt.inTimer then 0 else 1
  soon : t.Soon

variable {t : Timer}

theorem Inv.armed (h : Inv t) (hin : t.interrupt.inTimer = false) : Armed t where
  enabled := h.enabled
  core := by
    obtain ⟨log, hI⟩ := h.hw
    exact ⟨log, hI.core⟩
  one := by rw [h.timers, hin]; rfl
  soon := h.soon

theorem Inv.outside (h : Inv t) (ho : t.interrupt.phase = .outside) : Armed t :=
  h.armed (by rw [Interrupt.inTimer, ho])

theorem Inv.quiet_outside (h : Inv t) (ho : t.interrupt.phase = .outside) :
    t.interrupt.yieldOnReturn = false := by
  refine h.quiet fun p hp => ?_
  rw [ho] at hp
  exact absurd hp (by simp)

/-- Wherever `CheckIfDue` has got to, the timer is as it should be, and the machine goes on. -/
theorem Armed.enter (h : Armed t) {i : Interrupt} {adv : Bool}
    (he : Interrupt.Entered t.interrupt i)
    (hl : Interrupt.Lands t.interrupt i adv) (hst : t.interrupt.status = .idleMode ↔ adv = true)
    (hy : adv = true → t.interrupt.yieldOnReturn = false) : Inv { t with interrupt := i } := by
  obtain ⟨log, hc⟩ := h.core
  obtain ⟨hI, hle⟩ := he.inv hc
  refine ⟨h.enabled, ⟨_, hI⟩, ?_, ?_, ?_, ?_, he.timers h.one, ?_⟩
  · intro p a hp
    obtain ⟨ha, hs, _⟩ := hl.inside p a hp
    rw [hs, ha]
    exact hst
  · intro ho
    rcases (hl.outside ho).2 with hs | ⟨hs, ha⟩
    · rw [hs]; simp
    · intro hidle
      rw [hs] at hidle
      rw [ha] at hst
      exact absurd (hst.mp hidle) (by simp)
  · -- the interrupt of the timer is pending
    intro hh
    have hone := h.one
    rw [Interrupt.timers, hl.halted hh] at hone
    simp at hone
  · intro hno
    show i.yieldOnReturn = false
    cases hp : i.phase with
    | outside =>
        rw [(hl.outside hp).1]
        cases adv with
        | true => exact hy rfl
        | false => rfl
    | callBack p a =>
        obtain ⟨ha, _, hyy⟩ := hl.inside p a hp
        cases a with
        | true => rw [hyy]; exact hy ha.symm
        | false => exact absurd hp (hno p)
    | halted =>
        have hone := h.one
        rw [Interrupt.timers, hl.halted hp] at hone
        simp at hone
  · intro q hq ht
    have hs := h.soon q (he.subset q hq) ht
    show q.when ≤ i.stats.totalTicks + t.period
    omega

theorem Inv.changeLevel (h : Inv t) (now : IntStatus) : Inv (t.changeLevel now) := by
  obtain ⟨log, hI⟩ := h.hw
  exact ⟨h.enabled, ⟨log, hI.core, hI.drained⟩, h.idle, h.busy, h.alive, h.quiet, h.timers, h.soon⟩

/-- Another device asks for an interrupt. -/
theorem Inv.schedule (h : Inv t) {toCall : Nat} {fromNow : Int} {type : IntType} {i : Interrupt}
    (hne : toCall ≠ timerObject) (hfit : t.interrupt.stats.totalTicks + fromNow ≤ intMax)
    (hs : t.interrupt.schedule toCall fromNow type = some i) : Inv { t with interrupt := i } := by
  obtain ⟨log, hI⟩ := h.hw
  obtain ⟨hI', _, _⟩ := Interrupt.schedule_inv hI hfit hs
  obtain ⟨_, rfl⟩ := hI.scheduled hfit hs
  have hno : PendingInterrupt.isTimer
      ⟨toCall, t.interrupt.stats.totalTicks + fromNow, type, t.interrupt.allocated⟩ = false := by
    simpa [PendingInterrupt.isTimer] using hne
  refine ⟨h.enabled, ⟨_, hI'⟩, h.idle, h.busy, h.alive, h.quiet, ?_, ?_⟩
  · rw [Interrupt.timers, Interrupt.countP_insert, hno]
    exact h.timers
  · intro q hq ht
    rcases Interrupt.mem_insert.mp hq with rfl | hq
    · rw [hno] at ht
      exact absurd ht (by simp)
    · exact h.soon q hq ht

theorem Inv.setStatus (h : Inv t) (ho : t.interrupt.phase = .outside) {st : MachineStatus}
    (hne : st ≠ .idleMode) : Inv { t with interrupt.status := st } := by
  obtain ⟨log, hI⟩ := h.hw
  refine ⟨h.enabled, ⟨log, hI.core, hI.drained⟩, ?_,
    fun _ => hne, h.alive, h.quiet, h.timers, h.soon⟩
  intro p a hp
  have hp' : t.interrupt.phase = .callBack p a := hp
  rw [ho] at hp'
  exact absurd hp' (by simp)

/-- `OneTick`: the clock moves on by one or by ten, and no further. -/
theorem Inv.oneTick (h : Inv t) (ho : t.interrupt.phase = .outside)
    (hfit : t.interrupt.stats.totalTicks + timerTicks * 2 ≤ intMax) :
    Inv { t with interrupt := t.interrupt.oneTick } := by
  obtain ⟨log, hI⟩ := h.hw
  have htick : t.interrupt.stats.totalTicks + t.interrupt.tickOf ≤ intMax := by
    unfold Interrupt.tickOf systemTick userTick
    unfold timerTicks at hfit
    split <;> omega
  obtain ⟨hc, hle⟩ := Interrupt.tick_core hI.core htick
  have harm := h.outside ho
  obtain ⟨hpend, hst⟩ := t.interrupt.tick_frame
  have harm' : Armed { t with interrupt := { t.interrupt.tick with level := .intOff } } := by
    refine ⟨h.enabled, ⟨log, hc⟩, ?_, ?_⟩
    · rw [Interrupt.timers, hpend]
      exact harm.one
    · intro q hq ht
      have hs := h.soon q (by rw [← hpend]; exact hq) ht
      show q.when ≤ t.interrupt.tick.stats.totalTicks + t.period
      omega
  refine harm'.enter (Interrupt.checkIfDue_entered _ false) (Interrupt.lands_checkIfDue _ false)
    ?_ (by simp)
  show t.interrupt.tick.status = .idleMode ↔ _
  rw [hst]
  exact ⟨fun he => absurd he (h.busy ho), fun he => absurd he (by simp)⟩

/-- `Idle`: the clock jumps to the first interrupt. -/
theorem Inv.goIdle (h : Inv t) (ho : t.interrupt.phase = .outside) {i : Interrupt}
    (hs : t.interrupt.idle = some i) : Inv { t with interrupt := i } := by
  unfold Interrupt.idle at hs
  split at hs
  · have harm := h.outside ho
    have harm' : Armed { t with interrupt := { t.interrupt with status := .idleMode } } :=
      ⟨harm.enabled, harm.core, harm.one, harm.soon⟩
    rw [← Option.some.inj hs]
    exact harm'.enter (Interrupt.checkIfDue_entered _ true) (Interrupt.lands_checkIfDue _ true)
      ⟨fun _ => rfl, fun _ => rfl⟩ fun _ => h.quiet_outside ho
  · exact absurd hs (by simp)

/-- `SetInterrupt`, when no interrupt of the timer is pending. -/
theorem setInterrupt_cases {log : IntLog} (hI : t.interrupt.Inv log) (hd : t.disable = false)
    (hzero : t.interrupt.timers = 0) (hsoon : t.Soon)
    (hfit : t.interrupt.stats.totalTicks + timerTicks * 2 ≤ intMax) {r : Nat} {t' : Timer}
    (hs : t.setInterrupt r = some t') : ∃ pending log',
      t' = { t with interrupt := { t.interrupt with
        pending := pending, allocated := t.interrupt.allocated + 1 } } ∧
      t'.interrupt.Inv log' ∧ Armed t' := by
  obtain ⟨hd0, hd1⟩ := t.delay_bounds r
  have hper := t.period_le
  have hfit' : t.interrupt.stats.totalTicks + t.delay r ≤ intMax := by omega
  unfold setInterrupt at hs
  rw [if_pos (by simp [hd])] at hs
  obtain ⟨i, hi, rfl⟩ := Option.map_eq_some_iff.mp hs
  obtain ⟨hI', _, _⟩ := Interrupt.schedule_inv hI hfit' hi
  obtain ⟨_, rfl⟩ := hI.scheduled hfit' hi
  refine ⟨_, _, rfl, hI', hd, ⟨_, hI'.core⟩, ?_, ?_⟩
  · have hnone : t.interrupt.pending.countP PendingInterrupt.isTimer = 0 := hzero
    rw [Interrupt.timers, Interrupt.countP_insert, hnone]
    rfl
  · intro q hq ht
    rcases Interrupt.mem_insert.mp hq with rfl | hq
    · show t.interrupt.stats.totalTicks + t.delay r ≤ t.interrupt.stats.totalTicks + t.period
      omega
    · exact hsoon q hq ht

/-- What the callback of the timer leaves: the next interrupt, and a wish to yield if the
machine was not idle. -/
theorem Inv.callBack (h : Inv t) {p : PendingInterrupt} {a : Bool}
    (hp : t.interrupt.phase = .callBack p a) (hpt : p.isTimer = true) {r : Nat}
    (hfit : t.interrupt.stats.totalTicks + timerTicks * 2 ≤ intMax) {t' : Timer}
    (hs : t.callBack r = some t') : Armed t' ∧ t'.period = t.period ∧
      t'.interrupt.phase = .callBack p a ∧ t'.interrupt.status = t.interrupt.status ∧
      t'.interrupt.yieldOnReturn = !a ∧ t'.interrupt.stats = t.interrupt.stats := by
  obtain ⟨t₁, h₁, hset⟩ := Option.bind_eq_some_iff.mp hs
  obtain ⟨log, hI⟩ := h.hw
  have hzero : t.interrupt.timers = 0 := by rw [h.timers, Interrupt.inTimer, hp]; simp [hpt]
  -- the alarm
  have hal : t₁ = { t with interrupt.yieldOnReturn := !a } := by
    unfold alarm at h₁
    cases a with
    | true =>
        have hq : t.interrupt.yieldOnReturn = false := h.quiet (by rw [hp]; simp)
        rw [if_neg (by rw [(h.idle p true hp).mpr rfl]; simp)] at h₁
        rw [← Option.some.inj h₁, Bool.not_true, ← hq]
    | false =>
        have hst : t.interrupt.status ≠ .idleMode := fun e =>
          absurd ((h.idle p false hp).mp e) (by simp)
        rw [if_pos hst] at h₁
        simp only [Interrupt.step, hp, Option.map_some, Option.some.injEq] at h₁
        rw [← h₁, ← hp]
        rfl
  subst hal
  have hI₁ : Interrupt.Inv { t.interrupt with yieldOnReturn := !a } log := ⟨hI.core, hI.drained⟩
  obtain ⟨pending, _, rfl, _, harm⟩ := setInterrupt_cases
    (t := { t with interrupt.yieldOnReturn := !a }) hI₁ h.enabled hzero h.soon hfit hset
  exact ⟨harm, rfl, hp, rfl, rfl, rfl⟩

/-- The timer as it starts. -/
theorem inv_new {doRandom : Bool} {r : Nat} (hs : Timer.new doRandom r = some t) :
    Inv t ∧ t.interrupt.phase = .outside := by
  have hI : Interrupt.Inv .new .blank :=
    ⟨Interrupt.core_new, fun _ q hq => absurd hq (by simp [Interrupt.new])⟩
  have hsoon : Soon ⟨doRandom, false, .new⟩ := fun q hq => absurd hq (by simp [Interrupt.new])
  have hfit : (0 : Int) + timerTicks * 2 ≤ intMax := by decide
  obtain ⟨pending, log, rfl, hI', harm⟩ := setInterrupt_cases hI rfl rfl hsoon hfit hs
  exact ⟨⟨rfl, ⟨log, hI'⟩, by simp [Interrupt.new], by simp [Interrupt.new],
    by simp [Interrupt.new], fun _ => rfl, harm.one, harm.soon⟩, rfl⟩

end Timer

namespace Sched

/-! ## The ready list -/

variable {s s' : Sched} {t j : Nat}

/-- The thread has just been taken off the ready list and given the CPU. -/
def Chosen (s : Sched) (t : Nat) : Prop := s.currentThread = t ∧ t ∉ s.readyList

theorem place_append {l : List Nat} (ht : l[j]? = some t) (us : List Nat) :
    (l ++ us)[j]? = some t := by
  rw [List.getElem?_append_left (List.getElem?_eq_some_iff.mp ht).1]
  exact ht

theorem semV_ready (s : Sched) (k : Nat) :
    ∃ us : List Nat, (s.semV k).readyList = s.readyList ++ us := by
  cases hq : ((s.sem k).V).2 with
  | none => exact ⟨[], by simp [semV, hq]⟩
  | some u => exact ⟨[u], by simp [semV, hq, readyToRun, assert]⟩

/-- What the handlers wake goes to the end of the list. -/
theorem handlers_ready : ∀ (vs : List Nat) (s : Sched),
    ∃ us : List Nat, (vs.foldl semV s).readyList = s.readyList ++ us := by
  intro vs
  induction vs with
  | nil => intro s; exact ⟨[], (List.append_nil _).symm⟩
  | cons k vs ih =>
      intro s
      obtain ⟨us, hus⟩ := semV_ready s k
      obtain ⟨ws, hws⟩ := ih (s.semV k)
      refine ⟨us ++ ws, ?_⟩
      rw [List.foldl_cons, hws, hus, List.append_assoc]

/-- **Everybody moves up when the running thread yields.** -/
theorem yield_moves (h : Inv s) {user : Bool} (hp : s.point s.stack = .code user) (u : Bool)
    (ht : s.readyList[j]? = some t) :
    Chosen (s.yield u) t ∨ ∃ j', j = j' + 1 ∧ (s.yield u).readyList[j']? = some t := by
  obtain ⟨hnr, _⟩ := h.executing (t := s.stack) (by rw [hp]; rfl)
  cases hr : s.readyList with
  | nil => simp [hr] at ht
  | cons next rest =>
      rw [hr] at ht hnr
      have hrest : s.stack ∉ rest := fun hmem => hnr (List.mem_cons_of_mem next hmem)
      have hnd := h.readyNodup
      rw [hr] at hnd
      rw [yield_cons h hr hrest]
      cases j with
      | zero =>
          have hnt : next = t := by simpa using ht
          subst hnt
          refine Or.inl ⟨rfl, fun hmem => ?_⟩
          rcases List.mem_append.mp hmem with h1 | h1
          · exact (List.nodup_cons.mp hnd).1 h1
          · exact hnr (List.mem_singleton.mp h1 ▸ List.mem_cons_self)
      | succ j => exact Or.inr ⟨j, rfl, place_append (by simpa using ht) _⟩

/-- The callbacks of a tick leave a thread at its place. -/
theorem ticked_place (vs : List Nat) (ht : s.readyList[j]? = some t) :
    (handlers { s with level := .intOff } vs).readyList[j]? = some t := by
  obtain ⟨us, hus⟩ := handlers_ready vs
    { s with level := .intOff, machine := s.machine.delayedLoad 0#32 0#32 }
  rw [handlers, hus]
  exact place_append ht us

/-- A tick in which a callback wants the running thread to yield. -/
theorem tick_moves (h : Inv s) {vs : List Nat} (hs : s.step (.oneTick (some (vs, true))) = some s')
    (ht : s.readyList[j]? = some t) : Chosen s' t ∨
    ∃ j', j = j' + 1 ∧ s'.readyList[j']? = some t := by
  unfold step at hs
  split at hs
  · rename_i hm
    split at hs
    · rename_i user hp
      simp only [codeStep, Option.ite_none_right_eq_some, Option.some.injEq, oneTick, if_true] at hs
      obtain ⟨_, rfl⟩ := hs
      obtain ⟨hon, hpoint⟩ := inv_ticked h hm hp vs
      exact yield_moves hon hpoint user (ticked_place vs ht)
    · rename_i he
      exact absurd he (by simp)
    · simp at hs
  · simp at hs
  · simp at hs
  · simp at hs

theorem codeStep_moves (h : Inv s) {user : Bool} (hm : s.mode = .running)
    (hp : s.point s.stack = .code user) (hs : CodeStep s user s') (ht : s.readyList[j]? = some t) :
    Chosen s' t ∨ ∃ j' ≤ j, s'.readyList[j']? = some t := by
  cases hs with
  | oneTick fired =>
      match fired with
      | none => exact Or.inr ⟨j, le_refl j, ht⟩
      | some (vs, y) =>
          obtain ⟨hon, hpoint⟩ := inv_ticked h hm hp vs
          have ht' := ticked_place vs ht
          simp only [oneTick]
          split
          · rcases yield_moves hon hpoint user ht' with hc | ⟨j', rfl, hj⟩
            · exact Or.inl hc
            · exact Or.inr ⟨j', Nat.le_succ j', hj⟩
          · exact Or.inr ⟨j, le_refl j, ht'⟩
  | yield _ =>
      rcases yield_moves h hp false ht with hc | ⟨j', rfl, hj⟩
      · exact Or.inl hc
      · exact Or.inr ⟨j', Nat.le_succ j', hj⟩
  | fork u _ _ =>
      have hf : (s.fork u).readyList = s.readyList ++ [u] := by simp [fork, readyToRun, assert]
      exact Or.inr ⟨j, le_refl j, by rw [hf]; exact place_append ht _⟩
  | V k _ =>
      obtain ⟨us, hus⟩ := semV_ready { s with level := .intOff } k
      refine Or.inr ⟨j, le_refl j, ?_⟩
      show (semV { s with level := .intOff } k).readyList[j]? = some t
      rw [hus]
      exact place_append ht us
  | raise bad => exact Or.inr ⟨j, le_refl j, ht⟩
  | instruction r _ => exact Or.inr ⟨j, le_refl j, ht⟩
  | P k _ => exact Or.inr ⟨j, le_refl j, ht⟩
  | finish _ => exact Or.inr ⟨j, le_refl j, ht⟩
  | setLevel now _ => exact Or.inr ⟨j, le_refl j, ht⟩
  | userMode _ _ => exact Or.inr ⟨j, le_refl j, ht⟩
  | writeRegister num value _ _ => exact Or.inr ⟨j, le_refl j, ht⟩
  | execute sp _ _ => exact Or.inr ⟨j, le_refl j, ht⟩

theorem findNext_moves (h : Inv s) (hm : s.mode = .idling) (hs : s.findNext = some s')
    (ht : s.readyList[j]? = some t) : Chosen s' t ∨ ∃ j' ≤ j, s'.readyList[j']? = some t := by
  obtain ⟨next, rest, hr, hcase⟩ := findNext_cases h hm hs
  have hs' : s'.currentThread = next ∧ s'.readyList = rest := by
    rcases hcase with ⟨_, rfl⟩ | ⟨_, rfl⟩ <;> exact ⟨rfl, rfl⟩
  have hnd := h.readyNodup
  rw [hr] at hnd ht
  rw [Chosen, hs'.1, hs'.2]
  cases j with
  | zero =>
      have hnt : next = t := by simpa using ht
      subst hnt
      exact Or.inl ⟨rfl, (List.nodup_cons.mp hnd).1⟩
  | succ j => exact Or.inr ⟨j, Nat.le_succ j, by simpa using ht⟩

/-- **No step puts a thread back.** -/
theorem step_moves (h : Inv s) {c : SchedCall} (hs : s.step c = some s')
    (ht : s.readyList[j]? = some t) : Chosen s' t ∨ ∃ j' ≤ j, s'.readyList[j']? = some t := by
  have hne : s.readyList ≠ [] := by
    intro he
    simp [he] at ht
  have hstays : s'.readyList = s.readyList → Chosen s' t ∨ ∃ j' ≤ j, s'.readyList[j']? = some t :=
    fun he => Or.inr ⟨j, le_refl j, by rw [he]; exact ht⟩
  unfold step at hs
  cases hm : s.mode with
  | running =>
      simp only [hm] at hs
      split at hs
      · rename_i user hp
        exact codeStep_moves h hm hp (codeStep_cases hs) ht
      · refine hstays ?_
        rw [← Option.some.inj hs]
        simp only [pass]
        split <;> rfl
      · exact absurd hs (by simp)
  | idling =>
      simp only [hm] at hs
      split at hs
      · exact findNext_moves h hm hs ht
      · exact absurd (Option.ite_none_right_eq_some.mp hs).1 hne
      · exact absurd (Option.ite_none_right_eq_some.mp hs).1 hne
      · exact absurd hs (by simp)
  | switched =>
      simp only [hm] at hs
      split at hs
      · refine hstays ?_
        rcases resume_cases h hm hs with ⟨_, rfl⟩ | ⟨p, _, he⟩
        · rfl
        · rw [he]
      · exact absurd hs (by simp)
  | halted => simp [hm] at hs

end Sched

namespace TimeSharing

/-! ## Threads and the timer together -/

open Sched (Chosen)

variable {s s' : TimeSharing}

/-- What holds at every moment. -/
structure Inv (s : TimeSharing) : Prop where
  timer : s.timer.Inv
  sched : s.sched.Inv
  /-- The loop of `Sleep` calls `Idle` when nobody is ready. -/
  idle : ∀ p, s.phase = .callBack p true → s.sched.readyList = []

/-- A callback is about to return, and the timer's interrupt is pending. -/
structure Returning (s : TimeSharing) (p : PendingInterrupt) (adv : Bool) : Prop where
  armed : s.timer.Armed
  sched : s.sched.Inv
  phase : s.phase = .callBack p adv
  status : s.timer.interrupt.status = .idleMode ↔ adv = true
  quiet : adv = true → s.timer.interrupt.yieldOnReturn = false
  idle : adv = true → s.sched.readyList = []

/-- What a step does, by what makes it. -/
inductive Step (s : TimeSharing) : TimeSharing → Prop where
  | thread (ho : s.phase = .outside) {c : SchedCall} {sched : Sched}
      (hs : s.sched.step c = some sched) : Step s (s.withSched sched)
  | schedule {toCall : Nat} {fromNow : Int} {type : IntType} {i : Interrupt}
      (hne : toCall ≠ timerObject) (hfit : s.now + fromNow ≤ intMax)
      (hi : s.timer.interrupt.schedule toCall fromNow type = some i) :
      Step s { s with timer.interrupt := i }
  | setStatus (ho : s.phase = .outside) {st : MachineStatus} (hne : st ≠ .idleMode) :
      Step s { s with timer.interrupt.status := st }
  | oneTick (ho : s.phase = .outside) (hfit : s.now + timerTicks * 2 ≤ intMax) :
      Step s { s with timer.interrupt := s.timer.interrupt.oneTick }
  | idle (ho : s.phase = .outside) (hr : s.sched.readyList = []) {i : Interrupt} {s' : TimeSharing}
      (hi : s.timer.interrupt.idle = some i)
      (hs' : i.phase ≠ .halted → s' = { s with timer.interrupt := i }) : Step s s'
  | V (k : Nat) : Step s { s with signalled := s.signalled ++ [k] }
  | ret {p : PendingInterrupt} {adv : Bool} {s' : TimeSharing} (hp : s.phase = .callBack p adv)
      (hpt : p.isTimer = false) (hs' : s.ret = some s') : Step s s'
  | timer {p : PendingInterrupt} {adv : Bool} {r : Nat} {t : Timer} {s' : TimeSharing}
      (hp : s.phase = .callBack p adv) (hpt : p.isTimer = true)
      (hfit : s.now + timerTicks * 2 ≤ intMax) (ht : s.timer.callBack r = some t)
      (hs' : { s with timer := t }.ret = some s') : Step s s'

theorem hardware_eq {c : IntCall} (hs : s.hardware c = some s') :
    ∃ i, s.timer.interrupt.step c = some i ∧ s' = { s with timer.interrupt := i } := by
  obtain ⟨i, hi, rfl⟩ := Option.map_eq_some_iff.mp hs
  exact ⟨i, hi, rfl⟩

theorem isTimer_of_ne {p : PendingInterrupt} (h : p.callOnInterrupt ≠ timerObject) :
    p.isTimer = false := by
  simpa [PendingInterrupt.isTimer] using h

theorem step_outside (ho : s.phase = .outside) {c : TimeCall} (hg : NoOverflow s c)
    (hs : s.step c = some s') : Step s s' := by
  have hi : s.timer.interrupt.phase = .outside := ho
  unfold step at hs
  cases c with
  | thread c =>
      simp only [ho, Option.ite_none_right_eq_some] at hs
      obtain ⟨_, hs⟩ := hs
      obtain ⟨sched, hsched, rfl⟩ := Option.map_eq_some_iff.mp hs
      exact .thread ho hsched
  | schedule toCall fromNow type =>
      simp only [ho, Option.ite_none_right_eq_some] at hs
      obtain ⟨i, hst, rfl⟩ := hardware_eq hs.2
      simp only [Interrupt.step, hi] at hst
      exact .schedule hs.1 hg.2 hst
  | setStatus st =>
      simp only [ho, Option.ite_none_right_eq_some] at hs
      obtain ⟨i, hst, rfl⟩ := hardware_eq hs.2
      simp only [Interrupt.step, hi, Option.some.injEq] at hst
      subst hst
      rw [← hi]
      exact .setStatus ho hs.1
  | oneTick =>
      simp only [ho, Option.ite_none_right_eq_some] at hs
      obtain ⟨i, hst, rfl⟩ := hardware_eq hs.2
      simp only [Interrupt.step, hi, Option.some.injEq] at hst
      subst hst
      exact .oneTick ho hg.1
  | idle =>
      simp only [ho, Option.ite_none_right_eq_some] at hs
      obtain ⟨hcan, hs⟩ := hs
      have hr : s.sched.readyList = [] := by
        unfold Sched.step at hcan
        split at hcan
        · split at hcan
          · simp [Sched.codeStep] at hcan
          · rename_i he
            exact absurd he (by simp)
          · simp at hcan
        · by_contra hne
          simp [hne] at hcan
        · simp at hcan
        · simp at hcan
      obtain ⟨s₁, h₁, hs₁⟩ := Option.bind_eq_some_iff.mp hs
      obtain ⟨i, hst, rfl⟩ := hardware_eq h₁
      simp only [Interrupt.step, hi] at hst
      refine .idle ho hr hst fun hne => ?_
      split at hs₁
      · rename_i hh
        exact absurd hh hne
      · exact (Option.some.inj hs₁).symm
  | V k => simp [ho] at hs
  | ret => simp [ho] at hs
  | timer r => simp [ho] at hs

theorem step_callBack {p : PendingInterrupt} {adv : Bool} (hp : s.phase = .callBack p adv)
    {c : TimeCall} (hg : NoOverflow s c) (hs : s.step c = some s') : Step s s' := by
  have hi : s.timer.interrupt.phase = .callBack p adv := hp
  unfold step at hs
  cases c with
  | timer r =>
      simp only [hp, Option.ite_none_right_eq_some] at hs
      obtain ⟨hpt, hs⟩ := hs
      obtain ⟨t, ht, hs'⟩ := Option.bind_eq_some_iff.mp hs
      exact .timer hp (PendingInterrupt.isTimer_iff.mpr hpt) hg.1 ht hs'
  | schedule toCall fromNow type =>
      simp only [hp, Option.ite_none_left_eq_some, Option.ite_none_right_eq_some] at hs
      obtain ⟨i, hst, rfl⟩ := hardware_eq hs.2.2
      simp only [Interrupt.step, hi] at hst
      exact .schedule hs.2.1 hg.2 hst
  | V k =>
      simp only [hp, Option.ite_none_left_eq_some, Option.some.injEq] at hs
      obtain ⟨_, rfl⟩ := hs
      exact .V k
  | ret =>
      simp only [hp, Option.ite_none_left_eq_some] at hs
      exact .ret hp (isTimer_of_ne hs.1) hs.2
  | thread c => simp [hp] at hs
  | setStatus st => simp [hp] at hs
  | oneTick => simp [hp] at hs
  | idle => simp [hp] at hs

theorem step_cases {c : TimeCall} (hg : NoOverflow s c) (hs : s.step c = some s') : Step s s' := by
  cases hph : s.phase with
  | outside => exact step_outside hph hg hs
  | callBack p adv => exact step_callBack hph hg hs
  | halted => simp [step, hph] at hs

/-- Another callback returns. -/
theorem Inv.returning (h : Inv s) {p : PendingInterrupt} {adv : Bool}
    (hp : s.phase = .callBack p adv) (hpt : p.isTimer = false) : Returning s p adv where
  armed := h.timer.armed (by
    have hi : s.timer.interrupt.phase = .callBack p adv := hp
    rw [Interrupt.inTimer, hi]
    exact hpt)
  sched := h.sched
  phase := hp
  status := h.timer.idle p adv hp
  quiet := by
    rintro rfl
    refine h.timer.quiet fun q hq => ?_
    have hi : s.timer.interrupt.phase = .callBack p true := hp
    rw [hi] at hq
    simp at hq
  idle := by
    rintro rfl
    exact h.idle p hp

/-- So does the callback of the timer, after it has asked for the next interrupt. -/
theorem Inv.returning_timer (h : Inv s) {p : PendingInterrupt} {adv : Bool}
    (hp : s.phase = .callBack p adv) (hpt : p.isTimer = true) {r : Nat}
    (hfit : s.now + timerTicks * 2 ≤ intMax) {t : Timer} (ht : s.timer.callBack r = some t) :
    Returning { s with timer := t } p adv := by
  obtain ⟨harm, _, hph, hst, hy, _⟩ := h.timer.callBack hp hpt hfit ht
  refine ⟨harm, h.sched, hph, ?_, ?_, ?_⟩
  · show t.interrupt.status = .idleMode ↔ _
    rw [hst]
    exact h.timer.idle p adv hp
  · intro ha
    show t.interrupt.yieldOnReturn = false
    rw [hy, ha]
    rfl
  · rintro rfl
    exact h.idle p hp

/-- Where the loop has got to when the callback has returned. -/
theorem Returning.timer {p : PendingInterrupt} {adv : Bool} (h : Returning s p adv) :
    Timer.Inv { s.timer with interrupt := s.timer.interrupt.loop adv } :=
  h.armed.enter (Interrupt.loop_entered _ adv) (Interrupt.lands_loop _ adv) h.status h.quiet

/-- The loop goes on, or the threads learn what the callbacks did. -/
theorem Returning.cases {p : PendingInterrupt} {adv : Bool} (h : Returning s p adv)
    (hs : s.ret = some s') :
    (∃ q, (s.timer.interrupt.loop adv).phase = .callBack q adv ∧
      s' = { s with timer.interrupt := s.timer.interrupt.loop adv }) ∨
    ∃ sched, (s.timer.interrupt.loop adv).phase = .outside ∧
      s.sched.step (if adv then .idle s.signalled
        else .oneTick (some (s.signalled, s.timer.interrupt.yieldOnReturn))) = some sched ∧
      s' = { s with
        timer.interrupt := s.timer.interrupt.loop adv
        signalled := [] }.withSched sched := by
  have hph := h.phase
  unfold ret at hs
  simp only [hph] at hs
  split at hs
  · rename_i ho
    obtain ⟨sched, hsched, rfl⟩ := Option.map_eq_some_iff.mp hs
    exact Or.inr ⟨sched, ho, hsched, rfl⟩
  · rename_i hno
    have he := (Option.some.inj hs).symm
    cases hl : (s.timer.interrupt.loop adv).phase with
    | outside => exact absurd hl hno
    | halted => exact absurd hl h.timer.alive
    | callBack q a =>
        obtain ⟨rfl, _⟩ := (Interrupt.lands_loop s.timer.interrupt adv).inside q a hl
        exact Or.inl ⟨q, rfl, he⟩

theorem Returning.inv {p : PendingInterrupt} {adv : Bool} (h : Returning s p adv)
    (hs : s.ret = some s') : Inv s' := by
  rcases h.cases hs with ⟨q, hq, rfl⟩ | ⟨sched, ho, hsched, rfl⟩
  · refine ⟨h.timer, h.sched, fun q' hq' => ?_⟩
    have hq'' : (s.timer.interrupt.loop adv).phase = .callBack q' true := hq'
    rw [hq] at hq''
    exact h.idle (IntPhase.callBack.inj hq'').2
  · refine ⟨h.timer.changeLevel _, Sched.inv_step h.sched hsched, fun q' hq' => ?_⟩
    have hq'' : (s.timer.interrupt.loop adv).phase = .callBack q' true := hq'
    rw [ho] at hq''
    exact absurd hq'' (by simp)

/-- **Every step keeps the invariant.** -/
theorem inv_step (h : Inv s) (hs : Step s s') : Inv s' := by
  -- outside the handlers there is nothing to say about `Idle`
  have hout : ∀ {i : Interrupt} {l : List Nat}, i.phase = .outside →
      ∀ q, i.phase = .callBack q true → l = [] := fun ho q hq => by rw [ho] at hq; simp at hq
  cases hs with
  | thread ho hsched =>
      exact ⟨h.timer.changeLevel _, Sched.inv_step h.sched hsched, hout ho⟩
  | schedule hne hfit hi =>
      obtain ⟨log, hI⟩ := h.timer.hw
      obtain ⟨_, _, hph⟩ := Interrupt.schedule_inv hI hfit hi
      refine ⟨h.timer.schedule hne hfit hi, h.sched, fun q hq => h.idle q ?_⟩
      exact hph.symm.trans hq
  | setStatus ho hne => exact ⟨h.timer.setStatus ho hne, h.sched, hout ho⟩
  | oneTick ho hfit =>
      refine ⟨h.timer.oneTick ho hfit, h.sched, fun q hq => ?_⟩
      obtain ⟨hadv, _⟩ := (Interrupt.lands_checkIfDue _ false).inside q true hq
      exact absurd hadv (by simp)
  | idle ho hr hi hs' =>
      have hT := h.timer.goIdle ho hi
      rw [hs' hT.alive]
      exact ⟨hT, h.sched, fun _ _ => hr⟩
  | V k => exact ⟨h.timer, h.sched, h.idle⟩
  | ret hp hpt hs' => exact (h.returning hp hpt).inv hs'
  | timer hp hpt hfit ht hs' => exact (h.returning_timer hp hpt hfit ht).inv hs'

theorem inv_boot (h : Boot s) : Inv s := by
  obtain ⟨doRandom, r, t, ht, hsched, htimer, _⟩ := h
  obtain ⟨hT, ho⟩ := Timer.inv_new ht
  have hph : s.phase = .outside := by
    rw [phase, htimer]
    exact ho
  refine ⟨htimer ▸ hT.changeLevel _, Sched.inv_boot hsched, fun q hq => ?_⟩
  rw [hph] at hq
  exact absurd hq (by simp)

theorem inv_reachBy (h : sys.ReachBy NoOverflow s) : Inv s :=
  h.invariant (I := Inv) (fun _ hb => inv_boot hb)
    fun _ _ _ _ hI hg hst => inv_step hI (step_cases hg hst)

/-! ## How long a thread waits -/

/-- The thread `t` is at place `j`, and there is a slot for each place before the deadline. -/
structure WaitsAt (slot deadline : Int) (t j : Nat) (s : TimeSharing) : Prop where
  place : s.sched.readyList[j]? = some t
  early : s.now + j * slot < deadline
  /-- A wish to yield that has not been granted is worth a slot. -/
  soon : ∀ q ∈ s.timer.interrupt.pending, q.isTimer = true → q.when + systemTick + j * slot ≤
    deadline + if s.timer.interrupt.yieldOnReturn = true then slot else 0

variable {slot deadline : Int} {t j : Nat}

theorem places_le (hslot : 0 ≤ slot) {i j : Nat} (h : i ≤ j) : (i : Int) * slot ≤ j * slot :=
  Int.mul_le_mul_of_nonneg_right (Int.ofNat_le.mpr h) hslot

theorem place_succ (j : Nat) (slot : Int) : ((j + 1 : Nat) : Int) * slot = j * slot + slot := by
  show ((j : Int) + 1) * slot = j * slot + slot
  rw [Int.add_mul, Int.one_mul]

/-- A place further up, at a time that is no later. -/
theorem WaitsAt.move (h : WaitsAt slot deadline t j s) (hslot : 0 ≤ slot) {i : Nat} (hi : i ≤ j)
    (hplace : s'.sched.readyList[i]? = some t) (hnow : s'.now ≤ s.now)
    (hpend : ∀ q ∈ s'.timer.interrupt.pending, q ∈ s.timer.interrupt.pending)
    (hwish : s.timer.interrupt.yieldOnReturn = true →
      s'.timer.interrupt.yieldOnReturn = true ∨ i < j) : WaitsAt slot deadline t i s' := by
  have hle := places_le hslot hi
  have hearly := h.early
  refine ⟨hplace, by omega, fun q hq hqt => ?_⟩
  have hs := h.soon q (hpend q hq) hqt
  cases hy : s.timer.interrupt.yieldOnReturn with
  | false =>
      rw [hy] at hs
      split <;> simp at hs <;> omega
  | true =>
      rw [hy] at hs
      rcases hwish hy with hy' | hlt
      · rw [if_pos hy']
        simp at hs
        omega
      · have hone := places_le hslot hlt
        rw [place_succ] at hone
        split <;> simp at hs <;> omega

/-- Outside the handlers the timer's interrupt is still to come. -/
theorem Inv.due (h : Inv s) (ho : s.phase = .outside) : ∃ q ∈ s.timer.interrupt.pending,
    q.isTimer = true ∧ s.now < q.when ∧ q.when ≤ s.now + s.timer.period := by
  obtain ⟨log, hI⟩ := h.timer.hw
  have hone := (h.timer.outside ho).one
  obtain ⟨q, hq, hqt⟩ :=
    List.countP_pos_iff.mp (show 0 < s.timer.interrupt.timers by rw [hone]; omega)
  exact ⟨q, hq, hqt, hI.drained ho q hq, h.timer.soon q hq hqt⟩

theorem tick_le {i : Interrupt} {log : IntLog} (hI : i.Inv log)
    (hfit : i.stats.totalTicks + timerTicks * 2 ≤ intMax) :
    i.tick.stats.totalTicks ≤ i.stats.totalTicks + systemTick := by
  unfold timerTicks at hfit
  unfold Interrupt.tick
  split
  · exact Int.le_of_eq (hI.core.when_eq (by decide) (by unfold systemTick; omega))
  · have huser : toInt32 (i.stats.totalTicks + userTick) = i.stats.totalTicks + userTick :=
      hI.core.when_eq (by decide) (by unfold userTick; omega)
    show toInt32 (i.stats.totalTicks + userTick) ≤ _
    unfold userTick systemTick at *
    omega

/-- **A tick that interrupts the thread that waits** does not come after its deadline. -/
theorem WaitsAt.oneTick (h : WaitsAt slot deadline t j s) (hslot : 0 ≤ slot) (hI : Inv s)
    (ho : s.phase = .outside) (hfit : s.now + timerTicks * 2 ≤ intMax) :
    WaitsAt slot deadline t j { s with timer.interrupt := s.timer.interrupt.oneTick } := by
  obtain ⟨log, hlog⟩ := hI.timer.hw
  obtain ⟨q, hq, hqt, hlt, _⟩ := hI.due ho
  have hquiet := hI.timer.quiet_outside ho
  have hnow : s.timer.interrupt.oneTick.stats.totalTicks ≤ s.now + systemTick := by
    have hstats : s.timer.interrupt.oneTick.stats = s.timer.interrupt.tick.stats :=
      Interrupt.checkIfDue_stats _
    rw [hstats]
    exact tick_le hlog hfit
  have hpend : ∀ q ∈ s.timer.interrupt.oneTick.pending, q ∈ s.timer.interrupt.pending := by
    intro q hq
    have hq' := (Interrupt.checkIfDue_entered _ false).subset q hq
    exact s.timer.interrupt.tick_frame.1 ▸ hq'
  have hsq := h.soon q hq hqt
  rw [hquiet] at hsq
  simp only [Bool.false_eq_true, if_false] at hsq
  refine ⟨h.place, ?_, fun q' hq' hqt' => ?_⟩
  · show s.timer.interrupt.oneTick.stats.totalTicks + _ < _
    omega
  · have hs := h.soon q' (hpend q' hq') hqt'
    rw [hquiet] at hs
    simp only [Bool.false_eq_true, if_false] at hs
    split <;> omega

/-- **The loop of a tick**: the threads move up if a callback wants them to. -/
theorem Returning.waits {p : PendingInterrupt} {adv : Bool} (h : Returning s p adv)
    (hw : WaitsAt slot deadline t j s) (hslot : 0 ≤ slot) (hs : s.ret = some s') :
    s'.timer.period = s.timer.period ∧ (Chosen s'.sched t ∨ ∃ i, WaitsAt slot deadline t i s') := by
  have hadv : adv = false := by
    by_contra hne
    have hr := h.idle (by simpa using hne)
    exact absurd hw.place (by simp [hr])
  subst hadv
  have hnow : (s.timer.interrupt.loop false).stats.totalTicks ≤ s.now := by
    rw [Interrupt.loop_stats]
    exact Int.le_refl _
  have hpend := (Interrupt.loop_entered s.timer.interrupt false).subset
  rcases h.cases hs with ⟨q, hq, rfl⟩ | ⟨sched, ho, hsched, rfl⟩
  · obtain ⟨_, _, hy⟩ := (Interrupt.lands_loop s.timer.interrupt false).inside q false hq
    exact ⟨rfl, Or.inr ⟨j, hw.move hslot (le_refl j) hw.place hnow hpend
      fun hyes => Or.inl (hy.trans hyes)⟩⟩
  · refine ⟨rfl, ?_⟩
    simp only [Bool.false_eq_true, if_false] at hsched
    cases hy : s.timer.interrupt.yieldOnReturn with
    | true =>
        rw [hy] at hsched
        rcases Sched.tick_moves h.sched hsched hw.place with hc | ⟨i, rfl, hi⟩
        · exact Or.inl hc
        · exact Or.inr ⟨i, hw.move hslot (Nat.le_succ i) hi hnow hpend
            fun _ => Or.inr (Nat.lt_succ_self i)⟩
    | false =>
        rcases Sched.step_moves h.sched hsched hw.place with hc | ⟨i, hle, hi⟩
        · exact Or.inl hc
        · exact Or.inr ⟨i, hw.move hslot hle hi hnow hpend fun hyes => by
            rw [hy] at hyes; simp at hyes⟩

/-- **A thread that waits keeps its deadline**, step by step. -/
theorem step_waits (h : Inv s) (hw : WaitsAt slot deadline t j s)
    (hslot : slot = s.timer.period + systemTick) (hs : Step s s') :
    s'.timer.period = s.timer.period ∧ (Chosen s'.sched t ∨ ∃ i, WaitsAt slot deadline t i s') := by
  have hpos : 0 ≤ slot := by
    have := s.timer.period_pos
    unfold systemTick at hslot
    omega
  cases hs with
  | thread ho hsched =>
      refine ⟨rfl, ?_⟩
      rcases Sched.step_moves h.sched hsched hw.place with hc | ⟨i, hle, hi⟩
      · exact Or.inl hc
      · exact Or.inr ⟨i, hw.move hpos hle hi (Int.le_refl _) (fun _ hq => hq) Or.inl⟩
  | schedule hne hfit hi =>
      obtain ⟨log, hI⟩ := h.timer.hw
      obtain ⟨_, rfl⟩ := hI.scheduled hfit hi
      refine ⟨rfl, Or.inr ⟨j, hw.place, hw.early, fun q hq hqt => ?_⟩⟩
      rcases Interrupt.mem_insert.mp hq with rfl | hq
      · exact absurd (PendingInterrupt.isTimer_iff.mp hqt) hne
      · exact hw.soon q hq hqt
  | setStatus ho hne => exact ⟨rfl, Or.inr ⟨j, hw.place, hw.early, hw.soon⟩⟩
  | oneTick ho hfit => exact ⟨rfl, Or.inr ⟨j, hw.oneTick hpos h ho hfit⟩⟩
  | idle ho hr hi hs' => exact absurd hw.place (by simp [hr])
  | V k => exact ⟨rfl, Or.inr ⟨j, hw.place, hw.early, hw.soon⟩⟩
  | ret hp hpt hs' => exact (h.returning hp hpt).waits hw hpos hs'
  | @timer p adv r t' s' hp hpt hfit ht hs' =>
      obtain ⟨harm, hper, hph, hst, hy, hstats⟩ := h.timer.callBack hp hpt hfit ht
      have hadv : adv = false := by
        by_contra hne
        have hr := h.idle p (by rw [hp, eq_true_of_ne_false hne])
        exact absurd hw.place (by simp [hr])
      have hnow : t'.interrupt.stats.totalTicks = s.now := by rw [hstats]; rfl
      have hearly := hw.early
      -- the next interrupt is one slot off, and the wish to yield makes up for it
      have hw' : WaitsAt slot deadline t j { s with timer := t' } := by
        refine ⟨hw.place, ?_, fun q hq hqt => ?_⟩
        · show t'.interrupt.stats.totalTicks + _ < _
          rw [hnow]
          exact hearly
        · have hsoon := harm.soon q hq hqt
          rw [hnow, hper] at hsoon
          show _ ≤ deadline + if t'.interrupt.yieldOnReturn = true then slot else 0
          rw [if_pos (by rw [hy, hadv]; rfl)]
          omega
      obtain ⟨hper', hout⟩ := (h.returning_timer hp hpt hfit ht).waits hw' hpos hs'
      exact ⟨hper'.trans hper, hout⟩

/-- A run keeps the deadline, or passes through a state in which the thread is chosen. -/
theorem waits_until (h : sys.ReachBy NoOverflow s) (hw : WaitsAt slot deadline t j s)
    (hslot : slot = s.timer.period + systemTick) {cs : List TimeCall}
    (hrun : sys.runBy NoOverflow s cs = some s') : (∃ i, WaitsAt slot deadline t i s') ∨
      ∃ cs₁ cs₂ m, cs = cs₁ ++ cs₂ ∧ sys.runBy NoOverflow s cs₁ = some m ∧ Chosen m.sched t := by
  have hkeep : ∀ (m : TimeSharing) c m', sys.ReachBy NoOverflow m →
      (m.timer.period = s.timer.period ∧ ∃ i, WaitsAt slot deadline t i m) → NoOverflow m c →
      sys.step m c = some m' →
      (m'.timer.period = s.timer.period ∧ ∃ i, WaitsAt slot deadline t i m') ∨
      Chosen m'.sched t := by
    rintro m c m' hm ⟨hper, i, hi⟩ hg hstep
    obtain ⟨hper', hout⟩ :=
      step_waits (inv_reachBy hm) hi (by rw [hper, hslot]) (step_cases hg hstep)
    rcases hout with hc | hwait
    · exact Or.inr hc
    · exact Or.inl ⟨hper'.trans hper, hwait⟩
  exact (Base.System.runBy_until hkeep cs h ⟨rfl, j, hw⟩ hrun).imp_left And.right

/-- **No thread waits for ever.** The machine never halts by itself. Outside the handlers the
timer's interrupt is pending, and at most one period off. And a thread on the ready list is
given the CPU before one period and one tick have passed for each place up to its own,
whatever the running threads, the devices and the handlers do. -/
theorem ready_thread_runs (s : TimeSharing) (h : sys.ReachBy NoOverflow s) :
    s.phase ≠ .halted ∧
      (s.phase = .outside → ∃ q ∈ s.timer.interrupt.pending, q.callOnInterrupt = timerObject ∧
        s.now < q.when ∧ q.when ≤ s.now + s.timer.period) ∧
      ∀ t k : Nat, s.sched.readyList[k]? = some t → ∀ cs s', sys.runBy NoOverflow s cs = some s' →
        s.now + (k + 1) * (s.timer.period + systemTick) ≤ s'.now →
        ∃ cs₁ cs₂ m, cs = cs₁ ++ cs₂ ∧ sys.runBy NoOverflow s cs₁ = some m ∧
          m.sched.currentThread = t ∧ t ∉ m.sched.readyList := by
  have hI := inv_reachBy h
  refine ⟨hI.timer.alive, fun ho => ?_, fun t k ht cs s' hrun hlate => ?_⟩
  · obtain ⟨q, hq, hqt, hlt, hle⟩ := hI.due ho
    exact ⟨q, hq, PendingInterrupt.isTimer_iff.mp hqt, hlt, hle⟩
  have hpos := s.timer.period_pos
  have htick : systemTick = 10 := rfl
  let slot := s.timer.period + systemTick
  let deadline := s.now + (k + 1) * slot
  have hsum : ((k : Int) + 1) * slot = k * slot + slot := by rw [Int.add_mul, Int.one_mul]
  have hslot : slot = s.timer.period + systemTick := rfl
  have hw : WaitsAt slot deadline t k s := by
    refine ⟨ht, ?_, fun q hq hqt => ?_⟩
    · show s.now + k * slot < s.now + (k + 1) * slot
      omega
    · have hs : q.when ≤ s.now + s.timer.period := hI.timer.soon q hq hqt
      show _ ≤ s.now + (k + 1) * slot + _
      split <;> omega
  rcases waits_until h hw hslot hrun with ⟨j, hj⟩ | hgoal
  · have hearly := hj.early
    have hnn : 0 ≤ (j : Int) * slot := Int.mul_nonneg (Int.natCast_nonneg j) (by omega)
    have hd : deadline ≤ s'.now := hlate
    omega
  · exact hgoal

/-- The kernel as it starts, with fixed time slices. -/
def boot : TimeSharing where
  timer := { randomize := false, disable := false,
             interrupt := { Interrupt.new with
               level := .intOn, pending := [⟨timerObject, 100, .timerInt, 0⟩], allocated := 1 } }
  sched := Sched.boot
  signalled := []

theorem boot_init : sys.init boot :=
  ⟨false, 0, _, rfl, Sched.boot_init, rfl, rfl⟩

/-- The main thread forks another and never yields; the tenth tick switches to it. -/
theorem ready_thread_runs_forked : ∃ s cs cs₁ cs₂ m, sys.ReachBy NoOverflow s ∧ s.now = 0 ∧
    s.sched.currentThread = 0 ∧ cs = cs₁ ++ cs₂ ∧ sys.runBy NoOverflow s cs₁ = some m ∧
    m.sched.currentThread = 1 := by
  have hfork : ∃ s, sys.runBy NoOverflow boot [.thread (.fork 1)] = some s ∧ s.now = 0 ∧
      s.sched.currentThread = 0 ∧ s.sched.readyList[0]? = some 1 ∧
      s.now + ((0 : Nat) + 1) * (s.timer.period + systemTick) ≤ 110 ∧
      (sys.runBy NoOverflow s
        (List.replicate 10 .oneTick ++ [.timer 0, .thread .resume, .oneTick])).map now
        = some 110 :=
    ⟨_, rfl, by decide, by decide, by decide, by decide, by decide⟩
  obtain ⟨s, hs, h0, hcur, hready, hlate, hrun⟩ := hfork
  obtain ⟨s', hs', hnow⟩ := Option.map_eq_some_iff.mp hrun
  have hr : sys.ReachBy NoOverflow s := Base.System.ReachBy.runBy _ (.init boot_init) hs
  obtain ⟨cs₁, cs₂, m, hcs, hm, hmcur, _⟩ :=
    (ready_thread_runs s hr).2.2 1 0 hready _ s' hs' (by rw [hnow]; exact hlate)
  exact ⟨s, _, cs₁, cs₂, m, hr, h0, hcur, hcs, hm, hmcur⟩

end TimeSharing

end Nachos
