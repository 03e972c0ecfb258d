import Nachos.Userprog.SynchConsole

/-!
# One character at a time

Which runs respect the device. If a caller of one entry point only gets in while
nobody is in the other, there is a single thread between acquiring a lock and
releasing it, and the flag, the interrupt and `waitFor` are all about its
character. Without that condition two threads meet at the device, one holding each
lock, and the second one finds it busy.
-/

namespace Nachos

open Base (upd upd_self upd_ne upd_apply Exclusive)

/-- Holding `lock`. -/
def ConsolePC.inLock : ConsolePC → Bool
  | .putIssue _ _ => true
  | .putDone _ => true
  | .putRel _ => true
  | _ => false

/-- Holding `WLineBlock`. -/
def ConsolePC.inLine : ConsolePC → Bool
  | .lineLoop _ => true
  | .lineDone _ => true
  | .lineRel => true
  | _ => false

/-- Waiting for a character to be out. -/
def ConsolePC.issued : ConsolePC → Bool
  | .putDone _ => true
  | .lineDone _ => true
  | _ => false

theorem ConsolePC.outside_start (c : ConsoleCall) :
    c.start.inLock = false ∧ c.start.inLine = false ∧ c.start.issued = false := by
  have hput : ∀ cs, (ConsolePC.putAll cs).inLock = false ∧ (ConsolePC.putAll cs).inLine = false
      ∧ (ConsolePC.putAll cs).issued = false := by
    intro cs
    cases cs <;> exact ⟨rfl, rfl, rfl⟩
  cases c with
  | printNum n => exact hput _
  | writeStdout b => exact hput _
  | printChar c => exact ⟨rfl, rfl, rfl⟩
  | printString b => exact ⟨rfl, rfl, rfl⟩

/-- The thread that goes on. -/
def ConsoleEvent.mover : ConsoleEvent → Option Nat
  | .go t => some t
  | _ => none

/-- The lock a thread is about to get, and the one of the other entry point. -/
def ConsolePC.enters : ConsolePC → Option (ConsoleSem × ConsoleSem)
  | .putWait _ _ => some (.lock, .wLineBlock)
  | .lineWait _ => some (.wLineBlock, .lock)
  | _ => none

namespace ConsoleState

/-- A thread gets one of the two locks only while the other one is free. -/
def OneAtATime (s : ConsoleState) (e : ConsoleEvent) : Prop :=
  ∀ t ∈ e.mover, ∀ r ∈ (s.pc t).enters, (s.sem r.1).value ≠ 0 → (s.sem r.2).value = 1

instance (s : ConsoleState) (e : ConsoleEvent) : Decidable (OneAtATime s e) :=
  inferInstanceAs (Decidable
    (∀ t ∈ e.mover, ∀ r ∈ (s.pc t).enters, (s.sem r.1).value ≠ 0 → (s.sem r.2).value = 1))

/-- The device serves one thread. -/
structure ConsoleInv (s : ConsoleState) : Prop where
  /-- One thread at a time holds `lock`. -/
  lock : Exclusive (s.sem .lock).value (fun t => (s.pc t).inLock = true)
  /-- One thread at a time holds `WLineBlock`. -/
  line : Exclusive (s.sem .wLineBlock).value (fun t => (s.pc t).inLine = true)
  /-- Not both at once. -/
  apart : (s.sem .lock).value = 1 ∨ (s.sem .wLineBlock).value = 1
  /-- One thread waits for each character that is not out or not acknowledged. -/
  device : Exclusive (1 - ((s.sem .waitFor).value + s.pending)) (fun t => (s.pc t).issued = true)
  /-- As a semaphore should be. -/
  nonneg : 0 ≤ (s.sem .waitFor).value
  /-- The flag is set while an interrupt is due. -/
  busy : s.putBusy = decide (0 < s.pending)
  /-- The assertion has held so far. -/
  sound : s.aborted = false

/-- Whoever waits for a character holds one of the locks. -/
theorem issued_inside {p : ConsolePC} (h : p.issued = true) :
    p.inLock = true ∨ p.inLine = true := by
  cases p <;> first | exact .inl rfl | exact .inr rfl | exact Bool.noConfusion h

/-- There is a single thread between acquiring a lock and releasing it. -/
theorem ConsoleInv.inside_unique {s : ConsoleState} (h : ConsoleInv s) {t u : Nat}
    (ht : (s.pc t).inLock = true ∨ (s.pc t).inLine = true)
    (hu : (s.pc u).inLock = true ∨ (s.pc u).inLine = true) : t = u := by
  have hmixed : ∀ a b, (s.pc a).inLock = true → (s.pc b).inLine = true → False := by
    intro a b ha hb
    have h1 := h.lock.zero ha
    have h2 := h.line.zero hb
    rcases h.apart with h3 | h3 <;> omega
  rcases ht with ht | ht <;> rcases hu with hu | hu
  · exact h.lock.unique ht hu
  · exact (hmixed t u ht hu).elim
  · exact (hmixed u t hu ht).elim
  · exact h.line.unique ht hu

/-- **A character is handed to an idle device.** -/
theorem consoleInv_putChar {s : ConsoleState} {t : Nat} {ch : UInt8} {k : ConsolePC}
    (h : ConsoleInv s) (hin : (s.pc t).inLock = true ∨ (s.pc t).inLine = true)
    (hnot : (s.pc t).issued = false) (hk : k.issued = true)
    (hlock : k.inLock = (s.pc t).inLock) (hline : k.inLine = (s.pc t).inLine) :
    ConsoleInv (s.putChar t ch k) := by
  -- the only thread that could be waiting is the one that writes
  have hnone : ∀ a, (s.pc a).issued ≠ true := by
    intro a ha
    rw [h.inside_unique (issued_inside ha) hin, hnot] at ha
    exact Bool.noConfusion ha
  have hv : (1 : Int) - ((s.sem .waitFor).value + s.pending) = 1 := by
    rcases h.device with ⟨h1, _⟩ | ⟨_, a, ha, _⟩
    · exact h1
    · exact absurd ha (hnone a)
  have h0 := h.nonneg
  have hidle : s.putBusy = false := by
    rw [h.busy]
    exact decide_eq_false (by omega)
  unfold putChar
  rw [hidle]
  refine
    { lock := h.lock.upd_same hlock, line := h.line.upd_same hline, apart := h.apart, device := ?_,
      nonneg := h0, busy := ?_, sound := h.sound }
  · have := Exclusive.upd_enter (i := t) (k := k) (c := ConsolePC.issued) h.device (by omega) hk
    rw [hv] at this
    show Exclusive (1 - ((s.sem .waitFor).value + ((s.pending + 1 : Nat) : Int))) _
    have hz : (1 : Int) - ((s.sem .waitFor).value + ((s.pending + 1 : Nat) : Int)) = 1 - 1 := by
      push_cast; omega
    rw [hz]
    exact this
  · show true = decide (0 < s.pending + 1)
    simp

/-- The state after a pass of `P` that got through. -/
def passed (s : ConsoleState) (t : Nat) (r : ConsoleSem) (k : ConsolePC) : ConsoleState :=
  { s with
    sem := upd s.sem r { s.sem r with value := toInt32 ((s.sem r).value - 1) }
    pc := upd s.pc t k }

/-- The character is out, and the thread that waited for it goes on. -/
theorem consoleInv_ack {s : ConsoleState} {t : Nat} {k : ConsolePC} (h : ConsoleInv s)
    (hv : (s.sem .waitFor).value ≠ 0) (ht : (s.pc t).issued = true) (hk : k.issued = false)
    (hlock : k.inLock = (s.pc t).inLock) (hline : k.inLine = (s.pc t).inLine) :
    ConsoleInv (s.passed t .waitFor k) := by
  obtain ⟨h0, hout⟩ := Exclusive.upd_leave (c := ConsolePC.issued) h.device ht hk
  have hnn := h.nonneg
  have hval : toInt32 ((s.sem .waitFor).value - 1) = (s.sem .waitFor).value - 1 :=
    toInt32_small (by omega) (by omega)
  refine
    { lock := h.lock.upd_same hlock, line := h.line.upd_same hline, apart := h.apart, device := ?_,
      nonneg := ?_, busy := h.busy, sound := h.sound }
  · show Exclusive (1 - (toInt32 ((s.sem .waitFor).value - 1) + s.pending)) _
    rw [hval]
    have hz : (1 : Int) - ((s.sem .waitFor).value - 1 + s.pending)
        = 1 - ((s.sem .waitFor).value + s.pending) + 1 := by omega
    rw [hz]
    exact hout
  · show 0 ≤ toInt32 ((s.sem .waitFor).value - 1)
    rw [hval]; omega

/-- A pass of `P` that gets through. -/
theorem consoleInv_pass {s : ConsoleState} {t : Nat} {r : ConsoleSem} {k : ConsolePC}
    (h : ConsoleInv s) (hg : OneAtATime s (.go t)) (hw : (s.pc t).waits = some (r, k))
    (hv : (s.sem r).value ≠ 0) : ConsoleInv (s.passed t r k) := by
  have hone : ∀ {v : Int} {I : Nat → Prop}, Exclusive v I → v ≠ 0 → v = 1 := by
    rintro v I (⟨h1, _⟩ | ⟨h0, _⟩) hne
    · exact h1
    · exact absurd h0 hne
  cases hpc : s.pc t <;> rw [hpc] at hw <;>
    simp only [ConsolePC.waits, Option.some.injEq, Prod.mk.injEq, reduceCtorEq] at hw <;>
    obtain ⟨rfl, rfl⟩ := hw
  case putWait ch rest =>
    have hfree := hg t rfl _ (by rw [hpc]; rfl) hv
    have h1 := hone h.lock hv
    refine
      { lock := ?_, line := h.line.upd_same (by rw [hpc]; rfl), apart := .inr hfree,
        device := h.device.upd_same (by rw [hpc]; rfl), nonneg := h.nonneg, busy := h.busy,
        sound := h.sound }
    show Exclusive (toInt32 ((s.sem .lock).value - 1)) _
    rw [toInt32_small (by omega) (by omega)]
    exact h.lock.upd_enter hv rfl
  case lineWait cs =>
    have hfree := hg t rfl _ (by rw [hpc]; rfl) hv
    have h1 := hone h.line hv
    refine
      { lock := h.lock.upd_same (by rw [hpc]; rfl), line := ?_, apart := .inl hfree,
        device := h.device.upd_same (by rw [hpc]; rfl), nonneg := h.nonneg, busy := h.busy,
        sound := h.sound }
    show Exclusive (toInt32 ((s.sem .wLineBlock).value - 1)) _
    rw [toInt32_small (by omega) (by omega)]
    exact h.line.upd_enter hv rfl
  case putDone rest =>
    exact consoleInv_ack h hv (by rw [hpc]; rfl) rfl (by rw [hpc]; rfl) (by rw [hpc]; rfl)
  case lineDone cs =>
    exact consoleInv_ack h hv (by rw [hpc]; rfl) rfl (by rw [hpc]; rfl) (by rw [hpc]; rfl)

theorem consoleInv_sleep {s : ConsoleState} (h : ConsoleInv s) (r : ConsoleSem) (q : List Nat) :
    ConsoleInv { s with sem := upd s.sem r { s.sem r with queue := q } } := by
  have hval : ∀ r', (upd s.sem r { s.sem r with queue := q } r').value = (s.sem r').value := by
    intro r'
    rw [upd_apply]
    split
    · rename_i hr; rw [hr]
    · rfl
  refine
    { lock := ?_, line := ?_, apart := ?_, device := ?_, nonneg := ?_, busy := h.busy,
      sound := h.sound }
  · rw [hval]; exact h.lock
  · rw [hval]; exact h.line
  · rw [hval, hval]; exact h.apart
  · rw [hval]; exact h.device
  · rw [hval]; exact h.nonneg

theorem consoleInv_release {s : ConsoleState} {t : Nat} {rest : List UInt8} (h : ConsoleInv s)
    (hpc : s.pc t = .putRel rest) : ConsoleInv (s.V t .lock (.putAll rest)) := by
  have hout : (ConsolePC.putAll rest).inLock = false ∧ (ConsolePC.putAll rest).inLine = false
      ∧ (ConsolePC.putAll rest).issued = false := by
    cases rest <;> exact ⟨rfl, rfl, rfl⟩
  obtain ⟨h0, hl⟩ := Exclusive.upd_leave (c := ConsolePC.inLock) h.lock (by rw [hpc]; rfl) hout.1
  have hval : toInt32 ((s.sem .lock).value + 1) = (s.sem .lock).value + 1 :=
    toInt32_small (by omega) (by omega)
  refine
    { lock := ?_, line := h.line.upd_same (by rw [hpc]; exact hout.2.1), apart := .inl ?_,
      device := h.device.upd_same (by rw [hpc]; exact hout.2.2), nonneg := h.nonneg,
      busy := h.busy, sound := h.sound }
  · show Exclusive (toInt32 ((s.sem .lock).value + 1)) _
    rw [hval]; exact hl
  · show toInt32 ((s.sem .lock).value + 1) = 1
    rw [hval, h0]; rfl

theorem consoleInv_free {s : ConsoleState} {t : Nat} (h : ConsoleInv s)
    (hpc : s.pc t = .lineRel) : ConsoleInv (s.V t .wLineBlock .idle) := by
  obtain ⟨h0, hl⟩ :=
    Exclusive.upd_leave (k := .idle) (c := ConsolePC.inLine) h.line (by rw [hpc]; rfl) rfl
  have hval : toInt32 ((s.sem .wLineBlock).value + 1) = (s.sem .wLineBlock).value + 1 :=
    toInt32_small (by omega) (by omega)
  refine
    { lock := h.lock.upd_same (by rw [hpc]; rfl), line := ?_, apart := .inr ?_,
      device := h.device.upd_same (by rw [hpc]; rfl), nonneg := h.nonneg, busy := h.busy,
      sound := h.sound }
  · show Exclusive (toInt32 ((s.sem .wLineBlock).value + 1)) _
    rw [hval]; exact hl
  · show toInt32 ((s.sem .wLineBlock).value + 1) = 1
    rw [hval, h0]; rfl

/-- The interrupt hands the character on from the device to `waitFor`. -/
theorem consoleInv_callBack {s : ConsoleState} (h : ConsoleInv s) (hp : 0 < s.pending) :
    ConsoleInv s.callBack := by
  have hnn := h.nonneg
  have hsum : (s.sem .waitFor).value = 0 ∧ s.pending = 1 := by
    rcases h.device with ⟨h1, _⟩ | ⟨h1, _⟩ <;> omega
  have hval : toInt32 ((s.sem .waitFor).value + 1) = (s.sem .waitFor).value + 1 :=
    toInt32_small (by omega) (by omega)
  refine
    { lock := h.lock, line := h.line, apart := h.apart, device := ?_, nonneg := ?_, busy := ?_,
      sound := h.sound }
  · show Exclusive (1 - (toInt32 ((s.sem .waitFor).value + 1) + ((s.pending - 1 : Nat) : Int))) _
    have hz : (1 : Int) - ((s.sem .waitFor).value + 1 + ((s.pending - 1 : Nat) : Int))
        = 1 - ((s.sem .waitFor).value + s.pending) := by omega
    rw [hval, hz]
    exact h.device
  · show 0 ≤ toInt32 ((s.sem .waitFor).value + 1)
    rw [hval]; omega
  · show false = decide (0 < s.pending - 1)
    rw [hsum.2]; rfl

/-- **What one event can do.** -/
inductive Moves (s : ConsoleState) : ConsoleEvent → ConsoleState → Prop where
  | called {t : Nat} {c : ConsoleCall} (hpc : s.pc t = .idle) :
      Moves s (.call t c) { s with pc := upd s.pc t c.start }
  | slept {t : Nat} {r : ConsoleSem} {k : ConsolePC} (hw : (s.pc t).waits = some (r, k))
      (hv : (s.sem r).value = 0) :
      Moves s (.go t) { s with sem := upd s.sem r { s.sem r with queue := (s.sem r).queue ++ [t] } }
  | passed {t : Nat} {r : ConsoleSem} {k : ConsolePC} (hw : (s.pc t).waits = some (r, k))
      (hv : (s.sem r).value ≠ 0) : Moves s (.go t) (s.passed t r k)
  | put {t : Nat} {ch : UInt8} {rest : List UInt8} (hpc : s.pc t = .putIssue ch rest) :
      Moves s (.go t) (s.putChar t ch (.putDone rest))
  | released {t : Nat} {rest : List UInt8} (hpc : s.pc t = .putRel rest) :
      Moves s (.go t) (s.V t .lock (.putAll rest))
  | linePut {t : Nat} {ch : UInt8} {cs : List UInt8} (hpc : s.pc t = .lineLoop (ch :: cs)) :
      Moves s (.go t) (s.putChar t ch (.lineDone cs))
  | lineEnd {t : Nat} (hpc : s.pc t = .lineLoop []) :
      Moves s (.go t) { s with pc := upd s.pc t .lineRel }
  | lineReleased {t : Nat} (hpc : s.pc t = .lineRel) : Moves s (.go t) (s.V t .wLineBlock .idle)
  | interrupted (hp : 0 < s.pending) : Moves s .interrupt s.callBack

theorem moves_of_P {s s' : ConsoleState} {t : Nat} {r : ConsoleSem} {k : ConsolePC}
    (hw : (s.pc t).waits = some (r, k)) (hs : s.P t r k = some s') : Moves s (.go t) s' := by
  unfold P at hs
  split at hs
  · exact absurd hs (by simp)
  by_cases hv : (s.sem r).value = 0
  · rw [Semaphore.P_zero t hv] at hs
    have hs' := Option.some.inj hs
    subst hs'
    exact .slept hw hv
  · rw [Semaphore.P_pos t hv] at hs
    have hs' := Option.some.inj hs
    subst hs'
    exact .passed hw hv

theorem moves_of_advance {s s' : ConsoleState} {t : Nat} (hs : s.advance t = some s') :
    Moves s (.go t) s' := by
  unfold advance at hs
  split at hs
  case h_6 => exact absurd hs (by simp)
  all_goals
    rename_i hpc
    have hs' := Option.some.inj hs
    subst hs'
  case h_1 => exact .put hpc
  case h_2 => exact .released hpc
  case h_3 => exact .lineEnd hpc
  case h_4 => exact .linePut hpc
  case h_5 => exact .lineReleased hpc

theorem moves_of_step {s s' : ConsoleState} {e : ConsoleEvent} (hs : s.step e = some s') :
    s.aborted = false ∧ Moves s e s' := by
  unfold step at hs
  split at hs
  · exact absurd hs (by simp)
  rename_i ha
  refine ⟨Bool.eq_false_iff.mpr ha, ?_⟩
  cases e with
  | call t c =>
      dsimp only at hs
      split at hs
      · rename_i hpc
        have hs' := Option.some.inj hs
        subst hs'
        exact .called hpc
      · exact absurd hs (by simp)
  | go t =>
      dsimp only at hs
      split at hs
      · rename_i hw
        exact moves_of_P hw hs
      · exact moves_of_advance hs
  | interrupt =>
      dsimp only at hs
      split at hs
      · rename_i hp
        have hs' := Option.some.inj hs
        subst hs'
        exact .interrupted hp
      · exact absurd hs (by simp)

theorem consoleInv_step {s s' : ConsoleState} {e : ConsoleEvent} (h : ConsoleInv s)
    (hg : OneAtATime s e) (hs : s.step e = some s') : ConsoleInv s' := by
  obtain ⟨_, hm⟩ := moves_of_step hs
  cases hm with
  | @called t c hpc =>
      obtain ⟨h1, h2, h3⟩ := ConsolePC.outside_start c
      exact
        { lock := h.lock.upd_same (by rw [hpc, h1]; rfl)
          line := h.line.upd_same (by rw [hpc, h2]; rfl), apart := h.apart
          device := h.device.upd_same (by rw [hpc, h3]; rfl), nonneg := h.nonneg
          busy := h.busy, sound := h.sound }
  | slept hw hv => exact consoleInv_sleep h _ _
  | passed hw hv => exact consoleInv_pass h hg hw hv
  | put hpc =>
      exact consoleInv_putChar h (.inl (by rw [hpc]; rfl)) (by rw [hpc]; rfl) rfl
        (by rw [hpc]; rfl) (by rw [hpc]; rfl)
  | released hpc => exact consoleInv_release h hpc
  | linePut hpc =>
      exact consoleInv_putChar h (.inr (by rw [hpc]; rfl)) (by rw [hpc]; rfl) rfl
        (by rw [hpc]; rfl) (by rw [hpc]; rfl)
  | lineEnd hpc =>
      exact
        { lock := h.lock.upd_same (by rw [hpc]; rfl), line := h.line.upd_same (by rw [hpc]; rfl),
          apart := h.apart, device := h.device.upd_same (by rw [hpc]; rfl), nonneg := h.nonneg,
          busy := h.busy, sound := h.sound }
  | lineReleased hpc => exact consoleInv_free h hpc
  | interrupted hp => exact consoleInv_callBack h hp

theorem consoleInv_start : ConsoleInv start where
  lock := .inl ⟨rfl, fun _ => Bool.noConfusion⟩
  line := .inl ⟨rfl, fun _ => Bool.noConfusion⟩
  apart := .inl rfl
  device := .inl ⟨rfl, fun _ => Bool.noConfusion⟩
  nonneg := Int.le_refl 0
  busy := rfl
  sound := rfl

/--
**The display is written one character at a time.**

In every run, with any number of threads and any order of their calls and the interrupts, in which
a thread gets one of the two locks only while the other one is free, the assertion in
`ConsoleOutput::PutChar` never fails.
-/
theorem console_exclusive (s : ConsoleState) (h : sys.ReachBy OneAtATime s) :
    s.aborted = false := by
  have hI : ConsoleInv s := by
    refine h.invariant ?_ ?_
    · intro s hs; subst hs; exact consoleInv_start
    · intro s e s' _ hI hg hs; exact consoleInv_step hI hg hs
  exact hI.sound

/-- Thread 1 prints `-5`, then thread 2 prints `A`. -/
theorem console_exclusive_turns : ∃ s, sys.ReachBy OneAtATime s ∧ s.written = [45, 53, 65]
    ∧ s.aborted = false := by
  have hrun : (sys.runBy OneAtATime start
      ([.call 1 (.printNum (-5)), .go 1, .go 1, .interrupt, .go 1, .go 1,
        .go 1, .go 1, .interrupt, .go 1, .go 1,
        .call 2 (.printChar 65), .go 2, .go 2])).map (fun s => s.written) = some [45, 53, 65] := by
    decide +kernel
  obtain ⟨s, hs, hw⟩ := Option.map_eq_some_iff.mp hrun
  have hr := Base.System.ReachBy.runBy _ (.init rfl) hs
  exact ⟨s, hr, hw, console_exclusive s hr⟩

/-- Thread 1 is inside `PutChar` and waits for its digit; thread 2 comes in through `Write`. -/
theorem console_two_entries : ¬ ∀ s, sys.Reachable s → s.aborted = false := by
  intro h
  have hrun : (sys.run start [.call 1 (.printNum 5), .call 2 (.printChar 65), .go 1, .go 1, .go 1,
      .go 2, .go 2]).map (fun s => s.aborted) = some true := by
    decide +kernel
  obtain ⟨s, hs, ha⟩ := Option.map_eq_some_iff.mp hrun
  rw [h s (Base.System.Reachable.of_run rfl hs)] at ha
  exact Bool.noConfusion ha

end ConsoleState

end Nachos
