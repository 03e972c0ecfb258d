import Nachos.Proof.Console
import Nachos.Proof.Fidelity

/-!
# What a system call puts on the display

Several threads may write at the same time, and what is on the display is a mixture. A
character belongs to the thread whose step put it there. Whatever the others do, a
call that comes back has put exactly its own characters there, in their order; a call
that has the display to itself does come back.

`PrintNum` makes its characters with a negation, a loop that counts digits and a loop
that fills a buffer from the back. They agree with the numeral except for the one
number that has no opposite.
-/

namespace Nachos

open Base (bind_ok bind_eq_of_ok upd upd_self upd_ne System)

/-- The characters that a thread has still to write. -/
def ConsolePC.remaining : ConsolePC → List UInt8
  | .idle => []
  | .putWait ch rest => ch :: rest
  | .putIssue ch rest => ch :: rest
  | .putDone rest => rest
  | .putRel rest => rest
  | .lineWait cs => cs
  | .lineLoop cs => cs
  | .lineDone cs => cs
  | .lineRel => []

theorem ConsolePC.remaining_putAll (cs : List UInt8) : (ConsolePC.putAll cs).remaining = cs := by
  cases cs <;> rfl

/-- A `P` writes nothing. -/
theorem ConsolePC.remaining_waits {p k : ConsolePC} {r : ConsoleSem} (h : p.waits = some (r, k)) :
    k.remaining = p.remaining := by
  cases p <;> simp only [ConsolePC.waits, Option.some.injEq, Prod.mk.injEq, reduceCtorEq] at h
  all_goals obtain ⟨_, rfl⟩ := h; rfl

namespace ConsoleState

/-! ## Whose characters they are -/

/-- The display after some events; those that are not enabled are passed over. -/
def after : ConsoleState → List ConsoleEvent → ConsoleState
  | s, [] => s
  | s, e :: es => after ((s.step e).getD s) es

/-- What thread `t` adds to the display in one event. -/
def puts (t : Nat) (s : ConsoleState) (e : ConsoleEvent) : List UInt8 :=
  if e = .go t then ((s.step e).getD s).written.drop s.written.length else []

/-- What thread `t` adds to the display in a run. -/
def output (t : Nat) : ConsoleState → List ConsoleEvent → List UInt8
  | _, [] => []
  | s, e :: es => puts t s e ++ output t ((s.step e).getD s) es

theorem puts_other {t : Nat} {s : ConsoleState} {e : ConsoleEvent} (h : e ≠ .go t) :
    puts t s e = [] := by
  rw [puts, if_neg h]

theorem puts_go {t : Nat} {s s' : ConsoleState} (h : s.step (.go t) = some s') :
    puts t s (.go t) = s'.written.drop s.written.length := by
  rw [puts, if_pos rfl, h, Option.getD_some]

theorem puts_stuck {t : Nat} {s : ConsoleState} {e : ConsoleEvent} (h : s.step e = none) :
    puts t s e = [] := by
  unfold puts
  rw [h, Option.getD_none, List.drop_length, ite_self]

/-- A step of `t` that hands a character to the device. -/
theorem written_putChar {s : ConsoleState} {t : Nat} {ch : UInt8} {k : ConsolePC}
    (h : (s.putChar t ch k).aborted = false) :
    (s.putChar t ch k).written = s.written ++ [ch] ∧ (s.putChar t ch k).pc = upd s.pc t k := by
  unfold putChar at h ⊢
  split at h
  · exact absurd h (by simp)
  · rename_i hb
    rw [if_neg hb]
    exact ⟨rfl, rfl⟩

/-- **One step**: what thread `t` puts on the display comes off the front of what it has to
write. -/
theorem remaining_go {s s' : ConsoleState} {t : Nat} (h : s.step (.go t) = some s')
    (hs' : s'.aborted = false) :
    (s.pc t).remaining = s'.written.drop s.written.length ++ (s'.pc t).remaining := by
  cases (moves_of_step h).2 with
  | slept => simp
  | passed hw => simp [passed, ConsolePC.remaining_waits hw]
  | put hpc =>
      obtain ⟨hw, hp⟩ := written_putChar hs'
      rw [hw, hp, hpc, upd_self, List.drop_left]
      rfl
  | released hpc =>
      simp only [V, hpc, upd_self, List.drop_length, List.nil_append, ConsolePC.remaining_putAll]
      rfl
  | linePut hpc =>
      obtain ⟨hw, hp⟩ := written_putChar hs'
      rw [hw, hp, hpc, upd_self, List.drop_left]
      rfl
  | lineEnd hpc => simp [hpc, ConsolePC.remaining]
  | lineReleased hpc => simp [V, hpc, ConsolePC.remaining]

theorem pc_putChar {s : ConsoleState} {t u : Nat} (ch : UInt8) (k : ConsolePC) (hu : t ≠ u) :
    (s.putChar u ch k).pc t = s.pc t := by
  unfold putChar
  split
  · rfl
  · exact upd_ne _ _ hu

/-- A step of another thread, or of the device, leaves `t` where it is. -/
theorem pc_other {s s' : ConsoleState} {e : ConsoleEvent} {t : Nat} (h : s.step e = some s')
    (hgo : e ≠ .go t) (hcall : ∀ c, e ≠ .call t c) : s'.pc t = s.pc t := by
  have hgo' : ∀ {u}, e = .go u → t ≠ u := fun he hu => hgo (by rw [he, hu])
  cases (moves_of_step h).2 with
  | called => exact upd_ne _ _ fun hu => hcall _ (by rw [hu])
  | slept => rfl
  | interrupted => rfl
  | put => exact pc_putChar _ _ (hgo' rfl)
  | linePut => exact pc_putChar _ _ (hgo' rfl)
  | passed => exact upd_ne _ _ (hgo' rfl)
  | released => exact upd_ne _ _ (hgo' rfl)
  | lineEnd => exact upd_ne _ _ (hgo' rfl)
  | lineReleased => exact upd_ne _ _ (hgo' rfl)

/-- A display that is stopped stays so. -/
theorem aborted_step {s : ConsoleState} (e : ConsoleEvent)
    (h : ((s.step e).getD s).aborted = false) : s.aborted = false := by
  cases hs : s.aborted with
  | false => rfl
  | true =>
      have hn : s.step e = none := by
        unfold step
        rw [if_pos hs]
      rw [hn, Option.getD_none, hs] at h
      exact absurd h (by simp)

theorem remaining_step {s : ConsoleState} {t : Nat} (e : ConsoleEvent) (hpc : s.pc t ≠ .idle)
    (h : ((s.step e).getD s).aborted = false) :
    (s.pc t).remaining = puts t s e ++ (((s.step e).getD s).pc t).remaining := by
  have hs := aborted_step e h
  cases hst : s.step e with
  | none => rw [puts_stuck hst, Option.getD_none]; rfl
  | some s' =>
      rw [hst, Option.getD_some] at h
      rw [Option.getD_some]
      by_cases hgo : e = .go t
      · subst hgo
        rw [puts_go hst]
        exact remaining_go hst h
      · rw [puts_other hgo, pc_other hst hgo, List.nil_append]
        -- a thread that is in a call does not make another one
        rintro c rfl
        rw [step, if_neg (by rw [hs]; simp), if_neg hpc] at hst
        exact absurd hst (by simp)

/-- From `s` thread `t` has waited until `s'`. -/
structure Waited (t : Nat) (s : ConsoleState) (es : List ConsoleEvent)
    (s' : ConsoleState) : Prop where
  after : s' = s.after es
  sound : s'.aborted = false → s.aborted = false
  output : s'.aborted = false → output t s es = (s.pc t).remaining

theorem waited_done {t : Nat} {s : ConsoleState} {r : Except Stop Unit}
    (hr : Handler.backFromDisplay t s = some r) : Waited t s [] s := by
  refine ⟨rfl, id, fun ha => ?_⟩
  rw [Handler.backFromDisplay, if_neg (by rw [ha]; simp)] at hr
  split at hr
  · rename_i hpc
    rw [hpc]
    rfl
  · exact absurd hr (by simp)

theorem waited_step {t : Nat} {s s' : ConsoleState} {e : ConsoleEvent} {es : List ConsoleEvent}
    (hn : Handler.backFromDisplay t s = none) (h : Waited t ((s.step e).getD s) es s') :
    Waited t s (e :: es) s' := by
  refine ⟨h.after, fun ha => aborted_step e (h.sound ha), fun ha => ?_⟩
  have hs := aborted_step e (h.sound ha)
  have hpc : s.pc t ≠ .idle := by
    intro hpc
    rw [Handler.backFromDisplay, if_neg (by rw [hs]; simp), if_pos hpc] at hn
    exact absurd hn (by simp)
  rw [remaining_step e hpc (h.sound ha), ← h.output ha]
  rfl

/-- **A whole run**: a thread that is back has put on the display what it had to write. -/
theorem output_await {s s' : ConsoleState} {t : Nat} {es es' : List ConsoleEvent}
    (h : sys.await (Handler.backFromDisplay t) s es = some (.ok (), s', es')) :
    ∃ used, es = used ++ es' ∧ s' = s.after used ∧ output t s used = (s.pc t).remaining := by
  have hs' : s'.aborted = false := by
    have hback := System.await_back _ h
    cases ha : s'.aborted with
    | false => rfl
    | true =>
        rw [Handler.backFromDisplay, if_pos ha] at hback
        exact absurd hback (by simp)
  obtain ⟨used, hes, hw⟩ := System.await_rule (R := Waited t) (fun _ _ hr => waited_done hr)
    (fun _ _ _ _ hn hR => waited_step hn hR) es h
  exact ⟨used, hes, hw.after, hw.output hs'⟩

/-! ## A thread that has the display to itself -/

/-- Nobody is writing. -/
structure Free (s : ConsoleState) : Prop where
  lock : s.sem .lock = ⟨1, []⟩
  line : s.sem .wLineBlock = ⟨1, []⟩
  waitFor : s.sem .waitFor = ⟨0, []⟩
  putBusy : s.putBusy = false
  pending : s.pending = 0
  sound : s.aborted = false

theorem free_start : Free start := ⟨rfl, rfl, rfl, rfl, rfl, rfl⟩

theorem await_cons {s s' : ConsoleState} {t : Nat} {e : ConsoleEvent} {es : List ConsoleEvent}
    (hs : s.aborted = false) (hpc : s.pc t ≠ .idle) (h : s.step e = some s') :
    sys.await (Handler.backFromDisplay t) s (e :: es) =
    sys.await (Handler.backFromDisplay t) s' es := by
  have hn : Handler.backFromDisplay t s = none := by
    rw [Handler.backFromDisplay, if_neg (by rw [hs]; simp), if_neg hpc]
  have hst : sys.step s e = some s' := h
  rw [System.await, hn, hst]
  rfl

/-- A `P` that gets through. -/
theorem step_passed {s : ConsoleState} {t : Nat} {r : ConsoleSem} {k : ConsolePC} {v : Int}
    (hs : s.aborted = false) (hw : (s.pc t).waits = some (r, k)) (hv : s.sem r = ⟨v, []⟩)
    (h0 : v ≠ 0) : s.step (.go t) = some (s.passed t r k) := by
  unfold step
  rw [if_neg (by rw [hs]; simp)]
  dsimp only
  rw [hw]
  dsimp only
  unfold P
  rw [if_neg (by rw [hv]; simp), Semaphore.P_pos t (by rw [hv]; exact h0)]
  rfl

theorem step_advance {s s' : ConsoleState} {t : Nat} (hs : s.aborted = false)
    (hw : (s.pc t).waits = none) (h : s.advance t = some s') : s.step (.go t) = some s' := by
  unfold step
  rw [if_neg (by rw [hs]; simp)]
  dsimp only
  rw [hw]
  exact h

theorem step_interrupt {s : ConsoleState} (hs : s.aborted = false) (hp : 0 < s.pending) :
    s.step .interrupt = some s.callBack := by
  unfold step
  rw [if_neg (by rw [hs]; simp)]
  dsimp only
  rw [if_pos hp]

/-- The events of one `PutChar`. -/
def putEvents (t : Nat) : List ConsoleEvent := [.go t, .go t, .interrupt, .go t, .go t]

/-- **One `PutChar`** by a thread that is alone. -/
theorem await_put {s : ConsoleState} {t : Nat} {ch : UInt8} {rest : List UInt8} (hf : Free s)
    (hpc : s.pc t = .putWait ch rest) (es : List ConsoleEvent) :
    ∃ s', sys.await (Handler.backFromDisplay t) s (putEvents t ++ es) =
        sys.await (Handler.backFromDisplay t) s' es ∧
      Free s' ∧ s'.pc t = .putAll rest ∧ s'.written = s.written ++ [ch] := by
  -- `lock`, the device, the interrupt, `waitFor`, and `lock` is given back
  let s₁ := s.passed t .lock (.putIssue ch rest)
  have h₁ : s.step (.go t) = some s₁ :=
    step_passed hf.sound (by rw [hpc]; rfl) hf.lock (by decide)
  have hp₁ : s₁.pc t = .putIssue ch rest := upd_self _ _ _
  let s₂ : ConsoleState := { s₁ with
    putBusy := true, pending := 1, written := s.written ++ [ch], pc := upd s₁.pc t (.putDone rest) }
  have h₂ : s₁.step (.go t) = some s₂ := by
    refine step_advance hf.sound (by rw [hp₁]; rfl) ?_
    have hb : s₁.putBusy = false := hf.putBusy
    have hn : s₁.pending = 0 := hf.pending
    unfold advance
    rw [hp₁]
    dsimp only
    unfold putChar
    rw [if_neg (by rw [hb]; simp), hn]
    rfl
  have hp₂ : s₂.pc t = .putDone rest := upd_self _ _ _
  have h₃ : s₂.step .interrupt = some s₂.callBack := step_interrupt hf.sound Nat.one_pos
  have hw₃ : s₂.callBack.sem .waitFor = ⟨1, []⟩ := by
    show (s.sem .waitFor).V.1 = _
    rw [hf.waitFor]
    rfl
  have hp₃ : s₂.callBack.pc t = .putDone rest := hp₂
  let s₄ := s₂.callBack.passed t .waitFor (.putRel rest)
  have h₄ : s₂.callBack.step (.go t) = some s₄ :=
    step_passed hf.sound (by rw [hp₃]; rfl) hw₃ (by decide)
  have hp₄ : s₄.pc t = .putRel rest := upd_self _ _ _
  have h₅ : s₄.step (.go t) = some (s₄.V t .lock (.putAll rest)) := by
    refine step_advance hf.sound (by rw [hp₄]; rfl) ?_
    unfold advance
    rw [hp₄]
  refine ⟨s₄.V t .lock (.putAll rest), ?_, ⟨?_, hf.line, ?_, rfl, rfl, hf.sound⟩,
    upd_self _ _ _, rfl⟩
  · show sys.await _ s (.go t :: .go t :: .interrupt :: .go t :: .go t :: es) = _
    rw [await_cons hf.sound (by rw [hpc]; simp) h₁,
      await_cons (s := s₁) hf.sound (by rw [hp₁]; simp) h₂,
      await_cons (s := s₂) hf.sound (by rw [hp₂]; simp) h₃,
      await_cons (s := s₂.callBack) hf.sound (by rw [hp₃]; simp) h₄,
      await_cons (s := s₄) hf.sound (by rw [hp₄]; simp) h₅]
  · show (Semaphore.V { s.sem .lock with value := toInt32 ((s.sem .lock).value - 1) }).1 = _
    rw [hf.lock]
    rfl
  · show ({ s₂.callBack.sem .waitFor with
      value := toInt32 ((s₂.callBack.sem .waitFor).value - 1) } : Semaphore) = _
    rw [hw₃]
    rfl

/-- The events of `PutChar` for each of some characters. -/
def putAllEvents (t : Nat) (cs : List UInt8) : List ConsoleEvent := cs.flatMap fun _ => putEvents t

theorem await_putAll {t : Nat} : ∀ (cs : List UInt8) {s : ConsoleState}, Free s →
    s.pc t = .putAll cs →
    ∃ s', sys.await (Handler.backFromDisplay t) s (putAllEvents t cs) = some (.ok (), s', []) ∧
      Free s' ∧ s'.written = s.written ++ cs := by
  intro cs
  induction cs with
  | nil =>
      intro s hf hpc
      refine ⟨s, System.await_now ?_ [], hf, (List.append_nil _).symm⟩
      have hidle : s.pc t = .idle := hpc
      rw [Handler.backFromDisplay, if_neg (by rw [hf.sound]; simp), if_pos hidle]
  | cons ch rest ih =>
      intro s hf hpc
      obtain ⟨s₁, hrun₁, hf₁, hpc₁, hw₁⟩ := await_put hf hpc (putAllEvents t rest)
      obtain ⟨s₂, hrun₂, hf₂, hw₂⟩ := ih hf₁ hpc₁
      refine ⟨s₂, ?_, hf₂, by rw [hw₂, hw₁, List.append_assoc]; rfl⟩
      show sys.await _ s (putEvents t ++ putAllEvents t rest) = _
      rw [hrun₁, hrun₂]

/-- The events of the loop of `Write`, and of its end. -/
def lineEvents (t : Nat) : List UInt8 → List ConsoleEvent
  | [] => [.go t, .go t]
  | _ :: cs => .go t :: .interrupt :: .go t :: lineEvents t cs

/-- **The loop of `Write`** of a thread that is alone. -/
theorem await_line {t : Nat} : ∀ (cs : List UInt8) {s : ConsoleState}, s.aborted = false →
    s.putBusy = false → s.pending = 0 → s.sem .waitFor = ⟨0, []⟩ → s.pc t = .lineLoop cs →
    ∃ s', sys.await (Handler.backFromDisplay t) s (lineEvents t cs) = some (.ok (), s', []) ∧
      s'.written = s.written ++ cs := by
  intro cs
  induction cs with
  | nil =>
      intro s hs hb hp hw hpc
      let s₁ : ConsoleState := { s with pc := upd s.pc t .lineRel }
      have h₁ : s.step (.go t) = some s₁ := by
        refine step_advance hs (by rw [hpc]; rfl) ?_
        unfold advance
        rw [hpc]
      have hp₁ : s₁.pc t = .lineRel := upd_self _ _ _
      have h₂ : s₁.step (.go t) = some (s₁.V t .wLineBlock .idle) := by
        refine step_advance hs (by rw [hp₁]; rfl) ?_
        unfold advance
        rw [hp₁]
      have hidle : (s₁.V t .wLineBlock .idle).pc t = .idle := upd_self _ _ _
      have hback : Handler.backFromDisplay t (s₁.V t .wLineBlock .idle) = some (.ok ()) := by
        rw [Handler.backFromDisplay, if_neg, if_pos hidle]
        show ¬ s.aborted = true
        rw [hs]
        simp
      refine ⟨s₁.V t .wLineBlock .idle, ?_, (List.append_nil _).symm⟩
      show sys.await _ s (.go t :: .go t :: []) = _
      rw [await_cons hs (by rw [hpc]; simp) h₁, await_cons (s := s₁) hs (by rw [hp₁]; simp) h₂,
        System.await_now hback]
  | cons ch cs ih =>
      intro s hs hb hp hw hpc
      -- the character goes to the device, the interrupt posts `waitFor`, and the loop takes it
      let s₁ : ConsoleState := { s with
        putBusy := true, pending := 1, written := s.written ++ [ch], pc :=
          upd s.pc t (.lineDone cs) }
      have h₁ : s.step (.go t) = some s₁ := by
        refine step_advance hs (by rw [hpc]; rfl) ?_
        unfold advance
        rw [hpc]
        dsimp only
        unfold putChar
        rw [if_neg (by rw [hb]; simp), hp]
      have hp₁ : s₁.pc t = .lineDone cs := upd_self _ _ _
      have h₂ : s₁.step .interrupt = some s₁.callBack := step_interrupt hs Nat.one_pos
      have hw₂ : s₁.callBack.sem .waitFor = ⟨1, []⟩ := by
        show (s.sem .waitFor).V.1 = _
        rw [hw]
        rfl
      have hp₂ : s₁.callBack.pc t = .lineDone cs := hp₁
      let s₃ := s₁.callBack.passed t .waitFor (.lineLoop cs)
      have h₃ : s₁.callBack.step (.go t) = some s₃ :=
        step_passed hs (by rw [hp₂]; rfl) hw₂ (by decide)
      have hw₃ : s₃.sem .waitFor = ⟨0, []⟩ := by
        show ({ s₁.callBack.sem .waitFor with
          value := toInt32 ((s₁.callBack.sem .waitFor).value - 1) } : Semaphore) = _
        rw [hw₂]
        rfl
      obtain ⟨s', hrun, hwritten⟩ := ih (s := s₃) hs rfl rfl hw₃ (upd_self _ _ _)
      refine ⟨s', ?_, hwritten.trans (by rw [← List.singleton_append, ← List.append_assoc]; rfl)⟩
      show sys.await _ s (.go t :: .interrupt :: .go t :: lineEvents t cs) = _
      rw [await_cons hs (by rw [hpc]; simp) h₁, await_cons (s := s₁) hs (by rw [hp₁]; simp) h₂,
        await_cons (s := s₁.callBack) hs (by rw [hp₂]; simp) h₃, hrun]

/-! ### Then all that is new on the display is its own -/

/-- Events in which no thread but `t` moves. -/
def Sole (t : Nat) (es : List ConsoleEvent) : Prop := ∀ e ∈ es, ∀ u, e = .go u → u = t

theorem sole_putAllEvents (t : Nat) (cs : List UInt8) : Sole t (putAllEvents t cs) := by
  intro e he u hu
  obtain ⟨_, _, he⟩ := List.mem_flatMap.mp he
  subst hu
  simpa [putEvents] using he

theorem sole_lineEvents (t : Nat) : ∀ cs : List UInt8, Sole t (lineEvents t cs) := by
  intro cs
  induction cs with
  | nil =>
      intro e he u hu
      subst hu
      simpa [lineEvents] using he
  | cons ch cs ih =>
      intro e he u hu
      rcases List.mem_cons.mp he with rfl | he
      · injection hu with hu
        exact hu.symm
      · rcases List.mem_cons.mp he with rfl | he
        · exact absurd hu (by simp)
        · rcases List.mem_cons.mp he with rfl | he
          · injection hu with hu
            exact hu.symm
          · exact ih e he u hu

theorem written_putChar_prefix (s : ConsoleState) (t : Nat) (ch : UInt8) (k : ConsolePC) :
    s.written <+: (s.putChar t ch k).written := by
  unfold putChar
  split
  · exact List.prefix_rfl
  · exact List.prefix_append _ _

/-- Nothing is taken off the display. -/
theorem written_go {s s' : ConsoleState} {t : Nat} (h : s.step (.go t) = some s') :
    s.written <+: s'.written := by
  cases (moves_of_step h).2 with
  | put => exact written_putChar_prefix _ _ _ _
  | linePut => exact written_putChar_prefix _ _ _ _
  | slept => exact List.prefix_rfl
  | passed => exact List.prefix_rfl
  | released => exact List.prefix_rfl
  | lineEnd => exact List.prefix_rfl
  | lineReleased => exact List.prefix_rfl

/-- Only a thread that goes on adds to it. -/
theorem written_other {s s' : ConsoleState} {e : ConsoleEvent} (h : s.step e = some s')
    (hgo : ∀ u, e ≠ .go u) : s'.written = s.written := by
  cases (moves_of_step h).2 with
  | called => rfl
  | interrupted => rfl
  | _ => exact absurd rfl (hgo _)

theorem written_step {s : ConsoleState} {t : Nat} {e : ConsoleEvent} (h : ∀ u, e = .go u → u = t) :
    ((s.step e).getD s).written = s.written ++ puts t s e := by
  cases hst : s.step e with
  | none => rw [puts_stuck hst, List.append_nil, Option.getD_none]
  | some s' =>
      rw [Option.getD_some]
      by_cases hgo : e = .go t
      · subst hgo
        obtain ⟨w, hw⟩ := written_go hst
        rw [puts_go hst, ← hw, List.drop_left]
      · rw [puts_other hgo, List.append_nil]
        exact written_other hst fun u hu => hgo (by rw [hu, h u hu])

/-- **What is new on the display is what `t` put there**, when nobody else moves. -/
theorem written_after {t : Nat} : ∀ (es : List ConsoleEvent) {s : ConsoleState}, Sole t es →
    (s.after es).written = s.written ++ output t s es := by
  intro es
  induction es with
  | nil => intro s _; exact (List.append_nil _).symm
  | cons e es ih =>
      intro s h
      have hrest : Sole t es := fun e' he' => h e' (List.mem_cons_of_mem e he')
      show (((s.step e).getD s).after es).written = s.written ++ (puts t s e ++ _)
      rw [ih hrest, written_step (h e List.mem_cons_self), List.append_assoc]

end ConsoleState

/-! ## System calls that write -/

namespace Kernel

variable {η : Type}

/-- The same kernel with the display in another state, and with another schedule for it. -/
def withDisplay (k : Kernel η) (d : ConsoleState) (run : List ConsoleEvent) : Kernel η :=
  { k with display := d, displayRun := run }

/-- **From `k` to `k'` the caller puts `cs` on the display**: it makes a call there, and `cs` is
what its own steps add until it is back. -/
def Shows (k k' : Kernel η) (cs : List UInt8) : Prop :=
  ∃ c used, k.displayRun = used ++ k'.displayRun ∧
    k'.display = k.display.after (.call k.currentThread c :: used) ∧
    ConsoleState.output k.currentThread k.display (.call k.currentThread c :: used) = cs

/-- The characters of a call of a thread that is alone are all that is new on the display. -/
theorem Shows.written {k k' : Kernel η} {cs : List UInt8} (h : Shows k k' cs)
    (hsole : ConsoleState.Sole k.currentThread k.displayRun) :
    k'.display.written = k.display.written ++ cs := by
  obtain ⟨c, used, hrun, hd, hout⟩ := h
  rw [hd, ConsoleState.written_after, hout]
  intro e he u hu
  rcases List.mem_cons.mp he with rfl | he
  · exact absurd hu (by simp)
  · exact hsole e (by rw [hrun]; exact List.mem_append_left _ he) u hu

/-- Only the display and its schedule matter. -/
theorem Shows.congr {k k₁ k₂ k' : Kernel η} {cs : List UInt8} (h : Shows k₁ k₂ cs)
    (hfirst : k₁.display = k.display ∧ k₁.displayRun = k.displayRun
      ∧ k₁.currentThread = k.currentThread)
    (hlast : k'.display = k₂.display ∧ k'.displayRun = k₂.displayRun) : Shows k k' cs := by
  unfold Shows at h ⊢
  rwa [hfirst.1, hfirst.2.1, hfirst.2.2, ← hlast.1, ← hlast.2] at h

theorem step_call {s : ConsoleState} {t : Nat} (hs : s.aborted = false) (hpc : s.pc t = .idle)
    (c : ConsoleCall) : s.step (.call t c) = some { s with pc := upd s.pc t c.start } := by
  unfold ConsoleState.step
  rw [if_neg (by rw [hs]; simp)]
  dsimp only
  rw [if_pos hpc]

/-- A display that has stopped answers nobody. -/
theorem callDisplay_sound {k k' : Kernel η} {c : ConsoleCall}
    (h : Handler.callDisplay c k = .ok () k') : k.display.aborted = false := by
  cases hs : k.display.aborted with
  | false => rfl
  | true =>
      have hn : k.display.step (.call k.currentThread c) = none := by
        unfold ConsoleState.step
        rw [if_pos hs]
      have hback : Handler.backFromDisplay k.currentThread k.display = some (.error .aborted) := by
        rw [Handler.backFromDisplay, if_pos hs]
      unfold Handler.callDisplay at h
      dsimp only at h
      rw [hn, Option.getD_none, System.await_now hback] at h
      exact absurd h (by simp [Handler.resume])

/-- **A call to the display that comes back has put its characters there.** -/
theorem callDisplay_shows {k k' : Kernel η} {c : ConsoleCall}
    (hidle : k.display.pc k.currentThread = .idle) (h : Handler.callDisplay c k = .ok () k') :
    k' = k.withDisplay k'.display k'.displayRun ∧ Shows k k' c.start.remaining := by
  have hst := step_call (callDisplay_sound h) hidle c
  unfold Handler.callDisplay at h
  obtain ⟨d, run, hawait, rfl⟩ := Handler.resume_ok h
  obtain ⟨used, hrun, hd, hout⟩ := ConsoleState.output_await hawait
  refine ⟨rfl, c, used, hrun, hd, ?_⟩
  show ConsoleState.puts _ _ _ ++ ConsoleState.output _ _ used = _
  rw [ConsoleState.puts_other (by simp), hout, hst]
  simp

/-- **A thread that has the display to itself does come back.** -/
theorem callDisplay_alone {k : Kernel η} {cs : List UInt8} (hf : k.display.Free)
    (hidle : k.display.pc k.currentThread = .idle)
    (hrun : k.displayRun = ConsoleState.putAllEvents k.currentThread cs) :
    ∃ d, Handler.callDisplay (.writeStdout cs) k = .ok () (k.withDisplay d []) ∧
      d.written = k.display.written ++ cs := by
  have hst := step_call hf.sound hidle (.writeStdout cs)
  obtain ⟨d, hawait, _, hw⟩ := ConsoleState.await_putAll (t := k.currentThread) cs
    (s := { k.display with
      pc := upd k.display.pc k.currentThread (ConsoleCall.writeStdout cs).start })
    ⟨hf.lock, hf.line, hf.waitFor, hf.putBusy, hf.pending, hf.sound⟩ (upd_self _ _ _)
  refine ⟨d, ?_, hw⟩
  unfold Handler.callDisplay
  dsimp only
  rw [hst, hrun, Option.getD_some, hawait]
  rfl

/-- The same for `Write`. -/
theorem callDisplay_line {k : Kernel η} {cs : List UInt8} (hf : k.display.Free)
    (hidle : k.display.pc k.currentThread = .idle)
    (hrun : k.displayRun =
      .go k.currentThread :: ConsoleState.lineEvents k.currentThread (cs ++ [0])) :
    ∃ d, Handler.callDisplay (.printString cs) k = .ok () (k.withDisplay d []) ∧
      d.written = k.display.written ++ (cs ++ [0]) := by
  have hst := step_call hf.sound hidle (.printString cs)
  let s₁ : ConsoleState := { k.display with
    pc := upd k.display.pc k.currentThread (ConsoleCall.printString cs).start }
  have hp₁ : s₁.pc k.currentThread = .lineWait (cs ++ [0]) := upd_self _ _ _
  have h₂ : s₁.step (.go k.currentThread) =
      some (s₁.passed k.currentThread .wLineBlock (.lineLoop (cs ++ [0]))) :=
    ConsoleState.step_passed hf.sound (by rw [hp₁]; rfl) hf.line (by decide)
  obtain ⟨d, hawait, hw⟩ := ConsoleState.await_line (t := k.currentThread) (cs ++ [0])
    (s := s₁.passed k.currentThread .wLineBlock (.lineLoop (cs ++ [0]))) hf.sound
    hf.putBusy hf.pending hf.waitFor (upd_self _ _ _)
  refine ⟨d, ?_, hw⟩
  unfold Handler.callDisplay
  dsimp only
  rw [hst, hrun, Option.getD_some,
    ConsoleState.await_cons (s := s₁) hf.sound (by rw [hp₁]; simp) h₂, hawait]
  rfl

end Kernel

/-! ## `PrintNum` -/

/-- The digits of a number. -/
def digits (n : Nat) : List UInt8 := (Nat.toDigits 10 n).map fun c => c.toNat.toUInt8

/-- **The decimal numeral of a number.** -/
def numeral (n : Int) : List UInt8 := if n < 0 then 45 :: digits n.natAbs else digits n.natAbs

/-- The digits, none for zero. -/
def bareDigits (n : Nat) : List UInt8 := if n = 0 then [] else digits n

theorem digitChar_byte {d : Nat} (h : d < 10) :
    (Nat.digitChar d).toNat.toUInt8 = UInt8.ofNat (d + 48) := by
  have hall : ∀ d < 10, (Nat.digitChar d).toNat.toUInt8 = UInt8.ofNat (d + 48) := by decide
  exact hall d h

/-- The last digit comes off the end, as it does in the loops of `PrintNum`. -/
theorem bareDigits_eq {n : Nat} (h : 0 < n) :
    bareDigits n = bareDigits (n / 10) ++ [UInt8.ofNat (n % 10 + 48)] := by
  unfold bareDigits digits
  rw [if_neg (by omega), Nat.toDigits_eq_if (by decide)]
  split
  · rename_i hlt
    rw [if_pos (by omega), Nat.mod_eq_of_lt hlt, List.map_singleton, digitChar_byte hlt]
    rfl
  · rw [if_neg (by omega), List.map_append, List.map_singleton, digitChar_byte (by omega)]

theorem countDigits_eq : ∀ (fuel n : Nat), n ≤ fuel →
    countDigits fuel n = (bareDigits n).length := by
  intro fuel
  induction fuel with
  | zero =>
      intro n h
      have hn : n = 0 := by omega
      subst hn
      rfl
  | succ fuel ih =>
      intro n h
      rw [countDigits]
      split
      · rename_i hpos
        rw [ih (n / 10) (by omega), bareDigits_eq hpos, List.length_append]
        rfl
      · have hn : n = 0 := by omega
        subst hn
        rfl

/-- **The loop that fills the buffer** puts the digits in their places. -/
theorem putDigits_eq (indexStart : Nat) : ∀ (k n : Nat) (buffer : List UInt8),
    k = (bareDigits n).length → indexStart + k ≤ buffer.length →
    putDigits indexStart k n buffer =
      buffer.take indexStart ++ bareDigits n ++ buffer.drop (indexStart + k) := by
  intro k
  induction k with
  | zero =>
      intro n buffer hk hfit
      rw [List.length_eq_zero_iff.mp hk.symm, List.append_nil, Nat.add_zero, List.take_append_drop]
      rfl
  | succ k ih =>
      intro n buffer hk hfit
      have hpos : 0 < n := by
        by_contra hn
        have hn0 : n = 0 := by omega
        subst hn0
        exact absurd hk (by simp [bareDigits])
      have hlen : k = (bareDigits (n / 10)).length := by
        rw [bareDigits_eq hpos, List.length_append] at hk
        simpa using hk
      have hdrop : (buffer.set (indexStart + k) (UInt8.ofNat (n % 10 + 48))).drop (indexStart + k) =
          UInt8.ofNat (n % 10 + 48) :: buffer.drop (indexStart + (k + 1)) := by
        rw [List.drop_eq_getElem_cons (by rw [List.length_set]; omega), List.getElem_set_self,
          List.drop_set_of_lt (by omega)]
        rfl
      rw [putDigits, ih (n / 10) _ hlen (by rw [List.length_set]; omega),
        List.take_set_of_le (by omega), hdrop, bareDigits_eq hpos]
      simp

theorem length_bareDigits {n : Nat} (h : n < 10000000000) : (bareDigits n).length ≤ 10 := by
  unfold bareDigits digits
  split
  · simp
  · rw [List.length_map]
    exact (Nat.length_toDigits_le_iff (by decide) (by decide)).mpr (by simpa using h)

/-- The number whose digits are put in the buffer. -/
theorem printNum_magnitude {n : Int} (hlo : -2147483648 < n) (hhi : n ≤ 2147483647) :
    (if n < 0 then toInt32 (-n) else n).toNat = n.natAbs := by
  split
  · rw [toInt32_of_range (by omega) (by unfold intMax; omega)]
    omega
  · omega

/-- **What `PrintNum` writes** for a number that has an opposite. -/
theorem printNumBuffer_eq {n : Int} (hlo : -2147483648 < n) (hhi : n ≤ 2147483647) (h0 : n ≠ 0) :
    printNumBuffer n = numeral n := by
  have hlen := length_bareDigits (n := n.natAbs) (by omega)
  have hbare : bareDigits n.natAbs = digits n.natAbs := by
    unfold bareDigits
    rw [if_neg (by omega)]
  unfold printNumBuffer numeral
  dsimp only
  rw [printNum_magnitude hlo hhi, countDigits_eq _ _ (Nat.le_refl _)]
  by_cases hneg : n < 0
  · rw [if_pos hneg, if_pos hneg, if_pos hneg, putDigits_eq 1 _ _ _ rfl (by simp; omega), hbare]
    simp [List.replicate]
  · rw [if_neg hneg, if_neg hneg, if_neg hneg, putDigits_eq 0 _ _ _ rfl (by simp; omega), hbare]
    simp

/-- **The buffer is large enough** for any `int`. -/
theorem printNumIndices_lt {n : Int} (hlo : -2147483648 ≤ n) (hhi : n ≤ 2147483647) :
    ∀ i ∈ printNumIndices n, i < 12 := by
  intro i hi
  unfold printNumIndices at hi
  dsimp only at hi
  rw [countDigits_eq _ _ (Nat.le_refl _)] at hi
  have hrange := toInt32_range (-n)
  have hm : (if n < 0 then toInt32 (-n) else n).toNat < 10000000000 := by
    unfold intMax at hrange
    split <;> omega
  generalize (if n < 0 then toInt32 (-n) else n).toNat = m at hi hm
  have hlen := length_bareDigits hm
  rcases List.mem_append.mp hi with hi | hi
  · obtain ⟨j, hj, rfl⟩ := List.mem_map.mp hi
    have hj' := List.mem_range.mp hj
    split <;> omega
  · split at hi
    · rcases List.mem_cons.mp hi with rfl | hi
      · omega
      · rw [List.mem_singleton.mp hi]
        omega
    · rw [List.mem_singleton.mp hi]
      omega

namespace Kernel

variable {η : Type}

/-- **What `PrintNum` is for.** Whatever else happens on the display, a call that comes back has put
the numeral of its argument there; with the display to itself it comes back; and it stays inside its
buffer, which has twelve bytes. -/
structure PrintsNumeral (H : HostOps η) (k : Kernel η) : Prop where
  shows : ∀ d run k', d.pc k.currentThread = .idle →
    exceptionHandler H .syscallException (k.withDisplay d run) = .returned k' →
      Shows (k.withDisplay d run) k' (numeral (k.machine.readRegister 4).toInt)
  returns : ∀ d, d.Free → d.pc k.currentThread = .idle → ∃ run k',
    ConsoleState.Sole k.currentThread run ∧
      exceptionHandler H .syscallException (k.withDisplay d run) = .returned k'
  inside : (k.machine.readRegister 4).toInt ≠ 0 →
    ∀ i ∈ printNumIndices (k.machine.readRegister 4).toInt, i < 12

theorem scPrintNum_eq (k : Kernel η) :
    Handler.scPrintNum k = (do
      Handler.callDisplay (.writeStdout (printNumText (k.machine.readRegister 4).toInt))
      Handler.leave) k := by
  have hread : Handler.readRegister 4 k = .ok (k.machine.readRegister 4).toInt k := rfl
  unfold Handler.scPrintNum printNumText
  rw [bind_eq_of_ok hread]
  split <;> rfl

theorem printNumText_eq {n : Int} (hlo : -2147483648 < n) (hhi : n ≤ 2147483647) :
    printNumText n = numeral n := by
  unfold printNumText
  split
  · rename_i h0
    rw [h0]
    rfl
  · rename_i h0
    exact printNumBuffer_eq hlo hhi h0

section PrintNum

variable {H : HostOps η} {k : Kernel η} {fs : Uid} (hfs : k.fileSystem = some fs)
  (hc : k.syscall = some .printNum)
include hfs hc

theorem dispatch_printNum (d : ConsoleState) (run : List ConsoleEvent) :
    dispatch H .syscallException (k.withDisplay d run) = Handler.scPrintNum (k.withDisplay d run) :=
  dispatch_eq H (show (k.withDisplay d run).fileSystem = some fs from hfs) hc

/-- What is on the display when the call is back. -/
theorem printNum_shows {d : ConsoleState} {run : List ConsoleEvent} {k' : Kernel η}
    (hidle : d.pc k.currentThread = .idle)
    (h : exceptionHandler H .syscallException (k.withDisplay d run) = .returned k') :
    Shows (k.withDisplay d run) k' (printNumText (k.machine.readRegister 4).toInt) := by
  rw [returned_iff, dispatch_printNum hfs hc, scPrintNum_eq] at h
  obtain ⟨_, k₁, hcall, hleave⟩ := bind_ok h
  obtain ⟨_, hshows⟩ := callDisplay_shows hidle hcall
  rw [show (ConsoleCall.writeStdout _).start.remaining = _ from
    ConsolePC.remaining_putAll _] at hshows
  refine hshows.congr ⟨rfl, rfl, rfl⟩ ?_
  have hl : Handler.leave k₁ = .ok .ret k' := hleave
  injection hl with _ hl
  rw [← hl]
  exact ⟨rfl, rfl⟩

/-- With the display to itself the call is back after so many events. -/
theorem printNum_returns {d : ConsoleState} (hf : d.Free) (hidle : d.pc k.currentThread = .idle) :
    ∃ k', exceptionHandler H .syscallException (k.withDisplay d (ConsoleState.putAllEvents
      k.currentThread (printNumText (k.machine.readRegister 4).toInt))) = .returned k' := by
  let cs := printNumText (k.machine.readRegister 4).toInt
  let k₀ := k.withDisplay d (ConsoleState.putAllEvents k.currentThread cs)
  obtain ⟨d', hcall, _⟩ := callDisplay_alone hf hidle
    (show k₀.displayRun = ConsoleState.putAllEvents k₀.currentThread cs from rfl)
  obtain ⟨k', hleave⟩ : ∃ k', Handler.leave (k₀.withDisplay d' []) = .ok .ret k' := ⟨_, rfl⟩
  refine ⟨k', ?_⟩
  rw [returned_iff, dispatch_printNum hfs hc, scPrintNum_eq]
  exact (bind_eq_of_ok hcall).trans hleave

/-- The smallest number has no opposite, and only its sign appears. -/
theorem PrintsNumeral.ne_min (h : PrintsNumeral H k) :
    (k.machine.readRegister 4).toInt ≠ -2147483648 := by
  intro hmin
  obtain ⟨k', hk'⟩ := printNum_returns hfs hc (H := H) ConsoleState.free_start rfl
  have hsole := ConsoleState.sole_putAllEvents k.currentThread
    (printNumText (k.machine.readRegister 4).toInt)
  have hw := (h.shows _ _ _ rfl hk').written hsole
  rw [(printNum_shows hfs hc rfl hk').written hsole, hmin] at hw
  exact absurd (List.append_cancel_left hw) (by decide)

/-- **`PrintNum` writes the numeral of every number but the smallest.** -/
theorem printNum_numeral_iff :
    PrintsNumeral H k ↔ (k.machine.readRegister 4).toInt ≠ -2147483648 := by
  refine ⟨fun h => h.ne_min hfs hc, fun hne => ?_⟩
  have hlo := BitVec.le_toInt (k.machine.readRegister 4)
  have hhi := BitVec.toInt_lt (x := k.machine.readRegister 4)
  refine ⟨fun d run k' hidle hk' => ?_, fun d hf hidle => ?_, fun _ => ?_⟩
  · rw [← printNumText_eq (by omega) (by omega)]
    exact printNum_shows hfs hc hidle hk'
  · obtain ⟨k', hk'⟩ := printNum_returns hfs hc (H := H) hf hidle
    exact ⟨_, k', ConsoleState.sole_putAllEvents _ _, hk'⟩
  · exact printNumIndices_lt (by omega) (by omega)

end PrintNum

/-- The initial process calls `PrintNum(n)`. -/
def printing (n : BitVec 32) : Kernel Unit :=
  { closing n with
    machine.registers := fun r => if r = 2 then 47#32 else if r = 4 then n else 0#32 }

theorem printNum_numeral_negative :
    (printing (BitVec.ofInt 32 (-305))).syscall = some .printNum ∧
      numeral (-305) = [45, 51, 48, 53] ∧
      PrintsNumeral bareHost (printing (BitVec.ofInt 32 (-305))) :=
  ⟨by decide, by decide, (printNum_numeral_iff rfl (by decide)).mpr (by decide)⟩

/-- `PrintNum(-2147483648)` is not the numeral of its argument. -/
theorem printNum_smallest :
    ¬ ∀ (η : Type) (H : HostOps η) (k : Kernel η) (fs : Uid),
      k.fileSystem = some fs → k.syscall = some .printNum → PrintsNumeral H k := by
  intro h
  have hp := h Unit bareHost (printing (BitVec.ofInt 32 (-2147483648))) 0 rfl (by decide)
  exact hp.ne_min rfl (by decide) (by decide)

end Kernel

end Nachos
