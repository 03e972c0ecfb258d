import Nachos.Test.WaterSystem

/-!
# Whose turn it is

At most one of the three programs has the turn, or it is in one of the semaphores `main`,
`student` and `watertap`; `main_watertap` has no part in it. Only `student` with the turn
opens `watertap.txt` for writing, only `watertap` with the turn opens it for reading, and both
close it before they pass the turn on.

There is one way to get a second turn: when `watertap` finds no `result.txt` it signals `student`
without having been called. It is gone then, and its file with it.
-/

namespace Nachos

namespace WaterSystem

open Base (upd upd_self upd_ne upd_apply)

/-- One if `watersystem_main` has the turn. -/
def MainPc.turn : MainPc → Nat
  | .waitMain => 0
  | .finished => 0
  | _ => 1

/-- What `watersystem_main` has started: nothing, `student`, or both. -/
def MainPc.started : MainPc → Nat
  | .createSemaphores => 0
  | .createOutput => 0
  | .openInput => 0
  | .openOutput => 0
  | .readNum => 0
  | .execStudent => 0
  | .execWatertap => 1
  | _ => 2

/-- One if `student` has the turn. -/
def StudentPc.turn : StudentPc → Nat
  | .unborn => 0
  | .signalFirst => 0
  | .createFirst => 0
  | .waitLine => 0
  | .waitServed => 0
  | .finished => 0
  | _ => 1

/-- Where `student` may have `watertap.txt` open. -/
def StudentPc.holds : StudentPc → Bool
  | .readStudent => true
  | .writeWatertap => true
  | .writeStar => true
  | .closeWatertap => true
  | .closeLast => true
  | _ => false

/-- One if `watertap` has the turn. -/
def WatertapPc.turn : WatertapPc → Nat
  | .unborn => 0
  | .waitMain => 0
  | .openResult => 0
  | .waitVolume => 0
  | .failResult => 0
  | .finished => 0
  | _ => 1

/-- Where `watertap` may have `watertap.txt` open. -/
def WatertapPc.holds : WatertapPc → Bool
  | .readWatertap => true
  | .closeWatertap => true
  | _ => false

theorem StudentPc.turn_of_holds {k : StudentPc} (h : k.holds = true) : k.turn = 1 := by
  cases k <;> simp_all [StudentPc.holds, StudentPc.turn]

theorem WatertapPc.turn_of_holds {k : WatertapPc} (h : k.holds = true) : k.turn = 1 := by
  cases k <;> simp_all [WatertapPc.holds, WatertapPc.turn]

/-- How many turns there are. -/
def turns (s : State) : Nat :=
  s.main.pc.turn + s.sem .main + s.sem .student + s.student.pc.turn + s.sem .watertap +
    s.watertap.pc.turn

/-- `watertap` has found no `result.txt`, or is at its end. -/
def Gone (s : State) : Prop := s.watertap.pc = .failResult ∨ s.watertap.pc = .finished

/-- The turns, and what they say about open files. -/
structure Turns (s : State) : Prop where
  one : Gone s ∨ turns s ≤ 1
  student : s.student.fIDWatertap ≠ none → s.student.pc.holds = true
  watertap : s.watertap.fIDWatertap ≠ none → s.watertap.pc.holds = true
  noStudent : s.main.pc.started = 0 → s.student.pc = .unborn
  noWatertap : s.main.pc.started ≤ 1 → s.watertap.pc = .unborn

theorem not_gone_of_holds {s : State} (h : s.watertap.pc.holds = true) : ¬ Gone s := by
  rintro (hp | hp)
  · rw [hp] at h; exact absurd h (by decide)
  · rw [hp] at h; exact absurd h (by decide)

theorem Turns.apart {s : State} (h : Turns s) : Apart s := by
  rintro ⟨hs, hw⟩
  have h1 := StudentPc.turn_of_holds (h.student hs)
  have h2 := WatertapPc.turn_of_holds (h.watertap hw)
  -- two turns, one for each file, are one too many
  have ho := h.one.resolve_left (not_gone_of_holds (h.watertap hw))
  unfold turns at ho
  omega

/-! ## What a step does to the turns -/

theorem mainStep_cases {s s' : State} (hs : mainStep s = some s') :
    (s'.sem = s.sem ∧ s'.student = s.student ∧ s'.watertap = s.watertap ∧
      s'.main.pc.turn ≤ s.main.pc.turn ∧ s.main.pc.started ≤ s'.main.pc.started) ∨
    (s.main.pc = .createSemaphores ∧ s'.sem = (fun _ => 0) ∧ s'.student = s.student ∧
      s'.watertap = s.watertap ∧ s'.main.pc = .createOutput) ∨
    (s.main.pc = .execStudent ∧ s'.sem = s.sem ∧
      s'.student = { s.student with pc := .signalFirst } ∧
      s'.watertap = s.watertap ∧ s'.main.pc = .execWatertap) ∨
    (s.main.pc = .execWatertap ∧ s'.sem = s.sem ∧ s'.student = s.student ∧
      s'.watertap = { s.watertap with tap1 := 0, tap2 := 0, pc := .waitMain } ∧
      s'.main.pc = .head) ∨
    (s.main.pc = .signalStudent ∧ s'.sem = signal s.sem .student ∧ s'.student = s.student ∧
      s'.watertap = s.watertap ∧ s'.main.pc = .waitMain) ∨
    (s.main.pc = .waitMain ∧ s.sem .main ≠ 0 ∧ s'.sem = upd s.sem .main (s.sem .main - 1) ∧
      s'.student = s.student ∧ s'.watertap = s.watertap ∧ s'.main.pc = .openResult) ∨
    (s.main.pc = .signalWatertap ∧ s'.sem = signal s.sem .mainWatertap ∧ s'.student = s.student ∧
      s'.watertap = s.watertap ∧ s'.main.pc = .closeAgain) := by
  cases hpc : s.main.pc with
  | createSemaphores =>
      refine .inr (.inl ?_)
      simp only [mainStep, hpc, Option.some.injEq] at hs
      subst hs
      exact ⟨rfl, rfl, rfl, rfl, rfl⟩
  | execStudent =>
      refine .inr (.inr (.inl ?_))
      simp only [mainStep, hpc, Option.some.injEq] at hs
      subst hs
      exact ⟨rfl, rfl, rfl, rfl, rfl⟩
  | execWatertap =>
      refine .inr (.inr (.inr (.inl ?_)))
      simp only [mainStep, hpc, Option.some.injEq] at hs
      subst hs
      exact ⟨rfl, rfl, rfl, rfl, rfl⟩
  | signalStudent =>
      refine .inr (.inr (.inr (.inr (.inl ?_))))
      simp only [mainStep, hpc, Option.some.injEq] at hs
      subst hs
      exact ⟨rfl, rfl, rfl, rfl, rfl⟩
  | waitMain =>
      refine .inr (.inr (.inr (.inr (.inr (.inl ?_)))))
      simp only [mainStep, hpc] at hs
      split at hs
      · exact absurd hs (by simp)
      · rename_i hsem
        obtain rfl := Option.some.inj hs
        exact ⟨rfl, hsem, rfl, rfl, rfl, rfl⟩
  | signalWatertap =>
      refine .inr (.inr (.inr (.inr (.inr (.inr ?_)))))
      simp only [mainStep, hpc, Option.some.injEq] at hs
      subst hs
      exact ⟨rfl, rfl, rfl, rfl, rfl⟩
  | finished => exact absurd hs (by simp [mainStep, hpc])
  | _ =>
      -- a step with its own files and variables
      left
      simp only [mainStep, hpc] at hs
      repeat' split at hs
      all_goals
        obtain rfl := Option.some.inj hs
        refine ⟨rfl, rfl, rfl, ?_, ?_⟩
        · simp [MainPc.turn]
        · simp [MainPc.started]

theorem Student.loop_pc (p : Student) : p.loop.pc.holds = true := by
  unfold Student.loop
  split <;> rfl

theorem Student.testFlag_pc (p : Student) (flagWatertap : Bool) :
    (p.testFlag flagWatertap).pc.holds = true := by
  unfold Student.testFlag
  split
  · rfl
  · exact Student.loop_pc _

/-- Where the inner loop of `student` goes from the middle. -/
theorem Student.testEnd_pc (p : Student) (flagWatertap : Bool) :
    (p.testEnd flagWatertap).pc.holds = true := by
  unfold Student.testEnd
  split
  · rfl
  · exact Student.testFlag_pc p flagWatertap

theorem studentStep_cases {s s' : State} (hs : studentStep s = some s') :
    s'.main = s.main ∧ s'.watertap = s.watertap ∧ s.student.pc ≠ .unborn ∧
    ((s'.sem = s.sem ∧ s'.student.pc.turn = s.student.pc.turn) ∨
     (s.student.pc = .signalFirst ∧ s'.sem = signal s.sem .mainWatertap ∧
       s'.student.pc = .createFirst) ∨
     (s.student.pc.turn = 0 ∧ s.sem .student ≠ 0 ∧
       s'.sem = upd s.sem .student (s.sem .student - 1) ∧ s'.student.pc.turn = 1) ∨
     (s.student.pc.turn = 1 ∧ s'.sem = signal s.sem .watertap ∧ s'.student.pc.turn = 0) ∨
     (s.student.pc.turn = 1 ∧ s'.sem = signal s.sem .main ∧ s'.student.pc.turn = 0)) := by
  cases hpc : s.student.pc with
  | unborn => exact absurd hs (by simp [studentStep, hpc])
  | signalFirst =>
      -- `main_watertap` has no part in the turn
      simp only [studentStep, hpc, Option.some.injEq] at hs
      subst hs
      exact ⟨rfl, rfl, by simp, .inr (.inl ⟨rfl, rfl, rfl⟩)⟩
  | waitLine | waitServed =>
      simp only [studentStep, hpc] at hs
      split at hs
      · exact absurd hs (by simp)
      · rename_i hsem
        obtain rfl := Option.some.inj hs
        exact ⟨rfl, rfl, by simp, .inr (.inr (.inl ⟨rfl, hsem, rfl, rfl⟩))⟩
  | signalWatertap =>
      simp only [studentStep, hpc, Option.some.injEq] at hs
      subst hs
      exact ⟨rfl, rfl, by simp, .inr (.inr (.inr (.inl ⟨rfl, rfl, rfl⟩)))⟩
  | signalMain | failSignal =>
      simp only [studentStep, hpc, Option.some.injEq] at hs
      subst hs
      exact ⟨rfl, rfl, by simp, .inr (.inr (.inr (.inr ⟨rfl, rfl, rfl⟩)))⟩
  | finished => exact absurd hs (by simp [studentStep, hpc])
  | _ =>
      -- the turn stays where it is
      simp only [studentStep, hpc] at hs
      repeat' split at hs
      all_goals
        obtain rfl := Option.some.inj hs
        refine ⟨rfl, rfl, by simp, .inl ⟨rfl, ?_⟩⟩
        first
          | rfl
          | exact StudentPc.turn_of_holds (Student.loop_pc _)
          | exact StudentPc.turn_of_holds (Student.testEnd_pc _ _)

theorem studentStep_holds {s s' : State} (hs : studentStep s = some s')
    (h : s.student.fIDWatertap ≠ none → s.student.pc.holds = true) :
    s'.student.fIDWatertap ≠ none → s'.student.pc.holds = true := by
  cases hpc : s.student.pc with
  | unborn => exact absurd hs (by simp [studentStep, hpc])
  | openWatertap | reopenWatertap =>
      simp only [studentStep, hpc] at hs
      split at hs
      · obtain rfl := Option.some.inj hs
        exact fun hne => absurd (h hne) (by rw [hpc]; decide)
      · obtain rfl := Option.some.inj hs
        exact fun _ => Student.loop_pc _
  | readStudent =>
      simp only [studentStep, hpc] at hs
      split at hs
      · obtain rfl := Option.some.inj hs
        exact fun _ => rfl
      · obtain rfl := Option.some.inj hs
        exact fun _ => Student.testEnd_pc _ true
  | writeWatertap =>
      simp only [studentStep, hpc, Option.some.injEq] at hs
      subst hs
      exact fun _ => Student.testEnd_pc _ false
  | writeStar =>
      simp only [studentStep, hpc, Option.some.injEq] at hs
      subst hs
      exact fun _ => Student.testFlag_pc _ true
  | closeWatertap | closeLast =>
      simp only [studentStep, hpc, Option.some.injEq] at hs
      subst hs
      exact fun hne => absurd rfl hne
  | waitLine | waitServed =>
      simp only [studentStep, hpc] at hs
      split at hs
      · exact absurd hs (by simp)
      · obtain rfl := Option.some.inj hs
        exact fun hne => absurd (h hne) (by rw [hpc]; decide)
  | finished => exact absurd hs (by simp [studentStep, hpc])
  | _ =>
      -- the file is closed, and stays so
      simp only [studentStep, hpc] at hs
      repeat' split at hs
      all_goals
        obtain rfl := Option.some.inj hs
        exact fun hne => absurd (h hne) (by rw [hpc]; decide)

theorem Watertap.serve_turn (p : Watertap) : p.serve.pc.turn = 1 := by
  unfold Watertap.serve Watertap.served
  split
  · split <;> rfl
  · split <;> rfl

theorem Watertap.served_turn (p : Watertap) : p.served.pc.turn = 1 := by
  unfold Watertap.served
  split <;> rfl

theorem Watertap.serve_fIDWatertap (p : Watertap) : p.serve.fIDWatertap = p.fIDWatertap := by
  unfold Watertap.serve Watertap.served
  split
  · split <;> rfl
  · split <;> rfl

theorem Watertap.served_fIDWatertap (p : Watertap) : p.served.fIDWatertap = p.fIDWatertap := by
  unfold Watertap.served
  split <;> rfl

theorem watertapStep_cases {s s' : State} (hs : watertapStep s = some s') :
    s'.main = s.main ∧ s'.student = s.student ∧ s.watertap.pc ≠ .unborn ∧
    ((s'.sem = s.sem ∧ ¬ Gone s ∧ s'.watertap.pc.turn = s.watertap.pc.turn) ∨
     (s.watertap.pc = .waitMain ∧ s.sem .mainWatertap ≠ 0 ∧
       s'.sem = upd s.sem .mainWatertap (s.sem .mainWatertap - 1) ∧ s'.watertap.pc = .openResult) ∨
     (s.watertap.pc = .waitVolume ∧ s.sem .watertap ≠ 0 ∧
       s'.sem = upd s.sem .watertap (s.sem .watertap - 1) ∧ s'.watertap.pc = .openWatertap) ∨
     (s.watertap.pc.turn = 1 ∧ s'.sem = signal s.sem .student ∧ s'.watertap.pc.turn = 0) ∨
     (s.watertap.pc = .failResult ∧ s'.watertap.pc = .finished)) := by
  cases hpc : s.watertap.pc with
  | unborn => exact absurd hs (by simp [watertapStep, hpc])
  | waitMain =>
      -- what it gets here is no turn
      simp only [watertapStep, hpc] at hs
      split at hs
      · exact absurd hs (by simp)
      · rename_i hsem
        obtain rfl := Option.some.inj hs
        exact ⟨rfl, rfl, by simp, .inr (.inl ⟨rfl, hsem, rfl, rfl⟩)⟩
  | waitVolume =>
      simp only [watertapStep, hpc] at hs
      split at hs
      · exact absurd hs (by simp)
      · rename_i hsem
        obtain rfl := Option.some.inj hs
        exact ⟨rfl, rfl, by simp, .inr (.inr (.inl ⟨rfl, hsem, rfl, rfl⟩))⟩
  | signalLast | signalNext | failSignal =>
      simp only [watertapStep, hpc, Option.some.injEq] at hs
      subst hs
      exact ⟨rfl, rfl, by simp, .inr (.inr (.inr (.inl ⟨rfl, rfl, rfl⟩)))⟩
  | failResult =>
      -- it signals `student` without a turn of its own
      simp only [watertapStep, hpc, Option.some.injEq] at hs
      subst hs
      exact ⟨rfl, rfl, by simp, .inr (.inr (.inr (.inr ⟨rfl, rfl⟩)))⟩
  | finished => exact absurd hs (by simp [watertapStep, hpc])
  | _ =>
      -- the turn stays where it is
      simp only [watertapStep, hpc] at hs
      repeat' split at hs
      all_goals
        obtain rfl := Option.some.inj hs
        refine ⟨rfl, rfl, by simp, .inl ⟨rfl, by simp [Gone, hpc], ?_⟩⟩
        first
          | rfl
          | exact Watertap.serve_turn _
          | exact Watertap.served_turn _

theorem watertapStep_holds {s s' : State} (hs : watertapStep s = some s')
    (h : s.watertap.fIDWatertap ≠ none → s.watertap.pc.holds = true) :
    s'.watertap.fIDWatertap ≠ none → s'.watertap.pc.holds = true := by
  cases hpc : s.watertap.pc with
  | unborn => exact absurd hs (by simp [watertapStep, hpc])
  | openWatertap =>
      simp only [watertapStep, hpc] at hs
      split at hs
      · obtain rfl := Option.some.inj hs
        exact fun hne => absurd (h hne) (by rw [hpc]; decide)
      · obtain rfl := Option.some.inj hs
        exact fun _ => rfl
  | readWatertap =>
      simp only [watertapStep, hpc] at hs
      repeat' split at hs
      all_goals
        obtain rfl := Option.some.inj hs
        exact fun _ => by simp [WatertapPc.holds]
  | closeWatertap =>
      simp only [watertapStep, hpc, Option.some.injEq] at hs
      subst hs
      exact fun hne => absurd (Watertap.serve_fIDWatertap _) hne
  | writeResult digit =>
      simp only [watertapStep, hpc, Option.some.injEq] at hs
      subst hs
      intro hne
      rw [Watertap.served_fIDWatertap] at hne
      exact absurd (h hne) (by rw [hpc]; exact Bool.false_ne_true)
  | waitMain | waitVolume =>
      simp only [watertapStep, hpc] at hs
      split at hs
      · exact absurd hs (by simp)
      · obtain rfl := Option.some.inj hs
        exact fun hne => absurd (h hne) (by rw [hpc]; decide)
  | finished => exact absurd hs (by simp [watertapStep, hpc])
  | _ =>
      -- the file is closed, and stays so
      simp only [watertapStep, hpc] at hs
      repeat' split at hs
      all_goals
        obtain rfl := Option.some.inj hs
        exact fun hne => absurd (h hne) (by rw [hpc]; decide)

/-! ## Every step keeps the turns -/

theorem Gone.congr {s s' : State} (h : s'.watertap = s.watertap) (hg : Gone s) : Gone s' := by
  unfold Gone
  rw [h]
  exact hg

/-- A step of `watersystem_main` that leaves the others where they are and makes no turn. -/
theorem Turns.main_moves {s s' : State} (h : Turns s) (hS : s'.student = s.student)
    (hW : s'.watertap = s.watertap) (ht : turns s' ≤ turns s)
    (hb : s.main.pc.started ≤ s'.main.pc.started) : Turns s' :=
  ⟨h.one.imp (Gone.congr hW) fun ho => Nat.le_trans ht ho, hS ▸ h.student, hW ▸ h.watertap,
    fun h0 => hS ▸ h.noStudent (by omega), fun h1 => hW ▸ h.noWatertap (by omega)⟩

/-- Who is not there has no file open. -/
theorem Turns.student_closed {s : State} (h : Turns s) (hu : s.student.pc = .unborn) :
    s.student.fIDWatertap = none := by
  by_contra hne
  have hh := h.student hne
  rw [hu] at hh
  exact absurd hh (by decide)

theorem Turns.watertap_closed {s : State} (h : Turns s) (hu : s.watertap.pc = .unborn) :
    s.watertap.fIDWatertap = none := by
  by_contra hne
  have hh := h.watertap hne
  rw [hu] at hh
  exact absurd hh (by decide)

theorem mainStep_turns {s s' : State} (h : Turns s) (hs : mainStep s = some s') : Turns s' := by
  rcases mainStep_cases hs with ⟨hsem, hS, hW, ht, hb⟩ | ⟨hp, hsem, hS, hW, hp'⟩ |
    ⟨hp, hsem, hS, hW, hp'⟩ | ⟨hp, hsem, hS, hW, hp'⟩ | ⟨hp, hsem, hS, hW, hp'⟩ |
    ⟨hp, hne, hsem, hS, hW, hp'⟩ | ⟨hp, hsem, hS, hW, hp'⟩
  · -- its own files only
    refine h.main_moves hS hW ?_ hb
    simp only [turns, hsem, hS, hW]
    omega
  · refine h.main_moves hS hW ?_ (by rw [hp, hp']; decide)
    simp only [turns, hsem, hS, hW, hp, hp', MainPc.turn]
    omega
  · -- `Exec` of `student`, which has no turn before it is called
    have hu := h.noStudent (by rw [hp]; rfl)
    refine ⟨h.one.imp (Gone.congr hW) fun ho => ?_, ?_, hW ▸ h.watertap, ?_,
      fun _ => hW ▸ h.noWatertap (by rw [hp]; decide)⟩
    · simp only [turns, hsem, hS, hW, hp, hp', hu, MainPc.turn, StudentPc.turn] at ho ⊢
      omega
    · rw [hS]
      exact fun hne => absurd (h.student_closed hu) hne
    · rw [hp']
      exact fun h0 => absurd h0 (by decide)
  · -- `Exec` of `watertap`, which is not gone if it was not there
    have hu := h.noWatertap (by rw [hp]; decide)
    refine ⟨?_, hS ▸ h.student, ?_, ?_, ?_⟩
    · have ho := h.one.resolve_left (by unfold Gone; rw [hu]; decide)
      right
      simp only [turns, hsem, hS, hW, hp, hp', hu, MainPc.turn, WatertapPc.turn] at ho ⊢
      omega
    · rw [hW]
      exact fun hne => absurd (h.watertap_closed hu) hne
    · rw [hp']
      exact fun h0 => absurd h0 (by decide)
    · rw [hp']
      exact fun h0 => absurd h0 (by decide)
  · -- the turn is put into the semaphore `student`
    refine h.main_moves hS hW ?_ (by rw [hp, hp']; decide)
    simp only [turns, hsem, hS, hW, hp, hp', signal, upd_apply, MainPc.turn, reduceCtorEq, if_true,
      if_false]
    omega
  · -- and taken from `main`
    refine h.main_moves hS hW ?_ (by rw [hp, hp']; decide)
    simp only [turns, hsem, hS, hW, hp, hp', upd_apply, MainPc.turn, reduceCtorEq,
      if_true, if_false]
    omega
  · -- `main_watertap` is not counted
    refine h.main_moves hS hW ?_ (by rw [hp, hp']; decide)
    simp only [turns, hsem, hS, hW, hp, hp', signal, upd_apply, MainPc.turn, reduceCtorEq, if_false]
    omega

theorem studentStep_turns {s s' : State} (h : Turns s) (hs : studentStep s = some s') :
    Turns s' := by
  obtain ⟨hone, hst, hw, hns, hnw⟩ := h
  obtain ⟨hM, hW, hb, hk⟩ := studentStep_cases hs
  refine ⟨hone.imp (Gone.congr hW) fun ho => ?_, studentStep_holds hs hst, hW ▸ hw, ?_, ?_⟩
  · rcases hk with ⟨hsem, ht⟩ | ⟨hp, hsem, hp'⟩ | ⟨ht, hne, hsem, ht'⟩ | ⟨ht, hsem, ht'⟩
      | ⟨ht, hsem, ht'⟩
    · simp only [turns, hM, hW, hsem, ht] at ho ⊢
      omega
    · simp only [turns, hM, hW, hsem, hp, hp', StudentPc.turn, signal, upd_apply, reduceCtorEq,
        if_false] at ho ⊢
      omega
    · simp only [turns, hM, hW, hsem, ht, ht', upd_apply, reduceCtorEq, if_true, if_false] at ho ⊢
      omega
    · simp only [turns, hM, hW, hsem, ht, ht', signal, upd_apply, reduceCtorEq, if_true,
        if_false] at ho ⊢
      omega
    · simp only [turns, hM, hW, hsem, ht, ht', signal, upd_apply, reduceCtorEq, if_true,
        if_false] at ho ⊢
      omega
  · rw [hM]
    exact fun h0 => absurd (hns h0) hb
  · rw [hM, hW]
    exact hnw

theorem watertapStep_turns {s s' : State} (h : Turns s) (hs : watertapStep s = some s') :
    Turns s' := by
  obtain ⟨hone, hst, hw, hns, hnw⟩ := h
  obtain ⟨hM, hS, hb, hk⟩ := watertapStep_cases hs
  refine ⟨?_, hS ▸ hst, watertapStep_holds hs hw, ?_, ?_⟩
  · rcases hk with ⟨hsem, hg, ht⟩ | ⟨hp, hne, hsem, hp'⟩ | ⟨hp, hne, hsem, hp'⟩
      | ⟨ht, hsem, ht'⟩ | ⟨_, hp'⟩
    · have ho := hone.resolve_left hg
      right
      simp only [turns, hM, hS, hsem, ht] at ho ⊢
      omega
    · have ho := hone.resolve_left (by unfold Gone; rw [hp]; decide)
      right
      simp only [turns, hM, hS, hsem, hp, hp', WatertapPc.turn, upd_apply, reduceCtorEq,
        if_false] at ho ⊢
      omega
    · have ho := hone.resolve_left (by unfold Gone; rw [hp]; decide)
      right
      simp only [turns, hM, hS, hsem, hp, hp', WatertapPc.turn, upd_apply, reduceCtorEq, if_true,
        if_false] at ho ⊢
      omega
    · have hg : ¬ Gone s := by
        rintro (hp | hp)
        · rw [hp] at ht; exact absurd ht (by decide)
        · rw [hp] at ht; exact absurd ht (by decide)
      -- the turn goes from `watertap` to the semaphore `student`
      have ho := hone.resolve_left hg
      right
      simp only [turns, hM, hS, hsem, ht, ht', signal, upd_apply, reduceCtorEq, if_true,
        if_false] at ho ⊢
      omega
    -- the second turn: but `watertap` is gone
    · exact Or.inl (Or.inr hp')
  · rw [hM, hS]
    exact hns
  · rw [hM]
    exact fun h1 => absurd (hnw h1) hb

theorem step_turns {s s' : State} {l : Proc} (h : Turns s) (hs : step s l = some s') :
    Turns s' := by
  cases l with
  | main => exact mainStep_turns h hs
  | student => exact studentStep_turns h hs
  | watertap => exact watertapStep_turns h hs

/-- **The turns hold in every state of every run.** -/
theorem turns_reachable {I : Input} {result : Option (List UInt8)} {s : State}
    (h : (sys I result).Reachable s) : Turns s := by
  refine Base.System.ReachBy.invariant (I := Turns) ?_ (fun s l s' _ hi _ hs => step_turns hi hs) h
  rintro s ⟨-, -, hsem, hm, hsp, -, hsf, hwp, hwf, -⟩
  refine ⟨Or.inr ?_, fun hne => absurd hsf hne,
    fun hne => absurd hwf hne, fun _ => hsp, fun _ => hwp⟩
  simp only [turns, hsem, hm, hsp, hwp, MainPc.turn, StudentPc.turn, WatertapPc.turn]
  omega

end WaterSystem

end Nachos
