import Nachos.Proof.TapPhases

/-!
# The runs of the water system

`student` and `watertap` with the turn, and what follows for every run.
-/

namespace Nachos

namespace WaterSystem

open Base (upd upd_self upd_ne upd_apply Cursor)
open Handler (signedChar)

/-! ## The inner loop of `student` -/

section Loop

variable {V : List (List UInt8)} {rest : List UInt8} {p : Student} {files : Files}

theorem OnLine.pos_succ (h : OnLine V rest 1 p files) : toInt32 (p.pos + 1) = p.pos + 1 := by
  have hp := h.pos
  have hs := h.short
  have hl := h.line.2
  obtain ⟨off, -, ha⟩ := hl
  have hle := ha.length
  exact toInt32_of_range (by omega) (by simp only [intMax]; omega)

theorem OnLine.last_pos (h : OnLine V rest 1 p files) :
    toInt32 (p.fileLength - 1) = p.pos + rest.length := by
  have hp := h.pos
  have hs := h.short
  rw [h.length, toInt32_of_range (by omega) (by simp only [intMax]; omega)]
  omega

theorem OnLine.testEnd_last (h : OnLine V [] 1 p files) (b : Bool) :
    p.testEnd b = { p with pc := .writeStar } := by
  have hl := h.last_pos
  simp only [List.length_nil] at hl
  rw [Student.testEnd, if_pos (by rw [hl]; omega)]

theorem OnLine.testEnd_more (h : OnLine V rest 1 p files) (hne : rest ≠ []) (b : Bool) :
    p.testEnd b = p.testFlag b := by
  have hpos := List.length_pos_iff.mpr hne
  rw [Student.testEnd, h.last_pos, if_neg (by omega)]

theorem OnLine.next_last (h : OnLine V [] 1 p files) :
    p.next = { p with pos := p.pos + 1, pc := .closeLast } := by
  have hp := h.pos
  have hl := h.length
  simp only [List.length_nil] at hp
  rw [Student.next, h.pos_succ, Student.loop, if_neg (by dsimp only; omega)]

theorem OnLine.next_more (h : OnLine V rest 1 p files) (hne : rest ≠ []) :
    p.next = { p with pos := p.pos + 1, pc := .readStudent } := by
  have hpos := List.length_pos_iff.mpr hne
  have hp := h.pos
  have hl := h.length
  rw [Student.next, h.pos_succ, Student.loop, if_pos (by dsimp only; omega)]

/-- The next character. -/
theorem OnLine.succ (h : OnLine V rest 1 p files) {p' : Student} (hf : p'.fIDStudent = p.fIDStudent)
    (hl : p'.fileLength = p.fileLength) (hp : p'.pos = p.pos + 1) : OnLine V rest 0 p' files := by
  refine ⟨hf ▸ h.line, h.short, hl.trans h.length, ?_⟩
  have hpos := h.pos
  rw [hp]
  omega

end Loop

theorem volume_ne_nil {I : Input} {V : List (List UInt8)} (hV : V ∈ I.lines) {v : List UInt8}
    (hv : v ∈ V) : v ≠ [] := by
  rintro rfl
  exact absurd (I.volume_pos V hV [] hv) (by decide)

theorem lineText_ne_nil {v : List UInt8} (h : v ≠ []) (vs : List (List UInt8)) :
    lineText (v :: vs) ≠ [] := by
  rw [lineText_cons]
  exact fun he => h (List.append_eq_nil_iff.mp he).1

section Steps

variable {I : Input} {s s' : State} {V us ws vs : List (List UInt8)} {v : List UInt8}

theorem Waiting.mem {m : Main} {files : Files} (h : Waiting I V m files) : V ∈ I.lines := by
  obtain ⟨-, done, ls, hl, -⟩ := h
  rw [hl]
  simp

theorem Attending.student {p p' : Student} {w : Watertap} {n : Nat} (h : Attending us p w n)
    (hp : p'.pc.fresh = p.pc.fresh) : Attending us p' w n :=
  ⟨by rw [hp]; exact h.signal, h.place, h.going, h.tap1, h.tap2⟩

theorem Done.student {p p' : Student} {w : Watertap} {n : Nat} (h : Done p w n)
    (hp : p'.pc.fresh = p.pc.fresh) : Done p' w n :=
  ⟨h.signal, hp.trans h.fresh, h.place, h.tap1, h.tap2⟩

theorem After.student {p p' : Student} {w : Watertap} {n : Nat} (h : After us ws p w n)
    (hp : p'.pc.fresh = p.pc.fresh) : After us ws p' w n := by
  cases ws with
  | nil => exact Done.student h hp
  | cons v vs => exact Attending.student h hp

/-! ### `student` with the turn -/

section Working

variable (m : Waiting I (us ++ ws) s.main s.files) (p : Working us ws s.student s.files)
  (w : After us ws s.student s.watertap (s.sem .mainWatertap)) (q : Sems 0 0 0 s.sem)
  (hs : studentStep s = some s')

include m p w q hs

/-- The length of the line, which must be an `int`. -/
theorem working_seekEnd (hg : Fits s .student) (hpc : s.student.pc = .seekEnd) : Inv I s' := by
  simp only [Working, hpc] at p
  obtain ⟨rfl, hws, hwf, hrf, hr⟩ := p
  have hlen : (lineText ws).length < 2147483648 := by
    -- what the step is given to start with
    have hf := hg hpc
    rwa [hr.1, Option.getD_some] at hf
  simp only [studentStep, hpc, hr.seek_end hlen, Option.some.injEq] at hs
  subst hs
  exact .working m ⟨rfl, hws, hwf, hrf, hr.1, ⟨_, rfl⟩, hlen, rfl⟩ (w.student (by rw [hpc]; rfl)) q

/-- Back to the start of the line. -/
theorem working_seekStart (hpc : s.student.pc = .seekStart) : Inv I s' := by
  simp only [Working, hpc] at p
  obtain ⟨rfl, hws, hwf, hrf, hf, ⟨off, hoff⟩, hlen, hfl⟩ := p
  simp only [studentStep, hpc, hoff, seek_start hf hlen, Option.some.injEq] at hs
  subst hs
  refine .working m ⟨rfl, hws, hwf, hrf, ⟨hf, 0, rfl, Cursor.start _⟩, hlen, hfl, ?_⟩
    (w.student (by rw [hpc]; rfl)) q
  simp

/-- The inner loop begins, since no line is empty. -/
theorem working_openWatertap (hpc : s.student.pc = .openWatertap) : Inv I s' := by
  have hne : ∀ u ∈ us ++ ws, u ≠ [] := fun u hu => volume_ne_nil m.mem hu
  simp only [Working, hpc] at p
  obtain ⟨rfl, hws, hwf, hrf, hline⟩ := p
  obtain ⟨ho, hr⟩ := openFile_some hwf
  cases ws with
  | nil => exact absurd rfl hws
  | cons v vs =>
      have hv : lineText (v :: vs) ≠ [] := lineText_ne_nil (hne v (by simp)) vs
      have hpos := List.length_pos_iff.mpr hv
      have hp := hline.pos
      have hl := hline.length
      -- the line is not empty, so the loop is entered
      have hlt : s.student.pos < s.student.fileLength := by omega
      simp only [studentStep, hpc, ho, Student.loop, if_pos hlt, Option.some.injEq] at hs
      subst hs
      exact .working m ⟨v, vs, [], v, rfl, rfl, hv, hrf,
        ⟨hline.line, hline.short, hline.length, hline.pos⟩, hr⟩ (w.student (by rw [hpc]; rfl)) q

/-- A character of the line: a digit of a volume, or the space after it. -/
theorem working_readStudent (hpc : s.student.pc = .readStudent) : Inv I s' := by
  have hne : ∀ u ∈ us ++ ws, u ≠ [] := fun u hu => volume_ne_nil m.mem hu
  have hdig : ∀ u ∈ us ++ ws, ∀ c ∈ u, IsDigit c := I.volume_digits _ m.mem
  simp only [Working, hpc] at p
  obtain ⟨v, vs, ds, es, rfl, rfl, hrest, hrf, hline, hr⟩ := p
  cases es with
  | nil =>
      -- the volume is complete, and a space follows
      cases vs with
      | nil => exact absurd rfl hrest
      | cons u vs =>
          obtain ⟨off, hg', hl'⟩ := hline.line.getc s.student.c
          have hu : lineText (u :: vs) ≠ [] := lineText_ne_nil (hne u (by simp)) vs
          -- another volume follows the space, so this is not the end of the queue
          have hline' : OnLine (us ++ (ds ++ []) :: u :: vs) (lineText (u :: vs)) 1
              { s.student with pc := .readStudent, c := 32, fIDStudent := some off } s.files := by
            refine ⟨hl', hline.short, hline.length, ?_⟩
            have hp := hline.pos
            simp only [List.nil_append, tailText_cons, List.length_cons] at hp
            dsimp only
            omega
          simp only [studentStep, hpc, hg', ne_eq, not_true_eq_false, if_false,
            hline'.testEnd_more hu, Student.testFlag, if_true, Option.some.injEq] at hs
          subst hs
          refine .working m ⟨_, _, rfl, hrf, ⟨hl', hline.short, hline.length, hline'.pos⟩, ?_⟩
            (w.student (by rw [hpc]; rfl)) q
          rw [hr.1]
          simp [star]
  | cons e es =>
      obtain ⟨off, hg', hl'⟩ := hline.line.getc s.student.c
      have he : e ≠ 32 := (hdig (ds ++ e :: es) (by simp) e (by simp)).ne (by decide)
      simp only [studentStep, hpc, hg', ne_eq, he, not_false_eq_true, if_true,
        Option.some.injEq] at hs
      subst hs
      refine .working m ⟨_, vs, ds, es, rfl, rfl, hrf, ⟨hl', hline.short, hline.length, ?_⟩, hr⟩
        (w.student (by rw [hpc]; rfl)) q
      have hp := hline.pos
      simp only [List.cons_append, List.length_cons] at hp
      dsimp only
      omega

/-- A digit is passed on. It may be the last of the line. -/
theorem working_writeWatertap (hpc : s.student.pc = .writeWatertap) : Inv I s' := by
  simp only [Working, hpc] at p
  obtain ⟨v, vs, ds, es, rfl, hv, hrf, hline, hr⟩ := p
  obtain ⟨off, hw, hr'⟩ := hr.put [s.student.c]
  have hline' : OnLine (us ++ v :: vs) (es ++ tailText vs) 1
      { s.student with pc := .writeWatertap, fIDWatertap := some off }
      (upd s.files .watertap (some (ds ++ [s.student.c]))) :=
    ⟨hline.line, hline.short, hline.length, hline.pos⟩
  by_cases hrest : es ++ tailText vs = []
  · -- the last character of the line
    obtain ⟨rfl, hvs⟩ := List.append_eq_nil_iff.mp hrest
    have hvs' : vs = [] := by
      cases vs with
      | nil => rfl
      | cons u vs => exact absurd hvs (by simp [tailText_cons])
    subst hvs'
    simp only [studentStep, hpc, hw, hline'.testEnd_last, Option.some.injEq] at hs
    subst hs
    exact .working (m.files rfl rfl rfl)
      ⟨v, rfl, hrf, ⟨hline.line, hline.short, hline.length, hline.pos⟩, hv ▸ hr'⟩
      (w.student (by rw [hpc]; rfl)) q
  · simp only [studentStep, hpc, hw, hline'.testEnd_more hrest, Student.testFlag,
      Bool.false_eq_true, if_false, hline'.next_more hrest, Option.some.injEq] at hs
    subst hs
    exact .working (m.files rfl rfl rfl) ⟨v, vs, ds ++ [s.student.c], es, rfl,
      by rw [hv]; simp, hrest, hrf, hline'.succ rfl rfl rfl, hr'⟩ (w.student (by rw [hpc]; rfl)) q

/-- Round again for the next volume, or out of the loop after the last. -/
theorem working_reopenWatertap (hpc : s.student.pc = .reopenWatertap) : Inv I s' := by
  have hne : ∀ u ∈ us ++ ws, u ≠ [] := fun u hu => volume_ne_nil m.mem hu
  simp only [Working, hpc] at p
  obtain ⟨hrf, hline, hwf⟩ := p
  obtain ⟨ho, hr⟩ := openFile_some hwf
  cases ws with
  | nil =>
      have hline' : OnLine (us ++ []) [] 1
          { s.student with pc := .reopenWatertap, fIDWatertap := some 0 } s.files :=
        ⟨hline.line, hline.short, hline.length, hline.pos⟩
      simp only [studentStep, hpc, ho, hline'.next_last, Option.some.injEq] at hs
      subst hs
      exact .working m ⟨rfl, hrf, hwf⟩ (w.student (by rw [hpc]; rfl)) q
  | cons v vs =>
      have hv : lineText (v :: vs) ≠ [] := lineText_ne_nil (hne v (by simp)) vs
      have hline' : OnLine (us ++ v :: vs) (lineText (v :: vs)) 1
          { s.student with pc := .reopenWatertap, fIDWatertap := some 0 } s.files :=
        ⟨hline.line, hline.short, hline.length, hline.pos⟩
      simp only [studentStep, hpc, ho, hline'.next_more hv, Option.some.injEq] at hs
      subst hs
      exact .working m ⟨v, vs, [], v, rfl, rfl, hv, hrf, hline'.succ rfl rfl rfl, hr⟩
        (w.student (by rw [hpc]; rfl)) q

theorem working_student (hg : Fits s .student) : Inv I s' := by
  cases hpc : s.student.pc with
  | createResult =>
      simp only [Working, hpc] at p
      simp only [studentStep, hpc, Option.some.injEq] at hs
      subst hs
      exact .working (m.files rfl rfl rfl) ⟨p.1, p.2.1, p.2.2, rfl⟩ (w.student (by rw [hpc]; rfl)) q
  | openStudent =>
      simp only [Working, hpc] at p
      obtain ⟨rfl, hws, hwf, hrf⟩ := p
      obtain ⟨ho, hr⟩ := openFile_some m.student_txt
      simp only [studentStep, hpc, ho, Option.some.injEq] at hs
      subst hs
      exact .working m ⟨rfl, hws, hwf, hrf, hr⟩ (w.student (by rw [hpc]; rfl)) q
  | seekEnd => exact working_seekEnd m p w q hs hg hpc
  | seekStart => exact working_seekStart m p w q hs hpc
  | openWatertap => exact working_openWatertap m p w q hs hpc
  | readStudent => exact working_readStudent m p w q hs hpc
  | writeWatertap => exact working_writeWatertap m p w q hs hpc
  | writeStar =>
      simp only [Working, hpc] at p
      obtain ⟨v, rfl, hrf, hline, hr⟩ := p
      obtain ⟨off, hw, hr'⟩ := hr.put [42]
      simp only [studentStep, hpc, hw, Student.testFlag, if_true, Option.some.injEq] at hs
      subst hs
      exact .working (m.files rfl rfl rfl)
        ⟨v, [], rfl, hrf, ⟨hline.line, hline.short, hline.length, hline.pos⟩, rfl⟩
        (w.student (by rw [hpc]; rfl)) q
  | closeWatertap =>
      simp only [Working, hpc] at p
      obtain ⟨v, vs, rfl, hrf, hline, hwf⟩ := p
      simp only [studentStep, hpc, Option.some.injEq] at hs
      subst hs
      exact .working m ⟨v, vs, rfl, hrf, ⟨hline.line, hline.short, hline.length, hline.pos⟩, hwf⟩
        (w.student (by rw [hpc]; rfl)) q
  | signalWatertap =>
      simp only [Working, hpc] at p
      obtain ⟨v, vs, rfl, hrf, hline, hwf⟩ := p
      simp only [studentStep, hpc, Option.some.injEq] at hs
      subst hs
      refine .handed m ⟨rfl, ⟨hline.line, hline.short, hline.length, hline.pos⟩, hwf⟩ hrf
        (Attending.student w (by rw [hpc]; rfl)) ⟨q.1, q.2.1, ?_⟩
      simp only [signal, upd_self, q.2.2]
  | createWatertap =>
      simp only [Working, hpc] at p
      simp only [studentStep, hpc, Option.some.injEq] at hs
      subst hs
      exact .working (m.files rfl rfl rfl)
        ⟨p.1, ⟨p.2.line, p.2.short, p.2.length, p.2.pos⟩, rfl⟩ (w.student (by rw [hpc]; rfl)) q
  | reopenWatertap => exact working_reopenWatertap m p w q hs hpc
  | closeLast =>
      simp only [Working, hpc] at p
      simp only [studentStep, hpc, Option.some.injEq] at hs
      subst hs
      exact .working m p (w.student (by rw [hpc]; rfl)) q
  | closeStudent =>
      simp only [Working, hpc] at p
      simp only [studentStep, hpc, Option.some.injEq] at hs
      subst hs
      exact .working m p (w.student (by rw [hpc]; rfl)) q
  | signalMain =>
      simp only [Working, hpc] at p
      obtain ⟨rfl, hrf, hwf⟩ := p
      simp only [studentStep, hpc, Option.some.injEq] at hs
      subst hs
      rw [List.append_nil] at m
      refine .answered m rfl hwf hrf (Done.student w (by rw [hpc]; rfl)) ⟨?_, q.2.1, q.2.2⟩
      simp only [signal, upd_self, q.1]
  | _ => simp only [Working, hpc] at p

end Working

/-- `student` is called, at the head of its loop or before it is there. -/
theorem called_student (m : Waiting I V s.main s.files) (p : Idle s.student s.files)
    (w : Attending [] s.student s.watertap (s.sem .mainWatertap)) (q : Sems 0 1 0 s.sem)
    (hs : studentStep s = some s') : Inv I s' := by
  by_cases hpc : s.student.pc = .waitLine
  · have hwf : s.files .watertap = some [] := by
      rcases p with h | h | h | ⟨-, h⟩
      · rw [hpc] at h; exact absurd h (by decide)
      · rw [hpc] at h; exact absurd h (by decide)
      · rw [hpc] at h; exact absurd h (by decide)
      · exact h
    have hV : V ≠ [] := I.lines_ne V m.mem
    have h1 : ¬ (1 : Nat) = 0 := by decide
    simp only [studentStep, hpc, q.2.1, if_neg h1, Option.some.injEq] at hs
    subst hs
    cases V with
    | nil => exact absurd rfl hV
    | cons v vs =>
        have p' : Working [] (v :: vs) { s.student with pc := .createResult } s.files :=
          ⟨rfl, hV, hwf⟩
        exact .working m p' (Attending.student w (by rw [hpc]; rfl)) ⟨q.1, rfl, q.2.2⟩
  · obtain ⟨b, p', w'⟩ := idle_student p w hpc hs
    exact .called (m.beside b) p' w' (q.beside b)

/-- The turn goes back to `student`. -/
theorem served_student (m : Waiting I (us ++ v :: vs) s.main s.files)
    (p : Handed us v vs s.student s.files) (r : s.files .result = some (digits (us ++ [v])))
    (w : After (us ++ [v]) vs s.student s.watertap (s.sem .mainWatertap)) (q : Sems 0 1 0 s.sem)
    (hs : studentStep s = some s') : Inv I s' := by
  obtain ⟨hpc, hline, -⟩ := p
  have h1 : ¬ (1 : Nat) = 0 := by decide
  simp only [studentStep, hpc, q.2.1, if_neg h1, Option.some.injEq] at hs
  subst hs
  have hV : us ++ v :: vs = (us ++ [v]) ++ vs := by simp
  rw [hV] at m hline
  exact .working m ⟨r, ⟨hline.line, hline.short, hline.length, hline.pos⟩⟩
    (w.student (by rw [hpc]; rfl)) ⟨q.1, rfl, q.2.2⟩

/-- Where `student` waits, it does not get on without the turn. -/
theorem waiting_student (h : s.student.pc = .waitLine ∨ s.student.pc = .waitServed)
    (h0 : s.sem .student = 0) : studentStep s = none := by
  rcases h with hpc | hpc
  · simp only [studentStep, hpc, h0, if_true]
  · simp only [studentStep, hpc, h0, if_true]

theorem inv_student (hg : Fits s .student) (h : Inv I s) (hs : studentStep s = some s') :
    Inv I s' := by
  cases h with
  | preparing m p w q =>
      have hpc : s.student.pc ≠ .waitLine := fun hpc =>
        absurd ((waiting_student (Or.inl hpc) q.2.1).symm.trans hs) (by simp)
      obtain ⟨b, p', w'⟩ := idle_student p w hpc hs
      exact .preparing (m.beside b) p' w' (q.beside b)
  | called m p w q => exact called_student m p w q hs
  | working m p w q => exact working_student m p w q hs hg
  | served m p r w q => exact served_student m p r w q hs
  | handed m p r w q => exact absurd ((waiting_student (Or.inr p.1) q.2.1).symm.trans hs) (by simp)
  | serving m p w x q => exact absurd ((waiting_student (Or.inr p.1) q.2.1).symm.trans hs) (by simp)
  | answered m p e r w q =>
      exact absurd ((waiting_student (Or.inl p) q.2.1).symm.trans hs) (by simp)
  | writing m p e w q => exact absurd ((waiting_student (Or.inl p) q.2.1).symm.trans hs) (by simp)

/-! ## Steps of `watertap` -/

/-- `watertap` takes the turn, once it has `result.txt`. -/
theorem handed_watertap (hg : Fits s .watertap) (m : Waiting I (us ++ v :: vs) s.main s.files)
    (p : Handed us v vs s.student s.files) (r : s.files .result = some (digits us))
    (w : Attending us s.student s.watertap (s.sem .mainWatertap)) (q : Sems 0 0 1 s.sem)
    (hs : watertapStep s = some s') : Inv I s' := by
  by_cases hpc : s.watertap.pc = .waitVolume
  · have h1 : ¬ (1 : Nat) = 0 := by decide
    simp only [watertapStep, hpc, q.2.2, if_neg h1, Option.some.injEq] at hs
    subst hs
    have hw := w.signal
    have hp := w.place
    have ht1 := w.tap1
    have ht2 := w.tap2
    simp only [hpc, WatertapPc.holding, reduceCtorEq, false_or, true_and] at hw hp ht1 ht2
    refine .serving m p ⟨⟨ht1, ht2⟩, r, _, hp, ?_⟩
      (by dsimp only; rw [upd_ne _ _ (by decide)]; omega) ⟨q.1, q.2.1, rfl⟩
    -- `watertap` is at the end of what it has written for this line
    rw [← digits_length]
    exact Cursor.finish _
  · obtain ⟨b, hst, hf, w'⟩ := attending_watertap w hg hpc hs
    exact .handed (m.beside b) (by rw [hst, hf]; exact p) (by rw [hf]; exact r) w' (q.beside b)

/-- The volumes of a line are small enough. -/
theorem Waiting.sums {m : Main} {files : Files} (h : Waiting I (us ++ v :: vs) m files) :
    (given us).1 + (given us).2 + value v < 2147483648 := by
  have hs := I.sums _ h.mem
  rw [total_append, total] at hs
  have hg := given_total us
  omega

/-- Another digit of a volume. -/
theorem volume_add {ds : List UInt8} {c : UInt8} (hc : IsDigit c) (es : List UInt8)
    (h : value (ds ++ c :: es) < 2147483648) :
    toInt32 ((value ds : Int) * 10 + (signedChar c - 48)) = value (ds ++ [c]) := by
  -- the digits read so far stand for no more than the whole volume
  have hle := value_le (ds ++ [c]) es
  rw [List.append_assoc, List.singleton_append] at hle
  have hv := value_append ds c
  have h48 := hc.1
  rw [signedChar_digit hc]
  rw [toInt32_of_range (by omega) (by simp only [intMax]; omega)]
  omega

/-- The choice of a tap. -/
theorem serve_gave {w : Watertap} (hg : Gave us w) (hv : w.volume = value v) (h0 : 0 < value v)
    (hs : (given us).1 + (given us).2 + value v < 2147483648) :
    ∃ d, digits (us ++ [v]) = digits us ++ [d] ∧ w.serve.pc = .writeResult d ∧
      Gave (us ++ [v]) w.serve ∧ w.serve.fIDResult = w.fIDResult ∧
      w.serve.isEndStudentQueue = w.isEndStudentQueue := by
  obtain ⟨h1, h2⟩ := hg
  have hne : w.volume ≠ 0 := by omega
  refine ⟨_, digits_append us v, ?_⟩
  unfold Gave Watertap.serve
  rw [if_pos hne, given_append]
  by_cases hle : (given us).1 ≤ (given us).2
  · have hle' : w.tap1 ≤ w.tap2 := by omega
    rw [if_pos hle', if_pos hle, if_pos hle]
    refine ⟨rfl, ⟨?_, h2⟩, rfl, rfl⟩
    dsimp only
    rw [h1, hv, toInt32_of_range (by omega) (by simp only [intMax]; omega)]
    omega
  · have hle' : ¬ w.tap1 ≤ w.tap2 := by omega
    rw [if_neg hle', if_neg hle, if_neg hle]
    refine ⟨rfl, ⟨h1, ?_⟩, rfl, rfl⟩
    dsimp only
    rw [h2, hv, toInt32_of_range (by omega) (by simp only [intMax]; omega)]
    omega

section Serving

variable (m : Waiting I (us ++ v :: vs) s.main s.files) (p : Handed us v vs s.student s.files)
  (w : Serving us v vs s.watertap s.files) (x : s.sem .mainWatertap = 0) (q : Sems 0 0 0 s.sem)
  (hs : watertapStep s = some s')

include m p w x q hs

/-- Another digit of the volume, or its end: the star, or the end of the file. -/
theorem serving_readWatertap (hpc : s.watertap.pc = .readWatertap) : Inv I s' := by
  have hsum := m.sums
  simp only [Serving, hpc] at w
  obtain ⟨hgave, hres, ds, es, hv, hvol, hend, hr⟩ := w
  cases es with
  | nil =>
      rw [List.append_nil] at hv
      subst hv
      cases vs with
      | nil =>
          obtain ⟨off, hg, -⟩ := hr.getc s.watertap.c
          have h1 : ¬ (1 : Int) = -2 := by decide
          simp only [watertapStep, hpc, hg, if_neg h1, ne_eq, not_true_eq_false, if_false,
            Option.some.injEq] at hs
          subst hs
          exact .serving m p ⟨hgave, hres, hvol, rfl⟩ x q
      | cons u vs =>
          have heof := hr.eof s.watertap.c
          simp only [watertapStep, hpc, heof, if_true, Option.some.injEq] at hs
          subst hs
          exact .serving m p ⟨hgave, hres, hvol, hend⟩ x q
  | cons e es =>
      obtain ⟨off, hg, hr'⟩ := hr.getc s.watertap.c
      have he : IsDigit e := I.volume_digits _ m.mem v (by simp) e (by rw [hv]; simp)
      have h1 : ¬ (1 : Int) = -2 := by decide
      -- no overflow: the volume is part of a sum that is an `int`
      have hadd : toInt32 ((value ds : Int) * 10 + (signedChar e - 48)) = value (ds ++ [e]) :=
        volume_add he es (by rw [← hv]; omega)
      simp only [watertapStep, hpc, hg, if_neg h1, ne_eq, he.ne (d := 42) (by decide),
        not_false_eq_true, if_true, hvol, hadd, Option.some.injEq] at hs
      subst hs
      exact .serving m p ⟨hgave, hres, ds ++ [e], es, by rw [hv]; simp, rfl, hend, hr'⟩ x q

/-- A tap is chosen, since no volume is zero. -/
theorem serving_closeWatertap (hpc : s.watertap.pc = .closeWatertap) : Inv I s' := by
  have hsum := m.sums
  simp only [Serving, hpc] at w
  obtain ⟨hgave, hres, hvol, hend⟩ := w
  -- a volume of zero would not be written
  have h0 : 0 < value v := I.volume_pos _ m.mem v (by simp)
  have hgave' : Gave us { s.watertap with pc := .closeWatertap, fIDWatertap := none } := hgave
  obtain ⟨d, hd, hpc', hg', hfid, hend'⟩ := serve_gave hgave' hvol h0 hsum
  simp only [watertapStep, hpc, Option.some.injEq] at hs
  subst hs
  refine .serving m p ?_ x q
  simp only [Serving, hpc']
  exact ⟨hg', hfid.symm ▸ hres, hd, hend'.trans hend⟩

/-- The choice is written, and the taps are reset after the last volume. -/
theorem serving_writeResult {d : UInt8} (hpc : s.watertap.pc = .writeResult d) : Inv I s' := by
  simp only [Serving, hpc] at w
  obtain ⟨hgave, hres, hd, hend⟩ := w
  obtain ⟨off, hw, hres'⟩ := hres.put [d]
  rw [← hd] at hw hres'
  simp only [watertapStep, hpc, hw, Watertap.served, hend, Option.some.injEq] at hs
  subst hs
  have p' : Handed us v vs s.student (upd s.files .result (some (digits (us ++ [v])))) :=
    ⟨p.1, ⟨p.2.1.line, p.2.1.short, p.2.1.length, p.2.1.pos⟩, p.2.2⟩
  by_cases hvs : vs = []
  · simp only [hvs, decide_true, if_true]
    subst hvs
    exact .serving (m.files rfl rfl rfl) p' ⟨rfl, rfl, rfl, rfl⟩ x q
  · simp only [hvs, decide_false, Bool.false_eq_true, if_false]
    exact .serving (m.files rfl rfl rfl) p' ⟨hvs, hgave, hres'⟩ x q

/-- The turn goes back to `student`, and `watertap` keeps `result.txt`. -/
theorem serving_signalNext (hpc : s.watertap.pc = .signalNext) : Inv I s' := by
  simp only [Serving, hpc] at w
  obtain ⟨hvs, ⟨ht1, ht2⟩, hres⟩ := w
  simp only [watertapStep, hpc, Option.some.injEq] at hs
  subst hs
  refine .served m p hres.1 ?_ ⟨q.1, ?_, q.2.2⟩
  · cases vs with
    | nil => exact absurd rfl hvs
    | cons u vs =>
        refine ⟨?_, Or.inr (Or.inr (Or.inr ⟨rfl, ?_⟩)), fun _ => rfl, Or.inr ht1, Or.inr ht2⟩
        · simp only [signal, upd_apply, reduceCtorEq, if_false, x, p.1, WatertapPc.holding,
            StudentPc.fresh]
        · rw [← digits_length]
          exact hres.at_end
  · simp only [signal, upd_self, q.2.1]

theorem serving_watertap : Inv I s' := by
  cases hpc : s.watertap.pc with
  | openWatertap =>
      simp only [Serving, hpc] at w
      obtain ⟨ho, hr⟩ := openFile_some p.2.2
      simp only [watertapStep, hpc, ho, Option.some.injEq] at hs
      subst hs
      exact .serving m p ⟨w.1, w.2, [], v, rfl, rfl, rfl, hr⟩ x q
  | readWatertap => exact serving_readWatertap m p w x q hs hpc
  | closeWatertap => exact serving_closeWatertap m p w x q hs hpc
  | writeResult d => exact serving_writeResult m p w x q hs hpc
  | closeResult =>
      simp only [Serving, hpc] at w
      simp only [watertapStep, hpc, Option.some.injEq] at hs
      subst hs
      exact .serving m p w x q
  | signalLast =>
      simp only [Serving, hpc] at w
      obtain ⟨rfl, ht1, ht2, hres⟩ := w
      simp only [watertapStep, hpc, Option.some.injEq] at hs
      subst hs
      refine .served m p hres ⟨x, by rw [p.1]; rfl, rfl, ht1, ht2⟩ ⟨q.1, ?_, q.2.2⟩
      simp only [signal, upd_self, q.2.1]
  | signalNext => exact serving_signalNext m p w x q hs hpc
  | _ => simp only [Serving, hpc] at w

end Serving

/-- `watertap` without the turn, with a line to serve. -/
theorem idle_watertap (hg : Fits s .watertap)
    (w : Attending us s.student s.watertap (s.sem .mainWatertap)) (hv : s.sem .watertap = 0)
    (hs : watertapStep s = some s') :
    Beside s s' ∧ s'.student = s.student ∧ s'.files = s.files ∧
      Attending us s'.student s'.watertap (s'.sem .mainWatertap) := by
  have hpc : s.watertap.pc ≠ .waitVolume := fun hpc => by
    simp only [watertapStep, hpc, hv, if_true, reduceCtorEq] at hs
  exact attending_watertap w hg hpc hs

theorem done_watertap (w : Done s.student s.watertap (s.sem .mainWatertap)) :
    watertapStep s = none := by
  simp only [watertapStep, w.place, w.signal, if_true]

/-- `watertap` without the turn. -/
theorem after_watertap (hg : Fits s .watertap)
    (w : After us ws s.student s.watertap (s.sem .mainWatertap)) (hv : s.sem .watertap = 0)
    (hs : watertapStep s = some s') :
    Beside s s' ∧ s'.student = s.student ∧ s'.files = s.files ∧
      After us ws s'.student s'.watertap (s'.sem .mainWatertap) := by
  -- after the last volume it waits for `main_watertap`, which nobody has signalled
  cases ws with
  | nil => exact absurd ((done_watertap w).symm.trans hs) (by simp)
  | cons u vs => exact idle_watertap hg w hv hs

theorem inv_watertap (hg : Fits s .watertap) (h : Inv I s) (hs : watertapStep s = some s') :
    Inv I s' := by
  cases h with
  | preparing m p w q =>
      obtain ⟨b, hst, hf, w'⟩ := idle_watertap hg w q.2.2 hs
      exact .preparing (m.beside b) (by rw [hst, hf]; exact p) w' (q.beside b)
  | called m p w q =>
      obtain ⟨b, hst, hf, w'⟩ := idle_watertap hg w q.2.2 hs
      exact .called (m.beside b) (by rw [hst, hf]; exact p) w' (q.beside b)
  | working m p w q =>
      obtain ⟨b, hst, hf, w'⟩ := after_watertap hg w q.2.2 hs
      exact .working (m.beside b) (by rw [hst, hf]; exact p) w' (q.beside b)
  | handed m p r w q => exact handed_watertap hg m p r w q hs
  | serving m p w x q => exact serving_watertap m p w x q hs
  | served m p r w q =>
      obtain ⟨b, hst, hf, w'⟩ := after_watertap hg w q.2.2 hs
      exact .served (m.beside b) (by rw [hst, hf]; exact p) (by rw [hf]; exact r) w' (q.beside b)
  | answered m p e r w q => exact absurd ((done_watertap w).symm.trans hs) (by simp)
  | writing m p e w q => exact absurd ((done_watertap w).symm.trans hs) (by simp)

end Steps

/-! ## Runs -/

section Runs

variable {I : Input} {result : Option (List UInt8)} {s s' : State}

theorem inv_init (h : (sys I result).init s) : Inv I s := by
  obtain ⟨hi, -, hsem, hm, hsp, -, -, hwp, -, -⟩ := h
  refine .preparing ?_ (Or.inl hsp) ⟨?_, Or.inl hwp,
    fun hne => absurd rfl hne, Or.inl hwp, Or.inl hwp⟩ ⟨by rw [hsem], by rw [hsem], by rw [hsem]⟩
  · simp only [Preparing, hm]
    exact hi
  · rw [hsem, hsp, hwp]
    rfl

/-- **Every run whose steps go well keeps to the phases.** -/
theorem inv_reachBy (h : (sys I result).ReachBy Fits s) : Inv I s := by
  refine Base.System.ReachBy.invariant (fun s hi => inv_init hi) ?_ h
  intro s l s' hr hi hg hs
  cases l with
  | main => exact inv_main (turns_reachable hr.reachable) hi hs
  | student => exact inv_student hg hi hs
  | watertap => exact inv_watertap hg hi hs

theorem Books.written {done ls : List (List (List UInt8))} {rest part : List UInt8} {m : Main}
    {files : Files}
    (h : Books I done rest part m files) (hl : I.lines = done ++ ls) (hp : 10 ∉ part) :
    Written I files :=
  ⟨done, ls, part, hl, h.output.1, hp⟩

theorem Preparing.written {m : Main} {files : Files} (h : Preparing I m files)
    (h1 : m.pc ≠ .createSemaphores) (h2 : m.pc ≠ .createOutput) : Written I files := by
  have hno : (10 : UInt8) ∉ ([] : List UInt8) := List.not_mem_nil
  cases hpc : m.pc with
  | createSemaphores => exact absurd hpc h1
  | createOutput => exact absurd hpc h2
  | openInput =>
      simp only [Preparing, hpc] at h
      exact ⟨[], I.lines, [], rfl, h.2, hno⟩
  | openOutput =>
      simp only [Preparing, hpc] at h
      exact ⟨[], I.lines, [], rfl, h.2, hno⟩
  | readNum =>
      simp only [Preparing, hpc] at h
      obtain ⟨_, _, -, hb, -⟩ := h
      exact hb.written (List.nil_append _).symm hno
  | execStudent | execWatertap =>
      simp only [Preparing, hpc] at h
      exact h.1.written (List.nil_append _).symm hno
  | head | closeAgain =>
      simp only [Preparing, hpc] at h
      obtain ⟨done, ls, hl, hb, -⟩ := h
      exact hb.written hl hno
  | createStudent | openStudent | closeStudent | signalStudent =>
      simp only [Preparing, hpc] at h
      obtain ⟨done, V, ls, hl, hb, -⟩ := h
      exact hb.written hl hno
  | readInput | writeStudent =>
      simp only [Preparing, hpc] at h
      obtain ⟨done, V, ls, _, _, hl, -, hb, -⟩ := h
      exact hb.written hl hno
  | closeInput | closeOutput | finished =>
      simp only [Preparing, hpc] at h
      exact h
  | waitMain | openResult | readResult | writeOutput | writeSpace | writeEnd | closeResult
  | signalWatertap =>
      simp only [Preparing, hpc] at h

theorem Writing.written {V : List (List UInt8)} {m : Main} {files : Files}
    (h : Writing I V m files) : Written I files := by
  obtain ⟨done, ls, hl, -, h⟩ := h
  cases hpc : m.pc with
  | openResult =>
      simp only [hpc] at h
      exact h.1.written hl List.not_mem_nil
  | readResult | writeOutput =>
      simp only [hpc] at h
      obtain ⟨r₁, r₂, hd, hb, -⟩ := h
      exact hb.written hl (newline_not_mem_spaced hd)
  | writeSpace =>
      simp only [hpc] at h
      obtain ⟨r₁, r₂, hd, hb, -⟩ := h
      refine hb.written hl fun hm => ?_
      rcases List.mem_append.mp hm with hm | hm
      · exact newline_not_mem_spaced hd hm
      · have hc : m.c ∈ digits V := by rw [hd]; simp
        rcases mem_taps _ _ _ _ hc with he | he
        · rw [he] at hm; exact absurd hm (by decide)
        · rw [he] at hm; exact absurd hm (by decide)
  | writeEnd =>
      simp only [hpc] at h
      exact h.written hl (newline_not_mem_spaced (List.append_nil _).symm)
  | closeResult | signalWatertap =>
      simp only [hpc] at h
      have hl' : I.lines = (done ++ [V]) ++ ls := by rw [hl]; simp
      exact h.written hl' List.not_mem_nil
  | _ => simp only [hpc] at h

theorem Waiting.written {V : List (List UInt8)} {m : Main} {files : Files}
    (h : Waiting I V m files) : Written I files := by
  obtain ⟨-, done, ls, hl, hb, -⟩ := h
  exact hb.written hl List.not_mem_nil

/-- What is in `output.txt` in each phase. -/
theorem Inv.written (h : Inv I s) (h1 : s.main.pc ≠ .createSemaphores)
    (h2 : s.main.pc ≠ .createOutput) : Written I s.files := by
  cases h with
  | preparing m p w q => exact m.written h1 h2
  | writing m p e w q => exact m.written
  | called m p w q => exact m.written
  | working m p w q => exact m.written
  | handed m p r w q => exact m.written
  | serving m p w x q => exact m.written
  | served m p r w q => exact m.written
  | answered m p e r w q => exact m.written

theorem Inv.right (h : Inv I s) : OutputRight I s := by
  intro h1 h2 out hout k l hk
  obtain ⟨done, ls, part, hl, ho, hp⟩ := h.written h1 h2
  rw [ho, Option.some.injEq] at hout
  subst hout
  -- the part of a line at the end has no newline yet
  rw [outText, Base.linesOf_lines done (fun V _ => newline_not_mem_tapLine V) hp,
    List.getElem?_map] at hk
  obtain ⟨V, hV, rfl⟩ := Option.map_eq_some_iff.mp hk
  refine ⟨V, ?_, rfl⟩
  rw [hl, List.getElem?_append_left (List.getElem?_eq_some_iff.mp hV).1]
  exact hV

theorem Idle.not_measuring {p : Student} {files : Files} (h : Idle p files) : p.pc ≠ .seekEnd := by
  rcases h with h | h | h | ⟨h, -⟩
  · rw [h]; decide
  · rw [h]; decide
  · rw [h]; decide
  · rw [h]; decide

/-- A line that `student` measures is a line of the input. -/
theorem Inv.fits_student (h : Inv I s) (hlen : ∀ V ∈ I.lines, (lineText V).length < 2147483648) :
    Fits s .student := by
  intro hpc
  cases h with
  | working m p w q =>
      simp only [Working, hpc] at p
      obtain ⟨rfl, -, -, -, hr⟩ := p
      rw [hr.1]
      exact hlen _ m.mem
  | preparing m p w q => exact absurd hpc p.not_measuring
  | called m p w q => exact absurd hpc p.not_measuring
  | handed m p r w q => rw [p.1] at hpc; exact absurd hpc (by decide)
  | serving m p w x q => rw [p.1] at hpc; exact absurd hpc (by decide)
  | served m p r w q => rw [p.1] at hpc; exact absurd hpc (by decide)
  | answered m p e r w q => rw [p] at hpc; exact absurd hpc (by decide)
  | writing m p e w q => rw [p] at hpc; exact absurd hpc (by decide)

/-! ### Files stay -/

theorem createFile_keeps {files : Files} {f : File} (h : files f ≠ none) (g : File) :
    createFile files g f ≠ none := by
  unfold createFile
  rw [upd_apply]
  split
  · exact Option.some_ne_none _
  · exact h

theorem write_keeps {files : Files} {f : File} (h : files f ≠ none) (g : File) (fID : Option Nat)
    (buffer : List UInt8) : (write files g fID buffer).1 f ≠ none := by
  cases fID with
  | none => exact h
  | some off =>
      simp only [write, upd_apply]
      split
      · exact Option.some_ne_none _
      · exact h

/-- What a step may do to the files. -/
inductive Touches (files : Files) : Files → Prop where
  | same : Touches files files
  | create (g : File) : Touches files (createFile files g)
  | write (g : File) (fID : Option Nat) (buffer : List UInt8) :
      Touches files (write files g fID buffer).1

theorem step_touches {l : Proc} (hs : step s l = some s') : Touches s.files s'.files := by
  cases l with
  | main =>
      simp only [step, mainStep] at hs
      split at hs <;> (try split at hs) <;> (try split at hs) <;>
        simp only [Option.some.injEq, reduceCtorEq] at hs <;> subst hs <;>
        first | exact .create _ | exact .write _ _ _ | exact .same
  | student =>
      simp only [step, studentStep] at hs
      split at hs <;> (try split at hs) <;>
        simp only [Option.some.injEq, reduceCtorEq] at hs <;> subst hs <;>
        first | exact .create _ | exact .write _ _ _ | exact .same
  | watertap =>
      simp only [step, watertapStep] at hs
      split at hs <;> (try split at hs) <;> (try split at hs) <;>
        simp only [Option.some.injEq, reduceCtorEq] at hs <;> subst hs <;>
        first | exact .create _ | exact .write _ _ _ | exact .same

theorem step_keeps {l : Proc} {f : File} (h : s.files f ≠ none) (hs : step s l = some s') :
    s'.files f ≠ none := by
  have htouches := step_touches hs
  generalize s'.files = files at htouches
  cases htouches with
  | same => exact h
  | create g => exact createFile_keeps h g
  | write g fID buffer => exact write_keeps h g fID buffer

/-- With a `result.txt` to begin with and lines that can be measured, all steps go well. -/
theorem fits_reachable (hr : result ≠ none) (hlen : ∀ V ∈ I.lines, (lineText V).length < 2147483648)
    (h : (sys I result).Reachable s) : (sys I result).ReachBy Fits s ∧ s.files .result ≠ none := by
  refine Base.System.ReachBy.invariant
    (I := fun s => (sys I result).ReachBy Fits s ∧ s.files .result ≠ none) ?_ ?_ h
  · intro s hi
    exact ⟨.init hi, by rw [hi.2.1]; exact hr⟩
  -- `CreateFile` empties files and nobody removes one
  · rintro s l s' - ⟨hb, hf⟩ - hs
    refine ⟨.tail hb ?_ hs, step_keeps hf hs⟩
    cases l with
    | main => trivial
    | student => exact (inv_reachBy hb).fits_student hlen
    | watertap => exact fun _ => hf

end Runs

/-- **The water taps.** `student` and `watertap` never both have `watertap.txt` open. Every line of
`output.txt` is the greedy choice for the same line of the input in every run in which `watertap`
finds a `result.txt` whenever it opens it, and no line is too long for an `int`; so in every run
that has a `result.txt` to begin with. -/
theorem output_right_when (I : Input) (result : Option (List UInt8)) :
    (∀ s, (sys I result).Reachable s → Apart s) ∧
    (∀ s, (sys I result).ReachBy Fits s → OutputRight I s) ∧
    (result ≠ none → (∀ V ∈ I.lines, (lineText V).length < 2147483648) →
      ∀ s, (sys I result).Reachable s → OutputRight I s) := by
  refine ⟨fun s h => (turns_reachable h).apart, fun s h => (inv_reachBy h).right, ?_⟩
  intro hr hlen s h
  exact (inv_reachBy (fits_reachable hr hlen h).1).right

/-! ### One volume -/

instance decidableFits (s : State) : (l : Proc) → Decidable (Fits s l)
  | .main => isTrue trivial
  | .student => inferInstanceAs (Decidable (_ → _))
  | .watertap => inferInstanceAs (Decidable (_ → _))

/-- One line with the one volume 5. -/
def oneVolume : Input where
  count := [49]
  lines := [[[53]]]
  count_digits := by simp [IsDigit]
  count_value := rfl
  lines_ne := by decide
  volume_digits := by simp [IsDigit]
  volume_pos := by decide
  sums := by decide

/-- Beforehand there is only `input.txt`. -/
def onlyInput : State where
  files := upd (fun _ => none) .input (some oneVolume.bytes)
  sem := fun _ => 0
  main := ⟨.createSemaphores, 0, 0, none, none, none, none⟩
  student := ⟨.unborn, 0, 0, 0, none, none⟩
  watertap := ⟨.unborn, 0, 0, 0, 0, false, none, none⟩

theorem onlyInput_init : (sys oneVolume none).init onlyInput :=
  ⟨rfl, rfl, rfl, rfl, rfl, rfl, rfl, rfl, rfl, rfl⟩

/-- `watersystem_main` up to `Signal("student")`. -/
def firstLine : List Proc := List.replicate 16 .main

/-- `student` hands over the volume before `watertap` moves at all. -/
def studentFirst : List Proc :=
  firstLine ++ List.replicate 13 .student ++ List.replicate 10 .watertap ++
    List.replicate 6 .student ++
    List.replicate 7 .main

/-- `watertap` moves as soon as it is signalled. -/
def watertapFirst : List Proc :=
  firstLine ++ [.student] ++ List.replicate 3 .watertap ++ List.replicate 18 .student ++
    List.replicate 4 .main

theorem output_right_when_studentFirst :
    ∃ s, (sys oneVolume none).ReachBy Fits s ∧ s.files .output = some [49, 32, 13, 10] ∧ Apart s ∧
      OutputRight oneVolume s := by
  have h : ((sys oneVolume none).runBy Fits onlyInput studentFirst).map (fun s => s.files .output) =
      some (some [49, 32, 13, 10]) := by
    decide +kernel
  obtain ⟨s, hs, ho⟩ := Option.map_eq_some_iff.mp h
  have hr : (sys oneVolume none).ReachBy Fits s :=
    Base.System.ReachBy.runBy _ (.init onlyInput_init) hs
  exact ⟨s, hr, ho, (output_right_when oneVolume none).1 s hr.reachable,
    (output_right_when oneVolume none).2.1 s hr⟩

/-- `watertap` finds no `result.txt`, signals `student` and is gone. `student` takes its signal for
the answer, and the line comes out empty. -/
theorem output_wrong_watertapFirst :
    ¬ ∀ (I : Input) (result : Option (List UInt8)) (s : State), (sys I result).Reachable s →
      Apart s ∧ OutputRight I s := by
  intro hall
  have h : ((sys oneVolume none).run onlyInput watertapFirst).map
      (fun s => (s.files .output, s.main.pc)) = some (some [13, 10], .closeResult) := by
    decide +kernel
  obtain ⟨s, hs, ho⟩ := Option.map_eq_some_iff.mp h
  have hr : (sys oneVolume none).Reachable s := .of_run onlyInput_init hs
  simp only [Prod.mk.injEq] at ho
  have hright := (hall oneVolume none s hr).2 (by rw [ho.2]; decide) (by rw [ho.2]; decide) _ ho.1
  obtain ⟨V, hV, hl⟩ := hright 0 [13] rfl
  have hV' : [[53]] = V := Option.some.inj hV
  subst hV'
  exact absurd hl (by decide)

end WaterSystem

end Nachos
