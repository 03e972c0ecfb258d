import Nachos.Proof.Taps

/-!
# The phases of the water system

Under the condition `Fits`, a run goes round for each line of the input: `watersystem_main` prepares
it, `student` is called, works on it and hands over a volume, `watertap` serves it, and so on
until the line is answered and `watersystem_main` writes it out. `Inv` says in which of these
phases a state is, and in each phase what the files hold.

Beside the process that has the turn, two things may happen at any time: `student` may still be at
its beginning, and `watertap` may still have to get hold of `result.txt`. `Attending` is what
these two have in common: until it is used, the one signal of `main_watertap` is somewhere.
-/

namespace Nachos

namespace WaterSystem

open Base (upd upd_self upd_ne upd_apply Cursor)
open Handler (signedChar)

/-- The steps that go well: `watertap` finds a `result.txt` to open, and the line that `student` is
to measure has a length that is an `int`. -/
def Fits (s : State) : Proc → Prop
  | .main => True
  | .student => s.student.pc = .seekEnd → ((s.files .student).getD []).length < 2147483648
  | .watertap => s.watertap.pc = .openResult → s.files .result ≠ none

/-! ## `watersystem_main` -/

/-- `num` after the digits `ds`. -/
def Counted (num : Int) (ds : List UInt8) : Prop :=
  -2147483648 ≤ num ∧ num ≤ intMax ∧ num % 4294967296 = (value ds : Int) % 4294967296

/-- `num` allows for at most `k` lines more. -/
def Left (num : Int) (k : Nat) : Prop := -2147483648 ≤ num ∧ num ≤ intMax ∧ toUInt32 num ≤ k

/-- The two files that `watersystem_main` has open throughout: `rest` is still to be read, the lines
`done` are written, and `part` of one more. -/
structure Books (I : Input) (done : List (List (List UInt8))) (rest part : List UInt8)
    (m : Main) (files : Files) : Prop where
  input : Reads (files .input) m.fIDInput I.bytes rest
  output : Reads (files .output) m.fIDOutput (outText done ++ part) []

/-- What there is of `output.txt` at the end. -/
def Written (I : Input) (files : Files) : Prop :=
  ∃ done ls part, I.lines = done ++ ls ∧ files .output = some (outText done ++ part) ∧ 10 ∉ part

/-- Before the next line is handed to `student`, or after the last. -/
def Preparing (I : Input) (m : Main) (files : Files) : Prop :=
  match m.pc with
  | .createSemaphores => files .input = some I.bytes
  | .createOutput => files .input = some I.bytes
  | .openInput => files .input = some I.bytes ∧ files .output = some []
  | .openOutput => Reads (files .input) m.fIDInput I.bytes I.bytes ∧ files .output = some []
  | .readNum => ∃ ds es, I.count = ds ++ es ∧ Books I [] (es ++ 10 :: inText I.lines) [] m files ∧
      Counted m.num ds
  | .execStudent => Books I [] (inText I.lines) [] m files ∧ Left m.num I.lines.length
  | .execWatertap => Books I [] (inText I.lines) [] m files ∧ Left m.num I.lines.length
  | .head =>
      ∃ done ls, I.lines = done ++ ls ∧ Books I done (inText ls) [] m files ∧ Left m.num ls.length
  | .closeAgain =>
      ∃ done ls, I.lines = done ++ ls ∧ Books I done (inText ls) [] m files ∧ Left m.num ls.length
  | .createStudent => ∃ done V ls, I.lines = done ++ V :: ls ∧
      Books I done (inText (V :: ls)) [] m files ∧ Left m.num ls.length
  | .openStudent => ∃ done V ls, I.lines = done ++ V :: ls ∧
      Books I done (inText (V :: ls)) [] m files ∧ Left m.num ls.length ∧ files .student = some []
  | .readInput => ∃ done V ls t₁ t₂, I.lines = done ++ V :: ls ∧ lineText V = t₁ ++ t₂ ∧
      Books I done (t₂ ++ 10 :: inText ls) [] m files ∧ Left m.num ls.length ∧
      Reads (files .student) m.fIDStudent t₁ []
  | .writeStudent => ∃ done V ls t₁ t₂, I.lines = done ++ V :: ls ∧ lineText V = t₁ ++ m.c :: t₂ ∧
      Books I done (t₂ ++ 10 :: inText ls) [] m files ∧ Left m.num ls.length ∧
      Reads (files .student) m.fIDStudent t₁ []
  | .closeStudent => ∃ done V ls, I.lines = done ++ V :: ls ∧ Books I done (inText ls) [] m files ∧
      Left m.num ls.length ∧ files .student = some (lineText V)
  | .signalStudent => ∃ done V ls, I.lines = done ++ V :: ls ∧ Books I done (inText ls) [] m files ∧
      Left m.num ls.length ∧ files .student = some (lineText V)
  | .closeInput => Written I files
  | .closeOutput => Written I files
  | .finished => Written I files
  | _ => False

/-- While the others work on the line `V`. -/
def Waiting (I : Input) (V : List (List UInt8)) (m : Main) (files : Files) : Prop :=
  m.pc = .waitMain ∧ ∃ done ls, I.lines = done ++ V :: ls ∧ Books I done (inText ls) [] m files ∧
    Left m.num ls.length ∧ files .student = some (lineText V)

/-- While the answer to `V` is copied. -/
def Writing (I : Input) (V : List (List UInt8)) (m : Main) (files : Files) : Prop :=
  ∃ done ls, I.lines = done ++ V :: ls ∧ Left m.num ls.length ∧
    match m.pc with
    | .openResult => Books I done (inText ls) [] m files ∧ files .result = some (digits V)
    | .readResult => ∃ r₁ r₂, digits V = r₁ ++ r₂ ∧ Books I done (inText ls) (spaced r₁) m files ∧
        Reads (files .result) m.fIDResult (digits V) r₂
    | .writeOutput => ∃ r₁ r₂, digits V = r₁ ++ m.c :: r₂ ∧
        Books I done (inText ls) (spaced r₁) m files ∧
        Reads (files .result) m.fIDResult (digits V) r₂
    | .writeSpace => ∃ r₁ r₂, digits V = r₁ ++ m.c :: r₂ ∧
        Books I done (inText ls) (spaced r₁ ++ [m.c]) m files ∧
        Reads (files .result) m.fIDResult (digits V) r₂
    | .writeEnd => Books I done (inText ls) (spaced (digits V)) m files
    | .closeResult => Books I (done ++ [V]) (inText ls) [] m files
    | .signalWatertap => Books I (done ++ [V]) (inText ls) [] m files
    | _ => False

/-! ## `student` -/

/-- One while `student` has not signalled `main_watertap`. -/
def StudentPc.fresh : StudentPc → Nat
  | .unborn => 1
  | .signalFirst => 1
  | _ => 0

/-- Before `student` is called. -/
def Idle (p : Student) (files : Files) : Prop :=
  p.pc = .unborn ∨ p.pc = .signalFirst ∨ p.pc = .createFirst ∨
    (p.pc = .waitLine ∧ files .watertap = some [])

/-- In the middle of the line `V`, with `rest` still to be read and `k` more characters than
`pos` says behind. -/
structure OnLine (V : List (List UInt8)) (rest : List UInt8) (k : Nat) (p : Student)
    (files : Files) : Prop where
  line : Reads (files .student) p.fIDStudent (lineText V) rest
  short : (lineText V).length < 2147483648
  length : p.fileLength = (lineText V).length
  pos : p.pos + k + rest.length = (lineText V).length

/-- The star after the last volume of a line. -/
def star : List (List UInt8) → List UInt8
  | [] => [42]
  | _ :: _ => []

/-- While `student` has the turn: the volumes `us` are served and `ws` are not. -/
def Working (us ws : List (List UInt8)) (p : Student) (files : Files) : Prop :=
  match p.pc with
  | .createResult => us = [] ∧ ws ≠ [] ∧ files .watertap = some []
  | .openStudent => us = [] ∧ ws ≠ [] ∧ files .watertap = some [] ∧ files .result = some []
  | .seekEnd => us = [] ∧ ws ≠ [] ∧ files .watertap = some [] ∧ files .result = some [] ∧
      Reads (files .student) p.fIDStudent (lineText ws) (lineText ws)
  | .seekStart => us = [] ∧ ws ≠ [] ∧ files .watertap = some [] ∧ files .result = some [] ∧
      files .student = some (lineText ws) ∧ (∃ off, p.fIDStudent = some off) ∧
      (lineText ws).length < 2147483648 ∧ p.fileLength = (lineText ws).length
  | .openWatertap => us = [] ∧ ws ≠ [] ∧ files .watertap = some [] ∧ files .result = some [] ∧
      OnLine ws (lineText ws) 0 p files
  | .readStudent => ∃ v vs ds es, ws = v :: vs ∧ v = ds ++ es ∧ es ++ tailText vs ≠ [] ∧
      files .result = some (digits us) ∧ OnLine (us ++ ws) (es ++ tailText vs) 0 p files ∧
      Reads (files .watertap) p.fIDWatertap ds []
  | .writeWatertap => ∃ v vs ds es, ws = v :: vs ∧ v = ds ++ p.c :: es ∧
      files .result = some (digits us) ∧ OnLine (us ++ ws) (es ++ tailText vs) 1 p files ∧
      Reads (files .watertap) p.fIDWatertap ds []
  | .writeStar =>
      ∃ v, ws = [v] ∧ files .result = some (digits us) ∧ OnLine (us ++ ws) [] 1 p files ∧
      Reads (files .watertap) p.fIDWatertap v []
  | .closeWatertap => ∃ v vs, ws = v :: vs ∧ files .result = some (digits us) ∧
      OnLine (us ++ ws) (lineText vs) 1 p files ∧ files .watertap = some (v ++ star vs)
  | .signalWatertap => ∃ v vs, ws = v :: vs ∧ files .result = some (digits us) ∧
      OnLine (us ++ ws) (lineText vs) 1 p files ∧ files .watertap = some (v ++ star vs)
  | .createWatertap => files .result = some (digits us) ∧ OnLine (us ++ ws) (lineText ws) 1 p files
  | .reopenWatertap =>
      files .result = some (digits us) ∧ OnLine (us ++ ws) (lineText ws) 1 p files ∧
      files .watertap = some []
  | .closeLast => ws = [] ∧ files .result = some (digits us) ∧ files .watertap = some []
  | .closeStudent => ws = [] ∧ files .result = some (digits us) ∧ files .watertap = some []
  | .signalMain => ws = [] ∧ files .result = some (digits us) ∧ files .watertap = some []
  | _ => False

/-- While `watertap` has the volume `v`. -/
def Handed (us : List (List UInt8)) (v : List UInt8) (vs : List (List UInt8)) (p : Student)
    (files : Files) : Prop :=
  p.pc = .waitServed ∧ OnLine (us ++ v :: vs) (lineText vs) 1 p files ∧
    files .watertap = some (v ++ star vs)

/-! ## `watertap` -/

/-- One while `watertap` has used the signal of `main_watertap` and has not served a line since. -/
def WatertapPc.holding : WatertapPc → Nat
  | .openResult => 1
  | .waitVolume => 1
  | _ => 0

/-- Ready for the volume after `us`. -/
structure Attending (us : List (List UInt8)) (p : Student) (w : Watertap)
    (mainWatertap : Nat) : Prop where
  signal : mainWatertap + w.pc.holding + p.pc.fresh = 1
  place : w.pc = .unborn ∨ w.pc = .waitMain ∨ w.pc = .openResult ∨
    (w.pc = .waitVolume ∧ w.fIDResult = some us.length)
  going : us ≠ [] → w.pc = .waitVolume
  tap1 : w.pc = .unborn ∨ w.tap1 = (given us).1
  tap2 : w.pc = .unborn ∨ w.tap2 = (given us).2

/-- After the last volume of a line. -/
structure Done (p : Student) (w : Watertap) (mainWatertap : Nat) : Prop where
  signal : mainWatertap = 0
  fresh : p.pc.fresh = 0
  place : w.pc = .waitMain
  tap1 : w.tap1 = 0
  tap2 : w.tap2 = 0

/-- With `us` served and `ws` not. -/
def After (us ws : List (List UInt8)) (p : Student) (w : Watertap) (mainWatertap : Nat) : Prop :=
  match ws with
  | [] => Done p w mainWatertap
  | _ :: _ => Attending us p w mainWatertap

/-- What the taps have given. -/
def Gave (us : List (List UInt8)) (w : Watertap) : Prop :=
  w.tap1 = (given us).1 ∧ w.tap2 = (given us).2

/-- While `watertap` serves `v`. -/
def Serving (us : List (List UInt8)) (v : List UInt8) (vs : List (List UInt8)) (w : Watertap)
    (files : Files) : Prop :=
  match w.pc with
  | .openWatertap => Gave us w ∧ Reads (files .result) w.fIDResult (digits us) []
  | .readWatertap => Gave us w ∧ Reads (files .result) w.fIDResult (digits us) [] ∧
      ∃ ds es, v = ds ++ es ∧ w.volume = value ds ∧ w.isEndStudentQueue = false ∧
        Reads (files .watertap) w.fIDWatertap (v ++ star vs) (es ++ star vs)
  | .closeWatertap => Gave us w ∧ Reads (files .result) w.fIDResult (digits us) [] ∧
      w.volume = value v ∧ w.isEndStudentQueue = decide (vs = [])
  | .writeResult d => Gave (us ++ [v]) w ∧ Reads (files .result) w.fIDResult (digits us) [] ∧
      digits (us ++ [v]) = digits us ++ [d] ∧ w.isEndStudentQueue = decide (vs = [])
  | .closeResult => vs = [] ∧ w.tap1 = 0 ∧ w.tap2 = 0 ∧ files .result = some (digits (us ++ [v]))
  | .signalLast => vs = [] ∧ w.tap1 = 0 ∧ w.tap2 = 0 ∧ files .result = some (digits (us ++ [v]))
  | .signalNext => vs ≠ [] ∧ Gave (us ++ [v]) w ∧
      Reads (files .result) w.fIDResult (digits (us ++ [v])) []
  | _ => False

/-! ## The phases -/

/-- The semaphores that pass the turn. -/
def Sems (main student watertap : Nat) (sem : Sem → Nat) : Prop :=
  sem .main = main ∧ sem .student = student ∧ sem .watertap = watertap

/-- **The phases of a run**, with what each knows of the files and the programs. -/
inductive Inv (I : Input) (s : State) : Prop where
  | preparing (m : Preparing I s.main s.files) (p : Idle s.student s.files)
      (w : Attending [] s.student s.watertap (s.sem .mainWatertap)) (q : Sems 0 0 0 s.sem)
  | called {V : List (List UInt8)} (m : Waiting I V s.main s.files) (p : Idle s.student s.files)
      (w : Attending [] s.student s.watertap (s.sem .mainWatertap)) (q : Sems 0 1 0 s.sem)
  | working {us ws : List (List UInt8)} (m : Waiting I (us ++ ws) s.main s.files)
      (p : Working us ws s.student s.files)
      (w : After us ws s.student s.watertap (s.sem .mainWatertap)) (q : Sems 0 0 0 s.sem)
  | handed {us vs : List (List UInt8)} {v : List UInt8}
      (m : Waiting I (us ++ v :: vs) s.main s.files)
      (p : Handed us v vs s.student s.files) (r : s.files .result = some (digits us))
      (w : Attending us s.student s.watertap (s.sem .mainWatertap)) (q : Sems 0 0 1 s.sem)
  | serving {us vs : List (List UInt8)} {v : List UInt8}
      (m : Waiting I (us ++ v :: vs) s.main s.files)
      (p : Handed us v vs s.student s.files) (w : Serving us v vs s.watertap s.files)
      (x : s.sem .mainWatertap = 0) (q : Sems 0 0 0 s.sem)
  | served {us vs : List (List UInt8)} {v : List UInt8}
      (m : Waiting I (us ++ v :: vs) s.main s.files)
      (p : Handed us v vs s.student s.files) (r : s.files .result = some (digits (us ++ [v])))
      (w : After (us ++ [v]) vs s.student s.watertap (s.sem .mainWatertap)) (q : Sems 0 1 0 s.sem)
  | answered {V : List (List UInt8)} (m : Waiting I V s.main s.files) (p : s.student.pc = .waitLine)
      (e : s.files .watertap = some []) (r : s.files .result = some (digits V))
      (w : Done s.student s.watertap (s.sem .mainWatertap)) (q : Sems 1 0 0 s.sem)
  | writing {V : List (List UInt8)} (m : Writing I V s.main s.files) (p : s.student.pc = .waitLine)
      (e : s.files .watertap = some []) (w : Done s.student s.watertap (s.sem .mainWatertap))
      (q : Sems 0 0 0 s.sem)

/-! ## Steps of `watersystem_main` -/

section MainSteps

variable {I : Input} {s s' : State}

theorem Idle.files {p : Student} {files files' : Files} (h : Idle p files)
    (hf : files' .watertap = files .watertap) : Idle p files' := by
  unfold Idle
  rw [hf]
  exact h

/-- `num--`, when `num` is not zero. -/
theorem Left.pred {num : Int} {k : Nat} (h : Left num k) (hne : num ≠ 0) :
    ∃ j, k = j + 1 ∧ Left (toInt32 (num - 1)) j := by
  obtain ⟨hlo, hhi, hle⟩ := h
  unfold toUInt32 at hle
  unfold intMax at hhi
  have hm : toInt32 (num - 1) % 4294967296 = (num - 1) % 4294967296 := Int.bmod_emod
  refine ⟨k - 1, by omega, (toInt32_range _).1, (toInt32_range _).2, ?_⟩
  unfold toUInt32
  rw [hm]
  omega

theorem counted_nil : Counted 0 [] := ⟨by decide, by decide, rfl⟩

theorem Counted.add {num : Int} {ds : List UInt8} {c : UInt8} (h : Counted num ds)
    (hc : IsDigit c) : Counted (addDigit num c) (ds ++ [c]) := by
  obtain ⟨-, -, h⟩ := h
  have hs := signedChar_digit hc
  obtain ⟨h1, h2⟩ := hc
  have hm : toInt32 (num * 10 + ((c.toNat : Int) - 48)) % 4294967296 =
      (num * 10 + ((c.toNat : Int) - 48)) % 4294967296 := Int.bmod_emod
  unfold Counted addDigit
  rw [hs, if_pos ⟨by omega, by omega⟩, value_append, hm]
  exact ⟨(toInt32_range _).1, (toInt32_range _).2, by omega⟩

theorem Counted.left {num : Int} {ds : List UInt8} (h : Counted num ds) : Left num (value ds) := by
  obtain ⟨hlo, hhi, h⟩ := h
  refine ⟨hlo, hhi, ?_⟩
  unfold toUInt32
  rw [h]
  omega

section Preparing

variable (m : Preparing I s.main s.files) (p : Idle s.student s.files)
  (w : Attending [] s.student s.watertap (s.sem .mainWatertap)) (q : Sems 0 0 0 s.sem)
  (hs : mainStep s = some s')

include m p w q hs

omit q in
/-- The semaphores are as they were: nobody is there who could have signalled one. -/
theorem preparing_createSemaphores (ht : Turns s) (hpc : s.main.pc = .createSemaphores) :
    Inv I s' := by
  simp only [Preparing, hpc] at m
  simp only [mainStep, hpc, Option.some.injEq] at hs
  subst hs
  have hu := ht.noStudent (by rw [hpc]; rfl)
  -- the one signal is still with `student`, which is not there
  have h0 : s.sem .mainWatertap = 0 := by
    have hw := w.signal
    rw [hu] at hw
    simp only [StudentPc.fresh] at hw
    omega
  refine .preparing m p ?_ ⟨rfl, rfl, rfl⟩
  rw [h0] at w
  exact w

/-- Another digit of `num`, or the end of its line. -/
theorem preparing_readNum (hpc : s.main.pc = .readNum) : Inv I s' := by
  simp only [Preparing, hpc] at m
  obtain ⟨ds, es, hc, hb, hn⟩ := m
  cases es with
  | nil =>
      obtain ⟨off, hr, hr'⟩ := hb.input.getc s.main.c
      simp only [mainStep, hpc, hr, ne_eq, not_true_eq_false, if_false, Option.some.injEq] at hs
      subst hs
      rw [List.append_nil] at hc
      -- `num` is the count modulo 2^32, so it is at most the number of lines
      refine .preparing ⟨⟨hr', hb.output⟩, ?_⟩ p w q
      rw [← I.count_value, hc]
      exact hn.left
  | cons e es =>
      have he : IsDigit e := I.count_digits e (by rw [hc]; simp)
      obtain ⟨off, hr, hr'⟩ := hb.input.getc s.main.c
      simp only [mainStep, hpc, hr, ne_eq, he.ne (d := 10) (by decide), not_false_eq_true, if_true,
        Option.some.injEq] at hs
      subst hs
      refine .preparing ⟨ds ++ [e], es, by rw [hc]; simp, ⟨hr', hb.output⟩, ?_⟩ p w q
      dsimp only
      exact hn.add he

omit p in
/-- `student` is there, with a signal of `main_watertap` to give. -/
theorem preparing_execStudent (ht : Turns s) (hpc : s.main.pc = .execStudent) : Inv I s' := by
  simp only [Preparing, hpc] at m
  simp only [mainStep, hpc, Option.some.injEq] at hs
  subst hs
  have hu := ht.noStudent (by rw [hpc]; rfl)
  refine .preparing ⟨⟨m.1.input, m.1.output⟩, m.2⟩ (Or.inr (Or.inl rfl)) ?_ q
  have hw := w.signal
  rw [hu] at hw
  exact ⟨hw, w.place, w.going, w.tap1, w.tap2⟩

/-- `watertap` is there. -/
theorem preparing_execWatertap (ht : Turns s) (hpc : s.main.pc = .execWatertap) : Inv I s' := by
  simp only [Preparing, hpc] at m
  simp only [mainStep, hpc, Option.some.injEq] at hs
  subst hs
  have hu := ht.noWatertap (by rw [hpc]; decide)
  refine .preparing ⟨[], I.lines, rfl, ⟨m.1.input, m.1.output⟩, m.2⟩ p ?_ q
  have hw := w.signal
  rw [hu] at hw
  exact ⟨hw, Or.inr (Or.inl rfl), fun hne => absurd rfl hne, Or.inr rfl, Or.inr rfl⟩

/-- `num` is not above the number of lines that are left, so there is one to read. -/
theorem preparing_head (hpc : s.main.pc = .head) : Inv I s' := by
  simp only [Preparing, hpc] at m
  obtain ⟨done, ls, hl, hb, hn⟩ := m
  by_cases h0 : s.main.num = 0
  · simp only [mainStep, hpc, h0, ne_eq, not_true_eq_false, if_false, Option.some.injEq] at hs
    subst hs
    exact .preparing ⟨done, ls, [], hl, hb.output.1, List.not_mem_nil⟩ p w q
  · simp only [mainStep, hpc, ne_eq, h0, not_false_eq_true, if_true, Option.some.injEq] at hs
    subst hs
    -- a line is left, because `num` was not zero
    obtain ⟨j, hj, hn'⟩ := hn.pred h0
    cases ls with
    | nil => exact absurd hj (by simp)
    | cons V ls =>
        simp only [List.length_cons, Nat.add_right_cancel_iff] at hj
        exact .preparing ⟨done, V, ls, hl, ⟨hb.input, hb.output⟩, hj ▸ hn'⟩ p w q

/-- Another character of a line, or its end. -/
theorem preparing_readInput (hpc : s.main.pc = .readInput) : Inv I s' := by
  simp only [Preparing, hpc] at m
  obtain ⟨done, V, ls, t₁, t₂, hl, ht, hb, hn, hr⟩ := m
  cases t₂ with
  | nil =>
      obtain ⟨off, hg, hin⟩ := hb.input.getc s.main.c
      have h1 : ¬ (1 : Int) < 1 := by decide
      simp only [mainStep, hpc, hg, if_neg h1, ne_eq, not_true_eq_false, if_false,
        Option.some.injEq] at hs
      subst hs
      rw [List.append_nil] at ht
      exact .preparing ⟨done, V, ls, hl, ⟨hin, hb.output⟩, hn, ht ▸ hr.1⟩ p w q
  | cons c t₂ =>
      obtain ⟨off, hg, hin⟩ := hb.input.getc s.main.c
      have h1 : ¬ (1 : Int) < 1 := by decide
      -- only the newline after the line ends the loop
      have hc : c ≠ 10 := by
        rintro rfl
        have hV : V ∈ I.lines := by rw [hl]; simp
        exact newline_not_mem_lineText (I.volume_digits V hV) (by rw [ht]; simp)
      simp only [mainStep, hpc, hg, if_neg h1, ne_eq, hc, not_false_eq_true, if_true,
        Option.some.injEq] at hs
      subst hs
      exact .preparing ⟨done, V, ls, t₁, t₂, hl, ht, ⟨hin, hb.output⟩, hn, hr⟩ p w q

theorem preparing_main (ht : Turns s) : Inv I s' := by
  cases hpc : s.main.pc with
  | createSemaphores => exact preparing_createSemaphores m p w hs ht hpc
  | createOutput =>
      simp only [Preparing, hpc] at m
      simp only [mainStep, hpc, Option.some.injEq] at hs
      subst hs
      exact .preparing ⟨m, rfl⟩ (p.files rfl) w q
  | openInput =>
      simp only [Preparing, hpc] at m
      obtain ⟨ho, hr⟩ := openFile_some m.1
      simp only [mainStep, hpc, ho, Option.some.injEq] at hs
      subst hs
      exact .preparing ⟨hr, m.2⟩ p w q
  | openOutput =>
      simp only [Preparing, hpc] at m
      obtain ⟨ho, hr⟩ := openFile_some m.2
      simp only [mainStep, hpc, ho, Option.some.injEq] at hs
      subst hs
      exact .preparing ⟨[], I.count, rfl, ⟨m.1, hr⟩, counted_nil⟩ p w q
  | readNum => exact preparing_readNum m p w q hs hpc
  | execStudent => exact preparing_execStudent m w q hs ht hpc
  | execWatertap => exact preparing_execWatertap m p w q hs ht hpc
  | head => exact preparing_head m p w q hs hpc
  | createStudent =>
      simp only [Preparing, hpc] at m
      obtain ⟨done, V, ls, hl, hb, hn⟩ := m
      simp only [mainStep, hpc, Option.some.injEq] at hs
      subst hs
      exact .preparing ⟨done, V, ls, hl, ⟨hb.input, hb.output⟩, hn, rfl⟩ (p.files rfl) w q
  | openStudent =>
      simp only [Preparing, hpc] at m
      obtain ⟨done, V, ls, hl, hb, hn, hf⟩ := m
      obtain ⟨ho, hr⟩ := openFile_some hf
      simp only [mainStep, hpc, ho, Option.some.injEq] at hs
      subst hs
      have hin := hb.input
      simp only [inText, List.flatMap_cons, List.append_assoc, List.singleton_append] at hin
      exact .preparing ⟨done, V, ls, [], lineText V, hl, rfl, ⟨hin, hb.output⟩, hn, hr⟩ p w q
  | readInput => exact preparing_readInput m p w q hs hpc
  | writeStudent =>
      simp only [Preparing, hpc] at m
      obtain ⟨done, V, ls, t₁, t₂, hl, ht, hb, hn, hr⟩ := m
      obtain ⟨off, hw, hr'⟩ := hr.put [s.main.c]
      simp only [mainStep, hpc, hw, Option.some.injEq] at hs
      subst hs
      exact .preparing ⟨done, V, ls, t₁ ++ [s.main.c], t₂, hl, by rw [ht]; simp,
        ⟨hb.input, hb.output⟩, hn, hr'⟩ (p.files rfl) w q
  | closeStudent =>
      simp only [Preparing, hpc] at m
      obtain ⟨done, V, ls, hl, hb, hn, hf⟩ := m
      simp only [mainStep, hpc, Option.some.injEq] at hs
      subst hs
      exact .preparing ⟨done, V, ls, hl, ⟨hb.input, hb.output⟩, hn, hf⟩ p w q
  | signalStudent =>
      simp only [Preparing, hpc] at m
      obtain ⟨done, V, ls, hl, hb, hn, hf⟩ := m
      simp only [mainStep, hpc, Option.some.injEq] at hs
      subst hs
      refine .called ⟨rfl, done, ls, hl, ⟨hb.input, hb.output⟩, hn, hf⟩ p w ⟨q.1, ?_, q.2.2⟩
      simp only [signal, upd_self, q.2.1]
  | closeAgain =>
      simp only [Preparing, hpc] at m
      obtain ⟨done, ls, hl, hb, hn⟩ := m
      simp only [mainStep, hpc, Option.some.injEq] at hs
      subst hs
      exact .preparing ⟨done, ls, hl, ⟨hb.input, hb.output⟩, hn⟩ p w q
  | closeInput =>
      simp only [Preparing, hpc] at m
      simp only [mainStep, hpc, Option.some.injEq] at hs
      subst hs
      exact .preparing m p w q
  | closeOutput =>
      simp only [Preparing, hpc] at m
      simp only [mainStep, hpc, Option.some.injEq] at hs
      subst hs
      exact .preparing m p w q
  | finished =>
      simp only [mainStep, hpc, reduceCtorEq] at hs
  | waitMain | openResult | readResult | writeOutput | writeSpace | writeEnd | closeResult
  | signalWatertap =>
      simp only [Preparing, hpc] at m

end Preparing

/-- The turn goes back to `watersystem_main`. -/
theorem answered_main {V : List (List UInt8)} (m : Waiting I V s.main s.files)
    (p : s.student.pc = .waitLine) (e : s.files .watertap = some [])
    (r : s.files .result = some (digits V)) (w : Done s.student s.watertap (s.sem .mainWatertap))
    (q : Sems 1 0 0 s.sem) (hs : mainStep s = some s') : Inv I s' := by
  obtain ⟨hpc, done, ls, hl, hb, hn, -⟩ := m
  have h1 : ¬ (1 : Nat) = 0 := by decide
  simp only [mainStep, hpc, q.1, if_neg h1, Option.some.injEq] at hs
  subst hs
  exact .writing ⟨done, ls, hl, hn, ⟨hb.input, hb.output⟩, r⟩ p e w ⟨rfl, q.2.1, q.2.2⟩

/-- What `watersystem_main` does to a semaphore puts `watertap` back to where a line begins. -/
theorem Done.attending {p : Student} {w : Watertap} (h : Done p w 0) : Attending [] p w 1 where
  signal := by rw [h.place, h.fresh]; rfl
  place := Or.inr (Or.inl h.place)
  going := fun hne => absurd rfl hne
  tap1 := Or.inr h.tap1
  tap2 := Or.inr h.tap2

theorem writing_main {V : List (List UInt8)} (m : Writing I V s.main s.files)
    (p : s.student.pc = .waitLine) (e : s.files .watertap = some [])
    (w : Done s.student s.watertap (s.sem .mainWatertap)) (q : Sems 0 0 0 s.sem)
    (hs : mainStep s = some s') : Inv I s' := by
  obtain ⟨done, ls, hl, hn, m⟩ := m
  cases hpc : s.main.pc with
  | openResult =>
      simp only [hpc] at m
      obtain ⟨ho, hr⟩ := openFile_some m.2
      simp only [mainStep, hpc, ho, Option.some.injEq] at hs
      subst hs
      exact .writing ⟨done, ls, hl, hn, [], digits V, rfl, ⟨m.1.input, m.1.output⟩, hr⟩ p e w q
  | readResult =>
      simp only [hpc] at m
      obtain ⟨r₁, r₂, hd, hb, hr⟩ := m
      cases r₂ with
      | nil =>
          have h2 : (-2 : Int) < 1 := by decide
          simp only [mainStep, hpc, hr.eof, if_pos h2, Option.some.injEq] at hs
          subst hs
          rw [List.append_nil] at hd
          subst hd
          exact .writing ⟨done, ls, hl, hn, hb.input, hb.output⟩ p e w q
      | cons c r₂ =>
          obtain ⟨off, hg, hr'⟩ := hr.getc s.main.c
          have h1 : ¬ (1 : Int) < 1 := by decide
          simp only [mainStep, hpc, hg, if_neg h1, Option.some.injEq] at hs
          subst hs
          exact .writing ⟨done, ls, hl, hn, r₁, r₂, hd, ⟨hb.input, hb.output⟩, hr'⟩ p e w q
  | writeOutput =>
      simp only [hpc] at m
      obtain ⟨r₁, r₂, hd, hb, hr⟩ := m
      obtain ⟨off, hw, ho⟩ := hb.output.put [s.main.c]
      rw [List.append_assoc] at hw ho
      simp only [mainStep, hpc, hw, Option.some.injEq] at hs
      subst hs
      exact .writing ⟨done, ls, hl, hn, r₁, r₂, hd, ⟨hb.input, ho⟩, hr⟩ p e w q
  | writeSpace =>
      simp only [hpc] at m
      obtain ⟨r₁, r₂, hd, hb, hr⟩ := m
      obtain ⟨off, hw, ho⟩ := hb.output.put [32]
      have hsp : (outText done ++ (spaced r₁ ++ [s.main.c])) ++ [32] =
          outText done ++ spaced (r₁ ++ [s.main.c]) := by
        rw [spaced_append]
        simp
      rw [hsp] at hw ho
      simp only [mainStep, hpc, hw, Option.some.injEq] at hs
      subst hs
      refine .writing ⟨done, ls, hl, hn, r₁ ++ [s.main.c], r₂, ?_, ⟨hb.input, ho⟩, hr⟩ p e w q
      rw [hd]
      simp
  | writeEnd =>
      simp only [hpc] at m
      obtain ⟨off, hw, ho⟩ := m.output.put [13, 10]
      have hout : (outText done ++ spaced (digits V)) ++ [13, 10] =
          outText (done ++ [V]) ++ [] := by
        rw [outText_append]
        simp
      rw [hout] at hw ho
      simp only [mainStep, hpc, hw, Option.some.injEq] at hs
      subst hs
      exact .writing ⟨done, ls, hl, hn, m.input, ho⟩ p e w q
  | closeResult =>
      simp only [hpc] at m
      simp only [mainStep, hpc, Option.some.injEq] at hs
      subst hs
      exact .writing ⟨done, ls, hl, hn, m.input, m.output⟩ p e w q
  | signalWatertap =>
      simp only [hpc] at m
      simp only [mainStep, hpc, Option.some.injEq] at hs
      subst hs
      have h0 := w.signal
      rw [h0] at w
      refine .preparing ⟨done ++ [V], ls, by rw [hl]; simp, ⟨m.input, m.output⟩, hn⟩
        (Or.inr (Or.inr (Or.inr ⟨p, e⟩))) ?_ q
      simp only [signal, upd_self, h0]
      exact w.attending
  | _ => simp only [hpc] at m

/-- In the other phases `watersystem_main` waits. -/
theorem waiting_main {V : List (List UInt8)} (m : Waiting I V s.main s.files)
    (h : s.sem .main = 0) : mainStep s = none := by
  simp only [mainStep, m.1, h, if_true]

theorem inv_main (ht : Turns s) (h : Inv I s) (hs : mainStep s = some s') : Inv I s' := by
  cases h with
  | preparing m p w q => exact preparing_main m p w q hs ht
  | answered m p e r w q => exact answered_main m p e r w q hs
  | writing m p e w q => exact writing_main m p e w q hs
  | called m p w q => exact absurd ((waiting_main m q.1).symm.trans hs) (by simp)
  | working m p w q => exact absurd ((waiting_main m q.1).symm.trans hs) (by simp)
  | handed m p r w q => exact absurd ((waiting_main m q.1).symm.trans hs) (by simp)
  | serving m p w x q => exact absurd ((waiting_main m q.1).symm.trans hs) (by simp)
  | served m p r w q => exact absurd ((waiting_main m q.1).symm.trans hs) (by simp)

end MainSteps

/-! ## Steps beside the turn -/

/-- A step that does not concern the turn. -/
structure Beside (s s' : State) : Prop where
  main : s'.main = s.main
  files : ∀ f, f ≠ .watertap → s'.files f = s.files f
  sems : ∀ x, x ≠ .mainWatertap → s'.sem x = s.sem x

section Beside

variable {I : Input} {s s' : State} {V us ws vs : List (List UInt8)} {v : List UInt8}

theorem books_iff {m : Main} {files files' : Files} (hi : files' .input = files .input)
    (ho : files' .output = files .output) (done : List (List (List UInt8)))
    (rest part : List UInt8) :
    Books I done rest part m files' ↔ Books I done rest part m files := by
  constructor
  · intro h
    exact ⟨hi ▸ h.input, ho ▸ h.output⟩
  · intro h
    exact ⟨hi.symm ▸ h.input, ho.symm ▸ h.output⟩

theorem Preparing.beside (h : Preparing I s.main s.files) (b : Beside s s') :
    Preparing I s'.main s'.files := by
  have hi := b.files .input (by decide)
  have ho := b.files .output (by decide)
  have hs := b.files .student (by decide)
  have hb := books_iff (I := I) (m := s.main) hi ho
  rw [b.main]
  cases hpc : s.main.pc <;> simp only [Preparing, Written, hpc, hi, ho, hs, hb] at h ⊢ <;> exact h

theorem Waiting.files {m : Main} {files files' : Files} (h : Waiting I V m files)
    (hi : files' .input = files .input) (ho : files' .output = files .output)
    (hs : files' .student = files .student) : Waiting I V m files' := by
  obtain ⟨hpc, done, ls, hl, hb, hn, hf⟩ := h
  exact ⟨hpc, done, ls, hl, (books_iff hi ho _ _ _).mpr hb, hn, hs.trans hf⟩

/-- The line is in `student.txt`. -/
theorem Waiting.student_txt {m : Main} {files : Files} (h : Waiting I V m files) :
    files .student = some (lineText V) := by
  obtain ⟨-, _, _, -, -, -, hf⟩ := h
  exact hf

theorem Waiting.beside (h : Waiting I V s.main s.files) (b : Beside s s') :
    Waiting I V s'.main s'.files := by
  rw [b.main]
  exact h.files (b.files _ (by decide)) (b.files _ (by decide)) (b.files _ (by decide))

theorem Sems.beside {a c d : Nat} (h : Sems a c d s.sem) (b : Beside s s') : Sems a c d s'.sem :=
  ⟨(b.sems _ (by decide)).trans h.1, (b.sems _ (by decide)).trans h.2.1,
    (b.sems _ (by decide)).trans h.2.2⟩

/-- `student` at its beginning. -/
theorem idle_student (p : Idle s.student s.files)
    (w : Attending us s.student s.watertap (s.sem .mainWatertap)) (hp : s.student.pc ≠ .waitLine)
    (hs : studentStep s = some s') :
    Beside s s' ∧ Idle s'.student s'.files ∧
      Attending us s'.student s'.watertap (s'.sem .mainWatertap) := by
  rcases p with hpc | hpc | hpc | ⟨hpc, _⟩
  · simp only [studentStep, hpc, reduceCtorEq] at hs
  · simp only [studentStep, hpc, Option.some.injEq] at hs
    subst hs
    -- the signal goes from `student` to the semaphore
    have hw := w.signal
    simp only [hpc, StudentPc.fresh] at hw
    refine ⟨⟨rfl, fun _ _ => rfl, fun x hx => upd_ne _ _ hx⟩, Or.inr (Or.inr (Or.inl rfl)), ?_,
      w.place, w.going, w.tap1, w.tap2⟩
    simp only [WaterSystem.signal, upd_self, StudentPc.fresh]
    omega
  · simp only [studentStep, hpc, Option.some.injEq] at hs
    subst hs
    have hw := w.signal
    rw [hpc] at hw
    exact ⟨⟨rfl, fun f hf => upd_ne _ _ hf, fun _ _ => rfl⟩,
      Or.inr (Or.inr (Or.inr ⟨rfl, rfl⟩)), hw, w.place, w.going, w.tap1, w.tap2⟩
  · exact absurd hpc hp

/-- `watertap` until it has `result.txt`. -/
theorem attending_watertap (w : Attending us s.student s.watertap (s.sem .mainWatertap))
    (hr : s.watertap.pc = .openResult → s.files .result ≠ none) (hv : s.watertap.pc ≠ .waitVolume)
    (hs : watertapStep s = some s') :
    Beside s s' ∧ s'.student = s.student ∧ s'.files = s.files ∧
      Attending us s'.student s'.watertap (s'.sem .mainWatertap) := by
  have hw := w.signal
  -- in the middle of a line `watertap` is nowhere but at `Wait("watertap")`
  have hu : us = [] := by
    by_contra hu
    exact hv (w.going hu)
  rcases w.place with hpc | hpc | hpc | ⟨hpc, hoff⟩
  · simp only [watertapStep, hpc, reduceCtorEq] at hs
  · simp only [watertapStep, hpc] at hs
    split at hs
    · exact absurd hs (by simp)
    · rename_i hne
      simp only [Option.some.injEq] at hs
      subst hs
      have h1 := w.tap1
      have h2 := w.tap2
      simp only [hpc, WatertapPc.holding, reduceCtorEq, false_or] at hw h1 h2
      -- and from the semaphore to `watertap`
      refine ⟨⟨rfl, fun _ _ => rfl, fun x hx => upd_ne _ _ hx⟩, rfl, rfl, ?_,
        Or.inr (Or.inr (Or.inl rfl)), fun hne => absurd hu hne, Or.inr h1, Or.inr h2⟩
      simp only [upd_self, WatertapPc.holding]
      omega
  · have h1 := w.tap1
    have h2 := w.tap2
    simp only [hpc, WatertapPc.holding, reduceCtorEq, false_or] at hw h1 h2
    obtain ⟨bs, hbs⟩ := Option.ne_none_iff_exists'.mp (hr hpc)
    simp only [watertapStep, hpc, (openFile_some hbs).1, Option.some.injEq] at hs
    subst hs
    exact ⟨⟨rfl, fun _ _ => rfl, fun _ _ => rfl⟩, rfl, rfl, hw,
      Or.inr (Or.inr (Or.inr ⟨rfl, by rw [hu]; rfl⟩)), fun _ => rfl, Or.inr h1, Or.inr h2⟩
  · exact absurd hpc hv

end Beside

end WaterSystem

end Nachos
