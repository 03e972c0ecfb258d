import Nachos.Proof.Fidelity

/-!
# The line that `ReadNum` reads

The parser takes blanks, a sign or a digit, digits, and blanks to the end of the line. It
adds the digits up in a `long long`, and looks at the range when it has them all; what
it finds then is the number modulo `2^64`. Its `INT_MIN` is one more than the smallest
`int`. Every way out has taken the line and its newline from the keyboard.
-/

namespace Nachos

open Base (bind_ok bind_eq_of_ok)

/-! ## Lines and what they denote -/

/-- A decimal digit. -/
def Digit (c : UInt8) : Prop := 48 ≤ c ∧ c ≤ 57

instance (c : UInt8) : Decidable (Digit c) := inferInstanceAs (Decidable (_ ∧ _))

/-- The number that the digits `ds` continue when those before them make `n`. -/
def digitsFrom (n : Int) (ds : List UInt8) : Int := ds.foldl (fun n d => n * 10 + (d.toNat - 48)) n

/-- **What a line denotes**: blanks, perhaps a minus sign, at least one digit, blanks. -/
inductive Denotes : List UInt8 → Int → Prop where
  | positive (a b : Nat) (ds : List UInt8) : ds ≠ [] → (∀ d ∈ ds, Digit d) →
      Denotes (List.replicate a 32 ++ (ds ++ List.replicate b 32)) (digitsFrom 0 ds)
  | negative (a b : Nat) (ds : List UInt8) : ds ≠ [] → (∀ d ∈ ds, Digit d) →
      Denotes (List.replicate a 32 ++ (45 :: (ds ++ List.replicate b 32))) (-digitsFrom 0 ds)

/-- The characters of a line: no newline, and not the one that is taken for the end of the input. -/
def Line (cs : List UInt8) : Prop := ∀ c ∈ cs, c ≠ 10 ∧ c ≠ 255

theorem Line.tail {c : UInt8} {cs : List UInt8} (h : Line (c :: cs)) : Line cs :=
  fun c' hc' => h c' (List.mem_cons_of_mem c hc')

/-! ## The scanners -/

/-- The rest of a line that is no number is taken with its newline. -/
theorem clearInputBuffer_line {rest : List UInt8} : ∀ {cs : List UInt8}, Line cs →
    clearInputBuffer (cs ++ 10 :: rest) = some ((), rest) := by
  intro cs
  induction cs with
  | nil => intro _; rfl
  | cons c cs ih =>
      intro h
      rw [List.cons_append, clearInputBuffer, if_pos (h c List.mem_cons_self)]
      exact ih h.tail

theorem skipBlanks_blanks (a : Nat) {c : UInt8} (hc : c ≠ 32) (rest : List UInt8) :
    skipBlanks (List.replicate a 32 ++ c :: rest) = some (c, rest) := by
  induction a with
  | zero => rw [List.replicate_zero, List.nil_append, skipBlanks, if_neg hc]
  | succ a ih => rw [List.replicate_succ, List.cons_append, skipBlanks, if_pos rfl, ih]

/-- A line without blanks in front of it. -/
theorem exists_blanks : ∀ (cs : List UInt8), ∃ a t, cs = List.replicate a 32 ++ t ∧
    (t = [] ∨ ∃ c t', t = c :: t' ∧ c ≠ 32) := by
  intro cs
  induction cs with
  | nil => exact ⟨0, [], rfl, .inl rfl⟩
  | cons c cs ih =>
      by_cases hc : c = 32
      · obtain ⟨a, t, he, ht⟩ := ih
        exact ⟨a + 1, t, by rw [hc, he]; rfl, ht⟩
      · exact ⟨0, c :: cs, rfl, .inr ⟨c, cs, rfl, hc⟩⟩

/-- What is left in a `long long` of digits that are added up one after the other. -/
theorem toInt64_digit (n d : Int) : toInt64 (toInt64 n * 10 + d) = toInt64 (n * 10 + d) := by
  unfold toInt64
  rw [← Int.bmod_add_bmod, Int.bmod_mul_bmod, Int.bmod_add_bmod]

theorem readDigits_blanks (b : Nat) (res : Int) (isEnd flagZero : Bool) (rest : List UInt8) :
    readDigits (List.replicate b 32 ++ 10 :: rest) res isEnd flagZero =
      some (.number res flagZero, rest) := by
  induction b generalizing isEnd with
  | zero => rw [List.replicate_zero, List.nil_append, readDigits, if_pos rfl]
  | succ b ih =>
      rw [List.replicate_succ, List.cons_append, readDigits, if_neg (by decide),
        if_neg (fun h => absurd h.1 (by decide)), if_pos rfl, ih]

theorem Digit.ne_newline {c : UInt8} (h : Digit c) : c ≠ 10 := by
  rintro rfl
  exact absurd h (by decide)

theorem Digit.ne_blank {c : UInt8} (h : Digit c) : c ≠ 32 := by
  rintro rfl
  exact absurd h (by decide)

/-- **The second loop of `ReadNum`** over digits and blanks. -/
theorem readDigits_number (b : Nat) (rest : List UInt8) : ∀ (ds : List UInt8) (n : Int)
    (flagZero : Bool), (∀ d ∈ ds, Digit d) →
    readDigits (ds ++ List.replicate b 32 ++ 10 :: rest) (toInt64 n) false flagZero =
      some (.number (toInt64 (digitsFrom n ds)) (flagZero || !ds.isEmpty), rest) := by
  intro ds
  induction ds with
  | nil =>
      intro n flagZero _
      rw [List.nil_append, readDigits_blanks]
      simp [digitsFrom]
  | cons d ds ih =>
      intro n flagZero h
      have hd := h d List.mem_cons_self
      rw [List.cons_append, List.cons_append, readDigits, if_neg hd.ne_newline,
        if_pos ⟨hd.1, hd.2, rfl⟩, toInt64_digit,
        ih _ _ fun d' hd' => h d' (List.mem_cons_of_mem d hd')]
      simp [digitsFrom]

/-- Behind the last digit there are only blanks, or the loop stops in the middle of the line. -/
theorem readDigits_end (rest : List UInt8) : ∀ (t : List UInt8) (res : Int) (flagZero : Bool),
    Line t → (∃ b, t = List.replicate b 32) ∨
      ∃ mid, Line mid ∧ readDigits (t ++ 10 :: rest) res true flagZero =
        some (.other, mid ++ 10 :: rest) := by
  intro t
  induction t with
  | nil => intro _ _ _; exact .inl ⟨0, rfl⟩
  | cons c t ih =>
      intro res flagZero h
      by_cases hc : c = 32
      · subst hc
        rcases ih res flagZero h.tail with ⟨b, rfl⟩ | ⟨mid, hmid, hr⟩
        · exact .inl ⟨b + 1, rfl⟩
        · refine .inr ⟨mid, hmid, ?_⟩
          rw [List.cons_append, readDigits, if_neg (by decide),
            if_neg (fun h => absurd h.1 (by decide)), if_pos rfl, hr]
      · refine .inr ⟨t, h.tail, ?_⟩
        rw [List.cons_append, readDigits, if_neg (h c List.mem_cons_self).1,
          if_neg (fun h => absurd h.2.2 (by decide)), if_neg hc]

/-- The line is digits and blanks, or the loop stops in the middle of it. -/
theorem readDigits_cases (rest : List UInt8) : ∀ (t : List UInt8) (res : Int) (flagZero : Bool),
    Line t → (∃ ds b, (∀ d ∈ ds, Digit d) ∧ t = ds ++ List.replicate b 32) ∨
      ∃ mid, Line mid ∧ readDigits (t ++ 10 :: rest) res false flagZero =
        some (.other, mid ++ 10 :: rest) := by
  intro t
  induction t with
  | nil => intro _ _ _; exact .inl ⟨[], 0, by simp, rfl⟩
  | cons c t ih =>
      intro res flagZero h
      have hnl := (h c List.mem_cons_self).1
      by_cases hd : Digit c
      · rcases ih (toInt64 (res * 10 + (c.toNat - 48))) true h.tail with ⟨ds, b, hds, rfl⟩
          | ⟨mid, hmid, hr⟩
        · refine .inl ⟨c :: ds, b, ?_, rfl⟩
          intro d hd'
          rcases List.mem_cons.mp hd' with rfl | hd'
          · exact hd
          · exact hds d hd'
        · refine .inr ⟨mid, hmid, ?_⟩
          rw [List.cons_append, readDigits, if_neg hnl, if_pos ⟨hd.1, hd.2, rfl⟩, hr]
      · have hnd : ¬ (48 ≤ c ∧ c ≤ 57 ∧ false = false) := fun h' => hd ⟨h'.1, h'.2.1⟩
        by_cases hc : c = 32
        · subst hc
          rcases readDigits_end rest t res flagZero h.tail with ⟨b, rfl⟩ | ⟨mid, hmid, hr⟩
          · exact .inl ⟨[], b + 1, by simp, rfl⟩
          · refine .inr ⟨mid, hmid, ?_⟩
            rw [List.cons_append, readDigits, if_neg hnl, if_neg hnd, if_pos rfl, hr]
        · refine .inr ⟨t, h.tail, ?_⟩
          rw [List.cons_append, readDigits, if_neg hnl, if_neg hnd, if_neg hc]

/-! ## The case -/

/-- What `ReadNum` makes of a number: the range is looked at when the number is in a `long long`. -/
def readNumResult (v : Int) : Int :=
  if toInt64 v > 2147483647 ∨ toInt64 v < -2147483647 then 0 else toInt64 v

namespace Handler

variable {η : Type}

/-- A case that returns `r` and leaves `rest` at the keyboard. -/
def Answers (x : Handler η Exit) (k : Kernel η) (r : Int) (rest : List UInt8) : Prop :=
  ∃ k', x k = .ok .ret k' ∧ k'.input = rest ∧ k'.machine.readRegister 2 = BitVec.ofInt 32 r

theorem answers_leaveWith (k : Kernel η) (r : Int) : Answers (leaveWith r) k r k.input :=
  ⟨_, rfl, rfl, rfl⟩

theorem answers_leaveSaying (k : Kernel η) (t : String) (r : Int) :
    Answers (leaveSaying t r) k r k.input :=
  ⟨_, rfl, rfl, rfl⟩

theorem keyboard_ok {α : Type} {f : Scan α} {k : Kernel η} {a : α} {rest : List UInt8}
    (h : f k.input = some (a, rest)) : keyboard f k = .ok a { k with input := rest } := by
  unfold keyboard
  rw [h]

theorem toInt64_neg (v : Int) : toInt64 (-toInt64 v) = toInt64 (-v) := Int.bmod_neg_bmod

/-- The end of the case, for a number with at least one digit. -/
theorem answers_leaveNumber (k : Kernel η) (isNegative flagZero : Bool) (v : Int)
    (h : isNegative = true → flagZero = true) :
    Answers (leaveNumber isNegative (toInt64 v) flagZero) k
      (readNumResult (if isNegative then -v else v)) k.input := by
  have hres : (if isNegative then toInt64 (-toInt64 v) else toInt64 v) =
      toInt64 (if isNegative then -v else v) := by
    cases isNegative
    · rfl
    · exact toInt64_neg v
  unfold leaveNumber readNumResult
  dsimp only
  rw [hres]
  generalize toInt64 (if isNegative then -v else v) = w
  by_cases h1 : w > 2147483647
  · rw [if_pos h1, if_pos (.inl h1)]
    exact answers_leaveSaying _ _ _
  · rw [if_neg h1]
    by_cases h2 : w < -2147483647
    · rw [if_pos h2, if_pos (.inr h2)]
      exact answers_leaveSaying _ _ _
    · rw [if_neg h2, if_neg (show ¬ (w > 2147483647 ∨ w < -2147483647) by omega), if_neg]
      · exact answers_leaveWith _ _
      · rintro ⟨hn, -, hz⟩
        rw [h hn] at hz
        exact absurd hz (by simp)

/-- The case once the blanks are over, at a sign or a digit. -/
theorem scReadNum_start {k : Kernel η} {a : Nat} {c : UInt8} {t : List UInt8} {found : NumLine}
    {rest : List UInt8} (hin : k.input = List.replicate a 32 ++ c :: t) (hc : c = 45 ∨ Digit c)
    (hr : readDigits t (if c = 45 then 0 else c.toNat - 48) false false = some (found, rest)) :
    scReadNum k = (match found with
      | .number res flagZero => leaveNumber (c = 45) res flagZero
      | .other => do
          printf "\nError!!!This is not a number"
          writeRegister 2 0
          keyboard clearInputBuffer
          leave) { k with input := rest } := by
  have hne : c ≠ 32 := by
    rcases hc with rfl | hd
    · decide
    · exact hd.ne_blank
  have hskip : keyboard skipBlanks k = .ok c { k with input := t } :=
    keyboard_ok (by rw [hin]; exact skipBlanks_blanks a hne t)
  have hdigits :
    keyboard (fun input => readDigits input (if c = 45 then 0 else (c.toNat : Int) - 48)
      false false) { k with input := t } = .ok found { k with input := rest } := keyboard_ok hr
  unfold scReadNum
  rw [bind_eq_of_ok hskip, if_pos (by exact hc)]
  refine (bind_eq_of_ok hdigits).trans ?_
  cases found <;> rfl

theorem Answers.of_eq {x y : Handler η Exit} {k k₁ : Kernel η} {r : Int} {rest : List UInt8}
    (he : x k = y k₁) (h : Answers y k₁ r rest) : Answers x k r rest := by
  obtain ⟨k', hk', hrest⟩ := h
  exact ⟨k', he.trans hk', hrest⟩

/-- What comes first does not matter to the answer. -/
theorem Answers.after {α : Type} {x : Handler η α} {f : α → Handler η Exit}
    {k k₁ : Kernel η} {a : α}
    {r : Int} {rest : List UInt8} (hx : x k = .ok a k₁) (h : Answers (f a) k₁ r rest) :
    Answers (x >>= f) k r rest := by
  obtain ⟨k', hk', hrest⟩ := h
  exact ⟨k', (bind_eq_of_ok hx).trans hk', hrest⟩

/-- The way out for a line that goes on with something else. -/
theorem answers_clear {k : Kernel η} {mid rest : List UInt8} (hmid : Line mid)
    (hin : k.input = mid ++ 10 :: rest) (hr2 : k.machine.readRegister 2 = 0) :
    Answers (do keyboard clearInputBuffer; leave) k 0 rest := by
  refine .after (keyboard_ok (by rw [hin]; exact clearInputBuffer_line hmid)) ?_
  exact ⟨_, rfl, rfl, hr2⟩

/-- **A line that denotes a number.** -/
theorem scReadNum_denotes {k : Kernel η} {cs rest : List UInt8} {v : Int} (h : Denotes cs v)
    (hin : k.input = cs ++ 10 :: rest) : Answers scReadNum k (readNumResult v) rest := by
  cases h with
  | negative a b ds hne hds =>
      have hr := readDigits_number b rest ds 0 false hds
      rw [List.append_assoc, List.cons_append] at hin
      refine .of_eq (scReadNum_start hin (.inl rfl) hr) ?_
      refine answers_leaveNumber _ true _ _ fun _ => ?_
      cases ds with
      | nil => exact absurd rfl hne
      | cons d ds => rfl
  | positive a b ds hne hds =>
      obtain ⟨d, ds', rfl⟩ := List.exists_cons_of_ne_nil hne
      have hd := hds d List.mem_cons_self
      have hd45 : d ≠ 45 := by
        rintro rfl
        exact absurd hd (by decide)
      have hfirst : toInt64 ((d.toNat : Int) - 48) = (d.toNat : Int) - 48 := by
        have := d.toNat_lt
        exact Int.bmod_eq_of_le_mul_two (by omega) (by omega)
      have hr := readDigits_number b rest ds' ((d.toNat : Int) - 48) false
        fun d' hd' => hds d' (List.mem_cons_of_mem d hd')
      rw [hfirst] at hr
      rw [List.append_assoc, List.cons_append, List.cons_append] at hin
      have hv : digitsFrom 0 (d :: ds') = digitsFrom ((d.toNat : Int) - 48) ds' := by
        simp [digitsFrom]
      refine .of_eq (scReadNum_start hin (.inr hd) (by rw [if_neg hd45]; exact hr)) ?_
      rw [decide_eq_false hd45, hv]
      exact answers_leaveNumber _ false _ _ (by simp)

/-- **A line that denotes none.** -/
theorem scReadNum_other {k : Kernel η} {cs rest : List UInt8} (hline : Line cs)
    (h : ∀ v, ¬ Denotes cs v) (hin : k.input = cs ++ 10 :: rest) : Answers scReadNum k 0 rest := by
  obtain ⟨a, t, rfl, rfl | ⟨c, t, rfl, hc⟩⟩ := exists_blanks cs
  · -- nothing but blanks
    rw [List.append_nil] at hin
    refine .after (keyboard_ok (by rw [hin]; exact skipBlanks_blanks a (by decide) rest)) ?_
    exact answers_leaveSaying _ _ _
  have hc10 : c ≠ 10 := (hline c (by simp)).1
  have ht : Line t := fun c' hc' => hline c' (by simp [hc'])
  rw [List.append_assoc, List.cons_append] at hin
  by_cases hstart : c = 45 ∨ Digit c
  · rcases readDigits_cases rest t (if c = 45 then 0 else c.toNat - 48) false ht with
      ⟨ds, b, hds, rfl⟩ | ⟨mid, hmid, hr⟩
    · rcases hstart with rfl | hd
      · -- only a sign
        cases ds with
        | cons d ds => exact absurd (.negative a b (d :: ds) (by simp) hds) (h _)
        | nil =>
            have hr := readDigits_blanks b 0 false false rest
            exact .of_eq (scReadNum_start hin (.inl rfl) hr) (answers_leaveSaying _ _ _)
      · refine absurd (.positive a b (c :: ds) (by simp) fun d hd' => ?_) (h _)
        rcases List.mem_cons.mp hd' with rfl | hd'
        · exact hd
        · exact hds d hd'
    · refine .of_eq (scReadNum_start hin hstart hr) ?_
      exact .after rfl (.after rfl (answers_clear hmid rfl rfl))
  · refine .after (keyboard_ok (by rw [hin]; exact skipBlanks_blanks a hc _)) ?_
    rw [if_neg (by exact hstart), if_neg hc10]
    exact .after rfl (.after rfl (answers_clear ht rfl rfl))

end Handler

/-! ## The call -/

/-- The values of an `int`. -/
def InInt (v : Int) : Prop := -2147483648 ≤ v ∧ v ≤ 2147483647

instance (v : Int) : Decidable (InInt v) := inferInstanceAs (Decidable (_ ∧ _))

/-- The numbers that `ReadNum` is not wrong about: the smallest `int` is not one of them, and a
number outside the range must not look like one inside, other than zero, modulo `2^64`. -/
def Understood (v : Int) : Prop :=
  v ≠ -2147483648 ∧ (¬ InInt v →
    toInt64 v = 0 ∨ toInt64 v < -2147483647 ∨ 2147483647 < toInt64 v)

theorem toInt64_of_int {v : Int} (h : InInt v) : toInt64 v = v := by
  obtain ⟨hlo, hhi⟩ := h
  exact Int.bmod_eq_of_le_mul_two (by omega) (by omega)

theorem readNumResult_range (v : Int) : -2147483647 ≤ readNumResult v ∧
    readNumResult v ≤ 2147483647 := by
  unfold readNumResult
  split
  · omega
  · omega

theorem readNumResult_iff (v : Int) : readNumResult v = (if InInt v then v else 0) ↔
    Understood v := by
  unfold readNumResult Understood
  by_cases h : InInt v
  · rw [if_pos h, toInt64_of_int h]
    obtain ⟨hlo, hhi⟩ := h
    constructor
    · intro he
      refine ⟨?_, fun hn => absurd ⟨hlo, hhi⟩ hn⟩
      rintro rfl
      exact absurd he (by decide)
    · intro hu
      rw [if_neg (by omega)]
  · rw [if_neg h]
    have hne : v ≠ -2147483648 := by
      rintro rfl
      exact h (by decide)
    constructor
    · intro he
      refine ⟨hne, fun _ => ?_⟩
      split at he
      · omega
      · exact .inl he
    · intro hu
      have hcases := hu.2 h
      split
      · rfl
      · omega

theorem digitsFrom_bound : ∀ (ds : List UInt8) (n : Int), 0 ≤ n → (∀ d ∈ ds, Digit d) →
    0 ≤ digitsFrom n ds ∧ digitsFrom n ds < (n + 1) * (Nat.pow 10 ds.length : Nat) := by
  intro ds
  induction ds with
  | nil =>
      intro n h _
      refine ⟨h, ?_⟩
      change n < (n + 1) * 1
      omega
  | cons d ds ih =>
      intro n h hds
      have hd := hds d List.mem_cons_self
      have hlo : 48 ≤ d.toNat := UInt8.le_iff_toNat_le.mp hd.1
      have hhi : d.toNat ≤ 57 := UInt8.le_iff_toNat_le.mp hd.2
      obtain ⟨h0, hlt⟩ := ih (n * 10 + (d.toNat - 48)) (by omega)
        fun d' hd' => hds d' (List.mem_cons_of_mem d hd')
      have hpow : Nat.pow 10 (d :: ds).length = Nat.pow 10 ds.length * 10 := rfl
      refine ⟨h0, Int.lt_of_lt_of_le hlt ?_⟩
      rw [hpow, Int.natCast_mul, Int.mul_comm (Nat.pow 10 ds.length : Nat), ← Int.mul_assoc]
      exact Int.mul_le_mul_of_nonneg_right (by omega) (Int.natCast_nonneg _)

/-- A line of at most nine characters is no problem. -/
theorem Denotes.understood {cs : List UInt8} {v : Int} (h : Denotes cs v) (hlen : cs.length ≤ 9) :
    Understood v := by
  have hsmall : ∀ ds : List UInt8, ds.length ≤ 9 → (∀ d ∈ ds, Digit d) →
      0 ≤ digitsFrom 0 ds ∧ digitsFrom 0 ds < 1000000000 := by
    intro ds hlen hds
    obtain ⟨h0, hlt⟩ := digitsFrom_bound ds 0 (by decide) hds
    have hpow : Nat.pow 10 ds.length ≤ Nat.pow 10 9 := Nat.pow_le_pow_right (by decide) hlen
    have h9 : Nat.pow 10 9 = 1000000000 := rfl
    omega
  suffices hv : -1000000000 < v ∧ v < 1000000000 by
    refine ⟨by omega, fun hn => absurd ?_ hn⟩
    exact ⟨by omega, by omega⟩
  cases h with
  | positive a b ds hne hds =>
      have := hsmall ds (by simp at hlen; omega) hds
      omega
  | negative a b ds hne hds =>
      have := hsmall ds (by simp at hlen; omega) hds
      omega

namespace Kernel

variable {η : Type}

/-- **What `ReadNum` is for**: it takes the line with its newline from the keyboard and returns what
the line denotes, zero when that is no `int` or nothing at all. -/
def ReadsNumber (H : HostOps η) (k : Kernel η) (cs rest : List UInt8) : Prop :=
  ∃ k', exceptionHandler H .syscallException k = .returned k' ∧ k'.input = rest ∧
    (∀ v, Denotes cs v → (k'.machine.readRegister 2).toInt = if InInt v then v else 0) ∧
    ((∀ v, ¬ Denotes cs v) → (k'.machine.readRegister 2).toInt = 0)

section ReadNum

variable {H : HostOps η} {k : Kernel η} {fs : Uid} {cs rest : List UInt8}
  (hfs : k.fileSystem = some fs) (hc : k.syscall = some .readNum)
include hfs hc

theorem readNum_of_answers {r : Int} (h : Handler.Answers Handler.scReadNum k r rest)
    (hlo : -2147483647 ≤ r) (hhi : r ≤ 2147483647) :
    ∃ k', exceptionHandler H .syscallException k = .returned k' ∧ k'.input = rest ∧
      (k'.machine.readRegister 2).toInt = r := by
  obtain ⟨k', hk', hrest, hr2⟩ := h
  refine ⟨k', ?_, hrest, ?_⟩
  · rw [returned_iff, dispatch_eq H hfs hc]
    exact hk'
  · rw [hr2, BitVec.toInt_ofInt]
    exact Int.bmod_eq_of_le_mul_two (by omega) (by omega)

variable (hin : k.input = cs ++ 10 :: rest)
include hin

theorem readNum_denotes {v : Int} (h : Denotes cs v) :
    ∃ k', exceptionHandler H .syscallException k = .returned k' ∧ k'.input = rest ∧
      (k'.machine.readRegister 2).toInt = readNumResult v :=
  readNum_of_answers hfs hc (Handler.scReadNum_denotes h hin) (readNumResult_range v).1
    (readNumResult_range v).2

theorem ReadsNumber.understood (h : ReadsNumber H k cs rest) {v : Int} (hv : Denotes cs v) :
    Understood v := by
  obtain ⟨k', hk', _, hnum, _⟩ := h
  obtain ⟨k'', hk'', _, hr⟩ := readNum_denotes hfs hc hin (H := H) hv
  rw [hk'] at hk''
  injection hk'' with hk''
  subst hk''
  rw [← readNumResult_iff, ← hr]
  exact hnum v hv

/-- **When `ReadNum` understands a line.** -/
theorem readNum_iff (hline : Line cs) :
    ReadsNumber H k cs rest ↔ ∀ v, Denotes cs v → Understood v := by
  refine ⟨fun h v hv => h.understood hfs hc hin hv, fun h => ?_⟩
  by_cases hno : ∀ v, ¬ Denotes cs v
  · obtain ⟨k', hk', hrest, hr⟩ := readNum_of_answers hfs hc (H := H)
      (Handler.scReadNum_other hline hno hin) (by decide) (by decide)
    exact ⟨k', hk', hrest, fun v hv => absurd hv (hno v), fun _ => hr⟩
  · obtain ⟨v₀, hv₀⟩ := not_forall_not.mp hno
    obtain ⟨k', hk', hrest, hr⟩ := readNum_denotes hfs hc hin (H := H) hv₀
    refine ⟨k', hk', hrest, fun v hv => ?_, fun hn => absurd hv₀ (hn v₀)⟩
    -- the line denotes one number only as far as the answer goes
    obtain ⟨k'', hk'', _, hr'⟩ := readNum_denotes hfs hc hin (H := H) hv
    rw [hk'] at hk''
    injection hk'' with hk''
    subst hk''
    rw [hr', (readNumResult_iff v).mpr (h v hv)]

end ReadNum

/-- The initial process calls `ReadNum` with `input` at the keyboard. -/
def reading (input : List UInt8) : Kernel Unit :=
  { closing 0 with
    machine.registers := fun r => if r = 2 then 43#32 else 0#32
    input := input }

/-- The line ` -7 `. -/
theorem readNum_seven : ReadsNumber bareHost (reading [32, 45, 55, 32, 10, 98])
    [32, 45, 55, 32] [98] :=
  (readNum_iff rfl (by decide) rfl (by simp [Line])).mpr fun _ hv => hv.understood (by decide)

/-- The line `-2147483648`. -/
theorem readNum_smallest :
    ¬ ∀ (η : Type) (H : HostOps η) (k : Kernel η) (fs : Uid) (cs rest : List UInt8),
      k.fileSystem = some fs → k.syscall = some .readNum → Line cs →
        k.input = cs ++ 10 :: rest → ReadsNumber H k cs rest := by
  intro h
  have hr := h Unit bareHost (reading [45, 50, 49, 52, 55, 52, 56, 51, 54, 52, 56, 10]) 0
    [45, 50, 49, 52, 55, 52, 56, 51, 54, 52, 56] [] rfl (by decide) (by simp [Line]) rfl
  have hd : Denotes [45, 50, 49, 52, 55, 52, 56, 51, 54, 52, 56] (-2147483648) :=
    Denotes.negative 0 0 [50, 49, 52, 55, 52, 56, 51, 54, 52, 56] (by decide) (by simp [Digit])
  exact (hr.understood rfl (by decide) rfl hd).1 rfl

end Kernel

end Nachos
