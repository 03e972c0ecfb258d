import Nachos.Proof.Output
import Nachos.Proof.ReadNum
import Nachos.Proof.Transfers

/-!
# How many bytes a transfer reports

`Read` and `Write` arrive at their result in four ways. From and to a file it is the difference
of two offsets of the host, and that is right. To the display it is a counter of the loop less
one, and that is one too few. From the keyboard it is what `SynchConsoleInput::Read` returns:
the number of characters, unless the line was ended by character 1, when it is -1 although the
characters before it have been taken.
-/

namespace Nachos

open Base (bind_ok bind_eq_of_ok upd upd_self upd_ne)

/-! ## The keyboard -/

/-- A character that `SynchConsoleInput::Read` stores. -/
def isText (c : UInt8) : Bool := c != 255 && c != 10 && c != 1

/-- The line is ended by character 1, after at least one character and before the `n`-th. -/
def EndsStream (n : Int) (input : List UInt8) : Prop :=
  ∃ before rest, input = before ++ 1 :: rest ∧ (∀ c ∈ before, c ≠ 10 ∧ c ≠ 1) ∧
    1 ≤ (before.filter isText).length ∧ ((before.filter isText).length : Int) < n

theorem filter_isText_cons {c : UInt8} (h10 : c ≠ 10) (h1 : c ≠ 1) (cs : List UInt8) :
    (c :: cs).filter isText = if c = 255 then cs.filter isText else c :: cs.filter isText := by
  by_cases h : c = 255
  · rw [if_pos h, List.filter_cons_of_neg (by simp [isText, h])]
  · rw [if_neg h, List.filter_cons_of_pos (by simp [isText, h, h10, h1])]

/-- A line that is ended by character 1 is taken, and reported as the end of the stream. -/
theorem readFrom_stream : ∀ (before : List UInt8), (∀ c ∈ before, c ≠ 10 ∧ c ≠ 1) →
    ∀ (n : Nat) (into : List UInt8) (ch : UInt8) (rest : List UInt8),
      (before.filter isText).length < n →
      readFrom (before ++ 1 :: rest) n into ch =
      some ((-1, into ++ before.filter isText), rest) := by
  intro before
  induction before with
  | nil =>
      intro _ n into ch rest hn
      obtain ⟨m, rfl⟩ := Nat.exists_eq_succ_of_ne_zero (show n ≠ 0 by simp at hn; omega)
      simp [readFrom]
  | cons c before ih =>
      intro hb n into ch rest hn
      obtain ⟨h10, h1⟩ := hb c List.mem_cons_self
      have hrest : ∀ d ∈ before, d ≠ 10 ∧ d ≠ 1 := fun d hd => hb d (List.mem_cons_of_mem c hd)
      rw [filter_isText_cons h10 h1] at hn ⊢
      obtain ⟨m, rfl⟩ := Nat.exists_eq_succ_of_ne_zero (show n ≠ 0 by omega)
      rw [List.cons_append, readFrom]
      by_cases h255 : c = 255
      · rw [if_pos h255] at hn ⊢
        rw [if_pos h255]
        exact ih hrest _ _ _ _ hn
      · rw [if_neg h255] at hn ⊢
        rw [if_neg h255, if_neg (by simp [h10, h1]), ih hrest m _ _ _ (by simpa using hn),
          List.append_assoc]
        rfl

/-- The loop has taken these characters, `n` at most of them text, and returns `r`: the text is
stored behind `into`, and `-1` stands for a line that was ended by character 1. -/
structure Taken (n : Nat) (into taken out : List UInt8) (r : Int) : Prop where
  stored : out = into ++ taken.filter isText
  fits : (taken.filter isText).length ≤ n
  result : r = out.length ∨ r = -1 ∧ ∃ before, taken = before ++ [1] ∧
    (∀ c ∈ before, c ≠ 10 ∧ c ≠ 1) ∧ (before.filter isText).length < n

theorem taken_nothing (n : Nat) (into : List UInt8) : Taken n into [] into into.length :=
  ⟨by simp, by simp, .inl rfl⟩

theorem taken_end {c : UInt8} (n : Nat) (into : List UInt8) (hend : c = 10 ∨ c = 1) :
    Taken (n + 1) into [c] into (if c = 1 then -1 else (into.length : Int)) := by
  have hf : [c].filter isText = [] := by
    rcases hend with rfl | rfl <;> rfl
  refine ⟨by rw [hf, List.append_nil], by rw [hf]; simp, ?_⟩
  by_cases h1 : c = 1
  · rw [if_pos h1]
    exact .inr ⟨rfl, [], by rw [h1]; rfl, by simp, by simp⟩
  · rw [if_neg h1]
    exact .inl rfl

/-- A character that does not end the line goes in front, with room for it if it is text. -/
theorem Taken.cons {n m : Nat} {into into' taken out : List UInt8} {r : Int} {c : UInt8}
    (h : Taken n into' taken out r) (h10 : c ≠ 10) (h1 : c ≠ 1)
    (hinto : into' = into ++ [c].filter isText) (hm : m = n + ([c].filter isText).length) :
    Taken m into (c :: taken) out r := by
  have hf : ∀ l : List UInt8, (c :: l).filter isText = [c].filter isText ++ l.filter isText :=
    fun l => List.filter_append [c] l
  refine ⟨by rw [hf, h.stored, hinto, List.append_assoc], ?_, ?_⟩
  · have := h.fits
    rw [hf, List.length_append]
    omega
  · rcases h.result with hr | ⟨hr, before, hb, hclean, hshort⟩
    · exact .inl hr
    · refine .inr ⟨hr, c :: before, by rw [hb]; rfl, ?_, by rw [hf, List.length_append]; omega⟩
      intro d hd
      rcases List.mem_cons.mp hd with rfl | hd
      · exact ⟨h10, h1⟩
      · exact hclean d hd

/-- **What the loop of `SynchConsoleInput::Read` takes, stores and returns.** -/
theorem readFrom_taken : ∀ (input : List UInt8) {n : Nat} {into : List UInt8} {ch : UInt8} {r : Int}
    {out rest : List UInt8}, (n = 0 → ch ≠ 1) → readFrom input n into ch = some ((r, out), rest) →
    ∃ taken, input = taken ++ rest ∧ Taken n into taken out r := by
  -- with no byte wanted the loop does not start, whatever is typed
  have hzero : ∀ {input into : List UInt8} {ch : UInt8} {r : Int} {out rest : List UInt8}, ch ≠ 1 →
      readFrom input 0 into ch = some ((r, out), rest) →
      ∃ taken, input = taken ++ rest ∧ Taken 0 into taken out r := by
    intro input into ch r out rest hch h
    simp only [readFrom, Option.some.injEq, Prod.mk.injEq, if_neg hch] at h
    obtain ⟨⟨rfl, rfl⟩, rfl⟩ := h
    exact ⟨[], rfl, taken_nothing 0 into⟩
  intro input
  induction input with
  | nil =>
      intro n into ch r out rest hch h
      cases n with
      | zero => exact hzero (hch rfl) h
      | succ n => exact absurd h (by simp [readFrom])
  | cons c input ih =>
      intro n into ch r out rest hch h
      cases n with
      | zero => exact hzero (hch rfl) h
      | succ n =>
          rw [readFrom] at h
          by_cases h255 : c = 255
          · -- nothing was typed yet
            subst h255
            obtain ⟨taken, rfl, ht⟩ := ih (fun hn => absurd hn (by omega)) h
            exact ⟨255 :: taken, rfl,
              ht.cons (by decide) (by decide) (by simp [isText]) (by simp [isText])⟩
          · rw [if_neg h255] at h
            by_cases hend : c = 10 ∨ c = 1
            · -- the end of the line
              rw [if_pos hend] at h
              simp only [Option.some.injEq, Prod.mk.injEq] at h
              obtain ⟨⟨rfl, rfl⟩, rfl⟩ := h
              exact ⟨[c], rfl, taken_end n into hend⟩
            · -- a character of the line
              rw [if_neg hend] at h
              have h10 : c ≠ 10 := fun h' => hend (.inl h')
              have h1 : c ≠ 1 := fun h' => hend (.inr h')
              have hc : [c].filter isText = [c] := by simp [isText, h255, h10, h1]
              obtain ⟨taken, rfl, ht⟩ := ih (fun _ => h1) h
              exact ⟨c :: taken, rfl, ht.cons h10 h1 (by rw [hc]) (by rw [hc]; rfl)⟩

namespace Kernel

variable {η : Type} {H : HostOps η} {fd : Int} {fs : Uid} {k k' : Kernel η}

/-! ## What is moved and what is reported -/

/-- **From `k` to `k'` a call moves so many bytes.** Its id is in register 6. -/
inductive Moved (F : PlainFile H fd) (k k' : Kernel η) : Nat → Prop where
  /-- Characters come from the keyboard to the kernel. The end of a line is taken too, but is not
  one of them. -/
  | fromKeyboard (taken : List UInt8) : k.syscall = some .read →
      (k.machine.readRegister 6).toInt = indexStdin → k.input = taken ++ k'.input →
      Moved F k k' (taken.filter isText).length
  /-- Characters go to the display. -/
  | toDisplay (cs : List UInt8) : k.syscall = some .write →
      (k.machine.readRegister 6).toInt = indexStdout → Shows k k' cs → Moved F k k' cs.length
  /-- Bytes come from the file. -/
  | fromFile (bs : List UInt8) : k.syscall = some .read → 2 ≤ (k.machine.readRegister 6).toInt →
      ((F.content k.host).drop (F.pos k.host)).take bs.length = bs →
      F.content k'.host = F.content k.host → F.pos k'.host = F.pos k.host + bs.length →
      Moved F k k' bs.length
  /-- Bytes go to the file. -/
  | toFile (bs : List UInt8) : k.syscall = some .write → 2 ≤ (k.machine.readRegister 6).toInt →
      F.content k'.host = deposit (F.content k.host) (F.pos k.host) bs →
      F.pos k'.host = F.pos k.host + bs.length → Moved F k k' bs.length
  /-- There is nothing to read from the display, nor to write to the keyboard. -/
  | nothing : (k.syscall = some .read ∧ (k.machine.readRegister 6).toInt = indexStdout) ∨
      (k.syscall = some .write ∧ (k.machine.readRegister 6).toInt = indexStdin) →
      k'.input = k.input → k'.host = k.host → k'.display = k.display → Moved F k k' 0

/-- **The count is right**: when the call comes back and has moved something, register 2 says how
much. What the others do to the display in the meantime is arbitrary. -/
def Counted (F : PlainFile H fd) (k : Kernel η) : Prop :=
  ∀ d run k', d.pc k.currentThread = .idle →
    exceptionHandler H .syscallException (k.withDisplay d run) = .returned k' →
    ∃ m, Moved F (k.withDisplay d run) k' m ∧ (1 ≤ m → (k'.machine.readRegister 2).toInt = m)

/-- **The setting**: `Read` or `Write` of at least one byte, with the id of one of the two console
files or of a regular one. -/
structure TransferSetting (F : PlainFile H fd) (fs : Uid) (k : Kernel η) : Prop where
  owner : k.fileSystem = some fs
  call : k.syscall = some .read ∨ k.syscall = some .write
  count : 1 ≤ (k.machine.readRegister 5).toInt
  opened : (∃ f o, (k.machine.readRegister 6).toInt = indexStdout ∧
      k.fileTables fs 0 = some ⟨f, o, outputType⟩) ∨
    (∃ f o, (k.machine.readRegister 6).toInt = indexStdin ∧
      k.fileTables fs 1 = some ⟨f, o, inputType⟩) ∨
    Regular fs (k.machine.readRegister 6).toInt fd k
  length : ((F.content k.host).length : Int) ≤ intMax
  pos : (F.pos k.host : Int) ≤ intMax
  fits : k.syscall = some .write → (F.pos k.host : Int) + (k.machine.readRegister 5).toInt ≤ intMax

/-- The calls with a wrong count: `Write` of a text to the display (a count of `INT_MAX` makes the
size of the kernel's buffer negative), and `Read` of a line that is ended by character 1. -/
def Miscounts (k : Kernel η) : Prop :=
  (k.syscall = some .write ∧ (k.machine.readRegister 6).toInt = indexStdout ∧
    (k.machine.readRegister 5).toInt < intMax ∧
    ∃ c cs, k.machine.stringAt (k.machine.readRegister 5).toInt.toNat
      (k.machine.readRegister 4).toInt = some (c :: cs)) ∨
  (k.syscall = some .read ∧ (k.machine.readRegister 6).toInt = indexStdin ∧
    EndsStream (k.machine.readRegister 5).toInt k.input)

/-! ## Files -/

theorem moved_fromFile {F : PlainFile H fd} {id : Int} (hid : (k.machine.readRegister 6).toInt = id)
    (hk : Regular fs id fd k) (hc : k.syscall = some .read)
    (hpos : (F.pos k.host : Int) ≤ intMax) (hlen : ((F.content k.host).length : Int) ≤ intMax)
    {e : Exit} (h : Handler.scRead H fs k = .ok e k') :
    ∃ m, Moved F k k' m ∧ (1 ≤ m → (k'.machine.readRegister 2).toInt = m) := by
  obtain ⟨hcont, hpos', hr⟩ := scRead_moves F hk rfl hid hpos hlen h
  have hslot := hk.slot
  refine ⟨_, .fromFile _ hc (by omega) ?_ hcont hpos', fun hm => ?_⟩
  · rw [List.length_take, List.take_eq_take_iff]
    simp
  · rw [hr, if_neg]
    intro he
    rw [he] at hm
    exact absurd hm (by simp)

theorem moved_toFile {F : PlainFile H fd} {id : Int} (hid : (k.machine.readRegister 6).toInt = id)
    (hk : Regular fs id fd k) (hc : k.syscall = some .write)
    (hn : 1 ≤ (k.machine.readRegister 5).toInt)
    (hfits : (F.pos k.host : Int) + (k.machine.readRegister 5).toInt ≤ intMax)
    {e : Exit} (h : Handler.scWrite H fs k = .ok e k') :
    ∃ m, Moved F k k' m ∧ (1 ≤ m → (k'.machine.readRegister 2).toInt = m) := by
  obtain ⟨bs, hcont, hpos', _, hr⟩ := scWrite_moves F hk rfl hid hn hfits h
  have hslot := hk.slot
  refine ⟨_, .toFile bs hc (by omega) hcont hpos', fun hm => ?_⟩
  rw [hr, if_neg]
  intro he
  rw [he] at hm
  exact absurd hm (by simp)

/-! ## The display -/

section Display

variable {f o : Int} (h6 : (k.machine.readRegister 6).toInt = indexStdout)
  (hslot : k.fileTables fs 0 = some ⟨f, o, outputType⟩)
include h6 hslot

theorem scWrite_display_eq :
    Handler.scWrite H fs k = Handler.writeFileCase H fs (k.machine.readRegister 4).toInt
      (k.machine.readRegister 5).toInt indexStdout ⟨f, o, outputType⟩ k := by
  rw [Handler.scWrite_eq_testId, h6, Handler.testId_some (by decide) hslot]
  unfold Handler.writeFound
  rw [if_neg (by simp [outputType, readonlyType, indexStdout, indexStdin])]

/-- **`Write` to the display** shows the text in its buffer, and reports one character less. -/
theorem scWrite_display (hidle : k.display.pc k.currentThread = .idle) {e : Exit}
    (h : Handler.scWrite H fs k = .ok e k') :
    ∃ cs, k.machine.stringAt (k.machine.readRegister 5).toInt.toNat
        (k.machine.readRegister 4).toInt = some cs ∧
      0 ≤ toInt32 ((k.machine.readRegister 5).toInt + 1) ∧ Shows k k' cs ∧
      k'.machine.readRegister 2 = BitVec.ofInt 32 ((cs.length : Int) - 1) := by
  rw [scWrite_display_eq h6 hslot] at h
  unfold Handler.writeFileCase at h
  obtain ⟨p, k₁, hoff, h⟩ := bind_ok h
  rw [bind_eq_of_ok (setFile_eq _ _ _ _)] at h
  obtain ⟨cs, k₂, htext, h⟩ := bind_ok h
  obtain ⟨hsize, hstring⟩ := (Handler.user2System_ok _ _ _ _).mp ⟨k₂, htext⟩
  rw [if_pos rfl] at h
  obtain ⟨_, k₃, hcall, h⟩ := bind_ok h
  have hrest₁ := Handler.onHost_rest hoff
  have hrest₂ := (Handler.looked_user2System htext).rest
  have hframe : k₂.display = k.display ∧ k₂.displayRun = k.displayRun
      ∧ k₂.currentThread = k.currentThread := by
    rw [hrest₂, putFile, hrest₁]
    exact ⟨rfl, rfl, rfl⟩
  obtain ⟨_, hshows⟩ := callDisplay_shows (by rw [hframe.1, hframe.2.2]; exact hidle) hcall
  rw [show (ConsoleCall.writeStdout cs).start.remaining = cs from ConsolePC.remaining_putAll cs]
    at hshows
  obtain ⟨hr, hrest⟩ := leaveWith_rest h
  refine ⟨cs, ?_, hsize, hshows.congr hframe ?_, hr⟩
  · rw [← hstring, putFile, hrest₁]
  · rw [hrest]
    exact ⟨rfl, rfl⟩

/-- Alone at the display, the call comes back. -/
theorem scWrite_display_alone (hf : k.display.Free) (hidle : k.display.pc k.currentThread = .idle)
    {cs : List UInt8} (hn : 1 ≤ (k.machine.readRegister 5).toInt)
    (hmax : (k.machine.readRegister 5).toInt < intMax)
    (hcs : k.machine.stringAt (k.machine.readRegister 5).toInt.toNat
      (k.machine.readRegister 4).toInt = some cs)
    (hrun : k.displayRun = ConsoleState.putAllEvents k.currentThread cs) :
    ∃ k', Handler.scWrite H fs k = .ok .ret k' := by
  obtain ⟨p, h₁, hoff⟩ : ∃ p h₁, OpenFile.getCurrentOffset H ⟨f, o, outputType⟩ k.host = .ok p h₁ :=
    ⟨_, _, rfl⟩
  let k₁ := { k with host := h₁ }.putFile fs indexStdout p.2
  obtain ⟨k₂, htext⟩ := (Handler.user2System_iff (by omega) hmax k₁ cs).mpr hcs
  have hrest₂ := (Handler.looked_user2System htext).rest
  have hframe : k₂.display = k.display ∧ k₂.displayRun = k.displayRun
      ∧ k₂.currentThread = k.currentThread := by
    rw [hrest₂]
    exact ⟨rfl, rfl, rfl⟩
  have hrun₂ : k₂.displayRun = ConsoleState.putAllEvents k₂.currentThread cs := by
    rw [hframe.2.1, hframe.2.2]
    exact hrun
  obtain ⟨d, hcall, _⟩ := callDisplay_alone (by rw [hframe.1]; exact hf)
    (by rw [hframe.1, hframe.2.2]; exact hidle) hrun₂
  obtain ⟨k', hk', _, _⟩ := leaveWith_ok ((cs.length : Int) - 1) (k₂.withDisplay d [])
  refine ⟨k', ?_⟩
  rw [scWrite_display_eq h6 hslot]
  unfold Handler.writeFileCase
  rw [bind_eq_of_ok (onHost_eq hoff), bind_eq_of_ok (setFile_eq _ _ _ _), bind_eq_of_ok htext,
    if_pos rfl, bind_eq_of_ok hcall]
  exact hk'

end Display

/-! ## The keyboard as a file -/

theorem keyboard_taken {α : Type} {scan : Scan α} {a : α} (h : Handler.keyboard scan k = .ok a k') :
    ∃ rest, scan k.input = some (a, rest) ∧ k' = { k with input := rest } := by
  unfold Handler.keyboard at h
  split at h
  · rename_i b rest hb
    injection h with ha h
    exact ⟨rest, by rw [hb, ha], h.symm⟩
  · exact absurd h (by simp)

section Keyboard

variable {f o : Int} (h6 : (k.machine.readRegister 6).toInt = indexStdin)
  (hslot : k.fileTables fs 1 = some ⟨f, o, inputType⟩) (hn : 1 ≤ (k.machine.readRegister 5).toInt)
include h6 hslot hn

/-- `Read` with the id of the keyboard goes on to `readStdin`. The host is asked twice for something
that does not matter. -/
theorem scRead_keyboard_eq : ∃ (k₁ : Kernel η) (ch : UInt8),
    k₁ = { k with host := k₁.host, fileTables := k₁.fileTables } ∧
    Handler.scRead H fs k = (do
      let r ← Handler.keyboard (readConsole (k.machine.readRegister 5).toInt ch)
      let _ ← Handler.system2User (k.machine.readRegister 4).toInt r.1 r.2
      Handler.leaveWith r.1) k₁ := by
  obtain ⟨p, h₁, hoff⟩ : ∃ p h₁, OpenFile.getCurrentOffset H ⟨f, o, inputType⟩ k.host = .ok p h₁ :=
    ⟨_, _, rfl⟩
  have hnew : ∀ k₁ : Kernel η, Handler.newChar (k.machine.readRegister 5).toInt k₁ = .ok () k₁ := by
    intro k₁
    unfold Handler.newChar assert
    rw [if_pos (by omega)]
    rfl
  let k₁ := { k with host := h₁ }.putFile fs indexStdin p.2
  refine ⟨k₁, UInt8.ofNat (toUInt32 (H.unset h₁) % 256), rfl, ?_⟩
  rw [Handler.scRead_eq_testId, h6, Handler.testId_some (by decide) hslot]
  unfold Handler.readFound
  rw [if_neg (by decide)]
  unfold Handler.readFileCase
  rw [bind_eq_of_ok (onHost_eq hoff), bind_eq_of_ok (setFile_eq _ _ _ _), bind_eq_of_ok (hnew _),
    if_pos rfl]
  rfl

/-- **`Read` from the keyboard** reports the characters it has taken, or the end of the stream. -/
theorem scRead_keyboard {e : Exit} (h : Handler.scRead H fs k = .ok e k') :
    ∃ taken, k.input = taken ++ k'.input ∧
      ((k'.machine.readRegister 2).toInt = (taken.filter isText).length ∨
        ∃ before, taken = before ++ [1] ∧ (∀ c ∈ before, c ≠ 10 ∧ c ≠ 1) ∧
          ((before.filter isText).length : Int) < (k.machine.readRegister 5).toInt) := by
  have hmax := BitVec.toInt_lt (x := k.machine.readRegister 5)
  obtain ⟨k₁, ch, hk₁, heq⟩ := scRead_keyboard_eq (H := H) h6 hslot hn
  rw [heq] at h
  obtain ⟨⟨r, out⟩, k₂, hkey, h⟩ := bind_ok h
  obtain ⟨rest, hscan, hk₂⟩ := keyboard_taken hkey
  obtain ⟨_, k₃, hcopy, h⟩ := bind_ok h
  have hin₃ := Handler.keeps_system2User (f := Kernel.input) (fun _ _ _ => rfl) _ _ _ _ _ _ hcopy
  obtain ⟨hr, hrest⟩ := leaveWith_rest h
  have hin : k'.input = rest := by
    rw [hrest]
    show k₃.input = rest
    rw [hin₃, hk₂]
  have hin₁ : k₁.input = k.input := by rw [hk₁]
  rw [hin₁] at hscan
  obtain ⟨taken, htaken, hout, hlen, hcase⟩ :=
    readFrom_taken _ (fun h0 => absurd h0 (by omega)) hscan
  refine ⟨taken, by rw [hin]; exact htaken, ?_⟩
  rcases hcase with hcount | ⟨_, before, hb, hclean, hshort⟩
  · left
    rw [hr, hcount, hout, List.nil_append, ofInt_toInt (by unfold intMax; omega)]
  · exact .inr ⟨before, hb, hclean, by omega⟩

/-- A line that is ended by character 1 is reported as `-1`. -/
theorem scRead_keyboard_stream {before rest : List UInt8} (hin : k.input = before ++ 1 :: rest)
    (hclean : ∀ c ∈ before, c ≠ 10 ∧ c ≠ 1)
    (hshort : ((before.filter isText).length : Int) < (k.machine.readRegister 5).toInt) :
    ∃ k', Handler.scRead H fs k = .ok .ret k' ∧ k'.input = rest ∧
      (k'.machine.readRegister 2).toInt = -1 := by
  obtain ⟨k₁, ch, hk₁, heq⟩ := scRead_keyboard_eq (H := H) h6 hslot hn
  have hscan := readFrom_stream before hclean (k.machine.readRegister 5).toInt.toNat [] ch rest
    (by omega)
  have hin₁ : k₁.input = k.input := by rw [hk₁]
  rw [← hin, ← hin₁] at hscan
  have hkey := Handler.keyboard_ok
    (show readConsole (k.machine.readRegister 5).toInt ch k₁.input = _ from hscan)
  obtain ⟨k', hk', hr, hrest⟩ := leaveWith_ok (-1) { k₁ with input := rest }
  refine ⟨k', ?_, by rw [hrest], by rw [hr]; rfl⟩
  rw [heq, bind_eq_of_ok hkey]
  have hcopy : Handler.system2User (k.machine.readRegister 4).toInt (-1)
      ([] ++ before.filter isText) { k₁ with input := rest } = .ok (-1) { k₁ with input := rest } :=
      rfl
  rw [bind_eq_of_ok hcopy]
  exact hk'

end Keyboard

/-! ## All transfers -/

section Setting

variable {F : PlainFile H fd} (S : TransferSetting F fs k)
include S

/-- The console files are told apart from the others by their ids. -/
theorem TransferSetting.display (h6 : (k.machine.readRegister 6).toInt = indexStdout) :
    ∃ f o, k.fileTables fs 0 = some ⟨f, o, outputType⟩ := by
  unfold indexStdout at h6
  rcases S.opened with ⟨f, o, _, ho⟩ | ⟨f, o, h1, _⟩ | hreg
  · exact ⟨f, o, ho⟩
  · rw [h6] at h1
    exact absurd h1 (by decide)
  · have := hreg.slot
    omega

theorem TransferSetting.keyboard (h6 : (k.machine.readRegister 6).toInt = indexStdin) :
    ∃ f o, k.fileTables fs 1 = some ⟨f, o, inputType⟩ := by
  unfold indexStdin at h6
  rcases S.opened with ⟨f, o, h0, _⟩ | ⟨f, o, _, ho⟩ | hreg
  · rw [h6] at h0
    exact absurd h0 (by decide)
  · exact ⟨f, o, ho⟩
  · have := hreg.slot
    omega

theorem Counted.not_miscounts (hC : Counted F k) : ¬ Miscounts k := by
  rintro (⟨hc, h6, hmax, c, cs, htext⟩ | ⟨hc, h6, before, rest, hin, hclean, hsome, hshort⟩)
  · -- a text on the display, which the call has to itself
    obtain ⟨f, o, hslot⟩ := S.display h6
    let k₀ := k.withDisplay ConsoleState.start (ConsoleState.putAllEvents k.currentThread (c :: cs))
    obtain ⟨k', hk'⟩ :=
      scWrite_display_alone (H := H) (k := k₀) h6 hslot ConsoleState.free_start rfl
      S.count hmax htext rfl
    have hret := (returned_iff H k₀ k').mpr ((dispatch_eq (k := k₀) H S.owner hc).trans hk')
    obtain ⟨m, hm, hr⟩ := hC _ _ k' rfl hret
    obtain ⟨cs', hcs', _, hshows, hr2⟩ := scWrite_display (H := H) (k := k₀) h6 hslot rfl hk'
    have hcs : cs' = c :: cs := Option.some.inj (hcs'.symm.trans htext)
    rw [hcs] at hshows hr2
    have hsole := ConsoleState.sole_putAllEvents k.currentThread (c :: cs)
    have hm' : m = (c :: cs).length := by
      cases hm with
      | fromKeyboard _ hread _ _ => exact absurd (hread.symm.trans hc) (by simp)
      | fromFile _ hread _ _ _ _ => exact absurd (hread.symm.trans hc) (by simp)
      | toFile _ _ hid _ _ =>
          have hid' : 2 ≤ (k.machine.readRegister 6).toInt := hid
          have h6' : (k.machine.readRegister 6).toInt = 0 := h6
          omega
      | nothing hid _ _ _ =>
          rcases hid with ⟨hread, _⟩ | ⟨_, hid⟩
          · exact absurd (hread.symm.trans hc) (by simp)
          · exact absurd (hid.symm.trans h6) (by decide)
      | toDisplay cs'' _ _ hshows' =>
          have hw := (hshows'.written hsole).symm.trans (hshows.written hsole)
          rw [List.append_cancel_left hw]
    have hr' := hr (by rw [hm']; simp)
    rw [hr2, hm', BitVec.toInt_ofInt] at hr'
    have hmod := Int.bmod_emod (x := ((c :: cs).length : Int) - 1) (m := 4294967296)
    rw [show (4294967296 : Nat) = 2 ^ 32 from rfl, hr'] at hmod
    omega
  · -- a line that is ended by character 1
    obtain ⟨f, o, hslot⟩ := S.keyboard h6
    let k₀ := k.withDisplay ConsoleState.start []
    obtain ⟨k', hk', hin', hr2⟩ := scRead_keyboard_stream (H := H) (k := k₀) h6 hslot S.count hin
      hclean hshort
    have hret := (returned_iff H k₀ k').mpr ((dispatch_eq (k := k₀) H S.owner hc).trans hk')
    obtain ⟨m, hm, hr⟩ := hC _ _ k' rfl hret
    have hm' : m = (before.filter isText).length := by
      cases hm with
      | toDisplay _ hwrite _ _ => exact absurd (hwrite.symm.trans hc) (by simp)
      | toFile _ hwrite _ _ _ => exact absurd (hwrite.symm.trans hc) (by simp)
      | fromFile _ _ hid _ _ _ =>
          have hid' : 2 ≤ (k.machine.readRegister 6).toInt := hid
          have h6' : (k.machine.readRegister 6).toInt = 1 := h6
          omega
      | nothing hid _ _ _ =>
          rcases hid with ⟨_, hid⟩ | ⟨hwrite, _⟩
          · exact absurd (hid.symm.trans h6) (by decide)
          · exact absurd (hwrite.symm.trans hc) (by simp)
      | fromKeyboard taken _ _ htaken =>
          have heq : taken ++ k'.input = (before ++ [1]) ++ k'.input := by
            rw [← htaken, hin', List.append_assoc]
            exact hin
          rw [List.append_cancel_right heq, List.filter_append]
          simp [isText]
    have hr' := hr (by omega)
    omega

/-- What `Read` moves and reports. -/
theorem read_counted (hc : k.syscall = some .read) (hno : ¬ Miscounts k) {e : Exit}
    (h : Handler.scRead H fs k = .ok e k') :
    ∃ m, Moved F k k' m ∧ (1 ≤ m → (k'.machine.readRegister 2).toInt = m) := by
  rcases S.opened with ⟨f, o, h6, hslot⟩ | ⟨f, o, h6, hslot⟩ | hreg
  · rw [Handler.scRead_eq_testId, h6, Handler.testId_some (by decide) hslot] at h
    unfold Handler.readFound at h
    rw [if_pos rfl, leaveSaying_eq] at h
    injection h with _ h
    rw [← h]
    exact ⟨0, .nothing (.inl ⟨hc, h6⟩) rfl rfl rfl, fun hm => absurd hm (by omega)⟩
  · obtain ⟨taken, htaken, hcase⟩ := scRead_keyboard h6 hslot S.count h
    refine ⟨_, .fromKeyboard taken hc h6 htaken, fun hm => ?_⟩
    rcases hcase with hr | ⟨before, hb, hclean, hshort⟩
    · exact hr
    · have hf : taken.filter isText = before.filter isText := by
        rw [hb, List.filter_append]
        simp [isText]
      rw [hf] at hm
      refine absurd (.inr ⟨hc, h6, before, k'.input, ?_, hclean, hm, hshort⟩) hno
      rw [htaken, hb, List.append_assoc]
      rfl
  · exact moved_fromFile rfl hreg hc S.pos S.length h

/-- What `Write` moves and reports. -/
theorem write_counted (hc : k.syscall = some .write) (hno : ¬ Miscounts k)
    (hidle : k.display.pc k.currentThread = .idle) {e : Exit}
    (h : Handler.scWrite H fs k = .ok e k') :
    ∃ m, Moved F k k' m ∧ (1 ≤ m → (k'.machine.readRegister 2).toInt = m) := by
  rcases S.opened with ⟨f, o, h6, hslot⟩ | ⟨f, o, h6, hslot⟩ | hreg
  · obtain ⟨cs, htext, hsize, hshows, _⟩ := scWrite_display h6 hslot hidle h
    refine ⟨_, .toDisplay cs hc h6 hshows, fun hm => ?_⟩
    have hmax : (k.machine.readRegister 5).toInt < intMax := by
      have hlt := BitVec.toInt_lt (x := k.machine.readRegister 5)
      by_contra hge
      unfold intMax at hge
      rw [show (k.machine.readRegister 5).toInt = 2147483647 by omega] at hsize
      exact absurd hsize (by decide)
    cases cs with
    | nil => exact absurd hm (by simp)
    | cons c cs => exact absurd (.inl ⟨hc, h6, hmax, c, cs, htext⟩) hno
  · rw [Handler.scWrite_eq_testId, h6, Handler.testId_some (by decide) hslot] at h
    unfold Handler.writeFound at h
    rw [if_pos (.inr rfl), leaveSaying_eq] at h
    injection h with _ h
    rw [← h]
    exact ⟨0, .nothing (.inr ⟨hc, h6⟩) rfl rfl rfl, fun hm => absurd hm (by omega)⟩
  · exact moved_toFile rfl hreg hc S.count (S.fits hc) h

/-- **The count is right except for text on the display and lines ended by character 1.** -/
theorem transfer_count_iff : Counted F k ↔ ¬ Miscounts k := by
  refine ⟨fun h => h.not_miscounts S, fun hno d run k' hidle hret => ?_⟩
  let k₀ := k.withDisplay d run
  have S₀ : TransferSetting F fs k₀ := ⟨S.owner, S.call, S.count, by
    rcases S.opened with hout | hin | hreg
    · exact .inl hout
    · exact .inr (.inl hin)
    · exact .inr (.inr ⟨hreg.owner, hreg.slot, hreg.opened⟩), S.length, S.pos, S.fits⟩
  rw [returned_iff] at hret
  rcases S.call with hc | hc
  · rw [dispatch_eq (k := k₀) H S.owner hc] at hret
    exact read_counted S₀ hc hno hret
  · rw [dispatch_eq (k := k₀) H S.owner hc] at hret
    exact write_counted S₀ hc hno hidle hret

end Setting

/-- The initial process calls `Write(0, 3, id)`, with three letters at address 0 and a file of two
bytes in slot 2. -/
def sending (id : BitVec 32) : Kernel (List UInt8 × Nat) :=
  { copying 99 with
    machine :=
      { (copying 99).machine with
        registers :=
          fun r => if r = 2 then 8#32 else if r = 5 then 3#32 else if r = 6 then id else 0#32 }
    fileTables := fun _ i =>
      if i = 0 then some ⟨4, 0, outputType⟩
      else if i = 1 then some ⟨3, 0, inputType⟩
      else if i = 2 then some ⟨5, 0, readwriteType⟩
      else none }

theorem sending_setting : ∀ id ∈ [0#32, 2#32], TransferSetting arrayFile 0 (sending id) := by
  intro id hid
  have hid' : id = 0#32 ∨ id = 2#32 := by simpa using hid
  have hlen : ((2 : Nat) : Int) ≤ intMax := by decide
  have hpos : ((1 : Nat) : Int) ≤ intMax := by decide
  have hfits : ((1 : Nat) : Int) + 3 ≤ intMax := by decide
  refine ⟨rfl, .inr (by rcases hid' with rfl | rfl <;> rfl), ?_, ?_, hlen, hpos, fun _ => hfits⟩
  · rcases hid' with rfl | rfl <;> decide
  · rcases hid' with rfl | rfl
    · exact .inl ⟨4, 0, rfl, rfl⟩
    · exact .inr (.inr ⟨rfl, by decide, 0, readwriteType, .inr rfl, rfl⟩)

/-- Three letters to the file. -/
theorem transfer_count_file : Counted arrayFile (sending 2#32) := by
  refine (transfer_count_iff (sending_setting 2#32 (by decide))).mpr ?_
  rintro (⟨_, h6, _⟩ | ⟨_, h6, _⟩)
  · exact absurd h6 (by decide)
  · exact absurd h6 (by decide)

/-- Three letters to the display, and `Write` returns 2. -/
theorem transfer_count_display :
    ¬ ∀ (η : Type) (H : HostOps η) (fd : Int) (F : PlainFile H fd) (fs : Uid) (k : Kernel η),
      TransferSetting F fs k → Counted F k := by
  intro h
  have S := sending_setting 0#32 (by decide)
  refine (h _ _ _ arrayFile 0 (sending 0#32) S).not_miscounts S (.inl ⟨rfl, rfl, by decide, 97, ?_⟩)
  exact ⟨[99, 98], by decide +kernel⟩

end Kernel

end Nachos
