import Nachos.Userprog.Exception
import Nachos.Userprog.LineInput
import Mathlib.Data.List.GetD

/-!
# Line reads lose nothing

The bytes of the input file are at any time in four places: with the calls of `Read` that have
returned, with the one that is in progress, in the device, and in the file. Nothing is on the way
between two of them, and none of them changes the order, so the characters that a call
is given are the next ones of the stream, whoever was slow.

A line that is as long as the buffer ends the call before its newline is taken, which is then
the first character of the next call.
-/

namespace Nachos

open Base (upd upd_self upd_ne)

/-- What is in the device. -/
def ConsoleInput.held (s : ConsoleInput) : List UInt8 :=
  if s.incoming = eofChar then [] else [s.incoming]

/-- The call has read `line`: it has taken those characters, with the newline if there was room
left, stored them with zeros behind, returned their number, and left the rest of the memory
alone. -/
structure ReadCall.HasRead (c : ReadCall) (line : List UInt8) : Prop where
  noNewline : 10 ∉ line
  result : c.result = line.length
  fits : line.length ≤ c.numBytes
  consumed : c.consumed = if line.length < c.numBytes then line ++ [10] else line
  stored : ∀ j, j < c.numBytes → c.after (c.into + j) = line.getD j 0
  outside : ∀ a, a < c.into ∨ c.into + c.numBytes ≤ a → c.after a = c.before a

/-- At least one character is asked for. -/
def ReadEvent.Asks : ReadEvent → Prop
  | .call _ numBytes _ => 1 ≤ numBytes
  | _ => True

instance (e : ReadEvent) : Decidable e.Asks := by
  cases e <;> (unfold ReadEvent.Asks; infer_instance)

namespace LineReader

/-- The call in progress has read `line` so far. -/
structure Reads (s : LineReader) (line : List UInt8) : Prop where
  noNewline : 10 ∉ line
  length : line.length = s.loop
  fits : s.loop ≤ s.numBytes
  short : s.eolncond = true → s.loop < s.numBytes
  got : s.got = line ++ if s.eolncond then [10] else []
  stored : ∀ j, j < s.numBytes → s.mem (s.into + j) = line.getD j 0
  outside : ∀ a, a < s.into ∨ s.into + s.numBytes ≤ a → s.mem a = s.before a

/-- What the place of the reader says about its loop. -/
def AtPC (s : LineReader) : ReadPC → Prop
  | .out => s.got = []
  | .wait | .get => s.loop < s.numBytes ∧ s.eolncond = false
  | .unblock => s.got ≠ [] ∧ (s.loop = s.numBytes ∨ s.eolncond = true)
  | _ => True

/-- What holds at every moment. -/
structure Inv (bytes : List UInt8) (s : LineReader) : Prop where
  stream : bytes = s.reads.flatMap ReadCall.consumed ++
    (s.got ++ (s.device.held ++ s.device.unread))
  /-- A poll is scheduled only when the device is empty. -/
  single : s.device.pending + s.device.held.length ≤ 1
  sound : s.device.aborted = false
  done : ∀ c ∈ s.reads, 1 ≤ c.numBytes ∧ ∃ line, c.HasRead line
  line : s.pc ≠ .out → 1 ≤ s.numBytes ∧ ∃ line, s.Reads line
  atPC : s.AtPC s.pc
  ch : s.got ≠ [] → s.ch ≠ 1

variable {bytes : List UInt8} {s s' : LineReader} {t : Nat}

theorem inv_new (bytes : List UInt8) (mem : Nat → UInt8) : Inv bytes (new bytes mem) where
  stream := rfl
  single := Nat.le_refl 1
  sound := rfl
  done := fun _ hc => absurd hc List.not_mem_nil
  line := fun h => absurd rfl h
  atPC := rfl
  ch := fun h => absurd rfl h

/-! ## What the loop does not look at -/

theorem Reads.keep {line : List UInt8} (h : s.Reads line) (device : ConsoleInput) (r : Semaphore)
    (k : ReadPC) (ch : UInt8) :
    Reads { s with device := device, rLineBlock := r, pc := k, ch := ch } line :=
  ⟨h.noNewline, h.length, h.fits, h.short, h.got, h.stored, h.outside⟩

theorem AtPC.keep {k : ReadPC} (h : s.AtPC k) (device : ConsoleInput) (r : Semaphore) (k' : ReadPC)
    (ch : UInt8) : AtPC { s with device := device, rLineBlock := r, pc := k', ch := ch } k := by
  cases k <;> exact h

theorem held_of_ne {d : ConsoleInput} (h : d.incoming ≠ eofChar) : d.held = [d.incoming] := if_neg h

theorem held_of_eof {d : ConsoleInput} (h : d.incoming = eofChar) : d.held = [] := if_pos h

/-- A character that is given is no longer in the device. -/
theorem give_held (d : ConsoleInput) : d.give.held = [] := if_pos rfl

theorem give_pending (d : ConsoleInput) : d.give.pending = d.pending + d.held.length := by
  by_cases h : d.incoming = eofChar
  · rw [held_of_eof h]
    exact if_neg (not_not.mpr h)
  · rw [held_of_ne h]
    exact if_pos h

/-! ## Every step keeps it -/

theorem inv_enter (h : Inv bytes s) (hpc : s.pc = .out) {into numBytes : Nat} (hn : 1 ≤ numBytes)
    (ch : UInt8) : Inv bytes (s.enter into numBytes ch) := by
  have hgot : s.got = [] := by
    have hat := h.atPC
    rwa [hpc] at hat
  refine ⟨?_, h.single, h.sound, h.done, fun _ => ⟨hn, [], ?_⟩, trivial, fun hg => absurd rfl hg⟩
  · rw [h.stream, hgot]
    rfl
  · refine ⟨List.not_mem_nil, rfl, Nat.zero_le _, fun hf => absurd hf Bool.false_ne_true,
      rfl, ?_, ?_⟩
    · intro j hj
      exact if_pos ⟨Nat.le_add_right _ _, Nat.add_lt_add_left hj _⟩
    · intro a ha
      refine if_neg fun hin => ?_
      change a < into ∨ into + numBytes ≤ a at ha
      omega

/-- A step that neither takes a character nor stores one. -/
theorem Inv.move (h : Inv bytes s) (hpc : s.pc ≠ .out) {device : ConsoleInput} {r : Semaphore}
    {k : ReadPC} (hk : s.AtPC k) (hheld : device.held = s.device.held)
    (hunread : device.unread = s.device.unread) (hpending : device.pending = s.device.pending)
    (haborted : device.aborted = s.device.aborted) :
    Inv bytes { s with device := device, rLineBlock := r, pc := k } where
  stream := by
    dsimp only
    rw [hheld, hunread]
    exact h.stream
  single := by
    dsimp only
    rw [hheld, hpending]
    exact h.single
  sound := haborted.trans h.sound
  done := h.done
  line := fun _ => by
    obtain ⟨hn, line, hline⟩ := h.line hpc
    exact ⟨hn, line, hline.keep _ _ _ _⟩
  atPC := hk.keep _ _ _ _
  ch := h.ch

theorem inv_takeLine (h : Inv bytes s) (hpc : s.pc = .block) (hs : s.takeLine t = some s') :
    Inv bytes s' := by
  unfold takeLine at hs
  split at hs
  · exact absurd hs (by simp)
  · obtain rfl := Option.some.inj hs
    refine h.move (by rw [hpc]; exact ReadPC.noConfusion) ?_ rfl rfl rfl rfl
    split <;> exact trivial

theorem inv_loop (h : Inv bytes s) (hpc : s.pc = .loop) :
    Inv bytes { s with
      pc := if s.loop < s.numBytes ∧ s.eolncond = false then .wait else .unblock } := by
  have hin : s.pc ≠ .out := by
    rw [hpc]
    exact ReadPC.noConfusion
  refine h.move hin ?_ rfl rfl rfl rfl
  split
  · assumption
  · rename_i hno
    obtain ⟨hn, line, hline⟩ := h.line hin
    have hfits := hline.fits
    by_cases heoln : s.eolncond = true
    · refine ⟨?_, Or.inr heoln⟩
      rw [hline.got, heoln]
      simp
    · have hfull : s.loop = s.numBytes := by
        have hfalse : s.eolncond = false := by simpa using heoln
        have hnot : ¬ s.loop < s.numBytes := fun hlt => hno ⟨hlt, hfalse⟩
        omega
      refine ⟨?_, Or.inl hfull⟩
      intro hg
      have hlength := congrArg List.length (hline.got.symm.trans hg)
      rw [List.length_append, hline.length] at hlength
      simp at hlength
      omega

theorem inv_await (h : Inv bytes s) (hpc : s.pc = .wait) (hs : s.await t = some s') :
    Inv bytes s' := by
  have hat : s.loop < s.numBytes ∧ s.eolncond = false := by
    have hat := h.atPC
    rwa [hpc] at hat
  unfold await at hs
  split at hs
  · exact absurd hs (by simp)
  · obtain rfl := Option.some.inj hs
    refine h.move (by rw [hpc]; exact ReadPC.noConfusion) ?_ rfl rfl rfl rfl
    split <;> exact hat

/-- The newline ends the line. -/
theorem Reads.newline {line : List UInt8} (h : s.Reads line) (hroom : s.loop < s.numBytes)
    (heoln : s.eolncond = false) :
    Reads { s with eolncond := true, got := s.got ++ [10] } line where
  noNewline := h.noNewline
  length := h.length
  fits := h.fits
  short := fun _ => hroom
  got := by
    dsimp only
    rw [h.got, heoln]
    simp
  stored := h.stored
  outside := h.outside

/-- Any other character is stored behind those before it. -/
theorem Reads.store {line : List UInt8} (h : s.Reads line) (hroom : s.loop < s.numBytes)
    (heoln : s.eolncond = false) {c : UInt8} (hc : c ≠ 10) :
    Reads { s with mem := upd s.mem (s.into + s.loop) c, loop := s.loop + 1, got := s.got ++ [c] }
      (line ++ [c]) where
  noNewline := by
    rw [List.mem_append, List.mem_singleton]
    rintro (hin | he)
    · exact h.noNewline hin
    · exact hc he.symm
  length := by
    rw [List.length_append, h.length]
    rfl
  fits := hroom
  short := fun hf => absurd (heoln.symm.trans hf) Bool.false_ne_true
  got := by
    dsimp only
    rw [h.got, heoln]
    simp
  stored := by
    intro j hj
    dsimp only
    by_cases hj' : j = s.loop
    · rw [hj', upd_self, ← h.length]
      simp
    · rw [upd_ne _ _ (by omega), h.stored j hj]
      rcases Nat.lt_or_ge j line.length with hlt | hge
      · rw [List.getD_append _ _ _ _ hlt]
      · have hlen := h.length
        rw [List.getD_eq_default _ _ hge, List.getD_eq_default]
        rw [List.length_append, List.length_singleton]
        omega
  outside := by
    intro a ha
    dsimp only at ha ⊢
    rw [upd_ne _ _ (by omega)]
    exact h.outside a ha

/-- **The character that is taken is the next one of the stream.** -/
theorem inv_takeChar (hbytes : (1 : UInt8) ∉ bytes) (h : Inv bytes s) (hpc : s.pc = .get) :
    Inv bytes s.takeChar := by
  obtain ⟨hroom, heoln⟩ : s.loop < s.numBytes ∧ s.eolncond = false := by
    have hat := h.atPC
    rwa [hpc] at hat
  obtain ⟨hn, line, hline⟩ := h.line (by rw [hpc]; exact ReadPC.noConfusion)
  have hsingle : s.device.give.pending + s.device.give.held.length ≤ 1 := by
    rw [give_pending, give_held]
    exact h.single
  unfold takeChar
  dsimp only
  by_cases heof : s.device.incoming = eofChar
  · -- `EOF` is waited out
    rw [if_pos heof]
    refine ⟨?_, hsingle, h.sound, h.done, fun _ => ⟨hn, line, hline.keep _ _ _ _⟩, ⟨hroom, heoln⟩,
      fun _ => ?_⟩
    · have hstream := h.stream
      rw [held_of_eof heof] at hstream
      rw [hstream]
      dsimp only
      rw [give_held]
      rfl
    · dsimp only
      rw [heof]
      decide
  · rw [if_neg heof]
    have hstream := h.stream
    rw [held_of_ne heof] at hstream
    have hmem : s.device.incoming ∈ bytes := by
      rw [hstream]
      simp
    have hone : s.device.incoming ≠ 1 := fun he => hbytes (he ▸ hmem)
    have hmoved : bytes = s.reads.flatMap ReadCall.consumed ++
        (s.got ++ [s.device.incoming] ++ (s.device.give.held ++ s.device.give.unread)) := by
      rw [hstream, give_held]
      simp [ConsoleInput.give]
    by_cases hend : s.device.incoming = 10
    · rw [if_pos (Or.inl hend)]
      refine ⟨hmoved, hsingle, h.sound, h.done, fun _ => ⟨hn, line, ?_⟩, trivial, fun _ => hone⟩
      rw [hend]
      exact (hline.newline hroom heoln).keep _ _ _ _
    · rw [if_neg (not_or.mpr ⟨hend, hone⟩)]
      exact ⟨hmoved, hsingle, h.sound, h.done,
        fun _ => ⟨hn, line ++ [s.device.incoming], (hline.store hroom heoln hend).keep _ _ _ _⟩,
        trivial, fun _ => hone⟩

/-- **What a call has read when it returns.** -/
theorem inv_leave (h : Inv bytes s) (hpc : s.pc = .unblock) : Inv bytes s.leave := by
  obtain ⟨hgot, hover⟩ : s.got ≠ [] ∧ (s.loop = s.numBytes ∨ s.eolncond = true) := by
    have hat := h.atPC
    rwa [hpc] at hat
  obtain ⟨hn, line, hline⟩ := h.line (by rw [hpc]; exact ReadPC.noConfusion)
  refine ⟨?_, h.single, h.sound, ?_, fun hf => absurd rfl hf, rfl, fun hf => absurd rfl hf⟩
  · have hstream := h.stream
    unfold leave
    rw [List.flatMap_append]
    simpa using hstream
  · intro c hc
    rcases List.mem_append.mp hc with hc | hc
    · exact h.done c hc
    · obtain rfl := List.mem_singleton.mp hc
      have hlength := hline.length
      have hfits := hline.fits
      refine ⟨hn, line, hline.noNewline, ?_, by rw [hlength]; exact hfits, ?_, hline.stored,
        hline.outside⟩
      · dsimp only
        rw [if_neg (h.ch hgot), hlength]
      · dsimp only
        rw [hline.got, hlength]
        by_cases heoln : s.eolncond = true
        · rw [if_pos heoln, if_pos (hline.short heoln)]
        · have hfull : s.loop = s.numBytes := hover.resolve_right heoln
          rw [if_neg heoln, if_neg (by omega), List.append_nil]

/-- **A poll moves a character from the file to the device**, if there is one. -/
theorem callBack_moves {d : ConsoleInput} (hin : d.incoming = eofChar) (hp : d.pending = 1)
    (hclean : eofChar ∉ d.unread) (ready : Bool) :
    (d.callBack ready).held ++ (d.callBack ready).unread = d.unread ∧
      (d.callBack ready).pending + (d.callBack ready).held.length ≤ 1 ∧
      (d.callBack ready).aborted = d.aborted := by
  unfold ConsoleInput.callBack
  rw [if_neg (not_not.mpr hin)]
  split
  · rw [held_of_eof]
    · refine ⟨rfl, ?_, rfl⟩
      show d.pending - 1 + 1 ≤ 1
      omega
    · exact hin
  · split
    · rw [held_of_eof]
      · refine ⟨rfl, ?_, rfl⟩
        show d.pending - 1 ≤ 1
        omega
      · exact hin
    · rename_i c unread hu
      have hc : c ≠ eofChar := fun he => hclean (by rw [hu, he]; exact List.mem_cons_self)
      rw [held_of_ne]
      · refine ⟨hu.symm, ?_, rfl⟩
        show d.pending - 1 + 1 ≤ 1
        omega
      · exact hc

/-- A poll is due only when the device is empty. -/
theorem inv_poll (hbytes : eofChar ∉ bytes) (h : Inv bytes s) (hp : 0 < s.device.pending)
    (ready : Bool) : Inv bytes { s with device := s.device.callBack ready } := by
  have hsingle := h.single
  have hheld : s.device.held = [] := List.eq_nil_of_length_eq_zero (by omega)
  have hin : s.device.incoming = eofChar := by
    by_contra hne
    rw [held_of_ne hne] at hheld
    exact List.cons_ne_nil _ _ hheld
  have hstream := h.stream
  rw [hheld, List.nil_append] at hstream
  have hclean : eofChar ∉ s.device.unread := fun hc => hbytes (by rw [hstream]; simp [hc])
  obtain ⟨hmoved, hone, haborted⟩ := callBack_moves hin (by omega) hclean ready
  rw [← hmoved] at hstream
  refine ⟨hstream, hone, haborted.trans h.sound, h.done, fun hpc => ?_, ?_, h.ch⟩
  · obtain ⟨hn, line, hline⟩ := h.line hpc
    exact ⟨hn, line, hline.keep _ _ _ _⟩
  · exact h.atPC.keep _ _ _ _

theorem inv_step (heof : eofChar ∉ bytes) (hone : (1 : UInt8) ∉ bytes) {e : ReadEvent}
    (h : Inv bytes s) (he : e.Asks) (hs : s.step t e = some s') : Inv bytes s' := by
  unfold step at hs
  split at hs
  · exact absurd hs (by simp)
  cases e with
  | call into numBytes ch =>
      dsimp only at hs
      split at hs
      · rename_i hpc
        obtain rfl := Option.some.inj hs
        exact inv_enter h hpc he ch
      · exact absurd hs (by simp)
  | go =>
      dsimp only at hs
      unfold go at hs
      split at hs
      · exact absurd hs (by simp)
      · exact inv_takeLine h ‹_› hs
      · obtain rfl := Option.some.inj hs
        exact inv_loop h ‹_›
      · exact inv_await h ‹_› hs
      · obtain rfl := Option.some.inj hs
        exact inv_takeChar hone h ‹_›
      · obtain rfl := Option.some.inj hs
        exact inv_leave h ‹_›
  | poll ready =>
      dsimp only at hs
      split at hs
      · obtain rfl := Option.some.inj hs
        exact inv_poll heof h ‹_› ready
      · exact absurd hs (by simp)

theorem inv_reachBy (heof : eofChar ∉ bytes) (hone : (1 : UInt8) ∉ bytes)
    (h : (sys t bytes).ReachBy (fun _ e => e.Asks) s) : Inv bytes s := by
  refine h.invariant (I := Inv bytes) ?_ fun s e s' _ hi hg hs => inv_step heof hone hi hg hs
  rintro s ⟨mem, rfl⟩
  exact inv_new bytes mem

/--
**Line reads lose nothing.**

At any time the bytes of the input are those that the calls so far have consumed, one call after the
other, those of the call in progress, and those that nobody has consumed yet. Each call that
has returned has read a line, or as much of one as it had room for.
-/
theorem reads_lose_nothing (t : Nat) (bytes : List UInt8) (heof : eofChar ∉ bytes)
    (hone : (1 : UInt8) ∉ bytes) (s : LineReader)
    (h : (sys t bytes).ReachBy (fun _ e => e.Asks) s) :
    bytes = s.reads.flatMap ReadCall.consumed ++ (s.got ++ (s.device.held ++ s.device.unread)) ∧
    (∀ c ∈ s.reads, ∃ line, c.HasRead line) ∧
    (s.pc ≠ .out → ∀ a, a < s.into ∨ s.into + s.numBytes ≤ a → s.mem a = s.before a) := by
  have hinv := inv_reachBy heof hone h
  refine ⟨hinv.stream, fun c hc => (hinv.done c hc).2, fun hpc => ?_⟩
  obtain ⟨_, line, hline⟩ := hinv.line hpc
  exact hline.outside

/-- Two calls with room for two characters, and a line of two. -/
def lineOfTwo : List ReadEvent :=
  [.call 4 2 1, .go, .go, .poll true, .go, .go, .go, .poll false, .poll true, .go, .go, .go, .go,
    .call 4 2 1, .go, .go, .go, .poll true, .go, .go, .go, .go]

/-- The newline is left to the second one. -/
theorem lineOfTwo_lost_nothing : ∃ s,
    (sys 7 [97, 98, 10, 99]).runBy (fun _ e => e.Asks) (new [97, 98, 10, 99] fun _ => 0) lineOfTwo =
      some s ∧
    s.reads.map (fun c => (c.result, c.consumed)) = [(2, [97, 98]), (0, [10])] ∧
    ([97, 98, 10, 99] : List UInt8) =
      s.reads.flatMap ReadCall.consumed ++ (s.got ++ (s.device.held ++ s.device.unread)) ∧
    (∀ c ∈ s.reads, ∃ line, c.HasRead line) ∧
    (s.pc ≠ .out → ∀ a, a < s.into ∨ s.into + s.numBytes ≤ a → s.mem a = s.before a) := by
  obtain ⟨s, hrun, hreads⟩ : ∃ s,
      (sys 7 [97, 98, 10, 99]).runBy (fun _ e => e.Asks)
      (new [97, 98, 10, 99] fun _ => 0) lineOfTwo =
        some s ∧
      s.reads.map (fun c => (c.result, c.consumed)) = [(2, [97, 98]), (0, [10])] := ⟨_, rfl, rfl⟩
  have hinit : (sys 7 [97, 98, 10, 99]).init (new [97, 98, 10, 99] fun _ => 0) := ⟨_, rfl⟩
  have hreach := Base.System.ReachBy.runBy lineOfTwo (.init hinit) hrun
  exact ⟨s, hrun, hreads, reads_lose_nothing 7 _ (by decide) (by decide) s hreach⟩

/-! ## The calls as functions of the stream -/

/-- The loop of `readFrom` over a line. -/
theorem readFrom_line {rest : List UInt8} : ∀ (line : List UInt8) {n : Nat} {into : List UInt8}
    {ch : UInt8}, (∀ c ∈ line, c ≠ 255 ∧ c ≠ 10 ∧ c ≠ 1) → line.length ≤ n → (n = 0 → ch ≠ 1) →
    readFrom ((if line.length < n then line ++ [10] else line) ++ rest) n into ch =
      some ((((into ++ line).length : Int), into ++ line), rest) := by
  intro line
  induction line with
  | nil =>
      intro n into ch _ _ hch
      rw [List.append_nil]
      cases n with
      | zero => simp [readFrom, hch rfl]
      | succ n => simp [readFrom]
  | cons c line ih =>
      intro n into ch hplain hlength _
      obtain ⟨h255, h10, h1⟩ := hplain c List.mem_cons_self
      cases n with
      | zero => exact absurd hlength (by simp)
      | succ n =>
          have hline := @ih n (into ++ [c]) c (fun d hd => hplain d (List.mem_cons_of_mem _ hd))
            (Nat.le_of_succ_le_succ hlength) fun _ => h1
          rw [List.append_assoc, List.singleton_append] at hline
          have hcons : (if (c :: line).length < n + 1 then c :: line ++ [10] else c :: line) =
              c :: if line.length < n then line ++ [10] else line := by
            rw [List.length_cons]
            simp only [Nat.add_lt_add_iff_right]
            split <;> rfl
          rw [← hline, hcons, List.cons_append, readFrom, if_neg h255,
            if_neg (not_or.mpr ⟨h10, h1⟩)]

/-- **Each call is `readConsole`** on what it consumed, whatever follows it. -/
theorem reads_readConsole (heof : eofChar ∉ bytes) (hone : (1 : UInt8) ∉ bytes)
    (h : (sys t bytes).ReachBy (fun _ e => e.Asks) s) : ∀ c ∈ s.reads, ∃ line, c.HasRead line ∧
      ∀ (ch : UInt8) (rest : List UInt8),
        readConsole c.numBytes ch (c.consumed ++ rest) = some ((c.result, line), rest) := by
  have hinv := inv_reachBy heof hone h
  intro c hc
  obtain ⟨hn, line, hline⟩ := hinv.done c hc
  have hin : ∀ d ∈ line, d ∈ bytes := fun d hd => by
    have hconsumed : d ∈ c.consumed := by
      rw [hline.consumed]
      split
      · exact List.mem_append_left _ hd
      · exact hd
    rw [hinv.stream]
    exact List.mem_append_left _ (List.mem_flatMap.mpr ⟨c, hc, hconsumed⟩)
  refine ⟨line, hline, fun ch rest => ?_⟩
  unfold readConsole
  rw [hline.consumed, hline.result, Int.toNat_natCast]
  refine readFrom_line line (fun d hd => ⟨?_, ?_, ?_⟩) hline.fits fun h0 => absurd hn (by omega)
  · rintro rfl
    exact heof (hin _ hd)
  · rintro rfl
    exact hline.noNewline hd
  · rintro rfl
    exact hone (hin _ hd)

end LineReader

end Nachos
