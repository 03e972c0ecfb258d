import Nachos.Userprog.ConsoleInput

/-!
# Which inputs the keyboard delivers

As long as the device can tell a character from none, one thing is outstanding at any time: a poll,
or a character that has been announced and not been taken. A character 255 looks like none.
`GetChar` delivers it, but schedules no poll, and what comes after it in the file is never
read. At the very end of the file that does no harm.
-/

namespace Nachos

open Base (upd upd_self upd_ne Exclusive)

/-- Past the `P` of the lock and not past its `V`. -/
def GetCharPC.holds : GetCharPC → Bool
  | .out => false
  | .acquire => false
  | _ => true

namespace ConsoleInput

/-- A character has been announced, and nobody has taken it from the device. -/
def Waiting (s : ConsoleInput) : Prop := 0 < s.waitFor.value ∨ ∃ t, s.pc t = .get

/-- What the keyboard owes its readers, if the input file holds `bytes`. -/
structure Complete (bytes : List UInt8) (s : ConsoleInput) : Prop where
  /-- Calls return the bytes in order, and `EOF` after the last one. -/
  inOrder : s.returned <+: bytes ++ [eofChar]
  /-- While there is input left, a poll is scheduled or a character is waiting. -/
  alive : s.unread ≠ [] → ¬ s.Waiting → 0 < s.pending

/-! ## The invariant -/

/-- One character has been announced. It is still to be taken, and somebody may be about to. -/
def Announced (s : ConsoleInput) : Prop :=
  (s.waitFor.value = 1 ∧ ∀ t, s.pc t ≠ .get) ∨ (s.waitFor.value = 0 ∧ ∃ t, s.pc t = .get)

/-- There is nothing to take. -/
def Silent (s : ConsoleInput) : Prop := s.waitFor.value = 0 ∧ ∀ t, s.pc t ≠ .get

/-- How the device, the file and the readers stand to each other. -/
inductive Stage (bytes : List UInt8) (s : ConsoleInput) : Prop where
  /-- A poll is scheduled. -/
  | polling : s.Silent → s.pending = 1 → s.incoming = eofChar → bytes = s.taken ++ s.unread →
      Stage bytes s
  /-- A character is in the device. -/
  | ready (c : UInt8) : s.Announced → s.pending = 0 → s.incoming = c →
      bytes = s.taken ++ c :: s.unread → (c = eofChar → s.unread = []) → Stage bytes s
  /-- The end of the file has been announced. -/
  | ended : s.Announced → s.pending = 0 → s.incoming = eofChar → s.unread = [] →
      bytes = s.taken → Stage bytes s
  /-- There will be no more. -/
  | closed : s.Silent → s.pending = 0 → s.unread = [] →
      s.taken = bytes ∨ s.taken = bytes ++ [eofChar] → Stage bytes s

/-- What holds at every moment. -/
structure Inv (bytes : List UInt8) (s : ConsoleInput) : Prop where
  lock : Exclusive s.lock.value (fun t => (s.pc t).holds = true)
  stage : Stage bytes s
  /-- The character on its way out is the last that was taken. -/
  inHand : ∀ t ch, s.pc t = .release ch → s.taken = s.returned ++ [ch]
  /-- If there is none, all that was taken has been returned. -/
  handed : (∀ t ch, s.pc t ≠ .release ch) → s.taken = s.returned
  sound : s.aborted = false

variable {bytes : List UInt8} {s s' : ConsoleInput} {t : Nat} {ch : UInt8}

theorem inv_new (bytes : List UInt8) : Inv bytes (new bytes) where
  lock := Or.inl ⟨rfl, fun t => by simp [new, GetCharPC.holds]⟩
  stage := .polling ⟨rfl, fun t => by simp [new]⟩ rfl rfl rfl
  inHand := by intro t ch h; simp [new] at h
  handed := fun _ => rfl
  sound := rfl

/-- What is announced does not depend on who else moves. -/
theorem Stage.congr (h : Stage bytes s) (h1 : s'.waitFor.value = s.waitFor.value)
    (h2 : ∀ u, s'.pc u = .get ↔ s.pc u = .get) (h3 : s'.unread = s.unread)
    (h4 : s'.incoming = s.incoming) (h5 : s'.pending = s.pending) (h6 : s'.taken = s.taken) :
    Stage bytes s' := by
  have hsilent : s.Silent → s'.Silent := fun ⟨hv, hg⟩ =>
    ⟨h1.trans hv, fun u hu => hg u ((h2 u).mp hu)⟩
  have hann : s.Announced → s'.Announced := by
    rintro (⟨hv, hg⟩ | ⟨hv, u, hu⟩)
    · exact .inl ⟨h1.trans hv, fun u hu => hg u ((h2 u).mp hu)⟩
    · exact .inr ⟨h1.trans hv, u, (h2 u).mpr hu⟩
  cases h with
  | polling hq hp hi hb =>
      exact .polling (hsilent hq) (h5.trans hp) (h4.trans hi) (by rw [h6, h3]; exact hb)
  | ready c hq hp hi hb he =>
      exact .ready c (hann hq) (h5.trans hp) (h4.trans hi) (by rw [h6, h3]; exact hb)
        (fun hc => h3.trans (he hc))
  | ended hq hp hi hu hb =>
      exact .ended (hann hq) (h5.trans hp) (h4.trans hi) (h3.trans hu) (by rw [h6]; exact hb)
  | closed hq hp hu hb =>
      exact .closed (hsilent hq) (h5.trans hp) (h3.trans hu) (by rw [h6]; exact hb)

theorem get_upd {k : GetCharPC} (ht : s.pc t ≠ .get) (hk : k ≠ .get) (u : Nat) :
    upd s.pc t k u = .get ↔ s.pc u = .get := by
  by_cases hu : u = t
  · rw [hu, upd_self]
    exact iff_of_false hk ht
  · rw [upd_ne _ _ hu]

/-- A thread that moves outside the device, and neither takes a character nor returns one. -/
theorem Inv.move (h : Inv bytes s) {k : GetCharPC} (hs : s'.pc = upd s.pc t k)
    (hlock : Exclusive s'.lock.value (fun u => (upd s.pc t k u).holds = true))
    (hstage : Stage bytes s') (htaken : s'.taken = s.taken) (hret : s'.returned = s.returned)
    (hab : s'.aborted = s.aborted) (ht : ∀ ch, s.pc t ≠ .release ch) (hk : ∀ ch, k ≠ .release ch) :
    Inv bytes s' where
  lock := by rw [hs]; exact hlock
  stage := hstage
  inHand := by
    intro u ch hu
    rw [hs] at hu
    rw [htaken, hret]
    by_cases hut : u = t
    · rw [hut, upd_self] at hu
      exact absurd hu (hk ch)
    · rw [upd_ne _ _ hut] at hu
      exact h.inHand u ch hu
  handed := by
    intro hno
    rw [htaken, hret]
    refine h.handed fun u ch hu => ?_
    by_cases hut : u = t
    · rw [hut] at hu
      exact ht ch hu
    · refine hno u ch ?_
      rw [hs, upd_ne _ _ hut]
      exact hu
  sound := hab.trans h.sound

/-! ## Every step keeps it -/

theorem inv_acquire (h : Inv bytes s) (hpc : s.pc t = .acquire) (hs : s.acquire t = some s') :
    Inv bytes s' := by
  unfold acquire at hs
  split at hs
  · exact absurd hs (by simp)
  dsimp only at hs
  by_cases hv : s.lock.value = 0
  · rw [Semaphore.P_zero t hv, if_neg (by simp)] at hs
    obtain rfl := Option.some.inj hs
    exact ⟨h.lock, h.stage.congr rfl (fun _ => Iff.rfl) rfl rfl rfl rfl, h.inHand,
      h.handed, h.sound⟩
  · rw [Semaphore.P_pos t hv, if_pos rfl] at hs
    obtain rfl := Option.some.inj hs
    have h1 : s.lock.value = 1 := by
      rcases h.lock with ⟨h1, _⟩ | ⟨h0, _⟩
      · exact h1
      · exact absurd h0 hv
    refine h.move (t := t) (k := .wait) rfl ?_ ?_ rfl rfl rfl (by simp [hpc]) (by simp)
    · show Exclusive (toInt32 (s.lock.value - 1)) _
      rw [toInt32_small (by omega) (by omega)]
      exact h.lock.upd_enter hv rfl
    · exact h.stage.congr rfl (get_upd (by simp [hpc]) (by simp)) rfl rfl rfl rfl

/-- A unit on `waitFor` is for one character, or for the end of the file. -/
theorem Stage.announced (h : Stage bytes s) (hv : s.waitFor.value ≠ 0) :
    s.waitFor.value = 1 ∧ ∀ u, s.pc u ≠ .get := by
  have hann : s.Announced → s.waitFor.value = 1 ∧ ∀ u, s.pc u ≠ .get := fun ha =>
    ha.resolve_right fun hr => hv hr.1
  cases h with
  | polling hq _ _ _ => exact absurd hq.1 hv
  | ready c hq _ _ _ _ => exact hann hq
  | ended hq _ _ _ _ => exact hann hq
  | closed hq _ _ _ => exact absurd hq.1 hv

theorem inv_wait (h : Inv bytes s) (hpc : s.pc t = .wait) (hs : s.wait t = some s') :
    Inv bytes s' := by
  unfold wait at hs
  split at hs
  · exact absurd hs (by simp)
  dsimp only at hs
  by_cases hv : s.waitFor.value = 0
  · rw [Semaphore.P_zero t hv, if_neg (by simp)] at hs
    obtain rfl := Option.some.inj hs
    exact ⟨h.lock, h.stage.congr rfl (fun _ => Iff.rfl) rfl rfl rfl rfl, h.inHand,
      h.handed, h.sound⟩
  · rw [Semaphore.P_pos t hv, if_pos rfl] at hs
    obtain rfl := Option.some.inj hs
    obtain ⟨h1, hno⟩ := h.stage.announced hv
    refine h.move (t := t) (k := .get) rfl (h.lock.upd_same (by rw [hpc]; rfl)) ?_ rfl rfl rfl
      (by simp [hpc]) (by simp)
    -- the unit is gone, and the thread is about to take what it stood for
    have hann : Announced { s with
        waitFor := { s.waitFor with value := toInt32 (s.waitFor.value - 1) }
        pc := upd s.pc t .get } := by
      refine .inr ⟨?_, t, upd_self _ _ _⟩
      show toInt32 (s.waitFor.value - 1) = 0
      rw [h1]
      rfl
    cases h.stage with
    | polling hq _ _ _ => exact absurd hq.1 hv
    | ready c _ hp hi hb he => exact .ready c hann hp hi hb he
    | ended _ hp hi hu hb => exact .ended hann hp hi hu hb
    | closed hq _ _ _ => exact absurd hq.1 hv

/-- While a thread holds the lock, no other one does. -/
theorem Inv.alone (h : Inv bytes s) (ht : (s.pc t).holds = true) {u : Nat}
    (hu : (s.pc u).holds = true) : u = t :=
  h.lock.unique hu ht

/-- **The character in the device is the next one of the file**, and if it is not the last there
will be another poll. -/
theorem stage_getChar (h : Inv bytes s) (hpc : s.pc t = .get) : Stage bytes (s.getChar t) := by
  have hnone : ∀ u, upd s.pc t (.release s.incoming) u ≠ .get := by
    intro u hu
    by_cases hut : u = t
    · rw [hut, upd_self] at hu
      cases hu
    · rw [upd_ne _ _ hut] at hu
      exact hut (h.alone (by rw [hpc]; rfl) (by rw [hu]; rfl))
  have hsilent : s.Announced → (s.getChar t).Silent := by
    rintro (⟨_, hno⟩ | ⟨hv, _⟩)
    · exact absurd hpc (hno t)
    · exact ⟨hv, hnone⟩
  cases h.stage with
  | polling hq _ _ _ => exact absurd hpc (hq.2 t)
  | closed hq _ _ _ => exact absurd hpc (hq.2 t)
  | ready c hq hp hi hb he =>
      have hb' : bytes = s.taken ++ [s.incoming] ++ s.unread := by
        rw [hi, hb, List.append_assoc]
        rfl
      by_cases hc : c = eofChar
      · -- it is the last one, so that no poll is needed
        have hu := he hc
        refine .closed (hsilent hq) ?_ hu (.inl ?_)
        · show (if s.incoming ≠ eofChar then s.pending + 1 else s.pending) = 0
          rw [if_neg (by rw [hi]; exact not_not.mpr hc)]
          exact hp
        · show s.taken ++ [s.incoming] = bytes
          rw [hb', hu, List.append_nil]
      · refine .polling (hsilent hq) ?_ rfl hb'
        show (if s.incoming ≠ eofChar then s.pending + 1 else s.pending) = 1
        rw [if_pos (by rw [hi]; exact hc), hp]
  | ended hq hp hi hu hb =>
      refine .closed (hsilent hq) ?_ hu (.inr ?_)
      · show (if s.incoming ≠ eofChar then s.pending + 1 else s.pending) = 0
        rw [if_neg (not_not.mpr hi)]
        exact hp
      · show s.taken ++ [s.incoming] = bytes ++ [eofChar]
        rw [hi, hb]

theorem inv_getChar (h : Inv bytes s) (hpc : s.pc t = .get) : Inv bytes (s.getChar t) := by
  have hfree : ∀ u ch, s.pc u ≠ .release ch := by
    intro u ch hu
    have hut := h.alone (t := t) (by rw [hpc]; rfl) (show (s.pc u).holds = true by rw [hu]; rfl)
    rw [hut, hpc] at hu
    cases hu
  refine ⟨h.lock.upd_same (by rw [hpc]; rfl), stage_getChar h hpc, ?_, ?_, h.sound⟩
  · intro u ch hu
    have hu' : upd s.pc t (.release s.incoming) u = .release ch := hu
    show s.taken ++ [s.incoming] = s.returned ++ [ch]
    by_cases hut : u = t
    · rw [hut, upd_self] at hu'
      cases hu'
      rw [h.handed hfree]
    · rw [upd_ne _ _ hut] at hu'
      exact absurd hu' (hfree u ch)
  · intro hno
    exact absurd (upd_self s.pc t (.release s.incoming)) (hno t s.incoming)

theorem inv_release (h : Inv bytes s) (hpc : s.pc t = .release ch) :
    Inv bytes (s.release t ch) := by
  have hholds : (s.pc t).holds = true := by rw [hpc]; rfl
  obtain ⟨h0, hleft⟩ :=
    Exclusive.upd_leave (i := t) (k := GetCharPC.out) (c := GetCharPC.holds) h.lock hholds rfl
  have hnone : ∀ u ch', upd s.pc t .out u ≠ .release ch' := by
    intro u ch' hu
    by_cases hut : u = t
    · rw [hut, upd_self] at hu
      cases hu
    · rw [upd_ne _ _ hut] at hu
      exact hut (h.lock.unique (by rw [hu]; rfl) hholds)
  refine ⟨?_, h.stage.congr rfl (get_upd (by simp [hpc]) (by simp)) rfl rfl rfl rfl, ?_,
    ?_, h.sound⟩
  · show Exclusive (toInt32 (s.lock.value + 1)) _
    rw [toInt32_small (by omega) (by omega)]
    exact hleft
  · intro u ch' hu
    exact absurd hu (hnone u ch')
  · intro _
    exact h.inHand t ch hpc

/-- **A poll is due only when the device is empty.** What it finds is the next byte of the file.
Byte 255 must be the last one. -/
theorem inv_callBack (hbytes : eofChar ∉ bytes.dropLast) (h : Inv bytes s) (hp : 0 < s.pending)
    (ready : Bool) : Inv bytes (s.callBack ready) := by
  obtain ⟨hq, hp1, hi, hb⟩ : s.Silent ∧ s.pending = 1 ∧ s.incoming = eofChar ∧
      bytes = s.taken ++ s.unread := by
    cases h.stage with
    | polling hq hp hi hb => exact ⟨hq, hp, hi, hb⟩
    | ready _ _ hp' _ _ _ => omega
    | ended _ hp' _ _ _ => omega
    | closed _ hp' _ _ => omega
  have hv : toInt32 (s.waitFor.value + 1) = 1 := by
    rw [hq.1]
    rfl
  unfold callBack
  rw [if_neg (not_not.mpr hi)]
  split
  · refine ⟨h.lock, .polling hq ?_ hi hb, h.inHand, h.handed, h.sound⟩
    show s.pending - 1 + 1 = 1
    omega
  · split
    · rename_i hu
      refine ⟨h.lock, .ended (.inl ⟨hv, hq.2⟩) ?_ hi hu ?_, h.inHand, h.handed, h.sound⟩
      · show s.pending - 1 = 0
        omega
      · rw [hb, hu, List.append_nil]
    · rename_i c unread hu
      rw [hu] at hb
      refine ⟨h.lock, .ready c (.inl ⟨hv, hq.2⟩) ?_ rfl hb ?_, h.inHand, h.handed, h.sound⟩
      · show s.pending - 1 = 0
        omega
      · intro hc
        by_contra hne
        refine hbytes ?_
        rw [hb, List.dropLast_append_of_ne_nil (List.cons_ne_nil _ _),
          List.dropLast_cons_of_ne_nil hne]
        exact List.mem_append_right _ (by rw [hc]; exact List.mem_cons_self)

theorem inv_step (hbytes : eofChar ∉ bytes.dropLast) {e : InputEvent} (h : Inv bytes s)
    (hs : s.step e = some s') : Inv bytes s' := by
  unfold step at hs
  split at hs
  · exact absurd hs (by simp)
  cases e with
  | call t =>
      dsimp only at hs
      split at hs
      · rename_i hpc
        obtain rfl := Option.some.inj hs
        exact h.move (t := t) (k := .acquire) rfl (h.lock.upd_same (by rw [hpc]; rfl))
          (h.stage.congr rfl (get_upd (by simp [hpc]) (by simp)) rfl rfl rfl rfl) rfl rfl rfl
          (by simp [hpc]) (by simp)
      · exact absurd hs (by simp)
  | go t =>
      simp only [go] at hs
      cases hpc : s.pc t with
      | out => simp [hpc] at hs
      | acquire =>
          simp only [hpc] at hs
          exact inv_acquire h hpc hs
      | wait =>
          simp only [hpc] at hs
          exact inv_wait h hpc hs
      | get =>
          simp only [hpc] at hs
          obtain rfl := Option.some.inj hs
          exact inv_getChar h hpc
      | release ch =>
          simp only [hpc] at hs
          obtain rfl := Option.some.inj hs
          exact inv_release h hpc
  | poll ready =>
      dsimp only at hs
      split at hs
      · rename_i hp
        obtain rfl := Option.some.inj hs
        exact inv_callBack hbytes h hp ready
      · exact absurd hs (by simp)

theorem inv_reachable (hbytes : eofChar ∉ bytes.dropLast) (h : (sys bytes).Reachable s) :
    Inv bytes s := by
  refine h.invariant ?_ ?_
  · intro s hs
    rw [hs]
    exact inv_new bytes
  · intro s e s' _ hi _ hs
    exact inv_step hbytes hi hs

/-! ## What it gives the readers -/

theorem Inv.taken_prefix (h : Inv bytes s) : s.taken <+: bytes ++ [eofChar] := by
  cases h.stage with
  | polling _ _ _ hb => exact ⟨s.unread ++ [eofChar], by rw [← List.append_assoc, ← hb]⟩
  | ready c _ _ _ hb _ => exact ⟨c :: s.unread ++ [eofChar], by rw [← List.append_assoc, ← hb]⟩
  | ended _ _ _ _ hb => exact ⟨[eofChar], by rw [← hb]⟩
  | closed _ _ _ hb =>
      rcases hb with hb | hb
      · exact ⟨[eofChar], by rw [hb]⟩
      · exact ⟨[], by rw [hb, List.append_nil]⟩

theorem Inv.returned_prefix (h : Inv bytes s) : s.returned <+: s.taken := by
  by_cases hno : ∀ t ch, s.pc t ≠ .release ch
  · exact ⟨[], by rw [h.handed hno, List.append_nil]⟩
  · simp only [not_forall, not_not] at hno
    obtain ⟨t, ch, hpc⟩ := hno
    exact ⟨[ch], (h.inHand t ch hpc).symm⟩

theorem Inv.complete (h : Inv bytes s) : s.Complete bytes where
  inOrder := h.returned_prefix.trans h.taken_prefix
  alive := by
    intro hu hw
    have hann : s.Announced → s.Waiting := by
      rintro (⟨hv, _⟩ | ⟨_, ht⟩)
      · exact .inl (by omega)
      · exact .inr ht
    cases h.stage with
    | polling _ hp _ _ => omega
    | ready _ hq _ _ _ _ => exact absurd (hann hq) hw
    | ended _ _ _ hu' _ => exact absurd hu' hu
    | closed _ _ hu' _ => exact absurd hu' hu

/-! ## What a byte 255 does -/

/-- Nobody is reading, `taken` has been read, and the rest of the file is to come. -/
def resting (unread taken : List UInt8) : ConsoleInput :=
  { new unread with taken := taken, returned := taken }

/-- The device polls, and thread 0 takes what there is. -/
def readOne : List InputEvent := [.poll true, .call 0, .go 0, .go 0, .go 0, .go 0]

theorem upd_upd (f : Nat → GetCharPC) (t : Nat) (p k : GetCharPC) :
    upd (upd f t p) t k = upd f t k := by
  funext u
  by_cases hu : u = t
  · rw [hu, upd_self, upd_self]
  · rw [upd_ne _ _ hu, upd_ne _ _ hu, upd_ne _ _ hu]

/-- What is there is taken. The next poll is scheduled unless it looks like nothing. -/
theorem run_readOne (c : UInt8) (unread taken : List UInt8) :
    (sys bytes).run (resting (c :: unread) taken) readOne =
      some { resting unread (taken ++ [c]) with pending := if c ≠ eofChar then 1 else 0 } := by
  have hout : upd (fun _ => GetCharPC.out) 0 GetCharPC.out = fun _ => GetCharPC.out :=
    Base.upd_eq_self (fun _ => GetCharPC.out) 0
  simp [Base.System.run, Base.System.runBy, readOne, sys, step, resting, new, callBack, go, acquire,
    wait, getChar, release, Semaphore.new, Semaphore.P, Semaphore.V, upd_upd, hout, toInt32]

/-- Bytes other than 255 are read one after the other. -/
theorem reachable_resting : ∀ (first unread taken : List UInt8), eofChar ∉ first →
    (sys bytes).Reachable (resting (first ++ unread) taken) →
    (sys bytes).Reachable (resting unread (taken ++ first)) := by
  intro first
  induction first with
  | nil =>
      intro unread taken _ h
      rw [List.append_nil]
      exact h
  | cons c first ih =>
      intro unread taken hne h
      have hc : c ≠ eofChar := fun he => hne (by rw [he]; exact List.mem_cons_self)
      have hrun : (sys bytes).run (resting (c :: (first ++ unread)) taken) readOne =
          some (resting (first ++ unread) (taken ++ [c])) := by
        rw [run_readOne, if_pos hc]
        rfl
      have hnext := ih unread (taken ++ [c]) (fun hm => hne (List.mem_cons_of_mem _ hm))
        (Base.System.ReachBy.runBy readOne h hrun)
      rw [List.append_assoc] at hnext
      exact hnext

/-- The same, but no poll is scheduled. -/
def dead (unread taken : List UInt8) : ConsoleInput := { resting unread taken with pending := 0 }

theorem not_complete_dead {unread : List UInt8} (taken : List UInt8) (h : unread ≠ []) :
    ¬ (dead unread taken).Complete bytes := by
  intro hc
  have hpoll := hc.alive h (by
    rintro (hv | ⟨t, ht⟩)
    · exact absurd hv (Int.lt_irrefl 0)
    · cases ht)
  exact absurd hpoll (Nat.lt_irrefl 0)

/-- **A byte 255 stops the keyboard.** -/
theorem reachable_dead (first rest : List UInt8) (hfirst : eofChar ∉ first) :
    (sys (first ++ eofChar :: rest)).Reachable (dead rest (first ++ [eofChar])) := by
  have hstart :
      (sys (first ++ eofChar :: rest)).Reachable (resting (eofChar :: rest) ([] ++ first)) :=
    reachable_resting first (eofChar :: rest) [] hfirst (.init rfl)
  have hrun : (sys (first ++ eofChar :: rest)).run (resting (eofChar :: rest) first) readOne =
      some (dead rest (first ++ [eofChar])) := by
    rw [run_readOne, if_neg (not_not.mpr rfl)]
    rfl
  exact Base.System.ReachBy.runBy readOne hstart hrun

theorem split_dropLast {c : UInt8} (h : c ∈ bytes.dropLast) :
    ∃ first rest, bytes = first ++ c :: rest ∧ c ∉ first ∧ rest ≠ [] := by
  obtain ⟨first, rest, he, hfirst⟩ := List.eq_append_cons_of_mem h
  have hne : bytes ≠ [] := fun hn => by
    rw [hn] at h
    exact absurd h (by simp)
  refine ⟨first, rest ++ [bytes.getLast hne], ?_, hfirst, by simp⟩
  have hlast := List.dropLast_concat_getLast hne
  rw [he] at hlast
  rw [← List.cons_append, ← List.append_assoc]
  exact hlast.symm

/--
**Which inputs are delivered.**

For every contents of the input file: in all states that readers and polls can reach, calls have
returned the bytes in order and the input has not gone dead, if and only if byte 255 does not occur
in the file before its last byte.
-/
theorem input_complete_iff (bytes : List UInt8) :
    (∀ s, (sys bytes).Reachable s → s.Complete bytes) ↔ eofChar ∉ bytes.dropLast := by
  constructor
  · intro h hmem
    obtain ⟨first, rest, rfl, hfirst, hrest⟩ := split_dropLast hmem
    exact not_complete_dead _ hrest (h _ (reachable_dead first rest hfirst))
  · intro h s hs
    exact (inv_reachable h hs).complete

/-- Behind a byte 255, the letter A is never read. -/
theorem input_dead : ¬ ∀ (bytes : List UInt8) (s : ConsoleInput), (sys bytes).Reachable s →
    s.Complete bytes := by
  intro h
  exact not_complete_dead [255] (List.cons_ne_nil 65 [])
    (h [255, 65] _ (reachable_dead [] [65] List.not_mem_nil))

end ConsoleInput

end Nachos
