import Nachos.Proof.Likeness
import Nachos.Proof.Frames
import Nachos.Proof.Residue

/-!
# A user program cannot tell that there are others

The machine is handed from program to program, and main memory is shared all the time. What keeps
the programs apart is that each has frames of its own, that an act of a program stays within them,
and that a context switch brings the registers and the page table back as they were.

So a program goes through the very states that it would go through on a machine of its own, where
nothing happens but its own acts: with the same bytes behind its addresses, whichever frames they
are in, and with the same news for the kernel. One thing may still break in: a program that
is loaded outside the frames that it has been given.
-/

namespace Nachos

open Base (upd upd_self upd_ne)
open Machine (Alike Within SameMap Linear Owns)

/-! ## The machine as a program finds it -/

/-- The machine that would be restored. -/
def UserThread.onMachine (p : UserThread) (mem : Memory) : Machine where
  registers := p.userRegisters
  mainMemory := mem
  pageTable := p.pageTable
  pageTableSize := p.numPages

/-- Nothing has changed that the program could see. -/
structure Machine.Undisturbed (m m' : Machine) : Prop where
  registers : ∀ n, n < numTotalRegs → m'.registers n = m.registers n
  map : SameMap m m'
  memory : ∀ q : Nat, m.Owns (q / pageSize : Nat) → m'.mainMemory q = m.mainMemory q

theorem Machine.Undisturbed.refl (m : Machine) : m.Undisturbed m :=
  ⟨fun _ _ => rfl, .refl m, fun _ _ => rfl⟩

open Machine (Undisturbed)

namespace Multiprogram

variable {ι : Type} [DecidableEq ι]

/-- Program `i`, whose thread is `p`, has the machine or will find this one. -/
def seenBy (s : Multiprogram ι) (i : ι) (p : UserThread) : Machine :=
  if s.current = some i then s.machine else p.onMachine s.machine.mainMemory

/-- **The programs have frames of their own.** -/
structure Apart (s : Multiprogram ι) : Prop where
  numBits : s.bitmap.numBits = numPhysPages
  /-- The program that has the machine has its page table there. -/
  present :
    ∀ i, s.current = some i → ∃ p, s.thread i = some p ∧ s.machine.pageTableSize = p.numPages
  linear : ∀ i p, s.thread i = some p → (s.seenBy i p).Linear
  frames : ∀ i p f, s.thread i = some p → (s.seenBy i p).Owns f → 0 ≤ f ∧ f < numPhysPages
  /-- Their frames are taken. -/
  taken : ∀ i p (f : Nat), s.thread i = some p → (s.seenBy i p).Owns f → s.bitmap.test f = true
  apart : ∀ i j p q f, s.thread i = some p → s.thread j = some q → (s.seenBy i p).Owns f →
    (s.seenBy j q).Owns f → i = j

/-- The thread is there, and the kernel has heard the same from it as from a program alone on a
machine that looks the same. -/
def Sees (s : Multiprogram ι) (i : ι) (t : Alone) : Prop :=
  ∃ p, s.thread i = some p ∧ p.handling = t.handling ∧ p.heard = t.heard ∧
    Alike (s.seenBy i p) t.machine

/-- A program is loaded into the frames that it has been given. For the first one, `Load` must not
make the address space larger than its page table. -/
def Fits (s : Multiprogram ι) : Turn ι → Prop
  | .start _ file stack => (noffHeader file stack).LandsInside file s.bitmap
  | .boot _ file stack =>
      (noffHeader file stack).loadNumPages ≤ (noffHeader file stack).pagesGranted s.bitmap
  | _ => True

section Views

variable {s s' : Multiprogram ι} {i j : ι} {p : UserThread}

theorem seenBy_current (h : s.current = some i) : s.seenBy i p = s.machine := if_pos h

theorem seenBy_other (h : s.current ≠ some i) : s.seenBy i p = p.onMachine s.machine.mainMemory :=
  if_neg h

/-- The frames of two programs in one state. -/
theorem Apart.not_owned (h : Apart s) {q : UserThread} (hi : s.thread i = some p)
    (hj : s.thread j = some q) (hij : i ≠ j) {f : Int} (hf : (s.seenBy i p).Owns f) :
    ¬ (s.seenBy j q).Owns f := fun hf' => hij (h.apart i j p q f hi hj hf hf')

/-- Steps that hand out no frames. -/
theorem Apart.keep (h : Apart s) (hbits : s'.bitmap.numBits = s.bitmap.numBits)
    (hpresent : ∀ i, s'.current = some i →
      ∃ p, s'.thread i = some p ∧ s'.machine.pageTableSize = p.numPages)
    (hmap : ∀ i p', s'.thread i = some p' →
      ∃ p, s.thread i = some p ∧ SameMap (s.seenBy i p) (s'.seenBy i p'))
    (htest : ∀ i p' (f : Nat), s'.thread i = some p' → (s'.seenBy i p').Owns f →
      s.bitmap.test f = true → s'.bitmap.test f = true) : Apart s' where
  numBits := hbits.trans h.numBits
  present := hpresent
  linear := fun i p' hp' => by
    obtain ⟨p, hp, hm⟩ := hmap i p' hp'
    exact (h.linear i p hp).congr hm
  frames := fun i p' f hp' hf => by
    obtain ⟨p, hp, hm⟩ := hmap i p' hp'
    exact h.frames i p f hp ((hm.owns f).mp hf)
  taken := fun i p' f hp' hf => by
    obtain ⟨p, hp, hm⟩ := hmap i p' hp'
    exact htest i p' f hp' hf (h.taken i p f hp ((hm.owns f).mp hf))
  apart := fun i j p' q' f hp' hq' hf hf' => by
    obtain ⟨p, hp, hm⟩ := hmap i p' hp'
    obtain ⟨q, hq, hm'⟩ := hmap j q' hq'
    exact h.apart i j p q f hp hq ((hm.owns f).mp hf) ((hm'.owns f).mp hf')

/-- The memory of a program that does not run. -/
theorem undisturbed_onMachine {mem mem' : Memory}
    (h : ∀ q : Nat, (p.onMachine mem).Owns (q / pageSize : Nat) → mem' q = mem q) :
    Undisturbed (p.onMachine mem) (p.onMachine mem') :=
  ⟨fun _ _ => rfl, ⟨rfl, fun _ => rfl, fun _ => rfl, fun _ => rfl⟩, h⟩

end Views

/-! ## What each step does to the views -/

/-- What a step leaves of program `i`. -/
def Keeps (s s' : Multiprogram ι) (i : ι) (p : UserThread) : Prop :=
  ∃ p', s'.thread i = some p' ∧ p'.handling = p.handling ∧ p'.heard = p.heard ∧
    Undisturbed (s.seenBy i p) (s'.seenBy i p')

/-- The step that a label makes, for each label. -/
inductive Moves (s : Multiprogram ι) : Turn ι → Multiprogram ι → Prop where
  | act {i : ι} {a : UserAct} {p : UserThread} {m' : Machine} {handling' : Option ExceptionType}
      {told : Told} : s.current = some i → s.thread i = some p →
      s.machine.act p.handling a = some (m', handling', told) →
      Moves s (.act i a) { s with
        machine := m'
        thread := upd s.thread i (some { p with handling := handling', heard := told :: p.heard }) }
  | leave {i : ι} {p : UserThread} : s.current = some i → s.thread i = some p →
      Moves s (.leave i) { s with
        current := none, thread := upd s.thread i (some (p.saveUserState s.machine)) }
  | enter {i : ι} {p : UserThread} : s.current = none → s.thread i = some p →
      Moves s (.enter i) { s with
        current := some i, machine := p.restoreState (p.restoreUserState s.machine) }
  | start {i : ι} {file : HostFile} {stack : Nat → UInt8} {r : Built} : s.current = none →
      s.thread i = none →
      AddrSpace.construct file stack s.bitmap s.machine.mainMemory = some r →
      Moves s (.start i file stack) (s.execute i r)
  | boot {i : ι} {file : HostFile} {stack : Nat → UInt8} {r r' : Built} : s.current = none →
      s.thread i = none → s.bitmap.numClear = numPhysPages →
      AddrSpace.construct file stack s.bitmap s.machine.mainMemory = some r →
      AddrSpace.loadProgram file stack r = some r' →
      Moves s (.boot i file stack) (s.execute i r')
  | exit {i : ι} {p : UserThread} : s.current = some i → s.thread i = some p →
      Moves s (.exit i) (s.deleteSpace i p)
  | idle {m' : Machine} : s.current = none → s.machine.afterInterrupt = some m' →
      Moves s .idle { s with machine := m' }

theorem step_moves {s s' : Multiprogram ι} {l : Turn ι} (h : s.step l = some s') :
    Moves s l s' := by
  cases l with
  | act i a =>
      obtain ⟨hcur, h⟩ := Option.ite_none_right_eq_some.mp h
      obtain ⟨p, hp, h⟩ := Option.bind_eq_some_iff.mp h
      obtain ⟨⟨m', handling', told⟩, hact, rfl⟩ := Option.map_eq_some_iff.mp h
      exact .act hcur hp hact
  | leave i =>
      obtain ⟨hcur, h⟩ := Option.ite_none_right_eq_some.mp h
      obtain ⟨p, hp, rfl⟩ := Option.map_eq_some_iff.mp h
      exact .leave hcur hp
  | enter i =>
      obtain ⟨hcur, h⟩ := Option.ite_none_right_eq_some.mp h
      obtain ⟨p, hp, rfl⟩ := Option.map_eq_some_iff.mp h
      exact .enter hcur hp
  | start i file stack =>
      obtain ⟨⟨hcur, hnone⟩, h⟩ := Option.ite_none_right_eq_some.mp h
      obtain ⟨r, hr, rfl⟩ := Option.map_eq_some_iff.mp h
      exact .start hcur (Option.isNone_iff_eq_none.mp hnone) hr
  | boot i file stack =>
      obtain ⟨⟨hcur, hnone, hclear⟩, h⟩ := Option.ite_none_right_eq_some.mp h
      obtain ⟨r', hr', rfl⟩ := Option.map_eq_some_iff.mp h
      obtain ⟨r, hr, hload⟩ := Option.bind_eq_some_iff.mp hr'
      exact .boot hcur (Option.isNone_iff_eq_none.mp hnone) hclear hr hload
  | exit i =>
      obtain ⟨hcur, h⟩ := Option.ite_none_right_eq_some.mp h
      obtain ⟨p, hp, rfl⟩ := Option.map_eq_some_iff.mp h
      exact .exit hcur hp
  | idle =>
      obtain ⟨hcur, h⟩ := Option.ite_none_right_eq_some.mp h
      obtain ⟨m', hm', rfl⟩ := Option.map_eq_some_iff.mp h
      exact .idle hcur hm'

/-! ## Loading a program -/

/-- What the constructor, with or without `Load`, has done about frames. -/
structure Loaded (h : NoffHeader) (b : Bitmap) (r : Built) : Prop where
  bitmap : r.bitmap = (h.alloc b).2
  pageTable : r.pageTable = (h.alloc b).1
  numPages : r.numPages ≤ h.pagesGranted b

section Loading

variable {h : NoffHeader} {b : Bitmap} {r r' : Built} {file : HostFile} {stack : Nat → UInt8}
  {mem : Memory}

theorem construct_load (hr : AddrSpace.construct file stack b mem = some r) :
    AddrSpace.load (noffHeader file stack) file b mem = some r :=
  (Option.ite_none_left_eq_some.mp hr).2

theorem loaded_built (h : NoffHeader) (b : Bitmap) (mem : Memory) : Loaded h b (h.built b mem) :=
  ⟨rfl, rfl, Nat.le_of_eq (numPages_built h b mem)⟩

theorem load_loaded (hr : AddrSpace.load h file b mem = some r) : Loaded h b r := by
  obtain ⟨mem', rfl⟩ := built_of_load hr
  exact loaded_built h b mem'

theorem construct_loaded (hr : AddrSpace.construct file stack b mem = some r) :
    Loaded (noffHeader file stack) b r := load_loaded (construct_load hr)

theorem loadProgram_loaded (hl : Loaded (noffHeader file stack) b r)
    (hr : AddrSpace.loadProgram file stack r = some r')
    (hfits : (noffHeader file stack).loadNumPages ≤ (noffHeader file stack).pagesGranted b) :
    Loaded (noffHeader file stack) b r' := by
  unfold AddrSpace.loadProgram AddrSpace.loadHeader at hr
  obtain ⟨_, hr⟩ := Option.ite_none_left_eq_some.mp hr
  obtain ⟨_, hr⟩ := Option.ite_none_right_eq_some.mp hr
  obtain ⟨_, _, hr⟩ := Option.bind_eq_some_iff.mp hr
  obtain ⟨_, _, hr⟩ := Option.bind_eq_some_iff.mp hr
  obtain ⟨_, _, rfl⟩ := Option.map_eq_some_iff.mp hr
  exact ⟨hl.bitmap, hl.pageTable, hfits⟩

/-- An entry of the new page table. -/
theorem Loaded.entry (hl : Loaded h b r) (m : Machine) {v : Nat} (hv : v < r.numPages) :
    ∃ f : Nat, (h.frames b)[v]? = some (f : Int) ∧ f < b.numBits ∧ b.test f = false ∧
      ((r.restoreState m).pageTable v).valid = true ∧
      ((r.restoreState m).pageTable v).physicalPage = f := by
  have hlt : v < (h.alloc b).1.length := by
    rw [alloc_length]
    exact Nat.lt_of_lt_of_le hv hl.numPages
  obtain ⟨e, he⟩ : ∃ e, (h.alloc b).1[v]? = some e := ⟨_, List.getElem?_eq_getElem hlt⟩
  have hframe : (h.frames b)[v]? = some e.physicalPage := by
    rw [← alloc_frames, List.getElem?_map, he]
    rfl
  obtain ⟨f, hf, hbits, hclear⟩ := mem_frames (List.mem_of_getElem? hframe)
  have hentry : (r.restoreState m).pageTable v = e := by
    show (r.pageTable[v]?).getD _ = e
    rw [hl.pageTable, he]
    rfl
  refine ⟨f, by rw [hframe, hf], hbits, hclear, ?_, by rw [hentry, hf]⟩
  rw [hentry]
  exact allocPages_valid _ 0 b e (List.mem_of_getElem? he)

theorem Loaded.linear (hl : Loaded h b r) (hb : b.numBits = numPhysPages) (m : Machine) :
    (r.restoreState m).Linear where
  inside := fun v hv _ => by
    obtain ⟨f, _, hbits, _, _, hf⟩ := hl.entry m hv
    rw [hf, ← hb]
    exact ⟨Int.natCast_nonneg f, Int.ofNat_lt.mpr hbits⟩
  distinct := fun v v' hv hv' _ _ he => by
    obtain ⟨f, hget, _, _, _, hf⟩ := hl.entry m hv
    obtain ⟨f', hget', _, _, _, hf'⟩ := hl.entry m hv'
    rw [hf, hf'] at he
    rw [← he] at hget'
    have hlt := (List.getElem?_eq_some_iff.mp hget).1
    exact (List.getElem?_inj hlt (frames_nodup h b)).mp (hget.trans hget'.symm)

/-- The frames of the new program were free, and are taken now. -/
theorem Loaded.owns (hl : Loaded h b r) (m : Machine) {f : Int} (hf : (r.restoreState m).Owns f) :
    ∃ n : Nat, f = n ∧ n < b.numBits ∧ b.test n = false ∧ (h.alloc b).2.test n = true := by
  obtain ⟨v, hv, rfl⟩ := hf
  obtain ⟨n, hget, hbits, hclear, _, he⟩ := hl.entry m hv
  exact ⟨n, he, hbits, hclear, (PState.alloc_test h b n).mpr (.inr (List.mem_of_getElem? hget))⟩

end Loading

/-! ## The others -/

section Steps

variable {s s' : Multiprogram ι} {i : ι} {p : UserThread}

/-- A frame that a program owns is one of those that are taken. -/
theorem Apart.owned_nat (h : Apart s) (hp : s.thread i = some p) {q : Nat}
    (hq : (s.seenBy i p).Owns (q / pageSize : Nat)) :
    q / pageSize < numPhysPages ∧ s.bitmap.test (q / pageSize) = true :=
  ⟨Int.ofNat_lt.mp (h.frames i p _ hp hq).2, h.taken i p _ hp hq⟩

/-- The program that acts stays within its frames. -/
theorem Apart.within (h : Apart s) {m' : Machine} {a : UserAct}
    {handling' : Option ExceptionType} {told : Told} (hcur : s.current = some i)
    (hp : s.thread i = some p) (hact : s.machine.act p.handling a = some (m', handling', told)) :
    Within s.machine m' := by
  have hlin := h.linear i p hp
  rw [seenBy_current hcur] at hlin
  obtain ⟨_, _, _, hw⟩ := (Alike.refl hlin).act hact
  exact hw

theorem afterInterrupt_memory {m m' : Machine} (h : m.afterInterrupt = some m') :
    m'.mainMemory = m.mainMemory := by
  unfold Machine.afterInterrupt Mips.delayedLoad at h
  split at h
  · rename_i heq
    split at heq
    · obtain ⟨_, rfl⟩ := heq
      obtain rfl := Option.some.inj h
      rfl
    · exact absurd heq (by simp)
  · exact absurd h (by simp)

/-- No frame is owned when all are free. -/
theorem Apart.none_owned (h : Apart s) (hclear : s.bitmap.numClear = numPhysPages)
    (hp : s.thread i = some p) (f : Int) : ¬ (s.seenBy i p).Owns f := by
  intro hf
  obtain ⟨h0, h1⟩ := h.frames i p f hp hf
  obtain ⟨n, rfl⟩ := Int.eq_ofNat_of_zero_le h0
  have htaken := h.taken i p n hp hf
  rw [Bitmap.numClear_eq, Bitmap.clearBits, h.numBits] at hclear
  have hall := List.length_filter_eq_length_iff.mp (hclear.trans List.length_range.symm) n
    (List.mem_range.mpr (Int.ofNat_lt.mp h1))
  rw [htaken] at hall
  exact absurd hall (by simp)

/-- **What the others do cannot be seen.** -/
theorem Moves.keeps {l : Turn ι} (hs : Apart s) (hfits : Fits s l) (hm : Moves s l s')
    (hp : s.thread i = some p) (hown : l.own i = none) (hexit : l ≠ .exit i) : Keeps s s' i p := by
  cases hm with
  | @act j a q m' handling' told hcur hq hact =>
      have hij : i ≠ j := fun he => by simp [Turn.own, he] at hown
      have hother : s.current ≠ some i := by
        rw [hcur]
        exact fun he => hij (Option.some.inj he).symm
      refine ⟨p, (upd_ne _ _ hij).trans hp, rfl, rfl, ?_⟩
      rw [seenBy_other hother, seenBy_other (s := { s with machine := m', thread := _ }) hother]
      refine undisturbed_onMachine fun k hk => (hs.within hcur hq hact).memory k fun hk' => ?_
      rw [← seenBy_other hother] at hk
      rw [← seenBy_current hcur (p := q)] at hk'
      exact hs.not_owned hp hq hij hk hk'
  | @leave j q hcur hq =>
      by_cases hij : i = j
      · -- it has been saved
        subst hij
        obtain rfl : q = p := Option.some.inj (hq.symm.trans hp)
        obtain ⟨q', hq', hsize⟩ := hs.present i hcur
        obtain rfl : q' = q := Option.some.inj (hq'.symm.trans hq)
        refine ⟨q'.saveUserState s.machine, upd_self _ _ _, rfl, rfl, ?_⟩
        rw [seenBy_current hcur, seenBy_other (by simp)]
        exact ⟨fun n hn => if_pos hn, ⟨hsize.symm, fun _ => rfl, fun _ => rfl, fun _ => rfl⟩,
          fun _ _ => rfl⟩
      · refine ⟨p, (upd_ne _ _ hij).trans hp, rfl, rfl, ?_⟩
        rw [seenBy_other (by rw [hcur]; exact fun he => hij (Option.some.inj he).symm),
          seenBy_other (by simp)]
        exact .refl _
  | @enter j q hcur hq =>
      refine ⟨p, hp, rfl, rfl, ?_⟩
      rw [seenBy_other (by rw [hcur]; simp)]
      by_cases hij : i = j
      · -- it is restored
        subst hij
        obtain rfl : q = p := Option.some.inj (hq.symm.trans hp)
        rw [seenBy_current rfl]
        exact ⟨fun n hn => if_pos hn, ⟨rfl, fun _ => rfl, fun _ => rfl, fun _ => rfl⟩,
          fun _ _ => rfl⟩
      · rw [seenBy_other fun he => hij (Option.some.inj he).symm]
        exact .refl _
  | @start j file stack r hcur hnone hr =>
      have hij : i ≠ j := fun he => by rw [he, hnone] at hp; exact absurd hp (by simp)
      have hother : s.current ≠ some i := by rw [hcur]; simp
      refine ⟨p, (upd_ne _ _ hij).trans hp, rfl, rfl, ?_⟩
      rw [seenBy_other hother, seenBy_other fun he => hij (Option.some.inj he).symm]
      refine undisturbed_onMachine fun k hk => ?_
      rw [← seenBy_other hother] at hk
      -- the loops of the constructor keep away from frames that are taken
      have hiso := (load_isolated_iff hs.numBits (noffHeader_inRange file stack)).mpr
        (fun _ => hfits) s.machine.mainMemory r (construct_load hr)
      have hsame := hiso.others [[k / pageSize]]
        (by simpa using hs.owned_nat hp hk) _ List.mem_cons_self _ List.mem_cons_self (k % pageSize)
        (Nat.mod_lt _ (by decide))
      rwa [Nat.div_add_mod'] at hsame
  | @boot j file stack r r' hcur hnone hclear hr hload =>
      have hij : i ≠ j := fun he => by rw [he, hnone] at hp; exact absurd hp (by simp)
      have hother : s.current ≠ some i := by rw [hcur]; simp
      refine ⟨p, (upd_ne _ _ hij).trans hp, rfl, rfl, ?_⟩
      rw [seenBy_other hother, seenBy_other fun he => hij (Option.some.inj he).symm]
      refine undisturbed_onMachine fun k hk => ?_
      rw [← seenBy_other hother] at hk
      exact absurd hk (hs.none_owned hclear hp _)
  | @exit j q hcur hq =>
      have hij : i ≠ j := fun he => hexit (by rw [he])
      refine ⟨p, (upd_ne _ _ hij).trans hp, rfl, rfl, ?_⟩
      rw [seenBy_other (by rw [hcur]; exact fun he => hij (Option.some.inj he).symm),
        seenBy_other (by simp [deleteSpace])]
      exact .refl _
  | @idle m' hcur hm' =>
      have hother : s.current ≠ some i := by rw [hcur]; simp
      refine ⟨p, hp, rfl, rfl, ?_⟩
      rw [seenBy_other hother, seenBy_other (s := { s with machine := m' }) hother]
      exact undisturbed_onMachine fun k _ => by rw [afterInterrupt_memory hm']

/-! ## The programs stay apart -/

/-- Steps after which the same programs are there, with the pages that they had. -/
theorem Apart.of_keeps (h : Apart s) (hbits : s'.bitmap = s.bitmap)
    (hpresent : ∀ i, s'.current = some i →
      ∃ p, s'.thread i = some p ∧ s'.machine.pageTableSize = p.numPages)
    (hback : ∀ i p', s'.thread i = some p' → ∃ p, s.thread i = some p)
    (hkeeps : ∀ i p, s.thread i = some p → Keeps s s' i p) : Apart s' := by
  refine h.keep (by rw [hbits]) hpresent (fun k p' hp' => ?_) fun _ _ f _ _ hf => by rwa [hbits]
  obtain ⟨p, hp⟩ := hback k p' hp'
  obtain ⟨q, hq, _, _, hu⟩ := hkeeps k p hp
  obtain rfl : q = p' := Option.some.inj (hq.symm.trans hp')
  exact ⟨p, hp, hu.map⟩

theorem apart_act (h : Apart s) {a : UserAct} {m' : Machine} {handling' : Option ExceptionType}
    {told : Told} (hcur : s.current = some i) (hp : s.thread i = some p)
    (hact : s.machine.act p.handling a = some (m', handling', told)) :
    Apart { s with
      machine := m'
      thread := upd s.thread i
        (some { p with handling := handling', heard := told :: p.heard }) } := by
  have hw := h.within hcur hp hact
  refine h.keep rfl (fun k hk => ?_) (fun k p' hp' => ?_) fun _ _ _ _ _ hf => hf
  · obtain rfl : i = k := Option.some.inj (hcur.symm.trans hk)
    obtain ⟨q, hq, hsize⟩ := h.present i hcur
    obtain rfl : q = p := Option.some.inj (hq.symm.trans hp)
    exact ⟨_, upd_self _ _ _, hw.map.size.trans hsize⟩
  · by_cases hki : k = i
    · subst hki
      refine ⟨p, hp, ?_⟩
      rw [seenBy_current hcur, seenBy_current (s := { s with machine := m', thread := _ }) hcur]
      exact hw.map
    · have hother : s.current ≠ some k := by
        rw [hcur]
        exact fun he => hki (Option.some.inj he).symm
      refine ⟨p', (upd_ne _ _ hki).symm.trans hp', ?_⟩
      rw [seenBy_other hother, seenBy_other (s := { s with machine := m', thread := _ }) hother]
      exact ⟨rfl, fun _ => rfl, fun _ => rfl, fun _ => rfl⟩

/-- A program is loaded into frames that nobody has. -/
theorem apart_execute (h : Apart s) {hd : NoffHeader} {r : Built} (hcur : s.current = none)
    (hl : Loaded hd s.bitmap r) : Apart (s.execute i r) := by
  have hcases : ∀ k p', (s.execute i r).thread k = some p' →
      (k = i ∧ (s.execute i r).seenBy k p' = r.restoreState (s.machine.initRegisters r.numPages)) ∨
      (k ≠ i ∧ s.thread k = some p' ∧ SameMap (s.seenBy k p') ((s.execute i r).seenBy k p')) := by
    intro k p' hp'
    by_cases hki : k = i
    · exact .inl ⟨hki, seenBy_current (by rw [hki]; rfl)⟩
    · refine .inr ⟨hki, (upd_ne _ _ hki).symm.trans hp', ?_⟩
      rw [seenBy_other (by rw [hcur]; simp), seenBy_other fun he => hki (Option.some.inj he).symm]
      exact ⟨rfl, fun _ => rfl, fun _ => rfl, fun _ => rfl⟩
  have htest : ∀ f, (s.execute i r).bitmap.test f = (hd.alloc s.bitmap).2.test f := fun f => by
    rw [← hl.bitmap]
    rfl
  -- an old program and the new one
  have hfresh : ∀ {k : ι} {p' : UserThread} {f : Int}, s.thread k = some p' →
      (s.seenBy k p').Owns f →
      ¬ (r.restoreState (s.machine.initRegisters r.numPages)).Owns f := by
    intro k p' f hp' hf hnew
    obtain ⟨n, rfl, _, hclear, _⟩ := hl.owns _ hnew
    rw [h.taken k p' n hp' hf] at hclear
    exact Bool.noConfusion hclear
  constructor
  case numBits =>
    show r.bitmap.numBits = numPhysPages
    rw [hl.bitmap, PState.alloc_numBits, h.numBits]
  case present =>
    intro k hk
    obtain rfl : i = k := Option.some.inj hk
    exact ⟨_, upd_self _ _ _, rfl⟩
  case linear =>
    intro k p' hp'
    rcases hcases k p' hp' with ⟨_, hnew⟩ | ⟨_, hold, hm⟩
    · rw [hnew]
      exact hl.linear h.numBits _
    · exact (h.linear k p' hold).congr hm
  case frames =>
    intro k p' f hp' hf
    rcases hcases k p' hp' with ⟨_, hnew⟩ | ⟨_, hold, hm⟩
    · rw [hnew] at hf
      obtain ⟨n, rfl, hn, _⟩ := hl.owns _ hf
      rw [h.numBits] at hn
      exact ⟨Int.natCast_nonneg n, Int.ofNat_lt.mpr hn⟩
    · exact h.frames k p' f hold ((hm.owns f).mp hf)
  case taken =>
    intro k p' f hp' hf
    rw [htest]
    rcases hcases k p' hp' with ⟨_, hnew⟩ | ⟨_, hold, hm⟩
    · rw [hnew] at hf
      obtain ⟨n, he, _, _, ht⟩ := hl.owns _ hf
      rwa [Int.ofNat.inj he]
    · exact (PState.alloc_test hd s.bitmap f).mpr (.inl (h.taken k p' f hold ((hm.owns f).mp hf)))
  case apart =>
    intro k k' p' q' f hp' hq' hf hf'
    rcases hcases k p' hp' with ⟨hk, hnew⟩ | ⟨_, hold, hm⟩
    · rcases hcases k' q' hq' with ⟨hk', _⟩ | ⟨_, hold', hm'⟩
      · rw [hk, hk']
      · rw [hnew] at hf
        exact absurd hf (hfresh hold' ((hm'.owns f).mp hf'))
    · rcases hcases k' q' hq' with ⟨_, hnew'⟩ | ⟨_, hold', hm'⟩
      · rw [hnew'] at hf'
        exact absurd hf' (hfresh hold ((hm.owns f).mp hf))
      · exact h.apart k k' p' q' f hold hold' ((hm.owns f).mp hf) ((hm'.owns f).mp hf')

/-- The destructor gives back what the program had, and nothing else. -/
theorem apart_deleteSpace (h : Apart s) (hcur : s.current = some i) (hp : s.thread i = some p) :
    Apart (s.deleteSpace i p) := by
  obtain ⟨q, hq, hsize⟩ := h.present i hcur
  obtain rfl : q = p := Option.some.inj (hq.symm.trans hp)
  have hentry : ∀ e ∈ (List.range q.numPages).map s.machine.pageTable,
      s.machine.Owns e.physicalPage := by
    intro e he
    obtain ⟨v, hv, rfl⟩ := List.mem_map.mp he
    exact ⟨v, hsize ▸ List.mem_range.mp hv, rfl⟩
  obtain ⟨hbits, htest⟩ := PState.clearFrames_spec ((List.range q.numPages).map s.machine.pageTable)
    s.bitmap fun e he => by
      rw [h.numBits]
      refine h.frames i q _ hp ?_
      rw [seenBy_current hcur]
      exact hentry e he
  have hback : ∀ k p', (s.deleteSpace i q).thread k = some p' → k ≠ i ∧ s.thread k = some p' := by
    intro k p' hp'
    have hki : k ≠ i := fun he => by
      rw [he] at hp'
      exact absurd ((upd_self _ _ _).symm.trans hp') (by simp)
    exact ⟨hki, (upd_ne _ _ hki).symm.trans hp'⟩
  have hview : ∀ k p', k ≠ i → (s.deleteSpace i q).seenBy k p' = s.seenBy k p' := by
    intro k p' hki
    rw [seenBy_other (by simp [deleteSpace]),
      seenBy_other (by rw [hcur]; exact fun he => hki (Option.some.inj he).symm)]
    rfl
  refine h.keep hbits (fun k hk => absurd hk (by simp [deleteSpace])) (fun k p' hp' => ?_) ?_
  · obtain ⟨hki, hold⟩ := hback k p' hp'
    exact ⟨p', hold, hview k p' hki ▸ .refl _⟩
  · intro k p' f hp' hf hset
    obtain ⟨hki, hold⟩ := hback k p' hp'
    rw [hview k p' hki] at hf
    refine (htest f).mpr ⟨hset, fun hmem => ?_⟩
    obtain ⟨e, he, hef⟩ := List.mem_map.mp hmem
    have howns := hentry e he
    rw [hef, ← seenBy_current hcur (p := q)] at howns
    exact h.not_owned hp hold (Ne.symm hki) howns hf

theorem apart_moves {l : Turn ι} (h : Apart s) (hfits : Fits s l) (hm : Moves s l s') :
    Apart s' := by
  have hkeeps := fun k q (hq : s.thread k = some q) => hm.keeps h hfits hq (i := k)
  cases hm with
  | act hcur hp hact => exact apart_act h hcur hp hact
  | @leave i p hcur hp =>
      refine h.of_keeps rfl (fun k hk => absurd hk (by simp)) (fun k p' hp' => ?_)
        fun k q hq => hkeeps k q hq rfl (by simp)
      by_cases hki : k = i
      · exact ⟨p, hki ▸ hp⟩
      · exact ⟨p', (upd_ne _ _ hki).symm.trans hp'⟩
  | @enter i p hcur hp =>
      refine h.of_keeps rfl (fun k hk => ?_) (fun k p' hp' => ⟨p', hp'⟩)
        fun k q hq => hkeeps k q hq rfl (by simp)
      obtain rfl : i = k := Option.some.inj hk
      exact ⟨p, hp, rfl⟩
  | start hcur _ hr => exact apart_execute h hcur (construct_loaded hr)
  | boot hcur _ _ hr hload =>
      exact apart_execute h hcur (loadProgram_loaded (construct_loaded hr) hload hfits)
  | exit hcur hp => exact apart_deleteSpace h hcur hp
  | idle hcur hm' =>
      refine h.of_keeps rfl (fun k hk => ?_) (fun k p' hp' => ⟨p', hp'⟩)
        fun k q hq => hkeeps k q hq rfl (by simp)
      exact absurd (hcur.symm.trans hk) (by simp)

end Steps

theorem apart_boot {s : Multiprogram ι} (h : Boot s) : Apart s := by
  obtain ⟨hb, hcur, hnone⟩ := h
  have hno : ∀ {i p}, ¬ s.thread i = some p := fun {i p} hp => by
    rw [hnone i] at hp
    exact absurd hp (by simp)
  refine ⟨by rw [hb]; rfl, fun i hi => absurd (hcur.symm.trans hi) (by simp), ?_, ?_, ?_, ?_⟩
  · exact fun i p hp => absurd hp hno
  · exact fun i p f hp => absurd hp hno
  · exact fun i p f hp => absurd hp hno
  · exact fun i j p q f hp => absurd hp hno

theorem apart_reachBy {s : Multiprogram ι} (h : sys.ReachBy Fits s) : Apart s :=
  h.invariant (fun _ => apart_boot) fun _ _ _ _ hs hfits hstep =>
    apart_moves hs hfits (step_moves hstep)

/-! ## A program goes its own way -/

/-- **A user program cannot tell that there are others.** Take any moment of any run in which
programs are loaded into their own frames, and a machine that looks to program `i` as the one
it has. From then on let any number of programs be started, run, be interrupted, switched and
ended in any order, as long as `i` is not ended. On the other machine let only the acts of
`i` happen. The kernel hears the same from `i` on both, and the machines look the same to it. -/
theorem programs_isolated {s s' : Multiprogram ι} (h : sys.ReachBy Fits s) {ls : List (Turn ι)}
    (hrun : sys.Path Fits s ls s') (i : ι) (hstays : .exit i ∉ ls) {t : Alone} (ht : Sees s i t) :
    ∃ t', Alone.sys.run t (ls.filterMap (Turn.own i)) = some t' ∧ Sees s' i t' := by
  have hpath := hrun.mono (H := fun s l => Fits s l ∧ l ≠ .exit i) fun s l hl hfits =>
    ⟨hfits, fun he => hstays (he ▸ hl)⟩
  refine hpath.project (I := Apart) (V := fun s t => Sees s i t) ?_ ?_ ?_ (apart_reachBy h) ht
  · exact fun s l s' hs hG hstep => apart_moves hs hG.1 (step_moves hstep)
  · -- an act of the program itself
    intro s l s' t a hs hsees hstep hown
    have hmoves := step_moves hstep
    cases hmoves with
    | @act j a' p m' handling' told hcur hp hact =>
        obtain ⟨rfl, he⟩ := Option.ite_none_right_eq_some.mp hown
        obtain rfl := Option.some.inj he
        obtain ⟨p', hp', hhandling, hheard, halike⟩ := hsees
        obtain rfl : p' = p := Option.some.inj (hp'.symm.trans hp)
        rw [seenBy_current hcur] at halike
        obtain ⟨t', ht', halike', _⟩ := halike.act hact
        refine ⟨⟨t', handling', told :: t.heard⟩, ?_, _, upd_self _ _ _, rfl, ?_, ?_⟩
        · show Alone.step t a' = _
          unfold Alone.step
          rw [← hhandling, ht']
          rfl
        · exact congrArg (told :: ·) hheard
        · rw [seenBy_current (s := { s with machine := m', thread := _ }) hcur]
          exact halike'
    | _ => exact absurd hown (by simp [Turn.own])
  · -- anything else
    intro s l s' t hs hG hsees hstep hown
    obtain ⟨p, hp, hhandling, hheard, halike⟩ := hsees
    obtain ⟨p', hp', hhandling', hheard', hu⟩ := (step_moves hstep).keeps hs hG.1 hp hown hG.2
    exact ⟨p', hp', hhandling'.trans hhandling, hheard'.trans hheard,
      halike.of_owned hu.map hu.registers hu.memory⟩

/-- The machine that the program has is one that looks like it. -/
theorem sees_self {s : Multiprogram ι} (h : Apart s) {i : ι} {p : UserThread}
    (hp : s.thread i = some p) : Sees s i ⟨s.seenBy i p, p.handling, p.heard⟩ :=
  ⟨p, hp, rfl, rfl, .refl (h.linear i p hp)⟩

/-- `addiu $2, $0, 7` and `syscall`. -/
def twoWords : HostFile :=
  sampleFile [0, 0, 0, 0, 52, 0, 0, 0, 8, 0, 0, 0] noSegment noSegment [7, 0, 2, 0x24, 12, 0, 0, 0]

/-- A machine on which nothing has been executed. -/
def booted : Multiprogram Bool where
  machine := Machine.bare
  bitmap := PState.freeFrames
  current := none
  thread := fun _ => none

/-- Between the two instructions of the one program the other one is loaded, and runs. -/
def interleaved : List (Turn Bool) :=
  [.act false .instruction, .leave false, .start true twoWords fun _ => 0, .act true .instruction,
    .leave true, .enter false, .act false .instruction]

theorem programs_isolated_interleaved : ∃ (s s' : Multiprogram Bool) (t t' : Alone),
    sys.ReachBy Fits s ∧ sys.Path Fits s interleaved s' ∧ Sees s false t ∧
      Alone.sys.run t [.instruction, .instruction] = some t' ∧ Sees s' false t' ∧
      t'.heard = [.raised .syscallException, .completed] := by
  have hfits : ∀ s : Multiprogram Bool, ∀ l ∈ (.start false twoWords fun _ => 0) :: interleaved,
      Fits s l := by
    intro s l hl
    have hland : (noffHeader twoWords fun _ => 0).LandsInside twoWords s.bitmap :=
      landsInside_of_zero _ _ (by decide +kernel)
    simp only [interleaved, List.mem_cons, List.not_mem_nil, or_false] at hl
    rcases hl with rfl | rfl | rfl | rfl | rfl | rfl | rfl | rfl
    case inl => exact hland
    case inr.inr.inr.inl => exact hland
    all_goals trivial
  have heval : ((sys.step booted (.start false twoWords fun _ => 0)).bind fun s =>
      (sys.run s interleaved).map fun s' =>
        ((s.thread false).isSome, (s'.thread false).map (·.heard)))
      = some (true, some [.raised .syscallException, .completed]) := by decide +kernel
  obtain ⟨s, hs, heval⟩ := Option.bind_eq_some_iff.mp heval
  obtain ⟨s', hrun, he⟩ := Option.map_eq_some_iff.mp heval
  obtain ⟨hthere, hheard⟩ := Prod.mk.inj he
  obtain ⟨p, hp⟩ := Option.isSome_iff_exists.mp hthere
  obtain ⟨q', hq', hsaid⟩ := Option.map_eq_some_iff.mp hheard
  have hboot : sys.ReachBy Fits booted := .init ⟨rfl, rfl, fun _ => rfl⟩
  have hreach : sys.ReachBy Fits s := hboot.tail (hfits booted _ List.mem_cons_self) hs
  have hpath := Base.System.path_of_run interleaved (G := Fits)
    (fun s l hl => hfits s l (List.mem_cons_of_mem _ hl)) hrun
  have hsees := sees_self (apart_reachBy hreach) hp
  obtain ⟨t', hrun', hsees'⟩ := programs_isolated hreach hpath false (by simp [interleaved]) hsees
  refine ⟨s, s', _, t', hreach, hpath, hsees, hrun', hsees', ?_⟩
  obtain ⟨q, hq, _, hsame, _⟩ := hsees'
  obtain rfl : q = q' := Option.some.inj (hq.symm.trans hq')
  rw [← hsame, hsaid]

end Multiprogram

end Nachos
