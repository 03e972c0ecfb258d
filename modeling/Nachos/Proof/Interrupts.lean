import Nachos.Machine.Interrupt
import Mathlib.Data.List.Nodup
import Mathlib.Data.List.Range

/-!
# Interrupts are called back in order, once and never early

The loop of `CheckIfDue` drains a list that the callbacks are free to add to. Two things
keep it honest. An interrupt is always scheduled for later than now, so a callback never
adds one that is due already, and each round of the loop leaves one fewer. And the clock
stands still in the loop, so what was due at its start is exactly what it calls back.

Outside the loop nothing is ever due: time moves only in `OneTick` and `Idle`, and both
drain the list before they return.
-/

namespace Nachos

/-- What has been asked for and what has been called back. -/
structure IntLog where
  /-- The interrupts scheduled, in that order. -/
  scheduled : List PendingInterrupt
  /-- The interrupts called back, in that order, with the time it was. -/
  calls : List (PendingInterrupt × Int)
  deriving DecidableEq

namespace IntLog

/-- Nothing yet. -/
def blank : IntLog := ⟨[], []⟩

/-- The record after the step `c` from `s` to `s'`. -/
def note (s : Interrupt) (c : IntCall) (s' : Interrupt) (h : IntLog) : IntLog where
  scheduled := match c with
    | .schedule toCall fromNow type =>
        h.scheduled ++ [⟨toCall, toInt32 (s.stats.totalTicks + fromNow), type, s.allocated⟩]
    | _ => h.scheduled
  calls := match s.phase, c, s'.phase with
    -- the loop begins, or goes round
    | .outside, _, .callBack p _ => h.calls ++ [(p, s'.stats.totalTicks)]
    | .callBack _ _, .ret, .callBack p _ => h.calls ++ [(p, s'.stats.totalTicks)]
    | _, _, _ => h.calls

end IntLog

namespace PendingInterrupt

/-- Which of two comes first: by time, and at one time in the order of scheduling. -/
def Before (a b : PendingInterrupt) : Prop := a.when < b.when ∨ (a.when = b.when ∧ a.id < b.id)

theorem Before.trans (a b c : PendingInterrupt) (hab : Before a b) (hbc : Before b c) :
    Before a c := by
  unfold Before at *
  omega

theorem Before.le {a b : PendingInterrupt} (h : Before a b) : a.when ≤ b.when := by
  unfold Before at h
  omega

end PendingInterrupt

open PendingInterrupt (Before)

namespace Interrupt

/-- The runs of the interrupt hardware, with the record beside them. -/
def logged : Base.System (Interrupt × IntLog) IntCall := sys.record .blank IntLog.note

/-- How far `OneTick` moves the clock. -/
def tickOf (s : Interrupt) : Int :=
  if s.status = .systemMode then Nachos.systemTick else Nachos.userTick

/-- No sum with `totalTicks` leaves the `int`s. -/
def NoOverflow (s : Interrupt) (c : IntCall) : Prop :=
  match c with
  | .schedule _ fromNow _ => s.stats.totalTicks + fromNow ≤ intMax
  | .setLevel now => now = .intOn ∧ s.level = .intOff → s.stats.totalTicks + s.tickOf ≤ intMax
  | .oneTick => s.stats.totalTicks + s.tickOf ≤ intMax
  | _ => True

instance (s : Interrupt) (c : IntCall) : Decidable (NoOverflow s c) :=
  match c with
  | .schedule _ fromNow _ => inferInstanceAs (Decidable (s.stats.totalTicks + fromNow ≤ intMax))
  | .setLevel now => inferInstanceAs (Decidable
      (now = .intOn ∧ s.level = .intOff → s.stats.totalTicks + s.tickOf ≤ intMax))
  | .oneTick => inferInstanceAs (Decidable (s.stats.totalTicks + s.tickOf ≤ intMax))
  | .idle => inferInstanceAs (Decidable True)
  | .setStatus _ => inferInstanceAs (Decidable True)
  | .yieldOnReturn => inferInstanceAs (Decidable True)
  | .ret => inferInstanceAs (Decidable True)

/-- What is promised at every moment. -/
structure Orderly (p : Interrupt × IntLog) : Prop where
  /-- The list is sorted by time. -/
  sorted : p.1.pending.Pairwise fun a b => a.when ≤ b.when
  /-- The number of an interrupt is its place in the order of scheduling. -/
  numbered : p.2.scheduled.map PendingInterrupt.id = List.range p.2.scheduled.length
  /-- Each one scheduled is either pending, once, or has been called back, once. -/
  once : (p.2.calls.map Prod.fst ++ p.1.pending).Perm p.2.scheduled
  /-- None is called back before its time. -/
  notEarly : ∀ c ∈ p.2.calls, c.1.when ≤ c.2
  /-- They are called back in order of time, and at one time in the order of scheduling. -/
  inOrder : (p.2.calls.map Prod.fst).Pairwise Before
  /-- Outside the loop nothing that is due is left. -/
  drained : p.1.phase = .outside → ∀ q ∈ p.1.pending, p.1.stats.totalTicks < q.when
  /-- The clocks agree. -/
  clock : p.1.stats.totalTicks
    = p.1.stats.idleTicks + p.1.stats.systemTicks + p.1.stats.userTicks

/-! ## The part that only the list, the clocks and the record matter to -/

/-- What holds in the loop as well as outside. -/
structure Core (pending : List PendingInterrupt) (t : Statistics) (n : Nat)
    (h : IntLog) : Prop where
  ordered : pending.Pairwise Before
  numbered : h.scheduled.map PendingInterrupt.id = List.range n
  once : (h.calls.map Prod.fst ++ pending).Perm h.scheduled
  notEarly : ∀ c ∈ h.calls, c.1.when ≤ c.2
  inOrder : (h.calls.map Prod.fst ++ pending).Pairwise Before
  /-- What has been called back was due. -/
  past : ∀ c ∈ h.calls, c.1.when ≤ t.totalTicks
  clock : t.totalTicks = t.idleTicks + t.systemTicks + t.userTicks
  /-- The clocks are `int`s. -/
  idle : 0 ≤ t.idleTicks
  system : 0 ≤ t.systemTicks
  user : 0 ≤ t.userTicks
  fits : t.totalTicks ≤ intMax
  times : ∀ q ∈ pending, q.when ≤ intMax

theorem core_new : Core [] ⟨0, 0, 0, 0⟩ 0 .blank where
  ordered := .nil
  numbered := rfl
  once := .refl _
  notEarly := by intro c hc; simp [IntLog.blank] at hc
  inOrder := .nil
  past := by intro c hc; simp [IntLog.blank] at hc
  clock := rfl
  idle := Int.le_refl 0
  system := Int.le_refl 0
  user := Int.le_refl 0
  fits := by decide
  times := by intro q hq; simp at hq

section Core

variable {pending : List PendingInterrupt} {t : Statistics} {n : Nat} {h : IntLog}

theorem Core.id_lt (hc : Core pending t n h) {q : PendingInterrupt} (hq : q ∈ pending) :
    q.id < n := by
  have hm : q ∈ h.scheduled := hc.once.mem_iff.mp (List.mem_append_right _ hq)
  have hid := List.mem_map_of_mem (f := PendingInterrupt.id) hm
  rw [hc.numbered] at hid
  exact List.mem_range.mp hid

/-- What is asked for does not wrap. -/
theorem Core.when_eq (hc : Core pending t n h) {fromNow : Int} (hpos : 0 < fromNow)
    (hfit : t.totalTicks + fromNow ≤ intMax) :
    toInt32 (t.totalTicks + fromNow) = t.totalTicks + fromNow := by
  have hclock := hc.clock
  have hi := hc.idle
  have hs := hc.system
  have hu := hc.user
  exact toInt32_of_range (by omega) (by omega)

/-- **`Schedule` asks for later than now**, so it comes after all that was called back. -/
theorem Core.schedule (hc : Core pending t n h) {toCall : Nat} {fromNow : Int} {type : IntType}
    (hpos : 0 < fromNow) (hfit : t.totalTicks + fromNow ≤ intMax) :
    Core (SortedList.insert pendingCompare ⟨toCall, t.totalTicks + fromNow, type, n⟩ pending) t
      (n + 1)
      { h with scheduled := h.scheduled ++ [⟨toCall, t.totalTicks + fromNow, type, n⟩] } := by
  generalize hp : (⟨toCall, t.totalTicks + fromNow, type, n⟩ : PendingInterrupt) = p
  have hwhen : p.when = t.totalTicks + fromNow := by rw [← hp]
  have hid : p.id = n := by rw [← hp]
  have hperm := SortedList.insert_perm pendingCompare p pending
  have hord : (SortedList.insert pendingCompare p pending).Pairwise Before := by
    refine SortedList.insert_pairwise Before.trans ?_ ?_ hc.ordered
    · -- in front of `y` only when it is earlier
      intro y _ hlt
      rw [pendingCompare] at hlt
      split at hlt
      · exact Or.inl (by assumption)
      · split at hlt <;> omega
    · -- behind `y` at the same time too: `y` was scheduled first
      intro y hy hge
      have hy' := hc.id_lt hy
      rw [pendingCompare] at hge
      unfold Before
      split at hge
      · omega
      · omega
  refine { hc with
    ordered := hord, numbered := ?_, once := ?_, inOrder := ?_, times := ?_ }
  · rw [List.map_append, hc.numbered, List.range_succ, List.map_singleton, hid]
  · refine (List.Perm.append_left _ hperm).trans ?_
    refine List.perm_middle.trans ?_
    exact ((hc.once.cons p).trans (List.perm_append_singleton p h.scheduled).symm)
  · obtain ⟨hcalls, _, hcross⟩ := List.pairwise_append.mp hc.inOrder
    refine List.pairwise_append.mpr ⟨hcalls, hord, ?_⟩
    intro a ha b hb
    rcases List.mem_cons.mp (hperm.mem_iff.mp hb) with hbp | hbp
    · -- what was called back was due, and the new one is not
      obtain ⟨c, hcm, rfl⟩ := List.mem_map.mp ha
      have := hc.past c hcm
      exact Or.inl (by rw [hbp, hwhen]; omega)
    · exact hcross a ha b hbp
  · intro q hq
    rcases List.mem_cons.mp (hperm.mem_iff.mp hq) with hqp | hqp
    · rw [hqp, hwhen]; exact hfit
    · exact hc.times q hqp

/-- A round of the loop: the front of the list is called back. -/
theorem Core.call {p : PendingInterrupt} {ps : List PendingInterrupt} (hc : Core (p :: ps) t n h)
    (hdue : p.when ≤ t.totalTicks) :
    Core ps t n { h with calls := h.calls ++ [(p, t.totalTicks)] } := by
  have happ : ((h.calls ++ [(p, t.totalTicks)]).map Prod.fst ++ ps)
      = h.calls.map Prod.fst ++ p :: ps := by simp
  refine { hc with
    ordered := (List.pairwise_cons.mp hc.ordered).2
    once := by rw [happ]; exact hc.once
    inOrder := by rw [happ]; exact hc.inOrder
    notEarly := ?_, past := ?_, times := fun q hq => hc.times q (List.mem_cons_of_mem p hq) }
  · intro c hcm
    rcases List.mem_append.mp hcm with hcm' | hcm'
    · exact hc.notEarly c hcm'
    · rw [List.mem_singleton.mp hcm']; exact hdue
  · intro c hcm
    rcases List.mem_append.mp hcm with hcm' | hcm'
    · exact hc.past c hcm'
    · rw [List.mem_singleton.mp hcm']; exact hdue

/-- The clocks may move on together. -/
theorem Core.later (hc : Core pending t n h) {t' : Statistics}
    (hle : t.totalTicks ≤ t'.totalTicks)
    (hclock : t'.totalTicks = t'.idleTicks + t'.systemTicks + t'.userTicks)
    (hi : 0 ≤ t'.idleTicks) (hs : 0 ≤ t'.systemTicks) (hu : 0 ≤ t'.userTicks)
    (hfit : t'.totalTicks ≤ intMax) : Core pending t' n h :=
  { hc with
    past := fun c hcm => Int.le_trans (hc.past c hcm) hle
    clock := hclock, idle := hi, system := hs, user := hu, fits := hfit }

end Core

/-! ## The steps -/

/-- What holds of every state, with its record. -/
structure Inv (s : Interrupt) (h : IntLog) : Prop where
  core : Core s.pending s.stats s.allocated h
  drained : s.phase = .outside → ∀ q ∈ s.pending, s.stats.totalTicks < q.when

/-- How a call into the loop ends: back outside with nothing done, or in the next callback. -/
inductive Entered (s s' : Interrupt) : Prop where
  /-- Nothing is due, or the machine halts. -/
  | left (pending : s'.pending = s.pending) (stats : s'.stats = s.stats)
      (allocated : s'.allocated = s.allocated) (phase : ∀ p adv, s'.phase ≠ .callBack p adv)
      (quiet : s'.phase = .outside → ∀ q ∈ s.pending.head?, s.stats.totalTicks < q.when)
  /-- The front of the list is called back, at its time or later. -/
  | called (p : PendingInterrupt) (adv : Bool) (pending : s.pending = p :: s'.pending)
      (allocated : s'.allocated = s.allocated) (phase : s'.phase = .callBack p adv)
      (stats : s'.stats = s.stats ∧ p.when ≤ s.stats.totalTicks ∨
        s'.stats = (s.advanceTo p.when).stats ∧ s.stats.totalTicks < p.when)

theorem afterCheck_entered (s : Interrupt) (b adv fired : Bool)
    (hq : ∀ q ∈ s.pending.head?, s.stats.totalTicks < q.when) :
    Entered s (afterCheck { s with inHandler := b } adv fired) := by
  unfold afterCheck
  split
  · split
    · exact .left rfl rfl rfl (by simp) fun _ => hq
    · exact .left rfl rfl rfl (by simp) fun he => absurd he (by simp)
  · split
    · exact .left rfl rfl rfl (by simp) fun _ => hq
    · exact .left rfl rfl rfl (by simp) fun _ => hq

theorem checkIfDue_entered (s : Interrupt) (adv : Bool) : Entered s (s.checkIfDue adv) := by
  unfold checkIfDue
  split
  · rename_i hp
    exact afterCheck_entered s s.inHandler adv false (by simp [hp])
  · rename_i p ps hp
    split
    · rename_i hgt
      split
      · exact afterCheck_entered s s.inHandler adv false (by simpa [hp] using hgt)
      · simp only [callNext, advanceTo, hp]
        exact .called p adv hp rfl rfl (Or.inr ⟨rfl, hgt⟩)
    · rename_i hle
      simp only [callNext, hp]
      exact .called p adv hp rfl rfl (Or.inl ⟨rfl, by omega⟩)

theorem loop_entered (s : Interrupt) (adv : Bool) : Entered s (s.loop adv) := by
  unfold loop
  split
  · rename_i hp
    exact afterCheck_entered s false adv true (by simp [hp])
  · rename_i p ps hp
    split
    · rename_i hle
      simp only [callNext, hp]
      exact .called p adv hp rfl rfl (Or.inl ⟨rfl, hle⟩)
    · rename_i hgt
      refine afterCheck_entered s false adv true ?_
      simpa [hp] using hgt

/-- The first is the earliest, so when it is not due nothing is. -/
theorem quiet_of_head {pending : List PendingInterrupt} {now : Int} (ho : pending.Pairwise Before)
    (hq : ∀ q ∈ pending.head?, now < q.when) : ∀ q ∈ pending, now < q.when := by
  cases pending with
  | nil => simp
  | cons p ps =>
      have hp : now < p.when := hq p rfl
      intro q hm
      rcases List.mem_cons.mp hm with hqp | hqp
      · exact hqp ▸ hp
      · exact Int.lt_of_lt_of_le hp ((List.pairwise_cons.mp ho).1 q hqp).le

theorem Core.advance {s : Interrupt} {h : IntLog} (hc : Core s.pending s.stats s.allocated h)
    {p : PendingInterrupt} (hp : p ∈ s.pending) (hlt : s.stats.totalTicks < p.when) :
    Core s.pending (s.advanceTo p.when).stats s.allocated h := by
  have hfit := hc.times p hp
  have hclock := hc.clock
  have hi := hc.idle
  have hs := hc.system
  have hu := hc.user
  have hidle : toInt32 (s.stats.idleTicks + (p.when - s.stats.totalTicks))
      = s.stats.idleTicks + (p.when - s.stats.totalTicks) :=
    toInt32_of_range (by omega) (by omega)
  refine hc.later ?_ ?_ ?_ hs hu hfit
  · show s.stats.totalTicks ≤ p.when
    omega
  · show p.when = toInt32 _ + s.stats.systemTicks + s.stats.userTicks
    rw [hidle]; omega
  · show 0 ≤ toInt32 _
    rw [hidle]; omega

/-- The record a call into the loop leaves. -/
def noteCall (s' : Interrupt) (h : IntLog) : IntLog :=
  { h with calls := match s'.phase with
      | .callBack p _ => h.calls ++ [(p, s'.stats.totalTicks)]
      | _ => h.calls }

/-- **Entering the loop and going round it** keep the invariant and the clock does not go back. -/
theorem Entered.inv {s s' : Interrupt} {h : IntLog} (he : Entered s s')
    (hc : Core s.pending s.stats s.allocated h) :
    Inv s' (noteCall s' h) ∧ s.stats.totalTicks ≤ s'.stats.totalTicks := by
  cases he with
  | left hp ht ha hph hq =>
      have hn : noteCall s' h = h := by
        unfold noteCall
        split
        · rename_i p adv hpa; exact absurd hpa (hph p adv)
        · rfl
      rw [hn, ht]
      refine ⟨⟨by rw [hp, ht, ha]; exact hc, ?_⟩, Int.le_refl _⟩
      intro hout
      rw [hp, ht]
      exact quiet_of_head hc.ordered (hq hout)
  | called p adv hp ha hph ht =>
      have hn : noteCall s' h = { h with calls := h.calls ++ [(p, s'.stats.totalTicks)] } := by
        rw [noteCall, hph]
      have hpc : Core (p :: s'.pending) s'.stats s'.allocated h ∧ p.when ≤ s'.stats.totalTicks ∧
          s.stats.totalTicks ≤ s'.stats.totalTicks := by
        rcases ht with ⟨hts, hdue⟩ | ⟨hts, hlt⟩
        · rw [hts, ← hp, ha]
          exact ⟨hc, hdue, Int.le_refl _⟩
        · -- from `Idle`: the clock jumps to the first interrupt
          have hadv := hc.advance (p := p) (by rw [hp]; exact List.mem_cons_self) hlt
          rw [hts, ← hp, ha]
          exact ⟨hadv, Int.le_refl p.when, Int.le_of_lt hlt⟩
      refine ⟨⟨?_, ?_⟩, hpc.2.2⟩
      · rw [hn]
        exact hpc.1.call hpc.2.1
      · intro hout
        rw [hph] at hout
        exact absurd hout (by simp)

theorem tick_core {s : Interrupt} {h : IntLog} (hc : Core s.pending s.stats s.allocated h)
    (hfit : s.stats.totalTicks + s.tickOf ≤ intMax) :
    Core s.tick.pending s.tick.stats s.tick.allocated h ∧
      s.stats.totalTicks ≤ s.tick.stats.totalTicks := by
  have hclock := hc.clock
  have hi := hc.idle
  have hs := hc.system
  have hu := hc.user
  unfold tickOf at hfit
  unfold tick
  split
  · rename_i hm
    rw [if_pos hm] at hfit
    have hpos : (0 : Int) < systemTick := by decide
    have h1 := hc.when_eq hpos hfit
    have h2 : toInt32 (s.stats.systemTicks + systemTick) = s.stats.systemTicks + systemTick :=
      toInt32_of_range (by omega) (by omega)
    simp only [h1, h2]
    have hle : s.stats.totalTicks ≤ s.stats.totalTicks + systemTick := by omega
    have hsum : s.stats.totalTicks + systemTick
        = s.stats.idleTicks + (s.stats.systemTicks + systemTick) + s.stats.userTicks := by omega
    have hnn : 0 ≤ s.stats.systemTicks + systemTick := by omega
    exact ⟨hc.later hle hsum hi hnn hu hfit, hle⟩
  · rename_i hm
    rw [if_neg hm] at hfit
    have hpos : (0 : Int) < userTick := by decide
    have h1 := hc.when_eq hpos hfit
    have h2 : toInt32 (s.stats.userTicks + userTick) = s.stats.userTicks + userTick :=
      toInt32_of_range (by omega) (by omega)
    simp only [h1, h2]
    have hle : s.stats.totalTicks ≤ s.stats.totalTicks + userTick := by omega
    have hsum : s.stats.totalTicks + userTick
        = s.stats.idleTicks + s.stats.systemTicks + (s.stats.userTicks + userTick) := by omega
    have hnn : 0 ≤ s.stats.userTicks + userTick := by omega
    exact ⟨hc.later hle hsum hi hs hnn hfit, hle⟩

theorem schedule_inv {s s' : Interrupt} {h : IntLog} (hI : Inv s h) {toCall : Nat} {fromNow : Int}
    {type : IntType} (hfit : s.stats.totalTicks + fromNow ≤ intMax)
    (hs : s.schedule toCall fromNow type = some s') :
    Inv s' { h with scheduled := h.scheduled ++
        [⟨toCall, toInt32 (s.stats.totalTicks + fromNow), type, s.allocated⟩] } ∧
      s'.stats = s.stats ∧ s'.phase = s.phase := by
  unfold schedule at hs
  split at hs
  · rename_i hpos
    rw [hI.core.when_eq hpos hfit] at hs ⊢
    have hs' := Option.some.inj hs
    subst hs'
    refine ⟨⟨hI.core.schedule hpos hfit, ?_⟩, rfl, rfl⟩
    intro hout q hq
    rcases List.mem_cons.mp ((SortedList.insert_perm _ _ _).mem_iff.mp hq) with hqp | hqp
    · rw [hqp]
      show s.stats.totalTicks < s.stats.totalTicks + fromNow
      omega
    · exact hI.drained hout q hqp
  · exact absurd hs (by simp)

theorem oneTick_inv {s : Interrupt} {h : IntLog} (hc : Core s.pending s.stats s.allocated h)
    (hfit : s.stats.totalTicks + s.tickOf ≤ intMax) :
    Inv s.oneTick (noteCall s.oneTick h) ∧ s.stats.totalTicks ≤ s.oneTick.stats.totalTicks := by
  obtain ⟨hct, hle⟩ := tick_core hc hfit
  obtain ⟨hI, hle'⟩ := (checkIfDue_entered { s.tick with level := .intOff } false).inv hct
  exact ⟨hI, Int.le_trans hle hle'⟩

/-- Entering the loop from outside is recorded as such. -/
theorem note_outside {s : Interrupt} (ho : s.phase = .outside) (c : IntCall) (s' : Interrupt)
    (h : IntLog) (hc : ∀ toCall fromNow type, c ≠ .schedule toCall fromNow type) :
    IntLog.note s c s' h = noteCall s' h := by
  cases c with
  | schedule toCall fromNow type => exact absurd rfl (hc toCall fromNow type)
  | _ =>
      simp only [IntLog.note, noteCall, ho]
      cases s'.phase <;> rfl

/-- A step that stays outside is not recorded. -/
theorem noteCall_outside {t : Interrupt} (ho : t.phase = .outside) (h : IntLog) :
    noteCall t h = h := by
  rw [noteCall, ho]

/-- A step from outside the handlers. -/
theorem step_inv_outside {s s' : Interrupt} {h : IntLog} {c : IntCall} (hI : Inv s h)
    (hg : NoOverflow s c) (hph : s.phase = .outside) (hs : s.step c = some s') :
    Inv s' (.note s c s' h) ∧ s.stats.totalTicks ≤ s'.stats.totalTicks := by
  cases c with
  | schedule toCall fromNow type =>
      simp only [step, hph] at hs
      obtain ⟨hI', ht, hp⟩ := schedule_inv hI hg hs
      refine ⟨?_, by simp only [ht, Int.le_refl]⟩
      simpa only [IntLog.note, hp, hph] using hI'
  | setLevel now =>
      simp only [step, hph] at hs
      have hs' := Option.some.inj hs
      rw [note_outside hph _ _ _ (by simp), ← hs']
      unfold setLevel
      split
      · rename_i hon
        exact oneTick_inv (s := { s with level := now }) hI.core (hg hon)
      · rw [noteCall_outside (t := { s with level := now }) hph]
        exact ⟨⟨hI.core, hI.drained⟩, Int.le_refl _⟩
  | oneTick =>
      simp only [step, hph] at hs
      have hs' := Option.some.inj hs
      rw [note_outside hph _ _ _ (by simp), ← hs']
      exact oneTick_inv hI.core hg
  | idle =>
      simp only [step, hph] at hs
      unfold idle at hs
      split at hs
      · have hs' := Option.some.inj hs
        rw [note_outside hph _ _ _ (by simp), ← hs']
        exact (checkIfDue_entered { s with status := .idleMode } true).inv hI.core
      · exact absurd hs (by simp)
  | setStatus st =>
      simp only [step, hph] at hs
      have hs' := Option.some.inj hs
      rw [note_outside hph _ _ _ (by simp), ← hs']
      rw [noteCall_outside rfl]
      exact ⟨⟨hI.core, fun _ => hI.drained hph⟩, Int.le_refl _⟩
  | yieldOnReturn => simp [step, hph] at hs
  | ret => simp [step, hph] at hs

/-- A step of a handler, or its return. -/
theorem step_inv_callBack {s s' : Interrupt} {h : IntLog} {c : IntCall} {p : PendingInterrupt}
    {adv : Bool} (hI : Inv s h) (hg : NoOverflow s c) (hph : s.phase = .callBack p adv)
    (hs : s.step c = some s') :
    Inv s' (.note s c s' h) ∧ s.stats.totalTicks ≤ s'.stats.totalTicks := by
  -- inside the loop nothing is promised about what is due
  have hquiet : ∀ {s₁ : Interrupt}, s₁.phase = .callBack p adv → s₁.phase = .outside →
      ∀ q ∈ s₁.pending, s₁.stats.totalTicks < q.when := by
    intro s₁ h1 h2
    rw [h1] at h2
    exact absurd h2 (by simp)
  cases c with
  | schedule toCall fromNow type =>
      simp only [step, hph] at hs
      obtain ⟨hI', ht, hp⟩ := schedule_inv hI hg hs
      refine ⟨?_, by simp only [ht, Int.le_refl]⟩
      simpa only [IntLog.note, hp, hph] using hI'
  | setLevel now =>
      cases now with
      | intOn => simp [step, hph] at hs
      | intOff =>
          simp only [step, hph, setLevel, reduceCtorEq, false_and, if_false] at hs
          have hs' := Option.some.inj hs
          subst hs'
          refine ⟨?_, Int.le_refl _⟩
          simp only [IntLog.note, hph]
          exact ⟨hI.core, hquiet rfl⟩
  | yieldOnReturn =>
      simp only [step, hph] at hs
      have hs' := Option.some.inj hs
      subst hs'
      refine ⟨?_, Int.le_refl _⟩
      simp only [IntLog.note, hph]
      exact ⟨hI.core, hquiet rfl⟩
  | ret =>
      simp only [step, hph] at hs
      have hs' := Option.some.inj hs
      have hn : IntLog.note s .ret s' h = noteCall s' h := by
        simp only [IntLog.note, noteCall, hph]
        cases s'.phase <;> rfl
      rw [hn, ← hs']
      exact (loop_entered s adv).inv hI.core
  | oneTick => simp [step, hph] at hs
  | idle => simp [step, hph] at hs
  | setStatus st => simp [step, hph] at hs

/-- **Every step keeps the invariant, and the clock does not go back.** -/
theorem step_inv {s s' : Interrupt} {h : IntLog} {c : IntCall} (hI : Inv s h)
    (hg : NoOverflow s c) (hs : s.step c = some s') :
    Inv s' (.note s c s' h) ∧ s.stats.totalTicks ≤ s'.stats.totalTicks := by
  cases hph : s.phase with
  | halted => simp [step, hph] at hs
  | outside => exact step_inv_outside hI hg hph hs
  | callBack p adv => exact step_inv_callBack hI hg hph hs

theorem inv_reachBy {p : Interrupt × IntLog} (h : logged.ReachBy (fun p c => NoOverflow p.1 c) p) :
    Inv p.1 p.2 := by
  refine h.invariant (I := fun p => Inv p.1 p.2) ?_ ?_
  · rintro ⟨s, h⟩ ⟨hs, hh⟩
    simp only at hs hh
    rw [hs, hh]
    exact ⟨core_new, fun _ q hq => absurd hq (by simp [new])⟩
  · intro p c q _ hI hg hs
    obtain ⟨hst, hq⟩ := Base.System.record_step hs
    rw [hq]
    exact (step_inv hI hg hst).1

theorem Inv.orderly {p : Interrupt × IntLog} (hI : Inv p.1 p.2) : Orderly p where
  sorted := hI.core.ordered.imp Before.le
  numbered := by
    have hlen := congrArg List.length hI.core.numbered
    rw [List.length_map, List.length_range] at hlen
    rw [hI.core.numbered, hlen]
  once := hI.core.once
  notEarly := hI.core.notEarly
  inOrder := (List.pairwise_append.mp hI.core.inOrder).1
  drained := hI.drained
  clock := hI.core.clock

/-! ## The loop ends -/

/-- How many of the pending interrupts are due. -/
def due (s : Interrupt) : Nat := s.pending.countP fun q => decide (q.when ≤ s.stats.totalTicks)

/-- `CheckIfDue` is in its loop. -/
def inLoop (s : Interrupt) : Bool :=
  match s.phase with
  | .callBack _ _ => true
  | _ => false

theorem inLoop_iff {s : Interrupt} : s.inLoop = true ↔ ∃ p adv, s.phase = .callBack p adv := by
  unfold inLoop
  split
  · rename_i p adv hp; exact ⟨fun _ => ⟨p, adv, hp⟩, fun _ => rfl⟩
  · rename_i hno
    exact ⟨fun he => absurd he (by simp), fun ⟨p, adv, hp⟩ => absurd hp (hno p adv)⟩

/-- A callback that has not returned leaves as many due as there were. -/
theorem due_callBack {s s' : Interrupt} {h : IntLog} {c : IntCall} (hI : Inv s h)
    (hl : s.inLoop = true) (hg : NoOverflow s c) (hc : c ≠ .ret) (hs : s.step c = some s') :
    s'.inLoop = true ∧ s'.due = s.due := by
  obtain ⟨p, adv, hph⟩ := inLoop_iff.mp hl
  cases c with
  | schedule toCall fromNow type =>
      simp only [step, hph] at hs
      obtain ⟨_, _, hp⟩ := schedule_inv hI hg hs
      refine ⟨inLoop_iff.mpr ⟨p, adv, hp.trans hph⟩, ?_⟩
      unfold schedule at hs
      split at hs
      · rename_i hpos
        rw [hI.core.when_eq hpos hg] at hs
        have hs' := Option.some.inj hs
        subst hs'
        -- what a callback schedules is for later than now
        unfold due
        rw [(SortedList.insert_perm _ _ _).countP_eq]
        refine List.countP_cons_of_neg ?_
        simp only [decide_eq_true_eq, Int.not_le]
        omega
      · exact absurd hs (by simp)
  | setLevel now =>
      cases now with
      | intOn => simp [step, hph] at hs
      | intOff =>
          simp only [step, hph, setLevel, reduceCtorEq, false_and, if_false] at hs
          have hs' := Option.some.inj hs
          subst hs'
          exact ⟨rfl, rfl⟩
  | yieldOnReturn =>
      simp only [step, hph] at hs
      have hs' := Option.some.inj hs
      subst hs'
      exact ⟨rfl, rfl⟩
  | ret => exact absurd rfl hc
  | oneTick => simp [step, hph] at hs
  | idle => simp [step, hph] at hs
  | setStatus st => simp [step, hph] at hs

/-- **Each round of the loop leaves one fewer that is due.** -/
theorem due_ret {s s' : Interrupt} (hs : s.step .ret = some s') (hl : s'.inLoop = true) :
    s'.due + 1 = s.due := by
  obtain ⟨p', adv', hph'⟩ := inLoop_iff.mp hl
  cases hph : s.phase with
  | outside => simp [step, hph] at hs
  | halted => simp [step, hph] at hs
  | callBack p adv =>
      simp only [step, hph] at hs
      have hs' := Option.some.inj hs
      subst hs'
      have hafter : ∀ s₁ : Interrupt, ∀ q a, (s₁.afterCheck adv true).phase ≠ .callBack q a := by
        intro s₁ q a
        unfold afterCheck
        repeat' split
        all_goals simp
      unfold loop at hph' ⊢
      split at hph'
      · exact absurd hph' (hafter _ p' adv')
      · rename_i q qs hq
        split at hph'
        · rename_i hle
          simp only [hq, hle, if_true, callNext, due]
          rw [List.countP_cons_of_pos (by simpa using hle)]
        · exact absurd hph' (hafter _ p' adv')

/-- The loop is gone round at most once more than there are interrupts due. -/
theorem loop_ends : ∀ (cs : List IntCall) {p q : Interrupt × IntLog}, Inv p.1 p.2 →
    logged.runBy (fun p c => NoOverflow p.1 c ∧ p.1.inLoop = true) p cs = some q →
    cs.count .ret ≤ p.1.due + 1 := by
  intro cs
  induction cs with
  | nil => intro _ _ _ _; simp
  | cons c cs ih =>
      intro p q hI hr
      rw [Base.System.runBy] at hr
      split at hr
      · rename_i hg
        obtain ⟨p', hp', hr'⟩ := Option.bind_eq_some_iff.mp hr
        obtain ⟨hst, hn⟩ := Base.System.record_step hp'
        have hI' : Inv p'.1 p'.2 := hn ▸ (step_inv hI hg.1 hst).1
        have hrest := ih hI' hr'
        by_cases hc : c = .ret
        · subst hc
          rw [List.count_cons_self]
          cases hl : p'.1.inLoop with
          | true =>
              have := due_ret hst hl
              omega
          | false =>
              -- the loop has been left, so nothing follows
              cases cs with
              | nil => simp
              | cons c' cs' =>
                  rw [Base.System.runBy, if_neg (by simp [hl])] at hr'
                  exact absurd hr' (by simp)
        · rw [List.count_cons_of_ne hc]
          have := (due_callBack hI hg.2 hg.1 hc hst).2
          omega
      · exact absurd hr (by simp)

/--
**The interrupt simulation.**

In every run in which no sum with `totalTicks` overflows, the pending list is sorted,
each interrupt is called back at most once, none early, all of them in order of time and
of scheduling, and outside the loop of `CheckIfDue` none that is due is left. The clocks
add up, `totalTicks` never goes back, and the loop of `CheckIfDue` ends: it calls back
at most the interrupts that are due.
-/
theorem interrupts_orderly (p : Interrupt × IntLog)
    (h : logged.ReachBy (fun p c => NoOverflow p.1 c) p) :
    Orderly p ∧
      (∀ c q, NoOverflow p.1 c → logged.step p c = some q →
        p.1.stats.totalTicks ≤ q.1.stats.totalTicks) ∧
      ∀ cs q, logged.runBy (fun p c => NoOverflow p.1 c ∧ p.1.inLoop = true) p cs = some q →
        cs.count .ret ≤ p.1.due + 1 := by
  have hI := inv_reachBy h
  refine ⟨hI.orderly, ?_, fun cs q hr => loop_ends cs hI hr⟩
  intro c q hg hs
  exact (step_inv hI hg (Base.System.record_step hs).1).2

theorem logged_init : logged.init (new, .blank) := ⟨rfl, rfl⟩

/-- A timer and a console at one time; the timer's callback schedules the next timer
interrupt, and the console's one for a time that a third device also asked for. -/
theorem interrupts_orderly_timer_console :
    ∃ p, logged.ReachBy (fun p c => NoOverflow p.1 c) p ∧ p.2.calls.length = 2 ∧
      p.1.pending.length = 2 ∧ Orderly p := by
  have hrun : ∃ p, logged.runBy (fun p c => NoOverflow p.1 c) (new, .blank)
      [.schedule 1 100 .timerInt, .schedule 2 100 .consoleReadInt, .schedule 3 200 .diskInt,
        .setLevel .intOn, .setLevel .intOff, .idle, .schedule 1 100 .timerInt, .yieldOnReturn,
        .ret, .ret] = some p ∧ p.2.calls.length = 2 ∧ p.1.pending.length = 2 :=
    ⟨_, rfl, by decide, by decide⟩
  obtain ⟨p, hp, hc, hq⟩ := hrun
  have hr := Base.System.ReachBy.runBy _ (.init logged_init) hp
  exact ⟨p, hr, hc, hq, (interrupts_orderly p hr).1⟩

end Interrupt

end Nachos
