import Nachos.Proof.ContextSwitch
import Nachos.Proof.DelayedLoads

/-!
# Register 0 is zero, and loads go to general registers

Most instructions write through a register number that may be 0, and none of them looks whether it
is. It is `DelayedLoad` that puts the zero back, at the end of every instruction, before every
exception and before every interrupt handler; and `DelayedLoad` itself writes through a register
number that it finds in `LoadReg`.

Both facts are kept by whoever writes registers: the interpreter, which stores five-bit
numbers only; the kernel, which writes the result of a system call and the program
counters; `InitRegisters`; and the context switch, which puts back what a thread had
when it left.
-/

namespace Nachos

open Base (upd upd_ne upd_self)

theorem wellKept_congr {r r' : Nat → BitVec 32} (h : ∀ i, i < numTotalRegs → r' i = r i)
    (hr : WellKept r) : WellKept r' where
  zero := (h 0 (by decide)).trans hr.zero
  load := by
    rw [h loadReg (by decide)]
    exact hr.load

/-- Nobody but the machine writes the two registers. -/
theorem wellKept_upd {r : Nat → BitVec 32} (hr : WellKept r) {num : Nat} (h0 : num ≠ 0)
    (hl : num ≠ loadReg) (value : BitVec 32) : WellKept (upd r num value) where
  zero := (upd_ne _ _ h0.symm).trans hr.zero
  load := by
    rw [upd_ne _ _ hl.symm]
    exact hr.load

namespace Processor

/-- `DelayedLoad(0, 0)` repairs everything. -/
theorem wellKept_delayedLoad (m : Processor) : WellKept (m.delayedLoad 0#32 0#32).registers :=
  ⟨rfl, show (0#32).toNat < numGPRegs by decide⟩

/-- **`DelayedLoad` writes a general register** and the two registers of the next load. -/
theorem delayedLoad_ne {m : Processor} (h : WellKept m.registers) (nextReg nextValue : BitVec 32)
    {n : Nat} (hn : numGPRegs ≤ n) (hl : n ≠ loadReg) (hv : n ≠ loadValueReg) :
    (m.delayedLoad nextReg nextValue).registers n = m.registers n := by
  have h0 : n ≠ 0 := fun he => absurd (he ▸ hn) (by decide)
  have hload : n ≠ (m.registers loadReg).toNat := Nat.ne_of_gt (Nat.lt_of_lt_of_le h.load hn)
  unfold delayedLoad
  simp only [writeRegister, upd_ne _ _ h0, upd_ne _ _ hv, upd_ne _ _ hl, upd_ne _ _ hload]

theorem foldl_writeRegister_zero : ∀ (l : List Nat) (m : Processor) (n : Nat),
    ((l.foldl (fun m i => m.writeRegister i 0#32) m).registers n) =
      if n ∈ l then 0#32 else m.registers n := by
  intro l
  induction l with
  | nil => intro m n; simp
  | cons i l ih =>
      intro m n
      rw [List.foldl_cons, ih]
      by_cases hl : n ∈ l
      · simp [hl]
      · by_cases hi : n = i
        · simp [hi, writeRegister]
        · simp [hl, hi, writeRegister, upd_ne _ _ hi]

/-- **`InitRegisters`** starts a program with both in order. -/
theorem wellKept_initRegisters (sp : Space) (m : Processor) :
    WellKept (sp.initRegisters m).registers := by
  unfold Space.initRegisters
  refine wellKept_upd (wellKept_upd (wellKept_upd ?_ ?_ ?_ _) ?_ ?_ _) ?_ ?_ _
  case refine_1 =>
    constructor
    · rw [foldl_writeRegister_zero, if_pos (by decide)]
    · rw [foldl_writeRegister_zero, if_pos (by decide)]
      decide
  all_goals decide

end Processor

namespace Sched

/-- What the labels stand for: an instruction leaves the registers that the interpreter leaves,
with some memory and some page table, and the kernel writes what `ExceptionHandler` writes. -/
def Faithful (s : Sched) : SchedCall → Prop
  | .instruction registers =>
      ∃ m m' : Machine, m.registers = s.machine.registers ∧ m.oneInstruction = .completed m' ∧
        m'.registers = registers
  | .writeRegister num _ => Kernel.handlerWrites num = true
  | _ => True

/-- The runs of the kernel from the start: `Machine::Machine` clears the registers. -/
def powerOn : Base.System Sched SchedCall where
  init := fun s => Boot s ∧ ∀ n, s.machine.registers n = 0#32
  step := step

section Steps

variable {s s' : Sched}

theorem yield_machine (h : Inv s) {user : Bool} (hp : s.point s.stack = .code user) (u : Bool) :
    (s.yield u).machine = s.machine := by
  have hnr := (h.executing (t := s.stack) (by rw [hp]; rfl)).1
  cases hr : s.readyList with
  | nil => rw [yield_nil h hr]
  | cons next rest =>
      rw [hr] at hnr
      rw [yield_cons h hr (fun hmem => hnr (List.mem_cons_of_mem next hmem)) u]

theorem handlers_machine (s : Sched) (vs : List Nat) :
    (s.handlers vs).machine = s.machine.delayedLoad 0#32 0#32 := by
  obtain ⟨_, _, _, _, _, _, g7, _⟩ := foldl_semV_frame vs
    { s with machine := s.machine.delayedLoad 0#32 0#32 }
  exact g7

/-- An interrupt handler finds the pending load done. -/
theorem wellKept_oneTick (h : Inv s) {user : Bool} (hm : s.mode = .running)
    (hp : s.point s.stack = .code user) (hw : WellKept s.machine.registers)
    (fired : Option (List Nat × Bool)) : WellKept (s.oneTick user fired).machine.registers := by
  match fired with
  | none => exact hw
  | some (vs, y) =>
      have hset : WellKept (handlers { s with level := .intOff } vs).machine.registers := by
        rw [handlers_machine]
        exact Processor.wellKept_delayedLoad _
      simp only [oneTick]
      split
      · obtain ⟨hon, hpoint⟩ := inv_ticked h hm hp vs
        rw [yield_machine hon hpoint]
        exact hset
      · exact hset

theorem wellKept_codeStep (h : Inv s) {user : Bool} (hm : s.mode = .running)
    (hp : s.point s.stack = .code user) {c : SchedCall} (hg : Faithful s c)
    (hs : s.codeStep user c = some s') (hw : WellKept s.machine.registers) :
    WellKept s'.machine.registers := by
  unfold codeStep at hs
  cases c <;> simp only [Option.ite_none_right_eq_some, Option.some.injEq, Bool.and_eq_true,
    Bool.not_eq_true', decide_eq_true_eq, reduceCtorEq] at hs
  case oneTick fired => exact hs.2 ▸ wellKept_oneTick h hm hp hw fired
  case raise bad => exact hs ▸ Processor.wellKept_delayedLoad _
  case instruction r =>
      obtain ⟨m, m', hr, hone, hr'⟩ := hg
      have hkeep := Machine.oneInstruction_keeps (m := m) (hr ▸ hw)
      rw [hone] at hkeep
      exact hs.2 ▸ hr' ▸ hkeep
  case fork t => exact hs.2 ▸ hw
  case yield =>
      rw [← hs.2, yield_machine h hp]
      exact hw
  case P k => exact hs.2 ▸ hw
  case V k =>
      obtain ⟨_, _, _, _, _, _, g7, _⟩ := semV_frame { s with level := .intOff } k
      rw [← hs.2]
      exact g7.symm ▸ hw
  case finish => exact hs.2 ▸ hw
  case setLevel now => exact hs.2 ▸ hw
  case userMode => exact hs.2 ▸ hw
  case writeRegister num value =>
      have hk : Kernel.handlerWrites num = true := hg
      have hne : num ≠ 0 ∧ num ≠ loadReg := by
        constructor
        · rintro rfl
          exact absurd hk (by decide)
        · rintro rfl
          exact absurd hk (by decide)
      exact hs.2 ▸ wellKept_upd hw hne.1 hne.2 value
  case execute sp => exact hs.2 ▸ Processor.wellKept_initRegisters sp s.machine

/-- What holds at every moment: of the registers in the machine, and of those that a thread left
in it when it gave the CPU away. -/
structure Orderly (s : Sched) (g : SwitchLog) : Prop where
  kept : Kept s g
  machine : WellKept s.machine.registers
  left : ∀ t m, g t = some m → WellKept m.registers

theorem orderly_boot (h : powerOn.init s) : Orderly s (fun _ => none) where
  kept := kept_boot h.1
  machine := ⟨h.2 0, by rw [h.2]; decide⟩
  left := fun _ _ he => absurd he (by simp)

theorem wellKept_resume {g : SwitchLog} (h : Orderly s g) (hm : s.mode = .switched)
    (hs : s.resume = some s') : WellKept s'.machine.registers := by
  rcases resume_cases h.kept.inv hm hs with ⟨_, rfl⟩ | ⟨p, _, he⟩
  · exact h.machine
  · rw [he]
    show WellKept (s.restoreUserState s.stack).machine.registers
    cases hsp : s.space s.stack with
    | none =>
        unfold restoreUserState
        rw [hsp]
        exact h.machine
    | some sp =>
        -- the thread gets back what it left, and that was in order
        obtain ⟨r1, _⟩ := restoreUserState_some hsp
        obtain ⟨m, hm1, hm2, _⟩ :=
          h.kept.saved s.stack sp hsp (h.kept.inv.switched hm).2.1 (Or.inr hm)
        exact wellKept_congr (fun i hi => (r1 i hi).trans (hm2 i hi)) (h.left _ m hm1)

theorem wellKept_step {g : SwitchLog} (h : Orderly s g) {c : SchedCall} (hg : Faithful s c)
    (hs : s.step c = some s') : WellKept s'.machine.registers := by
  unfold step at hs
  cases hm : s.mode with
  | running =>
      simp only [hm] at hs
      split at hs
      · rename_i user hp
        exact wellKept_codeStep h.kept.inv hm hp hg hs h.machine
      · rename_i k old hp
        rw [← Option.some.inj hs]
        by_cases hz : (s.sem k).value = 0
        · rw [pass_zero h.kept.inv hm hp hz]
          exact h.machine
        · rw [pass_pos hz]
          exact h.machine
      · exact absurd hs (by simp)
  | idling =>
      simp only [hm] at hs
      split at hs
      · obtain ⟨next, rest, _, ⟨_, rfl⟩ | ⟨_, rfl⟩⟩ := findNext_cases h.kept.inv hm hs
        · exact h.machine
        · exact h.machine
      · simp only [Option.ite_none_right_eq_some, Option.some.injEq] at hs
        rw [← hs.2, handlers_machine]
        exact Processor.wellKept_delayedLoad _
      · simp only [Option.ite_none_right_eq_some, Option.some.injEq] at hs
        rw [← hs.2]
        exact h.machine
      · exact absurd hs (by simp)
  | switched =>
      simp only [hm] at hs
      split at hs
      · exact wellKept_resume h hm hs
      · exact absurd hs (by simp)
  | halted => simp [hm] at hs

/-- **Every step keeps the registers in order.** -/
theorem orderly_step {g : SwitchLog} (h : Orderly s g) {c : SchedCall} (hg : Faithful s c)
    (hs : s.step c = some s') : Orderly s' (noteSwitch s c s' g) where
  kept := kept_step h.kept hs
  machine := wellKept_step h hg hs
  left := by
    intro t m hm
    unfold noteSwitch at hm
    split at hm
    · by_cases ht : t = s.currentThread
      · rw [ht, upd_self] at hm
        cases hm
        exact wellKept_step h hg hs
      · rw [upd_ne _ _ ht] at hm
        exact h.left t m hm
    · exact h.left t m hm

end Steps

/-- **At every moment of every run register 0 is zero and the pending load is for a general
register**, so `DelayedLoad` changes no register from `HI` on but its own two. -/
theorem registers_wellKept (s : Sched) (h : powerOn.ReachBy Faithful s) :
    s.machine.registers 0 = 0#32 ∧ (s.machine.registers loadReg).toNat < numGPRegs ∧
      ∀ nextReg nextValue n, numGPRegs ≤ n → n ≠ loadReg → n ≠ loadValueReg →
        (s.machine.delayedLoad nextReg nextValue).registers n = s.machine.registers n := by
  have hinv : ∃ g, Orderly s g := by
    refine h.invariant (I := fun s => ∃ g, Orderly s g) ?_ ?_
    · intro s hs
      exact ⟨_, orderly_boot hs⟩
    · rintro s c s' _ ⟨g, hg⟩ hf hst
      exact ⟨_, orderly_step hg hf hst⟩
  obtain ⟨g, hg⟩ := hinv
  exact ⟨hg.machine.zero, hg.machine.load, fun _ _ _ hn hl hv =>
    Processor.delayedLoad_ne hg.machine _ _ hn hl hv⟩

/-- The registers of a program that has just been started. -/
def started : Nat → BitVec 32 := (Space.initRegisters ⟨100, 3⟩ boot.machine).registers

/-- A program is started and its first instruction, `lw $1, 12($0)`, is executed: a load to register
1 is pending. -/
theorem registers_wellKept_loading :
    ∃ s, powerOn.ReachBy Faithful s ∧ s.machine.registers loadReg = 1#32 ∧
      s.machine.registers 0 = 0#32 ∧ (s.machine.registers loadReg).toNat < numGPRegs := by
  obtain ⟨m', hm', hload⟩ : ∃ m', (Machine.sample [0x8c01000c#32] started).oneInstruction =
      .completed m' ∧ m'.registers loadReg = 1#32 := ⟨_, rfl, rfl⟩
  have h0 : powerOn.ReachBy Faithful boot := .init ⟨boot_init, fun _ => rfl⟩
  have h1 : powerOn.ReachBy Faithful (boot.execute ⟨100, 3⟩) :=
    .tail h0 (l := .execute ⟨100, 3⟩) trivial rfl
  have hf : Faithful (boot.execute ⟨100, 3⟩) (.instruction m'.registers) :=
    ⟨Machine.sample [0x8c01000c#32] started, m', rfl, hm', rfl⟩
  have h2 := Base.System.ReachBy.tail h1 hf rfl
  obtain ⟨hz, hl, _⟩ := registers_wellKept _ h2
  exact ⟨_, h2, hload, hz, hl⟩

end Sched

end Nachos
