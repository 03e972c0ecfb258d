import Nachos.Proof.Fidelity
import Mathlib.Data.List.GetD

/-!
# Strings that a program hands to the kernel

`User2System` copies from the memory of the user until it meets a zero or has as many characters as
its limit says, and stops without a word in either case. What the kernel holds after it is the
string up to the limit, and zeros. The limit is 32 for the name of a file to create or to open, one
more for that of a program or of a semaphore, and 255 for what is printed.
-/

namespace Nachos

open Base (bind_ok bind_eq_of_ok upd upd_self upd_ne)

/-- The string `s`, with its terminator, is in the memory of the user at `addr`. -/
structure HoldsString (m : Machine) (addr : Int) (s : List UInt8) : Prop where
  bare : 0 ∉ s
  bytes : ∀ i < s.length, m.byteAt (toInt32 (addr + i)) = some (s.getD i 0)
  terminator : m.byteAt (toInt32 (addr + s.length)) = some 0

theorem HoldsString.tail {m : Machine} {addr : Int} {c : UInt8} {s : List UInt8}
    (h : HoldsString m addr (c :: s)) : HoldsString m (addr + 1) s where
  bare := fun hm => h.bare (List.mem_cons_of_mem c hm)
  bytes := fun i hi => by
    have hb := h.bytes (i + 1) (by simpa using hi)
    rw [List.getD_cons_succ] at hb
    rw [show addr + 1 + (i : Int) = addr + ((i + 1 : Nat) : Int) by push_cast; omega]
    exact hb
  terminator := by
    have ht := h.terminator
    rw [List.length_cons] at ht
    rw [show addr + 1 + (s.length : Int) = addr + ((s.length + 1 : Nat) : Int) by push_cast; omega]
    exact ht

/-- **What a limit leaves of a string.** -/
theorem HoldsString.stringAt {m : Machine} : ∀ (n : Nat) {addr : Int} {s : List UInt8},
    HoldsString m addr s → m.stringAt n addr = some (s.take n) := by
  intro n
  induction n with
  | zero => intro _ _ _; rfl
  | succ n ih =>
      intro addr s h
      cases s with
      | nil =>
          have ht := h.terminator
          rw [List.length_nil, Int.natCast_zero, Int.add_zero] at ht
          rw [Machine.stringAt, ht]
          rfl
      | cons c s =>
          have hb := h.bytes 0 (by simp)
          rw [Int.natCast_zero, Int.add_zero, List.getD_cons_zero] at hb
          have hc : c ≠ 0 := fun he => h.bare (by rw [he]; exact List.mem_cons_self)
          rw [Machine.stringAt, hb]
          dsimp only
          rw [if_neg hc, ih h.tail]
          rfl

theorem HoldsString.congr {m m' : Machine} {addr : Int} {s : List UInt8} (h : HoldsString m addr s)
    (hb : ∀ a, m'.byteAt a = m.byteAt a) : HoldsString m' addr s :=
  ⟨h.bare, fun i hi => by rw [hb]; exact h.bytes i hi, by rw [hb]; exact h.terminator⟩

namespace Handler

variable {η : Type}

/-- **`User2System` of a string** delivers as much of it as the limit allows. -/
theorem user2System_string {k : Kernel η} {addr : Int} {s : List UInt8} {limit : Int}
    (h : HoldsString k.machine addr s) (h0 : 0 ≤ limit) (hl : limit < intMax) :
    ∃ k', user2System addr limit k = .ok (s.take limit.toNat) k' ∧ Looked k k' := by
  obtain ⟨k', hk'⟩ := (user2System_iff h0 hl k _).mpr (h.stringAt limit.toNat)
  exact ⟨k', hk', looked_user2System hk'⟩

end Handler

end Nachos
