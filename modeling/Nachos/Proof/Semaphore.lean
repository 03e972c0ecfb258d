import Nachos.Threads.Semaphore
import Mathlib.Data.List.Nodup
import Mathlib.Data.List.Perm.Basic

/-!
# Semaphores lose no unit and no wakeup

A thread that was woken may find that a newcomer has taken the unit, and queues
again. What survives every interleaving is a count: as long as somebody is
queued, the threads that were woken and have not run yet are at least as many as
the units on offer.
-/

namespace Nachos

namespace SemState

/-- What a semaphore promises at every moment. -/
structure Safe (initial : Int) (s : SemState) : Prop where
  /-- As `synch.h` says of `value`. -/
  nonneg : 0 ≤ s.sem.value
  /-- Units are neither lost nor invented. -/
  count : s.sem.value = initial + s.doneV - s.doneP
  /-- No thread is asleep or on its way back twice. -/
  nodup : (s.sem.queue ++ s.woken).Nodup
  /-- Units on offer while somebody sleeps are matched by threads on their way back. -/
  wakeup : s.sem.queue ≠ [] → s.sem.value ≤ s.woken.length

/-- `V` is not called at the largest `int`. -/
def NoOverflow (s : SemState) (op : SemOp) : Prop := op = .V → s.sem.value < intMax

instance (s : SemState) (op : SemOp) : Decidable (NoOverflow s op) :=
  inferInstanceAs (Decidable (op = .V → s.sem.value < intMax))

theorem safe_start {initial : Int} (h : 0 ≤ initial) : Safe initial (start initial) where
  nonneg := h
  count := by simp [start, Semaphore.new]
  nodup := by simp [start, Semaphore.new]
  wakeup := by intro hq; exact absurd rfl hq

/-- A thread that runs is no longer on its way back, and then sleeps nowhere. -/
theorem nodup_requeue {q w : List Nat} {t : Nat} (h : (q ++ w).Nodup) (ht : t ∉ q) :
    ((q ++ [t]) ++ w.erase t).Nodup := by
  obtain ⟨hq, hw, hd⟩ := List.nodup_append.mp h
  refine List.nodup_append.mpr ⟨?_, hw.erase t, ?_⟩
  · exact List.concat_eq_append ▸ hq.concat ht
  · intro a ha b hb
    rcases List.mem_append.mp ha with ha' | ha'
    · exact hd a ha' b (List.mem_of_mem_erase hb)
    · rw [List.mem_singleton.mp ha']
      intro he
      exact (hw.mem_erase_iff.mp hb).1 he.symm

theorem length_le_erase_succ (w : List Nat) (t : Nat) : w.length ≤ (w.erase t).length + 1 := by
  by_cases ht : t ∈ w
  · rw [List.length_erase_of_mem ht]; omega
  · rw [List.erase_of_not_mem ht]; omega

/-- **A pass of `P` keeps the promise.** -/
theorem safe_P {initial : Int} {s s' : SemState} {t : Nat} (h : Safe initial s)
    (hmax : s.sem.value ≤ intMax) (hs : s.step (.P t) = some s') : Safe initial s' := by
  have hn := h.nonneg
  have hc := h.count
  simp only [step] at hs
  split at hs
  · exact absurd hs (by simp)
  · rename_i ht
    have hs' := Option.some.inj hs
    subst hs'
    by_cases hv : s.sem.value = 0
    · -- nothing on offer: the thread queues
      rw [Semaphore.P_zero t hv]
      refine ⟨hn, by simpa using hc, nodup_requeue h.nodup ht, ?_⟩
      intro _
      show s.sem.value ≤ _
      rw [hv]; omega
    · -- the thread takes a unit
      have hval : toInt32 (s.sem.value - 1) = s.sem.value - 1 :=
        toInt32_of_range (by omega) (by omega)
      rw [Semaphore.P_pos t hv]
      refine ⟨?_, ?_, ?_, ?_⟩
      · show 0 ≤ toInt32 (s.sem.value - 1)
        rw [hval]; omega
      · show toInt32 (s.sem.value - 1) = _
        rw [hval]; simp only [if_true]; push_cast; omega
      · refine h.nodup.sublist ?_
        exact List.Sublist.append (List.Sublist.refl _) List.erase_sublist
      · intro hq
        show toInt32 (s.sem.value - 1) ≤ _
        rw [hval]
        have h1 := h.wakeup hq
        have h2 := length_le_erase_succ s.woken t
        show s.sem.value - 1 ≤ ((s.woken.erase t).length : Int)
        omega

/-- Moving the front of the queue to the back of the woken threads loses nobody. -/
theorem nodup_wake {q w : List Nat} (h : (q ++ w).Nodup) :
    (q.tail ++ (w ++ q.head?.toList)).Nodup := by
  cases q with
  | nil => simpa using h
  | cons a q =>
      refine (List.Perm.nodup_iff ?_).mpr h
      simp only [List.tail_cons, List.head?_cons, Option.toList_some]
      rw [← List.append_assoc]
      exact List.perm_append_singleton a (q ++ w)

/-- **`V` keeps the promise below the largest `int`.** -/
theorem safe_V {initial : Int} {s s' : SemState} (h : Safe initial s)
    (hmax : s.sem.value < intMax) (hs : s.step .V = some s') : Safe initial s' := by
  have hn := h.nonneg
  have hc := h.count
  have hval : toInt32 (s.sem.value + 1) = s.sem.value + 1 :=
    toInt32_of_range (by omega) (by omega)
  have hs' := Option.some.inj hs
  subst hs'
  refine ⟨?_, ?_, nodup_wake h.nodup, ?_⟩
  · show 0 ≤ toInt32 (s.sem.value + 1)
    rw [hval]; omega
  · show toInt32 (s.sem.value + 1) = initial + ((s.doneV + 1 : Nat) : Int) - s.doneP
    rw [hval]; push_cast; omega
  · intro hq
    show toInt32 (s.sem.value + 1) ≤ ((s.woken ++ s.sem.queue.head?.toList).length : Int)
    rw [hval]
    -- the queue had a front, and it is on its way back now
    cases hq0 : s.sem.queue with
    | nil => exact absurd (by simp [Semaphore.V, hq0]) hq
    | cons a q =>
        have h1 := h.wakeup (by rw [hq0]; simp)
        simp only [List.head?_cons, Option.toList_some, List.length_append, List.length_singleton]
        push_cast; omega

/-- The value stays an `int`: `V` stops short of the end and `P` goes down. -/
theorem value_le_step {s s' : SemState} {op : SemOp} (h0 : 0 ≤ s.sem.value)
    (h : s.sem.value ≤ intMax) (hg : NoOverflow s op) (hs : s.step op = some s') :
    s'.sem.value ≤ intMax := by
  cases op with
  | P t =>
      simp only [step] at hs
      split at hs
      · exact absurd hs (by simp)
      · have hs' := Option.some.inj hs
        subst hs'
        by_cases hv : s.sem.value = 0
        · rw [Semaphore.P_zero t hv]; exact h
        · rw [Semaphore.P_pos t hv]
          show toInt32 (s.sem.value - 1) ≤ _
          rw [toInt32_of_range (by omega) (by omega)]; omega
  | V =>
      have hlt := hg rfl
      have hs' := Option.some.inj hs
      subst hs'
      show toInt32 (s.sem.value + 1) ≤ _
      rw [toInt32_of_range (by omega) (by omega)]; omega

/--
**Semaphore safety and no lost wake-up.**

In every run in which `V` is not called at the largest `int`, the value is never
negative, it is the initial value plus the `V`s less the completed `P`s, and a
positive value never coexists with only sleeping waiters.
-/
theorem semaphore_safe_of_noOverflow (initial : Int) (h0 : 0 ≤ initial) (hmax : initial ≤ intMax)
    (s : SemState) (h : (sys initial).ReachBy NoOverflow s) : Safe initial s := by
  have hI : Safe initial s ∧ s.sem.value ≤ intMax := by
    refine h.invariant (I := fun s => Safe initial s ∧ s.sem.value ≤ intMax) ?_ ?_
    · intro s hs
      subst hs
      exact ⟨safe_start h0, hmax⟩
    · intro s op s' _ hI hg hst
      refine ⟨?_, value_le_step hI.1.nonneg hI.2 hg hst⟩
      cases op with
      | P t => exact safe_P hI.1 hI.2 hst
      | V => exact safe_V hI.1 (hg rfl) hst
  exact hI.1

/-- Thread 7 sleeps, `V` wakes it, thread 8 takes the unit, 7 queues again. -/
theorem semaphore_safe_stolen_unit : Safe 0 ⟨⟨0, [7]⟩, [], 1, 1⟩ := by
  refine semaphore_safe_of_noOverflow 0 (by decide) (by decide) _ ?_
  exact Base.System.ReachBy.runBy [.P 7, .V, .P 8, .P 7] (.init rfl) (by decide)

/-- At the largest `int`, one `V` makes the value negative. -/
theorem semaphore_value_wraps :
    ¬ ∀ initial, 0 ≤ initial → initial ≤ intMax → ∀ s, (sys initial).Reachable s →
      Safe initial s := by
  intro h
  have hrun : (sys intMax).run (start intMax) [.V] = some ⟨⟨-2147483648, []⟩, [], 0, 1⟩ := by decide
  have hr := Base.System.Reachable.of_run rfl hrun
  have := (h intMax (by decide) (by decide) _ hr).nonneg
  exact absurd this (by decide)

end SemState

end Nachos
