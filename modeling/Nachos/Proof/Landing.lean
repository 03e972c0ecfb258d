import Nachos.Userprog.AddrSpace

/-!
# Where the loops of the constructor put the file

The frames of a new space are the first clear ones, in order, and they are different ones. So
the reads of a loop do not meet, and what it does to memory has a closed form, `landing`: which
byte of the file, if any, the loop of a segment puts at a given place.
-/

namespace Nachos

/-! ## The frames that are handed out -/

/-- The frames the constructor will be given: the first clear ones. -/
def NoffHeader.frames (h : NoffHeader) (b : Bitmap) : List Int :=
  (b.clearBits.take (h.pagesGranted b)).map Int.ofNat

/-- **The table lists the first clear frames in order**, and exactly they are taken. -/
theorem allocPages_spec : ∀ (k i : Nat) (b : Bitmap), k ≤ b.clearBits.length →
    (allocPages i k b).1.map TranslationEntry.physicalPage = (b.clearBits.take k).map Int.ofNat
      ∧ (allocPages i k b).2.numBits = b.numBits
      ∧ ∀ j, (allocPages i k b).2.test j = (b.test j || decide (j ∈ b.clearBits.take k)) := by
  intro k
  induction k with
  | zero => intro i b _; simp [allocPages]
  | succ k ih =>
      intro i b h
      cases hc : b.clearBits with
      | nil => rw [hc] at h; exact absurd h (by simp)
      | cons f fs =>
          have hf : b.findAndSet = ((f : Int), b.mark f) := by rw [Bitmap.findAndSet_eq, hc]
          have hlt : f < b.numBits := (Bitmap.mem_clearBits.mp (hc ▸ List.mem_cons_self)).1
          have hrest := Bitmap.clearBits_mark_head hc
          obtain ⟨h1, h2, h3⟩ := ih (i + 1) (b.mark f) (by
            rw [hrest]; rw [hc] at h; simpa using h)
          rw [hrest] at h1 h3
          refine ⟨?_, ?_, ?_⟩
          · simp only [allocPages, hf, List.map_cons, List.take_succ_cons, h1]
            rfl
          · simp only [allocPages, hf]; exact h2
          · intro j
            simp only [allocPages, hf]
            rw [h3 j, Bitmap.test_mark hlt, List.take_succ_cons]
            by_cases hj : j = f
            · simp [hj]
            · simp [hj]

theorem allocPages_length : ∀ (k i : Nat) (b : Bitmap), (allocPages i k b).1.length = k := by
  intro k
  induction k with
  | zero => intro _ _; rfl
  | succ k ih =>
      intro i b
      simp only [allocPages, List.length_cons, ih (i + 1)]

theorem pagesGranted_le (h : NoffHeader) (b : Bitmap) :
    h.pagesGranted b ≤ b.clearBits.length := by
  unfold NoffHeader.pagesGranted
  rw [Bitmap.numClear_eq]
  split <;> omega

theorem alloc_frames (h : NoffHeader) (b : Bitmap) :
    (h.alloc b).1.map TranslationEntry.physicalPage = h.frames b :=
  (allocPages_spec _ 0 b (pagesGranted_le h b)).1

theorem alloc_length (h : NoffHeader) (b : Bitmap) : (h.alloc b).1.length = h.pagesGranted b :=
  allocPages_length _ 0 b

theorem frames_nodup (h : NoffHeader) (b : Bitmap) : (h.frames b).Nodup :=
  (b.clearBits_nodup.sublist (List.take_sublist _ _)).map (fun _ _ he => Int.ofNat.inj he)

theorem mem_frames {h : NoffHeader} {b : Bitmap} {f : Int} (hf : f ∈ h.frames b) :
    ∃ n : Nat, f = n ∧ n < b.numBits ∧ b.test n = false := by
  obtain ⟨n, hn, rfl⟩ := List.mem_map.mp hf
  exact ⟨n, rfl, Bitmap.mem_clearBits.mp (List.mem_of_mem_take hn)⟩

/-! ## The loops in closed form -/

/-- The offset in the file of the byte that the loop of `seg`, run over `frames` from page `i` on,
puts at `a`; `none` when it leaves that place alone. -/
def landing (file : HostFile) (seg : Segment) (i : Nat) (frames : List Int) (a : Int) :
    Option Nat :=
  (frames.idxOf? ((a - seg.virtualAddr) / pageSize)).bind fun k =>
    let off :=
      (seg.inFileAddr + ((i + k) * pageSize : Nat) + (a - seg.virtualAddr) % pageSize).toNat
    if off < file.length then some off else none

/-- Memory with some places overwritten by bytes of the file. -/
def overlay (file : HostFile) (src : Int → Option Nat) (mem : Memory) : Memory :=
  fun a => ((src a).map fun off => file.getD off 0).getD (mem a)

/-- A read of one page, as the places it reaches. -/
theorem readAt_eq {file : HostFile} {va p pos : Int} {mem : Memory} (hp : 0 ≤ pos) :
    readAt file (va + p * pageSize) pageSize pos mem =
      some fun a =>
        if (a - va) / pageSize = p ∧ (pos + (a - va) % pageSize).toNat < file.length then
          file.getD (pos + (a - va) % pageSize).toNat 0
        else mem a := by
  have hps : (pageSize : Int) = 512 := rfl
  rw [readAt, if_neg (by omega)]
  congr 1
  funext a
  -- both sides speak of the same window of at most a page
  have hwin : (va + p * pageSize ≤ a ∧
      a < va + p * pageSize + (min pageSize (file.length - pos.toNat) : Nat)) ↔
      ((a - va) / pageSize = p ∧ (pos + (a - va) % pageSize).toNat < file.length) := by
    have hpn : pageSize = 512 := rfl
    rw [hps, hpn]
    omega
  by_cases h : (a - va) / pageSize = p ∧ (pos + (a - va) % pageSize).toNat < file.length
  · rw [if_pos (hwin.mpr h), if_pos h]
    have hoff : a - (va + p * pageSize) = (a - va) % pageSize := by rw [hps] at h ⊢; omega
    rw [hoff]
  · rw [if_neg (fun hw => h (hwin.mp hw)), if_neg h]

theorem landing_cons (file : HostFile) (seg : Segment) (i : Nat) (p : Int) (ps : List Int)
    (a : Int) : landing file seg i (p :: ps) a =
      if (a - seg.virtualAddr) / pageSize = p then
        let off := (seg.inFileAddr + (i * pageSize : Nat) + (a - seg.virtualAddr) % pageSize).toNat
        if off < file.length then some off else none
      else landing file seg (i + 1) ps a := by
  unfold landing
  rw [List.idxOf?_cons]
  by_cases hp : (a - seg.virtualAddr) / pageSize = p
  · simp [hp]
  · have hp' : (p == (a - seg.virtualAddr) / pageSize) = false := by
      simpa using fun h : p = _ => hp h.symm
    rw [if_neg hp, hp']
    simp only [Bool.false_eq_true, if_false, Option.bind_map]
    refine congrArg (Option.bind _) (funext fun k => ?_)
    simp only [Function.comp, Nat.add_assoc, Nat.add_comm 1 k]

theorem landing_none_of_not_mem {file : HostFile} {seg : Segment} {i : Nat} {ps : List Int}
    {a : Int} (h : (a - seg.virtualAddr) / pageSize ∉ ps) : landing file seg i ps a = none := by
  unfold landing
  rw [List.idxOf?_eq_none_iff.mpr h]
  rfl

/-- **The loop of a segment, in closed form.** Distinct frames keep its reads apart. -/
theorem loadPages_eq {file : HostFile} {seg : Segment} : ∀ (es : List TranslationEntry) (i : Nat)
    (mem : Memory), (es.map TranslationEntry.physicalPage).Nodup →
    (∀ k, k < es.length → loadPosition seg (i + k) = seg.inFileAddr + ((i + k) * pageSize : Nat)
      ∧ 0 ≤ loadPosition seg (i + k)) →
    loadPages file seg i es mem =
      some (overlay file (landing file seg i (es.map TranslationEntry.physicalPage)) mem) := by
  intro es
  induction es with
  | nil =>
      intro i mem _ _
      simp only [loadPages, List.map_nil]
      congr 1
  | cons e es ih =>
      intro i mem hnd hpos
      obtain ⟨hex, hge⟩ := hpos 0 (by simp)
      rw [Nat.add_zero] at hex hge
      rw [List.map_cons] at hnd ⊢
      have hnotin := (List.nodup_cons.mp hnd).1
      rw [loadPages, readAt_eq hge, Option.bind_some,
        ih (i + 1) _ (List.nodup_cons.mp hnd).2 (by
          intro k hk
          have := hpos (k + 1) (by simpa using hk)
          rwa [show i + (k + 1) = i + 1 + k by omega] at this)]
      congr 1
      funext a
      rw [overlay, overlay, landing_cons, hex]
      by_cases hp : (a - seg.virtualAddr) / pageSize = e.physicalPage
      · -- the page of `e`: no later read comes here
        rw [landing_none_of_not_mem (by rw [hp]; exact hnotin)]
        simp only [hp, true_and, if_true, Option.map_none, Option.getD_none]
        split <;> simp
      · simp [hp]

/-- **A loop runs to its end** when it asks for no negative position, and only then. -/
theorem loadPages_isSome_iff {file : HostFile} {seg : Segment} : ∀ (es : List TranslationEntry)
    (i : Nat) {mem : Memory}, (loadPages file seg i es mem).isSome ↔
      ∀ k, k < es.length → 0 ≤ loadPosition seg (i + k) := by
  intro es
  induction es with
  | nil =>
      intro i mem
      simp [loadPages]
  | cons e es ih =>
      intro i mem
      rw [loadPages, readAt]
      by_cases hneg : loadPosition seg i < 0
      · rw [if_pos hneg]
        constructor
        · intro h
          exact absurd h (by simp)
        · intro h
          have := h 0 (by simp)
          rw [Nat.add_zero] at this
          omega
      · rw [if_neg hneg, Option.bind_some, ih (i + 1)]
        constructor
        · intro h k hk
          cases k with
          | zero => rw [Nat.add_zero]; omega
          | succ k =>
              have := h k (by simpa using hk)
              rwa [show i + 1 + k = i + (k + 1) by omega] at this
        · intro h k hk
          have := h (k + 1) (by simpa using hk)
          rwa [show i + (k + 1) = i + 1 + k by omega] at this

end Nachos
