import Nachos.Proof.Landing
import Nachos.Proof.Table

/-!
# Who owns which frame

The constructor of an address space takes frames out of `gPhysPageBitmap`, and the
destructor gives them back. In between, the bitmap is nothing but the union of the
page tables: every frame that is set is in exactly one of them.

The lock around the allocation plays no part in this. `NumClear` and the loop over
`FindAndSet` run without interruption, and so does the destructor. That is just as
well: a program that does not fit releases `addrLock` twice.

Frames come back once, in the destructor of the PCB. The other call of `FreeSpace`
in `ExitUpdate` is never reached, as `Remove` does not return.
-/

namespace Nachos

open Base (upd upd_self upd_ne upd_apply upd_field)

/-- No frames have been taken yet. -/
def PC.unallocated : PC → Bool
  | .unborn => true
  | .start => true
  | .addrWait _ => true
  | .addrAlloc _ => true
  | _ => false

theorem PC.unallocated_waits {p k : PC} {r : SemRef} (h : p.waits = some (r, k))
    (hk : k.unallocated = true) : p.unallocated = true := by
  cases p <;> simp only [PC.waits, Option.some.injEq, Prod.mk.injEq, reduceCtorEq] at h <;>
    (obtain ⟨rfl, rfl⟩ := h; first | rfl | exact Bool.noConfusion hk)

theorem PC.unallocated_posts {p k : PC} {r : SemRef} (h : p.posts = some (r, k)) :
    k.unallocated = false := by
  cases p <;> simp only [PC.posts, Option.some.injEq, Prod.mk.injEq, reduceCtorEq] at h <;>
    (obtain ⟨rfl, rfl⟩ := h; rfl)

namespace PState

theorem Move.unallocated {s : PState} {u : Uid} {k : PC} (h : Move s u k)
    (hk : k.unallocated = true) : (s.pc u).unallocated = true := by
  cases h with
  | load hpc => rw [hpc]; rfl
  | _ => exact Bool.noConfusion hk

/-- The frames in the page table of a process. -/
def frames (s : PState) (u : Uid) : List Int := (s.table u).map TranslationEntry.physicalPage

/-- Frames and page tables agree. -/
structure FrameInv (s : PState) : Prop where
  /-- One bit for each frame. -/
  numBits : s.phys.numBits = numPhysPages
  /-- Page tables hold frames. -/
  range : ∀ u p, p ∈ s.frames u → 0 ≤ p ∧ p < numPhysPages
  /-- No frame is twice in a table. -/
  nodup : ∀ u, (s.frames u).Nodup
  /-- No frame is in two tables. -/
  apart : ∀ u v p, p ∈ s.frames u → p ∈ s.frames v → u = v
  /-- A frame is set when it is in a table. -/
  union : ∀ f : Nat, f < numPhysPages → (s.phys.test f = true ↔ ∃ u, (f : Int) ∈ s.frames u)
  /-- Only live processes have a page table. -/
  live : ∀ u, s.table u ≠ [] → (s.obj u).alive = true
  /-- Before the frames are taken there is none. -/
  before : ∀ u, (s.pc u).unallocated = true → s.table u = []
  /-- Address spaces go with their PCBs, -/
  gone : ∀ u, u < s.next → (s.obj u).alive = false → s.frees u = 1
  /-- and not before. -/
  kept : ∀ u, s.next ≤ u ∨ (s.obj u).alive = true → s.frees u = 0

theorem FrameInv.of_same {s s' : PState} (h : FrameInv s) (hphys : s'.phys = s.phys)
    (htable : s'.table = s.table) (hfrees : s'.frees = s.frees) (hnext : s'.next = s.next)
    (hobj : ∀ v, (s'.obj v).alive = (s.obj v).alive)
    (hpc : ∀ v, (s'.pc v).unallocated = true → (s.pc v).unallocated = true) : FrameInv s' := by
  have hframes : ∀ v, s'.frames v = s.frames v := fun v => by rw [frames, htable]; rfl
  refine ⟨?_, ?_, ?_, ?_, ?_, ?_, ?_, ?_, ?_⟩
  · rw [hphys]; exact h.numBits
  · intro u p hp; rw [hframes] at hp; exact h.range u p hp
  · intro u; rw [hframes]; exact h.nodup u
  · intro u v p hu hv
    rw [hframes] at hu hv
    exact h.apart u v p hu hv
  · intro f hf
    rw [hphys, h.union f hf]
    simp only [hframes]
  · intro u hu; rw [htable] at hu; rw [hobj]; exact h.live u hu
  · intro u hu; rw [htable]; exact h.before u (hpc u hu)
  · intro u; rw [hfrees, hnext, hobj]; exact h.gone u
  · intro u; rw [hfrees, hnext, hobj]; exact h.kept u

/-- Moving `u` on to `k` does nothing to frames when `k` is not further back. -/
theorem unallocated_upd {s : PState} {u : Uid} {k : PC}
    (hk : k.unallocated = true → (s.pc u).unallocated = true) (v : Uid)
    (hv : (upd s.pc u k v).unallocated = true) : (s.pc v).unallocated = true := by
  rw [upd_apply] at hv
  split at hv
  · rename_i hvu; rw [hvu]; exact hk hv
  · exact hv

/-! ## Taking frames -/

theorem alloc_numBits (h : NoffHeader) (b : Bitmap) : (h.alloc b).2.numBits = b.numBits :=
  (allocPages_spec _ 0 b (pagesGranted_le h b)).2.1

theorem alloc_test (h : NoffHeader) (b : Bitmap) (f : Nat) :
    (h.alloc b).2.test f = true ↔ b.test f = true ∨ (f : Int) ∈ h.frames b := by
  rw [NoffHeader.alloc, (allocPages_spec _ 0 b (pagesGranted_le h b)).2.2 f, Bool.or_eq_true,
    decide_eq_true_iff]
  have hmem : (f : Int) ∈ h.frames b ↔ f ∈ b.clearBits.take (h.pagesGranted b) := by
    rw [NoffHeader.frames, List.mem_map]
    constructor
    · rintro ⟨n, hn, he⟩; rw [← Int.ofNat.inj he]; exact hn
    · intro hf; exact ⟨f, hf, rfl⟩
  rw [hmem]

theorem frameInv_allocate {s : PState} {u : Uid} {hd : NoffHeader} (ht : TableInv s)
    (h : FrameInv s) (hpc : s.pc u = .addrAlloc hd) : FrameInv (s.allocate u hd) := by
  have hau : (s.obj u).alive = true := ht.active u (by rw [hpc]; rfl)
  have hempty : s.frames u = [] := by
    rw [frames, h.before u (by rw [hpc]; rfl)]; rfl
  have hself : (s.allocate u hd).frames u = hd.frames s.phys := by
    rw [frames, allocate_table, if_pos rfl, alloc_frames]
  have hother : ∀ v, v ≠ u → (s.allocate u hd).frames v = s.frames v := by
    intro v hv
    rw [frames, allocate_table, if_neg hv]; rfl
  -- new frames were clear, so nobody has them
  have hnew : ∀ p, p ∈ hd.frames s.phys → ∀ v, p ∉ s.frames v := by
    intro p hp v hv
    obtain ⟨n, rfl, hn, hclear⟩ := mem_frames hp
    rw [h.numBits] at hn
    rw [(h.union n hn).mpr ⟨v, hv⟩] at hclear
    exact Bool.noConfusion hclear
  have hcases : ∀ v p, p ∈ (s.allocate u hd).frames v →
      (v = u ∧ p ∈ hd.frames s.phys) ∨ (v ≠ u ∧ p ∈ s.frames v) := by
    intro v p hp
    by_cases hvu : v = u
    · rw [hvu, hself] at hp; exact .inl ⟨hvu, hp⟩
    · rw [hother v hvu] at hp; exact .inr ⟨hvu, hp⟩
  refine ⟨?_, ?_, ?_, ?_, ?_, ?_, ?_, h.gone, h.kept⟩
  · exact (alloc_numBits hd s.phys).trans h.numBits
  · intro v p hp
    rcases hcases v p hp with ⟨_, hp'⟩ | ⟨_, hp'⟩
    · obtain ⟨n, rfl, hn, _⟩ := mem_frames hp'
      rw [h.numBits] at hn
      exact ⟨Int.natCast_nonneg n, Int.ofNat_lt.mpr hn⟩
    · exact h.range v p hp'
  · intro v
    by_cases hvu : v = u
    · rw [hvu, hself]; exact frames_nodup hd s.phys
    · rw [hother v hvu]; exact h.nodup v
  · -- apart: a frame is old in both, or new in both
    intro v w p hv hw
    rcases hcases v p hv with ⟨rfl, hv'⟩ | ⟨_, hv'⟩ <;>
      rcases hcases w p hw with ⟨rfl, hw'⟩ | ⟨_, hw'⟩
    · rfl
    · exact absurd hw' (hnew p hv' w)
    · exact absurd hv' (hnew p hw' v)
    · exact h.apart v w p hv' hw'
  · -- the bits set are the old frames and the new ones
    intro f hf
    show (hd.alloc s.phys).2.test f = true ↔ _
    rw [alloc_test, h.union f hf]
    constructor
    · rintro (⟨v, hv⟩ | hv)
      · have hvu : v ≠ u := fun he => by rw [he, hempty] at hv; exact absurd hv (by simp)
        exact ⟨v, by rw [hother v hvu]; exact hv⟩
      · exact ⟨u, by rw [hself]; exact hv⟩
    · rintro ⟨v, hv⟩
      rcases hcases v _ hv with ⟨_, hv'⟩ | ⟨_, hv'⟩
      · exact .inr hv'
      · exact .inl ⟨v, hv'⟩
  · intro v hv
    by_cases hvu : v = u
    · rw [hvu]; exact hau
    · exact h.live v (by rwa [allocate_table, if_neg hvu] at hv)
  · intro v hv
    have hvu : v ≠ u := by
      intro he
      rw [he, allocate_pc, if_pos rfl] at hv
      split at hv <;> exact Bool.noConfusion hv
    rw [allocate_pc, if_neg hvu] at hv
    rw [allocate_table, if_neg hvu]
    exact h.before v hv

/-! ## Giving them back -/

theorem clearFrames_spec : ∀ (t : List TranslationEntry) (b : Bitmap),
    (∀ e ∈ t, 0 ≤ e.physicalPage ∧ e.physicalPage < b.numBits) →
    (clearFrames b t).numBits = b.numBits ∧ ∀ f : Nat, ((clearFrames b t).test f = true ↔
      b.test f = true ∧ (f : Int) ∉ t.map TranslationEntry.physicalPage) := by
  intro t
  induction t with
  | nil => intro b _; exact ⟨rfl, fun f => by simp [clearFrames]⟩
  | cons e t ih =>
      intro b h
      obtain ⟨h0, h1⟩ := h e List.mem_cons_self
      obtain ⟨hn, ht⟩ := ih (b.clear e.physicalPage.toNat)
        (fun e' he' => h e' (List.mem_cons_of_mem _ he'))
      refine ⟨hn, fun f => ?_⟩
      show (clearFrames (b.clear e.physicalPage.toNat) t).test f = true ↔ _
      rw [ht f, Bitmap.test_clear (by omega), List.map_cons, List.mem_cons]
      have heq : f = e.physicalPage.toNat ↔ (f : Int) = e.physicalPage := by omega
      simp only [Bool.and_eq_true, Bool.not_eq_true', decide_eq_false_iff_not, heq]
      constructor
      · rintro ⟨⟨h2, h3⟩, h4⟩; exact ⟨h3, fun h5 => h5.elim h2 h4⟩
      · rintro ⟨h3, h4⟩; exact ⟨⟨fun h5 => h4 (.inl h5), h3⟩, fun h5 => h4 (.inr h5)⟩

/-- What the destructor of the PCB leaves of the bitmap. -/
theorem delete_phys_spec {s : PState} (h : FrameInv s) (u : Uid) (i : Nat) :
    (s.delete u i).phys.numBits = s.phys.numBits ∧ ∀ f : Nat,
      ((s.delete u i).phys.test f = true ↔ s.phys.test f = true ∧ (f : Int) ∉ s.frames u) := by
  refine clearFrames_spec (s.table u) s.phys fun e he => ?_
  rw [h.numBits]
  exact h.range u _ (List.mem_map_of_mem he)

theorem frameInv_delete {s : PState} {u : Uid} (ht : TableInv s) (h : FrameInv s)
    (hpc : s.pc u = .exitRemove) : FrameInv (s.delete u (s.obj u).pid) := by
  have hau : (s.obj u).alive = true := ht.active u (by rw [hpc]; rfl)
  have hself : (s.delete u (s.obj u).pid).frames u = [] := by
    rw [frames, delete_table, if_pos rfl]; rfl
  have hother : ∀ v, v ≠ u → (s.delete u (s.obj u).pid).frames v = s.frames v := by
    intro v hv
    rw [frames, delete_table, if_neg hv]; rfl
  have hcases : ∀ v p, p ∈ (s.delete u (s.obj u).pid).frames v → v ≠ u ∧ p ∈ s.frames v := by
    intro v p hp
    have hvu : v ≠ u := fun he => by rw [he, hself] at hp; exact absurd hp (by simp)
    rw [hother v hvu] at hp
    exact ⟨hvu, hp⟩
  obtain ⟨hnum, htest⟩ := delete_phys_spec h u (s.obj u).pid
  refine ⟨hnum.trans h.numBits, ?_, ?_, ?_, ?_, ?_, ?_, ?_, ?_⟩
  · intro v p hp; exact h.range v p (hcases v p hp).2
  · intro v
    by_cases hvu : v = u
    · rw [hvu, hself]; exact List.nodup_nil
    · rw [hother v hvu]; exact h.nodup v
  · intro v w p hv hw; exact h.apart v w p (hcases v p hv).2 (hcases w p hw).2
  · -- nobody else has a frame that was given back
    intro f hf
    rw [htest f, h.union f hf]
    constructor
    · rintro ⟨⟨v, hv⟩, hno⟩
      have hvu : v ≠ u := fun he => hno (he ▸ hv)
      exact ⟨v, by rw [hother v hvu]; exact hv⟩
    · rintro ⟨v, hv⟩
      obtain ⟨hvu, hv'⟩ := hcases v _ hv
      exact ⟨⟨v, hv'⟩, fun hu => hvu (h.apart v u _ hv' hu)⟩
  · intro v hv
    have hvu : v ≠ u := fun he => hv (by rw [he, delete_table, if_pos rfl])
    rw [delete_table, if_neg hvu] at hv
    rw [delete_obj_ne _ _ _ _ hvu]
    exact h.live v hv
  · intro v hv
    by_cases hvu : v = u
    · rw [delete_table, if_pos hvu]
    · rw [delete_pc, if_neg hvu] at hv
      rw [delete_table, if_neg hvu]
      exact h.before v hv
  · intro v hlt hv
    by_cases hvu : v = u
    · rw [hvu, delete_frees, if_pos rfl, h.kept u (.inr hau)]
    · rw [delete_obj_ne _ _ _ _ hvu] at hv
      rw [delete_frees, if_neg hvu]
      exact h.gone v hlt hv
  · intro v hv
    have hvu : v ≠ u := by
      intro he
      rw [he, delete_obj_self] at hv
      rcases hv with hv | hv
      · exact Nat.not_lt.mpr hv (ht.lt_next hau)
      · exact Bool.noConfusion hv
    rw [delete_obj_ne _ _ _ _ hvu] at hv
    rw [delete_frees, if_neg hvu]
    exact h.kept v hv

/-! ## Whole runs -/

theorem frameInv_create {s : PState} (u : Uid) (id : Nat) (h : FrameInv s) :
    FrameInv (s.create u id (s.bm.mark id)) := by
  have hobj : ∀ v, v ≠ s.next → (s.create u id (s.bm.mark id)).obj v = s.obj v :=
    fun v hv => create_obj_ne _ _ _ _ _ hv
  refine ⟨h.numBits, h.range, h.nodup, h.apart, h.union, ?_, ?_, ?_, ?_⟩
  · intro v hv
    by_cases hvn : v = s.next
    · rw [hvn, create_obj_self]
    · rw [hobj v hvn]; exact h.live v hv
  · intro v hv
    have hvu : v ≠ u := by
      intro he
      rw [he, create_pc, if_pos rfl] at hv
      exact Bool.noConfusion hv
    rw [create_pc, if_neg hvu] at hv
    exact h.before v hv
  · intro v hlt hv
    have hvn : v ≠ s.next := by
      intro he
      rw [he, create_obj_self] at hv
      exact Bool.noConfusion hv
    rw [hobj v hvn] at hv
    exact h.gone v (Nat.lt_of_le_of_ne (Nat.le_of_lt_succ hlt) hvn) hv
  · intro v hv
    by_cases hvn : v = s.next
    · exact h.kept v (.inl (Nat.le_of_eq hvn.symm))
    · rw [hobj v hvn] at hv
      rcases hv with hv | hv
      · exact h.kept v (.inl (Nat.le_of_succ_le hv))
      · exact h.kept v (.inr hv)

/-- **Every step keeps frames and page tables in agreement.** -/
theorem frameInv_step {s s' : PState} {u : Uid} (ht : TableInv s) (h : FrameInv s)
    (he : Effect s u s') : FrameInv s' := by
  cases he with
  | pass hw _ _ =>
      exact h.of_same rfl rfl rfl rfl (fun _ => rfl) (unallocated_upd (PC.unallocated_waits hw))
  | sleep _ _ _ => exact h.of_same rfl rfl rfl rfl (fun _ => rfl) (fun _ hv => hv)
  | post hp =>
      refine h.of_same rfl rfl rfl rfl (fun _ => rfl) (unallocated_upd fun hk => ?_)
      rw [PC.unallocated_posts hp] at hk
      exact Bool.noConfusion hk
  | stop => exact h.of_same rfl rfl rfl rfl (fun _ => rfl) (fun _ hv => hv)
  | move hm => exact h.of_same rfl rfl rfl rfl (fun _ => rfl) (unallocated_upd hm.unallocated)
  | allocate hpc => exact frameInv_allocate ht h hpc
  | @create n id _ _ _ _ => exact frameInv_create u id h
  | @fork id o hpc =>
      refine h.of_same rfl rfl rfl rfl (fun _ => rfl) fun v hv => ?_
      rw [fork_pc] at hv
      split at hv
      · exact Bool.noConfusion hv
      split at hv
      · rename_i hvo
        rw [hvo, (ht.target u o (by rw [hpc]; rfl)).2]
        rfl
      · exact hv
  | join _ _ _ _ _ _ _ =>
      exact h.of_same rfl rfl rfl rfl (fun _ => rfl) (unallocated_upd fun hk => Bool.noConfusion hk)
  | @numWait n o k hk =>
      refine h.of_same rfl rfl rfl rfl (fun v => ?_) (unallocated_upd fun hu => ?_)
      · exact upd_field PCB.alive (by rfl) v
      · rcases hk with ⟨_, _, _, rfl⟩ | ⟨_, rfl⟩ <;> exact Bool.noConfusion hu
  | @exit ret e me o _ _ _ _ =>
      refine h.of_same rfl rfl rfl rfl (fun v => ?_) (unallocated_upd fun hk => Bool.noConfusion hk)
      exact upd_field PCB.alive (by rfl) v
  | delete hpc _ _ => exact frameInv_delete ht h hpc
  | keep hpc htest => exact (ht.not_keep hpc htest).elim

theorem numBits_freeFrames : freeFrames.numBits = numPhysPages := Bitmap.numBits_new _ _

theorem test_freeFrames (f : Nat) : freeFrames.test f = false := Bitmap.test_new _ _ f

theorem boot_table (hd : NoffHeader) (v : Uid) :
    (boot hd).table v = if v = 0 then (hd.alloc freeFrames).1 else [] := rfl

theorem boot_phys (hd : NoffHeader) : (boot hd).phys = (hd.alloc freeFrames).2 := by
  simp only [boot]

theorem frameInv_boot (hd : NoffHeader) : FrameInv (boot hd) := by
  have hself : (boot hd).frames 0 = hd.frames freeFrames := by
    rw [frames, boot_table, if_pos rfl, alloc_frames]
  have hother : ∀ v, v ≠ 0 → (boot hd).table v = [] := by
    intro v hv
    rw [boot_table, if_neg hv]
  have hcases : ∀ v p, p ∈ (boot hd).frames v →
      v = 0 ∧ p ∈ hd.frames freeFrames := by
    intro v p hp
    by_cases hv : v = 0
    · rw [hv, hself] at hp; exact ⟨hv, hp⟩
    · rw [frames, hother v hv] at hp; exact absurd hp (by simp)
  refine ⟨?_, ?_, ?_, ?_, ?_, ?_, ?_, ?_, ?_⟩
  · rw [boot_phys, alloc_numBits, numBits_freeFrames]
  · intro v p hp
    obtain ⟨n, rfl, hn, _⟩ := mem_frames (hcases v p hp).2
    rw [numBits_freeFrames] at hn
    exact ⟨Int.natCast_nonneg n, Int.ofNat_lt.mpr hn⟩
  · intro v
    by_cases hv : v = 0
    · rw [hv, hself]; exact frames_nodup hd _
    · rw [frames, hother v hv]; exact List.nodup_nil
  · intro v w p hv hw; rw [(hcases v p hv).1, (hcases w p hw).1]
  · intro f _
    rw [boot_phys, alloc_test, test_freeFrames]
    constructor
    · rintro (hf | hf)
      · exact Bool.noConfusion hf
      · exact ⟨0, by rw [hself]; exact hf⟩
    · rintro ⟨v, hv⟩; exact .inr (hcases v _ hv).2
  · intro v hv
    have hv0 : v = 0 := by
      by_contra hne
      exact hv (hother v hne)
    rw [hv0]; rfl
  · intro v hv
    refine hother v fun he => ?_
    rw [he] at hv
    exact Bool.noConfusion hv
  · intro v hlt hv
    replace hlt : v < 1 := hlt
    rw [Nat.lt_one_iff.mp hlt] at hv
    exact Bool.noConfusion hv
  · intro v _; rfl

theorem frameInv_reachable {s : PState} (h : sys.Reachable s) : FrameInv s := by
  refine inv_reachBy h frameInv_boot ?_
  intro s s' u a hr hI _ hst
  exact frameInv_step (tableInv_reachable hr) hI (step_effect hst)

/-- Who owns which frame, and when frames come back. -/
structure FrameOwnership (s : PState) : Prop where
  /-- Page tables hold frames. -/
  range : ∀ u p, p ∈ s.frames u → 0 ≤ p ∧ p < numPhysPages
  /-- No frame is twice in a table. -/
  nodup : ∀ u, (s.frames u).Nodup
  /-- No frame is in two tables. -/
  apart : ∀ u v p, p ∈ s.frames u → p ∈ s.frames v → u = v
  /-- The bits that are set are exactly the frames in the tables of live processes. -/
  union : ∀ f : Nat, f < numPhysPages →
    (s.phys.test f = true ↔ ∃ u, (s.obj u).alive = true ∧ (f : Int) ∈ s.frames u)
  /-- The address space of a live process was never deleted. -/
  live : ∀ u, (s.obj u).alive = true → s.frees u = 0
  /-- That of a process whose PCB was removed was deleted once. -/
  gone : ∀ u, u < s.next → (s.obj u).alive = false → s.frees u = 1 ∧ s.frames u = []

/-- A step gives frames back only by removing the PCB of the process that takes it. -/
structure FramesReturned (s : PState) (u : Uid) (s' : PState) : Prop where
  /-- A bit that is cleared belonged to that process, which is gone after the step. -/
  cleared : ∀ f : Nat, f < numPhysPages → s.phys.test f = true → s'.phys.test f = false →
    (f : Int) ∈ s.frames u ∧ (s.obj u).alive = true ∧ (s'.obj u).alive = false
  /-- A process that is gone after the step has given all its frames back. -/
  all : ∀ v, (s.obj v).alive = true → (s'.obj v).alive = false →
    v = u ∧ s'.frees v = s.frees v + 1 ∧ ∀ f : Nat, (f : Int) ∈ s.frames v → s'.phys.test f = false

theorem framesReturned_step {s s' : PState} {u : Uid} (ht : TableInv s) (h : FrameInv s)
    (he : Effect s u s') : FramesReturned s u s' := by
  -- only the removal of a PCB clears a bit or kills a process
  have hsame : s'.phys = s.phys → (∀ v, (s.obj v).alive = true → (s'.obj v).alive = true) →
      FramesReturned s u s' := by
    intro hp ho
    refine ⟨fun f _ h1 h2 => ?_, fun v h1 h2 => ?_⟩
    · rw [hp, h1] at h2; exact Bool.noConfusion h2
    · rw [ho v h1] at h2; exact Bool.noConfusion h2
  cases he with
  | pass => exact hsame rfl (fun _ hv => hv)
  | sleep => exact hsame rfl (fun _ hv => hv)
  | post => exact hsame rfl (fun _ hv => hv)
  | stop => exact hsame rfl (fun _ hv => hv)
  | move => exact hsame rfl (fun _ hv => hv)
  | @allocate hd hpc =>
      refine ⟨fun f _ h1 h2 => ?_, fun v h1 h2 => ?_⟩
      · replace h2 : (hd.alloc s.phys).2.test f = false := h2
        rw [(alloc_test hd s.phys f).mpr (.inl h1)] at h2; exact Bool.noConfusion h2
      · rw [show ((s.allocate u hd).obj v).alive = _ from h1] at h2; exact Bool.noConfusion h2
  | create hpc =>
      refine hsame rfl fun v hv => ?_
      rw [create_obj_ne _ _ _ _ _ (Nat.ne_of_lt (ht.lt_next hv))]; exact hv
  | fork => exact hsame rfl (fun _ hv => hv)
  | join => exact hsame rfl (fun _ hv => hv)
  | @numWait n o k hk =>
      refine hsame rfl fun v hv => ?_
      exact (upd_field PCB.alive (by rfl) v).trans hv
  | @exit ret e me o =>
      refine hsame rfl fun v hv => ?_
      exact (upd_field PCB.alive (by rfl) v).trans hv
  | delete hpc =>
      have hau : (s.obj u).alive = true := ht.active u (by rw [hpc]; rfl)
      obtain ⟨_, htest⟩ := delete_phys_spec h u (s.obj u).pid
      refine ⟨fun f _ h1 h2 => ?_, fun v h1 h2 => ?_⟩
      · refine ⟨?_, hau, by rw [delete_obj_self]⟩
        by_contra hno
        rw [(htest f).mpr ⟨h1, hno⟩] at h2
        exact Bool.noConfusion h2
      · have hvu : v = u := by
          by_contra hne
          rw [delete_obj_ne _ _ _ _ hne, h1] at h2
          exact Bool.noConfusion h2
        subst hvu
        refine ⟨rfl, by rw [delete_frees, if_pos rfl], fun f hf => ?_⟩
        by_contra hno
        exact ((htest f).mp (by simpa using hno)).2 hf
  | keep hpc htest => exact (ht.not_keep hpc htest).elim

/--
**Frame ownership.**

In every state that any interleaving of `Exec`, process starts and `Exit` reaches, the page tables
of live processes are pairwise disjoint, lie in physical memory and make up exactly what is set in
`gPhysPageBitmap`; and frames are cleared once, by the step that removes the PCB.
-/
theorem frame_ownership (s : PState) (h : sys.Reachable s) :
    FrameOwnership s ∧ ∀ u a s', s.step (u, a) = some s' → FramesReturned s u s' := by
  have hT := tableInv_reachable h
  have hI := frameInv_reachable h
  refine ⟨⟨hI.range, hI.nodup, hI.apart, ?_, ?_, ?_⟩, ?_⟩
  · intro f hf
    rw [hI.union f hf]
    constructor
    · rintro ⟨u, hu⟩
      refine ⟨u, hI.live u fun he => ?_, hu⟩
      rw [frames, he] at hu
      exact absurd hu (by simp)
    · rintro ⟨u, _, hu⟩; exact ⟨u, hu⟩
  · intro u hu; exact hI.kept u (.inr hu)
  · intro u hlt hu
    refine ⟨hI.gone u hlt hu, ?_⟩
    have hnil : s.table u = [] := by
      by_contra hne
      rw [hI.live u hne] at hu
      exact Bool.noConfusion hu
    rw [frames, hnil]; rfl
  · intro u a s' hs; exact framesReturned_step hT hI (step_effect hs)

/-- The initial process and one child, two frames each. -/
theorem frame_ownership_exec : ∃ s, sys.Reachable s ∧ s.frames 0 = [0, 1] ∧ s.frames 1 = [2, 3]
    ∧ FrameOwnership s := by
  obtain ⟨s, hr, hf⟩ := reachable_of_run (f := fun s => (s.frames 0, s.frames 1))
    (x := ([0, 1], [2, 3])) (execRun 0 "child" ++ startRun 1) (by decide +kernel)
  injection hf with h0 h1
  exact ⟨s, hr, h0, h1, (frame_ownership s hr).1⟩

end PState

end Nachos
