import Nachos.Filesys.SynchDisk
import Nachos.Proof.Disk
import Mathlib.Data.List.Induction

/-!
# The synchronous disk is a disk

Whoever holds the lock is the only one the device knows of: the flag, the interrupt that is
scheduled and the unit on `semaphore` are all about its request, and between two holders there is
nothing left of any of them. So no request meets a busy disk, nobody goes on for somebody else's
interrupt, and what a call does to the sectors it does in its place in the order of the lock.
-/

namespace Nachos.Filesys

open Base (upd upd_self upd_ne blit blit_zero Exclusive bind_eq_of_ok)

/-! ## Calls one after the other -/

/-- The disk after the calls, one after the other. -/
def after (d : Disk) (log : List DiskCall) : Disk := log.foldl (fun d c => (c.transfer d).2) d

theorem after_append (d : Disk) (log : List DiskCall) (c : DiskCall) :
    after d (log ++ [c]) = (c.transfer (after d log)).2 := by
  unfold after
  rw [List.foldl_append]
  rfl

/-- A call in its place among the others: what it leaves in the buffer. -/
def answer (d : Disk) (log : List DiskCall) (c : DiskCall) : Nat → UInt8 :=
  (c.transfer (after d log)).1

/-- What a call writes to sector `i`. -/
def DiskCall.writes (i : Int) : DiskCall → Option (Nat → UInt8)
  | .readSector _ => none
  | .writeSector j data => if j = i then some data else none

/-- The data that was last written to sector `i`, if it was written to at all. -/
def lastWrite (i : Int) : List DiskCall → Option (Nat → UInt8)
  | [] => none
  | c :: cs => (lastWrite i cs).or (c.writes i)

theorem lastWrite_append (i : Int) (log : List DiskCall) (c : DiskCall) :
    lastWrite i (log ++ [c]) = (c.writes i).or (lastWrite i log) := by
  induction log with
  | nil => simp [lastWrite]
  | cons a log ih =>
      rw [List.cons_append, lastWrite, ih, lastWrite, Option.or_assoc]

/-- The sector number of a call is one of the disk's. -/
def DiskCall.InRange (c : DiskCall) : Prop := 0 ≤ c.sectorNumber ∧ c.sectorNumber < numSectors

instance (c : DiskCall) : Decidable c.InRange :=
  inferInstanceAs (Decidable (0 ≤ c.sectorNumber ∧ c.sectorNumber < numSectors))

/-- **A sector holds what was last written to it.** -/
theorem after_eq (d : Disk) {i : Int} (hi : 0 ≤ i) {k : Nat} (hk : k < sectorSize)
    (log : List DiskCall) (h : ∀ c ∈ log, c.InRange) :
    after d log i.toNat k = ((lastWrite i log).getD (d i.toNat)) k := by
  induction log using List.reverseRecOn with
  | nil => rfl
  | append_singleton log c ih =>
      have ih' := ih fun c' hc' => h c' (List.mem_append_left _ hc')
      have hc := h c (by simp)
      rw [after_append, lastWrite_append]
      cases c with
      | readSector j => exact ih'
      | writeSector j data =>
          show upd (after d log) j.toNat (blit (after d log j.toNat) 0 sectorSize data) i.toNat k =
            _
          dsimp only [DiskCall.writes]
          by_cases hij : j = i
          · rw [hij, upd_self, if_pos rfl, blit_zero _ _ hk]
            rfl
          · have hne : i.toNat ≠ j.toNat := by
              have hj : 0 ≤ j := hc.1
              omega
            rw [upd_ne _ _ hne, if_neg hij, ih']
            rfl

/-! ## The invariant -/

namespace SynchDiskPC

/-- Past the `P` of the lock and not past its `V`. -/
def holds : SynchDiskPC → Bool
  | out => false
  | acquire _ => false
  | _ => true

/-- The call that has still to get to the disk. -/
def toCome : SynchDiskPC → Option DiskCall
  | acquire c => some c
  | request _ c => some c
  | _ => none

end SynchDiskPC

namespace SynchDisk

/-- Nothing is going on at the device. -/
structure Rest (s : SynchDisk) : Prop where
  value : s.semaphore.value = 0
  pending : s.pending = []
  active : s.active = false

/-- Call `n` was the last to get the lock, and it has been at the disk. -/
structure Made (d : Disk) (s : SynchDisk) (n : Nat) (c : DiskCall) (data : Nat → UInt8) : Prop where
  last : s.acquired = s.acquired.take n ++ [c]
  disk : s.disk = after d s.acquired
  data : data = answer d (s.acquired.take n) c

/-- What is the case while a thread is at a point inside the lock. -/
def Phase (d : Disk) (s : SynchDisk) : SynchDiskPC → Prop
  | .request n c =>
      s.Rest ∧ s.acquired = s.acquired.take n ++ [c] ∧ s.disk = after d (s.acquired.take n)
  | .wait n c data =>
      s.Made d n c data ∧
        ((s.semaphore.value = 0 ∧ s.pending = [n] ∧ s.active = true) ∨
          (s.semaphore.value = 1 ∧ s.pending = [] ∧ s.active = false ∧ n ∈ s.completed))
  | .release n c data => s.Made d n c data ∧ s.Rest ∧ n ∈ s.completed
  | _ => True

/-- A call that has returned: its interrupt has come, and the buffer holds what it should. -/
structure Kept (d : Disk) (s : SynchDisk) (r : DiskReturn) : Prop where
  completed : r.number ∈ s.completed
  acquired : s.acquired[r.number]? = some r.call
  data : r.data = answer d (s.acquired.take r.number) r.call

/-- What holds at every moment. -/
structure Inv (d : Disk) (s : SynchDisk) : Prop where
  lock : Exclusive s.lock.value (fun t => (s.pc t).holds = true)
  /-- While nobody holds the lock. -/
  free : (∀ t, (s.pc t).holds = false) → s.Rest ∧ s.disk = after d s.acquired
  phase : ∀ t, Phase d s (s.pc t)
  toCome : ∀ t, ∀ c ∈ (s.pc t).toCome, c.InRange
  acquired : ∀ c ∈ s.acquired, c.InRange
  returned : ∀ r ∈ s.returned, Kept d s r
  sound : s.aborted = false

variable {d : Disk} {s s' : SynchDisk} {t n : Nat} {c : DiskCall} {data : Nat → UInt8}

theorem inv_new (d : Disk) : Inv d (new d) where
  lock := Or.inl ⟨rfl, fun t => by simp [new, SynchDiskPC.holds]⟩
  free := fun _ => ⟨⟨rfl, rfl, rfl⟩, rfl⟩
  phase := fun _ => trivial
  toCome := by intro t c hc; simp [new, SynchDiskPC.toCome] at hc
  acquired := by intro c hc; simp [new] at hc
  returned := by intro r hr; simp [new] at hr
  sound := rfl

theorem phase_outside {p : SynchDiskPC} (h : p.holds = false) : Phase d s p := by
  cases p with
  | out => trivial
  | acquire _ => trivial
  | _ => exact absurd h (by simp [SynchDiskPC.holds])

/-- The device, and the record of what it has done, are as they were. -/
structure Same (s s' : SynchDisk) : Prop where
  value : s'.semaphore.value = s.semaphore.value
  pending : s'.pending = s.pending
  active : s'.active = s.active
  disk : s'.disk = s.disk
  acquired : s'.acquired = s.acquired
  completed : s'.completed = s.completed

theorem Same.rest (h : Same s s') (hr : s.Rest) : s'.Rest :=
  ⟨h.value.trans hr.value, h.pending.trans hr.pending, h.active.trans hr.active⟩

theorem Same.made (h : Same s s') (hm : s.Made d n c data) : s'.Made d n c data := by
  refine ⟨?_, ?_, ?_⟩
  · rw [h.acquired]; exact hm.last
  · rw [h.disk, h.acquired]; exact hm.disk
  · rw [h.acquired]; exact hm.data

theorem Same.phase (h : Same s s') {p : SynchDiskPC} (hp : Phase d s p) : Phase d s' p := by
  cases p with
  | out => trivial
  | acquire _ => trivial
  | request n c =>
      obtain ⟨hr, ha, hd⟩ := hp
      refine ⟨h.rest hr, ?_, ?_⟩
      · rw [h.acquired]; exact ha
      · rw [h.acquired, h.disk]; exact hd
  | wait n c data =>
      obtain ⟨hm, hw⟩ := hp
      refine ⟨h.made hm, ?_⟩
      rw [h.value, h.pending, h.active, h.completed]
      exact hw
  | release n c data =>
      obtain ⟨hm, hr, hc⟩ := hp
      refine ⟨h.made hm, h.rest hr, ?_⟩
      rw [h.completed]; exact hc

/-- What a call that has returned has done stays, whatever comes later. -/
theorem Kept.later {r : DiskReturn} (h : Kept d s r) {log : List DiskCall} {done : List Nat}
    (hlog : s'.acquired = s.acquired ++ log) (hdone : s'.completed = s.completed ++ done) :
    Kept d s' r := by
  have hlt : r.number < s.acquired.length := (List.getElem?_eq_some_iff.mp h.acquired).1
  refine ⟨?_, ?_, ?_⟩
  · rw [hdone]
    exact List.mem_append_left _ h.completed
  · rw [hlog, List.getElem?_append_left hlt]
    exact h.acquired
  · rw [hlog, List.take_append_of_le_length (Nat.le_of_lt hlt)]
    exact h.data

theorem Inv.kept (h : Inv d s) (hlog : s'.acquired = s.acquired)
    (hdone : s'.completed = s.completed) : ∀ r ∈ s.returned, Kept d s' r := fun r hr =>
  (h.returned r hr).later (hlog.trans (List.append_nil _).symm)
    (hdone.trans (List.append_nil _).symm)

/-- A thread that goes to sleep changes a queue, and nothing that counts. -/
theorem Inv.asleep (h : Inv d s) (hs : Same s s') (hlock : s'.lock.value = s.lock.value)
    (hpc : s'.pc = s.pc) (hret : s'.returned = s.returned) (hab : s'.aborted = s.aborted) :
    Inv d s' where
  lock := by rw [hlock, hpc]; exact h.lock
  free := by
    intro hf
    rw [hpc] at hf
    obtain ⟨hr, hd⟩ := h.free hf
    exact ⟨hs.rest hr, by rw [hs.disk, hs.acquired]; exact hd⟩
  phase := by
    intro t
    rw [hpc]
    exact hs.phase (h.phase t)
  toCome := by rw [hpc]; exact h.toCome
  acquired := by rw [hs.acquired]; exact h.acquired
  returned := by rw [hret]; exact h.kept hs.acquired hs.completed
  sound := hab.trans h.sound

/-- While one thread holds the lock, the others have nothing to say of the device. -/
theorem Inv.phase_of_holder (h : Inv d s) (ht : (s.pc t).holds = true) {k : SynchDiskPC}
    (hk : Phase d s' k) : ∀ u, Phase d s' (upd s.pc t k u) := by
  refine Base.forall_upd (P := fun _ q => Phase d s' q) hk fun u hu => phase_outside ?_
  cases hh : (s.pc u).holds with
  | false => rfl
  | true => exact absurd (h.lock.unique hh ht) hu

theorem Inv.toCome_upd (h : Inv d s) {k : SynchDiskPC}
    (hk : ∀ c ∈ k.toCome, c.InRange) : ∀ u, ∀ c ∈ (upd s.pc t k u).toCome, c.InRange := by
  intro u c hc
  by_cases hu : u = t
  · rw [hu, upd_self] at hc
    exact hk c hc
  · rw [upd_ne _ _ hu] at hc
    exact h.toCome u c hc

theorem last_number {log : List DiskCall} (h : log = log.take n ++ [c]) :
    n + 1 = log.length ∧ log[n]? = some c := by
  have hlen := congrArg List.length h
  rw [List.length_append, List.length_take, List.length_singleton] at hlen
  have hn : n + 1 = log.length := by omega
  refine ⟨hn, ?_⟩
  rw [h, List.getElem?_append_right (by simp)]
  have hz : n - (log.take n).length = 0 := by
    rw [List.length_take]
    omega
  rw [hz]
  rfl

/-! ## Every step keeps it -/

/-- A pass of the `P` of the lock. -/
theorem inv_acquire (h : Inv d s) (hpc : s.pc t = .acquire c) (hs : s.acquire t c = some s') :
    Inv d s' := by
  unfold acquire at hs
  split at hs
  · exact absurd hs (by simp)
  dsimp only at hs
  by_cases hv : s.lock.value = 0
  · rw [Semaphore.P_zero t hv, if_neg (by simp)] at hs
    obtain rfl := Option.some.inj hs
    exact h.asleep ⟨rfl, rfl, rfl, rfl, rfl, rfl⟩ rfl rfl rfl rfl
  · rw [Semaphore.P_pos t hv, if_pos rfl] at hs
    obtain rfl := Option.some.inj hs
    -- the lock was free
    obtain ⟨h1, hno⟩ : s.lock.value = 1 ∧ ∀ a, (s.pc a).holds = false := by
      rcases h.lock with ⟨h1, hno⟩ | ⟨h0, _⟩
      · exact ⟨h1, fun a => by simpa using hno a⟩
      · exact absurd h0 hv
    obtain ⟨hrest, hdisk⟩ := h.free hno
    have hc : c.InRange := h.toCome t c (by rw [hpc]; rfl)
    have htake : (s.acquired ++ [c]).take s.acquired.length = s.acquired := List.take_left
    refine ⟨?_, ?_, ?_, ?_, ?_, ?_, h.sound⟩
    · show Exclusive (toInt32 (s.lock.value - 1)) _
      rw [toInt32_small (by omega) (by omega)]
      exact h.lock.upd_enter hv rfl
    · intro hfree
      have := hfree t
      simp only [upd_self] at this
      exact absurd this (by simp [SynchDiskPC.holds])
    · intro u
      by_cases hu : u = t
      · rw [hu]
        simp only [upd_self]
        refine ⟨⟨hrest.value, hrest.pending, hrest.active⟩, ?_, ?_⟩
        · show s.acquired ++ [c] = (s.acquired ++ [c]).take s.acquired.length ++ [c]
          rw [htake]
        · show s.disk = after d ((s.acquired ++ [c]).take s.acquired.length)
          rw [htake]
          exact hdisk
      · simp only [upd_ne _ _ hu]
        exact phase_outside (hno u)
    · exact h.toCome_upd fun c' hc' => by
        simp only [SynchDiskPC.toCome, Option.mem_some_iff] at hc'
        exact hc' ▸ hc
    · intro c' hc'
      rcases List.mem_append.mp hc' with hc' | hc'
      · exact h.acquired c' hc'
      · rw [List.mem_singleton.mp hc']
        exact hc
    · intro r hr
      exact (h.returned r hr).later rfl (List.append_nil _).symm

/-- **A request finds the disk idle.** -/
theorem inv_request (h : Inv d s) (hpc : s.pc t = .request n c) : Inv d (s.request t n c) := by
  have hph := h.phase t
  rw [hpc] at hph
  obtain ⟨hrest, hlast, hdisk⟩ := hph
  have hholds : (s.pc t).holds = true := by rw [hpc]; rfl
  have hc : c.InRange := h.toCome t c (by rw [hpc]; rfl)
  unfold DiskCall.InRange at hc
  unfold request
  rw [hrest.active, if_neg (by simp), if_pos hc]
  refine ⟨h.lock.upd_same (by rw [hpc]; rfl), ?_, h.phase_of_holder hholds ?_,
    h.toCome_upd fun c' hc' => absurd hc' (by simp [SynchDiskPC.toCome]), h.acquired,
    h.kept rfl rfl, h.sound⟩
  · intro hfree
    have := hfree t
    simp only [upd_self] at this
    exact absurd this (by simp [SynchDiskPC.holds])
  · refine ⟨⟨hlast, ?_, ?_⟩, .inl ⟨hrest.value, ?_, rfl⟩⟩
    · show (c.transfer s.disk).2 = after d s.acquired
      rw [hlast, after_append, hdisk]
    · show (c.transfer s.disk).1 = answer d (s.acquired.take n) c
      rw [hdisk]
      rfl
    · show s.pending ++ [n] = [n]
      rw [hrest.pending]
      rfl

/-- A pass of `semaphore->P()`: the unit on it is for the one that holds the lock. -/
theorem inv_wait (h : Inv d s) (hpc : s.pc t = .wait n c data)
    (hs : s.wait t n c data = some s') : Inv d s' := by
  have hph := h.phase t
  rw [hpc] at hph
  obtain ⟨hmade, hwait⟩ := hph
  have hholds : (s.pc t).holds = true := by rw [hpc]; rfl
  unfold wait at hs
  split at hs
  · exact absurd hs (by simp)
  dsimp only at hs
  by_cases hv : s.semaphore.value = 0
  · rw [Semaphore.P_zero t hv, if_neg (by simp)] at hs
    obtain rfl := Option.some.inj hs
    exact h.asleep ⟨rfl, rfl, rfl, rfl, rfl, rfl⟩ rfl rfl rfl rfl
  · rw [Semaphore.P_pos t hv, if_pos rfl] at hs
    obtain rfl := Option.some.inj hs
    obtain ⟨h1, hpend, hact, hdone⟩ := hwait.resolve_left fun hw => hv hw.1
    refine ⟨h.lock.upd_same (by rw [hpc]; rfl), ?_, h.phase_of_holder hholds ?_,
      h.toCome_upd fun c' hc' => absurd hc' (by simp [SynchDiskPC.toCome]), h.acquired,
      h.kept rfl rfl, h.sound⟩
    · intro hfree
      have := hfree t
      simp only [upd_self] at this
      exact absurd this (by simp [SynchDiskPC.holds])
    · refine ⟨⟨hmade.last, hmade.disk, hmade.data⟩, ⟨?_, hpend, hact⟩, hdone⟩
      show toInt32 (s.semaphore.value - 1) = 0
      rw [h1]
      rfl

/-- `lock->Release()`: the device is left as it was found. -/
theorem inv_release (h : Inv d s) (hpc : s.pc t = .release n c data) :
    Inv d (s.release t n c data) := by
  have hph := h.phase t
  rw [hpc] at hph
  obtain ⟨hmade, hrest, hdone⟩ := hph
  have hholds : (s.pc t).holds = true := by rw [hpc]; rfl
  obtain ⟨h0, hleft⟩ :=
    Exclusive.upd_leave (i := t) (k := SynchDiskPC.out) (c := SynchDiskPC.holds) h.lock hholds rfl
  refine ⟨?_, fun _ => ⟨⟨hrest.value, hrest.pending, hrest.active⟩, hmade.disk⟩,
    h.phase_of_holder hholds trivial,
    h.toCome_upd fun c' hc' => absurd hc' (by simp [SynchDiskPC.toCome]), h.acquired, ?_, h.sound⟩
  · show Exclusive (toInt32 (s.lock.value + 1)) _
    rw [toInt32_small (by omega) (by omega)]
    exact hleft
  · intro r hr
    rcases List.mem_append.mp hr with hr | hr
    · exact (h.returned r hr).later (List.append_nil _).symm (List.append_nil _).symm
    · rw [List.mem_singleton.mp hr]
      exact ⟨hdone, (last_number hmade.last).2, hmade.data⟩

/-- **An interrupt is for the one that holds the lock.** -/
theorem inv_callBack (h : Inv d s) (hn : n ∈ s.pending) : Inv d (s.callBack n) := by
  -- with the device at rest there would be no interrupt to come
  have hbusy : ¬ s.Rest := fun hr => by
    rw [hr.pending] at hn
    exact absurd hn (by simp)
  obtain ⟨t, ht⟩ : ∃ t, (s.pc t).holds = true := by
    by_contra hno
    refine hbusy (h.free fun t => ?_).1
    cases hh : (s.pc t).holds with
    | false => rfl
    | true => exact absurd ⟨t, hh⟩ hno
  have hph := h.phase t
  cases hpc : s.pc t with
  | out => rw [hpc] at ht; exact absurd ht (by simp [SynchDiskPC.holds])
  | acquire c => rw [hpc] at ht; exact absurd ht (by simp [SynchDiskPC.holds])
  | request m c => rw [hpc] at hph; exact absurd hph.1 hbusy
  | release m c data => rw [hpc] at hph; exact absurd hph.2.1 hbusy
  | wait m c data =>
      rw [hpc] at hph
      obtain ⟨hmade, hwait⟩ := hph
      obtain ⟨hv, hpend, _⟩ := hwait.resolve_right fun hw => by
        rw [hw.2.1] at hn
        exact absurd hn (by simp)
      have hnm : n = m := by
        rw [hpend] at hn
        exact List.mem_singleton.mp hn
      have hphase : Phase d (s.callBack n) (.wait m c data) := by
        refine ⟨⟨hmade.last, hmade.disk, hmade.data⟩, .inr ⟨?_, ?_, rfl, ?_⟩⟩
        · show toInt32 (s.semaphore.value + 1) = 1
          rw [hv]
          rfl
        · show s.pending.erase n = []
          rw [hpend, hnm]
          simp
        · show m ∈ s.completed ++ [n]
          rw [hnm]
          simp
      refine ⟨h.lock, fun hf => ?_, fun u => ?_, h.toCome, h.acquired, fun r hr => ?_, h.sound⟩
      · have hf' := hf t
        rw [show (s.callBack n).pc t = s.pc t from rfl, hpc] at hf'
        exact absurd hf' (by simp [SynchDiskPC.holds])
      · have hall := h.phase_of_holder ht hphase u
        rw [← hpc, Base.upd_eq_self] at hall
        exact hall
      · exact (h.returned r hr).later (List.append_nil _).symm rfl

/-- Calls name sectors that there are. -/
def InRange : SynchDisk → DiskEvent → Prop
  | _, .call _ c => c.InRange
  | _, _ => True

instance (s : SynchDisk) (e : DiskEvent) : Decidable (InRange s e) :=
  match e with
  | .call _ c => inferInstanceAs (Decidable c.InRange)
  | .go _ => .isTrue trivial
  | .interrupt _ => .isTrue trivial

theorem inv_call {c : DiskCall} (h : Inv d s) (hpc : s.pc t = .out) (hc : c.InRange) :
    Inv d { s with pc := upd s.pc t (.acquire c) } := by
  have hsame : Same s { s with pc := upd s.pc t (.acquire c) } := ⟨rfl, rfl, rfl, rfl, rfl, rfl⟩
  refine ⟨h.lock.upd_same (by rw [hpc]; rfl), fun hf => ?_, fun u => ?_,
    h.toCome_upd fun c' hc' => ?_, h.acquired, h.kept rfl rfl, h.sound⟩
  · obtain ⟨hr, hd⟩ := h.free fun u => by
      by_cases hu : u = t
      · rw [hu, hpc]
        rfl
      · have hf' := hf u
        simp only [upd_ne _ _ hu] at hf'
        exact hf'
    exact ⟨hsame.rest hr, hd⟩
  · by_cases hu : u = t
    · rw [hu]
      simp only [upd_self]
      trivial
    · simp only [upd_ne _ _ hu]
      exact hsame.phase (h.phase u)
  · simp only [SynchDiskPC.toCome, Option.mem_some_iff] at hc'
    exact hc' ▸ hc

theorem inv_step {e : DiskEvent} (h : Inv d s) (hg : InRange s e) (hs : s.step e = some s') :
    Inv d s' := by
  unfold step at hs
  split at hs
  · exact absurd hs (by simp)
  cases e with
  | call t c =>
      cases hpc : s.pc t with
      | out =>
          simp only [hpc] at hs
          obtain rfl := Option.some.inj hs
          exact inv_call h hpc hg
      | _ => simp [hpc] at hs
  | go t =>
      simp only [go] at hs
      cases hpc : s.pc t with
      | out => simp [hpc] at hs
      | acquire c =>
          simp only [hpc] at hs
          exact inv_acquire h hpc hs
      | request n c =>
          simp only [hpc] at hs
          obtain rfl := Option.some.inj hs
          exact inv_request h hpc
      | wait n c data =>
          simp only [hpc] at hs
          exact inv_wait h hpc hs
      | release n c data =>
          simp only [hpc] at hs
          obtain rfl := Option.some.inj hs
          exact inv_release h hpc
  | interrupt n =>
      simp only at hs
      split at hs
      · rename_i hn
        obtain rfl := Option.some.inj hs
        exact inv_callBack h hn
      · exact absurd hs (by simp)

theorem inv_reachBy (h : (sys d).ReachBy InRange s) : Inv d s := by
  refine h.invariant ?_ ?_
  · intro s hs
    rw [hs]
    exact inv_new d
  · intro s e s' _ hi hg hs
    exact inv_step hi hg hs

/-- **The synchronous disk.** In every state that threads and interrupts can reach by calls for
sectors that there are: no `ASSERT` of the disk has failed, and a thread that is about to make
its request finds it idle. Of every call that has returned, the interrupt of its own
request has come, and if it is a read, it has delivered what was last written to the sector by
the calls that got the lock before it. -/
theorem synchDisk_serves (d : Disk) (s : SynchDisk) (h : (sys d).ReachBy InRange s) :
    s.aborted = false ∧ (∀ t n c, s.pc t = .request n c → s.active = false) ∧
    ∀ r ∈ s.returned, r.number ∈ s.completed ∧ s.acquired[r.number]? = some r.call ∧
      ∀ i, r.call = .readSector i → ∀ k, k < sectorSize →
        r.data k = ((lastWrite i (s.acquired.take r.number)).getD (d i.toNat)) k := by
  have hinv := inv_reachBy h
  refine ⟨hinv.sound, ?_, ?_⟩
  · intro t n c hpc
    have hph := hinv.phase t
    rw [hpc] at hph
    exact hph.1.active
  · intro r hr
    have hk := hinv.returned r hr
    refine ⟨hk.completed, hk.acquired, ?_⟩
    intro i hcall k hsize
    have hi : 0 ≤ i := by
      have hrange := hinv.acquired r.call (List.mem_of_getElem? hk.acquired)
      rw [hcall] at hrange
      exact hrange.1
    rw [← after_eq d hi hsize _ fun c hc => hinv.acquired c (List.mem_of_mem_take hc),
      hk.data, hcall]
    rfl

/-- Two threads meet: thread 1 writes sector 5 while thread 2, which wants to read it, waits for
the lock. -/
def writeThenRead : List DiskEvent :=
  [.call 1 (.writeSector 5 fun _ => 7), .go 1, .call 2 (.readSector 5), .go 2, .go 1, .go 1,
    .interrupt 0, .go 1, .go 1, .go 2, .go 2, .interrupt 1, .go 2, .go 2]

/-- The read delivers what was written. -/
theorem writeThenRead_serves : ∃ s, (sys fun _ _ => 0).ReachBy InRange s ∧
    ∃ r ∈ s.returned, r.call = .readSector 5 ∧ r.data 3 = 7 := by
  obtain ⟨s, hrun, hret, hlast⟩ : ∃ s,
      (sys fun _ _ => 0).runBy InRange (new fun _ _ => 0) writeThenRead = some s ∧
      (∃ r ∈ s.returned, r.number = 1 ∧ r.call = .readSector 5) ∧
      (lastWrite 5 (s.acquired.take 1)).map (fun data => data 3) = some 7 :=
    ⟨_, rfl, ⟨_, List.mem_cons_of_mem _ List.mem_cons_self, rfl, rfl⟩, rfl⟩
  have hreach := Base.System.ReachBy.runBy writeThenRead (.init rfl) hrun
  obtain ⟨r, hr, hn, hcall⟩ := hret
  refine ⟨s, hreach, r, hr, hcall, ?_⟩
  obtain ⟨_, _, hserved⟩ := synchDisk_serves _ s hreach
  rw [(hserved r hr).2.2 5 hcall 3 (by decide), hn]
  obtain ⟨data, hdata, h7⟩ := Option.map_eq_some_iff.mp hlast
  rw [hdata]
  exact h7

end SynchDisk

/-! ## One step per call

`Filesys.Disk` takes a call of the driver for one step. It may: what calls do to the disk and
deliver is what such steps do and deliver, taken in the order of the lock. -/

/-- A call as one step. -/
def DiskCall.atomic : DiskCall → DiskM (Nat → UInt8)
  | .readSector sectorNumber => Filesys.readSector sectorNumber
  | .writeSector sectorNumber data => do
      Filesys.writeSector sectorNumber data
      return data

theorem DiskCall.atomic_eq {c : DiskCall} (h : c.InRange) (d : Disk) :
    c.atomic d = .ok (c.transfer d).1 (c.transfer d).2 := by
  have hlt : c.sectorNumber.toNat < numSectors := by
    have h1 := h.1
    have h2 := h.2
    omega
  have hcast : ((c.sectorNumber.toNat : Nat) : Int) = c.sectorNumber := Int.toNat_of_nonneg h.1
  cases c with
  | readSector i =>
      have hread := readSector_ok hlt d
      rw [hcast] at hread
      exact hread
  | writeSector i data =>
      have hwrite := writeSector_ok hlt data d
      rw [hcast] at hwrite
      exact bind_eq_of_ok hwrite

/-- **Calls take effect one at a time, in the order of the lock.** -/
theorem SynchDisk.returned_atomic {d : Disk} {s : SynchDisk} (h : (sys d).ReachBy InRange s)
    {r : DiskReturn} (hr : r ∈ s.returned) :
    r.call.atomic (after d (s.acquired.take r.number)) =
      .ok r.data (after d (s.acquired.take (r.number + 1))) := by
  have hinv := inv_reachBy h
  have hk := hinv.returned r hr
  obtain ⟨hlt, hcall⟩ := List.getElem?_eq_some_iff.mp hk.acquired
  have htake : s.acquired.take (r.number + 1) = s.acquired.take r.number ++ [r.call] := by
    rw [← hcall]
    exact List.take_succ_eq_append_getElem hlt
  rw [DiskCall.atomic_eq (hinv.acquired r.call (List.mem_of_getElem? hk.acquired)), htake,
    after_append, hk.data]
  rfl

end Nachos.Filesys
