import Nachos.Proof.Landing

/-!
# What the loader puts where

With the loops in closed form the whole constructor is one overlay: every place of
memory either keeps its byte or receives the byte of the file that the last loop
to reach it reads there. Two questions about it are answered here.

**Is the image right?** Does each byte of a segment end up in the frame byte that
its virtual address translates to? It does exactly when the last read that reaches
that frame byte reads the right offset. Nothing else can make it right: memory and
the body of the file may hold anything, so bytes that agree by accident are ruled
out by quantifying over them.

**Is it isolated?** Does the constructor write to main memory only inside the
frames it was given? It does exactly when every byte that a loop lands inside main
memory lands in one of them.

A constructor that finds too few frames comes to neither question: it hands out no
frame, reads nothing, and does not return.

Both conditions speak of the header, of the length of the file and of the frames
that are clear, and of nothing the constructor computes.
-/

namespace Nachos

/-- The offset of the byte that the constructor leaves at `a`. The loop of `initData` runs last. -/
def NoffHeader.source (h : NoffHeader) (file : HostFile) (frames : List Int) (a : Int) :
    Option Nat :=
  ((if 0 < h.initData.size then landing file h.initData 0 frames a else none).or
    (if 0 < h.code.size then landing file h.code 0 frames a else none))

/-- No loop asks `Lseek` for a negative position. -/
def NoffHeader.Loads (h : NoffHeader) (b : Bitmap) : Prop :=
  ∀ seg ∈ [h.code, h.initData], 0 < seg.size → ∀ i, i < h.pagesGranted b → 0 ≤ loadPosition seg i

/-! ## Header fields are `int`s -/

theorem wordAt_range (buf : Nat → UInt8) (off : Nat) :
    -2147483648 ≤ wordAt buf off ∧ wordAt buf off ≤ intMax := by
  unfold wordAt
  exact toInt32_range _

theorem segmentAt_range (buf : Nat → UInt8) (off : Nat) :
    -2147483648 ≤ (segmentAt buf off).inFileAddr ∧ (segmentAt buf off).inFileAddr ≤ intMax := by
  unfold segmentAt
  dsimp only
  exact wordAt_range buf (off + 4)

/-- On a little-endian host there is nothing to swap. -/
theorem noffHeader_eq (file : HostFile) (stack : Nat → UInt8) :
    noffHeader file stack = NoffHeader.decode (headerBuffer file stack) := by
  have hswap : ∀ h, swapHeader h = h := fun h => rfl
  unfold noffHeader
  dsimp only
  rw [hswap, ite_self]

/-- The file positions in a header are `int`s. -/
def NoffHeader.InRange (h : NoffHeader) : Prop :=
  ∀ seg ∈ [h.code, h.initData], -2147483648 ≤ seg.inFileAddr ∧ seg.inFileAddr ≤ intMax

theorem decode_inRange (buf : Nat → UInt8) : (NoffHeader.decode buf).InRange := by
  intro seg hseg
  unfold NoffHeader.decode at hseg
  dsimp only at hseg
  simp only [List.mem_cons, List.not_mem_nil, or_false] at hseg
  rcases hseg with rfl | rfl
  · exact segmentAt_range buf 4
  · exact segmentAt_range buf 16

theorem noffHeader_inRange (file : HostFile) (stack : Nat → UInt8) :
    (noffHeader file stack).InRange := by
  rw [noffHeader_eq]
  exact decode_inRange _

/-- Positions that are not negative are the exact ones: `int` has not wrapped. -/
theorem loadPosition_exact {seg : Segment} {n : Nat} (hlo : -2147483648 ≤ seg.inFileAddr)
    (hhi : seg.inFileAddr ≤ intMax) (hn : n ≤ numPhysPages)
    (h : ∀ i, i < n → 0 ≤ loadPosition seg i) {i : Nat} (hi : i < n) :
    loadPosition seg i = seg.inFileAddr + (i * pageSize : Nat) := by
  have h0 := h 0 (by omega)
  have hz : loadPosition seg 0 = seg.inFileAddr := by
    unfold loadPosition
    rw [Nat.zero_mul, Int.ofNat_zero, Int.add_zero]
    exact toInt32_of_range hlo hhi
  rw [hz] at h0
  have hmul : i * pageSize ≤ 65536 := by
    have h1 : i ≤ 128 := Nat.le_trans (Nat.le_of_lt hi) hn
    have h2 : pageSize = 512 := rfl
    rw [h2]; omega
  unfold intMax at hhi
  exact toInt32_eq_of_nonneg (by omega) (by omega) (h i hi)

theorem pagesGranted_le_phys (h : NoffHeader) {b : Bitmap} (hb : b.numBits = numPhysPages) :
    h.pagesGranted b ≤ numPhysPages := by
  refine Nat.le_trans (pagesGranted_le h b) ?_
  rw [← hb, Bitmap.clearBits]
  exact Nat.le_trans (List.length_filter_le _ _) (by simp)

/-! ## The constructor in closed form -/

theorem loadSegment_eq {file : HostFile} {h : NoffHeader} {b : Bitmap} {seg : Segment}
    (hb : b.numBits = numPhysPages) (hr : h.InRange) (hl : h.Loads b)
    (hseg : seg ∈ [h.code, h.initData]) (mem : Memory) :
    loadSegment file seg (h.alloc b).1 mem =
      some (overlay file (fun a => if 0 < seg.size then landing file seg 0 (h.frames b) a else none)
        mem) := by
  unfold loadSegment
  by_cases hs : 0 < seg.size
  · have hpos := hl seg hseg hs
    simp only [if_pos hs]
    rw [loadPages_eq _ 0 mem, alloc_frames]
    · rw [alloc_frames]; exact frames_nodup h b
    · intro k hk
      rw [alloc_length] at hk
      rw [Nat.zero_add]
      exact ⟨loadPosition_exact (hr seg hseg).1 (hr seg hseg).2 (pagesGranted_le_phys h hb) hpos hk,
        hpos k hk⟩
  · simp only [if_neg hs]
    rfl

/-- Two overlays make one, in which the later source wins. -/
theorem overlay_overlay (file : HostFile) (src₁ src₂ : Int → Option Nat) (mem : Memory) :
    overlay file src₂ (overlay file src₁ mem) =
    overlay file (fun a => (src₂ a).or (src₁ a)) mem := by
  funext a
  unfold overlay
  dsimp only
  cases src₂ a <;> simp

/-- **The constructor in closed form.** -/
theorem load_eq {file : HostFile} {h : NoffHeader} {b : Bitmap} (hb : b.numBits = numPhysPages)
    (hr : h.InRange) (hl : h.Loads b) (hroom : h.numPages ≤ b.numClear) (mem : Memory) :
    AddrSpace.load h file b mem =
      some (h.built b (overlay file (h.source file (h.frames b)) mem)) := by
  have hcode : h.code ∈ [h.code, h.initData] := List.mem_cons_self
  have hinit : h.initData ∈ [h.code, h.initData] := List.mem_cons_of_mem _ List.mem_cons_self
  unfold AddrSpace.load
  rw [loadSegment_eq hb hr hl hcode, Option.bind_some, loadSegment_eq hb hr hl hinit,
    Option.bind_some, if_neg (Nat.not_lt.mpr hroom), overlay_overlay]
  rfl

theorem loadSegment_isSome_iff {file : HostFile} {seg : Segment} {h : NoffHeader} {b : Bitmap}
    {mem : Memory} : (loadSegment file seg (h.alloc b).1 mem).isSome ↔
      (0 < seg.size → ∀ i, i < h.pagesGranted b → 0 ≤ loadPosition seg i) := by
  unfold loadSegment
  by_cases hs : 0 < seg.size
  · rw [if_pos hs, loadPages_isSome_iff, alloc_length]
    simp only [Nat.zero_add, hs, true_imp_iff]
  · simp [hs]

theorem seeks_iff {h : NoffHeader} {b : Bitmap} : h.seeks (h.pagesGranted b) = true ↔
    h.Loads b := by
  unfold NoffHeader.seeks NoffHeader.Loads
  simp only [List.all_eq_true, decide_eq_true_eq]

/-- **When the constructor returns**: its loops meet no bad position, and there were frames
enough. -/
theorem load_isSome_iff {file : HostFile} {h : NoffHeader} {b : Bitmap} {mem : Memory} :
    (AddrSpace.load h file b mem).isSome ↔ h.Loads b ∧ h.numPages ≤ b.numClear := by
  have hloads : h.Loads b ↔
      (0 < h.code.size → ∀ i, i < h.pagesGranted b → 0 ≤ loadPosition h.code i) ∧
        (0 < h.initData.size → ∀ i, i < h.pagesGranted b → 0 ≤ loadPosition h.initData i) := by
    unfold NoffHeader.Loads
    simp
  unfold AddrSpace.load
  rw [hloads]
  constructor
  · intro hsome
    obtain ⟨r, hr⟩ := Option.isSome_iff_exists.mp hsome
    obtain ⟨mem₁, h1, hr⟩ := Option.bind_eq_some_iff.mp hr
    obtain ⟨mem₂, h2, hr⟩ := Option.bind_eq_some_iff.mp hr
    refine ⟨⟨loadSegment_isSome_iff.mp (by rw [h1]; rfl),
      loadSegment_isSome_iff.mp (by rw [h2]; rfl)⟩, ?_⟩
    by_contra hshort
    rw [if_pos (Nat.not_le.mp hshort)] at hr
    exact absurd hr (by simp)
  · rintro ⟨⟨hcode, hinit⟩, hroom⟩
    have hsome : (loadSegment file h.code (h.alloc b).1 mem).isSome :=
      loadSegment_isSome_iff.mpr hcode
    obtain ⟨mem₁, h1⟩ := Option.isSome_iff_exists.mp hsome
    have hsome₁ : (loadSegment file h.initData (h.alloc b).1 mem₁).isSome :=
      loadSegment_isSome_iff.mpr hinit
    obtain ⟨mem₂, h2⟩ := Option.isSome_iff_exists.mp hsome₁
    rw [h1, Option.bind_some, h2, Option.bind_some, if_neg (Nat.not_lt.mpr hroom)]
    rfl

/-- Loads that came to their end met no bad position, and had frames enough. -/
theorem loads_of_load {file : HostFile} {h : NoffHeader} {b : Bitmap} {mem : Memory} {r : Built}
    (hr : AddrSpace.load h file b mem = some r) : h.Loads b ∧ h.numPages ≤ b.numClear :=
  load_isSome_iff.mp (by rw [hr]; rfl)

/-- What a constructor that returned has left, but for memory. -/
theorem built_of_load {file : HostFile} {h : NoffHeader} {b : Bitmap} {mem : Memory} {r : Built}
    (hr : AddrSpace.load h file b mem = some r) : ∃ mem', r = h.built b mem' := by
  obtain ⟨_, _, hr⟩ := Option.bind_eq_some_iff.mp hr
  obtain ⟨mem', _, hr⟩ := Option.bind_eq_some_iff.mp hr
  split at hr
  · exact absurd hr (by simp)
  · exact ⟨mem', (Option.some.inj hr).symm⟩

/-- Without frames enough none is handed out. -/
theorem frames_of_short {h : NoffHeader} {b : Bitmap} (hshort : b.numClear < h.numPages) :
    h.frames b = [] := by
  unfold NoffHeader.frames NoffHeader.pagesGranted
  rw [if_pos hshort, List.take_zero, List.map_nil]

theorem construct_eq_load {file : HostFile} {stack : Nat → UInt8}
    (hm : (noffHeader file stack).noffMagic = noffMagicNumber) (b : Bitmap) (mem : Memory) :
    AddrSpace.construct file stack b mem = AddrSpace.load (noffHeader file stack) file b mem := by
  unfold AddrSpace.construct
  exact if_neg (not_not.mpr hm)

/-! ## Isolation -/

/-- Main memory changes only in the frames of the new space, and no frame of a space that was live
before changes at all. -/
structure Isolated (b : Bitmap) (mem : Memory) (r : Built) : Prop where
  /-- Only the new frames. -/
  inside : ∀ a : Int, 0 ≤ a → a < memorySize → r.mem a ≠ mem a →
    ∃ e ∈ r.pageTable, e.physicalPage = a / pageSize
  /-- Not those of others, whose bits are set. -/
  others : ∀ live : List (List Nat), (∀ fs ∈ live, ∀ f ∈ fs, f < numPhysPages ∧ b.test f = true) →
    ∀ fs ∈ live, ∀ f ∈ fs, ∀ k : Nat, k < pageSize →
      r.mem ((f * pageSize + k : Nat) : Int) = mem ((f * pageSize + k : Nat) : Int)

/-- Every byte a loop puts inside main memory falls in a frame that is handed out: byte `j` of the
`k`-th page of a segment goes `virtualAddr + j` past the `k`-th frame. -/
def NoffHeader.LandsInside (h : NoffHeader) (file : HostFile) (b : Bitmap) : Prop :=
  ∀ seg ∈ [h.code, h.initData], 0 < seg.size → ∀ (k : Nat) (p : Int), (h.frames b)[k]? = some p →
    ∀ j : Nat, j < pageSize → (seg.inFileAddr + (k * pageSize : Nat) + j).toNat < file.length →
      0 ≤ seg.virtualAddr + p * pageSize + j → seg.virtualAddr + p * pageSize + j < memorySize →
        (seg.virtualAddr + p * pageSize + j) / pageSize ∈ h.frames b

theorem idxOf?_eq_some_iff_getElem? {fs : List Int} (hnd : fs.Nodup) {k : Nat} {p : Int} :
    fs.idxOf? p = some k ↔ fs[k]? = some p := by
  rw [List.idxOf?_eq_some_iff]
  constructor
  · rintro ⟨h, hp, _⟩
    rw [← hp]
    exact List.getElem?_eq_getElem h
  · intro h
    obtain ⟨hlt, hp⟩ := List.getElem?_eq_some_iff.mp h
    refine ⟨hlt, hp, fun j hj he => ?_⟩
    rw [← hp] at he
    have := (List.Nodup.getElem_inj_iff hnd).mp he
    omega

theorem landing_isSome_iff {file : HostFile} {seg : Segment} {fs : List Int} (hnd : fs.Nodup)
    {a : Int} : (landing file seg 0 fs a).isSome ↔
      ∃ (k : Nat) (p : Int) (j : Nat), fs[k]? = some p ∧ j < pageSize
        ∧ (seg.inFileAddr + (k * pageSize : Nat) + j).toNat < file.length
        ∧ a = seg.virtualAddr + p * pageSize + j := by
  have hps : (pageSize : Int) = 512 := rfl
  have hpn : pageSize = 512 := rfl
  unfold landing
  constructor
  · intro h
    obtain ⟨off, hoff⟩ := Option.isSome_iff_exists.mp h
    obtain ⟨k, hk, hif⟩ := Option.bind_eq_some_iff.mp hoff
    refine ⟨k, _, ((a - seg.virtualAddr) % pageSize).toNat,
      (idxOf?_eq_some_iff_getElem? hnd).mp hk, ?_, ?_, ?_⟩
    · rw [hps, hpn]; omega
    · rw [Nat.zero_add] at hif
      have hnn : 0 ≤ (a - seg.virtualAddr) % pageSize := Int.emod_nonneg _ (by decide)
      rw [Int.toNat_of_nonneg hnn]
      by_contra hlen
      rw [if_neg hlen] at hif
      exact absurd hif (by simp)
    · rw [hps]; omega
  · rintro ⟨k, p, j, hk, hj, hlen, rfl⟩
    have hdiv : (seg.virtualAddr + p * pageSize + j - seg.virtualAddr) / pageSize = p := by
      rw [hps]; rw [hpn] at hj; omega
    have hmod : (seg.virtualAddr + p * pageSize + j - seg.virtualAddr) % pageSize = j := by
      rw [hps]; rw [hpn] at hj; omega
    rw [hdiv, hmod, (idxOf?_eq_some_iff_getElem? hnd).mpr hk, Option.bind_some, Nat.zero_add]
    simp only [if_pos hlen, Option.isSome_some]

theorem source_isSome {h : NoffHeader} {file : HostFile} {fs : List Int} {a : Int} :
    (h.source file fs a).isSome ↔
      ∃ seg ∈ [h.code, h.initData], 0 < seg.size ∧ (landing file seg 0 fs a).isSome := by
  unfold NoffHeader.source
  simp only [Option.isSome_or, Bool.or_eq_true, List.mem_cons, List.not_mem_nil, or_false,
    exists_eq_or_imp, exists_eq_left]
  by_cases h1 : 0 < h.initData.size <;> by_cases h2 : 0 < h.code.size <;> simp [h1, h2, or_comm]

theorem uint8_succ_ne (x : UInt8) : x + 1 ≠ x := by
  intro h
  have := congrArg UInt8.toNat h
  rw [UInt8.toNat_add] at this
  have hx := x.toNat_lt
  simp only [UInt8.reduceToNat] at this
  omega

/-- Inside the new frames, outside those of everybody else. -/
theorem isolated_of_inside {b : Bitmap} {mem mem' : Memory} {h : NoffHeader}
    (hin : ∀ a : Int, 0 ≤ a → a < memorySize → mem' a ≠ mem a → a / pageSize ∈ h.frames b) :
    Isolated b mem (h.built b mem') where
  inside := by
    intro a h0 h1 hne
    have hmem := hin a h0 h1 hne
    rw [← alloc_frames] at hmem
    exact List.mem_map.mp hmem
  others := by
    intro live hlive fs hfs f hf k hk
    obtain ⟨hlt, htest⟩ := hlive fs hfs f hf
    by_contra hne
    have hdiv : (f * pageSize + k) / pageSize = f := by
      rw [Nat.mul_comm, Nat.mul_add_div (by decide), Nat.div_eq_of_lt hk, Nat.add_zero]
    have hbound : f * pageSize + k < memorySize := by
      have : f * pageSize + pageSize ≤ numPhysPages * pageSize := by
        rw [← Nat.succ_mul]; exact Nat.mul_le_mul_right _ hlt
      exact Nat.lt_of_lt_of_le (Nat.add_lt_add_left hk _) this
    have hmem := hin _ (Int.natCast_nonneg _) (Int.ofNat_lt.mpr hbound) hne
    rw [← Int.natCast_ediv, hdiv] at hmem
    obtain ⟨n, hn, _, hclear⟩ := mem_frames hmem
    rw [Int.ofNat.inj hn, hclear] at htest
    exact Bool.noConfusion htest

theorem load_isolated_iff {file : HostFile} {h : NoffHeader} {b : Bitmap}
    (hb : b.numBits = numPhysPages) (hr : h.InRange) :
    (∀ mem r, AddrSpace.load h file b mem = some r → Isolated b mem r) ↔
      (h.Loads b → h.LandsInside file b) := by
  constructor
  · intro hiso hl seg hseg hsize k p hk j hj hlen
    have hroom : h.numPages ≤ b.numClear := by
      by_contra hshort
      rw [frames_of_short (Nat.not_le.mp hshort)] at hk
      exact absurd hk (by simp)
    generalize hadr : seg.virtualAddr + p * pageSize + j = a
    intro h0 h1
    have hland : (landing file seg 0 (h.frames b) a).isSome :=
      (landing_isSome_iff (frames_nodup h b)).mpr ⟨k, p, j, hk, hj, hlen, hadr.symm⟩
    -- a memory that holds something else at `a` shows the write
    obtain ⟨off, hoff⟩ := Option.isSome_iff_exists.mp
      (source_isSome.mpr ⟨seg, hseg, hsize, hland⟩)
    have hne : overlay file (h.source file (h.frames b)) (fun _ => file.getD off 0 + 1) a
        ≠ file.getD off 0 + 1 := by
      rw [overlay, hoff]
      exact (uint8_succ_ne _).symm
    obtain ⟨e, he, hpe⟩ := (hiso (fun _ => file.getD off 0 + 1) _
      (load_eq hb hr hl hroom _)).inside a h0 h1 hne
    rw [← alloc_frames]
    exact List.mem_map.mpr ⟨e, he, hpe⟩
  · intro hland mem r hload
    obtain ⟨hl, hroom⟩ := loads_of_load hload
    rw [load_eq hb hr hl hroom] at hload
    have hrr := Option.some.inj hload
    subst hrr
    refine isolated_of_inside ?_
    intro a h0 h1 hne
    rw [overlay] at hne
    cases hsrc : h.source file (h.frames b) a with
    | none => rw [hsrc] at hne; exact absurd rfl hne
    | some off =>
        obtain ⟨seg, hseg, hsize, hl'⟩ := source_isSome.mp (by rw [hsrc]; rfl)
        obtain ⟨k, p, j, hk, hj, hlen, hadr⟩ := (landing_isSome_iff (frames_nodup h b)).mp hl'
        subst hadr
        exact hland hl seg hseg hsize k p hk j hj hlen h0 h1

/--
**When the loader is isolated.**

For every file with a valid magic number and every bitmap, whatever memory held before:
constructing the address space leaves all memory outside its own frames alone if and only if,
should the loads go through at all, each byte a loop lands inside main memory lands in a frame
that was handed out.
-/
theorem loader_isolated_iff (file : HostFile) (stack : Nat → UInt8) (b : Bitmap)
    (hb : b.numBits = numPhysPages) (hm : (noffHeader file stack).noffMagic = noffMagicNumber) :
    (∀ mem r, AddrSpace.construct file stack b mem = some r → Isolated b mem r) ↔
      ((noffHeader file stack).Loads b → (noffHeader file stack).LandsInside file b) := by
  rw [← load_isolated_iff hb (noffHeader_inRange file stack)]
  constructor
  · intro hiso mem r hload
    exact hiso mem r ((construct_eq_load hm b mem).trans hload)
  · intro hiso mem r hcon
    exact hiso mem r ((construct_eq_load hm b mem).symm.trans hcon)

/-- Programs all of whose loaded segments start at address zero never reach past their frames. -/
theorem landsInside_of_zero {h : NoffHeader} (file : HostFile) (b : Bitmap)
    (hz : ∀ seg ∈ [h.code, h.initData], 0 < seg.size → seg.virtualAddr = 0) :
    h.LandsInside file b := by
  intro seg hseg hsize k p hk j hj _ _ _
  have hpage : (0 + p * pageSize + j) / pageSize = p := by
    have hps : (pageSize : Int) = 512 := rfl
    have hpn : pageSize = 512 := rfl
    rw [hps]; rw [hpn] at hj; omega
  rw [hz seg hseg hsize, hpage]
  exact List.mem_of_getElem? hk

/-- A NOFF file with the given segments (code, initialized data, read only data) and body. -/
def sampleFile (code initData readonlyData : List UInt8) (body : List UInt8) : HostFile :=
  [0xad, 0xdf, 0xba, 0] ++ code ++ initData ++ readonlyData ++ List.replicate 12 0 ++ body

/-- No segment: twelve zero bytes. -/
def noSegment : List UInt8 := List.replicate 12 0

/-- All frames clear but frame 1, which another process owns. -/
def frameOneTaken : Bitmap := (Bitmap.new numPhysPages numPhysPages_pos).mark 1

/-- Four bytes of code at address zero. -/
def codeFile : HostFile :=
  sampleFile [0, 0, 0, 0, 52, 0, 0, 0, 4, 0, 0, 0] noSegment noSegment [1, 2, 3, 4]

/-- One byte of initialized data on the second page. -/
def dataFile : HostFile :=
  sampleFile noSegment [0, 2, 0, 0, 52, 0, 0, 0, 1, 0, 0, 0] noSegment [7]

/-- The code of `codeFile` is loaded, and the frame that was taken keeps what it held. -/
theorem loader_isolated_codeFile : ∃ r,
    AddrSpace.construct codeFile (fun _ => 0) frameOneTaken (fun _ => 0) = some r
      ∧ r.mem 0 = 1 ∧ Isolated frameOneTaken (fun _ => 0) r := by
  have hrun : (AddrSpace.construct codeFile (fun _ => 0) frameOneTaken (fun _ => 0)).map
      (fun r => r.mem 0) = some 1 := by
    decide +kernel
  obtain ⟨r, hr, hmem⟩ := Option.map_eq_some_iff.mp hrun
  refine ⟨r, hr, hmem, ?_⟩
  refine (loader_isolated_iff codeFile (fun _ => 0) frameOneTaken (by decide +kernel)
    (by decide +kernel)).mpr (fun _ => ?_) _ r hr
  exact landsInside_of_zero _ _ (by decide +kernel)

/-- The data of `dataFile` goes to `512`, in the frame of somebody else. -/
theorem loader_not_isolated : ¬ ∀ (file : HostFile) (stack : Nat → UInt8) (b : Bitmap),
    b.numBits = numPhysPages → (noffHeader file stack).noffMagic = noffMagicNumber →
    ∀ mem r, AddrSpace.construct file stack b mem = some r → Isolated b mem r := by
  intro h
  have hrun : (AddrSpace.construct dataFile (fun _ => 0) frameOneTaken (fun _ => 0)).map
      (fun r => (r.mem 512, r.pageTable.map TranslationEntry.physicalPage)) =
      some (7, [0, 2, 3]) := by
    decide +kernel
  obtain ⟨r, hr, he⟩ := Option.map_eq_some_iff.mp hrun
  injection he with hmem hpt
  obtain ⟨e, he, hpe⟩ := (h dataFile (fun _ => 0) frameOneTaken (by decide +kernel)
    (by decide +kernel) _ r hr).inside 512 (by decide) (by decide) (by rw [hmem]; decide)
  have hin : (1 : Int) ∈ r.pageTable.map TranslationEntry.physicalPage :=
    List.mem_map.mpr ⟨e, he, hpe⟩
  rw [hpt] at hin
  exact absurd hin (by decide)

/-! ## The image -/

/-- A loadable program: its segments lie in the file, apart from each other in virtual memory and
within the pages it asks for, and there are frames for these. -/
structure WellFormed (file : HostFile) (h : NoffHeader) (b : Bitmap) : Prop where
  /-- The bitmap is the one of physical pages. -/
  numBits : b.numBits = numPhysPages
  /-- The header is one of a NOFF file. -/
  magic : h.noffMagic = noffMagicNumber
  /-- The segments lie in the file and in the pages of the program. -/
  segments : ∀ seg ∈ [h.code, h.initData, h.readonlyData],
    0 ≤ seg.size ∧ 0 ≤ seg.inFileAddr ∧ seg.inFileAddr + seg.size ≤ file.length
      ∧ 0 ≤ seg.virtualAddr ∧ seg.virtualAddr + seg.size ≤ (h.numPages * pageSize : Nat)
  /-- They do not overlap. -/
  apart : [h.code, h.initData, h.readonlyData].Pairwise fun s t =>
    s.virtualAddr + s.size ≤ t.virtualAddr ∨ t.virtualAddr + t.size ≤ s.virtualAddr
  /-- Enough frames are clear. -/
  room : h.numPages ≤ b.numClear

/-- Every byte of a segment is where its virtual address translates to. -/
def ImageRight (file : HostFile) (h : NoffHeader) (r : Built) : Prop :=
  ∀ seg ∈ [h.code, h.initData, h.readonlyData], ∀ v : Int,
    seg.virtualAddr ≤ v → v < seg.virtualAddr + seg.size →
      ∃ e, r.pageTable[(v / pageSize).toNat]? = some e
        ∧ r.mem (e.physicalPage * pageSize + v % pageSize)
          = file.getD (seg.inFileAddr + (v - seg.virtualAddr)).toNat 0

/-- Two files with the same header and length; their bodies may differ. -/
structure SameHeader (file file' : HostFile) : Prop where
  /-- Equally long. -/
  length : file'.length = file.length
  /-- The same where the header is. -/
  header : ∀ i, i < noffHeaderSize → file'[i]? = file[i]?

/-- The byte at `off` is the one wanted at `w`, whatever the body of the file holds. -/
def SameByte (file : HostFile) (off w : Nat) : Prop :=
  off = w ∨ off < noffHeaderSize ∧ w < noffHeaderSize ∧ file.getD off 0 = file.getD w 0

/-- For every byte of a segment, the last read that reaches its place in the frame of its page reads
the offset it has in the file. -/
def NoffHeader.LayoutRight (h : NoffHeader) (file : HostFile) (b : Bitmap) : Prop :=
  ∀ seg ∈ [h.code, h.initData, h.readonlyData], ∀ v : Int,
    seg.virtualAddr ≤ v → v < seg.virtualAddr + seg.size →
      ∃ p off, (h.frames b)[(v / pageSize).toNat]? = some p
        ∧ h.source file (h.frames b) (p * pageSize + v % pageSize) = some off
        ∧ SameByte file off (seg.inFileAddr + (v - seg.virtualAddr)).toNat

theorem landing_congr {file file' : HostFile} (hlen : file'.length = file.length) (seg : Segment)
    (i : Nat) (fs : List Int) (a : Int) : landing file' seg i fs a = landing file seg i fs a := by
  unfold landing
  rw [hlen]

/-- Where a byte comes from depends on the file through its length only. -/
theorem source_congr {file file' : HostFile} (hlen : file'.length = file.length) (h : NoffHeader)
    (fs : List Int) (a : Int) : h.source file' fs a = h.source file fs a := by
  unfold NoffHeader.source
  rw [landing_congr hlen, landing_congr hlen]

theorem landing_lt {file : HostFile} {seg : Segment} {i : Nat} {fs : List Int} {a : Int} {off : Nat}
    (h : landing file seg i fs a = some off) : off < file.length := by
  unfold landing at h
  obtain ⟨k, _, hif⟩ := Option.bind_eq_some_iff.mp h
  dsimp only at hif
  split at hif
  · rw [← Option.some.inj hif]; assumption
  · exact absurd hif (by simp)

theorem source_lt {h : NoffHeader} {file : HostFile} {fs : List Int} {a : Int} {off : Nat}
    (hs : h.source file fs a = some off) : off < file.length := by
  unfold NoffHeader.source at hs
  rcases Option.or_eq_some_iff.mp hs with h1 | ⟨_, h1⟩
  all_goals
    split at h1
    · exact landing_lt h1
    · exact absurd h1 (by simp)

theorem SameHeader.noffHeader_eq {file file' : HostFile} (h : SameHeader file file')
    (stack : Nat → UInt8) : noffHeader file' stack = noffHeader file stack := by
  have hbuf : headerBuffer file' stack = headerBuffer file stack := by
    funext i
    unfold headerBuffer
    by_cases hi : i < noffHeaderSize
    · rw [if_pos hi, if_pos hi, List.getD_eq_getElem?_getD, List.getD_eq_getElem?_getD,
        h.header i hi]
    · rw [if_neg hi, if_neg hi]
  unfold noffHeader
  rw [hbuf]

theorem sameHeader_set (file : HostFile) {i : Nat} (x : UInt8) (hi : noffHeaderSize ≤ i) :
    SameHeader file (file.set i x) where
  length := List.length_set
  header := by
    intro j hj
    exact List.getElem?_set_ne (by omega)

/-- Whatever the body holds, the two offsets hold the same byte: then they are the same offset, or
both lie in the header. -/
theorem sameByte_of_forall {file : HostFile} {off w : Nat} (hoff : off < file.length)
    (hw : w < file.length)
    (h : ∀ file', SameHeader file file' → file'.getD off 0 = file'.getD w 0) :
    SameByte file off w := by
  by_cases hne : off = w
  · exact .inl hne
  have hset : ∀ i j, i < file.length → j ≠ i →
      (file.set i (file[j]?.getD 0 + 1)).getD i 0 ≠
      (file.set i (file[j]?.getD 0 + 1)).getD j 0 := by
    intro i j hi hij
    rw [List.getD_eq_getElem?_getD, List.getD_eq_getElem?_getD, List.getElem?_set_self hi,
      List.getElem?_set_ne (Ne.symm hij)]
    exact uint8_succ_ne _
  -- a body that differs at either offset tells the two apart
  rcases Nat.lt_or_ge off noffHeaderSize with ho | ho
  · rcases Nat.lt_or_ge w noffHeaderSize with hh | hh
    · exact .inr ⟨ho, hh, h file ⟨rfl, fun _ _ => rfl⟩⟩
    · exact absurd (h _ (sameHeader_set file _ hh)).symm (hset w off hw hne)
  · exact absurd (h _ (sameHeader_set file _ ho)) (hset off w hoff (Ne.symm hne))

theorem SameByte.eq {file file' : HostFile} {off w : Nat} (h : SameByte file off w)
    (hs : SameHeader file file') : file'.getD off 0 = file'.getD w 0 := by
  rcases h with rfl | ⟨ho, hw, he⟩
  · rfl
  · rw [List.getD_eq_getElem?_getD, List.getD_eq_getElem?_getD] at he ⊢
    rwa [hs.header off ho, hs.header w hw]

/-- The frame that the page table of the new space gives a page. -/
theorem built_frame (h : NoffHeader) (b : Bitmap) (mem : Memory) (k : Nat) :
    (h.frames b)[k]? = ((h.built b mem).pageTable[k]?).map TranslationEntry.physicalPage := by
  rw [← alloc_frames, List.getElem?_map]
  rfl

theorem load_image_iff {file : HostFile} {h : NoffHeader} {b : Bitmap} (hw : WellFormed file h b)
    (hr : h.InRange) :
    (∀ file', SameHeader file file' → ∀ mem, ∃ r, AddrSpace.load h file' b mem = some r
        ∧ ImageRight file' h r) ↔
      (h.Loads b ∧ h.LayoutRight file b) := by
  constructor
  · intro himg
    have hl : h.Loads b := by
      obtain ⟨r, hload, _⟩ := himg file ⟨rfl, fun _ _ => rfl⟩ (fun _ => 0)
      exact (loads_of_load hload).1
    refine ⟨hl, ?_⟩
    intro seg hseg v hv0 hv1
    obtain ⟨_, hifa, hin, _, _⟩ := hw.segments seg hseg
    generalize hwant : (seg.inFileAddr + (v - seg.virtualAddr)).toNat = w
    have hwlt : w < file.length := by omega
    -- the image of any such file, over memory that holds anything
    have himg' : ∀ file', SameHeader file file' → ∀ mem, ∃ p,
        (h.frames b)[(v / pageSize).toNat]? = some p
        ∧ overlay file' (h.source file (h.frames b)) mem (p * pageSize + v % pageSize)
          = file'.getD w 0 := by
      intro file' hs mem
      obtain ⟨r, hload, hright⟩ := himg file' hs mem
      rw [load_eq hw.numBits hr hl hw.room, funext (source_congr hs.length h _)] at hload
      obtain ⟨e, he, hbyte⟩ := hright seg hseg v hv0 hv1
      rw [← Option.some.inj hload] at he hbyte
      refine ⟨e.physicalPage, ?_, ?_⟩
      · rw [built_frame h b, he]; rfl
      · rw [hwant] at hbyte; exact hbyte
    obtain ⟨p, hp, hbyte⟩ := himg' file ⟨rfl, fun _ _ => rfl⟩ (fun _ => file.getD w 0 + 1)
    -- memory alone cannot supply the byte
    obtain ⟨off, hoff⟩ : ∃ off, h.source file (h.frames b) (p * pageSize + v % pageSize) =
        some off := by
      cases hsrc : h.source file (h.frames b) (p * pageSize + v % pageSize) with
      | some off => exact ⟨off, rfl⟩
      | none =>
          rw [overlay, hsrc] at hbyte
          exact absurd hbyte (uint8_succ_ne _)
    refine ⟨p, off, hp, hoff, sameByte_of_forall (source_lt hoff) hwlt ?_⟩
    intro file' hs
    obtain ⟨p', hp', hbyte'⟩ := himg' file' hs (fun _ => 0)
    rw [hp] at hp'
    rw [← Option.some.inj hp', overlay, hoff] at hbyte'
    exact hbyte'
  · rintro ⟨hl, hlay⟩ file' hs mem
    refine ⟨_, load_eq hw.numBits hr hl hw.room mem, ?_⟩
    intro seg hseg v hv0 hv1
    obtain ⟨p, off, hp, hoff, hsame⟩ := hlay seg hseg v hv0 hv1
    rw [built_frame h b (overlay file' (h.source file' (h.frames b)) mem)] at hp
    obtain ⟨e, he, rfl⟩ := Option.map_eq_some_iff.mp hp
    refine ⟨e, he, ?_⟩
    show overlay file' (h.source file' (h.frames b)) mem _ = _
    rw [overlay, source_congr hs.length, hoff]
    exact hsame.eq hs

/--
**When the image is right.**

For every well-formed program and every bitmap with enough clear frames, whatever memory and the
body of the file hold: the constructor returns and every byte of the three segments is where its
virtual address translates to if and only if no loop asks for a negative position and, for each of
these bytes, the last read to reach its place reads the offset it has in the file.
-/
theorem loader_image_iff (file : HostFile) (stack : Nat → UInt8) (b : Bitmap)
    (hw : WellFormed file (noffHeader file stack) b) :
    (∀ file', SameHeader file file' → ∀ mem, ∃ r, AddrSpace.construct file' stack b mem = some r
        ∧ ImageRight file' (noffHeader file' stack) r) ↔
      ((noffHeader file stack).Loads b ∧ (noffHeader file stack).LayoutRight file b) := by
  rw [← load_image_iff hw (noffHeader_inRange file stack)]
  have hcon : ∀ file', SameHeader file file' → ∀ mem, AddrSpace.construct file' stack b mem =
      AddrSpace.load (noffHeader file stack) file' b mem := by
    intro file' hs mem
    have hh := hs.noffHeader_eq stack
    rw [construct_eq_load (by rw [hh]; exact hw.magic), hh]
  constructor
  · intro himg file' hs mem
    obtain ⟨r, hr, hright⟩ := himg file' hs mem
    rw [hs.noffHeader_eq stack] at hright
    exact ⟨r, (hcon file' hs mem).symm.trans hr, hright⟩
  · intro himg file' hs mem
    obtain ⟨r, hr, hright⟩ := himg file' hs mem
    rw [← hs.noffHeader_eq stack] at hright
    exact ⟨r, (hcon file' hs mem).trans hr, hright⟩

theorem loader_image_codeFile : WellFormed codeFile (noffHeader codeFile fun _ => 0) frameOneTaken
    ∧ ∀ file', SameHeader codeFile file' → ∀ mem, ∃ r,
      AddrSpace.construct file' (fun _ => 0) frameOneTaken mem = some r
        ∧ ImageRight file' (noffHeader file' fun _ => 0) r := by
  have hh : noffHeader codeFile (fun _ => 0) =
      ⟨noffMagicNumber, ⟨0, 52, 4⟩, ⟨0, 0, 0⟩, ⟨0, 0, 0⟩, ⟨0, 0, 0⟩⟩ := by decide +kernel
  have hwf : WellFormed codeFile (noffHeader codeFile fun _ => 0) frameOneTaken := by
    rw [hh]
    refine ⟨by decide +kernel, rfl, by decide +kernel, by decide +kernel, by decide +kernel⟩
  refine ⟨hwf, (loader_image_iff codeFile (fun _ => 0) frameOneTaken hwf).mpr ?_⟩
  rw [hh]
  constructor
  · unfold NoffHeader.Loads
    decide +kernel
  · intro seg hseg v hv0 hv1
    simp only [List.mem_cons, List.not_mem_nil, or_false] at hseg
    rcases hseg with rfl | rfl | rfl
    · -- the four bytes of code
      have hv : v = 0 ∨ v = 1 ∨ v = 2 ∨ v = 3 := by dsimp only at hv0 hv1; omega
      refine ⟨0, (52 + v).toNat, ?_, ?_, .inl ?_⟩
      · rcases hv with rfl | rfl | rfl | rfl <;> decide +kernel
      · rcases hv with rfl | rfl | rfl | rfl <;> decide +kernel
      · dsimp only; omega
    all_goals dsimp only at hv0 hv1; omega

/-- Page 1 of `dataFile` is frame 2, and its data goes elsewhere. -/
theorem loader_image_wrong : ¬ ∀ (file : HostFile) (stack : Nat → UInt8) (b : Bitmap),
    WellFormed file (noffHeader file stack) b →
    ∀ mem, ∃ r, AddrSpace.construct file stack b mem = some r
      ∧ ImageRight file (noffHeader file stack) r := by
  intro h
  have hh : noffHeader dataFile (fun _ => 0) =
      ⟨noffMagicNumber, ⟨0, 0, 0⟩, ⟨512, 52, 1⟩, ⟨0, 0, 0⟩, ⟨0, 0, 0⟩⟩ := by decide +kernel
  have hwf : WellFormed dataFile (noffHeader dataFile fun _ => 0) frameOneTaken := by
    rw [hh]
    refine ⟨by decide +kernel, rfl, by decide +kernel, by decide +kernel, by decide +kernel⟩
  have hrun : (AddrSpace.construct dataFile (fun _ => 0) frameOneTaken (fun _ => 0)).map
      (fun r => (r.mem 1024, r.pageTable.map TranslationEntry.physicalPage)) =
      some (0, [0, 2, 3]) := by
    decide +kernel
  obtain ⟨r, hr, hright⟩ := h dataFile (fun _ => 0) frameOneTaken hwf (fun _ => 0)
  rw [hr, Option.map_some] at hrun
  injection hrun with hrun
  injection hrun with hmem hpt
  rw [hh] at hright
  obtain ⟨e, he, hbyte⟩ := hright ⟨512, 52, 1⟩ (by decide) 512 (by decide) (by decide)
  have hpage : (r.pageTable.map TranslationEntry.physicalPage)[1]? = some e.physicalPage := by
    rw [List.getElem?_map]
    exact congrArg (Option.map _) he
  rw [hpt] at hpage
  rw [← Option.some.inj hpage] at hbyte
  have hwant : List.getD dataFile 52 0 = 7 := by decide +kernel
  exact absurd (hmem.symm.trans (hbyte.trans hwant)) (by decide)

end Nachos
