import Nachos.Proof.Residue
import Nachos.Proof.Segments

/-!
# From the linker to the memory of a process

The linker script puts the sections one behind the other, from address 0 on, and `coff2noff` copies
them in that order. So the distance between the address of a byte and its offset in the output is
the same for all of them, and this is why the constructor, whose loops read whole pages
past the end of a segment, can put every byte in its place.

Its loops add the address of a segment to that of a frame. For the code, at 0, this is right
with any frames. For initialized data it is right when page `i` has frame `i`, as it does for the
first program.
-/

namespace Nachos.Coff2noff

open Base (writeOver length_writeOver getD_writeOver bind_eq_of_ok get_bind)

variable {host : Host} {file : List UInt8} {c : Conv} {s : Scnhdr} {k : Raw}

/-! ## What the linker script lays out -/

/-- Those of the sections that are in the file follow one another in memory, from `a` on. -/
def RunsOn : Nat → List Scnhdr → Prop
  | _, [] => True
  | a, s :: ss => (s.rawSize ≠ 0 → s.sPaddr.toNat = a) ∧ RunsOn (a + s.rawSize) ss

instance decidableRunsOn : (a : Nat) → (sections : List Scnhdr) → Decidable (RunsOn a sections)
  | _, [] => inferInstanceAs (Decidable True)
  | a, s :: ss =>
      have := decidableRunsOn (a + s.rawSize) ss
      inferInstanceAs (Decidable ((s.rawSize ≠ 0 → s.sPaddr.toNat = a) ∧ RunsOn (a + s.rawSize) ss))

/-- The bytes of a section that the constructor counts. -/
def Scnhdr.counted (s : Scnhdr) : Nat := if s.named dotRdata then 0 else s.sSize.toNat

/-- All of its bytes. -/
def Scnhdr.whole (s : Scnhdr) : Nat := s.sSize.toNat

/-- The pages that the constructor makes room for. -/
def pagesFor (sections : List Scnhdr) : Nat :=
  divRoundUp ((sections.map Scnhdr.counted).sum + userStackSize) pageSize

/-- Those that `Load` takes the program to have. -/
def loadPagesFor (sections : List Scnhdr) : Nat :=
  divRoundUp ((sections.map Scnhdr.whole).sum + userStackSize) pageSize

theorem divRoundUp_mono {a b : Nat} (h : a ≤ b) (s : Nat) : divRoundUp a s ≤ divRoundUp b s := by
  have hdiv := Nat.div_le_div_right (c := s) h
  unfold divRoundUp
  by_cases he : a / s = b / s
  · have ha := Nat.div_add_mod a s
    have hb := Nat.div_add_mod b s
    rw [he] at ha ⊢
    split <;> split <;> omega
  · split <;> split <;> omega

/-- The frame of page `i` will be frame `i`, for the first `n` pages. -/
def SameFrames (b : Bitmap) (n : Nat) : Prop := b.clearBits.take n = List.range n

/-- An executable as the linker script makes it. -/
structure Linked (sections : List Scnhdr) : Prop where
  runsOn : RunsOn 0 sections
  text : ∃ s ∈ sections, s.Is dotText ∧ s.sPaddr = 0#32
  /-- The read only data, which are not counted, fit as well. -/
  fits : (sections.map Scnhdr.rawSize).sum ≤ pagesFor sections * pageSize

/-! ## Where the sections are in the output -/

/-- After the sections `before`. -/
structure Straight (before : List Scnhdr) (c : Conv) : Prop where
  offset : c.fdOut = noffHeaderSize + (before.map Scnhdr.rawSize).sum
  segment : ∀ k : Raw, ∀ s ∈ before, s.Is k.name →
    (k.get c.noffH).inFileAddr.toNat = noffHeaderSize + s.sPaddr.toNat
  counted : c.noffH.code.size.toNat + c.noffH.initData.size.toNat + c.noffH.uninitData.size.toNat =
    (before.map Scnhdr.counted).sum
  whole : c.noffH.code.size.toNat + c.noffH.readonlyData.size.toNat + c.noffH.initData.size.toNat +
    c.noffH.uninitData.size.toNat = (before.map Scnhdr.whole).sum

theorem straight_start (fdIn : Nat) (h : NoffHeader) : Straight [] (Conv.ready fdIn h) where
  offset := rfl
  segment := fun _ _ hs => absurd hs List.not_mem_nil
  counted := rfl
  whole := rfl

theorem sum_map_snoc (f : Scnhdr → Nat) (before : List Scnhdr) (s : Scnhdr) :
    ((before ++ [s]).map f).sum = (before.map f).sum + f s := by
  rw [List.map_append, List.sum_append, List.map_singleton, List.sum_singleton]

theorem counted_of_is (h : s.Is k.name) : s.counted = if k = .readonlyData then 0
    else s.sSize.toNat := by
  have hiff : s.named dotRdata = true ↔ k = .readonlyData := by
    constructor
    · intro hn
      exact Raw.name_inj (strcmpEq_unique k.noZero (Raw.noZero .readonlyData) h.2 hn)
    · rintro rfl
      exact h.2
  unfold Scnhdr.counted
  simp only [hiff]

theorem counted_of_bss (h : s.Is dotBss) : s.counted = s.sSize.toNat := by
  refine if_neg fun hn => Raw.name_ne_bss .readonlyData ?_
  exact strcmpEq_unique (Raw.noZero .readonlyData) bss_noZero hn h.2

theorem rawSize_of_bss (h : s.Is dotBss) : s.rawSize = 0 := by
  have hno : ∀ k : Raw, s.named k.name = false := fun k => Bool.eq_false_iff.mpr fun hn =>
    k.name_ne_bss (strcmpEq_unique k.noZero bss_noZero hn h.2)
  unfold Scnhdr.rawSize
  rw [show s.named dotText = false from hno .code, show s.named dotData = false from hno .initData,
    show s.named dotRdata = false from hno .readonlyData]
  rfl

theorem sizes_of_empty (h : s.sSize = 0#32) : s.rawSize = 0 ∧ s.counted = 0 ∧ s.whole = 0 := by
  unfold Scnhdr.rawSize Scnhdr.counted Scnhdr.whole
  rw [h]
  exact ⟨ite_self 0, ite_self 0, rfl⟩

theorem Straight.skip {before : List Scnhdr} (h : Straight before c) (hs : s.sSize = 0#32) :
    Straight (before ++ [s]) c := by
  obtain ⟨hraw, hcounted, hwhole⟩ := sizes_of_empty hs
  refine ⟨?_, fun k s' hs' his => ?_, ?_, ?_⟩
  · rw [sum_map_snoc, hraw, Nat.add_zero]
    exact h.offset
  · exact h.segment k s' (mem_before (fun his' => his'.1 hs) hs' his) his
  · rw [sum_map_snoc, hcounted, Nat.add_zero]
    exact h.counted
  · rw [sum_map_snoc, hwhole, Nat.add_zero]
    exact h.whole

/-- A section that is copied goes to the offset that its address says. -/
theorem Straight.copy {before : List Scnhdr} (h : Straight before c)
    (hc : Converted host file before c)
    (hs : s.Is k.name) (hfirst : ∀ s' ∈ before, ¬ s'.Is k.name) (hin : s.Inside file)
    (haddr : s.sPaddr.toNat = (before.map Scnhdr.rawSize).sum) :
    Straight (before ++ [s]) (copied file k.put s c) := by
  have hother : ∀ k', k' ≠ k → k'.get (copied file k.put s c).noffH = k'.get c.noffH :=
    fun k' hne => Raw.get_put_ne hne _ _
  have hnew : k.get (copied file k.put s c).noffH = ⟨s.sPaddr, c.inNoffFile, s.sSize⟩ :=
    Raw.get_put_self _ _ _
  constructor
  case offset =>
    show c.fdOut + s.count = _
    rw [sum_map_snoc, rawSize_of_is hs, hin.count_eq, h.offset, Nat.add_assoc]
  case segment =>
    intro k' s' hs' his
    by_cases hk : k' = k
    · subst hk
      obtain rfl : s' = s := by
        rcases List.mem_append.mp hs' with hs' | hs'
        · exact absurd his (hfirst s' hs')
        · exact List.mem_singleton.mp hs'
      rw [hnew]
      show c.inNoffFile.toNat = _
      rw [hc.position, h.offset, haddr]
    · rw [hother k' hk]
      refine h.segment k' s' (mem_before (fun his' => hk ?_) hs' his) his
      exact Raw.name_inj (his'.unique hs k'.noZero k.noZero)
  case counted =>
    have hzero := hc.absent k hfirst
    rw [sum_map_snoc, counted_of_is hs, ← h.counted]
    cases k with
    | code =>
        have hz : c.noffH.code.size = 0#32 := hzero
        show s.sSize.toNat + _ + _ = _
        rw [hz, if_neg (by decide)]
        show s.sSize.toNat + c.noffH.initData.size.toNat + c.noffH.uninitData.size.toNat =
          0 + c.noffH.initData.size.toNat + c.noffH.uninitData.size.toNat + s.sSize.toNat
        omega
    | initData =>
        have hz : c.noffH.initData.size = 0#32 := hzero
        show _ + s.sSize.toNat + _ = _
        rw [hz, if_neg (by decide)]
        show c.noffH.code.size.toNat + s.sSize.toNat + c.noffH.uninitData.size.toNat =
          c.noffH.code.size.toNat + 0 + c.noffH.uninitData.size.toNat + s.sSize.toNat
        omega
    | readonlyData =>
        rw [if_pos rfl, Nat.add_zero]
        rfl
  case whole =>
    have hzero : (k.get c.noffH).size.toNat = 0 := congrArg BitVec.toNat (hc.absent k hfirst)
    rw [sum_map_snoc, ← h.whole]
    unfold Scnhdr.whole
    cases k with
    | code =>
        show s.sSize.toNat + c.noffH.readonlyData.size.toNat + c.noffH.initData.size.toNat +
          c.noffH.uninitData.size.toNat = _
        change c.noffH.code.size.toNat = 0 at hzero
        omega
    | initData =>
        show c.noffH.code.size.toNat + c.noffH.readonlyData.size.toNat + s.sSize.toNat +
          c.noffH.uninitData.size.toNat = _
        change c.noffH.initData.size.toNat = 0 at hzero
        omega
    | readonlyData =>
        show c.noffH.code.size.toNat + s.sSize.toNat + c.noffH.initData.size.toNat +
          c.noffH.uninitData.size.toNat = _
        change c.noffH.readonlyData.size.toNat = 0 at hzero
        omega

/-- `.bss` is noted, and nothing else. -/
theorem loadSection_notes (hs : s.Is dotBss) (hzero : c.noffH.uninitData.size = 0#32) :
    loadSection host file s c = .ok () { c with noffH := { c.noffH with
      uninitData := { c.noffH.uninitData with virtualAddr := s.sPaddr, size := s.sSize } } } := by
  rw [loadSection_bss hs]
  unfold mergeBss
  rw [get_bind, if_neg (not_not.mpr hzero)]
  rfl

theorem Straight.note {before : List Scnhdr} (h : Straight before c) (hs : s.Is dotBss)
    (hzero : c.noffH.uninitData.size = 0#32) :
    Straight (before ++ [s]) { c with noffH := { c.noffH with
      uninitData := { c.noffH.uninitData with virtualAddr := s.sPaddr, size := s.sSize } } } := by
  constructor
  case offset =>
    rw [sum_map_snoc, rawSize_of_bss hs, Nat.add_zero]
    exact h.offset
  case segment =>
    intro k s' hs' his
    have hold := h.segment k s' (mem_before
      (fun his' => k.name_ne_bss (his'.unique hs k.noZero bss_noZero)) hs' his) his
    cases k <;> exact hold
  case counted =>
    rw [sum_map_snoc, counted_of_bss hs, ← h.counted, hzero]
    rfl
  case whole =>
    rw [sum_map_snoc, ← h.whole, hzero]
    rfl

/-- **The sections come to lie straight.** -/
theorem loadSections_straight : ∀ (sections before : List Scnhdr) {c : Conv},
    Converted host file before c → Straight before c → Regular file (before ++ sections) →
    (∀ s ∈ sections, s.rawSize ≤ host.memory) →
    c.fdOut + (sections.map Scnhdr.rawSize).sum ≤ host.room →
    RunsOn (before.map Scnhdr.rawSize).sum sections →
    ∃ c', loadSections host file sections c = .ok () c' ∧ c'.fdOut ≤ host.room ∧
      Converted host file (before ++ sections) c' ∧ Straight (before ++ sections) c' := by
  intro sections
  induction sections with
  | nil =>
      intro before c h hst _ _ hroom _
      exact ⟨c, rfl, hroom, by rwa [List.append_nil], by rwa [List.append_nil]⟩
  | cons s sections ih =>
      intro before c h hst hregular hmemory hroom ⟨haddr, hrest⟩
      rw [List.map_cons, List.sum_cons] at hroom
      have hmem : s ∈ before ++ s :: sections := List.mem_append_right _ List.mem_cons_self
      have hfirst : ∀ name ∈ names, s.Is name → ∀ s' ∈ before, ¬ s'.Is name := by
        intro name hname his s' hs' his'
        exact (List.pairwise_append.mp hregular.once).2.2 s' hs' s List.mem_cons_self name
          hname his' his
      obtain ⟨c₁, hrun₁, h₁, hst₁⟩ : ∃ c₁, loadSection host file s c = .ok () c₁ ∧
          Converted host file (before ++ [s]) c₁ ∧ Straight (before ++ [s]) c₁ := by
        by_cases hempty : s.sSize = 0#32
        · exact ⟨c, by rw [loadSection_empty hempty]; rfl, h.skip hempty, hst.skip hempty⟩
        · rcases hregular.named s hmem hempty with ⟨k, his⟩ | his
          · have hin := hregular.inside s hmem k his
            have hpos := hin.count_pos hempty
            have hraw := (rawSize_of_is his).trans hin.count_eq.symm
            refine ⟨_, loadSection_copies his hin (hmemory s List.mem_cons_self) (by omega),
              h.copy his (hfirst _ k.mem_names his) hin (by omega), ?_⟩
            exact hst.copy h his (hfirst _ k.mem_names his) hin (haddr (by omega))
          · have hzero := h.noBss (hfirst _ bss_mem_names his)
            obtain ⟨c₁, hrun, _, hnext⟩ := h.note his
              (hfirst _ bss_mem_names his)
            rw [loadSection_notes his hzero] at hrun
            obtain rfl := (EStateM.Result.ok.inj hrun).2
            exact ⟨_, loadSection_notes his hzero, hnext, hst.note his hzero⟩
      have hassoc : before ++ [s] ++ sections = before ++ s :: sections := by simp
      obtain ⟨c', hrun', hroom', h', hst'⟩ := ih (before ++ [s]) h₁ hst₁ (by rwa [hassoc])
        (fun s' hs' => hmemory s' (List.mem_cons_of_mem _ hs'))
        (by rw [hst₁.offset, sum_map_snoc, ← Nat.add_assoc, ← hst.offset]; omega)
        (by rw [sum_map_snoc]; exact hrest)
      rw [hassoc] at h' hst'
      refine ⟨c', ?_, hroom', h', hst'⟩
      rw [loadSections, bind_eq_of_ok hrun₁]
      exact hrun'

/-! ## Where the constructor puts them -/

section Landing

variable {out : HostFile} {seg : Nachos.Segment} {frames : List Int} {v d : Nat}

/-- The loop of a segment at address 0, with any frames. -/
theorem landing_first (hva : seg.virtualAddr = 0) (hpos : seg.inFileAddr = d) (hnd : frames.Nodup)
    {p : Int} (hp : frames[v / pageSize]? = some p) (hlt : d + v < out.length) :
    landing out seg 0 frames (p * pageSize + (v % pageSize : Nat)) = some (d + v) := by
  have hps : (pageSize : Int) = 512 := rfl
  have hpn : pageSize = 512 := rfl
  have hpage : (p * pageSize + (v % pageSize : Nat) - seg.virtualAddr) / pageSize = p := by
    rw [hva, hps, hpn]
    omega
  have hoff : (seg.inFileAddr + ((0 + v / pageSize) * pageSize : Nat) +
      (p * pageSize + (v % pageSize : Nat) - seg.virtualAddr) % pageSize).toNat = d + v := by
    rw [hva, hpos, hps, hpn]
    omega
  unfold landing
  rw [hpage, (idxOf?_eq_some_iff_getElem? hnd).mpr hp, Option.bind_some]
  dsimp only
  rw [hoff, if_pos hlt]

/-- The loop of any segment, when page `i` has frame `i`. What is below the segment is left
alone. -/
theorem landing_same {n : Nat} (hva : 0 ≤ seg.virtualAddr)
    (hpos : seg.inFileAddr = d + seg.virtualAddr)
    (hlt : d + v < out.length) (hv : v < n * pageSize) :
    landing out seg 0 ((List.range n).map Int.ofNat) v = some (d + v) ∨
      landing out seg 0 ((List.range n).map Int.ofNat) v = none := by
  have hps : (pageSize : Int) = 512 := rfl
  have hpn : pageSize = 512 := rfl
  rw [hpn] at hv
  by_cases hbelow : (v : Int) < seg.virtualAddr
  · refine .inr (landing_none_of_not_mem fun hm => ?_)
    obtain ⟨i, _, hi⟩ := List.mem_map.mp hm
    rw [hps] at hi
    have : (0 : Int) ≤ Int.ofNat i := Int.natCast_nonneg i
    omega
  · refine .inl ?_
    generalize hm : ((v - seg.virtualAddr).toNat : Nat) = m
    have hpage : ((v : Int) - seg.virtualAddr) / pageSize = (m / 512 : Nat) := by
      rw [hps]
      omega
    have hk : ((List.range n).map Int.ofNat)[m / 512]? = some ((m / 512 : Nat) : Int) := by
      rw [List.getElem?_map, List.getElem?_range (by omega)]
      rfl
    have hoff : (seg.inFileAddr + ((0 + m / 512) * pageSize : Nat) +
        ((v : Int) - seg.virtualAddr) % pageSize).toNat = d + v := by
      rw [hpos, hps, hpn]
      omega
    have hnd : ((List.range n).map Int.ofNat).Nodup :=
      List.nodup_range.map fun _ _ he => Int.ofNat.inj he
    unfold landing
    rw [hpage, (idxOf?_eq_some_iff_getElem? hnd).mpr hk, Option.bind_some]
    dsimp only
    rw [hoff, if_pos hlt]

/-- A header whose segments lie in the file as they will lie in memory. -/
structure Flat (noffH : Nachos.NoffHeader) : Prop where
  code : noffH.code.virtualAddr = 0 ∧ 0 < noffH.code.size
  straight : ∀ k : Raw, 0 < (k.of noffH).size → 0 ≤ (k.of noffH).virtualAddr ∧
    (k.of noffH).virtualAddr ≤ memorySize ∧
    (k.of noffH).inFileAddr = noffHeaderSize + (k.of noffH).virtualAddr

variable {noffH : Nachos.NoffHeader}

theorem Flat.loads (h : Flat noffH) {b : Bitmap} (hb : b.numBits = numPhysPages) :
    noffH.Loads b := by
  have hmem : memorySize = 65536 := rfl
  have hhead : noffHeaderSize = 52 := rfl
  have hpn : pageSize = 512 := rfl
  intro seg hseg hsize i hi
  have hphys : noffH.pagesGranted b ≤ 128 := pagesGranted_le_phys noffH hb
  have hpos : 0 ≤ seg.inFileAddr ∧ seg.inFileAddr ≤ 65588 := by
    simp only [List.mem_cons, List.not_mem_nil, or_false] at hseg
    rcases hseg with rfl | rfl
    · have := h.straight .code hsize
      dsimp only [Raw.of] at this
      omega
    · have := h.straight .initData hsize
      dsimp only [Raw.of] at this
      omega
  unfold loadPosition
  rw [hpn, toInt32_of_range (by omega) (by unfold intMax; omega)]
  omega

/-- The byte at `v` in memory comes from offset `v` behind the header. -/
theorem Flat.source (h : Flat noffH) {n : Nat}
    (hframes : noffH.initData.size ≤ 0 ∨ frames = (List.range n).map Int.ofNat) (hnd : frames.Nodup)
    {p : Int} (hp : frames[v / pageSize]? = some p) (hlt : noffHeaderSize + v < out.length)
    (hv : v < n * pageSize) :
    noffH.source out frames (p * pageSize + (v % pageSize : Nat)) = some (noffHeaderSize + v) := by
  obtain ⟨hva, hsize⟩ := h.code
  obtain ⟨_, _, hpos⟩ := h.straight .code hsize
  dsimp only [Raw.of] at hpos
  rw [hva, Int.add_zero] at hpos
  have hcode := landing_first hva hpos hnd hp hlt
  unfold NoffHeader.source
  rw [if_pos hsize, hcode]
  by_cases hdata : 0 < noffH.initData.size
  · rw [if_pos hdata]
    have hsame := hframes.resolve_left (by omega)
    obtain ⟨hva', _, hpos'⟩ := h.straight .initData hdata
    have hidx : p * pageSize + (v % pageSize : Nat) = v := by
      have hps : (pageSize : Int) = 512 := rfl
      have hpn : pageSize = 512 := rfl
      rw [hpn] at hv
      rw [hsame, List.getElem?_map, List.getElem?_range (by rw [hpn]; omega)] at hp
      rw [← Option.some.inj hp, hps, hpn]
      show ((v / 512 : Nat) : Int) * 512 + _ = _
      omega
    rw [hidx, hsame]
    rcases landing_same (show 0 ≤ noffH.initData.virtualAddr from hva') hpos' hlt hv with he | he
    · rw [he]; rfl
    · rw [he]; rfl
  · rw [if_neg hdata]
    rfl

variable (out) in
/-- A segment that `Load` reads in one piece. -/
theorem readSegment_straight (hpos : 0 < seg.size → 0 ≤ seg.virtualAddr ∧
      seg.inFileAddr = d + seg.virtualAddr)
    (mem : Memory) : ∃ mem', readSegment out seg mem = some mem' ∧
      ∀ v : Nat, mem v = out.getD (d + v) 0 → mem' v = out.getD (d + v) 0 := by
  unfold readSegment
  by_cases hsize : 0 < seg.size
  · obtain ⟨hva, hdist⟩ := hpos hsize
    rw [if_pos hsize]
    unfold readAt
    rw [if_neg (by omega)]
    refine ⟨_, rfl, fun v hv => ?_⟩
    split
    · rw [show (seg.inFileAddr + (v - seg.virtualAddr)).toNat = d + v by omega]
    · exact hv
  · rw [if_neg hsize]
    exact ⟨mem, rfl, fun _ hv => hv⟩

/-- The table of a space that `Load` has been called on is the one the constructor has made. -/
theorem byteAt_loaded {b : Bitmap} (hb : b.numBits = numPhysPages) {mem mem' : Memory} {n : Nat}
    (hn : noffH.pagesGranted b ≤ n) {p : Int} (hp : (noffH.frames b)[v / pageSize]? = some p)
    (m : Machine) :
    (Built.restoreState { noffH.built b mem with mem := mem', numPages := n } m).byteAt v =
      some (mem' (p * pageSize + (v % pageSize : Nat))) := by
  have hbuilt : ((noffH.built b mem').restoreState m).byteAt v =
      some (mem' (p * pageSize + (v % pageSize : Nat))) := byteAt_built hb hp m
  obtain ⟨a, hplace, hbyte⟩ := Machine.place_of_byteAt hbuilt
  obtain ⟨hlt, hentry⟩ := (Machine.place_iff _ _ _ _).mp hplace
  rw [← hbyte]
  exact Machine.byteAt_of_place ((Machine.place_iff _ _ _ _).mpr
    ⟨Nat.lt_of_lt_of_le hlt hn, hentry⟩)

/-- The first `n` pages are the file behind its header. -/
def Behind (out : HostFile) (n : Nat) (r : Built) : Prop :=
  ∀ (m : Machine) (v : Nat), v < n * pageSize → noffHeaderSize + v < out.length →
    (r.restoreState m).byteAt v = some (out.getD (noffHeaderSize + v) 0)

/-- What the constructor leaves of such a file. -/
theorem Flat.construct (h : Flat noffH) {stack : Nat → UInt8} {b : Bitmap}
    (hheader : noffHeader out stack = noffH) (hm : noffH.noffMagic = Nachos.noffMagicNumber)
    (hb : b.numBits = numPhysPages) (hroom : noffH.numPages ≤ b.numClear)
    (hframes : noffH.initData.size ≤ 0 ∨
      noffH.frames b = (List.range (noffH.pagesGranted b)).map Int.ofNat)
    (mem : Memory) : ∃ mem', AddrSpace.construct out stack b mem = some (noffH.built b mem') ∧
      Behind out (noffH.pagesGranted b) (noffH.built b mem') := by
  subst hheader
  refine ⟨_, construct_eq hb hm (h.loads hb) hroom mem, fun m v hv hlt => ?_⟩
  obtain ⟨p, hp⟩ := frame_of_page hv
  rw [byteAt_built hb hp, overlay, h.source hframes (frames_nodup _ b) hp hlt hv]
  rfl

/-- What `Load` leaves then, when page `i` has frame `i`. -/
theorem Flat.loadProgram (h : Flat noffH) {stack : Nat → UInt8} {b : Bitmap}
    (hheader : noffHeader out stack = noffH) (hm : noffH.noffMagic = Nachos.noffMagicNumber)
    (hb : b.numBits = numPhysPages)
    (hframes : noffH.frames b = (List.range (noffH.pagesGranted b)).map Int.ofNat)
    (hpages : noffH.pagesGranted b ≤ noffH.loadNumPages) (hphys : noffH.loadNumPages ≤ numPhysPages)
    {mem : Memory} (hr : Behind out (noffH.pagesGranted b) (noffH.built b mem)) :
    ∃ r, AddrSpace.loadProgram out stack (noffH.built b mem) = some r ∧
      Behind out (noffH.pagesGranted b) r := by
  have hstraight : ∀ k : Raw, 0 < (k.of noffH).size → 0 ≤ (k.of noffH).virtualAddr ∧
      (k.of noffH).inFileAddr = (noffHeaderSize : Nat) + (k.of noffH).virtualAddr := fun k hk =>
    ⟨(h.straight k hk).1, (h.straight k hk).2.2⟩
  obtain ⟨mem₁, hread₁, hkeep₁⟩ := readSegment_straight out (hstraight .code) mem
  obtain ⟨mem₂, hread₂, hkeep₂⟩ := readSegment_straight out (hstraight .initData) mem₁
  obtain ⟨mem₃, hread₃, hkeep₃⟩ := readSegment_straight out (hstraight .readonlyData) mem₂
  have hrun : AddrSpace.loadProgram out stack (noffH.built b mem) =
      some { noffH.built b mem with mem := mem₃, numPages := noffH.loadNumPages } := by
    unfold AddrSpace.loadProgram AddrSpace.loadHeader
    rw [hheader, if_neg (not_not.mpr hm), if_pos hphys]
    refine Option.bind_eq_some_iff.mpr ⟨mem₁, hread₁,
      Option.bind_eq_some_iff.mpr ⟨mem₂, hread₂, ?_⟩⟩
    exact Option.map_eq_some_iff.mpr ⟨mem₃, hread₃, rfl⟩
  refine ⟨_, hrun, fun m v hv hlt => ?_⟩
  obtain ⟨p, hp⟩ := frame_of_page hv
  have hidx : p * pageSize + (v % pageSize : Nat) = v := by
    have hps : (pageSize : Int) = 512 := rfl
    have hpn : pageSize = 512 := rfl
    rw [hpn] at hv
    rw [hframes, List.getElem?_map, List.getElem?_range (by rw [hpn]; omega)] at hp
    rw [← Option.some.inj hp, hps, hpn]
    show ((v / 512 : Nat) : Int) * 512 + _ = _
    omega
  have hbyte := hr m v hv hlt
  rw [byteAt_built hb hp, hidx] at hbyte
  rw [byteAt_loaded hb hpages hp, hidx]
  exact congrArg some (hkeep₃ v (hkeep₂ v (hkeep₁ v (Option.some.inj hbyte))))

end Landing

/-! ## From the sections to the header -/

theorem RunsOn.end_le : ∀ {sections : List Scnhdr} {a : Nat}, RunsOn a sections → s ∈ sections →
    s.rawSize ≠ 0 → s.sPaddr.toNat + s.rawSize ≤ a + (sections.map Scnhdr.rawSize).sum := by
  intro sections
  induction sections with
  | nil => intro _ _ hs _; exact absurd hs List.not_mem_nil
  | cons s' sections ih =>
      intro a ⟨haddr, hrest⟩ hs hraw
      rw [List.map_cons, List.sum_cons]
      rcases List.mem_cons.mp hs with rfl | hs
      · rw [haddr hraw]
        omega
      · have := ih hrest hs hraw
        omega

/-- The number of pages in the words of the sections. -/
theorem Straight.numPages {sections : List Scnhdr} (h : Straight sections c)
    (hphys : pagesFor sections ≤ numPhysPages) : c.noffH.toInts.numPages = pagesFor sections := by
  have hle := le_divRoundUp_mul ((sections.map Scnhdr.counted).sum + userStackSize)
    (s := pageSize) (by decide)
  have hbound : (sections.map Scnhdr.counted).sum + userStackSize ≤ 65536 :=
    Nat.le_trans hle (Nat.mul_le_mul_right pageSize hphys)
  rw [← h.counted] at hbound
  have hspace : c.noffH.toInts.spaceSize = (sections.map Scnhdr.counted).sum + userStackSize := by
    rw [← h.counted]
    have hu : userStackSize = 1024 := rfl
    show toUInt32 (c.noffH.code.size.toInt + c.noffH.initData.size.toInt +
      c.noffH.uninitData.size.toInt + userStackSize) = _
    rw [BitVec.toInt_eq_toNat_of_lt (by omega), BitVec.toInt_eq_toNat_of_lt (by omega),
      BitVec.toInt_eq_toNat_of_lt (by omega)]
    unfold toUInt32
    omega
  show divRoundUp c.noffH.toInts.spaceSize pageSize = _
  rw [hspace]
  rfl

/-- A segment in the words of its section. -/
theorem Straight.segment_eq {sections : List Scnhdr} (h : Straight sections c)
    (hc : Converted host file sections c) (hroom : c.fdOut ≤ host.room) (hruns : RunsOn 0 sections)
    (hs : s ∈ sections) (his : s.Is k.name)
    (hsmall : (sections.map Scnhdr.rawSize).sum ≤ memorySize) :
    (k.get c.noffH).toInts = ⟨s.sPaddr.toNat, (noffHeaderSize + s.sPaddr.toNat : Nat),
      s.sSize.toNat⟩ ∧ s.sPaddr.toNat + s.sSize.toNat ≤ (sections.map Scnhdr.rawSize).sum := by
  have hmem : memorySize = 65536 := rfl
  have hraw := rawSize_of_is his
  have hpos : s.sSize.toNat ≠ 0 := fun hz => his.1 (BitVec.eq_of_toNat_eq hz)
  have hend := hruns.end_le hs (by omega)
  rw [hraw, Nat.zero_add] at hend
  have hplaced := hc.placed k s hs his
  obtain ⟨hstart, hsize⟩ := (hc.small hroom k).resolve_left (by rw [hplaced.size]; exact his.1)
  refine ⟨?_, hend⟩
  unfold Segment.toInts
  rw [hstart, hsize, h.segment k s hs his, hplaced.virtualAddr, hplaced.size,
    BitVec.toInt_eq_toNat_of_lt (by omega)]

/-- The constructor finds the header that was written. -/
theorem noffHeader_out (c : Conv) (stack : Nat → UInt8) :
    noffHeader (writeOver 0 c.out 0 c.noffH.bytes) stack = c.noffH.toInts := by
  rw [noffHeader_eq]
  refine decode_bytes _ fun i hi => ?_
  have hlen : i < (writeOver 0 c.out 0 c.noffH.bytes).length := by
    rw [length_writeOver, length_bytes]
    omega
  have hin : headerBuffer (writeOver 0 c.out 0 c.noffH.bytes) stack i =
      (writeOver 0 c.out 0 c.noffH.bytes).getD i 0 := by
    refine (if_pos (show i < Nachos.noffHeaderSize from hi)).trans ?_
    rw [List.getD_eq_getElem _ _ hlen, List.getD_eq_getElem _ _ hlen]
  rw [hin, getD_writeOver, if_pos ⟨Nat.zero_le i, by rw [length_bytes]; omega⟩, Nat.sub_zero]

theorem Straight.flat {sections : List Scnhdr} (h : Straight sections c)
    (hc : Converted host file sections c) (hroom : c.fdOut ≤ host.room) (hlinked : Linked sections)
    (hsmall : (sections.map Scnhdr.rawSize).sum ≤ memorySize) : Flat c.noffH.toInts := by
  constructor
  case code =>
    obtain ⟨s, hs, his, haddr⟩ := hlinked.text
    obtain ⟨heq, _⟩ := h.segment_eq (k := .code) hc hroom hlinked.runsOn hs his hsmall
    have hpos : s.sSize.toNat ≠ 0 := fun hz => his.1 (BitVec.eq_of_toNat_eq hz)
    show c.noffH.code.toInts.virtualAddr = 0 ∧ 0 < c.noffH.code.toInts.size
    rw [show c.noffH.code.toInts = _ from heq, haddr]
    exact ⟨rfl, by dsimp only; omega⟩
  case straight =>
    intro k hsize
    rw [Raw.of_toInts] at hsize ⊢
    have hex : ∃ s ∈ sections, s.Is k.name := by
      by_contra hno
      have hzero : (k.get c.noffH).toInts.size = 0 :=
        congrArg BitVec.toInt (hc.absent k fun s hs his => hno ⟨s, hs, his⟩)
      omega
    obtain ⟨s, hs, his⟩ := hex
    obtain ⟨heq, hend⟩ := h.segment_eq hc hroom hlinked.runsOn hs his hsmall
    rw [heq]
    dsimp only
    omega

/-- Each byte of each section is behind its address. -/
def InMemory (file : List UInt8) (sections : List Scnhdr) (r : Built) : Prop :=
  ∀ (m : Machine) (k : Raw), ∀ s ∈ sections, s.Is k.name → ∀ i < s.sSize.toNat,
    (r.restoreState m).byteAt (s.sPaddr.toNat + i : Nat) = some (file.getD (s.sScnptr.toNat + i) 0)

/-- What is behind the header is what was in the sections. -/
theorem Behind.inMemory {sections : List Scnhdr} {out : HostFile} {r : Built} {n : Nat}
    (hr : Behind out n r)
    (hst : Straight sections c) (hc : Converted host file sections c) (hroom : c.fdOut ≤ host.room)
    (hregular : Regular file sections) (hruns : RunsOn 0 sections)
    (hcomplete : Complete file out sections c.noffH.toInts)
    (hsmall : (sections.map Scnhdr.rawSize).sum ≤ memorySize)
    (hfits : (sections.map Scnhdr.rawSize).sum ≤ n * pageSize) : InMemory file sections r := by
  intro m k s hs his i hi
  obtain ⟨heq, hend⟩ := hst.segment_eq hc hroom hruns hs his hsmall
  have hdelivered := hcomplete.delivered k s hs his
  rw [Raw.of_toInts, heq] at hdelivered
  have hle := hdelivered.fits
  have hbyte := hdelivered.bytes i (by dsimp only; omega)
  dsimp only at hle hbyte
  rw [((hregular.inside s hs k his).lseek_eq 0).2,
    show (((noffHeaderSize + s.sPaddr.toNat : Nat) : Int) + i).toNat =
      noffHeaderSize + (s.sPaddr.toNat + i) by omega,
    show ((s.sScnptr.toNat : Int) + i).toNat = s.sScnptr.toNat + i by omega] at hbyte
  rw [← hbyte]
  exact hr m _ (by omega) (by omega)

theorem Straight.loadNumPages {sections : List Scnhdr} (h : Straight sections c)
    (hphys : loadPagesFor sections ≤ numPhysPages) :
    c.noffH.toInts.loadNumPages = loadPagesFor sections := by
  have hle :=
    le_divRoundUp_mul ((sections.map Scnhdr.whole).sum + userStackSize) (s := pageSize) (by decide)
  have hbound : (sections.map Scnhdr.whole).sum + userStackSize ≤ 65536 :=
    Nat.le_trans hle (Nat.mul_le_mul_right pageSize hphys)
  rw [← h.whole] at hbound
  have hspace : c.noffH.toInts.loadSize = (sections.map Scnhdr.whole).sum + userStackSize := by
    rw [← h.whole]
    have hu : userStackSize = 1024 := rfl
    show toUInt32 (c.noffH.code.size.toInt + c.noffH.readonlyData.size.toInt +
      c.noffH.initData.size.toInt + c.noffH.uninitData.size.toInt + userStackSize) = _
    rw [BitVec.toInt_eq_toNat_of_lt (by omega), BitVec.toInt_eq_toNat_of_lt (by omega),
      BitVec.toInt_eq_toNat_of_lt (by omega), BitVec.toInt_eq_toNat_of_lt (by omega)]
    unfold toUInt32
    omega
  show divRoundUp c.noffH.toInts.loadSize pageSize = _
  rw [hspace]
  rfl

/-- **What was linked is what runs.** An executable as the linker script makes it is converted and
given to the constructor. When it has no initialized data, or page `i` gets frame `i`, each byte of
each section is then behind its address, whatever memory held and whichever frames were clear. In
the second case, which is that of the first program, `Load` can be called as well. -/
theorem linked_program_in_memory (host : Host) (file : List UInt8) (stack : NoffHeader) (b : Bitmap)
    (hheaders : HasHeaders file) (hregular : Regular file (sectionsOf file))
    (hhost : host.Holds (sectionsOf file)) (hlinked : Linked (sectionsOf file))
    (hb : b.numBits = numPhysPages) (hclear : pagesFor (sectionsOf file) ≤ b.numClear)
    (hframes : (∀ s ∈ sectionsOf file, ¬ s.Is dotData) ∨
      SameFrames b (pagesFor (sectionsOf file))) :
    ∃ out, convert host file stack = .ok out ∧ ∀ (stack' : Nat → UInt8) (mem : Memory),
      ∃ r, AddrSpace.construct out stack' b mem = some r ∧ InMemory file (sectionsOf file) r ∧
        (SameFrames b (pagesFor (sectionsOf file)) → loadPagesFor (sectionsOf file) ≤ numPhysPages →
          ∃ r', AddrSpace.loadProgram out stack' r = some r' ∧
          InMemory file (sectionsOf file) r') := by
  generalize hsections : sectionsOf file = sections at *
  have htable := hhost.table
  rw [← hsections, length_sectionsOf] at htable
  obtain ⟨c, hrun, hroom, hc, hst⟩ := loadSections_straight sections []
    (converted_start (0 + filehdrSize + aouthdrSize + numSections file * scnhdrSize) stack)
    (straight_start _ _) hregular hhost.memory hhost.room hlinked.runsOn
  rw [List.nil_append] at hc hst
  have hout := convert_ok hheaders htable (Nat.le_trans hc.start hroom) (hsections ▸ hrun)
  refine ⟨_, hout, fun stack' mem => ?_⟩
  have hcomplete := hc.complete hregular hroom
  generalize hwritten : writeOver 0 c.out 0 c.noffH.bytes = out at hcomplete
  have hheader : noffHeader out stack' = c.noffH.toInts := hwritten ▸ noffHeader_out c stack'
  -- the pages, and the frames
  have hphys : pagesFor sections ≤ numPhysPages := by
    refine Nat.le_trans hclear ?_
    rw [Bitmap.numClear_eq, ← hb, Bitmap.clearBits]
    exact Nat.le_trans (List.length_filter_le _ _) (by simp)
  have hpages := hst.numPages hphys
  have hgranted : c.noffH.toInts.pagesGranted b = pagesFor sections := by
    unfold NoffHeader.pagesGranted
    rw [hpages, if_neg (by omega)]
  have hsame : SameFrames b (pagesFor sections) →
      c.noffH.toInts.frames b = (List.range (c.noffH.toInts.pagesGranted b)).map Int.ofNat := by
    intro htake
    unfold NoffHeader.frames
    rw [hgranted, show b.clearBits.take _ = _ from htake]
  have hsmall : (sections.map Scnhdr.rawSize).sum ≤ memorySize :=
    Nat.le_trans hlinked.fits (Nat.mul_le_mul_right pageSize hphys)
  have hflat := hst.flat hc hroom hlinked hsmall
  have hinMemory : ∀ r, Behind out (c.noffH.toInts.pagesGranted b) r → InMemory file sections r :=
    fun r hr => hr.inMemory hst hc hroom hregular hlinked.runsOn hcomplete hsmall
      (hgranted.symm ▸ hlinked.fits)
  obtain ⟨mem', hconstruct, hbehind⟩ := hflat.construct hheader hcomplete.magic hb
    (by rw [hpages]; exact hclear)
    (hframes.imp (fun hno => le_of_eq (hcomplete.absent .initData hno)) hsame) mem
  refine ⟨_, hconstruct, hinMemory _ hbehind, fun htake hload => ?_⟩
  have hmore : pagesFor sections ≤ loadPagesFor sections := by
    refine divRoundUp_mono ?_ pageSize
    rw [← hst.counted, ← hst.whole]
    omega
  have hloadPages := hst.loadNumPages hload
  obtain ⟨r', hrun', hbehind'⟩ := hflat.loadProgram hheader hcomplete.magic hb (hsame htake)
    (by rw [hgranted, hloadPages]; exact hmore) (by rw [hloadPages]; exact hload) hbehind
  exact ⟨r', hrun', hinMemory r' hbehind'⟩

/-- `.text`, `.data` and `.bss`, as they are linked. -/
def linkedFile : List UInt8 :=
  [0x62, 0x01, 3, 0] ++ List.replicate 16 0 ++ [0x07, 0x01] ++ List.replicate 54 0
    ++ scnhdrBytes dotText 0 4 196 ++ scnhdrBytes dotData 4 2 200 ++ scnhdrBytes dotBss 6 16 0 ++
    [1, 2, 3, 4, 5, 6]

theorem linkedFile_regular : Regular linkedFile (sectionsOf linkedFile) where
  named := by
    have hall : ∀ s ∈ sectionsOf linkedFile,
        s.Is dotText ∨ s.Is dotData ∨ s.Is dotBss := by decide +kernel
    intro s hs _
    rcases hall s hs with h | h | h
    · exact .inl ⟨.code, h⟩
    · exact .inl ⟨.initData, h⟩
    · exact .inr h
  once := by decide +kernel
  inside := by
    have hall : ∀ s ∈ sectionsOf linkedFile, ¬ s.Is dotBss → 0 ≤ s.sScnptr.toInt ∧
      0 ≤ s.sSize.toInt ∧
        s.sScnptr.toInt + s.sSize.toInt ≤ (linkedFile.length : Int) := by decide +kernel
    intro s hs k his
    obtain ⟨hptr, hsize, hle⟩ :=
      hall s hs fun hbss => k.name_ne_bss (his.unique hbss k.noZero bss_noZero)
    exact ⟨hptr, hsize, hle⟩

theorem linkedFile_linked : Linked (sectionsOf linkedFile) where
  runsOn := by decide +kernel
  text := by decide +kernel
  fits := by decide +kernel

theorem linked_program_in_memory_linkedFile : ∃ out r r',
    convert smallHost linkedFile ⟨7#32, ⟨8#32, 9#32, 10#32⟩, ⟨8#32, 9#32, 10#32⟩,
      ⟨8#32, 9#32, 10#32⟩, ⟨8#32, 9#32, 10#32⟩⟩ = .ok out ∧
    AddrSpace.construct out (fun _ => 0) (Bitmap.new numPhysPages numPhysPages_pos)
    (fun _ => 1) = some r ∧
    AddrSpace.loadProgram out (fun _ => 0) r = some r' ∧
      InMemory linkedFile (sectionsOf linkedFile) r' := by
  have hsame :
      SameFrames (Bitmap.new numPhysPages numPhysPages_pos) (pagesFor (sectionsOf linkedFile)) := by
    unfold SameFrames
    decide +kernel
  obtain ⟨out, hout, hrun⟩ := linked_program_in_memory smallHost linkedFile
    ⟨7#32, ⟨8#32, 9#32, 10#32⟩, ⟨8#32, 9#32, 10#32⟩, ⟨8#32, 9#32, 10#32⟩, ⟨8#32, 9#32, 10#32⟩⟩
    (Bitmap.new numPhysPages numPhysPages_pos) ⟨by decide +kernel, by decide +kernel,
    by decide +kernel⟩
    linkedFile_regular ⟨by decide +kernel, by decide +kernel, by decide +kernel⟩ linkedFile_linked
    (by decide +kernel) (by decide +kernel) (.inr hsame)
  obtain ⟨r, hr, _, hload⟩ := hrun (fun _ => 0) fun _ => 1
  obtain ⟨r', hr', hin⟩ := hload hsame (by decide +kernel)
  exact ⟨out, r, r', hout, hr, hr', hin⟩

end Nachos.Coff2noff
