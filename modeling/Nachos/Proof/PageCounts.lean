import Nachos.Proof.Residue

/-!
# How many pages a program has

The number of pages is computed twice. The constructor leaves the read only data out, takes
that many frames and makes a table of that many entries; `Load` counts them and stores the
result over the first. `RestoreState` then tells the hardware the second number together with
the table of the first.

So the two have to agree, and they do when the read only data fit into what is left
of the last page. A constructor that finds too few frames leaves no numbers behind: it does
not return.
-/

namespace Nachos

/-- What the program needs, in exact numbers: all four segments and the stack. -/
def NoffHeader.needs (h : NoffHeader) : Int :=
  h.code.size + h.readonlyData.size + h.initData.size + h.uninitData.size + userStackSize

/-- The sizes of the segments are sizes. -/
def NoffHeader.Sized (h : NoffHeader) : Prop :=
  ∀ seg ∈ [h.code, h.readonlyData, h.initData, h.uninitData], 0 ≤ seg.size

instance (h : NoffHeader) : Decidable h.Sized := inferInstanceAs (Decidable (∀ seg ∈ _, _))

/-- **The page counts agree**: `space` is what the constructor left behind, `loaded` what `Load`
made of it, and `h` the header that both have read. -/
structure PagesAgree (h : NoffHeader) (space loaded : Built) : Prop where
  count : space.numPages = loaded.numPages
  table : loaded.pageTable.length = loaded.numPages
  room : h.needs ≤ (loaded.numPages * pageSize : Nat)
  published : ∀ m : Machine, (loaded.restoreState m).pageTableSize ≤ loaded.pageTable.length

/-! ## What each of the two leaves behind -/

/-- A file that is long enough has one header, whatever was on the stack. -/
theorem noffHeader_stack {file : HostFile} (hlen : noffHeaderSize ≤ file.length)
    (stack stack' : Nat → UInt8) : noffHeader file stack = noffHeader file stack' := by
  have hbyte : ∀ off, off < noffHeaderSize →
      headerBuffer file stack off = headerBuffer file stack' off := by
    intro off hoff
    have hin : off < file.length := by omega
    simp only [headerBuffer, if_pos hoff, List.getD_eq_getElem?_getD, List.getElem?_eq_getElem hin,
      Option.getD_some]
  have hsize : noffHeaderSize = 52 := rfl
  have hword : ∀ off, off + 3 < noffHeaderSize →
      wordAt (headerBuffer file stack) off = wordAt (headerBuffer file stack') off := by
    intro off hoff
    unfold wordAt
    rw [hbyte off (by omega), hbyte (off + 1) (by omega), hbyte (off + 2) (by omega),
      hbyte (off + 3) (by omega)]
  have hseg : ∀ off, off + 11 < noffHeaderSize →
      segmentAt (headerBuffer file stack) off = segmentAt (headerBuffer file stack') off := by
    intro off hoff
    unfold segmentAt
    rw [hword off (by omega), hword (off + 4) (by omega), hword (off + 8) (by omega)]
  rw [noffHeader_eq, noffHeader_eq]
  unfold NoffHeader.decode
  rw [hword 0 (by decide), hseg 4 (by decide), hseg 16 (by decide), hseg 28 (by decide),
    hseg 40 (by decide)]

theorem load_counts {h : NoffHeader} {file : HostFile} {b : Bitmap} {mem : Memory} {space : Built}
    (hload : AddrSpace.load h file b mem = some space) :
    space.numPages = h.numPages ∧ space.pageTable.length = h.numPages := by
  obtain ⟨_, hroom⟩ := loads_of_load hload
  obtain ⟨mem', rfl⟩ := built_of_load hload
  have hgranted : h.pagesGranted b = h.numPages := if_neg (Nat.not_lt.mpr hroom)
  exact ⟨hgranted, (alloc_length h b).trans hgranted⟩

theorem construct_counts {file : HostFile} {stack : Nat → UInt8} {b : Bitmap} {mem : Memory}
    {space : Built} (hcon : AddrSpace.construct file stack b mem = some space) :
    space.numPages = (noffHeader file stack).numPages ∧
      space.pageTable.length = (noffHeader file stack).numPages := by
  by_cases hm : (noffHeader file stack).noffMagic = noffMagicNumber
  · rw [construct_eq_load hm] at hcon
    exact load_counts hcon
  · rw [AddrSpace.construct, if_pos hm] at hcon
    exact absurd hcon (by simp)

theorem loadHeader_counts {h : NoffHeader} {file : HostFile} {space loaded : Built}
    (hload : AddrSpace.loadHeader h file space = some loaded) :
    loaded.numPages = h.loadNumPages ∧ loaded.pageTable = space.pageTable := by
  unfold AddrSpace.loadHeader at hload
  split at hload
  · obtain ⟨_, _, hload⟩ := Option.bind_eq_some_iff.mp hload
    obtain ⟨_, _, hload⟩ := Option.bind_eq_some_iff.mp hload
    obtain ⟨_, _, rfl⟩ := Option.map_eq_some_iff.mp hload
    exact ⟨rfl, rfl⟩
  · exact absurd hload (by simp)

theorem loadProgram_counts {file : HostFile} {stack : Nat → UInt8} {space loaded : Built}
    (hload : AddrSpace.loadProgram file stack space = some loaded) :
    loaded.numPages = (noffHeader file stack).loadNumPages ∧
    loaded.pageTable = space.pageTable := by
  by_cases hm : (noffHeader file stack).noffMagic = noffMagicNumber
  · rw [AddrSpace.loadProgram, if_neg (not_not.mpr hm)] at hload
    exact loadHeader_counts hload
  · rw [AddrSpace.loadProgram, if_pos hm] at hload
    exact absurd hload (by simp)

/-! ## When they agree -/

/-- The number of pages that hold `size` bytes. -/
def pagesFor (size : Int) : Nat := divRoundUp size.toNat pageSize

/-- **The condition**: the program needs no more pages with its read only data than without. -/
def NoffHeader.FitsPages (h : NoffHeader) : Prop :=
  pagesFor (h.needs - h.readonlyData.size) = pagesFor h.needs

instance (h : NoffHeader) : Decidable h.FitsPages := inferInstanceAs (Decidable (_ = _))

section Sizes

variable {h : NoffHeader} (hs : h.Sized) (hsum : h.needs < 4294967296)
include hs hsum

/-- Sizes whose sum fits are added up without wrapping. -/
theorem counts_exact :
    h.numPages = pagesFor (h.needs - h.readonlyData.size) ∧ h.loadNumPages = pagesFor h.needs := by
  have h1 := hs h.code (by simp)
  have h2 := hs h.readonlyData (by simp)
  have h3 := hs h.initData (by simp)
  have h4 := hs h.uninitData (by simp)
  have hexact : ∀ x : Int, 0 ≤ x → x < 4294967296 → toUInt32 x = x.toNat := by
    intro x h0 h1
    unfold toUInt32
    omega
  have hneeds : h.needs =
      h.code.size + h.readonlyData.size + h.initData.size + h.uninitData.size + userStackSize := rfl
  constructor
  · unfold NoffHeader.numPages NoffHeader.spaceSize pagesFor
    rw [hexact _ (by omega) (by omega)]
    congr 2
    omega
  · unfold NoffHeader.loadNumPages NoffHeader.loadSize pagesFor
    rw [← hneeds, hexact _ (by omega) hsum]

omit hs hsum in
theorem needs_le_pages (h : NoffHeader) : h.needs ≤ (pagesFor h.needs * pageSize : Nat) := by
  have hle := le_divRoundUp_mul h.needs.toNat (s := pageSize) (by decide)
  unfold pagesFor
  omega

theorem agree_iff {space loaded : Built} (hcount : space.numPages = h.numPages)
    (htable : space.pageTable.length = h.numPages) (hload : loaded.numPages = h.loadNumPages)
    (hkeep : loaded.pageTable = space.pageTable) : PagesAgree h space loaded ↔ h.FitsPages := by
  obtain ⟨hpages, hpages'⟩ := counts_exact hs hsum
  constructor
  · intro hagree
    have hcounts := hagree.count
    rwa [hcount, hload, hpages, hpages'] at hcounts
  · intro hfit
    have hsame : h.numPages = h.loadNumPages := by
      rw [hpages, hpages']
      exact hfit
    have hlen : loaded.pageTable.length = loaded.numPages := by
      rw [hkeep, htable, hload, hsame]
    refine ⟨by rw [hcount, hload, hsame], hlen, ?_, fun m => hlen.ge⟩
    rw [hload, hpages']
    exact needs_le_pages h

end Sizes

/-- A program of `256 * code` bytes of code and some read only data. -/
def romFile (code readonly : UInt8) : HostFile :=
  [0xad, 0xdf, 0xba, 0] ++ [0, 0, 0, 0, 52, 0, 0, 0, 0, code, 0, 0] ++ noSegment
    ++ [0, 0, 0, 0, 52, 0, 0, 0, readonly, 0, 0, 0] ++ noSegment

/-- All frames are clear. -/
def allFrames : Bitmap := Bitmap.new numPhysPages numPhysPages_pos

end Nachos
