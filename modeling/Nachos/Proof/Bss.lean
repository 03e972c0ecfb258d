import Nachos.Base.Ranges
import Nachos.Proof.Segments

/-!
# Uninitialized sections

Every `.bss` section is merged into `uninitData`: the first gives the address, the others add their
sizes. That is right for sections that lie end to end, and the code means to refuse the others. Its
test is the wrong way round. A section that starts where the segment ends is refused, and one that
starts anywhere else is added, as if it were there.

So the merged segment is right when there is only one section, and when the sections lie end to end
in an order that is not the order of the file.

The size is a word. When the sizes so far add up to a multiple of `2^32` it is zero, and the next
section is taken for the first one.
-/

namespace Nachos.Coff2noff

open Base (Range Covered Interval Tile totalLength totalLength_append interval_iff_tile
  bind_eq_of_ok bind_eq_of_error get_bind modify_bind writeOver getD_writeOver)

variable {host : Host} {file : List UInt8} {c : Conv} {s : Scnhdr}

/-! ## The sections -/

/-- The `.bss` sections that are not empty, in the order of the file. -/
def bssOf (sections : List Scnhdr) : List Scnhdr := sections.filter fun s => decide (s.Is dotBss)

/-- The addresses of a section. -/
def Scnhdr.range (s : Scnhdr) : Range := ⟨s.sPaddr.toNat, s.sSize.toNat⟩

/-- The addresses of several sections. -/
def ranges (bs : List Scnhdr) : List Range := bs.map Scnhdr.range

/-- The sizes together, as a word. -/
def sizeSum (bs : List Scnhdr) : BitVec 32 := bs.foldl (fun n s => n + s.sSize) 0#32

/-- The sections since the sizes last added up to a multiple of `2^32`. -/
def group (bs : List Scnhdr) : List Scnhdr :=
  bs.foldl (fun g s => if sizeSum g = 0#32 then [s] else g ++ [s]) []

theorem sizeSum_concat (bs : List Scnhdr) (s : Scnhdr) :
    sizeSum (bs ++ [s]) = sizeSum bs + s.sSize := by
  unfold sizeSum
  rw [List.foldl_append]
  rfl

theorem group_concat (bs : List Scnhdr) (s : Scnhdr) :
    group (bs ++ [s]) = if sizeSum (group bs) = 0#32 then [s] else group bs ++ [s] := by
  unfold group
  rw [List.foldl_append]
  rfl

/-! ## Merging -/

/-- What `.bss` does to the segment, if it is not refused. -/
def Segment.merge (u : Segment) (s : Scnhdr) : Option Segment :=
  if u.size ≠ 0#32 then
    if s.sPaddr = u.virtualAddr + u.size then none else some { u with size := u.size + s.sSize }
  else some { u with virtualAddr := s.sPaddr, size := s.sSize }

/-- The same for one after the other. -/
def Segment.mergeAll (u : Segment) : List Scnhdr → Option Segment
  | [] => some u
  | s :: ss => (u.merge s).bind fun u' => mergeAll u' ss

theorem mergeBss_eq : mergeBss s c = (c.noffH.uninitData.merge s).elim (.error .bothBss c) fun u =>
    .ok () { c with noffH := { c.noffH with uninitData := u } } := by
  unfold mergeBss Segment.merge
  rw [get_bind]
  by_cases hsize : c.noffH.uninitData.size ≠ 0#32
  · rw [if_pos hsize, if_pos hsize]
    by_cases haddr : s.sPaddr = c.noffH.uninitData.virtualAddr + c.noffH.uninitData.size
    · rw [if_pos haddr, if_pos haddr]
      rfl
    · rw [if_neg haddr, if_neg haddr]
      rfl
  · rw [if_neg hsize, if_neg hsize]
    rfl

theorem mergeBss_ok {u : Segment} (h : c.noffH.uninitData.merge s = some u) :
    mergeBss s c = .ok () { c with noffH := { c.noffH with uninitData := u } } := by
  rw [mergeBss_eq, h]
  rfl

theorem mergeBss_refused (h : c.noffH.uninitData.merge s = none) :
    mergeBss s c = .error .bothBss c := by
  rw [mergeBss_eq, h]
  rfl

theorem mergeAll_append (u : Segment) (a b : List Scnhdr) :
    u.mergeAll (a ++ b) = (u.mergeAll a).bind fun u' => u'.mergeAll b := by
  induction a generalizing u with
  | nil => rfl
  | cons s a ih =>
      rw [List.cons_append, Segment.mergeAll, Segment.mergeAll, Option.bind_assoc]
      congr 1
      funext u'
      exact ih u'

theorem mergeAll_concat (u : Segment) (bs : List Scnhdr) (s : Scnhdr) :
    u.mergeAll (bs ++ [s]) = (u.mergeAll bs).bind fun u' => u'.merge s := by
  rw [mergeAll_append]
  congr 1
  funext u'
  rw [Segment.mergeAll]
  cases u'.merge s <;> rfl

/-- Some section starts where the ones before it end. -/
def Meets (bs : List Scnhdr) : Prop :=
  ∃ before t after s g, bs = before ++ t :: after ∧ group before = s :: g ∧
    sizeSum (group before) ≠ 0#32 ∧ t.sPaddr = s.sPaddr + sizeSum (group before)

theorem meets_concat (bs : List Scnhdr) (t : Scnhdr) : Meets (bs ++ [t]) ↔ Meets bs ∨
    ∃ s g, group bs = s :: g ∧ sizeSum (group bs) ≠ 0#32 ∧
    t.sPaddr = s.sPaddr + sizeSum (group bs) := by
  constructor
  · rintro ⟨before, t', after, s, g, he, hg, hn, ha⟩
    rcases List.eq_nil_or_concat after with rfl | ⟨after', t'', rfl⟩
    · obtain ⟨hb, ht⟩ := List.append_inj' he rfl
      obtain rfl := List.singleton_inj.mp ht
      subst hb
      exact Or.inr ⟨s, g, hg, hn, ha⟩
    · rw [List.concat_eq_append, ← List.cons_append, ← List.append_assoc] at he
      obtain ⟨hb, _⟩ := List.append_inj' he rfl
      exact Or.inl ⟨before, t', after', s, g, hb, hg, hn, ha⟩
  · rintro (⟨before, t', after, s, g, rfl, hg, hn, ha⟩ | ⟨s, g, hg, hn, ha⟩)
    · exact ⟨before, t', after ++ [t], s, g, by simp, hg, hn, ha⟩
    · exact ⟨bs, t, [], s, g, rfl, hg, hn, ha⟩

theorem not_meets_nil : ¬ Meets [] := by
  rintro ⟨before, t, after, s, g, he, _⟩
  exact absurd he (by simp)

/-- The segment after these sections. -/
structure Merged (u : Segment) (bs : List Scnhdr) : Prop where
  size : u.size = sizeSum (group bs)
  virtualAddr : ∀ s g, group bs = s :: g → u.virtualAddr = s.sPaddr

/-- **The sections are merged, unless one starts where the segment ends.** -/
theorem mergeAll_cases {u : Segment} (hu : u.size = 0#32) (bs : List Scnhdr) :
    u.mergeAll bs = none ∧ Meets bs ∨
      ∃ u', u.mergeAll bs = some u' ∧ ¬ Meets bs ∧ Merged u' bs := by
  induction bs using List.reverseRecOn with
  | nil => exact Or.inr ⟨u, rfl, not_meets_nil, hu, fun s g h => absurd h (by simp [group])⟩
  | append_singleton bs t ih =>
      rw [mergeAll_concat, meets_concat]
      rcases ih with ⟨hnone, hmeets⟩ | ⟨u', hsome, hno, hmerged⟩
      · rw [hnone]
        exact Or.inl ⟨rfl, Or.inl hmeets⟩
      · rw [hsome, Option.bind_some]
        unfold Segment.merge
        by_cases hsize : u'.size = 0#32
        · -- the first section, or the first after the size has wrapped
          have hsum := hmerged.size.symm.trans hsize
          rw [if_neg (not_not.mpr hsize)]
          refine Or.inr ⟨_, rfl, ?_, ?_, ?_⟩
          · rintro (h | ⟨s, g, _, hn, _⟩)
            · exact hno h
            · exact hn hsum
          · rw [group_concat, if_pos hsum]
            exact (BitVec.zero_add _).symm
          · intro s g hg
            rw [group_concat, if_pos hsum] at hg
            injection hg with hg
            rw [hg]
        · have hsum : sizeSum (group bs) ≠ 0#32 := fun h => hsize (hmerged.size.trans h)
          obtain ⟨s, g, hg⟩ : ∃ s g, group bs = s :: g := by
            cases hgroup : group bs with
            | nil => exact absurd (by rw [hgroup]; rfl) hsum
            | cons s g => exact ⟨s, g, rfl⟩
          have hvirtual := hmerged.virtualAddr s g hg
          rw [if_pos hsize, hvirtual, hmerged.size]
          by_cases haddr : t.sPaddr = s.sPaddr + sizeSum (group bs)
          · rw [if_pos haddr]
            exact Or.inl ⟨rfl, Or.inr ⟨s, g, hg, hsum, haddr⟩⟩
          · rw [if_neg haddr]
            refine Or.inr ⟨_, rfl, ?_, ?_, ?_⟩
            · rintro (h | ⟨s', g', hg', _, ha⟩)
              · exact hno h
              · rw [hg] at hg'
                injection hg' with hs _
                exact haddr (hs ▸ ha)
            · rw [group_concat, if_neg hsum, sizeSum_concat]
            · intro s' g' hg'
              rw [group_concat, if_neg hsum, hg] at hg'
              injection hg' with hs _
              exact hs ▸ rfl

/-! ## What the merged segment covers -/

theorem ranges_concat (bs : List Scnhdr) (s : Scnhdr) :
    totalLength (ranges (bs ++ [s])) = totalLength (ranges bs) + s.sSize.toNat := by
  unfold ranges
  rw [List.map_append, totalLength_append]
  rfl

theorem toNat_sizeSum (bs : List Scnhdr) :
    (sizeSum bs).toNat = totalLength (ranges bs) % 4294967296 := by
  induction bs using List.reverseRecOn with
  | nil => rfl
  | append_singleton bs s ih =>
      rw [sizeSum_concat, ranges_concat, BitVec.toNat_add, ih]
      omega

theorem totalLength_pos {bs : List Scnhdr} (hpos : ∀ s ∈ bs, s.sSize ≠ 0#32) (hne : bs ≠ []) :
    0 < totalLength (ranges bs) := by
  obtain ⟨s, bs', rfl⟩ := List.exists_cons_of_ne_nil hne
  have hs : 0 < s.sSize.toNat :=
    Nat.pos_of_ne_zero fun hz => hpos s List.mem_cons_self (BitVec.eq_of_toNat_eq hz)
  show 0 < s.sSize.toNat + totalLength (ranges bs')
  omega

/-- Below `2^32` nothing wraps. -/
theorem group_eq {bs : List Scnhdr} (hpos : ∀ s ∈ bs, s.sSize ≠ 0#32)
    (hlt : totalLength (ranges bs) < 4294967296) : group bs = bs := by
  induction bs using List.reverseRecOn with
  | nil => rfl
  | append_singleton bs s ih =>
      rw [ranges_concat] at hlt
      have hbefore : ∀ s' ∈ bs, s'.sSize ≠ 0#32 :=
        fun s' hs' => hpos s' (List.mem_append_left _ hs')
      have hgroup := ih hbefore (by omega)
      rw [group_concat, hgroup]
      by_cases hne : bs = []
      · subst hne
        rfl
      · have htotal := totalLength_pos hbefore hne
        have hsum : sizeSum bs ≠ 0#32 := by
          intro hz
          have hnat := toNat_sizeSum bs
          rw [hz, Nat.mod_eq_of_lt (by omega)] at hnat
          simp only [BitVec.toNat_ofNat] at hnat
          omega
        rw [if_neg hsum]

theorem group_ne_nil {bs : List Scnhdr} (hne : bs ≠ []) : ∃ s g, group bs = s :: g := by
  rcases List.eq_nil_or_concat bs with rfl | ⟨bs', s, rfl⟩
  · exact absurd rfl hne
  · rw [List.concat_eq_append, group_concat]
    split
    · exact ⟨s, [], rfl⟩
    · cases hg : group bs' with
      | nil => exact ⟨s, [], rfl⟩
      | cons s' g => exact ⟨s', g ++ [s], rfl⟩

/-- **The sections lie end to end in some order**, from the address of the first one on. If their
sizes add up to `2^32` or more, the segment starts with the first one since they last made a
multiple of that, and its size is the rest. -/
def InPlace (bs : List Scnhdr) : Prop :=
  ∃ s g, group bs = s :: g ∧
    if totalLength (ranges bs) < 4294967296 then Tile s.sPaddr.toNat (ranges bs)
    else Interval (ranges bs) s.sPaddr.toNat (s.sPaddr.toNat + (sizeSum (group bs)).toNat)

theorem Merged.interval_iff {u : Segment} {bs : List Scnhdr} (h : Merged u bs)
    (hpos : ∀ s ∈ bs, s.sSize ≠ 0#32) :
    Interval (ranges bs) u.virtualAddr.toNat (u.virtualAddr.toNat + u.size.toNat) ↔
      bs = [] ∨ InPlace bs := by
  by_cases hne : bs = []
  · subst hne
    refine iff_of_true (fun x => ?_) (Or.inl rfl)
    have hsize : u.size = 0#32 := h.size
    rw [hsize]
    exact iff_of_false (Base.covered_nil x) fun hx => absurd hx.2 (Nat.not_lt.mpr hx.1)
  · obtain ⟨s, g, hg⟩ := group_ne_nil hne
    rw [h.virtualAddr s g hg, h.size]
    have hplace : InPlace bs ↔
        if totalLength (ranges bs) < 4294967296 then Tile s.sPaddr.toNat (ranges bs)
        else Interval (ranges bs) s.sPaddr.toNat (s.sPaddr.toNat + (sizeSum (group bs)).toNat) := by
      constructor
      · rintro ⟨s', g', hg', hin⟩
        rw [hg] at hg'
        injection hg' with hs _
        rwa [← hs] at hin
      · exact fun hin => ⟨s, g, hg, hin⟩
    rw [or_iff_right hne, hplace]
    by_cases hlt : totalLength (ranges bs) < 4294967296
    · rw [if_pos hlt, group_eq hpos hlt, toNat_sizeSum, Nat.mod_eq_of_lt hlt]
      refine interval_iff_tile fun r hr => ?_
      obtain ⟨s', hs', rfl⟩ := List.mem_map.mp hr
      exact Nat.pos_of_ne_zero fun hz => hpos s' hs' (BitVec.eq_of_toNat_eq hz)
    · rw [if_neg hlt]

/-! ## The other sections -/

/-- The sections that are neither empty nor `.bss` have one of the other names and can be copied,
from these offsets on. -/
def Copyable (host : Host) (file : List UInt8) : List Scnhdr → Nat → Nat → Prop
  | [], _, _ => True
  | s :: ss, fdIn, fdOut =>
      (s.sSize = 0#32 ∨ s.Is dotBss) ∧ Copyable host file ss fdIn fdOut ∨
        (∃ k : Raw, s.Is k.name) ∧ Copies host file s fdIn fdOut ∧
          Copyable host file ss (lseek s.sScnptr fdIn + s.count) (fdOut + s.count)

theorem bssOf_cons_of_not (h : ¬ s.Is dotBss) (ss : List Scnhdr) : bssOf (s :: ss) = bssOf ss :=
  List.filter_cons_of_neg (by simpa using h)

theorem bssOf_cons (h : s.Is dotBss) (ss : List Scnhdr) : bssOf (s :: ss) = s :: bssOf ss :=
  List.filter_cons_of_pos (by simpa using h)

theorem bssOf_pos {sections : List Scnhdr} (h : s ∈ bssOf sections) : s.sSize ≠ 0#32 :=
  (of_decide_eq_true (List.mem_filter.mp h).2).1

theorem Raw.not_bss {k : Raw} (h : s.Is k.name) : ¬ s.Is dotBss := fun his =>
  k.name_ne_bss (h.unique his k.noZero bss_noZero)

/-- **The loop**, when nothing is refused. -/
theorem loadSections_merges : ∀ (ss : List Scnhdr) {c : Conv} {u : Segment},
    Copyable host file ss c.fdIn c.fdOut → c.noffH.uninitData.mergeAll (bssOf ss) = some u →
    ∃ c', loadSections host file ss c = .ok () c' ∧ c'.noffH.uninitData = u := by
  intro ss
  induction ss with
  | nil =>
      intro c u _ h
      exact ⟨c, rfl, Option.some.inj h⟩
  | cons s ss ih =>
      intro c u hcopy hmerge
      rcases hcopy with ⟨hempty | hbss, hrest⟩ | ⟨⟨k, his⟩, hcopies, hrest⟩
      · rw [bssOf_cons_of_not fun his => his.1 hempty] at hmerge
        obtain ⟨c', hrun, hu⟩ := ih hrest hmerge
        refine ⟨c', ?_, hu⟩
        rw [loadSections, loadSection_empty hempty]
        exact hrun
      · rw [bssOf_cons hbss, Segment.mergeAll] at hmerge
        obtain ⟨u₁, hfirst, hothers⟩ := Option.bind_eq_some_iff.mp hmerge
        have hrun₁ : loadSection host file s c =
            .ok () { c with noffH := { c.noffH with uninitData := u₁ } } := by
          rw [loadSection_bss hbss]
          exact mergeBss_ok hfirst
        obtain ⟨c', hrun, hu⟩ := ih (c := { c with noffH := { c.noffH with uninitData := u₁ } })
          hrest hothers
        refine ⟨c', ?_, hu⟩
        rw [loadSections, bind_eq_of_ok hrun₁]
        exact hrun
      · rw [bssOf_cons_of_not (Raw.not_bss his)] at hmerge
        have hrun₁ : loadSection host file s c = .ok () (copied file k.put s c) := by
          rw [loadSection_raw k his]
          exact copySegment_ok k.put his.1 hcopies
        have hsame : (copied file k.put s c).noffH.uninitData = c.noffH.uninitData :=
          Raw.put_uninitData _ _ _
        obtain ⟨c', hrun, hu⟩ := ih (c := copied file k.put s c) hrest (by rw [hsame]; exact hmerge)
        refine ⟨c', ?_, hu⟩
        rw [loadSections, bind_eq_of_ok hrun₁]
        exact hrun

/-- **The loop**, when something is refused. -/
theorem loadSections_fails : ∀ (ss : List Scnhdr) {c : Conv},
    ¬ Copyable host file ss c.fdIn c.fdOut ∨ c.noffH.uninitData.mergeAll (bssOf ss) = none →
    ∃ e c', loadSections host file ss c = .error e c' := by
  intro ss
  induction ss with
  | nil =>
      intro c h
      rcases h with h | h
      · exact absurd trivial h
      · exact absurd h (by simp [bssOf, Segment.mergeAll])
  | cons s ss ih =>
      intro c h
      rw [loadSections]
      by_cases hempty : s.sSize = 0#32
      · rw [loadSection_empty hempty]
        refine ih (h.imp (fun hno hrest => hno (Or.inl ⟨Or.inl hempty, hrest⟩)) fun hnone => ?_)
        rwa [bssOf_cons_of_not fun his => his.1 hempty] at hnone
      by_cases hbss : s.Is dotBss
      · rw [loadSection_bss hbss]
        cases hfirst : c.noffH.uninitData.merge s with
        | none => exact ⟨_, _, bind_eq_of_error (mergeBss_refused hfirst)⟩
        | some u =>
            rw [bind_eq_of_ok (mergeBss_ok hfirst)]
            refine ih (h.imp (fun hno hrest => hno (Or.inl ⟨Or.inr hbss, hrest⟩)) fun hnone => ?_)
            rw [bssOf_cons hbss, Segment.mergeAll, hfirst] at hnone
            exact hnone
      by_cases hraw : ∃ k : Raw, s.Is k.name
      · obtain ⟨k, his⟩ := hraw
        rw [loadSection_raw k his]
        by_cases hcopies : Copies host file s c.fdIn c.fdOut
        · rw [bind_eq_of_ok (copySegment_ok k.put his.1 hcopies)]
          refine ih
            (h.imp (fun hno hrest => hno (Or.inr ⟨⟨k, his⟩, hcopies, hrest⟩)) fun hnone => ?_)
          rw [bssOf_cons_of_not hbss] at hnone
          rw [show (copied file k.put s c).noffH.uninitData = c.noffH.uninitData from
            Raw.put_uninitData _ _ _]
          exact hnone
        · obtain ⟨e, c', hrun⟩ := copySegment_fails k.put his.1 hcopies
          exact ⟨e, c', bind_eq_of_error hrun⟩
      · rw [loadSection_unknown hempty (fun k his => hraw ⟨k, his⟩) hbss]
        exact ⟨_, _, rfl⟩

/-! ## The whole program -/

/-- Nothing but a `.bss` section can be refused. -/
structure Acceptable (host : Host) (file : List UInt8) : Prop where
  headers : HasHeaders file
  table : numSections file * scnhdrSize ≤ host.memory
  copyable : Copyable host file (sectionsOf file)
    (0 + filehdrSize + aouthdrSize + numSections file * scnhdrSize) noffHeaderSize
  room : noffHeaderSize ≤ host.room

/-- The sections of a file that is accepted are merged. -/
theorem convert_merges (h : Acceptable host file) (stack : NoffHeader) {u : Segment}
    (hu : stack.init.uninitData.mergeAll (bssOf (sectionsOf file)) = some u) :
    ∃ out, convert host file stack = .ok out ∧
      (Nachos.NoffHeader.decode fun i => out.getD i 0).uninitData = u.toInts := by
  obtain ⟨c, hrun, huninit⟩ := loadSections_merges (sectionsOf file)
    (c := Conv.ready (0 + filehdrSize + aouthdrSize + numSections file * scnhdrSize) stack)
    h.copyable hu
  refine ⟨_, convert_ok h.headers h.table h.room hrun, ?_⟩
  rw [decode_out, ← huninit]
  rfl

theorem convert_refuses (stack : NoffHeader) (h : ¬ Acceptable host file ∨
    stack.init.uninitData.mergeAll (bssOf (sectionsOf file)) = none) :
    ∃ e, convert host file stack = .error e := by
  obtain ⟨e, c, hmain⟩ : ∃ e c, main host file (Conv.start stack) = .error e c := by
    by_cases hheaders : HasHeaders file ∧ numSections file * scnhdrSize ≤ host.memory
    · rw [main_eq hheaders.1 hheaders.2]
      unfold finish
      cases hrun : loadSections host file (sectionsOf file)
        (Conv.ready (0 + filehdrSize + aouthdrSize + numSections file * scnhdrSize) stack) with
      | error e c => exact ⟨e, c, bind_eq_of_error hrun⟩
      | ok _ c =>
          -- the loop has refused nothing, so there is no room for the header
          have hcopy : Copyable host file (sectionsOf file)
              (0 + filehdrSize + aouthdrSize + numSections file * scnhdrSize) noffHeaderSize ∧
              stack.init.uninitData.mergeAll (bssOf (sectionsOf file)) ≠ none := by
            by_contra hno
            rw [not_and_or, not_not] at hno
            obtain ⟨e, c', hfails⟩ := loadSections_fails (sectionsOf file) (c := Conv.ready
              (0 + filehdrSize + aouthdrSize + numSections file * scnhdrSize) stack) hno
            rw [hrun] at hfails
            exact absurd hfails (by simp)
          have hroom : ¬ noffHeaderSize ≤ host.room := fun hroom => h.elim
            (fun hno => hno ⟨hheaders.1, hheaders.2, hcopy.1, hroom⟩) hcopy.2
          rw [bind_eq_of_ok hrun, modify_bind, get_bind]
          exact ⟨_, _, write_fails (header_fits_not hroom)⟩
    · exact main_fails hheaders stack
  unfold convert
  rw [hmain]
  exact ⟨e, rfl⟩

/-- The `.bss` sections lie together. -/
def Contiguous (bs : List Scnhdr) : Prop := ∃ lo hi, Interval (ranges bs) lo hi

/-- The output says where the `.bss` sections are, and there is no output when they do not lie
together. -/
structure BssCovered (host : Host) (file : List UInt8) (stack : NoffHeader) : Prop where
  covers : ∀ out, convert host file stack = .ok out →
    Interval (ranges (bssOf (sectionsOf file)))
      (toUInt32 (Nachos.NoffHeader.decode fun i => out.getD i 0).uninitData.virtualAddr)
      (toUInt32 (Nachos.NoffHeader.decode fun i => out.getD i 0).uninitData.virtualAddr +
        toUInt32 (Nachos.NoffHeader.decode fun i => out.getD i 0).uninitData.size)
  rejects : ¬ Contiguous (bssOf (sectionsOf file)) → ∃ e, convert host file stack = .error e

theorem bssCovered_of_refused {stack : NoffHeader} (h : ∃ e, convert host file stack = .error e) :
    BssCovered host file stack where
  covers := by
    intro out hout
    obtain ⟨e, he⟩ := h
    rw [he] at hout
    exact absurd hout (by simp)
  rejects := fun _ => h

/-- **When the sections are where the output says**: when the file is refused, as it also is when a
section starts where those before it end, or when its sections lie end to end in some order. -/
theorem bssCovered_iff (host : Host) (file : List UInt8) (stack : NoffHeader) :
    BssCovered host file stack ↔ ¬ Acceptable host file ∨ bssOf (sectionsOf file) = [] ∨
      Meets (bssOf (sectionsOf file)) ∨ InPlace (bssOf (sectionsOf file)) := by
  by_cases hacc : Acceptable host file
  · rw [or_iff_right (not_not.mpr hacc)]
    have hzero : stack.init.uninitData.size = 0#32 := rfl
    rcases mergeAll_cases hzero (bssOf (sectionsOf file)) with ⟨hnone, hmeets⟩
      | ⟨u, hu, hno, hmerged⟩
    · exact iff_of_true (bssCovered_of_refused (convert_refuses stack (Or.inr hnone)))
        (Or.inr (Or.inl hmeets))
    · obtain ⟨out, hout, hdecode⟩ := convert_merges hacc stack hu
      have hiff := hmerged.interval_iff fun s hs => bssOf_pos hs
      rw [or_iff_right hno, ← hiff]
      constructor
      · intro h
        have hcovers := h.covers out hout
        rw [hdecode] at hcovers
        simpa only [Segment.toInts, toUInt32_toInt] using hcovers
      · intro hin
        refine ⟨fun out' hout' => ?_, fun hapart => absurd ⟨_, _, hin⟩ hapart⟩
        rw [hout] at hout'
        rw [← Except.ok.inj hout', hdecode]
        simpa only [Segment.toInts, toUInt32_toInt] using hin
  · exact iff_of_true (bssCovered_of_refused (convert_refuses stack (Or.inl hacc))) (Or.inl hacc)

/-! ### A gap -/

/-- Two sections with a gap between them. -/
def gapBetween : List UInt8 :=
  [0x62, 0x01, 2, 0] ++ List.replicate 16 0 ++ [0x07, 0x01] ++ List.replicate 54 0
    ++ scnhdrBytes dotBss 16 16 0 ++ scnhdrBytes dotBss 64 16 0

/-- The file is accepted. Its segment is `[16, 48)`, and the second section is not in it. -/
theorem gapBetween_not_covered :
    ¬ BssCovered smallHost gapBetween ⟨0#32, ⟨0#32, 0#32, 0#32⟩, ⟨0#32, 0#32, 0#32⟩,
      ⟨0#32, 0#32, 0#32⟩, ⟨0#32, 0#32, 0#32⟩⟩ := by
  intro h
  have haccepted : (convert smallHost gapBetween ⟨0#32, ⟨0#32, 0#32, 0#32⟩, ⟨0#32, 0#32, 0#32⟩,
      ⟨0#32, 0#32, 0#32⟩, ⟨0#32, 0#32, 0#32⟩⟩).toOption.map (fun out =>
        (Nachos.NoffHeader.decode fun i => out.getD i 0).uninitData) = some ⟨16, 0, 32⟩ := by
    decide +kernel
  cases hout : convert smallHost gapBetween ⟨0#32, ⟨0#32, 0#32, 0#32⟩, ⟨0#32, 0#32, 0#32⟩,
      ⟨0#32, 0#32, 0#32⟩, ⟨0#32, 0#32, 0#32⟩⟩ with
  | error e =>
      rw [hout] at haccepted
      exact absurd haccepted (by simp [Except.toOption])
  | ok out =>
      rw [hout] at haccepted
      have huninit : (Nachos.NoffHeader.decode fun i => out.getD i 0).uninitData = ⟨16, 0, 32⟩ :=
        Option.some.inj haccepted
      have hcovers := (h.covers out hout 64).mp ⟨⟨64, 16⟩, by decide +kernel, by decide⟩
      rw [huninit] at hcovers
      exact absurd hcovers (by decide)

end Nachos.Coff2noff
