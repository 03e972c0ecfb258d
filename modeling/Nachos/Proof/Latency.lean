import Nachos.Base.Rotation
import Nachos.Machine.Disk

/-!
# The head and the sector

The tracks turn together, so where a sector is depends on its number within the track and on the
time alone. `TimeToSeek` finds the first sector boundary after the seek, and `ModuloDiff` counts the
sectors up to the one that is wanted: together that is the first time at which it comes. The track
buffer has a sector when all of it has passed since the buffer was started.

Both rest on `bufferInit` being a sector boundary that is not in the future. `UpdateLast` sets it
to one that is, but by the time of the next request it has gone by.
-/

namespace Nachos

namespace Disk

open Base (Wheel)

variable {d : Disk} {totalTicks newSector : Int} {writing : Bool}

/-! ## What is meant -/

/-- The platter: one sector of every track passes under the head at a time. -/
def platter : Wheel := ⟨sectorsPerTrack, rotationTime, by decide, by decide⟩

/-- A number of a sector. -/
def IsSector (sector : Int) : Prop := 0 ≤ sector ∧ sector < numSectors

instance (sector : Int) : Decidable (IsSector sector) :=
  inferInstanceAs (Decidable (0 ≤ sector ∧ sector < numSectors))

/-- The track of a sector. -/
def track (sector : Int) : Int := sector / sectorsPerTrack

/-- When the head is over the track. -/
def seekEnd (d : Disk) (totalTicks newSector : Int) : Int :=
  totalTicks + (track newSector - track d.lastSector).natAbs * seekTime

/-- When it is at a sector boundary there. -/
def headReady (d : Disk) (totalTicks newSector : Int) : Int :=
  platter.roundUp (d.seekEnd totalTicks newSector)

/-- What is added and subtracted fits into an `int`. -/
structure NoOverflow (d : Disk) (totalTicks newSector : Int) (writing : Bool) : Prop where
  headReady : d.headReady totalTicks newSector ≤ intMax
  loaded : writing = false → track newSector = track d.lastSector →
    d.headReady totalTicks newSector - d.bufferInit ≤ intMax

/-- The latency is what it should be. -/
structure LatencyRight (d : Disk) (totalTicks newSector : Int) (writing : Bool) : Prop where
  pos : 0 < d.computeLatency totalTicks newSector writing
  /-- Without the track buffer, the transfer starts when the sector first comes after the seek. -/
  start : d.bufferApplies totalTicks newSector writing = false →
    IsLeast {t | d.seekEnd totalTicks newSector ≤ t ∧ platter.Begins newSector t}
      (totalTicks + d.computeLatency totalTicks newSector writing - rotationTime)
  /-- The buffer is used for a read from the same track, of a sector that has passed. -/
  buffer : d.bufferApplies totalTicks newSector writing = true ↔
    writing = false ∧ track newSector = track d.lastSector ∧
      platter.Passes newSector d.bufferInit (d.headReady totalTicks newSector)

/-! ## What the functions compute -/

theorem seekEnd_bounds (totalTicks : Int) (hlast : IsSector d.lastSector)
    (hnew : IsSector newSector) : totalTicks ≤ d.seekEnd totalTicks newSector ∧
      d.seekEnd totalTicks newSector ≤ totalTicks + 15500 := by
  obtain ⟨hlast0, hlast1⟩ := hlast
  obtain ⟨hnew0, hnew1⟩ := hnew
  simp only [numSectors, sectorsPerTrack, numTracks] at hlast1 hnew1
  unfold seekEnd track sectorsPerTrack seekTime
  omega

theorem track_tdiv {sector : Int} (h : IsSector sector) :
    sector.tdiv sectorsPerTrack = track sector :=
  Int.tdiv_eq_ediv_of_nonneg h.1

theorem headReady_bounds (d : Disk) (totalTicks newSector : Int) :
    d.seekEnd totalTicks newSector ≤ d.headReady totalTicks newSector ∧
      d.headReady totalTicks newSector < d.seekEnd totalTicks newSector + 500 :=
  ⟨platter.le_roundUp _, platter.roundUp_lt _⟩

theorem timeToSeek_eq (hticks : 0 ≤ totalTicks) (hlast : IsSector d.lastSector)
    (hnew : IsSector newSector) (hfits : d.headReady totalTicks newSector ≤ intMax) :
    d.timeToSeek totalTicks newSector = (d.seekEnd totalTicks newSector - totalTicks,
      d.headReady totalTicks newSector - d.seekEnd totalTicks newSector) := by
  obtain ⟨hseek0, hseek1⟩ := seekEnd_bounds totalTicks hlast hnew
  have hready := (d.headReady_bounds totalTicks newSector).1
  have htracks : toInt32 (track newSector - track d.lastSector) =
      track newSector - track d.lastSector := by
    obtain ⟨hlast0, hlast1⟩ := hlast
    obtain ⟨hnew0, hnew1⟩ := hnew
    simp only [numSectors, sectorsPerTrack, numTracks] at hlast1 hnew1
    unfold track sectorsPerTrack
    exact toInt32_of_range (by omega) (by unfold intMax; omega)
  have hseek : toInt32 ((track newSector - track d.lastSector).natAbs * seekTime) =
      d.seekEnd totalTicks newSector - totalTicks := by
    have hexact : ((track newSector - track d.lastSector).natAbs : Int) * seekTime =
        d.seekEnd totalTicks newSector - totalTicks := by
      unfold seekEnd
      omega
    rw [hexact]
    exact toInt32_of_range (by omega) (by unfold intMax; omega)
  have hend : toInt32 (totalTicks + (d.seekEnd totalTicks newSector - totalTicks)) =
      d.seekEnd totalTicks newSector := by
    rw [toInt32_of_range (by omega) (by omega)]
    omega
  unfold timeToSeek
  dsimp only
  rw [track_tdiv hnew, track_tdiv hlast, htracks, hseek, hend,
    Int.tmod_eq_emod_of_nonneg (by omega)]
  refine Prod.ext rfl ?_
  show (if d.seekEnd totalTicks newSector % 500 > 0 then 500 - d.seekEnd totalTicks newSector % 500
    else 0) = d.seekEnd totalTicks newSector + (-d.seekEnd totalTicks newSector) % 500 -
      d.seekEnd totalTicks newSector
  split <;> omega

theorem timeAfter_eq (hticks : 0 ≤ totalTicks) (hlast : IsSector d.lastSector)
    (hnew : IsSector newSector) (hfits : d.headReady totalTicks newSector ≤ intMax) :
    d.timeAfter totalTicks newSector = d.headReady totalTicks newSector := by
  have hseek := (seekEnd_bounds totalTicks hlast hnew).1
  have hready := (d.headReady_bounds totalTicks newSector).1
  unfold timeAfter
  rw [timeToSeek_eq hticks hlast hnew hfits]
  show toInt32 (totalTicks + (d.seekEnd totalTicks newSector - totalTicks) +
    (d.headReady totalTicks newSector - d.seekEnd totalTicks newSector)) = _
  rw [toInt32_of_range (by omega) (by omega)]
  omega

/-- `ModuloDiff` counts forward, wherever the head is. -/
theorem moduloDiff_eq {target : Int} (h : 0 ≤ target) (current : Int) :
    moduloDiff target current = platter.ahead target current := by
  have htarget : target.tmod 32 = target % 32 := Int.tmod_eq_emod_of_nonneg h
  have hcurrent : current.tmod 32 = current % 32 ∨ current.tmod 32 = current % 32 - 32 := by
    rw [Int.tmod_eq_emod]
    split
    · exact Or.inl (Int.sub_zero _)
    · exact Or.inr rfl
  unfold moduloDiff platter Wheel.ahead sectorsPerTrack
  dsimp only
  rw [Int.tmod_eq_emod_of_nonneg (by omega), htarget]
  omega

theorem bufferApplies_iff (hticks : 0 ≤ totalTicks) (hlast : IsSector d.lastSector)
    (hnew : IsSector newSector) (hinit : rotationTime ∣ d.bufferInit)
    (hle : d.bufferInit ≤ totalTicks) (hfits : d.NoOverflow totalTicks newSector writing) :
    d.bufferApplies totalTicks newSector writing = true ↔
      writing = false ∧ track newSector = track d.lastSector ∧
        platter.Passes newSector d.bufferInit (d.headReady totalTicks newSector) := by
  have hseek := (seekEnd_bounds totalTicks hlast hnew).1
  have hready := (d.headReady_bounds totalTicks newSector).1
  have hsame : d.seekEnd totalTicks newSector - totalTicks = 0 ↔
      track newSector = track d.lastSector := by
    unfold seekEnd seekTime
    omega
  unfold bufferApplies
  rw [timeToSeek_eq hticks hlast hnew hfits.headReady,
    timeAfter_eq hticks hlast hnew hfits.headReady]
  simp only [Bool.and_eq_true, Bool.not_eq_true', decide_eq_true_eq]
  rw [hsame, and_assoc]
  refine and_congr_right fun hread => and_congr_right fun htrack => ?_
  have hloaded := hfits.loaded hread htrack
  rw [platter.passes_iff hinit, toInt32_of_range (by omega) hloaded,
    Int.tdiv_eq_ediv_of_nonneg (by omega), Int.tdiv_eq_ediv_of_dvd hinit, moduloDiff_eq hnew.1]
  exact Iff.rfl

/-- **Without the buffer**, the request takes until the sector has passed. -/
theorem computeLatency_eq (hticks : 0 ≤ totalTicks) (hlast : IsSector d.lastSector)
    (hnew : IsSector newSector) (hfits : d.headReady totalTicks newSector ≤ intMax)
    (hbuffer : d.bufferApplies totalTicks newSector writing = false) :
    d.computeLatency totalTicks newSector writing =
      platter.next newSector (d.seekEnd totalTicks newSector) + rotationTime - totalTicks := by
  obtain ⟨hseek0, hseek1⟩ := seekEnd_bounds totalTicks hlast hnew
  obtain ⟨hready0, hready1⟩ := d.headReady_bounds totalTicks newSector
  have hnonneg := platter.ahead_nonneg newSector (d.headReady totalTicks newSector / rotationTime)
  have hlt := platter.ahead_lt newSector (d.headReady totalTicks newSector / rotationTime)
  have hnext : platter.next newSector (d.seekEnd totalTicks newSector) =
      d.headReady totalTicks newSector +
        platter.ahead newSector (d.headReady totalTicks newSector / rotationTime) * rotationTime :=
        rfl
  unfold computeLatency
  rw [timeToSeek_eq hticks hlast hnew hfits, timeAfter_eq hticks hlast hnew hfits, hbuffer, hnext,
    moduloDiff_eq hnew.1, Int.tdiv_eq_ediv_of_nonneg (by omega)]
  simp only [Bool.false_eq_true, if_false]
  change _ < (32 : Int) at hlt
  unfold rotationTime at *
  rw [toInt32_of_range (by omega) (by unfold intMax; omega)]
  omega

/-! ## The latency -/

theorem computeLatency_pos (writing : Bool) (hticks : 0 ≤ totalTicks)
    (hlast : IsSector d.lastSector)
    (hnew : IsSector newSector) (hfits : d.headReady totalTicks newSector ≤ intMax) :
    0 < d.computeLatency totalTicks newSector writing := by
  cases hbuffer : d.bufferApplies totalTicks newSector writing with
  | true =>
      unfold computeLatency
      rw [hbuffer]
      exact platter.ticks_pos
  | false =>
      have hseek := (seekEnd_bounds totalTicks hlast hnew).1
      have hnext := (platter.isLeast_next newSector (d.seekEnd totalTicks newSector)).1.1
      rw [computeLatency_eq hticks hlast hnew hfits hbuffer]
      unfold rotationTime
      omega

theorem transfer_start (hticks : 0 ≤ totalTicks) (hlast : IsSector d.lastSector)
    (hnew : IsSector newSector) (hfits : d.headReady totalTicks newSector ≤ intMax)
    (hbuffer : d.bufferApplies totalTicks newSector writing = false) :
    IsLeast {t | d.seekEnd totalTicks newSector ≤ t ∧ platter.Begins newSector t}
      (totalTicks + d.computeLatency totalTicks newSector writing - rotationTime) := by
  rw [computeLatency_eq hticks hlast hnew hfits hbuffer]
  have hstart : totalTicks + (platter.next newSector (d.seekEnd totalTicks newSector) +
      rotationTime - totalTicks) - rotationTime =
        platter.next newSector (d.seekEnd totalTicks newSector) := by omega
  rw [hstart]
  exact platter.isLeast_next _ _

/-- **The latency of a request**, at any time, from any sector to any other. -/
theorem latency_right (d : Disk) (totalTicks newSector : Int) (writing : Bool)
    (hticks : 0 ≤ totalTicks) (hlast : IsSector d.lastSector) (hnew : IsSector newSector)
    (hinit : rotationTime ∣ d.bufferInit)
    (hle : d.bufferInit ≤ totalTicks) (hfits : d.NoOverflow totalTicks newSector writing) :
    d.LatencyRight totalTicks newSector writing where
  pos := computeLatency_pos writing hticks hlast hnew hfits.headReady
  start := transfer_start hticks hlast hnew hfits.headReady
  buffer := bufferApplies_iff hticks hlast hnew hinit hle hfits

/-- A read from the track of the buffer. A write would wait for the sector to come round. -/
theorem latency_right_sameTrack : LatencyRight ⟨false, 37, 4000⟩ 9210 40 false :=
  latency_right ⟨false, 37, 4000⟩ 9210 40 false (by decide) (by decide) (by decide) (by decide)
    (by decide) ⟨by decide, fun _ _ => by decide⟩

example : (⟨false, 37, 4000⟩ : Disk).computeLatency 9210 40 false = 500 ∧
    (⟨false, 37, 4000⟩ : Disk).computeLatency 9210 40 true = 11290 := by decide

/-- Across all the tracks, then a turn, and the sector itself. -/
def longest : Int := (numTracks + sectorsPerTrack) * rotationTime

theorem computeLatency_le (writing : Bool) (hticks : 0 ≤ totalTicks) (hlast : IsSector d.lastSector)
    (hnew : IsSector newSector) (hfits : d.headReady totalTicks newSector ≤ intMax) :
    d.computeLatency totalTicks newSector writing ≤ longest := by
  cases hbuffer : d.bufferApplies totalTicks newSector writing with
  | true =>
      unfold computeLatency
      rw [hbuffer]
      show rotationTime ≤ longest
      decide
  | false =>
      have hseek := (seekEnd_bounds totalTicks hlast hnew).2
      have hready := (d.headReady_bounds totalTicks newSector).2
      have hlt := platter.ahead_lt newSector (d.headReady totalTicks newSector / rotationTime)
      change _ < (32 : Int) at hlt
      rw [computeLatency_eq hticks hlast hnew hfits hbuffer]
      show d.headReady totalTicks newSector +
        platter.ahead newSector (d.headReady totalTicks newSector / rotationTime) * 500 + 500 -
          totalTicks ≤ (32 + 32) * 500
      omega

/-- After a seek the buffer is not used, so the head is ready before the request is done. -/
theorem headReady_le_end (writing : Bool) (hticks : 0 ≤ totalTicks) (hlast : IsSector d.lastSector)
    (hnew : IsSector newSector) (hfits : d.headReady totalTicks newSector ≤ intMax)
    (hseek : d.seekEnd totalTicks newSector ≠ totalTicks) :
    d.headReady totalTicks newSector ≤
      totalTicks + d.computeLatency totalTicks newSector writing := by
  have hbuffer : d.bufferApplies totalTicks newSector writing = false := by
    unfold bufferApplies
    rw [timeToSeek_eq hticks hlast hnew hfits,
      decide_eq_false (p := d.seekEnd totalTicks newSector - totalTicks = 0) (by omega),
      Bool.and_false, Bool.false_and]
  have hstart := (transfer_start hticks hlast hnew hfits hbuffer).1
  have hround := platter.roundUp_le hstart.2.1 hstart.1
  change d.headReady totalTicks newSector ≤ _ - 500 at hround
  omega

/-- `UpdateLast` starts the buffer again after a seek. -/
theorem updateLast_eq (hticks : 0 ≤ totalTicks) (hlast : IsSector d.lastSector)
    (hnew : IsSector newSector) (hfits : d.headReady totalTicks newSector ≤ intMax) :
    d.updateLast totalTicks newSector = ⟨d.active, newSector,
      if d.seekEnd totalTicks newSector = totalTicks then d.bufferInit
      else d.headReady totalTicks newSector⟩ := by
  have hafter := timeAfter_eq hticks hlast hnew hfits
  unfold timeAfter at hafter
  unfold updateLast
  rw [timeToSeek_eq hticks hlast hnew hfits] at hafter ⊢
  dsimp only at hafter ⊢
  rw [hafter]
  by_cases hsame : d.seekEnd totalTicks newSector = totalTicks
  · rw [if_pos hsame, if_neg (by omega)]
  · rw [if_neg hsame, if_pos (by omega)]

end Disk

/-! ## Every request of a run -/

namespace DiskTime

open Disk

variable {s s' : DiskTime}

/-- Time does not run out. -/
def InTime (s : DiskTime) : DiskCall → Prop
  | .tick n => s.totalTicks + n ≤ intMax
  | .request _ _ => s.totalTicks + longest ≤ intMax
  | .callBack => True

/-- The buffer was started at a sector boundary, which has gone by when the next request comes. -/
structure Started (s : DiskTime) : Prop where
  totalTicks : 0 ≤ s.totalTicks
  lastSector : IsSector s.disk.lastSector
  boundary : rotationTime ∣ s.disk.bufferInit
  nonneg : 0 ≤ s.disk.bufferInit
  idle : s.disk.active = false → s.disk.bufferInit ≤ s.totalTicks
  busy : s.disk.active = true → s.disk.bufferInit ≤ s.when

theorem headReady_le {d : Disk} {totalTicks newSector : Int} (hlast : IsSector d.lastSector)
    (hnew : IsSector newSector) (hroom : totalTicks + longest ≤ intMax) :
    d.headReady totalTicks newSector ≤ intMax := by
  have hseek := (seekEnd_bounds totalTicks hlast hnew).2
  have hready := (d.headReady_bounds totalTicks newSector).2
  change totalTicks + (32 + 32) * 500 ≤ intMax at hroom
  omega

theorem request_cases {d d' : Disk} {totalTicks sectorNumber ticks : Int} {writing : Bool}
    (h : d.request totalTicks sectorNumber writing = some (ticks, d')) :
    d.active = false ∧ IsSector sectorNumber ∧
      ticks = d.computeLatency totalTicks sectorNumber writing ∧ 0 < ticks ∧
        d' = { d with active := true }.updateLast totalTicks sectorNumber := by
  unfold Disk.request at h
  dsimp only at h
  split at h
  · rename_i hc
    injection h with h
    injection h with hticks hdisk
    exact ⟨hc.1, hc.2.1, hticks.symm, hticks ▸ hc.2.2, hdisk.symm⟩
  · exact absurd h (by simp)

/-- After the request the buffer is started before the interrupt comes. -/
theorem Started.request (h : s.Started) {sectorNumber : Int} {writing : Bool}
    (hroom : s.totalTicks + longest ≤ intMax)
    (hs : step s (.request sectorNumber writing) = some s') :
    s'.Started := by
  obtain ⟨⟨ticks, d'⟩, hrequest, rfl⟩ := Option.map_eq_some_iff.mp hs
  obtain ⟨hidle, hnew, hticks, hpos, hdisk⟩ := request_cases hrequest
  have hready := headReady_le h.lastSector hnew hroom
  have hle := computeLatency_le writing h.totalTicks h.lastSector hnew hready
  have hbounds := (s.disk.headReady_bounds s.totalTicks sectorNumber).1
  have hseek := (seekEnd_bounds s.totalTicks h.lastSector hnew).1
  have hbefore := h.idle hidle
  have hticks0 := h.totalTicks
  have hwhen : toInt32 (s.totalTicks + ticks) = s.totalTicks + ticks :=
    toInt32_of_range (by omega) (by omega)
  rw [updateLast_eq (d := { s.disk with active := true }) h.totalTicks h.lastSector
    hnew hready] at hdisk
  change d' = ⟨true, sectorNumber, if s.disk.seekEnd s.totalTicks sectorNumber = s.totalTicks
    then s.disk.bufferInit else s.disk.headReady s.totalTicks sectorNumber⟩ at hdisk
  subst hdisk
  refine ⟨h.totalTicks, hnew, ?_, ?_, fun hact => absurd hact (by simp), fun _ => ?_⟩
  · show rotationTime ∣ ite _ _ _
    split
    · exact h.boundary
    · exact platter.dvd_roundUp _
  · show 0 ≤ ite _ _ _
    split
    · exact h.nonneg
    · omega
  · show ite _ _ _ ≤ toInt32 (s.totalTicks + ticks)
    rw [hwhen]
    split
    · omega
    · rename_i hother
      have hend := headReady_le_end writing h.totalTicks h.lastSector hnew hready hother
      omega

theorem started_step {c : DiskCall} (h : s.Started) (hc : s.InTime c) (hs : step s c = some s') :
    s'.Started := by
  cases c with
  | tick n =>
      obtain rfl := Option.some.inj hs
      have hticks := h.totalTicks
      have htime : toInt32 (s.totalTicks + n) = s.totalTicks + n :=
        toInt32_of_range (by omega) hc
      refine ⟨?_, h.lastSector, h.boundary, h.nonneg, fun hidle => ?_, h.busy⟩
      · show 0 ≤ toInt32 (s.totalTicks + n)
        omega
      · have hbefore := h.idle hidle
        show s.disk.bufferInit ≤ toInt32 (s.totalTicks + n)
        omega
  | request sectorNumber writing => exact h.request hc hs
  | callBack =>
      simp only [step] at hs
      split at hs
      · rename_i hdue
        obtain rfl := Option.some.inj hs
        exact ⟨h.totalTicks, h.lastSector, h.boundary, h.nonneg,
          fun _ => Int.le_trans (h.busy hdue.1) hdue.2,
          fun hact => absurd hact (by simp [callBack])⟩
      · exact absurd hs (by simp)

theorem started_of_reachBy (h : sys.ReachBy InTime s) : s.Started := by
  refine h.invariant (fun s hs => ?_) fun s c s' _ hinv hc hstep => started_step hinv hc hstep
  obtain rfl : s = _ := hs
  exact ⟨by decide, by decide, by decide, by decide,
    fun _ => by decide, fun hact => absurd hact (by decide)⟩

/-- **In every run**, an idle disk accepts a request, and the latency is what it should be. -/
theorem request_right (h : sys.ReachBy InTime s) (hidle : s.disk.active = false)
    {sectorNumber : Int}
    (hnew : IsSector sectorNumber) (hroom : s.totalTicks + longest ≤ intMax) (writing : Bool) :
    s.disk.LatencyRight s.totalTicks sectorNumber writing ∧
      ∃ s', step s (.request sectorNumber writing) = some s' := by
  have hstarted := started_of_reachBy h
  have hready := headReady_le hstarted.lastSector hnew hroom
  have hpos := computeLatency_pos writing hstarted.totalTicks hstarted.lastSector hnew hready
  have hnonneg := hstarted.nonneg
  refine ⟨⟨hpos, transfer_start hstarted.totalTicks hstarted.lastSector hnew hready,
    bufferApplies_iff hstarted.totalTicks hstarted.lastSector hnew hstarted.boundary
      (hstarted.idle hidle) ⟨hready, fun _ _ => by omega⟩⟩, ?_⟩
  unfold step Disk.request
  dsimp only
  rw [if_pos ⟨hidle, hnew, hpos⟩]
  exact ⟨_, rfl⟩

end DiskTime

end Nachos
