import Nachos.Base.System
import Nachos.Lib.Utility

/-!
# The time that the disk takes: `machine/disk.cc`

The simulated disk does a request at once and has the interrupt come when a real disk would be done.
For that it works out how long the head takes to the track, and how long the sector takes to come
round. Reads may be quicker: the disk reads the whole track into a buffer as it goes past, from
`bufferInit` on.

What is read and written, and the counts of both, are left out. The time is an argument, which the
source takes from `kernel->stats`.
-/

namespace Nachos

/-- `RotationTime`: the time the disk takes to rotate one sector. -/
def rotationTime : Int := 500

/-- `SeekTime`: the time the disk takes to seek past one track. -/
def seekTime : Int := 500

/-- The simulated disk. -/
structure Disk where
  active : Bool
  /-- The previous request. -/
  lastSector : Int
  /-- When the track buffer started being loaded. -/
  bufferInit : Int
  deriving DecidableEq, Repr

namespace Disk

/-- `SectorsPerTrack`. -/
def sectorsPerTrack : Int := 32

/-- `NumTracks`. -/
def numTracks : Int := 32

/-- `NumSectors`. -/
def numSectors : Int := sectorsPerTrack * numTracks

/-- The constructor. -/
def new : Disk := ⟨false, 0, 0⟩

variable (d : Disk) (totalTicks newSector : Int)

/-- `TimeToSeek`: how long the seek takes, and from then on to the next sector boundary. -/
def timeToSeek : Int × Int :=
  let newTrack := newSector.tdiv sectorsPerTrack
  let oldTrack := d.lastSector.tdiv sectorsPerTrack
  let seek := toInt32 ((toInt32 (newTrack - oldTrack)).natAbs * seekTime)
  -- `over`
  let past := (toInt32 (totalTicks + seek)).tmod rotationTime
  (seek, if past > 0 then rotationTime - past else 0)

/-- `ModuloDiff`: the sectors between `target` and `current`. -/
def moduloDiff (target current : Int) : Int :=
  let toOffset := target.tmod sectorsPerTrack
  let fromOffset := current.tmod sectorsPerTrack
  (toOffset - fromOffset + sectorsPerTrack).tmod sectorsPerTrack

/-- `timeAfter` of `ComputeLatency`. -/
def timeAfter : Int :=
  let (seek, rotation) := d.timeToSeek totalTicks newSector
  toInt32 (totalTicks + seek + rotation)

/-- Whether the track buffer applies. -/
def bufferApplies (writing : Bool) : Bool :=
  !writing && decide ((d.timeToSeek totalTicks newSector).1 = 0) &&
    decide ((toInt32 (d.timeAfter totalTicks newSector - d.bufferInit)).tdiv rotationTime >
      moduloDiff newSector (d.bufferInit.tdiv rotationTime))

/-- `ComputeLatency`. -/
def computeLatency (writing : Bool) : Int :=
  let (seek, rotation) := d.timeToSeek totalTicks newSector
  -- the sector is in the buffer already
  if d.bufferApplies totalTicks newSector writing then rotationTime
  else
    let rotation := rotation +
      moduloDiff newSector ((d.timeAfter totalTicks newSector).tdiv rotationTime) * rotationTime
    toInt32 (seek + rotation + rotationTime)

/-- `UpdateLast`. -/
def updateLast : Disk :=
  let (seek, rotate) := d.timeToSeek totalTicks newSector
  { d with
    bufferInit := if seek ≠ 0 then toInt32 (totalTicks + seek + rotate) else d.bufferInit
    lastSector := newSector }

/-- `ReadRequest` and `WriteRequest`, with the `ticks` that they give to `Schedule`. There are three
assertions: of one request at a time, of the number of the sector, and of `Schedule` that the
interrupt is not due already. -/
def request (sectorNumber : Int) (writing : Bool) : Option (Int × Disk) :=
  let ticks := d.computeLatency totalTicks sectorNumber writing
  if d.active = false ∧ (0 ≤ sectorNumber ∧ sectorNumber < numSectors) ∧ 0 < ticks then
    some (ticks, { d with active := true }.updateLast totalTicks sectorNumber)
  else none

/-- `CallBack`. -/
def callBack : Disk := { d with active := false }

end Disk

/-! ## The disk in time -/

/-- The disk, the time, and the time of its interrupt. -/
structure DiskTime where
  disk : Disk
  totalTicks : Int
  /-- Where the interrupt stands in the list. -/
  when : Int
  deriving DecidableEq, Repr

/-- What happens next. -/
inductive DiskCall where
  /-- Time passes. -/
  | tick (n : Nat)
  | request (sectorNumber : Int) (writing : Bool)
  /-- The interrupt comes, when it is due or later. -/
  | callBack
  deriving DecidableEq, Repr

namespace DiskTime

/-- What an event does. A time past the largest `int` wraps. -/
def step (s : DiskTime) : DiskCall → Option DiskTime
  | .tick n => some { s with totalTicks := toInt32 (s.totalTicks + n) }
  | .request sectorNumber writing =>
      (s.disk.request s.totalTicks sectorNumber writing).map fun r =>
        ⟨r.2, s.totalTicks, toInt32 (s.totalTicks + r.1)⟩
  | .callBack =>
      if s.disk.active = true ∧ s.when ≤ s.totalTicks then some { s with disk := s.disk.callBack }
      else none

/-- The runs of the disk. -/
def sys : Base.System DiskTime DiskCall where
  init := fun s => s = ⟨Disk.new, 0, 0⟩
  step := step

end DiskTime

end Nachos
