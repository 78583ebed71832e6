import R4Recovery.GuidText
import R4Recovery.NtfsRecord
import R4Recovery.PartitionSpace
/-!
# NtfsSpace — where a resized volume puts its bitmap

`querySpace`, `inspectFixedRuns` and `Plan.prepare` of `ntfs_resize.zig`.  Only the bitmap can move: a volume shrinks down
to its highest other cluster in use, and the bitmap goes to the first free clusters that hold it.  A prepared plan is
modelled up to its placement; what `prepare` does behind it edits the records of the plan, repeats reads and can only fail.
-/
namespace R4
namespace Ntfs

open Gpt (getLe Guid alignForward alignmentSectors)
open Bitmap

structure ShrinkLimits where
  maximumSectors : Nat := 0
  minimumSectors : Nat := 0
  highestFixedCluster : Nat := 0
  bitmapLcn : Option Nat := none

structure ResizePlan where
  first : Nat
  oldSectors : Nat
  newSectors : Nat
  number : Nat
  oldClusters : Nat
  newClusters : Nat
  bitmapLcn : Nat
  bitmapBytes : Nat
  bitmapClusters : Nat
  bitmap : Map := {}
  shrink : ShrinkLimits := {}
  mft : Map := {}
  mirrorLcn : Nat := 0

def overlap (a an b bn : Nat) : Bool := decide (a < b + bn) && decide (b < a + an)

/-! ## Free clusters -/

/-- A run of free clusters that a scan is in, and what it found. -/
structure FreeScan where
  start : Nat := 0
  count : Nat := 0
  found : Option Nat := none

/-- `n` more free clusters from `cluster` on. -/
def FreeScan.take (need : Nat) (self : FreeScan) (cluster n : Nat) : FreeScan :=
  let start := if self.count = 0 then cluster else self.start
  { start, count := self.count + n, found := if need ≤ self.count + n then some start else none }

def scanBits (need oldClusters cluster : Nat) (byte : UInt8) : List Nat → FreeScan → FreeScan
  | [], scan => scan
  | b :: rest, scan =>
    if oldClusters ≤ cluster + b then scan
    else if bit byte b then scanBits need oldClusters cluster byte rest { scan with count := 0 }
    else if (scan.take need (cluster + b) 1).found.isSome then scan.take need (cluster + b) 1
    else scanBits need oldClusters cluster byte rest (scan.take need (cluster + b) 1)

/-- One byte: eight free clusters at once, or bit by bit. -/
def scanByte (need oldClusters cluster : Nat) (byte : UInt8) (scan : FreeScan) : FreeScan :=
  if byte = 0 ∧ cluster + 8 ≤ oldClusters then scan.take need cluster 8
  else scanBits need oldClusters cluster byte (List.range' 0 8) scan

/-- The bytes of a chunk from cluster `cluster` on, until the scan has found its run. -/
def scanBytes (need oldClusters : Nat) : Nat → Bytes → FreeScan → FreeScan
  | _, [], scan => scan
  | cluster, byte :: rest, scan =>
    if oldClusters ≤ cluster then scan
    else if (scanByte need oldClusters cluster byte scan).found.isSome then scanByte need oldClusters cluster byte scan
    else scanBytes need oldClusters (cluster + 8) rest (scanByte need oldClusters cluster byte scan)

/-- `@clz` of a byte that is not zero. -/
def clz (byte : UInt8) : Nat := 7 - byte.toNat.log2

def highestIn : Nat → Bytes → Nat → Nat
  | _, [], highest => highest
  | cluster, byte :: rest, highest =>
    highestIn (cluster + 8) rest (if byte ≠ 0 then cluster + 7 - clz byte else highest)

/-- The clusters of the runs count as free. -/
def clearRuns (base : Nat) (runs : List Run) (bytes : Bytes) : Bytes :=
  runs.foldl (fun bytes run => changeRange bytes base (run.lcn.getD 0) (run.lcn.getD 0 + run.lengthClusters) false) bytes

/-- The loop of `querySpace` over the old bitmap. -/
def scanLoop (plan : ResizePlan) (volume : Volume) (workLen : Nat) : Nat → Nat → FreeScan × Nat →
    Io ResizeError (FreeScan × Nat)
  | 0, _, st => pure st
  | fuel + 1, done, st =>
    if alignForward plan.bitmap.bytes 512 ≤ done then pure st
    else do
      let bytes ← plan.bitmap.read volume done (min workLen (alignForward plan.bitmap.bytes 512 - done))
      let base := done * 8
      let scan := if st.1.found = none then scanBytes plan.bitmap.clusters plan.oldClusters base bytes st.1 else st.1
      let fixed := changeRange (clearRuns base plan.bitmap.runs bytes) base plan.oldClusters (base + bytes.length * 8) false
      scanLoop plan volume workLen fuel (done + bytes.length) (scan, highestIn base fixed st.2)

/-! ## Runs of other files -/

/-- A part of the bitmap at hand. -/
structure BitmapCheck where
  cachedAt : Nat := 0
  cachedBytes : Nat := 0
  scratch : Bytes := []

def BitmapCheck.load (map : Map) (volume : Volume) (scratchLen : Nat) (self : BitmapCheck) (byte : Nat) :
    Io ResizeError BitmapCheck :=
  if self.cachedBytes = 0 ∨ byte < self.cachedAt ∨ self.cachedAt + self.cachedBytes ≤ byte then
    let cachedAt := byte / 512 * 512
    if alignForward map.bytes 512 ≤ cachedAt then Io.throw .corruptNtfs
    else do
      let cachedBytes := min scratchLen (alignForward map.bytes 512 - cachedAt)
      let scratch ← map.read volume cachedAt cachedBytes
      return { cachedAt, cachedBytes, scratch }
  else pure self

/-- `allocated`: the bits from `first` up to `last` are set; each turn takes one of them at least. -/
def BitmapCheck.allocated (map : Map) (volume : Volume) (scratchLen : Nat) : Nat → Nat → Nat → BitmapCheck →
    Io ResizeError BitmapCheck
  | 0, _, _, self => pure self
  | fuel + 1, first, last, self =>
    if last ≤ first then pure self
    else do
      let self ← self.load map volume scratchLen (first / 8)
      let stop := min last ((self.cachedAt + self.cachedBytes) * 8)
      Io.refuse (!expectSetRange self.scratch (self.cachedAt * 8) first stop) .corruptNtfs
      BitmapCheck.allocated map volume scratchLen fuel stop last self

/-- The cached bitmap, the limits so far, and the runs and clusters of the attribute at hand. -/
structure Inspection where
  checker : BitmapCheck := {}
  limits : ShrinkLimits
  count : Nat := 0
  clusters : Nat := 0

section Fixed

variable (plan : ResizePlan) (volume : Volume) (workLen : Nat)

/-- One run; `own` says that the attribute is the data of the bitmap. -/
def inspectRun (own : Bool) (st : Inspection) (run : Run) : Io ResizeError Inspection := do
  Io.refuse (decide (256 < st.count + 1)) .unsupportedNtfs
  Io.refuse (decide (2 ^ 64 ≤ st.clusters + run.lengthClusters)) .corruptNtfs
  let st := { st with count := st.count + 1, clusters := st.clusters + run.lengthClusters }
  match run.lcn with
  | none => return st
  | some lcn => do
    Io.refuse (decide (plan.oldClusters ≤ lcn) || decide (plan.oldClusters - lcn < run.lengthClusters)) .corruptNtfs
    let checker ← st.checker.allocated plan.bitmap volume (workLen - 1024) run.lengthClusters lcn (lcn + run.lengthClusters)
    let st := { st with checker }
    if own then return st
    else do
      Io.refuse (plan.bitmap.runs.any (fun r => overlap lcn run.lengthClusters (r.lcn.getD 0) r.lengthClusters)) .corruptNtfs
      let limits := { st.limits with
        highestFixedCluster := max st.limits.highestFixedCluster (lcn + run.lengthClusters - 1) }
      Io.refuse (limits.bitmapLcn.any (fun destination => overlap destination plan.bitmap.clusters lcn run.lengthClusters))
        .corruptNtfs
      return { st with limits }

def inspectAttribute (number : Nat) (st : Inspection) (attr : Attribute) : Io ResizeError Inspection :=
  if !attr.nonResident then pure st
  else do
    Io.refuse (attr.lowestVcn != 0) .unsupportedNtfs
    let own := number == 6 && attr.attrType == AttrType.data && attr.name.isEmpty
    let st ← (runlist attr.mappingPairs).1.foldlM (inspectRun plan volume workLen own) { st with count := 0, clusters := 0 }
    Io.refuse (!(runlist attr.mappingPairs).2.ended attr.mappingPairs || st.count == 0 || st.clusters == 0 ||
      attr.highestVcn != st.clusters - 1) .corruptNtfs
    return st

def inspectRecord (st : Inspection) (number : Nat) : Io ResizeError Inspection := do
  let raw ← plan.mft.read volume (number * 1024) 1024
  if getLe raw 0x16 2 &&& recordInUse = 0 then return st
  else do
    let record ← Io.lift (decodeRecord raw number)
    (attributesOf record).foldlM (inspectAttribute plan volume workLen number) st

def inspectFixedRuns (limits : ShrinkLimits) : Io ResizeError ShrinkLimits := do
  Io.refuse (plan.mft.bytes % 1024 != 0 || decide (1024 * 1024 < plan.mft.bytes / 1024)) .unsupportedNtfs
  let st ← (List.range (plan.mft.bytes / 1024)).foldlM (inspectRecord plan volume workLen) { limits }
  return st.limits

/-- What the placement and the highest cluster allow. -/
def boundLimits (limits : ShrinkLimits) : ShrinkLimits :=
  match limits.bitmapLcn with
  | none => limits
  | some lcn =>
    let neededClusters := max (limits.highestFixedCluster + 1) (lcn + plan.bitmap.clusters)
    let neededSectors := max (neededClusters * 8 + 1) 32768
    if neededSectors < plan.oldSectors then
      let maximum := (plan.oldSectors - neededSectors) / alignmentSectors * alignmentSectors
      { limits with maximumSectors := maximum, minimumSectors := plan.oldSectors - maximum }
    else limits

def querySpace : Io ResizeError ShrinkLimits := do
  let (scan, highest) ← scanLoop plan volume workLen (alignForward plan.bitmap.bytes 512) 0 ({}, 0)
  let limits ← inspectFixedRuns plan volume workLen
    { minimumSectors := plan.oldSectors, highestFixedCluster := highest, bitmapLcn := scan.found }
  return boundLimits plan limits

end Fixed

/-! ## Preparation -/

/-- `partition.basic_type`. -/
def basicType : Guid := (Guid.parse (ascii "ebd0a0a2-b9e5-4433-87c0-68b6b72699c7")).getD Guid.zero

def checkBoot (plan : ResizePlan) (sector backup : Bytes) : Except ResizeError BootSector :=
  if sector ≠ backup then .error .corruptNtfs
  else match BootSector.parse sector with
    | .error _ => .error .corruptNtfs
    | .ok boot =>
      if boot.bytesPerSector ≠ 512 ∨ boot.clusterBytes ≠ 4096 ∨ boot.fileRecordBytes ≠ 1024 ∨ boot.indexBlockBytes ≠ 4096 ∨
          boot.totalSectors ≠ plan.oldSectors - 1 ∨ getLe sector 0x50 4 ≠ 0 ∨ plan.oldClusters ≤ boot.mftLcn ∨
          plan.oldClusters ≤ boot.mftmirrLcn then .error .unsupportedNtfs
      else .ok boot

/-- `record`: a record of the table, decoded. -/
def ResizePlan.record (plan : ResizePlan) (volume : Volume) (number : Nat) : Io ResizeError Bytes := do
  let lba ← Io.lift (plan.mft.lba (number * 1024) 1024)
  let raw ← volume.read lba 1024
  Io.lift (decodeRecord raw number)

/-- What the records one and three must say, their update sequence left out. -/
def checkSystemRecord (plan : ResizePlan) (number : Nat) (record : Bytes) : Except ResizeError Unit :=
  if number = 1 then do
    let data ← findOnly record AttrType.data []
    let mirror ← Map.parse data plan.oldClusters false
    if mirror.runs.map Run.lcn ≠ [some plan.mirrorLcn] ∨ mirror.clusters ≠ 1 ∨ mirror.bytes ≠ 4096 then .error .unsupportedNtfs
    else .ok ()
  else if number = 3 then do
    let info ← findOnly record AttrType.volumeInformation []
    if info.nonResident ∨ info.value.length ≠ 12 ∨ info.value.getD 8 0 ≠ 3 ∨ info.value.getD 9 0 ≠ 1 then
      .error .unsupportedNtfs
    else if getLe info.value 10 2 ≠ 0 then .error .dirtyNtfs
    else .ok ()
  else .ok ()

/-- One of the four records that have a mirror. -/
def checkMirrored (plan : ResizePlan) (volume : Volume) (number : Nat) : Io ResizeError Unit := do
  let record ← plan.record volume number
  let raw ← volume.read (plan.mirrorLcn * 8 + number * 2) 1024
  let mirror ← Io.lift (decodeRecord raw number)
  Io.refuse (normaliseUsa record != normaliseUsa mirror) .corruptNtfs
  Io.lift (checkSystemRecord plan number (normaliseUsa record))

/-- The old bitmap must stand clear of the table, its mirror and the boot sectors. -/
def bitmapMisplaced (plan : ResizePlan) (bitmap : Map) : Bool :=
  bitmap.runs.any (fun run =>
    plan.mft.runs.any (fun r => overlap (run.lcn.getD 0) run.lengthClusters (r.lcn.getD 0) r.lengthClusters) ||
    overlap (run.lcn.getD 0) run.lengthClusters plan.mirrorLcn 1 || decide (run.lcn.getD 0 < 2))

/-- The placement of the new bitmap. -/
def ResizePlan.place (plan : ResizePlan) (volume : Volume) (workLen : Nat) : Io ResizeError ResizePlan :=
  if plan.newSectors ≤ plan.oldSectors then do
    let shrink ← querySpace plan volume (workLen - 4096)
    Io.refuse (decide (plan.newSectors < plan.oldSectors) &&
      (shrink.bitmapLcn.isNone || decide (plan.newSectors < shrink.minimumSectors))) .shrinkLimit
    return { plan with
      shrink
      bitmapClusters := plan.bitmap.clusters
      bitmapLcn := shrink.bitmapLcn.getD ((plan.bitmap.runs.head?.bind Run.lcn).getD 0) }
  else do
    let _ ← inspectFixedRuns plan volume (workLen - 4096) { bitmapLcn := some plan.bitmapLcn }
    return plan

/-- The plan before anything is read. -/
def ResizePlan.start (entry : Gpt.Entry) (number oldSectors : Nat) : ResizePlan :=
  let bytes := alignForward (((entry.count - 1) / 8 + 7) / 8) 8
  { first := entry.first, oldSectors, newSectors := entry.count, number, oldClusters := (oldSectors - 1) / 8
    newClusters := (entry.count - 1) / 8, bitmapLcn := (oldSectors + 7) / 8, bitmapBytes := bytes
    bitmapClusters := (bytes + 4095) / 4096 }

/-- The checks on the target. -/
def targetBad (layout : Gpt.Plan) (entry : Gpt.Entry) (oldSectors workLen : Nat) : Bool :=
  decide (workLen < 32768) || workLen % 1024 != 0 || decide (entry.count < 32768) || decide (oldSectors < 32768) ||
    decide ((2 ^ 64 - 1) / 512 < entry.count) || (layout.kind == .gpt && entry.typeGuid != basicType) ||
    (layout.kind == .mbr && entry.mbrType != 7)

/-- `prepare` up to the placement of the bitmap. -/
def ResizePlan.prepare (disk : Device) (layout : Gpt.Plan) (number oldSectors workLen : Nat) : Io ResizeError ResizePlan := do
  Io.lift (layout.validate.mapError .device)
  let entry ← Io.lift ((layout.get number).mapError .device)
  Io.refuse (targetBad layout entry oldSectors workLen) .unsupportedNtfs
  let plan := ResizePlan.start entry number oldSectors
  Io.refuse (decide (plan.oldSectors < plan.newSectors) && (decide (plan.newClusters ≤ plan.bitmapLcn) ||
    decide (plan.newClusters - plan.bitmapLcn < plan.bitmapClusters))) (.device .noSpace)
  let volume ← Io.lift (Volume.ofRegion disk plan.first oldSectors)
  let sector ← volume.read 0 512
  let backup ← volume.read (oldSectors - 1) 512
  let boot ← Io.lift (checkBoot plan sector backup)
  let raw ← volume.read (boot.mftLcn * 8) 1024
  let table ← Io.lift (decodeRecord raw 0)
  let data ← Io.lift (findOnly table AttrType.data [])
  let mft ← Io.lift (Map.parse data plan.oldClusters false)
  Io.refuse (decide (mft.bytes < 16 * 1024) || (mft.runs.head?.bind Run.lcn) != some boot.mftLcn) .corruptNtfs
  let plan := { plan with mft, mirrorLcn := boot.mftmirrLcn }
  (List.range 4).forM (checkMirrored plan volume)
  let record ← plan.record volume 6
  let data ← Io.lift (findOnly record AttrType.data [])
  let bitmap ← Io.lift (Map.parse data plan.oldClusters false)
  Io.refuse (bitmap.bytes != alignForward ((plan.oldClusters + 7) / 8) 8) .unsupportedNtfs
  Io.refuse (bitmapMisplaced plan bitmap) .corruptNtfs
  ResizePlan.place { plan with bitmap } volume workLen

end Ntfs
end R4
