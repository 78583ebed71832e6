import R4Recovery.GptFormat
/-!
# Partition — partition table plans

`partition.zig`: reading a table into a plan, editing it, and committing it.  The hash that binds a plan to the bytes it
was read from is a parameter: any function of the bytes.
-/
namespace R4
namespace Gpt

def maxEntries : Nat := 128
def alignmentSectors : Nat := 2048
def maxArrayBytes : Nat := maxEntries * 128

inductive Kind where
  | none | mbr | gpt
  deriving DecidableEq, Repr

structure Entry where
  present : Bool := false
  first : Nat := 0
  count : Nat := 0
  typeGuid : Guid := Guid.zero
  uniqueGuid : Guid := Guid.zero
  attributes : UInt64 := 0
  name : Name := Vector.replicate 36 0
  mbrType : UInt8 := 0
  active : Bool := false
  mbrOriginal : Vector UInt8 16 := Vector.replicate 16 0
  deriving DecidableEq

/-- The spans a plan was read from, as first sector and count, and the digest of their bytes. -/
structure Source where
  spans : List (Nat × Nat) := []
  digest : Bytes := []

structure Plan where
  sectors : Nat
  kind : Kind := .none
  blank : Bool := false
  diskGuid : Guid := Guid.zero
  diskId : UInt32 := 0
  firstUsable : Nat := 1
  lastUsable : Nat
  entryCount : Nat := 0
  primaryArray : Nat := 2
  backupArray : Nat := 0
  mbrPrefix : Vector UInt8 446 := Vector.replicate 446 0
  entries : Vector Entry 128 := Vector.replicate 128 {}
  source : Source := {}
  eraseSourceGpt : Bool := false

/-- The entries the table's count admits. -/
def Plan.live (p : Plan) : List Entry := p.entries.toList.take p.entryCount

def arraySectors (count : Nat) : Nat := (count * 128 + 511) / 512

def extended (value : UInt8) : Bool := value == 5 || value == 0xf || value == 0x85

/-! ## Validation -/

def geometryOk (p : Plan) : Bool :=
  !(decide (p.sectors < 3) || decide ((2 ^ 64 - 1) / 512 < p.sectors) || p.firstUsable == 0 ||
    decide (p.lastUsable < p.firstUsable) || decide (p.sectors ≤ p.lastUsable) || decide (maxEntries < p.entryCount))

def kindOk (p : Plan) : Bool :=
  match p.kind with
  | .none => p.entryCount == 0
  | .mbr => p.entryCount == 4
  | .gpt =>
    !(p.diskGuid == Guid.zero || p.entryCount == 0) &&
    !(decide (p.primaryArray ≤ 1) || decide (p.firstUsable ≤ p.primaryArray) ||
      decide (p.firstUsable - p.primaryArray < arraySectors p.entryCount) ||
      decide (p.backupArray ≤ p.lastUsable) || decide (p.sectors - 1 ≤ p.backupArray) ||
      decide (p.sectors - 1 - p.backupArray < arraySectors p.entryCount))

def entryRange (p : Plan) (e : Entry) : Except Error Unit :=
  reject (e.count == 0 || decide (e.first < p.firstUsable) || decide (p.lastUsable < e.first) ||
    decide (p.lastUsable - e.first < e.count - 1)) .partitionRange

def entryKind (p : Plan) (e : Entry) : Except Error Unit :=
  match p.kind with
  | .none => .error .geometry
  | .mbr => reject (e.mbrType == 0 || e.mbrType == 0xee || extended e.mbrType || decide (2 ^ 32 - 1 < e.first) ||
      decide (2 ^ 32 - 1 < e.count) || decide (2 ^ 32 < e.first + e.count)) .mbrCapacity
  | .gpt => reject (e.typeGuid == Guid.zero || e.uniqueGuid == Guid.zero || e.uniqueGuid == p.diskGuid) .partitionGuid

/-- An entry against the ones in front of it. -/
def entryApart (p : Plan) (e : Entry) : List Entry → Except Error Unit
  | [] => .ok ()
  | other :: rest =>
    if !other.present then entryApart p e rest
    else if e.first < other.first + other.count ∧ other.first < e.first + e.count then .error .overlap
    else if p.kind = .gpt ∧ e.uniqueGuid = other.uniqueGuid then .error .duplicateGuid
    else entryApart p e rest

def validateEntries (p : Plan) : (prior rest : List Entry) → Except Error Unit
  | _, [] => .ok ()
  | prior, e :: rest =>
    if !e.present then validateEntries p (prior ++ [e]) rest
    else do
      entryRange p e
      entryKind p e
      entryApart p e prior
      validateEntries p (prior ++ [e]) rest

def Plan.validate (p : Plan) : Except Error Unit := do
  reject (!geometryOk p) .geometry
  reject (!kindOk p) .geometry
  validateEntries p [] p.live

/-! ## Reading -/

section Hash

variable (sha : Bytes → Bytes)

/-- The bytes of the spans, in order. -/
def readSpans (dev : Device) : List (Nat × Nat) → Bytes → Io Error Bytes
  | [], acc => pure acc
  | (first, count) :: rest, acc =>
    if count = 0 then readSpans dev rest acc
    else do
      let bytes ← dev.read first (512 * count)
      readSpans dev rest (acc ++ bytes)

/-- `Source.hash`. -/
def Source.hash (source : Source) (dev : Device) (scratchLen : Nat) : Io Error Bytes := do
  Io.refuse (decide (scratchLen < 512) || scratchLen % 512 != 0) .bounds
  let bytes ← readSpans dev source.spans []
  pure (sha bytes)

/-- The sixteen bytes of an MBR slot. -/
def mbrSlot (mbr : Bytes) (slot : Nat) : Bytes := slice mbr (446 + slot * 16) 16

/-- The type byte of an MBR slot. -/
def slotType (bytes : Bytes) : UInt8 := bytes.getD 4 0

/-- A protective slot covers the disk from sector one. -/
def protectiveOk (sectors : Nat) (bytes : Bytes) : Bool :=
  getLe bytes 8 4 == 1 && getLe bytes 12 4 == min (sectors - 1) (2 ^ 32 - 1)

def mbrSlots (mbr : Bytes) : List Bytes := (List.range 4).map (mbrSlot mbr)

/-- One slot of an MBR table. -/
def readMbrSlot (bytes : Bytes) : Except Error Entry := do
  if slotType bytes = 0 then
    reject (getLe bytes 8 4 != 0 || getLe bytes 12 4 != 0) .partitionRange
    pure {}
  else
    reject (bytes.getD 0 0 != 0 && bytes.getD 0 0 != 0x80) .activeFlag
    reject (extended (slotType bytes)) .extendedMbrUnsupported
    pure { present := true, first := getLe bytes 8 4, count := getLe bytes 12 4, mbrType := slotType bytes
           active := bytes.getD 0 0 == 0x80, mbrOriginal := Vector.ofFn (fun i => bytes.getD i.val 0) }

/-- Entries into the first slots of the table. -/
def setEntries (es : List Entry) : Vector Entry 128 := Vector.ofFn (fun i => es.getD i.val {})

/-- One slot of a GPT array. -/
def readGptSlot (header : Header) (bytes : Bytes) : Except Error Entry := do
  match ← parsePartition bytes header with
  | none => pure {}
  | some part =>
    pure { present := true, first := part.firstLba, count := part.sectorCount, typeGuid := part.typeGuid
           uniqueGuid := part.uniqueGuid, attributes := part.attributes, name := part.nameUtf16 }

/-- The entries of a GPT array. -/
def arraySlots (array : Bytes) (count : Nat) : List Bytes := (List.range count).map (fun slot => slice array (slot * 128) 128)

def readGptArray (header : Header) (array : Bytes) : Except Error (List Entry) :=
  (arraySlots array header.entryCount).mapM (readGptSlot header)

def gptLayoutBad (primarySector backupSector : Bytes) (primary : Header) : Bool :=
  getLe primarySector 12 4 != 92 || getLe backupSector 12 4 != 92 || primary.entrySize != 128 ||
    primary.entryCount == 0 || decide (maxEntries < primary.entryCount)

def gptCopiesDiffer (primary backup : Header) : Bool :=
  primary.diskGuid != backup.diskGuid || primary.firstUsableLba != backup.firstUsableLba ||
    primary.lastUsableLba != backup.lastUsableLba || primary.entryCount != backup.entryCount ||
    primary.entrySize != backup.entrySize || primary.entriesCrc32 != backup.entriesCrc32

/-- `readGpt`; also the bytes it adds to the running hash. -/
def readGpt (p : Plan) (dev : Device) (primarySector backupSector : Bytes) : Io Error (Plan × Bytes) := do
  let primary ← Io.lift (parseHeader primarySector 1 p.sectors)
  let backup ← Io.lift (parseHeader backupSector (p.sectors - 1) p.sectors)
  Io.refuse (gptLayoutBad primarySector backupSector primary) .gptLayoutUnsupported
  Io.refuse (gptCopiesDiffer primary backup) .gptCopiesDisagree
  let first ← dev.read primary.entriesLba (512 * primary.entrySectors)
  let second ← dev.read backup.entriesLba (512 * primary.entrySectors)
  let used := primary.entryBytes
  Io.refuse (slice first 0 used != slice second 0 used || (crc (slice first 0 used)).toNat != primary.entriesCrc32) .gptArrayCrc
  let entries ← Io.lift (readGptArray primary first)
  pure ({ p with
          kind := .gpt, diskGuid := primary.diskGuid, firstUsable := primary.firstUsableLba
          lastUsable := primary.lastUsableLba, entryCount := primary.entryCount
          primaryArray := primary.entriesLba, backupArray := backup.entriesLba
          source.spans := p.source.spans ++
            [(primary.entriesLba, primary.entrySectors), (backup.entriesLba, backup.entrySectors)]
          entries := setEntries entries }, first ++ second)

/-- The table behind an MBR signature: GPT when one slot is protective, MBR when none is. -/
def readTable (p : Plan) (dev : Device) (mbr primarySector backupSector : Bytes) : Io Error (Plan × Bytes) := do
  let protective := (mbrSlots mbr).filter (fun bytes => slotType bytes == 0xee)
  let occupied := (mbrSlots mbr).filter (fun bytes => slotType bytes != 0)
  Io.refuse (protective.any (fun bytes => !protectiveOk p.sectors bytes)) .protectiveMbr
  if protective.length ≠ 0 then do
    Io.refuse (protective.length != 1 || occupied.length != 1) .hybridMbr
    readGpt p dev primarySector backupSector
  else do
    let entries ← Io.lift ((mbrSlots mbr).mapM readMbrSlot)
    pure ({ p with kind := .mbr, entryCount := 4, entries := setEntries entries }, [])

/-- The plan a disk starts from: its size, the MBR's first bytes and the three fixed sectors as source. -/
def basePlan (sectors : Nat) (mbr : Bytes) : Plan :=
  { sectors, lastUsable := sectors - 1, mbrPrefix := Vector.ofFn (fun i => mbr.getD i.val 0)
    diskId := (getLe mbr 440 4).toUInt32, source.spans := [(0, 1), (1, 1), (sectors - 1, 1)] }

/-- A table when the MBR is signed, an unknown or blank disk otherwise. -/
def readSigned (p : Plan) (dev : Device) (mbr primarySector backupSector : Bytes) : Io Error (Plan × Bytes) :=
  if mbr.getD 510 0 = 0x55 ∧ mbr.getD 511 0 = 0xaa then readTable p dev mbr primarySector backupSector
  else pure ({ p with blank := allZero mbr && allZero primarySector && allZero backupSector }, [])

def Plan.read (dev : Device) (scratchLen : Nat) : Io Error Plan := do
  Io.lift dev.validate
  Io.refuse (decide (dev.sectors < 3) || decide (scratchLen < maxArrayBytes * 2) || scratchLen % 512 != 0) .geometry
  let mbr ← dev.read 0 512
  let primarySector ← dev.read 1 512
  let backupSector ← dev.read (dev.sectors - 1) 512
  let table ← readSigned (basePlan dev.sectors mbr) dev mbr primarySector backupSector
  Io.lift table.1.validate
  let plan := { table.1 with source.digest := sha (mbr ++ primarySector ++ backupSector ++ table.2) }
  let again ← plan.source.hash sha dev scratchLen
  Io.refuse (plan.source.digest != again) .stale
  pure plan

/-! ## Editing -/

def Plan.initializeGpt (p : Plan) (diskGuid : Guid) : Except Error Plan := do
  reject (p.kind != .none || !p.blank) .notEmpty
  reject (decide (p.sectors < 68) || diskGuid == Guid.zero) .geometry
  pure { p with
    kind := .gpt, diskGuid, firstUsable := 34, lastUsable := p.sectors - 34, entryCount := maxEntries, primaryArray := 2
    backupArray := p.sectors - 33, mbrPrefix := Vector.replicate 446 0, diskId := 0 }

def Plan.initializeMbr (p : Plan) (diskId : UInt32) : Except Error Plan := do
  reject (p.kind != .none || !p.blank) .notEmpty
  reject (decide (2 ^ 32 < p.sectors) || diskId == 0) .geometry
  pure { p with
    kind := .mbr, diskGuid := Guid.zero, diskId, entryCount := 4, firstUsable := 1, lastUsable := p.sectors - 1
    mbrPrefix := Vector.replicate 446 0 }

def Plan.convertEmpty (p : Plan) (kind : Kind) (diskGuid : Guid) (diskId : UInt32) : Except Error Plan := do
  p.validate
  reject (p.live.any (·.present)) .notEmpty
  reject (p.kind == .none && !p.blank) .notEmpty
  reject (kind == .none) .geometry
  reject (kind == p.kind) .alreadyConverted
  let empty := { p with kind := .none, blank := true }
  let next ← (if kind = .gpt then empty.initializeGpt diskGuid else empty.initializeMbr diskId)
  pure { next with eraseSourceGpt := p.kind == .gpt && kind == .mbr }

/-- The first free slot. -/
def Plan.freeSlot (p : Plan) : Option Nat := p.live.findIdx? (fun e => !e.present)

def Plan.setEntry (p : Plan) (slot : Nat) (e : Entry) : Plan := { p with entries := p.entries.setIfInBounds slot e }

def Plan.add (p : Plan) (entry : Entry) : Except Error Plan := do
  reject (!entry.present || entry.first % alignmentSectors != 0) .alignment
  match p.freeSlot with
  | none => .error .partitionCapacity
  | some slot => do
    (p.setEntry slot entry).validate
    pure (p.setEntry slot entry)

/-- `get`: the slot of a present partition by its number. -/
def Plan.get (p : Plan) (number : Nat) : Except Error Entry :=
  if number = 0 ∨ p.entryCount < number then .error .notFound
  else match p.entries[number - 1]? with
    | some e => if e.present then .ok e else .error .notFound
    | none => .error .notFound

def Plan.remove (p : Plan) (number : Nat) : Except Error Plan := do
  let _ ← p.get number
  pure (p.setEntry (number - 1) {})

/-- The end of the free space behind `end_`: the next partition or the end of the usable range. -/
def Plan.limit (p : Plan) (end_ : Nat) : Nat :=
  p.live.foldl (fun limit other => if other.present ∧ end_ ≤ other.first then min limit other.first else limit)
    (p.lastUsable + 1)

def Plan.extend (p : Plan) (number : Nat) (extraSectors : Option Nat) : Except Error Plan := do
  p.validate
  let entry ← p.get number
  let end_ := entry.first + entry.count
  let available := p.limit end_ - end_
  let extra := extraSectors.getD (available / alignmentSectors * alignmentSectors)
  reject (extra == 0 || decide (available < extra)) .noSpace
  let next := p.setEntry (number - 1) { entry with count := entry.count + extra }
  next.validate
  pure next

def Plan.shrink (p : Plan) (number removeSectors : Nat) : Except Error Plan := do
  p.validate
  let entry ← p.get number
  reject (removeSectors == 0 || decide (entry.count ≤ removeSectors)) .noSpace
  let next := p.setEntry (number - 1) { entry with count := entry.count - removeSectors }
  next.validate
  pure next

/-! ## Committing -/

/-- `Plan.header`: a header sector of the plan. -/
def Plan.headerBody (p : Plan) (current other entries : Nat) (checksum : UInt32) : Bytes :=
  let out := zeros 512
  let out := put out 0 (ascii "EFI PART")
  let out := put out 8 (leBytes 4 0x10000)
  let out := put out 12 (leBytes 4 92)
  let out := put out 24 (leBytes 8 current)
  let out := put out 32 (leBytes 8 other)
  let out := put out 40 (leBytes 8 p.firstUsable)
  let out := put out 48 (leBytes 8 p.lastUsable)
  let out := put out 56 p.diskGuid.toList
  let out := put out 72 (leBytes 8 entries)
  let out := put out 80 (leBytes 4 p.entryCount)
  let out := put out 84 (leBytes 4 128)
  put out 88 (leBytes 4 checksum.toNat)

def Plan.header (p : Plan) (current other entries : Nat) (checksum : UInt32) : Bytes :=
  let out := p.headerBody current other entries checksum
  put out 16 (leBytes 4 (crc (slice out 0 92)).toNat)

/-- The 128 bytes of a GPT entry; an absent one is zero. -/
def gptEntry (e : Entry) : Bytes :=
  if !e.present then zeros 128
  else
    let out := zeros 128
    let out := put out 0 e.typeGuid.toList
    let out := put out 16 e.uniqueGuid.toList
    let out := put out 32 (leBytes 8 e.first)
    let out := put out 40 (leBytes 8 (e.first + e.count - 1))
    let out := put out 48 (leBytes 8 e.attributes.toNat)
    put out 56 (e.name.toList.flatMap (fun unit => leBytes 2 unit.toNat))

/-- The entry array, padded with zeros to whole sectors. -/
def Plan.array (p : Plan) : Bytes := put (zeros (512 * arraySectors p.entryCount)) 0 (p.live.flatMap gptEntry)

/-- The sixteen bytes of an MBR slot; an absent entry is zero. -/
def mbrEntry (e : Entry) : Bytes :=
  if !e.present then zeros 16
  else
    let out := e.mbrOriginal.toList
    let out := put out 0 [if e.active then 0x80 else 0]
    let out := put out 4 [e.mbrType]
    let out := if allZero e.mbrOriginal.toList then put (put out 1 [0xfe, 0xff, 0xff]) 5 [0xfe, 0xff, 0xff] else out
    let out := put out 8 (leBytes 4 e.first)
    put out 12 (leBytes 4 e.count)

/-- The MBR's prefix, disk id and signature. -/
def Plan.mbrFrame (p : Plan) : Bytes :=
  let out := zeros 512
  let out := put out 0 p.mbrPrefix.toList
  let out := put out 440 (leBytes 4 p.diskId.toNat)
  put out 510 [0x55, 0xaa]

def Plan.mbrSector (p : Plan) : Bytes := put p.mbrFrame 446 ((p.entries.toList.take 4).flatMap mbrEntry)

def Plan.protectiveSector (p : Plan) : Bytes :=
  let out := p.mbrFrame
  let out := put out 450 [0xee]
  let out := put out 447 [0, 2, 0]
  let out := put out 451 [0xff, 0xff, 0xff]
  let out := put out 454 (leBytes 4 1)
  put out 458 (leBytes 4 (min (p.sectors - 1) (2 ^ 32 - 1)))

def Plan.checksum (p : Plan) : UInt32 := crc (slice p.array 0 (p.entryCount * 128))

def Plan.primaryHeader (p : Plan) : Bytes := p.header 1 (p.sectors - 1) p.primaryArray p.checksum

def Plan.backupHeader (p : Plan) : Bytes := p.header (p.sectors - 1) 1 p.backupArray p.checksum

/-- Every sector of a span reads back as zero. -/
def verifyZero (dev : Device) (workLen : Nat) : List (Nat × Nat) → Io Error Unit
  | [] => pure ()
  | (_, 0) :: rest => verifyZero dev workLen rest
  | (first, count + 1) :: rest => do
    dev.verify first (zeros (512 * (count + 1))) workLen
    verifyZero dev workLen rest

/-- Retiring an old GPT: the backup first, then the primary. -/
def Plan.eraseSource (p : Plan) (dev : Device) (workLen : Nat) : Io Error Unit :=
  match p.source.spans with
  | [_, s1, s2, s3, s4] => do
    dev.fill s4.1 s4.2 0 workLen
    dev.fill s2.1 s2.2 0 workLen
    dev.fill s3.1 s3.2 0 workLen
    dev.fill s1.1 s1.2 0 workLen
    dev.flush
    verifyZero dev 512 [s1, s2, s3, s4]
  | _ => Io.throw .geometry

/-- Both GPT copies: the backup is written, flushed and read back before the primary is touched. -/
def Plan.commitGpt (p : Plan) (dev : Device) : Io Error Unit := do
  dev.write p.backupArray p.array
  dev.write (p.sectors - 1) p.backupHeader
  dev.flush
  dev.verify p.backupArray p.array maxArrayBytes
  dev.verify (p.sectors - 1) p.backupHeader maxArrayBytes
  dev.write p.primaryArray p.array
  dev.write 1 p.primaryHeader
  dev.flush
  dev.verify p.primaryArray p.array maxArrayBytes
  dev.verify 1 p.primaryHeader maxArrayBytes

/-- Sector zero, written last. -/
def publish (dev : Device) (workLen : Nat) (mbr : Bytes) : Io Error Unit := do
  dev.write 0 mbr
  dev.flush
  dev.verify 0 mbr workLen

/-- The table itself, behind the stale check. -/
def Plan.commitTable (p : Plan) (dev : Device) (workLen : Nat) : Io Error Unit :=
  if p.kind = .mbr then publish dev workLen p.mbrSector
  else do
    p.commitGpt dev
    publish dev workLen p.protectiveSector

def Plan.commit (p : Plan) (dev : Device) (workLen : Nat) : Io Error Unit := do
  Io.lift p.validate
  Io.lift dev.requireExclusive
  Io.refuse (dev.sectors != p.sectors || p.kind == .none || p.source.spans.length == 0 ||
    decide (workLen < maxArrayBytes * 2) || workLen % 512 != 0) .geometry
  Io.refuse (p.eraseSourceGpt && (p.kind != .mbr || p.source.spans.length != 5)) .geometry
  let again ← p.source.hash sha dev workLen
  Io.refuse (p.source.digest != again) .stale
  if p.eraseSourceGpt then do
    p.eraseSource dev workLen
    p.commitTable dev workLen
  else p.commitTable dev workLen

end Hash

end Gpt
end R4
