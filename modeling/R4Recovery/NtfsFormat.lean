import R4Recovery.GptFormat
/-!
# NtfsFormat — the byte layout of NTFS

`ntfs_format.zig`: the boot sector, the update sequence of a record, FILE records with their attributes, and runlists.
The iterators of the source yield a list here (`attributes`, `runlist`), since nothing changes while they run.
-/
namespace R4
namespace Ntfs

open Gpt (getLe)

def sectorSize : Nat := 512
def fileMagic : Nat := 0x454C4946
def endMarker : Nat := 0xFFFFFFFF

/-- The attribute types in use, by their number. -/
def AttrType.attributeList : Nat := 0x20
def AttrType.volumeInformation : Nat := 0x70
def AttrType.data : Nat := 0x80

def attrFlagCompressed : Nat := 0x0001
def attrFlagEncrypted : Nat := 0x4000
def recordInUse : Nat := 0x0001

structure FileReference where
  record : Nat
  sequence : Nat

def FileReference.parse (raw : Nat) : FileReference := { record := raw % 2 ^ 48, sequence := raw / 2 ^ 48 }

def FileReference.pack (self : FileReference) : Nat := self.record % 2 ^ 48 + self.sequence * 2 ^ 48

/-! ## Boot sector -/

structure BootSector where
  bytesPerSector : Nat
  sectorsPerClusterRaw : Nat
  clusterBytes : Nat
  totalSectors : Nat
  mftLcn : Nat
  mftmirrLcn : Nat
  fileRecordBytes : Nat
  indexBlockBytes : Nat
  serialNumber : Nat

inductive BootSector.ParseError where
  | tooShort | badOem | badSignature | badSectorSize | badClusterSize | badRecordSize | badIndexSize | badGeometry

def isPowerOfTwo (n : Nat) : Bool := n != 0 && n &&& (n - 1) == 0

/-- A size byte: a negative one is a power of two of bytes, a positive one a number of clusters. -/
def BootSector.decodeSizeByte (raw clusterBytes : Nat) : Option Nat :=
  if 128 ≤ raw then (if 30 < 256 - raw then none else some (2 ^ (256 - raw)))
  else if raw = 0 then none
  else if clusterBytes = 0 then none
  else some (raw * clusterBytes)

def BootSector.decodeSectorsPerCluster (raw : Nat) : Option Nat :=
  if raw = 0 then none
  else if raw ≤ 0x80 then (if isPowerOfTwo raw then some raw else none)
  else if 12 < raw % 16 then none
  else some (2 ^ (raw % 16))

def BootSector.parse (sector : Bytes) : Except BootSector.ParseError BootSector := do
  if sector.length < 512 then throw .tooShort
  if slice sector 3 8 ≠ ascii "NTFS    " then throw .badOem
  if sector.getD 510 0 ≠ 0x55 ∨ sector.getD 511 0 ≠ 0xAA then throw .badSignature
  let bytesPerSector := getLe sector 0x0B 2
  if bytesPerSector < 256 ∨ 4096 < bytesPerSector then throw .badSectorSize
  if !isPowerOfTwo bytesPerSector then throw .badSectorSize
  let raw := (sector.getD 0x0D 0).toNat
  let some sectorsPerCluster := decodeSectorsPerCluster raw | throw .badClusterSize
  let clusterBytes := bytesPerSector * sectorsPerCluster
  if clusterBytes = 0 ∨ 2 * 1024 * 1024 < clusterBytes then throw .badClusterSize
  let totalSectors := getLe sector 0x28 8
  let mftLcn := getLe sector 0x30 8
  let mftmirrLcn := getLe sector 0x38 8
  if totalSectors = 0 ∨ mftLcn = 0 then throw .badGeometry
  let some fileRecordBytes := decodeSizeByte (sector.getD 0x40 0).toNat clusterBytes | throw .badRecordSize
  if fileRecordBytes < 256 ∨ 4096 < fileRecordBytes ∨ !isPowerOfTwo fileRecordBytes then throw .badRecordSize
  let some indexBlockBytes := decodeSizeByte (sector.getD 0x44 0).toNat clusterBytes | throw .badIndexSize
  if indexBlockBytes < 512 ∨ 65536 < indexBlockBytes ∨ !isPowerOfTwo indexBlockBytes then throw .badIndexSize
  return { bytesPerSector, sectorsPerClusterRaw := raw, clusterBytes, totalSectors, mftLcn, mftmirrLcn, fileRecordBytes,
           indexBlockBytes, serialNumber := getLe sector 0x48 8 }

/-! ## Update sequence -/

inductive FixupError where
  | tooShort | badOffsets | usnMismatch

/-- The checks both directions share; the number of sectors. -/
def fixupSectors (record : Bytes) : Except FixupError Nat :=
  if record.length < 0x0A then .error .tooShort
  else if getLe record 0x06 2 < 2 then .error .badOffsets
  else if record.length < (getLe record 0x06 2 - 1) * sectorSize then .error .tooShort
  else if record.length ≠ (getLe record 0x06 2 - 1) * sectorSize then .error .badOffsets
  else if record.length < getLe record 0x04 2 + getLe record 0x06 2 * 2 then .error .badOffsets
  else .ok (getLe record 0x06 2 - 1)

/-- The last word of a sector is the stamp; the word it stands for comes from the array. -/
def applyFixup (usaOfs usn : Nat) (record : Bytes) (sector : Nat) : Except FixupError Bytes :=
  let tail := (sector + 1) * sectorSize - 2
  if getLe record tail 2 ≠ usn then .error .usnMismatch
  else .ok (put record tail (slice record (usaOfs + 2 + sector * 2) 2))

def applyFixups (record : Bytes) : Except FixupError Bytes := do
  let sectors ← fixupSectors record
  (List.range sectors).foldlM (applyFixup (getLe record 0x04 2) (getLe record (getLe record 0x04 2) 2)) record

/-- The next stamp. -/
def nextUsn (previous : Nat) : Nat :=
  if (previous + 1) % 2 ^ 16 = 0 ∨ (previous + 1) % 2 ^ 16 = 0xFFFF then 1 else (previous + 1) % 2 ^ 16

def installFixups (record : Bytes) (previousUsn : Nat) : Except FixupError Bytes := do
  let sectors ← fixupSectors record
  let usaOfs := getLe record 0x04 2
  let usn := leBytes 2 (nextUsn previousUsn)
  return (List.range sectors).foldl (fun record sector =>
    let tail := (sector + 1) * sectorSize - 2
    put (put record (usaOfs + 2 + sector * 2) (slice record tail 2)) tail usn) (put record usaOfs usn)

/-! ## FILE records and attributes -/

structure FileRecordHeader where
  magic : Nat
  lsn : Nat
  sequence : Nat
  linkCount : Nat
  attrsOffset : Nat
  flags : Nat
  bytesInUse : Nat
  bytesAllocated : Nat
  baseRecord : FileReference
  nextAttrInstance : Nat
  recordNumber : Nat

def FileRecordHeader.parse (record : Bytes) : Option FileRecordHeader :=
  if record.length < 0x30 then none
  else if getLe record 0x00 4 ≠ fileMagic then none
  else
    let header : FileRecordHeader :=
      { magic := getLe record 0x00 4, lsn := getLe record 0x08 8, sequence := getLe record 0x10 2
        linkCount := getLe record 0x12 2, attrsOffset := getLe record 0x14 2, flags := getLe record 0x16 2
        bytesInUse := getLe record 0x18 4, bytesAllocated := getLe record 0x1C 4
        baseRecord := FileReference.parse (getLe record 0x20 8), nextAttrInstance := getLe record 0x28 2
        recordNumber := getLe record 0x2C 4 }
    if header.attrsOffset < 0x30 ∨ record.length ≤ header.attrsOffset then none
    else if header.bytesInUse < header.attrsOffset ∨ record.length < header.bytesInUse then none
    else some header

def FileRecordHeader.inUse (self : FileRecordHeader) : Bool := self.flags &&& recordInUse != 0

/-- An attribute; the texts in it keep where they start behind the attribute's own start. -/
structure Attribute where
  start : Nat
  attrType : Nat
  length : Nat
  nonResident : Bool
  nameOffset : Nat
  name : Bytes
  flags : Nat
  instanceNumber : Nat
  valueOffset : Nat := 0
  value : Bytes := []
  lowestVcn : Nat := 0
  highestVcn : Nat := 0
  mappingOffset : Nat := 0
  mappingPairs : Bytes := []
  compressionUnit : Nat := 0
  allocatedSize : Nat := 0
  dataSize : Nat := 0
  initializedSize : Nat := 0

def Attribute.isCompressed (self : Attribute) : Bool := self.flags &&& attrFlagCompressed != 0

def Attribute.isEncrypted (self : Attribute) : Bool := self.flags &&& attrFlagEncrypted != 0

/-- `AttributeIterator.next` at an offset; a malformed attribute ends the iteration like the end marker does. -/
def nextAttribute (record : Bytes) (offset : Nat) : Option Attribute :=
  if record.length < offset + 8 then none
  else if getLe record offset 4 = endMarker then none
  else
    let length := getLe record (offset + 4) 4
    if length < 0x18 ∨ length % 8 ≠ 0 then none
    else if record.length < offset + length then none
    else
      let nameLength := (record.getD (offset + 0x09) 0).toNat
      let nameOffset := getLe record (offset + 0x0A) 2
      if 0 < nameLength ∧ length < nameOffset + nameLength * 2 then none
      else
        let attr : Attribute :=
          { start := offset, attrType := getLe record offset 4, length
            nonResident := record.getD (offset + 0x08) 0 != 0, nameOffset
            name := slice record (offset + nameOffset) (nameLength * 2)
            flags := getLe record (offset + 0x0C) 2, instanceNumber := getLe record (offset + 0x0E) 2 }
        if !attr.nonResident then
          let valueLength := getLe record (offset + 0x10) 4
          let valueOffset := getLe record (offset + 0x14) 2
          if length < valueOffset + valueLength then none
          else some { attr with valueOffset, value := slice record (offset + valueOffset) valueLength }
        else if record.length < offset + 0x40 then none
        else
          let mappingOffset := getLe record (offset + 0x20) 2
          if length < mappingOffset then none
          else some { attr with
            lowestVcn := getLe record (offset + 0x10) 8
            highestVcn := getLe record (offset + 0x18) 8
            mappingOffset
            mappingPairs := slice record (offset + mappingOffset) (length - mappingOffset)
            compressionUnit := (record.getD (offset + 0x22) 0).toNat
            allocatedSize := getLe record (offset + 0x28) 8
            dataSize := getLe record (offset + 0x30) 8
            initializedSize := getLe record (offset + 0x38) 8 }

def attributesFrom (record : Bytes) : Nat → Nat → List Attribute
  | 0, _ => []
  | fuel + 1, offset =>
    match nextAttribute record offset with
    | none => []
    | some attr => attr :: attributesFrom record fuel (offset + attr.length)

/-- What an `AttributeIterator` over the used part of a record yields; each attribute has twenty-four bytes at least. -/
def attributes (record : Bytes) (header : FileRecordHeader) : List Attribute :=
  attributesFrom record record.length header.attrsOffset

/-! ## Runlists -/

/-- A run of clusters; a sparse run has no `lcn`. -/
structure Run where
  lengthClusters : Nat
  lcn : Option Nat
  deriving DecidableEq

structure RunlistIterator where
  offset : Nat := 0
  currentLcn : Int := 0
  failed : Bool := false

/-- The signed little-endian number in a text of at most eight bytes. -/
def signedLe (text : Bytes) : Int :=
  if 0 < text.length ∧ 2 ^ (8 * text.length - 1) ≤ leNat text then (leNat text : Int) - 2 ^ (8 * text.length) else leNat text

def RunlistIterator.fail (self : RunlistIterator) : Option Run × RunlistIterator := (none, { self with failed := true })

def RunlistIterator.next (mapping : Bytes) (self : RunlistIterator) : Option Run × RunlistIterator :=
  if self.failed then (none, self)
  else if mapping.length ≤ self.offset then (none, self)
  else if mapping.getD self.offset 0 = 0 then (none, self)
  else
    let lengthSize := (mapping.getD self.offset 0).toNat % 16
    let offsetSize := (mapping.getD self.offset 0).toNat / 16
    if lengthSize = 0 ∨ 8 < lengthSize ∨ 8 < offsetSize then self.fail
    else if mapping.length - self.offset < 1 + lengthSize + offsetSize then self.fail
    else
      let length := leNat (slice mapping (self.offset + 1) lengthSize)
      if length = 0 then self.fail
      else if offsetSize = 0 then
        (some { lengthClusters := length, lcn := none }, { self with offset := self.offset + (1 + lengthSize + offsetSize) })
      else
        let delta := signedLe (slice mapping (self.offset + 1 + lengthSize) offsetSize)
        if 2 ^ 63 ≤ self.currentLcn + delta then self.fail
        else if self.currentLcn + delta < 0 then { self with currentLcn := self.currentLcn + delta }.fail
        else
          (some { lengthClusters := length, lcn := some (self.currentLcn + delta).toNat },
            { self with offset := self.offset + (1 + lengthSize + offsetSize), currentLcn := self.currentLcn + delta })

def runsFrom (mapping : Bytes) : Nat → RunlistIterator → List Run × RunlistIterator
  | 0, iter => ([], iter)
  | fuel + 1, iter =>
    match RunlistIterator.next mapping iter with
    | (none, iter) => ([], iter)
    | (some run, iter) => (run :: (runsFrom mapping fuel iter).1, (runsFrom mapping fuel iter).2)

/-- What a `RunlistIterator` yields, and the iterator behind it; each run takes two bytes at least. -/
def runlist (mapping : Bytes) : List Run × RunlistIterator := runsFrom mapping (mapping.length + 1) {}

/-- The runlist ends in its terminator. -/
def RunlistIterator.ended (mapping : Bytes) (self : RunlistIterator) : Bool :=
  !self.failed && decide (self.offset < mapping.length) && mapping.getD self.offset 0 == 0

theorem next_pos {mapping : Bytes} {iter next : RunlistIterator} {run : Run}
    (h : RunlistIterator.next mapping iter = (some run, next)) : 0 < run.lengthClusters := by
  unfold RunlistIterator.next RunlistIterator.fail at h
  dsimp only at h
  repeat' split at h
  all_goals first
    | cases h; done
    | (rename_i hlen _; cases h; exact Nat.pos_of_ne_zero hlen)
    | (rename_i hlen _ _ _; cases h; exact Nat.pos_of_ne_zero hlen)

theorem runsFrom_pos (mapping : Bytes) : ∀ (fuel : Nat) (iter : RunlistIterator),
    ∀ run ∈ (runsFrom mapping fuel iter).1, 0 < run.lengthClusters
  | 0, _, run, h => by cases h
  | fuel + 1, iter, run, h => by
    unfold runsFrom at h
    split at h
    · cases h
    · rename_i first next hnext
      rcases List.mem_cons.1 h with rfl | h
      · exact next_pos hnext
      · exact runsFrom_pos mapping fuel next run h

theorem runlist_pos {mapping : Bytes} : ∀ run ∈ (runlist mapping).1, 0 < run.lengthClusters := runsFrom_pos mapping _ _

end Ntfs
end R4
