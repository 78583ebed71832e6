import R4Recovery.PartitionTableSafe
import R4Recovery.StorageAccess
/-!
# BootScan — the boot scanner of the kernel

`mbr.zig`: the walk over the partition table of one device at boot, which mounts what it finds entry by entry.  It is
not the scan of the inventory, which reads the whole table before it answers.  What a file system, the heap or a
directory lookup answers is a service of the model; where a volume begins and how long it is, is not.
-/
namespace R4
namespace BootScan

open Gpt (Guid Header getLe mbrSlots slotType parseHeader parsePartition crcUpdate crcFinish)
open Kernel (Reader)
open Storage (DeviceRef MountRef Region)

def sectorSize : Nat := 512
def maxU32 : Nat := 2 ^ 32 - 1
def maxU64 : Nat := 2 ^ 64 - 1

inductive TableKind where
  | none | mbr | gptPrimary | gptBackup
  deriving DecidableEq, Repr

inductive ScanResult where
  | deviceMissing | logicalSectorUnsupported | capacityUnavailable | sectorZeroReadFailed | mbrSignatureInvalid
  | noMountablePartition | unsupportedPartition | partitionInvalid | gptInvalid | gptEntryReadFailed
  | partitionLbaUnsupported | filesystemProbeReadFailed | filesystemLookupFailed | filesystemUnknown | fat32Invalid
  | ntfsInvalid | bootVolumeOnly | dataVolumeOnly | partitionSizeUnsupported | driveLettersExhausted | mountRejected
  | systemMounted
  deriving DecidableEq, Repr

def resultPriority : ScanResult → Nat
  | .deviceMissing | .logicalSectorUnsupported | .capacityUnavailable | .sectorZeroReadFailed | .mbrSignatureInvalid
  | .gptInvalid => 0
  | .noMountablePartition => 1
  | .unsupportedPartition => 10
  | .partitionInvalid => 20
  | .bootVolumeOnly => 30
  | .filesystemUnknown => 40
  | .filesystemProbeReadFailed => 50
  | .fat32Invalid | .ntfsInvalid => 60
  | .partitionLbaUnsupported | .partitionSizeUnsupported => 70
  | .gptEntryReadFailed => 75
  | .dataVolumeOnly => 80
  | .filesystemLookupFailed => 85
  | .driveLettersExhausted => 90
  | .mountRejected => 100
  | .systemMounted => 255

structure ScanReport where
  table : TableKind := .none
  result : ScanResult := .deviceMissing
  detail : String := ""
  tableValid : Bool := false
  partitionCount : Nat := 0
  mountableCount : Nat := 0
  filesystemCount : Nat := 0
  bestSystemScore : Nat := 0
  markerFoundMask : UInt8 := 0
  markerIoMask : UInt8 := 0
  mbrType : UInt8 := 0

def ScanReport.note (r : ScanReport) (result : ScanResult) (detail : String) : ScanReport :=
  if resultPriority result < resultPriority r.result then r else { r with result, detail }

/-- `increment` on a `u16` that stays at its end. -/
def increment (value : Nat) : Nat := if value = 2 ^ 16 - 1 then value else value + 1

/-- `gpt.errorLabel`. -/
def errorLabel : Error → String
  | .shortSector => "short-sector"
  | .badSignature => "bad-signature"
  | .unsupportedRevision => "unsupported-revision"
  | .badHeaderSize => "bad-header-size"
  | .nonzeroReserved => "reserved-not-zero"
  | .badHeaderCrc => "header-crc"
  | .wrongHeaderLba => "header-lba"
  | .badBackupLba => "backup-lba"
  | .badUsableRange => "usable-range"
  | .unsupportedEntryLayout => "entry-layout"
  | .entryArrayOutOfRange => "entry-array-range"
  | .shortEntry => "short-entry"
  | .badPartitionRange => "partition-range"
  | _ => ""

inductive FileSystemHint where
  | fat32 | ntfs | probe
  deriving DecidableEq, Repr

/-! ## Volumes and what is mounted -/

/-- `fat32.Volume`, without the fields that only its file operations read. -/
structure FatVolume where
  mountRef : Option MountRef := none
  deviceIndex : Nat
  partitionLba : Nat
  sectorsPerCluster : Nat
  reservedSectors : Nat
  fatCount : Nat
  sectorsPerFat : Nat
  totalSectors : Nat
  rootCluster : Nat
  deriving DecidableEq, Repr

def FatVolume.totalClusters (v : FatVolume) : Nat :=
  let metadataSectors := v.reservedSectors + v.fatCount * v.sectorsPerFat
  if v.totalSectors ≤ metadataSectors ∨ v.sectorsPerCluster = 0 then 0
  else (v.totalSectors - metadataSectors) / v.sectorsPerCluster

/-- `ntfs.VolumeState` in use. -/
structure NtfsState where
  deviceIndex : Nat
  partitionLba : Nat
  clusterBytes : Nat
  totalSectors : Nat
  deriving DecidableEq, Repr

structure NtfsVolume where
  mountRef : Option MountRef := none
  stateSlot : Nat
  clusterBytes : Nat
  totalSectors : Nat
  deriving DecidableEq, Repr

inductive Volume where
  | fat32 (v : FatVolume)
  | ntfs (v : NtfsVolume)
  deriving DecidableEq, Repr

def Volume.accessReference : Volume → Option MountRef
  | .fat32 v => v.mountRef
  | .ntfs v => v.mountRef

def Volume.bind (volume : Volume) (ref : MountRef) : Volume :=
  match volume with
  | .fat32 v => .fat32 { v with mountRef := some ref }
  | .ntfs v => .ntfs { v with mountRef := some ref }

inductive DriveKind where
  | fat32 | ntfs
  deriving DecidableEq, Repr

inductive Role where
  | system | data
  deriving DecidableEq, Repr

structure Drive where
  kind : DriveKind
  role : Role
  name : String
  bytes : Nat
  blockDeviceIndex : Nat
  deriving DecidableEq, Repr

/-- The tables that the scan writes: the drive letters, the volumes behind them, the storage admission, the states of
the NTFS driver and the scan's own report. -/
structure World where
  drives : Fin 26 → Option Drive := fun _ => none
  mountedVolumes : Fin 26 → Option Volume := fun _ => none
  bootVolume : Option Volume := none
  access : Storage.State := {}
  ntfsStates : Fin 26 → Option NtfsState := fun _ => none
  report : ScanReport := {}

namespace World

def note (w : World) (result : ScanResult) (detail : String) : World := { w with report := w.report.note result detail }

def onReport (w : World) (f : ScanReport → ScanReport) : World := { w with report := f w.report }

/-- `access.deviceReference`. -/
def deviceReference (w : World) (slot : Nat) : Option DeviceRef :=
  if h : slot < Storage.maxDevices then
    if (w.access.devices ⟨slot, h⟩).active then some ⟨slot, (w.access.devices ⟨slot, h⟩).generation⟩ else none
  else none

/-- Where a volume stands: device, first sector and sectors. -/
def location (w : World) : Volume → Option (Nat × Nat × Nat)
  | .fat32 v => some (v.deviceIndex, v.partitionLba, v.totalSectors)
  | .ntfs v =>
    if h : v.stateSlot < 26 then (w.ntfsStates ⟨v.stateSlot, h⟩).map fun s => (s.deviceIndex, s.partitionLba, s.totalSectors)
    else none

def storageRegion (w : World) (volume : Volume) : Option Region :=
  match volume.accessReference with
  | some ref =>
    match w.access.mountValue ref with
    | .ok i => some (w.access.mounts i).region
    | .error _ => none
  | none =>
    (w.location volume).bind fun l => (w.deviceReference l.1).map fun device => ⟨device, l.2.1, l.2.2⟩

/-- `vfs.mountBootVolume`. -/
def mountBootVolume (w : World) (volume : Volume) : Bool × World :=
  match w.storageRegion volume with
  | none => (false, w)
  | some region =>
    if w.bootVolume.isSome then (false, w)
    else
      match Storage.bindMount 26 region true w.access with
      | (.error _, access) => (false, { w with access })
      | (.ok ref, access) => (true, { w with access, bootVolume := some (volume.bind ref) })

/-- `vfs.mountForDrive`, for a letter by its index. -/
def mountForDrive (w : World) (letter : Fin 26) (volume : Volume) : Bool × World :=
  match w.storageRegion volume with
  | none => (false, w)
  | some region =>
    if (w.mountedVolumes letter).isSome then (false, w)
    else
      match Storage.bindMount letter region (letter == 2) w.access with
      | (.error _, access) => (false, { w with access })
      | (.ok ref, access) =>
        (true, { w with access, mountedVolumes := Function.update w.mountedVolumes letter (some (volume.bind ref)) })

/-- `drive.mountBlockRole`; a letter from A to Z is never refused. -/
def mountBlockRole (w : World) (letter : Fin 26) (drive : Drive) : World :=
  { w with drives := Function.update w.drives letter (some drive) }

def unmountLocked (w : World) (letter : Fin 26) : World := { w with drives := Function.update w.drives letter none }

end World

/-! ## What the scan asks for -/

inductive LookupStatus where
  | found (isDir : Bool)
  | notFound
  | io
  deriving DecidableEq, Repr

structure NtfsInfo where
  clusterBytes : Nat
  totalSectors : Nat
  deriving DecidableEq, Repr

/-- The device, and what answers behind the scan. -/
structure Services where
  reader : Reader
  deviceIndex : Nat
  /-- `runtimeStateFor`: a state for the FAT volume is there or free. -/
  fatState : World → FatVolume → Bool
  /-- The heap gives the NTFS scratch memory. -/
  ntfsScratch : World → Bool
  /-- `nv.mount` over the sectors from the first to the end. -/
  ntfsMount : World → Nat → Nat → Option NtfsInfo
  /-- The `$UpCase` table is read whole. -/
  ntfsUpcase : World → NtfsState → Bool
  /-- `vfs.resolveEntryStatus`. -/
  resolveEntryStatus : World → Volume → String → LookupStatus
  /-- `vfs.resolveEntry` finds something. -/
  entryExists : World → Volume → String → Bool

/-- `block.read` of one sector. -/
def readSector (r : Reader) (lba : Nat) : Option Bytes := if lba < r.sectors then r.read lba else none

/-- `fat32.parseBounded`. -/
def inspectFat (sv : Services) (firstLba partitionSectors : Nat) (w : World) : Option FatVolume :=
  if sv.reader.sectorBytes ≠ sectorSize ∨ sv.reader.sectors ≤ firstLba ∨ sv.reader.sectors - firstLba < partitionSectors then
    none
  else
    (readSector sv.reader firstLba).bind fun sector =>
      if sector.getD 510 0 ≠ 0x55 ∨ sector.getD 511 0 ≠ 0xAA then none
      else
        let bytesPerSector := getLe sector 11 2
        let sectorsPerCluster := getLe sector 13 1
        let reservedSectors := getLe sector 14 2
        let fatCount := getLe sector 16 1
        let rootEntryCount := getLe sector 17 2
        let fatSectors16 := getLe sector 22 2
        let totalSectors16 := getLe sector 19 2
        let fatSectors32 := getLe sector 36 4
        let rootCluster := getLe sector 44 4
        let totalSectors := if totalSectors16 ≠ 0 then totalSectors16 else getLe sector 32 4
        if bytesPerSector ≠ sectorSize then none
        else if sectorsPerCluster = 0 ∨ fatCount = 0 ∨ fatSectors32 = 0 ∨ totalSectors = 0 ∨ rootEntryCount ≠ 0 ∨
            fatSectors16 ≠ 0 then none
        else
          let volume : FatVolume :=
            { deviceIndex := sv.deviceIndex, partitionLba := firstLba, sectorsPerCluster, reservedSectors, fatCount
              sectorsPerFat := fatSectors32, totalSectors, rootCluster }
          let metadata := reservedSectors + fatCount * fatSectors32
          if 128 < sectorsPerCluster ∨ sectorsPerCluster &&& (sectorsPerCluster - 1) ≠ 0 ∨ reservedSectors = 0 ∨
              2 < fatCount ∨ totalSectors ≤ metadata ∨ partitionSectors < totalSectors ∨
              2 ^ 32 < firstLba + totalSectors then
            none
          else
            let clusters := volume.totalClusters
            if clusters < 65525 ∨ 0x0FFFFFF0 - 2 ≤ clusters ∨ rootCluster < 2 ∨ clusters + 2 ≤ rootCluster ∨
                fatSectors32 * sectorSize < (clusters + 2) * 4 then none
            else if sv.fatState w volume then some volume else none

/-- The slot of the state that is in use for the volume, else the first free one. -/
def ntfsSlot (sv : Services) (firstLba : Nat) (w : World) : Option (Fin 26) :=
  match (List.finRange 26).find? fun i =>
      (w.ntfsStates i).any fun s => s.deviceIndex == sv.deviceIndex && s.partitionLba == firstLba with
  | some i => some i
  | none => (List.finRange 26).find? fun i => (w.ntfsStates i).isNone

/-- `ntfs.inspectBounded`; a mount that fails gives its state back. -/
def inspectNtfs (sv : Services) (firstLba partitionSectors : Nat) (w : World) : Option NtfsVolume × World :=
  if sv.reader.sectorBytes ≠ sectorSize ∨ sv.reader.sectors ≤ firstLba ∨ sv.reader.sectors - firstLba < partitionSectors then
    (none, w)
  else
    match ntfsSlot sv firstLba w with
    | none => (none, w)
    | some i =>
      match w.ntfsStates i with
      | some state =>
        if partitionSectors < state.totalSectors then (none, w)
        else (some { stateSlot := i, clusterBytes := state.clusterBytes, totalSectors := state.totalSectors }, w)
      | none =>
        if ¬ sv.ntfsScratch w then (none, w)
        else
          match sv.ntfsMount w firstLba (firstLba + partitionSectors) with
          | none => (none, w)
          | some info =>
            if info.clusterBytes / sectorSize = 0 ∨ partitionSectors < info.totalSectors ∨
                maxU32 < info.totalSectors / (info.clusterBytes / sectorSize) then (none, w)
            else
              let state : NtfsState :=
                { deviceIndex := sv.deviceIndex, partitionLba := firstLba, clusterBytes := info.clusterBytes
                  totalSectors := info.totalSectors }
              if sv.ntfsUpcase w state then
                (some { stateSlot := i, clusterBytes := info.clusterBytes, totalSectors := info.totalSectors },
                  { w with ntfsStates := Function.update w.ntfsStates i (some state) })
              else (none, w)

/-! ## One entry -/

structure SystemVolumeProbe where
  score : Nat := 0
  foundMask : UInt8 := 0
  ioMask : UInt8 := 0
  deriving DecidableEq, Repr

def probeMarker (sv : Services) (w : World) (volume : Volume) (probe : SystemVolumeProbe)
    (marker : String × Bool × UInt8) : SystemVolumeProbe :=
  match sv.resolveEntryStatus w volume marker.1 with
  | .found isDir =>
    if marker.2.1 ∧ ¬ isDir then probe
    else { probe with score := probe.score + 1, foundMask := probe.foundMask ||| marker.2.2 }
  | .notFound => probe
  | .io => { probe with ioMask := probe.ioMask ||| marker.2.2 }

/-- The paths, whether they must be directories, and their bits. -/
def markers : List (String × Bool × UInt8) :=
  [("/BOOT/R4OS.ELF", false, 1), ("/BOOT/LIMINE.CONF", false, 2), ("/CONFIG.R4S", false, 4), ("/R4OS", true, 8),
    ("/R4OS/CONFIG", true, 16), ("/R4OS/SOFTWARE", true, 32)]

def probeSystemVolume (sv : Services) (w : World) (volume : Volume) : SystemVolumeProbe :=
  markers.foldl (probeMarker sv w volume) {}

def isSystemVolumeScore (score : Nat) : Bool := 3 ≤ score

def roleFor (score : Nat) : Role := if isSystemVolumeScore score then .system else .data

/-- C for the first system volume, else the first free letter from D on, else C. -/
def nextDriveLetterFor (w : World) (score : Nat) : Option (Fin 26) :=
  if isSystemVolumeScore score && (w.drives 2).isNone then some 2
  else
    match (List.finRange 26).find? fun i => 3 ≤ i.val && (w.drives i).isNone with
    | some i => some i
    | none => if (w.drives 2).isNone then some 2 else none

def isBootPartition (sv : Services) (w : World) (volume : Volume) (bootCandidate : Bool) (score : Nat) : Bool :=
  if ¬ bootCandidate then false
  else if isSystemVolumeScore score then false
  else
    match volume with
    | .fat32 _ => sv.entryExists w volume "/BOOT/LIMINE.CONF" || sv.entryExists w volume "/LIMINE-BIOS.SYS"
    | .ntfs _ => false

def Volume.kind : Volume → DriveKind
  | .fat32 _ => .fat32
  | .ntfs _ => .ntfs

def probeFileSystem (sv : Services) (firstLba : Nat) (w : World) : FileSystemHint × World :=
  match readSector sv.reader firstLba with
  | none => (.probe, w.note .filesystemProbeReadFailed "boot-sector-read")
  | some sector =>
    if slice sector 3 8 = ascii "NTFS    " then (.ntfs, w)
    else if sector.getD 510 0 = 0x55 ∧ sector.getD 511 0 = 0xAA then (.fat32, w)
    else (.probe, w.note .filesystemUnknown "boot-signature")

/-- `mountPartition` from the inspected volume on. -/
def mountVolume (sv : Services) (volume : Volume) (byteCount : Nat) (bootCandidate : Bool) (typeName : String)
    (w : World) : World :=
  let probe := probeSystemVolume sv w volume
  let w := w.onReport fun r => { r with
    filesystemCount := increment r.filesystemCount, bestSystemScore := max r.bestSystemScore probe.score
    markerFoundMask := r.markerFoundMask ||| probe.foundMask, markerIoMask := r.markerIoMask ||| probe.ioMask }
  if probe.ioMask ≠ 0 then w.note .filesystemLookupFailed "system-marker-io"
  else if isBootPartition sv w volume bootCandidate probe.score then
    match w.mountBootVolume volume with
    | (false, w) => w.note .mountRejected "boot-mount-generation"
    | (true, w) => w.note .bootVolumeOnly "limine-volume"
  else
    match nextDriveLetterFor w probe.score with
    | none => w.note .driveLettersExhausted "letters-a-z"
    | some letter =>
      let w := w.mountBlockRole letter
        { kind := volume.kind, role := roleFor probe.score, name := typeName, bytes := byteCount
          blockDeviceIndex := sv.deviceIndex }
      match w.mountForDrive letter volume with
      | (false, w) => (w.unmountLocked letter).note .mountRejected "mount-generation"
      | (true, w) =>
        if isSystemVolumeScore probe.score then w.note .systemMounted "system-markers"
        else w.note .dataVolumeOnly "insufficient-markers"

def mountPartition (sv : Services) (firstLba sectorCount : Nat) (bootCandidate : Bool) (requestedHint : FileSystemHint)
    (typeName : String) (w : World) : World :=
  if sv.reader.sectorBytes ≠ sectorSize ∨ firstLba = 0 ∨ sectorCount = 0 ∨ sv.reader.sectors ≤ firstLba ∨
      sv.reader.sectors - firstLba < sectorCount then w.note .partitionInvalid "partition-range"
  else if maxU32 < firstLba then w.note .partitionLbaUnsupported "first-lba-u32"
  else if maxU64 / sectorSize < sectorCount then w.note .partitionSizeUnsupported "byte-overflow"
  else
    let byteCount := sectorCount * sectorSize
    -- `usize` has 64 bits.
    if maxU64 < byteCount then w.note .partitionSizeUnsupported "address-space"
    else
      let (hint, w) := if requestedHint = .probe then probeFileSystem sv firstLba w else (requestedHint, w)
      match hint with
      | .fat32 =>
        match inspectFat sv firstLba sectorCount w with
        | none => w.note .fat32Invalid "fat32-inspect"
        | some v => mountVolume sv (.fat32 v) byteCount bootCandidate typeName w
      | .ntfs =>
        match inspectNtfs sv firstLba sectorCount w with
        | (none, w) => w.note .ntfsInvalid "ntfs-inspect"
        | (some v, w) => mountVolume sv (.ntfs v) byteCount bootCandidate typeName w
      | .probe => w

/-! ## The MBR -/

def typeName (typeId : UInt8) : String :=
  if typeId = 0x06 then "FAT16"
  else if typeId = 0x0E then "FAT16-LBA"
  else if typeId = 0x0B then "FAT32"
  else if typeId = 0x0C then "FAT32-LBA"
  else if typeId = 0x07 then "NTFS/exFAT"
  else if typeId = 0xEE then "GPT-protective"
  else "unknown"

def driveKind (typeId : UInt8) : Option DriveKind :=
  if typeId = 0x0B ∨ typeId = 0x0C then some .fat32 else if typeId = 0x07 then some .ntfs else none

def isProtectiveGpt (typeId : UInt8) : Bool := typeId == 0xEE

/-- One slot of the MBR: its type, its first sector and its sectors. -/
def mountSlot (sv : Services) (raw : Bytes) (w : World) : World :=
  let typeId := slotType raw
  let sectorCount := getLe raw 12 4
  if typeId = 0 ∨ sectorCount = 0 then w
  else
    let w := w.onReport fun r => { r with partitionCount := increment r.partitionCount, mbrType := typeId }
    match driveKind typeId with
    | none => w.note .unsupportedPartition "mbr-type"
    | some kind =>
      let w := w.onReport fun r => { r with mountableCount := increment r.mountableCount }
      mountPartition sv (getLe raw 8 4) sectorCount (raw.getD 0 0 == 0x80) (if kind = .fat32 then .fat32 else .ntfs)
        (typeName typeId) w

/-! ## GPT -/

/-- A sector that was read, as the entry reader keeps it. -/
abbrev Cache : Type := Option (Nat × Bytes)

def readCached (r : Reader) (lba : Nat) (cache : Cache) : Option (Bytes × Cache) :=
  match cache with
  | some (lba', bytes) =>
    if lba' = lba then some (bytes, cache) else (readSector r lba).map fun bytes => (bytes, some (lba, bytes))
  | none => (readSector r lba).map fun bytes => (bytes, some (lba, bytes))

/-- `GptEntryReader.read` from an offset into the array on; every piece ends at the end of a sector or of the entry. -/
def readFrom (r : Reader) (entriesLba sourceOffset remaining : Nat) (done : Bytes) (cache : Cache) :
    Option Bytes × Cache :=
  if _h : remaining = 0 then (some done, cache)
  else
    match readCached r (entriesLba + sourceOffset / sectorSize) cache with
    | none => (none, cache)
    | some (sector, cache) =>
      let count := min remaining (sectorSize - sourceOffset % sectorSize)
      readFrom r entriesLba (sourceOffset + count) (remaining - count)
        (done ++ slice sector (sourceOffset % sectorSize) count) cache
termination_by remaining
decreasing_by
  have : sourceOffset % sectorSize < sectorSize := Nat.mod_lt _ (by decide)
  omega

def readEntry (r : Reader) (header : Header) (index : Nat) (cache : Cache) : Option Bytes × Cache :=
  readFrom r header.entriesLba (index * header.entrySize) header.entrySize [] cache

def Partition.isBootCandidate (p : Gpt.Partition) : Bool := p.partitionType == .efiSystem || p.attributes &&& 4 != 0

/-- The CRC over the sectors of the array; the detail of what failed. -/
def entryArrayCrc (r : Reader) : (left lba remaining : Nat) → UInt32 → Except String UInt32
  | 0, _, _, crc => .ok crc
  | left + 1, lba, remaining, crc =>
    match readSector r lba with
    | none => .error "entry-array-read"
    | some sector =>
      let count := min remaining sectorSize
      entryArrayCrc r left (lba + 1) (remaining - count) (crcUpdate crc (slice sector 0 count))

/-- `loadGptHeader` with `gptEntryArrayCrcValid`: the header, or the detail that goes into the report. -/
def loadGptHeader (r : Reader) (headerLba : Nat) : Except String Header :=
  match readSector r headerLba with
  | none => .error "header-read"
  | some sector =>
    match parseHeader sector headerLba r.sectors with
    | .error e => .error (errorLabel e)
    | .ok header =>
      match entryArrayCrc r header.entrySectors header.entriesLba header.entryBytes 0xFFFFFFFF with
      | .error detail => .error detail
      | .ok crc => if (crcFinish crc).toNat ≠ header.entriesCrc32 then .error "entry-array-crc" else .ok header

/-- What a parsed partition is mounted as. -/
def mountGpt (sv : Services) (p : Gpt.Partition) (w : World) : World :=
  let w := w.onReport fun r => { r with partitionCount := increment r.partitionCount }
  let mountable := fun (w : World) => w.onReport fun r => { r with mountableCount := increment r.mountableCount }
  match p.partitionType with
  | .efiSystem =>
    mountPartition sv p.firstLba p.sectorCount (Partition.isBootCandidate p) .fat32 "GPT EFI-system" (mountable w)
  | .microsoftBasicData =>
    mountPartition sv p.firstLba p.sectorCount (Partition.isBootCandidate p) .probe "GPT basic-data" (mountable w)
  | .other => w.note .unsupportedPartition "gpt-guid"

/-- The entries from an index on; a read that fails ends the walk. -/
def mountEntries (sv : Services) (header : Header) : (left index : Nat) → Cache → World → World
  | 0, _, _, w => w
  | left + 1, index, cache, w =>
    match readEntry sv.reader header index cache with
    | (none, _) => w.note .gptEntryReadFailed "entry-read"
    | (some raw, cache) =>
      match parsePartition raw header with
      | .error e => mountEntries sv header left (index + 1) cache (w.note .partitionInvalid (errorLabel e))
      | .ok none => mountEntries sv header left (index + 1) cache w
      | .ok (some p) => mountEntries sv header left (index + 1) cache (mountGpt sv p w)

def scanGpt (sv : Services) (w : World) : World :=
  let w := w.onReport fun r => { r with result := .gptInvalid, detail := "no-valid-header" }
  let accept := fun (kind : TableKind) (detail : String) (header : Header) (w : World) =>
    mountEntries sv header header.entryCount 0 none
      (w.onReport fun r => { r with table := kind, tableValid := true, result := .noMountablePartition, detail })
  match loadGptHeader sv.reader 1 with
  | .ok header => accept .gptPrimary "" header w
  | .error detail =>
    let w := w.onReport fun r => { r with detail }
    if 1 < sv.reader.sectors then
      match loadGptHeader sv.reader (sv.reader.sectors - 1) with
      | .ok header => accept .gptBackup "primary-fallback" header w
      | .error detail => w.onReport fun r => { r with detail }
    else w

/-! ## The scan -/

def scan (sv : Services) (w : World) : World :=
  let w := { w with report := {} }
  if sv.reader.sectorBytes ≠ sectorSize then w.onReport fun r => { r with result := .logicalSectorUnsupported }
  else if sv.reader.sectors = 0 then w.onReport fun r => { r with result := .capacityUnavailable }
  else
    match readSector sv.reader 0 with
    | none => w.onReport fun r => { r with result := .sectorZeroReadFailed }
    | some sector =>
      if sector.getD 510 0 ≠ 0x55 ∨ sector.getD 511 0 ≠ 0xAA then
        w.onReport fun r => { r with result := .mbrSignatureInvalid }
      else if (mbrSlots sector).any fun raw => isProtectiveGpt (slotType raw) then scanGpt sv w
      else
        (mbrSlots sector).foldl (fun w raw => mountSlot sv raw w)
          (w.onReport fun r => { r with table := .mbr, tableValid := true, result := .noMountablePartition })

end BootScan
end R4
