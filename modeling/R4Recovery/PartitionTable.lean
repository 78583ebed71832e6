import R4Recovery.Partition
import R4Recovery.Stateful
/-!
# PartitionTable — the kernel's partition scan

`partition_table.zig`: the kernel's own reader of MBR, extended and GPT tables, on top of the same `gpt.zig` as the
tools.  The scan fills a table as it goes, and what it appended before an error stays there.
-/
namespace R4
namespace Kernel

open Gpt (Guid Name Header getLe mbrSlots slotType parseHeader parsePartition crcUpdate crcFinish)

def maxPartitions : Nat := 128

inductive ScanError where
  | unsupportedSectorSize | unsupportedCapacity | outOfRange | readFailed | noPartitionTable | badProtectiveMbr | hybridMbr
  | partitionOutOfRange | multipleExtendedPartitions | partitionOverlap | duplicatePartitionGuid | tooManyPartitions
  | extendedCycle | extendedMetadataOverlap | badExtendedSignature | badLogicalPartition | badExtendedEntries | badExtendedLink
  | unsupportedEntryLayout | missingDiskGuid | gptCopiesDiffer | missingPartitionGuid | badEntriesCrc
  | gpt (e : Error)
  deriving DecidableEq

/-- The sectors of a device; a read may fail. -/
structure Reader where
  read : Nat → Option Bytes
  sectorBytes : Nat
  sectors : Nat

def Reader.sector (r : Reader) (lba : Nat) : Except ScanError Bytes :=
  if r.sectors ≤ lba then .error .outOfRange
  else match r.read lba with
    | none => .error .readFailed
    | some bytes => .ok bytes

structure Partition where
  number : Nat := 0
  firstLba : Nat := 0
  sectorCount : Nat := 0
  uniqueGuid : Guid := Guid.zero
  typeGuid : Guid := Guid.zero
  mbrType : UInt8 := 0
  attributes : UInt64 := 0
  name : Name := Vector.replicate 36 0
  deriving DecidableEq

def Partition.end (p : Partition) : Nat := p.firstLba + p.sectorCount

inductive TableKind where
  | unknown | mbr | gpt
  deriving DecidableEq, Repr

inductive Reason where
  | notScanned | ok
  | failed (e : ScanError)
  deriving DecidableEq

/-- `partitions[0..count]` is the list. -/
structure Table where
  kind : TableKind := .unknown
  valid : Bool := false
  reason : Reason := .notScanned
  diskGuid : Guid := Guid.zero
  mbrDiskId : Nat := 0
  firstUsable : Nat := 0
  lastUsable : Nat := 0
  items : List Partition := []

abbrev Scan (α : Type) : Type := Stateful Table ScanError α

def lift {α : Type} (x : Except ScanError α) : Scan α := Stateful.check (fun _ => x)

/-- An error of `gpt.zig`, passed on. -/
def liftGpt {α : Type} : Except Error α → Except ScanError α
  | .ok a => .ok a
  | .error e => .error (.gpt e)

def bounds (p : Partition) (sectors : Nat) : Except ScanError Unit :=
  if p.firstLba == 0 || decide (sectors ≤ p.firstLba) || p.sectorCount == 0 || decide (sectors - p.firstLba < p.sectorCount) then
    .error .partitionOutOfRange
  else .ok ()

/-- A new partition against the ones in the table. -/
def apart (p : Partition) : List Partition → Except ScanError Unit
  | [] => .ok ()
  | old :: rest =>
    if p.firstLba < old.end ∧ old.firstLba < p.end then .error .partitionOverlap
    else if p.uniqueGuid ≠ Guid.zero ∧ old.uniqueGuid = p.uniqueGuid then .error .duplicatePartitionGuid
    else apart p rest

def append (p : Partition) : Scan Unit := do
  Stateful.check (fun t => apart p t.items)
  Stateful.refuse (fun t => t.items.length == maxPartitions) .tooManyPartitions
  Stateful.update (fun t => { t with items := t.items ++ [p] })

def isExtended (kind : UInt8) : Bool := kind == 5 || kind == 0x0f || kind == 0x85

def signed (sector : Bytes) : Bool := sector.getD 510 0 == 0x55 && sector.getD 511 0 == 0xaa

/-! ## The MBR -/

def mbrPartition (number base : Nat) (raw : Bytes) : Partition :=
  { number, mbrType := slotType raw, firstLba := base + getLe raw 8 4, sectorCount := getLe raw 12 4 }

/-- The four slots, in order, with the range of the extended partition found so far. -/
def primaries (sectors : Nat) : List (Nat × Bytes) → Nat → Nat → Scan (Nat × Nat)
  | [], base, end_ => pure (base, end_)
  | (i, raw) :: rest, base, end_ =>
    if slotType raw = 0 then primaries sectors rest base end_
    else do
      let p := mbrPartition (i + 1) 0 raw
      lift (bounds p sectors)
      if isExtended p.mbrType then do
        Stateful.refuse (fun _ => base != 0) .multipleExtendedPartitions
        primaries sectors rest p.firstLba p.end
      else do
        append p
        primaries sectors rest base end_

/-- One extended boot record: its logical partition is appended; the next link, if it has one. -/
def walkStep (reader : Reader) (base end_ : Nat) (seen : List Nat) (lba : Nat) : Scan (Option Nat) := do
  Stateful.refuse (fun _ => seen.contains lba) .extendedCycle
  Stateful.refuse (fun t => t.items.any (fun p => decide (p.firstLba ≤ lba) && decide (lba < p.end))) .extendedMetadataOverlap
  let ebr ← lift (reader.sector lba)
  Stateful.refuse (fun _ => !signed ebr) .badExtendedSignature
  let first := slice ebr 446 16
  Stateful.refuse (fun _ => slotType first == 0 || isExtended (slotType first)) .badLogicalPartition
  let p := mbrPartition (4 + (seen.length + 1)) lba first
  lift (bounds p reader.sectors)
  Stateful.refuse (fun _ => decide (p.firstLba ≤ lba) || decide (end_ < p.end)) .badLogicalPartition
  append p
  Stateful.refuse (fun _ => ebr.getD (482 + 4) 0 != 0 || ebr.getD (498 + 4) 0 != 0) .badExtendedEntries
  let next := slice ebr 462 16
  if slotType next = 0 then pure none
  else do
    Stateful.refuse (fun _ => !isExtended (slotType next)) .badExtendedLink
    let nextLba := base + getLe next 8 4
    Stateful.refuse (fun _ => decide (nextLba < base) || decide (end_ ≤ nextLba)) .badExtendedLink
    pure (some nextLba)

theorem room_step {seen : List Nat} {lba : Nat} (room : seen.length ≤ maxPartitions) (full : ¬ seen.length = maxPartitions) :
    (seen ++ [lba]).length ≤ maxPartitions := by
  rw [List.length_append, List.length_singleton]
  omega

/-- The chain of extended boot records.  The table of sectors seen has `maxPartitions` places, so the chain ends whatever
its links are. -/
def walk (reader : Reader) (base end_ : Nat) (seen : List Nat) (room : seen.length ≤ maxPartitions) (lba : Nat) : Scan Unit :=
  if full : seen.length = maxPartitions then lift (.error .tooManyPartitions)
  else do
    match ← walkStep reader base end_ seen lba with
    | none => pure ()
    | some nextLba => walk reader base end_ (seen ++ [lba]) (room_step room full) nextLba
termination_by maxPartitions - seen.length
decreasing_by rw [List.length_append, List.length_singleton]; omega

def scanMbr (reader : Reader) (mbr : Bytes) : Scan Unit := do
  Stateful.update (fun t => { t with kind := .mbr, firstUsable := 1, lastUsable := reader.sectors - 1 })
  let extended ← primaries reader.sectors ((List.range 4).zip (mbrSlots mbr)) 0 0
  if extended.1 = 0 then pure ()
  else do
    Stateful.refuse (fun t => t.items.any (fun p => decide (p.firstLba < extended.2) && decide (extended.1 < p.end)))
      .partitionOverlap
    walk reader extended.1 extended.2 [] (Nat.zero_le _) extended.1

/-! ## GPT -/

/-- The entries of one sector of the array. -/
def appendEntries (primary : Header) : Nat → List Bytes → Scan Unit
  | _, [] => pure ()
  | index, raw :: rest => do
    match ← lift (liftGpt (parsePartition raw primary)) with
    | none => appendEntries primary (index + 1) rest
    | some parsed => do
      Stateful.refuse (fun _ => parsed.uniqueGuid == Guid.zero) .missingPartitionGuid
      append { number := index + 1, firstLba := parsed.firstLba, sectorCount := parsed.sectorCount
               uniqueGuid := parsed.uniqueGuid, typeGuid := parsed.typeGuid, attributes := parsed.attributes
               name := parsed.nameUtf16 }
      appendEntries primary (index + 1) rest

/-- The array sector by sector in both copies: `left` sectors stand for `remaining` bytes. -/
def scanArray (reader : Reader) (primary backup : Header) : (left sectorIndex remaining index : Nat) → UInt32 → Scan UInt32
  | 0, _, _, _, crc => pure crc
  | left + 1, sectorIndex, remaining, index, crc => do
    let a ← lift (reader.sector (primary.entriesLba + sectorIndex))
    let b ← lift (reader.sector (backup.entriesLba + sectorIndex))
    let take := min remaining 512
    Stateful.refuse (fun _ => slice a 0 take != slice b 0 take) .gptCopiesDiffer
    let count := (take + primary.entrySize - 1) / primary.entrySize
    appendEntries primary index ((List.range count).map (fun k => slice a (k * primary.entrySize) primary.entrySize))
    scanArray reader primary backup left (sectorIndex + 1) (remaining - take) (index + count) (crcUpdate crc (slice a 0 take))

def scanGpt (reader : Reader) : Scan Unit := do
  let a ← lift (reader.sector 1)
  let primary ← lift (liftGpt (parseHeader a 1 reader.sectors))
  Stateful.refuse (fun _ => 512 % primary.entrySize != 0) .unsupportedEntryLayout
  Stateful.update (fun t => { t with
    diskGuid := primary.diskGuid, firstUsable := primary.firstUsableLba, lastUsable := primary.lastUsableLba })
  Stateful.refuse (fun _ => primary.diskGuid == Guid.zero) .missingDiskGuid
  let b ← lift (reader.sector (reader.sectors - 1))
  let backup ← lift (liftGpt (parseHeader b (reader.sectors - 1) reader.sectors))
  Stateful.refuse (fun _ => Gpt.gptCopiesDiffer primary backup) .gptCopiesDiffer
  let crc ← scanArray reader primary backup primary.entrySectors 0 primary.entryBytes 0 0xFFFFFFFF
  Stateful.refuse (fun _ => (crcFinish crc).toNat != primary.entriesCrc32) .badEntriesCrc

/-! ## The scan -/

def scanChecked (reader : Reader) : Scan Unit := do
  Stateful.refuse (fun _ => reader.sectorBytes != 512) .unsupportedSectorSize
  Stateful.refuse (fun _ => reader.sectors == 0 || decide ((2 ^ 64 - 1) / 512 < reader.sectors)) .unsupportedCapacity
  let mbr ← lift (reader.sector 0)
  Stateful.refuse (fun _ => !signed mbr) .noPartitionTable
  Stateful.update (fun t => { t with mbrDiskId := getLe mbr 440 4 })
  let protective := (mbrSlots mbr).filter (fun raw => slotType raw == 0xee)
  let occupied := (mbrSlots mbr).filter (fun raw => slotType raw != 0)
  Stateful.refuse (fun _ => protective.any (fun raw => !Gpt.protectiveOk reader.sectors raw)) .badProtectiveMbr
  if protective.length ≠ 0 then do
    Stateful.update (fun t => { t with kind := .gpt })
    Stateful.refuse (fun _ => protective.length != 1 || occupied.length != 1) .hybridMbr
    scanGpt reader
  else scanMbr reader mbr

def scan (reader : Reader) : Table :=
  match scanChecked reader {} with
  | (.ok _, t) => { t with valid := true, reason := .ok }
  | (.error e, t) => { t with reason := .failed e }

end Kernel
end R4
