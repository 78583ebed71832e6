import R4Recovery.Partition
/-!
# GptRepair — inspecting and repairing GPT copies

`gpt_repair.zig`: `Report.read` inspects both copies of a GPT, `repair` rebuilds the damaged one from the intact one.
-/
namespace R4
namespace Gpt

structure Copy where
  sector : Bytes := []
  header : Option Header := none
  array : Bytes := []
  reason : Option Error := none

def Copy.valid (c : Copy) : Bool := c.reason.isNone && c.header.isSome

inductive Status where
  | healthy | primaryDamaged | backupDamaged | bothInvalid | conflict | protectiveMbrInvalid
  deriving DecidableEq, Repr

structure Report where
  sectors : Nat
  primary : Copy
  backup : Copy
  mbr : Bytes
  mbrReason : Option Error
  status : Status
  fingerprint : Bytes

/-- One entry of a copy against the ones in front of it. -/
def partitionApart (header : Header) (a : Partition) : List Bytes → Except Error Unit
  | [] => .ok ()
  | raw :: rest => do
    match ← parsePartition raw header with
    | none => partitionApart header a rest
    | some b =>
      if a.firstLba ≤ b.lastLba ∧ b.firstLba ≤ a.lastLba then .error .overlap
      else if a.uniqueGuid = b.uniqueGuid then .error .duplicateGuid
      else partitionApart header a rest

def validateSlots (header : Header) : (prior rest : List Bytes) → Except Error Unit
  | _, [] => .ok ()
  | prior, raw :: rest => do
    match ← parsePartition raw header with
    | none => validateSlots header (prior ++ [raw]) rest
    | some a => do
      reject (a.uniqueGuid == Guid.zero || a.uniqueGuid == header.diskGuid) .partitionGuid
      partitionApart header a prior
      validateSlots header (prior ++ [raw]) rest

def validateCopy (header : Header) (array : Bytes) (sectors : Nat) : Except Error Unit := do
  reject (header.diskGuid == Guid.zero) .partitionGuid
  reject ((crc (slice array 0 header.entryBytes)).toNat != header.entriesCrc32) .gptArrayCrc
  reject (decide (header.firstUsableLba < 2 + header.entrySectors) ||
    decide (sectors - 1 - header.entrySectors ≤ header.lastUsableLba)) .geometry
  validateSlots header [] (arraySlots array header.entryCount)

/-- The header layout both tools support. -/
def layoutBad (sector : Bytes) (header : Header) : Bool :=
  getLe sector 12 4 != 92 || header.entrySize != 128 || decide (maxEntries < header.entryCount)

/-- One copy of the table, with the reason it is unusable. -/
def readCopy (dev : Device) (lba : Nat) : Io Error Copy := do
  let sector ← dev.read lba 512
  match parseHeader sector lba dev.sectors with
  | .error e => pure { sector, reason := some e }
  | .ok header =>
    if layoutBad sector header then pure { sector, header := some header, reason := some .gptLayoutUnsupported }
    else do
      let array ← dev.read header.entriesLba (512 * header.entrySectors)
      match validateCopy header array dev.sectors with
      | .error e => pure { sector, header := some header, array, reason := some e }
      | .ok _ => pure { sector, header := some header, array }

def related (a b : Header) : Bool :=
  a.diskGuid == b.diskGuid && a.firstUsableLba == b.firstUsableLba && a.lastUsableLba == b.lastUsableLba &&
    a.entryCount == b.entryCount && a.entrySize == b.entrySize

/-- One MBR slot of a GPT disk: `none` when it is no protective MBR's, else whether it is the protective entry. -/
def checkSlot (sectors : Nat) (bytes : Bytes) : Option Bool :=
  if slotType bytes = 0 then (if getLe bytes 8 4 ≠ 0 ∨ getLe bytes 12 4 ≠ 0 then none else some false)
  else if slotType bytes ≠ 0xee ∨ bytes.getD 0 0 ≠ 0 ∨ !protectiveOk sectors bytes then none
  else some true

def checkMbr (mbr : Bytes) (sectors : Nat) : Except Error Unit :=
  if mbr.getD 510 0 ≠ 0x55 ∨ mbr.getD 511 0 ≠ 0xaa then .error .protectiveMbr
  else match (mbrSlots mbr).mapM (checkSlot sectors) with
    | none => .error .protectiveMbr
    | some flags => reject (flags.countP (· == true) != 1) .protectiveMbr

/-- The bytes of a copy's array that its header counts. -/
def Copy.used (c : Copy) : Bytes :=
  match c.header with
  | none => []
  | some h => slice c.array 0 h.entryBytes

def headersConflict (a b : Copy) : Bool :=
  match a.header, b.header with
  | some x, some y => !related x y
  | _, _ => false

def statusOf (mbrReason : Option Error) (a b : Copy) : Status :=
  if mbrReason.isSome then .protectiveMbrInvalid
  else if !a.valid && !b.valid then .bothInvalid
  else if headersConflict a b then .conflict
  else if a.valid && b.valid then (if a.used = b.used then .healthy else .conflict)
  else if a.valid then .backupDamaged else .primaryDamaged

section Hash

variable (sha : Bytes → Bytes)

def errorOf {α : Type} : Except Error α → Option Error
  | .ok _ => none
  | .error e => some e

def Report.read (dev : Device) : Io Error Report := do
  Io.lift dev.validate
  Io.refuse (decide (dev.sectors < 68)) .geometry
  Io.step .outOfMemory
  let mbr ← dev.read 0 512
  let mbrReason := errorOf (checkMbr mbr dev.sectors)
  let a ← readCopy dev 1
  let b ← readCopy dev (dev.sectors - 1)
  pure { sectors := dev.sectors, primary := a, backup := b, mbr, mbrReason, status := statusOf mbrReason a b
         fingerprint := sha (mbr ++ (a.sector ++ a.array) ++ (b.sector ++ b.array)) }

/-- Which copy is damaged; `true` for the primary. -/
def Report.repairable (r : Report) : Except Error Bool :=
  match r.status with
  | .primaryDamaged => .ok true
  | .backupDamaged => .ok false
  | .healthy => .error .gptAlreadyHealthy
  | .bothInvalid => .error .gptBothInvalid
  | .conflict => .error .gptCopiesDisagree
  | .protectiveMbrInvalid => .error .protectiveMbr

def Report.bad (r : Report) (primary : Bool) : Copy := if primary then r.primary else r.backup

def Report.good (r : Report) (primary : Bool) : Copy := if primary then r.backup else r.primary

/-- The header rebuilt from the good one. -/
def rebuiltHeader (good : Bytes) (header : Header) (newLba arrayLba : Nat) : Bytes :=
  let out := put good 24 (leBytes 8 newLba)
  let out := put out 32 (leBytes 8 header.currentLba)
  let out := put out 72 (leBytes 8 arrayLba)
  let out := put out 16 (leBytes 4 0)
  put out 16 (leBytes 4 (crc (slice out 0 92)).toNat)

def Report.newLba (r : Report) (primary : Bool) : Nat := if primary then 1 else r.sectors - 1

/-- Where the rebuilt array goes: where the damaged header says, or next to the header. -/
def Report.arrayLba (r : Report) (primary : Bool) (header : Header) : Nat :=
  match (r.bad primary).header with
  | some old => old.entriesLba
  | none => if primary then 2 else r.sectors - 1 - header.entrySectors

/-- The repair itself, behind the stale check: array, then header, then the read-back of everything that stays. -/
def Report.rebuild (r : Report) (dev : Device) (workLen : Nat) (primary : Bool) (header : Header) : Io Error Unit := do
  let good := r.good primary
  let newLba := r.newLba primary
  let arrayLba := r.arrayLba primary header
  let newHeader := rebuiltHeader good.sector header newLba arrayLba
  let _ ← Io.lift (parseHeader newHeader newLba dev.sectors)
  dev.write arrayLba good.array
  dev.flush
  dev.verify arrayLba good.array workLen
  dev.write newLba newHeader
  dev.flush
  dev.verify newLba newHeader workLen
  dev.verify header.currentLba good.sector workLen
  dev.verify header.entriesLba good.array workLen
  dev.verify 0 r.mbr workLen

def Report.repair (r : Report) (dev : Device) (workLen : Nat) : Io Error Unit := do
  let primary ← Io.lift r.repairable
  Io.lift dev.requireExclusive
  Io.refuse (dev.sectors != r.sectors || decide (workLen < 512) || workLen % 512 != 0) .geometry
  let current ← Report.read sha dev
  Io.refuse (r.fingerprint != current.fingerprint || r.status != current.status) .stale
  match (r.good primary).header with
  | none => Io.throw .geometry
  | some header => r.rebuild dev workLen primary header

end Hash

end Gpt
end R4
