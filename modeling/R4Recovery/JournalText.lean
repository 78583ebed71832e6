import R4Recovery.Journal
import R4Recovery.Lines
/-!
# JournalText — the durable text of a journal

`serializeJournal` and `parseJournalInto` of `system_update_recovery.zig`: one line for each header key, component and
payload, a checksum line at the end.  A parse returns the journal it fills; a `false` of the source is `none`.
-/
namespace R4
namespace Journal

/-! ## Numbers and words -/

def checksumUpdate (seed : UInt32) (data : Bytes) : UInt32 :=
  data.foldl (fun out ch => (out ^^^ ch.toUInt32) * 16777619) seed

def checksum (data : Bytes) : UInt32 := checksumUpdate 2166136261 data

def parseU64 (value : Bytes) : Option UInt64 := (parseNat value).map (·.toUInt64)

def parseU32 (value : Bytes) : Option UInt32 :=
  match parseNat value with
  | none => none
  | some n => if n < 2 ^ 32 then some n.toUInt32 else none

def parseBool01 (value : Bytes) : Option Bool :=
  if value = ascii "0" then some false else if value = ascii "1" then some true else none

/-- Two words a flag is written with; the test for the first comes first. -/
def parseWord (value : Bytes) (onFalse onTrue : String) : Option Bool :=
  if pathEqualsIgnoreCase value (ascii onFalse) then some false
  else if pathEqualsIgnoreCase value (ascii onTrue) then some true
  else none

def parseYesNo (value : Bytes) : Option Bool := parseWord value "no" "yes"

def flagByte (b : Bool) : Bytes := if b then ascii "1" else ascii "0"

def phaseName : JournalPhase → Bytes
  | .prepare => ascii "prepare"
  | .stage => ascii "stage"
  | .commit => ascii "commit"
  | .verify => ascii "verify"
  | .inventory => ascii "inventory"
  | .applied => ascii "applied"
  | .postBoot => ascii "post_boot"
  | .cleanup => ascii "cleanup"
  | .rollback => ascii "rollback"
  | .rolledBack => ascii "rolled_back"

def parsePhase (value : Bytes) : Option JournalPhase :=
  [.prepare, .stage, .commit, .verify, .inventory, .applied, .postBoot, .cleanup, .rollback, .rolledBack].find?
    (fun phase => pathEqualsIgnoreCase value (phaseName phase))

def JournalComponentKind.text : JournalComponentKind → Bytes
  | .kernel => ascii "KERNEL"
  | .r4x => ascii "R4X"
  | .r4l => ascii "R4L"
  | .r4d => ascii "R4D"
  | .r4p => ascii "R4P"

def JournalComponentKind.parse (value : Bytes) : Option JournalComponentKind :=
  [JournalComponentKind.kernel, .r4x, .r4l, .r4d, .r4p].find? (fun kind => eqlIgnoreCase value kind.text)

/-! ## Writing -/

/-- The header lines, as keys and values in file order. -/
def headerFields (j : TransactionJournal) : List (Bytes × Bytes) :=
  [ (ascii "R4U_JOURNAL=", ascii "5"),
    (ascii "TRANSACTION_GENERATION=", decimal j.transactionGeneration.toNat),
    (ascii "JOURNAL_GENERATION=", decimal j.journalGeneration.toNat),
    (ascii "PHASE=", phaseName j.phase),
    (ascii "PACKAGE_DIGEST=", decimal j.packageDigest.toNat),
    (ascii "PACKAGE_LENGTH=", decimal j.packageLength.toNat),
    (ascii "MANIFEST_CHECKSUM=", decimal j.manifestChecksum.toNat),
    (ascii "COMPONENT_DIGEST=", decimal j.componentDigest.toNat),
    (ascii "COMPONENTS=", decimal j.componentCount.toNat),
    (ascii "COMPONENT_BINDING=", if j.componentsBound then ascii "bound" else ascii "legacy"),
    (ascii "PRIORITY=", if j.foundation then ascii "foundation" else ascii "normal"),
    (ascii "PACKAGE_VERSION=", j.packageVersion),
    (ascii "SOURCE_RELEASE=", j.sourceVersion),
    (ascii "RELEASE=", j.targetVersion),
    (ascii "SOURCE=", j.source),
    (ascii "PACKAGE_PAYLOADS=", decimal j.packagePayloadCount.toNat),
    (ascii "PAYLOADS=", decimal j.payloadCount.toNat),
    (ascii "COMMITTED=", decimal j.committedCount.toNat),
    (ascii "ROLLED_BACK=", decimal j.rollbackCount.toNat),
    (ascii "REBOOT=", if j.reboot then ascii "yes" else ascii "no"),
    (ascii "BATCH=", if j.batch then ascii "yes" else ascii "no") ]

def componentFields (index : Nat) (c : JournalComponent) : List (Bytes × Bytes) :=
  [ (ascii "index=", decimal index),
    (ascii "payload=", decimal c.payloadIndex.toNat),
    (ascii "kind=", c.kind.text),
    (ascii "name=", c.name),
    (ascii "target=", c.target),
    (ascii "version=", c.version) ]

def payloadFields (index : Nat) (e : JournalPayload) : List (Bytes × Bytes) :=
  [ (ascii "index=", decimal index),
    (ascii "target=", e.target),
    (ascii "stage=", e.stage),
    (ascii "backup=", e.backup),
    (ascii "previous_backup=", e.previousBackup),
    (ascii "previous_known=", flagByte e.previousBackupKnown),
    (ascii "previous_size=", decimal e.previousBackupSize.toNat),
    (ascii "previous_checksum=", decimal e.previousBackupChecksum.toNat),
    (ascii "size=", decimal e.size.toNat),
    (ascii "checksum=", decimal e.checksum.toNat),
    (ascii "existed=", flagByte e.targetExisted),
    (ascii "old_known=", flagByte e.oldKnown),
    (ascii "old_size=", decimal e.oldSize.toNat),
    (ascii "old_checksum=", decimal e.oldChecksum.toNat),
    (ascii "required=", flagByte e.replaceRequired),
    (ascii "committed=", flagByte e.committed),
    (ascii "rolled_back=", flagByte e.rolledBack) ]

/-- One `;`-separated record line: its tag and its `key=value` fields. -/
def recordLine (tag : String) (fields : List (Bytes × Bytes)) : Bytes :=
  [59].intercalate (ascii tag :: fields.map (fun f => f.1 ++ f.2))

def bodyLines (j : TransactionJournal) : List Bytes :=
  (headerFields j).map (fun f => f.1 ++ f.2) ++
  (if j.componentsBound then
    j.liveComponents.zipIdx.map (fun c => recordLine "COMPONENT" (componentFields c.2 c.1)) else []) ++
  j.live.zipIdx.map (fun e => recordLine "PAYLOAD" (payloadFields e.2 e.1))

def bodyText (j : TransactionJournal) : Bytes := (bodyLines j).flatMap (· ++ [10])

def journalText (j : TransactionJournal) : Bytes :=
  bodyText j ++ (ascii "CHECKSUM=" ++ decimal (checksum (bodyText j)).toNat ++ [10])

/-- `serializeJournal` into a buffer of `cap` bytes: each append fails exactly when the text would outgrow the buffer. -/
def serializeJournal (j : TransactionJournal) (cap : Nat) : Option Bytes :=
  if !journalValid j then none
  else if (journalText j).length ≤ cap then some (journalText j) else none

/-! ## Reading -/

/-- `journalField`: the value behind `key` when exactly one line starts with it. -/
def journalField (data : Bytes) (key : String) : Option Bytes :=
  match ((lines data).map trim).filter (fun line => startsWith line (ascii key)) with
  | [line] => some (line.drop (ascii key).length)
  | _ => none

def segments (line : Bytes) : List Bytes := line.splitOn 59

def fieldOccurrences (line : Bytes) (key : String) : Nat := (segments line).countP (fun s => startsWith s (ascii key))

def fieldValue (line : Bytes) (key : String) : Option Bytes :=
  match (segments line).filter (fun s => startsWith s (ascii key)) with
  | [s] => some (s.drop (ascii key).length)
  | _ => none

def requiredField (line : Bytes) (key : String) : Option Bytes :=
  if fieldOccurrences line key ≠ 1 then none else fieldValue line key

def optionalField (line : Bytes) (key : String) : Option Bytes :=
  if 1 < fieldOccurrences line key then none else fieldValue line key

def headerKeys : List String :=
  [ "R4U_JOURNAL=", "TRANSACTION_GENERATION=", "JOURNAL_GENERATION=", "PHASE=", "PACKAGE_DIGEST=", "PACKAGE_LENGTH=",
    "SOURCE=", "PAYLOADS=", "COMMITTED=", "ROLLED_BACK=", "REBOOT=", "MANIFEST_CHECKSUM=", "COMPONENT_DIGEST=",
    "COMPONENTS=", "COMPONENT_BINDING=", "PRIORITY=", "PACKAGE_VERSION=", "SOURCE_RELEASE=", "RELEASE=",
    "PACKAGE_PAYLOADS=", "BATCH=" ]

def payloadKeys : List String :=
  [ "index=", "target=", "stage=", "backup=", "previous_backup=", "previous_known=", "previous_size=",
    "previous_checksum=", "size=", "checksum=", "existed=", "old_known=", "old_size=", "old_checksum=", "required=",
    "committed=", "rolled_back=" ]

def componentKeys : List String := ["index=", "payload=", "kind=", "name=", "target=", "version="]

def journalLinesKnown (data : Bytes) : Bool :=
  (lines data).all (fun raw =>
    !(trim raw).isEmpty && (startsWith (trim raw) (ascii "PAYLOAD;") || startsWith (trim raw) (ascii "COMPONENT;") ||
      headerKeys.any (fun key => startsWith (trim raw) (ascii key))))

/-- The tag is the first segment, and every other one starts with an allowed key. -/
def segmentsKnown (tag : String) (allowed : List String) (line : Bytes) : Bool :=
  match segments line with
  | [] => false
  | first :: rest => first == ascii tag && rest.all (fun s => allowed.any (fun key => startsWith s (ascii key)))

def payloadFieldsKnown (line : Bytes) : Bool :=
  segmentsKnown "PAYLOAD" payloadKeys line && payloadKeys.all (fun key => decide (fieldOccurrences line key ≤ 1))

def componentFieldsKnown (line : Bytes) : Bool :=
  segmentsKnown "COMPONENT" componentKeys line && componentKeys.all (fun key => fieldOccurrences line key == 1)

/-- `copyTextZ` into a buffer of `cap` bytes. -/
def copyTextZ (cap : Nat) (value : Bytes) : Option Bytes := if value.length + 1 ≤ cap then some value else none

/-- A `return false` of the source when `bad` holds. -/
def refuse (bad : Bool) : Option Unit := if bad then none else some ()

/-- The optional known/size/checksum triple of a payload line. -/
def parseTriple (known size sum : Option Bytes) : Option (Bool × UInt64 × UInt32) :=
  match known with
  | none => if size.isSome || sum.isSome then none else some (false, 0, 0)
  | some rawKnown =>
    match parseBool01 rawKnown with
    | none => none
    | some true => do
      let size ← parseU64 (← size)
      let sum ← parseU32 (← sum)
      pure (true, size, sum)
    | some false =>
      if size.all (fun value => parseU64 value == some 0) && sum.all (fun value => parseU32 value == some 0) then
        some (false, 0, 0)
      else none

def parseComponent (packagePayloadCount : UInt32) (line : Bytes) : Option JournalComponent := do
  let payloadIndex ← parseU32 (← requiredField line "payload=")
  let kind ← JournalComponentKind.parse (← requiredField line "kind=")
  let name ← copyTextZ 49 (← requiredField line "name=")
  let target ← copyTextZ maxPath (← requiredField line "target=")
  let version ← copyTextZ maxVersion (← requiredField line "version=")
  let component : JournalComponent := { payloadIndex, kind, name, target, version }
  refuse (decide (packagePayloadCount ≤ payloadIndex) || !componentValid component)
  pure component

/-- The inherited backup: none, or an absolute path. -/
def parsePrevious (value : Bytes) : Option Bytes :=
  if value.isEmpty then some [] else normalizeAbsolutePath maxPath value

def parsePayload (line : Bytes) : Option JournalPayload := do
  let target ← normalizeAbsolutePath maxPath (← requiredField line "target=")
  let stage ← normalizeAbsolutePath maxPath (← requiredField line "stage=")
  let backup ← normalizeAbsolutePath maxPath (← requiredField line "backup=")
  let previousBackup ← parsePrevious ((optionalField line "previous_backup=").getD [])
  let (previousBackupKnown, previousBackupSize, previousBackupChecksum) ← parseTriple
    (optionalField line "previous_known=") (optionalField line "previous_size=") (optionalField line "previous_checksum=")
  refuse (previousBackupKnown && previousBackup.isEmpty)
  let size ← parseU64 (← requiredField line "size=")
  let checksum ← parseU32 (← requiredField line "checksum=")
  let targetExisted ← parseBool01 (← requiredField line "existed=")
  let (oldKnown, oldSize, oldChecksum) ← parseTriple
    (optionalField line "old_known=") (optionalField line "old_size=") (optionalField line "old_checksum=")
  refuse (oldKnown && !targetExisted)
  let replaceRequired ← parseBool01 (← requiredField line "required=")
  let committed ← parseBool01 (← requiredField line "committed=")
  let rolledBack ← parseBool01 (← requiredField line "rolled_back=")
  refuse (committed && rolledBack)
  refuse (!replaceRequired && (!targetExisted || (oldKnown && (oldSize != size || oldChecksum != checksum))))
  pure { target, stage, backup, previousBackup, previousBackupKnown, previousBackupSize, previousBackupChecksum, size,
         checksum, targetExisted, oldKnown, oldSize, oldChecksum, committed, rolledBack, replaceRequired }

structure ParseState where
  journal : TransactionJournal
  seenPayloads : List Nat
  seenComponents : List Nat

/-- One line of the component and payload pass; header lines are skipped. -/
def parseLine (st : ParseState) (raw : Bytes) : Option ParseState :=
  let line := trim raw
  if startsWith line (ascii "COMPONENT;") then do
    refuse (!componentFieldsKnown line)
    let index ← parseU32 (← requiredField line "index=")
    refuse (decide (st.journal.componentCount ≤ index))
    refuse (st.seenComponents.contains index.toNat)
    let component ← parseComponent st.journal.packagePayloadCount line
    pure { st with journal.components := st.journal.components.setIfInBounds index.toNat component
                   seenComponents := index.toNat :: st.seenComponents }
  else if startsWith line (ascii "PAYLOAD;") then do
    refuse (!payloadFieldsKnown line)
    let index ← parseU32 (← requiredField line "index=")
    refuse (decide (st.journal.payloadCount ≤ index))
    refuse (st.seenPayloads.contains index.toNat)
    let entry ← parsePayload line
    pure { st with journal.payloads := st.journal.payloads.setIfInBounds index.toNat entry
                   seenPayloads := index.toNat :: st.seenPayloads }
  else some st

/-- The header: every field but the components and payloads. -/
def parseHeader (data : Bytes) (slot : UInt8) : Option TransactionJournal := do
  let reboot ← parseYesNo (← journalField data "REBOOT=")
  let foundation ← parseWord (← journalField data "PRIORITY=") "normal" "foundation"
  let transactionGeneration ← parseU64 (← journalField data "TRANSACTION_GENERATION=")
  let journalGeneration ← parseU64 (← journalField data "JOURNAL_GENERATION=")
  let phase ← parsePhase (← journalField data "PHASE=")
  let packageDigest ← parseU32 (← journalField data "PACKAGE_DIGEST=")
  let packageLength ← parseU64 (← journalField data "PACKAGE_LENGTH=")
  let manifestChecksum ← parseU32 (← journalField data "MANIFEST_CHECKSUM=")
  let componentDigest ← parseU32 (← journalField data "COMPONENT_DIGEST=")
  let componentCount ← parseU32 (← journalField data "COMPONENTS=")
  let componentsBound ← parseWord (← journalField data "COMPONENT_BINDING=") "legacy" "bound"
  let packagePayloadCount ← parseU32 (← journalField data "PACKAGE_PAYLOADS=")
  let payloadCount ← parseU32 (← journalField data "PAYLOADS=")
  let committedCount ← parseU32 (← journalField data "COMMITTED=")
  let rollbackCount ← parseU32 (← journalField data "ROLLED_BACK=")
  let batch ← parseYesNo (← journalField data "BATCH=")
  refuse (transactionGeneration == 0 || journalGeneration == 0 || payloadCount == 0 ||
    decide (maxPayloads < payloadCount.toNat) || packagePayloadCount == 0 ||
    decide (maxPackagePayloads < packagePayloadCount.toNat) || decide (payloadCount < packagePayloadCount) ||
    decide (packagePayloadCount.toNat + (if batch then 2 else 1) < payloadCount.toNat))
  let source ← normalizeAbsolutePath maxPath (← journalField data "SOURCE=")
  let sourceVersion ← copyTextZ maxVersion (← journalField data "SOURCE_RELEASE=")
  let targetVersion ← copyTextZ maxVersion (← journalField data "RELEASE=")
  let packageVersion ← copyTextZ maxVersion (← journalField data "PACKAGE_VERSION=")
  refuse (!versionTextValid sourceVersion || !versionTextValid targetVersion || !versionTextValid packageVersion ||
    decide (packagePayloadCount < componentCount))
  pure { valid := true, slot, transactionGeneration, journalGeneration, phase, packageDigest, packageLength,
         manifestChecksum, componentDigest, componentCount, componentsBound, foundation, packagePayloadCount, payloadCount,
         committedCount, rollbackCount, reboot, batch, source, sourceVersion, targetVersion, packageVersion }

/-- The checksum line: it is the last line, and its number is the checksum of everything before it.  Yields that part. -/
def parseChecksum (data : Bytes) : Option Bytes := do
  let marker ← lastIndexOf data (ascii "CHECKSUM=")
  refuse (decide (0 < marker) && data[marker - 1]? != some 10)
  let rest := data.drop marker
  let line := rest.takeWhile (· != 10)
  refuse (line.length + 1 != rest.length)
  let expected ← parseU32 (trim (line.drop (ascii "CHECKSUM=").length))
  refuse (checksum (data.take marker) != expected)
  pure (data.take marker)

def parseJournalInto (data : Bytes) (slot : UInt8) : Option TransactionJournal := do
  refuse (decide (1 < slot) || data.isEmpty || decide (journalMax < data.length))
  let body ← parseChecksum data
  let version ← journalField data "R4U_JOURNAL="
  refuse (!pathEqualsIgnoreCase version (ascii "5"))
  refuse (!journalLinesKnown body)
  let journal ← parseHeader data slot
  let st ← (lines body).foldlM parseLine ⟨journal, [], []⟩
  refuse (st.journal.componentsBound && st.seenComponents.length != st.journal.componentCount.toNat)
  refuse (!st.journal.componentsBound && st.seenComponents.length != 0)
  refuse (st.seenPayloads.length != st.journal.payloadCount.toNat)
  refuse (!journalValid st.journal)
  pure st.journal

end Journal
end R4
