import R4Recovery.Text
/-!
# Journal — the update transaction journal and its validity

The data of `system_update_recovery.zig` (the shared core of the updater and of boot recovery): the journal, its
payloads and components, the path rules and `journalValid`.  A text field of the source (a zero-filled buffer and its
length) is the byte list `buffer[0..len]`; the two fixed arrays keep their size and their separate counts.
-/
namespace R4
namespace Journal

def journalMax : Nat := 192 * 1024
def maxPackagePayloads : Nat := 32
def maxPayloads : Nat := maxPackagePayloads + 2
def maxPath : Nat := 1024
def maxVersion : Nat := 32

inductive JournalPhase where
  | prepare | stage | commit | verify | inventory | applied | postBoot | cleanup | rollback | rolledBack
  deriving DecidableEq, Repr

inductive JournalComponentKind where
  | kernel | r4x | r4l | r4d | r4p
  deriving DecidableEq, Repr

structure JournalPayload where
  target : Bytes := []
  stage : Bytes := []
  backup : Bytes := []
  previousBackup : Bytes := []
  previousBackupKnown : Bool := false
  previousBackupSize : UInt64 := 0
  previousBackupChecksum : UInt32 := 0
  size : UInt64 := 0
  checksum : UInt32 := 0
  targetExisted : Bool := false
  oldKnown : Bool := false
  oldSize : UInt64 := 0
  oldChecksum : UInt32 := 0
  committed : Bool := false
  rolledBack : Bool := false
  replaceRequired : Bool := true
  deriving DecidableEq, Repr

structure JournalComponent where
  payloadIndex : UInt32 := 0
  kind : JournalComponentKind := .r4x
  name : Bytes := []
  target : Bytes := []
  version : Bytes := []
  deriving DecidableEq, Repr

structure TransactionJournal where
  valid : Bool := false
  slot : UInt8 := 0
  transactionGeneration : UInt64 := 0
  journalGeneration : UInt64 := 0
  phase : JournalPhase := .prepare
  packageDigest : UInt32 := 0
  packageLength : UInt64 := 0
  manifestChecksum : UInt32 := 0
  componentDigest : UInt32 := 0
  componentCount : UInt32 := 0
  componentsBound : Bool := true
  components : Vector JournalComponent maxPackagePayloads := Vector.replicate _ {}
  foundation : Bool := false
  packageVersion : Bytes := []
  source : Bytes := []
  sourceVersion : Bytes := []
  targetVersion : Bytes := []
  packagePayloadCount : UInt32 := 0
  payloadCount : UInt32 := 0
  committedCount : UInt32 := 0
  rollbackCount : UInt32 := 0
  reboot : Bool := false
  batch : Bool := false
  rollbackMarkersPresent : Bool := true
  payloads : Vector JournalPayload maxPayloads := Vector.replicate _ {}
  deriving DecidableEq, Repr

/-- The payload slots the journal's count admits. -/
def TransactionJournal.live (j : TransactionJournal) : List JournalPayload :=
  j.payloads.toList.take j.payloadCount.toNat

def TransactionJournal.liveComponents (j : TransactionJournal) : List JournalComponent :=
  j.components.toList.take j.componentCount.toNat

/-! ## Texts and paths -/

def isPathSeparator (ch : UInt8) : Bool := ch == '\\'.toUInt8 || ch == '/'.toUInt8

def isDriveLetter (ch : UInt8) : Bool := 'A'.toUInt8 ≤ toUpper ch && toUpper ch ≤ 'Z'.toUInt8

def pathFold (ch : UInt8) : UInt8 := if ch == '/'.toUInt8 then '\\'.toUInt8 else toUpper ch

def pathEqualsIgnoreCase (a b : Bytes) : Bool := a.map pathFold == b.map pathFold

def startsWithIgnoreCase (value pre : Bytes) : Bool :=
  decide (pre.length ≤ value.length) && pathEqualsIgnoreCase (value.take pre.length) pre

def endsWithIgnoreCase (value suffix : Bytes) : Bool :=
  decide (suffix.length ≤ value.length) && pathEqualsIgnoreCase (value.drop (value.length - suffix.length)) suffix

/-- One byte of `versionTextValid`: the digits of the running part and its value, which stays a `u32`. -/
def versionFrom : Bytes → Nat → Nat → Bool
  | [], digits, _ => digits != 0
  | ch :: rest, digits, part =>
    if '0'.toUInt8 ≤ ch ∧ ch ≤ '9'.toUInt8 then
      if part * 10 + (ch.toNat - 48) < 2 ^ 32 then versionFrom rest (digits + 1) (part * 10 + (ch.toNat - 48)) else false
    else if ch != '.'.toUInt8 || digits == 0 then false
    else versionFrom rest 0 0

def versionTextValid (value : Bytes) : Bool :=
  value.length != 0 && decide (value.length < maxVersion) && versionFrom value 0 0

/-- The maximal runs of bytes that are not separators. -/
def pathComponents : Bytes → Bytes → List Bytes
  | [], cur => if cur.isEmpty then [] else [cur]
  | ch :: rest, cur =>
    if isPathSeparator ch then (if cur.isEmpty then pathComponents rest [] else cur :: pathComponents rest [])
    else pathComponents rest (cur ++ [ch])

/-- The bytes no path component may hold: controls, delete and `" * : ; < > ? |`. -/
def componentByteBad (ch : UInt8) : Bool :=
  ch < 32 || ch == 0x7F || ch == 34 || ch == 42 || ch == 58 || ch == 59 || ch == 60 || ch == 62 || ch == 63 || ch == 124

def componentBad (component : Bytes) : Bool :=
  component.getLast? == some 32 || component.getLast? == some 46 || !utf8ValidateSlice component ||
    component.any componentByteBad

/-- `appendNormalizedPathByte` for a whole text: the output and its final zero stay inside `cap` bytes. -/
def appendNormalized (cap : Nat) (out value : Bytes) : Option Bytes :=
  if out.length + value.length < cap then some (out ++ value) else none

def normalizeFrom (cap : Nat) : List Bytes → Bytes → Option Bytes
  | [], out => some out
  | component :: rest, out =>
    if pathEqualsIgnoreCase component (ascii ".") then normalizeFrom cap rest out
    else if pathEqualsIgnoreCase component (ascii "..") then none
    else if componentBad component then none
    else if out.getLast? != some '\\'.toUInt8 then
      match appendNormalized cap out ('\\'.toUInt8 :: component) with
      | none => none
      | some out => normalizeFrom cap rest out
    else
      match appendNormalized cap out component with
      | none => none
      | some out => normalizeFrom cap rest out

/-- The drive or root a path starts with, and the rest of the input. -/
def pathRoot (value : Bytes) : Option (Bytes × Bytes) :=
  match value with
  | [] => none
  | a :: rest =>
    match rest with
    | b :: c :: tail =>
      if isPathSeparator a && isDriveLetter b && isPathSeparator c then
        some ([toUpper b, ':'.toUInt8, '\\'.toUInt8], tail)
      else if isDriveLetter a && b == ':'.toUInt8 then
        if isPathSeparator c then some ([toUpper a, ':'.toUInt8, '\\'.toUInt8], c :: tail) else none
      else if isPathSeparator a then some (['\\'.toUInt8], rest)
      else none
    | [b] =>
      if isDriveLetter a && b == ':'.toUInt8 then some ([toUpper a, ':'.toUInt8, '\\'.toUInt8], [])
      else if isPathSeparator a then some (['\\'.toUInt8], rest)
      else none
    | [] => if isPathSeparator a then some (['\\'.toUInt8], []) else none

/-- `normalizeAbsolutePath` into a buffer of `cap` bytes. -/
def normalizeAbsolutePath (cap : Nat) (value : Bytes) : Option Bytes :=
  if cap < 2 then none
  else match pathRoot value with
    | none => none
    | some (root, rest) => if root.length < cap then normalizeFrom cap (pathComponents rest []) root else none

def hexDigit (value : UInt32) : UInt8 :=
  if value &&& 15 < 10 then ('0'.toUInt8 + (value &&& 15).toUInt8) else ('A'.toUInt8 + (value &&& 15).toUInt8 - 10)

/-- The text up to and with its last separator. -/
def parentPart (target : Bytes) : Bytes := (target.reverse.dropWhile (fun ch => !isPathSeparator ch)).reverse

def mixedName (transactionGeneration : UInt64) (index : Nat) : UInt32 :=
  ((transactionGeneration * 0x9E3779B9) ^^^ (index.toUInt64 * 0x85EBCA6B)).toUInt32

/-- `buildInternal83Name`: a private 8.3 name next to the target, in a `maxPath` buffer. -/
def buildInternal83Name (target : Bytes) (pre : UInt8) (transactionGeneration : UInt64) (index : Nat) :
    Option Bytes :=
  if (parentPart target).length + 13 ≤ maxPath then
    some (parentPart target ++ pre ::
      ((List.range 7).map (fun digit => hexDigit (mixedName transactionGeneration index >>> ((6 - digit) * 4).toUInt32))) ++
        ascii ".R4U")
  else none

def shortNameByte (ch : UInt8) : Bool :=
  ('A'.toUInt8 ≤ toUpper ch && toUpper ch ≤ 'Z'.toUInt8) || ('0'.toUInt8 ≤ toUpper ch && toUpper ch ≤ '9'.toUInt8) ||
    (ascii "$%'-_@~").contains (toUpper ch)

/-- The dot positions of `validateShortName83Text`: `none` when a second dot or a foreign byte appears. -/
def shortNameDot : Bytes → Nat → Option Nat → Option (Option Nat)
  | [], _, dot => some dot
  | ch :: rest, index, dot =>
    if ch == '.'.toUInt8 then (if dot.isSome then none else shortNameDot rest (index + 1) (some index))
    else if shortNameByte ch then shortNameDot rest (index + 1) dot else none

def validateShortName83Text (name : Bytes) : Bool :=
  if name.length == 0 || decide (12 < name.length) || name.head? == some '.'.toUInt8 then false
  else match shortNameDot name 0 none with
    | none => false
    | some none => decide (1 ≤ name.length) && decide (name.length ≤ 8)
    | some (some at_) =>
      decide (1 ≤ at_) && decide (at_ ≤ 8) && decide (name.length - at_ - 1 ≤ 3) && decide (1 ≤ name.length - at_ - 1)

/-- `parentPathText`: up to the last separator behind the first byte, else the first byte. -/
def parentPathText (path : Bytes) : Bytes :=
  match path with
  | [] => []
  | first :: rest =>
    let head := (rest.reverse.dropWhile (fun ch => !isPathSeparator ch)).reverse
    if head.isEmpty then [first] else first :: head.dropLast

def baseName (path : Bytes) : Bytes := (path.reverse.takeWhile (fun ch => !isPathSeparator ch)).reverse

def validTarget (path : Bytes) : Bool :=
  pathEqualsIgnoreCase path (ascii "\\boot\\r4os.elf") ||
  pathEqualsIgnoreCase path (ascii "C:\\CONFIG.R4S") ||
  (startsWithIgnoreCase path (ascii "C:\\R4OS\\LIBS\\") && endsWithIgnoreCase path (ascii ".R4L")) ||
  (startsWithIgnoreCase path (ascii "C:\\R4OS\\DRIVERS\\") && endsWithIgnoreCase path (ascii ".R4D")) ||
  (startsWithIgnoreCase path (ascii "C:\\R4OS\\PROTOCOLS\\") && endsWithIgnoreCase path (ascii ".R4P")) ||
  (startsWithIgnoreCase path (ascii "C:\\R4OS\\SERVICES\\") && endsWithIgnoreCase path (ascii ".R4X")) ||
  startsWithIgnoreCase path (ascii "C:\\R4OS\\SOFTWARE\\") ||
  (startsWithIgnoreCase path (ascii "C:\\R4OS\\SUBSYSTEMS\\") && endsWithIgnoreCase path (ascii ".R4X")) ||
  (startsWithIgnoreCase path (ascii "C:\\R4OS\\FONTS\\") && endsWithIgnoreCase path (ascii ".R4F")) ||
  startsWithIgnoreCase path (ascii "C:\\R4OS\\CONFIG\\") ||
  startsWithIgnoreCase path (ascii "C:\\R4OS\\SDK\\") ||
  startsWithIgnoreCase path (ascii "C:\\TEMP\\") ||
  (match path with
   | a :: b :: c :: _ :: _ => isDriveLetter a && toUpper a != 'C'.toUInt8 && b == ':'.toUInt8 && c == '\\'.toUInt8
   | _ => false)

/-- `journalPayloadPath`, in index order. -/
def payloadPaths (entry : JournalPayload) : List Bytes := [entry.target, entry.stage, entry.backup, entry.previousBackup]

/-- The names next to one target: the stage and backup it must have and, when there is one, the inherited backup. -/
def payloadNamesOk (transactionGeneration : UInt64) (entry : JournalPayload) (index : Nat) : Bool :=
  match buildInternal83Name entry.target 'S'.toUInt8 transactionGeneration index,
      buildInternal83Name entry.target 'B'.toUInt8 transactionGeneration index with
  | some expectedStage, some expectedBackup =>
    validTarget entry.target &&
    validateShortName83Text (baseName entry.stage) &&
    validateShortName83Text (baseName entry.backup) &&
    pathEqualsIgnoreCase (parentPathText entry.target) (parentPathText entry.stage) &&
    pathEqualsIgnoreCase (parentPathText entry.target) (parentPathText entry.backup) &&
    pathEqualsIgnoreCase entry.stage expectedStage &&
    pathEqualsIgnoreCase entry.backup expectedBackup &&
    (entry.previousBackup.isEmpty ||
      (validateShortName83Text (baseName entry.previousBackup) &&
        pathEqualsIgnoreCase (parentPathText entry.target) (parentPathText entry.previousBackup)))
  | _, _ => false

/-- No two nonempty paths fold to the same text, and none folds to the package source. -/
def pathsApart (source : Bytes) : List Bytes → Bool
  | [] => true
  | path :: rest =>
    (path.isEmpty || (!pathEqualsIgnoreCase source path &&
      rest.all (fun other => other.isEmpty || !pathEqualsIgnoreCase path other))) && pathsApart source rest

def journalPathsValid (j : TransactionJournal) : Bool :=
  startsWithIgnoreCase j.source (ascii "C:\\R4OS\\UPDATE\\INBOX\\") &&
  j.live.zipIdx.all (fun p => payloadNamesOk j.transactionGeneration p.1 p.2) &&
  pathsApart j.source (j.live.flatMap payloadPaths)

/-! ## Components -/

def componentTokenValid (value : Bytes) : Bool :=
  value.length != 0 && decide (value.length ≤ 48) &&
  value.all (fun byte => decide (32 < byte) && decide (byte < 0x7F) && byte != 59 && byte != 61 && byte != 124)

def componentTargetByte (byte : UInt8) : Bool :=
  decide (32 ≤ byte) && decide (byte < 0x7F) && byte != 59 && byte != 61 && byte != 124 && byte != 92

def componentValid (component : JournalComponent) : Bool :=
  componentTokenValid component.name && versionTextValid component.version &&
  component.target.length != 0 && decide (component.target.length < maxPath) &&
  component.target.head? == some '/'.toUInt8 && component.target.all componentTargetByte &&
  (match component.kind with
   | .kernel => pathEqualsIgnoreCase component.name (ascii "KERNEL") &&
       pathEqualsIgnoreCase component.target (ascii "/boot/r4os.elf")
   | .r4x => endsWithIgnoreCase component.target (ascii ".R4X")
   | .r4l => endsWithIgnoreCase component.target (ascii ".R4L")
   | .r4d => endsWithIgnoreCase component.target (ascii ".R4D")
   | .r4p => endsWithIgnoreCase component.target (ascii ".R4P"))

def componentsValid (packagePayloadCount : UInt32) (prior : List JournalComponent) : List JournalComponent → Bool
  | [] => true
  | component :: rest =>
    decide (component.payloadIndex < packagePayloadCount) && componentValid component &&
    prior.all (fun p => !(component.kind == p.kind && pathEqualsIgnoreCase component.name p.name) &&
      !pathEqualsIgnoreCase component.target p.target) &&
    componentsValid packagePayloadCount (prior ++ [component]) rest

/-! ## Validity -/

/-- What `journalValid` asks of one payload alone. -/
def payloadShapeOk (entry : JournalPayload) : Bool :=
  !entry.target.isEmpty && !entry.stage.isEmpty && !entry.backup.isEmpty &&
  !(entry.oldKnown && !entry.targetExisted) &&
  !(entry.previousBackupKnown && entry.previousBackup.isEmpty) &&
  !(entry.committed && entry.rolledBack) &&
  !(!entry.targetExisted && (entry.oldKnown || entry.oldSize != 0 || entry.oldChecksum != 0)) &&
  !(!entry.previousBackupKnown && (entry.previousBackupSize != 0 || entry.previousBackupChecksum != 0)) &&
  !(!entry.replaceRequired && (!entry.targetExisted ||
    (entry.oldKnown && (entry.oldSize != entry.size || entry.oldChecksum != entry.checksum))))

/-- The payload scan: a committed prefix, a rolled-back suffix, and the two counts; `none` on the first breach. -/
def scanPayloads : List JournalPayload → (sawUncommitted sawRollback : Bool) → (committed rollback : Nat) →
    Option (Nat × Nat)
  | [], _, _, committed, rollback => some (committed, rollback)
  | entry :: rest, sawUncommitted, sawRollback, committed, rollback =>
    if !payloadShapeOk entry then none
    else if entry.committed && sawUncommitted then none
    else if !entry.rolledBack && sawRollback then none
    else scanPayloads rest (sawUncommitted || !entry.committed) (sawRollback || entry.rolledBack)
      (if entry.committed then committed + 1 else committed) (if entry.rolledBack then rollback + 1 else rollback)

def phaseCountsOk (j : TransactionJournal) (committed rollback : Nat) : Bool :=
  match j.phase with
  | .prepare | .stage => committed == 0 && rollback == 0
  | .commit => rollback == 0
  | .verify => j.payloadCount == j.packagePayloadCount && committed == j.payloadCount.toNat && rollback == 0
  | .inventory => j.payloadCount.toNat == j.packagePayloadCount.toNat + 1 &&
      (committed == j.packagePayloadCount.toNat || committed == j.payloadCount.toNat) && rollback == 0
  | .applied | .postBoot | .cleanup => committed == j.payloadCount.toNat && rollback == 0
  | .rollback => true
  | .rolledBack => committed == 0 && rollback == j.payloadCount.toNat

/-- The part of the header check that no replay can change: the generation of the transaction, the payload counts, the
version texts, the paths and the batch flags. -/
def journalFrameOk (j : TransactionJournal) : Bool :=
  j.transactionGeneration != 0 && j.packageLength != 0 &&
  j.packagePayloadCount != 0 && decide (j.packagePayloadCount.toNat ≤ maxPackagePayloads) &&
  j.payloadCount != 0 && decide (j.payloadCount.toNat ≤ maxPayloads) &&
  decide (j.packagePayloadCount ≤ j.payloadCount) &&
  decide (j.payloadCount.toNat ≤ j.packagePayloadCount.toNat + (if j.batch then 2 else 1)) &&
  decide (j.componentCount ≤ j.packagePayloadCount) &&
  versionTextValid j.sourceVersion && versionTextValid j.targetVersion && versionTextValid j.packageVersion &&
  journalPathsValid j && !(j.batch && (!j.reboot || !j.componentsBound))

/-- What `journalValid` checks before it looks at components and payloads. -/
def journalHeaderValid (j : TransactionJournal) : Bool :=
  (j.valid && decide (j.slot ≤ 1) && j.journalGeneration != 0) && journalFrameOk j &&
  (decide (j.committedCount ≤ j.payloadCount) && decide (j.rollbackCount ≤ j.payloadCount)) &&
  !(j.phase == .postBoot && !j.batch)

def journalValid (j : TransactionJournal) : Bool :=
  journalHeaderValid j &&
  (!j.componentsBound || componentsValid j.packagePayloadCount [] j.liveComponents) &&
  (match scanPayloads j.live false false 0 0 with
   | none => false
   | some (committed, rollback) =>
     committed == j.committedCount.toNat && rollback == j.rollbackCount.toNat && phaseCountsOk j committed rollback)

/-- `recount`: both counters from the payload flags. -/
def recount (j : TransactionJournal) : TransactionJournal :=
  { j with committedCount := (j.live.countP (·.committed)).toUInt32
           rollbackCount := (j.live.countP (·.rolledBack)).toUInt32 }

end Journal
end R4
