import R4Recovery.JournalText
import R4Recovery.Manifest
import R4Recovery.UpdatePlan
/-!
# BatchJournal — the durable text of an update batch

`serializeJournal`, `parseJournalInto` and `journalValid` of `system_update_batch.zig`: nine header lines, one line for
each package, a checksum line at the end.  Nothing is escaped.
-/
namespace R4
namespace UpdateBatch

open Journal (maxPath checksum normalizeAbsolutePath recordLine copyTextZ refuse segments)
open Manifest

def journalMax : Nat := 64 * 1024
def maxReason : Nat := 64

inductive Phase where
  | staged | verifying | staging | committing | pendingRestart | installed | failed | rollingBack | rolledBack
  deriving DecidableEq, Repr

def Phase.text : Phase → Bytes
  | .staged => ascii "staged"
  | .verifying => ascii "verifying"
  | .staging => ascii "staging"
  | .committing => ascii "committing"
  | .pendingRestart => ascii "pending-restart"
  | .installed => ascii "installed"
  | .failed => ascii "failed"
  | .rollingBack => ascii "rolling-back"
  | .rolledBack => ascii "rolled-back"

def Phase.parse (value : Bytes) : Option Phase :=
  [Phase.staged, .verifying, .staging, .committing, .pendingRestart, .installed, .failed, .rollingBack, .rolledBack].find?
    (fun phase => eqlIgnoreCase value phase.text)

structure PackageEntry where
  order : UInt8 := 0
  path : Bytes := []
  package : Bytes := []
  packageVersion : Bytes := []
  release : Bytes := []
  packageLength : UInt64 := 0
  packageDigest : UInt32 := 0
  manifestChecksum : UInt32 := 0
  componentDigest : UInt32 := 0
  activation : InstallMode := .restart
  priority : Priority := .normal
  deriving DecidableEq, Repr

structure BatchJournal where
  slot : UInt8 := 0
  valid : Bool := false
  batchGeneration : UInt64 := 0
  journalGeneration : UInt64 := 0
  phase : Phase := .staged
  packageCount : UInt32 := 0
  currentPackage : UInt32 := 0
  sourceRelease : Bytes := []
  targetRelease : Bytes := []
  reason : Bytes := []
  packages : Vector PackageEntry maxPackages := Vector.replicate _ {}
  deriving DecidableEq, Repr

/-- The package slots the journal's count admits. -/
def BatchJournal.live (j : BatchJournal) : List PackageEntry := j.packages.toList.take j.packageCount.toNat

/-! ## Validity -/

def validReason (value : Bytes) : Bool :=
  decide (value.length ≤ maxReason) &&
    value.all (fun byte => decide (32 ≤ byte) && decide (byte < 0x7F) && byte != 59 && byte != 61)

/-- What `journalValid` asks of one package alone. -/
def entryValid (count : Nat) (targetRelease : Bytes) (entry : PackageEntry) : Bool :=
  decide (entry.order.toNat < count) && entry.path.length != 0 && decide (entry.path.length < maxPath) &&
    validToken entry.package packageNameMaxBytes && validSemanticVersion entry.packageVersion &&
    validSemanticVersion entry.release && entry.release == targetRelease &&
    decide (headerSize < entry.packageLength.toNat)

/-- The packages before an entry have other orders, paths and names. -/
def entriesValid (count : Nat) (targetRelease : Bytes) : List PackageEntry → List PackageEntry → Bool
  | _, [] => true
  | prior, entry :: rest =>
    entryValid count targetRelease entry &&
      prior.all (fun p => p.order != entry.order && !eqlIgnoreCase entry.path p.path &&
        !eqlIgnoreCase entry.package p.package) &&
      entriesValid count targetRelease (prior ++ [entry]) rest

def journalValid (j : BatchJournal) : Bool :=
  j.valid && decide (j.slot ≤ 1) && j.batchGeneration != 0 && j.journalGeneration != 0 && j.packageCount != 0 &&
    decide (j.packageCount.toNat ≤ maxPackages) && decide (j.currentPackage ≤ j.packageCount) &&
    validSemanticVersion j.sourceRelease && validSemanticVersion j.targetRelease && validReason j.reason &&
    entriesValid j.packageCount.toNat j.targetRelease [] j.live

/-! ## Writing -/

/-- The header lines, as keys and values in file order. -/
def headerFields (j : BatchJournal) : List (Bytes × Bytes) :=
  [ (ascii "R4U_BATCH=", ascii "1"),
    (ascii "BATCH_GENERATION=", decimal j.batchGeneration.toNat),
    (ascii "JOURNAL_GENERATION=", decimal j.journalGeneration.toNat),
    (ascii "PHASE=", j.phase.text),
    (ascii "SOURCE_RELEASE=", j.sourceRelease),
    (ascii "TARGET_RELEASE=", j.targetRelease),
    (ascii "PACKAGES=", decimal j.packageCount.toNat),
    (ascii "CURRENT_PACKAGE=", decimal j.currentPackage.toNat),
    (ascii "REASON=", j.reason) ]

def packageFields (index : Nat) (e : PackageEntry) : List (Bytes × Bytes) :=
  [ (ascii "index=", decimal index),
    (ascii "order=", decimal e.order.toNat),
    (ascii "path=", e.path),
    (ascii "package=", e.package),
    (ascii "version=", e.packageVersion),
    (ascii "release=", e.release),
    (ascii "length=", decimal e.packageLength.toNat),
    (ascii "digest=", decimal e.packageDigest.toNat),
    (ascii "manifest=", decimal e.manifestChecksum.toNat),
    (ascii "component=", decimal e.componentDigest.toNat),
    (ascii "activation=", e.activation.text),
    (ascii "priority=", e.priority.text) ]

def packageLines (es : List PackageEntry) (k : Nat) : List Bytes :=
  (es.zipIdx k).map (fun e => recordLine "PACKAGE" (packageFields e.2 e.1))

def bodyLines (j : BatchJournal) : List Bytes := fieldTexts (headerFields j) ++ packageLines j.live 0

def bodyText (j : BatchJournal) : Bytes := (bodyLines j).flatMap (· ++ [10])

def checksumLine (j : BatchJournal) : Bytes := ascii "CHECKSUM=" ++ decimal (checksum (bodyText j)).toNat

def journalText (j : BatchJournal) : Bytes := bodyText j ++ (checksumLine j ++ [10])

/-- `serializeJournal` into a buffer of `cap` bytes: an append fails exactly when the text would outgrow the buffer. -/
def serializeJournal (j : BatchJournal) (cap : Nat) : Option Bytes :=
  if !journalValid j then none
  else if (journalText j).length ≤ cap then some (journalText j) else none

/-! ## Reading -/

def parseU64 (value : Bytes) : Option UInt64 :=
  if value.isEmpty then none else (parseDigits value 0).map (·.toUInt64)

def parseU32 (value : Bytes) : Option UInt32 :=
  match parseU64 value with
  | none => none
  | some n => if n.toNat < 2 ^ 32 then some n.toUInt32 else none

def isLineEnd (byte : UInt8) : Bool := byte == 10 || byte == 13

/-- `std.mem.trimEnd(u8, value, "\r\n")`. -/
def trimLine (value : Bytes) : Bytes := (value.reverse.dropWhile isLineEnd).reverse

/-- Where the last line starts, when it starts with `pre`. -/
def lastLineStart (data : Bytes) (pre : String) : Option Nat :=
  let text := trimLine data
  let start := text.length - (text.reverse.takeWhile (· != 10)).length
  if startsWith (text.drop start) (ascii pre) then some start else none

def packageKeys : List String :=
  [ "index", "order", "path", "package", "version", "release", "length", "digest", "manifest", "component", "activation",
    "priority" ]

/-- Every field but the tag is `name=...` with a known name. -/
def lineFieldsKnown (line : Bytes) (known : List String) : Bool :=
  (segments line).tail.all (fun field =>
    field.contains 61 && known.any (fun name => field.takeWhile (· != 61) == ascii name))

def fieldValue (line : Bytes) (key : String) : Option Bytes :=
  ((segments line).find? (fun field => startsWith field (ascii key))).map (·.drop (ascii key).length)

/-- A package line at place `expectedIndex`; a number or a word that is missing reads like an empty one. -/
def parsePackageLine (line : Bytes) (expectedIndex : Nat) : Option PackageEntry := do
  refuse (decide (maxPackages ≤ expectedIndex) || !lineFieldsKnown line packageKeys)
  let index ← parseU32 ((fieldValue line "index=").getD [])
  refuse (index.toNat != expectedIndex)
  let order ← parseU32 ((fieldValue line "order=").getD [])
  refuse (decide (maxPackages ≤ order.toNat))
  let path ← normalizeAbsolutePath maxPath (← fieldValue line "path=")
  let package ← copyTextZ (packageNameMaxBytes + 1) (← fieldValue line "package=")
  let packageVersion ← copyTextZ (versionMaxBytes + 1) (← fieldValue line "version=")
  let release ← copyTextZ (versionMaxBytes + 1) (← fieldValue line "release=")
  let packageLength ← parseU64 ((fieldValue line "length=").getD [])
  let packageDigest ← parseU32 ((fieldValue line "digest=").getD [])
  let manifestChecksum ← parseU32 ((fieldValue line "manifest=").getD [])
  let componentDigest ← parseU32 ((fieldValue line "component=").getD [])
  let activation ← InstallMode.parse ((fieldValue line "activation=").getD [])
  let priority ← Priority.parse ((fieldValue line "priority=").getD [])
  pure { order := order.toUInt8, path, package, packageVersion, release, packageLength, packageDigest, manifestChecksum,
         componentDigest, activation, priority }

structure ParseState where
  journal : BatchJournal := {}
  /-- The header lines that were seen, the nine `saw_` flags. -/
  seen : List String := []
  parsedPackages : Nat := 0

/-- A header line: refused the second time. -/
def ParseState.once (st : ParseState) (key : String) (journal : Option BatchJournal) : Option ParseState :=
  if st.seen.contains key then none else journal.map fun journal => { st with journal, seen := key :: st.seen }

/-- The header lines behind the first, in the order they are tried, and what each sets. -/
def headerSetters : List (String × (Bytes → BatchJournal → Option BatchJournal)) :=
  [ ("BATCH_GENERATION=", fun value j => (parseU64 value).map fun n => { j with batchGeneration := n }),
    ("JOURNAL_GENERATION=", fun value j => (parseU64 value).map fun n => { j with journalGeneration := n }),
    ("PHASE=", fun value j => (Phase.parse value).map fun phase => { j with phase }),
    ("SOURCE_RELEASE=", fun value j => (copyTextZ (versionMaxBytes + 1) value).map fun text => { j with sourceRelease := text }),
    ("TARGET_RELEASE=", fun value j => (copyTextZ (versionMaxBytes + 1) value).map fun text => { j with targetRelease := text }),
    ("PACKAGES=", fun value j => (parseU32 value).map fun n => { j with packageCount := n }),
    ("CURRENT_PACKAGE=", fun value j => (parseU32 value).map fun n => { j with currentPackage := n }),
    ("REASON=", fun value j => (copyTextZ (maxReason + 1) value).map fun text => { j with reason := text }) ]

def parseLine (st : ParseState) (raw : Bytes) : Option ParseState :=
  let line := trimLine raw
  if line.isEmpty then some st
  else if line = ascii "R4U_BATCH=1" then st.once "R4U_BATCH=1" (some st.journal)
  else
    match headerSetters.find? (fun setter => startsWith line (ascii setter.1)) with
    | some (key, set) => st.once key (set (line.drop (ascii key).length) st.journal)
    | none =>
      if startsWith line (ascii "PACKAGE;") then
        (parsePackageLine line st.parsedPackages).map fun entry =>
          { st with
            journal := { st.journal with packages := st.journal.packages.setIfInBounds st.parsedPackages entry }
            parsedPackages := st.parsedPackages + 1 }
      else none

def sawAll (seen : List String) : Bool :=
  seen.contains "R4U_BATCH=1" && headerSetters.all (fun setter => seen.contains setter.1)

/-- The text in front of the checksum line, when the line's number is the checksum of that text. -/
def parseChecksum (data : Bytes) : Option Bytes := do
  let start ← lastLineStart data "CHECKSUM="
  let stored ← parseU32 ((trimLine (data.drop start)).drop (ascii "CHECKSUM=").length)
  refuse (stored != checksum (data.take start))
  pure (data.take start)

def parseJournalInto (data : Bytes) (slot : UInt8) : Option BatchJournal := do
  refuse (decide (1 < slot) || data.isEmpty || decide (journalMax < data.length))
  let body ← parseChecksum data
  let st ← (body.splitOn 10).foldlM parseLine {}
  let journal := { st.journal with
    slot, valid := sawAll st.seen && st.parsedPackages == st.journal.packageCount.toNat }
  refuse (!journalValid journal)
  pure journal

end UpdateBatch
end R4
