import R4Recovery.AtomicUpdate
import R4Recovery.Buffer
/-!
# Cache — the download cache's ZIP transaction

`cache.zig`: a downloaded archive waits under PART, a record of what is to replace what is staged under TMP and
published under TXN, the checked transition puts the archive under ZIP and the old one under BAK, and BAK and TXN are
deleted.  A run stops where the machine stops: a call or a pump that fails is a run cut there.
-/
namespace R4
namespace Cache

open AtomicUpdate (File Dir)

inductive Kind where
  | r4os | recovery
  deriving DecidableEq, Repr

/-- `@intFromEnum`. -/
def Kind.byte : Kind → UInt8
  | .r4os => 0
  | .recovery => 1

def maxArchiveBytes : Nat := 2 * 1024 * 1024 * 1024

structure Fingerprint where
  bytes : Nat
  checksum : UInt32
  sha256 : Bytes
  deriving DecidableEq

structure Record where
  kind : Kind
  new : Fingerprint
  old : Option Fingerprint
  deriving DecidableEq

/-- The errors of the cache: CacheConflict, CacheJournal, CacheIo. -/
inductive Error where
  | conflict | journal | io
  deriving DecidableEq, Repr

def Record.size : Nat := 160

def putFingerprint (value : Fingerprint) : Bytes :=
  leBytes 8 value.bytes ++ leBytes 4 value.checksum.toNat ++ zeros 4 ++ value.sha256

def getFingerprint (bytes : Bytes) : Fingerprint :=
  { bytes := leNat (slice bytes 0 8)
    checksum := UInt32.ofNat (leNat (slice bytes 8 4))
    sha256 := slice bytes 16 32 }

/-- What the record's digest is over. -/
def Record.body (r : Record) : Bytes :=
  ascii "R4CACHE1" ++ [r.kind.byte, if r.old.isSome then 1 else 0] ++ zeros 6 ++ putFingerprint r.new ++
    (r.old.elim (zeros 48) putFingerprint) ++ zeros 16

section Hash

variable (sha : Bytes → Bytes)

def Record.encode (r : Record) : Bytes := r.body ++ sha r.body

def Record.decode (bytes : Bytes) (kind : Kind) : Except Error Record :=
  if bytes.length ≠ Record.size ∨ slice bytes 0 8 ≠ ascii "R4CACHE1" ∨ bytes.getD 8 0 ≠ kind.byte ∨ bytes.getD 9 0 > 1 then
    .error .journal
  else if sha (slice bytes 0 128) ≠ slice bytes 128 32 then .error .journal
  else
    let value : Record :=
      { kind := kind
        new := getFingerprint (slice bytes 16 48)
        old := if bytes.getD 9 0 = 1 then some (getFingerprint (slice bytes 64 48)) else none }
    if value.new.bytes < 22 ∨ maxArchiveBytes < value.new.bytes ∨ value.old.any (fun old => maxArchiveBytes < old.bytes) then
      .error .journal
    else if value.encode sha ≠ bytes then .error .journal
    else .ok value

/-! ## The files -/

/-- The names of a channel's transaction. -/
inductive Slot where
  | zip | part | backup | journal | journalStage | journalBackup
  deriving DecidableEq, Repr

/-- `validateShortName83` of the names: `.PART` has four letters. -/
def short (s : Slot) : Bool := s != .part

abbrev Act (α : Type) : Type := Crashing (Dir Slot) Error α

def File.fingerprint (f : File) : Fingerprint :=
  { bytes := f.size, checksum := f.checksum, sha256 := sha f.content }

def fingerprintOf (d : Dir Slot) (path : Slot) : Except Error (Option Fingerprint) :=
  match d path with
  | none => .ok none
  | some f => if maxArchiveBytes < f.size then .error .conflict else .ok (some (File.fingerprint sha f))

def fingerprint (path : Slot) : Act (Option Fingerprint) := Crashing.read (fun d => fingerprintOf sha d path)

/-- `fileDeleteIfMatch`. -/
def remove (path : Slot) (size : Nat) (checksum : UInt32) : Act Unit := fun d =>
  match d path with
  | none => ([], .ok (), d)
  | some f =>
    if f.size = size ∧ f.checksum = checksum then ([d.set path none], .ok (), d.set path none)
    else ([], .error .conflict, d)

/-- `fileDelete` of a file that is there. -/
def fileDelete (path : Slot) : Act Unit := Crashing.change (fun d => d.set path none)

/-- `if (try self.info(path) != null) return error.CacheConflict`. -/
def expectAbsent (path : Slot) : Act Unit :=
  Crashing.read (fun d => if (d path).isSome then .error .conflict else .ok ())

def removePrivatePart : Act Unit := fun d =>
  match d .part with
  | none => ([], .ok (), d)
  | some part =>
    if (d .zip).any (fun zip => part.cluster != 0 && part.cluster == zip.cluster) then ([], .error .conflict, d)
    else fileDelete .part d

variable (kind : Kind)

def readRecord (d : Dir Slot) (path : Slot) : Except Error (Option Record) :=
  match d path with
  | none => .ok none
  | some f => if f.size ≠ Record.size then .error .journal else (Record.decode sha f.content kind).map some

variable (now : Nat)

/-- What `publishJournal` asks of the checked transition. -/
def Record.journalSpec (record : Record) : AtomicUpdate.Spec :=
  { targetExisted := false
    oldKnown := false
    newSize := (record.encode sha).length
    newChecksum := Journal.checksum (record.encode sha) }

def publishJournal (record : Record) : Act Unit :=
  Crashing.mapError (fun _ => .journal)
    (AtomicUpdate.transition short now .journal .journalStage .journalBackup .forward (record.journalSpec sha))

/-- What `finish` asks of the checked transition. -/
def Record.spec (record : Record) : AtomicUpdate.Spec :=
  { longStage := true
    targetExisted := record.old.isSome
    oldKnown := record.old.isSome
    newSize := record.new.bytes
    newChecksum := record.new.checksum
    oldSize := (record.old.map (·.bytes)).getD 0
    oldChecksum := (record.old.map (·.checksum)).getD 0 }

def publishZip (record : Record) : Act Unit :=
  Crashing.mapError (fun e => if e = .conflict then .conflict else .io)
    (AtomicUpdate.transition short now .zip .part .backup .forward record.spec)

def removeBackup (old : Option Fingerprint) : Act Unit :=
  match old with
  | none => pure ()
  | some old => remove .backup old.bytes old.checksum

/-- The end of `finish`: the new ZIP is there and PART is gone, so the backup and the record go. -/
def settle (record : Record) : Act Unit := do
  let after ← fingerprint sha .zip
  Crashing.refuse (after != some record.new) .conflict
  expectAbsent .part
  removeBackup record.old
  remove .journal (record.encode sha).length (Journal.checksum (record.encode sha))

def finish (record : Record) : Act Unit := do
  let current ← fingerprint sha .zip
  let staged ← fingerprint sha .part
  let backup ← fingerprint sha .backup
  let isNew := current == some record.new
  Crashing.refuse (backup.isSome && backup != record.old) .conflict
  Crashing.unlessDone (isNew && staged.isNone) (do
    Crashing.refuse (staged != some record.new) .conflict
    Crashing.refuse (!isNew && current != record.old) .conflict
    publishZip now record)
  settle sha record

/-- The record under TMP where none is published: a partial one is discarded with the PART. -/
def stagedRecord : Act (Option Record) := do
  let r ← Crashing.read (fun d => .ok (readRecord sha kind d .journalStage))
  match r with
  | .ok record => pure record
  | .error .journal => do
    removePrivatePart
    fileDelete .journalStage
    pure none
  | .error e => Crashing.fail e

def activeRecord : Act (Option Record) := do
  let record ← Crashing.read (fun d => readRecord sha kind d .journal)
  match record with
  | some value => pure (some value)
  | none => do
    expectAbsent .backup
    stagedRecord sha kind

def recover : Act Unit := do
  expectAbsent .journalBackup
  let record ← activeRecord sha kind
  match record with
  | none => pure ()
  | some value => do
    publishJournal sha now value
    finish sha now value

/-- A file of these bytes that a stream wrote. -/
def written (content : Bytes) (cluster now : Nat) : File :=
  { content := content
    cluster := if content = [] then 0 else cluster + 2
    created := now
    modified := now
    placed := by by_cases h : content = [] <;> simp [h] }

/-- What a crash can leave of a stream that is not finished: bytes that are no record. -/
def Torn : Type := { content : Bytes // Record.decode sha content kind = .error .journal }

/-- The stream that writes TMP: it may be seen with the torn contents before it has the record. -/
def writeStage (torn : List (Torn sha kind)) (cluster : Nat) (record : Record) : Act Unit := do
  Crashing.read (fun d => if (d .journalStage).isSome then .error .io else .ok ())
  Crashing.changeThrough (torn.map (fun c d => d.set .journalStage (some (written c.1 cluster now))))
    (fun d => d.set .journalStage (some (written (record.encode sha) cluster now)))

def activate (torn : List (Torn sha kind)) (cluster : Nat) (validated : Fingerprint) : Act Unit := do
  let actual ← fingerprint sha .part
  Crashing.refuse (actual != some validated) .conflict
  let old ← fingerprint sha .zip
  if old = some validated then removePrivatePart
  else do
    let record : Record := { kind := kind, new := validated, old := old }
    writeStage sha kind now torn cluster record
    publishJournal sha now record
    finish sha now record

end Hash
end Cache
end R4
