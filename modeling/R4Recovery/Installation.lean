import R4Recovery.GuidText
import R4Recovery.Json
import R4Recovery.Partition
import R4Recovery.PartitionTable
/-!
# Installation — the layout of an installation and its manifest

`storage_tools/installation.zig` lays out five partitions and writes the manifest; the kernel's `installation.zig` reads
the manifest and compares it with the partition table.  They share the five roles and nothing else.
-/
namespace R4

inductive Role where
  | biosboot | boot | system | recovery | data
  deriving DecidableEq, Repr

def Role.name : Role → Bytes
  | .biosboot => ascii "BIOSBOOT"
  | .boot => ascii "BOOT"
  | .system => ascii "SYSTEM"
  | .recovery => ascii "RECOVERY"
  | .data => ascii "DATA"

def Role.all : List Role := [.biosboot, .boot, .system, .recovery, .data]

/-- What each of the five roles has. -/
structure PerRole (α : Type) where
  biosboot : α
  boot : α
  system : α
  recovery : α
  data : α
  deriving DecidableEq

def PerRole.get {α : Type} (r : PerRole α) : Role → α
  | .biosboot => r.biosboot
  | .boot => r.boot
  | .system => r.system
  | .recovery => r.recovery
  | .data => r.data

def PerRole.toList {α : Type} (r : PerRole α) : List α := [r.biosboot, r.boot, r.system, r.recovery, r.data]

/-- A check that stops with an error. -/
def ensure {ε : Type} (ok : Bool) (e : ε) : Except ε Unit := if ok then .ok () else .error e

namespace Installation

open Gpt (Guid Entry Plan Name)

inductive Error where
  | geometry | invalidGuid | duplicateGuid | manifest | bootPath | duplicateBootPath | name
  | table (e : R4.Error)
  deriving DecidableEq

def systemMb : Nat := 16 * 1024
def recoveryMb : Nat := 5 * 1024
def standardBytes : Nat := 22 * 1024 * 1024 * 1024
def previousBytes : Nat := 16 * 1024 * 1024 * 1024
def legacyBytes : Nat := 2 * 1024 * 1024 * 1024
def minimumDataSectors : Nat := 16 * 2048 + 1

structure Range where
  first : Nat
  count : Nat
  deriving DecidableEq

/-- The three partitions in front stand at fixed places, the others behind one another. -/
def ranges (sectors sectorBytes systemSectors recoverySectors : Nat) : Except Error (PerRole Range) :=
  let recovery := 266240 + systemSectors
  let data := recovery + recoverySectors
  if sectorBytes ≠ 512 ∨ (2 ^ 64 - 1) / 512 < sectors ∨ sectors < data + minimumDataSectors + 33 then .error .geometry
  else .ok
    { biosboot := ⟨2048, 2048⟩
      boot := ⟨4096, 128 * 2048⟩
      system := ⟨266240, systemSectors⟩
      recovery := ⟨recovery, recoverySectors⟩
      data := ⟨data, sectors - 33 - data⟩ }

def sourceRanges (bytes : Nat) : Except Error (PerRole Range) :=
  if bytes = standardBytes then ranges (bytes / 512) 512 (systemMb * 2048) (recoveryMb * 2048)
  else if bytes = previousBytes then ranges (bytes / 512) 512 (10 * 1024 * 2048) (recoveryMb * 2048)
  else if bytes = legacyBytes then ranges (bytes / 512) 512 (1024 * 2048) (512 * 2048)
  else .error .geometry

structure Identifiers where
  installation : Guid
  disk : Guid
  partitions : PerRole Guid
  deriving DecidableEq

def Identifiers.toList (ids : Identifiers) : List Guid := ids.installation :: ids.disk :: ids.partitions.toList

/-- No GUID is zero or one of those seen before it. -/
def checkIds : List Guid → List Guid → Except Error Unit
  | _, [] => .ok ()
  | seen, id :: rest => do
    ensure (id != Guid.zero) .invalidGuid
    ensure (!seen.contains id) .duplicateGuid
    checkIds (seen ++ [id]) rest

def Identifiers.validate (ids : Identifiers) : Except Error Unit := checkIds [] ids.toList

structure Layout where
  sectors : Nat
  ids : Identifiers
  ranges : PerRole Range
  deriving DecidableEq

def Layout.prepare (sectors sectorBytes : Nat) (ids : Identifiers) : Except Error Layout := do
  ids.validate
  let ranges ← Installation.ranges sectors sectorBytes (systemMb * 2048) (recoveryMb * 2048)
  pure { sectors, ids, ranges }

def Layout.prepareSource (bytes : Nat) (ids : Identifiers) : Except Error Layout := do
  ids.validate
  let ranges ← sourceRanges bytes
  pure { sectors := bytes / 512, ids, ranges }

def biosType : Guid := (Guid.parse (ascii "21686148-6449-6e6f-744e-656564454649")).getD Guid.zero
def espType : Guid := (Guid.parse (ascii "c12a7328-f81f-11d2-ba4b-00a0c93ec93b")).getD Guid.zero
def basicType : Guid := (Guid.parse (ascii "ebd0a0a2-b9e5-4433-87c0-68b6b72699c7")).getD Guid.zero

def typeGuid : Role → Guid
  | .biosboot => biosType
  | .boot => espType
  | _ => basicType

def asciiName (name : Bytes) : Except Error Name :=
  if 36 < name.length ∨ name.any (fun c => decide (c < 0x20) || decide (0x7e < c)) then .error .name
  else .ok (Vector.ofFn (fun i => (name.getD i.val 0).toUInt16))

def liftTable {α : Type} : Except R4.Error α → Except Error α
  | .ok a => .ok a
  | .error e => .error (.table e)

/-- The partition of a role is added to the table. -/
def Layout.addRole (self : Layout) (table : Plan) (role : Role) : Except Error Plan := do
  let name ← asciiName role.name
  liftTable (table.add
    { present := true, first := (self.ranges.get role).first, count := (self.ranges.get role).count, typeGuid := typeGuid role
      uniqueGuid := self.ids.partitions.get role, name })

/-- The layout a table of these sectors is bound to: the two historical sizes keep their source layout. -/
def Layout.expected (self : Layout) : Except Error Layout :=
  if self.sectors = previousBytes / 512 ∨ self.sectors = legacyBytes / 512 then prepareSource (self.sectors * 512) self.ids
  else prepare self.sectors 512 self.ids

def Layout.bind (self : Layout) (table : Plan) : Except Error Plan := do
  let expected ← self.expected
  ensure (table.sectors == self.sectors && table.kind == .none && table.blank && self == expected) .geometry
  let table ← liftTable (table.initializeGpt self.ids.disk)
  Role.all.foldlM self.addRole table

/-! ## Versions and paths -/

/-- `std.fmt.parseUnsigned` to base ten: underscores between digits are passed over. -/
def unsignedFrom : Bytes → Nat → Option Nat
  | [], n => some n
  | c :: rest, n =>
    if c = 95 then unsignedFrom rest n
    else if isDigit c then
      if n * 10 + (c.toNat - 48) < 2 ^ 64 then unsignedFrom rest (n * 10 + (c.toNat - 48)) else none
    else none

def parseUnsigned (text : Bytes) : Option Nat :=
  if text.isEmpty ∨ text.head? = some 95 ∨ text.getLast? = some 95 then none else unsignedFrom text 0

structure SemanticVersion where
  major : Nat
  minor : Nat
  patch : Nat
  pre : Option Bytes
  build : Option Bytes

/-- A component has no leading zero. -/
def parseNum (text : Bytes) : Option Nat :=
  if 1 < text.length ∧ text.head? = some 48 then none else parseUnsigned text

def isAlphanumeric (c : UInt8) : Bool :=
  isDigit c || (decide (65 ≤ c) && decide (c ≤ 90)) || (decide (97 ≤ c) && decide (c ≤ 122))

def identifierOk (id : Bytes) : Bool := !id.isEmpty && id.all (fun c => isAlphanumeric c || c == 45)

/-- `std.SemanticVersion.parse`. -/
def SemanticVersion.parse (text : Bytes) : Option SemanticVersion := do
  let required := text.takeWhile (fun c => c != 45 && c != 43)
  let extra := text.dropWhile (fun c => c != 45 && c != 43)
  match required.splitOn 46 with
  | [major, minor, patch] => do
    let major ← parseNum major
    let minor ← parseNum minor
    let patch ← parseNum patch
    match extra with
    | [] => some { major, minor, patch, pre := none, build := none }
    | 45 :: rest => do
      let pre := rest.takeWhile (· != 43)
      let build := if rest.contains 43 then some ((rest.dropWhile (· != 43)).drop 1) else none
      if (pre.splitOn 46).all (fun id => identifierOk id && (!id.all isDigit || (parseNum id).isSome)) &&
          build.all (fun b => (b.splitOn 46).all identifierOk)
      then some { major, minor, patch, pre := some pre, build } else none
    | _ :: rest =>
      if (rest.splitOn 46).all identifierOk then some { major, minor, patch, pre := none, build := some rest } else none
  | _ => none

def version (text : Bytes) : Bool :=
  if text.isEmpty ∨ 63 < text.length then false
  else match SemanticVersion.parse text with
    | none => false
    | some parsed => parsed.pre.isNone && parsed.build.isNone

/-- What one component of a path has to be. -/
def componentOk (part : Bytes) : Bool :=
  !(part.isEmpty || part == [46] || part == [46, 46] || eqlIgnoreCase part (ascii "limine.conf")) &&
  !(part.getLast? == some 46 || part.getLast? == some 32) &&
  part.all (fun c => !(decide (c < 32) || decide (126 < c) || (ascii "<>:\"\\|?*").contains c))

def bootPath (path : Bytes) : Bool :=
  !(path.isEmpty || decide (255 < path.length)) && (path.splitOn 47).all componentOk

/-! ## The manifest -/

/-- The boot files are paths, no two of them equal up to case. -/
def checkFiles : List Bytes → List Bytes → Except Error Unit
  | _, [] => .ok ()
  | seen, file :: rest => do
    ensure (bootPath file) .bootPath
    ensure (seen.all (fun other => !eqlIgnoreCase file other)) .duplicateBootPath
    checkFiles (seen ++ [file]) rest

def number (n : Nat) : Json.Value := .numberString (decimal n)

/-- A byte slice is written as a string where it is UTF-8. -/
def slice (text : Bytes) : Json.Value :=
  if utf8ValidateSlice text then .string text else .array (text.map (fun c => number c.toNat))

def partValue (partitionGuid typeGuid : Guid) (range : Range) : Json.Value :=
  .object
    [(ascii "partitionGuid", slice partitionGuid.format), (ascii "typeGuid", slice typeGuid.format),
      (ascii "firstLba", number range.first), (ascii "sectorCount", number range.count)]

def Layout.rolePart (self : Layout) (role : Role) : Json.Value :=
  partValue (self.ids.partitions.get role) (typeGuid role) (self.ranges.get role)

def Layout.value (self : Layout) (release kernel : Bytes) (files : List Bytes) : Json.Value :=
  .object
    [(ascii "schema", number 1), (ascii "logicalSectorBytes", number 512),
      (ascii "installationId", slice self.ids.installation.format), (ascii "diskGuid", slice self.ids.disk.format),
      (ascii "partitions", .object (Role.all.map (fun role => (role.name, self.rolePart role)))),
      (ascii "bootFiles", .array (files.map slice)), (ascii "releaseVersion", slice release),
      (ascii "kernelVersion", slice kernel)]

def Layout.manifest (self : Layout) (release kernel : Bytes) (files : List Bytes) : Except Error Bytes := do
  ensure (version release && version kernel && !files.isEmpty && decide (files.length ≤ 32)) .manifest
  checkFiles [] files
  pure (Json.write 0 (self.value release kernel files))

end Installation

/-! ## The kernel -/

namespace Kernel

open Gpt (Guid)
open Json (Value)

def maxManifestBytes : Nat := 16384

structure Part where
  partitionGuid : Guid := Guid.zero
  typeGuid : Guid := Guid.zero
  firstLba : Nat := 0
  sectorCount : Nat := 0
  deriving DecidableEq

structure Manifest where
  installationId : Guid := Guid.zero
  diskGuid : Guid := Guid.zero
  partitions : PerRole Part

inductive ManifestError where
  | manifestSize | json | expectedObject | missingField | expectedString | invalidGuid | expectedInteger | integerOverflow
  | unsupportedSchema | unsupportedSectorSize | partitionRoles | partitionRange | partitionType | duplicatePartitionGuid
  | partitionOverlap | bootFiles | bootPath | duplicateBootPath | version
  deriving DecidableEq

def field (value : Value) (key : Bytes) : Except ManifestError Value :=
  match value with
  | .object fields =>
    match fields.find? (fun f => f.1 == key) with
    | some f => .ok f.2
    | none => .error .missingField
  | _ => .error .expectedObject

def string (value : Value) : Except ManifestError Bytes :=
  match value with
  | .string text => .ok text
  | _ => .error .expectedString

def uuid (value : Value) : Except ManifestError Guid := do
  let text ← string value
  match Guid.kernelParse text with
  | none => .error .invalidGuid
  | some result => do
    ensure (result != Guid.zero) .invalidGuid
    pure result

def uint (value : Value) : Except ManifestError Nat :=
  match value with
  | .numberString text =>
    if text.isEmpty ∨ !text.all isDigit then .error .expectedInteger
    else match parseDigits text 0 with
      | some n => .ok n
      | none => .error .integerOverflow
  | _ => .error .expectedInteger

/-- The digits since the last dot and the dots so far. -/
def versionFrom : Bytes → Nat → Nat → Bool
  | [], dots, digits => dots == 2 && digits != 0
  | c :: rest, dots, digits =>
    if c = 46 then (if digits = 0 then false else versionFrom rest (dots + 1) 0)
    else if isDigit c then versionFrom rest dots (digits + 1)
    else false

def validVersion (text : Bytes) : Bool := if text.isEmpty ∨ 63 < text.length then false else versionFrom text 0 0

def validBootPath (path : Bytes) : Bool :=
  !(path.isEmpty || decide (255 < path.length)) &&
  (path.splitOn 47).all (fun part => !(part.isEmpty || part == [46] || part == [46, 46]) &&
    part.all (fun c => !(decide (c < 32) || c == 58 || c == 92)))

def biosBootGuid : Guid := (Guid.kernelParse (ascii "21686148-6449-6e6f-744e-656564454649")).getD Guid.zero
def espGuid : Guid := (Guid.kernelParse (ascii "c12a7328-f81f-11d2-ba4b-00a0c93ec93b")).getD Guid.zero
def basicGuid : Guid := (Guid.kernelParse (ascii "ebd0a0a2-b9e5-4433-87c0-68b6b72699c7")).getD Guid.zero

def expectedType : Role → Guid
  | .biosboot => biosBootGuid
  | .boot => espGuid
  | _ => basicGuid

def parsePart (parts : Value) (role : Role) : Except ManifestError Part := do
  let obj ← field parts role.name
  let partitionGuid ← uuid (← field obj (ascii "partitionGuid"))
  let typeGuid ← uuid (← field obj (ascii "typeGuid"))
  let firstLba ← uint (← field obj (ascii "firstLba"))
  let sectorCount ← uint (← field obj (ascii "sectorCount"))
  ensure (!(firstLba == 0 || sectorCount == 0 || decide (2 ^ 64 - 1 - firstLba < sectorCount))) .partitionRange
  ensure (typeGuid == expectedType role) .partitionType
  pure { partitionGuid, typeGuid, firstLba, sectorCount }

/-- No partition has the GUID of one before it or overlaps it. -/
def checkParts : List Part → List Part → Except ManifestError Unit
  | _, [] => .ok ()
  | seen, p :: rest => do
    seen.forM (fun other => do
      ensure (p.partitionGuid != other.partitionGuid) .duplicatePartitionGuid
      ensure (!(decide (p.firstLba < other.firstLba + other.sectorCount) &&
        decide (other.firstLba < p.firstLba + p.sectorCount))) .partitionOverlap)
    checkParts (seen ++ [p]) rest

def checkBootFiles : List Value → List Value → Except ManifestError Unit
  | _, [] => .ok ()
  | seen, value :: rest => do
    let path ← string value
    ensure (validBootPath path) .bootPath
    seen.forM (fun other => do
      let text ← string other
      ensure (!eqlIgnoreCase path text) .duplicateBootPath)
    checkBootFiles (seen ++ [value]) rest

def fieldCount : Value → Option Nat
  | .object fields => some fields.length
  | _ => none

def arrayItems : Value → Option (List Value)
  | .array items => some items
  | _ => none

/-- The manifest in a document. -/
def readManifest (root : Value) : Except ManifestError Manifest := do
  ensure ((← uint (← field root (ascii "schema"))) == 1) .unsupportedSchema
  ensure ((← uint (← field root (ascii "logicalSectorBytes"))) == 512) .unsupportedSectorSize
  let installationId ← uuid (← field root (ascii "installationId"))
  let diskGuid ← uuid (← field root (ascii "diskGuid"))
  let parts ← field root (ascii "partitions")
  ensure (fieldCount parts == some 5) .partitionRoles
  let biosboot ← parsePart parts .biosboot
  let boot ← parsePart parts .boot
  let system ← parsePart parts .system
  let recovery ← parsePart parts .recovery
  let data ← parsePart parts .data
  let partitions : PerRole Part := { biosboot, boot, system, recovery, data }
  checkParts [] partitions.toList
  let files ← field root (ascii "bootFiles")
  match arrayItems files with
  | none => .error .bootFiles
  | some items => do
    ensure (!items.isEmpty && decide (items.length ≤ 64)) .bootFiles
    checkBootFiles [] items
    let release ← string (← field root (ascii "releaseVersion"))
    ensure (validVersion release) .version
    let kernel ← string (← field root (ascii "kernelVersion"))
    ensure (validVersion kernel) .version
    pure { installationId, diskGuid, partitions }

def parseManifest (input : Bytes) : Except ManifestError Manifest := do
  ensure (!input.isEmpty && decide (input.length ≤ maxManifestBytes)) .manifestSize
  let text := if startsWith input [0xef, 0xbb, 0xbf] then input.drop 3 else input
  match Json.parse text with
  | none => .error .json
  | some root => readManifest root

/-- The table has the partition, and no other with its GUID. -/
def partMatches (table : Table) (part : Part) : Bool :=
  (table.items.filter (fun p => part.partitionGuid == p.uniqueGuid)).all (fun p =>
    part.typeGuid == p.typeGuid && part.firstLba == p.firstLba && part.sectorCount == p.sectorCount) &&
  table.items.any (fun p => part.partitionGuid == p.uniqueGuid)

def Manifest.matches (manifest : Manifest) (table : Table) (bootGuid : Guid) : Bool :=
  table.valid && table.kind == .gpt && manifest.diskGuid == table.diskGuid &&
  manifest.partitions.boot.partitionGuid == bootGuid && manifest.partitions.toList.all (partMatches table)

end Kernel
end R4
