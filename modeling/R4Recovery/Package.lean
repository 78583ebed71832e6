import R4Recovery.RecoveryState
import R4Recovery.SparseImage
/-!
# Package — what a release package has to hold

The manifests, the unpacked archive and the checks of `package.zig`.  The ZIP codec is a parameter; its entries come sorted
by name, without two names alike.  Left out is what can only stop the work: the pump between two steps, the first reading of
the manifest in `peek`, and the checks of the images themselves at the end of `prepare`.
-/
namespace R4
namespace Package

inductive Error where
  | archiveSize | payloadSize | packageFormat | incompatiblePackage | manifestValue | duplicatePath | unexpectedFile | missingFile
  | assetMismatch | unsafePath | managedBootPath | fileSetMismatch | fileSizeMismatch | hashMismatch | sourceImageSize
  | recoveryPairMismatch | codec | image
  deriving DecidableEq, Repr

inductive Kind where
  | r4os | recovery
  deriving DecidableEq, Repr

def maxArchiveBytes : Nat := 2 * 1024 * 1024 * 1024
def maxPayloadBytes : Nat := 4 * 1024 * 1024 * 1024
def maxSystemPayloadBytes : Nat := Installation.standardBytes + maxPayloadBytes
def maxPath : Nat := 255
def maxEntries : Nat := 4096

structure File where
  path : Bytes
  bytes : Nat
  sha256 : Bytes
  deriving DecidableEq

structure RecoveryManifest where
  schema : Nat
  product : Bytes
  architecture : Bytes
  recoveryVersion : Bytes
  recoveryKernelVersion : Bytes
  platformCommit : Bytes
  platformSha256 : Bytes
  runtimeFormat : Bytes
  logicalSectorBytes : Nat
  files : List File
  minimumRamBytes : Nat

structure SystemManifest where
  schema : Nat
  product : Bytes
  architecture : Bytes
  releaseVersion : Bytes
  kernelVersion : Bytes
  profile : Bytes
  asset : Bytes
  layout : Bytes
  recoveryVersion : Bytes
  recoveryPackage : Bytes
  bootFiles : List Bytes
  files : List File

/-! ## Values -/

/-- A loop whose turns see the elements in front of theirs. -/
def eachPrior {α : Type} (check : List α → α → Except Error Unit) (prior : List α) : List α → Except Error Unit
  | [] => .ok ()
  | x :: rest => do
    check prior x
    eachPrior check (prior ++ [x]) rest

/-- `parseComponent`, as far as it accepts. -/
def componentValid (value : Bytes) : Bool :=
  value != [] && !(decide (1 < value.length) && value.head? == some 48) && value.all isDigit &&
    (parseDigits value 0).any (fun n => decide (n < 2 ^ 32))

/-- `parseSemanticVersion`, as far as it accepts. -/
def semanticVersion (value : Bytes) : Bool :=
  value != [] && !value.any isBlank && (value.splitOn 46).length == 3 && (value.splitOn 46).all componentValid

def validVersion (value : Bytes) : Bool := decide (value.length ≤ 32) && semanticVersion value

def lowerHex (value : Bytes) (len : Nat) : Bool :=
  value.length == len && value.all (fun c => isDigit c || (97 ≤ c && c ≤ 102))

def partPortable (p : Bytes) : Bool :=
  p != [] && p != [46] && p != [46, 46] && p.getLast? != some 46 && p.getLast? != some 32 &&
    p.all (fun c => 32 ≤ c && c ≤ 126 && !((ascii "<>:\"\\|?*").contains c))

def portablePath (name : Bytes) : Bool :=
  name != [] && decide (name.length ≤ maxPath) && (name.splitOn 47).all partPortable

def hostSupplement (path release : Bytes) : Bool :=
  [ascii "CreateUSB.bat", ascii "CreateUSB.sh", ascii "CreateUSB.ps1", ascii "README.txt",
      ascii "qemu.conf"].contains path ||
    startsWith path (ascii "Tools/") || path == ascii "R4OS-SOURCES-" ++ release ++ ascii ".json"

/-! ## Manifests -/

def recoveryFileKnown (path : Bytes) : Bool :=
  path == ascii "recovery.elf" || path == ascii "runtime.img" || startsWith path (ascii "Legal/")

def recoveryFile (prior : List File) (file : File) : Except Error Unit := do
  ensure (portablePath file.path && lowerHex file.sha256 64 && decide (file.bytes ≤ maxPayloadBytes)) .manifestValue
  ensure (!prior.any (fun previous => eqlIgnoreCase file.path previous.path)) .duplicatePath
  ensure (recoveryFileKnown file.path) .unexpectedFile

def validateRecovery (m : RecoveryManifest) : Except Error Unit := do
  ensure (m.schema == 1 && m.product == ascii "r4os-recovery") .packageFormat
  ensure (m.architecture == ascii "x86_64" && m.runtimeFormat == ascii "fat32" && m.logicalSectorBytes == 512)
      .incompatiblePackage
  ensure (validVersion m.recoveryVersion && validVersion m.recoveryKernelVersion && lowerHex m.platformCommit 40 &&
    lowerHex m.platformSha256 64) .manifestValue
  ensure (m.minimumRamBytes != 0 && decide (m.minimumRamBytes ≤ 8 * 1024 * 1024 * 1024)) .manifestValue
  ensure (m.files != [] && decide (m.files.length < 4096)) .manifestValue
  eachPrior recoveryFile [] m.files
  ensure (m.files.any (fun f => f.path == ascii "recovery.elf") && m.files.any (fun f => f.path == ascii "runtime.img") &&
    m.files.any (fun f => startsWith f.path (ascii "Legal/"))) .missingFile

def bootFile (prior : List Bytes) (path : Bytes) : Except Error Unit := do
  ensure (portablePath path) .unsafePath
  ensure (!(path.splitOn 47).any (fun part => eqlIgnoreCase part (ascii "limine.conf"))) .managedBootPath
  ensure (!prior.any (eqlIgnoreCase path)) .duplicatePath

/-- The path of a BOOT file inside its volume. -/
def bootPath? (path : Bytes) : Option Bytes := if startsWith path (ascii "BOOT/") then some (path.drop 5) else none

def systemFile (m : SystemManifest) (file : File) : Except Error Unit := do
  ensure (portablePath file.path) .unsafePath
  if file.path == ascii "disk.img" || file.path == ascii "recovery.zip" || startsWith file.path (ascii "Legal/") then .ok ()
  else match bootPath? file.path with
    | some path => ensure (m.bootFiles.contains path) .managedBootPath
    | none => ensure (hostSupplement file.path m.releaseVersion) .unexpectedFile

def validateSystem (m : SystemManifest) : Except Error Unit := do
  ensure (m.schema == 1 && m.product == ascii "r4os") .packageFormat
  ensure (m.architecture == ascii "x86_64" && m.layout == ascii "r4os-gpt-1") .incompatiblePackage
  ensure (validVersion m.releaseVersion && validVersion m.kernelVersion && validVersion m.recoveryVersion) .manifestValue
  ensure (m.profile == ascii "slim" || m.profile == ascii "full") .incompatiblePackage
  ensure (m.recoveryPackage == ascii "recovery.zip") .manifestValue
  ensure (m.asset == ascii "R4OS-" ++ m.releaseVersion ++ ascii "-" ++ m.profile ++ ascii "-x86_64.zip") .assetMismatch
  ensure (m.bootFiles != [] && decide (m.bootFiles.length ≤ 32)) .manifestValue
  eachPrior bootFile [] m.bootFiles
  ensure (m.bootFiles.contains (ascii "boot/r4os.elf")) .missingFile
  eachPrior (fun _ => systemFile m) [] m.files
  ensure (m.files.any (fun f => f.path == ascii "disk.img") && m.files.any (fun f => f.path == ascii "recovery.zip") &&
    m.files.any (fun f => startsWith f.path (ascii "Legal/"))) .missingFile
  ensure (m.bootFiles.all (fun path => m.files.any (fun f => bootPath? f.path == some path))) .missingFile

/-! ## Archives -/

structure Entry where
  name : Bytes
  bytes : Nat
  directory : Bool
  deriving DecidableEq

/-- R4ZIP: the entries of an archive with the sum of their bytes, the bytes of an entry in a buffer of their number, and the
pieces of an entry that is streamed. -/
structure Codec where
  inspect : Bytes → Except Error (List Entry × Nat)
  unpack : Bytes → (entry : Entry) → Except Error { out : Bytes // out.length = entry.bytes }
  stream : Bytes → Entry → Except Error (List Bytes)

structure Archive where
  entries : List Entry
  contents : List Bytes
  disk : Option SparseImage.Image
  diskSha256 : Bytes
  manifest : Bytes

/-- What is unpacked of the entries so far. -/
structure Unpacked where
  contents : List Bytes := []
  disk : Option SparseImage.Image := none
  diskSha256 : Bytes := []
  ordinary : Nat := 0

def diskName : Bytes := ascii "disk.img"

def lookup (entries : List Entry) (contents : List Bytes) (disk : Option SparseImage.Image) (name : Bytes) : Option Bytes :=
  match entries.findIdx? (fun e => e.name == name) with
  | none => none
  | some i => if disk.isSome && name == diskName then none else contents[i]?

def Archive.get (a : Archive) (name : Bytes) : Option Bytes := lookup a.entries a.contents a.disk name

section Extract

variable (codec : Codec) (grants : Nat → Bool)

/-- The disk image of a system package, taken in pieces. -/
def takeDisk (input : Bytes) (entry : Entry) : Except Error (SparseImage.Image × Bytes) := do
  ensure (!entry.directory) .sourceImageSize
  ensure (Installation.sourceRanges entry.bytes).isOk .sourceImageSize
  match SparseImage.Image.init entry.bytes with
  | .error _ => .error .image
  | .ok image =>
    let pieces ← codec.stream input entry
    match SparseImage.ingest grants pieces image with
    | (.ok (), image) => .ok (image, Sha256.hash pieces.flatten)
    | (.error _, _) => .error .image

/-- One turn of the loop of `extract`. -/
def unpackEntry (kind : Kind) (input : Bytes) (u : Unpacked) (entry : Entry) : Except Error Unpacked :=
  if kind = .r4os ∧ entry.name = diskName then do
    let (image, hash) ← takeDisk codec grants input entry
    .ok { u with contents := u.contents ++ [[]], disk := some image, diskSha256 := hash }
  else do
    ensure (decide (entry.bytes ≤ maxPayloadBytes - u.ordinary)) .payloadSize
    let out ← codec.unpack input entry
    .ok { u with contents := u.contents ++ [out.val], ordinary := u.ordinary + entry.bytes }

def extract (input : Bytes) (kind : Kind) : Except Error Archive := do
  ensure (decide (22 ≤ input.length) && decide (input.length ≤ maxArchiveBytes)) .archiveSize
  let (entries, total) ← codec.inspect input
  ensure (entries != [] && decide (total ≤ if kind = .r4os then maxSystemPayloadBytes else maxPayloadBytes)) .payloadSize
  let u ← entries.foldlM (unpackEntry codec grants kind input) {}
  match lookup entries u.contents u.disk (ascii "manifest.json") with
  | none => .error .packageFormat
  | some manifest => .ok { entries, contents := u.contents, disk := u.disk, diskSha256 := u.diskSha256, manifest }

end Extract

def verifyFile (archive : Archive) (prior : List File) (file : File) : Except Error Unit := do
  ensure (portablePath file.path && !eqlIgnoreCase file.path (ascii "manifest.json") && lowerHex file.sha256 64)
      .manifestValue
  ensure (!prior.any (fun previous => eqlIgnoreCase file.path previous.path)) .duplicatePath
  match if file.path == diskName then archive.disk else none with
  | some disk => do
    ensure (file.bytes == disk.length) .fileSizeMismatch
    ensure (RecoveryState.bytesToHex archive.diskSha256 == file.sha256) .hashMismatch
  | none =>
    match archive.get file.path with
    | none => .error .missingFile
    | some bytes => do
      ensure (bytes.length == file.bytes) .fileSizeMismatch
      ensure (RecoveryState.bytesToHex (Sha256.hash bytes) == file.sha256) .hashMismatch

def verifyFiles (archive : Archive) (files : List File) : Except Error Unit := do
  ensure (files != [] && decide (files.length < maxEntries)) .manifestValue
  ensure ((archive.entries.countP (fun e => !e.directory)) == files.length + 1) .fileSetMismatch
  eachPrior (verifyFile archive) [] files

/-! ## Packages -/

section Prepare

variable (codec : Codec) (grants : Nat → Bool) (parseRecovery : Bytes → Except Error RecoveryManifest)
  (parseSystem : Bytes → Except Error SystemManifest)

def prepareRecovery (input : Bytes) : Except Error (Archive × RecoveryManifest) := do
  let archive ← extract codec grants input .recovery
  let manifest ← parseRecovery archive.manifest
  validateRecovery manifest
  verifyFiles archive manifest.files
  .ok (archive, manifest)

/-- A system package with the recovery package in it. -/
def prepareSystem (input : Bytes) : Except Error (Archive × SystemManifest × Archive × RecoveryManifest) := do
  let archive ← extract codec grants input .r4os
  let manifest ← parseSystem archive.manifest
  validateSystem manifest
  verifyFiles archive manifest.files
  match archive.get (ascii "recovery.zip") with
  | none => .error .missingFile
  | some recovery => do
    let (recoveryArchive, recoveryManifest) ← prepareRecovery codec grants parseRecovery recovery
    ensure (manifest.recoveryVersion == recoveryManifest.recoveryVersion) .recoveryPairMismatch
    .ok (archive, manifest, recoveryArchive, recoveryManifest)

end Prepare

end Package
end R4
