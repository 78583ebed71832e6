import R4Recovery.FatDirectory
import R4Recovery.FatTable
/-!
# FatCursor — the three scanners of a FAT directory

`readDirectoryEntryStatus`, `nextDirectoryEntry` and `findEntryStatus` of `fat32.zig` on the sectors of a volume, any of
which may fail to be read.  The counters are left out, and so are the pauses of a scan that cooperates and what a
refused slot leaves of the long-name state.
-/
namespace R4
namespace Fat32

open Fat (Slot LfnState attrLongName attrDirectory maxLfnEntries nameMax nameUnitsMax makeEntry validInputName fatValueIsEoc
  shortNameToBuffer dirChainMaxClusters)

namespace Volume

def firstDataSector (v : Volume) : Nat := v.partitionLba + v.reservedSectors + v.fatCount * v.sectorsPerFat

def clusterLba (v : Volume) (cluster : Nat) : Nat := v.firstDataSector + (cluster - 2) * v.sectorsPerCluster

def validDataCluster (v : Volume) (cluster : Nat) : Bool :=
  let metadata := v.reservedSectors + v.fatCount * v.sectorsPerFat
  let dataClusters := (v.totalSectors - metadata) / v.sectorsPerCluster
  let fatEntries := v.sectorsPerFat * sectorSize / 4
  !(decide (cluster < 2) || decide (reservedStart ≤ cluster) || v.sectorsPerCluster == 0) &&
    !decide (v.totalSectors ≤ metadata) && decide (cluster < min (dataClusters + 2) fatEntries) &&
    decide (v.partitionLba + (metadata + (cluster - 1) * v.sectorsPerCluster) ≤ 2 ^ 32)

end Volume

/-- An entry and where its slot is. -/
structure Located where
  entry : Fat.Entry
  directoryLba : Nat := 0
  directoryOffset : Nat := 0

inductive LookupStatus where
  | found (e : Located) | notFound | io

section Scanners

variable (v : Volume) (read : Nat → Option Bytes)

def fatEntry? (cluster : Nat) : Option Nat :=
  (read (v.fatLba cluster)).map (fun sector => leNat (slice sector (Volume.fatOffset cluster) 4) &&& 0x0FFFFFFF)

/-! ## Chains -/

structure DirChainIterator where
  cluster : Nat
  steps : Nat := 0
  fatError : Bool := false

def DirChainIterator.init (start : Nat) : DirChainIterator := { cluster := start, fatError := !v.validDataCluster start }

/-- The next cluster; the entry behind it is read and checked first, and the error is told together with the cluster. -/
def DirChainIterator.next (it : DirChainIterator) : Option Nat × DirChainIterator :=
  if it.fatError then (none, it)
  else if fatValueIsEoc it.cluster then (none, it)
  else if !v.validDataCluster it.cluster then (none, { it with fatError := true })
  else if dirChainMaxClusters ≤ it.steps then (none, { it with fatError := true })
  else
    match fatEntry? v read it.cluster with
    | none => (some it.cluster, { cluster := eoc, steps := it.steps + 1, fatError := true })
    | some next =>
      if fatValueIsEoc next then (some it.cluster, { cluster := eoc, steps := it.steps + 1 })
      else if v.validDataCluster next then (some it.cluster, { cluster := next, steps := it.steps + 1 })
      else (some it.cluster, { cluster := eoc, steps := it.steps + 1, fatError := true })

/-- What comes of a slot, of a sector or of a cluster. -/
inductive ClusterStep (σ : Type) where
  | found (e : Located) | endDirectory | io
  | next (s : σ)

section Loops

variable {σ : Type} (f : Nat → Nat → Slot → σ → ClusterStep σ)

def scanSlots (lba : Nat) (sector : Bytes) : List Nat → σ → ClusterStep σ
  | [], s => .next s
  | off :: rest, s =>
    match f lba off (slice sector off 32) s with
    | .next s => scanSlots lba sector rest s
    | .found e => .found e
    | .endDirectory => .endDirectory
    | .io => .io

/-- Where the slots of a sector are. -/
def slotOffsets : List Nat := (List.range 16).map (32 * ·)

def scanSectors (lba : Nat) : List Nat → σ → ClusterStep σ
  | [], s => .next s
  | i :: rest, s =>
    match read (lba + i) with
    | none => .io
    | some sector =>
      match scanSlots f (lba + i) sector slotOffsets s with
      | .next s => scanSectors lba rest s
      | .found e => .found e
      | .endDirectory => .endDirectory
      | .io => .io

/-- A scan along a chain; `none` where `fuel` does not suffice. -/
def scanChain (active : σ → Bool) : Nat → DirChainIterator → σ → Option LookupStatus
  | 0, _, _ => none
  | fuel + 1, it, s =>
    match it.next v read with
    | (none, it) => some (if it.fatError || active s then .io else .notFound)
    | (some cluster, it) =>
      if it.fatError then some .io
      else match scanSectors read f (v.clusterLba cluster) (List.range v.sectorsPerCluster) s with
        | .next s => scanChain active fuel it s
        | .found e => some (.found e)
        | .endDirectory => some .notFound
        | .io => some .io

end Loops

/-! ## Entries by their number -/

/-- What a scanner that lists entries makes of a slot. -/
inductive SlotStep where
  | stop | bad
  | pass (s : LfnState)
  | entry (e : Located)

/-- The rules of `readDirectoryEntrySectorRangeStatus` and `nextDirectoryEntry`. -/
def enumSlot (lba off : Nat) (raw : Slot) (s : LfnState) : SlotStep :=
  if raw.first = 0 then .stop
  else if raw.first = 0xE5 then .pass {}
  else if raw.attr = attrLongName then
    match s.consume raw with
    | none => .bad
    | some s => .pass s
  else if raw.first = 46 ∨ raw.attr &&& 0x08 ≠ 0 then if s.active then .bad else .pass s
  else if s.active && !s.completeFor raw then .bad
  else .entry { entry := makeEntry raw (s.units.take s.len), directoryLba := lba, directoryOffset := off }

/-- A slot while the entry of a number is looked for; its name goes to a buffer of `room` bytes. -/
def readSlot (wanted room lba off : Nat) (raw : Slot) : Nat × LfnState → ClusterStep (Nat × LfnState)
  | (seen, s) =>
    match enumSlot lba off raw s with
    | .stop => .endDirectory
    | .bad => .io
    | .pass s => .next (seen, s)
    | .entry e =>
      if seen = wanted then if room < e.entry.name.length + 1 then .io else .found e
      else .next (seen + 1, {})

def dotEntry (start index : Nat) : Located where
  entry :=
    { name := List.replicate (index + 1) 46, attr := attrDirectory, firstCluster := start, size := 0, createdTime := 0
      createdDate := 0, accessDate := 0, modifiedTime := 0, modifiedDate := 0 }

def readDirectoryEntryStatus (start index room : Nat) : Option LookupStatus :=
  if index < 2 then some (if room < 3 then .io else .found (dotEntry start index))
  else scanChain v read (readSlot (index - 2) room) (fun s => s.2.active) (dirChainMaxClusters + 1)
    (DirChainIterator.init v start) (0, {})

/-! ## Entries by their name -/

def entryClusterValid (e : Fat.Entry) : Bool :=
  if e.isDir then v.validDataCluster e.firstCluster
  else if e.firstCluster = 0 then e.size == 0
  else v.validDataCluster e.firstCluster

/-- The rules of `findEntryInClusterStatus`. -/
def findSlot (name : Bytes) (lba off : Nat) (raw : Slot) (s : LfnState) : ClusterStep LfnState :=
  if raw.first = 0 then .endDirectory
  else if raw.first = 0xE5 then .next {}
  else if raw.attr = attrLongName then
    match s.consume raw with
    | none => .io
    | some s => .next s
  else if raw.attr &&& attrLongName = attrLongName then .io
  else if raw.first = 46 ∨ raw.attr &&& 0x08 ≠ 0 then if s.active then .io else .next s
  else if s.active && !s.completeFor raw then .io
  else
    let e : Located := { entry := makeEntry raw s.name, directoryLba := lba, directoryOffset := off }
    if !entryClusterValid v e.entry then .io
    else if eqlIgnoreCase e.entry.name name || eqlIgnoreCase (shortNameToBuffer (raw.take 11)) name then .found e
    else .next {}

def findEntryStatus (start : Nat) (name : Bytes) : Option LookupStatus :=
  if !validInputName name then some .io
  else scanChain v read (findSlot v name) (fun s => s.active) (dirChainMaxClusters + 1) (DirChainIterator.init v start) {}

/-! ## The cursor -/

structure DirectoryCursor where
  cluster : Nat := 0
  successor : Nat := 0
  steps : Nat := 0
  offset : Nat := 0
  state : Nat := 0
  lfnLen : Nat := 0
  lfnActive : Nat := 0
  lfnTotal : Nat := 0
  lfnExpected : Nat := 0
  lfnChecksum : UInt8 := 0
  units : List Nat := List.replicate nameUnitsMax 0

def DirectoryCursor.lfn (c : DirectoryCursor) : LfnState where
  units := c.units
  len := c.lfnLen
  active := c.lfnActive != 0
  total := c.lfnTotal
  expected := c.lfnExpected
  checksum := c.lfnChecksum

def DirectoryCursor.save (c : DirectoryCursor) (s : LfnState) : DirectoryCursor :=
  { c with
    units := s.units, lfnLen := s.len, lfnActive := s.active.toNat, lfnTotal := s.total, lfnExpected := s.expected
    lfnChecksum := s.checksum }

inductive Next where
  | found (e : Located) | notFound | again | io

/-- What the head of the loop comes to: a result, or the sector with the next slot. -/
inductive Enter where
  | stop (result : Next) (c : DirectoryCursor)
  | sector (c : DirectoryCursor) (lba : Nat) (bytes : Bytes)

def enterSector (c : DirectoryCursor) : Enter :=
  let lba := v.clusterLba c.cluster + c.offset / sectorSize
  match read lba with
  | none => .stop .io c
  | some bytes => .sector c lba bytes

/-- The head of the outer loop. -/
def enter (c : DirectoryCursor) (active : Bool) : Enter :=
  let clusterBytes := v.sectorsPerCluster * sectorSize
  let c := if c.offset = clusterBytes ∧ clusterBytes ≠ 0 then { c with cluster := c.successor, offset := 0 } else c
  if fatValueIsEoc c.cluster then if active then .stop .io c else .stop .notFound { c with state := 2 }
  else if !v.validDataCluster c.cluster then .stop .io c
  else if c.offset = 0 then
    if dirChainMaxClusters ≤ c.steps then .stop .io c
    else match fatEntry? v read c.cluster with
      | none => .stop .io c
      | some next =>
        let c := { c with successor := next }
        if !fatValueIsEoc next && !v.validDataCluster next then .stop .io c
        else enterSector v read { c with steps := c.steps + 1 }
  else enterSector v read c

/-- A sector that is loaded is gone on with. -/
def proceed (loaded : Option (Nat × Bytes)) (c : DirectoryCursor) (active : Bool) : Enter :=
  match loaded with
  | some (lba, bytes) => .sector c lba bytes
  | none => enter v read c active

/-- The two loops of `nextDirectoryEntry` with `budget` slots to go; a sector is `loaded` while the inner one is in it. -/
def scanLoop : Nat → Option (Nat × Bytes) → DirectoryCursor → LfnState → Next × DirectoryCursor × LfnState
  | 0, _, c, s => (.again, c, s)
  | budget + 1, loaded, c, s =>
    match proceed v read loaded c s.active with
    | .stop result c => (result, c, s)
    | .sector c lba bytes =>
      let off := c.offset % sectorSize
      let c := { c with offset := c.offset + 32 }
      match enumSlot lba off (slice bytes off 32) s with
      | .stop => (.notFound, { c with state := 2 }, {})
      | .bad => (.io, c, s)
      | .pass s => scanLoop budget (if off + 32 < sectorSize then some (lba, bytes) else none) c s
      | .entry e => (.found e, c, {})

def nextDirectoryEntry (start : Nat) (cursor : DirectoryCursor) : Next × DirectoryCursor :=
  if 2 < cursor.state ∨ 1 < cursor.lfnActive ∨ nameUnitsMax < cursor.lfnLen ∨ maxLfnEntries < cursor.lfnTotal ∨
      cursor.lfnTotal < cursor.lfnExpected then (.io, cursor)
  else if cursor.state = 2 then (.notFound, cursor)
  else
    let c := if cursor.state = 0 then { cluster := start, state := 1 } else cursor
    if v.sectorsPerCluster * sectorSize < c.offset ∨ c.offset % 32 ≠ 0 then (.io, c)
    else
      let r := scanLoop v read 256 none c c.lfn
      (r.1, r.2.1.save r.2.2)

/-- The entries that the calls on one cursor give, where a pause is called again, and what ends them; `none` where `fuel`
calls do not suffice. -/
def enumerate (start : Nat) : Nat → DirectoryCursor → Option (List Located × LookupStatus)
  | 0, _ => none
  | fuel + 1, cursor =>
    match nextDirectoryEntry v read start cursor with
    | (.found e, cursor) => (enumerate start fuel cursor).map (fun r => (e :: r.1, r.2))
    | (.again, cursor) => enumerate start fuel cursor
    | (.notFound, _) => some ([], .notFound)
    | (.io, _) => some ([], .io)

end Scanners

end Fat32
end R4
