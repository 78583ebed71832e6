import R4Recovery.Buffer
import R4Recovery.FatName
import R4Recovery.Stateful
/-!
# FatDirectory — the kernel's FAT directory

A directory is the slots of its cluster chain.  `findEntryLocationStatus` walks them with the long-name state,
`writeDirectoryEntries` reuses free slots behind reclaimed orphans or grows the chain, and single slots are updated and
marked deleted in place.  A device request that fails ends the run with `io`; `io` promises nothing about the volume, so
what a failed growth gives back is left out.
-/
namespace R4
namespace Fat

/-- The thirty-two bytes of a directory slot. -/
abbrev Slot := Bytes

def attrReadOnly : UInt8 := 0x01
def attrLongName : UInt8 := 0x0F
def attrDirectory : UInt8 := 0x10

def maxLfnEntries : Nat := 20

def Slot.first (raw : Slot) : UInt8 := raw.getD 0 0

def Slot.attr (raw : Slot) : UInt8 := raw.getD 11 0

def Slot.free (raw : Slot) : Bool := raw.first == 0 || raw.first == 0xE5

/-! ## Long names in slots -/

/-- The state of a long name while its slots are read. -/
structure LfnState where
  units : List Nat := List.replicate nameUnitsMax 0
  len : Nat := 0
  active : Bool := false
  total : Nat := 0
  expected : Nat := 0
  checksum : UInt8 := 0

/-- Where the thirteen units of a slot are. -/
def unitSlots : List Nat := [1, 3, 5, 7, 9, 14, 16, 18, 20, 22, 24, 28, 30]

/-- One unit of a slot: whether the name has ended, and the state. -/
def LfnState.unit (isLast : Bool) (dst unit : Nat) : Bool × LfnState → Option (Bool × LfnState)
  | (ended, s) =>
    if !isLast then
      if nameUnitsMax ≤ dst ∨ unit = 0 ∨ unit = 0xFFFF then none
      else some (ended, { s with units := s.units.set dst unit, len := max s.len (dst + 1) })
    else if ended then if unit = 0xFFFF then some (ended, s) else none
    else if unit = 0 then some (true, s)
    else if unit = 0xFFFF ∨ nameUnitsMax ≤ dst then none
    else some (ended, { s with units := s.units.set dst unit, len := max s.len (dst + 1) })

def LfnState.begin (s : LfnState) (isLast : Bool) (ordinal : Nat) (checksum : UInt8) : Option LfnState :=
  if !s.active then
    if !isLast then none
    else some { active := true, total := ordinal, expected := ordinal, checksum := checksum }
  else if isLast then none
  else some s

def LfnState.consume (s : LfnState) (raw : Slot) : Option LfnState :=
  let ordinal := (raw.first &&& 0x1F).toNat
  let isLast := raw.first &&& 0x40 != 0
  if raw.attr ≠ attrLongName ∨ raw.getD 12 0 ≠ 0 ∨ leNat (slice raw 26 2) ≠ 0 then none
  else if raw.first &&& 0xA0 ≠ 0 ∨ ordinal = 0 ∨ maxLfnEntries < ordinal then none
  else do
    let s ← s.begin isLast ordinal (raw.getD 13 0)
    if ordinal ≠ s.expected ∨ raw.getD 13 0 ≠ s.checksum then none
    else do
      let (_, s) ← unitSlots.zipIdx.foldlM
        (fun acc at_ => LfnState.unit isLast ((ordinal - 1) * 13 + at_.2) (leNat (slice raw at_.1 2)) acc) (false, s)
      some { s with expected := s.expected - 1 }

def lfnChecksum (short : Bytes) : UInt8 :=
  short.foldl (fun (sum ch : UInt8) => (if sum &&& 1 ≠ 0 then (0x80 : UInt8) else 0) + (sum >>> 1) + ch) 0

def utf16SequenceWellFormed : List Nat → Bool
  | [] => true
  | unit :: rest =>
    if 0xD800 ≤ unit ∧ unit ≤ 0xDBFF then
      match rest with
      | low :: rest => 0xDC00 ≤ low && low ≤ 0xDFFF && utf16SequenceWellFormed rest
      | [] => false
    else if 0xDC00 ≤ unit ∧ unit ≤ 0xDFFF then false
    else utf16SequenceWellFormed rest

def LfnState.completeFor (s : LfnState) (short : Slot) : Bool :=
  s.active && s.expected == 0 && s.len != 0 && lfnChecksum (short.take 11) == s.checksum &&
    utf16SequenceWellFormed (s.units.take s.len)

/-- The units of the name that was read, if one was. -/
def LfnState.name (s : LfnState) : List Nat := if s.active then s.units.take s.len else []

/-! ## Entries -/

structure Entry where
  name : Bytes
  attr : UInt8
  firstCluster : Nat
  size : Nat
  createdTime : Nat
  createdDate : Nat
  accessDate : Nat
  modifiedTime : Nat
  modifiedDate : Nat

def Entry.isDir (e : Entry) : Bool := e.attr &&& attrDirectory != 0

def Entry.isReadOnly (e : Entry) : Bool := e.attr &&& attrReadOnly != 0

def firstCluster (raw : Slot) : Nat := leNat (slice raw 20 2) * 65536 + leNat (slice raw 26 2)

/-- The long name, if it has a form in UTF-8 that fits, else the 8.3 name. -/
def entryName (raw : Slot) (lfn : List Nat) : Bytes :=
  if lfn = [] then shortNameToBuffer (raw.take 11) else (utf16UnitsToUtf8 lfn).getD (shortNameToBuffer (raw.take 11))

def makeEntry (raw : Slot) (lfn : List Nat) : Entry :=
  { name := entryName raw lfn
    attr := raw.attr
    firstCluster := firstCluster raw
    size := leNat (slice raw 28 4)
    createdTime := leNat (slice raw 14 2)
    createdDate := leNat (slice raw 16 2)
    accessDate := leNat (slice raw 18 2)
    modifiedTime := leNat (slice raw 22 2)
    modifiedDate := leNat (slice raw 24 2) }

/-- An entry, the index of its short slot, the text of its 8.3 name and the slots of its long name. -/
structure EntryLocation where
  index : Nat
  entry : Entry
  shortName : Bytes
  lfnSlots : List Nat

/-- `entryNameEquals or shortNameEquals`. -/
def EntryLocation.matches (loc : EntryLocation) (name : Bytes) : Bool :=
  eqlIgnoreCase loc.entry.name name || eqlIgnoreCase loc.shortName name

def sameFileOwnership (a b : Entry) : Bool :=
  !a.isDir && !b.isDir && a.firstCluster == b.firstCluster && a.size == b.size

/-! ## Volumes -/

/-- A volume and one directory of it: the file allocation table, the end of its clusters, the slots in a cluster, and the
directory's cluster chain with its slots. -/
structure Volume where
  fat : Nat → Nat
  clusterEnd : Nat
  perCluster : Nat
  chain : List Nat
  slots : List Slot

/-- `validDataCluster` of a volume whose clusters end at `last`. -/
def validDataCluster (last c : Nat) : Bool := 2 ≤ c && c < last

def eocMark : Nat := 0x0FFFFFFF

def fatValueIsEoc (value : Nat) : Bool := 0x0FFFFFF8 ≤ value && value ≤ 0x0FFFFFFF

def entryClusterValid (last : Nat) (e : Entry) : Bool :=
  if e.isDir then validDataCluster last e.firstCluster
  else if e.firstCluster = 0 then e.size == 0
  else validDataCluster last e.firstCluster

/-! ## Lookup -/

/-- What a walk does at a slot. -/
inductive Visit where
  | stop
  | bad
  | pass (s : LfnState) (lfnSlots : List Nat)
  | entry (loc : EntryLocation)

def visitShort (last : Nat) (raw : Slot) (i : Nat) (s : LfnState) (lfnSlots : List Nat) : Visit :=
  if s.active && (!s.completeFor raw || lfnSlots.length != s.total) then .bad
  else
    let e := makeEntry raw s.name
    if entryClusterValid last e then
      .entry { index := i, entry := e, shortName := shortNameToBuffer (raw.take 11), lfnSlots := lfnSlots }
    else .bad

def visit (last : Nat) (raw : Slot) (i : Nat) (s : LfnState) (lfnSlots : List Nat) : Visit :=
  if raw.first = 0 then .stop
  else if raw.first = 0xE5 then .pass {} []
  else if raw.attr = attrLongName then
    match s.consume raw with
    | none => .bad
    | some s => if maxLfnEntries ≤ lfnSlots.length then .bad else .pass s (lfnSlots ++ [i])
  else if raw.attr &&& attrLongName = attrLongName then .bad
  else if raw.first = 46 ∨ raw.attr &&& 0x08 ≠ 0 then if s.active then .bad else .pass s lfnSlots
  else visitShort last raw i s lfnSlots

inductive Lookup where
  | found (loc : EntryLocation)
  | notFound
  | io

def findFrom (last : Nat) (name : Bytes) : List Slot → Nat → LfnState → List Nat → Lookup
  | [], _, s, _ => if s.active then .io else .notFound
  | raw :: rest, i, s, lfnSlots =>
    match visit last raw i s lfnSlots with
    | .stop => .notFound
    | .bad => .io
    | .pass s lfnSlots => findFrom last name rest (i + 1) s lfnSlots
    | .entry loc => if loc.matches name then .found loc else findFrom last name rest (i + 1) {} []

def findEntryLocationStatus (v : Volume) (name : Bytes) : Lookup :=
  if !validInputName name then .io else findFrom v.clusterEnd name v.slots 0 {} []

/-! ## Device requests -/

/-- A volume and the number of device requests made so far. -/
structure World where
  volume : Volume
  requests : Nat := 0

/-- What the run cannot choose: which requests succeed, the date and the time of a stamp, and the clusters a search for
free ones comes back with. -/
structure Env where
  succeeds : Nat → Bool
  now : Nat → Nat × Nat
  freeClusters : Nat → List Nat

inductive Failure where
  | io
  deriving DecidableEq, Repr

abbrev Fs (α : Type) : Type := Stateful World Failure α

section Operations

variable (env : Env)

def request : Fs Unit := fun w =>
  (if env.succeeds w.requests then .ok () else .error .io, { w with requests := w.requests + 1 })

def fail {α : Type} : Fs α := Stateful.check (fun _ => .error .io)

def flushVolume : Fs Unit := request env

def change (f : Volume → Volume) : Fs Unit := do
  request env
  Stateful.update (fun w => { w with volume := f w.volume })

def Lookup.optional : Lookup → Except Failure (Option EntryLocation)
  | .found loc => .ok (some loc)
  | .notFound => .ok none
  | .io => .error .io

def findOptionalEntryLocation (name : Bytes) : Fs (Option EntryLocation) := do
  request env
  Stateful.check (fun w => (findEntryLocationStatus w.volume name).optional)

/-- The entry must be there. -/
def findEntry (name : Bytes) : Fs EntryLocation := do
  let found ← findOptionalEntryLocation env name
  match found with
  | some loc => pure loc
  | none => fail

def Volume.setSlot (v : Volume) (i : Nat) (raw : Slot) : Volume := { v with slots := v.slots.set i raw }

/-- A slot with its first byte marked. -/
def deletedSlot (raw : Slot) : Slot := raw.set 0 0xE5

def Volume.deleteSlot (v : Volume) (i : Nat) : Volume := { v with slots := v.slots.modify i deletedSlot }

def markDirectorySlotDeleted (i : Nat) : Fs Unit := change env (fun v => v.deleteSlot i)

/-- Marks slots deleted, each made durable before the next. -/
def reclaimSlots : List Nat → Fs Unit
  | [] => pure ()
  | i :: rest => do
    markDirectorySlotDeleted env i
    flushVolume env
    reclaimSlots rest

/-- The short slot first, then the long-name slots backwards. -/
def detachEntryNoFree (loc : EntryLocation) : Fs Unit := do
  markDirectorySlotDeleted env loc.index
  match loc.lfnSlots with
  | [] => pure ()
  | slots => do
    flushVolume env
    reclaimSlots env slots.reverse

def relocatedSlot (raw : Slot) (cluster size : Nat) (date time : Nat) : Slot :=
  put (put (put (put (put (put raw 20 (leBytes 2 (cluster / 65536))) 26 (leBytes 2 cluster)) 28 (leBytes 4 size))
    18 (leBytes 2 date)) 22 (leBytes 2 time)) 24 (leBytes 2 date)

def Volume.relocate (v : Volume) (i cluster size date time : Nat) : Volume :=
  { v with slots := v.slots.modify i (fun raw => relocatedSlot raw cluster size date time) }

def updateFileLocation (i cluster size : Nat) : Fs Unit := fun w =>
  change env (fun v => v.relocate i cluster size (env.now w.requests).1 (env.now w.requests).2) w

/-! ## New entries -/

/-- A run of free slots, the orphaned long-name slots in front of them, and whether the run is long enough. -/
structure FreeSlots where
  run : List Nat
  reclaimed : List Nat
  enough : Bool

/-- The walk of `writeDirectoryEntries` with its `DirectoryLfnGuard`. -/
def scanFree (needed : Nat) : List Slot → Nat → LfnState → List Nat → List Nat → List Nat → Option FreeSlots
  | [], _, _, pending, run, reclaimed =>
    if pending ≠ [] then none else some { run := run, reclaimed := reclaimed, enough := false }
  | raw :: rest, i, s, pending, run, reclaimed =>
    if raw.free then
      if run.length + 1 = needed then
        some { run := run ++ [i], reclaimed := reclaimed ++ pending.reverse, enough := true }
      else scanFree needed rest (i + 1) {} [] (run ++ [i]) (reclaimed ++ pending.reverse)
    else if raw.attr = attrLongName then
      match s.consume raw with
      | none => none
      | some s => if pending.length = maxLfnEntries then none else scanFree needed rest (i + 1) s (pending ++ [i]) [] reclaimed
    else if s.active && !s.completeFor raw then none
    else scanFree needed rest (i + 1) {} [] [] reclaimed

/-- The clusters chained to one another, the last one to the end. -/
def linkChain (fat : Nat → Nat) : List Nat → Nat → Nat
  | [] => fat
  | [c] => Function.update fat c eocMark
  | c :: d :: rest => Function.update (linkChain fat (d :: rest)) c d

def dirChainMaxClusters : Nat := 4096

/-- The free clusters a growth gets, if the search finds enough. -/
def Volume.allocatable (v : Volume) (count : Nat) (cs : List Nat) : Bool :=
  cs.length == count && decide cs.Nodup && cs.all (fun c => validDataCluster v.clusterEnd c && v.fat c == 0)

def zeroSlot : Slot := zeros 32

/-- The directory with the chained clusters linked behind its tail. -/
def Volume.extended (v : Volume) (cs : List Nat) : Volume :=
  { v with
    fat := match v.chain.getLast?, cs.head? with
      | some tail, some first => Function.update (linkChain v.fat cs) tail first
      | _, _ => v.fat
    chain := v.chain ++ cs
    slots := v.slots ++ List.replicate (cs.length * v.perCluster) zeroSlot }

/-- `directory_growth.extend`: allocated, initialised and flushed, then published behind an end that is still the end. -/
def extend (missing : Nat) : Fs Unit := fun w =>
  let count := (missing + w.volume.perCluster - 1) / w.volume.perCluster
  let cs := env.freeClusters w.requests
  let refused := w.volume.perCluster < 16 || 2048 < w.volume.perCluster || missing == 0 || decide (21 < missing) ||
    decide (dirChainMaxClusters < w.volume.chain.length + count) || !w.volume.allocatable count cs ||
    !(w.volume.chain.getLast?.any (fun tail => fatValueIsEoc (w.volume.fat tail)))
  if refused then (.error .io, w)
  else (do flushVolume env; change env (fun v => v.extended cs); flushVolume env : Fs Unit) w

/-- The slots for new entries. -/
def directorySlots (needed : Nat) (free : FreeSlots) : Fs (List Nat) := fun w =>
  if free.enough then (.ok free.run, w)
  else (do
    extend env (needed - free.run.length)
    pure (free.run ++ List.range' w.volume.slots.length (needed - free.run.length)) : Fs (List Nat)) w

def writeDirectorySlots : List (Nat × Slot) → Fs Unit
  | [] => pure ()
  | (i, raw) :: rest => do
    change env (fun v => v.setSlot i raw)
    writeDirectorySlots rest

def writeDirectoryEntries (raws : List Slot) : Fs Unit := do
  request env
  let free ← Stateful.check (fun w => (scanFree raws.length w.volume.slots 0 {} [] [] []).elim (.error .io) .ok)
  reclaimSlots env free.reclaimed
  let slots ← directorySlots env raws.length free
  writeDirectorySlots env (slots.zip raws)

/-- The 8.3 entry of an ownership alias: another name for the same file, with its stamps. -/
def aliasSlot (short : Bytes) (source : Entry) : Slot :=
  short ++ [source.attr, 0, 0] ++ leBytes 2 source.createdTime ++ leBytes 2 source.createdDate ++
    leBytes 2 source.accessDate ++ leBytes 2 (source.firstCluster / 65536) ++ leBytes 2 source.modifiedTime ++
    leBytes 2 source.modifiedDate ++ leBytes 2 source.firstCluster ++ leBytes 4 source.size

/-- The callers come here with 8.3 names only. -/
def createOwnershipAlias (name : Bytes) (source : Entry) : Fs Unit := do
  let existing ← findOptionalEntryLocation env name
  match existing, buildShortName name with
  | none, some short => writeDirectoryEntries env [aliasSlot short source]
  | _, _ => fail

end Operations

end Fat
end R4
