import R4Recovery.NtfsFormat
import R4Recovery.NameCodec
/-!
# NtfsIndex — the entries of a directory index and the two ways to list them

From `ntfs_format.zig` the $I30 index of a directory: its root, its blocks, the entries in them.  From `ntfs_volume.zig`
the recursive walk (`enumerateDirectory`) and the cursor that is resumed (`nextDirectoryEntry`).  A directory is what the
volume reads of it: its record, whether its index allocation could be collected, and its index blocks.
-/
namespace R4
namespace Ntfs

open Gpt (getLe)
open NameCodec (leUnits utf16ToUtf8)

def AttrType.indexRoot : Nat := 0x90

def i30Name : Bytes := leUnits [0x24, 0x49, 0x33, 0x30]

def indxMagic : Nat := 0x58444E49
def mftRecordRoot : Nat := 5
def mftFirstNormal : Nat := 16
def maxIndexDepth : Nat := 8
def nameMax : Nat := 768

def namespaceDos : Nat := 2
def indexEntryNode : Nat := 0x0001
def indexEntryEnd : Nat := 0x0002

/-! ## Names -/

structure FileName where
  parent : FileReference
  creationTime : Nat
  dataChangeTime : Nat
  accessTime : Nat
  dataSize : Nat
  flags : Nat
  nameLength : Nat
  space : Nat
  name : Bytes

def FileName.parse (value : Bytes) : Option FileName :=
  if value.length < 0x42 then none
  else
    let nameLength := (value.getD 0x40 0).toNat
    if value.length < 0x42 + nameLength * 2 then none
    else some
      { parent := FileReference.parse (getLe value 0x00 8)
        creationTime := getLe value 0x08 8
        dataChangeTime := getLe value 0x10 8
        accessTime := getLe value 0x20 8
        dataSize := getLe value 0x30 8
        flags := getLe value 0x38 4
        nameLength
        space := (value.getD 0x41 0).toNat
        name := slice value 0x42 (nameLength * 2) }

structure DirEntry where
  name : Bytes
  attr : Nat
  reparse : Bool
  record : Nat
  sequence : Nat
  size : Nat
  createdTimeNt : Nat
  modifiedTimeNt : Nat
  accessTimeNt : Nat
  deriving DecidableEq

def DirEntry.isDir (self : DirEntry) : Bool := self.attr &&& 0x10 != 0

/-- An attribute bit for a flag that is set. -/
def bitFor (flags flag bit : Nat) : Nat := if flags &&& flag ≠ 0 then bit else 0

def entryFromFileName (reference : FileReference) (fileName : FileName) : Option DirEntry :=
  match utf16ToUtf8 fileName.name nameMax with
  | none => none
  | some name => some
    { name
      attr := bitFor fileName.flags 0x0001 0x01 ||| bitFor fileName.flags 0x0002 0x02 |||
          bitFor fileName.flags 0x0004 0x04 |||
        bitFor fileName.flags 0x0020 0x20 ||| bitFor fileName.flags 0x10000000 0x10
      reparse := fileName.flags &&& 0x0400 != 0
      record := reference.record
      sequence := reference.sequence
      size := if fileName.flags &&& 0x10000000 ≠ 0 then 0 else fileName.dataSize
      createdTimeNt := fileName.creationTime
      modifiedTimeNt := fileName.dataChangeTime
      accessTimeNt := fileName.accessTime }

/-! ## The index -/

structure IndexHeader where
  entriesOffset : Nat
  indexLength : Nat
  flags : Nat
  deriving DecidableEq

def IndexHeader.parse (bytes : Bytes) : Option IndexHeader :=
  if bytes.length < 0x10 then none
  else
    let header : IndexHeader :=
      { entriesOffset := getLe bytes 0x00 4, indexLength := getLe bytes 0x04 4, flags := (bytes.getD 0x0C 0).toNat }
    if header.entriesOffset < 0x10 ∨ header.indexLength < header.entriesOffset then none else some header

def IndexHeader.hasSubNodes (self : IndexHeader) : Bool := self.flags &&& 0x01 != 0

/-- The header of a node that starts at `base`, with the bytes of its entries. -/
def parseNode (value : Bytes) (base : Nat) : Option (IndexHeader × Bytes) :=
  match IndexHeader.parse (value.drop base) with
  | none => none
  | some header =>
    let start := base + header.entriesOffset
    let stop := base + header.indexLength
    if value.length < start ∨ value.length < stop ∨ stop < start then none
    else some (header, slice value start (stop - start))

def IndexRoot.parse (value : Bytes) : Option (IndexHeader × Bytes) :=
  if value.length < 0x20 then none else parseNode value 0x10

/-- The entries of a block. -/
def IndexBlock.parse (block : Bytes) : Option Bytes :=
  if block.length < 0x28 then none
  else if getLe block 0x00 4 ≠ indxMagic then none
  else (parseNode block 0x18).map Prod.snd

structure IndexEntry where
  fileReference : Nat
  entryLength : Nat
  flags : Nat
  key : Bytes
  subNodeVcn : Option Nat
  deriving DecidableEq

def IndexEntry.isEnd (self : IndexEntry) : Bool := self.flags &&& indexEntryEnd != 0

def IndexEntry.hasSubNode (self : IndexEntry) : Bool := self.flags &&& indexEntryNode != 0

def IndexEntry.fileName (self : IndexEntry) : Option FileName := if self.key = [] then none else FileName.parse self.key

/-- The first `IndexEntryIterator.next` of an iterator over `entries`. -/
def nextEntry (entries : Bytes) : Option IndexEntry :=
  if entries.length < 0x10 then none
  else
    let entryLength := getLe entries 0x08 2
    if entryLength < 0x10 ∨ entries.length < entryLength then none
    else
      let keyLength := getLe entries 0x0A 2
      let flags := getLe entries 0x0C 2
      if 0 < keyLength ∧ entryLength < 0x10 + keyLength then none
      else if flags &&& indexEntryNode ≠ 0 ∧ entryLength < 0x10 + 8 then none
      else some
        { fileReference := getLe entries 0x00 8
          entryLength
          flags
          key := slice entries 0x10 keyLength
          subNodeVcn := if flags &&& indexEntryNode ≠ 0 then some (getLe entries (entryLength - 8) 8) else none }

/-- What a volume reads of a directory. -/
structure Directory where
  number : Nat
  record : Option Bytes
  collected : Bool
  block : Nat → Option Bytes

/-- The index root of the record, with the bytes of its entries. -/
def Directory.indexRoot (d : Directory) : Option (IndexHeader × Bytes) := do
  let record ← d.record
  let header ← FileRecordHeader.parse record
  let attr ← (attributes record header).find? (fun a => a.attrType == AttrType.indexRoot && a.name == i30Name)
  IndexRoot.parse attr.value

/-- The root once the index allocation is collected, where it is needed. -/
def Directory.open (d : Directory) : Option (IndexHeader × Bytes) :=
  match d.indexRoot with
  | none => none
  | some (header, entries) => if header.hasSubNodes && !d.collected then none else some (header, entries)

/-- The entries of a node: those of the root, or those of a block.  Without an index allocation no block is read. -/
def Directory.node (d : Directory) (header : IndexHeader) (root : Bytes) : Option Nat → Option Bytes
  | none => some root
  | some vcn =>
    if header.hasSubNodes then
      match d.block vcn with
      | none => none
      | some block => IndexBlock.parse block
    else none

def isHiddenSystemEntry (directory child : Nat) : Bool := directory == mftRecordRoot && decide (child < mftFirstNormal)

/-- Whether a name is one that is listed. -/
def listed (directory : Nat) (entry : IndexEntry) (name : FileName) : Bool :=
  name.space != namespaceDos && !isHiddenSystemEntry directory (FileReference.parse entry.fileReference).record

/-! ## The recursive walk -/

structure EnumSink where
  out : Option Nat := none
  text : Bytes := []
  listed : Nat := 0
  maxEntries : Nat := 0
  wanted : Nat := 0
  seen : Nat := 0
  found : Option DirEntry := none
  failed : Bool := false
  countRef : Option Nat := none
  counted : Nat := 0
  deriving DecidableEq

/-- `appendBytes` for a text that is gathered in a buffer of `room` bytes. -/
def appendBytes (room : Nat) (text bytes : Bytes) : Option Bytes :=
  if room ≤ text.length + bytes.length then none else some (text ++ bytes)

def emitEntry (sink : EnumSink) (entry : DirEntry) : EnumSink :=
  match sink.countRef with
  | some wanted =>
    if FileReference.pack { record := entry.record, sequence := entry.sequence } == wanted then
      { sink with counted := sink.counted + 1 } else sink
  | none =>
    match sink.out with
    | some room =>
      match appendBytes room sink.text (ascii (if entry.isDir then "<DIR> " else "      ")) with
      | none => { sink with failed := true }
      | some text =>
        match appendBytes room text entry.name with
        | none => { sink with text, failed := true }
        | some text =>
          match appendBytes room text [13, 10] with
          | none => { sink with text, failed := true }
          | some text => { sink with text, listed := sink.listed + 1 }
    | none =>
      if sink.seen = sink.wanted then { sink with found := some entry } else { sink with seen := sink.seen + 1 }

def EnumSink.stopped (sink : EnumSink) : Bool := sink.failed || sink.found.isSome

/-- The entry a turn of the walk is to emit behind the child; nothing at all where its name cannot be read. -/
def pendingEntry (directory : Nat) (entry : IndexEntry) : Option (Option DirEntry) :=
  if entry.isEnd then some none
  else match entry.fileName with
    | none => none
    | some name =>
      some (if listed directory entry name then entryFromFileName (FileReference.parse entry.fileReference) name else none)

def walkChild (descend : Nat → EnumSink → Option EnumSink) (entry : IndexEntry) (sink : EnumSink) : Option EnumSink :=
  match entry.subNodeVcn with
  | some vcn => descend vcn sink
  | none => some sink

/-- The loop of `walkNode` over the entries of a node from `offset` on; `none` where `fuel` does not suffice. -/
def walkEntries (directory : Nat) (descend : Nat → EnumSink → Option EnumSink) (entries : Option Bytes) :
    Nat → Nat → EnumSink → Option EnumSink
  | 0, _, _ => none
  | fuel + 1, offset, sink =>
    match entries with
    | none => some { sink with failed := true }
    | some bytes =>
      if bytes.length ≤ offset then some sink
      else match nextEntry (bytes.drop offset) with
        | none => some sink
        | some entry =>
          match pendingEntry directory entry with
          | none => some { sink with failed := true }
          | some pending =>
            match walkChild descend entry sink with
            | none => none
            | some sink =>
              if entry.hasSubNode && sink.stopped then some sink
              else if entry.isEnd then some sink
              else match pending with
                | none => walkEntries directory descend entries fuel (offset + entry.entryLength) sink
                | some built =>
                  let sink := emitEntry sink built
                  if sink.stopped then some sink
                  else if sink.out.isSome && decide (sink.maxEntries ≤ sink.listed) then some sink
                  else walkEntries directory descend entries fuel (offset + entry.entryLength) sink

/-- `walkNode` with `levels` levels below `maxIndexDepth` to go; an entry has sixteen bytes at least. -/
def walkNode (d : Directory) (header : IndexHeader) (root : Bytes) : Nat → Option Nat → EnumSink → Option EnumSink
  | levels, vcn, sink =>
    if sink.stopped then some sink
    else match levels with
      | 0 => some { sink with failed := true }
      | levels + 1 =>
        walkEntries d.number (fun child sink => walkNode d header root levels (some child) sink) (d.node header root vcn)
          (((d.node header root vcn).elim 0 List.length) + 1) 0 sink

/-- `enumerateDirectory`, with the sink it leaves. -/
def enumerateDirectory (d : Directory) (sink : EnumSink) : Option (Bool × EnumSink) :=
  match d.open with
  | none => some (false, sink)
  | some (header, root) =>
    match walkNode d header root maxIndexDepth none sink with
    | none => none
    | some sink => some (!sink.failed, sink)

/-! ## The cursor -/

structure Frame where
  vcn : Nat := 0
  offset : Nat := 0
  childDone : Nat := 0
  deriving DecidableEq

/-- `frames[0..depth]` is the list, the deepest in front. -/
structure DirectoryCursor where
  state : Nat := 0
  frames : List Frame := []
  deriving DecidableEq

inductive Next where
  | found (e : DirEntry) | notFound | again | io
  deriving DecidableEq

/-- What one turn of the loop comes to: the frames of the next turn, or a result. -/
inductive Turn where
  | go (frames : List Frame)
  | stop (result : Next) (frames : List Frame)

/-- The node of the deepest frame. -/
def Directory.nodeOf (d : Directory) (header : IndexHeader) (root : Bytes) (frame : Frame) (below : List Frame) :
    Option Bytes :=
  d.node header root (if below = [] then none else some frame.vcn)

def turn (d : Directory) (header : IndexHeader) (root : Bytes) : List Frame → Turn
  | [] => .stop .io []
  | frame :: below =>
    let frames := frame :: below
    if 1 < frame.childDone then .stop .io frames
    else match d.nodeOf header root frame below with
      | none => .stop .io frames
      | some entries =>
        if entries.length ≤ frame.offset then .stop .io frames
        else match nextEntry (entries.drop frame.offset) with
          | none => .stop .io frames
          | some entry =>
            if entry.hasSubNode ∧ frame.childDone = 0 then
              if maxIndexDepth ≤ frames.length then .stop .io frames
              else match entry.subNodeVcn with
                | none => .stop .io frames
                | some child =>
                  -- an ancestor but the root
                  if frames.dropLast.any (fun a => a.vcn == child) then .stop .io frames
                  else .go ({ vcn := child } :: { frame with childDone := 1 } :: below)
            else if entry.isEnd then (if below = [] then .stop .notFound [] else .go below)
            else
              let frames := { frame with offset := frame.offset + entry.entryLength, childDone := 0 } :: below
              match entry.fileName with
              | none => .stop .io frames
              | some name =>
                if !listed d.number entry name then .go frames
                else match entryFromFileName (FileReference.parse entry.fileReference) name with
                  | none => .stop .io frames
                  | some e => .stop (.found e) frames

/-- The turns of one call. -/
def turns (d : Directory) (header : IndexHeader) (root : Bytes) : Nat → List Frame → Next × List Frame
  | 0, frames => (.again, frames)
  | n + 1, frames =>
    match turn d header root frames with
    | .go frames => turns d header root n frames
    | .stop result frames => (result, frames)

def nextDirectoryEntry (d : Directory) (cursor : DirectoryCursor) : Next × DirectoryCursor :=
  if 2 < cursor.state ∨ maxIndexDepth < cursor.frames.length then (.io, cursor)
  else if cursor.state = 2 then (.notFound, cursor)
  else
    let cursor := if cursor.state = 0 then { state := 1, frames := [{}] } else cursor
    if cursor.frames = [] then (.io, cursor)
    else match d.open with
      | none => (.io, cursor)
      | some (header, root) =>
        let after := turns d header root 256 cursor.frames
        (after.1, { state := if after.1 = .notFound then 2 else cursor.state, frames := after.2 })

end Ntfs
end R4
