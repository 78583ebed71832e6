import R4Recovery.Checked
import R4Recovery.GptFormat
import R4Recovery.Text
/-!
# HiveFormat — the registry hive

`registry_core.zig`: a header, a table of keys, a table of values and two heaps.  Every read of a slice and every sum of two
32-bit words is checked as the language checks it: outside of the slice or the word it faults.
-/
namespace R4
namespace Hive

open Gpt (getLe)
open Checked (refuse require upTo)

def magic : Bytes := ascii "R4R1"
def headerSize : Nat := 96
def keyRecordSize : Nat := 32
def valueRecordSize : Nat := 32
def invalidIndex : Nat := 0xffffffff

inductive HiveKind where
  | system | software | desktop | user
  deriving DecidableEq, Repr

def HiveKind.toInt : HiveKind → Nat
  | .system => 1
  | .software => 2
  | .desktop => 3
  | .user => 4

def HiveKind.fromInt (value : Nat) : Option HiveKind :=
  [HiveKind.system, .software, .desktop, .user].find? (fun k => k.toInt == value)

inductive ValueType where
  | string | u32 | u64 | bool | binary | multiString
  deriving DecidableEq, Repr

def ValueType.toInt : ValueType → Nat
  | .string => 1
  | .u32 => 2
  | .u64 => 3
  | .bool => 4
  | .binary => 5
  | .multiString => 6

def ValueType.fromInt (value : Nat) : Option ValueType :=
  [ValueType.string, .u32, .u64, .bool, .binary, .multiString].find? (fun t => t.toInt == value)

inductive Error where
  | fileTooSmall | badMagic | badVersion | badHeaderSize | badEndian | badHiveKind | badFlags | badFileSize | badChecksumType
  | badChecksum | badReserved | badRange | badRootKey | badKey | badValue | badName | badData | duplicateKey | duplicateValue
  | rootMismatch | invalidPath | outOfMemory | tooManyEntries
  deriving DecidableEq, Repr

structure Header where
  hiveKind : HiveKind
  generation : Nat
  keyTableOffset : Nat
  keyCount : Nat
  valueTableOffset : Nat
  valueCount : Nat
  stringHeapOffset : Nat
  stringHeapSize : Nat
  dataHeapOffset : Nat
  dataHeapSize : Nat
  checksumType : Nat
  checksum : Nat
  deriving DecidableEq, Repr

structure KeyRecord where
  parentIndex : Nat
  nameOffset : Nat
  nameLen : Nat
  firstValueIndex : Nat
  valueCount : Nat
  firstChildIndex : Nat
  childCount : Nat
  deriving DecidableEq, Repr

structure ValueRecord where
  ownerKeyIndex : Nat
  nameOffset : Nat
  nameLen : Nat
  valueType : ValueType
  dataOffset : Nat
  dataLen : Nat
  deriving DecidableEq, Repr

structure Value where
  valueType : ValueType
  data : Bytes
  deriving DecidableEq, Repr

structure HiveView where
  bytes : Bytes
  header : Header
  keyTable : Bytes
  valueTable : Bytes
  stringHeap : Bytes
  dataHeap : Bytes
  deriving DecidableEq, Repr

/-! ## Reads -/

/-- A part of a slice. -/
def part (bytes : Bytes) (start len : Nat) : Checked Error Bytes :=
  if start + len ≤ bytes.length then .ok (slice bytes start len) else .error .bounds

def readLe (bytes : Bytes) (offset width : Nat) : Checked Error Nat :=
  if offset + width ≤ bytes.length then .ok (getLe bytes offset width) else .error .bounds

def addU32 (a b : Nat) : Checked Error Nat := if a + b < 2 ^ 32 then .ok (a + b) else .error .overflow

def readKeyRecord (table : Bytes) (index : Nat) : Checked Error KeyRecord := do
  let offset := index * keyRecordSize
  let parentIndex ← readLe table (offset + 0) 4
  let nameOffset ← readLe table (offset + 4) 4
  let nameLen ← readLe table (offset + 8) 2
  let firstValueIndex ← readLe table (offset + 12) 4
  let valueCount ← readLe table (offset + 16) 4
  let firstChildIndex ← readLe table (offset + 20) 4
  let childCount ← readLe table (offset + 24) 4
  pure { parentIndex, nameOffset, nameLen, firstValueIndex, valueCount, firstChildIndex, childCount }

def readValueRecord (table : Bytes) (index : Nat) : Checked Error ValueRecord := do
  let offset := index * valueRecordSize
  let ownerKeyIndex ← readLe table (offset + 0) 4
  let nameOffset ← readLe table (offset + 4) 4
  let nameLen ← readLe table (offset + 8) 2
  let valueType ← readLe table (offset + 10) 2
  let dataOffset ← readLe table (offset + 16) 4
  let dataLen ← readLe table (offset + 20) 4
  pure { ownerKeyIndex, nameOffset, nameLen, valueType := (ValueType.fromInt valueType).getD .binary, dataOffset, dataLen }

def sliceFromHeap (heap : Bytes) (offset len : Nat) : Checked Error Bytes := if len = 0 then .ok [] else part heap offset len

namespace HiveView

def keyAt (self : HiveView) (index : Nat) : Checked Error KeyRecord := readKeyRecord self.keyTable index

def valueAt (self : HiveView) (index : Nat) : Checked Error ValueRecord := readValueRecord self.valueTable index

def keyName (self : HiveView) (key : KeyRecord) : Checked Error Bytes :=
    sliceFromHeap self.stringHeap key.nameOffset key.nameLen

def valueName (self : HiveView) (value : ValueRecord) : Checked Error Bytes :=
  sliceFromHeap self.stringHeap value.nameOffset value.nameLen

def valueData (self : HiveView) (value : ValueRecord) : Checked Error Bytes :=
  sliceFromHeap self.dataHeap value.dataOffset value.dataLen

end HiveView

/-! ## Paths -/

def isSpace (ch : UInt8) : Bool := ch == 32 || ch == 9 || ch == 13 || ch == 10

def isSeparator (ch : UInt8) : Bool := ch == 92 || ch == 47

def trimBy (p : UInt8 → Bool) (path : Bytes) : Bytes := ((path.dropWhile p).reverse.dropWhile p).reverse

def trimPath (path : Bytes) : Bytes := trimBy isSpace path

def trimSeparators (path : Bytes) : Bytes := trimBy isSeparator path

/-- The index of the first separator, or the length. -/
def findRootEnd (path : Bytes) : Nat := path.findIdx isSeparator

def rootKind (root : Bytes) : Option HiveKind :=
  if eqlIgnoreCase root (ascii "SYSTEM") then some .system
  else if eqlIgnoreCase root (ascii "SOFTWARE") then some .software
  else if eqlIgnoreCase root (ascii "DESKTOP") then some .desktop
  else if eqlIgnoreCase root (ascii "USER") then some .user
  else none

/-- The kind and the rest of a path. -/
def parseRoot (path : Bytes) : Option (HiveKind × Bytes) :=
  let text := trimPath path
  if text = [] then none
  else
    let split := findRootEnd text
    match rootKind (text.take split) with
    | none => none
    | some kind => some (kind, trimSeparators (if split < text.length then text.drop (split + 1) else text.drop split))

/-- The next component and what is left. -/
def nextComponent (rest : Bytes) : Option (Bytes × Bytes) :=
  let rest := trimSeparators rest
  if rest = [] then none
  else
    let split := findRootEnd rest
    some (rest.take split, if split < rest.length then rest.drop (split + 1) else rest.drop split)

/-! ## Lookups -/

namespace HiveView

def seekChild (self : HiveView) (parentIndex : Nat) (name : Bytes) : Nat → Nat → Checked Error (Option Nat)
  | 0, _ => pure none
  | left + 1, index => do
    let key ← self.keyAt index
    if key.parentIndex = parentIndex then
      let found ← self.keyName key
      if eqlIgnoreCase found name then pure (some index) else seekChild self parentIndex name left (index + 1)
    else seekChild self parentIndex name left (index + 1)

def findChild (self : HiveView) (parentIndex : Nat) (name : Bytes) : Checked Error (Option Nat) :=
  if self.header.keyCount ≤ parentIndex then pure none
  else do
    let parent ← self.keyAt parentIndex
    if parent.childCount = 0 ∨ parent.firstChildIndex = invalidIndex then pure none
    else
      let stop ← addU32 parent.firstChildIndex parent.childCount
      self.seekChild parentIndex name (stop - parent.firstChildIndex) parent.firstChildIndex

def seekValue (self : HiveView) (keyIndex : Nat) (name : Bytes) : Nat → Nat → Checked Error (Option Nat)
  | 0, _ => pure none
  | left + 1, index => do
    let value ← self.valueAt index
    if value.ownerKeyIndex = keyIndex then
      let found ← self.valueName value
      if eqlIgnoreCase found name then pure (some index) else seekValue self keyIndex name left (index + 1)
    else seekValue self keyIndex name left (index + 1)

def findValue (self : HiveView) (keyIndex : Nat) (name : Bytes) : Checked Error (Option Nat) :=
  if self.header.keyCount ≤ keyIndex then pure none
  else do
    let key ← self.keyAt keyIndex
    if key.valueCount = 0 ∨ key.firstValueIndex = invalidIndex then pure none
    else
      let stop ← addU32 key.firstValueIndex key.valueCount
      self.seekValue keyIndex name (stop - key.firstValueIndex) key.firstValueIndex

/-- The loop over the components, with at most `left` of them; none of `left` tells that this was too few. -/
def walk (self : HiveView) : Nat → Nat → Bytes → Option (Checked Error (Option Nat))
  | 0, _, _ => none
  | left + 1, current, rest =>
    match nextComponent rest with
    | none => some (pure (some current))
    | some (component, rest) =>
      match self.findChild current component with
      | .error e => some (.error e)
      | .ok none => some (pure none)
      | .ok (some child) => walk self left child rest

/-- Every component takes at least a byte of the path: `walk` ends. -/
def findKey (self : HiveView) (path : Bytes) : Checked Error (Option Nat) :=
  match parseRoot path with
  | none => pure none
  | some (kind, rest) =>
    if kind ≠ self.header.hiveKind then pure none else (self.walk (rest.length + 1) 0 rest).getD (pure none)

def getValue (self : HiveView) (keyPath valueName : Bytes) : Checked Error (Option Value) := do
  match ← self.findKey keyPath with
  | none => pure none
  | some keyIndex =>
    match ← self.findValue keyIndex valueName with
    | none => pure none
    | some valueIndex =>
      let record ← self.valueAt valueIndex
      let data ← self.valueData record
      pure (some { valueType := record.valueType, data })

end HiveView

/-! ## Checks -/

def indexInRange (first count index : Nat) : Bool :=
  if count = 0 ∨ first = invalidIndex ∨ index < first then false else decide (index - first < count)

def byteRange (bytes : Bytes) (offset size : Nat) : Checked Error Bytes :=
  if size = 0 then
    if offset = 0 then .ok []
    else if bytes.length < offset then .error (.fail .badRange)
    else part bytes offset 0
  else if bytes.length < offset ∨ bytes.length - offset < size then .error (.fail .badRange)
  else part bytes offset size

def tableRange (bytes : Bytes) (offset count recordSize : Nat) : Checked Error Bytes :=
  if count = 0 then
    if offset ≠ 0 then .error (.fail .badRange) else .ok []
  else if 0xffffffff < count * recordSize then .error (.fail .badRange)
  else byteRange bytes offset (count * recordSize)

def validateIndexRange (first count total : Nat) : Checked Error Unit :=
  if count = 0 then refuse (first != invalidIndex) .badRange
  else do
    refuse (first == invalidIndex || decide (total ≤ first)) .badRange
    refuse (decide (total - first < count)) .badRange

def validName (name : Bytes) (allowEmpty : Bool) : Bool :=
  if name.length = 0 then allowEmpty
  else if 63 < name.length then false
  else name.all (fun ch => !(ch < 0x20 || ch == 0x7f || ch == 0 || ch == 92 || ch == 47 || ch == 61))

def validateNameSlice (heap : Bytes) (offset len : Nat) (allowEmpty : Bool) : Checked Error Unit :=
  if len = 0 then refuse (!allowEmpty && offset != 0) .badName
  else do
    let name ← byteRange heap offset len
    refuse (!validName name allowEmpty) .badName

/-- The strings of a list of `left` strings from an offset on; the offset behind them. -/
def multiStrings (data : Bytes) : Nat → Nat → Checked Error Nat
  | 0, offset => pure offset
  | left + 1, offset => do
    refuse (decide (data.length < offset + 2)) .badData
    let len ← readLe data offset 2
    refuse (decide (data.length < offset + 2 + len)) .badData
    multiStrings data left (offset + 2 + len)

def validateMultiString (data : Bytes) : Checked Error Unit := do
  refuse (decide (data.length < 4)) .badData
  let count ← readLe data 0 4
  let offset ← multiStrings data count 4
  refuse (offset != data.length) .badData

def validateValuePayload (valueType : ValueType) (data : Bytes) : Checked Error Unit :=
  match valueType with
  | .string | .binary => pure ()
  | .u32 => refuse (data.length != 4) .badData
  | .u64 => refuse (data.length != 8) .badData
  | .bool => refuse (data.length != 1 || (data != [0] && data != [1])) .badData
  | .multiString => validateMultiString data

namespace HiveView

def validateKeyReserved (view : HiveView) (keyIndex : Nat) : Checked Error Unit := do
  let offset := keyIndex * keyRecordSize
  refuse ((← readLe view.keyTable (offset + 10) 2) != 0) .badReserved
  refuse ((← readLe view.keyTable (offset + 28) 4) != 0) .badReserved

def validateValueReservedAndType (view : HiveView) (valueIndex : Nat) : Checked Error Unit := do
  let offset := valueIndex * valueRecordSize
  refuse ((ValueType.fromInt (← readLe view.valueTable (offset + 10) 2)).isNone) .badValue
  refuse ((← readLe view.valueTable (offset + 12) 4) != 0) .badReserved
  refuse ((← readLe view.valueTable (offset + 24) 8) != 0) .badReserved

def keyListedByParent (view : HiveView) (keyIndex parentIndex : Nat) : Checked Error Bool :=
  if view.header.keyCount ≤ parentIndex then pure false
  else do
    let parent ← view.keyAt parentIndex
    pure (indexInRange parent.firstChildIndex parent.childCount keyIndex)

def valueListedByOwner (view : HiveView) (valueIndex ownerKeyIndex : Nat) : Checked Error Bool :=
  if view.header.keyCount ≤ ownerKeyIndex then pure false
  else do
    let owner ← view.keyAt ownerKeyIndex
    pure (indexInRange owner.firstValueIndex owner.valueCount valueIndex)

/-- What is checked of a key that is not the root. -/
def validateLink (view : HiveView) (keyIndex : Nat) (key : KeyRecord) : Checked Error Unit :=
  if keyIndex = 0 then pure ()
  else do
    refuse (key.parentIndex == invalidIndex) .badKey
    refuse (!(← view.keyListedByParent keyIndex key.parentIndex)) .badKey
    validateNameSlice view.stringHeap key.nameOffset key.nameLen false

def validateKey (view : HiveView) (keyIndex : Nat) : Checked Error Unit := do
  view.validateKeyReserved keyIndex
  let key ← view.keyAt keyIndex
  refuse (key.parentIndex != invalidIndex && decide (view.header.keyCount ≤ key.parentIndex)) .badKey
  view.validateLink keyIndex key
  validateIndexRange key.firstChildIndex key.childCount view.header.keyCount
  validateIndexRange key.firstValueIndex key.valueCount view.header.valueCount
  upTo key.childCount (fun childOffset => do
    let child ← view.keyAt (← addU32 key.firstChildIndex childOffset)
    refuse (child.parentIndex != keyIndex) .badKey)
  upTo key.valueCount (fun valueOffset => do
    let value ← view.valueAt (← addU32 key.firstValueIndex valueOffset)
    refuse (value.ownerKeyIndex != keyIndex) .badValue)

def validateValue (view : HiveView) (valueIndex : Nat) : Checked Error Unit := do
  view.validateValueReservedAndType valueIndex
  let value ← view.valueAt valueIndex
  refuse (decide (view.header.keyCount ≤ value.ownerKeyIndex)) .badValue
  refuse (!(← view.valueListedByOwner valueIndex value.ownerKeyIndex)) .badValue
  validateNameSlice view.stringHeap value.nameOffset value.nameLen true
  let data ← byteRange view.dataHeap value.dataOffset value.dataLen
  validateValuePayload value.valueType data

def validateDuplicateKeys (view : HiveView) : Checked Error Unit :=
  upTo view.header.keyCount (fun parentIndex => do
    let parent ← view.keyAt parentIndex
    upTo parent.childCount (fun a => do
      let keyA ← view.keyAt (← addU32 parent.firstChildIndex a)
      -- `b` runs from `a + 1`
      upTo (parent.childCount - (a + 1)) (fun i => do
        let keyB ← view.keyAt (← addU32 parent.firstChildIndex (a + 1 + i))
        refuse (eqlIgnoreCase (← view.keyName keyA) (← view.keyName keyB)) .duplicateKey)))

def validateDuplicateValues (view : HiveView) : Checked Error Unit :=
  upTo view.header.keyCount (fun keyIndex => do
    let key ← view.keyAt keyIndex
    upTo key.valueCount (fun a => do
      let valueA ← view.valueAt (← addU32 key.firstValueIndex a)
      upTo (key.valueCount - (a + 1)) (fun i => do
        let valueB ← view.valueAt (← addU32 key.firstValueIndex (a + 1 + i))
        refuse (eqlIgnoreCase (← view.valueName valueA) (← view.valueName valueB)) .duplicateValue)))

def validate (view : HiveView) : Checked Error Unit := do
  let root ← view.keyAt 0
  refuse (root.parentIndex != invalidIndex || root.nameLen != 0 || root.nameOffset != 0) .badRootKey
  upTo view.header.keyCount view.validateKey
  upTo view.header.valueCount view.validateValue
  view.validateDuplicateKeys
  view.validateDuplicateValues

end HiveView

/-- The sum of the bytes without the checksum itself. -/
def sum32 (bytes : Bytes) : Nat :=
  ((bytes.zipIdx.filter (fun p => !(76 ≤ p.2 && p.2 < 80))).map (fun p => p.1.toNat)).sum % 2 ^ 32

def parseHeader (bytes : Bytes) : Checked Error Header := do
  refuse (decide (bytes.length < headerSize)) .fileTooSmall
  refuse ((← part bytes 0 4) != magic) .badMagic
  refuse ((← readLe bytes 4 2) != 1) .badVersion
  refuse ((← readLe bytes 6 2) != headerSize) .badHeaderSize
  refuse ((← readLe bytes 8 2) != 1) .badEndian
  let hiveKind ← require (HiveKind.fromInt (← readLe bytes 10 2)) .badHiveKind
  refuse ((← readLe bytes 12 4) != 0) .badFlags
  refuse ((← readLe bytes 16 8) != bytes.length) .badFileSize
  refuse ((← readLe bytes 64 4) != 0 || (← readLe bytes 68 4) != 0) .badRange
  let checksumType ← readLe bytes 72 4
  refuse (checksumType != 0 && checksumType != 1) .badChecksumType
  refuse (!allZero (← part bytes 80 16)) .badReserved
  let checksum ← readLe bytes 76 4
  refuse (checksumType == 1 && sum32 bytes != checksum) .badChecksum
  pure
    { hiveKind, generation := ← readLe bytes 24 8, keyTableOffset := ← readLe bytes 32 4, keyCount := ← readLe bytes 36 4
      valueTableOffset := ← readLe bytes 40 4, valueCount := ← readLe bytes 44 4, stringHeapOffset := ← readLe bytes 48 4
      stringHeapSize := ← readLe bytes 52 4, dataHeapOffset := ← readLe bytes 56 4, dataHeapSize := ← readLe bytes 60 4
      checksumType, checksum }

def parseHive (bytes : Bytes) : Checked Error HiveView := do
  let header ← parseHeader bytes
  refuse (header.keyCount == 0) .badRootKey
  let keyTable ← tableRange bytes header.keyTableOffset header.keyCount keyRecordSize
  let valueTable ← tableRange bytes header.valueTableOffset header.valueCount valueRecordSize
  let stringHeap ← byteRange bytes header.stringHeapOffset header.stringHeapSize
  let dataHeap ← byteRange bytes header.dataHeapOffset header.dataHeapSize
  let view : HiveView := { bytes, header, keyTable, valueTable, stringHeap, dataHeap }
  view.validate
  pure view

end Hive
end R4
