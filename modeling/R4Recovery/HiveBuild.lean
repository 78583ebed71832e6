import R4Recovery.HiveTree
/-!
# HiveBuild — the writer of a registry hive

`buildHiveViewInto`: the values are checked and their keys collected, the keys are numbered breadth first, and the tables and
heaps are written key by key.  The scratch space and the output are given by their lengths.
-/
namespace R4
namespace Hive

structure BuildValue where
  keyPath : Bytes
  name : Bytes
  valueType : ValueType
  data : Bytes
  deriving DecidableEq, Repr

structure BuildKey where
  parent : Nat
  name : Bytes
  deriving DecidableEq, Repr

/-- The room of the scratch tables and of the output. -/
structure BuildRoom where
  keys : Nat
  valueKeyIndices : Nat
  flatKeyOrder : Nat
  out : Nat
  deriving DecidableEq, Repr

/-! ## Keys -/

/-- The keys of a parent, in the order of their making. -/
def buildChildren (keys : List BuildKey) (parent : Nat) : List Nat :=
  (List.range' 1 (keys.length - 1)).filter (fun index => (keys[index]?).any (fun key => key.parent == parent))

def findBuildChild (keys : List BuildKey) (parent : Nat) (name : Bytes) : Option Nat :=
  (List.range' 1 (keys.length - 1)).find?
    (fun index => (keys[index]?).any (fun key => key.parent == parent && eqlIgnoreCase key.name name))

/-- The loop over the components, with at most `left` of them. -/
def ensureComponents (room : BuildRoom) : Nat → List BuildKey → Nat → Bytes → Option (Except Error (List BuildKey × Nat))
  | 0, _, _, _ => none
  | left + 1, keys, current, rest =>
    match nextComponent rest with
    | none => some (.ok (keys, current))
    | some (component, rest) =>
      if !validName component false then some (.error .badName)
      else match findBuildChild keys current component with
        | some child => ensureComponents room left keys child rest
        | none =>
          if room.keys ≤ keys.length then some (.error .tooManyEntries)
          else ensureComponents room left (keys ++ [{ parent := current, name := component }]) keys.length rest

/-- The key of a path, made with its parents where it is missing. -/
def ensureBuildKey (room : BuildRoom) (kind : HiveKind) (keys : List BuildKey) (path : Bytes) :
    Except Error (List BuildKey × Nat) :=
  match parseRoot path with
  | none => .error .invalidPath
  | some (found, rest) =>
    if found ≠ kind then .error .rootMismatch
    else (ensureComponents room (rest.length + 1) keys 0 rest).getD (.error .invalidPath)

/-- The checks of a payload end without a fault. -/
def payloadCheck (value : BuildValue) : Except Error Unit :=
  match validateValuePayload value.valueType value.data with
  | .error (.fail e) => .error e
  | _ => .ok ()

/-- The values one after the other: the keys, and the key of each value. -/
def collectKeys (room : BuildRoom) (kind : HiveKind) : List BuildValue → List BuildKey → List (BuildValue × Nat) →
    Except Error (List BuildKey × List (BuildValue × Nat))
  | [], keys, done => .ok (keys, done)
  | value :: rest, keys, done => do
    payloadCheck value
    if !validName value.name true then .error .badName
    else
      let (keys, keyIndex) ← ensureBuildKey room kind keys value.keyPath
      if done.any (fun prior => prior.2 == keyIndex && eqlIgnoreCase prior.1.name value.name) then .error .duplicateValue
      else collectKeys room kind rest keys (done ++ [(value, keyIndex)])

/-! ## The order of the keys -/

/-- Breadth first from `cursor` on, with at most `left` keys. -/
def flatOrder (room : BuildRoom) (keys : List BuildKey) : Nat → Nat → List Nat → Option (Except Error (List Nat))
  | 0, cursor, order => if cursor < order.length then none else some (.ok order)
  | left + 1, cursor, order =>
    match order[cursor]? with
    | none => some (.ok order)
    | some parent =>
      let order := order ++ buildChildren keys parent
      if room.flatKeyOrder < order.length then some (.error .tooManyEntries) else flatOrder room keys left (cursor + 1) order

/-! ## The tables and heaps -/

/-- What is written so far. -/
structure Emitted where
  keys : List KeyRecord := []
  values : List ValueRecord := []
  strings : Bytes := []
  data : Bytes := []
  deriving DecidableEq, Repr

def Emitted.value (self : Emitted) (flat : Nat) (value : BuildValue) : Emitted where
  keys := self.keys
  values := self.values ++ [{ ownerKeyIndex := flat, nameOffset := self.strings.length, nameLen := value.name.length
                              valueType := value.valueType, dataOffset := self.data.length, dataLen := value.data.length }]
  strings := self.strings ++ value.name
  data := self.data ++ value.data

/-- The values of a key, in their order. -/
def valuesOf (values : List (BuildValue × Nat)) (build : Nat) : List BuildValue :=
  (values.filter (fun value => value.2 == build)).map Prod.fst

/-- The place of a key in the order is its flat index. -/
def flatIndex (order : List Nat) (build : Nat) : Nat := order.idxOf build

def Emitted.key (self : Emitted) (keys : List BuildKey) (values : List (BuildValue × Nat)) (order : List Nat)
    (flat build : Nat) :
    Emitted :=
  let key := keys.getD build { parent := invalidIndex, name := [] }
  let children := buildChildren keys build
  let own := valuesOf values build
  let record : KeyRecord :=
    { parentIndex := if key.parent = invalidIndex then invalidIndex else flatIndex order key.parent
      nameOffset := self.strings.length, nameLen := key.name.length
      firstValueIndex := if own.length = 0 then invalidIndex else self.values.length, valueCount := own.length
      firstChildIndex := (children.head?.map (flatIndex order)).getD invalidIndex, childCount := children.length }
  own.foldl (fun emitted value => emitted.value flat value)
    { self with keys := self.keys ++ [record], strings := self.strings ++ key.name }

def emitAll (keys : List BuildKey) (values : List (BuildValue × Nat)) (order : List Nat) : Emitted :=
  order.zipIdx.foldl (fun emitted p => emitted.key keys values order p.2 p.1) {}

def keyBytes (key : KeyRecord) : Bytes :=
  leBytes 4 key.parentIndex ++ leBytes 4 key.nameOffset ++ leBytes 2 key.nameLen ++ zeros 2 ++
      leBytes 4 key.firstValueIndex ++
    leBytes 4 key.valueCount ++ leBytes 4 key.firstChildIndex ++ leBytes 4 key.childCount ++ zeros 4

def valueBytes (value : ValueRecord) : Bytes :=
  leBytes 4 value.ownerKeyIndex ++ leBytes 4 value.nameOffset ++ leBytes 2 value.nameLen ++
      leBytes 2 value.valueType.toInt ++
    zeros 4 ++ leBytes 4 value.dataOffset ++ leBytes 4 value.dataLen ++ zeros 8

/-- The header; a table or heap that is empty is at offset 0. -/
def headerBytes (kind : HiveKind) (generation : UInt64) (fileSize : Nat) (emitted : Emitted) : Bytes :=
  let valueTableOffset := headerSize + emitted.keys.length * keyRecordSize
  let stringHeapOffset := valueTableOffset + emitted.values.length * valueRecordSize
  let dataHeapOffset := stringHeapOffset + emitted.strings.length
  magic ++ leBytes 2 1 ++ leBytes 2 headerSize ++ leBytes 2 1 ++ leBytes 2 kind.toInt ++ zeros 4 ++ leBytes 8 fileSize ++
    leBytes 8 generation.toNat ++ leBytes 4 headerSize ++ leBytes 4 emitted.keys.length ++
    leBytes 4 (if emitted.values.length = 0 then 0 else valueTableOffset) ++ leBytes 4 emitted.values.length ++
    leBytes 4 (if emitted.strings.length = 0 then 0 else stringHeapOffset) ++ leBytes 4 emitted.strings.length ++
    leBytes 4 (if emitted.data.length = 0 then 0 else dataHeapOffset) ++ leBytes 4 emitted.data.length ++ zeros 32

def Emitted.size (self : Emitted) : Nat :=
  headerSize + self.keys.length * keyRecordSize + self.values.length * valueRecordSize + self.strings.length + self.data.length

def Emitted.bytes (self : Emitted) (kind : HiveKind) (generation : UInt64) : Bytes :=
  headerBytes kind generation self.size self ++ self.keys.flatMap keyBytes ++ self.values.flatMap valueBytes ++
      self.strings ++
    self.data

/-- The hive that is built, parsed again.  A fault of the parser would be one of the writer. -/
def buildHiveViewInto (room : BuildRoom) (kind : HiveKind) (generation : UInt64) (values : List BuildValue) :
    Checked Error HiveView :=
  if room.keys = 0 ∨ room.flatKeyOrder = 0 then .error (.fail .tooManyEntries)
  else if room.valueKeyIndices < values.length then .error (.fail .tooManyEntries)
  else match collectKeys room kind values [{ parent := invalidIndex, name := [] }] [] with
    | .error e => .error (.fail e)
    | .ok (keys, values) =>
      match (flatOrder room keys keys.length 0 [0]).getD (.error .tooManyEntries) with
      | .error e => .error (.fail e)
      | .ok order =>
        let emitted := emitAll keys values order
        if 0xffffffff < emitted.size then .error (.fail .tooManyEntries)
        else if room.out < emitted.size then .error (.fail .outOfMemory)
        else parseHive (emitted.bytes kind generation)

end Hive
end R4
