import R4Recovery.HiveFormat
/-!
# HiveValid — which bytes are a hive

`Valid` is what `validate` accepts, said of the records of the two tables.  No check reads outside of a slice: each of them
relies on the ones before it.
-/
namespace R4
namespace Hive

open Gpt (getLe)
open Checked (refuse upTo Yields Settled)

/-! ## Reads that are inside -/

theorem readLe_eq {bytes : Bytes} {offset width : Nat} (h : offset + width ≤ bytes.length) :
    readLe bytes offset width = .ok (getLe bytes offset width) := if_pos h

theorem part_eq {bytes : Bytes} {start len : Nat} (h : start + len ≤ bytes.length) :
    part bytes start len = .ok (slice bytes start len) := if_pos h

theorem addU32_eq {a b : Nat} (h : a + b < 2 ^ 32) : addU32 a b = .ok (a + b) := if_pos h

theorem getLe_lt (bytes : Bytes) (offset width : Nat) : getLe bytes offset width < 256 ^ width :=
  Nat.lt_of_lt_of_le (leNat_lt _) (Nat.pow_le_pow_right (by decide) (length_slice_le _ _ _))

/-- The record of a key, read from a table that holds it. -/
def keyOf (table : Bytes) (index : Nat) : KeyRecord where
  parentIndex := getLe table (index * keyRecordSize + 0) 4
  nameOffset := getLe table (index * keyRecordSize + 4) 4
  nameLen := getLe table (index * keyRecordSize + 8) 2
  firstValueIndex := getLe table (index * keyRecordSize + 12) 4
  valueCount := getLe table (index * keyRecordSize + 16) 4
  firstChildIndex := getLe table (index * keyRecordSize + 20) 4
  childCount := getLe table (index * keyRecordSize + 24) 4

def valueOf (table : Bytes) (index : Nat) : ValueRecord where
  ownerKeyIndex := getLe table (index * valueRecordSize + 0) 4
  nameOffset := getLe table (index * valueRecordSize + 4) 4
  nameLen := getLe table (index * valueRecordSize + 8) 2
  valueType := (ValueType.fromInt (getLe table (index * valueRecordSize + 10) 2)).getD .binary
  dataOffset := getLe table (index * valueRecordSize + 16) 4
  dataLen := getLe table (index * valueRecordSize + 20) 4

theorem readKeyRecord_eq {table : Bytes} {index count : Nat} (h : table.length = count * keyRecordSize)
    (hi : index < count) :
    readKeyRecord table index = .ok (keyOf table index) := by
  have hsize : keyRecordSize = 32 := rfl
  rw [hsize] at h
  unfold readKeyRecord
  dsimp only
  rw [readLe_eq (by rw [hsize]; omega), readLe_eq (by rw [hsize]; omega), readLe_eq (by rw [hsize]; omega),
    readLe_eq (by rw [hsize]; omega), readLe_eq (by rw [hsize]; omega), readLe_eq (by rw [hsize]; omega),
    readLe_eq (by rw [hsize]; omega)]
  rfl

theorem readValueRecord_eq {table : Bytes} {index count : Nat} (h : table.length = count * valueRecordSize)
    (hi : index < count) :
    readValueRecord table index = .ok (valueOf table index) := by
  have hsize : valueRecordSize = 32 := rfl
  rw [hsize] at h
  unfold readValueRecord
  dsimp only
  rw [readLe_eq (by rw [hsize]; omega), readLe_eq (by rw [hsize]; omega), readLe_eq (by rw [hsize]; omega),
    readLe_eq (by rw [hsize]; omega), readLe_eq (by rw [hsize]; omega), readLe_eq (by rw [hsize]; omega)]
  rfl

namespace HiveView

def key (v : HiveView) (index : Nat) : KeyRecord := keyOf v.keyTable index

def value (v : HiveView) (index : Nat) : ValueRecord := valueOf v.valueTable index

def nameOf (v : HiveView) (key : KeyRecord) : Bytes := slice v.stringHeap key.nameOffset key.nameLen

def valueNameOf (v : HiveView) (value : ValueRecord) : Bytes := slice v.stringHeap value.nameOffset value.nameLen

def dataOf (v : HiveView) (value : ValueRecord) : Bytes := slice v.dataHeap value.dataOffset value.dataLen

/-- The tables hold the records that the header counts. -/
structure Shape (v : HiveView) : Prop where
  keys : v.keyTable.length = v.header.keyCount * keyRecordSize
  values : v.valueTable.length = v.header.valueCount * valueRecordSize
  keyCount : v.header.keyCount < 2 ^ 32
  valueCount : v.header.valueCount < 2 ^ 32

theorem Shape.keyAt {v : HiveView} (h : v.Shape) {index : Nat} (hi : index < v.header.keyCount) :
    v.keyAt index = .ok (v.key index) :=
  readKeyRecord_eq h.keys hi

theorem Shape.valueAt {v : HiveView} (h : v.Shape) {index : Nat} (hi : index < v.header.valueCount) :
    v.valueAt index = .ok (v.value index) := readValueRecord_eq h.values hi

end HiveView

theorem sliceFromHeap_eq {heap : Bytes} {offset len : Nat} (h : len ≠ 0 → offset + len ≤ heap.length) :
    sliceFromHeap heap offset len = .ok (slice heap offset len) := by
  unfold sliceFromHeap
  split
  · rename_i h0
    rw [h0]
    rfl
  · rename_i h0
    exact part_eq (h h0)

/-! ## Ranges and names -/

theorem byteRange_yields (bytes : Bytes) (offset size : Nat) :
    Yields (byteRange bytes offset size) (offset + size ≤ bytes.length) (slice bytes offset size) := by
  unfold byteRange
  by_cases h0 : size = 0
  · rw [if_pos h0, h0]
    have hnil : slice bytes offset 0 = [] := rfl
    rw [hnil]
    split
    · rename_i hz
      exact Or.inl ⟨by omega, rfl⟩
    · split
      · exact Or.inr ⟨by omega, _, rfl⟩
      · exact Or.inl ⟨by omega, part_eq (by omega)⟩
  · rw [if_neg h0]
    split
    · exact Or.inr ⟨by omega, _, rfl⟩
    · exact Or.inl ⟨by omega, part_eq (by omega)⟩

/-- What `tableRange` accepts. -/
def TableIn (bytes : Bytes) (offset count recordSize : Nat) : Prop :=
  (count = 0 → offset = 0) ∧ count * recordSize ≤ 0xffffffff ∧ offset + count * recordSize ≤ bytes.length

theorem tableRange_yields (bytes : Bytes) (offset count recordSize : Nat) :
    Yields (tableRange bytes offset count recordSize) (TableIn bytes offset count recordSize)
    (slice bytes offset (count * recordSize)) := by
  unfold tableRange TableIn
  by_cases h0 : count = 0
  · rw [if_pos h0, h0, Nat.zero_mul]
    by_cases hz : offset = 0
    · rw [if_neg (not_not.2 hz)]
      exact Or.inl ⟨⟨fun _ => hz, by omega, by omega⟩, rfl⟩
    · rw [if_pos hz]
      exact Or.inr ⟨fun hc => hz (hc.1 rfl), _, rfl⟩
  · rw [if_neg h0]
    by_cases hbig : 0xffffffff < count * recordSize
    · rw [if_pos hbig]
      exact Or.inr ⟨fun hc => by omega, _, rfl⟩
    · rw [if_neg hbig]
      refine (byteRange_yields bytes offset (count * recordSize)).congr ⟨fun h => ⟨fun hc => absurd hc h0, by omega, h⟩,
        fun h => h.2.2⟩

/-- What `validateIndexRange` accepts: nothing, or a range below `total`. -/
structure RangeValid (first count total : Nat) : Prop where
  empty : count = 0 → first = invalidIndex
  inside : count ≠ 0 → first ≠ invalidIndex ∧ first + count ≤ total

theorem validateIndexRange_yields (first count total : Nat) :
    Yields (validateIndexRange first count total) (RangeValid first count total) () := by
  unfold validateIndexRange
  by_cases h0 : count = 0
  · rw [if_pos h0]
    refine (Yields.refuse _ _).congr ?_
    rw [bne_eq_false_iff_eq]
    exact ⟨fun h => ⟨fun _ => h, fun hc => absurd h0 hc⟩, fun h => h.empty h0⟩
  · rw [if_neg h0]
    refine Yields.congr (Yields.seq (Yields.refuse _ _) (fun _ => Yields.refuse _ _)) ?_
    rw [Bool.or_eq_false_iff, beq_eq_false_iff_ne, decide_eq_false_iff_not, decide_eq_false_iff_not]
    constructor
    · rintro ⟨⟨h1, h2⟩, h3⟩
      exact ⟨fun hc => absurd hc h0, fun _ => ⟨h1, by omega⟩⟩
    · intro h
      obtain ⟨h1, h2⟩ := h.inside h0
      exact ⟨⟨h1, by omega⟩, by omega⟩

/-- What `validateNameSlice` accepts: a name of the heap, or none at all. -/
structure NameValid (heap : Bytes) (offset len : Nat) (allowEmpty : Bool) : Prop where
  empty : len = 0 → allowEmpty = false → offset = 0
  inside : len ≠ 0 → offset + len ≤ heap.length ∧ validName (slice heap offset len) allowEmpty = true

theorem validateNameSlice_yields (heap : Bytes) (offset len : Nat) (allowEmpty : Bool) :
    Yields (validateNameSlice heap offset len allowEmpty) (NameValid heap offset len allowEmpty) () := by
  unfold validateNameSlice
  by_cases h0 : len = 0
  · rw [if_pos h0]
    refine (Yields.refuse _ _).congr ⟨fun h => ⟨fun _ he => ?_, fun hc => absurd h0 hc⟩, fun h => ?_⟩
    · rw [he] at h
      simpa using h
    · cases allowEmpty
      · rw [h.empty h0 rfl]
        rfl
      · rfl
  · rw [if_neg h0]
    refine Yields.congr (Yields.bind (byteRange_yields heap offset len) (fun _ => Yields.refuse _ _)) ?_
    rw [Bool.not_eq_false']
    exact ⟨fun h => ⟨fun hc => absurd hc h0, fun _ => h⟩, fun h => h.inside h0⟩

/-! ## Payloads -/

theorem multiStrings_settled (data : Bytes) : ∀ (left offset : Nat), Settled (multiStrings data left offset)
  | 0, offset => Or.inl ⟨offset, rfl⟩
  | left + 1, offset => by
    unfold multiStrings
    refine (Yields.refuse _ _).settled.bind (fun _ h => ?_)
    have hin := (Yields.refuse _ _).holds h
    have hfit : offset + 2 ≤ data.length := by simpa using hin.1
    rw [readLe_eq hfit]
    refine Settled.bind (Or.inl ⟨_, rfl⟩) (fun len _ => ?_)
    exact (Yields.refuse _ _).settled.bind (fun _ _ => multiStrings_settled data left _)

theorem validateValuePayload_settled (valueType : ValueType) (data : Bytes) :
    Settled (validateValuePayload valueType data) := by
  cases valueType with
  | string => exact Or.inl ⟨(), rfl⟩
  | binary => exact Or.inl ⟨(), rfl⟩
  | u32 => exact (Yields.refuse _ _).settled
  | u64 => exact (Yields.refuse _ _).settled
  | bool => exact (Yields.refuse _ _).settled
  | multiString =>
    refine (Yields.refuse _ _).settled.bind (fun _ h => ?_)
    have hin := (Yields.refuse _ _).holds h
    have hfit : 0 + 4 ≤ data.length := by simpa using hin.1
    rw [readLe_eq hfit]
    refine Settled.bind (Or.inl ⟨_, rfl⟩) (fun count _ => ?_)
    exact (multiStrings_settled data count 4).bind (fun _ _ => (Yields.refuse _ _).settled)

/-- The payload passes the check of its type. -/
def PayloadOk (valueType : ValueType) (data : Bytes) : Prop := validateValuePayload valueType data = .ok ()

namespace HiveView

/-! ## Keys and values -/

/-- Whether the range of a parent or an owner holds an index. -/
def Listed (first count index : Nat) : Prop := first ≠ invalidIndex ∧ first ≤ index ∧ index < first + count

theorem indexInRange_iff {first count index : Nat} : indexInRange first count index = true ↔ Listed first count index := by
  unfold indexInRange Listed
  split
  · rename_i h
    constructor
    · intro hc
      cases hc
    · rintro ⟨hne, hlo, hhi⟩
      rcases h with h | h | h
      · omega
      · exact absurd h hne
      · omega
  · rename_i h
    rw [not_or, not_or] at h
    rw [decide_eq_true_eq]
    exact ⟨fun hl => ⟨h.2.1, by omega, by omega⟩, fun hl => by omega⟩

/-- A key that is not the root: its parent lists it, and its name passes. -/
structure LinkValid (v : HiveView) (index : Nat) : Prop where
  parent : (v.key index).parentIndex ≠ invalidIndex
  listed : (v.key index).parentIndex < v.header.keyCount ∧
    Listed (v.key (v.key index).parentIndex).firstChildIndex (v.key (v.key index).parentIndex).childCount index
  name : NameValid v.stringHeap (v.key index).nameOffset (v.key index).nameLen false

structure KeyValid (v : HiveView) (index : Nat) : Prop where
  reserved : getLe v.keyTable (index * keyRecordSize + 10) 2 = 0 ∧ getLe v.keyTable (index * keyRecordSize + 28) 4 = 0
  parent : (v.key index).parentIndex = invalidIndex ∨ (v.key index).parentIndex < v.header.keyCount
  link : index ≠ 0 → v.LinkValid index
  childRange : RangeValid (v.key index).firstChildIndex (v.key index).childCount v.header.keyCount
  valueRange : RangeValid (v.key index).firstValueIndex (v.key index).valueCount v.header.valueCount
  children : ∀ i, i < (v.key index).childCount → (v.key ((v.key index).firstChildIndex + i)).parentIndex = index
  owned : ∀ i, i < (v.key index).valueCount → (v.value ((v.key index).firstValueIndex + i)).ownerKeyIndex = index

structure ValueValid (v : HiveView) (index : Nat) : Prop where
  type : (ValueType.fromInt (getLe v.valueTable (index * valueRecordSize + 10) 2)).isNone = false
  reserved : getLe v.valueTable (index * valueRecordSize + 12) 4 = 0 ∧ getLe v.valueTable (index * valueRecordSize + 24)
      8 = 0
  owner : (v.value index).ownerKeyIndex < v.header.keyCount ∧
    Listed (v.key (v.value index).ownerKeyIndex).firstValueIndex (v.key (v.value index).ownerKeyIndex).valueCount index
  name : NameValid v.stringHeap (v.value index).nameOffset (v.value index).nameLen true
  data : (v.value index).dataOffset + (v.value index).dataLen ≤ v.dataHeap.length
  payload : PayloadOk (v.value index).valueType (v.dataOf (v.value index))

/-- **What `validate` accepts.** -/
structure Valid (v : HiveView) : Prop where
  root : (v.key 0).parentIndex = invalidIndex ∧ (v.key 0).nameLen = 0 ∧ (v.key 0).nameOffset = 0
  keys : ∀ i, i < v.header.keyCount → v.KeyValid i
  values : ∀ i, i < v.header.valueCount → v.ValueValid i
  keyNames : ∀ p, p < v.header.keyCount → ∀ a, a < (v.key p).childCount → ∀ i, i < (v.key p).childCount - (a + 1) →
    eqlIgnoreCase (v.nameOf (v.key ((v.key p).firstChildIndex + a)))
    (v.nameOf (v.key ((v.key p).firstChildIndex + (a + 1 + i)))) = false
  valueNames : ∀ k, k < v.header.keyCount → ∀ a, a < (v.key k).valueCount → ∀ i, i < (v.key k).valueCount - (a + 1) →
    eqlIgnoreCase (v.valueNameOf (v.value ((v.key k).firstValueIndex + a)))
      (v.valueNameOf (v.value ((v.key k).firstValueIndex + (a + 1 + i)))) = false

section Checks

variable {v : HiveView}

theorem validateKeyReserved_yields (h : v.Shape) {index : Nat} (hi : index < v.header.keyCount) :
    Yields (v.validateKeyReserved index)
      (getLe v.keyTable (index * keyRecordSize + 10) 2 = 0 ∧ getLe v.keyTable (index * keyRecordSize + 28) 4 = 0) () := by
  have hlen := h.keys
  have hsize : keyRecordSize = 32 := rfl
  rw [hsize] at hlen
  unfold validateKeyReserved
  dsimp only
  refine Yields.read (readLe_eq (by rw [hsize]; omega)) ?_
  refine Yields.congr (Yields.seq (Yields.refuse _ _) (fun _ =>
    Yields.read (readLe_eq (by rw [hsize]; omega)) (Yields.refuse _ _))) ?_
  rw [bne_eq_false_iff_eq, bne_eq_false_iff_eq]

theorem validateValueReservedAndType_yields (h : v.Shape) {index : Nat} (hi : index < v.header.valueCount) :
    Yields (v.validateValueReservedAndType index)
      ((ValueType.fromInt (getLe v.valueTable (index * valueRecordSize + 10) 2)).isNone = false ∧
        getLe v.valueTable (index * valueRecordSize + 12) 4 = 0 ∧ getLe v.valueTable (index * valueRecordSize + 24)
        8 = 0) () := by
  have hlen := h.values
  have hsize : valueRecordSize = 32 := rfl
  rw [hsize] at hlen
  unfold validateValueReservedAndType
  dsimp only
  refine Yields.read (readLe_eq (by rw [hsize]; omega)) ?_
  refine Yields.congr (Yields.seq (Yields.refuse _ _) (fun _ => Yields.read (readLe_eq (by rw [hsize]; omega))
    (Yields.seq (Yields.refuse _ _) (fun _ => Yields.read (readLe_eq (by rw [hsize]; omega)) (Yields.refuse _ _))))) ?_
  rw [bne_eq_false_iff_eq, bne_eq_false_iff_eq]

theorem keyListedByParent_eq (h : v.Shape) (index parent : Nat) : v.keyListedByParent index parent = .ok
    (decide (parent < v.header.keyCount) && indexInRange (v.key parent).firstChildIndex (v.key parent).childCount index)
        := by
  unfold keyListedByParent
  by_cases hp : v.header.keyCount ≤ parent
  · rw [if_pos hp, decide_eq_false (Nat.not_lt.2 hp)]
    rfl
  · rw [if_neg hp, h.keyAt (Nat.not_le.1 hp), decide_eq_true (Nat.not_le.1 hp)]
    rfl

theorem valueListedByOwner_eq (h : v.Shape) (index owner : Nat) : v.valueListedByOwner index owner = .ok
    (decide (owner < v.header.keyCount) && indexInRange (v.key owner).firstValueIndex (v.key owner).valueCount index) := by
  unfold valueListedByOwner
  by_cases hp : v.header.keyCount ≤ owner
  · rw [if_pos hp, decide_eq_false (Nat.not_lt.2 hp)]
    rfl
  · rw [if_neg hp, h.keyAt (Nat.not_le.1 hp), decide_eq_true (Nat.not_le.1 hp)]
    rfl

theorem validateLink_yields (h : v.Shape) (index : Nat) :
    Yields (v.validateLink index (v.key index)) (index ≠ 0 → v.LinkValid index) () := by
  unfold validateLink
  by_cases h0 : index = 0
  · rw [if_pos h0]
    exact Or.inl ⟨fun hc => absurd h0 hc, rfl⟩
  · rw [if_neg h0]
    refine Yields.congr (Yields.seq (Yields.refuse _ _) (fun _ => Yields.read (keyListedByParent_eq h _ _)
      (Yields.seq (Yields.refuse _ _) (fun _ => validateNameSlice_yields _ _ _ _)))) ?_
    rw [beq_eq_false_iff_ne, Bool.not_eq_false', Bool.and_eq_true, decide_eq_true_eq, indexInRange_iff]
    exact ⟨fun hc _ => ⟨hc.1, hc.2.1, hc.2.2⟩, fun hc => ⟨(hc h0).parent, (hc h0).listed, (hc h0).name⟩⟩

theorem validateKey_yields (h : v.Shape) {index : Nat} (hi : index < v.header.keyCount) :
    Yields (v.validateKey index) (v.KeyValid index) () := by
  have hkeys := h.keyCount
  have hvalues := h.valueCount
  unfold validateKey
  refine Yields.congr (Yields.seq (validateKeyReserved_yields h hi) (fun _ => Yields.read (h.keyAt hi)
    (Yields.seq (Yields.refuse _ _) (fun _ => Yields.seq (validateLink_yields h index) (fun _ =>
      Yields.seq (validateIndexRange_yields _ _ _) (fun hchild => Yields.seq (validateIndexRange_yields _ _ _) (fun hvalue =>
        Yields.seq (Yields.upTo (P := fun i => (v.key ((v.key index).firstChildIndex + i)).parentIndex = index)
            (fun i hlt _ => ?_))
          (fun _ => Yields.upTo (P := fun i => (v.value ((v.key index).firstValueIndex + i)).ownerKeyIndex = index)
            (fun i hlt _ => ?_))))))))) ?_
  · obtain ⟨_, hin⟩ := hchild.inside (by omega)
    refine Yields.read (addU32_eq (by omega)) (Yields.read (h.keyAt (by omega)) ((Yields.refuse _ _).congr ?_))
    rw [bne_eq_false_iff_eq]
  · obtain ⟨_, hin⟩ := hvalue.inside (by omega)
    refine Yields.read (addU32_eq (by omega)) (Yields.read (h.valueAt (by omega)) ((Yields.refuse _ _).congr ?_))
    rw [bne_eq_false_iff_eq]
  · have hparent : ((v.key index).parentIndex != invalidIndex && decide (v.header.keyCount ≤ (v.key index).parentIndex))
        = false ↔
        (v.key index).parentIndex = invalidIndex ∨ (v.key index).parentIndex < v.header.keyCount := by
      rw [Bool.and_eq_false_iff, bne_eq_false_iff_eq, decide_eq_false_iff_not, Nat.not_le]
    rw [hparent]
    constructor
    · rintro ⟨hreserved, hparent, hlink, hchild, hvalue, hchildren, howned⟩
      exact ⟨hreserved, hparent, hlink, hchild, hvalue, hchildren, howned⟩
    · rintro ⟨hreserved, hparent, hlink, hchild, hvalue, hchildren, howned⟩
      exact ⟨hreserved, hparent, hlink, hchild, hvalue, hchildren, howned⟩

theorem validateValue_yields (h : v.Shape) {index : Nat} (hi : index < v.header.valueCount) :
    Yields (v.validateValue index) (v.ValueValid index) () := by
  unfold validateValue
  refine Yields.congr (Yields.seq (validateValueReservedAndType_yields h hi) (fun _ => Yields.read (h.valueAt hi)
    (Yields.seq (Yields.refuse _ _) (fun _ => Yields.read (valueListedByOwner_eq h _ _)
    (Yields.seq (Yields.refuse _ _) (fun _ =>
      Yields.seq (validateNameSlice_yields _ _ _ _) (fun _ => Yields.bind (byteRange_yields _ _ _) (fun _ =>
        (validateValuePayload_settled _ _).yields)))))))) ?_
  rw [decide_eq_false_iff_not, Nat.not_le, Bool.not_eq_false', Bool.and_eq_true, decide_eq_true_eq, indexInRange_iff]
  constructor
  · rintro ⟨⟨htype, hreserved⟩, _, howner, hname, hdata, hpayload⟩
    exact ⟨htype, hreserved, howner, hname, hdata, hpayload⟩
  · rintro ⟨htype, hreserved, howner, hname, hdata, hpayload⟩
    exact ⟨⟨htype, hreserved⟩, howner.1, howner, hname, hdata, hpayload⟩

theorem KeyValid.keyName {index : Nat} (h : v.KeyValid index) (hi : index ≠ 0) : v.keyName (v.key index)
    = .ok (v.nameOf (v.key index)) :=
  sliceFromHeap_eq (fun hlen => ((h.link hi).name.inside hlen).1)

theorem ValueValid.valueName {index : Nat} (h : v.ValueValid index) : v.valueName (v.value index)
    = .ok (v.valueNameOf (v.value index)) :=
  sliceFromHeap_eq (fun hlen => (h.name.inside hlen).1)

theorem ValueValid.valueData {index : Nat} (h : v.ValueValid index) : v.valueData (v.value index)
    = .ok (v.dataOf (v.value index)) :=
  sliceFromHeap_eq (fun _ => h.data)

theorem KeyValid.child {index : Nat} (h : v.KeyValid index) (hi : index < v.header.keyCount)
    (hkeys : v.header.keyCount < 2 ^ 32)
    (hroot : (v.key 0).parentIndex = invalidIndex) {i : Nat} (hlt : i < (v.key index).childCount) :
    (v.key index).firstChildIndex + i < v.header.keyCount ∧ (v.key index).firstChildIndex + i ≠ 0 := by
  obtain ⟨_, hin⟩ := h.childRange.inside (by omega)
  refine ⟨by omega, fun h0 => ?_⟩
  have hback := h.children i hlt
  rw [h0, hroot] at hback
  have hinvalid : invalidIndex = 0xffffffff := rfl
  omega

theorem validateDuplicateKeys_yields (h : v.Shape) (hroot : (v.key 0).parentIndex = invalidIndex)
    (hvalid : ∀ i, i < v.header.keyCount → v.KeyValid i) : Yields v.validateDuplicateKeys
      (∀ p, p < v.header.keyCount → ∀ a, a < (v.key p).childCount → ∀ i, i < (v.key p).childCount - (a + 1) →
        eqlIgnoreCase (v.nameOf (v.key ((v.key p).firstChildIndex + a)))
          (v.nameOf (v.key ((v.key p).firstChildIndex + (a + 1 + i)))) = false) () := by
  have hkeys := h.keyCount
  refine Yields.upTo (fun p hp _ => Yields.read (h.keyAt hp) (Yields.upTo (fun a ha _ => ?_)))
  obtain ⟨ha1, ha2⟩ := (hvalid p hp).child hp hkeys hroot ha
  refine Yields.read (addU32_eq (by omega)) (Yields.read (h.keyAt ha1) (Yields.upTo (fun i hi _ => ?_)))
  obtain ⟨hb1, hb2⟩ := (hvalid p hp).child hp hkeys hroot (by omega : a + 1 + i < _)
  exact Yields.read (addU32_eq (by omega)) (Yields.read (h.keyAt hb1) (Yields.read ((hvalid _ ha1).keyName ha2)
    (Yields.read ((hvalid _ hb1).keyName hb2) (Yields.refuse _ _))))

theorem validateDuplicateValues_yields (h : v.Shape) (hkeys : ∀ i, i < v.header.keyCount → v.KeyValid i)
    (hvalues : ∀ i, i < v.header.valueCount → v.ValueValid i) : Yields v.validateDuplicateValues
      (∀ k, k < v.header.keyCount → ∀ a, a < (v.key k).valueCount → ∀ i, i < (v.key k).valueCount - (a + 1) →
        eqlIgnoreCase (v.valueNameOf (v.value ((v.key k).firstValueIndex + a)))
          (v.valueNameOf (v.value ((v.key k).firstValueIndex + (a + 1 + i)))) = false) () := by
  have hcount := h.valueCount
  refine Yields.upTo (fun k hk _ => Yields.read (h.keyAt hk) (Yields.upTo (fun a ha _ => ?_)))
  obtain ⟨_, hin⟩ := (hkeys k hk).valueRange.inside (by omega)
  have hat : (v.key k).firstValueIndex + a < v.header.valueCount := by omega
  refine Yields.read (addU32_eq (by omega)) (Yields.read (h.valueAt hat) (Yields.upTo (fun i hi _ => ?_)))
  have hbt : (v.key k).firstValueIndex + (a + 1 + i) < v.header.valueCount := by omega
  exact Yields.read (addU32_eq (by omega)) (Yields.read (h.valueAt hbt) (Yields.read (hvalues _ hat).valueName
    (Yields.read (hvalues _ hbt).valueName (Yields.refuse _ _))))

theorem validate_yields (h : v.Shape) (hroot : 0 < v.header.keyCount) : Yields v.validate v.Valid () := by
  unfold validate
  refine Yields.read (h.keyAt hroot) ?_
  refine Yields.congr (Yields.seq (Yields.refuse _ _)
    (fun hr => Yields.seq (Yields.upTo (fun i hi _ => validateKey_yields h hi))
    (fun hkeys => Yields.seq (Yields.upTo (fun i hi _ => validateValue_yields h hi)) (fun hvalues =>
      Yields.seq (validateDuplicateKeys_yields h ?_ hkeys) (fun _ => validateDuplicateValues_yields h hkeys hvalues))))) ?_
  · simp only [Bool.or_eq_false_iff, bne_eq_false_iff_eq] at hr
    exact hr.1.1
  · simp only [Bool.or_eq_false_iff, bne_eq_false_iff_eq]
    constructor
    · rintro ⟨⟨⟨hparent, hlen⟩, hoffset⟩, hkeys, hvalues, hknames, hvnames⟩
      exact ⟨⟨hparent, hlen, hoffset⟩, hkeys, hvalues, hknames, hvnames⟩
    · rintro ⟨⟨hparent, hlen, hoffset⟩, hkeys, hvalues, hknames, hvnames⟩
      exact ⟨⟨⟨hparent, hlen⟩, hoffset⟩, hkeys, hvalues, hknames, hvnames⟩

end Checks

end HiveView

/-! ## The whole hive -/

def headerOf (bytes : Bytes) : Header where
  hiveKind := (HiveKind.fromInt (getLe bytes 10 2)).getD .system
  generation := getLe bytes 24 8
  keyTableOffset := getLe bytes 32 4
  keyCount := getLe bytes 36 4
  valueTableOffset := getLe bytes 40 4
  valueCount := getLe bytes 44 4
  stringHeapOffset := getLe bytes 48 4
  stringHeapSize := getLe bytes 52 4
  dataHeapOffset := getLe bytes 56 4
  dataHeapSize := getLe bytes 60 4
  checksumType := getLe bytes 72 4
  checksum := getLe bytes 76 4

structure HeaderOk (bytes : Bytes) : Prop where
  size : headerSize ≤ bytes.length
  magic : slice bytes 0 4 = Hive.magic
  version : getLe bytes 4 2 = 1
  headerSize : getLe bytes 6 2 = Hive.headerSize
  endian : getLe bytes 8 2 = 1
  kind : (HiveKind.fromInt (getLe bytes 10 2)).isSome = true
  flags : getLe bytes 12 4 = 0
  fileSize : getLe bytes 16 8 = bytes.length
  spare : getLe bytes 64 4 = 0 ∧ getLe bytes 68 4 = 0
  checksumType : getLe bytes 72 4 = 0 ∨ getLe bytes 72 4 = 1
  reserved : allZero (slice bytes 80 16) = true
  checksum : getLe bytes 72 4 = 1 → sum32 bytes = getLe bytes 76 4

theorem parseHeader_yields (bytes : Bytes) : Yields (parseHeader bytes) (HeaderOk bytes) (headerOf bytes) := by
  have hhead : Hive.headerSize = 96 := rfl
  have hsteps : Yields (parseHeader bytes) (decide (bytes.length < Hive.headerSize) = false ∧
      (slice bytes 0 4 != Hive.magic) = false ∧
      (getLe bytes 4 2 != 1) = false ∧ (getLe bytes 6 2 != Hive.headerSize) = false ∧ (getLe bytes 8 2 != 1) = false ∧
      (HiveKind.fromInt (getLe bytes 10 2)).isSome = true ∧ (getLe bytes 12 4 != 0) = false ∧
      (getLe bytes 16 8 != bytes.length) = false ∧ (getLe bytes 64 4 != 0 || getLe bytes 68 4 != 0) = false ∧
      (getLe bytes 72 4 != 0 && getLe bytes 72 4 != 1) = false ∧ (!allZero (slice bytes 80 16)) = false ∧
      (getLe bytes 72 4 == 1 && sum32 bytes != getLe bytes 76 4) = false ∧ True) (headerOf bytes) := by
    unfold parseHeader
    refine Yields.seq (Yields.refuse _ _) (fun hsize => ?_)
    rw [decide_eq_false_iff_not, hhead] at hsize
    have hread : ∀ offset width, offset + width ≤ 96 → readLe bytes offset width = .ok (getLe bytes offset width) :=
      fun offset width h => readLe_eq (by omega)
    have hpart : ∀ start len, start + len ≤ 96 → part bytes start len = .ok (slice bytes start len) :=
      fun start len h => part_eq (by omega)
    refine Yields.read (hpart 0 4 (by decide)) (Yields.seq (Yields.refuse _ _) (fun _ => ?_))
    refine Yields.read (hread 4 2 (by decide)) (Yields.seq (Yields.refuse _ _) (fun _ => ?_))
    refine Yields.read (hread 6 2 (by decide)) (Yields.seq (Yields.refuse _ _) (fun _ => ?_))
    refine Yields.read (hread 8 2 (by decide)) (Yields.seq (Yields.refuse _ _) (fun _ => ?_))
    refine Yields.read (hread 10 2 (by decide)) ?_
    refine Yields.bind (Yields.require _ _ .system) (fun _ => ?_)
    refine Yields.read (hread 12 4 (by decide)) (Yields.seq (Yields.refuse _ _) (fun _ => ?_))
    refine Yields.read (hread 16 8 (by decide)) (Yields.seq (Yields.refuse _ _) (fun _ => ?_))
    refine Yields.read (hread 64 4 (by decide)) (Yields.read (hread 68 4 (by decide))
      (Yields.seq (Yields.refuse _ _) (fun _ => ?_)))
    refine Yields.read (hread 72 4 (by decide)) (Yields.seq (Yields.refuse _ _) (fun _ => ?_))
    refine Yields.read (hpart 80 16 (by decide)) (Yields.seq (Yields.refuse _ _) (fun _ => ?_))
    refine Yields.read (hread 76 4 (by decide)) (Yields.seq (Yields.refuse _ _) (fun _ => ?_))
    refine Yields.read (hread 24 8 (by decide)) (Yields.read (hread 32 4 (by decide))
      (Yields.read (hread 36 4 (by decide)) ?_))
    refine Yields.read (hread 40 4 (by decide)) (Yields.read (hread 44 4 (by decide))
      (Yields.read (hread 48 4 (by decide)) ?_))
    refine Yields.read (hread 52 4 (by decide)) (Yields.read (hread 56 4 (by decide))
      (Yields.read (hread 60 4 (by decide)) ?_))
    exact Yields.pure _
  refine hsteps.congr ?_
  simp only [bne_eq_false_iff_eq, Bool.or_eq_false_iff, Bool.and_eq_false_iff, Bool.not_eq_false', beq_eq_false_iff_ne,
    decide_eq_false_iff_not, Nat.not_lt]
  constructor
  · rintro ⟨hsize, hmagic, hversion, hheader, hendian, hkind, hflags, hfile, hspare, htype, hreserved, hsum, _⟩
    exact ⟨hsize, hmagic, hversion, hheader, hendian, hkind, hflags, hfile, hspare, htype, hreserved,
      fun h1 => hsum.resolve_left (not_not.2 h1)⟩
  · rintro ⟨hsize, hmagic, hversion, hheader, hendian, hkind, hflags, hfile, hspare, htype, hreserved, hsum⟩
    exact ⟨hsize, hmagic, hversion, hheader, hendian, hkind, hflags, hfile, hspare, htype, hreserved,
      (eq_or_ne (getLe bytes 72 4) 1).symm.imp_right hsum, trivial⟩

/-- The view of the tables and heaps that the header names. -/
def viewOf (bytes : Bytes) : HiveView where
  bytes := bytes
  header := headerOf bytes
  keyTable := slice bytes (headerOf bytes).keyTableOffset ((headerOf bytes).keyCount * keyRecordSize)
  valueTable := slice bytes (headerOf bytes).valueTableOffset ((headerOf bytes).valueCount * valueRecordSize)
  stringHeap := slice bytes (headerOf bytes).stringHeapOffset (headerOf bytes).stringHeapSize
  dataHeap := slice bytes (headerOf bytes).dataHeapOffset (headerOf bytes).dataHeapSize

/-- **The bytes that are a hive.** -/
structure IsHive (bytes : Bytes) : Prop where
  header : HeaderOk bytes
  rooted : (headerOf bytes).keyCount ≠ 0
  keyTable : TableIn bytes (headerOf bytes).keyTableOffset (headerOf bytes).keyCount keyRecordSize
  valueTable : TableIn bytes (headerOf bytes).valueTableOffset (headerOf bytes).valueCount valueRecordSize
  stringHeap : (headerOf bytes).stringHeapOffset + (headerOf bytes).stringHeapSize ≤ bytes.length
  dataHeap : (headerOf bytes).dataHeapOffset + (headerOf bytes).dataHeapSize ≤ bytes.length
  valid : (viewOf bytes).Valid

theorem viewOf_shape {bytes : Bytes} (hk : TableIn bytes (headerOf bytes).keyTableOffset (headerOf bytes).keyCount keyRecordSize)
    (hv : TableIn bytes (headerOf bytes).valueTableOffset (headerOf bytes).valueCount valueRecordSize) :
    (viewOf bytes).Shape :=
  ⟨length_slice hk.2.2, length_slice hv.2.2, getLe_lt bytes 36 4, getLe_lt bytes 44 4⟩

/-- **Parsing gives the view of a hive and refuses all other bytes; it never faults.** -/
theorem parseHive_yields (bytes : Bytes) : Yields (parseHive bytes) (IsHive bytes) (viewOf bytes) := by
  unfold parseHive
  refine Yields.congr (Yields.bind (parseHeader_yields bytes) (fun _ => Yields.seq (Yields.refuse _ _) (fun hroot =>
    Yields.bind (tableRange_yields _ _ _ _) (fun hk => Yields.bind (tableRange_yields _ _ _ _) (fun hv =>
      Yields.bind (byteRange_yields _ _ _) (fun _ => Yields.bind (byteRange_yields _ _ _) (fun _ =>
        Yields.seq (HiveView.validate_yields (v := viewOf bytes) (viewOf_shape hk hv) ?_) (fun _ => Yields.pure _)))))))) ?_
  · exact Nat.pos_of_ne_zero (beq_eq_false_iff_ne.1 hroot)
  · rw [beq_eq_false_iff_ne]
    constructor
    · rintro ⟨hheader, hroot, hk, hv, hs, hd, hvalid, _⟩
      exact ⟨hheader, hroot, hk, hv, hs, hd, hvalid⟩
    · rintro ⟨hheader, hroot, hk, hv, hs, hd, hvalid⟩
      exact ⟨hheader, hroot, hk, hv, hs, hd, hvalid, trivial⟩

end Hive
end R4
