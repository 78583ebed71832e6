import R4Recovery.Fields
import R4Recovery.HiveBuildOrder
/-!
# HiveBuildCodec — the bytes of a hive read back

The view of the bytes that the writer leaves has the tables and the heaps that it wrote, and their records are the ones
written.
-/
namespace R4
namespace Hive

open Gpt (getLe)

/-! ## Records -/

def keyFields (key : KeyRecord) : List (Nat × Nat) :=
  [(4, key.parentIndex), (4, key.nameOffset), (2, key.nameLen), (2, 0), (4, key.firstValueIndex), (4, key.valueCount),
    (4, key.firstChildIndex), (4, key.childCount), (4, 0)]

theorem keyBytes_eq (key : KeyRecord) : keyBytes key = Fields.encode (keyFields key) := by
  simp only [keyBytes, Fields.encode, keyFields, List.flatMap_cons, List.flatMap_nil, leBytes_zero, List.append_assoc,
    List.append_nil]

def valueFields (value : ValueRecord) : List (Nat × Nat) :=
  [(4, value.ownerKeyIndex), (4, value.nameOffset), (2, value.nameLen), (2, value.valueType.toInt), (4, 0),
      (4, value.dataOffset),
    (4, value.dataLen), (8, 0)]

theorem valueBytes_eq (value : ValueRecord) : valueBytes value = Fields.encode (valueFields value) := by
  simp only [valueBytes, Fields.encode, valueFields, List.flatMap_cons, List.flatMap_nil, leBytes_zero, List.append_assoc,
    List.append_nil]

theorem length_keyBytes (key : KeyRecord) : (keyBytes key).length = keyRecordSize := by
  rw [keyBytes_eq, Fields.length_encode]
  rfl

theorem length_valueBytes (value : ValueRecord) : (valueBytes value).length = valueRecordSize := by
  rw [valueBytes_eq, Fields.length_encode]
  rfl

theorem getLe_table {α : Type} {f : α → Bytes} {size : Nat} (hf : ∀ x, (f x).length = size) {L : List α} {i : Nat} {x : α}
    (h : L[i]? = some x) {off w : Nat} (hin : off + w ≤ size) :
    getLe (L.flatMap f) (i * size + off) w = leNat (slice (f x) off w) := by
  rw [getLe, ← slice_slice _ hin, slice_flatMap hf L i x h]

theorem getLe_keyFields {keys : List KeyRecord} {i : Nat} {key : KeyRecord} (h : keys[i]? = some key)
    (hfit : Fields.Fit (keyFields key)) (j : Nat) {w n : Nat} (hj : (keyFields key)[j]? = some (w, n)) :
    getLe (keys.flatMap keyBytes) (i * keyRecordSize + Fields.width ((keyFields key).take j)) w = n := by
  rw [getLe_table length_keyBytes h (Fields.width_take_le hj), keyBytes_eq,
    ← List.append_nil (Fields.encode (keyFields key))]
  exact Fields.read hfit [] j hj

theorem getLe_valueFields {values : List ValueRecord} {i : Nat} {value : ValueRecord} (h : values[i]? = some value)
    (hfit : Fields.Fit (valueFields value)) (j : Nat) {w n : Nat} (hj : (valueFields value)[j]? = some (w, n)) :
    getLe (values.flatMap valueBytes) (i * valueRecordSize + Fields.width ((valueFields value).take j)) w = n := by
  rw [getLe_table length_valueBytes h (Fields.width_take_le hj), valueBytes_eq,
    ← List.append_nil (Fields.encode (valueFields value))]
  exact Fields.read hfit [] j hj

/-- **A key record reads back.** -/
theorem keyOf_flatMap {keys : List KeyRecord} {i : Nat} {key : KeyRecord} (h : keys[i]? = some key)
    (hfit : Fields.Fit (keyFields key)) : keyOf (keys.flatMap keyBytes) i = key := by
  have hread := fun j w n => @getLe_keyFields keys i key h hfit j w n
  have h0 := hread 0 4 _ rfl
  have h1 := hread 1 4 _ rfl
  have h2 := hread 2 2 _ rfl
  have h4 := hread 4 4 _ rfl
  have h5 := hread 5 4 _ rfl
  have h6 := hread 6 4 _ rfl
  have h7 := hread 7 4 _ rfl
  unfold keyOf
  congr 1

theorem reserved_key {keys : List KeyRecord} {i : Nat} {key : KeyRecord} (h : keys[i]? = some key)
    (hfit : Fields.Fit (keyFields key)) : getLe (keys.flatMap keyBytes) (i * keyRecordSize + 10) 2 = 0 ∧
      getLe (keys.flatMap keyBytes) (i * keyRecordSize + 28) 4 = 0 :=
  ⟨getLe_keyFields h hfit 3 rfl, getLe_keyFields h hfit 8 rfl⟩

theorem fromInt_toInt (t : ValueType) : ValueType.fromInt t.toInt = some t := by cases t <;> rfl

theorem kind_fromInt_toInt (k : HiveKind) : HiveKind.fromInt k.toInt = some k := by cases k <;> rfl

/-- **A value record reads back.** -/
theorem valueOf_flatMap {values : List ValueRecord} {i : Nat} {value : ValueRecord} (h : values[i]? = some value)
    (hfit : Fields.Fit (valueFields value)) : valueOf (values.flatMap valueBytes) i = value := by
  have hread := fun j w n => @getLe_valueFields values i value h hfit j w n
  have h0 := hread 0 4 _ rfl
  have h1 := hread 1 4 _ rfl
  have h2 := hread 2 2 _ rfl
  have h3 : getLe (values.flatMap valueBytes) (i * valueRecordSize + 10) 2 = value.valueType.toInt := hread 3 2 _ rfl
  have h5 := hread 5 4 _ rfl
  have h6 := hread 6 4 _ rfl
  unfold valueOf
  rw [h3, fromInt_toInt]
  congr 1

theorem reserved_value {values : List ValueRecord} {i : Nat} {value : ValueRecord} (h : values[i]? = some value)
    (hfit : Fields.Fit (valueFields value)) :
    (ValueType.fromInt (getLe (values.flatMap valueBytes) (i * valueRecordSize + 10) 2)).isNone = false ∧
      getLe (values.flatMap valueBytes) (i * valueRecordSize + 12) 4 = 0 ∧
      getLe (values.flatMap valueBytes) (i * valueRecordSize + 24) 8 = 0 := by
  have h3 : getLe (values.flatMap valueBytes) (i * valueRecordSize + 10) 2 = value.valueType.toInt :=
    getLe_valueFields h hfit 3 rfl
  refine ⟨?_, getLe_valueFields h hfit 4 rfl, getLe_valueFields h hfit 7 rfl⟩
  rw [h3, fromInt_toInt]
  rfl

/-! ## The header -/

/-- An offset that is zero where there is nothing. -/
def offsetOf (count offset : Nat) : Nat := if count = 0 then 0 else offset

namespace Emitted

def valueTableOffset (self : Emitted) : Nat := headerSize + self.keys.length * keyRecordSize
def stringHeapOffset (self : Emitted) : Nat := self.valueTableOffset + self.values.length * valueRecordSize
def dataHeapOffset (self : Emitted) : Nat := self.stringHeapOffset + self.strings.length

def headerFields (self : Emitted) (kind : HiveKind) (generation : UInt64) : List (Nat × Nat) :=
  [(4, leNat magic), (2, 1), (2, headerSize), (2, 1), (2, kind.toInt), (4, 0), (8, self.size), (8, generation.toNat),
    (4, headerSize), (4, self.keys.length), (4, offsetOf self.values.length self.valueTableOffset), (4, self.values.length),
    (4, offsetOf self.strings.length self.stringHeapOffset), (4, self.strings.length),
    (4, offsetOf self.data.length self.dataHeapOffset), (4, self.data.length), (4, 0), (4, 0), (4, 0), (4, 0), (16, 0)]

/-- The widths of the fields of a header. -/
def headerWidths : List Nat := [4, 2, 2, 2, 2, 4, 8, 8, 4, 4, 4, 4, 4, 4, 4, 4, 4, 4, 4, 4, 16]

theorem width_take_header (self : Emitted) (kind : HiveKind) (generation : UInt64) (i : Nat) :
    Fields.width ((self.headerFields kind generation).take i) = (headerWidths.take i).sum := by
  rw [Fields.width, List.map_take]
  rfl

theorem headerBytes_eq (self : Emitted) (kind : HiveKind) (generation : UInt64) :
    headerBytes kind generation self.size self = Fields.encode (self.headerFields kind generation) := by
  have hmagic : leBytes 4 (leNat magic) = magic := leBytes_leNat magic
  have hzeros : zeros 32 = zeros 4 ++ (zeros 4 ++ (zeros 4 ++ (zeros 4 ++ zeros 16))) := rfl
  simp only [headerBytes, Fields.encode, headerFields, List.flatMap_cons, List.flatMap_nil, leBytes_zero, List.append_assoc,
    List.append_nil, hmagic, hzeros, offsetOf, valueTableOffset, stringHeapOffset, dataHeapOffset]

theorem size_eq (self : Emitted) : self.size = self.dataHeapOffset + self.data.length := rfl

/-- The view that is written. -/
def view (self : Emitted) (kind : HiveKind) (generation : UInt64) : HiveView where
  bytes := self.bytes kind generation
  header :=
    { hiveKind := kind, generation := generation.toNat, keyTableOffset := headerSize, keyCount := self.keys.length
      valueTableOffset := offsetOf self.values.length self.valueTableOffset, valueCount := self.values.length
      stringHeapOffset := offsetOf self.strings.length self.stringHeapOffset, stringHeapSize := self.strings.length
      dataHeapOffset := offsetOf self.data.length self.dataHeapOffset, dataHeapSize := self.data.length
      checksumType := 0, checksum := 0 }
  keyTable := self.keys.flatMap keyBytes
  valueTable := self.values.flatMap valueBytes
  stringHeap := self.strings
  dataHeap := self.data

theorem bytes_eq (self : Emitted) (kind : HiveKind) (generation : UInt64) : self.bytes kind generation =
    Fields.encode (self.headerFields kind generation) ++ (self.keys.flatMap keyBytes ++ (self.values.flatMap valueBytes ++
      (self.strings ++ self.data))) := by
  simp only [bytes, headerBytes_eq, List.append_assoc]

theorem length_bytes (self : Emitted) (kind : HiveKind) (generation : UInt64) :
    (self.bytes kind generation).length = self.size := by
  rw [bytes_eq, List.length_append, List.length_append, List.length_append, List.length_append, Fields.length_encode,
    length_flatMap_const length_keyBytes, length_flatMap_const length_valueBytes, size]
  have hwidth : Fields.width (self.headerFields kind generation) = headerSize := width_take_header self kind generation 21
  rw [hwidth]
  omega

section Written

variable {self : Emitted} {kind : HiveKind} {generation : UInt64}

theorem headerFit (hsize : self.size ≤ 0xffffffff) : Fields.Fit (self.headerFields kind generation) := by
  have hgeneration := generation.toNat_lt
  have hkind : kind.toInt < 5 := by cases kind <;> decide
  have hoffset : ∀ count offset, offset ≤ 0xffffffff → offsetOf count offset < 256 ^ 4 := by
    intro count offset h
    unfold offsetOf
    split
    · decide
    · omega
  have hkeys : self.keys.length ≤ self.size := by
    have : self.size = headerSize + self.keys.length * 32 + self.values.length * 32 + self.strings.length + self.data.length := rfl
    omega
  have hvalues : self.values.length ≤ self.size := by
    have : self.size = headerSize + self.keys.length * 32 + self.values.length * 32 + self.strings.length + self.data.length := rfl
    omega
  have hdata := self.size_eq
  have hstrings : self.dataHeapOffset = self.stringHeapOffset + self.strings.length := rfl
  have htable : self.stringHeapOffset = self.valueTableOffset + self.values.length * valueRecordSize := rfl
  intro field hfield
  simp only [headerFields, List.mem_cons, List.not_mem_nil, or_false] at hfield
  rcases hfield with rfl | rfl | rfl | rfl | rfl | rfl | rfl | rfl | rfl | rfl | rfl | rfl | rfl | rfl | rfl | rfl | rfl | rfl |
    rfl | rfl | rfl
  · decide
  · decide
  · decide
  · decide
  · show kind.toInt < 256 ^ 2
    omega
  · decide
  · show self.size < 256 ^ 8
    omega
  · show generation.toNat < 256 ^ 8
    omega
  · decide
  · show self.keys.length < 256 ^ 4
    omega
  · exact hoffset _ _ (by omega)
  · show self.values.length < 256 ^ 4
    omega
  · exact hoffset _ _ (by omega)
  · show self.strings.length < 256 ^ 4
    omega
  · exact hoffset _ _ (by omega)
  · show self.data.length < 256 ^ 4
    omega
  · decide
  · decide
  · decide
  · decide
  · decide

theorem slice_header (i : Nat) {off w n : Nat} (h : (self.headerFields kind generation)[i]? = some (w, n))
    (hoff : (headerWidths.take i).sum = off) : slice (self.bytes kind generation) off w = leBytes w n := by
  rw [bytes_eq, ← hoff, ← width_take_header self kind generation]
  exact Fields.slice_encode _ i h

theorem getLe_header (kind : HiveKind) (generation : UInt64) (hsize : self.size ≤ 0xffffffff) (i off w n : Nat)
    (h : (self.headerFields kind generation)[i]? = some (w, n)) (hoff : (headerWidths.take i).sum = off) :
    getLe (self.bytes kind generation) off w = n := by
  rw [bytes_eq, ← hoff, ← width_take_header self kind generation]
  exact Fields.read (headerFit hsize) _ i h

theorem headerOf_bytes (kind : HiveKind) (generation : UInt64) (hsize : self.size ≤ 0xffffffff) :
    headerOf (self.bytes kind generation) = (self.view kind generation).header := by
  have hread := getLe_header kind generation hsize
  unfold headerOf view
  rw [hread 4 10 2 _ rfl rfl, kind_fromInt_toInt, hread 7 24 8 _ rfl rfl, hread 8 32 4 _ rfl rfl, hread 9 36 4 _ rfl rfl,
    hread 10 40 4 _ rfl rfl, hread 11 44 4 _ rfl rfl, hread 12 48 4 _ rfl rfl, hread 13 52 4 _ rfl rfl,
    hread 14 56 4 _ rfl rfl,
    hread 15 60 4 _ rfl rfl, hread 18 72 4 _ rfl rfl, hread 19 76 4 _ rfl rfl]
  rfl

/-- **The header passes.** -/
theorem headerOk (hsize : self.size ≤ 0xffffffff) : HeaderOk (self.bytes kind generation) := by
  have hread := getLe_header kind generation hsize
  have hlen := self.length_bytes kind generation
  have hsum : self.size = headerSize + self.keys.length * 32 + self.values.length * 32 + self.strings.length + self.data.length :=
    rfl
  have hmagic : slice (self.bytes kind generation) 0 4 = leBytes 4 (leNat magic) := slice_header 0 rfl rfl
  have hzero : slice (self.bytes kind generation) 80 16 = leBytes 16 0 := slice_header 20 rfl rfl
  have htype : getLe (self.bytes kind generation) 72 4 = 0 := hread 18 72 4 _ rfl rfl
  refine ⟨by omega, hmagic.trans (leBytes_leNat magic), hread 1 4 2 _ rfl rfl, hread 2 6 2 _ rfl rfl, hread 3 8 2 _ rfl rfl, ?_,
    hread 5 12 4 _ rfl rfl, ?_, ⟨hread 16 64 4 _ rfl rfl, hread 17 68 4 _ rfl rfl⟩, Or.inl htype, ?_, fun h1 => ?_⟩
  · rw [hread 4 10 2 _ rfl rfl, kind_fromInt_toInt]
    rfl
  · rw [hlen]
    exact hread 6 16 8 _ rfl rfl
  · rw [hzero]
    decide
  · rw [htype] at h1
    cases h1

/-! ## The parts -/

theorem slice_part {pre part post : Bytes} {count offset : Nat} (hpre : pre.length = offset)
    (hcount : count = 0 → part = []) :
    slice (pre ++ (part ++ post)) (offsetOf count offset) part.length = part := by
  unfold offsetOf
  split
  · rename_i h0
    rw [hcount h0]
    rfl
  · rw [← List.append_assoc]
    exact slice_middle hpre rfl

theorem viewOf_bytes (hsize : self.size ≤ 0xffffffff) :
    viewOf (self.bytes kind generation) = self.view kind generation := by
  have hhead : (Fields.encode (self.headerFields kind generation)).length = headerSize := by
    have hlen := self.length_bytes kind generation
    rw [bytes_eq, List.length_append, List.length_append, List.length_append, List.length_append,
      length_flatMap_const length_keyBytes, length_flatMap_const length_valueBytes, size] at hlen
    omega
  have hk : (self.keys.flatMap keyBytes).length = self.keys.length * keyRecordSize := length_flatMap_const length_keyBytes _
  have hv : (self.values.flatMap valueBytes).length = self.values.length * valueRecordSize :=
      length_flatMap_const length_valueBytes _
  unfold viewOf
  rw [headerOf_bytes kind generation hsize]
  unfold view
  dsimp only
  congr 1
  · rw [bytes_eq, ← List.append_assoc, ← hk]
    exact slice_middle hhead rfl
  · rw [bytes_eq, ← List.append_assoc, ← hv]
    refine slice_part (by rw [List.length_append, hhead, hk]; rfl) (fun h0 => ?_)
    rw [List.length_eq_zero_iff.1 h0]
    rfl
  · rw [bytes_eq, ← List.append_assoc, ← List.append_assoc]
    refine slice_part ?_ List.length_eq_zero_iff.1
    rw [List.length_append, List.length_append, hhead, hk, hv]
    rfl
  · have hpost : self.strings ++ self.data = self.strings ++ (self.data ++ []) := by rw [List.append_nil]
    rw [bytes_eq, hpost, ← List.append_assoc, ← List.append_assoc, ← List.append_assoc]
    refine slice_part ?_ List.length_eq_zero_iff.1
    rw [List.length_append, List.length_append, List.length_append, hhead, hk, hv]
    rfl

/-- **The bytes of a valid view are a hive.** -/
theorem isHive (hsize : self.size ≤ 0xffffffff) (hkeys : self.keys ≠ []) (hvalid : (self.view kind generation).Valid) :
    IsHive (self.bytes kind generation) := by
  have hheader := headerOf_bytes kind generation hsize
  have hlen := self.length_bytes kind generation
  have hsum : self.size = headerSize + self.keys.length * 32 + self.values.length * 32 + self.strings.length + self.data.length :=
    rfl
  have hhead : headerSize = 96 := rfl
  have hvt : self.valueTableOffset = headerSize + self.keys.length * 32 := rfl
  have hst : self.stringHeapOffset = self.valueTableOffset + self.values.length * 32 := rfl
  have hdt : self.dataHeapOffset = self.stringHeapOffset + self.strings.length := rfl
  have hoffset : ∀ count offset, offsetOf count offset ≤ offset := by
    intro count offset
    unfold offsetOf
    split
    · exact Nat.zero_le _
    · exact Nat.le_refl _
  have ho1 := hoffset self.values.length self.valueTableOffset
  have ho2 := hoffset self.strings.length self.stringHeapOffset
  have ho3 := hoffset self.data.length self.dataHeapOffset
  have hpos := List.length_pos_of_ne_nil hkeys
  refine ⟨headerOk hsize, ?_, ?_, ?_, ?_, ?_, ?_⟩
  · rw [hheader]
    exact Nat.ne_of_gt hpos
  · rw [hheader, TableIn, hlen]
    refine ⟨fun h0 => absurd h0 (Nat.ne_of_gt hpos), ?_, ?_⟩
    · show self.keys.length * 32 ≤ _
      omega
    · show headerSize + self.keys.length * 32 ≤ _
      omega
  · rw [hheader, TableIn, hlen]
    refine ⟨fun h0 => if_pos h0, ?_, ?_⟩
    · show self.values.length * 32 ≤ _
      omega
    · show offsetOf self.values.length self.valueTableOffset + self.values.length * 32 ≤ _
      omega
  · rw [hheader, hlen]
    show offsetOf self.strings.length self.stringHeapOffset + self.strings.length ≤ _
    omega
  · rw [hheader, hlen]
    show offsetOf self.data.length self.dataHeapOffset + self.data.length ≤ _
    omega
  · rw [viewOf_bytes hsize]
    exact hvalid

end Written
end Emitted
end Hive
end R4
