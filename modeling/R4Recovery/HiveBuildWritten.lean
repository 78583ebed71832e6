import R4Recovery.HiveBuildCodec
/-!
# HiveBuildWritten — what the tables and heaps hold

`Written done` says of what is emitted for the keys `done`: a record for each of them and for each of their values, with its
name and data in the heaps.  Emitting another key keeps it.
-/
namespace R4
namespace Hive

/-- Later text and records are behind what is there. -/
structure Emitted.Extends (a b : Emitted) : Prop where
  keys : a.keys <+: b.keys
  values : a.values <+: b.values
  strings : a.strings <+: b.strings
  data : a.data <+: b.data

namespace Emitted.Extends

theorem refl (a : Emitted) : a.Extends a := ⟨List.prefix_rfl, List.prefix_rfl, List.prefix_rfl, List.prefix_rfl⟩

theorem trans {a b c : Emitted} (h : a.Extends b) (h' : b.Extends c) : a.Extends c :=
  ⟨h.keys.trans h'.keys, h.values.trans h'.values, h.strings.trans h'.strings, h.data.trans h'.data⟩

end Emitted.Extends

/-- A text stands in a heap. -/
def Stands (heap : Bytes) (offset : Nat) (text : Bytes) : Prop :=
  offset + text.length ≤ heap.length ∧ slice heap offset text.length = text

theorem Stands.mono {heap heap' : Bytes} {offset : Nat} {text : Bytes} (h : Stands heap offset text) (hp : heap <+: heap') :
    Stands heap' offset text := by
  obtain ⟨tail, rfl⟩ := hp
  refine ⟨?_, ?_⟩
  · rw [List.length_append]
    exact Nat.le_trans h.1 (Nat.le_add_right _ _)
  · rw [slice_front _ h.1]
    exact h.2

theorem Stands.last (heap text : Bytes) : Stands (heap ++ text) heap.length text := by
  refine ⟨Nat.le_of_eq List.length_append.symm, ?_⟩
  have hbehind : slice (heap ++ text) (heap.length + 0) text.length = slice text 0 text.length := slice_behind text rfl
  rw [Nat.add_zero] at hbehind
  rw [hbehind, slice_all rfl]

/-- The record of a value. -/
structure ValueWritten (e : Emitted) (record : ValueRecord) (flat : Nat) (value : BuildValue) : Prop where
  owner : record.ownerKeyIndex = flat
  nameLen : record.nameLen = value.name.length
  name : Stands e.strings record.nameOffset value.name
  type : record.valueType = value.valueType
  dataLen : record.dataLen = value.data.length
  data : Stands e.data record.dataOffset value.data

theorem ValueWritten.mono {e e' : Emitted} {record : ValueRecord} {flat : Nat} {value : BuildValue}
    (h : ValueWritten e record flat value) (hx : e.Extends e') : ValueWritten e' record flat value :=
  ⟨h.owner, h.nameLen, h.name.mono hx.strings, h.type, h.dataLen, h.data.mono hx.data⟩

/-! ## The values of a key -/

theorem Emitted.value_extends (e : Emitted) (flat : Nat) (value : BuildValue) : e.Extends (e.value flat value) :=
  ⟨List.prefix_rfl, List.prefix_append _ _, List.prefix_append _ _, List.prefix_append _ _⟩

theorem Emitted.value_written (e : Emitted) (flat : Nat) (value : BuildValue) : ∃ record,
    (e.value flat value).values[e.values.length]? = some record ∧ ValueWritten (e.value flat value) record flat value := by
  refine ⟨.mk flat e.strings.length value.name.length value.valueType e.data.length value.data.length, ?_, ?_⟩
  · rw [Emitted.value, List.getElem?_append_right (Nat.le_refl _), Nat.sub_self, List.getElem?_cons_zero]
  · exact ⟨rfl, rfl, Stands.last e.strings value.name, rfl, rfl, Stands.last e.data value.data⟩

/-- **Every value of a key has its record**, one behind the other. -/
theorem emitValues_spec (flat : Nat) : ∀ (own : List BuildValue) (e : Emitted),
    e.Extends (own.foldl (fun emitted value => emitted.value flat value) e) ∧
      (own.foldl (fun emitted value => emitted.value flat value) e).keys = e.keys ∧
      (own.foldl (fun emitted value => emitted.value flat value) e).values.length = e.values.length + own.length ∧
      ∀ i value, own[i]? = some value → ∃ record,
        (own.foldl (fun emitted value => emitted.value flat value) e).values[e.values.length + i]? = some record ∧
          ValueWritten (own.foldl (fun emitted value => emitted.value flat value) e) record flat value
  | [], e => ⟨.refl e, rfl, rfl, fun _ _ h => by cases h⟩
  | first :: own, e => by
    obtain ⟨hx, hkeys, hlen, hrec⟩ := emitValues_spec flat own (e.value flat first)
    have hone : (e.value flat first).values.length = e.values.length + 1 := by
      rw [Emitted.value, List.length_append, List.length_singleton]
    rw [List.foldl_cons]
    refine ⟨(e.value_extends flat first).trans hx, hkeys, ?_, fun i value hi => ?_⟩
    · rw [hlen, hone, List.length_cons]
      omega
    · cases i with
      | zero =>
        cases hi
        obtain ⟨record, hget, hw⟩ := e.value_written flat first
        obtain ⟨tail, htail⟩ := hx.values
        refine ⟨record, ?_, hw.mono hx⟩
        rw [← htail, Nat.add_zero, List.getElem?_append_left (by omega)]
        exact hget
      | succ i =>
        obtain ⟨record, hget, hw⟩ := hrec i value hi
        rw [hone] at hget
        exact ⟨record, by rwa [Nat.add_comm i 1, ← Nat.add_assoc], hw⟩

/-! ## The keys -/

section Keys

variable (keys : List BuildKey) (values : List (BuildValue × Nat)) (order : List Nat)

def buildKey (build : Nat) : BuildKey := keys.getD build { parent := invalidIndex, name := [] }

/-- The record of a key. -/
structure KeyWritten (e : Emitted) (record : KeyRecord) (flat build : Nat) : Prop where
  parent : record.parentIndex =
    if (buildKey keys build).parent = invalidIndex then invalidIndex else flatIndex order (buildKey keys build).parent
  nameLen : record.nameLen = (buildKey keys build).name.length
  name : Stands e.strings record.nameOffset (buildKey keys build).name
  root : flat = 0 → record.nameOffset = 0
  firstChild : record.firstChildIndex = ((buildChildren keys build).head?.map (flatIndex order)).getD invalidIndex
  childCount : record.childCount = (buildChildren keys build).length
  valueCount : record.valueCount = (valuesOf values build).length
  empty : valuesOf values build = [] → record.firstValueIndex = invalidIndex
  values : ∀ i value, (valuesOf values build)[i]? = some value → ∃ vr, e.values[record.firstValueIndex + i]? = some vr ∧
    ValueWritten e vr flat value

variable {keys values order}

theorem KeyWritten.mono {e e' : Emitted} {record : KeyRecord} {flat build : Nat}
    (h : KeyWritten keys values order e record flat build)
    (hx : e.Extends e') : KeyWritten keys values order e' record flat build where
  parent := h.parent
  nameLen := h.nameLen
  name := h.name.mono hx.strings
  root := h.root
  firstChild := h.firstChild
  childCount := h.childCount
  valueCount := h.valueCount
  empty := h.empty
  values i value hi := by
    obtain ⟨vr, hget, hw⟩ := h.values i value hi
    obtain ⟨tail, htail⟩ := hx.values
    refine ⟨vr, ?_, hw.mono hx⟩
    rw [← htail, List.getElem?_append_left (List.getElem?_eq_some_iff.1 hget).1]
    exact hget

/-- **What is emitted for the keys `done`.** -/
structure Written (keys : List BuildKey) (values : List (BuildValue × Nat)) (order done : List Nat) (e : Emitted) :
    Prop where
  count : e.keys.length = done.length
  key : ∀ flat build, done[flat]? = some build → ∃ record, e.keys[flat]? = some record ∧
    KeyWritten keys values order e record flat build
  valueCount : e.values.length = (done.flatMap (valuesOf values)).length
  owned : ∀ i, i < e.values.length → ∃ (flat build : Nat) (record : KeyRecord), done[flat]? = some build ∧
    e.keys[flat]? = some record ∧ record.firstValueIndex ≤ i ∧ i < record.firstValueIndex + (valuesOf values build).length
  start : done = [] → e.strings = []

theorem written_nil (keys : List BuildKey) (values : List (BuildValue × Nat)) (order : List Nat) :
    Written keys values order [] {} where
  count := rfl
  key flat build h := by cases h
  valueCount := rfl
  owned i hi := absurd hi (Nat.not_lt_zero i)
  start _ := rfl

/-- **Another key keeps it.** -/
theorem Written.step {done : List Nat} {e : Emitted} (h : Written keys values order done e) (build : Nat) :
    Written keys values order (done ++ [build]) (e.key keys values order done.length build) := by
  unfold Emitted.key
  dsimp only
  rw [show keys.getD build { parent := invalidIndex, name := [] } = buildKey keys build from rfl]
  generalize hrecord : KeyRecord.mk _ _ _ _ _ _ _ = record
  obtain ⟨hx, hkeys, hlen, hvalues⟩ := emitValues_spec done.length (valuesOf values build)
    { e with keys := e.keys ++ [record], strings := e.strings ++ (buildKey keys build).name }
  generalize hfinal : (valuesOf values build).foldl (fun emitted value => emitted.value done.length value)
    { e with keys := e.keys ++ [record], strings := e.strings ++ (buildKey keys build).name } = final at *
  show Written keys values order (done ++ [build]) final
  have hone : e.Extends { e with keys := e.keys ++ [record], strings := e.strings ++ (buildKey keys build).name } :=
    ⟨List.prefix_append _ _, List.prefix_rfl, List.prefix_append _ _, List.prefix_rfl⟩
  have hext := hone.trans hx
  have hkeys : final.keys = e.keys ++ [record] := hkeys
  have hlen : final.values.length = e.values.length + (valuesOf values build).length := hlen
  have hlast : final.keys[done.length]? = some record := by
    rw [hkeys, ← h.count, List.getElem?_append_right (Nat.le_refl _), Nat.sub_self, List.getElem?_cons_zero]
  have hold : ∀ (flat : Nat) (r : KeyRecord), e.keys[flat]? = some r → final.keys[flat]? = some r := by
    intro flat r hr
    rw [hkeys, List.getElem?_append_left (List.getElem?_eq_some_iff.1 hr).1]
    exact hr
  have hfirst : valuesOf values build ≠ [] → record.firstValueIndex = e.values.length := by
    intro hne
    rw [← hrecord]
    exact if_neg (fun h0 => hne (List.length_eq_zero_iff.1 h0))
  have hnew : KeyWritten keys values order final record done.length build := by
    refine ⟨?_, ?_, ?_, fun h0 => ?_, ?_, ?_, ?_, fun hnil => ?_, fun i value hi => ?_⟩
    · rw [← hrecord]
    · rw [← hrecord]
    · have hoffset : record.nameOffset = e.strings.length := by rw [← hrecord]
      rw [hoffset]
      exact (Stands.last e.strings _).mono hx.strings
    · have hoffset : record.nameOffset = e.strings.length := by rw [← hrecord]
      rw [hoffset, h.start (List.length_eq_zero_iff.1 h0)]
      rfl
    · rw [← hrecord]
    · rw [← hrecord]
    · rw [← hrecord]
    · rw [← hrecord]
      exact if_pos (List.length_eq_zero_iff.2 hnil)
    · have hne : valuesOf values build ≠ [] := by
        intro hnil
        rw [hnil] at hi
        cases hi
      rw [hfirst hne]
      exact hvalues i value hi
  refine ⟨?_, fun flat b hb => ?_, ?_, fun i hi => ?_, fun hnil => ?_⟩
  · rw [hkeys, List.length_append, List.length_append, h.count]
    rfl
  · rcases Nat.lt_or_ge flat done.length with hlt | hge
    · rw [List.getElem?_append_left hlt] at hb
      obtain ⟨r, hr, hw⟩ := h.key flat b hb
      exact ⟨r, hold flat r hr, hw.mono hext⟩
    · have hb' := hb
      rw [List.getElem?_append_right hge] at hb'
      have hz := (List.getElem?_eq_some_iff.1 hb').1
      rw [List.length_singleton] at hz
      have heq : flat = done.length := by omega
      subst heq
      rw [Nat.sub_self, List.getElem?_cons_zero] at hb'
      cases hb'
      exact ⟨record, hlast, hnew⟩
  · rw [hlen, h.valueCount, List.flatMap_append, List.flatMap_singleton, List.length_append]
  · rcases Nat.lt_or_ge i e.values.length with hlt | hge
    · obtain ⟨flat, b, r, hb, hr, hlo, hhi⟩ := h.owned i hlt
      refine ⟨flat, b, r, ?_, hold flat r hr, hlo, hhi⟩
      rw [List.getElem?_append_left (List.getElem?_eq_some_iff.1 hb).1]
      exact hb
    · have hne : valuesOf values build ≠ [] := by
        intro hnil
        rw [hnil, List.length_nil] at hlen
        omega
      refine ⟨done.length, build, record, ?_, hlast, ?_, ?_⟩
      · rw [List.getElem?_append_right (Nat.le_refl _), Nat.sub_self, List.getElem?_cons_zero]
      · rw [hfirst hne]
        exact hge
      · rw [hfirst hne]
        omega
  · exact absurd hnil (List.append_ne_nil_of_right_ne_nil _ (List.cons_ne_nil _ _))

theorem written_fold (keys : List BuildKey) (values : List (BuildValue × Nat)) (order : List Nat) : ∀ (rest : List Nat)
    {done : List Nat} {e : Emitted}, Written keys values order done e → Written keys values order (done ++ rest)
      ((rest.zipIdx done.length).foldl (fun emitted p => emitted.key keys values order p.2 p.1) e)
  | [], done, e, h => by
    rw [List.append_nil]
    exact h
  | build :: rest, done, e, h => by
    have hstep := written_fold keys values order rest (h.step build)
    rw [List.append_assoc, List.singleton_append, List.length_append, List.length_singleton] at hstep
    exact hstep

/-- **Everything is emitted.** -/
theorem emitAll_written (keys : List BuildKey) (values : List (BuildValue × Nat)) (order : List Nat) :
    Written keys values order order (emitAll keys values order) :=
  written_fold keys values order order (written_nil keys values order)

end Keys
end Hive
end R4
