import R4Recovery.HiveBuildWritten
/-!
# HiveBuildValid — the writer leaves a hive

The records of what is built pass every check of the reader: the children of a key and its values are contiguous, each names
its parent or owner, and no two siblings or values of a key have one name up to case.
-/
namespace R4
namespace Hive

open Gpt (getLe)

/-! ## Counts -/

theorem valuesOf_cons (p : BuildValue × Nat) (values : List (BuildValue × Nat)) (build : Nat) :
    (valuesOf (p :: values) build).length = (if p.2 = build then 1 else 0) + (valuesOf values build).length := by
  unfold valuesOf
  rw [List.filter_cons]
  by_cases h : p.2 = build
  · rw [if_pos (beq_iff_eq.2 h), if_pos h, List.map_cons, List.length_cons, Nat.add_comm]
  · rw [if_neg (fun hc => h (beq_iff_eq.1 hc)), if_neg h, Nat.zero_add]

theorem mem_valuesOf {values : List (BuildValue × Nat)} {build : Nat} {value : BuildValue} :
    value ∈ valuesOf values build ↔ (value, build) ∈ values := by
  unfold valuesOf
  rw [List.mem_map]
  constructor
  · rintro ⟨p, hp, rfl⟩
    obtain ⟨hmem, heq⟩ := List.mem_filter.1 hp
    rw [← beq_iff_eq.1 heq]
    exact hmem
  · intro h
    exact ⟨(value, build), List.mem_filter.2 ⟨h, beq_iff_eq.2 rfl⟩, rfl⟩

theorem sum_indicator (n : Nat) : ∀ order : List Nat, (order.map (fun build => if n = build then 1 else 0)).sum =
    order.count n
  | [] => rfl
  | build :: order => by
    rw [List.map_cons, List.sum_cons, sum_indicator n order, List.count_cons, Nat.add_comm]
    congr 1
    by_cases h : n = build
    · rw [if_pos h, if_pos (beq_iff_eq.2 h.symm)]
    · rw [if_neg h, if_neg (fun hc => h (beq_iff_eq.1 hc).symm)]

theorem length_valuesOf {order : List Nat} (hnodup : order.Nodup) : ∀ {values : List (BuildValue × Nat)},
    (∀ p ∈ values, p.2 ∈ order) → (order.flatMap (valuesOf values)).length = values.length
  | [], _ => by
    rw [List.length_flatMap]
    have hzero : order.map (fun build => (valuesOf [] build).length) = order.map (fun _ => 0) := rfl
    rw [hzero, List.map_const', List.sum_replicate, smul_zero]
    rfl
  | p :: values, h => by
    have ih := length_valuesOf hnodup (fun q hq => h q (List.mem_cons_of_mem p hq))
    rw [List.length_flatMap] at ih ⊢
    have hone : (order.map (fun build => if p.2 = build then 1 else 0)).sum = 1 := by
      rw [sum_indicator, List.count_eq_one_of_mem hnodup (h p List.mem_cons_self)]
    have hsum : (order.map (fun build => (valuesOf (p :: values) build).length)).sum =
        (order.map (fun build => if p.2 = build then 1 else 0)).sum + (order.map (fun build => (valuesOf values build).length)).sum := by
      rw [← List.sum_map_add]
      congr 1
      exact List.map_congr_left (fun build _ => valuesOf_cons p values build)
    rw [hsum, hone, ih, List.length_cons, Nat.add_comm]

theorem buildChildren_lt {keys : List BuildKey} {parent a b x y : Nat} (hab : a < b)
    (ha : (buildChildren keys parent)[a]? = some x)
    (hb : (buildChildren keys parent)[b]? = some y) : x < y := by
  have hsorted : (buildChildren keys parent).Pairwise (· < ·) := (List.pairwise_lt_range' (s := 1)).filter _
  obtain ⟨ha', rfl⟩ := List.getElem?_eq_some_iff.1 ha
  obtain ⟨hb', rfl⟩ := List.getElem?_eq_some_iff.1 hb
  exact List.pairwise_iff_getElem.1 hsorted a b ha' hb' hab

/-! ## What is built -/

/-- **The keys and values of a hive that is written.** -/
structure Built (keys : List BuildKey) (values : List (BuildValue × Nat)) (order : List Nat) (e : Emitted) : Prop where
  tree : Tree keys
  flat : FlatOrder keys order
  written : Written keys values order order e
  keyOf : ∀ p ∈ values, p.2 < keys.length
  payload : ∀ p ∈ values, PayloadOk p.1.valueType p.1.data
  name : ∀ p ∈ values, validName p.1.name true = true
  distinct : ∀ build, (valuesOf values build).Pairwise (fun a b => eqlIgnoreCase a.name b.name = false)
  size : e.size ≤ 0xffffffff

theorem validName_length {name : Bytes} {allowEmpty : Bool} (h : validName name allowEmpty = true) : name.length ≤ 63 := by
  unfold validName at h
  split at h
  · omega
  · split at h
    · cases h
    · omega

theorem validName_ne {name : Bytes} (h : validName name false = true) : name.length ≠ 0 := by
  intro h0
  unfold validName at h
  rw [if_pos h0] at h
  cases h

namespace Built

variable {keys : List BuildKey} {values : List (BuildValue × Nat)} {order : List Nat} {e : Emitted}

theorem length_keys (h : Built keys values order e) : e.keys.length = keys.length := by
  rw [h.written.count, h.flat.length_eq h.tree]

theorem mem_order (h : Built keys values order e) {build : Nat} (hb : build < keys.length) : build ∈ order :=
  h.flat.mem h.tree build hb

theorem length_values (h : Built keys values order e) : e.values.length = values.length := by
  rw [h.written.valueCount]
  exact length_valuesOf h.flat.nodup (fun p hp => h.mem_order (h.keyOf p hp))

theorem sizes (h : Built keys values order e) : 96 + keys.length * 32 + values.length * 32 + e.strings.length + e.data.length ≤
    0xffffffff := by
  have hsize := h.size
  have hsum : e.size = 96 + e.keys.length * 32 + e.values.length * 32 + e.strings.length + e.data.length := rfl
  rw [hsum, h.length_keys, h.length_values] at hsize
  exact hsize

theorem get_lt (h : Built keys values order e) {flat build : Nat} (hf : order[flat]? = some build) :
    flat < keys.length ∧ build < keys.length := by
  have hlt := (List.getElem?_eq_some_iff.1 hf).1
  rw [h.flat.length_eq h.tree] at hlt
  exact ⟨hlt, h.flat.bound build (List.mem_of_getElem? hf)⟩

theorem order_get (h : Built keys values order e) {flat : Nat} (hf : flat < keys.length) :
    ∃ build, order[flat]? = some build := by
  rw [← h.flat.length_eq h.tree] at hf
  exact ⟨_, List.getElem?_eq_getElem hf⟩

theorem key_get {build : Nat} (hb : build < keys.length) :
    keys[build]? = some (buildKey keys build) := by
  rw [buildKey, List.getD_eq_getElem?_getD, List.getElem?_eq_getElem hb]
  rfl

theorem flat_zero_iff (h : Built keys values order e) {flat build : Nat} (hf : order[flat]? = some build) : flat = 0 ↔
    build = 0 := by
  constructor
  · rintro rfl
    rw [h.flat.root] at hf
    exact (Option.some.inj hf).symm
  · rintro rfl
    rw [← h.flat.flatIndex_get hf, h.flat.flatIndex_get h.flat.root]

theorem parent_get (h : Built keys values order e) {flat build : Nat} (hf : order[flat]? = some build) (h0 : flat ≠ 0) :
    (buildKey keys build).parent < keys.length ∧ (buildKey keys build).parent ≠ invalidIndex ∧
      build ∈ buildChildren keys (buildKey keys build).parent := by
  obtain ⟨_, hb⟩ := h.get_lt hf
  have hpos : 0 < build := Nat.pos_of_ne_zero (fun hc => h0 ((h.flat_zero_iff hf).2 hc))
  have hlt := h.tree.parents build _ hpos (key_get hb)
  have hsizes := h.sizes
  have hinvalid : invalidIndex = 0xffffffff := rfl
  exact ⟨by omega, by omega, mem_buildChildren.2 ⟨hpos, _, key_get hb, rfl⟩⟩

theorem flatIndex_lt (h : Built keys values order e) {build : Nat} (hb : build < keys.length) :
    flatIndex order build < keys.length := by
  have hlt := List.idxOf_lt_length_iff.2 (h.mem_order hb)
  rwa [h.flat.length_eq h.tree] at hlt

/-- **The range of the children of a key.** -/
theorem child_range (h : Built keys values order e) {flat build : Nat} (hf : order[flat]? = some build) {record : KeyRecord}
    (hw : KeyWritten keys values order e record flat build) :
    (record.childCount = 0 → record.firstChildIndex = invalidIndex) ∧
      (record.childCount ≠ 0 → record.firstChildIndex = FlatOrder.firstChild keys order flat ∧
        record.firstChildIndex + record.childCount ≤ keys.length) ∧
      ∀ i child, (buildChildren keys build)[i]? = some child → order[record.firstChildIndex + i]? = some child := by
  have hrange := h.flat.children hf
  have hfirst : record.childCount ≠ 0 → record.firstChildIndex = FlatOrder.firstChild keys order flat := by
    intro hne
    rw [hw.childCount] at hne
    rw [hw.firstChild, ← List.head?_map, hrange, List.head?_range', if_neg hne]
    rfl
  have hget : ∀ i child, (buildChildren keys build)[i]? = some child → order[record.firstChildIndex + i]? = some child := by
    intro i child hi
    have hlt := (List.getElem?_eq_some_iff.1 hi).1
    have hmap : ((buildChildren keys build).map (flatIndex order))[i]? = some (flatIndex order child) := by
      rw [List.getElem?_map, hi]
      rfl
    rw [hrange, List.getElem?_range' hlt] at hmap
    have heq := Option.some.inj hmap
    have hmem : child ∈ order := by
      obtain ⟨_, key, hkey, _⟩ := mem_buildChildren.1 (List.mem_of_getElem? hi)
      exact h.mem_order (List.getElem?_eq_some_iff.1 hkey).1
    rw [hfirst (by rw [hw.childCount]; omega), ← FlatOrder.get_flatIndex hmem, ← heq, Nat.one_mul]
  refine ⟨fun h0 => ?_, fun hne => ⟨hfirst hne, ?_⟩, hget⟩
  · rw [hw.childCount] at h0
    rw [hw.firstChild, List.length_eq_zero_iff.1 h0]
    rfl
  · rw [hw.childCount] at hne
    have hlast := hget _ _ (List.getElem?_eq_getElem (by omega : (buildChildren keys build).length - 1 < _))
    have hlt := (h.get_lt hlast).1
    rw [hw.childCount]
    omega

/-- **The range of the values of a key.** -/
theorem value_range (h : Built keys values order e) {flat build : Nat} {record : KeyRecord}
    (hw : KeyWritten keys values order e record flat build) :
    (record.valueCount = 0 → record.firstValueIndex = invalidIndex) ∧
      (record.valueCount ≠ 0 → record.firstValueIndex + record.valueCount ≤ values.length) := by
  refine ⟨fun h0 => ?_, fun hne => ?_⟩
  · rw [hw.valueCount] at h0
    exact hw.empty (List.length_eq_zero_iff.1 h0)
  · rw [hw.valueCount] at hne ⊢
    obtain ⟨vr, hget, _⟩ := hw.values _ _ (List.getElem?_eq_getElem (by omega : (valuesOf values build).length - 1 < _))
    have hlt := (List.getElem?_eq_some_iff.1 hget).1
    rw [h.length_values] at hlt
    omega

/-! ## The records fit -/

theorem key_fits (h : Built keys values order e) {flat build : Nat} (hf : order[flat]? = some build) {record : KeyRecord}
    (hw : KeyWritten keys values order e record flat build) : Fields.Fit (keyFields record) := by
  have hsizes := h.sizes
  obtain ⟨_, hb⟩ := h.get_lt hf
  have hname : (buildKey keys build).name.length ≤ 63 := by
    rcases Nat.eq_zero_or_pos build with rfl | hpos
    · have hroot := h.tree.root
      rw [key_get hb] at hroot
      rw [Option.some.inj hroot]
      exact Nat.zero_le _
    · exact validName_length (h.tree.names build _ hpos (key_get hb))
  obtain ⟨hc0, hc1, _⟩ := h.child_range hf hw
  obtain ⟨hv0, hv1⟩ := h.value_range hw
  have hoffset := hw.name.1
  have hparent : record.parentIndex < 256 ^ 4 := by
    rw [hw.parent]
    split
    · decide
    · rename_i hne
      have h0 : flat ≠ 0 := by
        intro h0
        have hroot := h.tree.root
        rw [(h.flat_zero_iff hf).1 h0] at hne
        rw [key_get h.tree.length_pos] at hroot
        rw [Option.some.inj hroot] at hne
        exact hne rfl
      have := h.flatIndex_lt (h.parent_get hf h0).1
      omega
  intro field hfield
  simp only [keyFields, List.mem_cons, List.not_mem_nil, or_false] at hfield
  rcases hfield with rfl | rfl | rfl | rfl | rfl | rfl | rfl | rfl | rfl
  · exact hparent
  · show record.nameOffset < 256 ^ 4
    omega
  · show record.nameLen < 256 ^ 2
    rw [hw.nameLen]
    omega
  · decide
  · show record.firstValueIndex < 256 ^ 4
    rcases Nat.eq_zero_or_pos record.valueCount with h0 | hpos
    · rw [hv0 h0]
      decide
    · have := hv1 (Nat.ne_of_gt hpos)
      omega
  · show record.valueCount < 256 ^ 4
    rcases Nat.eq_zero_or_pos record.valueCount with h0 | hpos
    · omega
    · have := hv1 (Nat.ne_of_gt hpos)
      omega
  · show record.firstChildIndex < 256 ^ 4
    rcases Nat.eq_zero_or_pos record.childCount with h0 | hpos
    · rw [hc0 h0]
      decide
    · have := (hc1 (Nat.ne_of_gt hpos)).2
      omega
  · show record.childCount < 256 ^ 4
    rcases Nat.eq_zero_or_pos record.childCount with h0 | hpos
    · omega
    · have := (hc1 (Nat.ne_of_gt hpos)).2
      omega
  · decide

theorem value_fits (h : Built keys values order e) {flat build : Nat} (hf : order[flat]? = some build) {vr : ValueRecord}
    {value : BuildValue} (hmem : value ∈ valuesOf values build) (hw : ValueWritten e vr flat value) :
    Fields.Fit (valueFields vr) := by
  have hsizes := h.sizes
  obtain ⟨hflat, _⟩ := h.get_lt hf
  have hname := validName_length (h.name _ (mem_valuesOf.1 hmem))
  have hnameOffset := hw.name.1
  have hdataOffset := hw.data.1
  have htype : vr.valueType.toInt < 7 := by cases vr.valueType <;> decide
  intro field hfield
  simp only [valueFields, List.mem_cons, List.not_mem_nil, or_false] at hfield
  rcases hfield with rfl | rfl | rfl | rfl | rfl | rfl | rfl | rfl
  · show vr.ownerKeyIndex < 256 ^ 4
    rw [hw.owner]
    omega
  · show vr.nameOffset < 256 ^ 4
    omega
  · show vr.nameLen < 256 ^ 2
    rw [hw.nameLen]
    have : value.name.length ≤ 63 := hname
    omega
  · show vr.valueType.toInt < 256 ^ 2
    omega
  · decide
  · show vr.dataOffset < 256 ^ 4
    omega
  · show vr.dataLen < 256 ^ 4
    rw [hw.dataLen]
    omega
  · decide

/-! ## The view -/

section View

variable (kind : HiveKind) (generation : UInt64)

theorem key_written (h : Built keys values order e) {flat build : Nat} (hf : order[flat]? = some build) :
    KeyWritten keys values order e ((e.view kind generation).key flat) flat build := by
  obtain ⟨record, hget, hw⟩ := h.written.key flat build hf
  have heq : (e.view kind generation).key flat = record := keyOf_flatMap hget (h.key_fits hf hw)
  rwa [heq]

theorem key_reserved (h : Built keys values order e) {flat build : Nat} (hf : order[flat]? = some build) :
    getLe (e.view kind generation).keyTable (flat * keyRecordSize + 10) 2 = 0 ∧
      getLe (e.view kind generation).keyTable (flat * keyRecordSize + 28) 4 = 0 := by
  obtain ⟨record, hget, hw⟩ := h.written.key flat build hf
  exact reserved_key hget (h.key_fits hf hw)

theorem value_written (h : Built keys values order e) {flat build i : Nat} (hf : order[flat]? = some build)
    {value : BuildValue}
    (hi : (valuesOf values build)[i]? = some value) :
    ∃ vr, e.values[((e.view kind generation).key flat).firstValueIndex + i]? = some vr ∧
      (e.view kind generation).value (((e.view kind generation).key flat).firstValueIndex + i) = vr ∧
      ValueWritten e vr flat value := by
  obtain ⟨vr, hget, hw⟩ := (h.key_written kind generation hf).values i value hi
  exact ⟨vr, hget, valueOf_flatMap hget (h.value_fits hf (List.mem_of_getElem? hi) hw), hw⟩

theorem value_owned (h : Built keys values order e) {index : Nat} (hi : index < values.length) : ∃ (flat build i : Nat)
    (value : BuildValue), order[flat]? = some build ∧ (valuesOf values build)[i]? = some value ∧
      index = ((e.view kind generation).key flat).firstValueIndex + i := by
  rw [← h.length_values] at hi
  obtain ⟨flat, build, record, hf, hget, hlo, hhi⟩ := h.written.owned index hi
  obtain ⟨record', hget', hw⟩ := h.written.key flat build hf
  rw [hget] at hget'
  cases hget'
  have heq : (e.view kind generation).key flat = record := keyOf_flatMap hget (h.key_fits hf hw)
  refine ⟨flat, build, index - record.firstValueIndex, _, hf, List.getElem?_eq_getElem (by omega), ?_⟩
  rw [heq]
  omega

theorem child_written (h : Built keys values order e) {flat build i : Nat} (hf : order[flat]? = some build)
    (hi : i < ((e.view kind generation).key flat).childCount) : ∃ child, (buildChildren keys build)[i]? = some child ∧
      order[((e.view kind generation).key flat).firstChildIndex + i]? = some child := by
  have hw := h.key_written kind generation hf
  rw [hw.childCount] at hi
  exact ⟨_, List.getElem?_eq_getElem hi, (h.child_range hf hw).2.2 i _ (List.getElem?_eq_getElem hi)⟩

variable {kind generation}

theorem child_parent (h : Built keys values order e) {flat build i child : Nat} (hf : order[flat]? = some build)
    (hi : (buildChildren keys build)[i]? = some child) {record : KeyRecord} {at' : Nat}
    (hw : KeyWritten keys values order e record at' child) : record.parentIndex = flat := by
  obtain ⟨_, key, hkey, hparent⟩ := mem_buildChildren.1 (List.mem_of_getElem? hi)
  have hget := key_get (List.getElem?_eq_some_iff.1 hkey).1
  rw [hkey] at hget
  have hsizes := h.sizes
  have hinvalid : invalidIndex = 0xffffffff := rfl
  have hb := (h.get_lt hf).2
  rw [hw.parent, ← Option.some.inj hget, hparent, if_neg (by omega), h.flat.flatIndex_get hf]

theorem link_valid (h : Built keys values order e) {flat build : Nat} (hf : order[flat]? = some build) (h0 : flat ≠ 0) :
    (e.view kind generation).LinkValid flat := by
  have hw := h.key_written kind generation hf
  have hsizes := h.sizes
  have hinvalid : invalidIndex = 0xffffffff := rfl
  obtain ⟨hlt, hne, hmem⟩ := h.parent_get hf h0
  have hpf := FlatOrder.get_flatIndex (h.mem_order hlt)
  have hpw := h.key_written kind generation hpf
  obtain ⟨i, hilt, hchild⟩ := List.getElem_of_mem hmem
  have hi := List.getElem?_eq_getElem hilt
  rw [hchild] at hi
  have hparent := h.child_parent hpf hi hw
  have hplace := (h.child_range hpf hpw).2.2 i build hi
  have hflat : ((e.view kind generation).key (flatIndex order (buildKey keys build).parent)).firstChildIndex + i = flat := by
    rw [← h.flat.flatIndex_get hplace, h.flat.flatIndex_get hf]
  have hpos : 0 < build := (mem_buildChildren.1 hmem).1
  have hname := h.tree.names build _ hpos (key_get (h.get_lt hf).2)
  have hplt := h.flatIndex_lt hlt
  refine ⟨?_, ⟨?_, ?_, ?_, ?_⟩, ?_, ?_⟩
  · rw [hparent]
    omega
  · rw [hparent]
    show _ < e.keys.length
    rw [h.length_keys]
    exact hplt
  · rw [hparent]
    have hbound := (h.get_lt hplace).1
    omega
  · rw [hparent]
    omega
  · rw [hparent, hpw.childCount]
    omega
  · intro hlen
    rw [hw.nameLen] at hlen
    exact absurd hlen (validName_ne hname)
  · intro _
    rw [hw.nameLen]
    show _ ≤ e.strings.length ∧ validName (slice e.strings _ _) false = true
    rw [hw.name.2]
    exact ⟨hw.name.1, hname⟩

theorem key_valid (h : Built keys values order e) {flat build : Nat} (hf : order[flat]? = some build) :
    (e.view kind generation).KeyValid flat := by
  have hw := h.key_written kind generation hf
  have hsizes := h.sizes
  have hinvalid : invalidIndex = 0xffffffff := rfl
  have hkeys : (e.view kind generation).header.keyCount = keys.length := h.length_keys
  have hvalues : (e.view kind generation).header.valueCount = values.length := h.length_values
  obtain ⟨hc0, hc1, _⟩ := h.child_range hf hw
  obtain ⟨hv0, hv1⟩ := h.value_range hw
  refine ⟨h.key_reserved _ _ hf, ?_, h.link_valid hf, ⟨hc0, fun hne => ?_⟩, ⟨hv0, fun hne => ?_⟩, fun i hi => ?_,
    fun i hi => ?_⟩
  · by_cases h0 : flat = 0
    · have hroot := h.tree.root
      rw [key_get h.tree.length_pos] at hroot
      rw [hw.parent, (h.flat_zero_iff hf).1 h0, Option.some.inj hroot, if_pos rfl]
      exact Or.inl rfl
    · exact Or.inr (h.link_valid hf h0).listed.1
  · have hfit := (hc1 hne).2
    rw [hkeys]
    exact ⟨by omega, hfit⟩
  · have hfit := hv1 hne
    rw [hvalues]
    exact ⟨by omega, hfit⟩
  · obtain ⟨child, hchild, hplace⟩ := h.child_written _ _ hf hi
    exact h.child_parent hf hchild (h.key_written _ _ hplace)
  · rw [hw.valueCount] at hi
    obtain ⟨vr, _, heq, hvw⟩ := h.value_written kind generation hf (List.getElem?_eq_getElem hi)
    rw [heq]
    exact hvw.owner

theorem value_valid (h : Built keys values order e) {index : Nat} (hi : index < values.length) :
    (e.view kind generation).ValueValid index := by
  obtain ⟨flat, build, i, value, hf, hvalue, rfl⟩ := h.value_owned kind generation hi
  have hmem := mem_valuesOf.1 (List.mem_of_getElem? hvalue)
  have hkw := h.key_written kind generation hf
  obtain ⟨vr, hget, heq, hw⟩ := h.value_written kind generation hf hvalue
  obtain ⟨htype, hreserved⟩ := reserved_value hget (h.value_fits hf (List.mem_of_getElem? hvalue) hw)
  have hilt := (List.getElem?_eq_some_iff.1 hvalue).1
  have hne : (((e.view kind generation).key flat).valueCount) ≠ 0 := by
    rw [hkw.valueCount]
    omega
  have hsizes := h.sizes
  have hinvalid : invalidIndex = 0xffffffff := rfl
  refine ⟨htype, hreserved, ⟨?_, ?_, ?_, ?_⟩, ⟨fun _ hc => ?_, fun _ => ?_⟩, ?_, ?_⟩
  · rw [heq, hw.owner]
    show flat < e.keys.length
    rw [h.length_keys]
    exact (h.get_lt hf).1
  · rw [heq, hw.owner]
    omega
  · rw [heq, hw.owner]
    exact Nat.le_add_right _ _
  · rw [heq, hw.owner, hkw.valueCount]
    omega
  · cases hc
  · rw [heq, hw.nameLen]
    show _ ≤ e.strings.length ∧ validName (slice e.strings _ _) true = true
    rw [hw.name.2]
    exact ⟨hw.name.1, h.name _ hmem⟩
  · rw [heq, hw.dataLen]
    exact hw.data.1
  · have hdata : (e.view kind generation).dataOf vr = value.data := by
      unfold HiveView.dataOf
      rw [hw.dataLen]
      exact hw.data.2
    rw [heq, hdata, hw.type]
    exact h.payload _ hmem

theorem key_name {flat build : Nat} {record : KeyRecord} (hw : KeyWritten keys values order e record flat build) :
    (e.view kind generation).nameOf record = (buildKey keys build).name := by
  unfold HiveView.nameOf
  rw [hw.nameLen]
  exact hw.name.2

theorem value_name {flat : Nat} {vr : ValueRecord} {value : BuildValue} (hw : ValueWritten e vr flat value) :
    (e.view kind generation).valueNameOf vr = value.name := by
  unfold HiveView.valueNameOf
  rw [hw.nameLen]
  exact hw.name.2

/-- **The view that is written is valid.** -/
theorem valid (h : Built keys values order e) : (e.view kind generation).Valid := by
  have hkeys : (e.view kind generation).header.keyCount = keys.length := h.length_keys
  have hvalues : (e.view kind generation).header.valueCount = values.length := h.length_values
  refine ⟨?_, fun i hi => ?_, fun i hi => ?_, fun p hp a ha i hi => ?_, fun k hk a ha i hi => ?_⟩
  · have hw := h.key_written kind generation h.flat.root
    have hroot := h.tree.root
    rw [key_get h.tree.length_pos] at hroot
    rw [hw.parent, hw.nameLen, hw.root rfl, Option.some.inj hroot, if_pos rfl]
    exact ⟨rfl, rfl, rfl⟩
  · rw [hkeys] at hi
    obtain ⟨build, hf⟩ := h.order_get hi
    exact h.key_valid hf
  · rw [hvalues] at hi
    exact h.value_valid hi
  · rw [hkeys] at hp
    obtain ⟨build, hf⟩ := h.order_get hp
    obtain ⟨x, hx, hxf⟩ := h.child_written kind generation hf ha
    obtain ⟨y, hy, hyf⟩ := h.child_written kind generation hf (by omega : a + 1 + i < _)
    obtain ⟨hxpos, xkey, hxkey, hxp⟩ := mem_buildChildren.1 (List.mem_of_getElem? hx)
    obtain ⟨_, ykey, hykey, hyp⟩ := mem_buildChildren.1 (List.mem_of_getElem? hy)
    rw [key_name (h.key_written _ _ hxf), key_name (h.key_written _ _ hyf)]
    have hxget := key_get (List.getElem?_eq_some_iff.1 hxkey).1
    have hyget := key_get (List.getElem?_eq_some_iff.1 hykey).1
    rw [hxkey] at hxget
    rw [hykey] at hyget
    rw [← Option.some.inj hxget, ← Option.some.inj hyget]
    exact h.tree.distinct x y xkey ykey hxpos (buildChildren_lt (by omega) hx hy) hxkey hykey (hxp.trans hyp.symm)
  · rw [hkeys] at hk
    obtain ⟨build, hf⟩ := h.order_get hk
    have hw := h.key_written kind generation hf
    rw [hw.valueCount] at ha hi
    have hb : a + 1 + i < (valuesOf values build).length := by omega
    obtain ⟨_, _, hxeq, hxw⟩ := h.value_written kind generation hf (List.getElem?_eq_getElem ha)
    obtain ⟨_, _, hyeq, hyw⟩ := h.value_written kind generation hf (List.getElem?_eq_getElem hb)
    rw [hxeq, hyeq, value_name hxw, value_name hyw]
    exact List.pairwise_iff_getElem.1 (h.distinct build) a (a + 1 + i) ha hb (by omega)

end View
end Built
end Hive
end R4
