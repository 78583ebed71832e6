import R4Recovery.HiveBuildValid
/-!
# HiveRoundTrip — what is written to a hive is read back

The lookups of the view that is built follow the keys that were collected: a key is found by the path of a value or a prefix of
one, a value by its key and its name, in any ASCII case and between any separators.
-/
namespace R4
namespace Hive

/-! ## Spellings -/

/-- The kind and the components of a path, up to case. -/
def pathOf (path : Bytes) : Option (HiveKind × List Bytes) :=
    (parseRoot path).map (fun root => (root.1, foldCase (components root.2)))

/-! ## Lookups in the view -/

namespace Built

variable {keys : List BuildKey} {values : List (BuildValue × Nat)} {order : List Nat} {e : Emitted} {kind : HiveKind}
  {generation : UInt64}

/-- **The children of a key are found as the writer finds them.** -/
theorem view_child (h : Built keys values order e) {flat build : Nat} (hf : order[flat]? = some build) (name : Bytes) :
    (e.view kind generation).child flat name = (findBuildChild keys build name).map (flatIndex order) := by
  have hw := h.key_written kind generation hf
  have hrange : List.range' ((e.view kind generation).key flat).firstChildIndex ((e.view kind generation).key flat).childCount =
      (buildChildren keys build).map (flatIndex order) := by
    rw [h.flat.children hf, ← hw.childCount]
    by_cases h0 : ((e.view kind generation).key flat).childCount = 0
    · rw [h0]
      rfl
    · rw [((h.child_range hf hw).2.1 h0).1]
  rw [HiveView.child, hrange, List.find?_map, findBuildChild_eq]
  congr 1
  refine List.find?_congr (fun child hmem => ?_)
  obtain ⟨i, hilt, hget⟩ := List.getElem_of_mem hmem
  have hi := List.getElem?_eq_getElem hilt
  rw [hget] at hi
  have hplace := (h.child_range hf hw).2.2 i child hi
  have hcw := h.key_written kind generation hplace
  have hflat := h.flat.flatIndex_get hplace
  have hkey := key_get (h.get_lt hplace).2
  show (e.view kind generation).isChild flat name (flatIndex order child) = _
  rw [HiveView.isChild, hflat, h.child_parent hf hi hcw, decide_eq_true rfl, Bool.true_and, key_name hcw, hkey]
  rfl

/-- **The walk of the reader is the one of the writer.** -/
theorem view_reach (h : Built keys values order e) : ∀ (path : List Bytes) {flat build : Nat}, order[flat]? = some build →
    (e.view kind generation).reach flat path = (locate keys build path).map (flatIndex order)
  | [], flat, build, hf => by
    show some flat = some (flatIndex order build)
    rw [h.flat.flatIndex_get hf]
  | component :: rest, flat, build, hf => by
    rw [HiveView.reach, h.view_child hf, locate]
    cases hchild : findBuildChild keys build component with
    | none => rfl
    | some child =>
      obtain ⟨_, key, hkey, _⟩ := findBuildChild_some hchild
      exact h.view_reach rest (FlatOrder.get_flatIndex (h.mem_order (List.getElem?_eq_some_iff.1 hkey).1))

theorem view_keyOfPath (h : Built keys values order e) (generation : UInt64) {path rest : Bytes}
    (hp : parseRoot path = some (kind, rest)) :
    (e.view kind generation).keyOfPath path = (locate keys 0 (components rest)).map (flatIndex order) := by
  rw [HiveView.keyOfPath, hp, Option.bind_some, if_pos (show (kind, rest).1 =
    (e.view kind generation).header.hiveKind from rfl)]
  exact h.view_reach _ h.flat.root

/-- **A value of a key is found by its name.** -/
theorem view_ownValue (h : Built keys values order e) {flat build i : Nat} (hf : order[flat]? = some build)
    {value : BuildValue}
    (hi : (valuesOf values build)[i]? = some value) {name : Bytes} (hname : eqlIgnoreCase name value.name = true) :
    (e.view kind generation).ownValue flat name = some (((e.view kind generation).key flat).firstValueIndex + i) := by
  have hkw := h.key_written kind generation hf
  have hilt := (List.getElem?_eq_some_iff.1 hi).1
  have howned : ∀ {j : Nat} {v : BuildValue}, (valuesOf values build)[j]? = some v →
      (e.view kind generation).isOwned flat name
      (((e.view kind generation).key flat).firstValueIndex + j) = eqlIgnoreCase v.name name := by
    intro j v hj
    obtain ⟨vr, _, heq, hw⟩ := h.value_written kind generation hf hj
    rw [HiveView.isOwned, heq, hw.owner, decide_eq_true rfl, Bool.true_and, value_name hw]
  refine List.find?_range'_eq_some.2 ⟨?_, List.mem_range'_1.2 ⟨Nat.le_add_right _ _, ?_⟩, fun j hlo hhi => ?_⟩
  · rw [howned hi]
    exact eqlIgnoreCase_symm hname
  · rw [hkw.valueCount]
    omega
  · -- an earlier value has another name
    obtain ⟨k, rfl⟩ := Nat.exists_eq_add_of_le hlo
    have hk : k < i := by omega
    have hget := List.getElem?_eq_getElem (Nat.lt_trans hk hilt)
    have hne := List.pairwise_iff_getElem.1 (h.distinct build) k i (Nat.lt_trans hk hilt) hilt hk
    rw [(List.getElem?_eq_some_iff.1 hi).2] at hne
    rw [howned hget]
    cases hsame : eqlIgnoreCase ((valuesOf values build)[k]).name name with
    | false => rfl
    | true =>
      rw [eqlIgnoreCase_trans hsame hname] at hne
      cases hne

theorem view_data {flat : Nat} {vr : ValueRecord} {value : BuildValue} (hw : ValueWritten e vr flat value) :
    (e.view kind generation).dataOf vr = value.data := by
  unfold HiveView.dataOf
  rw [hw.dataLen]
  exact hw.data.2

end Built

/-! ## The round trip -/

/-- A key is there for every value, and for every prefix of its path. -/
def HasKey (kind : HiveKind) (values : List BuildValue) (path : Bytes) : Prop :=
  ∃ cs, pathOf path = some (kind, cs) ∧ (cs = [] ∨ ∃ value ∈ values, cs <+: foldCase (address value.keyPath))

/-- **What a hive that is built promises of its input.** -/
structure Holds (kind : HiveKind) (generation : UInt64) (values : List BuildValue) (view : HiveView) : Prop where
  parsed : parseHive view.bytes = .ok view
  header : view.header.hiveKind = kind ∧ view.header.generation = generation.toNat
  found : ∀ value ∈ values, ∀ path name, pathOf path = pathOf value.keyPath → eqlIgnoreCase name value.name = true →
    view.getValue path name = .ok (some { valueType := value.valueType, data := value.data })
  keys : ∀ path, (∃ index, view.findKey path = .ok (some index)) ↔ HasKey kind values path
  count : view.header.valueCount = values.length
  others : ∀ index, index < view.header.valueCount → ∃ record, view.valueAt index = .ok record ∧ ∃ value ∈ values,
    record.valueType = value.valueType ∧ view.valueName record = .ok value.name ∧ view.valueData record = .ok value.data ∧
      view.findKey value.keyPath = .ok (some record.ownerKeyIndex)

theorem Collected.distinct {kind : HiveKind} {values : List BuildValue} (ha : Accepted kind values) {keys : List BuildKey}
    {done : List (BuildValue × Nat)} (hc : Collected values keys done) (build : Nat) :
    (valuesOf done build).Pairwise (fun a b => eqlIgnoreCase a.name b.name = false) := by
  have hpairs := ha.distinct
  rw [← hc.values, List.pairwise_map] at hpairs
  unfold valuesOf
  rw [List.pairwise_map]
  refine (hpairs.filter _).imp_of_mem (fun {p q} hp hq hne => ?_)
  obtain ⟨hp, hpb⟩ := List.mem_filter.1 hp
  obtain ⟨hq, hqb⟩ := List.mem_filter.1 hq
  have hpl := hc.located p hp
  have hql := hc.located q hq
  rw [beq_iff_eq.1 hpb] at hpl
  rw [beq_iff_eq.1 hqb] at hql
  cases hname : eqlIgnoreCase p.1.name q.1.name with
  | false => rfl
  | true => exact absurd ⟨hc.tree.locate_inj build hpl hql, hname⟩ hne

theorem Collected.built {kind : HiveKind} {values : List BuildValue} (ha : Accepted kind values) {keys : List BuildKey}
    {done : List (BuildValue × Nat)} (hc : Collected values keys done) {order : List Nat} (ho : FlatOrder keys order)
    (hsize : (emitAll keys done order).size ≤ 0xffffffff) : Built keys done order (emitAll keys done order) := by
  have hmem : ∀ p ∈ done, p.1 ∈ values := by
    intro p hp
    rw [← hc.values]
    exact List.mem_map_of_mem hp
  exact ⟨hc.tree, ho, emitAll_written keys done order, fun p hp => locate_lt hc.tree.length_pos (hc.located p hp),
    fun p hp => (ha.each _ (hmem p hp)).payload, fun p hp => (ha.each _ (hmem p hp)).name, hc.distinct ha, hsize⟩

theorem pathOf_eq {path : Bytes} {kind : HiveKind} {cs : List Bytes} (h : pathOf path = some (kind, cs)) :
    ∃ rest, parseRoot path = some (kind, rest) ∧ foldCase (components rest) = cs ∧ address path = components rest := by
  obtain ⟨root, hroot, heq⟩ := Option.map_eq_some_iff.1 h
  obtain ⟨k, rest⟩ := root
  obtain ⟨rfl, rfl⟩ := Prod.mk.inj heq
  refine ⟨rest, hroot, rfl, ?_⟩
  rw [address, hroot]
  rfl

theorem ValueAccepted.pathOf {kind : HiveKind} {value : BuildValue} (h : ValueAccepted kind value) :
    pathOf value.keyPath = some (kind, foldCase (address value.keyPath)) := by
  obtain ⟨rest, hrest⟩ := h.path
  rw [Hive.pathOf, address, hrest]
  rfl

/-- **The view of what is built holds the values, and nothing else.** -/
theorem Collected.holds {kind : HiveKind} {values : List BuildValue} (ha : Accepted kind values) {keys : List BuildKey}
    {done : List (BuildValue × Nat)} (hc : Collected values keys done) {order : List Nat} (ho : FlatOrder keys order)
    (hsize : (emitAll keys done order).size ≤ 0xffffffff) (generation : UInt64) :
    parseHive ((emitAll keys done order).bytes kind generation) = .ok ((emitAll keys done order).view kind generation) ∧
      Holds kind generation values ((emitAll keys done order).view kind generation) := by
  have hb := hc.built ha ho hsize
  generalize emitAll keys done order = e at *
  have hpos := hc.tree.length_pos
  have hne : e.keys ≠ [] := by
    intro hnil
    have := hb.length_keys
    rw [hnil, List.length_nil] at this
    omega
  have hvalid : (e.view kind generation).Valid := hb.valid
  have hhive := e.isHive hsize hne hvalid
  have hshape : (e.view kind generation).Shape := by
    rw [← Emitted.viewOf_bytes hsize]
    exact viewOf_shape hhive.keyTable hhive.valueTable
  have hkeys : (e.view kind generation).header.keyCount = keys.length := hb.length_keys
  have hroot : 0 < (e.view kind generation).header.keyCount := by
    rw [hkeys]
    exact hpos
  have hparse : parseHive (e.bytes kind generation) = .ok (e.view kind generation) := by
    rw [(parseHive_yields _).ok hhive, Emitted.viewOf_bytes hsize]
  have hlen : done.length = values.length := by rw [← hc.values, List.length_map]
  have hkeyOf : ∀ {path rest : Bytes}, parseRoot path = some (kind, rest) → (e.view kind generation).findKey path =
      .ok ((locate keys 0 (components rest)).map (flatIndex order)) := by
    intro path rest hp
    rw [HiveView.findKey_ok hshape hvalid hroot, hb.view_keyOfPath _ hp]
  have hvalueKey : ∀ p ∈ done, (e.view kind generation).keyOfPath p.1.keyPath = some (flatIndex order p.2) := by
    intro p hp
    have hmem : p.1 ∈ values := by
      rw [← hc.values]
      exact List.mem_map_of_mem hp
    obtain ⟨rest, hrest, _, haddress⟩ := pathOf_eq (ha.each _ hmem).pathOf
    rw [hb.view_keyOfPath _ hrest, ← haddress, hc.located p hp]
    rfl
  refine ⟨hparse, hparse, ⟨rfl, rfl⟩, fun value hvalue path name hpath hname => ?_, fun path => ⟨?_, ?_⟩, ?_,
    fun index hi => ?_⟩
  · -- the path is located where the one of the value is
    have hdone := hvalue
    rw [← hc.values] at hdone
    obtain ⟨p, hp, rfl⟩ := List.mem_map.1 hdone
    have hlt := hb.keyOf p hp
    have hplace := FlatOrder.get_flatIndex (hb.mem_order hlt)
    obtain ⟨i, hilt, hget⟩ := List.getElem_of_mem (mem_valuesOf.2 hp)
    have hi := List.getElem?_eq_getElem hilt
    rw [hget] at hi
    rw [(ha.each _ hvalue).pathOf] at hpath
    obtain ⟨rest, hrest, hfold, _⟩ := pathOf_eq hpath
    obtain ⟨vr, _, heq, hw⟩ := hb.value_written kind generation hplace hi
    rw [HiveView.getValue_ok hshape hvalid hroot, HiveView.valueOfPath, hb.view_keyOfPath _ hrest, locate_congr keys 0 hfold,
      hc.located p hp, Option.map_some, Option.bind_some, hb.view_ownValue hplace hi hname, Option.map_some, heq, hw.type,
      Built.view_data hw]
  · rintro ⟨index, hfound⟩
    rw [HiveView.findKey_ok hshape hvalid hroot] at hfound
    obtain ⟨root, hparsed, hreach⟩ := Option.bind_eq_some_iff.1 (Except.ok.inj hfound)
    obtain ⟨k, rest⟩ := root
    split at hreach
    · rename_i hkind
      have hkind : k = kind := hkind
      subst hkind
      have hlocated := hb.view_keyOfPath generation hparsed
      rw [HiveView.keyOfPath, hparsed, Option.bind_some,
        if_pos (show (k, rest).1 = (e.view k generation).header.hiveKind from rfl), hreach] at hlocated
      obtain ⟨build, hbuild, _⟩ := Option.map_eq_some_iff.1 hlocated.symm
      refine ⟨foldCase (components rest), by rw [pathOf, hparsed]; rfl, ?_⟩
      rcases hc.paths _ build hbuild with hnil | hprefix
      · exact Or.inl (by rw [hnil]; rfl)
      · exact Or.inr hprefix
    · cases hreach
  · rintro ⟨cs, hpath, hcs⟩
    obtain ⟨rest, hrest, rfl, _⟩ := pathOf_eq hpath
    have hlocated : ∃ i, locate keys 0 (components rest) = some i := by
      refine (hc.located_iff _).2 ?_
      rcases hcs with hnil | hprefix
      · exact Or.inl (List.map_eq_nil_iff.1 hnil)
      · exact Or.inr hprefix
    obtain ⟨i, hi⟩ := hlocated
    exact ⟨flatIndex order i, by rw [hkeyOf hrest, hi]; rfl⟩
  · show e.values.length = values.length
    rw [hb.length_values, hlen]
  · have hi' : index < done.length := by
      rw [← hb.length_values]
      exact hi
    obtain ⟨flat, build, i, value, hf, hvalue, rfl⟩ := hb.value_owned kind generation hi'
    obtain ⟨vr, _, heq, hw⟩ := hb.value_written kind generation hf hvalue
    have hmem := mem_valuesOf.1 (List.mem_of_getElem? hvalue)
    have hin : value ∈ values := by
      rw [← hc.values]
      exact List.mem_map_of_mem hmem
    have hvv := hvalid.values _ hi
    refine ⟨_, hshape.valueAt hi, value, hin, ?_, ?_, ?_, ?_⟩
    · rw [heq]
      exact hw.type
    · rw [hvv.valueName, heq, Built.value_name hw]
    · rw [hvv.valueData, heq, Built.view_data hw]
    · rw [HiveView.findKey_ok hshape hvalid hroot, hvalueKey _ hmem, heq, hw.owner, hb.flat.flatIndex_get hf]

theorem collected_root : Collected [] [{ parent := invalidIndex, name := [] }] [] where
  tree := tree_root
  values := rfl
  located p hp := absurd hp List.not_mem_nil
  paths path i hpath := by
    cases path with
    | nil => exact Or.inl rfl
    | cons component rest =>
      obtain ⟨child, hchild, _⟩ := Option.bind_eq_some_iff.1 hpath
      cases hchild

/-- **Values that pass the checks are built and read back**, where the room suffices. -/
theorem buildHive_holds (room : BuildRoom) (kind : HiveKind) (generation : UInt64) (values : List BuildValue)
    (ha : Accepted kind values) (hentries : buildHiveViewInto room kind generation values ≠ .error (.fail .tooManyEntries))
    (hmemory : buildHiveViewInto room kind generation values ≠ .error (.fail .outOfMemory)) :
    ∃ view, buildHiveViewInto room kind generation values = .ok view ∧ Holds kind generation values view := by
  have hcollect := collectKeys_spec room kind values (show Accepted kind ([] ++ values) from ha) collected_root
  unfold buildHiveViewInto at hentries hmemory ⊢
  split at hentries
  · exact absurd rfl hentries
  · rename_i hroom
    rw [if_neg hroom] at hmemory ⊢
    split at hentries
    · exact absurd rfl hentries
    · rename_i hindices
      rw [if_neg hindices] at hmemory ⊢
      rcases hcollect with hfull | ⟨keys, done, hok, hc⟩
      · rw [hfull] at hentries
        exact absurd rfl hentries
      · rw [List.nil_append] at hc
        rw [hok] at hentries hmemory ⊢
        dsimp only at hentries hmemory ⊢
        rcases flatOrder_spec room keys.length 0 (Nat.add_zero _) (ordered_root hc.tree.length_pos)
          with hfull | ⟨order, hok, ho⟩
        · rw [hfull] at hentries
          exact absurd rfl hentries
        · rw [hok, Option.getD_some] at hentries hmemory ⊢
          dsimp only at hentries hmemory ⊢
          split at hentries
          · exact absurd rfl hentries
          · rename_i hsize
            rw [if_neg hsize] at hmemory ⊢
            split at hmemory
            · exact absurd rfl hmemory
            · rename_i hout
              rw [if_neg hout]
              exact ⟨_, hc.holds ha ho (Nat.not_lt.1 hsize) generation⟩

/-- Two values of one key, spelled differently, and one of the root. -/
def sampleValues : List BuildValue :=
  [{ keyPath := ascii "SYSTEM\\Boot", name := ascii "Timeout", valueType := .u32, data := [5, 0, 0, 0] },
    { keyPath := ascii " system//BOOT/ ", name := [], valueType := .string, data := ascii "on" },
    { keyPath := ascii "SYSTEM", name := ascii "Safe", valueType := .bool, data := [1] }]

def sampleRoom : BuildRoom where
  keys := 4
  valueKeyIndices := 4
  flatKeyOrder := 4
  out := 512

/-- A key whose name ends in a blank. -/
def blankValues : List BuildValue :=
  [{ keyPath := ascii "SYSTEM\\A \\", name := ascii "N", valueType := .binary, data := [] }]

theorem sample_checks : ((∀ value ∈ sampleValues, validName value.name true = true) ∧
      (∀ value ∈ sampleValues, ∀ component ∈ address value.keyPath, validName component false = true) ∧
      sampleValues.Pairwise (fun a b => ¬ (foldCase (address a.keyPath) = foldCase (address b.keyPath) ∧
        eqlIgnoreCase a.name b.name = true))) ∧
    (buildHiveViewInto sampleRoom .system 7 sampleValues).isOk = true ∧
    (buildHiveViewInto sampleRoom .system 0 blankValues).isOk = true ∧
    (buildHiveViewInto sampleRoom .system 0 blankValues).bind (fun view =>
      view.getValue (ascii "SYSTEM\\A \\") (ascii "N")) = .ok (some { valueType := .binary, data := [] }) ∧
    (buildHiveViewInto sampleRoom .system 0 blankValues).bind (fun view =>
      view.getValue (ascii "SYSTEM\\A ") (ascii "N")) = .ok none := by decide +kernel

theorem sampleValues_accepted : Accepted .system sampleValues where
  each value hvalue := by
    have hname := sample_checks.1.1 value hvalue
    have hcomponents := sample_checks.1.2.1 value hvalue
    simp only [sampleValues, List.mem_cons, List.not_mem_nil, or_false] at hvalue
    rcases hvalue with rfl | rfl | rfl
    · exact ⟨rfl, hname, ⟨_, rfl⟩, hcomponents⟩
    · exact ⟨rfl, hname, ⟨_, rfl⟩, hcomponents⟩
    · exact ⟨rfl, hname, ⟨_, rfl⟩, hcomponents⟩
  distinct := sample_checks.1.2.2

theorem buildHive_sample : ∃ view, buildHiveViewInto sampleRoom .system 7 sampleValues = .ok view ∧
    Holds .system 7 sampleValues view := by
  have hok := sample_checks.2.1
  refine buildHive_holds sampleRoom .system 7 sampleValues sampleValues_accepted (fun h => ?_) (fun h => ?_)
  · rw [h] at hok
    cases hok
  · rw [h] at hok
    cases hok

theorem blankValues_spelled : ∃ view, buildHiveViewInto sampleRoom .system 0 blankValues = .ok view ∧
    (∃ value, view.getValue (ascii "SYSTEM\\A \\") (ascii "N") = .ok (some value)) ∧
    view.getValue (ascii "SYSTEM\\A ") (ascii "N") = .ok none := by
  obtain ⟨-, -, hok, hfound, hnone⟩ := sample_checks
  cases hview : buildHiveViewInto sampleRoom .system 0 blankValues with
  | error e =>
    rw [hview] at hok
    cases hok
  | ok view =>
    rw [hview] at hfound hnone
    exact ⟨view, rfl, ⟨_, hfound⟩, hnone⟩

end Hive
end R4
