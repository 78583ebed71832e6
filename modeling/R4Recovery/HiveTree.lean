import R4Recovery.HiveValid
import R4Recovery.HivePath
/-!
# HiveTree — what a parsed hive promises

Every lookup of a parsed view stays inside of its slices.  Each key but the root is listed by one key, so at most one chain of
child links leads to it; a key whose parents run into a cycle is reached by none.
-/
namespace R4
namespace Hive

open Checked (Settled)

namespace HiveView

/-! ## Lookups -/

def isChild (v : HiveView) (parent : Nat) (name : Bytes) (index : Nat) : Bool :=
  decide ((v.key index).parentIndex = parent) && eqlIgnoreCase (v.nameOf (v.key index)) name

/-- The first child of the name in the range of a key. -/
def child (v : HiveView) (parent : Nat) (name : Bytes) : Option Nat :=
  (List.range' (v.key parent).firstChildIndex (v.key parent).childCount).find? (v.isChild parent name)

def isOwned (v : HiveView) (owner : Nat) (name : Bytes) (index : Nat) : Bool :=
  decide ((v.value index).ownerKeyIndex = owner) && eqlIgnoreCase (v.valueNameOf (v.value index)) name

def ownValue (v : HiveView) (owner : Nat) (name : Bytes) : Option Nat :=
  (List.range' (v.key owner).firstValueIndex (v.key owner).valueCount).find? (v.isOwned owner name)

variable {v : HiveView}

theorem Shape.lt_invalid (h : v.Shape) {index : Nat} (hi : index < v.header.keyCount) : index ≠ invalidIndex := by
  have hkeys := h.keyCount
  have hinvalid : invalidIndex = 0xffffffff := rfl
  omega

theorem seekChild_eq (h : v.Shape) (hv : v.Valid) {parent : Nat} (hp : parent < v.header.keyCount) (name : Bytes) :
    ∀ (left index : Nat), index + left ≤ v.header.keyCount →
      v.seekChild parent name left index = .ok ((List.range' index left).find? (v.isChild parent name))
  | 0, _, _ => rfl
  | left + 1, index, hin => by
    have ih := seekChild_eq h hv hp name left (index + 1) (by omega)
    have hlt : index < v.header.keyCount := by omega
    rw [seekChild, h.keyAt hlt, List.range'_succ, List.find?_cons]
    show (if (v.key index).parentIndex = parent then _ else _) = _
    by_cases hparent : (v.key index).parentIndex = parent
    · have h0 : index ≠ 0 := by
        intro h0
        rw [h0, hv.root.1] at hparent
        exact h.lt_invalid hp hparent.symm
      rw [if_pos hparent, (hv.keys index hlt).keyName h0]
      show (if eqlIgnoreCase (v.nameOf (v.key index)) name = true then _ else _) = _
      rw [isChild, decide_eq_true hparent, Bool.true_and]
      cases eqlIgnoreCase (v.nameOf (v.key index)) name
      · exact ih
      · rfl
    · rw [if_neg hparent, isChild, decide_eq_false hparent, Bool.false_and]
      exact ih

theorem findChild_eq (h : v.Shape) (hv : v.Valid) {parent : Nat} (hp : parent < v.header.keyCount) (name : Bytes) :
    v.findChild parent name = .ok (v.child parent name) := by
  have hkeys := h.keyCount
  have hrange := (hv.keys parent hp).childRange
  rw [findChild, if_neg (Nat.not_le.2 hp), h.keyAt hp]
  show (if (v.key parent).childCount = 0 ∨ (v.key parent).firstChildIndex = invalidIndex then _ else _) = _
  by_cases h0 : (v.key parent).childCount = 0
  · rw [if_pos (Or.inl h0), child, h0]
    rfl
  · obtain ⟨hne, hin⟩ := hrange.inside h0
    rw [if_neg (not_or.2 ⟨h0, hne⟩), addU32_eq (by omega)]
    show v.seekChild parent name ((v.key parent).firstChildIndex + (v.key parent).childCount - (v.key parent).firstChildIndex) _ = _
    rw [Nat.add_sub_cancel_left]
    exact seekChild_eq h hv hp name _ _ hin

theorem findChild_outside {parent : Nat} (hp : v.header.keyCount ≤ parent) (name : Bytes) :
    v.findChild parent name = .ok none := by
  rw [findChild, if_pos hp]
  rfl

theorem child_some (hv : v.Valid) {parent index : Nat} (hp : parent < v.header.keyCount) {name : Bytes}
    (h : v.child parent name = some index) : Listed (v.key parent).firstChildIndex (v.key parent).childCount index ∧
      index < v.header.keyCount ∧ eqlIgnoreCase (v.nameOf (v.key index)) name = true := by
  obtain ⟨hfound, hmem, _⟩ := List.find?_range'_eq_some.1 h
  obtain ⟨hlo, hhi⟩ := List.mem_range'_1.1 hmem
  obtain ⟨hne, hin⟩ := (hv.keys parent hp).childRange.inside (by omega)
  rw [isChild, Bool.and_eq_true] at hfound
  exact ⟨⟨hne, hlo, hhi⟩, by omega, hfound.2⟩

theorem seekValue_eq (h : v.Shape) (hv : v.Valid) (owner : Nat) (name : Bytes) :
    ∀ (left index : Nat), index + left ≤ v.header.valueCount →
      v.seekValue owner name left index = .ok ((List.range' index left).find? (v.isOwned owner name))
  | 0, _, _ => rfl
  | left + 1, index, hin => by
    have ih := seekValue_eq h hv owner name left (index + 1) (by omega)
    have hlt : index < v.header.valueCount := by omega
    rw [seekValue, h.valueAt hlt, List.range'_succ, List.find?_cons]
    show (if (v.value index).ownerKeyIndex = owner then _ else _) = _
    by_cases howner : (v.value index).ownerKeyIndex = owner
    · rw [if_pos howner, (hv.values index hlt).valueName]
      show (if eqlIgnoreCase (v.valueNameOf (v.value index)) name = true then _ else _) = _
      rw [isOwned, decide_eq_true howner, Bool.true_and]
      cases eqlIgnoreCase (v.valueNameOf (v.value index)) name
      · exact ih
      · rfl
    · rw [if_neg howner, isOwned, decide_eq_false howner, Bool.false_and]
      exact ih

theorem findValue_eq (h : v.Shape) (hv : v.Valid) {owner : Nat} (hp : owner < v.header.keyCount) (name : Bytes) :
    v.findValue owner name = .ok (v.ownValue owner name) := by
  have hvalues := h.valueCount
  have hrange := (hv.keys owner hp).valueRange
  rw [findValue, if_neg (Nat.not_le.2 hp), h.keyAt hp]
  show (if (v.key owner).valueCount = 0 ∨ (v.key owner).firstValueIndex = invalidIndex then _ else _) = _
  by_cases h0 : (v.key owner).valueCount = 0
  · rw [if_pos (Or.inl h0), ownValue, h0]
    rfl
  · obtain ⟨hne, hin⟩ := hrange.inside h0
    rw [if_neg (not_or.2 ⟨h0, hne⟩), addU32_eq (by omega)]
    show v.seekValue owner name ((v.key owner).firstValueIndex + (v.key owner).valueCount - (v.key owner).firstValueIndex) _ = _
    rw [Nat.add_sub_cancel_left]
    exact seekValue_eq h hv owner name _ _ hin

theorem findValue_outside {owner : Nat} (hp : v.header.keyCount ≤ owner) (name : Bytes) :
    v.findValue owner name = .ok none := by
  rw [findValue, if_pos hp]
  rfl

theorem ownValue_some (hv : v.Valid) {owner index : Nat} (hp : owner < v.header.keyCount) {name : Bytes}
    (h : v.ownValue owner name = some index) : Listed (v.key owner).firstValueIndex (v.key owner).valueCount index ∧
      index < v.header.valueCount ∧ eqlIgnoreCase (v.valueNameOf (v.value index)) name = true := by
  obtain ⟨hfound, hmem, _⟩ := List.find?_range'_eq_some.1 h
  obtain ⟨hlo, hhi⟩ := List.mem_range'_1.1 hmem
  obtain ⟨hne, hin⟩ := (hv.keys owner hp).valueRange.inside (by omega)
  rw [isOwned, Bool.and_eq_true] at hfound
  exact ⟨⟨hne, hlo, hhi⟩, by omega, hfound.2⟩

/-- The walk from a key, by the children alone. -/
def reach (v : HiveView) : Nat → List Bytes → Option Nat
  | current, [] => some current
  | current, component :: rest => (v.child current component).bind (fun next => reach v next rest)

theorem reach_lt (hv : v.Valid) : ∀ {path : List Bytes} {current index : Nat}, current < v.header.keyCount →
    v.reach current path = some index → index < v.header.keyCount
  | [], current, index, hc, h => by
    cases h
    exact hc
  | component :: rest, current, index, hc, h => by
    obtain ⟨next, hnext, h⟩ := Option.bind_eq_some_iff.1 h
    exact reach_lt hv (child_some hv hc hnext).2.1 h

theorem descend_eq (h : v.Shape) (hv : v.Valid) : ∀ (path : List Bytes) {current : Nat}, current < v.header.keyCount →
    v.descend current path = .ok (v.reach current path)
  | [], _, _ => rfl
  | component :: rest, current, hc => by
    rw [descend, findChild_eq h hv hc, reach]
    cases hchild : v.child current component with
    | none => rfl
    | some next => exact descend_eq h hv rest (child_some hv hc hchild).2.1

/-- Where a path leads. -/
def keyOfPath (v : HiveView) (path : Bytes) : Option Nat :=
  (parseRoot path).bind (fun root => if root.1 = v.header.hiveKind then v.reach 0 (components root.2) else none)

theorem findKey_ok (h : v.Shape) (hv : v.Valid) (hroot : 0 < v.header.keyCount) (path : Bytes) :
    v.findKey path = .ok (v.keyOfPath path) := by
  rw [findKey_eq, keyOfPath]
  cases parseRoot path with
  | none => rfl
  | some root =>
    show (if root.1 ≠ v.header.hiveKind then _ else _) = Except.ok (if root.1 = v.header.hiveKind then _ else _)
    by_cases hkind : root.1 = v.header.hiveKind
    · rw [if_neg (not_not.2 hkind), if_pos hkind, descend_eq h hv _ hroot]
    · rw [if_pos hkind, if_neg hkind]
      rfl

theorem keyOfPath_lt (hv : v.Valid) (hroot : 0 < v.header.keyCount) {path : Bytes} {index : Nat}
    (h : v.keyOfPath path = some index) :
    index < v.header.keyCount := by
  obtain ⟨root, _, h⟩ := Option.bind_eq_some_iff.1 h
  split at h
  · exact reach_lt hv hroot h
  · cases h

/-- What `getValue` answers. -/
def valueOfPath (v : HiveView) (keyPath name : Bytes) : Option Value :=
  (v.keyOfPath keyPath).bind (fun owner => (v.ownValue owner name).map (fun index =>
    { valueType := (v.value index).valueType, data := v.dataOf (v.value index) }))

theorem getValue_ok (h : v.Shape) (hv : v.Valid) (hroot : 0 < v.header.keyCount) (keyPath name : Bytes) :
    v.getValue keyPath name = .ok (v.valueOfPath keyPath name) := by
  rw [getValue, findKey_ok h hv hroot, valueOfPath]
  cases hkey : v.keyOfPath keyPath with
  | none => rfl
  | some owner =>
    have hlt := keyOfPath_lt hv hroot hkey
    show (v.findValue owner name >>= _) = _
    rw [findValue_eq h hv hlt, Option.bind_some]
    cases hvalue : v.ownValue owner name with
    | none => rfl
    | some index =>
      have hin := (ownValue_some hv hlt hvalue).2.1
      show (v.valueAt index >>= _) = _
      rw [h.valueAt hin]
      show (v.valueData (v.value index) >>= _) = _
      rw [(hv.values index hin).valueData]
      rfl

/-- **Every call on the view stays inside**: on the records of the tables, and with any path, index and name. -/
structure Safe (v : HiveView) : Prop where
  keys : ∀ i, i < v.header.keyCount → ∃ key, v.keyAt i = .ok key ∧ ∃ name, v.keyName key = .ok name
  values : ∀ i, i < v.header.valueCount → ∃ value, v.valueAt i = .ok value ∧ (∃ name, v.valueName value = .ok name) ∧
    ∃ data, v.valueData value = .ok data
  findKey : ∀ path, ∃ found, v.findKey path = .ok found
  findChild : ∀ parent name, ∃ found, v.findChild parent name = .ok found
  findValue : ∀ key name, ∃ found, v.findValue key name = .ok found
  getValue : ∀ keyPath name, ∃ found, v.getValue keyPath name = .ok found

theorem Valid.safe (h : v.Shape) (hv : v.Valid) (hroot : 0 < v.header.keyCount) : v.Safe where
  keys i hi := by
    refine ⟨v.key i, h.keyAt hi, v.nameOf (v.key i), ?_⟩
    by_cases h0 : i = 0
    · exact sliceFromHeap_eq (fun hlen => absurd (by rw [h0]; exact hv.root.2.1) hlen)
    · exact (hv.keys i hi).keyName h0
  values i hi := ⟨v.value i, h.valueAt hi, ⟨_, (hv.values i hi).valueName⟩, ⟨_, (hv.values i hi).valueData⟩⟩
  findKey path := ⟨_, findKey_ok h hv hroot path⟩
  findChild parent name := by
    by_cases hp : parent < v.header.keyCount
    · exact ⟨_, findChild_eq h hv hp name⟩
    · exact ⟨_, findChild_outside (Nat.not_lt.1 hp) name⟩
  findValue key name := by
    by_cases hp : key < v.header.keyCount
    · exact ⟨_, findValue_eq h hv hp name⟩
    · exact ⟨_, findValue_outside (Nat.not_lt.1 hp) name⟩
  getValue keyPath name := ⟨_, getValue_ok h hv hroot keyPath name⟩

/-! ## The links -/

/-- A key lists another as its child. -/
def Link (v : HiveView) (parent index : Nat) : Prop :=
  parent < v.header.keyCount ∧ Listed (v.key parent).firstChildIndex (v.key parent).childCount index

/-- A key owns a value. -/
def Owns (v : HiveView) (owner index : Nat) : Prop :=
  owner < v.header.keyCount ∧ Listed (v.key owner).firstValueIndex (v.key owner).valueCount index

/-- The keys of a chain of child links from the root to a key, the last parent first. -/
inductive Chain (v : HiveView) : Nat → List Nat → Prop
  | root : Chain v 0 []
  | link {parent index : Nat} {chain : List Nat} (h : Chain v parent chain) (hl : v.Link parent index) :
      Chain v index (parent :: chain)

def parentOf (v : HiveView) (index : Nat) : Nat := (v.key index).parentIndex

/-- **What the links of a view promise.** -/
structure Linked (v : HiveView) : Prop where
  siblings : ∀ parent a b, v.Link parent a → v.Link parent b → a ≠ b →
    eqlIgnoreCase (v.nameOf (v.key a)) (v.nameOf (v.key b)) = false
  values : ∀ owner a b, v.Owns owner a → v.Owns owner b → a ≠ b →
    eqlIgnoreCase (v.valueNameOf (v.value a)) (v.valueNameOf (v.value b)) = false
  names : ∀ parent index, v.Link parent index → v.nameOf (v.key index) = [] ∨ validName (v.nameOf (v.key index)) false = true
  listed : ∀ index, index < v.header.keyCount → index ≠ 0 → ∃! parent, v.Link parent index
  root : ∀ parent, ¬ v.Link parent 0
  unique : ∀ index chain other, v.Chain index chain → v.Chain index other → chain = other
  reached : ∀ index, index < v.header.keyCount → ((∃ chain, v.Chain index chain) ↔ ∃ n, v.parentOf^[n] index = 0)

theorem Valid.link_child (h : v.Shape) (hv : v.Valid) {parent index : Nat} (hl : v.Link parent index) :
    index < v.header.keyCount ∧ index ≠ 0 ∧ v.parentOf index = parent := by
  obtain ⟨hp, _, hlo, hhi⟩ := hl
  have hi : index - (v.key parent).firstChildIndex < (v.key parent).childCount := by omega
  have hback := (hv.keys parent hp).children _ hi
  obtain ⟨hlt, hne⟩ := (hv.keys parent hp).child hp h.keyCount hv.root.1 hi
  rw [Nat.add_sub_cancel' hlo] at hback hlt hne
  exact ⟨hlt, hne, hback⟩

theorem Valid.link_parent (hv : v.Valid) {index : Nat} (hi : index < v.header.keyCount) (h0 : index ≠ 0) :
    v.Link (v.parentOf index) index := ((hv.keys index hi).link h0).listed

theorem Valid.siblings (hv : v.Valid) {parent a b : Nat} (ha : v.Link parent a) (hb : v.Link parent b) (hlt : a < b) :
    eqlIgnoreCase (v.nameOf (v.key a)) (v.nameOf (v.key b)) = false := by
  obtain ⟨hp, _, halo, hahi⟩ := ha
  obtain ⟨_, _, hblo, hbhi⟩ := hb
  have hpair := hv.keyNames parent hp (a - (v.key parent).firstChildIndex) (by omega) (b - a - 1) (by omega)
  have hsum : (v.key parent).firstChildIndex + (a - (v.key parent).firstChildIndex + 1 + (b - a - 1)) = b := by omega
  rwa [Nat.add_sub_cancel' halo, hsum] at hpair

theorem Valid.ownNames (hv : v.Valid) {owner a b : Nat} (ha : v.Owns owner a) (hb : v.Owns owner b) (hlt : a < b) :
    eqlIgnoreCase (v.valueNameOf (v.value a)) (v.valueNameOf (v.value b)) = false := by
  obtain ⟨hp, _, halo, hahi⟩ := ha
  obtain ⟨_, _, hblo, hbhi⟩ := hb
  have hpair := hv.valueNames owner hp (a - (v.key owner).firstValueIndex) (by omega) (b - a - 1) (by omega)
  have hsum : (v.key owner).firstValueIndex + (a - (v.key owner).firstValueIndex + 1 + (b - a - 1)) = b := by omega
  rwa [Nat.add_sub_cancel' halo, hsum] at hpair

theorem Chain.unique (h : v.Shape) (hv : v.Valid) : ∀ {chain other : List Nat} {index : Nat}, v.Chain index chain →
    v.Chain index other →
    chain = other
  | [], [], _, _, _ => rfl
  | [], parent :: other, _, .root, .link _ hl => absurd rfl (hv.link_child h hl).2.1
  | parent :: chain, [], _, .link _ hl, .root => absurd rfl (hv.link_child h hl).2.1
  | p :: chain, q :: other, _, .link hp hlp, .link hq hlq => by
    have heq : p = q := (hv.link_child h hlp).2.2.symm.trans (hv.link_child h hlq).2.2
    subst heq
    rw [Chain.unique h hv hp hq]

theorem Chain.parents (h : v.Shape) (hv : v.Valid) {index : Nat} {chain : List Nat} (hc : v.Chain index chain) :
    v.parentOf^[chain.length] index = 0 := by
  induction hc with
  | root => rfl
  | link _ hl ih => rw [List.length_cons, Function.iterate_succ_apply, (hv.link_child h hl).2.2, ih]

theorem Valid.chain_of_parents (hv : v.Valid) : ∀ (n : Nat) {index : Nat}, index < v.header.keyCount →
    v.parentOf^[n] index = 0 →
    ∃ chain, v.Chain index chain
  | 0, index, _, hn => by
    have h0 : index = 0 := hn
    subst h0
    exact ⟨[], .root⟩
  | n + 1, index, hi, hn => by
    by_cases h0 : index = 0
    · subst h0
      exact ⟨[], .root⟩
    · have hl := hv.link_parent hi h0
      rw [Function.iterate_succ_apply] at hn
      obtain ⟨chain, hc⟩ := hv.chain_of_parents n hl.1 hn
      exact ⟨_, .link hc hl⟩

theorem Valid.linked (h : v.Shape) (hv : v.Valid) : v.Linked where
  siblings parent a b ha hb hne := by
    rcases Nat.lt_or_gt_of_ne hne with hlt | hlt
    · exact hv.siblings ha hb hlt
    · rw [eqlIgnoreCase_symm]
      exact hv.siblings hb ha hlt
  values owner a b ha hb hne := by
    rcases Nat.lt_or_gt_of_ne hne with hlt | hlt
    · exact hv.ownNames ha hb hlt
    · rw [eqlIgnoreCase_symm]
      exact hv.ownNames hb ha hlt
  names parent index hl := by
    obtain ⟨hi, h0, _⟩ := hv.link_child h hl
    have hname := ((hv.keys index hi).link h0).name
    by_cases hlen : (v.key index).nameLen = 0
    · refine Or.inl ?_
      rw [nameOf, hlen]
      rfl
    · exact Or.inr (hname.inside hlen).2
  listed index hi h0 :=
    ⟨v.parentOf index, hv.link_parent hi h0, fun _ hl => (hv.link_child h hl).2.2.symm⟩
  root parent hl := (hv.link_child h hl).2.1 rfl
  unique _ _ _ hc ho := hc.unique h hv ho
  reached index hi := ⟨fun ⟨chain, hc⟩ => ⟨chain.length, hc.parents h hv⟩, fun ⟨n, hn⟩ => hv.chain_of_parents n hi hn⟩

end HiveView

/-- **Parsing any bytes ends without a fault, and a parsed view is safe and linked.** -/
theorem parseHive_safe (bytes : Bytes) :
    Settled (parseHive bytes) ∧ ∀ view, parseHive bytes = .ok view → view.Safe ∧ view.Linked := by
  refine ⟨(parseHive_yields bytes).settled, fun view hview => ?_⟩
  obtain ⟨hhive, heq⟩ := (parseHive_yields bytes).holds hview
  rw [heq]
  have hshape := viewOf_shape hhive.keyTable hhive.valueTable
  exact ⟨hhive.valid.safe hshape (Nat.pos_of_ne_zero hhive.rooted), hhive.valid.linked hshape⟩

/-- Two keys: the root, and a key without a name that lists itself. -/
def loopedHive : Bytes :=
  magic ++ leBytes 2 1 ++ leBytes 2 96 ++ leBytes 2 1 ++ leBytes 2 1 ++ leBytes 4 0 ++ leBytes 8 160 ++ leBytes 8 0 ++
    leBytes 4 96 ++ leBytes 4 2 ++ zeros 56 ++
    (leBytes 4 invalidIndex ++ zeros 8 ++ leBytes 4 invalidIndex ++ zeros 4 ++ leBytes 4 invalidIndex ++ zeros 8) ++
    (leBytes 4 1 ++ zeros 8 ++ leBytes 4 invalidIndex ++ zeros 4 ++ leBytes 4 1 ++ leBytes 4 1 ++ zeros 4)

theorem loopedHive_parsed : ∃ view, parseHive loopedHive = .ok view ∧ view.keyAt 2 = .error .bounds ∧
    view.Link 1 1 ∧ view.nameOf (view.key 1) = [] ∧ ∀ chain, ¬ view.Chain 1 chain := by
  have hparse : (parseHive loopedHive).isOk = true := by decide +kernel
  cases hview : parseHive loopedHive with
  | error e =>
    rw [hview] at hparse
    cases hparse
  | ok view =>
    obtain ⟨hhive, heq⟩ := (parseHive_yields loopedHive).holds hview
    subst heq
    have hshape := viewOf_shape hhive.keyTable hhive.valueTable
    have hlink : (viewOf loopedHive).Link 1 1 := by
      refine ⟨by decide +kernel, by decide +kernel, by decide +kernel, by decide +kernel⟩
    refine ⟨_, rfl, by decide +kernel, hlink, by decide +kernel, fun chain hc => ?_⟩
    -- the only parent of key 1 is key 1
    have hparents := hc.parents hshape hhive.valid
    have hfixed : (viewOf loopedHive).parentOf 1 = 1 := (hhive.valid.link_child hshape hlink).2.2
    rw [Function.iterate_fixed hfixed] at hparents
    cases hparents

end Hive
end R4
