import R4Recovery.HiveBuildTree
/-!
# HiveBuildOrder — the flat order of the keys

Breadth first, the order is the root followed by the children of each of its own keys.  So it holds every key once, and the
children of a key stand side by side.
-/
namespace R4
namespace Hive

theorem mem_buildChildren {keys : List BuildKey} {parent child : Nat} : child ∈ buildChildren keys parent ↔
    0 < child ∧ ∃ key, keys[child]? = some key ∧ key.parent = parent := by
  rw [buildChildren, List.mem_filter, List.mem_range'_1, Option.any_eq_true]
  constructor
  · rintro ⟨⟨hlo, _⟩, key, hkey, hparent⟩
    exact ⟨hlo, key, hkey, beq_iff_eq.1 hparent⟩
  · rintro ⟨hlo, key, hkey, hparent⟩
    have hlt := (List.getElem?_eq_some_iff.1 hkey).1
    exact ⟨⟨hlo, by omega⟩, key, hkey, beq_iff_eq.2 hparent⟩

theorem nodup_buildChildren (keys : List BuildKey) (parent : Nat) : (buildChildren keys parent).Nodup :=
  List.Nodup.filter _ List.nodup_range'

theorem findBuildChild_eq (keys : List BuildKey) (parent : Nat) (name : Bytes) : findBuildChild keys parent name =
    (buildChildren keys parent).find? (fun child => (keys[child]?).any (fun key => eqlIgnoreCase key.name name)) := by
  rw [buildChildren, List.find?_filter]
  refine List.find?_congr (fun i _ => ?_)
  cases keys[i]? with
  | none => rfl
  | some key =>
    rw [Option.any_some, Option.any_some, Option.any_some, Bool.eq_iff_iff, Bool.and_eq_true, decide_eq_true_eq]

/-- **The order after `cursor` of its keys.** -/
structure Ordered (keys : List BuildKey) (cursor : Nat) (order : List Nat) : Prop where
  shape : order = 0 :: (order.take cursor).flatMap (buildChildren keys)
  nodup : order.Nodup
  bound : ∀ build ∈ order, build < keys.length

theorem ordered_root {keys : List BuildKey} (h : 0 < keys.length) : Ordered keys 0 [0] :=
  ⟨rfl, List.nodup_singleton 0, fun build hb => by rwa [List.mem_singleton.1 hb]⟩

theorem Ordered.step {keys : List BuildKey} {cursor parent : Nat} {order : List Nat} (h : Ordered keys cursor order)
    (hp : order[cursor]? = some parent) : Ordered keys (cursor + 1) (order ++ buildChildren keys parent) := by
  obtain ⟨hlt, hget⟩ := List.getElem?_eq_some_iff.1 hp
  have htake : (order ++ buildChildren keys parent).take (cursor + 1) = order.take cursor ++ [parent] := by
    rw [List.take_append_of_le_length (by omega), List.take_succ_eq_append_getElem hlt, hget]
  have hfresh : parent ∉ order.take cursor := by
    intro hmem
    have hnodup := h.nodup
    rw [← List.take_append_drop cursor order] at hnodup
    refine (List.nodup_append.1 hnodup).2.2 parent hmem parent ?_ rfl
    rw [List.drop_eq_getElem_cons hlt, hget]
    exact List.mem_cons_self
  refine ⟨?_, ?_, fun build hb => ?_⟩
  · rw [htake, List.flatMap_append, List.flatMap_singleton, ← List.cons_append, ← h.shape]
  · refine List.nodup_append.2 ⟨h.nodup, nodup_buildChildren keys parent, fun a ha b hb hab => ?_⟩
    obtain ⟨hpos, key, hkey, hparent⟩ := mem_buildChildren.1 hb
    rw [hab, h.shape] at ha
    rcases List.mem_cons.1 ha with h0 | ha
    · omega
    · obtain ⟨other, hother, hchild⟩ := List.mem_flatMap.1 ha
      obtain ⟨_, key', hkey', hparent'⟩ := mem_buildChildren.1 hchild
      rw [hkey] at hkey'
      cases hkey'
      rw [← hparent', hparent] at hother
      exact hfresh hother
  · rcases List.mem_append.1 hb with hb | hb
    · exact h.bound build hb
    · obtain ⟨_, key, hkey, _⟩ := mem_buildChildren.1 hb
      exact (List.getElem?_eq_some_iff.1 hkey).1

theorem Ordered.length_le {keys : List BuildKey} {cursor : Nat} {order : List Nat} (h : Ordered keys cursor order) :
    order.length ≤ keys.length := by
  have hsub := List.subperm_of_subset h.nodup (fun build hb => List.mem_range.2 (h.bound build hb))
  rw [← List.length_range (n := keys.length)]
  exact hsub.length_le

/-- The order at the end of the loop. -/
structure FlatOrder (keys : List BuildKey) (order : List Nat) : Prop where
  shape : order = 0 :: order.flatMap (buildChildren keys)
  nodup : order.Nodup
  bound : ∀ build ∈ order, build < keys.length

theorem Ordered.done {keys : List BuildKey} {cursor : Nat} {order : List Nat} (h : Ordered keys cursor order)
    (hc : order.length ≤ cursor) : FlatOrder keys order := by
  have hshape := h.shape
  rw [List.take_of_length_le hc] at hshape
  exact ⟨hshape, h.nodup, h.bound⟩

/-- **The loop ends with the whole order, or the room does not suffice.** -/
theorem flatOrder_spec (room : BuildRoom) {keys : List BuildKey} : ∀ (left cursor : Nat) {order : List Nat},
    left + cursor = keys.length → Ordered keys cursor order →
    flatOrder room keys left cursor order = some (.error .tooManyEntries) ∨
      ∃ order', flatOrder room keys left cursor order = some (.ok order') ∧ FlatOrder keys order'
  | 0, cursor, order, hleft, h => by
    have hlen := h.length_le
    rw [flatOrder, if_neg (by omega)]
    exact Or.inr ⟨order, rfl, h.done (by omega)⟩
  | left + 1, cursor, order, hleft, h => by
    unfold flatOrder
    cases hp : order[cursor]? with
    | none => exact Or.inr ⟨order, rfl, h.done (List.getElem?_eq_none_iff.1 hp)⟩
    | some parent =>
      dsimp only
      split
      · exact Or.inl rfl
      · exact flatOrder_spec room left (cursor + 1) (by omega) (h.step hp)

namespace FlatOrder

variable {keys : List BuildKey} {order : List Nat}

theorem mem (h : FlatOrder keys order) (ht : Tree keys) (build : Nat) (hb : build < keys.length) : build ∈ order := by
  induction build using Nat.strong_induction_on with
  | _ build ih =>
    rw [h.shape]
    rcases Nat.eq_zero_or_pos build with rfl | hpos
    · exact List.mem_cons_self
    · have hparent := ht.parents build keys[build] hpos (List.getElem?_eq_getElem hb)
      refine List.mem_cons_of_mem _ (List.mem_flatMap.2 ⟨_, ih _ hparent (by omega), ?_⟩)
      exact mem_buildChildren.2 ⟨hpos, _, List.getElem?_eq_getElem hb, rfl⟩

theorem length_eq (h : FlatOrder keys order) (ht : Tree keys) : order.length = keys.length := by
  have hperm : order.Perm (List.range keys.length) := by
    refine (List.perm_ext_iff_of_nodup h.nodup List.nodup_range).2 (fun build => ⟨fun hb => ?_, fun hb => ?_⟩)
    · exact List.mem_range.2 (h.bound build hb)
    · exact h.mem ht build (List.mem_range.1 hb)
  rw [hperm.length_eq, List.length_range]

theorem flatIndex_get (h : FlatOrder keys order) {flat build : Nat} (hf : order[flat]? = some build) :
    flatIndex order build = flat := by
  obtain ⟨hlt, rfl⟩ := List.getElem?_eq_some_iff.1 hf
  exact h.nodup.idxOf_getElem flat hlt

theorem get_flatIndex {build : Nat} (hb : build ∈ order) : order[flatIndex order build]? = some build := by
  have hlt := List.idxOf_lt_length_iff.2 hb
  exact List.getElem?_eq_some_iff.2 ⟨hlt, List.getElem_idxOf hlt⟩

theorem root (h : FlatOrder keys order) : order[0]? = some 0 := by
  rw [h.shape]
  rfl

/-- The flat index of the first child of the key at `flat`. -/
def firstChild (keys : List BuildKey) (order : List Nat) (flat : Nat) : Nat :=
  1 + ((order.take flat).flatMap (buildChildren keys)).length

/-- **The children of a key stand side by side.** -/
theorem children (h : FlatOrder keys order) {flat build : Nat} (hf : order[flat]? = some build) :
    (buildChildren keys build).map (flatIndex order) =
      List.range' (firstChild keys order flat) (buildChildren keys build).length := by
  obtain ⟨hlt, hget⟩ := List.getElem?_eq_some_iff.1 hf
  have hsplit : order = (0 :: (order.take flat).flatMap (buildChildren keys)) ++
      (buildChildren keys build ++ (order.drop (flat + 1)).flatMap (buildChildren keys)) := by
    conv_lhs => rw [h.shape, ← List.take_append_drop flat order, List.drop_eq_getElem_cons hlt, hget]
    rw [List.flatMap_append, List.flatMap_cons, List.cons_append]
  refine List.ext_getElem (by rw [List.length_map, List.length_range']) (fun i h1 h2 => ?_)
  rw [List.getElem_map, List.getElem_range', Nat.one_mul]
  refine h.flatIndex_get ?_
  rw [List.length_map] at h1
  have hlen : (0 :: (order.take flat).flatMap (buildChildren keys)).length = firstChild keys order flat := by
    rw [List.length_cons, firstChild, Nat.add_comm]
  have hget : ∀ l : List Nat, l = order → l[firstChild keys order flat + i]? = order[firstChild keys order flat + i]? :=
    fun l hl => by rw [hl]
  rw [← hget _ hsplit.symm, List.getElem?_append_right (by omega), hlen, Nat.add_sub_cancel_left,
    List.getElem?_append_left h1, List.getElem?_eq_getElem h1]

end FlatOrder
end Hive
end R4
