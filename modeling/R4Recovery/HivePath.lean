import R4Recovery.HiveFormat
/-!
# HivePath — the components of a path

The loop over `nextComponent` takes the pieces between the separators that are not empty.
-/
namespace R4
namespace Hive

/-- The pieces between the separators. -/
def components (rest : Bytes) : List Bytes := (rest.splitOnP isSeparator).filter (fun piece => !piece.isEmpty)

@[simp] theorem components_nil : components [] = [] := rfl

theorem components_append {a rest : Bytes} {sep : UInt8} (hs : isSeparator sep = true) :
    components (a ++ sep :: rest) = components a ++ components rest := by
  unfold components
  rw [List.splitOnP_append_cons _ _ hs, List.filter_append]

theorem components_cons {rest : Bytes} {sep : UInt8} (hs : isSeparator sep = true) : components (sep :: rest)
    = components rest :=
  components_append (a := []) hs

theorem components_single {piece : Bytes} (hne : piece ≠ []) (h : ∀ c ∈ piece, isSeparator c = false) :
    components piece = [piece] := by
  unfold components
  rw [List.splitOnP_eq_singleton h, List.filter_cons_of_pos (by simpa using hne), List.filter_nil]

theorem components_piece {piece rest : Bytes} (hne : piece ≠ []) (h : ∀ c ∈ piece, isSeparator c = false)
    (hrest : ∀ c ∈ rest.head?, isSeparator c = true) : components (piece ++ rest) = piece :: components rest := by
  cases rest with
  | nil => rw [List.append_nil, components_single hne h, components_nil]
  | cons c rest =>
    have hc := hrest c rfl
    rw [components_append hc, components_single hne h, components_cons hc, List.singleton_append]

theorem components_dropWhile : ∀ rest : Bytes, components (rest.dropWhile isSeparator) = components rest
  | [] => rfl
  | c :: rest => by
    rw [List.dropWhile_cons]
    split
    · rename_i hc
      rw [components_dropWhile rest, components_cons hc]
    · rfl

theorem components_reverse : ∀ text : Bytes, components (text.dropWhile isSeparator).reverse = components text.reverse
  | [] => rfl
  | c :: text => by
    rw [List.dropWhile_cons]
    split
    · rename_i hc
      rw [components_reverse text, List.reverse_cons, components_append hc, components_nil, List.append_nil]
    · rfl

theorem components_trim (rest : Bytes) : components (trimSeparators rest) = components rest := by
  rw [trimSeparators, trimBy, components_reverse, List.reverse_reverse, components_dropWhile]

section Trim

variable {p : UInt8 → Bool}

theorem trimBy_front (path : Bytes) : trimBy p path <+: path.dropWhile p := by
  have hsuffix : (path.dropWhile p).reverse.dropWhile p <:+ (path.dropWhile p).reverse := List.dropWhile_suffix p
  have hprefix := List.reverse_prefix.2 hsuffix
  rwa [List.reverse_reverse] at hprefix

theorem length_trimBy_le (path : Bytes) : (trimBy p path).length ≤ path.length :=
  Nat.le_trans (trimBy_front path).length_le (List.dropWhile_suffix p).length_le

theorem trimBy_head {path rest : Bytes} {c : UInt8} (h : trimBy p path = c :: rest) : p c = false := by
  obtain ⟨tail, htail⟩ := trimBy_front path
  rw [h, List.cons_append] at htail
  have hne : path.dropWhile p ≠ [] := by rw [← htail]; exact List.cons_ne_nil _ _
  have hhead := List.head_dropWhile_not p hne
  have heq : (path.dropWhile p).head hne = c := by
    have : path.dropWhile p = c :: (rest ++ tail) := htail.symm
    simp only [this, List.head_cons]
  rwa [heq] at hhead

end Trim

/-! ## One component -/

theorem nextComponent_none {rest : Bytes} (h : nextComponent rest = none) : components rest = [] := by
  unfold nextComponent at h
  dsimp only at h
  split at h
  · rename_i hnil
    rw [← components_trim, hnil, components_nil]
  · cases h

theorem take_findRootEnd (text : Bytes) : ∀ c ∈ text.take (findRootEnd text), isSeparator c = false := by
  intro c hc
  obtain ⟨i, hi, rfl⟩ := List.mem_iff_getElem.1 hc
  rw [List.length_take] at hi
  rw [List.getElem_take]
  have hlt : i < text.findIdx isSeparator := by
    unfold findRootEnd at hi
    omega
  simpa using List.not_of_lt_findIdx hlt

theorem findRootEnd_split {text : Bytes} (h : findRootEnd text < text.length) :
    ∃ sep, isSeparator sep = true ∧ text = text.take (findRootEnd text) ++ sep :: text.drop (findRootEnd text + 1) := by
  refine ⟨text[findRootEnd text], List.findIdx_getElem, ?_⟩
  rw [← List.drop_eq_getElem_cons h, List.take_append_drop]

theorem nextComponent_some {rest component next : Bytes} (h : nextComponent rest = some (component, next)) :
    components rest = component :: components next ∧ next.length < rest.length := by
  unfold nextComponent at h
  dsimp only at h
  have hlen := length_trimBy_le (p := isSeparator) rest
  have htrim := components_trim rest
  generalize htext : trimSeparators rest = text at *
  have hlen : text.length ≤ rest.length := by rw [← htext]; exact hlen
  split at h
  · cases h
  · rename_i hne
    obtain ⟨rfl, rfl⟩ : _ ∧ _ := by simpa only [Option.some.injEq, Prod.mk.injEq] using h
    obtain ⟨c, tail, rfl⟩ := List.exists_cons_of_ne_nil hne
    have hhead : isSeparator c = false := trimBy_head htext
    have hpos : 0 < findRootEnd (c :: tail) := by
      unfold findRootEnd
      rw [List.findIdx_cons, hhead]
      exact Nat.succ_pos _
    have hpiece : (c :: tail).take (findRootEnd (c :: tail)) ≠ [] := by
      intro hnil
      have := congrArg List.length hnil
      rw [List.length_take, List.length_cons, List.length_nil] at this
      omega
    by_cases hsplit : findRootEnd (c :: tail) < (c :: tail).length
    · obtain ⟨sep, hsep, heq⟩ := findRootEnd_split hsplit
      rw [if_pos hsplit]
      constructor
      · rw [← htrim]
        conv_lhs => rw [heq]
        rw [components_append hsep, components_single hpiece (take_findRootEnd _), List.singleton_append]
      · rw [List.length_drop]
        omega
    · rw [if_neg hsplit]
      have hend : findRootEnd (c :: tail) = (c :: tail).length :=
          Nat.le_antisymm List.findIdx_le_length (Nat.not_lt.1 hsplit)
      constructor
      · have hall := take_findRootEnd (c :: tail)
        rw [hend, List.take_length] at *
        rw [← htrim, List.drop_length, components_nil, components_single hne hall]
      · rw [List.length_drop, hend]
        have := List.length_pos_of_ne_nil hne
        omega

/-! ## The walk -/

namespace HiveView

/-- The walk over a list of components. -/
def descend (self : HiveView) : Nat → List Bytes → Checked Error (Option Nat)
  | current, [] => pure (some current)
  | current, component :: rest => do
    match ← self.findChild current component with
    | none => pure none
    | some child => descend self child rest

/-- **The loop ends, and has then walked over the components.** -/
theorem walk_eq (self : HiveView) : ∀ (left current : Nat) (rest : Bytes), rest.length < left →
    self.walk left current rest = some (self.descend current (components rest))
  | 0, _, _, h => absurd h (Nat.not_lt_zero _)
  | left + 1, current, rest, h => by
    unfold walk
    cases hnext : nextComponent rest with
    | none => rw [nextComponent_none hnext]; rfl
    | some pair =>
      obtain ⟨component, next⟩ := pair
      obtain ⟨heq, hlen⟩ := nextComponent_some hnext
      rw [heq, descend]
      dsimp only
      cases self.findChild current component with
      | error e => rfl
      | ok found =>
        cases found with
        | none => rfl
        | some child => exact walk_eq self left child next (by omega)

theorem findKey_eq (self : HiveView) (path : Bytes) : self.findKey path = match parseRoot path with
    | none => pure none
    | some (kind, rest) => if kind ≠ self.header.hiveKind then pure none else self.descend 0 (components rest) := by
  unfold findKey
  cases parseRoot path with
  | none => rfl
  | some pair =>
    dsimp only
    rw [walk_eq self _ 0 pair.2 (Nat.lt_succ_self _)]
    rfl

end HiveView
end Hive
end R4
