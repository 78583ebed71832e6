import R4Recovery.Buffer
/-!
# Fields — texts one after the other, and records of fixed-width fields

A field is a width and a number.  A record is read back field by field, at the sum of the widths before.
-/
namespace R4

theorem slice_behind {a : Bytes} (b : Bytes) {m off len : Nat} (h : a.length = m) : slice (a ++ b) (m + off)
    len = slice b off len := by
  rw [slice, slice, ← h, List.drop_length_add_append]

theorem slice_front {a : Bytes} (b : Bytes) {off len : Nat} (h : off + len ≤ a.length) :
    slice (a ++ b) off len = slice a off len := by
  rw [slice, slice, List.drop_append_of_le_length (by omega),
    List.take_append_of_le_length (by rw [List.length_drop]; omega)]

theorem slice_flatMap {α : Type} {f : α → Bytes} {n : Nat} (hf : ∀ x, (f x).length = n) : ∀ (L : List α) (i : Nat) (x : α),
    L[i]? = some x → slice (L.flatMap f) (i * n) n = f x
  | [], _, _, h => by cases h
  | y :: L, 0, x, h => by
    cases h
    rw [Nat.zero_mul, List.flatMap_cons, slice, List.drop_zero, List.take_append_of_le_length (by rw [hf]), ← hf y,
      List.take_length]
  | y :: L, i + 1, x, h => by
    rw [List.getElem?_cons_succ] at h
    rw [← slice_flatMap hf L i x h, List.flatMap_cons, slice, slice, Nat.succ_mul, Nat.add_comm (i * n) n, ← List.drop_drop]
    congr 2
    rw [← hf y, List.drop_left]

theorem length_flatMap_const {α : Type} {f : α → Bytes} {n : Nat} (hf : ∀ x, (f x).length = n) (L : List α) :
    (L.flatMap f).length = L.length * n := by
  rw [List.length_flatMap]
  simp [hf]

namespace Fields

/-- The fields, each in its width. -/
def encode (fields : List (Nat × Nat)) : Bytes := fields.flatMap (fun field => leBytes field.1 field.2)

/-- The width of the fields together. -/
def width (fields : List (Nat × Nat)) : Nat := (fields.map Prod.fst).sum

theorem length_encode (fields : List (Nat × Nat)) : (encode fields).length = width fields := by
  rw [encode, width, List.length_flatMap]
  congr 1
  exact List.map_congr_left (fun field _ => length_leBytes field.1 field.2)

theorem width_take_le : ∀ {fields : List (Nat × Nat)} {i w n : Nat}, fields[i]? = some (w, n) →
    width (fields.take i) + w ≤ width fields
  | [], _, _, _, h => by cases h
  | field :: fields, 0, w, n, h => by
    cases h
    show 0 + w ≤ w + width fields
    omega
  | field :: fields, i + 1, w, n, h => by
    have ih : width (fields.take i) + w ≤ width fields := width_take_le h
    show field.1 + width (fields.take i) + w ≤ field.1 + width fields
    omega

/-- Every number fits its width. -/
def Fit (fields : List (Nat × Nat)) : Prop := ∀ field ∈ fields, field.2 < 256 ^ field.1

theorem slice_encode (rest : Bytes) : ∀ {fields : List (Nat × Nat)} (i : Nat) {w n : Nat}, fields[i]? = some (w, n) →
    slice (encode fields ++ rest) (width (fields.take i)) w = leBytes w n
  | [], _, _, _, h => by cases h
  | field :: fields, 0, w, n, h => by
    cases h
    rw [List.take_zero, encode, List.flatMap_cons, List.append_assoc]
    show slice (leBytes w n ++ _) 0 w = leBytes w n
    rw [slice_front _ (by rw [length_leBytes, Nat.zero_add]), slice_all (length_leBytes w n)]
  | field :: fields, i + 1, w, n, h => by
    have hw : width ((field :: fields).take (i + 1)) = field.1 + width (fields.take i) := by
      rw [List.take_succ_cons, width, List.map_cons, List.sum_cons]
      rfl
    rw [hw, encode, List.flatMap_cons, List.append_assoc, slice_behind _ (length_leBytes field.1 field.2)]
    exact slice_encode rest i h

/-- **A field reads back.** -/
theorem read {fields : List (Nat × Nat)} (hfit : Fit fields) (rest : Bytes) (i : Nat) {w n : Nat}
    (h : fields[i]? = some (w, n)) :
    leNat (slice (encode fields ++ rest) (width (fields.take i)) w) = n := by
  rw [slice_encode rest i h]
  exact leNat_leBytes_of_lt (hfit (w, n) (List.mem_of_getElem? h))

end Fields
end R4
