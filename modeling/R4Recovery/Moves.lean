import R4Recovery.Checked
import R4Recovery.Buffer
/-!
# Moves — copies inside of one buffer

`std.mem.copyForwards` and `std.mem.copyBackwards` byte by byte.  A copy to a lower place from the front, and one to a higher
place from the back, never reads a byte that it has overwritten: it puts the old bytes.
-/
namespace R4
namespace Moves

variable {ε : Type}

def readAt (b : Bytes) (i : Nat) : Checked ε UInt8 :=
  match b[i]? with
  | some c => .ok c
  | none => .error .bounds

def writeAt (b : Bytes) (i : Nat) (c : UInt8) : Checked ε Bytes := if i < b.length then .ok (b.set i c) else .error .bounds

/-- `n` bytes from `src` to `dst`, the lowest first. -/
def copyForwards (b : Bytes) (dst src : Nat) : Nat → Checked ε Bytes
  | 0 => .ok b
  | n + 1 => do
    let c ← readAt b src
    let b ← writeAt b dst c
    copyForwards b (dst + 1) (src + 1) n

/-- `n` bytes from `src` to `dst`, the highest first. -/
def copyBackwards (b : Bytes) (dst src : Nat) : Nat → Checked ε Bytes
  | 0 => .ok b
  | n + 1 => do
    let c ← readAt b (src + n)
    let b ← writeAt b (dst + n) c
    copyBackwards b dst src n

theorem readAt_ok {b : Bytes} {i : Nat} (h : i < b.length) : (readAt b i : Checked ε UInt8) = .ok b[i] := by
  unfold readAt
  rw [List.getElem?_eq_getElem h]

theorem writeAt_ok {b : Bytes} {i : Nat} (h : i < b.length) (c : UInt8) : (writeAt b i c : Checked ε Bytes)
    = .ok (b.set i c) :=
  if_pos h

theorem put_nil (b : Bytes) (off : Nat) : put b off [] = b := by
  refine List.ext_getElem? fun i => ?_
  exact getElem?_put_off (by rw [List.length_nil]; omega)

theorem put_cons {b v : Bytes} {off : Nat} {c : UInt8} (h : off < b.length) : put (b.set off c) (off + 1)
    v = put b off (c :: v) := by
  refine List.ext_getElem? fun i => ?_
  rcases Nat.lt_trichotomy i off with hi | rfl | hi
  · rw [getElem?_put_off (.inl (by omega)), getElem?_put_off (.inl hi), List.getElem?_set_ne (by omega)]
  · rw [getElem?_put_off (.inl (by omega)), List.getElem?_set_self h, getElem?_put, List.getElem?_eq_getElem h,
      Option.map_some,
      if_pos (Nat.le_refl _), Nat.sub_self]
    rfl
  · rw [getElem?_put, getElem?_put, List.getElem?_set_ne (by omega)]
    congr 1
    funext d
    rw [if_pos (by omega), if_pos (by omega), show i - off = (i - (off + 1)) + 1 by omega, List.getElem?_cons_succ]

theorem put_concat {b v : Bytes} {off : Nat} {c : UInt8} (h : off + v.length < b.length) :
    put (b.set (off + v.length) c) off v = put b off (v ++ [c]) := by
  refine List.ext_getElem? fun i => ?_
  rw [getElem?_put, getElem?_put]
  by_cases hi : i = off + v.length
  · rw [hi, List.getElem?_set_self h, List.getElem?_eq_getElem h, Option.map_some, Option.map_some,
      if_pos (Nat.le_add_right _ _),
      if_pos (Nat.le_add_right _ _), Nat.add_sub_cancel_left, List.getElem?_eq_none (Nat.le_refl _),
      List.getElem?_append_right (Nat.le_refl _), Nat.sub_self]
    rfl
  · rw [List.getElem?_set_ne (by omega)]
    congr 1
    funext d
    by_cases ho : off ≤ i
    · rw [if_pos ho, if_pos ho]
      by_cases hv : i - off < v.length
      · rw [List.getElem?_append_left hv]
      · rw [List.getElem?_eq_none (by omega), List.getElem?_eq_none (by rw [List.length_append, List.length_singleton]; omega)]
    · rw [if_neg ho, if_neg ho]

theorem slice_succ {b : Bytes} {i n : Nat} (h : i < b.length) : slice b i (n + 1) = b[i] :: slice b (i + 1) n := by
  rw [slice, List.drop_eq_getElem_cons h, List.take_succ_cons]
  rfl

theorem slice_concat {b : Bytes} {i n : Nat} (h : i + n < b.length) : slice b i (n + 1) = slice b i n ++ [b[i + n]] := by
  rw [slice_append, slice_succ h]
  rfl

theorem slice_set_off {b : Bytes} {i off n : Nat} {c : UInt8} (h : i < off ∨ off + n ≤ i) :
    slice (b.set i c) off n = slice b off n := by
  refine List.ext_getElem? fun k => ?_
  rw [getElem?_slice, getElem?_slice]
  by_cases hk : k < n
  · rw [if_pos hk, if_pos hk, List.getElem?_set_ne (by omega)]
  · rw [if_neg hk, if_neg hk]

/-- **A copy to a lower place reads no byte that it has overwritten.** -/
theorem copyForwards_eq : ∀ {n : Nat} {b : Bytes} {dst src : Nat}, dst ≤ src → src + n ≤ b.length →
    (copyForwards b dst src n : Checked ε Bytes) = .ok (put b dst (slice b src n))
  | 0, b, dst, src, _, _ => by
    rw [copyForwards, slice, List.take_zero, put_nil]
  | n + 1, b, dst, src, hle, hin => by
    have hsrc : src < b.length := by omega
    have hdst : dst < b.length := by omega
    rw [copyForwards, readAt_ok hsrc]
    simp only [bind, Except.bind]
    rw [writeAt_ok hdst]
    simp only
    rw [copyForwards_eq (Nat.succ_le_succ hle) (by rw [List.length_set]; omega), slice_set_off (.inl (by omega)),
      put_cons hdst,
      slice_succ hsrc]

/-- **A copy to a higher place reads no byte that it has overwritten.** -/
theorem copyBackwards_eq : ∀ {n : Nat} {b : Bytes} {dst src : Nat}, src ≤ dst → dst + n ≤ b.length →
    (copyBackwards b dst src n : Checked ε Bytes) = .ok (put b dst (slice b src n))
  | 0, b, dst, src, _, _ => by
    rw [copyBackwards, slice, List.take_zero, put_nil]
  | n + 1, b, dst, src, hle, hin => by
    have hsrc : src + n < b.length := by omega
    have hdst : dst + n < b.length := by omega
    have hlen : (slice b src n).length = n := length_slice (by omega)
    rw [copyBackwards, readAt_ok hsrc]
    simp only [bind, Except.bind]
    rw [writeAt_ok hdst]
    simp only
    have hput := @put_concat b (slice b src n) dst b[src + n] (by rw [hlen]; exact hdst)
    rw [hlen] at hput
    rw [copyBackwards_eq hle (by rw [List.length_set]; omega), slice_set_off (.inr (by omega)), hput, slice_concat hsrc]

end Moves
end R4
