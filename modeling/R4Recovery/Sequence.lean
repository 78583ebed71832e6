import Mathlib.Data.UInt
/-!
# Sequence — stream positions behind 32-bit sequence numbers

A sequence number is a position of a stream modulo 2^32.  Two positions that lie within 2^31 of each other are ordered by
their numbers; further apart the numbers say nothing.
-/
namespace R4
namespace Sequence

/-- The number of a position. -/
def num (p : Nat) : UInt32 := UInt32.ofNat p

/-- `a` comes after `b`: the difference, read as a signed word, is positive. -/
def after (a b : UInt32) : Bool := decide (0 < (a - b).toNat) && decide ((a - b).toNat < 2147483648)

variable {p q n : Nat}

@[simp] theorem toNat_num (p : Nat) : (num p).toNat = p % 4294967296 := UInt32.toNat_ofNat'

theorem num_add (p n : Nat) : num (p + n) = num p + num n := by
  apply UInt32.toNat_inj.1
  rw [UInt32.toNat_add, toNat_num, toNat_num, toNat_num]
  omega

theorem num_succ (p : Nat) : num (p + 1) = num p + 1 := num_add p 1

theorem num_toNat (a : UInt32) : num a.toNat = a := UInt32.ofNat_toNat

theorem toNat_sub (p q : Nat) : (num p - num q).toNat = (4294967296 - q % 4294967296 + p % 4294967296) % 4294967296 := by
  rw [UInt32.toNat_sub, toNat_num, toNat_num]

theorem sub_of_le (h : q ≤ p) (hb : p < q + 4294967296) : (num p - num q).toNat = p - q := by
  rw [toNat_sub]
  omega

theorem sub_of_lt (h : p < q) (hb : q ≤ p + 4294967296) : (num p - num q).toNat = 4294967296 - (q - p) := by
  rw [toNat_sub]
  omega

theorem num_inj (h : num p = num q) (h1 : p < q + 4294967296) (h2 : q < p + 4294967296) : p = q := by
  have hm : p % 4294967296 = q % 4294967296 := by
    rw [← toNat_num, ← toNat_num, h]
  omega

/-- **Within 2^31 the numbers are ordered as the positions are.** -/
theorem after_num (h1 : p < q + 2147483648) (h2 : q ≤ p + 2147483648) : after (num p) (num q) = decide (q < p) := by
  unfold after
  by_cases h : q < p
  · rw [sub_of_le (by omega) (by omega)]
    simp only [h, decide_true, Bool.and_eq_true, decide_eq_true_eq]
    omega
  · rcases Nat.lt_or_ge p q with hlt | hge
    · rw [sub_of_lt hlt (by omega)]
      simp only [h, decide_false, Bool.and_eq_false_iff, decide_eq_false_iff_not]
      omega
    · rw [sub_of_le hge (by omega)]
      simp only [h, decide_false, Bool.and_eq_false_iff, decide_eq_false_iff_not]
      omega

theorem after_num_far (h1 : p + 2147483648 < q) (h2 : q < p + 4294967296) : after (num p) (num q) = true := by
  unfold after
  rw [sub_of_lt (by omega) (by omega)]
  simp only [Bool.and_eq_true, decide_eq_true_eq]
  omega

@[simp] theorem after_self (a : UInt32) : after a a = false := by
  simp [after]

end Sequence
end R4
