import R4Recovery.Bitmap
/-!
# BitScan — the first place of a range, and bitmaps read by words

`firstIn p lo hi` is the least place of `[lo, hi)` with `p`.  A bitmap of bytes is also a row of little-endian words of
sixty-four bits; the lowest clear bit of a masked word is the first clear bit from a place on.
-/
namespace R4
namespace BitScan

open Bitmap

/-- The first place of `[lo, hi)` with `p`. -/
def firstIn (p : Nat → Bool) (lo hi : Nat) : Option Nat := (List.range' lo (hi - lo)).find? p

section FirstIn

variable {p : Nat → Bool} {lo hi : Nat}

theorem firstIn_eq_some {f : Nat} : firstIn p lo hi = some f ↔
    p f = true ∧ (lo ≤ f ∧ f < hi) ∧ ∀ g, lo ≤ g → g < f → p g = false := by
  unfold firstIn
  rw [List.find?_range'_eq_some, List.mem_range'_1]
  simp only [Bool.not_eq_true']
  constructor
  · rintro ⟨hp, ⟨hlo, hhi⟩, hleast⟩
    exact ⟨hp, ⟨hlo, by omega⟩, hleast⟩
  · rintro ⟨hp, ⟨hlo, hhi⟩, hleast⟩
    exact ⟨hp, ⟨hlo, by omega⟩, hleast⟩

theorem firstIn_eq_none : firstIn p lo hi = none ↔ ∀ f, lo ≤ f → f < hi → p f = false := by
  unfold firstIn
  rw [List.find?_range'_eq_none]
  simp only [Bool.not_eq_true']
  constructor
  · intro h f hlo hhi
    exact h f hlo (by omega)
  · intro h f hlo hhi
    exact h f hlo (by omega)

theorem firstIn_empty (h : hi ≤ lo) : firstIn p lo hi = none := firstIn_eq_none.2 (fun f hlo hhi => by omega)

theorem firstIn_split {mid : Nat} (hlo : lo ≤ mid) (hhi : mid ≤ hi) :
    firstIn p lo hi = (firstIn p lo mid).or (firstIn p mid hi) := by
  unfold firstIn
  have hlen : hi - lo = (mid - lo) + (hi - mid) := by omega
  have hmid : lo + 1 * (mid - lo) = mid := by omega
  rw [hlen, ← List.range'_append, List.find?_append, hmid]

theorem firstIn_cons (h : lo < hi) : firstIn p lo hi = if p lo then some lo else firstIn p (lo + 1) hi := by
  unfold firstIn
  have hlen : hi - lo = (hi - (lo + 1)) + 1 := by omega
  rw [hlen, List.range'_succ, List.find?_cons]
  cases p lo <;> rfl

theorem firstIn_congr {q : Nat → Bool} (h : ∀ f, lo ≤ f → f < hi → p f = q f) : firstIn p lo hi = firstIn q lo hi := by
  cases hq : firstIn q lo hi with
  | none => exact firstIn_eq_none.2 (fun f hlo hhi => by rw [h f hlo hhi, firstIn_eq_none.1 hq f hlo hhi])
  | some f =>
    obtain ⟨hp, ⟨hlo, hhi⟩, hleast⟩ := firstIn_eq_some.1 hq
    refine firstIn_eq_some.2 ⟨by rw [h f hlo hhi, hp], ⟨hlo, hhi⟩, fun g hg hgf => ?_⟩
    rw [h g hg (by omega), hleast g hg hgf]

theorem firstIn_skip {mid : Nat} (hlo : lo ≤ mid) (h : ∀ f, lo ≤ f → f < mid → p f = false) :
    firstIn p lo hi = firstIn p mid hi := by
  by_cases hhi : mid ≤ hi
  · rw [firstIn_split hlo hhi, firstIn_eq_none.2 h, Option.none_or]
  · rw [firstIn_empty (by omega : hi ≤ mid)]
    exact firstIn_eq_none.2 (fun f hf hlt => h f hf (by omega))

theorem firstIn_shift (c : Nat) : firstIn p (c + lo) (c + hi) = (firstIn (fun k => p (c + k)) lo hi).map (c + ·) := by
  cases h : firstIn (fun k => p (c + k)) lo hi with
  | none =>
    refine firstIn_eq_none.2 (fun f hlo hhi => ?_)
    have hf := firstIn_eq_none.1 h (f - c) (by omega) (by omega)
    rwa [Nat.add_sub_cancel' (by omega)] at hf
  | some k =>
    obtain ⟨hp, ⟨hlo, hhi⟩, hleast⟩ := firstIn_eq_some.1 h
    show firstIn p (c + lo) (c + hi) = some (c + k)
    refine firstIn_eq_some.2 ⟨hp, ⟨by omega, by omega⟩, fun g hg hgk => ?_⟩
    have hf := hleast (g - c) (by omega) (by omega)
    rwa [Nat.add_sub_cancel' (by omega)] at hf

end FirstIn

/-! ## Words of a bitmap -/

/-- The `i`-th word, low byte first. -/
def wordAt (bytes : Bytes) (i : Nat) : BitVec 64 := BitVec.ofNat 64 (leNat (slice bytes (8 * i) 8))

def setWord (bytes : Bytes) (i : Nat) (word : BitVec 64) : Bytes := put bytes (8 * i) (leBytes 8 word.toNat)

@[simp] theorem length_setWord (bytes : Bytes) (i : Nat) (word : BitVec 64) :
    (setWord bytes i word).length = bytes.length := by
  rw [setWord, put, List.length_mapIdx]

theorem testBit_leNat : ∀ (bytes : Bytes) (j : Nat), (leNat bytes).testBit j = bitAt bytes j
  | [], j => by
    rw [leNat, Nat.zero_testBit, bitAt, List.getD_nil, bit_zero]
  | c :: rest, j => by
    have hc : c.toNat < 2 ^ 8 := c.toNat_lt
    have hsum : leNat (c :: rest) = 2 ^ 8 * leNat rest + c.toNat := by
      rw [leNat]
      omega
    rw [hsum, Nat.testBit_two_pow_mul_add _ hc]
    by_cases hj : j < 8
    · rw [if_pos hj, bitAt_head c rest hj]
      rfl
    · have heq : j = 8 + (j - 8) := by omega
      rw [if_neg hj, testBit_leNat rest]
      conv_rhs => rw [heq, bitAt_tail]

theorem wordAt_bit (bytes : Bytes) (i : Nat) {k : Nat} (hk : k < 64) :
    (wordAt bytes i).getLsbD k = bitAt bytes (64 * i + k) := by
  have hoff : 64 * i + k = 8 * (8 * i) + k := by omega
  rw [wordAt, BitVec.getLsbD_ofNat, decide_eq_true hk, Bool.true_and, testBit_leNat, bitAt_slice (by omega), hoff]

theorem bitAt_setWord {bytes : Bytes} {i : Nat} (hin : 8 * i + 8 ≤ bytes.length) (word : BitVec 64) (j : Nat) :
    bitAt (setWord bytes i word) j = if 64 * i ≤ j ∧ j < 64 * i + 64 then word.getLsbD (j - 64 * i) else bitAt bytes j := by
  have hlen : (leBytes 8 word.toNat).length = 8 := length_leBytes 8 _
  by_cases hj : 64 * i ≤ j ∧ j < 64 * i + 64
  · have hslice : slice (setWord bytes i word) (8 * i) 8 = leBytes 8 word.toNat := slice_put hlen hin
    have hoff : 8 * (8 * i) + (j - 64 * i) = j := by omega
    have hbit : bitAt (slice (setWord bytes i word) (8 * i) 8) (j - 64 * i) = _ := bitAt_slice (by omega)
    rw [hslice, hoff, ← testBit_leNat, leNat_leBytes_of_lt word.isLt] at hbit
    rw [if_pos hj, ← hbit]
    rfl
  · rw [if_neg hj, bitAt, setWord, getD_put_off (by rw [hlen]; omega)]
    rfl

/-- The bits below `start`. -/
def lowMask (start : Nat) : BitVec 64 := (1#64 <<< start) - 1#64

theorem lowMask_bit {start : Nat} (hs : start < 64) (k : Nat) : (lowMask start).getLsbD k = decide (k < start) := by
  have hpow : 2 ^ start < 2 ^ 64 := Nat.pow_lt_pow_right (by decide) hs
  have hpos : 0 < 2 ^ start := Nat.two_pow_pos start
  have hshift : (1#64 <<< start).toNat = 2 ^ start := by
    rw [BitVec.toNat_shiftLeft, BitVec.toNat_ofNat, Nat.shiftLeft_eq]
    rw [Nat.mod_eq_of_lt (by decide : 1 < 2 ^ 64), Nat.one_mul, Nat.mod_eq_of_lt hpow]
  have hnat : (lowMask start).toNat = 2 ^ start - 1 := by
    rw [lowMask, BitVec.toNat_sub_of_le (by rw [BitVec.le_def, hshift]; exact hpos), hshift]
    rfl
  show (lowMask start).toNat.testBit k = decide (k < start)
  rw [hnat, Nat.testBit_two_pow_sub_one]

/-- The lowest clear bit of a word from `start` on: the bits below are masked as set. -/
def firstClear (word : BitVec 64) (start : Nat) : Option Nat :=
  let masked := if start ≠ 0 then word ||| lowMask start else word
  if masked ≠ BitVec.allOnes 64 then some (BitVec.ctz (~~~masked)).toNat else none

theorem masked_bit (word : BitVec 64) {start : Nat} (hs : start < 64) (k : Nat) :
    (if start ≠ 0 then word ||| lowMask start else word).getLsbD k = (decide (k < start) || word.getLsbD k) := by
  by_cases h : start = 0
  · subst h
    rw [if_neg (by simp)]
    simp
  · rw [if_pos h, BitVec.getLsbD_or, lowMask_bit hs k, Bool.or_comm]

theorem firstClear_eq (word : BitVec 64) {start : Nat} (hs : start < 64) :
    firstClear word start = firstIn (fun k => !word.getLsbD k) start 64 := by
  have hbit := masked_bit word hs
  unfold firstClear
  generalize (if start ≠ 0 then word ||| lowMask start else word) = masked at hbit ⊢
  dsimp only
  split
  · rename_i hne
    have hzero : ~~~masked ≠ 0#64 := fun h => hne (by rw [← BitVec.not_not (b := masked), h]; rfl)
    have hlt : (BitVec.ctz (~~~masked)).toNat < 64 := by
      have := BitVec.ctz_lt_iff_ne_zero.2 hzero
      exact this
    have hclear := BitVec.getLsbD_true_ctz_of_ne_zero hzero
    rw [BitVec.getLsbD_not, decide_eq_true hlt, Bool.true_and, Bool.not_eq_true', hbit, Bool.or_eq_false_iff] at hclear
    refine (firstIn_eq_some.2 ⟨by rw [hclear.2]; rfl, ⟨Nat.not_lt.1 (of_decide_eq_false hclear.1), hlt⟩, fun g hg hlow => ?_⟩).symm
    have hset := BitVec.getLsbD_false_of_lt_ctz hlow
    rw [BitVec.getLsbD_not, decide_eq_true (by omega : g < 64), Bool.true_and, Bool.not_eq_false', hbit g,
      decide_eq_false (by omega), Bool.false_or] at hset
    rw [hset]
    rfl
  · rename_i heq
    have hones : masked = BitVec.allOnes 64 := Classical.not_not.1 heq
    refine (firstIn_eq_none.2 (fun k hk hlt => ?_)).symm
    have hset := hbit k
    rw [hones, BitVec.getLsbD_allOnes, decide_eq_true hlt, decide_eq_false (by omega), Bool.false_or] at hset
    rw [← hset]
    rfl

end BitScan
end R4
