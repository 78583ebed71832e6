import R4Recovery.Buffer
/-!
# Bitmap — bits kept in bytes

Bit `j` of a byte text is bit `j % 8` of its byte `j / 8`.  Runs of bits are set or cleared bit by bit, whole bytes at
once; a text is known by its bits (`ext_bitAt`), and `pack` is the text with given bits.
-/
namespace R4
namespace Bitmap

def bit (c : UInt8) (k : Nat) : Bool := c.toBitVec.getLsbD k

def bitAt (bytes : Bytes) (j : Nat) : Bool := bit (bytes.getD (j / 8) 0) (j % 8)

def mask (k : Nat) : UInt8 := 1 <<< UInt8.ofNat k

def withBit (c : UInt8) (k : Nat) (on : Bool) : UInt8 := if on then c ||| mask k else c &&& ~~~mask k

/-! ## One byte -/

theorem bit_mask : ∀ k j : Fin 8, bit (mask k) j = decide (j = k) := by decide

theorem bit_withBit (c : UInt8) {k j : Nat} (hk : k < 8) (hj : j < 8) (on : Bool) :
    bit (withBit c k on) j = if j = k then on else bit c j := by
  have hmask : bit (mask k) j = decide (j = k) := by
    have := bit_mask ⟨k, hk⟩ ⟨j, hj⟩
    simpa [Fin.ext_iff] using this
  unfold bit at hmask
  cases on
  · simp only [withBit, bit, Bool.false_eq_true, if_false, UInt8.toBitVec_and, UInt8.toBitVec_not, BitVec.getLsbD_and,
      BitVec.getLsbD_not, hmask, hj, decide_true, Bool.true_and]
    by_cases h : j = k <;> simp [h]
  · simp only [withBit, bit, if_true, UInt8.toBitVec_or, BitVec.getLsbD_or, hmask]
    by_cases h : j = k <;> simp [h]

@[simp] theorem bit_zero (k : Nat) : bit 0 k = false := by simp [bit]

theorem bit_full : ∀ k : Fin 8, bit 0xff k = true := by decide

theorem bit_fill {k : Nat} (h : k < 8) (on : Bool) : bit (if on then 0xff else 0) k = on := by
  cases on
  · exact bit_zero k
  · exact bit_full ⟨k, h⟩

theorem ext_bit {a b : UInt8} (h : ∀ k, k < 8 → bit a k = bit b k) : a = b := by
  refine UInt8.toBitVec_inj.1 (BitVec.eq_of_getLsbD_eq (fun k hk => h k hk))

theorem le_log2_of_bit {c : UInt8} {k : Nat} (h : bit c k = true) : k ≤ c.toNat.log2 := by
  have htest : c.toNat.testBit k = true := h
  have hne : c.toNat ≠ 0 := by
    intro h0
    rw [h0, Nat.zero_testBit] at htest
    cases htest
  exact (Nat.le_log2 hne).2 (Nat.ge_two_pow_of_testBit htest)

/-! ## Bits of a text -/

theorem ext_bitAt {a b : Bytes} (hlen : a.length = b.length) (h : ∀ j, j < 8 * a.length → bitAt a j = bitAt b j) : a = b := by
  refine List.ext_getElem hlen (fun i h1 h2 => ext_bit (fun k hk => ?_))
  have hj := h (8 * i + k) (by omega)
  have hdiv : (8 * i + k) / 8 = i := by omega
  have hmod : (8 * i + k) % 8 = k := by omega
  unfold bitAt at hj
  rw [hdiv, hmod, List.getD_eq_getElem?_getD, List.getD_eq_getElem?_getD, List.getElem?_eq_getElem h1,
    List.getElem?_eq_getElem h2] at hj
  exact hj

theorem bitAt_head (c : UInt8) (rest : Bytes) {k : Nat} (h : k < 8) : bitAt (c :: rest) k = bit c k := by
  have hdiv : k / 8 = 0 := by omega
  have hmod : k % 8 = k := by omega
  rw [bitAt, hdiv, hmod]
  rfl

theorem bitAt_tail (c : UInt8) (rest : Bytes) (j : Nat) : bitAt (c :: rest) (8 + j) = bitAt rest j := by
  have hdiv : (8 + j) / 8 = j / 8 + 1 := by omega
  have hmod : (8 + j) % 8 = j % 8 := by omega
  rw [bitAt, hdiv, hmod]
  rfl

theorem bitAt_append_left {a : Bytes} (b : Bytes) {j : Nat} (h : j < 8 * a.length) : bitAt (a ++ b) j = bitAt a j := by
  unfold bitAt
  rw [List.getD_append _ _ _ _ (by omega)]

theorem bitAt_slice {bytes : Bytes} {off len j : Nat} (h : j < 8 * len) :
    bitAt (slice bytes off len) j = bitAt bytes (8 * off + j) := by
  unfold bitAt
  have hdiv : (8 * off + j) / 8 = off + j / 8 := by omega
  have hmod : (8 * off + j) % 8 = j % 8 := by omega
  rw [getD_slice (by omega), hdiv, hmod]

/-- The text of `n` bytes with the given bits. -/
def packByte (f : Nat → Bool) : UInt8 := (List.range 8).foldl (fun c k => withBit c k (f k)) 0

def pack (f : Nat → Bool) (n : Nat) : Bytes := (List.range n).map (fun i => packByte (fun k => f (8 * i + k)))

theorem bit_packByte (f : Nat → Bool) {k : Nat} (hk : k < 8) : bit (packByte f) k = f k := by
  have hfold : ∀ n, n ≤ 8 → bit ((List.range n).foldl (fun c i => withBit c i (f i)) 0) k = (decide (k < n) && f k) := by
    intro n
    induction n with
    | zero => intro _; simp
    | succ n ih =>
      intro hn
      rw [List.range_succ, List.foldl_append, List.foldl_cons, List.foldl_nil, bit_withBit _ (by omega) hk, ih (by omega)]
      by_cases hkn : k = n
      · subst hkn
        simp
      · rw [if_neg hkn]
        have hiff : (k < n + 1) ↔ (k < n) := by omega
        simp only [hiff]
  rw [packByte, hfold 8 (Nat.le_refl 8)]
  simp [hk]

@[simp] theorem length_pack (f : Nat → Bool) (n : Nat) : (pack f n).length = n := by
  rw [pack, List.length_map, List.length_range]

theorem bitAt_pack (f : Nat → Bool) {n j : Nat} (h : j < 8 * n) : bitAt (pack f n) j = f j := by
  have hlt : j / 8 < n := by omega
  rw [bitAt, pack, List.getD_eq_getElem?_getD, List.getElem?_map, List.getElem?_range hlt]
  rw [Option.map_some, Option.getD_some, bit_packByte _ (Nat.mod_lt j (by decide)), Nat.div_add_mod]

theorem eq_slice_pack (f : Nat → Bool) {bytes : Bytes} {off n : Nat} (hin : off + bytes.length ≤ n)
    (h : ∀ j, j < 8 * bytes.length → bitAt bytes j = f (8 * off + j)) : bytes = slice (pack f n) off bytes.length := by
  have hlen : (slice (pack f n) off bytes.length).length = bytes.length := length_slice (by rw [length_pack]; exact hin)
  refine ext_bitAt hlen.symm (fun j hj => ?_)
  rw [h j hj, bitAt_slice hj, bitAt_pack f (by omega)]

/-! ## Runs of bits -/

/-- Sets or clears `n` bits from bit `first`, bit by bit; bit `base` is the first of the text. -/
def setBits (base : Nat) (on : Bool) : Nat → Nat → Bytes → Bytes
  | _, 0, bytes => bytes
  | first, n + 1, bytes =>
    setBits base on (first + 1) n
      (bytes.set ((first - base) / 8) (withBit (bytes.getD ((first - base) / 8) 0) (first % 8) on))

@[simp] theorem length_setBits (base : Nat) (on : Bool) : ∀ (n first : Nat) (bytes : Bytes),
    (setBits base on first n bytes).length = bytes.length
  | 0, _, _ => rfl
  | n + 1, first, bytes => by rw [setBits, length_setBits base on n, List.length_set]

theorem bitAt_set {bytes : Bytes} {i j : Nat} (hi : i < 8 * bytes.length) (on : Bool) :
    bitAt (bytes.set (i / 8) (withBit (bytes.getD (i / 8) 0) (i % 8) on)) j = if j = i then on else bitAt bytes j := by
  unfold bitAt
  rw [List.getD_eq_getElem?_getD, List.getElem?_set]
  by_cases hbyte : i / 8 = j / 8
  · rw [if_pos hbyte, if_pos (by omega), Option.getD_some, bit_withBit _ (Nat.mod_lt _ (by decide)) (Nat.mod_lt _ (by decide)),
      hbyte]
    have hiff : j % 8 = i % 8 ↔ j = i := by omega
    simp only [hiff]
  · rw [if_neg hbyte, if_neg (by omega), List.getD_eq_getElem?_getD]

/-- **A run of bits is set, the others stay.** -/
theorem bitAt_setBits {base : Nat} (hbase : base % 8 = 0) (on : Bool) : ∀ (n first : Nat) (bytes : Bytes), base ≤ first →
    first + n ≤ base + 8 * bytes.length → ∀ j, bitAt (setBits base on first n bytes) j =
      if first ≤ base + j ∧ base + j < first + n then on else bitAt bytes j
  | 0, first, bytes, _, _, j => by
    rw [setBits, if_neg (by omega)]
  | n + 1, first, bytes, hfirst, hin, j => by
    have hmod : first % 8 = (first - base) % 8 := by omega
    rw [setBits, bitAt_setBits hbase on n (first + 1) _ (by omega) (by rw [List.length_set]; omega), hmod,
      bitAt_set (by omega)]
    by_cases hj : j = first - base
    · rw [if_neg (by omega), if_pos hj, if_pos (by omega)]
    · rw [if_neg hj]
      have hiff : (first + 1 ≤ base + j ∧ base + j < first + 1 + n) ↔ (first ≤ base + j ∧ base + j < first + (n + 1)) := by
        omega
      simp only [hiff]

theorem bitAt_put {bytes : Bytes} {i n : Nat} (hin : i + n ≤ bytes.length) (on : Bool) (j : Nat) :
    bitAt (put bytes i (List.replicate n (if on then 0xff else 0))) j =
      if 8 * i ≤ j ∧ j < 8 * (i + n) then on else bitAt bytes j := by
  unfold bitAt
  by_cases hj : 8 * i ≤ j ∧ j < 8 * (i + n)
  · rw [if_pos hj, getD_put (by rw [List.length_replicate]; omega) (by omega), List.getD_eq_getElem?_getD,
      List.getElem?_replicate, if_pos (by omega), Option.getD_some, bit_fill (Nat.mod_lt _ (by decide))]
  · rw [if_neg hj, getD_put_off (by rw [List.length_replicate]; omega)]

/-- Whether `n` bits from bit `first` are set. -/
def allBits (base : Nat) (bytes : Bytes) (first n : Nat) : Bool :=
  (List.range n).all (fun i => bit (bytes.getD ((first + i - base) / 8) 0) ((first + i) % 8))

theorem bitAt_of_allBits {base : Nat} (hbase : base % 8 = 0) {bytes : Bytes} {first n j : Nat}
    (h : allBits base bytes first n = true) (hj : first ≤ base + j ∧ base + j < first + n) : bitAt bytes j = true := by
  have hall := List.all_eq_true.1 h (base + j - first) (List.mem_range.2 (by omega))
  have hsum : first + (base + j - first) = base + j := by omega
  have hmod : (base + j) % 8 = j % 8 := by omega
  rw [hsum, Nat.add_sub_cancel_left, hmod] at hall
  exact hall

end Bitmap
end R4
