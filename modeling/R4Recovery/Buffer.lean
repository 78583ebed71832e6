import R4Recovery.Text
/-!
# Buffer — byte buffers and little-endian words

Fixed buffers as byte lists: `slice` reads a range, `put` copies bytes over a range and keeps the length, `leBytes` and
`leNat` are the little-endian words of a given width.  Reading a range that a `put` wrote gives what was put; a range
it missed is unchanged.
-/
namespace R4

/-- The `len` bytes from `off`. -/
def slice (b : Bytes) (off len : Nat) : Bytes := (b.drop off).take len

/-- Copies `v` into `b` at `off`; bytes that would stand behind the end are dropped. -/
def put (b : Bytes) (off : Nat) (v : Bytes) : Bytes := b.mapIdx (fun i c => if off ≤ i then (v[i - off]?).getD c else c)

def zeros (n : Nat) : Bytes := List.replicate n 0

def allZero (b : Bytes) : Bool := b.all (· == 0)

/-- The `w` little-endian bytes of `n`. -/
def leBytes : Nat → Nat → Bytes
  | 0, _ => []
  | w + 1, n => n.toUInt8 :: leBytes w (n / 256)

def leNat : Bytes → Nat
  | [] => 0
  | c :: rest => c.toNat + 256 * leNat rest

/-! ## Ranges -/

theorem getElem?_slice (b : Bytes) (off len i : Nat) : (slice b off len)[i]? = if i < len then b[off + i]? else none := by
  rw [slice, List.getElem?_take, List.getElem?_drop]

theorem length_slice {b : Bytes} {off len : Nat} (h : off + len ≤ b.length) : (slice b off len).length = len := by
  rw [slice, List.length_take, List.length_drop]
  omega

theorem length_slice_le (b : Bytes) (off len : Nat) : (slice b off len).length ≤ len := by
  rw [slice, List.length_take]
  omega

theorem slice_all {b : Bytes} {n : Nat} (h : b.length = n) : slice b 0 n = b := by
  rw [slice, List.drop_zero, ← h, List.take_length]

theorem slice_append (b : Bytes) (off m n : Nat) : slice b off (m + n) = slice b off m ++ slice b (off + m) n := by
  rw [slice, slice, slice, List.take_add, List.drop_drop]

theorem slice_middle {a b c : Bytes} {off len : Nat} (ha : a.length = off) (hb : b.length = len) :
    slice (a ++ b ++ c) off len = b := by
  subst ha hb
  simp [slice]

theorem slice_slice (b : Bytes) {off len i n : Nat} (h : i + n ≤ len) : slice (slice b off len) i n = slice b (off + i) n := by
  refine List.ext_getElem? (fun k => ?_)
  rw [getElem?_slice, getElem?_slice, getElem?_slice]
  by_cases hk : k < n
  · rw [if_pos hk, if_pos hk, if_pos (by omega), Nat.add_assoc]
  · rw [if_neg hk, if_neg hk]

theorem slice_zeros {n off len : Nat} (h : off + len ≤ n) : slice (zeros n) off len = zeros len := by
  rw [slice, zeros, List.drop_replicate, List.take_replicate]
  congr 1
  omega

theorem zeros_append (m n : Nat) : zeros m ++ zeros n = zeros (m + n) := List.replicate_append_replicate

@[simp] theorem length_zeros (n : Nat) : (zeros n).length = n := List.length_replicate

@[simp] theorem length_put (b : Bytes) (off : Nat) (v : Bytes) : (put b off v).length = b.length := List.length_mapIdx

theorem getElem?_put (b : Bytes) (off : Nat) (v : Bytes) (i : Nat) :
    (put b off v)[i]? = b[i]?.map (fun c => if off ≤ i then (v[i - off]?).getD c else c) := List.getElem?_mapIdx

/-- **What was put is read back.** -/
theorem slice_put {b : Bytes} {off n : Nat} {v : Bytes} (hn : v.length = n) (h : off + n ≤ b.length) :
    slice (put b off v) off n = v := by
  subst hn
  refine List.ext_getElem? (fun i => ?_)
  rw [getElem?_slice, getElem?_put]
  by_cases hi : i < v.length
  · rw [if_pos hi, List.getElem?_eq_getElem (show off + i < b.length by omega), Option.map_some, if_pos (by omega),
      Nat.add_sub_cancel_left, List.getElem?_eq_getElem hi]
    rfl
  · rw [if_neg hi, List.getElem?_eq_none (by omega)]

/-- **A range that a put missed is unchanged.** -/
theorem slice_put_off {b : Bytes} {off off' len : Nat} {v : Bytes} (h : off + len ≤ off' ∨ off' + v.length ≤ off) :
    slice (put b off' v) off len = slice b off len := by
  refine List.ext_getElem? (fun i => ?_)
  rw [getElem?_slice, getElem?_slice, getElem?_put]
  by_cases hi : i < len
  · rw [if_pos hi, if_pos hi]
    by_cases ho : off' ≤ off + i
    · have hv : v[off + i - off']? = none := List.getElem?_eq_none (by omega)
      simp [hv]
    · simp [ho]
  · rw [if_neg hi, if_neg hi]

theorem getElem?_put_off {b : Bytes} {off i : Nat} {v : Bytes} (h : i < off ∨ off + v.length ≤ i) :
    (put b off v)[i]? = b[i]? := by
  rw [getElem?_put]
  by_cases ho : off ≤ i
  · have hv : v[i - off]? = none := List.getElem?_eq_none (by omega)
    simp [hv]
  · simp [ho]

theorem getD_put {b v : Bytes} {off i : Nat} (h : off ≤ i ∧ i < off + v.length) (hi : i < b.length) :
    (put b off v).getD i 0 = v.getD (i - off) 0 := by
  rw [List.getD_eq_getElem?_getD, List.getD_eq_getElem?_getD, getElem?_put, List.getElem?_eq_getElem hi, Option.map_some,
    if_pos h.1, List.getElem?_eq_getElem (show i - off < v.length by omega)]
  rfl

theorem getD_put_off {b v : Bytes} {off i : Nat} (h : i < off ∨ off + v.length ≤ i) : (put b off v).getD i 0 = b.getD i 0 := by
  rw [List.getD_eq_getElem?_getD, List.getD_eq_getElem?_getD, getElem?_put_off h]

theorem getD_slice {b : Bytes} {off len i : Nat} (h : i < len) : (slice b off len).getD i 0 = b.getD (off + i) 0 := by
  rw [List.getD_eq_getElem?_getD, List.getD_eq_getElem?_getD, getElem?_slice, if_pos h]

theorem getD_zeros (n i : Nat) : (zeros n).getD i 0 = 0 := by
  rw [List.getD_eq_getElem?_getD, zeros, List.getElem?_replicate]
  split <;> rfl

theorem eq_zeros {b : Bytes} {n : Nat} (hn : b.length = n) (h : ∀ i, i < n → b.getD i 0 = 0) : b = zeros n := by
  refine List.ext_getElem (by simp [hn]) (fun i h1 h2 => ?_)
  have hi := h i (by omega)
  rw [List.getD_eq_getElem?_getD, List.getElem?_eq_getElem h1] at hi
  simpa [zeros] using hi

theorem allZero_zeros (n : Nat) : allZero (zeros n) = true := by
  simp [allZero, zeros]

theorem allZero_iff (b : Bytes) : allZero b = true ↔ b = zeros b.length := by
  rw [allZero, zeros, List.all_eq_true]
  constructor
  · intro h
    exact List.eq_replicate_of_mem (fun c hc => by simpa using h c hc)
  · intro h c hc
    rw [h] at hc
    simp [List.eq_of_mem_replicate hc]

/-! ## Words -/

@[simp] theorem length_leBytes : ∀ w n : Nat, (leBytes w n).length = w
  | 0, _ => rfl
  | w + 1, n => by rw [leBytes, List.length_cons, length_leBytes w]

/-- **A word reads back** modulo its width. -/
theorem leNat_leBytes : ∀ w n : Nat, leNat (leBytes w n) = n % 256 ^ w
  | 0, n => by rw [leBytes, leNat, pow_zero, Nat.mod_one]
  | w + 1, n => by
    have hb : n.toUInt8.toNat = n % 256 := by simp
    rw [leBytes, leNat, leNat_leBytes w, hb, pow_succ, Nat.mul_comm (256 ^ w), Nat.mod_mul]

theorem leNat_leBytes_of_lt {w n : Nat} (h : n < 256 ^ w) : leNat (leBytes w n) = n := by
  rw [leNat_leBytes, Nat.mod_eq_of_lt h]

theorem leNat_lt : ∀ b : Bytes, leNat b < 256 ^ b.length
  | [] => by simp [leNat]
  | c :: rest => by
    have h1 := leNat_lt rest
    have h2 : c.toNat < 256 := c.toNat_lt
    rw [leNat, List.length_cons, pow_succ]
    omega

theorem leBytes_leNat : ∀ b : Bytes, leBytes b.length (leNat b) = b
  | [] => rfl
  | c :: rest => by
    have h2 : c.toNat < 256 := c.toNat_lt
    have hc : (c.toNat + 256 * leNat rest).toUInt8 = c := by
      apply UInt8.toNat_inj.1
      simp only [Nat.toUInt8_eq, UInt8.toNat_ofNat']
      omega
    have hd : (c.toNat + 256 * leNat rest) / 256 = leNat rest := by omega
    rw [leNat, List.length_cons, leBytes, hc, hd, leBytes_leNat rest]

theorem leBytes_zero : ∀ w : Nat, leBytes w 0 = zeros w
  | 0 => rfl
  | w + 1 => by
    rw [leBytes, Nat.zero_div, leBytes_zero w]
    rfl

theorem leNat_zeros : ∀ n : Nat, leNat (zeros n) = 0
  | 0 => rfl
  | n + 1 => by
    have : zeros (n + 1) = 0 :: zeros n := rfl
    rw [this, leNat, leNat_zeros n]
    rfl

end R4
