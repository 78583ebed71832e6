import R4Recovery.Text
/-!
# Lines — lines, `key=value` fields and decimal numbers in byte texts

A text of newline-ended lines reads back as its lines, a record of separated fields as its fields, a decimal number as
its value.  A key is recognised as a prefix; keys that end in their only `=` never shadow one another.
-/
namespace R4

def startsWith (value pre : Bytes) : Bool := pre.isPrefixOf value

def isBlank (c : UInt8) : Bool := c == 32 || c == 9 || c == 13 || c == 10

/-- `std.mem.trim(u8, value, " \t\r\n")`. -/
def trim (value : Bytes) : Bytes := ((value.dropWhile isBlank).reverse.dropWhile isBlank).reverse

/-- The lines `nextLine` yields: a last line without a newline counts when it is not empty. -/
def lines (value : Bytes) : List Bytes :=
  if (value.splitOn 10).getLast? = some [] then (value.splitOn 10).dropLast else value.splitOn 10

/-- `std.mem.lastIndexOf`. -/
def lastIndexOf (data needle : Bytes) : Option Nat :=
  (List.range (data.length + 1)).reverse.find? (fun i => startsWith (data.drop i) needle)

def decimalFrom : Nat → Nat → Bytes → Bytes
  | 0, _, acc => acc
  | fuel + 1, n, acc => if n = 0 then acc else decimalFrom fuel (n / 10) (UInt8.ofNat (48 + n % 10) :: acc)

/-- `appendU64`: at most twenty digits. -/
def decimal (n : Nat) : Bytes := if n = 0 then [48] else decimalFrom 20 n []

def parseDigits : Bytes → Nat → Option Nat
  | [], out => some out
  | ch :: rest, out =>
    if 48 ≤ ch ∧ ch ≤ 57 then
      if out * 10 + (ch.toNat - 48) < 2 ^ 64 then parseDigits rest (out * 10 + (ch.toNat - 48)) else none
    else none

def parseNat (value : Bytes) : Option Nat := if (trim value).isEmpty then none else parseDigits (trim value) 0

/-! ## Keys -/

/-- A key ends in its only `=`. -/
def isKey (key : Bytes) : Bool := key.getLast? == some 61 && !key.dropLast.contains 61

/-- The texts of `key=value` fields. -/
def fieldTexts (fields : List (Bytes × Bytes)) : List Bytes := fields.map (fun f => f.1 ++ f.2)

theorem isKey_iff (key : Bytes) : isKey key = true ↔ ∃ name, key = name ++ [61] ∧ 61 ∉ name := by
  rcases List.eq_nil_or_concat key with rfl | ⟨name, c, rfl⟩
  · simp [isKey]
  · simp only [isKey, List.concat_eq_append, List.getLast?_append, List.getLast?_singleton, List.dropLast_concat,
      Bool.and_eq_true, Bool.not_eq_true', List.contains_eq_mem, decide_eq_false_iff_not, Option.some_or, beq_iff_eq,
      Option.some.injEq]
    constructor
    · rintro ⟨rfl, h⟩
      exact ⟨name, rfl, h⟩
    · rintro ⟨name', he, h⟩
      obtain ⟨rfl, hc⟩ := List.append_inj' he rfl
      exact ⟨by simpa using hc, h⟩

theorem startsWith_append (key value : Bytes) : startsWith (key ++ value) key = true := by
  simp [startsWith]

/-- **A field is recognised by its own key only.** -/
theorem startsWith_key {key key' : Bytes} (hk : isKey key = true) (hk' : isKey key' = true) (value : Bytes) :
    startsWith (key' ++ value) key = true ↔ key = key' := by
  constructor
  · intro h
    obtain ⟨name, rfl, hn⟩ := (isKey_iff _).1 hk
    obtain ⟨name', rfl, hn'⟩ := (isKey_iff _).1 hk'
    rw [startsWith, List.isPrefixOf_iff_prefix] at h
    obtain ⟨tail, ht⟩ := h
    have e1 := congrArg (List.splitOn 61) ht
    rw [List.append_assoc, List.append_assoc, List.singleton_append, List.singleton_append,
      List.splitOn_append_cons_self_of_not_mem hn, List.splitOn_append_cons_self_of_not_mem hn', List.cons.injEq] at e1
    rw [e1.1]
  · rintro rfl
    exact startsWith_append key value

/-- **The lines or segments behind a key are the fields with that key.** -/
theorem filter_fieldTexts {key : Bytes} (hk : isKey key = true) (fields : List (Bytes × Bytes))
    (hf : ∀ f ∈ fields, isKey f.1 = true) :
    (fieldTexts fields).filter (fun s => startsWith s key) = fieldTexts (fields.filter (fun f => f.1 == key)) := by
  unfold fieldTexts
  rw [List.filter_map]
  congr 1
  refine List.filter_congr (fun f hm => ?_)
  rw [Bool.eq_iff_iff, Function.comp_apply, startsWith_key hk (hf f hm), beq_iff_eq, eq_comm]

theorem filter_key_of_mem {fields : List (Bytes × Bytes)} (hd : (fields.map (·.1)).Nodup) {key value : Bytes}
    (hm : (key, value) ∈ fields) : fields.filter (fun f => f.1 == key) = [(key, value)] := by
  induction fields with
  | nil => cases hm
  | cons f rest ih =>
    rw [List.map_cons, List.nodup_cons] at hd
    rcases List.mem_cons.1 hm with rfl | hm
    · have hnone : rest.filter (fun f => f.1 == key) = [] := by
        rw [List.filter_eq_nil_iff]
        intro f hf he
        exact hd.1 (List.mem_map.2 ⟨f, hf, by simpa using he⟩)
      simp [hnone]
    · have hne : (f.1 == key) = false := by
        rw [beq_eq_false_iff_ne]
        rintro rfl
        exact hd.1 (List.mem_map.2 ⟨_, hm, rfl⟩)
      rw [List.filter_cons_of_neg (by simp [hne]), ih hd.2 hm]

/-- **A field with a key of its own is found, with its value.** -/
theorem filter_field {key value : Bytes} (hk : isKey key = true) {fields : List (Bytes × Bytes)}
    (hf : ∀ f ∈ fields, isKey f.1 = true) (hd : (fields.map (·.1)).Nodup) (hm : (key, value) ∈ fields) :
    (fieldTexts fields).filter (fun s => startsWith s key) = [key ++ value] := by
  rw [filter_fieldTexts hk fields hf, filter_key_of_mem hd hm]
  rfl

/-! ## Lines -/

theorem splitOn_newlines (ls : List Bytes) (h : ∀ l ∈ ls, (10 : UInt8) ∉ l) :
    (ls.flatMap (· ++ [10])).splitOn 10 = ls ++ [[]] := by
  induction ls with
  | nil => simp
  | cons l ls ih =>
    rw [List.flatMap_cons, List.append_assoc, List.singleton_append,
      List.splitOn_append_cons_self_of_not_mem (h l (by simp)), ih (fun l hl => h l (by simp [hl]))]
    rfl

/-- **Newline-ended lines read back.** -/
theorem lines_flatMap (ls : List Bytes) (h : ∀ l ∈ ls, (10 : UInt8) ∉ l) : lines (ls.flatMap (· ++ [10])) = ls := by
  unfold lines
  rw [splitOn_newlines ls h]
  simp

/-- A text that neither starts nor ends in a blank is its own trim. -/
def trimmed (value : Bytes) : Bool :=
  (value.head?.all (fun c => !isBlank c)) && (value.getLast?.all (fun c => !isBlank c))

theorem dropWhile_isBlank {value : Bytes} (h : value.head?.all (fun c => !isBlank c) = true) :
    value.dropWhile isBlank = value := by
  cases value with
  | nil => rfl
  | cons c rest =>
    have hc : isBlank c = false := by simpa using h
    simp [hc]

theorem trim_of_trimmed {value : Bytes} (h : trimmed value = true) : trim value = value := by
  unfold trimmed at h
  rw [Bool.and_eq_true] at h
  unfold trim
  rw [dropWhile_isBlank h.1, dropWhile_isBlank (by rw [List.head?_reverse]; exact h.2), List.reverse_reverse]

/-! ## Decimal numbers -/

def isDigit (c : UInt8) : Bool := decide (48 ≤ c) && decide (c ≤ 57)

theorem digit_toNat {d : Nat} (h : d < 10) : (UInt8.ofNat (48 + d)).toNat = 48 + d := by
  simp; omega

theorem digit_isDigit {d : Nat} (h : d < 10) : isDigit (UInt8.ofNat (48 + d)) = true := by
  interval_cases d <;> rfl

theorem decimalFrom_digits (fuel n : Nat) (acc : Bytes) (h : ∀ c ∈ acc, isDigit c = true) :
    ∀ c ∈ decimalFrom fuel n acc, isDigit c = true := by
  induction fuel generalizing n acc with
  | zero => exact h
  | succ fuel ih =>
    unfold decimalFrom
    split
    · exact h
    · refine ih (n / 10) _ (fun c hc => ?_)
      rcases List.mem_cons.1 hc with rfl | hc
      · exact digit_isDigit (Nat.mod_lt n (by omega))
      · exact h c hc

theorem decimal_digits (n : Nat) : ∀ c ∈ decimal n, isDigit c = true := by
  unfold decimal
  split
  · intro c hc
    rw [List.mem_singleton.1 hc]
    rfl
  · exact decimalFrom_digits 20 n [] (by simp)

theorem parseDigits_digit {d : Nat} (h : d < 10) (rest : Bytes) (out : Nat) :
    parseDigits (UInt8.ofNat (48 + d) :: rest) out =
      if out * 10 + d < 2 ^ 64 then parseDigits rest (out * 10 + d) else none := by
  have hd := digit_isDigit h
  simp only [isDigit, Bool.and_eq_true, decide_eq_true_eq] at hd
  rw [parseDigits, if_pos hd, digit_toNat h, Nat.add_sub_cancel_left]

theorem parseDigits_decimalFrom (fuel n : Nat) (acc : Bytes) (hn : n < 10 ^ fuel) (h64 : n < 2 ^ 64) :
    parseDigits (decimalFrom fuel n acc) 0 = parseDigits acc n := by
  induction fuel generalizing n acc with
  | zero =>
    obtain rfl : n = 0 := by simpa using hn
    rfl
  | succ fuel ih =>
    unfold decimalFrom
    split
    · rename_i hz; rw [hz]
    · have hmod : n % 10 < 10 := Nat.mod_lt n (by omega)
      have hdiv : n / 10 * 10 + n % 10 = n := by omega
      rw [ih (n / 10) _ (by rw [pow_succ] at hn; omega) (by omega), parseDigits_digit hmod, hdiv, if_pos h64]

theorem parseDigits_decimal {n : Nat} (h : n < 2 ^ 64) : parseDigits (decimal n) 0 = some n := by
  unfold decimal
  split
  · rename_i hz; rw [hz]; rfl
  · rw [parseDigits_decimalFrom 20 n [] (by omega) h]; rfl

theorem decimalFrom_ne_nil (fuel n : Nat) (acc : Bytes) (h : acc ≠ []) : decimalFrom fuel n acc ≠ [] := by
  induction fuel generalizing n acc with
  | zero => exact h
  | succ fuel ih =>
    unfold decimalFrom
    split
    · exact h
    · exact ih _ _ (by simp)

theorem decimal_ne_nil (n : Nat) : decimal n ≠ [] := by
  unfold decimal
  split
  · simp
  · rename_i hz
    rw [decimalFrom, if_neg hz]
    exact decimalFrom_ne_nil _ _ _ (by simp)

theorem isBlank_of_isDigit {c : UInt8} (h : isDigit c = true) : isBlank c = false := by
  have key : ∀ c : UInt8, isDigit c = true → isBlank c = false := byte_forall (by decide +kernel)
  exact key c h

theorem trimmed_of_digits {value : Bytes} (h : ∀ c ∈ value, isDigit c = true) : trimmed value = true := by
  unfold trimmed
  rw [Bool.and_eq_true, Option.all_eq_true, Option.all_eq_true]
  constructor
  · intro c hc
    simp [isBlank_of_isDigit (h c (List.mem_of_mem_head? hc))]
  · intro c hc
    simp [isBlank_of_isDigit (h c (List.mem_of_getLast? hc))]

/-- **A decimal text reads back as its number.** -/
theorem parseNat_decimal {n : Nat} (h : n < 2 ^ 64) : parseNat (decimal n) = some n := by
  unfold parseNat
  rw [trim_of_trimmed (trimmed_of_digits (decimal_digits n)), if_neg (by simp [decimal_ne_nil]), parseDigits_decimal h]

theorem length_decimalFrom (fuel n k : Nat) (acc : Bytes) (h : n < 10 ^ k) :
    (decimalFrom fuel n acc).length ≤ acc.length + k := by
  induction fuel generalizing n acc k with
  | zero => exact Nat.le_add_right _ _
  | succ fuel ih =>
    unfold decimalFrom
    split
    · exact Nat.le_add_right _ _
    · rename_i hz
      cases k with
      | zero => exact absurd (by simpa using h) hz
      | succ k =>
        have := ih (n / 10) k (UInt8.ofNat (48 + n % 10) :: acc) (by rw [pow_succ] at h; omega)
        simp only [List.length_cons] at this
        omega

theorem length_decimal {n k : Nat} (hk : 0 < k) (h : n < 10 ^ k) : (decimal n).length ≤ k := by
  unfold decimal
  split
  · exact hk
  · simpa using length_decimalFrom 20 n k [] h

/-! ## The last occurrence of a marker -/

theorem find?_reverse_range {p : Nat → Bool} {n i : Nat} (hi : i < n) (hp : p i = true)
    (h : ∀ k, i < k → k < n → p k = false) : (List.range n).reverse.find? p = some i := by
  induction n with
  | zero => omega
  | succ n ih =>
    rw [List.range_succ, List.reverse_append, List.reverse_singleton, List.singleton_append, List.find?_cons]
    by_cases hn : i = n
    · rw [← hn, hp]
    · rw [h n (by omega) (by omega)]
      exact ih (by omega) (fun k h1 h2 => h k h1 (by omega))

/-- **The marker of the last line is the last one**, when its final byte does not occur behind it. -/
theorem lastIndexOf_append (body name : Bytes) (last : UInt8) (tail : Bytes) (h : last ∉ tail) :
    lastIndexOf (body ++ (name ++ [last] ++ tail)) (name ++ [last]) = some body.length := by
  refine find?_reverse_range (by simp) (by simp [startsWith]) (fun k hk hn => ?_)
  rw [Bool.eq_false_iff]
  intro hs
  rw [startsWith, List.isPrefixOf_iff_prefix] at hs
  obtain ⟨rest, hr⟩ := hs
  -- the final byte of this occurrence would stand in `tail`
  have h1 := congrArg (fun l : Bytes => l[name.length]?) hr
  simp only [List.getElem?_drop, List.append_assoc, List.singleton_append] at h1
  rw [List.getElem?_append_right (by omega), List.getElem?_append_right (by omega),
    List.getElem?_append_right (by omega), Nat.sub_self, List.getElem?_cons_zero,
    show k + name.length - body.length - name.length = k - body.length - 1 + 1 by omega, List.getElem?_cons_succ] at h1
  exact h (List.mem_of_getElem? h1.symm)

theorem mem_intercalate {sep : UInt8} {L : List Bytes} {c : UInt8} (h : c ∈ [sep].intercalate L) :
    c = sep ∨ ∃ l ∈ L, c ∈ l := by
  induction L with
  | nil => cases h
  | cons l L ih =>
    cases L with
    | nil => exact .inr ⟨l, by simp, by simpa using h⟩
    | cons l' L =>
      rw [List.intercalate_cons_cons, List.mem_append, List.mem_append, List.mem_singleton] at h
      rcases h with (h | h) | h
      · exact .inr ⟨l, by simp, h⟩
      · exact .inl h
      · rcases ih h with h | ⟨l'', hl, hc⟩
        · exact .inl h
        · exact .inr ⟨l'', by simp [hl], hc⟩

end R4
