import R4Recovery.Lines
/-!
# Json — JSON texts as `std.json` writes and reads them

`write` is `std.json.Stringify` with two blanks of indentation; `parse` is `std.json.parseFromSlice` into a `Value` that
keeps numbers as text and refuses duplicate fields.  What is written reads back (`parse_write`).
-/
namespace R4
namespace Json

inductive Value where
  | null
  | bool (b : Bool)
  | numberString (text : Bytes)
  | string (text : Bytes)
  | array (items : List Value)
  | object (fields : List (Bytes × Value))

/-! ## Writing -/

def hexDigit (n : Nat) : UInt8 := if n < 10 then UInt8.ofNat (48 + n) else UInt8.ofNat (87 + n)

def escapeByte (c : UInt8) : Bytes :=
  if c = 34 ∨ c = 92 then [92, c]
  else if c = 8 then ascii "\\b"
  else if c = 12 then ascii "\\f"
  else if c = 10 then ascii "\\n"
  else if c = 13 then ascii "\\r"
  else if c = 9 then ascii "\\t"
  else if c < 32 then ascii "\\u00" ++ [hexDigit (c.toNat / 16), hexDigit (c.toNat % 16)]
  else [c]

def quoted (text : Bytes) : Bytes := 34 :: (text.flatMap escapeByte ++ [34])

def newline (depth : Nat) : Bytes := 10 :: List.replicate (2 * depth) 32

mutual

def write (depth : Nat) : Value → Bytes
  | .null => ascii "null"
  | .bool b => if b then ascii "true" else ascii "false"
  | .numberString text => text
  | .string text => quoted text
  | .array [] => ascii "[]"
  | .array (v :: vs) =>
    91 :: (newline (depth + 1) ++ (write (depth + 1) v ++ (writeItems (depth + 1) vs ++ (newline depth ++ [93]))))
  | .object [] => ascii "\x7b\x7d"
  | .object ((k, v) :: fs) =>
    123 :: (newline (depth + 1) ++ (quoted k ++ (58 :: 32 :: (write (depth + 1) v ++
      (writeFields (depth + 1) fs ++ (newline depth ++ [125]))))))

def writeItems (depth : Nat) : List Value → Bytes
  | [] => []
  | v :: vs => 44 :: (newline depth ++ (write depth v ++ writeItems depth vs))

def writeFields (depth : Nat) : List (Bytes × Value) → Bytes
  | [] => []
  | (k, v) :: fs => 44 :: (newline depth ++ (quoted k ++ (58 :: 32 :: (write depth v ++ writeFields depth fs))))

end

/-! ## Reading -/

def skipSpace (s : Bytes) : Bytes := s.dropWhile isBlank

/-- The text of a string behind its opening quote, still escaped, and what stands behind its closing quote. -/
def rawString : Bytes → Option (Bytes × Bytes)
  | [] => none
  | [c] => if c = 34 then some ([], []) else none
  | c :: d :: rest =>
    if c = 34 then some ([], d :: rest)
    else if c < 32 then none
    else if c = 92 then (rawString rest).map (fun p => (c :: d :: p.1, p.2))
    else (rawString (d :: rest)).map (fun p => (c :: p.1, p.2))

def hexValue (c : UInt8) : Option Nat :=
  if 48 ≤ c ∧ c ≤ 57 then some (c.toNat - 48)
  else if 65 ≤ c ∧ c ≤ 70 then some (c.toNat - 55)
  else if 97 ≤ c ∧ c ≤ 102 then some (c.toNat - 87)
  else none

/-- The code unit of four hexadecimal digits. -/
def codeUnit (digits : Bytes) : Option Nat := do
  let values ← digits.mapM hexValue
  if values.length = 4 then some (values.foldl (fun n d => 16 * n + d) 0) else none

def utf8Encode (n : Nat) : Bytes :=
  if n < 0x80 then [UInt8.ofNat n]
  else if n < 0x800 then [UInt8.ofNat (0xC0 + n / 64), UInt8.ofNat (0x80 + n % 64)]
  else if n < 0x10000 then
    [UInt8.ofNat (0xE0 + n / 4096), UInt8.ofNat (0x80 + n / 64 % 64), UInt8.ofNat (0x80 + n % 64)]
  else
    [UInt8.ofNat (0xF0 + n / 262144), UInt8.ofNat (0x80 + n / 4096 % 64), UInt8.ofNat (0x80 + n / 64 % 64),
      UInt8.ofNat (0x80 + n % 64)]

/-- The byte that stands for a backslash and this byte. -/
def shortEscape (c : UInt8) : Option UInt8 :=
  if c = 34 ∨ c = 92 ∨ c = 47 then some c
  else if c = 98 then some 8
  else if c = 102 then some 12
  else if c = 110 then some 10
  else if c = 114 then some 13
  else if c = 116 then some 9
  else none

/-- One escape, behind its backslash: the bytes it stands for and what follows it.  A high surrogate is one code point with
the low one that must follow. -/
def escape (s : Bytes) : Option (Bytes × Bytes) :=
  match s with
  | [] => none
  | c :: rest =>
    if c ≠ 117 then (shortEscape c).map (fun b => ([b], rest))
    else do
      let unit ← codeUnit (rest.take 4)
      let rest := rest.drop 4
      if 0xD800 ≤ unit ∧ unit ≤ 0xDBFF then do
        if rest.take 2 = [92, 117] then do
          let low ← codeUnit ((rest.drop 2).take 4)
          if 0xDC00 ≤ low ∧ low ≤ 0xDFFF then
            some (utf8Encode (0x10000 + (unit - 0xD800) * 1024 + (low - 0xDC00)), rest.drop 6)
          else none
        else none
      else if 0xDC00 ≤ unit ∧ unit ≤ 0xDFFF then none
      else some (utf8Encode unit, rest)

theorem escape_length {s b t : Bytes} (h : escape s = some (b, t)) : t.length < s.length := by
  unfold escape at h
  split at h
  · cases h
  · rename_i c rest
    split at h
    · obtain ⟨x, -, hx⟩ := Option.map_eq_some_iff.1 h
      cases hx
      exact Nat.lt_succ_self _
    · obtain ⟨unit, -, h⟩ := Option.bind_eq_some_iff.1 h
      dsimp only at h
      split at h
      · split at h
        · obtain ⟨low, -, h⟩ := Option.bind_eq_some_iff.1 h
          split at h
          · obtain ⟨-, rfl⟩ := Prod.mk.inj (Option.some.inj h)
            simp only [List.drop_drop, List.length_drop, List.length_cons]
            omega
          · cases h
        · cases h
      · split at h
        · cases h
        · obtain ⟨-, rfl⟩ := Prod.mk.inj (Option.some.inj h)
          simp only [List.length_drop, List.length_cons]
          omega

def unescape (s : Bytes) : Option Bytes :=
  match s with
  | [] => some []
  | c :: rest =>
    if c ≠ 92 then (unescape rest).map (c :: ·)
    else match h : escape rest with
      | none => none
      | some (b, t) =>
        have := escape_length h
        (unescape t).map (b ++ ·)
termination_by s.length
decreasing_by all_goals (simp only [List.length_cons]; omega)

def stringText (s : Bytes) : Option (Bytes × Bytes) := do
  let (raw, rest) ← rawString s
  if utf8ValidateSlice raw then do
    let text ← unescape raw
    some (text, rest)
  else none

/-- A digit at least, and all that follow. -/
def digits (s : Bytes) : Option (Bytes × Bytes) :=
  if (s.takeWhile isDigit).isEmpty then none else some (s.takeWhile isDigit, s.dropWhile isDigit)

def integer (s : Bytes) : Option (Bytes × Bytes) :=
  match s with
  | 48 :: rest => some ([48], rest)
  | _ => digits s

def fraction (s : Bytes) : Option (Bytes × Bytes) :=
  match s with
  | 46 :: rest => (digits rest).map (fun p => (46 :: p.1, p.2))
  | _ => some ([], s)

def exponent (s : Bytes) : Option (Bytes × Bytes) :=
  match s with
  | e :: rest =>
    if e = 69 ∨ e = 101 then
      match rest with
      | sign :: more =>
        if sign = 43 ∨ sign = 45 then (digits more).map (fun p => (e :: sign :: p.1, p.2))
        else (digits rest).map (fun p => (e :: p.1, p.2))
      | [] => none
    else some ([], s)
  | [] => some ([], [])

def number (s : Bytes) : Option (Bytes × Bytes) := do
  let sign := s.take (if s.head? = some 45 then 1 else 0)
  let (int, s) ← integer (s.drop sign.length)
  let (frac, s) ← fraction s
  let (exp, s) ← exponent s
  some (sign ++ (int ++ (frac ++ exp)), s)

mutual

/-- A value and what follows it.  Each step takes a byte at least, so the length of the text is enough fuel. -/
def value : Nat → Bytes → Option (Value × Bytes)
  | 0, _ => none
  | fuel + 1, s =>
    match skipSpace s with
    | [] => none
    | c :: rest =>
      if c = 123 then
        if (skipSpace rest).head? = some 125 then some (.object [], (skipSpace rest).drop 1)
        else (members fuel rest []).map (fun p => (.object p.1, p.2))
      else if c = 91 then
        if (skipSpace rest).head? = some 93 then some (.array [], (skipSpace rest).drop 1)
        else (elements fuel rest []).map (fun p => (.array p.1, p.2))
      else if c = 34 then (stringText rest).map (fun p => (.string p.1, p.2))
      else if startsWith (c :: rest) (ascii "null") then some (.null, (c :: rest).drop 4)
      else if startsWith (c :: rest) (ascii "true") then some (.bool true, (c :: rest).drop 4)
      else if startsWith (c :: rest) (ascii "false") then some (.bool false, (c :: rest).drop 5)
      else (number (c :: rest)).map (fun p => (.numberString p.1, p.2))

/-- The elements of an array that has one at least. -/
def elements : Nat → Bytes → List Value → Option (List Value × Bytes)
  | 0, _, _ => none
  | fuel + 1, s, acc => do
    let (v, rest) ← value fuel s
    match skipSpace rest with
    | 44 :: rest => elements fuel rest (acc ++ [v])
    | 93 :: rest => some (acc ++ [v], rest)
    | _ => none

/-- The fields of an object that has one at least. -/
def members : Nat → Bytes → List (Bytes × Value) → Option (List (Bytes × Value) × Bytes)
  | 0, _, _ => none
  | fuel + 1, s, acc => do
    match skipSpace s with
    | 34 :: rest => do
      let (key, rest) ← stringText rest
      match skipSpace rest with
      | 58 :: rest => do
        let (v, rest) ← value fuel rest
        if acc.any (fun f => f.1 == key) then none
        else match skipSpace rest with
          | 44 :: rest => members fuel rest (acc ++ [(key, v)])
          | 125 :: rest => some (acc ++ [(key, v)], rest)
          | _ => none
      | _ => none
    | _ => none

end

def parse (s : Bytes) : Option Value := do
  let (v, rest) ← value (s.length + 1) s
  if (skipSpace rest).isEmpty then some v else none

/-! ## What is written reads back -/

theorem skipSpace_newline (depth : Nat) (s : Bytes) : skipSpace (newline depth ++ s) = skipSpace s := by
  unfold skipSpace newline
  rw [List.cons_append, List.dropWhile_cons_of_pos (by decide), List.dropWhile_append_of_pos]
  intro c hc
  rw [(List.mem_replicate.1 hc).2]
  decide

theorem skipSpace_cons {c : UInt8} {s : Bytes} (h : isBlank c = false) : skipSpace (c :: s) = c :: s := by
  unfold skipSpace
  rw [List.dropWhile_cons_of_neg (by rw [h]; decide)]

theorem rawString_two (c d : UInt8) (rest : Bytes) : rawString (c :: d :: rest) =
    if c = 34 then some ([], d :: rest)
    else if c < 32 then none
    else if c = 92 then (rawString rest).map (fun p => (c :: d :: p.1, p.2))
    else (rawString (d :: rest)).map (fun p => (c :: p.1, p.2)) := rfl

theorem rawString_quote (s : Bytes) : rawString (34 :: s) = some ([], s) := by
  cases s with
  | nil => rfl
  | cons d s => exact rawString_two 34 d s

theorem rawString_cons {c : UInt8} (h : ¬ (c = 34 ∨ c = 92 ∨ c < 32)) (s : Bytes) :
    rawString (c :: s) = (rawString s).map (fun p => (c :: p.1, p.2)) := by
  obtain ⟨h1, h2, h3⟩ := not_or.1 h |>.imp_right not_or.1
  cases s with
  | nil => exact if_neg h1
  | cons d s => rw [rawString_two, if_neg h1, if_neg h3, if_neg h2]

theorem rawString_backslash (d : UInt8) (s : Bytes) :
    rawString (92 :: d :: s) = (rawString s).map (fun p => (92 :: d :: p.1, p.2)) := by
  rw [rawString_two, if_neg (by decide), if_neg (by decide), if_pos rfl]

theorem hexDigit_plain : ∀ n : Fin 16, ¬ (hexDigit n = 34 ∨ hexDigit n = 92 ∨ hexDigit n < 32) := by decide

theorem hexValue_hexDigit : ∀ n : Fin 16, hexValue (hexDigit n) = some n.val := by decide

theorem escapeByte_cases (c : UInt8) :
    (escapeByte c = [c] ∧ ¬ (c = 34 ∨ c = 92 ∨ c < 32)) ∨
    (∃ d, escapeByte c = [92, d] ∧ d ≠ 117 ∧ shortEscape d = some c ∧ c < 128 ∧ d < 128) ∨
    (escapeByte c = [92, 117, 48, 48, hexDigit (c.toNat / 16), hexDigit (c.toNat % 16)] ∧ c < 32) := by
  unfold escapeByte
  split
  · rename_i h
    refine .inr (.inl ⟨c, rfl, ?_⟩)
    rcases h with rfl | rfl <;> decide
  · rename_i h0
    split
    · subst c; exact .inr (.inl ⟨98, by decide⟩)
    split
    · subst c; exact .inr (.inl ⟨102, by decide⟩)
    split
    · subst c; exact .inr (.inl ⟨110, by decide⟩)
    split
    · subst c; exact .inr (.inl ⟨114, by decide⟩)
    split
    · subst c; exact .inr (.inl ⟨116, by decide⟩)
    split
    · rename_i h
      exact .inr (.inr ⟨rfl, h⟩)
    · rename_i h
      exact .inl ⟨rfl, fun hc => hc.elim (fun h1 => h0 (.inl h1)) (fun hc => hc.elim (fun h1 => h0 (.inr h1)) h)⟩

theorem rawString_escapeByte (c : UInt8) (s : Bytes) :
    rawString (escapeByte c ++ s) = (rawString s).map (fun p => (escapeByte c ++ p.1, p.2)) := by
  rcases escapeByte_cases c with ⟨h, hc⟩ | ⟨d, h, -⟩ | ⟨h, hc⟩
  · rw [h]
    exact rawString_cons hc s
  · rw [h]
    exact rawString_backslash d s
  · have hn : c.toNat < 32 := UInt8.lt_iff_toNat_lt.1 hc
    have h1 := hexDigit_plain ⟨c.toNat / 16, by omega⟩
    have h2 := hexDigit_plain ⟨c.toNat % 16, by omega⟩
    rw [h]
    simp only [List.cons_append, List.nil_append]
    rw [rawString_backslash, rawString_cons (by decide), rawString_cons (by decide), rawString_cons h1, rawString_cons h2]
    simp [Option.map_map, Function.comp_def]

theorem rawString_escaped : ∀ text rest : Bytes,
    rawString (text.flatMap escapeByte ++ 34 :: rest) = some (text.flatMap escapeByte, rest)
  | [], rest => rawString_quote rest
  | c :: text, rest => by
    rw [List.flatMap_cons, List.append_assoc, rawString_escapeByte, rawString_escaped text rest]
    rfl

theorem unescape_cons {c : UInt8} (h : c ≠ 92) (s : Bytes) : unescape (c :: s) = (unescape s).map (c :: ·) := by
  rw [unescape, if_pos h]

theorem unescape_escape {s b t : Bytes} (h : escape s = some (b, t)) :
    unescape (92 :: s) = (unescape t).map (b ++ ·) := by
  rw [unescape, if_neg (by simp)]
  split
  · rename_i h'
    rw [h] at h'
    cases h'
  · rename_i h'
    rw [h] at h'
    cases h'
    rfl

theorem unescape_escapeByte (c : UInt8) (s : Bytes) : unescape (escapeByte c ++ s) = (unescape s).map (c :: ·) := by
  rcases escapeByte_cases c with ⟨h, hc⟩ | ⟨d, h, hd, hs, -⟩ | ⟨h, hc⟩
  · rw [h]
    exact unescape_cons (fun h1 => hc (.inr (.inl h1))) s
  · rw [h]
    have he : escape (d :: s) = some ([c], s) := by
      unfold escape
      dsimp only
      rw [if_pos hd, hs]
      rfl
    exact unescape_escape he
  · have hn : c.toNat < 32 := UInt8.lt_iff_toNat_lt.1 hc
    have h1 := hexValue_hexDigit ⟨c.toNat / 16, by omega⟩
    have h2 := hexValue_hexDigit ⟨c.toNat % 16, by omega⟩
    have hu : codeUnit [48, 48, hexDigit (c.toNat / 16), hexDigit (c.toNat % 16)] = some c.toNat := by
      have h0 : hexValue 48 = some 0 := by decide
      unfold codeUnit
      simp only [List.mapM_cons, List.mapM_nil, h0, h1, h2, Option.bind_eq_bind, Option.bind_some, Option.pure_def]
      simp only [List.length_cons, List.length_nil, List.foldl_cons, List.foldl_nil, Nat.reduceAdd, if_true, Option.some.injEq]
      omega
    have he : escape (117 :: 48 :: 48 :: hexDigit (c.toNat / 16) :: hexDigit (c.toNat % 16) :: s) = some ([c], s) := by
      unfold escape
      dsimp only [List.take_succ_cons, List.take_zero, List.drop_succ_cons, List.drop_zero]
      rw [if_neg (by simp), hu]
      simp only [Option.bind_eq_bind, Option.bind_some]
      rw [if_neg (by omega), if_neg (by omega), utf8Encode, if_pos (by omega), UInt8.ofNat_toNat]
      rfl
    rw [h]
    exact unescape_escape he

theorem unescape_escaped : ∀ text : Bytes, unescape (text.flatMap escapeByte) = some text
  | [] => by rw [List.flatMap_nil, unescape]
  | c :: text => by
    rw [List.flatMap_cons, unescape_escapeByte, unescape_escaped text]
    rfl

theorem utf8From_ascii {a : UInt8} (h : a < 0x80) (lo hi : UInt8) (s : Bytes) :
    utf8From 0 lo hi (a :: s) = utf8From 0 0 0 s := by
  rw [utf8From, if_pos h]

theorem utf8From_text : ∀ (as : Bytes), (∀ a ∈ as, a < 0x80) → as ≠ [] → ∀ (lo hi : UInt8) (s : Bytes),
    utf8From 0 lo hi (as ++ s) = utf8From 0 0 0 s
  | [], _, h, _, _, _ => absurd rfl h
  | [a], ha, _, lo, hi, s => utf8From_ascii (ha a List.mem_cons_self) lo hi s
  | a :: b :: as, ha, _, lo, hi, s => by
    rw [List.cons_append, utf8From_ascii (ha a List.mem_cons_self)]
    exact utf8From_text (b :: as) (fun x hx => ha x (List.mem_cons_of_mem _ hx)) (List.cons_ne_nil _ _) 0 0 s

theorem hexDigit_ascii : ∀ n : Fin 16, hexDigit n < 0x80 := by decide

theorem escapeByte_ascii (c : UInt8) :
    escapeByte c = [c] ∨ c < 0x80 ∧ escapeByte c ≠ [] ∧ (escapeByte c).head? = some 92 ∧ ∀ a ∈ escapeByte c, a < 0x80 := by
  rcases escapeByte_cases c with ⟨h, -⟩ | ⟨d, h, -, -, hc, hd⟩ | ⟨h, hc⟩
  · exact .inl h
  · rw [h]
    refine .inr ⟨hc, by simp, rfl, fun a ha => ?_⟩
    simp only [List.mem_cons, List.not_mem_nil, or_false] at ha
    rcases ha with rfl | rfl
    · decide
    · exact hd
  · have hn : c.toNat < 32 := UInt8.lt_iff_toNat_lt.1 hc
    have h1 := hexDigit_ascii ⟨c.toNat / 16, by omega⟩
    have h2 := hexDigit_ascii ⟨c.toNat % 16, by omega⟩
    rw [h]
    refine .inr ⟨UInt8.lt_trans hc (by decide), by simp, rfl, fun a ha => ?_⟩
    simp only [List.mem_cons, List.not_mem_nil, or_false] at ha
    rcases ha with rfl | rfl | rfl | rfl | rfl | rfl
    · decide
    · decide
    · decide
    · decide
    · exact h1
    · exact h2

theorem utf8From_escaped : ∀ (text : Bytes) (need : Nat) (lo hi : UInt8), need = 0 ∨ 0x80 ≤ lo →
    utf8From need lo hi (text.flatMap escapeByte) = utf8From need lo hi text
  | [], _, _, _, _ => rfl
  | c :: text, 0, lo, hi, _ => by
    rw [List.flatMap_cons]
    rcases escapeByte_ascii c with h | ⟨hc, hne, -, hall⟩
    · rw [h, List.singleton_append, utf8From, utf8From]
      have := utf8From_escaped text
      split_ifs
      · exact this 0 0 0 (.inl rfl)
      all_goals first | exact this _ _ _ (.inr (by decide)) | rfl
    · rw [utf8From_text _ hall hne, utf8From_ascii hc, utf8From_escaped text 0 0 0 (.inl rfl)]
  | c :: text, need + 1, lo, hi, h0 => by
    have hlo : 0x80 ≤ lo := h0.resolve_left (Nat.succ_ne_zero _)
    rw [List.flatMap_cons]
    rcases escapeByte_ascii c with h | ⟨hc, -, hhead, -⟩
    · rw [h, List.singleton_append, utf8From, utf8From, utf8From_escaped text need 0x80 0xBF (.inr (by decide))]
    · obtain ⟨t, ht⟩ := List.head?_eq_some_iff.1 hhead
      have h92 : ¬ (lo ≤ 92 ∧ 92 ≤ hi) := fun h => absurd (UInt8.le_trans hlo h.1) (by decide)
      have hc' : ¬ (lo ≤ c ∧ c ≤ hi) := fun h => absurd (UInt8.le_trans hlo h.1) (UInt8.not_le.2 hc)
      rw [ht, List.cons_append, utf8From, utf8From, if_neg h92, if_neg hc']

/-- **A written string reads back.** -/
theorem stringText_quoted {text : Bytes} (h : utf8ValidateSlice text = true) (rest : Bytes) :
    stringText (text.flatMap escapeByte ++ 34 :: rest) = some (text, rest) := by
  have hu : utf8ValidateSlice (text.flatMap escapeByte) = true := (utf8From_escaped text 0 0 0 (.inl rfl)).trans h
  unfold stringText
  rw [rawString_escaped]
  simp only [Option.bind_eq_bind, Option.bind_some, hu, if_true, unescape_escaped]

/-! ### Numbers -/

/-- A natural number as JSON has it, without a leading zero. -/
def isNatural (text : Bytes) : Bool :=
  text == [48] || (!text.isEmpty && text.all isDigit && text.head? != some 48)

/-- What may follow a number. -/
def endsNumber (rest : Bytes) : Bool :=
  match rest with
  | [] => true
  | c :: _ => !(isDigit c || c == 46 || c == 69 || c == 101)

theorem takeWhile_digits {text rest : Bytes} (h : text.all isDigit = true) (hr : endsNumber rest = true) :
    (text ++ rest).takeWhile isDigit = text ∧ (text ++ rest).dropWhile isDigit = rest := by
  have hall := List.all_eq_true.1 h
  rw [List.takeWhile_append_of_pos hall, List.dropWhile_append_of_pos hall]
  cases rest with
  | nil => simp
  | cons c rest =>
    have hc : isDigit c = false := by
      unfold endsNumber at hr
      simp only [Bool.not_eq_true', Bool.or_eq_false_iff] at hr
      exact hr.1.1.1
    rw [List.takeWhile_cons_of_neg (by rw [hc]; decide), List.dropWhile_cons_of_neg (by rw [hc]; decide), List.append_nil]
    exact ⟨rfl, rfl⟩

theorem fraction_none {rest : Bytes} (h : endsNumber rest = true) : fraction rest = some ([], rest) := by
  unfold fraction
  split
  · simp [endsNumber] at h
  · rfl

theorem exponent_none {rest : Bytes} (h : endsNumber rest = true) : exponent rest = some ([], rest) := by
  unfold exponent
  split
  · rename_i e rest
    have he : ¬ (e = 69 ∨ e = 101) := by
      simp only [endsNumber, Bool.not_eq_true', Bool.or_eq_false_iff, beq_eq_false_iff_ne] at h
      exact fun hc => hc.elim h.1.2 h.2
    rw [if_neg he]
  · rfl

/-- **A written number reads back.** -/
theorem number_natural {text rest : Bytes} (h : isNatural text = true) (hr : endsNumber rest = true) :
    number (text ++ rest) = some (text, rest) := by
  have hint : integer (text ++ rest) = some (text, rest) := by
    rcases Bool.or_eq_true_iff.1 h with h0 | h1
    · rw [beq_iff_eq.1 h0]
      rfl
    · simp only [Bool.and_eq_true, Bool.not_eq_true', bne_iff_ne] at h1
      obtain ⟨⟨hne, hall⟩, hhead⟩ := h1
      obtain ⟨htake, hdrop⟩ := takeWhile_digits hall hr
      unfold integer
      split
      · rename_i s heq
        cases text with
        | nil => cases hne
        | cons c text =>
          rw [List.cons_append] at heq
          obtain ⟨rfl, -⟩ := List.cons.inj heq
          exact absurd rfl hhead
      · unfold digits
        rw [htake, hdrop, hne]
        rfl
  have hsign : (text ++ rest).head? ≠ some 45 := by
    intro hc
    rcases Bool.or_eq_true_iff.1 h with h0 | h1
    · rw [beq_iff_eq.1 h0] at hc
      cases hc
    · simp only [Bool.and_eq_true, Bool.not_eq_true'] at h1
      obtain ⟨⟨hne, hall⟩, -⟩ := h1
      cases text with
      | nil => cases hne
      | cons c text =>
        obtain rfl : c = 45 := by simpa using hc
        have := List.all_eq_true.1 hall 45 List.mem_cons_self
        cases this
  unfold number
  rw [if_neg hsign]
  simp only [List.take_zero, List.length_nil, List.drop_zero, hint, fraction_none hr, exponent_none hr,
    Option.bind_eq_bind, Option.bind_some, List.nil_append, List.append_nil]

/-! ### Values -/

mutual

/-- The values that are written as JSON: texts are UTF-8, numbers are natural, no field stands twice. -/
def Writable : Value → Prop
  | .null => True
  | .bool _ => True
  | .numberString text => isNatural text = true
  | .string text => utf8ValidateSlice text = true
  | .array items => WritableItems items
  | .object fields => WritableFields fields ∧ (fields.map Prod.fst).Nodup

def WritableItems : List Value → Prop
  | [] => True
  | v :: vs => Writable v ∧ WritableItems vs

def WritableFields : List (Bytes × Value) → Prop
  | [] => True
  | (k, v) :: fs => utf8ValidateSlice k = true ∧ Writable v ∧ WritableFields fs

end

theorem value_space {s t : Bytes} (h : skipSpace s = skipSpace t) (fuel : Nat) : value fuel s = value fuel t := by
  cases fuel with
  | zero => rfl
  | succ fuel => rw [value, value, h]

/-- **A value behind its first byte.** -/
theorem value_of {s rest : Bytes} {c : UInt8} (h : skipSpace s = c :: rest) (fuel : Nat) : value (fuel + 1) s =
    if c = 123 then
      if (skipSpace rest).head? = some 125 then some (.object [], (skipSpace rest).drop 1)
      else (members fuel rest []).map (fun p => (.object p.1, p.2))
    else if c = 91 then
      if (skipSpace rest).head? = some 93 then some (.array [], (skipSpace rest).drop 1)
      else (elements fuel rest []).map (fun p => (.array p.1, p.2))
    else if c = 34 then (stringText rest).map (fun p => (.string p.1, p.2))
    else if startsWith (c :: rest) (ascii "null") then some (.null, (c :: rest).drop 4)
    else if startsWith (c :: rest) (ascii "true") then some (.bool true, (c :: rest).drop 4)
    else if startsWith (c :: rest) (ascii "false") then some (.bool false, (c :: rest).drop 5)
    else (number (c :: rest)).map (fun p => (.numberString p.1, p.2)) := by
  rw [value, h]

theorem value_newline (fuel depth : Nat) (s : Bytes) : value fuel (newline depth ++ s) = value fuel s :=
  value_space (skipSpace_newline depth s) fuel

theorem value_blank (fuel : Nat) (s : Bytes) : value fuel (32 :: s) = value fuel s :=
  value_space (List.dropWhile_cons_of_pos (by decide)) fuel

theorem value_number {text rest : Bytes} (h : isNatural text = true) (hr : endsNumber rest = true) (fuel : Nat) :
    value (fuel + 1) (text ++ rest) = some (.numberString text, rest) := by
  have hn := number_natural h hr
  obtain ⟨c, s, rfl, hc⟩ : ∃ c s, text = c :: s ∧ isDigit c = true := by
    rcases Bool.or_eq_true_iff.1 h with h0 | h1
    · exact ⟨48, [], beq_iff_eq.1 h0, rfl⟩
    · simp only [Bool.and_eq_true, Bool.not_eq_true'] at h1
      obtain ⟨⟨hne, hall⟩, -⟩ := h1
      cases text with
      | nil => cases hne
      | cons c s => exact ⟨c, s, rfl, List.all_eq_true.1 hall c List.mem_cons_self⟩
  have hother : ∀ d : UInt8, isDigit d = false → c ≠ d := fun d hd hcd => by rw [hcd, hd] at hc; cases hc
  have hstart : ∀ w : Bytes, w ≠ [] → isDigit (w.headD 0) = false → startsWith (c :: (s ++ rest)) w = false := by
    intro w hw hd
    cases w with
    | nil => exact absurd rfl hw
    | cons d w =>
      have : (d == c) = false := by simpa using (hother d hd).symm
      simp only [startsWith, List.isPrefixOf_cons_cons, this, Bool.false_and]
  rw [List.cons_append, value_of (skipSpace_cons (isBlank_of_isDigit hc)), if_neg (hother 123 (by decide)), if_neg (hother 91 (by decide)), if_neg (hother 34 (by decide)),
    hstart _ (by decide) (by decide), hstart _ (by decide) (by decide), hstart _ (by decide) (by decide), ← List.cons_append, hn]
  rfl

theorem value_string {text : Bytes} (h : utf8ValidateSlice text = true) (rest : Bytes) (fuel : Nat) :
    value (fuel + 1) (quoted text ++ rest) = some (.string text, rest) := by
  have ht := stringText_quoted h rest
  rw [quoted, List.cons_append, List.append_assoc, List.singleton_append, value_of (skipSpace_cons (by decide)), if_neg (by decide), if_neg (by decide), if_pos rfl, ht]
  rfl

theorem skipSpace_quoted (key s : Bytes) : skipSpace (quoted key ++ s) = 34 :: (key.flatMap escapeByte ++ 34 :: s) := by
  rw [quoted, List.cons_append, skipSpace_cons (by decide), List.append_assoc, List.singleton_append]

theorem value_array {s : Bytes} (h : (skipSpace s).head? ≠ some 93) (fuel : Nat) :
    value (fuel + 1) (91 :: s) = (elements fuel s []).map (fun p => (.array p.1, p.2)) := by
  rw [value_of (skipSpace_cons (by decide)), if_neg (by decide), if_pos rfl, if_neg h]

theorem value_object {s : Bytes} (h : (skipSpace s).head? ≠ some 125) (fuel : Nat) :
    value (fuel + 1) (123 :: s) = (members fuel s []).map (fun p => (.object p.1, p.2)) := by
  rw [value_of (skipSpace_cons (by decide)), if_pos rfl, if_neg h]

theorem skipSpace_write {v : Value} (h : Writable v) (depth : Nat) (rest : Bytes) :
    (skipSpace (write depth v ++ rest)).head? ≠ some 93 := by
  have hcons : ∀ {c : UInt8} {s : Bytes}, isBlank c = false → c ≠ 93 → (skipSpace (c :: s)).head? ≠ some 93 := by
    intro c s hb hc
    rw [skipSpace_cons hb, List.head?_cons]
    exact fun h => hc (Option.some.inj h)
  match v with
  | .null => rw [write]; exact hcons (by decide) (by decide)
  | .bool true => rw [write]; exact hcons (by decide) (by decide)
  | .bool false => rw [write]; exact hcons (by decide) (by decide)
  | .numberString text =>
    rw [Writable] at h
    rw [write]
    rcases Bool.or_eq_true_iff.1 h with h0 | h1
    · rw [beq_iff_eq.1 h0]
      exact hcons (by decide) (by decide)
    · simp only [Bool.and_eq_true, Bool.not_eq_true'] at h1
      obtain ⟨⟨hne, hall⟩, -⟩ := h1
      cases text with
      | nil => cases hne
      | cons c s =>
        have hc := List.all_eq_true.1 hall c List.mem_cons_self
        exact hcons (isBlank_of_isDigit hc) (fun h => by rw [h] at hc; cases hc)
  | .string text => rw [write]; exact hcons (by decide) (by decide)
  | .array [] => rw [write]; exact hcons (by decide) (by decide)
  | .array (_ :: _) => rw [write]; exact hcons (by decide) (by decide)
  | .object [] => rw [write]; exact hcons (by decide) (by decide)
  | .object ((_, _) :: _) => rw [write]; exact hcons (by decide) (by decide)

mutual

theorem value_write : ∀ (v : Value) (depth fuel : Nat) (rest : Bytes), Writable v → (write depth v).length < fuel →
    endsNumber rest = true → value fuel (write depth v ++ rest) = some (v, rest)
  | _, _, 0, _, _, hf, _ => absurd hf (Nat.not_lt_zero _)
  | .null, _, _ + 1, rest, _, _, _ => by rw [write, value]; rfl
  | .bool true, _, _ + 1, rest, _, _, _ => by rw [write, value]; rfl
  | .bool false, _, _ + 1, rest, _, _, _ => by rw [write, value]; rfl
  | .numberString text, _, fuel + 1, rest, hw, _, hr => by
    rw [Writable] at hw
    rw [write]
    exact value_number hw hr fuel
  | .string text, _, fuel + 1, rest, hw, _, _ => by
    rw [Writable] at hw
    rw [write]
    exact value_string hw rest fuel
  | .array [], _, _ + 1, rest, _, _, _ => by rw [write, value]; rfl
  | .array (v :: vs), depth, fuel + 1, rest, hw, hf, _ => by
    rw [Writable] at hw
    rw [write] at hf ⊢
    simp only [List.length_cons, List.length_append, List.length_nil] at hf
    have he := elements_write (v :: vs) (depth + 1) depth fuel rest [] (List.cons_ne_nil _ _) hw (by
      rw [writeItems]
      simp only [List.length_cons, List.length_append]
      omega)
    rw [writeItems, List.drop_one, List.tail_cons] at he
    simp only [List.append_assoc, List.nil_append] at he
    rw [WritableItems] at hw
    simp only [List.cons_append, List.append_assoc, List.nil_append]
    rw [value_array (by rw [skipSpace_newline]; exact skipSpace_write hw.1 _ _), he]
    rfl
  | .object [], _, _ + 1, rest, _, _, _ => by rw [write, value]; rfl
  | .object ((k, v) :: fs), depth, fuel + 1, rest, hw, hf, _ => by
    rw [Writable] at hw
    rw [write] at hf ⊢
    simp only [List.length_cons, List.length_append, List.length_nil] at hf
    have hm := members_write ((k, v) :: fs) (depth + 1) depth fuel rest [] (List.cons_ne_nil _ _) hw.1 hw.2 (by
      rw [writeFields]
      simp only [List.length_cons, List.length_append]
      omega)
    rw [writeFields, List.drop_one, List.tail_cons] at hm
    simp only [List.append_assoc, List.nil_append, List.cons_append] at hm
    simp only [List.cons_append, List.append_assoc, List.nil_append]
    rw [value_object (by rw [skipSpace_newline, skipSpace_quoted]; exact (by decide : some (34 : UInt8) ≠ some 125)), hm]
    rfl

theorem elements_write : ∀ (vs : List Value) (depth depth' fuel : Nat) (rest : Bytes) (acc : List Value), vs ≠ [] →
    WritableItems vs → (writeItems depth vs).length ≤ fuel →
    elements fuel ((writeItems depth vs).drop 1 ++ (newline depth' ++ 93 :: rest)) acc = some (acc ++ vs, rest)
  | [], _, _, _, _, _, h, _, _ => absurd rfl h
  | v :: vs, depth, depth', 0, rest, acc, _, hw, hf => by
    rw [writeItems] at hf
    simp at hf
  | v :: vs, depth, depth', fuel + 1, rest, acc, _, hw, hf => by
    rw [WritableItems] at hw
    rw [writeItems] at hf ⊢
    simp only [List.length_cons, List.length_append] at hf
    have hnl : 1 ≤ (newline depth).length := by simp [newline]
    have hv := value_write v depth fuel (writeItems depth vs ++ (newline depth' ++ 93 :: rest)) hw.1 (by omega) (by
      cases vs with
      | nil => rfl
      | cons w ws => rw [writeItems]; rfl)
    rw [elements, List.drop_one, List.tail_cons, List.append_assoc, List.append_assoc, value_newline, hv]
    simp only [Option.bind_eq_bind, Option.bind_some]
    cases vs with
    | nil =>
      rw [writeItems, List.nil_append, skipSpace_newline, skipSpace_cons (by decide)]
      rfl
    | cons w ws =>
      have he := elements_write (w :: ws) depth depth' fuel rest (acc ++ [v]) (List.cons_ne_nil _ _) hw.2 (by omega)
      rw [writeItems, List.drop_one, List.tail_cons] at he
      rw [writeItems, List.cons_append, skipSpace_cons (by decide)]
      show elements fuel _ (acc ++ [v]) = _
      rw [he, List.append_assoc, List.singleton_append]

theorem members_write : ∀ (fs : List (Bytes × Value)) (depth depth' fuel : Nat) (rest : Bytes) (acc : List (Bytes × Value)),
    fs ≠ [] → WritableFields fs → ((acc ++ fs).map Prod.fst).Nodup → (writeFields depth fs).length ≤ fuel →
    members fuel ((writeFields depth fs).drop 1 ++ (newline depth' ++ 125 :: rest)) acc = some (acc ++ fs, rest)
  | [], _, _, _, _, _, h, _, _, _ => absurd rfl h
  | (k, v) :: fs, depth, depth', 0, rest, acc, _, hw, _, hf => by
    rw [writeFields] at hf
    simp at hf
  | (k, v) :: fs, depth, depth', fuel + 1, rest, acc, _, hw, hd, hf => by
    rw [WritableFields] at hw
    rw [writeFields] at hf ⊢
    simp only [List.length_cons, List.length_append] at hf
    have hv := value_write v depth fuel (writeFields depth fs ++ (newline depth' ++ 125 :: rest)) hw.2.1 (by omega) (by
      cases fs with
      | nil => rfl
      | cons w ws => rw [writeFields]; rfl)
    have hnew : acc.any (fun f => f.1 == k) = false := by
      rw [List.map_append, List.map_cons] at hd
      have hdis := (List.nodup_append.1 hd).2.2
      refine List.any_eq_false.2 (fun f hfm hfk => ?_)
      exact hdis f.1 (List.mem_map_of_mem hfm) k List.mem_cons_self (beq_iff_eq.1 hfk)
    rw [members, List.drop_one, List.tail_cons]
    simp only [List.append_assoc, List.cons_append]
    rw [skipSpace_newline, skipSpace_quoted]
    simp only [stringText_quoted hw.1, Option.bind_eq_bind, Option.bind_some]
    rw [skipSpace_cons (by decide)]
    simp only [value_blank, hv, Option.bind_some, hnew, Bool.false_eq_true, if_false]
    cases fs with
    | nil =>
      rw [writeFields, List.nil_append, skipSpace_newline, skipSpace_cons (by decide)]
      rfl
    | cons w ws =>
      have hm := members_write (w :: ws) depth depth' fuel rest (acc ++ [(k, v)]) (List.cons_ne_nil _ _) hw.2.2
        (by rwa [List.append_assoc, List.singleton_append]) (by omega)
      obtain ⟨k', v'⟩ := w
      rw [writeFields, List.drop_one, List.tail_cons] at hm
      rw [writeFields, List.cons_append, skipSpace_cons (by decide)]
      show members fuel _ (acc ++ [(k, v)]) = _
      rw [hm, List.append_assoc, List.singleton_append]

end

/-- **What is written reads back.** -/
theorem parse_write {v : Value} (h : Writable v) : parse (write 0 v) = some v := by
  have hv := value_write v 0 ((write 0 v).length + 1) [] h (Nat.lt_succ_self _) rfl
  rw [List.append_nil] at hv
  unfold parse
  rw [hv]
  rfl

theorem head_decimalFrom : ∀ (fuel n : Nat) (acc : Bytes), n ≠ 0 → n < 10 ^ fuel → (decimalFrom fuel n acc).head? ≠ some 48
  | 0, n, _, h0, hn => absurd (Nat.lt_one_iff.1 hn) h0
  | fuel + 1, n, acc, h0, hn => by
    rw [decimalFrom, if_neg h0]
    by_cases h : n / 10 = 0
    · have hd : n % 10 = n := Nat.mod_eq_of_lt (by omega)
      have hs : decimalFrom fuel (n / 10) (UInt8.ofNat (48 + n % 10) :: acc) = UInt8.ofNat (48 + n % 10) :: acc := by
        rw [h]
        cases fuel <;> simp [decimalFrom]
      rw [hs, List.head?_cons, hd]
      intro hc
      have := congrArg UInt8.toNat (Option.some.inj hc)
      rw [digit_toNat (by omega)] at this
      exact h0 (by have : 48 + n = 48 := this; omega)
    · exact head_decimalFrom fuel (n / 10) _ h (by rw [pow_succ] at hn; omega)

theorem isNatural_decimal {n : Nat} (h : n < 2 ^ 64) : isNatural (decimal n) = true := by
  by_cases h0 : n = 0
  · subst h0; decide
  · have hall : (decimal n).all isDigit = true := List.all_eq_true.2 (decimal_digits n)
    have hhead : (decimal n).head? ≠ some 48 := by
      rw [decimal, if_neg h0]
      exact head_decimalFrom 20 n [] h0 (by omega)
    have hne : (decimal n).isEmpty = false := by simpa using decimal_ne_nil n
    unfold isNatural
    rw [hall, hne, bne_iff_ne.2 hhead, Bool.not_false, Bool.and_true, Bool.and_true, Bool.or_true]

end Json

theorem utf8ValidateSlice_ascii {text : Bytes} (h : ∀ c ∈ text, c < 0x80) : utf8ValidateSlice text = true := by
  cases text with
  | nil => rfl
  | cons c text =>
    have := Json.utf8From_text (c :: text) h (List.cons_ne_nil _ _) 0 0 []
    rw [List.append_nil] at this
    exact this

end R4
