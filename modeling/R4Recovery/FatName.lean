import Mathlib.Data.List.DropRight
import R4Recovery.Lines
/-!
# FatName — the names of FAT entries

The kernel's rules for names in `fat32.zig`: a name is valid when it fits one 8.3 entry or is a long name; an entry is
found under its long name and under its 8.3 name, upper and lower case alike.
-/
namespace R4
namespace Fat

/-! ## 8.3 names -/

def shortAllowed (c : UInt8) : Bool :=
  (65 ≤ c && c ≤ 90) || (48 ≤ c && c ≤ 57) || c == 95 || c == 45 || c == 36 || c == 126

/-- A field of an 8.3 name: upper case, filled up with blanks. -/
def padField (width : Nat) (text : Bytes) : Bytes := text.map toUpper ++ List.replicate (width - text.length) 32

/-- The base and the extension around the only dot. -/
def splitDot (name : Bytes) : Option (Bytes × Bytes) :=
  match name.splitOn 46 with
  | [base] => some (base, [])
  | [base, ext] => some (base, ext)
  | _ => none

/-- The eleven bytes of an 8.3 name, if the name has that form. -/
def buildShortName (name : Bytes) : Option Bytes :=
  match splitDot name with
  | none => none
  | some (base, ext) =>
    if base = [] ∨ 8 < base.length ∨ 3 < ext.length then none
    else if (base ++ ext).all (fun c => shortAllowed (toUpper c)) then some (padField 8 base ++ padField 3 ext)
    else none

def validShortInput (name : Bytes) : Bool := (buildShortName name).isSome

def trimBlanks (field : Bytes) : Bytes := field.rdropWhile (· == 32)

/-- The text of the eleven bytes of an 8.3 name. -/
def shortNameToBuffer (raw : Bytes) : Bytes :=
  let ext := trimBlanks ((raw.drop 8).take 3)
  trimBlanks (raw.take 8) ++ (if ext = [] then [] else 46 :: ext)

/-! ## Long names -/

def nameMax : Nat := 768

def nameUnitsMax : Nat := 255

def utf16From : Nat → Bytes → Option (List Nat)
  | _, [] => some []
  | 0, _ :: _ => none
  | fuel + 1, b :: rest =>
    if b < 0x80 then (utf16From fuel rest).map (b.toNat :: ·)
    else if b &&& 0xE0 = 0xC0 then
      match rest with
      | b1 :: rest =>
        if b < 0xC2 ∨ b1 &&& 0xC0 ≠ 0x80 then none
        else (utf16From fuel rest).map (((b &&& 0x1F).toNat * 64 + (b1 &&& 0x3F).toNat) :: ·)
      | [] => none
    else if b &&& 0xF0 = 0xE0 then
      match rest with
      | b1 :: b2 :: rest =>
        if b1 &&& 0xC0 ≠ 0x80 ∨ b2 &&& 0xC0 ≠ 0x80 then none
        else if (b = 0xE0 ∧ b1 < 0xA0) ∨ (b = 0xED ∧ 0xA0 ≤ b1) then none
        else (utf16From fuel rest).map
          (((b &&& 0x0F).toNat * 4096 + (b1 &&& 0x3F).toNat * 64 + (b2 &&& 0x3F).toNat) :: ·)
      | _ => none
    else none

/-- The UTF-16 units of a UTF-8 name in the basic plane. -/
def utf8ToUtf16Units (name : Bytes) : Option (List Nat) :=
  (utf16From name.length name).filter (fun units => units.length ≤ nameUnitsMax)

def utf8OfUnit (unit : Nat) : Option Bytes :=
  if unit < 0x80 then some [UInt8.ofNat unit]
  else if unit < 0x800 then some [UInt8.ofNat (0xC0 + unit / 64), UInt8.ofNat (0x80 + unit % 64)]
  else if 0xD800 ≤ unit ∧ unit < 0xE000 then none
  else some [UInt8.ofNat (0xE0 + unit / 4096), UInt8.ofNat (0x80 + unit / 64 % 64), UInt8.ofNat (0x80 + unit % 64)]

def utf16UnitsToUtf8 (units : List Nat) : Option Bytes :=
  ((units.mapM utf8OfUnit).map List.flatten).filter (fun text => text.length ≤ nameMax)

/-- Reserved and control characters: `\ / : * ? " < > |`. -/
def unitAllowed (unit : Nat) : Bool :=
  0x20 ≤ unit && unit != 0x7F && !([92, 47, 58, 42, 63, 34, 60, 62, 124].contains unit)

def validLongInput (name : Bytes) : Bool :=
  if name = [] ∨ nameMax ≤ name.length then false
  else if name.head? = some 46 ∨ name.getLast? = some 46 then false
  else match utf8ToUtf16Units name with
    | none => false
    | some units => units.all unitAllowed && units.any (· != 32)

def validInputName (name : Bytes) : Bool := validShortInput name || validLongInput name

/-! ## The text of an 8.3 name -/

theorem shortAllowed_ne {c : UInt8} (h : shortAllowed c = true) : c ≠ 0 ∧ c ≠ 0xE5 ∧ c ≠ 46 ∧ c ≠ 32 := by
  revert h
  exact byte_forall (p := fun c => shortAllowed c = true → c ≠ 0 ∧ c ≠ 0xE5 ∧ c ≠ 46 ∧ c ≠ 32) (by decide +kernel) c

theorem splitDot_eq {name base ext : Bytes} (h : splitDot name = some (base, ext)) :
    (name = base ∧ ext = []) ∨ name = base ++ 46 :: ext := by
  have hj : [(46 : UInt8)].intercalate (name.splitOn 46) = name := List.intercalate_splitOn 46
  unfold splitDot at h
  split at h
  · rename_i b hs
    cases h
    rw [hs] at hj
    exact .inl ⟨by simpa [List.intercalate] using hj.symm, rfl⟩
  · rename_i b e hs
    cases h
    rw [hs] at hj
    exact .inr (by simpa [List.intercalate] using hj.symm)
  · cases h

theorem length_padField {width : Nat} {text : Bytes} (h : text.length ≤ width) : (padField width text).length = width := by
  simp [padField, h]

theorem trimBlanks_padField (width : Nat) {text : Bytes} (h : ∀ c ∈ text, shortAllowed (toUpper c) = true) :
    trimBlanks (padField width text) = text.map toUpper := by
  have hblank : ∀ n : Nat, (List.map toUpper text ++ List.replicate n (32 : UInt8)).rdropWhile (· == 32) =
      (List.map toUpper text).rdropWhile (· == 32) := by
    intro n
    induction n with
    | zero => rw [List.replicate_zero, List.append_nil]
    | succ n ih => rw [List.replicate_succ', ← List.append_assoc, List.rdropWhile_concat_pos _ _ _ (by simp), ih]
  unfold trimBlanks padField
  rw [hblank, List.rdropWhile_eq_self_iff]
  intro hne hlast
  obtain ⟨c, hc, he⟩ := List.mem_map.1 (List.getLast_mem hne)
  exact (shortAllowed_ne (h c hc)).2.2.2 (he.trans (by simpa using hlast))

theorem buildShortName_some {name short : Bytes} (h : buildShortName name = some short) :
    ∃ base ext, ((name = base ∧ ext = []) ∨ name = base ++ 46 :: ext) ∧ base ≠ [] ∧ base.length ≤ 8 ∧ ext.length ≤ 3 ∧
      (∀ c ∈ base, shortAllowed (toUpper c) = true) ∧ (∀ c ∈ ext, shortAllowed (toUpper c) = true) ∧
      short = padField 8 base ++ padField 3 ext := by
  unfold buildShortName at h
  split at h
  · cases h
  · rename_i base ext hs
    split at h
    · cases h
    · rename_i hlen
      split at h
      · rename_i hall
        cases h
        push Not at hlen
        simp only [List.all_eq_true, List.mem_append] at hall
        exact ⟨base, ext, splitDot_eq hs, hlen.1, hlen.2.1, hlen.2.2, fun c hc => hall c (.inl hc),
          fun c hc => hall c (.inr hc), rfl⟩
      · cases h

theorem length_buildShortName {name short : Bytes} (h : buildShortName name = some short) : short.length = 11 := by
  obtain ⟨base, ext, _, _, hb, he, _, _, rfl⟩ := buildShortName_some h
  rw [List.length_append, length_padField hb, length_padField he]

theorem head_buildShortName {name short : Bytes} (h : buildShortName name = some short) :
    short.getD 0 0 ≠ 0 ∧ short.getD 0 0 ≠ 0xE5 ∧ short.getD 0 0 ≠ 46 := by
  obtain ⟨base, ext, _, hne, _, _, hb, _, rfl⟩ := buildShortName_some h
  cases base with
  | nil => exact absurd rfl hne
  | cons c base =>
    have hc := shortAllowed_ne (hb c List.mem_cons_self)
    exact ⟨hc.1, hc.2.1, hc.2.2.1⟩

/-- The base and the extension of an 8.3 name. -/
structure NameFields (base ext : Bytes) : Prop where
  ne : base ≠ []
  baseRoom : base.length ≤ 8
  extRoom : ext.length ≤ 3
  base : ∀ c ∈ base, shortAllowed (toUpper c) = true
  ext : ∀ c ∈ ext, shortAllowed (toUpper c) = true

theorem NameFields.text {base ext : Bytes} (h : NameFields base ext) : shortNameToBuffer (padField 8 base ++ padField 3 ext) =
    base.map toUpper ++ (if ext.map toUpper = [] then [] else 46 :: ext.map toUpper) := by
  have htake : (padField 8 base ++ padField 3 ext).take 8 = padField 8 base := List.take_left' (length_padField h.baseRoom)
  have hdrop : ((padField 8 base ++ padField 3 ext).drop 8).take 3 = padField 3 ext := by
    rw [List.drop_left' (length_padField h.baseRoom)]
    exact List.take_of_length_le (Nat.le_of_eq (length_padField h.extRoom))
  unfold shortNameToBuffer
  rw [htake, hdrop, trimBlanks_padField 8 h.base, trimBlanks_padField 3 h.ext]

/-- **The text of an 8.3 name is the name in upper case**, without a dot that ends it. -/
theorem text_buildShortName {name short : Bytes} (h : buildShortName name = some short) :
    (name.getLast? ≠ some 46 → shortNameToBuffer short = name.map toUpper) ∧
    (name.getLast? = some 46 → shortNameToBuffer short = name.dropLast.map toUpper) := by
  obtain ⟨base, ext, hname, hne, hbl, hel, hb, he, rfl⟩ := buildShortName_some h
  have hdot : ∀ {l : Bytes}, (∀ c ∈ l, shortAllowed (toUpper c) = true) → l.getLast? ≠ some 46 := by
    intro l hl hlast
    exact absurd (hl 46 (List.mem_of_getLast? hlast)) (by decide)
  have h46 : toUpper 46 = 46 := by decide
  rw [NameFields.text ⟨hne, hbl, hel, hb, he⟩]
  rcases hname with ⟨rfl, rfl⟩ | rfl
  · exact ⟨fun _ => by simp, fun hl => absurd hl (hdot hb)⟩
  · cases ext with
    | nil => exact ⟨fun hl => absurd (by simp) hl, fun _ => by simp⟩
    | cons x xs =>
      refine ⟨fun _ => by simp [h46], fun hl => ?_⟩
      rw [List.getLast?_append_of_ne_nil _ (by simp), List.getLast?_cons_cons] at hl
      exact absurd hl (hdot he)

end Fat
end R4
