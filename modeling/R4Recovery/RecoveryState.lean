import Mathlib.Data.List.DropRight
import Mathlib.Data.List.Perm.Lattice
import R4Recovery.GuidText
import R4Recovery.Sha256
/-!
# RecoveryState — the record that confirms a boot

`recovery_state.zig`.  The record is a text of `key=value` lines in any order; each key stands in it once.  A confirmed
record lets the running system overwrite its fallback, so whatever is not exactly the record that was written for this
installation, version and manifest must not confirm.
-/
namespace R4
namespace RecoveryState

open Gpt (Guid)

/-! ## Version texts -/

structure SemanticVersion where
  major : Nat
  minor : Nat
  patch : Nat
  deriving DecidableEq

/-- Digits without a leading zero, below `2 ^ 32`. -/
def parseComponent (value : Bytes) : Option Nat :=
  if value.isEmpty || (decide (1 < value.length) && value.head? == some 48) then none
  else if value.any (fun c => !isDigit c) then none
  else
    let n := value.foldl (fun n c => n * 10 + (c.toNat - 48)) 0
    if n < 2 ^ 32 then some n else none

def parseSemanticVersion (value : Bytes) : Option SemanticVersion :=
  if value.isEmpty || value.any isBlank then none
  else match value.splitOn 46 with
    | [a, b, c] => do
      let major ← parseComponent a
      let minor ← parseComponent b
      let patch ← parseComponent c
      return { major, minor, patch }
    | _ => none

/-! ## The record -/

def maximum : Nat := 4096

def bom : Bytes := [0xef, 0xbb, 0xbf]

/-- `std.mem.trimEnd(u8, raw, "\r")`. -/
def trimEnd (raw : Bytes) : Bytes := raw.rdropWhile (· == 13)

/-- A line around its first `=`. -/
def splitField (line : Bytes) : Option (Bytes × Bytes) :=
  (line.idxOf? 61).map (fun i => (line.take i, line.drop (i + 1)))

def valueBad (value : Bytes) : Bool := value.isEmpty || value.any (fun c => c == 13 || c == 10 || c == 0)

/-- One line goes to the slot of its key, which must be empty. -/
def fieldLine (names out : List Bytes) (raw : Bytes) : Option (List Bytes) :=
  if trimEnd raw = [] then some out
  else match splitField (trimEnd raw) with
    | none => none
    | some (key, value) =>
      if valueBad value then none
      else if key ∉ names then none
      else if out.getD (names.idxOf key) [] ≠ [] then none
      else some (out.set (names.idxOf key) value)

def fields (names : List Bytes) (bytes : Bytes) : Option (List Bytes) :=
  if decide (maximum < bytes.length) || !startsWith bytes bom then none
  else do
    let out ← ((bytes.drop 3).splitOn 10).foldlM (fieldLine names) (List.replicate names.length [])
    if out.any List.isEmpty then none
    else if out.getD 0 [] ≠ ascii "1" ∨ out.getD 2 [] ≠ ascii "1" then none
    else some out

def bytesToHex (bytes : Bytes) : Bytes :=
  bytes.flatMap (fun c => [Guid.hex.getD (c.toNat / 16) 0, Guid.hex.getD (c.toNat % 16) 0])

def hexToBytes : Bytes → Option Bytes
  | [] => some []
  | a :: b :: text => do
    let hi ← Guid.nibble a
    let lo ← Guid.nibble b
    let rest ← hexToBytes text
    return (hi * 16 + lo) :: rest
  | _ => none

/-- Sixty-four lower case digits. -/
def digest (text : Bytes) : Option Bytes :=
  if text.length ≠ 64 then none
  else if text.any (fun c => !isDigit c && (decide (c < 97) || decide (102 < c))) then none
  else hexToBytes text

def names : List Bytes :=
  [ascii "R4S_FORMAT", ascii "SCHEMA", ascii "STATE_VERSION", ascii "INSTALLATION_ID", ascii "CURRENT_VERSION",
   ascii "CURRENT_MANIFEST_SHA256", ascii "CURRENT_CONFIRMED"]

def confirmed (bytes : Bytes) (installation : Guid) (version manifest : Bytes) : Bool :=
  match fields names bytes with
  | none => false
  | some f =>
    f.getD 1 [] == ascii "RECOVERY_STATE" && Guid.parse (f.getD 3 []) == some installation &&
      f.getD 4 [] == version && digest (f.getD 5 []) == some (Sha256.hash manifest) && f.getD 6 [] == ascii "yes"

/-- A field as it is written, without the end of its line. -/
def fieldText (field : Bytes × Bytes) : Bytes := field.1 ++ 61 :: field.2

def recordFields (installation : Guid) (version manifest : Bytes) (yes : Bool) : List (Bytes × Bytes) :=
  [(ascii "R4S_FORMAT", ascii "1"), (ascii "SCHEMA", ascii "RECOVERY_STATE"), (ascii "STATE_VERSION", ascii "1"),
   (ascii "INSTALLATION_ID", Guid.format installation), (ascii "CURRENT_VERSION", version),
   (ascii "CURRENT_MANIFEST_SHA256", bytesToHex (Sha256.hash manifest)),
   (ascii "CURRENT_CONFIRMED", if yes then ascii "yes" else ascii "no")]

/-- `encode` into a buffer of `capacity` bytes. -/
def encode (capacity : Nat) (installation : Guid) (version manifest : Bytes) (yes : Bool) : Option Bytes :=
  let text := bom ++ (recordFields installation version manifest yes).flatMap (fun f => fieldText f ++ [13, 10])
  if text.length ≤ capacity then some text else none

/-! ## Versions that are taken -/

theorem foldl_ge (text : Bytes) : ∀ n : Nat, n * 10 ^ text.length ≤ text.foldl (fun n c => n * 10 + (c.toNat - 48)) n := by
  induction text with
  | nil => intro n; simp
  | cons c rest ih =>
    intro n
    have h := ih (n * 10 + (c.toNat - 48))
    rw [List.foldl_cons, List.length_cons, pow_succ]
    refine Nat.le_trans ?_ h
    rw [Nat.mul_comm (10 ^ rest.length), ← Nat.mul_assoc]
    exact Nat.mul_le_mul_right _ (Nat.le_add_right _ _)

theorem component_ok {value : Bytes} {n : Nat} (h : parseComponent value = some n) :
    value.length ≤ 10 ∧ ∀ c ∈ value, isDigit c = true := by
  unfold parseComponent at h
  split at h
  · cases h
  · rename_i hlead
    split at h
    · cases h
    · rename_i hdigits
      dsimp only at h
      split at h
      · rename_i hlt
        have hall : ∀ c ∈ value, isDigit c = true := by
          simpa using hdigits
        refine ⟨?_, hall⟩
        cases value with
        | nil => simp
        | cons c rest =>
          cases rest with
          | nil => simp
          | cons d rest =>
            have hc : c ≠ 48 := by simpa using hlead
            have hdigit := hall c (by simp)
            simp only [isDigit, Bool.and_eq_true, decide_eq_true_eq] at hdigit
            have hpos : 1 ≤ c.toNat - 48 := by
              have h1 : (48 : UInt8).toNat ≤ c.toNat := hdigit.1
              have h2 : c.toNat ≠ (48 : UInt8).toNat := fun he => hc (UInt8.toNat_inj.1 he)
              have h3 : (48 : UInt8).toNat = 48 := rfl
              omega
            have hge := foldl_ge (d :: rest) (0 * 10 + (c.toNat - 48))
            rw [List.foldl_cons] at hlt
            have hpow : 10 ^ (d :: rest).length < 10 ^ 10 := by
              have : 1 * 10 ^ (d :: rest).length ≤ (0 * 10 + (c.toNat - 48)) * 10 ^ (d :: rest).length :=
                Nat.mul_le_mul_right _ (by omega)
              omega
            have := (Nat.pow_lt_pow_iff_right (by decide)).1 hpow
            rw [List.length_cons]
            omega
      · cases h

/-- **A version text** has digits and dots, and at most thirty-two of them. -/
theorem version_ok {value : Bytes} (h : parseSemanticVersion value ≠ none) :
    value ≠ [] ∧ value.length ≤ 32 ∧ ∀ c ∈ value, c = 46 ∨ isDigit c = true := by
  unfold parseSemanticVersion at h
  split at h
  · exact absurd rfl h
  · rename_i hne
    have hnil : value ≠ [] := by
      rintro rfl
      simp at hne
    split at h
    · rename_i a b c hparts
      obtain ⟨version, hversion⟩ := Option.ne_none_iff_exists'.1 h
      simp only [Option.bind_eq_bind, Option.bind_eq_some_iff] at hversion
      obtain ⟨x, ha, y, hb, z, hc, -⟩ := hversion
      have hjoin : value = a ++ 46 :: (b ++ 46 :: c) := by
        have hjoin : [46].intercalate (value.splitOn 46) = value := List.intercalate_splitOn 46
        rw [← hjoin, hparts]
        simp [List.intercalate]
      obtain ⟨ha, hadigits⟩ := component_ok ha
      obtain ⟨hb, hbdigits⟩ := component_ok hb
      obtain ⟨hc, hcdigits⟩ := component_ok hc
      refine ⟨hnil, ?_, fun k hk => ?_⟩
      · rw [hjoin]
        simp only [List.length_append, List.length_cons]
        omega
      · rw [hjoin] at hk
        simp only [List.mem_append, List.mem_cons] at hk
        rcases hk with hk | rfl | hk | rfl | hk
        · exact .inr (hadigits k hk)
        · exact .inl rfl
        · exact .inr (hbdigits k hk)
        · exact .inl rfl
        · exact .inr (hcdigits k hk)
    · exact absurd rfl h

/-! ## Lines -/

theorem splitField_eq {text key value : Bytes} (h : splitField text = some (key, value)) :
    text = fieldText (key, value) ∧ 61 ∉ key := by
  unfold splitField at h
  rw [Option.map_eq_some_iff] at h
  obtain ⟨i, hi, hpair⟩ := h
  cases hpair
  rw [List.idxOf?, List.findIdx?_eq_some_iff_getElem] at hi
  obtain ⟨hlt, hat, hbefore⟩ := hi
  constructor
  · have hbyte : text[i] = 61 := beq_iff_eq.1 hat
    rw [fieldText, ← hbyte, ← List.drop_eq_getElem_cons hlt, List.take_append_drop]
  · intro hmem
    obtain ⟨j, hj, he⟩ := List.mem_iff_getElem.1 hmem
    rw [List.length_take] at hj
    rw [List.getElem_take] at he
    exact hbefore j (by omega) (by simpa using he)

theorem splitField_text {key : Bytes} (h : 61 ∉ key) (value : Bytes) :
    splitField (fieldText (key, value)) = some (key, value) := by
  have hat : (fieldText (key, value)).idxOf? 61 = some key.length := by
    rw [List.idxOf?, List.findIdx?_eq_some_iff_getElem]
    refine ⟨by simp [fieldText], by simp [fieldText], fun j hj => ?_⟩
    simp only [fieldText, List.getElem_append_left hj, beq_iff_eq]
    exact fun he => h (he ▸ List.getElem_mem hj)
  rw [splitField, hat]
  simp [fieldText]

/-- The slot of a key. -/
def slot (keys out : List Bytes) (key : Bytes) : Bytes := out.getD (keys.idxOf key) []

theorem slot_set {keys out : List Bytes} (hlen : out.length = keys.length) {key : Bytes} (hkey : key ∈ keys)
    (value other : Bytes) :
    slot keys (out.set (keys.idxOf key) value) other = if other = key then value else slot keys out other := by
  have hlt : keys.idxOf key < out.length := hlen ▸ List.idxOf_lt_length_iff.2 hkey
  unfold slot
  rw [List.getD_eq_getElem?_getD, List.getD_eq_getElem?_getD, List.getElem?_set]
  by_cases he : other = key
  · subst he
    rw [if_pos rfl, if_pos hlt, if_pos rfl, Option.getD_some]
  · rw [if_neg (fun h => he ((List.idxOf_inj hkey).1 h).symm), if_neg he]

/-- **What a line can do**: nothing when it is empty, else fill the empty slot of its key. -/
theorem fieldLine_cases {keys out next : List Bytes} {raw : Bytes} (h : fieldLine keys out raw = some next) :
    (trimEnd raw = [] ∧ next = out) ∨
    ∃ key value, trimEnd raw = fieldText (key, value) ∧ valueBad value = false ∧ key ∈ keys ∧ slot keys out key = [] ∧
      next = out.set (keys.idxOf key) value := by
  unfold fieldLine at h
  split at h
  · rename_i hempty
    cases h
    exact .inl ⟨hempty, rfl⟩
  · split at h
    · cases h
    · rename_i key value hsplit
      split at h
      · cases h
      · rename_i hgood
        split at h
        · cases h
        · rename_i hkey
          split at h
          · cases h
          · rename_i hslot
            cases h
            exact .inr ⟨key, value, (splitField_eq hsplit).1, by simpa using hgood, not_not.1 hkey, not_not.1 hslot, rfl⟩

/-- The lines that are not empty. -/
def fullLines (raws : List Bytes) : List Bytes := (raws.map trimEnd).filter (fun line => !line.isEmpty)

/-- What a run over the lines has read. -/
structure Filled (keys out next : List Bytes) (fs : List (Bytes × Bytes)) : Prop where
  length : next.length = out.length
  nodup : (fs.map Prod.fst).Nodup
  read : ∀ f ∈ fs, f.1 ∈ keys ∧ f.2 ≠ [] ∧ slot keys out f.1 = [] ∧ slot keys next f.1 = f.2
  rest : ∀ key, key ∉ fs.map Prod.fst → slot keys next key = slot keys out key

theorem ne_nil_of_good {value : Bytes} (h : valueBad value = false) : value ≠ [] := by
  rintro rfl
  cases h

/-- **Every value that was read stands in a line of its own.** -/
theorem foldlM_filled {keys : List Bytes} : ∀ (raws out next : List Bytes), out.length = keys.length →
    raws.foldlM (fieldLine keys) out = some next →
    ∃ fs, fullLines raws = fs.map fieldText ∧ Filled keys out next fs
  | [], out, next, _, h => by
    cases h
    exact ⟨[], rfl, rfl, List.nodup_nil, nofun, fun _ _ => rfl⟩
  | raw :: raws, out, next, hlen, h => by
    rw [List.foldlM_cons, Option.bind_eq_bind, Option.bind_eq_some_iff] at h
    obtain ⟨mid, hline, hrest⟩ := h
    rcases fieldLine_cases hline with ⟨hempty, rfl⟩ | ⟨key, value, htext, hgood, hkey, hslot, rfl⟩
    · obtain ⟨fs, hfs, hfilled⟩ := foldlM_filled raws mid next hlen hrest
      refine ⟨fs, ?_, hfilled⟩
      rw [← hfs, fullLines, fullLines, List.map_cons, hempty]
      rfl
    · obtain ⟨fs, hfs, hfilled⟩ := foldlM_filled raws _ next (by rw [List.length_set, hlen]) hrest
      have hnew : key ∉ fs.map Prod.fst := by
        intro hmem
        obtain ⟨f, hf, rfl⟩ := List.mem_map.1 hmem
        have hfull := (hfilled.read f hf).2.2.1
        rw [slot_set hlen hkey, if_pos rfl] at hfull
        exact ne_nil_of_good hgood hfull
      refine ⟨(key, value) :: fs, ?_, ?_, List.nodup_cons.2 ⟨hnew, hfilled.nodup⟩, ?_, fun other hother => ?_⟩
      · rw [List.map_cons, ← hfs, fullLines, fullLines, List.map_cons, htext, List.filter_cons_of_pos]
        simp [fieldText]
      · rw [hfilled.length, List.length_set]
      · intro f hf
        rcases List.mem_cons.1 hf with rfl | hf
        · refine ⟨hkey, ne_nil_of_good hgood, hslot, ?_⟩
          rw [hfilled.rest _ hnew, slot_set hlen hkey, if_pos rfl]
        · obtain ⟨hmem, hvalue, hbefore, hafter⟩ := hfilled.read f hf
          refine ⟨hmem, hvalue, ?_, hafter⟩
          rwa [slot_set hlen hkey, if_neg] at hbefore
          intro he
          exact hnew (he ▸ List.mem_map_of_mem hf)
      · rw [List.map_cons, List.mem_cons, not_or] at hother
        rw [hfilled.rest other hother.2, slot_set hlen hkey, if_neg hother.1]

/-- **A text that parses** is short, starts with the mark, and its lines have every name once and nothing else. -/
theorem fields_ok {keys out : List Bytes} {bytes : Bytes} (hkeys : keys.Nodup) (h : fields keys bytes = some out) :
    bytes.length ≤ maximum ∧ bom <+: bytes ∧ ∃ fs : List (Bytes × Bytes), fullLines ((bytes.drop 3).splitOn 10) = fs.map fieldText ∧
      (fs.map Prod.fst).Perm keys ∧ ∀ f ∈ fs, f.2 ≠ [] ∧ slot keys out f.1 = f.2 := by
  unfold fields at h
  split at h
  · cases h
  · rename_i hhead
    simp only [Bool.or_eq_true, decide_eq_true_eq, Bool.not_eq_true', not_or, Bool.not_eq_false, Nat.not_lt] at hhead
    rw [Option.bind_eq_bind, Option.bind_eq_some_iff] at h
    obtain ⟨next, hrun, h⟩ := h
    split at h
    · cases h
    · rename_i hfull
      split at h
      · cases h
      · cases h
        obtain ⟨fs, hfs, hfilled⟩ := foldlM_filled _ _ _ List.length_replicate hrun
        refine ⟨hhead.1, List.isPrefixOf_iff_prefix.1 hhead.2, fs, hfs, ?_, fun f hf => ?_⟩
        · refine (List.perm_ext_iff_of_nodup hfilled.nodup hkeys).2 (fun key => ⟨fun hmem => ?_, fun hmem => ?_⟩)
          · obtain ⟨f, hf, rfl⟩ := List.mem_map.1 hmem
            exact (hfilled.read f hf).1
          · by_contra hnone
            have hslot := hfilled.rest key hnone
            -- a name without a line has kept its empty slot
            have hlt : keys.idxOf key < out.length := by
              rw [hfilled.length, List.length_replicate]
              exact List.idxOf_lt_length_iff.2 hmem
            have hempty : slot keys out key = [] := by
              rw [hslot, slot, List.getD_eq_getElem?_getD, List.getElem?_replicate]
              split <;> rfl
            rw [slot, List.getD_eq_getElem?_getD, List.getElem?_eq_getElem hlt, Option.getD_some] at hempty
            have hany : out.any List.isEmpty = true :=
              List.any_eq_true.2 ⟨_, List.getElem_mem hlt, by rw [hempty]; rfl⟩
            exact hfull hany
        · exact ⟨(hfilled.read f hf).2.1, (hfilled.read f hf).2.2.2⟩

/-! ## Records that are written -/

theorem bytesToHex_cons (c : UInt8) (bytes : Bytes) : bytesToHex (c :: bytes) =
    Guid.hex.getD (c.toNat / 16) 0 :: Guid.hex.getD (c.toNat % 16) 0 :: bytesToHex bytes := rfl

/-- A lower case digit. -/
def lowerHex (c : UInt8) : Bool := isDigit c || (decide (97 ≤ c) && decide (c ≤ 102))

theorem lowerHex_hex : ∀ n : Fin 16, lowerHex (Guid.hex.getD n 0) = true := by decide

theorem lowerHex_bytesToHex : ∀ bytes : Bytes, ∀ c ∈ bytesToHex bytes, lowerHex c = true
  | [], c, h => by cases h
  | b :: bytes, c, h => by
    have hlt := b.toNat_lt
    rw [bytesToHex_cons, List.mem_cons, List.mem_cons] at h
    rcases h with rfl | rfl | h
    · exact lowerHex_hex ⟨b.toNat / 16, by omega⟩
    · exact lowerHex_hex ⟨b.toNat % 16, by omega⟩
    · exact lowerHex_bytesToHex bytes c h

theorem length_bytesToHex : ∀ bytes : Bytes, (bytesToHex bytes).length = 2 * bytes.length
  | [] => rfl
  | b :: bytes => by
    rw [bytesToHex_cons, List.length_cons, List.length_cons, length_bytesToHex bytes, List.length_cons]
    omega

theorem hexToBytes_bytesToHex : ∀ bytes : Bytes, hexToBytes (bytesToHex bytes) = some bytes
  | [] => rfl
  | b :: bytes => by
    have hlt := b.toNat_lt
    have h1 := Guid.nibble_hex ⟨b.toNat / 16, by omega⟩
    have h2 := Guid.nibble_hex ⟨b.toNat % 16, by omega⟩
    rw [bytesToHex_cons, hexToBytes, h1, h2, hexToBytes_bytesToHex bytes]
    simp only [Option.bind_eq_bind, Option.bind_some, Guid.nibbles]
    rfl

/-- **A written digest reads back.** -/
theorem digest_bytesToHex {bytes : Bytes} (h : bytes.length = 32) : digest (bytesToHex bytes) = some bytes := by
  unfold digest
  rw [if_neg (by rw [length_bytesToHex, h]; simp), if_neg, hexToBytes_bytesToHex]
  rw [Bool.not_eq_true, List.any_eq_false]
  intro c hc
  have hlower := lowerHex_bytesToHex bytes c hc
  simp only [lowerHex, Bool.or_eq_true, Bool.and_eq_true, decide_eq_true_eq] at hlower
  rcases hlower with h | ⟨h1, h2⟩
  · simp [h]
  · simp only [Bool.and_eq_true, Bool.or_eq_true, decide_eq_true_eq, not_and, not_or, UInt8.not_lt]
    exact fun _ => ⟨h1, h2⟩

/-- A key and a value that can stand in a line. -/
def Good (f : Bytes × Bytes) : Prop := 61 ∉ f.1 ∧ 10 ∉ f.1 ∧ valueBad f.2 = false

theorem Good.value {f : Bytes × Bytes} (h : Good f) : f.2 ≠ [] ∧ 13 ∉ f.2 ∧ 10 ∉ f.2 := by
  have hbad := h.2.2
  unfold valueBad at hbad
  rw [Bool.or_eq_false_iff, List.any_eq_false] at hbad
  refine ⟨fun he => by simp [he] at hbad, fun hc => ?_, fun hc => ?_⟩
  · exact hbad.2 13 hc rfl
  · exact hbad.2 10 hc rfl

theorem valueBad_eq_false {value : Bytes} (hne : value ≠ []) (h : ∀ c ∈ value, 32 < c) : valueBad value = false := by
  unfold valueBad
  rw [Bool.or_eq_false_iff, List.any_eq_false]
  refine ⟨by simpa using hne, fun c hc hbad => ?_⟩
  have hgt := h c hc
  simp only [Bool.or_eq_true, beq_iff_eq] at hbad
  rcases hbad with (rfl | rfl) | rfl <;> exact absurd hgt (by decide)

theorem trimEnd_text {f : Bytes × Bytes} (h : Good f) : trimEnd (fieldText f ++ [13]) = fieldText f := by
  obtain ⟨hne, hcr, -⟩ := h.value
  rw [trimEnd, List.rdropWhile_concat_pos _ _ _ rfl]
  rcases List.eq_nil_or_concat f.2 with he | ⟨init, last, he⟩
  · exact absurd he hne
  · have htext : fieldText f = (f.1 ++ 61 :: init) ++ [last] := by
      rw [fieldText, he, List.concat_eq_append]
      simp
    rw [htext, List.rdropWhile_concat_neg]
    rw [he] at hcr
    simp only [List.concat_eq_append, List.mem_append, List.mem_singleton, not_or] at hcr
    simpa using Ne.symm hcr.2

/-- **Fields in their order fill their slots.** -/
theorem foldlM_texts : ∀ (fs pre : List (Bytes × Bytes)), ((pre ++ fs).map Prod.fst).Nodup → (∀ f ∈ fs, Good f) →
    (fs.map (fun f => fieldText f ++ [13])).foldlM (fieldLine ((pre ++ fs).map Prod.fst))
      (pre.map Prod.snd ++ List.replicate fs.length []) = some ((pre ++ fs).map Prod.snd)
  | [], pre, _, _ => by
    simp
  | f :: fs, pre, hnodup, hgood => by
    have hf := hgood f (List.mem_cons_self)
    have hkeys : (pre ++ f :: fs).map Prod.fst = pre.map Prod.fst ++ f.1 :: fs.map Prod.fst := by simp
    have hindex : ((pre ++ f :: fs).map Prod.fst).idxOf f.1 = pre.length := by
      rw [hkeys] at hnodup ⊢
      rw [List.idxOf_append_of_notMem, List.idxOf_cons_self, List.length_map, Nat.add_zero]
      intro hmem
      exact (List.nodup_append.1 hnodup).2.2 _ hmem _ (List.mem_cons_self) rfl
    have hmem : f.1 ∈ (pre ++ f :: fs).map Prod.fst := by simp
    have hline : fieldLine ((pre ++ f :: fs).map Prod.fst) (pre.map Prod.snd ++ List.replicate (f :: fs).length [])
        (fieldText f ++ [13]) = some ((pre ++ [f]).map Prod.snd ++ List.replicate fs.length []) := by
      unfold fieldLine
      rw [trimEnd_text hf, if_neg (by simp [fieldText]), splitField_text hf.1]
      dsimp only
      rw [if_neg (by simp [hf.2.2]), if_neg (not_not.2 hmem), hindex, if_neg, Option.some_inj]
      · rw [List.set_append_right _ _ (by simp), List.length_map, Nat.sub_self, List.length_cons, List.replicate_succ,
          List.set_cons_zero, List.map_append]
        simp
      · rw [not_not, List.getD_eq_getElem?_getD, List.getElem?_append_right (by simp), List.length_map, Nat.sub_self]
        rfl
    rw [List.map_cons, List.foldlM_cons, hline]
    have := foldlM_texts fs (pre ++ [f]) (by simpa using hnodup) (fun g hg => hgood g (List.mem_cons_of_mem _ hg))
    simpa using this

/-- The text of a record. -/
def recordText (fs : List (Bytes × Bytes)) : Bytes := bom ++ fs.flatMap (fun f => fieldText f ++ [13, 10])

theorem recordText_lines (fs : List (Bytes × Bytes)) :
    (recordText fs).drop 3 = (fs.map (fun f => fieldText f ++ [13])).flatMap (· ++ [10]) := by
  rw [recordText, List.flatMap_map]
  simp [bom]

theorem newline_free {fs : List (Bytes × Bytes)} (h : ∀ f ∈ fs, Good f) :
    ∀ l ∈ fs.map (fun f => fieldText f ++ [13]), (10 : UInt8) ∉ l := by
  intro l hl
  obtain ⟨f, hf, rfl⟩ := List.mem_map.1 hl
  obtain ⟨-, hkey, -⟩ := h f hf
  obtain ⟨-, -, hvalue⟩ := (h f hf).value
  simp [fieldText, hkey, hvalue]

/-- **A written record parses to its values.** -/
theorem fields_recordText (fs : List (Bytes × Bytes)) (hnodup : (fs.map Prod.fst).Nodup) (hgood : ∀ f ∈ fs, Good f)
    (hsize : (recordText fs).length ≤ maximum) (hformat : (fs.map Prod.snd).getD 0 [] = ascii "1")
    (hversion : (fs.map Prod.snd).getD 2 [] = ascii "1") :
    fields (fs.map Prod.fst) (recordText fs) = some (fs.map Prod.snd) := by
  have hmark : startsWith (recordText fs) bom = true := startsWith_append bom _
  have hrun := foldlM_texts fs [] hnodup hgood
  rw [List.nil_append] at hrun
  unfold fields
  rw [if_neg (by simp [hmark, hsize]), recordText_lines, splitOn_newlines _ (newline_free hgood), List.foldlM_append,
    List.length_map]
  rw [List.map_nil, List.nil_append] at hrun
  rw [hrun]
  have hfull : ((fs.map Prod.snd).any List.isEmpty) = false := by
    rw [List.any_eq_false]
    intro value hvalue
    obtain ⟨f, hf, rfl⟩ := List.mem_map.1 hvalue
    simpa using (hgood f hf).value.1
  -- the empty text behind the last line is skipped
  show (if (fs.map Prod.snd).any List.isEmpty then none
    else if (fs.map Prod.snd).getD 0 [] ≠ ascii "1" ∨ (fs.map Prod.snd).getD 2 [] ≠ ascii "1" then none
    else some (fs.map Prod.snd)) = _
  rw [if_neg (by simp only [hfull]; decide), if_neg (by simp only [hformat, hversion]; decide)]

/-! ## Cut records -/

theorem prefix_lines : ∀ (ls : List Bytes) (p : Bytes), p <+: ls.flatMap (· ++ [10]) →
    ∃ j t, j ≤ ls.length ∧ p = (ls.take j).flatMap (· ++ [10]) ++ t ∧ t <+: ls.getD j []
  | [], p, h => by
    rw [List.flatMap_nil, List.prefix_nil] at h
    exact ⟨0, [], Nat.le_refl _, by simpa using h, List.nil_prefix⟩
  | l :: ls, p, h => by
    rw [List.flatMap_cons] at h
    have hcase : p <+: l ∨ l ++ [10] <+: p := by
      rcases List.prefix_or_prefix_of_prefix h (List.prefix_append (l ++ [10]) _) with hp | hp
      · rcases List.prefix_concat_iff.1 hp with rfl | hp
        · exact .inr (List.prefix_refl _)
        · exact .inl hp
      · exact .inr hp
    rcases hcase with hp | ⟨q, rfl⟩
    · exact ⟨0, p, Nat.zero_le _, rfl, hp⟩
    · rw [List.prefix_append_right_inj] at h
      obtain ⟨j, t, hj, rfl, ht⟩ := prefix_lines ls q h
      exact ⟨j + 1, t, by simpa using hj, by simp, ht⟩

theorem splitOn_lines {ls : List Bytes} (h : ∀ l ∈ ls, (10 : UInt8) ∉ l) {t : Bytes} (ht : (10 : UInt8) ∉ t) :
    (ls.flatMap (· ++ [10]) ++ t).splitOn 10 = ls ++ [t] := by
  induction ls with
  | nil => simpa using List.splitOn_eq_singleton ht
  | cons l ls ih =>
    rw [List.flatMap_cons, List.append_assoc, List.append_assoc, List.singleton_append,
      List.splitOn_append_cons_self_of_not_mem (h l (by simp)), ih (fun l hl => h l (by simp [hl]))]
    rfl

theorem confirmed_cases {bytes : Bytes} {installation : Guid} {version manifest : Bytes}
    (h : confirmed bytes installation version manifest = true) : ∃ out, fields names bytes = some out ∧
    slot names out (ascii "CURRENT_CONFIRMED") = ascii "yes" := by
  unfold confirmed at h
  split at h
  · cases h
  · rename_i out hout
    simp only [Bool.and_eq_true, beq_iff_eq] at h
    exact ⟨out, hout, h.2⟩

theorem names_nodup : names.Nodup := by decide

theorem length_fullLines (raws : List Bytes) : (fullLines raws).length ≤ raws.length := by
  have := List.length_filter_le (fun line : Bytes => !line.isEmpty) (raws.map trimEnd)
  rwa [List.length_map] at this

/-- **A cut record confirms nothing.** -/
theorem cut_rejected {fs : List (Bytes × Bytes)} (hnames : fs.map Prod.fst = names) (hgood : ∀ f ∈ fs, Good f)
    (hword : ((fs.map Prod.snd).getD 6 []).length ≤ 3) {part : Bytes} (hpart : part <+: recordText fs)
    (hcut : part.length + 2 < (recordText fs).length) (installation : Guid) (version manifest : Bytes) :
    confirmed part installation version manifest = false := by
  rw [← Bool.not_eq_true]
  intro hconfirmed
  obtain ⟨out, hout, hyes⟩ := confirmed_cases hconfirmed
  obtain ⟨-, ⟨rest, rfl⟩, gs, hlines, hperm, hread⟩ := fields_ok names_nodup hout
  -- the lines of the part
  have hrest : rest <+: (fs.map (fun f => fieldText f ++ [13])).flatMap (· ++ [10]) := by
    rw [← recordText_lines]
    exact (List.prefix_append_right_inj bom).1 hpart
  obtain ⟨j, t, hj, rfl, ht⟩ := prefix_lines _ _ hrest
  have hfree := newline_free hgood
  have hsplit : ((bom ++ (((fs.map (fun f => fieldText f ++ [13])).take j).flatMap (· ++ [10]) ++ t)).drop 3).splitOn 10 =
      (fs.map (fun f => fieldText f ++ [13])).take j ++ [t] := by
    refine splitOn_lines (fun l hl => hfree l (List.mem_of_mem_take hl)) (fun hmem => ?_)
    have := ht.subset hmem
    rw [List.getD_eq_getElem?_getD] at this
    cases hget : (fs.map (fun f => fieldText f ++ [13]))[j]? with
    | none => simp [hget] at this
    | some l =>
      rw [hget] at this
      exact hfree l (List.mem_of_getElem? hget) this
  rw [hsplit] at hlines
  have hsize : 7 ≤ j + 1 := by
    have h1 := length_fullLines ((fs.map (fun f => fieldText f ++ [13])).take j ++ [t])
    have h2 := hperm.length_eq
    have h3 : names.length = 7 := rfl
    rw [hlines, List.length_map, List.length_append, List.length_take, List.length_singleton] at h1
    rw [List.length_map] at h2
    omega
  -- the part ends in the last line
  rcases List.eq_nil_or_concat fs with rfl | ⟨init, last, rfl⟩
  · simp [names] at hnames
  rw [List.concat_eq_append] at *
  have hinit : init.map Prod.fst = names.take 6 ∧ last.1 = ascii "CURRENT_CONFIRMED" := by
    have hcat : names = names.take 6 ++ [ascii "CURRENT_CONFIRMED"] := rfl
    rw [hcat, List.map_append, List.map_singleton] at hnames
    obtain ⟨h1, h2⟩ := List.append_inj' hnames rfl
    exact ⟨h1, by simpa using h2⟩
  have hsix : init.length = 6 := by
    have := congrArg List.length hinit.1
    rwa [List.length_map] at this
  have hbound : j ≤ 7 := by
    rw [List.length_map, List.length_append, hsix] at hj
    exact hj
  have htext : recordText (init ++ [last]) =
      bom ++ (((init.map (fun f => fieldText f ++ [13])).flatMap (· ++ [10])) ++ (fieldText last ++ [13, 10])) := by
    simp [recordText, List.flatMap_map]
  have hj6 : j = 6 := by
    by_contra hne
    obtain rfl : j = 7 := by omega
    have hall : ((init ++ [last]).map (fun f => fieldText f ++ [13])).take 7 =
        (init ++ [last]).map (fun f => fieldText f ++ [13]) := List.take_of_length_le (by simp [hsix])
    rw [hall] at hcut
    rw [htext] at hcut
    simp only [List.map_append, List.map_singleton, List.flatMap_append, List.flatMap_singleton, List.length_append,
      List.length_cons, List.length_nil] at hcut
    omega
  subst hj6
  have htake : ((init ++ [last]).map (fun f => fieldText f ++ [13])).take 6 = init.map (fun f => fieldText f ++ [13]) := by
    rw [List.map_append, List.take_append_of_le_length (by simp [hsix]), List.take_of_length_le (by simp [hsix])]
  rw [htake] at hlines hcut
  have hshort : t.length < 21 := by
    rw [List.map_append, List.getD_eq_getElem?_getD, List.getElem?_append_right (by simp [hsix]), List.length_map,
      hsix] at hword
    have hlen : last.2.length ≤ 3 := hword
    have hkey : (ascii "CURRENT_CONFIRMED").length = 17 := rfl
    rw [htext] at hcut
    simp only [List.length_append, List.length_cons, List.length_nil, fieldText, hinit.2, hkey] at hcut
    omega
  -- but the line that says yes is none of its lines
  obtain ⟨g, hg, hkey⟩ := List.mem_map.1 (hperm.symm.subset (show ascii "CURRENT_CONFIRMED" ∈ names by decide))
  have hvalue : g.2 = ascii "yes" := by rw [← (hread g hg).2, hkey, hyes]
  have hmem : fieldText g ∈ fullLines (init.map (fun f => fieldText f ++ [13]) ++ [t]) := by
    rw [hlines]
    exact List.mem_map_of_mem hg
  obtain ⟨raw, hraw, htrim⟩ := List.mem_map.1 (List.mem_of_mem_filter hmem)
  rcases List.mem_append.1 hraw with hraw | hraw
  · obtain ⟨f, hf, rfl⟩ := List.mem_map.1 hraw
    have hfgood := hgood f (List.mem_append_left _ hf)
    rw [trimEnd_text hfgood] at htrim
    have hsame := congrArg splitField htrim
    have hgkey : 61 ∉ g.1 := by
      rw [hkey]
      decide
    rw [splitField_text hfgood.1, splitField_text hgkey] at hsame
    have hfirst : f.1 ∈ names.take 6 := hinit.1 ▸ List.mem_map_of_mem hf
    have hfg : f.1 = g.1 := by injection hsame with hsame; rw [Prod.mk.injEq] at hsame; exact hsame.1
    rw [hfg, hkey] at hfirst
    exact absurd hfirst (by decide)
  · rw [List.mem_singleton] at hraw
    subst hraw
    have hle : (trimEnd raw).length ≤ raw.length := (List.rdropWhile_prefix _ _).length_le
    rw [htrim, fieldText, hkey, hvalue] at hle
    have hline : (ascii "CURRENT_CONFIRMED" ++ 61 :: ascii "yes").length = 21 := rfl
    omega

/-! ## Confirmation -/

section Written

variable (installation : Guid) {version : Bytes} (manifest : Bytes) (yes : Bool)

theorem recordFields_names : (recordFields installation version manifest yes).map Prod.fst = names := rfl

theorem format_bytes : ∀ (os : List Nat) (i : Nat) (value : Guid), ∀ c ∈ Guid.formatFrom os i value, 32 < c
  | [], _, _, c, hc => by cases hc
  | d :: os, i, value, c, hc => by
    have hlt := (value.toArray.getD d 0).toNat_lt
    have hhex : ∀ n : Fin 16, 32 < Guid.hex.getD n 0 := by decide
    rw [Guid.formatFrom, List.mem_append, List.mem_cons, List.mem_cons] at hc
    rcases hc with hc | rfl | rfl | hc
    · split at hc
      · rw [List.mem_singleton.1 hc]
        decide
      · cases hc
    · exact hhex ⟨(value.toArray.getD d 0).toNat / 16, by omega⟩
    · exact hhex ⟨(value.toArray.getD d 0).toNat % 16, by omega⟩
    · exact format_bytes os (i + 1) value c hc

theorem lowerHex_gt {c : UInt8} (h : lowerHex c = true) : 32 < c := by
  have key : ∀ c : UInt8, lowerHex c = true → 32 < c := byte_forall (by decide +kernel)
  exact key c h

/-- **The fields of a record can be written** when its version is one. -/
theorem recordFields_good (hversion : parseSemanticVersion version ≠ none) :
    ∀ f ∈ recordFields installation version manifest yes, Good f := by
  obtain ⟨hne, -, hdigits⟩ := version_ok hversion
  have hnames : ∀ name ∈ names, 61 ∉ name ∧ 10 ∉ name := by decide
  intro f hf
  obtain ⟨h1, h2⟩ := hnames f.1 (recordFields_names installation manifest yes ▸ List.mem_map_of_mem hf)
  refine ⟨h1, h2, ?_⟩
  simp only [recordFields, List.mem_cons, List.not_mem_nil, or_false] at hf
  rcases hf with rfl | rfl | rfl | rfl | rfl | rfl | rfl
  · rfl
  · rfl
  · rfl
  · refine valueBad_eq_false (List.ne_nil_of_length_pos ?_) (format_bytes _ _ _)
    rw [Guid.length_format]
    decide
  · refine valueBad_eq_false hne (fun c hc => ?_)
    rcases hdigits c hc with rfl | hc
    · decide
    · exact lowerHex_gt (by rw [lowerHex, hc, Bool.true_or])
  · refine valueBad_eq_false (List.ne_nil_of_length_pos ?_) (fun c hc => lowerHex_gt (lowerHex_bytesToHex _ c hc))
    rw [length_bytesToHex, Sha256.length_hash]
    decide
  · cases yes <;> rfl

theorem length_record (hversion : parseSemanticVersion version ≠ none) :
    (recordText (recordFields installation version manifest yes)).length ≤ maximum := by
  obtain ⟨-, hlen, -⟩ := version_ok hversion
  have hword : (if yes then ascii "yes" else ascii "no").length ≤ 3 := by cases yes <;> decide
  have hformat := Guid.length_format installation
  have hdigest := length_bytesToHex (Sha256.hash manifest)
  rw [Sha256.length_hash] at hdigest
  simp only [recordText, recordFields, fieldText, List.flatMap_cons, List.flatMap_nil, List.length_append,
    List.length_cons, List.length_nil, hformat, hdigest]
  have hfixed : bom.length + (ascii "R4S_FORMAT").length + (ascii "1").length + (ascii "SCHEMA").length +
      (ascii "RECOVERY_STATE").length + (ascii "STATE_VERSION").length + (ascii "1").length +
      (ascii "INSTALLATION_ID").length + (ascii "CURRENT_VERSION").length +
      (ascii "CURRENT_MANIFEST_SHA256").length + (ascii "CURRENT_CONFIRMED").length ≤ 120 := by decide
  unfold maximum
  omega

theorem fields_record (hversion : parseSemanticVersion version ≠ none) :
    fields names (recordText (recordFields installation version manifest yes)) =
      some ((recordFields installation version manifest yes).map Prod.snd) :=
  fields_recordText (recordFields installation version manifest yes) names_nodup
    (recordFields_good installation manifest yes hversion) (length_record installation manifest yes hversion) rfl rfl

theorem encode_eq {capacity : Nat} {record : Bytes} (h : encode capacity installation version manifest yes = some record) :
    record = recordText (recordFields installation version manifest yes) := by
  unfold encode at h
  dsimp only at h
  split at h
  · cases h
    rfl
  · cases h

end Written

/-- **Boot confirmation is exact.**  A record that was written with `yes` confirms its own installation, version and
manifest digest and nothing else; one that was written with `no`, or cut by more than the end of its last line, confirms
nothing; and what confirms is a short text behind the mark whose lines have each of the seven names once. -/
theorem confirmed_exact (capacity : Nat) (installation : Guid) (version manifest : Bytes)
    (hversion : parseSemanticVersion version ≠ none) :
    (maximum ≤ capacity → ∀ yes, (encode capacity installation version manifest yes).isSome = true) ∧
    (∀ record, encode capacity installation version manifest true = some record →
      ∀ installation' version' manifest', confirmed record installation' version' manifest' = true ↔
        installation' = installation ∧ version' = version ∧ Sha256.hash manifest' = Sha256.hash manifest) ∧
    (∀ record, encode capacity installation version manifest false = some record →
      ∀ installation' version' manifest', confirmed record installation' version' manifest' = false) ∧
    (∀ yes record, encode capacity installation version manifest yes = some record →
      ∀ part, part <+: record → part.length + 2 < record.length →
        ∀ installation' version' manifest', confirmed part installation' version' manifest' = false) ∧
    (∀ bytes installation' version' manifest', confirmed bytes installation' version' manifest' = true →
      bytes.length ≤ maximum ∧ bom <+: bytes ∧ ∃ fs : List (Bytes × Bytes),
        fullLines ((bytes.drop 3).splitOn 10) = fs.map fieldText ∧ (fs.map Prod.fst).Perm names ∧ ∀ f ∈ fs, f.2 ≠ []) := by
  refine ⟨fun hcap yes => ?_, fun record hrecord installation' version' manifest' => ?_,
    fun record hrecord installation' version' manifest' => ?_, fun yes record hrecord part hpart hcut => ?_,
    fun bytes installation' version' manifest' h => ?_⟩
  · have hlen := length_record installation manifest yes hversion
    have htext : encode capacity installation version manifest yes =
        some (recordText (recordFields installation version manifest yes)) := if_pos (Nat.le_trans hlen hcap)
    rw [htext]
    rfl
  · rw [encode_eq installation manifest true hrecord]
    unfold confirmed
    rw [fields_record installation manifest true hversion]
    have hid : Guid.parse (Guid.format installation) = some installation := Guid.parse_format installation
    have hdigest := digest_bytesToHex (Sha256.length_hash manifest)
    simp only [recordFields, List.map_cons, List.map_nil, List.getD_cons_succ, List.getD_cons_zero, hid, hdigest, if_true,
      Bool.and_eq_true, beq_iff_eq, Option.some_inj]
    constructor
    · rintro ⟨⟨⟨⟨-, h1⟩, h2⟩, h3⟩, -⟩
      exact ⟨h1.symm, h2.symm, h3.symm⟩
    · rintro ⟨h1, h2, h3⟩
      exact ⟨⟨⟨⟨trivial, h1.symm⟩, h2.symm⟩, h3.symm⟩, trivial⟩
  · rw [encode_eq installation manifest false hrecord, ← Bool.not_eq_true]
    intro h
    obtain ⟨out, hout, hyes⟩ := confirmed_cases h
    rw [fields_record installation manifest false hversion] at hout
    cases hout
    have hno : ascii "no" = ascii "yes" := hyes
    exact absurd hno (by decide)
  · rw [encode_eq installation manifest yes hrecord] at hpart hcut
    have hword : (if yes then ascii "yes" else ascii "no").length ≤ 3 := by cases yes <;> decide
    exact fun _ _ _ => cut_rejected (recordFields_names installation manifest yes)
      (recordFields_good installation manifest yes hversion) hword hpart hcut _ _ _
  · obtain ⟨out, hout, -⟩ := confirmed_cases h
    obtain ⟨hlen, hmark, fs, hlines, hperm, hread⟩ := fields_ok names_nodup hout
    exact ⟨hlen, hmark, fs, hlines, hperm, fun f hf => (hread f hf).1⟩

theorem confirmed_exact_release : ∃ record, encode maximum Guid.zero (ascii "0.1.17") [1, 2, 3] true = some record ∧
    confirmed record Guid.zero (ascii "0.1.17") [1, 2, 3] = true := by
  have h := confirmed_exact maximum Guid.zero (ascii "0.1.17") [1, 2, 3] (by decide)
  obtain ⟨record, hrecord⟩ := Option.isSome_iff_exists.1 (h.1 (Nat.le_refl _) true)
  exact ⟨record, hrecord, (h.2.1 record hrecord _ _ _).2 ⟨rfl, rfl, rfl⟩⟩

end RecoveryState
end R4
