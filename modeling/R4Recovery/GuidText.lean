import R4Recovery.Lines
import R4Recovery.GptFormat
/-!
# GuidText — the text of a GUID

`guid.zig` of the tools and of the kernel.  Both write the GPT byte order as lower case text; the tools also read upper
case digits, the kernel does not.  What is written reads back in the kernel (`kernelParse_format`).
-/
namespace R4
namespace Gpt
namespace Guid

/-- The bytes of a GUID in the order of its text. -/
def order : List Nat := [3, 2, 1, 0, 5, 4, 7, 6, 8, 9, 10, 11, 12, 13, 14, 15]

def dashBefore (i : Nat) : Bool := i == 4 || i == 6 || i == 8 || i == 10

def nibble (c : UInt8) : Option UInt8 :=
  if 48 ≤ c ∧ c ≤ 57 then some (c - 48)
  else if 97 ≤ c ∧ c ≤ 102 then some (c - 97 + 10)
  else if 65 ≤ c ∧ c ≤ 70 then some (c - 65 + 10)
  else none

def kernelNibble (c : UInt8) : Option UInt8 :=
  if 48 ≤ c ∧ c ≤ 57 then some (c - 48)
  else if 97 ≤ c ∧ c ≤ 102 then some (c - 97 + 10)
  else none

/-- The dash that stands before digit pair `i`. -/
def skipDash (i : Nat) (text : Bytes) : Option Bytes :=
  if dashBefore i then (if text.head? = some 45 then some (text.drop 1) else none) else some text

def parseFrom (digit : UInt8 → Option UInt8) : List Nat → Nat → Bytes → Guid → Option Guid
  | [], _, _, result => some result
  | destination :: rest, i, text, result => do
    match ← skipDash i text with
    | a :: b :: text => do
      let hi ← digit a
      let lo ← digit b
      parseFrom digit rest (i + 1) text (result.setIfInBounds destination (hi * 16 + lo))
    | _ => none

def parseWith (digit : UInt8 → Option UInt8) (text : Bytes) : Option Guid :=
  if text.length ≠ 36 then none else parseFrom digit order 0 text zero

def parse : Bytes → Option Guid := parseWith nibble

def kernelParse : Bytes → Option Guid := parseWith kernelNibble

def hex : Bytes := ascii "0123456789abcdef"

def formatFrom : List Nat → Nat → Guid → Bytes
  | [], _, _ => []
  | source :: rest, i, value =>
    (if dashBefore i then [45] else []) ++
      (hex.getD ((value.toArray.getD source 0).toNat / 16) 0 :: hex.getD ((value.toArray.getD source 0).toNat % 16) 0 ::
        formatFrom rest (i + 1) value)

def format (value : Guid) : Bytes := formatFrom order 0 value

/-- The digits that are written read back. -/
def ReadsHex (digit : UInt8 → Option UInt8) : Prop := ∀ n : Fin 16, digit (hex.getD n 0) = some (UInt8.ofNat n)

theorem nibble_hex : ReadsHex nibble := by unfold ReadsHex; decide

theorem kernelNibble_hex : ReadsHex kernelNibble := by unfold ReadsHex; decide

theorem nibbles (c : UInt8) : UInt8.ofNat (c.toNat / 16) * 16 + UInt8.ofNat (c.toNat % 16) = c := by
  have hlt := c.toNat_lt
  refine UInt8.toNat_inj.1 ?_
  simp only [UInt8.toNat_add, UInt8.toNat_mul, UInt8.toNat_ofNat', UInt8.toNat_ofNat]
  omega

theorem skipDash_format (i : Nat) {s : Bytes} : skipDash i ((if dashBefore i then [45] else []) ++ s) = some s := by
  unfold skipDash
  by_cases h : dashBefore i = true
  · simp [h]
  · simp [h]

theorem parseFrom_formatFrom {digit : UInt8 → Option UInt8} (hdigit : ReadsHex digit) :
    ∀ (os : List Nat) (i : Nat) (value result : Guid),
    parseFrom digit os i (formatFrom os i value) result =
      some (os.foldl (fun r d => r.setIfInBounds d (value.toArray.getD d 0)) result)
  | [], _, _, _ => rfl
  | d :: os, i, value, result => by
    have hlt := (value.toArray.getD d 0).toNat_lt
    have h1 := hdigit ⟨(value.toArray.getD d 0).toNat / 16, by omega⟩
    have h2 := hdigit ⟨(value.toArray.getD d 0).toNat % 16, by omega⟩
    rw [formatFrom, parseFrom, skipDash_format]
    simp only [Option.bind_eq_bind, Option.bind_some, h1, h2, nibbles, List.foldl_cons]
    exact parseFrom_formatFrom hdigit os (i + 1) value _

theorem length_formatFrom : ∀ (os : List Nat) (i : Nat) (value : Guid),
    (formatFrom os i value).length = 2 * os.length + ((List.range' i os.length).filter dashBefore).length
  | [], _, _ => rfl
  | d :: os, i, value => by
    rw [formatFrom, List.length_append, List.length_cons, List.length_cons, length_formatFrom os (i + 1) value, List.length_cons,
      List.range'_succ, List.filter_cons]
    by_cases h : dashBefore i = true
    · rw [if_pos h, if_pos h]
      simp only [List.length_cons, List.length_nil]
      omega
    · rw [if_neg h, if_neg h]
      simp only [List.length_nil]
      omega

theorem length_format (value : Guid) : (format value).length = 36 := by
  rw [format, length_formatFrom]
  decide

theorem getElem_foldl_set (f : Nat → UInt8) {i : Nat} (hi : i < 16) : ∀ (os : List Nat) (result : Guid),
    (os.foldl (fun r d => r.setIfInBounds d (f d)) result)[i] = if i ∈ os then f i else result[i]
  | [], result => by simp
  | d :: os, result => by
    rw [List.foldl_cons, getElem_foldl_set f hi os, Vector.getElem_setIfInBounds hi]
    by_cases hd : d = i
    · subst hd; simp
    · simp [hd, Ne.symm hd]

theorem mem_order : ∀ i, i < 16 → i ∈ order := by decide

/-- **A written GUID reads back.** -/
theorem parseWith_format {digit : UInt8 → Option UInt8} (hdigit : ReadsHex digit) (value : Guid) :
    parseWith digit (format value) = some value := by
  unfold parseWith
  rw [if_neg (by rw [length_format]; simp), format, parseFrom_formatFrom hdigit, Option.some_inj]
  refine Vector.ext (fun i hi => ?_)
  rw [getElem_foldl_set (fun d => value.toArray.getD d 0) hi, if_pos (mem_order i hi)]
  simp [hi]

theorem parse_format (value : Guid) : parse (format value) = some value := parseWith_format nibble_hex value

theorem kernelParse_format (value : Guid) : kernelParse (format value) = some value := parseWith_format kernelNibble_hex value

end Guid
end Gpt
end R4
