import R4Recovery.HivePath
/-!
# SdkPath — the paths of the SDK

A path is normalised in one pass into a buffer of the caller: components are appended behind lazy separators, and the byte
and the character position in front of each one are kept, so that a `..` goes back to them.  The separators are those of the registry paths.
-/
namespace R4
namespace SdkPath

open Hive (isSeparator components)

inductive Error where
  | empty
  | tooLong
  | componentTooLong
  | embeddedNul
  | invalidCharacter
  | expectedAbsolute
  | expectedRelative
  | rootTraversal
  deriving DecidableEq, Repr

def filePathMax : Nat := 1023
def componentMax : Nat := 767
def filePathMaxChars : Nat := 260
def componentMaxChars : Nat := 255
def pathRollbackEntries : Nat := 160

/-! ## Bytes -/

def asciiUpper (byte : UInt8) : UInt8 := if byte ≥ 97 && byte ≤ 122 then byte - 32 else byte

def isAsciiAlpha (byte : UInt8) : Bool := asciiUpper byte ≥ 65 && asciiUpper byte ≤ 90

def validateFileByte (byte : UInt8) : Except Error Unit :=
  if byte == 0 then .error .embeddedNul
  else if byte < 0x20 || byte == 0x7F then .error .invalidCharacter
  else if byte == 60 || byte == 62 || byte == 34 || byte == 124 || byte == 63 || byte == 42 || byte == 58 then
    .error .invalidCharacter
  else .ok ()

/-- The number of characters of a segment, behind `chars` of them. -/
def validateFrom : Bytes → Nat → Except Error Nat
  | [], chars => .ok chars
  | byte :: rest, chars =>
    if byte < 0x80 then do
      validateFileByte byte
      validateFrom rest (chars + 1)
    else if byte &&& 0xE0 == 0xC0 then
      -- below 0xC2 the form is overlong
      if byte < 0xC2 then .error .invalidCharacter
      else match rest with
        | b1 :: rest => if b1 &&& 0xC0 != 0x80 then .error .invalidCharacter else validateFrom rest (chars + 1)
        | [] => .error .invalidCharacter
    else if byte &&& 0xF0 == 0xE0 then
      match rest with
      | b1 :: b2 :: rest =>
        if b1 &&& 0xC0 != 0x80 || b2 &&& 0xC0 != 0x80 then .error .invalidCharacter
        else if byte == 0xE0 && b1 < 0xA0 then .error .invalidCharacter
        else if byte == 0xED && b1 ≥ 0xA0 then .error .invalidCharacter
        else validateFrom rest (chars + 1)
      | _ => .error .invalidCharacter
    else .error .invalidCharacter

def validateFileSegment (segment : Bytes) : Except Error Nat := validateFrom segment 0

/-! ## One pass -/

/-- The buffer, the positions in it, and the positions in front of the components, the newest first. -/
structure State where
  out : Bytes
  pos : Nat
  chars : Nat
  starts : List (Nat × Nat) := []
  deriving DecidableEq, Repr

/-- `..` goes back in front of the newest component. -/
def goBack (absolute : Bool) (st : State) : Except Error State :=
  match st.starts with
  | [] => .error .rootTraversal
  | (pos, chars) :: starts =>
    .ok { st with
      pos := if absolute && pos == 2 then 3 else pos
      chars := if absolute && decide (chars < 3) then 3 else chars
      starts := starts }

/-- A separator in front of every component but the first. -/
def separate (absolute : Bool) (st : State) : Except Error State :=
  if (absolute && decide (st.pos > 3)) || (!absolute && decide (st.pos > 0)) then
    if st.pos ≥ filePathMax then .error .tooLong
    else .ok { st with out := put st.out st.pos [92], pos := st.pos + 1, chars := st.chars + 1 }
  else .ok st

def reject (bad : Bool) (e : Error) : Except Error Unit := if bad then .error e else .ok ()

def append (absolute : Bool) (st : State) (segment : Bytes) : Except Error State := do
  reject (decide (segment.length > componentMax)) .componentTooLong
  let segmentChars ← validateFileSegment segment
  reject (decide (segmentChars > componentMaxChars)) .componentTooLong
  reject (decide (st.starts.length ≥ pathRollbackEntries)) .tooLong
  let before := st.pos
  let beforeChars := st.chars
  let st ← separate absolute st
  reject (decide (segment.length > filePathMax - st.pos)) .tooLong
  reject (decide (st.chars + segmentChars > filePathMaxChars)) .tooLong
  .ok { out := put st.out st.pos segment
        pos := st.pos + segment.length
        chars := st.chars + segmentChars
        starts := (before, beforeChars) :: st.starts }

def component (absolute : Bool) (st : State) (segment : Bytes) : Except Error State :=
  if segment == [46] then .ok st
  else if segment == [46, 46] then goBack absolute st
  else append absolute st segment

theorem head_dropWhile {p : UInt8 → Bool} {rest tail : Bytes} {c : UInt8} (h : rest.dropWhile p = c :: tail) :
    p c = false := by
  have hne : rest.dropWhile p ≠ [] := by
    rw [h]
    exact List.cons_ne_nil _ _
  have hhead := List.head_dropWhile_not p hne
  simp only [h, List.head_cons] at hhead
  exact hhead

theorem pass_shorter {rest tail : Bytes} {c : UInt8} (h : rest.dropWhile isSeparator = c :: tail) :
    ((c :: tail).dropWhile (fun b => !isSeparator b)).length < rest.length := by
  have hc : isSeparator c = false := head_dropWhile h
  have hle := (List.dropWhile_suffix isSeparator (l := rest)).length_le
  rw [h, List.length_cons] at hle
  rw [List.dropWhile_cons_of_pos (by rw [hc]; rfl)]
  exact Nat.lt_of_le_of_lt (List.dropWhile_suffix _).length_le hle

/-- The pass over what is left of the input. -/
def pass (absolute : Bool) (rest : Bytes) (st : State) : Except Error State :=
  match _h : rest.dropWhile isSeparator with
  | [] => .ok st
  | c :: tail => do
    let st ← component absolute st ((c :: tail).takeWhile (fun b => !isSeparator b))
    pass absolute ((c :: tail).dropWhile (fun b => !isSeparator b)) st
termination_by rest.length
decreasing_by exact pass_shorter _h

structure Normalized where
  len : Nat
  absolute : Bool
  out : Bytes
  deriving DecidableEq, Repr

def isAbsolute : Bytes → Bool
  | drive :: colon :: sep :: _ => isAsciiAlpha drive && colon == 58 && isSeparator sep
  | _ => false

/-- What is checked of the whole input. -/
def checkInput (input : Bytes) (requireAbsolute : Option Bool) : Except Error Unit := do
  reject (input.length == 0) .empty
  reject (decide (input.length > filePathMax)) .tooLong
  let absolute := isAbsolute input
  match requireAbsolute with
  | some required =>
    reject (required && !absolute) .expectedAbsolute
    reject (!required && absolute) .expectedRelative
  | none => pure ()
  reject (!absolute && isSeparator (input.headD 0)) .expectedAbsolute

/-- The drive root, and where the components begin. -/
def start (input : Bytes) (out : Bytes) : State :=
  if isAbsolute input then { out := put out 0 [asciiUpper (input.headD 0), 58, 92], pos := 3, chars := 3 }
  else { out := out, pos := 0, chars := 0 }

def body (input : Bytes) : Bytes := if isAbsolute input then input.drop 3 else input

def normalizeFile (input : Bytes) (requireAbsolute : Option Bool) (out : Bytes) : Except Error Normalized := do
  checkInput input requireAbsolute
  let absolute := isAbsolute input
  let st ← pass absolute (body input) (start input out)
  let st := if !absolute && st.pos == 0 then { st with out := put st.out 0 [46], pos := 1 } else st
  .ok { len := st.pos, absolute := absolute, out := put st.out st.pos [0] }

/-! ## The three kinds of paths -/

/-- The storage of a path and its terminator, not yet written. -/
structure Storage where
  bytes : Bytes
  size : bytes.length = filePathMax + 1

structure Path where
  bytes : Bytes
  absolute : Bool
  deriving DecidableEq, Repr

def parse (requireAbsolute : Option Bool) (storage : Storage) (input : Bytes) : Except Error Path := do
  let normalized ← normalizeFile input requireAbsolute storage.bytes
  .ok { bytes := normalized.out.take normalized.len, absolute := normalized.absolute }

def FilePath.parse : Storage → Bytes → Except Error Path := SdkPath.parse none

def AbsoluteFilePath.parse : Storage → Bytes → Except Error Path := SdkPath.parse (some true)

def RelativeFilePath.parse : Storage → Bytes → Except Error Path := SdkPath.parse (some false)

end SdkPath
end R4
