import R4Recovery.Moves
import R4Recovery.Http
/-!
# WebUrl — a reference is resolved in a buffer

`parts`, `resolveReference` and `appendNormalizedPath` of `web_url.zig`.  The origin stands at the start of the buffer, and the
path is normalised where it stands.
-/
namespace R4
namespace WebUrl

open Http (indexOfByte lastIndexOfByte)
open Moves (copyForwards copyBackwards writeAt)

inductive WebUrlError where
  | tooLong
  | invalidUrl
  deriving DecidableEq, Repr

abbrev Web (α : Type) := Checked WebUrlError α

/-- `std.mem.indexOfAnyPos` and its like. -/
def indexFrom (text : Bytes) (pos : Nat) (p : UInt8 → Bool) : Option Nat := ((text.drop pos).findIdx? p).map (pos + ·)

/-- Bytes from elsewhere. -/
def appendSlice (out : Bytes) (len : Nat) (value : Bytes) : Web (Bytes × Nat) :=
  if len + value.length > out.length then .error (.fail .tooLong) else .ok (put out len value, len + value.length)

/-- `count` bytes of the buffer itself. -/
def appendOwn (out : Bytes) (len start count : Nat) : Web (Bytes × Nat) :=
  if len + count > out.length then .error (.fail .tooLong)
  else do
    let out ← copyForwards out len start count
    .ok (out, len + count)

/-- What is read of the parts. -/
structure Parts where
  host : Bytes
  pathStart : Nat
  pathEnd : Nat
  deriving DecidableEq, Repr

def parts (href : Bytes) : Web Parts :=
  match indexOfByte href 58 with
  | none => .error (.fail .invalidUrl)
  | some colon =>
    let start := colon + 1
    let network := slice href start 2 = [47, 47]
    let authorityStart := if network then start + 2 else start
    let authorityEnd :=
      if network then (indexFrom href authorityStart (fun c => c == 47 || c == 63 || c == 35)).getD href.length else start
    let authority := slice href authorityStart (authorityEnd - authorityStart)
    let host := match lastIndexOfByte authority 64 with
      | some index => authority.drop (index + 1)
      | none => authority
    let hashStart := indexFrom href authorityEnd (· == 35)
    let queryStart := indexFrom (href.take (hashStart.getD href.length)) authorityEnd (· == 63)
    .ok {
      host := host
      pathStart := authorityEnd
      pathEnd := min (queryStart.getD href.length) (hashStart.getD href.length) }

/-- A segment with its slash. -/
def segmentLength (rest : Bytes) : Nat :=
  (indexFrom rest (if rest.head? = some 47 then 1 else 0) (· == 47)).getD rest.length

/-- The loop over the `n` bytes of the path at `path`; what stands is written from `start` on. -/
def normalizeFrom (start path n : Nat) : Nat → Bytes → Nat → Nat → Web (Bytes × Nat)
  | 0, _, _, _ => .error .overflow
  | fuel + 1, out, len, cursor =>
    if cursor < n then
      let rest := slice out (path + cursor) (n - cursor)
      if startsWith rest (ascii "../") then normalizeFrom start path n fuel out len (cursor + 3)
      else if startsWith rest (ascii "./") then normalizeFrom start path n fuel out len (cursor + 2)
      else if startsWith rest (ascii "/./") then normalizeFrom start path n fuel out len (cursor + 2)
      else if rest = ascii "/." then appendSlice out len (ascii "/")
      else if startsWith rest (ascii "/../") || rest == ascii "/.." then
        let len := start + (lastIndexOfByte (slice out start (len - start)) 47).getD 0
        if rest.length = 3 then appendSlice out len (ascii "/")
        else normalizeFrom start path n fuel out len (cursor + 3)
      else if rest = ascii "." ∨ rest = ascii ".." then .ok (out, len)
      else do
        let count := segmentLength rest
        let (out, len) ← appendOwn out len (path + cursor) count
        normalizeFrom start path n fuel out len (cursor + count)
    else .ok (out, len)

/-- The path `out[path..path + n]`, from `len` on. -/
def appendNormalizedPath (out : Bytes) (len path n : Nat) : Web (Bytes × Nat) :=
  if n = 0 then appendSlice out len (ascii "/") else normalizeFrom len path n (n + 1) out len 0

/-- The texts in front of the reference and the reference. -/
def joinReference (originLen : Nat) (baseSuffix reference out : Bytes) : Web (Bytes × Nat) :=
  let absolute := match reference.findIdx? (fun c => c == 58 || c == 47 || c == 63 || c == 35) with
    | some i => decide (i > 0) && reference[i]? == some 58
    | none => false
  let hash := (indexOfByte baseSuffix 35).getD baseSuffix.length
  let query := (indexOfByte (baseSuffix.take hash) 63).getD hash
  if absolute then appendSlice out 0 reference
  else if startsWith reference (ascii "//") then
    match indexOfByte (out.take originLen) 58 with
    | none => .error (.fail .invalidUrl)
    | some colon => do
      let (out, len) ← appendOwn out 0 0 (colon + 1)
      appendSlice out len reference
  else do
    let (out, len) ← appendOwn out 0 0 originLen
    let (out, len) ←
      if reference.length = 0 ∨ reference.head? = some 35 then appendSlice out len (baseSuffix.take hash)
      else if reference.head? = some 63 then appendSlice out len (baseSuffix.take query)
      else if reference.head? ≠ some 47 then
        let directoryEnd := match lastIndexOfByte (baseSuffix.take query) 47 with
          | some i => i + 1
          | none => 0
        if directoryEnd = 0 then appendSlice out len (ascii "/") else appendSlice out len (baseSuffix.take directoryEnd)
      else .ok (out, len)
    appendSlice out len reference

/-- `resolveReference` with the origin `out[0..originLen]`: the buffer, and the length of the result. -/
def resolveReference (originLen : Nat) (baseSuffix reference out : Bytes) : Web (Bytes × Nat) := do
  let (out, len) ← joinReference originLen baseSuffix reference out
  let parsed ← parts (out.take len)
  if parsed.host.length = 0 then .error (.fail .invalidUrl)
  else if parsed.pathStart = parsed.pathEnd then
    if len = out.length then .error (.fail .tooLong)
    else do
      let out ← copyBackwards out (parsed.pathStart + 1) parsed.pathStart (len - parsed.pathStart)
      let out ← writeAt out parsed.pathStart 47
      .ok (out, len + 1)
  else do
    let (out, normalizedEnd) ← appendNormalizedPath out parsed.pathStart parsed.pathStart (parsed.pathEnd - parsed.pathStart)
    let out ← copyForwards out normalizedEnd parsed.pathEnd (len - parsed.pathEnd)
    .ok (out, normalizedEnd + (len - parsed.pathEnd))

end WebUrl
end R4
