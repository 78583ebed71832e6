import R4Recovery.Checked
import R4Recovery.Buffer
import R4Recovery.Device
import R4Recovery.Lines
/-!
# Http — the head of a response

`parseHead` of `http.zig` and the text helpers it uses.  The slices are checked: one whose ends do not lie in the text faults.
-/
namespace R4
namespace Http

def maxHeaderBytes : Nat := 16 * 1024
def maxHeaderCount : Nat := 64
def maxSetCookieHeaders : Nat := 16

/-- Nothing is refused in this way: what may go wrong is an access. -/
abbrev Access (α : Type) := Checked Empty α

/-- `text[start..end]`. -/
def sub (text : Bytes) (start stop : Nat) : Access Bytes :=
  if start ≤ stop ∧ stop ≤ text.length then .ok (slice text start (stop - start)) else .error .bounds

def byteAt (text : Bytes) (i : Nat) : Access UInt8 :=
  match text[i]? with
  | some b => .ok b
  | none => .error .bounds

def minus (a b : Nat) : Access Nat := if b ≤ a then .ok (a - b) else .error .overflow

/-! ## Text -/

def crlf : Bytes := [13, 10]

/-- What ends a head. -/
def terminator : Bytes := [13, 10, 13, 10]

theorem terminator_ne_nil : terminator ≠ [] := List.cons_ne_nil _ _

def indexOf (value needle : Bytes) : Option Nat :=
  (List.range (value.length + 1)).find? (fun i => startsWith (value.drop i) needle)

def indexOfByte (value : Bytes) (needle : UInt8) : Option Nat := value.idxOf? needle

def lastIndexOfByte (value : Bytes) (needle : UInt8) : Option Nat :=
  (List.range value.length).reverse.find? (fun i => value[i]? == some needle)

/-- `std.mem.trim(u8, value, " \t")`. -/
def trimBlanks (value : Bytes) : Bytes :=
  ((value.dropWhile (fun c => c == 32 || c == 9)).reverse.dropWhile (fun c => c == 32 || c == 9)).reverse

def trimAscii (value : Bytes) : Bytes := trim value

def isAlpha (ch : UInt8) : Bool := (decide (97 ≤ ch) && decide (ch ≤ 122)) || (decide (65 ≤ ch) && decide (ch ≤ 90))

def isHostByte (ch : UInt8) : Bool := isAlpha ch || isDigit ch || ch == 46 || ch == 45

def isTokenByte (ch : UInt8) : Bool :=
  isAlpha ch || isDigit ch || (ascii "!#$%&'*+-.^_\x60|~").contains ch

def isHeaderName (value : Bytes) : Bool := value.all isTokenByte && !value.isEmpty

def hasForbiddenHeaderByte (value : Bytes) : Bool := value.any (fun ch => ch == 13 || ch == 10 || ch == 0)

/-- Both `parseDecimal` and `parseDecimalU64`: words have 64 bits. -/
def parseDecimal (value : Bytes) : Option Nat := if value.isEmpty then none else parseDigits value 0

def hexDigit (ch : UInt8) : Option Nat :=
  if 48 ≤ ch ∧ ch ≤ 57 then some (ch.toNat - 48)
  else if 97 ≤ ch ∧ ch ≤ 102 then some (ch.toNat - 97 + 10)
  else if 65 ≤ ch ∧ ch ≤ 70 then some (ch.toNat - 65 + 10)
  else none

def parseHexFrom : Bytes → Nat → Option Nat
  | [], result => some result
  | ch :: rest, result =>
    match hexDigit ch with
    | none => none
    | some digit => if result * 16 + digit < 2 ^ 64 then parseHexFrom rest (result * 16 + digit) else none

def parseHex (value : Bytes) : Option Nat := if value.isEmpty then none else parseHexFrom value 0

/-! ## Heads -/

inductive Method where
  | get
  | post
  | head
  | put
  | delete
  | patch
  | options
  deriving DecidableEq, Repr

inductive Transfer where
  | none
  | contentLength
  | chunked
  | closeDelimited
  deriving DecidableEq, Repr

structure ContentRange where
  satisfied : Bool
  start : Nat
  stop : Nat
  total : Nat
  deriving DecidableEq, Repr

inductive ResponseError where
  | malformedStatus
  | unsupportedVersion
  | headerTooLarge
  | tooManyHeaders
  | malformedHeader
  | invalidContentLength
  | conflictingLength
  | unsupportedTransferEncoding
  | malformedChunk
  | bodyTooLarge
  | redirectWithoutLocation
  | redirectLoop
  | transportClosedEarly
  | contentLengthRequired
  | unexpectedBody
  deriving DecidableEq, Repr

structure ParsedHead where
  status : Nat
  bodyStart : Nat
  transfer : Transfer
  contentLength : Nat
  headers : Bytes
  location : Option Bytes
  contentType : Option Bytes
  contentSecurityPolicy : Option Bytes
  accessControlAllowOrigin : Option Bytes
  accessControlAllowCredentials : Bool
  setCookie : Option Bytes
  setCookies : List Bytes
  contentRange : Option ContentRange
  deriving DecidableEq, Repr

def noBody (method : Method) (head : ParsedHead) : Bool :=
  method == .head || head.status == 204 || head.status == 304 || (decide (head.status ≥ 100) && decide (head.status < 200))

/-- `parseContentRange` behind its prefix. -/
def parseRange (range : Bytes) : Option ContentRange := do
  let slash ← indexOfByte range 47
  if slash = 0 ∨ slash + 1 ≥ range.length then none
  let total ← parseDecimal (range.drop (slash + 1))
  if total = 0 then none
  let interval := range.take slash
  if interval = [42] then some { satisfied := false, start := 0, stop := 0, total := total }
  else do
    let dash ← indexOfByte interval 45
    if dash = 0 ∨ dash + 1 ≥ interval.length then none
    let start ← parseDecimal (interval.take dash)
    let stop ← parseDecimal (interval.drop (dash + 1))
    if start > stop ∨ stop ≥ total then none
    some { satisfied := true, start := start, stop := stop, total := total }

def parseContentRange (value : Bytes) : Option ContentRange :=
  if value.length < 9 || !eqlIgnoreCase (value.take 5) (ascii "bytes") || value[5]? != some 32 then none
  else parseRange (value.drop 6)

/-- What the fields have given so far. -/
structure Fields where
  contentLength : Option Nat := none
  chunked : Bool := false
  location : Option Bytes := none
  contentType : Option Bytes := none
  contentSecurityPolicy : Option Bytes := none
  accessControlAllowOrigin : Option Bytes := none
  accessControlAllowCredentials : Bool := false
  setCookie : Option Bytes := none
  setCookies : List Bytes := []
  contentRange : Option ContentRange := none
  deriving DecidableEq, Repr

/-- A header field that is well formed. -/
def parseField (self : Fields) (name value : Bytes) : Except ResponseError Fields :=
  if eqlIgnoreCase name (ascii "Content-Length") then
    match parseDecimal value with
    | none => .error .invalidContentLength
    | some parsed =>
      if self.contentLength.any (· != parsed) then .error .conflictingLength
      else .ok { self with contentLength := some parsed }
  else if eqlIgnoreCase name (ascii "Transfer-Encoding") then
    if self.chunked || !eqlIgnoreCase value (ascii "chunked") then .error .unsupportedTransferEncoding
    else .ok { self with chunked := true }
  else if eqlIgnoreCase name (ascii "Location") then .ok { self with location := some value }
  else if eqlIgnoreCase name (ascii "Content-Type") then .ok { self with contentType := some value }
  else if eqlIgnoreCase name (ascii "Content-Security-Policy") then .ok { self with contentSecurityPolicy := some value }
  else if eqlIgnoreCase name (ascii "Access-Control-Allow-Origin") then
    .ok { self with accessControlAllowOrigin := some value }
  else if eqlIgnoreCase name (ascii "Access-Control-Allow-Credentials") then
    .ok { self with accessControlAllowCredentials := eqlIgnoreCase value (ascii "true") }
  else if eqlIgnoreCase name (ascii "Set-Cookie") then
    .ok { self with
      setCookie := if self.setCookie.isNone then some value else self.setCookie
      setCookies := if self.setCookies.length < maxSetCookieHeaders then self.setCookies ++ [value] else self.setCookies }
  else if eqlIgnoreCase name (ascii "Content-Range") then
    if self.contentRange.isSome then .error .malformedHeader
    else match parseContentRange value with
      | none => .error .malformedHeader
      | some range => .ok { self with contentRange := some range }
  else .ok self

/-- One line of the head. -/
def parseLine (self : Fields) (line : Bytes) : Access (Except ResponseError Fields) :=
  match indexOfByte line 58 with
  | none => .ok (.error .malformedHeader)
  | some colon => do
    let name ← sub line 0 colon
    let rest ← sub line (colon + 1) line.length
    let value := trimBlanks rest
    if name.length == 0 || !isHeaderName name || hasForbiddenHeaderByte value then .ok (.error .malformedHeader)
    else .ok (parseField self name value)

inductive HeadResult where
  | value (head : ParsedHead)
  | needMore
  | failure (e : ResponseError)
  deriving DecidableEq, Repr

/-- The lines from `cursor` on, `count` of them read; at most `fuel` more are allowed. -/
def parseLines (input : Bytes) (stop bodyStart : Nat) : Nat → Nat → Fields → Access (Except ResponseError Fields)
  | 0, cursor, fields => if cursor < stop then .ok (.error .tooManyHeaders) else .ok (.ok fields)
  | fuel + 1, cursor, fields =>
    if cursor < stop then do
      let window ← sub input cursor bodyStart
      match indexOf window crlf with
      | none => .ok (.error .malformedHeader)
      | some relativeEnd =>
        let lineEnd := cursor + relativeEnd
        let line ← sub input cursor lineEnd
        match ← parseLine fields line with
        | .error e => .ok (.error e)
        | .ok fields => parseLines input stop bodyStart fuel (lineEnd + 2) fields
    else .ok (.ok fields)

/-- The status line. -/
def parseStatus (statusLine : Bytes) : Access (Except ResponseError Nat) :=
  if !startsWith statusLine (ascii "HTTP/") then .ok (.error .malformedStatus)
  else if !startsWith statusLine (ascii "HTTP/1.1 ") && !startsWith statusLine (ascii "HTTP/1.0 ") then
    .ok (.error .unsupportedVersion)
  else if statusLine.length < 13 then .ok (.error .malformedStatus)
  else do
    let d1 ← byteAt statusLine 9
    let d2 ← byteAt statusLine 10
    let d3 ← byteAt statusLine 11
    let blank ← byteAt statusLine 12
    let reason ← sub statusLine 13 statusLine.length
    if !isDigit d1 || !isDigit d2 || !isDigit d3 || blank != 32 || hasForbiddenHeaderByte reason then
      .ok (.error .malformedStatus)
    else
      let status := (d1.toNat - 48) * 100 + (d2.toNat - 48) * 10 + (d3.toNat - 48)
      if status < 100 ∨ status > 599 then .ok (.error .malformedStatus) else .ok (.ok status)

def parseHead (input : Bytes) : Access HeadResult :=
  match indexOf input terminator with
  | none => .ok .needMore
  | some stop => do
    let bodyStart := stop + 4
    if bodyStart > maxHeaderBytes then .ok (.failure .headerTooLarge)
    else do
      let block ← sub input 0 bodyStart
      match indexOf block crlf with
      | none => .ok (.failure .malformedStatus)
      | some statusEnd =>
        let statusLine ← sub input 0 statusEnd
        match ← parseStatus statusLine with
        | .error e => .ok (.failure e)
        | .ok status =>
          match ← parseLines input stop bodyStart maxHeaderCount (statusEnd + 2) {} with
          | .error e => .ok (.failure e)
          | .ok fields =>
            if fields.chunked && fields.contentLength.isSome then .ok (.failure .conflictingLength)
            else do
              let headers ← sub input (min (statusEnd + 2) stop) stop
              .ok (.value {
                status := status
                bodyStart := bodyStart
                transfer := if fields.chunked then .chunked
                  else if fields.contentLength.isSome then .contentLength else .closeDelimited
                contentLength := fields.contentLength.getD 0
                headers := headers
                location := fields.location
                contentType := fields.contentType
                contentSecurityPolicy := fields.contentSecurityPolicy
                accessControlAllowOrigin := fields.accessControlAllowOrigin
                accessControlAllowCredentials := fields.accessControlAllowCredentials
                setCookie := fields.setCookie
                setCookies := fields.setCookies
                contentRange := fields.contentRange })

/-! ## Where a text occurs -/

section Occurrences

variable {text needle p w : Bytes} {i j a b len : Nat}

/-- `needle` stands at `i`. -/
def Occurs (text needle : Bytes) (i : Nat) : Prop := needle <+: text.drop i

theorem startsWith_iff : startsWith text needle = true ↔ needle <+: text := List.isPrefixOf_iff_prefix

theorem Occurs.end_le (h : Occurs text needle i) (hne : needle ≠ []) : i + needle.length ≤ text.length := by
  have hle := h.length_le
  have hpos := List.length_pos_iff.2 hne
  rw [List.length_drop] at hle
  omega

theorem indexOf_some (h : indexOf text needle = some i) : Occurs text needle i ∧ ∀ j, j < i → ¬ Occurs text needle j := by
  obtain ⟨hi, -, hmin⟩ := List.find?_range_eq_some.1 h
  exact ⟨startsWith_iff.1 hi, fun j hj ho => by simpa [startsWith_iff.2 ho] using hmin j hj⟩

theorem indexOf_none (h : indexOf text needle = none) (hne : needle ≠ []) (j : Nat) : ¬ Occurs text needle j := by
  intro ho
  have hle := ho.end_le hne
  have := List.find?_eq_none.1 h j (List.mem_range.2 (by omega))
  exact this (startsWith_iff.2 ho)

theorem indexOf_eq_some (ho : Occurs text needle i) (hne : needle ≠ []) (hmin : ∀ j, j < i → ¬ Occurs text needle j) :
    indexOf text needle = some i := by
  have hle := ho.end_le hne
  refine List.find?_range_eq_some.2 ⟨startsWith_iff.2 ho, List.mem_range.2 (by omega), fun j hj => ?_⟩
  rw [Bool.not_eq_true', Bool.eq_false_iff]
  exact fun h => hmin j hj (startsWith_iff.1 h)

theorem indexOf_eq_none (h : ∀ j, ¬ Occurs text needle j) : indexOf text needle = none :=
  List.find?_eq_none.2 fun j _ hj => h j (startsWith_iff.1 hj)

theorem Occurs.mono (hp : p <+: w) (h : Occurs p needle i) : Occurs w needle i := by
  obtain ⟨s, rfl⟩ := hp
  by_cases hi : i ≤ p.length
  · rw [Occurs, List.drop_append_of_le_length hi]
    exact h.trans (List.prefix_append _ _)
  · have hnil := h
    rw [Occurs, List.drop_eq_nil_of_le (by omega)] at hnil
    rw [List.eq_nil_of_prefix_nil hnil]
    exact List.nil_prefix

theorem Occurs.of_le (hp : p <+: w) (h : Occurs w needle i) (hle : i + needle.length ≤ p.length) : Occurs p needle i := by
  obtain ⟨s, rfl⟩ := hp
  rw [Occurs, List.drop_append_of_le_length (by omega)] at h
  exact List.prefix_of_prefix_length_le h (List.prefix_append _ _) (by rw [List.length_drop]; omega)

theorem occurs_slice (hne : needle ≠ []) : Occurs (slice text a len) needle i ↔
    Occurs text needle (a + i) ∧ i + needle.length ≤ len := by
  have hpos := List.length_pos_iff.2 hne
  rw [Occurs, Occurs, slice, List.drop_take, List.drop_drop, List.prefix_take_iff]
  constructor
  · rintro ⟨h, hle⟩
    exact ⟨h, by omega⟩
  · rintro ⟨h, hle⟩
    exact ⟨h, by omega⟩

theorem slice_extend (hp : p <+: w) (h : a + len ≤ p.length) : slice w a len = slice p a len := by
  obtain ⟨s, rfl⟩ := hp
  rw [slice, slice, List.drop_append_of_le_length (by omega),
    List.take_append_of_le_length (by rw [List.length_drop]; omega)]

theorem sub_ok (h : a ≤ b) (hb : b ≤ text.length) : sub text a b = .ok (slice text a (b - a)) := if_pos ⟨h, hb⟩

theorem sub_extend (hp : p <+: w) (hb : b ≤ p.length) : sub w a b = sub p a b := by
  unfold sub
  by_cases h : a ≤ b
  · rw [if_pos ⟨h, hb.trans hp.length_le⟩, if_pos ⟨h, hb⟩, slice_extend hp (by omega)]
  · rw [if_neg fun hc => h hc.1, if_neg fun hc => h hc.1]

theorem indexOf_extend (hp : p <+: w) (hne : needle ≠ []) (h : indexOf p needle = some i) : indexOf w needle = some i := by
  obtain ⟨ho, hmin⟩ := indexOf_some h
  have hle := ho.end_le hne
  exact indexOf_eq_some (ho.mono hp) hne fun j hj hw => hmin j hj (hw.of_le hp (by omega))

end Occurrences

/-! ## The head as a whole -/

section Head

variable {input p w : Bytes} {stop : Nat}

theorem parseLine_ok (self : Fields) (line : Bytes) : ∃ r, parseLine self line = .ok r := by
  unfold parseLine
  split
  · exact ⟨_, rfl⟩
  · rename_i colon hcolon
    have hlt : colon < line.length := (List.idxOf?_eq_some_iff.1 hcolon).1
    rw [sub_ok (Nat.zero_le _) (by omega), sub_ok (by omega) (Nat.le_refl _)]
    simp only [bind, Except.bind]
    split
    · exact ⟨_, rfl⟩
    · exact ⟨_, rfl⟩

theorem parseStatus_ok (statusLine : Bytes) : ∃ r, parseStatus statusLine = .ok r := by
  unfold parseStatus
  split
  · exact ⟨_, rfl⟩
  · split
    · exact ⟨_, rfl⟩
    · split
      · exact ⟨_, rfl⟩
      · rename_i hlen
        have hbyte : ∀ i, i < 13 → ∃ b, byteAt statusLine i = .ok b := by
          intro i hi
          rw [byteAt, List.getElem?_eq_getElem (by omega)]
          exact ⟨_, rfl⟩
        obtain ⟨d1, h1⟩ := hbyte 9 (by decide)
        obtain ⟨d2, h2⟩ := hbyte 10 (by decide)
        obtain ⟨d3, h3⟩ := hbyte 11 (by decide)
        obtain ⟨blank, h4⟩ := hbyte 12 (by decide)
        rw [h1, h2, h3, h4, sub_ok (by omega) (Nat.le_refl _)]
        simp only [bind, Except.bind]
        split
        · exact ⟨_, rfl⟩
        · split
          · exact ⟨_, rfl⟩
          · exact ⟨_, rfl⟩

theorem line_end {cursor bodyStart relativeEnd : Nat} (hcursor : cursor ≤ bodyStart) (hbody : bodyStart ≤ input.length)
    (h : indexOf (slice input cursor (bodyStart - cursor)) crlf = some relativeEnd) :
    cursor + relativeEnd + 2 ≤ bodyStart := by
  have hle := (indexOf_some h).1.end_le (List.cons_ne_nil _ _)
  rw [length_slice (by omega)] at hle
  have : crlf.length = 2 := rfl
  omega

theorem parseLines_ok (hstop : stop + 4 ≤ input.length) : ∀ (fuel cursor : Nat) (fields : Fields),
    ∃ r, parseLines input stop (stop + 4) fuel cursor fields = .ok r
  | 0, cursor, fields => by
    unfold parseLines
    split
    · exact ⟨_, rfl⟩
    · exact ⟨_, rfl⟩
  | fuel + 1, cursor, fields => by
    unfold parseLines
    split
    · rename_i hcursor
      rw [sub_ok (by omega) hstop]
      simp only [bind, Except.bind]
      split
      · exact ⟨_, rfl⟩
      · rename_i relativeEnd hrelative
        have hend : cursor + relativeEnd + 2 ≤ stop + 4 := line_end (by omega) hstop hrelative
        rw [sub_ok (by omega) (by omega)]
        simp only
        obtain ⟨r, hr⟩ := parseLine_ok fields (slice input cursor (cursor + relativeEnd - cursor))
        rw [hr]
        simp only
        split
        · exact ⟨_, rfl⟩
        · exact parseLines_ok hstop fuel _ _
    · exact ⟨_, rfl⟩

/-- **The head is parsed without a fault.** -/
theorem parseHead_ok (input : Bytes) : ∃ r, parseHead input = .ok r := by
  unfold parseHead
  split
  · exact ⟨_, rfl⟩
  · rename_i stop hstop
    have hle := (indexOf_some hstop).1.end_le (List.cons_ne_nil _ _)
    have hfour : terminator.length = 4 := rfl
    simp only
    split
    · exact ⟨_, rfl⟩
    · rw [sub_ok (Nat.zero_le _) (by omega)]
      simp only [bind, Except.bind]
      split
      · exact ⟨_, rfl⟩
      · rename_i statusEnd hstatus
        have hend : 0 + statusEnd + 2 ≤ stop + 4 := line_end (Nat.zero_le _) (by omega) hstatus
        rw [sub_ok (Nat.zero_le _) (by omega)]
        simp only
        obtain ⟨r, hr⟩ := parseStatus_ok (slice input 0 (statusEnd - 0))
        rw [hr]
        simp only
        split
        · exact ⟨_, rfl⟩
        · obtain ⟨r', hr'⟩ : ∃ r, parseLines input stop (stop + 4) maxHeaderCount (statusEnd + 2) {} = .ok r :=
            parseLines_ok (by omega) _ _ _
          rw [hr']
          simp only
          split
          · exact ⟨_, rfl⟩
          · split
            · exact ⟨_, rfl⟩
            · rw [sub_ok (Nat.min_le_right _ _) (by omega)]
              exact ⟨_, rfl⟩

theorem parseLines_extend (hp : p <+: w) (hstop : stop + 4 ≤ p.length) : ∀ (fuel cursor : Nat) (fields : Fields),
    parseLines w stop (stop + 4) fuel cursor fields = parseLines p stop (stop + 4) fuel cursor fields
  | 0, _, _ => rfl
  | fuel + 1, cursor, fields => by
    unfold parseLines
    split
    · rename_i hcursor
      rw [sub_extend hp hstop, sub_ok (by omega) hstop]
      simp only [bind, Except.bind]
      split
      · rfl
      · rename_i relativeEnd hrelative
        have hend : cursor + relativeEnd + 2 ≤ stop + 4 := line_end (by omega) hstop hrelative
        rw [sub_extend hp (by omega)]
        simp only [parseLines_extend hp hstop fuel]
    · rfl

/-- **Only the bytes of the head count.** -/
theorem parseHead_extend (hp : p <+: w) (hsome : (indexOf p terminator).isSome = true) : parseHead w = parseHead p := by
  obtain ⟨stop, hstop⟩ := Option.isSome_iff_exists.1 hsome
  have hle := (indexOf_some hstop).1.end_le (List.cons_ne_nil _ _)
  have hfour : terminator.length = 4 := rfl
  unfold parseHead
  rw [indexOf_extend hp terminator_ne_nil hstop, hstop]
  simp only
  split
  · rfl
  · rw [sub_extend hp (by omega), sub_ok (Nat.zero_le _) (by omega)]
    simp only [bind, Except.bind]
    split
    · rfl
    · rename_i statusEnd hstatus
      have hend : 0 + statusEnd + 2 ≤ stop + 4 := line_end (Nat.zero_le _) (by omega) hstatus
      simp only [sub_extend hp (show statusEnd ≤ p.length by omega), sub_extend hp (show stop ≤ p.length by omega),
        parseLines_extend hp (show stop + 4 ≤ p.length by omega)]

theorem parseHead_spec {r : HeadResult} (h : parseHead input = .ok r) :
    (r = .needMore ∧ indexOf input terminator = none) ∨
    ∃ stop, indexOf input terminator = some stop ∧ ((∃ e, r = .failure e) ∨
      ∃ head, r = .value head ∧ head.bodyStart = stop + 4 ∧ head.bodyStart ≤ maxHeaderBytes) := by
  unfold parseHead at h
  split at h
  · rename_i hnone
    cases h
    exact .inl ⟨rfl, hnone⟩
  · rename_i stop hstop
    refine .inr ⟨stop, hstop, ?_⟩
    simp only at h
    split at h
    · cases h
      exact .inl ⟨_, rfl⟩
    · rename_i hsmall
      obtain ⟨block, -, h⟩ := Except.bind_ok.1 h
      split at h
      · cases h
        exact .inl ⟨_, rfl⟩
      · obtain ⟨statusLine, -, h⟩ := Except.bind_ok.1 h
        obtain ⟨status, -, h⟩ := Except.bind_ok.1 h
        split at h
        · cases h
          exact .inl ⟨_, rfl⟩
        · obtain ⟨fields, -, h⟩ := Except.bind_ok.1 h
          split at h
          · cases h
            exact .inl ⟨_, rfl⟩
          · split at h
            · cases h
              exact .inl ⟨_, rfl⟩
            · obtain ⟨headers, -, h⟩ := Except.bind_ok.1 h
              cases h
              exact .inr ⟨_, rfl, rfl, Nat.le_of_not_lt hsmall⟩

end Head

end Http
end R4
