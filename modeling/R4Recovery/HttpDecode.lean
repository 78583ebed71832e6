import R4Recovery.Http
/-!
# HttpDecode — a response decoded from a growing buffer

`ResponseDecoder` of `http.zig`: each call is given all bytes so far, the body is copied to the buffer of the caller as it
comes.  Lengths and positions are words; a slice, a copy or a difference that leaves its bounds faults.
-/
namespace R4
namespace Http

structure Response where
  status : Nat
  transfer : Transfer
  body : Bytes
  headers : Bytes
  location : Option Bytes
  contentType : Option Bytes
  contentSecurityPolicy : Option Bytes
  accessControlAllowOrigin : Option Bytes
  accessControlAllowCredentials : Bool
  setCookie : Option Bytes
  setCookies : List Bytes
  contentRange : Option ContentRange
  consumed : Nat
  deriving DecidableEq, Repr

inductive DecodeResult where
  | complete (response : Response)
  | needMore
  | aborted
  | failure (e : ResponseError)
  deriving DecidableEq, Repr

inductive ChunkPhase where
  | size
  | data
  | dataCrlf
  | trailers
  deriving DecidableEq, Repr

structure ResponseDecoder where
  method : Method := .get
  head : Option ParsedHead := none
  cursor : Nat := 0
  written : Nat := 0
  copiedBytes : Nat := 0
  seenInput : Nat := 0
  headerScan : Nat := 0
  lineScan : Nat := 0
  remaining : Nat := 0
  trailerStart : Nat := 0
  trailerCount : Nat := 0
  phase : ChunkPhase := .size
  done : Bool := false
  cancelled : Bool := false
  failure : Option ResponseError := none
  deriving DecidableEq, Repr

/-- The size in front of an extension. -/
def chunkSize (line : Bytes) : Option Nat :=
  match indexOfByte line 59 with
  | some semi => parseHex (trimAscii (line.take semi))
  | none => parseHex (trimAscii line)

/-- A trailer that is not accepted. -/
def trailerError (line : Bytes) : Access (Option ResponseError) :=
  match indexOfByte line 58 with
  | none => .ok (some .malformedHeader)
  | some colon => do
    let name ← sub line 0 colon
    let value ← sub line (colon + 1) line.length
    if !isHeaderName name || hasForbiddenHeaderByte value then .ok (some .malformedHeader) else .ok none

namespace ResponseDecoder

def init (method : Method) : ResponseDecoder := { method := method }

/-- How a call ends. -/
structure Outcome where
  result : DecodeResult
  self : ResponseDecoder
  out : Bytes
  deriving DecidableEq, Repr

def fail (self : ResponseDecoder) (e : ResponseError) (out : Bytes) : Outcome :=
  ⟨.failure e, { self with failure := some e }, out⟩

def more (self : ResponseDecoder) (eof : Bool) (out : Bytes) : Outcome :=
  if eof then self.fail .transportClosedEarly out else ⟨.needMore, self, out⟩

def result (self : ResponseDecoder) (out : Bytes) : Access Outcome :=
  match self.head with
  | none => .error .bounds
  | some head => do
    let body ← sub out 0 self.written
    .ok ⟨.complete {
      status := head.status
      transfer := if noBody self.method head then .none else head.transfer
      body := body
      headers := head.headers
      location := head.location
      contentType := head.contentType
      contentSecurityPolicy := head.contentSecurityPolicy
      accessControlAllowOrigin := head.accessControlAllowOrigin
      accessControlAllowCredentials := head.accessControlAllowCredentials
      setCookie := head.setCookie
      setCookies := head.setCookies
      contentRange := head.contentRange
      consumed := self.cursor }, self, out⟩

def copy (self : ResponseDecoder) (input out : Bytes) (take : Nat) : Access (ResponseDecoder × Bytes) := do
  let piece ← sub input self.cursor (self.cursor + take)
  if self.written + take ≤ out.length then
    .ok ({ self with
      cursor := self.cursor + take
      written := self.written + take
      copiedBytes := self.copiedBytes + take }, put out self.written piece)
  else .error .bounds

def lineEnd (self : ResponseDecoder) (input : Bytes) : Access (Option Nat × ResponseDecoder) := do
  let start := max self.cursor self.lineScan
  let limit := min input.length (self.cursor + maxHeaderBytes)
  let window ← sub input start limit
  match indexOf window crlf with
  | some relative => .ok (some (start + relative), self)
  | none => .ok (none, { self with lineScan := max self.cursor (limit - 1) })

/-! ## The chunks -/

/-- One pass of the loop. -/
inductive Pass where
  | again (self : ResponseDecoder) (out : Bytes)
  | ended (outcome : Outcome)
  deriving DecidableEq, Repr

def sizePass (self : ResponseDecoder) (input out : Bytes) (eof : Bool) : Access Pass := do
  let (found, self) ← self.lineEnd input
  match found with
  | none => do
    let waiting ← minus input.length self.cursor
    if waiting ≥ maxHeaderBytes then .ok (.ended (self.fail .malformedChunk out)) else .ok (.ended (self.more eof out))
  | some stop => do
    let length ← minus stop self.cursor
    if length > maxHeaderBytes then .ok (.ended (self.fail .malformedChunk out))
    else do
      let line ← sub input self.cursor stop
      match chunkSize line with
      | none => .ok (.ended (self.fail .malformedChunk out))
      | some remaining => do
        let self := { self with remaining := remaining }
        let space ← minus out.length self.written
        if remaining > space then .ok (.ended (self.fail .bodyTooLarge out))
        else .ok (.again { self with
          cursor := stop + 2
          lineScan := 0
          phase := if remaining = 0 then .trailers else .data
          trailerStart := if remaining = 0 then stop + 2 else self.trailerStart } out)

def dataPass (self : ResponseDecoder) (input out : Bytes) (eof : Bool) : Access Pass := do
  let available ← minus input.length self.cursor
  let take := min available self.remaining
  let (self, out) ← self.copy input out take
  let remaining ← minus self.remaining take
  let self := { self with remaining := remaining }
  if remaining ≠ 0 then .ok (.ended (self.more eof out)) else .ok (.again { self with phase := .dataCrlf } out)

def crlfPass (self : ResponseDecoder) (input out : Bytes) (eof : Bool) : Access Pass := do
  let available ← minus input.length self.cursor
  if available < 2 then .ok (.ended (self.more eof out))
  else do
    let pair ← sub input self.cursor (self.cursor + 2)
    if pair ≠ crlf then .ok (.ended (self.fail .malformedChunk out))
    else .ok (.again { self with cursor := self.cursor + 2, phase := .size } out)

def trailerPass (self : ResponseDecoder) (input out : Bytes) (eof : Bool) : Access Pass := do
  let (found, self) ← self.lineEnd input
  match found with
  | none => do
    let waiting ← minus input.length self.trailerStart
    if waiting ≥ maxHeaderBytes then .ok (.ended (self.fail .headerTooLarge out)) else .ok (.ended (self.more eof out))
  | some stop => do
    let length ← minus (stop + 2) self.trailerStart
    if length > maxHeaderBytes then .ok (.ended (self.fail .headerTooLarge out))
    else do
      let line ← sub input self.cursor stop
      let self := { self with cursor := stop + 2, lineScan := 0 }
      if line.length = 0 then do
        let outcome ← { self with done := true }.result out
        .ok (.ended outcome)
      else do
        let self := { self with trailerCount := self.trailerCount + 1 }
        if self.trailerCount > maxHeaderCount then .ok (.ended (self.fail .tooManyHeaders out))
        else match ← trailerError line with
          | some e => .ok (.ended (self.fail e out))
          | none => .ok (.again self out)

def pass (self : ResponseDecoder) (input out : Bytes) (eof : Bool) : Access Pass :=
  match self.phase with
  | .size => self.sizePass input out eof
  | .data => self.dataPass input out eof
  | .dataCrlf => self.crlfPass input out eof
  | .trailers => self.trailerPass input out eof

/-- What every pass makes smaller. -/
def rank (self : ResponseDecoder) (input : Bytes) : Nat :=
  2 * (input.length - self.cursor) + if self.phase = .data then 1 else 0

section Rank

variable {self s : ResponseDecoder} {input out o text : Bytes} {eof : Bool} {a b n : Nat}

theorem minus_ok (h : b ≤ a) : minus a b = .ok (a - b) := if_pos h

theorem sub_eq_ok (h : sub text a b = .ok o) : a ≤ b ∧ b ≤ text.length ∧ o = slice text a (b - a) := by
  unfold sub at h
  split at h
  · rename_i hle
    cases h
    exact ⟨hle.1, hle.2, rfl⟩
  · cases h

theorem lineEnd_some {stop : Nat} (h : self.lineEnd input = .ok (some stop, s)) :
    s = self ∧ self.cursor ≤ stop ∧ stop + 2 ≤ input.length := by
  obtain ⟨window, hwindow, h⟩ := Except.bind_ok.1 h
  obtain ⟨hstart, hlimit, rfl⟩ := sub_eq_ok hwindow
  split at h
  · rename_i relative hrelative
    cases h
    have hle := (indexOf_some hrelative).1.end_le (List.cons_ne_nil _ _)
    rw [length_slice (by omega)] at hle
    have htwo : crlf.length = 2 := rfl
    exact ⟨rfl, by omega, by omega⟩
  · cases h

theorem rank_lt (hcursor : self.cursor < s.cursor) (hle : s.cursor ≤ input.length) : s.rank input < self.rank input := by
  unfold rank
  split
  · split <;> omega
  · split <;> omega

theorem sizePass_rank (hpass : self.sizePass input out eof = .ok (.again s o)) : s.rank input < self.rank input := by
  obtain ⟨⟨_ | stop, s1⟩, hline, h⟩ := Except.bind_ok.1 hpass
  · obtain ⟨waiting, -, h⟩ := Except.bind_ok.1 h
    split at h <;> cases h
  · simp only at h
    obtain ⟨rfl, hle, hin⟩ := lineEnd_some hline
    obtain ⟨length, -, h⟩ := Except.bind_ok.1 h
    by_cases hlong : length > maxHeaderBytes
    · rw [if_pos hlong] at h
      cases h
    · rw [if_neg hlong] at h
      obtain ⟨line, -, h⟩ := Except.bind_ok.1 h
      split at h
      · cases h
      · obtain ⟨space, -, h⟩ := Except.bind_ok.1 h
        split at h
        · cases h
        · cases h
          exact rank_lt (Nat.lt_add_right 1 (Nat.lt_succ_of_le hle)) hin

theorem dataPass_rank (hphase : self.phase = .data) (h : self.dataPass input out eof = .ok (.again s o)) :
    s.rank input < self.rank input := by
  obtain ⟨available, -, h⟩ := Except.bind_ok.1 h
  obtain ⟨⟨s1, o1⟩, hcopy, h⟩ := Except.bind_ok.1 h
  obtain ⟨remaining, -, h⟩ := Except.bind_ok.1 h
  obtain ⟨piece, -, hcopy⟩ := Except.bind_ok.1 hcopy
  split at hcopy
  · cases hcopy
    split at h
    · cases h
    · cases h
      rw [rank, rank, if_pos hphase, if_neg (by exact nofun)]
      simp only
      omega
  · cases hcopy

theorem crlfPass_rank (h : self.crlfPass input out eof = .ok (.again s o)) : s.rank input < self.rank input := by
  obtain ⟨available, -, h⟩ := Except.bind_ok.1 h
  split at h
  · cases h
  · obtain ⟨pair, hpair, h⟩ := Except.bind_ok.1 h
    split at h
    · cases h
    · cases h
      exact rank_lt (Nat.lt_add_of_pos_right Nat.two_pos) (sub_eq_ok hpair).2.1

theorem trailerPass_rank (hpass : self.trailerPass input out eof = .ok (.again s o)) : s.rank input < self.rank input := by
  obtain ⟨⟨_ | stop, s1⟩, hline, h⟩ := Except.bind_ok.1 hpass
  · obtain ⟨waiting, -, h⟩ := Except.bind_ok.1 h
    split at h <;> cases h
  · simp only at h
    obtain ⟨rfl, hle, hin⟩ := lineEnd_some hline
    obtain ⟨length, -, h⟩ := Except.bind_ok.1 h
    by_cases hlong : length > maxHeaderBytes
    · rw [if_pos hlong] at h
      cases h
    · rw [if_neg hlong] at h
      obtain ⟨line, -, h⟩ := Except.bind_ok.1 h
      by_cases hempty : line.length = 0
      · rw [if_pos hempty] at h
        obtain ⟨outcome, -, h⟩ := Except.bind_ok.1 h
        cases h
      · rw [if_neg hempty] at h
        by_cases hmany : s1.trailerCount + 1 > maxHeaderCount
        · rw [if_pos hmany] at h
          cases h
        · rw [if_neg hmany] at h
          obtain ⟨_ | e, -, h⟩ := Except.bind_ok.1 h
          · cases h
            exact rank_lt (Nat.lt_add_right 1 (Nat.lt_succ_of_le hle)) hin
          · cases h

/-- **Every pass that goes on comes closer to the end.** -/
theorem pass_rank (h : self.pass input out eof = .ok (.again s o)) : s.rank input < self.rank input := by
  unfold pass at h
  split at h
  · exact sizePass_rank h
  · exact dataPass_rank ‹_› h
  · exact crlfPass_rank h
  · exact trailerPass_rank h

end Rank

def chunks (self : ResponseDecoder) (input out : Bytes) (eof : Bool) : Access Outcome :=
  match _h : self.pass input out eof with
  | .error e => .error e
  | .ok (.ended outcome) => .ok outcome
  | .ok (.again s o) => chunks s input o eof
termination_by self.rank input
decreasing_by exact pass_rank _h

/-- The bytes behind the head. -/
def body (self : ResponseDecoder) (head : ParsedHead) (input out : Bytes) (eof : Bool) : Access Outcome :=
  if noBody self.method head || head.transfer == .none then { self with done := true }.result out
  else match head.transfer with
  | .contentLength =>
    if head.contentLength > out.length then .ok (self.fail .bodyTooLarge out)
    else do
      let available ← minus input.length self.cursor
      let missing ← minus head.contentLength self.written
      let (self, out) ← self.copy input out (min available missing)
      if self.written ≠ head.contentLength then .ok (self.more eof out)
      else ({ self with done := true } : ResponseDecoder).result out
  | .closeDelimited => do
    let take ← minus input.length self.cursor
    let space ← minus out.length self.written
    if take > space then .ok (self.fail .bodyTooLarge out)
    else do
      let (self, out) ← self.copy input out take
      if !eof then .ok ⟨.needMore, self, out⟩ else ({ self with done := true } : ResponseDecoder).result out
  | .chunked => self.chunks input out eof
  | .none => .error .bounds

/-- The head, when it is not known yet. -/
def headed (self : ResponseDecoder) (input out : Bytes) (eof : Bool) : Access Outcome := do
  let limit := min input.length maxHeaderBytes
  if self.headerScan > limit then .ok (self.fail .malformedHeader out)
  else do
    let window ← sub input self.headerScan limit
    match indexOf window terminator with
    | none =>
      let self := { self with headerScan := limit - 3 }
      if input.length ≥ maxHeaderBytes then .ok (self.fail .headerTooLarge out) else .ok (self.more eof out)
    | some _ =>
      match ← parseHead input with
      | .needMore => .ok (self.more eof out)
      | .failure e => .ok (self.fail e out)
      | .value head => ({ self with head := some head, cursor := head.bodyStart } : ResponseDecoder).body head input out eof

def decode (self : ResponseDecoder) (input out : Bytes) (eof stopRequested : Bool) : Access Outcome :=
  let self := if stopRequested then { self with cancelled := true } else self
  if self.cancelled then .ok ⟨.aborted, self, out⟩
  else match self.failure with
  | some e => .ok ⟨.failure e, self, out⟩
  | none =>
    if input.length < self.seenInput ∨ self.cursor > input.length ∨ self.written > out.length then
      .ok (self.fail .unexpectedBody out)
    else
      let self := { self with seenInput := input.length }
      if self.done then self.result out
      else match self.head with
      | none => self.headed input out eof
      | some head => self.body head input out eof

end ResponseDecoder
end Http
end R4
