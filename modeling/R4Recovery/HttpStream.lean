import R4Recovery.Http
/-!
# HttpStream — a response decoded as it arrives

`StreamDecoder` of `http.zig`: the head is gathered byte by byte in a buffer of the caller, the body passes through.  A
failure of the head is recorded in the state; the other exits with a failure are not.
-/
namespace R4
namespace Http

inductive StreamDecodeResult where
  | chunk (bytes : Bytes) (complete : Bool)
  | complete
  | needMore
  | aborted
  | failure (e : ResponseError)
  deriving DecidableEq, Repr

structure StreamDecoder where
  headerBuffer : Bytes
  method : Method
  headerLen : Nat := 0
  head : Option ParsedHead := none
  received : Nat := 0
  done : Bool := false
  failure : Option ResponseError := none
  deriving DecidableEq, Repr

namespace StreamDecoder

def init (headerBuffer : Bytes) (method : Method) : StreamDecoder := { headerBuffer := headerBuffer, method := method }

/-- How a turn of gathering the head ends. -/
inductive Fed where
  | more
  | full
  | head (body : Bytes)
  | failed (e : ResponseError)
  deriving DecidableEq, Repr

/-- One more byte of the head. -/
def store (self : StreamDecoder) (byte : UInt8) : StreamDecoder :=
  { self with headerBuffer := self.headerBuffer.set self.headerLen byte, headerLen := self.headerLen + 1 }

/-- The loop over the bytes of the input. -/
def feed (self : StreamDecoder) : Bytes → Access (StreamDecoder × Fed)
  | [] => .ok (self, .more)
  | byte :: rest =>
    if self.headerLen ≥ self.headerBuffer.length ∨ self.headerLen ≥ maxHeaderBytes then .ok (self, .full)
    else
      let self := self.store byte
      if self.headerLen ≥ 4 ∧ slice self.headerBuffer (self.headerLen - 4) 4 = terminator then do
        let gathered ← sub self.headerBuffer 0 self.headerLen
        match ← parseHead gathered with
        | .value head => .ok ({ self with head := some head }, .head rest)
        | .needMore => .ok (self, .more)
        | .failure e => .ok ({ self with failure := some e }, .failed e)
      else feed self rest

/-- The bytes behind the head. -/
def deliver (self : StreamDecoder) (head : ParsedHead) (body : Bytes) (eof : Bool) : StreamDecodeResult × StreamDecoder :=
  if noBody self.method head then
    if body.length ≠ 0 then (.failure .unexpectedBody, self) else (.complete, { self with done := true })
  else if head.transfer ≠ .contentLength then (.failure .contentLengthRequired, self)
  else if self.received > head.contentLength ∨ body.length > head.contentLength - self.received then
    (.failure .conflictingLength, self)
  else
    let received := self.received + body.length
    let complete := received == head.contentLength
    let self := { self with received := received, done := self.done || complete }
    if body.length ≠ 0 then (.chunk body complete, self)
    else if complete then (.complete, self)
    else (if eof then .failure .transportClosedEarly else .needMore, self)

def unfinished (eof : Bool) : StreamDecodeResult := if eof then .failure .transportClosedEarly else .needMore

def push (self : StreamDecoder) (input : Bytes) (eof stopRequested : Bool) : Access (StreamDecodeResult × StreamDecoder) :=
  if stopRequested then .ok (.aborted, self)
  else match self.failure with
  | some e => .ok (.failure e, self)
  | none =>
    if self.done then .ok (if input.length = 0 then .complete else .failure .unexpectedBody, self)
    else match self.head with
    | some head => .ok (self.deliver head input eof)
    | none => do
      let (self, fed) ← self.feed input
      match fed with
      | .more => .ok (unfinished eof, self)
      | .full => .ok (.failure .headerTooLarge, self)
      | .failed e => .ok (.failure e, self)
      | .head body =>
        match self.head with
        | some head => .ok (self.deliver head body eof)
        | none => .ok (unfinished eof, self)

end StreamDecoder

end Http
end R4
