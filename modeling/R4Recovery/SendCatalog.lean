import R4Recovery.Sequence
import R4Recovery.Slots
import Mathlib.Data.List.Basic
/-!
# SendCatalog — what a connection has sent and the peer has not acknowledged

Every SYN, FIN and payload is kept in a slot until an acknowledgement covers it; an acknowledgement of a part cuts that
part off.  A slot's payload array with its offset and length is the list of the bytes still owed.
-/
namespace R4
namespace Tcp

def sentSegmentCapacity : Nat := 48
def sentPayloadCapacity : Nat := 1460

def flagFin : UInt16 := 0x001
def flagSyn : UInt16 := 0x002

def seqAfter (a b : UInt32) : Bool := Sequence.after a b

/-- `(flags & mask) != 0`. -/
def has (flags mask : UInt16) : Bool := flags &&& mask != 0

inductive SegmentKind where
  | any | data | syn | fin
  deriving DecidableEq, Repr

structure SentSegment where
  valid : Bool := false
  token : UInt64 := 0
  seq : UInt32 := 0
  ack : UInt32 := 0
  flags : UInt16 := 0
  payload : List UInt8 := []
  sentTick : UInt64 := 0
  retransmits : UInt8 := 0

def needsTracking (flags : UInt16) (payloadLen : Nat) : Bool := payloadLen != 0 || has flags (flagSyn ||| flagFin)

def sequenceLengthFor (flags : UInt16) (payloadLen : Nat) : UInt32 :=
  let result := payloadLen.toUInt32
  let result := if has flags flagSyn then result + 1 else result
  if has flags flagFin then result + 1 else result

def SentSegment.sequenceLength (s : SentSegment) : UInt32 := sequenceLengthFor s.flags s.payload.length

def SentSegment.matches (s : SentSegment) (kind : SegmentKind) : Bool :=
  s.valid && match kind with
    | .any => true
    | .data => s.payload.length != 0
    | .syn => has s.flags flagSyn
    | .fin => has s.flags flagFin

/-- One slot's turn in the loop over the catalog. -/
def SentSegment.acknowledge (ack : UInt32) (s : SentSegment) : SentSegment :=
  if !s.valid || !seqAfter ack s.seq then s
  else
    let distance := ack - s.seq
    if s.sequenceLength ≤ distance then { s with valid := false }
    else
      let (s, acknowledged) :=
        if has s.flags flagSyn && distance != 0 then
          ({ s with flags := s.flags &&& ~~~flagSyn, seq := s.seq + 1 }, distance - 1)
        else (s, distance)
      let (s, acknowledged) :=
        if acknowledged != 0 && s.payload.length != 0 then
          let trim := min acknowledged.toNat s.payload.length
          ({ s with payload := s.payload.drop trim, seq := s.seq + trim.toUInt32 }, acknowledged - trim.toUInt32)
        else (s, acknowledged)
      if has s.flags flagFin && acknowledged != 0 then { s with valid := false } else s

structure AckResult where
  progressed : Bool := false
  fullyAcked : UInt8 := 0
  remaining : UInt8 := 0
  deriving DecidableEq, Repr

/-- One more slot given up; the count stays at 255. -/
def AckResult.gone (r : AckResult) : AckResult :=
  { r with progressed := true, fullyAcked := if r.fullyAcked = 255 then 255 else r.fullyAcked + 1 }

/-- What the same turn reports. -/
def SentSegment.report (ack : UInt32) (result : AckResult) (s : SentSegment) : AckResult :=
  if !s.valid || !seqAfter ack s.seq then result
  else
    let distance := ack - s.seq
    if s.sequenceLength ≤ distance then result.gone
    else
      let (result, acknowledged) :=
        if has s.flags flagSyn && distance != 0 then ({ result with progressed := true }, distance - 1)
        else (result, distance)
      let (result, acknowledged) :=
        if acknowledged != 0 && s.payload.length != 0 then
          ({ result with progressed := true }, acknowledged - (min acknowledged.toNat s.payload.length).toUInt32)
        else (result, acknowledged)
      if has s.flags flagFin && acknowledged != 0 then result.gone else result

structure SendCatalog where
  segments : Fin sentSegmentCapacity → SentSegment := fun _ => {}
  nextToken : UInt64 := 1

namespace SendCatalog

def reset (c : SendCatalog) : SendCatalog :=
  { segments := fun i => { c.segments i with valid := false }, nextToken := 1 }

def hasCapacity (c : SendCatalog) : Bool := (List.finRange sentSegmentCapacity).any (fun i => !(c.segments i).valid)

def count (c : SendCatalog) : Nat := (List.finRange sentSegmentCapacity).countP (fun i => (c.segments i).valid)

def freeCount (c : SendCatalog) : Nat := sentSegmentCapacity - c.count

def outstandingBytes (c : SendCatalog) : Nat :=
  (List.finRange sentSegmentCapacity).foldl
    (fun result i => if (c.segments i).valid then result + (c.segments i).payload.length else result) 0

/-- Keeps a segment in the first free slot. -/
def track (c : SendCatalog) (seq ack : UInt32) (flags : UInt16) (payload : List UInt8) (sentTick : UInt64) :
    Option (UInt64 × SendCatalog) :=
  if !needsTracking flags payload.length || decide (sentPayloadCapacity < payload.length) then none
  else
    match Slots.first (fun i => !(c.segments i).valid) with
    | none => none
    | some i =>
      let token := if c.nextToken = 0 then 1 else c.nextToken
      let next := if c.nextToken + 1 = 0 then 1 else c.nextToken + 1
      let kept : SentSegment := { valid := true, token, seq, ack, flags, payload, sentTick, retransmits := 0 }
      some (token, { segments := Function.update c.segments i kept, nextToken := next })

def acknowledge (c : SendCatalog) (ack : UInt32) : SendCatalog :=
  { c with segments := fun i => (c.segments i).acknowledge ack }

/-- What `acknowledge` returns: the turns of the slots in order, and the number of slots still in use. -/
def ackResult (c : SendCatalog) (ack : UInt32) : AckResult :=
  let result := (List.finRange sentSegmentCapacity).foldl (fun result i => (c.segments i).report ack result) {}
  { result with remaining := (c.acknowledge ack).count.toUInt8 }

/-- The slot of the oldest segment of a kind. -/
def oldest (c : SendCatalog) (kind : SegmentKind) : Option (Fin sentSegmentCapacity) :=
  Slots.best (fun i => (c.segments i).matches kind) (fun i j => (c.segments i).token < (c.segments j).token)

def markRetransmitted (c : SendCatalog) (token : UInt64) (sentTick : UInt64) : Option SendCatalog :=
  match Slots.first (fun i => (c.segments i).valid && (c.segments i).token == token) with
  | none => none
  | some i =>
    let s := c.segments i
    let retransmits := if s.retransmits = 255 then 255 else s.retransmits + 1
    some { c with segments := Function.update c.segments i { s with sentTick, retransmits } }

end SendCatalog
end Tcp
end R4
