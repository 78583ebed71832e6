import R4Recovery.Ring
import R4Recovery.SendCatalog
/-!
# Tcp — the kernel's TCP connections

The connection table of `tcp.zig`: creation, the reaction to received segments, the receive buffer with its out-of-order
slots, sending, closing and reaping.  Counters and texts that only diagnostics read are left out, and the segment views
carry only what the state machine looks at.
-/
namespace R4
namespace Tcp

def maxConnections : Nat := 16
def maxListeners : Nat := 4
def bufferSize : Nat := 256 * 1024
def maxAdvertisedWindow : UInt16 := 0xFFFF
def localMss : UInt16 := 1460
def defaultPeerMss : UInt16 := 536
def localWindowScale : UInt8 := 2
def maxWindowScale : UInt8 := 14
def outOfOrderSlotCount : Nat := 48
def outOfOrderSlotSize : Nat := 2048

/-- Three seconds of ticks. -/
def timeWaitTicks : UInt64 := 3000

def flagRst : UInt16 := 0x004
def flagAck : UInt16 := 0x010

inductive State where
  | closed | synSent | established | finWait | synReceived | lastAck | timeWait
  deriving DecidableEq, Repr

abbrev Ip : Type := Vector UInt8 4

structure SegmentView where
  sourceIp : Ip
  sourcePort : UInt16
  destPort : UInt16
  seq : UInt32
  ack : UInt32
  flags : UInt16
  window : UInt16
  mss : UInt16 := 0
  windowScale : UInt8 := 0
  windowScalePresent : Bool := false
  payload : List UInt8

/-- A segment that came too early; `payload` is the first `len` bytes of the slot. -/
structure OutOfOrderSegment where
  valid : Bool := false
  seq : UInt32 := 0
  payload : List UInt8 := []
  deriving DecidableEq

structure Connection where
  used : Bool := false
  id : UInt32 := 0
  generation : UInt32 := 0
  state : State := .closed
  localPort : UInt16 := 0
  remotePort : UInt16 := 0
  remoteIp : Ip := Vector.replicate 4 0
  seq : UInt32 := 0
  ack : UInt32 := 0
  txWindow : UInt32 := 0
  txAck : UInt32 := 0
  peerMss : UInt16 := defaultPeerMss
  peerWindowScale : UInt8 := 0
  windowScaleOffered : Bool := false
  windowScaleReceived : Bool := false
  windowScaleActive : Bool := false
  closeRequested : Bool := false
  timeWaitUntil : UInt64 := 0
  rx : Ring UInt8 := ⟨fun _ => 0, 0, 0⟩
  sent : SendCatalog := {}
  outOfOrder : Fin outOfOrderSlotCount → OutOfOrderSegment := fun _ => {}

def sanitizedPeerMss (value : UInt16) : UInt16 := if value = 0 then defaultPeerMss else min localMss value

def deadlineReached (now deadline : UInt64) : Bool := decide ((now - deadline).toNat < 9223372036854775808)

/-- `optionMetadata`: the maximum segment size, and the window scale when there is one. -/
def optionMetadata (mss : UInt16) (windowScale : Option UInt8) : UInt32 :=
  match windowScale with
  | none => mss.toUInt32
  | some scale => mss.toUInt32 ||| ((1 : UInt32) <<< 16) ||| ((min scale maxWindowScale).toUInt32 <<< 17)

namespace Connection

def discardCatalog (c : Connection) : Connection := { c with sent := c.sent.reset }

/-- Everything back to its default; the buffers keep their bytes. -/
def resetConnectionSlot (c : Connection) : Connection :=
  { rx := { c.rx with head := 0, len := 0 }
    sent := c.sent.reset
    outOfOrder := fun i => { c.outOfOrder i with valid := false } }

/-! ## The receive buffer -/

def rxFree (c : Connection) : Nat := bufferSize - c.rx.len

def setSlot (c : Connection) (i : Fin outOfOrderSlotCount) (slot : OutOfOrderSegment) : Connection :=
  { c with outOfOrder := Function.update c.outOfOrder i slot }

/-- Takes what fits; the rest of the payload is dropped. -/
def acceptInOrderPayload (c : Connection) (seq : UInt32) (payload : List UInt8) : Connection :=
  let copyLen := min payload.length c.rxFree
  { c with rx := c.rx.push bufferSize (payload.take copyLen), ack := seq + copyLen.toUInt32 }

def findOutOfOrderFree (c : Connection) : Option (Fin outOfOrderSlotCount) := Slots.first (fun i => !(c.outOfOrder i).valid)

def slotEnd (slot : OutOfOrderSegment) : UInt32 := slot.seq + slot.payload.length.toUInt32

def covers (slot : OutOfOrderSegment) (seq : UInt32) (len : Nat) : Bool :=
  let theEnd := seq + len.toUInt32
  let seqCovered := slot.seq = seq || (!seqAfter slot.seq seq && seqAfter (slotEnd slot) seq)
  let endCovered := slotEnd slot = theEnd || seqAfter (slotEnd slot) theEnd
  seqCovered && endCovered

def findOutOfOrderCovering (c : Connection) (seq : UInt32) (len : Nat) : Option (Fin outOfOrderSlotCount) :=
  Slots.first (fun i => (c.outOfOrder i).valid && covers (c.outOfOrder i) seq len)

/-- The slot farthest ahead, when the new segment is nearer. -/
def selectOutOfOrderReplacement (c : Connection) (seq : UInt32) : Option (Fin outOfOrderSlotCount) :=
  let distance := fun i => (c.outOfOrder i).seq - c.ack
  match Slots.best (fun i => (c.outOfOrder i).valid) (fun i j => distance j < distance i) with
  | none => none
  | some i => if seq - c.ack < distance i then some i else none

def storeOutOfOrderPayload (c : Connection) (seq : UInt32) (payload : List UInt8) : Connection :=
  if outOfOrderSlotSize < payload.length then c
  else if !seqAfter (seq + payload.length.toUInt32) c.ack then c
  else
    match c.findOutOfOrderCovering seq payload.length with
    | some i =>
      let slot := c.outOfOrder i
      if slot.payload.length < payload.length then c.setSlot i { slot with payload } else c
    | none =>
      match c.findOutOfOrderFree.or (c.selectOutOfOrderReplacement seq) with
      | none => c
      | some i => c.setSlot i { valid := true, seq, payload }

/-- The slot begins at the acknowledged position or reaches over it. -/
def flushable (c : Connection) (slot : OutOfOrderSegment) : Bool :=
  slot.valid && (slot.seq = c.ack || (!seqAfter slot.seq c.ack && seqAfter (slotEnd slot) c.ack))

def findFlushableOutOfOrder (c : Connection) : Option (Fin outOfOrderSlotCount) :=
  let offset := fun i => c.ack - (c.outOfOrder i).seq
  Slots.best (fun i => c.flushable (c.outOfOrder i)) (fun i j => offset i < offset j)

/-- The loop of `flushOutOfOrderPayload`: every turn empties a slot. -/
def flushSlots : Nat → Connection → Connection
  | 0, c => c
  | fuel + 1, c =>
    match c.findFlushableOutOfOrder with
    | none => c
    | some i =>
      let slot := c.outOfOrder i
      let offset := (c.ack - slot.seq).toNat
      if slot.payload.length ≤ offset then flushSlots fuel (c.setSlot i {})
      else
        let remaining := slot.payload.length - offset
        if c.rxFree < remaining then c
        else flushSlots fuel ((c.setSlot i {}).acceptInOrderPayload c.ack (slot.payload.drop offset))

def flushOutOfOrderPayload (c : Connection) : Connection := flushSlots outOfOrderSlotCount c

def acceptPayload (c : Connection) (seq : UInt32) (payload : List UInt8) : Connection :=
  if payload.length = 0 then c
  else if seq = c.ack then (c.acceptInOrderPayload seq payload).flushOutOfOrderPayload
  else if seqAfter seq c.ack then c.storeOutOfOrderPayload seq payload
  else
    let overlap := (c.ack - seq).toNat
    if overlap < payload.length then (c.acceptInOrderPayload c.ack (payload.drop overlap)).flushOutOfOrderPayload
    else c

/-- `none` is the end of a closed connection, which gives its slot up. -/
def read (c : Connection) (outLen : Nat) : Option (List UInt8) × Connection :=
  let len := if outLen < c.rx.len then outLen else c.rx.len
  if len ≠ 0 then
    let (out, rx) := c.rx.pop bufferSize len
    let rx := if rx.len = 0 then { rx with head := 0 } else rx
    (some out, flushOutOfOrderPayload { c with rx })
  else if c.state = .closed then (none, { c.discardCatalog with used := false })
  else (some [], c)

/-! ## Received segments -/

/-- A live connection between these ports and this peer. -/
def matchesView (c : Connection) (view : SegmentView) : Bool :=
  c.used && c.state != .closed && c.localPort == view.destPort && c.remotePort == view.sourcePort && c.remoteIp == view.sourceIp

def segmentSeqAcceptable (c : Connection) (view : SegmentView) : Bool :=
  let segEnd := view.seq + view.payload.length.toUInt32
  let window : UInt32 := (max 1 c.rxFree).toUInt32
  view.seq = c.ack || (view.payload.length ≠ 0 && !seqAfter view.seq c.ack && seqAfter segEnd c.ack) ||
    view.seq - c.ack < window

def resetSeqAcceptable (c : Connection) (view : SegmentView) : Bool :=
  match c.state with
  | .synSent => has view.flags flagAck && view.ack = c.seq + 1
  | .synReceived | .established | .finWait | .lastAck | .timeWait => c.segmentSeqAcceptable view
  | .closed => false

def applyPeerHandshakeOptions (c : Connection) (view : SegmentView) : Connection :=
  { c with
    peerMss := sanitizedPeerMss view.mss
    windowScaleReceived := view.windowScalePresent
    peerWindowScale := if view.windowScalePresent then min view.windowScale maxWindowScale else 0
    windowScaleActive := c.windowScaleOffered && view.windowScalePresent }

/-- The window a segment announces, scaled. -/
def advertised (c : Connection) (view : SegmentView) : UInt32 :=
  let shift : UInt32 :=
    if c.windowScaleActive && !has view.flags flagSyn then (min c.peerWindowScale maxWindowScale).toUInt32 else 0
  view.window.toUInt32 <<< shift

def updateTxWindow (c : Connection) (view : SegmentView) : Connection :=
  let advertised := c.advertised view
  if !has view.flags flagAck then { c with txWindow := advertised }
  else
    let rightEdge := view.ack + advertised
    { c with
      txAck := if c.txAck = 0 || seqAfter view.ack c.txAck then view.ack else c.txAck
      sent := c.sent.acknowledge view.ack
      txWindow := if seqAfter rightEdge c.seq then rightEdge - c.seq else 0 }

/-- A reset that is not stale ends the connection. -/
def receiveReset (c : Connection) (view : SegmentView) : Connection :=
  if !c.resetSeqAcceptable view then c else { c.discardCatalog with state := .closed, used := false }

def receiveEstablished (c : Connection) (view : SegmentView) : Connection :=
  if (view.payload.length ≠ 0 || has view.flags flagFin) && !c.segmentSeqAcceptable view then c
  else
    let c := c.updateTxWindow view
    let c := if view.payload.length ≠ 0 then c.acceptPayload view.seq view.payload else c
    if has view.flags flagFin && view.seq + view.payload.length.toUInt32 = c.ack then
      { c with ack := c.ack + 1, state := .closed }
    else c

def receiveFinWait (c : Connection) (view : SegmentView) : Connection :=
  let c := c.updateTxWindow view
  let c := if has view.flags flagFin && view.seq = c.ack then { c with ack := c.ack + 1 } else c
  let c := { c with state := .closed }
  if !has view.flags flagFin then { c.discardCatalog with used := false } else c

/-- What `applyRxView` does to the matched connection. -/
def receive (c : Connection) (view : SegmentView) : Connection :=
  if has view.flags flagRst then c.receiveReset view
  else if c.state = .synSent && view.flags &&& (flagSyn ||| flagAck) = flagSyn ||| flagAck && view.ack = c.seq + 1 then
    let c := c.applyPeerHandshakeOptions view
    let c := { c with seq := c.seq + 1, ack := view.seq + 1, state := .established }
    c.updateTxWindow view
  else if c.state = .synReceived && has view.flags flagAck && view.ack = c.seq + 1 then
    let c := { c with seq := c.seq + 1, state := .established }
    c.updateTxWindow view
  else if c.state = .established then c.receiveEstablished view
  else if c.state = .finWait && has view.flags flagAck then c.receiveFinWait view
  else c

/-! ## Sending -/

def advertisedWindow (c : Connection) : UInt16 :=
  let scaled := if c.windowScaleActive then c.rxFree >>> localWindowScale.toNat else c.rxFree
  if maxAdvertisedWindow.toNat < scaled then maxAdvertisedWindow else scaled.toUInt16

def advertisedWindowForFlags (c : Connection) (flags : UInt16) : UInt16 :=
  if has flags flagSyn then
    if maxAdvertisedWindow.toNat < c.rxFree then maxAdvertisedWindow else c.rxFree.toUInt16
  else c.advertisedWindow

def optionsForFlags (c : Connection) (flags : UInt16) : UInt32 :=
  if !has flags flagSyn then 0
  else optionMetadata localMss (if c.windowScaleOffered then some localWindowScale else none)

def sendAllowance (c : Connection) (requested : Nat) : Nat :=
  if c.state ≠ .established || c.closeRequested then 0
  else
    let segmentRequest := min requested c.peerMss.toNat
    if !c.sent.hasCapacity || c.txWindow = 0 || segmentRequest = 0 then 0 else min segmentRequest c.txWindow.toNat

def canTrackSend (c : Connection) (flags : UInt16) (payloadLen : Nat) : Bool :=
  let ackOnly := flags = flagAck && payloadLen = 0
  if c.state = .closed && !ackOnly then false
  else if !needsTracking flags payloadLen then true
  else payloadLen ≤ sentPayloadCapacity && c.sent.hasCapacity

structure RetransmitPlan where
  localPort : UInt16
  remotePort : UInt16
  remoteIp : Ip
  seq : UInt32
  ack : UInt32
  flags : UInt16
  rxWindow : UInt16
  options : UInt32
  payload : List UInt8
  token : UInt64
  sentTick : UInt64
  retransmits : UInt8

def planRetransmit (c : Connection) (kind : SegmentKind) : Option RetransmitPlan :=
  if c.state = .closed then none
  else
    match c.sent.oldest kind with
    | none => none
    | some i =>
      let segment := c.sent.segments i
      some
        { localPort := c.localPort, remotePort := c.remotePort, remoteIp := c.remoteIp
          seq := segment.seq, ack := segment.ack, flags := segment.flags
          rxWindow := c.advertisedWindowForFlags segment.flags, options := c.optionsForFlags segment.flags
          payload := segment.payload, token := segment.token, sentTick := segment.sentTick
          retransmits := segment.retransmits }

def rememberSent (c : Connection) (flags : UInt16) (payload : List UInt8) (sentTick : UInt64) : Option Connection :=
  if !needsTracking flags payload.length then some c
  else
    match c.sent.track c.seq c.ack flags payload sentTick with
    | none => none
    | some (_, sent) => some { c with sent }

/-- `none` when the catalog had no room. -/
def commitSent (c : Connection) (flags : UInt16) (payload : List UInt8) (sentTick : UInt64) : Option Connection :=
  match c.rememberSent flags payload sentTick with
  | none => none
  | some c =>
    if has flags flagSyn then some c
    else
      let c :=
        if payload.length ≠ 0 then
          { c with seq := c.seq + payload.length.toUInt32, txWindow := (c.txWindow.toNat - payload.length).toUInt32 }
        else c
      some (if has flags flagFin then { c with seq := c.seq + 1, closeRequested := false, state := .finWait } else c)

def recordRetransmit (c : Connection) (token sentTick : UInt64) : Option Connection :=
  match c.sent.markRetransmitted token sentTick with
  | none => none
  | some sent => some { c with sent }

/-! ## Closing -/

def requestClose (c : Connection) : Bool × Connection :=
  match c.state with
  | .established => (true, { c with closeRequested := true })
  | .finWait | .lastAck | .timeWait | .closed => (true, c)
  | .synSent | .synReceived => (false, c)

def closeReady (c : Connection) : Bool := c.state = .established && c.closeRequested && c.sent.count = 0

def abort (c : Connection) : Connection := { c.discardCatalog with state := .closed, used := false }

def close (c : Connection) : Connection :=
  if c.state = .closed then { c.discardCatalog with used := false }
  else { c.discardCatalog with state := .closed, used := false }

/-- One slot's turn in `reapTimeWait`. -/
def reap (now : UInt64) (c : Connection) : Connection :=
  if !c.used then c
  else if c.state = .closed && c.rx.len = 0 then
    if c.timeWaitUntil = 0 then { c with timeWaitUntil := now + timeWaitTicks }
    else if deadlineReached now c.timeWaitUntil then c.resetConnectionSlot
    else c
  else if c.state ≠ .finWait && !(c.state = .established && c.closeRequested) then c
  else if c.timeWaitUntil = 0 then { c with timeWaitUntil := now + timeWaitTicks }
  else if deadlineReached now c.timeWaitUntil then c.resetConnectionSlot
  else c

end Connection

/-! ## The table -/

structure Listener where
  used : Bool := false
  port : UInt16 := 0

abbrev Slot : Type := Fin maxConnections

structure Table where
  connections : Slot → Connection := fun _ => {}
  slotGenerations : Slot → UInt32 := fun _ => 0
  listeners : Fin maxListeners → Listener := fun _ => {}
  nextId : UInt32 := 1
  nextPort : UInt16 := 49152

namespace Table

def set (t : Table) (i : Slot) (c : Connection) : Table := { t with connections := Function.update t.connections i c }

def byId (t : Table) (id : UInt32) : Option Slot := Slots.first (fun i => (t.connections i).used && (t.connections i).id == id)

def matchConnection (t : Table) (view : SegmentView) : Option Slot :=
  Slots.first (fun i => (t.connections i).matchesView view)

def reapClosedConnectionSlots (t : Table) : Table :=
  { t with connections := fun i =>
      let c := t.connections i
      if !c.used || c.state != .closed then c else c.resetConnectionSlot }

/-- The first free slot, after the closed ones have been reaped when there was none. -/
def allocConnection (t : Table) : Option Slot × Table :=
  match Slots.first (fun i => !(t.connections i).used) with
  | some i => (some i, t)
  | none =>
    let t := t.reapClosedConnectionSlots
    (Slots.first (fun i => !(t.connections i).used), t)

def nextSlotGeneration (t : Table) (i : Slot) : UInt32 :=
  if t.slotGenerations i + 1 = 0 then 1 else t.slotGenerations i + 1

/-- Takes a slot and the next id for a new connection, whose other fields are `fields`. -/
def create (t : Table) (i : Slot) (fields : Connection → Connection) : Table :=
  let generation := t.nextSlotGeneration i
  let c := { (t.connections i).resetConnectionSlot with used := true, id := t.nextId, generation }
  { t.set i (fields c) with
    slotGenerations := Function.update t.slotGenerations i generation
    nextId := if t.nextId + 1 = 0 then 1 else t.nextId + 1 }

/-- A checked cast to `i32`; `none` is the trap. -/
def intCast (value : UInt32) : Option Int := if value.toNat < 2147483648 then some value.toNat else none

/-- The id as `i32`, or -1. -/
def beginLiveConnect (t : Table) (remoteIp : Ip) (remotePort : UInt16) (initialSeq : UInt32) : Option Int × Table :=
  match t.allocConnection with
  | (none, t) => (some (-1), t)
  | (some i, t) =>
    let port := t.nextPort
    let t' := t.create i (fun c =>
      { c with state := .synSent, localPort := port, remotePort, remoteIp, seq := initialSeq, windowScaleOffered := true })
    (intCast t.nextId, { t' with nextPort := if port + 1 < 49152 then 49152 else port + 1 })

def hasListener (t : Table) (port : UInt16) : Bool :=
  (List.finRange maxListeners).any (fun i => (t.listeners i).used && (t.listeners i).port == port)

def listen (t : Table) (port : UInt16) : Bool × Table :=
  if port = 0 then (false, t)
  else if t.hasListener port then (true, t)
  else
    match Slots.first (fun i => !(t.listeners i).used) with
    | none => (false, t)
    | some i => (true, { t with listeners := Function.update t.listeners i { used := true, port } })

/-- A new inbound connection in a free slot. -/
def acceptNew (t : Table) (view : SegmentView) (initialSeq : UInt32) : Option UInt32 × Table :=
  match t.allocConnection with
  | (none, t) => (none, t)
  | (some i, t) =>
    (some t.nextId, t.create i (fun c =>
      { c with
        state := .synReceived, localPort := view.destPort, remotePort := view.sourcePort, remoteIp := view.sourceIp
        seq := initialSeq, ack := view.seq + 1, txWindow := view.window.toUInt32, peerMss := sanitizedPeerMss view.mss
        peerWindowScale := if view.windowScalePresent then min view.windowScale maxWindowScale else 0
        windowScaleOffered := view.windowScalePresent, windowScaleReceived := view.windowScalePresent
        windowScaleActive := view.windowScalePresent }))

def acceptInbound (t : Table) (view : SegmentView) (initialSeq : UInt32) : Option UInt32 × Table :=
  if !t.hasListener view.destPort then (none, t)
  else if !has view.flags flagSyn || has view.flags flagAck then (none, t)
  else
    match t.matchConnection view with
    | none => t.acceptNew view initialSeq
    | some i =>
      if (t.connections i).state = .synReceived then (some (t.connections i).id, t)
      else (t.set i (t.connections i).resetConnectionSlot).acceptNew view initialSeq

/-- Runs `f` on the connection an id names. -/
def onId (t : Table) (id : UInt32) (f : Connection → Connection) : Table :=
  match t.byId id with
  | none => t
  | some i => t.set i (f (t.connections i))

def abort (t : Table) (id : UInt32) : Table := t.onId id Connection.abort

def close (t : Table) (id : UInt32) : Table := t.onId id Connection.close

def requestClose (t : Table) (id : UInt32) : Table := t.onId id (fun c => c.requestClose.2)

/-- The bytes read, `none` when there is no such connection or it has ended. -/
def read (t : Table) (id : UInt32) (outLen : Nat) : Option (List UInt8) × Table :=
  match t.byId id with
  | none => (none, t)
  | some i => ((t.connections i).read outLen |>.1, t.set i ((t.connections i).read outLen).2)

/-- A send as `sendTcpForConnection` commits it. -/
def send (t : Table) (id : UInt32) (flags : UInt16) (payload : List UInt8) (sentTick : UInt64) : Table :=
  t.onId id (fun c =>
    if c.canTrackSend flags payload.length then (c.commitSent flags payload sentTick).getD c else c)

def abortConnectionsOnPort (t : Table) (port : UInt16) : Table :=
  { t with connections := fun i =>
      let c := t.connections i
      if !c.used || c.localPort != port then c else c.resetConnectionSlot }

def applyRxView (t : Table) (view : SegmentView) : Table :=
  match t.matchConnection view with
  | none => t
  | some i => t.set i ((t.connections i).receive view)

def reapTimeWait (t : Table) (now : UInt64) : Table := { t with connections := fun i => (t.connections i).reap now }

end Table
end Tcp
end R4
