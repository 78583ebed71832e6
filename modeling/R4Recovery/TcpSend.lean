import R4Recovery.TcpStream
/-!
# TcpSend — what a connection owes the peer

Everything a connection has sent is a list of items: the SYN, the bytes, the FIN.  A slot of the catalog is a piece of that
list, an acknowledgement drops what it covers from the front of the pieces.
-/
namespace R4
namespace Tcp

open Sequence (num)
open Runs (Along)

/-- What takes a place in the sequence space. -/
inductive Item where
  | syn
  | byte (value : UInt8)
  | fin
  deriving DecidableEq

def Item.kind : Item → SegmentKind
  | .syn => .syn
  | .byte _ => .data
  | .fin => .fin

def itemsOf (flags : UInt16) (payload : List UInt8) : List Item :=
  (if has flags flagSyn then [.syn] else []) ++ payload.map .byte ++ (if has flags flagFin then [.fin] else [])

def SentSegment.items (s : SentSegment) : List Item := itemsOf s.flags s.payload

/-! ## An acknowledgement on one slot -/

theorem length_itemsOf (flags : UInt16) (payload : List UInt8) :
    (itemsOf flags payload).length = (has flags flagSyn).toNat + payload.length + (has flags flagFin).toNat := by
  unfold itemsOf
  rw [List.length_append, List.length_append, List.length_map]
  cases has flags flagSyn <;> cases has flags flagFin <;> simp

theorem has_or (flags a b : UInt16) : has flags (a ||| b) = (has flags a || has flags b) := by
  have hdistrib : flags &&& (a ||| b) = (flags &&& a) ||| (flags &&& b) :=
    UInt16.toBitVec_inj.1 (by simp only [UInt16.toBitVec_and, UInt16.toBitVec_or, BitVec.and_or_distrib_left])
  unfold has
  rw [hdistrib, Bool.eq_iff_iff, Bool.or_eq_true, bne_iff_ne, bne_iff_ne, bne_iff_ne, ne_eq, UInt16.or_eq_zero_iff, not_and_or]

theorem has_clear (flags mask : UInt16) : has (flags &&& ~~~flagSyn) mask = has flags (~~~flagSyn &&& mask) := by
  unfold has
  rw [UInt16.and_assoc]

theorem needsTracking_items (flags : UInt16) (payload : List UInt8) :
    needsTracking flags payload.length = true ↔ itemsOf flags payload ≠ [] := by
  rw [← List.length_pos_iff, length_itemsOf, needsTracking, has_or]
  cases has flags flagSyn <;> cases has flags flagFin <;> simp [Nat.pos_iff_ne_zero, Nat.add_comm 1]

theorem sequenceLengthFor_num (flags : UInt16) (payload : List UInt8) :
    sequenceLengthFor flags payload.length = num (itemsOf flags payload).length := by
  have hone : num 1 = 1 := rfl
  have hlen : payload.length.toUInt32 = num payload.length := rfl
  rw [length_itemsOf, sequenceLengthFor, hlen]
  cases has flags flagSyn <;> cases has flags flagFin <;> simp [Sequence.num_add, hone, UInt32.add_comm]

/-- A slot that holds the items at a position. -/
structure SentSegment.At (s : SentSegment) (position : Nat) (items : List Item) : Prop where
  valid : s.valid = true
  seq : s.seq = num position
  items : s.items = items

variable {p a : Nat} {s : SentSegment} {is : List Item}

theorem SentSegment.At.acknowledge_old (h : s.At p is) (h1 : a ≤ p) (h2 : p ≤ a + 2147483648) : s.acknowledge (num a) = s := by
  unfold SentSegment.acknowledge
  rw [if_pos]
  rw [h.valid, h.seq, seqAfter, Sequence.after_num (by omega) h2, decide_eq_false (by omega)]
  rfl

theorem trim_payload (s : SentSegment) {r : Nat} (hr : r ≤ s.payload.length) (hb : r < 4294967296) :
    (if (num r != 0 && s.payload.length != 0) = true then
      ({ s with
          payload := s.payload.drop (min (num r).toNat s.payload.length)
          seq := s.seq + (min (num r).toNat s.payload.length).toUInt32 },
        num r - (min (num r).toNat s.payload.length).toUInt32)
    else (s, num r)) = ({ s with payload := s.payload.drop r, seq := s.seq + num r }, 0) := by
  have hnum : (num r).toNat = r := by
    rw [Sequence.toNat_num]
    omega
  rw [hnum, Nat.min_eq_left hr, show r.toUInt32 = num r from rfl, UInt32.sub_self]
  cases r with
  | zero => simp [num]
  | succ r =>
    have hne : num (r + 1) ≠ 0 := fun h0 => by
      rw [h0] at hnum
      exact absurd hnum (Nat.succ_ne_zero r).symm
    rw [if_pos (by simp only [Bool.and_eq_true, bne_iff_ne]; exact ⟨hne, by omega⟩)]

/-- **What an acknowledgement reaches is dropped**: the whole slot, or its first items. -/
theorem SentSegment.At.acknowledge_new (h : s.At p is) (hlen : is.length < 2147483648) (h1 : p < a) (h2 : a < p + 2147483648) :
    (is.length ≤ a - p → (s.acknowledge (num a)).valid = false) ∧
      (a - p < is.length → (s.acknowledge (num a)).At a (is.drop (a - p))) := by
  have hdist : num a - s.seq = num (a - p) := by
    rw [h.seq]
    apply UInt32.toNat_inj.1
    rw [Sequence.sub_of_le (by omega) (by omega), Sequence.toNat_num]
    omega
  have hnot : (!s.valid || !seqAfter (num a) s.seq) = false := by
    rw [h.valid, h.seq, seqAfter, Sequence.after_num (by omega) (by omega), decide_eq_true h1]
    rfl
  have hle : s.sequenceLength ≤ num (a - p) ↔ is.length ≤ a - p := by
    rw [SentSegment.sequenceLength, sequenceLengthFor_num, UInt32.le_iff_toNat_le, Sequence.toNat_num,
      Sequence.toNat_num]
    have : (itemsOf s.flags s.payload).length = is.length := congrArg List.length h.items
    omega
  unfold SentSegment.acknowledge
  rw [if_neg (by rw [hnot]; exact Bool.false_ne_true), hdist]
  dsimp only
  constructor
  · intro hall
    rw [if_pos (hle.2 hall)]
  · intro hpart
    rw [if_neg (fun hc => Nat.not_le.2 hpart (hle.1 hc))]
    have hitems := h.items
    unfold SentSegment.items itemsOf at hitems
    have hlen := congrArg List.length h.items
    rw [SentSegment.items, length_itemsOf] at hlen
    have hfinle := Bool.toNat_le (has s.flags flagFin)
    cases hsyn : has s.flags flagSyn with
    | true =>
      rw [hsyn, Bool.toNat_true] at hlen
      have hne : (num (a - p) != 0) = true := by
        rw [bne_iff_ne, ne_eq, ← UInt32.toNat_inj, Sequence.toNat_num]
        show ¬ _ = 0
        omega
      have hpred : num (a - p) - 1 = num (a - p - 1) := by
        rw [show a - p = a - p - 1 + 1 by omega, Sequence.num_succ, Nat.add_sub_cancel, UInt32.add_sub_cancel]
      rw [hne, Bool.true_and, if_pos rfl, hpred]
      dsimp only
      rw [trim_payload { s with flags := s.flags &&& ~~~flagSyn, seq := s.seq + 1 } (by show _ ≤ s.payload.length; omega) (by omega)]
      dsimp only
      rw [show ((0 : UInt32) != 0) = false from rfl, Bool.and_false, if_neg Bool.false_ne_true]
      refine ⟨h.valid, ?_, ?_⟩
      · show s.seq + 1 + num (a - p - 1) = num a
        rw [h.seq, ← Sequence.num_succ, ← Sequence.num_add]
        congr 1
        omega
      · show itemsOf (s.flags &&& ~~~flagSyn) (s.payload.drop (a - p - 1)) = _
        rw [hsyn, if_pos rfl] at hitems
        have hzero : has s.flags 0 = false := by
          unfold has
          rw [UInt16.and_zero]
          rfl
        rw [← hitems, itemsOf, has_clear, has_clear, show ~~~flagSyn &&& flagSyn = 0 from rfl, hzero,
          show ~~~flagSyn &&& flagFin = flagFin from rfl, if_neg Bool.false_ne_true, List.nil_append, List.append_assoc,
          List.singleton_append, show a - p = (a - p - 1) + 1 by omega, List.drop_succ_cons, Nat.add_sub_cancel,
          List.drop_append_of_le_length (by rw [List.length_map]; omega), List.map_drop]
    | false =>
      rw [hsyn, Bool.toNat_false] at hlen
      rw [Bool.false_and, if_neg Bool.false_ne_true]
      dsimp only
      rw [trim_payload s (by omega) (by omega)]
      dsimp only
      rw [show ((0 : UInt32) != 0) = false from rfl, Bool.and_false, if_neg Bool.false_ne_true]
      refine ⟨h.valid, ?_, ?_⟩
      · show s.seq + num (a - p) = num a
        rw [h.seq, ← Sequence.num_add]
        congr 1
        omega
      · show itemsOf s.flags (s.payload.drop (a - p)) = _
        rw [hsyn, if_neg Bool.false_ne_true, List.nil_append] at hitems
        rw [← hitems, itemsOf, hsyn, if_neg Bool.false_ne_true, List.nil_append, List.drop_append_of_le_length, List.map_drop]
        rw [List.length_map]
        omega

/-! ## The catalog -/

/-- The slot holds the items from index `i` on, none of which is acknowledged. -/
structure Piece (base : Nat) (items : List Item) (acked : Nat) (s : SentSegment) (i : Nat) (is : List Item) : Prop where
  holds : s.At (base + i) is
  nonempty : is ≠ []
  piece : is <+: items.drop i
  unacked : acked ≤ base + i

/-- The catalog of a connection that has sent `items` from position `base` on, acknowledged up to `acked`: every slot is a
piece of them, and everything that is not acknowledged is in a slot. -/
structure Keeps (base : Nat) (items : List Item) (acked : Nat) (sent : SendCatalog) : Prop where
  slots : ∀ j, (sent.segments j).valid = true → ∃ i is, Piece base items acked (sent.segments j) i is
  cover : ∀ i < items.length, acked ≤ base + i →
    ∃ j start is, Piece base items acked (sent.segments j) start is ∧ start ≤ i ∧ i < start + is.length
  near : base + items.length ≤ acked + 1073741825
  base_le : base ≤ acked

variable {base acked i : Nat} {items : List Item} {sent : SendCatalog}

theorem Piece.length_le (h : Piece base items acked s i is) : i + is.length ≤ items.length := by
  have hpos := List.length_pos_iff.2 h.nonempty
  have hle := h.piece.length_le
  rw [List.length_drop] at hle
  omega

theorem Piece.acknowledge (h : Piece base items acked s i is) (hnear : base + items.length ≤ acked + 1073741825)
    (h1 : a ≤ base + items.length) (h2 : base + items.length ≤ a + 2147483648) :
    (a ≤ base + i → Piece base items (max acked a) (s.acknowledge (num a)) i is) ∧
      (base + i + is.length ≤ a → (s.acknowledge (num a)).valid = false) ∧
      (base + i < a → a < base + i + is.length →
        Piece base items (max acked a) (s.acknowledge (num a)) (a - base) (is.drop (a - (base + i)))) := by
  have hlen := h.length_le
  have hpos := List.length_pos_iff.2 h.nonempty
  have hunacked := h.unacked
  refine ⟨fun hold => ?_, fun hall => ?_, fun hlt hpart => ?_⟩
  · rw [h.holds.acknowledge_old hold (by omega)]
    exact ⟨h.holds, h.nonempty, h.piece, Nat.max_le.2 ⟨hunacked, hold⟩⟩
  · exact (h.holds.acknowledge_new (a := a) (by omega) (by omega) (by omega)).1 (by omega)
  · have hnew := (h.holds.acknowledge_new (a := a) (by omega) hlt (by omega)).2 (by omega)
    refine ⟨?_, ?_, ?_, ?_⟩
    · rwa [show base + (a - base) = a by omega]
    · rw [← List.length_pos_iff, List.length_drop]
      omega
    · have hdrop := h.piece.drop (a - (base + i))
      rwa [List.drop_drop, show i + (a - (base + i)) = a - base by omega] at hdrop
    · rw [show base + (a - base) = a by omega]
      exact Nat.max_le.2 ⟨by omega, Nat.le_refl a⟩

/-- **An acknowledgement drops exactly what it covers.** -/
theorem Keeps.acknowledge (h : Keeps base items acked sent) (h1 : a ≤ base + items.length) (h2 : base + items.length ≤ a + 2147483648) :
    Keeps base items (max acked a) (sent.acknowledge (num a)) where
  slots := by
    intro j hj
    cases hv : (sent.segments j).valid with
    | false =>
      have hsame : (sent.acknowledge (num a)).segments j = sent.segments j := by
        show (sent.segments j).acknowledge (num a) = _
        unfold SentSegment.acknowledge
        rw [hv, Bool.not_false, Bool.true_or, if_pos rfl]
      rw [hsame, hv] at hj
      cases hj
    | true =>
      obtain ⟨i, is, hp⟩ := h.slots j hv
      obtain ⟨hold, hall, hpart⟩ := hp.acknowledge h.near h1 h2
      rcases Nat.lt_or_ge (base + i) a with hlt | hge
      · rcases Nat.lt_or_ge a (base + i + is.length) with hin | hout
        · exact ⟨_, _, hpart hlt hin⟩
        · exact absurd ((hall hout).symm.trans hj) Bool.false_ne_true
      · exact ⟨i, is, hold hge⟩
  cover := by
    intro i hi hacked
    obtain ⟨j, start, is, hp, hle, hlt⟩ := h.cover i hi (by omega)
    obtain ⟨hold, -, hpart⟩ := hp.acknowledge h.near h1 h2
    rcases Nat.lt_or_ge (base + start) a with hin | hge
    · exact ⟨j, _, _, hpart hin (by omega), by omega, by rw [List.length_drop]; omega⟩
    · exact ⟨j, start, is, hold hge, hle, hlt⟩
  near := by
    have := h.near
    omega
  base_le := Nat.le_trans h.base_le (Nat.le_max_left _ _)

theorem Piece.append (h : Piece base items acked s i is) (more : List Item) : Piece base (items ++ more) acked s i is where
  holds := h.holds
  nonempty := h.nonempty
  piece := by
    have hlen := h.length_le
    rw [List.drop_append_of_le_length (by omega)]
    exact h.piece.trans (List.prefix_append _ _)
  unacked := h.unacked

theorem track_some {seq ack : UInt32} {flags : UInt16} {payload : List UInt8} {tick token : UInt64} {sent' : SendCatalog}
    (h : sent.track seq ack flags payload tick = some (token, sent')) : ∃ j, (sent.segments j).valid = false ∧
      sent'.segments = Function.update sent.segments j
        { valid := true, token, seq, ack, flags, payload, sentTick := tick, retransmits := 0 } := by
  unfold SendCatalog.track at h
  split at h
  · cases h
  · split at h
    · cases h
    · rename_i j hj
      cases h
      exact ⟨j, by simpa using Slots.first_some hj, rfl⟩

/-- **A segment that is tracked is kept**, as new items or as a repetition of the last ones. -/
theorem Keeps.track (h : Keeps base items acked sent) {seq ack : UInt32} {flags : UInt16} {payload : List UInt8} {tick token : UInt64}
    {sent' : SendCatalog} (ht : sent.track seq ack flags payload tick = some (token, sent')) {items' : List Item}
    (hne : itemsOf flags payload ≠ []) {n : Nat} (hseq : seq = num (base + n)) (hn : n ≤ items.length) (hfree : acked ≤ base + n)
    (hold : items <+: items') (hitems : items' = items.take n ++ itemsOf flags payload)
    (hnear : base + items'.length ≤ acked + 1073741825) : Keeps base items' acked sent' := by
  obtain ⟨j0, hj0, hsent⟩ := track_some ht
  obtain ⟨more, rfl⟩ := hold
  have hnew : Piece base (items ++ more) acked (sent'.segments j0) n (itemsOf flags payload) := by
    rw [hsent, Function.update_self]
    refine ⟨⟨rfl, hseq, rfl⟩, hne, ?_, hfree⟩
    rw [hitems, List.drop_append_of_le_length (by rw [List.length_take]; omega), List.drop_eq_nil_of_le (by rw [List.length_take]; omega)]
    exact List.prefix_refl _
  have hother : ∀ j, j ≠ j0 → sent'.segments j = sent.segments j := fun j hj => by
    rw [hsent]
    exact Function.update_of_ne hj ..
  refine ⟨fun j hj => ?_, fun i hi hi' => ?_, hnear, h.base_le⟩
  · by_cases hjj : j = j0
    · rw [hjj]
      exact ⟨n, _, hnew⟩
    · rw [hother j hjj] at hj ⊢
      obtain ⟨i, is, hp⟩ := h.slots j hj
      exact ⟨i, is, hp.append more⟩
  · rcases Nat.lt_or_ge i items.length with hlt | hge
    · obtain ⟨j, start, is, hp, hin⟩ := h.cover i hlt hi'
      have hjj : j ≠ j0 := fun he => by
        rw [he] at hp
        exact absurd (hj0.symm.trans hp.holds.valid) Bool.false_ne_true
      refine ⟨j, start, is, ?_, hin⟩
      rw [hother j hjj]
      exact hp.append more
    · have hlen := congrArg List.length hitems
      rw [List.length_append, List.length_append, List.length_take] at hlen
      rw [List.length_append] at hi
      exact ⟨j0, n, _, hnew, by omega, by omega⟩

theorem Keeps.marked (h : Keeps base items acked sent) {token tick : UInt64} {sent' : SendCatalog}
    (hm : sent.markRetransmitted token tick = some sent') : Keeps base items acked sent' := by
  have hsame : ∀ j, (sent'.segments j).valid = (sent.segments j).valid ∧ (sent'.segments j).seq = (sent.segments j).seq ∧
      (sent'.segments j).items = (sent.segments j).items := by
    intro j
    unfold SendCatalog.markRetransmitted at hm
    split at hm
    · cases hm
    · rename_i j0 _
      cases hm
      by_cases hj : j = j0
      · subst hj
        show (Function.update sent.segments j _ j).valid = _ ∧ (Function.update sent.segments j _ j).seq = _ ∧
          (Function.update sent.segments j _ j).items = _
        rw [Function.update_self]
        exact ⟨rfl, rfl, rfl⟩
      · show (Function.update sent.segments j0 _ j).valid = _ ∧ (Function.update sent.segments j0 _ j).seq = _ ∧
          (Function.update sent.segments j0 _ j).items = _
        rw [Function.update_of_ne hj]
        exact ⟨rfl, rfl, rfl⟩
  have hpiece : ∀ {j i is}, Piece base items acked (sent.segments j) i is → Piece base items acked (sent'.segments j) i is := by
    intro j i is hp
    obtain ⟨h1, h2, h3⟩ := hsame j
    exact ⟨⟨h1.trans hp.holds.valid, h2.trans hp.holds.seq, h3.trans hp.holds.items⟩, hp.nonempty, hp.piece, hp.unacked⟩
  refine ⟨fun j hj => ?_, fun i hi hi' => ?_, h.near, h.base_le⟩
  · obtain ⟨i, is, hp⟩ := h.slots j ((hsame j).1.symm.trans hj)
    exact ⟨i, is, hpiece hp⟩
  · obtain ⟨j, start, is, hp, hin⟩ := h.cover i hi hi'
    exact ⟨j, start, is, hpiece hp, hin⟩

theorem Keeps.complete (h : Keeps base items acked sent) (hcount : sent.count = 0) : base + items.length ≤ acked := by
  by_contra hlt
  have hbase := h.base_le
  obtain ⟨j, start, is, hp, -⟩ := h.cover (items.length - 1) (by omega) (by omega)
  have hnone := List.countP_eq_zero.1 hcount j (List.mem_finRange j)
  exact hnone hp.holds.valid

theorem Keeps.reset (h : Keeps base items acked sent) (hall : base + items.length ≤ acked) : Keeps base items acked sent.reset :=
  ⟨fun _ hj => absurd hj Bool.false_ne_true, fun _ hi hi' => by omega, h.near, h.base_le⟩

/-! ## A connection and its peer's acknowledgements -/

/-- The connection looks at the segment's acknowledgement: where `applyRxView` calls `updateTxWindow`. -/
def Connection.processes (c : Connection) (view : SegmentView) : Bool :=
  c.matchesView view && !has view.flags flagRst &&
    ((c.state = .synSent && view.flags &&& (flagSyn ||| flagAck) = flagSyn ||| flagAck && view.ack = c.seq + 1) ||
      (c.state = .synReceived && has view.flags flagAck && view.ack = c.seq + 1) ||
      (c.state = .established &&
        !((view.payload.length ≠ 0 || has view.flags flagFin) && !c.segmentSeqAcceptable view)) ||
      (c.state = .finWait && has view.flags flagAck))

/-- The segment carries the FIN that is next after its payload. -/
def Connection.takesFin (c : Connection) (view : SegmentView) : Bool :=
  has view.flags flagFin && view.seq + view.payload.length.toUInt32 =
    (if view.payload.length ≠ 0 then (c.updateTxWindow view).acceptPayload view.seq view.payload else c.updateTxWindow view).ack

/-- The segment ends the connection: any acknowledgement in `finWait`, the peer's FIN in `established`. -/
def Connection.finishes (c : Connection) (view : SegmentView) : Bool :=
  c.processes view && (c.state = .finWait || (c.state = .established && c.takesFin view))

/-- A connection, everything it has sent, the position up to which the peer has acknowledged it and the rightmost edge the
peer has announced; `ended` once a reset, an abort, a close, a new connection or the reaper has taken the slot. -/
structure Sender where
  conn : Connection
  items : List Item := []
  acked : Nat
  edge : Nat
  ended : Bool := false

inductive Sending where
  | commit (flags : UInt16) (payload : List UInt8) (tick : UInt64)
  | requestClose
  | segment (view : SegmentView)
  | retransmitted (token tick : UInt64)
  | read (outLen : Nat)
  | reap (now : UInt64)
  | abort
  | close
  | replaced

namespace Sender

/-- The position behind everything that was sent. -/
def top (base : Nat) (s : Sender) : Nat := base + s.items.length

/-- The position an acknowledgement number stands for, when it is not beyond what was sent. -/
def ackPosition (base : Nat) (s : Sender) (ack : UInt32) : Nat := s.top base - (num (s.top base) - ack).toNat

/-- What was sent, once a segment is committed; a SYN that goes out again is the same SYN. -/
def committed (items : List Item) (flags : UInt16) (payload : List UInt8) : List Item :=
  if has flags flagSyn && !items.isEmpty then items else items ++ itemsOf flags payload

def onConn (s : Sender) (f : Connection → Connection) : Sender := if s.conn.used then { s with conn := f s.conn } else s

def teardown (s : Sender) (f : Connection → Connection) : Sender :=
  if s.conn.used then { s with conn := f s.conn, ended := true } else s

def step (base : Nat) (s : Sender) : Sending → Sender
  | .commit flags payload tick =>
    if s.conn.used && s.conn.canTrackSend flags payload.length then
      match s.conn.commitSent flags payload tick with
      | none => s
      | some conn => { s with conn, items := committed s.items flags payload }
    else s
  | .requestClose => s.onConn (fun c => c.requestClose.2)
  | .segment view =>
    let conn := s.conn.offer view
    if s.conn.processes view then
      let position := s.ackPosition base view.ack
      { s with conn, acked := max s.acked position, edge := max s.edge (position + (s.conn.advertised view).toNat) }
    else { s with conn, ended := s.ended || (s.conn.used && !conn.used) }
  | .retransmitted token tick => s.onConn (fun c => (c.recordRetransmit token tick).getD c)
  | .read outLen => s.onConn (fun c => (c.read outLen).2)
  | .reap now =>
    let conn := s.conn.reap now
    { s with conn, ended := s.ended || (s.conn.used && !conn.used) }
  | .abort => s.teardown Connection.abort
  | .close => s.teardown Connection.close
  | .replaced => s.teardown Connection.resetConnectionSlot

/-- What the connection's owner commits and what the peer may acknowledge: a SYN while the connection opens, payloads that
`sendAllowance` grants, the FIN when the close is ready, anything else without payload; no acknowledgement goes beyond what
was sent. -/
def Allowed (base : Nat) (s : Sender) : Sending → Prop
  | .commit flags payload _ =>
    if has flags flagSyn then (s.conn.state = .synSent ∨ s.conn.state = .synReceived) ∧ has flags flagFin = false ∧ payload = []
    else if has flags flagFin then s.conn.closeReady = true ∧ payload = []
    else payload = [] ∨ ∃ requested, payload.length = s.conn.sendAllowance requested
  | .segment view => has view.flags flagAck = true ∧ seqAfter view.ack (num (s.top base)) = false
  | _ => True

/-- **No segment ends the connection while something is owed**: when it does, its acknowledgement leaves the catalog empty. -/
def Complete (s : Sender) : Sending → Prop
  | .segment view => s.conn.finishes view = true → (s.conn.sent.acknowledge view.ack).count = 0
  | _ => True

end Sender

namespace Sender

/-- The items that `seq` counts: the SYN is counted when the handshake is done. -/
def counted (s : Sender) : Nat := if s.conn.state = .synSent ∨ s.conn.state = .synReceived then 0 else s.items.length

/-- What holds of a connection that has not ended, in every state of a run. -/
structure Sound (base : Nat) (s : Sender) : Prop where
  keeps : Keeps base s.items s.acked s.conn.sent
  acked_le : s.acked ≤ base + s.items.length
  live : (s.conn.used = true ∧ s.conn.state ≠ .closed) ∨ base + s.items.length ≤ s.acked
  seq : s.conn.seq = num (base + s.counted)
  bound : base + s.counted ≤ s.edge + s.items.count .fin
  fins : s.items.count .fin ≤ 1
  edge_le : s.edge ≤ s.acked + 1073741824
  opening : s.conn.state = .synSent ∨ s.conn.state = .synReceived →
    s.acked = base ∧ s.edge = base ∧ (s.items = [] ∨ s.items = [.syn])
  window : s.conn.state = .established → .fin ∉ s.items ∧ base + s.items.length + s.conn.txWindow.toNat ≤ s.edge

/-- What the send side reads is the same. -/
structure SameTx (c d : Connection) : Prop where
  sent : d.sent = c.sent
  used : d.used = c.used
  state : d.state = c.state
  seq : d.seq = c.seq
  txWindow : d.txWindow = c.txWindow

variable {s : Sender}

theorem Sound.congr (h : Sound base s) {d : Connection} (hd : SameTx s.conn d) (ended : Bool) :
    Sound base { s with conn := d, ended } := by
  obtain ⟨h1, h2, h3, h4, h5⟩ := hd
  have hcounted : counted { s with conn := d, ended } = s.counted := by
    unfold counted
    rw [h3]
  refine ⟨?_, h.acked_le, ?_, ?_, ?_, h.fins, h.edge_le, ?_, ?_⟩
  · show Keeps base s.items s.acked d.sent
    rw [h1]
    exact h.keeps
  · show (d.used = true ∧ d.state ≠ .closed) ∨ _
    rw [h2, h3]
    exact h.live
  · rw [hcounted]
    exact h4.trans h.seq
  · rw [hcounted]
    exact h.bound
  · show d.state = .synSent ∨ d.state = .synReceived → _
    rw [h3]
    exact h.opening
  · show d.state = .established → _ ∧ _ + d.txWindow.toNat ≤ _
    rw [h3, h5]
    exact h.window

theorem sameTx_of_onlyRx {c d : Connection} (h : Connection.OnlyRx c d) : SameTx c d := by
  rw [h]
  exact ⟨rfl, rfl, rfl, rfl, rfl⟩

/-! ### A segment -/

/-- **An acknowledgement number that is not beyond what was sent** stands for a position at most 2^31 behind. -/
theorem ackPosition_spec {ack : UInt32} (h : seqAfter ack (num (s.top base)) = false) (hlow : 4294967296 ≤ base) :
    ack = num (s.ackPosition base ack) ∧ s.ackPosition base ack ≤ s.top base ∧ s.top base ≤ s.ackPosition base ack + 2147483648 := by
  unfold ackPosition
  have htop : base ≤ s.top base := Nat.le_add_right ..
  generalize s.top base = top at *
  have hd : (num top - ack).toNat = (4294967296 - ack.toNat + top % 4294967296) % 4294967296 := by
    rw [UInt32.toNat_sub, Sequence.toNat_num]
  have ha : (ack - num top).toNat = (4294967296 - top % 4294967296 + ack.toNat) % 4294967296 := by
    rw [UInt32.toNat_sub, Sequence.toNat_num]
  have hlt := ack.toNat_lt
  unfold seqAfter Sequence.after at h
  simp only [Bool.and_eq_false_iff, decide_eq_false_iff_not, ha] at h
  refine ⟨?_, Nat.sub_le .., ?_⟩
  · apply UInt32.toNat_inj.1
    rw [Sequence.toNat_num, hd]
    omega
  · rw [hd]
    omega

theorem advertised_lt (c : Connection) (view : SegmentView) : (c.advertised view).toNat < 1073741824 := by
  unfold Connection.advertised
  have hwindow := view.window.toNat_lt
  have hshift : ∀ k : UInt32, k.toNat ≤ 14 → (view.window.toUInt32 <<< k).toNat < 1073741824 := by
    intro k hk
    rw [UInt32.toNat_shiftLeft, UInt16.toNat_toUInt32, Nat.mod_eq_of_lt (by omega : k.toNat < 32), Nat.shiftLeft_eq]
    refine Nat.lt_of_le_of_lt (Nat.mod_le ..) ?_
    calc view.window.toNat * 2 ^ k.toNat ≤ 65535 * 2 ^ 14 :=
          Nat.mul_le_mul (by omega) (Nat.pow_le_pow_right (by omega) hk)
      _ < 1073741824 := by decide
  have hscale : (min c.peerWindowScale maxWindowScale).toNat ≤ 14 := by
    show (if c.peerWindowScale ≤ maxWindowScale then c.peerWindowScale else maxWindowScale).toNat ≤ 14
    split
    · rename_i hle
      exact UInt8.le_iff_toNat_le.1 hle
    · exact Nat.le_refl 14
  dsimp only
  split
  · refine hshift _ ?_
    rw [UInt8.toNat_toUInt32]
    exact hscale
  · exact hshift 0 (Nat.zero_le _)

/-- **The window after an acknowledgement** ends at the edge it announces. -/
theorem updateTxWindow_spec {c : Connection} {view : SegmentView} {top position : Nat} (hack : has view.flags flagAck = true)
    (hseq : c.seq = num top) (hview : view.ack = num position) (h1 : position ≤ top) (h2 : top ≤ position + 2147483648) :
    (c.updateTxWindow view).sent = c.sent.acknowledge (num position) ∧
      (c.updateTxWindow view).txWindow.toNat = position + (c.advertised view).toNat - top := by
  have hadv := advertised_lt c view
  have hedge : view.ack + c.advertised view = num (position + (c.advertised view).toNat) := by
    rw [hview, Sequence.num_add, Sequence.num_toNat]
  have hshape : c.updateTxWindow view =
      { c with
        txAck := if c.txAck = 0 || seqAfter view.ack c.txAck then view.ack else c.txAck
        sent := c.sent.acknowledge view.ack
        txWindow := if seqAfter (view.ack + c.advertised view) c.seq then view.ack + c.advertised view - c.seq else 0 } := by
    unfold Connection.updateTxWindow
    dsimp only
    rw [if_neg (by rw [hack]; exact Bool.false_ne_true)]
  rw [hshape]
  refine ⟨by rw [hview], ?_⟩
  show (if seqAfter (view.ack + c.advertised view) c.seq then view.ack + c.advertised view - c.seq else 0).toNat = _
  rw [hedge, hseq, seqAfter, Sequence.after_num (by omega) (by omega)]
  split
  · rename_i hlt
    rw [decide_eq_true_eq] at hlt
    exact Sequence.sub_of_le (by omega) (by omega)
  · rename_i hge
    rw [decide_eq_true_eq] at hge
    show 0 = _
    omega

theorem updateTxWindow_rest (c : Connection) (view : SegmentView) : (c.updateTxWindow view).used = c.used ∧
    (c.updateTxWindow view).state = c.state ∧ (c.updateTxWindow view).seq = c.seq := by
  unfold Connection.updateTxWindow
  dsimp only
  split <;> exact ⟨rfl, rfl, rfl⟩

theorem Sound.opens (h : Sound base s) (hlow : 4294967296 ≤ base) {view : SegmentView} (hs : s.conn.state = .synSent ∨ s.conn.state = .synReceived)
    (hack : has view.flags flagAck = true) (hbeyond : seqAfter view.ack (num (s.top base)) = false) (hview : view.ack = s.conn.seq + 1)
    {c : Connection} (hsent : c.sent = s.conn.sent) (hstate : c.state = .established)
    (hseq : c.seq = s.conn.seq + 1) (hadv : c.advertised view = s.conn.advertised view) :
    Sound base { s with
      conn := c.updateTxWindow view, acked := max s.acked (s.ackPosition base view.ack)
      edge := max s.edge (s.ackPosition base view.ack + (s.conn.advertised view).toNat) } := by
  obtain ⟨hacked, hedge, hitems⟩ := h.opening hs
  have hcounted : s.counted = 0 := if_pos hs
  have hconnseq : s.conn.seq = num base := by rw [h.seq, hcounted, Nat.add_zero]
  obtain ⟨hnum, hle, hnear⟩ := ackPosition_spec hbeyond hlow
  -- the SYN was sent, since its acknowledgement is not beyond what was sent
  have hsyn : s.items = [.syn] := by
    rcases hitems with hnil | hsyn
    · exfalso
      have htop : s.top base = base := by rw [top, hnil, List.length_nil, Nat.add_zero]
      rw [hview, hconnseq, htop, ← Sequence.num_succ, seqAfter, Sequence.after_num (by omega) (by omega)] at hbeyond
      exact absurd (of_decide_eq_false hbeyond) (by omega)
    · exact hsyn
  have htop : s.top base = base + 1 := by rw [top, hsyn]; rfl
  have hposition : s.ackPosition base view.ack = base + 1 := by
    refine Sequence.num_inj ?_ (by omega) (by omega)
    rw [← hnum, hview, hconnseq, Sequence.num_succ]
  have hcseq : c.seq = num (base + 1) := by rw [hseq, hconnseq, Sequence.num_succ]
  rw [hposition] at hnum ⊢
  obtain ⟨hsent', hwindow⟩ := updateTxWindow_spec hack hcseq hnum (Nat.le_refl _) (by omega)
  obtain ⟨hused', hstate', hseq'⟩ := updateTxWindow_rest c view
  have hlen : s.items.length = 1 := by rw [hsyn]; rfl
  have hadvlt := advertised_lt s.conn view
  have hfin : s.items.count .fin = 0 := by rw [hsyn]; rfl
  have hkeeps := h.keeps.acknowledge (a := base + 1) (by omega) (by omega)
  refine ⟨?_, ?_, ?_, ?_, ?_, h.fins, ?_, ?_, ?_⟩
  · show Keeps base s.items _ (c.updateTxWindow view).sent
    rw [hsent', hsent]
    exact hkeeps
  · show max s.acked (base + 1) ≤ base + s.items.length
    omega
  · right
    show base + s.items.length ≤ max s.acked (base + 1)
    omega
  · show (c.updateTxWindow view).seq = num (base + if _ then 0 else s.items.length)
    rw [hseq', hcseq, if_neg (by rw [hstate', hstate]; simp), hlen]
  · show base + (if _ then 0 else s.items.length) ≤ max s.edge (base + 1 + (s.conn.advertised view).toNat) + s.items.count .fin
    rw [if_neg (by rw [hstate', hstate]; simp)]
    omega
  · show max s.edge (base + 1 + (s.conn.advertised view).toNat) ≤ max s.acked (base + 1) + 1073741824
    omega
  · intro hop
    rw [show (c.updateTxWindow view).state = .established from hstate'.trans hstate] at hop
    rcases hop with hop | hop <;> cases hop
  · intro _
    refine ⟨by rw [hsyn]; simp, ?_⟩
    show base + s.items.length + (c.updateTxWindow view).txWindow.toNat ≤ max s.edge (base + 1 + (s.conn.advertised view).toNat)
    rw [hwindow, hadv]
    omega

theorem Sound.acknowledged (h : Sound base s) (hlow : 4294967296 ≤ base) {view : SegmentView}
    (hs : ¬ (s.conn.state = .synSent ∨ s.conn.state = .synReceived)) (hack : has view.flags flagAck = true)
    (hbeyond : seqAfter view.ack (num (s.top base)) = false) {c : Connection} (hc : Connection.OnlyRx (s.conn.updateTxWindow view) c) :
    Sound base { s with
      conn := c, acked := max s.acked (s.ackPosition base view.ack)
      edge := max s.edge (s.ackPosition base view.ack + (s.conn.advertised view).toNat) } := by
  obtain ⟨hnum, hle, hnear⟩ := ackPosition_spec hbeyond hlow
  have hcounted : s.counted = s.items.length := if_neg hs
  have hseq : s.conn.seq = num (s.top base) := by rw [h.seq, hcounted, top]
  obtain ⟨hsent', hwindow⟩ := updateTxWindow_spec hack hseq hnum hle hnear
  obtain ⟨hused', hstate', hseq'⟩ := updateTxWindow_rest s.conn view
  obtain ⟨hcsent, hcused, hcstate, hcseq, hcwindow⟩ := sameTx_of_onlyRx hc
  have hadvlt := advertised_lt s.conn view
  have hbound := h.bound
  have hedge := h.edge_le
  have hacked := h.acked_le
  rw [hcounted] at hbound
  rw [top] at hle hnear hwindow
  generalize s.ackPosition base view.ack = position at *
  have hnotopening : ¬ (c.state = .synSent ∨ c.state = .synReceived) := by rwa [hcstate, hstate']
  refine ⟨?_, ?_, ?_, ?_, ?_, h.fins, ?_, ?_, ?_⟩
  · show Keeps base s.items _ c.sent
    rw [hcsent, hsent']
    exact h.keeps.acknowledge hle hnear
  · show max s.acked position ≤ base + s.items.length
    omega
  · show (c.used = true ∧ c.state ≠ .closed) ∨ base + s.items.length ≤ max s.acked position
    rw [hcused, hused', hcstate, hstate']
    rcases h.live with hlive | hall
    · exact .inl hlive
    · exact .inr (by omega)
  · show c.seq = num (base + if _ then 0 else s.items.length)
    rw [if_neg hnotopening, hcseq, hseq', hseq, top]
  · show base + (if _ then 0 else s.items.length) ≤ max s.edge (position + (s.conn.advertised view).toNat) + s.items.count .fin
    rw [if_neg hnotopening]
    omega
  · show max s.edge (position + (s.conn.advertised view).toNat) ≤ max s.acked position + 1073741824
    omega
  · exact fun hop => absurd hop hnotopening
  · intro hest
    obtain ⟨hfin, hwin⟩ := h.window ((hcstate.trans hstate').symm.trans hest)
    refine ⟨hfin, ?_⟩
    show base + s.items.length + c.txWindow.toNat ≤ max s.edge (position + (s.conn.advertised view).toNat)
    rw [hcwindow, hwindow]
    omega

theorem Sound.finished (h : Sound base s) (hcount : s.conn.sent.count = 0) (hs : ¬ (s.conn.state = .synSent ∨ s.conn.state = .synReceived))
    {c : Connection} (hsent : c.sent = s.conn.sent ∨ c.sent = s.conn.sent.reset) (hstate : c.state = .closed)
    (hseq : c.seq = s.conn.seq) : Sound base { s with conn := c } := by
  have hall := h.keeps.complete hcount
  have hnotopening : ¬ (c.state = .synSent ∨ c.state = .synReceived) := by rw [hstate]; simp
  have hcounted : counted { s with conn := c } = s.counted := (if_neg hnotopening).trans (if_neg hs).symm
  refine ⟨?_, h.acked_le, .inr hall, ?_, ?_, h.fins, h.edge_le, fun hop => absurd hop hnotopening, fun hest => ?_⟩
  · show Keeps base s.items s.acked c.sent
    rcases hsent with hsent | hsent <;> rw [hsent]
    · exact h.keeps
    · exact h.keeps.reset hall
  · rw [hcounted]
    exact hseq.trans h.seq
  · rw [hcounted]
    exact h.bound
  · rw [show c.state = .established from hest] at hstate
    cases hstate

theorem offer_unprocessed {c : Connection} {view : SegmentView} (h : c.processes view = false) :
    c.offer view = c ∨ (c.used = true ∧ (c.offer view).used = false) := by
  unfold Connection.offer
  by_cases hm : c.matchesView view = true
  case neg => exact .inl (if_neg hm)
  have hused : c.used = true := by
    unfold Connection.matchesView at hm
    simp only [Bool.and_eq_true] at hm
    exact hm.1.1.1.1
  rw [if_pos hm]
  unfold Connection.processes at h
  rw [hm, Bool.true_and] at h
  unfold Connection.receive
  split
  · -- a reset
    unfold Connection.receiveReset
    split
    · exact .inl rfl
    · exact .inr ⟨hused, rfl⟩
  · rename_i hrst
    rw [Bool.not_eq_true] at hrst
    rw [hrst, Bool.not_false, Bool.true_and, Bool.or_eq_false_iff, Bool.or_eq_false_iff, Bool.or_eq_false_iff] at h
    obtain ⟨⟨⟨h1, h2⟩, h3⟩, h4⟩ := h
    left
    rw [if_neg (ne_true_of_eq_false h1), if_neg (ne_true_of_eq_false h2)]
    split
    · rename_i hest
      rw [decide_eq_true hest, Bool.true_and, Bool.not_eq_false'] at h3
      unfold Connection.receiveEstablished
      rw [if_pos h3]
    · rw [if_neg (ne_true_of_eq_false h4)]

/-- What a processed segment does. -/
inductive Processed (c : Connection) (view : SegmentView) : Connection → Prop
  | synAck (hs : c.state = .synSent) (hack : view.ack = c.seq + 1) (hsyn : has view.flags flagSyn = true) :
    Processed c view
      (Connection.updateTxWindow { c.applyPeerHandshakeOptions view with seq := c.seq + 1, ack := view.seq + 1, state := .established } view)
  | accepted (hs : c.state = .synReceived) (hack : view.ack = c.seq + 1) :
    Processed c view (Connection.updateTxWindow { c with seq := c.seq + 1, state := .established } view)
  | data (hs : c.state = .established) (d : Connection) (hd : Connection.OnlyRx (c.updateTxWindow view) d)
    (hfin : c.takesFin view = false) : Processed c view d
  | fin (hs : c.state = .established) (d : Connection) (hd : Connection.OnlyRx (c.updateTxWindow view) d)
    (hfin : c.takesFin view = true) : Processed c view { d with ack := d.ack + 1, state := .closed }
  | finWait (hs : c.state = .finWait) (d : Connection) (hd : Connection.OnlyRx (c.updateTxWindow view) d) (e : Connection)
    (he : e = { d with state := .closed } ∨ e = { d.discardCatalog with state := .closed, used := false }) : Processed c view e

theorem has_syn_of_synAck {flags : UInt16} (h : flags &&& (flagSyn ||| flagAck) = flagSyn ||| flagAck) : has flags flagSyn = true := by
  have hand : (flags &&& (flagSyn ||| flagAck)) &&& flagSyn = flagSyn := by
    rw [h]
    rfl
  rw [UInt16.and_assoc, show (flagSyn ||| flagAck) &&& flagSyn = flagSyn from rfl] at hand
  unfold has
  rw [hand]
  rfl

theorem offer_processed {c : Connection} {view : SegmentView} (h : c.processes view = true) : Processed c view (c.offer view) := by
  unfold Connection.processes at h
  rw [Bool.and_eq_true, Bool.and_eq_true, Bool.not_eq_true'] at h
  obtain ⟨⟨hm, hrst⟩, h⟩ := h
  rw [Bool.or_eq_true, Bool.or_eq_true, Bool.or_eq_true] at h
  unfold Connection.offer Connection.receive
  rw [if_pos hm, if_neg (ne_true_of_eq_false hrst)]
  split
  · rename_i hsyn
    simp only [Bool.and_eq_true, decide_eq_true_eq] at hsyn
    exact .synAck hsyn.1.1 hsyn.2 (has_syn_of_synAck hsyn.1.2)
  · rename_i hnsyn
    split
    · rename_i hacc
      simp only [Bool.and_eq_true, decide_eq_true_eq] at hacc
      exact .accepted hacc.1.1 hacc.2
    · rename_i hnacc
      split
      · rename_i hest
        have hok : ¬ ((view.payload.length ≠ 0 || has view.flags flagFin) && !c.segmentSeqAcceptable view) = true := by
          rcases h with ((h | h) | h) | h
          · exact absurd h hnsyn
          · exact absurd h hnacc
          · rw [Bool.and_eq_true, Bool.not_eq_true'] at h
            exact ne_true_of_eq_false h.2
          · rw [Bool.and_eq_true, decide_eq_true_eq, hest] at h
            cases h.1
        unfold Connection.receiveEstablished
        rw [if_neg hok]
        have htakes : c.takesFin view = (has view.flags flagFin && view.seq + view.payload.length.toUInt32 =
          (if view.payload.length ≠ 0 then (c.updateTxWindow view).acceptPayload view.seq view.payload
            else c.updateTxWindow view).ack) := rfl
        have honly : Connection.OnlyRx (c.updateTxWindow view) (if view.payload.length ≠ 0 then
            (c.updateTxWindow view).acceptPayload view.seq view.payload else c.updateTxWindow view) := by
          split
          · exact Connection.onlyRx_acceptPayload _ _ _
          · exact .refl _
        dsimp only
        generalize (if view.payload.length ≠ 0 then (c.updateTxWindow view).acceptPayload view.seq view.payload
          else c.updateTxWindow view) = d at *
        rw [← htakes]
        split
        · rename_i hfin
          exact .fin hest d honly hfin
        · rename_i hfin
          exact .data hest d honly (eq_false_of_ne_true hfin)
      · rename_i hnest
        have hwait : (decide (c.state = .finWait) && has view.flags flagAck) = true := by
          rcases h with ((h | h) | h) | h
          · exact absurd h hnsyn
          · exact absurd h hnacc
          · rw [Bool.and_eq_true, decide_eq_true_eq] at h
            exact absurd h.1 hnest
          · exact h
        rw [if_pos hwait]
        rw [Bool.and_eq_true, decide_eq_true_eq] at hwait
        unfold Connection.receiveFinWait
        have honly : Connection.OnlyRx (c.updateTxWindow view)
            (if has view.flags flagFin && view.seq = (c.updateTxWindow view).ack then
              { c.updateTxWindow view with ack := (c.updateTxWindow view).ack + 1 } else c.updateTxWindow view) := by
          split
          · rfl
          · exact .refl _
        dsimp only
        generalize (if has view.flags flagFin && view.seq = (c.updateTxWindow view).ack then
          { c.updateTxWindow view with ack := (c.updateTxWindow view).ack + 1 } else c.updateTxWindow view) = d at *
        refine .finWait hwait.1 d honly _ ?_
        split
        · exact .inr rfl
        · exact .inl rfl

theorem count_acknowledged {c d : Connection} {view : SegmentView} (hack : has view.flags flagAck = true)
    (hd : Connection.OnlyRx (c.updateTxWindow view) d) : d.sent = c.sent.acknowledge view.ack := by
  rw [(sameTx_of_onlyRx hd).sent]
  unfold Connection.updateTxWindow
  dsimp only
  rw [if_neg (by rw [hack]; exact Bool.false_ne_true)]

/-- **A segment keeps the connection sound**, when it does not end it with something owed. -/
theorem Sound.segment (h : Sound base s) (hlow : 4294967296 ≤ base) {view : SegmentView} (ha : Allowed base s (.segment view))
    (hc : s.Complete (.segment view)) (he : (s.step base (.segment view)).ended = false) : Sound base (s.step base (.segment view)) := by
  obtain ⟨hack, hbeyond⟩ := ha
  cases hp : s.conn.processes view with
  | false =>
    have hstep : s.step base (.segment view) =
        { s with conn := s.conn.offer view, ended := s.ended || (s.conn.used && !(s.conn.offer view).used) } := by
      show (if _ then _ else _) = _
      rw [if_neg (ne_true_of_eq_false hp)]
    rw [hstep] at he ⊢
    rcases offer_unprocessed hp with hsame | ⟨hused, hgone⟩
    · rw [hsame]
      exact h.congr ⟨rfl, rfl, rfl, rfl, rfl⟩ _
    · dsimp only at he
      rw [hused, hgone, Bool.not_false, Bool.and_self, Bool.or_true] at he
      cases he
  | true =>
    have hstep : s.step base (.segment view) =
        { s with
          conn := s.conn.offer view, acked := max s.acked (s.ackPosition base view.ack)
          edge := max s.edge (s.ackPosition base view.ack + (s.conn.advertised view).toNat) } := by
      show (if _ then _ else _) = _
      rw [if_pos hp]
    have hfinishes : (s.conn.state = .finWait ∨ (s.conn.state = .established ∧ s.conn.takesFin view = true)) →
        (s.conn.sent.acknowledge view.ack).count = 0 := by
      intro hs
      apply hc
      unfold Connection.finishes
      simpa [hp] using hs
    rw [hstep]
    have hnotopening : ∀ {st : State}, s.conn.state = st → st ≠ .synSent → st ≠ .synReceived →
        ¬ (s.conn.state = .synSent ∨ s.conn.state = .synReceived) := fun hst h1 h2 hop => by
      rw [hst] at hop
      exact hop.elim h1 h2
    generalize hoffer : s.conn.offer view = conn
    have hdone := offer_processed hp
    rw [hoffer] at hdone
    cases hdone with
    | synAck hs hview hsyn =>
      refine h.opens hlow (.inl hs) hack hbeyond hview rfl rfl rfl ?_
      unfold Connection.advertised
      rw [hsyn, Bool.not_true, Bool.and_false, Bool.and_false]
      rfl
    | accepted hs hview => exact h.opens hlow (.inr hs) hack hbeyond hview rfl rfl rfl rfl
    | data hs d hd hfin => exact h.acknowledged hlow (hnotopening hs (by decide) (by decide)) hack hbeyond hd
    | fin hs d hd hfin =>
      have hno := hnotopening hs (by decide) (by decide)
      have hd' := h.acknowledged hlow hno hack hbeyond hd
      refine hd'.finished (c := { d with ack := d.ack + 1, state := .closed }) ?_ ?_ (.inl rfl) rfl rfl
      · show d.sent.count = 0
        rw [count_acknowledged hack hd]
        exact hfinishes (.inr ⟨hs, hfin⟩)
      · show ¬ (d.state = _ ∨ d.state = _)
        rw [(sameTx_of_onlyRx hd).state, (updateTxWindow_rest _ _).2.1]
        exact hno
    | finWait hs d hd e hcases =>
      have hno := hnotopening hs (by decide) (by decide)
      have hd' := h.acknowledged hlow hno hack hbeyond hd
      have hcount : d.sent.count = 0 := by
        rw [count_acknowledged hack hd]
        exact hfinishes (.inl hs)
      have hdno : ¬ (d.state = .synSent ∨ d.state = .synReceived) := by
        rw [(sameTx_of_onlyRx hd).state, (updateTxWindow_rest _ _).2.1]
        exact hno
      rcases hcases with rfl | rfl
      · exact hd'.finished (c := { d with state := .closed }) hcount hdno (.inl rfl) rfl rfl
      · exact hd'.finished (c := { d.discardCatalog with state := .closed, used := false }) hcount hdno (.inr rfl) rfl rfl

/-! ### The owner's steps -/

theorem rememberSent_some {c e : Connection} {flags : UInt16} {payload : List UInt8} {tick : UInt64}
    (h : c.rememberSent flags payload tick = some e) : (itemsOf flags payload = [] ∧ e = c) ∨
      (itemsOf flags payload ≠ [] ∧ ∃ token sent, c.sent.track c.seq c.ack flags payload tick = some (token, sent) ∧
        e = { c with sent }) := by
  unfold Connection.rememberSent at h
  by_cases hn : needsTracking flags payload.length = true
  · rw [hn, Bool.not_true, if_neg Bool.false_ne_true] at h
    cases ht : c.sent.track c.seq c.ack flags payload tick with
    | none => rw [ht] at h; cases h
    | some kept =>
      rw [ht] at h
      exact .inr ⟨(needsTracking_items flags payload).1 hn, kept.1, kept.2, rfl, (Option.some.inj h).symm⟩
  · have hnil : itemsOf flags payload = [] := by
      by_contra hne
      exact hn ((needsTracking_items flags payload).2 hne)
    rw [if_pos (by rw [eq_false_of_ne_true hn]; rfl)] at h
    exact .inl ⟨hnil, (Option.some.inj h).symm⟩

theorem commitSent_some {c d : Connection} {flags : UInt16} {payload : List UInt8} {tick : UInt64}
    (h : c.commitSent flags payload tick = some d) : ∃ e, c.rememberSent flags payload tick = some e ∧
      (if has flags flagSyn then some e
      else
        let e :=
          if payload.length ≠ 0 then
            { e with seq := e.seq + payload.length.toUInt32, txWindow := (e.txWindow.toNat - payload.length).toUInt32 }
          else e
        some (if has flags flagFin then { e with seq := e.seq + 1, closeRequested := false, state := .finWait } else e)) = some d := by
  unfold Connection.commitSent at h
  cases hr : c.rememberSent flags payload tick with
  | none => rw [hr] at h; cases h
  | some e => rw [hr] at h; exact ⟨e, rfl, h⟩

theorem sendAllowance_le {c : Connection} {requested : Nat} (h : 0 < c.sendAllowance requested) :
    c.state = .established ∧ c.sendAllowance requested ≤ c.txWindow.toNat := by
  unfold Connection.sendAllowance at h ⊢
  split at h
  · exact absurd h (Nat.lt_irrefl 0)
  · rename_i hs
    rw [if_neg hs]
    simp only [ne_eq, Bool.or_eq_true, decide_eq_true_eq, not_or, Decidable.not_not] at hs
    refine ⟨hs.1, ?_⟩
    dsimp only at h ⊢
    split at h
    · exact absurd h (Nat.lt_irrefl 0)
    · rename_i hw
      rw [if_neg hw]
      exact Nat.min_le_right ..

theorem itemsOf_nil {flags : UInt16} (hsyn : has flags flagSyn = false) (hfin : has flags flagFin = false) (payload : List UInt8) :
    itemsOf flags payload = payload.map .byte := by
  unfold itemsOf
  rw [hsyn, hfin, if_neg Bool.false_ne_true, if_neg Bool.false_ne_true, List.nil_append, List.append_nil]

theorem Sound.commitSyn (h : Sound base s) (hused : s.conn.used = true) (hs : s.conn.state = .synSent ∨ s.conn.state = .synReceived) {flags : UInt16}
    (hsyn : has flags flagSyn = true) (hfin : has flags flagFin = false) {tick : UInt64} {d : Connection}
    (hd : s.conn.commitSent flags [] tick = some d) : Sound base { s with conn := d, items := committed s.items flags [] } := by
  obtain ⟨e, he, hed⟩ := commitSent_some hd
  rw [if_pos hsyn] at hed
  cases hed
  have hitemsOf : itemsOf flags [] = [.syn] := by
    unfold itemsOf
    rw [hsyn, hfin]
    rfl
  obtain ⟨hacked, hedge, hitems⟩ := h.opening hs
  have hcommitted : committed s.items flags [] = [.syn] := by
    unfold committed
    rw [hsyn, hitemsOf]
    rcases hitems with hnil | hone
    · rw [hnil]
      rfl
    · rw [hone]
      rfl
  rcases rememberSent_some he with ⟨hnil, -⟩ | ⟨hne, token, sent, ht, rfl⟩
  · rw [hitemsOf] at hnil
    cases hnil
  have hcounted : s.counted = 0 := if_pos hs
  have hlive : s.conn.used = true ∧ s.conn.state ≠ .closed :=
    ⟨hused, by rcases hs with hs | hs <;> rw [hs] <;> decide⟩
  rw [hcommitted]
  refine ⟨?_, ?_, .inl hlive, ?_, ?_, Nat.zero_le 1, h.edge_le, fun _ => ⟨hacked, hedge, .inr rfl⟩, ?_⟩
  · refine h.keeps.track ht (n := 0) hne ?_ (Nat.zero_le _) (Nat.le_of_eq hacked) ?_ ?_ ?_
    · rw [h.seq, hcounted]
    · rcases hitems with hnil | hone
      · rw [hnil]
        exact List.nil_prefix
      · rw [hone]
    · rw [hitemsOf]
      rfl
    · show base + 1 ≤ _
      omega
  · show s.acked ≤ base + 1
    omega
  · show s.conn.seq = num (base + if _ then 0 else 1)
    rw [if_pos hs, h.seq, hcounted]
  · show base + (if _ then 0 else 1) ≤ _
    rw [if_pos hs, hedge]
    omega
  · intro hest
    rcases hs with hs | hs <;> rw [hs] at hest <;> cases hest

theorem established_counted (hs : s.conn.state = .established) : s.counted = s.items.length := by
  unfold counted
  rw [if_neg (by rw [hs]; simp)]

theorem Sound.commitData (h : Sound base s) (hused : s.conn.used = true) {flags : UInt16} (hsyn : has flags flagSyn = false)
    (hfin : has flags flagFin = false) {payload : List UInt8} (hpos : 0 < payload.length) {requested : Nat}
    (hlen : payload.length = s.conn.sendAllowance requested) {tick : UInt64} {d : Connection}
    (hd : s.conn.commitSent flags payload tick = some d) : Sound base { s with conn := d, items := committed s.items flags payload } := by
  obtain ⟨hs, hwin⟩ := sendAllowance_le (hlen ▸ hpos)
  obtain ⟨hnofin, hwindow⟩ := h.window hs
  obtain ⟨e, he, hed⟩ := commitSent_some hd
  rw [if_neg (ne_true_of_eq_false hsyn)] at hed
  dsimp only at hed
  rw [if_neg (ne_true_of_eq_false hfin), if_pos (by omega)] at hed
  cases hed
  have hcommitted : committed s.items flags payload = s.items ++ payload.map .byte := by
    unfold committed
    rw [hsyn, Bool.false_and, if_neg Bool.false_ne_true, itemsOf_nil hsyn hfin]
  have hlength : (s.items ++ payload.map Item.byte).length = s.items.length + payload.length := by
    rw [List.length_append, List.length_map]
  have hseq : s.conn.seq = num (base + s.items.length) := by rw [h.seq, established_counted hs]
  have hedge := h.edge_le
  have hacked := h.acked_le
  rw [hcommitted]
  rcases rememberSent_some he with ⟨hnil, -⟩ | ⟨hne, token, sent, ht, rfl⟩
  · rw [itemsOf_nil hsyn hfin, List.map_eq_nil_iff] at hnil
    rw [hnil] at hpos
    cases hpos
  have hnotopening : ¬ (s.conn.state = .synSent ∨ s.conn.state = .synReceived) := by rw [hs]; simp
  have hwindow' : ((s.conn.txWindow.toNat - payload.length).toUInt32).toNat = s.conn.txWindow.toNat - payload.length := by
    have hlt := s.conn.txWindow.toNat_lt
    rw [Nat.toUInt32, UInt32.toNat_ofNat', Nat.mod_eq_of_lt (by omega)]
  have hfins : (s.items ++ payload.map Item.byte).count .fin ≤ 1 := by
    rw [List.count_append, List.count_eq_zero.2 (by simp : Item.fin ∉ payload.map Item.byte)]
    exact h.fins
  refine ⟨?_, ?_, .inl ⟨hused, ?_⟩, ?_, ?_, hfins, hedge, fun hop => absurd hop hnotopening, fun _ => ⟨?_, ?_⟩⟩
  · refine h.keeps.track ht (n := s.items.length) hne hseq (Nat.le_refl _) hacked (List.prefix_append _ _) ?_ ?_
    · rw [List.take_length, itemsOf_nil hsyn hfin]
    · rw [hlength]
      omega
  · show s.acked ≤ base + (s.items ++ payload.map Item.byte).length
    omega
  · show s.conn.state ≠ .closed
    rw [hs]
    decide
  · show s.conn.seq + payload.length.toUInt32 = num (base + if _ then 0 else (s.items ++ payload.map Item.byte).length)
    rw [if_neg hnotopening, hlength, hseq, length_toUInt32, Nat.add_assoc]
  · show base + (if _ then 0 else (s.items ++ payload.map Item.byte).length) ≤ s.edge + _
    rw [if_neg hnotopening, hlength]
    omega
  · show Item.fin ∉ s.items ++ payload.map Item.byte
    rw [List.mem_append, not_or]
    exact ⟨hnofin, by simp⟩
  · show base + (s.items ++ payload.map Item.byte).length + ((s.conn.txWindow.toNat - payload.length).toUInt32).toNat ≤ s.edge
    rw [hlength, hwindow']
    omega

theorem Sound.commitFin (h : Sound base s) (hused : s.conn.used = true) (hready : s.conn.closeReady = true) {flags : UInt16}
    (hsyn : has flags flagSyn = false) (hfin : has flags flagFin = true) {tick : UInt64} {d : Connection}
    (hd : s.conn.commitSent flags [] tick = some d) : Sound base { s with conn := d, items := committed s.items flags [] } := by
  have hs : s.conn.state = .established := by
    unfold Connection.closeReady at hready
    simp only [Bool.and_eq_true, decide_eq_true_eq] at hready
    exact hready.1.1
  obtain ⟨hnofin, hwindow⟩ := h.window hs
  obtain ⟨e, he, hed⟩ := commitSent_some hd
  rw [if_neg (ne_true_of_eq_false hsyn)] at hed
  dsimp only at hed
  rw [if_pos hfin, if_neg (by simp)] at hed
  cases hed
  have hitemsOf : itemsOf flags [] = [.fin] := by
    unfold itemsOf
    rw [hsyn, hfin]
    rfl
  have hcommitted : committed s.items flags [] = s.items ++ [.fin] := by
    unfold committed
    rw [hsyn, Bool.false_and, if_neg Bool.false_ne_true, hitemsOf]
  have hseq : s.conn.seq = num (base + s.items.length) := by rw [h.seq, established_counted hs]
  have hlength : (s.items ++ [Item.fin]).length = s.items.length + 1 := List.length_append
  have hedge := h.edge_le
  have hacked := h.acked_le
  rw [hcommitted]
  rcases rememberSent_some he with ⟨hnil, -⟩ | ⟨hne, token, sent, ht, rfl⟩
  · rw [hitemsOf] at hnil
    cases hnil
  have hnotopening : ¬ (State.finWait = .synSent ∨ State.finWait = .synReceived) := by simp
  have hfins : (s.items ++ [Item.fin]).count .fin = 1 := by
    rw [List.count_append, List.count_eq_zero.2 hnofin, List.count_singleton_self]
  refine ⟨?_, ?_, .inl ⟨hused, fun hs => (by cases hs)⟩, ?_, ?_, Nat.le_of_eq hfins, hedge, fun hop => absurd hop hnotopening, fun hs => by cases hs⟩
  · refine h.keeps.track ht (n := s.items.length) hne hseq (Nat.le_refl _) hacked (List.prefix_append _ _) ?_ ?_
    · rw [List.take_length, hitemsOf]
    · rw [hlength]
      omega
  · show s.acked ≤ base + (s.items ++ [Item.fin]).length
    omega
  · show s.conn.seq + 1 = num (base + if _ then 0 else (s.items ++ [Item.fin]).length)
    rw [if_neg hnotopening, hlength, hseq, ← Nat.add_assoc, Sequence.num_succ]
  · show base + (if _ then 0 else (s.items ++ [Item.fin]).length) ≤ s.edge + (s.items ++ [Item.fin]).count .fin
    rw [if_neg hnotopening, hlength, hfins]
    omega

theorem Sound.commitEmpty (h : Sound base s) {flags : UInt16} (hsyn : has flags flagSyn = false) (hfin : has flags flagFin = false)
    {tick : UInt64} {d : Connection} (hd : s.conn.commitSent flags [] tick = some d) :
    Sound base { s with conn := d, items := committed s.items flags [] } := by
  obtain ⟨e, he, hed⟩ := commitSent_some hd
  rw [if_neg (ne_true_of_eq_false hsyn)] at hed
  dsimp only at hed
  rw [if_neg (ne_true_of_eq_false hfin), if_neg (by simp)] at hed
  cases hed
  have hcommitted : committed s.items flags [] = s.items := by
    unfold committed
    rw [hsyn, Bool.false_and, if_neg Bool.false_ne_true, itemsOf_nil hsyn hfin, List.map_nil, List.append_nil]
  rw [hcommitted]
  rcases rememberSent_some he with ⟨-, rfl⟩ | ⟨hne, -⟩
  · exact h
  · exact absurd (itemsOf_nil hsyn hfin []) hne

theorem Sound.commit (h : Sound base s) {flags : UInt16} {payload : List UInt8} {tick : UInt64}
    (ha : Allowed base s (.commit flags payload tick)) : Sound base (s.step base (.commit flags payload tick)) := by
  show Sound base (if _ then _ else s)
  split
  case isFalse => exact h
  rename_i hused
  rw [Bool.and_eq_true] at hused
  cases hd : s.conn.commitSent flags payload tick with
  | none => exact h
  | some d =>
    dsimp only [Allowed] at ha
    cases hsyn : has flags flagSyn with
    | true =>
      rw [if_pos hsyn] at ha
      obtain ⟨hs, hfin, rfl⟩ := ha
      exact h.commitSyn hused.1 hs hsyn hfin hd
    | false =>
      rw [if_neg (ne_true_of_eq_false hsyn)] at ha
      cases hfin : has flags flagFin with
      | true =>
        rw [if_pos hfin] at ha
        obtain ⟨hready, rfl⟩ := ha
        exact h.commitFin hused.1 hready hsyn hfin hd
      | false =>
        rw [if_neg (ne_true_of_eq_false hfin)] at ha
        rcases Nat.eq_zero_or_pos payload.length with hzero | hpos
        · obtain rfl := List.eq_nil_of_length_eq_zero hzero
          exact h.commitEmpty hsyn hfin hd
        · rcases ha with rfl | ⟨requested, hlen⟩
          · cases hpos
          · exact h.commitData hused.1 hsyn hfin hpos hlen hd

theorem Sound.onConn (h : Sound base s) {f : Connection → Connection} (hf : Sound base { s with conn := f s.conn }) :
    Sound base (s.onConn f) := by
  unfold Sender.onConn
  split
  · exact hf
  · exact h

theorem Sound.requestClose (h : Sound base s) : Sound base (s.step base .requestClose) := by
  refine h.onConn (f := fun c => c.requestClose.2) (h.congr (d := s.conn.requestClose.2) ?_ s.ended)
  unfold Connection.requestClose
  split <;> exact ⟨rfl, rfl, rfl, rfl, rfl⟩

theorem Sound.retransmitted (h : Sound base s) (token tick : UInt64) : Sound base (s.step base (.retransmitted token tick)) := by
  refine h.onConn (f := fun c => (c.recordRetransmit token tick).getD c) ?_
  unfold Connection.recordRetransmit
  cases hm : s.conn.sent.markRetransmitted token tick with
  | none => exact h
  | some sent => exact ⟨h.keeps.marked hm, h.acked_le, h.live, h.seq, h.bound, h.fins, h.edge_le, h.opening, h.window⟩

theorem Sound.read (h : Sound base s) (outLen : Nat) : Sound base (s.step base (.read outLen)) := by
  refine h.onConn (f := fun c => (c.read outLen).2) ?_
  unfold Connection.read
  generalize (if outLen < s.conn.rx.len then outLen else s.conn.rx.len) = len
  dsimp only
  split
  · have honly : ∀ rx, Connection.OnlyRx s.conn (Connection.flushOutOfOrderPayload { s.conn with rx }) := fun rx =>
      Connection.OnlyRx.trans (b := { s.conn with rx }) rfl (Connection.onlyRx_flush _ _)
    exact h.congr (sameTx_of_onlyRx (honly _)) s.ended
  · split
    · rename_i hclosed
      have hall : base + s.items.length ≤ s.acked := by
        rcases h.live with hl | hall
        · exact absurd hclosed hl.2
        · exact hall
      refine ⟨h.keeps.reset hall, h.acked_le, .inr hall, h.seq, h.bound, h.fins, h.edge_le, h.opening, h.window⟩
    · exact h

theorem reap_cases (now : UInt64) (c : Connection) : (∃ deadline, c.reap now = { c with timeWaitUntil := deadline }) ∨
    (c.used = true ∧ (c.reap now).used = false) := by
  have hsame : ∃ deadline, c = { c with timeWaitUntil := deadline } := ⟨c.timeWaitUntil, rfl⟩
  unfold Connection.reap
  split
  · exact .inl hsame
  · rename_i hused
    rw [Bool.not_eq_true, Bool.not_eq_false'] at hused
    split
    · split
      · exact .inl ⟨_, rfl⟩
      · split
        · exact .inr ⟨hused, rfl⟩
        · exact .inl hsame
    · split
      · exact .inl hsame
      · split
        · exact .inl ⟨_, rfl⟩
        · split
          · exact .inr ⟨hused, rfl⟩
          · exact .inl hsame

theorem Sound.reap (h : Sound base s) (now : UInt64) (he : (s.step base (.reap now)).ended = false) :
    Sound base (s.step base (.reap now)) := by
  have hstep : s.step base (.reap now) =
      { s with conn := s.conn.reap now, ended := s.ended || (s.conn.used && !(s.conn.reap now).used) } := rfl
  rw [hstep] at he ⊢
  rcases reap_cases now s.conn with ⟨deadline, hsame⟩ | ⟨hused, hgone⟩
  · refine h.congr (d := s.conn.reap now) ?_ _
    rw [hsame]
    exact ⟨rfl, rfl, rfl, rfl, rfl⟩
  · dsimp only at he
    rw [hused, hgone, Bool.not_false, Bool.and_self, Bool.or_true] at he
    cases he

theorem Sound.teardown (h : Sound base s) {f : Connection → Connection} (he : (s.teardown f).ended = false) : Sound base (s.teardown f) := by
  unfold Sender.teardown at he ⊢
  split at he
  · cases he
  · rename_i hused
    rw [if_neg hused]
    exact h

theorem ended_step {e : Sending} (he : s.ended = true) : (s.step base e).ended = true := by
  have htear : ∀ f, (s.teardown f).ended = true := by
    intro f
    unfold Sender.teardown
    split
    · rfl
    · exact he
  have hon : ∀ f, (s.onConn f).ended = true := by
    intro f
    unfold Sender.onConn
    split <;> exact he
  cases e with
  | commit flags payload tick =>
    show Sender.ended (if _ then _ else _) = true
    split
    · cases s.conn.commitSent flags payload tick <;> exact he
    · exact he
  | segment view =>
    show Sender.ended (if _ then _ else _) = true
    split
    · exact he
    · show (s.ended || _) = true
      rw [he, Bool.true_or]
  | reap now =>
    show (s.ended || _) = true
    rw [he, Bool.true_or]
  | requestClose => exact hon _
  | retransmitted token tick => exact hon _
  | read outLen => exact hon _
  | abort => exact htear _
  | close => exact htear _
  | replaced => exact htear _

/-- **Every step keeps a connection sound that it does not end.** -/
theorem Sound.step (h : s.ended = false → Sound base s) (hlow : 4294967296 ≤ base) {e : Sending} (ha : Allowed base s e)
    (hc : s.Complete e) (he : (s.step base e).ended = false) : Sound base (s.step base e) := by
  have hs : Sound base s := by
    apply h
    by_contra hended
    rw [ended_step (eq_true_of_ne_false hended)] at he
    cases he
  cases e with
  | commit flags payload tick => exact hs.commit ha
  | requestClose => exact hs.requestClose
  | segment view => exact hs.segment hlow ha hc he
  | retransmitted token tick => exact hs.retransmitted token tick
  | read outLen => exact hs.read outLen
  | reap now => exact hs.reap now he
  | abort => exact hs.teardown he
  | close => exact hs.teardown he
  | replaced => exact hs.teardown he

/-! ### A whole run -/

/-- A connection before its SYN: nothing is sent, the catalog is empty. -/
structure Starting (c : Connection) : Prop where
  used : c.used = true
  state : c.state = .synSent ∨ c.state = .synReceived
  sent : ∀ j, (c.sent.segments j).valid = false

/-- The position of the SYN: one with the number `c.seq` and room behind it for older numbers. -/
def synPosition (c : Connection) : Nat := 4294967296 + c.seq.toNat

def start (c : Connection) : Sender := { conn := c, acked := synPosition c, edge := synPosition c }

theorem Starting.sound {c : Connection} (h : Starting c) : Sound (synPosition c) (start c) where
  keeps := ⟨fun j hj => absurd ((h.sent j).symm.trans hj) Bool.false_ne_true, fun _ hi => absurd hi (Nat.not_lt_zero _),
    Nat.le_add_right .., Nat.le_refl _⟩
  acked_le := Nat.le_refl _
  live := .inr (Nat.le_refl _)
  seq := by
    show c.seq = num (synPosition c + if _ then 0 else 0)
    rw [ite_self, Nat.add_zero, synPosition, Sequence.num_add, Sequence.num_toNat]
    exact (UInt32.zero_add _).symm
  bound := by
    show synPosition c + (if _ then 0 else 0) ≤ _
    rw [ite_self]
    exact Nat.le_refl _
  fins := Nat.zero_le 1
  edge_le := Nat.le_add_right ..
  opening := fun _ => ⟨rfl, rfl, .inl rfl⟩
  window := fun hs => by
    rcases h.state with hst | hst <;> rw [show c.state = .established from hs] at hst <;> cases hst

/-- Both ways to create a connection start it so. -/
theorem beginLiveConnect_starting {t t' : Table} {ip : Ip} {port : UInt16} {seq : UInt32} {i : Slot}
    (h : t.allocConnection = (some i, t')) : Starting ((t.beginLiveConnect ip port seq).2.connections i) := by
  unfold Table.beginLiveConnect
  rw [h]
  show Starting (Function.update t'.connections i _ i)
  rw [Function.update_self]
  exact ⟨rfl, .inl rfl, fun _ => rfl⟩

theorem acceptNew_starting {t t' : Table} {view : SegmentView} {seq : UInt32} {i : Slot}
    (h : t.allocConnection = (some i, t')) : Starting ((t.acceptNew view seq).2.connections i) := by
  unfold Table.acceptNew
  rw [h]
  show Starting (Function.update t'.connections i _ i)
  rw [Function.update_self]
  exact ⟨rfl, .inr rfl, fun _ => rfl⟩

/-- What a connection owes at a moment: everything that is not acknowledged is in the catalog, at its sequence number, and
`planRetransmit` has a segment of its kind; and `seq` lies within the rightmost edge, a FIN not counted. -/
structure Owed (base : Nat) (s : Sender) : Prop where
  kept : ∀ i item, s.items[i]? = some item → s.acked ≤ base + i →
    s.conn.used = true ∧ (s.conn.planRetransmit item.kind).isSome = true ∧
      ∃ j k, (s.conn.sent.segments j).valid = true ∧ (s.conn.sent.segments j).items[k]? = some item ∧
        (s.conn.sent.segments j).seq + num k = num (base + i)
  edge : s.conn.seq = num (base + s.counted) ∧ base + s.counted ≤ s.edge + s.items.count .fin ∧ s.items.count .fin ≤ 1

theorem matches_of_item {seg : SentSegment} (hv : seg.valid = true) {item : Item} (h : item ∈ seg.items) :
    seg.matches item.kind = true := by
  unfold SentSegment.items itemsOf at h
  rw [List.mem_append, List.mem_append] at h
  unfold SentSegment.matches
  rw [hv, Bool.true_and]
  cases item with
  | syn =>
    show has seg.flags flagSyn = true
    by_contra hno
    simp [hno] at h
  | byte value =>
    show (seg.payload.length != 0) = true
    rw [bne_iff_ne, ne_eq, List.length_eq_zero_iff]
    rintro hnil
    rw [hnil] at h
    rcases h with (h | h) | h
    · split at h <;> simp at h
    · cases h
    · split at h <;> simp at h
  | fin =>
    show has seg.flags flagFin = true
    by_contra hno
    simp [hno] at h

theorem Sound.owed (h : Sound base s) : Owed base s where
  kept := by
    intro i item hitem hacked
    have hi : i < s.items.length := (List.getElem?_eq_some_iff.1 hitem).1
    have hlive : s.conn.used = true ∧ s.conn.state ≠ .closed := by
      rcases h.live with hl | hall
      · exact hl
      · omega
    obtain ⟨j, start, is, hp, hle, hlt⟩ := h.keeps.cover i hi hacked
    have hget : (s.conn.sent.segments j).items[i - start]? = some item := by
      have hdrop : (s.items.drop start)[i - start]? = some item := by
        rw [List.getElem?_drop, Nat.add_sub_cancel' hle]
        exact hitem
      rw [hp.holds.items, ← hdrop]
      exact (List.prefix_iff_getElem?.1 hp.piece (i - start) (by omega)).symm ▸ List.getElem?_eq_getElem (by omega)
    refine ⟨hlive.1, ?_, j, i - start, hp.holds.valid, hget, ?_⟩
    · have hmatch := matches_of_item hp.holds.valid (List.mem_of_getElem? hget)
      cases hold : s.conn.sent.oldest item.kind with
      | none => exact absurd ((Slots.best_none.1 hold j).symm.trans hmatch) Bool.false_ne_true
      | some slot =>
        unfold Connection.planRetransmit
        rw [if_neg hlive.2, hold]
        rfl
    · rw [hp.holds.seq, ← Sequence.num_add]
      congr 1
      omega
  edge := ⟨h.seq, h.bound, h.fins⟩

/-- **Nothing that the peer has not acknowledged is forgotten**, in every run in which no segment ends the connection while
something is owed. -/
theorem sent_kept {c : Connection} (hstart : Starting c) (events : List Sending)
    (h : Along (Sender.step (synPosition c)) (fun s e => Allowed (synPosition c) s e ∧ s.Complete e) (start c) events)
    (hended : (Runs.run (Sender.step (synPosition c)) (start c) events).ended = false) :
    Owed (synPosition c) (Runs.run (Sender.step (synPosition c)) (start c) events) := by
  have hsound := Runs.invariant (I := fun s => s.ended = false → Sound (synPosition c) s)
    (fun s e hs he hend => Sound.step hs (Nat.le_add_right ..) he.1 he.2 hend) events (fun _ => hstart.sound) h
  exact (hsound hended).owed

/-- A connection that is about to send its SYN, with sequence number zero. -/
def calling : Connection := { used := true, state := .synSent }

theorem calling_starting : Starting calling := ⟨rfl, .inl rfl, fun _ => rfl⟩

/-- A segment for it, acknowledging `ack`. -/
def reply (flags : UInt16) (ack : UInt32) : SegmentView :=
  { sourceIp := Vector.replicate 4 0, sourcePort := 0, destPort := 0, seq := 0, ack, flags, window := 1000, payload := [] }

def opened : List Sending := [.commit flagSyn [] 0, .segment (reply (flagSyn ||| flagAck) 1)]

theorem sent_kept_data : Owed (synPosition calling)
    (Runs.run (Sender.step (synPosition calling)) (start calling) (opened ++ [.commit flagAck [7, 8] 1])) := by
  refine sent_kept calling_starting _ ⟨⟨?_, trivial⟩, ⟨⟨?_, ?_⟩, ?_⟩, ⟨?_, trivial⟩, trivial⟩ ?_
  · exact ⟨.inl rfl, by decide, rfl⟩
  · decide
  · decide
  · intro hf
    exact absurd hf (by decide)
  · exact .inr ⟨2, by decide⟩
  · decide

/-- The close is requested, the FIN goes out, and the handshake's acknowledgement comes once more. -/
def lateAck : List Sending := opened ++ [.requestClose, .commit (flagAck ||| flagFin) [] 1, .segment (reply flagAck 1)]

/-- **A late acknowledgement takes the FIN away**: it covers nothing of it, and the slot is given up. -/
theorem sent_kept_late : ¬ ∀ (c : Connection) (events : List Sending), Starting c →
    Along (Sender.step (synPosition c)) (fun s e => Allowed (synPosition c) s e) (start c) events →
    (Runs.run (Sender.step (synPosition c)) (start c) events).ended = false →
    Owed (synPosition c) (Runs.run (Sender.step (synPosition c)) (start c) events) := by
  intro hall
  have hrun : Along (Sender.step (synPosition calling)) (fun s e => Allowed (synPosition calling) s e) (start calling) lateAck := by
    refine ⟨?_, ⟨?_, ?_⟩, trivial, ?_, ⟨?_, ?_⟩, trivial⟩
    · exact ⟨.inl rfl, by decide, rfl⟩
    · decide
    · decide
    · exact ⟨by decide, rfl⟩
    · decide
    · decide
  have howed := hall calling lateAck calling_starting hrun (by decide)
  have hused := (howed.kept 1 .fin (by decide) (by decide)).1
  exact absurd hused (by decide)

end Sender

end Tcp
end R4
