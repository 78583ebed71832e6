import R4Recovery.TcpSend
/-!
# TcpProgress — what an established connection does with a segment that reaches its position

A segment that begins at the acknowledged position, or before it and ends behind it, is taken as a whole: bytes, window,
acknowledgement and FIN.  One that ends exactly at the position is old data; it is dropped with everything else it carries.
-/
namespace R4
namespace Tcp

open Sequence (num)

/-- A segment whose range reaches the position of the connection, and whose new bytes fit. -/
structure Useful (c : Connection) (view : SegmentView) : Prop where
  established : c.state = .established
  pending : ∀ i, (c.outOfOrder i).valid = false
  ring : c.rx.Ok bufferSize
  noReset : has view.flags flagRst = false
  begins : (c.ack - view.seq).toNat < 2147483648
  reaches : (c.ack - view.seq).toNat ≤ view.payload.length
  fits : view.payload.length - (c.ack - view.seq).toNat ≤ c.rxFree

/-- Everything the segment carries is taken over. -/
structure Progress (c : Connection) (view : SegmentView) (d : Connection) : Prop where
  ack : d.ack = view.seq + view.payload.length.toUInt32 + if has view.flags flagFin then 1 else 0
  state : d.state = if has view.flags flagFin then .closed else .established
  gained : d.rx.contents bufferSize = c.rx.contents bufferSize ++ view.payload.drop (c.ack - view.seq).toNat
  txAck : d.txAck = (c.updateTxWindow view).txAck
  txWindow : d.txWindow = (c.updateTxWindow view).txWindow
  sent : d.sent = (c.updateTxWindow view).sent

/-- Payload, and none of it new. -/
def Old (c : Connection) (view : SegmentView) : Prop :=
  view.payload ≠ [] ∧ view.seq + view.payload.length.toUInt32 = c.ack

/-- The connection already has the acknowledgement and the window that the segment carries. -/
structure Reflected (c : Connection) (view : SegmentView) : Prop where
  txAck : has view.flags flagAck = true → c.txAck = view.ack ∨ c.txAck ≠ 0 ∧ seqAfter view.ack c.txAck = false
  sent : has view.flags flagAck = true → ∀ j, (c.sent.segments j).valid = true → seqAfter view.ack (c.sent.segments j).seq = false
  txWindow : c.txWindow = if has view.flags flagAck then
      if seqAfter (view.ack + c.advertised view) c.seq then view.ack + c.advertised view - c.seq else 0
    else c.advertised view

/-! ## What is already reflected -/

theorem acknowledge_eq (s : SentSegment) (ack : UInt32) :
    s.acknowledge ack = s ↔ (s.valid = true → seqAfter ack s.seq = false) := by
  constructor
  · intro heq hv
    by_contra hafter
    rw [Bool.not_eq_false] at hafter
    have hdist : ack - s.seq ≠ 0 := fun h0 => by
      unfold seqAfter Sequence.after at hafter
      rw [h0] at hafter
      exact absurd hafter (by decide)
    unfold SentSegment.acknowledge at heq
    rw [hv, hafter, Bool.not_true, Bool.or_false, if_neg Bool.false_ne_true] at heq
    dsimp only at heq
    split at heq
    · exact absurd ((congrArg SentSegment.valid heq).trans hv) Bool.false_ne_true
    · rename_i hpart
      cases hsyn : has s.flags flagSyn with
      | true =>
        -- the SYN flag is gone
        have hflags : ∀ s' : SentSegment, s' = s → has s'.flags flagSyn = true := fun s' hs => hs ▸ hsyn
        have hgone := hflags _ heq
        have hclear : has (s.flags &&& ~~~flagSyn) flagSyn = false := by
          rw [has_clear, show ~~~flagSyn &&& flagSyn = 0 from rfl]
          unfold has
          rw [UInt16.and_zero]
          rfl
        rw [hsyn, bne_iff_ne.2 hdist, Bool.and_self, if_pos rfl] at hgone
        revert hgone
        dsimp only
        split <;> split <;> exact fun hgone => absurd (hclear.symm.trans hgone) Bool.false_ne_true
      | false =>
        have hlen : s.payload.length ≠ 0 := fun h0 => hpart (by
          unfold SentSegment.sequenceLength sequenceLengthFor
          rw [hsyn, h0, UInt32.le_iff_toNat_le]
          have hpos : 0 < (ack - s.seq).toNat := Nat.pos_of_ne_zero (fun h0 => hdist (UInt32.toNat_inj.1 h0))
          cases has s.flags flagFin
          · exact Nat.zero_le _
          · exact hpos)
        -- the first bytes are gone
        have hpos : 0 < min (ack - s.seq).toNat s.payload.length := by
          have : (ack - s.seq).toNat ≠ 0 := fun h0 => hdist (UInt32.toNat_inj.1 h0)
          omega
        have hpayload := congrArg (fun s' : SentSegment => s'.payload.length) heq
        rw [hsyn, Bool.false_and, if_neg Bool.false_ne_true] at hpayload
        dsimp only at hpayload
        rw [bne_iff_ne.2 hdist, bne_iff_ne.2 hlen, Bool.and_self, if_pos rfl] at hpayload
        revert hpayload
        dsimp only
        split <;> exact fun hpayload => absurd (List.length_drop.symm.trans hpayload) (by omega)
  · intro h
    unfold SentSegment.acknowledge
    rw [if_pos]
    cases hv : s.valid with
    | false => rfl
    | true => rw [h hv, Bool.not_true, Bool.false_or, Bool.not_false]

theorem reflected_iff (c : Connection) (view : SegmentView) : Reflected c view ↔
    c.txAck = (c.updateTxWindow view).txAck ∧ c.txWindow = (c.updateTxWindow view).txWindow ∧
      c.sent = (c.updateTxWindow view).sent := by
  unfold Connection.updateTxWindow
  cases hack : has view.flags flagAck with
  | false =>
    rw [Bool.not_false, if_pos rfl]
    constructor
    · rintro ⟨-, -, hwindow⟩
      rw [hack, if_neg Bool.false_ne_true] at hwindow
      exact ⟨rfl, hwindow, rfl⟩
    · rintro ⟨-, hwindow, -⟩
      refine ⟨fun h => absurd (hack.symm.trans h) Bool.false_ne_true,
        fun h => absurd (hack.symm.trans h) Bool.false_ne_true, ?_⟩
      rw [hack, if_neg Bool.false_ne_true]
      exact hwindow
  | true =>
    rw [Bool.not_true, if_neg Bool.false_ne_true]
    dsimp only
    have htxAck : c.txAck = (if (decide (c.txAck = 0) || seqAfter view.ack c.txAck) = true then view.ack else c.txAck) ↔
        (c.txAck = view.ack ∨ c.txAck ≠ 0 ∧ seqAfter view.ack c.txAck = false) := by
      by_cases hz : c.txAck = 0
      · simp [hz]
      · cases seqAfter view.ack c.txAck <;> simp [hz]
    have hsent : c.sent = c.sent.acknowledge view.ack ↔
        ∀ j, (c.sent.segments j).valid = true → seqAfter view.ack (c.sent.segments j).seq = false := by
      constructor
      · intro heq j
        exact (acknowledge_eq _ _).1 (congrFun (congrArg SendCatalog.segments heq) j).symm
      · intro hall
        have hsegments : (fun j => (c.sent.segments j).acknowledge view.ack) = c.sent.segments :=
          funext (fun j => (acknowledge_eq _ _).2 (hall j))
        unfold SendCatalog.acknowledge
        rw [hsegments]
    rw [htxAck, hsent]
    constructor
    · rintro ⟨h1, h2, hwindow⟩
      rw [hack, if_pos rfl] at hwindow
      exact ⟨h1 hack, hwindow, h2 hack⟩
    · rintro ⟨h1, hwindow, h2⟩
      refine ⟨fun _ => h1, fun _ => h2, ?_⟩
      rw [hack, if_pos rfl]
      exact hwindow

/-! ## The segment -/

variable {c : Connection} {view : SegmentView}

theorem ack_num (c : Connection) (view : SegmentView) : c.ack = num (view.seq.toNat + (c.ack - view.seq).toNat) := by
  rw [Sequence.num_add, Sequence.num_toNat, Sequence.num_toNat, UInt32.add_comm, UInt32.sub_add_cancel]

theorem rxFree_le (c : Connection) : c.rxFree ≤ 262144 := Nat.sub_le _ _

theorem Useful.old_iff (h : Useful c view) : Old c view ↔
    view.payload ≠ [] ∧ (c.ack - view.seq).toNat = view.payload.length := by
  have hfree := rxFree_le c
  obtain ⟨-, -, -, -, hb, hr, hf⟩ := h
  unfold Old
  refine and_congr_right (fun _ => ?_)
  rw [show view.seq + view.payload.length.toUInt32 = num (view.seq.toNat + view.payload.length) by
    rw [Sequence.num_add, Sequence.num_toNat]; rfl]
  constructor
  · intro heq
    have hpos := Sequence.num_inj (heq.trans (ack_num c view)) (by omega) (by omega)
    omega
  · intro heq
    rw [← heq]
    exact (ack_num c view).symm

theorem sub_comm_toNat {a b : UInt32} (h : 0 < (a - b).toNat) : (b - a).toNat = 4294967296 - (a - b).toNat := by
  have ha := a.toNat_lt
  have hb := b.toNat_lt
  rw [UInt32.toNat_sub] at h ⊢
  rw [UInt32.toNat_sub]
  omega

theorem Useful.old_refused (h : Useful c view) (hold : Old c view) : c.segmentSeqAcceptable view = false := by
  obtain ⟨hne, hk⟩ := h.old_iff.1 hold
  have hpos := List.length_pos_iff.2 hne
  have hfree := rxFree_le c
  have hbegins := h.begins
  have hdist := sub_comm_toNat (a := c.ack) (b := view.seq) (by omega)
  have hneq : view.seq ≠ c.ack := fun heq => by
    rw [heq, UInt32.sub_self] at hk
    exact absurd hk (Nat.ne_of_lt hpos)
  have hwindow : (max 1 c.rxFree).toUInt32.toNat ≤ 262144 := by
    show max 1 c.rxFree % 4294967296 ≤ 262144
    omega
  unfold Connection.segmentSeqAcceptable
  dsimp only
  rw [hold.2, decide_eq_false hneq]
  unfold seqAfter
  rw [Sequence.after_self, Bool.and_false, Bool.false_or, Bool.false_or, decide_eq_false_iff_not, UInt32.lt_iff_toNat_lt]
  omega

theorem Useful.new_accepted (h : Useful c view) (hnew : ¬ Old c view) : c.segmentSeqAcceptable view = true := by
  have hfree := rxFree_le c
  have hack := ack_num c view
  have hold := h.old_iff
  obtain ⟨-, -, -, -, hb, hr, hf⟩ := h
  have hseq : view.seq = num view.seq.toNat := (Sequence.num_toNat _).symm
  generalize hk : (c.ack - view.seq).toNat = k at *
  generalize view.seq.toNat = q at hack hseq
  unfold Connection.segmentSeqAcceptable
  dsimp only
  rw [Bool.or_eq_true, Bool.or_eq_true]
  rcases Nat.eq_zero_or_pos k with h0 | hpos
  · refine .inl (.inl (decide_eq_true ?_))
    rw [hack, h0, hseq, Nat.add_zero]
  · have hlt : k < view.payload.length := by
      rcases Nat.lt_or_ge k view.payload.length with hlt | hge
      · exact hlt
      · exact absurd (hold.2 ⟨List.length_pos_iff.1 (by omega), by omega⟩) hnew
    refine .inl (.inr ?_)
    have h1 : seqAfter view.seq c.ack = false := by
      rw [seqAfter, hack, hseq, Sequence.after_num (by omega) (by omega), decide_eq_false (by omega)]
    have h2 : seqAfter (view.seq + view.payload.length.toUInt32) c.ack = true := by
      rw [hseq, length_toUInt32, seqAfter, hack, Sequence.after_num (by omega) (by omega), decide_eq_true (by omega)]
    rw [h1, h2, decide_eq_true (by omega)]
    rfl

theorem flush_idle {d : Connection} (hpending : ∀ i, (d.outOfOrder i).valid = false) : d.flushOutOfOrderPayload = d := by
  refine flush_none (Slots.best_none.2 (fun i => ?_)) _
  unfold Connection.flushable
  rw [hpending i, Bool.false_and]

theorem Useful.accepted (h : Useful c view) (hnew : ¬ Old c view) {d : Connection} (hrx : d.rx = c.rx) (hack : d.ack = c.ack)
    (hooo : d.outOfOrder = c.outOfOrder) (hne : view.payload.length ≠ 0) :
    (d.acceptPayload view.seq view.payload).ack = view.seq + view.payload.length.toUInt32 ∧
      (d.acceptPayload view.seq view.payload).rx.contents bufferSize
        = c.rx.contents bufferSize ++ view.payload.drop (c.ack - view.seq).toNat := by
  have hpending : ∀ i, (d.outOfOrder i).valid = false := hooo ▸ h.pending
  have hack' := ack_num c view
  have hold := h.old_iff
  obtain ⟨-, -, hring, -, hb, hr, hf⟩ := h
  have hfree' : d.rxFree = c.rxFree := by
    unfold Connection.rxFree
    rw [hrx]
  -- both branches accept the bytes from the position on
  have htake : ∀ seq payload, payload.length ≤ c.rxFree → (d.acceptInOrderPayload seq payload).flushOutOfOrderPayload
      = { d with rx := d.rx.push bufferSize payload, ack := seq + payload.length.toUInt32 } := by
    intro seq payload hfits
    have hmin : min payload.length d.rxFree = payload.length := by omega
    have hacc : d.acceptInOrderPayload seq payload
        = { d with rx := d.rx.push bufferSize payload, ack := seq + payload.length.toUInt32 } := by
      unfold Connection.acceptInOrderPayload
      rw [hmin]
      dsimp only
      rw [List.take_length]
    rw [hacc]
    exact flush_idle hpending
  have hpush : ∀ payload : List UInt8, payload.length ≤ c.rxFree →
      (d.rx.push bufferSize payload).contents bufferSize = c.rx.contents bufferSize ++ payload := by
    intro payload hfits
    rw [hrx]
    refine Ring.contents_push hring ?_
    have hle := hring.len_le
    unfold Connection.rxFree at hfits
    omega
  generalize hk : (c.ack - view.seq).toNat = k at *
  unfold Connection.acceptPayload
  rw [if_neg hne, hack]
  by_cases hseq : view.seq = c.ack
  · have hzero : k = 0 := by
      rw [← hk, hseq, UInt32.sub_self]
      rfl
    rw [if_pos hseq, htake _ _ (by omega), hzero, List.drop_zero]
    exact ⟨rfl, hpush _ (by omega)⟩
  · have hpos : 0 < k := Nat.pos_of_ne_zero (fun h0 => hseq (by rw [hack', h0, Nat.add_zero, Sequence.num_toNat]))
    have hlt : k < view.payload.length := by
      rcases Nat.lt_or_ge k view.payload.length with hlt | hge
      · exact hlt
      · exact absurd (hold.2 ⟨List.length_pos_iff.1 (by omega), by omega⟩) hnew
    have hafter : seqAfter view.seq c.ack = false := by
      have hs : view.seq = num view.seq.toNat := (Sequence.num_toNat _).symm
      generalize view.seq.toNat = q at hack' hs
      rw [seqAfter, hack', hs, Sequence.after_num (by omega) (by omega), decide_eq_false (by omega)]
    rw [if_neg hseq, hafter, if_neg Bool.false_ne_true]
    dsimp only
    rw [hk, if_pos hlt, htake _ _ (by rw [List.length_drop]; omega)]
    refine ⟨?_, hpush _ (by rw [List.length_drop]; omega)⟩
    show c.ack + (view.payload.drop k).length.toUInt32 = _
    have hs : view.seq = num view.seq.toNat := (Sequence.num_toNat _).symm
    generalize view.seq.toNat = q at hack' hs
    rw [hack', hs, length_toUInt32, length_toUInt32, List.length_drop]
    congr 1
    omega

/-- **A segment that is not old is taken as a whole.** -/
theorem Useful.progress (h : Useful c view) (hnew : ¬ Old c view) : Progress c view (c.receiveEstablished view) := by
  obtain ⟨hrx, hack, hooo, hstate⟩ := updateTxWindow_onlyTx c view
  unfold Connection.receiveEstablished
  rw [h.new_accepted hnew, Bool.not_true, Bool.and_false, if_neg Bool.false_ne_true]
  dsimp only
  -- the connection behind the payload step
  generalize he : (if view.payload.length ≠ 0 then (c.updateTxWindow view).acceptPayload view.seq view.payload
    else c.updateTxWindow view) = e
  have htaken : e.ack = view.seq + view.payload.length.toUInt32 ∧
      e.rx.contents bufferSize = c.rx.contents bufferSize ++ view.payload.drop (c.ack - view.seq).toNat := by
    rw [← he]
    split
    · rename_i hne
      exact h.accepted hnew hrx hack hooo hne
    · rename_i hnil
      obtain hnil : view.payload = [] := List.length_eq_zero_iff.1 (not_not.1 hnil)
      have hreach := h.reaches
      rw [hnil, List.length_nil] at hreach
      have hzero : c.ack - view.seq = 0 := UInt32.toNat_inj.1 (Nat.le_zero.1 hreach)
      rw [hack, hrx, hnil, List.drop_nil, List.append_nil]
      refine ⟨?_, rfl⟩
      show c.ack = view.seq + 0
      rw [UInt32.add_zero]
      rw [← UInt32.sub_add_cancel c.ack view.seq, hzero, UInt32.zero_add]
  have honly : Connection.OnlyRx (c.updateTxWindow view) e := by
    rw [← he]
    split
    · exact Connection.onlyRx_acceptPayload _ _ _
    · exact .refl _
  have hstay : e.state = .established := honly.state.trans (hstate.trans h.established)
  have htx : e.txAck = (c.updateTxWindow view).txAck ∧ e.txWindow = (c.updateTxWindow view).txWindow ∧
      e.sent = (c.updateTxWindow view).sent := by
    rw [honly]
    exact ⟨rfl, rfl, rfl⟩
  cases hfin : has view.flags flagFin with
  | false =>
    rw [Bool.false_and, if_neg Bool.false_ne_true]
    refine ⟨?_, ?_, htaken.2, htx.1, htx.2.1, htx.2.2⟩
    · rw [hfin, if_neg Bool.false_ne_true, UInt32.add_zero]
      exact htaken.1
    · rw [hfin, if_neg Bool.false_ne_true]
      exact hstay
  | true =>
    rw [Bool.true_and, if_pos (decide_eq_true htaken.1.symm)]
    refine ⟨?_, ?_, htaken.2, htx.1, htx.2.1, htx.2.2⟩
    · rw [hfin, if_pos rfl, ← htaken.1]
    · rw [hfin, if_pos rfl]

theorem Useful.progress_old (h : Useful c view) (hold : Old c view) :
    c.receiveEstablished view = c ∧ (Progress c view c ↔ has view.flags flagFin = false ∧ Reflected c view) := by
  obtain ⟨hne, hk⟩ := h.old_iff.1 hold
  constructor
  · unfold Connection.receiveEstablished
    rw [h.old_refused hold, decide_eq_true (show view.payload.length ≠ 0 from fun h0 => hne (List.length_eq_zero_iff.1 h0))]
    rfl
  · rw [reflected_iff]
    constructor
    · rintro ⟨-, hstate, -, h1, h2, h3⟩
      refine ⟨?_, h1, h2, h3⟩
      by_contra hfin
      rw [if_pos (eq_true_of_ne_false hfin), h.established] at hstate
      cases hstate
    · rintro ⟨hfin, h1, h2, h3⟩
      refine ⟨?_, ?_, ?_, h1, h2, h3⟩
      · rw [hfin, if_neg Bool.false_ne_true, UInt32.add_zero]
        exact hold.2.symm
      · rw [hfin, if_neg Bool.false_ne_true]
        exact h.established
      · rw [hk, List.drop_length, List.append_nil]

/-- **A segment that reaches the position is taken as a whole, but for old payload**: a segment whose payload ends exactly
at the position is dropped, with its FIN and with an acknowledgement or a window that the connection does not have yet. -/
theorem receive_progress (t : Table) (view : SegmentView) (i : Slot) (hmatch : t.matchConnection view = some i)
    (h : Useful (t.connections i) view) : Progress (t.connections i) view ((t.applyRxView view).connections i) ↔
      (Old (t.connections i) view → has view.flags flagFin = false ∧ Reflected (t.connections i) view) := by
  have hresult : (t.applyRxView view).connections i = (t.connections i).receiveEstablished view := by
    have hreceive : (t.connections i).receive view = (t.connections i).receiveEstablished view := by
      unfold Connection.receive
      rw [h.noReset, h.established]
      rfl
    unfold Table.applyRxView
    rw [hmatch, ← hreceive]
    exact Function.update_self ..
  rw [hresult]
  constructor
  · intro hp hold
    obtain ⟨hsame, hiff⟩ := h.progress_old hold
    rw [hsame] at hp
    exact hiff.1 hp
  · intro hcond
    by_cases hold : Old (t.connections i) view
    · obtain ⟨hsame, hiff⟩ := h.progress_old hold
      rw [hsame]
      exact hiff.2 (hcond hold)
    · exact h.progress hold

/-- A table whose first connection waits for the byte behind two that it has. -/
def waiting : Table := { connections := fun _ => { openConnection with ack := 2 } }

def firstConnection : Slot := ⟨0, by decide⟩

/-- A segment that ends the stream. -/
def lastAt (offset : Nat) (payload : List UInt8) : SegmentView := { segmentAt offset payload with flags := flagAck ||| flagFin }

theorem receive_progress_repeat : Progress (waiting.connections firstConnection) (lastAt 1 [66, 67])
    ((waiting.applyRxView (lastAt 1 [66, 67])).connections firstConnection) := by
  refine (receive_progress waiting _ firstConnection (by decide) ?_).2 (fun hold => absurd hold.2 (by decide))
  exact ⟨rfl, fun _ => rfl, ⟨by decide, by decide⟩, by decide, by decide, by decide, by decide⟩

theorem receive_progress_old : ¬ ∀ (t : Table) (view : SegmentView) (i : Slot), t.matchConnection view = some i →
    Useful (t.connections i) view → Progress (t.connections i) view ((t.applyRxView view).connections i) := by
  intro hall
  have hp := hall waiting (lastAt 0 [65, 66]) firstConnection (by decide)
    ⟨rfl, fun _ => rfl, ⟨by decide, by decide⟩, by decide, by decide, by decide, by decide⟩
  exact absurd hp.state (by decide)

end Tcp
end R4
