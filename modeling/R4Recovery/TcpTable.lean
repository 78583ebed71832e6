import R4Recovery.TcpStream
/-!
# TcpTable — the connections of the table are told apart

Every step either leaves a slot's connection what it is, gives the slot up, or creates a connection under the next id.  Ids
and local ports come from counters that wrap: a creation is safe when what the counters give is not in use.
-/
namespace R4
namespace Tcp

open Runs (Along)

/-! ## What a step may do to one connection -/

/-- `d` is still `c`, or it is given up. -/
structure Tame (c d : Connection) : Prop where
  used : d.used = true → c.used = true ∧ d.id = c.id ∧ d.generation = c.generation
  live : d.state ≠ .closed →
    c.state ≠ .closed ∧ d.localPort = c.localPort ∧ d.remotePort = c.remotePort ∧ d.remoteIp = c.remoteIp
  idle : (c.used = false → c.state = .closed) → d.used = false → d.state = .closed
  ring : c.rx.Ok bufferSize → d.rx.Ok bufferSize

theorem Tame.refl (c : Connection) : Tame c c := ⟨fun h => ⟨h, rfl, rfl⟩, fun h => ⟨h, rfl, rfl, rfl⟩, id, id⟩

theorem Tame.trans {a b c : Connection} (h1 : Tame a b) (h2 : Tame b c) : Tame a c where
  used h := by
    obtain ⟨hb, h3, h4⟩ := h2.used h
    obtain ⟨ha, h5, h6⟩ := h1.used hb
    exact ⟨ha, h3.trans h5, h4.trans h6⟩
  live h := by
    obtain ⟨hb, h3, h4, h5⟩ := h2.live h
    obtain ⟨ha, h6, h7, h8⟩ := h1.live hb
    exact ⟨ha, h3.trans h6, h4.trans h7, h5.trans h8⟩
  idle h := h2.idle (h1.idle h)
  ring h := h2.ring (h1.ring h)

theorem Tame.of_same {c d : Connection} (hused : d.used = c.used) (hid : d.id = c.id ∧ d.generation = c.generation)
    (hports : d.localPort = c.localPort ∧ d.remotePort = c.remotePort ∧ d.remoteIp = c.remoteIp)
    (hstate : d.state = c.state ∨ d.state = .closed ∨ (c.used = true ∧ c.state ≠ .closed)) (hring : c.rx.Ok bufferSize → d.rx.Ok bufferSize) : Tame c d where
  used h := ⟨hused ▸ h, hid⟩
  live h := by
    refine ⟨?_, hports⟩
    rcases hstate with hs | hs | hs
    · rwa [hs] at h
    · exact absurd hs h
    · exact hs.2
  idle hidle h := by
    rcases hstate with hs | hs | hs
    · rw [hs]
      exact hidle (hused ▸ h)
    · exact hs
    · rw [hused, hs.1] at h
      cases h
  ring := hring

theorem Tame.given_up {c d : Connection} (hused : d.used = false) (hstate : d.state = .closed)
    (hring : c.rx.Ok bufferSize → d.rx.Ok bufferSize) : Tame c d where
  used h := absurd (hused.symm.trans h) Bool.false_ne_true
  live h := absurd hstate h
  idle _ _ := hstate
  ring := hring

theorem ring_reset (c : Connection) (h : c.rx.Ok bufferSize) : c.resetConnectionSlot.rx.Ok bufferSize :=
  ⟨Nat.lt_of_le_of_lt (Nat.zero_le _) h.head_lt, Nat.zero_le _⟩

namespace Connection

variable (c : Connection)

theorem tame_reset : Tame c c.resetConnectionSlot := .given_up rfl rfl (ring_reset c)

theorem tame_abort : Tame c c.abort := .given_up rfl rfl (fun h => h)

theorem tame_close : Tame c c.close := by
  unfold close
  split
  · rename_i hs
    exact .given_up rfl hs (fun h => h)
  · exact .given_up rfl rfl (fun h => h)

theorem tame_requestClose : Tame c c.requestClose.2 := by
  unfold requestClose
  split
  · exact .of_same rfl ⟨rfl, rfl⟩ ⟨rfl, rfl, rfl⟩ (.inl rfl) (fun h => h)
  all_goals exact .refl c

theorem tame_reap (now : UInt64) : Tame c (c.reap now) := by
  have htimer : ∀ deadline, Tame c { c with timeWaitUntil := deadline } := fun _ =>
    .of_same rfl ⟨rfl, rfl⟩ ⟨rfl, rfl, rfl⟩ (.inl rfl) (fun h => h)
  unfold reap
  split
  · exact .refl c
  · split
    · split
      · exact htimer _
      · split
        · exact c.tame_reset
        · exact .refl c
    · split
      · exact .refl c
      · split
        · exact htimer _
        · split
          · exact c.tame_reset
          · exact .refl c

/-! ### The receive buffer stays a ring -/

theorem ring_accept (seq : UInt32) (payload : List UInt8) (h : c.rx.Ok bufferSize) :
    (c.acceptInOrderPayload seq payload).rx.Ok bufferSize := by
  refine Ring.push_ok h ?_
  have hle := h.len_le
  rw [List.length_take]
  unfold rxFree
  omega

theorem ring_flush : ∀ (fuel : Nat) (c : Connection), c.rx.Ok bufferSize → (flushSlots fuel c).rx.Ok bufferSize
  | 0, _, h => h
  | fuel + 1, c, h => by
    unfold flushSlots
    split
    · exact h
    · dsimp only
      split
      · exact ring_flush fuel _ h
      · split
        · exact h
        · exact ring_flush fuel _ (ring_accept (c.setSlot _ {}) _ _ h)

theorem ring_acceptPayload (seq : UInt32) (payload : List UInt8) (h : c.rx.Ok bufferSize) :
    (c.acceptPayload seq payload).rx.Ok bufferSize := by
  unfold acceptPayload
  split
  · exact h
  · split
    · exact ring_flush _ _ (c.ring_accept _ _ h)
    · split
      · unfold storeOutOfOrderPayload
        split
        · exact h
        · split
          · exact h
          · split
            · dsimp only
              split <;> exact h
            · split <;> exact h
      · dsimp only
        split
        · exact ring_flush _ _ (c.ring_accept _ _ h)
        · exact h

theorem tame_onlyRx {c d : Connection} (h : OnlyRx c d) (hring : c.rx.Ok bufferSize → d.rx.Ok bufferSize) : Tame c d := by
  refine .of_same h.used ?_ ?_ (.inl h.state) hring <;> rw [h]
  · exact ⟨rfl, rfl⟩
  · exact ⟨rfl, rfl, rfl⟩

theorem tame_updateTxWindow (view : SegmentView) : Tame c (c.updateTxWindow view) := by
  unfold updateTxWindow
  dsimp only
  split <;> exact .of_same rfl ⟨rfl, rfl⟩ ⟨rfl, rfl, rfl⟩ (.inl rfl) (fun h => h)

theorem tame_read (outLen : Nat) : Tame c (c.read outLen).2 := by
  unfold read
  generalize hlen : (if outLen < c.rx.len then outLen else c.rx.len) = len
  have hle : len ≤ c.rx.len := by
    split at hlen <;> omega
  dsimp only
  split
  · refine tame_onlyRx (OnlyRx.trans (b := { c with rx := _ }) rfl (onlyRx_flush _ _)) (fun h => ring_flush _ _ ?_)
    have hok := Ring.pop_ok h hle
    show Ring.Ok bufferSize (if _ then _ else _)
    split
    · exact ⟨Nat.lt_of_le_of_lt (Nat.zero_le _) hok.head_lt, hok.len_le⟩
    · exact hok
  · split
    · rename_i hs
      exact .given_up rfl hs (fun h => h)
    · exact .refl c

theorem tame_alive {c d : Connection} (hu : c.used = true) (hs : c.state ≠ .closed) (hused : d.used = c.used)
    (hid : d.id = c.id ∧ d.generation = c.generation)
    (hports : d.localPort = c.localPort ∧ d.remotePort = c.remotePort ∧ d.remoteIp = c.remoteIp) (hrx : d.rx = c.rx) : Tame c d :=
  .of_same hused hid hports (.inr (.inr ⟨hu, hs⟩)) (fun h => hrx ▸ h)

theorem tame_receiveEstablished (view : SegmentView) : Tame c (c.receiveEstablished view) := by
  unfold receiveEstablished
  split
  · exact .refl c
  · have hpay : Tame c (if view.payload.length ≠ 0 then (c.updateTxWindow view).acceptPayload view.seq view.payload
        else c.updateTxWindow view) := by
      split
      · exact (c.tame_updateTxWindow view).trans (tame_onlyRx (onlyRx_acceptPayload _ _ _) (ring_acceptPayload _ _ _))
      · exact c.tame_updateTxWindow view
    dsimp only
    generalize (if view.payload.length ≠ 0 then (c.updateTxWindow view).acceptPayload view.seq view.payload
      else c.updateTxWindow view) = d at *
    split
    · exact hpay.trans (.of_same rfl ⟨rfl, rfl⟩ ⟨rfl, rfl, rfl⟩ (.inr (.inl rfl)) (fun h => h))
    · exact hpay

theorem tame_receiveFinWait (view : SegmentView) : Tame c (c.receiveFinWait view) := by
  unfold receiveFinWait
  dsimp only
  refine (c.tame_updateTxWindow view).trans ?_
  generalize c.updateTxWindow view = d
  split
  · exact .given_up rfl rfl (fun h => by split <;> exact h)
  · split <;> exact .of_same rfl ⟨rfl, rfl⟩ ⟨rfl, rfl, rfl⟩ (.inr (.inl rfl)) (fun h => h)

theorem tame_receive (view : SegmentView) (hu : c.used = true) (hs : c.state ≠ .closed) : Tame c (c.receive view) := by
  unfold receive
  split
  · unfold receiveReset
    split
    · exact .refl c
    · exact .given_up rfl rfl (fun h => h)
  · split
    · exact (tame_alive (d := { c.applyPeerHandshakeOptions view with
        seq := c.seq + 1, ack := view.seq + 1, state := .established }) hu hs rfl ⟨rfl, rfl⟩ ⟨rfl, rfl, rfl⟩ rfl).trans
        (tame_updateTxWindow _ view)
    · split
      · exact (tame_alive (d := { c with seq := c.seq + 1, state := .established }) hu hs rfl ⟨rfl, rfl⟩ ⟨rfl, rfl, rfl⟩ rfl).trans
          (tame_updateTxWindow _ view)
      · split
        · exact c.tame_receiveEstablished view
        · split
          · exact c.tame_receiveFinWait view
          · exact .refl c

theorem commitSent_frame {c d : Connection} {flags : UInt16} {payload : List UInt8} {tick : UInt64}
    (h : c.commitSent flags payload tick = some d) : d.used = c.used ∧ (d.id = c.id ∧ d.generation = c.generation) ∧
      (d.localPort = c.localPort ∧ d.remotePort = c.remotePort ∧ d.remoteIp = c.remoteIp) ∧ d.rx = c.rx := by
  unfold commitSent at h
  cases hr : c.rememberSent flags payload tick with
  | none => rw [hr] at h; cases h
  | some e =>
    have he : e = { c with sent := e.sent } := by
      unfold rememberSent at hr
      split at hr
      · cases hr
        rfl
      · split at hr
        · cases hr
        · cases hr
          rfl
    rw [hr] at h
    dsimp only at h
    split at h
    · cases h
      rw [he]
      exact ⟨rfl, ⟨rfl, rfl⟩, ⟨rfl, rfl, rfl⟩, rfl⟩
    · obtain ⟨seq, window, hdata⟩ : ∃ seq window, (if payload.length ≠ 0 then
          { e with seq := e.seq + payload.length.toUInt32, txWindow := (e.txWindow.toNat - payload.length).toUInt32 }
          else e) = { e with seq := seq, txWindow := window } := by
        split
        · exact ⟨_, _, rfl⟩
        · exact ⟨e.seq, e.txWindow, rfl⟩
      rw [hdata] at h
      split at h
      · cases h
        rw [he]
        exact ⟨rfl, ⟨rfl, rfl⟩, ⟨rfl, rfl, rfl⟩, rfl⟩
      · cases h
        rw [he]
        exact ⟨rfl, ⟨rfl, rfl⟩, ⟨rfl, rfl, rfl⟩, rfl⟩

/-- One send, as `sendTcpForConnection` commits it. -/
def sends (c : Connection) (flags : UInt16) (payload : List UInt8) (tick : UInt64) : Connection :=
  if c.canTrackSend flags payload.length then (c.commitSent flags payload tick).getD c else c

theorem bare_of_closed {flags : UInt16} {payload : List UInt8} (hs : c.state = .closed)
    (hcan : c.canTrackSend flags payload.length = true) : flags = flagAck ∧ payload = [] := by
  unfold canTrackSend at hcan
  dsimp only at hcan
  rw [decide_eq_true hs, Bool.true_and] at hcan
  split at hcan
  · cases hcan
  · rename_i hack
    simp only [Bool.not_eq_true', Bool.not_eq_false, Bool.and_eq_true, decide_eq_true_eq] at hack
    exact ⟨hack.1, List.eq_nil_of_length_eq_zero hack.2⟩

theorem sends_closed (flags : UInt16) (payload : List UInt8) (tick : UInt64) (hs : c.state = .closed) :
    c.sends flags payload tick = c := by
  unfold sends
  split
  · rename_i hcan
    obtain ⟨rfl, rfl⟩ := c.bare_of_closed hs hcan
    rfl
  · rfl

theorem tame_sends (flags : UInt16) (payload : List UInt8) (tick : UInt64) (hu : c.used = true) : Tame c (c.sends flags payload tick) := by
  by_cases hs : c.state = .closed
  · rw [c.sends_closed flags payload tick hs]
    exact .refl c
  · unfold sends
    split
    case isFalse => exact .refl c
    cases hd : c.commitSent flags payload tick with
    | none => exact .refl c
    | some d =>
      obtain ⟨h1, h2, h3, h4⟩ := commitSent_frame hd
      exact .of_same h1 h2 h3 (.inr (.inr ⟨hu, hs⟩)) (fun h => h4 ▸ h)

end Connection

/-! ## The table -/

def SamePeer (c d : Connection) : Prop := c.localPort = d.localPort ∧ c.remotePort = d.remotePort ∧ c.remoteIp = d.remoteIp

namespace Table

/-- **No two connections are confused**: used ones have different ids, live ones differ in a port or in the peer. -/
structure Sane (t : Table) : Prop where
  nextId : t.nextId ≠ 0
  idle : ∀ i, (t.connections i).used = false → (t.connections i).state = .closed
  ids : ∀ i j, (t.connections i).used = true → (t.connections j).used = true →
    (t.connections i).id = (t.connections j).id → i = j
  positive : ∀ i, (t.connections i).used = true → (t.connections i).id ≠ 0
  peers : ∀ i j, (t.connections i).state ≠ .closed → (t.connections j).state ≠ .closed →
    SamePeer (t.connections i) (t.connections j) → i = j
  generations : ∀ i, (t.connections i).used = true → (t.connections i).generation = t.slotGenerations i
  rings : ∀ i, (t.connections i).rx.Ok bufferSize

theorem sane_init : Sane {} where
  nextId := by decide
  idle _ _ := rfl
  ids _ _ h := absurd h Bool.false_ne_true
  positive _ h := absurd h Bool.false_ne_true
  peers _ _ h := absurd rfl h
  generations _ h := absurd h Bool.false_ne_true
  rings _ := ⟨(by decide : 0 < bufferSize), Nat.zero_le _⟩

variable {t t' : Table} {i j : Slot}

theorem Sane.tame (h : Sane t) {cs : Slot → Connection} (ht : ∀ i, Tame (t.connections i) (cs i)) :
    Sane { t with connections := cs } where
  nextId := h.nextId
  idle i := (ht i).idle (h.idle i)
  ids i j hi hj heq := by
    obtain ⟨hi', h1, -⟩ := (ht i).used hi
    obtain ⟨hj', h2, -⟩ := (ht j).used hj
    exact h.ids i j hi' hj' (h1.symm.trans (heq.trans h2))
  positive i hi := by
    obtain ⟨hi', h1, -⟩ := (ht i).used hi
    show (cs i).id ≠ 0
    rw [h1]
    exact h.positive i hi'
  peers i j hi hj hsame := by
    obtain ⟨hi', h1, h2, h3⟩ := (ht i).live hi
    obtain ⟨hj', h4, h5, h6⟩ := (ht j).live hj
    obtain ⟨h7, h8, h9⟩ := hsame
    exact h.peers i j hi' hj' ⟨h1.symm.trans (h7.trans h4), h2.symm.trans (h8.trans h5), h3.symm.trans (h9.trans h6)⟩
  generations i hi := by
    obtain ⟨hi', -, h1⟩ := (ht i).used hi
    exact h1.trans (h.generations i hi')
  rings i := (ht i).ring (h.rings i)

theorem tame_update {c : Connection} (hc : Tame (t.connections i) c) (j : Slot) :
    Tame (t.connections j) (Function.update t.connections i c j) := by
  by_cases hj : j = i
  · subst hj
    rw [Function.update_self]
    exact hc
  · rw [Function.update_of_ne hj]
    exact .refl _

theorem Sane.set (h : Sane t) {c : Connection} (hc : Tame (t.connections i) c) : Sane (t.set i c) := h.tame (tame_update hc)

theorem byId_some {id : UInt32} (h : t.byId id = some i) : (t.connections i).used = true ∧ (t.connections i).id = id := by
  have hp := Slots.first_some h
  rw [Bool.and_eq_true, beq_iff_eq] at hp
  exact hp

/-- **In a sane table an id names its connection.** -/
theorem Sane.byId (h : Sane t) (hi : (t.connections i).used = true) : t.byId (t.connections i).id = some i := by
  cases hf : t.byId (t.connections i).id with
  | none =>
    have hno := Slots.first_none.1 hf i
    rw [hi, Bool.true_and, beq_self_eq_true] at hno
    cases hno
  | some j =>
    obtain ⟨hj, heq⟩ := byId_some hf
    rw [h.ids j i hj hi heq]

theorem Sane.onId (h : Sane t) {id : UInt32} {f : Connection → Connection} (hf : ∀ c : Connection, c.used = true → Tame c (f c)) :
    Sane (t.onId id f) := by
  unfold Table.onId
  cases hi : t.byId id with
  | none => exact h
  | some i => exact h.set (hf _ (byId_some hi).1)

theorem matchConnection_some {view : SegmentView} (h : t.matchConnection view = some i) :
    (t.connections i).used = true ∧ (t.connections i).state ≠ .closed ∧ (t.connections i).localPort = view.destPort ∧
      (t.connections i).remotePort = view.sourcePort ∧ (t.connections i).remoteIp = view.sourceIp := by
  have hp := Slots.first_some h
  unfold Connection.matchesView at hp
  simp only [Bool.and_eq_true, bne_iff_ne, beq_iff_eq] at hp
  exact ⟨hp.1.1.1.1, hp.1.1.1.2, hp.1.1.2, hp.1.2, hp.2⟩

theorem Sane.segment (h : Sane t) (view : SegmentView) : Sane (t.applyRxView view) := by
  unfold applyRxView
  cases hm : t.matchConnection view with
  | none => exact h
  | some i =>
    obtain ⟨hu, hs, -⟩ := matchConnection_some hm
    exact h.set ((t.connections i).tame_receive view hu hs)

/-! ### A new connection -/

theorem alloc_cases (t : Table) : (∃ i, t.allocConnection = (some i, t) ∧ (t.connections i).used = false) ∨
    ((∀ i, (t.connections i).used = true) ∧ t.allocConnection.2 = t.reapClosedConnectionSlots ∧
      ∀ i, t.allocConnection.1 = some i → (t.reapClosedConnectionSlots.connections i).used = false) := by
  unfold allocConnection
  cases hf : Slots.first (fun i => !(t.connections i).used) with
  | some i => exact .inl ⟨i, rfl, by simpa using Slots.first_some hf⟩
  | none =>
    refine .inr ⟨fun i => by simpa using Slots.first_none.1 hf i, rfl, fun i hi => ?_⟩
    simpa using Slots.first_some hi

theorem tame_reapClosed (t : Table) (i : Slot) : Tame (t.connections i) (t.reapClosedConnectionSlots.connections i) := by
  show Tame _ (if _ then _ else _)
  split
  · exact .refl _
  · exact Connection.tame_reset _

theorem Sane.alloc (h : Sane t) : Sane t.allocConnection.2 ∧ ∀ i, t.allocConnection.1 = some i →
    (t.allocConnection.2.connections i).used = false := by
  rcases alloc_cases t with ⟨i, he, hi⟩ | ⟨-, he, hi⟩
  · rw [he]
    exact ⟨h, fun j hj => by cases hj; exact hi⟩
  · rw [he]
    exact ⟨h.tame (tame_reapClosed t), hi⟩

/-- **A connection with a new id and a peer of its own** joins the others. -/
theorem Sane.create (h : Sane t) {fields : Connection → Connection}
    (hfields : ∀ c, (fields c).used = c.used ∧ (fields c).id = c.id ∧ (fields c).generation = c.generation ∧ (fields c).rx = c.rx)
    (hid : ∀ j, (t.connections j).used = true → (t.connections j).id ≠ t.nextId)
    (hpeer : ∀ j, j ≠ i → (t.connections j).state ≠ .closed → ∀ c, ¬ SamePeer (t.connections j) (fields c)) :
    Sane (t.create i fields) := by
  generalize hgen : t.nextSlotGeneration i = generation
  generalize hnew : fields { (t.connections i).resetConnectionSlot with used := true, id := t.nextId, generation } = new
  obtain ⟨h1, h2, h3, h4⟩ := hfields { (t.connections i).resetConnectionSlot with used := true, id := t.nextId, generation }
  rw [hnew] at h1 h2 h3 h4
  have hshape : t.create i fields =
      { t with
        connections := Function.update t.connections i new
        slotGenerations := Function.update t.slotGenerations i generation
        nextId := if t.nextId + 1 = 0 then 1 else t.nextId + 1 } := by
    unfold Table.create
    rw [← hnew, ← hgen]
    rfl
  have hpeer' : ∀ j, j ≠ i → (t.connections j).state ≠ .closed → ¬ SamePeer (t.connections j) new := fun j hj hs => by
    rw [← hnew]
    exact hpeer j hj hs _
  rw [hshape]
  refine ⟨?_, fun j hj => ?_, fun j k hj hk heq => ?_, fun j hj => ?_, fun j k hj hk hsame => ?_, fun j hj => ?_, fun j => ?_⟩
  · show (if _ then _ else _) ≠ (0 : UInt32)
    split
    · decide
    · assumption
  · show (Function.update t.connections i new j).state = _
    have hj' : (Function.update t.connections i new j).used = false := hj
    by_cases hji : j = i
    · rw [hji, Function.update_self] at hj'
      rw [hj'] at h1
      cases h1
    · rw [Function.update_of_ne hji] at hj' ⊢
      exact h.idle j hj'
  · have hj' : (Function.update t.connections i new j).used = true := hj
    have hk' : (Function.update t.connections i new k).used = true := hk
    have heq' : (Function.update t.connections i new j).id = (Function.update t.connections i new k).id := heq
    by_cases hji : j = i <;> by_cases hki : k = i
    · rw [hji, hki]
    · rw [hji, Function.update_self, Function.update_of_ne hki] at heq'
      rw [Function.update_of_ne hki] at hk'
      exact absurd (heq'.symm.trans h2) (hid k hk')
    · rw [hki, Function.update_self, Function.update_of_ne hji] at heq'
      rw [Function.update_of_ne hji] at hj'
      exact absurd (heq'.trans h2) (hid j hj')
    · rw [Function.update_of_ne hji] at hj' heq'
      rw [Function.update_of_ne hki] at hk' heq'
      exact h.ids j k hj' hk' heq'
  · show (Function.update t.connections i new j).id ≠ 0
    have hj' : (Function.update t.connections i new j).used = true := hj
    by_cases hji : j = i
    · rw [hji, Function.update_self, h2]
      exact h.nextId
    · rw [Function.update_of_ne hji] at hj' ⊢
      exact h.positive j hj'
  · have hj' : (Function.update t.connections i new j).state ≠ .closed := hj
    have hk' : (Function.update t.connections i new k).state ≠ .closed := hk
    have hsame' : SamePeer (Function.update t.connections i new j) (Function.update t.connections i new k) := hsame
    by_cases hji : j = i <;> by_cases hki : k = i
    · rw [hji, hki]
    · rw [hji, Function.update_self, Function.update_of_ne hki] at hsame'
      rw [Function.update_of_ne hki] at hk'
      obtain ⟨h5, h6, h7⟩ := hsame'
      exact absurd ⟨h5.symm, h6.symm, h7.symm⟩ (hpeer' k hki hk')
    · rw [hki, Function.update_self, Function.update_of_ne hji] at hsame'
      rw [Function.update_of_ne hji] at hj'
      exact absurd hsame' (hpeer' j hji hj')
    · rw [Function.update_of_ne hji] at hj' hsame'
      rw [Function.update_of_ne hki] at hk' hsame'
      exact h.peers j k hj' hk' hsame'
  · show (Function.update t.connections i new j).generation = Function.update t.slotGenerations i generation j
    have hj' : (Function.update t.connections i new j).used = true := hj
    by_cases hji : j = i
    · rw [hji, Function.update_self, Function.update_self, h3]
    · rw [Function.update_of_ne hji] at hj' ⊢
      rw [Function.update_of_ne hji]
      exact h.generations j hj'
  · show (Function.update t.connections i new j).rx.Ok bufferSize
    by_cases hji : j = i
    · rw [hji, Function.update_self, h4]
      exact ring_reset _ (h.rings i)
    · rw [Function.update_of_ne hji]
      exact h.rings j

/-! ### The actions -/

/-- What callers, the timer and the network do to the table. -/
inductive Action where
  | connect (remoteIp : Ip) (remotePort : UInt16) (initialSeq : UInt32)
  | accept (view : SegmentView) (initialSeq : UInt32)
  | listen (port : UInt16)
  | abort (id : UInt32)
  | close (id : UInt32)
  | requestClose (id : UInt32)
  | read (id : UInt32) (outLen : Nat)
  | send (id : UInt32) (flags : UInt16) (payload : List UInt8) (tick : UInt64)
  | reap (now : UInt64)
  | abortPort (port : UInt16)
  | segment (view : SegmentView)

def step (t : Table) : Action → Table
  | .connect remoteIp remotePort initialSeq => (t.beginLiveConnect remoteIp remotePort initialSeq).2
  | .accept view initialSeq => (t.acceptInbound view initialSeq).2
  | .listen port => (t.listen port).2
  | .abort id => t.abort id
  | .close id => t.close id
  | .requestClose id => t.requestClose id
  | .read id outLen => (t.read id outLen).2
  | .send id flags payload tick => t.send id flags payload tick
  | .reap now => t.reapTimeWait now
  | .abortPort port => t.abortConnectionsOnPort port
  | .segment view => t.applyRxView view

/-- The table in which an inbound segment gets a new connection, if it gets one. -/
def acceptsIn (t : Table) (view : SegmentView) : Option Table :=
  if !t.hasListener view.destPort then none
  else if !has view.flags flagSyn || has view.flags flagAck then none
  else
    match t.matchConnection view with
    | none => some t
    | some i =>
      if (t.connections i).state = .synReceived then none else some (t.set i (t.connections i).resetConnectionSlot)

/-- Holds unread bytes of a connection that has ended. -/
def Unread (c : Connection) : Prop := c.used = true ∧ c.state = .closed ∧ 0 < c.rx.len

/-- A new connection takes nothing from another: there is a free slot or no ended connection has unread bytes, and the next
id is not in use. -/
structure Room (t : Table) : Prop where
  unread : (∃ i, (t.connections i).used = false) ∨ ∀ i, ¬ Unread (t.connections i)
  id : ∀ i, t.allocConnection.1 = some i →
    ∀ j, (t.allocConnection.2.connections j).used = true → (t.allocConnection.2.connections j).id ≠ t.nextId

/-- **What the counters give is free**: for a connect there is room, the id fits an `i32`, and no live connection has the next
port with that peer; for an inbound connection there is room; and no read of unread bytes asks for none of them. -/
def Clear (t : Table) : Action → Prop
  | .connect remoteIp remotePort _ => Room t ∧ ∀ i, t.allocConnection.1 = some i → t.nextId.toNat < 2147483648 ∧
      ∀ j, (t.connections j).state ≠ .closed →
        ¬ ((t.connections j).localPort = t.nextPort ∧ (t.connections j).remotePort = remotePort ∧ (t.connections j).remoteIp = remoteIp)
  | .accept view _ => ∀ t', t.acceptsIn view = some t' → Room t'
  | .read id outLen => ∀ i, t.byId id = some i → Unread (t.connections i) → 0 < outLen
  | _ => True

theorem acceptInbound_eq (t : Table) (view : SegmentView) (initialSeq : UInt32) :
    (∀ t', t.acceptsIn view = some t' → t.acceptInbound view initialSeq = t'.acceptNew view initialSeq) ∧
      (t.acceptsIn view = none → (t.acceptInbound view initialSeq).2 = t ∧
        ∀ id, (t.acceptInbound view initialSeq).1 = some id → ∃ i, (t.connections i).used = true ∧ (t.connections i).id = id) := by
  unfold acceptsIn acceptInbound
  split
  · exact ⟨nofun, fun _ => ⟨rfl, nofun⟩⟩
  · split
    · exact ⟨nofun, fun _ => ⟨rfl, nofun⟩⟩
    · cases hm : t.matchConnection view with
      | none => exact ⟨fun t' ht => by cases ht; rfl, nofun⟩
      | some i =>
        dsimp only
        split
        · exact ⟨nofun, fun _ => ⟨rfl, fun id hid => ⟨i, (matchConnection_some hm).1, by cases hid; rfl⟩⟩⟩
        · exact ⟨fun t' ht => by cases ht; rfl, nofun⟩

theorem allocConnection_nextId (t : Table) : t.allocConnection.2.nextId = t.nextId ∧ t.allocConnection.2.nextPort = t.nextPort := by
  rcases alloc_cases t with ⟨i, he, -⟩ | ⟨-, he, -⟩ <;> rw [he] <;> exact ⟨rfl, rfl⟩

theorem alloc_live (hj : (t.allocConnection.2.connections j).state ≠ .closed) :
    (t.connections j).state ≠ .closed ∧ t.allocConnection.2.connections j = t.connections j := by
  rcases alloc_cases t with ⟨i, he, -⟩ | ⟨-, he, -⟩
  · rw [he] at hj ⊢
    exact ⟨hj, rfl⟩
  · rw [he] at hj ⊢
    have hkeep : t.reapClosedConnectionSlots.connections j =
        if !(t.connections j).used || (t.connections j).state != .closed then t.connections j
        else (t.connections j).resetConnectionSlot := rfl
    rw [hkeep] at hj ⊢
    split
    · rename_i hk
      rw [if_pos hk] at hj
      exact ⟨hj, rfl⟩
    · rename_i hk
      rw [if_neg hk] at hj
      exact absurd rfl hj

/-- **A connect keeps the table sane.** -/
theorem Sane.connect (h : Sane t) {ip : Ip} {port : UInt16} {seq : UInt32} (hc : Clear t (.connect ip port seq)) :
    Sane (t.beginLiveConnect ip port seq).2 := by
  obtain ⟨hroom, hclear⟩ := hc
  obtain ⟨hsane, hfree⟩ := h.alloc
  have hlive : ∀ j, (t.allocConnection.2.connections j).state ≠ .closed → _ := fun j hj => alloc_live hj
  obtain ⟨hnext, hport⟩ := allocConnection_nextId t
  obtain ⟨hunread, hid⟩ := hroom
  unfold beginLiveConnect
  generalize t.allocConnection = allocated at *
  obtain ⟨slot, t'⟩ := allocated
  cases slot with
  | none => exact hsane
  | some i =>
    dsimp only at *
    have hcreated : Sane (t'.create i (fun c => { c with
        state := .synSent, localPort := t'.nextPort, remotePort := port, remoteIp := ip, seq := seq, windowScaleOffered := true })) := by
      refine hsane.create (fun c => ⟨rfl, rfl, rfl, rfl⟩) (fun j hj => ?_) (fun j _ hs c hsame => ?_)
      · rw [hnext]
        exact hid i rfl j hj
      · obtain ⟨hs', hsame'⟩ := hlive j hs
        rw [hsame', hport] at hsame
        exact (hclear i rfl).2 j hs' hsame
    exact ⟨hcreated.nextId, hcreated.idle, hcreated.ids, hcreated.positive, hcreated.peers, hcreated.generations, hcreated.rings⟩

theorem Sane.acceptNew (h : Sane t) (hroom : Room t) {view : SegmentView} (hnone : t.matchConnection view = none) (seq : UInt32) :
    Sane (t.acceptNew view seq).2 := by
  obtain ⟨hsane, hfree⟩ := h.alloc
  have hlive : ∀ j, (t.allocConnection.2.connections j).state ≠ .closed → _ := fun j hj => alloc_live hj
  obtain ⟨hnext, -⟩ := allocConnection_nextId t
  obtain ⟨-, hid⟩ := hroom
  have hpeer : ∀ j, (t.connections j).state ≠ .closed → ¬ ((t.connections j).localPort = view.destPort ∧
      (t.connections j).remotePort = view.sourcePort ∧ (t.connections j).remoteIp = view.sourceIp) := by
    rintro j hs ⟨h1, h2, h3⟩
    have hno := Slots.first_none.1 hnone j
    have hu : (t.connections j).used = true := by
      by_contra hu
      exact hs (h.idle j (eq_false_of_ne_true hu))
    unfold Connection.matchesView at hno
    rw [hu, h1, h2, h3] at hno
    simp [hs] at hno
  unfold Table.acceptNew
  generalize t.allocConnection = allocated at *
  obtain ⟨slot, t'⟩ := allocated
  cases slot with
  | none => exact hsane
  | some i =>
    dsimp only at *
    refine hsane.create (fun c => ⟨rfl, rfl, rfl, rfl⟩) (fun j hj => ?_) (fun j _ hs c hsame => ?_)
    · rw [hnext]
      exact hid i rfl j hj
    · obtain ⟨hs', hsame'⟩ := hlive j hs
      rw [hsame'] at hsame
      exact hpeer j hs' hsame

theorem Sane.replaced (h : Sane t) {view : SegmentView} (hm : t.matchConnection view = some i) :
    (t.set i (t.connections i).resetConnectionSlot).matchConnection view = none := by
  obtain ⟨hu, hs, h1, h2, h3⟩ := matchConnection_some hm
  refine Slots.first_none.2 (fun j => ?_)
  show (Function.update t.connections i _ j).matchesView view = false
  by_cases hj : j = i
  · rw [hj, Function.update_self]
    rfl
  · rw [Function.update_of_ne hj]
    by_contra hmatch
    rw [Bool.not_eq_false] at hmatch
    unfold Connection.matchesView at hmatch
    simp only [Bool.and_eq_true, bne_iff_ne, beq_iff_eq] at hmatch
    obtain ⟨⟨⟨⟨_, hs'⟩, h4⟩, h5⟩, h6⟩ := hmatch
    exact hj (h.peers j i hs' hs ⟨h4.trans h1.symm, h5.trans h2.symm, h6.trans h3.symm⟩)

theorem Sane.acceptsIn (h : Sane t) {view : SegmentView} (ha : t.acceptsIn view = some t') :
    Sane t' ∧ t'.matchConnection view = none := by
  unfold Table.acceptsIn at ha
  split at ha
  · cases ha
  · split at ha
    · cases ha
    · split at ha
      · rename_i hnone
        cases ha
        exact ⟨h, hnone⟩
      · rename_i i hm
        split at ha
        · cases ha
        · cases ha
          exact ⟨h.set (Connection.tame_reset _), h.replaced hm⟩

/-- **Every action keeps the table sane**, when what the counters give is free. -/
theorem Sane.step (h : Sane t) {a : Action} (hc : Clear t a) : Sane (t.step a) := by
  cases a with
  | connect ip port seq => exact h.connect hc
  | accept view seq =>
    obtain ⟨hnew, hold⟩ := acceptInbound_eq t view seq
    show Sane (t.acceptInbound view seq).2
    cases ha : t.acceptsIn view with
    | none =>
      rw [(hold ha).1]
      exact h
    | some t' =>
      obtain ⟨hsane, hnone⟩ := h.acceptsIn ha
      rw [hnew t' ha]
      exact hsane.acceptNew (hc t' ha) hnone seq
  | listen port =>
    show Sane (t.listen port).2
    unfold Table.listen
    split
    · exact h
    · split
      · exact h
      · split
        · exact h
        · exact ⟨h.nextId, h.idle, h.ids, h.positive, h.peers, h.generations, h.rings⟩
  | abort id => exact h.onId (fun c _ => c.tame_abort)
  | close id => exact h.onId (fun c _ => c.tame_close)
  | requestClose id => exact h.onId (fun c _ => c.tame_requestClose)
  | read id outLen =>
    show Sane (t.read id outLen).2
    unfold Table.read
    split
    · exact h
    · exact h.set (Connection.tame_read _ _)
  | send id flags payload tick => exact h.onId (f := fun c => c.sends flags payload tick) (fun c hu => c.tame_sends flags payload tick hu)
  | reap now => exact h.tame (fun i => Connection.tame_reap _ now)
  | abortPort port =>
    refine h.tame (fun i => ?_)
    dsimp only
    split
    · exact .refl _
    · exact Connection.tame_reset _
  | segment view => exact h.segment view

/-! ### What an action leaves alone -/

/-- The action is the owner's, on this slot. -/
def Owner (t : Table) (i : Slot) : Action → Prop
  | .abort id => t.byId id = some i
  | .close id => t.byId id = some i
  | .read id _ => t.byId id = some i
  | .abortPort port => (t.connections i).localPort = port
  | _ => False

theorem set_other {c : Connection} (h : i ≠ j) : (t.set j c).connections i = t.connections i := Function.update_of_ne h ..

theorem onId_other {id : UInt32} {f : Connection → Connection}
    (h : t.byId id ≠ some i ∨ f (t.connections i) = t.connections i) : (t.onId id f).connections i = t.connections i := by
  unfold onId
  cases hj : t.byId id with
  | none => rfl
  | some j =>
    by_cases hij : i = j
    · subst hij
      rcases h with h | h
      · exact absurd hj h
      · exact (Function.update_self ..).trans h
    · exact set_other hij

theorem Room.alloc (h : Room t) (hi : Unread (t.connections i)) :
    ∃ j, t.allocConnection = (some j, t) ∧ i ≠ j := by
  rcases alloc_cases t with ⟨j, he, hj⟩ | ⟨hall, -⟩
  · refine ⟨j, he, fun hij => ?_⟩
    rw [← hij, hi.1] at hj
    cases hj
  · exfalso
    rcases h.unread with ⟨j, hj⟩ | hno
    · rw [hall j] at hj
      cases hj
    · exact hno i hi

/-- **Unread bytes of an ended connection stay** until the owner acts. -/
theorem unread_kept {a : Action} (hc : Clear t a) (hi : Unread (t.connections i)) (ho : ¬ Owner t i a) :
    (t.step a).connections i = t.connections i := by
  have hnot : ∀ j, (t.connections j).state ≠ .closed → i ≠ j := fun j hs hij => hs (hij ▸ hi.2.1)
  cases a with
  | connect ip port seq =>
    obtain ⟨j, he, hij⟩ := hc.1.alloc hi
    show (t.beginLiveConnect ip port seq).2.connections i = _
    unfold Table.beginLiveConnect
    rw [he]
    show Function.update t.connections j _ i = _
    exact Function.update_of_ne hij ..
  | accept view seq =>
    obtain ⟨hnew, hold⟩ := acceptInbound_eq t view seq
    show (t.acceptInbound view seq).2.connections i = _
    cases ha : t.acceptsIn view with
    | none => rw [(hold ha).1]
    | some t' =>
      have hsame : t'.connections i = t.connections i := by
        unfold Table.acceptsIn at ha
        split at ha
        · cases ha
        · split at ha
          · cases ha
          · split at ha
            · cases ha
              rfl
            · rename_i k hm
              split at ha
              · cases ha
              · cases ha
                exact set_other (hnot k (matchConnection_some hm).2.1)
      obtain ⟨j, he, hij⟩ := (hc t' ha).alloc (i := i) (by rw [hsame]; exact hi)
      rw [hnew t' ha, ← hsame]
      unfold Table.acceptNew
      rw [he]
      show Function.update t'.connections j _ i = _
      exact Function.update_of_ne hij ..
  | listen port =>
    show (t.listen port).2.connections i = _
    unfold Table.listen
    split
    · rfl
    · split
      · rfl
      · split <;> rfl
  | abort id => exact onId_other (.inl ho)
  | close id => exact onId_other (.inl ho)
  | requestClose id =>
    refine onId_other (.inr ?_)
    unfold Connection.requestClose
    rw [hi.2.1]
  | read id outLen =>
    show (t.read id outLen).2.connections i = _
    unfold Table.read
    split
    · rfl
    · rename_i j hj
      refine set_other (fun hij => ho ?_)
      rw [hij]
      exact hj
  | send id flags payload tick =>
    exact onId_other (f := fun c => c.sends flags payload tick) (.inr ((t.connections i).sends_closed flags payload tick hi.2.1))
  | reap now =>
    show (t.connections i).reap now = _
    unfold Connection.reap
    rw [if_neg (by rw [hi.1]; simp), if_neg (by have := hi.2.2; simp; omega), if_pos (by simp [hi.2.1])]
  | abortPort port =>
    show (if _ then _ else _) = _
    have hport : (t.connections i).localPort ≠ port := ho
    rw [if_pos (by simp [hport])]
  | segment view =>
    show (t.applyRxView view).connections i = _
    unfold Table.applyRxView
    cases hm : t.matchConnection view with
    | none => rfl
    | some j => exact set_other (hnot j (matchConnection_some hm).2.1)

theorem nextSlotGeneration_ne (t : Table) (i : Slot) : t.nextSlotGeneration i ≠ t.slotGenerations i := by
  unfold nextSlotGeneration
  intro heq
  split at heq
  · rename_i hzero
    rw [← heq] at hzero
    exact absurd hzero (by decide)
  · have h := congrArg (· - t.slotGenerations i) heq
    simp at h

theorem alloc_slot (t : Table) (i : Slot) : Tame (t.connections i) (t.allocConnection.2.connections i) ∧
    t.allocConnection.2.slotGenerations = t.slotGenerations := by
  rcases alloc_cases t with ⟨j, he, -⟩ | ⟨-, he, -⟩ <;> rw [he]
  · exact ⟨.refl _, rfl⟩
  · exact ⟨tame_reapClosed t i, rfl⟩

theorem create_slot {fields : Connection → Connection} (hfields : ∀ c, (fields c).generation = c.generation) (i : Slot) :
    Tame (t.connections i) ((t.create j fields).connections i) ∨
      ((t.create j fields).connections i).generation ≠ t.slotGenerations i := by
  show Tame _ (Function.update t.connections j _ i) ∨ (Function.update t.connections j _ i).generation ≠ _
  by_cases hij : i = j
  · rw [hij, Function.update_self]
    refine .inr ?_
    rw [hfields]
    exact t.nextSlotGeneration_ne j
  · rw [Function.update_of_ne hij]
    exact .inl (.refl _)

theorem acceptNew_slot (t : Table) (view : SegmentView) (seq : UInt32) (i : Slot) :
    Tame (t.connections i) ((t.acceptNew view seq).2.connections i) ∨
      ((t.acceptNew view seq).2.connections i).generation ≠ t.slotGenerations i := by
  obtain ⟨htame, hgen⟩ := alloc_slot t i
  unfold Table.acceptNew
  generalize t.allocConnection = allocated at *
  obtain ⟨slot, t'⟩ := allocated
  cases slot with
  | none => exact .inl htame
  | some j =>
    dsimp only at *
    rw [← hgen]
    refine (create_slot (fun c => ?_) i).imp_left htame.trans
    rfl

/-- **A slot keeps its connection, gives it up, or gets a new one with a new generation.** -/
theorem slot_cases (t : Table) (a : Action) (i : Slot) : Tame (t.connections i) ((t.step a).connections i) ∨
    ((t.step a).connections i).generation ≠ t.slotGenerations i := by
  have hon : ∀ (id : UInt32) (f : Connection → Connection), (∀ c : Connection, c.used = true → Tame c (f c)) →
      Tame (t.connections i) ((t.onId id f).connections i) := by
    intro id f hf
    unfold Table.onId
    cases hj : t.byId id with
    | none => exact .refl _
    | some j => exact tame_update (hf _ (byId_some hj).1) i
  cases a with
  | connect ip port seq =>
    obtain ⟨htame, hgen⟩ := alloc_slot t i
    show Tame _ ((t.beginLiveConnect ip port seq).2.connections i) ∨ ((t.beginLiveConnect ip port seq).2.connections i).generation ≠ _
    unfold Table.beginLiveConnect
    generalize t.allocConnection = allocated at *
    obtain ⟨slot, t'⟩ := allocated
    cases slot with
    | none => exact .inl htame
    | some j =>
      dsimp only at *
      rw [← hgen]
      refine (create_slot (fun c => ?_) i).imp_left htame.trans
      rfl
  | accept view seq =>
    obtain ⟨hnew, hold⟩ := acceptInbound_eq t view seq
    show Tame _ ((t.acceptInbound view seq).2.connections i) ∨ ((t.acceptInbound view seq).2.connections i).generation ≠ _
    cases ha : t.acceptsIn view with
    | none =>
      rw [(hold ha).1]
      exact .inl (.refl _)
    | some t' =>
      have htame : Tame (t.connections i) (t'.connections i) ∧ t'.slotGenerations = t.slotGenerations := by
        unfold Table.acceptsIn at ha
        split at ha
        · cases ha
        · split at ha
          · cases ha
          · split at ha
            · cases ha
              exact ⟨.refl _, rfl⟩
            · split at ha
              · cases ha
              · cases ha
                exact ⟨tame_update (Connection.tame_reset _) i, rfl⟩
      rw [hnew t' ha, ← htame.2]
      exact (acceptNew_slot t' view seq i).imp_left htame.1.trans
  | listen port =>
    left
    show Tame _ ((t.listen port).2.connections i)
    unfold Table.listen
    split
    · exact .refl _
    · split
      · exact .refl _
      · split <;> exact .refl _
  | abort id => exact .inl (hon id _ (fun c _ => c.tame_abort))
  | close id => exact .inl (hon id _ (fun c _ => c.tame_close))
  | requestClose id => exact .inl (hon id _ (fun c _ => c.tame_requestClose))
  | read id outLen =>
    left
    show Tame _ ((t.read id outLen).2.connections i)
    unfold Table.read
    split
    · exact .refl _
    · exact tame_update (Connection.tame_read _ _) i
  | send id flags payload tick => exact .inl (hon id _ (fun c hu => c.tame_sends flags payload tick hu))
  | reap now => exact .inl (Connection.tame_reap _ now)
  | abortPort port =>
    left
    show Tame _ (if _ then _ else _)
    split
    · exact .refl _
    · exact Connection.tame_reset _
  | segment view =>
    left
    show Tame _ ((t.applyRxView view).connections i)
    unfold Table.applyRxView
    cases hm : t.matchConnection view with
    | none => exact .refl _
    | some j =>
      obtain ⟨hu, hs, -⟩ := matchConnection_some hm
      exact tame_update ((t.connections j).tame_receive view hu hs) i

theorem accept_contents {c : Connection} (h : c.rx.Ok bufferSize) (seq : UInt32) (payload : List UInt8) :
    (c.acceptInOrderPayload seq payload).rx.contents bufferSize =
      c.rx.contents bufferSize ++ payload.take (min payload.length c.rxFree) := by
  refine Ring.contents_push h ?_
  have hle := h.len_le
  rw [List.length_take]
  unfold Connection.rxFree
  omega

theorem flush_appends : ∀ (fuel : Nat) (c : Connection), c.rx.Ok bufferSize →
    ∃ more, (Connection.flushSlots fuel c).rx.contents bufferSize = c.rx.contents bufferSize ++ more
  | 0, c, _ => ⟨[], (List.append_nil _).symm⟩
  | fuel + 1, c, h => by
    unfold Connection.flushSlots
    split
    · exact ⟨[], (List.append_nil _).symm⟩
    · dsimp only
      split
      · exact flush_appends fuel _ h
      · split
        · exact ⟨[], (List.append_nil _).symm⟩
        · obtain ⟨more, hmore⟩ := flush_appends fuel _ (Connection.ring_accept (c.setSlot _ {}) c.ack _ h)
          rw [accept_contents (c := c.setSlot _ {}) h, List.append_assoc] at hmore
          exact ⟨_, hmore⟩

/-- **A read of unread bytes** returns the first of them and keeps the others. -/
theorem read_unread {c : Connection} (h : c.rx.Ok bufferSize) (hc : Unread c) {outLen : Nat} (hlen : 0 < outLen) :
    ∃ got rest more, (c.read outLen).1 = some got ∧ (c.read outLen).2.used = true ∧ c.rx.contents bufferSize = got ++ rest ∧
      (c.read outLen).2.rx.contents bufferSize = rest ++ more := by
  obtain ⟨hused, -, hpos⟩ := hc
  unfold Connection.read
  generalize hl : (if outLen < c.rx.len then outLen else c.rx.len) = len
  have hle : len ≤ c.rx.len ∧ len ≠ 0 := by
    split at hl <;> omega
  dsimp only
  rw [if_pos hle.2]
  have hok := Ring.pop_ok h hle.1
  have hrx : ∃ rx : Ring UInt8, (if (c.rx.pop bufferSize len).2.len = 0 then { (c.rx.pop bufferSize len).2 with head := 0 }
      else (c.rx.pop bufferSize len).2) = rx ∧ rx.Ok bufferSize ∧ rx.contents bufferSize = (c.rx.contents bufferSize).drop len := by
    refine ⟨_, rfl, ?_⟩
    rw [← Ring.contents_pop h hle.1]
    split
    · rename_i hzero
      refine ⟨⟨Nat.lt_of_le_of_lt (Nat.zero_le _) hok.head_lt, hok.len_le⟩, ?_⟩
      rw [List.eq_nil_of_length_eq_zero ((Ring.length_contents _ _).trans hzero)]
      exact List.eq_nil_of_length_eq_zero ((Ring.length_contents _ _).trans hzero)
    · exact ⟨hok, rfl⟩
  obtain ⟨rx, he, hrxok, hcontents⟩ := hrx
  rw [he]
  obtain ⟨more, hmore⟩ := flush_appends outOfOrderSlotCount { c with rx } hrxok
  refine ⟨_, (c.rx.contents bufferSize).drop len, more, rfl, ?_, ?_, ?_⟩
  · exact (Connection.onlyRx_flush outOfOrderSlotCount { c with rx }).used.trans hused
  · rw [Ring.pop_fst h hle.1, List.take_append_drop]
  · show (Connection.flushSlots outOfOrderSlotCount { c with rx }).rx.contents bufferSize = _
    rw [hmore, ← hcontents]

/-- What holds of an action in a state of a run: an id that is returned is positive and names a connection with the peer it was
made for, a connection keeps its id and its id keeps naming it, and unread bytes stay. -/
structure Kept (t : Table) (a : Action) : Prop where
  connected : ∀ ip port seq, a = .connect ip port seq → (t.beginLiveConnect ip port seq).1 = some (-1) ∨
    ∃ id i, (t.beginLiveConnect ip port seq).1 = some (Int.ofNat id.toNat) ∧ 0 < id ∧ (t.step a).byId id = some i ∧
      ((t.step a).connections i).remotePort = port ∧ ((t.step a).connections i).remoteIp = ip
  accepted : ∀ view seq id, a = .accept view seq → (t.acceptInbound view seq).1 = some id →
    0 < id ∧ ∃ i, (t.step a).byId id = some i
  named : ∀ i, (t.connections i).used = true → ((t.step a).connections i).used = true →
    ((t.step a).connections i).generation = (t.connections i).generation →
    ((t.step a).connections i).id = (t.connections i).id ∧ (t.step a).byId (t.connections i).id = some i
  unread : ∀ i, Unread (t.connections i) → ¬ Owner t i a → (t.step a).connections i = t.connections i
  read : ∀ id outLen i, a = .read id outLen → t.byId id = some i → Unread (t.connections i) →
    ∃ got rest more, (t.read id outLen).1 = some got ∧ ((t.step a).connections i).used = true ∧
      (t.connections i).rx.contents bufferSize = got ++ rest ∧
      ((t.step a).connections i).rx.contents bufferSize = rest ++ more

theorem pos_of_ne_zero {id : UInt32} (h : id ≠ 0) : 0 < id := by
  rw [UInt32.lt_iff_toNat_lt]
  have hne : id.toNat ≠ 0 := fun h0 => h (UInt32.toNat_inj.1 h0)
  exact Nat.pos_of_ne_zero hne

theorem Sane.kept (h : Sane t) {a : Action} (hc : Clear t a) : Kept t a where
  connected := by
    rintro ip port seq rfl
    have hsane := h.step hc
    obtain ⟨hnext, -⟩ := allocConnection_nextId t
    obtain ⟨-, hclear⟩ := hc
    unfold Table.step Table.beginLiveConnect at hsane ⊢
    generalize t.allocConnection = allocated at *
    obtain ⟨slot, t'⟩ := allocated
    cases slot with
    | none => exact .inl rfl
    | some i =>
      dsimp only at *
      have hnew : ∀ fields : Connection → Connection, (t'.create i fields).connections i = fields
          { (t'.connections i).resetConnectionSlot with used := true, id := t'.nextId, generation := t'.nextSlotGeneration i } :=
        fun _ => Function.update_self ..
      have hbyId := hsane.byId (i := i) (by dsimp only; rw [hnew])
      dsimp only at hbyId
      rw [hnew] at hbyId
      refine .inr ⟨t.nextId, i, ?_, pos_of_ne_zero h.nextId, ?_, ?_, ?_⟩
      · rw [hnext, intCast, if_pos (hclear i rfl).1]
        rfl
      · rw [← hnext]
        exact hbyId
      · rw [hnew]
      · rw [hnew]
  accepted := by
    rintro view seq id rfl hid
    have hsane := h.step hc
    have hnamed : ∀ i, ((t.step (.accept view seq)).connections i).used = true → ((t.step (.accept view seq)).connections i).id = id →
        0 < id ∧ ∃ i, (t.step (.accept view seq)).byId id = some i := by
      rintro i hu rfl
      exact ⟨pos_of_ne_zero (hsane.positive i hu), i, hsane.byId hu⟩
    obtain ⟨hnew, hold⟩ := acceptInbound_eq t view seq
    cases ha : t.acceptsIn view with
    | none =>
      obtain ⟨i, hu, hi⟩ := (hold ha).2 id hid
      have hsame : t.step (.accept view seq) = t := (hold ha).1
      exact hnamed i (by rw [hsame]; exact hu) (by rw [hsame]; exact hi)
    | some t' =>
      have hstep : t.step (.accept view seq) = (t'.acceptNew view seq).2 := congrArg Prod.snd (hnew t' ha)
      rw [hnew t' ha] at hid
      obtain ⟨i, hu, hi⟩ : ∃ i, ((t'.acceptNew view seq).2.connections i).used = true ∧
          ((t'.acceptNew view seq).2.connections i).id = id := by
        obtain ⟨hnext, -⟩ := allocConnection_nextId t'
        unfold Table.acceptNew at hid ⊢
        generalize t'.allocConnection = allocated at *
        obtain ⟨slot, t''⟩ := allocated
        cases slot with
        | none => cases hid
        | some i =>
          cases hid
          refine ⟨i, ?_, ?_⟩
          · show (Function.update t''.connections i _ i).used = true
            rw [Function.update_self]
          · show (Function.update t''.connections i _ i).id = t''.nextId
            rw [Function.update_self]
      exact hnamed i (by rw [hstep]; exact hu) (by rw [hstep]; exact hi)
  named := by
    intro i hu hu' hgen
    have hid : ((t.step a).connections i).id = (t.connections i).id := by
      rcases slot_cases t a i with htame | hne
      · exact (htame.used hu').2.1
      · exact absurd (hgen.trans (h.generations i hu)) hne
    refine ⟨hid, ?_⟩
    rw [← hid]
    exact (h.step hc).byId hu'
  unread _ hi ho := unread_kept hc hi ho
  read := by
    rintro id outLen i rfl hi hunread
    obtain ⟨got, rest, more, h1, h2, h3, h4⟩ := read_unread (h.rings i) hunread (hc i hi hunread)
    have hread : (t.read id outLen).1 = ((t.connections i).read outLen).1 ∧
        (t.read id outLen).2.connections i = ((t.connections i).read outLen).2 := by
      unfold Table.read
      rw [hi]
      exact ⟨rfl, Function.update_self ..⟩
    refine ⟨got, rest, more, hread.1.trans h1, ?_, h3, ?_⟩
    · show ((t.read id outLen).2.connections i).used = true
      rw [hread.2]
      exact h2
    · show ((t.read id outLen).2.connections i).rx.contents bufferSize = _
      rw [hread.2]
      exact h4

/-- **Connections are never confused**, in every run in which what the counters give is free. -/
theorem connections_kept (actions : List Action) (h : Along step Clear {} actions) :
    Sane (Runs.run step {} actions) ∧ ∀ as a bs, actions = as ++ a :: bs → Kept (Runs.run step {} as) a := by
  have hsane : ∀ as : List Action, Along step Clear {} as → Sane (Runs.run step {} as) := fun as ha =>
    Runs.invariant (I := Sane) (fun _ _ hs hc => hs.step hc) as sane_init ha
  refine ⟨hsane actions h, ?_⟩
  rintro as a bs rfl
  obtain ⟨has, hrest⟩ := (Runs.along_append as (a :: bs) _).1 h
  exact (hsane as has).kept hrest.1

def peer : Ip := Vector.replicate 4 0

def dial : Action := .connect peer 80 0

/-- A segment from the peer to the first connection. -/
def fromPeer (flags : UInt16) (seq : UInt32) (payload : List UInt8) : Action :=
  .segment { sourceIp := peer, sourcePort := 80, destPort := 49152, seq, ack := 1, flags, window := 1000, payload }

theorem maxConnections_pos : 0 < maxConnections := Nat.zero_lt_succ 15

def firstSlot : Slot := ⟨0, maxConnections_pos⟩

theorem connections_kept_one : Sane (Runs.run step {} [dial, fromPeer (flagSyn ||| flagAck) 0 [], fromPeer (flagAck ||| flagFin) 1 [65]]) ∧
    ∀ as a bs, [dial, fromPeer (flagSyn ||| flagAck) 0 [], fromPeer (flagAck ||| flagFin) 1 [65]] = as ++ a :: bs →
      Kept (Runs.run step {} as) a := by
  have hfree : ∀ j, ¬ (({} : Table).connections j).used = true := fun _ h => absurd h Bool.false_ne_true
  have halloc : ({} : Table).allocConnection = (some firstSlot, {}) := rfl
  refine connections_kept _ ⟨⟨⟨.inl ⟨firstSlot, rfl⟩, fun i _ j hj => ?_⟩, fun i _ => ⟨by decide, fun j hj => absurd rfl hj⟩⟩,
    trivial, trivial, trivial⟩
  rw [halloc] at hj
  exact absurd hj (hfree j)

/-- Sixteen connections, of which the first has received a byte and the peer's FIN. -/
def farewell : List Action :=
  List.replicate 16 dial ++ [fromPeer (flagSyn ||| flagAck) 0 [], fromPeer (flagAck ||| flagFin) 1 [65]]

/-- **A connect into the full table takes the unread byte.** -/
theorem connections_kept_full : ¬ ∀ actions : List Action, Sane (Runs.run step {} actions) ∧
    ∀ as a bs, actions = as ++ a :: bs → Kept (Runs.run step {} as) a := by
  intro hall
  have hkept := (hall (farewell ++ [dial])).2 farewell dial [] rfl
  have hunread : Unread ((Runs.run step {} farewell).connections firstSlot) := ⟨rfl, rfl, by show 0 < 1; decide⟩
  have hsame := congrArg (fun c => c.rx.len) (hkept.unread firstSlot hunread id)
  have hgone : ((Table.step (Runs.run step {} farewell) dial).connections firstSlot).rx.len = 0 := rfl
  exact absurd hunread.2.2 (by rw [← hsame, hgone]; decide)

end Table
end Tcp
end R4
