import R4Recovery.Runs
import R4Recovery.Tcp
/-!
# TcpStream — what a connection delivers of the peer's byte stream

The receive side tracks an offset of the stream behind its acknowledgement number, and every out-of-order slot holds a
piece of the stream.  A slot whose bytes arrived in order meanwhile stays valid; it does no harm for 2^32 bytes.
-/
namespace R4
namespace Tcp

open Sequence (num)
open Runs (Along along_append)

/-! ## Pieces of a stream -/

section Pieces

variable {α : Type} {l x : List α} {k n : Nat}

theorem take_append_prefix (h : x <+: l.drop k) : l.take k ++ x = l.take (k + x.length) := by
  rw [List.take_add, ← List.prefix_iff_eq_take.1 h]

theorem prefix_drop_length (h : x <+: l.drop k) (hx : 0 < x.length) : k + x.length ≤ l.length := by
  have hle := h.length_le
  rw [List.length_drop] at hle
  omega

theorem prefix_drop (h : x <+: l.drop k) (n : Nat) : x.drop n <+: l.drop (k + n) := by
  have hd := h.drop n
  rwa [List.drop_drop] at hd

end Pieces

namespace Connection

/-- Only the receive buffer, its slots and the acknowledgement number differ. -/
def OnlyRx (c d : Connection) : Prop := d = { c with rx := d.rx, ack := d.ack, outOfOrder := d.outOfOrder }

theorem OnlyRx.refl (c : Connection) : OnlyRx c c := rfl

theorem OnlyRx.trans {a b c : Connection} (h1 : OnlyRx a b) (h2 : OnlyRx b c) : OnlyRx a c := by
  unfold OnlyRx at *
  rw [h2, h1]

theorem OnlyRx.state {c d : Connection} (h : OnlyRx c d) : d.state = c.state := by rw [h]

theorem OnlyRx.used {c d : Connection} (h : OnlyRx c d) : d.used = c.used := by rw [h]

theorem onlyRx_accept (c : Connection) (seq : UInt32) (payload : List UInt8) : OnlyRx c (c.acceptInOrderPayload seq payload) := rfl

theorem onlyRx_setSlot (c : Connection) (i : Fin outOfOrderSlotCount) (slot : OutOfOrderSegment) : OnlyRx c (c.setSlot i slot) := rfl

theorem onlyRx_flush : ∀ (fuel : Nat) (c : Connection), OnlyRx c (flushSlots fuel c)
  | 0, c => .refl c
  | fuel + 1, c => by
    unfold flushSlots
    split
    · exact .refl c
    · dsimp only
      split
      · exact (onlyRx_setSlot c _ _).trans (onlyRx_flush fuel _)
      · split
        · exact .refl c
        · exact ((onlyRx_setSlot c _ _).trans (onlyRx_accept _ _ _)).trans (onlyRx_flush fuel _)

theorem onlyRx_store (c : Connection) (seq : UInt32) (payload : List UInt8) : OnlyRx c (c.storeOutOfOrderPayload seq payload) := by
  unfold storeOutOfOrderPayload
  split
  · exact .refl c
  · split
    · exact .refl c
    · split
      · dsimp only
        split
        · exact onlyRx_setSlot c _ _
        · exact .refl c
      · split
        · exact .refl c
        · exact onlyRx_setSlot c _ _

theorem onlyRx_acceptPayload (c : Connection) (seq : UInt32) (payload : List UInt8) : OnlyRx c (c.acceptPayload seq payload) := by
  unfold acceptPayload
  split
  · exact .refl c
  · split
    · exact (onlyRx_accept c _ _).trans (onlyRx_flush _ _)
    · split
      · exact onlyRx_store c _ _
      · dsimp only
        split
        · exact (onlyRx_accept c _ _).trans (onlyRx_flush _ _)
        · exact .refl c

end Connection

/-! ## What the receive side tracks -/

/-- The slot holds the piece of the stream at `offset`. -/
structure Held (base : Nat) (stream : List UInt8) (offset : Nat) (slot : OutOfOrderSegment) : Prop where
  seq : slot.seq = num (base + offset)
  piece : slot.payload <+: stream.drop offset
  nonempty : 0 < slot.payload.length
  small : slot.payload.length ≤ outOfOrderSlotSize

/-- The acknowledgement number stands for the offset `k`; every valid slot `i` holds the piece at `held i`, which was near
when it came and is less than 2^32 behind. -/
structure Tracks (base : Nat) (stream : List UInt8) (k : Nat) (held : Fin outOfOrderSlotCount → Nat) (c : Connection) : Prop where
  ack : c.ack = num (base + k)
  ring : c.rx.Ok bufferSize
  slots : ∀ i, (c.outOfOrder i).valid = true → Held base stream (held i) (c.outOfOrder i)
  ahead : ∀ i, (c.outOfOrder i).valid = true → held i < k + 2147483648
  recent : ∀ i, (c.outOfOrder i).valid = true → k < held i + 4294967296
  apart : ∀ i j, (c.outOfOrder i).valid = true → (c.outOfOrder j).valid = true →
    held j + (c.outOfOrder j).payload.length < held i + 4294967296

variable {base k p : Nat} {stream done payload : List UInt8} {held : Fin outOfOrderSlotCount → Nat} {c : Connection}
  {i : Fin outOfOrderSlotCount}

theorem length_toUInt32 {n : Nat} (q : Nat) : num q + n.toUInt32 = num (q + n) := (Sequence.num_add q n).symm

theorem Held.slotEnd {offset : Nat} {slot : OutOfOrderSegment} (h : Held base stream offset slot) :
    Connection.slotEnd slot = num (base + (offset + slot.payload.length)) := by
  unfold Connection.slotEnd
  rw [h.seq, length_toUInt32, Nat.add_assoc]

theorem Held.end_le {offset : Nat} {slot : OutOfOrderSegment} (h : Held base stream offset slot) :
    offset + slot.payload.length ≤ stream.length := prefix_drop_length h.piece h.nonempty

/-- **A flushable slot reaches over the position**, and does not begin behind it. -/
theorem Tracks.reaches (h : Tracks base stream k held c) (hf : c.flushable (c.outOfOrder i) = true) :
    (c.outOfOrder i).valid = true ∧ held i ≤ k ∧ k < held i + (c.outOfOrder i).payload.length := by
  unfold Connection.flushable at hf
  rw [Bool.and_eq_true] at hf
  obtain ⟨hv, hf⟩ := hf
  have hs := h.slots i hv
  have hahead := h.ahead i hv
  have hrecent := h.recent i hv
  have hsmall := hs.small
  have hpos := hs.nonempty
  unfold outOfOrderSlotSize at hsmall
  refine ⟨hv, ?_⟩
  rw [hs.slotEnd, hs.seq, h.ack] at hf
  simp only [Bool.or_eq_true, decide_eq_true_eq, Bool.and_eq_true, Bool.not_eq_true', seqAfter] at hf
  rcases hf with heq | ⟨hstart, hend⟩
  · have := Sequence.num_inj heq (by omega) (by omega)
    omega
  · -- a slot more than 2^31 behind begins after the position, by its number
    rcases Nat.lt_or_ge (held i + 2147483648) k with hfar | hnear
    · rw [Sequence.after_num_far (by omega) (by omega)] at hstart
      cases hstart
    · rw [Sequence.after_num (by omega) (by omega), decide_eq_false_iff_not] at hstart
      rw [Sequence.after_num (by omega) (by omega), decide_eq_true_eq] at hend
      omega

theorem Tracks.clear (h : Tracks base stream k held c) (i : Fin outOfOrderSlotCount) : Tracks base stream k held (c.setSlot i {}) := by
  have hne : ∀ j, ((c.setSlot i {}).outOfOrder j).valid = true → (c.setSlot i {}).outOfOrder j = c.outOfOrder j := by
    intro j hj
    by_cases hji : j = i
    · subst hji
      simp [Connection.setSlot] at hj
    · exact Function.update_of_ne hji ..
  refine ⟨h.ack, h.ring, fun j hj => ?_, fun j hj => ?_, fun j hj => ?_, fun j l hj hl => ?_⟩
  · have he := hne j hj
    rw [he] at hj ⊢
    exact h.slots j hj
  · rw [hne j hj] at hj
    exact h.ahead j hj
  · rw [hne j hj] at hj
    exact h.recent j hj
  · have he := hne l hl
    rw [hne j hj] at hj
    rw [he] at hl ⊢
    exact h.apart j l hj hl

theorem Tracks.accept (h : Tracks base stream k held c) (hb : done ++ c.rx.contents bufferSize = stream.take k)
    (hp : payload <+: stream.drop k) (hclear : ∀ i, (c.outOfOrder i).valid = true → k + payload.length < held i + 4294967296) :
    ∃ n ≤ payload.length, (payload.length ≤ c.rxFree → n = payload.length) ∧
      Tracks base stream (k + n) held (c.acceptInOrderPayload c.ack payload) ∧
      done ++ (c.acceptInOrderPayload c.ack payload).rx.contents bufferSize = stream.take (k + n) := by
  have hlen : (payload.take (min payload.length c.rxFree)).length = min payload.length c.rxFree := by
    rw [List.length_take]
    omega
  have hroom : c.rx.len + (payload.take (min payload.length c.rxFree)).length ≤ bufferSize := by
    have := h.ring.len_le
    rw [hlen]
    unfold Connection.rxFree
    omega
  refine ⟨min payload.length c.rxFree, Nat.min_le_left _ _, fun hr => Nat.min_eq_left hr, ⟨?_, ?_, h.slots, ?_, ?_, h.apart⟩, ?_⟩
  · show c.ack + _ = _
    rw [h.ack, length_toUInt32, Nat.add_assoc]
  · exact Ring.push_ok h.ring hroom
  · intro i hi
    have := h.ahead i hi
    omega
  · intro i hi
    have := hclear i hi
    omega
  · show done ++ (c.rx.push bufferSize _).contents bufferSize = _
    rw [Ring.contents_push h.ring hroom, ← List.append_assoc, hb, take_append_prefix ((List.take_prefix _ _).trans hp), hlen]

/-- **The flush only appends what is next in the stream.** -/
theorem Tracks.flush : ∀ (fuel : Nat) {k : Nat} {c : Connection}, Tracks base stream k held c →
    done ++ c.rx.contents bufferSize = stream.take k → ∀ {b : Nat}, k ≤ b →
    (∀ i, (c.outOfOrder i).valid = true → held i + (c.outOfOrder i).payload.length ≤ b) →
    ∃ n, k ≤ n ∧ (n = k ∨ n ≤ stream.length) ∧ n ≤ b ∧ Tracks base stream n held (Connection.flushSlots fuel c) ∧
      done ++ (Connection.flushSlots fuel c).rx.contents bufferSize = stream.take n ∧
      ∀ i, (Connection.flushSlots fuel c).outOfOrder i = c.outOfOrder i ∨
        ((Connection.flushSlots fuel c).outOfOrder i).valid = false
  | 0, k, c, h, hb, b, hkb, _ => ⟨k, Nat.le_refl k, .inl rfl, hkb, h, hb, fun _ => .inl rfl⟩
  | fuel + 1, k, c, h, hb, b, hkb, hall => by
    unfold Connection.flushSlots
    cases hfind : c.findFlushableOutOfOrder with
    | none => exact ⟨k, Nat.le_refl k, .inl rfl, hkb, h, hb, fun _ => .inl rfl⟩
    | some i =>
      obtain ⟨hv, hle, hlt⟩ := h.reaches (Slots.best_some hfind)
      have hs := h.slots i hv
      have hoff : (c.ack - (c.outOfOrder i).seq).toNat = k - held i := by
        rw [hs.seq, h.ack, Sequence.sub_of_le (by omega) (by have := h.recent i hv; omega)]
        omega
      dsimp only
      rw [hoff, if_neg (by omega)]
      split
      · exact ⟨k, Nat.le_refl k, .inl rfl, hkb, h, hb, fun _ => .inl rfl⟩
      · rename_i hroom
        have hpiece : (c.outOfOrder i).payload.drop (k - held i) <+: stream.drop k := by
          have := prefix_drop hs.piece (k - held i)
          rwa [show held i + (k - held i) = k by omega] at this
        have hlen : ((c.outOfOrder i).payload.drop (k - held i)).length = held i + (c.outOfOrder i).payload.length - k := by
          rw [List.length_drop]
          omega
        have hback : ∀ j, ((c.setSlot i {}).outOfOrder j).valid = true →
            (c.setSlot i {}).outOfOrder j = c.outOfOrder j ∧ (c.outOfOrder j).valid = true := by
          intro j hj
          by_cases hji : j = i
          · subst hji
            simp [Connection.setSlot] at hj
          · have he : (c.setSlot i {}).outOfOrder j = c.outOfOrder j := Function.update_of_ne hji ..
            rw [he] at hj
            exact ⟨he, hj⟩
        obtain ⟨n, hn, hfull, htracks, hbytes⟩ := (h.clear i).accept hb hpiece (fun j hj => by
          have := h.apart j i (hback j hj).2 hv
          omega)
        have hn : n = held i + (c.outOfOrder i).payload.length - k := by
          rw [← hlen]
          exact hfull (by rw [List.length_drop]; exact Nat.not_lt.1 hroom)
        have hend : k + n = held i + (c.outOfOrder i).payload.length := by omega
        have hendle := hs.end_le
        obtain ⟨m, hm1, hm2, hm3, hm4, hm5, hm6⟩ := Tracks.flush fuel htracks hbytes (b := b) (by have := hall i hv; omega)
          (fun j hj => by
            obtain ⟨he, hvj⟩ := hback j hj
            show _ + ((c.setSlot i {}).outOfOrder j).payload.length ≤ b
            rw [he]
            exact hall j hvj)
        refine ⟨m, by omega, .inr (by omega), hm3, hm4, hm5, fun j => ?_⟩
        rcases hm6 j with hj | hj
        · by_cases hji : j = i
          · subst hji
            exact .inr ((congrArg OutOfOrderSegment.valid hj).trans (by simp [Connection.setSlot, Connection.acceptInOrderPayload]))
          · exact .inl (hj.trans (Function.update_of_ne hji ..))
        · exact .inr hj

/-! ## A segment comes in -/

theorem covers_length {slot : OutOfOrderSegment} {seq : UInt32} {len : Nat} (h : Connection.covers slot seq len = true)
    (hs : slot.payload.length ≤ outOfOrderSlotSize) (hl : len ≤ outOfOrderSlotSize) : len ≤ slot.payload.length := by
  unfold outOfOrderSlotSize at *
  obtain ⟨a, ha⟩ : ∃ a, slot.seq = num a := ⟨_, (Sequence.num_toNat _).symm⟩
  obtain ⟨b, hb⟩ : ∃ b, seq = num b := ⟨_, (Sequence.num_toNat _).symm⟩
  simp only [Connection.covers, Connection.slotEnd, seqAfter, Sequence.after, ha, hb, length_toUInt32, Bool.and_eq_true,
    Bool.or_eq_true, decide_eq_true_eq, Bool.not_eq_true', Bool.and_eq_false_iff, decide_eq_false_iff_not,
    Sequence.toNat_sub, ← UInt32.toNat_inj, Sequence.toNat_num] at h
  omega

theorem store_slots (hs : ∀ i, (c.outOfOrder i).valid = true → (c.outOfOrder i).payload.length ≤ outOfOrderSlotSize) (seq : UInt32) :
    (c.storeOutOfOrderPayload seq payload).rx = c.rx ∧ (c.storeOutOfOrderPayload seq payload).ack = c.ack ∧
      (c.storeOutOfOrderPayload seq payload = c ∨ payload.length ≤ outOfOrderSlotSize ∧
        ∃ i, c.storeOutOfOrderPayload seq payload = c.setSlot i { valid := true, seq, payload }) := by
  unfold Connection.storeOutOfOrderPayload
  split
  · exact ⟨rfl, rfl, .inl rfl⟩
  · rename_i hsize
    split
    · exact ⟨rfl, rfl, .inl rfl⟩
    · split
      · rename_i i hi
        have hfirst := Slots.first_some hi
        rw [Bool.and_eq_true] at hfirst
        have hlen := covers_length hfirst.2 (hs i hfirst.1) (Nat.not_lt.1 hsize)
        dsimp only
        rw [if_neg (by omega)]
        exact ⟨rfl, rfl, .inl rfl⟩
      · split
        · exact ⟨rfl, rfl, .inl rfl⟩
        · rename_i i _
          exact ⟨rfl, rfl, .inr ⟨Nat.not_lt.1 hsize, i, rfl⟩⟩

/-- Where each slot's piece is, after a segment cut at `p` came in. -/
def heldAfter (c d : Connection) (held : Fin outOfOrderSlotCount → Nat) (p : Nat) (i : Fin outOfOrderSlotCount) : Nat :=
  if d.outOfOrder i = c.outOfOrder i then held i else p

theorem Tracks.store (h : Tracks base stream k held c) (hp : payload <+: stream.drop p) (hpos : 0 < payload.length)
    (h1 : k ≤ p) (h2 : p < k + 2147483648)
    (hclear : ∀ i, (c.outOfOrder i).valid = true → p + payload.length < held i + 4294967296) :
    Tracks base stream k (heldAfter c (c.storeOutOfOrderPayload (num (base + p)) payload) held p)
      (c.storeOutOfOrderPayload (num (base + p)) payload) ∧
      (c.storeOutOfOrderPayload (num (base + p)) payload).rx = c.rx := by
  obtain ⟨hrx, hack, hcases⟩ := @store_slots payload c (fun i hi => (h.slots i hi).small) (num (base + p))
  refine ⟨?_, hrx⟩
  rcases hcases with he | ⟨hsmall, i, he⟩
  · have hheld : heldAfter c (c.storeOutOfOrderPayload (num (base + p)) payload) held p = held :=
      funext fun j => if_pos (by rw [he])
    rw [hheld, he]
    exact h
  · rw [he]
    have hself : (c.setSlot i { valid := true, seq := num (base + p), payload }).outOfOrder i =
        { valid := true, seq := num (base + p), payload } := Function.update_self ..
    have hother : ∀ j, j ≠ i → (c.setSlot i { valid := true, seq := num (base + p), payload }).outOfOrder j = c.outOfOrder j :=
      fun j hj => Function.update_of_ne hj ..
    -- every slot either is the old one, with its old place, or holds the new piece
    have hslot : ∀ j, ((c.setSlot i { valid := true, seq := num (base + p), payload }).outOfOrder j).valid = true →
        ((c.outOfOrder j).valid = true ∧
          (c.setSlot i { valid := true, seq := num (base + p), payload }).outOfOrder j = c.outOfOrder j ∧
          heldAfter c (c.setSlot i { valid := true, seq := num (base + p), payload }) held p j = held j) ∨
        ((c.setSlot i { valid := true, seq := num (base + p), payload }).outOfOrder j =
            { valid := true, seq := num (base + p), payload } ∧
          heldAfter c (c.setSlot i { valid := true, seq := num (base + p), payload }) held p j = p) := by
      intro j hj
      by_cases hsame : (c.setSlot i { valid := true, seq := num (base + p), payload }).outOfOrder j = c.outOfOrder j
      · rw [hsame] at hj
        exact .inl ⟨hj, hsame, if_pos hsame⟩
      · have hji : j = i := by
          by_contra hji
          exact hsame (hother j hji)
        subst hji
        exact .inr ⟨hself, if_neg hsame⟩
    refine ⟨h.ack, h.ring, fun j hj => ?_, fun j hj => ?_, fun j hj => ?_, fun j l hj hl => ?_⟩
    · rcases hslot j hj with ⟨hv, hs, hh⟩ | ⟨hs, hh⟩
      · rw [hs, hh]
        exact h.slots j hv
      · rw [hs, hh]
        exact ⟨rfl, hp, hpos, hsmall⟩
    · rcases hslot j hj with ⟨hv, -, hh⟩ | ⟨-, hh⟩
      · rw [hh]
        exact h.ahead j hv
      · rw [hh]
        exact h2
    · rcases hslot j hj with ⟨hv, -, hh⟩ | ⟨-, hh⟩
      · rw [hh]
        exact h.recent j hv
      · rw [hh]
        omega
    · unfold outOfOrderSlotSize at hsmall
      rcases hslot j hj with ⟨hvj, -, hhj⟩ | ⟨-, hhj⟩ <;> rcases hslot l hl with ⟨hvl, hsl, hhl⟩ | ⟨hsl, hhl⟩
      · rw [hhj, hhl, hsl]
        exact h.apart j l hvj hvl
      · rw [hhj, hhl, hsl]
        exact hclear j hvj
      · rw [hhj, hhl, hsl]
        have hahead := h.ahead l hvl
        have hs := (h.slots l hvl).small
        unfold outOfOrderSlotSize at hs
        omega
      · rw [hhj, hhl, hsl]
        show p + payload.length < p + 4294967296
        omega

theorem Tracks.of_held {held' : Fin outOfOrderSlotCount → Nat} (h : Tracks base stream k held c)
    (he : ∀ i, (c.outOfOrder i).valid = true → held' i = held i) : Tracks base stream k held' c where
  ack := h.ack
  ring := h.ring
  slots := fun i hi => by rw [he i hi]; exact h.slots i hi
  ahead := fun i hi => by rw [he i hi]; exact h.ahead i hi
  recent := fun i hi => by rw [he i hi]; exact h.recent i hi
  apart := fun i j hi hj => by rw [he i hi, he j hj]; exact h.apart i j hi hj

theorem Tracks.acceptFlush (h : Tracks base stream k held c) (hb : done ++ c.rx.contents bufferSize = stream.take k)
    (hk : k ≤ stream.length) (hp : payload <+: stream.drop k) (hl : payload.length < 2147483648)
    (hclear : ∀ i, (c.outOfOrder i).valid = true → k + payload.length < held i + 4294967296) (p : Nat) :
    ∃ n, k ≤ n ∧ n ≤ stream.length ∧ n < k + 2147487744 ∧
      Tracks base stream n (heldAfter c (c.acceptInOrderPayload c.ack payload).flushOutOfOrderPayload held p)
        (c.acceptInOrderPayload c.ack payload).flushOutOfOrderPayload ∧
      done ++ (c.acceptInOrderPayload c.ack payload).flushOutOfOrderPayload.rx.contents bufferSize = stream.take n ∧
      ∀ i, ((c.acceptInOrderPayload c.ack payload).flushOutOfOrderPayload.outOfOrder i).valid = true →
        (c.acceptInOrderPayload c.ack payload).flushOutOfOrderPayload.outOfOrder i = c.outOfOrder i := by
  obtain ⟨n, hn, -, htracks, hbytes⟩ := h.accept hb hp hclear
  have hle := hp.length_le
  rw [List.length_drop] at hle
  obtain ⟨m, h1, h2, h3, h4, h5, h6⟩ := Tracks.flush outOfOrderSlotCount htracks hbytes (b := k + 2147487743) (by omega)
    (fun i hi => by
      have hahead := h.ahead i hi
      have hsmall := (h.slots i hi).small
      unfold outOfOrderSlotSize at hsmall
      show held i + (c.outOfOrder i).payload.length ≤ _
      omega)
  have hslots : ∀ i, ((c.acceptInOrderPayload c.ack payload).flushOutOfOrderPayload.outOfOrder i).valid = true →
      (c.acceptInOrderPayload c.ack payload).flushOutOfOrderPayload.outOfOrder i = c.outOfOrder i := by
    intro i hi
    rcases h6 i with hi' | hi'
    · exact hi'
    · exact absurd (hi'.symm.trans hi) Bool.false_ne_true
  exact ⟨m, by omega, by omega, by omega, h4.of_held (fun i hi => if_pos (hslots i hi)), h5, hslots⟩

/-- **A segment's payload is taken at its place in the stream**, if it lies within 2^31 of the position and less than 2^32
past every piece that is held. -/
theorem Tracks.acceptPayload (h : Tracks base stream k held c) (hb : done ++ c.rx.contents bufferSize = stream.take k)
    (hk : k ≤ stream.length) (hp : payload <+: stream.drop p) (hpos : 0 < payload.length) (h1 : k ≤ p + 2147483648)
    (h2 : p + payload.length < k + 2147483648)
    (hclear : ∀ i, (c.outOfOrder i).valid = true → p + payload.length < held i + 4294967296) :
    ∃ n, k ≤ n ∧ n ≤ stream.length ∧ n < k + 2147487744 ∧
      Tracks base stream n (heldAfter c (c.acceptPayload (num (base + p)) payload) held p)
        (c.acceptPayload (num (base + p)) payload) ∧
      done ++ (c.acceptPayload (num (base + p)) payload).rx.contents bufferSize = stream.take n ∧
      ((∀ i, ((c.acceptPayload (num (base + p)) payload).outOfOrder i).valid = true →
        (c.acceptPayload (num (base + p)) payload).outOfOrder i = c.outOfOrder i) ∨ (k < p ∧ n = k)) := by
  unfold Connection.acceptPayload
  rw [if_neg (by omega)]
  by_cases heq : num (base + p) = c.ack
  · obtain rfl : p = k := by
      have := Sequence.num_inj (heq.trans h.ack) (by omega) (by omega)
      omega
    rw [if_pos heq, heq]
    obtain ⟨n, h3, h4, h5, h6, h7, h8⟩ := h.acceptFlush hb hk hp (by omega) hclear p
    exact ⟨n, h3, h4, h5, h6, h7, .inl h8⟩
  · rw [if_neg heq]
    have hafter : seqAfter (num (base + p)) c.ack = decide (k < p) := by
      rw [h.ack, seqAfter, Sequence.after_num (by omega) (by omega)]
      simp only [Nat.add_lt_add_iff_left]
    rw [hafter]
    by_cases hlt : k < p
    · rw [if_pos (decide_eq_true hlt)]
      obtain ⟨htracks, hrx⟩ := h.store hp hpos (by omega) (by omega) hclear
      refine ⟨k, Nat.le_refl k, hk, by omega, htracks, ?_, .inr ⟨hlt, rfl⟩⟩
      rw [hrx]
      exact hb
    · have hover : (c.ack - num (base + p)).toNat = k - p := by
        rw [h.ack, Sequence.sub_of_le (by omega) (by omega)]
        omega
      rw [if_neg (by simpa using hlt)]
      dsimp only
      rw [hover]
      split
      · rename_i hin
        have hpiece := prefix_drop hp (k - p)
        rw [show p + (k - p) = k by omega] at hpiece
        have hlen : (payload.drop (k - p)).length = payload.length - (k - p) := List.length_drop
        obtain ⟨n, h3, h4, h5, h6, h7, h8⟩ := h.acceptFlush hb hk hpiece (by omega)
          (fun i hi => by have := hclear i hi; omega) p
        exact ⟨n, h3, h4, h5, h6, h7, .inl h8⟩
      · exact ⟨k, Nat.le_refl k, hk, by omega, h.of_held (fun i _ => if_pos rfl), hb, .inl (fun _ _ => rfl)⟩

/-! ## A connection and its reader -/

/-- What the table does with a segment for this connection. -/
def Connection.offer (c : Connection) (view : SegmentView) : Connection := if c.matchesView view then c.receive view else c

/-- A connection, the bytes `read` has returned, and where each slot's piece was cut. -/
structure Receiver where
  conn : Connection
  out : List UInt8 := []
  held : Fin outOfOrderSlotCount → Nat := fun _ => 0

/-- A segment, cut from the peer's stream at `offset`, or a read of at most `outLen` bytes. -/
inductive Event where
  | segment (view : SegmentView) (offset : Nat)
  | read (outLen : Nat)

namespace Receiver

def step (r : Receiver) : Event → Receiver
  | .segment view offset =>
    { r with conn := r.conn.offer view, held := heldAfter r.conn (r.conn.offer view) r.held offset }
  | .read outLen =>
    if r.conn.used then { r with conn := (r.conn.read outLen).2, out := r.out ++ (r.conn.read outLen).1.getD [] } else r

def run (r : Receiver) (events : List Event) : Receiver := Runs.run step r events

/-- The bytes accepted so far. -/
def accepted (r : Receiver) : Nat := r.out.length + r.conn.rx.len

end Receiver

/-- A segment of the peer's stream: its payload stands there at `offset`, and a FIN stands at the end. -/
structure Cut (base : Nat) (stream : List UInt8) (view : SegmentView) (offset : Nat) : Prop where
  seq : view.seq = num (base + offset)
  piece : view.payload <+: stream.drop offset
  reset : has view.flags flagRst = false
  fin : has view.flags flagFin = true → offset + view.payload.length = stream.length

/-- What the peer may send: segments of the stream within 2^31 of the receiver's position. -/
def Receiver.Sent (base : Nat) (stream : List UInt8) (r : Receiver) : Event → Prop
  | .segment view offset => Cut base stream view offset ∧ r.accepted ≤ offset + 2147483648 ∧
      offset + view.payload.length < r.accepted + 2147483648
  | .read _ => True

/-- **No slot still holds a piece 2^32 bytes behind**: the segment, its FIN counted, ends less than 2^32 past the start of
every piece in a valid slot. -/
def Receiver.Recent (r : Receiver) : Event → Prop
  | .segment view offset => ∀ i, (r.conn.outOfOrder i).valid = true →
      offset + view.payload.length + (has view.flags flagFin).toNat < r.held i + 4294967296
  | .read _ => True

/-- An established connection before the first byte: nothing is queued and no slot is in use. -/
structure Opened (c : Connection) : Prop where
  used : c.used = true
  state : c.state = .established
  head : c.rx.head < bufferSize
  len : c.rx.len = 0
  slots : ∀ i, (c.outOfOrder i).valid = false

/-- What holds of a receiver in every state of a run. -/
structure Receiver.Sound (base : Nat) (stream : List UInt8) (r : Receiver) : Prop where
  bytes : r.out ++ r.conn.rx.contents bufferSize = stream.take r.accepted
  inside : r.accepted ≤ stream.length
  tracks : Tracks base stream (r.accepted + if r.conn.state = .established then 0 else 1) r.held r.conn
  ended : r.conn.state ≠ .established → r.conn.state = .closed ∧ r.accepted = stream.length

theorem updateTxWindow_onlyTx (c : Connection) (view : SegmentView) : (c.updateTxWindow view).rx = c.rx ∧
    (c.updateTxWindow view).ack = c.ack ∧ (c.updateTxWindow view).outOfOrder = c.outOfOrder ∧
    (c.updateTxWindow view).state = c.state := by
  unfold Connection.updateTxWindow
  dsimp only
  split <;> exact ⟨rfl, rfl, rfl, rfl⟩

theorem Tracks.same {d : Connection} (h : Tracks base stream k held c) (h1 : d.rx = c.rx) (h2 : d.ack = c.ack)
    (h3 : d.outOfOrder = c.outOfOrder) : Tracks base stream k held d := by
  obtain ⟨a1, a2, a3, a4, a5, a6⟩ := h
  refine ⟨h2 ▸ a1, h1 ▸ a2, ?_, ?_, ?_, ?_⟩ <;> rw [h3] <;> assumption

theorem acceptable_near {view : SegmentView} (h : c.segmentSeqAcceptable view = true) (hack : c.ack = num (base + k))
    (hseq : view.seq = num (base + p)) (h1 : k ≤ p + 2147483648) (h2 : p + view.payload.length < k + 2147483648) :
    k ≤ p + view.payload.length := by
  unfold Connection.segmentSeqAcceptable at h
  dsimp only at h
  rw [hseq, hack, length_toUInt32, Bool.or_eq_true, Bool.or_eq_true] at h
  rcases h with (h | h) | h
  · have := Sequence.num_inj (of_decide_eq_true h) (by omega) (by omega)
    omega
  · rw [Bool.and_eq_true] at h
    have hend := h.2
    rw [seqAfter, Sequence.after_num (by omega) (by omega), decide_eq_true_eq] at hend
    omega
  · rcases Nat.lt_or_ge p k with hlt | hge
    · have hd := of_decide_eq_true h
      rw [UInt32.lt_iff_toNat_lt, Sequence.sub_of_lt (by omega) (by omega), Nat.toUInt32, UInt32.toNat_ofNat'] at hd
      unfold Connection.rxFree bufferSize at hd
      omega
    · omega

variable {r : Receiver}

theorem Receiver.sound_of {d : Connection} {out : List UInt8} {n : Nat} (ht : Tracks base stream n held d)
    (hb : out ++ d.rx.contents bufferSize = stream.take n)
    (h : (d.state = .established ∧ n ≤ stream.length) ∨ (d.state = .closed ∧ n = stream.length + 1)) :
    Receiver.Sound base stream { conn := d, out, held } := by
  have hacc : Receiver.accepted { conn := d, out, held } = min n stream.length := by
    have hl := congrArg List.length hb
    rwa [List.length_append, Ring.length_contents, List.length_take] at hl
  rcases h with ⟨hs, hn⟩ | ⟨hs, rfl⟩
  · have hacc := hacc.trans (Nat.min_eq_left hn)
    refine ⟨by rw [hacc]; exact hb, by rw [hacc]; exact hn, ?_, fun hne => absurd hs hne⟩
    rw [hacc, if_pos hs]
    exact ht
  · have hacc := hacc.trans (Nat.min_eq_right (Nat.le_succ _))
    refine ⟨?_, by rw [hacc], ?_, fun _ => ⟨hs, hacc⟩⟩
    · rw [hacc, List.take_of_length_le (Nat.le_refl _)]
      rwa [List.take_of_length_le (Nat.le_succ _)] at hb
    · rw [hacc, if_neg (by rw [hs]; exact nofun)]
      exact ht

/-- **A segment keeps the receiver sound.** -/
theorem Receiver.Sound.segment (h : r.Sound base stream) {view : SegmentView} {p : Nat}
    (hs : r.Sent base stream (.segment view p)) (hr : r.Recent (.segment view p)) : (r.step (.segment view p)).Sound base stream := by
  obtain ⟨hcut, hnear1, hnear2⟩ := hs
  have hstep : r.step (.segment view p) =
      { r with conn := r.conn.offer view, held := heldAfter r.conn (r.conn.offer view) r.held p } := rfl
  -- a segment that changes nothing
  have hsame : r.conn.offer view = r.conn → (r.step (.segment view p)).Sound base stream := by
    intro he
    have hheld : heldAfter r.conn (r.conn.offer view) r.held p = r.held := funext fun i => if_pos (by rw [he])
    rw [hstep, hheld, he]
    exact h
  by_cases hm : r.conn.matchesView view = true
  case neg => exact hsame (if_neg hm)
  -- a matched connection is not closed, so it is established
  have hstate : r.conn.state = .established := by
    by_contra hne
    have hclosed := (h.ended hne).1
    simp [Connection.matchesView, hclosed] at hm
  have hoffer : r.conn.offer view = r.conn.receiveEstablished view := by
    unfold Connection.offer Connection.receive
    rw [if_pos hm, hcut.reset, if_neg (by simp), if_neg (by simp [hstate]), if_neg (by simp [hstate]), if_pos hstate]
  have htracks := h.tracks
  rw [if_pos hstate, Nat.add_zero] at htracks
  unfold Connection.receiveEstablished at hoffer
  split at hoffer
  · exact hsame hoffer
  rename_i hok
  obtain ⟨hrx, hack, hooo, hst⟩ := updateTxWindow_onlyTx r.conn view
  have htracks' := htracks.same hrx hack hooo
  have hbytes : r.out ++ (r.conn.updateTxWindow view).rx.contents bufferSize = stream.take r.accepted := by
    rw [hrx]
    exact h.bytes
  have hrecent : ∀ i, ((r.conn.updateTxWindow view).outOfOrder i).valid = true →
      p + view.payload.length + (has view.flags flagFin).toNat < r.held i + 4294967296 := by
    rw [hooo]
    exact hr
  -- the payload
  have hpay : ∃ n d, (if view.payload.length ≠ 0 then (r.conn.updateTxWindow view).acceptPayload view.seq view.payload
        else r.conn.updateTxWindow view) = d ∧ r.accepted ≤ n ∧ n ≤ stream.length ∧ n < r.accepted + 2147487744 ∧
      Tracks base stream n (heldAfter (r.conn.updateTxWindow view) d r.held p) d ∧
      r.out ++ d.rx.contents bufferSize = stream.take n ∧
      ((∀ i, (d.outOfOrder i).valid = true → d.outOfOrder i = (r.conn.updateTxWindow view).outOfOrder i) ∨
        (r.accepted < p ∧ n = r.accepted)) ∧ Connection.OnlyRx (r.conn.updateTxWindow view) d := by
    by_cases hlen : view.payload.length = 0
    · rw [if_neg (by omega)]
      exact ⟨r.accepted, _, rfl, Nat.le_refl _, h.inside, by omega, htracks'.of_held (fun i _ => if_pos rfl), hbytes,
        .inl (fun _ _ => rfl), .refl _⟩
    · rw [if_pos hlen, hcut.seq]
      obtain ⟨n, h1, h2, h3, h4, h5, h6⟩ := htracks'.acceptPayload hbytes h.inside hcut.piece (by omega) hnear1 hnear2
        (fun i hi => by have := hrecent i hi; omega)
      exact ⟨n, _, rfl, h1, h2, h3, h4, h5, h6, Connection.onlyRx_acceptPayload _ _ _⟩
  obtain ⟨n, d, hd, hn1, hn2, hn3, hn4, hn5, hn6, honly⟩ := hpay
  dsimp only at hoffer
  rw [hd] at hoffer
  have hheld : ∀ e : Connection, e.outOfOrder = d.outOfOrder →
      heldAfter r.conn e r.held p = heldAfter (r.conn.updateTxWindow view) d r.held p := by
    intro e he
    unfold heldAfter
    rw [he, hooo]
  have hdstate : d.state = .established := by rw [honly.state, hst, hstate]
  rw [hstep]
  split at hoffer
  · -- the FIN, with everything before it
    rename_i hfin
    rw [Bool.and_eq_true, decide_eq_true_eq] at hfin
    have hspan : n = p + view.payload.length := by
      have hkp : r.accepted ≤ p + view.payload.length := by
        refine acceptable_near ?_ htracks.ack hcut.seq hnear1 hnear2
        by_contra hacc
        rw [Bool.not_eq_true] at hacc
        simp [hfin.1, hacc] at hok
      have heq := hfin.2
      rw [hcut.seq, length_toUInt32, hn4.ack] at heq
      have := Sequence.num_inj heq (by omega) (by omega)
      omega
    have hend : n = stream.length := hspan.trans (hcut.fin hfin.1)
    rw [hheld _ (by rw [hoffer]), hoffer]
    refine Receiver.sound_of (n := n + 1) ⟨?_, hn4.ring, hn4.slots, fun i hi => ?_, fun i hi => ?_, hn4.apart⟩ ?_
      (.inr ⟨rfl, by rw [hend]⟩)
    · show d.ack + 1 = _
      rw [hn4.ack, ← Nat.add_assoc, Sequence.num_succ]
    · have := hn4.ahead i hi
      omega
    · -- a piece that is still held was there before, and the FIN ends less than 2^32 past it
      rcases hn6 with hold | ⟨hlt, hk⟩
      · have hi' : (d.outOfOrder i).valid = true := hi
        have hr' := hrecent i (by rw [← hold i hi']; exact hi')
        rw [hfin.1, Bool.toNat_true] at hr'
        rw [heldAfter, if_pos (hold i hi')]
        omega
      · omega
    · rw [hend, List.take_of_length_le (Nat.le_succ _)]
      rwa [hend, List.take_of_length_le (Nat.le_refl _)] at hn5
  · rw [hheld _ (by rw [hoffer]), hoffer]
    exact Receiver.sound_of hn4 hn5 (.inl ⟨hdstate, hn2⟩)

theorem Tracks.readFlush (h : Tracks base stream k held c) (hb : done ++ c.rx.contents bufferSize = stream.take k) {rx : Ring UInt8}
    (hok : rx.Ok bufferSize) {got : List UInt8} (hrx : got ++ rx.contents bufferSize = c.rx.contents bufferSize) :
    ∃ n, k ≤ n ∧ (n = k ∨ n ≤ stream.length) ∧
      Tracks base stream n held (Connection.flushOutOfOrderPayload { c with rx }) ∧
      (done ++ got) ++ (Connection.flushOutOfOrderPayload { c with rx }).rx.contents bufferSize = stream.take n := by
  have htracks : Tracks base stream k held { c with rx } := ⟨h.ack, hok, h.slots, h.ahead, h.recent, h.apart⟩
  have hbytes : (done ++ got) ++ rx.contents bufferSize = stream.take k := by
    rw [List.append_assoc, hrx, hb]
  obtain ⟨n, h1, h2, -, h4, h5, -⟩ := Tracks.flush outOfOrderSlotCount htracks hbytes (b := k + 2147487743) (by omega)
    (fun i hi => by
      have hahead := h.ahead i hi
      have hsmall := (h.slots i hi).small
      unfold outOfOrderSlotSize at hsmall
      show held i + (c.outOfOrder i).payload.length ≤ _
      omega)
  exact ⟨n, h1, h2, h4, h5⟩

/-- **A read keeps the receiver sound.** -/
theorem Receiver.Sound.read (h : r.Sound base stream) (outLen : Nat) : (r.step (.read outLen)).Sound base stream := by
  obtain ⟨hbytes, hin, htracks, hended⟩ := h
  show Sound base stream (if r.conn.used then _ else r)
  split
  case isFalse => exact ⟨hbytes, hin, htracks, hended⟩
  unfold Connection.read
  generalize hlen : (if outLen < r.conn.rx.len then outLen else r.conn.rx.len) = len
  have hle : len ≤ r.conn.rx.len := by
    split at hlen <;> omega
  dsimp only
  split
  · -- some bytes, and the slots that fit now
    have hok := Ring.pop_ok htracks.ring hle
    have hcontents := Ring.contents_pop htracks.ring hle
    have hgot := Ring.pop_fst htracks.ring hle
    have hpop : ∀ rx : Ring UInt8,
        rx = (if (r.conn.rx.pop bufferSize len).2.len = 0 then { (r.conn.rx.pop bufferSize len).2 with head := 0 }
          else (r.conn.rx.pop bufferSize len).2) →
        rx.Ok bufferSize ∧ (r.conn.rx.pop bufferSize len).1 ++ rx.contents bufferSize = r.conn.rx.contents bufferSize := by
      intro rx hrx
      split at hrx
      · rename_i hzero
        have hnil : rx.contents bufferSize = (r.conn.rx.pop bufferSize len).2.contents bufferSize := by
          rw [List.eq_nil_of_length_eq_zero ((Ring.length_contents _ _).trans hzero)]
          exact List.eq_nil_of_length_eq_zero (by rw [Ring.length_contents, hrx, hzero])
        refine ⟨⟨by rw [hrx]; exact Nat.lt_of_le_of_lt (Nat.zero_le _) hok.head_lt, by rw [hrx]; exact hok.len_le⟩, ?_⟩
        rw [hnil, hgot, hcontents, List.take_append_drop]
      · rw [hrx]
        exact ⟨hok, by rw [hgot, hcontents, List.take_append_drop]⟩
    generalize hrx : (if (r.conn.rx.pop bufferSize len).2.len = 0 then { (r.conn.rx.pop bufferSize len).2 with head := 0 }
      else (r.conn.rx.pop bufferSize len).2) = rx
    obtain ⟨hrok, hrbytes⟩ := hpop rx hrx.symm
    -- behind the FIN the position is one past the stream
    have hbytes' : r.out ++ r.conn.rx.contents bufferSize =
        stream.take (r.accepted + if r.conn.state = .established then 0 else 1) := by
      split
      · exact hbytes
      · rename_i hne
        rw [hbytes, (hended hne).2, List.take_of_length_le (Nat.le_refl _), List.take_of_length_le (Nat.le_succ _)]
    obtain ⟨n, hn1, hn2, hn3, hn4⟩ := htracks.readFlush hbytes' hrok hrbytes
    have hstate : (Connection.flushOutOfOrderPayload { r.conn with rx }).state = r.conn.state :=
      (Connection.onlyRx_flush _ _).state
    refine Receiver.sound_of hn3 hn4 ?_
    by_cases hest : r.conn.state = .established
    · rw [if_pos hest] at hn1 hn2
      exact .inl ⟨hstate.trans hest, by omega⟩
    · obtain ⟨hclosed, hall⟩ := hended hest
      rw [if_neg hest] at hn1 hn2
      exact .inr ⟨hstate.trans hclosed, by omega⟩
  · have hout : ∀ conn : Connection, ({ conn, out := r.out ++ [], held := r.held } : Receiver) = { r with conn } := by
      intro conn
      rw [List.append_nil]
    split
    · show Sound base stream { conn := _, out := r.out ++ [], held := r.held }
      rw [hout]
      exact ⟨hbytes, hin, htracks.same rfl rfl rfl, hended⟩
    · show Sound base stream { conn := _, out := r.out ++ [], held := r.held }
      rw [hout]
      exact ⟨hbytes, hin, htracks, hended⟩

theorem Receiver.Sound.step (h : r.Sound base stream) {e : Event} (hs : r.Sent base stream e) (hr : r.Recent e) :
    (r.step e).Sound base stream := by
  cases e with
  | segment view p => exact h.segment hs hr
  | read outLen => exact h.read outLen

theorem Receiver.Sound.run (events : List Event) {r : Receiver} (h : r.Sound base stream)
    (ha : Along Receiver.step (fun r e => r.Sent base stream e ∧ r.Recent e) r events) : (r.run events).Sound base stream :=
  Runs.invariant (fun _ _ h he => h.step he.1 he.2) events h ha

theorem Opened.sound (h : Opened c) (stream : List UInt8) : Receiver.Sound c.ack.toNat stream { conn := c } := by
  have hacc : ({ conn := c } : Receiver).accepted = 0 := (Nat.zero_add _).trans h.len
  have hnil : c.rx.contents bufferSize = [] := List.eq_nil_of_length_eq_zero ((Ring.length_contents _ _).trans h.len)
  have hno : ∀ i, ¬ (c.outOfOrder i).valid = true := fun i hi => absurd ((h.slots i).symm.trans hi) Bool.false_ne_true
  refine ⟨?_, by rw [hacc]; exact Nat.zero_le _, ?_, fun hne => absurd h.state hne⟩
  · rw [hacc, List.take_zero]
    exact hnil
  · rw [hacc, if_pos h.state]
    exact ⟨(Sequence.num_toNat _).symm, ⟨h.head, by rw [h.len]; exact Nat.zero_le _⟩, fun i hi => absurd hi (hno i),
      fun i hi => absurd hi (hno i), fun i hi => absurd hi (hno i), fun i _ hi => absurd hi (hno i)⟩

/-- What a run has delivered: a prefix of the stream, counted by the acknowledgement number, and all of it once the
connection has left `established`. -/
structure Delivered (c : Connection) (stream : List UInt8) (r : Receiver) : Prop where
  out : r.out <+: stream
  unread : r.out ++ r.conn.rx.contents bufferSize <+: stream
  ack : r.conn.ack = c.ack + num (r.accepted + if r.conn.state = .established then 0 else 1)
  rxLen : r.conn.rx.len = r.accepted - r.out.length
  ended : r.conn.state ≠ .established → r.accepted = stream.length

/-- **A connection delivers a prefix of the peer's stream**, in every run in which no slot still holds a piece 2^32 bytes
behind. -/
theorem stream_delivered {c : Connection} (hopen : Opened c) (stream : List UInt8) (events : List Event)
    (hsent : Along Receiver.step (fun r e => r.Sent c.ack.toNat stream e ∧ r.Recent e) { conn := c } events) :
    Delivered c stream (({ conn := c } : Receiver).run events) := by
  obtain ⟨hbytes, hin, htracks, hended⟩ := Receiver.Sound.run events (hopen.sound stream) hsent
  have hprefix := List.take_prefix (({ conn := c } : Receiver).run events).accepted stream
  rw [← hbytes] at hprefix
  refine ⟨(List.prefix_append _ _).trans hprefix, hprefix, ?_, ?_, fun hne => (hended hne).2⟩
  · rw [htracks.ack, Sequence.num_add, Sequence.num_toNat]
  · unfold Receiver.accepted
    omega

/-! ## The handshake opens a connection -/

/-- A connection whose receive side has seen nothing. -/
structure Fresh (c : Connection) : Prop where
  used : c.used = true
  head : c.rx.head = 0
  len : c.rx.len = 0
  slots : ∀ i, (c.outOfOrder i).valid = false

theorem beginLiveConnect_fresh {t t' : Table} {ip : Ip} {port : UInt16} {seq : UInt32} {i : Slot}
    (h : t.allocConnection = (some i, t')) : Fresh ((t.beginLiveConnect ip port seq).2.connections i) ∧
      ((t.beginLiveConnect ip port seq).2.connections i).state = .synSent := by
  unfold Table.beginLiveConnect
  rw [h]
  show Fresh (Function.update t'.connections i _ i) ∧ (Function.update t'.connections i _ i).state = _
  rw [Function.update_self]
  exact ⟨⟨rfl, rfl, rfl, fun _ => rfl⟩, rfl⟩

theorem acceptNew_fresh {t t' : Table} {view : SegmentView} {seq : UInt32} {i : Slot}
    (h : t.allocConnection = (some i, t')) : Fresh ((t.acceptNew view seq).2.connections i) ∧
      ((t.acceptNew view seq).2.connections i).state = .synReceived := by
  unfold Table.acceptNew
  rw [h]
  show Fresh (Function.update t'.connections i _ i) ∧ (Function.update t'.connections i _ i).state = _
  rw [Function.update_self]
  exact ⟨⟨rfl, rfl, rfl, fun _ => rfl⟩, rfl⟩

/-- A segment that opens a fresh connection leaves the receive side as it was. -/
theorem Fresh.opened (h : Fresh c) (hs : c.state = .synSent ∨ c.state = .synReceived) {view : SegmentView}
    (he : (c.receive view).state = .established) : Opened (c.receive view) := by
  have hwindow : ∀ d : Connection, d.used = c.used → d.rx = c.rx → d.outOfOrder = c.outOfOrder → d.state = .established →
      Opened (d.updateTxWindow view) := by
    intro d hused hrx hslots hstate
    obtain ⟨h1, -, h3, h4⟩ := updateTxWindow_onlyTx d view
    have hu : (d.updateTxWindow view).used = d.used := by
      unfold Connection.updateTxWindow
      dsimp only
      split <;> rfl
    refine ⟨hu.trans (hused.trans h.used), h4.trans hstate, ?_, ?_, fun i => ?_⟩
    · rw [h1, hrx, h.head]
      decide
    · rw [h1, hrx, h.len]
    · rw [h3, hslots]
      exact h.slots i
  have hne : c.state ≠ .established ∧ c.state ≠ .finWait := by
    rcases hs with hs | hs <;> rw [hs] <;> exact ⟨by decide, by decide⟩
  unfold Connection.receive at he ⊢
  split at he
  · unfold Connection.receiveReset at he
    split at he
    · exact absurd he hne.1
    · cases he
  · rename_i hrst
    rw [if_neg hrst]
    split at he
    · rename_i hsyn
      rw [if_pos hsyn]
      exact hwindow { c.applyPeerHandshakeOptions view with seq := c.seq + 1, ack := view.seq + 1, state := .established }
        rfl rfl rfl rfl
    · split at he
      · rename_i hsyn hack
        rw [if_neg hsyn, if_pos hack]
        exact hwindow { c with seq := c.seq + 1, state := .established } rfl rfl rfl rfl
      · rw [if_neg hne.1, if_neg (by simp [hne.2])] at he
        exact absurd he hne.1

/-! ## A slot that outlives 2^32 bytes -/

/-- A connection as the handshake leaves it, at sequence number zero. -/
def openConnection : Connection := { used := true, state := .established }

theorem openConnection_opened : Opened openConnection := ⟨rfl, rfl, by decide, rfl, fun _ => rfl⟩

/-- A data segment for it. -/
def segmentAt (offset : Nat) (payload : List UInt8) : SegmentView :=
  { sourceIp := Vector.replicate 4 0, sourcePort := 0, destPort := 0, seq := num offset, ack := 0, flags := flagAck
    window := 1000, payload }

theorem stream_delivered_small : Delivered openConnection [65, 66] (({ conn := openConnection } : Receiver).run
    [.segment (segmentAt 0 [65, 66]) 0, .read 2]) := by
  refine stream_delivered openConnection_opened [65, 66] _ ⟨⟨⟨⟨rfl, ?_, by decide, by decide⟩, ?_, ?_⟩, ?_⟩, ⟨trivial, trivial⟩, trivial⟩
  · exact List.prefix_refl _
  · exact Nat.zero_le _
  · decide
  · exact fun _ hi => absurd hi Bool.false_ne_true

/-- Two nines, then zeros: the byte 2^32 past the second nine is a zero. -/
def wrapStream : List UInt8 := [9, 9] ++ List.replicate 4294967296 0

def zeros255 : List UInt8 := List.replicate 255 0

/-- The second nine comes first, then both. -/
def firstEvents : List Event := [.segment (segmentAt 1 [9]) 1, .segment (segmentAt 0 [9, 9]) 0, .read 256]

/-- Rounds of 255 zeros and a read, from `k` on. -/
def rounds : Nat → Nat → List Event
  | 0, _ => []
  | n + 1, k => .segment (segmentAt k zeros255) k :: .read 256 :: rounds n (k + 255)

def staleSlots : Fin outOfOrderSlotCount → OutOfOrderSegment :=
  fun i => if i.val = 0 then { valid := true, seq := 1, payload := [9] } else {}

/-- Everything up to `k` has been read, and the second nine is still in its slot. -/
structure Stale (k : Nat) (r : Receiver) : Prop where
  used : r.conn.used = true
  state : r.conn.state = .established
  localPort : r.conn.localPort = 0
  remotePort : r.conn.remotePort = 0
  remoteIp : r.conn.remoteIp = Vector.replicate 4 0
  ring : r.conn.rx.Ok bufferSize
  empty : r.conn.rx.len = 0
  ack : r.conn.ack = num k
  slots : r.conn.outOfOrder = staleSlots
  out : r.out = wrapStream.take k

theorem stale_start : Stale 2 (({ conn := openConnection } : Receiver).run firstEvents) := by
  refine ⟨rfl, rfl, rfl, rfl, rfl, ⟨by decide, by decide⟩, rfl, rfl, ?_, ?_⟩
  · have h : ∀ i, (({ conn := openConnection } : Receiver).run firstEvents).conn.outOfOrder i = staleSlots i := by
      decide +kernel
    exact funext h
  · rfl

theorem length_zeros255 : zeros255.length = 255 := List.length_replicate

theorem length_wrapStream : wrapStream.length = 4294967298 := by
  unfold wrapStream
  rw [List.length_append, List.length_replicate]
  rfl

theorem drop_wrapStream {k : Nat} (h : 2 ≤ k) : wrapStream.drop k = List.replicate (4294967298 - k) 0 := by
  obtain ⟨m, rfl⟩ : ∃ m, k = m + 2 := ⟨k - 2, by omega⟩
  unfold wrapStream
  rw [List.cons_append, List.cons_append, List.nil_append, List.drop_succ_cons, List.drop_succ_cons, List.drop_replicate]
  congr 1
  omega

theorem replicate_prefix {n m : Nat} (h : n ≤ m) : List.replicate n (0 : UInt8) <+: List.replicate m 0 := by
  refine ⟨List.replicate (m - n) 0, ?_⟩
  rw [List.replicate_append_replicate, Nat.add_sub_cancel' h]

theorem zeros255_piece {k : Nat} (h : 2 ≤ k) (hk : k + 255 ≤ 4294967298) : zeros255 <+: wrapStream.drop k := by
  rw [drop_wrapStream h]
  exact replicate_prefix (by omega)

/-- **The stale slot is harmless for 2^32 bytes.** -/
theorem stale_waits {k : Nat} (h : 2 ≤ k) (hk : k < 4294967297) {c : Connection} (hack : c.ack = num k)
    (hs : c.outOfOrder = staleSlots) : c.findFlushableOutOfOrder = none := by
  refine Slots.best_none.2 (fun i => ?_)
  rw [hs]
  unfold staleSlots Connection.flushable Connection.slotEnd
  split
  · have hfirst : ¬ (1 : UInt32) = num k := fun he => by
      have := Sequence.num_inj (p := 1) (q := k) he (by omega) (by omega)
      omega
    have hover : (!seqAfter (num 1) (num k) && seqAfter (num 2) (num k)) = false := by
      rcases Nat.lt_or_ge 2147483649 k with hfar | hnear
      · rw [seqAfter, Sequence.after_num_far (by omega) (by omega)]
        rfl
      · have hend : seqAfter (num 2) (num k) = false := by
          rw [seqAfter, Sequence.after_num (by omega) (by omega), decide_eq_false_iff_not]
          omega
        rw [hend, Bool.and_false]
    rw [hack, decide_eq_false hfirst]
    exact hover
  · rfl

def firstSlot : Fin outOfOrderSlotCount := ⟨0, by decide⟩

theorem stale_flushed {c : Connection} (hack : c.ack = num 4294967297) (hs : c.outOfOrder = staleSlots) :
    c.findFlushableOutOfOrder = some firstSlot := by
  cases hf : c.findFlushableOutOfOrder with
  | none =>
    have h0 := Slots.best_none.1 hf firstSlot
    rw [hs, Connection.flushable, hack] at h0
    exact absurd h0 (by decide)
  | some i =>
    have hi := Slots.best_some hf
    rw [hs, Connection.flushable, Bool.and_eq_true] at hi
    have hv := hi.1
    unfold staleSlots at hv
    split at hv
    · rename_i h0
      exact congrArg some (Fin.ext h0)
    · cases hv

/-- The connection `d` after the next 255 bytes were accepted, before the flush. -/
structure Next (k : Nat) (payload : List UInt8) (c d : Connection) : Prop where
  used : d.used = true
  state : d.state = .established
  localPort : d.localPort = 0
  remotePort : d.remotePort = 0
  remoteIp : d.remoteIp = Vector.replicate 4 0
  ring : d.rx.Ok bufferSize
  bytes : d.rx.contents bufferSize = payload
  ack : d.ack = num (k + 255)
  slots : d.outOfOrder = staleSlots
  offer : c.offer (segmentAt k payload) = d.flushOutOfOrderPayload

theorem stale_offer {k : Nat} {r : Receiver} (h : Stale k r) {payload : List UInt8} (hlen : payload.length = 255) :
    ∃ d, Next k payload r.conn d := by
  have hm : r.conn.matchesView (segmentAt k payload) = true := by
    unfold Connection.matchesView segmentAt
    rw [h.used, h.state, h.localPort, h.remotePort, h.remoteIp]
    rfl
  have hok : r.conn.segmentSeqAcceptable (segmentAt k payload) = true := by
    unfold Connection.segmentSeqAcceptable
    dsimp only
    rw [h.ack, show (segmentAt k payload).seq = num k from rfl, decide_eq_true rfl, Bool.true_or, Bool.true_or]
  have hrst : has (segmentAt k payload).flags flagRst = false := (by decide : has flagAck flagRst = false)
  have hfin : has (segmentAt k payload).flags flagFin = false := (by decide : has flagAck flagFin = false)
  obtain ⟨hrx, hack, hslots, hstate⟩ := updateTxWindow_onlyTx r.conn (segmentAt k payload)
  have hother : (r.conn.updateTxWindow (segmentAt k payload)).used = r.conn.used ∧
      (r.conn.updateTxWindow (segmentAt k payload)).localPort = r.conn.localPort ∧
      (r.conn.updateTxWindow (segmentAt k payload)).remotePort = r.conn.remotePort ∧
      (r.conn.updateTxWindow (segmentAt k payload)).remoteIp = r.conn.remoteIp := by
    unfold Connection.updateTxWindow
    dsimp only
    split <;> exact ⟨rfl, rfl, rfl, rfl⟩
  generalize hu : r.conn.updateTxWindow (segmentAt k payload) = u at *
  have hring : u.rx.Ok bufferSize := hrx ▸ h.ring
  have hempty : u.rx.len = 0 := hrx ▸ h.empty
  have hnil : u.rx.contents bufferSize = [] := List.eq_nil_of_length_eq_zero ((Ring.length_contents _ _).trans hempty)
  have hmin : min payload.length u.rxFree = 255 := by
    unfold Connection.rxFree
    rw [hempty, hlen]
    rfl
  have htake : payload.take (min payload.length u.rxFree) = payload := List.take_of_length_le (by rw [hmin, hlen])
  have hroom : u.rx.len + (payload.take (min payload.length u.rxFree)).length ≤ bufferSize := by
    rw [htake, hempty, hlen]
    exact Nat.le_of_ble_eq_true rfl
  have hpush := Ring.push_ok hring hroom
  refine ⟨u.acceptInOrderPayload (num k) payload, ?_, ?_, ?_, ?_, ?_, ?_, ?_, ?_, ?_, ?_⟩
  · exact hother.1.trans h.used
  · exact hstate.trans h.state
  · exact hother.2.1.trans h.localPort
  · exact hother.2.2.1.trans h.remotePort
  · exact hother.2.2.2.trans h.remoteIp
  · exact hpush
  · show (u.rx.push bufferSize _).contents bufferSize = _
    rw [Ring.contents_push hring hroom, hnil, htake, List.nil_append]
  · show num k + _ = _
    rw [hmin, length_toUInt32]
  · exact hslots.trans h.slots
  · unfold Connection.offer Connection.receive
    rw [if_pos hm, if_neg (ne_true_of_eq_false hrst), if_neg (by simp [h.state]),
      if_neg (by simp [h.state]), if_pos h.state]
    unfold Connection.receiveEstablished
    rw [if_neg (by rw [hok]; simp), hu]
    dsimp only
    rw [if_neg (by rw [hfin, Bool.false_and]; exact Bool.false_ne_true),
      if_pos (by show payload.length ≠ 0; rw [hlen]; decide)]
    unfold Connection.acceptPayload
    rw [if_neg (by show ¬ payload.length = 0; rw [hlen]; decide),
      if_pos (show (segmentAt k payload).seq = u.ack from (hack.trans h.ack).symm)]
    rfl

theorem length_out {k : Nat} {r : Receiver} (h : Stale k r) (hk : k ≤ 4294967298) : r.out.length = k := by
  rw [h.out, List.length_take, length_wrapStream]
  exact Nat.min_eq_left hk

theorem read_all {d : Connection} (hring : d.rx.Ok bufferSize) (h0 : 0 < d.rx.len) (h1 : d.rx.len ≤ 256) :
    ∃ rx : Ring UInt8, rx.Ok bufferSize ∧ rx.len = 0 ∧
      d.read 256 = (some (d.rx.contents bufferSize), Connection.flushOutOfOrderPayload { d with rx }) := by
  have hle : d.rx.len ≤ d.rx.len := Nat.le_refl _
  have hlen : (if 256 < d.rx.len then 256 else d.rx.len) = d.rx.len := if_neg (by omega)
  have hpop := Ring.len_pop hring hle
  rw [Nat.sub_self] at hpop
  refine ⟨{ (d.rx.pop bufferSize d.rx.len).2 with head := 0 }, ⟨Nat.lt_of_lt_of_eq (by decide : 0 < 262144) rfl, ?_⟩, hpop, ?_⟩
  · show (d.rx.pop bufferSize d.rx.len).2.len ≤ _
    omega
  · unfold Connection.read
    rw [hlen]
    dsimp only
    rw [if_pos (by omega), if_pos hpop, Ring.pop_fst hring hle,
      List.take_of_length_le (by rw [Ring.length_contents])]

theorem segment_read {r : Receiver} {view : SegmentView} {p n : Nat} {d e : Connection} {got : List UInt8}
    (hd : r.conn.offer view = d) (hused : d.used = true) (hread : d.read n = (some got, e)) :
    (r.step (.segment view p)).step (.read n) = { conn := e, out := r.out ++ got, held := heldAfter r.conn d r.held p } := by
  have hstep : r.step (.segment view p) = { r with conn := d, held := heldAfter r.conn d r.held p } := by
    rw [← hd]
    rfl
  rw [hstep]
  show (if d.used then _ else _) = _
  rw [if_pos hused, hread]
  rfl

theorem flush_none {c : Connection} (h : c.findFlushableOutOfOrder = none) (fuel : Nat) : Connection.flushSlots fuel c = c := by
  cases fuel with
  | zero => rfl
  | succ fuel =>
    unfold Connection.flushSlots
    rw [h]

/-- **A round of 255 zeros that ends before the stale byte's turn** is delivered as it should be. -/
theorem stale_round {k : Nat} {r : Receiver} (h : Stale k r) (hk2 : 2 ≤ k) (hk : k + 255 < 4294967297) :
    Stale (k + 255) ((r.step (.segment (segmentAt k zeros255) k)).step (.read 256)) := by
  obtain ⟨d, hd⟩ := stale_offer h length_zeros255
  have hwait : d.flushOutOfOrderPayload = d := flush_none (stale_waits (by omega) hk hd.ack hd.slots) _
  have hlen : d.rx.len = 255 := by rw [← Ring.length_contents bufferSize, hd.bytes, length_zeros255]
  obtain ⟨rx, hok, hempty, hread⟩ := read_all hd.ring (by omega) (by omega)
  have hwait' : Connection.flushOutOfOrderPayload { d with rx } = { d with rx } :=
    flush_none (stale_waits (c := { d with rx }) (by omega) hk hd.ack hd.slots) _
  rw [hwait', hd.bytes] at hread
  rw [segment_read (hd.offer.trans hwait) hd.used hread]
  refine ⟨hd.used, hd.state, hd.localPort, hd.remotePort, hd.remoteIp, hok, hempty, hd.ack, hd.slots, ?_⟩
  show r.out ++ zeros255 = _
  rw [h.out, take_append_prefix (zeros255_piece hk2 (by omega)), length_zeros255]

/-- **The round that reaches the stale byte's turn** delivers it after the zeros. -/
theorem stale_last {k : Nat} {r : Receiver} (h : Stale k r) (hk : k + 255 = 4294967297) :
    ((r.step (.segment (segmentAt k zeros255) k)).step (.read 256)).out = wrapStream.take k ++ (zeros255 ++ [9]) := by
  obtain ⟨d, hd⟩ := stale_offer h length_zeros255
  have hack : d.ack = num 4294967297 := by rw [hd.ack, hk]
  have hlen : d.rx.len = 255 := by rw [← Ring.length_contents bufferSize, hd.bytes, length_zeros255]
  have hfree : d.rxFree = 261889 := by
    unfold Connection.rxFree bufferSize
    rw [hlen]
  have hslot : d.outOfOrder firstSlot = { valid := true, seq := 1, payload := [9] } := by rw [hd.slots]; rfl
  have hoff : (d.ack - (d.outOfOrder firstSlot).seq).toNat = 0 := by rw [hack, hslot]; rfl
  have hcleared : ∀ i, ((d.setSlot firstSlot {}).outOfOrder i).valid = false := by
    intro i
    show (Function.update d.outOfOrder firstSlot {} i).valid = false
    rw [Function.update_apply, hd.slots]
    split
    · rfl
    · rename_i hi
      unfold staleSlots
      rw [if_neg (fun h0 : i.val = 0 => hi (Fin.ext h0))]
  have hflush : d.flushOutOfOrderPayload = (d.setSlot firstSlot {}).acceptInOrderPayload d.ack [9] := by
    show Connection.flushSlots (47 + 1) d = _
    unfold Connection.flushSlots
    rw [stale_flushed hack hd.slots]
    dsimp only
    rw [hoff, hslot, hfree]
    exact flush_none (Slots.best_none.2 (fun i => by
      show Connection.flushable _ ((d.setSlot firstSlot {}).outOfOrder i) = false
      rw [Connection.flushable, hcleared i, Bool.false_and])) 47
  have hroom : d.rx.len + [(9 : UInt8)].length ≤ bufferSize := by
    rw [hlen]
    exact Nat.le_of_ble_eq_true rfl
  have hpush : ((d.setSlot firstSlot {}).acceptInOrderPayload d.ack [9]).rx = d.rx.push bufferSize [9] := by
    show d.rx.push bufferSize (List.take (min 1 d.rxFree) [9]) = _
    rw [hfree]
    rfl
  obtain ⟨rx, -, -, hread⟩ := read_all (d := (d.setSlot firstSlot {}).acceptInOrderPayload d.ack [9])
    (by rw [hpush]; exact Ring.push_ok hd.ring hroom) (by rw [hpush, Ring.len_push hd.ring hroom]; omega)
    (by rw [hpush, Ring.len_push hd.ring hroom, hlen]; decide)
  rw [hpush, Ring.contents_push hd.ring hroom, hd.bytes] at hread
  rw [segment_read (hd.offer.trans hflush) hd.used hread, h.out]

theorem stale_not_prefix {k : Nat} (h : 2 ≤ k) (hk : k ≤ 4294967298) {out : List UInt8}
    (hout : out = wrapStream.take k ++ (zeros255 ++ [9])) : ¬ out <+: wrapStream := by
  intro hp
  have hlen : (wrapStream.take k).length = k := by
    rw [List.length_take, length_wrapStream]
    exact Nat.min_eq_left hk
  have hd := hp.drop k
  rw [hout, List.drop_left' hlen, drop_wrapStream h] at hd
  have h9 : (9 : UInt8) ∈ List.replicate (4294967298 - k) (0 : UInt8) :=
    hd.mem (List.mem_append_right _ (List.mem_singleton_self _))
  exact absurd (List.eq_of_mem_replicate h9) (by decide)

theorem stale_sent {k : Nat} {r : Receiver} (h : Stale k r) (hk2 : 2 ≤ k) (hk : k + 255 ≤ 4294967297) :
    r.Sent 0 wrapStream (.segment (segmentAt k zeros255) k) := by
  have hacc : r.accepted = k := by
    unfold Receiver.accepted
    rw [h.empty, length_out h (by omega), Nat.add_zero]
  refine ⟨⟨?_, zeros255_piece hk2 (by omega), by show has flagAck flagRst = false; decide, ?_⟩, by omega, ?_⟩
  · show num k = num (0 + k)
    rw [Nat.zero_add]
  · intro hfin
    exact absurd hfin (by show ¬ has flagAck flagFin = true; decide)
  · show k + zeros255.length < _
    rw [hacc, length_zeros255]
    omega

theorem run_rounds (n k : Nat) (r : Receiver) : r.run (rounds (n + 1) k) =
    ((r.step (.segment (segmentAt k zeros255) k)).step (.read 256)).run (rounds n (k + 255)) := rfl

theorem run_none (k : Nat) (r : Receiver) : r.run (rounds 0 k) = r := rfl

theorem along_rounds {P : Receiver → Event → Prop} {n k : Nat} {r : Receiver} : Along Receiver.step P r (rounds (n + 1) k) =
    (P r (.segment (segmentAt k zeros255) k) ∧ P (r.step (.segment (segmentAt k zeros255) k)) (.read 256) ∧
      Along Receiver.step P ((r.step (.segment (segmentAt k zeros255) k)).step (.read 256)) (rounds n (k + 255))) := rfl

theorem stale_rounds (n : Nat) : ∀ {k : Nat} {r : Receiver}, Stale k r → 2 ≤ k → k + 255 * (n + 1) = 4294967297 →
    Along Receiver.step (fun r e => r.Sent 0 wrapStream e) r (rounds (n + 1) k) ∧ ¬ (r.run (rounds (n + 1) k)).out <+: wrapStream := by
  induction n with
  | zero =>
    intro k r h hk2 hk
    rw [along_rounds, run_rounds, run_none]
    exact ⟨⟨stale_sent h hk2 (by omega), trivial, trivial⟩, stale_not_prefix hk2 (by omega) (stale_last h (by omega))⟩
  | succ n ih =>
    intro k r h hk2 hk
    have hnext : k + 255 + 255 * (n + 1) = 4294967297 := by
      rw [← hk, Nat.mul_succ 255 (n + 1)]
      ac_rfl
    clear hk
    obtain ⟨halong, hout⟩ := ih (stale_round h hk2 (by omega)) (by omega) hnext
    rw [along_rounds, run_rounds]
    exact ⟨⟨stale_sent h hk2 (by omega), trivial, halong⟩, hout⟩

theorem firstEvents_sent : Along Receiver.step (fun r e => r.Sent 0 wrapStream e) { conn := openConnection } firstEvents := by
  have hseg : ∀ (r : Receiver) (p : Nat) (payload : List UInt8), payload <+: wrapStream.drop p → r.accepted ≤ p + 2147483648 →
      p + payload.length < r.accepted + 2147483648 → r.Sent 0 wrapStream (.segment (segmentAt p payload) p) := by
    intro r p payload hp h1 h2
    refine ⟨⟨?_, hp, by show has flagAck flagRst = false; decide, fun hfin => ?_⟩, h1, h2⟩
    · show num p = num (0 + p)
      rw [Nat.zero_add]
    · exact absurd hfin (by show ¬ has flagAck flagFin = true; decide)
  refine ⟨hseg _ 1 [9] ⟨List.replicate 4294967296 0, rfl⟩ (Nat.zero_le _) ?_, hseg _ 0 [9, 9] ⟨List.replicate 4294967296 0, rfl⟩ ?_ ?_,
    trivial, trivial⟩
  · show 1 + 1 < 0 + 2147483648
    omega
  · show Receiver.accepted _ ≤ _
    have : (Receiver.step { conn := openConnection } (.segment (segmentAt 1 [9]) 1)).accepted = 0 := rfl
    omega
  · have : (Receiver.step { conn := openConnection } (.segment (segmentAt 1 [9]) 1)).accepted = 0 := rfl
    rw [this]
    show 0 + 2 < _
    omega

/-- **A slot left behind delivers its byte again 2^32 bytes later**, so what the reader gets is not the peer's stream. -/
theorem stream_delivered_wraps : ¬ ∀ (c : Connection) (stream : List UInt8) (events : List Event), Opened c →
    Along Receiver.step (fun r e => r.Sent c.ack.toNat stream e) { conn := c } events →
    Delivered c stream (({ conn := c } : Receiver).run events) := by
  intro hall
  obtain ⟨halong, hout⟩ := stale_rounds 16843008 stale_start (Nat.le_refl 2) (by omega)
  have hsent : Along Receiver.step (fun r e => r.Sent 0 wrapStream e) { conn := openConnection } (firstEvents ++ rounds 16843009 2) :=
    (along_append _ _ _).2 ⟨firstEvents_sent, halong⟩
  have hd := (hall openConnection wrapStream _ openConnection_opened hsent).out
  rw [Receiver.run, Runs.run_append] at hd
  exact hout hd

end Tcp
end R4
