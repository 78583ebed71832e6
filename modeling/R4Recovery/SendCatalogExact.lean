import R4Recovery.TcpSend
/-!
# SendCatalogExact — the catalog holds what is outstanding, piece by piece

Everything tracked since the reset is a list of items.  The slots in use, read in the order of their sequence numbers, are
the items from the highest acknowledgement on, cut into pieces; tokens grow along that order.
-/
namespace R4
namespace Tcp
namespace Catalog

open Sequence (num)
open Runs (Along run)

/-- The slots of `order` hold `items` from position `p` on, one piece behind the other; no piece starts beyond `hi`. -/
def Covers {n : Nat} (segments : Fin n → SentSegment) (hi : Nat) : Nat → List (Fin n) → List Item → Prop
  | _, [], items => items = []
  | p, j :: order, items => ∃ is rest, items = is ++ rest ∧ is ≠ [] ∧ (segments j).At p is ∧ p ≤ hi ∧
    Covers segments hi (p + is.length) order rest

section Covers

variable {n : Nat} {segments segments' : Fin n → SentSegment} {hi hi' a : Nat}

theorem Covers.mono (hle : hi ≤ hi') : ∀ {order : List (Fin n)} {p : Nat} {items : List Item},
    (∀ j ∈ order, segments' j = segments j) → Covers segments hi p order items → Covers segments' hi' p order items
  | [], _, _, _, h => h
  | j :: _, _, _, hsame, ⟨is, rest, hsplit, hne, hat, hp, h⟩ =>
    ⟨is, rest, hsplit, hne, hsame j List.mem_cons_self ▸ hat, hp.trans hle,
      h.mono hle (fun i hi => hsame i (List.mem_cons_of_mem _ hi))⟩

theorem Covers.valid : ∀ {order : List (Fin n)} {p : Nat} {items : List Item}, Covers segments hi p order items →
    ∀ j ∈ order, (segments j).valid = true
  | [], _, _, _, _, hj => absurd hj List.not_mem_nil
  | _ :: _, _, _, ⟨_, _, _, _, hat, _, h⟩, i, hi => by
    rcases List.mem_cons.1 hi with rfl | hi
    · exact hat.valid
    · exact h.valid i hi

theorem Covers.append {j : Fin n} {more : List Item} (hne : more ≠ []) : ∀ {order : List (Fin n)} {p : Nat}
    {items : List Item}, Covers segments hi p order items → (segments j).At (p + items.length) more →
      p + items.length ≤ hi → Covers segments hi p (order ++ [j]) (items ++ more)
  | [], p, items, h, hat, hp => by
    obtain rfl : items = [] := h
    exact ⟨more, [], by rw [List.nil_append, List.append_nil], hne, hat, hp, rfl⟩
  | _ :: order, p, _, ⟨is, rest, hsplit, hne', hat', hp', h⟩, hat, hp => by
    subst hsplit
    rw [List.length_append, ← Nat.add_assoc] at hat hp
    exact ⟨is, rest ++ more, List.append_assoc .., hne', hat', hp', h.append hne hat hp⟩

theorem Covers.acknowledge_old (hfar : hi ≤ a + 2147483648) : ∀ {order : List (Fin n)} {p : Nat} {items : List Item},
    Covers segments hi p order items → a ≤ p → ∀ j ∈ order, (segments j).acknowledge (num a) = segments j
  | [], _, _, _, _, _, hj => absurd hj List.not_mem_nil
  | _ :: _, p, _, ⟨is, _, _, _, hat, hp, h⟩, ha, i, hi => by
    rcases List.mem_cons.1 hi with rfl | hi
    · exact hat.acknowledge_old ha (by omega)
    · exact h.acknowledge_old hfar (by omega) i hi

/-- **What an acknowledgement does to the row of pieces**: the pieces it covers go, the one it reaches is cut, the others
stay. -/
theorem Covers.acknowledge (hfar : hi ≤ a + 2147483648) : ∀ {order : List (Fin n)} {p : Nat} {items : List Item},
    Covers segments hi p order items → order.Nodup → a ≤ p + items.length → items.length < 2147483648 →
    ∃ order', order' <:+ order ∧
      Covers (fun j => (segments j).acknowledge (num a)) (max hi a) (max p a) order' (items.drop (a - p)) ∧
      ∀ j ∈ order, ((segments j).acknowledge (num a)).valid = true ↔ j ∈ order'
  | [], p, items, h, _, _, _ => by
    obtain rfl : items = [] := h
    exact ⟨[], List.suffix_refl _, List.drop_nil, fun j hj => absurd hj List.not_mem_nil⟩
  | j :: order, p, items, h, hnodup, ha, hlen => by
    rcases Nat.lt_or_ge p a with hpa | hpa
    · obtain ⟨is, rest, rfl, hne, hat, hp, h⟩ := h
      have hpos := List.length_pos_iff.2 hne
      rw [List.length_append] at ha hlen
      obtain ⟨hj, hnodup⟩ := List.nodup_cons.1 hnodup
      obtain ⟨hall, hpart⟩ := hat.acknowledge_new (a := a) (by omega) hpa (by omega)
      rcases Nat.lt_or_ge a (p + is.length) with hin | hout
      · have hkeep := h.acknowledge_old hfar (Nat.le_of_lt hin)
        refine ⟨j :: order, List.suffix_refl _, ⟨is.drop (a - p), rest, ?_, ?_, ?_, ?_, ?_⟩, fun i hi => ?_⟩
        · exact List.drop_append_of_le_length (by omega)
        · rw [← List.length_pos_iff, List.length_drop]
          omega
        · rw [Nat.max_eq_right (Nat.le_of_lt hpa)]
          exact hpart (by omega)
        · rw [Nat.max_eq_right (Nat.le_of_lt hpa)]
          exact Nat.le_max_right _ _
        · rw [List.length_drop, Nat.max_eq_right (Nat.le_of_lt hpa), show a + (is.length - (a - p)) = p + is.length by omega]
          exact h.mono (Nat.le_max_left _ _) hkeep
        · refine ⟨fun _ => hi, fun _ => ?_⟩
          rcases List.mem_cons.1 hi with rfl | hi
          · exact (hpart (by omega)).valid
          · rw [hkeep i hi]
            exact h.valid i hi
      · obtain ⟨order', hsuffix, hcovers, hvalid⟩ := h.acknowledge hfar hnodup (by omega) (by omega)
        refine ⟨order', hsuffix.trans (List.suffix_cons _ _), ?_, fun i hi => ?_⟩
        · rw [Nat.max_eq_right hout] at hcovers
          rwa [Nat.max_eq_right (Nat.le_of_lt hpa), List.drop_append, List.drop_eq_nil_of_le (by omega), List.nil_append,
            show a - p - is.length = a - (p + is.length) by omega]
        · rcases List.mem_cons.1 hi with rfl | hi
          · rw [hall (by omega)]
            exact ⟨fun hf => absurd hf Bool.false_ne_true, fun hi => absurd (hsuffix.subset hi) hj⟩
          · exact hvalid i hi
    · have hkeep := Covers.acknowledge_old hfar h hpa
      refine ⟨j :: order, List.suffix_refl _, ?_, fun i hi => ⟨fun _ => hi, fun _ => ?_⟩⟩
      · rw [Nat.max_eq_left hpa, Nat.sub_eq_zero_of_le hpa, List.drop_zero]
        exact h.mono (Nat.le_max_left _ _) hkeep
      · rw [hkeep i hi]
        exact Covers.valid h i hi

end Covers

/-! ## What the catalog counts -/

theorem acknowledge_token (s : SentSegment) (ack : UInt32) : (s.acknowledge ack).token = s.token := by
  unfold SentSegment.acknowledge
  split
  · rfl
  · dsimp only
    split
    · rfl
    · split <;> split <;> split <;> rfl

theorem valid_of_acknowledge {s : SentSegment} {ack : UInt32} (h : (s.acknowledge ack).valid = true) : s.valid = true := by
  cases hv : s.valid with
  | true => rfl
  | false =>
    unfold SentSegment.acknowledge at h
    rw [hv, Bool.not_false, Bool.true_or, if_pos rfl] at h
    exact hv.symm.trans h

def Item.isByte : Item → Bool
  | .byte _ => true
  | _ => false

theorem count_bytes (flags : UInt16) (payload : List UInt8) : (itemsOf flags payload).countP Item.isByte = payload.length := by
  have hbytes : (payload.map Item.byte).countP Item.isByte = payload.length := by
    rw [List.countP_map, List.countP_eq_length]
    exact fun _ _ => rfl
  unfold itemsOf
  rw [List.countP_append, List.countP_append, hbytes]
  cases has flags flagSyn <;> cases has flags flagFin <;> simp [Item.isByte]

theorem Covers.bytes {n : Nat} {segments : Fin n → SentSegment} {hi : Nat} : ∀ {order : List (Fin n)} {p : Nat}
    {items : List Item}, Covers segments hi p order items →
    (order.map (fun j => (segments j).payload.length)).sum = items.countP Item.isByte
  | [], _, items, h => by
    obtain rfl : items = [] := h
    rfl
  | j :: order, _, _, ⟨is, rest, hsplit, _, hat, _, h⟩ => by
    rw [hsplit, List.countP_append, List.map_cons, List.sum_cons, h.bytes, ← hat.items]
    exact congrArg (· + _) (count_bytes _ _).symm

/-- The slots in use, in some order. -/
structure Lists (sent : SendCatalog) (order : List (Fin sentSegmentCapacity)) : Prop where
  nodup : order.Nodup
  mem : ∀ j, j ∈ order ↔ (sent.segments j).valid = true

variable {sent : SendCatalog} {order : List (Fin sentSegmentCapacity)}

theorem Lists.perm (h : Lists sent order) :
    ((List.finRange sentSegmentCapacity).filter (fun j => (sent.segments j).valid)).Perm order :=
  (List.perm_ext_iff_of_nodup ((List.nodup_finRange _).filter _) h.nodup).2 (fun j => by
    rw [List.mem_filter, h.mem]
    exact ⟨fun hj => hj.2, fun hj => ⟨List.mem_finRange j, hj⟩⟩)

theorem Lists.count (h : Lists sent order) : sent.count = order.length := by
  unfold SendCatalog.count
  rw [List.countP_eq_length_filter]
  exact h.perm.length_eq

theorem sum_fold (segments : Fin sentSegmentCapacity → SentSegment) : ∀ (l : List (Fin sentSegmentCapacity)) (acc : Nat),
    l.foldl (fun result i => if (segments i).valid then result + (segments i).payload.length else result) acc
      = acc + ((l.filter (fun j => (segments j).valid)).map (fun j => (segments j).payload.length)).sum
  | [], _ => rfl
  | i :: l, acc => by
    rw [List.foldl_cons, sum_fold segments l]
    cases hv : (segments i).valid with
    | true =>
      rw [List.filter_cons_of_pos (by rw [hv]), List.map_cons, List.sum_cons, if_pos rfl, Nat.add_assoc]
    | false => rw [List.filter_cons_of_neg (by rw [hv]; exact Bool.false_ne_true), if_neg Bool.false_ne_true]

theorem Lists.outstandingBytes (h : Lists sent order) :
    sent.outstandingBytes = (order.map (fun j => (sent.segments j).payload.length)).sum := by
  unfold SendCatalog.outstandingBytes
  rw [sum_fold, Nat.zero_add]
  exact (h.perm.map _).sum_nat

theorem oldest_eq (c : SendCatalog) : c.oldest .any = Slots.best (fun i => (c.segments i).valid)
    (fun i j => decide ((c.segments i).token.toNat < (c.segments j).token.toNat)) := by
  unfold SendCatalog.oldest
  congr 1
  funext i
  exact Bool.and_true _

theorem Lists.oldest (h : Lists sent order)
    (htokens : order.Pairwise (fun i j => (sent.segments i).token.toNat < (sent.segments j).token.toNat)) :
    sent.oldest .any = order.head? := by
  rw [oldest_eq]
  cases order with
  | nil => exact Slots.best_none.2 (fun i => eq_false_of_ne_true (fun hi => List.not_mem_nil ((h.mem i).2 hi)))
  | cons j order =>
    cases hb : Slots.best (fun i => (sent.segments i).valid)
        (fun i j => decide ((sent.segments i).token.toNat < (sent.segments j).token.toNat)) with
    | none => exact absurd ((Slots.best_none.1 hb j).symm.trans ((h.mem j).1 List.mem_cons_self)) Bool.false_ne_true
    | some i =>
      have hle := Slots.best_least (fun i => (sent.segments i).token.toNat) hb ((h.mem j).1 List.mem_cons_self)
      rcases List.mem_cons.1 ((h.mem i).2 (Slots.best_some hb)) with rfl | hi
      · rfl
      · exact absurd ((List.pairwise_cons.1 htokens).1 i hi) (Nat.not_lt.2 hle)

/-! ## Runs -/

inductive Event where
  | track (seq ack : UInt32) (flags : UInt16) (payload : List UInt8) (sentTick : UInt64)
  | acknowledge (position : Nat)

/-- The catalog, everything it has taken since the reset, the highest acknowledgement and where the last segment starts. -/
structure Sent where
  catalog : SendCatalog
  items : List Item := []
  acked : Nat
  last : Nat

def step (base : Nat) (s : Sent) : Event → Sent
  | .track seq ack flags payload sentTick =>
    match s.catalog.track seq ack flags payload sentTick with
    | none => s
    | some (_, catalog) => { s with catalog, items := s.items ++ itemsOf flags payload, last := base + s.items.length }
  | .acknowledge position =>
    { s with catalog := s.catalog.acknowledge (num position), acked := max s.acked position }

/-- The position of the first sequence number, with room below it for older acknowledgements. -/
def origin (first : UInt32) : Nat := 4294967296 + first.toNat

def start (catalog : SendCatalog) (first : UInt32) : Sent :=
  { catalog := catalog.reset, acked := origin first, last := origin first }

/-- Segments follow each other, fewer than 2^31 numbers are outstanding; an acknowledgement is for a number up to the end
of what was tracked, or older than the lowest outstanding one by less than 2^31. -/
def Contiguous (base : Nat) (s : Sent) : Event → Prop
  | .track seq _ flags payload _ => seq = num (base + s.items.length) ∧
    base + s.items.length + (itemsOf flags payload).length < s.acked + 2147483648
  | .acknowledge position => position ≤ base + s.items.length ∧ s.acked < position + 2147483648

/-- An acknowledgement is not more than 2^31 older than the first number of any outstanding segment. -/
def Near (s : Sent) : Event → Prop
  | .track .. => True
  | .acknowledge position => max s.last s.acked ≤ position + 2147483648

/-- The next token is above the tokens of the outstanding segments. -/
def Fresh (s : Sent) : Event → Prop
  | .track .. => ∀ j, (s.catalog.segments j).valid = true → (s.catalog.segments j).token.toNat < s.catalog.nextToken.toNat
  | .acknowledge _ => True

instance (base : Nat) (s : Sent) : (e : Event) → Decidable (Contiguous base s e)
  | .track .. => inferInstanceAs (Decidable (_ ∧ _))
  | .acknowledge _ => inferInstanceAs (Decidable (_ ∧ _))

instance (s : Sent) : (e : Event) → Decidable (Near s e)
  | .track .. => inferInstanceAs (Decidable True)
  | .acknowledge _ => inferInstanceAs (Decidable (_ ≤ _))

instance (s : Sent) : (e : Event) → Decidable (Fresh s e)
  | .track .. => inferInstanceAs (Decidable (∀ _, _))
  | .acknowledge _ => inferInstanceAs (Decidable True)

/-- What is exact at a moment: the slots in use, in the order of the sequence numbers, are what
was sent and not acknowledged, the oldest is the first of them, and the counts are theirs. -/
def Exact (base : Nat) (s : Sent) : Prop :=
  ∃ order hi, Lists s.catalog order ∧ Covers s.catalog.segments hi s.acked order (s.items.drop (s.acked - base)) ∧
    s.catalog.oldest .any = order.head? ∧ s.catalog.count = order.length ∧
    s.catalog.freeCount = sentSegmentCapacity - order.length ∧
    s.catalog.outstandingBytes = (s.items.drop (s.acked - base)).countP Item.isByte ∧
    ∀ ack, (s.catalog.ackResult ack).remaining.toNat = (s.catalog.acknowledge ack).count

/-- The invariant of a run. -/
structure Good (base : Nat) (s : Sent) (order : List (Fin sentSegmentCapacity)) : Prop where
  lists : Lists s.catalog order
  covers : Covers s.catalog.segments (max s.last s.acked) s.acked order (s.items.drop (s.acked - base))
  tokens : order.Pairwise (fun i j => (s.catalog.segments i).token.toNat < (s.catalog.segments j).token.toNat)
  next : s.catalog.nextToken ≠ 0
  base_le : base ≤ s.acked
  acked_le : s.acked ≤ base + s.items.length
  last_le : s.last ≤ base + s.items.length
  near : base + s.items.length < s.acked + 2147483648

variable {base : Nat} {s : Sent}

theorem count_le (c : SendCatalog) : c.count ≤ sentSegmentCapacity := by
  unfold SendCatalog.count
  exact List.countP_le_length.trans (Nat.le_of_eq List.length_finRange)

theorem Good.exact (h : Good base s order) : Exact base s := by
  refine ⟨order, _, h.lists, h.covers, h.lists.oldest h.tokens, h.lists.count, ?_, ?_, fun ack => ?_⟩
  · unfold SendCatalog.freeCount
    rw [h.lists.count]
  · rw [h.lists.outstandingBytes, h.covers.bytes]
  · show (s.catalog.acknowledge ack).count % 256 = _
    have hle := count_le (s.catalog.acknowledge ack)
    unfold sentSegmentCapacity at hle
    omega

theorem good_start (catalog : SendCatalog) (first : UInt32) : Good (origin first) (start catalog first) [] where
  lists := ⟨List.nodup_nil, fun _ => ⟨fun hj => absurd hj List.not_mem_nil, fun hj => absurd hj Bool.false_ne_true⟩⟩
  covers := List.drop_nil
  tokens := List.Pairwise.nil
  next := by
    show (1 : UInt64) ≠ 0
    decide
  base_le := Nat.le_refl _
  acked_le := Nat.le_refl _
  last_le := Nat.le_refl _
  near := by
    show origin first + 0 < origin first + _
    omega

theorem Good.acknowledge (h : Good base s order) {a : Nat} (hc : Contiguous base s (.acknowledge a))
    (hn : Near s (.acknowledge a)) : ∃ order', Good base (step base s (.acknowledge a)) order' := by
  have hlen : s.items.length - (s.acked - base) = base + s.items.length - s.acked := by
    have := h.base_le
    omega
  have hacked := h.acked_le
  have hnear := h.near
  have hlast := h.last_le
  have hbase := h.base_le
  obtain ⟨order', hsuffix, hcovers, hvalid⟩ := h.covers.acknowledge hn h.lists.nodup
    (by rw [List.length_drop, hlen]; have := hc.1; omega) (by rw [List.length_drop, hlen]; omega)
  refine ⟨order', ⟨hsuffix.sublist.nodup h.lists.nodup, fun j => ?_⟩, ?_, ?_, h.next, hbase.trans (Nat.le_max_left _ _),
    Nat.max_le.2 ⟨hacked, hc.1⟩, hlast, Nat.lt_of_lt_of_le hnear (Nat.add_le_add_right (Nat.le_max_left _ _) _)⟩
  · constructor
    · exact fun hj => (hvalid j (hsuffix.subset hj)).2 hj
    · exact fun hj => (hvalid j ((h.lists.mem j).2 (valid_of_acknowledge hj))).1 hj
  · show Covers (fun j => (s.catalog.segments j).acknowledge (num a)) (max s.last (max s.acked a)) (max s.acked a) order'
      (s.items.drop (max s.acked a - base))
    rw [List.drop_drop] at hcovers
    rw [show max s.acked a - base = s.acked - base + (a - s.acked) by omega, ← Nat.max_assoc]
    exact hcovers
  · show order'.Pairwise (fun i j => ((s.catalog.segments i).acknowledge (num a)).token.toNat
      < ((s.catalog.segments j).acknowledge (num a)).token.toNat)
    simp only [acknowledge_token]
    exact h.tokens.sublist hsuffix.sublist

theorem track_eq {c c' : SendCatalog} {seq ack : UInt32} {flags : UInt16} {payload : List UInt8} {tick token : UInt64}
    (h : c.track seq ack flags payload tick = some (token, c')) (hnext : c.nextToken ≠ 0) :
    itemsOf flags payload ≠ [] ∧ ∃ j, (c.segments j).valid = false ∧
      c'.segments = Function.update c.segments j
        { valid := true, token := c.nextToken, seq, ack, flags, payload, sentTick := tick, retransmits := 0 } ∧
      c'.nextToken = if c.nextToken + 1 = 0 then 1 else c.nextToken + 1 := by
  unfold SendCatalog.track at h
  split at h
  · cases h
  · rename_i hneeds
    split at h
    · cases h
    · rename_i j hj
      cases h
      refine ⟨(needsTracking_items flags payload).1 ?_, j, by simpa using Slots.first_some hj, rfl, rfl⟩
      by_contra hno
      exact hneeds (by rw [eq_false_of_ne_true hno]; rfl)

theorem Good.track (h : Good base s order) {seq ack : UInt32} {flags : UInt16} {payload : List UInt8} {tick : UInt64}
    (hc : Contiguous base s (.track seq ack flags payload tick)) (hf : Fresh s (.track seq ack flags payload tick)) :
    ∃ order', Good base (step base s (.track seq ack flags payload tick)) order' := by
  cases ht : s.catalog.track seq ack flags payload tick with
  | none =>
    have hstep : step base s (.track seq ack flags payload tick) = s := by
      simp only [step, ht]
    rw [hstep]
    exact ⟨order, h⟩
  | some out =>
    obtain ⟨token, c'⟩ := out
    have hstep : step base s (.track seq ack flags payload tick)
        = { s with catalog := c', items := s.items ++ itemsOf flags payload, last := base + s.items.length } := by
      simp only [step, ht]
    rw [hstep]
    obtain ⟨hne, j, hj, hsegments, hnextToken⟩ := track_eq ht h.next
    have hout : j ∉ order := fun hm => absurd (hj.symm.trans ((h.lists.mem j).1 hm)) Bool.false_ne_true
    have hsame : ∀ i ∈ order, c'.segments i = s.catalog.segments i := fun i hi => by
      rw [hsegments, Function.update_of_ne (fun (he : i = j) => hout (he ▸ hi))]
    have hself : (c'.segments j).token = s.catalog.nextToken := by rw [hsegments, Function.update_self]
    have hacked := h.acked_le
    have hbase := h.base_le
    have hlast := h.last_le
    have hend : s.acked + (s.items.drop (s.acked - base)).length = base + s.items.length := by
      rw [List.length_drop]
      omega
    refine ⟨order ++ [j], ⟨?_, fun i => ?_⟩, ?_, ?_, ?_, hbase, ?_, ?_, ?_⟩
    · rw [List.nodup_append]
      exact ⟨h.lists.nodup, List.nodup_singleton j, fun i hi k hk he => hout (List.mem_singleton.1 hk ▸ he ▸ hi)⟩
    · rw [List.mem_append, List.mem_singleton]
      by_cases hij : i = j
      · subst hij
        show _ ↔ (c'.segments i).valid = true
        rw [hsegments, Function.update_self]
        exact ⟨fun _ => rfl, fun _ => .inr rfl⟩
      · show _ ↔ (c'.segments i).valid = true
        rw [hsegments, Function.update_of_ne hij]
        exact ⟨fun hi => (h.lists.mem i).1 (hi.resolve_right hij), fun hi => .inl ((h.lists.mem i).2 hi)⟩
    · show Covers c'.segments (max (base + s.items.length) s.acked) s.acked (order ++ [j])
        ((s.items ++ itemsOf flags payload).drop (s.acked - base))
      rw [List.drop_append_of_le_length (by omega)]
      refine (h.covers.mono (by omega) hsame).append hne ?_ (by omega)
      rw [hend, hsegments, Function.update_self]
      exact ⟨rfl, hc.1, rfl⟩
    · rw [List.pairwise_append]
      refine ⟨?_, List.pairwise_singleton _ _, fun i hi k hk => ?_⟩
      · refine h.tokens.imp_of_mem (fun {i k} hi hk hlt => ?_)
        show (c'.segments i).token.toNat < (c'.segments k).token.toNat
        rw [hsame i hi, hsame k hk]
        exact hlt
      · obtain rfl := List.mem_singleton.1 hk
        show (c'.segments i).token.toNat < (c'.segments k).token.toNat
        rw [hsame i hi, hself]
        exact hf i ((h.lists.mem i).1 hi)
    · show c'.nextToken ≠ 0
      rw [hnextToken]
      split
      · decide
      · assumption
    · show s.acked ≤ base + (s.items ++ itemsOf flags payload).length
      rw [List.length_append]
      omega
    · show base + s.items.length ≤ base + (s.items ++ itemsOf flags payload).length
      rw [List.length_append]
      omega
    · show base + (s.items ++ itemsOf flags payload).length < s.acked + 2147483648
      rw [List.length_append, ← Nat.add_assoc]
      exact hc.2

/-- **The catalog is exact in every run** whose acknowledgements stay near every outstanding segment and whose tokens do
not start over while segments are outstanding. -/
theorem catalog_exact (catalog : SendCatalog) (first : UInt32) (events : List Event)
    (h : Along (step (origin first)) (fun s e => Contiguous (origin first) s e ∧ Near s e ∧ Fresh s e) (start catalog first)
      events) :
    Exact (origin first) (run (step (origin first)) (start catalog first) events) := by
  have hgood : ∃ order, Good (origin first) (run (step (origin first)) (start catalog first) events) order := by
    refine Runs.invariant (I := fun s => ∃ order, Good (origin first) s order) (fun s e hs he => ?_) events
      ⟨[], good_start catalog first⟩ h
    obtain ⟨order, hs⟩ := hs
    obtain ⟨hc, hn, hf⟩ := he
    cases e with
    | track seq ack flags payload tick => exact hs.track hc hf
    | acknowledge position => exact hs.acknowledge hc hn
  obtain ⟨order, hgood⟩ := hgood
  exact hgood.exact

/-- A SYN, two bytes and a FIN; a byte and the SYN are acknowledged, then an older number comes again. -/
def sampleEvents : List Event :=
  [.track 5 0 flagSyn [] 0, .track 6 0 0 [65, 66] 0, .track 8 0 flagFin [] 0, .acknowledge (origin 5 + 2),
    .acknowledge (origin 5 - 7)]

theorem catalog_exact_sample : Exact (origin 5) (run (step (origin 5)) (start {} 5) sampleEvents) :=
  catalog_exact {} 5 sampleEvents (by decide)

/-- Two segments; the acknowledgement is 2^31 - 1 older than the first number. -/
def farEvents : List Event := [.track 0 0 0 [65, 66] 0, .track 2 0 0 [67] 0, .acknowledge (origin 0 - 2147483647)]

theorem far_loses : ¬ Exact (origin 0) (run (step (origin 0)) (start {} 0) farEvents) := by
  rintro ⟨order, hi, -, -, -, -, -, hbytes, -⟩
  exact absurd hbytes (by decide)

/-! ### Tokens that start over -/

instance : NeZero sentSegmentCapacity := ⟨by decide⟩

/-- `n` bytes are sent and acknowledged one by one. -/
def pairAt (base n : Nat) : List Event := [.track (num (base + n)) 0 0 [0] 0, .acknowledge (base + n + 1)]

def warm (base n : Nat) : List Event := (List.range n).flatMap (pairAt base)

structure Idle (base n : Nat) (s : Sent) : Prop where
  valid : ∀ j, (s.catalog.segments j).valid = false
  next : s.catalog.nextToken.toNat = n + 1
  length : s.items.length = n
  acked : s.acked = base + n
  last_le : s.last ≤ base + n

theorem track_byte {c : SendCatalog} {i : Fin sentSegmentCapacity} (hi : (c.segments i).valid = false)
    (hless : ∀ j < i, (c.segments j).valid = true) (hnext : c.nextToken ≠ 0) (seq : UInt32) (b : UInt8) :
    c.track seq 0 0 [b] 0 = some (c.nextToken,
      { segments := Function.update c.segments i
          { valid := true, token := c.nextToken, seq, ack := 0, flags := 0, payload := [b], sentTick := 0, retransmits := 0 }
        nextToken := if c.nextToken + 1 = 0 then 1 else c.nextToken + 1 }) := by
  have hfirst : Slots.first (fun i => !(c.segments i).valid) = some i :=
    Slots.first_eq (by rw [hi]; rfl) (fun j hj => by rw [hless j hj]; rfl)
  unfold SendCatalog.track
  rw [if_neg (by exact Bool.false_ne_true), hfirst]
  dsimp only
  rw [if_neg hnext]

theorem next_ne {t : UInt64} {n : Nat} (h : t.toNat = n + 1) : t ≠ 0 := fun h0 => by
  rw [h0] at h
  exact absurd h (Nat.succ_ne_zero n).symm

theorem next_succ {t : UInt64} {n : Nat} (h : t.toNat = n + 1) (hn : n + 2 < 2 ^ 64) :
    (if t + 1 = 0 then 1 else t + 1).toNat = n + 2 := by
  have hadd : (t + 1).toNat = n + 2 := by
    rw [UInt64.toNat_add, h]
    exact Nat.mod_eq_of_lt hn
  rw [if_neg (next_ne hadd), hadd]

theorem Idle.pair {base n : Nat} {s : Sent} (h : Idle base n s) (hn : n + 2 < 2 ^ 64) :
    Along (step base) (fun s e => Contiguous base s e ∧ Near s e) s (pairAt base n) ∧
      Idle base (n + 1) (run (step base) s (pairAt base n)) := by
  have hnext := next_ne h.next
  have htrack := track_byte (h.valid 0) (fun j hj => absurd hj (Fin.not_lt_zero j)) hnext (num (base + n)) 0
  have hstep : step base s (.track (num (base + n)) 0 0 [0] 0) = { s with
      catalog :=
        { segments := Function.update s.catalog.segments 0
            { valid := true, token := s.catalog.nextToken, seq := num (base + n), ack := 0, flags := 0, payload := [0],
              sentTick := 0, retransmits := 0 }
          nextToken := if s.catalog.nextToken + 1 = 0 then 1 else s.catalog.nextToken + 1 }
      items := s.items ++ itemsOf 0 [0]
      last := base + s.items.length } := by
    simp only [step, htrack]
  have hlength := h.length
  have hacked := h.acked
  have hitems : (s.items ++ itemsOf 0 [0]).length = n + 1 := by
    rw [List.length_append, hlength]
    rfl
  refine ⟨⟨⟨⟨by rw [hlength], ?_⟩, trivial⟩, ⟨⟨?_, ?_⟩, ?_⟩, trivial⟩, ?_, ?_, ?_, ?_, ?_⟩
  · show base + s.items.length + 1 < s.acked + 2147483648
    omega
  · rw [hstep]
    show base + n + 1 ≤ base + (s.items ++ itemsOf 0 [0]).length
    omega
  · rw [hstep]
    show s.acked < base + n + 1 + 2147483648
    omega
  · rw [hstep]
    show max (base + s.items.length) s.acked ≤ base + n + 1 + 2147483648
    omega
  · intro j
    show ((step base s _).catalog.segments j |>.acknowledge (num (base + n + 1))).valid = false
    rw [hstep]
    show ((Function.update s.catalog.segments 0 _ j).acknowledge _).valid = false
    by_cases hj : j = 0
    · subst hj
      rw [Function.update_self]
      have hat : SentSegment.At
          { valid := true, token := s.catalog.nextToken, seq := num (base + n), ack := 0, flags := 0, payload := [0],
            sentTick := 0, retransmits := 0 } (base + n) [.byte 0] :=
        ⟨rfl, rfl, (by decide : itemsOf 0 [0] = [.byte 0])⟩
      exact (hat.acknowledge_new (a := base + n + 1) (by decide) (by omega) (by omega)).1 (by
        rw [List.length_singleton]
        omega)
    · rw [Function.update_of_ne hj]
      exact eq_false_of_ne_true (fun hv => absurd ((h.valid j).symm.trans (valid_of_acknowledge hv)) Bool.false_ne_true)
  · show (step base s _).catalog.nextToken.toNat = _
    rw [hstep]
    exact next_succ h.next hn
  · show (step base s _).items.length = _
    rw [hstep]
    exact hitems
  · show max (step base s _).acked (base + n + 1) = _
    rw [hstep]
    show max s.acked (base + n + 1) = _
    omega
  · show (step base s _).last ≤ _
    rw [hstep]
    show base + s.items.length ≤ _
    omega

theorem idle_warm (base : Nat) {s : Sent} (h : Idle base 0 s) : ∀ n, n + 1 < 2 ^ 64 →
    Along (step base) (fun s e => Contiguous base s e ∧ Near s e) s (warm base n) ∧
      Idle base n (run (step base) s (warm base n))
  | 0, _ => ⟨trivial, h⟩
  | n + 1, hn => by
    obtain ⟨ha, hi⟩ := idle_warm base h n (by omega)
    obtain ⟨ha', hi'⟩ := hi.pair (by omega)
    have hsplit : warm base (n + 1) = warm base n ++ pairAt base n := by
      unfold warm
      rw [List.range_succ, List.flatMap_append, List.flatMap_singleton]
    rw [hsplit, Runs.run_append, Runs.along_append]
    exact ⟨⟨ha, ha'⟩, hi'⟩

theorem idle_start : Idle (origin 0) 0 (start {} 0) := ⟨fun _ => rfl, rfl, rfl, rfl, Nat.le_refl _⟩

theorem Idle.wraps {base n : Nat} {s : Sent} (h : Idle base n s) (hn : n + 2 = 2 ^ 64) :
    Along (step base) (fun s e => Contiguous base s e ∧ Near s e) s
        [.track (num (base + n)) 0 0 [1] 0, .track (num (base + n + 1)) 0 0 [2] 0] ∧
      ¬ Exact base (run (step base) s [.track (num (base + n)) 0 0 [1] 0, .track (num (base + n + 1)) 0 0 [2] 0]) := by
  obtain ⟨hvalid, hnext, hlength, hacked, hlast⟩ := h
  obtain ⟨c, items, acked, last⟩ := s
  obtain rfl : acked = base + n := hacked
  dsimp only at hvalid hnext hlength hlast
  have hne : c.nextToken ≠ 0 := next_ne hnext
  have hone : (if c.nextToken + 1 = 0 then 1 else c.nextToken + 1) = 1 := by
    rw [if_pos]
    apply UInt64.toNat_inj.1
    rw [UInt64.toNat_add, hnext, show n + 1 + (1 : UInt64).toNat = 2 ^ 64 from hn]
    rfl
  have h1 := track_byte (hvalid 0) (fun j hj => absurd hj (Fin.not_lt_zero j)) hne (num (base + n)) 1
  rw [hone] at h1
  generalize hc1 : ({ segments := _, nextToken := 1 } : SendCatalog) = c1 at h1
  have hv1 : ∀ j, (c1.segments j).valid = decide (j = 0) := fun j => by
    rw [← hc1]
    show (Function.update c.segments 0 _ j).valid = _
    by_cases hj : j = 0
    · rw [hj, Function.update_self]
      rfl
    · rw [Function.update_of_ne hj, hvalid j, decide_eq_false hj]
  have hless : ∀ j < (1 : Fin sentSegmentCapacity), (c1.segments j).valid = true := fun j hj => by
    rw [hv1]
    refine decide_eq_true (Fin.ext ?_)
    exact Nat.lt_one_iff.1 (Fin.lt_def.1 hj)
  have h2 := track_byte (i := 1) ((hv1 1).trans (by decide)) hless (by
    rw [← hc1]
    show (1 : UInt64) ≠ 0
    decide) (num (base + n + 1)) 2
  generalize hc2 : ({ segments := _, nextToken := _ } : SendCatalog) = c2 at h2
  have hs1 : step base ⟨c, items, base + n, last⟩ (.track (num (base + n)) 0 0 [1] 0)
      = ⟨c1, items ++ itemsOf 0 [1], base + n, base + items.length⟩ := by
    simp only [step, h1]
  have hs2 : step base ⟨c1, items ++ itemsOf 0 [1], base + n, base + items.length⟩ (.track (num (base + n + 1)) 0 0 [2] 0)
      = ⟨c2, items ++ itemsOf 0 [1] ++ itemsOf 0 [2], base + n, base + (items ++ itemsOf 0 [1]).length⟩ := by
    simp only [step, h2]
  have hlen1 : (items ++ itemsOf 0 [1]).length = n + 1 := by
    rw [List.length_append, hlength]
    rfl
  refine ⟨⟨⟨⟨by rw [hlength], ?_⟩, trivial⟩, ⟨⟨?_, ?_⟩, trivial⟩, trivial⟩, ?_⟩
  · show base + items.length + 1 < base + n + 2147483648
    omega
  · rw [hs1]
    show num (base + n + 1) = num (base + (items ++ itemsOf 0 [1]).length)
    rw [hlen1]
    rfl
  · rw [hs1]
    show base + (items ++ itemsOf 0 [1]).length + 1 < base + n + 2147483648
    omega
  · rw [Runs.run_cons, Runs.run_cons, hs1, hs2, Runs.run_nil]
    have hzero : (c2.segments 0).token = c.nextToken := by
      rw [← hc2, ← hc1]
      rfl
    have hsecond : (c2.segments 1).valid = true ∧ (c2.segments 1).token = 1 ∧ (c2.segments 1).seq = num (base + n + 1) := by
      rw [← hc2]
      refine ⟨rfl, ?_, rfl⟩
      rw [← hc1]
      rfl
    have hv2 : ∀ j, (c2.segments j).valid = true → j = 0 ∨ j = 1 := fun j hj => by
      by_cases h1 : j = 1
      · exact .inr h1
      · rw [← hc2] at hj
        have hj' : (Function.update c1.segments 1 _ j).valid = true := hj
        rw [Function.update_of_ne h1, hv1] at hj'
        exact .inl (of_decide_eq_true hj')
    rintro ⟨order, hi, hlists, hcovers, hold, -⟩
    have hfirst : c2.oldest .any = some 1 := by
      rw [oldest_eq]
      cases hb : Slots.best (fun i => (c2.segments i).valid)
          (fun i j => decide ((c2.segments i).token.toNat < (c2.segments j).token.toNat)) with
      | none => exact absurd ((Slots.best_none.1 hb 1).symm.trans hsecond.1) Bool.false_ne_true
      | some i =>
        rcases hv2 i (Slots.best_some hb) with rfl | rfl
        · have hle := Slots.best_least (fun i => (c2.segments i).token.toNat) hb hsecond.1
          rw [hzero, hsecond.2.1, hnext] at hle
          exact absurd hle (by rw [show (1 : UInt64).toNat = 1 from rfl]; omega)
        · rfl
    -- the first of the row starts at the highest acknowledgement, the second segment one behind it
    obtain ⟨rest, rfl⟩ : ∃ rest, order = 1 :: rest := by
      have hhead : some 1 = order.head? := hfirst.symm.trans hold
      cases order with
      | nil => cases hhead
      | cons j rest => exact ⟨rest, by rw [Option.some.inj hhead]⟩
    obtain ⟨is, rest', -, -, hat, -⟩ := hcovers
    have hseq : num (base + n + 1) = num (base + n) := hsecond.2.2.symm.trans hat.seq
    exact absurd (Sequence.num_inj hseq (by omega) (by omega)) (by omega)

/-- **Neither condition can be left out.** -/
theorem catalog_limits :
    (¬ ∀ events, Along (step (origin 0)) (fun s e => Contiguous (origin 0) s e ∧ Fresh s e) (start {} 0) events →
      Exact (origin 0) (run (step (origin 0)) (start {} 0) events)) ∧
    ¬ ∀ events, Along (step (origin 0)) (fun s e => Contiguous (origin 0) s e ∧ Near s e) (start {} 0) events →
      Exact (origin 0) (run (step (origin 0)) (start {} 0) events) := by
  refine ⟨fun hall => far_loses (hall farEvents (by decide)), fun hall => ?_⟩
  obtain ⟨n, hn⟩ : ∃ n, n + 2 = 2 ^ 64 := ⟨2 ^ 64 - 2, by omega⟩
  obtain ⟨ha, hidle⟩ := idle_warm (origin 0) idle_start n (by omega)
  obtain ⟨ha', hno⟩ := hidle.wraps hn
  refine hno ?_
  rw [← Runs.run_append]
  exact hall _ ((Runs.along_append _ _ _).2 ⟨ha, ha'⟩)

end Catalog
end Tcp
end R4
