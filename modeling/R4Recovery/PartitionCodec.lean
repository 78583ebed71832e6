import R4Recovery.Fields
import R4Recovery.Partition
/-!
# PartitionCodec — what a committed table reads back as

`validate` accepts exactly the plans with a sound geometry and entries in range and apart (`validate_iff`).  A header the
plan writes parses to the plan's fields (`parseHeader_header`), and the array it writes parses slot for slot to the
entries' GPT fields (`readGptArray_array`).
-/
namespace R4
namespace Gpt

/-! ## Validation -/

structure EntryOk (p : Plan) (e : Entry) : Prop where
  count : e.count ≠ 0
  first : p.firstUsable ≤ e.first ∧ e.first ≤ p.lastUsable
  last : e.count - 1 ≤ p.lastUsable - e.first
  kind : entryKind p e = .ok ()

def EntriesApart (p : Plan) (e o : Entry) : Prop :=
  ¬ (e.first < o.first + o.count ∧ o.first < e.first + e.count) ∧ (p.kind = .gpt → e.uniqueGuid ≠ o.uniqueGuid)

structure EntriesOk (p : Plan) (es : List Entry) : Prop where
  each : ∀ e ∈ es, e.present = true → EntryOk p e
  apart : es.Pairwise (fun o e => o.present = true → e.present = true → EntriesApart p e o)

theorem entryRange_iff (p : Plan) (e : Entry) : entryRange p e = .ok () ↔
    e.count ≠ 0 ∧ (p.firstUsable ≤ e.first ∧ e.first ≤ p.lastUsable) ∧ e.count - 1 ≤ p.lastUsable - e.first := by
  rw [entryRange, reject_ok]
  simp only [Bool.or_eq_false_iff, beq_eq_false_iff_ne, decide_eq_false_iff_not, Nat.not_lt]
  tauto

theorem entryApart_iff (p : Plan) (e : Entry) : ∀ prior : List Entry,
    entryApart p e prior = .ok () ↔ ∀ o ∈ prior, o.present = true → EntriesApart p e o
  | [] => by simp [entryApart]
  | o :: rest => by
    rw [entryApart, List.forall_mem_cons, ← entryApart_iff p e rest]
    by_cases hp : o.present = true
    · rw [if_neg (by simp [hp])]
      by_cases h1 : e.first < o.first + o.count ∧ o.first < e.first + e.count
      · rw [if_pos h1]
        exact ⟨nofun, fun h => absurd h1 (h.1 hp).1⟩
      · rw [if_neg h1]
        by_cases h2 : p.kind = .gpt ∧ e.uniqueGuid = o.uniqueGuid
        · rw [if_pos h2]
          exact ⟨nofun, fun h => absurd h2.2 ((h.1 hp).2 h2.1)⟩
        · rw [if_neg h2]
          exact ⟨fun h => ⟨fun _ => ⟨h1, fun hk he => h2 ⟨hk, he⟩⟩, h⟩, fun h => h.2⟩
    · rw [if_pos (by simpa using hp)]
      exact ⟨fun h => ⟨fun hp' => absurd hp' hp, h⟩, fun h => h.2⟩

theorem validateEntries_iff (p : Plan) : ∀ rest prior : List Entry,
    validateEntries p prior rest = .ok () ↔
      EntriesOk p rest ∧ ∀ e ∈ rest, e.present = true → ∀ o ∈ prior, o.present = true → EntriesApart p e o
  | [], prior => by
    rw [validateEntries]
    exact ⟨fun _ => ⟨⟨by simp, List.Pairwise.nil⟩, by simp⟩, fun _ => rfl⟩
  | e :: rest, prior => by
    have ih := validateEntries_iff p rest (prior ++ [e])
    have hsplit : (∀ x ∈ rest, x.present = true → ∀ o ∈ prior ++ [e], o.present = true → EntriesApart p x o) ↔
        (∀ x ∈ rest, x.present = true → ∀ o ∈ prior, o.present = true → EntriesApart p x o) ∧
        (∀ x ∈ rest, e.present = true → x.present = true → EntriesApart p x e) := by
      constructor
      · intro h
        exact ⟨fun x hx hp o ho => h x hx hp o (by simp [ho]), fun x hx he hp => h x hx hp e (by simp) he⟩
      · rintro ⟨h1, h2⟩ x hx hp o ho hop
        rcases List.mem_append.1 ho with ho | ho
        · exact h1 x hx hp o ho hop
        · obtain rfl := List.mem_singleton.1 ho
          exact h2 x hx hop hp
    rw [validateEntries]
    by_cases hp : e.present = true
    · rw [if_neg (by simp [hp])]
      simp only [Except.bind_ok]
      constructor
      · rintro ⟨_, h1, _, h2, _, h3, h4⟩
        obtain ⟨hok, hprior⟩ := ih.1 h4
        obtain ⟨hp1, hp2⟩ := hsplit.1 hprior
        obtain ⟨hc, hf, hl⟩ := (entryRange_iff p e).1 h1
        refine ⟨⟨List.forall_mem_cons.2 ⟨fun _ => ⟨hc, hf, hl, h2⟩, hok.each⟩, List.pairwise_cons.2 ⟨hp2, hok.apart⟩⟩, ?_⟩
        exact List.forall_mem_cons.2 ⟨fun _ => (entryApart_iff p e prior).1 h3, hp1⟩
      · rintro ⟨hok, hprior⟩
        obtain ⟨he, heach⟩ := List.forall_mem_cons.1 hok.each
        obtain ⟨h1, h2⟩ := List.pairwise_cons.1 hok.apart
        obtain ⟨h3, h4⟩ := List.forall_mem_cons.1 hprior
        have hen := he hp
        exact ⟨(), (entryRange_iff p e).2 ⟨hen.count, hen.first, hen.last⟩, (), hen.kind, (),
          (entryApart_iff p e prior).2 (h3 hp), ih.2 ⟨⟨heach, h2⟩, hsplit.2 ⟨h4, h1⟩⟩⟩
    · rw [if_pos (by simpa using hp), ih]
      constructor
      · rintro ⟨hok, hprior⟩
        obtain ⟨hp1, hp2⟩ := hsplit.1 hprior
        exact ⟨⟨List.forall_mem_cons.2 ⟨fun h => absurd h hp, hok.each⟩,
          List.pairwise_cons.2 ⟨fun x _ h => absurd h hp, hok.apart⟩⟩,
          List.forall_mem_cons.2 ⟨fun h => absurd h hp, hp1⟩⟩
      · rintro ⟨hok, hprior⟩
        obtain ⟨-, heach⟩ := List.forall_mem_cons.1 hok.each
        obtain ⟨-, hap⟩ := List.pairwise_cons.1 hok.apart
        obtain ⟨-, hpr⟩ := List.forall_mem_cons.1 hprior
        exact ⟨⟨heach, hap⟩, hsplit.2 ⟨hpr, fun x _ h => absurd h hp⟩⟩

/-- **What `validate` accepts.** -/
theorem validate_iff (p : Plan) :
    p.validate = .ok () ↔ geometryOk p = true ∧ kindOk p = true ∧ EntriesOk p p.live := by
  unfold Plan.validate
  simp only [Except.bind_ok, reject_ok, exists_const, Bool.not_eq_false', validateEntries_iff]
  exact ⟨fun h => ⟨h.1, h.2.1, h.2.2.1⟩, fun h => ⟨h.1, h.2.1, h.2.2, by simp⟩⟩

theorem geometryOk_iff (p : Plan) : geometryOk p = true ↔ 3 ≤ p.sectors ∧ p.sectors ≤ (2 ^ 64 - 1) / 512 ∧
    p.firstUsable ≠ 0 ∧ p.firstUsable ≤ p.lastUsable ∧ p.lastUsable < p.sectors ∧ p.entryCount ≤ 128 := by
  unfold geometryOk maxEntries
  rw [Bool.not_eq_true']
  simp only [Bool.or_eq_false_iff, decide_eq_false_iff_not, beq_eq_false_iff_ne, Nat.not_lt, Nat.not_le, and_assoc]

theorem kindOk_gpt_iff {p : Plan} (hk : p.kind = .gpt) : kindOk p = true ↔ p.diskGuid ≠ Guid.zero ∧ p.entryCount ≠ 0 ∧
    1 < p.primaryArray ∧ p.primaryArray < p.firstUsable ∧ arraySectors p.entryCount ≤ p.firstUsable - p.primaryArray ∧
    p.lastUsable < p.backupArray ∧ p.backupArray < p.sectors - 1 ∧
    arraySectors p.entryCount ≤ p.sectors - 1 - p.backupArray := by
  rw [kindOk, hk]
  simp only [Bool.and_eq_true]
  rw [Bool.not_eq_true', Bool.not_eq_true']
  simp only [Bool.or_eq_false_iff, decide_eq_false_iff_not, beq_eq_false_iff_ne, Nat.not_lt, Nat.not_le, and_assoc]

/-! ## Words in buffers -/

theorem guidAt_of_slice {b : Bytes} {off : Nat} {g : Guid} (h : slice b off 16 = g.toList) : guidAt b off = g := by
  refine Vector.ext (fun i hi => ?_)
  have hi' : (slice b off 16)[i]? = g.toList[i]? := by rw [h]
  rw [getElem?_slice, if_pos hi, Vector.getElem?_toList, Vector.getElem?_eq_getElem hi] at hi'
  rw [guidAt, Vector.getElem_ofFn]
  show b.getD (off + i) 0 = g[i]
  rw [List.getD_eq_getElem?_getD, hi']
  rfl

theorem getLe_put {b : Bytes} {off w n : Nat} (h : off + w ≤ b.length) (hn : n < 256 ^ w) :
    getLe (put b off (leBytes w n)) off w = n := by
  rw [getLe, slice_put (length_leBytes w n) h, leNat_leBytes_of_lt hn]

theorem getLe_put_off {b : Bytes} {off off' w : Nat} {v : Bytes} (h : off + w ≤ off' ∨ off' + v.length ≤ off) :
    getLe (put b off' v) off w = getLe b off w := by
  rw [getLe, getLe, slice_put_off h]

/-! ## Headers -/

section Header

variable (p : Plan) (current other entries : Nat) (checksum : UInt32)

@[simp] theorem length_headerBody : (p.headerBody current other entries checksum).length = 512 := by
  simp [Plan.headerBody]

@[simp] theorem length_header : (p.header current other entries checksum).length = 512 := by
  simp [Plan.header]

theorem slice_header {off len : Nat} (h : off + len ≤ 16 ∨ 20 ≤ off) :
    slice (p.header current other entries checksum) off len = slice (p.headerBody current other entries checksum) off len := by
  rw [Plan.header]
  exact slice_put_off (by simpa using h)

theorem slice_headerBody_zero {off len : Nat} (h : 16 ≤ off ∧ off + len ≤ 24) :
    slice (p.headerBody current other entries checksum) off len = zeros len := by
  unfold Plan.headerBody
  repeat rw [slice_put_off (by simp [ascii]; omega)]
  exact slice_zeros (by omega)

theorem headerBody_signature : slice (p.headerBody current other entries checksum) 0 8 = ascii "EFI PART" := by
  unfold Plan.headerBody
  iterate 11 rw [slice_put_off (by simp)]
  exact slice_put (by simp [ascii]) (by simp)

theorem headerBody_words (h1 : current < 2 ^ 64) (h2 : other < 2 ^ 64) (h3 : p.firstUsable < 2 ^ 64)
    (h4 : p.lastUsable < 2 ^ 64) (h5 : entries < 2 ^ 64) (h6 : p.entryCount < 2 ^ 32) :
    getLe (p.headerBody current other entries checksum) 8 4 = 0x10000 ∧
    getLe (p.headerBody current other entries checksum) 12 4 = 92 ∧
    getLe (p.headerBody current other entries checksum) 24 8 = current ∧
    getLe (p.headerBody current other entries checksum) 32 8 = other ∧
    getLe (p.headerBody current other entries checksum) 40 8 = p.firstUsable ∧
    getLe (p.headerBody current other entries checksum) 48 8 = p.lastUsable ∧
    getLe (p.headerBody current other entries checksum) 72 8 = entries ∧
    getLe (p.headerBody current other entries checksum) 80 4 = p.entryCount ∧
    getLe (p.headerBody current other entries checksum) 84 4 = 128 ∧
    getLe (p.headerBody current other entries checksum) 88 4 = checksum.toNat := by
  have hc : checksum.toNat < 2 ^ 32 := checksum.toNat_lt
  unfold Plan.headerBody
  refine ⟨?_, ?_, ?_, ?_, ?_, ?_, ?_, ?_, ?_, ?_⟩
  · iterate 10 rw [getLe_put_off (by simp)]
    exact getLe_put (by simp) (by norm_num)
  · iterate 9 rw [getLe_put_off (by simp)]
    exact getLe_put (by simp) (by norm_num)
  · iterate 8 rw [getLe_put_off (by simp)]
    exact getLe_put (by simp) (by omega)
  · iterate 7 rw [getLe_put_off (by simp)]
    exact getLe_put (by simp) (by omega)
  · iterate 6 rw [getLe_put_off (by simp)]
    exact getLe_put (by simp) (by omega)
  · iterate 5 rw [getLe_put_off (by simp)]
    exact getLe_put (by simp) (by omega)
  · iterate 3 rw [getLe_put_off (by simp)]
    exact getLe_put (by simp) (by omega)
  · iterate 2 rw [getLe_put_off (by simp)]
    exact getLe_put (by simp) (by omega)
  · rw [getLe_put_off (by simp)]
    exact getLe_put (by simp) (by norm_num)
  · exact getLe_put (by simp) (by omega)

theorem headerBody_guid : slice (p.headerBody current other entries checksum) 56 16 = p.diskGuid.toList := by
  unfold Plan.headerBody
  iterate 4 rw [slice_put_off (by simp)]
  exact slice_put (by simp) (by simp)

theorem header_crc : headerCrc (p.header current other entries checksum) 92 =
    crc (slice (p.headerBody current other entries checksum) 0 92) := by
  rw [headerCrc_eq, slice_header p _ _ _ _ (by omega), slice_header p _ _ _ _ (by omega)]
  refine congrArg crc ?_
  rw [← slice_headerBody_zero p current other entries checksum ⟨Nat.le_refl 16, by omega⟩]
  generalize p.headerBody current other entries checksum = b
  have h1 := slice_append b 0 16 4
  have h2 := slice_append b 0 20 72
  rw [h2, h1]

/-- The fields a header of the plan holds. -/
def Plan.fields : Header :=
  { diskGuid := p.diskGuid, currentLba := current, backupLba := other, firstUsableLba := p.firstUsable
    lastUsableLba := p.lastUsable, entriesLba := entries, entryCount := p.entryCount, entrySize := 128
    entriesCrc32 := checksum.toNat }

variable {p current other entries checksum}

theorem headerFields_header (h1 : current < 2 ^ 64) (h2 : other < 2 ^ 64) (h3 : p.firstUsable < 2 ^ 64)
    (h4 : p.lastUsable < 2 ^ 64) (h5 : entries < 2 ^ 64) (h6 : p.entryCount < 2 ^ 32) :
    headerFields (p.header current other entries checksum) = p.fields current other entries checksum := by
  obtain ⟨-, -, w1, w2, w3, w4, w5, w6, w7, w8⟩ := headerBody_words p current other entries checksum h1 h2 h3 h4 h5 h6
  unfold getLe at w1 w2 w3 w4 w5 w6 w7 w8
  have hg := guidAt_of_slice ((slice_header p current other entries checksum (by omega)).trans
    (headerBody_guid p current other entries checksum))
  unfold headerFields getLe
  simp only [slice_header p current other entries checksum (.inr (show 20 ≤ 24 by omega)),
    slice_header p current other entries checksum (.inr (show 20 ≤ 32 by omega)),
    slice_header p current other entries checksum (.inr (show 20 ≤ 40 by omega)),
    slice_header p current other entries checksum (.inr (show 20 ≤ 48 by omega)),
    slice_header p current other entries checksum (.inr (show 20 ≤ 72 by omega)),
    slice_header p current other entries checksum (.inr (show 20 ≤ 80 by omega)),
    slice_header p current other entries checksum (.inr (show 20 ≤ 84 by omega)),
    slice_header p current other entries checksum (.inr (show 20 ≤ 88 by omega)), w1, w2, w3, w4, w5, w6, w7, w8, hg]
  rfl

/-- **A header the plan writes parses to the plan's fields**, in the place its array allows. -/
theorem parseHeader_header {sectors : Nat} (hs : 3 ≤ sectors ∧ sectors < 2 ^ 64) (hcur : current < 2 ^ 64)
    (hother : other < sectors ∧ other ≠ current) (husable : p.firstUsable ≤ p.lastUsable ∧ p.lastUsable < sectors)
    (hcount : p.entryCount ≠ 0 ∧ p.entryCount ≤ 128)
    (hplace : ArrayPlaced (p.fields current other entries checksum) current sectors) :
    parseHeader (p.header current other entries checksum) current sectors =
      .ok (p.fields current other entries checksum) := by
  have hsec : (p.fields current other entries checksum).entrySectors = arraySectors p.entryCount := rfl
  have hpos : arraySectors p.entryCount ≠ 0 := by unfold arraySectors; omega
  have hent : entries < sectors ∧ arraySectors p.entryCount ≤ sectors - entries := by
    unfold ArrayPlaced at hplace
    rw [hsec] at hplace
    simp only [Plan.fields] at hplace
    omega
  obtain ⟨w0, w00, -⟩ := headerBody_words p current other entries checksum hcur (by omega) (by omega) (by omega) (by omega)
    (by omega)
  have hsize : getLe (p.header current other entries checksum) 12 4 = 92 := by
    rw [getLe, slice_header p _ _ _ _ (by omega)]; exact w00
  have hfields : headerFields (p.header current other entries checksum) = p.fields current other entries checksum :=
    headerFields_header hcur (by omega) (by omega) (by omega) (by omega) (by omega)
  rw [parseHeader_iff]
  refine ⟨⟨by simp, ?_, ?_, by rw [hsize]; omega, ?_, ?_, ?_, ?_, ?_, ?_, ?_, ?_, ?_⟩, hfields.symm⟩
  · rw [slice_header p _ _ _ _ (by omega), headerBody_signature]
  · rw [getLe, slice_header p _ _ _ _ (by omega)]; exact w0
  · rw [getLe, slice_header p _ _ _ _ (by omega), slice_headerBody_zero p _ _ _ _ (by omega), leNat_zeros]
  · rw [hsize, header_crc, Plan.header, getLe_put (by simp) (crc _).toNat_lt]
  all_goals rw [hfields]
  · exact ⟨hs.1, rfl⟩
  · exact hother
  · exact husable
  · exact ⟨hcount.1, by show p.entryCount ≤ 4096; omega⟩
  · exact ⟨Nat.le_refl 128, show 128 ≤ 512 by omega, Nat.mod_self 128⟩
  · exact ⟨hpos, hent.1, hent.2⟩
  · exact hplace

theorem header_size (h1 : current < 2 ^ 64) (h2 : other < 2 ^ 64) (h3 : p.firstUsable < 2 ^ 64)
    (h4 : p.lastUsable < 2 ^ 64) (h5 : entries < 2 ^ 64) (h6 : p.entryCount < 2 ^ 32) :
    getLe (p.header current other entries checksum) 12 4 = 92 := by
  rw [getLe, slice_header p _ _ _ _ (by omega)]
  exact (headerBody_words p current other entries checksum h1 h2 h3 h4 h5 h6).2.1

end Header

/-! ## Entries -/

/-- The fields a GPT entry stores. -/
def Entry.gptPart (e : Entry) : Entry := { e with mbrType := 0, active := false, mbrOriginal := Vector.replicate 16 0 }

/-- An absent slot is empty. -/
def SlotsEmpty (es : List Entry) : Prop := ∀ e ∈ es, e.present = false → e = {}

@[simp] theorem length_gptEntry (e : Entry) : (gptEntry e).length = 128 := by
  unfold gptEntry
  split <;> simp

theorem slice_put_zero {b v : Bytes} {off len : Nat} (h : off + len ≤ v.length) (hb : v.length ≤ b.length) :
    slice (put b 0 v) off len = slice v off len := by
  have h1 : slice (slice (put b 0 v) 0 v.length) off len = slice (put b 0 v) (0 + off) len := slice_slice _ h
  rw [slice_put rfl (by omega), Nat.zero_add] at h1
  exact h1.symm

theorem nameAt_of_slice {b : Bytes} {off : Nat} {name : Name}
    (h : slice b off 72 = name.toList.flatMap (fun unit => leBytes 2 unit.toNat)) : nameAt b off = name := by
  refine Vector.ext (fun i hi => ?_)
  rw [nameAt, Vector.getElem_ofFn]
  show (getLe b (off + 2 * i) 2).toUInt16 = name[i]
  have h1 : slice b (off + 2 * i) 2 = leBytes 2 name[i].toNat := by
    rw [← slice_slice b (show 2 * i + 2 ≤ 72 by omega), h, Nat.mul_comm]
    refine slice_flatMap (fun x => length_leBytes 2 x.toNat) name.toList i name[i] ?_
    rw [Vector.getElem?_toList, Vector.getElem?_eq_getElem hi]
  have h2 : name[i].toNat < 2 ^ 16 := name[i].toNat_lt
  rw [getLe, h1, leNat_leBytes_of_lt (by omega)]
  simp

theorem entryFields_gptEntry {e : Entry} (hp : e.present = true) (h1 : e.first < 2 ^ 64)
    (h2 : e.first + e.count - 1 < 2 ^ 64) :
    entryFields (gptEntry e) =
      { typeGuid := e.typeGuid, uniqueGuid := e.uniqueGuid, nameUtf16 := e.name, partitionType := classifyType e.typeGuid
        firstLba := e.first, lastLba := e.first + e.count - 1, attributes := e.attributes } := by
  have hname : (e.name.toList.flatMap (fun unit => leBytes 2 unit.toNat)).length = 72 := by
    rw [length_flatMap_const (fun x : UInt16 => length_leBytes 2 x.toNat)]; simp
  have hb : gptEntry e = put (put (put (put (put (put (zeros 128) 0 e.typeGuid.toList) 16 e.uniqueGuid.toList) 32
      (leBytes 8 e.first)) 40 (leBytes 8 (e.first + e.count - 1))) 48 (leBytes 8 e.attributes.toNat)) 56
      (e.name.toList.flatMap (fun unit => leBytes 2 unit.toNat)) := by
    rw [gptEntry, if_neg (by simp [hp])]
  have g1 : guidAt (gptEntry e) 0 = e.typeGuid := by
    refine guidAt_of_slice ?_
    rw [hb]
    iterate 5 rw [slice_put_off (by simp)]
    exact slice_put (by simp) (by simp)
  have g2 : guidAt (gptEntry e) 16 = e.uniqueGuid := by
    refine guidAt_of_slice ?_
    rw [hb]
    iterate 4 rw [slice_put_off (by simp)]
    exact slice_put (by simp) (by simp)
  have w1 : getLe (gptEntry e) 32 8 = e.first := by
    rw [hb]
    iterate 3 rw [getLe_put_off (by simp)]
    exact getLe_put (by simp) (by omega)
  have w2 : getLe (gptEntry e) 40 8 = e.first + e.count - 1 := by
    rw [hb]
    iterate 2 rw [getLe_put_off (by simp)]
    exact getLe_put (by simp) (by omega)
  have w3 : getLe (gptEntry e) 48 8 = e.attributes.toNat := by
    have := e.attributes.toNat_lt
    rw [hb, getLe_put_off (by simp)]
    exact getLe_put (by simp) (by omega)
  have hn : nameAt (gptEntry e) 56 = e.name := by
    refine nameAt_of_slice ?_
    rw [hb]
    exact slice_put hname (by simp)
  unfold entryFields
  rw [g1, g2, w1, w2, w3, hn]
  simp

theorem guidAt_zeros : guidAt (zeros 128) 0 = Guid.zero := by
  refine guidAt_of_slice ?_
  rw [slice_zeros (by omega)]
  rfl

/-- **An entry reads back as its GPT fields.** -/
theorem readGptSlot_gptEntry {p : Plan} {h : Header} {e : Entry} (hs : p.sectors < 2 ^ 64) (hl : p.lastUsable < p.sectors)
    (hh : h.firstUsableLba = p.firstUsable ∧ h.lastUsableLba = p.lastUsable ∧ h.entrySize = 128) (hk : p.kind = .gpt)
    (hok : e.present = true → EntryOk p e) (hempty : e.present = false → e = {}) :
    readGptSlot h (gptEntry e) = .ok e.gptPart := by
  cases hp : e.present with
  | false =>
    rw [hempty hp]
    have hz : gptEntry {} = zeros 128 := rfl
    have hparse : parsePartition (zeros 128) h = .ok none := by
      rw [parsePartition, if_neg (by rw [hh.2.2]; simp [minimumEntrySize]), if_pos guidAt_zeros]
    rw [hz, readGptSlot, hparse]
    rfl
  | true =>
    obtain ⟨hc, hf, hlast, hkind⟩ := hok hp
    rw [entryKind, hk] at hkind
    simp only [reject_ok, Bool.or_eq_false_iff, beq_eq_false_iff_ne] at hkind
    have hfields := entryFields_gptEntry hp (by omega) (by omega)
    have htype : guidAt (gptEntry e) 0 = e.typeGuid := congrArg Partition.typeGuid hfields
    have hparse : parsePartition (gptEntry e) h = .ok (some (entryFields (gptEntry e))) := by
      rw [parsePartition, if_neg (by rw [hh.2.2]; simp [minimumEntrySize]), if_neg (by rw [htype]; exact hkind.1.1)]
      simp only [hfields, hh.1, hh.2.1]
      rw [if_neg (by omega)]
    have hcount : e.first + e.count - 1 - e.first + 1 = e.count := by omega
    rw [readGptSlot, hparse, hfields]
    show Except.ok ({ present := true, first := e.first, count := e.first + e.count - 1 - e.first + 1
                      typeGuid := e.typeGuid, uniqueGuid := e.uniqueGuid, attributes := e.attributes, name := e.name } :
      Entry) = .ok e.gptPart
    rw [hcount, Entry.gptPart, hp]

theorem mapM_ok {α β : Type} {f : α → Except Error β} {g : α → β} : ∀ {L : List α}, (∀ x ∈ L, f x = .ok (g x)) →
    L.mapM f = .ok (L.map g)
  | [], _ => rfl
  | x :: L, h => by
    rw [List.mapM_cons, h x (by simp), mapM_ok (fun y hy => h y (by simp [hy]))]
    rfl

theorem length_array (p : Plan) : p.array.length = 512 * arraySectors p.entryCount := by
  rw [Plan.array, length_put, length_zeros]

theorem length_live {p : Plan} (h : p.entryCount ≤ 128) : p.live.length = p.entryCount := by
  simp [Plan.live]; omega

theorem arraySlots_array {p : Plan} (h : p.entryCount ≤ 128) : arraySlots p.array p.entryCount = p.live.map gptEntry := by
  have hlen := length_live h
  have hfm : (p.live.flatMap gptEntry).length = p.entryCount * 128 := by
    rw [length_flatMap_const length_gptEntry, hlen]
  refine List.ext_getElem? (fun i => ?_)
  rw [arraySlots, List.getElem?_map, List.getElem?_map]
  by_cases hi : i < p.entryCount
  · rw [List.getElem?_range hi, Option.map_some, List.getElem?_eq_getElem (by omega), Option.map_some, Plan.array,
      slice_put_zero (by rw [hfm]; omega) (by rw [hfm, length_zeros, arraySectors]; omega)]
    congr 1
    exact slice_flatMap length_gptEntry p.live i _ (List.getElem?_eq_getElem (by omega))
  · rw [List.getElem?_eq_none (by simpa using hi), List.getElem?_eq_none (by omega)]
    rfl

/-- **The array the plan writes parses slot for slot.** -/
theorem readGptArray_array {p : Plan} {h : Header} (hs : p.sectors < 2 ^ 64) (hl : p.lastUsable < p.sectors)
    (hcount : p.entryCount ≤ 128)
    (hh : h.firstUsableLba = p.firstUsable ∧ h.lastUsableLba = p.lastUsable ∧ h.entrySize = 128 ∧ h.entryCount = p.entryCount)
    (hk : p.kind = .gpt) (hok : EntriesOk p p.live) (hempty : SlotsEmpty p.live) :
    readGptArray h p.array = .ok (p.live.map Entry.gptPart) := by
  rw [readGptArray, hh.2.2.2, arraySlots_array hcount, List.mapM_map]
  exact mapM_ok (fun e he => readGptSlot_gptEntry hs hl ⟨hh.1, hh.2.1, hh.2.2.1⟩ hk (hok.each e he) (hempty e he))

end Gpt
end R4
