import R4Recovery.GptCopy
/-!
# PartitionRead — what `Plan.read` accepts

Two intact copies of one table behind a protective MBR are read into a plan of that table (`Reads.planRead`).  The other
way round, a GPT plan that was read says that both copies on the disk are intact and describe it (`planRead_gpt`).
-/
namespace R4
namespace Gpt

/-! ## Sector zero -/

/-- Sector zero of a GPT disk: signed, one protective entry over the whole disk, no other. -/
structure Protective (sectors : Nat) (mbr : Bytes) : Prop where
  signed : mbr.getD 510 0 = 0x55 ∧ mbr.getD 511 0 = 0xaa
  one : ((mbrSlots mbr).filter (fun bytes => slotType bytes == 0xee)).length = 1
  only : ((mbrSlots mbr).filter (fun bytes => slotType bytes != 0)).length = 1
  covers : ∀ bytes ∈ mbrSlots mbr, slotType bytes = 0xee → protectiveOk sectors bytes = true

theorem mapM_checkSlot {sectors : Nat} : ∀ {L : List Bytes} {flags : List Bool}, L.mapM (checkSlot sectors) = some flags →
    (L.filter (fun bytes => slotType bytes == 0xee)).length = flags.countP (· == true) ∧
    (L.filter (fun bytes => slotType bytes != 0)).length = flags.countP (· == true) ∧
    ∀ bytes ∈ L, slotType bytes = 0xee → protectiveOk sectors bytes = true
  | [], flags, h => by
    cases h
    exact ⟨rfl, rfl, by simp⟩
  | raw :: L, flags, h => by
    rw [List.mapM_cons] at h
    obtain ⟨flag, hf, h⟩ := Option.bind_eq_some_iff.1 h
    obtain ⟨rest, hr, h⟩ := Option.bind_eq_some_iff.1 h
    cases h
    obtain ⟨h1, h2, h3⟩ := mapM_checkSlot hr
    unfold checkSlot at hf
    split at hf
    · rename_i ht
      split at hf
      · cases hf
      · cases hf
        have he : (slotType raw == 0xee) = false := by rw [ht]; rfl
        have hn : (slotType raw != 0) = false := by rw [ht]; rfl
        rw [List.filter_cons, List.filter_cons, he, hn, List.countP_cons]
        refine ⟨h1, h2, List.forall_mem_cons.2 ⟨fun hc => ?_, h3⟩⟩
        rw [ht] at hc
        cases hc
    · rename_i ht
      split at hf
      · cases hf
      · rename_i hs
        cases hf
        push Not at hs
        obtain ⟨hee, -, hok⟩ := hs
        have he : (slotType raw == 0xee) = true := by rw [hee]; rfl
        have hn : (slotType raw != 0) = true := by simpa using ht
        rw [List.filter_cons, List.filter_cons, he, hn, List.countP_cons]
        refine ⟨?_, ?_, List.forall_mem_cons.2 ⟨fun _ => by simpa using hok, h3⟩⟩
        · simpa using h1
        · simpa using h2

theorem checkMbr_protective {mbr : Bytes} {sectors : Nat} (h : checkMbr mbr sectors = .ok ()) : Protective sectors mbr := by
  unfold checkMbr at h
  split at h
  · cases h
  · rename_i hs
    push Not at hs
    split at h
    · cases h
    · rename_i flags hf
      obtain ⟨h1, h2, h3⟩ := mapM_checkSlot hf
      have hc : flags.countP (· == true) = 1 := by simpa using reject_ok.1 h
      exact ⟨hs, by rw [h1, hc], by rw [h2, hc], h3⟩

/-! ## The hash of the source spans -/

theorem Reads.readSpans {d : Disk} {dev : Device} (hv : dev.validate = .ok ()) : ∀ {spans : List (Nat × Nat)} {acc : Bytes},
    (∀ s ∈ spans, s.1 + s.2 ≤ dev.sectors) →
      Reads d (readSpans dev spans acc) (acc ++ spans.flatMap (fun s => d.read (512 * s.1) (512 * s.2)))
  | [], acc, _ => by
    rw [List.flatMap_nil, List.append_nil]
    exact Reads.pure acc
  | (first, count) :: rest, acc, h => by
    obtain ⟨h1, h2⟩ := List.forall_mem_cons.1 h
    rw [Gpt.readSpans, List.flatMap_cons, ← List.append_assoc]
    by_cases hc : count = 0
    · rw [if_pos hc, hc, Nat.mul_zero]
      have hnil : d.read (512 * first) 0 = [] := rfl
      rw [hnil, List.append_nil]
      exact Reads.readSpans hv h2
    · rw [if_neg hc]
      exact Reads.bind (Reads.read hv ⟨by omega, h1⟩) (Reads.readSpans hv h2)

theorem Writes.readSpans (dev : Device) : ∀ (spans : List (Nat × Nat)) (acc : Bytes), Writes (readSpans dev spans acc) []
  | [], acc => Writes.pure acc
  | (first, count) :: rest, acc => by
    rw [Gpt.readSpans]
    exact Writes.ite (fun _ => Writes.readSpans dev rest acc)
      (fun _ => Writes.bindNil (Writes.read dev _ _) (fun bytes => Writes.readSpans dev rest (acc ++ bytes)))

section Hash

variable {sha : Bytes → Bytes}

theorem Writes.hash (source : Source) (dev : Device) (scratchLen : Nat) : Writes (source.hash sha dev scratchLen) [] :=
  Writes.bindNil (Writes.refuse _ _) (fun _ => Writes.bindNil (Writes.readSpans dev _ _) (fun _ => Writes.pure _))

/-! ## Entries of a header and entries of a plan -/

theorem readGptArray_spec {h : Header} {array : Bytes} {es : List Entry} (hr : readGptArray h array = .ok es) :
    es.length = h.entryCount ∧ ∀ e ∈ es, ∃ raw, readGptSlot h raw = .ok e := by
  have key : ∀ {L : List Bytes} {es : List Entry}, L.mapM (readGptSlot h) = .ok es →
      es.length = L.length ∧ ∀ e ∈ es, ∃ raw, readGptSlot h raw = .ok e := by
    intro L
    induction L with
    | nil => intro es hes; cases hes; exact ⟨rfl, by simp⟩
    | cons raw L ih =>
      intro es hes
      obtain ⟨e, es', he, hes', rfl⟩ := mapM_cons_ok.1 hes
      obtain ⟨h1, h2⟩ := ih hes'
      exact ⟨by simp [h1], List.forall_mem_cons.2 ⟨⟨raw, he⟩, h2⟩⟩
  obtain ⟨h1, h2⟩ := key hr
  exact ⟨by rw [h1]; simp [arraySlots], h2⟩

/-- The plan's view of a header's identity and usable range. -/
structure Plan.Describes (p : Plan) (h : Header) : Prop where
  kind : p.kind = .gpt
  guid : p.diskGuid = h.diskGuid
  usable : p.firstUsable = h.firstUsableLba ∧ p.lastUsable = h.lastUsableLba

/-- **`Plan.validate` and `validateCopy` agree on the entries of an array.** -/
theorem entriesOk_iff {p : Plan} {h : Header} {array : Bytes} {es : List Entry} (hp : p.Describes h)
    (hr : readGptArray h array = .ok es) : EntriesOk p es ↔ GptEntriesOk h es := by
  have hspec := (readGptArray_spec hr).2
  constructor
  · intro hok
    refine ⟨fun e he hpe => ?_, hok.apart.imp (fun h1 h2 h3 => ⟨(h1 h2 h3).1, (h1 h2 h3).2 hp.kind⟩)⟩
    have hk := (hok.each e he hpe).kind
    rw [entryKind, hp.kind] at hk
    simp only [reject_ok, Bool.or_eq_false_iff, beq_eq_false_iff_ne] at hk
    exact ⟨hk.1.2, by rw [← hp.guid]; exact hk.2⟩
  · intro hok
    refine ⟨fun e he hpe => ?_, hok.apart.imp (fun h1 h2 h3 => ⟨(h1 h2 h3).1, fun _ => (h1 h2 h3).2⟩)⟩
    obtain ⟨raw, hraw⟩ := hspec e he
    obtain ⟨-, hs, -⟩ := readGptSlot_spec hraw
    obtain ⟨ht, hc, hf, hl, hlast⟩ := hs hpe
    obtain ⟨hz, hd⟩ := hok.guid e he hpe
    refine ⟨hc, by rw [hp.usable.1, hp.usable.2]; exact ⟨hf, hl⟩, by rw [hp.usable.2]; exact hlast, ?_⟩
    rw [entryKind, hp.kind]
    simp only [reject_ok, Bool.or_eq_false_iff, beq_eq_false_iff_ne]
    exact ⟨⟨ht, hz⟩, by rw [hp.guid]; exact hd⟩

theorem getElem_setEntries (es : List Entry) {i : Nat} (hi : i < 128) : (setEntries es)[i] = es.getD i {} := by
  rw [setEntries, Vector.getElem_ofFn]

theorem live_setEntries {p : Plan} {es : List Entry} (he : p.entries = setEntries es) (hc : es.length = p.entryCount)
    (hm : p.entryCount ≤ 128) : p.live = es := by
  refine List.ext_getElem? (fun i => ?_)
  rw [Plan.live, he, List.getElem?_take]
  by_cases hi : i < p.entryCount
  · rw [if_pos hi, Vector.getElem?_toList, Vector.getElem?_eq_getElem (by omega), getElem_setEntries es (by omega),
      List.getD_eq_getElem?_getD, List.getElem?_eq_getElem (by omega)]
    rfl
  · rw [if_neg hi, List.getElem?_eq_none (by omega)]

/-! ## Reading an intact table -/

/-- The plan of a table behind two headers. -/
def gptPlan (sectors : Nat) (mbr : Bytes) (h b : Header) (es : List Entry) : Plan :=
  { basePlan sectors mbr with
    kind := .gpt, diskGuid := h.diskGuid, firstUsable := h.firstUsableLba
    lastUsable := h.lastUsableLba, entryCount := h.entryCount
    primaryArray := h.entriesLba, backupArray := b.entriesLba
    source.spans := (basePlan sectors mbr).source.spans ++ [(h.entriesLba, h.entrySectors), (b.entriesLba, b.entrySectors)]
    entries := setEntries es }

theorem entrySectors_congr {h b : Header} (h1 : h.entryCount = b.entryCount) (h2 : h.entrySize = b.entrySize) :
    h.entrySectors = b.entrySectors ∧ h.entryBytes = b.entryBytes := by
  unfold Header.entrySectors Header.entryBytes
  rw [h1, h2]
  exact ⟨rfl, rfl⟩

/-- The two copies on the disk are of one table. -/
structure Agreeing (sectors : Nat) (d : Disk) (h b : Header) (es : List Entry) : Prop where
  protective : Protective sectors (d.read 0 512)
  primary : Intact sectors d 1 h es
  backup : Intact sectors d (sectors - 1) b es
  agree : gptCopiesDiffer h b = false
  used : slice (arrayOf d h) 0 h.entryBytes = slice (arrayOf d b) 0 h.entryBytes

theorem gptCopiesDiffer_iff (h b : Header) : gptCopiesDiffer h b = false ↔
    h.diskGuid = b.diskGuid ∧ h.firstUsableLba = b.firstUsableLba ∧ h.lastUsableLba = b.lastUsableLba ∧
    h.entryCount = b.entryCount ∧ h.entrySize = b.entrySize ∧ h.entriesCrc32 = b.entriesCrc32 := by
  unfold gptCopiesDiffer
  simp only [Bool.or_eq_false_iff, bne_eq_false_iff_eq, and_assoc]

theorem layoutBad_iff (sector : Bytes) (h : Header) : layoutBad sector h = false ↔
    getLe sector 12 4 = 92 ∧ h.entrySize = 128 ∧ h.entryCount ≤ 128 := by
  unfold layoutBad maxEntries
  simp only [Bool.or_eq_false_iff, bne_eq_false_iff_eq, decide_eq_false_iff_not, Nat.not_lt, and_assoc]

theorem gptLayoutBad_iff (a b : Bytes) (h : Header) : gptLayoutBad a b h = false ↔
    getLe a 12 4 = 92 ∧ getLe b 12 4 = 92 ∧ h.entrySize = 128 ∧ h.entryCount ≠ 0 ∧ h.entryCount ≤ 128 := by
  unfold gptLayoutBad maxEntries
  simp only [Bool.or_eq_false_iff, bne_eq_false_iff_eq, beq_eq_false_iff_ne, decide_eq_false_iff_not, Nat.not_lt, and_assoc]

theorem Agreeing.places {sectors : Nat} {d : Disk} {h b : Header} {es : List Entry} (ha : Agreeing sectors d h b es) :
    1 < h.entriesLba ∧ h.entriesLba + h.entrySectors ≤ h.firstUsableLba ∧ h.firstUsableLba ≤ h.lastUsableLba ∧
    h.lastUsableLba < b.entriesLba ∧ b.entriesLba + h.entrySectors ≤ sectors - 1 ∧ 0 < h.entrySectors ∧ 3 ≤ sectors := by
  obtain ⟨-, hf, hl, hc, hs, -⟩ := (gptCopiesDiffer_iff h b).1 ha.agree
  obtain ⟨he, -⟩ := entrySectors_congr hc hs
  have h1 := ha.primary.header.place
  have h2 := ha.backup.header.place
  have h3 := ha.primary.header.usable
  have h4 := ha.primary.header.current
  have h5 := ha.primary.sectors_bounds
  rw [ha.primary.fields] at h1 h3
  rw [ha.backup.fields] at h2
  unfold ArrayPlaced at h1 h2
  omega

theorem gptPlan_validate {sectors : Nat} {d : Disk} {h b : Header} {es : List Entry} (hs : sectors ≤ (2 ^ 64 - 1) / 512)
    (ha : Agreeing sectors d h b es) : (gptPlan sectors (d.read 0 512) h b es).validate = .ok () := by
  obtain ⟨p1, p2, p3, p4, p5, p6, p7⟩ := ha.places
  obtain ⟨hg, hcrc, -, es', hes, hok⟩ := (validateCopy_iff _ _ _).1 ha.primary.copy
  rw [ha.primary.entries] at hes
  cases hes
  obtain ⟨-, hsize, hcount⟩ := (layoutBad_iff _ _).1 ha.primary.layout
  have hsec : h.entrySectors = arraySectors h.entryCount := by
    rw [Header.entrySectors, Header.entryBytes, hsize, arraySectors]
  have hne : h.entryCount ≠ 0 := by
    have := ha.primary.header.count
    rw [ha.primary.fields] at this
    exact this.1
  have hlen := (readGptArray_spec ha.primary.entries).1
  have hdesc : (gptPlan sectors (d.read 0 512) h b es).Describes h := ⟨rfl, rfl, rfl, rfl⟩
  have hlive : (gptPlan sectors (d.read 0 512) h b es).live = es := live_setEntries rfl hlen hcount
  refine (validate_iff _).2 ⟨?_, ?_, ?_⟩
  · refine (geometryOk_iff _).2 ?_
    simp only [gptPlan, basePlan]
    omega
  · refine (kindOk_gpt_iff rfl).2 ?_
    simp only [gptPlan, basePlan, ← hsec]
    exact ⟨hg, hne, by omega⟩
  · rw [hlive]
    exact (entriesOk_iff hdesc ha.primary.entries).2 hok

theorem Reads.readGpt {dev : Device} {d : Disk} {h b : Header} {es : List Entry} (hv : dev.validate = .ok ())
    (ha : Agreeing dev.sectors d h b es) :
    Reads d (readGpt (basePlan dev.sectors (d.read 0 512)) dev (d.read 512 512) (d.read (512 * (dev.sectors - 1)) 512))
      (gptPlan dev.sectors (d.read 0 512) h b es, arrayOf d h ++ arrayOf d b) := by
  obtain ⟨p1, p2, p3, p4, p5, p6, p7⟩ := ha.places
  obtain ⟨-, -, -, hc, hs, -⟩ := (gptCopiesDiffer_iff h b).1 ha.agree
  obtain ⟨he, -⟩ := entrySectors_congr hc hs
  obtain ⟨hl1, hsize, hcount⟩ := (layoutBad_iff _ _).1 ha.primary.layout
  obtain ⟨hl2, -, -⟩ := (layoutBad_iff _ _).1 ha.backup.layout
  obtain ⟨-, hcrc, -⟩ := (validateCopy_iff _ _ _).1 ha.primary.copy
  have hne : h.entryCount ≠ 0 := by
    have := ha.primary.header.count
    rw [ha.primary.fields] at this
    exact this.1
  have hlayout : gptLayoutBad (d.read 512 512) (d.read (512 * (dev.sectors - 1)) 512) h = false :=
    (gptLayoutBad_iff _ _ _).2 ⟨hl1, hl2, hsize, hne, hcount⟩
  have hused : (slice (d.read (512 * h.entriesLba) (512 * h.entrySectors)) 0 h.entryBytes !=
      slice (d.read (512 * b.entriesLba) (512 * h.entrySectors)) 0 h.entryBytes ||
      (crc (slice (d.read (512 * h.entriesLba) (512 * h.entrySectors)) 0 h.entryBytes)).toNat != h.entriesCrc32) = false := by
    have hu := ha.used
    simp only [arrayOf, ← he] at hu hcrc
    simp [hu, ← hcrc]
  refine Reads.bind (Reads.lift ((parseHeader_iff _ _ _ h).2 ⟨ha.primary.header, ha.primary.fields.symm⟩)) ?_
  refine Reads.bind (Reads.lift ((parseHeader_iff _ _ _ b).2 ⟨ha.backup.header, ha.backup.fields.symm⟩)) ?_
  refine Reads.bind (Reads.refuse _ hlayout) (Reads.bind (Reads.refuse _ ha.agree) ?_)
  refine Reads.bind (Reads.read hv (by omega)) (Reads.bind (Reads.read hv (by omega)) ?_)
  refine Reads.bind (Reads.refuse _ hused) (Reads.bind (Reads.lift ha.primary.entries) ?_)
  have hb : arrayOf d b = d.read (512 * b.entriesLba) (512 * h.entrySectors) := by rw [arrayOf, he]
  rw [hb]
  exact Reads.pure _

theorem Reads.readSigned {dev : Device} {d : Disk} {h b : Header} {es : List Entry} (hv : dev.validate = .ok ())
    (ha : Agreeing dev.sectors d h b es) :
    Reads d (readSigned (basePlan dev.sectors (d.read 0 512)) dev (d.read 0 512) (d.read 512 512)
      (d.read (512 * (dev.sectors - 1)) 512)) (gptPlan dev.sectors (d.read 0 512) h b es, arrayOf d h ++ arrayOf d b) := by
  obtain ⟨hsigned, hone, honly, hcov⟩ := ha.protective
  rw [Gpt.readSigned, if_pos hsigned]
  refine Reads.bind (Reads.refuse _ ?_) ?_
  · rw [List.any_eq_false]
    intro bytes hb
    obtain ⟨hm, ht⟩ := List.mem_filter.1 hb
    have hc := hcov bytes hm (by simpa using ht)
    show ¬ (!protectiveOk dev.sectors bytes) = true
    simp [hc]
  · rw [if_pos (by rw [hone]; omega)]
    refine Reads.bind (Reads.refuse _ ?_) (Reads.readGpt hv ha)
    rw [hone, honly]
    rfl

theorem Reads.planRead_of_table {dev : Device} {d : Disk} {table : Plan} {bytes : Bytes} {scratchLen : Nat}
    (hv : dev.validate = .ok ()) (h3 : 3 ≤ dev.sectors) (hlen : maxArrayBytes * 2 ≤ scratchLen ∧ scratchLen % 512 = 0)
    (ht : Reads d (Gpt.readSigned (basePlan dev.sectors (d.read 0 512)) dev (d.read 0 512) (d.read 512 512)
      (d.read (512 * (dev.sectors - 1)) 512)) (table, bytes)) (hval : table.validate = .ok ())
    (hspans : ∀ s ∈ table.source.spans, s.1 + s.2 ≤ dev.sectors)
    (hbytes : table.source.spans.flatMap (fun s => d.read (512 * s.1) (512 * s.2)) =
      d.read 0 512 ++ d.read 512 512 ++ d.read (512 * (dev.sectors - 1)) 512 ++ bytes) :
    Reads d (Plan.read sha dev scratchLen)
      { table with source.digest := sha (d.read 0 512 ++ d.read 512 512 ++ d.read (512 * (dev.sectors - 1)) 512 ++ bytes) } := by
  refine Reads.bind (Reads.lift hv) (Reads.bind (Reads.refuse _ ?_) ?_)
  · simp only [Bool.or_eq_false_iff, decide_eq_false_iff_not, bne_eq_false_iff_eq]
    omega
  refine Reads.bind (Reads.read (n := 1) hv (by omega)) (Reads.bind (Reads.read (n := 1) hv (by omega)) ?_)
  refine Reads.bind (Reads.read (n := 1) hv (by omega)) (Reads.bind ht (Reads.bind (Reads.lift hval) ?_))
  refine Reads.bind (a := sha (d.read 0 512 ++ d.read 512 512 ++ d.read (512 * (dev.sectors - 1)) 512 ++ bytes)) ?_
    (Reads.bind (Reads.refuse _ (bne_self_eq_false _)) (Reads.pure _))
  refine Reads.bind (Reads.refuse _ ?_) (Reads.bind (Reads.readSpans hv hspans) ?_)
  · unfold maxArrayBytes maxEntries at hlen
    simp only [Bool.or_eq_false_iff, decide_eq_false_iff_not, bne_eq_false_iff_eq]
    omega
  · rw [← hbytes]
    exact Reads.pure _

/-- **A plan is read from a disk with two intact copies of one table.** -/
theorem Reads.planRead {dev : Device} {d : Disk} {h b : Header} {es : List Entry} {scratchLen : Nat}
    (hv : dev.validate = .ok ()) (hlen : maxArrayBytes * 2 ≤ scratchLen ∧ scratchLen % 512 = 0)
    (ha : Agreeing dev.sectors d h b es) :
    Reads d (Plan.read sha dev scratchLen)
      { gptPlan dev.sectors (d.read 0 512) h b es with
        source.digest := sha (d.read 0 512 ++ d.read 512 512 ++ d.read (512 * (dev.sectors - 1)) 512 ++
          (arrayOf d h ++ arrayOf d b)) } := by
  obtain ⟨p1, p2, p3, p4, p5, p6, p7⟩ := ha.places
  have hb2 := ha.backup.sectors_bounds
  refine Reads.planRead_of_table hv p7 hlen (Reads.readSigned hv ha) (gptPlan_validate (Device.sectors_pos hv).2 ha) ?_ ?_
  · intro s hs
    simp only [gptPlan, basePlan, List.cons_append, List.nil_append, List.mem_cons, List.not_mem_nil, or_false] at hs
    rcases hs with rfl | rfl | rfl | rfl | rfl <;> simp only <;> omega
  · simp [gptPlan, basePlan, arrayOf]

/-! ## What a plan was read from -/

theorem arraySlots_congr {a b : Bytes} {count : Nat} (h : slice a 0 (count * 128) = slice b 0 (count * 128)) :
    arraySlots a count = arraySlots b count := by
  refine List.map_congr_left (fun slot hslot => ?_)
  have hlt := List.mem_range.1 hslot
  have hin : slot * 128 + 128 ≤ count * 128 := by omega
  have ha := @slice_slice a 0 _ _ _ hin
  have hb := @slice_slice b 0 _ _ _ hin
  rw [Nat.zero_add] at ha hb
  rw [← ha, ← hb, h]

theorem readGptArray_congr {h b : Header} {array other : Bytes} (h1 : h.firstUsableLba = b.firstUsableLba)
    (h2 : h.lastUsableLba = b.lastUsableLba) (h3 : h.entryCount = b.entryCount) (h4 : h.entrySize = b.entrySize)
    (h5 : h.entrySize = 128) (hu : slice array 0 h.entryBytes = slice other 0 h.entryBytes) :
    readGptArray b other = readGptArray h array := by
  have hslot : readGptSlot b = readGptSlot h := by
    funext raw
    simp only [readGptSlot, parsePartition, h1, h2, h4]
  rw [Header.entryBytes, h5] at hu
  rw [readGptArray, readGptArray, hslot, ← h3, arraySlots_congr hu]

theorem validateCopy_congr {h b : Header} {array other : Bytes} {sectors : Nat} (ha : gptCopiesDiffer h b = false)
    (h5 : h.entrySize = 128) (hu : slice array 0 h.entryBytes = slice other 0 h.entryBytes)
    (hv : validateCopy h array sectors = .ok ()) : validateCopy b other sectors = .ok () := by
  obtain ⟨hg, hf, hl, hc, hs, hcrc⟩ := (gptCopiesDiffer_iff h b).1 ha
  obtain ⟨hsec, hbytes⟩ := entrySectors_congr hc hs
  obtain ⟨v1, v2, v3, es, v4, v5⟩ := (validateCopy_iff _ _ _).1 hv
  refine (validateCopy_iff _ _ _).2 ⟨by rw [← hg]; exact v1, by rw [← hbytes, ← hu, v2, hcrc], ?_, es, ?_, ?_⟩
  · rw [← hsec, ← hf, ← hl]
    exact v3
  · rw [readGptArray_congr hf hl hc hs h5 hu, v4]
  · exact ⟨fun e he hp => by rw [← hg]; exact v5.guid e he hp, v5.apart⟩

variable {dev : Device} {F : Faults} {w w' : World} {scratchLen : Nat} {p : Plan}

theorem validate_source (h : p.validate = .ok ()) (source : Source) : ({ p with source } : Plan).validate = .ok () := by
  obtain ⟨h1, h2, h3⟩ := (validate_iff p).1 h
  refine (validate_iff _).2 ⟨h1, h2, fun e he hp => ?_, h3.apart⟩
  exact ⟨(h3.each e he hp).count, (h3.each e he hp).first, (h3.each e he hp).last, (h3.each e he hp).kind⟩

/-- **A plan that was read**: the device is sound, the plan is valid, and its fields come from the table on the disk. -/
theorem planRead_ok (h : Plan.read sha dev scratchLen F w = (.ok p, w')) :
    dev.validate = .ok () ∧ 3 ≤ dev.sectors ∧ p.validate = .ok () ∧ ∃ table w1 w2, w1.disk = w.disk ∧
      readSigned (basePlan dev.sectors (w.disk.read 0 512)) dev (w.disk.read 0 512) (w.disk.read 512 512)
        (w.disk.read (512 * (dev.sectors - 1)) 512) F w1 = (.ok table, w2) ∧
      ∃ digest, p = { table.1 with source.digest := digest } := by
  obtain ⟨_, _, h0, h⟩ := Io.bind_ok h
  obtain ⟨hv, rfl⟩ := Io.lift_ok h0
  obtain ⟨_, _, h0, h⟩ := Io.bind_ok h
  obtain ⟨hlen, rfl⟩ := Io.refuse_ok h0
  obtain ⟨_, _, h0, h⟩ := Io.bind_ok h
  obtain ⟨rfl, rfl⟩ := Device.read_ok h0
  obtain ⟨_, _, h0, h⟩ := Io.bind_ok h
  obtain ⟨rfl, rfl⟩ := Device.read_ok h0
  obtain ⟨_, _, h0, h⟩ := Io.bind_ok h
  obtain ⟨rfl, rfl⟩ := Device.read_ok h0
  obtain ⟨table, w1, h1, h⟩ := Io.bind_ok h
  obtain ⟨_, _, h0, h⟩ := Io.bind_ok h
  obtain ⟨hval, rfl⟩ := Io.lift_ok h0
  obtain ⟨again, _, -, h⟩ := Io.bind_ok h
  obtain ⟨_, _, -, h⟩ := Io.bind_ok h
  obtain ⟨rfl, -⟩ := Io.pure_ok h
  simp only [Bool.or_eq_false_iff, decide_eq_false_iff_not, bne_eq_false_iff_eq, Nat.not_lt] at hlen
  simp only [Nat.mul_zero, Nat.mul_one] at h1
  exact ⟨hv, hlen.1.1, validate_source hval _, table, w.tick.tick.tick, w1, rfl, h1, _, rfl⟩

theorem readGpt_ok {q : Plan} {a b bytes : Bytes} (h : readGpt p dev a b F w = (.ok (q, bytes), w')) :
    ∃ x y es, HeaderOk a 1 p.sectors ∧ x = headerFields a ∧ HeaderOk b (p.sectors - 1) p.sectors ∧ y = headerFields b ∧
      gptLayoutBad a b x = false ∧ gptCopiesDiffer x y = false ∧
      slice (arrayOf w.disk x) 0 x.entryBytes = slice (arrayOf w.disk y) 0 x.entryBytes ∧
      (crc (slice (arrayOf w.disk x) 0 x.entryBytes)).toNat = x.entriesCrc32 ∧
      readGptArray x (arrayOf w.disk x) = .ok es ∧
      q = { p with
        kind := .gpt, diskGuid := x.diskGuid, firstUsable := x.firstUsableLba, lastUsable := x.lastUsableLba
        entryCount := x.entryCount, primaryArray := x.entriesLba, backupArray := y.entriesLba
        source.spans := p.source.spans ++ [(x.entriesLba, x.entrySectors), (y.entriesLba, y.entrySectors)]
        entries := setEntries es } := by
  obtain ⟨x, _, h0, h⟩ := Io.bind_ok h
  obtain ⟨hx, rfl⟩ := Io.lift_ok h0
  obtain ⟨y, _, h0, h⟩ := Io.bind_ok h
  obtain ⟨hy, rfl⟩ := Io.lift_ok h0
  obtain ⟨_, _, h0, h⟩ := Io.bind_ok h
  obtain ⟨hl, rfl⟩ := Io.refuse_ok h0
  obtain ⟨_, _, h0, h⟩ := Io.bind_ok h
  obtain ⟨hc, rfl⟩ := Io.refuse_ok h0
  obtain ⟨_, _, h0, h⟩ := Io.bind_ok h
  obtain ⟨rfl, rfl⟩ := Device.read_ok h0
  obtain ⟨_, _, h0, h⟩ := Io.bind_ok h
  obtain ⟨rfl, rfl⟩ := Device.read_ok h0
  obtain ⟨_, _, h0, h⟩ := Io.bind_ok h
  obtain ⟨hu, rfl⟩ := Io.refuse_ok h0
  obtain ⟨es, _, h0, h⟩ := Io.bind_ok h
  obtain ⟨hes, rfl⟩ := Io.lift_ok h0
  obtain ⟨hq, -⟩ := Io.pure_ok h
  obtain ⟨hx1, hx2⟩ := (parseHeader_iff _ _ _ _).1 hx
  obtain ⟨hy1, hy2⟩ := (parseHeader_iff _ _ _ _).1 hy
  obtain ⟨-, -, -, h4, h5, -⟩ := (gptCopiesDiffer_iff x y).1 hc
  obtain ⟨hsec, -⟩ := entrySectors_congr h4 h5
  simp only [Bool.or_eq_false_iff, bne_eq_false_iff_eq] at hu
  refine ⟨x, y, es, hx1, hx2, hy1, hy2, hl, hc, ?_, hu.2, hes, (Prod.mk.inj hq).1.symm⟩
  have hy3 : arrayOf w.disk y = w.disk.read (512 * y.entriesLba) (512 * x.entrySectors) := by rw [arrayOf, hsec]
  rw [hy3]
  exact hu.1

theorem readSigned_cases {q : Plan} {mbr a b bytes : Bytes} (h : readSigned p dev mbr a b F w = (.ok (q, bytes), w')) :
    (∃ blank, q = { p with blank }) ∨
    (∃ es, (mbrSlots mbr).mapM readMbrSlot = .ok es ∧ q = { p with kind := .mbr, entryCount := 4, entries := setEntries es }) ∨
    (Protective p.sectors mbr ∧ readGpt p dev a b F w = (.ok (q, bytes), w')) := by
  unfold readSigned at h
  split at h
  · rename_i hsigned
    obtain ⟨_, _, h0, h⟩ := Io.bind_ok h
    obtain ⟨hcov, rfl⟩ := Io.refuse_ok h0
    split at h
    · obtain ⟨_, _, h0, h⟩ := Io.bind_ok h
      obtain ⟨hone, rfl⟩ := Io.refuse_ok h0
      simp only [Bool.or_eq_false_iff, bne_eq_false_iff_eq] at hone
      refine .inr (.inr ⟨⟨hsigned, hone.1, hone.2, fun raw hraw ht => ?_⟩, h⟩)
      have hc := List.any_eq_false.1 hcov raw (List.mem_filter.2 ⟨hraw, by simpa using ht⟩)
      simpa using hc
    · obtain ⟨es, _, h0, h⟩ := Io.bind_ok h
      obtain ⟨hes, rfl⟩ := Io.lift_ok h0
      obtain ⟨hq, -⟩ := Io.pure_ok h
      exact .inr (.inl ⟨es, hes, (Prod.mk.inj hq).1.symm⟩)
  · obtain ⟨hq, -⟩ := Io.pure_ok h
    exact .inl ⟨_, (Prod.mk.inj hq).1.symm⟩

/-- **A GPT plan that was read has two intact copies of its table on the disk.** -/
theorem planRead_gpt (h : Plan.read sha dev scratchLen F w = (.ok p, w')) (hk : p.kind = .gpt) :
    ∃ x y es, Agreeing dev.sectors w.disk x y es ∧
      ∃ digest, p = { gptPlan dev.sectors (w.disk.read 0 512) x y es with source.digest := digest } := by
  obtain ⟨-, -, hval, ⟨q, bytes⟩, w1, w2, hw1, hr, digest, rfl⟩ := planRead_ok h
  rcases readSigned_cases hr with ⟨blank, rfl⟩ | ⟨es, -, rfl⟩ | ⟨hprot, hg⟩
  · cases hk
  · cases hk
  · obtain ⟨x, y, es, hx1, hx2, hy1, hy2, hl, hc, hu, hcrc, hes, rfl⟩ := readGpt_ok hg
    rw [hw1] at hu hcrc hes
    obtain ⟨hg1, hf, hlast, hcnt, hsz, hcrcs⟩ := (gptCopiesDiffer_iff x y).1 hc
    obtain ⟨hl1, hl2, hsize, hne, hcount⟩ := (gptLayoutBad_iff _ _ _).1 hl
    have hval' : (gptPlan dev.sectors (w.disk.read 0 512) x y es).validate = .ok () := validate_source hval _
    obtain ⟨hgeo, hkind, hents⟩ := (validate_iff _).1 hval'
    have hlive : (gptPlan dev.sectors (w.disk.read 0 512) x y es).live = es :=
      live_setEntries rfl (readGptArray_spec hes).1 hcount
    rw [hlive] at hents
    have hdesc : (gptPlan dev.sectors (w.disk.read 0 512) x y es).Describes x := ⟨rfl, rfl, rfl, rfl⟩
    have hgpt := (entriesOk_iff hdesc hes).1 hents
    obtain ⟨k1, -, k3, k4, k5, k6, k7, k8⟩ := (kindOk_gpt_iff rfl).1 hkind
    have hsec : x.entrySectors = arraySectors x.entryCount := by
      rw [Header.entrySectors, Header.entryBytes, hsize, arraySectors]
    have hcopy : validateCopy x (arrayOf w.disk x) dev.sectors = .ok () := by
      refine (validateCopy_iff _ _ _).2 ⟨k1, hcrc, ?_, es, hes, hgpt⟩
      simp only [gptPlan, basePlan, ← hsec] at k3 k4 k5 k6 k7 k8
      omega
    have hlx : layoutBad (w.disk.read (512 * 1) 512) x = false := (layoutBad_iff _ _).2 ⟨hl1, hsize, hcount⟩
    have hly : layoutBad (w.disk.read (512 * (dev.sectors - 1)) 512) y = false :=
      (layoutBad_iff _ _).2 ⟨hl2, by rw [← hsz]; exact hsize, by rw [← hcnt]; exact hcount⟩
    refine ⟨x, y, es, ⟨hprot, ⟨hx1, hx2.symm, hlx, hcopy, hes⟩, ⟨hy1, hy2.symm, hly, ?_, ?_⟩, hc, hu⟩, digest, rfl⟩
    · exact validateCopy_congr hc hsize hu hcopy
    · rw [readGptArray_congr hf hlast hcnt hsz hsize hu, hes]

end Hash

end Gpt
end R4
