import R4Recovery.JournalRecord
import R4Recovery.JournalProgress
/-!
# JournalBody — the lines of a written journal

The text of a journal splits into the lines it was written from (`lines_journalText`), every header key finds its value
(`journalField_journalText`), the header reads back (`parseHeader_journalText`), and the line pass fills the slots the
journal uses (`foldlM_bodyLines`) unless a payload's old file is unreadable.
-/
namespace R4
namespace Journal

/-- What the text of a journal needs: a valid journal whose paths normalize to themselves. -/
structure TextOk (j : TransactionJournal) : Prop where
  valid : journalValid j = true
  source : NormalPath maxPath j.source ∧ driveRooted j.source = false
  payloads : ∀ e ∈ j.live, PathsOk e

section Written

variable {j : TransactionJournal}

theorem TextOk.frame (h : TextOk j) : frameValid j := ((journalValid_iff j).1 h.valid).2.1

theorem TextOk.shape (h : TextOk j) {e : JournalPayload} (he : e ∈ j.live) : payloadShapeOk e = true := by
  obtain ⟨-, hfr, -, a, b, c, hf, -, -, -⟩ := (journalValid_iff j).1 h.valid
  exact (payloadShapeOk_iff_reset e).2 ⟨hfr.2.2 e he, mem_flags_ne_both hf he⟩

theorem TextOk.versions (h : TextOk j) :
    versionTextValid j.sourceVersion = true ∧ versionTextValid j.targetVersion = true ∧
      versionTextValid j.packageVersion = true := by
  have h1 := h.frame.1
  simp only [journalFrameOk, Bool.and_eq_true] at h1
  obtain ⟨⟨⟨⟨⟨-, h1⟩, h2⟩, h3⟩, -⟩, -⟩ := h1
  exact ⟨h1, h2, h3⟩

theorem componentsValid_mem {count : UInt32} {prior L : List JournalComponent} (h : componentsValid count prior L = true)
    {c : JournalComponent} (hc : c ∈ L) : componentValid c = true ∧ c.payloadIndex < count := by
  induction L generalizing prior with
  | nil => cases hc
  | cons d L ih =>
    simp only [componentsValid, Bool.and_eq_true, decide_eq_true_eq] at h
    rcases List.mem_cons.1 hc with rfl | hc
    · exact ⟨h.1.1.2, h.1.1.1⟩
    · exact ih h.2 hc

theorem TextOk.component (h : TextOk j) (hb : j.componentsBound = true) {c : JournalComponent}
    (hc : c ∈ j.liveComponents) : componentValid c = true ∧ c.payloadIndex < j.packagePayloadCount :=
  componentsValid_mem (h.frame.2.1 hb) hc

/-! ## Lines -/

/-- A line that a newline ends and `trim` keeps. -/
def lineOk (line : Bytes) : Prop := 10 ∉ line ∧ trim line = line

theorem trim_of_ends {line : Bytes} {first : UInt8} (hh : line.head? = some first) (hf : isBlank first = false)
    (hl : endsLine line) : trim line = line := by
  obtain ⟨l, hl, hb⟩ := hl
  refine trim_of_trimmed ?_
  simp [trimmed, hh, hl, hf, hb]

theorem lineOk_field {key value : Bytes} {first : UInt8} {rest : Bytes} (hk : key = first :: rest)
    (hf : isBlank first = false) (hkp : plain key = true) (hvp : plain value = true) (hv : endsLine value) :
    lineOk (key ++ value) := by
  refine ⟨not_mem_of_plain (plain_append hkp hvp) rfl, trim_of_ends ?_ hf (endsLine_append hv)⟩
  rw [hk]; rfl

theorem head?_recordLine (tag : String) (fields : List (Bytes × Bytes)) {first : UInt8} {rest : Bytes}
    (ht : ascii tag = first :: rest) : (recordLine tag fields).head? = some first := by
  cases fields with
  | nil => simp [recordLine, ht]
  | cons f fields =>
    rw [recordLine, List.map_cons, List.intercalate_cons_cons, ht]
    rfl

theorem lineOk_recordLine {tag : String} (fields : List (Bytes × Bytes)) (last : Bytes × Bytes)
    (h : RecordOk tag (fields ++ [last])) {first : UInt8} {rest : Bytes} (ht : ascii tag = first :: rest)
    (hf : isBlank first = false) (hl : endsLine last.2) : lineOk (recordLine tag (fields ++ [last])) := by
  refine ⟨newline_recordLine h, trim_of_ends (head?_recordLine tag _ ht) hf ?_⟩
  rw [recordLine, List.map_append, List.map_singleton, ← List.cons_append]
  exact endsLine_intercalate _ (endsLine_append hl)

theorem endsLine_flagByte (b : Bool) : endsLine (flagByte b) := by
  cases b
  · exact ⟨48, rfl, rfl⟩
  · exact ⟨49, rfl, rfl⟩

theorem lineOk_component (index : Nat) {c : JournalComponent} (h : componentValid c = true) :
    lineOk (recordLine "COMPONENT" (componentFields index c)) := by
  have hv : versionTextValid c.version = true := by
    simp only [componentValid, Bool.and_eq_true] at h
    exact h.1.1.1.1.1.2
  exact lineOk_recordLine (componentFields index c).dropLast (ascii "version=", c.version)
    (recordOk_component index h) rfl (by rfl) (endsLine_version hv)

theorem lineOk_payload (index : Nat) {e : JournalPayload} (h : PathsOk e) :
    lineOk (recordLine "PAYLOAD" (payloadFields index e)) :=
  lineOk_recordLine (payloadFields index e).dropLast (ascii "rolled_back=", flagByte e.rolledBack)
    (recordOk_payload index h) rfl (by rfl) (endsLine_flagByte _)

theorem endsLine_phaseName (phase : JournalPhase) : endsLine (phaseName phase) := by
  cases phase <;> exact ⟨_, rfl, rfl⟩

theorem plain_if {p : Prop} [Decidable p] {a b : Bytes} (ha : plain a = true) (hb : plain b = true) :
    plain (if p then a else b) = true := by split <;> assumption

theorem endsLine_if {p : Prop} [Decidable p] {a b : Bytes} (ha : endsLine a) (hb : endsLine b) :
    endsLine (if p then a else b) := by split <;> assumption

theorem headerFields_values (h : TextOk j) : ∀ f ∈ headerFields j, plain f.2 = true ∧ endsLine f.2 := by
  obtain ⟨h1, h2, h3⟩ := h.versions
  simp only [headerFields, List.forall_mem_cons]
  have hdec : ∀ n, plain (decimal n) = true ∧ endsLine (decimal n) := fun n => ⟨plain_decimal n, endsLine_decimal n⟩
  refine ⟨⟨rfl, 53, rfl, rfl⟩, hdec _, hdec _, ⟨plain_phaseName _, endsLine_phaseName _⟩, hdec _, hdec _, hdec _, hdec _,
    hdec _, ⟨plain_if rfl rfl, endsLine_if ⟨100, rfl, rfl⟩ ⟨121, rfl, rfl⟩⟩,
    ⟨plain_if rfl rfl, endsLine_if ⟨110, rfl, rfl⟩ ⟨108, rfl, rfl⟩⟩, ⟨plain_version h3, endsLine_version h3⟩,
    ⟨plain_version h1, endsLine_version h1⟩, ⟨plain_version h2, endsLine_version h2⟩,
    ⟨plain_of_normalPath h.source.1, getLast?_of_normalPath h.source.1⟩, hdec _, hdec _, hdec _, hdec _,
    ⟨plain_if rfl rfl, endsLine_if ⟨115, rfl, rfl⟩ ⟨111, rfl, rfl⟩⟩,
    ⟨plain_if rfl rfl, endsLine_if ⟨115, rfl, rfl⟩ ⟨111, rfl, rfl⟩⟩, by simp⟩

/-- The header keys in file order. -/
def writtenKeys : List String :=
  [ "R4U_JOURNAL=", "TRANSACTION_GENERATION=", "JOURNAL_GENERATION=", "PHASE=", "PACKAGE_DIGEST=", "PACKAGE_LENGTH=",
    "MANIFEST_CHECKSUM=", "COMPONENT_DIGEST=", "COMPONENTS=", "COMPONENT_BINDING=", "PRIORITY=", "PACKAGE_VERSION=",
    "SOURCE_RELEASE=", "RELEASE=", "SOURCE=", "PACKAGE_PAYLOADS=", "PAYLOADS=", "COMMITTED=", "ROLLED_BACK=", "REBOOT=",
    "BATCH=" ]

theorem headerFields_keys (j : TransactionJournal) : (headerFields j).map (·.1) = writtenKeys.map ascii := rfl

theorem mem_writtenKeys {f : Bytes × Bytes} (h : f ∈ headerFields j) : f.1 ∈ writtenKeys.map ascii := by
  rw [← headerFields_keys j]; exact List.mem_map_of_mem h

theorem writtenKeys_checks : (∀ k ∈ writtenKeys.map ascii,
      isKey k = true ∧ plain k = true ∧ k.head?.all (fun c => !isBlank c) = true ∧ k ≠ [] ∧
      ¬ k <+: ascii "COMPONENT;" ∧ ¬ ascii "COMPONENT;" <+: k ∧ ¬ k <+: ascii "PAYLOAD;" ∧ ¬ ascii "PAYLOAD;" <+: k ∧
      ¬ k <+: ascii "CHECKSUM=" ∧ ¬ ascii "CHECKSUM=" <+: k) ∧ (writtenKeys.map ascii).Nodup ∧
    ∀ k ∈ writtenKeys.map ascii, k ∈ headerKeys.map ascii := by decide +kernel

theorem writtenKey_facts : ∀ k ∈ writtenKeys.map ascii,
    isKey k = true ∧ plain k = true ∧ k.head?.all (fun c => !isBlank c) = true ∧ k ≠ [] ∧
    ¬ k <+: ascii "COMPONENT;" ∧ ¬ ascii "COMPONENT;" <+: k ∧ ¬ k <+: ascii "PAYLOAD;" ∧ ¬ ascii "PAYLOAD;" <+: k ∧
    ¬ k <+: ascii "CHECKSUM=" ∧ ¬ ascii "CHECKSUM=" <+: k := writtenKeys_checks.1

theorem lineOk_header (h : TextOk j) : ∀ l ∈ fieldTexts (headerFields j), lineOk l := by
  intro l hl
  obtain ⟨f, hf, rfl⟩ := List.mem_map.1 hl
  obtain ⟨-, hp, hb, hne, -⟩ := writtenKey_facts f.1 (mem_writtenKeys hf)
  obtain ⟨hvp, hve⟩ := headerFields_values h f hf
  obtain ⟨first, rest, hk⟩ := List.exists_cons_of_ne_nil hne
  exact lineOk_field hk (by rw [hk] at hb; simpa using hb) hp hvp hve

def checksumLine (j : TransactionJournal) : Bytes := ascii "CHECKSUM=" ++ decimal (checksum (bodyText j)).toNat

theorem lineOk_body (h : TextOk j) : ∀ l ∈ bodyLines j, lineOk l := by
  intro l hl
  unfold bodyLines at hl
  rw [List.mem_append, List.mem_append] at hl
  rcases hl with (hl | hl) | hl
  · exact lineOk_header h l hl
  · split at hl
    · rename_i hb
      obtain ⟨c, hc, rfl⟩ := List.mem_map.1 hl
      exact lineOk_component _ (h.component hb (List.fst_mem_of_mem_zipIdx hc)).1
    · cases hl
  · obtain ⟨e, he, rfl⟩ := List.mem_map.1 hl
    exact lineOk_payload _ (h.payloads e.1 (List.fst_mem_of_mem_zipIdx he))

theorem lineOk_checksum : lineOk (checksumLine j) :=
  lineOk_field rfl (by rfl) (by decide) (plain_decimal _) (endsLine_decimal _)

theorem journalText_eq (j : TransactionJournal) : journalText j = (bodyLines j ++ [checksumLine j]).flatMap (· ++ [10]) := by
  rw [journalText, List.flatMap_append, bodyText]
  simp [checksumLine]
  rfl

theorem lines_bodyText (h : TextOk j) : lines (bodyText j) = bodyLines j :=
  lines_flatMap _ (fun l hl => (lineOk_body h l hl).1)

/-- **The text splits into the lines it was written from.** -/
theorem lines_journalText (h : TextOk j) : lines (journalText j) = bodyLines j ++ [checksumLine j] := by
  rw [journalText_eq]
  refine lines_flatMap _ (fun l hl => ?_)
  rcases List.mem_append.1 hl with hl | hl
  · exact (lineOk_body h l hl).1
  · rw [List.mem_singleton.1 hl]; exact lineOk_checksum.1

theorem map_trim {L : List Bytes} (h : ∀ l ∈ L, lineOk l) : L.map trim = L := by
  rw [List.map_congr_left (fun l hl => (h l hl).2)]; simp

/-! ## Header fields -/

theorem startsWith_apart {pre key : Bytes} (h1 : ¬ key <+: pre) (h2 : ¬ pre <+: key) (x : Bytes) :
    startsWith (pre ++ x) key = false := by
  rw [Bool.eq_false_iff]
  intro hs
  rw [startsWith, List.isPrefixOf_iff_prefix] at hs
  rcases List.prefix_or_prefix_of_prefix hs (List.prefix_append pre x) with h | h
  · exact h1 h
  · exact h2 h

theorem recordLine_eq (tag : String) (fields : List (Bytes × Bytes)) (h : fields ≠ []) :
    ∃ x, recordLine tag fields = (ascii tag ++ [59]) ++ x := by
  cases fields with
  | nil => exact absurd rfl h
  | cons f fields =>
    refine ⟨[59].intercalate ((f :: fields).map (fun f => f.1 ++ f.2)), ?_⟩
    rw [recordLine, List.map_cons, List.intercalate_cons_cons]

theorem startsWith_component {key : Bytes} (h1 : ¬ key <+: ascii "COMPONENT;") (h2 : ¬ ascii "COMPONENT;" <+: key)
    (index : Nat) (c : JournalComponent) :
    startsWith (recordLine "COMPONENT" (componentFields index c)) key = false := by
  obtain ⟨x, hx⟩ := recordLine_eq "COMPONENT" (componentFields index c) (by simp [componentFields])
  rw [hx]
  exact startsWith_apart h1 h2 x

theorem startsWith_payload {key : Bytes} (h1 : ¬ key <+: ascii "PAYLOAD;") (h2 : ¬ ascii "PAYLOAD;" <+: key)
    (index : Nat) (e : JournalPayload) :
    startsWith (recordLine "PAYLOAD" (payloadFields index e)) key = false := by
  obtain ⟨x, hx⟩ := recordLine_eq "PAYLOAD" (payloadFields index e) (by simp [payloadFields])
  rw [hx]
  exact startsWith_apart h1 h2 x

theorem componentTag_payload (index : Nat) (e : JournalPayload) :
    startsWith (recordLine "PAYLOAD" (payloadFields index e)) (ascii "COMPONENT;") = false :=
  startsWith_payload (by decide) (by decide) index e

theorem startsWith_payload_tag (index : Nat) (e : JournalPayload) :
    startsWith (recordLine "PAYLOAD" (payloadFields index e)) (ascii "PAYLOAD;") = true := by
  obtain ⟨x, hx⟩ := recordLine_eq "PAYLOAD" (payloadFields index e) (by simp [payloadFields])
  rw [hx]
  exact startsWith_append _ x

theorem startsWith_component_tag (index : Nat) (c : JournalComponent) :
    startsWith (recordLine "COMPONENT" (componentFields index c)) (ascii "COMPONENT;") = true := by
  obtain ⟨x, hx⟩ := recordLine_eq "COMPONENT" (componentFields index c) (by simp [componentFields])
  rw [hx]
  exact startsWith_append _ x

theorem headerFields_isKey : ∀ f ∈ headerFields j, isKey f.1 = true :=
  fun f hf => (writtenKey_facts f.1 (mem_writtenKeys hf)).1

theorem headerFields_nodup (j : TransactionJournal) : ((headerFields j).map (·.1)).Nodup := by
  rw [headerFields_keys]
  exact writtenKeys_checks.2.1

theorem filter_bodyLines {key value : Bytes} (hm : (key, value) ∈ headerFields j) :
    (bodyLines j ++ [checksumLine j]).filter (fun s => startsWith s key) = [key ++ value] := by
  obtain ⟨hk, -, -, -, hc1, hc2, hp1, hp2, hs1, hs2⟩ := writtenKey_facts key (mem_writtenKeys hm)
  have hcomp : (if j.componentsBound then
      j.liveComponents.zipIdx.map (fun c => recordLine "COMPONENT" (componentFields c.2 c.1)) else []).filter
        (fun s => startsWith s key) = [] := by
    rw [List.filter_eq_nil_iff]
    intro l hl
    split at hl
    · obtain ⟨c, -, rfl⟩ := List.mem_map.1 hl
      simp [startsWith_component hc1 hc2]
    · cases hl
  have hpay : (j.live.zipIdx.map (fun e => recordLine "PAYLOAD" (payloadFields e.2 e.1))).filter
        (fun s => startsWith s key) = [] := by
    rw [List.filter_eq_nil_iff]
    intro l hl
    obtain ⟨e, -, rfl⟩ := List.mem_map.1 hl
    simp [startsWith_payload hp1 hp2]
  have hsum : [checksumLine j].filter (fun s => startsWith s key) = [] := by
    simp [checksumLine, startsWith_apart hs1 hs2]
  rw [bodyLines, List.filter_append, List.filter_append, List.filter_append, hcomp, hpay, hsum]
  rw [List.append_nil, List.append_nil, List.append_nil]
  exact filter_field hk headerFields_isKey (headerFields_nodup j) hm

/-- **Every header key finds its value in the text.** -/
theorem journalField_journalText (h : TextOk j) {key : String} {value : Bytes} (hm : (ascii key, value) ∈ headerFields j) :
    journalField (journalText j) key = some value := by
  have htrim : (bodyLines j ++ [checksumLine j]).map trim = bodyLines j ++ [checksumLine j] := by
    refine map_trim (fun l hl => ?_)
    rcases List.mem_append.1 hl with hl | hl
    · exact lineOk_body h l hl
    · rw [List.mem_singleton.1 hl]; exact lineOk_checksum
  rw [journalField, lines_journalText h, htrim, filter_bodyLines hm]
  simp

theorem journalLinesKnown_bodyText (h : TextOk j) : journalLinesKnown (bodyText j) = true := by
  rw [journalLinesKnown, lines_bodyText h, List.all_eq_true]
  intro l hl
  rw [(lineOk_body h l hl).2, Bool.and_eq_true]
  unfold bodyLines at hl
  rw [List.mem_append, List.mem_append] at hl
  rcases hl with (hl | hl) | hl
  · obtain ⟨f, hf, rfl⟩ := List.mem_map.1 hl
    have hne := (writtenKey_facts f.1 (mem_writtenKeys hf)).2.2.2.1
    refine ⟨by simp [hne], ?_⟩
    have hmem : f.1 ∈ headerKeys.map ascii := writtenKeys_checks.2.2 _ (mem_writtenKeys hf)
    obtain ⟨key, hkey, he⟩ := List.mem_map.1 hmem
    have : headerKeys.any (fun key => startsWith (f.1 ++ f.2) (ascii key)) = true :=
      List.any_eq_true.2 ⟨key, hkey, by rw [he]; exact startsWith_append _ _⟩
    simp [this]
  · split at hl
    · obtain ⟨c, -, rfl⟩ := List.mem_map.1 hl
      have ht := startsWith_component_tag c.2 c.1
      refine ⟨?_, by simp [ht]⟩
      obtain ⟨x, hx⟩ := recordLine_eq "COMPONENT" (componentFields c.2 c.1) (by simp [componentFields])
      rw [hx]; rfl
    · cases hl
  · obtain ⟨e, -, rfl⟩ := List.mem_map.1 hl
    have ht := startsWith_payload_tag e.2 e.1
    refine ⟨?_, by simp [ht]⟩
    obtain ⟨x, hx⟩ := recordLine_eq "PAYLOAD" (payloadFields e.2 e.1) (by simp [payloadFields])
    rw [hx]; rfl

/-- The header the parser reads: every serialized header field, the two arrays empty. -/
def headerOf (j : TransactionJournal) (slot : UInt8) : TransactionJournal :=
  { valid := true, slot, transactionGeneration := j.transactionGeneration, journalGeneration := j.journalGeneration,
    phase := j.phase, packageDigest := j.packageDigest, packageLength := j.packageLength,
    manifestChecksum := j.manifestChecksum, componentDigest := j.componentDigest, componentCount := j.componentCount,
    componentsBound := j.componentsBound, foundation := j.foundation, packagePayloadCount := j.packagePayloadCount,
    payloadCount := j.payloadCount, committedCount := j.committedCount, rollbackCount := j.rollbackCount,
    reboot := j.reboot, batch := j.batch, source := j.source, sourceVersion := j.sourceVersion,
    targetVersion := j.targetVersion, packageVersion := j.packageVersion }

theorem parseHeader_journalText (h : TextOk j) (slot : UInt8) :
    parseHeader (journalText j) slot = some (headerOf j slot) := by
  obtain ⟨hst, hfr, -, -⟩ := (journalValid_iff j).1 h.valid
  obtain ⟨h1, h2, h3⟩ := h.versions
  have hf := hfr.1
  simp only [journalFrameOk, Bool.and_eq_true, decide_eq_true_eq, bne_iff_ne, ne_eq] at hf
  obtain ⟨⟨⟨⟨⟨⟨⟨⟨⟨⟨⟨⟨⟨ht, -⟩, hp0⟩, hpm⟩, hc0⟩, hcm⟩, hpc⟩, hpb⟩, hcc⟩, -⟩, -⟩, -⟩, -⟩, -⟩ := hf
  have hguard : (j.transactionGeneration == 0 || j.journalGeneration == 0 || j.payloadCount == 0 ||
      decide (maxPayloads < j.payloadCount.toNat) || j.packagePayloadCount == 0 ||
      decide (maxPackagePayloads < j.packagePayloadCount.toNat) || decide (j.payloadCount < j.packagePayloadCount) ||
      decide (j.packagePayloadCount.toNat + (if j.batch then 2 else 1) < j.payloadCount.toNat)) = false := by
    simp only [Bool.or_eq_false_iff, beq_eq_false_iff_ne, ne_eq, decide_eq_false_iff_not, Nat.not_lt, UInt32.not_lt]
    exact ⟨⟨⟨⟨⟨⟨⟨ht, hst.2.2⟩, hc0⟩, hcm⟩, hp0⟩, hpm⟩, hpc⟩, hpb⟩
  have hreboot : parseWord (if j.reboot then ascii "yes" else ascii "no") "no" "yes" = some j.reboot := by
    cases j.reboot <;> rfl
  have hbatch : parseWord (if j.batch then ascii "yes" else ascii "no") "no" "yes" = some j.batch := by
    cases j.batch <;> rfl
  have hpriority : parseWord (if j.foundation then ascii "foundation" else ascii "normal") "normal" "foundation" =
      some j.foundation := by cases j.foundation <;> rfl
  have hbinding : parseWord (if j.componentsBound then ascii "bound" else ascii "legacy") "legacy" "bound" =
      some j.componentsBound := by cases j.componentsBound <;> rfl
  unfold parseHeader
  rw [journalField_journalText h (List.mem_of_getElem? (i := 19) rfl),
    journalField_journalText h (List.mem_of_getElem? (i := 10) rfl),
    journalField_journalText h (List.mem_of_getElem? (i := 1) rfl),
    journalField_journalText h (List.mem_of_getElem? (i := 2) rfl),
    journalField_journalText h (List.mem_of_getElem? (i := 3) rfl),
    journalField_journalText h (List.mem_of_getElem? (i := 4) rfl),
    journalField_journalText h (List.mem_of_getElem? (i := 5) rfl),
    journalField_journalText h (List.mem_of_getElem? (i := 6) rfl),
    journalField_journalText h (List.mem_of_getElem? (i := 7) rfl),
    journalField_journalText h (List.mem_of_getElem? (i := 8) rfl),
    journalField_journalText h (List.mem_of_getElem? (i := 9) rfl),
    journalField_journalText h (List.mem_of_getElem? (i := 15) rfl),
    journalField_journalText h (List.mem_of_getElem? (i := 16) rfl),
    journalField_journalText h (List.mem_of_getElem? (i := 17) rfl),
    journalField_journalText h (List.mem_of_getElem? (i := 18) rfl),
    journalField_journalText h (List.mem_of_getElem? (i := 20) rfl),
    journalField_journalText h (List.mem_of_getElem? (i := 14) rfl),
    journalField_journalText h (List.mem_of_getElem? (i := 12) rfl),
    journalField_journalText h (List.mem_of_getElem? (i := 13) rfl),
    journalField_journalText h (List.mem_of_getElem? (i := 11) rfl)]
  simp only [Option.bind_eq_bind, Option.bind_some, parseYesNo, hreboot, hbatch, hpriority, hbinding, parseU64_decimal, parseU32_decimal,
    parsePhase_phaseName, hguard, refuse_false, normalize_self h.source.1 h.source.2,
    copyTextZ_some (length_version h1), copyTextZ_some (length_version h2), copyTextZ_some (length_version h3), h1, h2, h3,
    Bool.not_true, Bool.or_self, UInt32.not_lt.2 hcc, decide_false]
  rfl

/-! ## The checksum line -/

theorem getLast?_bodyText (j : TransactionJournal) : (bodyText j).getLast? = some 10 := by
  have hne : bodyLines j ≠ [] := by simp [bodyLines, headerFields]
  rcases List.eq_nil_or_concat (bodyLines j) with h | ⟨init, l, h⟩
  · exact absurd h hne
  · rw [bodyText, h, List.concat_eq_append, List.flatMap_append]
    simp

theorem parseChecksum_journalText (j : TransactionJournal) : parseChecksum (journalText j) = some (bodyText j) := by
  have hdig := decimal_digits (checksum (bodyText j)).toNat
  have hnl : ∀ c : UInt8, isDigit c = true → c ≠ 10 ∧ c ≠ 61 := byte_forall (by decide +kernel)
  have htail : (61 : UInt8) ∉ decimal (checksum (bodyText j)).toNat ++ [10] := by
    intro hm
    rcases List.mem_append.1 hm with hm | hm
    · exact (hnl 61 (hdig 61 hm)).2 rfl
    · cases List.mem_singleton.1 hm
  have hmark : lastIndexOf (journalText j) (ascii "CHECKSUM=") = some (bodyText j).length := by
    have := lastIndexOf_append (bodyText j) (ascii "CHECKSUM") 61 (decimal (checksum (bodyText j)).toNat ++ [10]) htail
    rw [journalText, List.append_assoc (ascii "CHECKSUM=")]
    exact this
  have hprev : (journalText j)[(bodyText j).length - 1]? = some 10 := by
    have hl := getLast?_bodyText j
    have hpos : 0 < (bodyText j).length := List.length_pos_of_ne_nil (by intro he; rw [he] at hl; cases hl)
    rw [List.getLast?_eq_getElem?] at hl
    rw [journalText, List.getElem?_append_left (by omega), hl]
  have hdrop : (journalText j).drop (bodyText j).length = checksumLine j ++ [10] := by
    rw [journalText, List.drop_left]; rfl
  have hline : (checksumLine j ++ [10]).takeWhile (· != 10) = checksumLine j := by
    rw [List.takeWhile_append_of_pos]
    · simp
    · intro c hc
      rw [bne_iff_ne]
      rintro rfl
      exact lineOk_checksum.1 hc
  have hvalue : (checksumLine j).drop (ascii "CHECKSUM=").length = decimal (checksum (bodyText j)).toNat := by
    rw [checksumLine, List.drop_left]
  unfold parseChecksum
  simp only [Option.bind_eq_bind, hmark, Option.bind_some, hprev, hdrop, hline, hvalue, trim_of_trimmed (trimmed_of_digits hdig),
    parseU32_decimal, bne_self_eq_false, Bool.and_false, refuse_false, List.length_append, List.length_singleton]
  simp only [journalText, List.take_left, bne_self_eq_false, refuse_false, Option.bind_some]
  rfl

/-! ## The line pass -/

/-- Writes `xs` into the slots from `k` on. -/
def fill {α : Type} {n : Nat} (v : Vector α n) : Nat → List α → Vector α n
  | _, [] => v
  | k, x :: xs => fill (v.setIfInBounds k x) (k + 1) xs

theorem parseLine_header (st : ParseState) {f : Bytes × Bytes} (hf : f ∈ headerFields j) (ht : lineOk (f.1 ++ f.2)) :
    parseLine st (f.1 ++ f.2) = some st := by
  obtain ⟨-, -, -, -, hc1, hc2, hp1, hp2, -⟩ := writtenKey_facts f.1 (mem_writtenKeys hf)
  rw [parseLine, ht.2]
  simp only [startsWith_apart hc2 hc1, startsWith_apart hp2 hp1, Bool.false_eq_true, if_false]

theorem foldlM_header (h : TextOk j) (st : ParseState) :
    (fieldTexts (headerFields j)).foldlM parseLine st = some st := by
  have key : ∀ fs : List (Bytes × Bytes), (∀ f ∈ fs, f ∈ headerFields j) →
      (fieldTexts fs).foldlM parseLine st = some st := by
    intro fs hfs
    induction fs with
    | nil => rfl
    | cons f fs ih =>
      have hf := hfs f (by simp)
      have hl : lineOk (f.1 ++ f.2) := lineOk_header h _ (List.mem_map.2 ⟨f, hf, rfl⟩)
      rw [fieldTexts, List.map_cons, List.foldlM_cons, parseLine_header st hf hl]
      exact ih (fun f hf => hfs f (by simp [hf]))
  exact key _ (fun f hf => hf)

theorem parseU32_index {k : Nat} (h : k < 2 ^ 32) : parseU32 (decimal k) = some k.toUInt32 := by
  have : k = k.toUInt32.toNat := by simp; omega
  conv_lhs => rw [this]
  exact parseU32_decimal _

theorem toNat_index {k : Nat} (h : k < 2 ^ 32) : k.toUInt32.toNat = k := by simp; omega

theorem componentFieldsKnown_line (index : Nat) {c : JournalComponent} (h : componentValid c = true) :
    componentFieldsKnown (recordLine "COMPONENT" (componentFields index c)) = true := by
  have hok := recordOk_component index h
  rw [componentFieldsKnown, segmentsKnown_recordLine hok rfl, Bool.true_and, List.all_eq_true]
  intro key hk
  rw [occurrences_recordLine hok componentKeys rfl hk]
  rfl

theorem payloadFieldsKnown_line (index : Nat) {e : JournalPayload} (h : PathsOk e) :
    payloadFieldsKnown (recordLine "PAYLOAD" (payloadFields index e)) = true := by
  have hok := recordOk_payload index h
  rw [payloadFieldsKnown, segmentsKnown_recordLine hok rfl, Bool.true_and, List.all_eq_true]
  intro key hk
  rw [occurrences_recordLine hok payloadKeys rfl hk]
  rfl

theorem parseLine_component (st : ParseState) {k : Nat} {c : JournalComponent} (h : componentValid c = true)
    (hp : c.payloadIndex < st.journal.packagePayloadCount) (hk : k < st.journal.componentCount.toNat)
    (hs : k ∉ st.seenComponents) :
    parseLine st (recordLine "COMPONENT" (componentFields k c)) =
      some { st with journal.components := st.journal.components.setIfInBounds k c
                     seenComponents := k :: st.seenComponents } := by
  have hok := recordOk_component k h
  have hk32 : k < 2 ^ 32 := by have := st.journal.componentCount.toNat_lt; omega
  have hle : ¬ st.journal.componentCount ≤ k.toUInt32 := by rw [UInt32.le_iff_toNat_le, toNat_index hk32]; omega
  have hseen : st.seenComponents.contains k = false := by simpa using hs
  rw [parseLine, (lineOk_component k h).2]
  simp only [startsWith_component_tag, if_true]
  rw [componentFieldsKnown_line k h, requiredField_recordLine hok (List.mem_of_getElem? (i := 0) rfl),
    parseComponent_line k h hp]
  simp only [Option.bind_eq_bind, Option.bind_some, Bool.not_true, refuse_false, parseU32_index hk32, hle, decide_false,
    toNat_index hk32, hseen]
  rfl

theorem parseLine_payload (st : ParseState) {k : Nat} {e : JournalPayload} (h : PathsOk e) (hsh : payloadShapeOk e = true)
    (hk : k < st.journal.payloadCount.toNat) (hs : k ∉ st.seenPayloads) (ho : oldReadable e = true) :
    parseLine st (recordLine "PAYLOAD" (payloadFields k e)) =
      some { st with journal.payloads := st.journal.payloads.setIfInBounds k e
                     seenPayloads := k :: st.seenPayloads } := by
  have hok := recordOk_payload k h
  have hk32 : k < 2 ^ 32 := by have := st.journal.payloadCount.toNat_lt; omega
  have hle : ¬ st.journal.payloadCount ≤ k.toUInt32 := by rw [UInt32.le_iff_toNat_le, toNat_index hk32]; omega
  have hseen : st.seenPayloads.contains k = false := by simpa using hs
  rw [parseLine, (lineOk_payload k h).2]
  simp only [componentTag_payload, startsWith_payload_tag, if_true,
    Bool.false_eq_true, if_false]
  rw [payloadFieldsKnown_line k h, requiredField_recordLine hok (List.mem_of_getElem? (i := 0) rfl),
    parsePayload_line k h hsh, ho]
  simp only [Option.bind_eq_bind, Option.bind_some, Bool.not_true, refuse_false, parseU32_index hk32, hle, decide_false,
    toNat_index hk32, hseen, if_true]
  rfl

theorem parseLine_unreadable (st : ParseState) (k : Nat) {e : JournalPayload} (h : PathsOk e)
    (hsh : payloadShapeOk e = true) (ho : oldReadable e = false) :
    parseLine st (recordLine "PAYLOAD" (payloadFields k e)) = none := by
  rw [parseLine, (lineOk_payload k h).2]
  simp only [componentTag_payload, startsWith_payload_tag, if_true,
    Bool.false_eq_true, if_false, parsePayload_line k h hsh, ho]
  simp

theorem foldlM_components (cs : List JournalComponent) (k : Nat) (st : ParseState)
    (hc : ∀ c ∈ cs, componentValid c = true ∧ c.payloadIndex < st.journal.packagePayloadCount)
    (hk : k + cs.length ≤ st.journal.componentCount.toNat) (hs : ∀ i ∈ st.seenComponents, i < k) :
    ((cs.zipIdx k).map (fun c => recordLine "COMPONENT" (componentFields c.2 c.1))).foldlM parseLine st =
      some { st with journal.components := fill st.journal.components k cs
                     seenComponents := (List.range' k cs.length).reverse ++ st.seenComponents } := by
  induction cs generalizing k st with
  | nil => rfl
  | cons c cs ih =>
    rw [List.length_cons] at hk
    have hc0 := hc c (by simp)
    rw [List.zipIdx_cons, List.map_cons, List.foldlM_cons,
      parseLine_component st hc0.1 hc0.2 (by omega) (fun hm => by have := hs k hm; omega)]
    have := ih (k + 1) { st with journal.components := st.journal.components.setIfInBounds k c
                                 seenComponents := k :: st.seenComponents } (fun d hd => hc d (by simp [hd]))
      (by show k + 1 + cs.length ≤ st.journal.componentCount.toNat; omega)
      (List.forall_mem_cons.2 ⟨by omega, fun i hi => by have := hs i hi; omega⟩)
    rw [Option.bind_eq_bind, Option.bind_some, this]
    simp only [fill, List.length_cons, List.range'_succ, List.reverse_cons, List.append_assoc, List.singleton_append]

theorem foldlM_payloads (es : List JournalPayload) (k : Nat) (st : ParseState)
    (he : ∀ e ∈ es, PathsOk e ∧ payloadShapeOk e = true ∧ oldReadable e = true)
    (hk : k + es.length ≤ st.journal.payloadCount.toNat) (hs : ∀ i ∈ st.seenPayloads, i < k) :
    ((es.zipIdx k).map (fun e => recordLine "PAYLOAD" (payloadFields e.2 e.1))).foldlM parseLine st =
      some { st with journal.payloads := fill st.journal.payloads k es
                     seenPayloads := (List.range' k es.length).reverse ++ st.seenPayloads } := by
  induction es generalizing k st with
  | nil => rfl
  | cons e es ih =>
    rw [List.length_cons] at hk
    obtain ⟨h1, h2, h3⟩ := he e (by simp)
    rw [List.zipIdx_cons, List.map_cons, List.foldlM_cons,
      parseLine_payload st h1 h2 (by omega) (fun hm => by have := hs k hm; omega) h3]
    have := ih (k + 1) { st with journal.payloads := st.journal.payloads.setIfInBounds k e
                                 seenPayloads := k :: st.seenPayloads } (fun d hd => he d (by simp [hd]))
      (by show k + 1 + es.length ≤ st.journal.payloadCount.toNat; omega)
      (List.forall_mem_cons.2 ⟨by omega, fun i hi => by have := hs i hi; omega⟩)
    rw [Option.bind_eq_bind, Option.bind_some, this]
    simp only [fill, List.length_cons, List.range'_succ, List.reverse_cons, List.append_assoc, List.singleton_append]

theorem foldlM_none_of_mem {f : ParseState → Bytes → Option ParseState} {L : List Bytes} {l : Bytes} (hl : l ∈ L)
    (hn : ∀ st, f st l = none) (st : ParseState) : L.foldlM f st = none := by
  induction L generalizing st with
  | nil => cases hl
  | cons x L ih =>
    rw [List.foldlM_cons]
    rcases List.mem_cons.1 hl with rfl | hl
    · rw [hn st]; rfl
    · cases f st x with
      | none => rfl
      | some st' => exact ih hl st'

end Written

end Journal
end R4
