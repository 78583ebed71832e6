import R4Recovery.JournalText
import R4Recovery.JournalPath
/-!
# JournalRecord — component and payload lines read back

A record line's segments are its tag and its fields, and each field is found behind its own key
(`requiredField_recordLine`).  A valid component's line reads back as the component (`parseComponent_line`); a payload's
line reads back as the payload exactly when the payload has no size or checksum of an unknown old file
(`parsePayload_line`).
-/
namespace R4
namespace Journal

/-! ## Values -/

@[simp] theorem refuse_false : refuse false = some () := rfl

theorem refuse_eq_some {bad : Bool} {u : Unit} : refuse bad = some u ↔ bad = false := by
  cases bad <;> simp [refuse]

@[simp] theorem parseU64_decimal (n : UInt64) : parseU64 (decimal n.toNat) = some n := by
  rw [parseU64, parseNat_decimal n.toNat_lt]
  simp

@[simp] theorem parseU32_decimal (n : UInt32) : parseU32 (decimal n.toNat) = some n := by
  have h : n.toNat < 2 ^ 32 := n.toNat_lt
  rw [parseU32, parseNat_decimal (by omega)]
  simp only [h, if_true, Nat.toUInt32_eq, UInt32.ofNat_toNat]

@[simp] theorem parseBool01_flagByte (b : Bool) : parseBool01 (flagByte b) = some b := by cases b <;> rfl

@[simp] theorem parsePhase_phaseName (phase : JournalPhase) : parsePhase (phaseName phase) = some phase := by
  cases phase <;> decide

@[simp] theorem parse_text (kind : JournalComponentKind) : JournalComponentKind.parse kind.text = some kind := by
  cases kind <;> decide

/-- Every byte may stand in a field. -/
def plain (value : Bytes) : Bool := value.all pathByte

theorem plain_append {a b : Bytes} (ha : plain a = true) (hb : plain b = true) : plain (a ++ b) = true := by
  unfold plain at *; rw [List.all_append, ha, hb]; rfl

theorem not_mem_of_plain {value : Bytes} (h : plain value = true) {c : UInt8} (hc : pathByte c = false) : c ∉ value := by
  intro hm
  rw [List.all_eq_true.1 h c hm] at hc
  cases hc

set_option maxRecDepth 20000 in
theorem pathByte_of_isDigit {c : UInt8} (h : isDigit c = true) : pathByte c = true := by
  have key : ∀ c : UInt8, isDigit c = true → pathByte c = true := byte_forall (by decide)
  exact key c h

@[simp] theorem plain_decimal (n : Nat) : plain (decimal n) = true :=
  List.all_eq_true.2 (fun c hc => pathByte_of_isDigit (decimal_digits n c hc))

@[simp] theorem plain_flagByte (b : Bool) : plain (flagByte b) = true := by cases b <;> rfl

@[simp] theorem plain_text (kind : JournalComponentKind) : plain kind.text = true := by cases kind <;> rfl

@[simp] theorem plain_phaseName (phase : JournalPhase) : plain (phaseName phase) = true := by cases phase <;> rfl

theorem plain_of_normalPath {cap : Nat} {p : Bytes} (h : NormalPath cap p) : plain p = true :=
  List.all_eq_true.2 (pathByte_of_normalPath h)

def versionByte (c : UInt8) : Bool := isDigit c || c == 46

theorem versionFrom_bytes (value : Bytes) (digits part : Nat) (h : versionFrom value digits part = true) :
    ∀ c ∈ value, versionByte c = true := by
  induction value generalizing digits part with
  | nil => simp
  | cons c rest ih =>
    rw [versionFrom] at h
    by_cases hd : '0'.toUInt8 ≤ c ∧ c ≤ '9'.toUInt8
    · rw [if_pos hd] at h
      have hc : versionByte c = true := by
        have h1 : (48 : UInt8) ≤ c := hd.1
        have h2 : c ≤ 57 := hd.2
        simp [versionByte, isDigit, h1, h2]
      split at h
      · exact List.forall_mem_cons.2 ⟨hc, ih _ _ h⟩
      · cases h
    · rw [if_neg hd] at h
      split at h
      · cases h
      · rename_i hdot
        simp only [Bool.or_eq_true, not_or, bne_iff_ne, ne_eq, Decidable.not_not] at hdot
        have hc : versionByte c = true := by
          have : c = 46 := hdot.1
          rw [this]; rfl
        exact List.forall_mem_cons.2 ⟨hc, ih _ _ h⟩

set_option maxRecDepth 20000 in
theorem written_bytes : ∀ c : UInt8, (versionByte c = true → pathByte c = true ∧ isBlank c = false) ∧
    ((decide (32 < c) && decide (c < 0x7F) && c != 59 && c != 61 && c != 124) = true → pathByte c = true) ∧
    (componentTargetByte c = true → pathByte c = true) := byte_forall (by decide)

theorem pathByte_of_versionByte {c : UInt8} (h : versionByte c = true) : pathByte c = true ∧ isBlank c = false :=
  (written_bytes c).1 h

theorem versionText_bytes {value : Bytes} (h : versionTextValid value = true) : ∀ c ∈ value, versionByte c = true := by
  simp only [versionTextValid, Bool.and_eq_true] at h
  exact versionFrom_bytes value 0 0 h.2

theorem plain_version {value : Bytes} (h : versionTextValid value = true) : plain value = true :=
  List.all_eq_true.2 (fun c hc => (pathByte_of_versionByte (versionText_bytes h c hc)).1)

/-- A field text that ends a line: plain, not empty and with no blank at the end. -/
def endsLine (value : Bytes) : Prop := ∃ l, value.getLast? = some l ∧ isBlank l = false

theorem endsLine_of_forall {value : Bytes} (hne : value ≠ []) (h : ∀ c ∈ value, isBlank c = false) : endsLine value :=
  ⟨value.getLast hne, List.getLast?_eq_some_getLast hne, h _ (List.getLast_mem hne)⟩

theorem endsLine_version {value : Bytes} (h : versionTextValid value = true) : endsLine value := by
  refine endsLine_of_forall ?_ (fun c hc => (pathByte_of_versionByte (versionText_bytes h c hc)).2)
  rintro rfl
  cases h

theorem endsLine_decimal (n : Nat) : endsLine (decimal n) :=
  endsLine_of_forall (decimal_ne_nil n) (fun c hc => isBlank_of_isDigit (decimal_digits n c hc))

theorem endsLine_append {a b : Bytes} (hb : endsLine b) : endsLine (a ++ b) := by
  obtain ⟨l, hl, hb⟩ := hb
  exact ⟨l, by rw [List.getLast?_append, hl]; rfl, hb⟩

/-! ## Record lines -/

theorem endsLine_intercalate {sep : UInt8} (L : List Bytes) {last : Bytes} (h : endsLine last) :
    endsLine ([sep].intercalate (L ++ [last])) := by
  induction L with
  | nil => simpa using h
  | cons l L ih =>
    rw [List.cons_append, List.intercalate_cons_of_ne_nil (by simp)]
    exact endsLine_append ih

section Record

variable {tag : String} {fields : List (Bytes × Bytes)}

/-- The fields of a record line: plain, under distinct keys, and none of the keys starts the tag. -/
structure RecordOk (tag : String) (fields : List (Bytes × Bytes)) : Prop where
  tagPlain : plain (ascii tag) = true
  keys : ∀ f ∈ fields, isKey f.1 = true
  distinct : (fields.map (·.1)).Nodup
  texts : ∀ f ∈ fields, plain (f.1 ++ f.2) = true
  tagApart : 61 ∉ ascii tag

theorem segments_recordLine (h : RecordOk tag fields) : segments (recordLine tag fields) = ascii tag :: fieldTexts fields := by
  unfold segments recordLine
  refine List.splitOn_intercalate 59 (fun l hl => ?_) (by simp)
  rcases List.mem_cons.1 hl with rfl | hl
  · exact not_mem_of_plain h.tagPlain rfl
  · obtain ⟨f, hf, rfl⟩ := List.mem_map.1 hl
    exact not_mem_of_plain (h.texts f hf) rfl

theorem startsWith_tag (h : RecordOk tag fields) {key : Bytes} (hk : isKey key = true) :
    startsWith (ascii tag) key = false := by
  rw [Bool.eq_false_iff]
  intro hs
  obtain ⟨name, rfl, -⟩ := (isKey_iff key).1 hk
  rw [startsWith, List.isPrefixOf_iff_prefix] at hs
  obtain ⟨tail, ht⟩ := hs
  exact h.tagApart (by rw [← ht]; simp)

theorem filter_recordLine (h : RecordOk tag fields) {key : String} {value : Bytes}
    (hm : (ascii key, value) ∈ fields) :
    (segments (recordLine tag fields)).filter (fun s => startsWith s (ascii key)) = [ascii key ++ value] := by
  have hk := h.keys _ hm
  rw [segments_recordLine h, List.filter_cons_of_neg (by simp [startsWith_tag h hk])]
  exact filter_field hk h.keys h.distinct hm

theorem fieldOccurrences_recordLine (h : RecordOk tag fields) {key : String} {value : Bytes}
    (hm : (ascii key, value) ∈ fields) : fieldOccurrences (recordLine tag fields) key = 1 := by
  rw [fieldOccurrences, List.countP_eq_length_filter, filter_recordLine h hm]
  rfl

theorem fieldValue_recordLine (h : RecordOk tag fields) {key : String} {value : Bytes}
    (hm : (ascii key, value) ∈ fields) : fieldValue (recordLine tag fields) key = some value := by
  rw [fieldValue, filter_recordLine h hm]
  simp

/-- **A field of a record line is found behind its key.** -/
theorem requiredField_recordLine (h : RecordOk tag fields) {key : String} {value : Bytes}
    (hm : (ascii key, value) ∈ fields) : requiredField (recordLine tag fields) key = some value := by
  rw [requiredField, fieldOccurrences_recordLine h hm, fieldValue_recordLine h hm]
  rfl

theorem optionalField_recordLine (h : RecordOk tag fields) {key : String} {value : Bytes}
    (hm : (ascii key, value) ∈ fields) : optionalField (recordLine tag fields) key = some value := by
  rw [optionalField, fieldOccurrences_recordLine h hm, fieldValue_recordLine h hm]
  rfl

theorem segmentsKnown_recordLine (h : RecordOk tag fields) {allowed : List String}
    (hk : fields.map (·.1) = allowed.map ascii) : segmentsKnown tag allowed (recordLine tag fields) = true := by
  rw [segmentsKnown, segments_recordLine h]
  simp only [beq_self_eq_true, Bool.true_and, List.all_eq_true]
  intro s hs
  obtain ⟨f, hf, rfl⟩ := List.mem_map.1 hs
  have : f.1 ∈ allowed.map ascii := by rw [← hk]; exact List.mem_map_of_mem hf
  obtain ⟨key, hkey, he⟩ := List.mem_map.1 this
  exact List.any_eq_true.2 ⟨key, hkey, by rw [he]; exact startsWith_append _ _⟩

theorem occurrences_recordLine (h : RecordOk tag fields) (allowed : List String)
    (hk : fields.map (·.1) = allowed.map ascii) {key : String} (hkey : key ∈ allowed) :
    fieldOccurrences (recordLine tag fields) key = 1 := by
  have : ascii key ∈ fields.map (·.1) := by rw [hk]; exact List.mem_map_of_mem hkey
  obtain ⟨f, hf, he⟩ := List.mem_map.1 this
  exact fieldOccurrences_recordLine h (he ▸ hf : (ascii key, f.2) ∈ fields)

theorem newline_recordLine (h : RecordOk tag fields) : 10 ∉ recordLine tag fields := by
  intro hm
  rcases mem_intercalate hm with he | ⟨l, hl, hc⟩
  · cases he
  · rcases List.mem_cons.1 hl with rfl | hl
    · exact not_mem_of_plain h.tagPlain rfl hc
    · obtain ⟨f, hf, rfl⟩ := List.mem_map.1 hl
      exact not_mem_of_plain (h.texts f hf) rfl hc

theorem recordOk_of_keys (allowed : List String) (hk : fields.map (·.1) = allowed.map ascii)
    (hd : (allowed.map ascii).Nodup) (hkeys : ∀ k ∈ allowed.map ascii, isKey k = true ∧ plain k = true)
    (htag : plain (ascii tag) = true ∧ 61 ∉ ascii tag) (hv : ∀ f ∈ fields, plain f.2 = true) : RecordOk tag fields where
  tagPlain := htag.1
  keys := fun f hf => (hkeys f.1 (by rw [← hk]; exact List.mem_map_of_mem hf)).1
  distinct := by rw [hk]; exact hd
  texts := fun f hf => plain_append (hkeys f.1 (by rw [← hk]; exact List.mem_map_of_mem hf)).2 (hv f hf)
  tagApart := htag.2

end Record

/-! ## Components -/

theorem plain_name {value : Bytes} (h : componentTokenValid value = true) : plain value = true := by
  simp only [componentTokenValid, Bool.and_eq_true, List.all_eq_true] at h
  refine List.all_eq_true.2 (fun c hc => (written_bytes c).2.1 ?_)
  simpa only [Bool.and_eq_true] using h.2 c hc

theorem plain_componentTarget {value : Bytes} (h : value.all componentTargetByte = true) : plain value = true := by
  have key : ∀ c : UInt8, componentTargetByte c = true → pathByte c = true := fun c => (written_bytes c).2.2
  exact List.all_eq_true.2 (fun c hc => key c (List.all_eq_true.1 h c hc))

theorem recordOk_component (index : Nat) {c : JournalComponent} (h : componentValid c = true) :
    RecordOk "COMPONENT" (componentFields index c) := by
  simp only [componentValid, Bool.and_eq_true] at h
  obtain ⟨⟨⟨⟨⟨⟨hname, hversion⟩, -⟩, -⟩, -⟩, htarget⟩, -⟩ := h
  refine recordOk_of_keys componentKeys rfl (by decide) (by decide) (by decide) ?_
  simp [componentFields, plain_name hname, plain_version hversion, plain_componentTarget htarget]

theorem length_version {value : Bytes} (h : versionTextValid value = true) : value.length + 1 ≤ maxVersion := by
  simp only [versionTextValid, Bool.and_eq_true, decide_eq_true_eq] at h
  exact h.1.2

theorem copyTextZ_some {cap : Nat} {value : Bytes} (h : value.length + 1 ≤ cap) : copyTextZ cap value = some value := by
  rw [copyTextZ, if_pos h]

theorem parseComponent_line (index : Nat) {c : JournalComponent} (h : componentValid c = true) {count : UInt32}
    (hc : c.payloadIndex < count) :
    parseComponent count (recordLine "COMPONENT" (componentFields index c)) = some c := by
  have hok := recordOk_component index h
  have hv := h
  simp only [componentValid, componentTokenValid, Bool.and_eq_true, decide_eq_true_eq] at hv
  obtain ⟨⟨⟨⟨⟨⟨⟨⟨-, hname⟩, -⟩, hversion⟩, -⟩, htarget⟩, -⟩, -⟩, -⟩ := hv
  unfold parseComponent
  rw [requiredField_recordLine hok (List.mem_of_getElem? (i := 1) rfl),
    requiredField_recordLine hok (List.mem_of_getElem? (i := 2) rfl),
    requiredField_recordLine hok (List.mem_of_getElem? (i := 3) rfl),
    requiredField_recordLine hok (List.mem_of_getElem? (i := 4) rfl),
    requiredField_recordLine hok (List.mem_of_getElem? (i := 5) rfl)]
  simp only [Option.bind_eq_bind, Option.bind_some, parseU32_decimal, parse_text,
    copyTextZ_some (show c.name.length + 1 ≤ 49 by omega), copyTextZ_some (show c.target.length + 1 ≤ maxPath by omega),
    copyTextZ_some (length_version hversion), h, UInt32.not_le.2 hc, decide_false, Bool.not_true, Bool.or_self]
  rfl

/-! ## Payloads -/

/-- The parser's view of an old file: one that is not known has neither size nor checksum. -/
def oldReadable (e : JournalPayload) : Bool := e.oldKnown || (e.oldSize == 0 && e.oldChecksum == 0)

/-- What the reader needs of a payload's paths. -/
structure PathsOk (e : JournalPayload) : Prop where
  target : NormalPath maxPath e.target ∧ driveRooted e.target = false
  stage : NormalPath maxPath e.stage ∧ driveRooted e.stage = false
  backup : NormalPath maxPath e.backup ∧ driveRooted e.backup = false
  previous : e.previousBackup = [] ∨ NormalPath maxPath e.previousBackup ∧ driveRooted e.previousBackup = false

theorem recordOk_payload (index : Nat) {e : JournalPayload} (h : PathsOk e) : RecordOk "PAYLOAD" (payloadFields index e) := by
  have hprev : plain e.previousBackup = true := by
    rcases h.previous with hp | hp
    · rw [hp]; rfl
    · exact plain_of_normalPath hp.1
  refine recordOk_of_keys payloadKeys rfl (by decide) (by decide) (by decide) ?_
  simp [payloadFields, plain_of_normalPath h.target.1, plain_of_normalPath h.stage.1, plain_of_normalPath h.backup.1, hprev]

theorem parseTriple_written (known : Bool) (size : UInt64) (sum : UInt32) :
    parseTriple (some (flagByte known)) (some (decimal size.toNat)) (some (decimal sum.toNat)) =
      if known || (size == 0 && sum == 0) then some (known, size, sum) else none := by
  unfold parseTriple
  simp only [parseBool01_flagByte]
  cases known with
  | true => simp
  | false =>
    simp only [Option.all_some, parseU64_decimal, parseU32_decimal, Bool.false_or, Option.some_beq_some]
    by_cases hz : (size == 0 && sum == 0) = true
    · rw [if_pos hz, if_pos hz]
      simp only [Bool.and_eq_true, beq_iff_eq] at hz
      rw [hz.1, hz.2]
    · rw [if_neg hz, if_neg hz]

theorem parsePrevious_self {e : JournalPayload} (h : PathsOk e) :
    parsePrevious e.previousBackup = some e.previousBackup := by
  unfold parsePrevious
  rcases h.previous with hp | hp
  · rw [hp]; rfl
  · rw [normalize_self hp.1 hp.2]
    split
    · rename_i he
      rw [List.isEmpty_iff.1 he]
    · rfl

/-- **A payload line reads back as its payload, exactly when the old file's triple is readable.** -/
theorem parsePayload_line (index : Nat) {e : JournalPayload} (h : PathsOk e) (hs : payloadShapeOk e = true) :
    parsePayload (recordLine "PAYLOAD" (payloadFields index e)) = if oldReadable e then some e else none := by
  have hok := recordOk_payload index h
  simp only [payloadShapeOk, Bool.and_eq_true, Bool.not_eq_true'] at hs
  obtain ⟨⟨⟨⟨⟨⟨⟨⟨-, -⟩, -⟩, h1⟩, h2⟩, h3⟩, -⟩, h5⟩, h6⟩ := hs
  have hprev : (e.previousBackupKnown || (e.previousBackupSize == 0 && e.previousBackupChecksum == 0)) = true := by
    cases hk : e.previousBackupKnown with
    | true => rfl
    | false =>
      simp only [hk, Bool.not_false, Bool.true_and, Bool.or_eq_false_iff, bne_eq_false_iff_eq] at h5
      simp [h5.1, h5.2]
  unfold parsePayload
  rw [requiredField_recordLine hok (List.mem_of_getElem? (i := 1) rfl),
    requiredField_recordLine hok (List.mem_of_getElem? (i := 2) rfl),
    requiredField_recordLine hok (List.mem_of_getElem? (i := 3) rfl),
    optionalField_recordLine hok (List.mem_of_getElem? (i := 4) rfl),
    optionalField_recordLine hok (List.mem_of_getElem? (i := 5) rfl),
    optionalField_recordLine hok (List.mem_of_getElem? (i := 6) rfl),
    optionalField_recordLine hok (List.mem_of_getElem? (i := 7) rfl),
    requiredField_recordLine hok (List.mem_of_getElem? (i := 8) rfl),
    requiredField_recordLine hok (List.mem_of_getElem? (i := 9) rfl),
    requiredField_recordLine hok (List.mem_of_getElem? (i := 10) rfl),
    optionalField_recordLine hok (List.mem_of_getElem? (i := 11) rfl),
    optionalField_recordLine hok (List.mem_of_getElem? (i := 12) rfl),
    optionalField_recordLine hok (List.mem_of_getElem? (i := 13) rfl),
    requiredField_recordLine hok (List.mem_of_getElem? (i := 14) rfl),
    requiredField_recordLine hok (List.mem_of_getElem? (i := 15) rfl),
    requiredField_recordLine hok (List.mem_of_getElem? (i := 16) rfl)]
  simp only [Option.bind_eq_bind, Option.bind_some, normalize_self h.target.1 h.target.2,
    normalize_self h.stage.1 h.stage.2, normalize_self h.backup.1 h.backup.2, Option.getD_some, parsePrevious_self h,
    parseTriple_written, hprev, if_true, h2, parseU64_decimal, parseU32_decimal, parseBool01_flagByte]
  unfold oldReadable
  split
  · simp only [Option.bind_some, h1, h3, h6]
    rfl
  · rfl

end Journal
end R4
