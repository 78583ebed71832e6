import R4Recovery.BatchJournal
import R4Recovery.JournalRoundTrip
import R4Recovery.PathSpelling
/-!
# BatchJournalText — the lines of a batch journal read back

Every value that `journalValid` admits, and every normalized path, is free of line ends and of `;`, so that a line is read
as the fields it was written from.  A package comes back with its path normalized once more.
-/
namespace R4
namespace UpdateBatch

open Journal (NormalPath RecordOk plain plain_append plain_decimal not_mem_of_plain plain_of_normalPath maxPath checksum
  normalizeAbsolutePath recordLine copyTextZ copyTextZ_some refuse refuse_false segments pathByte fill)
open Manifest

/-! ## Values -/

@[simp] theorem parseU64_decimal (n : UInt64) : parseU64 (decimal n.toNat) = some n := by
  rw [parseU64, if_neg (by simp [decimal_ne_nil]), parseDigits_decimal n.toNat_lt]
  simp

theorem parseU32_decimal_nat {n : Nat} (h : n < 2 ^ 32) : parseU32 (decimal n) = some n.toUInt32 := by
  rw [parseU32, parseU64, if_neg (by simp [decimal_ne_nil]), parseDigits_decimal (by omega)]
  have hn : n.toUInt64.toNat = n := by
    simp
    omega
  simp only [Option.map_some, hn, h, if_true]
  congr 1
  rw [← UInt32.toNat_inj]
  simp

@[simp] theorem parseU32_decimal (n : UInt32) : parseU32 (decimal n.toNat) = some n := by
  rw [parseU32_decimal_nat n.toNat_lt]
  simp

@[simp] theorem parse_phase (phase : Phase) : Phase.parse phase.text = some phase := by
  cases phase <;> decide

@[simp] theorem parse_activation (mode : InstallMode) : InstallMode.parse mode.text = some mode := by
  cases mode <;> decide

@[simp] theorem parse_priority (priority : Priority) : Priority.parse priority.text = some priority := by
  cases priority <;> decide

set_option maxRecDepth 20000 in
theorem line_bytes : ∀ c : UInt8,
    ((decide (32 < c) && decide (c < 0x7F) && c != 59 && c != 124 && c != 61) = true → pathByte c = true) ∧
    ((decide (32 ≤ c) && decide (c < 0x7F) && c != 59 && c != 61) = true → pathByte c = true) ∧
    (pathByte c = true → isLineEnd c = false) := byte_forall (by decide)

theorem plain_token {value : Bytes} {n : Nat} (h : validToken value n = true) : plain value = true := by
  unfold validToken at h
  rw [Bool.and_eq_true, List.all_eq_true] at h
  exact List.all_eq_true.2 (fun c hc => (line_bytes c).1 (h.2 c hc))

theorem plain_reason {value : Bytes} (h : validReason value = true) : plain value = true := by
  unfold validReason at h
  rw [Bool.and_eq_true, List.all_eq_true] at h
  exact List.all_eq_true.2 (fun c hc => (line_bytes c).2.1 (h.2 c hc))

theorem partFrom_digits : ∀ {part : Bytes} {numeric n : Nat}, partFrom part numeric = some n →
    ∀ c ∈ part, isDigit c = true
  | [], _, _, _ => fun _ hc => absurd hc List.not_mem_nil
  | byte :: rest, numeric, n, h => by
    rw [partFrom] at h
    split at h
    · rename_i hdigit
      split at h
      · exact List.forall_mem_cons.2 ⟨hdigit, partFrom_digits h⟩
      · cases h
    · cases h

theorem plain_semanticVersion {value : Bytes} (h : validSemanticVersion value = true) : plain value = true := by
  obtain ⟨-, -, hparts, -⟩ := (validSemanticVersion_iff value).1 h
  refine List.all_eq_true.2 (fun c hc => ?_)
  have hjoin : [46].intercalate (versionParts value) = value := List.intercalate_splitOn 46
  rw [← hjoin] at hc
  rcases mem_intercalate hc with rfl | ⟨part, hpart, hc⟩
  · rfl
  · have hvalid := hparts part hpart
    unfold partValid at hvalid
    rw [Bool.and_eq_true] at hvalid
    obtain ⟨n, hn⟩ := Option.isSome_iff_exists.1 hvalid.2
    exact Journal.pathByte_of_isDigit (partFrom_digits hn c hc)

theorem length_semanticVersion {value : Bytes} (h : validSemanticVersion value = true) :
    value.length ≤ versionMaxBytes := ((validSemanticVersion_iff value).1 h).2.1

theorem length_token {value : Bytes} {n : Nat} (h : validToken value n = true) : value.length ≤ n := by
  unfold validToken at h
  rw [Bool.and_eq_true, Bool.and_eq_true, decide_eq_true_eq] at h
  exact h.1.2

theorem length_reason {value : Bytes} (h : validReason value = true) : value.length ≤ maxReason := by
  unfold validReason at h
  rw [Bool.and_eq_true, decide_eq_true_eq] at h
  exact h.1

/-! ## Lines -/

theorem not_isLineEnd {value : Bytes} (h : plain value = true) : ∀ c ∈ value, isLineEnd c = false := fun c hc =>
  (line_bytes c).2.2 (List.all_eq_true.1 h c hc)

theorem trimLine_append (front : Bytes) {line : Bytes} (hne : line ≠ []) (h : ∀ c ∈ line, isLineEnd c = false)
    (ends : Bytes) (hends : ∀ c ∈ ends, isLineEnd c = true) : trimLine (front ++ line ++ ends) = front ++ line := by
  unfold trimLine
  rw [List.reverse_append, List.dropWhile_append_of_pos (fun c hc => hends c (List.mem_reverse.1 hc))]
  obtain ⟨init, last, rfl⟩ : ∃ init last, line = init ++ [last] := by
    rcases List.eq_nil_or_concat line with rfl | ⟨init, last, rfl⟩
    · exact absurd rfl hne
    · exact ⟨init, last, List.concat_eq_append⟩
  rw [← List.append_assoc, List.reverse_append, List.reverse_singleton, List.singleton_append,
    List.dropWhile_cons_of_neg (by rw [h last (by simp)]; decide), List.reverse_cons, List.reverse_reverse]

theorem trimLine_plain {line : Bytes} (h : ∀ c ∈ line, isLineEnd c = false) : trimLine line = line := by
  by_cases hne : line = []
  · rw [hne]
    rfl
  · have htrim := trimLine_append [] hne h [] (by simp)
    rwa [List.nil_append, List.append_nil] at htrim

/-- **The last line is found behind the text in front of it**, with or without its newline. -/
theorem lastLineStart_append {front line : Bytes} (hfront : front = [] ∨ front.getLast? = some 10) (hne : line ≠ [])
    (h : ∀ c ∈ line, isLineEnd c = false) (ends : Bytes) (hends : ∀ c ∈ ends, isLineEnd c = true) (key : String) :
    lastLineStart (front ++ line ++ ends) key = if startsWith line (ascii key) then some front.length else none := by
  have hline : line.reverse.all (· != 10) = true := by
    rw [List.all_eq_true]
    intro c hc
    have hend := h c (List.mem_reverse.1 hc)
    unfold isLineEnd at hend
    rw [Bool.or_eq_false_iff] at hend
    rw [bne, hend.1]
    rfl
  have htake : (front ++ line).reverse.takeWhile (· != 10) = line.reverse := by
    rw [List.reverse_append, List.takeWhile_append_of_pos (fun c hc => List.all_eq_true.1 hline c hc)]
    rcases hfront with rfl | hlast
    · simp
    · rw [← List.head?_reverse] at hlast
      cases hr : front.reverse with
      | nil => simp
      | cons c rest =>
        rw [hr, List.head?_cons] at hlast
        rw [Option.some.inj hlast]
        simp
  unfold lastLineStart
  rw [trimLine_append front hne h ends hends]
  dsimp only
  rw [htake, List.length_reverse, List.length_append, Nat.add_sub_cancel, List.drop_left]

/-! ## Header lines -/

theorem find?_key {α : Type} {key : String} {a : α} (value : Bytes) : ∀ {table : List (String × α)},
    (∀ s ∈ table, isKey (ascii s.1) = true) → (table.map (fun s => ascii s.1)).Nodup → (key, a) ∈ table →
    table.find? (fun s => startsWith (ascii key ++ value) (ascii s.1)) = some (key, a)
  | [], _, _, hm => absurd hm List.not_mem_nil
  | s :: table, hkeys, hnodup, hm => by
    rw [List.map_cons, List.nodup_cons] at hnodup
    rw [List.find?_cons]
    rcases List.mem_cons.1 hm with rfl | hm
    · rw [startsWith_append]
    · have hkey : isKey (ascii key) = true := hkeys (key, a) (List.mem_cons_of_mem _ hm)
      have hne : startsWith (ascii key ++ value) (ascii s.1) = false := by
        rw [Bool.eq_false_iff]
        intro hs
        have heq := (startsWith_key (hkeys s List.mem_cons_self) hkey value).1 hs
        exact hnodup.1 (heq ▸ List.mem_map.2 ⟨(key, a), hm, rfl⟩)
      rw [hne]
      exact find?_key value (fun s hs => hkeys s (List.mem_cons_of_mem _ hs)) hnodup.2 hm

theorem headerSetters_keys : (∀ s ∈ headerSetters.map (·.1), isKey (ascii s) = true ∧ plain (ascii s) = true ∧
    ¬ ascii "R4U_BATCH=1" <+: ascii s ∧ ¬ ascii s <+: ascii "R4U_BATCH=1" ∧ ¬ ascii s <+: ascii "PACKAGE;" ∧
      ¬ ascii "PACKAGE;" <+: ascii s ∧ ¬ ascii "CHECKSUM=" <+: ascii s ∧ ¬ ascii s <+: ascii "CHECKSUM=") ∧
    (headerSetters.map (fun s => ascii s.1)).Nodup := by decide +kernel

theorem append_ne {pre line : Bytes} (h : ¬ pre <+: line) (x : Bytes) : pre ++ x ≠ line :=
  fun heq => h (heq ▸ List.prefix_append pre x)

/-- **A header line sets its field.** -/
theorem parseLine_setter (st : ParseState) {key : String} {set : Bytes → BatchJournal → Option BatchJournal}
    (hm : (key, set) ∈ headerSetters) {value : Bytes} (hv : plain value = true) :
    parseLine st (ascii key ++ value) = st.once key (set value st.journal) := by
  obtain ⟨hkeys, hnodup⟩ := headerSetters_keys
  obtain ⟨hkey, hplain, -, hmagic, -⟩ := hkeys key (List.mem_map.2 ⟨(key, set), hm, rfl⟩)
  have htrim := trimLine_plain (not_isLineEnd (plain_append hplain hv))
  have hne : (ascii key ++ value).isEmpty = false := by
    obtain ⟨name, hname, -⟩ := (isKey_iff _).1 hkey
    rw [hname]
    simp
  unfold parseLine
  dsimp only
  rw [htrim, hne, if_neg Bool.false_ne_true, if_neg (append_ne hmagic value),
    find?_key value (fun s hs => (hkeys s.1 (List.mem_map.2 ⟨s, hs, rfl⟩)).1) hnodup hm]
  dsimp only
  rw [List.drop_left]

/-! ## Package lines -/

theorem packageFields_keys (k : Nat) (e : PackageEntry) :
    (packageFields k e).map (·.1) = packageKeys.map (fun name => ascii name ++ [61]) := rfl

theorem packageKeys_checks : (∀ name ∈ packageKeys, isKey (ascii name ++ [61]) = true ∧ plain (ascii name ++ [61]) = true ∧
    61 ∉ ascii name) ∧ (packageKeys.map (fun name => ascii name ++ [61])).Nodup ∧ plain (ascii "PACKAGE") = true ∧
    61 ∉ ascii "PACKAGE" := by decide +kernel

/-- The values of a package line are plain. -/
structure EntryPlain (e : PackageEntry) : Prop where
  path : plain e.path = true
  package : plain e.package = true
  packageVersion : plain e.packageVersion = true
  release : plain e.release = true

variable {k : Nat} {e : PackageEntry}

theorem recordOk_package (k : Nat) (h : EntryPlain e) : RecordOk "PACKAGE" (packageFields k e) := by
  obtain ⟨hkeys, hnodup, htag⟩ := packageKeys_checks
  have hkey : ∀ f ∈ packageFields k e, isKey f.1 = true ∧ plain f.1 = true := by
    intro f hf
    have hm : f.1 ∈ packageKeys.map (fun name => ascii name ++ [61]) := packageFields_keys k e ▸ List.mem_map_of_mem hf
    obtain ⟨name, hname, heq⟩ := List.mem_map.1 hm
    rw [← heq]
    exact ⟨(hkeys name hname).1, (hkeys name hname).2.1⟩
  have hmode : plain e.activation.text = true := by cases e.activation <;> rfl
  have hpriority : plain e.priority.text = true := by cases e.priority <;> rfl
  have hvalue : ∀ f ∈ packageFields k e, plain f.2 = true := by
    simp [packageFields, h.path, h.package, h.packageVersion, h.release, hmode, hpriority]
  exact ⟨htag.1, fun f hf => (hkey f hf).1, by rw [packageFields_keys]; exact hnodup,
    fun f hf => plain_append (hkey f hf).2 (hvalue f hf), htag.2⟩

/-- **A field of a package line is found behind its key.** -/
theorem fieldValue_package (h : EntryPlain e) {key : String} {value : Bytes} (hm : (ascii key, value) ∈ packageFields k e) :
    fieldValue (recordLine "PACKAGE" (packageFields k e)) key = some value := by
  unfold fieldValue
  rw [← List.head?_filter, Journal.filter_recordLine (recordOk_package k h) hm, List.head?_cons, Option.map_some,
    List.drop_left]

theorem lineFieldsKnown_package (h : EntryPlain e) :
    lineFieldsKnown (recordLine "PACKAGE" (packageFields k e)) packageKeys = true := by
  obtain ⟨hkeys, -⟩ := packageKeys_checks
  unfold lineFieldsKnown
  rw [Journal.segments_recordLine (recordOk_package k h), List.tail_cons, List.all_eq_true]
  intro field hfield
  obtain ⟨f, hf, rfl⟩ := List.mem_map.1 hfield
  have hm : f.1 ∈ packageKeys.map (fun name => ascii name ++ [61]) := packageFields_keys k e ▸ List.mem_map_of_mem hf
  obtain ⟨name, hname, heq⟩ := List.mem_map.1 hm
  have htake : (f.1 ++ f.2).takeWhile (· != 61) = ascii name := by
    rw [← heq, List.append_assoc, List.takeWhile_append_of_pos]
    · simp
    · intro c hc
      rw [bne_iff_ne]
      rintro rfl
      exact (hkeys name hname).2.2 hc
  rw [Bool.and_eq_true]
  refine ⟨?_, List.any_eq_true.2 ⟨name, hname, by rw [htake]; exact beq_self_eq_true _⟩⟩
  rw [← heq]
  simp

/-- The package as a parse gives it back. -/
def reread (e : PackageEntry) : Option PackageEntry :=
  (normalizeAbsolutePath maxPath e.path).map fun path => { e with path }

theorem entryValid_iff (count : Nat) (target : Bytes) (e : PackageEntry) : entryValid count target e = true ↔
    e.order.toNat < count ∧ e.path.length ≠ 0 ∧ e.path.length < maxPath ∧ validToken e.package packageNameMaxBytes = true ∧
      validSemanticVersion e.packageVersion = true ∧ validSemanticVersion e.release = true ∧ e.release = target ∧
      headerSize < e.packageLength.toNat := by
  unfold entryValid
  simp only [Bool.and_eq_true, decide_eq_true_eq, bne_iff_ne, beq_iff_eq, and_assoc]

variable {count : Nat} {target : Bytes}

theorem entryPlain_of_valid (h : entryValid count target e = true) (hp : plain e.path = true) : EntryPlain e := by
  obtain ⟨-, -, -, htoken, hversion, hrelease, -⟩ := (entryValid_iff count target e).1 h
  exact ⟨hp, plain_token htoken, plain_semanticVersion hversion, plain_semanticVersion hrelease⟩

/-- **A package line gives the package back, its path normalized again.** -/
theorem parsePackageLine_line (h : entryValid count target e = true) (hp : plain e.path = true) (hcount : count ≤ maxPackages)
    (hk : k < maxPackages) : parsePackageLine (recordLine "PACKAGE" (packageFields k e)) k = reread e := by
  have hplain := entryPlain_of_valid h hp
  obtain ⟨horder, -, -, htoken, hversion, hrelease, -⟩ := (entryValid_iff count target e).1 h
  have hmax : maxPackages = 16 := rfl
  have hindex : parseU32 (decimal k) = some k.toUInt32 := parseU32_decimal_nat (by omega)
  have hkn : k.toUInt32.toNat = k := by
    simp
    omega
  have horder32 : parseU32 (decimal e.order.toNat) = some e.order.toNat.toUInt32 := parseU32_decimal_nat (by omega)
  have hon : e.order.toNat.toUInt32.toNat = e.order.toNat := by simp
  have hback : e.order.toNat.toUInt32.toUInt8 = e.order := by
    rw [← UInt8.toNat_inj, UInt32.toNat_toUInt8, hon]
    exact Nat.mod_eq_of_lt e.order.toNat_lt
  have hknown : (decide (maxPackages ≤ k) || !lineFieldsKnown (recordLine "PACKAGE" (packageFields k e)) packageKeys) = false := by
    rw [lineFieldsKnown_package hplain, decide_eq_false (Nat.not_le.2 hk)]
    rfl
  unfold parsePackageLine
  rw [hknown, fieldValue_package hplain (List.mem_of_getElem? (i := 0) rfl),
    fieldValue_package hplain (List.mem_of_getElem? (i := 1) rfl),
    fieldValue_package hplain (List.mem_of_getElem? (i := 2) rfl),
    fieldValue_package hplain (List.mem_of_getElem? (i := 3) rfl),
    fieldValue_package hplain (List.mem_of_getElem? (i := 4) rfl),
    fieldValue_package hplain (List.mem_of_getElem? (i := 5) rfl),
    fieldValue_package hplain (List.mem_of_getElem? (i := 6) rfl),
    fieldValue_package hplain (List.mem_of_getElem? (i := 7) rfl),
    fieldValue_package hplain (List.mem_of_getElem? (i := 8) rfl),
    fieldValue_package hplain (List.mem_of_getElem? (i := 9) rfl),
    fieldValue_package hplain (List.mem_of_getElem? (i := 10) rfl),
    fieldValue_package hplain (List.mem_of_getElem? (i := 11) rfl)]
  simp only [Option.getD_some, hindex, horder32, hkn, hon, bne_self_eq_false, refuse_false, Option.bind_eq_bind,
    Option.bind_some, decide_eq_false (Nat.not_le.2 (Nat.lt_of_lt_of_le horder hcount)), parseU64_decimal, parseU32_decimal,
    parse_activation, parse_priority, copyTextZ_some (Nat.succ_le_succ (length_token htoken)),
    copyTextZ_some (Nat.succ_le_succ (length_semanticVersion hversion)),
    copyTextZ_some (Nat.succ_le_succ (length_semanticVersion hrelease)), hback]
  unfold reread
  cases normalizeAbsolutePath maxPath e.path with
  | none => rfl
  | some path => rfl

end UpdateBatch
end R4
