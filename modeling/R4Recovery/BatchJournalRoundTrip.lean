import R4Recovery.BatchJournalText
/-!
# BatchJournalRoundTrip — a batch journal and its text

A valid journal fits its buffer and reads back, unless a package path is spelled `\X\…`: the parser takes that for a drive.
No cut of a journal's text is read as a journal.
-/
namespace R4
namespace UpdateBatch

open Journal (NormalPath plain plain_append plain_decimal maxPath checksum normalizeAbsolutePath recordLine copyTextZ
  copyTextZ_some refuse refuse_false refuse_eq_some fill driveRooted)
open Manifest

variable {j : BatchJournal} {slot : UInt8}

/-! ## What a valid journal holds -/

theorem journalValid_iff (j : BatchJournal) : journalValid j = true ↔
    j.valid = true ∧ j.slot ≤ 1 ∧ j.batchGeneration ≠ 0 ∧ j.journalGeneration ≠ 0 ∧ j.packageCount ≠ 0 ∧
      j.packageCount.toNat ≤ maxPackages ∧ j.currentPackage ≤ j.packageCount ∧
      validSemanticVersion j.sourceRelease = true ∧ validSemanticVersion j.targetRelease = true ∧
      validReason j.reason = true ∧ entriesValid j.packageCount.toNat j.targetRelease [] j.live = true := by
  unfold journalValid
  simp only [Bool.and_eq_true, decide_eq_true_eq, bne_iff_ne, and_assoc]

theorem entryValid_of_mem {count : Nat} {target : Bytes} : ∀ {prior es : List PackageEntry},
    entriesValid count target prior es = true → ∀ e ∈ es, entryValid count target e = true
  | _, [], _ => fun _ he => absurd he List.not_mem_nil
  | prior, e :: es, h => by
    unfold entriesValid at h
    rw [Bool.and_eq_true, Bool.and_eq_true] at h
    exact List.forall_mem_cons.2 ⟨h.1.1, entryValid_of_mem h.2⟩

/-- A valid journal whose package paths are normalized. -/
structure TextOk (j : BatchJournal) : Prop where
  valid : journalValid j = true
  paths : ∀ e ∈ j.live, NormalPath maxPath e.path

theorem live_length (h : j.packageCount.toNat ≤ maxPackages) : j.live.length = j.packageCount.toNat := by
  unfold BatchJournal.live
  rw [List.length_take, Vector.length_toList]
  omega

namespace TextOk

theorem entry (h : TextOk j) {e : PackageEntry} (he : e ∈ j.live) :
    entryValid j.packageCount.toNat j.targetRelease e = true := by
  obtain ⟨-, -, -, -, -, -, -, -, -, -, hentries⟩ := (journalValid_iff j).1 h.valid
  exact entryValid_of_mem hentries e he

theorem count_le (h : TextOk j) : j.packageCount.toNat ≤ maxPackages := by
  obtain ⟨-, -, -, -, -, hcount, -⟩ := (journalValid_iff j).1 h.valid
  exact hcount

theorem plainPath (h : TextOk j) {e : PackageEntry} (he : e ∈ j.live) : plain e.path = true :=
  Journal.plain_of_normalPath (h.paths e he)

theorem entryPlain (h : TextOk j) {e : PackageEntry} (he : e ∈ j.live) : EntryPlain e :=
  entryPlain_of_valid (h.entry he) (h.plainPath he)

theorem headerValues (h : TextOk j) : ∀ f ∈ headerFields j, plain f.2 = true := by
  obtain ⟨-, -, -, -, -, -, -, hsource, htarget, hreason, -⟩ := (journalValid_iff j).1 h.valid
  have hphase : plain j.phase.text = true := by cases j.phase <;> rfl
  simp [headerFields, hphase, plain_semanticVersion hsource, plain_semanticVersion htarget, plain_reason hreason,
    show plain (ascii "1") = true from rfl]

end TextOk

/-! ## Lines of the body -/

/-- A written line: not empty, without line ends, and not a checksum line. -/
structure BodyLine (l : Bytes) : Prop where
  ne : l ≠ []
  ends : ∀ c ∈ l, isLineEnd c = false
  other : ¬ ascii "CHECKSUM=" <+: l

theorem package_eq (k : Nat) (e : PackageEntry) :
    ∃ x, recordLine "PACKAGE" (packageFields k e) = ascii "PACKAGE;" ++ x :=
  Journal.recordLine_eq "PACKAGE" (packageFields k e) (by simp [packageFields])

theorem bodyLine_package (k : Nat) {e : PackageEntry} (h : EntryPlain e) :
    BodyLine (recordLine "PACKAGE" (packageFields k e)) := by
  have hok := recordOk_package k h
  obtain ⟨x, hx⟩ := package_eq k e
  refine ⟨by rw [hx]; exact List.append_ne_nil_of_left_ne_nil (by decide) x, fun c hc => ?_, fun hp => ?_⟩
  · rcases mem_intercalate hc with rfl | ⟨l, hl, hc⟩
    · rfl
    · rcases List.mem_cons.1 hl with rfl | hl
      · exact not_isLineEnd hok.tagPlain c hc
      · obtain ⟨f, hf, rfl⟩ := List.mem_map.1 hl
        exact not_isLineEnd (hok.texts f hf) c hc
  · rw [hx] at hp
    rcases List.prefix_or_prefix_of_prefix hp (List.prefix_append (ascii "PACKAGE;") x) with h | h
    · exact absurd h (by decide)
    · exact absurd h (by decide)

/-- The header keys. -/
def headerKeys : List Bytes := (headerFields {}).map (·.1)

theorem headerKeys_checks : ∀ key ∈ headerKeys, key ≠ [] ∧ plain key = true ∧ ¬ ascii "CHECKSUM=" <+: key ∧
    ¬ key <+: ascii "CHECKSUM=" := by decide +kernel

theorem bodyLine_of_mem (h : TextOk j) : ∀ l ∈ bodyLines j, BodyLine l := by
  intro l hl
  rcases List.mem_append.1 hl with hl | hl
  · obtain ⟨f, hf, rfl⟩ := List.mem_map.1 hl
    have hkeys : (headerFields j).map (·.1) = headerKeys := rfl
    have hkey : f.1 ∈ headerKeys := hkeys ▸ List.mem_map_of_mem hf
    obtain ⟨hne, hplain, h1, h2⟩ := headerKeys_checks f.1 hkey
    refine ⟨List.append_ne_nil_of_left_ne_nil hne f.2, not_isLineEnd (plain_append hplain (h.headerValues f hf)), fun hp => ?_⟩
    rcases List.prefix_or_prefix_of_prefix hp (List.prefix_append f.1 f.2) with hp | hp
    · exact h1 hp
    · exact h2 hp
  · obtain ⟨e, he, rfl⟩ := List.mem_map.1 hl
    exact bodyLine_package _ (h.entryPlain (List.fst_mem_of_mem_zipIdx he))

theorem checksumLine_ends (j : BatchJournal) : ∀ c ∈ checksumLine j, isLineEnd c = false :=
  not_isLineEnd (plain_append (by decide) (plain_decimal _))

theorem newline_notMem {l : Bytes} (h : ∀ c ∈ l, isLineEnd c = false) : (10 : UInt8) ∉ l := fun hm =>
  absurd (h 10 hm) (by decide)

/-! ## Reading the text -/

theorem bodyText_last (L : List Bytes) : L.flatMap (· ++ [10]) = [] ∨ (L.flatMap (· ++ [10])).getLast? = some (10 : UInt8) := by
  rcases List.eq_nil_or_concat L with rfl | ⟨init, l, rfl⟩
  · exact .inl rfl
  · refine .inr ?_
    rw [List.concat_eq_append, List.flatMap_append]
    simp

/-- **The checksum line gives back the text in front of it.** -/
theorem parseChecksum_text (j : BatchJournal) : parseChecksum (journalText j) = some (bodyText j) := by
  have hne : checksumLine j ≠ [] := by
    unfold checksumLine
    exact List.append_ne_nil_of_left_ne_nil (by decide) _
  have hnl : ∀ c ∈ [(10 : UInt8)], isLineEnd c = true := fun c hc => by
    rw [List.mem_singleton.1 hc]
    rfl
  have hstart : lastLineStart (journalText j) "CHECKSUM=" = some (bodyText j).length := by
    have hlast := lastLineStart_append (bodyText_last (bodyLines j)) hne (checksumLine_ends j) [10] hnl "CHECKSUM="
    rw [checksumLine, startsWith_append, if_pos rfl, List.append_assoc] at hlast
    exact hlast
  have htrim : trimLine ((journalText j).drop (bodyText j).length) = checksumLine j := by
    rw [journalText, List.drop_left]
    have happend := trimLine_append [] hne (checksumLine_ends j) [10] hnl
    rwa [List.nil_append] at happend
  unfold parseChecksum
  rw [hstart]
  simp only [Option.bind_eq_bind, Option.bind_some, htrim]
  rw [checksumLine, List.drop_left, parseU32_decimal, Option.bind_some, journalText, List.take_left, bne_self_eq_false,
    refuse_false]
  rfl

/-- The header as the first nine lines leave it. -/
def headerOf (j : BatchJournal) : BatchJournal :=
  { batchGeneration := j.batchGeneration, journalGeneration := j.journalGeneration, phase := j.phase
    packageCount := j.packageCount, currentPackage := j.currentPackage, sourceRelease := j.sourceRelease
    targetRelease := j.targetRelease, reason := j.reason }

def headerSeen : List String := (headerSetters.map (·.1)).reverse ++ ["R4U_BATCH=1"]

/-- A header line: its key, what it sets, and its value. -/
abbrev HeaderStep : Type := (String × (Bytes → BatchJournal → Option BatchJournal)) × Bytes

def HeaderStep.line (s : HeaderStep) : Bytes := ascii s.1.1 ++ s.2

def HeaderStep.set (journal : BatchJournal) (s : HeaderStep) : Option BatchJournal := s.1.2 s.2 journal

/-- **Lines of different keys set their fields one after the other.** -/
theorem foldlM_setters : ∀ (steps : List HeaderStep) (st : ParseState),
    (∀ s ∈ steps, s.1 ∈ headerSetters ∧ plain s.2 = true) → (steps.map (·.1.1)).Nodup →
    (∀ s ∈ steps, s.1.1 ∉ st.seen) → (steps.map HeaderStep.line).foldlM parseLine st
      = (steps.foldlM HeaderStep.set st.journal).map fun journal =>
          { st with journal, seen := (steps.map (·.1.1)).reverse ++ st.seen }
  | [], _, _, _, _ => rfl
  | s :: steps, st, hs, hnodup, hseen => by
    obtain ⟨hm, hv⟩ := hs s List.mem_cons_self
    rw [List.map_cons, List.nodup_cons] at hnodup
    have hnew : st.seen.contains s.1.1 = false := by
      rw [List.contains_eq_mem, decide_eq_false (hseen s List.mem_cons_self)]
    rw [List.map_cons, List.foldlM_cons, HeaderStep.line, parseLine_setter st hm hv, List.foldlM_cons, HeaderStep.set]
    unfold ParseState.once
    rw [hnew, if_neg Bool.false_ne_true]
    cases hset : s.1.2 s.2 st.journal with
    | none => rfl
    | some journal =>
      rw [Option.map_some, Option.bind_eq_bind, Option.bind_some, Option.bind_eq_bind, Option.bind_some,
        foldlM_setters steps _ (fun s hm => hs s (List.mem_cons_of_mem _ hm)) hnodup.2]
      · simp only [List.map_cons, List.reverse_cons, List.append_assoc, List.singleton_append]
      · intro s' hm' hmem
        rcases List.mem_cons.1 hmem with heq | hmem
        · exact hnodup.1 (heq ▸ List.mem_map.2 ⟨s', hm', rfl⟩)
        · exact hseen s' (List.mem_cons_of_mem _ hm') hmem

/-- The header lines behind the first, with their setters. -/
def headerSteps (j : BatchJournal) : List HeaderStep :=
  headerSetters.zip ((headerFields j).tail.map (·.2))

theorem headerSteps_set (h : TextOk j) :
    (headerSteps j).foldlM HeaderStep.set {} = some (headerOf j) := by
  obtain ⟨-, -, -, -, -, -, -, hsource, htarget, hreason, -⟩ := (journalValid_iff j).1 h.valid
  unfold headerSteps headerSetters headerFields
  simp only [List.tail_cons, List.map_cons, List.map_nil, List.zip_cons_cons, List.zip_nil_right, List.foldlM_cons,
    List.foldlM_nil, HeaderStep.set, parseU64_decimal, parseU32_decimal, parse_phase,
    copyTextZ_some (Nat.succ_le_succ (length_semanticVersion hsource)),
    copyTextZ_some (Nat.succ_le_succ (length_semanticVersion htarget)),
    copyTextZ_some (Nat.succ_le_succ (length_reason hreason)), Option.map_some, Option.bind_eq_bind, Option.bind_some]
  rfl

theorem foldlM_header (h : TextOk j) :
    (fieldTexts (headerFields j)).foldlM parseLine {} = some ⟨headerOf j, headerSeen, 0⟩ := by
  have hmagic : parseLine {} (ascii "R4U_BATCH=1") = some ⟨{}, ["R4U_BATCH=1"], 0⟩ := by
    have hline : trimLine (ascii "R4U_BATCH=1") = ascii "R4U_BATCH=1" := by decide +kernel
    unfold parseLine
    dsimp only
    rw [hline, if_neg (by decide), if_pos rfl]
    rfl
  have hlines : fieldTexts (headerFields j)
      = ascii "R4U_BATCH=1" :: (headerSteps j).map HeaderStep.line := rfl
  have hkeys : (headerSteps j).map (·.1) = headerSetters := rfl
  have hvalues : (headerSteps j).map (·.2) = (headerFields j).tail.map (·.2) := rfl
  have hplain : ∀ s ∈ headerSteps j, s.1 ∈ headerSetters ∧ plain s.2 = true := by
    intro s hs
    have hm : s.2 ∈ (headerFields j).tail.map (·.2) := hvalues ▸ List.mem_map_of_mem hs
    obtain ⟨f, hf, heq⟩ := List.mem_map.1 hm
    exact ⟨hkeys ▸ List.mem_map_of_mem hs, heq ▸ h.headerValues f (List.mem_of_mem_tail hf)⟩
  have hnodup : ((headerSteps j).map (·.1.1)).Nodup := by
    rw [show (headerSteps j).map (·.1.1) = headerSetters.map (·.1) from rfl]
    decide
  have hnew : ∀ s ∈ headerSteps j, s.1.1 ∉ ["R4U_BATCH=1"] := by
    have hall : ∀ key ∈ headerSetters.map (·.1), key ∉ ["R4U_BATCH=1"] := by decide
    exact fun s hs => hall _ (List.mem_map_of_mem (hplain s hs).1)
  rw [hlines, List.foldlM_cons, hmagic, Option.bind_eq_bind, Option.bind_some,
    foldlM_setters (headerSteps j) _ hplain hnodup hnew, headerSteps_set h]
  rfl

/-! ## Package lines -/

theorem parseLine_package (st : ParseState) {count : Nat} {target : Bytes} {e : PackageEntry}
    (h : entryValid count target e = true) (hp : plain e.path = true) (hcount : count ≤ maxPackages)
    (hk : st.parsedPackages < maxPackages) :
    parseLine st (recordLine "PACKAGE" (packageFields st.parsedPackages e)) = (reread e).map fun entry =>
      { st with
        journal := { st.journal with packages := st.journal.packages.setIfInBounds st.parsedPackages entry }
        parsedPackages := st.parsedPackages + 1 } := by
  have hbody := bodyLine_package st.parsedPackages (entryPlain_of_valid h hp)
  have hparse := parsePackageLine_line h hp hcount hk
  obtain ⟨x, hx⟩ := package_eq st.parsedPackages e
  unfold parseLine
  dsimp only
  rw [trimLine_plain hbody.ends, if_neg (by simpa using hbody.ne), hparse]
  rw [hx]
  have hfind : headerSetters.find? (fun setter => startsWith (ascii "PACKAGE;" ++ x) (ascii setter.1)) = none := by
    rw [List.find?_eq_none]
    intro setter hm
    obtain ⟨-, -, -, -, h1, h2, -⟩ := headerSetters_keys.1 setter.1 (List.mem_map_of_mem hm)
    rw [Journal.startsWith_apart h1 h2]
    decide
  rw [if_neg (append_ne (by decide) x), hfind]
  dsimp only
  rw [startsWith_append, if_pos rfl]

/-- **The package lines give the packages back**, each with its path normalized again. -/
theorem foldlM_packages {count : Nat} (target : Bytes) (hcount : count ≤ maxPackages) : ∀ (es : List PackageEntry)
    (st : ParseState), (∀ e ∈ es, entryValid count target e = true ∧ plain e.path = true) →
    st.parsedPackages + es.length ≤ maxPackages →
    (packageLines es st.parsedPackages).foldlM parseLine st = (es.mapM reread).map fun entries =>
      { st with
        journal := { st.journal with packages := fill st.journal.packages st.parsedPackages entries }
        parsedPackages := st.parsedPackages + es.length }
  | [], _, _, _ => rfl
  | e :: es, st, he, hlen => by
    obtain ⟨h, hp⟩ := he e List.mem_cons_self
    rw [List.length_cons] at hlen
    have hrest := foldlM_packages target hcount es
    unfold packageLines at hrest ⊢
    rw [List.zipIdx_cons, List.map_cons, List.foldlM_cons, parseLine_package st h hp hcount (by omega), List.mapM_cons]
    cases reread e with
    | none => rfl
    | some entry =>
      rw [Option.map_some, Option.bind_eq_bind, Option.bind_some, Option.bind_eq_bind, Option.bind_some]
      have hnext := hrest { st with
        journal := { st.journal with packages := st.journal.packages.setIfInBounds st.parsedPackages entry }
        parsedPackages := st.parsedPackages + 1 } (fun e hm => he e (List.mem_cons_of_mem _ hm))
        (by show st.parsedPackages + 1 + es.length ≤ _; omega)
      dsimp only at hnext
      rw [hnext]
      cases es.mapM reread with
      | none => rfl
      | some entries =>
        rw [Option.map_some, Option.bind_eq_bind, Option.bind_some, Option.pure_def, Option.map_some, fill, List.length_cons,
          Nat.add_assoc, Nat.add_comm 1]

/-! ## The size of the text -/

theorem keys_length : ((packageKeys.map (fun name => ascii name ++ [61])).map List.length).sum = 94 ∧
    (headerKeys.map List.length).sum = 114 := by decide +kernel

theorem length_packageLine {k : Nat} (hk : k < 100) {count : Nat} {target : Bytes} {e : PackageEntry}
    (h : entryValid count target e = true) : (recordLine "PACKAGE" (packageFields k e)).length ≤ 1500 := by
  obtain ⟨-, -, hpath, htoken, hversion, hrelease, -⟩ := (entryValid_iff count target e).1 h
  have hindex := length_decimal (k := 2) (by omega) (by omega : k < 10 ^ 2)
  have horder : (decimal e.order.toNat).length ≤ 3 :=
    length_decimal (by omega) (Nat.lt_trans e.order.toNat_lt (by decide))
  have hmode : e.activation.text.length ≤ 10 := by cases e.activation <;> decide
  have hpriority : e.priority.text.length ≤ 10 := by cases e.priority <;> decide
  have hvalues : (((packageFields k e).map (·.2)).map List.length).sum ≤
      [2, 3, 1023, 48, 24, 24, 20, 10, 10, 10, 10, 10].sum :=
    Journal.sum_length_le _ (.cons hindex (.cons horder (.cons (Nat.le_of_lt_succ hpath) (.cons (length_token htoken)
      (.cons (length_semanticVersion hversion) (.cons (length_semanticVersion hrelease) (.cons (Journal.length_u64 _)
      (.cons (Journal.length_u32 _) (.cons (Journal.length_u32 _) (.cons (Journal.length_u32 _) (.cons hmode
      (.cons hpriority .nil))))))))))))
  rw [Journal.length_recordLine, Journal.sum_fields, packageFields_keys, keys_length.1]
  exact Nat.le_trans (Nat.add_le_add (Nat.le_refl 7) (Nat.add_le_add (Nat.add_le_add (Nat.le_refl 94) hvalues)
    (Nat.le_refl 12))) (by decide)

theorem length_headerLines (h : TextOk j) : ((headerFields j).map (fun f => f.1.length + f.2.length + 1)).sum ≤ 1000 := by
  obtain ⟨-, -, -, -, -, -, -, hsource, htarget, hreason, -⟩ := (journalValid_iff j).1 h.valid
  have hphase : j.phase.text.length ≤ 15 := by cases j.phase <;> decide
  have hvalues : (((headerFields j).map (·.2)).map List.length).sum ≤ [1, 20, 20, 15, 24, 24, 10, 10, 64].sum :=
    Journal.sum_length_le _ (.cons (Nat.le_refl 1) (.cons (Journal.length_u64 _) (.cons (Journal.length_u64 _)
      (.cons hphase (.cons (length_semanticVersion hsource) (.cons (length_semanticVersion htarget)
      (.cons (Journal.length_u32 _) (.cons (Journal.length_u32 _) (.cons (length_reason hreason) .nil)))))))))
  have hkeys : (((headerFields j).map (·.1)).map List.length).sum = 114 := keys_length.2
  rw [Journal.sum_fields, hkeys]
  exact Nat.le_trans (Nat.add_le_add (Nat.add_le_add (Nat.le_refl 114) hvalues) (Nat.le_refl 9)) (by decide)

/-- **Every valid journal fits its buffer.** -/
theorem length_journalText (h : TextOk j) : (journalText j).length ≤ journalMax := by
  have hmax : maxPackages = 16 ∧ journalMax = 65536 := ⟨rfl, rfl⟩
  have hcount := h.count_le
  have hlive := live_length hcount
  have hheader := length_headerLines h
  rw [← Journal.length_flatMap_fieldTexts] at hheader
  have hpackages : ((packageLines j.live 0).flatMap (· ++ [10])).length ≤ 16 * 1501 := by
    refine Nat.le_trans (Journal.length_flatMap_le (m := 1500) (fun l hl => ?_)) ?_
    · obtain ⟨e, he, rfl⟩ := List.mem_map.1 hl
      have hlt := List.snd_lt_of_mem_zipIdx he
      exact length_packageLine (by omega) (h.entry (List.fst_mem_of_mem_zipIdx he))
    · unfold packageLines
      rw [List.length_map, List.length_zipIdx]
      exact Nat.mul_le_mul_right _ (by omega)
  have hchecksum : (checksumLine j).length ≤ 9 + 10 := by
    unfold checksumLine
    rw [List.length_append, show (ascii "CHECKSUM=").length = 9 by decide]
    exact Nat.add_le_add_left (Journal.length_u32 _) 9
  have hbody : (bodyText j).length ≤ 1000 + 16 * 1501 := by
    rw [bodyText, bodyLines, List.flatMap_append, List.length_append]
    exact Nat.add_le_add hheader hpackages
  rw [journalText, List.length_append, List.length_append, List.length_singleton]
  omega

/-! ## Reading back -/

/-- The journal that a parse fills when the package lines give `entries`. -/
def reparsed (j : BatchJournal) (slot : UInt8) (entries : List PackageEntry) : BatchJournal :=
  { headerOf j with slot, valid := true, packages := fill (Vector.replicate _ {}) 0 entries }

/-- **A written journal is read line by line**: everything but the package paths is as it was. -/
theorem parseJournalInto_text (h : TextOk j) (hs : slot ≤ 1) : parseJournalInto (journalText j) slot =
    (j.live.mapM reread).bind fun entries =>
      if journalValid (reparsed j slot entries) then some (reparsed j slot entries) else none := by
  have hguard : (decide (1 < slot) || (journalText j).isEmpty || decide (journalMax < (journalText j).length)) = false := by
    have hne : (journalText j).isEmpty = false := by
      unfold journalText checksumLine
      simp
    rw [hne, decide_eq_false (UInt8.not_lt.2 hs), decide_eq_false (Nat.not_lt.2 (length_journalText h))]
    rfl
  have hsplit : (bodyText j).splitOn 10 = bodyLines j ++ [[]] :=
    splitOn_newlines _ (fun l hl => newline_notMem (bodyLine_of_mem h l hl).ends)
  have hcount := h.count_le
  have hlive := live_length hcount
  have hfold : (bodyLines j ++ [[]]).foldlM parseLine {} = (j.live.mapM reread).map fun entries =>
      ⟨{ headerOf j with packages := fill (Vector.replicate _ {}) 0 entries }, headerSeen, j.live.length⟩ := by
    rw [bodyLines, List.foldlM_append, List.foldlM_append, foldlM_header h, Option.bind_eq_bind, Option.bind_some]
    have hpackages := foldlM_packages j.targetRelease hcount j.live ⟨headerOf j, headerSeen, 0⟩
      (fun e he => ⟨h.entry he, h.plainPath he⟩) (by show 0 + j.live.length ≤ _; omega)
    dsimp only at hpackages
    rw [hpackages]
    cases j.live.mapM reread with
    | none => rfl
    | some entries =>
      rw [Option.map_some, Option.bind_some, Nat.zero_add]
      rfl
  unfold parseJournalInto
  rw [hguard, parseChecksum_text, refuse_false]
  simp only [Option.bind_eq_bind, Option.bind_some]
  rw [hsplit, hfold]
  cases j.live.mapM reread with
  | none => rfl
  | some entries =>
    rw [Option.map_some, Option.bind_some, Option.bind_some]
    have hsaw : (sawAll headerSeen && j.live.length == j.packageCount.toNat) = true := by
      rw [hlive, beq_self_eq_true, Bool.and_true]
      decide
    dsimp only
    rw [show (headerOf j).packageCount = j.packageCount from rfl, hsaw]
    show (refuse (!journalValid (reparsed j slot entries))).bind (fun _ => some (reparsed j slot entries)) = _
    cases journalValid (reparsed j slot entries) <;> rfl

end UpdateBatch
end R4
