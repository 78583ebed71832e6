import R4Recovery.JournalBody
/-!
# JournalRoundTrip — writing and reading a journal

`serializeJournal` fits every valid journal with normalized paths into its buffer (`length_journalText`), and
`parseJournalInto` reads the text back into the slots it was written from (`parseJournalInto_journalText`) exactly when
no payload carries the size or checksum of an old file it does not know.  What the parser accepts it writes and accepts
again (`parse_serialize_parse`).
-/
namespace R4
namespace Journal

/-! ## Filled slots -/

section Fill

variable {α : Type} {n : Nat}

theorem getElem?_fill (v : Vector α n) (k : Nat) (xs : List α) (i : Nat) :
    (fill v k xs)[i]? = if i < n then (if k ≤ i ∧ i < k + xs.length then xs[i - k]? else v[i]?) else none := by
  induction xs generalizing v k with
  | nil =>
    have : ¬ (k ≤ i ∧ i < k + ([] : List α).length) := by simp
    rw [fill, if_neg this]
    split
    · rfl
    · rename_i h; simp [h]
  | cons x xs ih =>
    rw [fill, ih, List.length_cons]
    by_cases hn : i < n
    swap
    · simp [hn]
    rw [if_pos hn, if_pos hn]
    by_cases h1 : k + 1 ≤ i ∧ i < k + 1 + xs.length
    · rw [if_pos h1, if_pos (by omega), show i - k = (i - (k + 1)) + 1 by omega, List.getElem?_cons_succ]
    · rw [if_neg h1, Vector.getElem?_setIfInBounds]
      by_cases h2 : k = i
      · subst h2
        rw [if_pos rfl, if_pos hn, if_pos (by omega), Nat.sub_self]
        rfl
      · rw [if_neg h2, if_neg (by omega)]

theorem toList_fill_take (v : Vector α n) (xs : List α) (h : xs.length ≤ n) :
    (fill v 0 xs).toList.take xs.length = xs := by
  refine List.ext_getElem? (fun i => ?_)
  rw [List.getElem?_take]
  by_cases hi : i < xs.length
  · rw [if_pos hi, Vector.getElem?_toList, getElem?_fill, if_pos (by omega), if_pos (by omega)]
    rfl
  · rw [if_neg hi, List.getElem?_eq_none (by omega)]

theorem fill_take {v : Vector α n} {d : α} {k : Nat} (h : ∀ i, k ≤ i → ∀ hi : i < n, v[i] = d) :
    fill (Vector.replicate n d) 0 (v.toList.take k) = v := by
  refine Vector.ext (fun i hi => ?_)
  have key := getElem?_fill (Vector.replicate n d) 0 (v.toList.take k) i
  rw [if_pos hi, Vector.getElem?_eq_getElem hi] at key
  have hlen : (v.toList.take k).length = min k n := by simp
  by_cases hk : i < k
  · rw [if_pos (by omega), List.getElem?_take, Nat.sub_zero, if_pos hk, Vector.getElem?_toList,
      Vector.getElem?_eq_getElem hi] at key
    exact Option.some.inj key
  · rw [if_neg (by omega), Vector.getElem?_eq_getElem hi, Vector.getElem_replicate] at key
    rw [h i (by omega) hi]
    exact Option.some.inj key

end Fill

/-! ## What the parser returns -/

/-- The journal as the parser returns it: the slots the journal uses, the others empty. -/
def stored (j : TransactionJournal) (slot : UInt8) : TransactionJournal :=
  { headerOf j slot with
    components := if j.componentsBound then fill (Vector.replicate _ {}) 0 j.liveComponents else Vector.replicate _ {}
    payloads := fill (Vector.replicate _ {}) 0 j.live }

/-- Equality in every field the text holds. -/
structure SameSerialized (a b : TransactionJournal) : Prop where
  transactionGeneration : a.transactionGeneration = b.transactionGeneration
  journalGeneration : a.journalGeneration = b.journalGeneration
  phase : a.phase = b.phase
  packageDigest : a.packageDigest = b.packageDigest
  packageLength : a.packageLength = b.packageLength
  manifestChecksum : a.manifestChecksum = b.manifestChecksum
  componentDigest : a.componentDigest = b.componentDigest
  componentCount : a.componentCount = b.componentCount
  componentsBound : a.componentsBound = b.componentsBound
  foundation : a.foundation = b.foundation
  packageVersion : a.packageVersion = b.packageVersion
  sourceVersion : a.sourceVersion = b.sourceVersion
  targetVersion : a.targetVersion = b.targetVersion
  source : a.source = b.source
  packagePayloadCount : a.packagePayloadCount = b.packagePayloadCount
  payloadCount : a.payloadCount = b.payloadCount
  committedCount : a.committedCount = b.committedCount
  rollbackCount : a.rollbackCount = b.rollbackCount
  reboot : a.reboot = b.reboot
  batch : a.batch = b.batch
  components : b.componentsBound = true → a.liveComponents = b.liveComponents
  payloads : a.live = b.live

section

variable {j : TransactionJournal}

theorem componentCount_le (h : frameValid j) : j.componentCount.toNat ≤ maxPackagePayloads := by
  have h1 := h.1
  simp only [journalFrameOk, Bool.and_eq_true, decide_eq_true_eq, UInt32.le_iff_toNat_le] at h1
  obtain ⟨⟨⟨⟨⟨⟨⟨⟨⟨⟨⟨⟨⟨-, -⟩, -⟩, h2⟩, -⟩, -⟩, -⟩, -⟩, h3⟩, -⟩, -⟩, -⟩, -⟩, -⟩ := h1
  omega

theorem length_liveComponents (h : frameValid j) : j.liveComponents.length = j.componentCount.toNat := by
  have := componentCount_le h
  simp [TransactionJournal.liveComponents]; omega

theorem sameSerialized_stored (h : frameValid j) (slot : UInt8) : SameSerialized (stored j slot) j := by
  have hl := length_live j (payloadCount_of_frameValid h).1
  have hc := length_liveComponents h
  have h1 := (payloadCount_of_frameValid h).1
  have h2 := componentCount_le h
  refine ⟨rfl, rfl, rfl, rfl, rfl, rfl, rfl, rfl, rfl, rfl, rfl, rfl, rfl, rfl, rfl, rfl, rfl, rfl, rfl, rfl, ?_, ?_⟩
  · intro hb
    show ((if j.componentsBound then fill (Vector.replicate _ {}) 0 j.liveComponents
      else Vector.replicate _ {}) : Vector JournalComponent maxPackagePayloads).toList.take j.componentCount.toNat = _
    rw [if_pos hb, ← hc]
    exact toList_fill_take _ _ (by omega)
  · show (fill (Vector.replicate _ {}) 0 j.live).toList.take j.payloadCount.toNat = j.live
    rw [← hl]
    exact toList_fill_take _ _ (by omega)

theorem journalValid_of_same {a b : TransactionJournal} (h : SameSerialized a b) (hv : a.valid = true) (hs : a.slot ≤ 1)
    (hb : journalValid b = true) : journalValid a = true := by
  have hcomp : (!a.componentsBound || componentsValid a.packagePayloadCount [] a.liveComponents) =
      (!b.componentsBound || componentsValid b.packagePayloadCount [] b.liveComponents) := by
    rw [h.componentsBound, h.packagePayloadCount]
    cases hbd : b.componentsBound with
    | false => rfl
    | true => rw [h.components hbd]
  have hbv : b.valid = true ∧ b.slot ≤ 1 := by
    obtain ⟨hst, -⟩ := (journalValid_iff b).1 hb
    exact ⟨hst.1, hst.2.1⟩
  rw [← hb]
  unfold journalValid
  rw [hcomp]
  simp only [journalHeaderValid, journalFrameOk, journalPathsValid, phaseCountsOk, hv, hs, hbv.1, hbv.2,
    h.transactionGeneration, h.journalGeneration, h.phase, h.packageLength, h.componentCount, h.componentsBound,
    h.packageVersion, h.sourceVersion, h.targetVersion, h.source, h.packagePayloadCount, h.payloadCount, h.committedCount,
    h.rollbackCount, h.reboot, h.batch, h.payloads]

/-! ## The size of the text -/

theorem length_recordLine (tag : String) (fields : List (Bytes × Bytes)) :
    (recordLine tag fields).length = (ascii tag).length + (fields.map (fun f => f.1.length + f.2.length + 1)).sum := by
  unfold recordLine
  generalize ascii tag = first
  induction fields generalizing first with
  | nil => simp
  | cons f fields ih =>
    rw [List.map_cons, List.intercalate_cons_cons, List.length_append, ih, List.map_cons, List.sum_cons]
    simp only [List.length_append, List.length_singleton]
    omega

theorem sum_fields (fields : List (Bytes × Bytes)) :
    (fields.map (fun f => f.1.length + f.2.length + 1)).sum =
      ((fields.map (·.1)).map List.length).sum + ((fields.map (·.2)).map List.length).sum + fields.length := by
  induction fields with
  | nil => rfl
  | cons f fields ih => simp only [List.map_cons, List.sum_cons, ih, List.length_cons]; omega

theorem length_u64 (n : UInt64) : (decimal n.toNat).length ≤ 20 :=
  length_decimal (by omega) (by have := n.toNat_lt; omega)

theorem length_u32 (n : UInt32) : (decimal n.toNat).length ≤ 10 :=
  length_decimal (by omega) (by have := n.toNat_lt; omega)

theorem length_flagByte (b : Bool) : (flagByte b).length = 1 := by cases b <;> rfl

theorem length_of_normalPath {cap : Nat} {p : Bytes} (h : NormalPath cap p) : p.length < cap := by
  obtain ⟨root, comps, -, -, -, hlen⟩ := h
  exact hlen

theorem sum_length_le {vs : List Bytes} (ns : List Nat) (h : List.Forall₂ (fun v n => v.length ≤ n) vs ns) :
    (vs.map List.length).sum ≤ ns.sum := by
  induction h with
  | nil => exact Nat.le_refl _
  | cons hv _ ih => exact Nat.add_le_add hv ih

theorem keys_length : ((ascii "COMPONENT").length = 9 ∧ ((componentKeys.map ascii).map List.length).sum = 39) ∧
    ((ascii "PAYLOAD").length = 7 ∧ ((payloadKeys.map ascii).map List.length).sum = 174) ∧
    ((writtenKeys.map ascii).map List.length).sum ≤ 400 := by decide +kernel

theorem length_componentLine {index : Nat} (hi : index < 100) {c : JournalComponent} (h : componentValid c = true) :
    (recordLine "COMPONENT" (componentFields index c)).length ≤ 1174 := by
  have h1 := length_decimal (k := 2) (by omega) (by omega : index < 10 ^ 2)
  have h3 : c.kind.text.length ≤ 6 := by cases c.kind <;> decide
  simp only [componentValid, componentTokenValid, Bool.and_eq_true, decide_eq_true_eq] at h
  obtain ⟨⟨⟨⟨⟨⟨⟨⟨-, h4⟩, -⟩, hv⟩, -⟩, h5⟩, -⟩, -⟩, -⟩ := h
  have hvalues : (((componentFields index c).map (·.2)).map List.length).sum ≤ [2, 10, 6, 48, 1023, 31].sum :=
    sum_length_le _ (.cons h1 (.cons (length_u32 _) (.cons h3 (.cons h4 (.cons (Nat.le_of_lt_succ h5)
      (.cons (Nat.le_of_succ_le_succ (length_version hv)) .nil))))))
  have hkeys : (ascii "COMPONENT").length = 9 ∧ (((componentFields index c).map (·.1)).map List.length).sum = 39 := by
    rw [show (componentFields index c).map (·.1) = componentKeys.map ascii from rfl]
    exact keys_length.1
  rw [length_recordLine, sum_fields, hkeys.1, hkeys.2]
  exact Nat.add_le_add (Nat.le_refl 9) (Nat.add_le_add (Nat.add_le_add (Nat.le_refl 39) hvalues) (Nat.le_refl 6))

theorem length_payloadLine {index : Nat} (hi : index < 100) {e : JournalPayload} (h : PathsOk e) :
    (recordLine "PAYLOAD" (payloadFields index e)).length ≤ 4388 := by
  have h1 := length_decimal (k := 2) (by omega) (by omega : index < 10 ^ 2)
  have hpath : ∀ p, NormalPath maxPath p → p.length ≤ 1023 := fun p hp => Nat.le_of_lt_succ (length_of_normalPath hp)
  have hprev : e.previousBackup.length ≤ 1023 := by
    rcases h.previous with hp | hp
    · rw [hp]; decide
    · exact hpath _ hp.1
  have hflag : ∀ b, (flagByte b).length ≤ 1 := fun b => (length_flagByte b).le
  have hvalues : (((payloadFields index e).map (·.2)).map List.length).sum ≤
      [2, 1023, 1023, 1023, 1023, 1, 20, 10, 20, 10, 1, 1, 20, 10, 1, 1, 1].sum :=
    sum_length_le _ (.cons h1 (.cons (hpath _ h.target.1) (.cons (hpath _ h.stage.1) (.cons (hpath _ h.backup.1)
      (.cons hprev (.cons (hflag _) (.cons (length_u64 _) (.cons (length_u32 _) (.cons (length_u64 _)
      (.cons (length_u32 _) (.cons (hflag _) (.cons (hflag _) (.cons (length_u64 _) (.cons (length_u32 _)
      (.cons (hflag _) (.cons (hflag _) (.cons (hflag _) .nil)))))))))))))))))
  have hkeys : (ascii "PAYLOAD").length = 7 ∧ (((payloadFields index e).map (·.1)).map List.length).sum = 174 := by
    rw [show (payloadFields index e).map (·.1) = payloadKeys.map ascii from rfl]
    exact keys_length.2.1
  rw [length_recordLine, sum_fields, hkeys.1, hkeys.2]
  exact Nat.add_le_add (Nat.le_refl 7) (Nat.add_le_add (Nat.add_le_add (Nat.le_refl 174) hvalues) (Nat.le_refl 17))

theorem length_if_le {b : Bool} {s t : Bytes} {n : Nat} (hs : s.length ≤ n) (ht : t.length ≤ n) :
    (if b then s else t).length ≤ n := by split <;> assumption

theorem length_headerLines (h : TextOk j) : ((headerFields j).map (fun f => f.1.length + f.2.length + 1)).sum ≤ 2000 := by
  obtain ⟨hv1, hv2, hv3⟩ := h.versions
  have hversion : ∀ v, versionTextValid v = true → v.length ≤ 31 :=
    fun v hv => Nat.le_of_succ_le_succ (length_version hv)
  have hphase : (phaseName j.phase).length ≤ 11 := by cases j.phase <;> decide
  have hvalues : (((headerFields j).map (·.2)).map List.length).sum ≤
      [1, 20, 20, 11, 10, 20, 10, 10, 10, 6, 10, 31, 31, 31, 1023, 10, 10, 10, 10, 3, 3].sum :=
    sum_length_le _ (.cons (Nat.le_refl 1) (.cons (length_u64 _) (.cons (length_u64 _) (.cons hphase (.cons (length_u32 _)
      (.cons (length_u64 _) (.cons (length_u32 _) (.cons (length_u32 _) (.cons (length_u32 _)
      (.cons (length_if_le (by decide) (by decide)) (.cons (length_if_le (by decide) (by decide))
      (.cons (hversion _ hv3) (.cons (hversion _ hv1) (.cons (hversion _ hv2)
      (.cons (Nat.le_of_lt_succ (length_of_normalPath h.source.1)) (.cons (length_u32 _) (.cons (length_u32 _)
      (.cons (length_u32 _) (.cons (length_u32 _) (.cons (length_if_le (by decide) (by decide))
      (.cons (length_if_le (by decide) (by decide)) .nil)))))))))))))))))))))
  have hkeys : (((headerFields j).map (·.1)).map List.length).sum ≤ 400 := by
    rw [headerFields_keys]
    exact keys_length.2.2
  rw [sum_fields]
  exact Nat.le_trans (Nat.add_le_add (Nat.add_le_add hkeys hvalues) (Nat.le_refl 21)) (by decide)

theorem length_flatMap_le {L : List Bytes} {m : Nat} (h : ∀ l ∈ L, l.length ≤ m) :
    (L.flatMap (· ++ [10])).length ≤ L.length * (m + 1) := by
  induction L with
  | nil => simp
  | cons l L ih =>
    have h1 := h l (by simp)
    have h2 := ih (fun l hl => h l (by simp [hl]))
    simp only [List.flatMap_cons, List.length_append, List.length_cons, List.length_nil]
    rw [Nat.succ_mul]
    omega

theorem length_flatMap_fieldTexts (fs : List (Bytes × Bytes)) :
    ((fieldTexts fs).flatMap (· ++ [10])).length = (fs.map (fun f => f.1.length + f.2.length + 1)).sum := by
  induction fs with
  | nil => rfl
  | cons f fs ih =>
    rw [fieldTexts] at ih ⊢
    simp only [List.map_cons, List.flatMap_cons, List.length_append, List.sum_cons, ih, List.length_singleton]

/-- **Every valid journal fits its buffer.** -/
theorem length_journalText (h : TextOk j) : (journalText j).length ≤ journalMax := by
  have hfr := h.frame
  have hp := length_live j (payloadCount_of_frameValid hfr).1
  have hp' := (payloadCount_of_frameValid hfr).1
  have hc := length_liveComponents hfr
  have hc' := componentCount_le hfr
  have hm : maxPayloads = 34 ∧ maxPackagePayloads = 32 ∧ journalMax = 196608 := ⟨rfl, rfl, rfl⟩
  have h1 := length_headerLines h
  rw [← length_flatMap_fieldTexts] at h1
  have h2 : ((if j.componentsBound then
      j.liveComponents.zipIdx.map (fun c => recordLine "COMPONENT" (componentFields c.2 c.1)) else []).flatMap
        (· ++ [10])).length ≤ 32 * 1175 := by
    split
    · rename_i hb
      refine Nat.le_trans (length_flatMap_le (m := 1174) (fun l hl => ?_)) ?_
      · obtain ⟨c, hcm, rfl⟩ := List.mem_map.1 hl
        have := List.snd_lt_of_mem_zipIdx hcm
        exact length_componentLine (by omega) (h.component hb (List.fst_mem_of_mem_zipIdx hcm)).1
      · rw [List.length_map, List.length_zipIdx]
        exact Nat.mul_le_mul_right _ (by omega)
    · simp
  have h3 : ((j.live.zipIdx.map (fun e => recordLine "PAYLOAD" (payloadFields e.2 e.1))).flatMap
      (· ++ [10])).length ≤ 34 * 4389 := by
    refine Nat.le_trans (length_flatMap_le (m := 4388) (fun l hl => ?_)) ?_
    · obtain ⟨e, hem, rfl⟩ := List.mem_map.1 hl
      have := List.snd_lt_of_mem_zipIdx hem
      exact length_payloadLine (by omega) (h.payloads e.1 (List.fst_mem_of_mem_zipIdx hem))
    · rw [List.length_map, List.length_zipIdx]
      exact Nat.mul_le_mul_right _ (by omega)
  have h4 := length_u32 (checksum (bodyText j))
  have h5 : (ascii "CHECKSUM=").length = 9 := by decide
  have h6 : (bodyText j).length ≤ 2000 + 32 * 1175 + 34 * 4389 := by
    rw [bodyText, bodyLines, List.flatMap_append, List.flatMap_append, List.length_append, List.length_append]
    exact Nat.add_le_add (Nat.add_le_add h1 h2) h3
  rw [journalText, List.length_append, List.length_append, List.length_append, List.length_singleton]
  omega

/-! ## Reading back -/

/-- No payload carries the size or checksum of an old file it does not know. -/
def OldReadable (j : TransactionJournal) : Prop := ∀ e ∈ j.live, oldReadable e = true

theorem foldlM_bodyLines (h : TextOk j) (ho : OldReadable j) (slot : UInt8) :
    (bodyLines j).foldlM parseLine ⟨headerOf j slot, [], []⟩ =
      some ⟨stored j slot, (List.range' 0 j.live.length).reverse,
        if j.componentsBound then (List.range' 0 j.liveComponents.length).reverse else []⟩ := by
  have hfr := h.frame
  have hp := length_live j (payloadCount_of_frameValid hfr).1
  have hc := length_liveComponents hfr
  rw [bodyLines, List.foldlM_append, List.foldlM_append]
  have h1 := foldlM_header h ⟨headerOf j slot, [], []⟩
  rw [fieldTexts] at h1
  rw [h1, Option.bind_eq_bind, Option.bind_some]
  cases hb : j.componentsBound with
  | true =>
    rw [if_pos rfl, foldlM_components j.liveComponents 0 ⟨headerOf j slot, [], []⟩ (fun c hcm => h.component hb hcm)
      (by show 0 + _ ≤ j.componentCount.toNat; omega) (by simp), Option.bind_some,
      foldlM_payloads j.live 0 _ (fun e he => ⟨h.payloads e he, h.shape he, ho e he⟩)
      (by show 0 + _ ≤ j.payloadCount.toNat; omega) (by simp)]
    simp only [stored, hb, if_true, List.append_nil]
    rfl
  | false =>
    rw [if_neg (by simp), List.foldlM_nil, Option.pure_def, Option.bind_some,
      foldlM_payloads j.live 0 ⟨headerOf j slot, [], []⟩ (fun e he => ⟨h.payloads e he, h.shape he, ho e he⟩)
      (by show 0 + _ ≤ j.payloadCount.toNat; omega) (by simp)]
    simp only [stored, hb, Bool.false_eq_true, if_false, List.append_nil]
    rfl

theorem foldlM_bodyLines_none (h : TextOk j) (ho : ¬ OldReadable j) (st : ParseState) :
    (bodyLines j).foldlM parseLine st = none := by
  simp only [OldReadable, not_forall] at ho
  obtain ⟨e, he, hbad⟩ := ho
  obtain ⟨k, hk⟩ := List.mem_iff_getElem?.1 he
  have hz : (e, k) ∈ j.live.zipIdx := by rw [List.mem_iff_getElem?]; exact ⟨k, by rw [List.getElem?_zipIdx, hk]; simp⟩
  refine foldlM_none_of_mem (l := recordLine "PAYLOAD" (payloadFields k e)) ?_
    (fun st => parseLine_unreadable st k (h.payloads e he) (h.shape he) (by simpa using hbad)) st
  rw [bodyLines, List.mem_append]
  exact .inr (List.mem_map.2 ⟨(e, k), hz, rfl⟩)

theorem journalText_ne_nil (j : TransactionJournal) : (journalText j).isEmpty = false := by
  rw [journalText]; simp

theorem parse_upto_lines (h : TextOk j) {slot : UInt8} (hs : slot ≤ 1) :
    parseJournalInto (journalText j) slot = (do
      let st ← (bodyLines j).foldlM parseLine ⟨headerOf j slot, [], []⟩
      refuse (st.journal.componentsBound && st.seenComponents.length != st.journal.componentCount.toNat)
      refuse (!st.journal.componentsBound && st.seenComponents.length != 0)
      refuse (st.seenPayloads.length != st.journal.payloadCount.toNat)
      refuse (!journalValid st.journal)
      pure st.journal) := by
  have hguard : (decide (1 < slot) || (journalText j).isEmpty || decide (journalMax < (journalText j).length)) = false := by
    have := length_journalText h
    rw [journalText_ne_nil, decide_eq_false (UInt8.not_lt.2 hs), decide_eq_false (Nat.not_lt.2 this)]
    rfl
  unfold parseJournalInto
  rw [hguard, parseChecksum_journalText, journalField_journalText h (List.mem_of_getElem? (i := 0) rfl)]
  simp only [Option.bind_eq_bind, refuse_false, Option.bind_some, journalLinesKnown_bodyText h, Bool.not_true,
    parseHeader_journalText h, lines_bodyText h, show pathEqualsIgnoreCase (ascii "5") (ascii "5") = true from rfl]

/-- **The text of a journal reads back into the slots it was written from.** -/
theorem parseJournalInto_journalText (h : TextOk j) (ho : OldReadable j) {slot : UInt8} (hs : slot ≤ 1) :
    parseJournalInto (journalText j) slot = some (stored j slot) := by
  have hfr := h.frame
  have hp := length_live j (payloadCount_of_frameValid hfr).1
  have hc := length_liveComponents hfr
  have hvalid : journalValid (stored j slot) = true :=
    journalValid_of_same (sameSerialized_stored hfr slot) rfl hs h.valid
  have hcb : (stored j slot).componentsBound = j.componentsBound := rfl
  have hcc : (stored j slot).componentCount = j.componentCount := rfl
  have hpc : (stored j slot).payloadCount = j.payloadCount := rfl
  rw [parse_upto_lines h hs, foldlM_bodyLines h ho]
  simp only [Option.bind_eq_bind, Option.bind_some, hcb, hcc, hpc, List.length_reverse, List.length_range', hp, hvalid,
    bne_self_eq_false, Bool.not_true, refuse_false]
  cases hb : j.componentsBound with
  | true => simp [hc]
  | false => simp

theorem parseJournalInto_unreadable (h : TextOk j) (ho : ¬ OldReadable j) {slot : UInt8} (hs : slot ≤ 1) :
    parseJournalInto (journalText j) slot = none := by
  rw [parse_upto_lines h hs, foldlM_bodyLines_none h ho]
  rfl

end

/-! ## Journals with normalized paths -/

/-- An output of `normalizeAbsolutePath`. -/
def Normalized (p : Bytes) : Prop := ∃ raw, normalizeAbsolutePath maxPath raw = some p

/-- The four paths of a payload are outputs of `normalizeAbsolutePath`; the inherited backup may be absent. -/
structure NormalizedPayload (e : JournalPayload) : Prop where
  target : Normalized e.target
  stage : Normalized e.stage
  backup : Normalized e.backup
  previousBackup : e.previousBackup = [] ∨ Normalized e.previousBackup

structure NormalizedPaths (j : TransactionJournal) : Prop where
  source : Normalized j.source
  payloads : ∀ e ∈ j.live, NormalizedPayload e

theorem pathsOk_of_namesOk {generation : UInt64} {e : JournalPayload} {index : Nat}
    (h : payloadNamesOk generation e index = true) (hn : NormalizedPayload e) : PathsOk e := by
  have normal : ∀ {p}, Normalized p → NormalPath maxPath p := fun ⟨_, hr⟩ => normalPath_of_normalize hr
  unfold payloadNamesOk at h
  split at h
  · simp only [Bool.and_eq_true, Bool.or_eq_true, List.isEmpty_iff] at h
    obtain ⟨⟨⟨⟨⟨⟨⟨htarget, -⟩, -⟩, hstage⟩, hbackup⟩, -⟩, -⟩, hprev⟩ := h
    refine ⟨⟨normal hn.target, driveRooted_of_sibling htarget ?_⟩, ⟨normal hn.stage, driveRooted_of_sibling htarget hstage⟩,
      ⟨normal hn.backup, driveRooted_of_sibling htarget hbackup⟩, ?_⟩
    · exact (pathEqualsIgnoreCase_iff _ _).2 rfl
    · rcases hprev with hp | ⟨-, hp⟩
      · exact .inl hp
      · rcases hn.previousBackup with he | hnp
        · exact .inl he
        · exact .inr ⟨normal hnp, driveRooted_of_sibling htarget hp⟩
  · cases h

theorem textOk_of_normalized {j : TransactionJournal} (hv : journalValid j = true) (hn : NormalizedPaths j) : TextOk j := by
  have hfr := ((journalValid_iff j).1 hv).2.1.1
  simp only [journalFrameOk, Bool.and_eq_true] at hfr
  have hpaths := hfr.1.2
  simp only [journalPathsValid, Bool.and_eq_true, List.all_eq_true] at hpaths
  obtain ⟨⟨hsource, hnames⟩, -⟩ := hpaths
  obtain ⟨raw, hraw⟩ := hn.source
  refine ⟨hv, ⟨normalPath_of_normalize hraw, driveRooted_source hsource⟩, fun e he => ?_⟩
  obtain ⟨k, hk⟩ := List.mem_iff_getElem?.1 he
  have hz : (e, k) ∈ j.live.zipIdx := by rw [List.mem_iff_getElem?]; exact ⟨k, by rw [List.getElem?_zipIdx, hk]; simp⟩
  exact pathsOk_of_namesOk (hnames (e, k) hz) (hn.payloads e he)

/-! ## What the parser accepts -/

/-- The journal without its components and payloads. -/
def bare (j : TransactionJournal) : TransactionJournal :=
  { j with components := Vector.replicate _ {}, payloads := Vector.replicate _ {} }

/-- What holds at every line of the pass: the header stays, a slot is empty until its line, and a parsed payload has
normalized paths and a readable old file. -/
structure ParseInv (header : TransactionJournal) (st : ParseState) : Prop where
  bareEq : bare st.journal = header
  componentSeen : ∀ i ∈ st.seenComponents, i < header.componentCount.toNat
  componentEmpty : ∀ i, i ∉ st.seenComponents → ∀ hi : i < maxPackagePayloads, st.journal.components[i] = {}
  payloadSeen : ∀ i ∈ st.seenPayloads, i < header.payloadCount.toNat
  payloadEmpty : ∀ i, i ∉ st.seenPayloads → ∀ hi : i < maxPayloads, st.journal.payloads[i] = {}
  payloadRead : ∀ e ∈ st.journal.payloads.toList, e = {} ∨ (NormalizedPayload e ∧ oldReadable e = true)

theorem bind_ok {α β : Type} {x : Option α} {f : α → Option β} {r : β} (h : (x >>= f) = some r) :
    ∃ a, x = some a ∧ f a = some r := by
  rw [Option.bind_eq_bind, Option.bind_eq_some_iff] at h
  exact h

theorem oldReadable_of_parseTriple {known size sum : Option Bytes} {k : Bool} {s : UInt64} {c : UInt32}
    (h : parseTriple known size sum = some (k, s, c)) : (k || (s == 0 && c == 0)) = true := by
  unfold parseTriple at h
  split at h
  · split at h
    · cases h
    · cases h; rfl
  · split at h
    · cases h
    · iterate 4 obtain ⟨_, -, h⟩ := bind_ok h
      cases h; rfl
    · split at h
      · cases h; rfl
      · cases h

theorem parsePayload_read {line : Bytes} {e : JournalPayload} (h : parsePayload line = some e) :
    NormalizedPayload e ∧ oldReadable e = true := by
  unfold parsePayload at h
  obtain ⟨_, -, h⟩ := bind_ok h
  obtain ⟨target, htarget, h⟩ := bind_ok h
  obtain ⟨_, -, h⟩ := bind_ok h
  obtain ⟨stage, hstage, h⟩ := bind_ok h
  obtain ⟨_, -, h⟩ := bind_ok h
  obtain ⟨backup, hbackup, h⟩ := bind_ok h
  obtain ⟨previous, hprevious, h⟩ := bind_ok h
  -- the inherited backup's triple, then size, checksum and existence
  iterate 8 obtain ⟨_, -, h⟩ := bind_ok h
  obtain ⟨⟨known, size, sum⟩, hold, h⟩ := bind_ok h
  iterate 9 obtain ⟨_, -, h⟩ := bind_ok h
  cases h
  refine ⟨⟨⟨_, htarget⟩, ⟨_, hstage⟩, ⟨_, hbackup⟩, ?_⟩, oldReadable_of_parseTriple hold⟩
  unfold parsePrevious at hprevious
  split at hprevious
  · cases hprevious; exact .inl rfl
  · exact .inr ⟨_, hprevious⟩

theorem parseLine_inv {header : TransactionJournal} {st st' : ParseState} {line : Bytes}
    (h : parseLine st line = some st') (hi : ParseInv header st) : ParseInv header st' := by
  have hcc : st.journal.componentCount = header.componentCount := by rw [← hi.bareEq]; rfl
  have hpc : st.journal.payloadCount = header.payloadCount := by rw [← hi.bareEq]; rfl
  unfold parseLine at h
  simp only at h
  split at h
  · simp only [Option.bind_eq_bind, Option.bind_eq_some_iff, refuse_eq_some, decide_eq_false_iff_not,
      List.contains_eq_mem] at h
    obtain ⟨-, -, _, -, index, -, -, hlt, -, -, c, -, h⟩ := h
    cases h
    refine ⟨hi.bareEq, ?_, ?_, hi.payloadSeen, hi.payloadEmpty, hi.payloadRead⟩
    · refine List.forall_mem_cons.2 ⟨?_, hi.componentSeen⟩
      rw [hcc, UInt32.not_le, UInt32.lt_iff_toNat_lt] at hlt
      exact hlt
    · intro i hn hi'
      rw [List.mem_cons, not_or] at hn
      show (st.journal.components.setIfInBounds index.toNat c)[i] = {}
      rw [Vector.getElem_setIfInBounds, if_neg (fun he => hn.1 he.symm)]
      exact hi.componentEmpty i hn.2 hi'
  · split at h
    · simp only [Option.bind_eq_bind, Option.bind_eq_some_iff, refuse_eq_some, decide_eq_false_iff_not,
        List.contains_eq_mem] at h
      obtain ⟨-, -, _, -, index, -, -, hlt, -, -, e, he, h⟩ := h
      cases h
      refine ⟨hi.bareEq, hi.componentSeen, hi.componentEmpty, ?_, ?_, ?_⟩
      · refine List.forall_mem_cons.2 ⟨?_, hi.payloadSeen⟩
        rw [hpc, UInt32.not_le, UInt32.lt_iff_toNat_lt] at hlt
        exact hlt
      · intro i hn hi'
        rw [List.mem_cons, not_or] at hn
        show (st.journal.payloads.setIfInBounds index.toNat e)[i] = {}
        rw [Vector.getElem_setIfInBounds, if_neg (fun he => hn.1 he.symm)]
        exact hi.payloadEmpty i hn.2 hi'
      · intro x hx
        rw [show ({ st.journal with payloads := st.journal.payloads.setIfInBounds index.toNat e } :
          TransactionJournal).payloads.toList = st.journal.payloads.toList.set index.toNat e from
          Vector.toList_setIfInBounds] at hx
        rcases List.mem_or_eq_of_mem_set hx with hx | rfl
        · exact hi.payloadRead x hx
        · exact .inr (parsePayload_read he)
    · cases h; exact hi

theorem foldlM_parseLine_inv {header : TransactionJournal} (ls : List Bytes) {st st' : ParseState}
    (h : ls.foldlM parseLine st = some st') (hi : ParseInv header st) : ParseInv header st' := by
  induction ls generalizing st with
  | nil => cases h; exact hi
  | cons l ls ih =>
    rw [List.foldlM_cons, Option.bind_eq_bind, Option.bind_eq_some_iff] at h
    obtain ⟨st1, h1, h2⟩ := h
    exact ih h2 (parseLine_inv h1 hi)

theorem parseHeader_read {data : Bytes} {slot : UInt8} {header : TransactionJournal}
    (h : parseHeader data slot = some header) : headerOf header slot = header ∧ Normalized header.source := by
  unfold parseHeader at h
  -- sixteen fields and their values, the guard, and the source text
  iterate 34 obtain ⟨_, -, h⟩ := bind_ok h
  obtain ⟨source, hsource, h⟩ := bind_ok h
  iterate 7 obtain ⟨_, -, h⟩ := bind_ok h
  cases h
  exact ⟨rfl, _, hsource⟩

theorem parse_accepted {data : Bytes} {slot : UInt8} {j : TransactionJournal} (h : parseJournalInto data slot = some j) :
    journalValid j = true ∧ NormalizedPaths j ∧ OldReadable j ∧ slot ≤ 1 ∧ stored j slot = j := by
  unfold parseJournalInto at h
  obtain ⟨_, hslot, h⟩ := bind_ok h
  obtain ⟨body, -, h⟩ := bind_ok h
  iterate 3 obtain ⟨_, -, h⟩ := bind_ok h
  obtain ⟨header, hheader, h⟩ := bind_ok h
  obtain ⟨st, hst, h⟩ := bind_ok h
  obtain ⟨_, -, h⟩ := bind_ok h
  obtain ⟨_, hunbound, h⟩ := bind_ok h
  obtain ⟨_, -, h⟩ := bind_ok h
  obtain ⟨_, hvalid, h⟩ := bind_ok h
  cases h
  rw [refuse_eq_some] at hslot hunbound hvalid
  obtain ⟨hhd, hsource⟩ := parseHeader_read hheader
  have hempty : header.components = Vector.replicate _ {} ∧ header.payloads = Vector.replicate _ {} := by
    rw [← hhd]; exact ⟨rfl, rfl⟩
  have h0 : ParseInv header ⟨header, [], []⟩ := by
    refine ⟨?_, by simp, fun i _ hi => ?_, by simp, fun i _ hi => ?_, fun e he => ?_⟩
    · rw [← hhd]; rfl
    · show header.components[i] = {}
      simp [hempty.1]
    · show header.payloads[i] = {}
      simp [hempty.2]
    · have he' : e ∈ header.payloads.toList := he
      rw [hempty.2, Vector.toList_replicate] at he'
      exact .inl (List.eq_of_mem_replicate he')
  have hinv := foldlM_parseLine_inv _ hst h0
  have hv : journalValid st.journal = true := by simpa using hvalid
  have hbare := hinv.bareEq
  -- a live payload is not empty, so its line was read
  have hread : ∀ e ∈ st.journal.live, NormalizedPayload e ∧ oldReadable e = true := by
    intro e he
    obtain ⟨-, hfr, -, -⟩ := (journalValid_iff _).1 hv
    rcases hinv.payloadRead e (List.mem_of_mem_take he) with rfl | hr
    · have := hfr.2.2 _ he
      cases this
    · exact hr
  have hsrc : st.journal.source = header.source := by rw [← hbare]; rfl
  have hslot' : slot ≤ 1 := by
    simp only [Bool.or_eq_false_iff, decide_eq_false_iff_not] at hslot
    exact UInt8.not_lt.1 hslot.1.1
  have hhdr : headerOf st.journal slot = bare st.journal := by
    rw [hbare]
    exact (congrArg (headerOf · slot) hbare).trans hhd
  refine ⟨hv, ⟨by rw [hsrc]; exact hsource, fun e he => (hread e he).1⟩, fun e he => (hread e he).2, hslot', ?_⟩
  have hpay : fill (Vector.replicate _ {}) 0 st.journal.live = st.journal.payloads := by
    refine fill_take (fun i hk hi => hinv.payloadEmpty i (fun hm => ?_) hi)
    have h1 := hinv.payloadSeen i hm
    rw [← hbare] at h1
    exact absurd h1 (Nat.not_lt.2 hk)
  have hcomp : (if st.journal.componentsBound then fill (Vector.replicate _ {}) 0 st.journal.liveComponents
      else Vector.replicate _ {}) = st.journal.components := by
    split
    · refine fill_take (fun i hk hi => hinv.componentEmpty i (fun hm => ?_) hi)
      have h1 := hinv.componentSeen i hm
      rw [← hbare] at h1
      exact absurd h1 (Nat.not_lt.2 hk)
    · rename_i hb
      have hnil : st.seenComponents = [] := by simpa [hb] using hunbound
      refine Vector.ext (fun i hi => ?_)
      rw [hinv.componentEmpty i (by simp [hnil]) hi]
      simp
  rw [stored, hhdr, hpay, hcomp]
  rfl

/-! ## The round trip -/

/-- The journal is written into a journal buffer and reads back, for either slot, equal in every serialized field. -/
def RoundTrips (j : TransactionJournal) : Prop :=
  ∃ out, serializeJournal j journalMax = some out ∧
    ∀ slot : UInt8, slot ≤ 1 → ∃ j', parseJournalInto out slot = some j' ∧ SameSerialized j' j

theorem serializeJournal_of_textOk {j : TransactionJournal} (h : TextOk j) :
    serializeJournal j journalMax = some (journalText j) := by
  rw [serializeJournal, h.valid, if_pos (length_journalText h)]
  rfl

theorem roundTrips_iff {j : TransactionJournal} (hv : journalValid j = true) (hn : NormalizedPaths j) :
    RoundTrips j ↔ OldReadable j := by
  have hok := textOk_of_normalized hv hn
  constructor
  · rintro ⟨out, hout, hparse⟩
    rw [serializeJournal_of_textOk hok] at hout
    cases hout
    by_contra hbad
    obtain ⟨j', hj', -⟩ := hparse 0 (by decide)
    rw [parseJournalInto_unreadable hok hbad (by decide)] at hj'
    cases hj'
  · intro ho
    exact ⟨journalText j, serializeJournal_of_textOk hok, fun slot hs =>
      ⟨stored j slot, parseJournalInto_journalText hok ho hs, sameSerialized_stored hok.frame slot⟩⟩

theorem parse_serialize_parse {data : Bytes} {slot : UInt8} {j : TransactionJournal}
    (h : parseJournalInto data slot = some j) :
    ∃ out, serializeJournal j journalMax = some out ∧ parseJournalInto out slot = some j := by
  obtain ⟨hv, hn, ho, hs, hstored⟩ := parse_accepted h
  have hok := textOk_of_normalized hv hn
  refine ⟨journalText j, serializeJournal_of_textOk hok, ?_⟩
  rw [parseJournalInto_journalText hok ho hs, hstored]

/-- **A valid journal with normalized paths round-trips exactly when no payload carries the size or checksum of an old
file it does not know; and what the parser accepts, it writes and reads again as the same journal.** -/
theorem journal_roundTrip (j : TransactionJournal) :
    (journalValid j = true → NormalizedPaths j → (RoundTrips j ↔ OldReadable j)) ∧
    (∀ data slot, parseJournalInto data slot = some j →
      ∃ out, serializeJournal j journalMax = some out ∧ parseJournalInto out slot = some j) :=
  ⟨fun hv hn => roundTrips_iff hv hn, fun _ _ h => parse_serialize_parse h⟩

/-- One payload over an existing target whose old file is `known` or not, with an old size of seven bytes. -/
def oneFile (known : Bool) : TransactionJournal :=
  { valid := true, transactionGeneration := 5, journalGeneration := 1, phase := .stage, packageLength := 1000
    packageVersion := ascii "1.0.0", sourceVersion := ascii "0.63.12", targetVersion := ascii "0.63.13"
    source := ascii "C:\\R4OS\\UPDATE\\INBOX\\PKG.R4U", packagePayloadCount := 1, payloadCount := 1
    payloads := Vector.ofFn (fun i =>
      if i.val = 0 then
        { target := ascii "C:\\R4OS\\SERVICES\\SSHD.R4X", size := 51, checksum := 61, targetExisted := true
          oldKnown := known, oldSize := 7
          stage := (buildInternal83Name (ascii "C:\\R4OS\\SERVICES\\SSHD.R4X") 'S'.toUInt8 5 0).getD []
          backup := (buildInternal83Name (ascii "C:\\R4OS\\SERVICES\\SSHD.R4X") 'B'.toUInt8 5 0).getD [] }
      else {}) }

theorem oneFile_checks (known : Bool) : journalValid (oneFile known) = true ∧
    (normalizeAbsolutePath maxPath (oneFile known).source = some (oneFile known).source ∧
      ∀ e ∈ (oneFile known).live, normalizeAbsolutePath maxPath e.target = some e.target ∧
        normalizeAbsolutePath maxPath e.stage = some e.stage ∧ normalizeAbsolutePath maxPath e.backup = some e.backup ∧
        e.previousBackup = []) ∧ ((∀ e ∈ (oneFile known).live, oldReadable e = true) ↔ known = true) := by
  cases known <;> decide +kernel

theorem oneFile_valid (known : Bool) : journalValid (oneFile known) = true := (oneFile_checks known).1

theorem normalizedPaths_of_self {j : TransactionJournal} (hs : normalizeAbsolutePath maxPath j.source = some j.source)
    (hp : ∀ e ∈ j.live, normalizeAbsolutePath maxPath e.target = some e.target ∧
      normalizeAbsolutePath maxPath e.stage = some e.stage ∧
      normalizeAbsolutePath maxPath e.backup = some e.backup ∧ e.previousBackup = []) : NormalizedPaths j :=
  ⟨⟨_, hs⟩, fun e he => ⟨⟨_, (hp e he).1⟩, ⟨_, (hp e he).2.1⟩, ⟨_, (hp e he).2.2.1⟩, .inl (hp e he).2.2.2⟩⟩

theorem oneFile_normalized (known : Bool) : NormalizedPaths (oneFile known) :=
  normalizedPaths_of_self (oneFile_checks known).2.1.1 (oneFile_checks known).2.1.2

theorem journal_roundTrip_oneFile : RoundTrips (oneFile true) := by
  refine ((journal_roundTrip (oneFile true)).1 (oneFile_valid true) (oneFile_normalized true)).2 ?_
  exact (oneFile_checks true).2.2.2 rfl

/-- **An unknown old file with a size is written and never read back.** -/
theorem journal_roundTrip_unknown :
    journalValid (oneFile false) = true ∧ NormalizedPaths (oneFile false) ∧ ¬ RoundTrips (oneFile false) := by
  refine ⟨oneFile_valid false, oneFile_normalized false, fun h => ?_⟩
  have ho := (roundTrips_iff (oneFile_valid false) (oneFile_normalized false)).1 h
  cases (oneFile_checks false).2.2.1 ho

end Journal
end R4
