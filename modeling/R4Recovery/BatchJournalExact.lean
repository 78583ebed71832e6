import R4Recovery.BatchJournalRoundTrip
/-!
# BatchJournalExact — what reads back, and what is torn

The round trip of a valid journal holds exactly when no package path reads as a drive the second time; what the parser
accepts it writes again; and a text that lost more than its last newline is no journal.
-/
namespace R4
namespace UpdateBatch

open Journal (NormalPath plain plain_append plain_decimal maxPath checksum normalizeAbsolutePath recordLine copyTextZ
  refuse refuse_eq_some bind_ok fill driveRooted)
open Manifest

variable {j j' : BatchJournal} {slot : UInt8}

/-! ## The round trip -/

/-- An output of `normalizeAbsolutePath`, into a buffer of any size. -/
def Normalized (p : Bytes) : Prop := ∃ cap raw, normalizeAbsolutePath cap raw = some p

/-- Equality in every field the text holds. -/
structure SameSerialized (a b : BatchJournal) : Prop where
  batchGeneration : a.batchGeneration = b.batchGeneration
  journalGeneration : a.journalGeneration = b.journalGeneration
  phase : a.phase = b.phase
  sourceRelease : a.sourceRelease = b.sourceRelease
  targetRelease : a.targetRelease = b.targetRelease
  packageCount : a.packageCount = b.packageCount
  currentPackage : a.currentPackage = b.currentPackage
  reason : a.reason = b.reason
  packages : a.live = b.live

/-- The journal is written into a journal buffer and reads back, for either slot, equal in every serialized field. -/
def RoundTrips (j : BatchJournal) : Prop :=
  ∃ out, serializeJournal j journalMax = some out ∧
    ∀ slot : UInt8, slot ≤ 1 → ∃ j', parseJournalInto out slot = some j' ∧ SameSerialized j' j

/-- The journal is written and reads back as itself. -/
def ReadsAgain (j : BatchJournal) (slot : UInt8) : Prop :=
  ∃ out, serializeJournal j journalMax = some out ∧ parseJournalInto out slot = some j

/-- No package path is spelled like a drive, `\X\…`. -/
def Undriven (j : BatchJournal) : Prop := ∀ e ∈ j.live, driveRooted e.path = false

theorem textOk_of_normalized (h : journalValid j = true) (hn : ∀ e ∈ j.live, Normalized e.path) : TextOk j := by
  refine ⟨h, fun e he => ?_⟩
  obtain ⟨-, -, -, -, -, -, -, -, -, -, hentries⟩ := (journalValid_iff j).1 h
  obtain ⟨-, -, hlen, -⟩ := (entryValid_iff _ _ e).1 (entryValid_of_mem hentries e he)
  obtain ⟨cap, raw, hraw⟩ := hn e he
  obtain ⟨root, comps, hroot, hcomps, hp, -⟩ := Journal.normalPath_of_normalize hraw
  exact ⟨root, comps, hroot, hcomps, hp, hlen⟩

theorem serializeJournal_textOk (h : TextOk j) : serializeJournal j journalMax = some (journalText j) := by
  unfold serializeJournal
  rw [h.valid, if_pos (length_journalText h)]
  rfl

theorem reread_eq {e : PackageEntry} (h : NormalPath maxPath e.path) :
    reread e = some e ↔ driveRooted e.path = false := by
  unfold reread
  constructor
  · intro heq
    obtain ⟨path, hpath, hself⟩ := Option.map_eq_some_iff.1 heq
    rw [show path = e.path from congrArg PackageEntry.path hself] at hpath
    exact Bool.eq_false_iff.2 (fun hd => Journal.normalize_driveRooted hd hpath)
  · intro hd
    rw [Journal.normalize_self h hd]
    rfl

theorem mapM_self {α : Type} {f : α → Option α} : ∀ {l : List α}, l.mapM f = some l ↔ ∀ x ∈ l, f x = some x
  | [] => ⟨fun _ _ hx => absurd hx List.not_mem_nil, fun _ => rfl⟩
  | x :: l => by
    rw [List.mapM_cons, List.forall_mem_cons, ← mapM_self (l := l), Option.bind_eq_bind, Option.bind_eq_some_iff]
    constructor
    · rintro ⟨y, hy, h⟩
      obtain ⟨ys, hys, h⟩ := bind_ok h
      cases h
      exact ⟨hy, hys⟩
    · rintro ⟨hx, hl⟩
      refine ⟨x, hx, ?_⟩
      rw [hl]
      rfl

theorem mapM_length {α β : Type} {f : α → Option β} : ∀ {l : List α} {ys : List β}, l.mapM f = some ys → ys.length = l.length
  | [], _, h => by
    cases h
    rfl
  | x :: l, ys, h => by
    rw [List.mapM_cons] at h
    obtain ⟨y, -, h⟩ := bind_ok h
    obtain ⟨ys', hys, h⟩ := bind_ok h
    cases h
    rw [List.length_cons, List.length_cons, mapM_length hys]

theorem reparsed_live {entries : List PackageEntry} (hcount : j.packageCount.toNat ≤ maxPackages)
    (hlen : entries.length = j.live.length) : (reparsed j slot entries).live = entries := by
  rw [live_length hcount] at hlen
  show (fill (Vector.replicate _ {}) 0 entries).toList.take j.packageCount.toNat = entries
  rw [← hlen]
  exact Journal.toList_fill_take _ _ (by omega)

theorem reparsed_same (hcount : j.packageCount.toNat ≤ maxPackages) (slot : UInt8) :
    SameSerialized (reparsed j slot j.live) j :=
  ⟨rfl, rfl, rfl, rfl, rfl, rfl, rfl, rfl, reparsed_live hcount rfl⟩

theorem journalValid_of_same (h : SameSerialized j' j) (hv : j'.valid = true) (hs : j'.slot ≤ 1)
    (hj : journalValid j = true) : journalValid j' = true := by
  obtain ⟨-, -, h3, h4, h5, h6, h7, h8, h9, h10, h11⟩ := (journalValid_iff j).1 hj
  rw [journalValid_iff, h.batchGeneration, h.journalGeneration, h.packageCount, h.currentPackage, h.sourceRelease,
    h.targetRelease, h.reason, h.packages]
  exact ⟨hv, hs, h3, h4, h5, h6, h7, h8, h9, h10, h11⟩

theorem parse_undriven (h : TextOk j) (hu : Undriven j) (hs : slot ≤ 1) :
    parseJournalInto (journalText j) slot = some (reparsed j slot j.live) := by
  have hvalid : journalValid (reparsed j slot j.live) = true :=
    journalValid_of_same (reparsed_same h.count_le slot) rfl hs h.valid
  rw [parseJournalInto_text h hs, mapM_self.2 (fun e he => (reread_eq (h.paths e he)).2 (hu e he)), Option.bind_some,
    if_pos hvalid]

theorem undriven_of_parse (h : TextOk j) (hs : slot ≤ 1) (hp : parseJournalInto (journalText j) slot = some j')
    (hsame : j'.live = j.live) : Undriven j := by
  rw [parseJournalInto_text h hs, Option.bind_eq_some_iff] at hp
  obtain ⟨entries, hentries, hp⟩ := hp
  split at hp
  · cases hp
    rw [reparsed_live h.count_le (mapM_length hentries)] at hsame
    rw [hsame] at hentries
    exact fun e he => (reread_eq (h.paths e he)).1 (mapM_self.1 hentries e he)
  · cases hp

/-- **A valid journal with normalized paths round-trips exactly when no package path is spelled `\X\…`.** -/
theorem roundTrips_iff (h : journalValid j = true) (hn : ∀ e ∈ j.live, Normalized e.path) : RoundTrips j ↔ Undriven j := by
  have hok := textOk_of_normalized h hn
  constructor
  · rintro ⟨out, hout, hparse⟩
    rw [serializeJournal_textOk hok] at hout
    cases hout
    obtain ⟨j', hj', hsame⟩ := hparse 0 (by decide)
    exact undriven_of_parse hok (by decide) hj' hsame.packages
  · intro hu
    exact ⟨journalText j, serializeJournal_textOk hok, fun slot hs =>
      ⟨reparsed j slot j.live, parse_undriven hok hu hs, reparsed_same hok.count_le slot⟩⟩

/-! ## What the parser accepts -/

/-- What holds at every line: the slots behind the packages read so far are empty, the paths of these are normalized. -/
structure ParseInv (st : ParseState) : Prop where
  bound : st.parsedPackages ≤ maxPackages
  empty : ∀ i, st.parsedPackages ≤ i → ∀ hi : i < maxPackages, st.journal.packages[i] = {}
  read : ∀ i, i < st.parsedPackages → ∀ hi : i < maxPackages, Normalized st.journal.packages[i].path

theorem setter_packages : ∀ s ∈ headerSetters, ∀ (value : Bytes) (j j' : BatchJournal), s.2 value j = some j' →
    j'.packages = j.packages := by
  unfold headerSetters
  simp only [List.forall_mem_cons, Option.map_eq_some_iff]
  refine ⟨?_, ?_, ?_, ?_, ?_, ?_, ?_, ?_, fun _ hs => absurd hs List.not_mem_nil⟩ <;>
  · rintro value j j' ⟨_, -, rfl⟩
    rfl

theorem ParseInv.once {st st' : ParseState} {key : String} {journal : Option BatchJournal} (h : ParseInv st)
    (hkeep : ∀ j' ∈ journal, j'.packages = st.journal.packages) (ho : st.once key journal = some st') : ParseInv st' := by
  unfold ParseState.once at ho
  split at ho
  · cases ho
  · obtain ⟨j', hj', rfl⟩ := Option.map_eq_some_iff.1 ho
    have hpackages := hkeep j' hj'
    refine ⟨h.bound, fun i hle hi => ?_, fun i hlt hi => ?_⟩
    · show j'.packages[i] = {}
      rw [getElem_congr_coll hpackages]
      exact h.empty i hle hi
    · show Normalized j'.packages[i].path
      rw [getElem_congr_coll hpackages]
      exact h.read i hlt hi

theorem parsePackageLine_read {line : Bytes} {k : Nat} {e : PackageEntry} (h : parsePackageLine line k = some e) :
    k < maxPackages ∧ Normalized e.path := by
  unfold parsePackageLine at h
  obtain ⟨_, hrefuse, h⟩ := bind_ok h
  iterate 5 obtain ⟨_, -, h⟩ := bind_ok h
  obtain ⟨path, hpath, h⟩ := bind_ok h
  iterate 12 obtain ⟨_, -, h⟩ := bind_ok h
  cases h
  rw [refuse_eq_some, Bool.or_eq_false_iff, decide_eq_false_iff_not, Nat.not_le] at hrefuse
  exact ⟨hrefuse.1, maxPath, _, hpath⟩

theorem ParseInv.line {st st' : ParseState} {raw : Bytes} (h : ParseInv st) (hl : parseLine st raw = some st') :
    ParseInv st' := by
  unfold parseLine at hl
  dsimp only at hl
  split at hl
  · cases hl
    exact h
  · split at hl
    · exact h.once (fun j' hj' => by rw [Option.some.inj hj']) hl
    · split at hl
      · rename_i key set hfind
        exact h.once (fun j' hj' => setter_packages (key, set) (List.mem_of_find?_eq_some hfind) _ _ _ hj') hl
      · split at hl
        · obtain ⟨e, he, rfl⟩ := Option.map_eq_some_iff.1 hl
          obtain ⟨hlt, hpath⟩ := parsePackageLine_read he
          refine ⟨hlt, fun i hle hi => ?_, fun i hi' hi => ?_⟩
          · show (st.journal.packages.setIfInBounds st.parsedPackages e)[i] = {}
            have hle : st.parsedPackages + 1 ≤ i := hle
            rw [Vector.getElem_setIfInBounds, if_neg (by omega)]
            exact h.empty i (by omega) hi
          · show Normalized (st.journal.packages.setIfInBounds st.parsedPackages e)[i].path
            have hi' : i < st.parsedPackages + 1 := hi'
            rw [Vector.getElem_setIfInBounds]
            split
            · exact hpath
            · exact h.read i (by omega) hi
        · cases hl

theorem ParseInv.lines : ∀ {ls : List Bytes} {st st' : ParseState}, ParseInv st → ls.foldlM parseLine st = some st' →
    ParseInv st'
  | [], _, _, h, hl => by
    cases hl
    exact h
  | l :: ls, st, st', h, hl => by
    rw [List.foldlM_cons] at hl
    obtain ⟨st1, h1, h2⟩ := bind_ok hl
    exact (h.line h1).lines h2

theorem parse_accepted {data : Bytes} (h : parseJournalInto data slot = some j) :
    journalValid j = true ∧ (∀ e ∈ j.live, Normalized e.path) ∧ slot ≤ 1 ∧ reparsed j slot j.live = j := by
  unfold parseJournalInto at h
  obtain ⟨_, hslot, h⟩ := bind_ok h
  obtain ⟨body, -, h⟩ := bind_ok h
  obtain ⟨st, hst, h⟩ := bind_ok h
  obtain ⟨_, hvalid, h⟩ := bind_ok h
  cases h
  rw [refuse_eq_some, Bool.or_eq_false_iff, Bool.or_eq_false_iff, decide_eq_false_iff_not, UInt8.not_lt] at hslot
  rw [refuse_eq_some, Bool.not_eq_false'] at hvalid
  have hinv : ParseInv st := ParseInv.lines ⟨Nat.zero_le _, fun i _ hi => Vector.getElem_replicate _,
    fun i hi => absurd hi (Nat.not_lt_zero i)⟩ hst
  obtain ⟨hflag, -, -, -, -, hcount, -⟩ := (journalValid_iff _).1 hvalid
  have hall : sawAll st.seen = true ∧ st.parsedPackages = st.journal.packageCount.toNat := by
    rwa [Bool.and_eq_true, beq_iff_eq] at hflag
  refine ⟨hvalid, fun e he => ?_, hslot.1.1, ?_⟩
  · obtain ⟨i, hi⟩ := List.mem_iff_getElem?.1 he
    have hi' : (st.journal.packages.toList.take st.journal.packageCount.toNat)[i]? = some e := hi
    rw [List.getElem?_take] at hi'
    split at hi'
    · rename_i hlt
      have hmax : i < maxPackages := Nat.lt_of_lt_of_le hlt hcount
      rw [Vector.getElem?_toList, Vector.getElem?_eq_getElem hmax] at hi'
      exact Option.some.inj hi' ▸ hinv.read i (hall.2 ▸ hlt) hmax
    · cases hi'
  · have hfill : fill (Vector.replicate _ {}) 0 (st.journal.packages.toList.take st.journal.packageCount.toNat)
        = st.journal.packages := Journal.fill_take (fun i hk hi => hinv.empty i (hall.2 ▸ hk) hi)
    have hflag' : (sawAll st.seen && st.parsedPackages == st.journal.packageCount.toNat) = true := hflag
    unfold reparsed headerOf BatchJournal.live
    dsimp only
    rw [hfill, hflag']

/-- **What the parser accepts is written, and it reads as the same journal exactly when no path is spelled `\X\…`.** -/
theorem readsAgain_iff {data : Bytes} (h : parseJournalInto data slot = some j) : ReadsAgain j slot ↔ Undriven j := by
  obtain ⟨hv, hn, hs, hself⟩ := parse_accepted h
  have hok := textOk_of_normalized hv hn
  constructor
  · rintro ⟨out, hout, hparse⟩
    rw [serializeJournal_textOk hok] at hout
    cases hout
    exact undriven_of_parse hok hs hparse rfl
  · intro hu
    exact ⟨journalText j, serializeJournal_textOk hok, (parse_undriven hok hu hs).trans (congrArg some hself)⟩

/-! ## A torn text -/

theorem cut_lines : ∀ (L : List Bytes) {cut : Bytes}, cut <+: L.flatMap (· ++ [10]) → cut = L.flatMap (· ++ [10]) ∨
    ∃ pre l post part, L = pre ++ l :: post ∧ part <+: l ∧ cut = pre.flatMap (· ++ [10]) ++ part
  | [], cut, h => .inl (List.prefix_nil.1 h)
  | l :: L, cut, h => by
    rw [List.flatMap_cons] at h ⊢
    rcases List.prefix_or_prefix_of_prefix h (List.prefix_append (l ++ [10]) _) with hl | ⟨rest, rfl⟩
    · rcases List.prefix_concat_iff.1 hl with rfl | hl
      · -- the cut is this whole line: all of the text, or in front of the next one
        cases L with
        | nil => exact .inl (by simp)
        | cons l' L => exact .inr ⟨[l], l', L, [], rfl, List.nil_prefix, by simp⟩
      · exact .inr ⟨[], l, L, cut, rfl, hl, rfl⟩
    · rcases cut_lines L ((List.prefix_append_right_inj (l ++ [10])).1 h) with rfl | ⟨pre, l', post, part, rfl, hp, rfl⟩
      · exact .inl rfl
      · exact .inr ⟨l :: pre, l', post, part, rfl, hp, by simp⟩

theorem parseDigits_append : ∀ (d e : Bytes) (m : Nat), parseDigits (d ++ e) m = (parseDigits d m).bind (parseDigits e)
  | [], _, _ => rfl
  | c :: d, e, m => by
    rw [List.cons_append, parseDigits, parseDigits]
    split
    · split
      · exact parseDigits_append d e _
      · rfl
    · rfl

theorem parseDigits_le : ∀ {e : Bytes} {m n : Nat}, parseDigits e m = some n → m ≤ n
  | [], _, _, h => (Option.some.inj h).le
  | c :: e, m, n, h => by
    rw [parseDigits] at h
    split at h
    · split at h
      · have hle := parseDigits_le h
        omega
      · cases h
    · cases h

/-- **A number that lost its last digits is another number.** -/
theorem parseDigits_cut {n : Nat} (hn : n < 2 ^ 64) {d e : Bytes} (hd : d ≠ []) (he : e ≠ []) (h : d ++ e = decimal n) :
    parseDigits d 0 ≠ some n := by
  intro hcut
  have hwhole := parseDigits_decimal hn
  rw [← h, parseDigits_append, hcut, Option.bind_some] at hwhole
  obtain ⟨c, e, rfl⟩ := List.exists_cons_of_ne_nil he
  have hten : 10 * n ≤ n := by
    rw [parseDigits] at hwhole
    split at hwhole
    · split at hwhole
      · have hle := parseDigits_le hwhole
        omega
      · cases hwhole
    · cases hwhole
  obtain rfl : n = 0 := by omega
  have hlen := congrArg List.length h
  have hpos := List.length_pos_of_ne_nil hd
  rw [List.length_append, List.length_cons, show (decimal 0).length = 1 from rfl] at hlen
  omega

theorem parseDigits_lt : ∀ {e : Bytes} {m n : Nat}, m < 2 ^ 64 → parseDigits e m = some n → n < 2 ^ 64
  | [], _, _, hm, h => Option.some.inj h ▸ hm
  | c :: e, m, n, hm, h => by
    rw [parseDigits] at h
    split at h
    · split at h
      · rename_i hlt
        exact parseDigits_lt hlt h
      · cases h
    · cases h

theorem parseU32_eq {value : Bytes} {n : UInt32} (h : parseU32 value = some n) :
    value ≠ [] ∧ parseDigits value 0 = some n.toNat := by
  unfold parseU32 at h
  split at h
  · cases h
  · rename_i m hm
    split at h
    · rename_i hlt
      cases h
      unfold parseU64 at hm
      split at hm
      · cases hm
      · rename_i hne
        obtain ⟨k, hk, rfl⟩ := Option.map_eq_some_iff.1 hm
        have hk64 := parseDigits_lt (by decide) hk
        have hk' : k.toUInt64.toNat = k := by
          simp only [Nat.toUInt64_eq, UInt64.toNat_ofNat']
          omega
        refine ⟨fun heq => hne (by rw [heq]; rfl), ?_⟩
        rw [hk, UInt64.toNat_toUInt32, hk']
        rw [hk'] at hlt
        exact congrArg some (Nat.mod_eq_of_lt hlt).symm
    · cases h

theorem parse_otherLine {front line : Bytes} (hfront : front = [] ∨ front.getLast? = some 10) (hne : line ≠ [])
    (hline : ∀ c ∈ line, isLineEnd c = false) (ends : Bytes) (hends : ∀ c ∈ ends, isLineEnd c = true)
    (hother : ¬ ascii "CHECKSUM=" <+: line) (slot : UInt8) : parseJournalInto (front ++ line ++ ends) slot = none := by
  have hstart : lastLineStart (front ++ line ++ ends) "CHECKSUM=" = none := by
    rw [lastLineStart_append hfront hne hline ends hends, startsWith,
      if_neg (fun hs => hother (List.isPrefixOf_iff_prefix.1 hs))]
  unfold parseJournalInto parseChecksum
  rw [hstart]
  cases refuse (decide (1 < slot) || (front ++ line ++ ends).isEmpty || decide (journalMax < (front ++ line ++ ends).length)) with
  | none => rfl
  | some _ => rfl

theorem parse_shortChecksum (j : BatchJournal) {part : Bytes} (hp : part <+: checksumLine j) (hne : part ≠ checksumLine j)
    (hkey : ascii "CHECKSUM=" <+: part) (slot : UInt8) : parseJournalInto (bodyText j ++ part) slot = none := by
  obtain ⟨digits, rfl⟩ := hkey
  obtain ⟨rest, hrest⟩ := hp
  have hdigits : digits ++ rest = decimal (checksum (bodyText j)).toNat := by
    unfold checksumLine at hrest
    rw [List.append_assoc] at hrest
    exact List.append_cancel_left hrest
  have hrest' : rest ≠ [] := by
    rintro rfl
    rw [List.append_nil] at hrest
    exact hne hrest
  have hends : ∀ c ∈ ascii "CHECKSUM=" ++ digits, isLineEnd c = false := fun c hc =>
    checksumLine_ends j c (hrest ▸ List.mem_append_left _ hc)
  have hne' : ascii "CHECKSUM=" ++ digits ≠ [] := List.append_ne_nil_of_left_ne_nil (by decide) _
  have hstart : lastLineStart (bodyText j ++ (ascii "CHECKSUM=" ++ digits)) "CHECKSUM=" = some (bodyText j).length := by
    have hlast := lastLineStart_append (bodyText_last (bodyLines j)) hne' hends [] (fun _ hc => absurd hc List.not_mem_nil)
      "CHECKSUM="
    rwa [List.append_nil, startsWith_append, if_pos rfl] at hlast
  have hchecksum : parseChecksum (bodyText j ++ (ascii "CHECKSUM=" ++ digits)) = none := by
    unfold parseChecksum
    rw [hstart]
    simp only [Option.bind_eq_bind, Option.bind_some, List.drop_left, List.take_left, trimLine_plain hends]
    cases hnum : parseU32 digits with
    | none => rfl
    | some n =>
      obtain ⟨hd, hparse⟩ := parseU32_eq hnum
      have hdiff : n ≠ checksum (bodyText j) := by
        rintro rfl
        exact parseDigits_cut (Nat.lt_trans (checksum (bodyText j)).toNat_lt (by decide)) hd hrest' hdigits hparse
      rw [Option.bind_some, show (n != checksum (bodyText j)) = true from bne_iff_ne.2 hdiff]
      rfl
  unfold parseJournalInto
  rw [hchecksum]
  cases refuse (decide (1 < slot) || (bodyText j ++ (ascii "CHECKSUM=" ++ digits)).isEmpty ||
    decide (journalMax < (bodyText j ++ (ascii "CHECKSUM=" ++ digits)).length)) with
  | none => rfl
  | some _ => rfl

/-- **A journal's text that lost more than its last newline is read as no journal.** -/
theorem parse_torn (h : TextOk j) {cut : Bytes} (hp : cut <+: journalText j) (hlen : cut.length + 1 < (journalText j).length)
    (slot : UInt8) : parseJournalInto cut slot = none := by
  have htext : journalText j = (bodyLines j ++ [checksumLine j]).flatMap (· ++ [10]) := by
    rw [journalText, List.flatMap_append, bodyText]
    simp
  rw [htext] at hp
  rcases cut_lines _ hp with rfl | ⟨pre, l, post, part, hlines, hpart, rfl⟩
  · rw [htext] at hlen
    omega
  · by_cases hne : part = []
    · subst hne
      rw [List.append_nil] at hlen ⊢
      rcases List.eq_nil_or_concat pre with rfl | ⟨pre, l', rfl⟩
      · unfold parseJournalInto
        rw [List.flatMap_nil, List.isEmpty_nil, Bool.or_true, Bool.true_or]
        rfl
      · -- the cut ends with the newline of a body line
        rw [List.concat_eq_append] at hlines ⊢
        have hbody : BodyLine l' := by
          refine bodyLine_of_mem h l' ?_
          have hdrop := congrArg List.dropLast hlines
          rw [List.dropLast_concat, List.dropLast_append_of_ne_nil (by simp)] at hdrop
          rw [hdrop]
          simp
        rw [List.flatMap_append, List.flatMap_singleton, ← List.append_assoc]
        exact parse_otherLine (bodyText_last pre) hbody.ne hbody.ends [10]
          (fun c hc => by rw [List.mem_singleton.1 hc]; rfl) hbody.other slot
    · rcases List.eq_nil_or_concat post with rfl | ⟨post, last, rfl⟩
      · -- the cut ends inside the checksum line
        obtain ⟨rfl, hl⟩ := List.append_inj' hlines rfl
        cases hl
        have hends : ∀ c ∈ part, isLineEnd c = false := fun c hc => checksumLine_ends j c (hpart.subset hc)
        by_cases hkey : ascii "CHECKSUM=" <+: part
        · refine parse_shortChecksum j hpart (fun heq => ?_) hkey slot
          have hwhole : (bodyText j ++ checksumLine j).length + 1 < (journalText j).length := heq ▸ hlen
          have hfull : (journalText j).length = (bodyText j ++ checksumLine j).length + 1 := by
            rw [journalText, ← List.append_assoc, List.length_append, List.length_singleton]
          rw [hfull] at hwhole
          exact Nat.lt_irrefl _ hwhole
        · have hother := parse_otherLine (bodyText_last (bodyLines j)) hne hends []
            (fun _ hc => absurd hc List.not_mem_nil) hkey slot
          rwa [List.append_nil] at hother
      · have hbody : BodyLine l := by
          refine bodyLine_of_mem h l ?_
          rw [List.concat_eq_append, ← List.cons_append, ← List.append_assoc] at hlines
          rw [(List.append_inj' hlines rfl).1]
          simp
        have hother := parse_otherLine (bodyText_last pre) hne (fun c hc => hbody.ends c (hpart.subset hc)) []
          (fun _ hc => absurd hc List.not_mem_nil) (fun hk => hbody.other (hk.trans hpart)) slot
        rwa [List.append_nil] at hother

/-! ## The batch journal -/

/-- The number that a text's last line carries, and the text in front of that line. -/
def Carries (data body : Bytes) (n : UInt32) : Prop :=
  ∃ start, lastLineStart data "CHECKSUM=" = some start ∧ data.take start = body ∧
    parseU32 ((trimLine (data.drop start)).drop (ascii "CHECKSUM=").length) = some n

theorem carries_of_parse {data : Bytes} (h : parseJournalInto data slot = some j) :
    ∃ body, Carries data body (checksum body) := by
  unfold parseJournalInto at h
  obtain ⟨_, -, h⟩ := bind_ok h
  obtain ⟨body, hbody, -⟩ := bind_ok h
  unfold parseChecksum at hbody
  obtain ⟨start, hstart, h⟩ := bind_ok hbody
  obtain ⟨stored, hstored, h⟩ := bind_ok h
  obtain ⟨_, hrefuse, h⟩ := bind_ok h
  rw [refuse_eq_some, bne_eq_false_iff_eq] at hrefuse
  cases h
  exact ⟨_, start, hstart, rfl, hrefuse ▸ hstored⟩

/-- **The batch journal.**  A valid journal with normalized package paths is written and reads back exactly when no path is
spelled `\X\…`; so does a journal that was accepted; and a text that lost more than its last newline is refused, whatever
checksum it carries when the paths are normalized. -/
theorem batch_roundTrip (j : BatchJournal) :
    (journalValid j = true → (∀ e ∈ j.live, Normalized e.path) → (RoundTrips j ↔ Undriven j)) ∧
    (∀ data slot, parseJournalInto data slot = some j → (ReadsAgain j slot ↔ Undriven j)) ∧
    ∀ cap text cut slot, serializeJournal j cap = some text → cut <+: text → cut.length + 1 < text.length →
      ((∀ e ∈ j.live, Normalized e.path) ∨ ∀ body n, Carries cut body n → checksum body ≠ n) →
      parseJournalInto cut slot = none := by
  refine ⟨fun h hn => roundTrips_iff h hn, fun _ _ h => readsAgain_iff h, fun cap text cut slot ht hp hlen hcut => ?_⟩
  rcases hcut with hn | hchecksum
  · unfold serializeJournal at ht
    split at ht
    · cases ht
    · rename_i hvalid
      split at ht
      · cases ht
        exact parse_torn (textOk_of_normalized (by simpa using hvalid) hn) hp hlen slot
      · cases ht
  · cases hparse : parseJournalInto cut slot with
    | none => rfl
    | some j' =>
      obtain ⟨body, hbody⟩ := carries_of_parse hparse
      exact absurd rfl (hchecksum body _ hbody)

/-- One package from `path`. -/
def onePackage (path : Bytes) : BatchJournal :=
  { valid := true, batchGeneration := 4, journalGeneration := 7, phase := .pendingRestart, packageCount := 1
    currentPackage := 1, sourceRelease := ascii "0.63.12", targetRelease := ascii "0.63.13"
    packages := Vector.ofFn (fun i =>
      if i.val = 0 then
        { path, package := ascii "APP", packageVersion := ascii "1.0.0", release := ascii "0.63.13"
          packageLength := 1000 }
      else {}) }

theorem onePackage_valid : journalValid (onePackage (ascii "C:\\R4OS\\UPDATE\\INBOX\\A.R4U")) = true ∧
    journalValid (onePackage (ascii "\\D\\A.R4U")) = true := by
  decide +kernel

theorem onePackage_live (path : Bytes) : ∀ e ∈ (onePackage path).live, e.path = path := by
  have hlive : (onePackage path).live.map (·.path) = [path] := rfl
  intro e he
  have hm : e.path ∈ (onePackage path).live.map (·.path) := List.mem_map_of_mem he
  rw [hlive] at hm
  exact List.mem_singleton.1 hm

theorem onePackage_normalized (raw path : Bytes) (h : normalizeAbsolutePath maxPath raw = some path) :
    ∀ e ∈ (onePackage path).live, Normalized e.path := fun e he => ⟨maxPath, raw, onePackage_live path e he ▸ h⟩

theorem batch_roundTrip_inbox : RoundTrips (onePackage (ascii "C:\\R4OS\\UPDATE\\INBOX\\A.R4U")) := by
  refine ((batch_roundTrip _).1 onePackage_valid.1 (onePackage_normalized
    (ascii "c:/R4OS/UPDATE/INBOX/A.R4U") _ (by decide +kernel))).2 (fun e he => ?_)
  rw [onePackage_live _ e he]
  decide

/-- **A package path behind a doubled separator reads back as a path on a drive.** -/
theorem batch_roundTrip_driven : ∃ j, journalValid j = true ∧ (∀ e ∈ j.live, Normalized e.path) ∧ ¬ RoundTrips j := by
  have hn := onePackage_normalized (ascii "\\\\D\\A.R4U") (ascii "\\D\\A.R4U") (by decide +kernel)
  refine ⟨onePackage (ascii "\\D\\A.R4U"), onePackage_valid.2, hn, fun h => ?_⟩
  have hu := (roundTrips_iff onePackage_valid.2 hn).1 h
  have hlive : (onePackage (ascii "\\D\\A.R4U")).live.any (fun e => driveRooted e.path) = true := by decide +kernel
  obtain ⟨e, he, hd⟩ := List.any_eq_true.1 hlive
  exact absurd ((hu e he).symm.trans hd) Bool.false_ne_true

end UpdateBatch
end R4
