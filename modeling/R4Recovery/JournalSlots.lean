import R4Recovery.JournalRoundTrip
/-!
# JournalSlots — the journal in two files

`readNewestValidJournalInto` and `writeRecoveryJournal` of `system_update_recovery_boot.zig`: a journal is written to the
slot that is not in use, with the next generation, and the newest slot that parses is read.  A write that is cut short
may leave the slot absent, as it was, or with any beginning of the new text; no beginning of a text parses but the text.
-/
namespace R4
namespace Journal

/-! ## The beginning of a text -/

theorem first_line_eq : ∀ {a l b c : Bytes}, (10 : UInt8) ∉ a → (10 : UInt8) ∉ l → a ++ 10 :: b <+: l ++ 10 :: c → a = l ∧ b <+: c
  | [], [], b, c, _, _, h => ⟨rfl, (List.cons_prefix_cons.1 h).2⟩
  | [], y :: l, b, c, _, hl, h => by
    have hy := (List.cons_prefix_cons.1 h).1
    exact absurd (hy ▸ List.mem_cons_self) hl
  | x :: a, [], b, c, ha, _, h => by
    have hx := (List.cons_prefix_cons.1 h).1
    exact absurd (hx ▸ List.mem_cons_self) ha
  | x :: a, y :: l, b, c, ha, hl, h => by
    obtain ⟨rfl, ht⟩ := List.cons_prefix_cons.1 h
    obtain ⟨rfl, hb⟩ := first_line_eq (fun hm => ha (List.mem_cons_of_mem _ hm)) (fun hm => hl (List.mem_cons_of_mem _ hm)) ht
    exact ⟨rfl, hb⟩

theorem mem_of_last_line {x : Bytes} (hx : (10 : UInt8) ∉ x) : ∀ {L : List Bytes} {pre : Bytes}, (∀ l ∈ L, (10 : UInt8) ∉ l) →
    (pre = [] ∨ pre.getLast? = some 10) → pre ++ x ++ [10] <+: L.flatMap (· ++ [10]) → x ∈ L
  | [], pre, _, _, h => by simp at h
  | l :: L, pre, hL, hpre, h => by
    have hl := hL l List.mem_cons_self
    rw [List.flatMap_cons, List.append_assoc l, List.singleton_append] at h
    rcases hpre with rfl | hpre
    · rw [List.nil_append] at h
      rw [(first_line_eq hx hl h).1]
      exact List.mem_cons_self
    · obtain ⟨a, b, rfl, ha⟩ := List.eq_append_cons_of_mem (List.mem_of_getLast? hpre)
      rw [List.append_assoc, List.append_assoc, List.cons_append] at h
      obtain ⟨rfl, ht⟩ := first_line_eq ha hl h
      refine List.mem_cons_of_mem _ (mem_of_last_line hx (fun l hl => hL l (List.mem_cons_of_mem _ hl)) ?_
        (by rw [List.append_assoc]; exact ht))
      cases b with
      | nil => exact .inl rfl
      | cons y b => exact .inr (by simpa using hpre)

section Cut

variable {j : TransactionJournal}

theorem startsWith_bodyLine : ∀ l ∈ bodyLines j, startsWith l (ascii "CHECKSUM=") = false := by
  intro l hl
  unfold bodyLines at hl
  rw [List.mem_append, List.mem_append] at hl
  rcases hl with (hl | hl) | hl
  · obtain ⟨f, hf, rfl⟩ := List.mem_map.1 hl
    obtain ⟨-, -, -, -, -, -, -, -, h1, h2⟩ := writtenKey_facts f.1 (mem_writtenKeys hf)
    exact startsWith_apart h2 h1 f.2
  · split at hl
    · obtain ⟨c, -, rfl⟩ := List.mem_map.1 hl
      exact startsWith_component (by decide) (by decide) _ _
    · cases hl
  · obtain ⟨e, -, rfl⟩ := List.mem_map.1 hl
    exact startsWith_payload (by decide) (by decide) _ _

theorem parseChecksum_last {data body : Bytes} (h : parseChecksum data = some body) :
    ∃ pre x, data = pre ++ x ++ [10] ∧ (10 : UInt8) ∉ x ∧ (pre = [] ∨ pre.getLast? = some 10) ∧
      startsWith x (ascii "CHECKSUM=") = true := by
  unfold parseChecksum at h
  obtain ⟨marker, hmarker, h⟩ := bind_ok h
  obtain ⟨_, hprev, h⟩ := bind_ok h
  obtain ⟨_, hend, _⟩ := bind_ok h
  rw [refuse_eq_some] at hprev hend
  have hm := List.find?_some hmarker
  have hrest : (data.drop marker).takeWhile (· != 10) ++ (data.drop marker).dropWhile (· != 10) = data.drop marker :=
    List.takeWhile_append_dropWhile
  have hone : ((data.drop marker).dropWhile (· != 10)).length = 1 := by
    have := congrArg List.length hrest
    simp only [bne_eq_false_iff_eq] at hend
    rw [List.length_append] at this
    omega
  obtain ⟨c, hc⟩ := List.length_eq_one_iff.1 hone
  have hc10 : c = 10 := by
    have := List.head?_dropWhile_not (· != (10 : UInt8)) (data.drop marker)
    rw [hc] at this
    simpa using this
  subst hc10
  rw [hc] at hrest
  refine ⟨data.take marker, (data.drop marker).takeWhile (· != 10), ?_, ?_, ?_, ?_⟩
  · rw [List.append_assoc, hrest, List.take_append_drop]
  · intro hmem
    have := List.mem_takeWhile_imp hmem
    cases this
  · cases hz : data.take marker with
    | nil => exact .inl rfl
    | cons a as =>
      have hpos : 0 < marker := by
        by_contra h0
        rw [Nat.eq_zero_of_not_pos h0] at hz
        cases hz
      rw [decide_eq_true hpos, Bool.true_and, bne_eq_false_iff_eq] at hprev
      right
      rw [← hz, List.getLast?_take, if_neg (by omega), hprev]
      rfl
  · rw [startsWith, List.isPrefixOf_iff_prefix] at hm ⊢
    rw [← hrest] at hm
    rcases List.prefix_concat_iff.1 hm with he | hp
    · exact absurd (he ▸ List.mem_append_right _ (List.mem_singleton.2 rfl)) (by decide : (10 : UInt8) ∉ ascii "CHECKSUM=")
    · exact hp

/-- **No proper beginning of a journal's text parses.** -/
theorem parse_cut (h : TextOk j) {n : Nat} (hn : n < (journalText j).length) (slot : UInt8) :
    parseJournalInto ((journalText j).take n) slot = none := by
  rw [Option.eq_none_iff_forall_ne_some]
  intro r hr
  unfold parseJournalInto at hr
  obtain ⟨_, _, hr⟩ := bind_ok hr
  obtain ⟨body, hbody, _⟩ := bind_ok hr
  obtain ⟨pre, x, hdata, hx, hpre, hsum⟩ := parseChecksum_last hbody
  have htext : journalText j = bodyText j ++ checksumLine j ++ [10] := by
    unfold journalText checksumLine
    rw [← List.append_assoc]
  -- what ends in a newline before the end is over before the checksum line
  have hin : (journalText j).take n <+: bodyText j ++ checksumLine j := by
    have hp : (journalText j).take n <+: bodyText j ++ checksumLine j ++ [10] := by
      rw [← htext]
      exact List.take_prefix n _
    rcases List.prefix_concat_iff.1 hp with he | hp
    · have := congrArg List.length he
      rw [List.length_take, ← htext] at this
      omega
    · exact hp
  have hbodyp : (journalText j).take n <+: bodyText j := by
    rcases List.prefix_or_prefix_of_prefix hin (List.prefix_append _ _) with hb | ⟨t, ht⟩
    · exact hb
    · rw [← ht, List.prefix_append_right_inj] at hin
      rcases List.eq_nil_or_concat t with rfl | ⟨t, c, rfl⟩
      · rw [← ht, List.append_nil]
      · rw [List.concat_eq_append] at ht hin
        have hlast : c = 10 := by
          have he := congrArg List.getLast? (ht.trans hdata)
          rw [← List.append_assoc, List.getLast?_concat, List.getLast?_concat] at he
          exact Option.some.inj he
        exact absurd (hin.mem (List.mem_append_right _ (List.mem_singleton.2 hlast.symm))) lineOk_checksum.1
  have hline := mem_of_last_line hx (fun l hl => (lineOk_body h l hl).1) hpre (by rw [← hdata]; exact hbodyp)
  rw [startsWith_bodyLine x hline] at hsum
  cases hsum

end Cut

/-! ## Reading -/

/-- What is under the name of a slot. -/
inductive SlotFile where
  | absent
  | directory
  | file (content : Bytes)
  deriving DecidableEq

/-- What is under the names of the slots 0 and 1. -/
abbrev SlotFiles : Type := UInt8 → SlotFile

inductive SlotSelection where
  | selected (slot : UInt8)
  | notFound
  | invalid
  deriving DecidableEq

def selectNewestSlot (present valid : UInt8 → Bool) (generation : UInt8 → UInt64) : SlotSelection :=
  if (valid 0 && !present 0) || (valid 1 && !present 1) then .invalid
  else if valid 0 && valid 1 then
    if generation 0 = generation 1 then .invalid
    else .selected (if generation 1 < generation 0 then 0 else 1)
  else if valid 0 then .selected 0
  else if valid 1 then .selected 1
  else if present 0 || present 1 then .invalid
  else .notFound

/-- Whether the lookup of a slot's name and the read of its file succeed. -/
structure SlotAnswers where
  resolve : UInt8 → Bool
  read : UInt8 → Bool

/-- A device that answers. -/
def SlotAnswers.steady : SlotAnswers := ⟨fun _ => true, fun _ => true⟩

/-- A slot as it is read: whether something is there, and the journal if it parses; `none` is an error. -/
def readSlot (answers : SlotAnswers) (files : SlotFiles) (slot : UInt8) : Option (Bool × Option TransactionJournal) :=
  if !answers.resolve slot then none
  else match files slot with
    | .absent => some (false, none)
    | .directory => some (true, none)
    | .file content =>
      if content = [] ∨ journalMax < content.length then some (true, none)
      else if !answers.read slot then none
      else some (true, parseJournalInto content slot)

inductive JournalLookup where
  | found (journal : TransactionJournal)
  | notFound
  | io

def readNewestValidJournalInto (answers : SlotAnswers) (files : SlotFiles) : JournalLookup :=
  match readSlot answers files 0, readSlot answers files 1 with
  | some r0, some r1 =>
    let slots : UInt8 → Bool × Option TransactionJournal := fun slot => if slot = 0 then r0 else r1
    match selectNewestSlot (fun slot => (slots slot).1) (fun slot => (slots slot).2.isSome)
        (fun slot => (slots slot).2.elim 0 (·.journalGeneration)) with
    | .selected slot => (slots slot).2.elim .io .found
    | .notFound => .notFound
    | .invalid => .io
  | _, _ => .io

/-! ## Writing -/

/-- The journal in its next slot and generation. -/
def TransactionJournal.next (j : TransactionJournal) : TransactionJournal :=
  { j with slot := 1 - j.slot, journalGeneration := j.journalGeneration + 1, valid := true }

/-- The three fields as they were. -/
def TransactionJournal.restore (n j : TransactionJournal) : TransactionJournal :=
  { n with slot := j.slot, journalGeneration := j.journalGeneration, valid := j.valid }

/-- What a write is of: the journal and its text. -/
def attempt (j : TransactionJournal) : Option (TransactionJournal × Bytes) :=
  if j.journalGeneration.toNat = 2 ^ 64 - 1 then none
  else (serializeJournal j.next journalMax).map (fun encoded => (j.next, encoded))

/-- What a write met: what `vfs.writeFile` left under the name, and whether the lookup and the read behind it succeed. -/
structure WriteAnswers where
  left : SlotFile
  resolve : Bool
  read : Bool

/-- The readback: the exact text, and it parses to what was meant. -/
def readBack (w : WriteAnswers) (n : TransactionJournal) (encoded : Bytes) : Bool :=
  w.resolve && w.read && w.left == .file encoded &&
    (parseJournalInto encoded n.slot).any (fun v => v.transactionGeneration == n.transactionGeneration &&
      v.journalGeneration == n.journalGeneration && v.phase == n.phase)

def writeRecoveryJournal (w : WriteAnswers) (files : SlotFiles) (j : TransactionJournal) :
    Bool × TransactionJournal × SlotFiles :=
  match attempt j with
  | none => (false, j, files)
  | some (n, encoded) =>
    let files := Function.update files n.slot w.left
    if readBack w n encoded then (true, n, files) else (false, n.restore j, files)

/-! ## Runs -/

/-- What a write can leave under the name: nothing, what was there, or a beginning of the new text up to all of it. -/
inductive Leaves (old : SlotFile) (encoded : Bytes) : SlotFile → Prop
  | absent : Leaves old encoded .absent
  | old : Leaves old encoded old
  | part (n : Nat) : Leaves old encoded (.file (encoded.take n))

/-- The files, the journal in memory, the last journal that was read or written with success, and those that were being
written since. -/
structure Store where
  files : SlotFiles
  journal : TransactionJournal
  durable : TransactionJournal
  tried : List TransactionJournal

/-- After a boot that read `j`. -/
def Store.boot (files : SlotFiles) (j : TransactionJournal) : Store := ⟨files, j, j, []⟩

/-- The journal in memory is changed to `j` and written.  A crash inside the call leaves the files of a call whose
readback fails. -/
def Store.write (s : Store) (j : TransactionJournal) (w : WriteAnswers) : Store :=
  match writeRecoveryJournal w s.files j with
  | (true, j', files) => ⟨files, j', j', []⟩
  | (false, j', files) => ⟨files, j', s.durable, ((attempt j).map (·.1)).toList ++ s.tried⟩

/-- What a caller may write next: it keeps the slot and the generation it was given, and paths as the parser leaves
them. -/
structure Successor (old j : TransactionJournal) : Prop where
  slot : j.slot = old.slot
  generation : j.journalGeneration = old.journalGeneration
  paths : NormalizedPaths j

/-- **Any writes, failed, cut short or repeated, and any boots.** -/
inductive Runs (start : Store) : Store → Prop
  | start : Runs start start
  | write {s : Store} {j : TransactionJournal} {w : WriteAnswers} (h : Runs start s) (hj : Successor s.journal j)
      (hw : ∀ n encoded, attempt j = some (n, encoded) → Leaves (s.files n.slot) encoded w.left) : Runs start (s.write j w)
  | boot {s : Store} {j : TransactionJournal} (h : Runs start s)
      (hj : readNewestValidJournalInto .steady s.files = .found j) : Runs start (.boot s.files j)

/-! ## What is read -/

def SlotFile.parse (f : SlotFile) (slot : UInt8) : Option TransactionJournal :=
  match f with
  | .file content => parseJournalInto content slot
  | _ => none

theorem parse_refused {content : Bytes} (h : content = [] ∨ journalMax < content.length) (slot : UInt8) :
    parseJournalInto content slot = none := by
  unfold parseJournalInto
  have hr : (decide (1 < slot) || content.isEmpty || decide (journalMax < content.length)) = true := by
    rcases h with rfl | h
    · simp
    · simp [h]
  rw [hr]
  rfl

theorem readSlot_steady (files : SlotFiles) (slot : UInt8) :
    ∃ present, readSlot .steady files slot = some (present, (files slot).parse slot) ∧
      (((files slot).parse slot).isSome = true → present = true) := by
  unfold readSlot SlotFile.parse
  rw [if_neg (by simp [SlotAnswers.steady])]
  cases files slot with
  | absent => exact ⟨false, rfl, fun h => (by cases h)⟩
  | directory => exact ⟨true, rfl, fun _ => rfl⟩
  | file content =>
    refine ⟨true, ?_, fun _ => rfl⟩
    dsimp only
    by_cases h : content = [] ∨ journalMax < content.length
    · rw [if_pos h, parse_refused h]
    · rw [if_neg h]
      rfl

theorem slot_cases {slot : UInt8} (h : slot ≤ 1) : slot = 0 ∨ slot = 1 := by
  revert h
  exact byte_forall (p := fun slot => slot ≤ 1 → slot = 0 ∨ slot = 1) (by decide +kernel) slot

theorem readNewest_eq (files : SlotFiles) : ∃ p0 p1, readNewestValidJournalInto .steady files =
    match (files 0).parse 0, (files 1).parse 1 with
    | some a, some b =>
      if a.journalGeneration = b.journalGeneration then .io
      else if b.journalGeneration < a.journalGeneration then .found a else .found b
    | some a, none => .found a
    | none, some b => .found b
    | none, none => if p0 || p1 then .io else .notFound := by
  obtain ⟨p0, h0, hp0⟩ := readSlot_steady files 0
  obtain ⟨p1, h1, hp1⟩ := readSlot_steady files 1
  refine ⟨p0, p1, ?_⟩
  unfold readNewestValidJournalInto
  rw [h0, h1]
  cases ha : (files 0).parse 0 with
  | none =>
    cases hb : (files 1).parse 1 with
    | none => cases p0 <;> cases p1 <;> rfl
    | some b =>
      rw [hp1 (by rw [hb]; rfl)]
      cases p0 <;> rfl
  | some a =>
    rw [hp0 (by rw [ha]; rfl)]
    cases hb : (files 1).parse 1 with
    | none => cases p1 <;> rfl
    | some b =>
      rw [hp1 (by rw [hb]; rfl)]
      by_cases he : a.journalGeneration = b.journalGeneration
      · simp [selectNewestSlot, he]
      · by_cases hlt : b.journalGeneration < a.journalGeneration
        · simp [selectNewestSlot, he, hlt]
        · simp [selectNewestSlot, he, hlt]

/-- **The newest slot that parses is read.** -/
theorem readNewest_iff {files : SlotFiles} {r : TransactionJournal} :
    readNewestValidJournalInto .steady files = .found r ↔ ∃ slot, slot ≤ 1 ∧ (files slot).parse slot = some r ∧
      ∀ o, (files (1 - slot)).parse (1 - slot) = some o → o.journalGeneration < r.journalGeneration := by
  have hslots : (∃ slot, slot ≤ 1 ∧ (files slot).parse slot = some r ∧
      ∀ o, (files (1 - slot)).parse (1 - slot) = some o → o.journalGeneration < r.journalGeneration) ↔
      ((files 0).parse 0 = some r ∧ ∀ o, (files 1).parse 1 = some o → o.journalGeneration < r.journalGeneration) ∨
      ((files 1).parse 1 = some r ∧ ∀ o, (files 0).parse 0 = some o → o.journalGeneration < r.journalGeneration) := by
    constructor
    · rintro ⟨slot, hs, h⟩
      rcases slot_cases hs with rfl | rfl
      · exact .inl h
      · exact .inr h
    · rintro (h | h)
      · exact ⟨0, by decide, h⟩
      · exact ⟨1, by decide, h⟩
  obtain ⟨p0, p1, hread⟩ := readNewest_eq files
  rw [hslots, hread]
  cases (files 0).parse 0 with
  | none =>
    cases (files 1).parse 1 with
    | none => cases p0 <;> cases p1 <;> simp
    | some b => simp
  | some a =>
    cases (files 1).parse 1 with
    | none => simp
    | some b =>
      dsimp only
      by_cases he : a.journalGeneration = b.journalGeneration
      · rw [if_pos he]
        simp only [reduceCtorEq, Option.some.injEq, forall_eq', false_iff, not_or, not_and]
        refine ⟨?_, ?_⟩
        · rintro rfl
          simp [he]
        · rintro rfl
          simp [he]
      · rw [if_neg he]
        by_cases hlt : b.journalGeneration < a.journalGeneration
        · rw [if_pos hlt]
          simp only [JournalLookup.found.injEq, Option.some.injEq, forall_eq']
          constructor
          · rintro rfl
            exact .inl ⟨rfl, hlt⟩
          · rintro (⟨rfl, _⟩ | ⟨rfl, h⟩)
            · rfl
            · exact absurd h (UInt64.lt_asymm hlt)
        · rw [if_neg hlt]
          have hgt : a.journalGeneration < b.journalGeneration := UInt64.lt_of_le_of_ne (UInt64.not_lt.1 hlt) he
          simp only [JournalLookup.found.injEq, Option.some.injEq, forall_eq']
          constructor
          · rintro rfl
            exact .inr ⟨rfl, hgt⟩
          · rintro (⟨rfl, h⟩ | ⟨rfl, _⟩)
            · exact absurd h hlt
            · rfl

/-! ## The invariant -/

/-- **The last durable journal is in its slot, and the other slot has an older one or one that was being written.** -/
structure Store.Held (s : Store) : Prop where
  slot : s.durable.slot ≤ 1
  held : (s.files s.durable.slot).parse s.durable.slot = some (stored s.durable s.durable.slot)
  other : ∀ o, (s.files (1 - s.durable.slot)).parse (1 - s.durable.slot) = some o →
    o.journalGeneration < s.durable.journalGeneration ∨ ∃ t ∈ s.tried, o = stored t t.slot
  tried : ∀ t ∈ s.tried, t.slot = 1 - s.durable.slot ∧ s.durable.journalGeneration < t.journalGeneration
  sameSlot : s.journal.slot = s.durable.slot
  sameGeneration : s.journal.journalGeneration = s.durable.journalGeneration

theorem parse_stored {f : SlotFile} {slot : UInt8} {j : TransactionJournal} (h : f.parse slot = some j) :
    j.slot = slot ∧ stored j j.slot = j := by
  unfold SlotFile.parse at h
  split at h
  · obtain ⟨_, _, _, _, hst⟩ := parse_accepted h
    have hs : j.slot = slot := by rw [← hst]; rfl
    exact ⟨hs, by rw [hs]; exact hst⟩
  · cases h

theorem held_boot {files : SlotFiles} {j : TransactionJournal} (h : readNewestValidJournalInto .steady files = .found j) :
    (Store.boot files j).Held := by
  obtain ⟨slot, hs, hp, ho⟩ := readNewest_iff.1 h
  obtain ⟨rfl, hst⟩ := parse_stored hp
  refine ⟨hs, ?_, fun o h => .inl (ho o h), fun t ht => (by cases ht), rfl, rfl⟩
  show (files j.slot).parse j.slot = some (stored j j.slot)
  rw [hp, hst]

theorem Store.Held.read {s : Store} (h : s.Held) : ∃ d, (d = s.durable ∨ (d ∈ s.tried ∧
    s.durable.journalGeneration < d.journalGeneration)) ∧
      readNewestValidJournalInto .steady s.files = .found (stored d d.slot) := by
  by_cases hnew : ∃ t ∈ s.tried, (s.files (1 - s.durable.slot)).parse (1 - s.durable.slot) = some (stored t t.slot)
  · obtain ⟨t, ht, hp⟩ := hnew
    obtain ⟨hts, hlt⟩ := h.tried t ht
    refine ⟨t, .inr ⟨ht, hlt⟩, readNewest_iff.2 ⟨1 - s.durable.slot, ?_, hp, fun o ho => ?_⟩⟩
    · rcases slot_cases h.slot with hs | hs <;> rw [hs] <;> decide
    · have hback : 1 - (1 - s.durable.slot) = s.durable.slot := by
        rcases slot_cases h.slot with hs | hs <;> rw [hs] <;> rfl
      rw [hback, h.held] at ho
      cases ho
      exact hlt
  · refine ⟨s.durable, .inl rfl, readNewest_iff.2 ⟨s.durable.slot, h.slot, h.held, fun o ho => ?_⟩⟩
    rcases h.other o ho with hlt | ⟨t, ht, rfl⟩
    · exact hlt
    · exact absurd ⟨t, ht, ho⟩ hnew

/-! ## One write -/

section Write

variable {j n : TransactionJournal} {encoded : Bytes}

theorem attempt_some (h : attempt j = some (n, encoded)) (hp : NormalizedPaths j) :
    n = j.next ∧ encoded = journalText n ∧ TextOk n ∧ j.journalGeneration < n.journalGeneration := by
  unfold attempt at h
  by_cases hmax : j.journalGeneration.toNat = 2 ^ 64 - 1
  · rw [if_pos hmax] at h
    cases h
  rw [if_neg hmax] at h
  obtain ⟨text, ht, he⟩ := Option.map_eq_some_iff.1 h
  cases he
  unfold serializeJournal at ht
  by_cases hv : journalValid j.next = true
  · rw [hv, if_neg (by decide)] at ht
    split at ht
    · cases ht
      refine ⟨rfl, rfl, textOk_of_normalized hv ⟨hp.source, hp.payloads⟩, ?_⟩
      show j.journalGeneration < j.journalGeneration + 1
      have := j.journalGeneration.toNat_lt
      rw [UInt64.lt_iff_toNat_lt, UInt64.toNat_add]
      simp only [UInt64.reduceToNat]
      omega
    · cases ht
  · rw [if_pos (by simpa using hv)] at ht
    cases ht

theorem leaves_parse {old left : SlotFile} {slot : UInt8} {o : TransactionJournal} (h : TextOk n)
    (hl : Leaves old (journalText n) left) (hs : slot ≤ 1) (hp : left.parse slot = some o) :
    old.parse slot = some o ∨ o = stored n slot := by
  cases hl with
  | absent => cases hp
  | old => exact .inl hp
  | part k =>
    right
    have hp : parseJournalInto ((journalText n).take k) slot = some o := hp
    by_cases hk : k < (journalText n).length
    · rw [parse_cut h hk] at hp
      cases hp
    · rw [List.take_of_length_le (Nat.le_of_not_lt hk)] at hp
      by_cases ho : OldReadable n
      · rw [parseJournalInto_journalText h ho hs] at hp
        exact (Option.some.inj hp).symm
      · rw [parseJournalInto_unreadable h ho hs] at hp
        cases hp

theorem held_write {s : Store} {w : WriteAnswers} (h : s.Held) (hj : Successor s.journal j)
    (hw : ∀ n encoded, attempt j = some (n, encoded) → Leaves (s.files n.slot) encoded w.left) : (s.write j w).Held := by
  have hslot : j.slot = s.durable.slot := hj.slot.trans h.sameSlot
  have hgen : j.journalGeneration = s.durable.journalGeneration := hj.generation.trans h.sameGeneration
  unfold Store.write writeRecoveryJournal
  cases ha : attempt j with
  | none => exact ⟨h.slot, h.held, h.other, h.tried, hslot, hgen⟩
  | some p =>
    obtain ⟨n, encoded⟩ := p
    obtain ⟨rfl, rfl, htext, hlt⟩ := attempt_some ha hj.paths
    rw [hgen] at hlt
    have hns : j.next.slot = 1 - s.durable.slot := by rw [← hslot]; rfl
    have hleft := hw _ _ ha
    rw [hns] at hleft
    have hapart : s.durable.slot ≠ 1 - s.durable.slot ∧ 1 - s.durable.slot ≤ 1 ∧ 1 - (1 - s.durable.slot) = s.durable.slot := by
      rcases slot_cases h.slot with hs | hs <;> rw [hs] <;> decide
    dsimp only
    rw [hns]
    cases hb : readBack w j.next (journalText j.next) with
    | true =>
      simp only [readBack, Bool.and_eq_true, beq_iff_eq, Option.any_eq_true_iff_get] at hb
      obtain ⟨⟨_, hfile⟩, hsome, _⟩ := hb
      have hold : OldReadable j.next := by
        by_contra ho
        rw [parseJournalInto_unreadable htext ho (by rw [hns]; exact hapart.2.1)] at hsome
        cases hsome
      show Store.Held ⟨Function.update s.files (1 - s.durable.slot) w.left, j.next, j.next, []⟩
      refine ⟨by rw [hns]; exact hapart.2.1, ?_, ?_, fun t ht => (by cases ht), rfl, rfl⟩
      · dsimp only
        rw [hns, Function.update_self, hfile]
        exact parseJournalInto_journalText htext hold hapart.2.1
      · intro o ho
        dsimp only at ho
        rw [hns, hapart.2.2, Function.update_of_ne hapart.1, h.held] at ho
        cases ho
        exact .inl hlt
    | false =>
      show Store.Held ⟨Function.update s.files (1 - s.durable.slot) w.left, j.next.restore j, s.durable, j.next :: s.tried⟩
      refine ⟨h.slot, ?_, fun o ho => ?_, fun t ht => ?_, hslot, hgen⟩
      · dsimp only
        rw [Function.update_of_ne hapart.1]
        exact h.held
      · dsimp only at ho
        rw [Function.update_self] at ho
        rcases leaves_parse htext hleft hapart.2.1 ho with ho | rfl
        · rcases h.other o ho with hlt | ⟨t, ht, he⟩
          · exact .inl hlt
          · exact .inr ⟨t, List.mem_cons_of_mem _ ht, he⟩
        · exact .inr ⟨j.next, List.mem_cons_self, by rw [hns]⟩
      · rcases List.mem_cons.1 ht with rfl | ht
        · exact ⟨hns, hlt⟩
        · exact h.tried t ht

end Write

/-- **The journal never goes back and is never lost.**  Whatever was written, failed or cut short, a boot reads the last
journal that was read or reported written, or a later one that was being written; and the journal in memory names the
slot and the generation of the last durable one. -/
theorem journal_never_lost (files : SlotFiles) (j : TransactionJournal) (s : Store)
    (hj : readNewestValidJournalInto .steady files = .found j) (h : Runs (.boot files j) s) :
    (∃ d, (d = s.durable ∨ (d ∈ s.tried ∧ s.durable.journalGeneration < d.journalGeneration)) ∧
      readNewestValidJournalInto .steady s.files = .found (stored d d.slot)) ∧
    s.journal.slot = s.durable.slot ∧ s.journal.journalGeneration = s.durable.journalGeneration := by
  have hheld : s.Held := by
    induction h with
    | start => exact held_boot hj
    | write _ hj hw ih => exact held_write ih hj hw
    | boot _ hj _ => exact held_boot hj
  exact ⟨hheld.read, hheld.sameSlot, hheld.sameGeneration⟩

/-- A journal in slot 0 and nothing in slot 1. -/
def oneSlot : SlotFiles := fun slot => if slot = 0 then .file (journalText (oneFile true)) else .absent

theorem oneSlot_read : readNewestValidJournalInto .steady oneSlot = .found (stored (oneFile true) 0) := by
  refine readNewest_iff.2 ⟨0, by decide, ?_, fun o ho => (by cases ho)⟩
  refine parseJournalInto_journalText (textOk_of_normalized (oneFile_valid true) (oneFile_normalized true)) ?_ (by decide)
  show ∀ e ∈ (oneFile true).live, oldReadable e = true
  decide +kernel

theorem journal_never_lost_oneSlot :
    let s := (Store.boot oneSlot (stored (oneFile true) 0)).write (stored (oneFile true) 0) ⟨.absent, false, false⟩
    (∃ d, (d = s.durable ∨ (d ∈ s.tried ∧ s.durable.journalGeneration < d.journalGeneration)) ∧
      readNewestValidJournalInto .steady s.files = .found (stored d d.slot)) ∧
    s.journal.slot = s.durable.slot ∧ s.journal.journalGeneration = s.durable.journalGeneration := by
  obtain ⟨slot, _, hp, _⟩ := readNewest_iff.1 oneSlot_read
  have hpaths : NormalizedPaths (stored (oneFile true) 0) := by
    unfold SlotFile.parse at hp
    split at hp
    · exact (parse_accepted hp).2.1
    · cases hp
  exact journal_never_lost oneSlot _ _ oneSlot_read (.write .start ⟨rfl, rfl, hpaths⟩ (fun _ _ _ => .absent))

end Journal
end R4
