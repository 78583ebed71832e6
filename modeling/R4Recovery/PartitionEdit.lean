import R4Recovery.PartitionCommit
/-!
# PartitionEdit — edits of a plan in place

The edits of `Plan` change it and roll back by hand: a new entry is put into its slot, the plan is validated, and a refused
slot gets its old entry back — or, behind `add`, the empty one.  The plan an edit leaves is valid, differs in one slot at
most, and is the old one after an error.
-/
namespace R4
namespace Gpt

/-- An entry is put into a slot; when the plan is refused, the slot gets `old`. -/
def Plan.tryEntry (p : Plan) (slot : Nat) (entry old : Entry) : Except Error Unit × Plan :=
  match (p.setEntry slot entry).validate with
  | .ok () => (.ok (), p.setEntry slot entry)
  | .error e => (.error e, (p.setEntry slot entry).setEntry slot old)

def Plan.addIn (p : Plan) (entry : Entry) : Except Error Unit × Plan :=
  if !entry.present || entry.first % alignmentSectors != 0 then (.error .alignment, p)
  else match p.freeSlot with
    | none => (.error .partitionCapacity, p)
    | some slot => p.tryEntry slot entry {}

def Plan.removeIn (p : Plan) (number : Nat) : Except Error Unit × Plan :=
  match p.get number with
  | .error e => (.error e, p)
  | .ok _ => (.ok (), p.setEntry (number - 1) {})

def Plan.extendIn (p : Plan) (number : Nat) (extraSectors : Option Nat) : Except Error Unit × Plan :=
  match p.validate, p.get number with
  | .error e, _ => (.error e, p)
  | .ok (), .error e => (.error e, p)
  | .ok (), .ok entry =>
    let available := p.limit (entry.first + entry.count) - (entry.first + entry.count)
    let extra := extraSectors.getD (available / alignmentSectors * alignmentSectors)
    if extra == 0 || decide (available < extra) then (.error .noSpace, p)
    else p.tryEntry (number - 1) { entry with count := entry.count + extra } entry

def Plan.shrinkIn (p : Plan) (number removeSectors : Nat) : Except Error Unit × Plan :=
  match p.validate, p.get number with
  | .error e, _ => (.error e, p)
  | .ok (), .error e => (.error e, p)
  | .ok (), .ok entry =>
    if removeSectors == 0 || decide (entry.count ≤ removeSectors) then (.error .noSpace, p)
    else p.tryEntry (number - 1) { entry with count := entry.count - removeSectors } entry

/-- What is decided before the plan is changed. -/
def Plan.replace (p : Plan) (next : Except Error Plan) : Except Error Unit × Plan :=
  match next with
  | .ok q => (.ok (), q)
  | .error e => (.error e, p)

def Plan.applyIn (p : Plan) : Op → Except Error Unit × Plan
  | .initializeGpt diskGuid => p.replace (p.initializeGpt diskGuid)
  | .initializeMbr diskId => p.replace (p.initializeMbr diskId)
  | .convertEmpty kind diskGuid diskId => p.replace (p.convertEmpty kind diskGuid diskId)
  | .add entry => p.addIn entry
  | .remove number => p.removeIn number
  | .extend number extraSectors => p.extendIn number extraSectors
  | .shrink number removeSectors => p.shrinkIn number removeSectors

/-- **A slot that holds no partition of the table is empty**, in front of the count and behind it. -/
def Plan.Tidy (p : Plan) : Prop :=
  ∀ i (h : i < 128), (i < p.entryCount → p.entries[i].present = false) → p.entries[i] = ({} : Entry)

/-! ## One slot -/

theorem setEntry_setEntry (p : Plan) (slot : Nat) (e o : Entry) : (p.setEntry slot e).setEntry slot o = p.setEntry slot o := by
  unfold Plan.setEntry
  congr 1
  refine Vector.ext (fun i hi => ?_)
  simp only [Vector.getElem_setIfInBounds hi]
  split <;> rfl

theorem setEntry_self {p : Plan} {slot : Nat} (h : slot < 128) : p.setEntry slot p.entries[slot] = p := by
  have he : p.entries.setIfInBounds slot p.entries[slot] = p.entries := by
    refine Vector.ext (fun i hi => ?_)
    rw [Vector.getElem_setIfInBounds hi]
    by_cases hs : slot = i
    · subst hs
      rw [if_pos rfl]
    · rw [if_neg hs]
  unfold Plan.setEntry
  rw [he]

/-- **What trying an entry does.** -/
theorem tryEntry_cases (p : Plan) {slot : Nat} (h : slot < 128) (entry : Entry) :
    p.tryEntry slot entry p.entries[slot] = (.ok (), p.setEntry slot entry) ∧ (p.setEntry slot entry).validate = .ok () ∨
    ∃ e, p.tryEntry slot entry p.entries[slot] = (.error e, p) ∧ (p.setEntry slot entry).validate = .error e := by
  unfold Plan.tryEntry
  cases hv : (p.setEntry slot entry).validate with
  | ok u => exact .inl ⟨rfl, rfl⟩
  | error e => exact .inr ⟨e, by rw [setEntry_setEntry, setEntry_self h], rfl⟩

theorem getElem_live {p : Plan} {i : Nat} (h : i < p.live.length) : i < 128 ∧ i < p.entryCount := by
  rw [Plan.live, List.length_take, Vector.length_toList] at h
  omega

theorem entriesOk_remove {p : Plan} (h : EntriesOk p p.live) (slot : Nat) :
    EntriesOk (p.setEntry slot {}) (p.setEntry slot {}).live := by
  rw [live_setEntry]
  constructor
  · intro e he hp
    rcases List.mem_or_eq_of_mem_set he with he | rfl
    · obtain ⟨h1, h2, h3, h4⟩ := h.each e he hp
      exact ⟨h1, h2, h3, h4⟩
    · cases hp
  · rw [List.pairwise_iff_getElem]
    intro i j hi hj hij hpi hpj
    rw [List.length_set] at hi hj
    rw [List.getElem_set] at hpi hpj ⊢
    rw [List.getElem_set]
    by_cases h1 : slot = i
    · rw [if_pos h1] at hpi
      cases hpi
    · by_cases h2 : slot = j
      · rw [if_pos h2] at hpj
        cases hpj
      · rw [if_neg h1] at hpi ⊢
        rw [if_neg h2] at hpj ⊢
        exact (List.pairwise_iff_getElem.1 h.apart) i j hi hj hij hpi hpj

/-! ## Empty tables -/

theorem entries_of_tidy {p : Plan} (ht : p.Tidy) (h : p.live.any (·.present) = false) :
    ∀ i (hi : i < 128), p.entries[i] = ({} : Entry) := by
  intro i hi
  refine ht i hi (fun hc => ?_)
  have hmem : p.entries[i] ∈ p.live := by
    rw [Plan.live, List.mem_take_iff_getElem]
    exact ⟨i, by simp; omega, by simp⟩
  simpa using List.any_eq_false.1 h _ hmem

theorem entriesOk_of_empty {p : Plan} (h : ∀ i (hi : i < 128), p.entries[i] = ({} : Entry)) : EntriesOk p p.live := by
  have hnone : ∀ e ∈ p.live, e.present = false := by
    intro e he
    rw [Plan.live, List.mem_take_iff_getElem] at he
    obtain ⟨i, hi, rfl⟩ := he
    have hi' : i < 128 := by simp at hi; omega
    rw [Vector.getElem_toList, h i hi']
  constructor
  · intro e he hp
    rw [hnone e he] at hp
    cases hp
  · refine List.Pairwise.imp_of_mem (R := fun _ _ => True) (fun ho _ _ hpo _ => ?_) (List.pairwise_of_forall (fun _ _ => trivial))
    rw [hnone _ ho] at hpo
    cases hpo

theorem tidy_of_empty {p : Plan} (h : ∀ i (hi : i < 128), p.entries[i] = ({} : Entry)) : p.Tidy := fun i hi _ => h i hi

theorem valid_initializeGpt {p q : Plan} {g : Guid} (hg : geometryOk p = true)
    (he : ∀ i (hi : i < 128), p.entries[i] = ({} : Entry)) (h : p.initializeGpt g = .ok q) :
    q.validate = .ok () ∧ q.Tidy ∧ q.entries = p.entries := by
  obtain ⟨_, -, h⟩ := Except.bind_ok.1 h
  obtain ⟨_, h2, h⟩ := Except.bind_ok.1 h
  cases h
  have hs := reject_ok.1 h2
  simp only [Bool.or_eq_false_iff, decide_eq_false_iff_not, beq_eq_false_iff_ne, Nat.not_lt] at hs
  obtain ⟨-, hmax, -⟩ := (geometryOk_iff p).1 hg
  refine ⟨(validate_iff _).2 ⟨(geometryOk_iff _).2 ?_, (kindOk_gpt_iff rfl).2 ?_, entriesOk_of_empty he⟩, tidy_of_empty he, rfl⟩
  · dsimp only [maxEntries]
    omega
  · dsimp only [maxEntries, arraySectors]
    refine ⟨hs.2, ?_⟩
    omega

theorem valid_initializeMbr {p q : Plan} {n : UInt32} (hg : geometryOk p = true)
    (he : ∀ i (hi : i < 128), p.entries[i] = ({} : Entry)) (h : p.initializeMbr n = .ok q) :
    q.validate = .ok () ∧ q.Tidy ∧ q.entries = p.entries := by
  obtain ⟨_, -, h⟩ := Except.bind_ok.1 h
  obtain ⟨_, -, h⟩ := Except.bind_ok.1 h
  cases h
  obtain ⟨hmin, hmax, -⟩ := (geometryOk_iff p).1 hg
  refine ⟨(validate_iff _).2 ⟨(geometryOk_iff _).2 ?_, rfl, entriesOk_of_empty he⟩, tidy_of_empty he, rfl⟩
  dsimp only
  omega

/-! ## The edits -/

/-- What an edit of a valid plan may leave: a valid plan that differs in one slot at most, the old one after an error. -/
structure Edited (p : Plan) (r : Except Error Unit × Plan) : Prop where
  valid : r.2.validate = .ok ()
  tidy : r.2.Tidy
  slot : ∃ slot, ∀ i (h : i < 128), i ≠ slot → r.2.entries[i] = p.entries[i]
  atomic : ∀ e, r.1 = .error e → r.2 = p

theorem edited_refused {p : Plan} (hv : p.validate = .ok ()) (ht : p.Tidy) (e : Error) : Edited p (.error e, p) :=
  ⟨hv, ht, ⟨0, fun _ _ _ => rfl⟩, fun _ _ => rfl⟩

theorem tidy_setEntry {p : Plan} (ht : p.Tidy) {slot : Nat} (hs : slot < p.entryCount) {e : Entry}
    (he : e.present = true ∨ e = {}) : (p.setEntry slot e).Tidy := by
  intro i hi hf
  rw [getElem_setEntry p slot e hi] at hf ⊢
  have hf : i < p.entryCount → (if slot = i then e else p.entries[i]).present = false := hf
  by_cases h : slot = i
  · rw [if_pos h] at hf ⊢
    rcases he with he | he
    · rw [hf (by omega)] at he
      cases he
    · exact he
  · rw [if_neg h] at hf ⊢
    exact ht i hi hf

theorem slot_setEntry (p : Plan) (slot : Nat) (e : Entry) :
    ∀ i (h : i < 128), i ≠ slot → (p.setEntry slot e).entries[i] = p.entries[i] := by
  intro i hi hne
  rw [getElem_setEntry p slot e hi, if_neg (Ne.symm hne)]

theorem edited_tryEntry {p : Plan} (hv : p.validate = .ok ()) (ht : p.Tidy) {slot : Nat} (h128 : slot < 128)
    (hs : slot < p.entryCount) {entry old : Entry} (hp : entry.present = true) (hold : p.entries[slot] = old) :
    Edited p (p.tryEntry slot entry old) := by
  subst hold
  rcases tryEntry_cases p h128 entry with ⟨h, hok⟩ | ⟨e, h, -⟩
  · rw [h]
    exact ⟨hok, tidy_setEntry ht hs (.inl hp), ⟨slot, slot_setEntry p slot entry⟩, fun _ he => by cases he⟩
  · rw [h]
    exact edited_refused hv ht e

theorem get_entry {p : Plan} {number : Nat} {e : Entry} (h : p.get number = .ok e) :
    ∃ hn : number - 1 < 128, p.entries[number - 1] = e ∧ number - 1 < p.entryCount ∧ e.present = true := by
  obtain ⟨h1, h2, h3⟩ := Plan.get_ok h
  unfold Plan.get at h
  rw [if_neg (by omega)] at h
  split at h
  · rename_i e' hn
    obtain ⟨hlt, he⟩ := Vector.getElem?_eq_some_iff.1 hn
    split at h
    · cases h
      exact ⟨hlt, he, by omega, h3⟩
    · cases h
  · cases h

theorem edited_replace {p : Plan} (hv : p.validate = .ok ()) (ht : p.Tidy) {next : Except Error Plan}
    (h : ∀ q, next = .ok q → q.validate = .ok () ∧ q.Tidy ∧ q.entries = p.entries) : Edited p (p.replace next) := by
  cases next with
  | error e => exact edited_refused hv ht e
  | ok q =>
    obtain ⟨h1, h2, h3⟩ := h q rfl
    exact ⟨h1, h2, ⟨0, fun i hi _ => by simp only [Plan.replace, h3]⟩, fun e he => by cases he⟩

theorem entries_of_none {p : Plan} (hv : p.validate = .ok ()) (ht : p.Tidy) (hk : p.kind = .none) :
    ∀ i (hi : i < 128), p.entries[i] = ({} : Entry) := by
  obtain ⟨-, hkind, -⟩ := (validate_iff p).1 hv
  rw [kindOk, hk] at hkind
  have h0 : p.entryCount = 0 := by simpa using hkind
  exact fun i hi => ht i hi (fun hc => absurd hc (by omega))

theorem validate_erase {p : Plan} (h : p.validate = .ok ()) (b : Bool) : ({ p with eraseSourceGpt := b } : Plan).validate = .ok () := by
  obtain ⟨h1, h2, h3⟩ := (validate_iff p).1 h
  refine (validate_iff _).2 ⟨h1, h2, ⟨fun e he hp => ?_, h3.apart⟩⟩
  obtain ⟨hc, hf, hl, hk⟩ := h3.each e he hp
  exact ⟨hc, hf, hl, hk⟩

theorem edited_convertEmpty {p : Plan} (hv : p.validate = .ok ()) (ht : p.Tidy) (kind : Kind) (g : Guid) (n : UInt32) :
    Edited p (p.replace (p.convertEmpty kind g n)) := by
  have hg := ((validate_iff p).1 hv).1
  refine edited_replace hv ht (fun q h => ?_)
  obtain ⟨_, -, h⟩ := Except.bind_ok.1 h
  obtain ⟨_, h1, h⟩ := Except.bind_ok.1 h
  obtain ⟨_, -, h⟩ := Except.bind_ok.1 h
  obtain ⟨_, -, h⟩ := Except.bind_ok.1 h
  obtain ⟨_, -, h⟩ := Except.bind_ok.1 h
  obtain ⟨next, h2, h⟩ := Except.bind_ok.1 h
  cases h
  have he := entries_of_tidy ht (reject_ok.1 h1)
  have hnext : next.validate = .ok () ∧ next.Tidy ∧ next.entries = p.entries := by
    split at h2
    · exact valid_initializeGpt (p := { p with kind := .none, blank := true }) hg he h2
    · exact valid_initializeMbr (p := { p with kind := .none, blank := true }) hg he h2
  exact ⟨validate_erase hnext.1 _, hnext.2.1, hnext.2.2⟩

/-- **One edit.** -/
theorem edit_keeps (p : Plan) (op : Op) (hv : p.validate = .ok ()) (ht : p.Tidy) : Edited p (p.applyIn op) := by
  have hval := (validate_iff p).1 hv
  cases op with
  | initializeGpt g =>
    refine edited_replace hv ht (fun q h => ?_)
    exact valid_initializeGpt hval.1 (entries_of_none hv ht (initializeGpt_ok h).1) h
  | initializeMbr n =>
    refine edited_replace hv ht (fun q h => ?_)
    exact valid_initializeMbr hval.1 (entries_of_none hv ht (initializeMbr_ok h).1) h
  | convertEmpty kind g n => exact edited_convertEmpty hv ht kind g n
  | add entry =>
    show Edited p (p.addIn entry)
    unfold Plan.addIn
    split
    · exact edited_refused hv ht _
    · rename_i hc
      rw [Bool.or_eq_true, not_or] at hc
      cases hs : p.freeSlot with
      | none => exact edited_refused hv ht _
      | some slot =>
        obtain ⟨hlt, hfree⟩ := List.findIdx?_eq_some_iff_getElem.1 hs
        obtain ⟨h128, hcount⟩ := getElem_live hlt
        have hempty : p.entries[slot] = ({} : Entry) := by
          refine ht slot h128 (fun _ => ?_)
          simpa [Plan.live] using hfree.1
        exact edited_tryEntry hv ht h128 hcount (by simpa using hc.1) hempty
  | remove number =>
    show Edited p (p.removeIn number)
    unfold Plan.removeIn
    cases hget : p.get number with
    | error e => exact edited_refused hv ht e
    | ok e =>
      obtain ⟨-, -, hcount, -⟩ := get_entry hget
      exact ⟨(validate_iff _).2 ⟨hval.1, hval.2.1, entriesOk_remove hval.2.2 _⟩, tidy_setEntry ht hcount (.inr rfl),
        ⟨number - 1, slot_setEntry p _ _⟩, fun _ he => by cases he⟩
  | extend number extraSectors =>
    show Edited p (p.extendIn number extraSectors)
    unfold Plan.extendIn
    rw [hv]
    cases hget : p.get number with
    | error e => exact edited_refused hv ht e
    | ok e =>
      obtain ⟨h128, hentry, hcount, hp⟩ := get_entry hget
      dsimp only
      split
      · exact edited_refused hv ht _
      · exact edited_tryEntry hv ht h128 hcount hp hentry
  | shrink number removeSectors =>
    show Edited p (p.shrinkIn number removeSectors)
    unfold Plan.shrinkIn
    rw [hv]
    cases hget : p.get number with
    | error e => exact edited_refused hv ht e
    | ok e =>
      obtain ⟨h128, hentry, hcount, hp⟩ := get_entry hget
      dsimp only
      split
      · exact edited_refused hv ht _
      · exact edited_tryEntry hv ht h128 hcount hp hentry

theorem tryEntry_ok (p q : Plan) (slot : Nat) (entry old : Entry) : p.tryEntry slot entry old = (.ok (), q) ↔
    (p.setEntry slot entry).validate = .ok () ∧ p.setEntry slot entry = q := by
  unfold Plan.tryEntry
  cases (p.setEntry slot entry).validate with
  | ok u => simp
  | error e => simp

/-! ## Plans in use -/

/-- **A plan that is read is tidy.** -/
theorem planRead_tidy {sha : Bytes → Bytes} {dev : Device} {scratchLen : Nat} {F : Faults} {w w' : World} {p : Plan}
    (h : Plan.read sha dev scratchLen F w = (.ok p, w')) : p.Tidy := by
  intro i hi hf
  have hshape := (planRead_shape h).1
  by_cases hc : i < p.entryCount
  · exact hshape.empty i hi (hf hc)
  · exact hshape.beyond i hi (Nat.le_of_not_lt hc)

/-- **Any edits of a valid plan whose unused slots are empty, failed or not, leave such a plan**; each changes one slot at
most, and nothing when it fails.  Its partitions are inside the usable range, apart, with their own GUIDs and inside the
limits of an MBR. -/
theorem edits_keep (p : Plan) (ops : List Op) (op : Op) (hv : p.validate = .ok ()) (ht : p.Tidy) :
    let q := ops.foldl (fun p op => (p.applyIn op).2) p
    Edited q (q.applyIn op) ∧ EntriesOk (q.applyIn op).2 (q.applyIn op).2.live := by
  intro q
  have hrun : ∀ (ops : List Op) {p : Plan}, p.validate = .ok () → p.Tidy →
      (ops.foldl (fun p op => (p.applyIn op).2) p).validate = .ok () ∧ (ops.foldl (fun p op => (p.applyIn op).2) p).Tidy := by
    intro ops
    induction ops with
    | nil => exact fun hv ht => ⟨hv, ht⟩
    | cons op ops ih =>
      intro p hv ht
      have he := edit_keeps p op hv ht
      exact ih he.valid he.tidy
  obtain ⟨hqv, hqt⟩ := hrun ops hv ht
  have he := edit_keeps q op hqv hqt
  exact ⟨he, ((validate_iff _).1 he.valid).2.2⟩

/-- A table of two partitions. -/
def twoPartitions : Plan :=
  { sectors := 16384, lastUsable := 16383, kind := .mbr, entryCount := 4
    entries := ((Vector.replicate 128 {}).set 0 { present := true, first := 2048, count := 2048, mbrType := 12 }).set 1
      { present := true, first := 8192, count := 2048, mbrType := 7 } }

theorem twoPartitions_tidy : twoPartitions.Tidy := by
  intro i hi hf
  rcases Nat.lt_or_ge i 2 with hlt | hge
  · rcases (by omega : i = 0 ∨ i = 1) with rfl | rfl
    · have hp : true = false := hf (by decide)
      cases hp
    · have hp : true = false := hf (by decide)
      cases hp
  · unfold twoPartitions
    dsimp only
    rw [Vector.getElem_set_ne _ _ (by omega), Vector.getElem_set_ne _ _ (by omega), Vector.getElem_replicate]

/-- The first partition grows, the second is taken out, and a third takes its place. -/
theorem edits_keep_three : let q := [Op.extend 1 (some 2048), .remove 2].foldl (fun p op => (p.applyIn op).2) twoPartitions
    let add := Op.add { present := true, first := 8192, count := 4096, mbrType := 12 }
    (q.live.map (fun e => (e.first, e.count)) = [(2048, 4096), (0, 0), (0, 0), (0, 0)] ∧ (q.applyIn add).1.isOk = true ∧
      (q.applyIn add).2.live.map (fun e => (e.first, e.count)) = [(2048, 4096), (8192, 4096), (0, 0), (0, 0)]) ∧
    Edited q (q.applyIn add) ∧ EntriesOk (q.applyIn add).2 (q.applyIn add).2.live :=
  ⟨by decide +kernel, edits_keep twoPartitions [.extend 1 (some 2048), .remove 2]
    (.add { present := true, first := 8192, count := 4096, mbrType := 12 }) (by decide +kernel) twoPartitions_tidy⟩

/-- **A slot that is not in use and not empty**: a failed `add` clears it, and a conversion lets an entry behind the count
into the table. -/
theorem edits_keep_untidy :
    (let p : Plan := { sectors := 4096, lastUsable := 4095, kind := .mbr, entryCount := 4,
                       entries := (Vector.replicate 128 {}).set 0 { first := 7 } }
     p.validate = .ok () ∧ ∃ e, (p.applyIn (.add { present := true, first := 2048, count := 4096, mbrType := 12 })).1 = .error e ∧
       (p.applyIn (.add { present := true, first := 2048, count := 4096, mbrType := 12 })).2.entries[0] ≠ p.entries[0]) ∧
    (let p : Plan := { sectors := 4096, lastUsable := 4095, kind := .mbr, entryCount := 4,
                       entries := (Vector.replicate 128 {}).set 4 { present := true } }
     p.validate = .ok () ∧ ∃ q, p.applyIn (.convertEmpty .gpt (Vector.replicate 16 1) 0) = (.ok (), q) ∧
       q.validate ≠ .ok ()) := by
  refine ⟨⟨by decide +kernel, .partitionRange, by decide +kernel⟩, by decide +kernel, _, rfl, by decide +kernel⟩

end Gpt
end R4
