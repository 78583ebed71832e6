import R4Recovery.Journal
/-!
# JournalProgress — a valid journal is a committed prefix, open payloads and a rolled-back suffix

`journalValid` mixes what a replay never changes (texts, counts of payloads, components) with its progress.  The
progress of a valid journal is three numbers: `a` committed payloads, then `b` open ones, then `c` rolled back.
-/
namespace R4
namespace Journal

/-- The committed and rolled-back flags of `a` committed, `b` open and `c` rolled-back payloads, in slot order. -/
def progressFlags (a b c : Nat) : List (Bool × Bool) :=
  List.replicate a (true, false) ++ List.replicate b (false, false) ++ List.replicate c (false, true)

def JournalPayload.flags (entry : JournalPayload) : Bool × Bool := (entry.committed, entry.rolledBack)

@[simp] theorem length_progressFlags (a b c : Nat) : (progressFlags a b c).length = a + b + c := by
  simp [progressFlags]; omega

theorem progressFlags_getElem? (a b c i : Nat) : (progressFlags a b c)[i]? =
    if i < a then some (true, false) else if i < a + b then some (false, false)
    else if i < a + b + c then some (false, true) else none := by
  simp only [progressFlags, List.getElem?_append, List.getElem?_replicate, List.length_append, List.length_replicate]
  by_cases h1 : i < a
  · have : i < a + b := by omega
    simp [h1, this]
  · by_cases h2 : i < a + b
    · have : i - a < b := by omega
      simp [h1, h2, this]
    · by_cases h3 : i < a + b + c
      · have : i - (a + b) < c := by omega
        simp [h1, h2, h3, this]
      · have : ¬ i - (a + b) < c := by omega
        simp [h1, h2, h3, this]

theorem progressFlags_set_open (a b c : Nat) :
    (progressFlags a (b + 1) c).set (a + b) (false, true) = progressFlags a b (c + 1) := by
  refine List.ext_getElem? (fun i => ?_)
  rw [List.getElem?_set, progressFlags_getElem?, progressFlags_getElem?, length_progressFlags]
  by_cases hi : a + b = i
  · subst hi
    have h1 : ¬ a + b < a := by omega
    have h2 : a + b < a + b + (c + 1) := by omega
    have h3 : a + b < a + (b + 1) + c := by omega
    simp [h1, h2, h3]
  · rw [if_neg hi]
    by_cases h1 : i < a
    · simp [h1]
    · by_cases h2 : i < a + b
      · have : i < a + (b + 1) := by omega
        simp [h1, h2, this]
      · have h3 : ¬ i < a + (b + 1) := by omega
        have h4 : i < a + (b + 1) + c ↔ i < a + b + (c + 1) := by omega
        simp [h1, h2, h3, h4]

theorem progressFlags_set_committed (a c : Nat) :
    (progressFlags (a + 1) 0 c).set a (false, true) = progressFlags a 0 (c + 1) := by
  refine List.ext_getElem? (fun i => ?_)
  rw [List.getElem?_set, progressFlags_getElem?, progressFlags_getElem?, length_progressFlags]
  by_cases hi : a = i
  · subst hi
    have h1 : a < a + 0 + (c + 1) := by omega
    have h2 : a < a + 1 + 0 + c := by omega
    simp [h2]
  · rw [if_neg hi]
    by_cases h1 : i < a
    · have : i < a + 1 := by omega
      simp [h1, this]
    · have h2 : ¬ i < a + 1 := by omega
      have h3 : i < a + 1 + c ↔ i < a + (c + 1) := by omega
      simp [h1, h2, h3]

theorem progressFlags_set_commit (a b : Nat) :
    (progressFlags a (b + 1) 0).set a (true, false) = progressFlags (a + 1) b 0 := by
  refine List.ext_getElem? (fun i => ?_)
  rw [List.getElem?_set, progressFlags_getElem?, progressFlags_getElem?, length_progressFlags]
  by_cases hi : a = i
  · subst hi
    simp
  · rw [if_neg hi]
    by_cases h1 : i < a
    · have : i < a + 1 := by omega
      simp [h1, this]
    · have h2 : ¬ i < a + 1 := by omega
      have h3 : i < a + (b + 1) ↔ i < a + 1 + b := by omega
      simp [h1, h2, h3]

theorem countP_committed (a b c : Nat) : (progressFlags a b c).countP (·.1) = a := by
  simp [progressFlags, List.countP_append, List.countP_replicate]

theorem countP_rolledBack (a b c : Nat) : (progressFlags a b c).countP (·.2) = c := by
  simp [progressFlags, List.countP_append, List.countP_replicate]

/-! ## The payload scan reads the three numbers off -/

theorem not_both_of_shapeOk {entry : JournalPayload} (h : payloadShapeOk entry = true) :
    entry.flags ≠ (true, true) := by
  intro hf
  simp only [JournalPayload.flags, Prod.mk.injEq] at hf
  simp [payloadShapeOk, hf.1, hf.2] at h

theorem progressFlags_succ_committed (a b c : Nat) :
    progressFlags (a + 1) b c = (true, false) :: progressFlags a b c := by
  simp [progressFlags, List.replicate_succ]

theorem progressFlags_succ_open (b c : Nat) :
    progressFlags 0 (b + 1) c = (false, false) :: progressFlags 0 b c := by
  simp [progressFlags, List.replicate_succ]

theorem progressFlags_succ_rolledBack (c : Nat) : progressFlags 0 0 (c + 1) = (false, true) :: progressFlags 0 0 c := by
  simp [progressFlags, List.replicate_succ]

/-- **The scan accepts exactly the well-shaped payload lists in progress order**, and returns the two counts. -/
theorem scanPayloads_iff (L : List JournalPayload) (sU sR : Bool) (n r : Nat) (p : Nat × Nat) :
    scanPayloads L sU sR n r = some p ↔ (∀ e ∈ L, payloadShapeOk e = true) ∧
      ∃ a b c, L.map (·.flags) = progressFlags a b c ∧ (sU = true → a = 0) ∧ (sR = true → a = 0 ∧ b = 0) ∧
        p = (n + a, r + c) := by
  induction L generalizing sU sR n r with
  | nil =>
    simp only [scanPayloads, Option.some.injEq]
    constructor
    · rintro rfl
      exact ⟨by simp, 0, 0, 0, by simp [progressFlags], by simp, by simp, by simp⟩
    · rintro ⟨-, a, b, c, hf, -, -, rfl⟩
      have hl := congrArg List.length hf
      simp only [List.map_nil, List.length_nil, length_progressFlags] at hl
      simp [show a = 0 by omega, show c = 0 by omega]
  | cons e L ih =>
    unfold scanPayloads
    by_cases hs : payloadShapeOk e = true
    swap
    · simp [hs]
    have hb := not_both_of_shapeOk hs
    have hfl : (e :: L).map (·.flags) = (e.committed, e.rolledBack) :: L.map (·.flags) := rfl
    have hb' : ¬ (e.committed = true ∧ e.rolledBack = true) := by
      rintro ⟨h1, h2⟩; exact hb (by simp [JournalPayload.flags, h1, h2])
    have hall : (∀ x ∈ e :: L, payloadShapeOk x = true) ↔ ∀ x ∈ L, payloadShapeOk x = true := by
      simp [hs]
    rw [hfl, hall]
    cases hc : e.committed with
    | true =>
      have hr : e.rolledBack = false := by simpa [hc] using hb'
      cases sU with
      | true =>
        simp only [hs, hr, Bool.not_true, Bool.false_eq_true, if_false, Bool.and_self, if_true]
        constructor
        · intro h; cases h
        · rintro ⟨-, a, b, c, hf, ha, -, -⟩
          rw [ha trivial] at hf
          cases b <;> cases c <;> simp [progressFlags, List.replicate_succ] at hf
      | false =>
        cases sR with
        | true =>
          simp only [hs, hr, Bool.not_true, Bool.false_eq_true, if_false, Bool.and_false, Bool.not_false,
            Bool.and_self, if_true]
          constructor
          · intro h; cases h
          · rintro ⟨-, a, b, c, hf, -, ha, -⟩
            rw [(ha trivial).1] at hf
            cases b <;> cases c <;> simp [progressFlags, List.replicate_succ] at hf
        | false =>
          simp only [hs, hr, Bool.not_true, Bool.false_eq_true, if_false, Bool.and_false, Bool.or_self, if_true,
            ih false false]
          refine and_congr_right (fun _ => ⟨?_, ?_⟩)
          · rintro ⟨a, b, c, hf, -, -, rfl⟩
            exact ⟨a + 1, b, c, by rw [hf, progressFlags_succ_committed], by simp, by simp, by simp; omega⟩
          · rintro ⟨a, b, c, hf, -, -, rfl⟩
            cases a with
            | zero => cases b <;> cases c <;> simp [progressFlags, List.replicate_succ] at hf
            | succ a =>
              rw [progressFlags_succ_committed, List.cons.injEq] at hf
              exact ⟨a, b, c, hf.2, by simp, by simp, by simp; omega⟩
    | false =>
      cases hr : e.rolledBack with
      | true =>
        simp only [hs, Bool.not_true, Bool.false_eq_true, if_false, Bool.false_and, Bool.not_false, Bool.or_true,
          if_true, ih true true]
        refine and_congr_right (fun _ => ⟨?_, ?_⟩)
        · rintro ⟨a, b, c, hf, ha, hab, rfl⟩
          obtain rfl := ha trivial
          obtain rfl := (hab trivial).2
          exact ⟨0, 0, c + 1, by rw [hf, progressFlags_succ_rolledBack], by simp, by simp, by simp; omega⟩
        · rintro ⟨a, b, c, hf, -, -, rfl⟩
          cases a with
          | succ a => simp [progressFlags, List.replicate_succ] at hf
          | zero =>
            cases b with
            | succ b => simp [progressFlags, List.replicate_succ] at hf
            | zero =>
              cases c with
              | zero => simp [progressFlags] at hf
              | succ c =>
                rw [progressFlags_succ_rolledBack, List.cons.injEq] at hf
                exact ⟨0, 0, c, hf.2, by simp, by simp, by simp; omega⟩
      | false =>
        cases sR with
        | true =>
          simp only [hs, Bool.not_true, Bool.false_eq_true, if_false, Bool.false_and, Bool.not_false, Bool.and_self,
            if_true]
          constructor
          · intro h; cases h
          · rintro ⟨-, a, b, c, hf, -, ha, -⟩
            rw [(ha trivial).1, (ha trivial).2] at hf
            cases c <;> simp [progressFlags, List.replicate_succ] at hf
        | false =>
          simp only [hs, Bool.not_true, Bool.false_eq_true, if_false, Bool.false_and, Bool.not_false, Bool.and_false,
            Bool.or_true, Bool.or_false, ih true false]
          refine and_congr_right (fun _ => ⟨?_, ?_⟩)
          · rintro ⟨a, b, c, hf, ha, -, rfl⟩
            obtain rfl := ha trivial
            exact ⟨0, b + 1, c, by rw [hf, progressFlags_succ_open], by simp, by simp, by simp⟩
          · rintro ⟨a, b, c, hf, -, -, rfl⟩
            cases a with
            | succ a => simp [progressFlags, List.replicate_succ] at hf
            | zero =>
              cases b with
              | zero => cases c <;> simp [progressFlags, List.replicate_succ] at hf
              | succ b =>
                rw [progressFlags_succ_open, List.cons.injEq] at hf
                exact ⟨0, b, c, hf.2, by simp, by simp, by simp⟩

/-! ## The frame of a journal: what no replay changes -/

def JournalPayload.reset (entry : JournalPayload) : JournalPayload := { entry with committed := false, rolledBack := false }

/-- The journal with its progress and its stamp taken off. -/
def TransactionJournal.reset (j : TransactionJournal) : TransactionJournal :=
  { j with
    valid := true, slot := 0, journalGeneration := 1, phase := .prepare, committedCount := 0, rollbackCount := 0,
    rollbackMarkersPresent := true, payloads := j.payloads.map (·.reset) }

/-- The fields a slot write stamps: accepted, one of the two slots, a nonzero generation. -/
def TransactionJournal.stamped (j : TransactionJournal) : Prop := j.valid = true ∧ j.slot ≤ 1 ∧ j.journalGeneration ≠ 0

def frameValid (j : TransactionJournal) : Prop :=
  journalFrameOk j = true ∧
  (j.componentsBound = true → componentsValid j.packagePayloadCount [] j.liveComponents = true) ∧
  ∀ e ∈ j.live, payloadShapeOk e.reset = true

theorem live_reset (j : TransactionJournal) : j.reset.live = j.live.map (·.reset) := by
  simp only [TransactionJournal.live, TransactionJournal.reset, Vector.toList_map, List.map_take]

theorem length_live (j : TransactionJournal) (h : j.payloadCount.toNat ≤ maxPayloads) :
    j.live.length = j.payloadCount.toNat := by
  simp [TransactionJournal.live]; omega

theorem journalPathsValid_reset (j : TransactionJournal) : journalPathsValid j.reset = journalPathsValid j := by
  unfold journalPathsValid
  rw [live_reset, List.zipIdx_map, List.all_map, List.flatMap_map]
  rfl

theorem journalFrameOk_reset (j : TransactionJournal) : journalFrameOk j.reset = journalFrameOk j := by
  unfold journalFrameOk
  rw [journalPathsValid_reset]
  rfl

theorem payloadShapeOk_iff_reset (entry : JournalPayload) :
    payloadShapeOk entry = true ↔ payloadShapeOk entry.reset = true ∧ entry.flags ≠ (true, true) := by
  unfold payloadShapeOk JournalPayload.reset JournalPayload.flags
  cases entry.committed <;> cases entry.rolledBack <;> simp

theorem frameValid_of_reset_eq {j j' : TransactionJournal} (h : j'.reset = j.reset) (hj : frameValid j) :
    frameValid j' := by
  have h1 : j'.reset.componentsBound = j.reset.componentsBound := by rw [h]
  have h2 : j'.reset.packagePayloadCount = j.reset.packagePayloadCount := by rw [h]
  have h3 : j'.reset.liveComponents = j.reset.liveComponents := by rw [h]
  have h4 : j'.live.map (·.reset) = j.live.map (·.reset) := by rw [← live_reset, ← live_reset, h]
  refine ⟨by rw [← journalFrameOk_reset, h, journalFrameOk_reset]; exact hj.1, fun hb => ?_, fun e he => ?_⟩
  · show componentsValid j'.reset.packagePayloadCount [] j'.reset.liveComponents = true
    rw [h2, h3]
    exact hj.2.1 (h1.symm.trans hb)
  have hm : e.reset ∈ j.live.map (·.reset) := by rw [← h4]; exact List.mem_map_of_mem he
  obtain ⟨e0, he0, heq⟩ := List.mem_map.1 hm
  rw [← heq]
  exact hj.2.2 e0 he0

theorem payloadCount_of_frameValid {j : TransactionJournal} (h : frameValid j) :
    j.payloadCount.toNat ≤ maxPayloads ∧ 0 < j.payloadCount.toNat := by
  have h1 := h.1
  simp only [journalFrameOk, Bool.and_eq_true, decide_eq_true_eq, bne_iff_ne, ne_eq] at h1
  obtain ⟨⟨⟨⟨⟨⟨⟨⟨⟨⟨-, h0⟩, h2⟩, -⟩, -⟩, -⟩, -⟩, -⟩, -⟩, -⟩, -⟩ := h1
  refine ⟨h2, Nat.pos_of_ne_zero (fun hz => h0 ?_)⟩
  exact UInt32.toNat_inj.1 hz

theorem mem_flags_ne_both {L : List JournalPayload} {a b c : Nat} (h : L.map (·.flags) = progressFlags a b c)
    {e : JournalPayload} (he : e ∈ L) : e.flags ≠ (true, true) := by
  intro hb
  have : e.flags ∈ progressFlags a b c := by rw [← h]; exact List.mem_map_of_mem he
  simp [progressFlags, hb] at this

/-- **A valid journal is a valid frame in progress order, stamped, with exact counts.** -/
theorem journalValid_iff (j : TransactionJournal) : journalValid j = true ↔
    j.stamped ∧ frameValid j ∧ (j.phase = .postBoot → j.batch = true) ∧
      ∃ a b c, j.live.map (·.flags) = progressFlags a b c ∧ a = j.committedCount.toNat ∧ c = j.rollbackCount.toNat ∧
        phaseCountsOk j a c = true := by
  have hhead : journalHeaderValid j = true ↔ j.stamped ∧ journalFrameOk j = true ∧
      (j.phase = .postBoot → j.batch = true) ∧ j.committedCount ≤ j.payloadCount ∧ j.rollbackCount ≤ j.payloadCount := by
    unfold journalHeaderValid TransactionJournal.stamped
    simp only [Bool.and_eq_true, decide_eq_true_eq, bne_iff_ne, ne_eq, Bool.not_eq_true', Bool.and_eq_false_imp,
      beq_iff_eq, Bool.not_eq_false']
    tauto
  have hcomp : (!j.componentsBound || componentsValid j.packagePayloadCount [] j.liveComponents) = true ↔
      (j.componentsBound = true → componentsValid j.packagePayloadCount [] j.liveComponents = true) := by
    cases j.componentsBound <;> simp
  unfold journalValid
  rw [Bool.and_eq_true, Bool.and_eq_true, hhead, hcomp]
  constructor
  · rintro ⟨⟨⟨hst, hhd, hpb, -, -⟩, hco⟩, hscan⟩
    cases hsc : scanPayloads j.live false false 0 0 with
    | none => rw [hsc] at hscan; cases hscan
    | some p =>
      obtain ⟨hshape, a, b, c, hf, -, -, hp⟩ := (scanPayloads_iff _ _ _ _ _ _).1 hsc
      rw [hsc] at hscan
      simp only [Nat.zero_add] at hp
      subst hp
      simp only [Bool.and_eq_true, beq_iff_eq] at hscan
      refine ⟨hst, ⟨hhd, hco, fun e he => ((payloadShapeOk_iff_reset e).1 (hshape e he)).1⟩, hpb, a, b, c, hf,
        hscan.1.1, hscan.1.2, hscan.2⟩
  · rintro ⟨hst, hfr, hpb, a, b, c, hf, ha, hc, hph⟩
    have hlen : a + b + c = j.payloadCount.toNat := by
      have := congrArg List.length hf
      rw [List.length_map, length_live j (payloadCount_of_frameValid hfr).1, length_progressFlags] at this
      exact this.symm
    have hsc : scanPayloads j.live false false 0 0 = some (a, c) := by
      rw [scanPayloads_iff]
      refine ⟨fun e he => (payloadShapeOk_iff_reset e).2 ⟨hfr.2.2 e he, mem_flags_ne_both hf he⟩, a, b, c, hf, ?_, ?_, ?_⟩
      · simp
      · simp
      · simp
    refine ⟨⟨⟨hst, hfr.1, hpb, ?_, ?_⟩, hfr.2.1⟩, ?_⟩
    · rw [UInt32.le_iff_toNat_le]; omega
    · rw [UInt32.le_iff_toNat_le]; omega
    · rw [hsc]; simp [← ha, ← hc, hph]

/-- **Recounting makes any stamped frame in progress order valid**, in every phase its counts admit. -/
theorem journalValid_recount {j : TransactionJournal} {a b c : Nat} (hst : j.stamped) (hfr : frameValid j)
    (hpb : j.phase = .postBoot → j.batch = true) (hf : j.live.map (·.flags) = progressFlags a b c)
    (hph : phaseCountsOk j a c = true) : journalValid (recount j) = true := by
  have hlen : a + b + c ≤ maxPayloads := by
    have := congrArg List.length hf
    rw [List.length_map, length_live j (payloadCount_of_frameValid hfr).1, length_progressFlags] at this
    have := (payloadCount_of_frameValid hfr).1
    omega
  have hm : maxPayloads = 34 := rfl
  have hca : j.live.countP (·.committed) = a := by
    rw [← countP_committed a b c, ← hf, List.countP_map]; rfl
  have hcc : j.live.countP (·.rolledBack) = c := by
    rw [← countP_rolledBack a b c, ← hf, List.countP_map]; rfl
  refine (journalValid_iff _).2 ⟨hst, frameValid_of_reset_eq rfl hfr, hpb, a, b, c, hf, ?_, ?_, hph⟩
  · show a = (j.live.countP (·.committed)).toUInt32.toNat
    rw [hca]; simp; omega
  · show c = (j.live.countP (·.rolledBack)).toUInt32.toNat
    rw [hcc]; simp; omega

end Journal
end R4
