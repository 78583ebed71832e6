import R4Recovery.JournalReplay
/-!
# JournalReplaySafe — every call of every replay history is backed by the calls before it

One lemma for each machine step (a persist, a checked transition, a target check), then the loops by induction on the
cursor, then the histories by induction on the replays.
-/
namespace R4
namespace Journal

variable {σ : Type} {j : TransactionJournal}

/-! ## Reading and writing payload slots -/

theorem live_getElem? (j : TransactionJournal) (k : Nat) (hk : k < j.payloadCount.toNat)
    (hn : j.payloadCount.toNat ≤ maxPayloads) : j.live[k]? = some (j.payload k) := by
  have hl : k < j.payloads.toList.length := by simp; omega
  rw [TransactionJournal.live, List.getElem?_take_of_lt hk, List.getElem?_eq_getElem hl, TransactionJournal.payload,
    List.getD_eq_getElem?_getD, List.getElem?_eq_getElem hl, Option.getD_some]

theorem payload_setPayload (j : TransactionJournal) (i k : Nat) (e : JournalPayload) :
    (j.setPayload i e).payload k = if i = k ∧ i < maxPayloads then e else j.payload k := by
  simp only [TransactionJournal.payload, TransactionJournal.setPayload, Vector.toList_setIfInBounds,
    List.getD_eq_getElem?_getD, List.getElem?_set, Vector.length_toList]
  by_cases h : i = k
  · subst h
    by_cases hm : i < maxPayloads
    · simp [hm]
    · have : j.payloads.toList[i]? = none := List.getElem?_eq_none (by simp; omega)
      simp [hm]
  · simp [h]

theorem live_setPayload (j : TransactionJournal) (i : Nat) (e : JournalPayload) :
    (j.setPayload i e).live = j.live.set i e := by
  simp only [TransactionJournal.live, TransactionJournal.setPayload, Vector.toList_setIfInBounds]
  rw [List.take_set]

theorem reset_setPayload (j : TransactionJournal) (i : Nat) (e : JournalPayload) (h : e.reset = (j.payload i).reset) :
    (j.setPayload i e).reset = j.reset := by
  have hv : (j.payloads.setIfInBounds i e).map (·.reset) = j.payloads.map (·.reset) := by
    rw [Vector.map_setIfInBounds]
    refine Vector.ext (fun k hk => ?_)
    rw [Vector.getElem_setIfInBounds]
    split
    · rename_i hik
      subst hik
      rw [h, TransactionJournal.payload, List.getD_eq_getElem?_getD, List.getElem?_eq_getElem (by simpa using hk)]
      simp
    · rfl
  simp only [TransactionJournal.reset, TransactionJournal.setPayload, hv]

theorem payloadCount_of_reset_eq {J j : TransactionJournal} (h : J.reset = j.reset) : J.payloadCount = j.payloadCount := by
  have : J.reset.payloadCount = j.reset.payloadCount := by rw [h]
  exact this

theorem batch_of_reset_eq {J j : TransactionJournal} (h : J.reset = j.reset) : J.batch = j.batch := by
  have : J.reset.batch = j.reset.batch := by rw [h]
  exact this

theorem payload_of_reset_eq {J j : TransactionJournal} (h : J.reset = j.reset) (k : Nat) :
    (J.payload k).reset = (j.payload k).reset := by
  have hp : J.reset.payload k = j.reset.payload k := by rw [h]
  have hr : ∀ x : TransactionJournal, x.reset.payload k = (x.payload k).reset := by
    intro x
    simp only [TransactionJournal.payload, TransactionJournal.reset, Vector.toList_map, List.getD_eq_getElem?_getD,
      List.getElem?_map]
    cases x.payloads.toList[k]? <;> rfl
  rw [← hr J, ← hr j, hp]

theorem replaceRequired_of_reset_eq {J j : TransactionJournal} (h : J.reset = j.reset) (k : Nat) :
    (J.payload k).replaceRequired = (j.payload k).replaceRequired := by
  have hr := congrArg JournalPayload.replaceRequired (payload_of_reset_eq h k)
  exact hr

theorem target_of_reset_eq {J j : TransactionJournal} (h : J.reset = j.reset) (k : Nat) :
    (J.payload k).target = (j.payload k).target ∧ (J.payload k).size = (j.payload k).size ∧
      (J.payload k).checksum = (j.payload k).checksum := by
  have ht := congrArg JournalPayload.target (payload_of_reset_eq h k)
  have hs := congrArg JournalPayload.size (payload_of_reset_eq h k)
  have hc := congrArg JournalPayload.checksum (payload_of_reset_eq h k)
  exact ⟨ht, hs, hc⟩

theorem RolledBack.cons {k : Nat} {past : List Event} (e : Event) (h : RolledBack k past) : RolledBack k (e :: past) :=
  h.imp (fun _ => List.mem_cons_of_mem _)

theorem Committed.cons {k : Nat} {past : List Event} (e : Event) (h : Committed k past) : Committed k (e :: past) :=
  h.imp (fun _ => List.mem_cons_of_mem _)

theorem Matched.cons {k : Nat} {past : List Event} (e : Event) (h : Matched k past) : Matched k (e :: past) :=
  h.imp (fun _ => Exists.imp (fun _ => Exists.imp (fun _ => List.mem_cons_of_mem _)))

/-! ## Backed journals -/

/-- The journal's frame is `j`'s, and every marker it carries was in `j` or was earned by a call of `past`. -/
structure Backed (j : TransactionJournal) (past : List Event) (J : TransactionJournal) : Prop where
  frame : J.reset = j.reset
  rolledBack : ∀ k < j.payloadCount.toNat, (J.payload k).rolledBack = true → (j.payload k).replaceRequired = true →
    (j.payload k).rolledBack = true ∨ RolledBack k past
  committed : ∀ k < j.payloadCount.toNat, (J.payload k).committed = true →
    (j.payload k).committed = true ∨ Committed k past

theorem Backed.mono {J : TransactionJournal} {past : List Event} (e : Event) (h : Backed j past J) :
    Backed j (e :: past) J :=
  ⟨h.frame, fun k hk h1 h2 => (h.rolledBack k hk h1 h2).imp_right (.cons _),
    fun k hk h1 => (h.committed k hk h1).imp_right (.cons _)⟩

theorem Backed.of_payloads {J J' : TransactionJournal} {past : List Event} (h : Backed j past J)
    (hf : J'.reset = J.reset) (hp : J'.payloads = J.payloads) : Backed j past J' := by
  have hk : ∀ k, J'.payload k = J.payload k := by intro k; simp only [TransactionJournal.payload, hp]
  exact ⟨hf.trans h.frame, fun k => by rw [hk]; exact h.rolledBack k, fun k => by rw [hk]; exact h.committed k⟩

/-- A journal a rollback starts from: accepted, and neither applied nor cleaned up. -/
def Replayable (j : TransactionJournal) : Prop := journalValid j = true ∧ j.phase ≠ .applied ∧ j.phase ≠ .cleanup

structure Inv (j : TransactionJournal) (m : Machine σ) : Prop where
  history : HistoryOk j m.trace
  journal : Backed j m.trace m.journal
  durable : Backed j m.trace m.durable
  replayable : Replayable j → Replayable m.durable

theorem inv_boot (world : σ) (j : TransactionJournal) : Inv j (Machine.boot world j) :=
  ⟨trivial, ⟨rfl, fun _ _ h _ => Or.inl h, fun _ _ h => Or.inl h⟩,
    ⟨rfl, fun _ _ h _ => Or.inl h, fun _ _ h => Or.inl h⟩, id⟩

theorem Inv.restart {m : Machine σ} (h : Inv j m) : Inv j m.restart :=
  ⟨⟨trivial, h.history⟩, h.durable.mono _, h.durable.mono _, h.replayable⟩

theorem Inv.called {m : Machine σ} (h : Inv j m) (world : σ) (e : Event)
    (he : EventOk j m.trace e) : Inv j { m with world, trace := e :: m.trace } :=
  ⟨⟨he, h.history⟩, h.journal.mono _, h.durable.mono _, h.replayable⟩

theorem Persisted.stamped (p : Persisted) (J : TransactionJournal) : (p.stamp J).stamped :=
  ⟨rfl, (by decide : ∀ s : Fin 2, UInt8.ofNat s.val ≤ 1) p.slot, p.generation.2⟩

theorem Persisted.valid (p : Persisted) {J : TransactionJournal} (h : journalValid J = true) :
    journalValid (p.stamp J) = true := by
  obtain ⟨-, hfr, hpb, a, b, c, hf, ha, hc, hph⟩ := (journalValid_iff _).1 h
  exact (journalValid_iff _).2 ⟨p.stamped J, frameValid_of_reset_eq rfl hfr, hpb, a, b, c, hf, ha, hc, hph⟩

theorem thisRun_cons {e : Event} (h : e.isRestart = false) (past : List Event) : thisRun (e :: past) = e :: thisRun past := by
  simp [thisRun, h]

/-- **A persist of a valid backed journal keeps the invariant**; the journal in memory stays the same up to its stamp. -/
theorem Inv.persist {m : Machine σ} (io : ReplayIo σ) (h : Inv j m)
    (hv : Replayable m.journal)
    (hpb : m.journal.phase = .postBoot → ∀ k < j.payloadCount.toNat, Matched k (thisRun m.trace)) :
    Inv j (m.persist io).2 ∧ (m.persist io).2.trace = .persist m.journal (m.persist io).1 :: m.trace ∧
      (m.persist io).2.journal.reset = m.journal.reset ∧ (m.persist io).2.journal.payloads = m.journal.payloads ∧
      (m.persist io).2.journal.phase = m.journal.phase ∧ (m.persist io).2.journal.stamped := by
  rcases hp : io.persist m.world m.journal with ⟨p, world⟩
  have hB : Backed j (.persist m.journal p.accepted :: m.trace) m.journal := h.journal.mono _
  have hS : Backed j (.persist m.journal p.accepted :: m.trace) (p.stamp m.journal) := hB.of_payloads rfl rfl
  have hev : EventOk j m.trace (.persist m.journal p.accepted) :=
    ⟨hv.1, h.journal.frame, h.journal.rolledBack, h.journal.committed, hpb⟩
  simp only [Machine.persist, hp]
  refine ⟨⟨⟨hev, h.history⟩, ?_, ?_, fun hj => ?_⟩, trivial, ?_, ?_, ?_, ?_⟩
  · dsimp only; split <;> assumption
  · dsimp only
    split
    · exact hS
    · exact h.durable.mono _
  · dsimp only
    split
    · exact ⟨p.valid hv.1, hv.2⟩
    · exact h.replayable hj
  · split <;> rfl
  · split <;> rfl
  · split <;> rfl
  · split
    · exact p.stamped _
    · exact ((journalValid_iff _).1 hv.1).1

/-! ## Rollback -/

/-- A rollback run in front of payload `k`: everything from `k` on is rolled back and was called in this run. -/
structure RollbackAt (j : TransactionJournal) (k : Nat) (m : Machine σ) : Prop where
  inv : Inv j m
  frame : frameValid j
  stamped : m.journal.stamped
  phase : m.journal.phase = .rollback
  shape : ∃ a b c, m.journal.live.map (·.flags) = progressFlags a b c ∧ a + b ≤ k
  le : k ≤ j.payloadCount.toNat
  called : ∀ i e s, Event.rollback i e s ∈ thisRun m.trace → k ≤ i
  earned : ∀ i, k ≤ i → i < j.payloadCount.toNat → (j.payload i).replaceRequired = true →
    RolledBack i (thisRun m.trace)

theorem flags_payload {a b c k : Nat} (hf : j.live.map (·.flags) = progressFlags a b c)
    (hk : k < j.payloadCount.toNat) (hn : j.payloadCount.toNat ≤ maxPayloads) :
    some (j.payload k).flags = (progressFlags a b c)[k]? := by
  rw [← hf, List.getElem?_map, live_getElem? j k hk hn, Option.map_some]

theorem flags_length {a b c : Nat} (hf : j.live.map (·.flags) = progressFlags a b c)
    (hn : j.payloadCount.toNat ≤ maxPayloads) : a + b + c = j.payloadCount.toNat := by
  have := congrArg List.length hf
  rw [List.length_map, length_live j hn, length_progressFlags] at this
  exact this.symm

theorem RollbackAt.call {k : Nat} {m : Machine σ} (io : ReplayIo σ) (h : RollbackAt j (k + 1) m)
    (r : MutationStatus × Machine σ)
    (hr : r = if (m.journal.payload k).replaceRequired then m.rollbackPayload io k else (.ok, m)) :
    Inv j r.2 ∧ r.2.journal = m.journal ∧
      (r.1 ≠ .ok → ∃ e ∈ thisRun r.2.trace, e.succeeded = false) ∧
      (r.1 = .ok → (∀ i e s, Event.rollback i e s ∈ thisRun r.2.trace → k ≤ i) ∧
        ∀ i, k ≤ i → i < j.payloadCount.toNat → (j.payload i).replaceRequired = true →
          RolledBack i (thisRun r.2.trace)) := by
  have hreq := replaceRequired_of_reset_eq h.inv.journal.frame k
  by_cases hq : (m.journal.payload k).replaceRequired = true
  · rw [if_pos hq] at hr
    rcases hio : io.rollbackPayload m.world (m.journal.payload k) with ⟨status, world⟩
    have hr' : r = (status, { m with world, trace := .rollback k (m.journal.payload k) status :: m.trace }) := by
      rw [hr]; simp only [Machine.rollbackPayload, hio]
    subst hr'
    have hrun : thisRun (.rollback k (m.journal.payload k) status :: m.trace) =
      .rollback k (m.journal.payload k) status :: thisRun m.trace := thisRun_cons rfl _
    have hev : EventOk j m.trace (.rollback k (m.journal.payload k) status) :=
      ⟨h.le, payload_of_reset_eq h.inv.journal.frame k, h.called, h.earned⟩
    refine ⟨h.inv.called world _ hev, rfl, ?_, ?_⟩
    · intro hne
      exact ⟨.rollback k (m.journal.payload k) status, by rw [hrun]; exact List.mem_cons_self, by simpa [Event.succeeded] using hne⟩
    · intro hok
      dsimp only at hok ⊢
      rw [hrun]
      refine ⟨fun i e s hi => ?_, fun i hki hi hr => ?_⟩
      · rcases List.mem_cons.1 hi with hi | hi
        · cases hi; exact Nat.le_refl _
        · exact Nat.le_of_succ_le (h.called i e s hi)
      · rcases Nat.eq_or_lt_of_le hki with rfl | hlt
        · rw [hok]; exact ⟨_, List.mem_cons_self⟩
        · exact .cons _ (h.earned i hlt hi hr)
  · rw [if_neg hq] at hr
    subst hr
    refine ⟨h.inv, rfl, fun hne => absurd rfl hne, fun _ => ⟨fun i e s hi => Nat.le_of_succ_le (h.called i e s hi), ?_⟩⟩
    intro i hki hi hr
    rcases Nat.eq_or_lt_of_le hki with rfl | hlt
    · rw [hreq] at hq; exact absurd hr hq
    · exact h.earned i hlt hi hr

theorem phaseCountsOk_rollback {committed rollback : Nat} (h : j.phase = .rollback) :
    phaseCountsOk j committed rollback = true := by
  unfold phaseCountsOk
  rw [h]

theorem rollback_mark {k : Nat} {J : TransactionJournal} {past : List Event}
    (hB : Backed j past J) (hfr : frameValid j) (hst : J.stamped) (hph : J.phase = .rollback)
    (hsh : ∃ a b c, J.live.map (·.flags) = progressFlags a b c ∧ a + b ≤ k + 1) (hk : k < j.payloadCount.toNat)
    (hnot : (J.payload k).rolledBack = false)
    (hearned : (j.payload k).replaceRequired = true → RolledBack k past)
    (J' : TransactionJournal)
    (hJ' : J' = recount (J.setPayload k (J.payload k).markRolledBack)) :
    Backed j past J' ∧ journalValid J' = true ∧ J'.phase = .rollback ∧
      ∃ a b c, J'.live.map (·.flags) = progressFlags a b c ∧ a + b ≤ k := by
  have hcount := payloadCount_of_reset_eq hB.frame
  have hn := (payloadCount_of_frameValid hfr).1
  have hkm : k < maxPayloads := by omega
  have hreset : J'.reset = j.reset := by
    rw [hJ']
    exact (reset_setPayload J k (J.payload k).markRolledBack rfl).trans hB.frame
  have hset : ∀ i, J'.payload i =
      if k = i ∧ k < maxPayloads then (J.payload k).markRolledBack else J.payload i := by
    intro i; rw [hJ']; exact payload_setPayload J k i _
  obtain ⟨a, b, c, hf, hab⟩ := hsh
  have hlen := flags_length hf (by rw [hcount]; exact hn)
  have hget := flags_payload hf (by rw [hcount]; exact hk) (by rw [hcount]; exact hn)
  have hbound : k < a + b := by
    by_contra hge
    rw [progressFlags_getElem?, if_neg (by omega), if_neg (by omega), if_pos (by rw [hlen, hcount]; exact hk)] at hget
    simp [JournalPayload.flags, hnot] at hget
  have hflags : ∃ a' b', J'.live.map (·.flags) = progressFlags a' b' (c + 1) ∧ a' + b' ≤ k := by
    have hl : J'.live.map (·.flags) = (progressFlags a b c).set k (false, true) := by
      rw [hJ']
      show ((J.setPayload k _).live).map _ = _
      rw [live_setPayload, List.map_set, hf]
      rfl
    rw [hl]
    cases b with
    | zero =>
      obtain ⟨a', rfl⟩ : ∃ a', a = a' + 1 := ⟨a - 1, by omega⟩
      obtain rfl : a' = k := by omega
      exact ⟨a', 0, progressFlags_set_committed a' c, by omega⟩
    | succ b =>
      obtain rfl : k = a + b := by omega
      exact ⟨a, b, progressFlags_set_open a b c, by omega⟩
  refine ⟨⟨hreset, fun i hi => ?_, fun i hi => ?_⟩, ?_, ?_, ?_⟩
  · rw [hset i]
    split
    · rename_i hik
      obtain ⟨rfl, -⟩ := hik
      intro _ hreq
      exact Or.inr (hearned hreq)
    · exact hB.rolledBack i hi
  · rw [hset i]
    split
    · intro hc; cases hc
    · exact hB.committed i hi
  · obtain ⟨a', b', hfl, -⟩ := hflags
    rw [hJ'] at hfl ⊢
    refine journalValid_recount (j := J.setPayload k _) hst ?_ ?_ hfl ?_
    · exact frameValid_of_reset_eq ((reset_setPayload J k (J.payload k).markRolledBack rfl).trans hB.frame) hfr
    · intro hc
      have : J.phase = .postBoot := hc
      rw [hph] at this; cases this
    · exact phaseCountsOk_rollback hph
  · rw [hJ']; exact hph
  · obtain ⟨a', b', hfl, hle⟩ := hflags
    exact ⟨a', b', c + 1, hfl, hle⟩

theorem Inv.persistWith {m : Machine σ} (io : ReplayIo σ) (h : Inv j m) (J : TransactionJournal)
    (hB : Backed j m.trace J) (hv : Replayable J)
    (hpb : J.phase = .postBoot → ∀ k < j.payloadCount.toNat, Matched k (thisRun m.trace))
    (r : Bool × Machine σ) (hr : r = Machine.persist io { m with journal := J }) :
    Inv j r.2 ∧ thisRun r.2.trace = .persist J r.1 :: thisRun m.trace ∧ r.2.journal.payloads = J.payloads ∧
      r.2.journal.payloadCount = J.payloadCount ∧ r.2.journal.phase = J.phase ∧ r.2.journal.stamped := by
  have h' : Inv j { m with journal := J } := ⟨h.history, hB, h.durable, h.replayable⟩
  obtain ⟨hi, ht, hf, hp, hph, hst⟩ := h'.persist io hv hpb
  subst hr
  refine ⟨hi, ?_, hp, payloadCount_of_reset_eq hf, hph, hst⟩
  rw [ht]
  exact thisRun_cons rfl _

theorem live_eq_of_payloads {J J' : TransactionJournal} (hp : J'.payloads = J.payloads)
    (hc : J'.payloadCount = J.payloadCount) : J'.live = J.live := by
  simp only [TransactionJournal.live, hp, hc]

/-- **One rollback step**: the invariant holds on every exit; a stop leaves the failed call on the trace; otherwise the run
stands in front of payload `k`. -/
theorem RollbackAt.step {k : Nat} {m : Machine σ} (io : ReplayIo σ) (h : RollbackAt j (k + 1) m) :
    Inv j (rollbackOne io k m).2 ∧
      (∀ status, (rollbackOne io k m).1 = some status →
        status ≠ .ok ∧ ∃ e ∈ thisRun (rollbackOne io k m).2.trace, e.succeeded = false) ∧
      ((rollbackOne io k m).1 = none → RollbackAt j k (rollbackOne io k m).2) := by
  unfold rollbackOne
  dsimp only
  generalize hr : (if (m.journal.payload k).replaceRequired then m.rollbackPayload io k else (.ok, m)) = r
  obtain ⟨hinv, hjr, hfail, hok⟩ := h.call io r hr.symm
  obtain ⟨status, m1⟩ := r
  dsimp only at hinv hjr hfail hok ⊢
  cases status with
  | conflict => exact ⟨hinv, fun s hs => by cases hs; exact ⟨by decide, hfail (by decide)⟩, fun hn => by cases hn⟩
  | io => exact ⟨hinv, fun s hs => by cases hs; exact ⟨by decide, hfail (by decide)⟩, fun hn => by cases hn⟩
  | ok =>
    obtain ⟨hcalled, hearned⟩ := hok rfl
    have hk : k < j.payloadCount.toNat := h.le
    have hn := (payloadCount_of_frameValid h.frame).1
    have hcount := payloadCount_of_reset_eq h.inv.journal.frame
    dsimp only
    split
    · rename_i hrb
      refine ⟨hinv, fun s hs => (by cases hs), fun _ => ⟨hinv, h.frame, by rw [hjr]; exact h.stamped,
        by rw [hjr]; exact h.phase, ?_, Nat.le_of_lt hk, hcalled, hearned⟩⟩
      obtain ⟨a, b, c, hf, hab⟩ := h.shape
      refine ⟨a, b, c, by rw [hjr]; exact hf, ?_⟩
      have hget := flags_payload hf (by rw [hcount]; exact hk) (by rw [hcount]; exact hn)
      -- an already marked payload lies in the rolled-back suffix
      by_contra hlt
      rw [progressFlags_getElem?] at hget
      split at hget
      · simp [JournalPayload.flags, hrb] at hget
      · rw [if_pos (by omega)] at hget
        simp [JournalPayload.flags, hrb] at hget
    · rename_i hrb
      have hearn : (j.payload k).replaceRequired = true → RolledBack k m1.trace := fun hq =>
        (hearned k (Nat.le_refl _) hk hq).imp (fun _ he => List.takeWhile_subset _ he)
      obtain ⟨hB, hv, hph, hsh⟩ := rollback_mark (by rw [← hjr]; exact hinv.journal) h.frame h.stamped h.phase h.shape hk
        (by simpa using hrb) hearn _ rfl
      generalize hp : Machine.persist io
        { m1 with journal := recount (m1.journal.setPayload k (m.journal.payload k).markRolledBack) } = q
      rw [hjr] at hp
      obtain ⟨hi, ht, hpay, hcnt, hphase, hst⟩ := hinv.persistWith io _ hB
        ⟨hv, by rw [hph]; decide, by rw [hph]; decide⟩ (fun hc => by rw [hph] at hc; cases hc) q hp.symm
      obtain ⟨ok, m2⟩ := q
      dsimp only at hi ht hpay hcnt hphase hst ⊢
      cases ok with
      | false =>
        refine ⟨hi, fun s hs => ?_, fun hn => by cases hn⟩
        cases hs
        exact ⟨by decide, _, by rw [ht]; exact List.mem_cons_self, rfl⟩
      | true =>
        refine ⟨hi, fun s hs => (by cases hs), fun _ => ⟨hi, h.frame, hst, hphase.trans hph, ?_, Nat.le_of_lt hk, ?_, ?_⟩⟩
        · rw [live_eq_of_payloads hpay hcnt]; exact hsh
        · intro i e s hi
          rw [ht] at hi
          rcases List.mem_cons.1 hi with hi | hi
          · cases hi
          · exact hcalled i e s hi
        · intro i h1 h2 h3
          rw [ht]
          exact .cons _ (hearned i h1 h2 h3)

theorem finish_spec {m : Machine σ} (io : ReplayIo σ) (h : Inv j m) (hfr : frameValid j)
    (hst : m.journal.stamped) {a b c : Nat} (hf : m.journal.live.map (·.flags) = progressFlags a b c)
    (phase : JournalPhase) (hne : phase ≠ .applied ∧ phase ≠ .cleanup)
    (hph : phaseCountsOk { m.journal with phase } a c = true)
    (hpb : phase = .postBoot → j.batch = true ∧ ∀ k < j.payloadCount.toNat, Matched k (thisRun m.trace)) :
    Inv j (finish io phase m).2 ∧
      ((finish io phase m).1 ≠ .ok → ∃ e ∈ thisRun (finish io phase m).2.trace, e.succeeded = false) ∧
      ((finish io phase m).1 = .ok → (finish io phase m).2.journal.phase = phase ∧
        (finish io phase m).2.journal.payloads = m.journal.payloads) := by
  unfold finish
  generalize hp : Machine.persist io { m with journal := recount { m.journal with phase } } = q
  have hv : journalValid (recount { m.journal with phase }) = true :=
    journalValid_recount (j := { m.journal with phase }) hst (frameValid_of_reset_eq h.journal.frame hfr)
      (fun hc => (batch_of_reset_eq h.journal.frame).trans (hpb hc).1) hf hph
  have hB : Backed j m.trace (recount { m.journal with phase }) := h.journal.of_payloads rfl rfl
  obtain ⟨hi, ht, hpay, -, hphase, -⟩ := h.persistWith io _ hB ⟨hv, hne⟩ (fun hc => (hpb hc).2) q hp.symm
  obtain ⟨ok, m2⟩ := q
  dsimp only at hi ht hpay hphase ⊢
  cases ok with
  | false => exact ⟨hi, fun _ => ⟨_, by rw [ht]; exact List.mem_cons_self, rfl⟩, fun hn => by cases hn⟩
  | true => exact ⟨hi, fun hn => absurd rfl hn, fun _ => ⟨hphase, hpay⟩⟩

/-- **The rollback loop**, by induction on the cursor. -/
theorem rollbackLoop_spec (io : ReplayIo σ) : ∀ (k : Nat) (m : Machine σ), RollbackAt j k m →
    Inv j (rollbackLoop io k m).2 ∧
      ((rollbackLoop io k m).1 ≠ .ok → ∃ e ∈ thisRun (rollbackLoop io k m).2.trace, e.succeeded = false) ∧
      ((rollbackLoop io k m).1 = .ok → (rollbackLoop io k m).2.journal.phase = .rolledBack ∧
        ∀ i < j.payloadCount.toNat, ((rollbackLoop io k m).2.journal.payload i).rolledBack = true)
  | 0, m, h => by
    obtain ⟨a, b, c, hf, hab⟩ := h.shape
    obtain ⟨rfl, rfl⟩ : a = 0 ∧ b = 0 := by omega
    have hn := (payloadCount_of_frameValid h.frame).1
    have hcount := payloadCount_of_reset_eq h.inv.journal.frame
    have hlen := flags_length hf (by rw [hcount]; exact hn)
    obtain ⟨hi, hfail, hok⟩ := finish_spec io h.inv h.frame h.stamped hf .rolledBack (by decide)
      (by simp only [phaseCountsOk]; simp; omega) (fun hc => by cases hc)
    refine ⟨hi, hfail, fun ho => ⟨(hok ho).1, fun i hi' => ?_⟩⟩
    have hpay : (finish io .rolledBack m).2.journal.payload i = m.journal.payload i := by
      simp only [TransactionJournal.payload, (hok ho).2]
    have hget := flags_payload hf (by rw [hcount]; exact hi') (by rw [hcount]; exact hn)
    rw [progressFlags_getElem?, if_neg (by omega), if_neg (by omega), if_pos (by rw [hlen, hcount]; exact hi')] at hget
    simp only [JournalPayload.flags, Option.some.injEq, Prod.mk.injEq] at hget
    show ((finish io .rolledBack m).2.journal.payload i).rolledBack = true
    rw [hpay]; exact hget.2
  | k + 1, m, h => by
    obtain ⟨hi, hstop, hgo⟩ := h.step io
    unfold rollbackLoop
    generalize rollbackOne io k m = r at hi hstop hgo
    obtain ⟨st, m1⟩ := r
    cases st with
    | some status => exact ⟨hi, fun _ => (hstop status rfl).2, fun ho => absurd ho (hstop status rfl).1⟩
    | none => exact rollbackLoop_spec io k m1 (hgo rfl)

/-! ## Forward -/

/-- A forward run at payload `i`: everything before `i` is committed, nothing is rolled back. -/
structure CommitAt (j : TransactionJournal) (i : Nat) (m : Machine σ) : Prop where
  inv : Inv j m
  frame : frameValid j
  batch : j.batch = true
  stamped : m.journal.stamped
  phase : m.journal.phase = .commit
  shape : ∃ a b, m.journal.live.map (·.flags) = progressFlags a b 0 ∧ i ≤ a
  le : i ≤ j.payloadCount.toNat
  called : ∀ k e s, Event.commit k e s ∈ thisRun m.trace → k < i

theorem commit_mark {i : Nat} {J : TransactionJournal} (past : List Event)
    (hB : Backed j past J) (hfr : frameValid j) (hst : J.stamped) (hph : J.phase = .commit)
    (hsh : ∃ a b, J.live.map (·.flags) = progressFlags a b 0 ∧ i ≤ a) (hi : i < j.payloadCount.toNat)
    (hnot : (J.payload i).committed = false) (hearned : Committed i past)
    (J' : TransactionJournal) (hJ' : J' = recount (J.setPayload i (J.payload i).markCommitted)) :
    Backed j past J' ∧ journalValid J' = true ∧ J'.phase = .commit ∧
      ∃ a b, J'.live.map (·.flags) = progressFlags a b 0 ∧ i + 1 ≤ a := by
  have hcount := payloadCount_of_reset_eq hB.frame
  have hn := (payloadCount_of_frameValid hfr).1
  have hfrJ : (J.setPayload i (J.payload i).markCommitted).reset = j.reset :=
    (reset_setPayload J i (J.payload i).markCommitted rfl).trans hB.frame
  have hset : ∀ k, J'.payload k = if i = k ∧ i < maxPayloads then (J.payload i).markCommitted else J.payload k := by
    intro k; rw [hJ']; exact payload_setPayload J i k _
  obtain ⟨a, b, hf, ha⟩ := hsh
  have hlen := flags_length hf (by rw [hcount]; exact hn)
  have hget := flags_payload hf (by rw [hcount]; exact hi) (by rw [hcount]; exact hn)
  obtain rfl : i = a := by
    by_contra hne
    rw [progressFlags_getElem?, if_pos (by omega)] at hget
    simp [JournalPayload.flags, hnot] at hget
  obtain ⟨b', rfl⟩ : ∃ b', b = b' + 1 := by
    rw [hcount] at hlen
    exact ⟨b - 1, by omega⟩
  have hflags : J'.live.map (·.flags) = progressFlags (i + 1) b' 0 := by
    rw [hJ']
    show ((J.setPayload i _).live).map _ = _
    rw [live_setPayload, List.map_set, hf]
    exact progressFlags_set_commit i b'
  refine ⟨⟨by rw [hJ']; exact hfrJ, fun k hk => ?_, fun k hk => ?_⟩, ?_, ?_, i + 1, b', hflags, Nat.le_refl _⟩
  · rw [hset k]
    split
    · intro hc; cases hc
    · exact hB.rolledBack k hk
  · rw [hset k]
    split
    · rename_i hik
      obtain ⟨rfl, -⟩ := hik
      exact fun _ => Or.inr hearned
    · exact hB.committed k hk
  · rw [hJ'] at hflags ⊢
    refine journalValid_recount (j := J.setPayload i _) hst (frameValid_of_reset_eq hfrJ hfr) ?_ hflags ?_
    · intro hc
      have : J.phase = .postBoot := hc
      rw [hph] at this; cases this
    · simp only [phaseCountsOk, TransactionJournal.setPayload, hph]; rfl
  · rw [hJ']; exact hph

/-- **One commit step.** -/
theorem CommitAt.step {i : Nat} {m : Machine σ} (io : ReplayIo σ) (h : CommitAt j i m)
    (hi : i < j.payloadCount.toNat) :
    Inv j (commitOne io i m).2 ∧ (∀ status, (commitOne io i m).1 = some status → status ≠ .ok) ∧
      ((commitOne io i m).1 = none → CommitAt j (i + 1) (commitOne io i m).2) := by
  have hn := (payloadCount_of_frameValid h.frame).1
  have hcount := payloadCount_of_reset_eq h.inv.journal.frame
  unfold commitOne
  dsimp only
  split
  · rename_i hc
    refine ⟨h.inv, fun s hs => (by cases hs), fun _ => ⟨h.inv, h.frame, h.batch, h.stamped, h.phase, ?_, hi,
      fun k e s hk => Nat.lt_succ_of_lt (h.called k e s hk)⟩⟩
    obtain ⟨a, b, hf, ha⟩ := h.shape
    refine ⟨a, b, hf, Nat.lt_of_le_of_ne ha (fun he => ?_)⟩
    have hget := flags_payload hf (by rw [hcount]; exact hi) (by rw [hcount]; exact hn)
    have hlen := flags_length hf (by rw [hcount]; exact hn)
    rw [hcount] at hlen
    rw [progressFlags_getElem?, if_neg (by omega), if_pos (by omega)] at hget
    simp [JournalPayload.flags, hc] at hget
  · rename_i hc
    rcases hio : io.commitPayload m.world (m.journal.payload i) with ⟨status, world⟩
    simp only [Machine.commitPayload, hio]
    have hrun : thisRun (.commit i (m.journal.payload i) status :: m.trace) =
      .commit i (m.journal.payload i) status :: thisRun m.trace := thisRun_cons rfl _
    have hinv : Inv j { m with world, trace := .commit i (m.journal.payload i) status :: m.trace } :=
      h.inv.called world _ ⟨hi, payload_of_reset_eq h.inv.journal.frame i, h.called⟩
    cases status with
    | conflict => exact ⟨hinv, fun s hs => by cases hs; decide, fun hn => by cases hn⟩
    | io => exact ⟨hinv, fun s hs => by cases hs; decide, fun hn => by cases hn⟩
    | ok =>
      dsimp only
      obtain ⟨hB, hv, hph, hsh⟩ := commit_mark (.commit i (m.journal.payload i) .ok :: m.trace) (h.inv.journal.mono _)
        h.frame h.stamped h.phase h.shape hi (by simpa using hc) ⟨_, List.mem_cons_self⟩ _ rfl
      generalize hp : Machine.persist io _ = q
      obtain ⟨hi2, ht, hpay, hcnt, hphase, hst⟩ := hinv.persistWith io _ hB
        ⟨hv, by rw [hph]; decide, by rw [hph]; decide⟩ (fun hc => by rw [hph] at hc; cases hc) q hp.symm
      obtain ⟨ok, m2⟩ := q
      dsimp only at hi2 ht hpay hcnt hphase hst ⊢
      cases ok with
      | false => exact ⟨hi2, fun s hs => by cases hs; decide, fun hn => by cases hn⟩
      | true =>
        refine ⟨hi2, fun s hs => (by cases hs), fun _ => ⟨hi2, h.frame, h.batch, hst, hphase.trans hph, ?_, hi, ?_⟩⟩
        · rw [live_eq_of_payloads hpay hcnt]; exact hsh
        · intro k e s hk
          rw [ht, hrun] at hk
          rcases List.mem_cons.1 hk with hk | hk
          · cases hk
          · rcases List.mem_cons.1 hk with hk | hk
            · cases hk; exact Nat.lt_succ_self _
            · exact Nat.lt_succ_of_lt (h.called k e s hk)

/-- **The target check**: `post_boot` is published only behind a match of every target. -/
theorem verifyLoop_spec (io : ReplayIo σ) (hfr : frameValid j) (hb : j.batch = true) :
    ∀ (left : Nat) (m : Machine σ), left ≤ j.payloadCount.toNat → Inv j m → m.journal.stamped →
      m.journal.live.map (·.flags) = progressFlags j.payloadCount.toNat 0 0 →
      (∀ k < j.payloadCount.toNat - left, Matched k (thisRun m.trace)) →
      Inv j (verifyLoop io j.payloadCount.toNat left m).2
  | 0, m, _, hinv, hst, hf, hm => by
    have hcount := payloadCount_of_reset_eq hinv.journal.frame
    refine (finish_spec io hinv hfr hst hf .postBoot (by decide) ?_ (fun _ => ⟨hb, fun k hk => hm k (by omega)⟩)).1
    simp only [phaseCountsOk, hcount]; simp
  | left + 1, m, hl, hinv, hst, hf, hm => by
    unfold verifyLoop
    rcases hio : io.pathState m.world (m.journal.payload (j.payloadCount.toNat - (left + 1))).target
      (m.journal.payload (j.payloadCount.toNat - (left + 1))).size
      (m.journal.payload (j.payloadCount.toNat - (left + 1))).checksum with ⟨state, world⟩
    simp only [Machine.pathState, hio]
    have hinv' := hinv.called world (.target (j.payloadCount.toNat - (left + 1)) _ _ _ state)
      ⟨by omega, target_of_reset_eq hinv.journal.frame _⟩
    cases state with
    | match_ =>
      refine verifyLoop_spec io hfr hb left _ (by omega) hinv' hst hf (fun k hk => ?_)
      rw [thisRun_cons rfl]
      by_cases he : k = j.payloadCount.toNat - (left + 1)
      · rw [he]; exact ⟨_, _, _, List.mem_cons_self⟩
      · exact .cons _ (hm k (by omega))
    | notFound => exact hinv'
    | other => exact hinv'
    | io => exact hinv'

theorem commitLoop_spec (io : ReplayIo σ) : ∀ (left : Nat) (m : Machine σ),
    left ≤ j.payloadCount.toNat → CommitAt j (j.payloadCount.toNat - left) m →
      Inv j (commitLoop io j.payloadCount.toNat left m).2
  | 0, m, _, h => by
    have hcount := payloadCount_of_reset_eq h.inv.journal.frame
    obtain ⟨a, b, hf, ha⟩ := h.shape
    have hlen := flags_length hf (by rw [hcount]; exact (payloadCount_of_frameValid h.frame).1)
    rw [hcount] at hlen
    obtain ⟨rfl, rfl⟩ : a = j.payloadCount.toNat ∧ b = 0 := by omega
    exact verifyLoop_spec io h.frame h.batch _ m (Nat.le_refl _) h.inv h.stamped hf (fun k hk => by omega)
  | left + 1, m, hl, h => by
    obtain ⟨hi, -, hgo⟩ := h.step io (by omega)
    unfold commitLoop
    generalize commitOne io (j.payloadCount.toNat - (left + 1)) m = r at hi hgo
    obtain ⟨st, m1⟩ := r
    cases st with
    | some status => exact hi
    | none =>
      have hgo' := hgo rfl
      rw [show j.payloadCount.toNat - (left + 1) + 1 = j.payloadCount.toNat - left by omega] at hgo'
      exact commitLoop_spec io left m1 (by omega) hgo'

/-! ## Whole replays and histories -/

theorem thisRun_restart (past : List Event) : thisRun (.restart :: past) = [] := rfl

theorem journalValid_phase (hv : journalValid j = true) {a b c : Nat}
    (hf : j.live.map (·.flags) = progressFlags a b c) (phase : JournalPhase) (markers : Bool) (hne : phase ≠ .postBoot)
    (hph : phaseCountsOk { j with phase, rollbackMarkersPresent := markers } a c = true) :
    journalValid (recount { j with phase, rollbackMarkersPresent := markers }) = true := by
  obtain ⟨hst, hfr, -, -⟩ := (journalValid_iff _).1 hv
  exact journalValid_recount (j := { j with phase, rollbackMarkersPresent := markers }) hst
    (frameValid_of_reset_eq rfl hfr) (fun hc => absurd hc hne) hf hph

/-- **A rollback from a restart**: the invariant; a failed call on the trace unless it ends well; and on success every
payload rolled back. -/
theorem rollbackToTerminal_spec {m : Machine σ} (io : ReplayIo σ) (h : Inv j m)
    (hrun : thisRun m.trace = []) :
    Inv j (rollbackToTerminal io m).2 ∧
      (Replayable m.journal →
        ((rollbackToTerminal io m).1 ≠ .ok → ∃ e ∈ thisRun (rollbackToTerminal io m).2.trace, e.succeeded = false) ∧
        ((rollbackToTerminal io m).1 = .ok → (rollbackToTerminal io m).2.journal.phase = .rolledBack ∧
          ∀ i < j.payloadCount.toNat, ((rollbackToTerminal io m).2.journal.payload i).rolledBack = true)) := by
  unfold rollbackToTerminal
  split
  · rename_i hbad
    refine ⟨h, fun hr => ?_⟩
    simp [hr.1, hr.2.1, hr.2.2] at hbad
  · rename_i hgood
    have hv : journalValid m.journal = true := by
      cases hv : journalValid m.journal with
      | true => rfl
      | false => simp [hv] at hgood
    obtain ⟨-, hfrJ, -, a, b, c, hf, -, -, hph⟩ := (journalValid_iff _).1 hv
    have hfr : frameValid j := frameValid_of_reset_eq h.journal.frame.symm hfrJ
    have hcount := payloadCount_of_reset_eq h.journal.frame
    have hn := (payloadCount_of_frameValid hfr).1
    have hlen := flags_length hf (by rw [hcount]; exact hn)
    rw [hcount] at hlen
    split
    · rename_i hdone
      have hdone : m.journal.phase = .rolledBack := by simpa using hdone
      refine ⟨h, fun _ => ⟨fun hc => absurd rfl hc, fun _ => ⟨hdone, fun i hi => ?_⟩⟩⟩
      simp only [phaseCountsOk, hdone, Bool.and_eq_true, beq_iff_eq, hcount] at hph
      have hget := flags_payload hf (by rw [hcount]; exact hi) (by rw [hcount]; exact hn)
      rw [progressFlags_getElem?, if_neg (by omega), if_neg (by omega), if_pos (by omega)] at hget
      simp only [JournalPayload.flags, Option.some.injEq, Prod.mk.injEq] at hget
      exact hget.2
    · generalize hp : Machine.persist io
        { m with journal := recount { m.journal with phase := .rollback, rollbackMarkersPresent := true } } = q
      have hv' := journalValid_phase hv hf .rollback true (by decide) rfl
      obtain ⟨hi, ht, hpay, hcnt, hphase, hst⟩ := h.persistWith io
        (recount { m.journal with phase := .rollback, rollbackMarkersPresent := true })
        (h.journal.of_payloads rfl rfl) ⟨hv', fun hc => (by cases hc), fun hc => (by cases hc)⟩ (fun hc => by cases hc) q hp.symm
      obtain ⟨ok, m1⟩ := q
      dsimp only at hi ht hpay hcnt hphase hst ⊢
      rw [hrun] at ht
      cases ok with
      | false =>
        exact ⟨hi, fun _ => ⟨fun _ => ⟨_, by rw [ht]; exact List.mem_cons_self, rfl⟩, fun hc => by cases hc⟩⟩
      | true =>
        dsimp only
        have hat : RollbackAt j m1.journal.payloadCount.toNat m1 := by
          have hcnt' : m1.journal.payloadCount = j.payloadCount := payloadCount_of_reset_eq hi.journal.frame
          refine ⟨hi, hfr, hst, hphase, ⟨a, b, c, ?_, by rw [hcnt']; omega⟩, by rw [hcnt'], ?_, ?_⟩
          · rw [live_eq_of_payloads hpay hcnt]; exact hf
          · intro i e s hm
            rw [ht] at hm
            simp at hm
          · intro i h1 h2
            rw [hcnt'] at h1
            omega
        obtain ⟨h1, h2, h3⟩ := rollbackLoop_spec io _ m1 hat
        exact ⟨h1, fun _ => ⟨h2, h3⟩⟩

theorem resumeBatchForward_inv {m : Machine σ} (io : ReplayIo σ) (h : Inv j m)
    (hrun : thisRun m.trace = []) : Inv j (resumeBatchForward io m).2 := by
  unfold resumeBatchForward
  split
  · exact h
  rename_i hgood
  split
  · exact h
  split
  · exact h
  rename_i hphase
  have hv : journalValid m.journal = true := by
    cases hv : journalValid m.journal with
    | true => rfl
    | false => simp [hv] at hgood
  have hb : m.journal.batch = true := by
    cases hb : m.journal.batch with
    | true => rfl
    | false => simp [hb] at hgood
  obtain ⟨-, hfrJ, -, a, b, c, hf, -, -, hph⟩ := (journalValid_iff _).1 hv
  have hc : c = 0 := by
    have : m.journal.phase = .stage ∨ m.journal.phase = .commit := by
      by_contra hne
      rw [not_or] at hne
      simp [hne.1, hne.2] at hphase
    rcases this with hp | hp <;> simp [phaseCountsOk, hp] at hph
    · exact hph.2
    · exact hph
  subst hc
  generalize hp : Machine.persist io { m with journal := recount { m.journal with phase := .commit } } = q
  have hv' : journalValid (recount { m.journal with phase := .commit }) = true :=
    journalValid_phase hv hf .commit m.journal.rollbackMarkersPresent (by decide) rfl
  obtain ⟨hi, ht, hpay, hcnt, hphase, hst⟩ := h.persistWith io (recount { m.journal with phase := .commit })
    (h.journal.of_payloads rfl rfl) ⟨hv', fun hc => (by cases hc), fun hc => (by cases hc)⟩ (fun hc => by cases hc) q hp.symm
  obtain ⟨ok, m1⟩ := q
  dsimp only at hi ht hpay hcnt hphase hst ⊢
  rw [hrun] at ht
  cases ok with
  | false => exact hi
  | true =>
    dsimp only
    have hcnt' : m1.journal.payloadCount = j.payloadCount := payloadCount_of_reset_eq hi.journal.frame
    rw [hcnt']
    refine commitLoop_spec io _ m1 (Nat.le_refl _) ⟨hi, frameValid_of_reset_eq h.journal.frame.symm hfrJ,
      (batch_of_reset_eq h.journal.frame).symm.trans hb, hst, hphase, ⟨a, b, ?_, by omega⟩, by omega, ?_⟩
    · rw [live_eq_of_payloads hpay hcnt]; exact hf
    · intro k e s hm
      rw [ht] at hm
      simp at hm

theorem replays_inv (io : ReplayIo σ) : ∀ (rs : List Replay) (m : Machine σ), Inv j m →
    Inv j (replays io rs m)
  | [], _, h => h
  | .rollback :: rs, _, h =>
    replays_inv io rs _ (rollbackToTerminal_spec io h.restart (thisRun_restart _)).1
  | .forward :: rs, _, h => replays_inv io rs _ (resumeBatchForward_inv io h.restart (thisRun_restart _))

/-- **Replay is safe under every pattern of failures and restarts.**  From any journal, after any sequence of rollback and
forward replays, each started from the durable journal, every call has behind it what it must (`EventOk`): only valid
journals are persisted, markers only follow the successful call they stand for, rollbacks run from the last payload to
the first, commits in index order, and `post_boot` only follows a match of every target.  And when the history began at
a valid journal neither applied nor cleaned up, a further rollback whose calls all succeed ends in `rolled_back` with
every payload rolled back. -/
theorem replays_safe (io : ReplayIo σ) (world : σ) (j : TransactionJournal) (rs : List Replay) :
    HistoryOk j (replays io rs (Machine.boot world j)).trace ∧
    ∀ m : Machine σ, m = (replays io rs (Machine.boot world j)).restart →
      journalValid j = true → j.phase ≠ .applied → j.phase ≠ .cleanup →
      (∀ e ∈ thisRun (rollbackToTerminal io m).2.trace, e.succeeded = true) →
      (rollbackToTerminal io m).1 = .ok ∧ (rollbackToTerminal io m).2.journal.phase = .rolledBack ∧
      ∀ i < j.payloadCount.toNat, ((rollbackToTerminal io m).2.journal.payload i).rolledBack = true := by
  have hinv := replays_inv io rs _ (inv_boot world j)
  refine ⟨hinv.history, fun m hm hv h1 h2 hall => ?_⟩
  subst hm
  obtain ⟨hfail, hok⟩ := (rollbackToTerminal_spec io hinv.restart (thisRun_restart _)).2 (hinv.replayable ⟨hv, h1, h2⟩)
  have hst : (rollbackToTerminal io (replays io rs (Machine.boot world j)).restart).1 = .ok := by
    by_contra hne
    obtain ⟨e, he, hbad⟩ := hfail hne
    rw [hall e he] at hbad
    cases hbad
  exact ⟨hst, hok hst⟩

/-- An `io` on which every call succeeds. -/
def ioOk : ReplayIo Unit where
  persist := fun _ _ => (⟨true, true, 1, ⟨7, by decide⟩⟩, ())
  rollbackPayload := fun _ _ => (.ok, ())
  commitPayload := fun _ _ => (.ok, ())
  pathState := fun _ _ _ _ => (.match_, ())

/-- A batch of two targets in phase `stage`. -/
def stagedBatch : TransactionJournal :=
  { valid := true, transactionGeneration := 5, journalGeneration := 1, phase := .stage, packageLength := 1000
    packageVersion := ascii "1.0.0", sourceVersion := ascii "0.63.12", targetVersion := ascii "0.63.13"
    source := ascii "C:\\R4OS\\UPDATE\\INBOX\\PKG.R4U", packagePayloadCount := 2, payloadCount := 2, reboot := true
    batch := true
    payloads := Vector.ofFn (fun i =>
      if i.val = 0 then
        { target := ascii "C:\\R4OS\\SOFTWARE\\APP\\APP.R4X", size := 50, checksum := 60
          stage := (buildInternal83Name (ascii "C:\\R4OS\\SOFTWARE\\APP\\APP.R4X") 'S'.toUInt8 5 0).getD []
          backup := (buildInternal83Name (ascii "C:\\R4OS\\SOFTWARE\\APP\\APP.R4X") 'B'.toUInt8 5 0).getD [] }
      else if i.val = 1 then
        { target := ascii "C:\\R4OS\\SERVICES\\SSHD.R4X", size := 51, checksum := 61
          stage := (buildInternal83Name (ascii "C:\\R4OS\\SERVICES\\SSHD.R4X") 'S'.toUInt8 5 1).getD []
          backup := (buildInternal83Name (ascii "C:\\R4OS\\SERVICES\\SSHD.R4X") 'B'.toUInt8 5 1).getD [] }
      else {}) }

theorem replays_safe_stagedBatch :
    (rollbackToTerminal ioOk (replays ioOk [.forward] (Machine.boot () stagedBatch)).restart).1 = .ok ∧
    (replays ioOk [.forward] (Machine.boot () stagedBatch)).durable.phase = .postBoot := by
  refine ⟨((replays_safe ioOk () stagedBatch [.forward]).2 _ rfl ?_ ?_ ?_ ?_).1, ?_⟩ <;> decide +kernel

end Journal
end R4
