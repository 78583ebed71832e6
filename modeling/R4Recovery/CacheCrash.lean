import R4Recovery.CacheSafe
import R4Recovery.Sha256
/-!
# CacheCrash — every history of a ZIP transaction

An activation is cut anywhere, then recoveries are cut anywhere.  The states before the record is complete stay among
themselves, and so do the phases behind it.
-/
namespace R4
namespace Cache

open AtomicUpdate (File Dir)

/-- What a transaction starts from: a ZIP or none and a PART of an archive's size, each with a chain of its own, that
their fingerprints tell apart. -/
structure Start where
  old : Option File
  part : File
  small : 22 ≤ part.size
  fits : part.size ≤ maxArchiveBytes
  distinct : ∀ o ∈ old, o.size = part.size ∧ o.checksum = part.checksum → o.content = part.content
  apart : ∀ o ∈ old, o.cluster ≠ part.cluster

def Start.dir (s : Start) : Dir Slot := layout s.old (some s.part) none none none

variable {sha : Bytes → Bytes} {kind : Kind} {s : Start} {d : Dir Slot} {now : Nat}

/-! ## Before the record -/

/-- The durable states while no record is complete. -/
inductive Before (sha : Bytes → Bytes) (kind : Kind) (s : Start) : Dir Slot → Prop
  | start : Before sha kind s (layout s.old (some s.part) none none none)
  | torn {f : File} (hf : Record.decode sha f.content kind = .error .journal) :
      Before sha kind s (layout s.old (some s.part) none none (some f))
  | discarded {f : File} (hf : Record.decode sha f.content kind = .error .journal) :
      Before sha kind s (layout s.old none none none (some f))
  | clear : Before sha kind s (layout s.old none none none none)

theorem readRecord_torn {f : File} (hf : Record.decode sha f.content kind = .error .journal) {path : Slot} (h : d path = some f) :
    readRecord sha kind d path = .error .journal := by
  unfold readRecord
  rw [h]
  dsimp only
  by_cases hs : f.size ≠ Record.size
  · exact if_pos hs
  · rw [if_neg hs, hf]
    rfl

theorem fileDelete_run (path : Slot) (d : Dir Slot) : fileDelete path d = ([d.set path none], .ok (), d.set path none) := rfl

theorem removePrivatePart_none (h : d .part = none) : removePrivatePart d = ([], .ok (), d) := by
  unfold removePrivatePart
  rw [h]

theorem removePrivatePart_some (s : Start) (stage : Option File) :
    removePrivatePart (layout s.old (some s.part) none none stage) =
      ([layout s.old none none none stage], .ok (), layout s.old none none none stage) := by
  have hapart : s.old.any (fun zip => s.part.cluster != 0 && s.part.cluster == zip.cluster) = false := by
    cases ho : s.old with
    | none => rfl
    | some o => simp [Ne.symm (s.apart o ho)]
  have hdel : fileDelete .part (layout s.old (some s.part) none none stage) =
      ([layout s.old none none none stage], .ok (), layout s.old none none none stage) := by
    rw [fileDelete_run, set_part]
  unfold removePrivatePart
  refine (if_neg ?_).trans hdel
  rw [show layout s.old (some s.part) none none stage .zip = s.old from rfl, hapart]
  decide

theorem stagedRecord_torn {f : File} (hf : Record.decode sha f.content kind = .error .journal) {part : Option File}
    {p : List (Dir Slot)} (hpart : removePrivatePart (layout s.old part none none (some f)) =
      (p, .ok (), layout s.old none none none (some f))) :
    activeRecord sha kind (layout s.old part none none (some f)) =
      (p ++ [layout s.old none none none none], .ok none, layout s.old none none none none) := by
  have hdel : (fileDelete .journalStage >>= fun _ => (pure none : Act (Option Record))) (layout s.old none none none (some f)) =
      ([layout s.old none none none none], .ok none, layout s.old none none none none) := by
    refine Crashing.bind_run (a := ()) (p := [layout s.old none none none none]) (q := []) ?_ rfl
    rw [fileDelete_run, set_stage]
  unfold activeRecord
  refine (Crashing.read_bind (a := none) (by rw [readRecord_none rfl])).trans ?_
  dsimp only
  rw [expectAbsent_bind rfl]
  unfold stagedRecord
  refine (Crashing.read_bind (a := .error .journal) (by rw [readRecord_torn hf rfl])).trans ?_
  exact Crashing.bind_run hpart hdel

theorem recover_nothing {p : List (Dir Slot)} {d' : Dir Slot} (hjb : d .journalBackup = none)
    (hact : activeRecord sha kind d = (p, .ok none, d')) : recover sha kind now d = (p, .ok (), d') := by
  unfold recover
  rw [expectAbsent_bind hjb]
  refine (Crashing.bind_run (q := []) hact rfl).trans ?_
  rw [List.append_nil]

variable (now) in
/-- **Before the record `recover` leaves the old state.** -/
theorem recover_before (h : Before sha kind s d) :
    ∃ p d', recover sha kind now d = (p, .ok (), d') ∧ (∀ x ∈ p, Before sha kind s x) ∧
      d' .zip = s.old ∧ Before sha kind s d' := by
  cases h with
  | start => exact ⟨[], _, recover_nothing rfl (activeRecord_stage rfl rfl (readRecord_none rfl)), by simp, rfl, .start⟩
  | clear => exact ⟨[], _, recover_nothing rfl (activeRecord_stage rfl rfl (readRecord_none rfl)), by simp, rfl, .clear⟩
  | torn hf =>
    refine ⟨_, _, recover_nothing rfl (stagedRecord_torn hf (removePrivatePart_some s _)), ?_, rfl, .clear⟩
    intro x hx
    rcases List.mem_pair.1 hx with rfl | rfl
    · exact .discarded hf
    · exact .clear
  | discarded hf =>
    refine ⟨_, _, recover_nothing rfl (stagedRecord_torn hf (removePrivatePart_none rfl)), ?_, rfl, .clear⟩
    intro x hx
    rw [List.mem_singleton.1 hx]
    exact .clear

/-! ## Activation -/

/-- The durable states once the record is complete. -/
def Behind (sha : Bytes → Bytes) (kind : Kind) (s : Start) (d : Dir Slot) : Prop :=
  ∃ (t : Replacement) (j : File), t.old = s.old ∧ t.part = s.part ∧ j.content = (t.record sha kind).encode sha ∧ Phase t j d

variable (now) in
theorem writeStage_run (torn : List (Torn sha kind)) (cluster : Nat) (record : Record) (zip part : Option File) :
    writeStage sha kind now torn cluster record (layout zip part none none none) =
      (torn.map (fun c => layout zip part none none (some (written c.1 cluster now))) ++
        [layout zip part none none (some (written (record.encode sha) cluster now))], .ok (),
        layout zip part none none (some (written (record.encode sha) cluster now))) := by
  unfold writeStage
  refine (Crashing.read_bind (a := ()) (by rfl)).trans ?_
  unfold Crashing.changeThrough
  simp only [List.map_map, Function.comp_def, set_stage]

variable (sha kind now) in
theorem activate_replaces (t : Replacement) (torn : List (Torn sha kind)) (cluster : Nat) {j : File}
    (hj : written ((t.record sha kind).encode sha) cluster now = j) :
    ∃ p z, activate sha kind now torn cluster (t.record sha kind).new (layout t.old (some t.part) none none none) =
      (torn.map (fun c => layout t.old (some t.part) none none (some (written c.1 cluster now))) ++
        layout t.old (some t.part) none none (some j) :: p, .ok (), layout (some z) none none none none) ∧
      Holds t.part z ∧ ∀ x ∈ p, Phase t j x := by
  have hjc : j.content = (t.record sha kind).encode sha := by rw [← hj]; rfl
  obtain ⟨q, z, hq, hz, hph⟩ := finish_publishing now hjc (.inl ⟨rfl, rfl⟩)
  have hpub : (publishJournal sha now (t.record sha kind) >>= fun _ => finish sha now (t.record sha kind))
      (layout t.old (some t.part) none none (some j)) = _ :=
    Crashing.bind_run (publishJournal_staged hjc) hq
  have hstage := writeStage_run now torn cluster (t.record sha kind) t.old (some t.part)
  rw [hj] at hstage
  refine ⟨[layout t.old (some t.part) none (some j) (some j), layout t.old (some t.part) none (some j) none] ++ q, z, ?_, hz, ?_⟩
  · unfold activate
    rw [fingerprint_bind (fingerprint_part (Holds.refl t.part) rfl : fingerprintOf sha _ _ = .ok (some (t.record sha kind).new)), Crashing.refuse_bind (by simp),
      fingerprint_bind (fingerprint_old rfl : fingerprintOf sha _ _ = .ok (t.record sha kind).old), if_neg old_ne_new]
    refine (Crashing.bind_run hstage hpub).trans ?_
    rw [List.append_assoc, List.singleton_append]
  · intro x hx
    rcases List.mem_append.1 hx with hx | hx
    · rcases List.mem_pair.1 hx with rfl | rfl
      · exact .published
      · exact .journaled
    · exact hph x hx

/-- A complete record is durable under TXN or TMP. -/
def HasRecord (sha : Bytes → Bytes) (kind : Kind) (d : Dir Slot) : Prop :=
  ∃ record, readRecord sha kind d .journal = .ok (some record) ∨ readRecord sha kind d .journalStage = .ok (some record)

/-- The new archive is in place and nothing else of the transaction is left. -/
structure Settled (s : Start) (d : Dir Slot) : Prop where
  zip : ∃ z, d .zip = some z ∧ z.content = s.part.content
  part : d .part = none
  backup : d .backup = none
  journal : d .journal = none
  journalStage : d .journalStage = none
  journalBackup : d .journalBackup = none

theorem settled_done {zip : File} (h : zip.content = s.part.content) : Settled s (layout (some zip) none none none none) where
  zip := ⟨zip, rfl, h⟩
  part := rfl
  backup := rfl
  journal := rfl
  journalStage := rfl
  journalBackup := rfl

def Start.replacement (s : Start) (hfits : ∀ o ∈ s.old, o.size ≤ maxArchiveBytes)
    (hne : ∀ o ∈ s.old, o.content ≠ s.part.content) : Replacement where
  old := s.old
  part := s.part
  small := s.small
  fits := s.fits
  oldFits := hfits
  differs := fun o ho h => hne o ho (s.distinct o ho h)
  apart := s.apart

/-- What an activation passes: states before the record, then states behind it, the first of them with the record; and
how it ends. -/
structure Activation (sha : Bytes → Bytes) (kind : Kind) (s : Start) (run : List (Dir Slot) × (Except Error Unit × Dir Slot)) : Prop where
  passes : ∃ front back, run.1 = front ++ back ∧ (∀ x ∈ front, Before sha kind s x) ∧ (∀ x ∈ back, Behind sha kind s x) ∧
    ∀ x ∈ back.head?, HasRecord sha kind x
  ends : run.2.1 = .ok () → Settled s run.2.2

theorem activation_failed (e : Error) (d : Dir Slot) : Activation sha kind s ([], .error e, d) where
  passes := ⟨[], [], rfl, by simp, by simp, by simp⟩
  ends := by simp

theorem activation_same {o : File} (ho : s.old = some o) (h : o.content = s.part.content) :
    Activation sha kind s (removePrivatePart s.dir) := by
  have hrun : removePrivatePart s.dir = _ := removePrivatePart_some s none
  rw [hrun]
  refine ⟨⟨[layout s.old none none none none], [], rfl, ?_, by simp, by simp⟩, fun _ => ?_⟩
  · intro x hx
    rw [List.mem_singleton.1 hx]
    exact .clear
  · rw [ho]
    exact settled_done h

theorem activation_replaces (hsha : ∀ b, (sha b).length = 32) (hfits : ∀ o ∈ s.old, o.size ≤ maxArchiveBytes)
    (hne : ∀ o ∈ s.old, o.content ≠ s.part.content) (torn : List (Torn sha kind)) (cluster : Nat) :
    Activation sha kind s (activate sha kind now torn cluster (File.fingerprint sha s.part) s.dir) ∧
    (activate sha kind now torn cluster (File.fingerprint sha s.part) s.dir).2.1 = .ok () := by
  obtain ⟨p, z, hrun, hz, hph⟩ := activate_replaces sha kind now (s.replacement hfits hne) torn cluster rfl
  have hrun : activate sha kind now torn cluster (File.fingerprint sha s.part) s.dir = _ := hrun
  have hbehind : ∀ {x : Dir Slot}, Phase (s.replacement hfits hne)
      (written (((s.replacement hfits hne).record sha kind).encode sha) cluster now) x → Behind sha kind s x :=
    fun hx => ⟨_, _, rfl, rfl, rfl, hx⟩
  rw [hrun]
  refine ⟨⟨⟨_, _, rfl, ?_, ?_, ?_⟩, fun _ => settled_done hz.1⟩, rfl⟩
  · intro x hx
    obtain ⟨c, _, rfl⟩ := List.mem_map.1 hx
    exact .torn c.2
  · intro x hx
    rcases List.mem_cons.1 hx with rfl | hx
    · exact hbehind .staged
    · exact hbehind (hph x hx)
  · intro x hx
    rw [List.head?_cons, Option.mem_some_iff] at hx
    rw [← hx]
    exact ⟨_, .inr (readRecord_record hsha rfl rfl)⟩

theorem fingerprintOf_some {path : Slot} {f : File} (h : d path = some f) :
    fingerprintOf sha d path = if maxArchiveBytes < f.size then .error .conflict else .ok (some (File.fingerprint sha f)) := by
  unfold fingerprintOf
  rw [h]

/-- **What any activation passes, and how it ends.** -/
theorem activation (hsha : ∀ b, (sha b).length = 32) (s : Start) (torn : List (Torn sha kind)) (cluster : Nat)
    (validated : Fingerprint) : Activation sha kind s (activate sha kind now torn cluster validated s.dir) := by
  have hpart : fingerprintOf sha s.dir .part = .ok (some (File.fingerprint sha s.part)) := if_neg (Nat.not_lt.2 s.fits)
  by_cases hv : validated = File.fingerprint sha s.part
  · subst hv
    by_cases hfits : ∀ o ∈ s.old, o.size ≤ maxArchiveBytes
    · by_cases hne : ∀ o ∈ s.old, o.content ≠ s.part.content
      · exact (activation_replaces hsha hfits hne torn cluster).1
      · push Not at hne
        obtain ⟨o, ho, hc⟩ := hne
        have hfp : File.fingerprint sha o = File.fingerprint sha s.part := by
          unfold File.fingerprint AtomicUpdate.File.size AtomicUpdate.File.checksum
          rw [hc]
        have hzip : fingerprintOf sha s.dir .zip = .ok (some (File.fingerprint sha s.part)) := by
          rw [fingerprintOf_some ho, if_neg (Nat.not_lt.2 (hfits o ho)), hfp]
        unfold activate
        rw [fingerprint_bind hpart, Crashing.refuse_bind (by simp), fingerprint_bind hzip, if_pos rfl]
        exact activation_same ho hc
    · push Not at hfits
      obtain ⟨o, ho, hc⟩ := hfits
      have hzip : fingerprint sha .zip s.dir = ([], .error .conflict, s.dir) := by
        have hfail : fingerprintOf sha s.dir .zip = .error .conflict := by rw [fingerprintOf_some ho, if_pos hc]
        exact congrArg (fun r => ([], r, s.dir)) hfail
      unfold activate
      rw [fingerprint_bind hpart, Crashing.refuse_bind (by simp), Crashing.bind_fail hzip]
      exact activation_failed _ _
  · have hbad : (some (File.fingerprint sha s.part) != some validated) = true := by simpa using Ne.symm hv
    have hrefused : Crashing.refuse (some (File.fingerprint sha s.part) != some validated) Error.conflict s.dir =
        ([], .error .conflict, s.dir) := by
      unfold Crashing.refuse
      rw [if_pos hbad]
    unfold activate
    rw [fingerprint_bind hpart, Crashing.bind_fail hrefused]
    exact activation_failed _ _

/-! ## Histories -/

/-- The durable states of a transaction, the latest first: an activation that is cut behind the first `k` states it
passes, then recoveries that are cut the same way. -/
inductive History (sha : Bytes → Bytes) (kind : Kind) (s : Start) : List (Dir Slot) → Prop
  | activate (now : Nat) (torn : List (Torn sha kind)) (cluster : Nat) (validated : Fingerprint) (k : Nat) :
      History sha kind s (((activate sha kind now torn cluster validated s.dir).1.take k).reverse ++ [s.dir])
  | recover {d : Dir Slot} {seen : List (Dir Slot)} (h : History sha kind s (d :: seen)) (now k : Nat) :
      History sha kind s (((recover sha kind now d).1.take k).reverse ++ d :: seen)

/-- No record yet, or a record was there and the latest state is behind it. -/
def Tracked (sha : Bytes → Bytes) (kind : Kind) (s : Start) (seen : List (Dir Slot)) : Prop :=
  (∀ x ∈ seen, Before sha kind s x) ∨
  ((∀ x ∈ seen, Before sha kind s x ∨ Behind sha kind s x) ∧ (∃ x ∈ seen, HasRecord sha kind x) ∧
    ∀ x ∈ seen.head?, Behind sha kind s x)

theorem mem_head_reverse {α : Type} {l rest : List α} {x y : α} (h : x ∈ (l.reverse ++ y :: rest).head?) : x ∈ l ∨ x = y := by
  cases hl : l.reverse with
  | nil =>
    rw [hl, List.nil_append, List.head?_cons, Option.mem_some_iff] at h
    exact .inr h.symm
  | cons a as =>
    rw [hl, List.cons_append, List.head?_cons, Option.mem_some_iff] at h
    left
    rw [← List.mem_reverse, hl, ← h]
    exact List.mem_cons_self

theorem tracked_activation {run : List (Dir Slot) × (Except Error Unit × Dir Slot)} (h : Activation sha kind s run) (k : Nat) :
    Tracked sha kind s ((run.1.take k).reverse ++ [s.dir]) := by
  obtain ⟨front, back, he, hf, hb, hr⟩ := h.passes
  rw [he, List.take_append]
  have hfront : ∀ x ∈ front.take k, Before sha kind s x := fun x hx => hf x (List.mem_of_mem_take hx)
  have hback : ∀ x ∈ back.take (k - front.length), Behind sha kind s x := fun x hx => hb x (List.mem_of_mem_take hx)
  cases hcut : back.take (k - front.length) with
  | nil =>
    left
    intro x hx
    rw [List.append_nil, List.mem_append, List.mem_reverse, List.mem_singleton] at hx
    rcases hx with hx | rfl
    · exact hfront x hx
    · exact .start
  | cons y ys =>
    right
    rw [hcut] at hback
    have hhead : HasRecord sha kind y := by
      refine hr y ?_
      cases back with
      | nil => rw [List.take_nil] at hcut; cases hcut
      | cons b bs =>
        cases hk : k - front.length with
        | zero => rw [hk, List.take_zero] at hcut; cases hcut
        | succ n =>
          rw [hk, List.take_succ_cons] at hcut
          cases hcut
          rfl
    refine ⟨?_, ⟨y, by simp, hhead⟩, ?_⟩
    · intro x hx
      rw [List.mem_append, List.mem_reverse, List.mem_append, List.mem_singleton] at hx
      rcases hx with (hx | hx) | rfl
      · exact .inl (hfront x hx)
      · exact .inr (hback x hx)
      · exact .inl .start
    · intro x hx
      rw [List.reverse_append, List.reverse_cons, List.append_assoc, List.append_assoc, List.singleton_append] at hx
      rcases mem_head_reverse hx with hx | rfl
      · exact hback x (List.mem_cons_of_mem _ hx)
      · exact hback _ List.mem_cons_self

variable (now) in
theorem recover_behind (hsha : ∀ b, (sha b).length = 32) (h : Behind sha kind s d) :
    ∃ p d', recover sha kind now d = (p, .ok (), d') ∧ (∀ x ∈ p, Behind sha kind s x) ∧ Settled s d' := by
  obtain ⟨t, j, ho, hp, hj, hph⟩ := h
  obtain ⟨p, z, hrun, hz, hpass⟩ := recover_phase now hsha hj hph
  refine ⟨p, _, hrun, fun x hx => ⟨t, j, ho, hp, hj, hpass x hx⟩, settled_done ?_⟩
  rw [hz.1, hp]

theorem tracked_recovery (hsha : ∀ b, (sha b).length = 32) {seen : List (Dir Slot)} (h : Tracked sha kind s (d :: seen)) (k : Nat) :
    Tracked sha kind s (((recover sha kind now d).1.take k).reverse ++ d :: seen) := by
  rcases h with h | ⟨hall, ⟨r, hr, hrec⟩, hhead⟩
  · obtain ⟨p, d', hrun, hp, _⟩ := recover_before now (h d List.mem_cons_self)
    rw [hrun]
    left
    intro x hx
    rw [List.mem_append, List.mem_reverse] at hx
    rcases hx with hx | hx
    · exact hp x (List.mem_of_mem_take hx)
    · exact h x hx
  · obtain ⟨p, d', hrun, hp, _⟩ := recover_behind now hsha (hhead d rfl)
    rw [hrun]
    refine .inr ⟨?_, ⟨r, List.mem_append_right _ hr, hrec⟩, ?_⟩
    · intro x hx
      rw [List.mem_append, List.mem_reverse] at hx
      rcases hx with hx | hx
      · exact .inr (hp x (List.mem_of_mem_take hx))
      · exact hall x hx
    · intro x hx
      rcases mem_head_reverse hx with hx | rfl
      · exact hp x (List.mem_of_mem_take hx)
      · exact hhead x rfl

theorem tracked (hsha : ∀ b, (sha b).length = 32) {seen : List (Dir Slot)} (h : History sha kind s seen) :
    Tracked sha kind s seen := by
  induction h with
  | activate now torn cluster validated k => exact tracked_activation (activation hsha s torn cluster validated) k
  | recover _ now k ih => exact tracked_recovery hsha ih k

/-! ## What every state keeps -/

/-- The ZIP is the old state or the new archive; the old archive stays under ZIP or BAK until the new one is in place and
PART is gone. -/
structure Kept (s : Start) (d : Dir Slot) : Prop where
  zip : d .zip = s.old ∨ ∃ z, d .zip = some z ∧ z.content = s.part.content
  old : ∀ o ∈ s.old, d .zip = some o ∨ d .backup = some o ∨
    (d .part = none ∧ ∃ z, d .zip = some z ∧ z.content = s.part.content)

theorem kept_old (h : d .zip = s.old) : Kept s d := ⟨.inl h, fun _ ho => .inl (h.trans ho)⟩

theorem kept_before (h : Before sha kind s d) : Kept s d := kept_old (by cases h <;> rfl)

theorem kept_behind (h : Behind sha kind s d) : Kept s d := by
  obtain ⟨t, j, ho, hp, hj, hph⟩ := h
  have hnew : ∀ {z : File}, Holds t.part z → z.content = s.part.content := fun hz => by rw [hz.1, hp]
  cases hph with
  | staged => exact kept_old ho
  | published => exact kept_old ho
  | journaled => exact kept_old ho
  | backed hb => exact kept_old (hb.symm.trans ho)
  | @switched z hz => exact ⟨.inr ⟨z, rfl, hnew hz⟩, fun _ h => .inr (.inl (ho.trans h))⟩
  | @detached z b hz hb => exact ⟨.inr ⟨z, rfl, hnew hz⟩, fun _ _ => .inr (.inr ⟨rfl, z, rfl, hnew hz⟩)⟩
  | @done z hz => exact ⟨.inr ⟨z, rfl, hnew hz⟩, fun _ _ => .inr (.inr ⟨rfl, z, rfl, hnew hz⟩)⟩

theorem before_noRecord (h : Before sha kind s d) : ¬ HasRecord sha kind d := by
  rintro ⟨record, h1 | h1⟩
  · have hn : d .journal = none := by cases h <;> rfl
    rw [readRecord_none hn] at h1
    cases h1
  · cases h with
    | start => cases h1
    | clear => cases h1
    | torn hf => rw [readRecord_torn hf rfl] at h1; cases h1
    | discarded hf => rw [readRecord_torn hf rfl] at h1; cases h1

/-- What a recovery that is not cut leaves of the latest state of a history. -/
def Recovers (s : Start) (kind : Kind) (d : Dir Slot) (seen : List (Dir Slot)) : Prop :=
  ∀ now, ∃ p d', recover Sha256.hash kind now d = (p, .ok (), d') ∧
    ((∃ x ∈ d :: seen, HasRecord Sha256.hash kind x) → Settled s d') ∧
    ((¬ ∃ x ∈ d :: seen, HasRecord Sha256.hash kind x) → d' .zip = s.old)

/-- **The ZIP transaction is atomic across crashes.**  In every durable state of every history the ZIP is the old state
or the complete new archive, and the old one is not deleted before the new one is in place; a recovery that is not cut
succeeds and leaves the new archive alone if a complete record was ever durable, the old state if none was; and an
activation that succeeds leaves the new archive alone. -/
theorem cache_transaction_atomic (s : Start) {seen : List (Dir Slot)} (h : History Sha256.hash kind s (d :: seen)) :
    (∀ x ∈ d :: seen, Kept s x) ∧ Recovers s kind d seen ∧
    (∀ now torn cluster validated, (activate Sha256.hash kind now torn cluster validated s.dir).2.1 = .ok () →
      Settled s (activate Sha256.hash kind now torn cluster validated s.dir).2.2) ∧
    ((∀ o ∈ s.old, o.size ≤ maxArchiveBytes ∧ o.content ≠ s.part.content) → ∀ now torn cluster,
      (activate Sha256.hash kind now torn cluster (File.fingerprint Sha256.hash s.part) s.dir).2.1 = .ok ()) := by
  refine ⟨?_, ?_, ?_, ?_⟩
  · rcases tracked Sha256.length_hash h with hall | ⟨hall, _⟩
    · exact fun x hx => kept_before (hall x hx)
    · intro x hx
      rcases hall x hx with hb | hb
      · exact kept_before hb
      · exact kept_behind hb
  · intro now
    rcases tracked Sha256.length_hash h with hall | ⟨_, hrec, hhead⟩
    · obtain ⟨p, d', hrun, _, hzip, _⟩ := recover_before now (hall d List.mem_cons_self)
      refine ⟨p, d', hrun, ?_, fun _ => hzip⟩
      rintro ⟨x, hx, hr⟩
      exact absurd hr (before_noRecord (hall x hx))
    · obtain ⟨p, d', hrun, _, hset⟩ := recover_behind now Sha256.length_hash (hhead d rfl)
      exact ⟨p, d', hrun, fun _ => hset, fun hno => absurd hrec hno⟩
  · intro now torn cluster validated
    exact (activation Sha256.length_hash s torn cluster validated).ends
  · intro hold now torn cluster
    exact (activation_replaces Sha256.length_hash (fun o ho => (hold o ho).1) (fun o ho => (hold o ho).2) torn cluster).2

/-- An archive of twenty-two bytes in place of one of three. -/
def smallStart : Start where
  old := some { content := [1, 2, 3], cluster := 5, placed := by decide }
  part := { content := List.replicate 22 7, cluster := 9, placed := by decide }
  small := by decide
  fits := by decide
  distinct := by decide
  apart := by decide

theorem cache_transaction_staged : ∃ d, History Sha256.hash .r4os smallStart [d, smallStart.dir] ∧ d ≠ smallStart.dir ∧
    Recovers smallStart .r4os d [smallStart.dir] := by
  have hfits : ∀ o ∈ smallStart.old, o.size ≤ maxArchiveBytes := by decide
  have hne : ∀ o ∈ smallStart.old, o.content ≠ smallStart.part.content := by decide
  obtain ⟨p, z, hrun, _⟩ := activate_replaces Sha256.hash .r4os 3
    (smallStart.replacement hfits hne) [] 4 rfl
  have hrun : activate Sha256.hash .r4os 3 [] 4 (File.fingerprint Sha256.hash smallStart.part) smallStart.dir = _ := hrun
  have hist : History Sha256.hash .r4os smallStart _ := History.activate 3 [] 4
    (File.fingerprint Sha256.hash smallStart.part) 1
  rw [hrun] at hist
  refine ⟨_, hist, ?_, (cache_transaction_atomic smallStart hist).2.1⟩
  intro heq
  cases congrFun heq .journalStage

end Cache
end R4
