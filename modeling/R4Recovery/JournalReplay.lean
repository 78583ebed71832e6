import R4Recovery.JournalProgress
/-!
# JournalReplay — rollback and forward replay of an interrupted update

`rollbackToTerminal` and `resumeBatchForward` of `system_update_recovery.zig`, over an `io` whose answers are free: every
call may fail, and a refused `persist` may still have reached the disk.  A machine keeps the journal in memory, the
journal a restart would read, and the calls made, newest first.  A history is any sequence of replays, each started from
the durable journal.
-/
namespace R4
namespace Journal

inductive MutationStatus where
  | ok | conflict | io
  deriving DecidableEq, Repr

inductive PathState where
  | match_ | notFound | other | io
  deriving DecidableEq, Repr

inductive ReplayStatus where
  | ok | invalid | conflict | io
  deriving DecidableEq, Repr

/-- What one `persist` call did.  The adapters (`writeInactiveJournal`, `writeRecoveryJournal`) stamp the inactive slot
and the next generation; a call that answers `false` restores the fields in memory but may have written the slot. -/
structure Persisted where
  accepted : Bool
  reached : Bool
  slot : Fin 2
  generation : { g : UInt64 // g ≠ 0 }

def Persisted.stamp (p : Persisted) (j : TransactionJournal) : TransactionJournal :=
  { j with valid := true, slot := UInt8.ofNat p.slot.val, journalGeneration := p.generation.val }

structure ReplayIo (σ : Type) where
  persist : σ → TransactionJournal → Persisted × σ
  rollbackPayload : σ → JournalPayload → MutationStatus × σ
  commitPayload : σ → JournalPayload → MutationStatus × σ
  pathState : σ → Bytes → UInt64 → UInt32 → PathState × σ

/-- A call with what it was handed, the number of its payload and its answer. -/
inductive Event where
  | restart
  | persist (journal : TransactionJournal) (accepted : Bool)
  | rollback (index : Nat) (entry : JournalPayload) (status : MutationStatus)
  | commit (index : Nat) (entry : JournalPayload) (status : MutationStatus)
  | target (index : Nat) (path : Bytes) (size : UInt64) (checksum : UInt32) (state : PathState)
  deriving DecidableEq

def Event.isRestart : Event → Bool
  | .restart => true
  | _ => false

def Event.succeeded : Event → Bool
  | .restart => true
  | .persist _ accepted => accepted
  | .rollback _ _ status => status == .ok
  | .commit _ _ status => status == .ok
  | .target _ _ _ _ state => state == .match_

structure Machine (σ : Type) where
  world : σ
  journal : TransactionJournal
  durable : TransactionJournal
  trace : List Event

variable {σ : Type}

def TransactionJournal.payload (j : TransactionJournal) (index : Nat) : JournalPayload := j.payloads.toList.getD index {}

def TransactionJournal.setPayload (j : TransactionJournal) (index : Nat) (entry : JournalPayload) : TransactionJournal :=
  { j with payloads := j.payloads.setIfInBounds index entry }

def JournalPayload.markRolledBack (entry : JournalPayload) : JournalPayload :=
  { entry with committed := false, rolledBack := true }

def JournalPayload.markCommitted (entry : JournalPayload) : JournalPayload :=
  { entry with committed := true, rolledBack := false }

def Machine.persist (io : ReplayIo σ) (m : Machine σ) : Bool × Machine σ :=
  let (p, world) := io.persist m.world m.journal
  (p.accepted,
    { world
      journal := if p.accepted then p.stamp m.journal else m.journal
      durable := if p.accepted || p.reached then p.stamp m.journal else m.durable
      trace := .persist m.journal p.accepted :: m.trace })

def Machine.rollbackPayload (io : ReplayIo σ) (m : Machine σ) (index : Nat) : MutationStatus × Machine σ :=
  let entry := m.journal.payload index
  let (status, world) := io.rollbackPayload m.world entry
  (status, { m with world, trace := .rollback index entry status :: m.trace })

def Machine.commitPayload (io : ReplayIo σ) (m : Machine σ) (index : Nat) : MutationStatus × Machine σ :=
  let entry := m.journal.payload index
  let (status, world) := io.commitPayload m.world entry
  (status, { m with world, trace := .commit index entry status :: m.trace })

def Machine.pathState (io : ReplayIo σ) (m : Machine σ) (index : Nat) : PathState × Machine σ :=
  let entry := m.journal.payload index
  let (state, world) := io.pathState m.world entry.target entry.size entry.checksum
  (state, { m with world, trace := .target index entry.target entry.size entry.checksum state :: m.trace })

/-- The last step of a replay: publish `phase`. -/
def finish (io : ReplayIo σ) (phase : JournalPhase) (m : Machine σ) : ReplayStatus × Machine σ :=
  match Machine.persist io { m with journal := recount { m.journal with phase } } with
  | (true, m) => (.ok, m)
  | (false, m) => (.io, m)

/-- The rollback of one payload: the checked transition, then the durable marker if it was not yet set.  `none` goes on. -/
def rollbackOne (io : ReplayIo σ) (index : Nat) (m : Machine σ) : Option ReplayStatus × Machine σ :=
  let entry := m.journal.payload index
  let (status, m) := if entry.replaceRequired then m.rollbackPayload io index else (.ok, m)
  match status with
  | .conflict => (some .conflict, m)
  | .io => (some .io, m)
  | .ok =>
    if entry.rolledBack then (none, m)
    else
      let journal := recount (m.journal.setPayload index entry.markRolledBack)
      match Machine.persist io { m with journal } with
      | (false, m) => (some .io, m)
      | (true, m) => (none, m)

def rollbackLoop (io : ReplayIo σ) : Nat → Machine σ → ReplayStatus × Machine σ
  | 0, m => finish io .rolledBack m
  | cursor + 1, m =>
    match rollbackOne io cursor m with
    | (some status, m) => (status, m)
    | (none, m) => rollbackLoop io cursor m

def rollbackToTerminal (io : ReplayIo σ) (m : Machine σ) : ReplayStatus × Machine σ :=
  if !journalValid m.journal || m.journal.phase == .applied || m.journal.phase == .cleanup then (.invalid, m)
  else if m.journal.phase == .rolledBack then (.ok, m)
  else
    match Machine.persist io
      { m with journal := recount { m.journal with phase := .rollback, rollbackMarkersPresent := true } } with
    | (false, m) => (.io, m)
    | (true, m) => rollbackLoop io m.journal.payloadCount.toNat m

/-- The commit of one payload, skipped when its marker is set.  `none` goes on. -/
def commitOne (io : ReplayIo σ) (index : Nat) (m : Machine σ) : Option ReplayStatus × Machine σ :=
  let entry := m.journal.payload index
  if entry.committed then (none, m)
  else
    let (status, m) := m.commitPayload io index
    match status with
    | .conflict => (some .conflict, m)
    | .io => (some .io, m)
    | .ok =>
      let journal := recount (m.journal.setPayload index entry.markCommitted)
      match Machine.persist io { m with journal } with
      | (false, m) => (some .io, m)
      | (true, m) => (none, m)

/-- The fingerprint check of every target; the last `left` of the payloads are still to be checked. -/
def verifyLoop (io : ReplayIo σ) (count : Nat) : Nat → Machine σ → ReplayStatus × Machine σ
  | 0, m => finish io .postBoot m
  | left + 1, m =>
    match m.pathState io (count - (left + 1)) with
    | (.match_, m) => verifyLoop io count left m
    | (.notFound, m) => (.conflict, m)
    | (.other, m) => (.conflict, m)
    | (.io, m) => (.io, m)

def commitLoop (io : ReplayIo σ) (count : Nat) : Nat → Machine σ → ReplayStatus × Machine σ
  | 0, m => verifyLoop io count count m
  | left + 1, m =>
    match commitOne io (count - (left + 1)) m with
    | (some status, m) => (status, m)
    | (none, m) => commitLoop io count left m

def resumeBatchForward (io : ReplayIo σ) (m : Machine σ) : ReplayStatus × Machine σ :=
  if !journalValid m.journal || !m.journal.batch then (.invalid, m)
  else if m.journal.phase == .postBoot then (.ok, m)
  else if m.journal.phase != .stage && m.journal.phase != .commit then (.invalid, m)
  else
    match Machine.persist io { m with journal := recount { m.journal with phase := .commit } } with
    | (false, m) => (.io, m)
    | (true, m) => commitLoop io m.journal.payloadCount.toNat m.journal.payloadCount.toNat m

/-! ## Histories -/

inductive Replay where
  | rollback | forward
  deriving DecidableEq, Repr

def Replay.run (io : ReplayIo σ) : Replay → Machine σ → ReplayStatus × Machine σ
  | .rollback => rollbackToTerminal io
  | .forward => resumeBatchForward io

/-- A restart: only the durable journal is left. -/
def Machine.restart (m : Machine σ) : Machine σ := { m with journal := m.durable, trace := .restart :: m.trace }

/-- Any sequence of replays, each from the durable journal of the one before. -/
def replays (io : ReplayIo σ) : List Replay → Machine σ → Machine σ
  | [], m => m
  | r :: rest, m => replays io rest (r.run io m.restart).2

def Machine.boot (world : σ) (j : TransactionJournal) : Machine σ := ⟨world, j, j, []⟩

/-- The calls of the running replay. -/
def thisRun (past : List Event) : List Event := past.takeWhile (fun e => !e.isRestart)

/-- Payload `k` was handed to a rollback, or to a commit, that succeeded; its target was found to match. -/
def RolledBack (k : Nat) (past : List Event) : Prop := ∃ entry, Event.rollback k entry .ok ∈ past

def Committed (k : Nat) (past : List Event) : Prop := ∃ entry, Event.commit k entry .ok ∈ past

def Matched (k : Nat) (past : List Event) : Prop := ∃ path size checksum, Event.target k path size checksum .match_ ∈ past

/-- **What one call must be handed and have behind it** (`past`, newest first), for a history that began at `j`. -/
def EventOk (j : TransactionJournal) (past : List Event) : Event → Prop
  | .restart => True
  | .persist journal _ =>
    journalValid journal = true ∧ journal.reset = j.reset ∧
    (∀ k < j.payloadCount.toNat, (journal.payload k).rolledBack = true → (j.payload k).replaceRequired = true →
      (j.payload k).rolledBack = true ∨ RolledBack k past) ∧
    (∀ k < j.payloadCount.toNat, (journal.payload k).committed = true →
      (j.payload k).committed = true ∨ Committed k past) ∧
    (journal.phase = .postBoot → ∀ k < j.payloadCount.toNat, Matched k (thisRun past))
  | .rollback k entry _ =>
    k < j.payloadCount.toNat ∧ entry.reset = (j.payload k).reset ∧
    (∀ i e s, Event.rollback i e s ∈ thisRun past → k < i) ∧
    (∀ i, k < i → i < j.payloadCount.toNat → (j.payload i).replaceRequired = true → RolledBack i (thisRun past))
  | .commit k entry _ =>
    k < j.payloadCount.toNat ∧ entry.reset = (j.payload k).reset ∧ ∀ i e s, Event.commit i e s ∈ thisRun past → i < k
  | .target k path size checksum _ =>
    k < j.payloadCount.toNat ∧ path = (j.payload k).target ∧ size = (j.payload k).size ∧ checksum = (j.payload k).checksum

/-- Every call of a history has behind it what it must. -/
def HistoryOk (j : TransactionJournal) : List Event → Prop
  | [] => True
  | e :: past => EventOk j past e ∧ HistoryOk j past

end Journal
end R4
