import R4Recovery.Crash
import R4Recovery.JournalText
/-!
# AtomicUpdate — the checked ownership transition over a directory

`system_update_atomic.transition` over a directory of regular files, with the ownership transfer of
`fat32.replaceFileAtomic` as the steps between its flushes: the old file is published under the backup name, the target
is switched to the staged file, the staged name is detached.  Each is durable when it is there.
-/
namespace R4
namespace AtomicUpdate

/-- A regular file: its bytes, the first cluster of its chain, and the time stamps of its entry.  An empty file has no
chain. -/
structure File where
  content : Bytes
  cluster : Nat
  created : Nat := 0
  modified : Nat := 0
  placed : cluster = 0 ↔ content = []
  deriving DecidableEq

def File.size (f : File) : Nat := f.content.length

def File.checksum (f : File) : UInt32 := Journal.checksum f.content

variable {N : Type} [DecidableEq N]

abbrev Dir (N : Type) : Type := N → Option File

def Dir.set (d : Dir N) (name : N) (f : Option File) : Dir N := fun n => if n = name then f else d n

inductive Direction where
  | forward | rollback
  deriving DecidableEq

/-- The results but `ok`. -/
inductive Result where
  | conflict | io | notAtomic
  deriving DecidableEq, Repr

structure Spec where
  longStage : Bool := false
  targetExisted : Bool
  oldKnown : Bool
  newSize : Nat
  newChecksum : UInt32
  oldSize : Nat := 0
  oldChecksum : UInt32 := 0

inductive Content where
  | missing | new | old | other
  deriving DecidableEq, Repr

structure Observed where
  entry : Option File := none
  content : Content := .missing

def observe (spec : Spec) (d : Dir N) (name : N) : Observed :=
  match d name with
  | none => {}
  | some f =>
    { entry := some f
      content :=
        if f.size = spec.newSize ∧ f.checksum = spec.newChecksum then .new
        else if spec.oldKnown ∧ f.size = spec.oldSize ∧ f.checksum = spec.oldChecksum then .old
        else .other }

/-- One chain, or two empty files with the same stamps. -/
def sameFileRecoveryIdentity (a b : File) : Bool :=
  (a.size != 0 && a.cluster != 0 && a.cluster == b.cluster && a.size == b.size) ||
  (a.cluster == 0 && b.cluster == 0 && a.size == 0 && b.size == 0 && a.created == b.created &&
    a.modified == b.modified)

def sameFileOwnership (a b : File) : Bool := a.cluster == b.cluster && a.size == b.size

/-- Two entries, if both are there, are one file. -/
def sameIfBoth (a b : Option File) : Bool :=
  match a, b with
  | some f, some g => sameFileRecoveryIdentity f g
  | _, _ => true

def existingStateAllowed (spec : Spec) (target stage backup : Observed) : Bool :=
  if stage.content ≠ .missing ∧ stage.content ≠ .new then false
  else if spec.oldKnown then
    if backup.content ≠ .missing ∧ backup.content ≠ .old then false
    else match target.content with
      | .old => sameIfBoth target.entry backup.entry
      | .missing => backup.content == .old && stage.content == .new
      | .new => backup.content == .old && sameIfBoth target.entry stage.entry
      | .other => false
  else if target.content ≠ .other then false
  else match backup.entry with
    | none => true
    | some _ => backup.content == .other && sameIfBoth target.entry backup.entry

def createStateAllowed (target stage backup : Observed) : Bool :=
  backup.content == .missing && (target.content == .missing || target.content == .new) &&
  (stage.content == .missing || stage.content == .new) && sameIfBoth target.entry stage.entry

abbrev Update (N α : Type) : Type := Crashing (Dir N) Result α

def put (name : N) (f : Option File) : Update N Unit := Crashing.change (fun d => d.set name f)

/-- The target's entry switched to the staged file: it keeps its creation time and is modified `now`. -/
def File.switched (t s : File) (now : Nat) : File := { s with created := t.created, modified := now }

/-- `replaceFileAtomic` on regular files. -/
def replaceFileAtomic (now : Nat) (target staged backup : N) : Update N Unit := do
  let entries ← Crashing.read (fun d => .ok (d target, d staged, d backup))
  match entries with
  | (none, none, _) => Crashing.fail .conflict
  | (some _, none, _) => pure ()
  | (none, some _, some _) => Crashing.fail .conflict
  | (none, some s, none) => do
    put target (some s)
    put staged none
  | (some t, some s, b) =>
    if sameFileOwnership t s then put staged none
    else match b with
      | some o =>
        if !sameFileOwnership o t then Crashing.fail .conflict
        else do
          put target (some (t.switched s now))
          put staged none
      | none => do
        put backup (some t)
        put target (some (t.switched s now))
        put staged none

def deleteObserved (name : N) : Update N Unit := put name none

/-- The new file under this name, if it is there, is deleted. -/
def deleteNew (o : Observed) (name : N) : Update N Unit :=
  match o.entry with
  | none => pure ()
  | some _ => do
    Crashing.refuse (o.content != .new) .conflict
    deleteObserved name

def observing (spec : Spec) (target stage backup : N) : Update N (Observed × Observed × Observed) :=
  Crashing.read (fun d => .ok (observe spec d target, observe spec d stage, observe spec d backup))

def verifyExistingTerminal (target stage backup : N) (direction : Direction) (spec : Spec) : Update N Unit := do
  let (t, s, b) ← observing spec target stage backup
  match direction with
  | .forward => Crashing.refuse (t.content != .new || s.content != .missing || b.content != .old) .conflict
  | .rollback => do
    Crashing.refuse (t.content != .old || b.content != .missing) .conflict
    deleteNew s stage
    let (t, s, _) ← observing spec target stage backup
    Crashing.refuse (t.content != .old || s.content != .missing) .conflict

def finishExistingForward (now : Nat) (target stage backup : N) (o : Observed × Observed × Observed) (spec : Spec) : Update N Unit := do
  Crashing.unlessDone (o.1.content == .new && o.2.1.content == .missing && o.2.2.content == .old)
    (replaceFileAtomic now target stage backup)
  verifyExistingTerminal target stage backup .forward spec

def finishExistingRollback (now : Nat) (target stage backup : N) (o : Observed × Observed × Observed) (spec : Spec) : Update N Unit :=
  if o.1.content == .old && o.2.2.content == .missing then verifyExistingTerminal target stage backup .rollback spec
  else do
    finishExistingForward now target stage backup o spec
    replaceFileAtomic now target backup stage
    verifyExistingTerminal target stage backup .rollback spec

/-- An old file whose fingerprint the journal does not have. -/
def finishLegacyRollback (now : Nat) (target stage backup : N) (o : Observed × Observed × Observed) (spec : Spec) : Update N Unit := do
  Crashing.unlessDone o.2.2.entry.isNone (do
    Crashing.refuse (o.2.1.content != .new) .conflict
    replaceFileAtomic now target stage backup
    replaceFileAtomic now target backup stage)
  let (t, s, b) ← observing spec target stage backup
  Crashing.refuse (t.content != .other || b.content != .missing) .conflict
  deleteNew s stage
  let (t, s, _) ← observing spec target stage backup
  Crashing.refuse (t.content != .other || s.content != .missing) .conflict

def finishCreateForward (now : Nat) (target stage backup : N) (o : Observed × Observed × Observed) (spec : Spec) : Update N Unit := do
  Crashing.unlessDone (o.1.content == .new && o.2.1.content == .missing) (replaceFileAtomic now target stage backup)
  let (t, s, b) ← observing spec target stage backup
  Crashing.refuse (t.content != .new || s.content != .missing || b.content != .missing) .conflict

def finishCreateRollback (now : Nat) (target stage backup : N) (o : Observed × Observed × Observed) (spec : Spec) : Update N Unit := do
  Crashing.unlessDone (!(o.1.entry.isSome && o.2.1.entry.isSome)) (replaceFileAtomic now target stage backup)
  let (t, s, b) ← observing spec target stage backup
  Crashing.refuse (b.content != .missing) .conflict
  deleteNew t target
  deleteNew s stage
  let (t, s, _) ← observing spec target stage backup
  Crashing.refuse (t.content != .missing || s.content != .missing) .conflict

/-- `short` is `validateShortName83` of the names, `now` the time of the run. -/
def transition (short : N → Bool) (now : Nat) (target stage backup : N) (direction : Direction) (spec : Spec) : Update N Unit := do
  Crashing.refuse ((!short stage && !spec.longStage) || !short backup) .conflict
  Crashing.refuse (spec.longStage && direction != .forward) .notAtomic
  Crashing.refuse (target == stage || target == backup || stage == backup) .conflict
  Crashing.refuse (!spec.targetExisted && spec.oldKnown) .conflict
  let o ← observing spec target stage backup
  if spec.targetExisted then do
    Crashing.refuse (!existingStateAllowed spec o.1 o.2.1 o.2.2) .conflict
    if !spec.oldKnown then do
      Crashing.refuse (o.1.content != .other) .conflict
      finishLegacyRollback now target stage backup o spec
    else match direction with
      | .forward => finishExistingForward now target stage backup o spec
      | .rollback => finishExistingRollback now target stage backup o spec
  else do
    Crashing.refuse (!createStateAllowed o.1 o.2.1 o.2.2) .conflict
    match direction with
    | .forward => finishCreateForward now target stage backup o spec
    | .rollback => finishCreateRollback now target stage backup o spec

end AtomicUpdate
end R4
