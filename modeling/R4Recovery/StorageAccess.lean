import Mathlib
import R4Recovery.Stateful
/-!
# StorageAccess — the kernel's storage admission state

Who may touch which sectors of which device: devices, mounts, running uses and exclusive claims, in four bounded tables
under one id sequence (`access_state.zig`).  An operation runs on the state and keeps what it changed when it fails.
The source's pointers into a table are indices here; its `u64` differences are all guarded, so `Nat` subtraction is the
same.
-/
namespace R4
namespace Storage

def maxDevices : Nat := 16
def maxMounts : Nat := 27
def maxUses : Nat := 256
def maxClaims : Nat := 16
def maxU64 : Nat := 2 ^ 64 - 1

inductive Error where
  | invalid | stale | busy | protected' | capacity | wrongOwner
deriving DecidableEq, Repr

structure Owner where
  task : Nat
  taskGeneration : Nat
  program : Nat := 0
  programGeneration : Nat := 0
deriving DecidableEq, Repr

structure DeviceRef where
  slot : Nat
  generation : Nat
deriving DecidableEq, Repr

structure MountRef where
  slot : Nat
  generation : Nat
deriving DecidableEq, Repr

structure Region where
  device : DeviceRef
  first : Nat
  count : Nat
deriving DecidableEq, Repr

namespace Region

def overlaps (a b : Region) : Bool :=
  if a.device != b.device || a.count == 0 || b.count == 0 then false
  else if a.first ≤ b.first then decide (b.first - a.first < a.count) else decide (a.first - b.first < b.count)

def contains (outer inner : Region) : Bool :=
  outer.device == inner.device && inner.count != 0 && decide (outer.first ≤ inner.first) &&
    decide (inner.first - outer.first ≤ outer.count) && decide (inner.count ≤ outer.count - (inner.first - outer.first))

end Region

structure Device where
  active : Bool := false
  retiring : Bool := false
  generation : Nat := 0
  sectors : Nat := 0
deriving DecidableEq, Repr

structure Mount where
  active : Bool := false
  generation : Nat := 0
  region : Region := ⟨⟨0, 0⟩, 0, 0⟩
  runtimeRequired : Bool := false
deriving DecidableEq, Repr

inductive UseKind where
  | request | lease | raw
deriving DecidableEq, Repr

structure Use where
  id : Nat := 0
  owner : Owner := ⟨0, 0, 0, 0⟩
  region : Region := ⟨⟨0, 0⟩, 0, 0⟩
  kind : UseKind := .request
deriving DecidableEq, Repr

inductive Phase where
  | preparing | active | finishing
deriving DecidableEq, Repr

structure Claim where
  id : Nat := 0
  owner : Owner := ⟨0, 0, 0, 0⟩
  region : Region := ⟨⟨0, 0⟩, 0, 0⟩
  phase : Phase := .preparing
deriving DecidableEq, Repr

structure State where
  devices : Fin maxDevices → Device := fun _ => {}
  mounts : Fin maxMounts → Mount := fun _ => {}
  uses : Fin maxUses → Use := fun _ => {}
  claims : Fin maxClaims → Claim := fun _ => {}
  sequence : Nat := 0
  topologyGeneration : Nat := 1

/-- An operation on the state, which keeps what it changed when it fails. -/
abbrev Op (α : Type) : Type := Stateful State Error α

namespace State

def setDevice (s : State) (i : Fin maxDevices) (d : Device) : State := { s with devices := Function.update s.devices i d }
def setMount (s : State) (i : Fin maxMounts) (m : Mount) : State := { s with mounts := Function.update s.mounts i m }
def setUse (s : State) (i : Fin maxUses) (u : Use) : State := { s with uses := Function.update s.uses i u }
def setClaim (s : State) (i : Fin maxClaims) (c : Claim) : State := { s with claims := Function.update s.claims i c }

def regionUsed (s : State) (region : Region) : Bool :=
  (List.finRange maxUses).any (fun i => (s.uses i).id != 0 && (s.uses i).region.overlaps region)

def regionClaimed (s : State) (region : Region) : Bool :=
  (List.finRange maxClaims).any (fun i => (s.claims i).id != 0 && (s.claims i).region.overlaps region)

def deviceValue (s : State) (ref : DeviceRef) : Except Error Device :=
  if h : ref.slot < maxDevices then
    let value := s.devices ⟨ref.slot, h⟩
    if ref.generation == 0 || !value.active || value.retiring || value.generation != ref.generation then .error .stale
    else .ok value
  else .error .stale

def validateRegion (s : State) (region : Region) : Except Error Unit := do
  let d ← s.deviceValue region.device
  if region.count == 0 || decide (d.sectors ≤ region.first) || decide (d.sectors - region.first < region.count) then
    .error .invalid
  else .ok ()

def canRetire (s : State) (ref : DeviceRef) : Except Error (Fin maxDevices) :=
  if h : ref.slot < maxDevices then
    let i : Fin maxDevices := ⟨ref.slot, h⟩
    if ref.generation == 0 || !(s.devices i).active || (s.devices i).generation != ref.generation then .error .stale
    else
      let all : Region := ⟨ref, 0, (s.devices i).sectors⟩
      if s.regionUsed all || s.regionClaimed all then .error .busy
      else if (List.finRange maxMounts).any (fun m => (s.mounts m).active && (s.mounts m).region.overlaps all) then .error .busy
      else .ok i
  else .error .stale

def mountValue (s : State) (ref : MountRef) : Except Error (Fin maxMounts) :=
  if h : ref.slot < maxMounts then
    let i : Fin maxMounts := ⟨ref.slot, h⟩
    if ref.generation == 0 || !(s.mounts i).active || (s.mounts i).generation != ref.generation then .error .stale
    else do
      s.validateRegion (s.mounts i).region
      pure i
  else .error .stale

def claimValue (s : State) (id : Nat) (owner : Owner) : Except Error (Fin maxClaims) :=
  if id == 0 then .error .stale
  else match (List.finRange maxClaims).find? (fun i => (s.claims i).id == id) with
    | none => .error .stale
    | some i =>
      if (s.claims i).owner != owner then .error .wrongOwner
      else do
        s.validateRegion (s.claims i).region
        pure i

end State

/-! ## The operations -/

def changed : Op Unit := do
  Stateful.refuse (fun s => s.topologyGeneration == maxU64) .capacity
  Stateful.update (fun s => { s with topologyGeneration := s.topologyGeneration + 1 })

def next : Op Nat := do
  Stateful.refuse (fun s => s.sequence == maxU64) .capacity
  Stateful.update (fun s => { s with sequence := s.sequence + 1 })
  Stateful.check (fun s => .ok s.sequence)

/-- An index into a table of `n`, or the error. -/
def slotOf (n slot : Nat) (e : Error) : Op (Fin n) := Stateful.check (fun _ => if h : slot < n then .ok ⟨slot, h⟩ else .error e)

def registerDevice (slot sectors : Nat) : Op DeviceRef := do
  let i ← slotOf maxDevices slot .invalid
  Stateful.refuse (fun _ => sectors == 0) .invalid
  Stateful.refuse (fun s => (s.devices i).active) .busy
  let generation ← next
  changed
  Stateful.update (fun s => s.setDevice i { active := true, generation, sectors })
  pure ⟨slot, generation⟩

def beginRetirement (ref : DeviceRef) : Op Unit := do
  let i ← Stateful.check (fun s => s.canRetire ref)
  Stateful.refuse (fun s => (s.devices i).retiring) .busy
  Stateful.update (fun s => s.setDevice i { s.devices i with retiring := true })

/-- Returns nothing and cannot fail. -/
def cancelRetirement (ref : DeviceRef) : Op Unit :=
  Stateful.update (fun s =>
    if h : ref.slot < maxDevices then
      if (s.devices ⟨ref.slot, h⟩).generation == ref.generation then
        s.setDevice ⟨ref.slot, h⟩ { s.devices ⟨ref.slot, h⟩ with retiring := false }
      else s
    else s)

def retireDevice (ref : DeviceRef) : Op Unit := do
  let i ← Stateful.check (fun s => s.canRetire ref)
  changed
  Stateful.update (fun s => s.setDevice i { s.devices i with active := false })

def bindMount (slot : Nat) (region : Region) (runtimeRequired : Bool) : Op MountRef := do
  Stateful.check (fun s => s.validateRegion region)
  let i ← slotOf maxMounts slot .invalid
  Stateful.refuse (fun s => (s.mounts i).active) .busy
  let generation ← next
  changed
  Stateful.update (fun s => s.setMount i { active := true, generation, region, runtimeRequired })
  pure ⟨slot, generation⟩

def unbindMount (ref : MountRef) : Op Unit := do
  let i ← Stateful.check (fun s => s.mountValue ref)
  Stateful.refuse (fun s => (s.mounts i).runtimeRequired) .protected'
  Stateful.refuse (fun s => s.regionUsed (s.mounts i).region) .busy
  changed
  Stateful.update (fun s => s.setMount i { s.mounts i with active := false })

def ownerBad (owner : Owner) : Bool :=
  owner.task == 0 || owner.taskGeneration == 0 || (owner.program == 0) != (owner.programGeneration == 0)

def reserveUse (region : Region) (owner : Owner) (kind : UseKind) : Op Nat := do
  Stateful.refuse (fun _ => ownerBad owner) .invalid
  let i ← Stateful.check (fun s =>
    match (List.finRange maxUses).find? (fun i => (s.uses i).id == 0) with
    | none => .error .capacity
    | some i => .ok i)
  let id ← next
  Stateful.update (fun s => s.setUse i { id, owner, region, kind })
  pure id

def beginUse (ref : MountRef) (owner : Owner) (kind : UseKind) : Op Nat := do
  Stateful.refuse (fun _ => kind == .raw) .invalid
  let i ← Stateful.check (fun s => s.mountValue ref)
  Stateful.refuse (fun s => s.regionClaimed (s.mounts i).region) .busy
  let region ← Stateful.check (fun s => .ok (s.mounts i).region)
  reserveUse region owner kind

def beginRawRead (region : Region) (owner : Owner) : Op Nat := do
  Stateful.check (fun s => s.validateRegion region)
  Stateful.refuse (fun s => s.regionClaimed region) .busy
  reserveUse region owner .raw

def endUse (id : Nat) (owner : Owner) : Op Unit := do
  Stateful.refuse (fun _ => id == 0) .stale
  let i ← Stateful.check (fun s =>
    match (List.finRange maxUses).find? (fun i => (s.uses i).id == id) with
    | none => .error .stale
    | some i => .ok i)
  Stateful.refuse (fun s => (s.uses i).owner != owner) .wrongOwner
  Stateful.update (fun s => s.setUse i { s.uses i with id := 0 })

def prepareClaim (region : Region) (owner : Owner) : Op Nat := do
  Stateful.check (fun s => s.validateRegion region)
  Stateful.refuse (fun _ => ownerBad owner) .invalid
  Stateful.refuse (fun s => (List.finRange maxMounts).any (fun i =>
    (s.mounts i).active && (s.mounts i).runtimeRequired && (s.mounts i).region.overlaps region)) .protected'
  Stateful.refuse (fun s => s.regionUsed region || s.regionClaimed region) .busy
  let i ← Stateful.check (fun s =>
    match (List.finRange maxClaims).find? (fun i => (s.claims i).id == 0) with
    | none => .error .capacity
    | some i => .ok i)
  changed
  let id ← next
  Stateful.update (fun s => s.setClaim i { id, owner, region })
  pure id

def activateClaim (id : Nat) (owner : Owner) : Op Unit := do
  let i ← Stateful.check (fun s => s.claimValue id owner)
  Stateful.refuse (fun s => (s.claims i).phase != .preparing) .invalid
  Stateful.update (fun s => s.setClaim i { s.claims i with phase := .active })

def beginClaimIo (id : Nat) (owner : Owner) (region : Region) : Op Nat := do
  let i ← Stateful.check (fun s => s.claimValue id owner)
  Stateful.refuse (fun s => (s.claims i).phase != .active) .busy
  Stateful.refuse (fun s => !(s.claims i).region.contains region) .invalid
  reserveUse region owner .raw

def finishClaim (id : Nat) (owner : Owner) : Op Unit := do
  let i ← Stateful.check (fun s => s.claimValue id owner)
  Stateful.update (fun s => s.setClaim i { s.claims i with phase := .finishing })
  Stateful.refuse (fun s => s.regionUsed (s.claims i).region) .busy

def releaseClaim (id : Nat) (owner : Owner) : Op Unit := do
  let i ← Stateful.check (fun s => s.claimValue id owner)
  Stateful.refuse (fun s => (s.claims i).phase != .finishing || s.regionUsed (s.claims i).region) .busy
  -- an exhausted topology generation does not stop the release
  Stateful.update (fun s => (changed s).2)
  Stateful.update (fun s => s.setClaim i { s.claims i with id := 0 })

/-! ## Calls and runs -/

inductive Call where
  | registerDevice (slot sectors : Nat)
  | beginRetirement (ref : DeviceRef)
  | cancelRetirement (ref : DeviceRef)
  | retireDevice (ref : DeviceRef)
  | bindMount (slot : Nat) (region : Region) (runtimeRequired : Bool)
  | unbindMount (ref : MountRef)
  | beginUse (ref : MountRef) (owner : Owner) (kind : UseKind)
  | beginRawRead (region : Region) (owner : Owner)
  | endUse (id : Nat) (owner : Owner)
  | prepareClaim (region : Region) (owner : Owner)
  | activateClaim (id : Nat) (owner : Owner)
  | beginClaimIo (id : Nat) (owner : Owner) (region : Region)
  | finishClaim (id : Nat) (owner : Owner)
  | releaseClaim (id : Nat) (owner : Owner)
deriving DecidableEq, Repr

/-- What a call hands out, and later calls name. -/
inductive Ref where
  | none
  | device (ref : DeviceRef)
  | mount (ref : MountRef)
  | id (id : Nat)
deriving DecidableEq, Repr

def giving {α : Type} (x : Op α) (f : α → Ref) : Op Ref := do
  let a ← x
  pure (f a)

def Call.exec : Call → Op Ref
  | .registerDevice slot sectors => giving (Storage.registerDevice slot sectors) .device
  | .beginRetirement ref => giving (Storage.beginRetirement ref) (fun _ => .none)
  | .cancelRetirement ref => giving (Storage.cancelRetirement ref) (fun _ => .none)
  | .retireDevice ref => giving (Storage.retireDevice ref) (fun _ => .none)
  | .bindMount slot region required => giving (Storage.bindMount slot region required) .mount
  | .unbindMount ref => giving (Storage.unbindMount ref) (fun _ => .none)
  | .beginUse ref owner kind => giving (Storage.beginUse ref owner kind) .id
  | .beginRawRead region owner => giving (Storage.beginRawRead region owner) .id
  | .endUse id owner => giving (Storage.endUse id owner) (fun _ => .none)
  | .prepareClaim region owner => giving (Storage.prepareClaim region owner) .id
  | .activateClaim id owner => giving (Storage.activateClaim id owner) (fun _ => .none)
  | .beginClaimIo id owner region => giving (Storage.beginClaimIo id owner region) .id
  | .finishClaim id owner => giving (Storage.finishClaim id owner) (fun _ => .none)
  | .releaseClaim id owner => giving (Storage.releaseClaim id owner) (fun _ => .none)

/-- The references and ids a call names.  `cancelRetirement` names its device too, but has no result to refuse it with. -/
def Call.names : Call → List Ref
  | .registerDevice _ _ => []
  | .beginRetirement ref | .cancelRetirement ref | .retireDevice ref => [.device ref]
  | .bindMount _ region _ | .beginRawRead region _ | .prepareClaim region _ => [.device region.device]
  | .unbindMount ref | .beginUse ref _ _ => [.mount ref]
  | .endUse id _ | .activateClaim id _ | .finishClaim id _ | .releaseClaim id _ => [.id id]
  | .beginClaimIo id _ region => [.id id, .device region.device]

/-- What a call that succeeds ends for good. -/
def Call.releases : Call → Option Ref
  | .retireDevice ref => some (.device ref)
  | .unbindMount ref => some (.mount ref)
  | .endUse id _ | .releaseClaim id _ => some (.id id)
  | _ => Option.none

def Call.isCancel : Call → Bool
  | .cancelRetirement _ => true
  | _ => false

def succeeded {α : Type} : Except Error α → Bool
  | .ok _ => true
  | .error _ => false

/-- The state behind a run of calls, and the references its successful calls ended. -/
def runs : State → List Call → State × List Ref
  | s, [] => (s, [])
  | s, c :: calls =>
    let r := c.exec s
    let rest := runs r.2 calls
    (rest.1, if succeeded r.1 then c.releases.toList ++ rest.2 else rest.2)

end Storage
end R4
