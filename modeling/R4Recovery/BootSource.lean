import R4Recovery.Installation
/-!
# BootSource — the device a recovery was booted from

`resolve` of `boot_source.zig`.  It looks at every device before it confirms one, so the order of the devices shows in
nothing but the reason of a refusal (`resolve_perm`), and a device that it confirms has its GUIDs to itself
(`resolve_confirmed`).
-/
namespace R4
namespace BootSource

open Gpt (Guid)
open Kernel (Table Manifest)

structure Identity where
  present : Bool := false
  genericMedia : Bool := false
  path : Bytes := []
  pathTruncated : Bool := false
  diskGuid : Guid := Guid.zero
  partitionGuid : Guid := Guid.zero

structure DeviceView where
  index : Nat
  usb : Bool
  onHost : Bool
  table : Table
  installation : Option Manifest
  installationConflict : Bool := false

inductive Slot where
  | unknown | current | previous
  deriving DecidableEq, Repr

structure Source where
  confirmed : Bool := false
  reason : Bytes := ascii "missing-identity"
  deviceIndex : Nat := 0
  usb : Bool := false
  slot : Slot := .unknown
  installationId : Guid := Guid.zero
  diskGuid : Guid := Guid.zero
  bootGuid : Guid := Guid.zero
  recoveryGuid : Guid := Guid.zero
  deriving DecidableEq

def slot? (path : Bytes) : Option Slot :=
  if eqlIgnoreCase path (ascii "/CURRENT/recovery.elf") then some .current
  else if eqlIgnoreCase path (ascii "/PREVIOUS/recovery.elf") then some .previous
  else none

/-- A turn of the loop that counts the devices with the GUID of the disk. -/
def countMatch (diskGuid : Guid) (found : Option DeviceView × Nat) (device : DeviceView) : Option DeviceView × Nat :=
  if device.table.diskGuid != diskGuid then found
  else (if device.table.valid && (device.usb || device.onHost) then some device else found.1, found.2 + 1)

/-- What `other` shares with the device that is selected. -/
def shared? (device : DeviceView) (manifest : Manifest) (partitionGuid : Guid) (other : DeviceView) : Option Bytes :=
  if other.index == device.index then none
  else if other.installation.any (fun m => m.installationId == manifest.installationId) then
    some (ascii "duplicate-installation-id")
  else if other.table.items.any (fun p => p.uniqueGuid == partitionGuid) then some (ascii "duplicate-source-partition-guid")
  else none

/-- The checks of the device that is selected. -/
def confirm (identity : Identity) (devices : List DeviceView) (slot : Slot) (device : DeviceView) : Source :=
  match device.installation with
  | none => { slot, reason := ascii "installation-unavailable" }
  | some manifest =>
    if device.installationConflict then { slot, reason := ascii "installation-conflict" }
    else if manifest.partitions.recovery.partitionGuid != identity.partitionGuid then
      { slot, reason := ascii "loaded-partition-mismatch" }
    else match devices.findSome? (shared? device manifest identity.partitionGuid) with
      | some reason => { slot, reason }
      | none =>
        { confirmed := true
          reason := ascii "ok"
          deviceIndex := device.index
          usb := device.usb
          slot
          installationId := manifest.installationId
          diskGuid := manifest.diskGuid
          bootGuid := manifest.partitions.boot.partitionGuid
          recoveryGuid := manifest.partitions.recovery.partitionGuid }

def resolve (identity : Identity) (devices : List DeviceView) : Source :=
  if !identity.present || identity.pathTruncated || !identity.genericMedia || identity.diskGuid == Guid.zero ||
      identity.partitionGuid == Guid.zero then {}
  else match slot? identity.path with
    | none => { reason := ascii "unknown-loaded-path" }
    | some slot =>
      let found := devices.foldl (countMatch identity.diskGuid) (none, 0)
      if 1 < found.2 then { slot, reason := ascii "duplicate-disk-guid" }
      else match found.1 with
        | none => { slot, reason := ascii "source-not-found" }
        | some device => confirm identity devices slot device

/-! ## The devices with the GUID of the disk -/

/-- The devices the first loop counts. -/
def matching (diskGuid : Guid) (devices : List DeviceView) : List DeviceView :=
  devices.filter (fun d => d.table.diskGuid == diskGuid)

theorem foldl_countMatch (diskGuid : Guid) : ∀ (devices : List DeviceView) (found : Option DeviceView × Nat),
    devices.foldl (countMatch diskGuid) found = (matching diskGuid devices).foldl (countMatch diskGuid) found
  | [], _ => rfl
  | device :: rest, found => by
    rw [List.foldl_cons, foldl_countMatch diskGuid rest]
    unfold matching
    by_cases h : device.table.diskGuid = diskGuid
    · rw [List.filter_cons_of_pos (by simpa using h), List.foldl_cons]
    · have : countMatch diskGuid found device = found := by
        unfold countMatch
        rw [if_pos (by simpa using h)]
      rw [this, List.filter_cons_of_neg (by simpa using h)]

theorem foldl_countMatch_snd (diskGuid : Guid) : ∀ (devices : List DeviceView) (found : Option DeviceView × Nat),
    (∀ d ∈ devices, d.table.diskGuid = diskGuid) → (devices.foldl (countMatch diskGuid) found).2 = found.2 + devices.length
  | [], _, _ => rfl
  | device :: rest, found, h => by
    have hfirst : countMatch diskGuid found device =
        (if device.table.valid && (device.usb || device.onHost) then some device else found.1, found.2 + 1) := by
      unfold countMatch
      rw [if_neg (by simpa using h device List.mem_cons_self)]
    rw [List.foldl_cons, hfirst, List.length_cons,
      foldl_countMatch_snd diskGuid rest _ (fun d hd => h d (List.mem_cons_of_mem _ hd))]
    show found.2 + 1 + rest.length = _
    omega

theorem mem_matching {diskGuid : Guid} {devices : List DeviceView} {d : DeviceView} :
    d ∈ matching diskGuid devices ↔ d ∈ devices ∧ d.table.diskGuid = diskGuid := by
  unfold matching
  rw [List.mem_filter, beq_iff_eq]

/-- **The first loop** by the devices it counts: none, one, or too many. -/
theorem foldl_cases (diskGuid : Guid) (devices : List DeviceView) :
    (matching diskGuid devices = [] ∧ devices.foldl (countMatch diskGuid) (none, 0) = (none, 0)) ∨
    (∃ d, matching diskGuid devices = [d] ∧ devices.foldl (countMatch diskGuid) (none, 0) =
      (if d.table.valid && (d.usb || d.onHost) then some d else none, 1)) ∨
    (1 < (matching diskGuid devices).length ∧ 1 < (devices.foldl (countMatch diskGuid) (none, 0)).2) := by
  have hall : ∀ d ∈ matching diskGuid devices, d.table.diskGuid = diskGuid := fun d hd => (mem_matching.1 hd).2
  rw [foldl_countMatch]
  match hmatch : matching diskGuid devices with
  | [] => exact .inl ⟨rfl, rfl⟩
  | [d] =>
    rw [hmatch] at hall
    refine .inr (.inl ⟨d, rfl, ?_⟩)
    show countMatch diskGuid (none, 0) d = _
    unfold countMatch
    rw [if_neg (by simpa using hall d List.mem_cons_self)]
  | d :: e :: rest =>
    rw [hmatch] at hall
    have hlen : 1 < (d :: e :: rest).length := by simp
    refine .inr (.inr ⟨hlen, ?_⟩)
    rw [foldl_countMatch_snd diskGuid _ _ hall]
    simp

/-! ## The order of the devices -/

/-- The reasons that name a device which is not the selected one. -/
def sharedReasons : List Bytes := [ascii "duplicate-installation-id", ascii "duplicate-source-partition-guid"]

/-- Two results that differ in their reason at most, and in that only where each names a duplicate. -/
structure Source.Alike (s t : Source) : Prop where
  rest : { s with reason := t.reason } = t
  reason : s.reason = t.reason ∨ (t.confirmed = false ∧ s.reason ∈ sharedReasons ∧ t.reason ∈ sharedReasons)

theorem Source.alike_refl (s : Source) : s.Alike s := ⟨rfl, .inl rfl⟩

theorem shared_reason {device : DeviceView} {manifest : Manifest} {partitionGuid : Guid} {other : DeviceView} {reason : Bytes}
    (h : shared? device manifest partitionGuid other = some reason) : reason ∈ sharedReasons := by
  unfold shared? at h
  split at h
  · cases h
  · split at h
    · cases h
      exact List.mem_cons_self
    · split at h
      · cases h
        exact List.mem_cons_of_mem _ List.mem_cons_self
      · cases h

theorem confirm_perm (identity : Identity) {devices devices' : List DeviceView} (hperm : devices'.Perm devices) (slot : Slot)
    (device : DeviceView) : (confirm identity devices' slot device).Alike (confirm identity devices slot device) := by
  unfold confirm
  split
  · exact Source.alike_refl _
  · rename_i manifest hmanifest
    split
    · exact Source.alike_refl _
    split
    · exact Source.alike_refl _
    have hnone : devices'.findSome? (shared? device manifest identity.partitionGuid) = none ↔
        devices.findSome? (shared? device manifest identity.partitionGuid) = none := by
      rw [List.findSome?_eq_none_iff, List.findSome?_eq_none_iff]
      exact ⟨fun h d hd => h d (hperm.mem_iff.2 hd), fun h d hd => h d (hperm.mem_iff.1 hd)⟩
    cases hfound : devices.findSome? (shared? device manifest identity.partitionGuid) with
    | none =>
      rw [hnone.2 hfound]
      exact Source.alike_refl _
    | some reason =>
      cases hfound' : devices'.findSome? (shared? device manifest identity.partitionGuid) with
      | none =>
        rw [hnone.1 hfound'] at hfound
        cases hfound
      | some reason' =>
        obtain ⟨d, -, hd⟩ := List.exists_of_findSome?_eq_some hfound
        obtain ⟨d', -, hd'⟩ := List.exists_of_findSome?_eq_some hfound'
        exact ⟨rfl, .inr ⟨rfl, shared_reason hd', shared_reason hd⟩⟩

/-- **The order of the devices** shows in nothing but the reason of a refusal. -/
theorem resolve_perm (identity : Identity) {devices devices' : List DeviceView} (hperm : devices'.Perm devices) :
    (resolve identity devices').Alike (resolve identity devices) := by
  have hmatching : (matching identity.diskGuid devices').Perm (matching identity.diskGuid devices) := hperm.filter _
  unfold resolve
  split
  · exact Source.alike_refl _
  split
  · exact Source.alike_refl _
  rename_i slot hslot
  rcases foldl_cases identity.diskGuid devices with ⟨hmatch, hfold⟩ | ⟨d, hmatch, hfold⟩ | ⟨hmatch, hfold⟩
  · have hfold' : devices'.foldl (countMatch identity.diskGuid) (none, 0) = (none, 0) := by
      rw [hmatch, List.perm_nil] at hmatching
      rw [foldl_countMatch, hmatching]
      rfl
    rw [hfold, hfold']
    exact Source.alike_refl _
  · have hfold' : devices'.foldl (countMatch identity.diskGuid) (none, 0) =
        devices.foldl (countMatch identity.diskGuid) (none, 0) := by
      rw [hmatch, List.perm_singleton] at hmatching
      rw [foldl_countMatch, foldl_countMatch _ devices, hmatching, hmatch]
    rw [hfold', hfold]
    by_cases husable : d.table.valid && (d.usb || d.onHost)
    · rw [if_pos husable]
      exact confirm_perm identity hperm slot d
    · rw [if_neg husable]
      exact Source.alike_refl _
  · have hfold' : 1 < (devices'.foldl (countMatch identity.diskGuid) (none, 0)).2 := by
      rcases foldl_cases identity.diskGuid devices' with ⟨hmatch', -⟩ | ⟨d, hmatch', -⟩ | ⟨-, hfold'⟩
      · rw [← hmatching.length_eq, hmatch'] at hmatch
        cases hmatch
      · rw [← hmatching.length_eq, hmatch'] at hmatch
        exact absurd hmatch (by simp)
      · exact hfold'
    show Source.Alike (if 1 < _ then _ else _) (if 1 < _ then _ else _)
    rw [if_pos hfold', if_pos hfold]
    exact Source.alike_refl _

/-! ## A device that is confirmed -/

/-- The one device with the GUID of the disk, whose installation and partition no other device has. -/
structure Unique (identity : Identity) (devices : List DeviceView) (source : Source) (device : DeviceView)
    (manifest : Manifest) : Prop where
  alone : matching identity.diskGuid devices = [device]
  index : source.deviceIndex = device.index
  usable : device.table.valid = true ∧ (device.usb || device.onHost) = true
  installed : device.installation = some manifest ∧ device.installationConflict = false
  partition : manifest.partitions.recovery.partitionGuid = identity.partitionGuid
  installation : ∀ d ∈ devices, d ≠ device → ∀ m, d.installation = some m → m.installationId ≠ manifest.installationId
  partitions : ∀ d ∈ devices, d ≠ device → ∀ p ∈ d.table.items, p.uniqueGuid ≠ identity.partitionGuid

theorem shared_none {device : DeviceView} {manifest : Manifest} {partitionGuid : Guid} {other : DeviceView}
    (h : shared? device manifest partitionGuid other = none) (hother : other.index ≠ device.index) :
    (∀ m, other.installation = some m → m.installationId ≠ manifest.installationId) ∧
    ∀ p ∈ other.table.items, p.uniqueGuid ≠ partitionGuid := by
  unfold shared? at h
  rw [if_neg (by simpa using hother)] at h
  split at h
  · cases h
  rename_i hinstallation
  split at h
  · cases h
  rename_i hpartitions
  refine ⟨fun m hm heq => hinstallation ?_, fun p hp heq => hpartitions ?_⟩
  · rw [hm]
    simpa using heq
  · exact List.any_eq_true.2 ⟨p, hp, by simpa using heq⟩

/-- **A confirmed device** is the only one with the GUID of the disk, the installation and the partition. -/
theorem resolve_confirmed {identity : Identity} {devices : List DeviceView} (hdistinct : (devices.map DeviceView.index).Nodup)
    (h : (resolve identity devices).confirmed = true) :
    ∃ device manifest, Unique identity devices (resolve identity devices) device manifest := by
  generalize hsource : resolve identity devices = source at h ⊢
  unfold resolve at hsource
  split at hsource
  · subst hsource
    cases h
  split at hsource
  · subst hsource
    cases h
  rename_i slot hslot
  rcases foldl_cases identity.diskGuid devices with ⟨-, hfold⟩ | ⟨device, hmatch, hfold⟩ | ⟨-, hfold⟩
  · rw [hfold] at hsource
    subst hsource
    cases h
  · rw [hfold] at hsource
    by_cases husable : (device.table.valid && (device.usb || device.onHost)) = true
    · rw [if_pos husable] at hsource
      have hmem : device ∈ devices := (mem_matching.1 (hmatch ▸ List.mem_singleton_self device)).1
      replace hsource : confirm identity devices slot device = source := hsource
      unfold confirm at hsource
      split at hsource
      · subst hsource
        cases h
      rename_i manifest hmanifest
      split at hsource
      · subst hsource
        cases h
      rename_i hconflict
      split at hsource
      · subst hsource
        cases h
      rename_i hpartition
      split at hsource
      · subst hsource
        cases h
      rename_i hnone
      have hothers : ∀ d ∈ devices, d ≠ device →
          (∀ m, d.installation = some m → m.installationId ≠ manifest.installationId) ∧
          ∀ p ∈ d.table.items, p.uniqueGuid ≠ identity.partitionGuid := by
        intro d hd hne
        refine shared_none (List.findSome?_eq_none_iff.1 hnone d hd) (fun heq => hne ?_)
        exact List.inj_on_of_nodup_map hdistinct hd hmem heq
      refine ⟨device, manifest, hmatch, ?_, by simpa using husable, ⟨hmanifest, by simpa using hconflict⟩,
        by simpa using hpartition, fun d hd hne => (hothers d hd hne).1, fun d hd hne => (hothers d hd hne).2⟩
      subst hsource
      rfl
    · rw [if_neg husable] at hsource
      subst hsource
      cases h
  · rw [show (if 1 < _ then _ else _) = _ from if_pos hfold] at hsource
    subst hsource
    cases h

/-- **Booted devices are resolved** alike in every order, and a device that is confirmed has its GUIDs to itself. -/
theorem resolve_unambiguous (identity : Identity) {devices : List DeviceView} (hdistinct : (devices.map DeviceView.index).Nodup) :
    (∀ devices' : List DeviceView, devices'.Perm devices → (resolve identity devices').Alike (resolve identity devices)) ∧
    ((resolve identity devices).confirmed = true →
      ∃ device manifest, Unique identity devices (resolve identity devices) device manifest) :=
  ⟨fun _ hperm => resolve_perm identity hperm, resolve_confirmed hdistinct⟩

section Clones

def guidOf (n : UInt8) : Guid := Vector.replicate 16 n

def booted : Identity where
  present := true
  genericMedia := true
  path := ascii "/CURRENT/recovery.elf"
  diskGuid := guidOf 1
  partitionGuid := guidOf 2

def manifestOf (recovery : Guid) : Manifest where
  installationId := guidOf 3
  diskGuid := guidOf 1
  partitions := { biosboot := {}, boot := {}, system := {}, recovery := { partitionGuid := recovery }, data := {} }

def original : DeviceView where
  index := 0
  usb := true
  onHost := false
  table := { valid := true, diskGuid := guidOf 1, items := [{ uniqueGuid := guidOf 2 }] }
  installation := some (manifestOf (guidOf 2))

/-- Another disk with the installation. -/
def sameInstallation : DeviceView where
  index := 1
  usb := false
  onHost := true
  table := { valid := true, diskGuid := guidOf 4, items := [{ uniqueGuid := guidOf 5 }] }
  installation := some (manifestOf (guidOf 5))

/-- Another disk with the partition. -/
def samePartition : DeviceView where
  index := 2
  usb := false
  onHost := true
  table := { valid := true, diskGuid := guidOf 6, items := [{ uniqueGuid := guidOf 2 }] }
  installation := none

/-- Another disk with an installation of its own, and a stick without one. -/
def otherInstallation : DeviceView where
  index := 3
  usb := false
  onHost := true
  table := { valid := true, diskGuid := guidOf 7, items := [{ uniqueGuid := guidOf 8 }] }
  installation := some { manifestOf (guidOf 8) with installationId := guidOf 9, diskGuid := guidOf 7 }

def bareStick : DeviceView where
  index := 4
  usb := true
  onHost := false
  table := { valid := true, diskGuid := guidOf 10, items := [{ uniqueGuid := guidOf 11 }, { uniqueGuid := guidOf 12 }] }
  installation := none

theorem original_confirmed :
    (resolve booted [bareStick, original, otherInstallation]).Alike (resolve booted [otherInstallation, original, bareStick]) ∧
    ∃ device manifest, Unique booted [otherInstallation, original, bareStick]
      (resolve booted [otherInstallation, original, bareStick]) device manifest := by
  obtain ⟨horder, hunique⟩ := resolve_unambiguous booted
    (by decide : ([otherInstallation, original, bareStick].map DeviceView.index).Nodup)
  exact ⟨horder _ (List.reverse_perm [otherInstallation, original, bareStick]), hunique (by decide +kernel)⟩

theorem clones_reason : ¬ ∀ (identity : Identity) (devices devices' : List DeviceView),
    (devices.map DeviceView.index).Nodup → devices'.Perm devices →
    resolve identity devices' = resolve identity devices := by
  intro h
  have hperm : [original, samePartition, sameInstallation].Perm [original, sameInstallation, samePartition] :=
    (List.Perm.swap _ _ _).cons _
  have heq := h booted _ _ (by decide) hperm
  revert heq
  decide +kernel

end Clones

end BootSource
end R4
