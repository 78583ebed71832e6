import R4Recovery.BootScan
import R4Recovery.StorageEffect
/-!
# BootScanSafe — where the boot scanner mounts

What an entry adds to the tables is at most one volume, inside the range of the entry (`mountPartition_step`).  Over the
whole walk every new volume belongs to an entry of its own (`scan_reached`).
-/
namespace R4
namespace BootScan

open Gpt (Guid Header getLe mbrSlots mbrSlot slotType parsePartition)
open Kernel (Reader)
open Storage (MountRef Region Placed SameTables)
open Stateful (bind_ok check_eq refuse_ok)

/-! ## The accepted table -/

/-- The range of an entry, with its MBR type or its GPT type. -/
structure Entry where
  firstLba : Nat
  sectorCount : Nat
  mbrType : UInt8 := 0
  typeGuid : Guid := Guid.zero
  deriving DecidableEq

def slotEntry (raw : Bytes) : Option Entry :=
  if slotType raw = 0 ∨ getLe raw 12 4 = 0 then none
  else some { firstLba := getLe raw 8 4, sectorCount := getLe raw 12 4, mbrType := slotType raw }

/-- The header that the scan goes by: the first one, else the backup. -/
def acceptedHeader (r : Reader) : Option Header :=
  match loadGptHeader r 1 with
  | .ok header => some header
  | .error _ => if 1 < r.sectors then (loadGptHeader r (r.sectors - 1)).toOption else none

def gptEntry (r : Reader) (header : Header) (index : Nat) : Option Entry :=
  (readEntry r header index none).1.bind fun raw =>
    match parsePartition raw header with
    | .ok (some p) => some { firstLba := p.firstLba, sectorCount := p.sectorCount, typeGuid := p.typeGuid }
    | _ => none

def protective (mbr : Bytes) : Bool := (mbrSlots mbr).any fun raw => isProtectiveGpt (slotType raw)

/-- The entry of the accepted table at an index. -/
def entryAt (r : Reader) (index : Nat) : Option Entry :=
  (readSector r 0).bind fun mbr =>
    if protective mbr then
      (acceptedHeader r).bind fun header => if index < header.entryCount then gptEntry r header index else none
    else if index < 4 then slotEntry (mbrSlot mbr index) else none

/-! ## Volumes and their sectors -/

/-- What is mounted at a letter, or as the boot volume. -/
def World.volumeAt (w : World) : Option (Fin 26) → Option Volume
  | none => w.bootVolume
  | some letter => w.mountedVolumes letter

/-- The file system and the admission agree on the sectors of a bound volume. -/
structure World.Stands (w : World) (v : Volume) (device first count : Nat) : Prop where
  location : w.location v = some (device, first, count)
  bound : v.accessReference.isSome = true
  region : ∃ generation, w.storageRegion v = some ⟨⟨device, generation⟩, first, count⟩

/-- Devices, mounts and NTFS states that are in use stay as they are. -/
structure World.Keeps (w w' : World) : Prop where
  devices : w'.access.devices = w.access.devices
  mounts : ∀ i, (w.access.mounts i).active = true → w'.access.mounts i = w.access.mounts i
  states : ∀ i s, w.ntfsStates i = some s → w'.ntfsStates i = some s

section Keeps

variable {w w' w'' : World} {v : Volume} {device first count : Nat}

theorem World.Keeps.trans (h : w.Keeps w') (g : w'.Keeps w'') : w.Keeps w'' where
  devices := g.devices.trans h.devices
  mounts i hi := by
    have hm := h.mounts i hi
    rw [g.mounts i (by rw [hm]; exact hi), hm]
  states i s hs := g.states i s (h.states i s hs)

theorem Keeps.mountValue (h : w.Keeps w') {ref : MountRef} {i : Fin Storage.maxMounts}
    (hm : w.access.mountValue ref = .ok i) : w'.access.mountValue ref = .ok i := by
  obtain ⟨hi, -, hactive, -, -⟩ := Storage.mountValue_ok hm
  rw [← hm]
  unfold Storage.State.mountValue
  have hslot : ref.slot < Storage.maxMounts := hi ▸ i.isLt
  rw [dif_pos hslot, dif_pos hslot]
  have hmount : w'.access.mounts ⟨ref.slot, hslot⟩ = w.access.mounts ⟨ref.slot, hslot⟩ :=
    h.mounts _ (by rw [show (⟨ref.slot, hslot⟩ : Fin Storage.maxMounts) = i from Fin.ext hi.symm]; exact hactive)
  have hregion : ∀ region, w'.access.validateRegion region = w.access.validateRegion region := by
    intro region
    unfold Storage.State.validateRegion Storage.State.deviceValue
    rw [h.devices]
  simp only [hmount, hregion]

/-- **A volume stands where it stood.** -/
theorem World.Stands.keeps (hs : w.Stands v device first count) (h : w.Keeps w') : w'.Stands v device first count := by
  refine ⟨?_, hs.bound, ?_⟩
  · have hl := hs.location
    cases v with
    | fat32 v => exact hl
    | ntfs v =>
      simp only [World.location] at hl ⊢
      split at hl
      · rename_i hslot
        obtain ⟨s, hstate, hloc⟩ := Option.map_eq_some_iff.1 hl
        rw [dif_pos hslot, h.states _ s hstate, Option.map_some, hloc]
      · cases hl
  · obtain ⟨generation, hr⟩ := hs.region
    refine ⟨generation, ?_⟩
    obtain ⟨ref, href⟩ := Option.isSome_iff_exists.1 hs.bound
    unfold World.storageRegion at hr ⊢
    rw [href] at hr ⊢
    dsimp only at hr ⊢
    split at hr
    · rename_i i hm
      rw [Keeps.mountValue h hm]
      dsimp only
      rw [h.mounts i (Storage.mountValue_ok hm).2.2.1]
      exact hr
    · cases hr

end Keeps

/-! ## Binding -/

section Bind

variable {s t : Storage.State} {slot : Nat} {region : Region} {required : Bool}

theorem bindMount_ok {ref : MountRef} (h : Storage.bindMount slot region required s = (.ok ref, t)) :
    ∃ (i : Fin Storage.maxMounts) (g : Nat), i.val = slot ∧ (s.mounts i).active = false ∧ Placed s region ∧
      ref = ⟨slot, s.sequence + 1⟩ ∧
      t = { s.setMount i { active := true, generation := s.sequence + 1, region, runtimeRequired := required } with
        sequence := s.sequence + 1, topologyGeneration := g } := by
  obtain ⟨_, _, h1, h⟩ := bind_ok h
  obtain ⟨hp, rfl⟩ := check_eq h1
  obtain ⟨i, _, h1, h⟩ := bind_ok h
  obtain ⟨hi, rfl⟩ := Storage.slotOf_ok h1
  obtain ⟨_, _, h1, h⟩ := bind_ok h
  obtain ⟨hfree, rfl⟩ := refuse_ok h1
  obtain ⟨_, _, h1, h⟩ := bind_ok h
  obtain ⟨rfl, rfl⟩ := Storage.next_ok h1
  obtain ⟨_, _, h1, h⟩ := bind_ok h
  obtain rfl := Storage.changed_ok h1
  cases h
  exact ⟨i, _, hi, hfree, Storage.validateRegion_iff.1 hp, rfl, rfl⟩

theorem bindMount_error {e : Storage.Error} (h : Storage.bindMount slot region required s = (.error e, t)) :
    SameTables s t :=
  Stateful.FailsIn.bind (Storage.Quiet.check _) (fun _ => Stateful.FailsIn.bind (Storage.Quiet.check _) (fun _ =>
    Stateful.FailsIn.bind (Storage.Quiet.check _) (fun _ => Stateful.FailsIn.bind Storage.Quiet.next (fun _ =>
      Stateful.FailsIn.bind Storage.Quiet.changed (fun _ => Storage.Fails.last _ _))))) s e t h

end Bind

/-! ## One entry -/

/-- Nothing of the tables changes, whatever the report or the drive letters say. -/
structure World.Quiet (w w' : World) : Prop where
  keeps : w.Keeps w'
  same : w'.volumeAt = w.volumeAt

/-- **What an entry does**: the tables keep what is in use, and at most one place gets a volume, at the front of the range
of the entry and not beyond its end. -/
inductive Step (sv : Services) (firstLba sectorCount : Nat) (w w' : World) : Prop
  | quiet (h : w.Quiet w')
  | mount (keeps : w.Keeps w') (place : Option (Fin 26)) (v : Volume) (count : Nat) (free : w.volumeAt place = none)
      (new : w'.volumeAt = Function.update w.volumeAt place (some v))
      (stands : w'.Stands v sv.deviceIndex firstLba count) (count_pos : 0 < count) (count_le : count ≤ sectorCount)

section Steps

variable {sv : Services} {firstLba sectorCount : Nat} {w w' w'' : World}

theorem World.Quiet.of_eq (hb : w'.bootVolume = w.bootVolume) (hv : w'.mountedVolumes = w.mountedVolumes)
    (hd : w'.access.devices = w.access.devices) (hm : w'.access.mounts = w.access.mounts)
    (hs : w'.ntfsStates = w.ntfsStates) : w.Quiet w' := by
  refine ⟨⟨hd, fun _ _ => by rw [hm], fun i s h => by rw [hs]; exact h⟩, funext fun place => ?_⟩
  cases place with
  | none => exact hb
  | some letter => exact congrFun hv letter

theorem World.Quiet.note (w : World) (result : ScanResult) (detail : String) : w.Quiet (w.note result detail) :=
  .of_eq rfl rfl rfl rfl rfl

theorem World.Quiet.onReport (w : World) (f : ScanReport → ScanReport) : w.Quiet (w.onReport f) :=
  .of_eq rfl rfl rfl rfl rfl

theorem World.Quiet.refl (w : World) : w.Quiet w := .of_eq rfl rfl rfl rfl rfl

theorem World.Quiet.trans (h : w.Quiet w') (g : w'.Quiet w'') : w.Quiet w'' :=
  ⟨h.keeps.trans g.keeps, g.same.trans h.same⟩

theorem Step.after (h : Step sv firstLba sectorCount w w') (g : w'.Quiet w'') : Step sv firstLba sectorCount w w'' := by
  cases h with
  | quiet h => exact .quiet (h.trans g)
  | mount keeps place v count free new stands h0 h1 =>
    exact .mount (keeps.trans g.keeps) place v count free (g.same.trans new) (stands.keeps g.keeps) h0 h1

theorem Step.before (g : w.Quiet w') (h : Step sv firstLba sectorCount w' w'') : Step sv firstLba sectorCount w w'' := by
  cases h with
  | quiet h => exact .quiet (g.trans h)
  | mount keeps place v count free new stands h0 h1 =>
    rw [g.same] at free new
    exact .mount (g.keeps.trans keeps) place v count free new stands h0 h1

theorem accessReference_bind (v : Volume) (ref : MountRef) : (v.bind ref).accessReference = some ref := by
  cases v <;> rfl

theorem location_bind (w : World) (v : Volume) (ref : MountRef) : w.location (v.bind ref) = w.location v := by
  cases v <;> rfl

theorem deviceReference_slot {slot : Nat} {d : Storage.DeviceRef} (h : w.deviceReference slot = some d) : d.slot = slot := by
  unfold World.deviceReference at h
  split at h
  · split at h
    · cases h
      rfl
    · cases h
  · cases h

theorem storageRegion_unbound {v : Volume} {device first count : Nat} {region : Region}
    (href : v.accessReference = none) (hloc : w.location v = some (device, first, count))
    (hr : w.storageRegion v = some region) : ∃ generation, region = ⟨⟨device, generation⟩, first, count⟩ := by
  unfold World.storageRegion at hr
  rw [href, hloc] at hr
  obtain ⟨d, hd, rfl⟩ := Option.map_eq_some_iff.1 (Option.bind_some .. ▸ hr)
  obtain rfl := deviceReference_slot hd
  exact ⟨d.generation, rfl⟩

/-- **A volume that is bound stands where its file system stands.** -/
theorem stands_of_bind {v : Volume} {device first count slot : Nat} {region : Region} {required : Bool} {ref : MountRef}
    {access : Storage.State} (href : v.accessReference = none) (hloc : w.location v = some (device, first, count))
    (hr : w.storageRegion v = some region)
    (hb : Storage.bindMount slot region required w.access = (.ok ref, access)) (ha : w'.access = access)
    (hs : w'.ntfsStates = w.ntfsStates) :
    w.Keeps w' ∧ w'.Stands (v.bind ref) device first count ∧ 0 < count := by
  subst ha
  obtain ⟨generation, rfl⟩ := storageRegion_unbound href hloc hr
  obtain ⟨i, g, hi, hfree, hp, rfl, ht⟩ := bindMount_ok hb
  have hdevices : w'.access.devices = w.access.devices := by rw [ht]; rfl
  have hmounts : w'.access.mounts = Function.update w.access.mounts i
      { active := true, generation := w.access.sequence + 1, region := ⟨⟨device, generation⟩, first, count⟩,
        runtimeRequired := required } := by
    rw [ht]
    rfl
  have hkeeps : w.Keeps w' := by
    refine ⟨hdevices, fun j hj => ?_, fun j s h => by rw [hs]; exact h⟩
    rw [hmounts, Function.update_of_ne]
    rintro rfl
    rw [hfree] at hj
    cases hj
  refine ⟨hkeeps, ⟨?_, ?_, generation, ?_⟩, Nat.pos_of_ne_zero hp.count⟩
  · rw [location_bind, ← hloc]
    cases v with
    | fat32 v => rfl
    | ntfs v => simp only [World.location, hs]
  · rw [accessReference_bind]
    rfl
  · have hvalid : w'.access.validateRegion ⟨⟨device, generation⟩, first, count⟩ = .ok () := by
      refine Storage.validateRegion_iff.2 ⟨hp.generation, hp.count, ?_⟩
      rw [hdevices]
      exact hp.slot
    have hvalue : w'.access.mountValue ⟨slot, w.access.sequence + 1⟩ = .ok i := by
      subst hi
      unfold Storage.State.mountValue
      rw [dif_pos i.isLt]
      simp only [hmounts, Function.update_self, hvalid]
      simp
    unfold World.storageRegion
    rw [accessReference_bind]
    dsimp only
    rw [hvalue]
    dsimp only
    rw [hmounts, Function.update_self]

section Mounting

variable {volume : Volume} {count : Nat} {done : Bool}

theorem mountBootVolume_step (href : volume.accessReference = none)
    (hloc : w.location volume = some (sv.deviceIndex, firstLba, count)) (hle : count ≤ sectorCount)
    (h : w.mountBootVolume volume = (done, w')) : Step sv firstLba sectorCount w w' := by
  unfold World.mountBootVolume at h
  split at h
  · cases h
    exact .quiet (.refl w)
  · rename_i region hr
    split at h
    · cases h
      exact .quiet (.refl w)
    · rename_i hfree
      split at h
      · rename_i e access hb
        cases h
        have hsame := bindMount_error hb
        exact .quiet (.of_eq rfl rfl hsame.devices hsame.mounts rfl)
      · rename_i ref access hb
        obtain ⟨-, hw⟩ := Prod.mk.inj h
        obtain ⟨hkeeps, hstands, h0⟩ :=
          stands_of_bind href hloc hr hb (show w'.access = access by rw [← hw]) (by rw [← hw])
        subst hw
        refine .mount hkeeps none _ count (Option.not_isSome_iff_eq_none.1 hfree) (funext fun place => ?_) hstands h0 hle
        cases place with
        | none => rfl
        | some letter => rfl

theorem mountForDrive_step {letter : Fin 26} (href : volume.accessReference = none)
    (hloc : w.location volume = some (sv.deviceIndex, firstLba, count)) (hle : count ≤ sectorCount)
    (h : w.mountForDrive letter volume = (done, w')) : Step sv firstLba sectorCount w w' := by
  unfold World.mountForDrive at h
  split at h
  · cases h
    exact .quiet (.refl w)
  · rename_i region hr
    split at h
    · cases h
      exact .quiet (.refl w)
    · rename_i hfree
      split at h
      · rename_i e access hb
        cases h
        have hsame := bindMount_error hb
        exact .quiet (.of_eq rfl rfl hsame.devices hsame.mounts rfl)
      · rename_i ref access hb
        obtain ⟨-, hw⟩ := Prod.mk.inj h
        obtain ⟨hkeeps, hstands, h0⟩ :=
          stands_of_bind href hloc hr hb (show w'.access = access by rw [← hw]) (by rw [← hw])
        subst hw
        refine .mount hkeeps (some letter) _ count (Option.not_isSome_iff_eq_none.1 hfree) (funext fun place => ?_)
          hstands h0 hle
        cases place with
        | none => rfl
        | some other =>
          by_cases ho : other = letter
          · subst ho
            rw [Function.update_self]
            exact Function.update_self ..
          · rw [Function.update_of_ne (by simpa using ho)]
            exact Function.update_of_ne ho ..

/-- **From the inspected volume on**, at most one place gets the volume. -/
theorem mountVolume_step {byteCount : Nat} {boot : Bool} {name : String} (href : volume.accessReference = none)
    (hloc : w.location volume = some (sv.deviceIndex, firstLba, count)) (hle : count ≤ sectorCount) :
    Step sv firstLba sectorCount w (mountVolume sv volume byteCount boot name w) := by
  unfold mountVolume
  extract_lets probe w₁
  have hq : w.Quiet w₁ := .onReport _ _
  have hloc₁ : w₁.location volume = some (sv.deviceIndex, firstLba, count) := hloc
  refine .before hq ?_
  split
  · exact .quiet (.note _ _ _)
  · split
    · split <;> rename_i w₂ hm
      · exact (mountBootVolume_step href hloc₁ hle hm).after (.note _ _ _)
      · exact (mountBootVolume_step href hloc₁ hle hm).after (.note _ _ _)
    · split
      · exact .quiet (.note _ _ _)
      · rename_i letter _
        extract_lets w₂
        have hq₂ : w₁.Quiet w₂ := .of_eq rfl rfl rfl rfl rfl
        have hloc₂ : w₂.location volume = some (sv.deviceIndex, firstLba, count) := hloc₁
        refine .before hq₂ ?_
        split <;> rename_i w₃ hm
        · have hun : w₃.Quiet (w₃.unmountLocked letter) := .of_eq rfl rfl rfl rfl rfl
          exact (mountForDrive_step href hloc₂ hle hm).after (hun.trans (.note _ _ _))
        · refine (mountForDrive_step href hloc₂ hle hm).after ?_
          split
          · exact .note _ _ _
          · exact .note _ _ _

end Mounting

section Inspect

theorem inspectFat_some {v : FatVolume} (h : inspectFat sv firstLba sectorCount w = some v) :
    v.mountRef = none ∧ v.deviceIndex = sv.deviceIndex ∧ v.partitionLba = firstLba ∧ v.totalSectors ≤ sectorCount := by
  unfold inspectFat at h
  split at h
  · cases h
  · obtain ⟨sector, -, h⟩ := Option.bind_eq_some_iff.1 h
    split at h
    · cases h
    · extract_lets bytesPerSector sectorsPerCluster reserved fatCount rootEntries fat16 total16 fat32 root total volume
        metadata clusters at h
      split at h
      · cases h
      · split at h
        · cases h
        · split at h
          · cases h
          · rename_i hbounds
            simp only [not_or, Nat.not_lt] at hbounds
            split at h
            · cases h
            · split at h
              · rw [← Option.some.inj h]
                exact ⟨rfl, rfl, rfl, hbounds.2.2.2.2.2.1⟩
              · cases h

theorem ntfsSlot_some {i : Fin 26} {state : NtfsState} (h : ntfsSlot sv firstLba w = some i)
    (hstate : w.ntfsStates i = some state) : state.deviceIndex = sv.deviceIndex ∧ state.partitionLba = firstLba := by
  unfold ntfsSlot at h
  split at h
  · rename_i j hj
    cases h
    have := List.find?_some hj
    rw [hstate] at this
    simpa using this
  · have := List.find?_some h
    rw [hstate] at this
    cases this

theorem inspectNtfs_some {found : Option NtfsVolume} (h : inspectNtfs sv firstLba sectorCount w = (found, w')) :
    w.Quiet w' ∧ ∀ v, found = some v → v.mountRef = none ∧
      ∃ count, w'.location (.ntfs v) = some (sv.deviceIndex, firstLba, count) ∧ count ≤ sectorCount := by
  unfold inspectNtfs at h
  split at h
  · cases h
    exact ⟨.refl w, fun v hv => by cases hv⟩
  · split at h
    · cases h
      exact ⟨.refl w, fun v hv => by cases hv⟩
    · rename_i i hslot
      split at h
      · rename_i state hstate
        split at h
        · cases h
          exact ⟨.refl w, fun v hv => by cases hv⟩
        · rename_i hle
          cases h
          refine ⟨.refl w, fun v hv => ?_⟩
          cases hv
          obtain ⟨hd, hf⟩ := ntfsSlot_some hslot hstate
          refine ⟨rfl, state.totalSectors, ?_, Nat.not_lt.1 hle⟩
          simp only [World.location]
          rw [dif_pos i.isLt, hstate, Option.map_some, hd, hf]
      · rename_i hfree
        split at h
        · cases h
          exact ⟨.refl w, fun v hv => by cases hv⟩
        · split at h
          · cases h
            exact ⟨.refl w, fun v hv => by cases hv⟩
          · rename_i info _
            split at h
            · cases h
              exact ⟨.refl w, fun v hv => by cases hv⟩
            · rename_i hinfo
              simp only [not_or, Nat.not_lt] at hinfo
              extract_lets state at h
              split at h
              · cases h
                refine ⟨⟨⟨rfl, fun _ _ => rfl, fun j s hs => ?_⟩, rfl⟩, fun v hv => ?_⟩
                · show Function.update w.ntfsStates i (some state) j = some s
                  rw [Function.update_of_ne]
                  · exact hs
                  · rintro rfl
                    rw [hfree] at hs
                    cases hs
                · cases hv
                  refine ⟨rfl, info.totalSectors, ?_, hinfo.2.1⟩
                  simp only [World.location]
                  rw [dif_pos i.isLt, Function.update_self, Option.map_some]
              · cases h
                exact ⟨.refl w, fun v hv => by cases hv⟩

end Inspect

theorem probeFileSystem_quiet : w.Quiet (probeFileSystem sv firstLba w).2 := by
  unfold probeFileSystem
  split
  · exact .note _ _ _
  · split
    · exact .refl w
    · split
      · exact .refl w
      · exact .note _ _ _

/-- **One entry mounts inside its own range**, if that lies on the device, or not at all. -/
theorem mountPartition_step {boot : Bool} {requested : FileSystemHint} {name : String} :
    w.Quiet (mountPartition sv firstLba sectorCount boot requested name w) ∨
    (1 ≤ firstLba ∧ firstLba + sectorCount ≤ sv.reader.sectors ∧
      Step sv firstLba sectorCount w (mountPartition sv firstLba sectorCount boot requested name w)) := by
  unfold mountPartition
  split
  · exact .inl (.note _ _ _)
  · rename_i hrange
    split
    · exact .inl (.note _ _ _)
    · split
      · exact .inl (.note _ _ _)
      · extract_lets byteCount
        split
        · exact .inl (.note _ _ _)
        · refine .inr ⟨by omega, by omega, ?_⟩
          have hq : w.Quiet (if requested = .probe then probeFileSystem sv firstLba w else (requested, w)).2 := by
            split
            · exact probeFileSystem_quiet
            · exact .refl w
          generalize (if requested = .probe then probeFileSystem sv firstLba w else (requested, w)) = probed at hq ⊢
          obtain ⟨hint, w₁⟩ := probed
          refine .before hq ?_
          cases hint with
          | fat32 =>
            dsimp only
            split
            · exact .quiet (.note _ _ _)
            · rename_i v hv
              obtain ⟨href, hd, hf, hle⟩ := inspectFat_some hv
              exact mountVolume_step href (by simp only [World.location, hd, hf]) hle
          | ntfs =>
            dsimp only
            split
            · rename_i w₂ hv
              exact .quiet ((inspectNtfs_some hv).1.trans (.note _ _ _))
            · rename_i v w₂ hv
              obtain ⟨hq₂, hsome⟩ := inspectNtfs_some hv
              obtain ⟨href, count, hloc, hle⟩ := hsome v rfl
              exact .before hq₂ (mountVolume_step href hloc hle)
          | probe => exact .quiet (.refl _)

end Steps

/-! ## The entries as they are read -/

section Reading

variable {r : Reader}

/-- The cache holds what the device holds. -/
def CacheOk (r : Reader) (cache : Cache) : Prop := ∀ lba bytes, cache = some (lba, bytes) → readSector r lba = some bytes

theorem cacheOk_none : CacheOk r none := fun _ _ h => by cases h

theorem readCached_fst (lba : Nat) {cache : Cache} (hc : CacheOk r cache) :
    (readCached r lba cache).map Prod.fst = readSector r lba := by
  have fresh : ((readSector r lba).map fun bytes => (bytes, some (lba, bytes))).map Prod.fst = readSector r lba := by
    rw [Option.map_map]
    exact Option.map_id'
  unfold readCached
  cases cache with
  | none => exact fresh
  | some held =>
    dsimp only
    by_cases hl : held.1 = lba
    · rw [if_pos hl]
      exact (hl ▸ hc held.1 held.2 rfl).symm
    · rw [if_neg hl]
      exact fresh

theorem readCached_snd {lba : Nat} {bytes : Bytes} {cache next : Cache} (hc : CacheOk r cache)
    (h : readCached r lba cache = some (bytes, next)) : CacheOk r next := by
  have fresh : ∀ {next : Cache}, (readSector r lba).map (fun bytes => (bytes, some (lba, bytes))) = some (bytes, next) →
      CacheOk r next := by
    intro next hm
    obtain ⟨b, hb, he⟩ := Option.map_eq_some_iff.1 hm
    obtain ⟨rfl, rfl⟩ := Prod.mk.inj he
    intro lba' bytes' h'
    cases h'
    exact hb
  unfold readCached at h
  cases cache with
  | none => exact fresh h
  | some held =>
    dsimp only at h
    split at h
    · cases h
      exact hc
    · exact fresh h

/-- **The cache does not show**: what is read does not depend on it, and it stays right. -/
theorem readFrom_cache (entriesLba sourceOffset remaining : Nat) (done : Bytes) {cache cache' : Cache}
    (hc : CacheOk r cache) (hc' : CacheOk r cache') :
    (readFrom r entriesLba sourceOffset remaining done cache).1 =
    (readFrom r entriesLba sourceOffset remaining done cache').1 ∧
    CacheOk r (readFrom r entriesLba sourceOffset remaining done cache).2 := by
  rw [readFrom, readFrom]
  by_cases h0 : remaining = 0
  · rw [dif_pos h0, dif_pos h0]
    exact ⟨rfl, hc⟩
  · rw [dif_neg h0, dif_neg h0]
    have h1 := readCached_fst (entriesLba + sourceOffset / sectorSize) hc
    rw [← readCached_fst _ hc'] at h1
    cases hr : readCached r (entriesLba + sourceOffset / sectorSize) cache with
    | none =>
      rw [hr] at h1
      rw [Option.map_eq_none_iff.1 h1.symm]
      exact ⟨rfl, hc⟩
    | some x =>
      obtain ⟨sector, next⟩ := x
      rw [hr] at h1
      obtain ⟨⟨sector', next'⟩, hr', hs⟩ := Option.map_eq_some_iff.1 h1.symm
      obtain rfl : sector' = sector := hs
      rw [hr']
      exact readFrom_cache _ _ _ _ (readCached_snd hc hr) (readCached_snd hc' hr')
termination_by remaining
decreasing_by
  have : sourceOffset % sectorSize < sectorSize := Nat.mod_lt _ (by decide)
  omega

end Reading

/-! ## The walk -/

/-- The volume stands at the front of an entry of the accepted table, and the entry lies on the device. -/
structure Mounted (sv : Services) (w : World) (v : Volume) (index : Nat) (e : Entry) (count : Nat) : Prop where
  entry : entryAt sv.reader index = some e
  plain : Kernel.isExtended e.mbrType = false
  stands : w.Stands v sv.deviceIndex e.firstLba count
  first_pos : 1 ≤ e.firstLba
  inside : e.firstLba + e.sectorCount ≤ sv.reader.sectors
  count_pos : 0 < count
  count_le : count ≤ e.sectorCount

/-- A volume that was not there before. -/
def World.New (w w' : World) (place : Option (Fin 26)) (v : Volume) : Prop :=
  w.volumeAt place = none ∧ w'.volumeAt place = some v

/-- **The state before the entry of an index**: every new volume belongs to an entry before it, each to its own. -/
structure Upto (sv : Services) (w₀ : World) (entryOf : Option (Fin 26) → Nat) (index : Nat) (w : World) : Prop where
  mounted : ∀ place v, w₀.New w place v → entryOf place < index ∧ ∃ e count, Mounted sv w v (entryOf place) e count
  once : ∀ p q u v, w₀.New w p u → w₀.New w q v → entryOf p = entryOf q → p = q
  kept : ∀ place v, w₀.volumeAt place = some v → w.volumeAt place = some v

def Reached (sv : Services) (w₀ : World) (index : Nat) (w : World) : Prop := ∃ entryOf, Upto sv w₀ entryOf index w

section Walk

variable {sv : Services} {w₀ w w' : World} {index : Nat}

theorem Mounted.keeps {v : Volume} {e : Entry} {count : Nat} (h : Mounted sv w v index e count) (g : w.Keeps w') :
    Mounted sv w' v index e count := { h with stands := h.stands.keeps g }

theorem Reached.start (sv : Services) (w : World) : Reached sv w 0 w :=
  ⟨fun _ => 0, fun _ _ h => absurd (h.1.symm.trans h.2) nofun, fun _ _ _ _ h => absurd (h.1.symm.trans h.2) nofun,
    fun _ _ h => h⟩

theorem Reached.quiet (h : Reached sv w₀ index w) (g : w.Quiet w') {next : Nat} (hn : index ≤ next) :
    Reached sv w₀ next w' := by
  obtain ⟨entryOf, hm, ho, hk⟩ := h
  have hback : ∀ {place v}, w₀.New w' place v → w₀.New w place v := fun hv => ⟨hv.1, g.same ▸ hv.2⟩
  refine ⟨entryOf, fun place v hv => ?_, fun p q u v hu hv => ho p q u v (hback hu) (hback hv), fun place v hv => ?_⟩
  · obtain ⟨hlt, e, count, h⟩ := hm place v (hback hv)
    exact ⟨by omega, e, count, h.keeps g.keeps⟩
  · rw [g.same]
    exact hk place v hv

/-- **One entry on**: a volume that it mounts is its own. -/
theorem Reached.entry {e : Entry} (h : Reached sv w₀ index w) (he : entryAt sv.reader index = some e)
    (hx : Kernel.isExtended e.mbrType = false)
    (hs : w.Quiet w' ∨ (1 ≤ e.firstLba ∧ e.firstLba + e.sectorCount ≤ sv.reader.sectors ∧
      Step sv e.firstLba e.sectorCount w w')) : Reached sv w₀ (index + 1) w' := by
  rcases hs with g | ⟨h1, hin, g | ⟨keeps, place, v, count, free, new, stands, h0, hle⟩⟩
  · exact h.quiet g (Nat.le_succ _)
  · exact h.quiet g (Nat.le_succ _)
  · obtain ⟨entryOf, hm, ho, hk⟩ := h
    -- away from the place nothing is new that was not new before
    have hback : ∀ {p u}, p ≠ place → w₀.New w' p u → w₀.New w p u := by
      intro p u hp hu
      refine ⟨hu.1, ?_⟩
      rw [← hu.2, new, Function.update_of_ne hp]
    refine ⟨Function.update entryOf place index, fun p u hu => ?_, fun p q u u' hu hu' hpq => ?_, fun p u hu => ?_⟩
    · by_cases hp : p = place
      · subst hp
        have huv : u = v := by
          have := hu.2
          rw [new, Function.update_self] at this
          exact (Option.some.inj this).symm
        rw [Function.update_self, huv]
        exact ⟨Nat.lt_succ_self _, e, count, he, hx, stands, h1, hin, h0, hle⟩
      · rw [Function.update_of_ne hp]
        obtain ⟨hlt, e', count', hmounted⟩ := hm p u (hback hp hu)
        exact ⟨by omega, e', count', hmounted.keeps keeps⟩
    · by_cases hp : p = place <;> by_cases hq : q = place
      · rw [hp, hq]
      · rw [hp, Function.update_self, Function.update_of_ne hq] at hpq
        have := (hm q u' (hback hq hu')).1
        omega
      · rw [hq, Function.update_self, Function.update_of_ne hp] at hpq
        have := (hm p u (hback hp hu)).1
        omega
      · rw [Function.update_of_ne hp, Function.update_of_ne hq] at hpq
        exact ho p q u u' (hback hp hu) (hback hq hu') hpq
    · have := hk p u hu
      rw [new, Function.update_of_ne]
      · exact this
      · rintro rfl
        rw [free] at this
        cases this

theorem driveKind_plain {typeId : UInt8} {kind : DriveKind} (h : driveKind typeId = some kind) :
    Kernel.isExtended typeId = false := by
  unfold driveKind at h
  split at h
  · rename_i ht
    rcases ht with rfl | rfl <;> rfl
  · split at h
    · rename_i ht
      subst ht
      rfl
    · cases h

/-- **One slot of the MBR.** -/
theorem Reached.slot {raw : Bytes} (h : Reached sv w₀ index w) (he : entryAt sv.reader index = slotEntry raw) :
    Reached sv w₀ (index + 1) (mountSlot sv raw w) := by
  unfold mountSlot
  extract_lets typeId sectorCount w₁
  split
  · exact h.quiet (.refl w) (Nat.le_succ _)
  · rename_i hused
    have hsome : slotEntry raw = some { firstLba := getLe raw 8 4, sectorCount, mbrType := typeId } := if_neg hused
    have hq₁ : w.Quiet w₁ := .onReport _ _
    split
    · exact h.quiet (hq₁.trans (.note _ _ _)) (Nat.le_succ _)
    · rename_i kind hk
      exact (h.quiet (hq₁.trans (.onReport _ _)) (Nat.le_refl _)).entry (he.trans hsome) (driveKind_plain hk)
        mountPartition_step

theorem Reached.slots : ∀ {raws : List Bytes} {index : Nat} {w : World}, Reached sv w₀ index w →
    (∀ k raw, raws[k]? = some raw → entryAt sv.reader (index + k) = slotEntry raw) →
    Reached sv w₀ (index + raws.length) (raws.foldl (fun w raw => mountSlot sv raw w) w)
  | [], _, _, h, _ => h
  | raw :: raws, index, w, h, he => by
    have : Reached sv w₀ (index + 1 + raws.length) (raws.foldl (fun w raw => mountSlot sv raw w) (mountSlot sv raw w)) :=
      Reached.slots (h.slot (he 0 raw rfl))
        (fun k raw' hk => by rw [Nat.add_right_comm, Nat.add_assoc]; exact he (k + 1) raw' hk)
    rw [List.length_cons, ← Nat.add_assoc, Nat.add_right_comm]
    exact this

/-- **One entry of the array.** -/
theorem Reached.gpt {p : Gpt.Partition} (h : Reached sv w₀ index w)
    (he : entryAt sv.reader index =
      some { firstLba := p.firstLba, sectorCount := p.sectorCount, typeGuid := p.typeGuid }) :
    Reached sv w₀ (index + 1) (mountGpt sv p w) := by
  unfold mountGpt
  extract_lets w₁ mountable
  have hq₁ : w.Quiet w₁ := .onReport _ _
  have hq₂ : w₁.Quiet (mountable w₁) := .onReport _ _
  split
  · exact (h.quiet (hq₁.trans hq₂) (Nat.le_refl _)).entry he rfl mountPartition_step
  · exact (h.quiet (hq₁.trans hq₂) (Nat.le_refl _)).entry he rfl mountPartition_step
  · exact h.quiet (hq₁.trans (.note _ _ _)) (Nat.le_succ _)

/-- **The array from an index on**; the walk may end at an entry that cannot be read. -/
theorem Reached.entries {header : Header} {count : Nat}
    (hat : ∀ k, k < count → entryAt sv.reader k = gptEntry sv.reader header k) : ∀ {left index : Nat} {cache : Cache}
    {w : World}, Reached sv w₀ index w → index + left = count → CacheOk sv.reader cache →
    Reached sv w₀ count (mountEntries sv header left index cache w)
  | 0, index, cache, w, h, hn, _ => by
    rw [Nat.add_zero] at hn
    exact hn ▸ h
  | left + 1, index, cache, w, h, hn, hc => by
    have hread := readFrom_cache header.entriesLba (index * header.entrySize) header.entrySize [] hc cacheOk_none
    have he := hat index (by omega)
    rw [mountEntries]
    split
    · exact h.quiet (.note _ _ _) (by omega)
    · rename_i raw next hr
      unfold readEntry at hr
      rw [hr] at hread
      have hraw : (readEntry sv.reader header index none).1 = some raw := hread.1.symm
      unfold gptEntry at he
      rw [hraw, Option.bind_some] at he
      split
      · exact Reached.entries hat (h.quiet (.note _ _ _) (Nat.le_succ _)) (by omega) hread.2
      · exact Reached.entries hat (h.quiet (.refl w) (Nat.le_succ _)) (by omega) hread.2
      · rename_i p hp
        rw [hp] at he
        exact Reached.entries hat (h.gpt he) (by omega) hread.2

theorem Reached.scanGpt {mbr : Bytes} (h : Reached sv w₀ 0 w) (hr : readSector sv.reader 0 = some mbr)
    (hp : protective mbr = true) : ∃ count, Reached sv w₀ count (scanGpt sv w) := by
  have hat : ∀ {header}, acceptedHeader sv.reader = some header →
      ∀ k, k < header.entryCount → entryAt sv.reader k = gptEntry sv.reader header k := by
    intro header ha k hk
    unfold entryAt
    rw [hr, Option.bind_some, if_pos hp, ha, Option.bind_some, if_pos hk]
  unfold BootScan.scanGpt
  extract_lets w₁ accept
  have hq₁ : w.Quiet w₁ := .onReport _ _
  have haccept : ∀ {header kind detail w₂}, acceptedHeader sv.reader = some header → w.Quiet w₂ →
      Reached sv w₀ header.entryCount (accept kind detail header w₂) := fun ha hq =>
    Reached.entries (hat ha) (h.quiet (hq.trans (.onReport _ _)) (Nat.le_refl 0)) (Nat.zero_add _) cacheOk_none
  split
  · rename_i header hl
    exact ⟨_, haccept (by unfold acceptedHeader; rw [hl]) hq₁⟩
  · rename_i detail hl
    extract_lets w₂
    have hq₂ : w.Quiet w₂ := hq₁.trans (.onReport _ _)
    split
    · rename_i hn
      split
      · rename_i header hb
        refine ⟨_, haccept ?_ hq₂⟩
        unfold acceptedHeader
        rw [hl]
        dsimp only
        rw [if_pos hn, hb]
        rfl
      · exact ⟨0, h.quiet (hq₂.trans (.onReport _ _)) (Nat.le_refl 0)⟩
    · exact ⟨0, h.quiet hq₂ (Nat.le_refl 0)⟩

/-- **The whole scan**: every new volume belongs to an entry of its own. -/
theorem scan_reached (sv : Services) (w : World) : ∃ count, Reached sv w count (scan sv w) := by
  unfold scan
  extract_lets w₁
  have hq₁ : w.Quiet w₁ := .of_eq rfl rfl rfl rfl rfl
  have h₁ : Reached sv w 0 w₁ := (Reached.start sv w).quiet hq₁ (Nat.le_refl 0)
  have hquiet : ∀ f, Reached sv w 0 (w₁.onReport f) := fun f => h₁.quiet (.onReport _ _) (Nat.le_refl 0)
  split
  · exact ⟨0, hquiet _⟩
  · split
    · exact ⟨0, hquiet _⟩
    · split
      · exact ⟨0, hquiet _⟩
      · rename_i mbr hr
        split
        · exact ⟨0, hquiet _⟩
        · split
          · rename_i hp
            exact h₁.scanGpt hr hp
          · rename_i hp
            have hp : ¬ protective mbr = true := hp
            refine ⟨_, Reached.slots (hquiet _) (fun k raw hk => ?_)⟩
            have hk4 : k < 4 := by
              have := (List.getElem?_eq_some_iff.1 hk).1
              rwa [mbrSlots, List.length_map, List.length_range] at this
            have hraw : raw = mbrSlot mbr k := by
              rw [mbrSlots, List.getElem?_map, List.getElem?_range hk4] at hk
              exact (Option.some.inj hk).symm
            unfold entryAt
            rw [hr, Option.bind_some, if_neg hp, Nat.zero_add, if_pos hk4, hraw]

end Walk

end BootScan
end R4
