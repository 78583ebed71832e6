import R4Recovery.InstallationText
import R4Recovery.PartitionTableAgree
/-!
# InstallationAgree — the kernel finds the installation the tools made

The partitions of a prepared layout, committed to a blank disk, are the ones the kernel's scan reports (`scan_installed`),
and the manifest matches that scan.
-/
namespace R4
namespace Installation

open Gpt (Guid Entry Plan Op)
open Kernel (Table Partition scan readerOf partsFrom entryPart)

/-! ## The layout -/

theorem checkIds_ok : ∀ {ids seen : List Guid}, checkIds seen ids = .ok () →
    (∀ id ∈ ids, id ≠ Guid.zero ∧ id ∉ seen) ∧ ids.Nodup
  | [], _, _ => ⟨fun _ hx => absurd hx List.not_mem_nil, .nil⟩
  | id :: ids, seen, h => by
    obtain ⟨_, h1, h⟩ := Except.bind_ok.1 h
    obtain ⟨_, h2, h⟩ := Except.bind_ok.1 h
    have hz : id ≠ Guid.zero := by simpa using ensure_ok.1 h1
    have hs : id ∉ seen := by simpa using ensure_ok.1 h2
    obtain ⟨hrest, hnd⟩ := checkIds_ok h
    refine ⟨fun g hg => ?_, List.nodup_cons.2 ⟨fun hg => ?_, hnd⟩⟩
    · rcases List.mem_cons.1 hg with rfl | hg
      · exact ⟨hz, hs⟩
      · exact ⟨(hrest g hg).1, fun hc => (hrest g hg).2 (List.mem_append_left _ hc)⟩
    · exact (hrest id hg).2 (List.mem_append_right _ List.mem_cons_self)

/-- **A prepared layout is well formed.** -/
theorem prepare_wellformed {sectors sectorBytes : Nat} {ids : Identifiers} {layout : Layout}
    (h : Layout.prepare sectors sectorBytes ids = .ok layout) : layout.Wellformed := by
  obtain ⟨_, h1, h⟩ := Except.bind_ok.1 h
  obtain ⟨ranges, h2, h⟩ := Except.bind_ok.1 h
  cases h
  obtain ⟨hids, hnd⟩ := checkIds_ok h1
  unfold Installation.ranges at h2
  dsimp only at h2
  split at h2
  · cases h2
  · rename_i hbad
    simp only [systemMb, recoveryMb, minimumDataSectors] at hbad h2
    cases h2
    refine ⟨fun id hid => (hids id hid).1, hnd, fun role => ?_, ?_⟩
    · cases role
      all_goals
        simp only [Range.Fits, PerRole.get]
        omega
    · simp only [PerRole.toList, List.pairwise_cons, List.mem_cons, List.not_mem_nil, or_false, forall_eq_or_imp, forall_eq]
      simp

/-! ## The table -/

def Layout.name (role : Role) : Gpt.Name := Vector.ofFn (fun i => (role.name.getD i.val 0).toUInt16)

/-- The entry of a role. -/
def Layout.entry (self : Layout) (role : Role) : Entry :=
  { present := true, first := (self.ranges.get role).first, count := (self.ranges.get role).count, typeGuid := typeGuid role
    uniqueGuid := self.ids.partitions.get role, name := Layout.name role }

theorem addRole_eq (self : Layout) (table : Plan) (role : Role) :
    self.addRole table role = liftTable (table.add (self.entry role)) := by
  cases role <;> rfl

theorem liftTable_ok {α : Type} {x : Except R4.Error α} {a : α} : liftTable x = .ok a ↔ x = .ok a := by
  cases x with
  | error e => exact ⟨nofun, nofun⟩
  | ok b => simp [liftTable]

theorem addRoles_edits {self : Layout} {q : Plan} : ∀ {roles : List Role} {p : Plan}, roles.foldlM self.addRole p = .ok q →
    p.edits (roles.map (fun role => .add (self.entry role))) = .ok q
  | [], _, h => by
    rw [List.foldlM_nil] at h
    cases h
    rfl
  | role :: roles, p, h => by
    obtain ⟨p', h1, h2⟩ := Except.bind_ok.1 h
    rw [addRole_eq, liftTable_ok] at h1
    exact Except.bind_ok.2 ⟨p', h1, addRoles_edits h2⟩

/-- **Binding a layout is initializing the table and adding the five partitions.** -/
theorem bind_ok {self : Layout} {p q : Plan} (h : self.bind p = .ok q) : p.sectors = self.sectors ∧
    ∃ t, p.initializeGpt self.ids.disk = .ok t ∧
      t.edits (Role.all.map (fun role => .add (self.entry role))) = .ok q := by
  unfold Layout.bind at h
  obtain ⟨expected, -, h⟩ := Except.bind_ok.1 h
  obtain ⟨_, h2, h⟩ := Except.bind_ok.1 h
  obtain ⟨t, h3, h⟩ := Except.bind_ok.1 h
  have hs := ensure_ok.1 h2
  simp only [Bool.and_eq_true, beq_iff_eq] at hs
  exact ⟨hs.1.1.1, t, liftTable_ok.1 h3, addRoles_edits h⟩

theorem add_live {p q : Plan} {e : Entry} {es rest : List Entry} (h : p.add e = .ok q) (hes : ∀ x ∈ es, x.present = true)
    (hrest : ∀ x ∈ rest, x = {}) (hlive : p.live = es ++ rest) :
    e.present = true ∧ q.live = es ++ e :: rest.drop 1 ∧ q = { p with entries := q.entries } := by
  obtain ⟨_, h1, h⟩ := Except.bind_ok.1 h
  have hp := reject_ok.1 h1
  simp only [Bool.or_eq_false_iff, Bool.not_eq_false'] at hp
  have hused : es.findIdx? (fun e => !e.present) = none :=
    List.findIdx?_eq_none_iff.2 (fun x hx => by rw [hes x hx]; rfl)
  cases rest with
  | nil =>
    rw [Plan.freeSlot, hlive, List.append_nil, hused] at h
    cases h
  | cons x rest =>
    have hx := hrest x List.mem_cons_self
    have hslot : p.freeSlot = some es.length := by
      rw [Plan.freeSlot, hlive, List.findIdx?_append, hused, hx]
      simp [List.findIdx?_cons]
    rw [hslot] at h
    obtain ⟨_, -, h⟩ := Except.bind_ok.1 h
    cases h
    refine ⟨hp.1, ?_, rfl⟩
    rw [Gpt.live_setEntry, hlive, List.set_append_right _ _ (Nat.le_refl _), Nat.sub_self]
    rfl

theorem adds_live : ∀ {new : List Entry} {p q : Plan} {es rest : List Entry}, p.edits (new.map Op.add) = .ok q →
    (∀ x ∈ es, x.present = true) → (∀ x ∈ rest, x = {}) → p.live = es ++ rest →
    q.live = (es ++ new) ++ rest.drop new.length ∧ q = { p with entries := q.entries }
  | [], p, q, es, rest, h, _, _, hlive => by
    cases h
    rw [List.append_nil]
    exact ⟨hlive, rfl⟩
  | e :: new, p, q, es, rest, h, hes, hrest, hlive => by
    obtain ⟨p', h1, h2⟩ := Except.bind_ok.1 h
    obtain ⟨he, hlive', hp'⟩ := add_live h1 hes hrest hlive
    have hes' : ∀ x ∈ es ++ [e], x.present = true := by
      intro x hx
      rcases List.mem_append.1 hx with hx | hx
      · exact hes x hx
      · rw [List.mem_singleton.1 hx]
        exact he
    obtain ⟨hq, hframe⟩ := adds_live h2 hes' (fun x hx => hrest x (List.mem_of_mem_drop hx))
      (by rw [hlive', List.append_assoc, List.singleton_append])
    refine ⟨?_, ?_⟩
    · rw [hq, List.drop_drop, List.append_assoc es, List.singleton_append, List.length_cons, Nat.add_comm]
    · rw [hframe, hp']

/-- The partitions of the layout, as the kernel numbers them. -/
def Layout.planned (self : Layout) : List Partition :=
  [entryPart 1 (self.entry .biosboot), entryPart 2 (self.entry .boot), entryPart 3 (self.entry .system),
    entryPart 4 (self.entry .recovery), entryPart 5 (self.entry .data)]

theorem partsFrom_empty : ∀ (rest : List Entry) (index : Nat), (∀ x ∈ rest, x = {}) → partsFrom index rest = []
  | [], _, _ => rfl
  | x :: rest, index, h => by
    rw [partsFrom, h x List.mem_cons_self, if_neg (by decide)]
    exact partsFrom_empty rest (index + 1) (fun y hy => h y (List.mem_cons_of_mem _ hy))

section Disk

variable {sha : Bytes → Bytes} {dev : Device} {scratchLen : Nat} {F : Faults} {w w' : World} {p q : Plan} {layout : Layout}

/-- **The table of a bound layout.** -/
theorem bind_table (hread : Plan.read sha dev scratchLen F w = (.ok p, w')) (hbind : layout.bind p = .ok q) :
    q.Shape ∧ q.kind = .gpt ∧ q.diskGuid = layout.ids.disk ∧
    ∃ rest : List Entry, q.live = Role.all.map layout.entry ++ rest ∧ ∀ x ∈ rest, x = {} := by
  obtain ⟨hs, hn⟩ := Gpt.planRead_shape hread
  obtain ⟨-, t, h1, h2⟩ := bind_ok hbind
  have hedits : p.edits (.initializeGpt layout.ids.disk :: Role.all.map (fun role => .add (layout.entry role))) = .ok q :=
    Except.bind_ok.2 ⟨t, h1, h2⟩
  have hshape := Gpt.edits_shape hs hn hedits
  obtain ⟨hk, hkt, he⟩ := Gpt.initializeGpt_ok h1
  have hg : t.diskGuid = layout.ids.disk := by
    obtain ⟨_, -, h1⟩ := Except.bind_ok.1 h1
    obtain ⟨_, -, h1⟩ := Except.bind_ok.1 h1
    cases h1
    rfl
  have hempty : ∀ x ∈ t.live, x = {} := by
    intro x hx
    rw [Plan.live, he, List.mem_take_iff_getElem] at hx
    obtain ⟨i, hi, rfl⟩ := hx
    have h128 : i < 128 := by simp at hi; omega
    simpa using hs.beyond i h128 (by rw [hn hk]; omega)
  obtain ⟨hlive, hframe⟩ := @adds_live (Role.all.map layout.entry) t q [] t.live (by rw [List.map_map]; exact h2)
    (fun _ hx => absurd hx List.not_mem_nil) hempty rfl
  refine ⟨hshape, ?_, ?_, _, hlive, fun x hx => hempty x (List.mem_of_mem_drop hx)⟩
  · rw [hframe]
    exact hkt
  · rw [hframe]
    exact hg

/-- **The kernel scans the committed layout to its five partitions.** -/
theorem scan_installed {target : Device} {workLen : Nat} {G : Faults} {v v' : World}
    (hread : Plan.read sha dev scratchLen F w = (.ok p, w')) (hbind : layout.bind p = .ok q)
    (hcommit : q.commit sha target workLen G v = (.ok (), v')) :
    (scan (readerOf v'.disk target.sectors)).valid = true ∧ (scan (readerOf v'.disk target.sectors)).kind = .gpt ∧
    (scan (readerOf v'.disk target.sectors)).diskGuid = layout.ids.disk ∧
    (scan (readerOf v'.disk target.sectors)).items = layout.planned := by
  obtain ⟨hshape, hk, hg, rest, hlive, hrest⟩ := bind_table hread hbind
  obtain ⟨hval, hdev, hsec, -⟩ := Gpt.commit_ok hcommit
  obtain ⟨hon, hm⟩ := Gpt.commit_gpt_ok hcommit hk
  have hprot := Gpt.protective_protectiveSector q
  rw [← hm] at hprot
  have ha := Gpt.agreeing_onDisk hval hk hshape hon hprot
  rw [hsec, Kernel.scan_gpt (by rw [← hsec]; exact (Device.sectors_pos hdev).2) ha]
  refine ⟨rfl, rfl, hg, ?_⟩
  show partsFrom 0 (q.live.map Entry.gptPart) = _
  have hnone : ∀ index, partsFrom index (rest.map Entry.gptPart) = [] := by
    refine fun index => partsFrom_empty _ index (fun x hx => ?_)
    obtain ⟨y, hy, rfl⟩ := List.mem_map.1 hx
    rw [hrest y hy]
    rfl
  rw [hlive, List.map_append, Kernel.partsFrom_append, hnone, List.append_nil]
  rfl

end Disk

/-! ## The manifest and the scan -/

theorem partMatches_planned {layout : Layout} (hw : layout.Wellformed) {table : Table} (ht : table.items = layout.planned)
    (role : Role) : Kernel.partMatches table (layout.part role) = true := by
  have hmem : ∀ p ∈ layout.planned, ∃ r n, p = entryPart n (layout.entry r) := by
    intro p hp
    simp only [Layout.planned, List.mem_cons, List.not_mem_nil, or_false] at hp
    rcases hp with rfl | rfl | rfl | rfl | rfl
    · exact ⟨.biosboot, 1, rfl⟩
    · exact ⟨.boot, 2, rfl⟩
    · exact ⟨.system, 3, rfl⟩
    · exact ⟨.recovery, 4, rfl⟩
    · exact ⟨.data, 5, rfl⟩
  have hinj : ∀ r r' : Role, layout.ids.partitions.get r = layout.ids.partitions.get r' → r = r' := by
    have hnd := (List.nodup_cons.1 (List.nodup_cons.1 hw.distinct).2).2
    have hnd : (Role.all.map layout.ids.partitions.get).Nodup := hnd
    exact fun r r' h => List.inj_on_of_nodup_map hnd (by cases r <;> decide) (by cases r' <;> decide) h
  unfold Kernel.partMatches
  rw [ht, Bool.and_eq_true]
  refine ⟨List.all_eq_true.2 (fun p hp => ?_), List.any_eq_true.2 ?_⟩
  · obtain ⟨hp, hg⟩ := List.mem_filter.1 hp
    obtain ⟨r, n, rfl⟩ := hmem p hp
    obtain rfl := hinj role r (beq_iff_eq.1 hg)
    simp [entryPart, Layout.part, Layout.entry]
  · cases role
    · exact ⟨_, List.mem_cons_self, by simp [entryPart, Layout.part, Layout.entry]⟩
    · exact ⟨entryPart 2 (layout.entry .boot), by simp [Layout.planned], by simp [entryPart, Layout.part, Layout.entry]⟩
    · exact ⟨entryPart 3 (layout.entry .system), by simp [Layout.planned], by simp [entryPart, Layout.part, Layout.entry]⟩
    · exact ⟨entryPart 4 (layout.entry .recovery), by simp [Layout.planned], by simp [entryPart, Layout.part, Layout.entry]⟩
    · exact ⟨entryPart 5 (layout.entry .data), by simp [Layout.planned], by simp [entryPart, Layout.part, Layout.entry]⟩

/-- The kernel finds the installation: the scan is valid and has the planned partitions, and the manifest is read within the
kernel's limit and matches the scan. -/
structure Found (layout : Layout) (table : Table) (text : Bytes) : Prop where
  valid : table.valid = true
  parts : table.items = layout.planned
  size : text.length ≤ Kernel.maxManifestBytes
  manifest : ∃ m, Kernel.parseManifest text = .ok m ∧ m.matches table (layout.ids.partitions.get .boot) = true

/-- **The kernel finds an installation exactly when neither version has an underscore.** -/
theorem installation_found {sectors sectorBytes : Nat} {ids : Identifiers} {layout : Layout} {sha : Bytes → Bytes}
    {dev target : Device} {scratchLen workLen : Nat} {F G : Faults} {w w' v v' : World} {p q : Plan}
    {release kernel text : Bytes} {files : List Bytes}
    (hprepare : Layout.prepare sectors sectorBytes ids = .ok layout)
    (hread : Plan.read sha dev scratchLen F w = (.ok p, w')) (hbind : layout.bind p = .ok q)
    (hcommit : q.commit sha target workLen G v = (.ok (), v'))
    (hmanifest : layout.manifest release kernel files = .ok text) :
    Found layout (scan (readerOf v'.disk target.sectors)) text ↔ 95 ∉ release ∧ 95 ∉ kernel := by
  have hw := prepare_wellformed hprepare
  have hacc := manifest_ok hmanifest
  obtain ⟨hvalid, hkind, hguid, hitems⟩ := scan_installed hread hbind hcommit
  have hparse := parseManifest_manifest hacc hw
  constructor
  · rintro ⟨-, -, -, m, hm, -⟩
    by_contra hc
    rw [hparse, if_neg hc] at hm
    cases hm
  · intro hno
    rw [if_pos hno] at hparse
    refine ⟨hvalid, hitems, length_manifest hacc hw.small, layout.read, hparse, ?_⟩
    have hparts : layout.read.partitions.toList.all (Kernel.partMatches (scan (readerOf v'.disk target.sectors))) = true := by
      refine List.all_eq_true.2 (fun part hpart => ?_)
      obtain ⟨role, -, rfl⟩ := List.mem_map.1 (show part ∈ Role.all.map layout.part from hpart)
      exact partMatches_planned hw hitems role
    unfold Kernel.Manifest.matches
    rw [hvalid, hkind, hguid, hparts]
    simp [Layout.read, Layout.part]

/-! ## A blank disk of the standard size -/

def someIds : Identifiers :=
  { installation := Vector.replicate 16 1, disk := Vector.replicate 16 2
    partitions :=
      { biosboot := Vector.replicate 16 3, boot := Vector.replicate 16 4, system := Vector.replicate 16 5
        recovery := Vector.replicate 16 6, data := Vector.replicate 16 7 } }

def someLayout : Layout :=
  { sectors := 46137344, ids := someIds
    ranges :=
      { biosboot := ⟨2048, 2048⟩, boot := ⟨4096, 262144⟩, system := ⟨266240, 33554432⟩, recovery := ⟨33820672, 10485760⟩
        data := ⟨44306432, 1830879⟩ } }

def someDevice : Device := { sectors := 46137344, exclusive := true }

/-- The blank disk as it is read, with an empty table, and with the partitions. -/
def somePlan : Plan := { Gpt.basePlan 46137344 (zeros 512) with blank := true, source.digest := zeros 1536 }

def someTable : Plan :=
  { somePlan with
    kind := .gpt, diskGuid := someIds.disk, firstUsable := 34, lastUsable := 46137310, entryCount := 128, primaryArray := 2
    backupArray := 46137311, mbrPrefix := Vector.replicate 446 0, diskId := 0 }

def someInstalled (n : Nat) : Plan :=
  (Role.all.take n).zipIdx.foldl (fun table role => table.setEntry role.2 (someLayout.entry role.1)) someTable

theorem some_checks : Layout.prepare 46137344 512 someIds = .ok someLayout ∧ (∀ n ≤ 5, (someInstalled n).validate = .ok ()) ∧
    (∀ n < 5, (someInstalled n).freeSlot = some n) ∧ someLayout.expected = .ok someLayout ∧
    checkFiles [] [ascii "boot/r4os.elf"] = .ok () ∧
    ((version (ascii "0.76.8") = true ∧ 95 ∉ ascii "0.76.8") ∧ (version (ascii "1_0.2.3") = true ∧ 95 ∈ ascii "1_0.2.3")) ∧
    ({ Gpt.basePlan 46137344 (zeros 512) with blank := true } : Plan).validate = .ok () ∧
    ∀ s ∈ (someInstalled 5).source.spans, s.1 + s.2 ≤ someDevice.sectors := by decide +kernel

theorem some_versions : (version (ascii "0.76.8") = true ∧ 95 ∉ ascii "0.76.8") ∧
    (version (ascii "1_0.2.3") = true ∧ 95 ∈ ascii "1_0.2.3") := some_checks.2.2.2.2.2.1

theorem some_prepare : Layout.prepare 46137344 512 someIds = .ok someLayout := some_checks.1

theorem some_valid : ∀ n ≤ 5, (someInstalled n).validate = .ok () := some_checks.2.1

theorem some_slot : ∀ n < 5, (someInstalled n).freeSlot = some n := some_checks.2.2.1

theorem some_add (role : Role) {n : Nat} (hn : n < 5) (hrole : (someLayout.entry role).first % Gpt.alignmentSectors = 0)
    (hnext : (someInstalled n).setEntry n (someLayout.entry role) = someInstalled (n + 1)) :
    someLayout.addRole (someInstalled n) role = .ok (someInstalled (n + 1)) := by
  rw [addRole_eq, liftTable_ok]
  refine Except.bind_ok.2 ⟨(), reject_ok.2 ?_, ?_⟩
  · rw [hrole]
    rfl
  · rw [some_slot n hn]
    dsimp only
    rw [hnext]
    exact Except.bind_ok.2 ⟨(), some_valid (n + 1) (by omega), rfl⟩

theorem some_bind : someLayout.bind somePlan = .ok (someInstalled 5) := by
  have hexpected : someLayout.expected = .ok someLayout := some_checks.2.2.2.1
  unfold Layout.bind
  rw [hexpected, ok_bind, ensure_bind (by rfl)]
  refine Except.bind_ok.2 ⟨someTable, liftTable_ok.2 rfl, ?_⟩
  refine Except.bind_ok.2 ⟨_, some_add .biosboot (n := 0) (by decide) (by decide) rfl, ?_⟩
  refine Except.bind_ok.2 ⟨_, some_add .boot (n := 1) (by decide) (by decide) rfl, ?_⟩
  refine Except.bind_ok.2 ⟨_, some_add .system (n := 2) (by decide) (by decide) rfl, ?_⟩
  refine Except.bind_ok.2 ⟨_, some_add .recovery (n := 3) (by decide) (by decide) rfl, ?_⟩
  exact Except.bind_ok.2 ⟨_, some_add .data (n := 4) (by decide) (by decide) rfl, rfl⟩

theorem some_read : ∃ w', Plan.read id someDevice 32768 noFaults Gpt.blankWorld = (.ok somePlan, w') :=
  Gpt.blank_reads (by decide) some_checks.2.2.2.2.2.2.1 (by decide)

theorem some_commit : ∃ v', (someInstalled 5).commit id someDevice 32768 noFaults Gpt.blankWorld = (.ok (), v') := by
  refine Gpt.commit_completes (some_valid 5 (Nat.le_refl _)) rfl rfl nofun rfl (by decide) nofun some_checks.2.2.2.2.2.2.2 ?_
    (Gpt.commitTable_gpt_run rfl rfl (some_valid 5 (Nat.le_refl _)) rfl (by decide))
  simp only [Gpt.read_blank]
  show zeros 1536 = zeros 512 ++ (zeros 512 ++ (zeros 512 ++ []))
  rw [List.append_nil, zeros_append, zeros_append]

theorem some_manifest {release kernel : Bytes} (hr : version release = true) (hk : version kernel = true) :
    someLayout.manifest release kernel [ascii "boot/r4os.elf"] =
      .ok (Json.write 0 (someLayout.value release kernel [ascii "boot/r4os.elf"])) := by
  have hfiles : checkFiles [] [ascii "boot/r4os.elf"] = .ok () := some_checks.2.2.2.2.1
  unfold Layout.manifest
  rw [ensure_bind (by rw [hr, hk]; rfl), hfiles]
  rfl

theorem installation_found_plain : ∃ w' v' text, Layout.prepare 46137344 512 someIds = .ok someLayout ∧
    Plan.read id someDevice 32768 noFaults Gpt.blankWorld = (.ok somePlan, w') ∧ someLayout.bind somePlan = .ok (someInstalled 5) ∧
    (someInstalled 5).commit id someDevice 32768 noFaults Gpt.blankWorld = (.ok (), v') ∧
    someLayout.manifest (ascii "0.76.8") (ascii "0.76.8") [ascii "boot/r4os.elf"] = .ok text ∧
    Found someLayout (scan (readerOf v'.disk someDevice.sectors)) text := by
  obtain ⟨w', hr⟩ := some_read
  obtain ⟨v', hc⟩ := some_commit
  obtain ⟨⟨hv, hno⟩, -⟩ := some_versions
  have hm := some_manifest hv hv
  exact ⟨w', v', _, some_prepare, hr, some_bind, hc, hm,
    (installation_found some_prepare hr some_bind hc hm).2 ⟨hno, hno⟩⟩

theorem installation_found_underscore :
    ¬ ∀ (sectors sectorBytes : Nat) (ids : Identifiers) (layout : Layout) (sha : Bytes → Bytes) (dev target : Device)
      (scratchLen workLen : Nat) (F G : Faults) (w w' v v' : World) (p q : Plan) (release kernel text : Bytes) (files : List Bytes),
      Layout.prepare sectors sectorBytes ids = .ok layout → Plan.read sha dev scratchLen F w = (.ok p, w') →
      layout.bind p = .ok q → q.commit sha target workLen G v = (.ok (), v') →
      layout.manifest release kernel files = .ok text → Found layout (scan (readerOf v'.disk target.sectors)) text := by
  intro hall
  obtain ⟨w', hr⟩ := some_read
  obtain ⟨v', hc⟩ := some_commit
  obtain ⟨⟨hv, -⟩, hu, hunder⟩ := some_versions
  have hm := some_manifest hu hv
  have hfound := hall _ _ _ _ _ _ _ _ _ _ _ _ _ _ _ _ _ _ _ _ _ some_prepare hr some_bind hc hm
  obtain ⟨m, hparse, -⟩ := hfound.manifest
  rw [parseManifest_manifest (manifest_ok hm) (prepare_wellformed some_prepare),
    if_neg (fun hno => hno.1 hunder)] at hparse
  cases hparse

end Installation
end R4
