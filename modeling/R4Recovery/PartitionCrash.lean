import R4Recovery.PartitionRoundTrip
/-!
# PartitionCrash — a commit keeps a usable copy

`Report.read` sees both copies of any disk.  In front of the commit the primary copy holds the old table; once the
backup is complete it holds the new one, and nothing behind it is written any more.
-/
namespace R4
namespace Gpt

section Report

variable {sha : Bytes → Bytes} {dev : Device} {d : Disk}

theorem reads_readCopy_any (hv : dev.validate = .ok ()) {lba : Nat} (hlba : lba < dev.sectors) (d : Disk) :
    ∃ c, Reads d (readCopy dev lba) c := by
  have hsector : Reads d (dev.read lba 512) (d.read (512 * lba) 512) := Reads.read (n := 1) hv (by omega)
  refine Reads.bindSome hsector ?_
  cases hp : parseHeader (d.read (512 * lba) 512) lba dev.sectors with
  | error e => exact ⟨_, Reads.pure _⟩
  | ok h =>
    obtain ⟨hok, rfl⟩ := (parseHeader_iff _ _ _ _).1 hp
    have hr := hok.range
    by_cases hl : layoutBad (d.read (512 * lba) 512) (headerFields (d.read (512 * lba) 512)) = true
    · simp only [if_pos hl]
      exact ⟨_, Reads.pure _⟩
    · simp only [if_neg hl]
      refine Reads.bindSome (Reads.read hv (by omega)) ?_
      split
      · exact ⟨_, Reads.pure _⟩
      · exact ⟨_, Reads.pure _⟩

/-- **What `Report.read` returns** when nothing fails. -/
theorem reads_report (hv : dev.validate = .ok ()) (hs : 68 ≤ dev.sectors) {a b : Copy} (ha : Reads d (readCopy dev 1) a)
    (hb : Reads d (readCopy dev (dev.sectors - 1)) b) :
    Reads d (Report.read sha dev)
      { sectors := dev.sectors, primary := a, backup := b, mbr := d.read 0 512
        mbrReason := errorOf (checkMbr (d.read 0 512) dev.sectors)
        status := statusOf (errorOf (checkMbr (d.read 0 512) dev.sectors)) a b
        fingerprint := sha (d.read 0 512 ++ (a.sector ++ a.array) ++ (b.sector ++ b.array)) } := by
  refine Reads.bind (Reads.lift hv) (Reads.bind (Reads.refuse _ ?_) (Reads.bind (Reads.step _) ?_))
  · rw [decide_eq_false_iff_not]
    omega
  · exact Reads.bind (Reads.read (n := 1) hv (by omega)) (Reads.bind ha (Reads.bind hb (Reads.pure _)))

/-- A valid copy at `lba` that describes `table`. -/
def Holds (dev : Device) (d : Disk) (lba : Nat) (table : Table) : Prop :=
  ∃ c, Reads d (readCopy dev lba) c ∧ c.valid = true ∧ c.table = some table

theorem Intact.holds (hv : dev.validate = .ok ()) {lba : Nat} (hlba : lba < dev.sectors) {h : Header} {es : List Entry}
    (hi : Intact dev.sectors d lba h es) : Holds dev d lba (tableOf h es) :=
  ⟨_, Reads.readCopy hv hlba hi, rfl, table_intact hi _⟩

theorem report_of_holds (hv : dev.validate = .ok ()) (hs : 68 ≤ dev.sectors) {s t : Table}
    (h : Holds dev d 1 s ∨ Holds dev d (dev.sectors - 1) t) :
    ∃ r, Reads d (Report.read sha dev) r ∧
      (r.primary.valid = true ∧ r.primary.table = some s ∨ r.backup.valid = true ∧ r.backup.table = some t) := by
  rcases h with ⟨a, ha, hc⟩ | ⟨b, hb, hc⟩
  · obtain ⟨b, hb⟩ := reads_readCopy_any hv (show dev.sectors - 1 < dev.sectors by omega) d
    exact ⟨_, reads_report hv hs ha hb, .inl hc⟩
  · obtain ⟨a, ha⟩ := reads_readCopy_any hv (show 1 < dev.sectors by omega) d
    exact ⟨_, reads_report hv hs ha hb, .inr hc⟩

end Report

section Crash

variable {sha : Bytes → Bytes} {dev : Device}

theorem map_gptPart {h : Header} {array : Bytes} {es : List Entry} (hr : readGptArray h array = .ok es) :
    es.map Entry.gptPart = es := by
  have hid : ∀ e ∈ es, e.gptPart = e := by
    intro e he
    obtain ⟨raw, hraw⟩ := (readGptArray_spec hr).2 e he
    exact (readGptSlot_spec hraw).2.2
  rw [List.map_congr_left hid, List.map_id']

theorem table_gptPlan {sectors : Nat} {d : Disk} {x y : Header} {es : List Entry} (ha : Agreeing sectors d x y es) (mbr digest : Bytes) :
    ({ gptPlan sectors mbr x y es with source.digest := digest } : Plan).table = tableOf x es ∧
    ({ gptPlan sectors mbr x y es with source.digest := digest } : Plan).live = es := by
  have hcount := ((layoutBad_iff _ _).1 ha.primary.layout).2.2
  have hlive : ({ gptPlan sectors mbr x y es with source.digest := digest } : Plan).live = es :=
    live_setEntries rfl (readGptArray_spec ha.primary.entries).1 hcount
  refine ⟨?_, hlive⟩
  rw [Plan.table, hlive, map_gptPart ha.primary.entries]
  rfl

theorem commit_invalid {q : Plan} {e : Error} (h : q.validate = .error e) (workLen : Nat) (F : Faults) (w : World) :
    q.commit sha dev workLen F w = (.error e, w) := by
  unfold Plan.commit
  rw [h]
  rfl

/-- **A GPT commit keeps a usable copy.**  The plan was read from the disk and edited in any way; the commit runs under
any faults, and any prefix of the sectors it wrote reached the disk.  Then the primary copy is valid and describes the
old table, or the backup copy is valid and describes the new one. -/
theorem commit_keeps_copy {scratchLen : Nat} {F : Faults} {w w' : World} {p q : Plan} {ops : List Op}
    (hread : Plan.read sha dev scratchLen F w = (.ok p, w')) (hk : p.kind = .gpt) (hops : ∀ op ∈ ops, op.isEdit = true)
    (hedits : p.edits ops = .ok q) (workLen : Nat) (G : Faults) {w1 : World} (hw1 : w1.disk = w.disk)
    {us : List (Nat × Bytes)}
    (hus : us <+: sectorWrites ((q.commit sha dev workLen G w1).2.issued.drop w1.issued.length)) :
    (Holds dev (w1.disk.apply us) 1 p.table ∨ Holds dev (w1.disk.apply us) (dev.sectors - 1) q.table) ∧
    (68 ≤ dev.sectors → ∃ r, Reads (w1.disk.apply us) (Report.read sha dev) r ∧
      (r.primary.valid = true ∧ r.primary.table = some p.table ∨ r.backup.valid = true ∧ r.backup.table = some q.table)) := by
  obtain ⟨hv, h3, -, -⟩ := planRead_ok hread
  have hshape := (planRead_shape hread).1
  obtain ⟨x, y, es, ha, digest, rfl⟩ := planRead_gpt hread hk
  obtain ⟨hqs, hframe⟩ := edits_frame hops hshape hedits
  have hqk : q.kind = .gpt := by rw [hframe]; rfl
  have hqe : q.eraseSourceGpt = false := by rw [hframe]; rfl
  have hqsec : q.sectors = dev.sectors := by rw [hframe]; rfl
  have hqx : x.entriesLba = q.primaryArray ∧ x.entryCount = q.entryCount := by
    rw [hframe]; exact ⟨rfl, rfl⟩
  have hold := (table_gptPlan ha (w.disk.read 0 512) digest).1
  have hcrash : Holds dev (w1.disk.apply us) 1 (tableOf x es) ∨ Holds dev (w1.disk.apply us) (dev.sectors - 1) q.table := by
    rw [hw1]
    cases hval : q.validate with
    | error e =>
      rw [commit_invalid hval, List.drop_length] at hus
      obtain rfl := List.prefix_nil.1 hus
      exact .inl (ha.primary.holds hv (by omega))
    | ok u =>
      obtain ⟨vs, hpre, hwrote, -⟩ := @Writes.commit sha dev q hqk hqe workLen G w1
      rw [hwrote.1, List.drop_left] at hus
      rw [← hqsec] at ha ⊢
      rcases crash_intact hval hqk hqs ha hqx (hus.trans (sectorWrites_mono hpre)) with hi | hi
      · rw [hqsec] at hi
        exact .inl (hi.holds hv (by omega))
      · rw [hqsec] at hi ⊢
        exact .inr (hi.holds hv (by omega))
  rw [hold]
  exact ⟨hcrash, fun h68 => report_of_holds hv h68 hcrash⟩

end Crash

/-! ## A small GPT disk -/

def smallDevice : Device := { sectors := 4096, exclusive := true }

def smallPart (first byte : Nat) : Entry :=
  { present := true, first := first, count := 8, typeGuid := Vector.replicate 16 2, uniqueGuid := Vector.replicate 16 (UInt8.ofNat byte) }

/-- Eight slots, an array of two sectors; the first and the third slot hold a partition. -/
def smallPlan : Plan :=
  { sectors := 4096, kind := .gpt, diskGuid := Vector.replicate 16 1, firstUsable := 4, lastUsable := 4092, entryCount := 8
    primaryArray := 2, backupArray := 4093, entries := setEntries [smallPart 1024 3, {}, smallPart 3072 4] }

@[irreducible] def smallDisk : Disk := Disk.apply (fun _ => 0) smallPlan.commitWrites

def smallEntry : Entry := smallPart 2048 5

/-- The plan read from the small disk. -/
def smallRead : Plan :=
  { gptPlan 4096 (smallDisk.read 0 512) (smallPlan.fields 1 4095 2 smallPlan.checksum)
      (smallPlan.fields 4095 1 4093 smallPlan.checksum) smallPlan.live with source.digest := [] }

theorem small_checks : smallPlan.validate = .ok () ∧ (smallRead.setEntry 1 smallEntry).validate = .ok () ∧
    (∀ i : Fin 128, (smallPlan.entries[i].present = false ∨ 8 ≤ i.val) → smallPlan.entries[i] = ({} : Entry)) ∧
    smallRead.freeSlot = some 1 ∧ ∀ s ∈ smallRead.source.spans, s.1 + s.2 ≤ smallDevice.sectors := by
  decide +kernel

theorem smallPlan_valid : smallPlan.validate = .ok () := small_checks.1

theorem smallPlan_shape : smallPlan.Shape :=
  have hslots := small_checks.2.2.1
  ⟨fun i hi hp => hslots ⟨i, hi⟩ (.inl hp), fun i hi hc => hslots ⟨i, hi⟩ (.inr hc), fun h => absurd rfl h⟩

theorem small_agreeing : Agreeing smallDevice.sectors smallDisk
    (smallPlan.fields 1 4095 2 smallPlan.checksum) (smallPlan.fields 4095 1 4093 smallPlan.checksum) smallPlan.live := by
  have hdisk : smallPlan.OnDisk smallDisk ∧ smallDisk.read 0 512 = smallPlan.protectiveSector := by
    unfold smallDisk
    exact onDisk_commitWrites (smallPlan.placed smallPlan_valid rfl) _
  obtain ⟨ho, hm⟩ := hdisk
  refine agreeing_onDisk (p := smallPlan) smallPlan_valid rfl smallPlan_shape ho ?_
  rw [hm]
  exact protective_protectiveSector smallPlan

theorem small_read : ∃ w', Plan.read (fun _ => []) smallDevice 32768 noFaults { disk := smallDisk } = (.ok smallRead, w') := by
  have hr := @Reads.planRead (fun _ => []) smallDevice smallDisk _ _ _ 32768 rfl (by decide) small_agreeing
  obtain ⟨w', h, -⟩ := hr { disk := smallDisk } rfl
  exact ⟨w', h⟩

theorem smallRead_valid : (smallRead.setEntry 1 smallEntry).validate = .ok () := small_checks.2.1

theorem small_edits : smallRead.edits [.add smallEntry] = .ok (smallRead.setEntry 1 smallEntry) := by
  have hslot : smallRead.freeSlot = some 1 := small_checks.2.2.2.1
  have hadd : smallRead.add smallEntry = .ok (smallRead.setEntry 1 smallEntry) := by
    refine Except.bind_ok.2 ⟨(), rfl, ?_⟩
    rw [hslot]
    exact Except.bind_ok.2 ⟨(), smallRead_valid, rfl⟩
  exact Except.bind_ok.2 ⟨_, hadd, rfl⟩

theorem small_commit : ∃ w', (smallRead.setEntry 1 smallEntry).commit (fun _ => []) smallDevice 32768 noFaults
    { disk := smallDisk } = (.ok (), w') :=
  commit_completes smallRead_valid rfl rfl (by decide) rfl (by decide) (by decide) small_checks.2.2.2.2 rfl
    (commitTable_gpt_run rfl rfl smallRead_valid rfl (by decide))

theorem sectorsOf_two (lba : Nat) (data : Bytes) (h : data.length = 512 * 2) :
    (sectorsOf (lba, data)).map Prod.fst = [lba, lba + 1] := by
  rw [sectorsOf, h]
  rfl

/-- The new array is in the backup, its header not yet. -/
theorem commit_keeps_copy_small :
    (∃ w', Plan.read (fun _ => []) smallDevice 32768 noFaults { disk := smallDisk } = (.ok smallRead, w')) ∧
    smallRead.edits [.add smallEntry] = .ok (smallRead.setEntry 1 smallEntry) ∧
    ∃ us, us <+: sectorWrites (((smallRead.setEntry 1 smallEntry).commit (fun _ => []) smallDevice 32768 noFaults
        { disk := smallDisk }).2.issued.drop 0) ∧ us.map Prod.fst = [4093, 4094] ∧
      (Holds smallDevice (smallDisk.apply us) 1 smallRead.table ∨
        Holds smallDevice (smallDisk.apply us) 4095 (smallRead.setEntry 1 smallEntry).table) := by
  obtain ⟨w', hr⟩ := small_read
  obtain ⟨w2, hc⟩ := small_commit
  refine ⟨⟨w', hr⟩, small_edits, _, List.take_prefix 2 _, ?_,
    (@commit_keeps_copy _ _ _ _ _ _ _ _ _ hr rfl (by decide) small_edits 32768 noFaults { disk := smallDisk } rfl _
      (List.take_prefix 2 _)).1⟩
  obtain ⟨us, -, hwrote, hall⟩ := @Writes.commit (fun _ => []) smallDevice (smallRead.setEntry 1 smallEntry) rfl rfl 32768
    noFaults { disk := smallDisk }
  have hissued := hwrote.1
  rw [hall () (by rw [hc]), List.nil_append] at hissued
  have hfirst := sectorsOf_two 4093 (smallRead.setEntry 1 smallEntry).array (length_array _)
  rw [List.drop_zero, hissued]
  rw [Plan.commitWrites, sectorWrites_cons]
  have hbackup : (smallRead.setEntry 1 smallEntry).backupArray = 4093 := rfl
  rw [hbackup]
  rw [List.take_left' (by simpa using congrArg List.length hfirst), hfirst]

end Gpt
end R4
