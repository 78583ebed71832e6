import R4Recovery.BootScanSafe
/-!
# BootScanAgree — the boot scanner beside the scan of the inventory

Where the inventory's scan accepts the disk, every entry that the boot scanner goes by is one that it reports, with the same
range and type (`entry_reported`): it rejects overlaps, and so no two volumes that are mounted share a sector.
-/
namespace R4
namespace BootScan

open Gpt (Guid Header getLe mbrSlots mbrSlot slotType parsePartition parseHeader crcUpdate crcFinish)
open Kernel (Reader Table Partition mbrPartition isExtended)
open Stateful (bind_ok check_eq refuse_ok Keeps Preserves)

/-! ## What the inventory's scan has appended -/

section Inventory

variable {r : Reader} {s t : Table}

theorem readSector_of_sector {lba : Nat} {bytes : Bytes} (h : r.sector lba = .ok bytes) : readSector r lba = some bytes := by
  unfold Kernel.Reader.sector at h
  split at h
  · cases h
  · rename_i hlt
    split at h
    · cases h
    · rename_i hr
      cases h
      unfold readSector
      rw [if_pos (Nat.not_le.1 hlt), hr]

theorem append_keeps (p q : Partition) : Keeps (Preserves (fun t => q ∈ t.items)) (Kernel.append p) := by
  intro s hq
  rcases Kernel.append_cases (Prod.eta (Kernel.append p s)).symm with h | ⟨-, -, h⟩
  · rw [h]
    exact hq
  · rw [h]
    exact List.mem_append_left _ hq

theorem append_has {p : Partition} {u : Unit} (h : Kernel.append p s = (.ok u, t)) : p ∈ t.items := by
  obtain ⟨_, _, h1, h⟩ := bind_ok h
  obtain ⟨-, rfl⟩ := check_eq h1
  obtain ⟨_, _, h1, h⟩ := bind_ok h
  obtain ⟨-, rfl⟩ := refuse_ok h1
  cases h
  exact List.mem_append_right _ List.mem_cons_self

/-- **Every slot in use is there**, but the extended one. -/
theorem primaries_has {sectors : Nat} : ∀ {L : List (Nat × Bytes)} {base end_ : Nat} {x : Nat × Nat} {s t : Table},
    Kernel.primaries sectors L base end_ s = (.ok x, t) → (∀ q ∈ s.items, q ∈ t.items) ∧
      ∀ y ∈ L, slotType y.2 ≠ 0 → isExtended (slotType y.2) = false → mbrPartition (y.1 + 1) 0 y.2 ∈ t.items
  | [], _, _, _, _, _, h => by
    cases h
    exact ⟨fun _ hq => hq, fun _ hy => absurd hy List.not_mem_nil⟩
  | (i, raw) :: rest, base, end_, x, s, t, h => by
    rw [Kernel.primaries] at h
    split at h
    · rename_i h0
      obtain ⟨hk, hh⟩ := primaries_has h
      refine ⟨hk, fun y hy hu => ?_⟩
      rcases List.mem_cons.1 hy with rfl | hy
      · exact absurd h0 hu
      · exact hh y hy hu
    · obtain ⟨_, _, h1, h⟩ := bind_ok h
      obtain ⟨-, rfl⟩ := check_eq h1
      split at h
      · rename_i hx
        obtain ⟨_, _, h1, h⟩ := bind_ok h
        obtain ⟨-, rfl⟩ := refuse_ok h1
        obtain ⟨hk, hh⟩ := primaries_has h
        refine ⟨hk, fun y hy hu hp => ?_⟩
        rcases List.mem_cons.1 hy with rfl | hy
        · exact absurd (hx.symm.trans hp) (by decide)
        · exact hh y hy hu hp
      · obtain ⟨_, u, h1, h⟩ := bind_ok h
        obtain ⟨hk, hh⟩ := primaries_has h
        refine ⟨fun q hq => hk q ?_, fun y hy hu hp => ?_⟩
        · have := append_keeps (mbrPartition (i + 1) 0 raw) q s hq
          rwa [h1] at this
        · rcases List.mem_cons.1 hy with rfl | hy
          · exact hk _ (append_has h1)
          · exact hh y hy hu hp

theorem scanMbr_has {mbr : Bytes} {u : Unit} (h : Kernel.scanMbr r mbr s = (.ok u, t)) {k : Nat} (hk : k < 4)
    (hu : slotType (mbrSlot mbr k) ≠ 0) (hx : isExtended (slotType (mbrSlot mbr k)) = false) :
    mbrPartition (k + 1) 0 (mbrSlot mbr k) ∈ t.items := by
  obtain ⟨_, _, h1, h⟩ := bind_ok h
  cases h1
  obtain ⟨extended, s₁, h1, h⟩ := bind_ok h
  have hmem : (k, mbrSlot mbr k) ∈ (List.range 4).zip (mbrSlots mbr) := by
    rw [mbrSlots, List.zip_map_right]
    refine List.mem_map.2 ⟨(k, k), ?_, rfl⟩
    rw [List.zip_eq_zipWith, List.zipWith_self]
    exact List.mem_map.2 ⟨k, List.mem_range.2 hk, rfl⟩
  have hhas := (primaries_has h1).2 _ hmem hu hx
  split at h
  · cases h
    exact hhas
  · obtain ⟨_, _, h1, h⟩ := bind_ok h
    obtain ⟨-, rfl⟩ := refuse_ok h1
    have hkeeps : Keeps (Preserves (fun t => mbrPartition (k + 1) 0 (mbrSlot mbr k) ∈ t.items))
        (Kernel.walk r extended.1 extended.2 [] (Nat.zero_le _) extended.1) :=
      Kernel.Keeps.walk (fun p _ _ _ _ => append_keeps p _) [] _ _ (Nat.le_refl _)
    have := hkeeps s₁ hhas
    rwa [h] at this

/-- What the scan reports of a parsed entry. -/
def reported (index : Nat) (p : Gpt.Partition) : Partition :=
  { number := index + 1, firstLba := p.firstLba, sectorCount := p.sectorCount, uniqueGuid := p.uniqueGuid
    typeGuid := p.typeGuid, attributes := p.attributes, name := p.nameUtf16 }

theorem liftGpt_ok {α : Type} {x : Except Error α} {a : α} {s t : Table}
    (h : Kernel.lift (Kernel.liftGpt x) s = (.ok a, t)) : x = .ok a ∧ s = t := by
  obtain ⟨hx, rfl⟩ := check_eq h
  cases x with
  | error e => cases hx
  | ok b =>
    cases hx
    exact ⟨rfl, rfl⟩

/-- **Every entry of one sector that parses is there.** -/
theorem appendEntries_has {primary : Header} : ∀ {raws : List Bytes} {index : Nat} {s t : Table} {u : Unit},
    Kernel.appendEntries primary index raws s = (.ok u, t) → (∀ q ∈ s.items, q ∈ t.items) ∧
      ∀ j raw p, raws[j]? = some raw → parsePartition raw primary = .ok (some p) → reported (index + j) p ∈ t.items
  | [], _, _, _, _, h => by
    cases h
    exact ⟨fun _ hq => hq, fun j raw p hj => by cases hj⟩
  | raw :: rest, index, s, t, u, h => by
    rw [Kernel.appendEntries] at h
    obtain ⟨parsed, _, h1, h⟩ := bind_ok h
    obtain ⟨hparsed, rfl⟩ := liftGpt_ok h1
    have later : ∀ {s' : Table}, Kernel.appendEntries primary (index + 1) rest s' = (.ok u, t) →
        (∀ q ∈ s'.items, q ∈ t.items) ∧ ∀ j raw' p, (raw :: rest)[j + 1]? = some raw' →
          parsePartition raw' primary = .ok (some p) → reported (index + (j + 1)) p ∈ t.items := by
      intro s' h'
      obtain ⟨hk, hh⟩ := appendEntries_has h'
      refine ⟨hk, fun j raw' p hj hp => ?_⟩
      rw [← Nat.add_assoc, Nat.add_right_comm]
      exact hh j raw' p hj hp
    cases parsed with
    | none =>
      obtain ⟨hk, hh⟩ := later h
      refine ⟨hk, fun j raw' p hj hp => ?_⟩
      cases j with
      | zero =>
        cases hj
        rw [hparsed] at hp
        cases hp
      | succ j => exact hh j raw' p hj hp
    | some parsed =>
      obtain ⟨_, _, h1, h⟩ := bind_ok h
      obtain ⟨-, rfl⟩ := refuse_ok h1
      obtain ⟨_, s₁, h1, h⟩ := bind_ok h
      have h1 : Kernel.append (reported index parsed) s = (.ok _, s₁) := h1
      obtain ⟨hk, hh⟩ := later h
      refine ⟨fun q hq => hk q ?_, fun j raw' p hj hp => ?_⟩
      · have := append_keeps (reported index parsed) q s hq
        rwa [h1] at this
      · cases j with
        | zero =>
          cases hj
          rw [hparsed] at hp
          cases hp
          exact hk _ (append_has h1)
        | succ j => exact hh j raw' p hj hp

theorem scanArray_crc {primary backup : Header} : ∀ {left sectorIndex remaining index : Nat} {crc crc' : UInt32}
    {s t : Table},
    Kernel.scanArray r primary backup left sectorIndex remaining index crc s = (.ok crc', t) →
      entryArrayCrc r left (primary.entriesLba + sectorIndex) remaining crc = .ok crc'
  | 0, _, _, _, _, _, _, _, h => by
    cases h
    rfl
  | left + 1, sectorIndex, remaining, index, crc, crc', s, t, h => by
    rw [Kernel.scanArray] at h
    obtain ⟨a, _, h1, h⟩ := bind_ok h
    obtain ⟨ha, rfl⟩ := check_eq h1
    obtain ⟨b, _, -, h⟩ := bind_ok h
    obtain ⟨_, _, -, h⟩ := bind_ok h
    obtain ⟨_, _, -, h⟩ := bind_ok h
    rw [entryArrayCrc, readSector_of_sector ha]
    exact scanArray_crc h

/-- **Every entry of the array that parses is there.**  With a size that divides a sector no entry crosses one: entry `k`
lies in sector `k * size / 512` of the array. -/
theorem scanArray_has {primary backup : Header} (hsize : 0 < primary.entrySize) (hdiv : primary.entrySize ∣ 512) :
    ∀ {left sectorIndex remaining index : Nat} {crc crc' : UInt32} {s t : Table},
    Kernel.scanArray r primary backup left sectorIndex remaining index crc s = (.ok crc', t) →
    remaining ≤ left * 512 → primary.entrySize ∣ remaining →
    (remaining = 0 ∨ index * primary.entrySize = sectorIndex * 512) →
    (∀ q ∈ s.items, q ∈ t.items) ∧ ∀ k, index ≤ k → (k + 1) * primary.entrySize ≤ index * primary.entrySize + remaining →
      ∃ a, r.sector (primary.entriesLba + k * primary.entrySize / 512) = .ok a ∧
        ∀ p, parsePartition (slice a (k * primary.entrySize % 512) primary.entrySize) primary = .ok (some p) →
          reported k p ∈ t.items
  | 0, sectorIndex, remaining, index, crc, crc', s, t, h, hr, _, _ => by
    cases h
    refine ⟨fun _ hq => hq, fun k hk hin => ?_⟩
    have := Nat.mul_le_mul_right primary.entrySize hk
    rw [Nat.add_mul] at hin
    omega
  | left + 1, sectorIndex, remaining, index, crc, crc', s, t, h, hr, hmul, hat => by
    rw [Kernel.scanArray] at h
    obtain ⟨a, _, h1, h⟩ := bind_ok h
    obtain ⟨ha, rfl⟩ := check_eq h1
    obtain ⟨b, _, h1, h⟩ := bind_ok h
    obtain ⟨-, rfl⟩ := check_eq h1
    obtain ⟨_, _, h1, h⟩ := bind_ok h
    obtain ⟨-, rfl⟩ := refuse_ok h1
    obtain ⟨_, s₁, h1, h⟩ := bind_ok h
    -- a whole number of entries is taken
    have htake : primary.entrySize ∣ min remaining 512 := by
      rcases Nat.le_total remaining 512 with hle | hle
      · rwa [Nat.min_eq_left hle]
      · rwa [Nat.min_eq_right hle]
    obtain ⟨count, hcount⟩ := htake
    have hceil : (min remaining 512 + primary.entrySize - 1) / primary.entrySize = count := by
      rw [hcount, Nat.add_sub_assoc hsize, Nat.mul_add_div hsize, Nat.div_eq_of_lt (Nat.sub_one_lt (by omega)), Nat.add_zero]
    rw [hceil] at h1 h
    rw [Nat.mul_comm] at hcount
    have hnext : (index + count) * primary.entrySize = index * primary.entrySize + min remaining 512 := by
      rw [Nat.add_mul, hcount]
    have hmul' : primary.entrySize ∣ remaining - min remaining 512 := Nat.dvd_sub hmul ⟨count, by rw [hcount, Nat.mul_comm]⟩
    have hat' : remaining - min remaining 512 = 0 ∨ (index + count) * primary.entrySize = (sectorIndex + 1) * 512 := by
      omega
    obtain ⟨hk₁, hh₁⟩ := appendEntries_has h1
    obtain ⟨hk₂, hh₂⟩ := scanArray_has hsize hdiv h (by omega) hmul' hat'
    refine ⟨fun q hq => hk₂ q (hk₁ q hq), fun k hk hin => ?_⟩
    by_cases hlater : index + count ≤ k
    · exact hh₂ k hlater (by omega)
    · obtain ⟨j, rfl⟩ := Nat.exists_eq_add_of_le hk
      have hj : j < count := by omega
      have hjs : j * primary.entrySize + primary.entrySize ≤ min remaining 512 := by
        rw [hcount, ← Nat.succ_mul]
        exact Nat.mul_le_mul_right _ hj
      have hplace : (index + j) * primary.entrySize = sectorIndex * 512 + j * primary.entrySize := by
        rw [Nat.add_mul]
        omega
      rw [hplace, show (sectorIndex * 512 + j * primary.entrySize) / 512 = sectorIndex by omega,
        show (sectorIndex * 512 + j * primary.entrySize) % 512 = j * primary.entrySize by omega]
      refine ⟨a, ha, fun p hp => hk₂ _ (hh₁ j _ p ?_ hp)⟩
      rw [List.getElem?_map, List.getElem?_range hj, Option.map_some]

theorem readEntry_one {header : Header} {index : Nat} {a : Bytes} (hsize : 0 < header.entrySize)
    (hin : index * header.entrySize % 512 + header.entrySize ≤ 512)
    (ha : readSector r (header.entriesLba + index * header.entrySize / 512) = some a) :
    (readEntry r header index none).1 = some (slice a (index * header.entrySize % 512) header.entrySize) := by
  have hmin : min header.entrySize (sectorSize - index * header.entrySize % sectorSize) = header.entrySize :=
    Nat.min_eq_left (by unfold sectorSize; omega)
  unfold readEntry
  rw [readFrom, dif_neg (by omega)]
  unfold readCached
  rw [show readSector r (header.entriesLba + index * header.entrySize / sectorSize) = some a from ha, Option.map_some]
  simp only [hmin]
  rw [Nat.sub_self, readFrom, dif_pos rfl, List.nil_append]
  rfl

theorem entry_in_sector {index size : Nat} (hdiv : size ∣ 512) : index * size % 512 + size ≤ 512 := by
  obtain ⟨m, hm⟩ := hdiv
  have hlt : index % m < m := Nat.mod_lt _ (Nat.pos_of_ne_zero (by rintro rfl; omega))
  rw [hm, Nat.mul_comm index, Nat.mul_mod_mul_left, ← Nat.mul_succ]
  exact Nat.mul_le_mul_left _ hlt

/-- **The array of an accepted GPT**: the boot scanner goes by the same header, and every entry of it is there. -/
theorem scanGpt_has {u : Unit} (h : Kernel.scanGpt r s = (.ok u, t)) : ∃ header, acceptedHeader r = some header ∧
    ∀ k, k < header.entryCount → ∀ raw p, (readEntry r header k none).1 = some raw →
      parsePartition raw header = .ok (some p) → reported k p ∈ t.items := by
  obtain ⟨a, _, h1, h⟩ := bind_ok h
  obtain ⟨ha, rfl⟩ := check_eq h1
  obtain ⟨primary, _, h1, h⟩ := bind_ok h
  obtain ⟨hparse, rfl⟩ := liftGpt_ok h1
  obtain ⟨_, _, h1, h⟩ := bind_ok h
  obtain ⟨hlayout, rfl⟩ := refuse_ok h1
  obtain ⟨_, _, -, h⟩ := bind_ok h
  obtain ⟨_, _, -, h⟩ := bind_ok h
  obtain ⟨b, _, -, h⟩ := bind_ok h
  obtain ⟨backup, _, -, h⟩ := bind_ok h
  obtain ⟨_, _, -, h⟩ := bind_ok h
  obtain ⟨crc, _, harray, h⟩ := bind_ok h
  obtain ⟨hcrc, rfl⟩ := refuse_ok h
  have hok := ((Gpt.parseHeader_iff _ _ _ _).1 hparse)
  have hsize : 0 < primary.entrySize := by
    rw [hok.2]
    have := hok.1.entry.1
    omega
  have hdiv : primary.entrySize ∣ 512 := Nat.dvd_of_mod_eq_zero (by simpa using hlayout)
  refine ⟨primary, ?_, fun k hk raw p hraw hp => ?_⟩
  · have hload : loadGptHeader r 1 = .ok primary := by
      unfold loadGptHeader
      rw [readSector_of_sector ha]
      dsimp only
      rw [hparse]
      dsimp only
      rw [show entryArrayCrc r primary.entrySectors primary.entriesLba primary.entryBytes 0xFFFFFFFF = .ok crc from
        scanArray_crc harray]
      dsimp only
      rw [if_neg (by simpa using hcrc)]
    unfold acceptedHeader
    rw [hload]
  · have hall := (scanArray_has hsize hdiv harray (by unfold Header.entrySectors; omega) ⟨_, Nat.mul_comm _ _⟩
      (.inr (by rw [Nat.zero_mul, Nat.zero_mul]))).2
    obtain ⟨sector, hsector, hhas⟩ := hall k (Nat.zero_le _) (by
      rw [Nat.zero_mul, Nat.zero_add]
      exact Nat.mul_le_mul_right _ hk)
    rw [readEntry_one hsize (entry_in_sector hdiv) (readSector_of_sector hsector)] at hraw
    exact hhas p (Option.some.inj hraw ▸ hp)

theorem scanChecked_invalid (r : Reader) : Keeps (Preserves (fun t => t.valid = false)) (Kernel.scanChecked r) := by
  have happ : ∀ p : Partition, Keeps (Preserves (fun t => t.valid = false)) (Kernel.append p) := fun p =>
    Keeps.bind (Keeps.check _) (fun _ => Keeps.bind (Keeps.check _) (fun _ => Keeps.update (fun _ ht => ht)))
  refine Keeps.bind (Keeps.check _) (fun _ => Keeps.bind (Keeps.check _) (fun _ => Keeps.bind (Keeps.check _) (fun mbr =>
    Keeps.bind (Keeps.check _) (fun _ => Keeps.bind (Keeps.update (fun _ ht => ht)) (fun _ => Keeps.bind (Keeps.check _)
      (fun _ => Keeps.ite (fun _ => ?_) (fun _ => ?_)))))))
  · refine Keeps.bind (Keeps.update (fun _ ht => ht))
      (fun _ => Keeps.bind (Keeps.check _) (fun _ => Keeps.bind (Keeps.check _)
      (fun _ => Keeps.bind (Keeps.check _) (fun primary => Keeps.bind (Keeps.check _) (fun _ => Keeps.bind
        (Keeps.update (fun _ ht => ht)) (fun _ => Keeps.bind (Keeps.check _) (fun _ => Keeps.bind (Keeps.check _) (fun _ =>
          Keeps.bind (Keeps.check _) (fun _ => Keeps.bind (Keeps.check _) (fun _ => Keeps.bind ?_ (fun _ =>
            Keeps.check _)))))))))))
    exact Kernel.Keeps.scanArray (fun p _ _ => happ p) _ _ _ _ _
  · refine Keeps.bind (Keeps.update (fun _ ht => ht)) (fun _ => Keeps.bind
      (Kernel.Keeps.primaries (fun p _ _ _ => happ p) _ _ _ (Kernel.slot_index mbr)) (fun extended => ?_))
    refine Keeps.ite (fun _ => Keeps.pure _) (fun _ => Keeps.bind (Keeps.check _) (fun _ => ?_))
    exact Kernel.Keeps.walk (fun p _ _ _ _ => happ p) _ _ _ (Nat.le_refl _)

/-- **What the boot scanner goes by is reported**: on a disk that the inventory's scan accepts, every entry but an extended
one is in its table under its number, with the same range and type. -/
theorem entry_reported {e : Entry} {index : Nat} (hv : (Kernel.scan r).valid = true) (he : entryAt r index = some e)
    (hx : isExtended e.mbrType = false) : ∃ p ∈ (Kernel.scan r).items, p.number = index + 1 ∧ p.firstLba = e.firstLba ∧
      p.sectorCount = e.sectorCount ∧ p.mbrType = e.mbrType ∧ p.typeGuid = e.typeGuid := by
  rw [(Kernel.scan_fields r).1]
  rcases h : Kernel.scanChecked r {} with ⟨result, t⟩
  cases result with
  | error e =>
    have := scanChecked_invalid r {} rfl
    unfold Kernel.scan at hv
    rw [h] at hv this
    cases this.symm.trans hv
  | ok u =>
    obtain ⟨_, _, h1, h⟩ := bind_ok h
    obtain ⟨-, rfl⟩ := refuse_ok h1
    obtain ⟨_, _, h1, h⟩ := bind_ok h
    obtain ⟨-, rfl⟩ := refuse_ok h1
    obtain ⟨mbr, _, h1, h⟩ := bind_ok h
    obtain ⟨hmbr, rfl⟩ := check_eq h1
    obtain ⟨_, _, -, h⟩ := bind_ok h
    obtain ⟨_, _, -, h⟩ := bind_ok h
    obtain ⟨_, _, -, h⟩ := bind_ok h
    unfold entryAt at he
    rw [readSector_of_sector hmbr, Option.bind_some] at he
    split at h
    · rename_i hp
      obtain ⟨_, _, -, h⟩ := bind_ok h
      obtain ⟨_, _, -, h⟩ := bind_ok h
      obtain ⟨header, hheader, hhas⟩ := scanGpt_has h
      have hprot : protective mbr = true := by
        obtain ⟨raw, hraw⟩ := List.exists_mem_of_length_pos (Nat.pos_of_ne_zero hp)
        obtain ⟨hmem, ht⟩ := List.mem_filter.1 hraw
        exact List.any_eq_true.2 ⟨raw, hmem, ht⟩
      rw [if_pos hprot, hheader, Option.bind_some] at he
      split at he
      · rename_i hk
        unfold gptEntry at he
        obtain ⟨raw, hraw, he⟩ := Option.bind_eq_some_iff.1 he
        split at he
        · rename_i p hparse
          cases he
          exact ⟨_, hhas index hk raw p hraw hparse, rfl, rfl, rfl, rfl, rfl⟩
        · cases he
      · cases he
    · rename_i hp
      have hprot : ¬ protective mbr = true := by
        intro hany
        obtain ⟨raw, hmem, ht⟩ := List.any_eq_true.1 hany
        exact hp (Nat.ne_of_gt (List.length_pos_of_mem (List.mem_filter.2 ⟨hmem, ht⟩)))
      rw [if_neg hprot] at he
      split at he
      · rename_i hk
        unfold slotEntry at he
        split at he
        · cases he
        · rename_i hused
          cases he
          refine ⟨_, scanMbr_has h hk (fun h0 => hused (.inl h0)) hx, rfl, ?_, rfl, rfl, rfl⟩
          exact Nat.zero_add _
      · cases he

end Inventory

/-! ## Where the scan has mounted -/

def Entry.Apart (e f : Entry) : Prop := e.firstLba + e.sectorCount ≤ f.firstLba ∨ f.firstLba + f.sectorCount ≤ e.firstLba

/-- **The new volumes, each on an entry of its own**: at its front and not beyond its end. -/
structure Placement (sv : Services) (w w' : World) (entryOf : Option (Fin 26) → Nat) : Prop where
  mounted : ∀ p v, w.New w' p v → ∃ e count, Mounted sv w' v (entryOf p) e count
  once : ∀ p q u v, w.New w' p u → w.New w' q v → p ≠ q → entryOf p ≠ entryOf q
  /-- Volumes on entries that share no sector share none. -/
  apart : ∀ p q u v, w.New w' p u → w.New w' q v → ∀ e f, entryAt sv.reader (entryOf p) = some e →
    entryAt sv.reader (entryOf q) = some f → e.Apart f → ∀ a b, w'.storageRegion u = some a →
    w'.storageRegion v = some b → a.overlaps b = false
  /-- Where the inventory's scan accepts the disk, it reports the entries. -/
  reported : (Kernel.scan sv.reader).valid = true → ∀ p v, w.New w' p v → ∃ e, entryAt sv.reader (entryOf p) = some e ∧
    ∃ item ∈ (Kernel.scan sv.reader).items, item.firstLba = e.firstLba ∧ item.sectorCount = e.sectorCount ∧
      item.mbrType = e.mbrType ∧ item.typeGuid = e.typeGuid
  disjoint : (Kernel.scan sv.reader).valid = true → ∀ p q u v, w.New w' p u → w.New w' q v → p ≠ q →
    ∀ a b, w'.storageRegion u = some a → w'.storageRegion v = some b → a.overlaps b = false

section Placement

variable {sv : Services} {w w' : World}

theorem overlaps_false {a b : Storage.Region} (h : a.first + a.count ≤ b.first ∨ b.first + b.count ≤ a.first) :
    a.overlaps b = false := by
  rw [Bool.eq_false_iff]
  intro ho
  obtain ⟨x, ⟨-, h1, h2⟩, -, h3, h4⟩ := Set.not_disjoint_iff.1 (Storage.Region.overlaps_iff.1 ho)
  omega

theorem Mounted.apart {u v : Volume} {i j m n : Nat} {e f : Entry} {a b : Storage.Region} (hu : Mounted sv w u i e m)
    (hv : Mounted sv w v j f n) (h : e.Apart f) (ha : w.storageRegion u = some a) (hb : w.storageRegion v = some b) :
    a.overlaps b = false := by
  obtain ⟨g, hg⟩ := hu.stands.region
  obtain ⟨g', hg'⟩ := hv.stands.region
  rw [ha] at hg
  rw [hb] at hg'
  cases hg
  cases hg'
  have := hu.count_le
  have := hv.count_le
  refine overlaps_false ?_
  unfold Entry.Apart at h
  dsimp only
  omega

theorem items_apart {r : Reader} {p q : Partition} (hp : p ∈ (Kernel.scan r).items) (hq : q ∈ (Kernel.scan r).items)
    (hne : p.number ≠ q.number) : p.end ≤ q.firstLba ∨ q.end ≤ p.firstLba := by
  have : Std.Symm fun p q : Partition => p.end ≤ q.firstLba ∨ q.end ≤ p.firstLba := ⟨fun _ _ h => h.symm⟩
  exact (Kernel.scan_sound r).apart.forall hp hq (fun h => hne (congrArg _ h))

/-- **The boot scan mounts each volume on an entry of its own**: at the first sector of an entry of the accepted table that
lies on the device, and not beyond the end of that entry.  On a disk that the inventory's scan accepts the entry is one
that it reports, and no two volumes overlap. -/
theorem scan_placement (sv : Services) (w : World) : ∃ entryOf, Placement sv w (scan sv w) entryOf := by
  obtain ⟨count, entryOf, hm, ho, -⟩ := scan_reached sv w
  have mounted : ∀ p v, w.New (scan sv w) p v → ∃ e count, Mounted sv (scan sv w) v (entryOf p) e count :=
    fun p v h => (hm p v h).2
  have once : ∀ p q u v, w.New (scan sv w) p u → w.New (scan sv w) q v → p ≠ q → entryOf p ≠ entryOf q :=
    fun p q u v hu hv hne h => hne (ho p q u v hu hv h)
  refine ⟨entryOf, mounted, once, fun p q u v hu hv e f he hf h a b ha hb => ?_, fun hvalid p v h => ?_,
    fun hvalid p q u v hu hv hne a b ha hb => ?_⟩
  · obtain ⟨e', m, h1⟩ := mounted p u hu
    obtain ⟨f', n, h2⟩ := mounted q v hv
    obtain rfl : e' = e := Option.some.inj (h1.entry.symm.trans he)
    obtain rfl : f' = f := Option.some.inj (h2.entry.symm.trans hf)
    exact h1.apart h2 h ha hb
  · obtain ⟨e, count, h⟩ := mounted p v h
    obtain ⟨item, hi, -, h1, h2, h3, h4⟩ := entry_reported hvalid h.entry h.plain
    exact ⟨e, h.entry, item, hi, h1, h2, h3, h4⟩
  · obtain ⟨e, m, h1⟩ := mounted p u hu
    obtain ⟨f, n, h2⟩ := mounted q v hv
    obtain ⟨x, hx, hxn, hx1, hx2, -, -⟩ := entry_reported hvalid h1.entry h1.plain
    obtain ⟨y, hy, hyn, hy1, hy2, -, -⟩ := entry_reported hvalid h2.entry h2.plain
    have hnum : x.number ≠ y.number := by
      have := once p q u v hu hv hne
      omega
    have hapart := items_apart hx hy hnum
    rw [Kernel.Partition.end, Kernel.Partition.end, hx1, hx2, hy1, hy2] at hapart
    exact h1.apart h2 hapart ha hb

end Placement

/-! ## A volume may be shorter than its entry -/

/-- An MBR disk of 200000 sectors: one FAT32 partition of 100000 sectors from sector 2048 on, and a volume in it whose boot
sector counts 80000. -/
def shortVolume : Services where
  reader :=
    { sectorBytes := 512, sectors := 200000
      read := fun lba =>
        if lba = 0 then
          some (zeros 446 ++ [0, 0, 0, 0, 0x0C, 0, 0, 0] ++ leBytes 4 2048 ++ leBytes 4 100000 ++ zeros 48 ++ [0x55, 0xAA])
        else if lba = 2048 then
          some (zeros 11 ++ leBytes 2 512 ++ [1] ++ leBytes 2 32 ++ [1] ++ zeros 15 ++ leBytes 4 80000 ++ leBytes 4 700 ++
            zeros 4 ++ leBytes 4 2 ++ zeros 462 ++ [0x55, 0xAA])
        else some (zeros 512) }
  deviceIndex := 0
  fatState := fun _ _ => true
  ntfsScratch := fun _ => true
  ntfsMount := fun _ _ _ => none
  ntfsUpcase := fun _ _ => false
  resolveEntryStatus := fun _ _ _ => .notFound
  entryExists := fun _ _ _ => false

def shortWorld : World where
  access :=
    { devices := fun i => if i.val = 0 then { active := true, generation := 1, sectors := 200000 } else {}, sequence := 1 }

theorem shortVolume_entry {index : Nat} {e : Entry} (h : entryAt shortVolume.reader index = some e) :
    e.sectorCount = 100000 := by
  have hall : ∀ i : Fin 4, ∀ e ∈ entryAt shortVolume.reader i, e.sectorCount = 100000 := by decide +kernel
  by_cases hi : index < 4
  · exact hall ⟨index, hi⟩ e h
  · have hnone : entryAt shortVolume.reader index = none := by
      have hread : (readSector shortVolume.reader 0).all fun mbr => !protective mbr := by decide +kernel
      unfold entryAt
      cases hr : readSector shortVolume.reader 0 with
      | none => rfl
      | some mbr =>
        rw [hr] at hread
        rw [Option.bind_some, if_neg (by simpa using hread), if_neg hi]
    rw [hnone] at h
    cases h

theorem shortVolume_mounted : shortWorld.volumeAt (some 3) = none ∧
    (((scan shortVolume shortWorld).volumeAt (some 3)).bind fun v => (scan shortVolume shortWorld).storageRegion v) =
      some ⟨⟨0, 1⟩, 2048, 80000⟩ := by decide +kernel

/-- **A mounted volume is not as long as its entry**, even on a disk that the inventory's scan accepts: it ends where its
boot sector says. -/
theorem scan_not_whole_entry : (Kernel.scan shortVolume.reader).valid = true ∧ ¬ ∀ (sv : Services) (w : World) p v,
    w.New (scan sv w) p v → ∃ index e generation, entryAt sv.reader index = some e ∧
      (scan sv w).storageRegion v = some ⟨⟨sv.deviceIndex, generation⟩, e.firstLba, e.sectorCount⟩ := by
  refine ⟨by decide +kernel, fun h => ?_⟩
  obtain ⟨hfree, hsome⟩ := shortVolume_mounted
  obtain ⟨v, hv, hr⟩ := Option.bind_eq_some_iff.1 hsome
  obtain ⟨index, e, generation, he, hregion⟩ := h shortVolume shortWorld (some 3) v ⟨hfree, hv⟩
  rw [hr] at hregion
  have hcount := congrArg Storage.Region.count (Option.some.inj hregion)
  rw [shortVolume_entry he] at hcount
  exact absurd (show 80000 = 100000 from hcount) (by decide)

end BootScan
end R4
