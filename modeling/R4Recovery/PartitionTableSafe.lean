import R4Recovery.PartitionTable
import R4Recovery.PartitionRead
/-!
# PartitionTableSafe — what the kernel's scan accepts

Whatever the disk holds, every partition in the table lies on the disk, no two of them overlap, and the logical ones lie
in the extended partition (`Sound`, `Nested`).
-/
namespace R4
namespace Kernel

open Gpt (Guid Header getLe mbrSlots slotType parsePartition parseHeader)
open Stateful (Keeps Preserves bind_ok check_eq refuse_ok bind_cases)

/-- The partitions lie on a disk of so many sectors, and no two overlap. -/
structure Sound (sectors : Nat) (t : Table) : Prop where
  each : ∀ p ∈ t.items, p.sectorCount ≠ 0 ∧ p.end ≤ sectors
  apart : t.items.Pairwise (fun p q => p.end ≤ q.firstLba ∨ q.end ≤ p.firstLba)

/-- The logical partitions, numbered from five, lie in the range. -/
def Nested (base end_ : Nat) (t : Table) : Prop := ∀ p ∈ t.items, 4 < p.number → base ≤ p.firstLba ∧ p.end ≤ end_

section Append

variable {sectors : Nat} {p : Partition}

theorem apart_ok : ∀ {items : List Partition}, apart p items = .ok () →
    ∀ old ∈ items, ¬ (p.firstLba < old.end ∧ old.firstLba < p.end) ∧ ¬ (p.uniqueGuid ≠ Guid.zero ∧ old.uniqueGuid = p.uniqueGuid)
  | [], _ => by simp
  | old :: items, h => by
    rw [apart] at h
    split at h
    · cases h
    · rename_i h1
      split at h
      · cases h
      · rename_i h2
        exact List.forall_mem_cons.2 ⟨⟨h1, h2⟩, apart_ok h⟩

theorem append_cases {t t' : Table} {r : Except ScanError Unit} (h : append p t = (r, t')) :
    t' = t ∨ (apart p t.items = .ok () ∧ t.items.length ≠ maxPartitions ∧ t' = { t with items := t.items ++ [p] }) := by
  rcases bind_cases h with ⟨e, h1, -⟩ | ⟨_, u, h1, h⟩
  · exact .inl (check_eq h1).2.symm
  · obtain ⟨ha, rfl⟩ := check_eq h1
    rcases bind_cases h with ⟨e, h1, -⟩ | ⟨_, u, h1, h⟩
    · exact .inl (check_eq h1).2.symm
    · obtain ⟨hl, rfl⟩ := refuse_ok h1
      cases h
      exact .inr ⟨ha, by simpa using hl, rfl⟩

theorem Sound.append (hc : p.sectorCount ≠ 0) (he : p.end ≤ sectors) : Keeps (Preserves (Sound sectors)) (append p) := by
  intro t hs
  rcases append_cases (Prod.eta (Kernel.append p t)).symm with h | ⟨ha, -, h⟩
  · rw [h]
    exact hs
  · rw [h]
    refine ⟨fun q hq => ?_, ?_⟩
    · rcases List.mem_append.1 hq with hq | hq
      · exact hs.each q hq
      · obtain rfl := List.mem_singleton.1 hq
        exact ⟨hc, he⟩
    · refine List.pairwise_append.2 ⟨hs.apart, List.pairwise_singleton _ _, fun q hq x hx => ?_⟩
      obtain rfl := List.mem_singleton.1 hx
      have := (apart_ok ha q hq).1
      omega

theorem Nested.append {base end_ : Nat} (h : 4 < p.number → base ≤ p.firstLba ∧ p.end ≤ end_) :
    Keeps (Preserves (Nested base end_)) (append p) := by
  intro t hn
  rcases append_cases (Prod.eta (Kernel.append p t)).symm with ht | ⟨-, -, ht⟩
  · rw [ht]
    exact hn
  · rw [ht]
    intro q hq
    rcases List.mem_append.1 hq with hq | hq
    · exact hn q hq
    · obtain rfl := List.mem_singleton.1 hq
      exact h

theorem bounds_ok (h : bounds p sectors = .ok ()) : p.firstLba ≠ 0 ∧ p.sectorCount ≠ 0 ∧ p.end ≤ sectors := by
  unfold bounds at h
  split at h
  · cases h
  · rename_i hb
    simp only [Bool.or_eq_true, beq_iff_eq, decide_eq_true_eq, not_or, Nat.not_le, Nat.not_lt] at hb
    unfold Partition.end
    omega

end Append

/-- An invariant of the items alone. -/
structure OfItems (P : Table → Prop) : Prop where
  of : ∀ {t t' : Table}, t'.items = t.items → P t → P t'

theorem Sound.ofItems (sectors : Nat) : OfItems (Sound sectors) :=
  ⟨fun h hs => ⟨by rw [h]; exact hs.each, by rw [h]; exact hs.apart⟩⟩

section Runs

variable {P : Table → Prop} {reader : Reader}

theorem OfItems.update (hP : OfItems P) {f : Table → Table} (hf : ∀ t, (f t).items = t.items) :
    Keeps (Preserves P) (Stateful.update f : Scan Unit) := Keeps.update (fun t h => hP.of (hf t) h)

theorem Keeps.lift {α : Type} (x : Except ScanError α) : Keeps (Preserves P) (lift x) := Keeps.check _

theorem Keeps.refuse (bad : Table → Bool) (e : ScanError) : Keeps (Preserves P) (Stateful.refuse bad e) := Keeps.check _

/-- **The four slots**: what they append has a number up to four and lies on the disk. -/
theorem Keeps.primaries {sectors : Nat} (happ : ∀ p : Partition, p.number ≤ 4 → p.sectorCount ≠ 0 → p.end ≤ sectors →
    Keeps (Preserves P) (append p)) : ∀ (L : List (Nat × Bytes)) (base end_ : Nat), (∀ x ∈ L, x.1 < 4) →
    Keeps (Preserves P) (primaries sectors L base end_)
  | [], _, _, _ => Keeps.pure _
  | (i, raw) :: rest, base, end_, hi => by
    obtain ⟨hi, hrest⟩ := List.forall_mem_cons.1 hi
    rw [Kernel.primaries]
    refine Keeps.ite (fun _ => Keeps.primaries happ rest base end_ hrest) (fun _ => ?_)
    refine Keeps.bindOk (Keeps.lift _) (fun _ s t hb => ?_)
    obtain ⟨-, hc, he⟩ := bounds_ok (check_eq hb).1
    refine Keeps.ite (fun _ => ?_) (fun _ => ?_)
    · exact Keeps.bind (Keeps.refuse _ _) (fun _ => Keeps.primaries happ rest _ _ hrest)
    · exact Keeps.bind (happ _ (by simp only [mbrPartition]; omega) hc he) (fun _ => Keeps.primaries happ rest base end_ hrest)

theorem primaries_range {sectors : Nat} : ∀ {L : List (Nat × Bytes)} {base end_ : Nat} {r : Nat × Nat} {s t : Table},
    primaries sectors L base end_ s = (.ok r, t) → r = (base, end_) ∨
      ∃ x ∈ L, isExtended (slotType x.2) = true ∧ r.1 = getLe x.2 8 4 ∧ r.2 = getLe x.2 8 4 + getLe x.2 12 4
  | [], base, end_, r, s, t, h => by
    cases h
    exact .inl rfl
  | (i, raw) :: rest, base, end_, r, s, t, h => by
    have later : ∀ {b e : Nat} {u : Table}, primaries sectors rest b e u = (.ok r, t) → r = (b, e) ∨
        ∃ x ∈ (i, raw) :: rest, isExtended (slotType x.2) = true ∧ r.1 = getLe x.2 8 4 ∧ r.2 = getLe x.2 8 4 + getLe x.2 12 4 := by
      intro b e u hr
      rcases primaries_range hr with h | ⟨x, hx, h⟩
      · exact .inl h
      · exact .inr ⟨x, List.mem_cons_of_mem _ hx, h⟩
    rw [primaries] at h
    split at h
    · exact later h
    · obtain ⟨_, _, -, h⟩ := bind_ok h
      split at h
      · rename_i hext
        obtain ⟨_, _, -, h⟩ := bind_ok h
        rcases later h with rfl | h
        · exact .inr ⟨(i, raw), List.mem_cons_self, hext, by simp [mbrPartition], by simp [mbrPartition, Partition.end]⟩
        · exact .inr h
      · obtain ⟨_, _, -, h⟩ := bind_ok h
        exact later h

/-- **One extended boot record** appends a logical partition behind it, on the disk and in the extended range. -/
theorem Keeps.walkStep {base end_ lba : Nat} {seen : List Nat} (hlba : base ≤ lba)
    (happ : ∀ p : Partition, p.sectorCount ≠ 0 → p.end ≤ reader.sectors → base ≤ p.firstLba → p.end ≤ end_ →
      Keeps (Preserves P) (append p)) : Keeps (Preserves P) (walkStep reader base end_ seen lba) := by
  refine Keeps.bind (Keeps.refuse _ _) (fun _ => Keeps.bind (Keeps.refuse _ _) (fun _ => Keeps.bind (Keeps.lift _) (fun ebr =>
    Keeps.bind (Keeps.refuse _ _) (fun _ => Keeps.bind (Keeps.refuse _ _) (fun _ => ?_)))))
  refine Keeps.bindOk (Keeps.lift _) (fun _ s t hb => Keeps.bindOk (Keeps.refuse _ _) (fun _ s t hin => ?_))
  obtain ⟨-, hc, he⟩ := bounds_ok (check_eq hb).1
  have hin := (refuse_ok hin).1
  simp only [Bool.or_eq_false_iff, decide_eq_false_iff_not, Nat.not_le, Nat.not_lt] at hin
  refine Keeps.bind (happ _ hc he (by omega) hin.2) (fun _ => Keeps.bind (Keeps.refuse _ _) (fun _ => ?_))
  refine Keeps.ite (fun _ => Keeps.pure _) (fun _ => ?_)
  exact Keeps.bind (Keeps.refuse _ _) (fun _ => Keeps.bind (Keeps.refuse _ _) (fun _ => Keeps.pure _))

theorem walkStep_next {base end_ lba next : Nat} {seen : List Nat} {s t : Table}
    (h : walkStep reader base end_ seen lba s = (.ok (some next), t)) : base ≤ next := by
  obtain ⟨_, _, -, h⟩ := bind_ok h
  obtain ⟨_, _, -, h⟩ := bind_ok h
  obtain ⟨ebr, _, -, h⟩ := bind_ok h
  obtain ⟨_, _, -, h⟩ := bind_ok h
  obtain ⟨_, _, -, h⟩ := bind_ok h
  obtain ⟨_, _, -, h⟩ := bind_ok h
  obtain ⟨_, _, -, h⟩ := bind_ok h
  obtain ⟨_, _, -, h⟩ := bind_ok h
  obtain ⟨_, _, -, h⟩ := bind_ok h
  dsimp only at h
  split at h
  · cases h
  · obtain ⟨_, _, -, h⟩ := bind_ok h
    obtain ⟨_, _, -, h⟩ := bind_ok h
    cases h
    exact Nat.le_add_right _ _

/-- **The whole chain**, whatever its links. -/
theorem Keeps.walk {base end_ : Nat} (happ : ∀ p : Partition, p.sectorCount ≠ 0 → p.end ≤ reader.sectors → base ≤ p.firstLba →
    p.end ≤ end_ → Keeps (Preserves P) (append p)) (seen : List Nat) (room : seen.length ≤ maxPartitions) (lba : Nat)
    (hlba : base ≤ lba) : Keeps (Preserves P) (walk reader base end_ seen room lba) := by
  rw [Kernel.walk]
  split
  · exact Keeps.lift _
  · refine Keeps.bindOk (Keeps.walkStep hlba happ) (fun next s t hn => ?_)
    cases next with
    | none => exact Keeps.pure _
    | some next => exact Keeps.walk happ _ _ next (walkStep_next hn)
termination_by maxPartitions - seen.length
decreasing_by rw [List.length_append, List.length_singleton]; omega

/-- **The entries of an array** lie in the usable range of its header. -/
theorem Keeps.appendEntries {header : Header} (happ : ∀ p : Partition, p.sectorCount ≠ 0 → p.end ≤ header.lastUsableLba + 1 →
    Keeps (Preserves P) (append p)) : ∀ (index : Nat) (raws : List Bytes), Keeps (Preserves P) (appendEntries header index raws)
  | _, [] => Keeps.pure _
  | index, raw :: rest => by
    rw [Kernel.appendEntries]
    refine Keeps.bindOk (Keeps.lift _) (fun parsed s t hp => ?_)
    cases parsed with
    | none => exact Keeps.appendEntries happ _ rest
    | some a =>
      have hparse : parsePartition raw header = .ok (some a) := by
        have := (check_eq hp).1
        cases hx : parsePartition raw header with
        | error e => rw [hx] at this; cases this
        | ok b => rw [hx] at this; cases this; rfl
      obtain ⟨-, h1, h2, h3⟩ := Gpt.parsePartition_some hparse
      refine Keeps.bind (Keeps.refuse _ _) (fun _ => Keeps.bind (happ _ ?_ ?_) (fun _ => Keeps.appendEntries happ _ rest))
      · exact Nat.succ_ne_zero _
      · simp only [Partition.end, Gpt.Partition.sectorCount]
        omega

theorem Keeps.scanArray {primary backup : Header} (happ : ∀ p : Partition, p.sectorCount ≠ 0 →
    p.end ≤ primary.lastUsableLba + 1 → Keeps (Preserves P) (append p)) : ∀ (left sectorIndex remaining index : Nat) (crc : UInt32),
    Keeps (Preserves P) (scanArray reader primary backup left sectorIndex remaining index crc)
  | 0, _, _, _, _ => Keeps.pure _
  | left + 1, _, _, _, _ =>
    Keeps.bind (Keeps.lift _) (fun _ => Keeps.bind (Keeps.lift _) (fun _ => Keeps.bind (Keeps.refuse _ _) (fun _ =>
      Keeps.bind (Keeps.appendEntries happ _ _) (fun _ => Keeps.scanArray happ left _ _ _ _))))

theorem parseHeader_lift {a : Bytes} {lba sectors : Nat} {h : Header} {s t : Table}
    (hx : lift (liftGpt (parseHeader a lba sectors)) s = (.ok h, t)) : parseHeader a lba sectors = .ok h := by
  have := (check_eq hx).1
  cases hp : parseHeader a lba sectors with
  | error e => rw [hp] at this; cases this
  | ok b => rw [hp] at this; cases this; rfl

theorem Keeps.scanGpt (hP : OfItems P) (happ : ∀ p : Partition, p.sectorCount ≠ 0 → p.end ≤ reader.sectors →
    Keeps (Preserves P) (append p)) : Keeps (Preserves P) (scanGpt reader) := by
  refine Keeps.bind (Keeps.lift _) (fun a => Keeps.bindOk (Keeps.lift _) (fun primary s t hp => ?_))
  obtain ⟨hok, rfl⟩ := (Gpt.parseHeader_iff _ _ _ _).1 (parseHeader_lift hp)
  have hu := hok.usable.2
  refine Keeps.bind (Keeps.refuse _ _) (fun _ => Keeps.bind (hP.update (fun _ => rfl)) (fun _ => Keeps.bind (Keeps.refuse _ _)
    (fun _ => Keeps.bind (Keeps.lift _) (fun _ => Keeps.bind (Keeps.lift _) (fun _ => Keeps.bind (Keeps.refuse _ _) (fun _ =>
      Keeps.bind (Keeps.scanArray (fun p hc he => happ p hc (by omega)) _ _ _ _ _) (fun _ => Keeps.refuse _ _)))))))

theorem slot_index (mbr : Bytes) : ∀ x ∈ (List.range 4).zip (mbrSlots mbr), x.1 < 4 := fun _ hx =>
  List.mem_range.1 (List.of_mem_zip hx).1

theorem Keeps.scanMbr {mbr : Bytes} (hP : OfItems P) (happ : ∀ p : Partition, p.sectorCount ≠ 0 → p.end ≤ reader.sectors →
    Keeps (Preserves P) (append p)) : Keeps (Preserves P) (scanMbr reader mbr) := by
  refine Keeps.bind (hP.update (fun _ => rfl)) (fun _ => Keeps.bind
    (Keeps.primaries (fun p _ => happ p) _ _ _ (slot_index mbr)) (fun extended => ?_))
  refine Keeps.ite (fun _ => Keeps.pure _) (fun _ => Keeps.bind (Keeps.refuse _ _) (fun _ => ?_))
  exact Keeps.walk (fun p hc he _ _ => happ p hc he) _ _ _ (Nat.le_refl _)

theorem Keeps.scanChecked (hP : OfItems P) (happ : ∀ p : Partition, p.sectorCount ≠ 0 → p.end ≤ reader.sectors →
    Keeps (Preserves P) (append p)) : Keeps (Preserves P) (scanChecked reader) := by
  refine Keeps.bind (Keeps.refuse _ _) (fun _ => Keeps.bind (Keeps.refuse _ _) (fun _ => Keeps.bind (Keeps.lift _) (fun mbr =>
    Keeps.bind (Keeps.refuse _ _) (fun _ => Keeps.bind (hP.update (fun _ => rfl)) (fun _ => Keeps.bind (Keeps.refuse _ _)
      (fun _ => ?_))))))
  refine Keeps.ite (fun _ => ?_) (fun _ => Keeps.scanMbr hP happ)
  exact Keeps.bind (hP.update (fun _ => rfl)) (fun _ => Keeps.bind (Keeps.refuse _ _) (fun _ => Keeps.scanGpt hP happ))

end Runs

theorem scan_fields (reader : Reader) :
    (scan reader).items = (scanChecked reader {}).2.items ∧ (scan reader).kind = (scanChecked reader {}).2.kind := by
  unfold scan
  rcases scanChecked reader {} with ⟨_ | _, t⟩ <;> exact ⟨rfl, rfl⟩

/-- **The scan's partitions lie on the disk and do not overlap**, valid or not. -/
theorem scan_sound (reader : Reader) : Sound reader.sectors (scan reader) := by
  have hempty : Sound reader.sectors {} := ⟨fun _ hp => absurd hp List.not_mem_nil, List.Pairwise.nil⟩
  exact (Sound.ofItems _).of (scan_fields reader).1
    (Keeps.scanChecked (Sound.ofItems reader.sectors) (fun p hc he => Sound.append hc he) {} hempty)

/-- A logical partition lies in an extended slot of the MBR. -/
def Logical (mbr : Bytes) (p : Partition) : Prop :=
  ∃ raw ∈ mbrSlots mbr, isExtended (slotType raw) = true ∧ getLe raw 8 4 ≤ p.firstLba ∧ p.end ≤ getLe raw 8 4 + getLe raw 12 4

theorem scanMbr_logical {reader : Reader} {mbr : Bytes} {s t : Table} {r : Except ScanError Unit}
    (h : scanMbr reader mbr s = (r, t)) (hs : s.items = []) : ∀ p ∈ t.items, 4 < p.number → Logical mbr p := by
  -- before the walk every number is at most four
  have hlow : ∀ base end_ : Nat, Keeps (Preserves (Nested base end_))
      (primaries reader.sectors ((List.range 4).zip (mbrSlots mbr)) 0 0) := fun base end_ =>
    Keeps.primaries (fun p hn _ _ => Nested.append (fun h4 => absurd h4 (by omega))) _ _ _ (slot_index mbr)
  rcases bind_cases h with ⟨e, h1, -⟩ | ⟨_, u, h1, h⟩
  · cases h1
  · cases h1
    have hempty : ∀ base end_ : Nat, Nested base end_ { s with kind := .mbr, firstUsable := 1, lastUsable := reader.sectors - 1 } :=
      fun base end_ p hp => by rw [show Table.items _ = [] from hs] at hp; cases hp
    rcases bind_cases h with ⟨e, h1, -⟩ | ⟨extended, u, h1, h⟩
    · have hall := fun base end_ => hlow base end_ _ (hempty base end_)
      rw [h1] at hall
      intro p hp h4
      have := (hall (p.firstLba + 1) 0 p hp h4).1
      omega
    · have hall := fun base end_ => hlow base end_ _ (hempty base end_)
      rw [h1] at hall
      split at h
      · cases h
        intro p hp h4
        have := (hall (p.firstLba + 1) 0 p hp h4).1
        omega
      · rename_i hbase
        have hkeep : Keeps (Preserves (Nested extended.1 extended.2)) (do
            Stateful.refuse (fun t => t.items.any (fun p => decide (p.firstLba < extended.2) && decide (extended.1 < p.end)))
              .partitionOverlap
            walk reader extended.1 extended.2 [] (Nat.zero_le _) extended.1) :=
          Keeps.bind (Keeps.refuse _ _) (fun _ => Keeps.walk (fun p _ _ h1 h2 => Nested.append (fun _ => ⟨h1, h2⟩)) _ _ _
            (Nat.le_refl _))
        have hn := hkeep u (hall _ _)
        rw [h] at hn
        rcases primaries_range h1 with rfl | ⟨x, hx, hext, hb, he⟩
        · exact absurd rfl hbase
        · intro p hp h4
          obtain ⟨h1, h2⟩ := hn p hp h4
          rw [hb] at h1
          rw [he] at h2
          exact ⟨x.2, (List.of_mem_zip hx).2, hext, h1, h2⟩

theorem scanGpt_kind {reader : Reader} {s t : Table} {r : Except ScanError Unit} (h : scanGpt reader s = (r, t)) :
    t.kind = s.kind := by
  have hkeep : Keeps (Preserves (fun t => t.kind = s.kind)) (scanGpt reader) := by
    have happ : ∀ p : Partition, Keeps (Preserves (fun t => t.kind = s.kind)) (append p) := fun p =>
      Keeps.bind (Keeps.check _) (fun _ => Keeps.bind (Keeps.check _) (fun _ => Keeps.update (fun _ ht => ht)))
    refine Keeps.bind (Keeps.lift _) (fun a => Keeps.bind (Keeps.lift _) (fun primary => Keeps.bind (Keeps.refuse _ _) (fun _ =>
      Keeps.bind (Keeps.update (fun _ ht => ht)) (fun _ => Keeps.bind (Keeps.refuse _ _) (fun _ => Keeps.bind (Keeps.lift _)
        (fun _ => Keeps.bind (Keeps.lift _) (fun _ => Keeps.bind (Keeps.refuse _ _) (fun _ => Keeps.bind
          (Keeps.scanArray (fun p _ _ => happ p) _ _ _ _ _) (fun _ => Keeps.refuse _ _)))))))))
  have := hkeep s rfl
  rw [h] at this
  exact this

/-- **Logical partitions lie in the extended partition.** -/
theorem scan_logical {reader : Reader} {p : Partition} (hk : (scan reader).kind = .mbr) (hp : p ∈ (scan reader).items)
    (h4 : 4 < p.number) : ∃ mbr, reader.read 0 = some mbr ∧ Logical mbr p := by
  rw [(scan_fields reader).1] at hp
  rw [(scan_fields reader).2] at hk
  rcases h : scanChecked reader {} with ⟨r, t⟩
  rw [h] at hp hk
  rcases bind_cases h with ⟨e, h1, -⟩ | ⟨_, u, h1, h⟩
  · obtain ⟨-, rfl⟩ := check_eq h1
    cases hk
  · obtain ⟨-, rfl⟩ := check_eq h1
    rcases bind_cases h with ⟨e, h1, -⟩ | ⟨_, u, h1, h⟩
    · obtain ⟨-, rfl⟩ := check_eq h1
      cases hk
    · obtain ⟨-, rfl⟩ := check_eq h1
      rcases bind_cases h with ⟨e, h1, -⟩ | ⟨mbr, u, h1, h⟩
      · obtain ⟨-, rfl⟩ := check_eq h1
        cases hk
      · obtain ⟨hmbr, rfl⟩ := check_eq h1
        have hread : reader.read 0 = some mbr := by
          unfold Reader.sector at hmbr
          split at hmbr
          · cases hmbr
          · split at hmbr
            · cases hmbr
            · rename_i hr
              cases hmbr
              exact hr
        rcases bind_cases h with ⟨e, h1, -⟩ | ⟨_, u, h1, h⟩
        · obtain ⟨-, rfl⟩ := check_eq h1
          cases hk
        · obtain ⟨-, rfl⟩ := check_eq h1
          rcases bind_cases h with ⟨e, h1, -⟩ | ⟨_, u, h1, h⟩
          · cases h1
          · cases h1
            rcases bind_cases h with ⟨e, h1, -⟩ | ⟨_, u, h1, h⟩
            · obtain ⟨-, rfl⟩ := check_eq h1
              cases hk
            · obtain ⟨-, rfl⟩ := check_eq h1
              split at h
              · rcases bind_cases h with ⟨e, h1, -⟩ | ⟨_, u, h1, h⟩
                · cases h1
                · cases h1
                  rcases bind_cases h with ⟨e, h1, -⟩ | ⟨_, u, h1, h⟩
                  · obtain ⟨-, rfl⟩ := check_eq h1
                    cases hk
                  · obtain ⟨-, rfl⟩ := check_eq h1
                    rw [scanGpt_kind h] at hk
                    cases hk
              · exact ⟨mbr, hread, scanMbr_logical h rfl p hp h4⟩

end Kernel
end R4
