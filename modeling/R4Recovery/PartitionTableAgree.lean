import R4Recovery.PartitionTableSafe
import R4Recovery.PartitionCrash
import R4Recovery.PartitionRoundTrip
/-!
# PartitionTableAgree — the kernel reads the tables the tools read

A disk that `Plan.read` accepts as a GPT or an MBR disk scans as valid, to the same partitions: number, range, types,
GUID, attributes and name (`scan_gpt`, `scan_mbr`).
-/
namespace R4
namespace Kernel

open Gpt (Guid Header Entry Plan getLe mbrSlots slotType parsePartition parseHeader readGptSlot readMbrSlot EntriesOk
  crcUpdate crcFinish)
open Stateful (bind_run check_bind refuse_bind update_bind)

/-- The reader of a whole disk. -/
def readerOf (d : Disk) (sectors : Nat) : Reader :=
  { read := fun lba => some (d.read (512 * lba) 512), sectorBytes := 512, sectors }

theorem sector_run {d : Disk} {sectors lba : Nat} (h : lba < sectors) :
    (readerOf d sectors).sector lba = .ok (d.read (512 * lba) 512) := by
  unfold Reader.sector
  rw [if_neg (by simp only [readerOf]; omega)]
  rfl

theorem lift_bind {α β : Type} {x : Except ScanError α} {f : α → Scan β} {a : α} {t : Table} (h : x = .ok a) :
    (lift x >>= f) t = f a t := check_bind h

/-! ## The partitions of a plan -/

def entryPart (number : Nat) (e : Entry) : Partition :=
  { number, firstLba := e.first, sectorCount := e.count, uniqueGuid := e.uniqueGuid, typeGuid := e.typeGuid
    mbrType := e.mbrType, attributes := e.attributes, name := e.name }

/-- The entries in use, numbered from one behind `index`. -/
def partsFrom : Nat → List Entry → List Partition
  | _, [] => []
  | index, e :: es => if e.present then entryPart (index + 1) e :: partsFrom (index + 1) es else partsFrom (index + 1) es

theorem partsFrom_append : ∀ (xs ys : List Entry) (index : Nat),
    partsFrom index (xs ++ ys) = partsFrom index xs ++ partsFrom (index + xs.length) ys
  | [], ys, index => rfl
  | e :: xs, ys, index => by
    rw [List.cons_append, partsFrom, partsFrom, partsFrom_append xs ys (index + 1), List.length_cons, Nat.add_right_comm,
      Nat.add_assoc]
    split <;> rfl

theorem length_partsFrom : ∀ (es : List Entry) (index : Nat), (partsFrom index es).length ≤ es.length
  | [], _ => Nat.le_refl _
  | e :: es, index => by
    have := length_partsFrom es (index + 1)
    rw [partsFrom]
    split
    · simpa using this
    · simp only [List.length_cons]
      omega

theorem mem_partsFrom : ∀ {es : List Entry} {index : Nat} {p : Partition}, p ∈ partsFrom index es →
    ∃ e ∈ es, e.present = true ∧ ∃ n, p = entryPart n e
  | e :: es, index, p, h => by
    rw [partsFrom] at h
    split at h
    · rename_i he
      rcases List.mem_cons.1 h with rfl | h
      · exact ⟨e, List.mem_cons_self, he, _, rfl⟩
      · obtain ⟨x, hx, hp⟩ := mem_partsFrom h
        exact ⟨x, List.mem_cons_of_mem _ hx, hp⟩
    · obtain ⟨x, hx, hp⟩ := mem_partsFrom h
      exact ⟨x, List.mem_cons_of_mem _ hx, hp⟩

/-- What `append` asks of a new partition and an old one. -/
def Clear (old p : Partition) : Prop :=
  ¬ (p.firstLba < old.end ∧ old.firstLba < p.end) ∧ ¬ (p.uniqueGuid ≠ Guid.zero ∧ old.uniqueGuid = p.uniqueGuid)

/-- The table with more partitions. -/
def Table.add (t : Table) (ps : List Partition) : Table := { t with items := t.items ++ ps }

@[simp] theorem Table.items_add (t : Table) (ps : List Partition) : (t.add ps).items = t.items ++ ps := rfl

theorem Table.add_nil (t : Table) : t.add [] = t := by
  unfold Table.add
  rw [List.append_nil]

theorem Table.add_add (t : Table) (ps qs : List Partition) : (t.add ps).add qs = t.add (ps ++ qs) := by
  unfold Table.add
  rw [List.append_assoc]

/-- The partitions can be appended one by one. -/
def Fits (items ps : List Partition) : Prop := (items ++ ps).Pairwise Clear ∧ (items ++ ps).length ≤ maxPartitions

theorem apart_run {p : Partition} : ∀ {items : List Partition}, (∀ old ∈ items, Clear old p) → apart p items = .ok ()
  | [], _ => rfl
  | old :: items, h => by
    obtain ⟨h1, h2⟩ := List.forall_mem_cons.1 h
    rw [apart, if_neg h1.1, if_neg h1.2, apart_run h2]

theorem append_run {t : Table} {p : Partition} {ps : List Partition} (h : Fits t.items (p :: ps)) :
    append p t = (.ok (), t.add [p]) ∧ Fits (t.add [p]).items ps := by
  obtain ⟨hc, hl⟩ := h
  have hold : ∀ old ∈ t.items, Clear old p := fun old ho =>
    (List.pairwise_append.1 hc).2.2 old ho p List.mem_cons_self
  have hlen : t.items.length ≠ maxPartitions := by
    simp only [List.length_append, List.length_cons] at hl
    omega
  constructor
  · unfold append
    rw [check_bind (by exact apart_run hold), refuse_bind (by simpa using hlen)]
    rfl
  · unfold Fits
    rw [Table.items_add, List.append_assoc]
    exact ⟨hc, hl⟩

/-- **Entries that a plan accepts can all be appended.** -/
theorem fits_of_entriesOk {p : Plan} {es : List Entry} (h : EntriesOk p es) (hlen : es.length ≤ 128)
    (hguid : p.kind = .gpt ∨ ∀ e ∈ es, e.uniqueGuid = Guid.zero) (index : Nat) : Fits [] (partsFrom index es) := by
  refine ⟨?_, Nat.le_trans (length_partsFrom es index) hlen⟩
  rw [List.nil_append]
  have key : ∀ (L : List Entry) (index : Nat), L.Pairwise (fun o e => o.present = true → e.present = true →
      Gpt.EntriesApart p e o) → (∀ e ∈ L, p.kind = .gpt ∨ e.uniqueGuid = Guid.zero) → (partsFrom index L).Pairwise Clear := by
    intro L
    induction L with
    | nil => intro index _ _; exact List.Pairwise.nil
    | cons e L ih =>
      intro index hp hg
      obtain ⟨h1, h2⟩ := List.pairwise_cons.1 hp
      obtain ⟨hge, hgL⟩ := List.forall_mem_cons.1 hg
      rw [partsFrom]
      split
      · rename_i hpres
        refine List.pairwise_cons.2 ⟨fun q hq => ?_, ih (index + 1) h2 hgL⟩
        obtain ⟨x, hx, hxp, n, rfl⟩ := mem_partsFrom hq
        obtain ⟨ha, hu⟩ := h1 x hx hpres hxp
        refine ⟨ha, fun hc => ?_⟩
        rcases hgL x hx with hk | hz
        · exact hu hk hc.2.symm
        · exact hc.1 hz
      · exact ih (index + 1) h2 hgL
  refine key es index h.apart (fun e he => ?_)
  rcases hguid with hk | hz
  · exact .inl hk
  · exact .inr (hz e he)

/-! ## The MBR -/

/-- **The slots that `Plan.read` reads are appended as they are.** -/
theorem primaries_run {sectors : Nat} : ∀ {L : List Bytes} {es : List Entry} {index : Nat} {t : Table},
    L.mapM readMbrSlot = .ok es → (∀ e ∈ es, e.present = true → e.first ≠ 0 ∧ e.count ≠ 0 ∧ e.first + e.count ≤ sectors) →
    Fits t.items (partsFrom index es) →
    primaries sectors ((List.range' index L.length).zip L) 0 0 t =
      (.ok (0, 0), t.add (partsFrom index es))
  | [], es, index, t, h, _, _ => by
    rw [List.mapM_nil] at h
    cases h
    rw [show partsFrom index [] = [] from rfl, Table.add_nil]
    rfl
  | raw :: L, es, index, t, h, hin, hfits => by
    obtain ⟨e, es, he, hes, rfl⟩ := Gpt.mapM_cons_ok.1 h
    obtain ⟨hine, hines⟩ := List.forall_mem_cons.1 hin
    rw [List.length_cons, List.range'_succ, List.zip_cons_cons, primaries]
    unfold readMbrSlot at he
    split at he
    · -- an empty slot
      rename_i hz
      obtain ⟨_, -, he⟩ := Except.bind_ok.1 he
      cases he
      rw [if_pos hz]
      exact primaries_run hes hines hfits
    · rename_i hz
      obtain ⟨_, -, he⟩ := Except.bind_ok.1 he
      obtain ⟨_, hext, he⟩ := Except.bind_ok.1 he
      cases he
      rw [reject_ok] at hext
      obtain ⟨h1, h2, h3⟩ := hine rfl
      have hpart : mbrPartition (index + 1) 0 raw = entryPart (index + 1) (Entry.mk true (getLe raw 8 4) (getLe raw 12 4)
          Guid.zero Guid.zero 0 (Vector.replicate 36 0) (slotType raw) (raw.getD 0 0 == 0x80)
          (Vector.ofFn (fun i => raw.getD i.val 0))) := by
        simp [mbrPartition, entryPart]
      rw [partsFrom, if_pos rfl] at hfits ⊢
      obtain ⟨hrun, hfits⟩ := append_run hfits
      have hb : bounds (mbrPartition (index + 1) 0 raw) sectors = .ok () := by
        dsimp only at h1 h2 h3
        unfold bounds mbrPartition
        dsimp only
        rw [if_neg]
        simp only [Bool.or_eq_true, beq_iff_eq, decide_eq_true_eq]
        omega
      rw [if_neg hz, lift_bind hb, if_neg (by rw [Bool.not_eq_true]; exact hext), hpart, bind_run hrun]
      rw [primaries_run hes hines hfits, Table.add_add]
      rfl

/-! ## GPT -/

/-- **The entries that `readGptSlot` reads are appended as they are.** -/
theorem appendEntries_run {header : Header} : ∀ {L : List Bytes} {es : List Entry} {index : Nat} {t : Table},
    L.mapM (readGptSlot header) = .ok es → (∀ e ∈ es, e.present = true → e.uniqueGuid ≠ Guid.zero) →
    ∀ {ps : List Partition}, Fits t.items (partsFrom index es ++ ps) →
    appendEntries header index L t = (.ok (), t.add (partsFrom index es)) ∧ Fits (t.add (partsFrom index es)).items ps
  | [], es, index, t, h, _, ps, hfits => by
    rw [List.mapM_nil] at h
    cases h
    rw [show partsFrom index [] = [] from rfl, Table.add_nil]
    exact ⟨rfl, hfits⟩
  | raw :: L, es, index, t, h, hguid, ps, hfits => by
    obtain ⟨e, es, he, hes, rfl⟩ := Gpt.mapM_cons_ok.1 h
    obtain ⟨hge, hges⟩ := List.forall_mem_cons.1 hguid
    rw [appendEntries]
    rcases (Gpt.readGptSlot_iff header raw e).1 he with ⟨hp, rfl⟩ | ⟨a, hp, rfl⟩
    · rw [lift_bind (by rw [hp]; rfl)]
      exact appendEntries_run hes hges hfits
    · rw [lift_bind (by rw [hp]; rfl)]
      have hz : a.uniqueGuid ≠ Guid.zero := hge rfl
      rw [partsFrom, if_pos (show (Gpt.entryOf a).present = true from rfl), List.cons_append] at hfits
      rw [partsFrom, if_pos (show (Gpt.entryOf a).present = true from rfl)]
      obtain ⟨hrun, hfits⟩ := append_run hfits
      obtain ⟨hrest, hfits⟩ := appendEntries_run hes hges hfits
      rw [Table.add_add] at hrest hfits
      dsimp only
      rw [refuse_bind (by simpa using hz)]
      change (append (entryPart (index + 1) (Gpt.entryOf a)) >>= fun _ => appendEntries header (index + 1) L) t = _ ∧ _
      rw [bind_run hrun]
      exact ⟨hrest, hfits⟩

/-- The 128 bytes of an entry in an array at `lba`. -/
def slotAt (d : Disk) (lba slot : Nat) : Bytes := d.read (512 * lba + slot * 128) 128

theorem sector_slots (d : Disk) (lba : Nat) {k n : Nat} (hn : n ≤ 4) :
    (List.range n).map (fun j => slice (d.read (512 * (lba + k)) 512) (j * 128) 128) =
      (List.range' (4 * k) n).map (slotAt d lba) := by
  rw [List.range'_eq_map_range, List.map_map]
  refine List.map_congr_left (fun j hj => ?_)
  have hj := List.mem_range.1 hj
  rw [Disk.slice_read d (by omega)]
  show d.read _ 128 = d.read (512 * lba + (4 * k + j) * 128) 128
  congr 1
  omega

theorem arraySlots_eq (d : Disk) (h : Header) (hc : h.entryCount * 128 ≤ 512 * h.entrySectors) :
    Gpt.arraySlots (Gpt.arrayOf d h) h.entryCount = (List.range' 0 h.entryCount).map (slotAt d h.entriesLba) := by
  rw [Gpt.arraySlots, ← List.range_eq_range']
  refine List.map_congr_left (fun j hj => ?_)
  have hj := List.mem_range.1 hj
  rw [Gpt.arrayOf, Disk.slice_read d (by omega)]
  rfl

theorem mapM_append_ok {α β : Type} {f : α → Except Error β} : ∀ {xs ys : List α} {zs : List β},
    (xs ++ ys).mapM f = .ok zs → ∃ as bs, xs.mapM f = .ok as ∧ ys.mapM f = .ok bs ∧ zs = as ++ bs ∧ as.length = xs.length
  | [], ys, zs, h => ⟨[], zs, rfl, h, rfl, rfl⟩
  | x :: xs, ys, zs, h => by
    rw [List.cons_append] at h
    obtain ⟨a, rest, ha, hrest, rfl⟩ := Gpt.mapM_cons_ok.1 h
    obtain ⟨as, bs, h1, h2, rfl, hl⟩ := mapM_append_ok hrest
    exact ⟨a :: as, bs, Gpt.mapM_cons_ok.2 ⟨a, as, ha, h1, rfl⟩, h2, rfl, by simp [hl]⟩

/-- **The array scan**, from sector `k` on: `count` entries are left, in `left` sectors. -/
theorem scanArray_run {d : Disk} {sectors : Nat} {x y : Header} (hsize : x.entrySize = 128) :
    ∀ {left k count : Nat} {es : List Entry} {t : Table} {crc : UInt32},
    left = (count * 128 + 511) / 512 → x.entriesLba + k + left ≤ sectors → y.entriesLba + k + left ≤ sectors →
    d.read (512 * (x.entriesLba + k)) (count * 128) = d.read (512 * (y.entriesLba + k)) (count * 128) →
    ((List.range' (4 * k) count).map (slotAt d x.entriesLba)).mapM (readGptSlot x) = .ok es →
    (∀ e ∈ es, e.present = true → e.uniqueGuid ≠ Guid.zero) → Fits t.items (partsFrom (4 * k) es) →
    scanArray (readerOf d sectors) x y left k (count * 128) (4 * k) crc t =
      (.ok (crcUpdate crc (d.read (512 * (x.entriesLba + k)) (count * 128))), t.add (partsFrom (4 * k) es))
  | 0, k, count, es, t, crc, hleft, _, _, _, hes, _, _ => by
    obtain rfl : count = 0 := by omega
    rw [List.range'_zero, List.map_nil, List.mapM_nil] at hes
    cases hes
    rw [show partsFrom (4 * k) [] = [] from rfl, Table.add_nil]
    rfl
  | left + 1, k, count, es, t, crc, hleft, hx, hy, hsame, hes, hguid, hfits => by
    -- this sector holds `n` of the entries
    obtain ⟨n, hn⟩ : ∃ n, n = min count 4 := ⟨_, rfl⟩
    have htake : min (count * 128) 512 = n * 128 := by omega
    have hcount : (n * 128 + x.entrySize - 1) / x.entrySize = n := by rw [hsize]; omega
    have hsplit : count = n + (count - n) := by omega
    have hmul : count * 128 = n * 128 + (count - n) * 128 := by omega
    rw [hsplit, ← List.range'_append_1, List.map_append] at hes
    obtain ⟨as, bs, has, hbs, rfl, hlen⟩ := mapM_append_ok hes
    rw [List.length_map, List.length_range'] at hlen
    rw [hmul, Disk.read_append, Disk.read_append] at hsame
    obtain ⟨hhead, htail⟩ := List.append_inj hsame (by simp)
    rw [partsFrom_append, hlen] at hfits
    obtain ⟨hga, hgb⟩ := List.forall_mem_append.1 hguid
    have hraws := sector_slots d x.entriesLba (k := k) (n := n) (by omega)
    obtain ⟨happ, hfits⟩ := appendEntries_run has hga hfits
    rw [scanArray, lift_bind (sector_run (by omega)), lift_bind (sector_run (by omega))]
    dsimp only
    rw [htake, hcount, Disk.slice_read d (by omega), Disk.slice_read d (by omega), Nat.add_zero, Nat.add_zero, hsize,
      refuse_bind (by simpa using hhead), hraws, bind_run happ]
    have hrest : count * 128 - n * 128 = (count - n) * 128 := by omega
    rw [hrest]
    by_cases hdone : count ≤ 4
    · -- the last sector
      obtain rfl : left = 0 := by omega
      have hz : count - n = 0 := by omega
      rw [hz, List.range'_zero, List.map_nil, List.mapM_nil] at hbs
      cases hbs
      have hnc : n = count := by omega
      rw [scanArray, hnc, List.append_nil]
      rfl
    · have h4 : n = 4 := by omega
      subst h4
      have hk : 4 * k + 4 = 4 * (k + 1) := by omega
      have hox : 512 * (x.entriesLba + k) + 4 * 128 = 512 * (x.entriesLba + (k + 1)) := by omega
      have hoy : 512 * (y.entriesLba + k) + 4 * 128 = 512 * (y.entriesLba + (k + 1)) := by omega
      rw [hk] at hfits hbs ⊢
      rw [hox, hoy] at htail
      rw [scanArray_run hsize (by omega) (by omega) (by omega) htail hbs hgb hfits, partsFrom_append, hlen, hk,
        Table.add_add, hmul, Disk.read_append, Gpt.crcUpdate_append, hox]

section Agree

variable {d : Disk} {sectors : Nat}

theorem scanChecked_signed (h0 : 0 < sectors) (hs : sectors ≤ (2 ^ 64 - 1) / 512)
    (hsign : (d.read 0 512).getD 510 0 = 0x55 ∧ (d.read 0 512).getD 511 0 = 0xaa)
    (hcov : ∀ raw ∈ mbrSlots (d.read 0 512), slotType raw = 0xee → Gpt.protectiveOk sectors raw = true) :
    scanChecked (readerOf d sectors) {} =
      (if ((mbrSlots (d.read 0 512)).filter (fun raw => slotType raw == 0xee)).length ≠ 0 then do
        Stateful.update (fun t => { t with kind := .gpt })
        Stateful.refuse (fun _ => ((mbrSlots (d.read 0 512)).filter (fun raw => slotType raw == 0xee)).length != 1 ||
          ((mbrSlots (d.read 0 512)).filter (fun raw => slotType raw != 0)).length != 1) .hybridMbr
        scanGpt (readerOf d sectors)
      else scanMbr (readerOf d sectors) (d.read 0 512) : Scan Unit) { mbrDiskId := getLe (d.read 0 512) 440 4 } := by
  have hread : (readerOf d sectors).sector 0 = .ok (d.read 0 512) := sector_run h0
  have hbad : (((mbrSlots (d.read 0 512)).filter (fun raw => slotType raw == 0xee)).any
      (fun raw => !Gpt.protectiveOk sectors raw)) = false := by
    refine List.any_eq_false.2 (fun raw hraw => ?_)
    obtain ⟨hm, ht⟩ := List.mem_filter.1 hraw
    rw [hcov raw hm (by simpa using ht)]
    simp
  have hcap : (sectors == 0 || decide ((2 ^ 64 - 1) / 512 < sectors)) = false := by
    simp only [Bool.or_eq_false_iff, beq_eq_false_iff_ne, decide_eq_false_iff_not]
    omega
  unfold scanChecked
  rw [refuse_bind (by rfl), refuse_bind (by exact hcap), lift_bind hread,
    refuse_bind (by simp only [signed, hsign.1, hsign.2]; rfl), update_bind]
  exact refuse_bind (by exact hbad)

/-- **A GPT disk scans to the partitions of its table.** -/
theorem scan_gpt {x y : Header} {es : List Entry} (hs : sectors ≤ (2 ^ 64 - 1) / 512) (ha : Gpt.Agreeing sectors d x y es) :
    scan (readerOf d sectors) =
      { kind := .gpt, valid := true, reason := .ok, diskGuid := x.diskGuid, mbrDiskId := getLe (d.read 0 512) 440 4
        firstUsable := x.firstUsableLba, lastUsable := x.lastUsableLba, items := partsFrom 0 es } := by
  obtain ⟨p1, p2, p3, p4, p5, p6, p7⟩ := ha.places
  obtain ⟨hguid, hcrc, -, es', hes', hok⟩ := (Gpt.validateCopy_iff _ _ _).1 ha.primary.copy
  rw [ha.primary.entries] at hes'
  cases hes'
  obtain ⟨-, hsize, hcount⟩ := (Gpt.layoutBad_iff _ _).1 ha.primary.layout
  have hlen := (Gpt.readGptArray_spec ha.primary.entries).1
  have hbytes : x.entryBytes = x.entryCount * 128 := by rw [Header.entryBytes, hsize]
  have hsec : x.entrySectors = (x.entryCount * 128 + 511) / 512 := by rw [Header.entrySectors, hbytes]
  -- the entries fit, since the plan of this disk is valid
  have hlive : (Gpt.gptPlan sectors (d.read 0 512) x y es).live = es := Gpt.live_setEntries rfl hlen hcount
  have hents := ((Gpt.validate_iff _).1 (Gpt.gptPlan_validate hs ha)).2.2
  rw [hlive] at hents
  have hfits := fits_of_entriesOk hents (by omega) (.inl rfl) 0
  have hslots := ha.primary.entries
  rw [Gpt.readGptArray, arraySlots_eq d x (by omega)] at hslots
  have hsame := ha.used
  rw [hbytes, Gpt.arrayOf, Gpt.arrayOf, Disk.slice_read d (by omega), ← (Gpt.entrySectors_congr
    ((Gpt.gptCopiesDiffer_iff x y).1 ha.agree).2.2.2.1 ((Gpt.gptCopiesDiffer_iff x y).1 ha.agree).2.2.2.2.1).1,
    Disk.slice_read d (by omega), Nat.add_zero, Nat.add_zero] at hsame
  rw [Gpt.arrayOf, hbytes, Disk.slice_read d (by omega), Nat.add_zero] at hcrc
  have hp1 : parseHeader (d.read (512 * 1) 512) 1 sectors = .ok x :=
    (Gpt.parseHeader_iff _ _ _ _).2 ⟨ha.primary.header, ha.primary.fields.symm⟩
  have hp2 : parseHeader (d.read (512 * (sectors - 1)) 512) (sectors - 1) sectors = .ok y :=
    (Gpt.parseHeader_iff _ _ _ _).2 ⟨ha.backup.header, ha.backup.fields.symm⟩
  have hrun : scanGpt (readerOf d sectors) { kind := .gpt, mbrDiskId := getLe (d.read 0 512) 440 4 } =
      (.ok (), { kind := .gpt, diskGuid := x.diskGuid, mbrDiskId := getLe (d.read 0 512) 440 4
                 firstUsable := x.firstUsableLba, lastUsable := x.lastUsableLba, items := partsFrom 0 es }) := by
    unfold scanGpt
    rw [lift_bind (sector_run (by omega)), lift_bind (by rw [show (readerOf d sectors).sectors = sectors from rfl, hp1]; rfl),
      refuse_bind (by rw [hsize]; rfl), update_bind, refuse_bind (by simpa using hguid),
      lift_bind (sector_run (by show sectors - 1 < sectors; omega)),
      lift_bind (by rw [show (readerOf d sectors).sectors = sectors from rfl, hp2]; rfl), refuse_bind (by exact ha.agree), hbytes]
    have harr := @scanArray_run d sectors x y hsize x.entrySectors 0 x.entryCount es
      { kind := .gpt, diskGuid := x.diskGuid, mbrDiskId := getLe (d.read 0 512) 440 4
        firstUsable := x.firstUsableLba, lastUsable := x.lastUsableLba } 0xFFFFFFFF hsec (by omega) (by omega) hsame hslots
      (fun e he hp => (hok.guid e he hp).1) hfits
    rw [bind_run harr]
    have hfin : (crcFinish (crcUpdate 0xFFFFFFFF (d.read (512 * (x.entriesLba + 0)) (x.entryCount * 128)))).toNat =
        x.entriesCrc32 := hcrc
    show (if (_ != _) = true then _ else _, _) = _
    rw [hfin]
    simp [Table.add]
  unfold scan
  rw [scanChecked_signed (by omega) hs ha.protective.signed ha.protective.covers, if_pos (by rw [ha.protective.one]; decide),
    update_bind, refuse_bind (by rw [ha.protective.one, ha.protective.only]; rfl), hrun]

theorem slotType_bytes {raw : Bytes} {e : Entry} (h : readMbrSlot raw = .ok e) : e.uniqueGuid = Guid.zero := by
  unfold readMbrSlot at h
  split at h
  · obtain ⟨_, -, h⟩ := Except.bind_ok.1 h
    cases h
    rfl
  · obtain ⟨_, -, h⟩ := Except.bind_ok.1 h
    obtain ⟨_, -, h⟩ := Except.bind_ok.1 h
    cases h
    rfl

/-- **An MBR disk scans to the partitions of its slots.** -/
theorem scan_mbr {es : List Entry} {p : Plan} (hs : sectors ≤ (2 ^ 64 - 1) / 512) (h0 : 0 < sectors)
    (hsign : (d.read 0 512).getD 510 0 = 0x55 ∧ (d.read 0 512).getD 511 0 = 0xaa)
    (hnone : ∀ raw ∈ mbrSlots (d.read 0 512), slotType raw ≠ 0xee) (hes : (mbrSlots (d.read 0 512)).mapM readMbrSlot = .ok es)
    (hok : EntriesOk p es) (hp : p.firstUsable = 1 ∧ p.lastUsable = sectors - 1) :
    scan (readerOf d sectors) =
      { kind := .mbr, valid := true, reason := .ok, mbrDiskId := getLe (d.read 0 512) 440 4
        firstUsable := 1, lastUsable := sectors - 1, items := partsFrom 0 es } := by
  obtain ⟨hlen, hzero⟩ := Gpt.mapM_spec (Q := fun e : Entry => e.uniqueGuid = Guid.zero) (fun _ _ => slotType_bytes) hes
  have hlen4 : es.length = 4 := by rw [hlen]; simp [mbrSlots]
  have hfits := fits_of_entriesOk hok (by omega) (.inr hzero) 0
  have hin : ∀ e ∈ es, e.present = true → e.first ≠ 0 ∧ e.count ≠ 0 ∧ e.first + e.count ≤ sectors := by
    intro e he hpe
    obtain ⟨h1, h2, h3, -⟩ := hok.each e he hpe
    rw [hp.1, hp.2] at h2
    rw [hp.2] at h3
    omega
  have hno : (mbrSlots (d.read 0 512)).filter (fun raw => slotType raw == 0xee) = [] :=
    List.filter_eq_nil_iff.2 (fun raw hraw => by simpa using hnone raw hraw)
  have hzip : (List.range 4).zip (mbrSlots (d.read 0 512)) =
      (List.range' 0 (mbrSlots (d.read 0 512)).length).zip (mbrSlots (d.read 0 512)) := by
    rw [List.range_eq_range']
    simp [mbrSlots]
  have hslots := @primaries_run sectors (mbrSlots (d.read 0 512)) es 0
    { kind := .mbr, mbrDiskId := getLe (d.read 0 512) 440 4, firstUsable := 1, lastUsable := sectors - 1 } hes hin hfits
  rw [← hzip] at hslots
  have hrun : scanMbr (readerOf d sectors) (d.read 0 512) { mbrDiskId := getLe (d.read 0 512) 440 4 } =
      (.ok (), { kind := .mbr, mbrDiskId := getLe (d.read 0 512) 440 4, firstUsable := 1
                 lastUsable := sectors - 1, items := partsFrom 0 es }) := by
    unfold scanMbr
    rw [update_bind]
    have hthen := fun k : Nat × Nat → Scan Unit => bind_run (f := k) hslots
    rw [show (readerOf d sectors).sectors = sectors from rfl, hthen, if_pos rfl]
    simp [Table.add]
    rfl
  unfold scan
  rw [scanChecked_signed h0 hs hsign (fun raw hraw ht => absurd ht (hnone raw hraw)), hno, if_neg (by simp), hrun]

theorem scan_unsigned (hsign : ¬ ((d.read 0 512).getD 510 0 = 0x55 ∧ (d.read 0 512).getD 511 0 = 0xaa)) :
    (scan (readerOf d sectors)).valid = false ∧ (scan (readerOf d sectors)).items = [] := by
  have hbad : signed (d.read 0 512) = false := by
    unfold signed
    rw [Bool.eq_false_iff, ne_eq, Bool.and_eq_true, beq_iff_eq, beq_iff_eq]
    exact hsign
  unfold scan
  rcases h : scanChecked (readerOf d sectors) {} with ⟨r, t⟩
  rcases Stateful.bind_cases h with ⟨e, h1, rfl⟩ | ⟨_, _, h1, h⟩
  · obtain ⟨-, rfl⟩ := Stateful.check_eq h1
    exact ⟨rfl, rfl⟩
  · obtain ⟨-, rfl⟩ := Stateful.check_eq h1
    rcases Stateful.bind_cases h with ⟨e, h1, rfl⟩ | ⟨_, _, h1, h⟩
    · obtain ⟨-, rfl⟩ := Stateful.check_eq h1
      exact ⟨rfl, rfl⟩
    · obtain ⟨-, rfl⟩ := Stateful.check_eq h1
      rcases Stateful.bind_cases h with ⟨e, h1, rfl⟩ | ⟨mbr, _, h1, h⟩
      · obtain ⟨-, rfl⟩ := Stateful.check_eq h1
        exact ⟨rfl, rfl⟩
      · obtain ⟨hm, rfl⟩ := Stateful.check_eq h1
        have hmbr : mbr = d.read 0 512 := by
          unfold Reader.sector at hm
          split at hm
          · cases hm
          · exact (Except.ok.inj hm).symm
        rcases Stateful.bind_cases h with ⟨e, h1, rfl⟩ | ⟨_, _, h1, h⟩
        · obtain ⟨-, rfl⟩ := Stateful.check_eq h1
          exact ⟨rfl, rfl⟩
        · have := (Stateful.refuse_ok h1).1
          rw [hmbr, hbad] at this
          cases this

end Agree

section Plans

open Gpt (Kind)

variable {sha : Bytes → Bytes} {dev : Device} {scratchLen : Nat} {F : Faults} {w w' : World} {p : Plan}

theorem planRead_plain (h : Plan.read sha dev scratchLen F w = (.ok p, w')) (hk : p.kind ≠ .gpt) :
    (p.kind = .none ∧ ¬ ((w.disk.read 0 512).getD 510 0 = 0x55 ∧ (w.disk.read 0 512).getD 511 0 = 0xaa)) ∨
    (p.kind = .mbr ∧ ((w.disk.read 0 512).getD 510 0 = 0x55 ∧ (w.disk.read 0 512).getD 511 0 = 0xaa) ∧
      (∀ raw ∈ mbrSlots (w.disk.read 0 512), slotType raw ≠ 0xee) ∧
      ∃ es, (mbrSlots (w.disk.read 0 512)).mapM readMbrSlot = .ok es ∧ p.live = es ∧
        p.firstUsable = 1 ∧ p.lastUsable = dev.sectors - 1) := by
  obtain ⟨-, -, -, ⟨q, bytes⟩, w1, w2, hw1, hr, digest, rfl⟩ := Gpt.planRead_ok h
  unfold Gpt.readSigned at hr
  split at hr
  · rename_i hsign
    obtain ⟨_, _, h0, hr⟩ := Io.bind_ok hr
    obtain ⟨-, rfl⟩ := Io.refuse_ok h0
    split at hr
    · obtain ⟨_, _, h0, hr⟩ := Io.bind_ok hr
      obtain ⟨-, rfl⟩ := Io.refuse_ok h0
      obtain ⟨x, y, es, -, -, -, -, -, -, -, -, -, rfl⟩ := Gpt.readGpt_ok hr
      exact absurd rfl hk
    · rename_i hno
      obtain ⟨es, _, h0, hr⟩ := Io.bind_ok hr
      obtain ⟨hes, rfl⟩ := Io.lift_ok h0
      obtain ⟨hq, -⟩ := Io.pure_ok hr
      obtain ⟨rfl, -⟩ := Prod.mk.inj hq
      have hlen := (Gpt.mapM_spec (Q := fun _ => True) (fun _ _ _ => trivial) hes).1
      have hno : (mbrSlots (w.disk.read 0 512)).filter (fun raw => slotType raw == 0xee) = [] := by
        simpa using hno
      refine .inr ⟨rfl, hsign, fun raw hraw ht => ?_, es, hes, ?_, rfl, rfl⟩
      · have := List.filter_eq_nil_iff.1 hno raw hraw
        rw [ht] at this
        exact this rfl
      · exact Gpt.live_setEntries rfl (by rw [hlen]; simp [mbrSlots]) (show (4 : Nat) ≤ 128 by omega)
  · rename_i hsign
    obtain ⟨hq, -⟩ := Io.pure_ok hr
    obtain ⟨rfl, -⟩ := Prod.mk.inj hq
    exact .inl ⟨rfl, hsign⟩

/-- The kernel's kind of a table of this kind. -/
def tableKind : Kind → TableKind
  | .none => .unknown
  | .mbr => .mbr
  | .gpt => .gpt

/-- **The kernel's scan is safe on every disk and agrees with the tools on every table they accept.** -/
theorem scan_safe_and_agrees :
    (∀ reader : Reader, Sound reader.sectors (scan reader) ∧
      ∀ p ∈ (scan reader).items, (scan reader).kind = .mbr → 4 < p.number → ∃ mbr, reader.read 0 = some mbr ∧ Logical mbr p) ∧
    ∀ (sha : Bytes → Bytes) (dev : Device) (scratchLen : Nat) (F : Faults) (w w' : World) (p : Plan),
      Plan.read sha dev scratchLen F w = (.ok p, w') →
      (p.kind ≠ .none → (scan (readerOf w.disk dev.sectors)).valid = true ∧
        (scan (readerOf w.disk dev.sectors)).kind = tableKind p.kind ∧
        (scan (readerOf w.disk dev.sectors)).items = partsFrom 0 p.live) ∧
      (p.kind = .none → (scan (readerOf w.disk dev.sectors)).valid = false ∧
        (scan (readerOf w.disk dev.sectors)).items = []) := by
  refine ⟨fun reader => ⟨scan_sound reader, fun p hp hk h4 => scan_logical hk hp h4⟩, ?_⟩
  intro sha dev scratchLen F w w' p hread
  obtain ⟨hv, h3, hval, -⟩ := Gpt.planRead_ok hread
  have hsec := (Device.sectors_pos hv).2
  by_cases hg : p.kind = .gpt
  · obtain ⟨x, y, es, ha, digest, rfl⟩ := Gpt.planRead_gpt hread hg
    have hlive : (Gpt.gptPlan dev.sectors (w.disk.read 0 512) x y es).live = es :=
      Gpt.live_setEntries rfl (Gpt.readGptArray_spec ha.primary.entries).1 ((Gpt.layoutBad_iff _ _).1 ha.primary.layout).2.2
    rw [scan_gpt hsec ha]
    exact ⟨fun _ => ⟨rfl, rfl, congrArg _ hlive.symm⟩, nofun⟩
  · rcases planRead_plain hread hg with ⟨hk, hsign⟩ | ⟨hk, hsign, hnone, es, hes, hlive, hf, hl⟩
    · exact ⟨fun hc => absurd hk hc, fun _ => scan_unsigned hsign⟩
    · have hok := ((Gpt.validate_iff p).1 hval).2.2
      rw [hlive] at hok
      rw [scan_mbr hsec (by omega) hsign hnone hes hok ⟨hf, hl⟩, hk, hlive]
      exact ⟨fun _ => ⟨rfl, rfl, rfl⟩, nofun⟩

end Plans

theorem scan_small : (∃ w', Plan.read (fun _ => []) Gpt.smallDevice 32768 noFaults { disk := Gpt.smallDisk } =
      (.ok Gpt.smallRead, w')) ∧ (scan (readerOf Gpt.smallDisk 4096)).valid = true ∧
    (scan (readerOf Gpt.smallDisk 4096)).items = [entryPart 1 (Gpt.smallPart 1024 3), entryPart 3 (Gpt.smallPart 3072 4)] := by
  obtain ⟨w', hr⟩ := Gpt.small_read
  obtain ⟨h1, -, h2⟩ := (scan_safe_and_agrees.2 _ _ _ _ _ _ _ hr).1 (by decide)
  have hlive : partsFrom 0 Gpt.smallRead.live = [entryPart 1 (Gpt.smallPart 1024 3), entryPart 3 (Gpt.smallPart 3072 4)] := by
    decide +kernel
  exact ⟨⟨w', hr⟩, h1, h2.trans hlive⟩

theorem scan_blank : (∃ w', Plan.read id Gpt.blankDevice 32768 noFaults Gpt.blankWorld = (.ok Gpt.blankPlan, w')) ∧
    (scan (readerOf Gpt.blankWorld.disk Gpt.blankDevice.sectors)).valid = false := by
  refine ⟨Gpt.blank_read, (scan_unsigned ?_).1⟩
  rw [Gpt.read_blank, getD_zeros]
  decide

end Kernel
end R4
