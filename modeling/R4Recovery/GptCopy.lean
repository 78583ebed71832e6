import R4Recovery.GptRepair
import R4Recovery.PartitionCodec
/-!
# GptCopy — intact copies

`Intact` says that the disk holds a complete copy of a table behind one header: the header parses, its array has the
right CRC and its entries are in range and apart.  `readCopy` finds a copy valid exactly when it is intact
(`Reads.readCopy`, `intact_of_readCopy`).
-/
namespace R4
namespace Gpt

/-! ## Slots -/

/-- The entry of a partition. -/
def entryOf (a : Partition) : Entry :=
  { present := true, first := a.firstLba, count := a.sectorCount, typeGuid := a.typeGuid, uniqueGuid := a.uniqueGuid
    attributes := a.attributes, name := a.nameUtf16 }

def GptApart (e o : Entry) : Prop :=
  ¬ (e.first < o.first + o.count ∧ o.first < e.first + e.count) ∧ e.uniqueGuid ≠ o.uniqueGuid

structure GptEntriesOk (h : Header) (es : List Entry) : Prop where
  guid : ∀ e ∈ es, e.present = true → e.uniqueGuid ≠ Guid.zero ∧ e.uniqueGuid ≠ h.diskGuid
  apart : es.Pairwise (fun o e => o.present = true → e.present = true → GptApart e o)

theorem readGptSlot_iff (h : Header) (raw : Bytes) (e : Entry) : readGptSlot h raw = .ok e ↔
    (parsePartition raw h = .ok none ∧ e = {}) ∨ ∃ a, parsePartition raw h = .ok (some a) ∧ e = entryOf a := by
  unfold readGptSlot
  rcases hp : parsePartition raw h with err | (_ | a)
  · exact ⟨nofun, fun hc => by rcases hc with ⟨hc, -⟩ | ⟨a, hc, -⟩ <;> cases hc⟩
  · constructor
    · intro he; cases he; exact .inl ⟨rfl, rfl⟩
    · rintro (⟨-, rfl⟩ | ⟨a, hc, -⟩)
      · rfl
      · cases hc
  · constructor
    · intro he; cases he; exact .inr ⟨a, rfl, rfl⟩
    · rintro (⟨hc, -⟩ | ⟨b, hc, rfl⟩)
      · cases hc
      · cases hc; rfl

theorem parsePartition_some {h : Header} {raw : Bytes} {a : Partition} (hp : parsePartition raw h = .ok (some a)) :
    a.typeGuid ≠ Guid.zero ∧ h.firstUsableLba ≤ a.firstLba ∧ a.firstLba ≤ a.lastLba ∧ a.lastLba ≤ h.lastUsableLba := by
  unfold parsePartition at hp
  split at hp
  · cases hp
  · split at hp
    · cases hp
    · rename_i hz
      simp only at hp
      split at hp
      · cases hp
      · rename_i hr
        cases hp
        exact ⟨hz, by omega, by omega, by omega⟩

theorem readGptSlot_spec {h : Header} {raw : Bytes} {e : Entry} (hr : readGptSlot h raw = .ok e) :
    (e.present = false → e = {}) ∧ (e.present = true → e.typeGuid ≠ Guid.zero ∧ e.count ≠ 0 ∧
      h.firstUsableLba ≤ e.first ∧ e.first ≤ h.lastUsableLba ∧ e.count - 1 ≤ h.lastUsableLba - e.first) ∧ e.gptPart = e := by
  rcases (readGptSlot_iff h raw e).1 hr with ⟨-, rfl⟩ | ⟨a, hp, rfl⟩
  · exact ⟨fun _ => rfl, nofun, rfl⟩
  · obtain ⟨h1, h2, h3, h4⟩ := parsePartition_some hp
    refine ⟨nofun, fun _ => ⟨h1, Nat.succ_ne_zero _, h2, by show a.firstLba ≤ _; omega, ?_⟩, rfl⟩
    show a.lastLba - a.firstLba + 1 - 1 ≤ h.lastUsableLba - a.firstLba
    omega

theorem gptApart_entryOf {h : Header} {x y : Bytes} {a b : Partition} (ha : parsePartition x h = .ok (some a))
    (hb : parsePartition y h = .ok (some b)) :
    GptApart (entryOf a) (entryOf b) ↔ ¬ (a.firstLba ≤ b.lastLba ∧ b.firstLba ≤ a.lastLba) ∧ a.uniqueGuid ≠ b.uniqueGuid := by
  have h1 := parsePartition_some ha
  have h2 := parsePartition_some hb
  have e1 : a.firstLba < b.firstLba + (b.lastLba - b.firstLba + 1) ↔ a.firstLba ≤ b.lastLba := by omega
  have e2 : b.firstLba < a.firstLba + (a.lastLba - a.firstLba + 1) ↔ b.firstLba ≤ a.lastLba := by omega
  simp only [GptApart, entryOf, Partition.sectorCount, e1, e2]

theorem mapM_cons_ok {α β : Type} {f : α → Except Error β} {x : α} {L : List α} {ys : List β} :
    (x :: L).mapM f = .ok ys ↔ ∃ y zs, f x = .ok y ∧ L.mapM f = .ok zs ∧ ys = y :: zs := by
  rw [List.mapM_cons, Except.bind_ok]
  constructor
  · rintro ⟨y, hy, h⟩
    obtain ⟨zs, hz, h⟩ := Except.bind_ok.1 h
    cases h
    exact ⟨y, zs, hy, hz, rfl⟩
  · rintro ⟨y, zs, hy, hz, rfl⟩
    exact ⟨y, hy, Except.bind_ok.2 ⟨zs, hz, rfl⟩⟩

theorem partitionApart_iff {h : Header} {x : Bytes} {a : Partition} (ha : parsePartition x h = .ok (some a)) :
    ∀ {prior : List Bytes} {os : List Entry}, prior.mapM (readGptSlot h) = .ok os →
      (partitionApart h a prior = .ok () ↔ ∀ o ∈ os, o.present = true → GptApart (entryOf a) o)
  | [], os, hos => by
    cases hos
    exact ⟨fun _ => by simp, fun _ => rfl⟩
  | raw :: prior, os, hos => by
    obtain ⟨o, os', ho, hos', rfl⟩ := mapM_cons_ok.1 hos
    have ih := partitionApart_iff ha hos'
    rw [partitionApart, List.forall_mem_cons, ← ih]
    rcases (readGptSlot_iff h raw o).1 ho with ⟨hp, rfl⟩ | ⟨b, hp, rfl⟩
    · rw [hp]
      exact ⟨fun hr => ⟨nofun, hr⟩, fun hr => hr.2⟩
    · rw [hp]
      have hap := gptApart_entryOf ha hp
      show (if a.firstLba ≤ b.lastLba ∧ b.firstLba ≤ a.lastLba then Except.error Error.overlap
        else if a.uniqueGuid = b.uniqueGuid then Except.error Error.duplicateGuid
        else partitionApart h a prior) = .ok () ↔ _
      by_cases h1 : a.firstLba ≤ b.lastLba ∧ b.firstLba ≤ a.lastLba
      · rw [if_pos h1]
        exact ⟨nofun, fun hr => absurd h1 (hap.1 (hr.1 rfl)).1⟩
      · rw [if_neg h1]
        by_cases h2 : a.uniqueGuid = b.uniqueGuid
        · rw [if_pos h2]
          exact ⟨nofun, fun hr => absurd h2 (hap.1 (hr.1 rfl)).2⟩
        · rw [if_neg h2]
          exact ⟨fun hr => ⟨fun _ => hap.2 ⟨h1, h2⟩, hr⟩, fun hr => hr.2⟩

theorem forall_append_singleton {α : Type} {P : α → Prop} {L : List α} {x : α} :
    (∀ y ∈ L ++ [x], P y) ↔ (∀ y ∈ L, P y) ∧ P x := by
  simp only [List.mem_append, List.mem_singleton, or_imp, forall_and, forall_eq]

theorem mapM_append_singleton {α β : Type} {f : α → Except Error β} {L : List α} {x : α} {ys : List β} {y : β}
    (h : L.mapM f = .ok ys) (hx : f x = .ok y) : (L ++ [x]).mapM f = .ok (ys ++ [y]) := by
  rw [List.mapM_append, h, List.mapM_cons, hx]
  rfl

theorem validateSlots_iff (h : Header) : ∀ (rest prior : List Bytes) (os : List Entry),
    prior.mapM (readGptSlot h) = .ok os →
      (validateSlots h prior rest = .ok () ↔ ∃ es, rest.mapM (readGptSlot h) = .ok es ∧ GptEntriesOk h es ∧
        ∀ e ∈ es, e.present = true → ∀ o ∈ os, o.present = true → GptApart e o)
  | [], prior, os, _ => ⟨fun _ => ⟨[], rfl, ⟨by simp, List.Pairwise.nil⟩, by simp⟩, fun _ => rfl⟩
  | raw :: rest, prior, os, hos => by
    rw [validateSlots]
    rcases hp : parsePartition raw h with err | (_ | a)
    · constructor
      · intro hc; cases hc
      · rintro ⟨es, hes, -⟩
        obtain ⟨e, es', he, -, -⟩ := mapM_cons_ok.1 hes
        rcases (readGptSlot_iff h raw e).1 he with ⟨hc, -⟩ | ⟨a, hc, -⟩ <;> rw [hp] at hc <;> cases hc
    · have hslot : readGptSlot h raw = .ok {} := (readGptSlot_iff h raw {}).2 (.inl ⟨hp, rfl⟩)
      have ih := validateSlots_iff h rest (prior ++ [raw]) (os ++ [{}]) (mapM_append_singleton hos hslot)
      show validateSlots h (prior ++ [raw]) rest = .ok () ↔ _
      rw [ih]
      constructor
      · rintro ⟨es, hes, hok, hprior⟩
        refine ⟨{} :: es, mapM_cons_ok.2 ⟨_, _, hslot, hes, rfl⟩, ⟨List.forall_mem_cons.2 ⟨nofun, hok.guid⟩,
          List.pairwise_cons.2 ⟨fun _ _ => nofun, hok.apart⟩⟩, List.forall_mem_cons.2 ⟨nofun, fun e he hpe => ?_⟩⟩
        exact (forall_append_singleton.1 (hprior e he hpe)).1
      · rintro ⟨es, hes, hok, hprior⟩
        obtain ⟨e, es', he, hes', rfl⟩ := mapM_cons_ok.1 hes
        rw [hslot] at he
        cases he
        refine ⟨es', hes', ⟨(List.forall_mem_cons.1 hok.guid).2, (List.pairwise_cons.1 hok.apart).2⟩, fun e he hpe => ?_⟩
        exact forall_append_singleton.2 ⟨(List.forall_mem_cons.1 hprior).2 e he hpe, nofun⟩
    · have hslot : readGptSlot h raw = .ok (entryOf a) := (readGptSlot_iff h raw _).2 (.inr ⟨a, hp, rfl⟩)
      have ih := validateSlots_iff h rest (prior ++ [raw]) (os ++ [entryOf a]) (mapM_append_singleton hos hslot)
      show (do
        reject (a.uniqueGuid == Guid.zero || a.uniqueGuid == h.diskGuid) .partitionGuid
        partitionApart h a prior
        validateSlots h (prior ++ [raw]) rest) = .ok () ↔ _
      simp only [Except.bind_ok, reject_ok, exists_const, Bool.or_eq_false_iff, beq_eq_false_iff_ne]
      constructor
      · rintro ⟨hg, u, hap, hrest⟩
        obtain ⟨es, hes, hok, hprior⟩ := ih.1 hrest
        refine ⟨entryOf a :: es, mapM_cons_ok.2 ⟨_, _, hslot, hes, rfl⟩, ⟨List.forall_mem_cons.2 ⟨fun _ => hg, hok.guid⟩,
          List.pairwise_cons.2 ⟨fun e he _ hpe => ?_, hok.apart⟩⟩,
          List.forall_mem_cons.2 ⟨fun _ => (partitionApart_iff hp hos).1 hap, fun e he hpe => ?_⟩⟩
        · exact (forall_append_singleton.1 (hprior e he hpe)).2 rfl
        · exact (forall_append_singleton.1 (hprior e he hpe)).1
      · rintro ⟨es, hes, hok, hprior⟩
        obtain ⟨e, es', he, hes', rfl⟩ := mapM_cons_ok.1 hes
        rw [hslot] at he
        cases he
        obtain ⟨hg, hgs⟩ := List.forall_mem_cons.1 hok.guid
        obtain ⟨hap, haps⟩ := List.pairwise_cons.1 hok.apart
        obtain ⟨hp1, hp2⟩ := List.forall_mem_cons.1 hprior
        exact ⟨hg rfl, (), (partitionApart_iff hp hos).2 (hp1 rfl), ih.2 ⟨es', hes', ⟨hgs, haps⟩, fun e he hpe =>
          forall_append_singleton.2 ⟨hp2 e he hpe, fun _ => hap e he rfl hpe⟩⟩⟩

/-- **What `validateCopy` accepts.** -/
theorem validateCopy_iff (h : Header) (array : Bytes) (sectors : Nat) : validateCopy h array sectors = .ok () ↔
    h.diskGuid ≠ Guid.zero ∧ (crc (slice array 0 h.entryBytes)).toNat = h.entriesCrc32 ∧
    (2 + h.entrySectors ≤ h.firstUsableLba ∧ h.lastUsableLba < sectors - 1 - h.entrySectors) ∧
    ∃ es, readGptArray h array = .ok es ∧ GptEntriesOk h es := by
  unfold validateCopy
  simp only [Except.bind_ok, reject_ok, exists_const, Bool.or_eq_false_iff, beq_eq_false_iff_ne, bne_eq_false_iff_eq,
    decide_eq_false_iff_not, Nat.not_lt, Nat.not_le, validateSlots_iff h _ [] [] rfl]
  refine and_congr_right (fun _ => and_congr_right (fun _ => and_congr_right (fun _ => ?_)))
  exact ⟨fun ⟨es, h1, h2, _⟩ => ⟨es, h1, h2⟩, fun ⟨es, h1, h2⟩ => ⟨es, h1, h2, by simp⟩⟩

/-! ## Intact copies -/

/-- The array behind a header. -/
def arrayOf (d : Disk) (h : Header) : Bytes := d.read (512 * h.entriesLba) (512 * h.entrySectors)

/-- The disk holds a complete copy with header `h` at `lba`, and its entries are `es`. -/
structure Intact (sectors : Nat) (d : Disk) (lba : Nat) (h : Header) (es : List Entry) : Prop where
  header : HeaderOk (d.read (512 * lba) 512) lba sectors
  fields : headerFields (d.read (512 * lba) 512) = h
  layout : layoutBad (d.read (512 * lba) 512) h = false
  copy : validateCopy h (arrayOf d h) sectors = .ok ()
  entries : readGptArray h (arrayOf d h) = .ok es

theorem Intact.congr {sectors lba : Nat} {d d' : Disk} {h : Header} {es : List Entry} (hi : Intact sectors d lba h es)
    (h1 : d'.read (512 * lba) 512 = d.read (512 * lba) 512) (h2 : arrayOf d' h = arrayOf d h) : Intact sectors d' lba h es where
  header := by rw [h1]; exact hi.header
  fields := by rw [h1]; exact hi.fields
  layout := by rw [h1]; exact hi.layout
  copy := by rw [h2]; exact hi.copy
  entries := by rw [h2]; exact hi.entries

/-- What a copy says about the disk: its identity, usable range and entries. -/
structure Table where
  diskGuid : Guid
  firstUsable : Nat
  lastUsable : Nat
  entryCount : Nat
  entries : List Entry

def tableOf (h : Header) (es : List Entry) : Table :=
  { diskGuid := h.diskGuid, firstUsable := h.firstUsableLba, lastUsable := h.lastUsableLba, entryCount := h.entryCount
    entries := es }

/-- The table a copy describes. -/
def Copy.table (c : Copy) : Option Table :=
  match c.header with
  | none => none
  | some h => match readGptArray h c.array with
    | .error _ => none
    | .ok es => some (tableOf h es)

def Plan.table (p : Plan) : Table :=
  { diskGuid := p.diskGuid, firstUsable := p.firstUsable, lastUsable := p.lastUsable, entryCount := p.entryCount
    entries := p.live.map Entry.gptPart }

theorem Intact.sectors_bounds {sectors lba : Nat} {d : Disk} {h : Header} {es : List Entry} (hi : Intact sectors d lba h es) :
    0 < h.entrySectors ∧ h.entriesLba + h.entrySectors ≤ sectors := by
  have hr := hi.header.range
  rw [hi.fields] at hr
  omega

section Read

variable {dev : Device} {F : Faults} {w w' : World} {lba : Nat}

theorem Reads.readCopy {d : Disk} (hv : dev.validate = .ok ()) (hlba : lba < dev.sectors) {h : Header} {es : List Entry}
    (hi : Intact dev.sectors d lba h es) :
    Reads d (readCopy dev lba) { sector := d.read (512 * lba) 512, header := some h, array := arrayOf d h } := by
  have hb := hi.sectors_bounds
  have hparse : parseHeader (d.read (512 * lba) 512) lba dev.sectors = .ok h :=
    (parseHeader_iff _ _ _ _).2 ⟨hi.header, hi.fields.symm⟩
  have hcopy := hi.copy
  unfold arrayOf at hcopy
  refine Reads.bind (Reads.read (n := 1) hv (by omega)) ?_
  simp only [Nat.mul_one, hparse, hi.layout, Bool.false_eq_true, if_false]
  refine Reads.bind (Reads.read hv (by omega)) ?_
  simp only [hcopy]
  exact Reads.pure _

theorem intact_of_readCopy {c : Copy} (hr : readCopy dev lba F w = (.ok c, w')) (hc : c.valid = true) :
    ∃ h es, Intact dev.sectors w.disk lba h es ∧
      c = { sector := w.disk.read (512 * lba) 512, header := some h, array := arrayOf w.disk h } := by
  unfold readCopy at hr
  obtain ⟨sector, w1, h1, hr⟩ := Io.bind_ok hr
  obtain ⟨rfl, rfl⟩ := Device.read_ok h1
  cases hp : parseHeader (w.disk.read (512 * lba) 512) lba dev.sectors with
  | error e =>
    rw [hp] at hr
    obtain ⟨rfl, -⟩ := Io.pure_ok hr
    cases hc
  | ok h =>
    rw [hp] at hr
    obtain ⟨hok, hf⟩ := (parseHeader_iff _ _ _ _).1 hp
    simp only at hr
    split at hr
    · obtain ⟨rfl, -⟩ := Io.pure_ok hr
      cases hc
    · rename_i hl
      obtain ⟨array, w2, h2, hr⟩ := Io.bind_ok hr
      obtain ⟨rfl, rfl⟩ := Device.read_ok h2
      cases hvc : validateCopy h (w.tick.disk.read (512 * h.entriesLba) (512 * h.entrySectors)) dev.sectors with
      | error e =>
        rw [hvc] at hr
        obtain ⟨rfl, -⟩ := Io.pure_ok hr
        cases hc
      | ok u =>
        rw [hvc] at hr
        obtain ⟨rfl, -⟩ := Io.pure_ok hr
        obtain ⟨-, -, -, es, hes, -⟩ := (validateCopy_iff _ _ _).1 hvc
        exact ⟨h, es, ⟨hok, hf.symm, by simpa using hl, hvc, hes⟩, rfl⟩

theorem Writes.readCopy (dev : Device) (lba : Nat) : Writes (readCopy dev lba) [] := by
  refine Writes.bindNil (Writes.read dev _ _) (fun sector => ?_)
  split
  · exact Writes.pure _
  · refine Writes.ite (fun _ => Writes.pure _) (fun _ => Writes.bindNil (Writes.read dev _ _) (fun array => ?_))
    split
    · exact Writes.pure _
    · exact Writes.pure _

theorem table_intact {sectors : Nat} {d : Disk} {h : Header} {es : List Entry} (hi : Intact sectors d lba h es) (sector : Bytes) :
    ({ sector, header := some h, array := arrayOf d h } : Copy).table = some (tableOf h es) := by
  simp only [Copy.table, hi.entries]

end Read

end Gpt
end R4
