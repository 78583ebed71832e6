import R4Recovery.PartitionCommit
/-!
# PartitionRoundTrip — a committed table reads back

A commit that succeeds has read everything back that it wrote.  What the disk then holds is read into a plan of the same
kind, identity and usable range, with the fields each slot keeps in a table of that kind (`commit_roundTrip`).
-/
namespace R4
namespace Gpt

/-! ## What a commit leaves -/

section Commit

variable {sha : Bytes → Bytes} {dev : Device} {F : Faults} {w w' : World} {p : Plan} {workLen : Nat}

theorem publish_ok {mbr : Bytes} {u : Unit} (h : publish dev workLen mbr F w = (.ok u, w')) :
    w'.disk.read 0 mbr.length = mbr := by
  obtain ⟨_, _, -, h⟩ := Io.bind_ok h
  obtain ⟨_, _, -, h⟩ := Io.bind_ok h
  obtain ⟨h1, h2⟩ := Device.verify_ok h
  rw [h2]
  exact h1

/-- **Both copies were read back**, and nothing written later touches them. -/
theorem commitGpt_ok (hp : p.Placed) {u : Unit} (h : p.commitGpt dev F w = (.ok u, w')) : p.OnDisk w'.disk := by
  obtain ⟨h1, h2, h3, h4, h5⟩ := hp
  have harr : p.array.length = 512 * arraySectors p.entryCount := length_array p
  have hph : p.primaryHeader.length = 512 := length_header _ _ _ _ _
  have hbh : p.backupHeader.length = 512 := length_header _ _ _ _ _
  obtain ⟨_, _, -, h⟩ := Io.bind_ok h
  obtain ⟨_, _, -, h⟩ := Io.bind_ok h
  obtain ⟨_, w3, -, h⟩ := Io.bind_ok h
  obtain ⟨_, w4, hv1, h⟩ := Io.bind_ok h
  obtain ⟨_, w5, hv2, h⟩ := Io.bind_ok h
  obtain ⟨hb1, hd4⟩ := Device.verify_ok hv1
  obtain ⟨hb2, hd5⟩ := Device.verify_ok hv2
  have hlater := (Writes.commitPrimary p dev).run (show p.commitPrimary dev F w5 = (.ok u, w') from h)
  obtain ⟨_, _, -, h⟩ := Io.bind_ok h
  obtain ⟨_, _, -, h⟩ := Io.bind_ok h
  obtain ⟨_, w8, -, h⟩ := Io.bind_ok h
  obtain ⟨_, w9, hv3, h⟩ := Io.bind_ok h
  obtain ⟨hb3, hd9⟩ := Device.verify_ok hv3
  obtain ⟨hb4, hd10⟩ := Device.verify_ok h
  have hout : ∀ {off len : Nat}, 512 * p.backupArray ≤ off →
      ∀ s ∈ [(p.primaryArray, p.array), (1, p.primaryHeader)], off + len ≤ 512 * s.1 ∨ 512 * s.1 + s.2.length ≤ off := by
    intro off len ho s hs
    simp only [List.mem_cons, List.not_mem_nil, or_false] at hs
    rcases hs with rfl | rfl
    · simp only [harr]; omega
    · simp only [hph]; omega
  rw [hph] at hb4
  rw [hbh] at hb2
  refine ⟨by rw [hd10]; exact hb4, by rw [hd10, hd9]; exact hb3, ?_, ?_⟩
  · rw [hlater.read_eq (hout (by omega)), hd5]
    exact hb2
  · rw [hlater.read_eq (hout (by omega)), hd5, hd4]
    exact hb1

theorem commit_ok {u : Unit} (h : p.commit sha dev workLen F w = (.ok u, w')) :
    p.validate = .ok () ∧ dev.validate = .ok () ∧ dev.sectors = p.sectors ∧ p.kind ≠ .none ∧
    (p.eraseSourceGpt = true → p.kind = .mbr) ∧ ∃ w1, p.commitTable dev workLen F w1 = (.ok (), w') := by
  obtain ⟨_, _, h0, h⟩ := Io.bind_ok h
  obtain ⟨hval, rfl⟩ := Io.lift_ok h0
  obtain ⟨_, _, h0, h⟩ := Io.bind_ok h
  obtain ⟨hex, rfl⟩ := Io.lift_ok h0
  obtain ⟨_, hdev, -⟩ := Except.bind_ok.1 hex
  obtain ⟨_, _, h0, h⟩ := Io.bind_ok h
  obtain ⟨hgeo, rfl⟩ := Io.refuse_ok h0
  obtain ⟨_, _, h0, h⟩ := Io.bind_ok h
  obtain ⟨her, rfl⟩ := Io.refuse_ok h0
  obtain ⟨_, _, -, h⟩ := Io.bind_ok h
  obtain ⟨_, _, -, h⟩ := Io.bind_ok h
  simp only [Bool.or_eq_false_iff, bne_eq_false_iff_eq, beq_eq_false_iff_ne] at hgeo
  refine ⟨hval, hdev, hgeo.1.1.1.1, hgeo.1.1.1.2, fun he => ?_, ?_⟩
  · rw [he, Bool.true_and, Bool.or_eq_false_iff, bne_eq_false_iff_eq] at her
    exact her.1
  · split at h
    · obtain ⟨_, w1, -, h⟩ := Io.bind_ok h
      exact ⟨w1, h⟩
    · exact ⟨_, h⟩

/-- **A GPT commit that succeeds** leaves both copies and a protective sector zero. -/
theorem commit_gpt_ok {u : Unit} (h : p.commit sha dev workLen F w = (.ok u, w')) (hk : p.kind = .gpt) :
    p.OnDisk w'.disk ∧ w'.disk.read 0 512 = p.protectiveSector := by
  obtain ⟨hval, -, -, -, -, w1, h⟩ := commit_ok h
  have hp := p.placed hval hk
  have hpm := length_protectiveSector p
  rw [Plan.commitTable, hk, if_neg (by decide)] at h
  obtain ⟨_, w2, h1, h2⟩ := Io.bind_ok h
  have hon := commitGpt_ok hp h1
  have hlater := (Writes.publish dev workLen p.protectiveSector).run h2
  have hm := publish_ok h2
  rw [hpm] at hm
  refine ⟨?_, hm⟩
  obtain ⟨p1, p2, p3, p4, p5⟩ := hp
  have hout : ∀ {off len : Nat}, 512 ≤ off →
      ∀ s ∈ [(0, p.protectiveSector)], off + len ≤ 512 * s.1 ∨ 512 * s.1 + s.2.length ≤ off := by
    intro off len ho s hs
    obtain rfl := List.mem_singleton.1 hs
    simp only [hpm]
    omega
  exact ⟨by rw [hlater.read_eq (hout (by omega)), hon.primaryHeader], by rw [hlater.read_eq (hout (by omega)), hon.primaryArray],
    by rw [hlater.read_eq (hout (by omega)), hon.backupHeader], by rw [hlater.read_eq (hout (by omega)), hon.backupArray]⟩

theorem length_mbrSector (p : Plan) : p.mbrSector.length = 512 := by
  simp [Plan.mbrSector]

theorem commit_mbr_ok {u : Unit} (h : p.commit sha dev workLen F w = (.ok u, w')) (hk : p.kind = .mbr) :
    w'.disk.read 0 512 = p.mbrSector := by
  obtain ⟨-, -, -, -, -, w1, h⟩ := commit_ok h
  rw [Plan.commitTable, hk, if_pos rfl] at h
  have hm := publish_ok h
  rw [length_mbrSector] at hm
  exact hm

end Commit

/-! ## MBR slots -/

/-- The fields an MBR slot stores. -/
def Entry.mbrPart (e : Entry) : Entry :=
  { present := e.present, first := e.first, count := e.count, mbrType := e.mbrType, active := e.active }

@[simp] theorem length_mbrEntry (e : Entry) : (mbrEntry e).length = 16 := by
  unfold mbrEntry
  split
  · simp
  · simp only [length_put]
    split <;> simp

theorem getD_filler {b v : Bytes} (c : Bool) (hv : v.length = 3) {i : Nat} (hi : i = 0 ∨ i = 4) :
    (if c then put (put b 1 v) 5 v else b).getD i 0 = b.getD i 0 := by
  split
  · rw [getD_put_off (by omega), getD_put_off (by omega)]
  · rfl

theorem mbrEntry_fields {e : Entry} (hp : e.present = true) (h1 : e.first < 2 ^ 32) (h2 : e.count < 2 ^ 32) :
    (mbrEntry e).getD 0 0 = (if e.active then 0x80 else 0) ∧ slotType (mbrEntry e) = e.mbrType ∧
    getLe (mbrEntry e) 8 4 = e.first ∧ getLe (mbrEntry e) 12 4 = e.count := by
  unfold mbrEntry slotType
  rw [if_neg (by simp [hp])]
  refine ⟨?_, ?_, ?_, ?_⟩
  · rw [getD_put_off (by simp), getD_put_off (by simp), getD_filler _ (by rfl) (.inl rfl), getD_put_off (by simp),
      getD_put (by simp) (by simp)]
    rfl
  · rw [getD_put_off (by simp), getD_put_off (by simp), getD_filler _ (by rfl) (.inr rfl), getD_put (by simp) (by simp)]
    rfl
  · rw [getLe_put_off (by simp)]
    exact getLe_put (by split <;> simp) (by omega)
  · exact getLe_put (by rw [length_put]; split <;> simp) (by omega)

theorem readMbrSlot_zeros : readMbrSlot (zeros 16) = .ok {} := by
  decide +kernel

/-- The entry without the bytes its slot was read from. -/
def Entry.shown (e : Entry) : Entry := { e with mbrOriginal := Vector.replicate 16 0 }

/-- **An MBR slot reads back as its fields**, and no slot a valid plan writes is protective. -/
theorem readMbrSlot_mbrEntry {p : Plan} {e : Entry} (hk : p.kind = .mbr) (hok : e.present = true → EntryOk p e)
    (hempty : e.present = false → e = {}) :
    (∃ o, readMbrSlot (mbrEntry e) = .ok o ∧ o.shown = e.mbrPart) ∧ slotType (mbrEntry e) ≠ 0xee := by
  cases hp : e.present with
  | false =>
    have hz : mbrEntry e = zeros 16 := by rw [hempty hp]; rfl
    rw [hz]
    exact ⟨⟨{}, readMbrSlot_zeros, by rw [hempty hp]; rfl⟩, by decide⟩
  | true =>
    have hkind := (hok hp).kind
    rw [entryKind, hk] at hkind
    simp only [reject_ok, Bool.or_eq_false_iff, beq_eq_false_iff_ne, decide_eq_false_iff_not, Nat.not_lt] at hkind
    obtain ⟨⟨⟨⟨⟨h0, hee⟩, hext⟩, hf⟩, hc⟩, -⟩ := hkind
    obtain ⟨f1, f2, f3, f4⟩ := mbrEntry_fields hp (by omega) (by omega)
    refine ⟨⟨{ present := true, first := e.first, count := e.count, mbrType := e.mbrType, active := e.active
               mbrOriginal := Vector.ofFn (fun i => (mbrEntry e).getD i.val 0) }, ?_, ?_⟩, by rw [f2]; exact hee⟩
    · have hact : ((mbrEntry e).getD 0 0 != 0 && (mbrEntry e).getD 0 0 != 0x80) = false := by
        rw [f1]
        cases e.active <;> rfl
      have hflag : ((mbrEntry e).getD 0 0 == 0x80) = e.active := by
        rw [f1]
        cases e.active <;> rfl
      rw [readMbrSlot, if_neg (by rw [f2]; exact h0), hact, f2, hext, hflag, f3, f4]
      rfl
    · rw [Entry.shown, Entry.mbrPart, hp]

theorem mbrSlots_mbrSector (p : Plan) : mbrSlots p.mbrSector = (p.entries.toList.take 4).map mbrEntry := by
  have hlen : (p.entries.toList.take 4).length = 4 := by simp
  have hfm : ((p.entries.toList.take 4).flatMap mbrEntry).length = 64 := by
    rw [length_flatMap_const length_mbrEntry, hlen]
  refine List.ext_getElem? (fun i => ?_)
  rw [mbrSlots, List.getElem?_map, List.getElem?_map]
  by_cases hi : i < 4
  · have hget := List.getElem?_eq_getElem (l := p.entries.toList.take 4) (i := i) (by omega)
    have hin : i * 16 + 16 ≤ 64 := by omega
    rw [List.getElem?_range hi, Option.map_some, hget, Option.map_some, mbrSlot, Plan.mbrSector, ← slice_slice _ hin,
      slice_put hfm (by simp)]
    congr 1
    exact slice_flatMap length_mbrEntry _ i _ hget
  · rw [List.getElem?_eq_none (by simpa using hi), List.getElem?_eq_none (by omega)]
    rfl

theorem mapM_exists {α β : Type} {f : α → Except Error β} {R : α → β → Prop} : ∀ {L : List α},
    (∀ x ∈ L, ∃ y, f x = .ok y ∧ R x y) → ∃ ys, L.mapM f = .ok ys ∧ List.Forall₂ R L ys
  | [], _ => ⟨[], rfl, .nil⟩
  | x :: L, h => by
    obtain ⟨⟨y, hy, hr⟩, hrest⟩ := List.forall_mem_cons.1 h
    obtain ⟨ys, hys, hrs⟩ := mapM_exists hrest
    exact ⟨y :: ys, mapM_cons_ok.2 ⟨y, ys, hy, hys, rfl⟩, .cons hr hrs⟩

theorem entriesOk_mbr {p q : Plan} {es : List Entry} {f : Entry → Entry} (hk : p.kind = .mbr) (hq : q.kind = .mbr)
    (hu : q.firstUsable = p.firstUsable ∧ q.lastUsable = p.lastUsable)
    (hf : ∀ e, (f e).present = e.present ∧ (f e).first = e.first ∧ (f e).count = e.count ∧ (f e).mbrType = e.mbrType) :
    EntriesOk q (es.map f) ↔ EntriesOk p es := by
  have hone : ∀ e, EntryOk q (f e) ↔ EntryOk p e := by
    intro e
    obtain ⟨-, h2, h3, h4⟩ := hf e
    have hkind : entryKind q (f e) = entryKind p e := by
      rw [entryKind, entryKind, hk, hq, h2, h3, h4]
    constructor
    · rintro ⟨a, b, c, d⟩
      rw [h2, hu.1, hu.2] at b
      rw [h2, h3, hu.2] at c
      exact ⟨by rw [← h3]; exact a, b, c, by rw [← hkind]; exact d⟩
    · rintro ⟨a, b, c, d⟩
      exact ⟨by rw [h3]; exact a, by rw [h2, hu.1, hu.2]; exact b, by rw [h2, h3, hu.2]; exact c, by rw [hkind]; exact d⟩
  have htwo : ∀ e o, EntriesApart q (f e) (f o) ↔ EntriesApart p e o := by
    intro e o
    have hne : ¬ q.kind = .gpt := by rw [hq]; decide
    have hnp : ¬ p.kind = .gpt := by rw [hk]; decide
    rw [EntriesApart, EntriesApart, (hf e).2.1, (hf e).2.2.1, (hf o).2.1, (hf o).2.2.1]
    exact and_congr_right (fun _ => ⟨fun _ h => absurd h hnp, fun _ h => absurd h hne⟩)
  constructor
  · intro h
    refine ⟨fun e he hp => (hone e).1 (h.each _ (List.mem_map_of_mem he) (by rw [(hf e).1]; exact hp)), ?_⟩
    refine (List.pairwise_map.1 h.apart).imp (fun {a b} hab h1 h2 => (htwo b a).1 (hab ?_ ?_))
    · rw [(hf a).1]; exact h1
    · rw [(hf b).1]; exact h2
  · intro h
    refine ⟨fun e he hp => ?_, List.pairwise_map.2 (h.apart.imp (fun {a b} hab h1 h2 => (htwo b a).2 (hab ?_ ?_)))⟩
    · obtain ⟨x, hx, rfl⟩ := List.mem_map.1 he
      rw [(hf x).1] at hp
      exact (hone x).2 (h.each x hx hp)
    · rw [← (hf a).1]; exact h1
    · rw [← (hf b).1]; exact h2

theorem slots_eq {p : Plan} {es : List Entry} {g : Entry → Entry} (hs : p.Shape) (hc : p.entryCount ≤ 128)
    (he : es.map Entry.shown = p.live.map g) (hg : g {} = {}) {i : Nat} (hi : i < 128) :
    (setEntries es)[i].shown = g p.entries[i] := by
  have hlen : es.length = p.entryCount := by
    have := congrArg List.length he
    rwa [List.length_map, List.length_map, length_live hc] at this
  rw [getElem_setEntries es hi, List.getD_eq_getElem?_getD]
  by_cases h : i < p.entryCount
  · have hi' : (es.map Entry.shown)[i]? = (p.live.map g)[i]? := by rw [he]
    rw [List.getElem?_map, List.getElem?_map, List.getElem?_eq_getElem (by omega), Plan.live, List.getElem?_take, if_pos h,
      Vector.getElem?_toList, Vector.getElem?_eq_getElem hi] at hi'
    rw [List.getElem?_eq_getElem (by omega)]
    exact Option.some.inj hi'
  · rw [List.getElem?_eq_none (by omega), hs.beyond i hi (by omega), hg]
    rfl

/-! ## Reading back -/

/-- The fields a slot keeps in a table of a kind. -/
def Entry.kept (kind : Kind) (e : Entry) : Entry :=
  match kind with
  | .gpt => e.gptPart
  | _ => e.mbrPart

/-- What a table that was read back has in common with the plan. -/
structure SameTable (p q : Plan) : Prop where
  kind : q.kind = p.kind
  diskGuid : q.diskGuid = p.diskGuid
  diskId : q.diskId = p.diskId
  usable : q.firstUsable = p.firstUsable ∧ q.lastUsable = p.lastUsable
  entryCount : q.entryCount = p.entryCount
  entries : ∀ i (h : i < 128), q.entries[i].shown = p.entries[i].kept p.kind

section ReadBack

variable {sha : Bytes → Bytes} {dev : Device} {d : Disk} {p : Plan} {scratchLen : Nat}

theorem readBack_gpt (hv : dev.validate = .ok ()) (hs : dev.sectors = p.sectors)
    (hlen : maxArrayBytes * 2 ≤ scratchLen ∧ scratchLen % 512 = 0) (hval : p.validate = .ok ()) (hk : p.kind = .gpt)
    (hshape : p.Shape) (ho : p.OnDisk d) (hm : d.read 0 512 = p.protectiveSector) :
    ∃ q, Reads d (Plan.read sha dev scratchLen) q ∧ SameTable p q := by
  have hp := p.placed hval hk
  have ha := agreeing_onDisk hval hk hshape ho (by rw [hm]; exact protective_protectiveSector p)
  rw [← hs] at ha
  refine ⟨_, Reads.planRead hv hlen ha, ⟨hk.symm, rfl, ?_, ⟨rfl, rfl⟩, rfl, fun i hi => ?_⟩⟩
  · show (getLe (d.read 0 512) 440 4).toUInt32 = p.diskId
    have hid : getLe p.protectiveSector 440 4 = p.diskId.toNat := by
      unfold Plan.protectiveSector
      iterate 5 rw [getLe_put_off (by simp)]
      exact mbrFrame_diskId p
    rw [hm, hid]
    simp
  · rw [hk]
    exact slots_eq (g := Entry.gptPart) hshape hp.count.2 (by rw [List.map_map]; rfl) rfl hi

theorem readBack_mbr (hv : dev.validate = .ok ()) (hs : dev.sectors = p.sectors)
    (hlen : maxArrayBytes * 2 ≤ scratchLen ∧ scratchLen % 512 = 0) (hval : p.validate = .ok ()) (hk : p.kind = .mbr)
    (hshape : p.Shape) (hm : d.read 0 512 = p.mbrSector) :
    ∃ q, Reads d (Plan.read sha dev scratchLen) q ∧ SameTable p q := by
  obtain ⟨hgeo, hkind, hents⟩ := (validate_iff p).1 hval
  obtain ⟨g1, g2, g3, g4, g5, g6⟩ := (geometryOk_iff p).1 hgeo
  obtain ⟨hguid, hfirst, hlast⟩ := hshape.plain (by rw [hk]; decide)
  have hcount : p.entryCount = 4 := by
    rw [kindOk, hk] at hkind
    simpa using hkind
  have hlive : p.live = p.entries.toList.take 4 := by rw [Plan.live, hcount]
  have hslots : mbrSlots (d.read 0 512) = p.live.map mbrEntry := by rw [hm, mbrSlots_mbrSector, hlive]
  have hslot : ∀ e ∈ p.live, (∃ o, readMbrSlot (mbrEntry e) = .ok o ∧ o.shown = e.mbrPart) ∧ slotType (mbrEntry e) ≠ 0xee :=
    fun e he => readMbrSlot_mbrEntry hk (hents.each e he) (slotsEmpty_of_shape hshape e he)
  obtain ⟨es, hes, hrel⟩ := mapM_exists (f := readMbrSlot ∘ mbrEntry) (fun e he => (hslot e he).1)
  have hshown : es.map Entry.shown = p.live.map Entry.mbrPart := by
    refine (List.forall₂_iff_get.1 hrel).elim (fun hl hget => List.ext_getElem (by simp [hl]) (fun i h1 h2 => ?_))
    rw [List.getElem_map, List.getElem_map]
    exact hget i (by simpa using h2) (by simpa using h1)
  have hsigned : (d.read 0 512).getD 510 0 = 0x55 ∧ (d.read 0 512).getD 511 0 = 0xaa := by
    have hf : ((p.entries.toList.take 4).flatMap mbrEntry).length = 64 := by
      rw [length_flatMap_const length_mbrEntry]; simp
    rw [hm, Plan.mbrSector, getD_put_off (by rw [hf]; omega), getD_put_off (by rw [hf]; omega)]
    exact mbrFrame_signed p
  have hprot : (mbrSlots (d.read 0 512)).filter (fun bytes => slotType bytes == 0xee) = [] := by
    rw [hslots, List.filter_eq_nil_iff]
    intro bytes hb
    obtain ⟨e, he, rfl⟩ := List.mem_map.1 hb
    simpa using (hslot e he).2
  have htable : Reads d (readSigned (basePlan dev.sectors (d.read 0 512)) dev (d.read 0 512) (d.read 512 512)
      (d.read (512 * (dev.sectors - 1)) 512))
      ({ basePlan dev.sectors (d.read 0 512) with kind := .mbr, entryCount := 4, entries := setEntries es }, []) := by
    rw [readSigned, if_pos hsigned, readTable, hprot]
    refine Reads.bind (Reads.refuse _ rfl) ?_
    rw [if_neg (by simp)]
    refine Reads.bind (Reads.lift ?_) (Reads.pure _)
    rw [hslots, List.mapM_map]
    exact hes
  have hlen4 : es.length = 4 := by
    rw [← hrel.length_eq, length_live g6, hcount]
  have hvalid : ({ basePlan dev.sectors (d.read 0 512) with kind := .mbr, entryCount := 4, entries := setEntries es } :
      Plan).validate = .ok () := by
    refine (validate_iff _).2 ⟨(geometryOk_iff _).2 ?_, rfl, ?_⟩
    · simp only [basePlan]
      omega
    · have hlive' : ({ basePlan dev.sectors (d.read 0 512) with kind := .mbr, entryCount := 4, entries := setEntries es } :
          Plan).live = es := live_setEntries rfl hlen4 (show 4 ≤ 128 by omega)
      rw [hlive']
      refine (entriesOk_mbr (f := Entry.shown) rfl rfl ⟨rfl, rfl⟩ (fun e => ⟨rfl, rfl, rfl, rfl⟩)).1 ?_
      rw [hshown]
      refine (entriesOk_mbr (f := Entry.mbrPart) hk rfl ⟨hfirst.symm, ?_⟩ (fun e => ⟨rfl, rfl, rfl, rfl⟩)).2 hents
      show dev.sectors - 1 = p.lastUsable
      rw [hlast, hs]
  refine ⟨_, Reads.planRead_of_table hv (by omega) hlen htable hvalid ?_ ?_, ?_⟩
  · intro s hs
    simp only [basePlan, List.mem_cons, List.not_mem_nil, or_false] at hs
    rcases hs with rfl | rfl | rfl <;> simp only <;> omega
  · simp [basePlan]
  · refine ⟨hk.symm, hguid.symm, ?_, ⟨hfirst.symm, by rw [hlast, ← hs]; rfl⟩, hcount.symm, fun i hi => ?_⟩
    · show (getLe (d.read 0 512) 440 4).toUInt32 = p.diskId
      rw [hm, Plan.mbrSector, getLe_put_off (by omega), mbrFrame_diskId]
      simp
    · rw [hk]
      exact slots_eq (g := Entry.mbrPart) hshape g6 hshown rfl hi

end ReadBack

section Completes

variable {sha : Bytes → Bytes} {dev : Device} {p : Plan} {workLen : Nat} {w : World}

theorem publish_run (hv : dev.requireExclusive = .ok ()) (h1 : 1 ≤ dev.sectors) (hlen : 512 ≤ workLen ∧ workLen % 512 = 0)
    {mbr : Bytes} (hm : mbr.length = 512) : ∃ w', publish dev workLen mbr noFaults w = (.ok (), w') := by
  obtain ⟨_, hval, -⟩ := Except.bind_ok.1 hv
  have hwrote : (w.wrote {} 0 mbr).tick.disk.read (512 * 0) (512 * 1) = mbr := by
    have := Disk.read_write w.disk (512 * 0) mbr
    rw [hm] at this
    exact this
  obtain ⟨w', hrun, -⟩ := Reads.verify hval (n := 1) (by omega) hm hlen hwrote _ rfl
  refine ⟨w', ?_⟩
  rw [publish, Io.bind_run (Device.write_run hv (n := 1) (by omega) hm w), Io.bind_run (Device.flush_run hv _), hrun]

theorem commit_completes (hval : p.validate = .ok ()) (hv : dev.requireExclusive = .ok ()) (hs : dev.sectors = p.sectors)
    (hk : p.kind ≠ .none) (he : p.eraseSourceGpt = false) (hlen : maxArrayBytes * 2 ≤ workLen ∧ workLen % 512 = 0)
    (hne : p.source.spans ≠ []) (hspans : ∀ s ∈ p.source.spans, s.1 + s.2 ≤ dev.sectors)
    (hd : p.source.digest = sha (p.source.spans.flatMap (fun s => w.disk.read (512 * s.1) (512 * s.2))))
    (htable : ∀ w1 : World, ∃ w2, p.commitTable dev workLen noFaults w1 = (.ok (), w2)) :
    ∃ w', p.commit sha dev workLen noFaults w = (.ok (), w') := by
  obtain ⟨_, hdev, -⟩ := Except.bind_ok.1 hv
  have hgeo : (dev.sectors != p.sectors || p.kind == .none || p.source.spans.length == 0 ||
      decide (workLen < maxArrayBytes * 2) || workLen % 512 != 0) = false := by
    simp only [Bool.or_eq_false_iff, bne_eq_false_iff_eq, beq_eq_false_iff_ne, decide_eq_false_iff_not,
      List.length_eq_zero_iff, ne_eq, Nat.not_lt]
    exact ⟨⟨⟨⟨hs, hk⟩, hne⟩, hlen.1⟩, hlen.2⟩
  have hsmall : (decide (workLen < 512) || workLen % 512 != 0) = false := by
    unfold maxArrayBytes maxEntries at hlen
    simp only [Bool.or_eq_false_iff, bne_eq_false_iff_eq, decide_eq_false_iff_not]
    omega
  have hhash : Reads w.disk (p.source.hash sha dev workLen)
      (sha ([] ++ p.source.spans.flatMap (fun s => w.disk.read (512 * s.1) (512 * s.2)))) :=
    Reads.bind (Reads.refuse _ hsmall) (Reads.bind (Reads.readSpans hdev hspans) (Reads.pure _))
  obtain ⟨w1, h1, -⟩ := hhash w rfl
  obtain ⟨w2, h2⟩ := htable w1
  have hstale : (p.source.digest != sha ([] ++ p.source.spans.flatMap (fun s => w.disk.read (512 * s.1) (512 * s.2)))) = false := by
    rw [hd, List.nil_append, bne_self_eq_false]
  refine ⟨w2, ?_⟩
  rw [Plan.commit, hval, hv, hgeo, he, Bool.false_and]
  iterate 2 rw [Io.bind_run (show Io.lift _ noFaults w = (.ok (), w) from rfl)]
  iterate 2 rw [Io.bind_run (show Io.refuse false _ noFaults w = (.ok (), w) from rfl)]
  rw [Io.bind_run h1, hstale, Io.bind_run (show Io.refuse false _ noFaults w1 = (.ok (), w1) from rfl)]
  rw [if_neg (by decide)]
  exact h2

theorem commitTable_mbr_run (hv : dev.requireExclusive = .ok ()) (hk : p.kind = .mbr)
    (hlen : maxArrayBytes * 2 ≤ workLen ∧ workLen % 512 = 0) (w1 : World) :
    ∃ w2, p.commitTable dev workLen noFaults w1 = (.ok (), w2) := by
  obtain ⟨_, hdev, -⟩ := Except.bind_ok.1 hv
  have hlen' : 512 ≤ workLen := by
    unfold maxArrayBytes maxEntries at hlen
    omega
  rw [Plan.commitTable, hk, if_pos rfl]
  exact publish_run hv (Device.sectors_pos hdev).1 ⟨hlen', hlen.2⟩ (length_mbrSector p)

theorem copy_run {a h n : Nat} {arr hdr : Bytes} (hv : dev.requireExclusive = .ok ()) (ha : 0 < n ∧ a + n ≤ dev.sectors)
    (hh : h < dev.sectors) (harr : arr.length = 512 * n) (hhdr : hdr.length = 512) (hoff : h < a ∨ a + n ≤ h) (w : World) :
    ∃ w', w'.disk.read (512 * h) (512 * 1) = hdr ∧ ∀ k : Unit → Io Error Unit,
      (dev.write a arr >>= fun _ => dev.write h hdr >>= fun _ => dev.flush >>= fun _ =>
        dev.verify a arr maxArrayBytes >>= k) noFaults w = k () noFaults w' := by
  obtain ⟨_, hval, -⟩ := Except.bind_ok.1 hv
  have hd1 : (((w.wrote {} a arr).wrote {} h hdr).tick.disk).read (512 * h) (512 * 1) = hdr := by
    have := Disk.read_write (w.wrote {} a arr).disk (512 * h) hdr
    rw [hhdr] at this
    exact this
  have hd2 : (((w.wrote {} a arr).wrote {} h hdr).tick.disk).read (512 * a) (512 * n) = arr := by
    have := Disk.read_write w.disk (512 * a) arr
    rw [harr] at this
    refine Eq.trans ?_ this
    exact Disk.read_congr (fun i h1 h2 => Disk.write_off (by rw [hhdr]; omega))
  obtain ⟨w', hrun, hw'⟩ := Reads.verify hval ha harr (show 512 ≤ maxArrayBytes ∧ maxArrayBytes % 512 = 0 by decide) hd2 _ rfl
  refine ⟨w', by rw [hw']; exact hd1, fun k => ?_⟩
  rw [Io.bind_run (Device.write_run hv ha harr w), Io.bind_run (Device.write_run hv (n := 1) (by omega) hhdr _),
    Io.bind_run (Device.flush_run hv _), Io.bind_run hrun]

theorem commitTable_gpt_run (hv : dev.requireExclusive = .ok ()) (hs : dev.sectors = p.sectors) (hval : p.validate = .ok ())
    (hk : p.kind = .gpt) (hlen : maxArrayBytes * 2 ≤ workLen ∧ workLen % 512 = 0) (w1 : World) :
    ∃ w2, p.commitTable dev workLen noFaults w1 = (.ok (), w2) := by
  obtain ⟨_, hdev, -⟩ := Except.bind_ok.1 hv
  obtain ⟨h1, h2, h3, h4, h5⟩ := p.placed hval hk
  have hlen' : 512 ≤ workLen := by
    unfold maxArrayBytes maxEntries at hlen
    omega
  have hn : 0 < arraySectors p.entryCount := by
    unfold arraySectors
    omega
  have hbig : 512 ≤ maxArrayBytes ∧ maxArrayBytes % 512 = 0 := by decide
  have hph : p.primaryHeader.length = 512 := length_header _ _ _ _ _
  have hbh : p.backupHeader.length = 512 := length_header _ _ _ _ _
  obtain ⟨wb, hb, hbrun⟩ := copy_run (h := p.sectors - 1) hv ⟨hn, by omega⟩ (by omega) (length_array p) hbh (.inr h4.2) w1
  obtain ⟨wb', hbv, -⟩ := Reads.verify hdev (n := 1) (by omega) hbh hbig hb _ rfl
  obtain ⟨wp, hp, hprun⟩ := copy_run (h := 1) hv ⟨hn, by omega⟩ (by omega) (length_array p) hph (.inl h3.1) wb'
  obtain ⟨wp', hpv, -⟩ := Reads.verify hdev (n := 1) (by omega) hph hbig hp _ rfl
  have hgpt : p.commitGpt dev noFaults w1 = (.ok (), wp') := by
    unfold Plan.commitGpt
    refine (hbrun _).trans ((Io.bind_run hbv).trans ?_)
    exact (hprun _).trans hpv
  obtain ⟨w2, h⟩ := publish_run (w := wp') hv (Device.sectors_pos hdev).1 ⟨hlen', hlen.2⟩ (length_protectiveSector p)
  refine ⟨w2, ?_⟩
  rw [Plan.commitTable, hk, if_neg (by decide), Io.bind_run hgpt]
  exact h

end Completes

/-- **Partition table round trip.**  A plan was read from some device and changed by any operations; its commit succeeded
on a device, whatever failed on the way and was noticed.  Then a read of that device succeeds with the same table: the
same kind, identity, usable range and count, and in every slot the fields a table of that kind keeps. -/
theorem commit_roundTrip {sha : Bytes → Bytes} {dev : Device} {scratchLen : Nat} {F : Faults} {w w' : World} {p q : Plan}
    {ops : List Op} (hread : Plan.read sha dev scratchLen F w = (.ok p, w')) (hedits : p.edits ops = .ok q)
    {target : Device} {workLen : Nat} {G : Faults} {v v' : World} (hcommit : q.commit sha target workLen G v = (.ok (), v'))
    {readLen : Nat} (hlen : maxArrayBytes * 2 ≤ readLen ∧ readLen % 512 = 0) :
    ∃ r, Reads v'.disk (Plan.read sha target readLen) r ∧ SameTable q r := by
  obtain ⟨hs, hn⟩ := planRead_shape hread
  have hshape := edits_shape hs hn hedits
  obtain ⟨hval, hdev, hsec, hkind, -, -⟩ := commit_ok hcommit
  cases hk : q.kind with
  | none => exact absurd hk hkind
  | mbr => exact readBack_mbr hdev hsec hlen hval hk hshape (commit_mbr_ok hcommit hk)
  | gpt =>
    obtain ⟨hon, hm⟩ := commit_gpt_ok hcommit hk
    exact readBack_gpt hdev hsec hlen hval hk hshape hon hm

/-! ## A blank disk

An MBR table is put on a disk of zeros, with one partition whose entry also carries a GUID. -/

def blankDevice : Device := { sectors := 4096, exclusive := true }

def blankWorld : World := { disk := fun _ => 0 }

def taggedEntry : Entry := { present := true, first := 2048, count := 8, mbrType := 0x0c, uniqueGuid := Vector.replicate 16 7 }

/-- The plan of the blank disk. -/
def blankPlan : Plan := { basePlan 4096 (zeros 512) with blank := true, source.digest := zeros 1536 }

/-- The blank disk as an empty MBR disk, and with one partition. -/
def emptyPlan : Plan :=
  { sectors := 4096, kind := .mbr, blank := true, diskId := 7, lastUsable := 4095, entryCount := 4
    source := blankPlan.source }

def taggedPlan : Plan := emptyPlan.setEntry 0 taggedEntry

theorem read_blank (off len : Nat) : blankWorld.disk.read off len = zeros len := by
  rw [Disk.read, zeros, List.eq_replicate_iff]
  simp [blankWorld]

theorem blank_reads {n : Nat} (hn : 3 ≤ n) (hval : ({ basePlan n (zeros 512) with blank := true } : Plan).validate = .ok ())
    (hdev : ({ sectors := n, exclusive := true } : Device).validate = .ok ()) :
    ∃ w', Plan.read id { sectors := n, exclusive := true } 32768 noFaults blankWorld =
      (.ok { basePlan n (zeros 512) with blank := true, source.digest := zeros 1536 }, w') := by
  have hz : zeros 512 ++ zeros 512 ++ zeros 512 ++ [] = zeros 1536 := by
    rw [List.append_nil, zeros_append, zeros_append]
  have ht : Reads blankWorld.disk (readSigned (basePlan n (blankWorld.disk.read 0 512)) { sectors := n, exclusive := true }
      (blankWorld.disk.read 0 512) (blankWorld.disk.read 512 512) (blankWorld.disk.read (512 * (n - 1)) 512))
      ({ basePlan n (zeros 512) with blank := true }, []) := by
    rw [read_blank, read_blank, read_blank, readSigned, getD_zeros, if_neg (by decide), allZero_zeros]
    exact Reads.pure _
  have hspans : ∀ s ∈ ({ basePlan n (zeros 512) with blank := true } : Plan).source.spans, s.1 + s.2 ≤ n := by
    intro s hs
    simp only [basePlan, List.mem_cons, List.not_mem_nil, or_false] at hs
    rcases hs with rfl | rfl | rfl
    · omega
    · omega
    · show n - 1 + 1 ≤ n
      omega
  have hr := @Reads.planRead_of_table id { sectors := n, exclusive := true } blankWorld.disk _ _ 32768 hdev hn
    (by decide) ht hval hspans (by simp only [read_blank]; simp [basePlan])
  simp only [read_blank, hz] at hr
  obtain ⟨w', h, -⟩ := hr blankWorld rfl
  exact ⟨w', h⟩

theorem blank_checks : ({ basePlan 4096 (zeros 512) with blank := true } : Plan).validate = .ok () ∧
    taggedPlan.validate = .ok () ∧ emptyPlan.freeSlot = some 0 ∧ ∀ s ∈ taggedPlan.source.spans, s.1 + s.2 ≤ blankDevice.sectors := by
  decide +kernel

theorem blank_read : ∃ w', Plan.read id blankDevice 32768 noFaults blankWorld = (.ok blankPlan, w') :=
  blank_reads (by decide) blank_checks.1 rfl

theorem taggedPlan_valid : taggedPlan.validate = .ok () := blank_checks.2.1

theorem blank_edits : blankPlan.edits [.initializeMbr 7, .add taggedEntry] = .ok taggedPlan := by
  have h1 : blankPlan.initializeMbr 7 = .ok emptyPlan := rfl
  have hslot : emptyPlan.freeSlot = some 0 := blank_checks.2.2.1
  have h2 : emptyPlan.add taggedEntry = .ok taggedPlan := by
    refine Except.bind_ok.2 ⟨(), rfl, ?_⟩
    rw [hslot]
    exact Except.bind_ok.2 ⟨(), taggedPlan_valid, rfl⟩
  exact Except.bind_ok.2 ⟨emptyPlan, h1, Except.bind_ok.2 ⟨taggedPlan, h2, rfl⟩⟩

theorem blank_commit : ∃ w', taggedPlan.commit id blankDevice 32768 noFaults blankWorld = (.ok (), w') := by
  refine commit_completes taggedPlan_valid rfl rfl nofun rfl (by decide) nofun blank_checks.2.2.2 ?_
    (commitTable_mbr_run rfl rfl (by decide))
  simp only [read_blank]
  show zeros 1536 = zeros 512 ++ (zeros 512 ++ (zeros 512 ++ []))
  rw [List.append_nil, zeros_append, zeros_append]

theorem commit_roundTrip_otherKind :
    ¬ ∀ (sha : Bytes → Bytes) (dev : Device) (scratchLen : Nat) (F : Faults) (w w' : World) (p q : Plan) (ops : List Op)
      (target : Device) (workLen : Nat) (G : Faults) (v v' : World) (readLen : Nat),
      Plan.read sha dev scratchLen F w = (.ok p, w') → p.edits ops = .ok q →
      q.commit sha target workLen G v = (.ok (), v') → maxArrayBytes * 2 ≤ readLen → readLen % 512 = 0 →
      ∃ r, Reads v'.disk (Plan.read sha target readLen) r ∧ ∀ i (h : i < 128), r.entries[i].shown = q.entries[i].shown := by
  intro hall
  obtain ⟨w1, hr⟩ := blank_read
  obtain ⟨v1, hc⟩ := blank_commit
  obtain ⟨r, hread, heq⟩ := hall _ _ _ _ _ _ _ _ _ _ _ _ _ _ 32768 hr blank_edits hc (by decide) (by decide)
  obtain ⟨hs, hn⟩ := planRead_shape hr
  have hshape := edits_shape hs hn blank_edits
  obtain ⟨r', hread', hsame⟩ := @readBack_mbr id blankDevice _ _ 32768 rfl rfl (by decide)
    taggedPlan_valid rfl hshape (commit_mbr_ok hc rfl)
  obtain ⟨w2, h2, -⟩ := hread v1 rfl
  obtain ⟨w3, h3, -⟩ := hread' v1 rfl
  rw [h2] at h3
  cases h3
  have hkept := hsame.entries 0 (by decide)
  rw [heq 0 (by decide)] at hkept
  have hguid := congrArg Entry.uniqueGuid hkept
  exact absurd hguid (by decide +kernel)

theorem commit_roundTrip_blank : ∃ w' v', Plan.read id blankDevice 32768 noFaults blankWorld = (.ok blankPlan, w') ∧
    blankPlan.edits [.initializeMbr 7, .add taggedEntry] = .ok taggedPlan ∧
    taggedPlan.commit id blankDevice 32768 noFaults blankWorld = (.ok (), v') ∧
    ∃ r, Reads v'.disk (Plan.read id blankDevice 32768) r ∧ SameTable taggedPlan r := by
  obtain ⟨w', hr⟩ := blank_read
  obtain ⟨v', hc⟩ := blank_commit
  exact ⟨w', v', hr, blank_edits, hc, commit_roundTrip hr blank_edits hc (by decide)⟩

end Gpt
end R4
