import R4Recovery.PartitionCrash
/-!
# GptRepairSafe — a repair never touches what survives

The good copy of a repairable report is intact (`survivor`).  The rebuilt header parses before anything is written, so
the two writes of a repair lie between sector zero, the usable range and the surviving copy (`rebuilt_place`).  A repair
that succeeds leaves two agreeing copies (`repair_ok`).
-/
namespace R4
namespace Gpt

section Report

variable {sha : Bytes → Bytes} {dev : Device} {F : Faults} {w w' : World} {r : Report}

theorem report_ok (h : Report.read sha dev F w = (.ok r, w')) :
    68 ≤ dev.sectors ∧ r.sectors = dev.sectors ∧ r.mbr = w.disk.read 0 512 ∧
    r.status = statusOf (errorOf (checkMbr r.mbr r.sectors)) r.primary r.backup ∧
    (∃ a a', a.disk = w.disk ∧ readCopy dev 1 F a = (.ok r.primary, a')) ∧
    ∃ b b', b.disk = w.disk ∧ readCopy dev (dev.sectors - 1) F b = (.ok r.backup, b') := by
  obtain ⟨_, _, h0, h⟩ := Io.bind_ok h
  obtain ⟨-, rfl⟩ := Io.lift_ok h0
  obtain ⟨_, _, h0, h⟩ := Io.bind_ok h
  obtain ⟨hs, rfl⟩ := Io.refuse_ok h0
  obtain ⟨_, w1, h0, h⟩ := Io.bind_ok h
  have hw1 : w1.disk = w.disk := by
    have := (Writes.step Error.outOfMemory).disk_eq F w
    rwa [h0] at this
  obtain ⟨mbr, w2, h0, h⟩ := Io.bind_ok h
  obtain ⟨hm, rfl⟩ := Device.read_ok h0
  rw [hw1, Nat.mul_zero] at hm
  obtain ⟨a, w3, ha, h⟩ := Io.bind_ok h
  have hw3 : w3.disk = w1.tick.disk := by
    have := (Writes.readCopy dev 1).disk_eq F w1.tick
    rwa [ha] at this
  obtain ⟨b, w4, hb, h⟩ := Io.bind_ok h
  obtain ⟨rfl, -⟩ := Io.pure_ok h
  rw [decide_eq_false_iff_not] at hs
  exact ⟨by omega, rfl, hm.symm, rfl, ⟨w1.tick, w3, hw1, ha⟩, ⟨w3, w4, by rw [hw3]; exact hw1, hb⟩⟩

theorem readCopy_header {lba : Nat} {c : Copy} (h : readCopy dev lba F w = (.ok c, w')) {x : Header} (hx : c.header = some x) :
    x.entriesLba < dev.sectors := by
  unfold readCopy at h
  obtain ⟨sector, w1, -, h⟩ := Io.bind_ok h
  cases hp : parseHeader sector lba dev.sectors with
  | error e =>
    rw [hp] at h
    obtain ⟨rfl, -⟩ := Io.pure_ok h
    cases hx
  | ok y =>
    obtain ⟨hok, rfl⟩ := (parseHeader_iff _ _ _ _).1 hp
    have hr := hok.range.2.1
    rw [hp] at h
    simp only at h
    split at h
    · obtain ⟨rfl, -⟩ := Io.pure_ok h
      obtain rfl := Option.some.inj hx
      exact hr
    · obtain ⟨array, w2, -, h⟩ := Io.bind_ok h
      cases hv : validateCopy (headerFields sector) array dev.sectors with
      | error e =>
        rw [hv] at h
        obtain ⟨rfl, -⟩ := Io.pure_ok h
        obtain rfl := Option.some.inj hx
        exact hr
      | ok u =>
        rw [hv] at h
        obtain ⟨rfl, -⟩ := Io.pure_ok h
        obtain rfl := Option.some.inj hx
        exact hr

theorem arrayLba_lt (h : Report.read sha dev F w = (.ok r, w')) (primary : Bool) (x : Header) :
    r.arrayLba primary x < r.sectors := by
  obtain ⟨hs, hsec, -, -, ⟨a, a', -, ha⟩, ⟨b, b', -, hb⟩⟩ := report_ok h
  unfold Report.arrayLba
  split
  · rename_i old hold
    rw [hsec]
    cases primary with
    | true => exact readCopy_header ha hold
    | false => exact readCopy_header hb hold
  · split <;> omega

/-- The sector of the good copy's header. -/
def Report.goodLba (r : Report) (primary : Bool) : Nat := if primary then r.sectors - 1 else 1

theorem statusOf_damaged {reason : Option Error} {a b : Copy} :
    (statusOf reason a b = .primaryDamaged → reason = none ∧ b.valid = true) ∧
    (statusOf reason a b = .backupDamaged → reason = none ∧ a.valid = true) := by
  unfold statusOf
  rcases reason with _ | e
  · cases ha : a.valid <;> cases hb : b.valid <;> cases hc : headersConflict a b <;> by_cases hu : a.used = b.used <;>
      simp [hu]
  · simp

/-- **The good copy of a repairable report is intact**, and sector zero is protective. -/
theorem survivor (h : Report.read sha dev F w = (.ok r, w')) {primary : Bool} (hrep : r.repairable = .ok primary) :
    68 ≤ r.sectors ∧ checkMbr r.mbr r.sectors = .ok () ∧ r.mbr.length = 512 ∧ ∃ x es,
      Intact r.sectors w.disk (r.goodLba primary) x es ∧ r.good primary =
        { sector := w.disk.read (512 * r.goodLba primary) 512, header := some x, array := arrayOf w.disk x } := by
  obtain ⟨hs, hsec, hmbr, hstatus, ⟨a, a', hda, ha⟩, ⟨b, b', hdb, hb⟩⟩ := report_ok h
  have hmlen : r.mbr.length = 512 := by rw [hmbr]; simp
  have hreason : errorOf (checkMbr r.mbr r.sectors) = none → checkMbr r.mbr r.sectors = .ok () := by
    intro hn
    cases hc : checkMbr r.mbr r.sectors with
    | error e => rw [hc] at hn; cases hn
    | ok u => rfl
  unfold Report.repairable at hrep
  split at hrep
  · rename_i hst
    cases hrep
    rw [hst] at hstatus
    obtain ⟨hn, hv⟩ := statusOf_damaged.1 hstatus.symm
    obtain ⟨x, es, hi, hc⟩ := intact_of_readCopy hb hv
    rw [hdb, ← hsec] at hi hc
    exact ⟨by omega, hreason hn, hmlen, x, es, hi, hc⟩
  · rename_i hst
    cases hrep
    rw [hst] at hstatus
    obtain ⟨hn, hv⟩ := statusOf_damaged.2 hstatus.symm
    obtain ⟨x, es, hi, hc⟩ := intact_of_readCopy ha hv
    rw [hda, ← hsec] at hi
    rw [hda] at hc
    exact ⟨by omega, hreason hn, hmlen, x, es, hi, hc⟩
  all_goals cases hrep

end Report

/-! ## The rebuilt header -/

section Rebuilt

variable {good : Bytes} {header : Header} {newLba arrayLba : Nat}

theorem slice_rebuiltHeader {off len : Nat}
    (h : (off + len ≤ 16 ∨ 20 ≤ off) ∧ (off + len ≤ 24 ∨ 40 ≤ off) ∧ (off + len ≤ 72 ∨ 80 ≤ off)) :
    slice (rebuiltHeader good header newLba arrayLba) off len = slice good off len := by
  unfold rebuiltHeader
  rw [slice_put_off (by simp; omega), slice_put_off (by simp; omega), slice_put_off (by simp; omega),
    slice_put_off (by simp; omega), slice_put_off (by simp; omega)]

theorem length_rebuiltHeader (hlen : good.length = 512) : (rebuiltHeader good header newLba arrayLba).length = 512 := by
  simp [rebuiltHeader, hlen]

theorem guidAt_congr {a b : Bytes} {off : Nat} (h : slice a off 16 = slice b off 16) : guidAt a off = guidAt b off := by
  refine Vector.ext (fun i hi => ?_)
  rw [guidAt, guidAt, Vector.getElem_ofFn, Vector.getElem_ofFn]
  show a.getD (off + i) 0 = b.getD (off + i) 0
  rw [← getD_slice hi, ← getD_slice hi, h]

/-- **The rebuilt header says what the good one says**, but for the places. -/
theorem headerFields_rebuiltHeader (hlen : good.length = 512) (h1 : newLba < 2 ^ 64) (h2 : header.currentLba < 2 ^ 64)
    (h3 : arrayLba < 2 ^ 64) :
    headerFields (rebuiltHeader good header newLba arrayLba) =
      { headerFields good with currentLba := newLba, backupLba := header.currentLba, entriesLba := arrayLba } := by
  have w1 : getLe (rebuiltHeader good header newLba arrayLba) 24 8 = newLba := by
    unfold rebuiltHeader
    rw [getLe_put_off (by simp), getLe_put_off (by simp), getLe_put_off (by simp), getLe_put_off (by simp)]
    exact getLe_put (by omega) (by omega)
  have w2 : getLe (rebuiltHeader good header newLba arrayLba) 32 8 = header.currentLba := by
    unfold rebuiltHeader
    rw [getLe_put_off (by simp), getLe_put_off (by simp), getLe_put_off (by simp)]
    exact getLe_put (by simp; omega) (by omega)
  have w3 : getLe (rebuiltHeader good header newLba arrayLba) 72 8 = arrayLba := by
    unfold rebuiltHeader
    rw [getLe_put_off (by simp), getLe_put_off (by simp)]
    exact getLe_put (by simp; omega) (by omega)
  have keep : ∀ {off len : Nat}, (off + len ≤ 16 ∨ 20 ≤ off) ∧ (off + len ≤ 24 ∨ 40 ≤ off) ∧ (off + len ≤ 72 ∨ 80 ≤ off) →
      getLe (rebuiltHeader good header newLba arrayLba) off len = getLe good off len := by
    intro off len h
    rw [getLe, getLe, slice_rebuiltHeader h]
  have hg : guidAt (rebuiltHeader good header newLba arrayLba) 56 = guidAt good 56 :=
    guidAt_congr (slice_rebuiltHeader (by omega))
  unfold headerFields
  rw [w1, w2, w3, hg, keep (by omega), keep (by omega), keep (by omega), keep (by omega), keep (by omega)]

end Rebuilt

/-! ## What a repair writes -/

/-- A sector a repair must leave alone: sector zero, the surviving header and array, and the usable range. -/
def Protected (x : Header) (s : Nat) : Prop :=
  s = 0 ∨ s = x.currentLba ∨ (x.entriesLba ≤ s ∧ s < x.entriesLba + x.entrySectors) ∨
    (x.firstUsableLba ≤ s ∧ s ≤ x.lastUsableLba)

/-- The writes of a repair, in order. -/
def Report.repairWrites (r : Report) (primary : Bool) (x : Header) : List (Nat × Bytes) :=
  [(r.arrayLba primary x, (r.good primary).array),
    (r.newLba primary, rebuiltHeader (r.good primary).sector x (r.newLba primary) (r.arrayLba primary x))]

section Repair

variable {sha : Bytes → Bytes} {dev : Device} {r : Report} {primary : Bool} {x : Header} {es : List Entry} {d : Disk}
  {workLen : Nat}

theorem Writes.rebuild (r : Report) (dev : Device) (workLen : Nat) (primary : Bool) (x : Header) :
    Writes (r.rebuild dev workLen primary x) (r.repairWrites primary x) := by
  refine Writes.bindNil (Writes.lift _) (fun _ => Writes.bind (u := [_]) (v := [_]) (Writes.write dev _ _) (fun _ => ?_))
  refine Writes.bindNil (Writes.flush dev) (fun _ => Writes.bindNil (Writes.verify dev _ _ _) (fun _ => ?_))
  refine Writes.bind (u := [_]) (v := []) (Writes.write dev _ _) (fun _ => Writes.bindNil (Writes.flush dev) (fun _ => ?_))
  exact Writes.bindNil (Writes.verify dev _ _ _) (fun _ => Writes.bindNil (Writes.verify dev _ _ _) (fun _ =>
    Writes.bindNil (Writes.verify dev _ _ _) (fun _ => Writes.verify dev _ _ _)))

theorem Writes.report (dev : Device) : Writes (Report.read sha dev) [] := by
  refine Writes.bindNil (Writes.lift _) (fun _ => Writes.bindNil (Writes.refuse _ _) (fun _ => Writes.bindNil (Writes.step _)
    (fun _ => Writes.bindNil (Writes.read dev _ _) (fun _ => ?_))))
  exact Writes.bindNil (Writes.readCopy dev _) (fun _ => Writes.bindNil (Writes.readCopy dev _) (fun _ => Writes.pure _))

/-- A write that is flushed and read back. -/
theorem written_run (hv : dev.requireExclusive = .ok ()) {lba n : Nat} {data : Bytes} (h : 0 < n ∧ lba + n ≤ dev.sectors)
    (hlen : data.length = 512 * n) (hs : 512 ≤ workLen ∧ workLen % 512 = 0) (w : World) :
    ∃ w', w'.disk = w.disk.write (512 * lba) data ∧ ∀ k : Unit → Io Error Unit,
      (dev.write lba data >>= fun _ => dev.flush >>= fun _ => dev.verify lba data workLen >>= k) noFaults w =
        k () noFaults w' := by
  obtain ⟨_, hval, -⟩ := Except.bind_ok.1 hv
  have hread : ((w.wrote {} lba data).tick.disk).read (512 * lba) (512 * n) = data := by
    have := Disk.read_write w.disk (512 * lba) data
    rwa [hlen] at this
  obtain ⟨w', hrun, hw'⟩ := Reads.verify hval h hlen hs hread _ rfl
  refine ⟨w', hw', fun k => ?_⟩
  rw [Io.bind_run (Device.write_run hv h hlen w), Io.bind_run (Device.flush_run hv _), Io.bind_run hrun]

theorem repair_cases (hrep : r.repairable = .ok primary) (hx : (r.good primary).header = some x) (G : Faults) (v : World) :
    (∃ e v1, r.repair sha dev workLen G v = (.error e, v1) ∧ Wrote [] v v1) ∨
    (dev.sectors = r.sectors ∧ dev.validate = .ok () ∧ ∃ v1, Wrote [] v v1 ∧
      r.repair sha dev workLen G v = r.rebuild dev workLen primary x G v1) := by
  unfold Report.repair
  rw [hrep, Io.bind_run (show Io.lift _ G v = (.ok primary, v) from rfl)]
  rcases Writes.bind_cases (Writes.lift _) G v with h | ⟨_, v1, hex, h1, h⟩
  · exact .inl h
  rw [h]
  obtain ⟨hex, -⟩ := Io.lift_ok hex
  obtain ⟨_, hdev, -⟩ := Except.bind_ok.1 hex
  rcases Writes.bind_cases (Writes.refuse _ _) G v1 with ⟨e, v2, h, h2⟩ | ⟨_, v2, hgeo, h2, h⟩
  · exact .inl ⟨e, v2, h, h1.trans h2⟩
  rw [h]
  obtain ⟨hgeo, -⟩ := Io.refuse_ok hgeo
  simp only [Bool.or_eq_false_iff, bne_eq_false_iff_eq] at hgeo
  rcases Writes.bind_cases (Writes.report dev) G v2 with ⟨e, v3, h, h3⟩ | ⟨_, v3, -, h3, h⟩
  · exact .inl ⟨e, v3, h, (h1.trans h2).trans h3⟩
  rw [h]
  rcases Writes.bind_cases (Writes.refuse _ _) G v3 with ⟨e, v4, h, h4⟩ | ⟨_, v4, -, h4, h⟩
  · exact .inl ⟨e, v4, h, ((h1.trans h2).trans h3).trans h4⟩
  rw [h, hx]
  exact .inr ⟨hgeo.1.1, hdev, v4, ((h1.trans h2).trans h3).trans h4, rfl⟩

theorem survivor_place (hi : Intact r.sectors d (r.goodLba primary) x es) : x.currentLba = r.goodLba primary ∧
    x.firstUsableLba ≤ x.lastUsableLba ∧ 0 < x.entrySectors ∧
    (primary = true → x.lastUsableLba < x.entriesLba ∧ x.entriesLba + x.entrySectors ≤ r.sectors - 1 ∧ r.sectors ≠ 2) ∧
    (primary = false → 1 < x.entriesLba ∧ x.entriesLba + x.entrySectors ≤ x.firstUsableLba) := by
  have h1 := hi.header.current
  have h2 := hi.header.usable
  have h3 := hi.header.place
  have h4 := hi.sectors_bounds
  rw [hi.fields] at h1 h2 h3
  refine ⟨h1.2, h2.1, h4.1, fun hp => ?_, fun hp => ?_⟩
  · subst hp
    simp only [Report.goodLba, if_true] at h3
    unfold ArrayPlaced at h3
    omega
  · subst hp
    simp only [Report.goodLba, Bool.false_eq_true, if_false] at h3
    unfold ArrayPlaced at h3
    omega

/-- **The rebuilt header's place**: the array it names lies between the survivor and the usable range. -/
theorem rebuilt_place (hi : Intact r.sectors d (r.goodLba primary) x es) (hs : 68 ≤ r.sectors ∧ r.sectors < 2 ^ 64)
    (hsector : (r.good primary).sector = d.read (512 * r.goodLba primary) 512) (ha : r.arrayLba primary x < 2 ^ 64) {y : Header}
    (hy : parseHeader (rebuiltHeader (r.good primary).sector x (r.newLba primary) (r.arrayLba primary x)) (r.newLba primary)
      r.sectors = .ok y) :
    y = { x with currentLba := r.newLba primary, backupLba := x.currentLba, entriesLba := r.arrayLba primary x } ∧
    (primary = true → 1 < r.arrayLba primary x ∧ r.arrayLba primary x + x.entrySectors ≤ x.firstUsableLba) ∧
    (primary = false → x.lastUsableLba < r.arrayLba primary x ∧ r.arrayLba primary x + x.entrySectors ≤ r.sectors - 1) := by
  obtain ⟨hok, hf⟩ := (parseHeader_iff _ _ _ _).1 hy
  have hcur : x.currentLba < 2 ^ 64 := by
    rw [(survivor_place hi).1]
    unfold Report.goodLba
    split <;> omega
  have hnew : r.newLba primary < 2 ^ 64 := by
    unfold Report.newLba
    split <;> omega
  have hlen : (r.good primary).sector.length = 512 := by rw [hsector]; simp
  have hfields := headerFields_rebuiltHeader hlen hnew hcur ha
  have hxf : headerFields (r.good primary).sector = x := by rw [hsector]; exact hi.fields
  rw [hxf] at hfields
  have hplace := hok.place
  rw [hfields] at hplace
  have hsec : ({ x with currentLba := r.newLba primary, backupLba := x.currentLba, entriesLba := r.arrayLba primary x } :
    Header).entrySectors = x.entrySectors := rfl
  unfold ArrayPlaced at hplace
  rw [hsec] at hplace
  refine ⟨by rw [hf, hfields], fun hp => ?_, fun hp => ?_⟩
  · have hn : r.newLba primary = 1 := by rw [Report.newLba, hp]; rfl
    rw [hn] at hplace
    rcases hplace with h | h
    · exact ⟨h.2.2.1, h.2.2.2⟩
    · exact absurd rfl h.1
  · have hn : r.newLba primary = r.sectors - 1 := by rw [Report.newLba, hp]; rfl
    rw [hn] at hplace
    rcases hplace with h | h
    · omega
    · exact ⟨h.2.2.2.1, h.2.2.2.2⟩

/-- **No write of a repair meets a protected sector.** -/
theorem repairWrites_safe (hi : Intact r.sectors d (r.goodLba primary) x es) (hs : 68 ≤ r.sectors)
    (hgood : r.good primary = { sector := d.read (512 * r.goodLba primary) 512, header := some x, array := arrayOf d x })
    (h1 : primary = true → 1 < r.arrayLba primary x ∧ r.arrayLba primary x + x.entrySectors ≤ x.firstUsableLba)
    (h2 : primary = false → x.lastUsableLba < r.arrayLba primary x ∧ r.arrayLba primary x + x.entrySectors ≤ r.sectors - 1)
    {p : Nat × Bytes} (hp : p ∈ r.repairWrites primary x) :
    ∃ n, p.2.length = 512 * n ∧ ∀ s, p.1 ≤ s → s < p.1 + n → ¬ Protected x s := by
  obtain ⟨k1, k2, k3, k4, k5⟩ := survivor_place hi
  have hnew : r.newLba primary = if primary then 1 else r.sectors - 1 := rfl
  have hgl : r.goodLba primary = if primary then r.sectors - 1 else 1 := rfl
  simp only [Report.repairWrites, List.mem_cons, List.not_mem_nil, or_false] at hp
  rcases hp with rfl | rfl
  · refine ⟨x.entrySectors, by rw [hgood]; simp [arrayOf], fun s hs1 hs2 hprot => ?_⟩
    have hs1 : r.arrayLba primary x ≤ s := hs1
    have hs2 : s < r.arrayLba primary x + x.entrySectors := hs2
    unfold Protected at hprot
    cases primary with
    | true =>
      have := h1 rfl; have := k4 rfl
      simp only [if_true] at hgl
      omega
    | false =>
      have := h2 rfl; have := k5 rfl
      simp only [Bool.false_eq_true, if_false] at hgl
      omega
  · refine ⟨1, length_rebuiltHeader (by rw [hgood]; simp), fun s hs1 hs2 hprot => ?_⟩
    have hs1 : r.newLba primary ≤ s := hs1
    have hs2 : s < r.newLba primary + 1 := hs2
    unfold Protected at hprot
    cases primary with
    | true =>
      have := h1 rfl; have := k4 rfl
      simp only [if_true] at hgl hnew
      omega
    | false =>
      have := h2 rfl; have := k5 rfl
      simp only [Bool.false_eq_true, if_false] at hgl hnew
      omega

/-- **What a rebuild that succeeds leaves**: the rebuilt copy, and the survivor and sector zero as reported. -/
theorem rebuild_ok {G : Faults} {v v' : World} {u : Unit} (hlen : (r.good primary).sector.length = 512)
    (hmbr : r.mbr.length = 512)
    (hapart : r.newLba primary + 1 ≤ r.arrayLba primary x ∨
      512 * r.arrayLba primary x + (r.good primary).array.length ≤ 512 * r.newLba primary)
    (h : r.rebuild dev workLen primary x G v = (.ok u, v')) :
    v'.disk.read (512 * r.arrayLba primary x) (r.good primary).array.length = (r.good primary).array ∧
    v'.disk.read (512 * r.newLba primary) 512 =
      rebuiltHeader (r.good primary).sector x (r.newLba primary) (r.arrayLba primary x) ∧
    v'.disk.read (512 * x.currentLba) 512 = (r.good primary).sector ∧
    v'.disk.read (512 * x.entriesLba) (r.good primary).array.length = (r.good primary).array ∧
    v'.disk.read 0 512 = r.mbr := by
  have hnew : (rebuiltHeader (r.good primary).sector x (r.newLba primary) (r.arrayLba primary x)).length = 512 :=
    length_rebuiltHeader hlen
  obtain ⟨_, _, -, h⟩ := Io.bind_ok h
  obtain ⟨_, _, -, h⟩ := Io.bind_ok h
  obtain ⟨_, v2, -, h⟩ := Io.bind_ok h
  obtain ⟨_, v3, h1, h⟩ := Io.bind_ok h
  obtain ⟨harray, hd3⟩ := Device.verify_ok h1
  obtain ⟨_, v4, hw, h⟩ := Io.bind_ok h
  have hw4 := (Writes.write dev _ _).run hw
  obtain ⟨_, v5, hf, h⟩ := Io.bind_ok h
  have hf5 := (Writes.flush dev).run hf
  obtain ⟨_, v6, h2, h⟩ := Io.bind_ok h
  obtain ⟨hheader, hd6⟩ := Device.verify_ok h2
  obtain ⟨_, v7, h3, h⟩ := Io.bind_ok h
  obtain ⟨hsector, hd7⟩ := Device.verify_ok h3
  obtain ⟨_, v8, h4, h⟩ := Io.bind_ok h
  obtain ⟨hgood, hd8⟩ := Device.verify_ok h4
  obtain ⟨hm, hd9⟩ := Device.verify_ok h
  rw [hnew] at hheader
  rw [hlen] at hsector
  rw [hmbr] at hm
  have hd : v'.disk = v5.disk := by rw [hd9, hd8, hd7, hd6]
  refine ⟨?_, by rw [hd]; exact hheader, by rw [hd, ← hd6]; exact hsector, by rw [hd, ← hd6, ← hd7]; exact hgood,
    by rw [hd9]; exact hm⟩
  rw [hd, hf5.read_eq (by simp), hw4.read_eq (fun p hp => ?_), hd3]
  · exact harray
  · obtain rfl := List.mem_singleton.1 hp
    simp only [hnew]
    omega

theorem rebuilt_intact {n lba : Nat} {d' : Disk} {y : Header} (hi : Intact n d lba x es) {newLba arrayLba : Nat}
    (hy : y = { x with currentLba := newLba, backupLba := x.currentLba, entriesLba := arrayLba })
    (hok : parseHeader (rebuiltHeader (d.read (512 * lba) 512) x newLba arrayLba) newLba n = .ok y)
    (hh : d'.read (512 * newLba) 512 = rebuiltHeader (d.read (512 * lba) 512) x newLba arrayLba)
    (ha : arrayOf d' y = arrayOf d x) : Intact n d' newLba y es ∧ gptCopiesDiffer x y = false := by
  obtain ⟨hok, hf⟩ := (parseHeader_iff _ _ _ _).1 hok
  obtain ⟨hl1, hl2, hl3⟩ := (layoutBad_iff _ _).1 hi.layout
  have hagree : gptCopiesDiffer x y = false := (gptCopiesDiffer_iff x y).2 (by subst hy; exact ⟨rfl, rfl, rfl, rfl, rfl, rfl⟩)
  obtain ⟨hg, hf1, hf2, hc, hs, hcrc⟩ := (gptCopiesDiffer_iff x y).1 hagree
  refine ⟨⟨by rw [hh]; exact hok, by rw [hh]; exact hf.symm, ?_, ?_, ?_⟩, hagree⟩
  · rw [hh]
    refine (layoutBad_iff _ _).2 ⟨?_, by rw [← hs]; exact hl2, by rw [← hc]; exact hl3⟩
    rw [getLe, slice_rebuiltHeader (by omega)]
    exact hl1
  · rw [ha]
    exact validateCopy_congr hagree hl2 rfl hi.copy
  · rw [ha, readGptArray_congr hf1 hf2 hc hs hl2 rfl]
    exact hi.entries

/-- A checksum put into a header whose field for it was zero is the checksum of that header. -/
theorem headerCrc_put {b : Bytes} (hz : slice b 16 4 = zeros 4) (n : Nat) :
    headerCrc (put b 16 (leBytes 4 n)) 92 = crc (slice b 0 92) := by
  rw [headerCrc_eq, slice_put_off (by simp), slice_put_off (by simp), ← hz]
  refine congrArg crc ?_
  have h1 := slice_append b 0 16 4
  have h2 := slice_append b 0 20 72
  rw [h2, h1]

/-- **The rebuilt header parses**, wherever the array has a place. -/
theorem parse_rebuiltHeader {n lba : Nat} (hi : Intact n d lba x es) (hn : n < 2 ^ 64) (hlba : lba < n) {newLba arrayLba : Nat}
    (hnew : newLba < n ∧ newLba ≠ lba)
    (hplace : ArrayPlaced { x with currentLba := newLba, backupLba := x.currentLba, entriesLba := arrayLba } newLba n) :
    parseHeader (rebuiltHeader (d.read (512 * lba) 512) x newLba arrayLba) newLba n =
      .ok { x with currentLba := newLba, backupLba := x.currentLba, entriesLba := arrayLba } := by
  have hok := hi.header
  have hx := hi.fields
  have hsize := ((layoutBad_iff _ _).1 hi.layout).1
  have hcur : x.currentLba = lba := by rw [← hx]; exact hok.current.2
  have husable := hok.usable
  have hrange := hok.range
  rw [hx] at husable hrange
  have hent : arrayLba < n ∧ x.entrySectors ≤ n - arrayLba := by
    have hsec : ({ x with currentLba := newLba, backupLba := x.currentLba, entriesLba := arrayLba } : Header).entrySectors =
      x.entrySectors := rfl
    unfold ArrayPlaced at hplace
    rw [hsec] at hplace
    simp only at hplace
    omega
  generalize hgood : d.read (512 * lba) 512 = good at *
  have hlen : good.length = 512 := by rw [← hgood]; simp
  have hfields : headerFields (rebuiltHeader good x newLba arrayLba) = _ :=
    headerFields_rebuiltHeader hlen (by omega) (by omega) (by omega)
  rw [hx] at hfields
  have keep : ∀ {off len : Nat}, (off + len ≤ 16 ∨ 20 ≤ off) ∧ (off + len ≤ 24 ∨ 40 ≤ off) →
      off + len ≤ 72 → getLe (rebuiltHeader good x newLba arrayLba) off len = getLe good off len := fun h1 h2 => by
    rw [getLe, getLe, slice_rebuiltHeader ⟨h1.1, h1.2, .inl h2⟩]
  have hbytes : getLe (rebuiltHeader good x newLba arrayLba) 12 4 = 92 := (keep (by omega) (by omega)).trans hsize
  rw [parseHeader_iff]
  refine ⟨⟨by rw [length_rebuiltHeader hlen], ?_, ?_, by rw [hbytes]; omega, ?_, ?_, ?_, ?_, ?_, ?_, ?_, ?_, ?_⟩, hfields.symm⟩
  · rw [slice_rebuiltHeader (by omega), hok.signature]
  · rw [keep (by omega) (by omega), hok.revision]
  · rw [keep (by omega) (by omega), hok.reserved]
  · -- the checksum is taken over a body whose own field is zero
    rw [hbytes, rebuiltHeader, show leBytes 4 0 = zeros 4 from rfl]
    rw [headerCrc_put (slice_put (by simp) (by simp [hlen])), getLe_put (by simp [hlen]) (crc _).toNat_lt]
  all_goals rw [hfields]
  · exact ⟨hok.current.1, rfl⟩
  · exact ⟨by rw [hcur]; exact hlba, by rw [hcur]; exact hnew.2.symm⟩
  · exact husable
  · have hcount := hok.count
    rwa [hx] at hcount
  · have hentry := hok.entry
    rwa [hx] at hentry
  · exact ⟨hrange.1, hent.1, hent.2⟩
  · exact hplace

/-- **Two agreeing copies behind a checked sector zero are healthy.** -/
theorem healthy_of_agreeing (hv : dev.validate = .ok ()) (hs : 68 ≤ dev.sectors) {y : Header} (ha : Agreeing dev.sectors d x y es)
    (hm : checkMbr (d.read 0 512) dev.sectors = .ok ()) : ∃ q, Reads d (Report.read sha dev) q ∧ q.status = .healthy := by
  refine ⟨_, reads_report hv hs (Reads.readCopy hv (by omega) ha.primary) (Reads.readCopy hv (by omega) ha.backup), ?_⟩
  obtain ⟨h1, h2, h3, h4, h5, -⟩ := (gptCopiesDiffer_iff x y).1 ha.agree
  obtain ⟨-, hbytes⟩ := entrySectors_congr h4 h5
  have hrel : related x y = true := by
    simp [related, h1, h2, h3, h4, h5]
  have hu := ha.used
  have hused : slice (arrayOf d x) 0 x.entryBytes = slice (arrayOf d y) 0 y.entryBytes := by rw [hu, hbytes]
  rw [hm]
  simp [statusOf, errorOf, Copy.valid, headersConflict, hrel, Copy.used, hused]

/-- **A rebuild that succeeds leaves two agreeing copies** of the survivor's table. -/
theorem rebuild_agreeing {G : Faults} {v v' : World} {u : Unit} (hi : Intact r.sectors d (r.goodLba primary) x es)
    (h68 : 68 ≤ r.sectors) (hmbr : checkMbr r.mbr r.sectors = .ok ()) (hmlen : r.mbr.length = 512)
    (hgood : r.good primary = { sector := d.read (512 * r.goodLba primary) 512, header := some x, array := arrayOf d x })
    (hlba : r.arrayLba primary x < r.sectors) (hsec : dev.sectors = r.sectors) (hdev : dev.validate = .ok ())
    (hrun : r.rebuild dev workLen primary x G v = (.ok u, v')) :
    ∃ a b, Agreeing dev.sectors v'.disk a b es ∧ tableOf a es = tableOf x es ∧
      checkMbr (v'.disk.read 0 512) dev.sectors = .ok () := by
  have hsize := Device.sectors_pos hdev
  have hsector : (r.good primary).sector = d.read (512 * r.goodLba primary) 512 := by rw [hgood]
  have harr : (r.good primary).array = arrayOf d x := by rw [hgood]
  have hlen : (r.good primary).array.length = 512 * x.entrySectors := by rw [harr]; simp [arrayOf]
  have hcur := (survivor_place hi).1
  have hnew : r.newLba primary = if primary then 1 else r.sectors - 1 := rfl
  obtain ⟨y, _, h0, -⟩ := Io.bind_ok hrun
  obtain ⟨hy, -⟩ := Io.lift_ok h0
  rw [hsec] at hy
  obtain ⟨hfields, hp1, hp2⟩ := rebuilt_place hi ⟨h68, by omega⟩ hsector (by omega) hy
  have hapart : r.newLba primary + 1 ≤ r.arrayLba primary x ∨
      512 * r.arrayLba primary x + (r.good primary).array.length ≤ 512 * r.newLba primary := by
    rw [hlen]
    rcases Bool.eq_false_or_eq_true primary with hp | hp
    · have := hp1 hp
      have hn : r.newLba primary = 1 := by rw [hnew, if_pos hp]
      omega
    · have := hp2 hp
      have hn : r.newLba primary = r.sectors - 1 := by rw [hnew, if_neg (by simp [hp])]
      omega
  obtain ⟨ha1, ha2, ha3, ha4, ha5⟩ := rebuild_ok (by rw [hsector]; simp) hmlen hapart hrun
  rw [hlen] at ha1 ha4
  have hgoodArr : arrayOf v'.disk x = arrayOf d x := by rw [arrayOf, ha4, harr]
  have hgoodOn : Intact r.sectors v'.disk (r.goodLba primary) x es := by
    refine hi.congr ?_ hgoodArr
    rw [← hcur, ha3, hsector, hcur]
  have hnewArr : arrayOf v'.disk y = arrayOf d x := by
    have hye : y.entrySectors = x.entrySectors := by rw [hfields]; rfl
    have hyl : y.entriesLba = r.arrayLba primary x := by rw [hfields]
    rw [arrayOf, hye, hyl, ha1, harr]
  rw [hsector] at hy ha2
  obtain ⟨hnewOn, hagree⟩ := rebuilt_intact hi hfields hy ha2 hnewArr
  obtain ⟨g1, g2, g3, g4, g5, g6⟩ := (gptCopiesDiffer_iff x y).1 hagree
  have hagree' : gptCopiesDiffer y x = false :=
    (gptCopiesDiffer_iff y x).2 ⟨g1.symm, g2.symm, g3.symm, g4.symm, g5.symm, g6.symm⟩
  have hprot : Protective r.sectors (v'.disk.read 0 512) := by rw [ha5]; exact checkMbr_protective hmbr
  rw [ha5, hsec]
  -- the rebuilt copy stands in front when the primary was damaged, behind otherwise
  have hgl : r.goodLba primary = if primary then r.sectors - 1 else 1 := rfl
  rcases Bool.eq_false_or_eq_true primary with hp | hp
  · rw [hnew, if_pos hp] at hnewOn
    rw [hgl, if_pos hp] at hgoodOn
    refine ⟨y, x, ⟨hprot, hnewOn, hgoodOn, hagree', ?_⟩, ?_, hmbr⟩
    · rw [hnewArr, hgoodArr]
    · rw [tableOf, tableOf, g1, g2, g3, g4]
  · rw [hnew, if_neg (by simp [hp])] at hnewOn
    rw [hgl, if_neg (by simp [hp])] at hgoodOn
    refine ⟨x, y, ⟨hprot, hgoodOn, hnewOn, hagree, ?_⟩, rfl, hmbr⟩
    rw [hnewArr, hgoodArr]

end Repair

/-- **GPT repair is safe and complete.**  The report was read from any device under any faults and names one damaged copy;
the repair runs on any device, in any state, under any faults.  Then every sector it writes is unprotected, every protected
sector keeps its bytes, and when it reports success, a fresh report is healthy and a fresh plan has the surviving copy's
table. -/
theorem repair_safe {sha : Bytes → Bytes} {dev : Device} {F : Faults} {w w' : World} {r : Report} {primary : Bool}
    (hread : Report.read sha dev F w = (.ok r, w')) (hrep : r.repairable = .ok primary) (target : Device) (workLen : Nat)
    (G : Faults) (v : World) :
    ∃ x es, (r.good primary).header = some x ∧ readGptArray x (r.good primary).array = .ok es ∧
      (∀ p ∈ (r.repair sha target workLen G v).2.issued.drop v.issued.length, ∀ s, p.1 ≤ s → s < p.1 + p.2.length / 512 →
        ¬ Protected x s) ∧
      (∀ s, Protected x s → ∀ i, 512 * s ≤ i → i < 512 * (s + 1) →
        (r.repair sha target workLen G v).2.disk i = v.disk i) ∧
      ((r.repair sha target workLen G v).1 = .ok () →
        (∃ q, Reads (r.repair sha target workLen G v).2.disk (Report.read sha target) q ∧ q.status = .healthy) ∧
        ∀ scratchLen, maxArrayBytes * 2 ≤ scratchLen → scratchLen % 512 = 0 →
          ∃ q, Reads (r.repair sha target workLen G v).2.disk (Plan.read sha target scratchLen) q ∧
            q.table = tableOf x es ∧ q.live = es) := by
  obtain ⟨h68, hmbr, hmlen, x, es, hi, hgood⟩ := survivor hread hrep
  have hx : (r.good primary).header = some x := by rw [hgood]
  have hes : readGptArray x (r.good primary).array = .ok es := by rw [hgood]; exact hi.entries
  refine ⟨x, es, hx, hes, ?_⟩
  rcases @repair_cases sha target r primary x workLen hrep hx G v with
    ⟨e, v1, hrun, hw1⟩ | ⟨hsec, hdev, v1, hw1, hrun⟩
  · -- nothing was written
    rw [hrun, hw1.1]
    refine ⟨by simp, fun s _ i _ _ => hw1.2 i (fun p hp => by simp at hp), nofun⟩
  rw [hrun]
  have hsize := Device.sectors_pos hdev
  have hlba := arrayLba_lt hread primary x
  have hsector : (r.good primary).sector = w.disk.read (512 * r.goodLba primary) 512 := by rw [hgood]
  cases hy : parseHeader (rebuiltHeader (r.good primary).sector x (r.newLba primary) (r.arrayLba primary x)) (r.newLba primary)
      target.sectors with
  | error e =>
    have herr : r.rebuild target workLen primary x G v1 = (.error e, v1) := by
      unfold Report.rebuild
      rw [hy]
      rfl
    rw [herr, hw1.1]
    exact ⟨by simp, fun s _ i _ _ => hw1.2 i (fun p hp => by simp at hp), nofun⟩
  | ok y =>
    rw [hsec] at hy
    obtain ⟨hfields, hp1, hp2⟩ := rebuilt_place hi ⟨h68, by omega⟩ hsector (by omega) hy
    have hsafe := fun p hp => repairWrites_safe hi h68 hgood hp1 hp2 (p := p) hp
    obtain ⟨us, hpre, hwrote, -⟩ := Writes.rebuild r target workLen primary x G v1
    have hissued : (r.rebuild target workLen primary x G v1).2.issued.drop v.issued.length = us := by
      rw [hwrote.1, hw1.1, List.append_nil, List.drop_left]
    refine ⟨?_, ?_, fun hok => ?_⟩
    · intro p hp s hs1 hs2
      rw [hissued] at hp
      obtain ⟨n, hn, hprot⟩ := hsafe p (hpre.subset hp)
      exact hprot s hs1 (by omega)
    · intro s hs i hi1 hi2
      rw [hwrote.2 i (fun p hp => ?_), hw1.2 i (fun p hp => by simp at hp)]
      obtain ⟨n, hn, hprot⟩ := hsafe p (hpre.subset hp)
      have hnot := hprot s
      by_cases h1 : p.1 ≤ s
      · by_cases h2 : s < p.1 + n
        · exact absurd hs (hnot h1 h2)
        · omega
      · omega
    · generalize hv' : r.rebuild target workLen primary x G v1 = out at hok
      obtain ⟨res, v'⟩ := out
      simp only at hok
      subst hok
      obtain ⟨a, b, hab, htab, hm⟩ := rebuild_agreeing hi h68 hmbr hmlen hgood hlba hsec hdev hv'
      refine ⟨healthy_of_agreeing hdev (by omega) hab hm, fun scratchLen hl1 hl2 => ?_⟩
      obtain ⟨ht, hl⟩ := table_gptPlan hab (v'.disk.read 0 512) (sha (v'.disk.read 0 512 ++ v'.disk.read 512 512 ++
        v'.disk.read (512 * (target.sectors - 1)) 512 ++ (arrayOf v'.disk a ++ arrayOf v'.disk b)))
      exact ⟨_, Reads.planRead hdev ⟨hl1, hl2⟩ hab, by rw [ht, htab], hl⟩

/-! ## The small disk without its primary header -/

@[irreducible] def damagedDisk : Disk := smallDisk.write 512 (zeros 512)

theorem damagedDisk_off {off len : Nat} (h : off + len ≤ 512 ∨ 1024 ≤ off) : damagedDisk.read off len = smallDisk.read off len := by
  unfold damagedDisk
  exact Disk.read_congr (fun i hi hlt => Disk.write_off (by simp; omega))

theorem damagedDisk_primary : damagedDisk.read 512 512 = zeros 512 := by
  unfold damagedDisk
  have := Disk.read_write smallDisk 512 (zeros 512)
  rwa [length_zeros] at this

theorem smallDisk_mbr : smallDisk.read 0 512 = smallPlan.protectiveSector := by
  unfold smallDisk
  exact (onDisk_commitWrites (smallPlan.placed smallPlan_valid rfl) _).2

/-- The backup header of the small disk. -/
def smallBackup : Header := smallPlan.fields 4095 1 4093 smallPlan.checksum

def damagedReport : Report :=
  { sectors := 4096, primary := { sector := zeros 512, reason := some .badSignature }
    backup := { sector := damagedDisk.read (512 * 4095) 512, header := some smallBackup, array := arrayOf damagedDisk smallBackup }
    mbr := damagedDisk.read 0 512, mbrReason := none, status := .primaryDamaged, fingerprint := [] }

theorem damagedReport_good : damagedReport.good true =
    { sector := damagedDisk.read (512 * 4095) 512, header := some smallBackup, array := arrayOf damagedDisk smallBackup } := rfl

theorem damaged_intact : Intact 4096 damagedDisk 4095 smallBackup smallPlan.live :=
  small_agreeing.backup.congr (damagedDisk_off (.inr (by decide))) (damagedDisk_off (.inr (by decide)))

theorem damaged_report : Reads damagedDisk (Report.read (fun _ => []) smallDevice) damagedReport := by
  have hbad : parseHeader (zeros 512) 1 4096 = .error .badSignature := by decide +kernel
  have ha : Reads damagedDisk (readCopy smallDevice 1) { sector := zeros 512, reason := some .badSignature } := by
    refine Reads.bind (Reads.read (n := 1) rfl (by decide)) ?_
    simp only [Nat.mul_one, damagedDisk_primary]
    rw [show smallDevice.sectors = 4096 from rfl, hbad]
    exact Reads.pure _
  have hb := @Reads.readCopy smallDevice 4095 damagedDisk rfl (by decide) _ _ damaged_intact
  have hm : checkMbr (damagedDisk.read 0 512) smallDevice.sectors = .ok () := by
    rw [damagedDisk_off (.inl (by decide)), smallDisk_mbr]
    exact checkMbr_protectiveSector smallPlan
  have hr := @reads_report (fun _ => []) smallDevice damagedDisk rfl (by decide) _ _ ha hb
  rwa [hm] at hr

theorem damaged_place : ArrayPlaced { smallBackup with currentLba := 1, backupLba := smallBackup.currentLba, entriesLba := 2 } 1 4096 :=
  .inl ⟨rfl, rfl, by decide, by decide⟩

/-- The array, then the header, written and read back. -/
theorem damaged_repaired (w : World) (hw : w.disk = damagedDisk) :
    ∃ w', damagedReport.repair (fun _ => []) smallDevice 32768 noFaults w = (.ok (), w') := by
  have hparse := parse_rebuiltHeader damaged_intact (by decide) (by decide) (by decide) damaged_place
  have hhead : (rebuiltHeader (damagedDisk.read (512 * 4095) 512) smallBackup 1 2).length = 512 :=
    length_rebuiltHeader (Disk.length_read _ _ _)
  have harr : (arrayOf damagedDisk smallBackup).length = 512 * 2 := Disk.length_read _ _ _
  have hv : smallDevice.requireExclusive = .ok () := rfl
  obtain ⟨w1, hrun1, hw1⟩ := damaged_report w hw
  have hwork : 512 ≤ 32768 ∧ 32768 % 512 = 0 := by decide
  obtain ⟨w2, hw2, hrun2⟩ := written_run hv (by decide : 0 < 2 ∧ 2 + 2 ≤ 4096) harr hwork w1
  obtain ⟨w3, hw3, hrun3⟩ := written_run hv (by decide : 0 < 1 ∧ 1 + 1 ≤ 4096) hhead hwork w2
  have hoff : ∀ {off len : Nat}, off + len ≤ 512 ∨ 2048 ≤ off → w3.disk.read off len = damagedDisk.read off len := by
    intro off len h
    rw [hw3, hw2, hw1]
    exact Disk.read_congr (fun i h1 h2 => (Disk.write_off (by rw [hhead]; omega)).trans (Disk.write_off (by rw [harr]; omega)))
  obtain ⟨w4, hrun4, hw4⟩ := @Reads.verify smallDevice w3.disk 4095 1 32768 _ rfl (by decide) (Disk.length_read _ _ _)
    (by decide) (hoff (.inr (by decide))) w3 rfl
  obtain ⟨w5, hrun5, hw5⟩ := @Reads.verify smallDevice w3.disk 4093 2 32768 _ rfl (by decide) harr (by decide)
    (hoff (.inr (by decide))) w4 hw4
  obtain ⟨w6, hrun6, -⟩ := @Reads.verify smallDevice w3.disk 0 1 32768 _ rfl (by decide) (Disk.length_read _ _ _) (by decide)
    (hoff (.inl (by decide))) w5 hw5
  refine ⟨w6, ?_⟩
  unfold Report.repair
  rw [Io.bind_run (show Io.lift damagedReport.repairable noFaults w = (.ok true, w) from rfl),
    Io.bind_run (show Io.lift smallDevice.requireExclusive noFaults w = (.ok (), w) from rfl),
    Io.bind_run (show Io.refuse (smallDevice.sectors != damagedReport.sectors || decide (32768 < 512) || 32768 % 512 != 0) _
      noFaults w = (.ok (), w) from rfl), Io.bind_run hrun1,
    Io.bind_run (show Io.refuse (damagedReport.fingerprint != damagedReport.fingerprint ||
      damagedReport.status != damagedReport.status) _ noFaults w1 = (.ok (), w1) from rfl)]
  show damagedReport.rebuild smallDevice 32768 true smallBackup noFaults w1 = _
  rw [Report.rebuild, damagedReport_good]
  dsimp only
  rw [show damagedReport.newLba true = 1 from rfl, show damagedReport.arrayLba true smallBackup = 2 from rfl,
    show smallDevice.sectors = 4096 from rfl, hparse, Io.bind_run (show Io.lift (.ok _) noFaults w1 = (.ok _, w1) from rfl),
    hrun2, hrun3, show smallBackup.currentLba = 4095 from rfl, show smallBackup.entriesLba = 4093 from rfl,
    Io.bind_run hrun4, Io.bind_run hrun5, show damagedReport.mbr = damagedDisk.read 0 512 by
      simp only [damagedReport]]
  rw [Nat.mul_zero, Nat.mul_one] at hrun6
  exact hrun6

theorem repair_safe_damaged : ∃ w', Report.read (fun _ => []) smallDevice noFaults { disk := damagedDisk } = (.ok damagedReport, w') ∧
    damagedReport.repairable = .ok true ∧ (damagedReport.good true).header = some smallBackup ∧
    let run := damagedReport.repair (fun _ => []) smallDevice 32768 noFaults { disk := damagedDisk }
    (∀ s, Protected smallBackup s → ∀ i, 512 * s ≤ i → i < 512 * (s + 1) → run.2.disk i = damagedDisk i) ∧ run.1 = .ok () ∧
    (∃ q, Reads run.2.disk (Report.read (fun _ => []) smallDevice) q ∧ q.status = .healthy) ∧
    ∃ q, Reads run.2.disk (Plan.read (fun _ => []) smallDevice 32768) q ∧ q.live.map (fun e => (e.first, e.count)) =
      [(1024, 8), (0, 0), (3072, 8), (0, 0), (0, 0), (0, 0), (0, 0), (0, 0)] := by
  obtain ⟨w', hread, -⟩ := damaged_report { disk := damagedDisk } rfl
  obtain ⟨x, es, hx, hes, -, hkeep, hok⟩ := repair_safe hread rfl smallDevice 32768 noFaults { disk := damagedDisk }
  obtain ⟨v', hrun⟩ := damaged_repaired { disk := damagedDisk } rfl
  obtain rfl : smallBackup = x := Option.some.inj hx
  rw [damagedReport_good] at hes
  dsimp only at hes
  obtain rfl : smallPlan.live = es := Except.ok.inj (damaged_intact.entries.symm.trans hes)
  obtain ⟨hhealthy, hplan⟩ := hok (by rw [hrun])
  obtain ⟨q, hq, -, hlive⟩ := hplan 32768 (by decide) (by decide)
  refine ⟨w', hread, rfl, rfl, hkeep, by rw [hrun], hhealthy, q, hq, ?_⟩
  rw [hlive]
  decide +kernel

end Gpt
end R4
