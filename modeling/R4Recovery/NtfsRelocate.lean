import R4Recovery.NtfsShrink
/-!
# NtfsRelocate — the new bitmap of a resized volume

`fillBitmap` and the part of `execute` that moves the bitmap.  The new bitmap is made chunk by chunk from the old one, once
to be written and once more to be verified.  Its clusters are none of the old bitmap's, so the second pass reads what the
first one read.
-/
namespace R4

/-- What a program writes when it starts in one world. -/
def WritesAt {ε α : Type} (x : Io ε α) (ws : List (Nat × Bytes)) (F : Faults) (w : World) : Prop :=
  ∃ us, us <+: ws ∧ Wrote us w (x F w).2 ∧ ∀ a, (x F w).1 = .ok a → us = ws

theorem WritesAt.bind {ε α β : Type} {x : Io ε α} {f : α → Io ε β} {u v : List (Nat × Bytes)} {F : Faults} {w : World}
    (hx : WritesAt x u F w) (hf : ∀ a w1, x F w = (.ok a, w1) → WritesAt (f a) v F w1) : WritesAt (x >>= f) (u ++ v) F w := by
  obtain ⟨us, hpre, hw, hok⟩ := hx
  rcases hrun : x F w with ⟨e | a, w1⟩
  · have hrun' : (x >>= f) F w = (.error e, w1) := by
      change Io.bind x f F w = _
      unfold Io.bind
      rw [hrun]
    rw [hrun] at hw
    rw [WritesAt, hrun']
    exact ⟨us, hpre.trans (List.prefix_append u v), hw, fun _ h => by cases h⟩
  · rw [hrun] at hw hok
    obtain rfl := hok a rfl
    obtain ⟨vs, hpre', hw', hok'⟩ := hf a w1 hrun
    rw [WritesAt, Io.bind_run hrun]
    exact ⟨us ++ vs, (List.prefix_append_right_inj us).2 hpre', hw.trans hw', fun b hb => by rw [hok' b hb]⟩

namespace Ntfs

open Gpt (getLe alignForward)
open Bitmap

section Passes

variable (plan : ResizePlan) (volume : Volume)

/-- What the old bitmap has of the bytes from `start` on. -/
def ResizePlan.readOld (start len : Nat) : Io ResizeError Bytes :=
  let oldPadded := alignForward plan.bitmap.bytes 512
  if start < oldPadded then plan.bitmap.read volume start (min len (oldPadded - start)) else pure []

/-- The edits of `fillBitmap`: what is behind the old or the new end and what the old bitmap had is free, what the new one
has and the padding is in use. -/
def ResizePlan.editBitmap (base : Nat) (bytes : Bytes) : Bytes :=
  let bytes := changeRange bytes base (min plan.oldClusters plan.newClusters) (base + bytes.length * 8) false
  let bytes := clearRuns base plan.bitmap.runs bytes
  let bytes := changeRange bytes base plan.bitmapLcn (plan.bitmapLcn + plan.bitmapClusters) true
  changeRange bytes base plan.newClusters (plan.bitmapBytes * 8) true

/-- `len` bytes of the new bitmap from byte `start` on. -/
def ResizePlan.fillBitmap (start len : Nat) : Io ResizeError Bytes := do
  let part ← plan.readOld volume start len
  return plan.editBitmap (start * 8) (part ++ zeros (len - part.length))

/-- A pass over the new bitmap in chunks of at most `dataLen` bytes. -/
def ResizePlan.bitmapPass (dataLen : Nat) (act : Nat → Bytes → Io ResizeError Unit) : Nat → Nat → Io ResizeError Unit
  | 0, _ => pure ()
  | fuel + 1, done =>
    if plan.bitmapClusters * 4096 ≤ done then pure ()
    else do
      let bytes ← plan.fillBitmap volume done (min dataLen (plan.bitmapClusters * 4096 - done))
      act done bytes
      ResizePlan.bitmapPass dataLen act fuel (done + bytes.length)

variable (workLen : Nat)

def ResizePlan.writeBitmap : Io ResizeError Unit :=
  plan.bitmapPass volume (workLen / 2) (fun done bytes => volume.write (plan.bitmapLcn * 8 + done / 512) bytes)
    (plan.bitmapClusters * 4096) 0

def ResizePlan.verifyBitmap : Io ResizeError Unit :=
  plan.bitmapPass volume (workLen / 2)
    (fun done bytes => volume.verify (plan.bitmapLcn * 8 + done / 512) bytes (workLen - workLen / 2))
    (plan.bitmapClusters * 4096) 0

/-- `execute` as far as it moves the bitmap: its checks of the request, its region, and the two passes. -/
def ResizePlan.relocate (target : Device) : Io ResizeError Unit := do
  Io.lift (target.requireExclusive.mapError .device)
  Io.refuse (decide (workLen < 32768) || workLen % 1024 != 0 || plan.newSectors == plan.oldSectors) (.device .geometry)
  let volume ← Io.lift (Volume.ofRegion target plan.first (max plan.oldSectors plan.newSectors))
  plan.writeBitmap volume workLen
  volume.flush
  plan.verifyBitmap volume workLen

end Passes

/-! ## What the new bitmap says -/

/-- A cluster of the new bitmap's own. -/
def ResizePlan.inDestination (plan : ResizePlan) (c : Nat) : Prop :=
  plan.bitmapLcn ≤ c ∧ c < plan.bitmapLcn + plan.bitmapClusters

instance (plan : ResizePlan) (c : Nat) : Decidable (plan.inDestination c) := inferInstanceAs (Decidable (_ ∧ _))

/-- A bit of the new bitmap, from the same bit of the old one. -/
def newBit (plan : ResizePlan) (old : Bool) (c : Nat) : Bool :=
  if plan.newClusters ≤ c ∧ c < plan.bitmapBytes * 8 then true
  else if plan.inDestination c then true
  else decide (c < min plan.oldClusters plan.newClusters) && old && !plan.bitmap.owns c

/-- The whole of the new bitmap, from the disk that has the old one. -/
def newBitmap (plan : ResizePlan) (d : Disk) : Bytes :=
  pack (fun c => newBit plan (bitAt (oldBitmap plan d) c) c) (plan.bitmapClusters * 4096)

theorem length_newBitmap (plan : ResizePlan) (d : Disk) : (newBitmap plan d).length = plan.bitmapClusters * 4096 :=
  length_pack _ _

/-- A plan as `prepare` leaves it when the size changes. -/
structure Placed (plan : ResizePlan) : Prop where
  fixed : plan.bitmap.Fixed plan.oldClusters
  bytes : plan.oldClusters ≤ 8 * plan.bitmap.bytes
  inside : plan.bitmapLcn + plan.bitmapClusters ≤ plan.newClusters
  capacity : plan.bitmapBytes ≤ plan.bitmapClusters * 4096
  whole : plan.newClusters ≤ 8 * plan.bitmapBytes
  apart : ∀ c, plan.inDestination c → plan.bitmap.owns c = false

variable {plan : ResizePlan} {volume : Volume} {F : Faults} {w w' : World} {d : Disk}

@[simp] theorem length_editBitmap (base : Nat) (bytes : Bytes) : (plan.editBitmap base bytes).length = bytes.length := by
  simp [ResizePlan.editBitmap]

/-- **The edits, bit by bit.** -/
theorem bitAt_editBitmap (hplan : Placed plan) {base : Nat} (hbase : base % 8 = 0) {bytes : Bytes} {j : Nat}
    (hj : j < 8 * bytes.length) : bitAt (plan.editBitmap base bytes) j = newBit plan (bitAt bytes j) (base + j) := by
  have hcut : j < 8 * (changeRange bytes base (min plan.oldClusters plan.newClusters) (base + bytes.length * 8) false).length := by
    rw [length_changeRange]
    exact hj
  have hclear := bitAt_clearRuns hbase plan.bitmap.runs _ hcut
  have hown : (∀ run ∈ plan.bitmap.runs, inRun (base + j) run = false) ↔ plan.bitmap.owns (base + j) = false := by
    rw [← Bool.not_eq_true, owns_iff hplan.fixed]
    simp
  unfold ResizePlan.editBitmap newBit
  dsimp only
  rw [bitAt_changeRange hbase _ _ _ (by rw [length_changeRange, length_clearRuns]; exact hcut),
    bitAt_changeRange hbase _ _ _ (by rw [length_clearRuns]; exact hcut)]
  by_cases h1 : plan.newClusters ≤ base + j ∧ base + j < plan.bitmapBytes * 8
  · rw [if_pos h1, if_pos h1]
  rw [if_neg h1, if_neg h1]
  by_cases h2 : plan.bitmapLcn ≤ base + j ∧ base + j < plan.bitmapLcn + plan.bitmapClusters
  · rw [if_pos h2, if_pos (show plan.inDestination _ from h2)]
  rw [if_neg h2, if_neg (show ¬ plan.inDestination _ from h2), Bool.eq_iff_iff, hclear, hown,
    bitAt_changeRange hbase _ _ _ hj, Bool.and_eq_true, Bool.and_eq_true, decide_eq_true_eq, Bool.not_eq_true']
  by_cases h3 : base + j < min plan.oldClusters plan.newClusters
  · rw [if_neg (by omega)]
    exact ⟨fun h => ⟨⟨h3, h.1⟩, h.2⟩, fun h => ⟨h.1.2, h.2⟩⟩
  · rw [if_pos (by omega)]
    exact ⟨fun h => absurd h.1 (by decide), fun h => absurd h.1.1 h3⟩

theorem newBit_congr {a b : Bool} {c : Nat} (h : c < plan.oldClusters → a = b) : newBit plan a c = newBit plan b c := by
  unfold newBit
  by_cases hc : c < plan.oldClusters
  · rw [h hc]
  · have hmin : ¬ c < min plan.oldClusters plan.newClusters := by omega
    simp [hmin]

theorem readOld_ok {start len : Nat} {part : Bytes} (hplan : Placed plan) (hvolume : volume.first = plan.first)
    (h : plan.readOld volume start len F w = (.ok part, w')) :
    (part ++ zeros (len - part.length)).length = len ∧ w'.disk = w.disk ∧
      ∀ j, j < 8 * len → start * 8 + j < plan.oldClusters →
        bitAt (part ++ zeros (len - part.length)) j = bitAt (oldBitmap plan w.disk) (start * 8 + j) := by
  have hpad := alignForward_512 plan.bitmap.bytes
  have hold := hplan.bytes
  rw [List.length_append, length_zeros]
  unfold ResizePlan.readOld at h
  split at h
  · obtain ⟨hslice, hdisk, hfit⟩ := Map.read_ok h
    rw [hvolume] at hslice hfit
    have hlen : part.length = min len (alignForward plan.bitmap.bytes 512 - start) := by
      rw [hslice]
      rcases Nat.eq_zero_or_pos (min len (alignForward plan.bitmap.bytes 512 - start)) with h0 | h0
      · rw [h0, slice, List.take_zero]
        rfl
      · exact length_slice (hfit h0)
    refine ⟨by omega, hdisk, fun j hj hc => ?_⟩
    rw [bitAt_append_left _ (by omega), hslice, bitAt_slice (by omega), Nat.mul_comm start]
    rfl
  · obtain ⟨rfl, rfl⟩ := Io.pure_ok h
    exact ⟨by simp, rfl, fun j hj hc => by omega⟩

/-- **A chunk of the new bitmap**, on any disk that has the old one. -/
theorem fillBitmap_ok {start len : Nat} {bytes : Bytes} (hplan : Placed plan) (hvolume : volume.first = plan.first)
    (hd : oldBitmap plan w.disk = oldBitmap plan d) (hin : start + len ≤ plan.bitmapClusters * 4096)
    (h : plan.fillBitmap volume start len F w = (.ok bytes, w')) :
    bytes = slice (newBitmap plan d) start len ∧ bytes.length = len ∧ w'.disk = w.disk := by
  unfold ResizePlan.fillBitmap at h
  obtain ⟨part, w1, hpart, h⟩ := Io.bind_ok h
  obtain ⟨rfl, rfl⟩ := Io.pure_ok h
  obtain ⟨hlen, hdisk, hbits⟩ := readOld_ok hplan hvolume hpart
  have hsize : (plan.editBitmap (start * 8) (part ++ zeros (len - part.length))).length = len := by
    rw [length_editBitmap, hlen]
  refine ⟨?_, hsize, hdisk⟩
  have hend : start + (plan.editBitmap (start * 8) (part ++ zeros (len - part.length))).length ≤
      plan.bitmapClusters * 4096 := by rw [hsize]; exact hin
  have hpack := eq_slice_pack (fun c => newBit plan (bitAt (oldBitmap plan d) c) c) hend (fun j hj => ?_)
  · rwa [hsize] at hpack
  · rw [hsize] at hj
    rw [bitAt_editBitmap hplan (Nat.mul_mod_left _ _) (by rw [hlen]; exact hj), Nat.mul_comm 8 start]
    exact newBit_congr (fun hc => by rw [hbits j hj hc, hd])

/-! ## The placement -/

theorem inUse_of_decode {raw record : Bytes} {number : Nat} (h : decodeRecord raw number = .ok record) : inUse raw := by
  obtain ⟨hfix, header, hparse, huse⟩ := decodeRecord_ok h
  have hflags : header.flags = getLe record 0x16 2 := by
    unfold FileRecordHeader.parse at hparse
    split at hparse
    · cases hparse
    · split at hparse
      · cases hparse
      · dsimp only at hparse
        split at hparse
        · cases hparse
        · split at hparse
          · cases hparse
          · cases hparse
            rfl
  unfold FileRecordHeader.inUse at huse
  rw [hflags, applyFixups_keeps (by omega) hfix] at huse
  unfold inUse
  simpa using huse

theorem own_allocated (hsurvey : Surveyed plan d) (hseen : RecordSeen plan d 6) {c : Nat} (hown : plan.bitmap.owns c = true) :
    bitAt (oldBitmap plan d) c = true := by
  obtain ⟨record, attr, hdecode, hfind, hruns⟩ := hsurvey.own
  obtain ⟨run, hrun, hin⟩ := (owns_iff hsurvey.fixed c).1 hown
  obtain ⟨lcn, hlcn, -⟩ := hsurvey.fixed.run run hrun
  have hattr : attr ∈ recordAttributes (rawRecord plan d 6) := by
    rw [recordAttributes, (decodeRecord_ok hdecode).1]
    exact findOnly_ok hfind
  obtain ⟨-, hset⟩ := (hseen (inUse_of_decode hdecode)).2 attr hattr run (by rw [hruns]; exact hrun) lcn hlcn
  rw [inRun, hlcn, Option.getD_some, Bool.and_eq_true, decide_eq_true_eq, decide_eq_true_eq] at hin
  exact hset c hin.1 hin.2

/-- **What is prepared is placed.** -/
theorem prepare_placed {disk : Device} {layout : Gpt.Plan} {number oldSectors workLen : Nat}
    (h : ResizePlan.prepare disk layout number oldSectors workLen F w = (.ok plan, w'))
    (hchange : plan.newSectors ≠ plan.oldSectors) : Placed plan := by
  by_cases hshrink : plan.newSectors < plan.oldSectors
  · obtain ⟨base, limits, lcn, hsurvey, hquery, hlcn, hlimit, rfl⟩ := prepare_shrunk h hshrink
    have hshrink : base.newSectors < base.oldSectors := hshrink
    have hbound := hquery.bound lcn base.newSectors hlcn hlimit hshrink
    have hcl := hsurvey.clusters
    have hnew := hsurvey.bitmapBytes
    have hold := hsurvey.bytes
    have hfit := hsurvey.fixed.bytes
    unfold alignForward at hnew hold
    refine ⟨hsurvey.fixed, by dsimp only; omega, by dsimp only; omega, by dsimp only; omega, by dsimp only; omega, fun c hc => ?_⟩
    rw [← Bool.not_eq_true]
    intro hown
    have hset := own_allocated hsurvey (hquery.seen 6 hsurvey.table) hown
    rw [(hquery.free lcn hlcn c hc.1 hc.2).2] at hset
    cases hset
  · obtain ⟨base, volume, w1, hsurvey, hvolume, hwork, hd, hplace⟩ := prepare_ok h
    unfold ResizePlan.place at hplace
    split at hplace
    · obtain ⟨limits, w2, h2, hplace⟩ := Io.bind_ok hplace
      obtain ⟨_, w3, h3, hplace⟩ := Io.bind_ok hplace
      obtain ⟨rfl, rfl⟩ := Io.pure_ok hplace
      dsimp only at hshrink hchange
      omega
    · obtain ⟨_, w2, h2, hplace⟩ := Io.bind_ok hplace
      obtain ⟨rfl, rfl⟩ := Io.pure_ok hplace
      obtain ⟨hlcn, hcount, hin⟩ := hsurvey.grown (by omega)
      have hold := hsurvey.bytes
      have hcl := hsurvey.clusters
      have hnew := hsurvey.bitmapBytes
      unfold alignForward at hold hnew
      refine ⟨hsurvey.fixed, by omega, hin, by omega, by omega, fun c hc => ?_⟩
      rw [← Bool.not_eq_true, owns_iff hsurvey.fixed]
      rintro ⟨run, hrun, hown⟩
      obtain ⟨lcn, hrunLcn, hend⟩ := hsurvey.fixed.run run hrun
      rw [inRun, hrunLcn, Option.getD_some, Bool.and_eq_true, decide_eq_true_eq, decide_eq_true_eq] at hown
      have := hc.1
      omega

/-! ## The two passes -/

/-- The writes of a pass, from the bitmap they are cut from. -/
def ResizePlan.chunks (plan : ResizePlan) (new : Bytes) (dataLen : Nat) : Nat → Nat → List (Nat × Bytes)
  | 0, _ => []
  | fuel + 1, done =>
    if plan.bitmapClusters * 4096 ≤ done then []
    else
      let bytes := slice new done (min dataLen (plan.bitmapClusters * 4096 - done))
      (plan.first + (plan.bitmapLcn * 8 + done / 512), bytes) ::
        ResizePlan.chunks plan new dataLen fuel (done + min dataLen (plan.bitmapClusters * 4096 - done))

theorem mem_chunks {new : Bytes} {dataLen : Nat} {p : Nat × Bytes} : ∀ {fuel done : Nat},
    p ∈ plan.chunks new dataLen fuel done → clusterAt plan.first plan.bitmapLcn ≤ 512 * p.1 ∧
      512 * p.1 + p.2.length ≤ clusterAt plan.first (plan.bitmapLcn + plan.bitmapClusters)
  | 0, done, h => by cases h
  | fuel + 1, done, h => by
    unfold ResizePlan.chunks at h
    split at h
    · cases h
    · rename_i hin
      rcases List.mem_cons.1 h with rfl | h
      · have hlen : (slice new done (min dataLen (plan.bitmapClusters * 4096 - done))).length ≤
            min dataLen (plan.bitmapClusters * 4096 - done) := by simp [slice]
        unfold clusterAt
        dsimp only
        omega
      · exact mem_chunks h

theorem oldBitmap_same (hplan : Placed plan) {d' : Disk}
    (h : ∀ i, i < clusterAt plan.first plan.bitmapLcn ∨ clusterAt plan.first (plan.bitmapLcn + plan.bitmapClusters) ≤ i →
      d' i = d i) : oldBitmap plan d' = oldBitmap plan d := by
  refine List.flatMap_congr (fun run hrun => Disk.read_congr (fun i h1 h2 => ?_))
  obtain ⟨lcn, hlcn, -⟩ := hplan.fixed.run run hrun
  rw [hlcn, Option.getD_some] at h1 h2
  unfold clusterAt at h1 h2 h
  refine h i ?_
  by_contra hin
  have hdest : plan.inDestination ((i - 512 * plan.first) / 4096) := ⟨by omega, by omega⟩
  have hown : plan.bitmap.owns ((i - 512 * plan.first) / 4096) = true := by
    refine (owns_iff hplan.fixed _).2 ⟨run, hrun, ?_⟩
    rw [inRun, hlcn, Option.getD_some, Bool.and_eq_true, decide_eq_true_eq, decide_eq_true_eq]
    omega
  rw [hplan.apart _ hdest] at hown
  cases hown

theorem oldBitmap_wrote (hplan : Placed plan) {new : Bytes} {dataLen fuel done : Nat} {us : List (Nat × Bytes)}
    (hus : us <+: plan.chunks new dataLen fuel done) (h : Wrote us w w') : oldBitmap plan w'.disk = oldBitmap plan w.disk := by
  refine oldBitmap_same hplan (fun i hi => h.2 i (fun p hp => ?_))
  have := mem_chunks (hus.subset hp)
  omega

theorem writes_readLoop (map : Map) : ∀ fuel off len : Nat, Writes (map.readLoop volume fuel off len) []
  | 0, _, _ => Writes.pure _
  | fuel + 1, off, len => by
    unfold Map.readLoop
    refine Writes.ite (fun _ => Writes.pure _) (fun _ => ?_)
    split
    · exact Writes.throw _ _
    · split
      · exact Writes.throw _ _
      · exact Writes.bindNil (writes_read _ _ _) (fun _ => Writes.bindNil (writes_readLoop map fuel _ _) (fun _ => Writes.pure _))

theorem writes_fillBitmap (start len : Nat) : Writes (plan.fillBitmap volume start len) [] := by
  refine Writes.bindNil ?_ (fun _ => Writes.pure _)
  unfold ResizePlan.readOld
  dsimp only
  exact Writes.ite (fun _ => Writes.bindNil (Writes.refuse _ _) (fun _ => writes_readLoop _ _ _ _)) (fun _ => Writes.pure _)

theorem writes_write (lba : Nat) (data : Bytes) : Writes (volume.write lba data) [(volume.first + lba, data)] :=
  Writes.bindNil (Writes.lift _) (fun _ => Writes.bindNil (Writes.refuse _ _) (fun _ => Writes.bindNil (Writes.lift _)
    (fun _ => Writes.writeRaw _ _ _)))

theorem writes_flush : Writes volume.flush [] := Writes.bindNil (Writes.lift _) (fun _ => Writes.step _)

theorem writes_verify (lba : Nat) (expected : Bytes) (scratchLen : Nat) : Writes (volume.verify lba expected scratchLen) [] :=
  Writes.bindNil (Writes.refuse _ _) (fun _ => Writes.bindNil (Writes.lift _) (fun _ => Writes.bindNil (writes_read _ _ _)
    (fun _ => Writes.refuse _ _)))

theorem writes_verifyPass (dataLen scratchLen : Nat) : ∀ fuel done : Nat, Writes (plan.bitmapPass volume dataLen
    (fun done bytes => volume.verify (plan.bitmapLcn * 8 + done / 512) bytes scratchLen) fuel done) []
  | 0, _ => Writes.pure _
  | fuel + 1, done => by
    unfold ResizePlan.bitmapPass
    exact Writes.ite (fun _ => Writes.pure _) (fun _ => Writes.bindNil (writes_fillBitmap _ _) (fun bytes =>
      Writes.bindNil (writes_verify _ _ _) (fun _ => writes_verifyPass dataLen scratchLen fuel _)))

/-- **The write pass** hands over the chunks of the new bitmap. -/
theorem writePass_ok (hplan : Placed plan) (hvolume : volume.first = plan.first) {dataLen : Nat} : ∀ (fuel done : Nat) (w : World),
    oldBitmap plan w.disk = oldBitmap plan d → WritesAt (plan.bitmapPass volume dataLen
      (fun done bytes => volume.write (plan.bitmapLcn * 8 + done / 512) bytes) fuel done)
      (plan.chunks (newBitmap plan d) dataLen fuel done) F w
  | 0, done, w, _ => Writes.pure () F w
  | fuel + 1, done, w, hd => by
    unfold ResizePlan.bitmapPass ResizePlan.chunks
    split
    · exact Writes.pure () F w
    · rename_i hin
      refine WritesAt.bind (writes_fillBitmap _ _ F w) (v := _ :: _) (fun bytes w1 hfill => ?_)
      obtain ⟨hbytes, hlen, hd1⟩ := fillBitmap_ok hplan hvolume hd (by omega) hfill
      rw [← hd1] at hd
      rw [← hbytes]
      refine WritesAt.bind (u := [_]) (v := plan.chunks _ _ _ _) ?_ (fun _ w2 hwrite => ?_)
      · rw [← hvolume]
        exact writes_write _ _ F w1
      · rw [hlen]
        refine writePass_ok hplan hvolume fuel _ w2 (hd ▸ oldBitmap_same hplan (fun i hi => ?_))
        refine ((writes_write _ _).run hwrite).2 i (fun p hp => ?_)
        rw [List.mem_singleton.1 hp, hvolume]
        unfold clusterAt at hi
        dsimp only
        omega

theorem Volume.verify_ok {lba scratchLen : Nat} {expected : Bytes} {u : Unit}
    (h : volume.verify lba expected scratchLen F w = (.ok u, w')) :
    w.disk.read (512 * (volume.first + lba)) expected.length = expected ∧ w'.disk = w.disk := by
  obtain ⟨_, w1, h1, h⟩ := Io.bind_ok h
  obtain ⟨-, rfl⟩ := Io.refuse_ok h1
  obtain ⟨_, w2, h2, h⟩ := Io.bind_ok h
  obtain ⟨-, rfl⟩ := Io.lift_ok h2
  obtain ⟨b, w3, h3, h⟩ := Io.bind_ok h
  obtain ⟨hb, hd⟩ := Volume.read_ok h3
  obtain ⟨hcmp, rfl⟩ := Io.refuse_ok h
  exact ⟨by rw [← hb]; simpa using hcmp, hd⟩

theorem ofRegion_first {parent : Device} {first count : Nat} (h : Volume.ofRegion parent first count = .ok volume) :
    volume.first = first := by
  obtain ⟨_, -, h⟩ := Except.bind_ok.1 h
  cases h
  rfl

/-- **The verify pass** compares with the same bytes. -/
theorem verifyPass_ok (hplan : Placed plan) (hvolume : volume.first = plan.first) {dataLen scratchLen : Nat} (hpos : 0 < dataLen)
    (halign : dataLen % 512 = 0) : ∀ (fuel done : Nat) (w w' : World) (u : Unit),
    oldBitmap plan w.disk = oldBitmap plan d → done % 512 = 0 → done ≤ plan.bitmapClusters * 4096 →
    plan.bitmapClusters * 4096 ≤ done + fuel → plan.bitmapPass volume dataLen
      (fun done bytes => volume.verify (plan.bitmapLcn * 8 + done / 512) bytes scratchLen) fuel done F w = (.ok u, w') →
    w'.disk = w.disk ∧ w.disk.read (clusterAt plan.first plan.bitmapLcn + done) (plan.bitmapClusters * 4096 - done) =
      slice (newBitmap plan d) done (plan.bitmapClusters * 4096 - done)
  | 0, done, w, w', u, hd, hmod, hle, hfuel, h => by
    obtain ⟨-, rfl⟩ := Io.pure_ok h
    rw [Nat.sub_eq_zero_of_le (by omega)]
    exact ⟨rfl, by simp [slice, Disk.read]⟩
  | fuel + 1, done, w, w', u, hd, hmod, hle, hfuel, h => by
    unfold ResizePlan.bitmapPass at h
    split at h
    · obtain ⟨-, rfl⟩ := Io.pure_ok h
      rw [Nat.sub_eq_zero_of_le (by omega)]
      exact ⟨rfl, by simp [slice, Disk.read]⟩
    · rename_i hin
      obtain ⟨bytes, w1, hfill, h⟩ := Io.bind_ok h
      obtain ⟨hbytes, hlen, hd1⟩ := fillBitmap_ok hplan hvolume hd (by omega) hfill
      obtain ⟨_, w2, hverify, h⟩ := Io.bind_ok h
      obtain ⟨hread, hd2⟩ := Volume.verify_ok hverify
      generalize hcount : min dataLen (plan.bitmapClusters * 4096 - done) = len at hfill hbytes hlen
      rw [hlen] at h
      obtain ⟨hd', hrest⟩ := verifyPass_ok hplan hvolume hpos halign fuel (done + len) w2 w' u (by rw [hd2, hd1, hd]) (by omega)
        (by omega) (by omega) h
      have hsum : plan.bitmapClusters * 4096 - done = len + (plan.bitmapClusters * 4096 - (done + len)) := by omega
      have hat : 512 * (volume.first + (plan.bitmapLcn * 8 + done / 512)) = clusterAt plan.first plan.bitmapLcn + done := by
        rw [hvolume, clusterAt]
        omega
      rw [hlen, hd1, hat] at hread
      rw [hd2, hd1] at hrest hd'
      refine ⟨hd', ?_⟩
      rw [hsum, Disk.read_append, slice_append, hread, ← hbytes, Nat.add_assoc, hrest]

/-- **Any run of the relocation** hands over chunks of the new bitmap in order; a run that succeeds leaves all of it. -/
theorem relocate_run (hplan : Placed plan) (target : Device) (workLen : Nat) (F : Faults) (w : World) :
    WritesAt (plan.relocate workLen target)
        (plan.chunks (newBitmap plan w.disk) (workLen / 2) (plan.bitmapClusters * 4096) 0) F w ∧
      ∀ u w', plan.relocate workLen target F w = (.ok u, w') →
        w'.disk.read (clusterAt plan.first plan.bitmapLcn) (plan.bitmapClusters * 4096) = newBitmap plan w.disk := by
  constructor
  · refine WritesAt.bind (u := []) (Writes.lift _ F w) (fun _ w1 h1 => ?_)
    obtain ⟨-, rfl⟩ := Io.lift_ok h1
    refine WritesAt.bind (u := []) (Writes.refuse _ _ F w) (fun _ w2 h2 => ?_)
    obtain ⟨-, rfl⟩ := Io.refuse_ok h2
    refine WritesAt.bind (u := []) (Writes.lift _ F w) (fun volume w3 h3 => ?_)
    obtain ⟨hregion, rfl⟩ := Io.lift_ok h3
    rw [← List.append_nil (plan.chunks _ _ _ _)]
    exact WritesAt.bind (writePass_ok hplan (ofRegion_first hregion) _ _ _ rfl) (fun _ w4 _ =>
      Writes.bindNil writes_flush (fun _ => writes_verifyPass _ _ _ _) F w4)
  · intro u w' h
    obtain ⟨_, w1, h1, h⟩ := Io.bind_ok h
    obtain ⟨-, rfl⟩ := Io.lift_ok h1
    obtain ⟨_, w2, h2, h⟩ := Io.bind_ok h
    obtain ⟨hbad, rfl⟩ := Io.refuse_ok h2
    obtain ⟨volume, w3, h3, h⟩ := Io.bind_ok h
    obtain ⟨hregion, rfl⟩ := Io.lift_ok h3
    obtain ⟨_, w4, hwrite, h⟩ := Io.bind_ok h
    obtain ⟨_, w5, hflush, h⟩ := Io.bind_ok h
    simp only [Bool.or_eq_false_iff, decide_eq_false_iff_not, bne_eq_false_iff_eq] at hbad
    obtain ⟨us, hpre, hwrote, -⟩ := writePass_ok hplan (ofRegion_first hregion) (plan.bitmapClusters * 4096) 0 w
      (F := F) rfl
    have hsame := oldBitmap_wrote hplan hpre hwrote
    rw [show (plan.bitmapPass volume (workLen / 2) _ _ 0 F w) = _ from hwrite] at hsame
    have hd5 := disk_kept writes_flush hflush
    obtain ⟨hd', hread⟩ := verifyPass_ok (d := w.disk) hplan (ofRegion_first hregion) (by omega) (by omega) _ 0 w5 w' u
      (hd5 ▸ hsame) rfl (Nat.zero_le _) (by omega) h
    rw [Nat.sub_zero, Nat.add_zero, slice_all (length_newBitmap plan w.disk)] at hread
    rw [hd', hread]

/-- **The relocated bitmap is exact.**  Whatever the disk holds when the passes start, and whatever fails: what is written
is cut from one bitmap, whose bits below the new end are the new bitmap's own clusters and what the old bitmap had in use
there, its own clusters aside, and whose bits behind the end are set.  Both passes make the same bytes, however much of the
first one is on the disk, and a run that succeeds leaves exactly that bitmap. -/
theorem relocate_exact {disk : Device} {layout : Gpt.Plan} {number oldSectors workLen : Nat}
    (h : ResizePlan.prepare disk layout number oldSectors workLen F w = (.ok plan, w'))
    (hchange : plan.newSectors ≠ plan.oldSectors) (target : Device) (buffer : Nat) (G : Faults) (v : World) :
    ∃ new : Bytes, new.length = plan.bitmapClusters * 4096 ∧ plan.bitmapBytes ≤ new.length ∧
      (∀ c, c < plan.newClusters → (bitAt new c = true ↔ plan.inDestination c ∨ (c < min plan.oldClusters plan.newClusters ∧
        bitAt (oldBitmap plan v.disk) c = true ∧ plan.bitmap.owns c = false))) ∧
      (∀ c, plan.newClusters ≤ c → c < plan.bitmapBytes * 8 → bitAt new c = true) ∧
      WritesAt (plan.relocate buffer target) (plan.chunks new (buffer / 2) (plan.bitmapClusters * 4096) 0) G v ∧
      (∀ us, us <+: plan.chunks new (buffer / 2) (plan.bitmapClusters * 4096) 0 → ∀ v1, Wrote us v v1 →
        ∀ (volume : Volume) (start len : Nat) (bytes : Bytes) (v2 : World) (G1 : Faults), volume.first = plan.first →
          start + len ≤ new.length → plan.fillBitmap volume start len G1 v1 = (.ok bytes, v2) → bytes = slice new start len) ∧
      (∀ u v', plan.relocate buffer target G v = (.ok u, v') →
        v'.disk.read (clusterAt plan.first plan.bitmapLcn) new.length = new) := by
  have hplan := prepare_placed h hchange
  have hlen := length_newBitmap plan v.disk
  obtain ⟨hwrites, hleft⟩ := relocate_run hplan target buffer G v
  refine ⟨newBitmap plan v.disk, hlen, by rw [hlen]; exact hplan.capacity, fun c hc => ?_, fun c h1 h2 => ?_, hwrites,
    fun us hus v1 hv1 volume start len bytes v2 G1 hvolume hin hfill => ?_, by rw [hlen]; exact hleft⟩
  · have hbit : c < 8 * (plan.bitmapClusters * 4096) := by
      have := hplan.whole
      have := hplan.capacity
      omega
    rw [newBitmap, bitAt_pack _ hbit, newBit, if_neg (by omega)]
    by_cases hdest : plan.inDestination c
    · simp [hdest]
    · simp [hdest, and_assoc]
  · rw [newBitmap, bitAt_pack _ (by have := hplan.capacity; omega), newBit, if_pos ⟨h1, h2⟩]
  · rw [hlen] at hin
    exact (fillBitmap_ok hplan hvolume (oldBitmap_wrote hplan hus hv1) hin hfill).1

theorem relocate_exact_small : ∃ new : Bytes, new.length = 4096 ∧
    (∀ c, c < 7936 → (bitAt new c = true ↔ smallPlan.inDestination c ∨ (c < min 8192 7936 ∧
      bitAt (oldBitmap smallPlan smallDisk) c = true ∧ smallPlan.bitmap.owns c = false))) ∧
    WritesAt (smallPlan.relocate 32768 { smallTarget with exclusive := true })
      (smallPlan.chunks new (32768 / 2) (smallPlan.bitmapClusters * 4096) 0) noFaults { disk := smallDisk } := by
  obtain ⟨w', h, -⟩ := small_prepared { disk := smallDisk } rfl
  obtain ⟨new, hlen, -, hbits, -, hwrites, -⟩ := relocate_exact h (by decide) { smallTarget with exclusive := true } 32768
    noFaults { disk := smallDisk }
  exact ⟨new, hlen, hbits, hwrites⟩

end Ntfs
end R4
