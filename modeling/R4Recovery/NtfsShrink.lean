import R4Recovery.NtfsScan
/-!
# NtfsShrink — a shrunk volume keeps its data

A plan is placed on a volume that was read and checked (`prepare_ok`), and a shrink by a query that it keeps to
(`prepare_shrunk`).  So whatever a prepared shrink gives away is free, and the new bitmap goes where nothing is
(`shrink_sound`).
-/
namespace R4
namespace Ntfs

open Gpt (getLe alignForward alignmentSectors)
open Bitmap

/-! ## What a plan is prepared from -/

/-- A plan whose volume was read and checked, before its placement. -/
structure Surveyed (plan : ResizePlan) (d : Disk) : Prop where
  clusters : plan.oldClusters = (plan.oldSectors - 1) / 8 ∧ plan.newClusters = (plan.newSectors - 1) / 8
  sizes : 32768 ≤ plan.oldSectors ∧ 32768 ≤ plan.newSectors
  grown : plan.oldSectors < plan.newSectors → plan.bitmapLcn = (plan.oldSectors + 7) / 8 ∧
    plan.bitmapClusters = (plan.bitmapBytes + 4095) / 4096 ∧ plan.bitmapLcn + plan.bitmapClusters ≤ plan.newClusters
  bitmapBytes : plan.bitmapBytes = alignForward ((plan.newClusters + 7) / 8) 8
  fixed : plan.bitmap.Fixed plan.oldClusters
  bytes : plan.bitmap.bytes = alignForward ((plan.oldClusters + 7) / 8) 8
  table : 6 < plan.mft.bytes / 1024
  own : ∃ record attr, decodeRecord (rawRecord plan d 6) 6 = .ok record ∧ findOnly record AttrType.data [] = .ok attr ∧
    attributeRuns attr = plan.bitmap.runs

section Prepare

variable {plan : ResizePlan} {volume : Volume} {F : Faults} {w w' : World}

theorem record_ok {number : Nat} {record : Bytes} (hvolume : volume.first = plan.first)
    (h : plan.record volume number F w = (.ok record, w')) :
    decodeRecord (rawRecord plan w.disk number) number = .ok record ∧ w'.disk = w.disk := by
  unfold ResizePlan.record at h
  obtain ⟨lba, w1, h1, h⟩ := Io.bind_ok h
  obtain ⟨hlba, rfl⟩ := Io.lift_ok h1
  obtain ⟨raw, w2, h2, h⟩ := Io.bind_ok h
  obtain ⟨hraw, hd⟩ := Volume.read_ok h2
  obtain ⟨hdecode, rfl⟩ := Io.lift_ok h
  rw [hvolume, Map.lba_ok w.disk plan.first hlba] at hraw
  rw [hraw] at hdecode
  exact ⟨hdecode, hd⟩

theorem writes_record (number : Nat) : Writes (plan.record volume number) [] :=
  Writes.bindNil (Writes.lift _) (fun _ => Writes.bindNil (writes_read _ _ _) (fun _ => Writes.lift _))

theorem writes_checkMirrored (number : Nat) : Writes (checkMirrored plan volume number) [] :=
  Writes.bindNil (writes_record _) (fun _ => Writes.bindNil (writes_read _ _ _) (fun _ => Writes.bindNil (Writes.lift _)
    (fun _ => Writes.bindNil (Writes.refuse _ _) (fun _ => Writes.lift _))))

theorem writes_forM {α ε : Type} {f : α → Io ε Unit} (hf : ∀ a, Writes (f a) []) : ∀ list : List α, Writes (list.forM f) []
  | [] => Writes.pure ()
  | a :: rest => Writes.bindNil (hf a) (fun _ => writes_forM hf rest)

theorem disk_kept {α ε : Type} {x : Io ε α} {r : Except ε α} (hx : Writes x []) (h : x F w = (r, w')) : w'.disk = w.disk := by
  have hkept := hx.disk_eq F w
  rwa [h] at hkept

/-- **A plan that is prepared** was placed on a volume that passed every check. -/
theorem prepare_ok {disk : Device} {layout : Gpt.Plan} {number oldSectors workLen : Nat}
    (h : ResizePlan.prepare disk layout number oldSectors workLen F w = (.ok plan, w')) :
    ∃ (base : ResizePlan) (volume : Volume) (w1 : World), Surveyed base w.disk ∧ volume.first = base.first ∧
      32768 ≤ workLen ∧ w1.disk = w.disk ∧ base.place volume workLen F w1 = (.ok plan, w') := by
  unfold ResizePlan.prepare at h
  obtain ⟨_, w1, h1, h⟩ := Io.bind_ok h
  obtain ⟨-, rfl⟩ := Io.lift_ok h1
  obtain ⟨entry, w2, h2, h⟩ := Io.bind_ok h
  obtain ⟨-, rfl⟩ := Io.lift_ok h2
  obtain ⟨_, w3, h3, h⟩ := Io.bind_ok h
  obtain ⟨htarget, rfl⟩ := Io.refuse_ok h3
  obtain ⟨_, w4, h4, h⟩ := Io.bind_ok h
  obtain ⟨hspace, rfl⟩ := Io.refuse_ok h4
  obtain ⟨volume, w5, h5, h⟩ := Io.bind_ok h
  obtain ⟨hregion, rfl⟩ := Io.lift_ok h5
  obtain ⟨sector, w6, h6, h⟩ := Io.bind_ok h
  have hd6 := (Volume.read_ok h6).2
  obtain ⟨backup, w7, h7, h⟩ := Io.bind_ok h
  have hd7 := (Volume.read_ok h7).2
  obtain ⟨boot, w8, h8, h⟩ := Io.bind_ok h
  obtain ⟨-, rfl⟩ := Io.lift_ok h8
  obtain ⟨raw, w9, h9, h⟩ := Io.bind_ok h
  have hd9 := (Volume.read_ok h9).2
  obtain ⟨table, w10, h10, h⟩ := Io.bind_ok h
  obtain ⟨-, rfl⟩ := Io.lift_ok h10
  obtain ⟨data, w11, h11, h⟩ := Io.bind_ok h
  obtain ⟨-, rfl⟩ := Io.lift_ok h11
  obtain ⟨mft, w12, h12, h⟩ := Io.bind_ok h
  obtain ⟨-, rfl⟩ := Io.lift_ok h12
  obtain ⟨_, w13, h13, h⟩ := Io.bind_ok h
  obtain ⟨hmft, rfl⟩ := Io.refuse_ok h13
  obtain ⟨_, w14, h14, h⟩ := Io.bind_ok h
  have hd14 := disk_kept (writes_forM (@writes_checkMirrored _ _) _) h14
  obtain ⟨record, w15, h15, h⟩ := Io.bind_ok h
  have hfirst : volume.first = entry.first := by
    obtain ⟨_, -, hregion⟩ := Except.bind_ok.1 hregion
    cases hregion
    rfl
  obtain ⟨hrecord, hd15⟩ := record_ok hfirst h15
  obtain ⟨data, w16, h16, h⟩ := Io.bind_ok h
  obtain ⟨hdata, rfl⟩ := Io.lift_ok h16
  obtain ⟨bitmap, w17, h17, h⟩ := Io.bind_ok h
  obtain ⟨hbitmap, rfl⟩ := Io.lift_ok h17
  obtain ⟨_, w18, h18, h⟩ := Io.bind_ok h
  obtain ⟨hbytes, rfl⟩ := Io.refuse_ok h18
  obtain ⟨_, w19, h19, h⟩ := Io.bind_ok h
  obtain ⟨-, rfl⟩ := Io.refuse_ok h19
  have hdisk : w14.disk = w.disk := hd14.trans (hd9.trans (hd7.trans hd6))
  obtain ⟨hfixed, hruns, hres⟩ := Map.parse_ok hbitmap
  simp only [targetBad, Bool.or_eq_false_iff, decide_eq_false_iff_not, Nat.not_lt] at htarget
  refine ⟨_, volume, w15, ?_, hfirst, htarget.1.1.1.1.1.1, hd15.trans hdisk, h⟩
  rw [hdisk] at hrecord
  refine ⟨⟨rfl, rfl⟩, ⟨htarget.1.1.1.2, htarget.1.1.1.1.2⟩, fun hgrow => ⟨rfl, rfl, ?_⟩, rfl, hfixed, by simpa using hbytes, ?_,
    record, data, hrecord, hdata, by rw [attributeRuns, if_pos hres, hruns]⟩
  · simp only [Bool.and_eq_false_iff, Bool.or_eq_false_iff, decide_eq_false_iff_not, Nat.not_le, Nat.not_lt] at hspace
    rcases hspace with hspace | hspace
    · exact absurd hgrow (Nat.not_lt.2 hspace)
    · have h1 := hspace.1
      have h2 := hspace.2
      dsimp only at h1 h2 ⊢
      omega
  · simp only [Bool.or_eq_false_iff, decide_eq_false_iff_not, Nat.not_lt] at hmft
    have := hmft.1
    dsimp only
    omega

/-! ## The shrunk volume -/

/-- A cluster that a record in use maps. -/
def Mapped (plan : ResizePlan) (d : Disk) (c : Nat) : Prop :=
  ∃ number, number < plan.mft.bytes / 1024 ∧ inUse (rawRecord plan d number) ∧
    ∃ attr ∈ recordAttributes (rawRecord plan d number), ∃ run ∈ attributeRuns attr, ∃ lcn, run.lcn = some lcn ∧
      lcn ≤ c ∧ c < lcn + run.lengthClusters

/-- What a query of the space tells. -/
structure Queried (plan : ResizePlan) (d : Disk) (limits : ShrinkLimits) : Prop where
  free : ∀ lcn, limits.bitmapLcn = some lcn → ∀ c, lcn ≤ c → c < lcn + plan.bitmap.clusters →
    Free (oldBitmap plan d) plan.oldClusters c
  held : ∀ c, Held (oldBitmap plan d) plan.bitmap plan.oldClusters c → c ≤ limits.highestFixedCluster
  seen : ∀ number, number < plan.mft.bytes / 1024 → RecordSeen plan d number
  bound : ∀ lcn n, limits.bitmapLcn = some lcn → limits.minimumSectors ≤ n → n < plan.oldSectors →
    max (limits.highestFixedCluster + 1) (lcn + plan.bitmap.clusters) * 8 + 1 ≤ n

theorem boundLimits_same (plan : ResizePlan) (limits : ShrinkLimits) :
    (boundLimits plan limits).bitmapLcn = limits.bitmapLcn ∧
      (boundLimits plan limits).highestFixedCluster = limits.highestFixedCluster := by
  unfold boundLimits
  split
  · exact ⟨rfl, rfl⟩
  · dsimp only
    split <;> exact ⟨rfl, rfl⟩

theorem boundLimits_bound {limits : ShrinkLimits} (hmin : limits.minimumSectors = plan.oldSectors) {lcn n : Nat}
    (hlcn : limits.bitmapLcn = some lcn) (hn : (boundLimits plan limits).minimumSectors ≤ n) (hold : n < plan.oldSectors) :
    max (limits.highestFixedCluster + 1) (lcn + plan.bitmap.clusters) * 8 + 1 ≤ n := by
  unfold boundLimits at hn
  rw [hlcn] at hn
  dsimp only at hn
  split at hn
  · rename_i hneeded
    have hle := Nat.div_mul_le_self (plan.oldSectors - max (max (limits.highestFixedCluster + 1)
      (lcn + plan.bitmap.clusters) * 8 + 1) 32768) alignmentSectors
    dsimp only at hn
    omega
  · omega

/-- **The query.** -/
theorem querySpace_ok {workLen : Nat} {limits : ShrinkLimits} {d : Disk} (hsurvey : Surveyed plan d)
    (hvolume : volume.first = plan.first) (hwork : 1536 ≤ workLen) (hd : w.disk = d)
    (h : querySpace plan volume workLen F w = (.ok limits, w')) : Queried plan d limits := by
  unfold querySpace at h
  obtain ⟨st, w1, h1, h⟩ := Io.bind_ok h
  obtain ⟨inspected, w2, h2, h⟩ := Io.bind_ok h
  obtain ⟨rfl, rfl⟩ := Io.pure_ok h
  obtain ⟨hd1, stop, hstop, hscan, hhigh⟩ := scanLoop_ok hvolume hsurvey.fixed (by omega) _ _ _ _ _ _ hd (by omega)
    (show ScanOk _ _ _ _ ({} : FreeScan) from .inr (.inl rfl)) ⟨Nat.zero_le _, fun c hc => absurd hc (by omega)⟩ h1
  obtain ⟨-, ⟨hgrow, hlcn, hmin⟩, hseen⟩ := inspectFixedRuns_ok hvolume hwork hd1 h2
  obtain ⟨hsameLcn, hsameHigh⟩ := boundLimits_same plan inspected
  have hcover : plan.oldClusters ≤ 8 * stop := by
    have h1 := (alignForward_512 plan.bitmap.bytes).2.1
    have h2 := hsurvey.bytes
    unfold alignForward at h2
    omega
  refine ⟨fun lcn hsome c h1 h2 => ?_, fun c hheld => ?_, hseen, fun lcn n hsome hn hold => ?_⟩
  · rw [hsameLcn, ← hlcn] at hsome
    unfold ScanOk at hscan
    rw [show st.1.found = some lcn from hsome] at hscan
    exact hscan c h1 h2
  · rw [hsameHigh]
    exact Nat.le_trans (hhigh.2 c (Nat.lt_of_lt_of_le hheld.1 hcover) hheld) hgrow
  · rw [hsameLcn] at hsome
    rw [hsameHigh]
    exact boundLimits_bound hmin.symm hsome hn hold

/-- **A shrink that is prepared** was placed by a query that it keeps to. -/
theorem prepare_shrunk {disk : Device} {layout : Gpt.Plan} {number oldSectors workLen : Nat}
    (h : ResizePlan.prepare disk layout number oldSectors workLen F w = (.ok plan, w'))
    (hshrink : plan.newSectors < plan.oldSectors) : ∃ (base : ResizePlan) (limits : ShrinkLimits) (lcn : Nat),
      Surveyed base w.disk ∧ Queried base w.disk limits ∧ limits.bitmapLcn = some lcn ∧
      limits.minimumSectors ≤ base.newSectors ∧
      plan = { base with shrink := limits, bitmapClusters := base.bitmap.clusters, bitmapLcn := lcn } := by
  obtain ⟨base, volume, w1, hsurvey, hvolume, hwork, hd, hplace⟩ := prepare_ok h
  unfold ResizePlan.place at hplace
  split at hplace
  · obtain ⟨limits, w2, h2, hplace⟩ := Io.bind_ok hplace
    obtain ⟨_, w3, h3, hplace⟩ := Io.bind_ok hplace
    obtain ⟨hlimit, rfl⟩ := Io.refuse_ok h3
    obtain ⟨rfl, rfl⟩ := Io.pure_ok hplace
    have hquery := querySpace_ok hsurvey hvolume (by omega) hd h2
    have hshrink : base.newSectors < base.oldSectors := hshrink
    rw [decide_eq_true hshrink, Bool.true_and, Bool.or_eq_false_iff, decide_eq_false_iff_not, Nat.not_lt] at hlimit
    obtain ⟨lcn, hlcn⟩ : ∃ lcn, limits.bitmapLcn = some lcn := Option.isSome_iff_exists.1 (by simpa using hlimit.1)
    exact ⟨base, limits, lcn, hsurvey, hquery, hlcn, hlimit.2, by rw [hlcn, Option.getD_some]⟩
  · obtain ⟨_, w2, h2, hplace⟩ := Io.bind_ok hplace
    obtain ⟨rfl, rfl⟩ := Io.pure_ok hplace
    omega

end Prepare

/-! ## A small volume

Thirty-two mebibytes with five records: the table in the clusters four to seven, its mirror in cluster two, the bitmap in
cluster three.  No record has stamps to undo, so each decodes to itself.
-/

def smallData (clusters lcn size : Nat) : Bytes :=
  leBytes 4 0x80 ++ leBytes 4 72 ++ [1, 0] ++ zeros 14 ++ leBytes 8 (clusters - 1) ++ leBytes 2 64 ++ zeros 6 ++
    leBytes 8 (4096 * clusters) ++ leBytes 8 size ++ leBytes 8 size ++ [0x11, clusters.toUInt8, lcn.toUInt8] ++ zeros 5
def smallInformation : Bytes :=
  leBytes 4 0x70 ++ leBytes 4 40 ++ zeros 8 ++ leBytes 4 12 ++ leBytes 4 24 ++ zeros 8 ++ [3, 1] ++ zeros 6
def smallRecord (number : Nat) (attr : Bytes) : Bytes :=
  leBytes 4 fileMagic ++ leBytes 2 48 ++ leBytes 2 3 ++ zeros 12 ++ leBytes 2 56 ++ leBytes 2 1 ++ leBytes 4 (64 + attr.length) ++
    leBytes 4 1024 ++ zeros 12 ++ leBytes 4 number ++ zeros 8 ++ attr ++ [255, 255, 255, 255] ++ zeros (964 - attr.length)
def smallBoot : Bytes :=
  [0, 0, 0] ++ ascii "NTFS    " ++ [0, 2, 8] ++ zeros 26 ++ leBytes 8 65536 ++ leBytes 8 4 ++ leBytes 8 2 ++ [0xF6, 0, 0, 0, 1] ++
    zeros 441 ++ [0x55, 0xaa]

def smallRaw : Nat → Bytes
  | 0 => smallRecord 0 (smallData 4 4 16384)
  | 1 => smallRecord 1 (smallData 1 2 4096)
  | 2 => smallRecord 2 []
  | 3 => smallRecord 3 smallInformation
  | 6 => smallRecord 6 (smallData 1 3 1024)
  | _ => zeros 1024

def smallBits : Bytes := 0xff :: zeros 1023

def smallImage : List (Nat × Bytes) :=
  [(2048, smallBoot), (67584, smallBoot), (2072, smallBits)] ++ (List.range 4).map (fun n => (2064 + 2 * n, smallRaw n)) ++
    (List.range 16).map (fun n => (2080 + 2 * n, smallRaw n))

def smallDisk : Disk := Disk.apply (fun _ => 0) smallImage

def smallVolume : Volume := { first := 2048, device := { sectors := 65537 } }

def smallEntry : Gpt.Entry := { present := true, first := 2048, count := 63489, mbrType := 7 }

def smallBase : ResizePlan :=
  { ResizePlan.start smallEntry 1 65537 with
    mft := { runs := [{ lengthClusters := 4, lcn := some 4 }], clusters := 4, bytes := 16384 }
    mirrorLcn := 2
    bitmap := { runs := [{ lengthClusters := 1, lcn := some 3 }], clusters := 1, bytes := 1024 } }

def smallScan : FreeScan := { start := 8, count := 8, found := some 8 }

def smallLimits : ShrinkLimits := { minimumSectors := 65537, highestFixedCluster := 7, bitmapLcn := some 8 }

def smallCheck : BitmapCheck := { cachedBytes := 1024, scratch := smallBits }

def SmallInspection (st : Inspection) : Prop := (st.checker = {} ∨ st.checker = smallCheck) ∧ st.limits = smallLimits

def smallShrink : ShrinkLimits := { smallLimits with maximumSectors := 32768, minimumSectors := 32769 }

def smallTarget : Device := { sectors := 69632 }

def smallLayout : Gpt.Plan :=
  { sectors := 69632, kind := .mbr, lastUsable := 69631, entryCount := 4, entries := Gpt.setEntries [smallEntry] }

def smallPlan : ResizePlan := { smallBase with shrink := smallShrink, bitmapClusters := 1, bitmapLcn := 8 }

/-- The plan the mirrored records are checked with. -/
def smallStart : ResizePlan := { ResizePlan.start smallEntry 1 65537 with mft := smallBase.mft, mirrorLcn := 2 }

/-- An attribute with one run in the first eight clusters, clear of the bitmap's if it is not the bitmap. -/
def soundAttribute (number : Nat) (attr : Attribute) : Bool :=
  !attr.nonResident || match (runlist attr.mappingPairs).1 with
  | [{ lengthClusters := len, lcn := some lcn }] =>
    attr.attrType == AttrType.data && attr.name.isEmpty && attr.lowestVcn == 0 && attr.highestVcn == len - 1 &&
      (runlist attr.mappingPairs).2.ended attr.mappingPairs && expectSetRange smallBits 0 lcn (lcn + len) && decide (0 < len) &&
      decide (lcn + len ≤ 8) && (number == 6 || decide (4 ≤ lcn) || decide (lcn + len ≤ 3))
  | _ => false

/-- The map of the data of a record. -/
def dataMap (record : Bytes) : Option (List Run × Nat × Nat) :=
  match findOnly record AttrType.data [] with
  | .error _ => none
  | .ok data => match Map.parse data 8192 false with
    | .error _ => none
    | .ok map => some (map.runs, map.clusters, map.bytes)

theorem small_checks :
    (∀ n ∈ [0, 1, 2, 3, 6], plainRecord (smallRaw n) = true ∧ soundRecord (smallRaw n) n = true ∧
      (attributesOf (smallRaw n)).all (soundAttribute n) = true ∧ ¬ getLe (smallRaw n) 0x16 2 &&& recordInUse = 0) ∧
    (dataMap (smallRaw 0) = some (smallBase.mft.runs, 4, 16384) ∧ dataMap (smallRaw 6) = some (smallBase.bitmap.runs, 1, 1024) ∧
      ∀ n ∈ [0, 1, 2, 3], checkSystemRecord smallStart n (smallRaw n) = .ok ()) ∧
    ((smallBoot.length = 512 ∧ smallBits.length = 1024) ∧
      smallImage.Pairwise (fun p q => p.1 + 2 ≤ q.1 ∨ q.1 + 2 ≤ p.1)) ∧
    (((scanBytes 1 8192 0 smallBits {}).start = 8 ∧ (scanBytes 1 8192 0 smallBits {}).count = 8 ∧
        (scanBytes 1 8192 0 smallBits {}).found = some 8) ∧
      highestIn 0 (changeRange (clearRuns 0 smallBase.bitmap.runs smallBits) 0 8192 (0 + 1024 * 8) false) 0 = 7) ∧
    (smallLayout.validate = .ok () ∧ smallLayout.get 1 = .ok smallEntry ∧
      (match checkBoot (ResizePlan.start smallEntry 1 65537) smallBoot smallBoot with
        | .ok boot => some (boot.mftLcn, boot.mftmirrLcn)
        | .error _ => none) = some (4, 2)) ∧
    getLe (zeros 1024) 0x16 2 &&& recordInUse = 0 := by
  decide +kernel

theorem smallRaw_other {n : Nat} (h : n ∉ [0, 1, 2, 3, 6]) : smallRaw n = zeros 1024 := by
  simp only [List.mem_cons, List.not_mem_nil, or_false, not_or] at h
  unfold smallRaw
  split <;> first | rfl | omega

theorem smallRaw_length (n : Nat) : (smallRaw n).length = 1024 := by
  by_cases hn : n ∈ [0, 1, 2, 3, 6]
  · have h := (small_checks.1 n hn).1
    simp only [plainRecord, Bool.and_eq_true, beq_iff_eq] at h
    exact h.1.1.1.1.1
  · rw [smallRaw_other hn, length_zeros]

theorem smallImage_length : ∀ p ∈ smallImage, p.2.length ≤ 1024 := by
  intro p hp
  simp only [smallImage, List.mem_append, List.mem_map, List.mem_cons, List.not_mem_nil, or_false] at hp
  rcases hp with ((rfl | rfl | rfl) | ⟨n, -, rfl⟩) | ⟨n, -, rfl⟩
  · exact Nat.le_trans (Nat.le_of_eq small_checks.2.2.1.1.1) (by decide)
  · exact Nat.le_trans (Nat.le_of_eq small_checks.2.2.1.1.1) (by decide)
  · exact Nat.le_of_eq small_checks.2.2.1.1.2
  · exact Nat.le_of_eq (smallRaw_length n)
  · exact Nat.le_of_eq (smallRaw_length n)

theorem read_smallDisk {lba : Nat} {raw : Bytes} (h : (lba, raw) ∈ smallImage) :
    smallDisk.read (512 * lba) raw.length = raw := by
  obtain ⟨u, v, huv⟩ := List.append_of_mem h
  have hapart := small_checks.2.2.1.2
  rw [huv] at hapart
  have hlater := (List.pairwise_cons.1 (List.pairwise_append.1 hapart).2.1).1
  unfold smallDisk
  rw [huv]
  refine Disk.read_apply_mid (fun p hp => ?_)
  have h1 := hlater p hp
  have h2 := smallImage_length (lba, raw) h
  have h3 := smallImage_length p (by rw [huv]; simp [hp])
  dsimp only at h1 h2
  omega

theorem reads_small {lba n : Nat} {raw : Bytes} (h : (2048 + lba, raw) ∈ smallImage) (hlen : raw.length = 512 * n)
    (hn : 0 < n ∧ lba + n ≤ 65537) : Reads smallDisk (smallVolume.read lba (512 * n)) raw := by
  have hread := read_smallDisk h
  rw [hlen] at hread
  have hin : 0 < n ∧ lba + n ≤ smallVolume.device.sectors := hn
  have hvolume := Reads.volumeRead (d := smallDisk) rfl hin
  rwa [show smallDisk.read (512 * (smallVolume.first + lba)) (512 * n) = raw from hread] at hvolume

theorem reads_record {n : Nat} (h : n < 16) : Reads smallDisk (smallVolume.read (32 + 2 * n) 1024) (smallRaw n) := by
  refine reads_small (n := 2) ?_ (smallRaw_length n) ⟨by decide, by omega⟩
  simp only [smallImage, List.mem_append, List.mem_map]
  exact .inr ⟨n, List.mem_range.2 h, by congr 1; omega⟩

theorem reads_mirror {n : Nat} (h : n < 4) : Reads smallDisk (smallVolume.read (16 + 2 * n) 1024) (smallRaw n) := by
  refine reads_small (n := 2) ?_ (smallRaw_length n) ⟨by decide, by omega⟩
  simp only [smallImage, List.mem_append, List.mem_map]
  exact .inl (.inr ⟨n, List.mem_range.2 h, by congr 1; omega⟩)

theorem reads_bits : Reads smallDisk (smallVolume.read 24 1024) smallBits :=
  reads_small (n := 2) (List.mem_append_left _ (List.mem_append_left _ (.tail _ (.tail _ (.head _))))) small_checks.2.2.1.1.2
    ⟨by decide, by decide⟩

theorem reads_boot : Reads smallDisk (smallVolume.read 0 512) smallBoot :=
  reads_small (n := 1) (List.mem_append_left _ (List.mem_append_left _ (.head _))) small_checks.2.2.1.1.1 ⟨by decide, by decide⟩

theorem reads_backup : Reads smallDisk (smallVolume.read 65536 512) smallBoot :=
  reads_small (n := 1) (List.mem_append_left _ (List.mem_append_left _ (.tail _ (.head _)))) small_checks.2.2.1.1.1
    ⟨by decide, by decide⟩

theorem reads_bitmap : Reads smallDisk (smallBase.bitmap.read smallVolume 0 1024) smallBits :=
  Reads.mapRead rfl rfl rfl (by decide) (by decide) reads_bits

theorem reads_scanLoop : Reads smallDisk (scanLoop smallBase smallVolume 28672 (alignForward smallBase.bitmap.bytes 512) 0 ({}, 0))
    (smallScan, 7) := by
  have hpad : alignForward smallBase.bitmap.bytes 512 = 1023 + 1 := rfl
  have hlen : min 28672 (1023 + 1 - 0) = 1024 := rfl
  rw [hpad, scanLoop, hpad, if_neg (by decide), hlen]
  refine Reads.bind reads_bitmap ?_
  dsimp only
  rw [if_pos rfl, small_checks.2.2.1.1.2]
  obtain ⟨hfound, hhigh⟩ := small_checks.2.2.2.1
  have hscan : ∀ scan : FreeScan, scan.start = 8 ∧ scan.count = 8 ∧ scan.found = some 8 → scan = smallScan := by
    rintro ⟨_, _, _⟩ ⟨rfl, rfl, rfl⟩
    rfl
  rw [show scanBytes smallBase.bitmap.clusters smallBase.oldClusters (0 * 8) smallBits {} = smallScan from hscan _ hfound,
    show highestIn (0 * 8) (changeRange (clearRuns (0 * 8) smallBase.bitmap.runs smallBits) (0 * 8) smallBase.oldClusters
      (0 * 8 + 1024 * 8) false) 0 = 7 from hhigh, scanLoop, hpad, if_pos (by decide)]
  exact Reads.pure _

theorem reads_load {self : BitmapCheck} (h : self = {} ∨ self = smallCheck) :
    Reads smallDisk (self.load smallBase.bitmap smallVolume 27648 0) smallCheck := by
  rcases h with rfl | rfl
  · have hpad : alignForward smallBase.bitmap.bytes 512 = 1024 := rfl
    have hlen : min 27648 (1024 - 0) = 1024 := rfl
    rw [BitmapCheck.load, if_pos (.inl rfl)]
    dsimp only
    rw [hpad, if_neg (by decide), Nat.zero_div, Nat.zero_mul, hlen]
    exact Reads.bind reads_bitmap (Reads.pure _)
  · rw [BitmapCheck.load, if_neg (by decide)]
    exact Reads.pure _

theorem reads_run {own : Bool} {lcn len : Nat} (hset : expectSetRange smallBits 0 lcn (lcn + len) = true)
    (hin : 0 < len ∧ lcn + len ≤ 8) (hown : own = true ∨ 4 ≤ lcn ∨ lcn + len ≤ 3) {st : Inspection}
    (hst : SmallInspection st) (hfresh : st.count = 0 ∧ st.clusters = 0) : ∃ t, SmallInspection t ∧
      (t.count = 1 ∧ t.clusters = len) ∧
      Reads smallDisk (inspectRun smallBase smallVolume 28672 own st { lengthClusters := len, lcn := some lcn }) t := by
  obtain ⟨hchecker, hlimits⟩ := hst
  have hclusters : smallBase.oldClusters = 8192 := rfl
  have hallocated : Reads smallDisk (st.checker.allocated smallBase.bitmap smallVolume 27648 len lcn (lcn + len)) smallCheck := by
    obtain ⟨fuel, rfl⟩ : ∃ fuel, len = fuel + 1 := ⟨len - 1, by omega⟩
    have hbyte : lcn / 8 = 0 := by omega
    have hstop : min (lcn + (fuel + 1)) ((smallCheck.cachedAt + smallCheck.cachedBytes) * 8) = lcn + (fuel + 1) :=
      Nat.min_eq_left (by show _ ≤ 8192; omega)
    rw [BitmapCheck.allocated, if_neg (by omega), hbyte]
    refine Reads.bind (reads_load hchecker) ?_
    dsimp only
    rw [hstop]
    refine Reads.bind (Reads.refuse _ (by rw [show expectSetRange smallCheck.scratch (smallCheck.cachedAt * 8) lcn _ = true from hset]; rfl)) ?_
    cases fuel with
    | zero => exact Reads.pure _
    | succ fuel =>
      rw [BitmapCheck.allocated, if_pos (Nat.le_refl _)]
      exact Reads.pure _
  have hstart : ∀ {x : Io ResizeError Inspection} {t : Inspection}, Reads smallDisk x t → Reads smallDisk (do
      Io.refuse (decide (256 < st.count + 1)) .unsupportedNtfs
      Io.refuse (decide (2 ^ 64 ≤ st.clusters + len)) .corruptNtfs
      x) t := fun h => Reads.bind (Reads.refuse _ (by rw [hfresh.1]; rfl)) (Reads.bind (Reads.refuse _
        (by rw [hfresh.2]; exact decide_eq_false (by omega))) h)
  by_cases h : own = true
  · refine ⟨{ st with checker := smallCheck, count := st.count + 1, clusters := st.clusters + len }, ⟨.inr rfl, hlimits⟩,
      ⟨by rw [hfresh.1], by rw [hfresh.2, Nat.zero_add]⟩, ?_⟩
    refine hstart (Reads.bind (Reads.refuse _ ?_) (Reads.bind hallocated ?_))
    · rw [hclusters]
      simp only [Bool.or_eq_false_iff, decide_eq_false_iff_not]
      omega
    · dsimp only
      rw [if_pos h]
      exact Reads.pure _
  · have hsame : ({ st.limits with highestFixedCluster := max st.limits.highestFixedCluster (lcn + len - 1) } : ShrinkLimits) = smallLimits := by
      rw [hlimits]
      have : max smallLimits.highestFixedCluster (lcn + len - 1) = 7 := Nat.max_eq_left (by show _ ≤ 7; omega)
      rw [this]
      rfl
    refine ⟨{ st with checker := smallCheck, count := st.count + 1, clusters := st.clusters + len, limits := smallLimits },
      ⟨.inr rfl, rfl⟩, ⟨by rw [hfresh.1], by rw [hfresh.2, Nat.zero_add]⟩, ?_⟩
    refine hstart (Reads.bind (Reads.refuse _ ?_) (Reads.bind hallocated ?_))
    · rw [hclusters]
      simp only [Bool.or_eq_false_iff, decide_eq_false_iff_not]
      omega
    · dsimp only
      rw [if_neg h, hsame]
      refine Reads.bind (Reads.refuse _ ?_) (Reads.bind (Reads.refuse _ ?_) (Reads.pure _))
      · have hclear := hown.resolve_left h
        show (overlap lcn len 3 1 || false) = false
        simp only [overlap, Bool.or_false, Bool.and_eq_false_iff, decide_eq_false_iff_not]
        omega
      · rw [hlimits]
        show overlap 8 1 lcn len = false
        simp only [overlap, Bool.and_eq_false_iff, decide_eq_false_iff_not]
        omega

theorem reads_attribute {number : Nat} {attr : Attribute} (h : soundAttribute number attr = true) {st : Inspection}
    (hst : SmallInspection st) :
    ∃ t, SmallInspection t ∧ Reads smallDisk (inspectAttribute smallBase smallVolume 28672 number st attr) t := by
  unfold inspectAttribute
  unfold soundAttribute at h
  by_cases hres : attr.nonResident = true
  · rw [hres, Bool.not_true, Bool.false_or] at h
    split at h
    · rename_i len lcn hruns
      simp only [Bool.and_eq_true, Bool.or_eq_true, beq_iff_eq, decide_eq_true_eq] at h
      obtain ⟨⟨⟨⟨⟨⟨⟨⟨hkind, hname⟩, hlow⟩, hhigh⟩, hended⟩, hset⟩, hpos⟩, hin⟩, hown⟩ := h
      have hfits : (number == 6 && attr.attrType == AttrType.data && attr.name.isEmpty) = true ∨ 4 ≤ lcn ∨ lcn + len ≤ 3 := by
        rcases hown with (h6 | h4) | h3
        · exact .inl (by rw [h6, hkind, hname]; rfl)
        · exact .inr (.inl h4)
        · exact .inr (.inr h3)
      have hfresh : SmallInspection { st with count := 0, clusters := 0 } := hst
      obtain ⟨t, ht, ⟨hcount, hclusters⟩, hrun⟩ := reads_run hset ⟨hpos, hin⟩ hfits hfresh ⟨rfl, rfl⟩
      refine ⟨t, ht, ?_⟩
      rw [if_neg (by simp [hres])]
      refine Reads.bind (Reads.refuse _ (by simp [hlow])) ?_
      dsimp only
      rw [hruns, hended, List.foldlM_cons]
      refine Reads.bind (Reads.bind hrun (Reads.pure _)) (Reads.bind (Reads.refuse _ ?_) (Reads.pure _))
      rw [hcount, hclusters, hhigh]
      simp
      omega
    · cases h
  · refine ⟨st, hst, ?_⟩
    rw [if_pos (by simpa using hres)]
    exact Reads.pure _

theorem decode_smallRaw {n : Nat} (hn : n ∈ [0, 1, 2, 3, 6]) : decodeRecord (smallRaw n) n = .ok (smallRaw n) :=
  decodeRecord_plain (small_checks.1 n hn).1 (small_checks.1 n hn).2.1

theorem reads_inspectRecord {n : Nat} (hn : n < 16) {st : Inspection} (hst : SmallInspection st) : ∃ t, SmallInspection t ∧
    Reads smallDisk (inspectRecord smallBase smallVolume 28672 st n) t := by
  have hraw : Reads smallDisk (smallBase.mft.read smallVolume (n * 1024) 1024) (smallRaw n) := by
    refine Reads.mapRead (show smallBase.mft.runs = _ from rfl) (by omega) rfl (by decide) (by omega) ?_
    rw [show 4 * 8 + n * 1024 / 512 = 32 + 2 * n by omega]
    exact reads_record hn
  by_cases huse : n ∈ [0, 1, 2, 3, 6]
  · obtain ⟨t, ht, hfold⟩ := Reads.foldlM (f := inspectAttribute smallBase smallVolume 28672 n) (I := SmallInspection)
      (fun attr (hattr : attr ∈ attributesOf (smallRaw n)) s hs =>
        reads_attribute (List.all_eq_true.1 (small_checks.1 n huse).2.2.1 attr hattr) hs) st hst
    refine ⟨t, ht, Reads.bind hraw ?_⟩
    rw [if_neg (small_checks.1 n huse |>.2.2.2)]
    exact Reads.bind (Reads.lift (decode_smallRaw huse)) hfold
  · refine ⟨st, hst, Reads.bind hraw ?_⟩
    rw [smallRaw_other huse, if_pos small_checks.2.2.2.2.2]
    exact Reads.pure _

theorem reads_querySpace : Reads smallDisk (querySpace smallBase smallVolume 28672) smallShrink := by
  obtain ⟨st, ⟨-, hlimits⟩, hfold⟩ := Reads.foldlM (f := inspectRecord smallBase smallVolume 28672) (I := SmallInspection)
    (fun n (hn : n ∈ List.range 16) s hs => reads_inspectRecord (List.mem_range.1 hn) hs) { limits := smallLimits }
    ⟨.inl rfl, rfl⟩
  have hinspect : Reads smallDisk (inspectFixedRuns smallBase smallVolume 28672 smallLimits) smallLimits :=
    Reads.bind (Reads.refuse _ rfl) (Reads.bind hfold (by rw [hlimits]; exact Reads.pure _))
  exact Reads.bind reads_scanLoop (Reads.bind hinspect (Reads.pure _))

theorem Reads.recordOf {plan : ResizePlan} {volume : Volume} {number lba : Nat} {d : Disk} {raw record : Bytes}
    (hlba : plan.mft.lba (number * 1024) 1024 = .ok lba) (hread : Reads d (volume.read lba 1024) raw)
    (hdecode : decodeRecord raw number = .ok record) : Reads d (plan.record volume number) record :=
  Reads.bind (Reads.lift hlba) (Reads.bind hread (Reads.lift hdecode))

theorem dataMap_some {record : Bytes} {runs : List Run} {clusters bytes : Nat} (h : dataMap record = some (runs, clusters, bytes)) :
    ∃ data, findOnly record AttrType.data [] = .ok data ∧ Map.parse data 8192 false = .ok { runs, clusters, bytes } := by
  unfold dataMap at h
  split at h
  · cases h
  · rename_i data hdata
    split at h
    · cases h
    · rename_i map hmap
      cases h
      exact ⟨data, hdata, hmap⟩

theorem reads_smallRecord {n : Nat} (hn : n ∈ [0, 1, 2, 3, 6]) : Reads smallDisk (smallStart.record smallVolume n) (smallRaw n) := by
  have hlt : n < 16 := by
    simp only [List.mem_cons, List.not_mem_nil, or_false] at hn
    omega
  refine Reads.recordOf ?_ (reads_record hlt) (decode_smallRaw hn)
  rw [Map.lba, if_neg (by omega), show smallStart.mft.runs = [{ lengthClusters := 4, lcn := some 4 }] from rfl, locate,
    if_pos (by dsimp only; omega)]
  dsimp only
  rw [if_neg (by omega)]
  congr 1
  omega

theorem reads_checkMirrored : ∀ n ∈ [0, 1, 2, 3], Reads smallDisk (checkMirrored smallStart smallVolume n) () := by
  intro n hn
  have hn6 : n ∈ [0, 1, 2, 3, 6] := by
    simp only [List.mem_cons, List.not_mem_nil, or_false] at hn ⊢
    omega
  have hlt : n < 4 := by
    simp only [List.mem_cons, List.not_mem_nil, or_false] at hn
    omega
  refine Reads.bind (reads_smallRecord hn6) (Reads.bind (a := smallRaw n) ?_ (Reads.bind (Reads.lift (decode_smallRaw hn6))
    (Reads.bind (Reads.refuse _ (bne_self_eq_false _)) (Reads.lift ?_))))
  · rw [show smallStart.mirrorLcn * 8 + n * 2 = 16 + 2 * n by show 2 * 8 + n * 2 = _; omega]
    exact reads_mirror hlt
  · rw [normaliseUsa_plain (small_checks.1 n hn6).1]
    exact small_checks.2.1.2.2 n hn

/-- **A volume that can be shrunk.** -/
theorem small_prepared : Reads smallDisk (ResizePlan.prepare smallTarget smallLayout 1 65537 32768) smallPlan := by
  obtain ⟨hvalidate, hget, hcheck⟩ := small_checks.2.2.2.2.1
  obtain ⟨boot, hboot, hmft, hmirror⟩ : ∃ boot, checkBoot (ResizePlan.start smallEntry 1 65537) smallBoot smallBoot = .ok boot ∧
      boot.mftLcn = 4 ∧ boot.mftmirrLcn = 2 := by
    split at hcheck
    · rename_i boot hboot
      obtain ⟨hmft, hmirror⟩ := Prod.mk.inj (Option.some.inj hcheck)
      exact ⟨boot, hboot, hmft, hmirror⟩
    · cases hcheck
  obtain ⟨hdata0, hdata6, -⟩ := small_checks.2.1
  obtain ⟨data0, hfind0, hparse0⟩ := dataMap_some hdata0
  obtain ⟨data6, hfind6, hparse6⟩ := dataMap_some hdata6
  have hplace : Reads smallDisk (smallBase.place smallVolume 32768) smallPlan := by
    rw [ResizePlan.place, if_pos (by decide)]
    exact Reads.bind reads_querySpace (Reads.bind (Reads.refuse _ (by decide)) (Reads.pure _))
  unfold ResizePlan.prepare
  refine Reads.bind (Reads.lift (by rw [hvalidate]; rfl)) (Reads.bind (Reads.lift (by rw [hget]; rfl)) ?_)
  refine Reads.bind (Reads.refuse _ (by decide)) (Reads.bind (Reads.refuse _ (by decide)) ?_)
  refine Reads.bind (Reads.lift (a := smallVolume) rfl) (Reads.bind reads_boot (Reads.bind reads_backup ?_))
  refine Reads.bind (Reads.lift hboot) ?_
  rw [hmft, hmirror]
  refine Reads.bind (reads_record (n := 0) (by decide)) (Reads.bind (Reads.lift (decode_smallRaw (by decide))) ?_)
  refine Reads.bind (Reads.lift hfind0) (Reads.bind (Reads.lift hparse0) (Reads.bind (Reads.refuse _ (by decide)) ?_))
  refine Reads.bind (a := ()) ?_ ?_
  · exact Reads.bind (reads_checkMirrored 0 (by decide)) (Reads.bind (reads_checkMirrored 1 (by decide))
      (Reads.bind (reads_checkMirrored 2 (by decide)) (Reads.bind (reads_checkMirrored 3 (by decide)) (Reads.pure _))))
  refine Reads.bind (reads_smallRecord (n := 6) (by decide)) (Reads.bind (Reads.lift hfind6) (Reads.bind (Reads.lift hparse6) ?_))
  exact Reads.bind (Reads.refuse _ (by decide)) (Reads.bind (Reads.refuse _ (by decide)) hplace)

/-! ## The result -/

/-- **A shrunk volume keeps its data.**  When a shrink is prepared, every cluster in use but the bitmap's own is below the
new end; the new bitmap is below it too, on clusters that are free and that no record maps; and the new backup boot sector
is behind all clusters. -/
theorem shrink_sound {plan : ResizePlan} {F : Faults} {w w' : World} {disk : Device} {layout : Gpt.Plan} {number oldSectors workLen : Nat}
    (h : ResizePlan.prepare disk layout number oldSectors workLen F w = (.ok plan, w'))
    (hshrink : plan.newSectors < plan.oldSectors) :
    (∀ c, ((c < plan.oldClusters ∧ bitAt (oldBitmap plan w.disk) c = true) ∨ Mapped plan w.disk c) →
      plan.bitmap.owns c = false → c < plan.newClusters) ∧
    plan.bitmapLcn + plan.bitmapClusters ≤ plan.newClusters ∧
    (∀ c, plan.bitmapLcn ≤ c → c < plan.bitmapLcn + plan.bitmapClusters →
      c < plan.oldClusters ∧ bitAt (oldBitmap plan w.disk) c = false ∧ ¬ Mapped plan w.disk c) ∧
    plan.newClusters * 8 ≤ plan.newSectors - 1 := by
  obtain ⟨base, limits, lcn, hsurvey, hquery, hlcn, hlimit, rfl⟩ := prepare_shrunk h hshrink
  have hshrink : base.newSectors < base.oldSectors := hshrink
  have hbound := hquery.bound lcn base.newSectors hlcn hlimit hshrink
  have hnew := hsurvey.clusters.2
  have hmapped : ∀ c, Mapped base w.disk c → c < base.oldClusters ∧ bitAt (oldBitmap base w.disk) c = true := by
    rintro c ⟨number, hnumber, huse, attr, hattr, run, hrun, start, hstart, h1, h2⟩
    obtain ⟨hin, hset⟩ := ((hquery.seen number hnumber) huse).2 attr hattr run hrun start hstart
    exact ⟨by omega, hset c h1 h2⟩
  refine ⟨fun c hc hown => ?_, by dsimp only; omega, fun c h1 h2 => ?_, by dsimp only; omega⟩
  · have hheld : Held (oldBitmap base w.disk) base.bitmap base.oldClusters c := by
      rcases hc with hc | hc
      · exact ⟨hc.1, hc.2, hown⟩
      · exact ⟨(hmapped c hc).1, (hmapped c hc).2, hown⟩
    have := hquery.held c hheld
    dsimp only
    omega
  · obtain ⟨hin, hfree⟩ := hquery.free lcn hlcn c h1 h2
    exact ⟨hin, hfree, fun hm => by rw [show bitAt (oldBitmap base w.disk) c = true from (hmapped c hm).2] at hfree; cases hfree⟩

theorem shrink_sound_small : smallPlan.newSectors < smallPlan.oldSectors ∧ smallPlan.bitmapLcn = 8 ∧
    (∀ c, ((c < smallPlan.oldClusters ∧ bitAt (oldBitmap smallPlan smallDisk) c = true) ∨ Mapped smallPlan smallDisk c) →
      smallPlan.bitmap.owns c = false → c < smallPlan.newClusters) ∧
    (∀ c, 8 ≤ c → c < 9 → bitAt (oldBitmap smallPlan smallDisk) c = false ∧ ¬ Mapped smallPlan smallDisk c) := by
  obtain ⟨w', h, -⟩ := small_prepared { disk := smallDisk } rfl
  obtain ⟨hheld, -, hfree, -⟩ := shrink_sound h (by decide)
  exact ⟨by decide, rfl, hheld, fun c h1 h2 => (hfree c h1 h2).2⟩

end Ntfs
end R4
