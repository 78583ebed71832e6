import R4Recovery.Fields
import R4Recovery.FatRange
/-!
# FatRangeExact — ranged reads agree with whole reads

Every extent is a run of the chain of its file (`ReadRangeExtent.Sound`), whatever was read, written and evicted before.  A
file that is read whole has all its sectors (`Readable`), and a ranged read goes along the same chain.
-/
namespace R4
namespace Fat32

variable {v : Volume} {read : Nat → Option Bytes}

/-! ## Chains -/

/-- The cluster of a chain with a number. -/
def chainAt (v : Volume) (read : Nat → Option Bytes) (first : Nat) : Nat → Option Nat
  | 0 => some first
  | k + 1 => (chainAt v read first k).bind (fun cluster => fatEntry? v read cluster)

/-- A run of clusters that follow one another, on the disk as in the chain. -/
def Run (v : Volume) (read : Nat → Option Bytes) (first index cluster count : Nat) : Prop :=
  ∀ j, j < count → chainAt v read first (index + j) = some (cluster + j)

theorem chainAt_next {first next : Nat} (h : fatEntry? v read first = some next) : ∀ k,
    chainAt v read first (k + 1) = chainAt v read next k
  | 0 => h
  | k + 1 => by
    rw [chainAt, chainAt_next h k]
    rfl

theorem Run.one {first index cluster : Nat} (h : chainAt v read first index = some cluster) : Run v read first index cluster 1 := by
  intro j hj
  rw [show j = 0 by omega]
  exact h

theorem Run.head {first index cluster count : Nat} (h : Run v read first index cluster count) (hcount : 0 < count) :
    chainAt v read first index = some cluster := h 0 hcount

theorem Run.drop {first index cluster count : Nat} (h : Run v read first index cluster count) (n : Nat) :
    Run v read first (index + n) (cluster + n) (count - n) := by
  intro j hj
  rw [Nat.add_assoc, Nat.add_assoc]
  exact h (n + j) (by omega)

theorem Run.mono {first index cluster count count' : Nat} (h : Run v read first index cluster count) (hle : count' ≤ count) :
    Run v read first index cluster count' := fun j hj => h j (Nat.lt_of_lt_of_le hj hle)

theorem Run.snoc {first index cluster count : Nat} (h : Run v read first index cluster (count + 1))
    (hnext : fatEntry? v read (cluster + count) = some (cluster + count + 1)) : Run v read first index cluster (count + 2) := by
  intro j hj
  rcases Nat.lt_or_ge j (count + 1) with hlt | hge
  · exact h j hlt
  · rw [show j = count + 1 by omega, ← Nat.add_assoc, chainAt, h count (Nat.lt_succ_self count)]
    exact hnext

/-! ## Extents -/

/-- **An extent that is in use** is a run of the chain of its file. -/
def ReadRangeExtent.Sound (volumes : (device lba : Nat) → { v : Volume // v.partitionLba = lba }) (media : Nat → Medium)
    (x : ReadRangeExtent) : Prop :=
  x.valid = true →
    Run (volumes x.deviceIndex x.partitionLba).1 (media x.deviceIndex).read x.firstCluster x.clusterIndex x.cluster x.count

def ReadRangeCache.Sound (volumes : (device lba : Nat) → { v : Volume // v.partitionLba = lba }) (media : Nat → Medium)
    (c : ReadRangeCache) : Prop :=
  ∀ x ∈ c.extents, x.Sound volumes media

section Extents

variable {volumes : (device lba : Nat) → { v : Volume // v.partitionLba = lba }} {media : Nat → Medium}

theorem ReadRangeCache.Sound.fresh : ReadRangeCache.Sound volumes media {} := by
  intro x hx hvalid
  rw [List.eq_of_mem_replicate hx] at hvalid
  cases hvalid

theorem ReadRangeCache.Sound.invalidate (media' : Nat → Medium) (c : ReadRangeCache) : ReadRangeCache.Sound volumes media' c.invalidate := by
  intro x hx hvalid
  obtain ⟨y, -, rfl⟩ := List.mem_map.mp hx
  cases hvalid

theorem ReadRangeCache.Sound.forget {volumes' : (device lba : Nat) → { v : Volume // v.partitionLba = lba }} {c : ReadRangeCache}
    {device first count : Nat} (h : c.Sound volumes media)
    (hsame : ∀ d lba, ¬(d = device ∧ first ≤ lba ∧ lba - first < count) → volumes' d lba = volumes d lba) :
    (c.forget device first count).Sound volumes' media := by
  intro x hx hvalid
  obtain ⟨y, hy, rfl⟩ := List.mem_map.mp hx
  split at hvalid
  · cases hvalid
  · rename_i hout
    rw [if_neg hout]
    rw [hvalid, Bool.true_and] at hout
    have hkept : ¬(y.deviceIndex = device ∧ first ≤ y.partitionLba ∧ y.partitionLba - first < count) := by
      rintro ⟨hdevice, hfirst, hcount⟩
      exact hout (by simp [hdevice, hfirst, hcount])
    rw [hsame _ _ hkept]
    exact h y hy hvalid

theorem ReadRangeCache.Sound.touch {c : ReadRangeCache} (h : c.Sound volumes media) (i : Nat) : (c.touch i).Sound volumes media := by
  intro x hx
  obtain ⟨n, hn, hx⟩ := List.mem_iff_getElem.mp hx
  unfold ReadRangeCache.touch at hn hx
  dsimp only at hn hx
  rw [List.getElem_modify] at hx
  rw [List.length_modify] at hn
  have hkept : c.extents[n].Sound volumes media := h _ (List.getElem_mem hn)
  split at hx
  · rw [← hx]
    exact hkept
  · rw [← hx]
    exact hkept

theorem ReadRangeCache.Sound.remember {c : ReadRangeCache} {device lba : Nat} {e : Fat.Entry} {clusterIndex cluster count : Nat}
    (h : c.Sound volumes media)
    (hrun : Run (volumes device lba).1 (media device).read e.firstCluster clusterIndex cluster count) :
    (rememberReadRangeExtent (volumes device lba).1 device e clusterIndex cluster count c).Sound volumes media := by
  unfold rememberReadRangeExtent
  split
  · exact h
  · intro x hx
    dsimp only at hx
    rcases List.mem_or_eq_of_mem_set hx with hold | hnew
    · exact h x hold
    · intro _
      rw [hnew]
      dsimp only
      rw [(volumes device lba).2]
      exact hrun

theorem prefetchRun_spec (maxCount : Nat) {first index cluster : Nat} : ∀ (guard count : Nat), Run v read first index cluster (count + 1) →
    0 < prefetchRun v read maxCount guard (count + 1) (cluster + count) ∧
      Run v read first index cluster (prefetchRun v read maxCount guard (count + 1) (cluster + count))
  | 0, count, hrun => ⟨Nat.succ_pos count, hrun⟩
  | guard + 1, count, hrun => by
    rw [prefetchRun]
    split
    · split
      · exact ⟨Nat.succ_pos count, hrun⟩
      · rename_i next hnext
        split
        · exact ⟨Nat.succ_pos count, hrun⟩
        · rename_i hstep
          have hadjacent : next = cluster + (count + 1) := by omega
          rw [hadjacent] at hnext ⊢
          exact prefetchRun_spec maxCount guard (count + 1) (hrun.snoc hnext)
    · exact ⟨Nat.succ_pos count, hrun⟩

/-- **Storing an extent** keeps the cache sound and tells how far the run goes. -/
theorem cacheReadRangeExtentFrom_spec {c : ReadRangeCache} {device lba : Nat} {e : Fat.Entry} {clusterIndex cluster : Nat}
    (fileClusters : Nat) (h : c.Sound volumes media)
    (hat : chainAt (volumes device lba).1 (media device).read e.firstCluster clusterIndex = some cluster) :
    0 < (cacheReadRangeExtentFrom (volumes device lba).1 (media device).read device e fileClusters clusterIndex cluster c).1 ∧
      Run (volumes device lba).1 (media device).read e.firstCluster clusterIndex cluster
        (cacheReadRangeExtentFrom (volumes device lba).1 (media device).read device e fileClusters clusterIndex cluster c).1 ∧
      (cacheReadRangeExtentFrom (volumes device lba).1 (media device).read device e fileClusters clusterIndex cluster c).2.Sound
        volumes media := by
  unfold cacheReadRangeExtentFrom
  split
  · exact ⟨Nat.one_pos, Run.one hat, h⟩
  · have hrun := prefetchRun_spec (min (fileClusters - clusterIndex) extentPrefetchClusters) extentPrefetchClusters 0
      (Run.one hat)
    exact ⟨hrun.1, hrun.2, h.remember hrun.2⟩

/-! ## Cursors -/

/-- A cursor at or before a cluster of a chain. -/
structure ReadRangeCursor.Along (v : Volume) (read : Nat → Option Bytes) (first target : Nat) (c : ReadRangeCursor) : Prop where
  before : c.clusterIndex ≤ target
  pos : 0 < c.contiguousRemaining
  run : Run v read first c.clusterIndex c.cluster c.contiguousRemaining

def ExtentLook.cursor : ExtentLook → Option ReadRangeCursor
  | .hit _ cursor => some cursor
  | .best b => b

theorem lookExtents_along {first : Nat} (target : Nat) {suits : ReadRangeExtent → Bool} : ∀ (l : List ReadRangeExtent) (i : Nat)
    (best : Option ReadRangeCursor), (∀ x ∈ l, suits x = true → Run v read first x.clusterIndex x.cluster x.count) →
    (∀ b, best = some b → b.Along v read first target) →
    ∀ cursor, (lookExtents suits target l i best).cursor = some cursor → cursor.Along v read first target
  | [], _, best, _, hbest, cursor, h => hbest cursor h
  | x :: rest, i, best, hl, hbest, cursor, h => by
    have hrest := fun y hy => hl y (List.mem_cons_of_mem x hy)
    rw [lookExtents] at h
    split at h
    · exact lookExtents_along target rest (i + 1) best hrest hbest cursor h
    rename_i hused
    have hsuits : suits x = true ∧ x.count ≠ 0 := by
      simp only [Bool.or_eq_true, not_or, Bool.not_eq_true, Bool.not_eq_false', beq_eq_false_iff_ne] at hused
      exact ⟨hused.1.1.1, hused.2⟩
    have hrun := hl x List.mem_cons_self hsuits.1
    have hcount := hsuits.2
    split at h
    · rename_i hin
      cases h
      have htail := hrun.drop (target - x.clusterIndex)
      rw [Nat.add_sub_cancel' hin.1] at htail
      exact ⟨Nat.le_refl _, by dsimp only; omega, htail⟩
    split at h
    · rename_i hbehind
      refine lookExtents_along target rest (i + 1) _ hrest (fun b hb => ?_) cursor h
      cases hb
      have hlast := (hrun.drop (x.count - 1)).mono (show 1 ≤ _ by omega)
      rw [show x.clusterIndex + (x.count - 1) = x.clusterIndex + x.count - 1 by omega] at hlast
      exact ⟨by dsimp only; omega, Nat.one_pos, hlast⟩
    · exact lookExtents_along target rest (i + 1) best hrest hbest cursor h

/-- **A cached cursor** is along the chain of the file it is asked for. -/
theorem cachedReadRangeCluster_spec {c : ReadRangeCache} (device lba : Nat) (e : Fat.Entry) (target : Nat)
    (h : c.Sound volumes media) :
    (∀ cursor, (cachedReadRangeCluster (volumes device lba).1 device e target c).1 = some cursor →
      cursor.Along (volumes device lba).1 (media device).read e.firstCluster target) ∧
      (cachedReadRangeCluster (volumes device lba).1 device e target c).2.Sound volumes media := by
  have hsuits : ∀ x ∈ c.extents, readRangeExtentMatches (volumes device lba).1 device e x = true →
      Run (volumes device lba).1 (media device).read e.firstCluster x.clusterIndex x.cluster x.count := by
    intro x hx hmatch
    simp only [readRangeExtentMatches, Bool.and_eq_true, beq_iff_eq] at hmatch
    obtain ⟨⟨⟨⟨hvalid, hdevice⟩, hlba⟩, hfirst⟩, -⟩ := hmatch
    have hrun := h x hx hvalid
    rw [hdevice, hlba, hfirst, (volumes device lba).2] at hrun
    exact hrun
  have halong := lookExtents_along target c.extents 0 none hsuits (fun b hb => by cases hb)
  unfold cachedReadRangeCluster
  cases hlook : lookExtents (readRangeExtentMatches (volumes device lba).1 device e) target c.extents 0 none with
  | hit i cursor =>
    rw [hlook] at halong
    exact ⟨halong, h.touch i⟩
  | best best =>
    rw [hlook] at halong
    exact ⟨halong, h⟩

theorem skipClusters_spec {first target : Nat} : ∀ (guard skip : Nat) (c : ReadRangeCursor), c.Along v read first target →
    c.clusterIndex + skip = target → ∀ (skip' : Nat) (c' : ReadRangeCursor),
    skipClusters v read guard skip c = some (skip', c') → c'.Along v read first target ∧ c'.clusterIndex + skip' = target
  | 0, skip, c, hc, htarget, skip', c', h => by
    cases h
    exact ⟨hc, htarget⟩
  | guard + 1, skip, c, hc, htarget, skip', c', h => by
    rw [skipClusters] at h
    split at h
    · rename_i hmore
      split at h
      · rename_i hrun
        refine skipClusters_spec guard _ _ ⟨?_, ?_, hc.run.drop _⟩ ?_ skip' c' h
        · dsimp only
          omega
        · dsimp only
          omega
        · dsimp only
          omega
      · cases hnext : fatEntry? v read c.cluster with
        | none =>
          rw [hnext] at h
          cases h
        | some next =>
          rw [hnext] at h
          have hat : chainAt v read first (c.clusterIndex + 1) = some next := by
            rw [chainAt, hc.run.head hc.pos]
            exact hnext
          refine skipClusters_spec guard _ _ ⟨?_, Nat.one_pos, Run.one hat⟩ ?_ skip' c' h
          · dsimp only
            omega
          · dsimp only
            omega
    · cases h
      exact ⟨hc, htarget⟩

theorem copyClusters_sound {device lba : Nat} {e : Fat.Entry} {wanted : Nat} : ∀ (guard : Nat) (cursor : ReadRangeCursor)
    (inCluster : Nat) (out : Bytes) (c : ReadRangeCache), 0 < cursor.contiguousRemaining →
    Run (volumes device lba).1 (media device).read e.firstCluster cursor.clusterIndex cursor.cluster cursor.contiguousRemaining →
    c.Sound volumes media →
    (copyClusters (volumes device lba).1 (media device).read device e wanted guard cursor inCluster out c).2.Sound volumes media
  | 0, _, _, _, _, _, _, h => h
  | guard + 1, cursor, inCluster, out, c, hsome, hrun, h => by
    rw [copyClusters]
    split
    · split
      · exact h
      · rename_i out' hcopy
        split
        · exact h
        · split
          · rename_i hmore
            exact copyClusters_sound guard _ 0 out' c (by dsimp only; omega) (hrun.drop 1) h
          · split
            · exact h
            · rename_i next hnext
              have hat : chainAt (volumes device lba).1 (media device).read e.firstCluster (cursor.clusterIndex + 1) =
                  some next := by
                rw [chainAt, hrun.head hsome]
                exact hnext
              obtain ⟨hsome', hrun', hsound'⟩ := cacheReadRangeExtentFrom_spec
                (fileClusterCount e.size (volumes device lba).1.clusterBytes) h hat
              exact copyClusters_sound guard _ 0 out' _ hsome' hrun' hsound'
    · exact h

theorem copyRange_sound {device lba : Nat} {e : Fat.Entry} (wanted inCluster : Nat) {cursor : ReadRangeCursor}
    {c : ReadRangeCache} (hsome : 0 < cursor.contiguousRemaining)
    (hrun : Run (volumes device lba).1 (media device).read e.firstCluster cursor.clusterIndex cursor.cluster
      cursor.contiguousRemaining) (h : c.Sound volumes media) :
    (copyRange (volumes device lba).1 (media device).read device e wanted inCluster cursor c).2.Sound volumes media := by
  unfold copyRange
  dsimp only
  split
  · obtain ⟨hsome', hrun', hsound'⟩ := cacheReadRangeExtentFrom_spec
      (fileClusterCount e.size (volumes device lba).1.clusterBytes) h (hrun.head hsome)
    exact copyClusters_sound _ { cursor with contiguousRemaining := _ } inCluster [] _ hsome' hrun' hsound'
  · exact copyClusters_sound _ { cursor with contiguousRemaining := _ } inCluster [] _ hsome hrun h

theorem start_along {c : ReadRangeCache} (device lba : Nat) (e : Fat.Entry) (target : Nat) (h : c.Sound volumes media) :
    ((cachedReadRangeCluster (volumes device lba).1 device e target c).1.getD { cluster := e.firstCluster }).Along
      (volumes device lba).1 (media device).read e.firstCluster target := by
  cases hcached : (cachedReadRangeCluster (volumes device lba).1 device e target c).1 with
  | none => exact ⟨Nat.zero_le _, Nat.one_pos, Run.one rfl⟩
  | some cursor => exact (cachedReadRangeCluster_spec device lba e target h).1 cursor hcached

/-- **A ranged read** of any entry keeps the cache sound. -/
theorem readFileRange_sound {device lba : Nat} {e : Fat.Entry} {offset len : Nat} {c c' : ReadRangeCache} {result : Option Bytes}
    (h : c.Sound volumes media)
    (hread : readFileRange (volumes device lba).1 (media device).read device e offset len c = some (result, c')) :
    c'.Sound volumes media := by
  have hcached := (cachedReadRangeCluster_spec device lba e (offset / (volumes device lba).1.clusterBytes) h).2
  have hstart := start_along device lba e (offset / (volumes device lba).1.clusterBytes) h
  unfold readFileRange at hread
  split at hread
  · cases hread
    exact h
  split at hread
  · cases hread
    exact h
  split at hread
  · cases hread
    exact h
  split at hread
  · cases hread
  dsimp only at hread
  split at hread
  · cases hread
    exact hcached
  split at hread
  · cases hread
    exact hcached
  rename_i skip cursor hskip
  obtain ⟨halong, -⟩ := skipClusters_spec _ _ _ hstart (Nat.add_sub_cancel' hstart.before) _ _ hskip
  split at hread
  · cases hread
    exact hcached
  split at hread
  · cases hread
  split at hread
  · cases hread
    exact hcached
  · have hcopy := copyRange_sound (min len (e.size - offset)) (offset % (volumes device lba).1.clusterBytes)
      halong.pos halong.run hcached
    rw [Option.some.inj hread] at hcopy
    exact hcopy

end Extents

/-- **Every extent of every run** is a run of its chain. -/
theorem RangeReachable.sound {s : RangeState} (h : RangeReachable s) : s.cache.Sound s.volumes s.media := by
  induction h with
  | start volumes media => exact .fresh
  | step hs hstep ih =>
    cases hstep with
    | read device lba e offset len result cache hread => exact readFileRange_sound ih hread
    | mutate media => exact .invalidate media _
    | remount device first count volumes hsame => exact ih.forget hsame

/-! ## Files that are read whole -/

/-- A file whose sectors are all read, from the first cluster on. -/
structure Readable (v : Volume) (read : Nat → Option Bytes) (first size : Nat) (content : Bytes) : Prop where
  length : content.length = size
  sectors : ∀ k, sectorSize * k < size → ∃ (cluster : Nat) (sector : Bytes),
    chainAt v read first (k / v.sectorsPerCluster) = some cluster ∧ v.validDataCluster cluster = true ∧
    read (v.clusterLba cluster + k % v.sectorsPerCluster) = some sector ∧
    slice content (sectorSize * k) (min sectorSize (size - sectorSize * k)) = slice sector 0 (min sectorSize (size - sectorSize * k))

theorem readFileSectors_spec (hfull : ∀ {lba : Nat} {sector : Bytes}, read lba = some sector → sector.length = sectorSize)
    (lba : Nat) : ∀ (n i remaining : Nat) (out : Bytes) (remaining' : Nat),
    readFileSectors read lba n i remaining = some (out, remaining') →
    out.length = min remaining (sectorSize * n) ∧ remaining' = remaining - out.length ∧
      ∀ j, sectorSize * j < out.length → ∃ sector, read (lba + (i + j)) = some sector ∧
        slice out (sectorSize * j) (min sectorSize (remaining - sectorSize * j)) =
          slice sector 0 (min sectorSize (remaining - sectorSize * j))
  | 0, i, remaining, out, remaining', h => by
    cases h
    exact ⟨(Nat.min_eq_right (Nat.zero_le _)).symm, rfl, fun j hj => absurd hj (Nat.not_lt_zero _)⟩
  | n + 1, i, remaining, out, remaining', h => by
    rw [readFileSectors] at h
    split at h
    · rename_i hnone
      cases h
      subst hnone
      exact ⟨(Nat.min_eq_left (Nat.zero_le _)).symm, rfl, fun j hj => absurd hj (Nat.not_lt_zero _)⟩
    rename_i hsome
    cases hread : read (lba + i) with
    | none =>
      rw [hread] at h
      cases h
    | some sector =>
      rw [hread] at h
      dsimp only at h
      obtain ⟨⟨rest, left⟩, hrest, heq⟩ := Option.map_eq_some_iff.mp h
      obtain ⟨hlen, hleft, hsectors⟩ := readFileSectors_spec hfull lba n (i + 1) _ rest left hrest
      have hsector := hfull hread
      have hpiece : (slice sector 0 (min remaining sectorSize)).length = min remaining sectorSize := length_slice (by omega)
      dsimp only at heq
      obtain ⟨rfl, rfl⟩ := Prod.mk.inj heq
      refine ⟨by rw [List.length_append, hpiece, hlen, Nat.mul_succ]; omega, ?_, fun j hj => ?_⟩
      · rw [hleft, List.length_append, hpiece]
        omega
      · cases j with
        | zero =>
          refine ⟨sector, hread, ?_⟩
          rw [Nat.mul_zero, Nat.sub_zero, Nat.min_comm sectorSize, slice_front _ (by rw [hpiece]; omega),
            slice_slice _ (by omega)]
        | succ j =>
          rw [List.length_append, hpiece, Nat.mul_succ] at hj
          -- a sector behind the first one: the first was whole
          have hwhole : min remaining sectorSize = sectorSize := by
            rw [hlen] at hj
            omega
          rw [hwhole] at hpiece hsectors hj ⊢
          obtain ⟨sector', hread', heq'⟩ := hsectors j (by omega)
          refine ⟨sector', by rw [← hread']; congr 1; omega, ?_⟩
          rw [show sectorSize * (j + 1) = sectorSize + sectorSize * j by rw [Nat.mul_succ, Nat.add_comm], slice_behind _ hpiece,
            show remaining - (sectorSize + sectorSize * j) = remaining - sectorSize - sectorSize * j by omega]
          exact heq'

theorem validDataCluster_spec {cluster : Nat} (h : v.validDataCluster cluster = true) :
    0 < v.sectorsPerCluster ∧ 2 ≤ cluster ∧ cluster < eoc ∧ cluster < v.allocClusterEnd := by
  unfold Volume.validDataCluster at h
  simp only [Bool.and_eq_true, Bool.not_eq_true', Bool.or_eq_false_iff, decide_eq_false_iff_not, beq_eq_false_iff_ne,
    decide_eq_true_eq] at h
  obtain ⟨⟨⟨⟨⟨hlow, hreserved⟩, hsectors⟩, hmetadata⟩, hend⟩, -⟩ := h
  rw [show reservedStart = 0x0FFFFFF0 from rfl] at hreserved
  refine ⟨Nat.pos_of_ne_zero hsectors, by omega, by rw [show eoc = 0x0FFFFFF8 from rfl]; omega, ?_⟩
  have htotal : v.totalClusters =
      (v.totalSectors - (v.reservedSectors + v.fatCount * v.sectorsPerFat)) / v.sectorsPerCluster := by
    unfold Volume.totalClusters
    exact if_neg (by rintro (h | h) <;> contradiction)
  unfold Volume.allocClusterEnd
  dsimp only
  rw [htotal]
  split
  · omega
  · omega

theorem readFileClusters_spec (hfull : ∀ {lba : Nat} {sector : Bytes}, read lba = some sector → sector.length = sectorSize) :
    ∀ (guard cluster remaining : Nat) (out : Bytes), readFileClusters v read guard cluster remaining = some (out, 0) →
    Readable v read cluster remaining out
  | 0, cluster, remaining, out, h => by
    cases h
    exact ⟨rfl, fun k hk => absurd hk (Nat.not_lt_zero _)⟩
  | guard + 1, cluster, remaining, out, h => by
    rw [readFileClusters] at h
    split at h
    · rename_i hnone
      cases h
      subst hnone
      exact ⟨rfl, fun k hk => absurd hk (Nat.not_lt_zero _)⟩
    split at h
    · cases h
    rename_i hvalid
    rw [Bool.not_eq_true, Bool.not_eq_false'] at hvalid
    have hsectors := (validDataCluster_spec hvalid).1
    split at h
    · cases h
    rename_i piece left hpiece
    obtain ⟨hlen, hleft, hread⟩ := readFileSectors_spec hfull _ _ _ _ _ _ hpiece
    -- the sectors of the first cluster
    have hhere : ∀ k, k < v.sectorsPerCluster → sectorSize * k < piece.length → ∃ sector,
        chainAt v read cluster (k / v.sectorsPerCluster) = some cluster ∧
        read (v.clusterLba cluster + k % v.sectorsPerCluster) = some sector ∧
        slice piece (sectorSize * k) (min sectorSize (remaining - sectorSize * k)) =
          slice sector 0 (min sectorSize (remaining - sectorSize * k)) := by
      intro k hk hin
      obtain ⟨sector, hsector, heq⟩ := hread k hin
      rw [Nat.zero_add] at hsector
      refine ⟨sector, ?_, ?_, heq⟩
      · rw [Nat.div_eq_of_lt hk]
        rfl
      · rw [Nat.mod_eq_of_lt hk]
        exact hsector
    split at h
    · rename_i hdone
      cases h
      rw [hdone] at hleft
      have hall : out.length = remaining := by omega
      refine ⟨hall, fun k hk => ?_⟩
      have hin : k < v.sectorsPerCluster := by
        refine Nat.lt_of_mul_lt_mul_left (a := sectorSize) ?_
        omega
      obtain ⟨sector, hat, hsector, heq⟩ := hhere k hin (by omega)
      exact ⟨cluster, sector, hat, hvalid, hsector, heq⟩
    rename_i hmore
    split at h
    · cases h
    rename_i next hnext
    split at h
    · cases h
      exact absurd rfl hmore
    obtain ⟨⟨rest, left'⟩, hrest, heq⟩ := Option.map_eq_some_iff.mp h
    dsimp only at heq
    obtain ⟨rfl, rfl⟩ := Prod.mk.inj heq
    have hbehind := readFileClusters_spec hfull guard next left rest hrest
    have hcluster : piece.length = sectorSize * v.sectorsPerCluster := by omega
    refine ⟨by rw [List.length_append, hbehind.length]; omega, fun k hk => ?_⟩
    rcases Nat.lt_or_ge k v.sectorsPerCluster with hin | hout
    · have hend : sectorSize * k + sectorSize ≤ piece.length := by
        rw [hcluster, ← Nat.mul_succ]
        exact Nat.mul_le_mul_left sectorSize hin
      obtain ⟨sector, hat, hsector, heq⟩ := hhere k hin (by rw [show sectorSize = 512 from rfl] at hend ⊢; omega)
      refine ⟨cluster, sector, hat, hvalid, hsector, ?_⟩
      rw [slice_front _ (by omega), heq]
    · obtain ⟨d, rfl⟩ := Nat.exists_eq_add_of_le hout
      rw [Nat.mul_add, ← hcluster] at hk ⊢
      obtain ⟨cluster', sector, hat, hvalid', hsector, heq⟩ := hbehind.sectors d (by omega)
      refine ⟨cluster', sector, ?_, hvalid', ?_, ?_⟩
      · rw [Nat.add_div_left _ hsectors, chainAt_next hnext]
        exact hat
      · rw [Nat.add_mod_left]
        exact hsector
      · rw [slice_behind _ rfl, show remaining - (piece.length + sectorSize * d) = left - sectorSize * d by omega]
        exact heq

/-- **A file that is read whole** has all its sectors, and no more clusters than the volume. -/
theorem readFile_spec (m : Medium) {e : Fat.Entry} {room : Nat} {content : Bytes} (h : readFile v m.read e room = some content) :
    e.isDir = false ∧ v.clusterBytes ≠ 0 ∧ fileClusterCount e.size v.clusterBytes ≤ v.totalClusters ∧
      Readable v m.read e.firstCluster e.size content := by
  unfold readFile at h
  split at h
  · cases h
  rename_i hdir
  split at h
  · cases h
  split at h
  · cases h
  rename_i hbytes
  dsimp only at h
  split at h
  · cases h
  rename_i hneeded
  split at h
  · rename_i out hread
    cases h
    exact ⟨Bool.eq_false_iff.mpr hdir, hbytes, Nat.le_of_not_lt hneeded, readFileClusters_spec m.full _ _ _ _ hread⟩
  · cases h

/-! ## Ranges -/

theorem lt_fileClusterCount (size i : Nat) {clusterSize : Nat} (h : 0 < clusterSize) :
    i < fileClusterCount size clusterSize ↔ i * clusterSize < size := by
  unfold fileClusterCount
  by_cases hsize : size = 0
  · rw [if_pos (.inl hsize)]
    omega
  · rw [if_neg (by omega), Nat.lt_iff_add_one_le, Nat.le_div_iff_mul_le h, Nat.succ_mul]
    omega

namespace Readable

variable {first size : Nat} {content : Bytes}

theorem sector (h : Readable v read first size content) {index cluster i : Nat}
    (hat : chainAt v read first index = some cluster) (hi : i < v.sectorsPerCluster)
    (hin : sectorSize * (index * v.sectorsPerCluster + i) < size) :
    ∃ sector, read (v.clusterLba cluster + i) = some sector ∧
      slice content (sectorSize * (index * v.sectorsPerCluster + i))
          (min sectorSize (size - sectorSize * (index * v.sectorsPerCluster + i))) =
        slice sector 0 (min sectorSize (size - sectorSize * (index * v.sectorsPerCluster + i))) := by
  obtain ⟨cluster', sector, hat', -, hread, heq⟩ := h.sectors _ hin
  have hdiv : (index * v.sectorsPerCluster + i) / v.sectorsPerCluster = index := by
    rw [Nat.add_comm, Nat.add_mul_div_right _ _ (by omega), Nat.div_eq_of_lt hi, Nat.zero_add]
  have hmod : (index * v.sectorsPerCluster + i) % v.sectorsPerCluster = i := by
    rw [Nat.add_comm, Nat.add_mul_mod_self_right, Nat.mod_eq_of_lt hi]
  rw [hdiv, hat] at hat'
  rw [hmod, ← Option.some.inj hat'] at hread
  exact ⟨sector, hread, heq⟩

theorem cluster (h : Readable v read first size content) (hspc : 0 < v.sectorsPerCluster) (index : Nat)
    (hin : index * v.clusterBytes < size) :
    ∃ cluster, chainAt v read first index = some cluster ∧ v.validDataCluster cluster = true := by
  have hstart : sectorSize * (index * v.sectorsPerCluster) < size := by
    rw [show sectorSize * (index * v.sectorsPerCluster) = index * v.clusterBytes by rw [Volume.clusterBytes, Nat.mul_left_comm]]
    exact hin
  obtain ⟨cluster, sector, hat, hvalid, -⟩ := h.sectors _ hstart
  rw [Nat.mul_div_cancel _ hspc] at hat
  exact ⟨cluster, hat, hvalid⟩

end Readable

theorem readSectors_exact (content : Bytes) : ∀ (n lba k : Nat),
    (∀ j, j < n → read (lba + j) = some (slice content (sectorSize * (k + j)) sectorSize)) →
    readSectors read lba n = some (slice content (sectorSize * k) (sectorSize * n))
  | 0, lba, k, _ => by
    rw [readSectors, Nat.mul_zero, slice, List.take_zero]
  | n + 1, lba, k, h => by
    have hrest := readSectors_exact content n (lba + 1) (k + 1) (fun j hj => by
      have hnext := h (j + 1) (by omega)
      rw [Nat.add_comm j 1, ← Nat.add_assoc, ← Nat.add_assoc] at hnext
      exact hnext)
    have hfirst := h 0 (Nat.succ_pos n)
    rw [Nat.add_zero, Nat.add_zero] at hfirst
    rw [readSectors, hfirst]
    dsimp only
    rw [hrest, Nat.mul_succ, Nat.mul_succ, Nat.add_comm (sectorSize * n), slice_append]
    rfl

/-- **The part of a range in a cluster.** -/
theorem copyCluster_exact (hfull : ∀ {lba : Nat} {sector : Bytes}, read lba = some sector → sector.length = sectorSize)
    {first size : Nat} {content : Bytes} (h : Readable v read first size content) {index cluster : Nat}
    (hat : chainAt v read first index = some cluster) {offset wanted : Nat} (hwanted : offset + wanted ≤ size) :
    ∀ (fuel i so copied : Nat), v.sectorsPerCluster ≤ fuel + i → i ≤ v.sectorsPerCluster → so < sectorSize →
    (i < v.sectorsPerCluster ∨ so = 0) → copied ≤ wanted →
    (copied = wanted ∨ offset + copied = sectorSize * (index * v.sectorsPerCluster + i) + so) →
    ∃ copied', copyCluster v read (v.clusterLba cluster) wanted fuel i so (slice content offset copied) =
        some (slice content offset copied') ∧ copied' ≤ wanted ∧
      (copied' = wanted ∨ offset + copied' = sectorSize * ((index + 1) * v.sectorsPerCluster)) := by
  have hsize : content.length = size := h.length
  -- where the loop ends
  have hend : ∀ i so copied, v.sectorsPerCluster ≤ i ∨ wanted ≤ copied → i ≤ v.sectorsPerCluster →
      (i < v.sectorsPerCluster ∨ so = 0) → copied ≤ wanted →
      (copied = wanted ∨ offset + copied = sectorSize * (index * v.sectorsPerCluster + i) + so) →
      copied = wanted ∨ offset + copied = sectorSize * ((index + 1) * v.sectorsPerCluster) := by
    intro i so copied hstop hi hso hcopied hpos
    rcases hpos with hdone | hpos
    · exact .inl hdone
    · rcases hstop with hlast | hdone
      · refine .inr ?_
        rw [hpos, Nat.succ_mul, show i = v.sectorsPerCluster by omega, show so = 0 by omega, Nat.add_zero]
      · exact .inl (by omega)
  intro fuel
  induction fuel with
  | zero =>
    intro i so copied hfuel hi hso hturn hcopied hpos
    exact ⟨copied, rfl, hcopied, hend i so copied (.inl (by omega)) hi hturn hcopied hpos⟩
  | succ fuel ih =>
    intro i so copied hfuel hi hso hturn hcopied hpos
    have hlen : (slice content offset copied).length = copied := length_slice (by omega)
    rw [copyCluster, hlen]
    split
    · rename_i hstop
      exact ⟨copied, rfl, hcopied, hend i so copied hstop hi hturn hcopied hpos⟩
    rename_i hmore
    have hpos' : offset + copied = sectorSize * (index * v.sectorsPerCluster + i) + so := by omega
    split
    · rename_i hwhole
      obtain ⟨rfl, hroom⟩ := hwhole
      rw [Nat.add_zero] at hpos'
      have hdiv := Nat.div_mul_le_self (wanted - copied) sectorSize
      have hsome : 0 < (wanted - copied) / sectorSize := Nat.div_pos hroom (by decide)
      generalize hn : min (v.sectorsPerCluster - i) ((wanted - copied) / sectorSize) = n
      have hnsize : n * sectorSize ≤ wanted - copied :=
        Nat.le_trans (Nat.mul_le_mul_right _ (hn ▸ Nat.min_le_right _ _)) hdiv
      have hread : readSectors read (v.clusterLba cluster + i) n =
          some (slice content (sectorSize * (index * v.sectorsPerCluster + i)) (sectorSize * n)) := by
        refine readSectors_exact content n (v.clusterLba cluster + i) (index * v.sectorsPerCluster + i) (fun j hj => ?_)
        have hjs : (j + 1) * sectorSize ≤ n * sectorSize := Nat.mul_le_mul_right _ hj
        rw [Nat.succ_mul] at hjs
        have hexp : sectorSize * (index * v.sectorsPerCluster + (i + j)) =
            sectorSize * (index * v.sectorsPerCluster + i) + j * sectorSize := by
          rw [← Nat.add_assoc, Nat.mul_add sectorSize _ j, Nat.mul_comm sectorSize j]
        obtain ⟨sector, hsector, heq⟩ := h.sector (i := i + j) hat (by omega) (by omega)
        rw [Nat.min_eq_left (by omega), slice_all (hfull hsector)] at heq
        rw [Nat.add_assoc, Nat.add_assoc, hsector, heq]
      dsimp only
      rw [hread, ← hpos', Nat.mul_comm sectorSize n]
      dsimp only
      rw [← slice_append]
      refine ih (i + n) 0 (copied + n * sectorSize) (by omega) (by omega) hso (.inr rfl) (by omega) (.inr ?_)
      rw [Nat.add_zero, ← Nat.add_assoc, hpos', ← Nat.add_assoc, Nat.mul_add sectorSize _ n, Nat.mul_comm sectorSize n]
    · have hi' : i < v.sectorsPerCluster := by omega
      obtain ⟨sector, hsector, heq⟩ := h.sector hat hi' (by omega)
      have hpiece : slice sector so (min (sectorSize - so) (wanted - copied)) =
          slice content (offset + copied) (min (sectorSize - so) (wanted - copied)) := by
        rw [hpos', ← slice_slice content (show so + min (sectorSize - so) (wanted - copied) ≤
          min sectorSize (size - sectorSize * (index * v.sectorsPerCluster + i)) by omega), heq, slice_slice _ (by omega),
          Nat.zero_add]
      rw [hsector]
      dsimp only
      rw [hpiece, ← slice_append]
      refine ih (i + 1) 0 (copied + min (sectorSize - so) (wanted - copied)) (by omega) (by omega) (by decide) (.inr rfl)
        (by omega) ?_
      rcases Nat.le_total (sectorSize - so) (wanted - copied) with hle | hle
      · refine .inr ?_
        rw [Nat.min_eq_left hle, ← Nat.add_assoc (index * v.sectorsPerCluster) i 1, Nat.mul_succ]
        omega
      · rw [Nat.min_eq_right hle]
        exact .inl (by omega)

theorem skipClusters_exact {first size : Nat} {content : Bytes} (h : Readable v read first size content)
    (hspc : 0 < v.sectorsPerCluster) {target : Nat} (htarget : target * v.clusterBytes < size) : ∀ (guard skip : Nat)
    (c : ReadRangeCursor), 0 < c.contiguousRemaining →
    Run v read first c.clusterIndex c.cluster c.contiguousRemaining → c.clusterIndex + skip = target → skip ≤ guard →
    ∃ c', skipClusters v read guard skip c = some (0, c')
  | 0, skip, c, _, _, _, hguard => ⟨c, by rw [skipClusters, Nat.le_zero.mp hguard]⟩
  | guard + 1, skip, c, hpos, hrun, hskip, hguard => by
    rw [skipClusters]
    by_cases hmore : 0 < skip
    · have hhere : c.clusterIndex * v.clusterBytes < size :=
        Nat.lt_of_le_of_lt (Nat.mul_le_mul_right _ (by omega)) htarget
      have hthere : (c.clusterIndex + 1) * v.clusterBytes < size :=
        Nat.lt_of_le_of_lt (Nat.mul_le_mul_right _ (by omega)) htarget
      obtain ⟨cluster, hat, hvalid⟩ := h.cluster hspc c.clusterIndex hhere
      rw [hrun.head hpos] at hat
      obtain ⟨-, hlow, heoc, -⟩ := validDataCluster_spec hvalid
      rw [← Option.some.inj hat] at hlow heoc
      rw [if_pos ⟨hmore, hlow, heoc⟩]
      split
      · exact skipClusters_exact h hspc htarget guard _ _ (by dsimp only; omega) (hrun.drop _) (by dsimp only; omega) (by omega)
      · obtain ⟨next, hat', -⟩ := h.cluster hspc (c.clusterIndex + 1) hthere
        have hnext : fatEntry? v read c.cluster = some next := by
          rw [chainAt, hrun.head hpos] at hat'
          exact hat'
        rw [hnext]
        exact skipClusters_exact h hspc htarget guard _ _ Nat.one_pos (Run.one hat') (by dsimp only; omega) (by omega)
    · rw [if_neg (fun hall => hmore hall.1)]
      exact ⟨c, by rw [show skip = 0 by omega]⟩

section Range

variable {volumes : (device lba : Nat) → { v : Volume // v.partitionLba = lba }} {media : Nat → Medium}

/-- **The range, cluster by cluster.** -/
theorem copyClusters_exact {device lba : Nat} {e : Fat.Entry} {content : Bytes}
    (h : Readable (volumes device lba).1 (media device).read e.firstCluster e.size content)
    (hspc : 0 < (volumes device lba).1.sectorsPerCluster) {offset wanted : Nat} (hwanted : offset + wanted ≤ e.size) :
    ∀ (guard : Nat) (cursor : ReadRangeCursor) (inCluster copied : Nat) (c : ReadRangeCache),
    0 < cursor.contiguousRemaining →
    Run (volumes device lba).1 (media device).read e.firstCluster cursor.clusterIndex cursor.cluster cursor.contiguousRemaining →
    c.Sound volumes media → copied < wanted →
    offset + copied = cursor.clusterIndex * (volumes device lba).1.clusterBytes + inCluster →
    inCluster < (volumes device lba).1.clusterBytes →
    fileClusterCount e.size (volumes device lba).1.clusterBytes ≤ guard + cursor.clusterIndex →
    (copyClusters (volumes device lba).1 (media device).read device e wanted guard cursor inCluster
      (slice content offset copied) c).1 = some (slice content offset wanted) := by
  have hsize : content.length = e.size := h.length
  have hbytes : 0 < (volumes device lba).1.clusterBytes := Nat.mul_pos (by decide) hspc
  intro guard
  induction guard with
  | zero =>
    intro cursor inCluster copied c _ _ _ hcopied hpos hin hguard
    have hlt := (lt_fileClusterCount e.size cursor.clusterIndex hbytes).2 (by omega)
    omega
  | succ guard ih =>
    intro cursor inCluster copied c hsome hrun hsound hcopied hpos hin hguard
    obtain ⟨cluster, hat, hvalid⟩ := h.cluster hspc cursor.clusterIndex (by omega)
    have hcluster : cursor.cluster = cluster := by
      rw [hrun.head hsome] at hat
      exact Option.some.inj hat
    subst hcluster
    obtain ⟨-, hlow, -, hend⟩ := validDataCluster_spec hvalid
    have hlen : (slice content offset copied).length = copied := length_slice (by omega)
    -- the slot in the cluster where the range goes on
    have hmod : inCluster % sectorSize < sectorSize := Nat.mod_lt _ (by decide)
    have hsector : inCluster / sectorSize < (volumes device lba).1.sectorsPerCluster :=
      Nat.div_lt_of_lt_mul hin
    have hplace : offset + copied = sectorSize * (cursor.clusterIndex * (volumes device lba).1.sectorsPerCluster +
        inCluster / sectorSize) + inCluster % sectorSize := by
      rw [hpos, Nat.mul_add, Nat.add_assoc, Nat.div_add_mod, Volume.clusterBytes, Nat.mul_left_comm]
    obtain ⟨copied', hcopy, hle, hturn⟩ := copyCluster_exact (media device).full h hat hwanted
      (volumes device lba).1.sectorsPerCluster (inCluster / sectorSize) (inCluster % sectorSize) copied (Nat.le_add_right _ _)
      (Nat.le_of_lt hsector) hmod (.inl hsector) (Nat.le_of_lt hcopied) (.inr hplace)
    have hlen' : (slice content offset copied').length = copied' := length_slice (by omega)
    rw [copyClusters, hlen, if_pos ⟨hcopied, hlow, hend⟩, hcopy]
    dsimp only
    rw [hlen']
    split
    · rename_i hdone
      rw [show copied' = wanted by omega]
    · rename_i hmore
      have hpos' : offset + copied' = (cursor.clusterIndex + 1) * (volumes device lba).1.clusterBytes + 0 := by
        rcases hturn with hdone | hturn
        · omega
        · rw [hturn, Nat.add_zero]
          exact Nat.mul_left_comm _ _ _
      split
      · rename_i hcont
        exact ih _ 0 copied' c (by dsimp only; omega) (hrun.drop 1) hsound (by omega) hpos' hbytes (by dsimp only; omega)
      · obtain ⟨next, hat', -⟩ := h.cluster hspc (cursor.clusterIndex + 1) (by omega)
        have hnext : fatEntry? (volumes device lba).1 (media device).read cursor.cluster = some next := by
          rw [chainAt, hat] at hat'
          exact hat'
        rw [hnext]
        dsimp only
        obtain ⟨hsome', hrun', hsound'⟩ := cacheReadRangeExtentFrom_spec
          (fileClusterCount e.size (volumes device lba).1.clusterBytes) hsound hat'
        exact ih _ 0 copied' _ hsome' hrun' hsound' (by omega) hpos' hbytes (by dsimp only; omega)

/-- **Ranged reads agree with whole reads** through whatever extents a run leaves, but for the trap of a table of 2²³ sectors or
more.  There a ranged read that has bytes to read never comes back. -/
theorem readFileRange_exact {s : RangeState} (hs : RangeReachable s) (device lba : Nat) {e : Fat.Entry} {room : Nat}
    {content : Bytes} (hfile : readFile (s.volumes device lba).1 (s.media device).read e room = some content) {offset : Nat}
    (hoffset : offset ≤ e.size) (len : Nat) :
    (∃ cache, readFileRange (s.volumes device lba).1 (s.media device).read device e offset len s.cache =
        some (some (slice content offset (min len (e.size - offset))), cache)) ↔
      (s.volumes device lba).1.sectorsPerFat < 2 ^ 23 ∨ len = 0 ∨ offset = e.size := by
  have hsound := hs.sound
  generalize s.volumes = volumes at hfile hsound ⊢
  generalize s.media = media at hfile hsound ⊢
  generalize s.cache = cache at hsound ⊢
  obtain ⟨hdir, hbytes, htotal, hreadable⟩ := readFile_spec (media device) hfile
  unfold readFileRange
  rw [if_neg (by rw [hdir]; exact Bool.false_ne_true), if_neg (by omega)]
  by_cases hnone : len = 0 ∨ offset = e.size
  · rw [if_pos hnone]
    refine ⟨fun _ => .inr hnone, fun _ => ⟨cache, ?_⟩⟩
    rw [show min len (e.size - offset) = 0 by omega, slice, List.take_zero]
  rw [if_neg hnone, if_neg hbytes]
  have hpos : 0 < (volumes device lba).1.clusterBytes := Nat.pos_of_ne_zero hbytes
  have hspc : 0 < (volumes device lba).1.sectorsPerCluster := Nat.pos_of_mul_pos_left hpos
  have htarget : offset / (volumes device lba).1.clusterBytes * (volumes device lba).1.clusterBytes < e.size :=
    Nat.lt_of_le_of_lt (Nat.div_mul_le_self _ _) (by omega)
  have hcount := (lt_fileClusterCount e.size (offset / (volumes device lba).1.clusterBytes) hpos).2 htarget
  have hstart := start_along device lba e (offset / (volumes device lba).1.clusterBytes) hsound
  have hcached := (cachedReadRangeCluster_spec device lba e (offset / (volumes device lba).1.clusterBytes) hsound).2
  dsimp only
  generalize cachedReadRangeCluster (volumes device lba).1 device e (offset / (volumes device lba).1.clusterBytes) cache =
    cached at hstart hcached ⊢
  generalize cached.1.getD { cluster := e.firstCluster } = cursor at hstart ⊢
  -- a cursor before the target is in the file
  have hlow : ∀ c : ReadRangeCursor, c.Along (volumes device lba).1 (media device).read e.firstCluster
      (offset / (volumes device lba).1.clusterBytes) → 2 ≤ c.cluster ∧ c.cluster < (volumes device lba).1.allocClusterEnd := by
    intro c hc
    obtain ⟨cluster, hat, hvalid⟩ := hreadable.cluster hspc c.clusterIndex
      (Nat.lt_of_le_of_lt (Nat.mul_le_mul_right _ hc.before) htarget)
    rw [hc.run.head hc.pos] at hat
    rw [Option.some.inj hat]
    exact ⟨(validDataCluster_spec hvalid).2.1, (validDataCluster_spec hvalid).2.2.2⟩
  have hskip := Nat.add_sub_cancel' hstart.before
  obtain ⟨cursor', hskipped⟩ := skipClusters_exact hreadable hspc htarget (volumes device lba).1.totalClusters
    (offset / (volumes device lba).1.clusterBytes - cursor.clusterIndex) cursor hstart.pos hstart.run hskip (by omega)
  obtain ⟨halong, hthere⟩ := skipClusters_spec _ _ _ hstart hskip _ _ hskipped
  have hlow' := hlow cursor' halong
  rw [if_neg (Nat.not_lt.mpr (hlow cursor hstart).1), hskipped]
  dsimp only
  rw [if_neg (by omega)]
  by_cases hwide : 2 ^ 32 ≤ (volumes device lba).1.sectorsPerFat * sectorSize
  · rw [if_pos hwide]
    rw [show sectorSize = 512 from rfl] at hwide
    constructor
    · rintro ⟨cache', h⟩
      cases h
    · rintro (hfat | hempty)
      · omega
      · exact absurd hempty hnone
  rw [if_neg hwide, if_neg (by omega)]
  rw [show sectorSize = 512 from rfl] at hwide
  refine ⟨fun _ => .inl (by omega), fun _ => ⟨_, congrArg some (Prod.ext ?_ rfl)⟩⟩
  have hplace : offset + 0 = cursor'.clusterIndex * (volumes device lba).1.clusterBytes +
      offset % (volumes device lba).1.clusterBytes := by
    rw [show cursor'.clusterIndex = offset / (volumes device lba).1.clusterBytes by omega, Nat.div_add_mod']
    rfl
  have hwanted : offset + min len (e.size - offset) ≤ e.size := by omega
  have hlen : (slice content offset (min len (e.size - offset))).length = min len (e.size - offset) :=
    length_slice (by rw [hreadable.length]; omega)
  have hempty : slice content offset 0 = [] := List.take_zero
  unfold copyRange
  dsimp only
  split
  · obtain ⟨hsome', hrun', hsound'⟩ := cacheReadRangeExtentFrom_spec
      (fileClusterCount e.size (volumes device lba).1.clusterBytes) hcached (halong.run.head halong.pos)
    have hcopy := copyClusters_exact hreadable hspc hwanted (volumes device lba).1.totalClusters
      { cursor' with contiguousRemaining := _ } _ 0 _ hsome' hrun' hsound' (by omega) hplace (Nat.mod_lt _ hpos)
      (Nat.le_trans htotal (Nat.le_add_right _ _))
    rw [hempty] at hcopy
    rw [hcopy, Option.filter_some, if_pos (beq_iff_eq.mpr hlen)]
  · have hcopy := copyClusters_exact hreadable hspc hwanted (volumes device lba).1.totalClusters
      { cursor' with contiguousRemaining := cursor'.contiguousRemaining } _ 0 _ halong.pos halong.run hcached (by omega) hplace
      (Nat.mod_lt _ hpos) (Nat.le_trans htotal (Nat.le_add_right _ _))
    rw [hempty] at hcopy
    rw [hcopy, Option.filter_some, if_pos (beq_iff_eq.mpr hlen)]

/-- A device whose sectors are all alike. -/
def sevens : Medium where
  read := fun _ => some (List.replicate sectorSize 7)
  full := by
    intro lba sector h
    cases h
    exact List.length_replicate

/-- The volumes of a device with the least table for their clusters. -/
def narrowVolumes (_ lba : Nat) : { v : Volume // v.partitionLba = lba } where
  val :=
    { partitionLba := lba, reservedSectors := 32, fatCount := 1, sectorsPerFat := 600, totalSectors := 70000
      sectorsPerCluster := 1, fsInfoSector := 0, backupBootSector := 0 }
  property := rfl

def threeBytes : Fat.Entry :=
  { name := [65], attr := 0x20, firstCluster := 2, size := 3, createdTime := 0, createdDate := 0, accessDate := 0
    modifiedTime := 0, modifiedDate := 0 }

/-- A table with the chain 2, 5; every other sector holds its own number. -/
def fragments : Medium where
  read := fun lba => some (if lba = 32 then zeros 8 ++ leBytes 4 5 ++ zeros 8 ++ leBytes 4 0x0FFFFFFF ++ zeros 488
    else List.replicate sectorSize (UInt8.ofNat lba))
  full := by
    intro lba sector h
    split at h
    · cases h
      simp [sectorSize]
    · cases h
      exact List.length_replicate

/-- A file of two clusters that lie apart, and what a ranged read of it gives. -/
def twoClusters : Fat.Entry := { threeBytes with size := 700 }

def readFragments (offset len : Nat) (cache : ReadRangeCache) : Option (Option Bytes × ReadRangeCache) :=
  readFileRange (narrowVolumes 0 0).1 fragments.read 0 twoClusters offset len cache

/-- The third read goes over the gap between the clusters, with the extents of the two before it at hand. -/
theorem narrow_exact : ∃ c1 c2 cache, readFragments 600 9 {} = some (some (List.replicate 9 123), c1) ∧
    readFragments 0 5 c1 = some (some (List.replicate 5 120), c2) ∧ (c2.extents.filter (·.valid)).length = 2 ∧
    readFragments 510 50 c2 = some (some (List.replicate 2 120 ++ List.replicate 48 123), cache) := by
  have hrun : (readFragments 600 9 {}).bind (fun r => (readFragments 0 5 r.2).map (fun s =>
      (r.1, s.1, (s.2.extents.filter (·.valid)).length))) =
        some (some (List.replicate 9 123), some (List.replicate 5 120), 2) := by
    decide +kernel
  obtain ⟨⟨r, c1⟩, h1, hrun⟩ := Option.bind_eq_some_iff.mp hrun
  obtain ⟨⟨s, c2⟩, h2, hrun⟩ := Option.map_eq_some_iff.mp hrun
  simp only [Prod.mk.injEq] at hrun
  obtain ⟨rfl, rfl, hcount⟩ := hrun
  have hfile : readFile (narrowVolumes 0 0).1 fragments.read twoClusters 700 =
      some (List.replicate 512 120 ++ List.replicate 188 123) := by
    decide +kernel
  have hreached : RangeReachable { volumes := narrowVolumes, media := fun _ => fragments, cache := c2 } :=
    .step (.step (.start narrowVolumes (fun _ => fragments)) (.read 0 0 twoClusters 600 9 _ c1 h1))
      (.read 0 0 twoClusters 0 5 _ c2 h2)
  obtain ⟨cache, h3⟩ := (readFileRange_exact hreached 0 0 hfile (show 510 ≤ twoClusters.size by decide) 50).mpr
    (.inl (show 600 < 2 ^ 23 by decide))
  have hslice : slice (List.replicate 512 120 ++ List.replicate 188 123 : Bytes) 510 (min 50 (twoClusters.size - 510)) =
      List.replicate 2 120 ++ List.replicate 48 123 := by
    decide +kernel
  rw [hslice] at h3
  exact ⟨c1, c2, cache, h1, h2, hcount, h3⟩

/-- A volume that is mounted with a table of 2²³ sectors. -/
def wideVolume : Volume where
  partitionLba := 0
  reservedSectors := 32
  fatCount := 1
  sectorsPerFat := 2 ^ 23
  totalSectors := 2 ^ 23 + 70000
  sectorsPerCluster := 1
  fsInfoSector := 0
  backupBootSector := 0

theorem wide_mounted : wideVolume.Mounted where
  fats := .inl rfl
  reserved := by decide
  clusters := by decide
  table := by decide

/-- **The file is read whole, and no range of it.** -/
theorem wide_traps : wideVolume.Mounted ∧ readFile wideVolume sevens.read threeBytes 3 = some [7, 7, 7] ∧
    readFileRange wideVolume sevens.read 0 threeBytes 0 3 {} = none :=
  ⟨wide_mounted, by decide +kernel, by decide +kernel⟩

end Range

end Fat32
end R4
