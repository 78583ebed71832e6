import Mathlib.Tactic.Ring
/-!
# FatGeometry — the geometry of a FAT32 volume

`Geometry.init` of the storage tools: the FAT grows until it describes every cluster that it leaves room for, and the
clusters are doubled until their numbers fit.  What it returns is consistent, and it is found again from the cluster size
that the boot sector keeps (`init_consistent`).
-/
namespace R4
namespace FatGeometry

def reservedSectors : Nat := 32
def fatCount : Nat := 2
def lastDataCluster : Nat := 0x0ffffff6

inductive GeometryError where
  | geometry | volumeTooSmall
  deriving DecidableEq, Repr

structure Geometry where
  sectors : Nat
  hidden : Nat
  sectorsPerCluster : Nat
  sectorsPerFat : Nat
  dataStart : Nat
  clusters : Nat
  deriving DecidableEq, Repr

/-- A cluster has a power of two of sectors, at most 64. -/
structure ClusterSize where
  val : Nat
  bound : val ≤ 64 ∧ val.isPowerOfTwo

namespace ClusterSize

theorem pos (spc : ClusterSize) : 0 < spc.val := Nat.pos_of_isPowerOfTwo spc.bound.2

theorem double_le (spc : ClusterSize) (h : spc.val ≠ 64) : spc.val * 2 ≤ 64 := by
  obtain ⟨n, hle, k, rfl⟩ := spc
  dsimp only at h ⊢
  have hk : k < 6 := by
    rcases Nat.lt_or_ge k 6 with hk | hk
    · exact hk
    · have : 2 ^ 6 ≤ 2 ^ k := Nat.pow_le_pow_right (by decide) hk
      omega
  calc 2 ^ k * 2 = 2 ^ (k + 1) := rfl
    _ ≤ 2 ^ 6 := Nat.pow_le_pow_right (by decide) hk

def double (spc : ClusterSize) (h : spc.val ≠ 64) : ClusterSize :=
  ⟨spc.val * 2, spc.double_le h, Nat.isPowerOfTwo_mul_two_of_isPowerOfTwo spc.bound.2⟩

end ClusterSize

/-- The FAT sectors for the clusters that `fat` FAT sectors leave room for. -/
def needed (sectors spc fat : Nat) : Nat := (((sectors - (reservedSectors + fatCount * fat)) / spc + 2) * 4 + 511) / 512

/-- The inner loop, from `fat` sectors on; `none` is a volume that the metadata fills. -/
def fatSize (sectors spc fat : Nat) : Option Nat :=
  if sectors ≤ reservedSectors + fatCount * fat then none
  else if needed sectors spc fat ≤ fat then some fat
  else fatSize sectors spc (needed sectors spc fat)
termination_by sectors - fat
decreasing_by simp only [reservedSectors, fatCount] at *; omega

/-- The clusters behind a FAT of `fat` sectors. -/
def clustersOf (sectors spc fat : Nat) : Nat := (sectors - (reservedSectors + fatCount * fat)) / spc

/-- The outer loop, from the cluster size `spc` on. -/
def initFrom (sectors hidden requested : Nat) (spc : ClusterSize) : Except GeometryError Geometry :=
  match fatSize sectors spc.val 1 with
  | none => .error .volumeTooSmall
  | some fat =>
    if clustersOf sectors spc.val fat < 65525 then .error .volumeTooSmall
    else if clustersOf sectors spc.val fat + 1 ≤ lastDataCluster then
      .ok
        { sectors, hidden, sectorsPerCluster := spc.val, sectorsPerFat := fat
          dataStart := reservedSectors + fatCount * fat, clusters := clustersOf sectors spc.val fat }
    else if h : requested ≠ 0 ∨ spc.val = 64 then .error .geometry
    else initFrom sectors hidden requested (spc.double fun h64 => h (.inr h64))
termination_by 64 - spc.val
decreasing_by
  have := spc.double_le fun h64 => h (.inr h64)
  have := spc.pos
  change 64 - spc.val * 2 < 64 - spc.val
  omega

/-- The cluster size to begin with. -/
def firstSize (sectors requested : Nat) : Nat := if requested ≠ 0 then requested else if 512 * 2048 ≤ sectors then 8 else 1

def init (sectors hidden requested : Nat) : Except GeometryError Geometry :=
  if 2 ^ 32 - 1 < sectors ∨ 2 ^ 32 - 1 < hidden then .error .geometry
  else if sectors < 65525 then .error .volumeTooSmall
  else if h : firstSize sectors requested ≤ 64 ∧ (firstSize sectors requested).isPowerOfTwo then
    initFrom sectors hidden requested ⟨firstSize sectors requested, h⟩
  else .error .geometry

/-! ## What the loops return -/

section Loops

variable {sectors hidden requested fat : Nat} {spc : ClusterSize} {g : Geometry}

/-- **The loop ends at a FAT that describes its clusters.** -/
theorem fatSize_some {spc start fat : Nat} (h : fatSize sectors spc start = some fat) :
    reservedSectors + fatCount * fat < sectors ∧ needed sectors spc fat ≤ fat := by
  fun_induction fatSize sectors spc start with
  | case1 => cases h
  | case2 fat hroom hfits =>
    cases h
    exact ⟨Nat.not_le.1 hroom, hfits⟩
  | case3 fat hroom hfits ih => exact ih h

/-- **What `initFrom` returns** was computed for one cluster size. -/
theorem initFrom_ok (h : initFrom sectors hidden requested spc = .ok g) : ∃ (size : ClusterSize) (fat : Nat),
    fatSize sectors size.val 1 = some fat ∧ 65525 ≤ clustersOf sectors size.val fat ∧
      clustersOf sectors size.val fat + 1 ≤ lastDataCluster ∧
      g = { sectors, hidden, sectorsPerCluster := size.val, sectorsPerFat := fat
            dataStart := reservedSectors + fatCount * fat, clusters := clustersOf sectors size.val fat } := by
  fun_induction initFrom sectors hidden requested spc with
  | case1 => cases h
  | case2 => cases h
  | case3 spc fat hfat hmany hfew =>
    cases h
    exact ⟨spc, fat, hfat, Nat.not_lt.1 hmany, hfew, rfl⟩
  | case4 => cases h
  | case5 spc fat hfat hmany hfew hgrow ih => exact ih h

end Loops

/-! ## The geometry -/

/-- The FAT describes every cluster, the clusters fill the volume, and their numbers are FAT32 numbers. -/
structure Consistent (sectors hidden : Nat) (g : Geometry) : Prop where
  same : g.sectors = sectors ∧ g.hidden = hidden
  table : (g.clusters + 2) * 4 ≤ g.sectorsPerFat * 512
  dataStart : g.dataStart = 32 + 2 * g.sectorsPerFat
  inside : g.dataStart + g.clusters * g.sectorsPerCluster ≤ sectors
  full : sectors < g.dataStart + (g.clusters + 1) * g.sectorsPerCluster
  many : 65525 ≤ g.clusters
  few : g.clusters + 1 ≤ 0x0ffffff6
  fields : g.sectors < 2 ^ 32 ∧ g.hidden < 2 ^ 32 ∧ g.sectorsPerCluster < 2 ^ 32 ∧ g.sectorsPerFat < 2 ^ 32 ∧
    g.dataStart < 2 ^ 32 ∧ g.clusters < 2 ^ 32

section Init

variable {sectors hidden requested fat : Nat} {size : ClusterSize} {g : Geometry}

theorem consistent_of_fat (hsectors : sectors < 2 ^ 32) (hhidden : hidden < 2 ^ 32)
    (hfat : fatSize sectors size.val 1 = some fat) (hmany : 65525 ≤ clustersOf sectors size.val fat)
    (hfew : clustersOf sectors size.val fat + 1 ≤ lastDataCluster) : Consistent sectors hidden
      { sectors, hidden, sectorsPerCluster := size.val, sectorsPerFat := fat
        dataStart := reservedSectors + fatCount * fat, clusters := clustersOf sectors size.val fat } := by
  obtain ⟨hroom, hneeded⟩ := fatSize_some hfat
  have hsize := size.bound.1
  have htable : needed sectors size.val fat = ((clustersOf sectors size.val fat + 2) * 4 + 511) / 512 := rfl
  have hinside : clustersOf sectors size.val fat * size.val ≤ sectors - (reservedSectors + fatCount * fat) :=
    Nat.div_mul_le_self ..
  have hfull : sectors - (reservedSectors + fatCount * fat) < size.val * clustersOf sectors size.val fat + size.val :=
    Nat.lt_mul_div_succ _ size.pos
  rw [htable] at hneeded
  have hdistinct : (clustersOf sectors size.val fat + 1) * size.val =
      size.val * clustersOf sectors size.val fat + size.val := by ring
  have hunits : reservedSectors = 32 ∧ fatCount = 2 ∧ lastDataCluster = 0x0ffffff6 := ⟨rfl, rfl, rfl⟩
  obtain ⟨hreserved, hcount, hlast⟩ := hunits
  rw [hreserved, hcount] at hroom hinside hfull
  rw [hlast] at hfew
  refine ⟨⟨rfl, rfl⟩, ?_, rfl, ?_, ?_, hmany, hfew, hsectors, hhidden, ?_, ?_, ?_, ?_⟩
  · dsimp only
    omega
  · rw [hreserved, hcount]
    dsimp only
    omega
  · rw [hreserved, hcount]
    dsimp only
    rw [hdistinct]
    omega
  · dsimp only
    omega
  · dsimp only
    omega
  · rw [hreserved, hcount]
    dsimp only
    omega
  · dsimp only
    omega

/-- **The size of a geometry is the first one that is tried for it.** -/
theorem init_of_size (hlimits : ¬ (2 ^ 32 - 1 < sectors ∨ 2 ^ 32 - 1 < hidden)) (hsmall : ¬ sectors < 65525)
    (hfat : fatSize sectors size.val 1 = some fat) (hmany : 65525 ≤ clustersOf sectors size.val fat)
    (hfew : clustersOf sectors size.val fat + 1 ≤ lastDataCluster) : init sectors hidden size.val = .ok
      { sectors, hidden, sectorsPerCluster := size.val, sectorsPerFat := fat
        dataStart := reservedSectors + fatCount * fat, clusters := clustersOf sectors size.val fat } := by
  have hfirst : firstSize sectors size.val = size.val := if_pos (Nat.ne_of_gt size.pos)
  have hfrom : initFrom sectors hidden size.val size = .ok
      { sectors, hidden, sectorsPerCluster := size.val, sectorsPerFat := fat
        dataStart := reservedSectors + fatCount * fat, clusters := clustersOf sectors size.val fat } := by
    rw [initFrom, hfat]
    dsimp only
    rw [if_neg (Nat.not_lt.2 hmany), if_pos hfew]
  unfold init
  rw [if_neg hlimits, if_neg hsmall]
  simp only [hfirst]
  rw [dif_pos size.bound]
  exact hfrom

/-- **A geometry is consistent, and its cluster size gives it again.** -/
theorem init_consistent (sectors hidden requested : Nat) (g : Geometry) (h : init sectors hidden requested = .ok g) :
    Consistent sectors hidden g ∧ init sectors hidden g.sectorsPerCluster = .ok g := by
  unfold init at h
  split at h
  · cases h
  · rename_i hlimits
    split at h
    · cases h
    · rename_i hsmall
      split at h
      · obtain ⟨size, fat, hfat, hmany, hfew, rfl⟩ := initFrom_ok h
        exact ⟨consistent_of_fat (by omega) (by omega) hfat hmany hfew, init_of_size hlimits hsmall hfat hmany hfew⟩
      · cases h

/-- A volume of 64 MiB. -/
def smallVolume : Geometry where
  sectors := 131072
  hidden := 63
  sectorsPerCluster := 1
  sectorsPerFat := 1024
  dataStart := 2080
  clusters := 128992

theorem smallVolume_init : init 131072 63 0 = .ok smallVolume := by
  have hfirst : firstSize 131072 0 = 1 := rfl
  have hneeded : needed 131072 1 1 = 1024 := rfl
  have hfat : fatSize 131072 1 1 = some 1024 := by
    rw [fatSize, if_neg (by decide), if_neg (by rw [hneeded]; decide), hneeded, fatSize, if_neg (by decide),
      if_pos (by decide)]
  unfold init
  rw [if_neg (by decide), if_neg (by decide)]
  simp only [hfirst]
  rw [dif_pos (by decide), initFrom]
  dsimp only
  rw [hfat]
  dsimp only
  rw [if_neg (by decide), if_pos (by decide)]
  rfl

theorem init_consistent_small : Consistent 131072 63 smallVolume ∧ init 131072 63 smallVolume.sectorsPerCluster =
    .ok smallVolume :=
  init_consistent 131072 63 0 smallVolume smallVolume_init

end Init

end FatGeometry
end R4
