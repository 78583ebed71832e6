import R4Recovery.Disk
/-!
# FatTable — the allocation tables of a FAT32 volume

`Volume` of `fat32.zig` and its tables on the disk.  A write changes the low twenty-eight bits of the entries of a run in
every copy, a sector at a time (`raw_writeFatChainRunAll`).  Every sector request succeeds here; the page cache in front of
the device and the counters are left out.
-/
namespace R4
namespace Fat32

def sectorSize : Nat := 512
def reservedStart : Nat := 0x0FFFFFF0
def eoc : Nat := 0x0FFFFFF8

/-- A mounted volume; its sectors have 512 bytes. -/
structure Volume where
  partitionLba : Nat
  reservedSectors : Nat
  fatCount : Nat
  sectorsPerFat : Nat
  totalSectors : Nat
  sectorsPerCluster : Nat
  fsInfoSector : Nat
  backupBootSector : Nat

namespace Volume

def totalClusters (v : Volume) : Nat :=
  let metadata := v.reservedSectors + v.fatCount * v.sectorsPerFat
  if v.totalSectors ≤ metadata ∨ v.sectorsPerCluster = 0 then 0 else (v.totalSectors - metadata) / v.sectorsPerCluster

def allocClusterEnd (v : Volume) : Nat :=
  let fatEntries := v.sectorsPerFat * sectorSize / 4
  let dataEntries := v.totalClusters + 2
  if 2 ≤ dataEntries ∧ dataEntries < fatEntries then dataEntries else fatEntries

def fatLba (v : Volume) (cluster : Nat) : Nat := v.partitionLba + v.reservedSectors + cluster * 4 / sectorSize

def fatOffset (cluster : Nat) : Nat := cluster * 4 % sectorSize

/-- The geometry that `parseBounded` admits. -/
structure Mounted (v : Volume) : Prop where
  fats : v.fatCount = 1 ∨ v.fatCount = 2
  reserved : 0 < v.reservedSectors
  clusters : 65525 ≤ v.totalClusters ∧ v.totalClusters < reservedStart - 2
  table : (v.totalClusters + 2) * 4 ≤ v.sectorsPerFat * sectorSize

end Volume

end Fat32
end R4
