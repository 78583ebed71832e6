import R4Recovery.FatCursor
/-!
# FatRange — whole reads and ranged reads of a file

`readFile` and `readFileRange` of `fat32.zig`, and the extents of files that ranged reads leave for one another.  A read of
several sectors is that of each of them.  The counters are left out, and so are the pauses of a read that cooperates.
-/
namespace R4
namespace Fat32

section Reads

variable (v : Volume) (read : Nat → Option Bytes)

def Volume.clusterBytes (v : Volume) : Nat := sectorSize * v.sectorsPerCluster

def fileClusterCount (size clusterSize : Nat) : Nat :=
  if size = 0 ∨ clusterSize = 0 then 0 else (size + clusterSize - 1) / clusterSize

/-! ## Whole files -/

/-- Up to `n` sectors of a cluster, and what remains of the file. -/
def readFileSectors (lba : Nat) : Nat → Nat → Nat → Option (Bytes × Nat)
  | 0, _, remaining => some ([], remaining)
  | n + 1, i, remaining =>
    if remaining = 0 then some ([], 0)
    else match read (lba + i) with
      | none => none
      | some sector =>
        let count := min remaining sectorSize
        (readFileSectors lba n (i + 1) (remaining - count)).map (fun r => (slice sector 0 count ++ r.1, r.2))

def readFileClusters : Nat → Nat → Nat → Option (Bytes × Nat)
  | 0, _, remaining => some ([], remaining)
  | guard + 1, cluster, remaining =>
    if remaining = 0 then some ([], 0)
    else if !v.validDataCluster cluster then none
    else match readFileSectors read (v.clusterLba cluster) v.sectorsPerCluster 0 remaining with
      | none => none
      | some (out, remaining) =>
        if remaining = 0 then some (out, 0)
        else match fatEntry? v read cluster with
          | none => none
          | some next =>
            if eoc ≤ next then some (out, remaining)
            else (readFileClusters guard next remaining).map (fun r => (out ++ r.1, r.2))

/-- The bytes of a file, for a buffer of `room` bytes. -/
def readFile (e : Fat.Entry) (room : Nat) : Option Bytes :=
  if e.isDir then none
  else if room < e.size then none
  else if v.clusterBytes = 0 then none
  else
    let needed := fileClusterCount e.size v.clusterBytes
    if v.totalClusters < needed then none
    else match readFileClusters v read needed e.firstCluster e.size with
      | some (out, 0) => some out
      | _ => none

/-! ## Extents -/

structure ReadRangeExtent where
  valid : Bool := false
  deviceIndex : Nat := 0
  partitionLba : Nat := 0
  firstCluster : Nat := 0
  size : Nat := 0
  clusterIndex : Nat := 0
  cluster : Nat := 0
  count : Nat := 0
  lastUsed : Nat := 0

structure ReadRangeCursor where
  clusterIndex : Nat := 0
  cluster : Nat := 0
  contiguousRemaining : Nat := 1

def extentCacheSlots : Nat := 2048

def extentPrefetchClusters : Nat := 256

structure ReadRangeCache where
  extents : List ReadRangeExtent := List.replicate extentCacheSlots {}
  clock : Nat := 0

def ReadRangeCache.invalidate (c : ReadRangeCache) : ReadRangeCache :=
  { c with extents := c.extents.map (fun e => { e with valid := false }) }

/-- What `forgetStorage` does to the extents. -/
def ReadRangeCache.forget (c : ReadRangeCache) (device first count : Nat) : ReadRangeCache :=
  { c with
    extents := c.extents.map (fun e =>
      if e.valid && e.deviceIndex == device && decide (first ≤ e.partitionLba) && decide (e.partitionLba - first < count) then
        { e with valid := false }
      else e) }

def ReadRangeCache.touch (c : ReadRangeCache) (i : Nat) : ReadRangeCache where
  extents := c.extents.modify i (fun e => { e with lastUsed := (c.clock + 1) % 2 ^ 64 })
  clock := (c.clock + 1) % 2 ^ 64

def readRangeExtentMatches (device : Nat) (e : Fat.Entry) (x : ReadRangeExtent) : Bool :=
  x.valid && x.deviceIndex == device && x.partitionLba == v.partitionLba && x.firstCluster == e.firstCluster && x.size == e.size

/-- What a search for a cluster comes to: the extent with it, or the end of the nearest one before it. -/
inductive ExtentLook where
  | hit (i : Nat) (cursor : ReadRangeCursor)
  | best (cursor : Option ReadRangeCursor)

def lookExtents (suits : ReadRangeExtent → Bool) (target : Nat) :
    List ReadRangeExtent → Nat → Option ReadRangeCursor → ExtentLook
  | [], _, best => .best best
  | x :: rest, i, best =>
    if !suits x || decide (x.cluster < 2) || decide (eoc ≤ x.cluster) || x.count == 0 then
      lookExtents suits target rest (i + 1) best
    else if x.clusterIndex ≤ target ∧ target < x.clusterIndex + x.count then
      .hit i
        { clusterIndex := target, cluster := x.cluster + (target - x.clusterIndex)
          contiguousRemaining := x.count - (target - x.clusterIndex) }
    else if x.clusterIndex + x.count ≤ target ∧ best.all (fun b => decide (b.clusterIndex < x.clusterIndex + x.count - 1)) then
      lookExtents suits target rest (i + 1)
        (some { clusterIndex := x.clusterIndex + x.count - 1, cluster := x.cluster + (x.count - 1) })
    else lookExtents suits target rest (i + 1) best

def cachedReadRangeCluster (device : Nat) (e : Fat.Entry) (target : Nat) (c : ReadRangeCache) :
    Option ReadRangeCursor × ReadRangeCache :=
  match lookExtents (readRangeExtentMatches v device e) target c.extents 0 none with
  | .hit i cursor => (some cursor, c.touch i)
  | .best best => (best, c)

/-- The slot that was used the longest ago. -/
def lruFrom : List ReadRangeExtent → Nat → Nat → Nat → Nat
  | [], _, lru, _ => lru
  | x :: rest, i, lru, tick =>
    if x.lastUsed < tick then lruFrom rest (i + 1) i x.lastUsed else lruFrom rest (i + 1) lru tick

def lruIndex : List ReadRangeExtent → Nat
  | [] => 0
  | x :: rest => lruFrom rest 1 0 x.lastUsed

def rememberReadRangeExtent (device : Nat) (e : Fat.Entry) (clusterIndex cluster count : Nat) (c : ReadRangeCache) :
    ReadRangeCache :=
  if e.firstCluster < 2 ∨ cluster < 2 ∨ eoc ≤ cluster ∨ count = 0 then c
  else
    let target :=
      (c.extents.findIdx? (fun x => readRangeExtentMatches v device e x && x.clusterIndex == clusterIndex) <|>
        c.extents.findIdx? (fun x => !x.valid)).getD (lruIndex c.extents)
    { clock := (c.clock + 1) % 2 ^ 64
      extents := c.extents.set target
        { valid := true, deviceIndex := device, partitionLba := v.partitionLba, firstCluster := e.firstCluster, size := e.size
          clusterIndex := clusterIndex, cluster := cluster, count := count, lastUsed := (c.clock + 1) % 2 ^ 64 } }

/-- How far a run of clusters goes on. -/
def prefetchRun (maxCount : Nat) : Nat → Nat → Nat → Nat
  | 0, count, _ => count
  | guard + 1, count, cluster =>
    if count < maxCount ∧ 2 ≤ cluster ∧ cluster < eoc then
      match fatEntry? v read cluster with
      | none => count
      | some next => if next ≠ cluster + 1 ∨ eoc ≤ next then count else prefetchRun maxCount guard (count + 1) next
    else count

def cacheReadRangeExtentFrom (device : Nat) (e : Fat.Entry) (fileClusters clusterIndex start : Nat) (c : ReadRangeCache) :
    Nat × ReadRangeCache :=
  if e.firstCluster < 2 ∨ start < 2 ∨ eoc ≤ start ∨ fileClusters = 0 ∨ fileClusters ≤ clusterIndex then (1, c)
  else
    let count := prefetchRun v read (min (fileClusters - clusterIndex) extentPrefetchClusters) extentPrefetchClusters 1 start
    (count, rememberReadRangeExtent v device e clusterIndex start count c)

/-! ## Ranges -/

/-- The clusters before the range; `none` where an entry of the table is not read. -/
def skipClusters : Nat → Nat → ReadRangeCursor → Option (Nat × ReadRangeCursor)
  | 0, skip, cursor => some (skip, cursor)
  | guard + 1, skip, cursor =>
    if 0 < skip ∧ 2 ≤ cursor.cluster ∧ cursor.cluster < eoc then
      if 1 < cursor.contiguousRemaining then
        let step := min skip (cursor.contiguousRemaining - 1)
        skipClusters guard (skip - step)
          { clusterIndex := cursor.clusterIndex + step, cluster := cursor.cluster + step
            contiguousRemaining := cursor.contiguousRemaining - step }
      else match fatEntry? v read cursor.cluster with
        | none => none
        | some next => skipClusters guard (skip - 1) { clusterIndex := cursor.clusterIndex + 1, cluster := next }
    else some (skip, cursor)

def readSectors : Nat → Nat → Option Bytes
  | _, 0 => some []
  | lba, n + 1 =>
    match read lba with
    | none => none
    | some sector => (readSectors (lba + 1) n).map (sector ++ ·)

/-- The part of the range in a cluster; whole sectors are read together. -/
def copyCluster (lba wanted : Nat) : Nat → Nat → Nat → Bytes → Option Bytes
  | 0, _, _, out => some out
  | fuel + 1, sectorIndex, sectorOffset, out =>
    if v.sectorsPerCluster ≤ sectorIndex ∨ wanted ≤ out.length then some out
    else if sectorOffset = 0 ∧ sectorSize ≤ wanted - out.length then
      let full := min (v.sectorsPerCluster - sectorIndex) ((wanted - out.length) / sectorSize)
      match readSectors read (lba + sectorIndex) full with
      | none => none
      | some bytes => copyCluster lba wanted fuel (sectorIndex + full) sectorOffset (out ++ bytes)
    else match read (lba + sectorIndex) with
      | none => none
      | some sector =>
        let count := min (sectorSize - sectorOffset) (wanted - out.length)
        copyCluster lba wanted fuel (sectorIndex + 1) 0 (out ++ slice sector sectorOffset count)

def copyClusters (device : Nat) (e : Fat.Entry) (wanted : Nat) :
    Nat → ReadRangeCursor → Nat → Bytes → ReadRangeCache → Option Bytes × ReadRangeCache
  | 0, _, _, out, c => (some out, c)
  | guard + 1, cursor, inCluster, out, c =>
    if out.length < wanted ∧ 2 ≤ cursor.cluster ∧ cursor.cluster < v.allocClusterEnd then
      match copyCluster v read (v.clusterLba cursor.cluster) wanted v.sectorsPerCluster (inCluster / sectorSize)
        (inCluster % sectorSize) out with
      | none => (none, c)
      | some out =>
        if wanted ≤ out.length then (some out, c)
        else if 1 < cursor.contiguousRemaining then
          copyClusters device e wanted guard
            { clusterIndex := cursor.clusterIndex + 1, cluster := cursor.cluster + 1
              contiguousRemaining := cursor.contiguousRemaining - 1 } 0 out c
        else match fatEntry? v read cursor.cluster with
          | none => (none, c)
          | some next =>
            let r := cacheReadRangeExtentFrom v read device e (fileClusterCount e.size v.clusterBytes) (cursor.clusterIndex + 1)
              next c
            copyClusters device e wanted guard
              { clusterIndex := cursor.clusterIndex + 1, cluster := next, contiguousRemaining := r.1 } 0 out r.2
    else (some out, c)

/-- The range from the cluster it starts in. -/
def copyRange (device : Nat) (e : Fat.Entry) (wanted inCluster : Nat) (cursor : ReadRangeCursor) (c : ReadRangeCache) :
    Option Bytes × ReadRangeCache :=
  let r :=
    if cursor.contiguousRemaining ≤ 1 then
      cacheReadRangeExtentFrom v read device e (fileClusterCount e.size v.clusterBytes) cursor.clusterIndex cursor.cluster c
    else (cursor.contiguousRemaining, c)
  let r := copyClusters v read device e wanted v.totalClusters { cursor with contiguousRemaining := r.1 } inCluster [] r.2
  (r.1.filter (fun out => out.length == wanted), r.2)

/-- `none` where a checked operation of the source traps: a division by the size of a cluster that is zero, or the thirty-two
bits of the product in `allocClusterEnd`. -/
def readFileRange (device : Nat) (e : Fat.Entry) (offset len : Nat) (c : ReadRangeCache) : Option (Option Bytes × ReadRangeCache) :=
  if e.isDir then some (none, c)
  else if e.size < offset then some (none, c)
  else if len = 0 ∨ offset = e.size then some (some [], c)
  else if v.clusterBytes = 0 then none
  else
    let target := offset / v.clusterBytes
    let cached := cachedReadRangeCluster v device e target c
    let cursor := cached.1.getD { cluster := e.firstCluster }
    if cursor.cluster < 2 then some (none, cached.2)
    else match skipClusters v read v.totalClusters (target - cursor.clusterIndex) cursor with
      | none => some (none, cached.2)
      | some (skip, cursor) =>
        if skip ≠ 0 ∨ cursor.cluster < 2 then some (none, cached.2)
        else if 2 ^ 32 ≤ v.sectorsPerFat * sectorSize then none
        else if v.allocClusterEnd ≤ cursor.cluster then some (none, cached.2)
        else some (copyRange v read device e (min len (e.size - offset)) (offset % v.clusterBytes) cursor cached.2)

end Reads

/-! ## Runs -/

/-- The sectors of a device as they are read now; some may fail. -/
structure Medium where
  read : Nat → Option Bytes
  full : ∀ {lba : Nat} {sector : Bytes}, read lba = some sector → sector.length = sectorSize

/-- The mounted volumes by their device and first sector, the devices, and the extents of all files. -/
structure RangeState where
  volumes : (device lba : Nat) → { v : Volume // v.partitionLba = lba }
  media : Nat → Medium
  cache : ReadRangeCache

/-- A step: a ranged read of any entry, an operation that writes (each drops the extents before its first write; what it
writes is left open), or another volume where the old ones of a part of a device are forgotten. -/
inductive RangeStep (s : RangeState) : RangeState → Prop where
  | read (device lba : Nat) (e : Fat.Entry) (offset len : Nat) (result : Option Bytes) (cache : ReadRangeCache)
      (h : readFileRange (s.volumes device lba).1 (s.media device).read device e offset len s.cache = some (result, cache)) :
      RangeStep s { s with cache := cache }
  | mutate (media : Nat → Medium) : RangeStep s { s with media := media, cache := s.cache.invalidate }
  | remount (device first count : Nat) (volumes : (device lba : Nat) → { v : Volume // v.partitionLba = lba })
      (h : ∀ d lba, ¬(d = device ∧ first ≤ lba ∧ lba - first < count) → volumes d lba = s.volumes d lba) :
      RangeStep s { s with volumes := volumes, cache := s.cache.forget device first count }

/-- The states that are reached from one without extents. -/
inductive RangeReachable : RangeState → Prop where
  | start (volumes : (device lba : Nat) → { v : Volume // v.partitionLba = lba }) (media : Nat → Medium) :
      RangeReachable { volumes := volumes, media := media, cache := {} }
  | step {s s' : RangeState} (hs : RangeReachable s) (h : RangeStep s s') : RangeReachable s'

end Fat32
end R4
