import R4Recovery.Device
import R4Recovery.NtfsFormat
/-!
# NtfsMap — the clusters of a file on a volume

`Map` of `ntfs_resize.zig` and the region of `io.zig` it reads through.  A map takes the runs of one attribute; a read
through it is a part of the bytes its clusters hold one after the other (`read_ok`).
-/
namespace R4

namespace Ntfs

inductive ResizeError where
  | device (e : Error)
  | unsupportedNtfs | corruptNtfs | dirtyNtfs | shrinkLimit
  deriving DecidableEq, Repr

/-! ## Volumes -/

/-- `Region.device`: an owned range of a device with sector numbers of its own. -/
structure Volume where
  first : Nat
  device : Device

def Volume.ofRegion (parent : Device) (first count : Nat) : Except ResizeError Volume := do
  (parent.checkRange first count).mapError .device
  return { first, device := { sectors := count, exclusive := parent.exclusive } }

def Volume.read (volume : Volume) (lba len : Nat) : Io ResizeError Bytes := do
  Io.refuse (len == 0 || len % 512 != 0) (.device .bounds)
  Io.lift ((volume.device.checkRange lba (len / 512)).mapError .device)
  Io.readRaw (.device .readFailed) (volume.first + lba) len

def Volume.write (volume : Volume) (lba : Nat) (data : Bytes) : Io ResizeError Unit := do
  Io.lift (volume.device.requireExclusive.mapError .device)
  Io.refuse (data.length == 0 || data.length % 512 != 0) (.device .bounds)
  Io.lift ((volume.device.checkRange lba (data.length / 512)).mapError .device)
  Io.writeRaw (.device .writeFailed) (volume.first + lba) data

def Volume.flush (volume : Volume) : Io ResizeError Unit := do
  Io.lift (volume.device.requireExclusive.mapError .device)
  Io.step (.device .flushFailed)

/-- `verify`: the range is read back and compared. -/
def Volume.verify (volume : Volume) (lba : Nat) (expected : Bytes) (scratchLen : Nat) : Io ResizeError Unit := do
  Io.refuse (decide (scratchLen < 512) || scratchLen % 512 != 0 || expected.length == 0 || expected.length % 512 != 0)
    (.device .bounds)
  Io.lift ((volume.device.checkRange lba (expected.length / 512)).mapError .device)
  let bytes ← volume.read lba expected.length
  Io.refuse (bytes != expected) (.device .verifyFailed)

/-! ## Maps -/

def maxRuns : Nat := 64

structure Map where
  runs : List Run := []
  clusters : Nat := 0
  bytes : Nat := 0

def Map.addRun (total : Nat) (sparse : Bool) (self : Map) (run : Run) : Except ResizeError Map :=
  if self.runs.length = maxRuns ∨ total - self.clusters < run.lengthClusters then .error .unsupportedNtfs
  else
    let added : Map := { self with runs := self.runs ++ [run], clusters := self.clusters + run.lengthClusters }
    match run.lcn with
    | some lcn =>
      if sparse ∨ total ≤ lcn ∨ total - lcn < run.lengthClusters then .error .unsupportedNtfs
      else if self.runs.any (fun old => decide (lcn < old.lcn.getD 0 + old.lengthClusters) &&
          decide (old.lcn.getD 0 < lcn + run.lengthClusters)) then .error .corruptNtfs
      else .ok added
    | none => if !sparse then .error .unsupportedNtfs else .ok added

def Map.parse (attr : Attribute) (total : Nat) (sparse : Bool) : Except ResizeError Map := do
  if !attr.nonResident ∨ attr.lowestVcn ≠ 0 ∨ attr.compressionUnit ≠ 0 ∨ attr.isCompressed ∨ attr.isEncrypted ∨
      (!sparse ∧ attr.flags ≠ 0) ∨ attr.dataSize < attr.initializedSize ∨ total * 4096 < attr.dataSize then
    .error .unsupportedNtfs
  let self ← (runlist attr.mappingPairs).1.foldlM (Map.addRun total sparse) { bytes := attr.dataSize }
  if !(runlist attr.mappingPairs).2.ended attr.mappingPairs ∨ self.runs = [] ∨ attr.highestVcn ≠ self.clusters - 1 ∨
      self.clusters * 4096 < attr.dataSize ∨
      (!sparse ∧ (attr.allocatedSize ≠ self.clusters * 4096 ∨ attr.initializedSize ≠ attr.dataSize)) then
    .error .unsupportedNtfs
  return self

/-- The run a byte of the file is in, and its place there. -/
def locate : List Run → Nat → Option (Run × Nat)
  | [], _ => none
  | run :: rest, relative =>
    if relative < run.lengthClusters * 4096 then some (run, relative) else locate rest (relative - run.lengthClusters * 4096)

def Map.lba (self : Map) (byteOffset byteCount : Nat) : Except ResizeError Nat :=
  if byteOffset % 512 ≠ 0 ∨ byteCount % 512 ≠ 0 then .error (.device .geometry)
  else match locate self.runs byteOffset with
    | none => .error .corruptNtfs
    | some (run, relative) =>
      if run.lengthClusters * 4096 - relative < byteCount then .error .unsupportedNtfs
      else match run.lcn with
        | none => .error .unsupportedNtfs
        | some lcn => .ok (lcn * 8 + relative / 512)

def Map.readLoop (self : Map) (volume : Volume) : Nat → Nat → Nat → Io ResizeError Bytes
  | 0, _, _ => pure []
  | fuel + 1, byteOffset, len =>
    if len = 0 then pure []
    else match locate self.runs byteOffset with
      | none => Io.throw .corruptNtfs
      | some (run, relative) =>
        match run.lcn with
        | none => Io.throw .unsupportedNtfs
        | some lcn => do
          let count := min len (run.lengthClusters * 4096 - relative)
          let piece ← volume.read (lcn * 8 + relative / 512) count
          let rest ← self.readLoop volume fuel (byteOffset + count) (len - count)
          return piece ++ rest

def Map.read (self : Map) (volume : Volume) (byteOffset len : Nat) : Io ResizeError Bytes := do
  Io.refuse (byteOffset % 512 != 0 || len % 512 != 0) (.device .geometry)
  self.readLoop volume len byteOffset len

def Map.owns (self : Map) (cluster : Nat) : Bool :=
  self.runs.any (fun run => match run.lcn with
    | none => false
    | some lcn => decide (lcn ≤ cluster) && decide (cluster - lcn < run.lengthClusters))

/-! ## What a map holds -/

/-- Where a cluster of the volume starts on the disk. -/
def clusterAt (first lcn : Nat) : Nat := 512 * first + 4096 * lcn

/-- The bytes of the clusters of a map, one run behind the other. -/
def contents (d : Disk) (first : Nat) (runs : List Run) : Bytes :=
  runs.flatMap (fun run => d.read (clusterAt first (run.lcn.getD 0)) (4096 * run.lengthClusters))

theorem length_contents (d : Disk) (first : Nat) : ∀ runs : List Run,
    (contents d first runs).length = 4096 * (runs.map Run.lengthClusters).sum
  | [] => rfl
  | run :: rest => by
    have ih := length_contents d first rest
    unfold contents at ih ⊢
    rw [List.flatMap_cons, List.length_append, Disk.length_read, ih, List.map_cons, List.sum_cons, Nat.mul_add]

theorem slice_contents (d : Disk) (first : Nat) : ∀ {runs : List Run} {off : Nat} {run : Run} {relative : Nat},
    locate runs off = some (run, relative) → run ∈ runs ∧ relative < run.lengthClusters * 4096 ∧
    off + (run.lengthClusters * 4096 - relative) ≤ (contents d first runs).length ∧
    ∀ n, relative + n ≤ run.lengthClusters * 4096 →
      slice (contents d first runs) off n = d.read (clusterAt first (run.lcn.getD 0) + relative) n
  | [], _, _, _, h => by cases h
  | head :: rest, off, run, relative, h => by
    have hlen := length_contents d first (head :: rest)
    have hrest := length_contents d first rest
    rw [List.map_cons, List.sum_cons] at hlen
    have hcons : contents d first (head :: rest) =
        d.read (clusterAt first (head.lcn.getD 0)) (4096 * head.lengthClusters) ++ contents d first rest := rfl
    unfold locate at h
    split at h
    · rename_i hlt
      cases h
      refine ⟨List.mem_cons_self, hlt, by omega, fun n hn => ?_⟩
      rw [hcons, slice, List.drop_append_of_le_length (by rw [Disk.length_read]; omega),
        List.take_append_of_le_length (by rw [List.length_drop, Disk.length_read]; omega)]
      exact Disk.slice_read d (by omega)
    · rename_i hge
      obtain ⟨hmem, hlt, hin, hread⟩ := slice_contents d first h
      refine ⟨List.mem_cons_of_mem _ hmem, hlt, by omega, fun n hn => ?_⟩
      rw [← hread n hn, hcons, slice, slice, List.drop_append, List.drop_eq_nil_of_le (by rw [Disk.length_read]; omega),
        List.nil_append, Disk.length_read, Nat.mul_comm 4096]

/-- A map of clusters that lie on the volume, as `parse` takes one that is not sparse. -/
structure Map.Fixed (map : Map) (total : Nat) : Prop where
  run : ∀ run ∈ map.runs, ∃ lcn, run.lcn = some lcn ∧ lcn + run.lengthClusters ≤ total
  clusters : map.clusters = (map.runs.map Run.lengthClusters).sum
  bytes : map.bytes ≤ map.clusters * 4096
  pos : 0 < map.clusters

theorem addRun_ok {total : Nat} {self next : Map} {run : Run} (h : self.addRun total false run = .ok next) :
    next.runs = self.runs ++ [run] ∧ next.clusters = self.clusters + run.lengthClusters ∧ next.bytes = self.bytes ∧
      ∃ lcn, run.lcn = some lcn ∧ lcn + run.lengthClusters ≤ total := by
  unfold Map.addRun at h
  split at h
  · cases h
  · dsimp only at h
    cases hlcn : run.lcn with
    | none =>
      rw [hlcn] at h
      cases h
    | some lcn =>
      rw [hlcn] at h
      dsimp only at h
      split at h
      · cases h
      · rename_i hin
        split at h
        · cases h
        · cases h
          simp only [Bool.false_eq_true, false_or, not_or, Nat.not_le, Nat.not_lt] at hin
          exact ⟨rfl, rfl, rfl, lcn, rfl, by omega⟩

theorem addRuns_ok {total : Nat} : ∀ (list : List Run) (self next : Map),
    list.foldlM (Map.addRun total false) self = .ok next →
    next.runs = self.runs ++ list ∧ next.clusters = self.clusters + (list.map Run.lengthClusters).sum ∧
      next.bytes = self.bytes ∧ ∀ run ∈ list, ∃ lcn, run.lcn = some lcn ∧ lcn + run.lengthClusters ≤ total
  | [], self, next, h => by
    cases h
    exact ⟨by simp, by simp, rfl, nofun⟩
  | run :: rest, self, next, h => by
    rw [List.foldlM_cons] at h
    obtain ⟨mid, hrun, h⟩ := Except.bind_ok.1 h
    obtain ⟨hruns, hclusters, hbytes, hin⟩ := addRun_ok hrun
    obtain ⟨hruns', hclusters', hbytes', hrest⟩ := addRuns_ok rest mid next h
    refine ⟨by rw [hruns', hruns, List.append_assoc]; rfl, ?_, hbytes'.trans hbytes, List.forall_mem_cons.2 ⟨hin, hrest⟩⟩
    rw [hclusters', hclusters, List.map_cons, List.sum_cons, Nat.add_assoc]

/-- **What `parse` takes** is the runlist of its attribute, on the volume. -/
theorem Map.parse_ok {attr : Attribute} {total : Nat} {self : Map} (h : Map.parse attr total false = .ok self) :
    self.Fixed total ∧ self.runs = (runlist attr.mappingPairs).1 ∧ attr.nonResident = true := by
  unfold Map.parse at h
  split at h
  · cases h
  · rename_i hhead
    obtain ⟨next, hrun, h⟩ := Except.bind_ok.1 h
    split at h
    · cases h
    · rename_i htail
      cases h
      obtain ⟨hruns, hclusters, hbytes, hin⟩ := addRuns_ok _ _ _ hrun
      simp only [not_or, Nat.not_lt] at htail
      have hne : self.runs ≠ [] := htail.2.1
      rw [List.nil_append] at hruns
      rw [Nat.zero_add, ← hruns] at hclusters
      refine ⟨⟨hruns ▸ hin, hclusters, ?_, ?_⟩, hruns, ?_⟩
      · rw [hbytes]
        exact htail.2.2.2.1
      · obtain ⟨run, rest, hcons⟩ := List.exists_cons_of_ne_nil hne
        have hpos := runlist_pos run (by rw [← hruns, hcons]; exact List.mem_cons_self)
        rw [hclusters, hcons, List.map_cons, List.sum_cons]
        omega
      · by_contra hres
        exact hhead (.inl (by simpa using hres))

theorem locate_mod {run : Run} {relative : Nat} : ∀ {runs : List Run} {off : Nat}, locate runs off = some (run, relative) →
    relative % 512 = off % 512
  | [], _, h => by cases h
  | head :: rest, off, h => by
    unfold locate at h
    split at h
    · cases h
      rfl
    · rename_i hge
      have := locate_mod h
      omega

section Runs

variable {volume : Volume} {F : Faults} {w w' : World}

theorem Volume.read_ok {lba len : Nat} {b : Bytes} (h : volume.read lba len F w = (.ok b, w')) :
    b = w.disk.read (512 * (volume.first + lba)) len ∧ w'.disk = w.disk := by
  obtain ⟨_, w1, h1, h⟩ := Io.bind_ok h
  obtain ⟨-, rfl⟩ := Io.refuse_ok h1
  obtain ⟨_, w2, h2, h⟩ := Io.bind_ok h
  obtain ⟨-, rfl⟩ := Io.lift_ok h2
  obtain ⟨hb, rfl⟩ := Io.readRaw_ok h
  exact ⟨hb.symm, rfl⟩

theorem readLoop_ok {self : Map} : ∀ (fuel off len : Nat) {w w' : World} {b : Bytes}, len ≤ fuel → off % 512 = 0 →
    len % 512 = 0 → self.readLoop volume fuel off len F w = (.ok b, w') →
    b = slice (contents w.disk volume.first self.runs) off len ∧ w'.disk = w.disk ∧
      (0 < len → off + len ≤ (contents w.disk volume.first self.runs).length)
  | 0, off, len, w, w', b, hfuel, _, _, h => by
    obtain ⟨rfl, rfl⟩ := Io.pure_ok h
    obtain rfl := Nat.le_zero.1 hfuel
    exact ⟨by simp [slice], rfl, fun h => absurd h (Nat.lt_irrefl 0)⟩
  | fuel + 1, off, len, w, w', b, hfuel, hoff, hlen, h => by
    unfold Map.readLoop at h
    split at h
    · rename_i h0
      obtain ⟨rfl, rfl⟩ := Io.pure_ok h
      rw [h0]
      exact ⟨by simp [slice], rfl, fun h => absurd h (Nat.lt_irrefl 0)⟩
    · rename_i h0
      cases hloc : locate self.runs off with
      | none =>
        rw [hloc] at h
        obtain ⟨he, -⟩ := Io.lift_ok h
        cases he
      | some found =>
        obtain ⟨run, relative⟩ := found
        rw [hloc] at h
        dsimp only at h
        cases hlcn : run.lcn with
        | none =>
          rw [hlcn] at h
          obtain ⟨he, -⟩ := Io.lift_ok h
          cases he
        | some lcn =>
          rw [hlcn] at h
          dsimp only at h
          obtain ⟨hmem, hlt, hin, hslice⟩ := slice_contents w.disk volume.first hloc
          obtain ⟨piece, w1, hpiece, h⟩ := Io.bind_ok h
          obtain ⟨rest, w2, hrest, h⟩ := Io.bind_ok h
          obtain ⟨rfl, rfl⟩ := Io.pure_ok h
          obtain ⟨rfl, hdisk⟩ := Volume.read_ok hpiece
          generalize hcount : min len (run.lengthClusters * 4096 - relative) = count at hrest ⊢
          have hrel : relative % 512 = 0 := by
            have := locate_mod hloc
            omega
          obtain ⟨rfl, hdisk', hin'⟩ := readLoop_ok fuel (off + count) (len - count) (by omega) (by omega) (by omega) hrest
          rw [hdisk] at hdisk' hin' ⊢
          refine ⟨?_, hdisk', fun _ => ?_⟩
          · have hsum : len = count + (len - count) := by omega
            have hat : 512 * (volume.first + (lcn * 8 + relative / 512)) = clusterAt volume.first (run.lcn.getD 0) + relative := by
              rw [hlcn, Option.getD_some, clusterAt]
              omega
            rw [hsum, slice_append, hslice count (by omega), ← hat, ← hsum]
          · rcases Nat.eq_zero_or_pos (len - count) with hz | hz
            · omega
            · have := hin' hz
              omega

/-- **A read through a map** gives a part of what its clusters hold. -/
theorem Map.read_ok {self : Map} {off len : Nat} {b : Bytes} (h : self.read volume off len F w = (.ok b, w')) :
    b = slice (contents w.disk volume.first self.runs) off len ∧ w'.disk = w.disk ∧
      (0 < len → off + len ≤ (contents w.disk volume.first self.runs).length) := by
  obtain ⟨_, w1, h1, h⟩ := Io.bind_ok h
  obtain ⟨halign, rfl⟩ := Io.refuse_ok h1
  simp only [Bool.or_eq_false_iff, bne_eq_false_iff_eq] at halign
  exact readLoop_ok len off len (Nat.le_refl _) halign.1 halign.2 h

theorem Map.lba_ok {self : Map} {off len lba : Nat} (d : Disk) (first : Nat) (h : self.lba off len = .ok lba) :
    d.read (512 * (first + lba)) len = slice (contents d first self.runs) off len := by
  unfold Map.lba at h
  split at h
  · cases h
  · rename_i halign
    split at h
    · cases h
    · rename_i run relative hloc
      split at h
      · cases h
      · rename_i hfit
        split at h
        · cases h
        · rename_i lcn hlcn
          cases h
          obtain ⟨-, hlt, -, hslice⟩ := slice_contents d first hloc
          have hmod := locate_mod hloc
          have hat : 512 * (first + (lcn * 8 + relative / 512)) = clusterAt first (run.lcn.getD 0) + relative := by
            rw [hlcn, Option.getD_some, clusterAt]
            omega
          rw [hat, hslice len (by omega)]

end Runs

/-! ## Reads write nothing -/

theorem writes_read (volume : Volume) (lba len : Nat) : Writes (volume.read lba len) [] :=
  Writes.bindNil (Writes.refuse _ _) (fun _ => Writes.bindNil (Writes.lift _) (fun _ => Writes.readRaw _ _ _))

/-! ## Undisturbed reads -/

theorem Reads.volumeRead {d : Disk} {volume : Volume} {lba n : Nat} (hv : volume.device.validate = .ok ())
    (h : 0 < n ∧ lba + n ≤ volume.device.sectors) :
    Reads d (volume.read lba (512 * n)) (d.read (512 * (volume.first + lba)) (512 * n)) := by
  have hrange : (volume.device.checkRange lba (512 * n / 512)).mapError ResizeError.device = .ok () := by
    rw [Nat.mul_div_cancel_left n (by omega), Device.checkRange_ok hv h]
    rfl
  refine Reads.bind (Reads.refuse _ ?_) (Reads.bind (Reads.lift hrange) (fun w hw => ⟨w.tick, ?_, hw⟩))
  · simp only [Bool.or_eq_false_iff, beq_eq_false_iff_ne, bne_eq_false_iff_eq]
    omega
  · subst hw
    rfl

theorem Reads.mapRead {d : Disk} {map : Map} {volume : Volume} {off len count lcn : Nat} {b : Bytes}
    (hruns : map.runs = [{ lengthClusters := count, lcn := some lcn }]) (hoff : off % 512 = 0) (hlen : len % 512 = 0)
    (hpos : 0 < len) (hin : off + len ≤ count * 4096) (h : Reads d (volume.read (lcn * 8 + off / 512) len) b) :
    Reads d (map.read volume off len) b := by
  unfold Map.read
  refine Reads.bind (Reads.refuse _ (by simp [hoff, hlen])) ?_
  obtain ⟨fuel, rfl⟩ : ∃ fuel, len = fuel + 1 := ⟨len - 1, by omega⟩
  unfold Map.readLoop
  rw [if_neg (by omega), hruns, locate, if_pos (by dsimp only; omega)]
  dsimp only
  rw [Nat.min_eq_left (by omega), Nat.sub_self]
  refine Reads.bind h (Reads.bind (a := []) ?_ ?_)
  · unfold Map.readLoop
    split
    · exact Reads.pure _
    · exact Reads.pure _
  · rw [List.append_nil]
    exact Reads.pure _

end Ntfs
end R4
