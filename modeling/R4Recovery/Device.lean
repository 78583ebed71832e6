import R4Recovery.Disk
/-!
# Device — bounded block I/O

`Device` of `io.zig`: every operation checks the geometry and its range, writes need the exclusive claim, and `verify`
reads its range back.  Progress records and cancellation callbacks are left out: a cancelled operation is one that fails.
-/
namespace R4

inductive Error where
  | geometry | bounds | exclusiveRequired | readFailed | writeFailed | flushFailed | verifyFailed | outOfMemory
  | protectiveMbr | hybridMbr | partitionRange | activeFlag | extendedMbrUnsupported | stale
  | shortSector | shortEntry | badSignature | unsupportedRevision | badHeaderSize | nonzeroReserved | badHeaderCrc | wrongHeaderLba | badBackupLba
  | badUsableRange | unsupportedEntryLayout | entryArrayOutOfRange | badPartitionRange
  | gptLayoutUnsupported | gptCopiesDisagree | gptArrayCrc | notEmpty | alreadyConverted | mbrCapacity | partitionGuid
  | overlap | duplicateGuid | alignment | partitionCapacity | notFound | noSpace
  | gptAlreadyHealthy | gptBothInvalid
  deriving DecidableEq, Repr

/-- `if (bad) return e` in a pure check. -/
def reject (bad : Bool) (e : Error) : Except Error Unit := if bad then .error e else .ok ()

structure Device where
  sectors : Nat
  sectorBytes : Nat := 512
  exclusive : Bool := false

namespace Device

def validate (dev : Device) : Except Error Unit :=
  if dev.sectorBytes ≠ 512 ∨ dev.sectors = 0 ∨ (2 ^ 64 - 1) / 512 < dev.sectors then .error .geometry else .ok ()

def requireExclusive (dev : Device) : Except Error Unit := do
  dev.validate
  if dev.exclusive then .ok () else .error .exclusiveRequired

def checkRange (dev : Device) (lba count : Nat) : Except Error Unit := do
  dev.validate
  if count = 0 ∨ dev.sectors ≤ lba ∨ dev.sectors - lba < count then .error .bounds else .ok ()

/-- `read`.  The transfer limit of the source splits a request into several backend reads; the first that fails ends it. -/
def read (dev : Device) (lba len : Nat) : Io Error Bytes := do
  Io.refuse (len == 0 || len % 512 != 0) .bounds
  Io.lift (dev.checkRange lba (len / 512))
  Io.readRaw .readFailed lba len

def write (dev : Device) (lba : Nat) (data : Bytes) : Io Error Unit := do
  Io.lift dev.requireExclusive
  Io.refuse (data.length == 0 || data.length % 512 != 0) .bounds
  Io.lift (dev.checkRange lba (data.length / 512))
  Io.writeRaw .writeFailed lba data

def flush (dev : Device) : Io Error Unit := do
  Io.lift dev.requireExclusive
  Io.step .flushFailed

/-- `verify`: the range is read back and compared. -/
def verify (dev : Device) (lba : Nat) (expected : Bytes) (scratchLen : Nat) : Io Error Unit := do
  Io.refuse (decide (scratchLen < 512) || scratchLen % 512 != 0 || expected.length == 0 || expected.length % 512 != 0) .bounds
  Io.lift (dev.checkRange lba (expected.length / 512))
  let bytes ← dev.read lba expected.length
  Io.refuse (bytes != expected) .verifyFailed

/-- `fill`: `count` sectors of one byte. -/
def fill (dev : Device) (lba count : Nat) (value : UInt8) (scratchLen : Nat) : Io Error Unit := do
  Io.lift dev.requireExclusive
  Io.lift (dev.checkRange lba count)
  Io.refuse (decide (scratchLen < 512) || scratchLen % 512 != 0) .bounds
  dev.write lba (List.replicate (512 * count) value)

end Device

theorem reject_ok {bad : Bool} {e : Error} {u : Unit} : reject bad e = .ok u ↔ bad = false := by
  cases bad <;> simp [reject]

theorem Except.bind_ok {ε α β : Type} {x : Except ε α} {f : α → Except ε β} {b : β} :
    (x >>= f) = .ok b ↔ ∃ a, x = .ok a ∧ f a = .ok b := by
  cases x with
  | error e => exact ⟨nofun, nofun⟩
  | ok a => exact ⟨fun h => ⟨a, rfl, h⟩, fun ⟨a', ha, h⟩ => by cases ha; exact h⟩

section

variable {dev : Device} {F : Faults} {w w' : World}

theorem Device.read_ok {lba len : Nat} {b : Bytes} (h : dev.read lba len F w = (.ok b, w')) :
    w.disk.read (512 * lba) len = b ∧ w.tick = w' := by
  obtain ⟨_, w1, h1, h⟩ := Io.bind_ok h
  obtain ⟨-, rfl⟩ := Io.refuse_ok h1
  obtain ⟨_, w2, h2, h⟩ := Io.bind_ok h
  obtain ⟨-, rfl⟩ := Io.lift_ok h2
  exact Io.readRaw_ok h

theorem Device.checkRange_ok {lba count : Nat} (hv : dev.validate = .ok ()) (h : 0 < count ∧ lba + count ≤ dev.sectors) :
    dev.checkRange lba count = .ok () := by
  rw [Device.checkRange, hv]
  show (if count = 0 ∨ dev.sectors ≤ lba ∨ dev.sectors - lba < count then Except.error Error.bounds else .ok ()) = _
  rw [if_neg (by omega)]

theorem Reads.read {d : Disk} {lba n : Nat} (hv : dev.validate = .ok ()) (h : 0 < n ∧ lba + n ≤ dev.sectors) :
    Reads d (dev.read lba (512 * n)) (d.read (512 * lba) (512 * n)) := by
  have hlen : (512 * n == 0 || 512 * n % 512 != 0) = false := by
    simp only [Bool.or_eq_false_iff, beq_eq_false_iff_ne, bne_eq_false_iff_eq]
    omega
  have hdiv : 512 * n / 512 = n := by omega
  have hrange : dev.checkRange lba (512 * n / 512) = .ok () := by rw [hdiv, Device.checkRange_ok hv h]
  refine Reads.bind (Reads.refuse _ hlen) (Reads.bind (Reads.lift hrange) (fun w hw => ⟨w.tick, ?_, hw⟩))
  subst hw
  rfl

theorem Reads.verify {d : Disk} {lba n scratchLen : Nat} {expected : Bytes} (hv : dev.validate = .ok ())
    (h : 0 < n ∧ lba + n ≤ dev.sectors) (hlen : expected.length = 512 * n) (hs : 512 ≤ scratchLen ∧ scratchLen % 512 = 0)
    (hd : d.read (512 * lba) (512 * n) = expected) : Reads d (dev.verify lba expected scratchLen) () := by
  have hrange : dev.checkRange lba (expected.length / 512) = .ok () := by
    rw [hlen, Nat.mul_div_cancel_left n (by omega), Device.checkRange_ok hv h]
  refine Reads.bind (Reads.refuse _ ?_) (Reads.bind (Reads.lift hrange) ?_)
  · simp only [Bool.or_eq_false_iff, decide_eq_false_iff_not, bne_eq_false_iff_eq, beq_eq_false_iff_ne]
    omega
  · rw [hlen]
    refine Reads.bind (Reads.read hv h) (Reads.refuse _ ?_)
    rw [hd, bne_self_eq_false]

theorem Device.write_run {lba n : Nat} {data : Bytes} (hv : dev.requireExclusive = .ok ())
    (h : 0 < n ∧ lba + n ≤ dev.sectors) (hlen : data.length = 512 * n) (w : World) :
    dev.write lba data noFaults w = (.ok (), w.wrote {} lba data) := by
  obtain ⟨_, hval, -⟩ := Except.bind_ok.1 hv
  have hbad : (data.length == 0 || data.length % 512 != 0) = false := by
    simp only [Bool.or_eq_false_iff, beq_eq_false_iff_ne, bne_eq_false_iff_eq]
    omega
  rw [Device.write, hv, hbad, hlen, Nat.mul_div_cancel_left n (by omega), Device.checkRange_ok hval h]
  rfl

theorem Device.flush_run (hv : dev.requireExclusive = .ok ()) (w : World) : dev.flush noFaults w = (.ok (), w.tick) := by
  rw [Device.flush, hv]
  rfl

theorem Device.sectors_pos (hv : dev.validate = .ok ()) : 0 < dev.sectors ∧ dev.sectors ≤ (2 ^ 64 - 1) / 512 := by
  unfold Device.validate at hv
  split at hv
  · cases hv
  · omega

/-- **A verify that succeeds says what the disk holds.** -/
theorem Device.verify_ok {lba scratchLen : Nat} {expected : Bytes} {u : Unit}
    (h : dev.verify lba expected scratchLen F w = (.ok u, w')) :
    w.disk.read (512 * lba) expected.length = expected ∧ w'.disk = w.disk := by
  obtain ⟨_, w1, h1, h⟩ := Io.bind_ok h
  obtain ⟨-, rfl⟩ := Io.refuse_ok h1
  obtain ⟨_, w2, h2, h⟩ := Io.bind_ok h
  obtain ⟨-, rfl⟩ := Io.lift_ok h2
  obtain ⟨b, w3, h3, h⟩ := Io.bind_ok h
  obtain ⟨rfl, rfl⟩ := Device.read_ok h3
  obtain ⟨hb, rfl⟩ := Io.refuse_ok h
  exact ⟨by simpa using hb, rfl⟩

end

namespace Writes

variable (dev : Device)

theorem read (lba len : Nat) : Writes (dev.read lba len) [] :=
  bindNil (refuse _ _) (fun _ => bindNil (lift _) (fun _ => readRaw _ lba len))

theorem write (lba : Nat) (data : Bytes) : Writes (dev.write lba data) [(lba, data)] :=
  bindNil (lift _) (fun _ => bindNil (refuse _ _) (fun _ => bindNil (lift _) (fun _ => writeRaw _ lba data)))

theorem flush : Writes dev.flush [] := bindNil (lift _) (fun _ => step _)

theorem verify (lba : Nat) (expected : Bytes) (scratchLen : Nat) : Writes (dev.verify lba expected scratchLen) [] :=
  bindNil (refuse _ _) (fun _ => bindNil (lift _) (fun _ => bindNil (read dev _ _) (fun _ => refuse _ _)))

end Writes

end R4
