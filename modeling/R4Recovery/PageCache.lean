import Mathlib
import R4Recovery.PageIndexRun
/-!
# PageCache — the kernel's write-back page cache, one locked section at a time

`Kernel/fs/page_cache.zig` keeps 512 pages of eight sectors.  A slot carries a page's identity, which of its sectors are
valid and which are dirty, and the frame with their data; hash chains find it, the queues of `PageIndex` order it.
The data of a sector is a value of any type `α`.  A slot's chain link is kept beside the slot; statistics, `last_use`
and the disabled read-ahead are left out.
-/
namespace R4
namespace PageCache

open PageIndex LinkedQueue

def pageSectors : Nat := 8
def bucketCount : Nat := 1024
def sectorSize : Nat := 512
def noWriteBatch : Nat := 0
def maxContiguousFillPages : Nat := 2

/-- A `u8` mask of the sectors of a page. -/
abbrev Mask : Type := Finset (Fin 8)

structure Entry (α : Type) where
  valid : Bool := false
  ioBusy : Bool := false
  device : Nat := 0
  page : Nat := 0
  validMask : Mask := ∅
  dirtyMask : Mask := ∅
  dirtySince : Nat := 0
  dirtyOwner : Fin 8 → Nat := fun _ => noWriteBatch
  dirtyWriteSequence : Fin 8 → Nat := fun _ => 0
  payload : Option (Fin 8 → α) := none

structure Cache (α : Type) where
  entries : Nat → Entry α
  next : Nat → Option Nat
  buckets : Nat → Option Nat
  index : Index
  dirtyEntryCount : Nat
  dirtySectorCount : Nat
  dirtySectorsByDevice : Nat → Nat
  dirtyWriteClock : Nat
  writeBatchClock : Nat
  writebackSectors : Nat
  reclaimDirtyDrains : Nat
  backgroundFailureUntil : Nat → Nat
  capacityReference : Nat

/-- `page_cache.init`, with the free frames found at boot. -/
def Cache.init (α : Type) (freeFrames : Nat) : Cache α where
  entries := fun _ => {}
  next := fun _ => none
  buckets := fun _ => none
  index := PageIndex.init
  dirtyEntryCount := 0
  dirtySectorCount := 0
  dirtySectorsByDevice := fun _ => 0
  dirtyWriteClock := 0
  writeBatchClock := noWriteBatch
  writebackSectors := 0
  reclaimDirtyDrains := 0
  backgroundFailureUntil := fun _ => 0
  capacityReference := freeFrames

/-- What `block.get` tells about a device. -/
structure Backend where
  sectorSize : Nat
  sectorCount : Nat
  maxSectorsPerRequest : Nat
  ownsTransportRetry : Bool

/-- What one step finds outside the cache: memory, time, the block layer's answers. -/
structure Env (α : Type) where
  freeFrames : Nat
  now : Nat
  backend : Nat → Option Backend
  /-- `allocFrame`, for the page it is asked for and the attempt: the contents the frame comes with. -/
  frame : Nat → Nat → Option (Fin 8 → α)
  heap : Bool
  /-- `readDirect`, by sector or attempt. -/
  read : Nat → Bool
  /-- `writeDirect`, by the first sector of the run and the attempt. -/
  write : Nat → Nat → Bool
  /-- What a failed transfer leaves behind in the sectors it was to write. -/
  torn : Fin 8 → α
  /-- `writeDirectWithProgress`: how many sectors reached the device. -/
  completed : Nat
  flush : Bool

def pageLba (lba : Nat) : Nat := lba / pageSectors * pageSectors

/-- The sector of a page that `sectorBit` and `sectorOffset` pick. -/
def sectorOf (lba : Nat) : Fin 8 := ⟨lba % 8, Nat.mod_lt _ (by decide)⟩

def bucketOf (device page : Nat) : Nat :=
  let h := page * 0x9E3779B97F4A7C15 % 2 ^ 64
  let h := h ^^^ ((device + 1) % 2 ^ 64 * 0xC2B2AE3D27D4EB4F % 2 ^ 64)
  let h := h ^^^ (h >>> 29)
  h % bucketCount

/-- `capacityForMemory(..).active_pages`. -/
def activePages (referenceFree currentFree : Nat) : Nat :=
  let ramPages := min 512 (max 64 (referenceFree / 128))
  if currentFree ≤ 1024 then min ramPages 64
  else if currentFree ≤ 4096 then min ramPages 128
  else if currentFree ≤ 8192 then min ramPages 256
  else ramPages

def ageDue (now dirtySince maxAge : Nat) : Bool :=
  if dirtySince = 0 then false else now ≥ dirtySince && now - dirtySince ≥ maxAge

namespace Cache

variable {α : Type}

def setEntry (c : Cache α) (i : Nat) (e : Entry α) : Cache α := { c with entries := Function.update c.entries i e }

def setIndex (c : Cache α) (x : Index) : Cache α := { c with index := x }

def capacity (c : Cache α) (env : Env α) : Nat := activePages c.capacityReference env.freeFrames

def findEntry (c : Cache α) (device page : Nat) : Option Nat :=
  (walk c.next maxEntries (c.buckets (bucketOf device page))).find? (fun i =>
    (c.entries i).valid && (c.entries i).device == device && (c.entries i).page == page)

def linkEntry (c : Cache α) (i : Nat) : Cache α :=
  let b := bucketOf (c.entries i).device (c.entries i).page
  { c with next := Function.update c.next i (c.buckets b), buckets := Function.update c.buckets b (some i) }

/-- Joins a chain around slot `i`, after its predecessor or at the bucket. -/
def cutOut (c : Cache α) (i : Nat) : Option Nat → Cache α
  | none =>
    let b := bucketOf (c.entries i).device (c.entries i).page
    { c with buckets := Function.update c.buckets b (c.next i), next := Function.update c.next i none }
  | some p => { c with next := Function.update (Function.update c.next p (c.next i)) i none }

def unlinkEntry (c : Cache α) (i : Nat) : Cache α :=
  let b := bucketOf (c.entries i).device (c.entries i).page
  match predecessor c.next i maxEntries none (c.buckets b) with
  | none => c
  | some prev => c.cutOut i prev

/-- The slot is taken for another page and keeps its frame. -/
def evictForReplacement (c : Cache α) (i : Nat) : Cache α :=
  if ¬ i < maxEntries ∨ (c.entries i).valid = false then c
  else
    let c := c.unlinkEntry i
    let c := c.setIndex (c.index.detach i).1
    c.setEntry i { payload := (c.entries i).payload }

def clearEntry (c : Cache α) (i : Nat) : Cache α :=
  if ¬ i < maxEntries then c
  else
    let c := if (c.entries i).valid then
        let c := c.unlinkEntry i
        c.setIndex (c.index.detach i).1
      else c
    let c := c.setEntry i {}
    c.setIndex (c.index.release i).1

def selectWritableSlot (c : Cache α) (env : Env α) (preferred : Nat) : Cache α × Option Nat :=
  let victim : Cache α × Option Nat :=
    let r := c.index.cleanVictim (some preferred)
    match r.2 with
    | none => (c.setIndex r.1, none)
    | some slot => ((c.setIndex r.1).evictForReplacement slot, some slot)
  if c.index.entryCount < c.capacity env then
    match c.index.claimFree.2 with
    | some i => (c.setIndex c.index.claimFree.1, some i)
    | none => victim
  else victim

/-- `reclaimLocked(false, 1, false)`: gives up one clean page. -/
def reclaimOne (c : Cache α) : Cache α :=
  let r := c.index.cleanVictim none
  match r.2 with
  | none => c.setIndex r.1
  | some slot => (c.setIndex r.1).clearEntry slot

/-- `ensurePayload` for a slot whose own frame is `kept`. -/
def ensurePayload (c : Cache α) (env : Env α) (page : Nat) (kept : Option (Fin 8 → α)) :
    Cache α × Option (Fin 8 → α) :=
  match kept with
  | some f => (c, some f)
  | none =>
    match env.frame page 0 with
    | some f => (c, some f)
    | none => (c.reclaimOne, env.frame page 1)

/-- Nothing reads the slot between its new identity and its frame, so the identity is written with the frame. -/
def createEntry (c : Cache α) (env : Env α) (device page : Nat) : Cache α × Option Nat :=
  if ¬ device < maxDevices then (c, none)
  else
    match c.selectWritableSlot env device with
    | (c, none) => (c, none)
    | (c, some i) =>
      match c.ensurePayload env page (c.entries i).payload with
      | (c, none) =>
        let c := c.setEntry i {}
        (c.setIndex (c.index.release i).1, none)
      | (c, some f) =>
        let r := c.index.attachClean i device
        if r.2 then
          let c := c.setEntry i { valid := true, device := device, page := page, payload := some f }
          ((c.setIndex r.1).linkEntry i, some i)
        else
          let c := c.setEntry i { payload := some f }
          (c.setIndex (c.index.release i).1, none)

/-- `findEntry(..) orelse createEntry(..)`. -/
def findOrCreate (c : Cache α) (env : Env α) (device page : Nat) : Cache α × Option Nat :=
  match c.findEntry device page with
  | some i => (c, some i)
  | none => c.createEntry env device page

def nextDirtyWriteSequence (clock : Nat) : Nat :=
  if (clock + 1) % 2 ^ 64 = 0 then 1 else (clock + 1) % 2 ^ 64

/-- `markDirty` for one sector. -/
def markDirty (c : Cache α) (env : Env α) (i : Nat) (s : Fin 8) (owner : Nat) : Cache α × Bool :=
  let e := c.entries i
  if ¬ i < maxEntries ∨ e.valid = false ∨ ¬ e.device < maxDevices then (c, false)
  else if e.dirtyMask = ∅ ∧ (c.index.markDirty i).2 = false then (c, false)
  else
    let newly := {s} \ e.dirtyMask
    let seq := nextDirtyWriteSequence c.dirtyWriteClock
    let first := decide (e.dirtyMask = ∅)
    let e' := { e with
      dirtySince := if first then max 1 env.now else e.dirtySince
      dirtyMask := e.dirtyMask ∪ {s}
      dirtyOwner := Function.update e.dirtyOwner s owner
      dirtyWriteSequence := Function.update e.dirtyWriteSequence s seq }
    ({ c.setEntry i e' with
        index := if first then (c.index.markDirty i).1 else c.index
        dirtyEntryCount := if first then c.dirtyEntryCount + 1 else c.dirtyEntryCount
        dirtySectorCount := c.dirtySectorCount + newly.card
        dirtySectorsByDevice := Function.update c.dirtySectorsByDevice e.device
          (c.dirtySectorsByDevice e.device + newly.card)
        dirtyWriteClock := seq }, true)

/-- The slot when the sectors `cleared` are no longer dirty, their ownership forgotten. -/
def without (e : Entry α) (cleared : Mask) : Entry α :=
  { e with
    dirtyMask := e.dirtyMask \ cleared
    dirtySince := if e.dirtyMask \ cleared = ∅ then 0 else e.dirtySince
    dirtyOwner := fun s => if s ∈ cleared then noWriteBatch else e.dirtyOwner s
    dirtyWriteSequence := fun s => if s ∈ cleared then 0 else e.dirtyWriteSequence s }

def clearDirtyBits (c : Cache α) (i : Nat) (bits : Mask) : Cache α :=
  let e := c.entries i
  let cleared := e.dirtyMask ∩ bits
  if ¬ i < maxEntries ∨ cleared = ∅ then c
  else
    let left := e.dirtyMask \ cleared
    { c.setEntry i (without e cleared) with
      dirtySectorCount := c.dirtySectorCount - cleared.card
      dirtySectorsByDevice := if e.device < maxDevices then
          Function.update c.dirtySectorsByDevice e.device (c.dirtySectorsByDevice e.device - cleared.card)
        else c.dirtySectorsByDevice
      dirtyEntryCount := if left = ∅ then c.dirtyEntryCount - 1 else c.dirtyEntryCount
      index := if left = ∅ then (c.index.clearDirty i).1 else c.index }

/-- `policy_index.pin` with the `io_busy` flag it goes with. -/
def pinEntry (c : Cache α) (i : Nat) : Cache α :=
  (c.setIndex (c.index.pin i).1).setEntry i { c.entries i with ioBusy := true }

def unpinEntry (c : Cache α) (i : Nat) (retryOldest : Bool) : Cache α :=
  (c.setEntry i { c.entries i with ioBusy := false }).setIndex (c.index.unpin i retryOldest).1

def setValidMask (c : Cache α) (i : Nat) (m : Mask) : Cache α := c.setEntry i { c.entries i with validMask := m }

/-- Stores `f` in the sectors `m` of the slot's frame. -/
def copyInto (c : Cache α) (i : Nat) (m : Mask) (f : Fin 8 → α) : Cache α :=
  c.setEntry i { c.entries i with payload := (c.entries i).payload.map (fun g s => if s ∈ m then f s else g s) }

/-- What `writeSectorInBatch` does to the page it found: mark the sector, copy the data, make it valid. -/
def writeInto (c : Cache α) (env : Env α) (i : Nat) (s : Fin 8) (v : α) (batch : Nat) : Cache α × Bool :=
  let r := c.markDirty env i s batch
  if r.2 = false then (c, false)
  else
    let c := r.1.copyInto i {s} (fun _ => v)
    (c.setValidMask i ((c.entries i).validMask ∪ {s}), true)

def noteDemandHit (c : Cache α) (i : Nat) : Cache α :=
  if (c.entries i).valid then c.setIndex (c.index.touchClean i) else c

def maskForOwner (e : Entry α) (owner : Nat) : Mask := e.dirtyMask.filter (fun s => e.dirtyOwner s = owner)

def oldestSequenceForOwner (e : Entry α) (owner : Nat) : Option Nat :=
  (List.finRange 8).foldl (fun oldest s =>
    if s ∈ e.dirtyMask ∧ e.dirtyOwner s = owner then
      match oldest with
      | none => some (e.dirtyWriteSequence s)
      | some o => if e.dirtyWriteSequence s < o then some (e.dirtyWriteSequence s) else some o
    else oldest) none

/-- The slots met on a device's dirty queue. -/
def dirtyQueue (c : Cache α) (device : Nat) : List Nat :=
  walk c.index.nextDirty maxEntries (c.index.dirtyHead device)

def findOldestDirtyForDeviceBatch (c : Cache α) (device batch : Nat) : Option Nat :=
  ((c.dirtyQueue device).foldl (fun (best : Option (Nat × Nat)) i =>
    match oldestSequenceForOwner (c.entries i) batch with
    | none => best
    | some seq =>
      match best with
      | none => some (i, seq)
      | some b => if seq < b.2 then some (i, seq) else some b) none).map Prod.fst

def dirtySectorsForDeviceBatch (c : Cache α) (device batch : Nat) : Nat :=
  ((c.dirtyQueue device).map (fun i => (maskForOwner (c.entries i) batch).card)).sum

def findOldestDirty (c : Cache α) : Cache α × Option Nat :=
  let r := c.index.nextDirtyDevice false
  match r.2 with
  | none => (c.setIndex r.1, none)
  | some d => (c.setIndex r.1, r.1.dirtyHead d)

def dirtyEntriesForDevice (c : Cache α) (device : Nat) : Nat :=
  if device < maxDevices then (c.index.devices device).dirty else 0

def hasBusyDirty (c : Cache α) : Bool :=
  (List.range maxDevices).any (fun d => (c.index.devices d).busyDirty ≠ 0)

end Cache

end PageCache
end R4
