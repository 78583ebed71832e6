import R4Recovery.PageCache
/-!
# PageCacheTask — the page cache's calls, interleaved at their lock releases

A call is a task that alternates sections with `cache_lock` held and transfers without it.  One step of the model is one
such section or one transfer; between two steps any other task may run.  A section of the source that goes round its
loop without giving up the lock may be cut at the loop's head here, which only adds interleavings.  What a call waits
for, and what the block layer and the allocator answer, comes with the step.
-/
namespace R4
namespace PageCache

open PageIndex LinkedQueue

def defaultHz : Nat := 1000
def busyWaitLimit : Nat := 5 * defaultHz
def maxDirtyAgeTicks : Nat := 2 * defaultHz
def backgroundFailureBackoffTicks : Nat := defaultHz

/-- Where a call stands when it holds no pin: at the head of its loop. -/
inductive Loop (α : Type) where
  | idle
  | readSector (d lba busyGuard : Nat)
  | readSectors (d lba count done busyGuard : Nat) (buffer : Option Nat) (unavailable : Bool)
  | writeSector (d lba : Nat) (v : α) (batch busyGuard : Nat)
  | flushDevice (d since : Nat)
  | flushBatch (d batch since : Nat) (draining : Bool)
  | flushAll
  | flushRangeStart (d first count : Nat)
  | flushRange (d first count : Nat)
  | reclaim (target returned : Nat) (allowDirty : Bool) (drains : Option Nat)
  | invalidateSector (d lba : Nat)
  | invalidateDevice (d : Nat)
  | background
  | backgroundWrote (d : Nat)
  | trimCapacity
  | beginWriteBatch

inductive Task (α : Type) where
  | loop (k : Loop α)
  /-- `writebackEntryMaskUnlocked` waiting for another owner of its slot. -/
  | waitWriteback (i : Nat) (batch : Option Nat) (selected : Mask) (before : Option Nat) (k : Loop α)
  | writeback (i d page : Nat) (snapshot : Mask) (before : Option Nat) (k : Loop α)
  | wroteBack (i d page : Nat) (snapshot written : Mask) (ok : Bool) (before : Option Nat) (k : Loop α)
  | fill (i d page : Nat) (validBefore readable : Mask) (second : Bool) (k : Loop α)
  | filled (i d page : Nat) (validBefore readable : Mask) (second ok : Bool) (k : Loop α)
  | fillRun (d first sectorCount : Nat) (slots : List (Nat × Mask)) (ownsRetry : Bool) (i : Nat) (k : Loop α)
  | filledRun (d first sectorCount : Nat) (slots : List (Nat × Mask)) (staging : Nat → α) (ok : Bool) (i : Nat)
      (k : Loop α)
  | pinPages (d lba : Nat) (data : List α) (offset : Nat) (owned reserved : List Nat)
  | direct (d lba : Nat) (data : List α) (owned reserved : List Nat)
  | wroteDirect (d lba : Nat) (data : List α) (completed : Nat) (owned reserved : List Nat)
  | barrier (d : Nat) (batch : Option Nat) (since : Nat)
  | rangeBarrier

/-- What the calls and the backends do to the data, in order. -/
inductive Event (α : Type) where
  /-- A cached write, at its marking step. -/
  | cached (d lba : Nat) (v : α) (batch : Nat)
  /-- A sector of a direct write that was reported complete, at the write's completion step. -/
  | direct (d lba : Nat) (v : α)
  /-- A successful backend write of a sector by a writeback. -/
  | stored (d lba : Nat) (v : α)
  /-- A sector copied out to the caller of a read. -/
  | delivered (d lba : Nat) (v : α)
  /-- A successful backend flush, at the end of a flush called after `since` events. -/
  | flushed (d : Nat) (batch : Option Nat) (since : Nat)

variable {α : Type}

def Task.idle : Task α := .loop .idle

/-- What a section leaves behind. -/
structure Section (α : Type) where
  cache : Cache α
  task : Task α
  events : List (Event α) := []

/-- A fill that was answered at once, or whose transfer is to start. -/
inductive Begun (α : Type) where
  | answered (ok : Bool)
  | started (t : Task α)

namespace Cache

/-! ## Writebacks -/

/-- The call whose writeback failed returns. -/
def giveUp (c : Cache α) (env : Env α) : Loop α → Section α
  | .backgroundWrote d =>
    let failureUntil := Function.update c.backgroundFailureUntil d (env.now + backgroundFailureBackoffTicks)
    ⟨{ c with backgroundFailureUntil := failureUntil }, .idle, []⟩
  | _ => ⟨c, .idle, []⟩

/-- The call goes on after its writeback; a pressure drain is recorded. -/
def goOn (c : Cache α) (before : Option Nat) (k : Loop α) : Section α :=
  match before with
  | none => ⟨c, .loop k, []⟩
  | some b => ⟨{ c with reclaimDirtyDrains := c.reclaimDirtyDrains + (c.writebackSectors - b) }, .loop k, []⟩

/-- The dirty sectors a writeback is after: all of them, or those of one batch. -/
def dirtySnapshot (e : Entry α) : Option Nat → Mask
  | some owner => maskForOwner e owner
  | none => e.dirtyMask

/-- `writebackEntryMaskUnlocked` up to the transfer. -/
def startWriteback (c : Cache α) (env : Env α) (i : Nat) (batch : Option Nat) (selected : Mask) (before : Option Nat)
    (k : Loop α) : Section α :=
  let e := c.entries i
  if ¬ i < maxEntries then c.goOn before k
  else if e.valid = true ∧ e.ioBusy = true then ⟨c, .waitWriteback i batch selected before k, []⟩
  else if e.valid = false then c.goOn before k
  else
    let snapshot := dirtySnapshot e batch ∩ selected
    if snapshot = ∅ then c.goOn before k
    else if e.payload.isSome = false ∨ (c.index.pin i).2 = false then c.giveUp env k
    else ⟨c.pinEntry i, .writeback i e.device e.page snapshot before k, []⟩

/-- `writebackOldestDirty(.pressure)`. -/
def writebackOldestDirty (c : Cache α) (env : Env α) (k : Loop α) : Section α :=
  match c.findOldestDirty with
  | (c, none) => ⟨c, .loop k, []⟩
  | (c, some i) => c.startWriteback env i none Finset.univ (some c.writebackSectors) k

/-- No slot for the page: drain one dirty page, wait for a pinned one, or give up. -/
def starved (c : Cache α) (env : Env α) (busyGuard : Nat) (k : Nat → Loop α) : Section α :=
  match c.findOldestDirty with
  | (c, some _) => c.writebackOldestDirty env (k 0)
  | (c, none) =>
    if c.index.busyCount ≠ 0 ∧ busyGuard + 1 ≤ busyWaitLimit then ⟨c, .loop (k (busyGuard + 1)), []⟩
    else ⟨c, .idle, []⟩

/-- After the transfer: `written` is clean again. -/
def finishWriteback (c : Cache α) (env : Env α) (i : Nat) (written : Mask) (ok : Bool) (before : Option Nat)
    (k : Loop α) : Section α :=
  let c := c.clearDirtyBits i written
  let c := c.unpinEntry i (!ok || decide ((c.entries i).dirtyMask ≠ ∅))
  let c := { c with writebackSectors := c.writebackSectors + written.card }
  if ok then c.goOn before k else c.giveUp env k

/-! ## Fills -/

def readableMask (n : Nat) : Mask := Finset.univ.filter (fun s => s.val < n)

def readableSectors (sectorCount page : Nat) : Nat :=
  if sectorCount = 0 then pageSectors else min pageSectors (sectorCount - page)

/-- `fillEntryUnlocked` up to the transfer. -/
def beginFill (c : Cache α) (env : Env α) (i : Nat) (second : Bool) (k : Loop α) : Cache α × Begun α :=
  let e := c.entries i
  if e.validMask = Finset.univ then (c, .answered true)
  else
    match e.payload, env.backend e.device with
    | some _, some b =>
      let readable := readableMask (readableSectors b.sectorCount e.page)
      if b.sectorSize ≠ sectorSize ∨ (b.sectorCount ≠ 0 ∧ b.sectorCount ≤ e.page) then (c, .answered false)
      else if readable \ e.validMask = ∅ ∨ (c.index.pin i).2 = false then (c, .answered false)
      else (c.pinEntry i, .started (.fill i e.device e.page e.validMask readable second k))
    | _, _ => (c, .answered false)

/-- The second attempt of `fillEntryWithBackendPolicy`. -/
def retryFill (c : Cache α) (env : Env α) (i : Nat) (k : Loop α) : Cache α × Begun α :=
  match env.backend (c.entries i).device with
  | none => (c, .answered false)
  | some b => if b.ownsTransportRetry then (c, .answered false) else c.beginFill env i true k

def fillWithBackendPolicy (c : Cache α) (env : Env α) (i : Nat) (k : Loop α) : Cache α × Begun α :=
  match c.beginFill env i false k with
  | (c, .answered false) => c.retryFill env i k
  | r => r

def maskCovers (m : Mask) (cur span : Nat) : Bool := (List.range span).all (fun j => sectorOf (cur + j) ∈ m)

/-- How many sectors of the request lie in the page of `cur`. -/
def spanOf (cur left : Nat) : Nat := min left (pageSectors - cur % pageSectors)

/-- `readSectors` copies the sectors of one page out. -/
def serve (c : Cache α) (i d lba count done : Nat) (buffer : Option Nat) (unavailable : Bool) : Section α :=
  let cur := lba + done
  let span := spanOf cur (count - done)
  match (c.entries i).payload with
  | none => ⟨c, .idle, []⟩
  | some f =>
    if maskCovers (c.entries i).validMask cur span then
      ⟨c.noteDemandHit i, .loop (.readSectors d lba count (done + span) 0 buffer unavailable),
        (List.range span).map (fun j => .delivered d (cur + j) (f (sectorOf (cur + j))))⟩
    else ⟨c, .idle, []⟩

/-- What the reader does with the answer of its fill. -/
def afterFill (c : Cache α) (i : Nat) (ok : Bool) : Loop α → Section α
  | .readSector d lba guard =>
    if ok then ⟨c, .loop (.readSector d lba guard), []⟩
    else if (c.entries i).valid = true ∧ (c.entries i).validMask = ∅ ∧ (c.entries i).ioBusy = false then
      ⟨c.clearEntry i, .idle, []⟩
    else ⟨c, .idle, []⟩
  | .readSectors d lba count done _ buffer unavailable =>
    if ok then c.serve i d lba count done buffer unavailable else ⟨c, .idle, []⟩
  | _ => ⟨c, .idle, []⟩

def proceed (i : Nat) (k : Loop α) : Cache α × Begun α → Section α
  | (c, .answered ok) => c.afterFill i ok k
  | (c, .started t) => ⟨c, t, []⟩

/-- `fillEntryUnlocked` after the transfer, and the second attempt. -/
def finishFill (c : Cache α) (env : Env α) (i : Nat) (validBefore readable : Mask) (second ok : Bool) (k : Loop α) :
    Section α :=
  let c := c.unpinEntry i (decide ((c.entries i).dirtyMask ≠ ∅))
  if ok then (c.setValidMask i (validBefore ∪ readable)).afterFill i true k
  else if second then c.afterFill i false k
  else proceed i k (c.retryFill env i k)

def fillRunPageLimit (requested maxSectors pageSectors capacity : Nat) : Nat :=
  if requested = 0 ∨ pageSectors = 0 ∨ capacity = 0 then 0
  else
    let devicePages := if maxSectors ≠ 0 then max 1 (maxSectors / pageSectors) else requested
    min requested (min devicePages capacity)

def fillRunPageLimitLocked (c : Cache α) (env : Env α) (d requested : Nat) : Nat :=
  match env.backend d with
  | none => 0
  | some b =>
    if b.sectorSize ≠ sectorSize then 0
    else fillRunPageLimit (min requested maxContiguousFillPages) b.maxSectorsPerRequest pageSectors (c.capacity env)

/-- The pages of a run, pinned one after another until one is not to be filled. -/
def reserveRun (env : Env α) (d sectorCount : Nat) : Nat → Nat → Cache α → Cache α × List (Nat × Mask)
  | 0, _, c => (c, [])
  | n + 1, page, c =>
    if sectorCount ≠ 0 ∧ sectorCount ≤ page then (c, [])
    else
      let readable := readableMask (readableSectors sectorCount page)
      match c.findOrCreate env d page with
      | (c, none) => (c, [])
      | (c, some i) =>
        if (c.entries i).ioBusy = true ∨ (c.entries i).validMask ∩ readable = readable ∨ (c.index.pin i).2 = false then
          (c, [])
        else if readableSectors sectorCount page ≠ pageSectors ∨ 2 ^ 64 - 1 - pageSectors < page then
          (c.pinEntry i, [(i, (c.entries i).validMask)])
        else
          let r := reserveRun env d sectorCount n (page + pageSectors) (c.pinEntry i)
          (r.1, (i, (c.entries i).validMask) :: r.2)

/-- `fillContiguousRunLocked` up to the transfer; slot `i` is the one the reader is after. -/
def beginFillRun (c : Cache α) (env : Env α) (d first requested staging i : Nat) (k : Loop α) : Cache α × Begun α :=
  match env.backend d with
  | none => (c, .answered false)
  | some b =>
    let limit := min staging (c.fillRunPageLimitLocked env d requested)
    if b.sectorSize ≠ sectorSize ∨ limit < 2 then (c, .answered false)
    else
      match reserveRun env d b.sectorCount limit first c with
      | (c, []) => (c, .answered false)
      | (c, [(j, _)]) => (c.unpinEntry j (decide ((c.entries j).dirtyMask ≠ ∅))).fillWithBackendPolicy env j k
      | (c, slots) => (c, .started (.fillRun d first b.sectorCount slots b.ownsTransportRetry i k))

def slotStands (c : Cache α) (d page i : Nat) : Bool :=
  (c.entries i).valid && (c.entries i).device == d && (c.entries i).page == page && (c.entries i).ioBusy

/-- The pages of a run published and unpinned, or unpinned only. -/
def finishSlots (d sectorCount : Nat) (staging : Nat → α) :
    Cache α → List (Nat × Mask) → Nat → Nat → Bool → Cache α × Bool
  | c, [], _, _, ok => (c, ok)
  | c, (i, validBefore) :: rest, page, offset, ok =>
    if c.slotStands d page i = false then finishSlots d sectorCount staging c rest (page + pageSectors) offset false
    else
      let n := readableSectors sectorCount page
      let c := if ok then
          (c.copyInto i (readableMask n \ validBefore) (fun s => staging (offset + s))).setValidMask i
            (validBefore ∪ readableMask n)
        else c
      let c := c.unpinEntry i (!ok || decide ((c.entries i).dirtyMask ≠ ∅))
      let c := if ok = false ∧ (c.entries i).validMask = ∅ ∧ (c.entries i).dirtyMask = ∅ then c.clearEntry i else c
      finishSlots d sectorCount staging c rest (page + pageSectors) (offset + n) ok

/-- The first look at the pinned slots after the transfer. -/
def runStands (c : Cache α) (d : Nat) : List (Nat × Mask) → Nat → Bool
  | [], _ => true
  | (i, _) :: rest, page =>
    c.slotStands d page i && (c.entries i).payload.isSome && c.runStands d rest (page + pageSectors)

def finishRun (c : Cache α) (d first sectorCount : Nat) (slots : List (Nat × Mask)) (staging : Nat → α) (ok : Bool)
    (i : Nat) (k : Loop α) : Section α :=
  let r := finishSlots d sectorCount staging c slots first 0 (ok && c.runStands d slots first)
  r.1.afterFill i r.2 k

/-! ## Direct writes -/

def releasePin (c : Cache α) (reserved : List Nat) (i : Nat) : Cache α :=
  let c := if (c.entries i).ioBusy then c.unpinEntry i (decide ((c.entries i).dirtyMask ≠ ∅)) else c
  if i ∈ reserved ∧ (c.entries i).valid = true ∧ (c.entries i).validMask = ∅ ∧ (c.entries i).dirtyMask = ∅ then
    c.clearEntry i
  else c

def releaseDirectWritePins (c : Cache α) (owned reserved : List Nat) : Cache α :=
  ((List.range maxEntries).filter (fun i => i ∈ owned)).foldl (fun c i => c.releasePin reserved i) c

/-- The `n` sectors of a page that start at `cur`. -/
def spanMask (cur n : Nat) : Mask := Finset.univ.filter (fun s => cur % pageSectors ≤ s.val ∧ s.val < cur % pageSectors + n)

/-- One page of a completed direct write: the sectors on the device are forgotten, the pin is released. -/
def completePage (c : Cache α) (i cur n : Nat) (reserved : List Nat) : Cache α :=
  let c := c.clearDirtyBits i (spanMask cur n)
  let c := c.setValidMask i ((c.entries i).validMask \ spanMask cur n)
  let c := c.unpinEntry i (decide ((c.entries i).dirtyMask ≠ ∅))
  if (n ≠ 0 ∨ i ∈ reserved) ∧ (c.entries i).validMask = ∅ ∧ (c.entries i).dirtyMask = ∅ then c.clearEntry i else c

/-- The pages of a direct write, from `offset` on; `fuel` bounds the loop. -/
def completePages (d lba count completed : Nat) (owned reserved : List Nat) : Nat → Nat → Cache α → Cache α
  | 0, _, c => c
  | fuel + 1, offset, c =>
    if count ≤ offset then c
    else
      let cur := lba + offset
      let span := spanOf cur (count - offset)
      let n := min span (completed - offset)
      let c := match c.findEntry d (pageLba cur) with
        | none => c
        | some i => if i ∈ owned ∧ (c.entries i).ioBusy = true then c.completePage i cur n reserved else c
      completePages d lba count completed owned reserved fuel (offset + span) c

def pinNext (c : Cache α) (env : Env α) (d lba : Nat) (data : List α) (offset : Nat) (owned reserved : List Nat) :
    Section α :=
  let cur := lba + offset
  let existing := c.findEntry d (pageLba cur)
  match c.findOrCreate env d (pageLba cur) with
  | (c, none) => ⟨c.releaseDirectWritePins owned reserved, .idle, []⟩
  | (c, some i) =>
    if (c.entries i).ioBusy then ⟨c, .pinPages d lba data offset owned reserved, []⟩
    else if (c.index.pin i).2 = false then ⟨c.releaseDirectWritePins owned reserved, .idle, []⟩
    else
      ⟨c.pinEntry i, .pinPages d lba data (offset + spanOf cur (data.length - offset)) (i :: owned)
        (if existing = none then i :: reserved else reserved), []⟩

/-! ## The other sections -/

def readOne (c : Cache α) (env : Env α) (d lba guard : Nat) : Section α :=
  match c.findOrCreate env d (pageLba lba) with
  | (c, none) => c.starved env guard (fun g => .readSector d lba g)
  | (c, some i) =>
    if (c.entries i).ioBusy then
      if guard + 1 > busyWaitLimit then ⟨c, .idle, []⟩ else ⟨c, .loop (.readSector d lba (guard + 1)), []⟩
    else if sectorOf lba ∈ (c.entries i).validMask then
      match (c.entries i).payload with
      | none => ⟨c, .idle, []⟩
      | some f => ⟨c.noteDemandHit i, .idle, [.delivered d lba (f (sectorOf lba))]⟩
    else proceed i (.readSector d lba guard) (c.fillWithBackendPolicy env i (.readSector d lba guard))

def readPages (c : Cache α) (env : Env α) (d lba count done guard : Nat) (buffer : Option Nat) (unavailable : Bool) :
    Section α :=
  if count ≤ done then ⟨c, .idle, []⟩
  else
    let cur := lba + done
    let page := pageLba cur
    let span := spanOf cur (count - done)
    match c.findOrCreate env d page with
    | (c, none) => c.starved env guard (fun g => .readSectors d lba count done g buffer unavailable)
    | (c, some i) =>
      let k := Loop.readSectors d lba count done guard buffer unavailable
      if (c.entries i).ioBusy then
        if guard + 1 > busyWaitLimit then ⟨c, .idle, []⟩
        else ⟨c, .loop (.readSectors d lba count done (guard + 1) buffer unavailable), []⟩
      else if maskCovers (c.entries i).validMask cur span then c.serve i d lba count done buffer unavailable
      else
        let requested := min maxEntries ((pageLba (lba + count - 1) - page) / pageSectors + 1)
        let run := c.fillRunPageLimitLocked env d requested
        match buffer with
        | some n =>
          if run ≥ 2 then proceed i k (c.beginFillRun env d page run n i k)
          else proceed i k (c.fillWithBackendPolicy env i k)
        | none =>
          if run ≥ 2 ∧ unavailable = false then
            ⟨c, .loop (.readSectors d lba count done guard (if env.heap then some run else none) (!env.heap)), []⟩
          else proceed i k (c.fillWithBackendPolicy env i k)

def writeOne (c : Cache α) (env : Env α) (d lba : Nat) (v : α) (batch guard : Nat) : Section α :=
  match c.findOrCreate env d (pageLba lba) with
  | (c, none) => c.starved env guard (fun g => .writeSector d lba v batch g)
  | (c, some i) =>
    if (c.entries i).ioBusy then ⟨c, .loop (.writeSector d lba v batch guard), []⟩
    else if (c.entries i).payload.isSome = false then ⟨c, .idle, []⟩
    else
      match c.writeInto env i (sectorOf lba) v batch with
      | (c, false) => ⟨c, .idle, []⟩
      | (c, true) => ⟨c, .idle, [.cached d lba v batch]⟩

def drainDevice (c : Cache α) (env : Env α) (d since : Nat) : Section α :=
  if c.dirtyEntriesForDevice d = 0 then ⟨c, .barrier d none since, []⟩
  else
    match c.index.dirtyHead d with
    | some i => c.startWriteback env i none Finset.univ none (.flushDevice d since)
    | none =>
      if d < maxDevices ∧ (c.index.devices d).busyDirty ≠ 0 then ⟨c, .loop (.flushDevice d since), []⟩
      else ⟨c, .idle, []⟩

def drainDeviceBatch (c : Cache α) (env : Env α) (d batch since : Nat) (draining : Bool) : Section α :=
  if draining then
    match c.findOldestDirtyForDeviceBatch d batch with
    | some i => c.startWriteback env i (some batch) Finset.univ none (.flushBatch d batch since true)
    | none =>
      if d < maxDevices ∧ (c.index.devices d).busyDirty ≠ 0 then ⟨c, .loop (.flushBatch d batch since true), []⟩
      else ⟨c, .barrier d (some batch) since, []⟩
  else if ¬ d < maxDevices then ⟨c, .idle, []⟩
  else if (c.index.devices d).busyDirty ≠ 0 then ⟨c, .loop (.flushBatch d batch since false), []⟩
  else if c.dirtySectorsForDeviceBatch d batch = 0 then ⟨c, .barrier d (some batch) since, []⟩
  else ⟨c, .loop (.flushBatch d batch since true), []⟩

/-- The drain of `flushAll`; the barriers after it touch nothing here. -/
def drainAll (c : Cache α) (env : Env α) : Section α :=
  if c.dirtyEntryCount = 0 then ⟨c, .idle, []⟩
  else
    match c.findOldestDirty with
    | (c, some i) => c.startWriteback env i none Finset.univ none .flushAll
    | (c, none) => if c.hasBusyDirty then ⟨c, .loop .flushAll, []⟩ else ⟨c, .idle, []⟩

def rangeMask (page first count : Nat) : Mask :=
  Finset.univ.filter (fun s => first ≤ page + s.val ∧ page + s.val - first < count)

/-- What the scan of a range stops at. -/
inductive Stop where
  | finished
  | busy
  | dirty (i : Nat) (mask : Mask)

def scanRange (d first count : Nat) : List Nat → Cache α → Cache α × Stop
  | [], c => (c, .finished)
  | i :: rest, c =>
    let e := c.entries i
    let mask := rangeMask e.page first count
    if e.valid = false ∨ e.device ≠ d ∨ mask = ∅ then scanRange d first count rest c
    else if e.ioBusy then (c, .busy)
    else if e.dirtyMask ∩ mask ≠ ∅ then (c, .dirty i mask)
    else
      let c := c.setValidMask i (e.validMask \ mask)
      scanRange d first count rest (if (c.entries i).validMask = ∅ then c.clearEntry i else c)

def flushRange (c : Cache α) (env : Env α) (d first count : Nat) : Section α :=
  match scanRange d first count (List.range maxEntries) c with
  | (c, .finished) => ⟨c, .rangeBarrier, []⟩
  | (c, .busy) => ⟨c, .loop (.flushRange d first count), []⟩
  | (c, .dirty i mask) => c.startWriteback env i none mask none (.flushRange d first count)

def reclaim (c : Cache α) (env : Env α) (target returned : Nat) (allowDirty : Bool) (drains : Option Nat) : Section α :=
  if target ≤ returned ∨ drains = some c.reclaimDirtyDrains then ⟨c, .idle, []⟩
  else
    let r := c.index.cleanVictim none
    match r.2 with
    | some slot => ⟨(c.setIndex r.1).clearEntry slot, .loop (.reclaim target (returned + 1) allowDirty none), []⟩
    | none =>
      if allowDirty = false then ⟨c.setIndex r.1, .idle, []⟩
      else (c.setIndex r.1).writebackOldestDirty env (.reclaim target returned allowDirty (some c.reclaimDirtyDrains))

def invalidateOne (c : Cache α) (env : Env α) (d lba : Nat) : Section α :=
  match c.findEntry d (pageLba lba) with
  | none => ⟨c, .idle, []⟩
  | some i =>
    if (c.entries i).ioBusy then ⟨c, .loop (.invalidateSector d lba), []⟩
    else if sectorOf lba ∈ (c.entries i).dirtyMask then
      c.startWriteback env i none Finset.univ none (.invalidateSector d lba)
    else
      let c := c.setValidMask i ((c.entries i).validMask \ {sectorOf lba})
      ⟨if (c.entries i).validMask = ∅ then c.clearEntry i else c, .idle, []⟩

def invalidateNext (c : Cache α) (env : Env α) (d : Nat) : Section α :=
  match (List.range maxEntries).find? (fun i => (c.entries i).valid && (c.entries i).device == d) with
  | none => ⟨c, .idle, []⟩
  | some i =>
    if (c.entries i).ioBusy then ⟨c, .loop (.invalidateDevice d), []⟩
    else if (c.entries i).dirtyMask ≠ ∅ then c.startWriteback env i none Finset.univ none (.invalidateDevice d)
    else ⟨c.clearEntry i, .loop (.invalidateDevice d), []⟩

/-- `selectBackgroundDirtyLocked`: at most one look at every device. -/
def selectBackgroundDirty (env : Env α) (overCapacity : Bool) :
    Nat → List Nat → Cache α → Cache α × Option (Nat × Nat)
  | 0, _, c => (c, none)
  | fuel + 1, visited, c =>
    let r := c.index.nextDirtyDevice false
    match r.2 with
    | none => (c.setIndex r.1, none)
    | some d =>
      let c := c.setIndex r.1
      if d ∈ visited then (c, none)
      else if env.now < c.backgroundFailureUntil d then selectBackgroundDirty env overCapacity fuel (d :: visited) c
      else
        match c.index.dirtyHead d with
        | none => selectBackgroundDirty env overCapacity fuel (d :: visited) c
        | some i =>
          if (c.index.devices d).pressureActive || overCapacity ||
              ageDue env.now (c.entries i).dirtySince maxDirtyAgeTicks then (c, some (i, d))
          else selectBackgroundDirty env overCapacity fuel (d :: visited) c

def backgroundWritebackOne (c : Cache α) (env : Env α) : Section α :=
  match selectBackgroundDirty env (decide (c.capacity env < c.index.entryCount)) maxDevices [] c with
  | (c, none) => ⟨c, .idle, []⟩
  | (c, some (i, d)) => c.startWriteback env i none Finset.univ none (.backgroundWrote d)

def trimCapacityOne (c : Cache α) (env : Env α) : Section α :=
  if c.index.entryCount ≤ c.capacity env then ⟨c, .idle, []⟩
  else
    let r := c.index.cleanVictim none
    match r.2 with
    | none => ⟨c.setIndex r.1, .idle, []⟩
    | some slot => ⟨(c.setIndex r.1).clearEntry slot, .idle, []⟩

def nextBatch (clock : Nat) : Nat :=
  if (clock + 1) % 2 ^ 64 = noWriteBatch then 1 else (clock + 1) % 2 ^ 64

/-- One section of a call that holds no pin. -/
def runLoop (c : Cache α) (env : Env α) : Loop α → Section α
  | .idle => ⟨c, .idle, []⟩
  | .readSector d lba guard => c.readOne env d lba guard
  | .readSectors d lba count done guard buffer unavailable => c.readPages env d lba count done guard buffer unavailable
  | .writeSector d lba v batch guard => c.writeOne env d lba v batch guard
  | .flushDevice d since => c.drainDevice env d since
  | .flushBatch d batch since draining => c.drainDeviceBatch env d batch since draining
  | .flushAll => c.drainAll env
  | .flushRangeStart d first count =>
    match env.backend d with
    | none => ⟨c, .idle, []⟩
    | some b =>
      if count = 0 ∨ b.sectorCount ≤ first ∨ b.sectorCount - first < count then ⟨c, .idle, []⟩
      else ⟨c, .loop (.flushRange d first count), []⟩
  | .flushRange d first count => c.flushRange env d first count
  | .reclaim target returned allowDirty drains => c.reclaim env target returned allowDirty drains
  | .invalidateSector d lba => c.invalidateOne env d lba
  | .invalidateDevice d => c.invalidateNext env d
  | .background => c.backgroundWritebackOne env
  | .backgroundWrote d => ⟨{ c with backgroundFailureUntil := Function.update c.backgroundFailureUntil d 0 }, .idle, []⟩
  | .trimCapacity => c.trimCapacityOne env
  | .beginWriteBatch => ⟨{ c with writeBatchClock := nextBatch c.writeBatchClock }, .idle, []⟩

end Cache

/-! ## Steps -/

/-- The dirty sectors of a page in maximal runs, in order. -/
def dirtyRuns (m : Mask) : List (List (Fin 8)) :=
  ((List.finRange 8).splitBy (fun a b => decide (a ∈ m) == decide (b ∈ m))).filter (fun run => run.all (· ∈ m))

/-- One `writeDirect` with the retry the backend leaves to the cache. -/
def writeRun (env : Env α) (d : Nat) (run : List (Fin 8)) : Bool :=
  let first := (run.head?.map Fin.val).getD 0
  let retries := match env.backend d with
    | some b => if b.ownsTransportRetry then false else true
    | none => false
  env.write first 0 || (retries && env.write first 1)

/-- The sectors written before the first run that fails. -/
def writtenMask (env : Env α) (d : Nat) (snapshot : Mask) : Mask :=
  (((dirtyRuns snapshot).takeWhile (writeRun env d)).flatten).toFinset

/-- The device after a transfer to the page: `f` says what lands in the sectors it names. -/
def putPage (disk : Nat → Nat → α) (d page : Nat) (f : Fin 8 → Option α) : Nat → Nat → α :=
  fun d' lba => if d' = d ∧ pageLba lba = page then (f (sectorOf lba)).getD (disk d' lba) else disk d' lba

/-- The device after the first `n` sectors of a direct write. -/
def putSectors (disk : Nat → Nat → α) (d lba : Nat) (data : List α) (n : Nat) : Nat → Nat → α :=
  fun d' l => if d' = d ∧ lba ≤ l ∧ l - lba < n then (data[l - lba]?).getD (disk d' l) else disk d' l

structure World (α : Type) where
  cache : Cache α
  disk : Nat → Nat → α
  tasks : Nat → Task α
  log : List (Event α)

/-- Every call of the page cache. -/
inductive Call (α : Type) where
  | readSector (d lba : Nat)
  | readSectors (d lba count : Nat)
  | writeSectorInBatch (d lba : Nat) (v : α) (batch : Nat)
  | writeSectorsDirect (d lba : Nat) (data : List α)
  | flushDevice (d : Nat)
  | flushDeviceBatch (d batch : Nat)
  | flushAll
  | flushInvalidateRange (d first count : Nat)
  | reclaimPayloadFrames (target : Nat) (allowDirty : Bool)
  | invalidateSector (d lba : Nat)
  | invalidateDevice (d : Nat)
  | backgroundWritebackOne
  | trimCapacityOne
  | beginWriteBatch

/-- How a call starts, `since` events into the history. -/
def Call.start (since : Nat) : Call α → Task α
  | .readSector d lba => .loop (.readSector d lba 0)
  | .readSectors d lba count =>
    if (lba + count) % 2 ^ 64 ≤ lba then .idle else .loop (.readSectors d lba count 0 0 none false)
  | .writeSectorInBatch d lba v batch => .loop (.writeSector d lba v batch 0)
  | .writeSectorsDirect d lba data => if data = [] then .idle else .pinPages d lba data 0 [] []
  | .flushDevice d => .loop (.flushDevice d since)
  | .flushDeviceBatch d batch =>
    if batch = noWriteBatch then .loop (.flushDevice d since) else .loop (.flushBatch d batch since false)
  | .flushAll => .loop .flushAll
  | .flushInvalidateRange d first count => .loop (.flushRangeStart d first count)
  | .reclaimPayloadFrames target allowDirty => .loop (.reclaim target 0 allowDirty none)
  | .invalidateSector d lba => .loop (.invalidateSector d lba)
  | .invalidateDevice d => .loop (.invalidateDevice d)
  | .backgroundWritebackOne => .loop .background
  | .trimCapacityOne => .loop .trimCapacity
  | .beginWriteBatch => .loop .beginWriteBatch

namespace World

def init (disk : Nat → Nat → α) (freeFrames : Nat) : World α :=
  ⟨Cache.init α freeFrames, disk, fun _ => .idle, []⟩

/-- What task `t` does next, with the device it leaves behind. -/
def advance (w : World α) (env : Env α) : Task α → Section α × (Nat → Nat → α)
  | .loop k => (w.cache.runLoop env k, w.disk)
  | .waitWriteback i batch selected before k => (w.cache.startWriteback env i batch selected before k, w.disk)
  | .writeback i d page snapshot before k =>
    let written := writtenMask env d snapshot
    let e := w.cache.entries i
    (⟨w.cache, .wroteBack i d page snapshot written (decide (written = snapshot)) before k,
        ((List.finRange 8).filter (· ∈ written)).filterMap (fun s => (e.payload.map (fun f => f s)).map (.stored d (page + s)))⟩,
      putPage w.disk d page (fun s =>
        if s ∈ written then e.payload.map (fun f => f s) else if s ∈ snapshot then some (env.torn s) else none))
  | .wroteBack i _ _ _ written ok before k => (w.cache.finishWriteback env i written ok before k, w.disk)
  | .fill i d page validBefore readable second k =>
    let missing := readable \ validBefore
    let ok := if validBefore = ∅ then env.read 0 else decide (∀ s ∈ missing, env.read s = true)
    (⟨w.cache.copyInto i missing (fun s => if ok then w.disk d (page + s) else env.torn s),
        .filled i d page validBefore readable second ok k, []⟩, w.disk)
  | .filled i _ _ validBefore readable second ok k =>
    (w.cache.finishFill env i validBefore readable second ok k, w.disk)
  | .fillRun d first sectorCount slots ownsRetry i k =>
    (⟨w.cache, .filledRun d first sectorCount slots (fun j => w.disk d (first + j))
        (env.read 0 || (!ownsRetry && env.read 1)) i k, []⟩, w.disk)
  | .filledRun d first sectorCount slots staging ok i k =>
    (w.cache.finishRun d first sectorCount slots staging ok i k, w.disk)
  | .pinPages d lba data offset owned reserved =>
    if data.length ≤ offset then (⟨w.cache, .direct d lba data owned reserved, []⟩, w.disk)
    else (w.cache.pinNext env d lba data offset owned reserved, w.disk)
  | .direct d lba data owned reserved =>
    let completed := min env.completed data.length
    (⟨w.cache, .wroteDirect d lba data completed owned reserved, []⟩, putSectors w.disk d lba data completed)
  | .wroteDirect d lba data completed owned reserved =>
    (⟨Cache.completePages d lba data.length completed owned reserved data.length 0 w.cache, .idle,
        (data.take completed).zipIdx.map (fun p => .direct d (lba + p.2) p.1)⟩, w.disk)
  | .barrier d batch since =>
    (⟨w.cache, .idle, if env.flush then [.flushed d batch since] else []⟩, w.disk)
  | .rangeBarrier => (⟨w.cache, .idle, []⟩, w.disk)

/-- One section or transfer of task `t`. -/
def step (w : World α) (t : Nat) (env : Env α) : World α :=
  let r := w.advance env (w.tasks t)
  ⟨r.1.cache, r.2, Function.update w.tasks t r.1.task, r.1.events ++ w.log⟩

/-- An idle task calls into the cache. -/
def call (w : World α) (t : Nat) (f : Call α) : World α :=
  match w.tasks t with
  | .loop .idle => { w with tasks := Function.update w.tasks t (f.start w.log.length) }
  | _ => w

inductive Action (α : Type) where
  | call (t : Nat) (f : Call α)
  | step (t : Nat) (env : Env α)

def apply (w : World α) : Action α → World α
  | .call t f => w.call t f
  | .step t env => w.step t env

/-- The state after any number of calls and steps, in any order. -/
def run (w : World α) (actions : List (Action α)) : World α := actions.foldl apply w

end World
end PageCache
end R4
