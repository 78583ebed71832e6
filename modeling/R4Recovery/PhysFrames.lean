import R4Recovery.BitScan
import Mathlib.Data.Finset.Card
import Mathlib.Order.Interval.Finset.Nat
/-!
# PhysFrames — the allocator of physical frames

`phys.zig`: one bit for each frame, set while the frame is used, a count of the clear ones and a hint where the next search
starts.  Addresses and counts are naturals: with counts below `2 ^ 52` no sum of the source leaves its 64 bits.
-/
namespace R4
namespace Phys

open Bitmap BitScan

def frameSize : Nat := 4096

/-- `value & ~(alignment - 1)`, for an alignment that is a power of two. -/
def alignDown (value alignment : Nat) : Nat := value - value % alignment

def checkedAdd (a b : Nat) : Option Nat := if a + b < 2 ^ 64 then some (a + b) else none

def alignUpChecked (value alignment : Nat) : Option Nat := (checkedAdd value (alignment - 1)).map (alignDown · alignment)

/-! ## The memory map -/

inductive MemoryKind where
  | usable | reserved | acpiReclaimable | acpiNvs | badMemory | bootloaderReclaimable | kernelAndModules | framebuffer
  | unknown
  deriving DecidableEq, Repr

structure MemoryMapEntry where
  usableBase : Nat := 0
  usableLen : Nat := 0
  kind : MemoryKind := .unknown
  valid : Bool := false
  deriving DecidableEq, Repr

/-- The base and the length of the largest usable region; the first of them on a tie. -/
def summarize (entries : List MemoryMapEntry) : Nat × Nat :=
  entries.foldl (fun largest e => if e.valid ∧ e.kind = .usable ∧ largest.2 < e.usableLen then (e.usableBase, e.usableLen)
    else largest) (0, 0)

def highestUsableAddress (entries : List MemoryMapEntry) : Nat :=
  entries.foldl (fun high e => if e.kind ≠ .usable ∨ e.usableLen = 0 then high else max high (e.usableBase + e.usableLen)) 0

/-! ## The state -/

inductive Fault where
  | badFreeAlign | badFreeRange | doubleFree
  deriving DecidableEq, Repr

/-- The counters wrap; `reported` is the one fault that is written to the log. -/
structure Counters where
  doubleFreeErrors : UInt64 := 0
  badFreeErrors : UInt64 := 0
  reported : Option (Fault × Nat) := none
  extentAllocations : UInt64 := 0
  extentAllocatedFrames : UInt64 := 0
  extentMaxFrames : Nat := 0
  extentFrees : UInt64 := 0
  extentFreedFrames : UInt64 := 0
  deriving DecidableEq, Repr

structure FrameExtent where
  base : Nat
  count : Nat
  deriving DecidableEq, Repr

def Counters.allocated (c : Counters) (count : Nat) : Counters :=
  { c with
    extentAllocations := c.extentAllocations + 1
    extentAllocatedFrames := c.extentAllocatedFrames + count.toUInt64
    extentMaxFrames := max c.extentMaxFrames count }

def Counters.freed (c : Counters) (count : Nat) : Counters :=
  { c with extentFrees := c.extentFrees + 1, extentFreedFrames := c.extentFreedFrames + count.toUInt64 }

/-- The bitmap holds the bytes of all the words that are read: behind the last byte of the bitmap these are whatever memory
holds there. -/
structure State where
  bitmap : Bytes
  bitmapAt : Nat
  bitmapBytes : Nat
  totalFrames : Nat
  freeFrames : Nat
  nextHint : Nat
  hhdmOffset : Nat
  initialized : Bool
  counters : Counters
  deriving DecidableEq, Repr

def wordsOf (bitmapBytes : Nat) : Nat := (bitmapBytes + 7) / 8

namespace State

def wordCount (s : State) : Nat := wordsOf s.bitmapBytes

/-- Whether the bitmap can be read by words. -/
def bitmapWords (s : State) : Bool := s.bitmapAt % 8 == 0

def isUsed (s : State) (frame : Nat) : Bool := bitAt s.bitmap frame

def setUsed (s : State) (frame : Nat) (used : Bool) : State :=
  { s with bitmap := s.bitmap.set (frame / 8) (withBit (s.bitmap.getD (frame / 8) 0) (frame % 8) used) }

def reportPmmFault (s : State) (kind : Fault) (addr : Nat) : State :=
  { s with counters := { s.counters with reported := s.counters.reported.or (some (kind, addr)) } }

/-- A frame that is not marked so already is marked and counted. -/
def markFrame (s : State) (frame : Nat) (used : Bool) : State :=
  if s.isUsed frame ≠ used then
    { s.setUsed frame used with freeFrames := if used then s.freeFrames - 1 else s.freeFrames + 1 }
  else s

def markFrames (used : Bool) : Nat → Nat → State → State
  | 0, _, s => s
  | left + 1, frame, s => if s.totalFrames ≤ frame then s else markFrames used left (frame + 1) (s.markFrame frame used)

/-- The frames that a used range touches, or that a free range covers. -/
def markRange (s : State) (base len : Nat) (used : Bool) : State :=
  if len = 0 then s
  else match checkedAdd base len with
    | none => s
    | some rangeEnd =>
      match (if used then some (alignDown base frameSize) else alignUpChecked base frameSize),
        (if used then alignUpChecked rangeEnd frameSize else some (alignDown rangeEnd frameSize)) with
      | some startAddr, some endAddr =>
        markFrames used (endAddr / frameSize - startAddr / frameSize) (startAddr / frameSize) s
      | _, _ => s

end State

/-- Every frame is used; behind the bitmap its last word holds what memory held. -/
def blank (ram : Nat → UInt8) (bitmapPhys bitmapBytes totalFrames hhdmOffset : Nat) : State where
  bitmap := List.replicate bitmapBytes 0xff ++
    (List.range (8 * wordsOf bitmapBytes - bitmapBytes)).map (fun i => ram (bitmapPhys + bitmapBytes + i))
  bitmapAt := (checkedAdd bitmapPhys hhdmOffset).getD 0
  bitmapBytes := bitmapBytes
  totalFrames := totalFrames
  freeFrames := 0
  nextHint := 0
  hhdmOffset := hhdmOffset
  initialized := false
  counters := {}

def openUsable (entries : List MemoryMapEntry) (s : State) : State :=
  entries.foldl (fun s e => if e.kind = .usable then s.markRange e.usableBase e.usableLen false else s) s

/-- `ram` is what memory holds before, `claim` whether the block registry takes the range of the bitmap. -/
def init (ram : Nat → UInt8) (entries : List MemoryMapEntry) (hhdm : Option Nat) (claim : Nat → Nat → Bool) :
    Option State := do
  guard (entries ≠ [])
  let hhdmOffset ← hhdm
  let summary := summarize entries
  guard (summary.2 ≠ 0)
  let top ← alignUpChecked (highestUsableAddress entries) frameSize
  let bits ← alignUpChecked (top / frameSize) 8
  let bitmapEnd ← checkedAdd summary.1 (bits / 8)
  let largestEnd ← checkedAdd summary.1 summary.2
  guard (bitmapEnd ≤ largestEnd)
  let opened := openUsable entries (blank ram summary.1 (bits / 8) (top / frameSize) hhdmOffset)
  let marked := (opened.markRange 0 frameSize true).markRange summary.1 (bits / 8) true
  let claimEnd ← alignUpChecked bitmapEnd frameSize
  guard (claim (alignDown summary.1 frameSize) (claimEnd - alignDown summary.1 frameSize))
  pure { marked with initialized := true }

namespace State

/-! ## Single frames -/

/-- The scan by words, with the words that are left to visit: the word and the bit of a clear frame. -/
def scanWords (s : State) : Nat → Nat → Nat → Option (Nat × Nat)
  | 0, _, _ => none
  | left + 1, wi, startBit =>
    let (wi, startBit) := if s.wordCount ≤ wi then (0, 0) else (wi, startBit)
    match firstClear (wordAt s.bitmap wi) startBit with
    | none => scanWords s left (wi + 1) 0
    | some bit =>
      -- frame 0 is reserved: it is masked, and the same word is visited again
      if wi * 64 + bit = 0 then scanWords s left wi 1
      else if wi * 64 + bit < s.totalFrames then some (wi, bit)
      else scanWords s left (wi + 1) 0

def scanLinear (s : State) : Nat → Nat → Option Nat
  | 0, _ => none
  | left + 1, frame =>
    let frame := if s.totalFrames ≤ frame then 0 else frame
    if frame = 0 then scanLinear s left 1
    else if s.isUsed frame then scanLinear s left (frame + 1)
    else some frame

def allocFrameLinear (s : State) : Option Nat × State :=
  match s.scanLinear s.totalFrames s.nextHint with
  | none => (none, s)
  | some frame =>
    (some (frame * frameSize), { s.setUsed frame true with freeFrames := s.freeFrames - 1, nextHint := frame + 1 })

def allocFrame (s : State) : Option Nat × State :=
  if !s.initialized then (none, s)
  else if !s.bitmapWords then s.allocFrameLinear
  else match s.scanWords (s.wordCount + 1) (s.nextHint / 64) (s.nextHint % 64) with
    | none => (none, s)
    | some (wi, bit) =>
      (some ((wi * 64 + bit) * frameSize),
        { s with bitmap := setWord s.bitmap wi (wordAt s.bitmap wi ||| 1#64 <<< bit), freeFrames := s.freeFrames - 1,
                 nextHint := wi * 64 + bit + 1 })

def freeFrame (s : State) (addr : Nat) : State :=
  if !s.initialized then s
  else if addr % frameSize ≠ 0 then
    { s with counters.badFreeErrors := s.counters.badFreeErrors + 1 }.reportPmmFault .badFreeAlign addr
  else if s.totalFrames ≤ addr / frameSize then
    { s with counters.badFreeErrors := s.counters.badFreeErrors + 1 }.reportPmmFault .badFreeRange addr
  else if !s.isUsed (addr / frameSize) then
    { s with counters.doubleFreeErrors := s.counters.doubleFreeErrors + 1 }.reportPmmFault .doubleFree addr
  else
    { s.setUsed (addr / frameSize) false with
      freeFrames := s.freeFrames + 1
      nextHint := if addr / frameSize < s.nextHint then addr / frameSize else s.nextHint }

/-! ## Extents -/

/-- Frames right behind the first are taken while they are clear, at most `left` more. -/
def extend (start : Nat) : Nat → Nat → State → Nat × State
  | 0, count, s => (count, s)
  | left + 1, count, s =>
    if start + count < s.totalFrames ∧ s.isUsed (start + count) = false then
      extend start left (count + 1) { s.setUsed (start + count) true with freeFrames := s.freeFrames - 1 }
    else (count, s)

def allocFrameExtent (s : State) (maxCount : Nat) : Option FrameExtent × State :=
  if maxCount = 0 then (none, s)
  else match s.allocFrame with
    | (none, s) => (none, s)
    | (some base, s) =>
      let (count, s) := extend (base / frameSize) (maxCount - 1) 1 s
      (some { base, count },
        { s with nextHint := base / frameSize + count, counters := s.counters.allocated count })

/-! ## Contiguous frames -/

/-- The clear frames from `start` on, at most `count`. -/
def clearFrom (s : State) (start : Nat) : Nat → Nat → Nat
  | 0, offset => offset
  | left + 1, offset => if s.isUsed (start + offset) then offset else clearFrom s start left (offset + 1)

/-- The search for a run of `count` clear frames from `start` to `last`, with at most `left` steps. -/
def searchRun (s : State) (count last : Nat) : Nat → Nat → Option Nat
  | 0, _ => none
  | left + 1, start =>
    if last < start then none
    -- a full word is stepped over at once
    else if s.bitmapWords && s.isUsed start && start % 64 == 0 && wordAt s.bitmap (start / 64) == BitVec.allOnes 64 then
      searchRun s count last left (start + 63 + 1)
    else
      let offset := s.clearFrom start count 0
      if offset = count then some start else searchRun s count last left (start + offset + 1)

def allocContiguousFramesBelow (s : State) (count maxPhysAddr : Nat) : Option Nat × State :=
  if !s.initialized || count == 0 then (none, s)
  else
    let addressable := if maxPhysAddr = 2 ^ 64 - 1 then s.totalFrames else min s.totalFrames ((maxPhysAddr + 1) / frameSize)
    if addressable < count then (none, s)
    else match s.searchRun count (addressable - count) (addressable - count) 1 with
      | none => (none, s)
      | some start =>
        (some (start * frameSize),
          { s with bitmap := setBits 0 true start count s.bitmap, freeFrames := s.freeFrames - count, nextHint :=
          start + count })

def allocContiguousFrames (s : State) (count : Nat) : Option Nat × State := s.allocContiguousFramesBelow count (2 ^ 64 - 1)

def releaseFrames (start : Nat) : Nat → Nat → State → State
  | 0, _, s => s
  | left + 1, offset, s =>
    releaseFrames start left (offset + 1)
      (if s.isUsed (start + offset) then { s.setUsed (start + offset) false with freeFrames := s.freeFrames + 1 } else s)

def freeContiguousFrames (s : State) (addr count : Nat) : State :=
  if !s.initialized || addr % frameSize != 0 || count == 0 then s
  else
    let start := addr / frameSize
    if s.totalFrames < start + count then s
    else
      let s := releaseFrames start count 0 s
      { s with nextHint := if start < s.nextHint then start else s.nextHint }

def freeFrameExtent (s : State) (extent : FrameExtent) : State :=
  if extent.count = 0 then s
  else
    let s := s.freeContiguousFrames extent.base extent.count
    { s with counters := s.counters.freed extent.count }

end State
end Phys
end R4
