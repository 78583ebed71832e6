import R4Recovery.Text
import R4Recovery.Ring
import Mathlib.Logic.Function.Basic
/-!
# RxHandoff — the receive queue between the network card and the protocols

A fixed table of slots: the free ones are on a stack, the queued ones in a ring, and a claimed one stays with its claim
until `release`.
-/
namespace R4
namespace RxHandoff

def capacity : Nat := 64

def maxFrameBytes : Nat := 1536

inductive SlotState where
  | free
  | queued
  | processing
  deriving DecidableEq, Repr

structure Metadata where
  l4ChecksumValid : Bool := false
  softwareFallback : Bool := false
  deriving DecidableEq, Repr

structure Slot where
  state : SlotState := .free
  generation : Nat := 0
  adapterIndex : Nat := 0
  len : Nat := 0
  enqueuedNs : Nat := 0
  metadata : Metadata := {}
  data : Bytes := List.replicate maxFrameBytes 0

inductive EnqueueResult where
  | accepted
  | invalidFrame
  | busy
  deriving DecidableEq, Repr

structure Claim where
  slot : Nat
  generation : Nat
  adapterIndex : Nat
  len : Nat
  enqueuedNs : Nat
  metadata : Metadata
  deriving DecidableEq, Repr

structure Queue where
  slots : Nat → Slot := fun _ => {}
  ready : Nat → Nat := fun _ => 0
  readyHead : Nat := 0
  readyTail : Nat := 0
  readyCount : Nat := 0
  freeSlots : Nat → Nat := fun _ => 0
  freeCount : Nat := 0
  accepted : Nat := 0
  claimed : Nat := 0
  released : Nat := 0
  cancelled : Nat := 0
  busy : Nat := 0
  highWater : Nat := 0

/-- `+%` on a 64-bit counter. -/
def wrapAdd (a b : Nat) : Nat := (a + b) % 2 ^ 64

/-- The generation behind `g`: 32 bits, and never zero. -/
def nextGeneration (g : Nat) : Nat := if (g + 1) % 2 ^ 32 = 0 then 1 else (g + 1) % 2 ^ 32

/-- A slot whose content is forgotten; its generation and its bytes stay. -/
def Slot.clear (slot : Slot) : Slot :=
  { slot with state := .free, adapterIndex := 0, len := 0, enqueuedNs := 0, metadata := {} }

def Slot.process (slot : Slot) : Slot := { slot with state := .processing }

def Slot.token (slot : Slot) (slotIndex : Nat) : Claim :=
  { slot := slotIndex
    generation := slot.generation
    adapterIndex := slot.adapterIndex
    len := slot.len
    enqueuedNs := slot.enqueuedNs
    metadata := slot.metadata }

namespace Queue

def resetStorage (self : Queue) : Queue :=
  { self with
    readyHead := 0
    readyTail := 0
    readyCount := 0
    freeCount := capacity
    slots := fun i => (self.slots i).clear
    freeSlots := fun i => i }

def reset (_ : Queue) : Queue := resetStorage {}

def occupiedCount (self : Queue) : Nat := capacity - self.freeCount

/-- The frame goes into the slot on top of the free stack, and the slot into the ring. -/
def admitFrame (self : Queue) (adapterIndex : Nat) (frameBytes : Bytes) (enqueuedNs : Nat) (metadata : Metadata) : Queue :=
  let freeCount := self.freeCount - 1
  let slotIndex := self.freeSlots freeCount
  let slot := self.slots slotIndex
  let slot' : Slot :=
    { state := .queued
      generation := nextGeneration slot.generation
      adapterIndex
      len := frameBytes.length
      enqueuedNs
      metadata
      data := frameBytes ++ slot.data.drop frameBytes.length }
  let occupied := capacity - freeCount
  { self with
    slots := Function.update self.slots slotIndex slot'
    ready := Function.update self.ready self.readyTail slotIndex
    readyTail := (self.readyTail + 1) % capacity
    readyCount := self.readyCount + 1
    freeCount
    accepted := wrapAdd self.accepted 1
    highWater := if self.highWater < occupied then occupied else self.highWater }

def enqueueWithMetadata (self : Queue) (adapterIndex : Nat) (frameBytes : Bytes) (enqueuedNs : Nat) (metadata : Metadata) :
    EnqueueResult × Queue :=
  if frameBytes.length = 0 ∨ maxFrameBytes < frameBytes.length then (.invalidFrame, self)
  else if self.freeCount = 0 then (.busy, { self with busy := wrapAdd self.busy 1 })
  else (.accepted, self.admitFrame adapterIndex frameBytes enqueuedNs metadata)

def claim (self : Queue) : Option Claim × Queue :=
  if self.readyCount = 0 then (none, self)
  else
    let slotIndex := self.ready self.readyHead
    let popped : Queue :=
      { self with readyHead := (self.readyHead + 1) % capacity, readyCount := self.readyCount - 1 }
    let slot := self.slots slotIndex
    if slot.state ≠ .queued then (none, popped)
    else
      (some (slot.token slotIndex),
        { popped with
          slots := Function.update self.slots slotIndex slot.process
          claimed := wrapAdd self.claimed 1 })

def frame (self : Queue) (claimToken : Claim) : Option Bytes :=
  if capacity ≤ claimToken.slot then none
  else
    let slot := self.slots claimToken.slot
    if slot.state ≠ .processing ∨ slot.generation ≠ claimToken.generation ∨ slot.len ≠ claimToken.len then none
    else some (slot.data.take slot.len)

def release (self : Queue) (claimToken : Claim) : Bool × Queue :=
  if capacity ≤ claimToken.slot then (false, self)
  else
    let slot := self.slots claimToken.slot
    if slot.state ≠ .processing ∨ slot.generation ≠ claimToken.generation then (false, self)
    else
      (true,
        { self with
          slots := Function.update self.slots claimToken.slot slot.clear
          freeSlots := Function.update self.freeSlots self.freeCount claimToken.slot
          freeCount := self.freeCount + 1
          released := wrapAdd self.released 1 })

def cancelAll (self : Queue) : Nat × Queue :=
  let cancelledNow := self.occupiedCount
  (cancelledNow, { self with cancelled := wrapAdd self.cancelled cancelledNow }.resetStorage)

/-- The slots on the free stack, the bottom first. -/
def freeStack (self : Queue) : List Nat := (List.range self.freeCount).map self.freeSlots

def readyRing (self : Queue) : Ring Nat := { cells := self.ready, head := self.readyHead, len := self.readyCount }

/-- The queued slots, the oldest frame first. -/
def readySlots (self : Queue) : List Nat := self.readyRing.contents capacity

end Queue

/-! ## Calls -/

inductive Call where
  | enqueueWithMetadata (adapterIndex : Nat) (frameBytes : Bytes) (enqueuedNs : Nat) (metadata : Metadata)
  | claim
  | frame (claimToken : Claim)
  | release (claimToken : Claim)
  | cancelAll

inductive Answer where
  | enqueued (result : EnqueueResult)
  | claimed (claim : Option Claim)
  | framed (bytes : Option Bytes)
  | released (done : Bool)
  | cancelled (count : Nat)
  deriving DecidableEq

def call (self : Queue) : Call → Answer × Queue
  | .enqueueWithMetadata adapterIndex frameBytes enqueuedNs metadata =>
    let (result, self) := self.enqueueWithMetadata adapterIndex frameBytes enqueuedNs metadata
    (.enqueued result, self)
  | .claim =>
    let (claim, self) := self.claim
    (.claimed claim, self)
  | .frame claimToken => (.framed (self.frame claimToken), self)
  | .release claimToken =>
    let (done, self) := self.release claimToken
    (.released done, self)
  | .cancelAll =>
    let (count, self) := self.cancelAll
    (.cancelled count, self)

/-- The slot that a call fills with a frame. -/
def landing (self : Queue) (c : Call) : Option Nat :=
  if (call self c).1 = .enqueued .accepted then some (self.freeSlots (self.freeCount - 1)) else none

/-- How many frames the calls put into a slot. -/
def accepts : Queue → List Call → Nat → Nat
  | _, [], _ => 0
  | self, c :: calls, slot => (if landing self c = some slot then 1 else 0) + accepts (call self c).2 calls slot

end RxHandoff
end R4
