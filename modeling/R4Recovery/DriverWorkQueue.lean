import R4Recovery.LinkedQueue
import R4Recovery.Slots
/-!
# DriverWorkQueue — the slots of deferred driver work

Sixteen slots, a FIFO of queued slots for every class in one pair of link arrays, and a list of the finished ones in
another.  The counters are integers, so that one that went below zero would show.
-/
namespace R4
namespace DriverWork

open LinkedQueue (Node Ends)

def capacity : Nat := 16
def irqBurstLimit : Nat := 4
def deadlineQueueCapacity : Int := 4
def deadlineReservedCapacity : Int := 2

abbrev Slot : Type := Fin capacity

inductive State where
  | free | queued | running | completed | cancelled
  deriving DecidableEq, Repr

inductive SourceClass where
  | task | irq | deadline
  deriving DecidableEq, Repr

structure Selection where
  slot : Slot
  source : SourceClass
  irqPreferred : Bool := false
  taskFairness : Bool := false
  deriving DecidableEq, Repr

structure Bookkeeping where
  states : Slot → State := fun _ => .free
  classes : Slot → SourceClass := fun _ => .task
  /-- `queue_prev` and `queue_next`. -/
  queue : Slot → Node Slot Unit := fun _ => ⟨none, none, ()⟩
  /-- `final_prev` and `final_next`. -/
  finals : Slot → Node Slot Unit := fun _ => ⟨none, none, ()⟩
  /-- The head and the tail of every class. -/
  lanes : SourceClass → Ends Slot := fun _ => ⟨none, none⟩
  finalEnds : Ends Slot := ⟨none, none⟩
  freeMask : Slot → Bool := fun _ => true
  freeCount : Int := 16
  queuedCount : Int := 0
  runningCount : Int := 0
  deadlineRunningCount : Int := 0
  completedCount : Int := 0
  cancelledCount : Int := 0
  /-- `irq_queued_count`, `task_queued_count` and `deadline_queued_count`. -/
  laneCount : SourceClass → Int := fun _ => 0
  queueHighWater : Int := 0
  usedHighWater : Int := 0
  retainedHighWater : Int := 0
  deadlineQueueHighWater : Int := 0
  currentIrqBurst : Nat := 0

namespace Bookkeeping

def usedCount (self : Bookkeeping) : Int := 16 - self.freeCount

def retainedCount (self : Bookkeeping) : Int := self.completedCount + self.cancelledCount

def noteHighWater (self : Bookkeeping) : Bookkeeping :=
  { self with
    queueHighWater := max self.queuedCount self.queueHighWater
    usedHighWater := max self.usedCount self.usedHighWater
    retainedHighWater := max self.retainedCount self.retainedHighWater
    deadlineQueueHighWater := max (self.laneCount .deadline) self.deadlineQueueHighWater }

def appendQueue (self : Bookkeeping) (slot : Slot) (source : SourceClass) : Bookkeeping :=
  let (queue, ends) := LinkedQueue.linkTail self.queue (self.lanes source) slot
  { self with queue, lanes := Function.update self.lanes source ends }

def removeQueue (self : Bookkeeping) (slot : Slot) : Bookkeeping :=
  let source := self.classes slot
  let (queue, ends) := LinkedQueue.unlink self.queue (self.lanes source) slot
  { self with queue, lanes := Function.update self.lanes source ends }

def appendFinal (self : Bookkeeping) (slot : Slot) : Bookkeeping :=
  let (finals, finalEnds) := LinkedQueue.linkTail self.finals self.finalEnds slot
  { self with finals, finalEnds }

def removeFinal (self : Bookkeeping) (slot : Slot) : Bookkeeping :=
  let (finals, finalEnds) := LinkedQueue.unlink self.finals self.finalEnds slot
  { self with finals, finalEnds }

def setState (self : Bookkeeping) (slot : Slot) (state : State) : Bookkeeping :=
  { self with states := Function.update self.states slot state }

/-- `+= n` on the counter of a class. -/
def addLane (self : Bookkeeping) (source : SourceClass) (n : Int) : Bookkeeping :=
  { self with laneCount := Function.update self.laneCount source (self.laneCount source + n) }

/-- The slot leaves the free mask for the queue of its class. -/
def admitWork (self : Bookkeeping) (slot : Slot) (source : SourceClass) : Bookkeeping :=
  let self := { self with
    freeMask := Function.update self.freeMask slot false
    freeCount := self.freeCount - 1
    classes := Function.update self.classes slot source
    queuedCount := self.queuedCount + 1 }
  (((self.setState slot .queued).addLane source 1).appendQueue slot source).noteHighWater

/-- Takes the lowest free slot; two of them are kept for deadline work. -/
def reserveAndEnqueue (self : Bookkeeping) (source : SourceClass) : Option Slot × Bookkeeping :=
  match Slots.first self.freeMask with
  | none => (none, self)
  | some slot =>
    if source = .deadline ∧ deadlineQueueCapacity ≤ self.laneCount .deadline then (none, self)
    else if source ≠ .deadline ∧ self.freeCount ≤ deadlineReservedCapacity then (none, self)
    else (some slot, self.admitWork slot source)

def startSelection (self : Bookkeeping) (selection : Selection) : Bookkeeping :=
  let self := (self.removeQueue selection.slot).setState selection.slot .running
  let self := { self with
    queuedCount := self.queuedCount - 1
    runningCount := self.runningCount + 1
    deadlineRunningCount := self.deadlineRunningCount + (if selection.source = SourceClass.deadline then 1 else 0) }
  self.addLane selection.source (-1)

def takeNextNormal (self : Bookkeeping) : Option Selection × Bookkeeping :=
  let irqHead := (self.lanes .irq).head
  let taskHead := (self.lanes .task).head
  let irq := irqHead.isSome && (taskHead.isNone || decide (self.currentIrqBurst < irqBurstLimit))
  match if irq then irqHead else taskHead with
  | none => (none, self)
  | some slot =>
    let selection : Selection :=
      if irq then { slot, source := .irq, irqPreferred := taskHead.isSome }
      else { slot, source := .task, taskFairness := irqHead.isSome }
    let currentIrqBurst := if irq then min (self.currentIrqBurst + 1) 4294967295 else 0
    (some selection, { self with currentIrqBurst }.startSelection selection)

/-- The loop of `takeNextDeadline`; every turn goes on to the next slot of the list. -/
def earliest (deadline : Slot → Nat) (next : Slot → Option Slot) : Nat → Option Slot → Slot → Slot
  | 0, _, best => best
  | _, none, best => best
  | fuel + 1, some cursor, best =>
    earliest deadline next fuel (next cursor) (if deadline cursor < deadline best then cursor else best)

def takeNextDeadline (self : Bookkeeping) (deadlines : List Nat) : Option Selection × Bookkeeping :=
  match (self.lanes .deadline).head with
  | none => (none, self)
  | some head =>
    if deadlines.length < capacity then (none, self)
    else
      let next := fun i => (self.queue i).next
      let best := earliest (fun i => deadlines.getD i 0) next capacity (next head) head
      let selection : Selection := { slot := best, source := .deadline }
      (some selection, self.startSelection selection)

def cancelAt (self : Bookkeeping) (slot : Slot) : Bookkeeping :=
  let source := self.classes slot
  let self := (self.removeQueue slot).setState slot .cancelled
  let self := { self with queuedCount := self.queuedCount - 1, cancelledCount := self.cancelledCount + 1 }
  ((self.addLane source (-1)).appendFinal slot).noteHighWater

def completeAt (self : Bookkeeping) (slot : Slot) : Bookkeeping :=
  let source := self.classes slot
  let self := self.setState slot .completed
  let self := { self with
    runningCount := self.runningCount - 1
    deadlineRunningCount :=
      self.deadlineRunningCount - (if source = SourceClass.deadline ∧ self.deadlineRunningCount ≠ 0 then 1 else 0)
    completedCount := self.completedCount + 1 }
  (self.appendFinal slot).noteHighWater

/-- The slot leaves the final list for the free mask; its state was `completed` or `cancelled`. -/
def releaseAt (self : Bookkeeping) (slot : Slot) : Bookkeeping :=
  let state := self.states slot
  let self := { self with
    completedCount := self.completedCount - (if state = State.completed then 1 else 0)
    cancelledCount := self.cancelledCount - (if state = State.cancelled then 1 else 0) }
  let self := (self.removeFinal slot).setState slot .free
  { self with
    classes := Function.update self.classes slot .task
    freeMask := Function.update self.freeMask slot true
    freeCount := self.freeCount + 1 }

/-- Runs `f` on the slot of an index when it is in range and its state is one of `states`. -/
def onSlot (self : Bookkeeping) (slot : Nat) (states : List State) (f : Slot → Bookkeeping) : Bool × Bookkeeping :=
  if h : slot < capacity then
    if self.states ⟨slot, h⟩ ∈ states then (true, f ⟨slot, h⟩) else (false, self)
  else (false, self)

def cancelQueued (self : Bookkeeping) (slot : Nat) : Bool × Bookkeeping := self.onSlot slot [.queued] self.cancelAt

def completeRunning (self : Bookkeeping) (slot : Nat) : Bool × Bookkeeping := self.onSlot slot [.running] self.completeAt

def releaseFinal (self : Bookkeeping) (slot : Nat) : Bool × Bookkeeping :=
  self.onSlot slot [.completed, .cancelled] self.releaseAt

end Bookkeeping

/-! ## Calls -/

inductive Call where
  | reserveAndEnqueue (source : SourceClass)
  | takeNextNormal
  | takeNextDeadline (deadlines : List Nat)
  | cancelQueued (slot : Nat)
  | completeRunning (slot : Nat)
  | releaseFinal (slot : Nat)

inductive Answer where
  | reserved (slot : Option Slot)
  | selected (selection : Option Selection)
  | done (ok : Bool)
  deriving DecidableEq

def call (self : Bookkeeping) : Call → Answer × Bookkeeping
  | .reserveAndEnqueue source =>
    let (slot, self) := self.reserveAndEnqueue source
    (.reserved slot, self)
  | .takeNextNormal =>
    let (selection, self) := self.takeNextNormal
    (.selected selection, self)
  | .takeNextDeadline deadlines =>
    let (selection, self) := self.takeNextDeadline deadlines
    (.selected selection, self)
  | .cancelQueued slot =>
    let (ok, self) := self.cancelQueued slot
    (.done ok, self)
  | .completeRunning slot =>
    let (ok, self) := self.completeRunning slot
    (.done ok, self)
  | .releaseFinal slot =>
    let (ok, self) := self.releaseFinal slot
    (.done ok, self)

end DriverWork
end R4
