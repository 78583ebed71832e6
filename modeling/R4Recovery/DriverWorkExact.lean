import R4Recovery.DriverWorkQueue
import Mathlib.Data.List.Perm.Basic
import Mathlib.Data.List.FinRange
import Mathlib.Data.Fintype.Card
import Mathlib.Tactic.Ring
/-!
# DriverWorkExact — the bookkeeping is a set of queues

Every slot is on exactly one list: free, queued in its class, running or finished.  The link arrays, the free mask and the
counters are views of these lists, and every call moves one slot from one list to another.
-/
namespace R4
namespace DriverWork

open LinkedQueue (Queue)

/-! ## Lists of slots and their numbers -/

/-- The list holds, once each, the slots whose state and class satisfy `p`. -/
structure Members (b : Bookkeeping) (p : State → SourceClass → Bool) (l : List Slot) : Prop where
  nodup : l.Nodup
  mem : ∀ i, i ∈ l ↔ p (b.states i) (b.classes i) = true

def tally (b : Bookkeeping) (p : State → SourceClass → Bool) : Int :=
  ((List.finRange capacity).countP fun i => p (b.states i) (b.classes i) : Nat)

/-- Only the state and the class of `slot` may have changed. -/
def Elsewhere (b b' : Bookkeeping) (slot : Slot) : Prop :=
  ∀ i, i ≠ slot → b'.states i = b.states i ∧ b'.classes i = b.classes i

variable {b b' : Bookkeeping} {p : State → SourceClass → Bool} {l : List Slot} {slot : Slot}

namespace Members

theorem length (h : Members b p l) : (l.length : Int) = tally b p := by
  unfold tally
  rw [List.countP_eq_length_filter]
  refine congrArg Nat.cast (List.Perm.length_eq ((List.perm_ext_iff_of_nodup h.nodup
    ((List.nodup_finRange _).filter _)).2 (fun i => ?_)))
  rw [h.mem, List.mem_filter]
  exact ⟨fun hi => ⟨List.mem_finRange i, hi⟩, fun hi => hi.2⟩

theorem keep (h : Members b p l) (he : Elsewhere b b' slot) (hold : p (b.states slot) (b.classes slot) = false)
    (hnew : p (b'.states slot) (b'.classes slot) = false) : Members b' p l := by
  refine ⟨h.nodup, fun i => ?_⟩
  by_cases hi : i = slot
  · subst hi
    rw [h.mem, hold, hnew]
  · rw [h.mem, (he i hi).1, (he i hi).2]

theorem erase (h : Members b p l) (he : Elsewhere b b' slot) (hnew : p (b'.states slot) (b'.classes slot) = false) :
    Members b' p (l.erase slot) := by
  refine ⟨h.nodup.erase slot, fun i => ?_⟩
  rw [h.nodup.mem_erase_iff, h.mem]
  by_cases hi : i = slot
  · subst hi
    rw [hnew]
    exact ⟨fun hc => absurd rfl hc.1, fun hc => absurd hc Bool.false_ne_true⟩
  · rw [(he i hi).1, (he i hi).2]
    exact ⟨fun hc => hc.2, fun hc => ⟨hi, hc⟩⟩

theorem append (h : Members b p l) (he : Elsewhere b b' slot) (hold : p (b.states slot) (b.classes slot) = false)
    (hnew : p (b'.states slot) (b'.classes slot) = true) : Members b' p (l ++ [slot]) := by
  have hout : slot ∉ l := fun hm => absurd (hold.symm.trans ((h.mem slot).1 hm)) Bool.false_ne_true
  refine ⟨List.nodup_append.2 ⟨h.nodup, List.nodup_singleton slot, fun i hi j hj => ?_⟩, fun i => ?_⟩
  · obtain rfl := List.mem_singleton.1 hj
    exact fun hij => hout (hij ▸ hi)
  · rw [List.mem_append, List.mem_singleton, h.mem]
    by_cases hi : i = slot
    · subst hi
      rw [hold, hnew]
      exact ⟨fun _ => rfl, fun _ => .inr rfl⟩
    · rw [(he i hi).1, (he i hi).2]
      exact ⟨fun hc => hc.resolve_right hi, .inl⟩

end Members

/-- What a slot that goes from one state and class to others changes in a number. -/
def change (p : State → SourceClass → Bool) (s : State) (k : SourceClass) (s' : State) (k' : SourceClass) : Int :=
  (if p s' k' then 1 else 0) - if p s k then 1 else 0

theorem tally_move (he : Elsewhere b b' slot) (p : State → SourceClass → Bool) :
    tally b' p = tally b p + change p (b.states slot) (b.classes slot) (b'.states slot) (b'.classes slot) := by
  obtain ⟨as, bs, hs⟩ := List.append_of_mem (List.mem_finRange slot)
  have hnodup := List.nodup_finRange capacity
  rw [hs, List.nodup_append, List.nodup_cons] at hnodup
  obtain ⟨-, ⟨hbs, -⟩, has⟩ := hnodup
  have hsame : ∀ l : List Slot, slot ∉ l → l.countP (fun i => p (b'.states i) (b'.classes i))
      = l.countP (fun i => p (b.states i) (b.classes i)) := by
    intro l hl
    refine List.countP_congr (fun i hi => ?_)
    obtain ⟨h1, h2⟩ := he i (fun heq => hl (heq ▸ hi))
    rw [h1, h2]
  unfold tally change
  rw [hs, List.countP_append, List.countP_append, List.countP_cons, List.countP_cons,
    hsame as (fun hm => has slot hm slot List.mem_cons_self rfl), hsame bs hbs]
  cases p (b.states slot) (b.classes slot) <;> cases p (b'.states slot) (b'.classes slot) <;> simp <;> ring

/-! ## The lists behind the bookkeeping -/

structure Work where
  free : List Slot := List.finRange capacity
  queue : SourceClass → List Slot := fun _ => []
  running : List Slot := []
  finished : List Slot := []

namespace Work

def reserve (w : Work) (slot : Slot) (source : SourceClass) : Work :=
  { w with free := w.free.erase slot, queue := Function.update w.queue source (w.queue source ++ [slot]) }

def start (w : Work) (slot : Slot) (source : SourceClass) : Work :=
  { w with queue := Function.update w.queue source ((w.queue source).erase slot), running := w.running ++ [slot] }

def cancel (w : Work) (slot : Slot) (source : SourceClass) : Work :=
  { w with queue := Function.update w.queue source ((w.queue source).erase slot), finished := w.finished ++ [slot] }

def complete (w : Work) (slot : Slot) : Work :=
  { w with running := w.running.erase slot, finished := w.finished ++ [slot] }

def release (w : Work) (slot : Slot) : Work :=
  { w with finished := w.finished.erase slot, free := w.free ++ [slot] }

end Work

def isFree : State → SourceClass → Bool := fun s _ => s == .free
def isQueued (c : SourceClass) : State → SourceClass → Bool := fun s k => s == .queued && k == c
def isRunning : State → SourceClass → Bool := fun s _ => s == .running
def isFinal : State → SourceClass → Bool := fun s _ => s == .completed || s == .cancelled

/-- Every counter is the number of slots it counts. -/
structure Counts (b : Bookkeeping) : Prop where
  free : b.freeCount = tally b isFree
  queued : b.queuedCount = tally b (fun s _ => s == .queued)
  running : b.runningCount = tally b isRunning
  deadlineRunning : b.deadlineRunningCount = tally b (fun s k => s == .running && k == .deadline)
  completed : b.completedCount = tally b (fun s _ => s == .completed)
  cancelled : b.cancelledCount = tally b (fun s _ => s == .cancelled)
  lane : ∀ c, b.laneCount c = tally b (isQueued c)

/-- The invariant: the lists are what the states say, the arrays link them, and the mask and the counters follow. -/
structure Good (b : Bookkeeping) (w : Work) : Prop where
  free : Members b isFree w.free
  queue : ∀ c, Members b (isQueued c) (w.queue c)
  running : Members b isRunning w.running
  finished : Members b isFinal w.finished
  lanes : ∀ c, Queue b.queue (b.lanes c) (w.queue c)
  finals : Queue b.finals b.finalEnds w.finished
  mask : ∀ i, b.freeMask i = true ↔ i ∈ w.free
  counts : Counts b

/-- **What a call answers, and how the lists move.** -/
inductive Does : Work → Call → Answer → Work → Prop where
  | refused {w source} (h : w.free = [] ∨ source = .deadline ∧ 4 ≤ (w.queue .deadline).length ∨
      source ≠ .deadline ∧ w.free.length ≤ 2) : Does w (.reserveAndEnqueue source) (.reserved none) w
  | reserved {w source slot} (hfree : slot ∈ w.free) (hlow : ∀ i ∈ w.free, slot ≤ i)
      (hdeadline : source = .deadline → (w.queue .deadline).length < 4)
      (hkept : source ≠ .deadline → 2 ≤ (w.reserve slot source).free.length) :
      Does w (.reserveAndEnqueue source) (.reserved (some slot)) (w.reserve slot source)
  | nothing {w} (hirq : w.queue .irq = []) (htask : w.queue .task = []) : Does w .takeNextNormal (.selected none) w
  | irq {w slot rest} (hirq : w.queue .irq = slot :: rest) :
      Does w .takeNextNormal (.selected (some { slot, source := .irq, irqPreferred := !(w.queue .task).isEmpty }))
        (w.start slot .irq)
  | task {w slot rest} (htask : w.queue .task = slot :: rest) :
      Does w .takeNextNormal (.selected (some { slot, source := .task, taskFairness := !(w.queue .irq).isEmpty }))
        (w.start slot .task)
  | noDeadline {w deadlines} (h : w.queue .deadline = [] ∨ deadlines.length < capacity) :
      Does w (.takeNextDeadline deadlines) (.selected none) w
  | deadline {w as bs} {slot : Slot} {deadlines : List Nat} (hqueue : w.queue .deadline = as ++ slot :: bs)
      (hlen : capacity ≤ deadlines.length) (hbefore : ∀ i ∈ as, deadlines.getD slot 0 < deadlines.getD i 0)
      (hbehind : ∀ i ∈ bs, deadlines.getD slot 0 ≤ deadlines.getD i 0) :
      Does w (.takeNextDeadline deadlines) (.selected (some { slot, source := .deadline })) (w.start slot .deadline)
  | cancelled {w source} {slot : Slot} (h : slot ∈ w.queue source) :
      Does w (.cancelQueued slot) (.done true) (w.cancel slot source)
  | notCancelled {w} {slot : Nat} (h : ∀ source, ∀ i ∈ w.queue source, i.val ≠ slot) :
      Does w (.cancelQueued slot) (.done false) w
  | completed {w} {slot : Slot} (h : slot ∈ w.running) : Does w (.completeRunning slot) (.done true) (w.complete slot)
  | notCompleted {w} {slot : Nat} (h : ∀ i ∈ w.running, i.val ≠ slot) : Does w (.completeRunning slot) (.done false) w
  | released {w} {slot : Slot} (h : slot ∈ w.finished) : Does w (.releaseFinal slot) (.done true) (w.release slot)
  | notReleased {w} {slot : Nat} (h : ∀ i ∈ w.finished, i.val ≠ slot) : Does w (.releaseFinal slot) (.done false) w

/-! ## One slot moves -/

variable {w : Work}

theorem Counts.move (h : Counts b) (he : Elsewhere b b' slot) {s s' : State} {k k' : SourceClass}
    (hold : b.states slot = s ∧ b.classes slot = k) (hnew : b'.states slot = s' ∧ b'.classes slot = k')
    (hfree : b'.freeCount = b.freeCount + change isFree s k s' k')
    (hqueued : b'.queuedCount = b.queuedCount + change (fun s _ => s == .queued) s k s' k')
    (hrunning : b'.runningCount = b.runningCount + change isRunning s k s' k')
    (hdeadline : b'.deadlineRunningCount
      = b.deadlineRunningCount + change (fun s k => s == .running && k == .deadline) s k s' k')
    (hcompleted : b'.completedCount = b.completedCount + change (fun s _ => s == .completed) s k s' k')
    (hcancelled : b'.cancelledCount = b.cancelledCount + change (fun s _ => s == .cancelled) s k s' k')
    (hlane : ∀ c, b'.laneCount c = b.laneCount c + change (isQueued c) s k s' k') : Counts b' := by
  have hmove : ∀ p, tally b' p = tally b p + change p s k s' k' := fun p => by
    rw [tally_move he p, hold.1, hold.2, hnew.1, hnew.2]
  constructor
  · rw [hfree, hmove, h.free]
  · rw [hqueued, hmove, h.queued]
  · rw [hrunning, hmove, h.running]
  · rw [hdeadline, hmove, h.deadlineRunning]
  · rw [hcompleted, hmove, h.completed]
  · rw [hcancelled, hmove, h.cancelled]
  · intro c
    rw [hlane, hmove, h.lane]

theorem isQueued_self (c : SourceClass) : isQueued c .queued c = true := by
  unfold isQueued
  simp

theorem isQueued_of_ne {c k : SourceClass} (h : c ≠ k) : isQueued c .queued k = false := by
  unfold isQueued
  simp [Ne.symm h]

namespace Good

theorem disjoint (h : Good b w) : ∀ c c' j, j ∈ w.queue c → j ∈ w.queue c' → c = c' := by
  intro c c' j hc hc'
  have h1 := ((h.queue c).mem j).1 hc
  have h2 := ((h.queue c').mem j).1 hc'
  unfold isQueued at h1 h2
  rw [Bool.and_eq_true, beq_iff_eq, beq_iff_eq] at h1 h2
  exact h1.2.symm.trans h2.2

theorem free_state (h : Good b w) (hs : slot ∈ w.free) : b.states slot = .free := by
  have hp := (h.free.mem slot).1 hs
  unfold isFree at hp
  exact beq_iff_eq.1 hp

theorem queue_state (h : Good b w) {c : SourceClass} (hs : slot ∈ w.queue c) :
    b.states slot = .queued ∧ b.classes slot = c := by
  have hp := ((h.queue c).mem slot).1 hs
  unfold isQueued at hp
  rw [Bool.and_eq_true, beq_iff_eq, beq_iff_eq] at hp
  exact hp

theorem running_state (h : Good b w) (hs : slot ∈ w.running) : b.states slot = .running := by
  have hp := (h.running.mem slot).1 hs
  unfold isRunning at hp
  exact beq_iff_eq.1 hp

theorem append_lanes (h : Good b w) (hs : b.states slot ≠ .queued) (source : SourceClass) (c : SourceClass) :
    Queue (b.appendQueue slot source).queue ((b.appendQueue slot source).lanes c)
      (Function.update w.queue source (w.queue source ++ [slot]) c) :=
  LinkedQueue.linkTail_family h.lanes h.disjoint source (fun _ hm => hs (h.queue_state hm).1) c

theorem remove_lanes (h : Good b w) {source : SourceClass} (hs : slot ∈ w.queue source) (c : SourceClass) :
    Queue (b.removeQueue slot).queue ((b.removeQueue slot).lanes c)
      (Function.update w.queue source ((w.queue source).erase slot) c) := by
  unfold Bookkeeping.removeQueue
  rw [(h.queue_state hs).2]
  exact LinkedQueue.unlink_family h.lanes h.disjoint hs c

theorem queue_append (h : Good b w) (he : Elsewhere b b' slot) (hold : b.states slot ≠ .queued) {source : SourceClass}
    (hnew : b'.states slot = .queued ∧ b'.classes slot = source) (c : SourceClass) :
    Members b' (isQueued c) (Function.update w.queue source (w.queue source ++ [slot]) c) := by
  have hno : isQueued c (b.states slot) (b.classes slot) = false := by
    unfold isQueued
    rw [beq_false_of_ne hold, Bool.false_and]
  by_cases hc : c = source
  · subst hc
    rw [Function.update_self]
    exact (h.queue c).append he hno (by rw [hnew.1, hnew.2, isQueued_self])
  · rw [Function.update_of_ne hc]
    exact (h.queue c).keep he hno (by rw [hnew.1, hnew.2, isQueued_of_ne hc])

theorem queue_erase (h : Good b w) (he : Elsewhere b b' slot) {source : SourceClass} (hs : slot ∈ w.queue source)
    (hnew : b'.states slot ≠ .queued) (c : SourceClass) :
    Members b' (isQueued c) (Function.update w.queue source ((w.queue source).erase slot) c) := by
  have hno : isQueued c (b'.states slot) (b'.classes slot) = false := by
    unfold isQueued
    rw [beq_false_of_ne hnew, Bool.false_and]
  by_cases hc : c = source
  · subst hc
    rw [Function.update_self]
    exact (h.queue c).erase he hno
  · rw [Function.update_of_ne hc]
    obtain ⟨h1, h2⟩ := h.queue_state hs
    exact (h.queue c).keep he (by rw [h1, h2, isQueued_of_ne hc]) hno

theorem queue_keep (h : Good b w) (he : Elsewhere b b' slot) (hold : b.states slot ≠ .queued)
    (hnew : b'.states slot ≠ .queued) (c : SourceClass) : Members b' (isQueued c) (w.queue c) := by
  refine (h.queue c).keep he ?_ ?_
  · unfold isQueued
    rw [beq_false_of_ne hold, Bool.false_and]
  · unfold isQueued
    rw [beq_false_of_ne hnew, Bool.false_and]

theorem keep_free (h : Good b w) (he : Elsewhere b b' slot) (hold : b.states slot ≠ .free)
    (hnew : b'.states slot ≠ .free) : Members b' isFree w.free :=
  h.free.keep he (beq_false_of_ne hold) (beq_false_of_ne hnew)

theorem keep_running (h : Good b w) (he : Elsewhere b b' slot) (hold : b.states slot ≠ .running)
    (hnew : b'.states slot ≠ .running) : Members b' isRunning w.running :=
  h.running.keep he (beq_false_of_ne hold) (beq_false_of_ne hnew)

theorem keep_finished (h : Good b w) (he : Elsewhere b b' slot)
    (hold : b.states slot ≠ .completed ∧ b.states slot ≠ .cancelled)
    (hnew : b'.states slot ≠ .completed ∧ b'.states slot ≠ .cancelled) : Members b' isFinal w.finished := by
  refine h.finished.keep he ?_ ?_
  · unfold isFinal
    rw [beq_false_of_ne hold.1, beq_false_of_ne hold.2, Bool.or_false]
  · unfold isFinal
    rw [beq_false_of_ne hnew.1, beq_false_of_ne hnew.2, Bool.or_false]

end Good

theorem elsewhere_update (b b' : Bookkeeping) (slot : Slot) {s : State} {k : SourceClass}
    (hstates : b'.states = Function.update b.states slot s) (hclasses : b'.classes = Function.update b.classes slot k) :
    Elsewhere b b' slot ∧ b'.states slot = s ∧ b'.classes slot = k := by
  refine ⟨fun i hi => ?_, ?_, ?_⟩
  · rw [hstates, hclasses, Function.update_of_ne hi, Function.update_of_ne hi]
    exact ⟨rfl, rfl⟩
  · rw [hstates, Function.update_self]
  · rw [hclasses, Function.update_self]

/-! ## The calls -/

namespace Good

theorem admitWork (h : Good b w) (hs : slot ∈ w.free) (source : SourceClass) : Good (b.admitWork slot source) (w.reserve slot source) := by
  obtain ⟨he, hstate, hclass⟩ := elsewhere_update b (b.admitWork slot source) slot rfl rfl
  have hfree := h.free_state hs
  have hq : b.states slot ≠ .queued := by rw [hfree]; decide
  refine ⟨h.free.erase he ?_, h.queue_append he hq ⟨hstate, hclass⟩, h.keep_running he ?_ ?_, h.keep_finished he ?_ ?_,
    h.append_lanes hq source, h.finals, fun i => ?_, h.counts.move he ⟨hfree, rfl⟩ ⟨hstate, hclass⟩ rfl rfl ?_ ?_ ?_ ?_ ?_⟩
  · rw [hstate]
    rfl
  · rw [hfree]; decide
  · rw [hstate]; decide
  · rw [hfree]; decide
  · rw [hstate]; decide
  · show Function.update b.freeMask slot false i = true ↔ i ∈ w.free.erase slot
    rw [h.free.nodup.mem_erase_iff]
    by_cases hi : i = slot
    · subst hi
      rw [Function.update_self]
      exact ⟨fun hf => absurd hf Bool.false_ne_true, fun hf => absurd rfl hf.1⟩
    · rw [Function.update_of_ne hi, h.mask]
      exact ⟨fun hm => ⟨hi, hm⟩, fun hm => hm.2⟩
  · exact (Int.add_zero _).symm
  · exact (Int.add_zero _).symm
  · exact (Int.add_zero _).symm
  · exact (Int.add_zero _).symm
  · intro c
    show Function.update b.laneCount source (b.laneCount source + 1) c = _
    unfold change
    by_cases hc : c = source
    · subst hc
      rw [Function.update_self, isQueued_self]
      rfl
    · rw [Function.update_of_ne hc, isQueued_of_ne hc]
      exact (Int.add_zero _).symm

theorem lane_leaves {s' : State} (hs' : s' ≠ .queued) (source k' c : SourceClass) :
    Function.update b.laneCount source (b.laneCount source + -1) c
      = b.laneCount c + change (isQueued c) .queued source s' k' := by
  have hnew : isQueued c s' k' = false := by
    unfold isQueued
    rw [beq_false_of_ne hs', Bool.false_and]
  unfold change
  rw [hnew]
  by_cases hc : c = source
  · subst hc
    rw [Function.update_self, isQueued_self]
    rfl
  · rw [Function.update_of_ne hc, isQueued_of_ne hc]
    exact (Int.add_zero _).symm

theorem start (h : Good b w) (selection : Selection) (hs : selection.slot ∈ w.queue selection.source) :
    Good (b.startSelection selection) (w.start selection.slot selection.source) := by
  obtain ⟨slot, source, irqPreferred, taskFairness⟩ := selection
  dsimp only at hs ⊢
  obtain ⟨hq, hk⟩ := h.queue_state hs
  obtain ⟨he, hstate, hclass⟩ := elsewhere_update b
    (b.startSelection ⟨slot, source, irqPreferred, taskFairness⟩) slot rfl (Function.update_eq_self slot b.classes).symm
  rw [hk] at hclass
  refine ⟨h.keep_free he ?_ ?_, h.queue_erase he hs ?_, h.running.append he ?_ ?_, h.keep_finished he ?_ ?_,
    h.remove_lanes hs, h.finals, h.mask, h.counts.move he ⟨hq, hk⟩ ⟨hstate, hclass⟩ ?_ rfl rfl ?_ ?_ ?_ ?_⟩
  · rw [hq]; decide
  · rw [hstate]; decide
  · rw [hstate]; decide
  · rw [hq]; rfl
  · rw [hstate]; rfl
  · rw [hq]; decide
  · rw [hstate]; decide
  · exact (Int.add_zero _).symm
  · show b.deadlineRunningCount + (if source = SourceClass.deadline then 1 else 0) = _
    cases source <;> rfl
  · exact (Int.add_zero _).symm
  · exact (Int.add_zero _).symm
  · exact lane_leaves (by decide) source source

theorem cancelAt (h : Good b w) {source : SourceClass} (hs : slot ∈ w.queue source) :
    Good (b.cancelAt slot) (w.cancel slot source) := by
  obtain ⟨hq, hk⟩ := h.queue_state hs
  obtain ⟨he, hstate, hclass⟩ := elsewhere_update b (b.cancelAt slot) slot rfl
    (Function.update_eq_self slot b.classes).symm
  rw [hk] at hclass
  have hout : slot ∉ w.finished := fun hm => by
    have hp := (h.finished.mem slot).1 hm
    rw [hq] at hp
    exact absurd hp Bool.false_ne_true
  refine ⟨h.keep_free he ?_ ?_, h.queue_erase he hs ?_, h.keep_running he ?_ ?_, h.finished.append he ?_ ?_,
    h.remove_lanes hs, h.finals.linkTail hout, h.mask, h.counts.move he ⟨hq, hk⟩ ⟨hstate, hclass⟩ ?_ rfl ?_ ?_ ?_ rfl ?_⟩
  · rw [hq]; decide
  · rw [hstate]; decide
  · rw [hstate]; decide
  · rw [hq]; decide
  · rw [hstate]; decide
  · rw [hq]; rfl
  · rw [hstate]; rfl
  · exact (Int.add_zero _).symm
  · exact (Int.add_zero _).symm
  · exact (Int.add_zero _).symm
  · exact (Int.add_zero _).symm
  · show ∀ c, Function.update b.laneCount (b.classes slot) (b.laneCount (b.classes slot) + -1) c = _
    rw [hk]
    exact lane_leaves (by decide) source source

theorem completeAt (h : Good b w) (hs : slot ∈ w.running) : Good (b.completeAt slot) (w.complete slot) := by
  have hr := h.running_state hs
  obtain ⟨he, hstate, hclass⟩ := elsewhere_update b (b.completeAt slot) slot rfl
    (Function.update_eq_self slot b.classes).symm
  have hout : slot ∉ w.finished := fun hm => by
    have hp := (h.finished.mem slot).1 hm
    rw [hr] at hp
    exact absurd hp Bool.false_ne_true
  refine ⟨h.keep_free he ?_ ?_, h.queue_keep he ?_ ?_, h.running.erase he ?_, h.finished.append he ?_ ?_,
    h.lanes, h.finals.linkTail hout, h.mask, h.counts.move he ⟨hr, rfl⟩ ⟨hstate, hclass⟩ ?_ ?_ rfl ?_ rfl ?_ ?_⟩
  · rw [hr]; decide
  · rw [hstate]; decide
  · rw [hr]; decide
  · rw [hstate]; decide
  · rw [hstate]; rfl
  · rw [hr]; rfl
  · rw [hstate]; rfl
  · exact (Int.add_zero _).symm
  · exact (Int.add_zero _).symm
  · -- the test for zero never fails: the slot itself is counted
    show b.deadlineRunningCount - (if b.classes slot = SourceClass.deadline ∧ b.deadlineRunningCount ≠ 0 then 1 else 0) = _
    have hchange : ∀ k, change (fun s k => s == .running && k == .deadline) .running k .completed k
        = if k = SourceClass.deadline then -1 else 0 := fun k => by cases k <;> rfl
    rw [hchange]
    by_cases hd : b.classes slot = SourceClass.deadline
    · have hpos : 0 < tally b (fun s k => s == .running && k == .deadline) := by
        unfold tally
        refine Int.natCast_pos.2 (List.countP_pos_iff.2 ⟨slot, List.mem_finRange slot, ?_⟩)
        rw [hr, hd]
        rfl
      rw [if_pos ⟨hd, by rw [h.counts.deadlineRunning]; omega⟩, if_pos hd]
      rfl
    · rw [if_neg (fun hc => hd hc.1), if_neg hd, Int.sub_zero, Int.add_zero]
  · exact (Int.add_zero _).symm
  · exact fun _ => (Int.add_zero _).symm

theorem releaseAt (h : Good b w) (hs : slot ∈ w.finished) : Good (b.releaseAt slot) (w.release slot) := by
  have hf : b.states slot = .completed ∨ b.states slot = .cancelled := by
    have hp := (h.finished.mem slot).1 hs
    unfold isFinal at hp
    rw [Bool.or_eq_true, beq_iff_eq, beq_iff_eq] at hp
    exact hp
  obtain ⟨he, hstate, hclass⟩ := elsewhere_update b (b.releaseAt slot) slot rfl rfl
  have hno : b.states slot ≠ .free ∧ b.states slot ≠ .queued ∧ b.states slot ≠ .running := by
    rcases hf with hf | hf <;> rw [hf] <;> decide
  refine ⟨h.free.append he (beq_false_of_ne hno.1) ?_, h.queue_keep he hno.2.1 ?_, h.keep_running he hno.2.2 ?_,
    h.finished.erase he ?_, h.lanes, h.finals.unlink_mem hs, fun i => ?_, ?_⟩
  · rw [hstate]; rfl
  · rw [hstate]; decide
  · rw [hstate]; decide
  · rw [hstate]; rfl
  · show Function.update b.freeMask slot true i = true ↔ i ∈ w.free ++ [slot]
    rw [List.mem_append, List.mem_singleton]
    by_cases hi : i = slot
    · subst hi
      rw [Function.update_self]
      exact ⟨fun _ => .inr rfl, fun _ => rfl⟩
    · rw [Function.update_of_ne hi, h.mask]
      exact ⟨.inl, fun hm => hm.resolve_right hi⟩
  · have hcompleted : (b.releaseAt slot).completedCount
        = b.completedCount - (if b.states slot = State.completed then 1 else 0) := rfl
    have hcancelled : (b.releaseAt slot).cancelledCount
        = b.cancelledCount - (if b.states slot = State.cancelled then 1 else 0) := rfl
    rcases hf with hf | hf
    · rw [hf] at hcompleted hcancelled
      rw [if_neg (by decide), Int.sub_zero] at hcancelled
      exact h.counts.move he ⟨hf, rfl⟩ ⟨hstate, hclass⟩ rfl (Int.add_zero _).symm (Int.add_zero _).symm
        (Int.add_zero _).symm hcompleted (hcancelled.trans (Int.add_zero _).symm) (fun _ => (Int.add_zero _).symm)
    · rw [hf] at hcompleted hcancelled
      rw [if_neg (by decide), Int.sub_zero] at hcompleted
      exact h.counts.move he ⟨hf, rfl⟩ ⟨hstate, hclass⟩ rfl (Int.add_zero _).symm (Int.add_zero _).symm
        (Int.add_zero _).symm (hcompleted.trans (Int.add_zero _).symm) hcancelled (fun _ => (Int.add_zero _).symm)

end Good

/-! ### The earliest deadline -/

def earlier (deadline : Slot → Nat) (best cursor : Slot) : Slot := if deadline cursor < deadline best then cursor else best

theorem earliest_walk (deadline : Slot → Nat) (next : Slot → Option Slot) : ∀ (fuel : Nat) (h : Option Slot) (best : Slot),
    Bookkeeping.earliest deadline next fuel h best = (LinkedQueue.walk next fuel h).foldl (earlier deadline) best
  | 0, none, _ => rfl
  | 0, some _, _ => rfl
  | _ + 1, none, _ => rfl
  | fuel + 1, some i, best => earliest_walk deadline next fuel (next i) (earlier deadline best i)

theorem fold_earlier (deadline : Slot → Nat) : ∀ (l as mid : List Slot) (best : Slot),
    (∀ i ∈ as, deadline best < deadline i) → (∀ i ∈ mid, deadline best ≤ deadline i) →
    ∃ as' bs', as ++ best :: (mid ++ l) = as' ++ l.foldl (earlier deadline) best :: bs' ∧
      (∀ i ∈ as', deadline (l.foldl (earlier deadline) best) < deadline i) ∧
      ∀ i ∈ bs', deadline (l.foldl (earlier deadline) best) ≤ deadline i
  | [], as, mid, best, has, hmid => ⟨as, mid, by rw [List.append_nil]; rfl, has, hmid⟩
  | x :: l, as, mid, best, has, hmid => by
    rw [List.foldl_cons]
    by_cases hx : deadline x < deadline best
    · have hstep : earlier deadline best x = x := if_pos hx
      rw [hstep]
      obtain ⟨as', bs', heq, h1, h2⟩ := fold_earlier deadline l (as ++ best :: mid) [] x (fun i hi => by
        rcases List.mem_append.1 hi with hi | hi
        · exact Nat.lt_trans hx (has i hi)
        · rcases List.mem_cons.1 hi with rfl | hi
          · exact hx
          · exact Nat.lt_of_lt_of_le hx (hmid i hi)) (fun _ hi => absurd hi List.not_mem_nil)
      refine ⟨as', bs', ?_, h1, h2⟩
      rw [← heq, List.nil_append, List.append_assoc, List.cons_append]
    · have hstep : earlier deadline best x = best := if_neg hx
      rw [hstep]
      obtain ⟨as', bs', heq, h1, h2⟩ := fold_earlier deadline l as (mid ++ [x]) best has (fun i hi => by
        rcases List.mem_append.1 hi with hi | hi
        · exact hmid i hi
        · obtain rfl := List.mem_singleton.1 hi
          exact Nat.not_lt.1 hx)
      refine ⟨as', bs', ?_, h1, h2⟩
      rw [← heq, List.append_assoc, List.singleton_append]

namespace Good

theorem head_eq (h : Good b w) (c : SourceClass) : (b.lanes c).head = (w.queue c).head? := (h.lanes c).head

theorem length_free (h : Good b w) : b.freeCount = w.free.length := by rw [h.counts.free, h.free.length]

theorem length_lane (h : Good b w) (c : SourceClass) : b.laneCount c = (w.queue c).length := by
  rw [h.counts.lane, (h.queue c).length]

theorem step_reserve (h : Good b w) (source : SourceClass) :
    ∃ w', Does w (.reserveAndEnqueue source) (call b (.reserveAndEnqueue source)).1 w' ∧
      Good (call b (.reserveAndEnqueue source)).2 w' := by
  have hfree := h.length_free
  have hlane := h.length_lane .deadline
  unfold call Bookkeeping.reserveAndEnqueue
  cases hf : Slots.first b.freeMask with
  | none =>
    refine ⟨w, .refused (.inl (List.eq_nil_iff_forall_not_mem.2 (fun i hi => ?_))), h⟩
    exact absurd (((h.mask i).2 hi).symm.trans (Slots.first_none.1 hf i)) Bool.noConfusion
  | some slot =>
    have hs : slot ∈ w.free := (h.mask slot).1 (Slots.first_some hf)
    dsimp only
    split
    · rename_i hd
      refine ⟨w, .refused (.inr (.inl ⟨hd.1, ?_⟩)), h⟩
      have := hd.2
      unfold deadlineQueueCapacity at this
      omega
    · rename_i hd
      split
      · rename_i hr
        refine ⟨w, .refused (.inr (.inr ⟨hr.1, ?_⟩)), h⟩
        have := hr.2
        unfold deadlineReservedCapacity at this
        omega
      · rename_i hr
        refine ⟨w.reserve slot source, .reserved hs (fun i hi => ?_) (fun hsource => ?_) (fun hsource => ?_), h.admitWork hs source⟩
        · by_contra hlt
          exact absurd (((h.mask i).2 hi).symm.trans (Slots.first_least hf (not_le.1 hlt))) Bool.noConfusion
        · by_contra hge
          refine hd ⟨hsource, ?_⟩
          unfold deadlineQueueCapacity
          omega
        · show 2 ≤ (w.free.erase slot).length
          rw [List.length_erase_of_mem hs]
          by_contra hlt
          refine hr ⟨hsource, ?_⟩
          unfold deadlineReservedCapacity
          omega

theorem step_normal (h : Good b w) : ∃ w', Does w .takeNextNormal (call b .takeNextNormal).1 w' ∧
    Good (call b .takeNextNormal).2 w' := by
  have hirq := h.head_eq .irq
  have htask := h.head_eq .task
  have hburst : ∀ n, Good { b with currentIrqBurst := n } w := fun _ =>
    ⟨⟨h.free.1, h.free.2⟩, fun c => ⟨(h.queue c).1, (h.queue c).2⟩, ⟨h.running.1, h.running.2⟩,
      ⟨h.finished.1, h.finished.2⟩, h.lanes, h.finals, h.mask, ⟨h.counts.1, h.counts.2, h.counts.3, h.counts.4, h.counts.5,
      h.counts.6, h.counts.7⟩⟩
  -- the class that is served has a head
  have hserve : ∀ (n : Nat) (source : SourceClass) (slot : Slot) (rest : List Slot) (irqPreferred taskFairness : Bool),
      w.queue source = slot :: rest →
      Good (({ b with currentIrqBurst := n } : Bookkeeping).startSelection ⟨slot, source, irqPreferred, taskFairness⟩)
        (w.start slot source) := fun n source slot rest irqPreferred taskFairness hq =>
    (hburst n).start ⟨slot, source, irqPreferred, taskFairness⟩ (by rw [hq]; exact List.mem_cons_self)
  unfold call Bookkeeping.takeNextNormal
  rw [hirq, htask]
  dsimp only
  cases hi : w.queue .irq with
  | nil =>
    cases ht : w.queue .task with
    | nil => exact ⟨w, .nothing hi ht, h⟩
    | cons slot rest =>
      have hdoes := Does.task ht
      rw [hi] at hdoes
      exact ⟨_, hdoes, hserve 0 .task slot rest false false ht⟩
  | cons slot rest =>
    cases ht : w.queue .task with
    | nil =>
      have hdoes := Does.irq hi
      rw [ht] at hdoes
      exact ⟨_, hdoes, hserve _ .irq slot rest false false hi⟩
    | cons slot' rest' =>
      by_cases hb : b.currentIrqBurst < irqBurstLimit
      · have hdoes := Does.irq hi
        rw [ht] at hdoes
        simp only [List.head?_cons, Option.isSome_some, Option.isNone_some, Bool.false_or, Bool.true_and, decide_eq_true hb,
          if_true]
        exact ⟨_, hdoes, hserve _ .irq slot rest true false hi⟩
      · have hdoes := Does.task ht
        rw [hi] at hdoes
        simp only [List.head?_cons, Option.isSome_some, Option.isNone_some, Bool.false_or, Bool.true_and, decide_eq_false hb,
          Bool.false_eq_true, if_false]
        exact ⟨_, hdoes, hserve 0 .task slot' rest' false true ht⟩

theorem step_deadline (h : Good b w) (deadlines : List Nat) :
    ∃ w', Does w (.takeNextDeadline deadlines) (call b (.takeNextDeadline deadlines)).1 w' ∧
      Good (call b (.takeNextDeadline deadlines)).2 w' := by
  have hhead := h.head_eq .deadline
  have hchain := (h.lanes .deadline).chain
  unfold call Bookkeeping.takeNextDeadline
  rw [hhead] at hchain ⊢
  cases hq : w.queue .deadline with
  | nil => exact ⟨w, .noDeadline (.inl hq), h⟩
  | cons head rest =>
    dsimp only [List.head?_cons]
    by_cases hlen : deadlines.length < capacity
    · rw [if_pos hlen]
      exact ⟨w, .noDeadline (.inr hlen), h⟩
    · rw [if_neg hlen]
      rw [hq, List.head?_cons] at hchain
      -- the walk meets the whole rest of the queue
      have hwalk : LinkedQueue.walk (fun i => (b.queue i).next) capacity (b.queue head).next = rest := by
        refine hchain.tail.walk_eq ?_
        have hle := List.Nodup.length_le_card hchain.tail.nodup
        rwa [Fintype.card_fin] at hle
      rw [earliest_walk, hwalk]
      obtain ⟨as, bs, hsplit, hbefore, hbehind⟩ := fold_earlier (fun i => deadlines.getD i 0) rest [] [] head
        (fun _ hi => absurd hi List.not_mem_nil) (fun _ hi => absurd hi List.not_mem_nil)
      generalize rest.foldl (earlier fun i => deadlines.getD i 0) head = best at *
      have hqueue : w.queue .deadline = as ++ best :: bs := hq.trans hsplit
      refine ⟨_, .deadline hqueue (Nat.not_lt.1 hlen) hbefore hbehind, h.start { slot := best, source := .deadline } ?_⟩
      rw [hqueue]
      exact List.mem_append_right _ List.mem_cons_self

theorem onSlot_cases (b : Bookkeeping) (slot : Nat) (states : List State) (f : Slot → Bookkeeping) :
    (∃ i : Slot, i.val = slot ∧ b.states i ∈ states ∧ b.onSlot slot states f = (true, f i)) ∨
      ((∀ i : Slot, i.val = slot → b.states i ∉ states) ∧ b.onSlot slot states f = (false, b)) := by
  unfold Bookkeeping.onSlot
  by_cases hlt : slot < capacity
  · rw [dif_pos hlt]
    by_cases hs : b.states ⟨slot, hlt⟩ ∈ states
    · rw [if_pos hs]
      exact .inl ⟨⟨slot, hlt⟩, rfl, hs, rfl⟩
    · rw [if_neg hs]
      exact .inr ⟨fun i hi => by rwa [show i = ⟨slot, hlt⟩ from Fin.ext hi], rfl⟩
  · rw [dif_neg hlt]
    exact .inr ⟨fun i hi => absurd (hi ▸ i.isLt) hlt, rfl⟩

theorem step_cancel (h : Good b w) (slot : Nat) : ∃ w', Does w (.cancelQueued slot) (call b (.cancelQueued slot)).1 w' ∧
    Good (call b (.cancelQueued slot)).2 w' := by
  rw [show call b (.cancelQueued slot) = (.done (b.cancelQueued slot).1, (b.cancelQueued slot).2) from rfl, Bookkeeping.cancelQueued]
  rcases onSlot_cases b slot [.queued] b.cancelAt with ⟨i, rfl, hs, hcall⟩ | ⟨hs, hcall⟩
  · rw [hcall]
    have hi : i ∈ w.queue (b.classes i) := ((h.queue _).mem i).2 (by rw [List.mem_singleton.1 hs, isQueued_self])
    exact ⟨_, .cancelled hi, h.cancelAt hi⟩
  · rw [hcall]
    refine ⟨w, .notCancelled (fun source i hi heq => hs i heq ?_), h⟩
    exact List.mem_singleton.2 (h.queue_state hi).1

theorem step_complete (h : Good b w) (slot : Nat) :
    ∃ w', Does w (.completeRunning slot) (call b (.completeRunning slot)).1 w' ∧
      Good (call b (.completeRunning slot)).2 w' := by
  rw [show call b (.completeRunning slot) = (.done (b.completeRunning slot).1, (b.completeRunning slot).2) from rfl, Bookkeeping.completeRunning]
  rcases onSlot_cases b slot [.running] b.completeAt with ⟨i, rfl, hs, hcall⟩ | ⟨hs, hcall⟩
  · rw [hcall]
    have hi : i ∈ w.running := (h.running.mem i).2 (by rw [List.mem_singleton.1 hs]; rfl)
    exact ⟨_, .completed hi, h.completeAt hi⟩
  · rw [hcall]
    refine ⟨w, .notCompleted (fun i hi heq => hs i heq ?_), h⟩
    exact List.mem_singleton.2 (h.running_state hi)

theorem step_release (h : Good b w) (slot : Nat) : ∃ w', Does w (.releaseFinal slot) (call b (.releaseFinal slot)).1 w' ∧
    Good (call b (.releaseFinal slot)).2 w' := by
  have hfinal : ∀ i : Slot, i ∈ w.finished ↔ b.states i ∈ [State.completed, State.cancelled] := fun i => by
    rw [h.finished.mem]
    unfold isFinal
    rw [Bool.or_eq_true, beq_iff_eq, beq_iff_eq, List.mem_cons, List.mem_singleton]
  rw [show call b (.releaseFinal slot) = (.done (b.releaseFinal slot).1, (b.releaseFinal slot).2) from rfl, Bookkeeping.releaseFinal]
  rcases onSlot_cases b slot [.completed, .cancelled] b.releaseAt with ⟨i, rfl, hs, hcall⟩ | ⟨hs, hcall⟩
  · rw [hcall]
    have hi : i ∈ w.finished := (hfinal i).2 hs
    exact ⟨_, .released hi, h.releaseAt hi⟩
  · rw [hcall]
    exact ⟨w, .notReleased (fun i hi heq => hs i heq ((hfinal i).1 hi)), h⟩

/-- **One call moves one slot as the lists say, and keeps the invariant.** -/
theorem step (h : Good b w) : ∀ c : Call, ∃ w', Does w c (call b c).1 w' ∧ Good (call b c).2 w'
  | .reserveAndEnqueue source => h.step_reserve source
  | .takeNextNormal => h.step_normal
  | .takeNextDeadline deadlines => h.step_deadline deadlines
  | .cancelQueued slot => h.step_cancel slot
  | .completeRunning slot => h.step_complete slot
  | .releaseFinal slot => h.step_release slot

end Good

/-! ## Bursts of irq work -/

/-- No more than `room` turns of irq work from here on, and no more than `limit` after every other turn. -/
def Bursts (limit : Nat) : Nat → List Bool → Prop
  | _, [] => True
  | room, true :: turns => 0 < room ∧ Bursts limit (room - 1) turns
  | _, false :: turns => Bursts limit limit turns

theorem Bursts.mono {limit : Nat} : ∀ {turns : List Bool} {room room' : Nat}, room ≤ room' → Bursts limit room turns →
    Bursts limit room' turns
  | [], _, _, _, _ => trivial
  | true :: _, _, _, hle, h => ⟨Nat.lt_of_lt_of_le h.1 hle, h.2.mono (Nat.sub_le_sub_right hle 1)⟩
  | false :: _, _, _, _, h => h

theorem Bursts.leading {limit : Nat} : ∀ (mid post : List Bool) {room : Nat}, Bursts limit room (mid ++ post) →
    (∀ x ∈ mid, x = true) → mid.length ≤ room
  | [], _, _, _, _ => Nat.zero_le _
  | false :: _, _, _, _, hall => absurd (hall false List.mem_cons_self) Bool.false_ne_true
  | true :: mid, post, room, h, hall => by
    have hrest := Bursts.leading mid post h.2 (fun x hx => hall x (List.mem_cons_of_mem _ hx))
    have hroom := h.1
    rw [List.length_cons]
    omega

theorem Bursts.segment {limit : Nat} : ∀ (pre mid post : List Bool) {room : Nat}, room ≤ limit →
    Bursts limit room (pre ++ mid ++ post) → (∀ x ∈ mid, x = true) → mid.length ≤ limit
  | [], mid, post, _, hle, h, hall => (Bursts.leading mid post h hall).trans hle
  | true :: pre, mid, post, _, hle, h, hall => Bursts.segment pre mid post ((Nat.sub_le _ 1).trans hle) h.2 hall
  | false :: pre, mid, post, _, _, h, hall => Bursts.segment pre mid post (Nat.le_refl limit) h hall

def taskQueued (b : Bookkeeping) : Bool := (List.finRange capacity).any fun i => b.states i == .queued && b.classes i == .task

def isIrq : Option Selection → Bool
  | none => false
  | some selection => selection.source == .irq

/-- The turns of `takeNextNormal` while a task is queued: whether irq work is selected. -/
def irqTurns : Bookkeeping → List Call → List Bool
  | _, [] => []
  | b, .takeNextNormal :: calls =>
    if taskQueued b then isIrq b.takeNextNormal.1 :: irqTurns b.takeNextNormal.2 calls
    else irqTurns b.takeNextNormal.2 calls
  | b, c :: calls => irqTurns (call b c).2 calls

namespace Good

theorem taskQueued_iff (h : Good b w) : taskQueued b = true ↔ (b.lanes .task).head.isSome = true := by
  rw [h.head_eq, List.isSome_head?]
  unfold taskQueued
  rw [List.any_eq_true]
  constructor
  · rintro ⟨i, -, hi⟩
    exact List.ne_nil_of_mem (((h.queue .task).mem i).2 hi)
  · intro hne
    obtain ⟨i, hi⟩ := List.exists_mem_of_ne_nil _ hne
    exact ⟨i, List.mem_finRange i, ((h.queue .task).mem i).1 hi⟩

theorem burst_task (h : Good b w) (hq : taskQueued b = true) :
    (isIrq b.takeNextNormal.1 = true ∧ b.currentIrqBurst < 4 ∧ b.takeNextNormal.2.currentIrqBurst = b.currentIrqBurst + 1) ∨
      (isIrq b.takeNextNormal.1 = false ∧ b.takeNextNormal.2.currentIrqBurst = 0) := by
  obtain ⟨task, ht⟩ := Option.isSome_iff_exists.1 (h.taskQueued_iff.1 hq)
  unfold Bookkeeping.takeNextNormal
  rw [ht]
  dsimp only
  cases hi : (b.lanes .irq).head with
  | none => exact .inr ⟨rfl, rfl⟩
  | some irq =>
    by_cases hb : b.currentIrqBurst < irqBurstLimit
    · simp only [Option.isSome_some, Option.isNone_some, Bool.false_or, Bool.true_and, decide_eq_true hb, if_true]
      refine .inl ⟨rfl, hb, ?_⟩
      show min (b.currentIrqBurst + 1) 4294967295 = _
      unfold irqBurstLimit at hb
      omega
    · simp only [Option.isSome_some, Option.isNone_some, Bool.false_or, Bool.true_and, decide_eq_false hb,
        Bool.false_eq_true, if_false]
      exact .inr ⟨rfl, rfl⟩

theorem burst_idle (h : Good b w) (hq : taskQueued b = false) :
    4 - b.takeNextNormal.2.currentIrqBurst ≤ 4 - b.currentIrqBurst := by
  have ht : (b.lanes .task).head = none := Option.not_isSome_iff_eq_none.1 (fun hs =>
    absurd (hq.symm.trans (h.taskQueued_iff.2 hs)) Bool.false_ne_true)
  unfold Bookkeeping.takeNextNormal
  rw [ht]
  dsimp only
  cases hi : (b.lanes .irq).head with
  | none => exact Nat.le_refl _
  | some irq =>
    show 4 - min (b.currentIrqBurst + 1) 4294967295 ≤ _
    omega

end Good

theorem call_burst (b : Bookkeeping) {c : Call} (hc : c ≠ .takeNextNormal) :
    (call b c).2.currentIrqBurst = b.currentIrqBurst := by
  have honSlot : ∀ slot states f, (∀ i, (f i).currentIrqBurst = b.currentIrqBurst) →
      (b.onSlot slot states f).2.currentIrqBurst = b.currentIrqBurst := by
    intro slot states f hf
    rcases Good.onSlot_cases b slot states f with ⟨i, -, -, hcall⟩ | ⟨-, hcall⟩
    · rw [hcall]
      exact hf i
    · rw [hcall]
  cases c with
  | takeNextNormal => exact absurd rfl hc
  | reserveAndEnqueue source =>
    show (b.reserveAndEnqueue source).2.currentIrqBurst = _
    unfold Bookkeeping.reserveAndEnqueue
    split
    · rfl
    · split
      · rfl
      · split <;> rfl
  | takeNextDeadline deadlines =>
    show (b.takeNextDeadline deadlines).2.currentIrqBurst = _
    unfold Bookkeeping.takeNextDeadline
    split
    · rfl
    · split <;> rfl
  | cancelQueued slot => exact honSlot _ _ _ (fun _ => rfl)
  | completeRunning slot => exact honSlot _ _ _ (fun _ => rfl)
  | releaseFinal slot => exact honSlot _ _ _ (fun _ => rfl)

theorem Good.bursts : ∀ (calls : List Call) {b : Bookkeeping} {w : Work}, Good b w →
    Bursts 4 (4 - b.currentIrqBurst) (irqTurns b calls)
  | [], _, _, _ => trivial
  | c :: calls, b, w, h => by
    obtain ⟨w', -, hgood⟩ := h.step c
    have hrest := Good.bursts calls hgood
    by_cases hc : c = .takeNextNormal
    · subst hc
      have hsame : (call b .takeNextNormal).2 = b.takeNextNormal.2 := rfl
      rw [hsame] at hrest
      unfold irqTurns
      cases hq : taskQueued b with
      | true =>
        rw [if_pos rfl]
        rcases h.burst_task hq with ⟨hirq, hlt, hnext⟩ | ⟨hirq, hnext⟩
        · rw [hirq]
          refine ⟨by omega, ?_⟩
          rwa [hnext, ← Nat.sub_sub] at hrest
        · rw [hirq]
          rw [hnext] at hrest
          exact hrest
      | false =>
        rw [if_neg Bool.false_ne_true]
        exact hrest.mono (h.burst_idle hq)
    · rw [call_burst b hc] at hrest
      have hturns : irqTurns b (c :: calls) = irqTurns (call b c).2 calls := by
        cases c with
        | takeNextNormal => exact absurd rfl hc
        | _ => rfl
      rw [hturns]
      exact hrest

/-! ## Runs -/

/-- What is exact between two calls: every slot is on one list, the mask and the states say which, the arrays link the lists
from head to tail, and the counters are the numbers of slots. -/
structure Exact (b : Bookkeeping) (w : Work) : Prop where
  places : (w.free ++ (w.queue .irq ++ w.queue .task ++ w.queue .deadline) ++ (w.running ++ w.finished)).Perm
    (List.finRange capacity)
  free : ∀ i, i ∈ w.free ↔ b.states i = .free
  mask : ∀ i, b.freeMask i = true ↔ i ∈ w.free
  queue : ∀ c i, i ∈ w.queue c ↔ b.states i = .queued ∧ b.classes i = c
  running : ∀ i, i ∈ w.running ↔ b.states i = .running
  finished : ∀ i, i ∈ w.finished ↔ b.states i = .completed ∨ b.states i = .cancelled
  lanes : ∀ c, Queue b.queue (b.lanes c) (w.queue c)
  finals : Queue b.finals b.finalEnds w.finished
  counts : Counts b

theorem Good.places (h : Good b w) : (w.free ++ (w.queue .irq ++ w.queue .task ++ w.queue .deadline) ++
    (w.running ++ w.finished)).Perm (List.finRange capacity) := by
  have hfinal : ∀ {i}, i ∈ w.finished → b.states i = .completed ∨ b.states i = .cancelled := fun {i} hi => by
    have hp := (h.finished.mem i).1 hi
    unfold isFinal at hp
    rwa [Bool.or_eq_true, beq_iff_eq, beq_iff_eq] at hp
  have hqueued : ∀ {i}, i ∈ w.queue .irq ++ w.queue .task ++ w.queue .deadline → b.states i = .queued := fun {i} hi => by
    rw [List.mem_append, List.mem_append] at hi
    rcases hi with (hi | hi) | hi
    · exact (h.queue_state hi).1
    · exact (h.queue_state hi).1
    · exact (h.queue_state hi).1
  have hapart : ∀ {c c' : SourceClass}, c ≠ c' → ∀ i ∈ w.queue c, ∀ j ∈ w.queue c', i ≠ j := fun hne i hi j hj hij =>
    hne (h.disjoint _ _ i hi (hij ▸ hj))
  -- lists whose slots are in different states have no slot in common
  have hstates : ∀ {l₁ l₂ : List Slot}, (∀ i ∈ l₁, ∀ j ∈ l₂, b.states i ≠ b.states j) → ∀ i ∈ l₁, ∀ j ∈ l₂, i ≠ j :=
    fun hne i hi j hj hij => hne i hi j hj (congrArg b.states hij)
  have hqueues : (w.queue .irq ++ w.queue .task ++ w.queue .deadline).Nodup := by
    refine List.nodup_append.2 ⟨List.nodup_append.2 ⟨(h.queue _).nodup, (h.queue _).nodup, hapart (by decide)⟩,
      (h.queue _).nodup, fun i hi j hj => ?_⟩
    rcases List.mem_append.1 hi with hi | hi
    · exact hapart (by decide) i hi j hj
    · exact hapart (by decide) i hi j hj
  have hrest : (w.running ++ w.finished).Nodup := by
    refine List.nodup_append.2 ⟨h.running.nodup, h.finished.nodup, hstates (fun i hi j hj => ?_)⟩
    rw [h.running_state hi]
    rcases hfinal hj with hj | hj
    · rw [hj]
      decide
    · rw [hj]
      decide
  have hfront : (w.free ++ (w.queue .irq ++ w.queue .task ++ w.queue .deadline)).Nodup := by
    refine List.nodup_append.2 ⟨h.free.nodup, hqueues, hstates (fun i hi j hj => ?_)⟩
    rw [h.free_state hi, hqueued hj]
    decide
  have hnodup : (w.free ++ (w.queue .irq ++ w.queue .task ++ w.queue .deadline) ++
      (w.running ++ w.finished)).Nodup := by
    refine List.nodup_append.2 ⟨hfront, hrest, hstates (fun i hi j hj => ?_)⟩
    have hi' : b.states i = .free ∨ b.states i = .queued := (List.mem_append.1 hi).imp h.free_state hqueued
    have hj' : b.states j = .running ∨ b.states j = .completed ∨ b.states j = .cancelled :=
      (List.mem_append.1 hj).imp h.running_state hfinal
    intro hij
    rcases hi' with hi' | hi' <;> rcases hj' with hj' | hj' | hj' <;> rw [hi', hj'] at hij <;> cases hij
  refine (List.perm_ext_iff_of_nodup hnodup (List.nodup_finRange _)).2 (fun i => ⟨fun _ => List.mem_finRange i, fun _ => ?_⟩)
  simp only [List.mem_append]
  cases hs : b.states i with
  | free => exact .inl (.inl ((h.free.mem i).2 (by rw [hs]; rfl)))
  | queued =>
    have hi : i ∈ w.queue (b.classes i) := ((h.queue _).mem i).2 (by rw [hs, isQueued_self])
    refine .inl (.inr ?_)
    cases hc : b.classes i with
    | irq => exact .inl (.inl (hc ▸ hi))
    | task => exact .inl (.inr (hc ▸ hi))
    | deadline => exact .inr (hc ▸ hi)
  | running => exact .inr (.inl ((h.running.mem i).2 (by rw [hs]; rfl)))
  | completed => exact .inr (.inr ((h.finished.mem i).2 (by rw [hs]; rfl)))
  | cancelled => exact .inr (.inr ((h.finished.mem i).2 (by rw [hs]; rfl)))

theorem Good.exact (h : Good b w) : Exact b w := by
  refine ⟨h.places, fun i => (h.free.mem i).trans beq_iff_eq, h.mask, fun c i => ?_,
    fun i => (h.running.mem i).trans beq_iff_eq, fun i => ?_, h.lanes, h.finals, h.counts⟩
  · rw [(h.queue c).mem]
    unfold isQueued
    rw [Bool.and_eq_true, beq_iff_eq, beq_iff_eq]
  · rw [h.finished.mem]
    unfold isFinal
    rw [Bool.or_eq_true, beq_iff_eq, beq_iff_eq]

theorem Good.init : Good {} {} where
  free := ⟨List.nodup_finRange _, fun i => ⟨fun _ => rfl, fun _ => List.mem_finRange i⟩⟩
  queue _ := ⟨List.nodup_nil, fun _ => ⟨fun hi => absurd hi List.not_mem_nil, fun hi => absurd hi Bool.false_ne_true⟩⟩
  running := ⟨List.nodup_nil, fun _ => ⟨fun hi => absurd hi List.not_mem_nil, fun hi => absurd hi Bool.false_ne_true⟩⟩
  finished := ⟨List.nodup_nil, fun _ => ⟨fun hi => absurd hi List.not_mem_nil, fun hi => absurd hi Bool.false_ne_true⟩⟩
  lanes _ := Queue.nil _
  finals := Queue.nil _
  mask i := ⟨fun _ => List.mem_finRange i, fun _ => rfl⟩
  counts := by
    refine ⟨by decide, by decide, by decide, by decide, by decide, by decide, fun c => ?_⟩
    cases c <;> decide

/-- The lists are exact before and after every call of a run, and every call moves them as `Does` says. -/
def Follows : Bookkeeping → Work → List Call → Prop
  | b, w, [] => Exact b w
  | b, w, c :: calls => Exact b w ∧ ∃ w', Does w c (call b c).1 w' ∧ Follows (call b c).2 w' calls

theorem Good.follows : ∀ (calls : List Call) {b : Bookkeeping} {w : Work}, Good b w → Follows b w calls
  | [], _, _, h => h.exact
  | c :: calls, _, _, h => by
    obtain ⟨w', hdoes, hgood⟩ := h.step c
    exact ⟨h.exact, w', hdoes, Good.follows calls hgood⟩

/-- **The bookkeeping is exact over every run.**  From the empty bookkeeping, any calls with any arguments move slots between
the lists as `Does` says; and no more than four turns in a row, of those taken while a task is queued, go to irq work. -/
theorem bookkeeping_exact (calls : List Call) : Follows {} {} calls ∧
    ∀ pre mid post, irqTurns {} calls = pre ++ mid ++ post → (∀ x ∈ mid, x = true) → mid.length ≤ 4 := by
  refine ⟨Good.init.follows calls, fun pre mid post hturns hall => ?_⟩
  have hbursts := Good.bursts calls Good.init
  rw [hturns] at hbursts
  exact hbursts.segment pre mid post (Nat.le_refl 4) hall

end DriverWork
end R4
