import R4Recovery.Handoff
import R4Recovery.RxHandoff
import Mathlib.Algebra.BigOperators.Group.Finset.Basic
import Mathlib.Data.List.Forall2
import Mathlib.Tactic.NormNum
/-!
# RxHandoffExact — the receive queue is a handoff

Free stack, ring and slot states are three views of one ownership.  With fewer than 2^32 frames per slot no generation
comes back, so a token that was given back is refused for good; under that condition every run of the queue is a run of
the abstract handoff.
-/
namespace R4
namespace RxHandoff

/-- What a token is recognised by. -/
structure Key where
  slot : Nat
  generation : Nat
  deriving DecidableEq

structure Frame where
  adapterIndex : Nat
  bytes : Bytes
  enqueuedNs : Nat
  metadata : Metadata

abbrev Ledger := Handoff Key Frame

def Claim.key (c : Claim) : Key := ⟨c.slot, c.generation⟩

/-- The token names the frame's adapter, length, time and metadata. -/
structure Claim.Carries (c : Claim) (frame : Frame) : Prop where
  adapterIndex : c.adapterIndex = frame.adapterIndex
  len : c.len = frame.bytes.length
  enqueuedNs : c.enqueuedNs = frame.enqueuedNs
  metadata : c.metadata = frame.metadata

def validFrame (bytes : Bytes) : Prop := 0 < bytes.length ∧ bytes.length ≤ maxFrameBytes

/-- **What a handoff answers to a call, and what it becomes.** -/
inductive Does : Ledger → Call → Answer → Ledger → Prop where
  | invalid {L adapterIndex bytes enqueuedNs metadata} (hbytes : ¬ validFrame bytes) :
    Does L (.enqueueWithMetadata adapterIndex bytes enqueuedNs metadata) (.enqueued .invalidFrame) L
  | busy {L adapterIndex bytes enqueuedNs metadata} (hbytes : validFrame bytes) (hfull : L.occupied = capacity) :
    Does L (.enqueueWithMetadata adapterIndex bytes enqueuedNs metadata) (.enqueued .busy) L
  | accepted {L adapterIndex bytes enqueuedNs metadata} (hbytes : validFrame bytes) (hroom : L.occupied < capacity) :
    Does L (.enqueueWithMetadata adapterIndex bytes enqueuedNs metadata) (.enqueued .accepted)
      (L.accept ⟨adapterIndex, bytes, enqueuedNs, metadata⟩)
  | nothing {L} (hwaiting : L.waiting = []) : Does L .claim (.claimed none) L
  | claimed {L c n frame rest} (hwaiting : L.waiting = (n, frame) :: rest) (hcarries : c.Carries frame)
      (hheld : c.key ∉ L.held.map Prod.fst) (hspent : c.key ∉ L.spent) :
    Does L .claim (.claimed (some c)) (L.claim c.key)
  | framed {L token frame} (hheld : (token.key, frame) ∈ L.held) (hlen : token.len = frame.bytes.length) :
    Does L (.frame token) (.framed (some frame.bytes)) L
  | unframed {L token} (hheld : ∀ frame, (token.key, frame) ∈ L.held → token.len ≠ frame.bytes.length) :
    Does L (.frame token) (.framed none) L
  | released {L token} (hheld : token.key ∈ L.held.map Prod.fst) :
    Does L (.release token) (.released true) (L.release token.key)
  | unreleased {L token} (hheld : token.key ∉ L.held.map Prod.fst) : Does L (.release token) (.released false) L
  | cancelled {L} : Does L .cancelAll (.cancelled L.occupied) L.cancel

/-! ## The queue keeps the handoff -/

structure Slot.Holds (slot : Slot) (frame : Frame) : Prop where
  adapterIndex : slot.adapterIndex = frame.adapterIndex
  len : slot.len = frame.bytes.length
  enqueuedNs : slot.enqueuedNs = frame.enqueuedNs
  metadata : slot.metadata = frame.metadata
  bytes : slot.data.take slot.len = frame.bytes

def heldSlots (L : Ledger) : List Nat := L.held.map (fun h => h.1.slot)

/-- A key that its slot refuses for good. -/
def Refused (slots : Nat → Slot) (k : Key) : Prop :=
  k.generation < (slots k.slot).generation ∨ k.generation = (slots k.slot).generation ∧ (slots k.slot).state = .free

theorem Refused.keeps {slots slots' : Nat → Slot} {k : Key} (hk : Refused slots k)
    (hslot : (slots k.slot).generation < (slots' k.slot).generation ∨
      (slots k.slot).generation = (slots' k.slot).generation ∧ ((slots k.slot).state = .free → (slots' k.slot).state = .free)) :
    Refused slots' k := by
  unfold Refused at hk ⊢
  rcases hk with hk | ⟨hk, hfree⟩
  · exact .inl (by omega)
  · rcases hslot with hslot | ⟨hslot, hstate⟩
    · exact .inl (by omega)
    · exact .inr ⟨by omega, hstate hfree⟩

/-- A slot that waits in the ring with its frame. -/
def Queued (slots : Nat → Slot) (s : Nat) (w : Nat × Frame) : Prop := (slots s).state = .queued ∧ (slots s).Holds w.2

theorem queued_congr {slots slots' : Nat → Slot} : ∀ {l : List Nat} {w : List (Nat × Frame)},
    (∀ i ∈ l, slots' i = slots i) → List.Forall₂ (Queued slots) l w → List.Forall₂ (Queued slots') l w
  | [], [], _, _ => .nil
  | i :: l, w :: ws, heq, h => by
    obtain ⟨hi, hl⟩ := List.forall₂_cons.1 h
    refine .cons ?_ (queued_congr (fun j hj => heq j (List.mem_cons_of_mem _ hj)) hl)
    unfold Queued
    rw [heq i List.mem_cons_self]
    exact hi

/-- The invariant: the three views agree with the handoff, and the counters with its history. -/
structure Tracks (q : Queue) (L : Ledger) : Prop where
  sound : L.Sound
  head_lt : q.readyHead < capacity
  tail : q.readyTail = (q.readyHead + q.readyCount) % capacity
  places : (q.freeStack ++ q.readySlots ++ heldSlots L).Perm (List.range capacity)
  free : ∀ s ∈ q.freeStack, (q.slots s).state = .free
  queued : List.Forall₂ (Queued q.slots) q.readySlots L.waiting
  held : ∀ h ∈ L.held, (q.slots h.1.slot).state = .processing ∧ (q.slots h.1.slot).generation = h.1.generation ∧
    (q.slots h.1.slot).Holds h.2
  spent : ∀ k ∈ L.spent, Refused q.slots k
  total : L.accepted = ∑ s ∈ Finset.range capacity, (q.slots s).generation
  accepted : q.accepted = L.accepted
  claimed : q.claimed = L.claims.length
  released : q.released = L.released
  cancelled : q.cancelled = L.cancelled

namespace Tracks

variable {q : Queue} {L : Ledger}

theorem nodup (h : Tracks q L) : (q.freeStack ++ q.readySlots ++ heldSlots L).Nodup :=
  h.places.nodup_iff.2 List.nodup_range

theorem length (h : Tracks q L) : q.freeCount + q.readyCount + L.held.length = capacity := by
  have hlen := h.places.length_eq
  rw [Nat.add_assoc]
  simpa [Queue.freeStack, Queue.readySlots, Queue.readyRing, heldSlots] using hlen

theorem waiting_length (h : Tracks q L) : L.waiting.length = q.readyCount := by
  rw [← h.queued.length_eq]
  exact Ring.length_contents _ _

theorem occupied (h : Tracks q L) : L.occupied = q.occupiedCount := by
  have := h.length
  have := h.waiting_length
  unfold Handoff.occupied Queue.occupiedCount
  omega

theorem ring_ok (h : Tracks q L) : q.readyRing.Ok capacity :=
  ⟨h.head_lt, by have := h.length; show q.readyCount ≤ capacity; omega⟩

theorem queued_state (h : Tracks q L) {s : Nat} (hs : s ∈ q.readySlots) : (q.slots s).state = .queued := by
  obtain ⟨i, hi, rfl⟩ := List.getElem_of_mem hs
  exact (List.Forall₂.get h.queued hi (h.queued.length_eq ▸ hi)).1

theorem held_of_processing (h : Tracks q L) {s : Nat} (hs : s < capacity) (hstate : (q.slots s).state = .processing) :
    ∃ f, (⟨s, (q.slots s).generation⟩, f) ∈ L.held := by
  have hmem := h.places.mem_iff.2 (List.mem_range.2 hs)
  rcases List.mem_append.1 hmem with hmem | hmem
  · rcases List.mem_append.1 hmem with hmem | hmem
    · rw [h.free s hmem] at hstate
      cases hstate
    · rw [h.queued_state hmem] at hstate
      cases hstate
  · obtain ⟨⟨k, f⟩, he, rfl⟩ := List.mem_map.1 hmem
    refine ⟨f, ?_⟩
    rw [(h.held _ he).2.1]
    exact he

theorem held_lt (h : Tracks q L) {e : Key × Frame} (he : e ∈ L.held) : e.1.slot < capacity :=
  List.mem_range.1 (h.places.mem_iff.1 (List.mem_append_right _ (List.mem_map_of_mem he)))

theorem key_held (h : Tracks q L) (k : Key) : k ∈ L.held.map Prod.fst ↔
    k.slot < capacity ∧ (q.slots k.slot).state = .processing ∧ (q.slots k.slot).generation = k.generation := by
  constructor
  · intro hk
    obtain ⟨e, he, rfl⟩ := List.mem_map.1 hk
    obtain ⟨h1, h2, -⟩ := h.held e he
    exact ⟨h.held_lt he, h1, h2⟩
  · rintro ⟨h1, h2, h3⟩
    obtain ⟨f, hf⟩ := h.held_of_processing h1 h2
    rw [h3] at hf
    exact List.mem_map.2 ⟨_, hf, rfl⟩

theorem update_of_notMem {slots : Nat → Slot} {l : List Nat} {s : Nat} (hs : s ∉ l) (slot : Slot) :
    ∀ i ∈ l, Function.update slots s slot i = slots i := fun _ hi =>
  Function.update_of_ne (fun (he : _ = s) => hs (he ▸ hi)) _ _

theorem sum_update {slots : Nat → Slot} {s : Nat} (hs : s < capacity) (slot : Slot) (k : Nat)
    (hgen : slot.generation = (slots s).generation + k) :
    ∑ i ∈ Finset.range capacity, (Function.update slots s slot i).generation
      = (∑ i ∈ Finset.range capacity, (slots i).generation) + k := by
  have hpoint : ∀ i ∈ Finset.range capacity,
      (Function.update slots s slot i).generation = (slots i).generation + if i = s then k else 0 := by
    intro i _
    by_cases hi : i = s
    · subst hi
      rw [Function.update_self, if_pos rfl, hgen]
    · rw [Function.update_of_ne hi, if_neg hi, Nat.add_zero]
  rw [Finset.sum_congr rfl hpoint, Finset.sum_add_distrib, Finset.sum_ite_eq' _ _ _, if_pos (Finset.mem_range.2 hs)]

theorem wrapAdd_of_lt {a b : Nat} (h : a + b < 2 ^ 64) : wrapAdd a b = a + b := Nat.mod_eq_of_lt h

theorem freeStack_eq (hfree : q.freeCount ≠ 0) :
    q.freeStack = (List.range (q.freeCount - 1)).map q.freeSlots ++ [q.freeSlots (q.freeCount - 1)] := by
  obtain ⟨n, hn⟩ := Nat.exists_eq_succ_of_ne_zero hfree
  unfold Queue.freeStack
  rw [hn, List.range_succ, List.map_append]
  rfl

theorem nextGeneration_eq {g : Nat} (h : g + 1 < 2 ^ 32) : nextGeneration g = g + 1 := by
  unfold nextGeneration
  rw [Nat.mod_eq_of_lt h, if_neg (by omega)]

theorem accepted_le (h : Tracks q L) (hgen : ∀ s < capacity, (q.slots s).generation < 2 ^ 32) : L.accepted ≤ 2 ^ 38 := by
  rw [h.total]
  refine (Finset.sum_le_card_nsmul _ _ (2 ^ 32) (fun s hs => Nat.le_of_lt (hgen s (Finset.mem_range.1 hs)))).trans ?_
  rw [Finset.card_range]
  unfold capacity
  norm_num

variable {adapterIndex enqueuedNs : Nat} {bytes : Bytes} {metadata : Metadata}

theorem admitFrame (h : Tracks q L) (hfree : q.freeCount ≠ 0)
    (hgen : ∀ s < capacity, (q.slots s).generation + (if s = q.freeSlots (q.freeCount - 1) then 1 else 0) < 2 ^ 32) :
    Tracks (q.admitFrame adapterIndex bytes enqueuedNs metadata) (L.accept ⟨adapterIndex, bytes, enqueuedNs, metadata⟩) := by
  generalize hs : q.freeSlots (q.freeCount - 1) = s at hgen
  have hstack := freeStack_eq hfree
  rw [hs] at hstack
  have hnodup := h.nodup
  have hplaces := h.places
  rw [hstack] at hnodup hplaces
  have hlt : s < capacity := List.mem_range.1 (hplaces.mem_iff.1 (by simp))
  have hrest : s ∉ (List.range (q.freeCount - 1)).map q.freeSlots ∧ s ∉ q.readySlots ∧ s ∉ heldSlots L := by
    rw [List.append_assoc, List.append_assoc] at hnodup
    have h1 := (List.nodup_append.1 hnodup).2
    refine ⟨fun hm => h1.2 s hm s (by simp) rfl, ?_⟩
    have h2 : s ∉ q.readySlots ++ heldSlots L := (List.nodup_cons.1 h1.1).1
    exact ⟨fun hm => h2 (List.mem_append_left _ hm), fun hm => h2 (List.mem_append_right _ hm)⟩
  have hgs := hgen s hlt
  rw [if_pos rfl] at hgs
  have hnext := nextGeneration_eq hgs
  have hbound := h.accepted_le (fun i hi => by have := hgen i hi; omega)
  -- the ring takes the slot behind the others
  have hready : (q.admitFrame adapterIndex bytes enqueuedNs metadata).readySlots = q.readySlots ++ [s] := by
    have hlen := h.length
    have happ := Ring.contents_append_one h.ring_ok (show q.readyCount < capacity by omega) s
    show (Ring.contents capacity ⟨Function.update q.ready q.readyTail (q.freeSlots (q.freeCount - 1)), q.readyHead,
      q.readyCount + 1⟩) = _
    rw [hs, h.tail]
    exact happ
  have hfreeStack : (q.admitFrame adapterIndex bytes enqueuedNs metadata).freeStack
      = (List.range (q.freeCount - 1)).map q.freeSlots := rfl
  have hslots : (q.admitFrame adapterIndex bytes enqueuedNs metadata).slots = Function.update q.slots s
      { state := .queued, generation := (q.slots s).generation + 1, adapterIndex := adapterIndex, len := bytes.length,
        enqueuedNs := enqueuedNs, metadata := metadata, data := bytes ++ (q.slots s).data.drop bytes.length } := by
    rw [← hnext, ← hs]
    rfl
  generalize hq' : q.admitFrame adapterIndex bytes enqueuedNs metadata = q' at hready hfreeStack hslots
  refine ⟨h.sound.accept _, ?_, ?_, ?_, ?_, ?_, ?_, ?_, ?_, ?_, ?_, ?_, ?_⟩
  · rw [← hq']
    exact h.head_lt
  · rw [← hq']
    show (q.readyTail + 1) % capacity = (q.readyHead + (q.readyCount + 1)) % capacity
    rw [h.tail, Nat.mod_add_mod, Nat.add_assoc]
  · rw [hready, hfreeStack]
    refine List.Perm.trans ?_ hplaces
    refine List.Perm.append_right _ ?_
    rw [List.append_assoc]
    exact List.Perm.append_left _ List.perm_append_comm
  · intro i hi
    rw [hfreeStack] at hi
    rw [hslots, update_of_notMem hrest.1 _ i hi]
    exact h.free i (hstack ▸ List.mem_append_left _ hi)
  · rw [hready, hslots]
    refine List.rel_append (queued_congr (update_of_notMem hrest.2.1 _) h.queued) (.cons ⟨?_, ?_⟩ .nil)
    · rw [Function.update_self]
    · rw [Function.update_self]
      exact ⟨rfl, rfl, rfl, rfl, List.take_left⟩
  · intro e he
    rw [hslots, update_of_notMem hrest.2.2 _ e.1.slot (List.mem_map_of_mem he)]
    exact h.held e he
  · intro k hk
    refine (h.spent k hk).keeps ?_
    rw [hslots]
    by_cases hks : k.slot = s
    · rw [hks, Function.update_self]
      exact .inl (Nat.lt_succ_self _)
    · rw [Function.update_of_ne hks]
      exact .inr ⟨rfl, id⟩
  · rw [hslots, sum_update hlt _ 1 rfl, ← h.total]
    rfl
  · rw [← hq']
    show wrapAdd q.accepted 1 = L.accepted + 1
    rw [h.accepted, wrapAdd_of_lt (by omega)]
  · rw [← hq']
    exact h.claimed
  · rw [← hq']
    exact h.released
  · rw [← hq']
    exact h.cancelled

theorem not_refused {slots : Nat → Slot} {s : Nat} (hstate : (slots s).state ≠ .free) :
    ¬ Refused slots ⟨s, (slots s).generation⟩ := by
  rintro (hk | ⟨-, hk⟩)
  · exact Nat.lt_irrefl _ hk
  · exact hstate hk

theorem claim_eq {s : Nat} (hready : q.readyCount ≠ 0) (hs : q.ready q.readyHead = s) (hstate : (q.slots s).state = .queued) :
    q.claim = (some ((q.slots s).token s),
      { q with
        readyHead := (q.readyHead + 1) % capacity
        readyCount := q.readyCount - 1
        slots := Function.update q.slots s (q.slots s).process
        claimed := wrapAdd q.claimed 1 }) := by
  unfold Queue.claim
  rw [if_neg hready]
  simp only [hs]
  rw [if_neg (not_not.2 hstate)]

theorem claim (h : Tracks q L) (hready : q.readyCount ≠ 0)
    (hgen : ∀ s < capacity, (q.slots s).generation < 2 ^ 32) :
    ∃ c n frame rest q', q.claim = (some c, q') ∧ L.waiting = (n, frame) :: rest ∧ c.Carries frame ∧
      c.key ∉ L.held.map Prod.fst ∧ c.key ∉ L.spent ∧ Tracks q' (L.claim c.key) ∧
      ∀ s, (q'.slots s).generation = (q.slots s).generation := by
  have hhead := Ring.contents_head h.ring_ok (Nat.pos_of_ne_zero hready)
  generalize hs : q.ready q.readyHead = s
  obtain ⟨tail, htail⟩ : ∃ tail, tail = Ring.contents capacity
    { cells := q.ready, head := (q.readyHead + 1) % capacity, len := q.readyCount - 1 } := ⟨_, rfl⟩
  have hsplit : q.readySlots = s :: tail := by
    rw [htail, ← hs]
    exact hhead
  have hqueued := h.queued
  rw [hsplit] at hqueued
  obtain ⟨⟨n, frame⟩, rest, ⟨hstate, hholds⟩, hrest, hw⟩ := List.forall₂_cons_left_iff.1 hqueued
  have hplaces := h.places
  have hnodup := h.nodup
  rw [hsplit] at hplaces hnodup
  have hlt : s < capacity := List.mem_range.1 (hplaces.mem_iff.1 (by simp))
  have hne : (q.slots s).state ≠ .free := by rw [hstate]; decide
  have hheld : ((q.slots s).token s).key ∉ L.held.map Prod.fst := fun hk => by
    have hp : (q.slots s).state = .processing := ((h.key_held _).1 hk).2.1
    rw [hstate] at hp
    cases hp
  have hspent : ((q.slots s).token s).key ∉ L.spent := fun hk => not_refused hne (h.spent _ hk)
  have hout : s ∉ q.freeStack ∧ s ∉ tail ∧ s ∉ heldSlots L := by
    rw [List.append_assoc] at hnodup
    have h1 := List.nodup_append.1 hnodup
    have h2 : s ∉ tail ++ heldSlots L := (List.nodup_cons.1 h1.2.1).1
    exact ⟨fun hm => h1.2.2 s hm s (by simp) rfl, fun hm => h2 (List.mem_append_left _ hm),
      fun hm => h2 (List.mem_append_right _ hm)⟩
  have hcount := h.sound.claims_length_le
  have hbound := h.accepted_le hgen
  have hsound := h.sound.claim hheld hspent
  refine ⟨_, n, frame, rest, _, claim_eq hready hs hstate, hw,
    ⟨hholds.adapterIndex, hholds.len, hholds.enqueuedNs, hholds.metadata⟩, hheld, hspent, ?_, fun i => ?_⟩
  · generalize hk : ((q.slots s).token s).key = k at hsound
    have hL : L.claim k = { L with waiting := rest, held := (k, frame) :: L.held, claims := L.claims ++ [n] } := by
      unfold Handoff.claim
      rw [hw]
    rw [hL] at hsound ⊢
    have hslot : k.slot = s := hk ▸ rfl
    refine ⟨hsound, Nat.mod_lt _ (by decide), ?_, ?_, ?_, ?_, ?_, ?_, ?_, h.accepted, ?_, h.released, h.cancelled⟩
    · show q.readyTail = ((q.readyHead + 1) % capacity + (q.readyCount - 1)) % capacity
      rw [h.tail, Nat.mod_add_mod]
      congr 1
      omega
    · show (q.freeStack ++ Ring.contents capacity ⟨q.ready, (q.readyHead + 1) % capacity, q.readyCount - 1⟩
        ++ k.slot :: heldSlots L).Perm _
      rw [← htail, hslot]
      refine List.Perm.trans ?_ hplaces
      rw [List.append_assoc, List.append_assoc]
      exact List.Perm.append_left _ List.perm_middle
    · intro i hi
      have hi' : i ∈ q.freeStack := hi
      show (Function.update q.slots s _ i).state = .free
      rw [update_of_notMem hout.1 _ i hi']
      exact h.free i hi'
    · show List.Forall₂ (Queued (Function.update q.slots s _))
        (Ring.contents capacity ⟨q.ready, (q.readyHead + 1) % capacity, q.readyCount - 1⟩) rest
      rw [← htail]
      exact queued_congr (update_of_notMem hout.2.1 _) hrest
    · intro e he
      show (Function.update q.slots s _ e.1.slot).state = _ ∧ (Function.update q.slots s _ e.1.slot).generation = _ ∧
        (Function.update q.slots s _ e.1.slot).Holds e.2
      rcases List.mem_cons.1 he with rfl | he
      · rw [hslot, Function.update_self]
        exact ⟨rfl, hk ▸ rfl, ⟨hholds.1, hholds.2, hholds.3, hholds.4, hholds.5⟩⟩
      · rw [update_of_notMem hout.2.2 _ e.1.slot (List.mem_map_of_mem he)]
        exact h.held e he
    · intro k' hk'
      refine (h.spent k' hk').keeps ?_
      show _ < (Function.update q.slots s _ k'.slot).generation ∨ _ = (Function.update q.slots s _ k'.slot).generation ∧
        (_ → (Function.update q.slots s _ k'.slot).state = .free)
      by_cases hks : k'.slot = s
      · rw [hks, Function.update_self]
        exact .inr ⟨rfl, fun hf => absurd hf hne⟩
      · rw [Function.update_of_ne hks]
        exact .inr ⟨rfl, id⟩
    · show L.accepted = ∑ i ∈ Finset.range capacity, (Function.update q.slots s (q.slots s).process i).generation
      rw [sum_update hlt (q.slots s).process 0 rfl, ← h.total, Nat.add_zero]
    · show wrapAdd q.claimed 1 = (L.claims ++ [n]).length
      rw [h.claimed, wrapAdd_of_lt (by omega), List.length_append]
      rfl
  · show (Function.update q.slots s _ i).generation = _
    by_cases hi : i = s
    · rw [hi, Function.update_self]
      rfl
    · rw [Function.update_of_ne hi]

theorem release_eq {token : Claim} (hlt : token.slot < capacity) (hstate : (q.slots token.slot).state = .processing)
    (hgen : (q.slots token.slot).generation = token.generation) :
    q.release token = (true,
      { q with
        slots := Function.update q.slots token.slot (q.slots token.slot).clear
        freeSlots := Function.update q.freeSlots q.freeCount token.slot
        freeCount := q.freeCount + 1
        released := wrapAdd q.released 1 }) := by
  unfold Queue.release
  rw [if_neg (by omega)]
  simp only [hstate, hgen]
  simp

theorem heldSlots_release (h : Tracks q L) {k : Key} {frame : Frame} (hk : (k, frame) ∈ L.held) :
    (k.slot :: heldSlots (L.release k)).Perm (heldSlots L) := by
  have hnodup : (heldSlots L).Nodup := (List.nodup_append.1 h.nodup).2.1
  have hfilter : ∀ held : List (Key × Frame), (held.map (fun e => e.1.slot)).Nodup → (k, frame) ∈ held →
      (k.slot :: (held.filter (fun e => e.1 ≠ k)).map (fun e => e.1.slot)).Perm (held.map (fun e => e.1.slot)) := by
    intro held hn hmem
    obtain ⟨as, bs, rfl⟩ := List.append_of_mem hmem
    have hother : ∀ e ∈ as ++ bs, e.1 ≠ k := by
      intro e he heq
      rw [List.map_append, List.map_cons, List.nodup_middle, ← List.map_append] at hn
      exact (List.nodup_cons.1 hn).1 (List.mem_map.2 ⟨e, he, by rw [heq]⟩)
    rw [List.filter_append, List.filter_cons_of_neg (by simp), ← List.filter_append,
      List.filter_eq_self.2 (fun e he => by simpa using hother e he), List.map_append, List.map_append, List.map_cons]
    exact List.perm_middle.symm
  exact hfilter L.held hnodup hk

theorem release (h : Tracks q L) {token : Claim} (hkey : token.key ∈ L.held.map Prod.fst)
    (hgen : ∀ s < capacity, (q.slots s).generation < 2 ^ 32) :
    ∃ q', q.release token = (true, q') ∧ Tracks q' (L.release token.key) ∧
      ∀ s, (q'.slots s).generation = (q.slots s).generation := by
  obtain ⟨hlt, hstate, hg⟩ := (h.key_held _).1 hkey
  have hheq := release_eq hlt hstate hg
  generalize hs : token.slot = s at hheq
  generalize hk : token.key = k at *
  have hks : k.slot = s := by
    rw [← hk, ← hs]
    rfl
  rw [hks] at hlt hstate hg
  obtain ⟨⟨k', frame⟩, hmem, hkk⟩ := List.mem_map.1 hkey
  have hkk' : k' = k := hkk
  rw [hkk'] at hmem
  have hperm := h.heldSlots_release hmem
  rw [hks] at hperm
  have hplaces := h.places.symm.trans (List.Perm.append_left _ hperm.symm)
  have hnodup := (hplaces.nodup_iff.1 List.nodup_range)
  have hout : s ∉ q.freeStack ∧ s ∉ q.readySlots ∧ s ∉ heldSlots (L.release k) := by
    have h1 := List.nodup_append.1 hnodup
    exact ⟨fun hm => h1.2.2 s (List.mem_append_left _ hm) s List.mem_cons_self rfl,
      fun hm => h1.2.2 s (List.mem_append_right _ hm) s List.mem_cons_self rfl, (List.nodup_cons.1 h1.2.1).1⟩
  have hbound := h.accepted_le hgen
  have hbalance := h.sound.balance
  have hsound := h.sound.release hkey
  have hstack : (List.range (q.freeCount + 1)).map (Function.update q.freeSlots q.freeCount s) = q.freeStack ++ [s] := by
    rw [List.range_succ, List.map_append, List.map_singleton, Function.update_self]
    refine congrArg (· ++ [s]) (List.map_congr_left (fun i hi => ?_))
    exact Function.update_of_ne (Nat.ne_of_lt (List.mem_range.1 hi)) _ _
  refine ⟨_, hheq, ⟨hsound, h.head_lt, h.tail, ?_, ?_, ?_, ?_, ?_, ?_, h.accepted, h.claimed, ?_, h.cancelled⟩, fun i => ?_⟩
  · show ((List.range (q.freeCount + 1)).map (Function.update q.freeSlots q.freeCount s) ++ q.readySlots
      ++ heldSlots (L.release k)).Perm _
    rw [hstack]
    refine List.Perm.trans ?_ hplaces.symm
    rw [List.append_assoc, List.append_assoc, List.append_assoc, List.singleton_append]
    exact List.Perm.append_left _ List.perm_middle.symm
  · intro i hi
    show (Function.update q.slots s _ i).state = .free
    have hi' : i ∈ q.freeStack ++ [s] := hstack ▸ hi
    rcases List.mem_append.1 hi' with hi' | hi'
    · rw [update_of_notMem hout.1 _ i hi']
      exact h.free i hi'
    · obtain rfl := List.mem_singleton.1 hi'
      rw [Function.update_self]
      rfl
  · exact queued_congr (update_of_notMem hout.2.1 _) h.queued
  · intro e he
    show (Function.update q.slots s _ e.1.slot).state = _ ∧ (Function.update q.slots s _ e.1.slot).generation = _ ∧
      (Function.update q.slots s _ e.1.slot).Holds e.2
    rw [update_of_notMem hout.2.2 _ e.1.slot (List.mem_map_of_mem he)]
    exact h.held e (List.mem_filter.1 he).1
  · intro k' hk'
    show Refused (Function.update q.slots s (q.slots s).clear) k'
    rcases List.mem_cons.1 hk' with rfl | hk'
    · refine .inr ?_
      rw [hks, Function.update_self]
      exact ⟨hg.symm, rfl⟩
    · refine (h.spent k' hk').keeps ?_
      by_cases hks' : k'.slot = s
      · rw [hks', Function.update_self]
        exact .inr ⟨rfl, fun _ => rfl⟩
      · rw [Function.update_of_ne hks']
        exact .inr ⟨rfl, id⟩
  · show L.accepted = ∑ i ∈ Finset.range capacity, (Function.update q.slots s (q.slots s).clear i).generation
    rw [sum_update hlt (q.slots s).clear 0 rfl, ← h.total, Nat.add_zero]
  · show wrapAdd q.released 1 = L.released + 1
    rw [h.released, wrapAdd_of_lt (by omega)]
  · show (Function.update q.slots s (q.slots s).clear i).generation = _
    by_cases hi : i = s
    · rw [hi, Function.update_self]
      rfl
    · rw [Function.update_of_ne hi]

theorem resetStorage_places (q : Queue) : (q.resetStorage.freeStack ++ q.resetStorage.readySlots).Perm (List.range capacity) := by
  have hstack : q.resetStorage.freeStack = List.range capacity := List.map_id' _
  rw [hstack, show q.resetStorage.readySlots = [] from rfl, List.append_nil]

theorem cancelAll (h : Tracks q L) (hgen : ∀ s < capacity, (q.slots s).generation < 2 ^ 32) :
    q.cancelAll.1 = L.occupied ∧ Tracks q.cancelAll.2 L.cancel ∧
      ∀ s, (q.cancelAll.2.slots s).generation = (q.slots s).generation := by
  have hbound := h.accepted_le hgen
  have hbalance := h.sound.balance
  refine ⟨h.occupied.symm, ⟨h.sound.cancel, (by decide : 0 < capacity), rfl, ?_, fun _ _ => rfl, List.Forall₂.nil, ?_, ?_, h.total,
    h.accepted, h.claimed, h.released, ?_⟩, fun _ => rfl⟩
  · show (q.cancelAll.2.freeStack ++ q.cancelAll.2.readySlots ++ []).Perm _
    rw [List.append_nil]
    exact resetStorage_places _
  · exact fun _ he => absurd he List.not_mem_nil
  · intro k hk
    rcases List.mem_append.1 hk with hk | hk
    · exact .inr ⟨((h.key_held k).1 hk).2.2.symm, rfl⟩
    · exact (h.spent k hk).keeps (.inr ⟨rfl, fun _ => rfl⟩)
  · show wrapAdd q.cancelled q.occupiedCount = L.cancelled + L.occupied
    rw [h.cancelled, ← h.occupied, wrapAdd_of_lt (by omega)]

theorem reset (q : Queue) : Tracks q.reset {} where
  sound := Handoff.sound_empty
  head_lt := (by decide : 0 < capacity)
  tail := rfl
  places := by
    show (q.reset.freeStack ++ q.reset.readySlots ++ []).Perm _
    rw [List.append_nil]
    exact resetStorage_places _
  free := fun _ _ => rfl
  queued := List.Forall₂.nil
  held := fun _ he => absurd he List.not_mem_nil
  spent := fun _ hk => absurd hk List.not_mem_nil
  total := (Finset.sum_eq_zero (fun _ _ => rfl)).symm
  accepted := rfl
  claimed := rfl
  released := rfl
  cancelled := rfl

theorem frame_eq (h : Tracks q L) {k : Key} {frame : Frame} (hk : (k, frame) ∈ L.held) {token : Claim} (htoken : token.key = k)
    (hlen : token.len = frame.bytes.length) : q.frame token = some frame.bytes := by
  subst htoken
  obtain ⟨hstate, hgen, hholds⟩ := h.held _ hk
  have hlt : token.slot < capacity := h.held_lt hk
  unfold Queue.frame
  rw [if_neg (Nat.not_le.2 hlt)]
  refine (if_neg ?_).trans (congrArg some hholds.bytes)
  rintro (h1 | h1 | h1)
  · exact h1 hstate
  · exact h1 hgen
  · exact h1 (hholds.len.trans hlen.symm)

theorem frame_none (h : Tracks q L) {token : Claim}
    (hk : ∀ frame, (token.key, frame) ∈ L.held → token.len ≠ frame.bytes.length) : q.frame token = none := by
  unfold Queue.frame
  split
  · rfl
  · rename_i hlt
    refine if_pos ?_
    by_contra hno
    push Not at hno
    obtain ⟨h1, h2, h3⟩ := hno
    obtain ⟨frame, hf⟩ := h.held_of_processing (Nat.not_le.1 hlt) h1
    rw [h2] at hf
    exact hk frame hf (h3.symm.trans (h.held _ hf).2.2.len)

theorem release_none (h : Tracks q L) {token : Claim} (hk : token.key ∉ L.held.map Prod.fst) :
    q.release token = (false, q) := by
  unfold Queue.release
  split
  · rfl
  · rename_i hlt
    refine if_pos ?_
    by_contra hno
    push Not at hno
    exact hk ((h.key_held token.key).2 ⟨Nat.not_le.1 hlt, hno.1, hno.2⟩)

/-- **One call answers as the handoff does and keeps the invariant.** -/
theorem step (h : Tracks q L) (c : Call)
    (hgen : ∀ s < capacity, (q.slots s).generation + (if landing q c = some s then 1 else 0) < 2 ^ 32) :
    ∃ L', Does L c (call q c).1 L' ∧ Tracks (call q c).2 L' ∧
      ∀ s < capacity, ((call q c).2.slots s).generation
        = (q.slots s).generation + if landing q c = some s then 1 else 0 := by
  have hlow : ∀ s < capacity, (q.slots s).generation < 2 ^ 32 := fun s hs => Nat.lt_of_le_of_lt (Nat.le_add_right _ _) (hgen s hs)
  have hstay : ∀ {a q'}, call q c = (a, q') → a ≠ .enqueued .accepted →
      (∀ s, (q'.slots s).generation = (q.slots s).generation) → ∀ s < capacity, ((call q c).2.slots s).generation
        = (q.slots s).generation + if landing q c = some s then 1 else 0 := by
    intro a q' hcall ha hsame s _
    have hland : landing q c = none := by
      unfold landing
      rw [hcall, if_neg ha]
    rw [hcall, hland, hsame s]
    rfl
  cases c with
  | enqueueWithMetadata adapterIndex bytes enqueuedNs metadata =>
    by_cases hb : validFrame bytes
    · have hb' : ¬ (bytes.length = 0 ∨ maxFrameBytes < bytes.length) := by
        unfold validFrame at hb
        omega
      by_cases hf : q.freeCount = 0
      · have hcall : call q (.enqueueWithMetadata adapterIndex bytes enqueuedNs metadata)
            = (.enqueued .busy, { q with busy := wrapAdd q.busy 1 }) := by
          simp only [call, Queue.enqueueWithMetadata, if_neg hb', if_pos hf]
        refine ⟨L, ?_, ?_, hstay hcall (by decide) (fun _ => rfl)⟩
        · rw [hcall]
          refine .busy hb (h.occupied.trans ?_)
          unfold Queue.occupiedCount
          rw [hf]
          rfl
        · rw [hcall]
          exact ⟨h.sound, h.head_lt, h.tail, h.places, h.free, h.queued, h.held, h.spent, h.total, h.accepted, h.claimed,
            h.released, h.cancelled⟩
      · have hcall : call q (.enqueueWithMetadata adapterIndex bytes enqueuedNs metadata)
            = (.enqueued .accepted, q.admitFrame adapterIndex bytes enqueuedNs metadata) := by
          simp only [call, Queue.enqueueWithMetadata, if_neg hb', if_neg hf]
        have hland : landing q (.enqueueWithMetadata adapterIndex bytes enqueuedNs metadata)
            = some (q.freeSlots (q.freeCount - 1)) := by
          unfold landing
          rw [hcall]
          rfl
        rw [hland] at hgen ⊢
        have hgen' : ∀ s < capacity, (q.slots s).generation
            + (if s = q.freeSlots (q.freeCount - 1) then 1 else 0) < 2 ^ 32 := by
          intro s hs
          have hg := hgen s hs
          simp only [Option.some.injEq, eq_comm (b := s)] at hg
          exact hg
        refine ⟨L.accept ⟨adapterIndex, bytes, enqueuedNs, metadata⟩, ?_, ?_, ?_⟩
        · rw [hcall]
          refine .accepted hb ?_
          have hlen := h.length
          have hw := h.waiting_length
          unfold Handoff.occupied
          omega
        · rw [hcall]
          exact h.admitFrame hf hgen'
        · intro s hs
          rw [hcall]
          show (Function.update q.slots (q.freeSlots (q.freeCount - 1)) _ s).generation = _
          by_cases hss : s = q.freeSlots (q.freeCount - 1)
          · have hg := hgen' s hs
            rw [if_pos hss] at hg
            rw [← hss, Function.update_self, if_pos rfl]
            exact nextGeneration_eq hg
          · rw [Function.update_of_ne hss, if_neg (fun he => hss (Option.some.inj he).symm), Nat.add_zero]
    · have hcall : call q (.enqueueWithMetadata adapterIndex bytes enqueuedNs metadata) = (.enqueued .invalidFrame, q) := by
        have hb' : bytes.length = 0 ∨ maxFrameBytes < bytes.length := by
          unfold validFrame at hb
          omega
        simp only [call, Queue.enqueueWithMetadata, if_pos hb']
      refine ⟨L, ?_, ?_, hstay hcall (by decide) (fun _ => rfl)⟩
      · rw [hcall]
        exact .invalid hb
      · rw [hcall]
        exact h
  | claim =>
    by_cases hr : q.readyCount = 0
    · have hcall : call q .claim = (.claimed none, q) := by
        simp only [call, Queue.claim, if_pos hr]
      refine ⟨L, ?_, ?_, hstay hcall (by decide) (fun _ => rfl)⟩
      · rw [hcall]
        exact .nothing (List.eq_nil_of_length_eq_zero (h.waiting_length.trans hr))
      · rw [hcall]
        exact h
    · obtain ⟨c, n, frame, rest, q', hclaim, hw, hcarries, hheld, hspent, htracks, hsame⟩ := h.claim hr hlow
      have hcall : call q .claim = (.claimed (some c), q') := by
        simp only [call, hclaim]
      refine ⟨L.claim c.key, ?_, ?_, hstay hcall (by simp) hsame⟩
      · rw [hcall]
        exact .claimed hw hcarries hheld hspent
      · rw [hcall]
        exact htracks
  | frame token =>
    refine ⟨L, ?_, h, hstay rfl (by simp) (fun _ => rfl)⟩
    by_cases hk : ∃ frame, (token.key, frame) ∈ L.held ∧ token.len = frame.bytes.length
    · obtain ⟨frame, hk, hlen⟩ := hk
      show Does L (.frame token) (.framed (q.frame token)) L
      rw [h.frame_eq hk rfl hlen]
      exact .framed hk hlen
    · have hk' : ∀ frame, (token.key, frame) ∈ L.held → token.len ≠ frame.bytes.length :=
        fun frame hf hlen => hk ⟨frame, hf, hlen⟩
      show Does L (.frame token) (.framed (q.frame token)) L
      rw [h.frame_none hk']
      exact .unframed hk'
  | release token =>
    by_cases hk : token.key ∈ L.held.map Prod.fst
    · obtain ⟨q', hrel, htracks, hsame⟩ := h.release hk hlow
      have hcall : call q (.release token) = (.released true, q') := by
        simp only [call, hrel]
      refine ⟨L.release token.key, ?_, ?_, hstay hcall (by simp) hsame⟩
      · rw [hcall]
        exact .released hk
      · rw [hcall]
        exact htracks
    · have hcall : call q (.release token) = (.released false, q) := by
        simp only [call, h.release_none hk]
      refine ⟨L, ?_, ?_, hstay hcall (by simp) (fun _ => rfl)⟩
      · rw [hcall]
        exact .unreleased hk
      · rw [hcall]
        exact h
  | cancelAll =>
    obtain ⟨hcount, htracks, hsame⟩ := h.cancelAll hlow
    refine ⟨L.cancel, ?_, htracks, hstay rfl (by simp) hsame⟩
    show Does L .cancelAll (.cancelled q.cancelAll.1) L.cancel
    rw [hcount]
    exact .cancelled

end Tracks

/-! ## Runs -/

/-- What is exact between two calls: the handoff's own books, the three views of the slots, the counters, the frames of
the tokens held and the refusal of the tokens spent. -/
structure Exact (q : Queue) (L : Ledger) : Prop where
  sound : L.Sound
  places : (q.freeStack ++ q.readySlots ++ heldSlots L).Perm (List.range capacity)
  free : ∀ s ∈ q.freeStack, (q.slots s).state = .free
  queued : ∀ s ∈ q.readySlots, (q.slots s).state = .queued
  processing : ∀ s ∈ heldSlots L, (q.slots s).state = .processing
  accepted : q.accepted = L.accepted
  claimed : q.claimed = L.claims.length
  balance : q.accepted = q.released + q.cancelled + q.occupiedCount
  frame : ∀ h ∈ L.held, ∀ token : Claim, token.key = h.1 → token.Carries h.2 → q.frame token = some h.2.bytes
  refused : ∀ token : Claim, token.key ∈ L.spent → q.frame token = none ∧ q.release token = (false, q)

theorem Tracks.exact {q : Queue} {L : Ledger} (h : Tracks q L) : Exact q L where
  sound := h.sound
  places := h.places
  free := h.free
  queued := fun _ => h.queued_state
  processing := fun s hs => by
    obtain ⟨e, he, rfl⟩ := List.mem_map.1 hs
    exact (h.held e he).1
  accepted := h.accepted
  claimed := h.claimed
  balance := by
    have hb := h.sound.balance
    rw [h.occupied] at hb
    rw [h.accepted, h.released, h.cancelled, hb]
  frame := fun _ he _ htoken hcarries => h.frame_eq he htoken hcarries.len
  refused := fun token hspent => by
    have hk : token.key ∉ L.held.map Prod.fst := fun hk => by
      obtain ⟨e, he, heq⟩ := List.mem_map.1 hk
      exact h.sound.keys_live e he (heq ▸ hspent)
    exact ⟨h.frame_none (fun frame hf => absurd (List.mem_map.2 ⟨_, hf, rfl⟩) hk), h.release_none hk⟩

/-- The queue answers every call as the handoff does, from the ledger on; what is spent stays spent. -/
def Follows : Queue → Ledger → List Call → Prop
  | q, L, [] => Exact q L
  | q, L, c :: calls =>
    Exact q L ∧ ∃ L', Does L c (call q c).1 L' ∧ (∀ k ∈ L.spent, k ∈ L'.spent) ∧ Follows (call q c).2 L' calls

theorem Does.spent {L L' : Ledger} {c : Call} {a : Answer} (hd : Does L c a L') : ∀ k ∈ L.spent, k ∈ L'.spent := by
  cases hd with
  | invalid => exact fun _ => id
  | busy => exact fun _ => id
  | accepted => exact fun _ => id
  | nothing => exact fun _ => id
  | claimed hw =>
    unfold Handoff.claim
    rw [hw]
    exact fun _ => id
  | framed => exact fun _ => id
  | unframed => exact fun _ => id
  | released => exact fun _ => List.mem_cons_of_mem _
  | unreleased => exact fun _ => id
  | cancelled => exact fun _ => List.mem_append_right _

theorem Tracks.follows : ∀ (calls : List Call) {q : Queue} {L : Ledger}, Tracks q L →
    (∀ s < capacity, (q.slots s).generation + accepts q calls s < 2 ^ 32) → Follows q L calls
  | [], _, _, h, _ => h.exact
  | c :: calls, q, L, h, hwear => by
    have hgen : ∀ s < capacity, (q.slots s).generation + (if landing q c = some s then 1 else 0) < 2 ^ 32 := by
      intro s hs
      have hw := hwear s hs
      unfold accepts at hw
      omega
    obtain ⟨L', hdoes, htracks, hgens⟩ := h.step c hgen
    refine ⟨h.exact, L', hdoes, hdoes.spent, Tracks.follows calls htracks (fun s hs => ?_)⟩
    have hw := hwear s hs
    unfold accepts at hw
    rw [hgens s hs]
    omega

theorem accepts_le : ∀ (calls : List Call) (q : Queue) (s : Nat), accepts q calls s ≤ calls.length
  | [], _, _ => Nat.le_refl _
  | c :: calls, q, s => by
    have ih := accepts_le calls (call q c).2 s
    unfold accepts
    rw [List.length_cons]
    split <;> omega

/-- **Every run of the receive queue is a run of the handoff**: after a reset, with fewer than 2^32 frames accepted into
each slot. -/
theorem handoff_exact (q : Queue) (calls : List Call) (hwear : ∀ s < capacity, accepts q.reset calls s < 2 ^ 32) :
    Follows q.reset {} calls :=
  (Tracks.reset q).follows calls (fun s hs => by
    have hzero : (q.reset.slots s).generation = 0 := rfl
    rw [hzero, Nat.zero_add]
    exact hwear s hs)

/-- A frame is claimed, the storage is cancelled under the claim, and the next frame goes into the same slot. -/
def sampleCalls : List Call :=
  [.enqueueWithMetadata 2 [1, 2, 3] 11 {}, .claim, .cancelAll, .enqueueWithMetadata 4 [9] 12 {}, .claim,
    .release ⟨63, 1, 2, 3, 11, {}⟩, .frame ⟨63, 2, 4, 1, 12, {}⟩]

theorem handoff_sample : Follows (Queue.reset {}) {} sampleCalls :=
  handoff_exact {} sampleCalls (fun s _ => Nat.lt_of_le_of_lt (accepts_le sampleCalls _ s) (by decide))

end RxHandoff
end R4
