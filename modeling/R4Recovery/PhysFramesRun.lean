import R4Recovery.PhysFramesExact
/-!
# PhysFramesRun — runs of the frame allocator

A run of calls with any arguments, and the frames that were handed out and not given back.  What a call hands out was clear
and is held by nobody; the allocator is right in every state reached exactly when none of them is `Missed`.
-/
namespace R4
namespace Phys

open Bitmap BitScan

inductive Call where
  | allocFrame
  | allocFrameExtent (maxCount : Nat)
  | allocContiguousFrames (count : Nat)
  | allocContiguousFramesBelow (count maxPhysAddr : Nat)
  | freeFrame (addr : Nat)
  | freeFrameExtent (extent : FrameExtent)
  | freeContiguousFrames (addr count : Nat)
  deriving DecidableEq, Repr

def FrameExtent.frames (e : FrameExtent) : Finset Nat := Finset.Ico (e.base / frameSize) (e.base / frameSize + e.count)

namespace State

/-- The extent that a call hands out, and the state after the call. -/
def call (s : State) : Call → Option FrameExtent × State
  | .allocFrame => (s.allocFrame.1.map (⟨·, 1⟩), s.allocFrame.2)
  | .allocFrameExtent maxCount => s.allocFrameExtent maxCount
  | .allocContiguousFrames count => ((s.allocContiguousFrames count).1.map (⟨·, count⟩), (s.allocContiguousFrames count).2)
  | .allocContiguousFramesBelow count maxPhysAddr =>
    ((s.allocContiguousFramesBelow count maxPhysAddr).1.map (⟨·, count⟩), (s.allocContiguousFramesBelow count maxPhysAddr).2)
  | .freeFrame addr => (none, s.freeFrame addr)
  | .freeFrameExtent extent => (none, s.freeFrameExtent extent)
  | .freeContiguousFrames addr count => (none, s.freeContiguousFrames addr count)

def handed (s : State) (c : Call) : Finset Nat := (s.call c).1.elim ∅ FrameExtent.frames

/-- The frames of an aligned range inside the frames. -/
def range (s : State) (addr count : Nat) : Finset Nat :=
  if addr % frameSize = 0 ∧ addr / frameSize + count ≤ s.totalFrames then
    Finset.Ico (addr / frameSize) (addr / frameSize + count)
  else ∅

/-- The frames that a call gives back; a range that is not aligned or not inside is not given back. -/
def returned (s : State) : Call → Finset Nat
  | .freeFrame addr => s.range addr 1
  | .freeFrameExtent extent => s.range extent.base extent.count
  | .freeContiguousFrames addr count => s.range addr count
  | _ => ∅

end State

/-- A state and the frames that are held. -/
structure Tracked where
  state : State
  held : Finset Nat

def Tracked.step (t : Tracked) (c : Call) : Tracked where
  state := (t.state.call c).2
  held := (t.held \ t.state.returned c) ∪ t.state.handed c

def Tracked.run (t : Tracked) (calls : List Call) : Tracked := calls.foldl Tracked.step t

/-- **What is promised of a state**: the count, the freshness of what the next call hands out, single frames and contiguous
ones. -/
structure Tracked.Exact (t : Tracked) : Prop where
  counted : t.state.freeFrames = t.state.clear.card
  fresh : ∀ c, Disjoint (t.state.handed c) t.held
  reserved : ∀ c, 0 ∉ t.state.handed c
  single : t.state.AllocExact
  contiguous : ∀ count maxPhysAddr,
    (∀ start, (t.state.allocContiguousFramesBelow count maxPhysAddr).1 = some (start * frameSize) ↔
      IsLeast {start | t.state.Fits count maxPhysAddr start} start) ∧
    ((t.state.allocContiguousFramesBelow count maxPhysAddr).1 = none ↔ ∀ start, ¬ t.state.Fits count maxPhysAddr start)

namespace State

/-! ## One call -/

/-- What a call does to the clear frames. -/
structure Outcome (s : State) (c : Call) : Prop where
  sound : (s.call c).2.Sound
  initialized : (s.call c).2.initialized = true
  fresh : s.handed c ⊆ s.clear
  reserved : 0 ∉ s.handed c
  apart : Disjoint (s.handed c) (s.returned c)
  clear : (s.call c).2.clear = (s.clear \ s.handed c) ∪ s.returned c

theorem Sound.retouch {s : State} (h : s.Sound) {nextHint : Nat} (hn : nextHint ≤ s.totalFrames) (counters : Counters) :
    State.Sound { s with nextHint, counters } :=
  ⟨h.length, h.inside, h.nonempty, h.addressable, h.counted, hn⟩

theorem outcome_none {s : State} (h : s.Sound) (hi : s.initialized = true) {c : Call} (hb : s.returned c = ∅)
    {counters : Counters}
    (heq : s.call c = (none, { s with counters })) : s.Outcome c := by
  have hhanded : s.handed c = ∅ := by rw [handed, heq]; rfl
  refine ⟨?_, ?_, ?_, ?_, ?_, ?_⟩
  · rw [heq]
    exact h.retouch h.hint counters
  · rw [heq]
    exact hi
  · rw [hhanded]
    exact Finset.empty_subset _
  · rw [hhanded]
    exact Finset.notMem_empty 0
  · rw [hhanded]
    exact Finset.disjoint_empty_left _
  · rw [heq, hhanded, hb, Finset.sdiff_empty, Finset.union_empty]
    rfl

theorem outcome_handOut {s : State} (h : s.Sound) (hi : s.initialized = true) {c : Call} (hb : s.returned c = ∅)
    {start count : Nat}
    {counters : Counters} (hpos : 1 ≤ start) (hr : s.ClearRun start count)
    (heq : s.call c = (some ⟨start * frameSize, count⟩, { s.handOut start count with counters })) : s.Outcome c := by
  have hhanded : s.handed c = Finset.Ico start (start + count) := by
    rw [handed, heq]
    show Finset.Ico (start * frameSize / frameSize) (start * frameSize / frameSize + count) = _
    rw [Nat.mul_div_cancel start (by decide)]
  have hin := hr.inside
  refine ⟨?_, ?_, ?_, ?_, ?_, ?_⟩
  · rw [heq]
    exact (hr.sound h).retouch (hr.sound h).hint counters
  · rw [heq]
    exact hi
  · rw [hhanded]
    intro f hf
    obtain ⟨hlo, hhi⟩ := Finset.mem_Ico.1 hf
    exact mem_clear.2 ⟨by omega, hr.unused f hlo hhi⟩
  · rw [hhanded]
    intro h0
    have := (Finset.mem_Ico.1 h0).1
    omega
  · rw [hb]
    exact Finset.disjoint_empty_right _
  · rw [heq, hhanded, hb, Finset.union_empty]
    exact hr.clear_handOut h

theorem outcome_returned {s : State} {c : Call} {next : State} (heq : s.call c = (none, next)) (hs : next.Sound)
    (hi : next.initialized = true) (hclear : next.clear = s.clear ∪ s.returned c) : s.Outcome c := by
  have hhanded : s.handed c = ∅ := by rw [handed, heq]; rfl
  refine ⟨?_, ?_, ?_, ?_, ?_, ?_⟩
  · rw [heq]
    exact hs
  · rw [heq]
    exact hi
  · rw [hhanded]
    exact Finset.empty_subset _
  · rw [hhanded]
    exact Finset.notMem_empty 0
  · rw [hhanded]
    exact Finset.disjoint_empty_left _
  · rw [heq, hhanded, Finset.sdiff_empty]
    exact hclear

theorem freeFrame_outcome {s : State} (h : s.Sound) (hi : s.initialized = true) (addr : Nat) :
    s.Outcome (.freeFrame addr) := by
  have hcall : s.call (.freeFrame addr) = (none, s.freeFrame addr) := rfl
  by_cases halign : addr % frameSize = 0
  · by_cases hin : addr / frameSize < s.totalFrames
    · have hrange : s.returned (.freeFrame addr) = {addr / frameSize} := by
        show s.range addr 1 = _
        rw [range, if_pos ⟨halign, hin⟩]
        exact Nat.Ico_succ_singleton _
      obtain ⟨hs, ⟨b, n, heq⟩, hclear⟩ := h.markFrame hin false
      by_cases hu : s.isUsed (addr / frameSize) = true
      · have hfree : s.freeFrame addr = { s.markFrame (addr / frameSize) false with
            nextHint := if addr / frameSize < s.nextHint then addr / frameSize else s.nextHint } := by
          have hmark : s.markFrame (addr / frameSize) false =
              { s.setUsed (addr / frameSize) false with freeFrames := s.freeFrames + 1 } := by
            unfold State.markFrame
            rw [if_pos (by rw [hu]; decide)]
            rfl
          have hset : ¬ (!s.isUsed (addr / frameSize)) = true := by rw [hu]; decide
          rw [hmark, freeFrame, if_neg (by rw [hi]; decide), if_neg (not_not.2 halign), if_neg (Nat.not_le.2 hin),
            if_neg hset]
        have hhint : (if addr / frameSize < s.nextHint then addr / frameSize else s.nextHint) ≤
            (s.markFrame (addr / frameSize) false).totalFrames := by
          have := h.hint
          rw [heq]
          show _ ≤ s.totalFrames
          split <;> omega
        refine outcome_returned (hcall.trans (congrArg _ hfree)) (hs.retouch hhint _) ?_ ?_
        · show (s.markFrame (addr / frameSize) false).initialized = true
          rw [heq]
          exact hi
        · rw [hrange]
          show (s.markFrame (addr / frameSize) false).clear = _
          rw [hclear, if_neg (by decide), Finset.union_comm]
          rfl
      · have hfree : s.freeFrame addr = { s with counters := (State.reportPmmFault
            { s with counters.doubleFreeErrors := s.counters.doubleFreeErrors + 1 } .doubleFree addr).counters } := by
          unfold freeFrame
          rw [if_neg (by rw [hi]; decide), if_neg (not_not.2 halign), if_neg (Nat.not_le.2 hin), if_pos (by simpa using hu)]
          rfl
        refine outcome_returned (hcall.trans (congrArg _ hfree)) (h.retouch h.hint _) hi ?_
        rw [hrange]
        show s.clear = s.clear ∪ {addr / frameSize}
        refine (Finset.union_eq_left.2 (fun f hf => ?_)).symm
        rw [Finset.mem_singleton.1 hf]
        exact mem_clear.2 ⟨hin, by simpa using hu⟩
    · have hfree : s.freeFrame addr = { s with counters := (State.reportPmmFault
          { s with counters.badFreeErrors := s.counters.badFreeErrors + 1 } .badFreeRange addr).counters } := by
        rw [freeFrame, if_neg (by rw [hi]; decide), if_neg (not_not.2 halign), if_pos (Nat.not_lt.1 hin)]
        rfl
      refine outcome_none h hi ?_ (hcall.trans (congrArg _ hfree))
      show s.range addr 1 = ∅
      rw [range, if_neg (fun hc => hin hc.2)]
  · have hfree : s.freeFrame addr = { s with counters := (State.reportPmmFault
        { s with counters.badFreeErrors := s.counters.badFreeErrors + 1 } .badFreeAlign addr).counters } := by
      rw [freeFrame, if_neg (by rw [hi]; decide), if_pos halign]
      rfl
    refine outcome_none h hi ?_ (hcall.trans (congrArg _ hfree))
    show s.range addr 1 = ∅
    rw [range, if_neg (fun hc => halign hc.1)]

theorem freeContiguousFrames_eq {s : State} (h : s.Sound) (hi : s.initialized = true) (addr count : Nat) :
    (s.freeContiguousFrames addr count).Sound ∧ (s.freeContiguousFrames addr count).initialized = true ∧
      (s.freeContiguousFrames addr count).clear = s.clear ∪ s.range addr count := by
  unfold freeContiguousFrames
  by_cases hbad : (!s.initialized || addr % frameSize != 0 || count == 0) = true
  · rw [if_pos hbad]
    refine ⟨h, hi, ?_⟩
    rw [hi] at hbad
    simp only [Bool.not_true, Bool.false_or, Bool.or_eq_true, bne_iff_ne, beq_iff_eq] at hbad
    have hempty : s.range addr count = ∅ := by
      unfold range
      rcases hbad with hbad | hbad
      · rw [if_neg (fun hc => hbad hc.1)]
      · rw [hbad, Nat.add_zero, Finset.Ico_self, ite_self]
    rw [hempty, Finset.union_empty]
  · rw [if_neg hbad]
    rw [hi] at hbad
    simp only [Bool.not_true, Bool.false_or, Bool.or_eq_true, bne_iff_ne, beq_iff_eq, not_or, not_not] at hbad
    dsimp only
    by_cases hin : s.totalFrames < addr / frameSize + count
    · rw [if_pos hin]
      refine ⟨h, hi, ?_⟩
      rw [range, if_neg (by omega), Finset.union_empty]
    · rw [if_neg hin]
      obtain ⟨hs, ⟨b, n, heq⟩, hclear⟩ := h.releaseFrames (addr / frameSize) count 0 (by omega)
      refine ⟨?_, ?_, ?_⟩
      · have hhint := h.hint
        have htotal : (releaseFrames (addr / frameSize) count 0 s).totalFrames = s.totalFrames := by rw [heq]; rfl
        have hnext : (releaseFrames (addr / frameSize) count 0 s).nextHint = s.nextHint := by rw [heq]; rfl
        refine hs.retouch ?_ _
        rw [hnext, htotal]
        split <;> omega
      · show (releaseFrames (addr / frameSize) count 0 s).initialized = true
        rw [heq]
        exact hi
      · show (releaseFrames (addr / frameSize) count 0 s).clear = _
        rw [hclear, range, if_pos ⟨hbad.1, by omega⟩, Nat.add_zero]

theorem contiguous_outcome {s : State} (h : s.Sound) (hi : s.initialized = true) {c : Call} {count maxPhysAddr : Nat}
    (hb : s.returned c = ∅) (hcall : s.call c = ((s.allocContiguousFramesBelow count maxPhysAddr).1.map (⟨·, count⟩),
      (s.allocContiguousFramesBelow count maxPhysAddr).2)) : s.Outcome c := by
  rcases allocContiguousFramesBelow_eq h hi count maxPhysAddr with ⟨heq, _⟩ | ⟨start, hleast, heq⟩
  · rw [heq] at hcall
    exact outcome_none h hi hb hcall
  · rw [heq] at hcall
    have hfit := hleast.1
    exact outcome_handOut h hi hb hfit.reserved ⟨Nat.le_trans hfit.below (Nat.min_le_left _ _), hfit.unused⟩ hcall

/-- **One call**: what it hands out was clear, and the clear frames change by what goes out and comes back. -/
theorem call_outcome {s : State} (h : s.Sound) (hi : s.initialized = true) (c : Call) : s.Outcome c := by
  cases c with
  | allocFrame =>
    cases hfound : s.found with
    | none =>
      have hcall : s.call .allocFrame = (none, { s with counters := s.counters }) := by
        rw [call, allocFrame_eq h hi, hfound]
        rfl
      exact outcome_none h hi rfl hcall
    | some f =>
      obtain ⟨hf, hr⟩ := allocFrame_run hfound
      have hcall : s.call .allocFrame = (some ⟨f * frameSize, 1⟩, { s.handOut f 1 with counters := s.counters }) := by
        rw [call, allocFrame_eq h hi, hfound]
        rfl
      exact outcome_handOut h hi rfl hf hr hcall
  | allocFrameExtent maxCount =>
    rcases allocFrameExtent_eq h hi maxCount with heq | ⟨start, count, counters, hpos, hr, heq⟩
    · exact outcome_none h hi rfl (show s.call _ = (none, { s with counters := s.counters }) from heq)
    · exact outcome_handOut h hi rfl hpos hr heq
  | allocContiguousFrames count => exact contiguous_outcome h hi rfl rfl
  | allocContiguousFramesBelow count maxPhysAddr => exact contiguous_outcome h hi rfl rfl
  | freeFrame addr => exact freeFrame_outcome h hi addr
  | freeFrameExtent extent =>
    obtain ⟨hs, hi', hclear⟩ := freeContiguousFrames_eq h hi extent.base extent.count
    by_cases h0 : extent.count = 0
    · have hcall : s.call (.freeFrameExtent extent) = (none, { s with counters := s.counters }) := by
        rw [call, freeFrameExtent, if_pos h0]
      refine outcome_none h hi ?_ hcall
      show s.range extent.base extent.count = ∅
      rw [range, h0, Nat.add_zero, Finset.Ico_self, ite_self]
    · have hcall : s.call (.freeFrameExtent extent) = (none, { s.freeContiguousFrames extent.base extent.count with
          counters := (s.freeContiguousFrames extent.base extent.count).counters.freed extent.count }) := by
        rw [call, freeFrameExtent, if_neg h0]
      exact outcome_returned hcall (hs.retouch hs.hint _) hi' hclear
  | freeContiguousFrames addr count =>
    obtain ⟨hs, hi', hclear⟩ := freeContiguousFrames_eq h hi addr count
    exact outcome_returned rfl hs hi' hclear

end State

/-! ## Runs -/

/-- What every state of a run keeps: the held frames are used. -/
structure Tracked.Sane (t : Tracked) : Prop where
  sound : t.state.Sound
  initialized : t.state.initialized = true
  used : Disjoint t.held t.state.clear

theorem Tracked.Sane.step {t : Tracked} (h : t.Sane) (c : Call) : (t.step c).Sane := by
  obtain ⟨hs, hi, hfresh, _, hapart, hclear⟩ := State.call_outcome h.sound h.initialized c
  refine ⟨hs, hi, ?_⟩
  have hused := Finset.disjoint_left.1 h.used
  have hapart := Finset.disjoint_left.1 hapart
  show Disjoint ((t.held \ t.state.returned c) ∪ t.state.handed c) (t.state.call c).2.clear
  rw [hclear, Finset.disjoint_left]
  intro f hf hback
  rcases Finset.mem_union.1 hf with hf | hf
  · obtain ⟨hheld, hkept⟩ := Finset.mem_sdiff.1 hf
    rcases Finset.mem_union.1 hback with hb | hb
    · exact hused hheld (Finset.mem_sdiff.1 hb).1
    · exact hkept hb
  · rcases Finset.mem_union.1 hback with hb | hb
    · exact (Finset.mem_sdiff.1 hb).2 hf
    · exact hapart hf hb

theorem Tracked.Sane.run : ∀ (calls : List Call) {t : Tracked}, t.Sane → (t.run calls).Sane
  | [], _, h => h
  | c :: calls, _, h => Tracked.Sane.run calls (h.step c)

theorem Tracked.Sane.exact_iff {t : Tracked} (h : t.Sane) : t.Exact ↔ ¬ t.state.Missed := by
  constructor
  · exact fun he => (State.allocExact_iff h.sound h.initialized).1 he.single
  · intro hm
    have hcall := State.call_outcome h.sound h.initialized
    refine ⟨h.sound.counted, fun c => ?_, fun c => (hcall c).reserved, (State.allocExact_iff h.sound h.initialized).2 hm, ?_⟩
    · exact (h.used.mono_right (hcall c).fresh).symm
    · intro count maxPhysAddr
      rcases State.allocContiguousFramesBelow_eq h.sound h.initialized count maxPhysAddr with ⟨heq, hnone⟩ | ⟨start,
        hleast, heq⟩
      · rw [heq]
        exact ⟨fun start => ⟨(fun h => nomatch h), fun hl => absurd hl.1 (hnone start)⟩, ⟨fun _ => hnone, fun _ => rfl⟩⟩
      · rw [heq]
        refine ⟨fun other => ⟨fun heq => ?_, fun hl => ?_⟩,
          ⟨(fun h => nomatch h), fun hnone => absurd hleast.1 (hnone start)⟩⟩
        · have := Option.some.inj heq
          rwa [← Nat.eq_of_mul_eq_mul_right (by decide) this]
        · rw [hl.unique hleast]

/-- **Every state of a run is right exactly when none of them is missed.** -/
theorem frames_exact {ram : Nat → UInt8} {entries : List MemoryMapEntry} {hhdm : Option Nat} {claim : Nat → Nat → Bool}
    {s : State}
    (h : init ram entries hhdm claim = some s) (calls : List Call) :
    (∀ done, done <+: calls → (Tracked.run ⟨s, ∅⟩ done).Exact) ↔ ∀ done, done <+: calls →
    ¬ (Tracked.run ⟨s, ∅⟩ done).state.Missed := by
  obtain ⟨hs, hi⟩ := init_sound h
  have hstart : Tracked.Sane ⟨s, ∅⟩ := ⟨hs, hi, Finset.disjoint_empty_left _⟩
  exact forall₂_congr (fun done _ => (hstart.run done).exact_iff)

/-- Frame 70 alone, and frames 80 to 82 with the bitmap in the first of them. -/
def sampleMap : List MemoryMapEntry :=
  [ { usableBase := 70 * 4096, usableLen := 4096, kind := .usable, valid := true },
    { usableBase := 80 * 4096, usableLen := 3 * 4096, kind := .usable, valid := true } ]

def sampleHhdm : Option Nat := some 0xffff800000000000

/-- Frame 70 is handed out, given back and handed out again, around the other two. -/
def sampleCalls : List Call := [.allocFrame, .freeFrame (70 * 4096), .allocContiguousFrames 2, .allocFrame, .allocFrame]

theorem frames_exact_sample : ∃ s, init (fun _ => 0) sampleMap sampleHhdm (fun _ _ => true) = some s ∧
    ∀ done, done <+: sampleCalls → (Tracked.run ⟨s, ∅⟩ done).Exact := by
  have hused : (init (fun _ => 0) sampleMap sampleHhdm (fun _ _ => true)).map (fun s =>
      sampleCalls.inits.all (fun done => (Tracked.run ⟨s, ∅⟩ done).state.isUsed 0)) = some true := by
    decide +kernel
  obtain ⟨s, h, hused⟩ := Option.map_eq_some_iff.1 hused
  refine ⟨s, h, (frames_exact h sampleCalls).2 (fun done hdone hmissed => ?_)⟩
  have hzero := List.all_eq_true.1 hused done ((List.mem_inits _ _).2 hdone)
  exact absurd (hmissed.2.1.symm.trans hzero) Bool.false_ne_true

theorem frame_hidden : ¬ ∀ (ram : Nat → UInt8) (entries : List MemoryMapEntry) (hhdm : Option Nat) (claim : Nat → Nat → Bool)
    (s : State), init ram entries hhdm claim = some s → ∀ calls, (Tracked.run ⟨s, ∅⟩ calls).Exact := by
  intro hall
  have hrun : (init (fun _ => 0) sampleMap sampleHhdm (fun _ _ => true)).map (fun s =>
      let t := (Tracked.run ⟨s, ∅⟩ [.freeFrame 0, .allocContiguousFrames 2]).state
      (t.allocFrame.1, t.isUsed 70, t.totalFrames)) = some (none, false, 83) := by decide +kernel
  cases h : init (fun _ => 0) sampleMap sampleHhdm (fun _ _ => true) with
  | none =>
    rw [h] at hrun
    cases hrun
  | some s =>
    rw [h, Option.map_some] at hrun
    obtain ⟨halloc, hused, htotal⟩ : _ ∧ _ ∧ _ := by simpa only [Option.some.injEq, Prod.mk.injEq] using hrun
    have hexact := (hall _ _ _ _ s h [.freeFrame 0, .allocContiguousFrames 2]).single.1 halloc 70 (by decide)
        (by rw [htotal]; decide)
    rw [hexact] at hused
    cases hused

end Phys
end R4
