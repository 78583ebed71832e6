import R4Recovery.PhysFramesScan
/-!
# PhysFramesExact — what the frame allocator hands out

A run of calls from the start, with the frames that were handed out and not given back.  The count, the freshness of every
frame and the contiguous search are right in every state; `allocFrame` is wrong exactly in the states of `Missed`.
-/
namespace R4
namespace Phys
namespace State

open Bitmap BitScan

/-! ## One frame -/

/-- The frame that `allocFrame` takes. -/
def found (s : State) : Option Nat :=
  (firstIn s.isOpen (max s.nextHint 1) s.totalFrames).or
    (firstIn s.isOpen 1 (if s.bitmapWords && !s.isUsed 0 then 64 * (s.nextHint / 64) else s.nextHint))

def foundLinear (s : State) : Option Nat :=
  (firstIn s.isOpen (max s.nextHint 1) s.totalFrames).or (firstIn s.isOpen 1 s.nextHint)

/-- What taking one frame answers and leaves. -/
def take (s : State) : Option Nat → Option Nat × State
  | none => (none, s)
  | some frame => (some (frame * frameSize), s.handOut frame 1)

theorem allocFrameLinear_eq {s : State} (h : s.Sound) : s.allocFrameLinear = s.take s.foundLinear := by
  rw [allocFrameLinear, scanLinear_eq h]
  show (match s.foundLinear with | none => _ | some frame => _) = _
  cases s.foundLinear <;> rfl

theorem setWord_eq {s : State} (h : s.Sound) {f : Nat} (hf : f < s.totalFrames) :
    setWord s.bitmap (f / 64) (wordAt s.bitmap (f / 64) ||| 1#64 <<< (f % 64)) = setBits 0 true f 1 s.bitmap := by
  have hlen := h.length
  have hbits := h.bits
  have hmod : f % 64 < 64 := Nat.mod_lt _ (by decide)
  refine ext_bitAt (by rw [length_setWord, length_setBits]) (fun j hj => ?_)
  rw [length_setWord] at hj
  rw [bitAt_setWord (by omega), isUsed_setBits h (by omega) true]
  by_cases hin : 64 * (f / 64) ≤ j ∧ j < 64 * (f / 64) + 64
  · have hk : j - 64 * (f / 64) < 64 := by omega
    have hback : 64 * (f / 64) + (j - 64 * (f / 64)) = j := by omega
    have hone : (1#64 <<< (f % 64)).getLsbD (j - 64 * (f / 64)) = decide (j - 64 * (f / 64) = f % 64) := by
      rw [← BitVec.twoPow_eq, BitVec.getLsbD_twoPow, decide_eq_true hmod, Bool.true_and]
      exact decide_eq_decide.2 eq_comm
    rw [if_pos hin, BitVec.getLsbD_or, wordAt_bit _ _ hk, hback, hone]
    by_cases hj : j = f
    · rw [if_pos ⟨by omega, by omega⟩, decide_eq_true (by omega), Bool.or_true]
    · rw [if_neg (by omega), decide_eq_false (by omega), Bool.or_false]
      rfl
  · rw [if_neg hin, if_neg (by omega)]
    rfl

theorem found_open {s : State} {f hi : Nat}
    (h : (firstIn s.isOpen (max s.nextHint 1) s.totalFrames).or (firstIn s.isOpen 1 hi) = some f) :
    1 ≤ f ∧ s.isUsed f = false ∧ f < s.totalFrames := by
  rcases Option.or_eq_some_iff.1 h with h | ⟨_, h⟩
  · obtain ⟨hopen, ⟨hlo, _⟩, _⟩ := firstIn_eq_some.1 h
    exact ⟨by omega, isOpen_iff.1 hopen⟩
  · obtain ⟨hopen, ⟨hlo, _⟩, _⟩ := firstIn_eq_some.1 h
    exact ⟨hlo, isOpen_iff.1 hopen⟩

theorem allocFrame_eq {s : State} (h : s.Sound) (hi : s.initialized = true) : s.allocFrame = s.take s.found := by
  rw [allocFrame, if_neg (by rw [hi]; decide)]
  by_cases hw : s.bitmapWords = true
  · have hsame : (if s.bitmapWords && !s.isUsed 0 then 64 * (s.nextHint / 64) else s.nextHint) =
        if s.isUsed 0 then s.nextHint else 64 * (s.nextHint / 64) := by
      rw [hw]
      cases s.isUsed 0 <;> rfl
    obtain ⟨o, ho⟩ : ∃ o, s.found = o := ⟨_, rfl⟩
    have hscan := ho
    unfold found at hscan
    rw [if_neg (by rw [hw]; decide), scanWords_eq h, ← hsame, hscan, ho]
    cases o with
    | none => rfl
    | some f =>
      have hback : f / 64 * 64 + f % 64 = f := by omega
      have hopen := (found_open hscan).2.2
      show (some ((f / 64 * 64 + f % 64) * frameSize), _) = (some (f * frameSize), s.handOut f 1)
      rw [setWord_eq h hopen, hback]
      rfl
  · have hfound : s.found = s.foundLinear := by
      rw [found, Bool.eq_false_iff.2 hw]
      rfl
    rw [if_pos (by simpa using hw), allocFrameLinear_eq h, hfound]

/-- **Where the scan by words ends too early**: frame 0 is clear, and the only clear frames from frame 1 on lie below the hint
in the hint's word. -/
def Missed (s : State) : Prop :=
  s.bitmapWords = true ∧ s.isUsed 0 = false ∧ (∀ f, 1 ≤ f → s.nextHint ≤ f → f < s.totalFrames → s.isUsed f = true) ∧
    (∀ f, 1 ≤ f → f < 64 * (s.nextHint / 64) → s.isUsed f = true) ∧ ∃ f, 1 ≤ f ∧ f < s.nextHint ∧ s.isUsed f = false

/-- `allocFrame` answers none only with every frame used, and otherwise what `allocFrameLinear` answers. -/
def AllocExact (s : State) : Prop :=
  (s.allocFrame.1 = none → ∀ f, 1 ≤ f → f < s.totalFrames → s.isUsed f = true) ∧
    ∀ base, s.allocFrame.1 = some base → s.allocFrameLinear.1 = some base

theorem allocExact_iff {s : State} (h : s.Sound) (hi : s.initialized = true) : s.AllocExact ↔ ¬ s.Missed := by
  have hhint := h.hint
  unfold AllocExact
  rw [allocFrame_eq h hi, allocFrameLinear_eq h]
  have hfst : ∀ o : Option Nat, (s.take o).1 = o.map (· * frameSize) := fun o => by cases o <;> rfl
  rw [hfst, hfst]
  constructor
  · rintro ⟨hnone, _⟩ ⟨hw, hzero, hhigh, hlow, f, hf, hlt, hu⟩
    have hfound : s.found = none := by
      rw [found, hw, hzero]
      refine Option.or_eq_none_iff.2 ⟨firstIn_eq_none.2 (fun g hg hgt => ?_), firstIn_eq_none.2 (fun g hg hgt => ?_)⟩
      · exact isOpen_false.2 (fun _ => hhigh g (by omega) (by omega) hgt)
      · exact isOpen_false.2 (fun _ => hlow g hg hgt)
    rw [hfound] at hnone
    rw [hnone rfl f hf (by omega)] at hu
    cases hu
  · intro hm
    -- the two searches find the same frame
    have hsame : s.found = s.foundLinear := by
      unfold found foundLinear
      cases hfirst : firstIn s.isOpen (max s.nextHint 1) s.totalFrames with
      | some f => rfl
      | none =>
        rw [Option.none_or, Option.none_or]
        by_cases hcase : (s.bitmapWords && !s.isUsed 0) = true
        · rw [if_pos hcase]
          simp only [Bool.and_eq_true, Bool.not_eq_true'] at hcase
          have hhigh := firstIn_eq_none.1 hfirst
          rcases Nat.eq_zero_or_pos (s.nextHint / 64) with hw | hw
          · rw [hw, firstIn_empty (by omega)]
            refine (firstIn_eq_none.2 (fun f hf hlt => isOpen_false.2 (fun _ => ?_))).symm
            by_contra hu
            exact hm ⟨hcase.1, hcase.2, fun g hg hgh hgt => isOpen_false.1 (hhigh g (by omega) hgt) hgt,
              fun g hg hgt => by omega, f, hf, hlt, by simpa using hu⟩
          · rw [firstIn_split (by omega : 1 ≤ 64 * (s.nextHint / 64)) (by omega : 64 * (s.nextHint / 64) ≤ s.nextHint)]
            cases hlow : firstIn s.isOpen 1 (64 * (s.nextHint / 64)) with
            | some f => rfl
            | none =>
              rw [Option.none_or]
              refine (firstIn_eq_none.2 (fun f hf hlt => isOpen_false.2 (fun _ => ?_))).symm
              by_contra hu
              exact hm ⟨hcase.1, hcase.2, fun g hg hgh hgt => isOpen_false.1 (hhigh g (by omega) hgt) hgt,
                fun g hg hgt => isOpen_false.1 (firstIn_eq_none.1 hlow g hg hgt) (by omega), f,
                by omega, hlt, by simpa using hu⟩
        · rw [if_neg hcase]
    rw [hsame]
    refine ⟨fun hnone f hf hft => ?_, fun base hbase => hbase⟩
    have hnone : s.foundLinear = none := by simpa using hnone
    obtain ⟨hhigh, hlow⟩ := Option.or_eq_none_iff.1 hnone
    by_cases hlt : f < s.nextHint
    · exact isOpen_false.1 (firstIn_eq_none.1 hlow f hf hlt) hft
    · exact isOpen_false.1 (firstIn_eq_none.1 hhigh f (by omega) hft) hft

/-! ## Extents -/

/-- A run that is taken while the hint stays. -/
def mark (s : State) (start count : Nat) : State := s.repaint (setBits 0 true start count s.bitmap) (s.freeFrames - count)

theorem ClearRun.extend {s : State} (h : s.Sound) {start : Nat} : ∀ (left count : Nat), s.ClearRun start count →
    ∃ n, count ≤ n ∧ s.ClearRun start n ∧ State.extend start left count (s.mark start count) = (n, s.mark start n)
  | 0, count, hr => ⟨count, Nat.le_refl _, hr, rfl⟩
  | left + 1, count, hr => by
    have hbit : (s.mark start count).isUsed (start + count) = s.isUsed (start + count) := by
      show bitAt (setBits 0 true start count s.bitmap) (start + count) = _
      rw [isUsed_setBits h hr.inside, if_neg (by omega)]
    rw [State.extend, hbit]
    by_cases hnext : (s.mark start count).totalFrames > start + count ∧ s.isUsed (start + count) = false
    · have hlonger : s.ClearRun start (count + 1) := by
        refine ⟨by have : start + count < s.totalFrames := hnext.1; omega, fun f hlo hhi => ?_⟩
        by_cases hlast : f = start + count
        · rw [hlast]; exact hnext.2
        · exact hr.unused f hlo (by omega)
      obtain ⟨n, hn, hrun, heq⟩ := ClearRun.extend h left (count + 1) hlonger
      have hone : { (s.mark start count).setUsed (start + count) true with freeFrames :=
          (s.mark start count).freeFrames - 1 } =
          s.mark start (count + 1) := by
        have hbits : (setBits 0 true start count s.bitmap).set ((start + count) / 8)
            (withBit ((setBits 0 true start count s.bitmap).getD ((start + count) / 8) 0) ((start + count) % 8) true) =
            setBits 0 true start (count + 1) s.bitmap := by
          have hlen := h.bits.2
          have hin := hlonger.inside
          refine ext_bitAt (by rw [List.length_set, length_setBits, length_setBits]) (fun j _ => ?_)
          rw [bitAt_set (by rw [length_setBits]; omega), isUsed_setBits h hr.inside, isUsed_setBits h hin]
          by_cases hj : j = start + count
          · rw [if_pos hj, if_pos (by omega)]
          · rw [if_neg hj]
            exact if_congr (by omega) rfl rfl
        exact congrArg (fun b => s.repaint b (s.freeFrames - (count + 1))) hbits
      rw [if_pos hnext, hone]
      exact ⟨n, by omega, hrun, heq⟩
    · rw [if_neg hnext]
      exact ⟨count, Nat.le_refl _, hr, rfl⟩

theorem allocFrame_run {s : State} {f : Nat} (h : s.found = some f) : 1 ≤ f ∧ s.ClearRun f 1 := by
  obtain ⟨hf, hu, hin⟩ := found_open h
  exact ⟨hf, hin, fun g hlo hhi => by rw [show g = f by omega]; exact hu⟩

theorem allocFrameExtent_eq {s : State} (h : s.Sound) (hi : s.initialized = true) (maxCount : Nat) :
    s.allocFrameExtent maxCount = (none, s) ∨ ∃ start count counters, 1 ≤ start ∧ s.ClearRun start count ∧
      s.allocFrameExtent maxCount = (some ⟨start * frameSize, count⟩, { s.handOut start count with counters }) := by
  unfold allocFrameExtent
  by_cases h0 : maxCount = 0
  · rw [if_pos h0]
    exact Or.inl rfl
  · rw [if_neg h0, allocFrame_eq h hi]
    cases hfound : s.found with
    | none => exact Or.inl rfl
    | some f =>
      obtain ⟨hf, hr⟩ := allocFrame_run hfound
      have hback : f * frameSize / frameSize = f := Nat.mul_div_cancel f (by decide)
      have hs : State.Sound { s with nextHint := f + 1 } :=
        ⟨h.length, h.inside, h.nonempty, h.addressable, h.counted, hr.inside⟩
      obtain ⟨n, _, hrun, heq⟩ := ClearRun.extend hs (maxCount - 1) 1 ⟨hr.inside, hr.unused⟩
      have heq' : State.extend f (maxCount - 1) 1 (s.handOut f 1) = _ := heq
      refine Or.inr ⟨f, n, s.counters.allocated n, hf, ⟨hrun.inside, hrun.unused⟩, ?_⟩
      dsimp only [take]
      rw [hback, heq']
      rfl

/-! ## Contiguous frames -/

/-- Whether `count` frames from a start are clear. -/
def runClear (s : State) (count start : Nat) : Bool := (firstIn s.isUsed start (start + count)).isNone

theorem runClear_iff {s : State} {count start : Nat} :
    s.runClear count start = true ↔ ∀ f, start ≤ f → f < start + count → s.isUsed f = false := by
  rw [runClear, Option.isNone_iff_eq_none, firstIn_eq_none]

theorem runClear_false {s : State} {count start f : Nat} (hlo : start ≤ f) (hhi : f < start + count)
    (hu : s.isUsed f = true) :
    s.runClear count start = false := by
  rw [← Bool.not_eq_true, runClear_iff]
  intro h
  rw [h f hlo hhi] at hu
  cases hu

theorem clearFrom_eq (s : State) (start : Nat) : ∀ (left offset : Nat),
    (∀ f, start ≤ f → f < start + offset → s.isUsed f = false) →
    ∃ n, s.clearFrom start left offset = n ∧ n ≤ offset + left ∧ (∀ f, start ≤ f → f < start + n → s.isUsed f = false) ∧
      (n < offset + left → s.isUsed (start + n) = true)
  | 0, offset, h => ⟨offset, rfl, by omega, h, fun hlt => by omega⟩
  | left + 1, offset, h => by
    rw [clearFrom]
    by_cases hu : s.isUsed (start + offset) = true
    · rw [if_pos hu]
      exact ⟨offset, rfl, by omega, h, fun _ => hu⟩
    · rw [if_neg hu]
      obtain ⟨n, heq, hle, hclear, hused⟩ := clearFrom_eq s start left (offset + 1) (fun f hlo hhi => by
        by_cases hlast : f = start + offset
        · rw [hlast]; simpa using hu
        · exact h f hlo (by omega))
      exact ⟨n, heq, by omega, hclear, fun hlt => hused (by omega)⟩

theorem isUsed_full {s : State} {wi f : Nat} (h : wordAt s.bitmap wi = BitVec.allOnes 64) (hlo : 64 * wi ≤ f)
    (hhi : f < 64 * wi + 64) :
    s.isUsed f = true := by
  have hk : f - 64 * wi < 64 := by omega
  have hbit := wordAt_bit s.bitmap wi hk
  rw [h, BitVec.getLsbD_allOnes, decide_eq_true hk, Nat.add_sub_cancel' hlo] at hbit
  exact hbit.symm

/-- **Full words and failed prefixes hide no run.** -/
theorem searchRun_eq (s : State) {count last : Nat} (hcount : 0 < count) : ∀ (left start : Nat), last + 1 ≤ start + left →
    s.searchRun count last left start = firstIn (s.runClear count) start (last + 1)
  | 0, start, h => by rw [searchRun, firstIn_empty (by omega)]
  | left + 1, start, h => by
    rw [searchRun]
    by_cases hend : last < start
    · rw [if_pos hend, firstIn_empty (by omega)]
    · rw [if_neg hend]
      by_cases hfull : (s.bitmapWords && s.isUsed start && start % 64 == 0 && wordAt s.bitmap (start / 64)
          == BitVec.allOnes 64) = true
      · rw [if_pos hfull, searchRun_eq s hcount left _ (by omega)]
        simp only [Bool.and_eq_true, beq_iff_eq] at hfull
        exact (firstIn_skip (by omega) (fun x hlo hhi => runClear_false (Nat.le_refl x) (by omega)
          (isUsed_full hfull.2 (by omega) (by omega)))).symm
      · rw [if_neg hfull]
        obtain ⟨n, heq, hle, hclear, hused⟩ := clearFrom_eq s start count 0 (fun f hlo hhi => by omega)
        rw [heq, Nat.zero_add] at *
        dsimp only
        by_cases hn : n = count
        · rw [if_pos hn, firstIn_cons (by omega), if_pos (runClear_iff.2 (by rw [← hn]; exact hclear))]
        · rw [if_neg hn, searchRun_eq s hcount left _ (by omega)]
          exact (firstIn_skip (by omega) (fun x hlo hhi => runClear_false (by omega : x ≤ start + n) (by omega)
            (hused (by omega)))).symm

/-- A run of `count` clear frames from frame 1 on, below the frames and the limit. -/
structure Fits (s : State) (count maxPhysAddr start : Nat) : Prop where
  positive : 0 < count
  reserved : 1 ≤ start
  below : start + count ≤ min s.totalFrames ((maxPhysAddr + 1) / frameSize)
  unused : ∀ f, start ≤ f → f < start + count → s.isUsed f = false

theorem allocContiguousFramesBelow_eq {s : State} (h : s.Sound) (hi : s.initialized = true) (count maxPhysAddr : Nat) :
    (s.allocContiguousFramesBelow count maxPhysAddr = (none, s) ∧ ∀ start, ¬ s.Fits count maxPhysAddr start) ∨
      ∃ start, IsLeast {start | s.Fits count maxPhysAddr start} start ∧
        s.allocContiguousFramesBelow count maxPhysAddr = (some (start * frameSize), s.handOut start count) := by
  have hguard : (!s.initialized || count == 0) = (count == 0) := by rw [hi]; rfl
  unfold allocContiguousFramesBelow
  rw [hguard]
  rcases Nat.eq_zero_or_pos count with h0 | hcount
  · rw [h0, if_pos (beq_self_eq_true 0)]
    exact Or.inl ⟨rfl, fun start hf => absurd hf.positive (by omega)⟩
  · have hlimit : (if maxPhysAddr = 2 ^ 64 - 1 then s.totalFrames else min s.totalFrames ((maxPhysAddr + 1) / frameSize)) =
        min s.totalFrames ((maxPhysAddr + 1) / frameSize) := by
      have haddr := h.addressable
      split
      · rename_i hmax
        rw [hmax, Nat.min_eq_left]
        exact haddr
      · rfl
    rw [if_neg (by simpa using Nat.ne_of_gt hcount)]
    dsimp only
    rw [hlimit]
    generalize hn : min s.totalFrames ((maxPhysAddr + 1) / frameSize) = n
    by_cases hfew : n < count
    · rw [if_pos hfew]
      exact Or.inl ⟨rfl, fun start hf => by have := hf.below; omega⟩
    · rw [if_neg hfew, searchRun_eq s hcount _ _ (by omega)]
      cases hfirst : firstIn (s.runClear count) 1 (n - count + 1) with
      | none =>
        refine Or.inl ⟨rfl, fun start hf => ?_⟩
        have hbelow := hf.below
        have hbad := firstIn_eq_none.1 hfirst start hf.reserved (by omega)
        rw [runClear_iff.2 hf.unused] at hbad
        cases hbad
      | some start =>
        obtain ⟨hrun, ⟨hlo, hhi⟩, hleast⟩ := firstIn_eq_some.1 hfirst
        refine Or.inr ⟨start, ⟨⟨hcount, hlo, by omega, runClear_iff.1 hrun⟩, fun other hf => ?_⟩, rfl⟩
        by_contra hlt
        have hbad := hleast other hf.reserved (Nat.not_le.1 hlt)
        rw [runClear_iff.2 hf.unused] at hbad
        cases hbad

end State
end Phys
end R4
