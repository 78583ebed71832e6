import R4Recovery.PhysFramesSound
/-!
# PhysFramesScan — the scan by words against the scan by frames

Both scans look for a clear frame from the hint on, and then from frame 1 on.  The scan by words has one visit more than
there are words: the second visit to the word of the hint.  A clear frame 0 costs that visit.
-/
namespace R4
namespace Phys
namespace State

open Bitmap BitScan

/-- A frame that can be handed out. -/
def isOpen (s : State) (frame : Nat) : Bool := !s.isUsed frame && decide (frame < s.totalFrames)

theorem isOpen_iff {s : State} {f : Nat} : s.isOpen f = true ↔ s.isUsed f = false ∧ f < s.totalFrames := by
  rw [isOpen, Bool.and_eq_true, Bool.not_eq_true', decide_eq_true_eq]

theorem isOpen_false {s : State} {f : Nat} : s.isOpen f = false ↔ (f < s.totalFrames → s.isUsed f = true) := by
  rw [← Bool.not_eq_true, isOpen_iff, not_and]
  constructor
  · intro h hf
    by_contra hu
    exact h (by simpa using hu) hf
  · intro h hu hf
    rw [h hf] at hu
    cases hu

/-! ## By frames -/

theorem scanLinear_run (s : State) (rest : Nat) : ∀ (k frame : Nat), 1 ≤ frame → frame + k ≤ s.totalFrames →
    s.scanLinear (k + rest) frame = (firstIn s.isOpen frame (frame + k)).or (s.scanLinear rest (frame + k))
  | 0, frame, _, _ => by
    rw [Nat.zero_add, Nat.add_zero, firstIn_empty (Nat.le_refl _), Option.none_or]
  | k + 1, frame, hpos, hin => by
    have hsum : k + 1 + rest = (k + rest) + 1 := by omega
    have hend : frame + (k + 1) = frame + 1 + k := by omega
    rw [hsum, scanLinear, firstIn_cons (by omega), hend]
    have hlt : ¬ s.totalFrames ≤ frame := by omega
    rw [if_neg hlt, if_neg (by omega)]
    by_cases hu : s.isUsed frame = true
    · rw [if_pos hu, if_neg (by rw [Bool.not_eq_true, isOpen_false]; exact fun _ => hu),
        scanLinear_run s rest k (frame + 1) (by omega) (by omega)]
    · rw [if_neg hu, if_pos (isOpen_iff.2 ⟨by simpa using hu, by omega⟩), Option.some_or]

theorem scanLinear_eq {s : State} (h : s.Sound) : s.scanLinear s.totalFrames s.nextHint =
    (firstIn s.isOpen (max s.nextHint 1) s.totalFrames).or (firstIn s.isOpen 1 s.nextHint) := by
  have hpos := h.nonempty
  have hhint := h.hint
  -- a scan that is about to wrap goes on at frame 1
  have hwrap : ∀ left frame, frame = 0 ∨ s.totalFrames ≤ frame → s.scanLinear (left + 1) frame = s.scanLinear left 1 := by
    intro left frame hframe
    rw [scanLinear, if_pos (by split <;> omega)]
  have hlow : ∀ left, left + 1 ≤ s.totalFrames → s.scanLinear left 1 = firstIn s.isOpen 1 (1 + left) := by
    intro left hleft
    have hrun := scanLinear_run s 0 left 1 (Nat.le_refl 1) (by omega)
    rw [Nat.add_zero] at hrun
    rw [hrun, scanLinear, Option.or_none]
  rcases Nat.eq_zero_or_pos s.nextHint with hzero | hstart
  · obtain ⟨left, hleft⟩ : ∃ left, s.totalFrames = left + 1 := ⟨s.totalFrames - 1, by omega⟩
    have hend : 1 + left = s.totalFrames := by omega
    rw [hzero, firstIn_empty (by decide : 0 ≤ 1), Option.or_none]
    conv_lhs => rw [hleft]
    rw [hwrap left 0 (Or.inl rfl), hlow left (by omega), hend]
    rfl
  · have hmax : max s.nextHint 1 = s.nextHint := by omega
    obtain ⟨left, hleft⟩ : ∃ left, s.nextHint = left + 1 := ⟨s.nextHint - 1, by omega⟩
    have hsplit : s.totalFrames = (s.totalFrames - s.nextHint) + (left + 1) := by omega
    have hend : s.nextHint + (s.totalFrames - s.nextHint) = s.totalFrames := by omega
    have hhead : 1 + left = s.nextHint := by omega
    rw [hmax]
    conv_lhs => rw [hsplit]
    rw [scanLinear_run s (left + 1) _ s.nextHint hstart (by omega), hend, hwrap left _ (Or.inr (Nat.le_refl _)),
      hlow left (by omega), hhead]

/-! ## By words -/

/-- The word and the bit of a frame. -/
def place (frame : Nat) : Nat × Nat := (frame / 64, frame % 64)

theorem place_eq {wi bit : Nat} (h : bit < 64) : place (64 * wi + bit) = (wi, bit) := by
  unfold place
  rw [Prod.mk.injEq]
  omega

theorem firstClear_word (s : State) (wi : Nat) {start : Nat} (hs : start < 64) :
    (firstClear (wordAt s.bitmap wi) start).map (64 * wi + ·) = firstIn (fun f => !s.isUsed f) (64 * wi + start)
    (64 * wi + 64) := by
  rw [firstClear_eq _ hs, firstIn_shift]
  congr 1
  exact firstIn_congr (fun k _ hk => by rw [wordAt_bit _ _ hk]; rfl)

theorem scanWords_step {s : State} {wi start : Nat} (left : Nat) (hw : wi < s.wordCount) (hs : start < 64)
    (hpos : 1 ≤ 64 * wi + start) :
    s.scanWords (left + 1) wi start =
      ((firstIn s.isOpen (64 * wi + start) (64 * wi + 64)).map place).or (s.scanWords left (wi + 1) 0) := by
  have hword := firstClear_word s wi hs
  rw [scanWords]
  rw [if_neg (by omega)]
  dsimp only
  cases hfc : firstClear (wordAt s.bitmap wi) start with
  | none =>
    rw [hfc, Option.map_none] at hword
    have hnone : firstIn s.isOpen (64 * wi + start) (64 * wi + 64) = none := by
      refine firstIn_eq_none.2 (fun f hlo hhi => isOpen_false.2 (fun _ => ?_))
      have := firstIn_eq_none.1 hword.symm f hlo hhi
      simpa using this
    rw [hnone, Option.map_none, Option.none_or]
  | some bit =>
    rw [hfc, Option.map_some] at hword
    obtain ⟨hclear, ⟨hlo, hhi⟩, hleast⟩ := firstIn_eq_some.1 hword.symm
    have hcomm : wi * 64 + bit = 64 * wi + bit := by omega
    dsimp only
    rw [hcomm, if_neg (by omega)]
    by_cases hin : 64 * wi + bit < s.totalFrames
    · have hfirst : firstIn s.isOpen (64 * wi + start) (64 * wi + 64) = some (64 * wi + bit) :=
        firstIn_eq_some.2 ⟨isOpen_iff.2 ⟨by simpa using hclear, hin⟩, ⟨hlo, hhi⟩, fun g hg hgb =>
          isOpen_false.2 (fun _ => by simpa using hleast g hg hgb)⟩
      rw [if_pos hin, hfirst, Option.map_some, Option.some_or, place_eq (by omega)]
    · have hnone : firstIn s.isOpen (64 * wi + start) (64 * wi + 64) = none := by
        refine firstIn_eq_none.2 (fun f hf _ => isOpen_false.2 (fun hft => ?_))
        have := hleast f hf (by omega)
        simpa using this
      rw [if_neg hin, hnone, Option.map_none, Option.none_or]

theorem scanWords_run {s : State} (rest : Nat) : ∀ (k : Nat) {wi start : Nat}, wi + k ≤ s.wordCount → start < 64 → 0 < k →
    1 ≤ 64 * wi + start → s.scanWords (k + rest) wi start =
      ((firstIn s.isOpen (64 * wi + start) (64 * (wi + k))).map place).or (s.scanWords rest (wi + k) 0)
  | 0, _, _, _, _, hk, _ => absurd hk (Nat.lt_irrefl 0)
  | k + 1, wi, start, hin, hs, _, hpos => by
    have hsum : k + 1 + rest = (k + rest) + 1 := by omega
    rw [hsum, scanWords_step (k + rest) (by omega) hs hpos]
    rcases Nat.eq_zero_or_pos k with hk | hk
    · subst hk
      rw [Nat.zero_add, Nat.zero_add]
      rfl
    · have hnext : wi + (k + 1) = wi + 1 + k := by omega
      rw [hnext, scanWords_run rest k (by omega) (by decide) hk (by omega),
        firstIn_split (by omega : 64 * wi + start ≤ 64 * wi + 64) (by omega : 64 * wi + 64 ≤ 64 * (wi + 1 + k)),
        Option.map_or, Option.or_assoc]
      rfl

theorem scanWords_front {s : State} {k : Nat} (rest : Nat) (hk : k ≤ s.wordCount) (hpos : 0 < k) :
    s.scanWords (k + rest) 0 1 = ((firstIn s.isOpen 1 (64 * k)).map place).or (s.scanWords rest k 0) := by
  have hin : 0 + k ≤ s.wordCount := by omega
  have hrun := scanWords_run rest k hin (by decide : 1 < 64) hpos (by decide)
  simpa only [Nat.zero_add, Nat.mul_zero] using hrun

theorem scanWords_only {s : State} {k : Nat} (hk : k ≤ s.wordCount) :
    s.scanWords k 0 1 = (firstIn s.isOpen 1 (64 * k)).map place := by
  rcases Nat.eq_zero_or_pos k with rfl | hpos
  · rfl
  · have hrun := scanWords_front 0 hk hpos
    rwa [Nat.add_zero, scanWords, Option.or_none] at hrun

theorem scanWords_wrap {s : State} {wi start : Nat} (left : Nat) (h : s.wordCount ≤ wi) :
    s.scanWords left wi start = s.scanWords left 0 0 := by
  cases left with
  | zero => rfl
  | succ left =>
    rw [scanWords, scanWords]
    by_cases h0 : s.wordCount ≤ 0
    · rw [if_pos h, if_pos h0]
    · rw [if_pos h, if_neg h0]

/-- **A clear frame 0 costs a visit.** -/
theorem scanWords_zero {s : State} (left : Nat) (h : 0 < s.wordCount) :
    s.scanWords (left + 1) 0 0 = if s.isUsed 0 then s.scanWords (left + 1) 0 1 else s.scanWords left 0 1 := by
  have hword := firstClear_word s 0 (by decide : 0 < 64)
  have hnext := firstClear_word s 0 (by decide : 1 < 64)
  rw [firstIn_cons (by omega)] at hword
  by_cases hu : s.isUsed 0 = true
  · have hsame : firstClear (wordAt s.bitmap 0) 0 = firstClear (wordAt s.bitmap 0) 1 := by
      rw [if_neg (by simpa using hu)] at hword
      refine Option.map_injective (fun a b hab => Nat.add_left_cancel hab) (hword.trans hnext.symm)
    rw [if_pos hu, scanWords, scanWords, if_neg (by omega), if_neg (by omega)]
    dsimp only
    rw [hsame]
  · have hzero : firstClear (wordAt s.bitmap 0) 0 = some 0 := by
      rw [if_pos (by simpa using hu)] at hword
      obtain ⟨bit, hbit, heq⟩ := Option.map_eq_some_iff.1 hword
      rw [hbit, show bit = 0 by omega]
    rw [if_neg hu, scanWords, if_neg (by omega)]
    dsimp only
    rw [hzero]
    rfl

theorem firstIn_tail {s : State} (h : s.Sound) {lo : Nat} (hlo : lo ≤ s.totalFrames) :
    firstIn s.isOpen lo (64 * s.wordCount) = firstIn s.isOpen lo s.totalFrames := by
  rw [firstIn_split hlo h.bits.1, firstIn_eq_none.2 (fun f hf _ => isOpen_false.2 (fun hft => absurd hft (Nat.not_lt.2 hf))),
    Option.or_none]

theorem scanWords_exhausted {s : State} (h : ∀ f, 1 ≤ f → s.isOpen f = false) (hw : 0 < s.wordCount) : ∀ (left wi : Nat)
    {start : Nat}, start < 64 → s.scanWords left wi start = none
  | 0, _, _, _ => rfl
  | left + 1, wi, start, hs => by
    -- a visit behind frame 0 finds nothing
    have hvisit : ∀ wi start, wi < s.wordCount → start < 64 → 1 ≤ 64 * wi + start → s.scanWords (left + 1)
        wi start = none := by
      intro wi start hlt hs hpos
      rw [scanWords_step left hlt hs hpos, firstIn_eq_none.2 (fun f hf _ => h f (by omega)), Option.map_none, Option.none_or]
      exact scanWords_exhausted h hw left (wi + 1) (by decide)
    have hfirst : s.scanWords (left + 1) 0 0 = none := by
      rw [scanWords_zero left hw]
      split
      · exact hvisit 0 1 hw (by decide) (by decide)
      · exact scanWords_exhausted h hw left 0 (by decide)
    by_cases hlt : wi < s.wordCount
    · by_cases hpos : 1 ≤ 64 * wi + start
      · exact hvisit wi start hlt hs hpos
      · have hwi : wi = 0 := by omega
        have hstart : start = 0 := by omega
        rw [hwi, hstart, hfirst]
    · rw [scanWords_wrap _ (Nat.not_lt.1 hlt), hfirst]

/-- **The scan by words**: a frame from the hint on; else one below it, but with frame 0 clear none of the hint's word. -/
theorem scanWords_eq {s : State} (h : s.Sound) : s.scanWords (s.wordCount + 1) (s.nextHint / 64) (s.nextHint % 64) =
    ((firstIn s.isOpen (max s.nextHint 1) s.totalFrames).or
      (firstIn s.isOpen 1 (if s.isUsed 0 then s.nextHint else 64 * (s.nextHint / 64)))).map place := by
  have hbits := h.bits.1
  have hhint := h.hint
  have hsome := h.nonempty
  have hwords : 0 < s.wordCount := by omega
  have hmod : s.nextHint % 64 < 64 := Nat.mod_lt _ (by decide)
  have hdiv : 64 * (s.nextHint / 64) + s.nextHint % 64 = s.nextHint := Nat.div_add_mod _ _
  have hexhausted : ∀ left wi start, start < 64 → firstIn s.isOpen 1 s.totalFrames = none →
      s.scanWords left wi start = none := by
    intro left wi start hstart hnone
    refine scanWords_exhausted (fun f hf => ?_) hwords left wi hstart
    by_cases hft : f < s.totalFrames
    · exact firstIn_eq_none.1 hnone f hf hft
    · exact isOpen_false.2 (fun hlt => absurd hlt hft)
  rcases Nat.eq_zero_or_pos s.nextHint with hzero | hpos
  · have hempty : (if s.isUsed 0 then s.nextHint else 64 * (s.nextHint / 64)) = 0 := by rw [hzero]; split <;> rfl
    rw [hempty, firstIn_empty (by decide : 0 ≤ 1), Option.or_none, hzero]
    show s.scanWords (s.wordCount + 1) 0 0 = (firstIn s.isOpen 1 s.totalFrames).map place
    have hall := firstIn_tail h (show 1 ≤ s.totalFrames from hsome)
    rw [scanWords_zero _ hwords]
    split
    · rw [scanWords_front 1 (Nat.le_refl _) hwords, hall]
      cases hfirst : firstIn s.isOpen 1 s.totalFrames with
      | none => rw [hexhausted _ _ _ (by decide) hfirst]; rfl
      | some f => rfl
    · rw [scanWords_only (Nat.le_refl _), hall]
  · have hmax : max s.nextHint 1 = s.nextHint := by omega
    rw [hmax]
    -- from the hint to the last word, then from the first word
    have hhead : s.scanWords (s.wordCount + 1) (s.nextHint / 64) (s.nextHint % 64) =
        ((firstIn s.isOpen s.nextHint s.totalFrames).map place).or (s.scanWords (s.nextHint / 64 + 1) 0 0) := by
      by_cases hlast : s.nextHint / 64 < s.wordCount
      · have hsum : s.wordCount + 1 = (s.wordCount - s.nextHint / 64) + (s.nextHint / 64 + 1) := by omega
        have hend : s.nextHint / 64 + (s.wordCount - s.nextHint / 64) = s.wordCount := by omega
        conv_lhs => rw [hsum]
        rw [scanWords_run _ _ (by omega) hmod (by omega) (by omega), hdiv, hend, firstIn_tail h hhint,
          scanWords_wrap _ (Nat.le_refl _)]
      · have hfull : s.nextHint / 64 = s.wordCount := by omega
        rw [firstIn_empty (by omega), Option.map_none, Option.none_or, scanWords_wrap _ (by omega), hfull]
    rw [hhead]
    cases hfirst : firstIn s.isOpen s.nextHint s.totalFrames with
    | some f => rfl
    | none =>
      rw [Option.map_none, Option.none_or, Option.none_or, scanWords_zero _ hwords]
      have hskip : ∀ hi, s.nextHint ≤ hi → firstIn s.isOpen 1 hi = firstIn s.isOpen 1 s.nextHint := by
        intro hi hle
        have hbehind : firstIn s.isOpen s.nextHint hi = none := firstIn_eq_none.2 (fun f hf _ => by
          by_cases hft : f < s.totalFrames
          · exact firstIn_eq_none.1 hfirst f hf hft
          · exact isOpen_false.2 (fun hlt => absurd hlt hft))
        rw [firstIn_split (by omega : 1 ≤ s.nextHint) hle, hbehind, Option.or_none]
      split
      · by_cases hlast : s.nextHint / 64 < s.wordCount
        · rw [scanWords_only hlast, hskip _ (by omega)]
        · have hfull : s.nextHint / 64 = s.wordCount := by omega
          have hend : 64 * s.wordCount = s.nextHint := by omega
          rw [hfull, scanWords_front 1 (Nat.le_refl _) hwords, hend]
          cases hlow : firstIn s.isOpen 1 s.nextHint with
          | some f => rfl
          | none =>
            rw [hexhausted _ _ _ (by decide) (by rw [hskip _ hhint, hlow])]
            rfl
      · rw [scanWords_only (by omega)]

end State
end Phys
end R4
