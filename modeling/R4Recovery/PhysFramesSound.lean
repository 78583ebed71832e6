import R4Recovery.PhysFrames
/-!
# PhysFramesSound — what keeps the count and the bitmap of the frames

A range that is handed out is clear before and used after it, a range that is given back is clear after it; each call is one
of the two, or changes neither the bitmap nor the count.
-/
namespace R4
namespace Phys

open Bitmap BitScan

namespace State

/-- The clear frames. -/
def clear (s : State) : Finset Nat := (Finset.range s.totalFrames).filter (fun f => s.isUsed f = false)

/-- **The count is of the clear bits**, and every frame and the hint are inside the bitmap. -/
structure Sound (s : State) : Prop where
  length : s.bitmap.length = 8 * s.wordCount
  inside : s.totalFrames ≤ 8 * s.bitmapBytes
  nonempty : 0 < s.totalFrames
  addressable : s.totalFrames ≤ 2 ^ 52
  counted : s.freeFrames = s.clear.card
  hint : s.nextHint ≤ s.totalFrames

theorem mem_clear {s : State} {f : Nat} : f ∈ s.clear ↔ f < s.totalFrames ∧ s.isUsed f = false := by
  rw [clear, Finset.mem_filter, Finset.mem_range]

theorem Sound.bits {s : State} (h : s.Sound) : s.totalFrames ≤ 64 * s.wordCount ∧ s.totalFrames ≤ 8 * s.bitmap.length := by
  have hin := h.inside
  have hlen := h.length
  have hwords : s.wordCount = (s.bitmapBytes + 7) / 8 := rfl
  omega

/-- The state with another bitmap and another count. -/
def repaint (s : State) (bitmap : Bytes) (freeFrames : Nat) : State := { s with bitmap, freeFrames }

/-- A range of frames is taken. -/
def handOut (s : State) (start count : Nat) : State :=
  { s.repaint (setBits 0 true start count s.bitmap) (s.freeFrames - count) with nextHint := start + count }

/-- A clear range inside the frames. -/
structure ClearRun (s : State) (start count : Nat) : Prop where
  inside : start + count ≤ s.totalFrames
  unused : ∀ f, start ≤ f → f < start + count → s.isUsed f = false

theorem isUsed_setBits {s : State} (h : s.Sound) {start count : Nat} (hin : start + count ≤ s.totalFrames) (on : Bool)
    (f : Nat) :
    bitAt (setBits 0 on start count s.bitmap) f = if start ≤ f ∧ f < start + count then on else s.isUsed f := by
  have hlen := h.bits.2
  have hbits := bitAt_setBits (Nat.zero_mod 8) on count start s.bitmap (Nat.zero_le _) (by omega) f
  rw [Nat.zero_add] at hbits
  exact hbits

/-- **A clear range that is handed out leaves the clear frames without it.** -/
theorem ClearRun.clear_handOut {s : State} {start count : Nat} (hr : s.ClearRun start count) (h : s.Sound) :
    (s.handOut start count).clear = s.clear \ Finset.Ico start (start + count) := by
  ext f
  rw [mem_clear, Finset.mem_sdiff, mem_clear, Finset.mem_Ico]
  show f < s.totalFrames ∧ bitAt (setBits 0 true start count s.bitmap) f = false ↔ _
  rw [isUsed_setBits h hr.inside true]
  split <;> simp_all

theorem ClearRun.sound {s : State} {start count : Nat} (hr : s.ClearRun start count) (h : s.Sound) :
    (s.handOut start count).Sound where
  length := by
    show (setBits 0 true start count s.bitmap).length = _
    rw [length_setBits]
    exact h.length
  inside := h.inside
  nonempty := h.nonempty
  addressable := h.addressable
  counted := by
    have hsub : Finset.Ico start (start + count) ⊆ s.clear := fun f hf => by
      have hf := Finset.mem_Ico.1 hf
      have hin := hr.inside
      exact mem_clear.2 ⟨by omega, hr.unused f hf.1 hf.2⟩
    rw [hr.clear_handOut h, Finset.card_sdiff_of_subset hsub, Nat.card_Ico, Nat.add_sub_cancel_left, ← h.counted]
    rfl
  hint := hr.inside

/-! ## Marking -/

theorem clear_repaint {s : State} {bitmap : Bytes} {frame n : Nat} {on : Bool}
    (hbits : ∀ f, bitAt bitmap f = if f = frame then on else s.isUsed f) (hf : frame < s.totalFrames) :
    (s.repaint bitmap n).clear = if on then s.clear.erase frame else insert frame s.clear := by
  ext f
  rw [mem_clear]
  show f < s.totalFrames ∧ bitAt bitmap f = false ↔ _
  rw [hbits]
  cases on
  · simp only [Bool.false_eq_true, if_false, Finset.mem_insert, mem_clear]
    by_cases h : f = frame
    · simp [h, hf]
    · simp [h]
  · simp only [if_true, Finset.mem_erase, mem_clear]
    by_cases h : f = frame
    · simp [h]
    · simp [h]

theorem isUsed_setUsed {s : State} (h : s.Sound) {frame : Nat} (hf : frame < s.totalFrames) (on : Bool) (f : Nat) :
    (s.setUsed frame on).isUsed f = if f = frame then on else s.isUsed f := by
  have hlen := h.bits.2
  exact bitAt_set (by omega) on

theorem Sound.markFrame {s : State} (h : s.Sound) {frame : Nat} (hf : frame < s.totalFrames) (used : Bool) :
    (s.markFrame frame used).Sound ∧ (∃ bitmap n, s.markFrame frame used = s.repaint bitmap n) ∧
      (s.markFrame frame used).clear = if used then s.clear.erase frame else insert frame s.clear := by
  unfold State.markFrame
  by_cases hsame : s.isUsed frame = used
  · rw [if_neg (not_not.2 hsame)]
    refine ⟨h, ⟨s.bitmap, s.freeFrames, rfl⟩, ?_⟩
    cases used
    · exact (Finset.insert_eq_of_mem (mem_clear.2 ⟨hf, hsame⟩)).symm
    · exact (Finset.erase_eq_of_notMem (fun hm => by rw [(mem_clear.1 hm).2] at hsame; cases hsame)).symm
  · rw [if_pos hsame]
    have hclear := clear_repaint (n := if used then s.freeFrames - 1 else s.freeFrames + 1) (isUsed_setUsed h hf used) hf
    refine ⟨⟨?_, h.inside, h.nonempty, h.addressable, ?_, h.hint⟩, ⟨_, _, rfl⟩, hclear⟩
    · show (s.bitmap.set _ _).length = _
      rw [List.length_set]
      exact h.length
    · refine Eq.trans ?_ (congrArg Finset.card hclear).symm
      show (if used then s.freeFrames - 1 else s.freeFrames + 1) = _
      cases used
      · simp only [Bool.false_eq_true, if_false]
        rw [Finset.card_insert_of_notMem (fun hm => hsame (mem_clear.1 hm).2), ← h.counted]
      · have hmem : frame ∈ s.clear := mem_clear.2 ⟨hf, by simpa using hsame⟩
        simp only [if_true]
        rw [Finset.card_erase_of_mem hmem, ← h.counted]

theorem Sound.markFrames (used : Bool) : ∀ (left frame : Nat) {s : State}, s.Sound →
    (State.markFrames used left frame s).Sound
  | 0, _, _, h => h
  | left + 1, frame, s, h => by
    unfold State.markFrames
    split
    · exact h
    · rename_i hlt
      exact Sound.markFrames used left (frame + 1) (h.markFrame (Nat.not_le.1 hlt) used).1

theorem Sound.markRange {s : State} (h : s.Sound) (base len : Nat) (used : Bool) : (s.markRange base len used).Sound := by
  unfold State.markRange
  split
  · exact h
  · split
    · exact h
    · split
      · exact h.markFrames used _ _
      · exact h

theorem Sound.releaseFrames (start : Nat) : ∀ (left offset : Nat) {s : State}, s.Sound →
    start + offset + left ≤ s.totalFrames →
    (State.releaseFrames start left offset s).Sound ∧
    (∃ bitmap n, State.releaseFrames start left offset s = s.repaint bitmap n) ∧
      (State.releaseFrames start left offset s).clear = s.clear ∪ Finset.Ico (start + offset) (start + offset + left)
  | 0, offset, s, h, _ => ⟨h, ⟨s.bitmap, s.freeFrames, rfl⟩, by simp [State.releaseFrames]⟩
  | left + 1, offset, s, h, hin => by
    have hone : (if s.isUsed (start + offset) then { s.setUsed (start + offset) false with freeFrames :=
        s.freeFrames + 1 } else s) =
        s.markFrame (start + offset) false := by
      unfold State.markFrame
      cases s.isUsed (start + offset) <;> rfl
    obtain ⟨hsound, ⟨b, n, heq⟩, hclear⟩ := h.markFrame (by omega : start + offset < s.totalFrames) false
    have htotal : (s.markFrame (start + offset) false).totalFrames = s.totalFrames := by rw [heq]; rfl
    obtain ⟨hsound', ⟨b', n', heq'⟩, hclear'⟩ := hsound.releaseFrames start left (offset + 1) (by rw [htotal]; omega)
    unfold State.releaseFrames
    rw [hone]
    refine ⟨hsound', ⟨b', n', by rw [heq', heq]; rfl⟩, ?_⟩
    rw [hclear', hclear]
    ext f
    simp only [Bool.false_eq_true, if_false, Finset.mem_union, Finset.mem_insert, Finset.mem_Ico]
    constructor
    · rintro ((hf | hf) | hf)
      · exact Or.inr (by omega)
      · exact Or.inl hf
      · exact Or.inr (by omega)
    · rintro (hf | hf)
      · exact Or.inl (Or.inr hf)
      · by_cases hfirst : f = start + offset
        · exact Or.inl (Or.inl hfirst)
        · exact Or.inr (by omega)

end State

/-! ## The start -/

theorem alignUpChecked_eq {value alignment up : Nat} (ha : 0 < alignment) (h : alignUpChecked value alignment = some up) :
    value ≤ up ∧ up % alignment = 0 ∧ up < 2 ^ 64 := by
  obtain ⟨sum, hsum, hup⟩ := Option.map_eq_some_iff.1 h
  unfold checkedAdd at hsum
  split at hsum
  · cases hsum
    have hmod : (value + (alignment - 1)) % alignment < alignment := Nat.mod_lt _ ha
    have hle : (value + (alignment - 1)) % alignment ≤ value + (alignment - 1) := Nat.mod_le _ _
    unfold alignDown at hup
    refine ⟨by omega, ?_, by omega⟩
    rw [← hup]
    exact Nat.sub_mod_eq_zero_of_mod_eq (Nat.mod_mod _ _).symm
  · cases hsum

theorem summarize_le (entries : List MemoryMapEntry) : (summarize entries).2 ≤ highestUsableAddress entries := by
  have hfold : ∀ (es : List MemoryMapEntry) (largest : Nat × Nat) (high : Nat), largest.2 ≤ high →
      (es.foldl (fun largest e => if e.valid ∧ e.kind = .usable ∧ largest.2 < e.usableLen then (e.usableBase, e.usableLen)
        else largest) largest).2 ≤
      es.foldl (fun high e => if e.kind ≠ .usable ∨
          e.usableLen = 0 then high else max high (e.usableBase + e.usableLen)) high := by
    intro es
    induction es with
    | nil => exact fun _ _ h => h
    | cons e es ih =>
      intro largest high h
      refine ih _ _ ?_
      dsimp only
      split
      · rename_i hc
        rw [if_neg (by rintro (hk | hl); exacts [hk hc.2.1, by omega])]
        dsimp only
        omega
      · split <;> omega
  exact hfold entries (0, 0) 0 (Nat.le_refl 0)

theorem blank_sound (ram : Nat → UInt8) (bitmapPhys hhdmOffset : Nat) {bitmapBytes totalFrames : Nat}
    (hpos : 0 < totalFrames)
    (hin : totalFrames ≤ 8 * bitmapBytes) (hmax : totalFrames ≤ 2 ^ 52) :
    (blank ram bitmapPhys bitmapBytes totalFrames hhdmOffset).Sound where
  length := by
    have hwords : wordsOf bitmapBytes = (bitmapBytes + 7) / 8 := rfl
    show (List.replicate bitmapBytes (0xff : UInt8) ++ List.map _ (List.range _)).length = 8 * wordsOf bitmapBytes
    rw [List.length_append, List.length_replicate, List.length_map, List.length_range]
    omega
  inside := hin
  nonempty := hpos
  addressable := hmax
  counted := by
    refine (Finset.card_eq_zero.2 (Finset.filter_eq_empty_iff.2 (fun f hf => ?_))).symm
    have hf : f < totalFrames := Finset.mem_range.1 hf
    show bitAt (List.replicate bitmapBytes 0xff ++ _) f ≠ false
    rw [bitAt_append_left _ (by rw [List.length_replicate]; omega), bitAt, List.getD_eq_getElem?_getD,
      List.getElem?_replicate, if_pos (by omega), Option.getD_some, bit_full ⟨f % 8, Nat.mod_lt _ (by decide)⟩]
    decide
  hint := Nat.zero_le _

theorem State.Sound.openUsable : ∀ (entries : List MemoryMapEntry) {s : State}, s.Sound → (openUsable entries s).Sound
  | [], _, h => h
  | e :: entries, s, h => by
    have hone : (if e.kind = .usable then s.markRange e.usableBase e.usableLen false else s).Sound := by
      split
      · exact h.markRange _ _ _
      · exact h
    exact State.Sound.openUsable entries hone

/-- **The allocator starts sound.** -/
theorem init_sound {ram : Nat → UInt8} {entries : List MemoryMapEntry} {hhdm : Option Nat} {claim : Nat → Nat → Bool}
    {s : State}
    (h : init ram entries hhdm claim = some s) : s.Sound ∧ s.initialized = true := by
  unfold init at h
  obtain ⟨_, _, h⟩ := Option.bind_eq_some_iff.1 h
  obtain ⟨hhdmOffset, _, h⟩ := Option.bind_eq_some_iff.1 h
  obtain ⟨_, hlargest, h⟩ := Option.bind_eq_some_iff.1 h
  obtain ⟨top, htop, h⟩ := Option.bind_eq_some_iff.1 h
  obtain ⟨bits, hbits, h⟩ := Option.bind_eq_some_iff.1 h
  obtain ⟨bitmapEnd, _, h⟩ := Option.bind_eq_some_iff.1 h
  obtain ⟨largestEnd, _, h⟩ := Option.bind_eq_some_iff.1 h
  obtain ⟨_, _, h⟩ := Option.bind_eq_some_iff.1 h
  obtain ⟨claimEnd, _, h⟩ := Option.bind_eq_some_iff.1 h
  obtain ⟨_, _, h⟩ := Option.bind_eq_some_iff.1 h
  cases h
  have hne : (summarize entries).2 ≠ 0 := (Option.guard_eq_some' _).1 hlargest
  have hsmall := summarize_le entries
  obtain ⟨htop1, htop2, htop3⟩ := alignUpChecked_eq (by decide) htop
  obtain ⟨hbits1, hbits2, _⟩ := alignUpChecked_eq (by decide) hbits
  have hframe : frameSize = 4096 := rfl
  have hframes : top / frameSize = top / 4096 := rfl
  rw [hframe] at htop2 hbits1
  have hblank : (blank ram (summarize entries).1 (bits / 8) (top / frameSize) hhdmOffset).Sound :=
    blank_sound ram _ _ (by omega) (by omega) (by omega)
  have hmarked := ((hblank.openUsable entries).markRange 0 frameSize true).markRange (summarize entries).1 (bits / 8) true
  exact ⟨⟨hmarked.length, hmarked.inside, hmarked.nonempty, hmarked.addressable, hmarked.counted, hmarked.hint⟩, rfl⟩

end Phys
end R4
