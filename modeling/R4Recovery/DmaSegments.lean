import Mathlib
/-!
# DmaSegments — scatter lists for DMA

`dma_segments.zig`: physical ranges are cut at the limits of a device, and a cut joins the last segment where it can.
Addresses and lengths are natural numbers; the checks against 64 and 32 bits are those of the code, and an addition that
would overflow there traps.
-/
namespace R4
namespace Dma

def pageSize : Nat := 4096

def maxSegments : Nat := 64

structure Segment where
  physAddr : Nat
  bytes : Nat
  deriving DecidableEq, Repr

structure Constraints where
  dmaMask : UInt64 := 0xFFFFFFFFFFFFFFFF
  boundary : UInt64 := 0
  maxSegmentBytes : UInt32 := 0
  alignment : UInt32 := 1
  maxSegmentCount : UInt16 := 64
  deriving DecidableEq, Repr

inductive Error where
  | invalidArgument | addressLimit | alignment | tooManySegments | overflow
  deriving DecidableEq, Repr

/-- How a run ends that does not succeed: with an error, or in a failed safety check. -/
inductive Stop where
  | error (e : Error)
  | trap
  deriving DecidableEq, Repr

def isPowerOfTwo (value : Nat) : Bool := value != 0 && value &&& (value - 1) == 0

def isPowerOfTwoOrZero (value : Nat) : Bool := value == 0 || value &&& (value - 1) == 0

section Build

variable (c : Constraints)

def validateConstraints : Bool :=
  c.maxSegmentCount != 0 && c.maxSegmentCount.toNat ≤ maxSegments && isPowerOfTwoOrZero c.boundary.toNat &&
    isPowerOfTwo c.alignment.toNat && (c.boundary == 0 || c.alignment.toNat ≤ c.boundary.toNat)

/-- The most bytes of a segment. -/
def maxBytes : Nat := if c.maxSegmentBytes = 0 then 2 ^ 32 - 1 else c.maxSegmentBytes.toNat

/-- What is left up to the next boundary, no more than `take`. -/
def clip (current take : Nat) : Nat :=
  if c.boundary = 0 then take else min take (c.boundary.toNat - (current &&& (c.boundary.toNat - 1)))

/-- What one turn takes: if the range goes on behind it, the next start is kept aligned. -/
def takeAt (current remaining : Nat) : Nat :=
  let take := clip c current (min remaining (maxBytes c))
  if take < remaining ∧ 1 < c.alignment.toNat then take - (take &&& (c.alignment.toNat - 1)) else take

/-- Whether a cut goes on with a segment. -/
def joins (previous : Segment) (current take : Nat) : Bool :=
  previous.physAddr + previous.bytes == current && previous.bytes + take ≤ maxBytes c &&
    (c.boundary == 0 || previous.physAddr / c.boundary.toNat == current / c.boundary.toNat)

def addSegment (list : List Segment) (current take : Nat) : Except Stop (List Segment) :=
  if current &&& (c.alignment.toNat - 1) ≠ 0 then .error (.error .alignment)
  else if c.maxSegmentCount.toNat ≤ list.length then .error (.error .tooManySegments)
  else .ok (list ++ [⟨current, take⟩])

/-- A cut joins the last segment or becomes a new one. -/
def place (list : List Segment) (current take : Nat) : Except Stop (List Segment) :=
  match list.getLast? with
  | none => addSegment c list current take
  | some previous =>
    if maxSegments < list.length then .error .trap
    else if 2 ^ 64 ≤ previous.physAddr + previous.bytes then .error (.error .overflow)
    else if joins c previous current take then .ok (list.dropLast ++ [⟨previous.physAddr, previous.bytes + take⟩])
    else addSegment c list current take

/-- The loop of `appendPhysicalRange`, which changes the list as it goes. -/
def appendLoop : Nat → Nat → Nat → List Segment → Except Stop Unit × List Segment
  | 0, _, _, list => (.ok (), list)
  | fuel + 1, current, remaining, list =>
    if remaining = 0 then (.ok (), list)
    else
      let take := takeAt c current remaining
      if take = 0 ∨ 2 ^ 32 ≤ take then (.error (.error .overflow), list)
      else match place c list current take with
        | .error stop => (.error stop, list)
        | .ok list =>
          if 2 ^ 64 ≤ current + take then (.error .trap, list)
          else appendLoop fuel (current + take) (remaining - take) list

def appendPhysicalRange (list : List Segment) (start byteCount : Nat) : Except Stop Unit × List Segment :=
  if byteCount = 0 then (.ok (), list)
  else if 2 ^ 64 ≤ start + (byteCount - 1) then (.error (.error .overflow), list)
  else if c.dmaMask.toNat < start + (byteCount - 1) then (.error (.error .addressLimit), list)
  else appendLoop c byteCount start byteCount list

/-- The loop over the frames: an offset in the first one only. -/
def buildLoop : List Nat → Nat → Nat → List Segment → Except Stop (List Segment)
  | [], _, remaining, list => if remaining ≠ 0 then .error (.error .invalidArgument) else .ok list
  | frame :: frames, offset, remaining, list =>
    if frame &&& (pageSize - 1) ≠ 0 then .error (.error .invalidArgument)
    else match appendPhysicalRange c list (frame + offset) (min remaining (pageSize - offset)) with
      | (.ok (), list) => buildLoop frames 0 (remaining - min remaining (pageSize - offset)) list
      | (.error stop, _) => .error stop

def buildFromFrames (frames : List Nat) (firstOffset bytes : Nat) : Except Stop (List Segment) :=
  if !validateConstraints c then .error (.error .invalidArgument)
  else if bytes = 0 ∨ pageSize ≤ firstOffset then .error (.error .invalidArgument)
  else if (firstOffset + bytes + pageSize - 1) / pageSize ≠ frames.length then .error (.error .invalidArgument)
  else buildLoop c frames firstOffset bytes []

/-- The loop over the segments of another list. -/
def constrainLoop : List Segment → List Segment → Except Stop (List Segment)
  | [], list => .ok list
  | segment :: source, list =>
    if segment.bytes = 0 then .error (.error .invalidArgument)
    else match appendPhysicalRange c list segment.physAddr segment.bytes with
      | (.ok (), list) => constrainLoop source list
      | (.error stop, _) => .error stop

def constrain (source : List Segment) : Except Stop (List Segment) :=
  if !validateConstraints c then .error (.error .invalidArgument)
  else if source.length = 0 ∨ maxSegments < source.length then .error (.error .invalidArgument)
  else constrainLoop c source []

def singleRange (physAddr bytes : Nat) : Except Stop (List Segment) :=
  if !validateConstraints c then .error (.error .invalidArgument)
  else if bytes = 0 then .error (.error .invalidArgument)
  else match appendPhysicalRange c [] physAddr bytes with
    | (.ok (), list) => .ok list
    | (.error stop, _) => .error stop

def appendRange (list : List Segment) (physAddr bytes : Nat) : Except Stop Unit × List Segment :=
  if !validateConstraints c then (.error (.error .invalidArgument), list)
  else if bytes = 0 then (.error (.error .invalidArgument), list)
  else appendPhysicalRange c list physAddr bytes

end Build

/-! ## Cuts -/

variable {c : Constraints} {current remaining take : Nat} {previous : Segment}

/-- What `validateConstraints` lets through. -/
structure Valid (c : Constraints) : Prop where
  alignment : ∃ k, c.alignment.toNat = 2 ^ k
  boundary : c.boundary ≠ 0 → (∃ k, c.boundary.toNat = 2 ^ k) ∧ c.alignment.toNat ∣ c.boundary.toNat
  count : 0 < c.maxSegmentCount.toNat ∧ c.maxSegmentCount.toNat ≤ maxSegments

theorem toNat_ne_zero {b : UInt64} (h : b ≠ 0) : b.toNat ≠ 0 := by
  intro hb
  exact h (UInt64.toNat_inj.1 hb)

theorem valid_of_validate (h : validateConstraints c = true) : Valid c := by
  unfold validateConstraints at h
  simp only [Bool.and_eq_true, Bool.or_eq_true, bne_iff_ne, beq_iff_eq, decide_eq_true_eq] at h
  obtain ⟨⟨⟨⟨hcount, hmax⟩, hboundary⟩, halign⟩, horder⟩ := h
  unfold isPowerOfTwo at halign
  rw [Bool.and_eq_true, bne_iff_ne, beq_iff_eq, Nat.ne_zero_and_sub_one_eq_zero_iff_isPowerOfTwo] at halign
  refine ⟨halign, fun hb => ?_, ?_, hmax⟩
  · have hpow : ∃ k, c.boundary.toNat = 2 ^ k := by
      unfold isPowerOfTwoOrZero at hboundary
      rw [Bool.or_eq_true, beq_iff_eq, beq_iff_eq] at hboundary
      exact Nat.ne_zero_and_sub_one_eq_zero_iff_isPowerOfTwo.1 ⟨toNat_ne_zero hb, hboundary.resolve_left (toNat_ne_zero hb)⟩
    refine ⟨hpow, ?_⟩
    obtain ⟨j, hj⟩ := halign
    obtain ⟨k, hk⟩ := hpow
    have hle := horder.resolve_left hb
    rw [hj, hk] at hle ⊢
    exact Nat.pow_dvd_pow 2 ((Nat.pow_le_pow_iff_right (by decide)).1 hle)
  · rcases Nat.eq_zero_or_pos c.maxSegmentCount.toNat with h0 | hpos
    · exact absurd (UInt16.toNat_inj.1 h0) hcount
    · exact hpos

theorem Valid.alignment_pos (h : Valid c) : 0 < c.alignment.toNat := by
  obtain ⟨k, hk⟩ := h.alignment
  rw [hk]
  exact Nat.two_pow_pos k

theorem Valid.and_alignment (h : Valid c) (x : Nat) : x &&& (c.alignment.toNat - 1) = x % c.alignment.toNat := by
  obtain ⟨k, hk⟩ := h.alignment
  rw [hk, Nat.and_two_pow_sub_one_eq_mod]

theorem Valid.and_boundary (h : Valid c) (hb : c.boundary ≠ 0) (x : Nat) :
    x &&& (c.boundary.toNat - 1) = x % c.boundary.toNat := by
  obtain ⟨k, hk⟩ := (h.boundary hb).1
  rw [hk, Nat.and_two_pow_sub_one_eq_mod]

theorem maxBytes_pos (c : Constraints) : 0 < maxBytes c ∧ maxBytes c < 2 ^ 32 := by
  unfold maxBytes
  split
  · decide
  · rename_i h
    refine ⟨Nat.pos_of_ne_zero (fun h0 => h (UInt32.toNat_inj.1 h0)), UInt32.toNat_lt c.maxSegmentBytes⟩

theorem Valid.clip_spec (h : Valid c) (current take : Nat) :
    clip c current take ≤ take ∧ (0 < take → 0 < clip c current take) ∧
    (c.boundary ≠ 0 → current % c.boundary.toNat + clip c current take ≤ c.boundary.toNat) ∧
    (clip c current take < take → c.boundary ≠ 0 ∧ current % c.boundary.toNat + clip c current take = c.boundary.toNat) := by
  unfold clip
  by_cases hb : c.boundary = 0
  · rw [if_pos hb]
    exact ⟨Nat.le_refl _, id, fun hne => absurd hb hne, fun hlt => absurd hlt (Nat.lt_irrefl _)⟩
  · rw [if_neg hb, h.and_boundary hb]
    have hlt := Nat.mod_lt current (Nat.pos_of_ne_zero (toNat_ne_zero hb))
    refine ⟨Nat.min_le_left _ _, ?_, ?_, ?_⟩
    · intro hpos
      omega
    · intro _
      omega
    · intro hcut
      exact ⟨hb, by omega⟩

theorem Valid.takeAt_cases (h : Valid c) (current remaining : Nat) :
    (takeAt c current remaining = remaining ∧ clip c current (min remaining (maxBytes c)) = remaining) ∨
    (takeAt c current remaining < remaining ∧ clip c current (min remaining (maxBytes c)) < remaining ∧
      takeAt c current remaining + clip c current (min remaining (maxBytes c)) % c.alignment.toNat =
        clip c current (min remaining (maxBytes c)) ∧ c.alignment.toNat ∣ takeAt c current remaining) := by
  have hclip := (h.clip_spec current (min remaining (maxBytes c))).1
  unfold takeAt
  dsimp only
  generalize clip c current (min remaining (maxBytes c)) = t at hclip ⊢
  rw [h.and_alignment]
  have hle := Nat.mod_le t c.alignment.toNat
  by_cases hcut : t < remaining
  · right
    by_cases hone : 1 < c.alignment.toNat
    · rw [if_pos ⟨hcut, hone⟩]
      exact ⟨by omega, hcut, Nat.sub_add_cancel hle, Nat.dvd_sub_mod t⟩
    · have hpos := h.alignment_pos
      have heq : c.alignment.toNat = 1 := by omega
      rw [if_neg (fun hh => hone hh.2), heq, Nat.mod_one]
      exact ⟨hcut, hcut, rfl, Nat.one_dvd t⟩
  · rw [if_neg (fun hh => hcut hh.1)]
    exact .inl ⟨by omega, by omega⟩

/-- **The limits of a cut.** -/
theorem Valid.takeAt_le (h : Valid c) (current remaining : Nat) :
    takeAt c current remaining ≤ remaining ∧ takeAt c current remaining ≤ maxBytes c ∧
    (c.boundary ≠ 0 → current % c.boundary.toNat + takeAt c current remaining ≤ c.boundary.toNat) := by
  obtain ⟨hle, -, hwindow, -⟩ := h.clip_spec current (min remaining (maxBytes c))
  have hshort : takeAt c current remaining ≤ clip c current (min remaining (maxBytes c)) := by
    rcases h.takeAt_cases current remaining with ⟨h1, h2⟩ | ⟨_, _, h3, _⟩
    · omega
    · omega
  refine ⟨by omega, by omega, fun hb => ?_⟩
  have hroom := hwindow hb
  omega

theorem Valid.takeAt_pos (h : Valid c) (haligned : current % c.alignment.toNat = 0) (hroom : c.alignment.toNat ≤ maxBytes c)
    (hpos : 0 < remaining) : 0 < takeAt c current remaining := by
  have hmax := (maxBytes_pos c).1
  have hA := h.alignment_pos
  obtain ⟨hle, hnonzero, -, hcut⟩ := h.clip_spec current (min remaining (maxBytes c))
  have hclip := hnonzero (by omega)
  rcases h.takeAt_cases current remaining with ⟨h1, -⟩ | ⟨_, hless, h3, _⟩
  · omega
  · generalize clip c current (min remaining (maxBytes c)) = t at *
    by_contra hzero
    have hsmall : t < c.alignment.toNat := by
      have hmod := Nat.mod_lt t hA
      omega
    -- a cut shorter than the alignment is no boundary, so it is all that a segment may have
    obtain ⟨hb, hwindow⟩ := hcut (by omega)
    have hdvd : c.alignment.toNat ∣ t := by
      have hmod : c.alignment.toNat ∣ current % c.boundary.toNat :=
        (Nat.dvd_mod_iff (h.boundary hb).2).2 (Nat.dvd_of_mod_eq_zero haligned)
      have hall : c.alignment.toNat ∣ current % c.boundary.toNat + t := by
        rw [hwindow]
        exact (h.boundary hb).2
      exact (Nat.dvd_add_right hmod).1 hall
    exact absurd (Nat.le_of_dvd hclip hdvd) (by omega)

/-- **A cut that is not the last of its range does not join with the next one.** -/
theorem Valid.not_joins (h : Valid c) (hcut : takeAt c current remaining < remaining)
    (hnext : 0 < takeAt c (current + takeAt c current remaining) (remaining - takeAt c current remaining))
    (hbytes : takeAt c current remaining ≤ previous.bytes)
    (hwindow : c.boundary ≠ 0 → previous.physAddr / c.boundary.toNat = current / c.boundary.toNat) :
    joins c previous (current + takeAt c current remaining)
      (takeAt c (current + takeAt c current remaining) (remaining - takeAt c current remaining)) = false := by
  have hA := h.alignment_pos
  rcases h.takeAt_cases current remaining with ⟨hwhole, -⟩ | ⟨_, hless, hround, hdvd⟩
  · omega
  obtain ⟨hle, -, -, hboundary⟩ := h.clip_spec current (min remaining (maxBytes c))
  generalize clip c current (min remaining (maxBytes c)) = t at *
  generalize takeAt c current remaining = take at *
  have hnextCases := h.takeAt_cases (current + take) (remaining - take)
  have hnextLe := h.takeAt_le (current + take) (remaining - take)
  generalize takeAt c (current + take) (remaining - take) = next at *
  have hmod := Nat.mod_lt t hA
  by_contra hjoin
  have hjoin : joins c previous (current + take) next = true := by simpa using hjoin
  unfold joins at hjoin
  simp only [Bool.and_eq_true, Bool.or_eq_true, beq_iff_eq, decide_eq_true_eq] at hjoin
  obtain ⟨⟨-, hmerged⟩, hsame⟩ := hjoin
  have hmultiple : next < remaining - take → c.alignment.toNat ≤ next := by
    intro hlt
    rcases hnextCases with ⟨hw, -⟩ | ⟨_, _, _, hd⟩
    · omega
    · exact Nat.le_of_dvd hnext hd
  by_cases hlimit : t < min remaining (maxBytes c)
  · obtain ⟨hb, hend⟩ := hboundary hlimit
    have hsame := hsame.resolve_left hb
    rw [hwindow hb] at hsame
    have hdiv := Nat.div_add_mod current c.boundary.toNat
    have hB := Nat.pos_of_ne_zero (toNat_ne_zero hb)
    by_cases hrest : t % c.alignment.toNat = 0
    · -- the cut ends at the boundary
      have hat : current + take = (current / c.boundary.toNat + 1) * c.boundary.toNat := by
        rw [Nat.add_mul, Nat.mul_comm (current / c.boundary.toNat)]
        omega
      rw [hat, Nat.mul_div_cancel _ hB] at hsame
      omega
    · -- what is left up to the boundary is less than the alignment
      have hroom := hnextLe.2.2 hb
      have hoff : (current + take) % c.boundary.toNat = current % c.boundary.toNat + take := by
        have hsplit : current + take = c.boundary.toNat * (current / c.boundary.toNat) + (current % c.boundary.toNat + take) := by
          omega
        rw [hsplit, Nat.mul_add_mod]
        exact Nat.mod_eq_of_lt (by omega)
      rw [hoff] at hroom
      have hlt := hmultiple (by omega)
      omega
  · -- the cut is as long as a segment may be
    by_cases hlast : next < remaining - take
    · have hlt := hmultiple hlast
      omega
    · omega

end Dma
end R4
