import R4Recovery.DmaSegments
/-!
# DmaSegmentsExact — what scatter lists stand for

The segments that a build adds stand for the requested bytes, in order, and each keeps the limits of the device.  A range
that is appended is cut into `pieces`; only the first of them can join the last segment of the list, and the list stays as
it was on an error if and only if the first piece is refused or all of them find a place.
-/
namespace R4
namespace Dma

variable {c : Constraints} {current remaining take : Nat} {previous s : Segment} {list list' : List Segment}

/-- The addresses of the bytes that segments stand for. -/
def addresses (list : List Segment) : List Nat := list.flatMap (fun s => List.range' s.physAddr s.bytes)

theorem addresses_append (a b : List Segment) : addresses (a ++ b) = addresses a ++ addresses b := List.flatMap_append

/-- **A segment within the limits of the device.** -/
structure Meets (c : Constraints) (s : Segment) : Prop where
  aligned : s.physAddr % c.alignment.toNat = 0
  short : c.maxSegmentBytes ≠ 0 → s.bytes ≤ c.maxSegmentBytes.toNat
  below : s.physAddr + s.bytes ≤ c.dmaMask.toNat + 1
  window : c.boundary ≠ 0 → s.physAddr / c.boundary.toNat = (s.physAddr + s.bytes - 1) / c.boundary.toNat
  bytes : 0 < s.bytes

/-- A cut that is placed. -/
inductive Placed (c : Constraints) (list : List Segment) (current take : Nat) : List Segment → Prop where
  | new (haligned : current % c.alignment.toNat = 0) (hroom : list.length < c.maxSegmentCount.toNat) :
      Placed c list current take (list ++ [⟨current, take⟩])
  | joined (front : List Segment) (previous : Segment) (hlist : list = front ++ [previous])
      (hjoins : joins c previous current take = true) :
      Placed c list current take (front ++ [⟨previous.physAddr, previous.bytes + take⟩])

theorem placed_of_place (hv : Valid c) (h : place c list current take = .ok list') : Placed c list current take list' := by
  have hadd : addSegment c list current take = .ok list' → Placed c list current take list' := by
    intro hadd
    unfold addSegment at hadd
    rw [hv.and_alignment] at hadd
    split at hadd
    · cases hadd
    · rename_i haligned
      split at hadd
      · cases hadd
      · rename_i hroom
        cases hadd
        exact .new (by simpa using haligned) (Nat.lt_of_not_le hroom)
  unfold place at h
  split at h
  · exact hadd h
  · rename_i previous hlast
    split at h
    · cases h
    split at h
    · cases h
    split at h
    · rename_i hjoins
      cases h
      have hlist := (List.dropLast_append_getLast? previous hlast).symm
      exact .joined list.dropLast previous hlist hjoins
    · exact hadd h

theorem joins_spec (h : joins c previous current take = true) : previous.physAddr + previous.bytes = current ∧
    previous.bytes + take ≤ maxBytes c ∧
    (c.boundary ≠ 0 → previous.physAddr / c.boundary.toNat = current / c.boundary.toNat) := by
  unfold joins at h
  simp only [Bool.and_eq_true, Bool.or_eq_true, beq_iff_eq, decide_eq_true_eq] at h
  exact ⟨h.1.1, h.1.2, fun hb => h.2.resolve_left hb⟩

theorem Placed.addresses (h : Placed c list current take list') :
    Dma.addresses list' = Dma.addresses list ++ List.range' current take := by
  cases h with
  | new => rw [addresses_append]; simp [Dma.addresses]
  | joined front previous hlist hjoins =>
    obtain ⟨hend, -, -⟩ := joins_spec hjoins
    rw [hlist, addresses_append, addresses_append, List.append_assoc]
    simp only [Dma.addresses, List.flatMap_cons, List.flatMap_nil, List.append_nil]
    rw [← hend, List.range'_append_1]

/-- The end of a cut and the limits. -/
structure Fits (c : Constraints) (current take : Nat) : Prop where
  pos : 0 < take
  short : take ≤ maxBytes c
  below : current + take ≤ c.dmaMask.toNat + 1
  window : c.boundary ≠ 0 → current % c.boundary.toNat + take ≤ c.boundary.toNat

theorem div_of_window {b current take : Nat} (hpos : 0 < take) (h : current % b + take ≤ b) :
    (current + take - 1) / b = current / b := by
  have hsplit : current + take - 1 = b * (current / b) + (current % b + take - 1) := by
    have hdiv := Nat.div_add_mod current b
    omega
  have hlow : (current % b + take - 1) / b = 0 := Nat.div_eq_of_lt (by omega)
  rw [hsplit, Nat.mul_add_div (by omega), hlow, Nat.add_zero]

theorem short_of_maxBytes {bytes : Nat} (h : bytes ≤ maxBytes c) : c.maxSegmentBytes ≠ 0 → bytes ≤ c.maxSegmentBytes.toNat := by
  intro hne
  rw [maxBytes, if_neg hne] at h
  exact h

theorem Fits.new (h : Fits c current take) (haligned : current % c.alignment.toNat = 0) : Meets c ⟨current, take⟩ where
  aligned := haligned
  short := short_of_maxBytes h.short
  below := h.below
  window := fun hb => (div_of_window h.pos (h.window hb)).symm
  bytes := h.pos

theorem Fits.joined (h : Fits c current take) (hjoins : joins c previous current take = true)
    (haligned : previous.physAddr % c.alignment.toNat = 0) : Meets c ⟨previous.physAddr, previous.bytes + take⟩ := by
  obtain ⟨hend, hmerged, hsame⟩ := joins_spec hjoins
  have hpos := h.pos
  refine ⟨haligned, short_of_maxBytes hmerged, ?_, fun hb => ?_, Nat.add_pos_right _ hpos⟩
  · dsimp only
    have hbelow := h.below
    omega
  · dsimp only
    rw [hsame hb, ← div_of_window h.pos (h.window hb), ← hend, Nat.add_assoc]

/-- A list that a build starts from: all its segments are within the limits. -/
structure Good (c : Constraints) (list : List Segment) : Prop where
  meets : ∀ s ∈ list, Meets c s
  count : list.length ≤ c.maxSegmentCount.toNat

theorem Placed.good (h : Placed c list current take list') (hg : Good c list) (hf : Fits c current take) : Good c list' := by
  cases h with
  | new haligned hroom =>
    refine ⟨fun s hs => ?_, by rw [List.length_append]; exact hroom⟩
    rcases List.mem_append.1 hs with hs | hs
    · exact hg.meets s hs
    · rw [List.mem_singleton.1 hs]
      exact hf.new haligned
  | joined front previous hlist hjoins =>
    subst hlist
    have hcount := hg.count
    rw [List.length_append, List.length_singleton] at hcount
    refine ⟨fun s hs => ?_, by rw [List.length_append]; exact hcount⟩
    rcases List.mem_append.1 hs with hs | hs
    · exact hg.meets s (List.mem_append_left _ hs)
    · rw [List.mem_singleton.1 hs]
      exact hf.joined hjoins (hg.meets previous (by simp)).aligned

/-! ## Builds -/

theorem Valid.fits (hv : Valid c) (hpos : takeAt c current remaining ≠ 0) (hmask : current + remaining ≤ c.dmaMask.toNat + 1) :
    Fits c current (takeAt c current remaining) := by
  obtain ⟨hle, hmax, hwindow⟩ := hv.takeAt_le current remaining
  exact ⟨Nat.pos_of_ne_zero hpos, hmax, by omega, hwindow⟩

/-- **The loop adds what was asked for.** -/
theorem appendLoop_ok (hv : Valid c) : ∀ {fuel current remaining : Nat} {list list' : List Segment}, remaining ≤ fuel →
    current + remaining ≤ c.dmaMask.toNat + 1 → appendLoop c fuel current remaining list = (.ok (), list') →
    addresses list' = addresses list ++ List.range' current remaining ∧ (Good c list → Good c list')
  | 0, current, remaining, list, list', hfuel, _, h => by
    cases h
    have hzero : remaining = 0 := Nat.le_zero.1 hfuel
    rw [hzero, List.range'_zero, List.append_nil]
    exact ⟨rfl, id⟩
  | fuel + 1, current, remaining, list, list', hfuel, hmask, h => by
    unfold appendLoop at h
    split at h
    · rename_i hzero
      cases h
      rw [hzero, List.range'_zero, List.append_nil]
      exact ⟨rfl, id⟩
    dsimp only at h
    split at h
    · cases h
    rename_i htake
    push Not at htake
    split at h
    · cases h
    rename_i list1 hplace
    split at h
    · cases h
    have hplaced := placed_of_place hv hplace
    have hfits := hv.fits htake.1 hmask
    have hle := (hv.takeAt_le current remaining).1
    have hpos := hfits.pos
    obtain ⟨haddr, hgood⟩ := appendLoop_ok hv (by omega) (by omega) h
    refine ⟨?_, fun hg => hgood (hplaced.good hg hfits)⟩
    rw [haddr, hplaced.addresses, List.append_assoc, List.range'_append_1, Nat.add_sub_cancel' hle]

theorem appendPhysicalRange_ok (hv : Valid c) {start byteCount : Nat}
    (h : appendPhysicalRange c list start byteCount = (.ok (), list')) :
    addresses list' = addresses list ++ List.range' start byteCount ∧ (Good c list → Good c list') := by
  unfold appendPhysicalRange at h
  split at h
  · rename_i hzero
    cases h
    rw [hzero, List.range'_zero, List.append_nil]
    exact ⟨rfl, id⟩
  split at h
  · cases h
  split at h
  · cases h
  exact appendLoop_ok hv (Nat.le_refl _) (by omega) h

theorem good_nil (c : Constraints) : Good c [] := ⟨by simp, Nat.zero_le _⟩

/-- The physical bytes of frames, an offset into the first one. -/
def frameBytes (frames : List Nat) (firstOffset bytes : Nat) : List Nat :=
  ((frames.flatMap (fun frame => List.range' frame pageSize)).drop firstOffset).take bytes

theorem frameBytes_cons (frame : Nat) (frames : List Nat) {offset : Nat} (hoffset : offset < pageSize) (bytes : Nat) :
    frameBytes (frame :: frames) offset bytes = List.range' (frame + offset) (min bytes (pageSize - offset)) ++
      frameBytes frames 0 (bytes - min bytes (pageSize - offset)) := by
  have hlen : (List.range' frame pageSize).length = pageSize := List.length_range'
  unfold frameBytes
  rw [List.flatMap_cons, List.drop_append_of_le_length (by omega), List.take_append, List.drop_zero, List.drop_range',
    List.length_range', Nat.mul_one]
  by_cases hmore : pageSize - offset ≤ bytes
  · rw [List.take_range'_of_length_le hmore, Nat.min_eq_right hmore]
  · have hless := Nat.le_of_not_le hmore
    rw [List.take_range'_of_length_ge hless, Nat.min_eq_left hless, Nat.sub_eq_zero_of_le hless, Nat.sub_self]

theorem buildLoop_ok (hv : Valid c) : ∀ {frames : List Nat} {offset remaining : Nat} {list list' : List Segment},
    offset < pageSize → Good c list → buildLoop c frames offset remaining list = .ok list' →
    addresses list' = addresses list ++ frameBytes frames offset remaining ∧ Good c list'
  | [], offset, remaining, list, list', _, hg, h => by
    unfold buildLoop at h
    split at h
    · cases h
    · cases h
      simp [frameBytes, hg]
  | frame :: frames, offset, remaining, list, list', hoffset, hg, h => by
    unfold buildLoop at h
    split at h
    · cases h
    split at h
    · rename_i list1 happend
      obtain ⟨haddr, hgood⟩ := appendPhysicalRange_ok hv happend
      obtain ⟨hrest, hg'⟩ := buildLoop_ok hv (by decide) (hgood hg) h
      rw [hrest, haddr, frameBytes_cons _ _ hoffset, List.append_assoc]
      exact ⟨rfl, hg'⟩
    · cases h

/-- **Frames**: the segments stand for the bytes asked for, within the limits. -/
theorem buildFromFrames_ok {frames : List Nat} {firstOffset bytes : Nat} (h : buildFromFrames c frames firstOffset bytes = .ok list) :
    addresses list = frameBytes frames firstOffset bytes ∧ Good c list := by
  unfold buildFromFrames at h
  split at h
  · cases h
  rename_i hvalid
  split at h
  · cases h
  rename_i hrange
  split at h
  · cases h
  have hv := valid_of_validate (by simpa using hvalid)
  obtain ⟨haddr, hg⟩ := buildLoop_ok hv (by omega) (good_nil c) h
  exact ⟨haddr, hg⟩

theorem constrainLoop_ok (hv : Valid c) : ∀ {source list list' : List Segment}, Good c list →
    constrainLoop c source list = .ok list' → addresses list' = addresses list ++ addresses source ∧ Good c list'
  | [], list, list', hg, h => by
    cases h
    exact ⟨(List.append_nil _).symm, hg⟩
  | segment :: source, list, list', hg, h => by
    unfold constrainLoop at h
    split at h
    · cases h
    split at h
    · rename_i list1 happend
      obtain ⟨haddr, hgood⟩ := appendPhysicalRange_ok hv happend
      obtain ⟨hrest, hg'⟩ := constrainLoop_ok hv (hgood hg) h
      rw [hrest, haddr, List.append_assoc]
      exact ⟨rfl, hg'⟩
    · cases h

/-- **Another list**: the same bytes, within the limits. -/
theorem constrain_ok {source : List Segment} (h : constrain c source = .ok list) :
    addresses list = addresses source ∧ Good c list := by
  unfold constrain at h
  split at h
  · cases h
  rename_i hvalid
  split at h
  · cases h
  have hv := valid_of_validate (by simpa using hvalid)
  exact constrainLoop_ok hv (good_nil c) h

/-- **A single range.** -/
theorem singleRange_ok {physAddr bytes : Nat} (h : singleRange c physAddr bytes = .ok list) :
    addresses list = List.range' physAddr bytes ∧ Good c list := by
  unfold singleRange at h
  split at h
  · cases h
  rename_i hvalid
  split at h
  · cases h
  have hv := valid_of_validate (by simpa using hvalid)
  split at h
  · rename_i happend
    cases h
    obtain ⟨haddr, hgood⟩ := appendPhysicalRange_ok hv happend
    exact ⟨haddr, hgood (good_nil c)⟩
  · cases h

/-! ## Appending to a list -/

/-- The cuts of a range. -/
def pieces (c : Constraints) : Nat → Nat → Nat → List Segment
  | 0, _, _ => []
  | fuel + 1, current, remaining =>
    if remaining = 0 then []
    else ⟨current, takeAt c current remaining⟩ ::
      pieces c fuel (current + takeAt c current remaining) (remaining - takeAt c current remaining)

/-- Whether the first cut of a range joins the last segment. -/
def firstJoins (c : Constraints) (list : List Segment) (start bytes : Nat) : Bool :=
  list.getLast?.any (fun previous => joins c previous start (takeAt c start bytes))

/-- **What appending a range should do**: on success the bytes are added behind the others, every segment that is new or was
extended is within the limits, and so is the count; on an error the list is as before. -/
structure AppendExact (c : Constraints) (list : List Segment) (start bytes : Nat) : Prop where
  success : ∀ list', appendRange c list start bytes = (.ok (), list') →
    addresses list' = addresses list ++ List.range' start bytes ∧
    (∀ (i : Nat) (s : Segment), list'[i]? = some s → list[i]? ≠ some s → Meets c s) ∧ list'.length ≤ c.maxSegmentCount.toNat
  failure : ∀ e list', appendRange c list start bytes = (.error (.error e), list') → list' = list

/-- The arguments are accepted, and the first cut finds a place. -/
structure Started (c : Constraints) (list : List Segment) (start bytes : Nat) : Prop where
  valid : validateConstraints c = true
  nonempty : bytes ≠ 0
  below : start + (bytes - 1) ≤ c.dmaMask.toNat
  cut : takeAt c start bytes ≠ 0
  last : ∀ previous, list.getLast? = some previous → list.length ≤ maxSegments ∧ previous.physAddr + previous.bytes < 2 ^ 64
  first : firstJoins c list start bytes = true ∨ (start % c.alignment.toNat = 0 ∧ list.length < c.maxSegmentCount.toNat)

/-- There is room for all cuts of a range. -/
def RoomFor (c : Constraints) (list : List Segment) (start bytes : Nat) : Prop :=
  list.length + (pieces c bytes start bytes).length ≤ c.maxSegmentCount.toNat + (firstJoins c list start bytes).toNat

/-- **Where appending a range does what it should**: the first cut finds no place; or all of them do, the range is one cut or
starts aligned, and a segment that is extended starts aligned too; or the range ends with the address space, where the last
turn traps. -/
def AppendsCleanly (c : Constraints) (list : List Segment) (start bytes : Nat) : Prop :=
  ¬ Started c list start bytes ∨
  ((start % c.alignment.toNat = 0 ∨ takeAt c start bytes = bytes) ∧ RoomFor c list start bytes ∧
    (firstJoins c list start bytes = true → ∀ previous, list.getLast? = some previous → previous.physAddr % c.alignment.toNat = 0)) ∨
  (start + bytes = 2 ^ 64 ∧ (takeAt c start bytes = bytes ∨ (start % c.alignment.toNat = 0 ∧ RoomFor c list start bytes)))

theorem mask_lt (c : Constraints) : c.dmaMask.toNat < 2 ^ 64 := UInt64.toNat_lt c.dmaMask

theorem addSegment_ok (hv : Valid c) (haligned : current % c.alignment.toNat = 0) (hroom : list.length < c.maxSegmentCount.toNat) :
    addSegment c list current take = .ok (list ++ [⟨current, take⟩]) := by
  unfold addSegment
  rw [hv.and_alignment, if_neg (by simpa using haligned), if_neg (Nat.not_le_of_lt hroom)]

theorem addSegment_full (hv : Valid c) (haligned : current % c.alignment.toNat = 0) (hfull : c.maxSegmentCount.toNat ≤ list.length) :
    addSegment c list current take = .error (.error .tooManySegments) := by
  unfold addSegment
  rw [hv.and_alignment, if_neg (by simpa using haligned), if_pos hfull]

theorem place_last (front : List Segment) (hlen : front.length < maxSegments) (hend : previous.physAddr + previous.bytes < 2 ^ 64) :
    place c (front ++ [previous]) current take = if joins c previous current take then
      .ok (front ++ [⟨previous.physAddr, previous.bytes + take⟩]) else addSegment c (front ++ [previous]) current take := by
  unfold place
  rw [List.getLast?_concat]
  dsimp only
  rw [if_neg (by rw [List.length_append, List.length_singleton]; omega), if_neg (Nat.not_le_of_lt hend), List.dropLast_concat]

theorem Started.place {start bytes : Nat} (h : Started c list start bytes) :
    (firstJoins c list start bytes = false ∧ start % c.alignment.toNat = 0 ∧ list.length < c.maxSegmentCount.toNat ∧
      Dma.place c list start (takeAt c start bytes) = .ok (list ++ [⟨start, takeAt c start bytes⟩])) ∨
    (firstJoins c list start bytes = true ∧ ∃ front previous, list = front ++ [previous] ∧ front.length < maxSegments ∧
      joins c previous start (takeAt c start bytes) = true ∧
      Dma.place c list start (takeAt c start bytes) = .ok (front ++ [⟨previous.physAddr, previous.bytes + takeAt c start bytes⟩])) := by
  have hv := valid_of_validate h.valid
  rcases List.eq_nil_or_concat list with rfl | ⟨front, previous, rfl⟩
  · have hfalse : firstJoins c [] start bytes = false := rfl
    obtain ⟨haligned, hroom⟩ := h.first.resolve_left (by rw [hfalse]; exact Bool.false_ne_true)
    exact .inl ⟨hfalse, haligned, hroom, addSegment_ok hv haligned hroom⟩
  · rw [List.concat_eq_append] at h ⊢
    obtain ⟨hlen, hend⟩ := h.last previous List.getLast?_concat
    have hfront : front.length < maxSegments := by
      rw [List.length_append, List.length_singleton] at hlen
      exact hlen
    have hjoins : firstJoins c (front ++ [previous]) start bytes = joins c previous start (takeAt c start bytes) := by
      rw [firstJoins, List.getLast?_concat]
      rfl
    rw [hjoins, place_last front hfront hend]
    cases hj : joins c previous start (takeAt c start bytes) with
    | true => exact .inr ⟨rfl, front, previous, rfl, hfront, hj, rfl⟩
    | false =>
      obtain ⟨haligned, hroom⟩ := h.first.resolve_left (by rw [hjoins, hj]; exact Bool.false_ne_true)
      exact .inl ⟨rfl, haligned, hroom, addSegment_ok hv haligned hroom⟩

theorem addSegment_some (hv : Valid c) (h : addSegment c list current take = .ok list') :
    current % c.alignment.toNat = 0 ∧ list.length < c.maxSegmentCount.toNat := by
  unfold addSegment at h
  rw [hv.and_alignment] at h
  split at h
  · cases h
  · rename_i haligned
    split at h
    · cases h
    · rename_i hroom
      exact ⟨by simpa using haligned, Nat.lt_of_not_le hroom⟩

theorem started_of_place {start bytes : Nat} (hvalid : validateConstraints c = true) (hbytes : bytes ≠ 0)
    (hbelow : start + (bytes - 1) ≤ c.dmaMask.toNat) (hcut : takeAt c start bytes ≠ 0)
    (h : place c list start (takeAt c start bytes) = .ok list') : Started c list start bytes := by
  have hv := valid_of_validate hvalid
  unfold place at h
  cases hlast : list.getLast? with
  | none =>
    rw [hlast] at h
    exact ⟨hvalid, hbytes, hbelow, hcut, by rw [hlast]; simp, .inr (addSegment_some hv h)⟩
  | some previous =>
    rw [hlast] at h
    dsimp only at h
    split at h
    · cases h
    rename_i hlen
    split at h
    · cases h
    rename_i hend
    refine ⟨hvalid, hbytes, hbelow, hcut, ?_, ?_⟩
    · rw [hlast]
      intro other hother
      cases hother
      exact ⟨Nat.le_of_not_lt hlen, Nat.lt_of_not_le hend⟩
    · split at h
      · rename_i hjoins
        refine .inl ?_
        rw [firstJoins, hlast]
        exact hjoins
      · exact .inr (addSegment_some hv h)

theorem takeAt_small (hv : Valid c) (current remaining : Nat) : takeAt c current remaining < 2 ^ 32 :=
  Nat.lt_of_le_of_lt (hv.takeAt_le current remaining).2.1 (maxBytes_pos c).2

/-- **A range that is not started leaves the list as it is.** -/
theorem not_started {start bytes : Nat} (h : ¬ Started c list start bytes) :
    ∃ stop, appendRange c list start bytes = (.error stop, list) := by
  unfold appendRange
  by_cases hvalid : validateConstraints c = true
  · have hv := valid_of_validate hvalid
    rw [hvalid, Bool.not_true, if_neg Bool.false_ne_true]
    by_cases hbytes : bytes = 0
    · exact ⟨_, if_pos hbytes⟩
    rw [if_neg hbytes, appendPhysicalRange, if_neg hbytes]
    by_cases hover : 2 ^ 64 ≤ start + (bytes - 1)
    · exact ⟨_, if_pos hover⟩
    rw [if_neg hover]
    by_cases hbelow : c.dmaMask.toNat < start + (bytes - 1)
    · exact ⟨_, if_pos hbelow⟩
    rw [if_neg hbelow]
    obtain ⟨fuel, rfl⟩ := Nat.exists_eq_succ_of_ne_zero hbytes
    unfold appendLoop
    rw [if_neg hbytes]
    dsimp only
    by_cases hcut : takeAt c start (fuel + 1) = 0 ∨ 2 ^ 32 ≤ takeAt c start (fuel + 1)
    · exact ⟨_, if_pos hcut⟩
    rw [if_neg hcut]
    push Not at hcut
    cases hplace : place c list start (takeAt c start (fuel + 1)) with
    | error stop => exact ⟨stop, rfl⟩
    | ok list1 => exact absurd (started_of_place hvalid hbytes (Nat.le_of_not_lt hbelow) hcut.1 hplace) h
  · have hfalse : validateConstraints c = false := by simpa using hvalid
    rw [hfalse]
    exact ⟨_, rfl⟩

theorem Started.run {start bytes : Nat} (h : Started c list start bytes)
    (hplace : Dma.place c list start (takeAt c start bytes) = .ok list') :
    appendRange c list start bytes = if 2 ^ 64 ≤ start + takeAt c start bytes then (.error .trap, list')
      else appendLoop c (bytes - 1) (start + takeAt c start bytes) (bytes - takeAt c start bytes) list' := by
  have hv := valid_of_validate h.valid
  have hmask := mask_lt c
  have hbelow := h.below
  have hsmall := takeAt_small hv start bytes
  unfold appendRange appendPhysicalRange
  rw [h.valid, Bool.not_true, if_neg Bool.false_ne_true, if_neg h.nonempty, if_neg h.nonempty, if_neg (by omega),
    if_neg (by omega)]
  obtain ⟨fuel, hfuel⟩ := Nat.exists_eq_succ_of_ne_zero h.nonempty
  have hcut := h.cut
  subst hfuel
  rw [appendLoop, if_neg h.nonempty]
  dsimp only
  rw [if_neg (by omega), hplace]
  rfl

theorem Started.pieces {start bytes : Nat} (h : Started c list start bytes) : Dma.pieces c bytes start bytes =
    ⟨start, takeAt c start bytes⟩ ::
      Dma.pieces c (bytes - 1) (start + takeAt c start bytes) (bytes - takeAt c start bytes) := by
  obtain ⟨fuel, hfuel⟩ := Nat.exists_eq_succ_of_ne_zero h.nonempty
  have hne := h.nonempty
  subst hfuel
  rw [Dma.pieces, if_neg hne]
  rfl

/-! ## The cuts behind the first one -/

/-- How many bytes segments have. -/
def total (list : List Segment) : Nat := (list.map Segment.bytes).sum

theorem total_append (a b : List Segment) : total (a ++ b) = total a + total b := by
  rw [total, List.map_append, List.sum_append]
  rfl

theorem Placed.total (h : Placed c list current take list') : Dma.total list' = Dma.total list + take := by
  cases h with
  | new => rw [total_append]; rfl
  | joined front previous hlist =>
    rw [hlist, total_append, total_append, Nat.add_assoc]
    rfl

theorem total_appendLoop (hv : Valid c) : ∀ (fuel current remaining : Nat) (list : List Segment),
    total list ≤ total (appendLoop c fuel current remaining list).2
  | 0, _, _, _ => Nat.le_refl _
  | fuel + 1, current, remaining, list => by
    unfold appendLoop
    split
    · exact Nat.le_refl _
    dsimp only
    split
    · exact Nat.le_refl _
    split
    · exact Nat.le_refl _
    · rename_i list1 hplace
      have hmore := (placed_of_place hv hplace).total
      split
      · show total list ≤ total list1
        omega
      · have hrest := total_appendLoop hv fuel (current + takeAt c current remaining) (remaining - takeAt c current remaining) list1
        omega

/-- **Behind the first cut every cut is a segment of its own**: the loop adds them all, or comes to an error. -/
theorem appendLoop_aligned (hv : Valid c) (hunit : c.alignment.toNat ≤ maxBytes c) : ∀ (fuel current remaining : Nat)
    (front : List Segment) (previous : Segment), remaining ≤ fuel → current % c.alignment.toNat = 0 →
    current + remaining ≤ 2 ^ 64 → (0 < remaining → current < 2 ^ 64) → front.length < maxSegments → previous.physAddr + previous.bytes = current →
    (0 < remaining → joins c previous current (takeAt c current remaining) = false) →
    (front.length + 1 + (pieces c fuel current remaining).length ≤ c.maxSegmentCount.toNat →
      appendLoop c fuel current remaining (front ++ [previous]) =
        (if 0 < remaining ∧ 2 ^ 64 ≤ current + remaining then .error .trap else .ok (),
          front ++ [previous] ++ pieces c fuel current remaining)) ∧
    (0 < remaining → c.maxSegmentCount.toNat < front.length + 1 + (pieces c fuel current remaining).length →
      ∃ list', appendLoop c fuel current remaining (front ++ [previous]) = (.error (.error .tooManySegments), list'))
  | 0, current, remaining, front, previous, hfuel, _, _, _, _, _, _ => by
    have hzero : remaining = 0 := Nat.le_zero.1 hfuel
    subst hzero
    exact ⟨fun _ => by rw [if_neg (by simp)]; simp [appendLoop, pieces], fun h => absurd h (Nat.lt_irrefl 0)⟩
  | fuel + 1, current, remaining, front, previous, hfuel, haligned, hend, hbelow, hlen, hprev, hjoin => by
    by_cases hzero : remaining = 0
    · subst hzero
      exact ⟨fun _ => by rw [if_neg (by simp)]; simp [appendLoop, pieces], fun h => absurd h (Nat.lt_irrefl 0)⟩
    have hpos := Nat.pos_of_ne_zero hzero
    have htake := hv.takeAt_pos haligned hunit hpos
    have hle := (hv.takeAt_le current remaining).1
    have hsmall := takeAt_small hv current remaining
    have hplace : place c (front ++ [previous]) current (takeAt c current remaining) =
        addSegment c (front ++ [previous]) current (takeAt c current remaining) := by
      rw [place_last front hlen (by rw [hprev]; exact hbelow hpos), hjoin hpos]
      rfl
    have hcut : pieces c (fuel + 1) current remaining = ⟨current, takeAt c current remaining⟩ ::
        pieces c fuel (current + takeAt c current remaining) (remaining - takeAt c current remaining) := by
      rw [pieces, if_neg hzero]
    have hlength : (front ++ [previous]).length = front.length + 1 := by rw [List.length_append, List.length_singleton]
    rw [appendLoop, if_neg hzero]
    dsimp only
    rw [if_neg (by omega), hplace, hcut, List.length_cons]
    have hcount := hv.count
    by_cases hroom : front.length + 1 < c.maxSegmentCount.toNat
    · rw [addSegment_ok hv haligned (by rw [hlength]; exact hroom)]
      dsimp only
      rcases hv.takeAt_cases current remaining with ⟨hwhole, -⟩ | ⟨hcutless, -, -, hdvd⟩
      · -- the last cut
        have hnone : ∀ fuel current, pieces c fuel current 0 = [] := by
          intro fuel current
          cases fuel <;> rfl
        have hdone : ∀ fuel current list, appendLoop c fuel current 0 list = (.ok (), list) := by
          intro fuel current list
          cases fuel <;> rfl
        rw [hwhole, Nat.sub_self, hnone, hdone]
        refine ⟨fun _ => ?_, fun _ hmany => absurd hmany (by simp; omega)⟩
        by_cases hlast : 2 ^ 64 ≤ current + remaining
        · rw [if_pos hlast, if_pos ⟨hpos, hlast⟩]
        · rw [if_neg hlast, if_neg (fun hh => hlast hh.2)]
      · have hnext : (current + takeAt c current remaining) % c.alignment.toNat = 0 := by
          rw [Nat.add_mod, haligned, Nat.mod_eq_zero_of_dvd hdvd]
          simp
        have hrest := appendLoop_aligned hv hunit fuel (current + takeAt c current remaining) (remaining - takeAt c current remaining)
          (front ++ [previous]) ⟨current, takeAt c current remaining⟩ (by omega) hnext (by omega) (by omega)
          (by rw [hlength]; omega) rfl
          (fun hmore => hv.not_joins hcutless (hv.takeAt_pos hnext hunit hmore) (Nat.le_refl _) (fun _ => rfl))
        obtain ⟨hall, hmany⟩ := hrest
        have hgo : ¬ 2 ^ 64 ≤ current + takeAt c current remaining := by omega
        have hsum : current + takeAt c current remaining + (remaining - takeAt c current remaining) = current + remaining := by omega
        rw [if_neg hgo]
        refine ⟨fun hfit => ?_, fun _ hover => hmany (by omega) (by rw [hlength]; omega)⟩
        have hmore : 0 < remaining - takeAt c current remaining := by omega
        rw [hall (by rw [hlength]; omega), hsum]
        simp only [hmore, hpos, true_and, List.append_assoc, List.cons_append, List.nil_append]
    · refine ⟨fun hfit => absurd hfit (by omega), fun _ _ => ⟨front ++ [previous], ?_⟩⟩
      rw [addSegment_full hv haligned (by rw [hlength]; omega)]

theorem pieces_meet (hv : Valid c) (hunit : c.alignment.toNat ≤ maxBytes c) : ∀ (fuel current remaining : Nat),
    current % c.alignment.toNat = 0 → current + remaining ≤ c.dmaMask.toNat + 1 →
    ∀ s ∈ pieces c fuel current remaining, Meets c s
  | 0, _, _, _, _, s, hs => by cases hs
  | fuel + 1, current, remaining, haligned, hmask, s, hs => by
    unfold pieces at hs
    split at hs
    · cases hs
    rename_i hzero
    have hfits := hv.fits (Nat.pos_iff_ne_zero.1 (hv.takeAt_pos haligned hunit (Nat.pos_of_ne_zero hzero))) hmask
    rcases List.mem_cons.1 hs with rfl | hs
    · exact hfits.new haligned
    · rcases hv.takeAt_cases current remaining with ⟨hwhole, -⟩ | ⟨hless, -, -, hdvd⟩
      · rw [hwhole, Nat.sub_self] at hs
        cases fuel <;> cases hs
      · refine pieces_meet hv hunit fuel _ _ ?_ (by omega) s hs
        rw [Nat.add_mod, haligned, Nat.mod_eq_zero_of_dvd hdvd]
        simp

/-- **A range that starts unaligned** and goes on behind its first cut comes to an error. -/
theorem appendLoop_unaligned (hv : Valid c) (fuel : Nat) {front : List Segment} (hstart : current % c.alignment.toNat ≠ 0)
    (hcut : takeAt c current remaining < remaining) (hmask : current + remaining ≤ 2 ^ 64)
    (hlen : front.length < maxSegments) (hprev : previous.physAddr + previous.bytes = current + takeAt c current remaining)
    (hbytes : takeAt c current remaining ≤ previous.bytes)
    (hwindow : c.boundary ≠ 0 → previous.physAddr / c.boundary.toNat = current / c.boundary.toNat) :
    ∃ e list', appendLoop c (fuel + 1) (current + takeAt c current remaining) (remaining - takeAt c current remaining)
      (front ++ [previous]) = (.error (.error e), list') := by
  have hmod : (current + takeAt c current remaining) % c.alignment.toNat ≠ 0 := by
    rcases hv.takeAt_cases current remaining with ⟨hwhole, -⟩ | ⟨-, -, -, hdvd⟩
    · omega
    · rw [Nat.add_mod, Nat.mod_eq_zero_of_dvd hdvd, Nat.add_zero, Nat.mod_mod]
      exact hstart
  unfold appendLoop
  rw [if_neg (by omega)]
  dsimp only
  by_cases hempty : takeAt c (current + takeAt c current remaining) (remaining - takeAt c current remaining) = 0 ∨
      2 ^ 32 ≤ takeAt c (current + takeAt c current remaining) (remaining - takeAt c current remaining)
  · rw [if_pos hempty]
    exact ⟨_, _, rfl⟩
  · rw [if_neg hempty]
    have hjoin := hv.not_joins hcut (Nat.pos_of_ne_zero (fun h0 => hempty (.inl h0))) hbytes hwindow
    rw [place_last front hlen (by omega), hjoin, if_neg Bool.false_ne_true, addSegment, hv.and_alignment, if_pos hmod]
    exact ⟨_, _, rfl⟩

/-! ## Exactness -/

/-- The list once the first cut has its place: its last segment ends at the next cut and is in the window of the start. -/
structure Begun (c : Constraints) (list list1 : List Segment) (start bytes : Nat) (front : List Segment) (last : Segment) :
    Prop where
  place : place c list start (takeAt c start bytes) = .ok list1
  split : list1 = front ++ [last]
  room : front.length < maxSegments
  ends : last.physAddr + last.bytes = start + takeAt c start bytes
  covers : takeAt c start bytes ≤ last.bytes
  window : c.boundary ≠ 0 → last.physAddr / c.boundary.toNat = start / c.boundary.toNat
  length : front.length + 1 + (firstJoins c list start bytes).toNat = list.length + 1
  changed : ∀ (more : List Segment) (i : Nat) (s : Segment), (list1 ++ more)[i]? = some s → list[i]? ≠ some s →
    s = last ∨ s ∈ more
  fresh : ∃ i : Nat, list1[i]? = some last ∧ list[i]? ≠ some last
  aligned : last.physAddr % c.alignment.toNat = 0 ↔ (firstJoins c list start bytes = true → ∀ previous,
    list.getLast? = some previous → previous.physAddr % c.alignment.toNat = 0)
  joined : firstJoins c list start bytes = false → start % c.alignment.toNat = 0
  meets : last.physAddr % c.alignment.toNat = 0 → Meets c last

theorem Started.begun {start bytes : Nat} (h : Started c list start bytes) :
    ∃ list1 front last, Begun c list list1 start bytes front last := by
  have hpos := Nat.pos_of_ne_zero h.cut
  have hv := valid_of_validate h.valid
  have hcount := hv.count
  have hbelow := h.below
  have hnonzero := h.nonempty
  have hfits := hv.fits h.cut (show start + bytes ≤ c.dmaMask.toNat + 1 by omega)
  rcases h.place with ⟨hj, haligned, hroom, hplace⟩ | ⟨hj, front, previous, rfl, hfront, hjoins, hplace⟩
  · refine ⟨_, list, _, hplace, rfl, by omega, rfl, Nat.le_refl _, fun _ => rfl, by rw [hj]; rfl, ?_, ⟨list.length, ?_, ?_⟩, ?_,
      fun _ => haligned, hfits.new⟩
    · intro more i s hs hold
      rw [List.append_assoc] at hs
      by_cases hi : i < list.length
      · rw [List.getElem?_append_left hi] at hs
        exact absurd hs hold
      · rw [List.getElem?_append_right (Nat.le_of_not_lt hi)] at hs
        exact (List.mem_cons.1 (List.mem_of_getElem? hs))
    · simp
    · rw [List.getElem?_eq_none (Nat.le_refl _)]
      exact (Option.some_ne_none _).symm
    · rw [hj]
      exact ⟨fun _ hfalse => absurd hfalse Bool.false_ne_true, fun _ => haligned⟩
  · obtain ⟨hend, -, hsame⟩ := joins_spec hjoins
    refine ⟨_, front, _, hplace, rfl, hfront, by dsimp only; omega, Nat.le_add_left _ _, hsame, ?_, ?_, ⟨front.length, ?_, ?_⟩, ?_,
      fun hfalse => absurd (hj.symm.trans hfalse) (by decide), hfits.joined hjoins⟩
    · rw [hj, List.length_append]
      rfl
    · intro more i s hs hold
      rw [List.append_assoc] at hs
      by_cases hi : i < front.length
      · rw [List.getElem?_append_left hi] at hs
        rw [List.getElem?_append_left hi] at hold
        exact absurd hs hold
      · rw [List.getElem?_append_right (Nat.le_of_not_lt hi)] at hs
        exact (List.mem_cons.1 (List.mem_of_getElem? hs))
    · simp
    · simp only [List.getElem?_concat_length, ne_eq, Option.some.injEq]
      intro heq
      have hbytes := congrArg Segment.bytes heq
      dsimp only at hbytes
      omega
    · rw [hj, List.getLast?_concat]
      constructor
      · rintro hlast - other hother
        cases hother
        exact hlast
      · exact fun hall => hall rfl previous rfl

variable {list1 front : List Segment} {last : Segment} {start bytes : Nat}

theorem Begun.success (hb : Begun c list list1 start bytes front last) (h : Started c list start bytes) {more : List Segment}
    (hrun : appendRange c list start bytes = (.ok (), list1 ++ more)) (hmore : ∀ s ∈ more, Meets c s) :
    AppendExact c list start bytes ↔
      last.physAddr % c.alignment.toNat = 0 ∧ (list1 ++ more).length ≤ c.maxSegmentCount.toNat := by
  have hv := valid_of_validate h.valid
  have hphysical : appendPhysicalRange c list start bytes = (.ok (), list1 ++ more) := by
    unfold appendRange at hrun
    rw [h.valid, Bool.not_true, if_neg Bool.false_ne_true, if_neg h.nonempty] at hrun
    exact hrun
  constructor
  · intro hexact
    obtain ⟨-, hmeets, hcount⟩ := hexact.success _ hrun
    obtain ⟨i, hnew, hold⟩ := hb.fresh
    have hi := (List.getElem?_eq_some_iff.1 hnew).1
    exact ⟨(hmeets i last (by rw [List.getElem?_append_left hi]; exact hnew) hold).aligned, hcount⟩
  · rintro ⟨haligned, hcount⟩
    refine ⟨fun list' hl => ?_, fun e list' hl => ?_⟩
    · rw [hrun] at hl
      cases hl
      refine ⟨(appendPhysicalRange_ok hv hphysical).1, fun i s hs hold => ?_, hcount⟩
      rcases hb.changed more i s hs hold with rfl | hs
      · exact hb.meets haligned
      · exact hmore s hs
    · rw [hrun] at hl
      cases hl

theorem exact_of_trap {list' : List Segment} (hrun : appendRange c list start bytes = (.error .trap, list')) :
    AppendExact c list start bytes where
  success := by
    intro _ hl
    rw [hrun] at hl
    cases hl
  failure := by
    intro _ _ hl
    rw [hrun] at hl
    cases hl

theorem Begun.failure (hb : Begun c list list1 start bytes front last) (h : Started c list start bytes) {e : Error}
    {list' : List Segment} (hrun : appendRange c list start bytes = (.error (.error e), list')) :
    ¬ AppendExact c list start bytes := by
  intro hexact
  have hsame := hexact.failure e list' hrun
  have hv := valid_of_validate h.valid
  have hpos := Nat.pos_of_ne_zero h.cut
  have hfirst := (placed_of_place hv hb.place).total
  have hrest := total_appendLoop hv (bytes - 1) (start + takeAt c start bytes) (bytes - takeAt c start bytes) list1
  have hsplit := h.run hb.place
  rw [hrun] at hsplit
  split at hsplit
  · cases hsplit
  · rw [← hsplit, hsame] at hrest
    dsimp only at hrest
    omega

/-- **Appending a range is exact** if and only if it is clean. -/
theorem appendRange_exact (c : Constraints) (list : List Segment) (start bytes : Nat) :
    AppendExact c list start bytes ↔ AppendsCleanly c list start bytes := by
  by_cases h : Started c list start bytes
  swap
  · obtain ⟨stop, hrun⟩ := not_started h
    refine iff_of_true ⟨fun _ hl => ?_, fun e list' hl => ?_⟩ (.inl h)
    · rw [hrun] at hl
      cases hl
    · rw [hrun] at hl
      cases hl
      rfl
  obtain ⟨list1, front, last, hb⟩ := h.begun
  have hv := valid_of_validate h.valid
  have hmask := mask_lt c
  have hbelow := h.below
  have hnonzero := h.nonempty
  have hlength := hb.length
  have hone : list1.length = front.length + 1 := by rw [hb.split, List.length_append, List.length_singleton]
  have hrun := h.run hb.place
  have hle := (hv.takeAt_le start bytes).1
  have hpieces := h.pieces
  have hclean : AppendsCleanly c list start bytes ↔
      ((start % c.alignment.toNat = 0 ∨ takeAt c start bytes = bytes) ∧ RoomFor c list start bytes ∧
        last.physAddr % c.alignment.toNat = 0) ∨
      (start + bytes = 2 ^ 64 ∧
        (takeAt c start bytes = bytes ∨ (start % c.alignment.toNat = 0 ∧ RoomFor c list start bytes))) := by
    rw [AppendsCleanly, hb.aligned]
    exact or_iff_right (not_not_intro h)
  rw [hclean]
  by_cases hwhole : takeAt c start bytes = bytes
  · -- one cut
    have hnone : pieces c bytes start bytes = [⟨start, bytes⟩] := by
      rw [hpieces, hwhole, Nat.sub_self]
      cases (bytes - 1) <;> rfl
    have hdone : appendLoop c (bytes - 1) (start + bytes) 0 list1 = (.ok (), list1 ++ []) := by
      rw [List.append_nil]
      cases (bytes - 1) <;> rfl
    rw [hwhole, Nat.sub_self, hdone] at hrun
    by_cases hend : 2 ^ 64 ≤ start + bytes
    · rw [if_pos hend] at hrun
      exact iff_of_true (exact_of_trap hrun) (.inr ⟨by omega, .inl hwhole⟩)
    · rw [if_neg hend] at hrun
      rw [hb.success h hrun (by simp), List.append_nil, hone, RoomFor, hnone, List.length_singleton]
      constructor
      · rintro ⟨haligned, hcount⟩
        exact .inl ⟨.inr hwhole, by omega, haligned⟩
      · rintro (⟨-, hroom, haligned⟩ | ⟨hlast, -⟩)
        · exact ⟨haligned, by omega⟩
        · omega
  have hcut : takeAt c start bytes < bytes := by omega
  rw [if_neg (by omega)] at hrun
  by_cases hstart : start % c.alignment.toNat = 0
  · have hunit : c.alignment.toNat ≤ maxBytes c := by
      rcases hv.takeAt_cases start bytes with ⟨hall, -⟩ | ⟨-, -, -, hdvd⟩
      · exact absurd hall hwhole
      · have hunit := Nat.le_of_dvd (Nat.pos_of_ne_zero h.cut) hdvd
        have hmax := (hv.takeAt_le start bytes).2.1
        omega
    have hnext : (start + takeAt c start bytes) % c.alignment.toNat = 0 := by
      rcases hv.takeAt_cases start bytes with ⟨hall, -⟩ | ⟨-, -, -, hdvd⟩
      · exact absurd hall hwhole
      · rw [Nat.add_mod, hstart, Nat.mod_eq_zero_of_dvd hdvd]
        simp
    have hmeet := pieces_meet hv hunit (bytes - 1) (start + takeAt c start bytes) (bytes - takeAt c start bytes) hnext (by omega)
    obtain ⟨hall, hmany⟩ := appendLoop_aligned hv hunit (bytes - 1) (start + takeAt c start bytes) (bytes - takeAt c start bytes)
      front last (by have hpos := h.cut; omega) hnext (by omega) (by omega) hb.room hb.ends
      (fun hmore => hv.not_joins hcut (hv.takeAt_pos hnext hunit hmore) hb.covers hb.window)
    rw [← hb.split] at hall hmany
    have hsum : start + takeAt c start bytes + (bytes - takeAt c start bytes) = start + bytes := by omega
    have hroom : RoomFor c list start bytes ↔ front.length + 1 +
        (pieces c (bytes - 1) (start + takeAt c start bytes) (bytes - takeAt c start bytes)).length ≤ c.maxSegmentCount.toNat := by
      rw [RoomFor, hpieces, List.length_cons]
      omega
    by_cases hfit : RoomFor c list start bytes
    · rw [hall (hroom.1 hfit), hsum] at hrun
      by_cases hend : 2 ^ 64 ≤ start + bytes
      · rw [if_pos ⟨by omega, hend⟩] at hrun
        exact iff_of_true (exact_of_trap hrun) (.inr ⟨by omega, .inr ⟨hstart, hfit⟩⟩)
      · rw [if_neg (fun hh => hend hh.2)] at hrun
        rw [hb.success h hrun hmeet, List.length_append, hone]
        constructor
        · rintro ⟨haligned, -⟩
          exact .inl ⟨.inl hstart, hfit, haligned⟩
        · rintro (⟨-, -, haligned⟩ | ⟨hlast, -⟩)
          · exact ⟨haligned, hroom.1 hfit⟩
          · omega
    · obtain ⟨list', herror⟩ := hmany (by omega) (Nat.lt_of_not_le (fun hle => hfit (hroom.2 hle)))
      rw [herror] at hrun
      refine iff_of_false (hb.failure h hrun) ?_
      rintro (⟨-, hr, -⟩ | ⟨-, hall | ⟨-, hr⟩⟩)
      · exact hfit hr
      · exact hwhole hall
      · exact hfit hr
  · -- an unaligned start joined the last segment, and its next cut finds no place
    obtain ⟨fuel, hfuel⟩ : ∃ fuel, bytes - 1 = fuel + 1 := ⟨bytes - 2, by have hpos := h.cut; omega⟩
    obtain ⟨e, list', herror⟩ := appendLoop_unaligned hv fuel hstart hcut (by omega) hb.room hb.ends hb.covers hb.window
    rw [hfuel, hb.split, herror] at hrun
    refine iff_of_false (hb.failure h hrun) ?_
    rintro (⟨hs | hall, -, -⟩ | ⟨-, hall | ⟨hs, -⟩⟩)
    · exact hstart hs
    · exact hwhole hall
    · exact hwhole hall
    · exact hstart hs

/-- **Scatter lists are exact**: the segments built from frames, another list or a range stand for their bytes within the
limits, and a range is appended exactly if and only if that is clean. -/
theorem segments_exact (c : Constraints) :
    (∀ frames firstOffset bytes list, buildFromFrames c frames firstOffset bytes = .ok list →
      addresses list = frameBytes frames firstOffset bytes ∧ Good c list) ∧
    (∀ source list, constrain c source = .ok list → addresses list = addresses source ∧ Good c list) ∧
    (∀ physAddr bytes list, singleRange c physAddr bytes = .ok list →
      addresses list = List.range' physAddr bytes ∧ Good c list) ∧
    ∀ list start bytes, AppendExact c list start bytes ↔ AppendsCleanly c list start bytes :=
  ⟨fun _ _ _ _ h => buildFromFrames_ok h, fun _ _ h => constrain_ok h, fun _ _ _ h => singleRange_ok h,
    fun list start bytes => appendRange_exact c list start bytes⟩

theorem split_exact : addresses [⟨0x1000, 2816⟩, ⟨0x1B00, 2816⟩, ⟨0x2600, 1368⟩] = List.range' 0x1000 7000 ∧
    Good { maxSegmentBytes := 3000, alignment := 256 } [⟨0x1000, 2816⟩, ⟨0x1B00, 2816⟩, ⟨0x2600, 1368⟩] :=
  (segments_exact { maxSegmentBytes := 3000, alignment := 256 }).2.2.1 0x1000 7000 _ (by decide +kernel)

theorem append_partial : ∃ c list', appendRange c [] 0x1000 0x2000 = (.error (.error .tooManySegments), list') ∧
    list' = [⟨0x1000, 0x1000⟩] ∧ ¬ AppendExact c [] 0x1000 0x2000 := by
  have hrun : appendRange { maxSegmentBytes := 0x1000, maxSegmentCount := 1 } [] 0x1000 0x2000 =
      (.error (.error .tooManySegments), [⟨0x1000, 0x1000⟩]) := by
    decide +kernel
  refine ⟨_, _, hrun, rfl, fun h => ?_⟩
  have hsame := h.failure _ _ hrun
  cases hsame

end Dma
end R4
