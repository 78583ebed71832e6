import R4Recovery.Bitmap
import R4Recovery.NtfsMap
/-!
# NtfsRecord — records and bit ranges of the resizer

The record checks of `ntfs_resize.zig` and its edits of bit ranges.  A range may begin and end inside a byte and stand
partly outside the chunk at hand; `bitAt_changeRange` says what it does to every bit of the chunk.
-/
namespace R4
namespace Ntfs

open Gpt (getLe)
open Bitmap

/-! ## Records -/

def decodeFixups (bytes : Bytes) : Except ResizeError Bytes :=
  if getLe bytes 6 2 ≠ bytes.length / 512 + 1 ∨ getLe bytes 4 2 < 0x28 ∨ 510 < getLe bytes 4 2 + getLe bytes 6 2 * 2 then
    .error .corruptNtfs
  else match applyFixups bytes with
    | .ok record => .ok record
    | .error _ => .error .corruptNtfs

/-- What one attribute must look like; `record` is the used part. -/
def checkAttribute (attr : Attribute) : Except ResizeError Unit :=
  let least := if attr.nonResident then 64 else 24
  let body := if attr.nonResident then attr.mappingOffset else attr.valueOffset
  if attr.attrType = AttrType.attributeList then .error .unsupportedNtfs
  else if attr.length < least ∨ (attr.name ≠ [] ∧ attr.nameOffset < least) then .error .corruptNtfs
  else if body < least ∨ (attr.name ≠ [] ∧ body < attr.nameOffset + attr.name.length) then .error .corruptNtfs
  else .ok ()

def checkAttributes (record : Bytes) : Nat → Nat → Except ResizeError Unit
  | 0, _ => .error .corruptNtfs
  | fuel + 1, offset =>
    if record.length < offset + 8 then .error .corruptNtfs
    else if getLe record offset 4 = endMarker then .ok ()
    else match nextAttribute record offset with
      | none => .error .corruptNtfs
      | some attr => do
        checkAttribute attr
        checkAttributes record fuel (offset + attr.length)

def decodeRecord (bytes : Bytes) (number : Nat) : Except ResizeError Bytes := do
  let record ← decodeFixups bytes
  match FileRecordHeader.parse record with
  | none => .error .corruptNtfs
  | some header =>
    if !header.inUse ∨ header.baseRecord.pack ≠ 0 ∨ header.bytesAllocated ≠ 1024 ∨ header.recordNumber ≠ number then
      .error .unsupportedNtfs
    else if getLe record 4 2 < 0x30 ∨ header.attrsOffset < getLe record 4 2 + getLe record 6 2 * 2 then .error .corruptNtfs
    else do
      checkAttributes (record.take header.bytesInUse) (record.length + 1) header.attrsOffset
      return record

/-- The attributes of a decoded record. -/
def attributesOf (record : Bytes) : List Attribute :=
  match FileRecordHeader.parse record with
  | none => []
  | some header => attributes (record.take header.bytesInUse) header

/-- `attribute`: the only one of a type and name. -/
def findOnly (record : Bytes) (kind : Nat) (name : Bytes) : Except ResizeError Attribute :=
  match FileRecordHeader.parse record with
  | none => .error .corruptNtfs
  | some _ =>
    match (attributesOf record).filter (fun attr => attr.attrType == kind && attr.name == name) with
    | [attr] => .ok attr
    | _ => .error .unsupportedNtfs

/-- `normaliseUsa`: the update sequence is left out of a comparison. -/
def normaliseUsa (record : Bytes) : Bytes := put record (getLe record 4 2) (zeros (getLe record 6 2 * 2))

theorem findOnly_ok {record : Bytes} {kind : Nat} {name : Bytes} {attr : Attribute} (h : findOnly record kind name = .ok attr) :
    attr ∈ attributesOf record := by
  unfold findOnly at h
  split at h
  · cases h
  · split at h
    · rename_i only hfilter
      cases h
      have hmem : attr ∈ (attributesOf record).filter (fun attr => attr.attrType == kind && attr.name == name) := by
        rw [hfilter]
        exact List.mem_singleton_self _
      exact (List.mem_filter.1 hmem).1
    · cases h

theorem applyFixup_keeps {usaOfs usn sector off n : Nat} {record next : Bytes} (hoff : off + n ≤ 510)
    (h : applyFixup usaOfs usn record sector = .ok next) : getLe next off n = getLe record off n := by
  unfold applyFixup sectorSize at h
  dsimp only at h
  split at h
  · cases h
  · cases h
    rw [getLe, getLe, slice_put_off (.inl (by omega))]

theorem applyFixups_keeps {off n : Nat} {raw record : Bytes} (hoff : off + n ≤ 510) (h : applyFixups raw = .ok record) :
    getLe record off n = getLe raw off n := by
  have hfold : ∀ (list : List Nat) (usaOfs usn : Nat) (first last : Bytes),
      list.foldlM (applyFixup usaOfs usn) first = .ok last → getLe last off n = getLe first off n := by
    intro list usaOfs usn
    induction list with
    | nil =>
      intro first last h
      cases h
      rfl
    | cons sector rest ih =>
      intro first last h
      rw [List.foldlM_cons] at h
      obtain ⟨mid, hmid, h⟩ := Except.bind_ok.1 h
      exact (ih mid last h).trans (applyFixup_keeps hoff hmid)
  obtain ⟨sectors, -, h⟩ := Except.bind_ok.1 h
  exact hfold _ _ _ _ _ h

/-- **A record that decodes** is what its fixups give, with a header. -/
theorem decodeRecord_ok {bytes record : Bytes} {number : Nat} (h : decodeRecord bytes number = .ok record) :
    applyFixups bytes = .ok record ∧ ∃ header, FileRecordHeader.parse record = some header ∧ header.inUse = true := by
  unfold decodeRecord at h
  obtain ⟨decoded, hfix, h⟩ := Except.bind_ok.1 h
  have hrecord : applyFixups bytes = .ok decoded := by
    unfold decodeFixups at hfix
    split at hfix
    · cases hfix
    · split at hfix
      · rename_i hok
        cases hfix
        exact hok
      · cases hfix
  split at h
  · cases h
  · rename_i header hparse
    split at h
    · cases h
    · rename_i huse
      split at h
      · cases h
      · obtain ⟨_, -, h⟩ := Except.bind_ok.1 h
        cases h
        refine ⟨hrecord, header, hparse, ?_⟩
        simp only [not_or] at huse
        simpa using huse.1

/-! ## Records that decode to themselves -/

theorem put_same {b v : Bytes} {off : Nat} (h : slice b off v.length = v) : put b off v = b := by
  refine List.ext_getElem? (fun i => ?_)
  rw [getElem?_put]
  cases hb : b[i]? with
  | none => rfl
  | some c =>
    rw [Option.map_some]
    congr 1
    by_cases hi : off ≤ i
    · rw [if_pos hi]
      by_cases hv : i - off < v.length
      · have := getElem?_slice b off v.length (i - off)
        rw [h, if_pos hv, Nat.add_sub_cancel' hi, hb] at this
        rw [this]; rfl
      · rw [List.getElem?_eq_none (by omega)]; rfl
    · rw [if_neg hi]

theorem foldlM_same {ε σ α : Type} {f : σ → α → Except ε σ} {s : σ} : ∀ {list : List α}, (∀ a ∈ list, f s a = .ok s) →
    list.foldlM f s = .ok s
  | [], _ => rfl
  | a :: rest, h => by
    rw [List.foldlM_cons, h a List.mem_cons_self]
    exact foldlM_same (fun b hb => h b (List.mem_cons_of_mem _ hb))

theorem applyFixup_same {record : Bytes} {usaOfs usn sector : Nat}
    (htail : getLe record ((sector + 1) * sectorSize - 2) 2 = usn)
    (hword : slice record (usaOfs + 2 + sector * 2) 2 = slice record ((sector + 1) * sectorSize - 2) 2)
    (hlen : (sector + 1) * sectorSize ≤ record.length) : applyFixup usaOfs usn record sector = .ok record := by
  have htwo : (slice record ((sector + 1) * sectorSize - 2) 2).length = 2 := length_slice (by unfold sectorSize at *; omega)
  unfold applyFixup
  dsimp only
  rw [if_neg (by simpa using htail), hword, put_same (by rw [htwo])]

/-- A record whose stamps already stand for what is in their place. -/
def plainRecord (record : Bytes) : Bool :=
  record.length == 1024 && getLe record 4 2 == 48 && getLe record 6 2 == 3 && slice record 48 6 == zeros 6 &&
    slice record 510 2 == zeros 2 && slice record 1022 2 == zeros 2

theorem decodeFixups_plain {record : Bytes} (h : plainRecord record = true) : decodeFixups record = .ok record := by
  simp only [plainRecord, Bool.and_eq_true, beq_iff_eq] at h
  obtain ⟨⟨⟨⟨⟨hlen, hofs⟩, hcount⟩, harray⟩, hfirst⟩, hsecond⟩ := h
  have hword : ∀ k, k + 2 ≤ 6 → slice record (48 + k) 2 = zeros 2 := by
    intro k hk
    rw [← slice_slice record hk, harray, slice_zeros hk]
  have hsectors : fixupSectors record = .ok 2 := by
    simp [fixupSectors, hlen, hofs, hcount, sectorSize]
  have hstamp : getLe record 48 2 = 0 := by rw [getLe, hword 0 (by omega)]; rfl
  have hsame : applyFixups record = .ok record := by
    unfold applyFixups
    rw [hsectors, hofs, hstamp]
    refine foldlM_same (fun s hs => ?_)
    have hs : s = 0 ∨ s = 1 := by have := List.mem_range.1 hs; omega
    rcases hs with rfl | rfl
    · exact applyFixup_same (congrArg leNat hfirst) ((hword 2 (by omega)).trans hfirst.symm) (by rw [hlen]; decide)
    · exact applyFixup_same (congrArg leNat hsecond) ((hword 4 (by omega)).trans hsecond.symm) (by rw [hlen]; decide)
  unfold decodeFixups
  rw [if_neg (by omega), hsame]

/-- The checks behind the update sequence. -/
def soundRecord (record : Bytes) (number : Nat) : Bool :=
  match FileRecordHeader.parse record with
  | none => false
  | some header => header.inUse && header.baseRecord.pack == 0 && header.bytesAllocated == 1024 &&
      header.recordNumber == number && decide (54 ≤ header.attrsOffset) &&
      (checkAttributes (record.take header.bytesInUse) (record.length + 1) header.attrsOffset).isOk

theorem decodeRecord_plain {record : Bytes} {number : Nat} (hplain : plainRecord record = true)
    (hsound : soundRecord record number = true) : decodeRecord record number = .ok record := by
  have hfix := decodeFixups_plain hplain
  simp only [plainRecord, Bool.and_eq_true, beq_iff_eq] at hplain
  obtain ⟨⟨⟨⟨⟨-, hofs⟩, hcount⟩, -⟩, -⟩, -⟩ := hplain
  unfold decodeRecord
  rw [hfix]
  show (match FileRecordHeader.parse record with | none => _ | some header => _) = _
  unfold soundRecord at hsound
  split at hsound
  · cases hsound
  · rename_i header hparse
    simp only [Bool.and_eq_true, beq_iff_eq, decide_eq_true_eq] at hsound
    obtain ⟨⟨⟨⟨⟨huse, hbase⟩, hsize⟩, hnumber⟩, hattrs⟩, hcheck⟩ := hsound
    rw [if_neg (by simp [huse, hbase, hsize, hnumber]), if_neg (by omega)]
    cases hc : checkAttributes (record.take header.bytesInUse) (record.length + 1) header.attrsOffset with
    | error e => rw [hc] at hcheck; cases hcheck
    | ok u => rfl

theorem normaliseUsa_plain {record : Bytes} (h : plainRecord record = true) : normaliseUsa record = record := by
  simp only [plainRecord, Bool.and_eq_true, beq_iff_eq] at h
  obtain ⟨⟨⟨⟨⟨hlen, hofs⟩, hcount⟩, harray⟩, -⟩, -⟩ := h
  rw [normaliseUsa, hofs, hcount]
  exact put_same (by rw [length_zeros]; exact harray)

/-! ## Bit ranges -/

/-- `changeRange` on the bytes whose first bit is `base`: bit by bit to a whole byte, whole bytes, bit by bit to the end. -/
def changeRange (bytes : Bytes) (base start stop : Nat) (on : Bool) : Bytes :=
  let first := max base start
  let last := min (base + bytes.length * 8) stop
  if last ≤ first then bytes
  else
    let head := min (last - first) ((8 - first % 8) % 8)
    let bytes := setBits base on first head bytes
    let first := first + head
    let wholeEnd := last / 8 * 8
    if first < wholeEnd then
      let bytes := put bytes ((first - base) / 8) (List.replicate ((wholeEnd - first) / 8) (if on then 0xff else 0))
      setBits base on wholeEnd (last - wholeEnd) bytes
    else setBits base on first (last - first) bytes

def expectSetRange (bytes : Bytes) (base start stop : Nat) : Bool :=
  let first := max base start
  let last := min (base + bytes.length * 8) stop
  if last ≤ first then true
  else
    let head := min (last - first) ((8 - first % 8) % 8)
    let wholeEnd := last / 8 * 8
    if first + head < wholeEnd then
      allBits base bytes first head &&
        (slice bytes ((first + head - base) / 8) ((wholeEnd - (first + head)) / 8)).all (· == 0xff) &&
        allBits base bytes wholeEnd (last - wholeEnd)
    else allBits base bytes first head && allBits base bytes (first + head) (last - (first + head))

@[simp] theorem length_changeRange (bytes : Bytes) (base start stop : Nat) (on : Bool) :
    (changeRange bytes base start stop on).length = bytes.length := by
  unfold changeRange
  dsimp only
  split
  · rfl
  · split
    · rw [length_setBits, length_put, length_setBits]
    · rw [length_setBits, length_setBits]

/-- **A range of bits is set or cleared, the others stay.** -/
theorem bitAt_changeRange {bytes : Bytes} {base : Nat} (hbase : base % 8 = 0) (start stop : Nat) (on : Bool) {j : Nat}
    (hj : j < 8 * bytes.length) : bitAt (changeRange bytes base start stop on) j =
      if start ≤ base + j ∧ base + j < stop then on else bitAt bytes j := by
  have hrange : (start ≤ base + j ∧ base + j < stop) ↔
      (max base start ≤ base + j ∧ base + j < min (base + bytes.length * 8) stop) := by omega
  have hle : base ≤ max base start := Nat.le_max_left _ _
  have hlast : min (base + bytes.length * 8) stop ≤ base + bytes.length * 8 := Nat.min_le_left _ _
  simp only [hrange]
  unfold changeRange
  dsimp only
  generalize max base start = first at hle ⊢
  generalize min (base + bytes.length * 8) stop = last at hlast ⊢
  by_cases hempty : last ≤ first
  · rw [if_pos hempty, if_neg (by omega)]
  rw [if_neg hempty]
  generalize hhead : min (last - first) ((8 - first % 8) % 8) = head
  have hfirst := bitAt_setBits hbase on head first bytes hle (by omega)
  by_cases hwhole : first + head < last / 8 * 8
  · have hdiv : (first + head - base) / 8 + (last / 8 * 8 - (first + head)) / 8 ≤ (setBits base on first head bytes).length := by
      rw [length_setBits]
      omega
    rw [if_pos hwhole, bitAt_setBits hbase on _ _ _ (by omega) (by rw [length_put, length_setBits]; omega),
      bitAt_put hdiv, hfirst]
    by_cases hin : first ≤ base + j ∧ base + j < last
    · rw [if_pos hin]
      by_cases h1 : last / 8 * 8 ≤ base + j ∧ base + j < last / 8 * 8 + (last - last / 8 * 8)
      · rw [if_pos h1]
      · rw [if_neg h1]
        by_cases h2 : first ≤ base + j ∧ base + j < first + head
        · rw [if_pos h2, ite_self]
        · rw [if_pos (by omega)]
    · rw [if_neg hin, if_neg (by omega), if_neg (by omega), if_neg (by omega)]
  · rw [if_neg hwhole, bitAt_setBits hbase on _ _ _ (by omega) (by rw [length_setBits]; omega), hfirst]
    by_cases hin : first ≤ base + j ∧ base + j < last
    · rw [if_pos hin]
      by_cases h1 : first + head ≤ base + j ∧ base + j < first + head + (last - (first + head))
      · rw [if_pos h1]
      · rw [if_neg h1, if_pos (by omega)]
    · rw [if_neg hin, if_neg (by omega), if_neg (by omega)]

/-- **A range that passes has all its bits set.** -/
theorem bitAt_of_expectSet {bytes : Bytes} {base start stop : Nat} (hbase : base % 8 = 0)
    (h : expectSetRange bytes base start stop = true) {j : Nat} (hj : j < 8 * bytes.length)
    (hin : start ≤ base + j ∧ base + j < stop) : bitAt bytes j = true := by
  have hrange : max base start ≤ base + j ∧ base + j < min (base + bytes.length * 8) stop := by omega
  have hle : base ≤ max base start := Nat.le_max_left _ _
  have hlast : min (base + bytes.length * 8) stop ≤ base + bytes.length * 8 := Nat.min_le_left _ _
  unfold expectSetRange at h
  dsimp only at h
  generalize max base start = first at hrange hle h
  generalize min (base + bytes.length * 8) stop = last at hrange hlast h
  rw [if_neg (by omega)] at h
  generalize hhead : min (last - first) ((8 - first % 8) % 8) = head at h
  by_cases h1 : base + j < first + head
  · split at h
    · simp only [Bool.and_eq_true] at h
      exact bitAt_of_allBits hbase h.1.1 ⟨hrange.1, h1⟩
    · simp only [Bool.and_eq_true] at h
      exact bitAt_of_allBits hbase h.1 ⟨hrange.1, h1⟩
  · split at h
    · rename_i hwhole
      simp only [Bool.and_eq_true] at h
      by_cases h2 : base + j < last / 8 * 8
      · -- the byte of the bit is one of the whole ones
        have hbyte := List.all_eq_true.1 h.1.2 ((slice bytes ((first + head - base) / 8)
          ((last / 8 * 8 - (first + head)) / 8)).getD (j / 8 - (first + head - base) / 8) 0) (by
            have hlen : j / 8 - (first + head - base) / 8 < (slice bytes ((first + head - base) / 8)
                ((last / 8 * 8 - (first + head)) / 8)).length := by
              rw [length_slice (by omega)]
              omega
            rw [List.getD_eq_getElem?_getD, List.getElem?_eq_getElem hlen]
            exact List.getElem_mem hlen)
        rw [getD_slice (by omega), beq_iff_eq, Nat.add_sub_cancel' (by omega)] at hbyte
        rw [bitAt, hbyte]
        exact bit_full ⟨j % 8, Nat.mod_lt _ (by decide)⟩
      · exact bitAt_of_allBits hbase h.2 (by omega)
    · simp only [Bool.and_eq_true] at h
      exact bitAt_of_allBits hbase h.2 (by omega)

end Ntfs
end R4
