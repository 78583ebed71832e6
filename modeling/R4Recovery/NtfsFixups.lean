import R4Recovery.NtfsRecord
import R4Recovery.PartitionCodec
/-!
# NtfsFixups — the update sequence tells a torn write

`installFixups` moves the last word of every sector into the array and stamps it; `applyFixups` moves the words back.
Where the array stands behind its own description, the two are inverse (`applyFixups_installFixups`), and a block that
mixes the sectors of two stores is refused (`applyFixups_mixed`).
-/
namespace R4
namespace Ntfs

open Gpt (getLe)

/-- The place of the stamp of a sector. -/
def stampOfs (sector : Nat) : Nat := (sector + 1) * sectorSize - 2

/-- The place in the array of the word that the stamp of a sector stands for. -/
def wordOfs (usaOfs sector : Nat) : Nat := usaOfs + 2 + sector * 2

/-- The header describes an array in the first sector, before the sector's last word, for two sectors at least. -/
structure DescribesArray (b : Bytes) : Prop where
  sectors : 3 ≤ getLe b 6 2
  length : b.length = (getLe b 6 2 - 1) * sectorSize
  inside : getLe b 4 2 + getLe b 6 2 * 2 ≤ 510

/-- The array stands behind the two fields that describe it. -/
def BehindFields (b : Bytes) : Prop := 8 ≤ getLe b 4 2

theorem fixupSectors_ok {b : Bytes} (h : DescribesArray b) : fixupSectors b = .ok (getLe b 6 2 - 1) := by
  have h1 := h.sectors
  have h2 := h.length
  have h3 := h.inside
  unfold sectorSize at h2
  unfold fixupSectors sectorSize
  rw [if_neg (by omega), if_neg (by omega), if_neg (by omega), if_neg (by omega), if_neg (by omega)]

/-! ## Installing -/

/-- One sector: its last word is saved and stamped. -/
def installFixup (usaOfs : Nat) (usn : Bytes) (record : Bytes) (sector : Nat) : Bytes :=
  put (put record (wordOfs usaOfs sector) (slice record (stampOfs sector) 2)) (stampOfs sector) usn

/-- After `k` sectors. -/
structure Installed (b : Bytes) (usaOfs : Nat) (usn : Bytes) (k : Nat) (r : Bytes) : Prop where
  length : r.length = b.length
  stamp : slice r usaOfs 2 = usn
  words : ∀ j, j < k → slice r (wordOfs usaOfs j) 2 = slice b (stampOfs j) 2
  stamps : ∀ j, j < k → slice r (stampOfs j) 2 = usn
  others : ∀ i, (i < usaOfs ∨ usaOfs + 2 + k * 2 ≤ i) → (∀ j, j < k → i < stampOfs j ∨ stampOfs j + 2 ≤ i) → r[i]? = b[i]?

section Install

variable {b r : Bytes} {usaOfs n k : Nat} {usn : Bytes}

theorem Installed.step (h : Installed b usaOfs usn k r) (husn : usn.length = 2) (hinside : usaOfs + (n + 1) * 2 ≤ 510)
    (hlen : b.length = n * sectorSize) (hk : k < n) : Installed b usaOfs usn (k + 1) (installFixup usaOfs usn r k) := by
  have hstamp : stampOfs k + 2 ≤ r.length := by
    rw [h.length, hlen]
    unfold stampOfs sectorSize
    omega
  have hsaved : (slice r (stampOfs k) 2).length = 2 := length_slice hstamp
  have hword : wordOfs usaOfs k + 2 ≤ 510 := by
    unfold wordOfs
    omega
  have h510 : ∀ j, 510 ≤ stampOfs j := fun j => by unfold stampOfs sectorSize; omega
  have hapart : ∀ {j j'}, j < j' → stampOfs j + 2 ≤ stampOfs j' := by
    intro j j' hj
    unfold stampOfs sectorSize
    omega
  have hkept : slice r (stampOfs k) 2 = slice b (stampOfs k) 2 := by
    refine List.ext_getElem? fun i => ?_
    rw [getElem?_slice, getElem?_slice]
    by_cases hi : i < 2
    · have := h510 k
      rw [if_pos hi, if_pos hi]
      refine h.others _ (.inr (by omega)) fun j hj => .inr ?_
      have := hapart hj
      omega
    · rw [if_neg hi, if_neg hi]
  have h510k := h510 k
  refine ⟨?_, ?_, ?_, ?_, ?_⟩
  · rw [installFixup, length_put, length_put, h.length]
  · rw [installFixup, slice_put_off (.inl (by omega)), slice_put_off (.inl (by unfold wordOfs; omega)), h.stamp]
  · intro j hj
    rw [installFixup, slice_put_off (.inl (by unfold wordOfs; omega))]
    rcases Nat.lt_or_ge j k with hlt | hge
    · rw [slice_put_off (.inl (by unfold wordOfs; omega)), h.words j hlt]
    · obtain rfl : j = k := by omega
      rw [slice_put hsaved (by omega), hkept]
  · intro j hj
    rcases Nat.lt_or_ge j k with hlt | hge
    · have := h510 j
      rw [installFixup, slice_put_off (.inl (hapart hlt)), slice_put_off (.inr (by rw [hsaved]; omega)), h.stamps j hlt]
    · obtain rfl : j = k := by omega
      rw [installFixup, slice_put husn (by rw [length_put]; exact hstamp)]
  · intro i hi hj
    have hik := hj k (Nat.lt_succ_self k)
    rw [installFixup, getElem?_put_off (by rw [husn]; exact hik), getElem?_put_off (by rw [hsaved]; unfold wordOfs; omega)]
    exact h.others i (by omega) fun j hlt => hj j (by omega)

theorem Installed.run (husn : usn.length = 2) (hinside : usaOfs + (n + 1) * 2 ≤ 510) (hlen : b.length = n * sectorSize)
    (hn : 0 < n) : ∀ k, k ≤ n → Installed b usaOfs usn k ((List.range k).foldl (installFixup usaOfs usn) (put b usaOfs usn))
  | 0, _ => by
    refine ⟨length_put .., slice_put husn ?_, fun j hj => absurd hj (Nat.not_lt_zero j),
      fun j hj => absurd hj (Nat.not_lt_zero j), fun i hi _ => getElem?_put_off (by omega)⟩
    rw [hlen]
    unfold sectorSize
    omega
  | k + 1, hk => by
    rw [List.range_succ, List.foldl_append]
    exact (Installed.run husn hinside hlen hn k (by omega)).step husn hinside hlen (by omega)

/-- **What is stored**: every sector ends in the stamp, the array holds the words. -/
theorem installFixups_ok (h : DescribesArray b) (previousUsn : Nat) : ∃ r, installFixups b previousUsn = .ok r ∧
    Installed b (getLe b 4 2) (leBytes 2 (nextUsn previousUsn)) (getLe b 6 2 - 1) r := by
  have hsectors := h.sectors
  have hinside := h.inside
  refine ⟨_, ?_, Installed.run (length_leBytes ..) (by omega) h.length (by omega) _ (Nat.le_refl _)⟩
  unfold installFixups
  rw [fixupSectors_ok h]
  rfl

end Install

/-! ## Applying -/

section Apply

variable {b r : Bytes} {usaOfs n k usn : Nat}

/-- The words of the first `k` sectors are back. -/
structure Applied (r : Bytes) (usaOfs k : Nat) (d : Bytes) : Prop where
  length : d.length = r.length
  words : ∀ j, j < k → slice d (stampOfs j) 2 = slice r (wordOfs usaOfs j) 2
  others : ∀ i, (∀ j, j < k → i < stampOfs j ∨ stampOfs j + 2 ≤ i) → d[i]? = r[i]?

theorem slice_congr {a b : Bytes} {off len : Nat} (h : ∀ i, off ≤ i → i < off + len → a[i]? = b[i]?) :
    slice a off len = slice b off len := by
  refine List.ext_getElem? fun i => ?_
  rw [getElem?_slice, getElem?_slice]
  by_cases hi : i < len
  · rw [if_pos hi, if_pos hi, h (off + i) (by omega) (by omega)]
  · rw [if_neg hi, if_neg hi]

theorem Applied.run (hstamps : ∀ j, j < n → getLe r (stampOfs j) 2 = usn) (hinside : usaOfs + (n + 1) * 2 ≤ 510)
    (hlen : r.length = n * sectorSize) : ∀ k, k ≤ n →
    ∃ d, (List.range k).foldlM (applyFixup usaOfs usn) r = .ok d ∧ Applied r usaOfs k d
  | 0, _ => ⟨r, rfl, rfl, fun j hj => absurd hj (Nat.not_lt_zero j), fun _ _ => rfl⟩
  | k + 1, hk => by
    obtain ⟨d, hd, h⟩ := Applied.run hstamps hinside hlen k (by omega)
    have h510 : ∀ j, 510 ≤ stampOfs j := fun j => by unfold stampOfs sectorSize; omega
    have hapart : ∀ {j j'}, j < j' → stampOfs j + 2 ≤ stampOfs j' := by
      intro j j' hj
      unfold stampOfs sectorSize
      omega
    have hroom : stampOfs k + 2 ≤ d.length := by
      rw [h.length, hlen]
      unfold stampOfs sectorSize
      omega
    have hstamp : getLe d (stampOfs k) 2 = usn := by
      rw [← hstamps k (by omega), getLe, getLe]
      refine congrArg leNat (slice_congr fun i hi _ => h.others i fun j hj => .inr ?_)
      have := hapart hj
      omega
    have hword : slice d (wordOfs usaOfs k) 2 = slice r (wordOfs usaOfs k) 2 := by
      refine slice_congr fun i _ hi => h.others i fun j _ => .inl ?_
      have := h510 j
      unfold wordOfs at hi
      omega
    have hsize : (slice r (wordOfs usaOfs k) 2).length = 2 := by
      refine length_slice ?_
      rw [hlen]
      unfold wordOfs sectorSize
      omega
    refine ⟨put d (stampOfs k) (slice r (wordOfs usaOfs k) 2), ?_, ?_, ?_, ?_⟩
    · rw [List.range_succ, List.foldlM_append, hd]
      show applyFixup usaOfs usn d k >>= pure = _
      unfold applyFixup
      dsimp only
      rw [show (k + 1) * sectorSize - 2 = stampOfs k from rfl, if_neg (by simpa using hstamp),
        show usaOfs + 2 + k * 2 = wordOfs usaOfs k from rfl, hword]
      rfl
    · rw [length_put, h.length]
    · intro j hj
      rcases Nat.lt_or_ge j k with hlt | hge
      · rw [slice_put_off (.inl (hapart hlt)), h.words j hlt]
      · obtain rfl : j = k := by omega
        exact slice_put hsize hroom
    · intro i hi
      rw [getElem?_put_off (by rw [hsize]; exact hi k (Nat.lt_succ_self k))]
      exact h.others i fun j hj => hi j (by omega)

theorem stamps_of_applied : ∀ (k : Nat) {d : Bytes}, (List.range k).foldlM (applyFixup usaOfs usn) r = .ok d →
    (∀ i, (∀ j, j < k → i < stampOfs j ∨ stampOfs j + 2 ≤ i) → d[i]? = r[i]?) ∧ ∀ j, j < k → getLe r (stampOfs j) 2 = usn
  | 0, d, h => by
    cases h
    exact ⟨fun _ _ => rfl, fun j hj => absurd hj (Nat.not_lt_zero j)⟩
  | k + 1, d, h => by
    rw [List.range_succ, List.foldlM_append] at h
    obtain ⟨mid, hmid, h⟩ := Except.bind_ok.1 h
    obtain ⟨hothers, hstamps⟩ := stamps_of_applied k hmid
    obtain ⟨last, hlast, h⟩ := Except.bind_ok.1 h
    cases h
    have hapart : ∀ {j j'}, j < j' → stampOfs j + 2 ≤ stampOfs j' := by
      intro j j' hj
      unfold stampOfs sectorSize
      omega
    unfold applyFixup at hlast
    dsimp only at hlast
    rw [show (k + 1) * sectorSize - 2 = stampOfs k from rfl] at hlast
    split at hlast
    · cases hlast
    · rename_i hstamp
      cases hlast
      have hsame : getLe mid (stampOfs k) 2 = getLe r (stampOfs k) 2 := by
        refine congrArg leNat (slice_congr fun i hi _ => hothers i fun j hj => .inr ?_)
        have := hapart hj
        omega
      refine ⟨fun i hi => ?_, fun j hj => ?_⟩
      · have := hi k (Nat.lt_succ_self k)
        have hsize := length_slice_le mid (usaOfs + 2 + k * 2) 2
        rw [getElem?_put_off (by omega)]
        exact hothers i fun j hj => hi j (by omega)
      · rcases Nat.lt_or_ge j k with hlt | hge
        · exact hstamps j hlt
        · obtain rfl : j = k := by omega
          rw [← hsame]
          exact Decidable.of_not_not hstamp

end Apply

/-! ## Both -/

section Both

variable {b old r m : Bytes} {n j : Nat}

theorem nextUsn_lt (previous : Nat) : nextUsn previous < 2 ^ 16 := by
  unfold nextUsn
  split <;> omega

/-- **The stamp changes at every store**, also around the end of its range. -/
theorem nextUsn_ne {previous : Nat} (_ : previous < 2 ^ 16) : nextUsn previous ≠ previous := by
  unfold nextUsn
  split <;> omega

theorem Installed.fields {usaOfs : Nat} {usn : Bytes} (h : Installed b usaOfs usn n r) (hbehind : 8 ≤ usaOfs) :
    getLe r 4 2 = getLe b 4 2 ∧ getLe r 6 2 = getLe b 6 2 := by
  have hbyte : ∀ i, i < 8 → r[i]? = b[i]? := by
    intro i hi
    refine h.others i (.inl (by omega)) fun j _ => .inl ?_
    unfold stampOfs sectorSize
    omega
  constructor
  · exact congrArg leNat (slice_congr fun i _ hi => hbyte i (by omega))
  · exact congrArg leNat (slice_congr fun i _ hi => hbyte i (by omega))

/-- Outside its array a record is as before. -/
def SameOutside (b d : Bytes) : Prop := d.length = b.length ∧
  ∀ i, (i < getLe b 4 2 ∨ getLe b 4 2 + getLe b 6 2 * 2 ≤ i) → d[i]? = b[i]?

/-- **What was installed is taken off again.** -/
theorem applyFixups_installFixups (h : DescribesArray b) (hbehind : BehindFields b) (previousUsn : Nat) :
    ∃ r d, installFixups b previousUsn = .ok r ∧ applyFixups r = .ok d ∧ SameOutside b d := by
  obtain ⟨r, hr, hinst⟩ := installFixups_ok h previousUsn
  obtain ⟨h4, h6⟩ := hinst.fields hbehind
  have hsectors := h.sectors
  have hinside := h.inside
  have hdesc : DescribesArray r := ⟨by rw [h6]; exact hsectors, by rw [hinst.length, h6]; exact h.length,
    by rw [h4, h6]; exact hinside⟩
  have hstamp : getLe r (getLe b 4 2) 2 = nextUsn previousUsn := by
    rw [getLe, hinst.stamp, leNat_leBytes_of_lt (nextUsn_lt _)]
  have hstamps : ∀ j, j < getLe b 6 2 - 1 → getLe r (stampOfs j) 2 = nextUsn previousUsn := by
    intro j hj
    rw [getLe, hinst.stamps j hj, leNat_leBytes_of_lt (nextUsn_lt _)]
  obtain ⟨d, hd, happ⟩ : ∃ d, _ ∧ Applied r (getLe b 4 2) (getLe b 6 2 - 1) d :=
    Applied.run hstamps (by omega) (hinst.length.trans h.length) _ (Nat.le_refl _)
  refine ⟨r, d, hr, ?_, happ.length.trans hinst.length, fun i hi => ?_⟩
  · unfold applyFixups
    rw [fixupSectors_ok hdesc, h4, h6, hstamp]
    exact hd
  · by_cases hin : ∃ j, j < getLe b 6 2 - 1 ∧ stampOfs j ≤ i ∧ i < stampOfs j + 2
    · obtain ⟨j, hj, hlo, hhi⟩ := hin
      have hword : (slice d (stampOfs j) 2)[i - stampOfs j]? = (slice b (stampOfs j) 2)[i - stampOfs j]? := by
        rw [happ.words j hj, hinst.words j hj]
      rw [getElem?_slice, getElem?_slice, if_pos (by omega), if_pos (by omega), Nat.add_sub_cancel' hlo] at hword
      exact hword
    · have hout : ∀ j, j < getLe b 6 2 - 1 → i < stampOfs j ∨ stampOfs j + 2 ≤ i := by
        intro j hj
        by_contra hno
        exact hin ⟨j, hj, by omega, by omega⟩
      rw [happ.others i hout]
      exact hinst.others i (by omega) hout

/-- The block holds each of its sectors from one of two images, and one at least from each. -/
structure Mixed (old new m : Bytes) (sectors : Nat) : Prop where
  length : m.length = new.length
  sector : ∀ j, j < sectors → slice m (j * sectorSize) sectorSize = slice old (j * sectorSize) sectorSize ∨
    slice m (j * sectorSize) sectorSize = slice new (j * sectorSize) sectorSize
  someOld : ∃ j, j < sectors ∧ slice m (j * sectorSize) sectorSize = slice old (j * sectorSize) sectorSize
  someNew : ∃ j, j < sectors ∧ slice m (j * sectorSize) sectorSize = slice new (j * sectorSize) sectorSize

theorem Installed.stamp_of_sector {usaOfs usn : Nat} (h : Installed b usaOfs (leBytes 2 usn) n r) (husn : usn < 2 ^ 16)
    (hj : j < n) (hsector : slice m (j * sectorSize) sectorSize = slice r (j * sectorSize) sectorSize) :
    getLe m (stampOfs j) 2 = usn := by
  have hat : stampOfs j = j * sectorSize + 510 := by
    unfold stampOfs sectorSize
    omega
  have hin : 510 + 2 ≤ sectorSize := Nat.le_refl _
  rw [getLe, hat, ← slice_slice m hin, hsector, slice_slice r hin, ← hat, h.stamps j hj, leNat_leBytes_of_lt husn]

theorem fixupSectors_length {sectors : Nat} (h : fixupSectors b = .ok sectors) : b.length = sectors * sectorSize := by
  unfold fixupSectors at h
  split at h
  · cases h
  · split at h
    · cases h
    · split at h
      · cases h
      · split at h
        · cases h
        · rename_i hlen
          split at h
          · cases h
          · cases h
            exact Decidable.of_not_not hlen

/-- **A block that mixes two stores is refused.** -/
theorem applyFixups_mixed {newer older : Bytes} {q : Nat} (h : DescribesArray b) (h' : DescribesArray old)
    (hlen : old.length = b.length) (holder : installFixups old q = .ok older)
    (hnewer : installFixups b (nextUsn q) = .ok newer)
    (hm : Mixed older newer m (getLe b 6 2 - 1)) : ∃ e, applyFixups m = .error e := by
  cases happ : applyFixups m with
  | error e => exact ⟨e, rfl⟩
  | ok d =>
    exfalso
    obtain ⟨older', ho, hold⟩ := installFixups_ok h' q
    obtain rfl : older = older' := Except.ok.inj (holder.symm.trans ho)
    obtain ⟨newer', hn, hnew⟩ := installFixups_ok h (nextUsn q)
    obtain rfl : newer = newer' := Except.ok.inj (hnewer.symm.trans hn)
    have hcount : getLe old 6 2 - 1 = getLe b 6 2 - 1 := by
      have h1 := h.length
      have h2 := h'.length
      unfold sectorSize at h1 h2
      omega
    rw [hcount] at hold
    obtain ⟨sectors, hsectors, hrun⟩ := Except.bind_ok.1 happ
    obtain ⟨-, hstamps⟩ := stamps_of_applied sectors hrun
    have hall : sectors = getLe b 6 2 - 1 := by
      have h1 := fixupSectors_length hsectors
      rw [hm.length, hnew.length, h.length] at h1
      unfold sectorSize at h1
      omega
    obtain ⟨i, hi, hiold⟩ := hm.someOld
    obtain ⟨j, hj, hjnew⟩ := hm.someNew
    have hstampOld := (hold.stamp_of_sector (nextUsn_lt q) hi hiold).symm.trans (hstamps i (by omega))
    have hstampNew := (hnew.stamp_of_sector (nextUsn_lt _) hj hjnew).symm.trans (hstamps j (by omega))
    exact nextUsn_ne (nextUsn_lt q) (hstampNew.trans hstampOld.symm)

/-- **The update sequence**: with the array behind its own description it comes off as it went on, and it tells a block
that was torn between two stores. -/
theorem fixups_detect (b : Bytes) (h : DescribesArray b) :
    (BehindFields b → ∀ previousUsn, ∃ r d, installFixups b previousUsn = .ok r ∧ applyFixups r = .ok d ∧ SameOutside b d) ∧
    ∀ (old older newer m : Bytes) (q : Nat), DescribesArray old → old.length = b.length → installFixups old q = .ok older →
      installFixups b (nextUsn q) = .ok newer → Mixed older newer m (getLe b 6 2 - 1) → ∃ e, applyFixups m = .error e :=
  ⟨fun hbehind previousUsn => applyFixups_installFixups h hbehind previousUsn,
    fun _ _ _ _ _ hold hlen holder hnewer hm => applyFixups_mixed h hold hlen holder hnewer hm⟩

end Both

/-! ## Two blocks -/

/-- A block of two sectors with its array at `usaOfs`. -/
def twoSectors (usaOfs : Nat) : Bytes := put (put (zeros 1024) 4 (leBytes 2 usaOfs)) 6 (leBytes 2 3)

theorem twoSectors_describes (usaOfs : Nat) (h : usaOfs ≤ 504) : DescribesArray (twoSectors usaOfs) ∧
    getLe (twoSectors usaOfs) 4 2 = usaOfs := by
  have h6 : getLe (twoSectors usaOfs) 6 2 = 3 := Gpt.getLe_put (by simp) (by decide)
  have h4 : getLe (twoSectors usaOfs) 4 2 = usaOfs := by
    rw [twoSectors, Gpt.getLe_put_off (.inl (by decide))]
    exact Gpt.getLe_put (by simp) (by omega)
  refine ⟨⟨by rw [h6], by rw [h6, twoSectors, length_put, length_put, length_zeros]; rfl, by rw [h4, h6]; omega⟩, h4⟩

/-- The same block before its last change. -/
def twoBefore : Bytes := put (twoSectors 48) 1000 [1, 2, 3]

theorem twoSectors_count (usaOfs : Nat) : getLe (twoSectors usaOfs) 6 2 = 3 := Gpt.getLe_put (by simp) (by decide)

theorem length_twoSectors (usaOfs : Nat) : (twoSectors usaOfs).length = 1024 := by
  rw [twoSectors, length_put, length_put, length_zeros]

theorem twoBefore_describes : DescribesArray twoBefore := by
  have h6 : getLe twoBefore 6 2 = 3 := (Gpt.getLe_put_off (.inl (by decide))).trans (twoSectors_count 48)
  have h4 : getLe twoBefore 4 2 = 48 := (Gpt.getLe_put_off (.inl (by decide))).trans (twoSectors_describes 48 (by decide)).2
  refine ⟨by rw [h6], ?_, by rw [h4, h6]; omega⟩
  rw [h6, twoBefore, length_put, length_twoSectors]
  rfl

/-- The first sector of one image in front of the second of another. -/
theorem mixed_torn {older newer : Bytes} (ho : older.length = 1024) (hn : newer.length = 1024) :
    Mixed older newer (older.take 512 ++ newer.drop 512) 2 := by
  have htake : (older.take 512).length = 512 := List.length_take_of_le (by omega)
  have h0 : slice (older.take 512 ++ newer.drop 512) (0 * sectorSize) sectorSize = slice older (0 * sectorSize) sectorSize := by
    rw [Nat.zero_mul, slice, slice, List.drop_zero, List.drop_zero]
    exact List.take_left' htake
  have h1 : slice (older.take 512 ++ newer.drop 512) (1 * sectorSize) sectorSize = slice newer (1 * sectorSize) sectorSize := by
    rw [Nat.one_mul, slice, slice]
    exact congrArg (List.take sectorSize) (List.drop_left' htake)
  refine ⟨by rw [List.length_append, htake, List.length_drop, hn], fun j hj => ?_, ⟨0, by decide, h0⟩, ⟨1, by decide, h1⟩⟩
  rcases (by omega : j = 0 ∨ j = 1) with rfl | rfl
  · exact .inl h0
  · exact .inr h1

/-- The array comes off, and a store that stopped behind the first sector is told. -/
theorem fixups_detect_two :
    (∃ r d, installFixups (twoSectors 48) 7 = .ok r ∧ applyFixups r = .ok d ∧ SameOutside (twoSectors 48) d) ∧
    ∃ older newer, installFixups twoBefore 7 = .ok older ∧ installFixups (twoSectors 48) (nextUsn 7) = .ok newer ∧
      ∃ e, applyFixups (older.take 512 ++ newer.drop 512) = .error e := by
  obtain ⟨hdesc, h4⟩ := twoSectors_describes 48 (by decide)
  obtain ⟨hcomes, htorn⟩ := fixups_detect (twoSectors 48) hdesc
  obtain ⟨older, ho, hold⟩ := installFixups_ok twoBefore_describes 7
  obtain ⟨newer, hn, hnew⟩ := installFixups_ok hdesc (nextUsn 7)
  have hlen : twoBefore.length = (twoSectors 48).length := length_put _ _ _
  have hbehind : BehindFields (twoSectors 48) := by
    rw [BehindFields, h4]
    decide
  refine ⟨hcomes hbehind 7, older, newer, ho, hn, htorn twoBefore older newer _ 7 twoBefore_describes hlen ho hn ?_⟩
  rw [twoSectors_count]
  exact mixed_torn (by rw [hold.length, hlen, length_twoSectors]) (by rw [hnew.length, length_twoSectors])

/-- **An array over its own description does not come off.** -/
theorem fixups_over_fields : ¬ ∀ b, DescribesArray b → ∀ previousUsn, ∃ r d, installFixups b previousUsn = .ok r ∧
    applyFixups r = .ok d ∧ SameOutside b d := by
  intro h
  obtain ⟨hdesc, h4⟩ := twoSectors_describes 6 (by decide)
  obtain ⟨r, d, hr, hd, -⟩ := h (twoSectors 6) hdesc 0
  obtain ⟨r', hr', hinst⟩ := installFixups_ok hdesc 0
  obtain rfl : r = r' := Except.ok.inj (hr.symm.trans hr')
  -- the stamp 1 stands where the number of sectors stood
  have hcount : getLe r 6 2 = 1 := by
    have := hinst.stamp
    rw [h4] at this
    rw [getLe, this]
    rfl
  obtain ⟨sectors, hsectors, -⟩ := Except.bind_ok.1 hd
  have hlength : r.length = 1024 := by
    rw [hinst.length, twoSectors, length_put, length_put, length_zeros]
  unfold fixupSectors at hsectors
  rw [hlength, hcount, if_neg (by decide), if_pos (by decide)] at hsectors
  cases hsectors

end Ntfs
end R4
