import R4Recovery.NtfsSpace
/-!
# NtfsScan — what a query of a volume sees

The scan of `querySpace` keeps a run of free clusters up to where it stands, and the highest cluster in use in front of it
(`scanLoop_ok`).  `inspectFixedRuns` proves each run of a record set in the bitmap, and only raises the bound
(`inspectFixedRuns_ok`).
-/
namespace R4

/-- **A fold that succeeds** keeps what each step keeps, moves along what each step moves along, and has seen every element. -/
theorem Io.foldlM_ok {ε σ α : Type} {f : σ → α → Io ε σ} {F : Faults} {d : Disk} {I : σ → Prop} {R : σ → σ → Prop}
    {P : α → σ → Prop} (hrefl : ∀ s, R s s) (htrans : ∀ s t u, R s t → R t u → R s u)
    (hmono : ∀ a s t, R s t → P a s → P a t) : ∀ (list : List α),
    (∀ a ∈ list, ∀ s t w w', w.disk = d → I s → f s a F w = (.ok t, w') → w'.disk = d ∧ I t ∧ R s t ∧ P a t) →
    ∀ s t w w', w.disk = d → I s → list.foldlM f s F w = (.ok t, w') →
      w'.disk = d ∧ I t ∧ R s t ∧ ∀ a ∈ list, P a t
  | [], _, s, t, w, w', hd, hs, h => by
    obtain ⟨rfl, rfl⟩ := Io.pure_ok h
    exact ⟨hd, hs, hrefl s, nofun⟩
  | a :: rest, hstep, s, t, w, w', hd, hs, h => by
    rw [List.foldlM_cons] at h
    obtain ⟨mid, w1, hfirst, h⟩ := Io.bind_ok h
    obtain ⟨hd1, hmid, hR, hseen⟩ := hstep a List.mem_cons_self s mid w w1 hd hs hfirst
    obtain ⟨hd', ht, hR', hrest⟩ := Io.foldlM_ok hrefl htrans hmono rest
      (fun b hb => hstep b (List.mem_cons_of_mem _ hb)) mid t w1 w' hd1 hmid h
    exact ⟨hd', ht, htrans s mid t hR hR', List.forall_mem_cons.2 ⟨hmono a mid t hR' hseen, hrest⟩⟩

theorem Reads.foldlM {ε σ α : Type} {d : Disk} {f : σ → α → Io ε σ} {I : σ → Prop} : ∀ {list : List α},
    (∀ a ∈ list, ∀ s, I s → ∃ t, I t ∧ Reads d (f s a) t) → ∀ s, I s → ∃ t, I t ∧ Reads d (list.foldlM f s) t
  | [], _, s, hs => ⟨s, hs, Reads.pure s⟩
  | a :: rest, h, s, hs => by
    obtain ⟨t, ht, hfirst⟩ := h a List.mem_cons_self s hs
    obtain ⟨u, hu, hrest⟩ := Reads.foldlM (fun b hb => h b (List.mem_cons_of_mem _ hb)) t ht
    exact ⟨u, hu, Reads.bind hfirst hrest⟩

namespace Ntfs

open Gpt (getLe alignForward alignmentSectors)
open Bitmap

theorem alignForward_512 (n : Nat) : alignForward n 512 % 512 = 0 ∧ n ≤ alignForward n 512 ∧ alignForward n 512 < n + 512 := by
  unfold alignForward
  omega

/-! ## The scan -/

/-- A cluster of the volume that the bitmap has free. -/
def Free (B : Bytes) (oldClusters c : Nat) : Prop := c < oldClusters ∧ bitAt B c = false

/-- The scan stands at cluster `p`: its run reaches up to there; what it found is free. -/
def ScanOk (B : Bytes) (need oldClusters p : Nat) (scan : FreeScan) : Prop :=
  match scan.found with
  | none => oldClusters ≤ p ∨ scan.count = 0 ∨
      (scan.start + scan.count = p ∧ ∀ c, scan.start ≤ c → c < p → Free B oldClusters c)
  | some lcn => ∀ c, lcn ≤ c → c < lcn + need → Free B oldClusters c

variable {B : Bytes} {need oldClusters : Nat}

theorem take_ok {scan : FreeScan} {p n : Nat} (hnone : scan.found = none) (hp : p < oldClusters)
    (hscan : ScanOk B need oldClusters p scan) (hfree : ∀ c, p ≤ c → c < p + n → Free B oldClusters c) :
    ScanOk B need oldClusters (p + n) (scan.take need p n) := by
  unfold ScanOk at hscan
  rw [hnone] at hscan
  have hrun : (if scan.count = 0 then p else scan.start) + (scan.count + n) = p + n ∧
      ∀ c, (if scan.count = 0 then p else scan.start) ≤ c → c < p + n → Free B oldClusters c := by
    by_cases h0 : scan.count = 0
    · rw [if_pos h0, h0, Nat.zero_add]
      exact ⟨rfl, hfree⟩
    · rw [if_neg h0]
      rcases hscan with h | h | ⟨hsum, hall⟩
      · omega
      · exact absurd h h0
      · refine ⟨by omega, fun c h1 h2 => ?_⟩
        by_cases hc : c < p
        · exact hall c h1 hc
        · exact hfree c (by omega) h2
  unfold ScanOk FreeScan.take
  dsimp only
  by_cases hneed : need ≤ scan.count + n
  · rw [if_pos hneed]
    exact fun c h1 h2 => hrun.2 c h1 (by omega)
  · rw [if_neg hneed]
    exact .inr (.inr hrun)

theorem scanOk_found {scan : FreeScan} {p q : Nat} (hsome : scan.found ≠ none) (h : ScanOk B need oldClusters p scan) :
    ScanOk B need oldClusters q scan := by
  unfold ScanOk at h ⊢
  split at h
  · exact absurd ‹_› hsome
  · rename_i lcn hlcn
    exact h

theorem scanOk_behind {scan : FreeScan} {p q : Nat} (hp : oldClusters ≤ p) (hq : p ≤ q) (h : ScanOk B need oldClusters p scan) :
    ScanOk B need oldClusters q scan := by
  unfold ScanOk at h ⊢
  split at h
  · exact .inl (Nat.le_trans hp hq)
  · exact h

theorem scanBits_ok {cluster : Nat} {byte : UInt8} (hbyte : ∀ k, k < 8 → bit byte k = bitAt B (cluster + k)) :
    ∀ (n b : Nat) (scan : FreeScan), b + n = 8 → scan.found = none → ScanOk B need oldClusters (cluster + b) scan →
      ScanOk B need oldClusters (cluster + 8) (scanBits need oldClusters cluster byte (List.range' b n) scan)
  | 0, b, scan, hb, _, h => by
    have : b = 8 := by omega
    subst this
    exact h
  | n + 1, b, scan, hb, hnone, h => by
    rw [List.range'_succ]
    unfold scanBits
    by_cases hin : oldClusters ≤ cluster + b
    · rw [if_pos hin]
      exact scanOk_behind hin (by omega) h
    rw [if_neg hin]
    by_cases hbit : bit byte b = true
    · rw [if_pos hbit]
      refine scanBits_ok hbyte n (b + 1) _ (by omega) hnone ?_
      unfold ScanOk
      rw [hnone]
      exact .inr (.inl rfl)
    rw [if_neg hbit]
    have hstep : ScanOk B need oldClusters (cluster + b + 1) (scan.take need (cluster + b) 1) := by
      refine take_ok hnone (Nat.not_le.1 hin) h (fun c h1 h2 => ?_)
      obtain rfl : c = cluster + b := by omega
      exact ⟨Nat.not_le.1 hin, by rw [← hbyte b (by omega)]; simpa using hbit⟩
    by_cases hsome : (scan.take need (cluster + b) 1).found.isSome = true
    · rw [if_pos hsome]
      exact scanOk_found (fun hn => by rw [hn] at hsome; cases hsome) hstep
    · rw [if_neg hsome]
      exact scanBits_ok hbyte n (b + 1) _ (by omega) (by simpa using hsome) hstep

theorem scanByte_ok {cluster : Nat} {byte : UInt8} (hbyte : ∀ k, k < 8 → bit byte k = bitAt B (cluster + k))
    {scan : FreeScan} (hin : cluster < oldClusters) (hnone : scan.found = none) (h : ScanOk B need oldClusters cluster scan) :
    ScanOk B need oldClusters (cluster + 8) (scanByte need oldClusters cluster byte scan) := by
  unfold scanByte
  split
  · rename_i hzero
    refine take_ok hnone hin h (fun c h1 h2 => ⟨by omega, ?_⟩)
    have hk := hbyte (c - cluster) (by omega)
    rw [hzero.1, bit_zero, Nat.add_sub_cancel' h1] at hk
    exact hk.symm
  · exact scanBits_ok hbyte 8 0 scan rfl hnone h

/-- **The bytes of a chunk.** -/
theorem scanBytes_ok : ∀ (bytes : Bytes) (cluster : Nat) (scan : FreeScan),
    (∀ j, j < 8 * bytes.length → bitAt bytes j = bitAt B (cluster + j)) → scan.found = none →
    ScanOk B need oldClusters cluster scan →
    ScanOk B need oldClusters (cluster + 8 * bytes.length) (scanBytes need oldClusters cluster bytes scan)
  | [], _, _, _, _, h => h
  | byte :: rest, cluster, scan, hbits, hnone, h => by
    rw [List.length_cons] at hbits ⊢
    have hbyte : ∀ k, k < 8 → bit byte k = bitAt B (cluster + k) := by
      intro k hk
      rw [← hbits k (by omega), bitAt_head byte rest hk]
    have hrest : ∀ j, j < 8 * rest.length → bitAt rest j = bitAt B (cluster + 8 + j) := by
      intro j hj
      rw [Nat.add_assoc, ← hbits (8 + j) (by omega), bitAt_tail]
    unfold scanBytes
    by_cases hin : oldClusters ≤ cluster
    · rw [if_pos hin]
      exact scanOk_behind hin (by omega) h
    rw [if_neg hin]
    have hstep := scanByte_ok hbyte (Nat.not_le.1 hin) hnone h
    by_cases hsome : (scanByte need oldClusters cluster byte scan).found.isSome = true
    · rw [if_pos hsome]
      exact scanOk_found (fun hn => by rw [hn] at hsome; cases hsome) hstep
    · rw [if_neg hsome]
      have := scanBytes_ok rest (cluster + 8) _ hrest (by simpa using hsome) hstep
      rwa [Nat.add_assoc, Nat.add_comm 8, ← Nat.mul_succ] at this

/-! ## The highest cluster in use -/

theorem clz_le (byte : UInt8) : 7 - clz byte = byte.toNat.log2 := by
  have hlt : byte.toNat < 2 ^ 8 := byte.toNat_lt
  have hlog : byte.toNat.log2 ≤ 7 := by
    by_cases h0 : byte.toNat = 0
    · rw [h0]; decide
    · have := (Nat.log2_lt h0).2 hlt
      omega
  unfold clz
  omega

/-- **The highest set bit of a chunk**, or what stood in front of it. -/
theorem highestIn_spec : ∀ (bytes : Bytes) (cluster highest : Nat), highest ≤ cluster →
    highest ≤ highestIn cluster bytes highest ∧ highestIn cluster bytes highest ≤ cluster + 8 * bytes.length ∧
      ∀ j, j < 8 * bytes.length → bitAt bytes j = true → cluster + j ≤ highestIn cluster bytes highest
  | [], cluster, highest, h => ⟨Nat.le_refl _, by simpa [highestIn] using h, fun j hj => by simp at hj⟩
  | byte :: rest, cluster, highest, h => by
    have hlog := clz_le byte
    have hclz : clz byte ≤ 7 := Nat.sub_le _ _
    unfold highestIn
    have hnext : (if byte ≠ 0 then cluster + 7 - clz byte else highest) ≤ cluster + 8 := by split <;> omega
    have hkeep : highest ≤ if byte ≠ 0 then cluster + 7 - clz byte else highest := by split <;> omega
    obtain ⟨h1, h2, h3⟩ := highestIn_spec rest (cluster + 8) _ hnext
    rw [List.length_cons]
    refine ⟨Nat.le_trans hkeep h1, by omega, fun j hj hbit => ?_⟩
    by_cases hj8 : j < 8
    · -- a bit of this byte
      rw [bitAt_head byte rest hj8] at hbit
      have hle := le_log2_of_bit hbit
      have hne : byte ≠ 0 := by
        rintro rfl
        simp at hbit
      rw [if_pos hne] at h1 ⊢
      omega
    · have hrest : bitAt rest (j - 8) = true := by
        rw [← hbit, ← bitAt_tail byte rest, Nat.add_sub_cancel' (Nat.not_lt.1 hj8)]
      have := h3 (j - 8) (by omega) hrest
      omega

/-- A cluster of a run. -/
def inRun (c : Nat) (run : Run) : Bool :=
  decide (run.lcn.getD 0 ≤ c) && decide (c < run.lcn.getD 0 + run.lengthClusters)

theorem owns_iff {map : Map} {total : Nat} (h : map.Fixed total) (c : Nat) : map.owns c = true ↔ ∃ run ∈ map.runs, inRun c run = true := by
  unfold Map.owns
  rw [List.any_eq_true]
  refine exists_congr (fun run => and_congr_right (fun hmem => ?_))
  obtain ⟨lcn, hlcn, -⟩ := h.run run hmem
  rw [inRun, hlcn]
  simp only [Option.getD_some, Bool.and_eq_true, decide_eq_true_eq]
  omega

@[simp] theorem length_clearRuns (base : Nat) : ∀ (runs : List Run) (bytes : Bytes),
    (clearRuns base runs bytes).length = bytes.length
  | [], _ => rfl
  | run :: rest, bytes => by
    show (clearRuns base rest _).length = _
    rw [length_clearRuns base rest, length_changeRange]

theorem bitAt_clearRuns {base : Nat} (hbase : base % 8 = 0) : ∀ (runs : List Run) (bytes : Bytes) {j : Nat},
    j < 8 * bytes.length →
    (bitAt (clearRuns base runs bytes) j = true ↔ bitAt bytes j = true ∧ ∀ run ∈ runs, inRun (base + j) run = false)
  | [], bytes, j, _ => by simp [clearRuns]
  | run :: rest, bytes, j, hj => by
    have h := bitAt_clearRuns hbase rest
      (changeRange bytes base (run.lcn.getD 0) (run.lcn.getD 0 + run.lengthClusters) false) (j := j)
      (by rw [length_changeRange]; exact hj)
    rw [List.forall_mem_cons]
    show bitAt (clearRuns base rest _) j = true ↔ _
    rw [h, bitAt_changeRange hbase _ _ _ hj]
    by_cases hin : run.lcn.getD 0 ≤ base + j ∧ base + j < run.lcn.getD 0 + run.lengthClusters
    · have hrun : inRun (base + j) run = true := by simpa [inRun] using hin
      simp [hin, hrun]
    · have hrun : inRun (base + j) run = false := by
        rw [← Bool.not_eq_true]
        simpa [inRun] using hin
      simp [hin, hrun]

/-- A cluster that stays where it is. -/
def Held (B : Bytes) (map : Map) (oldClusters c : Nat) : Prop := c < oldClusters ∧ bitAt B c = true ∧ map.owns c = false

/-- The highest cluster so far bounds every held one in front of `p`. -/
def HighOk (B : Bytes) (map : Map) (oldClusters p highest : Nat) : Prop :=
  highest ≤ p ∧ ∀ c, c < p → Held B map oldClusters c → c ≤ highest

section Loop

variable {plan : ResizePlan} {volume : Volume} {F : Faults} {d : Disk}

/-- The old bitmap on a disk. -/
def oldBitmap (plan : ResizePlan) (d : Disk) : Bytes := contents d plan.first plan.bitmap.runs

/-- **The loop over the old bitmap.** -/
theorem scanLoop_ok {workLen : Nat} (hvolume : volume.first = plan.first) (hmap : plan.bitmap.Fixed plan.oldClusters)
    (hwork : 0 < workLen) : ∀ (fuel done : Nat) (st st' : FreeScan × Nat) (w w' : World), w.disk = d →
      alignForward plan.bitmap.bytes 512 ≤ done + fuel →
      ScanOk (oldBitmap plan d) plan.bitmap.clusters plan.oldClusters (8 * done) st.1 →
      HighOk (oldBitmap plan d) plan.bitmap plan.oldClusters (8 * done) st.2 →
      scanLoop plan volume workLen fuel done st F w = (.ok st', w') → w'.disk = d ∧
        ∃ stop, alignForward plan.bitmap.bytes 512 ≤ stop ∧
          ScanOk (oldBitmap plan d) plan.bitmap.clusters plan.oldClusters (8 * stop) st'.1 ∧
          HighOk (oldBitmap plan d) plan.bitmap plan.oldClusters (8 * stop) st'.2
  | 0, done, st, st', w, w', hd, hfuel, hscan, hhigh, h => by
    obtain ⟨rfl, rfl⟩ := Io.pure_ok h
    exact ⟨hd, done, hfuel, hscan, hhigh⟩
  | fuel + 1, done, st, st', w, w', hd, hfuel, hscan, hhigh, h => by
    unfold scanLoop at h
    by_cases hstop : alignForward plan.bitmap.bytes 512 ≤ done
    · rw [if_pos hstop] at h
      obtain ⟨rfl, rfl⟩ := Io.pure_ok h
      exact ⟨hd, done, hstop, hscan, hhigh⟩
    rw [if_neg hstop] at h
    obtain ⟨bytes, w1, hread, h⟩ := Io.bind_ok h
    generalize hlen : min workLen (alignForward plan.bitmap.bytes 512 - done) = len at hread
    obtain ⟨hbytes, hd1, hin⟩ := Map.read_ok hread
    rw [hd, hvolume] at hbytes
    rw [hd, hvolume] at hin
    have hsize : bytes.length = len := by
      rw [hbytes]
      exact length_slice (hin (by omega))
    have hbits : ∀ j, j < 8 * bytes.length → bitAt bytes j = bitAt (oldBitmap plan d) (done * 8 + j) := by
      intro j hj
      rw [hbytes, bitAt_slice (by omega), Nat.mul_comm done]
      rfl
    have hbase : done * 8 % 8 = 0 := Nat.mul_mod_left _ _
    have hnext : 8 * (done + bytes.length) = done * 8 + 8 * bytes.length := by omega
    refine scanLoop_ok hvolume hmap hwork fuel (done + bytes.length) _ st' w1 w' (hd1.trans hd) (by omega) ?_ ?_ h
    · rw [hnext]
      dsimp only
      by_cases hnone : st.1.found = none
      · rw [if_pos hnone]
        rw [Nat.mul_comm] at hscan
        exact scanBytes_ok bytes _ st.1 hbits hnone hscan
      · rw [if_neg hnone]
        exact scanOk_found hnone hscan
    · -- what is left of the chunk is held
      rw [hnext]
      dsimp only
      obtain ⟨hle, hall⟩ := hhigh
      have hfixedLen : (changeRange (clearRuns (done * 8) plan.bitmap.runs bytes) (done * 8) plan.oldClusters
          (done * 8 + bytes.length * 8) false).length = bytes.length := by
        rw [length_changeRange, length_clearRuns]
      obtain ⟨h1, h2, h3⟩ := highestIn_spec (changeRange (clearRuns (done * 8) plan.bitmap.runs bytes) (done * 8)
        plan.oldClusters (done * 8 + bytes.length * 8) false) (done * 8) st.2 (by omega)
      rw [hfixedLen] at h2 h3
      refine ⟨h2, fun c hc hheld => ?_⟩
      by_cases hold : c < 8 * done
      · exact Nat.le_trans (hall c hold hheld) h1
      · have hj : c - done * 8 < 8 * bytes.length := by omega
        have hsum : done * 8 + (c - done * 8) = c := by omega
        have hiff := bitAt_clearRuns hbase plan.bitmap.runs bytes hj
        have hset : bitAt (changeRange (clearRuns (done * 8) plan.bitmap.runs bytes) (done * 8) plan.oldClusters
            (done * 8 + bytes.length * 8) false) (c - done * 8) = true := by
          rw [bitAt_changeRange hbase _ _ _ (by rw [length_clearRuns]; exact hj), if_neg (by have := hheld.1; omega), hiff,
            hbits _ hj, hsum]
          refine ⟨hheld.2.1, fun run hrun => ?_⟩
          rw [← Bool.not_eq_true]
          intro hown
          have := (owns_iff hmap c).2 ⟨run, hrun, hown⟩
          rw [hheld.2.2] at this
          cases this
        have := h3 _ hj hset
        omega

/-! ## Runs of other files -/

/-- What is cached is a part of the bitmap. -/
def CheckOk (B : Bytes) (self : BitmapCheck) : Prop :=
  self.cachedBytes ≠ 0 → self.scratch = slice B self.cachedAt self.cachedBytes ∧ self.scratch.length = self.cachedBytes

theorem load_ok {scratchLen byte : Nat} {self next : BitmapCheck} {w w' : World} (hvolume : volume.first = plan.first)
    (hscratch : 512 ≤ scratchLen) (hd : w.disk = d) (hself : CheckOk (oldBitmap plan d) self)
    (h : self.load plan.bitmap volume scratchLen byte F w = (.ok next, w')) :
    w'.disk = d ∧ CheckOk (oldBitmap plan d) next ∧ next.cachedBytes ≠ 0 ∧ next.cachedAt ≤ byte ∧
      byte < next.cachedAt + next.cachedBytes := by
  unfold BitmapCheck.load at h
  split at h
  · dsimp only at h
    split at h
    · obtain ⟨he, -⟩ := Io.lift_ok h
      cases he
    · rename_i hin
      have hpad := alignForward_512 plan.bitmap.bytes
      obtain ⟨scratch, w1, hread, h⟩ := Io.bind_ok h
      obtain ⟨rfl, rfl⟩ := Io.pure_ok h
      obtain ⟨hbytes, hd1, hfit⟩ := Map.read_ok hread
      rw [hd, hvolume] at hbytes hfit
      refine ⟨hd1.trans hd, fun _ => ⟨hbytes, ?_⟩, by dsimp only; omega, by dsimp only; omega, by dsimp only; omega⟩
      rw [hbytes]
      exact length_slice (hfit (by omega))
  · obtain ⟨rfl, rfl⟩ := Io.pure_ok h
    rename_i hhit
    rw [not_or, not_or] at hhit
    exact ⟨hd, hself, hhit.1, by omega, by omega⟩

/-- **A range that is checked is allocated.** -/
theorem allocated_ok {scratchLen : Nat} (hvolume : volume.first = plan.first) (hscratch : 512 ≤ scratchLen) :
    ∀ (fuel first last : Nat) (self next : BitmapCheck) (w w' : World), w.disk = d → last ≤ first + fuel →
      CheckOk (oldBitmap plan d) self →
      BitmapCheck.allocated plan.bitmap volume scratchLen fuel first last self F w = (.ok next, w') →
      w'.disk = d ∧ CheckOk (oldBitmap plan d) next ∧ ∀ c, first ≤ c → c < last → bitAt (oldBitmap plan d) c = true
  | 0, first, last, self, next, w, w', hd, hfuel, hself, h => by
    obtain ⟨rfl, rfl⟩ := Io.pure_ok h
    exact ⟨hd, hself, fun c h1 h2 => by omega⟩
  | fuel + 1, first, last, self, next, w, w', hd, hfuel, hself, h => by
    unfold BitmapCheck.allocated at h
    split at h
    · obtain ⟨rfl, rfl⟩ := Io.pure_ok h
      exact ⟨hd, hself, fun c h1 h2 => by omega⟩
    · rename_i hlt
      obtain ⟨loaded, w1, hload, h⟩ := Io.bind_ok h
      obtain ⟨hd1, hok, hne, hat, hbyte⟩ := load_ok hvolume hscratch hd hself hload
      obtain ⟨_, w2, h2, h⟩ := Io.bind_ok h
      obtain ⟨hset, rfl⟩ := Io.refuse_ok h2
      obtain ⟨hd', hnext, hrest⟩ := allocated_ok hvolume hscratch fuel _ last loaded next w1 w' hd1 (by omega) hok h
      refine ⟨hd', hnext, fun c h1 h2 => ?_⟩
      by_cases hc : c < min last ((loaded.cachedAt + loaded.cachedBytes) * 8)
      · -- the bit is in the part at hand
        obtain ⟨hscr, hlen⟩ := hok hne
        have hj : c - loaded.cachedAt * 8 < 8 * loaded.scratch.length := by omega
        have hsum : 8 * loaded.cachedAt + (c - loaded.cachedAt * 8) = c := by omega
        have hrange : expectSetRange loaded.scratch (loaded.cachedAt * 8) first
            (min last ((loaded.cachedAt + loaded.cachedBytes) * 8)) = true := by simpa using hset
        have := bitAt_of_expectSet (Nat.mul_mod_left _ _) hrange hj (by omega)
        rwa [hscr, bitAt_slice (by omega), hsum] at this
      · exact hrest c (by omega) h2

/-- A run that passes lies on the volume and is allocated. -/
def RunSeen (plan : ResizePlan) (d : Disk) (run : Run) : Prop :=
  ∀ lcn, run.lcn = some lcn → lcn + run.lengthClusters ≤ plan.oldClusters ∧
    ∀ c, lcn ≤ c → c < lcn + run.lengthClusters → bitAt (oldBitmap plan d) c = true

/-- The bound only grows, the other limits stay. -/
def Grows (s t : ShrinkLimits) : Prop :=
  s.highestFixedCluster ≤ t.highestFixedCluster ∧ s.bitmapLcn = t.bitmapLcn ∧ s.minimumSectors = t.minimumSectors

theorem Grows.refl (s : ShrinkLimits) : Grows s s := ⟨Nat.le_refl _, rfl, rfl⟩

theorem Grows.trans {s t u : ShrinkLimits} (h1 : Grows s t) (h2 : Grows t u) : Grows s u :=
  ⟨Nat.le_trans h1.1 h2.1, h1.2.1.trans h2.2.1, h1.2.2.trans h2.2.2⟩

/-- **One run.** -/
theorem inspectRun_ok {workLen : Nat} {own : Bool} {st next : Inspection} {run : Run} {w w' : World}
    (hvolume : volume.first = plan.first) (hwork : 1536 ≤ workLen) (hd : w.disk = d)
    (hst : CheckOk (oldBitmap plan d) st.checker) (h : inspectRun plan volume workLen own st run F w = (.ok next, w')) :
    w'.disk = d ∧ CheckOk (oldBitmap plan d) next.checker ∧ Grows st.limits next.limits ∧ RunSeen plan d run := by
  unfold inspectRun at h
  obtain ⟨_, w1, h1, h⟩ := Io.bind_ok h
  obtain ⟨-, rfl⟩ := Io.refuse_ok h1
  obtain ⟨_, w2, h2, h⟩ := Io.bind_ok h
  obtain ⟨-, rfl⟩ := Io.refuse_ok h2
  cases hlcn : run.lcn with
  | none =>
    rw [hlcn] at h
    obtain ⟨rfl, rfl⟩ := Io.pure_ok h
    exact ⟨hd, hst, Grows.refl _, fun lcn hsome => by rw [hlcn] at hsome; cases hsome⟩
  | some lcn =>
    rw [hlcn] at h
    obtain ⟨_, w3, h3, h⟩ := Io.bind_ok h
    obtain ⟨hin, rfl⟩ := Io.refuse_ok h3
    obtain ⟨checker, w4, h4, h⟩ := Io.bind_ok h
    obtain ⟨hd4, hchecker, hset⟩ := allocated_ok hvolume (by omega) _ _ _ _ _ _ _ hd (Nat.le_refl _) hst h4
    simp only [Bool.or_eq_false_iff, decide_eq_false_iff_not, Nat.not_le, Nat.not_lt] at hin
    have hseen : RunSeen plan d run := by
      intro lcn' hsome
      obtain rfl := Option.some.inj (hlcn.symm.trans hsome)
      exact ⟨by omega, hset⟩
    by_cases hown : own = true
    · rw [if_pos hown] at h
      obtain ⟨rfl, rfl⟩ := Io.pure_ok h
      exact ⟨hd4, hchecker, Grows.refl _, hseen⟩
    · rw [if_neg hown] at h
      obtain ⟨_, w5, h5, h⟩ := Io.bind_ok h
      obtain ⟨-, rfl⟩ := Io.refuse_ok h5
      obtain ⟨_, w6, h6, h⟩ := Io.bind_ok h
      obtain ⟨-, rfl⟩ := Io.refuse_ok h6
      obtain ⟨rfl, rfl⟩ := Io.pure_ok h
      exact ⟨hd4, hchecker, ⟨Nat.le_max_left _ _, rfl, rfl⟩, hseen⟩

/-- The runs of an attribute that is not resident. -/
def attributeRuns (attr : Attribute) : List Run := if attr.nonResident then (runlist attr.mappingPairs).1 else []

theorem inspectAttribute_ok {workLen number : Nat} {st next : Inspection} {attr : Attribute} {w w' : World}
    (hvolume : volume.first = plan.first) (hwork : 1536 ≤ workLen) (hd : w.disk = d)
    (hst : CheckOk (oldBitmap plan d) st.checker)
    (h : inspectAttribute plan volume workLen number st attr F w = (.ok next, w')) :
    w'.disk = d ∧ CheckOk (oldBitmap plan d) next.checker ∧ Grows st.limits next.limits ∧
      ∀ run ∈ attributeRuns attr, RunSeen plan d run := by
  unfold inspectAttribute at h
  unfold attributeRuns
  by_cases hres : attr.nonResident = true
  · rw [if_neg (by simp [hres])] at h
    rw [if_pos hres]
    obtain ⟨_, w1, h1, h⟩ := Io.bind_ok h
    obtain ⟨-, rfl⟩ := Io.refuse_ok h1
    obtain ⟨folded, w2, h2, h⟩ := Io.bind_ok h
    obtain ⟨_, w3, h3, h⟩ := Io.bind_ok h
    obtain ⟨-, rfl⟩ := Io.refuse_ok h3
    obtain ⟨rfl, rfl⟩ := Io.pure_ok h
    exact Io.foldlM_ok (I := fun st => CheckOk (oldBitmap plan d) st.checker) (R := fun s t => Grows s.limits t.limits)
      (P := fun run _ => RunSeen plan d run) (fun s => Grows.refl _) (fun _ _ _ => Grows.trans) (fun _ _ _ _ h => h) _
      (fun run _ s t w w' hd hs h => inspectRun_ok hvolume hwork hd hs h) _ _ _ _ hd hst h2
  · rw [if_pos (by simpa using hres)] at h
    obtain ⟨rfl, rfl⟩ := Io.pure_ok h
    rw [if_neg hres]
    exact ⟨hd, hst, Grows.refl _, nofun⟩

/-- A record of the table as the volume has it. -/
def rawRecord (plan : ResizePlan) (d : Disk) (number : Nat) : Bytes :=
  slice (contents d plan.first plan.mft.runs) (number * 1024) 1024

def inUse (raw : Bytes) : Prop := getLe raw 0x16 2 &&& recordInUse ≠ 0

/-- The attributes of a record behind its update sequence. -/
def recordAttributes (raw : Bytes) : List Attribute :=
  match applyFixups raw with
  | .ok record => attributesOf record
  | .error _ => []

/-- A record that decodes, with runs that pass. -/
def RecordSeen (plan : ResizePlan) (d : Disk) (number : Nat) : Prop :=
  inUse (rawRecord plan d number) → (∃ record, decodeRecord (rawRecord plan d number) number = .ok record) ∧
    ∀ attr ∈ recordAttributes (rawRecord plan d number), ∀ run ∈ attributeRuns attr, RunSeen plan d run

/-- **One record.** -/
theorem inspectRecord_ok {workLen number : Nat} {st next : Inspection} {w w' : World}
    (hvolume : volume.first = plan.first) (hwork : 1536 ≤ workLen) (hd : w.disk = d)
    (hst : CheckOk (oldBitmap plan d) st.checker) (h : inspectRecord plan volume workLen st number F w = (.ok next, w')) :
    w'.disk = d ∧ CheckOk (oldBitmap plan d) next.checker ∧ Grows st.limits next.limits ∧ RecordSeen plan d number := by
  unfold inspectRecord at h
  obtain ⟨raw, w1, h1, h⟩ := Io.bind_ok h
  obtain ⟨hraw, hd1, -⟩ := Map.read_ok h1
  rw [hd, hvolume] at hraw
  have hraw : raw = rawRecord plan d number := hraw
  unfold RecordSeen
  rw [← hraw]
  by_cases huse : getLe raw 0x16 2 &&& recordInUse = 0
  · rw [if_pos huse] at h
    obtain ⟨rfl, rfl⟩ := Io.pure_ok h
    exact ⟨hd1.trans hd, hst, Grows.refl _, fun hin => absurd huse hin⟩
  · rw [if_neg huse] at h
    obtain ⟨record, w2, h2, h⟩ := Io.bind_ok h
    obtain ⟨hdecode, rfl⟩ := Io.lift_ok h2
    obtain ⟨hd', hnext, hgrows, hseen⟩ := Io.foldlM_ok (I := fun st => CheckOk (oldBitmap plan d) st.checker)
      (R := fun s t => Grows s.limits t.limits) (P := fun attr _ => ∀ run ∈ attributeRuns attr, RunSeen plan d run)
      (fun s => Grows.refl _) (fun _ _ _ => Grows.trans) (fun _ _ _ _ h => h) _
      (fun attr _ s t w w' hd hs h => inspectAttribute_ok hvolume hwork hd hs h) _ _ _ _ (hd1.trans hd) hst h
    refine ⟨hd', hnext, hgrows, fun _ => ⟨⟨record, hdecode⟩, ?_⟩⟩
    rw [recordAttributes, (decodeRecord_ok hdecode).1]
    exact hseen

/-- **All records.** -/
theorem inspectFixedRuns_ok {workLen : Nat} {limits next : ShrinkLimits} {w w' : World}
    (hvolume : volume.first = plan.first) (hwork : 1536 ≤ workLen) (hd : w.disk = d)
    (h : inspectFixedRuns plan volume workLen limits F w = (.ok next, w')) :
    w'.disk = d ∧ Grows limits next ∧ ∀ number, number < plan.mft.bytes / 1024 → RecordSeen plan d number := by
  unfold inspectFixedRuns at h
  obtain ⟨_, w1, h1, h⟩ := Io.bind_ok h
  obtain ⟨-, rfl⟩ := Io.refuse_ok h1
  obtain ⟨st, w2, h2, h⟩ := Io.bind_ok h
  obtain ⟨rfl, rfl⟩ := Io.pure_ok h
  obtain ⟨hd', -, hgrows, hseen⟩ := Io.foldlM_ok (I := fun st => CheckOk (oldBitmap plan d) st.checker)
    (R := fun s t => Grows s.limits t.limits) (P := fun number _ => RecordSeen plan d number) (fun s => Grows.refl _)
    (fun _ _ _ => Grows.trans) (fun _ _ _ _ h => h) _
    (fun number _ s t w w' hd hs h => inspectRecord_ok hvolume hwork hd hs h) _ _ _ _ hd (fun hne => absurd rfl hne) h2
  exact ⟨hd', hgrows, fun number hlt => hseen number (List.mem_range.2 hlt)⟩

end Loop

end Ntfs
end R4
