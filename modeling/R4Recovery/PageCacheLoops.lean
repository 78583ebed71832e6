import R4Recovery.PageCacheSections
/-!
# PageCacheLoops — every loop head of the page cache, short of marking a sector, is quiet

Reading, draining, reclaiming and invalidating, each up to its next lock release.  A drain that reaches its barrier has
seen the device's dirty queue empty and no dirty slot pinned, so no dirty sector that it is after is left.
-/
namespace R4
namespace PageCache

open PageIndex LinkedQueue
open PageIndex.Index (Wf isHeld isBusy isDirty isClean isFree Shifts)

variable {α : Type}

/-- The loop that marks sectors dirty. -/
def Loop.marks : Loop α → Prop
  | .writeSector .. => True
  | _ => False

namespace Cache

theorem pageLba_aligned (lba : Nat) : pageLba lba % 8 = 0 := by
  unfold pageLba pageSectors
  omega

theorem pageLba_sectorOf (lba : Nat) : pageLba lba + (sectorOf lba).val = lba := by
  unfold pageLba sectorOf pageSectors
  dsimp only
  omega

/-! ## Reads -/

theorem readOne_quietly {c : Cache α} (h : c.Sound) (env : Env α) (d lba guard : Nat) :
    Quietly none c (c.readOne env d lba guard) := by
  obtain ⟨h1, h2⟩ := findOrCreate_spec h env (pageLba_aligned lba) (d := d)
  unfold readOne
  rcases hfc : c.findOrCreate env d (pageLba lba) with ⟨c1, r⟩
  rw [hfc] at h1 h2
  cases r with
  | none => exact (starved_quietly h1.sound env guard (fun _ => rfl)).then h1
  | some i =>
    obtain ⟨hi, hv, hd, hp, _⟩ := h2 i rfl
    dsimp only at h1 hv hd hp ⊢
    split
    · split
      · exact Quietly.idleTask h1
      · exact Quietly.again h1 rfl
    · rename_i hb
      split
      · rename_i hs
        cases hf : (c1.entries i).payload with
        | none => exact Quietly.idleTask h1
        | some f =>
          refine Quietly.then ⟨noteDemandHit_calm h1.sound hi, (fun j hj => by cases hj), .inl rfl, trivial,
            fun e he => ?_⟩ h1
          cases List.mem_singleton.1 he
          refine ⟨i, hi, ?_⟩
          rw [noteDemandHit_entries]
          refine ⟨hv, hd, sectorOf lba, ?_, hs, ?_⟩
          · rw [hp]
            exact pageLba_sectorOf lba
          · simp [Entry.at, hf]
      · have hat : ReaderAt (α := α) d (pageLba lba) (.readSector d lba guard) := trivial
        exact (proceed_quietly h1.sound hi hv hd hp hat (fillWithBackendPolicy_quietly h1.sound env hi hv
          (by simpa using hb) hd hp hat)).then h1

theorem readPages_quietly {c : Cache α} (h : c.Sound) (env : Env α) (d lba count done guard : Nat)
    (buffer : Option Nat) (unavailable : Bool) :
    Quietly none c (c.readPages env d lba count done guard buffer unavailable) := by
  obtain ⟨h1, h2⟩ := findOrCreate_spec h env (pageLba_aligned (lba + done)) (d := d)
  unfold readPages
  split
  · exact Quietly.idleTask (Effect.refl h)
  · dsimp only
    rcases hfc : c.findOrCreate env d (pageLba (lba + done)) with ⟨c1, r⟩
    rw [hfc] at h1 h2
    cases r with
    | none => exact (starved_quietly h1.sound env guard (fun _ => rfl)).then h1
    | some i =>
      obtain ⟨hi, hv, hd, hp, _⟩ := h2 i rfl
      dsimp only at h1 hv hd hp ⊢
      split
      · split
        · exact Quietly.idleTask h1
        · exact Quietly.again h1 rfl
      · rename_i hb
        have hb : (c1.entries i).ioBusy = false := by simpa using hb
        have hat : ReaderAt (α := α) d (pageLba (lba + done)) (.readSectors d lba count done guard buffer unavailable) :=
          ⟨rfl, rfl⟩
        have single := (proceed_quietly h1.sound hi hv hd hp hat
          (fillWithBackendPolicy_quietly h1.sound env hi hv hb hd hp hat)).then h1
        split
        · exact (serve_quietly h1.sound hi hv hd hp buffer unavailable).then h1
        · split
          · split
            · have hf := (h1.sound.findEntry_eq d (pageLba (lba + done)) i).2 ⟨hi, hv, hd, hp⟩
              exact (beginFillRun_quietly h1.sound env (pageLba_aligned _) hf _ _ hat).then h1
            · exact single
          · split
            · exact Quietly.again h1 rfl
            · exact single

/-! ## Drains -/

theorem drainDevice_quietly {c : Cache α} (h : c.Sound) (env : Env α) (d since : Nat) :
    Quietly (some (d, none, since)) c (c.drainDevice env d since) := by
  unfold drainDevice
  split
  · rename_i h0
    refine Quietly.plain (Effect.refl h) rfl (.inr rfl) (fun i hi hv hd s hs => ?_)
    -- the device's counter says that none of its slots is dirty
    have hlt := h.device_lt hi hv
    rw [hd] at hlt
    rw [dirtyEntriesForDevice, if_pos hlt] at h0
    have hf := h.tags i hi
    have hx := h.index.dirty_zero hlt h0 hi ((hf.device hv).trans hd)
    rw [hf.dirty.1 (Finset.ne_empty_of_mem hs)] at hx
    cases hx
  · split
    · exact startWriteback_quietly h env _ none _ none (.flushDevice d since)
    · split
      · exact Quietly.loop (Effect.refl h) (.flushDevice d since)
      · exact Quietly.idleTask (Effect.refl h)

theorem foldl_none {β γ : Type} {f : Option γ → β → Option γ} {p : β → Prop}
    (h : ∀ b x, f b x = none → b = none ∧ ¬ p x) : ∀ (l : List β) (b : Option γ), l.foldl f b = none →
      b = none ∧ ∀ x ∈ l, ¬ p x
  | [], b, hb => ⟨hb, fun x hx => by cases hx⟩
  | y :: l, b, hb => by
    obtain ⟨h1, h2⟩ := foldl_none h l (f b y) hb
    obtain ⟨h3, h4⟩ := h b y h1
    refine ⟨h3, fun x hx => ?_⟩
    rcases List.mem_cons.1 hx with rfl | hx
    · exact h4
    · exact h2 x hx

theorem oldestSequenceForOwner_none {e : Entry α} {owner : Nat} (h : oldestSequenceForOwner e owner = none) :
    ∀ s ∈ e.dirtyMask, e.dirtyOwner s ≠ owner := by
  have := (foldl_none (p := fun s => s ∈ e.dirtyMask ∧ e.dirtyOwner s = owner) (fun b s hb => ?_) _ none h).2
  · exact fun s hs ho => this s (List.mem_finRange s) ⟨hs, ho⟩
  · by_cases hs : s ∈ e.dirtyMask ∧ e.dirtyOwner s = owner
    · rw [if_pos hs] at hb
      cases b with
      | none => cases hb
      | some o =>
        dsimp only at hb
        split at hb <;> cases hb
    · rw [if_neg hs] at hb
      exact ⟨hb, hs⟩

theorem findOldestDirtyForDeviceBatch_none {c : Cache α} (h : c.Sound) {d batch : Nat} (hd : d < maxDevices)
    (hn : c.findOldestDirtyForDeviceBatch d batch = none) {i : Nat} (hi : i < maxEntries)
    (ht : c.index.tag i = ⟨d, .dirty⟩) : ∀ s ∈ (c.entries i).dirtyMask, (c.entries i).dirtyOwner s ≠ batch := by
  have hmem : i ∈ c.dirtyQueue d := (h.index.mem_dirtyWalk hd i).2 ⟨hi, ht⟩
  refine oldestSequenceForOwner_none ?_
  have hfold := Option.map_eq_none_iff.1 hn
  have := (foldl_none (p := fun j => oldestSequenceForOwner (c.entries j) batch ≠ none) (fun b j hb => ?_) _ none
    hfold).2 i hmem
  · simpa using this
  · cases hj : oldestSequenceForOwner (c.entries j) batch with
    | none =>
      rw [hj] at hb
      exact ⟨hb, by simp⟩
    | some seq =>
      rw [hj] at hb
      cases b with
      | none => cases hb
      | some b =>
        dsimp only at hb
        split at hb <;> cases hb

theorem dirtySectorsForDeviceBatch_zero {c : Cache α} (h : c.Sound) {d batch : Nat} (hd : d < maxDevices)
    (hn : c.dirtySectorsForDeviceBatch d batch = 0) {i : Nat} (hi : i < maxEntries)
    (ht : c.index.tag i = ⟨d, .dirty⟩) : ∀ s ∈ (c.entries i).dirtyMask, (c.entries i).dirtyOwner s ≠ batch := by
  have hmem : i ∈ c.dirtyQueue d := (h.index.mem_dirtyWalk hd i).2 ⟨hi, ht⟩
  have h0 := List.sum_eq_zero_iff.1 hn _ (List.mem_map.2 ⟨i, hmem, rfl⟩)
  intro s hs ho
  have : s ∈ maskForOwner (c.entries i) batch := Finset.mem_filter.2 ⟨hs, ho⟩
  rw [Finset.card_eq_zero.1 h0] at this
  exact absurd this (Finset.notMem_empty s)

/-- **What a batch drain has seen at its barrier**: the dirty queue holds nothing of the batch and no dirty slot is
pinned. -/
theorem Ready.batchBarrier {c : Cache α} (h : c.Sound) {d batch since : Nat}
    (hbusy : ¬ (d < maxDevices ∧ (c.index.devices d).busyDirty ≠ 0))
    (hq : d < maxDevices → ∀ i < maxEntries, c.index.tag i = ⟨d, .dirty⟩ →
      ∀ s ∈ (c.entries i).dirtyMask, (c.entries i).dirtyOwner s ≠ batch) :
    Ready c (.barrier (α := α) d (some batch) since) := by
  intro i hi hv hd s hs
  have hlt := h.device_lt hi hv
  rw [hd] at hlt
  have hb0 : (c.index.devices d).busyDirty = 0 := by
    by_contra hne
    exact hbusy ⟨hlt, hne⟩
  have hf := h.tags i hi
  have hdev := (hf.device hv).trans hd
  have hnb := h.index.busyDirty_zero hlt hb0 hi hdev
  have hdirty := hf.dirty.1 (Finset.ne_empty_of_mem hs)
  refine ⟨batch, rfl, hq hlt i hi ?_ s hs⟩
  rw [← hdev]
  refine Index.tag_eq ?_
  simp only [isDirty, decide_eq_true_eq] at hdirty
  exact hdirty.resolve_right hnb

theorem drainDeviceBatch_quietly {c : Cache α} (h : c.Sound) (env : Env α) (d batch since : Nat) (draining : Bool) :
    Quietly (some (d, some batch, since)) c (c.drainDeviceBatch env d batch since draining) := by
  unfold drainDeviceBatch
  split
  · split
    · exact startWriteback_quietly h env _ (some batch) _ none (.flushBatch d batch since true)
    · rename_i hn
      split
      · exact Quietly.loop (Effect.refl h) (.flushBatch d batch since true)
      · rename_i hb
        exact Quietly.plain (Effect.refl h) rfl (.inr rfl) (Ready.batchBarrier h hb (fun hd i hi ht =>
          findOldestDirtyForDeviceBatch_none h hd hn hi ht))
  · split
    · exact Quietly.idleTask (Effect.refl h)
    · split
      · exact Quietly.loop (Effect.refl h) (.flushBatch d batch since false)
      · rename_i hb
        split
        · rename_i hn
          exact Quietly.plain (Effect.refl h) rfl (.inr rfl) (Ready.batchBarrier h (fun hx => hb hx.2)
            (fun hd i hi ht => dirtySectorsForDeviceBatch_zero h hd hn hi ht))
        · exact Quietly.loop (Effect.refl h) (.flushBatch d batch since true)

theorem drainAll_quietly {c : Cache α} (h : c.Sound) (env : Env α) : Quietly none c (c.drainAll env) := by
  have h1 := findOldestDirty_calm h
  unfold drainAll
  split
  · exact Quietly.idleTask (Effect.refl h)
  · rcases hf : c.findOldestDirty with ⟨c1, r⟩
    rw [hf] at h1
    cases r with
    | some i => exact (startWriteback_quietly h1.sound env i none _ none .flushAll).then h1
    | none =>
      dsimp only
      split
      · exact Quietly.loop h1 .flushAll
      · exact Quietly.idleTask h1

/-! ## Invalidation and reclaim -/

theorem forget_calm {c : Cache α} (h : c.Sound) {i : Nat} (hi : i < maxEntries) (hv : (c.entries i).valid = true)
    (hb : (c.entries i).ioBusy = false) {m : Mask} (hm : Disjoint m (c.entries i).dirtyMask) :
    Calm c (if ((c.setValidMask i ((c.entries i).validMask \ m)).entries i).validMask = ∅
      then (c.setValidMask i ((c.entries i).validMask \ m)).clearEntry i
      else c.setValidMask i ((c.entries i).validMask \ m)) := by
  have h1 : Calm c (c.setValidMask i ((c.entries i).validMask \ m)) :=
    forget_effect h hi hv hm (fun hx => by rw [hb] at hx; cases hx)
  have he : (c.setValidMask i ((c.entries i).validMask \ m)).entries i
      = { c.entries i with validMask := (c.entries i).validMask \ m } := Function.update_self ..
  split
  · rename_i h0
    have hd : ((c.setValidMask i ((c.entries i).validMask \ m)).entries i).dirtyMask = ∅ := by
      have := (h1.sound.tags i hi).subset
      rw [h0] at this
      exact Finset.subset_empty.1 this
    exact h1.trans (clearEntry_calm h1.sound hi (by rw [he]; exact hv) (by rw [he]; exact hb) hd)
  · exact h1

theorem scanRange_calm (d first count : Nat) : ∀ (l : List Nat) (c : Cache α), c.Sound → (∀ i ∈ l, i < maxEntries) →
    Calm c (scanRange d first count l c).1
  | [], c, h, _ => Effect.refl h
  | i :: rest, c, h, hl => by
    have hrest : ∀ j ∈ rest, j < maxEntries := fun j hj => hl j (List.mem_cons_of_mem _ hj)
    unfold scanRange
    dsimp only
    split
    · exact scanRange_calm d first count rest c h hrest
    · rename_i hgo
      push Not at hgo
      split
      · exact Effect.refl h
      · rename_i hb
        split
        · exact Effect.refl h
        · rename_i hd
          have h1 := forget_calm h (hl i (by simp)) (by simpa using hgo.1) (by simpa using hb)
            (m := rangeMask (c.entries i).page first count) (by
              rw [Finset.disjoint_iff_inter_eq_empty, Finset.inter_comm]
              simpa using hd)
          exact h1.trans (scanRange_calm d first count rest _ h1.sound hrest)

theorem flushRange_quietly {c : Cache α} (h : c.Sound) (env : Env α) (d first count : Nat) :
    Quietly none c (c.flushRange env d first count) := by
  have h1 := scanRange_calm d first count (List.range maxEntries) c h (fun i hi => List.mem_range.1 hi)
  unfold flushRange
  rcases hs : scanRange d first count (List.range maxEntries) c with ⟨c1, r⟩
  rw [hs] at h1
  cases r with
  | finished => exact Quietly.plain h1 rfl (.inr rfl) trivial
  | busy => exact Quietly.again h1 rfl
  | dirty i m => exact (startWriteback_quietly h1.sound env i none m none (.flushRange d first count)).then h1

theorem clearVictim_calm {c : Cache α} (h : c.Sound) {preferred : Option Nat} {i : Nat}
    (hv : (c.index.cleanVictim preferred).2 = some i) :
    Calm c ((c.setIndex (c.index.cleanVictim preferred).1).clearEntry i) := by
  have h1 := cleanVictim_calm h preferred
  obtain ⟨hi, hq⟩ := h.index.cleanVictim_some hv
  have hf := h.tags i hi
  have ht := Index.tag_eq hq
  have hval : (c.entries i).valid = true := by rw [hf.held, ht]; rfl
  have hb : (c.entries i).ioBusy = false := by rw [hf.busy, ht]; rfl
  have hd : (c.entries i).dirtyMask = ∅ := by
    by_contra hne
    have := hf.dirty.1 hne
    rw [ht] at this
    cases this
  exact h1.trans (clearEntry_calm h1.sound hi hval hb hd)

theorem reclaim_quietly {c : Cache α} (h : c.Sound) (env : Env α) (target returned : Nat) (allowDirty : Bool)
    (drains : Option Nat) : Quietly none c (c.reclaim env target returned allowDirty drains) := by
  have h1 := cleanVictim_calm h none
  unfold reclaim
  split
  · exact Quietly.idleTask (Effect.refl h)
  · dsimp only
    cases hv : (c.index.cleanVictim none).2 with
    | some slot => exact Quietly.again (clearVictim_calm h hv) rfl
    | none =>
      dsimp only
      split
      · exact Quietly.idleTask h1
      · exact (writebackOldestDirty_quietly h1.sound env
          (.reclaim target returned allowDirty (some c.reclaimDirtyDrains))).then h1

theorem trimCapacityOne_quietly {c : Cache α} (h : c.Sound) (env : Env α) : Quietly none c (c.trimCapacityOne env) := by
  unfold trimCapacityOne
  split
  · exact Quietly.idleTask (Effect.refl h)
  · dsimp only
    cases hv : (c.index.cleanVictim none).2 with
    | some slot => exact Quietly.idleTask (clearVictim_calm h hv)
    | none => exact Quietly.idleTask (cleanVictim_calm h none)

theorem invalidateOne_quietly {c : Cache α} (h : c.Sound) (env : Env α) (d lba : Nat) :
    Quietly none c (c.invalidateOne env d lba) := by
  unfold invalidateOne
  cases hf : c.findEntry d (pageLba lba) with
  | none => exact Quietly.idleTask (Effect.refl h)
  | some i =>
    obtain ⟨hi, hv, _, _⟩ := (h.findEntry_eq d (pageLba lba) i).1 hf
    dsimp only
    split
    · exact Quietly.again (Effect.refl h) rfl
    · rename_i hb
      split
      · exact startWriteback_quietly h env i none _ none (.invalidateSector d lba)
      · rename_i hs
        exact Quietly.idleTask (forget_calm h hi hv (by simpa using hb) (Finset.disjoint_singleton_left.2 hs))

theorem invalidateNext_quietly {c : Cache α} (h : c.Sound) (env : Env α) (d : Nat) :
    Quietly none c (c.invalidateNext env d) := by
  unfold invalidateNext
  split
  · exact Quietly.idleTask (Effect.refl h)
  · rename_i i hf
    have hi := List.mem_range.1 (List.mem_of_find?_eq_some hf)
    have hp := List.find?_some hf
    simp only [Bool.and_eq_true, beq_iff_eq] at hp
    split
    · exact Quietly.again (Effect.refl h) rfl
    · rename_i hb
      split
      · exact startWriteback_quietly h env i none _ none (.invalidateDevice d)
      · rename_i hd
        exact Quietly.again (clearEntry_calm h hi hp.1 (by simpa using hb) (by simpa using hd)) rfl

/-! ## Background work -/

theorem selectBackgroundDirty_calm (env : Env α) (pressed : Bool) : ∀ (fuel : Nat) (visited : List Nat) (c : Cache α),
    c.Sound → Calm c (selectBackgroundDirty env pressed fuel visited c).1
  | 0, _, c, h => Effect.refl h
  | fuel + 1, visited, c, h => by
    have h1 : Calm c (c.setIndex (c.index.nextDirtyDevice false).1) :=
      setIndex_same h (h.index.nextDirtyDevice false) (Index.tag_nextDirtyDevice _ _)
    unfold selectBackgroundDirty
    dsimp only
    split
    · exact h1
    · rename_i d _
      have again := h1.trans (selectBackgroundDirty_calm env pressed fuel (d :: visited) _ h1.sound)
      split
      · exact h1
      · split
        · exact again
        · split
          · exact again
          · split
            · exact h1
            · exact again

theorem backgroundWritebackOne_quietly {c : Cache α} (h : c.Sound) (env : Env α) :
    Quietly none c (c.backgroundWritebackOne env) := by
  have h1 := selectBackgroundDirty_calm env (decide (c.capacity env < c.index.entryCount)) maxDevices [] c h
  unfold backgroundWritebackOne
  rcases hs : selectBackgroundDirty env (decide (c.capacity env < c.index.entryCount)) maxDevices [] c with ⟨c1, r⟩
  rw [hs] at h1
  cases r with
  | none => exact Quietly.idleTask h1
  | some p => exact (startWriteback_quietly h1.sound env p.1 none _ none (.backgroundWrote p.2)).then h1

/-- **Every loop head but a cached write is quiet.** -/
theorem runLoop_quietly {c : Cache α} (h : c.Sound) (env : Env α) {k : Loop α} (hk : ¬ Loop.marks k) :
    Quietly k.flush c (c.runLoop env k) := by
  cases k with
  | idle => exact Quietly.idleTask (Effect.refl h)
  | readSector d lba guard => exact readOne_quietly h env d lba guard
  | readSectors d lba count done guard buffer unavailable =>
    exact readPages_quietly h env d lba count done guard buffer unavailable
  | writeSector d lba v batch guard => exact absurd trivial hk
  | flushDevice d since => exact drainDevice_quietly h env d since
  | flushBatch d batch since draining => exact drainDeviceBatch_quietly h env d batch since draining
  | flushAll => exact drainAll_quietly h env
  | flushRangeStart d first count =>
    simp only [runLoop]
    split
    · exact Quietly.idleTask (Effect.refl h)
    · split
      · exact Quietly.idleTask (Effect.refl h)
      · exact Quietly.loop (Effect.refl h) (.flushRange d first count)
  | flushRange d first count => exact flushRange_quietly h env d first count
  | reclaim target returned allowDirty drains => exact reclaim_quietly h env target returned allowDirty drains
  | invalidateSector d lba => exact invalidateOne_quietly h env d lba
  | invalidateDevice d => exact invalidateNext_quietly h env d
  | background => exact backgroundWritebackOne_quietly h env
  | backgroundWrote d =>
    refine Quietly.idleTask ?_
    exact counters_calm h rfl rfl rfl rfl rfl rfl rfl
  | trimCapacity => exact trimCapacityOne_quietly h env
  | beginWriteBatch =>
    refine Quietly.idleTask ?_
    exact counters_calm h rfl rfl rfl rfl rfl rfl rfl

end Cache
end PageCache
end R4
