import R4Recovery.PageCacheSound
/-!
# PageCacheEffect — what a locked section may do to the cached data

A section of the page cache leaves pinned slots to their owners and gives up clean data only: no frame content changes
under a valid sector and no dirty sector leaves the cache, except where the section overwrites it (`Effect`).
-/
namespace R4
namespace PageCache

open PageIndex LinkedQueue
open PageIndex.Index (Wf isHeld isBusy isDirty isClean isFree Shifts)

variable {α : Type}

/-- The data of one sector of the slot's frame. -/
def Entry.at (e : Entry α) (s : Fin 8) : Option α := e.payload.map (fun f => f s)

namespace Cache

/-- **What a section may do**: `P` are the pins its task holds, `K` the sectors it overwrites. -/
structure Effect (P : Nat → Prop) (K : Nat → Nat → Prop) (c c' : Cache α) : Prop where
  sound : c'.Sound
  kept : ∀ i < maxEntries, (c'.entries i).valid = true → ∀ s ∈ (c'.entries i).validMask,
    (c.entries i).valid = true ∧ (c'.entries i).device = (c.entries i).device ∧
      (c'.entries i).page = (c.entries i).page ∧ s ∈ (c.entries i).validMask ∧
      (c'.entries i).at s = (c.entries i).at s ∧ (s ∈ (c'.entries i).dirtyMask ↔ s ∈ (c.entries i).dirtyMask) ∧
      (c'.entries i).dirtyOwner s = (c.entries i).dirtyOwner s
  dirty : ∀ i < maxEntries, (c.entries i).valid = true → ∀ s ∈ (c.entries i).dirtyMask,
    ¬ K (c.entries i).device ((c.entries i).page + s) →
      (c'.entries i).valid = true ∧ (c'.entries i).device = (c.entries i).device ∧
        (c'.entries i).page = (c.entries i).page ∧ s ∈ (c'.entries i).dirtyMask
  gone : ∀ i < maxEntries, (c'.entries i).valid = true → ∀ s ∈ (c'.entries i).validMask,
    ¬ K (c'.entries i).device ((c'.entries i).page + s)
  pinned : ∀ i < maxEntries, (c.entries i).ioBusy = true → ¬ P i → c'.entries i = c.entries i

/-- A section that holds no pins of its own and overwrites nothing. -/
abbrev Calm (c c' : Cache α) : Prop := Effect (fun _ => False) (fun _ _ => False) c c'

theorem Effect.refl {c : Cache α} (h : c.Sound) : Calm c c where
  sound := h
  kept := fun _ _ hv _ hs => ⟨hv, rfl, rfl, hs, rfl, Iff.rfl, rfl⟩
  dirty := fun _ _ hv _ hs _ => ⟨hv, rfl, rfl, hs⟩
  gone := fun _ _ _ _ _ => id
  pinned := fun _ _ _ _ => rfl

theorem Effect.trans {c c1 c2 : Cache α} {P1 P2 : Nat → Prop} {K1 K2 : Nat → Nat → Prop} (h1 : Effect P1 K1 c c1)
    (h2 : Effect P2 K2 c1 c2) : Effect (fun i => P1 i ∨ P2 i) (fun d l => K1 d l ∨ K2 d l) c c2 where
  sound := h2.sound
  kept := fun i hi hv s hs => by
    obtain ⟨a1, a2, a3, a4, a5, a6, a7⟩ := h2.kept i hi hv s hs
    obtain ⟨b1, b2, b3, b4, b5, b6, b7⟩ := h1.kept i hi a1 s a4
    exact ⟨b1, a2.trans b2, a3.trans b3, b4, a5.trans b5, a6.trans b6, a7.trans b7⟩
  dirty := fun i hi hv s hs hk => by
    obtain ⟨b1, b2, b3, b4⟩ := h1.dirty i hi hv s hs (fun h => hk (.inl h))
    obtain ⟨a1, a2, a3, a4⟩ := h2.dirty i hi b1 s b4 (fun h => hk (.inr (by rwa [b2, b3] at h)))
    exact ⟨a1, a2.trans b2, a3.trans b3, a4⟩
  gone := fun i hi hv s hs hk => by
    obtain ⟨a1, a2, a3, a4, _⟩ := h2.kept i hi hv s hs
    rcases hk with hk | hk
    · exact h1.gone i hi a1 s a4 (by rwa [a2, a3] at hk)
    · exact h2.gone i hi hv s hs hk
  pinned := fun i hi hb hp => by
    have h := h1.pinned i hi hb (fun h => hp (.inl h))
    rw [h2.pinned i hi (by rw [h]; exact hb) (fun h => hp (.inr h)), h]

theorem Effect.mono {c c' : Cache α} {P P' : Nat → Prop} {K K' : Nat → Nat → Prop} (h : Effect P K c c')
    (hP : ∀ i, P i → P' i) (hK : ∀ d l, K d l ↔ K' d l) : Effect P' K' c c' where
  sound := h.sound
  kept := h.kept
  dirty := fun i hi hv s hs hk => h.dirty i hi hv s hs (fun hx => hk ((hK _ _).1 hx))
  gone := fun i hi hv s hs hk => h.gone i hi hv s hs ((hK _ _).2 hk)
  pinned := fun i hi hb hp => h.pinned i hi hb (fun hx => hp (hP i hx))

theorem Calm.trans {c c1 c2 : Cache α} (h1 : Calm c c1) (h2 : Calm c1 c2) : Calm c c2 :=
  (Effect.trans h1 h2).mono (by simp) (by simp)

theorem Calm.then {c c1 c2 : Cache α} {P : Nat → Prop} {K : Nat → Nat → Prop} (h1 : Calm c c1)
    (h2 : Effect P K c1 c2) : Effect P K c c2 :=
  (Effect.trans h1 h2).mono (by simp) (by simp)

theorem Effect.one {c c' : Cache α} {P : Nat → Prop} {K : Nat → Nat → Prop} {i : Nat} {e : Entry α}
    (hs : c'.Sound) (he : c'.entries = Function.update c.entries i e)
    (hk : e.valid = true → ∀ s ∈ e.validMask, (c.entries i).valid = true ∧ e.device = (c.entries i).device ∧
      e.page = (c.entries i).page ∧ s ∈ (c.entries i).validMask ∧ e.at s = (c.entries i).at s ∧
      (s ∈ e.dirtyMask ↔ s ∈ (c.entries i).dirtyMask) ∧ e.dirtyOwner s = (c.entries i).dirtyOwner s)
    (hd : (c.entries i).valid = true → ∀ s ∈ (c.entries i).dirtyMask,
      ¬ K (c.entries i).device ((c.entries i).page + s) → e.valid = true ∧ e.device = (c.entries i).device ∧
        e.page = (c.entries i).page ∧ s ∈ e.dirtyMask)
    (hg : ∀ j < maxEntries, (c'.entries j).valid = true → ∀ s ∈ (c'.entries j).validMask,
      ¬ K (c'.entries j).device ((c'.entries j).page + s))
    (hp : (c.entries i).ioBusy = true → P i) : Effect P K c c' where
  sound := hs
  kept := fun j hj hv s hs => by
    rw [he] at hv hs ⊢
    by_cases hji : j = i
    · subst hji
      rw [Function.update_self] at hv hs ⊢
      exact hk hv s hs
    · rw [Function.update_of_ne hji] at hv hs ⊢
      exact ⟨hv, rfl, rfl, hs, rfl, Iff.rfl, rfl⟩
  dirty := fun j hj hv s hs hK => by
    rw [he]
    by_cases hji : j = i
    · subst hji
      rw [Function.update_self]
      exact hd hv s hs hK
    · rw [Function.update_of_ne hji]
      exact ⟨hv, rfl, rfl, hs⟩
  gone := hg
  pinned := fun j _ hb hP => by
    rw [he]
    by_cases hji : j = i
    · subst hji
      exact absurd (hp hb) hP
    · rw [Function.update_of_ne hji]

theorem Calm.of_entries {c c' : Cache α} (hs : c'.Sound) (he : c'.entries = c.entries) : Calm c c' where
  sound := hs
  kept := fun _ _ hv _ hs => by
    rw [he] at hv hs ⊢
    exact ⟨hv, rfl, rfl, hs, rfl, Iff.rfl, rfl⟩
  dirty := fun _ _ hv _ hs _ => by
    rw [he]
    exact ⟨hv, rfl, rfl, hs⟩
  gone := fun _ _ _ _ _ => id
  pinned := fun _ _ _ _ => by rw [he]

/-! ## Pins -/

theorem setIndex_same {c : Cache α} (h : c.Sound) {x : Index} (hx : x.Wf) (ht : x.tag = c.index.tag) :
    Calm c (c.setIndex x) :=
  Calm.of_entries (h.of_same rfl rfl rfl hx ht rfl rfl rfl) rfl

theorem noteDemandHit_calm {c : Cache α} (h : c.Sound) {i : Nat} (hi : i < maxEntries) : Calm c (c.noteDemandHit i) := by
  unfold noteDemandHit
  split
  · refine setIndex_same h (h.index.touchClean i) ?_
    by_cases hq : (c.index.tag i).queue = .clean
    · rcases Index.touchClean_moved hi (Index.tag_eq hq) with he | hm
      · rw [he]
      · rw [hm.tag, ← Index.tag_eq hq, Function.update_eq_self]
    · rw [Index.touchClean, if_pos (.inr hq)]
  · exact Effect.refl h

/-- **Pinning an idle slot.** -/
theorem pinEntry_calm {c : Cache α} (h : c.Sound) {i : Nat} (hi : i < maxEntries) (hv : (c.entries i).valid = true)
    (hb : (c.entries i).ioBusy = false) : (c.index.pin i).2 = true ∧ Calm c (c.pinEntry i) := by
  have ht := h.tag_eq hi hv
  have hf := h.tags i hi
  have key : (c.index.pin i).2 = true ∧
      (c.index.pin i).1.tag = Function.update c.index.tag i (tagOf { c.entries i with ioBusy := true }) := by
    by_cases hd : (c.entries i).dirtyMask = ∅
    · have ht' : c.index.tag i = ⟨(c.entries i).device, .clean⟩ := by rw [ht]; simp [tagOf, hb, hd]
      obtain ⟨h1, h2⟩ := Index.pin_clean hi ht'
      exact ⟨h1, by rw [h2.tag]; simp [tagOf, hd]⟩
    · have ht' : c.index.tag i = ⟨(c.entries i).device, .dirty⟩ := by rw [ht]; simp [tagOf, hb, hd]
      obtain ⟨h1, h2⟩ := Index.pin_dirty hi ht'
      exact ⟨h1, by rw [h2.tag]; simp [tagOf, hd]⟩
  have hs : (c.pinEntry i).Sound :=
    h.modify hi rfl rfl rfl hv hv rfl rfl (h.index.pin i) key.2 hf.subset (hf.payload hv)
      (TotalsShift.same rfl (.inl rfl) rfl rfl rfl)
  refine ⟨key.1, Effect.one (i := i) hs rfl ?_ ?_ (fun _ _ _ _ _ => id) (fun hx => ?_)⟩
  · exact fun _ s hs => ⟨hv, rfl, rfl, hs, rfl, Iff.rfl, rfl⟩
  · exact fun _ s hs _ => ⟨hv, rfl, rfl, hs⟩
  · rw [hb] at hx
    cases hx

/-- **Releasing a pin**, by the task that holds it. -/
theorem unpinEntry_effect {c : Cache α} (h : c.Sound) {i : Nat} (hi : i < maxEntries)
    (hb : (c.entries i).ioBusy = true) (oldest : Bool) {P : Nat → Prop} (hP : P i) :
    Effect P (fun _ _ => False) c (c.unpinEntry i oldest) := by
  have hv := h.busy_valid hi hb
  have ht := h.tag_eq hi hv
  have hf := h.tags i hi
  have key : (c.index.unpin i oldest).1.tag
      = Function.update c.index.tag i (tagOf { c.entries i with ioBusy := false }) := by
    by_cases hd : (c.entries i).dirtyMask = ∅
    · have ht' : c.index.tag i = ⟨(c.entries i).device, .busyClean⟩ := by rw [ht]; simp [tagOf, hb, hd]
      rw [(Index.unpin_clean hi ht' oldest).2.tag]
      simp [tagOf, hd]
    · have ht' : c.index.tag i = ⟨(c.entries i).device, .busyDirty⟩ := by rw [ht]; simp [tagOf, hb, hd]
      rw [(Index.unpin_dirty hi ht' oldest).2.tag]
      simp [tagOf, hd]
  have hs : (c.unpinEntry i oldest).Sound :=
    h.modify hi rfl rfl rfl hv hv rfl rfl (h.index.unpin i oldest) key hf.subset (hf.payload hv)
      (TotalsShift.same rfl (.inl rfl) rfl rfl rfl)
  refine Effect.one (i := i) hs rfl ?_ ?_ (fun _ _ _ _ _ => id) (fun _ => hP)
  · exact fun _ s hs => ⟨hv, rfl, rfl, hs, rfl, Iff.rfl, rfl⟩
  · exact fun _ s hs _ => ⟨hv, rfl, rfl, hs⟩

/-! ## Giving up and taking slots -/

theorem unlinkEntry_fields (c : Cache α) (i : Nat) :
    (c.unlinkEntry i).entries = c.entries ∧ (c.unlinkEntry i).index = c.index ∧
    (c.unlinkEntry i).dirtyEntryCount = c.dirtyEntryCount ∧ (c.unlinkEntry i).dirtySectorCount = c.dirtySectorCount ∧
    (c.unlinkEntry i).dirtySectorsByDevice = c.dirtySectorsByDevice := by
  unfold Cache.unlinkEntry cutOut
  dsimp only
  split
  · exact ⟨rfl, rfl, rfl, rfl, rfl⟩
  · split <;> exact ⟨rfl, rfl, rfl, rfl, rfl⟩

theorem Effect.emptied {c c' : Cache α} (hs : c'.Sound) {i : Nat} {e : Entry α}
    (he : c'.entries = Function.update c.entries i e) (hv : e.valid = false) (hb : (c.entries i).ioBusy = false)
    (hd : (c.entries i).dirtyMask = ∅) : Calm c c' := by
  refine Effect.one (i := i) hs he (fun hx => ?_) (fun _ s hs => ?_) (fun _ _ _ _ _ => id) (fun hx => ?_)
  · rw [hv] at hx
    cases hx
  · rw [hd] at hs
    exact absurd hs (Finset.notMem_empty s)
  · rw [hb] at hx
    cases hx

/-- No slot holds a page that it did not hold before. -/
def OnlyDrops (c c' : Cache α) : Prop := ∀ j, (c'.entries j).valid = true → c'.entries j = c.entries j

theorem OnlyDrops.emptied {c c' : Cache α} {i : Nat} {e : Entry α} (he : c'.entries = Function.update c.entries i e)
    (hv : e.valid = false) : OnlyDrops c c' := by
  intro j hj
  rw [he] at hj ⊢
  by_cases hji : j = i
  · subst hji
    rw [Function.update_self, hv] at hj
    cases hj
  · rw [Function.update_of_ne hji]

theorem OnlyDrops.trans {c c1 c2 : Cache α} (h1 : OnlyDrops c c1) (h2 : OnlyDrops c1 c2) : OnlyDrops c c2 :=
  fun j hj => (h2 j hj).trans (h1 j (h2 j hj ▸ hj))

theorem clearEntry_entries {c : Cache α} {i : Nat} (hi : i < maxEntries) :
    (c.clearEntry i).entries = Function.update c.entries i {} := by
  unfold clearEntry
  rw [if_neg (not_not.2 hi)]
  cases hv : (c.entries i).valid
  · simp [setEntry, setIndex]
  · simp [setEntry, setIndex, (unlinkEntry_fields c i).1]

theorem clearEntry_index {c : Cache α} (h : c.Sound) {i : Nat} (hi : i < maxEntries)
    (hv : (c.entries i).valid = true) (hb : (c.entries i).ioBusy = false) (hd : (c.entries i).dirtyMask = ∅) :
    (c.clearEntry i).index.Wf ∧ (c.clearEntry i).index.tag = Function.update c.index.tag i { queue := .free } := by
  obtain ⟨f1, f2, f3, f4, f5⟩ := unlinkEntry_fields c i
  have ht : c.index.tag i = ⟨(c.entries i).device, .clean⟩ := by
    rw [h.tag_eq hi hv]
    simp [tagOf, hb, hd]
  have hdet := Index.detach_clean hi ht
  have hdt : ((c.index.detach i).1.tag i).queue = .detached := by rw [hdet.2.tag, Function.update_self]
  have hrel : ((c.index.detach i).1.release i).1 = (c.index.detach i).1.pushFree i := by
    unfold Index.release
    rw [if_neg (not_not.2 hi), if_pos hdt]
  have hidx : (c.clearEntry i).index = (c.index.detach i).1.pushFree i := by
    unfold clearEntry
    rw [if_neg (not_not.2 hi), if_pos hv]
    simp only [setEntry, setIndex, f2]
    exact hrel
  rw [hidx]
  refine ⟨(h.index.detach i).pushFree hi hdt, ?_⟩
  rw [(Index.pushFree_moved (Index.tag_eq hdt)).tag, hdet.2.tag, Function.update_idem]

/-- **`clearEntry` on an idle clean page.** -/
theorem clearEntry_calm {c : Cache α} (h : c.Sound) {i : Nat} (hi : i < maxEntries) (hv : (c.entries i).valid = true)
    (hb : (c.entries i).ioBusy = false) (hd : (c.entries i).dirtyMask = ∅) : Calm c (c.clearEntry i) := by
  obtain ⟨f1, f2, f3, f4, f5⟩ := unlinkEntry_fields c i
  obtain ⟨hwf, htag⟩ := clearEntry_index h hi hv hb hd
  have hent := clearEntry_entries (c := c) hi
  have hs : (c.clearEntry i).Sound := by
    refine h.drop hi hv hd hent ?_ ?_ rfl rfl hwf htag (SlotFits.empty rfl rfl rfl rfl) ?_ ?_ ?_
    · unfold clearEntry
      rw [if_neg (not_not.2 hi), if_pos hv]
      rfl
    · unfold clearEntry
      rw [if_neg (not_not.2 hi), if_pos hv]
      rfl
    all_goals
      unfold clearEntry
      rw [if_neg (not_not.2 hi), if_pos hv]
      simp only [setEntry, setIndex, f3, f4, f5]
  exact Effect.emptied hs hent rfl hb hd

theorem evictForReplacement_calm {c : Cache α} (h : c.Sound) {i : Nat} (hi : i < maxEntries)
    (hq : (c.index.tag i).queue = .clean) :
    Calm c (c.evictForReplacement i) ∧ OnlyDrops c (c.evictForReplacement i) ∧ ((c.evictForReplacement i).entries i).valid = false ∧
      ((c.evictForReplacement i).entries i).ioBusy = false ∧ ((c.evictForReplacement i).entries i).dirtyMask = ∅ ∧
      ((c.evictForReplacement i).index.tag i).queue = .detached := by
  obtain ⟨f1, f2, f3, f4, f5⟩ := unlinkEntry_fields c i
  have hf := h.tags i hi
  have ht := Index.tag_eq hq
  have hv : (c.entries i).valid = true := by rw [hf.held, ht]; rfl
  have hb : (c.entries i).ioBusy = false := by rw [hf.busy, ht]; rfl
  have hd : (c.entries i).dirtyMask = ∅ := by
    by_contra hne
    have := hf.dirty.1 hne
    rw [ht] at this
    cases this
  have hdet := Index.detach_clean hi ht
  have e : c.evictForReplacement i = { (c.unlinkEntry i).setIndex (c.index.detach i).1 with
      entries := Function.update c.entries i { payload := (c.entries i).payload } } := by
    unfold evictForReplacement
    rw [if_neg (by simp [hi, hv])]
    simp [setEntry, setIndex, f1, f2]
  have hent : (c.evictForReplacement i).entries = Function.update c.entries i { payload := (c.entries i).payload } := by
    rw [e]
  have hs : (c.evictForReplacement i).Sound := by
    refine h.drop hi hv hd hent ?_ ?_ rfl rfl ?_ (t := {}) ?_ (SlotFits.empty rfl rfl rfl rfl) ?_ ?_ ?_ <;> rw [e]
    · exact rfl
    · exact rfl
    · exact h.index.detach i
    · exact hdet.2.tag
    · exact f3
    · exact f4
    · exact f5
  refine ⟨Effect.emptied hs hent rfl hb hd, OnlyDrops.emptied hent rfl, ?_, ?_, ?_, ?_⟩
  · rw [hent, Function.update_self]
  · rw [hent, Function.update_self]
  · rw [hent, Function.update_self]
  · rw [e]
    show ((c.index.detach i).1.tag i).queue = .detached
    rw [hdet.2.tag, Function.update_self]

/-- The slot `selectWritableSlot` hands out is empty, unpinned and off every queue. -/
structure Vacant (c : Cache α) (i : Nat) : Prop where
  lt : i < maxEntries
  valid : (c.entries i).valid = false
  busy : (c.entries i).ioBusy = false
  dirty : (c.entries i).dirtyMask = ∅
  detached : (c.index.tag i).queue = .detached

theorem cleanVictim_calm {c : Cache α} (h : c.Sound) (preferred : Option Nat) :
    Calm c (c.setIndex (c.index.cleanVictim preferred).1) :=
  setIndex_same h (h.index.cleanVictim preferred) (Index.tag_cleanVictim _ _)

theorem selectWritableSlot_spec {c : Cache α} (h : c.Sound) (env : Env α) (d : Nat) :
    Calm c (c.selectWritableSlot env d).1 ∧ OnlyDrops c (c.selectWritableSlot env d).1 ∧
      ∀ i, (c.selectWritableSlot env d).2 = some i → Vacant (c.selectWritableSlot env d).1 i ∧
        (c.entries i).ioBusy = false := by
  have hvictim : ∀ r : Cache α × Option Nat,
      ((c.index.cleanVictim (some d)).2 = none → r = (c.setIndex (c.index.cleanVictim (some d)).1, none)) →
      (∀ slot, (c.index.cleanVictim (some d)).2 = some slot →
        r = ((c.setIndex (c.index.cleanVictim (some d)).1).evictForReplacement slot, some slot)) →
      Calm c r.1 ∧ OnlyDrops c r.1 ∧ ∀ i, r.2 = some i → Vacant r.1 i ∧ (c.entries i).ioBusy = false := by
    intro r hnone hsome
    have h1 := cleanVictim_calm h (some d)
    cases hv : (c.index.cleanVictim (some d)).2 with
    | none =>
      rw [hnone hv]
      exact ⟨h1, fun _ _ => rfl, fun i hi => by cases hi⟩
    | some slot =>
      rw [hsome slot hv]
      obtain ⟨hi, hq⟩ := h.index.cleanVictim_some hv
      have hq' : ((c.setIndex (c.index.cleanVictim (some d)).1).index.tag slot).queue = .clean := by
        rw [setIndex]
        rw [Index.tag_cleanVictim]
        exact hq
      obtain ⟨h2, hdrop, h3, h4, h5, h6⟩ := evictForReplacement_calm h1.sound hi hq'
      refine ⟨h1.trans h2, fun j hj => hdrop j hj, fun i hs => ?_⟩
      cases hs
      refine ⟨⟨hi, h3, h4, h5, h6⟩, ?_⟩
      have hf := (h.tags slot hi).busy
      rw [hf, Index.tag_eq hq]
      rfl
  unfold selectWritableSlot
  dsimp only
  split
  · cases hc : c.index.claimFree.2 with
    | none => exact hvictim _ (fun hv => by rw [hv]) fun slot hv => by rw [hv]
    | some i =>
      obtain ⟨q, hq⟩ := h.index
      cases hh : c.index.freeList.head with
      | none => simp [Index.claimFree, hh] at hc
      | some j =>
        obtain ⟨hj, hfree, hsome, hm⟩ := Index.claimFree_moved hq hh
        rw [hsome] at hc
        cases hc
        have ht := Index.tag_eq hfree
        have hv : (c.entries i).valid = false := by
          rw [(h.tags i hj).held, ht]
          rfl
        obtain ⟨hb, hd⟩ := h.invalid hj hv
        have hs : (c.setIndex c.index.claimFree.1).Sound := by
          refine h.update hj (e := c.entries i) (t := {}) ?_ rfl rfl rfl (fun _ => ⟨rfl, rfl⟩) ⟨_, hq.moved hj hm (by
            simp [isHeld, isClean, isDirty])⟩ hm.tag (SlotFits.empty hv hb hd rfl)
            (TotalsShift.same rfl (.inl rfl) rfl rfl rfl)
          simp [setIndex]
        refine ⟨Calm.of_entries hs rfl, fun _ _ => rfl, fun k hk => ?_⟩
        cases hk
        refine ⟨⟨hj, hv, hb, hd, ?_⟩, hb⟩
        show ((c.index.claimFree).1.tag i).queue = .detached
        rw [hm.tag, Function.update_self]
  · exact hvictim _ (fun hv => by rw [hv]) fun slot hv => by rw [hv]

theorem reclaimOne_spec {c : Cache α} (h : c.Sound) : Calm c c.reclaimOne ∧ OnlyDrops c c.reclaimOne ∧
    ∀ i, Vacant c i → Vacant c.reclaimOne i ∧ c.reclaimOne.entries i = c.entries i := by
  have h1 := cleanVictim_calm h none
  unfold reclaimOne
  dsimp only
  cases hv : (c.index.cleanVictim none).2 with
  | none =>
    refine ⟨h1, fun _ _ => rfl, fun i hi => ⟨⟨hi.lt, hi.valid, hi.busy, hi.dirty, ?_⟩, rfl⟩⟩
    show ((c.index.cleanVictim none).1.tag i).queue = .detached
    rw [Index.tag_cleanVictim]
    exact hi.detached
  | some slot =>
    obtain ⟨hs, hq⟩ := h.index.cleanVictim_some hv
    have hf := h.tags slot hs
    have ht := Index.tag_eq hq
    have hvs : (c.entries slot).valid = true := by rw [hf.held, ht]; rfl
    have hb : (c.entries slot).ioBusy = false := by rw [hf.busy, ht]; rfl
    have hd : (c.entries slot).dirtyMask = ∅ := by
      by_contra hne
      have := hf.dirty.1 hne
      rw [ht] at this
      cases this
    refine ⟨h1.trans (clearEntry_calm h1.sound hs hvs hb hd), fun j hj => ?_, fun i hi => ?_⟩
    · exact OnlyDrops.emptied (clearEntry_entries hs) rfl j hj
    have hne : i ≠ slot := fun he => by
      rw [he] at hi
      rw [hi.valid] at hvs
      cases hvs
    have hent : ((c.setIndex (c.index.cleanVictim none).1).clearEntry slot).entries i = c.entries i := by
      rw [clearEntry_entries hs, Function.update_of_ne hne]
      rfl
    refine ⟨⟨hi.lt, by rw [hent]; exact hi.valid, by rw [hent]; exact hi.busy, by rw [hent]; exact hi.dirty, ?_⟩, hent⟩
    rw [(clearEntry_index h1.sound hs hvs hb hd).2, Function.update_of_ne hne]
    show ((c.index.cleanVictim none).1.tag i).queue = .detached
    rw [Index.tag_cleanVictim]
    exact hi.detached

theorem ensurePayload_spec {c : Cache α} (h : c.Sound) (env : Env α) (page : Nat) (kept : Option (Fin 8 → α)) :
    Calm c (c.ensurePayload env page kept).1 ∧ OnlyDrops c (c.ensurePayload env page kept).1 ∧
      ∀ i, Vacant c i → Vacant (c.ensurePayload env page kept).1 i := by
  unfold ensurePayload
  cases kept with
  | some f => exact ⟨Effect.refl h, fun _ _ => rfl, fun i hi => hi⟩
  | none =>
    dsimp only
    cases env.frame page 0 with
    | some f => exact ⟨Effect.refl h, fun _ _ => rfl, fun i hi => hi⟩
    | none =>
      obtain ⟨h1, h2, h3⟩ := reclaimOne_spec h
      exact ⟨h1, h2, fun i hi => (h3 i hi).1⟩

theorem Vacant.release {c : Cache α} (h : c.Sound) {i : Nat} (hv : Vacant c i) (p : Option (Fin 8 → α)) :
    Calm c ((c.setEntry i { payload := p }).setIndex (c.index.release i).1) := by
  have hrel : (c.index.release i).1 = c.index.pushFree i := by
    unfold Index.release
    rw [if_neg (not_not.2 hv.lt), if_pos hv.detached]
  have hs : ((c.setEntry i { payload := p }).setIndex (c.index.release i).1).Sound := by
    refine h.update hv.lt (e := { payload := p }) (t := { queue := .free }) rfl rfl rfl hv.valid.symm
      (fun hx => by cases hx) (h.index.release i) ?_ (SlotFits.empty rfl rfl rfl rfl)
      (TotalsShift.same hv.dirty.symm (.inr rfl) rfl rfl rfl)
    show (c.index.release i).1.tag = _
    rw [hrel, (Index.pushFree_moved (Index.tag_eq hv.detached)).tag]
  exact Effect.emptied hs rfl rfl hv.busy hv.dirty

/-- The page as `createEntry` leaves it: present, nothing valid yet. -/
def freshEntry (device page : Nat) (f : Fin 8 → α) : Entry α :=
  { valid := true, device := device, page := page, payload := some f }

/-- **`createEntry` for a page that no slot holds.** -/
theorem createEntry_spec {c : Cache α} (h : c.Sound) (env : Env α) {d page : Nat} (ha : page % 8 = 0)
    (hn : c.findEntry d page = none) :
    Calm c (c.createEntry env d page).1 ∧ ∀ i, (c.createEntry env d page).2 = some i →
      i < maxEntries ∧ (∃ f, (c.createEntry env d page).1.entries i = freshEntry d page f) ∧
        (c.entries i).ioBusy = false := by
  unfold createEntry
  by_cases hd : d < maxDevices
  · rw [if_neg (not_not.2 hd)]
    obtain ⟨h1, hd1, h2⟩ := selectWritableSlot_spec h env d
    rcases hsel : c.selectWritableSlot env d with ⟨c1, r⟩
    rw [hsel] at h1 hd1 h2
    dsimp only at h1 hd1 h2 ⊢
    cases r with
    | none => exact ⟨h1, fun i hi => by cases hi⟩
    | some i =>
      obtain ⟨hvac, hidle⟩ := h2 i rfl
      obtain ⟨h3, hd3, h4⟩ := ensurePayload_spec h1.sound env page (c1.entries i).payload
      dsimp only
      rcases hens : c1.ensurePayload env page (c1.entries i).payload with ⟨c2, p⟩
      rw [hens] at h3 hd3 h4
      dsimp only at h3 hd3 h4
      have hvac2 := h4 i hvac
      have h13 := h1.trans h3
      cases p with
      | none => exact ⟨h13.trans (hvac2.release h3.sound none), fun j hj => by cases hj⟩
      | some f =>
        obtain ⟨hatt, hmov⟩ := Index.attachClean_moved hvac2.lt hd (Index.tag_eq hvac2.detached)
        dsimp only
        rw [if_pos hatt]
        have hfree : ∀ j < maxEntries, (c2.entries j).valid = true → (c2.entries j).device = d →
            (c2.entries j).page ≠ page := by
          intro j hj hvj hdj hpj
          have he := (hd1.trans hd3) j hvj
          rw [he] at hvj hdj hpj
          exact h.findEntry_none hn hj hvj hdj hpj
        have hs : (((c2.setEntry i (freshEntry d page f)).setIndex (c2.index.attachClean i d).1).linkEntry i).Sound := by
          refine h3.sound.add hvac2.lt (e := freshEntry d page f) (t := ⟨d, .clean⟩) hvac2.valid hvac2.dirty hfree rfl
            rfl rfl rfl rfl (h3.sound.index.attachClean i d) hmov.tag ?_ rfl rfl rfl
          exact SlotFits.of_tagOf (e := freshEntry d page f) rfl (Finset.empty_subset _) rfl ha
        refine ⟨h13.trans ?_, fun j hj => ?_⟩
        · refine Effect.one (i := i) hs rfl (fun _ s hs => ?_) (fun hx => ?_) (fun _ _ _ _ _ => id) (fun hx => ?_)
          · exact absurd hs (Finset.notMem_empty s)
          · rw [hvac2.valid] at hx
            cases hx
          · rw [hvac2.busy] at hx
            cases hx
        · cases hj
          refine ⟨hvac.lt, ⟨f, ?_⟩, hidle⟩
          show Function.update c2.entries i _ i = _
          rw [Function.update_self]
          rfl
  · rw [if_pos hd]
    exact ⟨Effect.refl h, fun i hi => by cases hi⟩

/-- **`findEntry` or else `createEntry`**: a calm section whose slot, if any, holds the page. -/
theorem findOrCreate_spec {c : Cache α} (h : c.Sound) (env : Env α) {d page : Nat} (ha : page % 8 = 0) :
    Calm c (c.findOrCreate env d page).1 ∧ ∀ i, (c.findOrCreate env d page).2 = some i →
      i < maxEntries ∧ ((c.findOrCreate env d page).1.entries i).valid = true ∧
        ((c.findOrCreate env d page).1.entries i).device = d ∧
        ((c.findOrCreate env d page).1.entries i).page = page ∧
        ((c.findOrCreate env d page).1.entries i).ioBusy = (c.entries i).ioBusy := by
  unfold findOrCreate
  cases hf : c.findEntry d page with
  | some i =>
    refine ⟨Effect.refl h, fun j hj => ?_⟩
    cases hj
    obtain ⟨h1, h2, h3, h4⟩ := (h.findEntry_eq d page i).1 hf
    exact ⟨h1, h2, h3, h4, rfl⟩
  | none =>
    obtain ⟨h1, h2⟩ := createEntry_spec h env ha hf
    refine ⟨h1, fun j hj => ?_⟩
    obtain ⟨hj1, ⟨f, hj2⟩, hj3⟩ := h2 j hj
    dsimp only
    rw [hj2, hj3]
    exact ⟨hj1, rfl, rfl, rfl, rfl⟩

/-! ## Masks and frames -/

theorem copyInto_effect {c : Cache α} (h : c.Sound) {i : Nat} (hi : i < maxEntries) (hv : (c.entries i).valid = true)
    {m : Mask} (hm : Disjoint m (c.entries i).validMask) (f : Fin 8 → α) {P : Nat → Prop}
    (hP : (c.entries i).ioBusy = true → P i) : Effect P (fun _ _ => False) c (c.copyInto i m f) := by
  have hf := h.tags i hi
  have hs : (c.copyInto i m f).Sound := by
    refine h.modify hi rfl rfl rfl hv hv rfl rfl h.index ?_ hf.subset ?_ (TotalsShift.same rfl (.inl rfl) rfl rfl rfl)
    · have : tagOf { c.entries i with payload := (c.entries i).payload.map (fun g s => if s ∈ m then f s else g s) }
          = c.index.tag i := (h.tag_eq hi hv).symm
      rw [this]
      simp [copyInto, setEntry]
    · simpa using hf.payload hv
  refine Effect.one (i := i) hs rfl (fun _ s hs => ?_) (fun _ s hs _ => ⟨hv, rfl, rfl, hs⟩) (fun _ _ _ _ _ => id) hP
  refine ⟨hv, rfl, rfl, hs, ?_, Iff.rfl, rfl⟩
  have hsm : s ∉ m := fun hx => Finset.disjoint_left.1 hm hx hs
  simp only [Entry.at, Option.map_map]
  congr 1
  funext g
  simp [hsm]

theorem setValidMask_sound {c : Cache α} (h : c.Sound) {i : Nat} (hi : i < maxEntries)
    (hv : (c.entries i).valid = true) {m : Mask} (hm : (c.entries i).dirtyMask ⊆ m) : (c.setValidMask i m).Sound := by
  have hf := h.tags i hi
  refine h.modify hi rfl rfl rfl hv hv rfl rfl h.index ?_ hm (hf.payload hv) (TotalsShift.same rfl (.inl rfl) rfl rfl rfl)
  have : tagOf { c.entries i with validMask := m } = c.index.tag i := (h.tag_eq hi hv).symm
  rw [this]
  simp [setValidMask, setEntry]

theorem forget_effect {c : Cache α} (h : c.Sound) {i : Nat} (hi : i < maxEntries) (hv : (c.entries i).valid = true)
    {m : Mask} (hm : Disjoint m (c.entries i).dirtyMask) {P : Nat → Prop} (hP : (c.entries i).ioBusy = true → P i) :
    Effect P (fun _ _ => False) c (c.setValidMask i ((c.entries i).validMask \ m)) := by
  have hf := h.tags i hi
  refine Effect.one (i := i) (setValidMask_sound h hi hv (fun s hs => ?_)) rfl (fun _ s hs => ?_)
    (fun _ s hs _ => ⟨hv, rfl, rfl, hs⟩) (fun _ _ _ _ _ => id) hP
  · exact Finset.mem_sdiff.2 ⟨hf.subset hs, fun hx => Finset.disjoint_left.1 hm hx hs⟩
  · exact ⟨hv, rfl, rfl, (Finset.mem_sdiff.1 hs).1, rfl, Iff.rfl, rfl⟩

/-- The slot after some of its sectors are no longer dirty. -/
structure Cleaned (e e' : Entry α) (bits : Mask) : Prop where
  valid : e'.valid = e.valid
  busy : e'.ioBusy = e.ioBusy
  device : e'.device = e.device
  page : e'.page = e.page
  validMask : e'.validMask = e.validMask
  payload : e'.payload = e.payload
  dirty : e'.dirtyMask = e.dirtyMask \ bits
  owner : ∀ s, s ∉ bits → e'.dirtyOwner s = e.dirtyOwner s

theorem clearDirtyBits_spec {c : Cache α} (h : c.Sound) {i : Nat} (hi : i < maxEntries)
    (hv : (c.entries i).valid = true) (bits : Mask) : (c.clearDirtyBits i bits).Sound ∧
      ∃ e', (c.clearDirtyBits i bits).entries = Function.update c.entries i e' ∧ Cleaned (c.entries i) e' bits := by
  have hf := h.tags i hi
  by_cases hcl : (c.entries i).dirtyMask ∩ bits = ∅
  · have e : c.clearDirtyBits i bits = c := by
      unfold clearDirtyBits
      dsimp only
      rw [if_pos (.inr hcl)]
    rw [e]
    have hdis : (c.entries i).dirtyMask \ bits = (c.entries i).dirtyMask :=
      Finset.sdiff_eq_self_of_disjoint (Finset.disjoint_iff_inter_eq_empty.2 hcl)
    exact ⟨h, c.entries i, by simp, ⟨rfl, rfl, rfl, rfl, rfl, rfl, hdis.symm, fun _ _ => rfl⟩⟩
  · have hleft : (c.entries i).dirtyMask \ ((c.entries i).dirtyMask ∩ bits) = (c.entries i).dirtyMask \ bits :=
      Finset.sdiff_inter_self_left _ _
    have hne : (c.entries i).dirtyMask ≠ ∅ := fun h0 => hcl (by rw [h0]; simp)
    have hdev := h.device_lt hi hv
    have hcard : ((c.entries i).dirtyMask ∩ bits).card + ((c.entries i).dirtyMask \ bits).card
        = (c.entries i).dirtyMask.card := Finset.card_inter_add_card_sdiff _ _
    refine ⟨?_, ?_⟩
    · unfold clearDirtyBits
      dsimp only
      rw [if_neg (by simp [hi, hcl])]
      refine h.modify hi rfl rfl rfl hv hv rfl rfl ?_ ?_ ?_ (hf.payload hv) ?_
      · dsimp only
        split
        · exact h.index.clearDirty i
        · exact h.index
      · dsimp only [without]
        rw [hleft]
        have ht := h.tag_eq hi hv
        by_cases hl : (c.entries i).dirtyMask \ bits = ∅
        · rw [if_pos hl]
          cases hb : (c.entries i).ioBusy with
          | false =>
            have ht' : c.index.tag i = ⟨(c.entries i).device, .dirty⟩ := by rw [ht]; simp [tagOf, hb, hne]
            rw [(Index.clearDirty_dirty hi ht').tag]
            simp [tagOf, hl]
          | true =>
            have ht' : c.index.tag i = ⟨(c.entries i).device, .busyDirty⟩ := by rw [ht]; simp [tagOf, hb, hne]
            rw [(Index.clearDirty_busy hi ht').tag]
            simp [tagOf, hl]
        · rw [if_neg hl]
          have : c.index.tag i = ⟨(c.entries i).device, if (c.entries i).ioBusy then .busyDirty else .dirty⟩ := by
            rw [ht]
            simp [tagOf, hne]
          rw [show tagOf _ = c.index.tag i from by rw [this]; simp [tagOf, hl]]
          simp
      · dsimp only [without]
        exact Finset.sdiff_subset.trans hf.subset
      · refine ⟨?_, ?_, fun d hd => ?_⟩
        · dsimp only [without]
          rw [hleft]
          by_cases hl : (c.entries i).dirtyMask \ bits = ∅ <;> simp [Shifts, dirtyPage, hne, hl] <;> omega
        · dsimp only [without]
          rw [hleft]
          simp only [Shifts, dirtySectors]
          omega
        · dsimp only [without]
          rw [hleft, if_pos hdev]
          by_cases hdd : (c.entries i).device = d
          · subst hdd
            simp only [Shifts, dirtySectorsOn, if_pos, Function.update_self]
            omega
          · simp [Shifts, dirtySectorsOn, hdd, Function.update_of_ne (Ne.symm hdd)]
    · refine ⟨without (c.entries i) ((c.entries i).dirtyMask ∩ bits), ?_, ?_⟩
      · unfold clearDirtyBits
        dsimp only
        rw [if_neg (by simp [hi, hcl])]
        rfl
      · refine ⟨rfl, rfl, rfl, rfl, rfl, rfl, hleft, fun s hs => ?_⟩
        have : s ∉ (c.entries i).dirtyMask ∩ bits := fun hx => hs (Finset.mem_inter.1 hx).2
        exact if_neg this

/-- **The marking step of a cached write.** -/
theorem writeInto_spec {c : Cache α} (h : c.Sound) (env : Env α) {i : Nat} (hi : i < maxEntries)
    (hv : (c.entries i).valid = true) (hb : (c.entries i).ioBusy = false) (s : Fin 8) (v : α) (batch : Nat) :
    (c.writeInto env i s v batch).2 = true ∧ (c.writeInto env i s v batch).1.Sound ∧
      ∃ e', (c.writeInto env i s v batch).1.entries = Function.update c.entries i e' ∧ e'.valid = true ∧
        e'.ioBusy = false ∧ e'.device = (c.entries i).device ∧ e'.page = (c.entries i).page ∧
        e'.validMask = (c.entries i).validMask ∪ {s} ∧ e'.dirtyMask = (c.entries i).dirtyMask ∪ {s} ∧
        e'.dirtyOwner = Function.update (c.entries i).dirtyOwner s batch ∧
        (∀ s', e'.at s' = if s' = s then some v else (c.entries i).at s') := by
  have hf := h.tags i hi
  have ht := h.tag_eq hi hv
  have hdev := h.device_lt hi hv
  have hmark : (c.entries i).dirtyMask = ∅ → (c.index.markDirty i).2 = true ∧
      (c.index.markDirty i).1.tag = Function.update c.index.tag i ⟨(c.entries i).device, .dirty⟩ := fun hd => by
    have ht' : c.index.tag i = ⟨(c.entries i).device, .clean⟩ := by rw [ht]; simp [tagOf, hb, hd]
    obtain ⟨h1, h2⟩ := Index.markDirty_moved hi ht'
    exact ⟨h1, h2.tag⟩
  have hok : ¬ ((c.entries i).dirtyMask = ∅ ∧ (c.index.markDirty i).2 = false) := fun hx => by
    rw [(hmark hx.1).1] at hx
    cases hx.2
  have hpl := hf.payload hv
  obtain ⟨g, hg⟩ := Option.isSome_iff_exists.1 hpl
  have hne : (c.entries i).dirtyMask ∪ {s} ≠ ∅ := fun h0 => by
    have : s ∈ (c.entries i).dirtyMask ∪ {s} := by simp
    rw [h0] at this
    exact absurd this (Finset.notMem_empty s)
  have hcard : ({s} \ (c.entries i).dirtyMask).card + (c.entries i).dirtyMask.card
      = ((c.entries i).dirtyMask ∪ {s}).card := by
    rw [Finset.union_comm, ← Finset.card_sdiff_add_card]
  have hgate : ¬ (¬ i < maxEntries ∨ (c.entries i).valid = false ∨ ¬ (c.entries i).device < maxDevices) := by
    simp [hi, hv, hdev]
  have htag : (if decide ((c.entries i).dirtyMask = ∅) = true then (c.index.markDirty i).1 else c.index).tag
      = Function.update c.index.tag i ⟨(c.entries i).device, .dirty⟩ := by
    by_cases hd : (c.entries i).dirtyMask = ∅
    · simp [hd, (hmark hd).2]
    · have ht' : c.index.tag i = ⟨(c.entries i).device, .dirty⟩ := by rw [ht]; simp [tagOf, hb, hd]
      simp [hd, ← ht']
  unfold writeInto markDirty
  dsimp only
  rw [if_neg hgate, if_neg hok]
  refine ⟨by simp, ?_, ?_⟩
  · simp only [Bool.true_eq_false, if_false, copyInto, setValidMask, setEntry, Function.update_self,
      Function.update_idem]
    refine h.modify hi rfl rfl rfl hv hv rfl rfl ?_ ?_ ?_ ?_ ?_
    · dsimp only
      split
      · exact h.index.markDirty i
      · exact h.index
    · dsimp only
      rw [htag]
      simp [tagOf, hb]
    · exact Finset.union_subset_union_left hf.subset
    · simpa using hpl
    · refine ⟨?_, ?_, fun d hd => ?_⟩
      · dsimp only
        by_cases hd : (c.entries i).dirtyMask = ∅ <;> simp [Shifts, dirtyPage, hd]
      · simp only [Shifts, dirtySectors]
        omega
      · by_cases hdd : (c.entries i).device = d
        · subst hdd
          simp only [Shifts, dirtySectorsOn, if_pos, Function.update_self]
          omega
        · simp [Shifts, dirtySectorsOn, hdd, Function.update_of_ne (Ne.symm hdd)]
  · simp only [Bool.true_eq_false, if_false, copyInto, setValidMask, setEntry, Function.update_self,
      Function.update_idem]
    refine ⟨_, rfl, hv, hb, rfl, rfl, rfl, rfl, rfl, fun s' => ?_⟩
    simp only [Entry.at, hg, Option.map_some]
    by_cases hs : s' = s <;> simp [hs]

end Cache
end PageCache
end R4
