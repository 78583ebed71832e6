import R4Recovery.PageCacheHistory
/-!
# PageCacheCoherent — the cache, the devices and the history tell the same data

`Base` is what holds between any two steps whatever the tasks are at: valid sectors hold the data of the last write,
dirty sectors are owned by its batch, and where the cache holds no dirty copy the device has it.
-/
namespace R4
namespace PageCache

open PageIndex

variable {α : Type}

namespace Cache

/-- The cache holds a dirty copy of the sector. -/
def DirtyAt (c : Cache α) (d l : Nat) : Prop :=
  ∃ i < maxEntries, (c.entries i).valid = true ∧ (c.entries i).device = d ∧
    ∃ s ∈ (c.entries i).dirtyMask, (c.entries i).page + s.val = l

theorem dirtyAt_iff {c : Cache α} (h : c.Sound) {i : Nat} (hi : i < maxEntries) (hv : (c.entries i).valid = true)
    {d : Nat} (hd : (c.entries i).device = d) (s : Fin 8) :
    DirtyAt c d ((c.entries i).page + s) ↔ s ∈ (c.entries i).dirtyMask := by
  constructor
  · rintro ⟨j, hj, hvj, hdj, s', hs', hp⟩
    obtain ⟨rfl, rfl⟩ := h.same_sector hj hi hvj hv (hdj.trans hd.symm) hp
    exact hs'
  · exact fun hs => ⟨i, hi, hv, hd, s, hs, rfl⟩

/-- **The data in the cache, on the devices and in the history agree**, but for the sectors `X` whose new data has
reached the device and is not recorded yet. -/
structure Base (init : Nat → Nat → α) (X : Nat → Nat → Prop) (disk : Nat → Nat → α) (log : List (Event α))
    (c : Cache α) : Prop where
  sound : c.Sound
  frames : ∀ i < maxEntries, (c.entries i).valid = true → ∀ s ∈ (c.entries i).validMask,
    (c.entries i).at s = some (latest init log (c.entries i).device ((c.entries i).page + s))
  owners : ∀ i < maxEntries, (c.entries i).valid = true → ∀ s ∈ (c.entries i).dirtyMask,
    lastBatch log (c.entries i).device ((c.entries i).page + s) = some ((c.entries i).dirtyOwner s)
  owed : ∀ d l, ¬ DirtyAt c d l → Clear log d l
  onDisk : ∀ d l, ¬ DirtyAt c d l → ¬ X d l → disk d l = latest init log d l
  honest : Honest init log
  flushes : Flushes log

variable {init : Nat → Nat → α} {X : Nat → Nat → Prop} {disk : Nat → Nat → α} {log : List (Event α)}

/-- A section on the cache alone: the data still agree, and other tasks' pinned slots are as they were. -/
structure Keeps (init : Nat → Nat → α) (X : Nat → Nat → Prop) (disk : Nat → Nat → α) (log : List (Event α))
    (P : Nat → Prop) (c c' : Cache α) : Prop where
  base : Base init X disk log c'
  pinned : ∀ i < maxEntries, (c.entries i).ioBusy = true → ¬ P i → c'.entries i = c.entries i

theorem Keeps.refl {c : Cache α} (h : Base init X disk log c) (P : Nat → Prop) : Keeps init X disk log P c c :=
  ⟨h, fun _ _ _ _ => rfl⟩

theorem Keeps.trans {P : Nat → Prop} {c c1 c2 : Cache α} (h1 : Keeps init X disk log P c c1)
    (h2 : Keeps init X disk log P c1 c2) : Keeps init X disk log P c c2 where
  base := h2.base
  pinned := fun i hi hb hp => by
    have he := h1.pinned i hi hb hp
    rw [h2.pinned i hi (by rw [he]; exact hb) hp, he]

theorem Keeps.mono {P P' : Nat → Prop} {c c' : Cache α} (h : Keeps init X disk log P c c') (hp : ∀ i, P i → P' i) :
    Keeps init X disk log P' c c' :=
  ⟨h.base, fun i hi hb hn => h.pinned i hi hb (fun hx => hn (hp i hx))⟩

theorem Effect.dirtyAt {P : Nat → Prop} {K : Nat → Nat → Prop} {c c' : Cache α} (h : Effect P K c c') {d l : Nat}
    (hd : DirtyAt c d l) (hk : ¬ K d l) : DirtyAt c' d l := by
  obtain ⟨i, hi, hv, rfl, s, hs, rfl⟩ := hd
  obtain ⟨h1, h2, h3, h4⟩ := h.dirty i hi hv s hs hk
  exact ⟨i, hi, h1, h2, s, h4, by rw [h3]⟩

theorem Base.effect {P : Nat → Prop} {c c' : Cache α} (h : Base init X disk log c)
    (he : Effect P (fun _ _ => False) c c') : Keeps init X disk log P c c' where
  base :=
    { sound := he.sound
      frames := fun i hi hv s hs => by
        obtain ⟨h1, h2, h3, h4, h5, _⟩ := he.kept i hi hv s hs
        rw [h5, h2, h3]
        exact h.frames i hi h1 s h4
      owners := fun i hi hv s hs => by
        obtain ⟨h1, h2, h3, _, _, h6, h7⟩ := he.kept i hi hv s ((he.sound.tags i hi).subset hs)
        rw [h2, h3, h7]
        exact h.owners i hi h1 s (h6.1 hs)
      owed := fun d l hn => h.owed d l (fun hd => hn (he.dirtyAt hd id))
      onDisk := fun d l hn hx => h.onDisk d l (fun hd => hn (he.dirtyAt hd id)) hx
      honest := h.honest
      flushes := h.flushes }
  pinned := he.pinned

theorem Keeps.one {P : Nat → Prop} {c c' : Cache α} {i : Nat} {e : Entry α} (h : Base init X disk log c)
    (hs : c'.Sound) (hi : i < maxEntries) (hv : (c.entries i).valid = true)
    (he : c'.entries = Function.update c.entries i e) (hd : e.device = (c.entries i).device)
    (hp : e.page = (c.entries i).page) (hev : e.valid = true)
    (hf : ∀ s ∈ e.validMask, e.at s = some (latest init log e.device (e.page + s)))
    (ho : ∀ s ∈ e.dirtyMask, lastBatch log e.device (e.page + s) = some (e.dirtyOwner s))
    (hcl : ∀ s ∈ (c.entries i).dirtyMask, s ∉ e.dirtyMask → Clear log e.device (e.page + s) ∧
      disk e.device (e.page + s) = latest init log e.device (e.page + s))
    (hP : (c.entries i).ioBusy = true → P i) : Keeps init X disk log P c c' := by
  have hself : c'.entries i = e := by rw [he, Function.update_self]
  have hother : ∀ j, j ≠ i → c'.entries j = c.entries j := fun j hj => by rw [he, Function.update_of_ne hj]
  have hdirty : ∀ d l, DirtyAt c d l → ¬ DirtyAt c' d l → Clear log d l ∧ disk d l = latest init log d l := by
    rintro d l ⟨j, hj, hvj, rfl, s, hs, rfl⟩ hn
    by_cases hji : j = i
    · subst hji
      rw [← hd, ← hp]
      refine hcl s hs (fun hx => hn ⟨j, hj, by rw [hself]; exact hev, by rw [hself, hd], s, by rw [hself]; exact hx, ?_⟩)
      rw [hself, hp]
    · exact absurd ⟨j, hj, by rw [hother j hji]; exact ⟨hvj, rfl, s, hs, rfl⟩⟩ hn
  refine ⟨⟨hs, fun j hj hvj s hs => ?_, fun j hj hvj s hs => ?_, fun d l hn => ?_, fun d l hn hx => ?_, h.honest,
    h.flushes⟩, fun j hj hb hn => ?_⟩
  · by_cases hji : j = i
    · subst hji
      rw [hself] at hs ⊢
      exact hf s hs
    · rw [hother j hji] at hvj hs ⊢
      exact h.frames j hj hvj s hs
  · by_cases hji : j = i
    · subst hji
      rw [hself] at hs ⊢
      exact ho s hs
    · rw [hother j hji] at hvj hs ⊢
      exact h.owners j hj hvj s hs
  · by_cases hdd : DirtyAt c d l
    · exact (hdirty d l hdd hn).1
    · exact h.owed d l hdd
  · by_cases hdd : DirtyAt c d l
    · exact (hdirty d l hdd hn).2
    · exact h.onDisk d l hdd hx
  · by_cases hji : j = i
    · subst hji
      exact absurd (hP hb) hn
    · exact hother j hji

/-- **A fill is published**: its sectors hold the last write's data. -/
theorem Base.publish {P : Nat → Prop} {c : Cache α} (h : Base init X disk log c) {i : Nat} (hi : i < maxEntries)
    (hv : (c.entries i).valid = true) {m : Mask} (hm : (c.entries i).validMask ⊆ m)
    (hf : ∀ s ∈ m, s ∉ (c.entries i).validMask →
      (c.entries i).at s = some (latest init log (c.entries i).device ((c.entries i).page + s)))
    (hP : (c.entries i).ioBusy = true → P i) : Keeps init X disk log P c (c.setValidMask i m) := by
  have hs := setValidMask_sound h.sound hi hv ((h.sound.tags i hi).subset.trans hm)
  refine Keeps.one (i := i) (e := { c.entries i with validMask := m }) h hs hi hv rfl rfl rfl hv (fun s hs => ?_)
    (h.owners i hi hv) (fun s h1 h2 => absurd h1 h2) hP
  by_cases hs' : s ∈ (c.entries i).validMask
  · exact h.frames i hi hv s hs'
  · exact hf s hs hs'

/-- **Sectors on the device are clean again.** -/
theorem Base.clean {P : Nat → Prop} {c : Cache α} (h : Base init X disk log c) {i : Nat} (hi : i < maxEntries)
    (hv : (c.entries i).valid = true) {m : Mask}
    (hm : ∀ s ∈ m, Clear log (c.entries i).device ((c.entries i).page + s) ∧
      disk (c.entries i).device ((c.entries i).page + s)
        = latest init log (c.entries i).device ((c.entries i).page + s))
    (hP : (c.entries i).ioBusy = true → P i) : Keeps init X disk log P c (c.clearDirtyBits i m) := by
  obtain ⟨hs, e, he, hcl⟩ := clearDirtyBits_spec h.sound hi hv m
  have hat : ∀ s, e.at s = (c.entries i).at s := fun s => by simp only [Entry.at, hcl.payload]
  refine Keeps.one (i := i) (e := e) h hs hi hv he hcl.device hcl.page (hcl.valid.trans hv) (fun s hs => ?_)
    (fun s hs => ?_) (fun s h1 h2 => ?_) hP
  · rw [hat, hcl.device, hcl.page]
    exact h.frames i hi hv s (hcl.validMask ▸ hs)
  · rw [hcl.dirty] at hs
    obtain ⟨hs1, hs2⟩ := Finset.mem_sdiff.1 hs
    rw [hcl.device, hcl.page, hcl.owner s hs2]
    exact h.owners i hi hv s hs1
  · rw [hcl.dirty] at h2
    have hsm : s ∈ m := by
      by_contra hx
      exact h2 (Finset.mem_sdiff.2 ⟨h1, hx⟩)
    rw [hcl.device, hcl.page]
    exact hm s hsm

theorem Base.tell {c : Cache α} (h : Base init X disk log c) {es : List (Event α)} (ht : Told init es log) :
    Base init X disk (es ++ log) c where
  sound := h.sound
  frames := fun i hi hv s hs => by
    rw [ht.latest]
    exact h.frames i hi hv s hs
  owners := fun i hi hv s hs => by
    rw [ht.lastBatch]
    exact h.owners i hi hv s hs
  owed := fun d l hn => ht.clear d l (h.owed d l hn)
  onDisk := fun d l hn hx => by
    rw [ht.latest]
    exact h.onDisk d l hn hx
  honest := ht.honest h.honest
  flushes := ht.flushes h.flushes

theorem Base.fromCache {c : Cache α} (h : Base init X disk log c) {e : Event α} (he : FromCache c e) :
    e.Tells init log := by
  cases e with
  | delivered d l v =>
    obtain ⟨i, hi, hv, rfl, s, rfl, hs, hat⟩ := he
    rw [h.frames i hi hv s hs] at hat
    cases hat
    exact rfl
  | cached => exact he.elim
  | direct => exact he.elim
  | stored => exact he.elim
  | flushed => exact he.elim

/-- **The marking step of a cached write.** -/
theorem Base.mark {c : Cache α} (h : Base init X disk log c) (env : Env α) {i d lba : Nat} (hi : i < maxEntries)
    (hv : (c.entries i).valid = true) (hb : (c.entries i).ioBusy = false) (hd : (c.entries i).device = d)
    (hp : (c.entries i).page = pageLba lba) (v : α) (batch : Nat) :
    (c.writeInto env i (sectorOf lba) v batch).2 = true ∧
      Base init X disk (.cached d lba v batch :: log) (c.writeInto env i (sectorOf lba) v batch).1 ∧
      ∀ j, j ≠ i → (c.writeInto env i (sectorOf lba) v batch).1.entries j = c.entries j := by
  obtain ⟨h1, hs, e, he, e1, e2, e3, e4, e5, e6, e7, e8⟩ := writeInto_spec h.sound env hi hv hb (sectorOf lba) v batch
  have hself : (c.writeInto env i (sectorOf lba) v batch).1.entries i = e := by rw [he, Function.update_self]
  have hother : ∀ j, j ≠ i → (c.writeInto env i (sectorOf lba) v batch).1.entries j = c.entries j := fun j hj => by
    rw [he, Function.update_of_ne hj]
  have hlba := pageLba_sectorOf lba
  have hdirty : ∀ d' l, ¬ DirtyAt (c.writeInto env i (sectorOf lba) v batch).1 d' l →
      ¬ (d = d' ∧ lba = l) ∧ ¬ DirtyAt c d' l := by
    refine fun d' l hn => ⟨fun hx => hn ?_, fun hx => hn ?_⟩
    · obtain ⟨rfl, rfl⟩ := hx
      refine ⟨i, hi, by rw [hself]; exact e1, by rw [hself, e3, hd], sectorOf lba, ?_, ?_⟩
      · rw [hself, e6]
        exact Finset.mem_union_right _ (Finset.mem_singleton_self _)
      · rw [hself, e4, hp, hlba]
    · obtain ⟨j, hj, hvj, rfl, s, hds, rfl⟩ := hx
      by_cases hji : j = i
      · subst hji
        refine ⟨j, hj, by rw [hself]; exact e1, by rw [hself, e3], s, ?_, by rw [hself, e4]⟩
        rw [hself, e6]
        exact Finset.mem_union_left _ hds
      · exact ⟨j, hj, by rw [hother j hji]; exact ⟨hvj, rfl, s, hds, rfl⟩⟩
  -- a sector of another slot is not the one written
  have hfar : ∀ j < maxEntries, (c.entries j).valid = true → j ≠ i → ∀ s : Fin 8,
      ¬ (d = (c.entries j).device ∧ lba = (c.entries j).page + s) := fun j hj hvj hji s hx => by
    refine hji (h.sound.same_sector hj hi hvj hv (hx.1.symm.trans hd.symm) (s := s) (t := sectorOf lba) ?_).1
    rw [← hx.2, hp, hlba]
  have hsector : ∀ s : Fin 8, (d = e.device ∧ lba = e.page + s) ↔ s = sectorOf lba := fun s => by
    rw [e3, e4, hd, hp]
    refine ⟨fun hx => Fin.ext ?_, fun hx => ⟨rfl, by rw [hx, hlba]⟩⟩
    have := hx.2
    omega
  refine ⟨h1, ⟨hs, fun j hj hvj s hs => ?_, fun j hj hvj s hs => ?_, fun d' l hn => ?_, fun d' l hn hx => ?_, h.honest,
    h.flushes⟩, hother⟩
  · by_cases hji : j = i
    · subst hji
      rw [hself] at hs ⊢
      rw [e8]
      by_cases hss : s = sectorOf lba
      · rw [if_pos hss, latest, if_pos ((hsector s).2 hss)]
      · rw [if_neg hss, latest, if_neg (fun hx => hss ((hsector s).1 hx)), e3, e4]
        rw [e5] at hs
        exact h.frames j hj hv s ((Finset.mem_union.1 hs).resolve_right (by simpa using hss))
    · rw [hother j hji] at hvj hs ⊢
      rw [latest, if_neg (hfar j hj hvj hji s)]
      exact h.frames j hj hvj s hs
  · by_cases hji : j = i
    · subst hji
      rw [hself] at hs ⊢
      rw [e7]
      by_cases hss : s = sectorOf lba
      · rw [lastBatch, if_pos ((hsector s).2 hss), hss, Function.update_self]
      · rw [lastBatch, if_neg (fun hx => hss ((hsector s).1 hx)), Function.update_of_ne hss, e3, e4]
        rw [e6] at hs
        exact h.owners j hj hv s ((Finset.mem_union.1 hs).resolve_right (by simpa using hss))
    · rw [hother j hji] at hvj hs ⊢
      rw [lastBatch, if_neg (hfar j hj hvj hji s)]
      exact h.owners j hj hvj s hs
  · obtain ⟨h2, h3⟩ := hdirty d' l hn
    exact ⟨h2, h.owed d' l h3⟩
  · obtain ⟨h2, h3⟩ := hdirty d' l hn
    rw [latest, if_neg h2]
    exact h.onDisk d' l h3 hx

/-- **At its barrier, a flush has drained every write it owes.** -/
theorem Base.drained {c : Cache α} (h : Base init X disk log c) {d since : Nat} {batch : Option Nat}
    (hr : Ready c (.barrier (α := α) d batch since)) : Drained log d batch since := by
  intro n e l _ he ho
  have hw : e.Writes d l := by
    cases e with
    | cached => exact ⟨ho.1, ho.2.1⟩
    | direct => exact ⟨ho.1, ho.2.1⟩
    | _ => exact ho.elim
  by_cases hd : DirtyAt c d l
  · obtain ⟨i, hi, hv, hdev, s, hs, rfl⟩ := hd
    obtain ⟨own, hb, hne⟩ := hr i hi hv hdev s hs
    have hlast := h.owners i hi hv s hs
    rw [hdev] at hlast
    obtain ⟨m, v, hm, hall⟩ := lastBatch_at hlast
    refine .inr ⟨own, hb, m, v, _, ?_, hne, hm⟩
    refine Nat.lt_of_le_of_ne (hall n e he hw) (fun hnm => ?_)
    -- the write itself is the last one, of the flushed batch
    subst hnm
    unfold At at he hm
    rw [hm] at he
    cases he
    exact hne (ho.2.2 own hb)
  · exact .inl (received_of_clear h.honest (h.owed d l hd) he hw)

end Cache
end PageCache
end R4
