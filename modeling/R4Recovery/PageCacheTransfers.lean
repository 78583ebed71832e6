import R4Recovery.PageCacheSteps
/-!
# PageCacheTransfers — reading and writing with the lock released

While a transfer runs, the pins of its task keep every other task off the pages it is about: what it reads is still the
last write's data when it is published, and what it stores is what the frame held.
-/
namespace R4
namespace PageCache

open PageIndex

variable {α : Type}

namespace Cache

variable {init : Nat → Nat → α} {X : Nat → Nat → Prop} {disk : Nat → Nat → α} {log : List (Event α)}

/-- Sectors with new data on the device lie in pages that other tasks have pinned. -/
def Elsewhere (c : Cache α) (pins : List Nat) (X : Nat → Nat → Prop) : Prop :=
  ∀ d l, X d l → ∃ i < maxEntries, (c.entries i).ioBusy = true ∧ i ∉ pins ∧ (c.entries i).device = d ∧
    (c.entries i).page = pageLba l

theorem slot_sector {c : Cache α} (h : c.Sound) {i : Nat} (hi : i < maxEntries) (hv : (c.entries i).valid = true)
    (s : Fin 8) : pageLba ((c.entries i).page + s) = (c.entries i).page ∧ sectorOf ((c.entries i).page + s) = s := by
  have ha := (h.tags i hi).aligned hv
  have hs := s.isLt
  refine ⟨?_, Fin.ext ?_⟩
  · unfold pageLba pageSectors
    omega
  · unfold sectorOf
    dsimp only
    omega

theorem Elsewhere.not {c : Cache α} (h : c.Sound) {pins : List Nat} (hx : Elsewhere c pins X) {i d page : Nat}
    (hp : Pinned c i d page) (hi : i ∈ pins) (s : Fin 8) : ¬ X d (page + s) := by
  intro hX
  obtain ⟨j, hj, hb, hn, hd, hpg⟩ := hx d _ hX
  have hv := h.busy_valid hp.lt hp.busy
  have hsec := (slot_sector h hp.lt hv s).1
  rw [hp.page] at hsec
  rw [hsec] at hpg
  have := h.unique j i hj hp.lt (h.busy_valid hj hb) hv (hd.trans hp.device.symm) (hpg.trans hp.page.symm)
  exact hn (this ▸ hi)

theorem Base.withDisk {X' : Nat → Nat → Prop} {disk' : Nat → Nat → α} {c : Cache α} (h : Base init X disk log c)
    (hd : ∀ d l, ¬ DirtyAt c d l → ¬ X' d l → disk' d l = latest init log d l) : Base init X' disk' log c :=
  ⟨h.sound, h.frames, h.owners, h.owed, hd, h.honest, h.flushes⟩

/-! ## Writebacks -/

/-- **The transfer of a writeback**: the sectors written hold the last write's data, the torn ones are still dirty. -/
theorem writeback_advances {c : Cache α} (h : Base init X disk log c) (env : Env α) {i d page : Nat} {snapshot : Mask}
    {before : Option Nat} {k : Loop α} (hf : Fits init disk log c (.writeback i d page snapshot before k)) :
    let written := writtenMask env d snapshot
    let e := c.entries i
    Advances init X disk log c (.writeback i d page snapshot before k)
      (putPage disk d page (fun s =>
        if s ∈ written then e.payload.map (fun f => f s) else if s ∈ snapshot then some (env.torn s) else none))
      ⟨c, .wroteBack i d page snapshot written (decide (written = snapshot)) before k,
        ((List.finRange 8).filter (· ∈ written)).filterMap
          (fun s => (e.payload.map (fun f => f s)).map (.stored d (page + s)))⟩ := by
  obtain ⟨hp, hsub⟩ := hf
  have hi := hp.lt
  have hv := h.sound.busy_valid hi hp.busy
  have hw := writtenMask_subset env d snapshot
  dsimp only
  generalize writtenMask env d snapshot = written at hw ⊢
  have hat : ∀ s ∈ written, (c.entries i).at s = some (latest init log d (page + s)) := fun s hs => by
    have := h.frames i hi hv s ((h.sound.tags i hi).subset (hsub (hw hs)))
    rwa [hp.device, hp.page] at this
  have ht : Told init (((List.finRange 8).filter (· ∈ written)).filterMap
      (fun s => ((c.entries i).payload.map (fun f => f s)).map (Event.stored d (page + s)))) log := by
    refine told (fun x hx => ?_)
    obtain ⟨s, hs, v, hv, rfl⟩ := mem_storedEvents hx
    rw [hat s hs] at hv
    cases hv
    exact rfl
  have hpage : ∀ (f : Fin 8 → Option α) (s : Fin 8), putPage disk d page f d (page + s)
      = (f s).getD (disk d (page + s)) := fun f s => by
    obtain ⟨h1, h2⟩ := slot_sector h.sound hi hv s
    rw [hp.page] at h1 h2
    rw [putPage, if_pos ⟨rfl, h1⟩, h2]
  refine ⟨(h.tell ht).withDisk (fun d' l hn hx => ?_), ⟨hp, fun s hs => ⟨ht.stored d (page + s) (latest init log d (page + s)) ?_, ?_⟩⟩,
    fun j hj hb hnot => ?_, fun j hj => .inl hj, .inr rfl⟩
  · rw [ht.latest, ← h.onDisk d' l hn (fun hy => hx (.inl hy))]
    unfold putPage
    split
    · rename_i hl
      obtain ⟨rfl, hl⟩ := hl
      -- a sector that is not dirty is not in the snapshot
      have hs : sectorOf l ∉ snapshot := fun hx => hn (by
        have := (dirtyAt_iff h.sound hi hv hp.device (sectorOf l)).2 (hsub hx)
        rwa [hp.page, ← hl, pageLba_sectorOf] at this)
      beta_reduce
      rw [if_neg (fun hx => hs (hw hx)), if_neg hs]
      rfl
    · rfl
  · refine List.mem_filterMap.2 ⟨s, by simpa using hs, ?_⟩
    have := hat s hs
    unfold Entry.at at this
    rw [this]
    rfl
  · have := hat s hs
    unfold Entry.at at this
    rw [hpage, if_pos hs, this, ht.latest]
    rfl
  · refine ⟨rfl, fun s => ht.latest _ _, fun s => ht.clear _ _, fun s => if_neg (fun hx => hnot ?_)⟩
    have hvj := h.sound.busy_valid hj hb
    rw [(slot_sector h.sound hj hvj s).1] at hx
    have := h.sound.unique j i hj hi hvj hv (hx.1.trans hp.device.symm) (hx.2.trans hp.page.symm)
    simp [Task.pins, this]

/-! ## Fills -/

theorem copyInto_self (c : Cache α) (i : Nat) (m : Mask) (f : Fin 8 → α) : (c.copyInto i m f).entries i
    = { c.entries i with payload := (c.entries i).payload.map (fun g s => if s ∈ m then f s else g s) } :=
  Function.update_self ..

theorem copyInto_at {c : Cache α} (h : c.Sound) {i : Nat} (hi : i < maxEntries) (hv : (c.entries i).valid = true)
    {m : Mask} (f : Fin 8 → α) {s : Fin 8} (hs : s ∈ m) : ((c.copyInto i m f).entries i).at s = some (f s) := by
  obtain ⟨g, hg⟩ := Option.isSome_iff_exists.1 ((h.tags i hi).payload hv)
  rw [copyInto_self]
  simp [Entry.at, hg, hs]

theorem not_dirtyAt {c : Cache α} (h : c.Sound) {i d page : Nat} (hp : Pinned c i d page) {s : Fin 8}
    (hs : s ∉ (c.entries i).validMask) : ¬ DirtyAt c d (page + s) := by
  rw [← hp.page, dirtyAt_iff h hp.lt (h.busy_valid hp.lt hp.busy) hp.device]
  exact fun hx => hs ((h.tags i hp.lt).subset hx)

/-- **The transfer of a fill.** -/
theorem fill_advances {c : Cache α} (h : Base init X disk log c) {i d page : Nat} {validBefore readable : Mask}
    {second : Bool} {k : Loop α} (hf : Fits init disk log c (.fill i d page validBefore readable second k))
    (hx : Elsewhere c (Task.fill i d page validBefore readable second k).pins X) (ok : Bool) (torn : Fin 8 → α) :
    Advances init X disk log c (.fill i d page validBefore readable second k) disk
      ⟨c.copyInto i (readable \ validBefore) (fun s => if ok then disk d (page + s) else torn s),
        .filled i d page validBefore readable second ok k, []⟩ := by
  obtain ⟨hp, hvm, hr⟩ := hf
  have hi := hp.lt
  have hv := h.sound.busy_valid hi hp.busy
  have hP : i ∈ (Task.fill i d page validBefore readable second k).pins := by simp [Task.pins]
  have hdis : Disjoint (readable \ validBefore) (c.entries i).validMask := by
    rw [hvm]
    exact Finset.sdiff_disjoint
  have hk := h.effect (copyInto_effect h.sound hi hv hdis (fun s => if ok then disk d (page + s) else torn s)
    (P := (· ∈ (Task.fill i d page validBefore readable second k).pins)) (fun _ => hP))
  refine ⟨hk.base.mono (fun d l hx => .inl hx), ⟨⟨hi, ?_, ?_, ?_⟩, ?_, hr, fun hok s hs => ?_⟩, fun j hj hb hn => ?_,
    fun j hj => .inl hj, .inr rfl⟩
  · rw [copyInto_self]
    exact hp.busy
  · rw [copyInto_self]
    exact hp.device
  · rw [copyInto_self]
    exact hp.page
  · rw [copyInto_self]
    exact hvm
  · rw [copyInto_at h.sound hi hv _ hs, if_pos hok]
    congr 1
    exact h.onDisk d _ (not_dirtyAt h.sound hp (by rw [hvm]; exact (Finset.mem_sdiff.1 hs).2))
      (hx.not h.sound hp hP s)
  · exact ⟨hk.pinned j hj hb hn, fun s => rfl, fun s => id, fun s => rfl⟩

theorem finishFill_advances {c : Cache α} (h : Base init X disk log c) (env : Env α) {i d page : Nat}
    {validBefore readable : Mask} {second ok : Bool} {k : Loop α}
    (hf : Fits init disk log c (.filled i d page validBefore readable second ok k)) :
    Advances init X disk log c (.filled i d page validBefore readable second ok k) disk
      (c.finishFill env i validBefore readable second ok k) := by
  obtain ⟨hp, hvm, hr, hd⟩ := hf
  have hi := hp.lt
  have hP : i ∈ (Task.filled i d page validBefore readable second ok k).pins := by simp [Task.pins]
  have h1 := h.effect (unpinEntry_effect h.sound hi hp.busy (decide ((c.entries i).dirtyMask ≠ ∅))
    (P := (· ∈ (Task.filled i d page validBefore readable second ok k).pins)) hP)
  have he := unpinEntry_self c i (decide ((c.entries i).dirtyMask ≠ ∅))
  have hv1 : ((c.unpinEntry i (decide ((c.entries i).dirtyMask ≠ ∅))).entries i).valid = true := by
    rw [he]
    exact h.sound.busy_valid hi hp.busy
  have hd1 : ((c.unpinEntry i (decide ((c.entries i).dirtyMask ≠ ∅))).entries i).device = d := by
    rw [he]
    exact hp.device
  have hp1 : ((c.unpinEntry i (decide ((c.entries i).dirtyMask ≠ ∅))).entries i).page = page := by
    rw [he]
    exact hp.page
  have hvm1 : ((c.unpinEntry i (decide ((c.entries i).dirtyMask ≠ ∅))).entries i).validMask = validBefore := by
    rw [he]
    exact hvm
  unfold finishFill
  dsimp only
  split
  · rename_i hok
    have h2 : Keeps init X disk log (· ∈ (Task.filled i d page validBefore readable second ok k).pins)
        (c.unpinEntry i (decide ((c.entries i).dirtyMask ≠ ∅)))
        ((c.unpinEntry i (decide ((c.entries i).dirtyMask ≠ ∅))).setValidMask i (validBefore ∪ readable)) := by
      refine h1.base.publish hi hv1 (by rw [hvm1]; exact Finset.subset_union_left) (fun s hs hn => ?_) (fun _ => hP)
      rw [hvm1] at hn
      rw [hd1, hp1, he]
      exact hd hok s (Finset.mem_sdiff.2 ⟨(Finset.mem_union.1 hs).resolve_left hn, hn⟩)
    have he2 : ((c.unpinEntry i (decide ((c.entries i).dirtyMask ≠ ∅))).setValidMask i (validBefore ∪ readable)).entries i
        = { (c.unpinEntry i (decide ((c.entries i).dirtyMask ≠ ∅))).entries i with validMask := validBefore ∪ readable } :=
      Function.update_self ..
    refine Advances.quiet (h1.trans h2) (afterFill_quietly h2.base.sound hi (fun _ => hr.holds ?_ ?_ ?_)) rfl
    · rw [he2]
      exact hv1
    · rw [he2]
      exact hd1
    · rw [he2]
      exact hp1
  · split
    · exact Advances.quiet h1 (afterFill_quietly h1.base.sound hi (fun hx => by cases hx)) rfl
    · have hb1 : ((c.unpinEntry i (decide ((c.entries i).dirtyMask ≠ ∅))).entries i).ioBusy = false := by rw [he]
      exact Advances.quiet h1 (proceed_quietly h1.base.sound hi hv1 hd1 hp1 hr
        (retryFill_quietly h1.base.sound env hi hv1 hb1 hd1 hp1 hr)) rfl

/-- **The transfer of a run of fills.** -/
theorem fillRun_advances {c : Cache α} (h : Base init X disk log c) {d first n : Nat} {slots : List (Nat × Mask)}
    {ownsRetry : Bool} {i : Nat} {k : Loop α} (hf : Fits init disk log c (.fillRun d first n slots ownsRetry i k))
    (hx : Elsewhere c (Task.fillRun d first n slots ownsRetry i k).pins X) (ok : Bool) :
    Advances init X disk log c (.fillRun d first n slots ownsRetry i k) disk
      ⟨c, .filledRun d first n slots (fun j => disk d (first + j)) ok i k, []⟩ := by
  obtain ⟨hp, hh, hr⟩ := hf
  refine ⟨h.mono (fun d l hx => .inl hx), ⟨hp, hh, hr, fun j hj hn => ?_⟩, fun j hj hb hn => ⟨rfl, fun s => rfl,
    fun s => id, fun s => rfl⟩, fun j hj => .inl hj, .inr rfl⟩
  refine h.onDisk d _ hn (fun hX => ?_)
  obtain ⟨m, hm, p, s, hpin, he⟩ := hp.sector j hj
  rw [he] at hX
  exact hx.not h.sound hpin hm s hX

/-- The staged data of a run are the last writes' wherever a slot has no valid sector of its own. -/
def Staged (init : Nat → Nat → α) (log : List (Event α)) (d : Nat) (staging : Nat → α) :
    Nat → Nat → List (Nat × Mask) → Prop
  | _, _, [] => True
  | page, offset, (_, validBefore) :: rest =>
    (∀ s : Fin 8, s ∉ validBefore → staging (offset + s) = latest init log d (page + s)) ∧
      Staged init log d staging (page + pageSectors) (offset + pageSectors) rest

theorem RunPinned.staged {c : Cache α} (h : c.Sound) {d n : Nat} {staging : Nat → α} :
    ∀ {slots : List (Nat × Mask)} {page offset : Nat}, RunPinned c d n page slots →
      (∀ j < 8 * slots.length, ¬ DirtyAt c d (page + j) → staging (offset + j) = latest init log d (page + j)) →
      Staged init log d staging page offset slots
  | [], _, _, _, _ => trivial
  | (i, m) :: rest, page, offset, ⟨h1, h2, _, h4⟩, hs => by
    refine ⟨fun s hn => ?_, RunPinned.staged h h4 (fun j hj hn => ?_)⟩
    · refine hs s ?_ (not_dirtyAt h h1 (by rw [h2]; exact hn))
      rw [List.length_cons]
      have := s.isLt
      omega
    · have := hs (pageSectors + j) (by rw [List.length_cons]; unfold pageSectors; omega)
      rw [← Nat.add_assoc, ← Nat.add_assoc] at this
      exact this hn

theorem RunPinned.page_le {c : Cache α} {d n : Nat} : ∀ {slots : List (Nat × Mask)} {page : Nat},
    RunPinned c d n page slots → ∀ i ∈ slots.map Prod.fst, page ≤ (c.entries i).page
  | [], _, _, i, hi => by cases hi
  | (j, m) :: rest, page, ⟨h1, _, _, h4⟩, i, hi => by
    rcases List.mem_cons.1 hi with rfl | hi
    · exact Nat.le_of_eq h1.page.symm
    · exact Nat.le_trans (Nat.le_add_right _ _) (RunPinned.page_le h4 i hi)

theorem RunPinned.head_notin {c : Cache α} {d n i page : Nat} {m : Mask} {rest : List (Nat × Mask)}
    (h : RunPinned c d n page ((i, m) :: rest)) : i ∉ rest.map Prod.fst := by
  intro hi
  have := RunPinned.page_le h.2.2.2 i hi
  rw [h.1.page] at this
  unfold pageSectors at this
  omega

/-- One page of a run, published or not, and unpinned. -/
def finishSlot (c : Cache α) (i n offset : Nat) (staging : Nat → α) (validBefore : Mask) (ok : Bool) : Cache α :=
  let c := if ok then
      (c.copyInto i (readableMask n \ validBefore) (fun s => staging (offset + s))).setValidMask i
        (validBefore ∪ readableMask n)
    else c
  let c := c.unpinEntry i (!ok || decide ((c.entries i).dirtyMask ≠ ∅))
  if ok = false ∧ (c.entries i).validMask = ∅ ∧ (c.entries i).dirtyMask = ∅ then c.clearEntry i else c

theorem slotStands_of_pinned {c : Cache α} (h : c.Sound) {i d page : Nat} (hp : Pinned c i d page) :
    c.slotStands d page i = true := by
  unfold slotStands
  simp [h.busy_valid hp.lt hp.busy, hp.device, hp.page, hp.busy]

theorem finishSlots_cons {c : Cache α} (h : c.Sound) {d page i : Nat} (hp : Pinned c i d page) (n offset : Nat)
    (staging : Nat → α) (validBefore : Mask) (rest : List (Nat × Mask)) (ok : Bool) :
    finishSlots d n staging c ((i, validBefore) :: rest) page offset ok
      = finishSlots d n staging (c.finishSlot i (readableSectors n page) offset staging validBefore ok) rest
        (page + pageSectors) (offset + readableSectors n page) ok := by
  have hs := slotStands_of_pinned h hp
  conv_lhs => unfold finishSlots
  rw [hs, if_neg (by decide)]
  rfl

theorem finishSlot_other (c : Cache α) {i : Nat} (hi : i < maxEntries) (n offset : Nat) (staging : Nat → α)
    (validBefore : Mask) (ok : Bool) {j : Nat} (hj : j ≠ i) :
    (c.finishSlot i n offset staging validBefore ok).entries j = c.entries j := by
  have cleared : ∀ (q : Prop) [Decidable q] (c1 : Cache α),
      (if q then c1.clearEntry i else c1).entries j = c1.entries j := fun q _ c1 => by
    split
    · rw [clearEntry_entries hi, Function.update_of_ne hj]
    · rfl
  unfold finishSlot
  dsimp only
  rw [cleared]
  cases ok <;> simp [unpinEntry, setIndex, setEntry, setValidMask, copyInto, Function.update_of_ne hj]

theorem finishSlot_self (c : Cache α) (i n offset : Nat) (staging : Nat → α) (validBefore : Mask) :
    ((c.finishSlot i n offset staging validBefore true).entries i).valid = (c.entries i).valid ∧
      ((c.finishSlot i n offset staging validBefore true).entries i).device = (c.entries i).device ∧
      ((c.finishSlot i n offset staging validBefore true).entries i).page = (c.entries i).page := by
  unfold finishSlot
  dsimp only
  rw [if_neg (by simp), if_pos rfl, unpinEntry_self]
  simp [setValidMask, copyInto, setEntry]

/-- **A page of a run is published with the last writes' data.** -/
theorem finishSlot_keeps {c : Cache α} (h : Base init X disk log c) {i d page : Nat} (hp : Pinned c i d page)
    {validBefore : Mask} (hvm : (c.entries i).validMask = validBefore) {staging : Nat → α} {offset : Nat}
    (hs : ∀ s : Fin 8, s ∉ validBefore → staging (offset + s) = latest init log d (page + s)) (n : Nat) (ok : Bool) :
    Keeps init X disk log (· = i) c (c.finishSlot i n offset staging validBefore ok) := by
  have hi := hp.lt
  have hv := h.sound.busy_valid hi hp.busy
  have close : ∀ c1 : Cache α, Keeps init X disk log (· = i) c c1 → (c1.entries i).ioBusy = true →
      ∀ (oldest : Bool) (q : Prop) [Decidable q], (q → ((c1.unpinEntry i oldest).entries i).dirtyMask = ∅) →
        Keeps init X disk log (· = i) c
          (if q then (c1.unpinEntry i oldest).clearEntry i else c1.unpinEntry i oldest) := by
    intro c1 h1 hb oldest q _ hq
    have h2 := h1.trans (h1.base.effect (unpinEntry_effect h1.base.sound hi hb oldest (P := (· = i)) rfl))
    refine h2.trans ((h2.base.effect (clearEntry_when h2.base.sound hi ?_ (fun hx => ⟨?_, hq hx⟩))).mono
      (fun _ hx => hx.elim))
    · rw [unpinEntry_self]
    · rw [unpinEntry_self]
      exact h1.base.sound.busy_valid hi hb
  unfold finishSlot
  dsimp only
  cases ok with
  | false =>
    exact close c (Keeps.refl h _) hp.busy _ _ (fun hx => hx.2.2)
  | true =>
    have hdis : Disjoint (readableMask n \ validBefore) (c.entries i).validMask := by
      rw [hvm]
      exact Finset.sdiff_disjoint
    have h1 := h.effect (copyInto_effect h.sound hi hv hdis (fun s => staging (offset + s)) (P := (· = i))
      (fun _ => rfl))
    have he := copyInto_self c i (readableMask n \ validBefore) (fun s => staging (offset + s.val))
    have h2 : Keeps init X disk log (· = i) (c.copyInto i (readableMask n \ validBefore) (fun s => staging (offset + s)))
        ((c.copyInto i (readableMask n \ validBefore) (fun s => staging (offset + s))).setValidMask i
          (validBefore ∪ readableMask n)) := by
      refine h1.base.publish hi (by rw [he]; exact hv) ?_ (fun s hs' hn => ?_) (fun _ => rfl)
      · rw [he]
        dsimp only
        rw [hvm]
        exact Finset.subset_union_left
      · have hn' : s ∉ validBefore := by
          rw [he] at hn
          dsimp only at hn
          rwa [hvm] at hn
        have hm := Finset.mem_sdiff.2 ⟨(Finset.mem_union.1 hs').resolve_left hn', hn'⟩
        rw [copyInto_at h.sound hi hv _ hm, he]
        dsimp only
        rw [hp.device, hp.page, hs s hn']
    refine close _ (h1.trans h2) ?_ _ _ (fun hx => by cases hx.1)
    have : ((c.copyInto i (readableMask n \ validBefore) (fun s => staging (offset + s))).setValidMask i
        (validBefore ∪ readableMask n)).entries i = { (c.copyInto i (readableMask n \ validBefore)
          (fun s => staging (offset + s))).entries i with validMask := validBefore ∪ readableMask n } :=
      Function.update_self ..
    rw [this, he]
    exact hp.busy

/-- **The pages of a run**, one after another. -/
theorem finishSlots_keeps {d n : Nat} {staging : Nat → α} : ∀ (slots : List (Nat × Mask)) (page offset : Nat) (ok : Bool)
    (c : Cache α), Base init X disk log c → RunPinned c d n page slots → Staged init log d staging page offset slots →
      Keeps init X disk log (· ∈ slots.map Prod.fst) c (finishSlots d n staging c slots page offset ok).1 ∧
        ((finishSlots d n staging c slots page offset ok).2 = true → ok = true) ∧
        ∀ j, j ∉ slots.map Prod.fst → (finishSlots d n staging c slots page offset ok).1.entries j = c.entries j
  | [], page, offset, ok, c, h, _, _ => ⟨Keeps.refl h _, id, fun _ _ => rfl⟩
  | (i, m) :: rest, page, offset, ok, c, h, hr, hs => by
    obtain ⟨hp, hvm, hfull, hrest⟩ := hr
    rw [finishSlots_cons h.sound hp]
    have h1 := finishSlot_keeps h hp hvm hs.1 (readableSectors n page) ok
    have hother : ∀ j, j ≠ i → (c.finishSlot i (readableSectors n page) offset staging m ok).entries j = c.entries j :=
      fun j hj => finishSlot_other c hp.lt _ _ _ _ _ hj
    have hout := RunPinned.head_notin (c := c) (d := d) (n := n) ⟨hp, hvm, hfull, hrest⟩
    have hrest1 : RunPinned (c.finishSlot i (readableSectors n page) offset staging m ok) d n (page + pageSectors) rest :=
      hrest.same (fun j hj => hother j (fun hx => hout (hx ▸ hj)))
    have hs1 : Staged init log d staging (page + pageSectors) (offset + readableSectors n page) rest := by
      cases rest with
      | nil => trivial
      | cons x rest =>
        rw [hfull (by simp)]
        exact hs.2
    obtain ⟨h2, h3, h4⟩ := finishSlots_keeps rest (page + pageSectors) (offset + readableSectors n page) ok _ h1.base hrest1
      hs1
    refine ⟨(h1.mono (fun j hj => by simp [hj])).trans (h2.mono (fun j hj => List.mem_cons_of_mem _ hj)), h3,
      fun j hj => ?_⟩
    rw [h4 j (fun hx => hj (List.mem_cons_of_mem _ hx)), hother j (fun hx => hj (by simp [hx]))]

theorem finishRun_advances {c : Cache α} (h : Base init X disk log c) {d first n : Nat} {slots : List (Nat × Mask)}
    {staging : Nat → α} {ok : Bool} {i : Nat} {k : Loop α}
    (hf : Fits init disk log c (.filledRun d first n slots staging ok i k)) :
    Advances init X disk log c (.filledRun d first n slots staging ok i k) disk
      (c.finishRun d first n slots staging ok i k) := by
  obtain ⟨hr, hh, hk, hs⟩ := hf
  have hst : Staged init log d staging first 0 slots :=
    hr.staged h.sound (fun j hj hn => by rw [Nat.zero_add]; exact hs j hj hn)
  obtain ⟨h1, h2, h3⟩ := finishSlots_keeps slots first 0 (ok && c.runStands d slots first) c h hr hst
  cases slots with
  | nil => cases hh
  | cons x rest =>
    obtain ⟨j, m⟩ := x
    have hji : j = i := by simpa using hh
    subst hji
    obtain ⟨hp, hvm, hfull, hrest⟩ := hr
    refine Advances.quiet h1 (afterFill_quietly h1.base.sound hp.lt (fun hok => ?_)) rfl
    have hok' := h2 hok
    rw [hok'] at h1 h2 h3 hok ⊢
    rw [finishSlots_cons h.sound hp]
    have hout := RunPinned.head_notin (c := c) (d := d) (n := n) ⟨hp, hvm, hfull, hrest⟩
    have h4 := finishSlot_keeps h hp hvm hst.1 (readableSectors n first) true
    have hs1 : Staged init log d staging (first + pageSectors) (0 + readableSectors n first) rest := by
      cases rest with
      | nil => trivial
      | cons x rest =>
        rw [hfull (by simp)]
        exact hst.2
    have hrest1 : RunPinned (c.finishSlot j (readableSectors n first) 0 staging m true) d n (first + pageSectors) rest :=
      hrest.same (fun l hl => finishSlot_other c hp.lt _ _ _ _ _ (fun hx => hout (hx ▸ hl)))
    obtain ⟨_, _, h5⟩ := finishSlots_keeps rest (first + pageSectors) (0 + readableSectors n first) true _ h4.base hrest1 hs1
    obtain ⟨e1, e2, e3⟩ := finishSlot_self c j (readableSectors n first) 0 staging m
    refine hk.holds ?_ ?_ ?_ <;> rw [h5 j hout]
    · rw [e1]
      exact h.sound.busy_valid hp.lt hp.busy
    · rw [e2]
      exact hp.device
    · rw [e3]
      exact hp.page

/-! ## Direct writes -/

theorem PinStep.advances {c : Cache α} (h : Base init X disk log c) {t : Task α} {r : Section α}
    (hp : PinStep t.pins c r) : Advances init X disk log c t disk r := by
  obtain ⟨he, hidle, hflush, hready, hev⟩ := hp
  have hk := h.effect he
  rw [show r = ⟨r.cache, r.task, []⟩ by rw [← hev]]
  exact ⟨hk.base.mono (fun d l hx => .inl hx), hready.fits hk.base, fun j hj hb hn => ⟨hk.pinned j hj hb hn,
    fun s => rfl, fun s => id, fun s => rfl⟩, hidle, .inl hflush⟩

theorem pinPages_advances {c : Cache α} (h : Base init X disk log c) (env : Env α) {d lba : Nat} {data : List α}
    {offset : Nat} {owned reserved : List Nat}
    (hf : Fits init disk log c (.pinPages d lba data offset owned reserved)) :
    Advances init X disk log c (.pinPages d lba data offset owned reserved) disk
      (if data.length ≤ offset then ⟨c, .direct d lba data owned reserved, []⟩
        else c.pinNext env d lba data offset owned reserved) := by
  obtain ⟨hle, ho⟩ := hf
  split
  · rename_i hge
    have : offset = data.length := Nat.le_antisymm hle hge
    subst this
    exact PinStep.advances h ⟨(Effect.refl h.sound).weaken _, fun i hi => .inl hi, rfl, ho, rfl⟩
  · rename_i hlt
    exact PinStep.advances h (pinNext_spec h.sound env ho (by omega) reserved)

theorem Owns.outside {c : Cache α} (h : c.Sound) {d lba n : Nat} {owned : List Nat} (ho : Owns c d lba n owned)
    {m : Nat} (hm : m ≤ n) {j : Nat} (hj : j < maxEntries) (hb : (c.entries j).ioBusy = true) (hn : j ∉ owned)
    (s : Fin 8) : ¬ Range d lba m (c.entries j).device ((c.entries j).page + s) := by
  rintro ⟨hd, hl, hu⟩
  obtain ⟨i, hi, hp⟩ := ho.covers ((c.entries j).page + s - lba) (by omega)
  rw [show lba + ((c.entries j).page + s.val - lba) = (c.entries j).page + s by omega] at hp
  have hvj := h.busy_valid hj hb
  rw [(slot_sector h hj hvj s).1] at hp
  have := h.unique i j hp.lt hj (h.busy_valid hp.lt hp.busy) hvj (hp.device.trans hd.symm) hp.page
  exact hn (this ▸ hi)

/-- **The transfer of a direct write.** -/
theorem direct_advances {c : Cache α} (h : Base init X disk log c) {d lba : Nat} {data : List α}
    {owned reserved : List Nat} (hf : Fits init disk log c (.direct d lba data owned reserved)) {completed : Nat}
    (hc : completed ≤ data.length) :
    Advances init X disk log c (.direct d lba data owned reserved) (putSectors disk d lba data completed)
      ⟨c, .wroteDirect d lba data completed owned reserved, []⟩ := by
  have hout : ∀ d' l, ¬ Range d lba completed d' l → putSectors disk d lba data completed d' l = disk d' l :=
    fun d' l hn => if_neg (fun hx => hn ⟨hx.1, hx.2.1, by omega⟩)
  refine ⟨h.withDisk (fun d' l hn hx => ?_), ⟨hf, hc, fun j hj => ?_⟩, fun j hj hb hn => ⟨rfl, fun s => rfl, fun s => id,
    fun s => hout _ _ (Owns.outside h.sound hf hc hj hb hn s)⟩, fun j hj => .inl hj, .inr rfl⟩
  · rw [hout d' l (fun hy => hx (.inr hy))]
    exact h.onDisk d' l hn (fun hy => hx (.inl hy))
  · unfold putSectors
    rw [if_pos ⟨rfl, by omega, by omega⟩, Nat.add_sub_cancel_left]
    rw [List.getElem?_eq_getElem (by omega)]
    rfl

/-- **The completion of a direct write**: the sectors reported complete are written, and gone from the cache. -/
theorem wroteDirect_advances {c : Cache α} {d lba : Nat} {data : List α} {completed : Nat} {owned reserved : List Nat}
    (h : Base init (fun d' l => X d' l ∨ Range d lba completed d' l) disk log c)
    (hf : Fits init disk log c (.wroteDirect d lba data completed owned reserved)) :
    Advances init X disk log c (.wroteDirect d lba data completed owned reserved) disk
      ⟨completePages d lba data.length completed owned reserved data.length 0 c, .idle,
        (data.take completed).zipIdx.map (fun p => .direct d (lba + p.2) p.1)⟩ := by
  obtain ⟨ho, hc, hd⟩ := hf
  have he := completePages_effect d lba data.length completed owned reserved data.length 0 c h.sound (by omega)
    (fun j _ hj => ho.covers j hj) hc
  have hov := overwritten init d lba log (data.take completed) 0
  have hlen : (data.take completed).length = completed := by
    rw [List.length_take]
    omega
  obtain ⟨h1, h2, h3, h4, h5, h6⟩ := hov
  rw [hlen] at h2 h3 h4
  simp only [Nat.add_zero, Nat.sub_zero] at he h1 h2 h3 h4
  have hlog : (data.take completed).zipIdx.map (fun p => Event.direct d (lba + p.2) p.1)
      = directEvents d lba 0 (data.take completed) := rfl
  rw [hlog]
  refine ⟨⟨he.sound, fun i hi hv s hs => ?_, fun i hi hv s hs => ?_, fun d' l hn => ?_, fun d' l hn hx => ?_,
    h5 h.honest, h6 h.flushes⟩, trivial, fun j hj hb hn => ⟨he.pinned j hj hb hn, fun s => ?_, fun s hcl => ?_,
    fun s => rfl⟩, (fun j hj => by cases hj), .inl rfl⟩
  · rw [h2 _ _ (he.gone i hi hv s hs)]
    obtain ⟨k1, k2, k3, k4, k5, _⟩ := he.kept i hi hv s hs
    rw [k5, k2, k3]
    exact h.frames i hi k1 s k4
  · have hsv := (he.sound.tags i hi).subset hs
    rw [h3 _ _ (he.gone i hi hv s hsv)]
    obtain ⟨k1, k2, k3, _, _, k6, k7⟩ := he.kept i hi hv s hsv
    rw [k2, k3, k7]
    exact h.owners i hi k1 s (k6.1 hs)
  · by_cases hr : Range d lba completed d' l
    · exact h4 d' l (.inr hr)
    · exact h4 d' l (.inl (h.owed d' l (fun hx => hn (he.dirtyAt hx hr))))
  · by_cases hr : Range d lba completed d' l
    · obtain ⟨rfl, hl, hu⟩ := hr
      have hj := hd (l - lba) (by omega)
      rw [show lba + (l - lba) = l by omega] at hj
      have := h1 (l - lba) (disk d' l) (by rw [List.getElem?_take, if_pos (by omega)]; exact hj)
      rw [show lba + (l - lba) = l by omega] at this
      exact this.symm
    · rw [h2 d' l hr]
      exact h.onDisk d' l (fun hx => hn (he.dirtyAt hx hr)) (fun hy => hy.elim (fun hy => hx (.inl hy)) hr)
  · exact h2 _ _ (ho.outside h.sound hc hj hb hn s)
  · exact h4 _ _ (.inl hcl)

/-! ## Barriers -/

theorem barrier_advances {c : Cache α} (h : Base init X disk log c) (env : Env α) {d : Nat} {batch : Option Nat}
    {since : Nat} (hf : Fits init disk log c (.barrier d batch since)) :
    Advances init X disk log c (.barrier d batch since) disk
      ⟨c, .idle, if env.flush then [.flushed d batch since] else []⟩ := by
  cases env.flush with
  | false => exact Advances.quiet (Keeps.refl h _) (Quietly.idleTask (Effect.refl h.sound)) rfl
  | true =>
    refine ⟨⟨h.sound, h.frames, h.owners, h.owed, fun d' l hn hx => h.onDisk d' l hn (fun hy => hx (.inl hy)), h.honest,
      ⟨hf, h.flushes⟩⟩, trivial, fun i _ _ _ => ⟨rfl, fun s => rfl, fun s => id, fun s => rfl⟩,
      (fun i hi => by cases hi), .inl rfl⟩

end Cache
end PageCache
end R4
