import R4Recovery.PageCacheLoops
/-!
# PageCachePins — what a task does to the pages it has pinned

Direct writes pin every page they touch, and give the pins back when they are done or when one page is not to be had.
A completed direct write takes its sectors out of the cache.
-/
namespace R4
namespace PageCache

open PageIndex LinkedQueue

variable {α : Type}

namespace Cache

theorem Effect.next {c c1 c2 : Cache α} {P : Nat → Prop} {K : Nat → Nat → Prop} (h1 : Effect P K c c1)
    (h2 : Effect P (fun _ _ => False) c1 c2) : Effect P K c c2 :=
  (Effect.trans h1 h2).mono (by simp) (by simp)

theorem Calm.weaken {c c' : Cache α} (h : Calm c c') (P : Nat → Prop) : Effect P (fun _ _ => False) c c' :=
  h.mono (fun _ hx => hx.elim) (fun _ _ => Iff.rfl)

theorem clearEntry_when {c : Cache α} (h : c.Sound) {i : Nat} (hi : i < maxEntries) (hb : (c.entries i).ioBusy = false)
    {q : Prop} [Decidable q] (hq : q → (c.entries i).valid = true ∧ (c.entries i).dirtyMask = ∅) :
    Calm c (if q then c.clearEntry i else c) := by
  split
  · rename_i hx
    exact clearEntry_calm h hi (hq hx).1 hb (hq hx).2
  · exact Effect.refl h

/-! ## Giving pins back -/

theorem releasePin_effect {c : Cache α} (h : c.Sound) {i : Nat} (hi : i < maxEntries) (reserved : List Nat)
    {P : Nat → Prop} (hP : P i) : Effect P (fun _ _ => False) c (c.releasePin reserved i) := by
  unfold releasePin
  dsimp only
  cases hb : (c.entries i).ioBusy with
  | true =>
    simp only [if_true]
    have h1 := unpinEntry_effect h hi hb (decide ((c.entries i).dirtyMask ≠ ∅)) hP
    have hidle : ((c.unpinEntry i (decide ((c.entries i).dirtyMask ≠ ∅))).entries i).ioBusy = false := by
      rw [unpinEntry_self]
    exact h1.next ((clearEntry_when h1.sound hi hidle (fun hq => ⟨hq.2.1, hq.2.2.2⟩)).weaken P)
  | false =>
    simp only [Bool.false_eq_true, if_false]
    exact (clearEntry_when h hi hb (fun hq => ⟨hq.2.1, hq.2.2.2⟩)).weaken P

theorem releasePins_effect (reserved : List Nat) {P : Nat → Prop} : ∀ (l : List Nat) (c : Cache α), c.Sound →
    (∀ i ∈ l, i < maxEntries ∧ P i) → Effect P (fun _ _ => False) c (l.foldl (fun c i => c.releasePin reserved i) c)
  | [], c, h, _ => (Effect.refl h).weaken P
  | i :: l, c, h, hl => by
    have h1 := releasePin_effect h (hl i (by simp)).1 reserved (hl i (by simp)).2
    exact h1.next (releasePins_effect reserved l _ h1.sound (fun j hj => hl j (List.mem_cons_of_mem _ hj)))

theorem releaseDirectWritePins_effect {c : Cache α} (h : c.Sound) (owned reserved : List Nat) :
    Effect (· ∈ owned) (fun _ _ => False) c (c.releaseDirectWritePins owned reserved) := by
  refine releasePins_effect reserved _ c h (fun i hi => ?_)
  obtain ⟨h1, h2⟩ := List.mem_filter.1 hi
  exact ⟨List.mem_range.1 h1, by simpa using h2⟩

/-! ## Taking them -/

theorem same_page {cur left j : Nat} (h : j < spanOf cur left) : pageLba (cur + j) = pageLba cur := by
  unfold spanOf pageSectors at h
  unfold pageLba pageSectors
  omega

theorem Owns.calm {c c' : Cache α} {d lba n : Nat} {owned : List Nat} (h : Owns c d lba n owned) (hc : Calm c c') :
    Owns c' d lba n owned where
  covers := fun j hj => by
    obtain ⟨i, hi, hp⟩ := h.covers j hj
    exact ⟨i, hi, (hp.calm hc).1⟩
  within := fun i hi => by
    obtain ⟨j, hj, hp⟩ := h.within i hi
    exact ⟨j, hj, (hp.calm hc).1⟩

theorem Owns.push {c : Cache α} {d lba offset left i : Nat} {owned : List Nat} (h : Owns c d lba offset owned)
    (hl : 0 < left) (hp : Pinned c i d (pageLba (lba + offset))) :
    Owns c d lba (offset + spanOf (lba + offset) left) (i :: owned) where
  covers := fun j hj => by
    by_cases hjo : j < offset
    · obtain ⟨k, hk, hpk⟩ := h.covers j hjo
      exact ⟨k, List.mem_cons_of_mem _ hk, hpk⟩
    · have hs : pageLba (lba + j) = pageLba (lba + offset) := by
        have hsame : pageLba (lba + offset + (j - offset)) = pageLba (lba + offset) :=
          same_page (show j - offset < spanOf (lba + offset) left by omega)
        rw [← hsame]
        congr 1
        omega
      exact ⟨i, by simp, by rw [hs]; exact hp⟩
  within := fun k hk => by
    have hpos : 0 < spanOf (lba + offset) left := by
      unfold spanOf pageSectors
      omega
    rcases List.mem_cons.1 hk with rfl | hk
    · exact ⟨offset, by omega, hp⟩
    · obtain ⟨j, hj, hpj⟩ := h.within k hk
      exact ⟨j, by omega, hpj⟩

/-- What a section of a task with pins leaves: the rest of the cache calm, the new pins taken from idle slots. -/
structure PinStep (owned : List Nat) (c : Cache α) (r : Section α) : Prop where
  effect : Effect (· ∈ owned) (fun _ _ => False) c r.cache
  idle : ∀ i ∈ r.task.pins, i ∈ owned ∨ (c.entries i).ioBusy = false
  flush : r.task.flush = none
  ready : Ready r.cache r.task
  events : r.events = []

theorem pinNext_spec {c : Cache α} (h : c.Sound) (env : Env α) {d lba : Nat} {data : List α} {offset : Nat}
    {owned : List Nat} (ho : Owns c d lba offset owned) (hlt : offset < data.length) (reserved : List Nat) :
    PinStep owned c (c.pinNext env d lba data offset owned reserved) := by
  obtain ⟨h1, h2⟩ := findOrCreate_spec h env (pageLba_aligned (lba + offset)) (d := d)
  have give : ∀ c1 : Cache α, Calm c c1 → PinStep owned c ⟨c1.releaseDirectWritePins owned reserved, .idle, []⟩ := by
    intro c1 hc
    have h1 := releaseDirectWritePins_effect hc.sound owned reserved
    refine ⟨?_, ?_, rfl, trivial, rfl⟩
    · dsimp only
      exact Calm.then hc h1
    · intro i hi
      cases hi
  unfold pinNext
  dsimp only
  rcases hfc : c.findOrCreate env d (pageLba (lba + offset)) with ⟨c1, r⟩
  rw [hfc] at h1 h2
  cases r with
  | none => exact give c1 h1
  | some i =>
    obtain ⟨hi, hv, hd, hp, hbusy⟩ := h2 i rfl
    dsimp only at h1 hv hd hp hbusy ⊢
    split
    · exact ⟨h1.weaken _, fun j hj => .inl hj, rfl, ⟨Nat.le_of_lt hlt, ho.calm h1⟩, rfl⟩
    · rename_i hb
      have hb : (c1.entries i).ioBusy = false := by simpa using hb
      split
      · exact give c1 h1
      · obtain ⟨_, hcalm⟩ := pinEntry_calm h1.sound hi hv hb
        obtain ⟨hpin, _, _⟩ := pinEntry_pinned (c := c1) hi
        rw [hd, hp] at hpin
        refine ⟨(h1.trans hcalm).weaken _, fun j hj => ?_, rfl, ⟨?_, ?_⟩, rfl⟩
        · rcases List.mem_cons.1 hj with rfl | hj
          · exact .inr (by rw [← hbusy]; exact hb)
          · exact .inl hj
        · unfold spanOf
          omega
        · exact (ho.calm (h1.trans hcalm)).push (by omega) hpin

/-! ## Completed direct writes -/

theorem Sound.same_sector {c : Cache α} (h : c.Sound) {i j : Nat} (hi : i < maxEntries) (hj : j < maxEntries)
    (hvi : (c.entries i).valid = true) (hvj : (c.entries j).valid = true)
    (hd : (c.entries i).device = (c.entries j).device) {s t : Fin 8}
    (hp : (c.entries i).page + s = (c.entries j).page + t) : i = j ∧ s = t := by
  have h1 := (h.tags i hi).aligned hvi
  have h2 := (h.tags j hj).aligned hvj
  refine ⟨h.unique i j hi hj hvi hvj hd (by omega), ?_⟩
  apply Fin.ext
  omega

/-- The sectors `[cur, cur + n)` of the device. -/
def Range (d cur n : Nat) : Nat → Nat → Prop := fun d' l => d' = d ∧ cur ≤ l ∧ l < cur + n

theorem mem_spanMask {d cur n : Nat} {s : Fin 8} :
    s ∈ spanMask cur n ↔ Range d cur n d (pageLba cur + s) := by
  unfold spanMask Range pageLba pageSectors
  simp only [Finset.mem_filter, Finset.mem_univ, true_and]
  omega

theorem dropSpan_effect {c : Cache α} (h : c.Sound) {i d cur n : Nat} (hp : Pinned c i d (pageLba cur))
    (hn : cur % 8 + n ≤ 8) :
    let c1 := c.clearDirtyBits i (spanMask cur n)
    let c2 := c1.setValidMask i ((c1.entries i).validMask \ spanMask cur n)
    Effect (· = i) (Range d cur n) c c2 ∧ (c2.entries i).ioBusy = true ∧ (c2.entries i).valid = true := by
  have hi := hp.lt
  have hv := h.busy_valid hi hp.busy
  have hf := h.tags i hi
  obtain ⟨h1, e, he, hcl⟩ := clearDirtyBits_spec h hi hv (spanMask cur n)
  dsimp only
  have hself : (c.clearDirtyBits i (spanMask cur n)).entries i = e := by rw [he, Function.update_self]
  rw [hself]
  have h2 : ((c.clearDirtyBits i (spanMask cur n)).setValidMask i (e.validMask \ spanMask cur n)).entries
      = Function.update c.entries i { e with validMask := e.validMask \ spanMask cur n } := by
    simp [setValidMask, setEntry, he]
  have hs2 : ((c.clearDirtyBits i (spanMask cur n)).setValidMask i (e.validMask \ spanMask cur n)).Sound := by
    refine setValidMask_sound h1 hi (by rw [hself, hcl.valid, hv]) ?_
    rw [hself, hcl.dirty, hcl.validMask]
    exact Finset.sdiff_subset_sdiff hf.subset (Finset.Subset.refl _)
  refine ⟨Effect.one hs2 h2 (fun _ s hs => ?_) (fun _ s hs hk => ?_) (fun j hj hvj s hs hk => ?_) (fun _ => rfl), ?_, ?_⟩
  · obtain ⟨hs1, hs3⟩ := Finset.mem_sdiff.1 hs
    refine ⟨hv, hcl.device, hcl.page, hcl.validMask ▸ hs1, ?_, ?_, hcl.owner s hs3⟩
    · simp only [Entry.at, hcl.payload]
    · simp [hcl.dirty, hs3]
  · refine ⟨hcl.valid.trans hv, hcl.device, hcl.page, ?_⟩
    rw [hp.device, hp.page] at hk
    simp only [hcl.dirty]
    exact Finset.mem_sdiff.2 ⟨hs, fun hx => hk (mem_spanMask.1 hx)⟩
  · by_cases hji : j = i
    · subst hji
      rw [h2, Function.update_self] at hs hk
      dsimp only at hk hs
      rw [hcl.device, hcl.page, hp.device, hp.page] at hk
      exact (Finset.mem_sdiff.1 hs).2 (mem_spanMask.2 hk)
    · rw [h2, Function.update_of_ne hji] at hvj hk
      -- a sector of the range lies in the page of slot `i`
      have ha := (h.tags j hj).aligned hvj
      have hjp : (c.entries j).page = (c.entries i).page := by
        rw [hp.page]
        obtain ⟨_, hk1, hk2⟩ := hk
        have := s.isLt
        unfold pageLba pageSectors
        omega
      exact hji (h.unique j i hj hi hvj hv (hk.1.trans hp.device.symm) hjp)
  · rw [h2, Function.update_self]
    exact hcl.busy.trans hp.busy
  · rw [h2, Function.update_self]
    exact hcl.valid.trans hv

theorem completePage_effect {c : Cache α} (h : c.Sound) {i d cur n : Nat} (hp : Pinned c i d (pageLba cur))
    (hn : cur % 8 + n ≤ 8) (reserved : List Nat) :
    Effect (· = i) (Range d cur n) c (c.completePage i cur n reserved) := by
  obtain ⟨h1, hb, hv⟩ := dropSpan_effect h hp hn
  unfold completePage
  dsimp only at h1 hb hv ⊢
  have h2 := unpinEntry_effect h1.sound hp.lt hb (decide
    ((((c.clearDirtyBits i (spanMask cur n)).setValidMask i
      (((c.clearDirtyBits i (spanMask cur n)).entries i).validMask \ spanMask cur n)).entries i).dirtyMask ≠ ∅))
    (P := (· = i)) rfl
  have h12 := h1.next h2
  refine h12.next (Calm.weaken (clearEntry_when h12.sound hp.lt ?_ (fun hq => ⟨?_, hq.2.2⟩)) _)
  · rw [unpinEntry_self]
  · rw [unpinEntry_self]
    exact hv

/-- **The pages of a completed direct write**, from `offset` on. -/
theorem completePages_effect (d lba count completed : Nat) (owned reserved : List Nat) :
    ∀ (fuel offset : Nat) (c : Cache α), c.Sound → count ≤ offset + fuel →
      (∀ j, offset ≤ j → j < count → ∃ i ∈ owned, Pinned c i d (pageLba (lba + j))) → completed ≤ count →
      Effect (· ∈ owned) (Range d (lba + offset) (completed - offset)) c
        (completePages d lba count completed owned reserved fuel offset c) := by
  have stop : ∀ (offset : Nat) (c : Cache α), c.Sound → count ≤ offset → completed ≤ count →
      Effect (· ∈ owned) (Range d (lba + offset) (completed - offset)) c c := fun offset c h hoff hcc =>
    (Effect.refl h).mono (fun _ hx => hx.elim) (fun d' l => by
      simp only [Range, false_iff]
      omega)
  intro fuel
  induction fuel with
  | zero => exact fun offset c h hoff _ hcc => stop offset c h (by omega) hcc
  | succ fuel ih =>
    intro offset c h hfuel hpin hcc
    unfold completePages
    split
    · rename_i hoff
      exact stop offset c h hoff hcc
    · rename_i hoff
      push Not at hoff
      dsimp only
      obtain ⟨i, hio, hp⟩ := hpin offset (Nat.le_refl _) hoff
      have hv := h.busy_valid hp.lt hp.busy
      rw [(h.findEntry_eq d (pageLba (lba + offset)) i).2 ⟨hp.lt, hv, hp.device, hp.page⟩]
      dsimp only
      rw [if_pos ⟨hio, hp.busy⟩]
      generalize hspan : spanOf (lba + offset) (count - offset) = span
      have hs1 : 0 < span := by rw [← hspan]; unfold spanOf pageSectors; omega
      have hs2 : (lba + offset) % 8 + span ≤ 8 := by rw [← hspan]; unfold spanOf pageSectors; omega
      have hs3 : span < count - offset → (lba + offset) % 8 + span = 8 := by
        rw [← hspan]
        unfold spanOf pageSectors
        omega
      have h1 := completePage_effect h hp (n := min span (completed - offset)) (by omega) reserved
      refine (Effect.trans h1 (ih (offset + span) _ h1.sound (by omega) (fun j hj hjc => ?_) hcc)).mono
        (fun x hx => ?_) (fun d' l => ?_)
      · obtain ⟨i', hio', hp'⟩ := hpin j (by omega) hjc
        refine ⟨i', hio', ?_⟩
        have hne : i' ≠ i := fun hx => by
          have := hp'.page.symm.trans ((congrArg (fun x => (c.entries x).page) hx).trans hp.page)
          unfold pageLba pageSectors at this
          omega
        have he := h1.pinned i' hp'.lt hp'.busy hne
        exact ⟨hp'.lt, by rw [he]; exact hp'.busy, by rw [he]; exact hp'.device, by rw [he]; exact hp'.page⟩
      · rcases hx with rfl | hx
        · exact hio
        · exact hx
      · simp only [Range]
        omega

end Cache
end PageCache
end R4
