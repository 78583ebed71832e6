import R4Recovery.PageCacheCoherent
/-!
# PageCacheSteps — one step of one task

A task that holds pins knows what its transfer has read or written (`Fits`).  One step of it keeps the data agreeing,
leaves the slots that other tasks pinned alone, with their sectors, and gives the next state what it needs (`Advances`).
-/
namespace R4
namespace PageCache

open PageIndex

variable {α : Type}

/-- The sectors whose new data a task has put on the device and not recorded yet. -/
def Task.landed : Task α → Nat → Nat → Prop
  | .wroteDirect d lba _ completed _ _ => Cache.Range d lba completed
  | _ => fun _ _ => False

namespace Cache

/-- **What a task that waits for its next section knows.** -/
def Fits (init : Nat → Nat → α) (disk : Nat → Nat → α) (log : List (Event α)) (c : Cache α) : Task α → Prop
  | .wroteBack i d page _ written _ _ _ =>
    Pinned c i d page ∧ ∀ s ∈ written, Clear log d (page + s.val) ∧ disk d (page + s) = latest init log d (page + s)
  | .filled i d page validBefore readable _ ok k =>
    Pinned c i d page ∧ (c.entries i).validMask = validBefore ∧ ReaderAt d page k ∧
      (ok = true → ∀ s ∈ readable \ validBefore, (c.entries i).at s = some (latest init log d (page + s)))
  | .filledRun d first sectorCount slots staging _ i k =>
    RunPinned c d sectorCount first slots ∧ slots.head?.map Prod.fst = some i ∧ ReaderAt d first k ∧
      ∀ j < 8 * slots.length, ¬ DirtyAt c d (first + j) → staging j = latest init log d (first + j)
  | .wroteDirect d lba data completed owned _ =>
    Owns c d lba data.length owned ∧ completed ≤ data.length ∧ ∀ j < completed, data[j]? = some (disk d (lba + j))
  | .barrier d batch since => Drained log d batch since
  | t => Ready c t

/-- Slot `i` and its sectors are as they were. -/
structure Same (init : Nat → Nat → α) (disk : Nat → Nat → α) (log : List (Event α)) (c : Cache α)
    (disk' : Nat → Nat → α) (log' : List (Event α)) (c' : Cache α) (i : Nat) : Prop where
  entry : c'.entries i = c.entries i
  latest : ∀ s : Fin 8, latest init log' (c.entries i).device ((c.entries i).page + s)
    = latest init log (c.entries i).device ((c.entries i).page + s)
  clear : ∀ s : Fin 8, Clear log (c.entries i).device ((c.entries i).page + s.val) →
    Clear log' (c.entries i).device ((c.entries i).page + s)
  disk : ∀ s : Fin 8, disk' (c.entries i).device ((c.entries i).page + s)
    = disk (c.entries i).device ((c.entries i).page + s)

/-- **One step of a task**, the sectors `X` being those that other tasks' direct writes have on the device. -/
structure Advances (init : Nat → Nat → α) (X : Nat → Nat → Prop) (disk : Nat → Nat → α) (log : List (Event α))
    (c : Cache α) (t : Task α) (disk' : Nat → Nat → α) (r : Section α) : Prop where
  base : Base init (fun d l => X d l ∨ r.task.landed d l) disk' (r.events ++ log) r.cache
  fits : Fits init disk' (r.events ++ log) r.cache r.task
  same : ∀ i < maxEntries, (c.entries i).ioBusy = true → i ∉ t.pins →
    Same init disk log c disk' (r.events ++ log) r.cache i
  pins : ∀ i ∈ r.task.pins, i ∈ t.pins ∨ (c.entries i).ioBusy = false
  flush : r.task.flush = none ∨ r.task.flush = t.flush

variable {init : Nat → Nat → α} {X : Nat → Nat → Prop} {disk : Nat → Nat → α} {log : List (Event α)}

theorem Base.mono {X' : Nat → Nat → Prop} {c : Cache α} (h : Base init X disk log c) (hx : ∀ d l, X d l → X' d l) :
    Base init X' disk log c :=
  ⟨h.sound, h.frames, h.owners, h.owed, fun d l hn hx' => h.onDisk d l hn (fun hy => hx' (hx d l hy)), h.honest,
    h.flushes⟩

/-! ## Pinned slots that stay -/

theorem Pinned.same {c c' : Cache α} {i d page : Nat} (h : Pinned c i d page) (he : c'.entries i = c.entries i) :
    Pinned c' i d page :=
  ⟨h.lt, by rw [he]; exact h.busy, by rw [he]; exact h.device, by rw [he]; exact h.page⟩

theorem RunPinned.same {c c' : Cache α} {d n : Nat} : ∀ {slots : List (Nat × Mask)} {page : Nat},
    RunPinned c d n page slots → (∀ i ∈ slots.map Prod.fst, c'.entries i = c.entries i) →
      RunPinned c' d n page slots
  | [], _, _, _ => trivial
  | (i, m) :: rest, page, ⟨h1, h2, h3, h4⟩, he =>
    have hi := he i (by simp)
    ⟨h1.same hi, by rw [hi]; exact h2, h3, RunPinned.same h4 (fun j hj => he j (List.mem_cons_of_mem _ hj))⟩

theorem Owns.same {c c' : Cache α} {d lba n : Nat} {owned : List Nat} (h : Owns c d lba n owned)
    (he : ∀ i ∈ owned, c'.entries i = c.entries i) : Owns c' d lba n owned where
  covers := fun j hj => by
    obtain ⟨i, hi, hp⟩ := h.covers j hj
    exact ⟨i, hi, hp.same (he i hi)⟩
  within := fun i hi => by
    obtain ⟨j, hj, hp⟩ := h.within i hi
    exact ⟨j, hj, hp.same (he i hi)⟩

theorem RunPinned.sector {c : Cache α} {d n : Nat} : ∀ {slots : List (Nat × Mask)} {page : Nat},
    RunPinned c d n page slots → ∀ j < 8 * slots.length, ∃ i ∈ slots.map Prod.fst, ∃ (p : Nat) (s : Fin 8),
      Pinned c i d p ∧ page + j = p + s
  | [], _, _, j, hj => by simp at hj
  | (i, m) :: rest, page, ⟨h1, _, _, h4⟩, j, hj => by
    by_cases hj8 : j < 8
    · exact ⟨i, by simp, page, ⟨j, hj8⟩, h1, rfl⟩
    · rw [List.length_cons] at hj
      obtain ⟨k, hk, p, s, hp, he⟩ := RunPinned.sector h4 (j - 8) (by omega)
      refine ⟨k, List.mem_cons_of_mem _ hk, p, s, hp, ?_⟩
      unfold pageSectors at he
      omega

theorem Fits.lt {c : Cache α} : ∀ {t : Task α}, Fits init disk log c t → ∀ i ∈ t.pins,
    i < maxEntries ∧ (c.entries i).ioBusy = true := by
  intro t h i hi
  have hrun : ∀ (slots : List (Nat × Mask)) (d n page : Nat), RunPinned c d n page slots →
      ∀ i ∈ slots.map Prod.fst, i < maxEntries ∧ (c.entries i).ioBusy = true := by
    intro slots
    induction slots with
    | nil => intro d n page _ i hi; cases hi
    | cons x rest ih =>
      intro d n page h i hi
      simp only [List.map_cons, List.mem_cons] at hi
      rcases hi with rfl | hi
      · exact ⟨h.1.lt, h.1.busy⟩
      · exact ih d n _ h.2.2.2 i hi
  cases t <;> simp only [Task.pins, List.mem_singleton, List.not_mem_nil] at hi
  case writeback => subst hi; exact ⟨h.1.lt, h.1.busy⟩
  case wroteBack => subst hi; exact ⟨h.1.lt, h.1.busy⟩
  case fill => subst hi; exact ⟨h.1.lt, h.1.busy⟩
  case filled => subst hi; exact ⟨h.1.lt, h.1.busy⟩
  case fillRun => exact hrun _ _ _ _ h.1 i hi
  case filledRun => exact hrun _ _ _ _ h.1 i hi
  case pinPages =>
    obtain ⟨j, _, hp⟩ := h.2.within i hi
    exact ⟨hp.lt, hp.busy⟩
  case direct =>
    obtain ⟨j, _, hp⟩ := h.within i hi
    exact ⟨hp.lt, hp.busy⟩
  case wroteDirect =>
    obtain ⟨j, _, hp⟩ := h.1.within i hi
    exact ⟨hp.lt, hp.busy⟩

/-- **What a task knows outlives the steps of the others.** -/
theorem Fits.frame {c c' : Cache α} {disk' : Nat → Nat → α} {es : List (Event α)} (h : c.Sound) (h' : c'.Sound) :
    ∀ {t : Task α}, Fits init disk log c t → (∀ i ∈ t.pins, Same init disk log c disk' (es ++ log) c' i) →
      (∀ d batch since, t.flush = some (d, batch, since) → since ≤ log.length) → Fits init disk' (es ++ log) c' t := by
  intro t hf hs hn
  cases t with
  | loop => trivial
  | waitWriteback => trivial
  | rangeBarrier => trivial
  | barrier d batch since => exact Drained.grow hf (hn d batch since rfl) es
  | writeback i d page snapshot before k =>
    have he := (hs i (by simp [Task.pins])).entry
    exact ⟨hf.1.same he, by rw [he]; exact hf.2⟩
  | wroteBack i d page snapshot written ok before k =>
    obtain ⟨hp, hw⟩ := hf
    have hi := hs i (by simp [Task.pins])
    refine ⟨hp.same hi.entry, fun s hsw => ?_⟩
    obtain ⟨h1, h2⟩ := hw s hsw
    have h3 := hi.clear s
    have h4 := hi.latest s
    have h5 := hi.disk s
    rw [hp.device, hp.page] at h3 h4 h5
    exact ⟨h3 h1, by rw [h4, h5, h2]⟩
  | fill i d page validBefore readable second k =>
    have he := (hs i (by simp [Task.pins])).entry
    exact ⟨hf.1.same he, by rw [he]; exact hf.2.1, hf.2.2⟩
  | filled i d page validBefore readable second ok k =>
    obtain ⟨hp, hv, hr, hd⟩ := hf
    have hi := hs i (by simp [Task.pins])
    refine ⟨hp.same hi.entry, by rw [hi.entry]; exact hv, hr, fun hok s hsm => ?_⟩
    have h4 := hi.latest s
    rw [hp.device, hp.page] at h4
    rw [hi.entry, h4]
    exact hd hok s hsm
  | fillRun d first n slots own i k =>
    exact ⟨hf.1.same (fun j hj => (hs j hj).entry), hf.2⟩
  | filledRun d first n slots staging ok i k =>
    obtain ⟨hp, hh, hr, hd⟩ := hf
    refine ⟨hp.same (fun j hj => (hs j hj).entry), hh, hr, fun j hj hn => ?_⟩
    obtain ⟨m, hm, p, s, hpin, he⟩ := hp.sector j hj
    have hi := hs m hm
    have h4 := hi.latest s
    rw [hpin.device, hpin.page, ← he] at h4
    rw [h4]
    refine hd j hj (fun hx => hn ?_)
    rw [he, ← hpin.page] at hx
    have hpin' := hpin.same hi.entry
    rw [he, ← hpin'.page]
    refine (dirtyAt_iff h' hpin'.lt (h'.busy_valid hpin'.lt hpin'.busy) hpin'.device s).2 ?_
    rw [hi.entry]
    exact (dirtyAt_iff h hpin.lt (h.busy_valid hpin.lt hpin.busy) hpin.device s).1 hx
  | pinPages => exact ⟨hf.1, hf.2.same (fun j hj => (hs j hj).entry)⟩
  | direct => exact Owns.same hf (fun j hj => (hs j hj).entry)
  | wroteDirect d lba data completed owned reserved =>
    obtain ⟨ho, hc, hd⟩ := hf
    refine ⟨ho.same (fun j hj => (hs j hj).entry), hc, fun j hj => ?_⟩
    obtain ⟨m, hm, hpin⟩ := ho.covers j (by omega)
    have h5 := (hs m hm).disk (sectorOf (lba + j))
    rw [hpin.device, hpin.page, pageLba_sectorOf] at h5
    rw [h5]
    exact hd j hj

/-! ## Steps that end calmly -/

theorem Ready.fits {c : Cache α} (hb : Base init X disk log c) {t : Task α} (h : Ready c t) :
    Fits init disk log c t := by
  cases t with
  | barrier d batch since => exact hb.drained h
  | wroteBack => exact h.elim
  | filled => exact h.elim
  | filledRun => exact h.elim
  | wroteDirect => exact h.elim
  | _ => exact h

theorem Advances.quiet {c c1 : Cache α} {t : Task α} {n : Option (Nat × Option Nat × Nat)} {r : Section α}
    (hk : Keeps init X disk log (· ∈ t.pins) c c1) (hq : Quietly n c1 r) (hn : n = t.flush) :
    Advances init X disk log c t disk r := by
  have h2 := hk.base.effect hq.calm
  have ht : Told init r.events log := told (fun e he => h2.base.fromCache (hq.events e he))
  have hb := h2.base.tell ht
  refine ⟨hb.mono (fun d l hx => .inl hx), hq.ready.fits hb, fun i hi hbusy hp => ?_, fun i hi => ?_,
    hn ▸ hq.flush⟩
  · refine ⟨?_, fun s => ht.latest _ _, fun s => ht.clear _ _, fun s => rfl⟩
    have he := hk.pinned i hi hbusy hp
    rw [hq.calm.pinned i hi (by rw [he]; exact hbusy) id, he]
  · by_cases hp : i ∈ t.pins
    · exact .inl hp
    · refine .inr ?_
      cases hbusy : (c.entries i).ioBusy with
      | false => rfl
      | true =>
        have he := hk.pinned i (hq.ready.lt i hi) hbusy hp
        rw [← he, hq.idle i hi] at hbusy
        cases hbusy

/-! ## Cached writes -/

theorem writeOne_advances {c : Cache α} (h : Base init X disk log c) (env : Env α) (d lba : Nat) (v : α)
    (batch guard : Nat) :
    Advances init X disk log c (.loop (.writeSector d lba v batch guard)) disk (c.writeOne env d lba v batch guard) := by
  obtain ⟨h1, h2⟩ := findOrCreate_spec h.sound env (pageLba_aligned lba) (d := d)
  unfold writeOne
  rcases hfc : c.findOrCreate env d (pageLba lba) with ⟨c1, r⟩
  rw [hfc] at h1 h2
  have hk : Keeps init X disk log (· ∈ (Task.loop (Loop.writeSector d lba v batch guard)).pins) c c1 :=
    (h.effect h1).mono (fun _ hx => hx.elim)
  have quiet : ∀ k : Loop α, k.flush = none →
      Advances init X disk log c (.loop (.writeSector d lba v batch guard)) disk ⟨c1, .loop k, []⟩ := fun k h0 =>
    Advances.quiet hk (Quietly.again (Effect.refl h1.sound) h0) rfl
  cases r with
  | none => exact Advances.quiet hk (starved_quietly h1.sound env guard (fun _ => rfl)) rfl
  | some i =>
    obtain ⟨hi, hv, hd, hp, _⟩ := h2 i rfl
    dsimp only at h1 hv hd hp ⊢
    split
    · exact quiet _ rfl
    · rename_i hb
      have hb : (c1.entries i).ioBusy = false := by simpa using hb
      split
      · exact quiet _ rfl
      · obtain ⟨hm1, hm2, hm3⟩ := hk.base.mark env hi hv hb hd hp v batch
        rcases hw : c1.writeInto env i (sectorOf lba) v batch with ⟨c2, ok⟩
        rw [hw] at hm1 hm2 hm3
        cases hm1
        refine ⟨hm2.mono (fun d l hx => .inl hx), trivial, fun j hj hbusy _ => ?_, (fun j hj => by cases hj),
          .inl rfl⟩
        have he := hk.pinned j hj hbusy (by simp [Task.pins])
        have hji : j ≠ i := fun hx => by
          rw [hx] at he hbusy
          rw [he, hbusy] at hb
          cases hb
        have hvj := h.sound.busy_valid hj hbusy
        -- the slot holds another page than the one written
        have hne : ∀ s : Fin 8, ¬ (d = (c.entries j).device ∧ lba = (c.entries j).page + s) := fun s hx => by
          rw [← he] at hx hvj
          refine hji (h1.sound.same_sector hj hi hvj hv (hx.1.symm.trans hd.symm) (s := s) (t := sectorOf lba) ?_).1
          rw [← hx.2, hp, pageLba_sectorOf]
        exact ⟨(hm3 j hji).trans he, fun s => if_neg (hne s), fun s hc => ⟨hne s, hc⟩, fun s => rfl⟩

/-! ## Writebacks -/

theorem finishWriteback_advances {c : Cache α} (h : Base init X disk log c) (env : Env α) {i d page : Nat}
    {snapshot written : Mask} {ok : Bool} {before : Option Nat} {k : Loop α}
    (hf : Fits init disk log c (.wroteBack i d page snapshot written ok before k)) :
    Advances init X disk log c (.wroteBack i d page snapshot written ok before k) disk
      (c.finishWriteback env i written ok before k) := by
  obtain ⟨hp, hw⟩ := hf
  have hi := hp.lt
  have hv := h.sound.busy_valid hi hp.busy
  have hP : i ∈ (Task.wroteBack i d page snapshot written ok before k).pins := by simp [Task.pins]
  have h1 : Keeps init X disk log (· ∈ (Task.wroteBack i d page snapshot written ok before k).pins) c
      (c.clearDirtyBits i written) := by
    refine h.clean hi hv (fun s hs => ?_) (fun _ => hP)
    rw [hp.device, hp.page]
    exact hw s hs
  obtain ⟨_, e, he, hcl⟩ := clearDirtyBits_spec h.sound hi hv written
  have hb1 : ((c.clearDirtyBits i written).entries i).ioBusy = true := by
    rw [he, Function.update_self, hcl.busy, hp.busy]
  have h2 := h1.base.effect (unpinEntry_effect h1.base.sound hi hb1
    (!ok || decide (((c.clearDirtyBits i written).entries i).dirtyMask ≠ ∅)) hP)
  have h3 := h1.trans h2
  unfold finishWriteback
  dsimp only
  have hcount : Calm _ { (c.clearDirtyBits i written).unpinEntry i
    (!ok || decide (((c.clearDirtyBits i written).entries i).dirtyMask ≠ ∅)) with
      writebackSectors := ((c.clearDirtyBits i written).unpinEntry i
        (!ok || decide (((c.clearDirtyBits i written).entries i).dirtyMask ≠ ∅))).writebackSectors + written.card } :=
    counters_calm h3.base.sound rfl rfl rfl rfl rfl rfl rfl
  have h4 := h3.trans ((h3.base.effect hcount).mono (fun _ hx => hx.elim))
  split
  · exact Advances.quiet h4 (goOn_quietly h4.base.sound before k) rfl
  · exact Advances.quiet h4 (giveUp_quietly h4.base.sound env k) rfl

theorem mem_storedEvents {e : Entry α} {d page : Nat} {written : Mask} {x : Event α}
    (hx : x ∈ ((List.finRange 8).filter (· ∈ written)).filterMap
      (fun s => (e.payload.map (fun f => f s)).map (Event.stored d (page + s)))) :
    ∃ s ∈ written, ∃ v, e.at s = some v ∧ x = .stored d (page + s) v := by
  obtain ⟨s, hs, he⟩ := List.mem_filterMap.1 hx
  obtain ⟨v, hv, rfl⟩ := Option.map_eq_some_iff.1 he
  exact ⟨s, by simpa using (List.mem_filter.1 hs).2, v, hv, rfl⟩

theorem writtenMask_subset (env : Env α) (d : Nat) (snapshot : Mask) : writtenMask env d snapshot ⊆ snapshot := by
  intro s hs
  unfold writtenMask at hs
  obtain ⟨run, hr, hsr⟩ := List.mem_flatten.1 (List.mem_toFinset.1 hs)
  have hd := (List.takeWhile_prefix _).subset hr
  unfold dirtyRuns at hd
  have := List.all_eq_true.1 (List.mem_filter.1 hd).2 s hsr
  simpa using this

end Cache
end PageCache
end R4
