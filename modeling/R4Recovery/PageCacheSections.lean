import R4Recovery.PageCacheEffect
import R4Recovery.PageCacheTask
/-!
# PageCacheSections — every section of a call that holds no pin is calm

Whatever a call does between two lock releases, short of marking a sector dirty, it is a calm section: it pins idle slots
only, records what it pinned, and copies out only what the cache holds (`Quietly`).
-/
namespace R4
namespace PageCache

open PageIndex LinkedQueue
open PageIndex.Index (Wf isHeld isBusy isDirty isClean isFree Shifts)

variable {α : Type}

/-- The slots a task has pinned. -/
def Task.pins : Task α → List Nat
  | .writeback i .. => [i]
  | .wroteBack i .. => [i]
  | .fill i .. => [i]
  | .filled i .. => [i]
  | .fillRun _ _ _ slots .. => slots.map Prod.fst
  | .filledRun _ _ _ slots .. => slots.map Prod.fst
  | .pinPages _ _ _ _ owned _ => owned
  | .direct _ _ _ owned _ => owned
  | .wroteDirect _ _ _ _ owned _ => owned
  | _ => []

/-- The flush a call is: its device, its batch, and how many events the history had when it was called. -/
def Loop.flush : Loop α → Option (Nat × Option Nat × Nat)
  | .flushDevice d since => some (d, none, since)
  | .flushBatch d batch since _ => some (d, some batch, since)
  | _ => none

def Task.flush : Task α → Option (Nat × Option Nat × Nat)
  | .loop k => k.flush
  | .waitWriteback _ _ _ _ k => k.flush
  | .writeback _ _ _ _ _ k => k.flush
  | .wroteBack _ _ _ _ _ _ _ k => k.flush
  | .fill _ _ _ _ _ _ k => k.flush
  | .filled _ _ _ _ _ _ _ k => k.flush
  | .fillRun _ _ _ _ _ _ k => k.flush
  | .filledRun _ _ _ _ _ _ _ k => k.flush
  | .barrier d batch since => some (d, batch, since)
  | _ => none

namespace Cache

/-- Slot `i` is pinned and holds the page. -/
structure Pinned (c : Cache α) (i d page : Nat) : Prop where
  lt : i < maxEntries
  busy : (c.entries i).ioBusy = true
  device : (c.entries i).device = d
  page : (c.entries i).page = page

/-- The slots of a run hold its pages, in order, with the sectors they had; only the last page may be short. -/
def RunPinned (c : Cache α) (d sectorCount : Nat) : Nat → List (Nat × Mask) → Prop
  | _, [] => True
  | page, (i, validBefore) :: rest =>
    Pinned c i d page ∧ (c.entries i).validMask = validBefore ∧
      (rest ≠ [] → readableSectors sectorCount page = pageSectors) ∧ RunPinned c d sectorCount (page + pageSectors) rest

/-- The slots `owned` are the pages of the first `n` sectors from `lba`. -/
structure Owns (c : Cache α) (d lba n : Nat) (owned : List Nat) : Prop where
  covers : ∀ j < n, ∃ i ∈ owned, Pinned c i d (pageLba (lba + j))
  within : ∀ i ∈ owned, ∃ j < n, Pinned c i d (pageLba (lba + j))

/-- The page a bulk read is at is the one its fill is for. -/
def ReaderAt (d page : Nat) : Loop α → Prop
  | .readSectors d' lba _ done _ _ _ => d' = d ∧ pageLba (lba + done) = page
  | _ => True

/-- What the cache shows of a task that a section has just left. -/
def Ready (c : Cache α) : Task α → Prop
  | .writeback i d page snapshot _ _ => Pinned c i d page ∧ snapshot ⊆ (c.entries i).dirtyMask
  | .fill i d page validBefore _ _ k =>
    Pinned c i d page ∧ (c.entries i).validMask = validBefore ∧ ReaderAt d page k
  | .fillRun d first sectorCount slots _ i k =>
    RunPinned c d sectorCount first slots ∧ slots.head?.map Prod.fst = some i ∧ ReaderAt d first k
  | .pinPages d lba data offset owned _ => offset ≤ data.length ∧ Owns c d lba offset owned
  | .direct d lba data owned _ => Owns c d lba data.length owned
  | .barrier d batch _ => ∀ i < maxEntries, (c.entries i).valid = true → (c.entries i).device = d →
      ∀ s ∈ (c.entries i).dirtyMask, ∃ b, batch = some b ∧ (c.entries i).dirtyOwner s ≠ b
  | .wroteBack .. => False
  | .filled .. => False
  | .filledRun .. => False
  | .wroteDirect .. => False
  | _ => True

/-- The event is a sector copied out of a valid frame. -/
def FromCache (c : Cache α) : Event α → Prop
  | .delivered d lba v => ∃ i < maxEntries, (c.entries i).valid = true ∧ (c.entries i).device = d ∧
      ∃ s : Fin 8, (c.entries i).page + s = lba ∧ s ∈ (c.entries i).validMask ∧ (c.entries i).at s = some v
  | _ => False

/-- **A calm section**, with the task it leaves. -/
structure Quietly (n : Option (Nat × Option Nat × Nat)) (c : Cache α) (r : Section α) : Prop where
  calm : Calm c r.cache
  idle : ∀ i ∈ r.task.pins, (c.entries i).ioBusy = false
  flush : r.task.flush = none ∨ r.task.flush = n
  ready : Ready r.cache r.task
  events : ∀ e ∈ r.events, FromCache r.cache e

theorem Calm.idle {c c' : Cache α} (h : Calm c c') {i : Nat} (hi : i < maxEntries)
    (hb : (c'.entries i).ioBusy = false) : (c.entries i).ioBusy = false := by
  cases hx : (c.entries i).ioBusy with
  | false => rfl
  | true =>
    rw [h.pinned i hi hx id, hx] at hb
    cases hb

theorem Ready.lt {c : Cache α} : ∀ {t : Task α}, Ready c t → ∀ i ∈ t.pins, i < maxEntries := by
  intro t h i hi
  have hrun : ∀ (slots : List (Nat × Mask)) (d n page : Nat), RunPinned c d n page slots →
      ∀ i ∈ slots.map Prod.fst, i < maxEntries := by
    intro slots
    induction slots with
    | nil => intro d n page _ i hi; cases hi
    | cons x rest ih =>
      intro d n page h i hi
      simp only [List.map_cons, List.mem_cons] at hi
      rcases hi with rfl | hi
      · exact h.1.lt
      · exact ih d n _ h.2.2.2 i hi
  cases t <;> simp only [Task.pins, List.mem_singleton, List.not_mem_nil] at hi <;> simp only [Ready] at h
  case writeback => subst hi; exact h.1.lt
  case fill => subst hi; exact h.1.lt
  case fillRun => exact hrun _ _ _ _ h.1 i hi
  case pinPages =>
    obtain ⟨j, _, hp⟩ := h.2.within i hi
    exact hp.lt
  case direct =>
    obtain ⟨j, _, hp⟩ := h.within i hi
    exact hp.lt

theorem Quietly.then {n : Option (Nat × Option Nat × Nat)} {c c1 : Cache α} {r : Section α} (h2 : Quietly n c1 r) (h1 : Calm c c1) :
    Quietly n c r :=
  ⟨h1.trans h2.calm, fun i hp => h1.idle (h2.ready.lt i hp) (h2.idle i hp), h2.flush, h2.ready, h2.events⟩

theorem Quietly.plain {n : Option (Nat × Option Nat × Nat)} {c c' : Cache α} (h : Calm c c') {t : Task α}
    (hp : t.pins = []) (hn : t.flush = none ∨ t.flush = n) (hr : Ready c' t) : Quietly n c ⟨c', t, []⟩ :=
  ⟨h, fun i hi => (by rw [hp] at hi; cases hi), hn, hr, fun e he => by cases he⟩

theorem Quietly.loop {c c' : Cache α} (h : Calm c c') (k : Loop α) : Quietly k.flush c ⟨c', .loop k, []⟩ :=
  Quietly.plain h rfl (.inr rfl) trivial

theorem Quietly.again {c c' : Cache α} (h : Calm c c') {k : Loop α} (hk : k.flush = none) :
    Quietly none c ⟨c', .loop k, []⟩ :=
  Quietly.plain h rfl (.inl hk) trivial

theorem Quietly.idleTask {n : Option (Nat × Option Nat × Nat)} {c c' : Cache α} (h : Calm c c') : Quietly n c ⟨c', .idle, []⟩ :=
  Quietly.plain h rfl (.inl rfl) trivial

theorem counters_calm {c c' : Cache α} (h : c.Sound) (he : c'.entries = c.entries) (hn : c'.next = c.next)
    (hb : c'.buckets = c.buckets) (hx : c'.index = c.index) (h1 : c'.dirtyEntryCount = c.dirtyEntryCount)
    (h2 : c'.dirtySectorCount = c.dirtySectorCount) (h3 : c'.dirtySectorsByDevice = c.dirtySectorsByDevice) :
    Calm c c' :=
  Calm.of_entries (h.of_same he hn hb (by rw [hx]; exact h.index) (by rw [hx]) h1 h2 h3) he

/-! ## Writebacks -/

theorem giveUp_quietly {c : Cache α} (h : c.Sound) (env : Env α) (k : Loop α) : Quietly k.flush c (c.giveUp env k) := by
  unfold giveUp
  split
  · refine Quietly.idleTask ?_
    exact counters_calm h rfl rfl rfl rfl rfl rfl rfl
  · exact Quietly.idleTask (Effect.refl h)

theorem goOn_quietly {c : Cache α} (h : c.Sound) (before : Option Nat) (k : Loop α) : Quietly k.flush c (c.goOn before k) := by
  unfold goOn
  split
  · exact Quietly.loop (Effect.refl h) k
  · refine Quietly.loop ?_ k
    exact counters_calm h rfl rfl rfl rfl rfl rfl rfl

theorem pinEntry_pinned {c : Cache α} {i : Nat} (hi : i < maxEntries) :
    Pinned (c.pinEntry i) i (c.entries i).device (c.entries i).page ∧
      ((c.pinEntry i).entries i).dirtyMask = (c.entries i).dirtyMask ∧
      ((c.pinEntry i).entries i).validMask = (c.entries i).validMask := by
  have he : (c.pinEntry i).entries i = { c.entries i with ioBusy := true } := Function.update_self ..
  refine ⟨⟨hi, ?_, ?_, ?_⟩, ?_, ?_⟩ <;> rw [he]

/-- **Starting a writeback** of any slot. -/
theorem startWriteback_quietly {c : Cache α} (h : c.Sound) (env : Env α) (i : Nat) (batch : Option Nat)
    (selected : Mask) (before : Option Nat) (k : Loop α) :
    Quietly k.flush c (c.startWriteback env i batch selected before k) := by
  unfold startWriteback
  dsimp only
  by_cases hi : i < maxEntries
  · rw [if_neg (not_not.2 hi)]
    by_cases hw : (c.entries i).valid = true ∧ (c.entries i).ioBusy = true
    · rw [if_pos hw]
      exact Quietly.plain (Effect.refl h) rfl (.inr rfl) trivial
    · rw [if_neg hw]
      cases hv : (c.entries i).valid with
      | false => exact goOn_quietly h before k
      | true =>
        rw [if_neg (by decide)]
        have hb : (c.entries i).ioBusy = false := by
          cases hb : (c.entries i).ioBusy with
          | false => rfl
          | true => exact absurd ⟨hv, hb⟩ hw
        split
        · exact goOn_quietly h before k
        · split
          · exact giveUp_quietly h env k
          · obtain ⟨_, hcalm⟩ := pinEntry_calm h hi hv hb
            obtain ⟨hp, hd, _⟩ := pinEntry_pinned (c := c) hi
            refine ⟨hcalm, fun j hj => ?_, .inr rfl, ⟨hp, ?_⟩, fun e he => by cases he⟩
            · rw [List.mem_singleton.1 hj]
              exact hb
            · rw [hd]
              refine Finset.inter_subset_left.trans ?_
              cases batch with
              | none => exact Finset.Subset.refl _
              | some owner => exact Finset.filter_subset _ _
  · rw [if_pos hi]
    exact goOn_quietly h before k

theorem findOldestDirty_calm {c : Cache α} (h : c.Sound) : Calm c c.findOldestDirty.1 := by
  have h1 : Calm c (c.setIndex (c.index.nextDirtyDevice false).1) :=
    setIndex_same h (h.index.nextDirtyDevice false) (Index.tag_nextDirtyDevice _ _)
  unfold findOldestDirty
  dsimp only
  split <;> exact h1

theorem writebackOldestDirty_quietly {c : Cache α} (h : c.Sound) (env : Env α) (k : Loop α) :
    Quietly k.flush c (c.writebackOldestDirty env k) := by
  have h1 := findOldestDirty_calm h
  unfold writebackOldestDirty
  rcases hf : c.findOldestDirty with ⟨c1, r⟩
  rw [hf] at h1
  cases r with
  | none => exact Quietly.loop h1 k
  | some i => exact (startWriteback_quietly h1.sound env i none _ _ k).then h1

theorem starved_quietly {c : Cache α} (h : c.Sound) (env : Env α) (guard : Nat) {k : Nat → Loop α}
    (hk : ∀ g, (k g).flush = none) : Quietly none c (c.starved env guard k) := by
  have h1 := findOldestDirty_calm h
  unfold starved
  rcases hf : c.findOldestDirty with ⟨c1, r⟩
  rw [hf] at h1
  cases r with
  | some _ =>
    have h2 := (writebackOldestDirty_quietly h1.sound env (k 0)).then h1
    rw [hk 0] at h2
    exact h2
  | none =>
    dsimp only
    split
    · exact hk (guard + 1) ▸ Quietly.loop h1 _
    · exact Quietly.idleTask h1

/-! ## Fills -/

/-- A fill that has begun calmly, or was answered with nothing changed. -/
def BegunQuietly (n : Option (Nat × Option Nat × Nat)) (c : Cache α) (r : Cache α × Begun α) : Prop :=
  match r.2 with
  | .answered _ => r.1 = c
  | .started t => Quietly n c ⟨r.1, t, []⟩

theorem beginFill_quietly {c : Cache α} (h : c.Sound) (env : Env α) {i d page : Nat} (hi : i < maxEntries)
    (hv : (c.entries i).valid = true) (hb : (c.entries i).ioBusy = false) (hd : (c.entries i).device = d)
    (hp : (c.entries i).page = page) (second : Bool) {k : Loop α} (hk : ReaderAt d page k) :
    BegunQuietly k.flush c (c.beginFill env i second k) := by
  unfold beginFill
  dsimp only
  split
  · exact rfl
  · split
    · split
      · exact rfl
      · split
        · exact rfl
        · obtain ⟨_, hcalm⟩ := pinEntry_calm h hi hv hb
          obtain ⟨hpin, _, hm⟩ := pinEntry_pinned (c := c) hi
          refine ⟨hcalm, fun j hj => ?_, .inr rfl, ⟨hpin, hm, ?_⟩, fun e he => by cases he⟩
          · rw [List.mem_singleton.1 hj]
            exact hb
          · rw [hd, hp]
            exact hk
    · exact rfl

theorem retryFill_quietly {c : Cache α} (h : c.Sound) (env : Env α) {i d page : Nat} (hi : i < maxEntries)
    (hv : (c.entries i).valid = true) (hb : (c.entries i).ioBusy = false) (hd : (c.entries i).device = d)
    (hp : (c.entries i).page = page) {k : Loop α} (hk : ReaderAt d page k) :
    BegunQuietly k.flush c (c.retryFill env i k) := by
  unfold retryFill
  split
  · exact rfl
  · split
    · exact rfl
    · exact beginFill_quietly h env hi hv hb hd hp true hk

theorem fillWithBackendPolicy_quietly {c : Cache α} (h : c.Sound) (env : Env α) {i d page : Nat} (hi : i < maxEntries)
    (hv : (c.entries i).valid = true) (hb : (c.entries i).ioBusy = false) (hd : (c.entries i).device = d)
    (hp : (c.entries i).page = page) {k : Loop α} (hk : ReaderAt d page k) :
    BegunQuietly k.flush c (c.fillWithBackendPolicy env i k) := by
  have h1 := beginFill_quietly h env hi hv hb hd hp false hk
  unfold fillWithBackendPolicy
  rcases hr : c.beginFill env i false k with ⟨c1, b⟩
  rw [hr] at h1
  cases b with
  | answered ok =>
    have hc : c1 = c := h1
    subst hc
    cases ok with
    | true => exact rfl
    | false => exact retryFill_quietly h env hi hv hb hd hp hk
  | started t => exact h1

theorem noteDemandHit_entries (c : Cache α) (i : Nat) : (c.noteDemandHit i).entries = c.entries := by
  unfold noteDemandHit
  split <;> rfl

theorem sector_of_span {cur left j : Nat} (hj : j < spanOf cur left) :
    pageLba cur + (sectorOf (cur + j)).val = cur + j := by
  unfold spanOf pageSectors at hj
  unfold pageLba sectorOf pageSectors
  dsimp only
  omega

theorem serve_quietly {c : Cache α} (h : c.Sound) {i d lba count done : Nat} (hi : i < maxEntries)
    (hv : (c.entries i).valid = true) (hd : (c.entries i).device = d)
    (hp : (c.entries i).page = pageLba (lba + done)) (buffer : Option Nat) (unavailable : Bool) :
    Quietly none c (c.serve i d lba count done buffer unavailable) := by
  unfold serve
  dsimp only
  cases hf : (c.entries i).payload with
  | none => exact Quietly.idleTask (Effect.refl h)
  | some f =>
    dsimp only
    split
    · rename_i hcov
      refine ⟨noteDemandHit_calm h hi, (fun j hj => by cases hj), .inr rfl, trivial, fun e he => ?_⟩
      obtain ⟨j, hj, rfl⟩ := List.mem_map.1 he
      refine ⟨i, hi, ?_⟩
      rw [noteDemandHit_entries]
      refine ⟨hv, hd, sectorOf (lba + done + j), ?_, ?_, ?_⟩
      · rw [hp]
        exact sector_of_span (List.mem_range.1 hj)
      · simpa using List.all_eq_true.1 hcov j hj
      · simp [Entry.at, hf]
    · exact Quietly.idleTask (Effect.refl h)

/-- The slot holds the page its reader is after. -/
def ReaderHolds (c : Cache α) (i : Nat) : Loop α → Prop
  | .readSectors d lba _ done _ _ _ =>
    (c.entries i).valid = true ∧ (c.entries i).device = d ∧ (c.entries i).page = pageLba (lba + done)
  | _ => True

theorem afterFill_quietly {c : Cache α} (h : c.Sound) {i : Nat} (hi : i < maxEntries) {ok : Bool} {k : Loop α}
    (hk : ok = true → ReaderHolds c i k) : Quietly k.flush c (c.afterFill i ok k) := by
  unfold afterFill
  split
  · split
    · exact Quietly.loop (Effect.refl h) _
    · split
      · rename_i hx
        have hd : (c.entries i).dirtyMask = ∅ := by
          have := (h.tags i hi).subset
          rw [hx.2.1] at this
          exact Finset.subset_empty.1 this
        exact Quietly.idleTask (clearEntry_calm h hi hx.1 hx.2.2 hd)
      · exact Quietly.idleTask (Effect.refl h)
  · split
    · rename_i hok
      obtain ⟨h1, h2, h3⟩ := hk hok
      exact serve_quietly h hi h1 h2 h3 _ _
    · exact Quietly.idleTask (Effect.refl h)
  · exact Quietly.idleTask (Effect.refl h)

theorem ReaderAt.holds {c : Cache α} {i d page : Nat} (hv : (c.entries i).valid = true)
    (hd : (c.entries i).device = d) (hp : (c.entries i).page = page) {k : Loop α} (hk : ReaderAt d page k) :
    ReaderHolds c i k := by
  cases k <;> simp only [ReaderAt] at hk <;> simp only [ReaderHolds]
  exact ⟨hv, hd.trans hk.1.symm, hp.trans hk.2.symm⟩

theorem proceed_quietly {c : Cache α} (h : c.Sound) {i d page : Nat} (hi : i < maxEntries)
    (hv : (c.entries i).valid = true) (hd : (c.entries i).device = d) (hp : (c.entries i).page = page) {k : Loop α}
    (hk : ReaderAt d page k) {r : Cache α × Begun α} (hr : BegunQuietly k.flush c r) : Quietly k.flush c (proceed i k r) := by
  rcases r with ⟨c1, b⟩
  cases b with
  | answered ok =>
    have hc : c1 = c := hr
    subst hc
    exact afterFill_quietly h hi (fun _ => hk.holds hv hd hp)
  | started t => exact hr

theorem Effect.own_idle {c c' : Cache α} {P : Nat → Prop} (h : Effect P (fun _ _ => False) c c')
    (hP : ∀ i < maxEntries, P i → (c.entries i).ioBusy = false) : Calm c c' where
  sound := h.sound
  kept := h.kept
  dirty := h.dirty
  gone := h.gone
  pinned := fun i hi hb _ => h.pinned i hi hb (fun hp => by rw [hP i hi hp] at hb; cases hb)

theorem Pinned.calm {c c' : Cache α} {i d page : Nat} (hp : Pinned c i d page) (h : Calm c c') :
    Pinned c' i d page ∧ c'.entries i = c.entries i := by
  have he := h.pinned i hp.lt hp.busy id
  exact ⟨⟨hp.lt, by rw [he]; exact hp.busy, by rw [he]; exact hp.device, by rw [he]; exact hp.page⟩, he⟩

/-- What the reservation of a run leaves: its pages pinned, all of them idle before. -/
structure Reserved (c : Cache α) (d sectorCount page : Nat) (r : Cache α × List (Nat × Mask)) : Prop where
  calm : Calm c r.1
  run : RunPinned r.1 d sectorCount page r.2
  idle : ∀ i ∈ r.2.map Prod.fst, i < maxEntries ∧ (c.entries i).ioBusy = false
  head : ∀ i, c.findEntry d page = some i → ∀ x ∈ r.2.head?, x.1 = i

theorem Reserved.nil {c c' : Cache α} (h : Calm c c') (d sectorCount page : Nat) :
    Reserved c d sectorCount page (c', []) where
  calm := h
  run := trivial
  idle := fun i hi => by cases hi
  head := fun i _ x hx => by cases hx

/-- **The pages of a run, pinned.** -/
theorem reserveRun_spec (env : Env α) (d sectorCount : Nat) : ∀ (n page : Nat) (c : Cache α), c.Sound → page % 8 = 0 →
    Reserved c d sectorCount page (reserveRun env d sectorCount n page c)
  | 0, page, c, h, _ => Reserved.nil (Effect.refl h) d sectorCount page
  | n + 1, page, c, h, ha => by
    unfold reserveRun
    split
    · exact Reserved.nil (Effect.refl h) d sectorCount page
    · dsimp only
      obtain ⟨h1, h2⟩ := findOrCreate_spec h env ha (d := d)
      have hfound : ∀ i, c.findEntry d page = some i → (c.findOrCreate env d page) = (c, some i) := fun i hf => by
        simp [findOrCreate, hf]
      rcases hfc : c.findOrCreate env d page with ⟨c1, r⟩
      rw [hfc] at h1 h2 hfound
      cases r with
      | none => exact Reserved.nil h1 d sectorCount page
      | some i =>
        obtain ⟨hi, hv, hd, hp, hbusy⟩ := h2 i rfl
        dsimp only at hv hd hp hbusy ⊢
        split
        · exact Reserved.nil h1 d sectorCount page
        · rename_i hgo
          push Not at hgo
          have hb : (c1.entries i).ioBusy = false := by simpa using hgo.1
          obtain ⟨_, hcalm⟩ := pinEntry_calm h1.sound hi hv hb
          obtain ⟨hpin, _, hm⟩ := pinEntry_pinned (c := c1) hi
          rw [hd, hp] at hpin
          have hidle : (c.entries i).ioBusy = false := by rw [← hbusy]; exact hb
          have hhead : ∀ j, c.findEntry d page = some j → i = j := fun j hj => by
            cases hfound j hj
            rfl
          split
          · refine ⟨h1.trans hcalm, ⟨hpin, hm, fun hx => absurd rfl hx, trivial⟩, ?_, ?_⟩
            · intro j hj
              cases List.mem_singleton.1 hj
              exact ⟨hi, hidle⟩
            · intro j hj x hx
              cases hx
              exact hhead j hj
          · rename_i hfull
            push Not at hfull
            have hr := reserveRun_spec env d sectorCount n (page + pageSectors) (c1.pinEntry i)
              hcalm.sound (by unfold pageSectors; omega)
            obtain ⟨hpin', hsame⟩ := hpin.calm hr.calm
            refine ⟨(h1.trans hcalm).trans hr.calm, ⟨hpin', (by rw [hsame]; exact hm), fun _ => hfull.1, hr.run⟩, ?_,
              ?_⟩
            · intro j hj
              rcases List.mem_cons.1 hj with rfl | hj
              · exact ⟨hi, hidle⟩
              · obtain ⟨hj1, hj2⟩ := hr.idle j hj
                exact ⟨hj1, h1.idle hj1 (hcalm.idle hj1 hj2)⟩
            · intro j hj x hx
              cases hx
              exact hhead j hj

theorem unpinEntry_self (c : Cache α) (i : Nat) (oldest : Bool) :
    (c.unpinEntry i oldest).entries i = { c.entries i with ioBusy := false } := Function.update_self ..

theorem beginFillRun_quietly {c : Cache α} (h : c.Sound) (env : Env α) {d first i : Nat} (ha : first % 8 = 0)
    (hf : c.findEntry d first = some i) (requested staging : Nat) {k : Loop α} (hk : ReaderAt d first k) :
    Quietly k.flush c (proceed i k (c.beginFillRun env d first requested staging i k)) := by
  obtain ⟨hi, hv, hd, hp⟩ := (h.findEntry_eq d first i).1 hf
  have refused : ∀ c1, Calm c c1 → Quietly k.flush c (proceed i k (c1, .answered (α := α) false)) := fun c1 h1 =>
    (afterFill_quietly h1.sound hi (fun hx => by cases hx)).then h1
  unfold beginFillRun
  split
  · exact refused c (Effect.refl h)
  · rename_i b _
    dsimp only
    split
    · exact refused c (Effect.refl h)
    · have hr := reserveRun_spec env d b.sectorCount (min staging (c.fillRunPageLimitLocked env d requested)) first c h ha
      rcases hres : reserveRun env d b.sectorCount (min staging (c.fillRunPageLimitLocked env d requested)) first c
        with ⟨c1, slots⟩
      rw [hres] at hr
      match slots, hr with
      | [], hr => exact refused c1 hr.calm
      | [(j, m)], hr =>
        -- one page only: its pin is given back and the single-page fill takes over
        have hji : j = i := hr.head i hf _ rfl
        subst hji
        have hpin := hr.run.1
        have hidle := (hr.idle j (by simp)).2
        dsimp only
        have hun := unpinEntry_effect hr.calm.sound hi hpin.busy (decide ((c1.entries j).dirtyMask ≠ ∅))
          (P := fun x => x = j) rfl
        have hcalm : Calm c (c1.unpinEntry j (decide ((c1.entries j).dirtyMask ≠ ∅))) :=
          Effect.own_idle (Calm.then hr.calm hun) (fun x _ hx => by rw [hx]; exact hidle)
        have hv1 := hr.calm.sound.busy_valid hi hpin.busy
        have he := unpinEntry_self c1 j (decide ((c1.entries j).dirtyMask ≠ ∅))
        have hv2 : ((c1.unpinEntry j (decide ((c1.entries j).dirtyMask ≠ ∅))).entries j).valid = true := by rw [he]; exact hv1
        have hd2 : ((c1.unpinEntry j (decide ((c1.entries j).dirtyMask ≠ ∅))).entries j).device = d := by
          rw [he]; exact hpin.device
        have hp2 : ((c1.unpinEntry j (decide ((c1.entries j).dirtyMask ≠ ∅))).entries j).page = first := by
          rw [he]; exact hpin.page
        refine Quietly.then (proceed_quietly hcalm.sound hi hv2 hd2 hp2 hk ?_) hcalm
        exact fillWithBackendPolicy_quietly hcalm.sound env hi hv2 (by rw [he]) hd2 hp2 hk
      | (j, m) :: x :: rest, hr =>
        have hji : j = i := hr.head i hf _ rfl
        refine ⟨hr.calm, fun y hy => (hr.idle y hy).2, .inr rfl, ⟨hr.run, ?_, hk⟩, fun e he => by cases he⟩
        simp [hji]

end Cache
end PageCache
end R4
