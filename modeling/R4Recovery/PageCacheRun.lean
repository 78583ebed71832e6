import R4Recovery.PageCacheTransfers
/-!
# PageCacheRun — every run of the page cache

Any calls by any tasks, cut at their lock releases and interleaved in any order, with memory and backends that answer as
they like.  The state stays coherent through every step, and from that follow the cache's three promises: its structures
agree, reads see the last write, and a flush that returns true is a durability point.
-/
namespace R4
namespace PageCache

open PageIndex
open Cache (Base Fits DirtyAt Advances Elsewhere)

variable {α : Type}

namespace Cache

theorem Sound.init (frames : Nat) : (Cache.init α frames).Sound where
  index := Index.Wf.init
  tags := fun i hi => by
    have ht : (Cache.init α frames).index.tag i = { queue := .free } := by
      simp [Cache.init, PageIndex.init, Index.tag, hi]
    rw [ht]
    exact SlotFits.empty rfl rfl rfl (by simp [Index.isHeld, Index.isClean, Index.isDirty])
  chained := ⟨fun _ => [], fun b => ⟨rfl, List.nodup_nil, fun a i t h => by cases a <;> cases h⟩,
    fun b i => by simp [Cache.init]⟩
  unique := fun i j _ _ hv => by cases hv
  totals := by
    refine ⟨?_, ?_, fun d _ => ?_⟩
    · simp [Cache.init, total, dirtyPage]
    · simp [Cache.init, total, dirtySectors]
    · refine (Finset.sum_eq_zero (fun i _ => ?_)).symm
      simp only [Cache.init, dirtySectorsOn, Finset.card_empty]
      exact ite_self 0

end Cache

namespace World

/-- The sectors that completed direct writes have on the device before they are recorded. -/
def Landed (w : World α) (d l : Nat) : Prop := ∃ t, (w.tasks t).landed d l

/-- **The invariant of every run.** -/
structure Coherent (init : Nat → Nat → α) (w : World α) : Prop where
  base : Base init w.Landed w.disk w.log w.cache
  fits : ∀ t, Fits init w.disk w.log w.cache (w.tasks t)
  apart : ∀ t t', t ≠ t' → ∀ i ∈ (w.tasks t).pins, i ∉ (w.tasks t').pins
  since : ∀ t d batch since, (w.tasks t).flush = some (d, batch, since) → since ≤ w.log.length

variable {init : Nat → Nat → α}

theorem Coherent.fresh (disk : Nat → Nat → α) (frames : Nat) : Coherent disk (World.init disk frames) where
  base :=
    { sound := Cache.Sound.init frames
      frames := fun i _ hv => by cases hv
      owners := fun i _ hv => by cases hv
      owed := fun _ _ _ => trivial
      onDisk := fun _ _ _ _ => rfl
      honest := trivial
      flushes := trivial }
  fits := fun _ => trivial
  apart := fun _ _ _ i hi => by cases hi
  since := fun _ _ _ _ h => by cases h

theorem Coherent.elsewhere {w : World α} (h : Coherent init w) (t : Nat) :
    Elsewhere w.cache (w.tasks t).pins (fun d l => ∃ t', t' ≠ t ∧ (w.tasks t').landed d l) := by
  rintro d l ⟨t', ht, hl⟩
  have hf := h.fits t'
  have hp := h.apart t' t ht
  cases htask : w.tasks t' with
  | wroteDirect d' lba data completed owned reserved =>
    rw [htask] at hl hf hp
    obtain ⟨rfl, h1, h2⟩ := hl
    obtain ⟨ho, hc, _⟩ := hf
    obtain ⟨i, hi, hpin⟩ := ho.covers (l - lba) (by omega)
    rw [show lba + (l - lba) = l by omega] at hpin
    exact ⟨i, hpin.lt, hpin.busy, hp i hi, hpin.device, hpin.page⟩
  | _ =>
    rw [htask] at hl
    exact hl.elim

/-- **One step of any task.** -/
theorem advance_advances {w : World α} {X : Nat → Nat → Prop} {task : Task α} (hx : Elsewhere w.cache task.pins X)
    (hf : Fits init w.disk w.log w.cache task)
    (hl : Base init (fun d l => X d l ∨ task.landed d l) w.disk w.log w.cache) (env : Env α) :
    Advances init X w.disk w.log w.cache task (w.advance env task).2 (w.advance env task).1 := by
  have hq : (∀ d l, ¬ task.landed d l) → Base init X w.disk w.log w.cache := fun hn =>
    hl.mono (fun d l h => h.resolve_right (hn d l))
  cases task with
  | loop k =>
    have hb := hq (fun _ _ => id)
    by_cases hk : Loop.marks k
    · cases k with
      | writeSector d lba v batch guard => exact Cache.writeOne_advances hb env d lba v batch guard
      | _ => exact hk.elim
    · exact Advances.quiet (Cache.Keeps.refl hb _) (Cache.runLoop_quietly hb.sound env hk) rfl
  | waitWriteback i batch selected before k =>
    have hb := hq (fun _ _ => id)
    exact Advances.quiet (Cache.Keeps.refl hb _)
      (Cache.startWriteback_quietly hb.sound env i batch selected before k) rfl
  | writeback => exact Cache.writeback_advances (hq (fun _ _ => id)) env hf
  | wroteBack => exact Cache.finishWriteback_advances (hq (fun _ _ => id)) env hf
  | fill => exact Cache.fill_advances (hq (fun _ _ => id)) hf hx _ _
  | filled => exact Cache.finishFill_advances (hq (fun _ _ => id)) env hf
  | fillRun => exact Cache.fillRun_advances (hq (fun _ _ => id)) hf hx _
  | filledRun => exact Cache.finishRun_advances (hq (fun _ _ => id)) hf
  | pinPages d lba data offset owned reserved =>
    have := Cache.pinPages_advances (hq (fun _ _ => id)) env hf
    simp only [advance]
    split at this <;> rename_i hlt
    · rw [if_pos hlt]
      exact this
    · rw [if_neg hlt]
      exact this
  | direct => exact Cache.direct_advances (hq (fun _ _ => id)) hf (Nat.min_le_right _ _)
  | wroteDirect => exact Cache.wroteDirect_advances hl hf
  | barrier => exact Cache.barrier_advances (hq (fun _ _ => id)) env hf
  | rangeBarrier =>
    have hb := hq (fun _ _ => id)
    exact Advances.quiet (Cache.Keeps.refl hb _) (Cache.Quietly.idleTask (n := none) (Cache.Effect.refl hb.sound)) rfl

theorem Coherent.advances {w : World α} (h : Coherent init w) (t : Nat) (env : Env α) :
    Advances init (fun d l => ∃ t', t' ≠ t ∧ (w.tasks t').landed d l) w.disk w.log w.cache (w.tasks t)
      (w.advance env (w.tasks t)).2 (w.advance env (w.tasks t)).1 := by
  refine advance_advances (h.elsewhere t) (h.fits t) (h.base.mono (fun d l hl => ?_)) env
  obtain ⟨t', hl⟩ := hl
  by_cases ht : t' = t
  · exact .inr (ht ▸ hl)
  · exact .inl ⟨t', ht, hl⟩

/-- **A step keeps the invariant.** -/
theorem Coherent.step {w : World α} (h : Coherent init w) (t : Nat) (env : Env α) : Coherent init (w.step t env) := by
  have ha := h.advances t env
  have hfix : ∀ t', t' ≠ t → (w.step t env).tasks t' = w.tasks t' := fun t' ht => Function.update_of_ne ht ..
  have hself : (w.step t env).tasks t = (w.advance env (w.tasks t)).1.task := Function.update_self ..
  refine ⟨ha.base.mono (fun d l hl => ?_), fun t' => ?_, fun t1 t2 hne i hi => ?_, fun t' d batch since hs => ?_⟩
  · rcases hl with ⟨t', ht, hl⟩ | hl
    · exact ⟨t', by rw [hfix t' ht]; exact hl⟩
    · exact ⟨t, by rw [hself]; exact hl⟩
  · by_cases ht : t' = t
    · subst ht
      rw [hself]
      exact ha.fits
    · rw [hfix t' ht]
      refine (h.fits t').frame h.base.sound ha.base.sound (fun i hi => ?_) (h.since t')
      obtain ⟨hlt, hbusy⟩ := (h.fits t').lt i hi
      exact ha.same i hlt hbusy (h.apart t' t ht i hi)
  · -- new pins were idle, so no other task holds them
    have key : ∀ t', t' ≠ t → ∀ i ∈ (w.advance env (w.tasks t)).1.task.pins, i ∉ (w.tasks t').pins := by
      intro t' ht i hi hi'
      rcases ha.pins i hi with hp | hp
      · exact h.apart t t' (Ne.symm ht) i hp hi'
      · rw [((h.fits t').lt i hi').2] at hp
        cases hp
    by_cases h1 : t1 = t
    · subst h1
      rw [hself] at hi
      rw [hfix t2 (Ne.symm hne)]
      exact key t2 (Ne.symm hne) i hi
    · rw [hfix t1 h1] at hi
      by_cases h2 : t2 = t
      · subst h2
        rw [hself]
        exact fun hx => key t1 h1 i hx hi
      · rw [hfix t2 h2]
        exact h.apart t1 t2 hne i hi
  · have hlen : w.log.length ≤ (w.step t env).log.length := by
      show _ ≤ (_ ++ w.log).length
      rw [List.length_append]
      omega
    by_cases ht : t' = t
    · subst ht
      rw [hself] at hs
      rcases ha.flush with hx | hx
      · rw [hx] at hs
        cases hs
      · exact Nat.le_trans (h.since t' d batch since (hx ▸ hs)) hlen
    · rw [hfix t' ht] at hs
      exact Nat.le_trans (h.since t' d batch since hs) hlen

variable (init) in
theorem start_fresh (n : Nat) (f : Call α) : (f.start n).pins = [] ∧ (∀ d l, ¬ (f.start n).landed d l) ∧
    (∀ (disk : Nat → Nat → α) (log : List (Event α)) (c : Cache α), Fits init disk log c (f.start n)) ∧
    ∀ d batch since, (f.start n).flush = some (d, batch, since) → since = n := by
  have plain : ∀ k : Loop α, (∀ d batch since, k.flush = some (d, batch, since) → since = n) →
      (Task.loop k).pins = [] ∧ (∀ d l, ¬ (Task.loop k).landed d l) ∧
      (∀ (disk : Nat → Nat → α) (log : List (Event α)) (c : Cache α), Fits init disk log c (.loop k)) ∧
      ∀ d batch since, (Task.loop k).flush = some (d, batch, since) → since = n :=
    fun k hk => ⟨rfl, fun _ _ => id, fun _ _ _ => trivial, hk⟩
  cases f <;> simp only [Call.start]
  case readSectors =>
    split
    · exact plain _ (fun _ _ _ h => by cases h)
    · exact plain _ (fun _ _ _ h => by cases h)
  case writeSectorsDirect d lba data =>
    split
    · exact plain _ (fun _ _ _ h => by cases h)
    · refine ⟨rfl, fun _ _ => id, fun _ _ c => ⟨Nat.zero_le _, ⟨fun j hj => ?_, fun i hi => ?_⟩⟩, fun _ _ _ h => by cases h⟩
      · exact absurd hj (Nat.not_lt_zero j)
      · cases hi
  case flushDevice => exact plain _ (fun _ _ _ h => by cases h; rfl)
  case flushDeviceBatch =>
    split
    · exact plain _ (fun _ _ _ h => by cases h; rfl)
    · exact plain _ (fun _ _ _ h => by cases h; rfl)
  all_goals exact plain _ (fun _ _ _ h => by cases h)

theorem Coherent.call {w : World α} (h : Coherent init w) (t : Nat) (f : Call α) : Coherent init (w.call t f) := by
  unfold World.call
  split
  · rename_i hidle
    obtain ⟨h1, h2, h3, h4⟩ := start_fresh init w.log.length f
    have hfix : ∀ t', t' ≠ t → Function.update w.tasks t (f.start w.log.length) t' = w.tasks t' := fun t' ht =>
      Function.update_of_ne ht ..
    refine ⟨h.base.mono (fun d l hl => ?_), fun t' => ?_, fun t1 t2 hne i hi => ?_, fun t' d batch since hs => ?_⟩
    · obtain ⟨t', hl⟩ := hl
      refine ⟨t', ?_⟩
      dsimp only
      rw [hfix t']
      · exact hl
      · rintro rfl
        rw [hidle] at hl
        exact hl
    · by_cases ht : t' = t
      · subst ht
        dsimp only
        rw [Function.update_self]
        exact h3 _ _ _
      · dsimp only
        rw [hfix t' ht]
        exact h.fits t'
    · dsimp only at hi ⊢
      by_cases ht1 : t1 = t
      · subst ht1
        rw [Function.update_self, h1] at hi
        cases hi
      · rw [hfix t1 ht1] at hi
        by_cases ht2 : t2 = t
        · subst ht2
          rw [Function.update_self, h1]
          exact List.not_mem_nil
        · rw [hfix t2 ht2]
          exact h.apart t1 t2 hne i hi
    · dsimp only at hs ⊢
      by_cases ht : t' = t
      · subst ht
        rw [Function.update_self] at hs
        exact Nat.le_of_eq (h4 d batch since hs)
      · rw [hfix t' ht] at hs
        exact h.since t' d batch since hs
  · exact h

theorem Coherent.apply {w : World α} (h : Coherent init w) : ∀ a : Action α, Coherent init (w.apply a)
  | .call t f => h.call t f
  | .step t env => h.step t env

/-- **Every run is coherent.** -/
theorem Coherent.run : ∀ (actions : List (Action α)) {w : World α}, Coherent init w → Coherent init (w.run actions)
  | [], _, h => h
  | a :: actions, _, h => Coherent.run actions (h.apply a)

/-! ## The three promises -/

/-- **The cache's redundant structures agree**: the index whatever is called on it, and the slots, masks, chains and
totals of the cache at every lock release of every run. -/
theorem representation_invariant (disk : Nat → Nat → α) (frames : Nat) :
    (∀ ops : List Index.Op, (ops.foldl Index.apply PageIndex.init).Wf) ∧
    ∀ actions : List (Action α), let c := ((World.init disk frames).run actions).cache
      c.index.Wf ∧
      (∀ i < maxEntries,
        ((c.entries i).valid = true ↔ Index.isHeld (c.index.tag i) = true) ∧
        ((c.entries i).valid = true → (c.index.tag i).device = (c.entries i).device) ∧
        ((c.entries i).ioBusy = true ↔ Index.isBusy (c.index.tag i) = true) ∧
        ((c.entries i).dirtyMask ≠ ∅ ↔ Index.isDirty (c.index.tag i) = true) ∧
        (c.entries i).dirtyMask ⊆ (c.entries i).validMask) ∧
      (∀ i j, i < maxEntries → j < maxEntries → (c.entries i).valid = true → (c.entries j).valid = true →
        (c.entries i).device = (c.entries j).device → (c.entries i).page = (c.entries j).page → i = j) ∧
      (∀ i < maxEntries, (c.entries i).valid = true →
        c.findEntry (c.entries i).device (c.entries i).page = some i) ∧
      c.Totals := by
  refine ⟨fun ops => Index.Wf.run ops Index.Wf.init, fun actions => ?_⟩
  have h := ((Coherent.fresh disk frames).run actions).base.sound
  refine ⟨h.index, fun i hi => ?_, h.unique, fun i hi hv => (h.findEntry_eq _ _ i).2 ⟨hi, hv, rfl, rfl⟩, h.totals⟩
  have hf := h.tags i hi
  exact ⟨by rw [hf.held], hf.device, by rw [hf.busy], hf.dirty, hf.subset⟩

/-- The flush that task `t` is about returns true in its next step: it stands at its barrier, and the backend flushes. -/
def FlushReturns (w : World α) (t : Nat) (env : Env α) : Prop :=
  ∃ d batch since, w.tasks t = .barrier d batch since ∧ env.flush = true

theorem Coherent.flush_kept {t : Nat} {f : Option (Nat × Option Nat × Nat)} : ∀ (actions : List (Action α)) {w : World α},
    Coherent init w → (w.tasks t).flush = none ∨ (w.tasks t).flush = f → (∀ g, Action.call t g ∉ actions) →
      ((w.run actions).tasks t).flush = none ∨ ((w.run actions).tasks t).flush = f
  | [], _, _, hf, _ => hf
  | a :: actions, w, h, hf, hn => by
    refine Coherent.flush_kept actions (h.apply a) ?_ (fun g hg => hn g (List.mem_cons_of_mem _ hg))
    cases a with
    | call t' g =>
      have ht : t ≠ t' := fun ht => hn g (by simp [ht])
      show ((w.call t' g).tasks t).flush = none ∨ ((w.call t' g).tasks t).flush = f
      unfold World.call
      split
      · dsimp only
        rw [Function.update_of_ne ht]
        exact hf
      · exact hf
    | step t' env =>
      by_cases ht : t = t'
      · subst ht
        have ha := (h.advances t env).flush
        have hself : ((w.step t env).tasks t) = (w.advance env (w.tasks t)).1.task := Function.update_self ..
        show ((w.step t env).tasks t).flush = none ∨ ((w.step t env).tasks t).flush = f
        rw [hself]
        rcases ha with ha | ha
        · exact .inl ha
        · rw [ha]
          exact hf
      · have hfix : (w.step t' env).tasks t = w.tasks t := Function.update_of_ne ht ..
        show ((w.step t' env).tasks t).flush = none ∨ ((w.step t' env).tasks t).flush = f
        rw [hfix]
        exact hf

theorem run_log : ∀ (actions : List (Action α)) (w : World α), ∃ es, (w.run actions).log = es ++ w.log
  | [], w => ⟨[], rfl⟩
  | a :: actions, w => by
    obtain ⟨es, he⟩ := run_log actions (w.apply a)
    have hw : ∃ es', (w.apply a).log = es' ++ w.log := by
      cases a with
      | call t f =>
        refine ⟨[], ?_⟩
        show (w.call t f).log = w.log
        unfold World.call
        split <;> rfl
      | step t env => exact ⟨_, rfl⟩
    obtain ⟨es', he'⟩ := hw
    exact ⟨es ++ es', by rw [show (w.run (a :: actions)) = (w.apply a).run actions from rfl, he, he', List.append_assoc]⟩

theorem Coherent.flush_drained {w : World α} (h : Coherent init w) {t : Nat} {g : Call α} (hidle : w.tasks t = .idle)
    {d : Nat} (batch : Option Nat) (hg : (g.start w.log.length).flush = some (d, batch, w.log.length))
    {during : List (Action α)} (hn : ∀ g', Action.call t g' ∉ during) {env : Env α}
    (hr : ((w.call t g).run during).FlushReturns t env) :
    Drained ((w.call t g).run during).log d batch w.log.length := by
  have h1 := h.call t g
  have hcall : ((w.call t g).tasks t).flush = some (d, batch, w.log.length) := by
    unfold World.call
    rw [hidle]
    dsimp only [Task.idle]
    rw [Function.update_self]
    exact hg
  have hk := h1.flush_kept during (.inr hcall) hn
  obtain ⟨d', batch', since', ht, _⟩ := hr
  have hf := (h1.run during).fits t
  rw [ht] at hf hk
  rcases hk with hk | hk
  · cases hk
  · cases hk
    exact hf

/-- **A flush is a durability point.**  When `flushDevice` returns true, every write to the device from before the call
has been received; when `flushDeviceBatch` does, every cached write of the batch has, but for those that a later cached
write of another batch has taken over.  At any time, returned or not, a write that has not been received is dirty. -/
theorem flush_durable (disk : Nat → Nat → α) (frames : Nat) :
    (∀ (before during : List (Action α)) (t d b : Nat) (env : Env α),
      let w0 := (World.init disk frames).run before
      let w := (w0.call t (.flushDeviceBatch d b)).run during
      w0.tasks t = .idle → (∀ g, Action.call t g ∉ during) → w.FlushReturns t env →
        ∀ n l v, At w0.log n (.cached d l v b) → Received w.log n d l ∨ Superseded w.log n d l b) ∧
    (∀ (before during : List (Action α)) (t d : Nat) (env : Env α),
      let w0 := (World.init disk frames).run before
      let w := (w0.call t (.flushDevice d)).run during
      w0.tasks t = .idle → (∀ g, Action.call t g ∉ during) → w.FlushReturns t env →
        ∀ n e l, At w0.log n e → e.Writes d l → Received w.log n d l) ∧
    ∀ (actions : List (Action α)),
      let w := (World.init disk frames).run actions
      ∀ n e d l, At w.log n e → e.Writes d l → Received w.log n d l ∨ DirtyAt w.cache d l := by
  have hlog : ∀ (w : World α) (t : Nat) (g : Call α) (during : List (Action α)) (n : Nat) (e : Event α),
      At w.log n e → At ((w.call t g).run during).log n e := by
    intro w t g during n e he
    obtain ⟨es, hes⟩ := run_log (.call t g :: during) w
    have := he.grow es
    rw [← hes] at this
    exact this
  refine ⟨fun before during t d b env => ?_, fun before during t d env => ?_, fun actions => ?_⟩
  · dsimp only
    intro hidle hn hr n l v he
    have h := (Coherent.fresh disk frames).run before
    by_cases hb : b = noWriteBatch
    · have hd := h.flush_drained hidle (d := d) none (g := .flushDeviceBatch d b)
        (by simp only [Call.start, if_pos hb, Task.flush, Loop.flush]) hn hr
      rcases hd n _ l he.lt (hlog _ _ _ _ _ _ he) ⟨rfl, rfl, fun own ho => by cases ho⟩ with hd | ⟨own, ho, _⟩
      · exact .inl hd
      · cases ho
    · have hd := h.flush_drained hidle (d := d) (some b) (g := .flushDeviceBatch d b)
        (by simp only [Call.start, if_neg hb, Task.flush, Loop.flush]) hn hr
      rcases hd n _ l he.lt (hlog _ _ _ _ _ _ he) ⟨rfl, rfl, fun own ho => by cases ho; rfl⟩ with hd | ⟨own, ho, hd⟩
      · exact .inl hd
      · cases ho
        exact .inr hd
  · dsimp only
    intro hidle hn hr n e l he hw
    have h := (Coherent.fresh disk frames).run before
    have hd := h.flush_drained hidle (d := d) none (g := .flushDevice d) rfl hn hr
    have howed : e.Owed d none l := by
      cases e with
      | cached => exact ⟨hw.1, hw.2, fun own ho => by cases ho⟩
      | direct => exact ⟨hw.1, hw.2, rfl⟩
      | _ => exact hw.elim
    rcases hd n e l he.lt (hlog _ _ _ _ _ _ he) howed with hd | ⟨own, ho, _⟩
    · exact hd
    · cases ho
  · dsimp only
    intro n e d l he hw
    have h := (Coherent.fresh disk frames).run actions
    by_cases hd : DirtyAt ((World.init disk frames).run actions).cache d l
    · exact .inr hd
    · exact .inl (received_of_clear h.base.honest (h.base.owed d l hd) he hw)

/-! ## A batch that another batch writes over -/

/-- Memory, heap and backends that answer everything. -/
def willing : Env Nat where
  freeFrames := 65536
  now := 1
  backend := fun _ => none
  frame := fun _ _ => some (fun _ => 0)
  heap := true
  read := fun _ => true
  write := fun _ _ => true
  torn := fun _ => 0
  completed := 0
  flush := true

/-- Sector 0 written in batch 1, then in batch 2. -/
def rewritten : World Nat := (World.init (fun _ _ => 0) 65536).run
  [.call 0 (.writeSectorInBatch 0 0 1 1), .step 0 willing, .call 0 (.writeSectorInBatch 0 0 2 2), .step 0 willing]

theorem flush_leaves_rewritten :
    let w := (rewritten.call 0 (.flushDeviceBatch 0 1)).run [.step 0 willing]
    rewritten.tasks 0 = .idle ∧ At rewritten.log 0 (.cached 0 0 1 1) ∧ w.FlushReturns 0 willing ∧
      ¬ Received w.log 0 0 0 := by
  dsimp only
  have hlog : ((rewritten.call 0 (.flushDeviceBatch 0 1)).run [.step 0 willing]).log
      = [.cached 0 0 2 2, .cached 0 0 1 1] := by rfl
  refine ⟨by rfl, by rfl, ⟨0, some 1, 2, by rfl, rfl⟩, ?_⟩
  rw [hlog]
  have none_else : ∀ (m : Nat) (e : Event Nat), At [.cached 0 0 2 2, .cached 0 0 1 1] m e → ∃ v b, e = .cached 0 0 v b := by
    intro m e he
    rcases he.cons with he | ⟨_, rfl⟩
    · rcases he.cons with he | ⟨_, rfl⟩
      · cases (List.getElem?_eq_some_iff.1 he).1
      · exact ⟨1, 1, rfl⟩
    · exact ⟨2, 2, rfl⟩
  rintro ⟨m, v, _, h | ⟨_, p, _, h⟩⟩
  · obtain ⟨v', b', hx⟩ := none_else m _ h
    cases hx
  · obtain ⟨v', b', hx⟩ := none_else p _ h
    cases hx

theorem flush_durable_rewritten :
    let w := (rewritten.call 0 (.flushDeviceBatch 0 1)).run [.step 0 willing]
    let w' := (rewritten.call 0 (.flushDevice 0)).run
      [.step 0 willing, .step 0 willing, .step 0 willing, .step 0 willing]
    (Received w.log 0 0 0 ∨ Superseded w.log 0 0 0 1) ∧ Received w'.log 1 0 0 := by
  have h := flush_durable (fun _ _ => 0) 65536
  refine ⟨h.1 _ [.step 0 willing] 0 0 1 willing (by rfl) (by simp) ⟨0, some 1, 2, by rfl, rfl⟩ 0 0 1 (by rfl), ?_⟩
  exact h.2.1 _ [.step 0 willing, .step 0 willing, .step 0 willing, .step 0 willing] 0 0 willing (by rfl) (by simp)
    ⟨0, none, 2, by rfl, rfl⟩ 1 (.cached 0 0 2 2) 0 (by rfl) ⟨rfl, rfl⟩

end World
end PageCache
end R4
