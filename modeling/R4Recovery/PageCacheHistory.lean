import R4Recovery.PageCachePins
/-!
# PageCacheHistory — what the history of a device says about its sectors

The log is newest first.  From it alone: the data of the last write to a sector (`latest`), the batch of the last cached
write (`lastBatch`), whether the last write has reached the device (`Clear`), and the durability statements about
single writes (`Received`, `Superseded`, `Drained`).
-/
namespace R4
namespace PageCache

variable {α : Type}

/-- The data of the last write to a sector, or what the device held at first. -/
def latest (init : Nat → Nat → α) : List (Event α) → Nat → Nat → α
  | [], d, l => init d l
  | .cached d' l' v _ :: log, d, l => if d' = d ∧ l' = l then v else latest init log d l
  | .direct d' l' v :: log, d, l => if d' = d ∧ l' = l then v else latest init log d l
  | .stored .. :: log, d, l => latest init log d l
  | .delivered .. :: log, d, l => latest init log d l
  | .flushed .. :: log, d, l => latest init log d l

/-- The batch of the last write to a sector, when that was a cached one. -/
def lastBatch : List (Event α) → Nat → Nat → Option Nat
  | [], _, _ => none
  | .cached d' l' _ b :: log, d, l => if d' = d ∧ l' = l then some b else lastBatch log d l
  | .direct d' l' _ :: log, d, l => if d' = d ∧ l' = l then none else lastBatch log d l
  | .stored .. :: log, d, l => lastBatch log d l
  | .delivered .. :: log, d, l => lastBatch log d l
  | .flushed .. :: log, d, l => lastBatch log d l

/-- No cached write to the sector is still to be stored. -/
def Clear : List (Event α) → Nat → Nat → Prop
  | [], _, _ => True
  | .cached d' l' _ _ :: log, d, l => ¬ (d' = d ∧ l' = l) ∧ Clear log d l
  | .direct d' l' _ :: log, d, l => (d' = d ∧ l' = l) ∨ Clear log d l
  | .stored d' l' _ :: log, d, l => (d' = d ∧ l' = l) ∨ Clear log d l
  | .delivered .. :: log, d, l => Clear log d l
  | .flushed .. :: log, d, l => Clear log d l

/-- The event is number `n` of the history. -/
def At (log : List (Event α)) (n : Nat) (e : Event α) : Prop := log.reverse[n]? = some e

/-- The event writes the sector. -/
def Event.Writes (d l : Nat) : Event α → Prop
  | .cached d' l' _ _ => d' = d ∧ l' = l
  | .direct d' l' _ => d' = d ∧ l' = l
  | _ => False

/-- **The device has received write `n` or a later write to the same sector**: a direct write, or a cached one whose
data a writeback stored after it. -/
def Received (log : List (Event α)) (n d l : Nat) : Prop :=
  ∃ m v, n ≤ m ∧ (At log m (.direct d l v) ∨ (∃ b, At log m (.cached d l v b)) ∧ ∃ p, m < p ∧ At log p (.stored d l v))

/-- A cached write of another batch came after write `n`. -/
def Superseded (log : List (Event α)) (n d l batch : Nat) : Prop :=
  ∃ m v b, n < m ∧ b ≠ batch ∧ At log m (.cached d l v b)

/-- What a flush owes: all writes before the call, or the cached ones of its batch. -/
def Event.Owed (d : Nat) (batch : Option Nat) (l : Nat) : Event α → Prop
  | .cached d' l' _ b => d' = d ∧ l' = l ∧ ∀ own, batch = some own → b = own
  | .direct d' l' _ => d' = d ∧ l' = l ∧ batch = none
  | _ => False

/-- **Every write a flush owes is on the device**, unless the flush is for one batch and another batch has written the
sector since. -/
def Drained (log : List (Event α)) (d : Nat) (batch : Option Nat) (since : Nat) : Prop :=
  ∀ n e l, n < since → At log n e → e.Owed d batch l →
    Received log n d l ∨ ∃ own, batch = some own ∧ Superseded log n d l own

/-- Sectors stored and sectors delivered hold the data of the last write before. -/
def Honest (init : Nat → Nat → α) : List (Event α) → Prop
  | [] => True
  | .stored d l v :: log => v = latest init log d l ∧ Honest init log
  | .delivered d l v :: log => v = latest init log d l ∧ Honest init log
  | .cached .. :: log => Honest init log
  | .direct .. :: log => Honest init log
  | .flushed .. :: log => Honest init log

/-- Every flush that returned true had drained what it owed. -/
def Flushes : List (Event α) → Prop
  | [] => True
  | .flushed d batch since :: log => Drained log d batch since ∧ Flushes log
  | .cached .. :: log => Flushes log
  | .direct .. :: log => Flushes log
  | .stored .. :: log => Flushes log
  | .delivered .. :: log => Flushes log

/-! ## Positions -/

theorem At.lt {log : List (Event α)} {n : Nat} {e : Event α} (h : At log n e) : n < log.length := by
  have := (List.getElem?_eq_some_iff.1 h).1
  rwa [List.length_reverse] at this

theorem At.grow {log : List (Event α)} {n : Nat} {e : Event α} (h : At log n e) (es : List (Event α)) :
    At (es ++ log) n e := by
  unfold At
  rw [List.reverse_append, List.getElem?_append_left (by rw [List.length_reverse]; exact h.lt)]
  exact h

theorem At.old {es log : List (Event α)} {n : Nat} {e : Event α} (h : At (es ++ log) n e) (hn : n < log.length) :
    At log n e := by
  unfold At at h
  rwa [List.reverse_append, List.getElem?_append_left (by rw [List.length_reverse]; exact hn)] at h

theorem At.head (e : Event α) (log : List (Event α)) : At (e :: log) log.length e := by
  unfold At
  rw [List.reverse_cons, List.getElem?_append_right (by rw [List.length_reverse])]
  simp

theorem At.cons {x e : Event α} {log : List (Event α)} {n : Nat} (h : At (x :: log) n e) :
    At log n e ∨ n = log.length ∧ e = x := by
  by_cases hn : n < log.length
  · have h' : At ([x] ++ log) n e := h
    exact .inl (h'.old hn)
  · have hlt := h.lt
    rw [List.length_cons] at hlt
    have hnn : n = log.length := by omega
    subst hnn
    have h' := At.head x log
    unfold At at h h'
    rw [h] at h'
    cases h'
    exact .inr ⟨rfl, rfl⟩

theorem Received.grow {log : List (Event α)} {n d l : Nat} (h : Received log n d l) (es : List (Event α)) :
    Received (es ++ log) n d l := by
  obtain ⟨m, v, hm, h | ⟨⟨b, h⟩, p, hp, hs⟩⟩ := h
  · exact ⟨m, v, hm, .inl (h.grow es)⟩
  · exact ⟨m, v, hm, .inr ⟨⟨b, h.grow es⟩, p, hp, hs.grow es⟩⟩

theorem Superseded.grow {log : List (Event α)} {n d l b : Nat} (h : Superseded log n d l b) (es : List (Event α)) :
    Superseded (es ++ log) n d l b := by
  obtain ⟨m, v, b', h1, h2, h3⟩ := h
  exact ⟨m, v, b', h1, h2, h3.grow es⟩

theorem Drained.grow {log : List (Event α)} {d since : Nat} {batch : Option Nat} (h : Drained log d batch since)
    (hs : since ≤ log.length) (es : List (Event α)) : Drained (es ++ log) d batch since := by
  intro n e l hn he ho
  rcases h n e l hn (he.old (by omega)) ho with hr | ⟨own, hb, hr⟩
  · exact .inl (hr.grow es)
  · exact .inr ⟨own, hb, hr.grow es⟩

/-! ## The last write -/

/-- **`latest` is the data of a write**, of write `n` or a later one. -/
theorem latest_at (init : Nat → Nat → α) {d l : Nat} : ∀ {log : List (Event α)} {n : Nat} {e : Event α},
    At log n e → e.Writes d l →
      ∃ m, n ≤ m ∧ (At log m (.direct d l (latest init log d l)) ∨
        ∃ b, At log m (.cached d l (latest init log d l) b))
  | [], n, e, h, _ => by cases (List.getElem?_eq_some_iff.1 h).1
  | x :: log, n, e, h, hw => by
    have old : ¬ x.Writes d l → latest init (x :: log) d l = latest init log d l →
        ∃ m, n ≤ m ∧ (At (x :: log) m (.direct d l (latest init (x :: log) d l)) ∨
          ∃ b, At (x :: log) m (.cached d l (latest init (x :: log) d l) b)) := fun hx hl => by
      rw [hl]
      rcases h.cons with h | ⟨_, rfl⟩
      · obtain ⟨m, hm, ha | ⟨b, ha⟩⟩ := latest_at init h hw
        · exact ⟨m, hm, .inl (ha.grow [x])⟩
        · exact ⟨m, hm, .inr ⟨b, ha.grow [x]⟩⟩
      · exact absurd hw hx
    have hn : n ≤ log.length := Nat.le_of_lt_succ h.lt
    cases x with
    | cached d' l' v b =>
      by_cases hx : d' = d ∧ l' = l
      · obtain ⟨rfl, rfl⟩ := hx
        exact ⟨log.length, hn, .inr ⟨b, by simp only [latest, and_self, if_true]; exact At.head _ _⟩⟩
      · exact old hx (if_neg hx)
    | direct d' l' v =>
      by_cases hx : d' = d ∧ l' = l
      · obtain ⟨rfl, rfl⟩ := hx
        exact ⟨log.length, hn, .inl (by simp only [latest, and_self, if_true]; exact At.head _ _)⟩
      · exact old hx (if_neg hx)
    | stored => exact old id rfl
    | delivered => exact old id rfl
    | flushed => exact old id rfl

/-- **When nothing is owed, every write to the sector has been received.** -/
theorem received_of_clear {init : Nat → Nat → α} {d l : Nat} : ∀ {log : List (Event α)} {n : Nat} {e : Event α},
    Honest init log → Clear log d l → At log n e → e.Writes d l → Received log n d l
  | [], n, e, _, _, h, _ => by cases (List.getElem?_eq_some_iff.1 h).1
  | x :: log, n, e, ho, hc, h, hw => by
    have old : ¬ x.Writes d l → Honest init log → Clear log d l → Received (x :: log) n d l := fun hx ho hc => by
      rcases h.cons with h | ⟨_, rfl⟩
      · exact (received_of_clear ho hc h hw).grow [x]
      · exact absurd hw hx
    have hn : n ≤ log.length := Nat.le_of_lt_succ h.lt
    cases x with
    | cached d' l' v b => exact old hc.1 ho hc.2
    | direct d' l' v =>
      by_cases hx : d' = d ∧ l' = l
      · obtain ⟨rfl, rfl⟩ := hx
        exact ⟨log.length, v, hn, .inl (At.head _ _)⟩
      · exact old hx ho (hc.resolve_left hx)
    | stored d' l' v =>
      by_cases hx : d' = d ∧ l' = l
      · obtain ⟨rfl, rfl⟩ := hx
        rcases h.cons with h' | ⟨_, rfl⟩
        · obtain ⟨m, hm, ha | ⟨b, ha⟩⟩ := latest_at init h' hw
          · exact ⟨m, _, hm, .inl (ha.grow [_])⟩
          · rw [← ho.1] at ha
            exact ⟨m, v, hm, .inr ⟨⟨b, ha.grow [_]⟩, log.length, ha.lt, At.head _ _⟩⟩
        · exact hw.elim
      · exact old id ho.2 (hc.resolve_left hx)
    | delivered => exact old id ho.2 hc
    | flushed => exact old id ho hc

theorem lastBatch_at {d l b : Nat} : ∀ {log : List (Event α)}, lastBatch log d l = some b →
    ∃ m v, At log m (.cached d l v b) ∧ ∀ n e, At log n e → e.Writes d l → n ≤ m
  | [], h => by cases h
  | x :: log, h => by
    have old : ¬ x.Writes d l → lastBatch log d l = some b →
        ∃ m v, At (x :: log) m (.cached d l v b) ∧ ∀ n e, At (x :: log) n e → e.Writes d l → n ≤ m := fun hx hl => by
      obtain ⟨m, v, hm, hall⟩ := lastBatch_at hl
      refine ⟨m, v, hm.grow [x], fun n e he hw => ?_⟩
      rcases he.cons with he | ⟨_, rfl⟩
      · exact hall n e he hw
      · exact absurd hw hx
    cases x with
    | cached d' l' v b' =>
      by_cases hx : d' = d ∧ l' = l
      · obtain ⟨rfl, rfl⟩ := hx
        simp only [lastBatch, and_self, if_true, Option.some.injEq] at h
        subst h
        exact ⟨log.length, v, At.head _ _, fun n e he _ => Nat.le_of_lt_succ he.lt⟩
      · exact old hx (by rwa [lastBatch, if_neg hx] at h)
    | direct d' l' v =>
      by_cases hx : d' = d ∧ l' = l
      · rw [lastBatch, if_pos hx] at h
        cases h
      · exact old hx (by rwa [lastBatch, if_neg hx] at h)
    | stored => exact old id h
    | delivered => exact old id h
    | flushed => exact old id h

/-! ## Events that write nothing -/

/-- The event tells of data that is the last write's. -/
def Event.Tells (init : Nat → Nat → α) (log : List (Event α)) : Event α → Prop
  | .stored d l v => v = latest init log d l
  | .delivered d l v => v = latest init log d l
  | _ => False

/-- The history with such events on top. -/
structure Told (init : Nat → Nat → α) (es log : List (Event α)) : Prop where
  latest : ∀ d l, latest init (es ++ log) d l = latest init log d l
  lastBatch : ∀ d l, lastBatch (es ++ log) d l = lastBatch log d l
  clear : ∀ d l, Clear log d l → Clear (es ++ log) d l
  stored : ∀ d l v, Event.stored d l v ∈ es → Clear (es ++ log) d l
  honest : Honest init log → Honest init (es ++ log)
  flushes : Flushes log → Flushes (es ++ log)

theorem told {init : Nat → Nat → α} {log : List (Event α)} : ∀ {es : List (Event α)}, (∀ e ∈ es, e.Tells init log) →
    Told init es log
  | [], _ => ⟨fun _ _ => rfl, fun _ _ => rfl, fun _ _ h => h, (fun _ _ _ h => by cases h), id, id⟩
  | x :: es, h => by
    have ih : Told init es log := told fun e he => h e (List.mem_cons_of_mem _ he)
    have hx := h x (by simp)
    cases x with
    | stored d' l' v' =>
      refine ⟨ih.latest, ih.lastBatch, fun d l hc => .inr (ih.clear d l hc), fun d l v hm => ?_, fun ho => ?_, ih.flushes⟩
      · rcases List.mem_cons.1 hm with hm | hm
        · cases hm
          exact .inl ⟨rfl, rfl⟩
        · exact .inr (ih.stored d l v hm)
      · exact ⟨hx.trans (ih.latest d' l').symm, ih.honest ho⟩
    | delivered d' l' v' =>
      refine ⟨ih.latest, ih.lastBatch, ih.clear, fun d l v hm => ?_, fun ho => ?_, ih.flushes⟩
      · rcases List.mem_cons.1 hm with hm | hm
        · cases hm
        · exact ih.stored d l v hm
      · exact ⟨hx.trans (ih.latest d' l').symm, ih.honest ho⟩
    | cached => exact hx.elim
    | direct => exact hx.elim
    | flushed => exact hx.elim

/-! ## Completed direct writes -/

/-- The events of a direct write that completed, from sector `lba + k` on. -/
def directEvents (d lba k : Nat) (data : List α) : List (Event α) :=
  (data.zipIdx k).map (fun p => .direct d (lba + p.2) p.1)

theorem directEvents_cons (d lba k : Nat) (v : α) (data : List α) :
    directEvents d lba k (v :: data) = .direct d (lba + k) v :: directEvents d lba (k + 1) data := by
  simp [directEvents, List.zipIdx_cons]

open Cache (Range)

/-- The history with a completed direct write on top. -/
structure Overwritten (init : Nat → Nat → α) (d lba k : Nat) (data : List α) (log : List (Event α)) : Prop where
  inside : ∀ j v, data[j]? = some v → latest init (directEvents d lba k data ++ log) d (lba + k + j) = v
  outside : ∀ d' l, ¬ Range d (lba + k) data.length d' l →
    latest init (directEvents d lba k data ++ log) d' l = latest init log d' l
  lastBatch : ∀ d' l, ¬ Range d (lba + k) data.length d' l →
    lastBatch (directEvents d lba k data ++ log) d' l = lastBatch log d' l
  clear : ∀ d' l, Clear log d' l ∨ Range d (lba + k) data.length d' l → Clear (directEvents d lba k data ++ log) d' l
  honest : Honest init log → Honest init (directEvents d lba k data ++ log)
  flushes : Flushes log → Flushes (directEvents d lba k data ++ log)

theorem overwritten (init : Nat → Nat → α) (d lba : Nat) (log : List (Event α)) : ∀ (data : List α) (k : Nat),
    Overwritten init d lba k data log
  | [], k => by
    refine ⟨(fun j v h => by cases h), fun _ _ _ => rfl, fun _ _ _ => rfl, fun d' l hc => ?_, id, id⟩
    rcases hc with hc | hc
    · exact hc
    · exact absurd hc.2 (by simp)
  | x :: data, k => by
    have ih := overwritten init d lba log data (k + 1)
    have tail : ∀ d' l, ¬ (d = d' ∧ lba + k = l) → (Range d (lba + k) (x :: data).length d' l ↔
        Range d (lba + (k + 1)) data.length d' l) := fun d' l hne => by
      simp only [Range, List.length_cons]
      omega
    have apart : ∀ d' l, ¬ Range d (lba + k) (x :: data).length d' l → ¬ (d = d' ∧ lba + k = l) := fun d' l hr hx => by
      refine hr ⟨hx.1.symm, ?_, ?_⟩
      · omega
      · rw [List.length_cons]
        omega
    refine ⟨fun j v hv => ?_, fun d' l hr => ?_, fun d' l hr => ?_, fun d' l hc => ?_, fun ho => ?_, fun hf => ?_⟩ <;>
      rw [directEvents_cons, List.cons_append]
    · cases j with
      | zero =>
        cases hv
        simp [latest]
      | succ j =>
        rw [latest, if_neg (by omega), show lba + k + (j + 1) = lba + (k + 1) + j by omega]
        exact ih.inside j v (by simpa using hv)
    · have hne := apart d' l hr
      rw [latest, if_neg hne]
      exact ih.outside d' l (fun hx => hr ((tail d' l hne).2 hx))
    · have hne := apart d' l hr
      rw [PageCache.lastBatch, if_neg hne]
      exact ih.lastBatch d' l (fun hx => hr ((tail d' l hne).2 hx))
    · by_cases hx : d = d' ∧ lba + k = l
      · exact .inl hx
      · exact .inr (ih.clear d' l (hc.imp id (tail d' l hx).1))
    · exact ih.honest ho
    · exact ih.flushes hf

end PageCache
end R4
