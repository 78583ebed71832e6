import Mathlib.Order.Bounds.Basic
import R4Recovery.PartitionEdit
/-!
# PartitionSpace — the free space of a plan

`freeRanges` sweeps the usable sectors: at each step it takes, from the unsorted slots, the partition that starts next.
What it finds are the maximal runs of free sectors; `firstFit` takes the first aligned start that fits into one.
-/
namespace R4
namespace Gpt

structure Range where
  first : Nat
  count : Nat
  deriving DecidableEq, Repr

inductive SpaceError where
  | plan (e : Error)
  | capacity
  deriving DecidableEq, Repr

/-- One slot of the search: a present entry from `cursor` on that starts in front of the one found so far. -/
def closer (cursor : Nat) (next : Option Entry) (e : Entry) : Option Entry :=
  if !e.present || decide (e.first < cursor) then next
  else match next with
    | none => some e
    | some n => some (if e.first < n.first then e else n)

def nextEntry (cursor : Nat) (slots : List Entry) (next : Option Entry) : Option Entry := slots.foldl (closer cursor) next

/-- The sweep from `cursor`, behind the ranges found so far; each turn but the last passes a partition. -/
def Plan.sweep (p : Plan) (capacity : Nat) : Nat → Nat → List Range → Except SpaceError (List Range)
  | 0, _, out => .ok out
  | fuel + 1, cursor, out =>
    if p.lastUsable < cursor then .ok out
    else
      let next := nextEntry cursor p.live none
      let end_ := next.elim (p.lastUsable + 1) (·.first)
      if cursor < end_ ∧ out.length = capacity then .error .capacity
      else
        let out := if cursor < end_ then out ++ [⟨cursor, end_ - cursor⟩] else out
        match next with
        | none => .ok out
        | some e => p.sweep capacity fuel (e.first + e.count) out

/-- `freeRanges` into a buffer of `capacity` ranges. -/
def Plan.freeRanges (p : Plan) (capacity : Nat) : Except SpaceError (List Range) :=
  match p.validate with
  | .error e => .error (.plan e)
  | .ok () => p.sweep capacity (p.entryCount + 1) p.firstUsable []

def alignForward (value alignment : Nat) : Nat := (value + (alignment - 1)) / alignment * alignment

/-- The aligned start in a range, if `count` sectors fit behind it. -/
def fitIn (count : Nat) (range : Range) : Option Nat :=
  let first := alignForward range.first alignmentSectors
  let skipped := first - range.first
  if skipped ≤ range.count ∧ count ≤ range.count - skipped then some first else none

def Plan.firstFit (p : Plan) (count : Nat) : Except SpaceError Nat :=
  if count = 0 then .error (.plan .geometry)
  else match p.freeRanges (maxEntries + 1) with
    | .error e => .error e
    | .ok ranges => (ranges.findSome? (fitIn count)).elim (.error (.plan .noSpace)) .ok

/-! ## The next partition -/

def Entry.Holds (e : Entry) (s : Nat) : Prop := e.first ≤ s ∧ s < e.first + e.count

/-- A usable sector that no partition holds. -/
def Plan.Free (p : Plan) (s : Nat) : Prop :=
  p.firstUsable ≤ s ∧ s ≤ p.lastUsable ∧ ∀ e ∈ p.live, e.present = true → ¬ e.Holds s

theorem closer_none {cursor : Nat} {next : Option Entry} {e : Entry} (h : closer cursor next e = none) :
    next = none ∧ (e.present = true → e.first < cursor) := by
  unfold closer at h
  split at h
  · rename_i hc
    exact ⟨h, fun hp => by simpa [hp] using hc⟩
  · cases next <;> cases h

theorem closer_some {cursor : Nat} {next : Option Entry} {e n : Entry} (h : closer cursor next e = some n) :
    ((n = e ∧ e.present = true ∧ cursor ≤ e.first) ∨ next = some n) ∧
    (e.present = true → cursor ≤ e.first → n.first ≤ e.first) ∧ (∀ m, next = some m → n.first ≤ m.first) := by
  unfold closer at h
  split at h
  · rename_i hc
    subst h
    refine ⟨.inr rfl, fun hp hle => ?_, fun m hm => by cases hm; exact Nat.le_refl _⟩
    simp [hp] at hc
    omega
  · rename_i hc
    have he : e.present = true ∧ cursor ≤ e.first := by simpa using hc
    cases next with
    | none =>
      cases h
      exact ⟨.inl ⟨rfl, he⟩, fun _ _ => Nat.le_refl _, nofun⟩
    | some m =>
      by_cases hlt : e.first < m.first
      · simp only [if_pos hlt, Option.some.injEq] at h
        subst h
        exact ⟨.inl ⟨rfl, he⟩, fun _ _ => Nat.le_refl _, fun m' hm => by cases hm; omega⟩
      · simp only [if_neg hlt, Option.some.injEq] at h
        subst h
        exact ⟨.inr rfl, fun _ _ => by omega, fun m' hm => by cases hm; exact Nat.le_refl _⟩

/-- **The search finds a present entry from the cursor on that starts first.** -/
theorem nextEntry_some (cursor : Nat) : ∀ (L : List Entry) {next : Option Entry} {n : Entry},
    nextEntry cursor L next = some n →
      (n ∈ L ∧ n.present = true ∧ cursor ≤ n.first ∨ next = some n) ∧
      (∀ e ∈ L, e.present = true → cursor ≤ e.first → n.first ≤ e.first) ∧ (∀ m, next = some m → n.first ≤ m.first)
  | [], next, n, h => ⟨.inr h, by simp, fun m hm => by
      have h : next = some n := h
      rw [h] at hm
      cases hm
      exact Nat.le_refl _⟩
  | e :: L, next, n, h => by
    obtain ⟨h1, h2, h3⟩ := nextEntry_some cursor L h
    cases hc : closer cursor next e with
    | none =>
      obtain ⟨hnone, hlt⟩ := closer_none hc
      refine ⟨?_, List.forall_mem_cons.2 ⟨fun hp hle => absurd (hlt hp) (by omega), h2⟩, fun m hm => by rw [hnone] at hm; cases hm⟩
      rcases h1 with h1 | h1
      · exact .inl ⟨List.mem_cons_of_mem _ h1.1, h1.2⟩
      · rw [hc] at h1
        cases h1
    | some m =>
      obtain ⟨g1, g2, g3⟩ := closer_some hc
      have hmin := h3 m hc
      refine ⟨?_, List.forall_mem_cons.2 ⟨fun hp hle => Nat.le_trans hmin (g2 hp hle), h2⟩, fun k hk => Nat.le_trans hmin (g3 k hk)⟩
      rcases h1 with h1 | h1
      · exact .inl ⟨List.mem_cons_of_mem _ h1.1, h1.2⟩
      · rw [hc] at h1
        cases h1
        rcases g1 with ⟨rfl, hp⟩ | g1
        · exact .inl ⟨List.mem_cons_self, hp⟩
        · exact .inr g1

theorem nextEntry_none (cursor : Nat) : ∀ (L : List Entry) {next : Option Entry}, nextEntry cursor L next = none →
    next = none ∧ ∀ e ∈ L, e.present = true → e.first < cursor
  | [], next, h => ⟨h, by simp⟩
  | e :: L, next, h => by
    obtain ⟨h1, h2⟩ := nextEntry_none cursor L h
    obtain ⟨h3, h4⟩ := closer_none h1
    exact ⟨h3, List.forall_mem_cons.2 ⟨h4, h2⟩⟩

/-! ## The sweep -/

/-- The ranges of a sweep with room for all of them. -/
def Plan.gaps (p : Plan) : Nat → Nat → List Range
  | 0, _ => []
  | fuel + 1, cursor =>
    if p.lastUsable < cursor then []
    else
      let next := nextEntry cursor p.live none
      let end_ := next.elim (p.lastUsable + 1) (·.first)
      (if cursor < end_ then [⟨cursor, end_ - cursor⟩] else []) ++
        next.elim [] (fun e => p.gaps fuel (e.first + e.count))

theorem gaps_succ (p : Plan) (fuel cursor : Nat) : p.gaps (fuel + 1) cursor =
    if p.lastUsable < cursor then []
    else
      (if cursor < (nextEntry cursor p.live none).elim (p.lastUsable + 1) (·.first) then
        [⟨cursor, (nextEntry cursor p.live none).elim (p.lastUsable + 1) (·.first) - cursor⟩] else []) ++
        (nextEntry cursor p.live none).elim [] (fun e => p.gaps fuel (e.first + e.count)) := rfl

theorem gaps_none {p : Plan} (fuel : Nat) {cursor : Nat} (hlast : ¬ p.lastUsable < cursor)
    (h : nextEntry cursor p.live none = none) : p.gaps (fuel + 1) cursor = [⟨cursor, p.lastUsable + 1 - cursor⟩] := by
  rw [gaps_succ, if_neg hlast, h]
  show (if cursor < p.lastUsable + 1 then [(⟨cursor, p.lastUsable + 1 - cursor⟩ : Range)] else []) ++ [] = _
  rw [if_pos (by omega), List.append_nil]

theorem gaps_some {p : Plan} (fuel : Nat) {cursor : Nat} {n : Entry} (hlast : ¬ p.lastUsable < cursor)
    (h : nextEntry cursor p.live none = some n) : p.gaps (fuel + 1) cursor =
      (if cursor < n.first then [⟨cursor, n.first - cursor⟩] else []) ++ p.gaps fuel (n.first + n.count) := by
  rw [gaps_succ, if_neg hlast, h]
  rfl

theorem length_gaps (p : Plan) : ∀ fuel cursor, (p.gaps fuel cursor).length ≤ fuel
  | 0, _ => Nat.le_refl _
  | fuel + 1, cursor => by
    have hrest : ∀ next : Option Entry, (next.elim [] (fun e => p.gaps fuel (e.first + e.count))).length ≤ fuel := by
      intro next
      cases next with
      | none => exact Nat.zero_le _
      | some e => exact length_gaps p fuel _
    rw [gaps_succ]
    split
    · exact Nat.zero_le _
    · rw [List.length_append]
      have := hrest (nextEntry cursor p.live none)
      split <;> simp <;> omega

/-- **The sweep finds the gaps**, or has no room for them. -/
theorem sweep_eq (p : Plan) (capacity : Nat) : ∀ (fuel cursor : Nat) (out : List Range), out.length ≤ capacity →
    p.sweep capacity fuel cursor out =
      if (out ++ p.gaps fuel cursor).length ≤ capacity then .ok (out ++ p.gaps fuel cursor) else .error .capacity
  | 0, cursor, out, h => by simp [Plan.sweep, Plan.gaps, h]
  | fuel + 1, cursor, out, h => by
    rw [Plan.sweep, gaps_succ]
    by_cases hlast : p.lastUsable < cursor
    · rw [if_pos hlast, if_pos hlast, List.append_nil, if_pos h]
    rw [if_neg hlast, if_neg hlast]
    dsimp only
    generalize nextEntry cursor p.live none = next
    by_cases hend : cursor < next.elim (p.lastUsable + 1) (·.first)
    · by_cases hfull : out.length = capacity
      · rw [if_pos ⟨hend, hfull⟩, if_neg]
        rw [if_pos hend]
        simp
        omega
      · rw [if_neg (fun hc => hfull hc.2)]
        simp only [if_pos hend]
        cases next with
        | none =>
          rw [if_pos]
          · rfl
          · simp
            omega
        | some e =>
          dsimp only [Option.elim]
          rw [sweep_eq p capacity fuel _ _ (by simp; omega), List.append_assoc]
          rfl
    · rw [if_neg (fun hc => hend hc.1)]
      simp only [if_neg hend, List.nil_append]
      cases next with
      | none => simp [h]
      | some e => exact sweep_eq p capacity fuel _ out h

/-! ## What the gaps are -/

def Range.Holds (r : Range) (s : Nat) : Prop := r.first ≤ s ∧ s < r.first + r.count

/-- Every partition lies in front of the cursor or behind it. -/
structure Plan.Passed (p : Plan) (cursor : Nat) : Prop where
  usable : p.firstUsable ≤ cursor
  apart : ∀ e ∈ p.live, e.present = true → e.first + e.count ≤ cursor ∨ cursor ≤ e.first

/-- The partitions a sweep still has in front of it. -/
def Plan.ahead (p : Plan) (cursor : Nat) : Nat := (p.live.filter (fun e => e.present && decide (cursor ≤ e.first))).length

theorem apart_of_mem {p : Plan} (h : EntriesOk p p.live) {e o : Entry} (he : e ∈ p.live) (ho : o ∈ p.live)
    (hpe : e.present = true) (hpo : o.present = true) : e = o ∨ ¬ (e.first < o.first + o.count ∧ o.first < e.first + e.count) := by
  obtain ⟨i, hi, rfl⟩ := List.getElem_of_mem he
  obtain ⟨j, hj, rfl⟩ := List.getElem_of_mem ho
  have hpair := List.pairwise_iff_getElem.1 h.apart
  rcases Nat.lt_trichotomy i j with hij | rfl | hij
  · have := (hpair i j hi hj hij hpe hpo).1
    exact .inr (fun hd => this ⟨hd.2, hd.1⟩)
  · exact .inl rfl
  · exact .inr (hpair j i hj hi hij hpo hpe).1

theorem ahead_lt {p : Plan} {cursor : Nat} {n : Entry} (hn : n ∈ p.live) (hp : n.present = true) (hle : cursor ≤ n.first)
    (hc : n.count ≠ 0) : p.ahead (n.first + n.count) < p.ahead cursor := by
  have hsplit : p.live.filter (fun e => e.present && decide (n.first + n.count ≤ e.first)) =
      (p.live.filter (fun e => e.present && decide (cursor ≤ e.first))).filter (fun e => decide (n.first + n.count ≤ e.first)) := by
    rw [List.filter_filter]
    refine List.filter_congr (fun e _ => ?_)
    cases e.present <;> simp
    omega
  unfold Plan.ahead
  rw [hsplit, List.length_filter_lt_length_iff_exists]
  exact ⟨n, List.mem_filter.2 ⟨hn, by simp [hp, hle]⟩, by simp; omega⟩

theorem passed_next {p : Plan} (hok : EntriesOk p p.live) {cursor : Nat} (h : p.Passed cursor) {n : Entry} (hn : n ∈ p.live)
    (hp : n.present = true) (hle : cursor ≤ n.first)
    (hleast : ∀ e ∈ p.live, e.present = true → cursor ≤ e.first → n.first ≤ e.first) : p.Passed (n.first + n.count) := by
  refine ⟨?_, fun e he hpe => ?_⟩
  · have := h.usable
    omega
  · rcases h.apart e he hpe with hb | hb
    · omega
    · have hfirst := hleast e he hpe hb
      rcases apart_of_mem hok he hn hpe hp with rfl | hd
      · exact .inl (Nat.le_refl _)
      · have := (hok.each e he hpe).count
        omega

/-- **The sweep from a cursor finds the maximal runs of free sectors behind it**, in order. -/
theorem gaps_spec {p : Plan} (hok : EntriesOk p p.live) : ∀ (fuel : Nat) {cursor : Nat}, p.Passed cursor → p.ahead cursor < fuel →
    (∀ r ∈ p.gaps fuel cursor, 0 < r.count ∧ cursor ≤ r.first) ∧
    (p.gaps fuel cursor).Pairwise (fun a b => a.first + a.count < b.first) ∧
    ∀ s, (∃ r ∈ p.gaps fuel cursor, r.Holds s) ↔ cursor ≤ s ∧ p.Free s
  | 0, cursor, _, hf => absurd hf (Nat.not_lt_zero _)
  | fuel + 1, cursor, h, hf => by
    by_cases hlast : p.lastUsable < cursor
    · rw [gaps_succ, if_pos hlast]
      refine ⟨by simp, .nil, fun s => ⟨by simp, fun hs => ?_⟩⟩
      have := hs.2.2.1
      omega
    cases hnext : nextEntry cursor p.live none with
    | none =>
      obtain ⟨-, hbelow⟩ := nextEntry_none _ p.live hnext
      rw [gaps_none fuel hlast hnext]
      refine ⟨by simp; omega, List.pairwise_singleton _ _, fun s => ?_⟩
      simp only [List.mem_singleton, exists_eq_left, Range.Holds]
      constructor
      · intro hs
        refine ⟨hs.1, Nat.le_trans h.usable hs.1, by omega, fun e he hp hh => ?_⟩
        have h1 := hbelow e he hp
        have h2 := hh.2
        rcases h.apart e he hp with hb | hb <;> omega
      · rintro ⟨hs, -, hs2, -⟩
        omega
    | some n =>
      obtain ⟨hmem, hleast, -⟩ := nextEntry_some _ p.live hnext
      obtain ⟨hn, hp, hle⟩ : n ∈ p.live ∧ n.present = true ∧ cursor ≤ n.first := by
        rcases hmem with hmem | hmem
        · exact hmem
        · cases hmem
      have hcount := (hok.each n hn hp).count
      have hnlast := (hok.each n hn hp).first.2
      obtain ⟨i1, i2, i3⟩ := gaps_spec hok fuel (passed_next hok h hn hp hle hleast)
        (by have := ahead_lt hn hp hle hcount; omega)
      -- the sectors between the cursor and the next partition are free
      have hfree : ∀ s, cursor ≤ s → s < n.first → p.Free s := by
        intro s h1 h2
        refine ⟨Nat.le_trans h.usable h1, by omega, fun e he hpe hh => ?_⟩
        have h3 := hh.1
        have h4 := hh.2
        rcases h.apart e he hpe with hb | hb
        · omega
        · have := hleast e he hpe hb
          omega
      have hcover : ∀ s, ((cursor ≤ s ∧ s < n.first) ∨ ∃ r ∈ p.gaps fuel (n.first + n.count), r.Holds s) ↔ cursor ≤ s ∧ p.Free s := by
        intro s
        rw [i3 s]
        constructor
        · rintro (hs | hs)
          · exact ⟨hs.1, hfree s hs.1 hs.2⟩
          · exact ⟨by omega, hs.2⟩
        · rintro ⟨hs, hf⟩
          by_cases h1 : s < n.first
          · exact .inl ⟨hs, h1⟩
          · refine .inr ⟨?_, hf⟩
            have := hf.2.2 n hn hp
            unfold Entry.Holds at this
            omega
      rw [gaps_some fuel hlast hnext]
      by_cases hgap : cursor < n.first
      · rw [if_pos hgap, List.singleton_append]
        refine ⟨List.forall_mem_cons.2 ⟨by simp; omega, fun r hr => ⟨(i1 r hr).1, ?_⟩⟩,
          List.pairwise_cons.2 ⟨fun r hr => ?_, i2⟩, fun s => ?_⟩
        · have := (i1 r hr).2
          omega
        · have := (i1 r hr).2
          dsimp only
          omega
        · rw [← hcover s, List.exists_mem_cons_iff]
          refine or_congr ?_ Iff.rfl
          unfold Range.Holds
          dsimp only
          omega
      · rw [if_neg hgap, List.nil_append]
        refine ⟨fun r hr => ⟨(i1 r hr).1, ?_⟩, i2, fun s => ?_⟩
        · have := (i1 r hr).2
          omega
        · rw [← hcover s]
          exact ⟨.inr, fun h => h.resolve_left (by omega)⟩

/-! ## Free ranges -/

/-- A nonempty run of free sectors that no neighbour extends. -/
structure Plan.MaximalRun (p : Plan) (r : Range) : Prop where
  pos : 0 < r.count
  free : ∀ s, r.Holds s → p.Free s
  left : ∀ s, s + 1 = r.first → ¬ p.Free s
  right : ¬ p.Free (r.first + r.count)

def Plan.spaces (p : Plan) : List Range := p.gaps (p.entryCount + 1) p.firstUsable

theorem freeRanges_eq {p : Plan} (hv : p.validate = .ok ()) (capacity : Nat) : p.freeRanges capacity =
    if p.spaces.length ≤ capacity then .ok p.spaces else .error .capacity := by
  unfold Plan.freeRanges
  rw [hv]
  exact sweep_eq p capacity _ _ [] (Nat.zero_le _)

theorem length_live_le (p : Plan) : p.live.length ≤ p.entryCount := by
  rw [Plan.live, List.length_take]
  exact Nat.min_le_left _ _

theorem spaces_spec {p : Plan} (hv : p.validate = .ok ()) : (∀ r ∈ p.spaces, 0 < r.count) ∧
    p.spaces.Pairwise (fun a b => a.first + a.count < b.first) ∧ ∀ s, (∃ r ∈ p.spaces, r.Holds s) ↔ p.Free s := by
  have hok := ((validate_iff p).1 hv).2.2
  have hstart : p.Passed p.firstUsable := ⟨Nat.le_refl _, fun e he hp => .inr (hok.each e he hp).first.1⟩
  have hahead : p.ahead p.firstUsable < p.entryCount + 1 :=
    Nat.lt_succ_of_le (Nat.le_trans (List.length_filter_le _ _) (length_live_le p))
  obtain ⟨h1, h2, h3⟩ := gaps_spec hok _ hstart hahead
  exact ⟨fun r hr => (h1 r hr).1, h2, fun s => (h3 s).trans ⟨fun h => h.2, fun h => ⟨h.1, h⟩⟩⟩

theorem spaces_apart {p : Plan} (hv : p.validate = .ok ()) {a b : Range} (ha : a ∈ p.spaces) (hb : b ∈ p.spaces) :
    a = b ∨ a.first + a.count < b.first ∨ b.first + b.count < a.first := by
  obtain ⟨i, hi, rfl⟩ := List.getElem_of_mem ha
  obtain ⟨j, hj, rfl⟩ := List.getElem_of_mem hb
  have hpair := List.pairwise_iff_getElem.1 (spaces_spec hv).2.1
  rcases Nat.lt_trichotomy i j with hij | rfl | hij
  · exact .inr (.inl (hpair i j hi hj hij))
  · exact .inl rfl
  · exact .inr (.inr (hpair j i hj hi hij))

theorem maximalRun_of_mem {p : Plan} (hv : p.validate = .ok ()) {r : Range} (hr : r ∈ p.spaces) : p.MaximalRun r := by
  obtain ⟨hpos, -, hcover⟩ := spaces_spec hv
  -- a free sector next to the range would be in a range that touches it
  have hnext : ∀ s, p.Free s → s + 1 = r.first ∨ s = r.first + r.count → False := by
    intro s hs hnear
    obtain ⟨a, ha, h1, h2⟩ := (hcover s).2 hs
    have := hpos a ha
    rcases spaces_apart hv ha hr with rfl | h | h <;> omega
  exact ⟨hpos r hr, fun s hs => (hcover s).1 ⟨r, hr, hs⟩, fun s hs hf => hnext s hf (.inl hs), fun hf => hnext _ hf (.inr rfl)⟩

/-- **The ranges are the maximal runs.** -/
theorem mem_spaces_iff {p : Plan} (hv : p.validate = .ok ()) (r : Range) : r ∈ p.spaces ↔ p.MaximalRun r := by
  refine ⟨maximalRun_of_mem hv, fun h => ?_⟩
  have hfirst := h.free r.first ⟨Nat.le_refl _, by have := h.pos; omega⟩
  obtain ⟨a, ha, h1, h2⟩ := ((spaces_spec hv).2.2 r.first).2 hfirst
  have hm := maximalRun_of_mem hv ha
  have hstart : a.first = r.first := by
    by_contra hne
    exact h.left (r.first - 1) (by omega) (hm.free _ ⟨by omega, by omega⟩)
  have hend : a.count = r.count := by
    by_contra hne
    rcases Nat.lt_or_gt_of_ne hne with hlt | hlt
    · exact hm.right (h.free _ ⟨by omega, by omega⟩)
    · exact h.right (hm.free _ ⟨by omega, by omega⟩)
  obtain ⟨first, count⟩ := a
  obtain ⟨first', count'⟩ := r
  obtain rfl : first = first' := hstart
  obtain rfl : count = count' := hend
  exact ha

/-! ## The first fit -/

/-- An aligned start in front of `count` sectors of a range. -/
def Range.Starts (r : Range) (count s : Nat) : Prop := s % alignmentSectors = 0 ∧ r.first ≤ s ∧ s + count ≤ r.first + r.count

theorem alignForward_spec (v : Nat) : alignForward v alignmentSectors % alignmentSectors = 0 ∧
    v ≤ alignForward v alignmentSectors ∧ alignForward v alignmentSectors < v + alignmentSectors := by
  simp only [alignForward, alignmentSectors]
  omega

theorem fitIn_some {count f : Nat} {r : Range} (h : fitIn count r = some f) :
    r.Starts count f ∧ ∀ s, r.Starts count s → f ≤ s := by
  obtain ⟨h1, h2, h3⟩ := alignForward_spec r.first
  unfold fitIn at h
  dsimp only at h
  split at h
  · cases h
    refine ⟨⟨h1, h2, by omega⟩, fun s hs => ?_⟩
    obtain ⟨g1, g2, -⟩ := hs
    simp only [alignmentSectors] at *
    omega
  · cases h

theorem fitIn_none {count : Nat} {r : Range} (hc : 0 < count) (h : fitIn count r = none) (s : Nat) : ¬ r.Starts count s := by
  obtain ⟨h1, h2, h3⟩ := alignForward_spec r.first
  unfold fitIn at h
  dsimp only at h
  split at h
  · cases h
  · rintro ⟨g1, g2, g3⟩
    simp only [alignmentSectors] at *
    omega

/-- The starts `firstFit` chooses from. -/
def Plan.Starts (p : Plan) (count s : Nat) : Prop := ∃ r ∈ p.spaces, r.Starts count s

/-- **`firstFit` finds the least start, or there is none.** -/
theorem firstFit_cases {p : Plan} (hv : p.validate = .ok ()) {count : Nat} (hc : 0 < count) :
    (∃ s, p.firstFit count = .ok s ∧ IsLeast {s | p.Starts count s} s) ∨
    (p.firstFit count = .error (.plan .noSpace) ∧ ∀ s, ¬ p.Starts count s) := by
  have hcap : p.spaces.length ≤ maxEntries + 1 := by
    have h1 := length_gaps p (p.entryCount + 1) p.firstUsable
    have h2 := ((geometryOk_iff p).1 ((validate_iff p).1 hv).1).2.2.2.2.2
    unfold Plan.spaces maxEntries
    omega
  have hfit : p.firstFit count = (p.spaces.findSome? (fitIn count)).elim (.error (.plan .noSpace)) .ok := by
    unfold Plan.firstFit
    rw [if_neg (by omega), freeRanges_eq hv, if_pos hcap]
  rw [hfit]
  cases hf : p.spaces.findSome? (fitIn count) with
  | none =>
    refine .inr ⟨rfl, fun s ⟨r, hr, hs⟩ => ?_⟩
    exact fitIn_none hc (List.findSome?_eq_none_iff.1 hf r hr) s hs
  | some f =>
    obtain ⟨before, r, behind, hsplit, hr, hnone⟩ := List.findSome?_eq_some_iff.1 hf
    obtain ⟨hstart, hleast⟩ := fitIn_some hr
    refine .inl ⟨f, rfl, ⟨r, by rw [hsplit]; simp, hstart⟩, fun s ⟨a, ha, hs⟩ => ?_⟩
    rw [hsplit, List.mem_append, List.mem_cons] at ha
    rcases ha with ha | rfl | ha
    · exact absurd hs (fitIn_none hc (hnone a ha) s)
    · exact hleast s hs
    · have hpair := (spaces_spec hv).2.1
      rw [hsplit] at hpair
      have hlt := (List.pairwise_cons.1 (List.pairwise_append.1 hpair).2.1).1 a ha
      have h1 := hstart.2.2
      have h2 := hs.2.1
      omega

theorem validate_add {p : Plan} (hv : p.validate = .ok ()) {slot : Nat} {e : Entry} (hc : 0 < e.count)
    (hfree : ∀ s, e.Holds s → p.Free s) (hk : entryKind p e = .ok ())
    (hg : p.kind = .gpt → ∀ o ∈ p.live, o.present = true → e.uniqueGuid ≠ o.uniqueGuid) : (p.setEntry slot e).validate = .ok () := by
  obtain ⟨h1, h2, hok⟩ := (validate_iff p).1 hv
  have hfirst := hfree e.first ⟨Nat.le_refl _, by omega⟩
  have hlast := hfree (e.first + e.count - 1) ⟨by omega, by omega⟩
  -- the entry against the others, from either side
  have hmeet : ∀ o ∈ p.live, o.present = true → ¬ (e.first < o.first + o.count ∧ o.first < e.first + e.count) := by
    intro o ho hp hd
    have ho1 := (hok.each o ho hp).count
    exact (hfree (max e.first o.first) ⟨by omega, by omega⟩).2.2 o ho hp ⟨by omega, by omega⟩
  refine (validate_iff _).2 ⟨h1, h2, ?_⟩
  rw [live_setEntry]
  refine ⟨fun o ho hp => ?_, ?_⟩
  · rcases List.mem_or_eq_of_mem_set ho with ho | rfl
    · obtain ⟨g1, g2, g3, g4⟩ := hok.each o ho hp
      exact ⟨g1, g2, g3, g4⟩
    · refine ⟨by omega, ⟨hfirst.1, hfirst.2.1⟩, ?_, hk⟩
      have := hlast.2.1
      show o.count - 1 ≤ p.lastUsable - o.first
      omega
  · rw [List.pairwise_iff_getElem]
    intro i j hi hj hij hpi hpj
    rw [List.length_set] at hi hj
    rw [List.getElem_set] at hpi hpj ⊢
    rw [List.getElem_set]
    by_cases hsi : slot = i
    · have hsj : ¬ slot = j := by omega
      rw [if_pos hsi] at hpi ⊢
      rw [if_neg hsj] at hpj ⊢
      have hm := hmeet p.live[j] (List.getElem_mem hj) hpj
      exact ⟨fun hd => hm ⟨hd.2, hd.1⟩, fun hk' he => hg hk' p.live[j] (List.getElem_mem hj) hpj he.symm⟩
    · rw [if_neg hsi] at hpi ⊢
      by_cases hsj : slot = j
      · rw [if_pos hsj] at hpj ⊢
        exact ⟨hmeet p.live[i] (List.getElem_mem hi) hpi, fun hk' => hg hk' p.live[i] (List.getElem_mem hi) hpi⟩
      · rw [if_neg hsj] at hpj ⊢
        exact (List.pairwise_iff_getElem.1 hok.apart) i j hi hj hij hpi hpj

/-- **The free space of a valid plan.**  Its ranges are the maximal runs of free sectors, in order and apart; with the
partitions they tile the usable sectors; `firstFit` takes the least aligned start, and an entry there that is admissible
on its own is added whenever a slot is free. -/
theorem freeSpace_exact (p : Plan) (hv : p.validate = .ok ()) :
    (∀ capacity, p.freeRanges capacity = if p.spaces.length ≤ capacity then .ok p.spaces else .error .capacity) ∧
    p.spaces.length ≤ p.entryCount + 1 ∧
    p.spaces.Pairwise (fun a b => a.first + a.count < b.first) ∧
    (∀ r, r ∈ p.spaces ↔ p.MaximalRun r) ∧
    (∀ s, p.firstUsable ≤ s ∧ s ≤ p.lastUsable ↔
      (∃ r ∈ p.spaces, r.Holds s) ∨ ∃ e ∈ p.live, e.present = true ∧ e.Holds s) ∧
    (∀ s, ¬ ((∃ r ∈ p.spaces, r.Holds s) ∧ ∃ e ∈ p.live, e.present = true ∧ e.Holds s)) ∧
    (∀ count s, 0 < count → (p.firstFit count = .ok s ↔ IsLeast {s | p.Starts count s} s)) ∧
    (∀ count, 0 < count → (p.firstFit count = .error (.plan .noSpace) ↔ ¬ ∃ s, p.Starts count s)) ∧
    (∀ (e : Entry) (slot : Nat), p.firstFit e.count = .ok e.first → p.freeSlot = some slot → e.present = true →
      entryKind p e = .ok () → (p.kind = .gpt → ∀ o ∈ p.live, o.present = true → e.uniqueGuid ≠ o.uniqueGuid) →
      p.addIn e = (.ok (), p.setEntry slot e)) := by
  obtain ⟨-, hsorted, hcover⟩ := spaces_spec hv
  have hok := ((validate_iff p).1 hv).2.2
  refine ⟨freeRanges_eq hv, length_gaps p _ _, hsorted, mem_spaces_iff hv, fun s => ?_, fun s => ?_, fun count s hc => ?_,
    fun count hc => ?_, fun e slot hfit hs hp hk hg => ?_⟩
  · rw [hcover]
    constructor
    · rintro ⟨h1, h2⟩
      by_cases hh : ∃ e ∈ p.live, e.present = true ∧ e.Holds s
      · exact .inr hh
      · exact .inl ⟨h1, h2, fun e he hp hs => hh ⟨e, he, hp, hs⟩⟩
    · rintro (h | ⟨e, he, hp, h1, h2⟩)
      · exact ⟨h.1, h.2.1⟩
      · obtain ⟨hcount, hfirst, hlast, -⟩ := hok.each e he hp
        omega
  · rw [hcover]
    rintro ⟨hf, e, he, hp, hs⟩
    exact hf.2.2 e he hp hs
  · rcases firstFit_cases hv hc with ⟨f, hf, hleast⟩ | ⟨hf, hnone⟩
    · rw [hf]
      exact ⟨fun h => by cases h; exact hleast, fun h => by rw [hleast.unique h]⟩
    · rw [hf]
      exact ⟨nofun, fun h => absurd h.1 (hnone s)⟩
  · rcases firstFit_cases hv hc with ⟨f, hf, hleast⟩ | ⟨hf, hnone⟩
    · rw [hf]
      exact ⟨nofun, fun h => absurd ⟨f, hleast.1⟩ h⟩
    · rw [hf]
      exact ⟨fun _ ⟨s, hs⟩ => hnone s hs, fun _ => rfl⟩
  · have hc : 0 < e.count := by
      by_contra h0
      rw [Plan.firstFit, if_pos (by omega)] at hfit
      cases hfit
    rcases firstFit_cases hv hc with ⟨f, hf, ⟨r, hr, ha, h1, h2⟩, -⟩ | ⟨hf, -⟩
    · rw [hf] at hfit
      cases hfit
      have hfree : ∀ s, e.Holds s → p.Free s := fun s hs => (hcover s).1 ⟨r, hr, by have := hs.1; have := hs.2; exact ⟨by omega, by omega⟩⟩
      unfold Plan.addIn
      rw [if_neg (by simp [hp, ha]), hs]
      exact (tryEntry_ok p _ slot e {}).2 ⟨validate_add hv hc hfree hk hg, rfl⟩
    · rw [hf] at hfit
      cases hfit

theorem entries_pos : 0 < 128 := Nat.zero_lt_succ 127

/-- A partition in front of the first aligned start that fits. -/
def smallSpace : Plan :=
  { sectors := 8192, lastUsable := 8191, kind := .mbr, entryCount := 4
    entries := (Vector.replicate 128 {}).set 0 { present := true, first := 2048, count := 100, mbrType := 12 } entries_pos }

theorem freeSpace_exact_small : IsLeast {s | smallSpace.Starts 8 s} 4096 :=
  ((freeSpace_exact smallSpace (by decide +kernel)).2.2.2.2.2.2.1 8 4096 (by decide)).1 (by decide +kernel)

/-- An MBR on a disk of more than two to the thirty-two sectors. -/
def wideMbr : Plan := { sectors := 2 ^ 33, lastUsable := 2 ^ 33 - 1, kind := .mbr, entryCount := 4 }

/-- **What fits the disk need not fit an MBR**: a slot is free, the first fit is there, and no entry over it is added. -/
theorem freeSpace_exact_wide : wideMbr.validate = .ok () ∧ wideMbr.freeSlot = some 0 ∧ wideMbr.firstFit (2 ^ 32) = .ok 2048 ∧
    ∀ (e : Entry) (q : Plan), e.first = 2048 → e.count = 2 ^ 32 → wideMbr.addIn e ≠ (.ok (), q) := by
  have hslot : wideMbr.freeSlot = some 0 := by decide +kernel
  refine ⟨by decide +kernel, hslot, by decide +kernel, fun e q _ hcount h => ?_⟩
  unfold Plan.addIn at h
  split at h
  · cases h
  · rename_i hp
    rw [Bool.or_eq_true, not_or] at hp
    rw [hslot] at h
    obtain ⟨hv, -⟩ := (tryEntry_ok _ _ _ _ _).1 h
    have hmem : e ∈ (wideMbr.setEntry 0 e).live := by
      rw [live_setEntry]
      exact List.mem_set (by decide +kernel) e
    have hk := (((validate_iff _).1 hv).2.2.each e hmem (by simpa using hp.1)).kind
    have hbad := reject_ok.1 hk
    simp [hcount] at hbad

end Gpt
end R4
