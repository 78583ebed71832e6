import R4Recovery.FatDirectory
/-!
# FatListing — the entries of a directory and edits of its slots

A lookup is the first match among the entries a walk over the slots meets.  An edit of one slot changes what the walk
meets there and nothing in front of it or behind: the entry itself is replaced, dropped or added.
-/
namespace R4
namespace Fat

variable {v : Volume} {n : Nat} {slots pre post : List Slot} {raw : Slot} {i : Nat} {s : LfnState} {ps : List Nat}
  {es es1 es2 : List EntryLocation} {loc : EntryLocation} {name : Bytes}

/-- The entries a walk meets; none if a slot is bad. -/
def listFrom (n : Nat) : List Slot → Nat → LfnState → List Nat → Option (List EntryLocation)
  | [], _, s, _ => if s.active then none else some []
  | raw :: rest, i, s, ps =>
    match visit n raw i s ps with
    | .stop => some []
    | .bad => none
    | .pass s ps => listFrom n rest (i + 1) s ps
    | .entry loc => (listFrom n rest (i + 1) {} []).map (loc :: ·)

def Volume.entries (v : Volume) : Option (List EntryLocation) := listFrom v.clusterEnd v.slots 0 {} []

/-- A lookup among entries. -/
def lookupIn (es : List EntryLocation) (name : Bytes) : Lookup :=
  match es.find? (fun e => e.matches name) with
  | some loc => .found loc
  | none => .notFound

theorem findFrom_of_list (name : Bytes) : ∀ (slots : List Slot) (i : Nat) (s : LfnState) (ps : List Nat) (es : List EntryLocation),
    listFrom n slots i s ps = some es → findFrom n name slots i s ps = lookupIn es name
  | [], i, s, ps, es, h => by
    unfold listFrom at h
    unfold findFrom
    split at h
    · cases h
    · rename_i ha
      cases h
      rw [if_neg ha]
      rfl
  | raw :: rest, i, s, ps, es, h => by
    unfold listFrom at h
    unfold findFrom
    cases hv : visit n raw i s ps with
    | stop => rw [hv] at h; cases h; rfl
    | bad => rw [hv] at h; cases h
    | pass s' ps' =>
      rw [hv] at h
      exact findFrom_of_list name rest (i + 1) s' ps' es h
    | entry loc =>
      rw [hv] at h
      obtain ⟨es', hes, rfl⟩ := Option.map_eq_some_iff.1 h
      have ih := findFrom_of_list name rest (i + 1) {} [] es' hes
      dsimp only
      unfold lookupIn
      rw [List.find?_cons]
      cases hm : loc.matches name with
      | true => rfl
      | false => exact ih

/-- **A lookup in a directory that lists** is the first match among its entries. -/
theorem find_of_entries (h : v.entries = some es) (hn : validInputName name = true) :
    findEntryLocationStatus v name = lookupIn es name := by
  unfold findEntryLocationStatus
  rw [hn]
  exact findFrom_of_list name _ _ _ _ _ h

/-! ## Visits -/

/-- A slot that holds an 8.3 entry of a file or a directory. -/
structure Slot.Short (raw : Slot) : Prop where
  notEnd : raw.first ≠ 0
  notDeleted : raw.first ≠ 0xE5
  notLong : raw.attr &&& attrLongName ≠ attrLongName
  notDot : raw.first ≠ 46
  notLabel : raw.attr &&& 0x08 = 0

theorem Slot.Short.attr_ne (h : raw.Short) : raw.attr ≠ attrLongName := by
  intro he
  exact h.notLong (by rw [he]; decide)

theorem visit_short (h : raw.Short) : visit n raw i s ps = visitShort n raw i s ps := by
  unfold visit
  rw [if_neg h.notEnd, if_neg h.notDeleted, if_neg h.attr_ne, if_neg h.notLong,
    if_neg (by rintro (hd | hl); exact h.notDot hd; exact hl h.notLabel)]

theorem visit_deleted (h : raw.first = 0xE5) : visit n raw i s ps = .pass {} [] := by
  unfold visit
  rw [if_neg (by rw [h]; decide), if_pos h]

theorem visit_end (h : raw.first = 0) : visit n raw i s ps = .stop := by
  unfold visit
  rw [if_pos h]

theorem visit_entry (h : visit n raw i s ps = .entry loc) : raw.Short ∧ visitShort n raw i s ps = .entry loc := by
  unfold visit at h
  split at h
  · cases h
  split at h
  · cases h
  split at h
  · split at h
    · cases h
    · split at h <;> cases h
  split at h
  · cases h
  split at h
  · split at h <;> cases h
  rename_i h1 h2 h3 h4 h5
  push Not at h5
  exact ⟨⟨h1, h2, h4, h5.1, h5.2⟩, h⟩

theorem visitShort_entry : visitShort n raw i s ps = .entry loc ↔
    (s.active && (!s.completeFor raw || ps.length != s.total)) = false ∧ entryClusterValid n (makeEntry raw s.name) = true ∧
    loc = ⟨i, makeEntry raw s.name, shortNameToBuffer (raw.take 11), ps⟩ := by
  unfold visitShort
  dsimp only
  cases s.active && (!s.completeFor raw || ps.length != s.total) with
  | true => simp
  | false =>
    cases entryClusterValid n (makeEntry raw s.name) with
    | true => simp [eq_comm]
    | false => simp

theorem visit_entry_index (h : visit n raw i s ps = .entry loc) : loc.index = i := by
  rw [(visitShort_entry.1 (visit_entry h).2).2.2]

/-! ## Walks -/

/-- The entries met up to a place, and the long-name state there. -/
def walk (n : Nat) : List Slot → Nat → LfnState → List Nat → Option (List EntryLocation × LfnState × List Nat)
  | [], _, s, ps => some ([], s, ps)
  | raw :: rest, i, s, ps =>
    match visit n raw i s ps with
    | .stop => none
    | .bad => none
    | .pass s ps => walk n rest (i + 1) s ps
    | .entry loc => (walk n rest (i + 1) {} []).map (fun r => (loc :: r.1, r.2))

theorem walk_cons (rest : List Slot) : walk n (raw :: rest) i s ps =
    match visit n raw i s ps with
    | .stop => none
    | .bad => none
    | .pass s ps => walk n rest (i + 1) s ps
    | .entry loc => (walk n rest (i + 1) {} []).map (fun r => (loc :: r.1, r.2)) := rfl

theorem walk_append (post : List Slot) : ∀ (pre : List Slot) (i : Nat) (s : LfnState) (ps : List Nat),
    walk n (pre ++ post) i s ps = (walk n pre i s ps).bind
      (fun r => (walk n post (i + pre.length) r.2.1 r.2.2).map (fun q => (r.1 ++ q.1, q.2)))
  | [], i, s, ps => by simp [walk]
  | raw :: pre, i, s, ps => by
    rw [List.cons_append, walk_cons, walk_cons]
    cases visit n raw i s ps with
    | stop => rfl
    | bad => rfl
    | pass s' ps' =>
      dsimp only
      rw [walk_append post pre, List.length_cons, Nat.add_assoc, Nat.add_comm 1]
    | entry loc =>
      dsimp only
      rw [walk_append post pre, List.length_cons, Nat.add_assoc, Nat.add_comm 1]
      cases walk n pre (i + 1) {} [] with
      | none => rfl
      | some r => simp [Option.map_map, Function.comp_def]

theorem list_of_walk : ∀ {pre : List Slot} {i : Nat} {s : LfnState} {ps : List Nat} {es1 es2 : List EntryLocation}
    {s1 : LfnState} {ps1 : List Nat}, walk n pre i s ps = some (es1, s1, ps1) →
    listFrom n post (i + pre.length) s1 ps1 = some es2 → listFrom n (pre ++ post) i s ps = some (es1 ++ es2)
  | [], i, s, ps, es1, es2, s1, ps1, hw, hl => by
    cases hw
    exact hl
  | raw :: pre, i, s, ps, es1, es2, s1, ps1, hw, hl => by
    rw [List.length_cons, Nat.add_comm pre.length, ← Nat.add_assoc] at hl
    unfold walk at hw
    rw [List.cons_append]
    unfold listFrom
    cases hv : visit n raw i s ps with
    | stop => rw [hv] at hw; cases hw
    | bad => rw [hv] at hw; cases hw
    | pass s' ps' =>
      rw [hv] at hw
      exact list_of_walk hw hl
    | entry loc =>
      rw [hv] at hw
      obtain ⟨⟨es0, s0, ps0⟩, hw0, he⟩ := Option.map_eq_some_iff.1 hw
      cases he
      rw [list_of_walk hw0 hl]
      rfl

/-- **An entry of a listing** stands at its slot, with the walk in front of it and the listing behind it. -/
theorem list_entry : ∀ {slots : List Slot} {i : Nat} {s : LfnState} {ps : List Nat} {es : List EntryLocation},
    listFrom n slots i s ps = some es → loc ∈ es →
    ∃ pre raw post es1 es2 s1 ps1, slots = pre ++ raw :: post ∧ es = es1 ++ loc :: es2 ∧ loc.index = i + pre.length ∧
      walk n pre i s ps = some (es1, s1, ps1) ∧ visit n raw loc.index s1 ps1 = .entry loc ∧
      listFrom n post (loc.index + 1) {} [] = some es2
  | [], i, s, ps, es, h, hm => by
    unfold listFrom at h
    split at h
    · cases h
    · cases h
      cases hm
  | raw :: rest, i, s, ps, es, h, hm => by
    unfold listFrom at h
    cases hv : visit n raw i s ps with
    | stop => rw [hv] at h; cases h; cases hm
    | bad => rw [hv] at h; cases h
    | pass s' ps' =>
      rw [hv] at h
      obtain ⟨pre, raw', post, es1, es2, s1, ps1, hs, he, hi, hw, hvis, hl⟩ := list_entry h hm
      refine ⟨raw :: pre, raw', post, es1, es2, s1, ps1, by rw [hs]; rfl, he, ?_, ?_, hvis, hl⟩
      · rw [hi, List.length_cons, Nat.add_assoc, Nat.add_comm 1]
      · unfold walk
        rw [hv]
        exact hw
    | entry loc' =>
      rw [hv] at h
      obtain ⟨es', hes, rfl⟩ := Option.map_eq_some_iff.1 h
      rcases List.mem_cons.1 hm with rfl | hm
      · have hi := visit_entry_index hv
        exact ⟨[], raw, rest, [], es', s, ps, rfl, rfl, hi, rfl, by rw [hi]; exact hv, by rw [hi]; exact hes⟩
      · obtain ⟨pre, raw', post, es1, es2, s1, ps1, hs, he, hi, hw, hvis, hl⟩ := list_entry hes hm
        refine ⟨raw :: pre, raw', post, loc' :: es1, es2, s1, ps1, by rw [hs]; rfl, by rw [he]; rfl, ?_, ?_, hvis, hl⟩
        · rw [hi, List.length_cons, Nat.add_assoc, Nat.add_comm 1]
        · unfold walk
          rw [hv]
          dsimp only
          rw [hw]
          rfl

/-! ## Long-name slots in front of a place -/

/-- A slot of a long name. -/
structure Slot.Long (raw : Slot) : Prop where
  notEnd : raw.first ≠ 0
  notDeleted : raw.first ≠ 0xE5
  long : raw.attr = attrLongName

theorem first_deletedSlot (h : raw.first ≠ 0) : (deletedSlot raw).first = 0xE5 := by
  cases raw with
  | nil => exact absurd rfl h
  | cons c rest => rfl

theorem unit_active {isLast : Bool} {dst unit : Nat} {acc acc' : Bool × LfnState}
    (h : LfnState.unit isLast dst unit acc = some acc') : acc'.2.active = acc.2.active := by
  obtain ⟨ended, s⟩ := acc
  unfold LfnState.unit at h
  dsimp only at h
  split at h
  · split at h
    · cases h
    · cases h; rfl
  · split at h
    · split at h
      · cases h; rfl
      · cases h
    · split at h
      · cases h; rfl
      · split at h
        · cases h
        · cases h; rfl

theorem units_active {isLast : Bool} {base : Nat} {raw : Slot} : ∀ {places : List (Nat × Nat)} {acc acc' : Bool × LfnState},
    places.foldlM (fun acc at_ => LfnState.unit isLast (base + at_.2) (leNat (slice raw at_.1 2)) acc) acc = some acc' →
    acc'.2.active = acc.2.active
  | [], acc, acc', h => by cases h; rfl
  | p :: places, acc, acc', h => by
    rw [List.foldlM_cons] at h
    obtain ⟨mid, hm, h⟩ := Option.bind_eq_some_iff.1 h
    rw [units_active h, unit_active hm]

theorem begin_active {isLast : Bool} {ordinal : Nat} {checksum : UInt8} {s' : LfnState}
    (h : s.begin isLast ordinal checksum = some s') : s'.active = true := by
  unfold LfnState.begin at h
  split at h
  · split at h
    · cases h
    · cases h; rfl
  · rename_i ha
    split at h
    · cases h
    · cases h
      simpa using ha

theorem consume_active {s' : LfnState} (h : s.consume raw = some s') : s'.active = true := by
  unfold LfnState.consume at h
  dsimp only at h
  split at h
  · cases h
  split at h
  · cases h
  obtain ⟨s1, h1, h⟩ := Option.bind_eq_some_iff.1 h
  split at h
  · cases h
  obtain ⟨acc, h2, h⟩ := Option.bind_eq_some_iff.1 h
  cases h
  exact (units_active h2).trans (begin_active h1)

/-- Outside of a name nothing is kept; inside of one its slots are. -/
def Pending (s : LfnState) (ps : List Nat) : Prop := (s = {} ∧ ps = []) ∨ (s.active = true ∧ ps ≠ [])

theorem Pending.inactive (h : Pending s ps) (ha : s.active = false) : s = {} ∧ ps = [] := by
  rcases h with h | h
  · exact h
  · rw [h.1] at ha; cases ha

theorem Pending.none (h : Pending s []) : s = {} := by
  rcases h with h | h
  · exact h.1
  · exact absurd rfl h.2

theorem visit_pass {s' : LfnState} {ps' : List Nat} (h : visit n raw i s ps = .pass s' ps') (hp : Pending s ps) :
    (raw.first = 0xE5 ∧ s' = {} ∧ ps' = []) ∨
    (raw.Long ∧ s.consume raw = some s' ∧ ps.length < maxLfnEntries ∧ ps' = ps ++ [i]) ∨
    (raw.free = false ∧ raw.attr ≠ attrLongName ∧ s = {} ∧ ps = [] ∧ s' = {} ∧ ps' = []) := by
  unfold visit at h
  split at h
  · cases h
  rename_i h1
  split at h
  · rename_i h2
    cases h
    exact .inl ⟨h2, rfl, rfl⟩
  rename_i h2
  split at h
  · rename_i h3
    split at h
    · cases h
    · rename_i s1 hc
      split at h
      · cases h
      · rename_i hl
        cases h
        exact .inr (.inl ⟨⟨h1, h2, h3⟩, hc, Nat.lt_of_not_le hl, rfl⟩)
  rename_i h3
  split at h
  · cases h
  split at h
  · split at h
    · cases h
    · rename_i ha
      cases h
      obtain ⟨rfl, rfl⟩ := hp.inactive (by simpa using ha)
      refine .inr (.inr ⟨?_, h3, rfl, rfl, rfl, rfl⟩)
      simp [Slot.free, h1, h2]
  · exfalso
    unfold visitShort at h
    dsimp only at h
    split at h
    · cases h
    · split at h <;> cases h

theorem visit_pass_pending {s' : LfnState} {ps' : List Nat} (h : visit n raw i s ps = .pass s' ps') (hp : Pending s ps) :
    Pending s' ps' := by
  rcases visit_pass h hp with ⟨_, rfl, rfl⟩ | ⟨_, hc, _, rfl⟩ | ⟨_, _, _, _, rfl, rfl⟩
  · exact .inl ⟨rfl, rfl⟩
  · exact .inr ⟨consume_active hc, by simp⟩
  · exact .inl ⟨rfl, rfl⟩

/-- **The pending slots are the long-name slots right in front.** -/
theorem walk_pending (pre : List Slot) : ∀ {es1 : List EntryLocation} {s1 : LfnState} {ps1 : List Nat},
    walk n pre 0 {} [] = some (es1, s1, ps1) → Pending s1 ps1 ∧
      ∃ front longs, pre = front ++ longs ∧ (∀ l ∈ longs, Slot.Long l) ∧ ps1 = List.range' front.length longs.length := by
  induction pre using List.reverseRecOn with
  | nil =>
    intro es1 s1 ps1 h
    cases h
    exact ⟨.inl ⟨rfl, rfl⟩, [], [], rfl, by simp, rfl⟩
  | append_singleton pre raw ih =>
    intro es1 s1 ps1 h
    rw [walk_append] at h
    obtain ⟨⟨es0, s0, ps0⟩, h0, h⟩ := Option.bind_eq_some_iff.1 h
    obtain ⟨⟨es2, s2, ps2⟩, h2, he⟩ := Option.map_eq_some_iff.1 h
    cases he
    obtain ⟨hp, front, longs, hpre, hlong, hps⟩ := ih h0
    rw [walk_cons] at h2
    cases hv : visit n raw (0 + pre.length) s0 ps0 with
    | stop => rw [hv] at h2; cases h2
    | bad => rw [hv] at h2; cases h2
    | pass s' ps' =>
      rw [hv] at h2
      cases h2
      refine ⟨visit_pass_pending hv hp, ?_⟩
      rcases visit_pass hv hp with ⟨_, _, rfl⟩ | ⟨hl, _, _, rfl⟩ | ⟨_, _, _, _, _, rfl⟩
      · exact ⟨pre ++ [raw], [], by simp, by simp, rfl⟩
      · refine ⟨front, longs ++ [raw], by rw [hpre, List.append_assoc], ?_, ?_⟩
        · intro l hm
          rcases List.mem_append.1 hm with hm | hm
          · exact hlong l hm
          · rw [List.mem_singleton.1 hm]; exact hl
        · rw [hps, hpre, List.length_append, List.length_append, List.length_singleton, List.range'_concat]
          simp
      · exact ⟨pre ++ [raw], [], by simp, by simp, rfl⟩
    | entry loc =>
      rw [hv] at h2
      cases h2
      exact ⟨.inl ⟨rfl, rfl⟩, pre ++ [raw], [], by simp, by simp, rfl⟩

/-! ## Edits -/

theorem modify_middle {α : Type} (f : α → α) (x : α) (post : List α) : ∀ pre : List α,
    (pre ++ x :: post).modify pre.length f = pre ++ f x :: post
  | [] => rfl
  | y :: pre => by
    rw [List.cons_append, List.length_cons, List.modify_succ_cons, modify_middle f x post pre]
    rfl

theorem set_middle {α : Type} (a x : α) (post : List α) : ∀ pre : List α,
    (pre ++ x :: post).set pre.length a = pre ++ a :: post
  | [] => rfl
  | y :: pre => by
    rw [List.cons_append, List.length_cons, List.set_cons_succ, set_middle a x post pre]
    rfl

theorem list_visit_entry {rest : List Slot} (hv : visit n raw i s ps = .entry loc)
    (hl : listFrom n rest (i + 1) {} [] = some es) : listFrom n (raw :: rest) i s ps = some (loc :: es) := by
  unfold listFrom
  rw [hv]
  dsimp only
  rw [hl]
  rfl

theorem list_visit_pass {rest : List Slot} {s' : LfnState} {ps' : List Nat} (hv : visit n raw i s ps = .pass s' ps') :
    listFrom n (raw :: rest) i s ps = listFrom n rest (i + 1) s' ps' := by
  rw [listFrom, hv]

theorem list_visit_stop {rest : List Slot} (hv : visit n raw i s ps = .stop) : listFrom n (raw :: rest) i s ps = some [] := by
  rw [listFrom, hv]

theorem list_tail {rest rest' : List Slot} (h : ∀ j s ps es, listFrom n rest j s ps = some es → listFrom n rest' j s ps = some es) :
    ∀ {pre : List Slot} {i : Nat} {s : LfnState} {ps : List Nat} {es : List EntryLocation},
    listFrom n (pre ++ rest) i s ps = some es → listFrom n (pre ++ rest') i s ps = some es
  | [], i, s, ps, es, hl => h i s ps es hl
  | raw :: pre, i, s, ps, es, hl => by
    rw [List.cons_append] at hl ⊢
    unfold listFrom at hl ⊢
    cases hv : visit n raw i s ps with
    | stop => rw [hv] at hl; exact hl
    | bad => rw [hv] at hl; cases hl
    | pass s' ps' =>
      rw [hv] at hl
      exact list_tail h hl
    | entry loc =>
      rw [hv] at hl
      obtain ⟨es', hes, rfl⟩ := Option.map_eq_some_iff.1 hl
      dsimp only
      rw [list_tail h hes]
      rfl

theorem list_orphan {long f : Slot} (hl : long.Long) (hf : f.free = true) (j : Nat) (s : LfnState) (ps : List Nat)
    (es : List EntryLocation) (h : listFrom n (long :: f :: post) j s ps = some es) :
    listFrom n (deletedSlot long :: f :: post) j s ps = some es := by
  rw [list_visit_pass (visit_deleted (first_deletedSlot hl.notEnd))]
  unfold listFrom at h
  unfold visit at h
  rw [if_neg hl.notEnd, if_neg hl.notDeleted, if_pos hl.long] at h
  cases hc : s.consume long with
  | none => rw [hc] at h; cases h
  | some s' =>
    rw [hc] at h
    dsimp only at h
    by_cases hlen : maxLfnEntries ≤ ps.length
    · rw [if_pos hlen] at h; cases h
    · rw [if_neg hlen] at h
      dsimp only at h
      by_cases h0 : f.first = 0
      · rw [list_visit_stop (visit_end h0)] at h ⊢
        exact h
      · have hE : f.first = 0xE5 := by simpa [Slot.free, h0] using hf
        rw [list_visit_pass (visit_deleted hE)] at h ⊢
        exact h

/-- **Reclaiming orphans changes no entry.** -/
theorem list_reclaim {front : List Slot} (longs : List Slot) : ∀ {f : Slot} {post : List Slot} {es : List EntryLocation},
    (∀ l ∈ longs, Slot.Long l) → f.free = true → listFrom n (front ++ longs ++ f :: post) 0 {} [] = some es →
    listFrom n (front ++ longs.map deletedSlot ++ f :: post) 0 {} [] = some es := by
  induction longs using List.reverseRecOn with
  | nil => exact fun _ _ h => h
  | append_singleton longs long ih =>
    intro f post es hall hf h
    have hlong : Slot.Long long := hall long (by simp)
    have hdel : (deletedSlot long).free = true := by
      simp [Slot.free, first_deletedSlot hlong.notEnd]
    rw [List.append_assoc, List.append_assoc, List.singleton_append, ← List.append_assoc] at h
    have h := ih (fun l hl => hall l (by simp [hl])) hdel (list_tail (list_orphan hlong hf) h)
    rw [List.map_append, List.append_assoc, List.append_assoc]
    rw [List.append_assoc] at h
    exact h

theorem deleteSlots_run {front : List Slot} (longs : List Slot) : ∀ (v : Volume) (post : List Slot),
    v.slots = front ++ longs ++ post →
    ((List.range' front.length longs.length).reverse.foldl Volume.deleteSlot v) =
      { v with slots := front ++ longs.map deletedSlot ++ post } := by
  induction longs using List.reverseRecOn with
  | nil =>
    intro v post h
    rw [List.map_nil, ← h]
    rfl
  | append_singleton longs long ih =>
    intro v post h
    have hset : v.deleteSlot (front.length + longs.length) =
        { v with slots := front ++ longs ++ (deletedSlot long :: post) } := by
      unfold Volume.deleteSlot
      rw [h, ← List.length_append, List.append_assoc, List.append_assoc, List.singleton_append, ← List.append_assoc,
        modify_middle]
    rw [List.length_append, List.length_singleton, List.range'_concat, List.reverse_append, List.reverse_singleton,
      List.singleton_append, List.foldl_cons, Nat.one_mul, hset, ih _ (deletedSlot long :: post) rfl]
    simp

/-! ## The order of entries -/

theorem list_sorted : ∀ {slots : List Slot} {i : Nat} {s : LfnState} {ps : List Nat} {es : List EntryLocation},
    listFrom n slots i s ps = some es → (∀ e ∈ es, i ≤ e.index) ∧ es.Pairwise (fun a b => a.index < b.index)
  | [], i, s, ps, es, h => by
    unfold listFrom at h
    split at h
    · cases h
    · cases h
      simp
  | raw :: rest, i, s, ps, es, h => by
    unfold listFrom at h
    cases hv : visit n raw i s ps with
    | stop => rw [hv] at h; cases h; simp
    | bad => rw [hv] at h; cases h
    | pass s' ps' =>
      rw [hv] at h
      obtain ⟨h1, h2⟩ := list_sorted h
      exact ⟨fun e he => Nat.le_of_succ_le (h1 e he), h2⟩
    | entry loc =>
      rw [hv] at h
      obtain ⟨es', hes, rfl⟩ := Option.map_eq_some_iff.1 h
      obtain ⟨h1, h2⟩ := list_sorted hes
      have hi := visit_entry_index hv
      refine ⟨?_, List.pairwise_cons.2 ⟨fun e he => ?_, h2⟩⟩
      · intro e he
        rcases List.mem_cons.1 he with rfl | he
        · exact Nat.le_of_eq hi.symm
        · exact Nat.le_of_succ_le (h1 e he)
      · rw [hi]
        exact h1 e he

theorem entries_split (h : v.entries = some (es1 ++ loc :: es2)) : loc ∉ es1 ∧ loc ∉ es2 := by
  have hs := (list_sorted h).2
  rw [List.pairwise_append, List.pairwise_cons] at hs
  exact ⟨fun hm => Nat.lt_irrefl _ (hs.2.2 loc hm loc List.mem_cons_self), fun hm => Nat.lt_irrefl _ (hs.2.1.1 loc hm)⟩

theorem entries_index {a b : EntryLocation} (h : v.entries = some es) (ha : a ∈ es) (hb : b ∈ es) (he : a.index = b.index) :
    a = b := by
  by_contra hne
  have hs : es.Pairwise (fun a b => a.index ≠ b.index) := (list_sorted h).2.imp (fun h => Nat.ne_of_lt h)
  have : Std.Symm (fun a b : EntryLocation => a.index ≠ b.index) := ⟨fun _ _ h => h.symm⟩
  exact hs.forall ha hb hne he

/-! ## Edits of a volume -/

/-- The volume without an entry: what `detachEntryNoFree` leaves. -/
def Volume.detached (v : Volume) (loc : EntryLocation) : Volume :=
  loc.lfnSlots.reverse.foldl Volume.deleteSlot (v.deleteSlot loc.index)

theorem detached_eq (h : v.entries = some es) (hm : loc ∈ es) : ∃ slots, v.detached loc = { v with slots := slots } ∧
    ∃ es1 es2, es = es1 ++ loc :: es2 ∧ listFrom v.clusterEnd slots 0 {} [] = some (es1 ++ es2) := by
  obtain ⟨pre, raw, post, es1, es2, s1, ps1, hs, rfl, hi, hw, hv, hl⟩ := list_entry h hm
  obtain ⟨_, front, longs, rfl, hlong, hps⟩ := walk_pending pre hw
  rw [Nat.zero_add] at hi
  obtain ⟨hshort, hvs⟩ := visit_entry hv
  have hlfn : loc.lfnSlots = ps1 := by rw [(visitShort_entry.1 hvs).2.2]
  have hdel : v.deleteSlot loc.index = { v with slots := front ++ longs ++ deletedSlot raw :: post } := by
    unfold Volume.deleteSlot
    rw [hs, hi, modify_middle]
  have hfirst := first_deletedSlot hshort.notEnd
  have hfree : (deletedSlot raw).free = true := by simp [Slot.free, hfirst]
  refine ⟨front ++ longs.map deletedSlot ++ deletedSlot raw :: post, ?_, es1, es2, rfl, ?_⟩
  · unfold Volume.detached
    rw [hlfn, hps, hdel, deleteSlots_run longs _ (deletedSlot raw :: post) rfl]
  · refine list_reclaim longs hlong hfree (list_of_walk hw ?_)
    rw [list_visit_pass (visit_deleted hfirst), Nat.zero_add, ← hi]
    exact hl

/-- **A detached entry is gone, the others stay.** -/
theorem entries_detached (h : v.entries = some es) (hm : loc ∈ es) : ∃ es', (v.detached loc).entries = some es' ∧
    (∀ e, e ∈ es' ↔ e ∈ es ∧ e ≠ loc) ∧ (v.detached loc).fat = v.fat ∧ (v.detached loc).clusterEnd = v.clusterEnd ∧
    (v.detached loc).chain = v.chain := by
  obtain ⟨slots, hd, es1, es2, rfl, hl⟩ := detached_eq h hm
  obtain ⟨hn1, hn2⟩ := entries_split h
  refine ⟨es1 ++ es2, by rw [hd]; exact hl, ?_, by rw [hd], by rw [hd], by rw [hd]⟩
  intro e
  simp only [List.mem_append, List.mem_cons]
  constructor
  · rintro (he | he)
    · exact ⟨.inl he, fun h => hn1 (h ▸ he)⟩
    · exact ⟨.inr (.inr he), fun h => hn2 (h ▸ he)⟩
  · rintro ⟨he | he | he, hne⟩
    · exact .inl he
    · exact absurd he hne
    · exact .inr he

/-- An entry that was moved to another chain: its names, its kind and its place stay. -/
structure Moved (loc loc' : EntryLocation) (cluster size : Nat) : Prop where
  index : loc'.index = loc.index
  name : loc'.entry.name = loc.entry.name
  shortName : loc'.shortName = loc.shortName
  attr : loc'.entry.attr = loc.entry.attr
  cluster : loc'.entry.firstCluster = cluster
  size : loc'.entry.size = size

theorem Moved.matches {loc' : EntryLocation} {cluster size : Nat} (h : Moved loc loc' cluster size) (name : Bytes) :
    loc'.matches name = loc.matches name := by
  unfold EntryLocation.matches
  rw [h.name, h.shortName]

/-- A file of this cluster and size is valid. -/
def placeValid (n cluster size : Nat) : Bool := if cluster = 0 then size == 0 else validDataCluster n cluster

theorem relocatedSlot_first (raw : Slot) (cluster size date time : Nat) :
    (relocatedSlot raw cluster size date time).take 11 = raw.take 11 ∧
    (relocatedSlot raw cluster size date time).first = raw.first ∧ (relocatedSlot raw cluster size date time).attr = raw.attr := by
  have hkeep : ∀ j, j < 18 → (relocatedSlot raw cluster size date time)[j]? = raw[j]? := by
    intro j hj
    unfold relocatedSlot
    rw [getElem?_put_off (.inl (by omega)), getElem?_put_off (.inl (by omega)), getElem?_put_off (.inl (by omega)),
      getElem?_put_off (.inl (by omega)), getElem?_put_off (.inl (by omega)), getElem?_put_off (.inl (by omega))]
  refine ⟨?_, ?_, ?_⟩
  · apply List.ext_getElem?
    intro j
    rw [List.getElem?_take, List.getElem?_take]
    split
    · exact hkeep j (by omega)
    · rfl
  · unfold Slot.first
    rw [List.getD_eq_getElem?_getD, List.getD_eq_getElem?_getD, hkeep 0 (by decide)]
  · unfold Slot.attr
    rw [List.getD_eq_getElem?_getD, List.getD_eq_getElem?_getD, hkeep 11 (by decide)]

theorem relocatedSlot_place (raw : Slot) {cluster size : Nat} (date time : Nat) (h : raw.length = 32)
    (hc : cluster < 2 ^ 32) (hs : size < 2 ^ 32) :
    firstCluster (relocatedSlot raw cluster size date time) = cluster ∧
    leNat (slice (relocatedSlot raw cluster size date time) 28 4) = size := by
  have hhi : slice (relocatedSlot raw cluster size date time) 20 2 = leBytes 2 (cluster / 65536) := by
    unfold relocatedSlot
    rw [slice_put_off (by simp), slice_put_off (by simp), slice_put_off (by simp), slice_put_off (by simp),
      slice_put_off (by simp), slice_put (by simp) (by simp [h])]
  have hlo : slice (relocatedSlot raw cluster size date time) 26 2 = leBytes 2 cluster := by
    unfold relocatedSlot
    rw [slice_put_off (by simp), slice_put_off (by simp), slice_put_off (by simp), slice_put_off (by simp),
      slice_put (by simp) (by simp [h])]
  have hsz : slice (relocatedSlot raw cluster size date time) 28 4 = leBytes 4 size := by
    unfold relocatedSlot
    rw [slice_put_off (by simp), slice_put_off (by simp), slice_put_off (by simp), slice_put (by simp) (by simp [h])]
  constructor
  · unfold firstCluster
    rw [hhi, hlo, leNat_leBytes, leNat_leBytes]
    omega
  · rw [hsz, leNat_leBytes_of_lt hs]

theorem entryClusterValid_file {e : Entry} (h : e.isDir = false) :
    entryClusterValid n e = placeValid n e.firstCluster e.size := by
  unfold entryClusterValid placeValid
  rw [h]
  rfl

section Place

variable {cluster size : Nat} (date time : Nat) (hc : cluster < 2 ^ 32) (hs : size < 2 ^ 32)
  (hp : placeValid n cluster size = true)

include hc hs hp

theorem visit_relocated (hv : visit n raw i s ps = .entry loc) (hlen : raw.length = 32) (hfile : loc.entry.isDir = false) :
    ∃ loc', visit n (relocatedSlot raw cluster size date time) i s ps = .entry loc' ∧ Moved loc loc' cluster size := by
  obtain ⟨hshort, hvs⟩ := visit_entry hv
  obtain ⟨hok, hvalid, rfl⟩ := visitShort_entry.1 hvs
  obtain ⟨htake, hfirst, hattr⟩ := relocatedSlot_first raw cluster size date time
  obtain ⟨hclu, hsize⟩ := relocatedSlot_place raw date time hlen hc hs
  have hshort' : (relocatedSlot raw cluster size date time).Short := by
    constructor
    · rw [hfirst]; exact hshort.notEnd
    · rw [hfirst]; exact hshort.notDeleted
    · rw [hattr]; exact hshort.notLong
    · rw [hfirst]; exact hshort.notDot
    · rw [hattr]; exact hshort.notLabel
  have hdir : (makeEntry (relocatedSlot raw cluster size date time) s.name).isDir = false := by
    unfold Entry.isDir makeEntry
    dsimp only
    rw [hattr]
    exact hfile
  have hcomplete : s.completeFor (relocatedSlot raw cluster size date time) = s.completeFor raw := by
    unfold LfnState.completeFor
    rw [htake]
  rw [visit_short hshort']
  refine ⟨_, visitShort_entry.2 ⟨by rw [hcomplete]; exact hok, ?_, rfl⟩, ?_⟩
  · rw [entryClusterValid_file hdir]
    unfold makeEntry
    dsimp only
    rw [hclu, hsize]
    exact hp
  · refine ⟨rfl, ?_, ?_, hattr, hclu, hsize⟩
    · unfold makeEntry entryName
      dsimp only
      rw [htake]
    · dsimp only
      rw [htake]

/-- **A relocated entry keeps its names**, and the others stay. -/
theorem entries_relocated (h : v.entries = some es) (hm : loc ∈ es) (hv : v.clusterEnd = n)
    (hsized : ∀ raw ∈ v.slots, raw.length = 32) (hfile : loc.entry.isDir = false) :
    ∃ es' loc', (v.relocate loc.index cluster size date time).entries = some es' ∧ Moved loc loc' cluster size ∧
      (∀ e, e ∈ es' ↔ e = loc' ∨ (e ∈ es ∧ e ≠ loc)) := by
  subst hv
  obtain ⟨pre, raw, post, es1, es2, s1, ps1, hslots, rfl, hi, hw, hvis, hl⟩ := list_entry h hm
  obtain ⟨hn1, hn2⟩ := entries_split h
  have hlen : raw.length = 32 := hsized raw (by rw [hslots]; simp)
  obtain ⟨loc', hvis', hmoved⟩ := visit_relocated date time hc hs hp hvis hlen hfile
  rw [Nat.zero_add] at hi
  have hnew : (v.relocate loc.index cluster size date time).slots =
      pre ++ relocatedSlot raw cluster size date time :: post := by
    unfold Volume.relocate
    dsimp only
    rw [hslots, hi, modify_middle]
  refine ⟨es1 ++ loc' :: es2, loc', ?_, hmoved, ?_⟩
  · unfold Volume.entries
    rw [hnew]
    refine list_of_walk hw (list_visit_entry ?_ ?_)
    · rw [Nat.zero_add, ← hi]
      exact hvis'
    · rw [Nat.zero_add, ← hi]
      exact hl
  · intro e
    simp only [List.mem_append, List.mem_cons]
    constructor
    · rintro (he | he | he)
      · exact .inr ⟨.inl he, fun h => hn1 (h ▸ he)⟩
      · exact .inl he
      · exact .inr ⟨.inr (.inr he), fun h => hn2 (h ▸ he)⟩
    · rintro (he | ⟨he | he | he, hne⟩)
      · exact .inr (.inl he)
      · exact .inl he
      · exact absurd he hne
      · exact .inr (.inr he)

end Place

/-! ## New entries -/

theorem list_after_walk : ∀ {pre : List Slot} {i : Nat} {s : LfnState} {ps : List Nat} {es es1 : List EntryLocation}
    {s1 : LfnState} {ps1 : List Nat}, walk n pre i s ps = some (es1, s1, ps1) → listFrom n (pre ++ post) i s ps = some es →
    ∃ es2, listFrom n post (i + pre.length) s1 ps1 = some es2 ∧ es = es1 ++ es2
  | [], i, s, ps, es, es1, s1, ps1, hw, hl => by
    cases hw
    exact ⟨es, hl, rfl⟩
  | raw :: pre, i, s, ps, es, es1, s1, ps1, hw, hl => by
    rw [List.length_cons, Nat.add_comm pre.length, ← Nat.add_assoc]
    rw [walk_cons] at hw
    rw [List.cons_append] at hl
    unfold listFrom at hl
    cases hv : visit n raw i s ps with
    | stop => rw [hv] at hw; cases hw
    | bad => rw [hv] at hw; cases hw
    | pass s' ps' =>
      rw [hv] at hw hl
      exact list_after_walk hw hl
    | entry loc =>
      rw [hv] at hw hl
      obtain ⟨⟨es0, s0, ps0⟩, hw0, he⟩ := Option.map_eq_some_iff.1 hw
      cases he
      obtain ⟨es', hes, rfl⟩ := Option.map_eq_some_iff.1 hl
      obtain ⟨es2, h2, rfl⟩ := list_after_walk hw0 hes
      exact ⟨es2, h2, rfl⟩

/-- **A new entry in a free slot** outside of a name; behind the end of the directory there is nothing. -/
theorem list_insert {f : Slot} (hl : listFrom n (pre ++ f :: post) 0 {} [] = some es) (hw : walk n pre 0 {} [] = some (es1, {}, []))
    (hf : f.free = true) (hend : f.first = 0 → ∀ x ∈ post, Slot.first x = 0) (hv : visit n raw pre.length {} [] = .entry loc) :
    ∃ es2, es = es1 ++ es2 ∧ listFrom n (pre ++ raw :: post) 0 {} [] = some (es1 ++ loc :: es2) := by
  obtain ⟨es2, h2, rfl⟩ := list_after_walk hw hl
  refine ⟨es2, rfl, list_of_walk hw (list_visit_entry (by rw [Nat.zero_add]; exact hv) ?_)⟩
  by_cases h0 : f.first = 0
  · rw [list_visit_stop (visit_end h0)] at h2
    cases h2
    cases post with
    | nil => rfl
    | cons x post => exact list_visit_stop (visit_end (hend h0 x List.mem_cons_self))
  · have hE : f.first = 0xE5 := by simpa [Slot.free, h0] using hf
    rw [list_visit_pass (visit_deleted hE)] at h2
    exact h2

theorem walk_deleted : ∀ {longs : List Slot} {i : Nat} {s : LfnState} {ps : List Nat}, longs ≠ [] → (∀ l ∈ longs, Slot.Long l) →
    walk n (longs.map deletedSlot) i s ps = some ([], {}, [])
  | [], _, _, _, h, _ => absurd rfl h
  | [l], i, s, ps, _, h => by
    rw [List.map_singleton, walk_cons, visit_deleted (first_deletedSlot (h l List.mem_cons_self).notEnd)]
    rfl
  | l :: l' :: longs, i, s, ps, _, h => by
    rw [List.map_cons, walk_cons, visit_deleted (first_deletedSlot (h l List.mem_cons_self).notEnd)]
    exact walk_deleted (by simp) (fun x hx => h x (List.mem_cons_of_mem _ hx))

theorem firstCluster_lt (raw : Slot) : firstCluster raw < 2 ^ 32 := by
  have h1 := leNat_lt (slice raw 20 2)
  have h2 := leNat_lt (slice raw 26 2)
  have l1 := Nat.pow_le_pow_right (show 0 < 256 by decide) (length_slice_le raw 20 2)
  have l2 := Nat.pow_le_pow_right (show 0 < 256 by decide) (length_slice_le raw 26 2)
  unfold firstCluster
  omega

theorem size_lt (raw : Slot) : leNat (slice raw 28 4) < 2 ^ 32 := by
  have h1 := leNat_lt (slice raw 28 4)
  have l1 := Nat.pow_le_pow_right (show 0 < 256 by decide) (length_slice_le raw 28 4)
  omega

/-- What the slot of an entry guarantees of it. -/
structure Sound (n : Nat) (e : Entry) : Prop where
  notLong : e.attr &&& attrLongName ≠ attrLongName
  notLabel : e.attr &&& 0x08 = 0
  cluster : e.firstCluster < 2 ^ 32
  size : e.size < 2 ^ 32
  valid : entryClusterValid n e = true

theorem entries_sound (h : v.entries = some es) (hm : loc ∈ es) : Sound v.clusterEnd loc.entry := by
  obtain ⟨pre, raw, post, es1, es2, s1, ps1, _, _, _, _, hv, _⟩ := list_entry h hm
  obtain ⟨hshort, hvs⟩ := visit_entry hv
  obtain ⟨_, hvalid, he⟩ := visitShort_entry.1 hvs
  rw [he]
  exact ⟨hshort.notLong, hshort.notLabel, firstCluster_lt raw, size_lt raw, hvalid⟩

/-- An alias of a file under an 8.3 name. -/
structure Aliases (e : Entry) (short : Bytes) (i : Nat) (loc : EntryLocation) : Prop where
  index : loc.index = i
  name : loc.entry.name = shortNameToBuffer short
  shortName : loc.shortName = shortNameToBuffer short
  attr : loc.entry.attr = e.attr
  cluster : loc.entry.firstCluster = e.firstCluster
  size : loc.entry.size = e.size

theorem length_aliasSlot {short : Bytes} (h : short.length = 11) (e : Entry) : (aliasSlot short e).length = 32 := by
  simp [aliasSlot, h]

/-- What the thirty-two bytes of an alias say. -/
structure Stands (raw : Slot) (short : Bytes) (e : Entry) : Prop where
  take : raw.take 11 = short
  first : raw.first = short.getD 0 0
  attr : raw.attr = e.attr
  cluster : firstCluster raw = e.firstCluster
  size : leNat (slice raw 28 4) = e.size

theorem aliasSlot_stands {short : Bytes} {e : Entry} (hlen : short.length = 11) (hcluster : e.firstCluster < 2 ^ 32)
    (hsize : e.size < 2 ^ 32) : Stands (aliasSlot short e) short e where
  take := by
    unfold aliasSlot
    simp only [List.append_assoc]
    exact List.take_left' hlen
  first := by
    cases short with
    | nil => cases hlen
    | cons c rest => rfl
  attr := by
    unfold Slot.attr aliasSlot
    simp [hlen]
  cluster := by
    have hhi : slice (short ++ [e.attr, 0, 0] ++ leBytes 2 e.createdTime ++ leBytes 2 e.createdDate ++
        leBytes 2 e.accessDate ++ leBytes 2 (e.firstCluster / 65536) ++ (leBytes 2 e.modifiedTime ++
        leBytes 2 e.modifiedDate ++ leBytes 2 e.firstCluster ++ leBytes 4 e.size)) 20 2 = leBytes 2 (e.firstCluster / 65536) :=
      slice_middle (by simp [hlen]) (by simp)
    have hlo : slice (short ++ [e.attr, 0, 0] ++ leBytes 2 e.createdTime ++ leBytes 2 e.createdDate ++
        leBytes 2 e.accessDate ++ leBytes 2 (e.firstCluster / 65536) ++ leBytes 2 e.modifiedTime ++
        leBytes 2 e.modifiedDate ++ leBytes 2 e.firstCluster ++ leBytes 4 e.size) 26 2 = leBytes 2 e.firstCluster :=
      slice_middle (by simp [hlen]) (by simp)
    have hhi : slice (aliasSlot short e) 20 2 = leBytes 2 (e.firstCluster / 65536) := by simpa [aliasSlot] using hhi
    have hlo : slice (aliasSlot short e) 26 2 = leBytes 2 e.firstCluster := by simpa [aliasSlot] using hlo
    unfold firstCluster
    rw [hhi, hlo, leNat_leBytes, leNat_leBytes]
    omega
  size := by
    have hmid : slice (short ++ [e.attr, 0, 0] ++ leBytes 2 e.createdTime ++ leBytes 2 e.createdDate ++
        leBytes 2 e.accessDate ++ leBytes 2 (e.firstCluster / 65536) ++ leBytes 2 e.modifiedTime ++
        leBytes 2 e.modifiedDate ++ leBytes 2 e.firstCluster ++ leBytes 4 e.size ++ []) 28 4 = leBytes 4 e.size :=
      slice_middle (by simp [hlen]) (by simp)
    have hmid : slice (aliasSlot short e) 28 4 = leBytes 4 e.size := by simpa [aliasSlot] using hmid
    rw [hmid, leNat_leBytes_of_lt hsize]

theorem Stands.short {short : Bytes} {e : Entry} (h : Stands raw short e) (he : Sound n e)
    (hhead : short.getD 0 0 ≠ 0 ∧ short.getD 0 0 ≠ 0xE5 ∧ short.getD 0 0 ≠ 46) : raw.Short where
  notEnd := by rw [h.first]; exact hhead.1
  notDeleted := by rw [h.first]; exact hhead.2.1
  notLong := by rw [h.attr]; exact he.notLong
  notDot := by rw [h.first]; exact hhead.2.2
  notLabel := by rw [h.attr]; exact he.notLabel

theorem Stands.valid {short : Bytes} {e : Entry} (h : Stands raw short e) (he : Sound n e) (lfn : List Nat) :
    entryClusterValid n (makeEntry raw lfn) = true := by
  rw [← he.valid]
  unfold entryClusterValid Entry.isDir makeEntry
  dsimp only
  rw [h.attr, h.cluster, h.size]

theorem visit_alias {short : Bytes} {e : Entry} (hshort : buildShortName name = some short) (he : Sound n e) (i : Nat) :
    ∃ loc, visit n (aliasSlot short e) i {} [] = .entry loc ∧ Aliases e short i loc := by
  have hs := aliasSlot_stands (length_buildShortName hshort) he.cluster he.size
  rw [visit_short (hs.short he (head_buildShortName hshort))]
  refine ⟨_, visitShort_entry.2 ⟨rfl, hs.valid he _, rfl⟩, rfl, ?_, ?_, hs.attr, hs.cluster, hs.size⟩
  · show entryName (aliasSlot short e) [] = _
    unfold entryName
    rw [if_pos rfl, hs.take]
  · dsimp only
    rw [hs.take]

/-! ## Free slots -/

theorem visit_stop (h : visit n raw i s ps = .stop) : raw.first = 0 := by
  by_contra h0
  unfold visit at h
  rw [if_neg h0] at h
  split at h
  · cases h
  split at h
  · split at h
    · cases h
    · split at h <;> cases h
  split at h
  · cases h
  split at h
  · split at h <;> cases h
  · unfold visitShort at h
    dsimp only at h
    split at h
    · cases h
    · split at h <;> cases h

theorem scanFree_pass {s' : LfnState} {ps' : List Nat} {rest : List Slot} (hf : raw.free = false) (hp : Pending s ps)
    (hv : visit n raw i s ps = .pass s' ps') : scanFree 1 (raw :: rest) i s ps [] [] = scanFree 1 rest (i + 1) s' ps' [] [] := by
  have hnf : ¬ raw.free = true := by rw [hf]; decide
  rw [scanFree, if_neg hnf]
  rcases visit_pass hv hp with ⟨hE, _, _⟩ | ⟨hl, hc, hlen, rfl⟩ | ⟨_, hattr, rfl, rfl, rfl, rfl⟩
  · exact absurd (by simp [Slot.free, hE]) hnf
  · rw [if_pos hl.long, hc]
    dsimp only
    rw [if_neg (Nat.ne_of_lt hlen)]
  · rw [if_neg hattr]
    rfl

theorem scanFree_entry {rest : List Slot} (hf : raw.free = false) (hv : visit n raw i s ps = .entry loc) :
    scanFree 1 (raw :: rest) i s ps [] [] = scanFree 1 rest (i + 1) {} [] [] [] := by
  have hnf : ¬ raw.free = true := by rw [hf]; decide
  obtain ⟨hshort, hvs⟩ := visit_entry hv
  have hok := (visitShort_entry.1 hvs).1
  have hdone : ¬ (s.active && !s.completeFor raw) = true := by
    intro h
    rw [Bool.and_eq_true] at h
    rw [h.1, h.2] at hok
    cases hok
  rw [scanFree, if_neg hnf, if_neg hshort.attr_ne, if_neg hdone]

/-- **The first free slot** is behind the orphans that are reclaimed; without one the whole directory was walked. -/
theorem scanFree_one : ∀ {slots : List Slot} {i : Nat} {s : LfnState} {ps : List Nat} {es : List EntryLocation} {free : FreeSlots},
    Pending s ps → listFrom n slots i s ps = some es → scanFree 1 slots i s ps [] [] = some free →
    (free.enough = true ∧ ∃ pre f post es1 s1, ∃ ps1 : List Nat, slots = pre ++ f :: post ∧ f.free = true ∧
      walk n pre i s ps = some (es1, s1, ps1) ∧ free.run = [i + pre.length] ∧ free.reclaimed = ps1.reverse) ∨
    (free.enough = false ∧ free.run = [] ∧ free.reclaimed = [] ∧ walk n slots i s ps = some (es, {}, []))
  | [], i, s, ps, es, free, hp, hl, hf => by
    unfold scanFree at hf
    unfold listFrom at hl
    split at hf
    · cases hf
    · rename_i hps
      cases hf
      have hps : ps = [] := by simpa using hps
      subst hps
      rw [hp.none] at hl ⊢
      cases hl
      exact .inr ⟨rfl, rfl, rfl, rfl⟩
  | raw :: rest, i, s, ps, es, free, hp, hl, hf => by
    by_cases hfree : raw.free = true
    · unfold scanFree at hf
      rw [if_pos hfree, if_pos (by rfl)] at hf
      cases hf
      exact .inl ⟨rfl, [], raw, rest, [], s, ps, rfl, hfree, rfl, rfl, rfl⟩
    · have hfree : raw.free = false := by simpa using hfree
      -- the guard's state is the walk's: where the walk is outside of a name, both are empty
      have hnext : ∃ s' ps' es' front, Pending s' ps' ∧ listFrom n rest (i + 1) s' ps' = some es' ∧
          scanFree 1 rest (i + 1) s' ps' [] [] = some free ∧ es = front ++ es' ∧
          ∀ r, walk n (raw :: r) i s ps = (walk n r (i + 1) s' ps').map (fun q => (front ++ q.1, q.2)) := by
        unfold listFrom at hl
        cases hv : visit n raw i s ps with
        | stop =>
          have h0 := visit_stop hv
          simp [Slot.free, h0] at hfree
        | bad => rw [hv] at hl; cases hl
        | pass s' ps' =>
          rw [hv] at hl
          refine ⟨s', ps', es, [], visit_pass_pending hv hp, hl, by rw [← scanFree_pass hfree hp hv]; exact hf, rfl, ?_⟩
          intro r
          rw [walk_cons, hv]
          simp
        | entry loc =>
          rw [hv] at hl
          obtain ⟨es', hes, rfl⟩ := Option.map_eq_some_iff.1 hl
          refine ⟨{}, [], es', [loc], .inl ⟨rfl, rfl⟩, hes, by rw [← scanFree_entry hfree hv]; exact hf, rfl, ?_⟩
          intro r
          rw [walk_cons, hv]
          rfl
      obtain ⟨s', ps', es', front, hp', hl', hf', rfl, hwalk⟩ := hnext
      rcases scanFree_one hp' hl' hf' with ⟨he, pre, f, post, es1, s1, ps1, rfl, hff, hw, hr, hrec⟩ | ⟨he, hr, hrec, hw⟩
      · refine .inl ⟨he, raw :: pre, f, post, front ++ es1, s1, ps1, rfl, hff, ?_, ?_, hrec⟩
        · rw [hwalk, hw]
          rfl
        · rw [hr, List.length_cons, Nat.add_assoc, Nat.add_comm 1]
      · refine .inr ⟨he, hr, hrec, ?_⟩
        rw [hwalk, hw]
        rfl

end Fat
end R4
