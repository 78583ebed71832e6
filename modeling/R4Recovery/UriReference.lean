import R4Recovery.Buffer
import R4Recovery.Lines
/-!
# UriReference — references and the texts they stand for

A reference as its components, its target against a base, and the removal of dot segments from a path.  A path from the root
is a list of segments; there `.` goes, and `..` goes with the segment in front of it.
-/
namespace R4
namespace Uri

/-! ## Components -/

/-- A reference without a fragment. -/
structure Reference where
  scheme : Option Bytes
  authority : Option Bytes
  path : Bytes
  query : Option Bytes
  deriving DecidableEq, Repr

/-- `:`, `/`, `?` or `#`. -/
def isDelimiter (c : UInt8) : Bool := c == 58 || c == 47 || c == 63 || c == 35

/-- What ends an authority. -/
def endsAuthority (c : UInt8) : Bool := c == 47 || c == 63 || c == 35

/-- What ends a path. -/
def endsPath (c : UInt8) : Bool := c == 63 || c == 35

/-- The scheme in front of the first delimiter, and what follows it. -/
def splitScheme (text : Bytes) : Option Bytes × Bytes :=
  match text.dropWhile (fun c => !isDelimiter c) with
  | 58 :: rest => if text.takeWhile (fun c => !isDelimiter c) = [] then (none, text)
      else (some (text.takeWhile (fun c => !isDelimiter c)), rest)
  | _ => (none, text)

/-- The authority behind two slashes, and what follows it. -/
def splitAuthority (text : Bytes) : Option Bytes × Bytes :=
  match text with
  | 47 :: 47 :: rest => (some (rest.takeWhile (fun c => !endsAuthority c)), rest.dropWhile (fun c => !endsAuthority c))
  | _ => (none, text)

/-- The path, and the query behind a question mark. -/
def splitQuery (text : Bytes) : Bytes × Option Bytes :=
  (text.takeWhile (fun c => !endsPath c),
    match text.dropWhile (fun c => !endsPath c) with
    | 63 :: rest => some (rest.takeWhile (· != 35))
    | _ => none)

def parse (text : Bytes) : Reference :=
  let (scheme, rest) := splitScheme text
  let (authority, rest) := splitAuthority rest
  let (path, query) := splitQuery rest
  { scheme := scheme, authority := authority, path := path, query := query }

def queryText : Option Bytes → Bytes
  | some query => 63 :: query
  | none => []

/-- The text of the components. -/
def recompose (r : Reference) : Bytes :=
  (match r.scheme with
    | some scheme => scheme ++ [58]
    | none => []) ++
  (match r.authority with
    | some authority => [47, 47] ++ authority
    | none => []) ++ r.path ++ queryText r.query

/-! ## Dot segments -/

/-- The last segment goes, with the slash in front of it. -/
def dropSegment (output : Bytes) : Bytes := (output.reverse.dropWhile (· != 47)).tail.reverse

/-- **The dot segments of `input` are removed**; `output` was read before. -/
def removeDots (input output : Bytes) : Bytes :=
  match input with
  | 46 :: 46 :: 47 :: rest => removeDots rest output
  | 46 :: 47 :: rest => removeDots rest output
  | 47 :: 46 :: 47 :: rest => removeDots (47 :: rest) output
  | [47, 46] => removeDots [47] output
  | 47 :: 46 :: 46 :: 47 :: rest => removeDots (47 :: rest) (dropSegment output)
  | [47, 46, 46] => removeDots [47] (dropSegment output)
  | [46] => output
  | [46, 46] => output
  | [] => output
  | c :: rest => removeDots (rest.dropWhile (· != 47)) (output ++ c :: rest.takeWhile (· != 47))
termination_by input.length
decreasing_by
  all_goals simp only [List.length_cons, List.length_nil]
  all_goals try omega
  exact Nat.lt_succ_of_le (List.dropWhile_sublist _).length_le

def removeDotSegments (path : Bytes) : Bytes := removeDots path []

section Equations

variable (rest output : Bytes)

/-- **The equations of the removal**, the last one apart. -/
theorem removeDots_equations :
    removeDots (46 :: 46 :: 47 :: rest) output = removeDots rest output ∧
    removeDots (46 :: 47 :: rest) output = removeDots rest output ∧
    removeDots (47 :: 46 :: 47 :: rest) output = removeDots (47 :: rest) output ∧
    removeDots [47, 46] output = removeDots [47] output ∧
    removeDots (47 :: 46 :: 46 :: 47 :: rest) output = removeDots (47 :: rest) (dropSegment output) ∧
    removeDots [47, 46, 46] output = removeDots [47] (dropSegment output) ∧
    removeDots [46] output = output ∧ removeDots [46, 46] output = output ∧ removeDots [] output = output :=
  ⟨removeDots.eq_1 output rest, removeDots.eq_2 output rest, removeDots.eq_3 output rest, removeDots.eq_4 output,
    removeDots.eq_5 output rest, removeDots.eq_6 output, removeDots.eq_7 output, removeDots.eq_8 output, removeDots.eq_9 output⟩

theorem removeDots_up : removeDots (46 :: 46 :: 47 :: rest) output = removeDots rest output := (removeDots_equations rest output).1

theorem removeDots_here : removeDots (46 :: 47 :: rest) output = removeDots rest output := (removeDots_equations rest output).2.1

theorem removeDots_slashHere : removeDots (47 :: 46 :: 47 :: rest) output = removeDots (47 :: rest) output :=
  (removeDots_equations rest output).2.2.1

theorem removeDots_lastHere : removeDots [47, 46] output = removeDots [47] output := (removeDots_equations [] output).2.2.2.1

theorem removeDots_slashUp : removeDots (47 :: 46 :: 46 :: 47 :: rest) output = removeDots (47 :: rest) (dropSegment output) :=
  (removeDots_equations rest output).2.2.2.2.1

theorem removeDots_lastUp : removeDots [47, 46, 46] output = removeDots [47] (dropSegment output) :=
  (removeDots_equations [] output).2.2.2.2.2.1

theorem removeDots_one : removeDots [46] output = output := (removeDots_equations [] output).2.2.2.2.2.2.1

theorem removeDots_two : removeDots [46, 46] output = output := (removeDots_equations [] output).2.2.2.2.2.2.2.1

@[simp] theorem removeDots_nil : removeDots [] output = output := (removeDots_equations [] output).2.2.2.2.2.2.2.2

end Equations

/-! ## Targets -/

/-- A path that is not from the root, behind the directory of the base. -/
def merge (base : Reference) (path : Bytes) : Bytes :=
  if base.authority.isSome ∧ base.path = [] then 47 :: path
  else (base.path.reverse.dropWhile (· != 47)).reverse ++ path

/-- What the reference stands for; its dots stand yet. -/
def transform (base r : Reference) : Reference :=
  match r.scheme, r.authority with
  | some _, _ => r
  | none, some _ => { r with scheme := base.scheme }
  | none, none =>
    if r.path = [] then { base with query := r.query.or base.query }
    else if r.path.head? = some 47 then { base with path := r.path, query := r.query }
    else { base with path := merge base r.path, query := r.query }

/-- A path without dot segments that is not empty. -/
def normalPath (path : Bytes) : Bytes := if path = [] then [47] else removeDotSegments path

/-- **The target of a reference.** -/
def target (base r : Reference) : Bytes := recompose { transform base r with path := normalPath (transform base r).path }

/-! ## Segments -/

/-- The path from the root with these segments. -/
def joined (segments : List Bytes) : Bytes := segments.flatMap (47 :: ·)

/-- The segments that stand; those of `kept` were read before. -/
def standing : List Bytes → List Bytes → List Bytes
  | [], kept => kept
  | segment :: rest, kept =>
    if segment = [46] then if rest = [] then kept ++ [[]] else standing rest kept
    else if segment = [46, 46] then if rest = [] then kept.dropLast ++ [[]] else standing rest kept.dropLast
    else standing rest (kept ++ [segment])

theorem standing_cons (segment : Bytes) (rest kept : List Bytes) : standing (segment :: rest) kept =
    if segment = [46] then if rest = [] then kept ++ [[]] else standing rest kept
    else if segment = [46, 46] then if rest = [] then kept.dropLast ++ [[]] else standing rest kept.dropLast
    else standing rest (kept ++ [segment]) := rfl

/-- Segments of a path have no slash. -/
def Plain (segments : List Bytes) : Prop := ∀ s ∈ segments, (47 : UInt8) ∉ s

section Segments

variable {segments kept : List Bytes} {s tail output : Bytes}

@[simp] theorem joined_nil : joined [] = [] := rfl

@[simp] theorem joined_cons (s : Bytes) (rest : List Bytes) : joined (s :: rest) = 47 :: (s ++ joined rest) := by
  rw [joined, List.flatMap_cons, joined, List.cons_append]

@[simp] theorem joined_append (a b : List Bytes) : joined (a ++ b) = joined a ++ joined b := List.flatMap_append

/-- What follows a segment is nothing or a slash. -/
def Follows (tail : Bytes) : Prop := ∀ c ∈ tail.head?, c = 47

theorem follows_joined (rest : List Bytes) : Follows (joined rest) := by
  cases rest with
  | nil => exact nofun
  | cons s rest =>
    intro c hc
    cases hc
    rfl

theorem takeWhile_segment (hs : (47 : UInt8) ∉ s) (htail : Follows tail) :
    (s ++ tail).takeWhile (· != 47) = s ∧ (s ++ tail).dropWhile (· != 47) = tail := by
  have hall : ∀ c ∈ s, (c != 47) = true := fun c hc => bne_iff_ne.2 fun h => hs (h ▸ hc)
  rw [List.takeWhile_append_of_pos hall, List.dropWhile_append_of_pos hall]
  cases tail with
  | nil => exact ⟨List.append_nil s, rfl⟩
  | cons c tail =>
    obtain rfl : c = 47 := htail c rfl
    exact ⟨List.append_nil s, rfl⟩

theorem removeDots_segment (hs : (47 : UInt8) ∉ s) (hdot : s ≠ [46]) (hdots : s ≠ [46, 46]) (htail : Follows tail) :
    removeDots (47 :: (s ++ tail)) output = removeDots tail (output ++ 47 :: s) := by
  obtain ⟨htake, hdrop⟩ := takeWhile_segment hs htail
  generalize hright : removeDots tail (output ++ 47 :: s) = right
  generalize hinput : 47 :: (s ++ tail) = input
  unfold removeDots
  split
  · cases hinput
  · cases hinput
  · rw [(List.cons.inj hinput).2] at htake
    exact absurd htake.symm hdot
  · rw [(List.cons.inj hinput).2] at htake
    exact absurd htake.symm hdot
  · rw [(List.cons.inj hinput).2] at htake
    exact absurd htake.symm hdots
  · rw [(List.cons.inj hinput).2] at htake
    exact absurd htake.symm hdots
  · cases hinput
  · cases hinput
  · cases hinput
  · obtain ⟨rfl, rfl⟩ := List.cons.inj hinput
    rw [htake, hdrop, hright]

theorem removeDots_slash (output : Bytes) : removeDots [47] output = output ++ [47] := by
  have h : removeDots (47 :: ([] ++ [])) output = removeDots [] (output ++ 47 :: []) :=
    removeDots_segment List.not_mem_nil nofun nofun nofun
  rw [removeDots_nil] at h
  exact h

theorem removeDots_dot (rest : List Bytes) : removeDots (47 :: ([46] ++ joined rest)) output =
    removeDots (if rest = [] then [47] else joined rest) output := by
  cases rest with
  | nil =>
    rw [if_pos rfl]
    exact removeDots_lastHere output
  | cons s rest =>
    rw [if_neg (List.cons_ne_nil _ _), joined_cons]
    exact removeDots_slashHere _ output

theorem removeDots_dots (rest : List Bytes) : removeDots (47 :: ([46, 46] ++ joined rest)) output =
    removeDots (if rest = [] then [47] else joined rest) (dropSegment output) := by
  cases rest with
  | nil =>
    rw [if_pos rfl]
    exact removeDots_lastUp output
  | cons s rest =>
    rw [if_neg (List.cons_ne_nil _ _), joined_cons]
    exact removeDots_slashUp _ output

theorem dropSegment_joined (h : Plain kept) : dropSegment (joined kept) = joined kept.dropLast := by
  rcases List.eq_nil_or_concat' kept with rfl | ⟨kept, s, rfl⟩
  · rfl
  · have hs : (47 : UInt8) ∉ s := h s (List.mem_append_right _ (List.mem_singleton_self s))
    have hall : ∀ c ∈ s.reverse, (c != 47) = true := fun c hc => bne_iff_ne.2 fun he => hs (he ▸ List.mem_reverse.1 hc)
    rw [dropSegment, joined_append, joined_cons, joined_nil, List.append_nil, List.reverse_append, List.reverse_cons,
      List.append_assoc, List.dropWhile_append_of_pos hall, List.dropLast_concat]
    exact List.reverse_reverse _

/-- **Removal, segment by segment.** -/
theorem removeDots_joined : ∀ (segments kept : List Bytes), Plain segments → Plain kept →
    removeDots (joined segments) (joined kept) = joined (standing segments kept)
  | [], kept, _, _ => removeDots_nil _
  | s :: rest, kept, hplain, hkept => by
    have hs : (47 : UInt8) ∉ s := hplain s List.mem_cons_self
    have hrest : Plain rest := fun t ht => hplain t (List.mem_cons_of_mem _ ht)
    have hdrop : Plain kept.dropLast := fun t ht => hkept t (List.mem_of_mem_dropLast ht)
    rw [standing_cons]
    rw [joined_cons]
    by_cases hdot : s = [46]
    · rw [if_pos hdot, hdot, removeDots_dot]
      by_cases hlast : rest = []
      · rw [if_pos hlast, if_pos hlast, removeDots_slash, joined_append]
        rfl
      · rw [if_neg hlast, if_neg hlast]
        exact removeDots_joined rest kept hrest hkept
    · rw [if_neg hdot]
      by_cases hdots : s = [46, 46]
      · rw [if_pos hdots, hdots, removeDots_dots, dropSegment_joined hkept]
        by_cases hlast : rest = []
        · rw [if_pos hlast, if_pos hlast, removeDots_slash, joined_append]
          rfl
        · rw [if_neg hlast, if_neg hlast]
          exact removeDots_joined rest kept.dropLast hrest hdrop
      · rw [if_neg hdots, removeDots_segment hs hdot hdots (follows_joined rest)]
        have hnext : joined kept ++ 47 :: s = joined (kept ++ [s]) := by
          rw [joined_append, joined_cons, joined_nil, List.append_nil]
        rw [hnext]
        refine removeDots_joined rest (kept ++ [s]) hrest fun t ht => ?_
        rcases List.mem_append.1 ht with ht | ht
        · exact hkept t ht
        · rw [List.mem_singleton.1 ht]
          exact hs

theorem standing_plain : ∀ {segments kept : List Bytes}, Plain segments → Plain kept →
    (∀ s ∈ kept, s ≠ [46] ∧ s ≠ [46, 46]) →
    Plain (standing segments kept) ∧ ∀ s ∈ standing segments kept, s ≠ [46] ∧ s ≠ [46, 46]
  | [], kept, _, hkept, hdots => ⟨hkept, hdots⟩
  | s :: rest, kept, hplain, hkept, hdots => by
    have hrest : Plain rest := fun t ht => hplain t (List.mem_cons_of_mem _ ht)
    have hpop : ∀ t ∈ kept.dropLast, t ∈ kept := fun t ht => List.mem_of_mem_dropLast ht
    have hgrow : ∀ {kept' : List Bytes} {u : Bytes}, (∀ t ∈ kept', t ∈ kept) → (47 : UInt8) ∉ u → u ≠ [46] → u ≠ [46, 46] →
        Plain (kept' ++ [u]) ∧ ∀ t ∈ kept' ++ [u], t ≠ [46] ∧ t ≠ [46, 46] := by
      intro kept' u hsub hu hdot hdots'
      have hmem : ∀ t ∈ kept' ++ [u], t ∈ kept ∨ t = u := by
        intro t ht
        rcases List.mem_append.1 ht with ht | ht
        · exact .inl (hsub t ht)
        · exact .inr (List.mem_singleton.1 ht)
      refine ⟨fun t ht => ?_, fun t ht => ?_⟩
      · rcases hmem t ht with ht | rfl
        · exact hkept t ht
        · exact hu
      · rcases hmem t ht with ht | rfl
        · exact hdots t ht
        · exact ⟨hdot, hdots'⟩
    rw [standing_cons]
    by_cases hdot : s = [46]
    · rw [if_pos hdot]
      by_cases hlast : rest = []
      · rw [if_pos hlast]
        exact hgrow (fun _ ht => ht) List.not_mem_nil nofun nofun
      · rw [if_neg hlast]
        exact standing_plain hrest hkept hdots
    · rw [if_neg hdot]
      by_cases hdots' : s = [46, 46]
      · rw [if_pos hdots']
        by_cases hlast : rest = []
        · rw [if_pos hlast]
          exact hgrow hpop List.not_mem_nil nofun nofun
        · rw [if_neg hlast]
          exact standing_plain hrest (fun t ht => hkept t (hpop t ht)) fun t ht => hdots t (hpop t ht)
      · rw [if_neg hdots']
        obtain ⟨hplain', hnone⟩ := @hgrow kept s (fun _ ht => ht) (hplain s List.mem_cons_self) hdot hdots'
        exact standing_plain hrest hplain' hnone

theorem standing_eq : ∀ {segments kept : List Bytes}, (∀ s ∈ segments, s ≠ [46] ∧ s ≠ [46, 46]) →
    standing segments kept = kept ++ segments
  | [], kept, _ => (List.append_nil kept).symm
  | s :: rest, kept, h => by
    rw [standing_cons, if_neg (h s List.mem_cons_self).1, if_neg (h s List.mem_cons_self).2,
      standing_eq fun t ht => h t (List.mem_cons_of_mem _ ht), List.append_assoc]
    rfl

theorem standing_last : ∀ {segments kept : List Bytes}, segments ≠ [] →
    (standing segments kept).getLast? = some [] ∨ (standing segments kept).getLast? = segments.getLast?
  | [], _, h => absurd rfl h
  | s :: rest, kept, _ => by
    have hlonger : rest ≠ [] → (s :: rest).getLast? = rest.getLast? := by
      intro hne
      obtain ⟨r, rest, rfl⟩ := List.exists_cons_of_ne_nil hne
      exact List.getLast?_cons_cons
    rw [standing_cons]
    by_cases hlast : rest = []
    · rw [if_pos hlast, if_pos hlast, hlast]
      change (if s = [46] then kept ++ [[]] else if s = [46, 46] then kept.dropLast ++ [[]] else kept ++ [s]).getLast? = _ ∨ _ = _
      split
      · exact .inl List.getLast?_concat
      · split
        · exact .inl List.getLast?_concat
        · exact .inr List.getLast?_concat
    · rw [if_neg hlast, if_neg hlast, hlonger hlast]
      split
      · exact standing_last hlast
      · split
        · exact standing_last hlast
        · exact standing_last hlast

theorem mem_standing : ∀ {segments kept : List Bytes} {s : Bytes}, s ∈ standing segments kept → s = [] ∨ s ∈ segments ∨
    s ∈ kept
  | [], _, _, h => .inr (.inr h)
  | t :: rest, kept, s, h => by
    have hlater : ∀ {kept' : List Bytes}, (∀ u ∈ kept', u ∈ kept) → s ∈ standing rest kept' → s = [] ∨ s ∈ t :: rest ∨
        s ∈ kept := by
      intro kept' hsub hmem
      rcases mem_standing hmem with h | h | h
      · exact .inl h
      · exact .inr (.inl (List.mem_cons_of_mem _ h))
      · exact .inr (.inr (hsub s h))
    have hend : ∀ {kept' : List Bytes}, (∀ u ∈ kept', u ∈ kept) → s ∈ kept' ++ [[]] → s = [] ∨ s ∈ t :: rest ∨ s ∈ kept := by
      intro kept' hsub hmem
      rcases List.mem_append.1 hmem with h | h
      · exact .inr (.inr (hsub s h))
      · exact .inl (List.mem_singleton.1 h)
    rw [standing_cons] at h
    split at h
    · split at h
      · exact hend (fun _ hu => hu) h
      · exact hlater (fun _ hu => hu) h
    · split at h
      · split at h
        · exact hend (fun _ hu => List.mem_of_mem_dropLast hu) h
        · exact hlater (fun _ hu => List.mem_of_mem_dropLast hu) h
      · rcases mem_standing h with h | h | h
        · exact .inl h
        · exact .inr (.inl (List.mem_cons_of_mem _ h))
        · rcases List.mem_append.1 h with h | h
          · exact .inr (.inr h)
          · rw [List.mem_singleton.1 h]
            exact .inr (.inl List.mem_cons_self)

theorem exists_joined : ∀ text : Bytes, ∃ segments, segments ≠ [] ∧ Plain segments ∧ 47 :: text = joined segments
  | [] => ⟨[[]], List.cons_ne_nil _ _, fun s hs => by rw [List.mem_singleton.1 hs]; exact List.not_mem_nil, rfl⟩
  | c :: text => by
    obtain ⟨segments, hne, hplain, htext⟩ := exists_joined text
    cases segments with
    | nil => exact absurd rfl hne
    | cons s rest =>
      rw [joined_cons] at htext
      obtain rfl := (List.cons.inj htext).2
      by_cases hc : c = 47
      · refine ⟨[] :: s :: rest, List.cons_ne_nil _ _, fun t ht => ?_, ?_⟩
        · rcases List.mem_cons.1 ht with rfl | ht
          · exact List.not_mem_nil
          · exact hplain t ht
        · rw [hc, joined_cons, joined_cons]
          rfl
      · refine ⟨(c :: s) :: rest, List.cons_ne_nil _ _, fun t ht => ?_, ?_⟩
        · rcases List.mem_cons.1 ht with rfl | ht
          · exact fun hmem => (List.mem_cons.1 hmem).elim (fun h => hc h.symm) (hplain s List.mem_cons_self)
          · exact hplain t (List.mem_cons_of_mem _ ht)
        · rw [joined_cons]
          rfl

theorem splitOn_joined (hne : segments ≠ []) (h : Plain segments) : (joined segments).splitOn 47 = [] :: segments := by
  have hall : ∀ l ∈ [] :: segments, (47 : UInt8) ∉ l := by
    intro l hl
    rcases List.mem_cons.1 hl with rfl | hl
    · exact List.not_mem_nil
    · exact h l hl
  have htext : joined segments = [47].intercalate ([] :: segments) := by
    clear h hall
    induction segments with
    | nil => exact absurd rfl hne
    | cons s rest ih =>
      cases rest with
      | nil => simp
      | cons r rest =>
        rw [joined_cons, ih (List.cons_ne_nil _ _), List.intercalate_cons_cons, List.intercalate_cons_cons,
          List.intercalate_cons_cons]
        simp
  rw [htext, List.splitOn_intercalate 47 hall (List.cons_ne_nil _ _)]

theorem getLast?_joined {l : Bytes} (h : segments.getLast? = some l) : (joined segments).getLast? = (47 :: l).getLast? := by
  obtain ⟨front, rfl⟩ := List.getLast?_eq_some_iff.1 h
  rw [joined_append, joined_cons, joined_nil, List.append_nil, List.getLast?_append_of_ne_nil _ (List.cons_ne_nil _ _)]

/-- **A path without dot segments**: its segments are none of them, and its last byte is the old one or a slash. -/
theorem removeDotSegments_spec (text : Bytes) : ∃ segments, segments ≠ [] ∧ Plain segments ∧
    (∀ s ∈ segments, s ≠ [46] ∧ s ≠ [46, 46]) ∧ removeDotSegments (47 :: text) = joined segments ∧
    ((joined segments).getLast? = some 47 ∨ (joined segments).getLast? = (47 :: text).getLast?) ∧
    ∀ c ∈ joined segments, c ∈ 47 :: text := by
  obtain ⟨segments, hne, hplain, htext⟩ := exists_joined text
  have hnil : Plain [] := fun _ h => absurd h List.not_mem_nil
  have hstand : removeDotSegments (47 :: text) = joined (standing segments []) := by
    rw [htext]
    exact removeDots_joined segments [] hplain hnil
  obtain ⟨hplain', hdots⟩ := standing_plain hplain hnil fun _ h => absurd h List.not_mem_nil
  obtain ⟨last, hlast⟩ : ∃ last, segments.getLast? = some last :=
    ⟨segments.getLast hne, List.getLast?_eq_some_getLast hne⟩
  have hends := @standing_last segments [] hne
  refine ⟨standing segments [], fun h => ?_, hplain', hdots, hstand, ?_, fun c hc => ?_⟩
  · rw [h, hlast] at hends
    rcases hends with h | h <;> cases h
  · rcases hends with h | h
    · exact .inl (getLast?_joined h)
    · rw [hlast] at h
      rw [htext, getLast?_joined h, getLast?_joined hlast]
      exact .inr rfl
  · obtain ⟨s, hs, hc⟩ := List.mem_flatMap.1 hc
    rcases List.mem_cons.1 hc with rfl | hc
    · exact List.mem_cons_self
    · rcases mem_standing hs with rfl | hs | hs
      · exact absurd hc List.not_mem_nil
      · rw [htext]
        exact List.mem_flatMap.2 ⟨s, hs, List.mem_cons_of_mem _ hc⟩
      · exact absurd hs List.not_mem_nil

theorem removeDotSegments_joined (h : Plain segments) (hdots : ∀ s ∈ segments, s ≠ [46] ∧ s ≠ [46, 46]) :
    removeDotSegments (joined segments) = joined segments := by
  have hremove := removeDots_joined segments [] h fun _ h => absurd h List.not_mem_nil
  rw [standing_eq hdots] at hremove
  exact hremove

end Segments

end Uri
end R4
