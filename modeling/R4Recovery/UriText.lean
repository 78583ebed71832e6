import R4Recovery.UriReference
/-!
# UriText — a text and the components it splits into

What `parse` finds are components that the text of them splits into again.
-/
namespace R4
namespace Uri

/-- **Components as a text splits into them.** -/
structure Reference.Split (r : Reference) : Prop where
  scheme : ∀ s ∈ r.scheme, s ≠ [] ∧ ∀ c ∈ s, isDelimiter c = false
  authority : ∀ a ∈ r.authority, (∀ c ∈ a, endsAuthority c = false) ∧ Follows r.path
  path : ∀ c ∈ r.path, endsPath c = false
  query : ∀ q ∈ r.query, (35 : UInt8) ∉ q

/-! ## Fronts -/

section Fronts

variable {p : UInt8 → Bool} {front tail text : Bytes} {c : UInt8}

theorem split_front (hfront : ∀ c ∈ front, p c = false) (htail : ∀ c ∈ tail.head?, p c = true) :
    (front ++ tail).takeWhile (fun c => !p c) = front ∧ (front ++ tail).dropWhile (fun c => !p c) = tail := by
  have hall : ∀ c ∈ front, (!p c) = true := fun c hc => by rw [hfront c hc]; rfl
  rw [List.takeWhile_append_of_pos hall, List.dropWhile_append_of_pos hall]
  cases tail with
  | nil => exact ⟨List.append_nil front, rfl⟩
  | cons c tail =>
    have hc : ¬ (!p c) = true := by
      rw [htail c rfl]
      exact Bool.false_ne_true
    rw [List.takeWhile_cons_of_neg (p := fun c => !p c) hc, List.dropWhile_cons_of_neg (p := fun c => !p c) hc,
      List.append_nil]
    exact ⟨rfl, rfl⟩

theorem takeWhile_plain (h : c ∈ text.takeWhile (fun c => !p c)) : p c = false := by
  have hnot := List.mem_takeWhile_imp h
  rwa [Bool.not_eq_true'] at hnot

theorem head_dropWhile (h : c ∈ (text.dropWhile (fun c => !p c)).head?) : p c = true := by
  have hnot := List.head?_dropWhile_not (fun c => !p c) text
  rw [Option.mem_def.1 h] at hnot
  simpa using hnot

theorem mem_dropWhile (h : c ∈ text.dropWhile (fun c => !p c)) : c ∈ text := (List.dropWhile_sublist _).subset h

end Fronts

/-! ## What is found -/

section Found

variable {text : Bytes}

theorem splitScheme_spec (text : Bytes) :
    (∃ s rest, splitScheme text = (some s, rest) ∧ text = s ++ 58 :: rest ∧ s ≠ [] ∧ ∀ c ∈ s, isDelimiter c = false) ∨
    splitScheme text = (none, text) := by
  unfold splitScheme
  split
  · rename_i rest hrest
    by_cases hempty : text.takeWhile (fun c => !isDelimiter c) = []
    · rw [if_pos hempty]
      exact .inr rfl
    · rw [if_neg hempty]
      refine .inl ⟨_, rest, rfl, ?_, hempty, fun c hc => takeWhile_plain hc⟩
      rw [← hrest]
      exact List.takeWhile_append_dropWhile.symm
  · exact .inr rfl

theorem splitAuthority_spec (text : Bytes) :
    (∃ a rest, splitAuthority text = (some a, rest) ∧ text = 47 :: 47 :: (a ++ rest) ∧ (∀ c ∈ a, endsAuthority c = false) ∧
      ∀ c ∈ rest.head?, endsAuthority c = true) ∨
    splitAuthority text = (none, text) := by
  unfold splitAuthority
  split
  · rename_i rest
    refine .inl ⟨_, _, rfl, ?_, fun c hc => takeWhile_plain hc, fun c hc => head_dropWhile hc⟩
    rw [List.takeWhile_append_dropWhile]
  · exact .inr rfl

theorem splitQuery_spec (h : (35 : UInt8) ∉ text) : text = (splitQuery text).1 ++ queryText (splitQuery text).2 := by
  have hrest : text.dropWhile (fun c => !endsPath c) = queryText (splitQuery text).2 := by
    unfold splitQuery
    have hhead : ∀ c ∈ (text.dropWhile (fun c => !endsPath c)).head?, endsPath c = true := fun c hc => head_dropWhile hc
    have hmem : ∀ c ∈ text.dropWhile (fun c => !endsPath c), c ∈ text := fun c hc => mem_dropWhile hc
    generalize text.dropWhile (fun c => !endsPath c) = rest at hhead hmem
    cases rest with
    | nil => rfl
    | cons c rest =>
      have hc : c = 63 := by
        rcases Bool.or_eq_true_iff.1 (hhead c rfl) with hc | hc
        · exact beq_iff_eq.1 hc
        · exact absurd (beq_iff_eq.1 hc ▸ hmem c List.mem_cons_self) h
      have hall : ∀ d ∈ rest, (d != 35) = true := fun d hd => bne_iff_ne.2 fun he => h (he ▸ hmem d (List.mem_cons_of_mem _ hd))
      rw [hc]
      simp only [queryText]
      rw [List.takeWhile_eq_self_iff.2 hall]
  rw [← hrest]
  exact List.takeWhile_append_dropWhile.symm

theorem splitQuery_plain (text : Bytes) : (∀ c ∈ (splitQuery text).1, endsPath c = false) ∧
    ∀ q ∈ (splitQuery text).2, (35 : UInt8) ∉ q := by
  refine ⟨fun c hc => takeWhile_plain hc, fun q hq hmem => ?_⟩
  unfold splitQuery at hq
  simp only at hq
  split at hq
  · cases hq
    exact absurd (List.mem_takeWhile_imp hmem) (by decide)
  · cases hq

theorem splitQuery_follows (h : ∀ c ∈ text.head?, endsAuthority c = true) : Follows (splitQuery text).1 := by
  intro c hc
  cases text with
  | nil => cases hc
  | cons b text =>
    unfold splitQuery at hc
    rw [List.takeWhile_cons] at hc
    split at hc
    · rename_i hb
      cases hc
      have hends := h c rfl
      unfold endsAuthority at hends
      unfold endsPath at hb
      rw [Bool.not_eq_true', Bool.or_eq_false_iff] at hb
      rw [hb.1, hb.2, Bool.or_false, Bool.or_false] at hends
      exact beq_iff_eq.1 hends
    · cases hc

end Found

/-! ## Texts -/

section Texts

variable {text : Bytes} {r base : Reference} {s a : Bytes}

theorem parse_eq {scheme authority : Option Bytes} {rest last : Bytes} (hscheme : splitScheme text = (scheme, rest))
    (hauthority : splitAuthority rest = (authority, last)) : parse text =
      { scheme := scheme, authority := authority, path := (splitQuery last).1, query := (splitQuery last).2 } := by
  rw [parse, hscheme]
  simp only
  rw [hauthority]

/-- **The components give the text again.** -/
theorem recompose_parse (h : (35 : UInt8) ∉ text) : recompose (parse text) = text := by
  have hquery : ∀ last : Bytes, (∀ c ∈ last, c ∈ text) → (splitQuery last).1 ++ queryText (splitQuery last).2 = last :=
    fun last hmem => (splitQuery_spec fun hc => h (hmem 35 hc)).symm
  rcases splitScheme_spec text with ⟨s, rest, hscheme, htext, -, -⟩ | hscheme
  · rcases splitAuthority_spec rest with ⟨a, last, hauthority, hrest, -, -⟩ | hauthority
    · rw [parse_eq hscheme hauthority, recompose]
      simp only [List.append_assoc]
      rw [hquery last fun c hc => by rw [htext, hrest]; simp [hc], htext, hrest]
      rfl
    · rw [parse_eq hscheme hauthority, recompose]
      simp only [List.append_assoc]
      rw [hquery rest fun c hc => by rw [htext]; simp [hc], htext]
      rfl
  · rcases splitAuthority_spec text with ⟨a, last, hauthority, hrest, -, -⟩ | hauthority
    · rw [parse_eq hscheme hauthority, recompose]
      simp only [List.append_assoc]
      rw [hquery last fun c hc => by rw [hrest]; simp [hc]]
      exact hrest.symm
    · rw [parse_eq hscheme hauthority, recompose]
      simp only [List.append_assoc]
      rw [hquery text fun c hc => hc]
      rfl

/-- **What is found is as a text splits.** -/
theorem parse_split (text : Bytes) : (parse text).Split := by
  have hscheme : ∀ s ∈ (splitScheme text).1, s ≠ [] ∧ ∀ c ∈ s, isDelimiter c = false := by
    rcases splitScheme_spec text with ⟨s, rest, hsplit, -, hne, hplain⟩ | hsplit
    · rw [hsplit]
      intro t ht
      cases ht
      exact ⟨hne, hplain⟩
    · rw [hsplit]
      exact nofun
  have hauthority : ∀ rest : Bytes, ∀ a ∈ (splitAuthority rest).1, (∀ c ∈ a, endsAuthority c = false) ∧
      ∀ c ∈ (splitAuthority rest).2.head?, endsAuthority c = true := by
    intro rest
    rcases splitAuthority_spec rest with ⟨a, last, hsplit, -, hplain, hhead⟩ | hsplit
    · rw [hsplit]
      intro b hb
      cases hb
      exact ⟨hplain, hhead⟩
    · rw [hsplit]
      exact nofun
  have hparse := @parse_eq text _ _ _ _ rfl rfl
  obtain ⟨hpath, hquery⟩ := splitQuery_plain (splitAuthority (splitScheme text).2).2
  rw [hparse]
  exact ⟨hscheme, fun a ha => ⟨(hauthority _ a ha).1, splitQuery_follows (hauthority _ a ha).2⟩, hpath, hquery⟩

theorem head_queryText (q : Option Bytes) : ∀ c ∈ (queryText q).head?, c = 63 := by
  cases q with
  | none => exact nofun
  | some q =>
    intro c hc
    cases hc
    rfl

theorem head_rest {path : Bytes} (h : Follows path) (q : Option Bytes) :
    ∀ c ∈ (path ++ queryText q).head?, endsAuthority c = true := by
  intro c hc
  cases path with
  | nil =>
    rw [head_queryText q c hc]
    rfl
  | cons b path =>
    cases hc
    rw [h c rfl]
    rfl

theorem recompose_eq (hs : r.scheme = some s) (ha : r.authority = some a) :
    recompose r = s ++ 58 :: 47 :: 47 :: (a ++ (r.path ++ queryText r.query)) := by
  rw [recompose, hs, ha]
  simp

theorem splitQuery_text {path : Bytes} {q : Option Bytes} (hpath : ∀ c ∈ path, endsPath c = false)
    (hquery : ∀ t ∈ q, (35 : UInt8) ∉ t) : splitQuery (path ++ queryText q) = (path, q) := by
  have hends : ∀ c ∈ (queryText q).head?, endsPath c = true := fun c hc => by rw [head_queryText q c hc]; rfl
  obtain ⟨htake, hdrop⟩ := split_front hpath hends
  rw [splitQuery, htake, hdrop]
  cases q with
  | none => rfl
  | some t =>
    have hall : ∀ d ∈ t, (d != 35) = true := fun d hd => bne_iff_ne.2 fun he => hquery t rfl (he ▸ hd)
    simp only [queryText]
    rw [List.takeWhile_eq_self_iff.2 hall]

/-- **The text splits into the components again.** -/
theorem parse_recompose (h : r.Split) (hs : r.scheme = some s) (ha : r.authority = some a) : parse (recompose r) = r := by
  obtain ⟨hne, hplain⟩ := h.scheme s hs
  obtain ⟨hauthority, hrooted⟩ := h.authority a ha
  have hcolon : ∀ c ∈ (58 :: 47 :: 47 :: (a ++ (r.path ++ queryText r.query)) : Bytes).head?, isDelimiter c = true := by
    intro c hc
    cases hc
    rfl
  obtain ⟨htake, hdrop⟩ := split_front hplain hcolon
  obtain ⟨htake', hdrop'⟩ := split_front hauthority (head_rest hrooted r.query)
  have hscheme : splitScheme (s ++ 58 :: 47 :: 47 :: (a ++ (r.path ++ queryText r.query))) =
      (some s, 47 :: 47 :: (a ++ (r.path ++ queryText r.query))) := by
    rw [splitScheme, hdrop, htake]
    simp only
    rw [if_neg hne]
  have howned : splitAuthority (47 :: 47 :: (a ++ (r.path ++ queryText r.query)))
      = (some a, r.path ++ queryText r.query) := by
    rw [splitAuthority, htake', hdrop']
  rw [recompose_eq hs ha, parse_eq hscheme howned, splitQuery_text h.path h.query, ← hs, ← ha]

theorem removeDotSegments_rooted {path : Bytes} (h : Follows path) (hne : path ≠ []) :
    Follows (removeDotSegments path) ∧ ∀ c ∈ removeDotSegments path, c ∈ path := by
  obtain ⟨c, t, rfl⟩ := List.exists_cons_of_ne_nil hne
  obtain rfl : c = 47 := h c rfl
  obtain ⟨segments, -, -, -, hremove, -, hmem⟩ := removeDotSegments_spec t
  rw [hremove]
  exact ⟨follows_joined segments, hmem⟩

theorem normalPath_rooted {path : Bytes} (h : Follows path) (hplain : ∀ c ∈ path, endsPath c = false) :
    Follows (normalPath path) ∧ ∀ c ∈ normalPath path, endsPath c = false := by
  rw [normalPath]
  by_cases hne : path = []
  · rw [if_pos hne]
    exact ⟨fun c hc => by cases hc; rfl, fun c hc => by rw [List.mem_singleton.1 hc]; rfl⟩
  · rw [if_neg hne]
    obtain ⟨hrooted, hmem⟩ := removeDotSegments_rooted h hne
    exact ⟨hrooted, fun c hc => hplain c (hmem c hc)⟩

theorem normal_split (h : r.Split) (ha : r.authority = some a) :
    ({ r with path := normalPath r.path } : Reference).Split := by
  obtain ⟨hauthority, hrooted⟩ := h.authority a ha
  obtain ⟨hnormal, hplain⟩ := normalPath_rooted hrooted h.path
  exact ⟨h.scheme, fun b hb => ⟨(h.authority b hb).1, hnormal⟩, hplain, h.query⟩

theorem merge_rooted (hbase : base.Split) (ha : base.authority = some a) {path : Bytes}
    (hplain : ∀ c ∈ path, endsPath c = false) :
    Follows (merge base path) ∧ ∀ c ∈ merge base path, endsPath c = false := by
  rw [merge]
  by_cases hempty : base.authority.isSome ∧ base.path = []
  · rw [if_pos hempty]
    refine ⟨fun c hc => by cases hc; rfl, fun c hc => ?_⟩
    rcases List.mem_cons.1 hc with rfl | hc
    · rfl
    · exact hplain c hc
  · rw [if_neg hempty]
    have hne : base.path ≠ [] := fun h => hempty ⟨by rw [ha]; rfl, h⟩
    have hrooted := (hbase.authority a ha).2
    obtain ⟨t, ht⟩ : (base.path.reverse.dropWhile (· != 47)).reverse <+: base.path := by
      have hsuffix := List.dropWhile_suffix (· != 47) (l := base.path.reverse)
      rwa [← List.reverse_prefix, List.reverse_reverse] at hsuffix
    have hslash : (base.path.reverse.dropWhile (· != 47)).reverse ≠ [] := by
      obtain ⟨c, rest, hpath⟩ := List.exists_cons_of_ne_nil hne
      obtain rfl : c = 47 := hrooted c (by rw [hpath]; rfl)
      intro hnil
      rw [List.reverse_eq_nil_iff, List.dropWhile_eq_nil_iff] at hnil
      exact absurd (hnil 47 (by rw [hpath]; simp)) (by decide)
    generalize (base.path.reverse.dropWhile (· != 47)).reverse = directory at ht hslash
    obtain ⟨c, rest, rfl⟩ := List.exists_cons_of_ne_nil hslash
    refine ⟨fun d hd => hrooted d (by rw [← ht]; exact hd), fun d hd => ?_⟩
    rcases List.mem_append.1 hd with hd | hd
    · exact hbase.path d (by rw [← ht]; exact List.mem_append_left _ hd)
    · exact hplain d hd

/-- **What a reference stands for has the scheme and an authority**, unless it has a scheme itself. -/
theorem transform_split (hbase : base.Split) (hs : base.scheme = some s) (ha : base.authority = some a) (h : r.Split)
    (hnone : r.scheme = none) :
    (transform base r).Split ∧ (transform base r).scheme = some s ∧
    (transform base r).authority = some (r.authority.getD a) := by
  obtain ⟨scheme, authority, path, query⟩ := r
  obtain rfl : scheme = none := hnone
  cases authority with
  | some b => exact ⟨⟨hbase.scheme, h.authority, h.path, h.query⟩, hs, rfl⟩
  | none =>
    rw [transform]
    by_cases hempty : path = []
    · rw [if_pos hempty]
      refine ⟨⟨hbase.scheme, hbase.authority, hbase.path, fun q hq => ?_⟩, hs, ha⟩
      cases query with
      | none => exact hbase.query q hq
      | some q' => exact h.query q hq
    · rw [if_neg hempty]
      by_cases hroot : path.head? = some 47
      · rw [if_pos hroot]
        refine ⟨⟨hbase.scheme, fun b hb => ⟨(hbase.authority b hb).1, fun c hc => ?_⟩, h.path, h.query⟩, hs, ha⟩
        rw [Option.mem_def, hroot] at hc
        exact (Option.some.inj hc).symm
      · rw [if_neg hroot]
        obtain ⟨hrooted, hplain⟩ := merge_rooted hbase ha h.path
        exact ⟨⟨hbase.scheme, fun b hb => ⟨(hbase.authority b hb).1, hrooted⟩, hplain, h.query⟩, hs, ha⟩

theorem suffix_transform (base : Reference) (hne : text ≠ []) (hhash : (35 : UInt8) ∉ text) :
    text <:+ recompose (transform base (parse text)) := by
  have hwhole := recompose_parse hhash
  generalize parse text = r at hwhole ⊢
  obtain ⟨scheme, authority, path, query⟩ := r
  cases scheme with
  | some s => exact ⟨[], hwhole.symm⟩
  | none =>
    cases authority with
    | some a =>
      rw [← hwhole]
      simp only [transform, recompose, List.nil_append, List.append_assoc]
      exact List.suffix_append _ _
    | none =>
      rw [← hwhole, transform]
      by_cases hempty : path = []
      · rw [if_pos hempty]
        cases query with
        | none =>
          rw [hempty] at hwhole
          exact absurd hwhole.symm hne
        | some q =>
          simp only [hempty, recompose, List.nil_append, List.append_assoc, Option.some_or]
          exact List.suffix_append_of_suffix (List.suffix_append_of_suffix (List.suffix_append _ _))
      · rw [if_neg hempty]
        by_cases hroot : path.head? = some 47
        · rw [if_pos hroot]
          simp only [recompose, List.nil_append, List.append_assoc]
          exact List.suffix_append_of_suffix (List.suffix_append _ _)
        · rw [if_neg hroot, merge]
          simp only [recompose, List.nil_append, List.append_assoc]
          refine List.suffix_append_of_suffix (List.suffix_append_of_suffix ?_)
          split
          · exact List.suffix_cons _ _
          · rw [List.append_assoc]
            exact List.suffix_append _ _

/-- **A normal path has no dot segments** and is normal already; its last byte is the old one or a slash. -/
theorem normalPath_spec {path : Bytes} (h : Follows path) : normalPath path ≠ [] ∧ normalPath (normalPath path)
    = normalPath path ∧
    (∀ segment ∈ (normalPath path).splitOn 47, segment ≠ [46] ∧ segment ≠ [46, 46]) ∧
    ((normalPath path).getLast? = some 47 ∨ (path ≠ [] ∧ (normalPath path).getLast? = path.getLast?)) := by
  have hjoined : ∀ {segments : List Bytes}, segments ≠ [] → Plain segments → (∀ s ∈ segments, s ≠ [46] ∧ s ≠ [46, 46]) →
      joined segments ≠ [] ∧ normalPath (joined segments) = joined segments ∧
      ∀ segment ∈ (joined segments).splitOn 47, segment ≠ [46] ∧ segment ≠ [46, 46] := by
    intro segments hne hplain hdots
    have hcons : joined segments ≠ [] := by
      obtain ⟨s, rest, rfl⟩ := List.exists_cons_of_ne_nil hne
      rw [joined_cons]
      exact List.cons_ne_nil _ _
    refine ⟨hcons, ?_, ?_⟩
    · rw [normalPath, if_neg hcons, removeDotSegments_joined hplain hdots]
    · rw [splitOn_joined hne hplain]
      intro segment hmem
      rcases List.mem_cons.1 hmem with rfl | hmem
      · exact ⟨nofun, nofun⟩
      · exact hdots segment hmem
  cases path with
  | nil =>
    obtain ⟨hne, hnormal, hsegments⟩ := @hjoined [[]] (List.cons_ne_nil _ _)
      (fun s hs => by rw [List.mem_singleton.1 hs]; exact List.not_mem_nil)
      fun s hs => by rw [List.mem_singleton.1 hs]; exact ⟨nofun, nofun⟩
    exact ⟨hne, hnormal, hsegments, .inl rfl⟩
  | cons c rest =>
    obtain rfl : c = 47 := h c rfl
    obtain ⟨segments, hne, hplain, hdots, hremove, hlast, -⟩ := removeDotSegments_spec rest
    obtain ⟨hcons, hnormal, hsegments⟩ := hjoined hne hplain hdots
    have hpath : normalPath (47 :: rest) = joined segments := by
      rw [normalPath, if_neg (List.cons_ne_nil _ _), hremove]
    rw [hpath]
    exact ⟨hcons, hnormal, hsegments, hlast.imp id fun heq => ⟨List.cons_ne_nil _ _, heq⟩⟩

end Texts

end Uri
end R4
