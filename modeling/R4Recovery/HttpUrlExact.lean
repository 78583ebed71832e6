import R4Recovery.HttpUrlParts
/-!
# HttpUrlExact — where a redirect leads

The text that is given is the target of the location against the base, and it leads to itself.
-/
namespace R4
namespace Http

open Uri (Reference parse recompose transform normalPath target queryText)
open WebUrl (Outcome Web joinReference normalizeJoinedApart resolveReference resolveReference_spec)

/-! ## Trimmed texts -/

section Trimmed

variable {text : Bytes}

theorem trimmed_trimAscii (text : Bytes) : trimmed (trimAscii text) = true := by
  have hhead : ∀ (l : Bytes), ∀ c ∈ (l.dropWhile isBlank).head?, isBlank c = false := by
    intro l c hc
    have hnot := List.head?_dropWhile_not isBlank l
    rw [Option.mem_def.1 hc] at hnot
    simpa using hnot
  have hlast : ∀ c ∈ (trimAscii text).getLast?, isBlank c = false := by
    intro c hc
    rw [trimAscii, trim, List.getLast?_reverse] at hc
    exact hhead _ c hc
  have hfirst : ∀ c ∈ (trimAscii text).head?, isBlank c = false := by
    intro c hc
    refine hhead text c ?_
    obtain ⟨t, ht⟩ : trimAscii text <+: text.dropWhile isBlank := by
      have hsuffix := List.dropWhile_suffix isBlank (l := (text.dropWhile isBlank).reverse)
      rw [← List.reverse_prefix, List.reverse_reverse] at hsuffix
      exact hsuffix
    rw [← ht]
    cases hcons : trimAscii text with
    | nil =>
      rw [hcons] at hc
      cases hc
    | cons d rest =>
      rw [hcons] at hc
      exact hc
  rw [trimmed, Bool.and_eq_true]
  refine ⟨?_, ?_⟩
  · cases hc : (trimAscii text).head? with
    | none => rfl
    | some c => rw [Option.all_some, hfirst c hc, Bool.not_false]
  · cases hc : (trimAscii text).getLast? with
    | none => rfl
    | some c => rw [Option.all_some, hlast c hc, Bool.not_false]

end Trimmed

/-! ## Redirects -/

section Redirects

variable {raw location out : Bytes} {k : Nat} {base : ParsedUrl}

/-- **What comes of the reference**, where the origin fits. -/
theorem ReadFrom.outcome (h : ReadFrom raw k base) (hne : location ≠ []) (hhash : (35 : UInt8) ∉ location)
    (hfits : base.origin.length ≤ out.length) : ∃ out', appendOrigin base out = some (out', base.origin.length) ∧
      (resolveReference base.origin.length base.path location out' = do
        let (joined, len) ← joinReference base.origin.length base.path location out'
        normalizeJoinedApart joined len) ∧
      Outcome out.length (transform (parse base.text) (parse location))
        (resolveReference base.origin.length base.path location out') := by
  obtain ⟨out', hok, htake, hlength⟩ := (appendOrigin_appends base out).fits hfits
  have hspec := @resolveReference_spec out' _ _ _ _ _ _ h.split rfl rfl (by rw [htake, origin_eq]) (by rw [hlength]; exact hfits)
    (Uri.splitQuery_spec h.path_plain) hne hhash
  rw [hlength, ← h.parse_text] at hspec
  exact ⟨out', hok, hspec⟩

/-- The answer to what was resolved. -/
def answer : Web (Bytes × Nat) → Access RedirectResult
  | .error (.fail .tooLong) => .ok .outputTooSmall
  | .error (.fail .invalidUrl) => .ok (.invalid .missingHost)
  | .error .bounds => .error .bounds
  | .error .overflow => .error .overflow
  | .ok (out, len) =>
    match parseUrl (out.take len) with
    | .value _ => .ok (.url (out.take len))
    | .failure e => .ok (.invalid e)

theorem ReadFrom.answer {loc : Bytes} (out : Bytes) (h : ReadFrom raw k base) (hloc : trimAscii loc = location) (hne : location ≠ [])
    (hhash : (35 : UInt8) ∉ location) :
    (appendOrigin base out = none → resolveRedirect base loc out = .ok .outputTooSmall) ∧
    ∀ out' pos, appendOrigin base out = some (out', pos) →
      resolveRedirect base loc out = Http.answer (resolveReference pos base.path location out') := by
  have hnone : ¬ (indexOfByte location 35).isSome = true := by
    rw [indexOfByte, List.isSome_idxOf?]
    exact hhash
  unfold resolveRedirect
  simp only
  rw [hloc, if_neg (fun hzero => hne (List.length_eq_zero_iff.1 hzero)), if_neg hnone, h.target, Bool.not_true,
    if_neg Bool.false_ne_true]
  refine ⟨fun hfull => by rw [hfull], fun out' pos hok => ?_⟩
  rw [hok]
  simp only
  cases resolveReference pos base.path location out' with
  | ok done => rfl
  | error e =>
    cases e with
    | fail e => cases e <;> rfl
    | bounds => rfl
    | overflow => rfl

/-- The components of a text that was given, and how it was read. -/
structure Given (base : ParsedUrl) (location u : Bytes) (v : ParsedUrl) (r : Reference) (s a : Bytes) : Prop where
  transformed : r = transform (parse base.text) (parse location)
  split : r.Split
  scheme : r.scheme = some s
  authority : r.authority = some a
  host : WebUrl.hostOf a ≠ []
  text : u = recompose { r with path := normalPath r.path }
  accepted : parseUrl u = .value v

/-- **Every answer**, and the text where one does not fit. -/
theorem ReadFrom.redirect {loc : Bytes} (out : Bytes) (h : ReadFrom raw k base) (hloc : trimAscii loc = location) (hne : location ≠ [])
    (hhash : (35 : UInt8) ∉ location) : ∃ result, resolveRedirect base loc out = .ok result ∧
      (result = .outputTooSmall → ∃ text ∈ [base.origin, recompose (transform (parse base.text) (parse location)),
        Uri.target (parse base.text) (parse location)], out.length < text.length) ∧
      ∀ u, result = .url u → ∃ v r s a, Given base location u v r s a := by
  obtain ⟨hnone, hsome⟩ := h.answer out hloc hne hhash
  by_cases hfits : base.origin.length ≤ out.length
  · obtain ⟨out', hok, -, houtcome⟩ := h.outcome hne hhash hfits
    rw [hsome out' _ hok]
    rcases houtcome with ⟨hlong, hr⟩ | ⟨-, hr⟩ | ⟨s, a, hsplit, hs, ha, hhost, -, hr⟩
    · rw [hr]
      exact ⟨_, rfl, fun _ => ⟨_, by simp, hlong⟩, nofun⟩
    · rw [hr]
      exact ⟨_, rfl, nofun, nofun⟩
    · by_cases hroom : (Uri.target (parse base.text) (parse location)).length ≤ out.length
      · obtain ⟨done, hdone, htake, -⟩ := hr.fits hroom
        rw [hdone, Http.answer, htake]
        cases hparse : parseUrl (recompose { transform (parse base.text) (parse location) with
            path := normalPath (transform (parse base.text) (parse location)).path }) with
        | value v =>
          refine ⟨_, rfl, nofun, fun u hu => ?_⟩
          cases hu
          exact ⟨v, _, s, a, rfl, hsplit, hs, ha, hhost, rfl, hparse⟩
        | failure e => exact ⟨_, rfl, nofun, nofun⟩
      · rw [hr.long (Nat.lt_of_not_le hroom)]
        exact ⟨_, rfl, fun _ => ⟨_, by simp, Nat.lt_of_not_le hroom⟩, nofun⟩
  · rw [hnone ((appendOrigin_appends base out).long (Nat.lt_of_not_le hfits))]
    exact ⟨_, rfl, fun _ => ⟨_, by simp, Nat.lt_of_not_le hfits⟩, nofun⟩

variable {u s a : Bytes} {v : ParsedUrl} {r : Reference}

theorem trimmed_iff {l : Bytes} : trimmed l = true ↔ (∀ c ∈ l.head?, isBlank c = false) ∧
    ∀ c ∈ l.getLast?, isBlank c = false := by
  rw [trimmed, Bool.and_eq_true]
  cases l.head? <;> cases l.getLast? <;> simp

theorem Given.text_eq (h : Given base location u v r s a) :
    u = s ++ 58 :: 47 :: 47 :: (a ++ (normalPath r.path ++ queryText r.query)) := by
  rw [h.text]
  exact Uri.recompose_eq h.scheme h.authority

theorem Given.scheme_eq (hread : ReadFrom raw k base) (h : Given base location u v r s a) :
    ((parse location).scheme = none ∧ s = base.scheme.text ∧
    r.authority = some ((parse location).authority.getD base.authority)) ∨
    ((parse location).scheme = some s ∧ r = parse location) := by
  have hs := h.scheme
  rw [h.transformed] at hs ⊢
  cases hscheme : (parse location).scheme with
  | none =>
    rw [hread.parse_text] at hs ⊢
    obtain ⟨-, hbase, howner⟩ := Uri.transform_split hread.split rfl rfl (Uri.parse_split location) hscheme
    rw [hbase, Option.some.injEq] at hs
    exact .inl ⟨rfl, hs.symm, howner⟩
  | some t =>
    have htransform : transform (parse base.text) (parse location) = parse location := by rw [transform, hscheme]
    rw [htransform, hscheme] at hs
    rw [htransform]
    exact .inr ⟨hs, rfl⟩

theorem Given.trimmed (hread : ReadFrom raw k base) (h : Given base location u v r s a) (hlocation : trimmed location = true)
    (hne : location ≠ []) (hhash : (35 : UInt8) ∉ location) : trimAscii u = u := by
  obtain ⟨hfirst, hlast⟩ := trimmed_iff.1 hlocation
  refine trim_of_trimmed (trimmed_iff.2 ⟨?_, ?_⟩)
  · have hsne := (h.split.scheme s h.scheme).1
    have hhead : u.head? = s.head? := by
      rw [h.text_eq, List.head?_append_of_ne_nil _ hsne]
    rw [hhead]
    rcases h.scheme_eq hread with ⟨-, hs, -⟩ | ⟨hs, hr⟩
    · rw [hs]
      cases base.scheme <;> exact fun c hc => by cases hc; rfl
    · have hlocation' : location.head? = s.head? := by
        have hwhole := Uri.recompose_parse hhash
        rw [← hr, Uri.recompose_eq h.scheme h.authority] at hwhole
        rw [← hwhole, List.head?_append_of_ne_nil _ hsne]
      rw [← hlocation']
      exact hfirst
  · have hjoined : (recompose r).getLast? = location.getLast? := by
      obtain ⟨front, hfront⟩ := Uri.suffix_transform (parse base.text) hne hhash
      rw [h.transformed, ← hfront, List.getLast?_append_of_ne_nil _ hne]
    obtain ⟨hnormal, -, -, hends⟩ := Uri.normalPath_spec (h.split.authority a h.authority).2
    rw [Uri.recompose_eq h.scheme h.authority] at hjoined
    rw [h.text_eq]
    have hbehind : ∀ (tail : Bytes), tail ≠ [] → (s ++ 58 :: 47 :: 47 :: (a ++ tail)).getLast? = tail.getLast? := by
      intro tail htail
      have hsplit : s ++ 58 :: 47 :: 47 :: (a ++ tail) = s ++ [58, 47, 47] ++ a ++ tail := by simp
      rw [hsplit, List.getLast?_append_of_ne_nil _ htail]
    cases hquery : r.query with
    | some q =>
      have hmark : queryText (some q) ≠ [] := List.cons_ne_nil _ _
      rw [hquery, hbehind _ (List.append_ne_nil_of_right_ne_nil _ hmark), List.getLast?_append_of_ne_nil _ hmark] at hjoined
      rw [hbehind _ (List.append_ne_nil_of_right_ne_nil _ hmark), List.getLast?_append_of_ne_nil _ hmark, hjoined]
      exact hlast
    | none =>
      rw [queryText, List.append_nil, hbehind _ hnormal]
      rcases hends with hslash | ⟨hpath, heq⟩
      · rw [hslash]
        exact fun c hc => by cases hc; rfl
      · rw [hquery, queryText, List.append_nil, hbehind _ hpath] at hjoined
        rw [heq, hjoined]
        exact hlast

/-- **What the text `u` is for a location**: the target, accepted again, without dot segments, and its own target; it stays on the
origin unless the location names another. -/
structure Leads (base : ParsedUrl) (location u : Bytes) (v : ParsedUrl) : Prop where
  target : u = Uri.target (parse base.text) (parse location)
  accepted : parseUrl u = .value v
  segments : ∀ segment ∈ (v.path.takeWhile (· != 63)).splitOn 47, segment ≠ ascii "." ∧ segment ≠ ascii ".."
  again : ∀ out, u.length ≤ out.length → resolveRedirect v u out = .ok (.url u)
  origin : (parse location).scheme = none → ¬ startsWith location (ascii "//") = true →
    v.scheme = base.scheme ∧ v.host = base.host ∧ v.port = base.port

theorem no_authority (hscheme : (parse location).scheme = none) (h : ¬ startsWith location (ascii "//") = true) :
    (parse location).authority = none := by
  rcases Uri.splitScheme_spec location with ⟨t, rest, hsplit, -⟩ | hsplit
  · rw [Uri.parse_eq hsplit rfl] at hscheme
    cases hscheme
  · rcases Uri.splitAuthority_spec location with ⟨b, rest, -, hlocation, -⟩ | hauthority
    · refine absurd (startsWith_iff.2 ?_) h
      rw [hlocation]
      exact List.prefix_append (ascii "//") _
    · rw [Uri.parse_eq hsplit hauthority]

theorem Given.leads (hread : ReadFrom raw k base) (h : Given base location u v r s a)
    (hlocation : R4.trimmed location = true)
    (hne : location ≠ []) (hhash : (35 : UInt8) ∉ location) : Leads base location u v := by
  obtain ⟨-, hrooted⟩ := h.split.authority a h.authority
  obtain ⟨hnormal, hidem, hsegments, -⟩ := Uri.normalPath_spec hrooted
  have hsplit := Uri.normal_split h.split h.authority
  have htrim := h.trimmed hread hlocation hne hhash
  obtain ⟨k', hread'⟩ := parseUrl_value h.accepted
  rw [htrim] at hread'
  have hcomponents := hread'
  rw [h.text] at hcomponents
  obtain ⟨hscheme, hauthority, hpath⟩ := hcomponents.components hsplit h.scheme h.authority hnormal
  refine ⟨?_, h.accepted, ?_, fun out hout => ?_, fun hnone hslashes => ?_⟩
  · rw [h.text, h.transformed]
    rfl
  · have hfront : v.path.takeWhile (· != 63) = normalPath r.path := by
      have hplain : ∀ c ∈ normalPath r.path, (c == 63) = false := fun c hc => (Bool.or_eq_false_iff.1 (hsplit.path c hc)).1
      rw [hpath]
      exact (Uri.split_front hplain fun c hc => by rw [Uri.head_queryText _ c hc]; rfl).1
    rw [hfront]
    exact hsegments
  · -- the text is absolute, and its path is normal
    have hune : u ≠ [] := by
      rw [h.text_eq]
      exact List.append_ne_nil_of_right_ne_nil _ (List.cons_ne_nil _ _)
    have horigin : v.origin.length ≤ u.length := by
      refine (hread'.origin_le hscheme hauthority).trans ?_
      rw [h.text_eq]
      simp only [List.length_append, List.length_cons]
      omega
    obtain ⟨out', hok, -, houtcome⟩ := hread'.outcome hune hread'.plain (horigin.trans hout)
    have hparse : parse u = { r with path := normalPath r.path } := by
      rw [h.text]
      exact Uri.parse_recompose hsplit h.scheme h.authority
    have htransform : transform (parse v.text) (parse u) = { r with path := normalPath r.path } := by
      rw [hparse, transform, h.scheme]
    rw [htransform] at houtcome
    rw [(hread'.answer out htrim hune hread'.plain).2 out' _ hok]
    rcases houtcome with ⟨hlong, -⟩ | ⟨hhostless, -⟩ | ⟨-, -, -, -, -, -, -, hr⟩
    · rw [← h.text] at hlong
      exact absurd hlong (Nat.not_lt.2 hout)
    · exact absurd (hhostless s a h.scheme h.authority) h.host
    · simp only [hidem] at hr
      rw [← h.text] at hr
      obtain ⟨done, hdone, htake, -⟩ := hr.fits hout
      rw [hdone, Http.answer, htake, h.accepted]
  · rcases h.scheme_eq hread with ⟨-, hs, howner⟩ | ⟨hs, -⟩
    · rw [no_authority hnone hslashes, h.authority, Option.getD_none, Option.some.injEq] at howner
      have hbase : parseScheme base.scheme.text = some base.scheme := by cases base.scheme <;> rfl
      rw [hs, hbase, Option.some.injEq] at hscheme
      rw [howner, ← hscheme, hread.again] at hauthority
      simp only [Except.ok.injEq, Prod.mk.injEq] at hauthority
      exact ⟨hscheme.symm, hauthority.1.symm, hauthority.2.1.symm⟩
    · rw [hnone] at hs
      cases hs

/-- **A redirect leads to its target and stays on the origin.**  The path is normalised in place, and no byte is read after it was
overwritten: the pieces could as well be read from the joined text as it was. -/
theorem resolveRedirect_leads (raw locationInput out : Bytes) (base : ParsedUrl) (h : parseUrl raw = .value base) :
    (∃ result, resolveRedirect base locationInput out = .ok result ∧
      (result = .outputTooSmall → ∃ text ∈ [base.origin,
        recompose (transform (parse base.text) (parse (trimAscii locationInput))),
        Uri.target (parse base.text) (parse (trimAscii locationInput))], out.length < text.length) ∧
      ∀ u, result = .url u → ∃ v, Leads base (trimAscii locationInput) u v) ∧
    (trimAscii locationInput ≠ [] → (35 : UInt8) ∉ trimAscii locationInput →
        ∀ out' pos, appendOrigin base out = some (out', pos) →
      resolveReference pos base.path (trimAscii locationInput) out' = do
        let (joined, len) ← joinReference pos base.path (trimAscii locationInput) out'
        normalizeJoinedApart joined len) := by
  obtain ⟨k, hread⟩ := parseUrl_value h
  refine ⟨?_, fun hne hplain out' pos horigin => ?_⟩
  · have htrimmed := trimmed_trimAscii locationInput
    by_cases hempty : (trimAscii locationInput).length = 0
    · refine ⟨.invalid .missingHost, ?_, nofun, nofun⟩
      unfold resolveRedirect
      exact if_pos hempty
    by_cases hhash : (indexOfByte (trimAscii locationInput) 35).isSome = true
    · refine ⟨.invalid .fragmentForbidden, ?_, nofun, nofun⟩
      unfold resolveRedirect
      simp only
      rw [if_neg hempty, if_pos hhash]
    have hne : trimAscii locationInput ≠ [] := fun hnil => hempty (List.length_eq_zero_iff.2 hnil)
    have hplain : (35 : UInt8) ∉ trimAscii locationInput := by
      rw [indexOfByte, List.isSome_idxOf?] at hhash
      exact hhash
    obtain ⟨result, hok, hsmall, hurl⟩ := hread.redirect out rfl hne hplain
    refine ⟨result, hok, hsmall, fun u hu => ?_⟩
    obtain ⟨v, r, s, a, hgiven⟩ := hurl u hu
    exact ⟨v, hgiven.leads hread htrimmed hne hplain⟩
  · have hfits : base.origin.length ≤ out.length := by
      by_contra hfull
      rw [(appendOrigin_appends base out).long (Nat.lt_of_not_le hfull)] at horigin
      cases horigin
    obtain ⟨out'', hok, hapart, -⟩ := hread.outcome hne hplain hfits
    rw [hok, Option.some.injEq, Prod.mk.injEq] at horigin
    rw [← horigin.1, ← horigin.2]
    exact hapart

theorem resolveRedirect_leads_up : ∃ base, parseUrl (ascii "https://a.b/x/y?q") = .value base ∧
    resolveRedirect base (ascii "../c/./d?e") (List.replicate 40 0) = .ok (.url (ascii "https://a.b/c/d?e")) ∧
    ∃ v, Leads base (trimAscii (ascii "../c/./d?e")) (ascii "https://a.b/c/d?e") v := by
  have hbase : parseUrl (ascii "https://a.b/x/y?q") = .value ⟨.https, ascii "a.b", 443, ascii "/x/y?q", false, false⟩ :=
      by decide
  have hurl : resolveRedirect ⟨.https, ascii "a.b", 443, ascii "/x/y?q", false, false⟩ (ascii "../c/./d?e")
      (List.replicate 40 0) =
      .ok (.url (ascii "https://a.b/c/d?e")) := by decide
  obtain ⟨⟨result, hok, -, hleads⟩, -⟩ := resolveRedirect_leads _ (ascii "../c/./d?e") (List.replicate 40 0) _ hbase
  refine ⟨_, hbase, hurl, hleads _ ?_⟩
  rw [hurl] at hok
  exact (Except.ok.inj hok).symm

end Redirects

end Http
end R4
