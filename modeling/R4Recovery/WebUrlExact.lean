import R4Recovery.WebUrlPath
import R4Recovery.UriText
/-!
# WebUrlExact — what is resolved is the target

The reference is joined with the base, the parts of the joined text are found, and its path is normalised.
-/
namespace R4
namespace WebUrl

open Http (indexOfByte lastIndexOfByte startsWith_iff)
open Moves (copyForwards copyBackwards copyForwards_eq copyBackwards_eq writeAt)
open Uri (Reference parse recompose transform normalPath removeDotSegments queryText endsAuthority endsPath isDelimiter Follows
  split_front head_rest head_queryText recompose_eq)

/-! ## Searches -/

section Searches

variable {p : UInt8 → Bool} {front rest text : Bytes} {c b : UInt8} {n : Nat}

theorem findIdx?_front (hfront : ∀ c ∈ front, p c = false) (hc : p c = true) :
    (front ++ c :: rest).findIdx? p = some front.length := by
  rw [List.findIdx?_append, List.findIdx?_eq_none_iff.2 hfront, List.findIdx?_cons, if_pos hc]
  simp

theorem indexOfByte_front (h : b ∉ front) : indexOfByte (front ++ b :: rest) b = some front.length :=
  findIdx?_front (fun _ hc => beq_false_of_ne fun he => h (he ▸ hc)) (beq_self_eq_true b)

theorem indexOfByte_none (h : b ∉ text) : indexOfByte text b = none :=
  List.findIdx?_eq_none_iff.2 fun _ hc => beq_false_of_ne fun he => h (he ▸ hc)

theorem indexFrom_front {middle : Bytes} (hn : front.length = n) (hmiddle : ∀ c ∈ middle, p c = false)
    (hrest : ∀ c ∈ rest.head?, p c = true) :
    (indexFrom (front ++ (middle ++ rest)) n p).getD (front ++ (middle ++ rest)).length = n + middle.length := by
  rw [indexFrom_getD (by rw [List.length_append, hn]; exact Nat.le_add_right _ _), ← hn, List.drop_left,
    (split_front hmiddle hrest).1]

theorem directory_eq (text : Bytes) : (text.reverse.dropWhile (· != 47)).reverse =
    text.take (match lastIndexOfByte text 47 with
      | some i => i + 1
      | none => 0) := by
  induction text using List.reverseRecOn with
  | nil => rfl
  | append_singleton text c ih =>
    rw [lastIndexOfByte_snoc, List.reverse_append, List.reverse_singleton, List.singleton_append]
    by_cases hc : c = 47
    · rw [if_pos hc, hc]
      simp
    · have hle : (match lastIndexOfByte text 47 with
          | some i => i + 1
          | none => 0) ≤ text.length := by
        cases hlast : lastIndexOfByte text 47 with
        | none => exact Nat.zero_le _
        | some i => exact List.mem_range.1 (List.mem_reverse.1 (List.mem_of_find?_eq_some hlast))
      rw [if_neg hc, List.dropWhile_cons, if_pos (show (c != 47) = true from bne_iff_ne.2 hc), ih,
        List.take_append_of_le_length hle]

end Searches

/-! ## Parts -/

section Parts

variable {r : Reference} {s a : Bytes}

/-- The host of an authority, its port with it. -/
def hostOf (authority : Bytes) : Bytes :=
  match lastIndexOfByte authority 64 with
  | some index => authority.drop (index + 1)
  | none => authority

theorem no_hash (h : r.Split) : (35 : UInt8) ∉ r.path ++ queryText r.query := by
  intro hmem
  rcases List.mem_append.1 hmem with hmem | hmem
  · exact absurd (h.path 35 hmem) (by decide)
  · cases hq : r.query with
    | none =>
      rw [hq] at hmem
      exact absurd hmem List.not_mem_nil
    | some q =>
      rw [hq] at hmem
      rcases List.mem_cons.1 hmem with hmem | hmem
      · exact absurd hmem (by decide)
      · exact h.query q hq hmem

/-- **The parts stand where the components do.** -/
theorem parts_text (h : r.Split) (hs : r.scheme = some s) (ha : r.authority = some a) : parts (recompose r) = .ok {
    host := hostOf a
    pathStart := s.length + 3 + a.length
    pathEnd := s.length + 3 + a.length + r.path.length } := by
  have hhash := no_hash h
  have hcolon : (58 : UInt8) ∉ s := fun hmem => absurd ((h.scheme s hs).2 58 hmem) (by decide)
  obtain ⟨hauthority, hrooted⟩ := h.authority a ha
  generalize hrest : r.path ++ queryText r.query = rest at hhash
  have htext : recompose r = s ++ 58 :: 47 :: 47 :: (a ++ rest) := by rw [recompose_eq hs ha, hrest]
  have hslashes : recompose r = s ++ [58] ++ [47, 47] ++ (a ++ rest) := by rw [htext]; simp
  have howner : recompose r = s ++ [58, 47, 47] ++ (a ++ rest) := by rw [htext]; simp
  have hbehind : recompose r = s ++ [58, 47, 47] ++ a ++ rest := by rw [howner, List.append_assoc _ a]
  have hstart : (s ++ [58, 47, 47]).length = s.length + 3 := by simp
  have hend : (s ++ [58, 47, 47] ++ a).length = s.length + 3 + a.length := by rw [List.length_append, hstart]
  have hfirst : indexOfByte (recompose r) 58 = some s.length := htext ▸ indexOfByte_front hcolon
  have hnetwork : slice (recompose r) (s.length + 1) 2 = [47, 47] := hslashes ▸ slice_middle (by simp) rfl
  have hstop : (indexFrom (recompose r) (s.length + 1 + 2)
      (fun c => c == 47 || c == 63 || c == 35)).getD (recompose r).length =
      s.length + 3 + a.length := by
    rw [howner]
    exact indexFrom_front hstart hauthority (hrest ▸ head_rest hrooted r.query)
  have howned : slice (recompose r) (s.length + 3) a.length = a := hbehind ▸ slice_middle hstart rfl
  have hnone : (indexFrom (recompose r) (s.length + 3 + a.length) (· == 35)).getD (recompose r).length =
      (recompose r).length := by
    have hplain : ∀ c ∈ rest, (c == 35) = false := fun c hc => beq_false_of_ne fun he => hhash (he ▸ hc)
    have hfound := @indexFrom_front _ _ [] _ _ hend hplain nofun
    rw [List.append_nil, ← hbehind] at hfound
    rw [hfound, hbehind, List.length_append, hend]
  have hquery : (indexFrom (recompose r) (s.length + 3 + a.length) (· == 63)).getD (recompose r).length =
      s.length + 3 + a.length + r.path.length := by
    have hplain : ∀ c ∈ r.path, (c == 63) = false := fun c hc => (Bool.or_eq_false_iff.1 (h.path c hc)).1
    rw [hbehind, ← hrest]
    exact indexFrom_front hend hplain fun c hc => by rw [head_queryText _ c hc]; rfl
  have hlong : s.length + 3 + a.length + r.path.length ≤ (recompose r).length := by
    rw [hbehind, List.length_append, hend, ← hrest, List.length_append]
    omega
  unfold parts
  rw [hfirst]
  simp only
  rw [if_pos hnetwork, if_pos hnetwork, hstop, Nat.add_sub_cancel_left, howned, hnone, List.take_length, hquery,
    Nat.min_eq_left hlong]
  rfl

theorem parts_alone {text : Bytes} (hs : (parse text).scheme = some s) (ha : (parse text).authority = none) :
    ∃ q, parts text = .ok q ∧ q.host = [] := by
  rcases Uri.splitScheme_spec text with ⟨t, rest, hscheme, htext, -, hplain⟩ | hscheme
  · have hcolon : (58 : UInt8) ∉ t := fun hmem => absurd (hplain 58 hmem) (by decide)
    have hfirst : indexOfByte text 58 = some t.length := htext ▸ indexOfByte_front hcolon
    have hrest : slice text (t.length + 1) 2 = rest.take 2 := by
      have hbehind : text = (t ++ [58]) ++ rest := by rw [htext]; simp
      have hlen : t.length + 1 = (t ++ [58]).length := by simp
      rw [hbehind, slice, hlen, List.drop_left]
    have hnetwork : ¬ slice text (t.length + 1) 2 = [47, 47] := by
      rw [hrest]
      intro htake
      have howned : (Uri.splitAuthority rest).1 ≠ none := by
        rw [← List.take_append_drop 2 rest, htake]
        exact Option.some_ne_none _
      rw [Uri.parse_eq hscheme rfl] at ha
      exact howned ha
    unfold parts
    rw [hfirst]
    simp only
    rw [if_neg hnetwork, if_neg hnetwork, Nat.sub_self]
    exact ⟨_, rfl, rfl⟩
  · rw [Uri.parse_eq hscheme rfl] at hs
    cases hs

end Parts

/-! ## Joining -/

/-- **The buffer of `n` bytes starts with `text`**; where that does not fit, it is too long. -/
structure Writes (n : Nat) (text : Bytes) (r : Web (Bytes × Nat)) : Prop where
  fits : text.length ≤ n → ∃ out, r = .ok (out, text.length) ∧ out.take text.length = text ∧ out.length = n
  long : n < text.length → r = .error (.fail .tooLong)

section Joining

variable {n originLen : Nat} {text v out suffix reference s a : Bytes} {r : Web (Bytes × Nat)} {base : Reference}

theorem take_put_end {b v : Bytes} {off : Nat} (h : off + v.length ≤ b.length) :
    (put b off v).take (off + v.length) = b.take off ++ v :=
  @slice_put_end 0 b v off (Nat.zero_le off) h

theorem Writes.append (h : Writes n text r) (v : Bytes) : Writes n (text ++ v) (do
    let (out, len) ← r
    appendSlice out len v) := by
  refine ⟨fun hfits => ?_, fun hlong => ?_⟩
  · rw [List.length_append] at hfits
    obtain ⟨out, hok, htake, hlen⟩ := h.fits (by omega)
    have hroom : text.length + v.length ≤ out.length := by omega
    have hput := take_put_end hroom
    rw [htake] at hput
    refine ⟨put out text.length v, ?_, ?_, (length_put _ _ _).trans hlen⟩
    · rw [hok]
      simp only [bind, Except.bind]
      rw [appendSlice_ok hroom, List.length_append]
    · rw [List.length_append]
      exact hput
  · rw [List.length_append] at hlong
    by_cases hfits : text.length ≤ n
    · obtain ⟨out, hok, -, hlen⟩ := h.fits hfits
      rw [hok]
      simp only [bind, Except.bind]
      exact if_pos (by omega)
    · rw [h.long (Nat.lt_of_not_le hfits)]
      rfl

theorem writes_first (out v : Bytes) : Writes out.length v (appendSlice out 0 v) := by
  have hnil : Writes out.length [] (.ok (out, 0)) := ⟨fun _ => ⟨out, rfl, rfl, rfl⟩, fun h => absurd h (Nat.not_lt_zero _)⟩
  exact hnil.append v

theorem writes_own {count : Nat} (h : count ≤ out.length) : Writes out.length (out.take count) (appendOwn out 0 0 count)
    := by
  have hlen : (out.take count).length = count := by
    rw [List.length_take]
    omega
  refine ⟨fun _ => ⟨put out 0 (slice out 0 count), ?_, ?_, length_put _ _ _⟩, fun hlong => absurd hlong (by omega)⟩
  · rw [appendOwn_ok le_rfl (by omega), hlen, Nat.zero_add]
  · have hput := slice_put (b := out) (length_slice (b := out) (by omega : 0 + count ≤ out.length))
        (by omega : 0 + count ≤ out.length)
    rw [hlen]
    exact hput

/-- The first delimiter is a colon behind something. -/
def hasScheme (reference : Bytes) : Bool :=
  match reference.findIdx? isDelimiter with
  | some i => decide (i > 0) && reference[i]? == some 58
  | none => false

theorem hasScheme_iff (reference : Bytes) : hasScheme reference = (parse reference).scheme.isSome := by
  have hscheme : (parse reference).scheme = (Uri.splitScheme reference).1 := congrArg _ (Uri.parse_eq rfl rfl)
  have hplain : ∀ c ∈ reference.takeWhile (fun c => !isDelimiter c), isDelimiter c = false :=
      fun _ hc => Uri.takeWhile_plain hc
  have hhead : ∀ c ∈ (reference.dropWhile (fun c => !isDelimiter c)).head?, isDelimiter c = true :=
      fun _ hc => Uri.head_dropWhile hc
  rw [hscheme, Uri.splitScheme, hasScheme]
  have hsplit := List.takeWhile_append_dropWhile (p := fun c => !isDelimiter c) (l := reference)
  generalize reference.takeWhile (fun c => !isDelimiter c) = front at hplain hsplit
  generalize reference.dropWhile (fun c => !isDelimiter c) = rest at hhead hsplit
  cases rest with
  | nil =>
    rw [← hsplit, List.append_nil, List.findIdx?_eq_none_iff.2 hplain]
    rfl
  | cons c rest =>
    rw [← hsplit, findIdx?_front hplain (hhead c rfl)]
    simp only
    rw [List.getElem?_append_right (Nat.le_refl _), Nat.sub_self, List.getElem?_cons_zero]
    by_cases hc : c = 58
    · rw [hc]
      simp only
      by_cases hempty : front = []
      · rw [if_pos hempty, hempty]
        rfl
      · rw [if_neg hempty, decide_eq_true (List.length_pos_iff.2 hempty)]
        rfl
    · rw [show ((some c == some (58 : UInt8)) : Bool) = false from beq_false_of_ne fun h => hc (Option.some.inj h),
        Bool.and_false]
      split
      · rename_i heq
        exact absurd (List.cons.inj heq).1 hc
      · rfl

theorem base_query (h : base.Split) (hsuffix : suffix = base.path ++ queryText base.query) :
    (indexOfByte suffix 35).getD suffix.length = suffix.length ∧
    suffix.take ((indexOfByte (suffix.take ((indexOfByte suffix 35).getD suffix.length)) 63).getD
      ((indexOfByte suffix 35).getD suffix.length)) = base.path := by
  have hhash : (indexOfByte suffix 35).getD suffix.length = suffix.length := by
    rw [indexOfByte_none (hsuffix ▸ no_hash h)]
    rfl
  have hpath : (63 : UInt8) ∉ base.path := fun hmem => absurd (h.path 63 hmem) (by decide)
  refine ⟨hhash, ?_⟩
  rw [hhash, List.take_length, hsuffix]
  cases base.query with
  | none =>
    rw [queryText, List.append_nil, indexOfByte_none hpath]
    exact List.take_length
  | some q =>
    rw [queryText, indexOfByte_front hpath]
    exact List.take_left

/-- **The joined text is what the reference stands for.** -/
theorem joinReference_writes (hbase : base.Split) (hs : base.scheme = some s) (ha : base.authority = some a)
    (horigin : out.take originLen = s ++ 58 :: 47 :: 47 :: a) (hlen : originLen ≤ out.length)
    (hsuffix : suffix = base.path ++ queryText base.query) (hne : reference ≠ []) (hhash : (35 : UInt8) ∉ reference) :
    Writes out.length (recompose (transform base (parse reference))) (joinReference originLen suffix reference out) := by
  have hwhole := Uri.recompose_parse hhash
  obtain ⟨hall, hquery⟩ := base_query hbase hsuffix
  unfold joinReference
  simp only
  change Writes _ _ (if hasScheme reference = true then _ else _)
  rw [hasScheme_iff]
  by_cases habsolute : (parse reference).scheme.isSome = true
  · have htransform : transform base (parse reference) = parse reference := by
      obtain ⟨t, ht⟩ := Option.isSome_iff_exists.1 habsolute
      rw [transform, ht]
    rw [if_pos habsolute, htransform, hwhole]
    exact writes_first out reference
  have hnone : (parse reference).scheme = none := Option.not_isSome_iff_eq_none.1 habsolute
  have howner : (parse reference).authority = (Uri.splitAuthority reference).1 := by
    rcases Uri.splitScheme_spec reference with ⟨t, rest, hscheme, -⟩ | hscheme
    · rw [Uri.parse_eq hscheme rfl] at hnone
      cases hnone
    · exact congrArg Reference.authority (Uri.parse_eq hscheme rfl)
  have horiginLen : originLen = s.length + (a.length + 3) := by
    have hlength := congrArg List.length horigin
    rw [List.length_take, Nat.min_eq_left hlen, List.length_append] at hlength
    exact hlength
  rw [if_neg habsolute]
  have hplain := (Uri.parse_split reference).path
  generalize parse reference = r at *
  obtain ⟨scheme, authority, path, query⟩ := r
  obtain rfl : scheme = none := hnone
  simp only at howner hplain
  by_cases hnetwork : startsWith reference (ascii "//") = true
  · have hcolon : (58 : UInt8) ∉ s := fun hmem => absurd ((hbase.scheme s hs).2 58 hmem) (by decide)
    have hfront : out.take (s.length + 1) = s ++ [58] := by
      have htake : (out.take originLen).take (s.length + 1) = out.take (s.length + 1) := by
        rw [List.take_take, Nat.min_eq_left (by omega)]
      rw [← htake, horigin, List.take_append, List.take_of_length_le (Nat.le_succ _), Nat.add_sub_cancel_left]
      rfl
    obtain ⟨b, rfl⟩ : ∃ b, authority = some b := by
      rw [howner, startsWith_cases hnetwork]
      exact ⟨_, rfl⟩
    have htext : recompose (transform base ⟨none, some b, path, query⟩) = s ++ [58] ++ reference := by
      rw [← hwhole, transform, recompose, hs]
      simp [recompose]
    rw [if_pos hnetwork, horigin, indexOfByte_front hcolon, htext, ← hfront]
    exact (writes_own (by omega)).append reference
  rw [if_neg hnetwork]
  obtain rfl : authority = none := by
    rw [howner]
    rcases Uri.splitAuthority_spec reference with ⟨b, rest, -, hreference, -⟩ | hsplit
    · refine absurd (startsWith_iff.2 ?_) hnetwork
      rw [hreference]
      exact List.prefix_append (ascii "//") _
    · rw [hsplit]
  have howned := writes_own hlen
  rw [horigin] at howned
  have htarget : ∀ p q, recompose { base with path := p, query := q } = s ++ 58 :: 47 :: 47 :: a ++ (p ++ queryText q) := by
    intro p q
    have htext := @recompose_eq { base with path := p, query := q } s a hs ha
    simpa using htext
  have hreference : path ++ queryText query = reference := by
    rw [← hwhole, recompose]
    rfl
  have htransform : transform base ⟨none, none, path, query⟩ =
      if path = [] then { base with query := query.or base.query }
      else if path.head? = some 47 then { base with path := path, query := query }
      else { base with path := Uri.merge base path, query := query } := rfl
  have hsome : ¬ (reference.length = 0 ∨ reference.head? = some 35) := by
    rintro (hzero | hhash')
    · exact hne (List.length_eq_zero_iff.1 hzero)
    · exact hhash (List.mem_of_head? hhash')
  simp only [if_neg hsome]
  rw [htransform]
  by_cases hempty : path = []
  · -- a query alone
    obtain ⟨q, rfl⟩ : ∃ q, query = some q := by
      cases query with
      | none =>
        rw [hempty] at hreference
        exact absurd hreference.symm hne
      | some q => exact ⟨q, rfl⟩
    have hhead : reference.head? = some 63 := by
      rw [← hreference, hempty]
      rfl
    have htext : recompose { base with query := (some q).or base.query } = s ++ 58 :: 47 :: 47 ::
        a ++ base.path ++ reference := by
      rw [htarget, ← hreference, hempty, List.append_assoc (s ++ 58 :: 47 :: 47 :: a)]
      rfl
    simp only [if_pos hhead]
    rw [if_pos hempty, hquery, htext]
    exact bind_assoc (appendOwn out 0 0 originLen) _ _ ▸ (howned.append base.path).append reference
  have hhead : reference.head? = path.head? := by
    obtain ⟨c, rest, rfl⟩ := List.exists_cons_of_ne_nil hempty
    rw [← hreference]
    rfl
  have hmark : ¬ reference.head? = some 63 := by
    rw [hhead]
    exact fun h => absurd (hplain 63 (List.mem_of_head? h)) (by decide)
  simp only [if_neg hmark]
  rw [if_neg hempty]
  by_cases hroot : path.head? = some 47
  · have htext : recompose { base with path := path, query := query } = s ++ 58 :: 47 :: 47 :: a ++ reference := by
      rw [htarget, ← hreference]
    simp only [if_neg (not_not_intro (hhead.trans hroot))]
    rw [if_pos hroot, htext]
    exact howned.append reference
  · rw [if_neg hroot]
    have hroot' : reference.head? ≠ some 47 := hhead ▸ hroot
    have htext : recompose { base with path := Uri.merge base path, query := query } =
        s ++ 58 :: 47 :: 47 :: a ++ (if base.path = [] then [47] else (base.path.reverse.dropWhile (· != 47)).reverse)
        ++ reference := by
      rw [htarget, ← hreference, Uri.merge, ha]
      by_cases hbasePath : base.path = []
      · simp [hbasePath]
      · simp [hbasePath]
    simp only [if_pos hroot']
    rw [hquery, htext]
    by_cases hbasePath : base.path = []
    · rw [if_pos hbasePath, hbasePath]
      simp only [lastIndexOfByte_none List.not_mem_nil, if_true]
      exact bind_assoc (appendOwn out 0 0 originLen) _ _ ▸ (howned.append [47]).append reference
    · rw [if_neg hbasePath, directory_eq]
      cases hlast : lastIndexOfByte base.path 47 with
      | none =>
        obtain ⟨c, rest, hpath⟩ := List.exists_cons_of_ne_nil hbasePath
        have hfirst : base.path[0]? = some 47 := by
          rw [hpath, (hbase.authority a ha).2 c (by rw [hpath]; rfl)]
          rfl
        have hmem : 0 ∈ (List.range base.path.length).reverse :=
          List.mem_reverse.2 (List.mem_range.2 (List.length_pos_iff.2 hbasePath))
        exact absurd (beq_iff_eq.2 hfirst) (List.find?_eq_none.1 hlast 0 hmem)
      | some i =>
        have hle : i < base.path.length := List.mem_range.1 (List.mem_reverse.1 (List.mem_of_find?_eq_some hlast))
        have htake : suffix.take (i + 1) = base.path.take (i + 1) := by
          rw [hsuffix, List.take_append_of_le_length hle]
        simp only [Nat.succ_ne_zero, if_false]
        rw [htake]
        exact bind_assoc (appendOwn out 0 0 originLen) _ _ ▸ (howned.append (base.path.take (i + 1))).append reference

end Joining

/-! ## Normalising -/

/-- `resolveReference` behind the joined text. -/
def normalizeJoined (out : Bytes) (len : Nat) : Web (Bytes × Nat) := do
  let parsed ← parts (out.take len)
  if parsed.host.length = 0 then .error (.fail .invalidUrl)
  else if parsed.pathStart = parsed.pathEnd then
    if len = out.length then .error (.fail .tooLong)
    else do
      let out ← copyBackwards out (parsed.pathStart + 1) parsed.pathStart (len - parsed.pathStart)
      let out ← writeAt out parsed.pathStart 47
      .ok (out, len + 1)
  else do
    let (out, normalizedEnd) ← appendNormalizedPath out parsed.pathStart parsed.pathStart (parsed.pathEnd - parsed.pathStart)
    let out ← copyForwards out normalizedEnd parsed.pathEnd (len - parsed.pathEnd)
    .ok (out, normalizedEnd + (len - parsed.pathEnd))

/-- The same, where every piece is read from the joined text as it was. -/
def normalizeJoinedApart (joined : Bytes) (len : Nat) : Web (Bytes × Nat) := do
  let parsed ← parts (joined.take len)
  if parsed.host.length = 0 then .error (.fail .invalidUrl)
  else if parsed.pathStart = parsed.pathEnd then
    if len = joined.length then .error (.fail .tooLong)
    else
      let suffix := slice joined parsed.pathStart (len - parsed.pathStart)
      .ok (put joined parsed.pathStart (47 :: suffix), len + 1)
  else do
    let path := slice joined parsed.pathStart (parsed.pathEnd - parsed.pathStart)
    let suffix := slice joined parsed.pathEnd (len - parsed.pathEnd)
    let (out, normalizedEnd) ← normalizeApart path parsed.pathStart (path.length + 1) joined parsed.pathStart 0
    .ok (put out normalizedEnd suffix, normalizedEnd + suffix.length)

section Normalising

variable {out s a : Bytes} {t : Reference} {originLen : Nat} {suffix reference : Bytes}

theorem resolveReference_eq (originLen : Nat) (suffix reference out : Bytes) :
    resolveReference originLen suffix reference out = (do
      let (out, len) ← joinReference originLen suffix reference out
      normalizeJoined out len) := rfl

theorem put_moved {b v : Bytes} {off : Nat} {c : UInt8} (h : off < b.length) :
    (put b (off + 1) v).set off c = put b off (c :: v) := by
  rw [← Moves.put_cons h]
  refine List.ext_getElem? fun i => ?_
  by_cases hi : i = off
  · rw [hi, List.getElem?_set_self (by rw [length_put]; exact h), getElem?_put_off (.inl (Nat.lt_succ_self _)),
      List.getElem?_set_self h]
  · rw [List.getElem?_set_ne (Ne.symm hi), getElem?_put, getElem?_put, List.getElem?_set_ne (Ne.symm hi)]

/-- **The joined text with its path normalised**, and no byte was read after it was overwritten. -/
theorem normalizeJoined_spec (h : t.Split) (hs : t.scheme = some s) (ha : t.authority = some a)
    (hout : out.take (recompose t).length = recompose t) :
    normalizeJoined out (recompose t).length = normalizeJoinedApart out (recompose t).length ∧
    if hostOf a = [] then normalizeJoined out (recompose t).length = .error (.fail .invalidUrl)
    else Writes out.length (recompose { t with path := normalPath t.path }) (normalizeJoined out (recompose t).length) := by
  have hfits : (recompose t).length ≤ out.length := by
    have hlength := congrArg List.length hout
    rw [List.length_take] at hlength
    omega
  have hparts := parts_text h hs ha
  have htext : recompose t = s ++ 58 :: 47 :: 47 :: a ++ t.path ++ queryText t.query := by
    rw [recompose_eq hs ha]
    simp
  have hnormal : recompose { t with path := normalPath t.path } =
      s ++ 58 :: 47 :: 47 :: a ++ normalPath t.path ++ queryText t.query := by
    have heq := recompose_eq (r := { t with path := normalPath t.path }) hs ha
    simpa using heq
  generalize recompose { t with path := normalPath t.path } = u at hnormal ⊢
  have hstart : (s ++ 58 :: 47 :: 47 :: a).length = s.length + 3 + a.length := by
    rw [List.length_append, List.length_cons, List.length_cons, List.length_cons]
    omega
  generalize s ++ 58 :: 47 :: 47 :: a = front at *
  generalize s.length + 3 + a.length = path at *
  generalize queryText t.query = query at *
  have hlength : (recompose t).length = path + t.path.length + query.length := by
    rw [htext, List.length_append, List.length_append, hstart]
  have hprefix : recompose t <+: out := hout ▸ List.take_prefix _ _
  have hfront : out.take path = front := by
    have hslice : slice out 0 path = slice (recompose t) 0 path := Http.slice_extend hprefix (by omega)
    have htake : slice (recompose t) 0 path = front := by
      rw [htext, List.append_assoc]
      exact slice_middle (a := []) rfl hstart
    exact hslice.trans htake
  have hmiddle : slice out path t.path.length = t.path := by
    rw [Http.slice_extend hprefix (by omega), htext]
    exact slice_middle hstart rfl
  have hlast : slice out (path + t.path.length) query.length = query := by
    have hall := slice_middle (a := front ++ t.path) (b := query) (c := [])
      (show (front ++ t.path).length = path + t.path.length by rw [List.length_append, hstart]) rfl
    rw [List.append_nil] at hall
    rw [Http.slice_extend hprefix (by omega), htext]
    exact hall
  unfold normalizeJoined normalizeJoinedApart
  rw [hout, hparts]
  simp only [bind, Except.bind]
  by_cases hhost : hostOf a = []
  · rw [if_pos hhost, if_pos (List.length_eq_zero_iff.2 hhost), if_pos (List.length_eq_zero_iff.2 hhost)]
    exact ⟨rfl, rfl⟩
  have hhost' : ¬ (hostOf a).length = 0 := fun hzero => hhost (List.length_eq_zero_iff.1 hzero)
  rw [if_neg hhost, if_neg hhost', if_neg hhost']
  by_cases hempty : t.path = []
  · -- an empty path: a slash is put in front of the query
    rw [hempty, List.length_nil, Nat.add_zero] at hlength hlast
    rw [hempty, List.length_nil, Nat.add_zero, if_pos rfl, if_pos rfl]
    have hlong : u.length = (recompose t).length + 1 := by
      rw [hnormal, hempty, normalPath, if_pos rfl, List.length_append, List.length_append, hstart, hlength,
        List.length_singleton]
      omega
    by_cases hfull : (recompose t).length = out.length
    · rw [if_pos hfull, if_pos hfull]
      exact ⟨rfl, fun hfits' => absurd hfits' (by omega), fun _ => rfl⟩
    · have hroom : path + 1 + query.length ≤ out.length := by omega
      have hquery : (recompose t).length - path = query.length := by omega
      rw [if_neg hfull, if_neg hfull, hquery, copyBackwards_eq (Nat.le_succ path) hroom, hlast]
      simp only
      rw [Moves.writeAt_ok (show path < (put out (path + 1) query).length by rw [length_put]; omega)]
      simp only
      rw [put_moved (show path < out.length by omega)]
      refine ⟨rfl, fun _ => ⟨_, by rw [hlong], ?_, length_put _ _ _⟩, fun hlong' => absurd hlong' (by omega)⟩
      have hput := @take_put_end out (47 :: query) path
          (show path + (query.length + 1) ≤ out.length by omega)
      rw [show u.length = path + (47 :: query).length by
        rw [hlong, hlength, List.length_cons, Nat.add_assoc], hput, hfront, hnormal, hempty, normalPath, if_pos rfl,
        List.append_assoc]
      rfl
  · have hpos : 0 < t.path.length := List.length_pos_iff.2 hempty
    have hne : ¬ path = path + t.path.length := by omega
    have hquery : (recompose t).length - (path + t.path.length) = query.length := by omega
    rw [if_neg hne, if_neg hne, Nat.add_sub_cancel_left, hquery, hlast, hmiddle]
    have hpath : appendNormalizedPath out path path t.path.length =
        normalizeFrom path path t.path.length (t.path.length + 1) out path 0 :=
      if_neg (Nat.ne_of_gt hpos)
    have hapart := @normalizeFrom_apart path path t.path.length t.path rfl (t.path.length + 1)
        out path 0 le_rfl le_rfl
      (by omega) (Nat.zero_le _) (by rw [Nat.add_zero, Nat.sub_zero, List.drop_zero, hmiddle])
    obtain ⟨out', len', hok, hcompacted⟩ := @normalizeFrom_spec path path t.path.length
      (t.path.length + 1) out
      path 0 (by omega) le_rfl le_rfl (by omega) (Nat.zero_le _)
    rw [Nat.add_zero, Nat.sub_zero, hmiddle, Nat.sub_self] at hcompacted
    have hremoved : slice out' path (len' - path) = removeDotSegments t.path := hcompacted.text
    have hsuffix : slice out' (path + t.path.length) query.length = query := by
      rw [slice, hcompacted.behind]
      exact hlast
    have hle := hcompacted.le
    have hstop := hcompacted.fits
    have hroom : len' + query.length ≤ out'.length := by
      rw [hcompacted.length]
      omega
    have htake : out'.take len' = front ++ removeDotSegments t.path := by
      have hsplit := slice_append out' 0 path (len' - path)
      rw [Nat.zero_add, Nat.add_sub_cancel' hle, hremoved] at hsplit
      rw [← hfront, ← hcompacted.front]
      exact hsplit
    have hlong : u.length = len' + query.length := by
      have hcount := congrArg List.length htake
      rw [List.length_take, Nat.min_eq_left (by omega)] at hcount
      rw [hnormal, normalPath, if_neg hempty, List.length_append, ← hcount]
    rw [hpath, ← hapart, hok]
    simp only
    rw [copyForwards_eq hstop (by rw [hcompacted.length]; omega), hsuffix]
    refine ⟨rfl, fun _ => ⟨_, by rw [hlong], ?_, (length_put _ _ _).trans hcompacted.length⟩, fun hlong' => absurd hlong' ?_⟩
    · rw [hlong, take_put_end hroom, htake, hnormal, normalPath, if_neg hempty]
    · rw [hlong, ← hcompacted.length]
      omega

/-- What comes of the components `t` in a buffer of `n` bytes. -/
inductive Outcome (n : Nat) (t : Reference) (r : Web (Bytes × Nat)) : Prop where
  | long (h : n < (recompose t).length) (hr : r = .error (.fail .tooLong))
  | hostless (h : ∀ s a, t.scheme = some s → t.authority = some a → hostOf a = []) (hr : r = .error (.fail .invalidUrl))
  | whole (s a : Bytes) (hsplit : t.Split) (hs : t.scheme = some s) (ha : t.authority = some a) (hhost : hostOf a ≠ [])
      (hfits : (recompose t).length ≤ n) (hr : Writes n (recompose { t with path := normalPath t.path }) r)

/-- **A reference is resolved to its target.** -/
theorem resolveReference_spec {base : Reference} (hbase : base.Split) (hs : base.scheme = some s)
    (ha : base.authority = some a)
    (horigin : out.take originLen = s ++ 58 :: 47 :: 47 :: a) (hlen : originLen ≤ out.length)
    (hsuffix : suffix = base.path ++ queryText base.query) (hne : reference ≠ []) (hhash : (35 : UInt8) ∉ reference) :
    (resolveReference originLen suffix reference out = do
      let (out, len) ← joinReference originLen suffix reference out
      normalizeJoinedApart out len) ∧
    Outcome out.length (transform base (parse reference)) (resolveReference originLen suffix reference out) := by
  have hwrites := joinReference_writes hbase hs ha horigin hlen hsuffix hne hhash
  rw [resolveReference_eq]
  by_cases hlong : out.length < (recompose (transform base (parse reference))).length
  · rw [hwrites.long hlong]
    exact ⟨rfl, .long hlong rfl⟩
  obtain ⟨joined, hok, htake, hlength⟩ := hwrites.fits (Nat.le_of_not_lt hlong)
  rw [hok]
  simp only [bind, Except.bind]
  have hwhole : ∀ s' a', (transform base (parse reference)).Split → (transform base (parse reference)).scheme = some s' →
      (transform base (parse reference)).authority = some a' →
      normalizeJoined joined (recompose (transform base (parse reference))).length =
        normalizeJoinedApart joined (recompose (transform base (parse reference))).length ∧
      Outcome out.length (transform base (parse reference))
        (normalizeJoined joined (recompose (transform base (parse reference))).length) := by
    intro s' a' hsplit hs' ha'
    obtain ⟨hapart, hspec⟩ := normalizeJoined_spec hsplit hs' ha' htake
    refine ⟨hapart, ?_⟩
    by_cases hhost : hostOf a' = []
    · rw [if_pos hhost] at hspec
      refine .hostless (fun s'' a'' _ ha'' => ?_) hspec
      rw [ha', Option.some.injEq] at ha''
      rw [← ha'', hhost]
    · rw [if_neg hhost, hlength] at hspec
      exact .whole s' a' hsplit hs' ha' hhost (Nat.le_of_not_lt hlong) hspec
  cases hscheme : (parse reference).scheme with
  | none =>
    obtain ⟨hsplit, hs', ha'⟩ := Uri.transform_split hbase hs ha (Uri.parse_split reference) hscheme
    exact hwhole s _ hsplit hs' ha'
  | some s' =>
    have htransform : transform base (parse reference) = parse reference := by
      rw [transform, hscheme]
    cases hauthority : (parse reference).authority with
    | some a' =>
      rw [htransform] at hwhole ⊢
      exact hwhole s' a' (Uri.parse_split reference) hscheme hauthority
    | none =>
      obtain ⟨q, hparts, hhost⟩ := parts_alone hscheme hauthority
      rw [htransform] at htake ⊢
      rw [Uri.recompose_parse hhash] at htake ⊢
      have hfail : normalizeJoined joined reference.length = .error (.fail .invalidUrl) ∧
          normalizeJoinedApart joined reference.length = .error (.fail .invalidUrl) := by
        unfold normalizeJoined normalizeJoinedApart
        rw [htake, hparts]
        simp only [bind, Except.bind]
        rw [hhost]
        exact ⟨rfl, rfl⟩
      refine ⟨hfail.1.trans hfail.2.symm, .hostless (fun s'' a'' _ ha'' => ?_) hfail.1⟩
      rw [hauthority] at ha''
      cases ha''

end Normalising

end WebUrl
end R4
