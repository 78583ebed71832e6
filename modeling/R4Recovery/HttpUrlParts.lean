import R4Recovery.HttpUrl
import R4Recovery.WebUrlExact
/-!
# HttpUrlParts — the text of an address

What `parseUrl` accepts has a text of its own: its origin and its path.  The text splits into the components of the address.
-/
namespace R4
namespace Http

open Uri (Reference parse recompose queryText endsAuthority endsPath isDelimiter Follows splitQuery)
open WebUrl (Writes)

/-! ## Origins -/

/-- The port, where it is written. -/
def ParsedUrl.portText (base : ParsedUrl) : Bytes :=
  if base.explicitPort ∨ base.port ≠ base.scheme.defaultPort then 58 :: decimal base.port else []

def ParsedUrl.authority (base : ParsedUrl) : Bytes := base.host ++ base.portText

def ParsedUrl.origin (base : ParsedUrl) : Bytes := base.scheme.text ++ ascii "://" ++ base.authority

/-- **The text of an address.** -/
def ParsedUrl.text (base : ParsedUrl) : Bytes := base.origin ++ base.path

/-- Its components. -/
def ParsedUrl.reference (base : ParsedUrl) : Reference where
  scheme := some base.scheme.text
  authority := some base.authority
  path := (splitQuery base.path).1
  query := (splitQuery base.path).2

/-- The buffer of `n` bytes starts with `text`; where that does not fit, nothing is given. -/
structure Appends (n : Nat) (text : Bytes) (r : Option (Bytes × Nat)) : Prop where
  fits : text.length ≤ n → ∃ out, r = some (out, text.length) ∧ out.take text.length = text ∧ out.length = n
  long : n < text.length → r = none

section Origins

variable {n : Nat} {out text : Bytes} {r : Option (Bytes × Nat)}

theorem Appends.append (h : Appends n text r) (v : Bytes) : Appends n (text ++ v) (do
    let (out, pos) ← r
    Http.append out pos v) := by
  refine ⟨fun hfits => ?_, fun hlong => ?_⟩
  · rw [List.length_append] at hfits
    obtain ⟨out, hok, htake, hlen⟩ := h.fits (by omega)
    have hput := WebUrl.take_put_end (show text.length + v.length ≤ out.length by omega)
    rw [htake] at hput
    refine ⟨put out text.length v, ?_, ?_, (length_put _ _ _).trans hlen⟩
    · rw [hok, List.length_append]
      exact if_neg (by omega)
    · rw [List.length_append]
      exact hput
  · rw [List.length_append] at hlong
    by_cases hfits : text.length ≤ n
    · obtain ⟨out, hok, -, hlen⟩ := h.fits hfits
      rw [hok]
      exact if_pos (by omega)
    · rw [h.long (Nat.lt_of_not_le hfits)]
      rfl

theorem appendByte_eq (out : Bytes) (pos : Nat) (c : UInt8) : appendByte out pos c = append out pos [c] := by
  unfold appendByte append
  rw [List.length_singleton]
  by_cases hfull : pos ≥ out.length
  · rw [if_pos hfull, if_pos (by omega)]
  · rw [if_neg hfull, if_neg (by omega), ← Moves.put_cons (by omega), Moves.put_nil]

/-- **The origin of the base, where it fits.** -/
theorem appendOrigin_appends (base : ParsedUrl) (out : Bytes) : Appends out.length base.origin (appendOrigin base out) := by
  have hnil : Appends out.length [] (some (out, 0)) := ⟨fun _ => ⟨out, rfl, rfl, rfl⟩, fun h => absurd h (Nat.not_lt_zero _)⟩
  have hhost := ((hnil.append base.scheme.text).append (ascii "://")).append base.host
  have horigin : base.origin = [] ++ base.scheme.text ++ ascii "://" ++ base.host ++ base.portText := by
    rw [ParsedUrl.origin, ParsedUrl.authority, List.nil_append, List.append_assoc]
    simp
  rw [horigin, ParsedUrl.portText]
  by_cases hport : base.explicitPort ∨ base.port ≠ base.scheme.defaultPort
  · have hall := (hhost.append [58]).append (decimal base.port)
    rw [if_pos hport]
    rw [List.append_assoc, List.singleton_append] at hall
    unfold appendOrigin
    simp only [if_pos hport, appendByte_eq]
    simpa only [Option.bind_assoc, Option.bind_eq_bind, Option.bind_some, appendUnsigned] using hall
  · rw [if_neg hport]
    unfold appendOrigin
    simp only [if_neg hport]
    simpa only [Option.bind_assoc, Option.bind_eq_bind, Option.bind_some, Prod.mk.eta, Option.bind_fun_some,
      List.append_nil] using hhost

end Origins

/-! ## What is accepted -/

/-- The authority behind `start`. -/
def authorityAt (raw : Bytes) (start : Nat) : Bytes := (raw.drop start).takeWhile (fun c => c != 47 && c != 63)

/-- How `v` was read from `raw`. -/
structure ReadFrom (raw : Bytes) (schemeEnd : Nat) (v : ParsedUrl) : Prop where
  separator : indexOf raw (ascii "://") = some schemeEnd
  scheme : parseScheme (raw.take schemeEnd) = some v.scheme
  authority : parseAuthority v.scheme (authorityAt raw (schemeEnd + 3)) = .ok (v.host, v.port, v.explicitPort)
  host : v.host ≠ []
  hostBytes : v.host.all isHostByte = true
  path : v.path = if schemeEnd + 3 + (authorityAt raw (schemeEnd + 3)).length = raw.length then ascii "/"
    else raw.drop (schemeEnd + 3 + (authorityAt raw (schemeEnd + 3)).length)
  target : validRequestTarget v.path v.queryOnly = true
  plain : (35 : UInt8) ∉ raw

section Accepted

variable {raw : Bytes} {v : ParsedUrl}

/-- **What `parseUrl` read.** -/
theorem parseUrl_value (h : parseUrl raw = .value v) : ∃ schemeEnd, ReadFrom (trimAscii raw) schemeEnd v := by
  unfold parseUrl at h
  simp only at h
  generalize trimAscii raw = text at h ⊢
  by_cases hempty : text.length = 0
  · rw [if_pos hempty] at h
    cases h
  rw [if_neg hempty] at h
  by_cases hhash : (indexOfByte text 35).isSome = true
  · rw [if_pos hhash] at h
    cases h
  rw [if_neg hhash] at h
  have hplain : (35 : UInt8) ∉ text := by
    intro hmem
    refine hhash ?_
    rw [indexOfByte, List.isSome_idxOf?]
    exact hmem
  cases hsep : indexOf text (ascii "://") with
  | none =>
    rw [hsep] at h
    cases h
  | some schemeEnd =>
    rw [hsep] at h
    simp only at h
    cases hscheme : parseScheme (text.take schemeEnd) with
    | none =>
      rw [hscheme] at h
      cases h
    | some scheme =>
      rw [hscheme] at h
      simp only at h
      change (if schemeEnd + 3 ≥ text.length then _ else if (authorityAt text (schemeEnd + 3)).length = 0 then _ else _)
          = _ at h
      split at h
      · cases h
      split at h
      · cases h
      split at h
      · cases h
      split at h
      · cases h
      split at h
      · cases h
      rename_i hauthority
      split at h
      · cases h
      rename_i hhost
      split at h
      · cases h
      rename_i hbytes
      generalize hpath : ite (schemeEnd + 3 + ((text.drop (schemeEnd + 3)).takeWhile (fun c => c != 47 &&
          c != 63)).length = text.length)
        (ascii "/") (text.drop (schemeEnd + 3 + ((text.drop (schemeEnd + 3)).takeWhile (fun c => c != 47 &&
            c != 63)).length)) = path at h
      split at h
      · cases h
      rename_i htarget
      cases h
      exact ⟨schemeEnd, hsep, hscheme, hauthority, fun hnil => hhost (List.length_eq_zero_iff.2 hnil),
        by simpa using hbytes, hpath.symm,
        by simpa using htarget, hplain⟩

theorem parseAuthority_port {scheme : Scheme} {authority host : Bytes} {port : Nat} {explicitPort : Bool}
    (h : parseAuthority scheme authority = .ok (host, port, explicitPort)) :
    (explicitPort = true ∧ 0 < port ∧ port ≤ 65535 ∧ ∃ colon, lastIndexOfByte authority 58 = some colon ∧
    host = authority.take colon ∧
      parseDecimal (authority.drop (colon + 1)) = some port) ∨
    (explicitPort = false ∧ port = scheme.defaultPort ∧ host = authority ∧ lastIndexOfByte authority 58 = none) := by
  unfold parseAuthority at h
  cases hcolon : lastIndexOfByte authority 58 with
  | none =>
    rw [hcolon] at h
    cases h
    exact .inr ⟨rfl, rfl, rfl, rfl⟩
  | some colon =>
    rw [hcolon] at h
    simp only at h
    cases hport : parsePort (authority.drop (colon + 1)) with
    | none =>
      rw [hport] at h
      cases h
    | some p =>
      rw [hport] at h
      cases h
      unfold parsePort at hport
      cases hdecimal : parseDecimal (authority.drop (colon + 1)) with
      | none =>
        rw [hdecimal] at hport
        cases hport
      | some parsed =>
        rw [hdecimal] at hport
        simp only at hport
        split at hport
        · cases hport
        · cases hport
          exact .inl ⟨rfl, by omega, by omega, colon, rfl, rfl, hdecimal⟩

theorem parsePort_decimal {port : Nat} (hpos : 0 < port) (hle : port ≤ 65535) : parsePort (decimal port) = some port := by
  have hdecimal : parseDecimal (decimal port) = some port := by
    rw [parseDecimal, parseDigits_decimal (by omega)]
    rw [if_neg (by simp [decimal_ne_nil])]
  rw [parsePort, hdecimal]
  exact if_neg (by omega)

theorem ends_iff {c : UInt8} : endsAuthority c = true ↔ c = 47 ∨ c = 63 ∨ c = 35 := by
  rw [endsAuthority, Bool.or_eq_true, Bool.or_eq_true, beq_iff_eq, beq_iff_eq, beq_iff_eq, or_assoc]

theorem plain_of {p : UInt8 → Bool} (h : p 47 = false ∧ p 63 = false ∧ p 35 = false ∧ p 58 = false) {c : UInt8}
    (hc : p c = true) :
    endsAuthority c = false ∧ c ≠ 58 := by
  obtain ⟨hslash, hmark, hhash, hcolon⟩ := h
  have hne : ∀ d, p d = false → c ≠ d := fun d hd he => by
    rw [he, hd] at hc
    cases hc
  refine ⟨Bool.eq_false_iff.2 fun hends => ?_, hne 58 hcolon⟩
  rcases ends_iff.1 hends with he | he | he
  · exact hne 47 hslash he
  · exact hne 63 hmark he
  · exact hne 35 hhash he

theorem hostByte_plain {c : UInt8} (h : isHostByte c = true) : endsAuthority c = false ∧ c ≠ 58 := plain_of (by decide) h

theorem digit_plain {c : UInt8} (h : isDigit c = true) : endsAuthority c = false ∧ c ≠ 58 := plain_of (by decide) h

variable {schemeEnd : Nat}

theorem ReadFrom.portText (h : ReadFrom raw schemeEnd v) : v.portText = if v.explicitPort then 58 ::
    decimal v.port else [] := by
  rw [ParsedUrl.portText]
  rcases parseAuthority_port h.authority with ⟨hport, -⟩ | ⟨hport, hdefault, -⟩
  · rw [hport, if_pos (.inl rfl), if_pos rfl]
  · rw [hport, if_neg (by simp [hdefault]), if_neg Bool.false_ne_true]

/-- **The authority is read again as it was.** -/
theorem ReadFrom.again (h : ReadFrom raw schemeEnd v) :
    parseAuthority v.scheme v.authority = .ok (v.host, v.port, v.explicitPort) := by
  have hcolon : (58 : UInt8) ∉ v.host := fun hmem => (hostByte_plain (List.all_eq_true.1 h.hostBytes 58 hmem)).2 rfl
  rw [ParsedUrl.authority, h.portText]
  rcases parseAuthority_port h.authority with ⟨hport, hpos, hle, -⟩ | ⟨hport, hdefault, -⟩
  · have hdigits : (58 : UInt8) ∉ decimal v.port := fun hmem => (digit_plain (decimal_digits v.port 58 hmem)).2 rfl
    have hsplit : v.host ++ 58 :: decimal v.port = v.host ++ [58] ++ decimal v.port := by simp
    have hlast : lastIndexOfByte (v.host ++ 58 :: decimal v.port) 58 = some v.host.length := by
      rw [hsplit, WebUrl.lastIndexOfByte_append _ hdigits, WebUrl.lastIndexOfByte_snoc, if_pos rfl]
    have hdrop : (v.host ++ 58 :: decimal v.port).drop (v.host.length + 1) = decimal v.port := by
      rw [hsplit]
      exact List.drop_left' (by simp)
    rw [hport, if_pos rfl, parseAuthority, hlast]
    simp only
    rw [hdrop, parsePort_decimal hpos hle]
    simp only
    rw [List.take_left]
  · rw [hport, if_neg Bool.false_ne_true, List.append_nil, parseAuthority, WebUrl.lastIndexOfByte_none hcolon, hdefault]

theorem ReadFrom.path_head (h : ReadFrom raw schemeEnd v) : v.path ≠ [] ∧ ∀ c ∈ v.path.head?, endsAuthority c = true := by
  have htarget := h.target
  rw [validRequestTarget, Bool.and_eq_true, beq_iff_eq] at htarget
  refine ⟨fun hnil => ?_, fun c hc => ?_⟩
  · rw [hnil] at htarget
    cases htarget.1
  · rw [Option.mem_def, htarget.1, Option.some.injEq] at hc
    rw [← hc]
    cases v.queryOnly <;> rfl

theorem ReadFrom.path_plain (h : ReadFrom raw schemeEnd v) : (35 : UInt8) ∉ v.path := by
  rw [h.path]
  split
  · decide
  · exact fun hmem => h.plain (List.mem_of_mem_drop hmem)

theorem scheme_plain (scheme : Scheme) : scheme.text ≠ [] ∧ ∀ c ∈ scheme.text, isDelimiter c = false := by
  have hall : scheme.text.all (fun c => !isDelimiter c) = true := by cases scheme <;> rfl
  refine ⟨by cases scheme <;> exact List.cons_ne_nil _ _, fun c hc => ?_⟩
  simpa using List.all_eq_true.1 hall c hc

/-- **The components of what was accepted.** -/
theorem ReadFrom.split (h : ReadFrom raw schemeEnd v) : v.reference.Split := by
  obtain ⟨hpath, hquery⟩ := Uri.splitQuery_plain v.path
  refine ⟨fun s hs => ?_, fun a ha => ⟨fun c hc => ?_, Uri.splitQuery_follows h.path_head.2⟩, hpath, hquery⟩
  · cases hs
    exact scheme_plain v.scheme
  · cases ha
    rw [ParsedUrl.authority, h.portText] at hc
    rcases List.mem_append.1 hc with hc | hc
    · exact (hostByte_plain (List.all_eq_true.1 h.hostBytes c hc)).1
    · split at hc
      · rcases List.mem_cons.1 hc with rfl | hc
        · rfl
        · exact (digit_plain (decimal_digits v.port c hc)).1
      · cases hc

theorem origin_eq (v : ParsedUrl) : v.origin = v.scheme.text ++ 58 :: 47 :: 47 :: v.authority := by
  rw [ParsedUrl.origin, List.append_assoc]
  rfl

/-- **The text splits into them.** -/
theorem ReadFrom.parse_text (h : ReadFrom raw schemeEnd v) : parse v.text = v.reference := by
  have htext : recompose v.reference = v.text := by
    rw [Uri.recompose_eq rfl rfl, ParsedUrl.text, origin_eq, List.append_assoc]
    simp only [ParsedUrl.reference, List.cons_append]
    rw [← Uri.splitQuery_spec h.path_plain]
  rw [← htext]
  exact Uri.parse_recompose h.split rfl rfl

end Accepted

/-! ## Reading a text of components -/

section Texts

variable {t : Reference} {s a : Bytes} {k : Nat} {v : ParsedUrl}

theorem separator_text (h : (58 : UInt8) ∉ s) (rest : Bytes) : indexOf (s ++ 58 :: 47 :: 47 :: rest) (ascii "://")
    = some s.length := by
  refine indexOf_eq_some ?_ (List.cons_ne_nil _ _) fun j hj hoccurs => ?_
  · rw [Occurs, List.drop_left]
    exact List.prefix_append (ascii "://") rest
  · rw [Occurs, List.drop_append_of_le_length hj.le, List.drop_eq_getElem_cons hj, List.cons_append] at hoccurs
    obtain ⟨tail, htail⟩ := hoccurs
    have hcolon : (58 : UInt8) = s[j] := (List.cons.inj htail).1
    exact h (hcolon ▸ List.getElem_mem hj)

/-- **What is read of a text of components.** -/
theorem ReadFrom.components (hsplit : t.Split) (hs : t.scheme = some s) (ha : t.authority = some a) (hpath : t.path ≠ [])
    (h : ReadFrom (recompose t) k v) : parseScheme s = some v.scheme ∧
      parseAuthority v.scheme a = .ok (v.host, v.port, v.explicitPort) ∧ v.path = t.path ++ queryText t.query := by
  have hcolon : (58 : UInt8) ∉ s := fun hmem => absurd ((hsplit.scheme s hs).2 58 hmem) (by decide)
  obtain ⟨hauthority, hrooted⟩ := hsplit.authority a ha
  have htext := Uri.recompose_eq hs ha
  have hbehind : recompose t = s ++ [58, 47, 47] ++ (a ++ (t.path ++ queryText t.query)) := by rw [htext]; simp
  have hstart : (s ++ [58, 47, 47]).length = s.length + 3 := by simp
  have hk : k = s.length := by
    have hseparator := h.separator
    rw [htext, separator_text hcolon] at hseparator
    exact (Option.some.inj hseparator).symm
  have howned : authorityAt (recompose t) (s.length + 3) = a := by
    have hplain : ∀ c ∈ a, (c == 47 || c == 63) = false := fun c hc => (Bool.or_eq_false_iff.1 (hauthority c hc)).1
    have hends : ∀ c ∈ (t.path ++ queryText t.query).head?, (c == 47 || c == 63) = true := by
      obtain ⟨c, rest, hcons⟩ := List.exists_cons_of_ne_nil hpath
      intro d hd
      rw [hcons, List.cons_append, List.head?_cons, Option.mem_def, Option.some.injEq] at hd
      rw [← hd, hrooted c (by rw [hcons]; rfl)]
      rfl
    have hfront := (Uri.split_front (p := fun c => c == 47 || c == 63) hplain hends).1
    simp only [Bool.not_or] at hfront
    rw [authorityAt, hbehind, ← hstart, List.drop_left]
    exact hfront
  have hdrop : (recompose t).drop (s.length + 3 + a.length) = t.path ++ queryText t.query := by
    rw [hbehind, ← List.append_assoc]
    exact List.drop_left' (by rw [List.length_append, hstart])
  have hlong : ¬ s.length + 3 + a.length = (recompose t).length := by
    intro hend
    rw [hend, List.drop_length] at hdrop
    exact hpath (List.append_eq_nil_iff.1 hdrop.symm).1
  have hscheme := h.scheme
  have hread := h.authority
  have hrest := h.path
  rw [hk] at hscheme hread hrest
  rw [howned] at hread hrest
  rw [if_neg hlong, hdrop] at hrest
  rw [htext, List.take_left] at hscheme
  exact ⟨hscheme, hread, hrest⟩

theorem parseScheme_length {scheme : Scheme} (h : parseScheme s = some scheme) : scheme.text.length = s.length := by
  have hlength : ∀ {text : Bytes}, eqlIgnoreCase s text = true → text.length = s.length := by
    intro text heq
    have hmap := congrArg List.length ((eqlIgnoreCase_iff s text).1 heq)
    rw [List.length_map, List.length_map] at hmap
    exact hmap.symm
  unfold parseScheme at h
  split at h
  · rename_i heq
    cases h
    exact hlength heq
  · split at h
    · rename_i heq
      cases h
      exact hlength heq
    · cases h

theorem parseDigits_small : ∀ {digits : Bytes} {out n : Nat}, parseDigits digits out = some n →
    n < (out + 1) * 10 ^ digits.length
  | [], out, n, h => by
    cases h
    simp
  | ch :: rest, out, n, h => by
    rw [parseDigits] at h
    split at h
    · split at h
      · have hsmall := parseDigits_small h
        have hdigit : ch.toNat - 48 < 10 := by
          rename_i hrange _
          have hle : ch.toNat ≤ 57 := UInt8.le_iff_toNat_le.1 hrange.2
          omega
        have hle : (out * 10 + (ch.toNat - 48) + 1) * 10 ^ rest.length ≤ (out + 1) * 10 * 10 ^ rest.length :=
          Nat.mul_le_mul_right _ (by omega)
        rw [List.length_cons, Nat.pow_succ, Nat.mul_comm (10 ^ rest.length), ← Nat.mul_assoc]
        omega
      · cases h
    · cases h

/-- **The origin is no longer than what it was read from.** -/
theorem ReadFrom.origin_le {raw : Bytes} {schemeEnd : Nat} (h : ReadFrom raw schemeEnd v)
    (hs : parseScheme s = some v.scheme)
    (ha : parseAuthority v.scheme a = .ok (v.host, v.port, v.explicitPort)) : v.origin.length ≤ s.length + 3 + a.length := by
  have hauthority : v.authority.length ≤ a.length := by
    rw [ParsedUrl.authority, h.portText]
    rcases parseAuthority_port ha with ⟨hport, -, -, colon, hcolon, hhost, hdecimal⟩ | ⟨hport, -, hhost, -⟩
    · have hlt : colon < a.length := List.mem_range.1 (List.mem_reverse.1 (List.mem_of_find?_eq_some hcolon))
      have hdigits : (decimal v.port).length ≤ (a.drop (colon + 1)).length := by
        unfold parseDecimal at hdecimal
        split at hdecimal
        · cases hdecimal
        · rename_i hne
          have hsmall := parseDigits_small hdecimal
          rw [Nat.zero_add, Nat.one_mul] at hsmall
          exact length_decimal (List.length_pos_iff.2 (by simpa using hne)) hsmall
      rw [List.length_drop] at hdigits
      rw [hport, if_pos rfl, hhost, List.length_append, List.length_cons, List.length_take, Nat.min_eq_left hlt.le]
      omega
    · rw [hport, if_neg Bool.false_ne_true, List.append_nil, hhost]
  rw [origin_eq, List.length_append, List.length_cons, List.length_cons, List.length_cons, parseScheme_length hs]
  omega

end Texts

end Http
end R4
