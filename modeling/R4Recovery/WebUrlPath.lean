import R4Recovery.WebUrl
import R4Recovery.UriReference
/-!
# WebUrlPath — a path is normalised where it stands

What is written never passes what is still to be read, so the loop gives the path without its dot segments.
-/
namespace R4
namespace WebUrl

open Http (indexOfByte lastIndexOfByte startsWith_iff)
open Moves (copyForwards copyBackwards copyForwards_eq copyBackwards_eq writeAt)
open Uri (removeDots dropSegment)

/-! ## Searches -/

section Searches

variable {text tail : Bytes} {b : UInt8} {p : UInt8 → Bool} {pos : Nat}

theorem indexFrom_getD (h : pos ≤ text.length) :
    (indexFrom text pos p).getD text.length = pos + ((text.drop pos).takeWhile (fun c => !p c)).length := by
  have htake : ((text.drop pos).takeWhile (fun c => !p c)).length = (text.drop pos).findIdx p := by
    rw [List.takeWhile_eq_take_findIdx_not, List.length_take]
    simp only [Bool.not_not]
    exact Nat.min_eq_left List.findIdx_le_length
  rw [htake, List.findIdx_eq_getD_findIdx?, indexFrom]
  cases (text.drop pos).findIdx? p with
  | none =>
    rw [Option.map_none, Option.getD_none, Option.getD_none, List.length_drop]
    omega
  | some i => rfl

theorem lastIndexOfByte_snoc (text : Bytes) (c b : UInt8) :
    lastIndexOfByte (text ++ [c]) b = if c = b then some text.length else lastIndexOfByte text b := by
  unfold lastIndexOfByte
  rw [List.length_append, List.length_singleton, List.range_succ, List.reverse_append, List.reverse_singleton,
    List.singleton_append, List.find?_cons, List.getElem?_concat_length]
  by_cases hc : c = b
  · rw [if_pos hc, hc, beq_self_eq_true]
  · rw [if_neg hc, show ((some c == some b) : Bool) = false from beq_false_of_ne fun h => hc (Option.some.inj h)]
    simp only
    have hcongr : ∀ l : List Nat, (∀ i ∈ l, i < text.length) →
        l.find? (fun i => (text ++ [c])[i]? == some b) = l.find? (fun i => text[i]? == some b) := by
      intro l
      induction l with
      | nil => exact fun _ => rfl
      | cons i l ih =>
        intro hl
        rw [List.find?_cons, List.find?_cons, List.getElem?_append_left (hl i List.mem_cons_self),
          ih fun j hj => hl j (List.mem_cons_of_mem _ hj)]
    exact hcongr _ fun i hi => List.mem_range.1 (List.mem_reverse.1 hi)

theorem lastIndexOfByte_append (text : Bytes) (h : b ∉ tail) : lastIndexOfByte (text ++ tail)
    b = lastIndexOfByte text b := by
  induction tail using List.reverseRecOn with
  | nil => rw [List.append_nil]
  | append_singleton tail c ih =>
    have hc : c ≠ b := fun hc => h (hc ▸ List.mem_append_right _ (List.mem_singleton_self c))
    rw [← List.append_assoc, lastIndexOfByte_snoc, if_neg hc, ih fun hb => h (List.mem_append_left _ hb)]

theorem lastIndexOfByte_none (h : b ∉ text) : lastIndexOfByte text b = none := lastIndexOfByte_append [] h

theorem lastIndex_le (text : Bytes) : (lastIndexOfByte text b).getD 0 ≤ text.length := by
  cases hlast : lastIndexOfByte text b with
  | none => exact Nat.zero_le _
  | some i => exact (List.mem_range.1 (List.mem_reverse.1 (List.mem_of_find?_eq_some hlast))).le

theorem dropSegment_eq (text : Bytes) : dropSegment text = text.take ((lastIndexOfByte text 47).getD 0) := by
  induction text using List.reverseRecOn with
  | nil => rfl
  | append_singleton text c ih =>
    rw [lastIndexOfByte_snoc, dropSegment, List.reverse_append, List.reverse_singleton, List.singleton_append]
    by_cases hc : c = 47
    · rw [if_pos hc, hc]
      simp
    · have hkeep : (c != 47) = true := bne_iff_ne.2 hc
      rw [if_neg hc, List.dropWhile_cons, if_pos hkeep, List.take_append_of_le_length (lastIndex_le text)]
      exact ih

end Searches

/-! ## Segments -/

section Segments

variable {rest output : Bytes}

theorem segmentLength_eq (c : UInt8) (t : Bytes) : segmentLength (c :: t) = 1 + (t.takeWhile (· != 47)).length := by
  have hkeep : (fun c : UInt8 => !(c == 47)) = (· != 47) := rfl
  unfold segmentLength
  by_cases hc : c = 47
  · rw [hc, if_pos (show (47 :: t : Bytes).head? = some 47 from rfl), indexFrom_getD (Nat.le_add_left 1 _), hkeep]
    rfl
  · have hhead : ¬ (c :: t).head? = some 47 := fun h => hc (Option.some.inj h)
    have htake : (c :: t).takeWhile (· != 47) = c :: t.takeWhile (· != 47) := by
      rw [List.takeWhile_cons, if_pos (show (c != 47) = true from bne_iff_ne.2 hc)]
    rw [if_neg hhead, indexFrom_getD (Nat.zero_le _), hkeep, List.drop_zero, htake, List.length_cons]
    omega

theorem segmentLength_le (h : rest ≠ []) : 0 < segmentLength rest ∧ segmentLength rest ≤ rest.length := by
  obtain ⟨c, t, rfl⟩ := List.exists_cons_of_ne_nil h
  have hle := (List.takeWhile_prefix (· != 47) (l := t)).length_le
  rw [segmentLength_eq, List.length_cons]
  omega

/-- Nothing at the front is a dot segment. -/
structure NoDots (rest : Bytes) : Prop where
  up : ¬ startsWith rest (ascii "../") = true
  here : ¬ startsWith rest (ascii "./") = true
  slashHere : ¬ startsWith rest (ascii "/./") = true
  lastHere : rest ≠ ascii "/."
  slashUp : ¬ startsWith rest (ascii "/../") = true
  lastUp : rest ≠ ascii "/.."
  dot : rest ≠ ascii "."
  dots : rest ≠ ascii ".."

theorem removeDots_front (h : NoDots rest) (hne : rest ≠ []) : removeDots rest output =
    removeDots (rest.drop (segmentLength rest)) (output ++ rest.take (segmentLength rest)) := by
  obtain ⟨c, t, rfl⟩ := List.exists_cons_of_ne_nil hne
  have htake : (c :: t).take (1 + (t.takeWhile (· != 47)).length) = c :: t.takeWhile (· != 47) := by
    rw [Nat.add_comm, List.take_succ_cons]
    exact congrArg _ (List.prefix_iff_eq_take.1 (List.takeWhile_prefix _)).symm
  have hdrop : (c :: t).drop (1 + (t.takeWhile (· != 47)).length) = t.dropWhile (· != 47) := by
    rw [Nat.add_comm, List.drop_succ_cons]
    have hsplit := congrArg (List.drop (t.takeWhile (· != 47)).length)
        (List.takeWhile_append_dropWhile (p := (· != 47)) (l := t))
    rw [List.drop_left] at hsplit
    exact hsplit.symm
  rw [segmentLength_eq, htake, hdrop]
  generalize hright : removeDots (t.dropWhile (· != 47)) (output ++ c :: t.takeWhile (· != 47)) = right
  generalize hinput : c :: t = input at h
  unfold removeDots
  split
  · exact absurd (startsWith_iff.2 (List.prefix_append (ascii "../") _)) h.up
  · exact absurd (startsWith_iff.2 (List.prefix_append (ascii "./") _)) h.here
  · exact absurd (startsWith_iff.2 (List.prefix_append (ascii "/./") _)) h.slashHere
  · exact absurd rfl h.lastHere
  · exact absurd (startsWith_iff.2 (List.prefix_append (ascii "/../") _)) h.slashUp
  · exact absurd rfl h.lastUp
  · exact absurd rfl h.dot
  · exact absurd rfl h.dots
  · cases hinput
  · obtain ⟨rfl, rfl⟩ := List.cons.inj hinput
    exact hright

end Segments

/-! ## In place -/

/-- `text` stands from `start` up to `len'`; in front of it and behind `stop` nothing has changed. -/
structure Compacted (start stop : Nat) (out text out' : Bytes) (len' : Nat) : Prop where
  length : out'.length = out.length
  front : out'.take start = out.take start
  text : slice out' start (len' - start) = text
  le : start ≤ len'
  fits : len' ≤ stop
  behind : out'.drop stop = out.drop stop

section InPlace

variable {start path n stop : Nat} {out out' out'' text v : Bytes} {len len' cursor : Nat}

theorem slice_drop (b : Bytes) (off len k : Nat) : (slice b off len).drop k = slice b (off + k) (len - k) := by
  rw [slice, slice, List.drop_take, List.drop_drop]

theorem slice_take (b : Bytes) (off : Nat) {len k : Nat} (h : k ≤ len) : (slice b off len).take k = slice b off k := by
  rw [slice, slice, List.take_take, Nat.min_eq_left h]

theorem take_put_off {b v : Bytes} {off k : Nat} (h : k ≤ off) : (put b off v).take k = b.take k := by
  refine List.ext_getElem? fun i => ?_
  rw [List.getElem?_take, List.getElem?_take]
  by_cases hi : i < k
  · rw [if_pos hi, if_pos hi, getElem?_put_off (.inl (by omega))]
  · rw [if_neg hi, if_neg hi]

theorem drop_put_off {b v : Bytes} {off k : Nat} (h : off + v.length ≤ k) : (put b off v).drop k = b.drop k := by
  refine List.ext_getElem? fun i => ?_
  rw [List.getElem?_drop, List.getElem?_drop, getElem?_put_off (.inr (by omega))]

theorem slice_put_end (hstart : start ≤ len) (h : len + v.length ≤ out.length) :
    slice (put out len v) start (len + v.length - start) = slice out start (len - start) ++ v := by
  rw [show len + v.length - start = (len - start) + v.length by omega, slice_append, Nat.add_sub_cancel' hstart,
    slice_put rfl h, slice_put_off (.inl (by omega))]

theorem Compacted.refl (hle : start ≤ len) (hfits : len ≤ stop) :
    Compacted start stop out (slice out start (len - start)) out len := ⟨rfl, rfl, rfl, hle, hfits, rfl⟩

theorem compacted_put (hle : start ≤ len) (hfits : len + v.length ≤ stop) (hstop : stop ≤ out.length) :
    Compacted start stop out (slice out start (len - start) ++ v) (put out len v) (len + v.length) :=
  ⟨length_put _ _ _, take_put_off hle, slice_put_end hle (hfits.trans hstop), hle.trans (Nat.le_add_right _ _), hfits,
    drop_put_off hfits⟩

theorem Compacted.trans {text' : Bytes} (h : Compacted start stop out text' out' len') {len'' : Nat}
    (h' : Compacted start stop out' text out'' len'') : Compacted start stop out text out'' len'' :=
  ⟨h'.length.trans h.length, h'.front.trans h.front, h'.text, h'.le, h'.fits, h'.behind.trans h.behind⟩

theorem appendSlice_ok (h : len + v.length ≤ out.length) : appendSlice out len v = .ok (put out len v, len + v.length) :=
  if_neg (Nat.not_lt.2 h)

theorem appendOwn_ok {from' count : Nat} (hle : len ≤ from') (h : from' + count ≤ out.length) :
    appendOwn out len from' count = .ok (put out len (slice out from' count), len + count) := by
  unfold appendOwn
  rw [if_neg (by omega), copyForwards_eq hle h]
  rfl

theorem startsWith_cases {rest pre : Bytes} (h : startsWith rest pre = true) : rest = pre ++ rest.drop pre.length := by
  obtain ⟨t, rfl⟩ := startsWith_iff.1 h
  rw [List.drop_left]

/-- **The loop gives the path without its dot segments**, and has fuel enough. -/
theorem normalizeFrom_spec : ∀ (fuel : Nat) (out : Bytes) (len cursor : Nat), n - cursor < fuel →
    start ≤ len → len ≤ path + cursor → path + n ≤ out.length → cursor ≤ n →
    ∃ out' len', normalizeFrom start path n fuel out len cursor = .ok (out', len') ∧
      Compacted start (path + n) out (removeDots (slice out (path + cursor) (n - cursor))
      (slice out start (len - start))) out' len'
  | 0, _, _, _, h, _, _, _, _ => absurd h (Nat.not_lt_zero _)
  | fuel + 1, out, len, cursor, hfuel, hlen, hread, hroom, hcursor => by
    rw [normalizeFrom]
    by_cases hlt : cursor < n
    · rw [if_pos hlt]
      simp only
      have hlength : (slice out (path + cursor) (n - cursor)).length = n - cursor := length_slice (by omega)
      have hdrop : ∀ k, (slice out (path + cursor) (n - cursor)).drop k = slice out (path + (cursor + k))
          (n - (cursor + k)) := by
        intro k
        rw [slice_drop, Nat.add_assoc, Nat.sub_sub]
      have htake : ∀ k, k ≤ n - cursor → (slice out (path + cursor) (n - cursor)).take k = slice out (path + cursor) k :=
        fun k hk => slice_take _ _ hk
      -- the loop goes on `k` bytes later
      have hskip : ∀ k len1, 0 < k → k ≤ n - cursor → start ≤ len1 → len1 ≤ len →
          ∃ out' len', normalizeFrom start path n fuel out len1 (cursor + k) = .ok (out', len') ∧
            Compacted start (path + n) out (removeDots ((slice out (path + cursor) (n - cursor)).drop k)
              (slice out start (len1 - start))) out' len' := by
        intro k len1 hk hle hlen1 hless
        rw [hdrop k]
        exact normalizeFrom_spec fuel out len1 (cursor + k) (by omega) hlen1 (by omega) hroom (by omega)
      generalize hrest : slice out (path + cursor) (n - cursor) = rest at hlength hdrop htake hskip
      generalize houtput : slice out start (len - start) = output at hskip
      -- a prefix of `k` bytes goes
      have hgone : ∀ {pre : Bytes} (k : Nat), 0 < k → k ≤ pre.length → startsWith rest pre = true →
          removeDots rest output = removeDots (rest.drop k) output → ∃ out' len',
            normalizeFrom start path n fuel out len (cursor + k) = .ok (out', len') ∧
            Compacted start (path + n) out (removeDots rest output) out' len' := by
        intro pre k hk hpre hstarts hremove
        have hlong : pre.length ≤ n - cursor := hlength ▸ (startsWith_iff.1 hstarts).length_le
        obtain ⟨out', len', hok, hcompacted⟩ := hskip k len hk (hpre.trans hlong) hlen le_rfl
        rw [houtput] at hcompacted
        exact ⟨out', len', hok, hremove ▸ hcompacted⟩
      -- the last segment of what was written goes
      have hd := lastIndex_le (b := 47) output
      have houtlen : output.length = len - start := by
        rw [← houtput]
        exact length_slice (by omega)
      have hdropped : slice out start (start + (lastIndexOfByte output 47).getD 0 - start) = dropSegment output := by
        rw [Nat.add_sub_cancel_left, dropSegment_eq, ← slice_take out start (houtlen ▸ hd), houtput]
      by_cases h1 : startsWith rest (ascii "../") = true
      · rw [if_pos h1]
        refine hgone 3 (by decide) (by decide) h1 ?_
        rw [startsWith_cases h1]
        exact Uri.removeDots_up _ output
      rw [if_neg h1]
      by_cases h2 : startsWith rest (ascii "./") = true
      · rw [if_pos h2]
        refine hgone 2 (by decide) (by decide) h2 ?_
        rw [startsWith_cases h2]
        exact Uri.removeDots_here _ output
      rw [if_neg h2]
      by_cases h3 : startsWith rest (ascii "/./") = true
      · rw [if_pos h3]
        refine hgone 2 (by decide) (by decide) h3 ?_
        rw [startsWith_cases h3]
        exact Uri.removeDots_slashHere _ output
      rw [if_neg h3]
      by_cases h4 : rest = ascii "/."
      · have hn : 2 = n - cursor := by
          rw [← hlength, h4]
          rfl
        have hremove : removeDots rest output = output ++ [47] := by
          rw [h4]
          exact (Uri.removeDots_lastHere output).trans (Uri.removeDots_slash output)
        rw [if_pos h4, appendSlice_ok (show len + 1 ≤ out.length by omega), hremove, ← houtput]
        exact ⟨_, _, rfl, compacted_put (v := [47]) hlen (show len + 1 ≤ path + n by omega) hroom⟩
      rw [if_neg h4]
      by_cases h5 : (startsWith rest (ascii "/../") || rest == ascii "/..") = true
      · rw [if_pos h5]
        generalize hlen1 : start + (lastIndexOfByte output 47).getD 0 = len1 at hdropped
        by_cases hthree : rest.length = 3
        · have hlast : rest = ascii "/.." := by
            rcases Bool.or_eq_true_iff.1 h5 with hup | hup
            · have hfour : 4 ≤ rest.length := (startsWith_iff.1 hup).length_le
              omega
            · exact beq_iff_eq.1 hup
          have hremove : removeDots rest output = dropSegment output ++ [47] := by
            rw [hlast]
            exact (Uri.removeDots_lastUp output).trans (Uri.removeDots_slash _)
          rw [if_pos hthree, appendSlice_ok (show len1 + 1 ≤ out.length by omega), hremove, ← hdropped]
          exact ⟨_, _, rfl, compacted_put (v := [47]) (by omega) (show len1 + 1 ≤ path + n by omega) hroom⟩
        · have hup : startsWith rest (ascii "/../") = true := by
            rcases Bool.or_eq_true_iff.1 h5 with hup | hup
            · exact hup
            · rw [beq_iff_eq.1 hup] at hthree
              exact absurd rfl hthree
          have hfour : 4 ≤ rest.length := (startsWith_iff.1 hup).length_le
          rw [if_neg hthree]
          obtain ⟨out', len', hok, hcompacted⟩ := hskip 3 len1 (by decide) (by omega) (by omega) (by omega)
          refine ⟨out', len', hok, ?_⟩
          have hremove : removeDots rest output = removeDots (rest.drop 3) (dropSegment output) := by
            rw [startsWith_cases hup]
            exact Uri.removeDots_slashUp _ output
          rw [hremove, ← hdropped]
          exact hcompacted
      rw [if_neg h5]
      by_cases h6 : rest = ascii "." ∨ rest = ascii ".."
      · rw [if_pos h6]
        have hremove : removeDots rest output = output := by
          rcases h6 with h6 | h6
          · rw [h6]
            exact Uri.removeDots_one output
          · rw [h6]
            exact Uri.removeDots_two output
        rw [hremove, ← houtput]
        exact ⟨out, len, rfl, .refl hlen (by omega)⟩
      rw [if_neg h6]
      have hne : rest ≠ [] := by
        intro hnil
        rw [hnil, List.length_nil] at hlength
        omega
      have hdots : NoDots rest :=
        ⟨h1, h2, h3, h4, fun h => h5 (Bool.or_eq_true_iff.2 (.inl h)),
          fun h => h5 (Bool.or_eq_true_iff.2 (.inr (beq_iff_eq.2 h))),
          fun h => h6 (.inl h), fun h => h6 (.inr h)⟩
      obtain ⟨hpos, hcount⟩ := segmentLength_le hne
      rw [hlength] at hcount
      have hfront := @removeDots_front rest output hdots hne
      generalize segmentLength rest = count at hpos hcount hfront
      rw [hdrop count, htake count hcount] at hfront
      have hpiece : (slice out (path + cursor) count).length = count := length_slice (by omega)
      have hmove := @compacted_put start (path + n) out (slice out (path + cursor) count) len hlen
        (show len + (slice out (path + cursor) count).length ≤ path + n by omega) hroom
      rw [hpiece, houtput] at hmove
      rw [appendOwn_ok hread (show path + cursor + count ≤ out.length by omega)]
      simp only [bind, Except.bind]
      obtain ⟨out', len', hok, hcompacted⟩ := normalizeFrom_spec fuel (put out len (slice out (path + cursor) count))
        (len + count) (cursor + count) (by omega) (by omega) (by omega) (by rw [length_put]; exact hroom) (by omega)
      rw [hmove.text, slice_put_off (.inr (by omega)), ← hfront] at hcompacted
      exact ⟨out', len', hok, hmove.trans hcompacted⟩
    · rw [if_neg hlt]
      have hnil : slice out (path + cursor) (n - cursor) = [] := by
        rw [show n - cursor = 0 by omega]
        exact List.take_zero
      rw [hnil, Uri.removeDots_nil]
      exact ⟨out, len, rfl, .refl hlen (by omega)⟩

/-- The loop of `normalizeFrom` over a copy of the path. -/
def normalizeApart (path : Bytes) (start : Nat) : Nat → Bytes → Nat → Nat → Web (Bytes × Nat)
  | 0, _, _, _ => .error .overflow
  | fuel + 1, out, len, cursor =>
    if cursor < path.length then
      let rest := path.drop cursor
      if startsWith rest (ascii "../") then normalizeApart path start fuel out len (cursor + 3)
      else if startsWith rest (ascii "./") then normalizeApart path start fuel out len (cursor + 2)
      else if startsWith rest (ascii "/./") then normalizeApart path start fuel out len (cursor + 2)
      else if rest = ascii "/." then appendSlice out len (ascii "/")
      else if startsWith rest (ascii "/../") || rest == ascii "/.." then
        let len := start + (lastIndexOfByte (slice out start (len - start)) 47).getD 0
        if rest.length = 3 then appendSlice out len (ascii "/")
        else normalizeApart path start fuel out len (cursor + 3)
      else if rest = ascii "." ∨ rest = ascii ".." then .ok (out, len)
      else do
        let count := segmentLength rest
        let (out, len) ← appendSlice out len (rest.take count)
        normalizeApart path start fuel out len (cursor + count)
    else .ok (out, len)

/-- **The loop never reads a byte that it has overwritten**: a copy of the path gives the same. -/
theorem normalizeFrom_apart {text : Bytes} (hn : text.length = n) : ∀ (fuel : Nat) (out : Bytes) (len cursor : Nat),
    start ≤ len → len ≤ path + cursor → path + n ≤ out.length → cursor ≤ n → slice out (path + cursor) (n - cursor)
    = text.drop cursor →
    normalizeFrom start path n fuel out len cursor = normalizeApart text start fuel out len cursor
  | 0, _, _, _, _, _, _, _, _ => rfl
  | fuel + 1, out, len, cursor, hlen, hread, hroom, hcursor, hrest => by
    have hskip : ∀ k len1, k ≤ n - cursor → start ≤ len1 → len1 ≤ len →
        normalizeFrom start path n fuel out len1 (cursor + k) = normalizeApart text start fuel out len1 (cursor + k) := by
      intro k len1 hk hle hless
      refine normalizeFrom_apart hn fuel out len1 (cursor + k) hle (by omega) hroom (by omega) ?_
      rw [← List.drop_drop, ← hrest, slice_drop, Nat.add_assoc, Nat.sub_sub]
    have hlength : (text.drop cursor).length = n - cursor := by rw [List.length_drop, hn]
    rw [normalizeFrom, normalizeApart, hn]
    by_cases hlt : cursor < n
    · rw [if_pos hlt, if_pos hlt]
      simp only
      rw [hrest]
      generalize htext : text.drop cursor = rest at hlength hrest
      by_cases h1 : startsWith rest (ascii "../") = true
      · have hlong : 3 ≤ rest.length := (startsWith_iff.1 h1).length_le
        rw [if_pos h1, if_pos h1, hskip 3 len (by omega) hlen le_rfl]
      rw [if_neg h1, if_neg h1]
      by_cases h2 : startsWith rest (ascii "./") = true
      · have hlong : 2 ≤ rest.length := (startsWith_iff.1 h2).length_le
        rw [if_pos h2, if_pos h2, hskip 2 len (by omega) hlen le_rfl]
      rw [if_neg h2, if_neg h2]
      by_cases h3 : startsWith rest (ascii "/./") = true
      · have hlong : 3 ≤ rest.length := (startsWith_iff.1 h3).length_le
        rw [if_pos h3, if_pos h3, hskip 2 len (by omega) hlen le_rfl]
      rw [if_neg h3, if_neg h3]
      by_cases h4 : rest = ascii "/."
      · rw [if_pos h4, if_pos h4]
      rw [if_neg h4, if_neg h4]
      by_cases h5 : (startsWith rest (ascii "/../") || rest == ascii "/..") = true
      · have hlong : 3 ≤ rest.length := by
          rcases Bool.or_eq_true_iff.1 h5 with hup | hup
          · exact (startsWith_iff.1 hup).length_le.trans' (by decide)
          · rw [beq_iff_eq.1 hup]
            decide
        have hd := lastIndex_le (b := 47) (slice out start (len - start))
        have hless := length_slice_le out start (len - start)
        rw [if_pos h5, if_pos h5, hskip 3 _ (by omega) (Nat.le_add_right _ _) (by omega)]
      rw [if_neg h5, if_neg h5]
      by_cases h6 : rest = ascii "." ∨ rest = ascii ".."
      · rw [if_pos h6, if_pos h6]
      rw [if_neg h6, if_neg h6]
      have hne : rest ≠ [] := by
        intro hnil
        rw [hnil, List.length_nil] at hlength
        omega
      have hcount := (segmentLength_le hne).2
      rw [hlength] at hcount
      generalize segmentLength rest = count at hcount
      have hpiece : slice out (path + cursor) count = rest.take count := by rw [← hrest, slice_take _ _ hcount]
      have hcopied : (rest.take count).length = count := by
        rw [List.length_take]
        omega
      rw [appendOwn_ok hread (show path + cursor + count ≤ out.length by omega), hpiece,
        appendSlice_ok (show len + (rest.take count).length ≤ out.length by omega), hcopied]
      simp only [bind, Except.bind]
      refine normalizeFrom_apart hn fuel _ (len + count) (cursor + count) (by omega) (by omega)
        (by rw [length_put]; exact hroom) (by omega) ?_
      rw [slice_put_off (.inr (by omega)), ← List.drop_drop, htext, ← hrest, slice_drop, Nat.add_assoc, Nat.sub_sub]
    · rw [if_neg hlt, if_neg hlt]

end InPlace

end WebUrl
end R4
