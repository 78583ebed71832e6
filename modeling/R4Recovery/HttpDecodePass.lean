import R4Recovery.HttpDecode
/-!
# HttpDecodePass — one pass over a chunk

What a pass gives, without the positions it remembers: the same on a longer input, and the same again when it has waited
for more.
-/
namespace R4
namespace Http
namespace ResponseDecoder

/-! ## Lines -/

/-- The end of the line at `cursor`, in its window. -/
def lineIn (input : Bytes) (cursor : Nat) : Option Nat :=
  (indexOf (slice input cursor (min input.length (cursor + maxHeaderBytes) - cursor)) crlf).map (cursor + ·)

section Lines

variable {p w : Bytes} {cursor stop : Nat}

theorem crlf_ne_nil : crlf ≠ [] := List.cons_ne_nil _ _

theorem lineIn_eq_some (hle : cursor ≤ stop) (hstop : stop + 2 ≤ min p.length (cursor + maxHeaderBytes))
    (ho : Occurs p crlf stop) (hmin : ∀ j, cursor ≤ j → j < stop → ¬ Occurs p crlf j) : lineIn p cursor = some stop := by
  have hfirst : indexOf (slice p cursor (min p.length (cursor + maxHeaderBytes) - cursor)) crlf = some (stop - cursor) := by
    refine indexOf_eq_some ((occurs_slice crlf_ne_nil).2 ⟨?_, ?_⟩) crlf_ne_nil fun j hj hwindow => ?_
    · rwa [Nat.add_sub_cancel' hle]
    · have htwo : crlf.length = 2 := rfl
      omega
    · exact hmin (cursor + j) (by omega) (by omega) ((occurs_slice crlf_ne_nil).1 hwindow).1
  rw [lineIn, hfirst, Option.map_some, Nat.add_sub_cancel' hle]

theorem lineIn_some (h : lineIn p cursor = some stop) : cursor ≤ stop ∧ stop + 2 ≤ min p.length (cursor + maxHeaderBytes) ∧
    Occurs p crlf stop ∧ ∀ j, cursor ≤ j → j < stop → ¬ Occurs p crlf j := by
  obtain ⟨i, hi, rfl⟩ := Option.map_eq_some_iff.1 h
  obtain ⟨ho, hmin⟩ := indexOf_some hi
  obtain ⟨ho, hle⟩ := (occurs_slice crlf_ne_nil).1 ho
  have htwo : crlf.length = 2 := rfl
  refine ⟨Nat.le_add_right _ _, by omega, ho, fun j hj hlt hj' => ?_⟩
  refine hmin (j - cursor) (by omega) ((occurs_slice crlf_ne_nil).2 ⟨?_, by omega⟩)
  rwa [Nat.add_sub_cancel' hj]

theorem lineIn_eq_none (h : ∀ j, cursor ≤ j → j + 2 ≤ min p.length (cursor + maxHeaderBytes) → ¬ Occurs p crlf j) :
    lineIn p cursor = none := by
  refine Option.map_eq_none_iff.2 (indexOf_eq_none fun j hj => ?_)
  obtain ⟨ho, hle⟩ := (occurs_slice crlf_ne_nil).1 hj
  have htwo : crlf.length = 2 := rfl
  exact h (cursor + j) (Nat.le_add_right _ _) (by omega) ho

theorem lineIn_none (h : lineIn p cursor = none) {j : Nat} (hj : cursor ≤ j)
    (hle : j + 2 ≤ min p.length (cursor + maxHeaderBytes)) : ¬ Occurs p crlf j := by
  intro ho
  refine indexOf_none (Option.map_eq_none_iff.1 h) crlf_ne_nil (j - cursor) ((occurs_slice crlf_ne_nil).2 ⟨?_, ?_⟩)
  · rwa [Nat.add_sub_cancel' hj]
  · have htwo : crlf.length = 2 := rfl
    omega

theorem lineIn_mono (hp : p <+: w) (h : lineIn p cursor = some stop) : lineIn w cursor = some stop := by
  obtain ⟨hle, hstop, ho, hmin⟩ := lineIn_some h
  have hlen := hp.length_le
  have htwo : crlf.length = 2 := rfl
  exact lineIn_eq_some hle (by omega) (ho.mono hp) fun j hj hlt hw => hmin j hj hlt (hw.of_le hp (by omega))

theorem lineIn_full (hp : p <+: w) (h : lineIn p cursor = none) (hfull : cursor + maxHeaderBytes ≤ p.length) :
    lineIn w cursor = none := by
  have htwo : crlf.length = 2 := rfl
  exact lineIn_eq_none fun j hj hle ho => lineIn_none h hj (by omega) (ho.of_le hp (by omega))

theorem lineIn_late (hp : p <+: w) (h : lineIn p cursor = none) (hw : lineIn w cursor = some stop) :
    p.length ≤ stop + 1 := by
  obtain ⟨hle, hstop, ho, -⟩ := lineIn_some hw
  have htwo : crlf.length = 2 := rfl
  by_contra hlt
  exact lineIn_none h hle (by omega) (ho.of_le hp (by omega))

end Lines

/-! ## What stands between the passes -/

/-- Nothing ends a line in front of the remembered position. -/
structure Scanned (s : ResponseDecoder) (p : Bytes) : Prop where
  within : s.lineScan ≤ min p.length (s.cursor + maxHeaderBytes)
  none : ∀ j, s.cursor ≤ j → j < s.lineScan → j + 2 ≤ p.length ∧ ¬ Occurs p crlf j

/-- The positions lie in the input and in the room of the caller. -/
structure Framed (s : ResponseDecoder) (p : Bytes) (room : Nat) : Prop where
  cursor : s.cursor ≤ p.length
  written : s.written ≤ room
  remaining : s.phase = .data → s.remaining ≤ room - s.written
  trailer : s.phase = .trailers → s.trailerStart ≤ s.cursor
  scanned : Scanned s p

/-- The buffer keeps its length, and what is written is counted. -/
structure Writes (s : ResponseDecoder) (out : Bytes) (s' : ResponseDecoder) (out' : Bytes) : Prop where
  length : out'.length = out.length
  le : s.written ≤ s'.written
  copied : s'.copiedBytes = s.copiedBytes + (s'.written - s.written)

/-- What no pass changes. -/
structure Same (s s' : ResponseDecoder) : Prop where
  method : s'.method = s.method
  head : s'.head = s.head
  cancelled : s'.cancelled = s.cancelled
  seenInput : s'.seenInput = s.seenInput
  failure : s'.failure = s.failure
  done : s'.done = s.done

/-- From one state between the passes to the next. -/
structure Kept (s : ResponseDecoder) (input out : Bytes) (s' : ResponseDecoder) (out' : Bytes) : Prop where
  framed : Framed s' input out'.length
  writes : Writes s out s' out'
  same : Same s s'

/-- How a call ends in the state it has reached. -/
inductive Ends (s : ResponseDecoder) (out : Bytes) : Outcome → Prop where
  | fail (e : ResponseError) : Ends s out (s.fail e out)
  | wait : Ends s out ⟨.needMore, s, out⟩
  | done {o : Outcome} : ({ s with done := true } : ResponseDecoder).result out = .ok o → Ends s out o

inductive PassSpec (s : ResponseDecoder) (input out : Bytes) : Pass → Prop where
  | again {s' : ResponseDecoder} {out' : Bytes} : Kept s input out s' out' → PassSpec s input out (.again s' out')
  | ended {s' : ResponseDecoder} {out' : Bytes} {o : Outcome} : Kept s input out s' out' → Ends s' out' o →
      PassSpec s input out (.ended o)

section Between

variable {s s' s'' : ResponseDecoder} {input out out' out'' p w v u : Bytes} {eof : Bool} {n room : Nat}

theorem Scanned.mono (h : Scanned s p) (hp : p <+: w) : Scanned s w := by
  have hlen := hp.length_le
  refine ⟨h.within.trans (by omega), fun j hj hlt => ?_⟩
  obtain ⟨hle, hno⟩ := h.none j hj hlt
  exact ⟨by omega, fun ho => hno (ho.of_le hp hle)⟩

theorem Scanned.start (h : s.lineScan = 0) : Scanned s p := by
  refine ⟨by omega, fun j _ hlt => absurd hlt (by omega)⟩

theorem Framed.mono (h : Framed s p room) (hp : p <+: w) : Framed s w room :=
  ⟨h.cursor.trans hp.length_le, h.written, h.remaining, h.trailer, h.scanned.mono hp⟩

theorem Writes.none (hwritten : s'.written = s.written) (hcopied : s'.copiedBytes = s.copiedBytes) : Writes s out s' out :=
  ⟨rfl, hwritten.ge, by rw [hcopied, hwritten, Nat.sub_self, Nat.add_zero]⟩

theorem Writes.refl (s : ResponseDecoder) (out : Bytes) : Writes s out s out := .none rfl rfl

theorem Writes.trans (h : Writes s out s' out') (h' : Writes s' out' s'' out'') : Writes s out s'' out'' := by
  refine ⟨h'.length.trans h.length, h.le.trans h'.le, ?_⟩
  have := h.copied
  have := h'.copied
  have := h.le
  have := h'.le
  omega

theorem Same.refl (s : ResponseDecoder) : Same s s := ⟨rfl, rfl, rfl, rfl, rfl, rfl⟩

theorem Same.trans (h : Same s s') (h' : Same s' s'') : Same s s'' :=
  ⟨h'.method.trans h.method, h'.head.trans h.head, h'.cancelled.trans h.cancelled, h'.seenInput.trans h.seenInput,
    h'.failure.trans h.failure, h'.done.trans h.done⟩

theorem Kept.trans (h : Kept s input out s' out') (h' : Kept s' input out' s'' out'') : Kept s input out s'' out'' :=
  ⟨h'.framed, h.writes.trans h'.writes, h.same.trans h'.same⟩

/-! ## Copies -/

/-- The state behind a copy. -/
def took (s : ResponseDecoder) (n : Nat) : ResponseDecoder :=
  { s with cursor := s.cursor + n, written := s.written + n, copiedBytes := s.copiedBytes + n }

theorem copy_eq (hin : s.cursor + n ≤ input.length) (hout : s.written + n ≤ out.length) :
    s.copy input out n = .ok (s.took n, put out s.written (slice input s.cursor n)) := by
  unfold copy
  rw [sub_ok (Nat.le_add_right _ _) hin]
  simp only [bind, Except.bind]
  rw [if_pos hout, Nat.add_sub_cancel_left]
  rfl

theorem put_put : put (put out n u) (n + u.length) v = put out n (u ++ v) := by
  refine List.ext_getElem? fun i => ?_
  rw [getElem?_put, getElem?_put, getElem?_put, Option.map_map]
  congr 1
  funext c
  simp only [Function.comp_apply]
  by_cases hu : n + u.length ≤ i
  · rw [if_pos hu, if_pos (by omega), if_pos (by omega), List.getElem?_append_right (by omega),
      List.getElem?_eq_none (show u.length ≤ i - n by omega), Nat.sub_sub]
    rfl
  · rw [if_neg hu]
    by_cases hn : n ≤ i
    · rw [if_pos hn, if_pos hn, List.getElem?_append_left (by omega)]
    · rw [if_neg hn, if_neg hn]

theorem writes_took : Writes s out (s.took n) (put out s.written v) :=
  ⟨length_put _ _ _, Nat.le_add_right _ _, congrArg _ (Nat.add_sub_cancel_left _ _).symm⟩

end Between

/-! ## The passes, one by one -/

/-- The state that waits for the end of a line. -/
def waited (s : ResponseDecoder) (input : Bytes) : ResponseDecoder :=
  { s with lineScan := max s.cursor (min input.length (s.cursor + maxHeaderBytes) - 1) }

@[simp] theorem waited_cursor (s : ResponseDecoder) (input : Bytes) : (s.waited input).cursor = s.cursor := rfl

@[simp] theorem waited_trailerStart (s : ResponseDecoder) (input : Bytes) :
    (s.waited input).trailerStart = s.trailerStart := rfl

/-- The state behind a line. -/
def passed (s : ResponseDecoder) (stop : Nat) : ResponseDecoder := { s with cursor := stop + 2, lineScan := 0 }

/-- The state behind the line with the size `n`. -/
def opened (s : ResponseDecoder) (n stop : Nat) : ResponseDecoder :=
  { s.passed stop with
    remaining := n
    phase := if n = 0 then .trailers else .data
    trailerStart := if n = 0 then stop + 2 else s.trailerStart }

section Passes

variable {s s' : ResponseDecoder} {input out out' : Bytes} {eof : Bool} {stop n : Nat}

theorem lineEnd_found (h : Framed s input n) (hline : lineIn input s.cursor = some stop) :
    s.lineEnd input = .ok (some stop, s) := by
  obtain ⟨hle, hstop, ho, hmin⟩ := lineIn_some hline
  have hstart : max s.cursor s.lineScan ≤ stop := by
    by_contra hlt
    have hnone := (h.scanned.none stop hle (by omega)).2
    exact hnone ho
  have htwo : crlf.length = 2 := rfl
  have hfirst : indexOf (slice input (max s.cursor s.lineScan)
      (min input.length (s.cursor + maxHeaderBytes) - max s.cursor s.lineScan))
      crlf = some (stop - max s.cursor s.lineScan) := by
    refine indexOf_eq_some ((occurs_slice crlf_ne_nil).2 ⟨?_, by omega⟩) crlf_ne_nil fun j hj hwindow => ?_
    · rwa [Nat.add_sub_cancel' hstart]
    · exact hmin (max s.cursor s.lineScan + j) (by omega) (by omega) ((occurs_slice crlf_ne_nil).1 hwindow).1
  unfold lineEnd
  simp only
  rw [sub_ok (by omega) (by omega)]
  simp only [bind, Except.bind]
  rw [hfirst]
  simp only
  rw [Nat.add_sub_cancel' hstart]

theorem lineEnd_missing (h : Framed s input n) (hline : lineIn input s.cursor = none) :
    s.lineEnd input = .ok (none, s.waited input) := by
  have hcursor := h.cursor
  have hwithin := h.scanned.within
  have htwo : crlf.length = 2 := rfl
  have hnone : indexOf (slice input (max s.cursor s.lineScan)
      (min input.length (s.cursor + maxHeaderBytes) - max s.cursor s.lineScan)) crlf = none := by
    refine indexOf_eq_none fun j hj => ?_
    obtain ⟨ho, hle⟩ := (occurs_slice crlf_ne_nil).1 hj
    exact lineIn_none hline (by omega) (by omega) ho
  unfold lineEnd
  simp only
  rw [sub_ok (by omega) (by omega)]
  simp only [bind, Except.bind]
  rw [hnone]
  rfl

theorem framed_waited (h : Framed s input n) (hline : lineIn input s.cursor = none) : Framed (s.waited input) input n := by
  have hcursor := h.cursor
  refine ⟨h.cursor, h.written, h.remaining, h.trailer, ?_, fun j hj hlt => ?_⟩
  · simp only [waited]
    omega
  · simp only [waited] at hj hlt
    exact ⟨by omega, lineIn_none hline hj (by omega)⟩

theorem kept_waited (h : Framed s input out.length) (hline : lineIn input s.cursor = none) :
    Kept s input out (s.waited input) out :=
  ⟨framed_waited h hline, .none rfl rfl, ⟨rfl, rfl, rfl, rfl, rfl, rfl⟩⟩

theorem sizePass_found (h : Framed s input out.length) (hline : lineIn input s.cursor = some stop) :
    s.sizePass input out eof = .ok (match chunkSize (slice input s.cursor (stop - s.cursor)) with
      | none => .ended (s.fail .malformedChunk out)
      | some n => if n > out.length - s.written then .ended (({ s with remaining := n } :
          ResponseDecoder).fail .bodyTooLarge out)
          else .again (s.opened n stop) out) := by
  obtain ⟨hle, hstop, -, -⟩ := lineIn_some hline
  unfold sizePass
  rw [lineEnd_found h hline]
  simp only [bind, Except.bind]
  rw [minus_ok hle]
  simp only
  rw [if_neg (by omega), sub_ok hle (by omega)]
  simp only
  cases chunkSize (slice input s.cursor (stop - s.cursor)) with
  | none => rfl
  | some n =>
    simp only
    rw [minus_ok h.written]
    simp only
    split <;> rfl

theorem sizePass_missing (h : Framed s input out.length) (hline : lineIn input s.cursor = none) :
    s.sizePass input out eof = .ok (.ended (if input.length - s.cursor ≥ maxHeaderBytes then
      (s.waited input).fail .malformedChunk out else (s.waited input).more eof out)) := by
  unfold sizePass
  rw [lineEnd_missing h hline]
  simp only [bind, Except.bind]
  rw [waited_cursor, minus_ok h.cursor]
  simp only
  by_cases hlong : input.length - s.cursor ≥ maxHeaderBytes
  · rw [if_pos hlong, if_pos hlong]
  · rw [if_neg hlong, if_neg hlong]

theorem dataPass_eq (h : Framed s input out.length) (hphase : s.phase = .data) :
    s.dataPass input out eof = .ok (
      let take := min (input.length - s.cursor) s.remaining
      let next := { s.took take with remaining := s.remaining - take }
      let filled := put out s.written (slice input s.cursor take)
      if s.remaining - take ≠ 0 then .ended (next.more eof filled) else .again { next with phase := .dataCrlf } filled) := by
  have hcursor := h.cursor
  have hremaining := h.remaining hphase
  have hwritten := h.written
  unfold dataPass
  rw [minus_ok h.cursor]
  simp only [bind, Except.bind]
  rw [copy_eq (by omega) (by omega)]
  simp only
  rw [show (s.took (min (input.length - s.cursor) s.remaining)).remaining = s.remaining from rfl, minus_ok (by omega)]
  simp only
  split <;> rfl

theorem crlfPass_short (h : Framed s input out.length) (hshort : input.length - s.cursor < 2) :
    s.crlfPass input out eof = .ok (.ended (s.more eof out)) := by
  unfold crlfPass
  rw [minus_ok h.cursor]
  simp only [bind, Except.bind]
  rw [if_pos hshort]

theorem crlfPass_eq (h : s.cursor + 2 ≤ input.length) : s.crlfPass input out eof = .ok (
    if slice input s.cursor 2 ≠ crlf then .ended (s.fail .malformedChunk out)
    else .again { s with cursor := s.cursor + 2, phase := .size } out) := by
  unfold crlfPass
  rw [minus_ok (by omega)]
  simp only [bind, Except.bind]
  rw [if_neg (by omega), sub_ok (Nat.le_add_right _ _) h, Nat.add_sub_cancel_left]
  simp only
  split <;> rfl

theorem trailerError_ok (line : Bytes) : ∃ e, trailerError line = .ok e := by
  unfold trailerError
  split
  · exact ⟨_, rfl⟩
  · rename_i colon hcolon
    have hlt : colon < line.length := (List.idxOf?_eq_some_iff.1 hcolon).1
    rw [sub_ok (Nat.zero_le _) (by omega), sub_ok (by omega) (Nat.le_refl _)]
    simp only [bind, Except.bind]
    split <;> exact ⟨_, rfl⟩

theorem result_ok (hhead : s.head ≠ none) (hwritten : s.written ≤ out.length) : ∃ o, s.result out = .ok o := by
  unfold result
  cases hs : s.head with
  | none => exact absurd hs hhead
  | some head =>
    simp only
    rw [sub_ok (Nat.zero_le _) hwritten]
    exact ⟨_, rfl⟩

theorem trailerPass_missing (h : Framed s input out.length) (hphase : s.phase = .trailers)
    (hline : lineIn input s.cursor = none) :
    s.trailerPass input out eof = .ok (.ended (if input.length - s.trailerStart ≥ maxHeaderBytes then
      (s.waited input).fail .headerTooLarge out else (s.waited input).more eof out)) := by
  have hcursor := h.cursor
  have htrailer := h.trailer hphase
  unfold trailerPass
  rw [lineEnd_missing h hline]
  simp only [bind, Except.bind]
  rw [waited_trailerStart, minus_ok (htrailer.trans hcursor)]
  simp only
  by_cases hlong : input.length - s.trailerStart ≥ maxHeaderBytes
  · rw [if_pos hlong, if_pos hlong]
  · rw [if_neg hlong, if_neg hlong]

/-- What a trailer that lies in the limit gives. -/
def trailed (s : ResponseDecoder) (line out : Bytes) : Access Pass :=
  if line.length = 0 then do
    let outcome ← ({ s with done := true } : ResponseDecoder).result out
    .ok (.ended outcome)
  else if s.trailerCount + 1 > maxHeaderCount then
    .ok (.ended (({ s with trailerCount := s.trailerCount + 1 } : ResponseDecoder).fail .tooManyHeaders out))
  else match trailerError line with
  | .ok (some e) => .ok (.ended (({ s with trailerCount := s.trailerCount + 1 } : ResponseDecoder).fail e out))
  | .ok none => .ok (.again { s with trailerCount := s.trailerCount + 1 } out)
  | .error e => .error e

theorem trailerPass_found (h : Framed s input out.length) (hphase : s.phase = .trailers)
    (hline : lineIn input s.cursor = some stop) : s.trailerPass input out eof =
      if stop + 2 - s.trailerStart > maxHeaderBytes then .ok (.ended (s.fail .headerTooLarge out))
      else (s.passed stop).trailed (slice input s.cursor (stop - s.cursor)) out := by
  have htrailer := h.trailer hphase
  obtain ⟨hle, hstop, -, -⟩ := lineIn_some hline
  unfold trailerPass
  rw [lineEnd_found h hline]
  simp only [bind, Except.bind]
  rw [minus_ok (by omega)]
  simp only
  by_cases hlong : stop + 2 - s.trailerStart > maxHeaderBytes
  · rw [if_pos hlong, if_pos hlong]
  · rw [if_neg hlong, if_neg hlong, sub_ok hle (by omega)]
    simp only
    unfold trailed
    by_cases hempty : (slice input s.cursor (stop - s.cursor)).length = 0
    · rw [if_pos hempty, if_pos hempty]
      rfl
    · rw [if_neg hempty, if_neg hempty]
      by_cases hmany : s.trailerCount + 1 > maxHeaderCount
      · exact (if_pos hmany).trans (if_pos hmany).symm
      · obtain ⟨e, he⟩ := trailerError_ok (slice input s.cursor (stop - s.cursor))
        refine (if_neg hmany).trans (Eq.trans ?_ (if_neg hmany).symm)
        rw [he]
        cases e <;> rfl

end Passes

/-! ## What a pass keeps -/

section Spec

variable {s s' t : ResponseDecoder} {input out out' : Bytes} {eof : Bool} {stop n m : Nat}

theorem Scanned.later (h : Scanned s input) (hcursor : s.cursor ≤ s'.cursor) (hline : s'.lineScan = s.lineScan) :
    Scanned s' input := by
  have hwithin := h.within
  rw [← hline] at hwithin
  exact ⟨by omega, fun j hj hlt => h.none j (hcursor.trans hj) (hline ▸ hlt)⟩

theorem ends_more (s : ResponseDecoder) (out : Bytes) (eof : Bool) : Ends s out (s.more eof out) := by
  cases eof with
  | false => exact .wait
  | true => exact .fail _

theorem Kept.refl (h : Framed s input out.length) : Kept s input out s out := ⟨h, .refl s out, .refl s⟩

/-- **A copy inside of the bounds**, with `m` bytes of the chunk missing behind it. -/
theorem kept_took (h : Framed s input out.length) (hin : s.cursor + n ≤ input.length) (hout : s.written + n ≤ out.length)
    (hm : s.phase = .data → m ≤ out.length - (s.written + n)) :
    Kept s input out { s.took n with remaining := m } (put out s.written (slice input s.cursor n)) := by
  have hroom : (put out s.written (slice input s.cursor n)).length = out.length := length_put _ _ _
  have hwrites := @writes_took s out (slice input s.cursor n) n
  refine ⟨⟨hin, by rw [hroom]; exact hout, by rw [hroom]; exact hm, fun hphase => ?_, ?_⟩,
    ⟨hwrites.length, hwrites.le, hwrites.copied⟩, ⟨rfl, rfl, rfl, rfl, rfl, rfl⟩⟩
  · exact (h.trailer hphase).trans (Nat.le_add_right _ _)
  · exact h.scanned.later (Nat.le_add_right _ _) rfl

theorem sizePass_spec (h : Framed s input out.length) (hphase : s.phase = .size) :
    ∃ P, s.sizePass input out eof = .ok P ∧ PassSpec s input out P := by
  have hdata : s.phase ≠ .data := by
    rw [hphase]
    exact nofun
  have htrailers : s.phase ≠ .trailers := by
    rw [hphase]
    exact nofun
  cases hline : lineIn input s.cursor with
  | none =>
    refine ⟨_, sizePass_missing h hline, ?_⟩
    split
    · exact .ended (kept_waited h hline) (.fail _)
    · exact .ended (kept_waited h hline) (ends_more _ _ _)
  | some stop =>
    obtain ⟨hle, hstop, -, -⟩ := lineIn_some hline
    refine ⟨_, sizePass_found h hline, ?_⟩
    cases hsize : chunkSize (slice input s.cursor (stop - s.cursor)) with
    | none => exact .ended (.refl h) (.fail _)
    | some n =>
      simp only
      by_cases hbig : n > out.length - s.written
      · rw [if_pos hbig]
        have hkept : Kept s input out { s with remaining := n } out :=
          ⟨⟨h.cursor, h.written, fun hd => absurd hd hdata, fun ht => absurd ht htrailers, h.scanned.later le_rfl rfl⟩,
            .none rfl rfl, ⟨rfl, rfl, rfl, rfl, rfl, rfl⟩⟩
        exact .ended hkept (.fail _)
      · rw [if_neg hbig]
        refine .again ⟨⟨?_, h.written, fun _ => Nat.le_of_not_lt hbig, fun ht => ?_, .start rfl⟩, .none rfl rfl,
          ⟨rfl, rfl, rfl, rfl, rfl, rfl⟩⟩
        · exact hstop.trans (Nat.min_le_left _ _)
        · simp only [opened] at ht ⊢
          by_cases hn : n = 0
          · rw [if_pos hn]
            exact le_rfl
          · rw [if_neg hn] at ht
            cases ht

theorem dataPass_spec (h : Framed s input out.length) (hphase : s.phase = .data) :
    ∃ P, s.dataPass input out eof = .ok P ∧ PassSpec s input out P := by
  have hcursor := h.cursor
  have hremaining := h.remaining hphase
  have hwritten := h.written
  refine ⟨_, dataPass_eq h hphase, ?_⟩
  simp only
  generalize htake : min (input.length - s.cursor) s.remaining = take
  have hkept := kept_took (m := s.remaining - take) h (n := take) (by omega) (by omega) fun _ => by omega
  split
  · exact .ended hkept (ends_more _ _ _)
  · refine .again ⟨⟨hkept.framed.cursor, hkept.framed.written, nofun, nofun, hkept.framed.scanned.later le_rfl rfl⟩,
      ⟨hkept.writes.length, hkept.writes.le, hkept.writes.copied⟩,
      ⟨rfl, rfl, rfl, rfl, rfl, rfl⟩⟩

theorem crlfPass_spec (h : Framed s input out.length) :
    ∃ P, s.crlfPass input out eof = .ok P ∧ PassSpec s input out P := by
  have hcursor := h.cursor
  by_cases hshort : input.length - s.cursor < 2
  · exact ⟨_, crlfPass_short h hshort, .ended (.refl h) (ends_more _ _ _)⟩
  · have htwo : s.cursor + 2 ≤ input.length := by omega
    refine ⟨_, crlfPass_eq htwo, ?_⟩
    split
    · exact .ended (.refl h) (.fail _)
    · exact .again ⟨⟨htwo, h.written, nofun, nofun, h.scanned.later (Nat.le_add_right _ _) rfl⟩, .none rfl rfl,
        ⟨rfl, rfl, rfl, rfl, rfl, rfl⟩⟩

theorem trailerPass_spec (h : Framed s input out.length) (hphase : s.phase = .trailers) (hhead : s.head ≠ none) :
    ∃ P, s.trailerPass input out eof = .ok P ∧ PassSpec s input out P := by
  have hdata : s.phase ≠ .data := by
    rw [hphase]
    exact nofun
  cases hline : lineIn input s.cursor with
  | none =>
    refine ⟨_, trailerPass_missing h hphase hline, ?_⟩
    split
    · exact .ended (kept_waited h hline) (.fail _)
    · exact .ended (kept_waited h hline) (ends_more _ _ _)
  | some stop =>
    obtain ⟨hle, hstop, -, -⟩ := lineIn_some hline
    have htrailer := h.trailer hphase
    rw [trailerPass_found h hphase hline]
    by_cases hlong : stop + 2 - s.trailerStart > maxHeaderBytes
    · rw [if_pos hlong]
      exact ⟨_, rfl, .ended (.refl h) (.fail _)⟩
    · rw [if_neg hlong]
      have hkept : ∀ count, Kept s input out { s.passed stop with trailerCount := count } out := fun count =>
        ⟨⟨hstop.trans (Nat.min_le_left _ _), h.written, fun hd => absurd hd hdata,
          fun _ => htrailer.trans (hle.trans (Nat.le_add_right _ _)), .start rfl⟩, .none rfl rfl,
          ⟨rfl, rfl, rfl, rfl, rfl, rfl⟩⟩
      unfold trailed
      by_cases hempty : (slice input s.cursor (stop - s.cursor)).length = 0
      · rw [if_pos hempty]
        obtain ⟨o, ho⟩ := result_ok (s := { s.passed stop with done := true }) hhead h.written
        rw [ho]
        exact ⟨_, rfl, .ended (hkept s.trailerCount) (.done ho)⟩
      · rw [if_neg hempty]
        by_cases hmany : (s.passed stop).trailerCount + 1 > maxHeaderCount
        · rw [if_pos hmany]
          exact ⟨_, rfl, .ended (hkept _) (.fail _)⟩
        · rw [if_neg hmany]
          obtain ⟨e, he⟩ := trailerError_ok (slice input s.cursor (stop - s.cursor))
          rw [he]
          cases e with
          | none => exact ⟨_, rfl, .again (hkept _)⟩
          | some e => exact ⟨_, rfl, .ended (hkept _) (.fail _)⟩

/-- **No pass leaves its input or the buffer of the caller.** -/
theorem pass_spec (h : Framed s input out.length) (hhead : s.head ≠ none) (eof : Bool) :
    ∃ P, s.pass input out eof = .ok P ∧ PassSpec s input out P := by
  unfold pass
  cases hphase : s.phase with
  | size => exact sizePass_spec h hphase
  | data => exact dataPass_spec h hphase
  | dataCrlf => exact crlfPass_spec h
  | trailers => exact trailerPass_spec h hphase hhead

end Spec

end ResponseDecoder
end Http
end R4
