import R4Recovery.HttpDecodeChunks
/-!
# HttpDecodeCut — a response does not depend on where its bytes were cut

A call that waits and is continued gives what the longer input gives at once; so the last of several calls gives what one
call gives (`decode_agrees`).
-/
namespace R4
namespace Http
namespace ResponseDecoder

/-! ## The body -/

/-- The state behind the head. -/
structure Headed (s : ResponseDecoder) (head : ParsedHead) (p : Bytes) (room : Nat) : Prop where
  known : s.head = some head
  framed : Framed s p room
  plain : head.transfer ≠ .chunked → s.phase = .size
  sized : head.transfer = .contentLength → s.written ≤ head.contentLength

section Body

variable {s s' t : ResponseDecoder} {head : ParsedHead} {input q w out out' : Bytes} {eof : Bool} {o o' : Outcome}
    {n room : Nat}

theorem Headed.mono (h : Headed s head q room) (hp : q <+: w) : Headed s head w room :=
  ⟨h.known, h.framed.mono hp, h.plain, h.sized⟩

theorem Headed.some (h : Headed s head q room) : s.head ≠ none := by
  rw [h.known]
  exact Option.some_ne_none _

/-- What is kept behind the head. -/
structure Stays (s : ResponseDecoder) (head : ParsedHead) (input out : Bytes) (s' : ResponseDecoder) (out' : Bytes) :
    Prop where
  headed : Headed s' head input out'.length
  writes : Writes s out s' out'
  same : Same s s'

theorem Stays.refl (h : Headed s head input out.length) : Stays s head input out s out := ⟨h, .refl s out, .refl s⟩

theorem stays_took (h : Headed s head input out.length) (hplain : head.transfer ≠ .chunked)
    (hin : s.cursor + n ≤ input.length)
    (hout : s.written + n ≤ out.length) (hsized : head.transfer = .contentLength → s.written + n ≤ head.contentLength) :
    Stays s head input out (s.took n) (put out s.written (slice input s.cursor n)) := by
  have hphase := h.plain hplain
  have hkept : Kept s input out (s.took n) (put out s.written (slice input s.cursor n)) :=
    kept_took (m := s.remaining) h.framed hin hout fun hdata => by
      rw [hphase] at hdata
      cases hdata
  exact ⟨⟨h.known, hkept.framed, h.plain, hsized⟩, hkept.writes, hkept.same⟩

theorem done_ok (h : Headed s head input out.length) :
    ∃ o, ({ s with done := true } : ResponseDecoder).result out = .ok o :=
  result_ok (s := { s with done := true }) h.some h.framed.written

theorem body_length (h : Headed s head input out.length) (hno : noBody s.method head = false)
    (hlength : head.transfer = .contentLength) (hfit : head.contentLength ≤ out.length) : s.body head input out eof =
      let take := min (input.length - s.cursor) (head.contentLength - s.written)
      let filled := put out s.written (slice input s.cursor take)
      if s.written + take ≠ head.contentLength then .ok ((s.took take).more eof filled)
      else ({ s.took take with done := true } : ResponseDecoder).result filled := by
  have hsized := h.sized hlength
  have hcursor := h.framed.cursor
  unfold body
  rw [hno, hlength, if_neg (by decide)]
  simp only
  rw [if_neg (Nat.not_lt.2 hfit), minus_ok h.framed.cursor]
  simp only [bind, Except.bind]
  rw [minus_ok hsized]
  simp only
  rw [copy_eq (by omega) (by omega)]
  rfl

theorem body_close (h : Headed s head input out.length) (hno : noBody s.method head = false)
    (hclose : head.transfer = .closeDelimited) : s.body head input out eof =
      let take := input.length - s.cursor
      let filled := put out s.written (slice input s.cursor take)
      if take > out.length - s.written then .ok (s.fail .bodyTooLarge out)
      else if !eof then .ok ⟨.needMore, s.took take, filled⟩
      else ({ s.took take with done := true } : ResponseDecoder).result filled := by
  have hwritten := h.framed.written
  have hcursor := h.framed.cursor
  unfold body
  rw [hno, hclose, if_neg (by decide)]
  simp only
  rw [minus_ok h.framed.cursor]
  simp only [bind, Except.bind]
  rw [minus_ok h.framed.written]
  simp only
  by_cases hbig : input.length - s.cursor > out.length - s.written
  · rw [if_pos hbig, if_pos hbig]
  · rw [if_neg hbig, if_neg hbig, copy_eq (by omega) (by omega)]

theorem body_chunked (hno : noBody s.method head = false) (hchunked : head.transfer = .chunked) :
    s.body head input out eof = s.chunks input out eof := by
  unfold body
  rw [hno, hchunked]
  rfl

theorem body_none (hno : (noBody s.method head || head.transfer == .none) = true) :
    s.body head input out eof = ({ s with done := true } : ResponseDecoder).result out := by
  unfold body
  rw [if_pos hno]

/-- **The body stays in its bounds.** -/
theorem body_spec (h : Headed s head input out.length) (eof : Bool) :
    ∃ o s' out', s.body head input out eof = .ok o ∧ Stays s head input out s' out' ∧ Ends s' out' o := by
  have hcursor := h.framed.cursor
  have hwritten := h.framed.written
  by_cases hnone : (noBody s.method head || head.transfer == .none) = true
  · obtain ⟨o, ho⟩ := done_ok h
    exact ⟨o, s, out, (body_none hnone).trans ho, .refl h, .done ho⟩
  · obtain ⟨hno, htransfer⟩ := Bool.or_eq_false_iff.1 (Bool.eq_false_iff.2 hnone)
    cases hkind : head.transfer with
    | none =>
      rw [hkind] at htransfer
      cases htransfer
    | contentLength =>
      have hsized := h.sized hkind
      by_cases hfit : head.contentLength ≤ out.length
      · rw [body_length h hno hkind hfit]
        simp only
        generalize htake : min (input.length - s.cursor) (head.contentLength - s.written) = take
        have hstays : Stays s head input out (s.took take) (put out s.written (slice input s.cursor take)) := by
          refine stays_took h ?_ (by omega) (by omega) fun _ => by omega
          rw [hkind]
          decide
        split
        · exact ⟨_, _, _, rfl, hstays, ends_more _ _ _⟩
        · obtain ⟨o, ho⟩ := done_ok hstays.headed
          exact ⟨o, _, _, ho, hstays, .done ho⟩
      · refine ⟨s.fail .bodyTooLarge out, s, out, ?_, .refl h, .fail _⟩
        unfold body
        rw [if_neg hnone, hkind]
        simp only
        rw [if_pos (Nat.lt_of_not_le hfit)]
    | closeDelimited =>
      rw [body_close h hno hkind]
      simp only
      split
      · exact ⟨_, _, _, rfl, .refl h, .fail _⟩
      · have hstays : Stays s head input out (s.took (input.length - s.cursor))
            (put out s.written (slice input s.cursor (input.length - s.cursor))) := by
          refine stays_took h ?_ (by omega) (by omega) fun hlength => ?_
          · rw [hkind]
            decide
          · rw [hkind] at hlength
            cases hlength
        split
        · exact ⟨_, _, _, rfl, hstays, .wait⟩
        · obtain ⟨o, ho⟩ := done_ok hstays.headed
          exact ⟨o, _, _, ho, hstays, .done ho⟩
    | chunked =>
      obtain ⟨o, s', out', ho, hkept, hends⟩ := chunks_spec h.framed h.some eof
      refine ⟨o, s', out', (body_chunked hno hkind).trans ho, ⟨⟨?_, hkept.framed, ?_, ?_⟩, hkept.writes, hkept.same⟩, hends⟩
      · rw [hkept.same.head, h.known]
      · exact fun hplain => absurd hkind hplain
      · intro hlength
        rw [hkind] at hlength
        cases hlength

theorem body_large (hno : noBody s.method head = false) (hlength : head.transfer = .contentLength)
    (hbig : out.length < head.contentLength) : s.body head input out eof = .ok (s.fail .bodyTooLarge out) := by
  unfold body
  rw [hno, hlength, if_neg (by decide)]
  simp only
  rw [if_pos hbig]

/-- **What is remembered does not change the body.** -/
theorem body_alike (halike : Alike s t) (hs : Headed s head input out.length) (ht : Headed t head input out.length)
    (ho : s.body head input out eof = .ok o) (ho' : t.body head input out eof = .ok o') : o.result = o'.result := by
  by_cases hnone : (noBody s.method head || head.transfer == .none) = true
  · obtain ⟨seen, header, line, copied, rfl⟩ := halike
    rw [body_none hnone] at ho
    rw [body_none (s := { s with seenInput := seen, headerScan := header, lineScan := line, copiedBytes := copied })
      hnone] at ho'
    exact result_alike ⟨seen, header, line, copied, rfl⟩ ho ho'
  · obtain ⟨hno, htransfer⟩ := Bool.or_eq_false_iff.1 (Bool.eq_false_iff.2 hnone)
    cases hkind : head.transfer with
    | none =>
      rw [hkind] at htransfer
      cases htransfer
    | contentLength =>
      obtain ⟨seen, header, line, copied, rfl⟩ := halike
      by_cases hfit : head.contentLength ≤ out.length
      · rw [body_length hs hno hkind hfit] at ho
        rw [body_length ht hno hkind hfit] at ho'
        simp only at ho ho'
        split at ho
        · rw [if_pos ‹_›] at ho'
          cases ho
          cases ho'
          exact more_alike _ _ _ _ _
        · rw [if_neg ‹_›] at ho'
          exact result_alike ⟨seen, header, line, _, rfl⟩ ho ho'
      · rw [body_large hno hkind (Nat.lt_of_not_le hfit)] at ho
        rw [body_large (s := { s with seenInput := seen, headerScan := header, lineScan := line, copiedBytes :=
          copied }) hno hkind
          (Nat.lt_of_not_le hfit)] at ho'
        cases ho
        cases ho'
        rfl
    | closeDelimited =>
      obtain ⟨seen, header, line, copied, rfl⟩ := halike
      rw [body_close hs hno hkind] at ho
      rw [body_close ht hno hkind] at ho'
      simp only at ho ho'
      by_cases hbig : input.length - s.cursor > out.length - s.written
      · rw [if_pos hbig] at ho ho'
        cases ho
        cases ho'
        rfl
      · rw [if_neg hbig] at ho ho'
        by_cases heof : (!eof) = true
        · rw [if_pos heof] at ho ho'
          cases ho
          cases ho'
          rfl
        · rw [if_neg heof] at ho ho'
          exact result_alike ⟨seen, header, line, _, rfl⟩ ho ho'
    | chunked =>
      have hno' : noBody t.method head = false := by
        obtain ⟨seen, header, line, copied, rfl⟩ := halike
        exact hno
      rw [body_chunked hno hkind] at ho
      rw [body_chunked hno' hkind] at ho'
      exact chunks_alike halike hs.framed ht.framed hs.some ho ho'

/-- **The body goes on as if it had not waited.** -/
theorem body_follow (hp : q <+: w) (h : Headed s head q out.length) (ho : s.body head q out false = .ok o)
    (ho' : s.body head w out eof = .ok o') : Continues (fun t out => t.body head w out eof) o o' := by
  have hlen := hp.length_le
  have hw := h.mono hp
  have hcursor := h.framed.cursor
  have hwritten := h.framed.written
  by_cases hnone : (noBody s.method head || head.transfer == .none) = true
  · rw [body_none hnone] at ho ho'
    cases ho.symm.trans ho'
    exact .inl ⟨result_ne ho, rfl⟩
  · obtain ⟨hno, htransfer⟩ := Bool.or_eq_false_iff.1 (Bool.eq_false_iff.2 hnone)
    cases hkind : head.transfer with
    | none =>
      rw [hkind] at htransfer
      cases htransfer
    | contentLength =>
      have hsized := h.sized hkind
      have hplain : head.transfer ≠ .chunked := by
        rw [hkind]
        decide
      by_cases hfit : head.contentLength ≤ out.length
      · rw [body_length h hno hkind hfit] at ho
        rw [body_length hw hno hkind hfit] at ho'
        simp only at ho ho'
        generalize htake : min (q.length - s.cursor) (head.contentLength - s.written) = take at ho
        by_cases hmore : s.written + take ≠ head.contentLength
        · rw [if_pos hmore] at ho
          cases ho
          refine .inr ⟨rfl, o', ?_, rfl⟩
          have hstays : Stays s head q out (s.took take) (put out s.written (slice q s.cursor take)) :=
            stays_took h hplain (by omega) (by omega) fun _ => by omega
          have hfilled : (put out s.written (slice q s.cursor take)).length = out.length := length_put _ _ _
          have hsplit : min (w.length - s.cursor) (head.contentLength - s.written) =
              take + min (w.length - (s.cursor + take)) (head.contentLength - (s.written + take)) := by omega
          have hcopied : s.cursor + take ≤ q.length := by omega
          refine Eq.trans ?_ ho'
          refine (body_length (s := s.took take) (hstays.headed.mono hp) hno hkind (by rw [hfilled]; exact hfit)).trans ?_
          simp only [took_took]
          simp only [took, hsplit, put_slices hp hcopied, Nat.add_assoc]
        · rw [if_neg hmore] at ho
          rw [show min (w.length - s.cursor) (head.contentLength - s.written) = take by omega, if_neg hmore,
            slice_extend hp (by omega)] at ho'
          cases ho.symm.trans ho'
          exact .inl ⟨result_ne ho, rfl⟩
      · rw [body_large hno hkind (Nat.lt_of_not_le hfit)] at ho ho'
        cases ho
        cases ho'
        exact .inl ⟨fun hm => (by cases hm), rfl⟩
    | closeDelimited =>
      have hplain : head.transfer ≠ .chunked := by
        rw [hkind]
        decide
      rw [body_close h hno hkind] at ho
      rw [body_close hw hno hkind] at ho'
      simp only at ho ho'
      generalize htake : q.length - s.cursor = take at ho
      by_cases hbig : take > out.length - s.written
      · rw [if_pos hbig] at ho
        rw [if_pos (by omega)] at ho'
        cases ho
        cases ho'
        exact .inl ⟨fun hm => (by cases hm), rfl⟩
      · rw [if_neg hbig, if_pos (by decide)] at ho
        cases ho
        have hcopied : s.cursor + take ≤ q.length := by omega
        have hstays : Stays s head q out (s.took take) (put out s.written (slice q s.cursor take)) := by
          refine stays_took h hplain hcopied (by omega) fun hlength => ?_
          rw [hkind] at hlength
          cases hlength
        have hfilled : (put out s.written (slice q s.cursor take)).length = out.length := length_put _ _ _
        have hsplit : w.length - s.cursor = take + (w.length - (s.cursor + take)) := by omega
        have hbody : (s.took take).body head w (put out s.written (slice q s.cursor take)) eof = _ :=
          body_close (hstays.headed.mono hp) hno hkind
        simp only [took_took] at hbody
        simp only [took, hfilled] at hbody
        by_cases hlarge : w.length - s.cursor > out.length - s.written
        · rw [if_pos hlarge] at ho'
          cases ho'
          rw [if_pos (by omega)] at hbody
          exact .inr ⟨rfl, _, hbody, rfl⟩
        · rw [if_neg hlarge, hsplit, ← put_slices hp hcopied] at ho'
          rw [if_neg (by omega)] at hbody
          exact .inr ⟨rfl, o', hbody.trans ho', rfl⟩
    | chunked =>
      rw [body_chunked hno hkind] at ho ho'
      rcases chunks_follow hp h.framed h.some ho ho' with hsame | ⟨hmore, o'', ho'', hsame⟩
      · exact .inl hsame
      · refine .inr ⟨hmore, o'', ?_, hsame⟩
        obtain ⟨o1, s1, out1, ho1, hkept, hends⟩ := chunks_spec h.framed h.some false
        cases ho.symm.trans ho1
        obtain ⟨hself, -⟩ := hends.waits hmore
        have hno1 : noBody o.self.method head = false := by
          rw [hself, hkept.same.method]
          exact hno
        exact (body_chunked hno1 hkind).trans ho''

end Body

/-! ## Calls -/

/-- Where the head ends, in its window. -/
def headIn (input : Bytes) : Option Nat := indexOf (slice input 0 (min input.length maxHeaderBytes)) terminator

/-- No head ends in front of the remembered position. -/
structure Searching (s : ResponseDecoder) (p : Bytes) : Prop where
  within : s.headerScan ≤ min p.length maxHeaderBytes
  none : ∀ j, j < s.headerScan → j + 4 ≤ p.length ∧ ¬ Occurs p terminator j
  written : s.written = 0
  phase : s.phase = .size
  lineScan : s.lineScan = 0

/-- A decoder that was given `p`. -/
structure Valid (s : ResponseDecoder) (p : Bytes) (room : Nat) : Prop where
  live : s.cancelled = false
  seen : s.seenInput ≤ p.length
  cursor : s.cursor ≤ p.length
  written : s.written ≤ room
  copied : s.copiedBytes = s.written
  finished : s.done = true → s.head ≠ none
  searching : s.failure = none → s.done = false → s.head = none → Searching s p
  known : s.failure = none → s.done = false → ∀ head, s.head = some head → Headed s head p room

section Heads

variable {s t : ResponseDecoder} {head : ParsedHead} {p q w out : Bytes} {eof : Bool} {o o' : Outcome} {stop : Nat}

theorem headIn_some (h : headIn q = some stop) : stop + 4 ≤ min q.length maxHeaderBytes ∧ Occurs q terminator stop := by
  obtain ⟨ho, hle⟩ := (occurs_slice terminator_ne_nil).1 (indexOf_some h).1
  rw [Nat.zero_add] at ho
  exact ⟨hle, ho⟩

theorem headIn_none (h : headIn q = none) {j : Nat} (hj : j + 4 ≤ min q.length maxHeaderBytes) :
    ¬ Occurs q terminator j := by
  intro ho
  refine indexOf_none h terminator_ne_nil j ((occurs_slice terminator_ne_nil).2 ⟨?_, hj⟩)
  rwa [Nat.zero_add]

theorem headIn_eq_none (h : ∀ j, j + 4 ≤ min q.length maxHeaderBytes → ¬ Occurs q terminator j) : headIn q = none := by
  refine indexOf_eq_none fun j hj => ?_
  obtain ⟨ho, hle⟩ := (occurs_slice terminator_ne_nil).1 hj
  rw [Nat.zero_add] at ho
  exact h j hle ho

theorem headIn_full (hp : q <+: w) (h : headIn q = none) (hfull : maxHeaderBytes ≤ q.length) : headIn w = none := by
  have hfour : terminator.length = 4 := rfl
  exact headIn_eq_none fun j hj ho => headIn_none h (by omega) (ho.of_le hp (by omega))

theorem headIn_mono (hp : q <+: w) (h : headIn q = some stop) : ∃ stop', headIn w = some stop' := by
  obtain ⟨hle, ho⟩ := headIn_some h
  have hlen := hp.length_le
  cases hw : headIn w with
  | none => exact absurd (ho.mono hp) (headIn_none hw (by omega))
  | some stop' => exact ⟨stop', rfl⟩

theorem Searching.mono (h : Searching s p) (hp : p <+: q) : Searching s q := by
  have hlen := hp.length_le
  have hfour : terminator.length = 4 := rfl
  refine ⟨h.within.trans (by omega), fun j hj => ?_, h.written, h.phase, h.lineScan⟩
  obtain ⟨hle, hno⟩ := h.none j hj
  exact ⟨by omega, fun ho => hno (ho.of_le hp (by omega))⟩

/-- The state that waits for the end of the head. -/
def searched (s : ResponseDecoder) (q : Bytes) : ResponseDecoder := { s with headerScan := min q.length maxHeaderBytes - 3 }

theorem searching_searched (h : Searching s q) (hnone : headIn q = none) : Searching (s.searched q) q := by
  refine ⟨Nat.sub_le _ _, fun j hj => ?_, h.written, h.phase, h.lineScan⟩
  simp only [searched] at hj
  exact ⟨by omega, headIn_none hnone (by omega)⟩

theorem headed_missing (h : Searching s q) (hnone : headIn q = none) : s.headed q out eof = .ok (
    if q.length ≥ maxHeaderBytes then (s.searched q).fail .headerTooLarge out else (s.searched q).more eof out) := by
  have hwithin := h.within
  have hfour : terminator.length = 4 := rfl
  have hwindow : indexOf (slice q s.headerScan (min q.length maxHeaderBytes - s.headerScan)) terminator = none := by
    refine indexOf_eq_none fun j hj => ?_
    obtain ⟨ho, hle⟩ := (occurs_slice terminator_ne_nil).1 hj
    exact headIn_none hnone (by omega) ho
  unfold headed
  simp only
  rw [if_neg (Nat.not_lt.2 h.within), sub_ok h.within (Nat.min_le_left _ _)]
  simp only [bind, Except.bind]
  rw [hwindow]
  simp only
  by_cases hfull : q.length ≥ maxHeaderBytes
  · rw [if_pos hfull, if_pos hfull]
    rfl
  · rw [if_neg hfull, if_neg hfull]
    rfl

/-- What a head that was read makes of the call. -/
def onHead (s : ResponseDecoder) (q out : Bytes) (eof : Bool) : HeadResult → Access Outcome
  | .needMore => .ok (s.more eof out)
  | .failure e => .ok (s.fail e out)
  | .value head => ({ s with head := some head, cursor := head.bodyStart } : ResponseDecoder).body head q out eof

theorem headed_found (h : Searching s q) (hsome : headIn q = some stop) (out : Bytes) (eof : Bool) :
    (∃ e, parseHead q = .ok (.failure e) ∧ s.headed q out eof = .ok (s.fail e out)) ∨
    ∃ head, parseHead q = .ok (.value head) ∧ head.bodyStart ≤ q.length ∧
      s.headed q out eof = ({ s with head := some head, cursor := head.bodyStart } :
      ResponseDecoder).body head q out eof := by
  obtain ⟨hle, ho⟩ := headIn_some hsome
  have hfour : terminator.length = 4 := rfl
  have hscan : s.headerScan ≤ stop := by
    by_contra hlt
    exact (h.none stop (by omega)).2 ho
  obtain ⟨i, hi⟩ : ∃ i, indexOf (slice q s.headerScan (min q.length maxHeaderBytes - s.headerScan)) terminator = some i := by
    cases hnone : indexOf (slice q s.headerScan (min q.length maxHeaderBytes - s.headerScan)) terminator with
    | some i => exact ⟨i, rfl⟩
    | none =>
      refine absurd ((occurs_slice terminator_ne_nil).2 ⟨?_, ?_⟩)
        (indexOf_none hnone terminator_ne_nil (stop - s.headerScan))
      · rwa [Nat.add_sub_cancel' hscan]
      · omega
  have hheaded : ∀ r, parseHead q = .ok r → s.headed q out eof = s.onHead q out eof r := by
    intro r hr
    unfold headed
    simp only
    rw [if_neg (Nat.not_lt.2 h.within), sub_ok h.within (Nat.min_le_left _ _)]
    simp only [bind, Except.bind]
    rw [hi]
    cases r with
    | needMore => exact hr ▸ rfl
    | failure e => exact hr ▸ rfl
    | value head => exact hr ▸ rfl
  obtain ⟨r, hr⟩ := parseHead_ok q
  obtain ⟨-, hnever⟩ | ⟨first, hfirst, ⟨e, rfl⟩ | ⟨head, rfl, hstart, -⟩⟩ := parseHead_spec hr
  · exact absurd ho (indexOf_none hnever terminator_ne_nil stop)
  · exact .inl ⟨e, hr, hheaded _ hr⟩
  · have hend := (indexOf_some hfirst).1.end_le terminator_ne_nil
    exact .inr ⟨head, hr, by omega, hheaded _ hr⟩

theorem parseHead_mono (hp : q <+: w) (h : headIn q = some stop) : parseHead w = parseHead q := by
  refine parseHead_extend hp ?_
  cases hnone : indexOf q terminator with
  | none => exact absurd (headIn_some h).2 (indexOf_none hnone terminator_ne_nil stop)
  | some i => rfl

theorem headed_start (h : Searching s q) (room : Nat) (hstart : head.bodyStart ≤ q.length) :
    Headed { s with head := some head, cursor := head.bodyStart } head q room := by
  refine ⟨rfl, ⟨hstart, ?_, fun hdata => ?_, fun htrailers => ?_, .start h.lineScan⟩, fun _ => h.phase, fun _ => ?_⟩
  · exact h.written.le.trans (Nat.zero_le _)
  · cases h.phase.symm.trans hdata
  · cases h.phase.symm.trans htrailers
  · exact h.written.le.trans (Nat.zero_le _)

end Heads

section Decode

variable {s s' t : ResponseDecoder} {head : ParsedHead} {p q w out out' : Bytes} {eof : Bool} {o o' : Outcome} {room : Nat}

theorem decode_failed {e : ResponseError} (h : Valid s p room) (hfailure : s.failure = some e) :
    s.decode w out eof false = .ok ⟨.failure e, s, out⟩ := by
  unfold decode
  simp only [Bool.false_eq_true, if_false, h.live, hfailure]

/-- The state that has seen the input. -/
def given (s : ResponseDecoder) (w : Bytes) : ResponseDecoder := { s with seenInput := w.length }

/-- The call of a decoder that is not done. -/
def onward (s : ResponseDecoder) (w out : Bytes) (eof : Bool) : Access Outcome :=
  match s.head with
  | none => s.headed w out eof
  | some head => s.body head w out eof

theorem onward_none (hhead : s.head = none) : s.onward w out eof = s.headed w out eof := by
  unfold onward
  rw [hhead]

theorem onward_some (hhead : s.head = some head) : s.onward w out eof = s.body head w out eof := by
  unfold onward
  rw [hhead]

theorem decode_live (h : Valid s p out.length) (hp : p <+: w) (hfailure : s.failure = none) : s.decode w out eof false =
    if s.done then (s.given w).result out else (s.given w).onward w out eof := by
  have hlen := hp.length_le
  have hseen := h.seen
  have hcursor := h.cursor
  have hwritten := h.written
  have hlive : ¬ s.cancelled = true := by
    rw [h.live]
    exact Bool.false_ne_true
  unfold decode
  simp only [Bool.false_eq_true, if_false]
  rw [if_neg hlive]
  split
  · rename_i e he
    cases he.symm.trans hfailure
  · rw [if_neg (by omega)]
    rfl

theorem decode_done (h : Valid s p out.length) (hp : p <+: w) (hfailure : s.failure = none) (hdone : s.done = true) :
    s.decode w out eof false = (s.given w).result out := by
  rw [decode_live h hp hfailure, if_pos hdone]

theorem decode_search (h : Valid s p out.length) (hp : p <+: w) (hfailure : s.failure = none) (hdone : s.done = false)
    (hhead : s.head = none) : s.decode w out eof false = (s.given w).headed w out eof := by
  rw [decode_live h hp hfailure, hdone, if_neg Bool.false_ne_true]
  exact onward_none hhead

theorem decode_body (h : Valid s p out.length) (hp : p <+: w) (hfailure : s.failure = none) (hdone : s.done = false)
    (hhead : s.head = some head) : s.decode w out eof false = (s.given w).body head w out eof := by
  rw [decode_live h hp hfailure, hdone, if_neg Bool.false_ne_true]
  exact onward_some hhead

theorem result_self (h : s.result out = .ok o) : o.self = s ∧ o.out = out := by
  unfold result at h
  split at h
  · cases h
  · obtain ⟨body, -, h⟩ := Except.bind_ok.1 h
    cases h
    exact ⟨rfl, rfl⟩

theorem Valid.fail (h : Valid s p room) (e : ResponseError) : Valid { s with failure := some e } p room :=
  ⟨h.live, h.seen, h.cursor, h.written, h.copied, h.finished, fun hf => (by cases hf), fun hf => (by cases hf)⟩

/-- The state says how the call has ended. -/
def Standing (o : Outcome) : Prop :=
  match o.result with
  | .failure e => o.self.failure = some e
  | .needMore => o.self.failure = none ∧ o.self.done = false
  | .complete _ => o.self.failure = none ∧ o.self.done = true ∧ o.self.result o.out = .ok o
  | .aborted => False

theorem result_standing (hfailure : s.failure = none) (hdone : s.done = true) (h : s.result out = .ok o) : Standing o := by
  have hsame := h
  obtain ⟨hself, hout⟩ := result_self h
  unfold result at h
  split at h
  · cases h
  · obtain ⟨body, -, h⟩ := Except.bind_ok.1 h
    cases h
    exact ⟨hfailure, hdone, hsame⟩

theorem Ends.standing (h : Ends s out o) (hfailure : s.failure = none) (hdone : s.done = false) : Standing o := by
  cases h with
  | fail e => rfl
  | wait => exact ⟨hfailure, hdone⟩
  | done ho => exact result_standing (s := { s with done := true }) hfailure rfl ho

theorem Ends.valid (h : Ends s out o) (hs : Valid s p out.length) (hhead : s.head ≠ none) :
    Valid o.self p o.out.length ∧ Writes s out o.self o.out := by
  cases h with
  | fail e => exact ⟨hs.fail e, .none rfl rfl⟩
  | wait => exact ⟨hs, .refl s out⟩
  | done ho =>
    obtain ⟨hself, hout⟩ := result_self ho
    rw [hself, hout]
    exact ⟨⟨hs.live, hs.seen, hs.cursor, hs.written, hs.copied, fun _ => hhead, fun _ hd => (by cases hd), fun _ hd => (by cases hd)⟩,
      .none rfl rfl⟩

theorem Stays.valid (h : Stays s head q out s' out') (hlive : s.cancelled = false) (hseen : s.seenInput ≤ q.length)
    (hcopied : s.copiedBytes = s.written) : Valid s' q out'.length := by
  refine ⟨h.same.cancelled.trans hlive, h.same.seenInput.le.trans hseen, h.headed.framed.cursor, h.headed.framed.written, ?_,
    fun _ => h.headed.some, fun _ _ hnone => absurd hnone h.headed.some, fun _ _ head' hhead' => ?_⟩
  · have := h.writes.copied
    have := h.writes.le
    omega
  · cases h.headed.known.symm.trans hhead'
    exact h.headed

theorem body_call (h : Headed s head q out.length) (hlive : s.cancelled = false) (hseen : s.seenInput ≤ q.length)
    (hcopied : s.copiedBytes = s.written) (hfailure : s.failure = none) (hdone : s.done = false) (eof : Bool) :
    ∃ o, s.body head q out eof = .ok o ∧ Valid o.self q o.out.length ∧ Writes s out o.self o.out ∧ Standing o := by
  obtain ⟨o, s', out', ho, hstays, hends⟩ := body_spec h eof
  obtain ⟨hvalid, hwrites⟩ := hends.valid (hstays.valid hlive hseen hcopied) hstays.headed.some
  exact ⟨o, ho, hvalid, hstays.writes.trans hwrites,
    hends.standing (hstays.same.failure.trans hfailure) (hstays.same.done.trans hdone)⟩

theorem Valid.given (h : Valid s p room) (hp : p <+: q) : Valid (s.given q) q room := by
  have hlen := hp.length_le
  refine ⟨h.live, le_rfl, h.cursor.trans hlen, h.written, h.copied, h.finished, fun hf hd hh => ?_, fun hf hd head hh => ?_⟩
  · obtain ⟨h1, h2, h3, h4, h5⟩ := (h.searching hf hd hh).mono hp
    exact ⟨h1, h2, h3, h4, h5⟩
  · obtain ⟨h1, ⟨h2, h3, h4, h5, h6, h7⟩, h8, h9⟩ := (h.known hf hd head hh).mono hp
    exact ⟨h1, ⟨h2, h3, h4, h5, ⟨h6, h7⟩⟩, h8, h9⟩

theorem given_writes (s : ResponseDecoder) (q out : Bytes) : Writes s out (s.given q) out := .none rfl rfl

/-- **A call stays in its bounds**, and the decoder can be called again. -/
theorem decode_spec (h : Valid s p out.length) (hp : p <+: q) (eof : Bool) :
    ∃ o, s.decode q out eof false = .ok o ∧ Valid o.self q o.out.length ∧ Writes s out o.self o.out ∧ Standing o := by
  have hlen := hp.length_le
  have hvalid : Valid (s.given q) q out.length := h.given hp
  cases hfailure : s.failure with
  | some e =>
    refine ⟨_, decode_failed h hfailure, ?_, .refl s out, hfailure⟩
    exact ⟨h.live, h.seen.trans hlen, h.cursor.trans hlen, h.written, h.copied, h.finished,
      fun hf => (by cases hf.symm.trans hfailure), fun hf => (by cases hf.symm.trans hfailure)⟩
  | none =>
    cases hdone : s.done with
    | true =>
      obtain ⟨o, ho⟩ := result_ok (s := s.given q) (h.finished hdone) h.written
      obtain ⟨hself, hout⟩ := result_self ho
      refine ⟨o, (decode_done h hp hfailure hdone).trans ho, ?_⟩
      refine ⟨hself ▸ hout ▸ hvalid, hself ▸ hout ▸ given_writes s q out, ?_⟩
      exact result_standing (s := s.given q) hfailure hdone ho
    | false =>
      cases hhead : s.head with
      | some head =>
        obtain ⟨o, ho, ho', hbody, hstanding⟩ :=
          body_call (hvalid.known hfailure hdone head hhead) h.live le_rfl h.copied hfailure hdone eof
        exact ⟨o, (decode_body h hp hfailure hdone hhead).trans ho, ho', (given_writes s q out).trans hbody, hstanding⟩
      | none =>
        have hsearching := hvalid.searching hfailure hdone hhead
        rw [decode_search h hp hfailure hdone hhead]
        cases hfound : headIn q with
        | none =>
          rw [headed_missing hsearching hfound]
          have hnext : Valid ((s.given q).searched q) q out.length :=
            ⟨h.live, le_rfl, h.cursor.trans hlen, h.written, h.copied, h.finished,
              fun _ _ _ => searching_searched hsearching hfound, fun _ _ head hsome => by cases hhead.symm.trans hsome⟩
          split
          · exact ⟨_, rfl, hnext.fail _, .none rfl rfl, rfl⟩
          · cases eof with
            | false => exact ⟨_, rfl, hnext, .none rfl rfl, hfailure, hdone⟩
            | true => exact ⟨_, rfl, hnext.fail _, .none rfl rfl, rfl⟩
        | some stop =>
          rcases headed_found hsearching hfound out eof with ⟨e, -, hheaded⟩ | ⟨head, -, hstart, hheaded⟩
          · exact ⟨_, hheaded, hvalid.fail e, .none rfl rfl, rfl⟩
          · rw [hheaded]
            obtain ⟨o, ho, ho', hbody, hstanding⟩ :=
              body_call (headed_start hsearching out.length hstart) h.live le_rfl h.copied hfailure hdone eof
            refine ⟨o, ho, ho', Writes.trans ?_ hbody, hstanding⟩
            exact .none rfl rfl

theorem decode_again (h : Valid o.self q o.out.length) (hstanding : Standing o) (hresult : o.result ≠ .needMore)
    (hp : q <+: w)
    (eof : Bool) : ∃ o', o.self.decode w o.out eof false = .ok o' ∧ o'.result = o.result := by
  unfold Standing at hstanding
  split at hstanding
  · rename_i e he
    exact ⟨_, decode_failed h hstanding, he.symm⟩
  · exact absurd ‹_› hresult
  · obtain ⟨hfailure, hdone, ho⟩ := hstanding
    obtain ⟨o', ho', -, -, -⟩ := decode_spec h hp eof
    have halike : Alike o.self (o.self.given w) := ⟨_, _, _, _, rfl⟩
    rw [decode_done h hp hfailure hdone] at ho'
    exact ⟨o', (decode_done h hp hfailure hdone).trans ho', (result_alike halike ho ho').symm⟩
  · exact absurd hstanding id

/-- What the longer input gives, the decoder gives behind the shorter one. -/
def Agrees (w : Bytes) (eof : Bool) (o o' : Outcome) : Prop :=
  (o.result = .needMore ∨ o.result = o'.result) ∧ ∃ o'', o.self.decode w o.out eof false = .ok o'' ∧ o''.result = o'.result

theorem body_agrees (hp : q <+: w) (h : Headed s head q out.length) (hlive : s.cancelled = false)
    (hseen : s.seenInput ≤ q.length)
    (hcopied : s.copiedBytes = s.written) (hfailure : s.failure = none) (hdone : s.done = false) (halike : Alike s t)
    (ht : Headed t head w out.length) (ho : s.body head q out false = .ok o) (ho' : t.body head w out eof = .ok o') :
    Agrees w eof o o' := by
  obtain ⟨o1, h1, hvalid, -, hstanding⟩ := body_call h hlive hseen hcopied hfailure hdone false
  cases ho.symm.trans h1
  obtain ⟨o2, s2, out2, h2, -, -⟩ := body_spec (h.mono hp) eof
  have hsame : o2.result = o'.result := body_alike halike (h.mono hp) ht h2 ho'
  rcases body_follow hp h ho h2 with ⟨hresult, hequal⟩ | ⟨hmore, o3, ho3, hequal⟩
  · obtain ⟨o4, ho4, hlast⟩ := decode_again hvalid hstanding hresult hp eof
    exact ⟨.inr (hequal.trans hsame), o4, ho4, hlast.trans (hequal.trans hsame)⟩
  · obtain ⟨o5, s5, out5, h5, hstays, hends⟩ := body_spec h false
    cases ho.symm.trans h5
    obtain ⟨hself, hout⟩ := hends.waits hmore
    have hknown : o.self.head = some head := by
      rw [hself]
      exact hstays.headed.known
    have hheaded : Headed o.self head w o.out.length := by
      rw [hself, hout]
      exact hstays.headed.mono hp
    have hfailure' : o.self.failure = none := by
      rw [hself, hstays.same.failure]
      exact hfailure
    have hdone' : o.self.done = false := by
      rw [hself, hstays.same.done]
      exact hdone
    obtain ⟨o6, ho6, -, -, -⟩ := decode_spec hvalid hp eof
    have hgiven := ho6
    rw [decode_body hvalid hp hfailure' hdone' hknown] at hgiven
    have hheaded' : Headed (o.self.given w) head w o.out.length := (hvalid.given hp).known hfailure' hdone' head hknown
    have halike' : Alike o.self (o.self.given w) := ⟨_, _, _, _, rfl⟩
    refine ⟨.inl hmore, o6, ho6, ?_⟩
    exact (body_alike halike' hheaded hheaded' ho3 hgiven).symm.trans (hequal.trans hsame)

theorem headed_alike (halike : Alike s t) (hs : Searching s w) (ht : Searching t w) (ho : s.headed w out eof = .ok o)
    (ho' : t.headed w out eof = .ok o') : o.result = o'.result := by
  cases hfound : headIn w with
  | none =>
    rw [headed_missing hs hfound] at ho
    rw [headed_missing ht hfound] at ho'
    split at ho
    · rw [if_pos ‹_›] at ho'
      cases ho
      cases ho'
      rfl
    · rw [if_neg ‹_›] at ho'
      cases ho
      cases ho'
      exact more_alike _ _ _ _ _
  | some stop =>
    rcases headed_found hs hfound out eof with ⟨e, he, hheaded⟩ | ⟨head, he, hstart, hheaded⟩
    · rcases headed_found ht hfound out eof with ⟨e', he', hheaded'⟩ | ⟨head', he', -, -⟩
      · cases he.symm.trans he'
        cases ho.symm.trans hheaded
        cases ho'.symm.trans hheaded'
        rfl
      · cases he.symm.trans he'
    · rcases headed_found ht hfound out eof with ⟨e', he', -⟩ | ⟨head', he', -, hheaded'⟩
      · cases he.symm.trans he'
      · cases he.symm.trans he'
        have halike' : Alike ({ s with head := some head, cursor := head.bodyStart } : ResponseDecoder)
            { t with head := some head, cursor := head.bodyStart } := by
          obtain ⟨seen, header, line, copied, rfl⟩ := halike
          exact ⟨seen, header, line, copied, rfl⟩
        exact body_alike halike' (headed_start hs out.length hstart) (headed_start ht out.length hstart)
          (hheaded.symm.trans ho) (hheaded'.symm.trans ho')

theorem search_agrees (hq : q <+: w) (hs : Searching s q) (ht : Searching t w) (hlive : s.cancelled = false)
    (hseen : s.seenInput ≤ q.length) (hcopied : s.copiedBytes = s.written) (hhead : s.head = none)
    (hfailure : s.failure = none)
    (hdone : s.done = false) (hvalid : Valid o.self q o.out.length) (hstanding : Standing o) (halike : Alike s t)
    (ho : s.headed q out false = .ok o) (ho' : t.headed w out eof = .ok o') : Agrees w eof o o' := by
  have hlen := hq.length_le
  have hended : o.result ≠ .needMore → o.result = o'.result → Agrees w eof o o' := by
    intro hresult hsame
    obtain ⟨o2, ho2, hlast⟩ := decode_again hvalid hstanding hresult hq eof
    exact ⟨.inr hsame, o2, ho2, hlast.trans hsame⟩
  cases hfound : headIn q with
  | none =>
    rw [headed_missing hs hfound] at ho
    by_cases hfull : q.length ≥ maxHeaderBytes
    · rw [if_pos hfull] at ho
      rw [headed_missing ht (headIn_full hq hfound hfull), if_pos (by omega)] at ho'
      cases ho
      cases ho'
      exact hended (fun hm => by cases hm) rfl
    · rw [if_neg hfull] at ho
      cases ho
      obtain ⟨o2, ho2, -, -, -⟩ := decode_spec hvalid hq eof
      have hgiven := ho2
      rw [decode_search hvalid hq hfailure hdone hhead] at hgiven
      refine ⟨.inl rfl, o2, ho2, ?_⟩
      have halike' : Alike t (((s.searched q).more false out).self.given w) := by
        obtain ⟨seen, header, line, copied, rfl⟩ := halike
        exact ⟨_, _, _, _, rfl⟩
      exact (headed_alike halike' ht ((hvalid.given hq).searching hfailure hdone hhead) ho' hgiven).symm
  | some stop =>
    obtain ⟨stop', hfound'⟩ := headIn_mono hq hfound
    have hparse := parseHead_mono hq hfound
    rcases headed_found hs hfound out false with ⟨e, he, hheaded⟩ | ⟨head, he, hstart, hheaded⟩
    · rcases headed_found ht hfound' out eof with ⟨e', he', hheaded'⟩ | ⟨head', he', -, -⟩
      · cases (hparse.trans he).symm.trans he'
        cases ho.symm.trans hheaded
        cases ho'.symm.trans hheaded'
        exact hended (fun hm => by cases hm) rfl
      · cases (hparse.trans he).symm.trans he'
    · rcases headed_found ht hfound' out eof with ⟨e', he', -⟩ | ⟨head', he', hstart', hheaded'⟩
      · cases (hparse.trans he).symm.trans he'
      · cases (hparse.trans he).symm.trans he'
        have halike' : Alike ({ s with head := some head, cursor := head.bodyStart } : ResponseDecoder)
            { t with head := some head, cursor := head.bodyStart } := by
          obtain ⟨seen, header, line, copied, rfl⟩ := halike
          exact ⟨seen, header, line, copied, rfl⟩
        exact body_agrees hq (headed_start hs out.length hstart) hlive hseen hcopied hfailure hdone halike'
          (headed_start ht out.length hstart') (hheaded.symm.trans ho) (hheaded'.symm.trans ho')

/-- **A call on a shorter input changes nothing** for the longer one. -/
theorem decode_agrees (h : Valid s p out.length) (hp : p <+: q) (hq : q <+: w) (ho : s.decode q out false false = .ok o)
    (ho' : s.decode w out eof false = .ok o') : Agrees w eof o o' := by
  obtain ⟨o1, h1, hvalid, -, hstanding⟩ := decode_spec h hp false
  cases ho.symm.trans h1
  have hpw := hp.trans hq
  cases hfailure : s.failure with
  | some e =>
    rw [decode_failed h hfailure] at ho ho'
    cases ho
    cases ho'
    exact ⟨.inr rfl, _, decode_failed hvalid hfailure, rfl⟩
  | none =>
    cases hdone : s.done with
    | true =>
      have hshort := ho
      rw [decode_done h hp hfailure hdone] at hshort
      rw [decode_done h hpw hfailure hdone] at ho'
      have hsame : o.result = o'.result := result_alike ⟨_, _, _, _, rfl⟩ hshort ho'
      obtain ⟨o2, ho2, hlast⟩ := decode_again hvalid hstanding (result_ne hshort) hq eof
      exact ⟨.inr hsame, o2, ho2, hlast.trans hsame⟩
    | false =>
      have hgiven := h.given hp
      have hgiven' := h.given hpw
      have halike : Alike (s.given q) (s.given w) := ⟨_, _, _, _, rfl⟩
      cases hhead : s.head with
      | some head =>
        rw [decode_body h hp hfailure hdone hhead] at ho
        rw [decode_body h hpw hfailure hdone hhead] at ho'
        exact body_agrees hq (hgiven.known hfailure hdone head hhead) h.live le_rfl h.copied hfailure hdone halike
          (hgiven'.known hfailure hdone head hhead) ho ho'
      | none =>
        have hsearching := hgiven.searching hfailure hdone hhead
        have hsearching' := hgiven'.searching hfailure hdone hhead
        have hshort := ho
        rw [decode_search h hp hfailure hdone hhead] at hshort
        rw [decode_search h hpw hfailure hdone hhead] at ho'
        exact search_agrees hq hsearching hsearching' h.live le_rfl h.copied hhead hfailure hdone hvalid hstanding halike hshort ho'

end Decode

/-! ## Several calls -/

/-- All calls, each with its bytes and whether they are the last. -/
def decodeAll (self : ResponseDecoder) (out : Bytes) : List (Bytes × Bool) → Access (List Outcome)
  | [] => .ok []
  | (input, eof) :: rest => do
    let o ← self.decode input out eof false
    let os ← decodeAll o.self o.out rest
    .ok (o :: os)

theorem chain_whole {q w : Bytes} {ps : List Bytes} (h : (q :: (ps ++ [w])).IsChain (· <+: ·)) : q <+: w :=
  List.rel_of_pairwise_cons (List.isChain_iff_pairwise.1 h) (List.mem_append_right _ (List.mem_singleton_self w))

theorem valid_init (method : Method) (room : Nat) : Valid (init method) [] room where
  live := rfl
  seen := le_rfl
  cursor := le_rfl
  written := Nat.zero_le _
  copied := rfl
  finished hd := by cases hd
  searching _ _ _ := ⟨Nat.zero_le _, fun j hj => absurd hj (Nat.not_lt_zero j), rfl, rfl, rfl⟩
  known _ _ _ hhead := by cases hhead

end ResponseDecoder
end Http
end R4
