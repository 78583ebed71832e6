import R4Recovery.Moves
import R4Recovery.HttpDecodeCut
/-!
# HttpDecodePayload — what is copied is the payload

The payload of a response is read off its whole text (`payload`).  Behind every state a part of it is left, and a call copies
the front of that part; so the calls lay the payload into the buffer, every byte once and in its order (`decode_cut`).
-/
namespace R4
namespace Http
namespace ResponseDecoder

open R4.Moves (put_nil)

/-! ## The payload -/

/-- The data of the chunks from `cursor` on, as far as they are there. -/
def chunksOf (w : Bytes) (cursor : Nat) : Bytes :=
  match _h : lineIn w cursor with
  | none => []
  | some stop =>
    match chunkSize (slice w cursor (stop - cursor)) with
    | none => []
    | some n =>
      if n = 0 then []
      else slice w (stop + 2) n ++ (if slice w (stop + 2 + n) 2 = crlf then chunksOf w (stop + 2 + n + 2) else [])
termination_by w.length - cursor
decreasing_by
  have := lineIn_some _h
  omega

/-- The chunks behind the data of one. -/
def chunksBehind (w : Bytes) (cursor : Nat) : Bytes := if slice w cursor 2 = crlf then chunksOf w (cursor + 2) else []

/-- The payload of a response, as far as it is there. -/
def payload (method : Method) (w : Bytes) : Bytes :=
  match parseHead w with
  | .ok (.value head) =>
    if noBody method head then []
    else match head.transfer with
    | .none => []
    | .contentLength => slice w head.bodyStart head.contentLength
    | .closeDelimited => w.drop head.bodyStart
    | .chunked => chunksOf w head.bodyStart
  | _ => []

/-- What is left of the chunks. -/
def chunksLeft (s : ResponseDecoder) (w : Bytes) : Bytes :=
  match s.phase with
  | .size => chunksOf w s.cursor
  | .data => slice w s.cursor s.remaining ++ chunksBehind w (s.cursor + s.remaining)
  | .dataCrlf => chunksBehind w s.cursor
  | .trailers => []

/-- What is left of the payload. -/
def left (s : ResponseDecoder) (head : ParsedHead) (w : Bytes) : Bytes :=
  if noBody s.method head then []
  else match head.transfer with
  | .none => []
  | .contentLength => slice w s.cursor (head.contentLength - s.written)
  | .closeDelimited => w.drop s.cursor
  | .chunked => s.chunksLeft w

section Payload

variable {s : ResponseDecoder} {head : ParsedHead} {w : Bytes} {cursor stop n : Nat}

theorem chunksOf_missing (hline : lineIn w cursor = none) : chunksOf w cursor = [] := by
  rw [chunksOf]
  split
  · rfl
  · rename_i h
    cases hline.symm.trans h

theorem chunksOf_found (hline : lineIn w cursor = some stop) (hsize : chunkSize (slice w cursor (stop - cursor)) = some n) :
    chunksOf w cursor = if n = 0 then [] else slice w (stop + 2) n ++ chunksBehind w (stop + 2 + n) := by
  rw [chunksOf]
  split
  · rename_i h
    cases hline.symm.trans h
  · rename_i h
    cases hline.symm.trans h
    rw [hsize]
    rfl

theorem slice_past {len : Nat} (h : w.length ≤ cursor) : slice w cursor len = [] := by
  rw [slice, List.drop_eq_nil_of_le h, List.take_nil]

theorem chunksBehind_short (h : w.length < cursor + 2) : chunksBehind w cursor = [] := by
  have hlen : (slice w cursor 2).length < 2 := by
    rw [slice, List.length_take, List.length_drop]
    omega
  exact if_neg fun hc => by
    rw [hc] at hlen
    exact absurd hlen (by decide)

theorem left_none (hno : (noBody s.method head || head.transfer == .none) = true) : s.left head w = [] := by
  unfold left
  cases hbody : noBody s.method head with
  | true => exact if_pos rfl
  | false =>
    rw [hbody, Bool.false_or, beq_iff_eq] at hno
    rw [if_neg Bool.false_ne_true, hno]

theorem left_length (hno : noBody s.method head = false) (hkind : head.transfer = .contentLength) :
    s.left head w = slice w s.cursor (head.contentLength - s.written) := by
  unfold left
  rw [hno, if_neg Bool.false_ne_true, hkind]

theorem left_close (hno : noBody s.method head = false) (hkind : head.transfer = .closeDelimited) :
    s.left head w = w.drop s.cursor := by
  unfold left
  rw [hno, if_neg Bool.false_ne_true, hkind]

theorem left_chunked (hno : noBody s.method head = false) (hkind : head.transfer = .chunked) : s.left head w = s.chunksLeft w := by
  unfold left
  rw [hno, if_neg Bool.false_ne_true, hkind]

end Payload

/-! ## Copies -/

/-- From one state to the next `piece` is copied behind what is there, and counted. -/
structure Moves (s : ResponseDecoder) (out : Bytes) (s' : ResponseDecoder) (out' piece : Bytes) : Prop where
  written : s'.written = s.written + piece.length
  out : out' = put out s.written piece
  copied : s'.copiedBytes = s.copiedBytes + piece.length
  method : s'.method = s.method

/-- A call has copied the front of `owed`.  Where it waits, `next` tells what is left, which is nothing on the `whole` text;
behind a complete response nothing is left. -/
def Pays (s : ResponseDecoder) (out owed : Bytes) (next : ResponseDecoder → Bytes) (whole : Prop) (o : Outcome) : Prop :=
  ∃ piece rest, Moves s out o.self o.out piece ∧ owed = piece ++ rest ∧
    (o.result = .needMore → next o.self = rest ∧ (whole → rest = [])) ∧ ∀ r, o.result = .complete r → rest = []

section Copies

variable {s s' s'' t : ResponseDecoder} {head : ParsedHead} {q w out out' out'' piece piece' owed rest : Bytes}
    {next : ResponseDecoder → Bytes} {whole : Prop} {eof : Bool} {o : Outcome} {P : Pass} {n : Nat}

theorem Moves.none (hwritten : s'.written = s.written) (hcopied : s'.copiedBytes = s.copiedBytes) (hmethod : s'.method = s.method) :
    Moves s out s' out [] :=
  ⟨hwritten, (put_nil _ _).symm, hcopied, hmethod⟩

theorem Moves.trans (h : Moves s out s' out' piece) (h' : Moves s' out' s'' out'' piece') :
    Moves s out s'' out'' (piece ++ piece') where
  written := by rw [h'.written, h.written, List.length_append, Nat.add_assoc]
  out := by rw [h'.out, h.out, h.written, put_put]
  copied := by rw [h'.copied, h.copied, List.length_append, Nat.add_assoc]
  method := h'.method.trans h.method

theorem moves_took (hin : s.cursor + n ≤ q.length) :
    Moves s out (s.took n) (put out s.written (slice q s.cursor n)) (slice q s.cursor n) := by
  have hlen : (slice q s.cursor n).length = n := length_slice hin
  exact ⟨by rw [hlen]; rfl, rfl, by rw [hlen]; rfl, rfl⟩

theorem Pays.fail (e : ResponseError) (hmoves : Moves s out s' out' piece) (howed : owed = piece ++ rest) :
    Pays s out owed next whole (s'.fail e out') :=
  ⟨piece, rest, ⟨hmoves.written, hmoves.out, hmoves.copied, hmoves.method⟩, howed, fun hm => (by cases hm), fun _ hr => (by cases hr)⟩

theorem Pays.more (eof : Bool) (hmoves : Moves s out s' out' piece) (howed : owed = piece ++ next s')
    (hwhole : whole → next s' = []) : Pays s out owed next whole (s'.more eof out') := by
  cases eof with
  | true => exact .fail .transportClosedEarly hmoves howed
  | false => exact ⟨piece, next s', hmoves, howed, fun _ => ⟨rfl, hwhole⟩, fun _ hr => by cases hr⟩

theorem Pays.done (hmoves : Moves s out t out' owed)
    (ho : ({ t with done := true } : ResponseDecoder).result out' = .ok o) :
    Pays s out owed next whole o := by
  obtain ⟨hself, hout⟩ := result_self ho
  refine ⟨owed, [], ?_, (List.append_nil _).symm, fun hm => absurd hm (result_ne ho), fun _ _ => rfl⟩
  rw [hself, hout]
  exact ⟨hmoves.written, hmoves.out, hmoves.copied, hmoves.method⟩

theorem Pays.behind (hmoves : Moves s out s' out' piece) (howed : owed = piece ++ rest) (h : Pays s' out' rest next whole o) :
    Pays s out owed next whole o := by
  obtain ⟨piece', rest', hmoves', rfl, hmore, hcomplete⟩ := h
  exact ⟨piece ++ piece', rest', hmoves.trans hmoves', by rw [howed, List.append_assoc], hmore, hcomplete⟩

/-! ## The passes -/

inductive PassPays (s : ResponseDecoder) (out w : Bytes) (whole : Prop) : Pass → Prop where
  | again {s' : ResponseDecoder} {out' : Bytes} (piece : Bytes) : Moves s out s' out' piece →
      s.chunksLeft w = piece ++ s'.chunksLeft w → PassPays s out w whole (.again s' out')
  | ended {o : Outcome} : Pays s out (s.chunksLeft w) (fun s => s.chunksLeft w) whole o → PassPays s out w whole (.ended o)

theorem sizePass_pays (hq : q <+: w) (h : Framed s q out.length) (hphase : s.phase = .size)
    (hP : s.sizePass q out eof = .ok P) : PassPays s out w (q = w) P := by
  have hleft : s.chunksLeft w = chunksOf w s.cursor := by
    unfold chunksLeft
    rw [hphase]
  cases hline : lineIn q s.cursor with
  | none =>
    rw [sizePass_missing h hline] at hP
    cases hP
    refine .ended ?_
    split
    · exact .fail _ (.none rfl rfl rfl) (List.nil_append _).symm
    · refine .more eof (.none rfl rfl rfl) (List.nil_append _).symm fun hwhole => ?_
      rw [show (s.waited q).chunksLeft w = s.chunksLeft w from rfl, hleft, ← hwhole]
      exact chunksOf_missing hline
  | some stop =>
    obtain ⟨hle, hstop, -, -⟩ := lineIn_some hline
    rw [sizePass_found h hline] at hP
    cases hP
    cases hsize : chunkSize (slice q s.cursor (stop - s.cursor)) with
    | none => exact .ended (.fail _ (.none rfl rfl rfl) (List.nil_append _).symm)
    | some n =>
      have hslice : slice w s.cursor (stop - s.cursor) = slice q s.cursor (stop - s.cursor) := slice_extend hq (by omega)
      have hopened : s.chunksLeft w = (s.opened n stop).chunksLeft w := by
        rw [hleft, chunksOf_found (lineIn_mono hq hline) (hslice ▸ hsize)]
        unfold chunksLeft opened
        by_cases hn : n = 0
        · simp only [if_pos hn]
        · simp only [if_neg hn]
          rfl
      simp only
      split
      · exact .ended (.fail _ (.none rfl rfl rfl) (List.nil_append _).symm)
      · exact .again [] (.none rfl rfl rfl) hopened

theorem dataPass_pays (hq : q <+: w) (h : Framed s q out.length) (hphase : s.phase = .data)
    (hP : s.dataPass q out eof = .ok P) : PassPays s out w (q = w) P := by
  have hcursor := h.cursor
  have hleft : s.chunksLeft w = slice w s.cursor s.remaining ++ chunksBehind w (s.cursor + s.remaining) := by
    unfold chunksLeft
    rw [hphase]
  rw [dataPass_eq h hphase] at hP
  cases hP
  simp only
  generalize htake : min (q.length - s.cursor) s.remaining = take
  have hin : s.cursor + take ≤ q.length := by omega
  have hpiece : slice w s.cursor take = slice q s.cursor take := slice_extend hq hin
  have hmoves := @moves_took s q out take hin
  -- the data of the chunk: what is there, and the rest
  have hsplit : slice w s.cursor s.remaining = slice q s.cursor take ++ slice w (s.cursor + take) (s.remaining - take) := by
    rw [← hpiece, ← slice_append, Nat.add_sub_cancel' (by omega)]
  by_cases hmore : s.remaining - take ≠ 0
  · rw [if_pos hmore]
    have hnext : ({ s.took take with remaining := s.remaining - take } : ResponseDecoder).chunksLeft w =
        slice w (s.cursor + take) (s.remaining - take) ++ chunksBehind w (s.cursor + s.remaining) := by
      unfold chunksLeft took
      simp only [hphase]
      rw [show s.cursor + take + (s.remaining - take) = s.cursor + s.remaining by omega]
    refine .ended (.more eof ⟨hmoves.written, hmoves.out, hmoves.copied, hmoves.method⟩ ?_ fun hwhole => ?_)
    · rw [hleft, hsplit, List.append_assoc]
      exact congrArg _ hnext.symm
    · refine hnext.trans ?_
      rw [hwhole] at htake hin
      rw [slice_past (by omega), chunksBehind_short (by omega), List.append_nil]
  · rw [if_neg hmore]
    refine .again (slice q s.cursor take) ⟨hmoves.written, hmoves.out, hmoves.copied, hmoves.method⟩ ?_
    have hall : take = s.remaining := by omega
    rw [hleft, ← hpiece, hall]
    rfl

theorem crlfPass_pays (hq : q <+: w) (h : Framed s q out.length) (hphase : s.phase = .dataCrlf)
    (hP : s.crlfPass q out eof = .ok P) : PassPays s out w (q = w) P := by
  have hcursor := h.cursor
  have hleft : s.chunksLeft w = chunksBehind w s.cursor := by
    unfold chunksLeft
    rw [hphase]
  by_cases hshort : q.length - s.cursor < 2
  · rw [crlfPass_short h hshort] at hP
    cases hP
    refine .ended (.more eof (.none rfl rfl rfl) (List.nil_append _).symm fun hwhole => hleft.trans ?_)
    exact chunksBehind_short (by rw [← hwhole]; omega)
  · rw [crlfPass_eq (by omega)] at hP
    cases hP
    by_cases hpair : slice q s.cursor 2 = crlf
    · rw [if_neg (not_not.2 hpair)]
      refine .again [] (.none rfl rfl rfl) ?_
      rw [hleft, chunksBehind, slice_extend hq (by omega), if_pos hpair]
      rfl
    · rw [if_pos hpair]
      exact .ended (.fail _ (.none rfl rfl rfl) (List.nil_append _).symm)

theorem trailerPass_pays (h : Framed s q out.length) (hphase : s.phase = .trailers)
    (hP : s.trailerPass q out eof = .ok P) : PassPays s out w whole P := by
  have hleft : ∀ {s' : ResponseDecoder}, s'.phase = s.phase → s'.chunksLeft w = [] := by
    intro s' hs'
    unfold chunksLeft
    rw [hs', hphase]
  cases hline : lineIn q s.cursor with
  | none =>
    rw [trailerPass_missing h hphase hline] at hP
    cases hP
    refine .ended ?_
    split
    · exact .fail _ (.none rfl rfl rfl) (List.nil_append _).symm
    · exact .more eof (.none rfl rfl rfl) (List.nil_append _).symm fun _ => hleft rfl
  | some stop =>
    rw [trailerPass_found h hphase hline] at hP
    split at hP
    · cases hP
      exact .ended (.fail _ (.none rfl rfl rfl) (List.nil_append _).symm)
    · unfold trailed at hP
      split at hP
      · obtain ⟨o, ho, hP⟩ := Except.bind_ok.1 hP
        cases hP
        refine .ended (.done (t := s.passed stop) ?_ ho)
        rw [hleft rfl]
        exact .none rfl rfl rfl
      · split at hP
        · cases hP
          exact .ended (.fail _ (.none rfl rfl rfl) (List.nil_append _).symm)
        · split at hP
          · cases hP
            exact .ended (.fail _ (.none rfl rfl rfl) (List.nil_append _).symm)
          · cases hP
            exact .again [] (.none rfl rfl rfl) (Eq.trans (hleft rfl) (Eq.symm (hleft rfl)))
          · cases hP

/-- **A pass copies the front of what is left.** -/
theorem pass_pays (hq : q <+: w) (h : Framed s q out.length) (hP : s.pass q out eof = .ok P) : PassPays s out w (q = w) P := by
  unfold pass at hP
  cases hphase : s.phase with
  | size =>
    rw [hphase] at hP
    exact sizePass_pays hq h hphase hP
  | data =>
    rw [hphase] at hP
    exact dataPass_pays hq h hphase hP
  | dataCrlf =>
    rw [hphase] at hP
    exact crlfPass_pays hq h hphase hP
  | trailers =>
    rw [hphase] at hP
    exact trailerPass_pays h hphase hP

/-- **So does the loop.** -/
theorem chunks_pays {s : ResponseDecoder} {out : Bytes} (hq : q <+: w) (h : Framed s q out.length) (hhead : s.head ≠ none)
    (ho : s.chunks q out eof = .ok o) : Pays s out (s.chunksLeft w) (fun s => s.chunksLeft w) (q = w) o := by
  obtain ⟨P, hP, hspec⟩ := pass_spec h hhead eof
  have hpays := pass_pays hq h hP
  cases hpays with
  | @again s1 out1 piece hmoves howed =>
    have hless := pass_rank hP
    rw [chunks_again hP] at ho
    cases hspec with
    | again hkept => exact .behind hmoves howed (chunks_pays hq hkept.framed (by rw [hkept.same.head]; exact hhead) ho)
  | ended hpays =>
    rw [chunks_ended hP] at ho
    cases ho
    exact hpays
termination_by s.rank q

/-! ## The body -/

/-- **The body copies the front of the payload.**  The connection ends behind the whole text only. -/
theorem body_pays (hq : q <+: w) (heof : eof = true → q = w) (h : Headed s head q out.length)
    (ho : s.body head q out eof = .ok o) : Pays s out (s.left head w) (fun s => s.left head w) (q = w) o := by
  have hcursor := h.framed.cursor
  by_cases hnone : (noBody s.method head || head.transfer == .none) = true
  · rw [body_none hnone] at ho
    rw [left_none hnone]
    exact .done (t := s) (.none rfl rfl rfl) ho
  · obtain ⟨hno, htransfer⟩ := Bool.or_eq_false_iff.1 (Bool.eq_false_iff.2 hnone)
    cases hkind : head.transfer with
    | none =>
      rw [hkind] at htransfer
      cases htransfer
    | contentLength =>
      have hsized := h.sized hkind
      by_cases hfit : head.contentLength ≤ out.length
      · rw [body_length h hno hkind hfit] at ho
        simp only at ho
        generalize htake : min (q.length - s.cursor) (head.contentLength - s.written) = take at ho
        have hin : s.cursor + take ≤ q.length := by omega
        have hpiece : slice w s.cursor take = slice q s.cursor take := slice_extend hq hin
        have hnext : (s.took take).left head w = slice w (s.cursor + take) (head.contentLength - s.written - take) := by
          rw [left_length (s := s.took take) hno hkind, Nat.sub_sub]
          rfl
        have howed : s.left head w = slice q s.cursor take ++ (s.took take).left head w := by
          rw [left_length hno hkind, hnext, ← hpiece, ← slice_append, Nat.add_sub_cancel' (by omega)]
        by_cases hmore : s.written + take ≠ head.contentLength
        · rw [if_pos hmore] at ho
          cases ho
          refine .more eof (moves_took hin) howed fun hwhole => hnext.trans ?_
          rw [hwhole] at htake
          exact slice_past (by omega)
        · rw [if_neg hmore] at ho
          refine .done (t := s.took take) ?_ ho
          rw [howed, hnext, show head.contentLength - s.written - take = 0 by omega,
            show slice w (s.cursor + take) 0 = [] from List.take_zero, List.append_nil]
          exact moves_took hin
      · rw [body_large hno hkind (Nat.lt_of_not_le hfit)] at ho
        cases ho
        exact .fail _ (.none rfl rfl rfl) (List.nil_append _).symm
    | closeDelimited =>
      rw [body_close h hno hkind] at ho
      simp only at ho
      generalize htake : q.length - s.cursor = take at ho
      have hin : s.cursor + take ≤ q.length := by omega
      have hpiece : slice w s.cursor take = slice q s.cursor take := slice_extend hq hin
      have hnext : (s.took take).left head w = w.drop (s.cursor + take) := left_close (s := s.took take) hno hkind
      have howed : s.left head w = slice q s.cursor take ++ (s.took take).left head w := by
        rw [left_close hno hkind, hnext, ← hpiece, slice, ← List.drop_drop, List.take_append_drop]
      have hend : q = w → (s.took take).left head w = [] := by
        intro hwhole
        rw [hwhole] at htake
        rw [hnext]
        exact List.drop_eq_nil_of_le (by omega)
      by_cases hbig : take > out.length - s.written
      · rw [if_pos hbig] at ho
        cases ho
        exact .fail _ (.none rfl rfl rfl) (List.nil_append _).symm
      · rw [if_neg hbig] at ho
        cases eof with
        | false =>
          cases ho
          exact .more false (moves_took hin) howed hend
        | true =>
          refine .done (t := s.took take) ?_ ho
          rw [howed, hend (heof rfl), List.append_nil]
          exact moves_took hin
    | chunked =>
      rw [body_chunked hno hkind] at ho
      obtain ⟨piece, rest, hmoves, howed, hmore, hcomplete⟩ := chunks_pays hq h.framed h.some ho
      refine ⟨piece, rest, hmoves, (left_chunked hno hkind).trans howed, fun hwait => ?_, hcomplete⟩
      obtain ⟨o1, s1, out1, ho1, hkept, hends⟩ := chunks_spec h.framed h.some eof
      cases ho.symm.trans ho1
      obtain ⟨hself, -⟩ := hends.waits hwait
      have hno1 : noBody o.self.method head = false := by
        rw [hself, hkept.same.method]
        exact hno
      exact ⟨(left_chunked hno1 hkind).trans (hmore hwait).1, (hmore hwait).2⟩

end Copies

/-! ## The calls -/

/-- The buffer holds the front of the payload, and what is left of it is left to the state. -/
structure Paid (s : ResponseDecoder) (out w body : Bytes) : Prop where
  fits : s.written ≤ body.length
  filled : out.take s.written = body.take s.written
  behind : s.failure = none → s.done = false → ∀ head, s.head = some head → body.drop s.written = s.left head w
  ended : s.failure = none → s.done = true → s.written = body.length

/-- What stands between two calls: the next bytes of the payload are written behind those that are there, and counted. -/
structure Appends (body : Bytes) (o o' : Outcome) : Prop where
  le : o.self.written ≤ o'.self.written
  within : o'.self.written ≤ body.length
  out : o'.out = put o.out o.self.written (slice body o.self.written (o'.self.written - o.self.written))
  copied : o'.self.copiedBytes = o.self.copiedBytes + (o'.self.written - o.self.written)

/-- What a call on `q` has done to the payload. -/
structure Call (s : ResponseDecoder) (out q w body : Bytes) (o : Outcome) : Prop where
  le : s.written ≤ o.self.written
  out : o.out = put out s.written (slice body s.written (o.self.written - s.written))
  copied : o.self.copiedBytes = s.copiedBytes + (o.self.written - s.written)
  method : o.self.method = s.method
  paid : Paid o.self o.out w body
  whole : q = w → (∀ e, o.result ≠ .failure e) → o.self.written = body.length

section Calls

variable {s t : ResponseDecoder} {head : ParsedHead} {p q w out body : Bytes} {eof : Bool} {o : Outcome}

theorem Standing.live (h : Standing o) (hfailure : o.self.failure = none) :
    (o.self.done = false → o.result = .needMore) ∧ (o.self.done = true → ∃ r, o.result = .complete r) := by
  unfold Standing at h
  split at h
  · rw [hfailure] at h
    cases h
  · rename_i hmore
    refine ⟨fun _ => hmore, fun hd => ?_⟩
    rw [h.2] at hd
    cases hd
  · rename_i r hr
    refine ⟨fun hd => ?_, fun _ => ⟨r, hr⟩⟩
    rw [h.2.1] at hd
    cases hd
  · exact h.elim

/-- What a call pays is a slice of the payload. -/
theorem Pays.call {next : ResponseDecoder → Bytes} (h : Pays s out (body.drop s.written) next (q = w) o)
    (hfits : s.written ≤ body.length) (hfilled : out.take s.written = body.take s.written) (hvalid : Valid o.self q o.out.length)
    (hstanding : Standing o)
    (hnext : o.result = .needMore → ∀ head, o.self.head = some head → next o.self = o.self.left head w) :
    Call s out q w body o := by
  obtain ⟨piece, rest, hmoves, howed, hmore, hcomplete⟩ := h
  have hwritten := hmoves.written
  have hlength : body.length = s.written + piece.length + rest.length := by
    have := congrArg List.length howed
    rw [List.length_drop, List.length_append] at this
    omega
  have hslice : slice body s.written piece.length = piece := by
    rw [slice, howed, List.take_left]
  have hroom : s.written + piece.length ≤ out.length := by
    have hroom := hvalid.written
    rwa [hmoves.out, length_put, hwritten] at hroom
  have hrest : body.drop (s.written + piece.length) = rest := by
    rw [← List.drop_drop, howed, List.drop_left]
  have hdone : rest = [] → o.self.written = body.length := by
    rintro rfl
    rw [hwritten, hlength, List.length_nil, Nat.add_zero]
  refine ⟨by omega, ?_, ?_, hmoves.method, ⟨by omega, ?_, fun hf hd head hhead => ?_, fun hf hd => ?_⟩, fun hwhole hok => ?_⟩
  · rw [hwritten, Nat.add_sub_cancel_left, hslice]
    exact hmoves.out
  · rw [hwritten, Nat.add_sub_cancel_left]
    exact hmoves.copied
  · rw [hwritten, List.take_add, List.take_add, ← hfilled, hmoves.out]
    refine congrArg₂ (· ++ ·) (List.ext_getElem? fun i => ?_) ?_
    · rw [List.getElem?_take, List.getElem?_take]
      split
      · exact getElem?_put_off (.inl ‹_›)
      · rfl
    · exact (slice_put rfl hroom).trans hslice.symm
  · have hwait := (hstanding.live hf).1 hd
    rw [hwritten, hrest, ← (hmore hwait).1]
    exact hnext hwait head hhead
  · obtain ⟨r, hr⟩ := (hstanding.live hf).2 hd
    exact hdone (hcomplete r hr)
  · cases hresult : o.result with
    | complete r => exact hdone (hcomplete r hresult)
    | needMore => exact hdone ((hmore hresult).2 hwhole)
    | aborted =>
      unfold Standing at hstanding
      rw [hresult] at hstanding
      exact hstanding.elim
    | failure e => exact absurd hresult (hok e)

theorem body_known (h : Headed s head q out.length) (ho : s.body head q out eof = .ok o) (hwait : o.result = .needMore) :
    o.self.head = some head := by
  obtain ⟨o1, s1, out1, ho1, hstays, hends⟩ := body_spec h eof
  cases ho.symm.trans ho1
  rw [(hends.waits hwait).1]
  exact hstays.headed.known

theorem body_pay (hq : q <+: w) (heof : eof = true → q = w) (h : Headed s head q out.length)
    (ho : s.body head q out eof = .ok o) (hfits : s.written ≤ body.length) (hfilled : out.take s.written = body.take s.written)
    (howed : body.drop s.written = s.left head w) (hvalid : Valid o.self q o.out.length) (hstanding : Standing o) :
    Call s out q w body o := by
  have hpays := body_pays hq heof h ho
  rw [← howed] at hpays
  refine hpays.call hfits hfilled hvalid hstanding fun hwait head' hhead' => ?_
  cases (body_known h ho hwait).symm.trans hhead'
  rfl

theorem Call.of_given (h : Call (s.given q) out q w body o) : Call s out q w body o :=
  ⟨h.le, h.out, h.copied, h.method, h.paid, h.whole⟩

theorem Call.appends {o' : Outcome} (h : Call o.self o.out q w body o') : Appends body o o' :=
  ⟨h.le, h.paid.fits, h.out, h.copied⟩

/-- A call that copies nothing. -/
theorem Call.still (hpaid : Paid s out w body) (hwritten : o.self.written = s.written)
    (hcopied : o.self.copiedBytes = s.copiedBytes) (hmethod : o.self.method = s.method) (hout : o.out = out)
    (hbehind : o.self.failure = none → o.self.done = false → ∀ head, o.self.head = some head →
      body.drop s.written = o.self.left head w)
    (hended : o.self.failure = none → o.self.done = true → s.written = body.length)
    (hwhole : q = w → (∀ e, o.result ≠ .failure e) → s.written = body.length) : Call s out q w body o where
  le := hwritten.ge
  out := by rw [hwritten, Nat.sub_self, hout, slice, List.take_zero, put_nil]
  copied := by rw [hwritten, hcopied, Nat.sub_self, Nat.add_zero]
  method := hmethod
  paid := ⟨hwritten ▸ hpaid.fits, by rw [hout, hwritten]; exact hpaid.filled, by rw [hwritten]; exact hbehind,
    by rw [hwritten]; exact hended⟩
  whole := by rw [hwritten]; exact hwhole

/-- The payload of a text whose head has not come is empty. -/
theorem payload_missing (method : Method) (hsmall : ¬ w.length ≥ maxHeaderBytes) (hnone : headIn w = none) :
    payload method w = [] := by
  have hwindow : indexOf w terminator = none := by
    rw [headIn, Nat.min_eq_left (by omega), slice_all rfl] at hnone
    exact hnone
  obtain ⟨r, hr⟩ := parseHead_ok w
  rcases parseHead_spec hr with ⟨rfl, -⟩ | ⟨stop, hstop, -⟩
  · unfold payload
    rw [hr]
  · cases hwindow.symm.trans hstop

/-- Behind the head the whole payload is left. -/
theorem payload_headed (hparse : parseHead w = .ok (.value head)) (h : Searching s w) :
    payload s.method w = ({ s with head := some head, cursor := head.bodyStart } : ResponseDecoder).left head w := by
  unfold payload left chunksLeft
  rw [hparse]
  simp only [h.written, h.phase, Nat.sub_zero]

/-- **A call copies the next bytes of the payload.** -/
theorem decode_pays (hp : p <+: q) (hq : q <+: w) (heof : eof = true → q = w) (h : Valid s p out.length)
    (hpaid : Paid s out w (payload s.method w)) (ho : s.decode q out eof false = .ok o) :
    Call s out q w (payload s.method w) o := by
  obtain ⟨o1, ho1, hvalid, -, hstanding⟩ := decode_spec h hp eof
  cases ho.symm.trans ho1
  have hgiven := h.given hp
  cases hfailure : s.failure with
  | some e =>
    rw [decode_failed h hfailure] at ho
    cases ho
    exact .still hpaid rfl rfl rfl rfl hpaid.behind hpaid.ended fun _ hok => absurd rfl (hok e)
  | none =>
    cases hdone : s.done with
    | true =>
      rw [decode_done h hp hfailure hdone] at ho
      obtain ⟨hself, hout⟩ := result_self ho
      have hend := hpaid.ended hfailure hdone
      refine .still hpaid (by rw [hself]; rfl) (by rw [hself]; rfl) (by rw [hself]; rfl) hout (fun _ hd => ?_) (fun _ _ => hend) fun _ _ => hend
      rw [hself] at hd
      cases hdone.symm.trans hd
    | false =>
      cases hhead : s.head with
      | some head =>
        rw [decode_body h hp hfailure hdone hhead] at ho
        exact (body_pay hq heof (hgiven.known hfailure hdone head hhead) ho hpaid.fits hpaid.filled
          (hpaid.behind hfailure hdone head hhead) hvalid hstanding).of_given
      | none =>
        have hsearching := hgiven.searching hfailure hdone hhead
        rw [decode_search h hp hfailure hdone hhead] at ho
        cases hfound : headIn q with
        | none =>
          rw [headed_missing hsearching hfound] at ho
          by_cases hfull : q.length ≥ maxHeaderBytes
          · rw [if_pos hfull] at ho
            cases ho
            exact .still hpaid rfl rfl rfl rfl (fun hf => by cases hf) (fun hf => by cases hf) fun _ hok => absurd rfl (hok _)
          · rw [if_neg hfull] at ho
            have hzero : q = w → s.written = (payload s.method w).length := by
              rintro rfl
              rw [payload_missing s.method hfull hfound]
              exact hsearching.written
            cases eof with
            | true =>
              cases ho
              exact .still hpaid rfl rfl rfl rfl (fun hf => by cases hf) (fun hf => by cases hf) fun hwhole _ => hzero hwhole
            | false =>
              cases ho
              refine .still hpaid rfl rfl rfl rfl (fun _ _ head hsome => ?_) (fun _ hd => ?_) fun hwhole _ => hzero hwhole
              · cases hhead.symm.trans hsome
              · cases hdone.symm.trans hd
        | some stop =>
          rcases headed_found hsearching hfound out eof with ⟨e, -, hheaded⟩ | ⟨head, hparse, hstart, hheaded⟩
          · cases ho.symm.trans hheaded
            exact .still hpaid rfl rfl rfl rfl (fun hf => by cases hf) (fun hf => by cases hf) fun _ hok => absurd rfl (hok _)
          · rw [hheaded] at ho
            have howed := payload_headed ((parseHead_mono hq hfound).trans hparse) (hsearching.mono hq)
            have hcall := body_pay hq heof (headed_start hsearching out.length hstart) ho hpaid.fits hpaid.filled ((congrArg (List.drop · _) hsearching.written).trans howed) hvalid hstanding
            exact ⟨hcall.le, hcall.out, hcall.copied, hcall.method, hcall.paid, hcall.whole⟩

theorem result_body {r : Response} (h : s.result out = .ok o) (hr : o.result = .complete r) : r.body = out.take s.written := by
  unfold result at h
  split at h
  · cases h
  · obtain ⟨body, hbody, h⟩ := Except.bind_ok.1 h
    obtain ⟨-, -, rfl⟩ := sub_eq_ok hbody
    cases h
    cases hr
    exact rfl

/-- What holds behind the last of several calls. -/
structure Finished (body : Bytes) (last : Outcome) : Prop where
  counted : last.self.copiedBytes = last.self.written
  copied : (∀ e, last.result ≠ .failure e) → last.self.written = body.length
  complete : ∀ r, last.result = .complete r → r.body = body

/-- **The last of several calls gives what one call gives**, the earlier ones wait or give it already, and together they lay
the payload into the buffer. -/
theorem calls_agree (w : Bytes) (eof : Bool) : ∀ (ps : List Bytes) (start : Outcome) {p : Bytes} {o' : Outcome},
    Valid start.self p start.out.length → Paid start.self start.out w (payload start.self.method w) →
    (p :: (ps ++ [w])).IsChain (· <+: ·) → start.self.decode w start.out eof false = .ok o' →
    ∃ os last, decodeAll start.self start.out (ps.map (·, false) ++ [(w, eof)]) = .ok (os ++ [last]) ∧
      last.result = o'.result ∧ (∀ o ∈ os, o.result = .needMore ∨ o.result = o'.result) ∧
      (start :: (os ++ [last])).IsChain (Appends (payload start.self.method w)) ∧ Finished (payload start.self.method w) last
  | [], start, p, o', h, hpaid, hchain, ho' => by
    have hp := (List.isChain_cons_cons.1 hchain).1
    obtain ⟨o, ho, hvalid, -, hstanding⟩ := decode_spec h hp eof
    cases ho.symm.trans ho'
    have hcall := decode_pays hp (List.prefix_refl w) (fun _ => rfl) h hpaid ho
    refine ⟨[], o', ?_, rfl, fun _ hmem => absurd hmem List.not_mem_nil, ?_, hvalid.copied, hcall.whole rfl, fun r hr => ?_⟩
    · simp only [List.map_nil, List.nil_append, decodeAll, ho, bind, Except.bind]
    · exact List.isChain_cons_cons.2 ⟨hcall.appends, List.isChain_singleton o'⟩
    · have hlast : o'.self.result o'.out = .ok o' := by
        unfold Standing at hstanding
        rw [hr] at hstanding
        exact hstanding.2.2
      have hend := hcall.whole rfl fun e he => by
        rw [hr] at he
        cases he
      rw [result_body hlast hr, hcall.paid.filled, hend, List.take_length]
  | q :: ps, start, p, o', h, hpaid, hchain, ho' => by
    rw [List.cons_append, List.isChain_cons_cons] at hchain
    obtain ⟨hp, hrest⟩ := hchain
    have hq : q <+: w := chain_whole hrest
    obtain ⟨o, ho, hvalid, -, -⟩ := decode_spec h hp false
    obtain ⟨hfirst, o'', ho'', hsame⟩ := decode_agrees h hp hq ho ho'
    have hcall := decode_pays hp hq (fun heof => by cases heof) h hpaid ho
    have hnext := hcall.paid
    rw [← hcall.method] at hnext
    obtain ⟨os, last, hall, hlast, hevery, happends, hfinished⟩ := calls_agree w eof ps o hvalid hnext hrest ho''
    rw [hcall.method] at happends hfinished
    refine ⟨o :: os, last, ?_, hlast.trans hsame, fun x hx => ?_, ?_, hfinished⟩
    · simp only [List.map_cons, List.cons_append, decodeAll, ho, hall, bind, Except.bind]
    · rcases List.mem_cons.1 hx with rfl | hx
      · exact hfirst
      · rw [← hsame]
        exact hevery x hx
    · exact List.isChain_cons_cons.2 ⟨hcall.appends, happends⟩

/-- **The last of several calls gives what one call gives**, and no call leaves its bounds.  Each call writes the next bytes of
the payload behind those that are there; unless the response fails, the whole payload is written, once, and the body of a
complete response is the payload. -/
theorem decode_cut (method : Method) (out : Bytes) (ps : List Bytes) (w : Bytes) (eof : Bool)
    (hcut : (ps ++ [w]).IsChain (· <+: ·)) :
    ∃ os last whole, decodeAll (init method) out (ps.map (·, false) ++ [(w, eof)]) = .ok (os ++ [last]) ∧
      (init method).decode w out eof false = .ok whole ∧ last.result = whole.result ∧
      (∀ o ∈ os, o.result = .needMore ∨ o.result = whole.result) ∧
      ((⟨.needMore, init method, out⟩ : Outcome) :: (os ++ [last])).IsChain (Appends (payload method w)) ∧
      Finished (payload method w) last := by
  have hfresh := valid_init method out.length
  have hpaid : Paid (init method) out w (payload method w) :=
    ⟨Nat.zero_le _, rfl, fun _ _ head hhead => (by cases hhead), fun _ hd => by cases hd⟩
  obtain ⟨whole, hwhole, -, -, -⟩ := decode_spec hfresh (List.nil_prefix (l := w)) eof
  have hchain : ([] :: (ps ++ [w])).IsChain (· <+: ·) := by
    cases ps with
    | nil => exact List.isChain_cons_cons.2 ⟨List.nil_prefix, hcut⟩
    | cons p ps => exact List.isChain_cons_cons.2 ⟨List.nil_prefix, hcut⟩
  obtain ⟨os, last, hall, hrest⟩ := calls_agree w eof ps ⟨.needMore, init method, out⟩ hfresh hpaid hchain hwhole
  exact ⟨os, last, whole, hall, hwhole, hrest⟩

end Calls

/-- A response of one chunk. -/
def chunkText : Bytes := ascii "HTTP/1.1 200 N\r\nTransfer-Encoding:chunked\r\n\r\n02\r\nok\r\n0\r\n\r\n"

def bodyOf? : DecodeResult → Option Bytes
  | .complete r => some r.body
  | _ => none

theorem bodyOf?_some {result : DecodeResult} {body : Bytes} (h : bodyOf? result = some body) : ∃ r, result = .complete r := by
  cases result with
  | complete r => exact ⟨r, rfl⟩
  | needMore => cases h
  | aborted => cases h
  | failure e => cases h

/-- Cut in the line with the size and in the data, it gives the two bytes. -/
theorem decode_cut_chunk : ∃ os last whole,
    decodeAll (init .get) (zeros 8) [(chunkText.take 46, false), (chunkText.take 50, false), (chunkText, true)] =
      .ok (os ++ [last]) ∧
    (init .get).decode chunkText (zeros 8) true false = .ok whole ∧ last.result = whole.result ∧
    (∀ o ∈ os, o.result = .needMore ∨ o.result = whole.result) ∧
    ((⟨.needMore, init .get, zeros 8⟩ : Outcome) :: (os ++ [last])).IsChain (Appends (ascii "ok")) ∧
    last.self.copiedBytes = 2 ∧ ∃ r, last.result = .complete r ∧ r.body = ascii "ok" := by
  have hpayload : payload .get chunkText = ascii "ok" := by decide +kernel
  have hbody : ((init .get).decode chunkText (zeros 8) true false).map (fun o => bodyOf? o.result) = .ok (some (ascii "ok")) := by
    decide +kernel
  obtain ⟨os, last, whole, hall, hwhole, hsame, hevery, happends, hcounted, hcopied, hcomplete⟩ :=
    decode_cut .get (zeros 8) [chunkText.take 46, chunkText.take 50] chunkText true
      (List.isChain_cons_cons.2 ⟨by decide +kernel, List.isChain_cons_cons.2 ⟨by decide +kernel, List.isChain_singleton _⟩⟩)
  rw [hpayload] at happends hcopied hcomplete
  rw [hwhole] at hbody
  obtain ⟨r, hr⟩ : ∃ r, last.result = .complete r := by
    rw [hsame]
    exact bodyOf?_some (Except.ok.inj hbody)
  refine ⟨os, last, whole, hall, hwhole, hsame, hevery, happends, ?_, r, hr, hcomplete r hr⟩
  exact hcounted.trans (hcopied fun e he => by cases hr.symm.trans he)

end ResponseDecoder
end Http
end R4
