import R4Recovery.HttpDecodePass
/-!
# HttpDecodeChunks — chunks that arrive in pieces

The positions that a decoder remembers do not change what a pass gives, and a pass that waits goes on as if it had not; so
does the loop (`chunks_follow`).
-/
namespace R4
namespace Http
namespace ResponseDecoder

/-- Two decoders differ in what they remember of their scans and counts only. -/
def Alike (s t : ResponseDecoder) : Prop := ∃ seen header line copied,
  t = { s with seenInput := seen, headerScan := header, lineScan := line, copiedBytes := copied }

inductive AlikePass : Pass → Pass → Prop where
  | again {s t : ResponseDecoder} {out : Bytes} : Alike s t → AlikePass (.again s out) (.again t out)
  | ended {o o' : Outcome} : o.result = o'.result → AlikePass (.ended o) (.ended o')

/-- What a pass on a longer input gives: the same, or what the waiting decoder gives there. -/
inductive Follows (w : Bytes) (eof : Bool) : Pass → Pass → Prop where
  | again {s : ResponseDecoder} {out : Bytes} : Follows w eof (.again s out) (.again s out)
  | ended {o o' : Outcome} : o.result ≠ .needMore → o.result = o'.result → Follows w eof (.ended o) (.ended o')
  | wait {o : Outcome} {P Q : Pass} : o.result = .needMore → o.self.pass w o.out eof = .ok P → AlikePass Q P →
      Follows w eof (.ended o) Q

/-! ## Alike decoders -/

section Alike

variable {s t : ResponseDecoder} {input out : Bytes} {eof : Bool} {o o' : Outcome} {P Q : Pass}

theorem Alike.refl (s : ResponseDecoder) : Alike s s := ⟨_, _, _, _, rfl⟩

theorem AlikePass.refl : ∀ P : Pass, AlikePass P P
  | .again s _ => .again (.refl s)
  | .ended _ => .ended rfl

theorem result_alike (h : Alike s t) (hs : s.result out = .ok o) (ht : t.result out = .ok o') : o.result = o'.result := by
  obtain ⟨seen, header, line, copied, rfl⟩ := h
  unfold result at hs ht
  cases hhead : s.head with
  | none =>
    rw [hhead] at hs
    cases hs
  | some head =>
    simp only [hhead] at hs ht
    obtain ⟨body, hbody, hs⟩ := Except.bind_ok.1 hs
    obtain ⟨body', hbody', ht⟩ := Except.bind_ok.1 ht
    cases hbody.symm.trans hbody'
    cases hs
    cases ht
    rfl

theorem result_ne (h : s.result out = .ok o) : o.result ≠ .needMore := by
  unfold result at h
  split at h
  · cases h
  · obtain ⟨body, -, h⟩ := Except.bind_ok.1 h
    cases h
    exact nofun

theorem more_alike (s t : ResponseDecoder) (out out' : Bytes) (eof : Bool) :
    (s.more eof out).result = (t.more eof out').result := by
  cases eof <;> rfl

theorem sizePass_alike (h : Alike s t) (hs : Framed s input out.length) (ht : Framed t input out.length)
    (hP : s.sizePass input out eof = .ok P) (hQ : t.sizePass input out eof = .ok Q) : AlikePass P Q := by
  obtain ⟨seen, header, line, copied, rfl⟩ := h
  cases hline : lineIn input s.cursor with
  | none =>
    rw [sizePass_missing hs hline] at hP
    rw [sizePass_missing ht hline] at hQ
    cases hP
    cases hQ
    split
    · exact .ended rfl
    · exact .ended (more_alike _ _ _ _ _)
  | some stop =>
    rw [sizePass_found hs hline] at hP
    rw [sizePass_found ht hline] at hQ
    cases hP
    cases hQ
    simp only
    cases chunkSize (slice input s.cursor (stop - s.cursor)) with
    | none => exact .ended rfl
    | some n =>
      simp only
      split
      · exact .ended rfl
      · exact .again ⟨seen, header, 0, copied, rfl⟩

theorem dataPass_alike (h : Alike s t) (hs : Framed s input out.length) (ht : Framed t input out.length)
    (hphase : s.phase = .data) (hP : s.dataPass input out eof = .ok P) (hQ : t.dataPass input out eof = .ok Q) :
    AlikePass P Q := by
  obtain ⟨seen, header, line, copied, rfl⟩ := h
  rw [dataPass_eq hs hphase] at hP
  rw [dataPass_eq ht hphase] at hQ
  cases hP
  cases hQ
  simp only
  split
  · exact .ended (more_alike _ _ _ _ _)
  · exact .again ⟨seen, header, line, _, rfl⟩

theorem crlfPass_alike (h : Alike s t) (hs : Framed s input out.length) (ht : Framed t input out.length)
    (hP : s.crlfPass input out eof = .ok P) (hQ : t.crlfPass input out eof = .ok Q) : AlikePass P Q := by
  obtain ⟨seen, header, line, copied, rfl⟩ := h
  have hcursor := hs.cursor
  by_cases hshort : input.length - s.cursor < 2
  · rw [crlfPass_short hs hshort] at hP
    rw [crlfPass_short ht hshort] at hQ
    cases hP
    cases hQ
    exact .ended (more_alike _ _ _ _ _)
  · have htwo : s.cursor + 2 ≤ input.length := by omega
    rw [crlfPass_eq htwo] at hP
    rw [crlfPass_eq (s := { s with seenInput := seen, headerScan := header, lineScan := line, copiedBytes := copied })
      htwo] at hQ
    cases hP
    cases hQ
    simp only
    split
    · exact .ended rfl
    · exact .again ⟨seen, header, line, copied, rfl⟩

theorem trailed_alike {line : Bytes} (h : Alike s t) (hP : s.trailed line out = .ok P) (hQ : t.trailed line out = .ok Q) :
    AlikePass P Q := by
  have halike := h
  obtain ⟨seen, header, last, copied, rfl⟩ := h
  unfold trailed at hP hQ
  by_cases hempty : line.length = 0
  · rw [if_pos hempty] at hP hQ
    obtain ⟨o, ho, hP⟩ := Except.bind_ok.1 hP
    obtain ⟨o', ho', hQ⟩ := Except.bind_ok.1 hQ
    cases hP
    cases hQ
    exact .ended (result_alike ⟨seen, header, last, copied, rfl⟩ ho ho')
  · rw [if_neg hempty] at hP hQ
    by_cases hmany : s.trailerCount + 1 > maxHeaderCount
    · rw [if_pos hmany] at hP hQ
      cases hP
      cases hQ
      exact .ended rfl
    · rw [if_neg hmany] at hP hQ
      obtain ⟨e, he⟩ := trailerError_ok line
      rw [he] at hP hQ
      cases e with
      | none =>
        cases hP
        cases hQ
        exact .again ⟨seen, header, last, copied, rfl⟩
      | some e =>
        cases hP
        cases hQ
        exact .ended rfl

theorem trailerPass_alike (h : Alike s t) (hs : Framed s input out.length) (ht : Framed t input out.length)
    (hphase : s.phase = .trailers) (hP : s.trailerPass input out eof = .ok P) (hQ : t.trailerPass input out eof = .ok Q) :
    AlikePass P Q := by
  obtain ⟨seen, header, line, copied, rfl⟩ := h
  cases hline : lineIn input s.cursor with
  | none =>
    rw [trailerPass_missing hs hphase hline] at hP
    rw [trailerPass_missing ht hphase hline] at hQ
    cases hP
    cases hQ
    split
    · exact .ended rfl
    · exact .ended (more_alike _ _ _ _ _)
  | some stop =>
    rw [trailerPass_found hs hphase hline] at hP
    rw [trailerPass_found ht hphase hline] at hQ
    simp only at hQ
    by_cases hlong : stop + 2 - s.trailerStart > maxHeaderBytes
    · rw [if_pos hlong] at hP hQ
      cases hP
      cases hQ
      exact .ended rfl
    · rw [if_neg hlong] at hP hQ
      exact trailed_alike ⟨seen, header, 0, copied, rfl⟩ hP hQ

/-- **What is remembered does not change a pass.** -/
theorem pass_alike (h : Alike s t) (hs : Framed s input out.length) (ht : Framed t input out.length)
    (hP : s.pass input out eof = .ok P) (hQ : t.pass input out eof = .ok Q) : AlikePass P Q := by
  have hsame : t.phase = s.phase := by
    obtain ⟨seen, header, line, copied, rfl⟩ := h
    rfl
  unfold pass at hP hQ
  rw [hsame] at hQ
  cases hphase : s.phase with
  | size =>
    rw [hphase] at hP hQ
    exact sizePass_alike h hs ht hP hQ
  | data =>
    rw [hphase] at hP hQ
    exact dataPass_alike h hs ht hphase hP hQ
  | dataCrlf =>
    rw [hphase] at hP hQ
    exact crlfPass_alike h hs ht hP hQ
  | trailers =>
    rw [hphase] at hP hQ
    exact trailerPass_alike h hs ht hphase hP hQ

end Alike

/-! ## Longer inputs -/

section Longer

variable {s t : ResponseDecoder} {q w out : Bytes} {eof : Bool} {a b n : Nat} {P Q : Pass}

theorem took_took (s : ResponseDecoder) (a b : Nat) : (s.took a).took b = s.took (a + b) := by
  simp only [took, Nat.add_assoc]

theorem put_slices (hp : q <+: w) (h : a + b ≤ q.length) (m : Nat) :
    put (put out n (slice q a b)) (n + b) (slice w (a + b) m) = put out n (slice w a (b + m)) := by
  have hlen : (slice q a b).length = b := length_slice h
  have hput := @put_put out (slice w (a + b) m) (slice q a b) n
  rw [hlen] at hput
  rw [hput, slice_append, slice_extend hp h]

theorem follows_wait (halike : Alike s t) (hs : Framed s w out.length) (ht : Framed t w out.length) (hhead : t.head ≠ none)
    (hQ : s.pass w out eof = .ok Q) : Follows w eof (.ended ⟨.needMore, t, out⟩) Q := by
  obtain ⟨P, hP, -⟩ := pass_spec ht hhead eof
  exact .wait rfl hP (pass_alike halike hs ht hQ hP)

theorem sizePass_follow (hp : q <+: w) (h : Framed s q out.length) (hphase : s.phase = .size) (hhead : s.head ≠ none)
    (hP : s.sizePass q out false = .ok P) (hQ : s.sizePass w out eof = .ok Q) : Follows w eof P Q := by
  have hlen := hp.length_le
  have hcursor := h.cursor
  have hw : Framed s w out.length := h.mono hp
  cases hline : lineIn q s.cursor with
  | none =>
    rw [sizePass_missing h hline] at hP
    cases hP
    by_cases hfull : q.length - s.cursor ≥ maxHeaderBytes
    · rw [if_pos hfull]
      rw [sizePass_missing hw (lineIn_full hp hline (by omega)), if_pos (by omega)] at hQ
      cases hQ
      exact .ended nofun rfl
    · rw [if_neg hfull]
      refine follows_wait ⟨_, _, _, _, rfl⟩ hw ((framed_waited h hline).mono hp) hhead ?_
      unfold pass
      rw [hphase]
      exact hQ
  | some stop =>
    obtain ⟨hle, hstop, -, -⟩ := lineIn_some hline
    rw [sizePass_found h hline] at hP
    rw [sizePass_found hw (lineIn_mono hp hline), slice_extend hp (by omega)] at hQ
    cases hP
    cases hQ
    cases chunkSize (slice q s.cursor (stop - s.cursor)) with
    | none => exact .ended nofun rfl
    | some n =>
      simp only
      split
      · exact .ended nofun rfl
      · exact .again

theorem dataPass_follow (hp : q <+: w) (h : Framed s q out.length) (hphase : s.phase = .data)
    (hP : s.dataPass q out false = .ok P) (hQ : s.dataPass w out eof = .ok Q) : Follows w eof P Q := by
  have hlen := hp.length_le
  have hw : Framed s w out.length := h.mono hp
  have hcursor := h.cursor
  have hremaining := h.remaining hphase
  have hwritten := h.written
  rw [dataPass_eq h hphase] at hP
  cases hP
  simp only
  generalize htake : min (q.length - s.cursor) s.remaining = take
  by_cases hmore : s.remaining - take ≠ 0
  · rw [if_pos hmore]
    have hkept := kept_took (m := s.remaining - take) h (n := take) (by omega) (by omega) fun _ => by omega
    generalize hnext : ({ s.took take with remaining := s.remaining - take } : ResponseDecoder) = next at hkept
    have hdata : next.phase = .data := hnext ▸ hphase
    refine .wait rfl ?_ (.refl Q)
    have hpass : next.pass w (put out s.written (slice q s.cursor take)) eof =
        next.dataPass w (put out s.written (slice q s.cursor take)) eof := by
      unfold pass
      rw [hdata]
    refine hpass.trans (Eq.trans ?_ hQ)
    rw [dataPass_eq (hkept.framed.mono hp) hdata, dataPass_eq hw hphase, ← hnext]
    simp only [took]
    have hsplit : min (w.length - s.cursor) s.remaining =
        take + min (w.length - (s.cursor + take)) (s.remaining - take) := by omega
    have hcopied : s.cursor + take ≤ q.length := by omega
    simp only [hsplit, put_slices hp hcopied, Nat.add_assoc, Nat.sub_sub]
  · rw [if_neg hmore]
    rw [dataPass_eq hw hphase] at hQ
    cases hQ
    simp only
    rw [show min (w.length - s.cursor) s.remaining = take by omega, if_neg hmore, slice_extend hp (by omega)]
    exact .again

theorem crlfPass_follow (hp : q <+: w) (h : Framed s q out.length) (hphase : s.phase = .dataCrlf) (hhead : s.head ≠ none)
    (hP : s.crlfPass q out false = .ok P) (hQ : s.crlfPass w out eof = .ok Q) : Follows w eof P Q := by
  have hlen := hp.length_le
  have hcursor := h.cursor
  by_cases hshort : q.length - s.cursor < 2
  · rw [crlfPass_short h hshort] at hP
    cases hP
    refine follows_wait (.refl s) (h.mono hp) (h.mono hp) hhead ?_
    unfold pass
    rw [hphase]
    exact hQ
  · rw [crlfPass_eq (by omega)] at hP
    rw [crlfPass_eq (by omega), slice_extend hp (by omega)] at hQ
    cases hP
    cases hQ
    split
    · exact .ended nofun rfl
    · exact .again

theorem trailed_follow {line : Bytes} (hP : s.trailed line out = .ok P) : Follows w eof P P := by
  unfold trailed at hP
  by_cases hempty : line.length = 0
  · rw [if_pos hempty] at hP
    obtain ⟨o, ho, hP⟩ := Except.bind_ok.1 hP
    cases hP
    exact .ended (result_ne ho) rfl
  · rw [if_neg hempty] at hP
    by_cases hmany : s.trailerCount + 1 > maxHeaderCount
    · rw [if_pos hmany] at hP
      cases hP
      exact .ended nofun rfl
    · rw [if_neg hmany] at hP
      obtain ⟨e, he⟩ := trailerError_ok line
      rw [he] at hP
      cases e with
      | none =>
        cases hP
        exact .again
      | some e =>
        cases hP
        exact .ended nofun rfl

theorem trailerPass_follow (hp : q <+: w) (h : Framed s q out.length) (hphase : s.phase = .trailers) (hhead : s.head ≠ none)
    (hP : s.trailerPass q out false = .ok P) (hQ : s.trailerPass w out eof = .ok Q) : Follows w eof P Q := by
  have hlen := hp.length_le
  have hcursor := h.cursor
  have htrailer := h.trailer hphase
  have hw : Framed s w out.length := h.mono hp
  cases hline : lineIn q s.cursor with
  | none =>
    rw [trailerPass_missing h hphase hline] at hP
    cases hP
    by_cases hfull : q.length - s.trailerStart ≥ maxHeaderBytes
    · rw [if_pos hfull]
      -- an end that comes later lies behind the limit of the trailers
      cases hlater : lineIn w s.cursor with
      | none =>
        rw [trailerPass_missing hw hphase hlater, if_pos (by omega)] at hQ
        cases hQ
        exact .ended nofun rfl
      | some stop =>
        have hlate := lineIn_late hp hline hlater
        rw [trailerPass_found hw hphase hlater, if_pos (by omega)] at hQ
        cases hQ
        exact .ended nofun rfl
    · rw [if_neg hfull]
      refine follows_wait ⟨_, _, _, _, rfl⟩ hw ((framed_waited h hline).mono hp) hhead ?_
      unfold pass
      rw [hphase]
      exact hQ
  | some stop =>
    obtain ⟨hle, hstop, -, -⟩ := lineIn_some hline
    rw [trailerPass_found h hphase hline] at hP
    rw [trailerPass_found hw hphase (lineIn_mono hp hline), slice_extend hp (by omega)] at hQ
    split at hP
    · rw [if_pos ‹_›] at hQ
      cases hP
      cases hQ
      exact .ended nofun rfl
    · rw [if_neg ‹_›] at hQ
      cases hP.symm.trans hQ
      exact trailed_follow hP

/-- **What a pass gives stands**, or it waits and goes on as if it had not. -/
theorem pass_follow (hp : q <+: w) (h : Framed s q out.length) (hhead : s.head ≠ none) (hP : s.pass q out false = .ok P)
    (hQ : s.pass w out eof = .ok Q) : Follows w eof P Q := by
  unfold pass at hP hQ
  cases hphase : s.phase with
  | size =>
    rw [hphase] at hP hQ
    exact sizePass_follow hp h hphase hhead hP hQ
  | data =>
    rw [hphase] at hP hQ
    exact dataPass_follow hp h hphase hP hQ
  | dataCrlf =>
    rw [hphase] at hP hQ
    exact crlfPass_follow hp h hphase hhead hP hQ
  | trailers =>
    rw [hphase] at hP hQ
    exact trailerPass_follow hp h hphase hhead hP hQ

end Longer

/-! ## The loop -/

/-- What a longer input gives: the same, or what the waiting decoder gives when it goes on. -/
def Continues (go : ResponseDecoder → Bytes → Access Outcome) (o o' : Outcome) : Prop :=
  (o.result ≠ .needMore ∧ o.result = o'.result) ∨
    (o.result = .needMore ∧ ∃ o'', go o.self o.out = .ok o'' ∧ o''.result = o'.result)

section Chunks

variable {s s' t : ResponseDecoder} {input q w out out' : Bytes} {eof : Bool} {o o' : Outcome}

theorem chunks_again (h : s.pass input out eof = .ok (.again s' out')) :
    s.chunks input out eof = s'.chunks input out' eof := by
  rw [chunks]
  split
  · rename_i h'
    rw [h] at h'
    cases h'
  · rename_i h'
    rw [h] at h'
    cases h'
  · rename_i h'
    rw [h] at h'
    cases h'
    rfl

theorem chunks_ended (h : s.pass input out eof = .ok (.ended o)) : s.chunks input out eof = .ok o := by
  rw [chunks]
  split
  · rename_i h'
    rw [h] at h'
    cases h'
  · rename_i h'
    rw [h] at h'
    cases h'
    rfl
  · rename_i h'
    rw [h] at h'
    cases h'

theorem Ends.waits (h : Ends s out o) (hmore : o.result = .needMore) : o.self = s ∧ o.out = out := by
  cases h with
  | fail e => cases hmore
  | wait => exact ⟨rfl, rfl⟩
  | done ho => exact absurd hmore (result_ne ho)

/-- **The loop ends in its bounds.** -/
theorem chunks_spec {s : ResponseDecoder} {out : Bytes} (h : Framed s input out.length) (hhead : s.head ≠ none)
    (eof : Bool) :
    ∃ o s' out', s.chunks input out eof = .ok o ∧ Kept s input out s' out' ∧ Ends s' out' o := by
  obtain ⟨P, hP, hspec⟩ := pass_spec h hhead eof
  cases hspec with
  | @again s1 out1 hkept =>
    have hless := pass_rank hP
    obtain ⟨o, s', out', hchunks, hkept', hends⟩ :=
      chunks_spec hkept.framed (by rw [hkept.same.head]; exact hhead) eof
    exact ⟨o, s', out', (chunks_again hP).trans hchunks, hkept.trans hkept', hends⟩
  | ended hkept hends => exact ⟨_, _, _, chunks_ended hP, hkept, hends⟩
termination_by s.rank input

theorem chunks_alike {s t : ResponseDecoder} {out : Bytes} (halike : Alike s t) (hs : Framed s input out.length)
    (ht : Framed t input out.length)
    (hhead : s.head ≠ none) (ho : s.chunks input out eof = .ok o) (ho' : t.chunks input out eof = .ok o') :
    o.result = o'.result := by
  have hhead' : t.head ≠ none := by
    obtain ⟨seen, header, line, copied, rfl⟩ := halike
    exact hhead
  obtain ⟨P, hP, hspec⟩ := pass_spec hs hhead eof
  obtain ⟨Q, hQ, hspec'⟩ := pass_spec ht hhead' eof
  have hpass := pass_alike halike hs ht hP hQ
  cases hpass with
  | @again s1 t1 out1 halike1 =>
    have hless := pass_rank hP
    rw [chunks_again hP] at ho
    rw [chunks_again hQ] at ho'
    cases hspec with
    | again hkept =>
      cases hspec' with
      | again hkept' =>
        exact chunks_alike halike1 hkept.framed hkept'.framed (by rw [hkept.same.head]; exact hhead) ho ho'
  | ended hsame =>
    rw [chunks_ended hP] at ho
    rw [chunks_ended hQ] at ho'
    cases ho
    cases ho'
    exact hsame
termination_by s.rank input

/-- **The loop goes on as if it had not waited.** -/
theorem chunks_follow {s : ResponseDecoder} {out : Bytes} (hp : q <+: w) (h : Framed s q out.length)
    (hhead : s.head ≠ none) (ho : s.chunks q out false = .ok o)
    (ho' : s.chunks w out eof = .ok o') : Continues (fun t out => t.chunks w out eof) o o' := by
  obtain ⟨P, hP, hspec⟩ := pass_spec h hhead false
  obtain ⟨Q, hQ, hspec'⟩ := pass_spec (h.mono hp) hhead eof
  have hfollow := pass_follow hp h hhead hP hQ
  cases hfollow with
  | @again s1 out1 =>
    have hless := pass_rank hP
    rw [chunks_again hP] at ho
    rw [chunks_again hQ] at ho'
    cases hspec with
    | again hkept => exact chunks_follow hp hkept.framed (by rw [hkept.same.head]; exact hhead) ho ho'
  | ended hresult hsame =>
    rw [chunks_ended hP] at ho
    rw [chunks_ended hQ] at ho'
    cases ho
    cases ho'
    exact .inl ⟨hresult, hsame⟩
  | @wait o1 R _ hmore hR halike =>
    rw [chunks_ended hP] at ho
    cases ho
    refine .inr ⟨hmore, ?_⟩
    cases hspec with
    | @ended s1 out1 _ hkept hends =>
      obtain ⟨hself, hout⟩ := hends.waits hmore
      have hframed : Framed o.self w o.out.length := by
        rw [hself, hout]
        exact hkept.framed.mono hp
      have hhead1 : o.self.head ≠ none := by
        rw [hself, hkept.same.head]
        exact hhead
      obtain ⟨R', hR', hspecR⟩ := pass_spec hframed hhead1 eof
      cases hR.symm.trans hR'
      cases halike with
      | @again s2 t2 out2 halike2 =>
        cases hspec' with
        | again hkept2 =>
          cases hspecR with
          | again hkept3 =>
            obtain ⟨o2, -, -, ho2, -, -⟩ := chunks_spec hkept3.framed (by rw [hkept3.same.head]; exact hhead1) eof
            refine ⟨o2, (chunks_again hR).trans ho2, ?_⟩
            rw [chunks_again hQ] at ho'
            exact (chunks_alike halike2 hkept2.framed hkept3.framed (by rw [hkept2.same.head]; exact hhead) ho' ho2).symm
      | ended hsame =>
        refine ⟨_, chunks_ended hR, ?_⟩
        rw [chunks_ended hQ] at ho'
        cases ho'
        exact hsame.symm
termination_by s.rank q

end Chunks

end ResponseDecoder
end Http
end R4
