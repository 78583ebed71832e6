import R4Recovery.HttpStream
/-!
# HttpStreamExact — what a response gives as it arrives

In every run without an exit that is not recorded, the bytes that are returned are those behind the head, the head is the
same for every cutting, and a failure stays one (`streams_exact`).
-/
namespace R4
namespace Http
namespace StreamDecoder

/-! ## Runs -/

/-- One call. -/
structure Push where
  input : Bytes
  eof : Bool
  stopRequested : Bool
  deriving DecidableEq, Repr

/-- A call, the state before it and its result. -/
structure Turn where
  before : StreamDecoder
  call : Push
  result : StreamDecodeResult
  deriving DecidableEq, Repr

inductive Run (start : StreamDecoder) : List Turn → StreamDecoder → Prop where
  | start : Run start [] start
  | turn {log : List Turn} {s s' : StreamDecoder} {call : Push} {r : StreamDecodeResult} : Run start log s →
      s.push call.input call.eof call.stopRequested = .ok (r, s') → Run start (log ++ [⟨s, call, r⟩]) s'

/-- The bytes that were passed. -/
def seen (log : List Turn) : Bytes := log.flatMap (fun t => t.call.input)

/-- The bytes of a chunk. -/
def bytesOf : StreamDecodeResult → Bytes
  | .chunk bytes _ => bytes
  | _ => []

/-- The bytes that were returned. -/
def returned (log : List Turn) : Bytes := log.flatMap (fun t => bytesOf t.result)

/-- Completion is reported. -/
def Completes : StreamDecodeResult → Prop
  | .chunk _ complete => complete = true
  | .complete => True
  | _ => False

/-- A chunk or completion. -/
def Gives : StreamDecodeResult → Prop
  | .chunk _ _ => True
  | .complete => True
  | _ => False

/-! ## The texts -/

/-- What follows the head. -/
def bodyOf (text : Bytes) : Bytes :=
  match indexOf text terminator with
  | none => []
  | some stop => text.drop (stop + 4)

/-- The head that is accepted with room for `room` bytes. -/
def acceptedHead (room : Nat) (text : Bytes) : Option ParsedHead :=
  match indexOf text terminator with
  | none => none
  | some stop =>
    if stop + 4 ≤ room then
      match parseHead (text.take (stop + 4)) with
      | .ok (.value head) => some head
      | _ => none
    else none

def buffered (self : StreamDecoder) : Bytes := self.headerBuffer.take self.headerLen

def room (self : StreamDecoder) : Nat := min self.headerBuffer.length maxHeaderBytes

/-! ## The exits that are not recorded -/

/-- Bytes that no message has, or an end in front of the last one. -/
def Overruns (self : StreamDecoder) (head : ParsedHead) (body : Bytes) (eof : Bool) : Prop :=
  if noBody self.method head then body ≠ []
  else head.transfer = .contentLength ∧
    (head.contentLength < self.received + body.length ∨ (eof = true ∧ body = [] ∧ self.received < head.contentLength))

instance (self : StreamDecoder) (head : ParsedHead) (body : Bytes) (eof : Bool) : Decidable (Overruns self head body eof) :=
  inferInstanceAs (Decidable (if noBody self.method head then body ≠ [] else head.transfer = .contentLength ∧
    (head.contentLength < self.received + body.length ∨ (eof = true ∧ body = [] ∧ self.received < head.contentLength))))

/-- Nothing is given any more: the head is malformed, too large or without a length. -/
def Refused (self : StreamDecoder) : Prop :=
  self.failure ≠ none ∨ (self.done = false ∧ self.head = none ∧ self.room ≤ self.headerLen) ∨
    (self.done = false ∧ ∃ head, self.head = some head ∧ noBody self.method head = false ∧ head.transfer ≠ .contentLength)

/-- A failure of the call is not recorded. -/
def Slips (self : StreamDecoder) (call : Push) : Prop :=
  call.stopRequested = false ∧ self.failure = none ∧
    ((self.done = true ∧ call.input ≠ []) ∨
    (self.done = false ∧ ∃ head, self.head = some head ∧ Overruns self head call.input call.eof) ∨
    (self.done = false ∧ self.head = none ∧ ∃ stop head, indexOf (self.buffered ++ call.input) terminator = some stop ∧
      stop + 4 ≤ self.room ∧ parseHead ((self.buffered ++ call.input).take (stop + 4)) = .ok (.value head) ∧
      Overruns self head ((self.buffered ++ call.input).drop (stop + 4)) call.eof) ∨
    (self.done = false ∧ self.head = none ∧ call.eof = true ∧ indexOf (self.buffered ++ call.input) terminator = none ∧
      (self.buffered ++ call.input).length < self.room))

/-- A call that is stopped takes bytes with it. -/
def Drops (self : StreamDecoder) (call : Push) : Prop :=
  call.stopRequested = true ∧ call.input ≠ [] ∧ self.done = false ∧ ¬ Refused self

/-- No call follows one whose failure is not recorded, and none takes bytes with it. -/
def Clean (log : List Turn) : Prop := ∀ pre t post, log = pre ++ t :: post →
  (Slips t.before t.call → post = []) ∧ ¬ Drops t.before t.call

/-! ## Gathering the head -/

section Gather

variable {self s' : StreamDecoder} {text : Bytes}

theorem occurs_iff {i : Nat} : Occurs text terminator i ↔ slice text i 4 = terminator := by
  rw [Occurs, List.prefix_iff_eq_take, slice]
  exact ⟨fun h => h.symm, fun h => h.symm⟩

theorem occurs_snoc {b : UInt8} {i : Nat} (hnone : ∀ j, ¬ Occurs text terminator j) (h : Occurs (text ++ [b]) terminator i) :
    i + 4 = text.length + 1 := by
  have hle := h.end_le terminator_ne_nil
  rw [List.length_append, List.length_singleton] at hle
  have hfour : terminator.length = 4 := rfl
  by_contra hne
  exact hnone i (h.of_le (List.prefix_append _ _) (by omega))

/-- How the head is gathered from the text so far. -/
inductive Gathered (self : StreamDecoder) (text : Bytes) : StreamDecoder → Fed → Prop where
  | more {b : Bytes} : indexOf text terminator = none → text.length ≤ self.room → b.length = self.headerBuffer.length →
      b.take text.length = text → Gathered self text { self with headerBuffer := b, headerLen := text.length } .more
  | full {b : Bytes} : b.length = self.headerBuffer.length → self.room < text.length →
      (∀ stop, indexOf text terminator = some stop → self.room < stop + 4) →
      Gathered self text { self with headerBuffer := b, headerLen := self.room } .full
  | head {b : Bytes} {stop : Nat} {head : ParsedHead} : b.length = self.headerBuffer.length →
      indexOf text terminator = some stop → stop + 4 ≤ self.room → parseHead (text.take (stop + 4)) = .ok (.value head) →
      Gathered self text { self with headerBuffer := b, headerLen := stop + 4, head := some head }
      (.head (text.drop (stop + 4)))
  | failed {b : Bytes} {stop : Nat} {e : ResponseError} : b.length = self.headerBuffer.length →
      indexOf text terminator = some stop → stop + 4 ≤ self.room → parseHead (text.take (stop + 4)) = .ok (.failure e) →
      Gathered self text { self with headerBuffer := b, headerLen := stop + 4, failure := some e } (.failed e)

theorem take_set {b : Bytes} {n : Nat} {v : UInt8} (h : n < b.length) : (b.set n v).take (n + 1) = b.take n ++ [v] := by
  rw [List.take_succ_eq_append_getElem (by rw [List.length_set]; exact h), List.getElem_set_self,
    List.take_set_of_le (Nat.le_refl n)]

theorem feed_spec : ∀ (input : Bytes) (self : StreamDecoder), self.headerLen ≤ self.room →
    (∀ j, ¬ Occurs self.buffered terminator j) →
    ∃ s' fed, self.feed input = .ok (s', fed) ∧ Gathered self (self.buffered ++ input) s' fed
  | [], self, hlen, hnone => by
    refine ⟨self, .more, rfl, ?_⟩
    have hbuf : self.buffered.length = self.headerLen := by
      rw [buffered, List.length_take]
      exact Nat.min_eq_left (hlen.trans (Nat.min_le_left _ _))
    rw [List.append_nil]
    have hmore : Gathered self self.buffered { self with headerBuffer := self.headerBuffer, headerLen :=
        self.buffered.length } .more :=
      .more (indexOf_eq_none hnone) (hbuf ▸ hlen) rfl (by rw [hbuf]; rfl)
    rw [hbuf] at hmore
    exact hmore
  | byte :: rest, self, hlen, hnone => by
    have hbuf : self.buffered.length = self.headerLen := by
      rw [buffered, List.length_take]
      exact Nat.min_eq_left (hlen.trans (Nat.min_le_left _ _))
    unfold feed
    by_cases hfull : self.headerLen ≥ self.headerBuffer.length ∨ self.headerLen ≥ maxHeaderBytes
    · have hroom : self.room = self.headerLen := by
        unfold room at hlen ⊢
        omega
      rw [if_pos hfull]
      refine ⟨self, .full, rfl, ?_⟩
      have hdone : Gathered self (self.buffered ++ byte :: rest)
          { self with headerBuffer := self.headerBuffer, headerLen := self.room } .full := by
        refine .full rfl (by rw [List.length_append, List.length_cons]; omega) fun stop hstop => ?_
        by_contra hle
        have hfour : terminator.length = 4 := rfl
        exact hnone stop ((indexOf_some hstop).1.of_le (List.prefix_append _ _) (by omega))
      rw [hroom] at hdone
      exact hdone
    · have hlt : self.headerLen < self.room := by
        unfold room
        omega
      have hin : self.headerLen < self.headerBuffer.length := by omega
      rw [if_neg hfull]
      simp only
      generalize hself : self.store byte = self'
      have hbuffer : self'.headerBuffer = self.headerBuffer.set self.headerLen byte := hself ▸ rfl
      have hheader : self'.headerLen = self.headerLen + 1 := hself ▸ rfl
      have hroom : self'.room = self.room := by rw [room, room, hbuffer, List.length_set]
      have htext : self'.buffered = self.buffered ++ [byte] := by
        rw [buffered, buffered, hbuffer, hheader, take_set hin]
      have hlength : self'.buffered.length = self'.headerLen := by
        rw [htext, List.length_append, List.length_singleton, hbuf, hheader]
      have hwhole : self'.buffered ++ rest = self.buffered ++ byte :: rest := by
        rw [htext, List.append_assoc]
        rfl
      have hfour : terminator.length = 4 := rfl
      have hend : ∀ j, Occurs self'.buffered terminator j → j + 4 = self'.headerLen := by
        intro j hj
        rw [htext] at hj
        have := occurs_snoc hnone hj
        omega
      -- the last four bytes are those of the text that is gathered
      have hlast : self'.headerLen ≥ 4 → slice self'.headerBuffer (self'.headerLen - 4) 4 =
          slice self'.buffered (self'.headerLen - 4) 4 := by
        intro h4
        rw [buffered, ← slice_extend (List.take_prefix _ _) (by rw [List.length_take, hbuffer, List.length_set]; omega)]
      by_cases hcheck : self'.headerLen ≥ 4 ∧ slice self'.headerBuffer (self'.headerLen - 4) 4 = terminator
      · obtain ⟨h4, hslice⟩ := hcheck
        rw [if_pos ⟨h4, hslice⟩]
        have hoccurs : Occurs self'.buffered terminator (self'.headerLen - 4) := occurs_iff.2 ((hlast h4).symm.trans hslice)
        have hfirst : indexOf self'.buffered terminator = some (self'.headerLen - 4) :=
          indexOf_eq_some hoccurs terminator_ne_nil fun j hj ho => by
            have := hend j ho
            omega
        have hstop : indexOf (self.buffered ++ byte :: rest) terminator = some (self'.headerLen - 4) := by
          rw [← hwhole]
          exact indexOf_extend (List.prefix_append _ _) terminator_ne_nil hfirst
        have htake : (self.buffered ++ byte :: rest).take (self'.headerLen - 4 + 4) = self'.buffered := by
          rw [Nat.sub_add_cancel h4, ← hwhole, ← hlength, List.take_left]
        have hdrop : (self.buffered ++ byte :: rest).drop (self'.headerLen - 4 + 4) = rest := by
          rw [Nat.sub_add_cancel h4, ← hwhole, ← hlength, List.drop_left]
        have hsub : sub self'.headerBuffer 0 self'.headerLen = .ok self'.buffered := by
          rw [sub_ok (Nat.zero_le _) (by rw [hbuffer, List.length_set]; omega), Nat.sub_zero]
          rfl
        obtain ⟨r, hr⟩ := parseHead_ok self'.buffered
        rw [hsub]
        simp only [bind, Except.bind, hr]
        obtain ⟨-, hnever⟩ | ⟨stop, hstop', ⟨e, rfl⟩ | ⟨head, rfl, -⟩⟩ := parseHead_spec hr
        · rw [hnever] at hfirst
          cases hfirst
        · have hgathered := @Gathered.failed self _ self'.headerBuffer _ e (by rw [hbuffer, List.length_set])
              hstop (by omega) (by rw [htake]; exact hr)
          rw [Nat.sub_add_cancel h4] at hgathered
          refine ⟨_, _, rfl, ?_⟩
          rw [← hself] at hgathered ⊢
          exact hgathered
        · have hgathered := @Gathered.head self _ self'.headerBuffer _ head (by rw [hbuffer, List.length_set])
              hstop (by omega) (by rw [htake]; exact hr)
          rw [Nat.sub_add_cancel h4] at hgathered hdrop
          rw [hdrop] at hgathered
          refine ⟨_, _, rfl, ?_⟩
          rw [← hself] at hgathered ⊢
          exact hgathered
      · rw [if_neg hcheck]
        have hnone' : ∀ j, ¬ Occurs self'.buffered terminator j := by
          intro j hj
          have hj4 := hend j hj
          refine hcheck ⟨by omega, ?_⟩
          rw [hlast (by omega), ← hj4, Nat.add_sub_cancel]
          exact occurs_iff.1 hj
        obtain ⟨s', fed, hfeed, hgathered⟩ := feed_spec rest self' (by rw [hroom, hheader]; omega) hnone'
        refine ⟨s', fed, hfeed, ?_⟩
        rw [hwhole] at hgathered
        have hsame : self'.headerBuffer.length = self.headerBuffer.length := by rw [hbuffer, List.length_set]
        rw [← hself] at hgathered hroom hsame
        cases hgathered with
        | more h1 h2 h3 h4 => exact .more h1 (hroom ▸ h2) (h3.trans hsame) h4
        | @full b h1 h2 h3 =>
          rw [hroom] at h2 h3
          have hfull' : Gathered self (self.buffered ++ byte :: rest)
              { self with headerBuffer := b, headerLen := self.room } .full := .full (h1.trans hsame) h2 h3
          rw [← hroom] at hfull'
          exact hfull'
        | head h1 h2 h3 h4 => exact .head (h1.trans hsame) h2 (hroom ▸ h3) h4
        | failed h1 h2 h3 h4 => exact .failed (h1.trans hsame) h2 (hroom ▸ h3) h4

end Gather

/-! ## What stands after some calls -/

/-- The head that the bytes so far have. -/
structure At (room : Nat) (text : Bytes) (stop : Nat) (head : ParsedHead) : Prop where
  ends : indexOf text terminator = some stop
  fits : stop + 4 ≤ room
  value : parseHead (text.take (stop + 4)) = .ok (.value head)

/-- How far a decoder is, and what it has returned. -/
inductive Phase (self : StreamDecoder) (text out : Bytes) : Prop where
  | gathering : self.head = none → self.failure = none → self.done = false → out = [] → self.buffered = text →
      self.headerLen = text.length → text.length ≤ self.room → indexOf text terminator = none → Phase self text out
  | tooLarge : self.head = none → self.failure = none → self.done = false → out = [] → self.headerLen = self.room →
      self.room ≤ text.length → (∀ stop, indexOf text terminator = some stop → self.room < stop + 4) → Phase self text out
  | failed (stop : Nat) : self.head = none → self.failure ≠ none → self.done = false → out = [] →
      indexOf text terminator = some stop → (∀ head, parseHead (text.take (stop + 4)) ≠ .ok (.value head)) →
      Phase self text out
  | unlengthed (stop : Nat) (head : ParsedHead) : self.head = some head → self.failure = none → self.done = false →
      out = [] →
      At self.room text stop head → noBody self.method head = false → head.transfer ≠ .contentLength → Phase self text out
  | body (stop : Nat) (head : ParsedHead) : self.head = some head → self.failure = none → self.done = false →
      At self.room text stop head → noBody self.method head = false → head.transfer = .contentLength →
      out = text.drop (stop + 4) → out.length < head.contentLength → Phase self text out
  | finished (stop : Nat) (head : ParsedHead) : self.head = some head → self.failure = none → self.done = true →
      At self.room text stop head → out <+: text.drop (stop + 4) →
      (noBody self.method head = true ∧ out = [] ∨ noBody self.method head = false ∧ out.length = head.contentLength) →
      Phase self text out

/-- What is promised of a decoder that was passed `text` and has returned `out`. -/
structure Sound (s : StreamDecoder) (text out : Bytes) : Prop where
  head : s.head = acceptedHead s.room text
  bytes : out <+: bodyOf text
  none : s.head = none → out = []
  bound : ∀ head, s.head = some head → out.length ≤ head.contentLength

section Texts

variable {self : StreamDecoder} {text out : Bytes} {stop n : Nat} {head : ParsedHead}

theorem At.accepted (h : At n text stop head) : acceptedHead n text = some head := by
  rw [acceptedHead, h.ends]
  simp only
  rw [if_pos h.fits, h.value]

theorem At.bodyOf_eq (h : At n text stop head) : bodyOf text = text.drop (stop + 4) := by
  rw [bodyOf, h.ends]

theorem At.end_le (h : At n text stop head) : stop + 4 ≤ text.length :=
  (indexOf_some h.ends).1.end_le terminator_ne_nil

theorem At.append (h : At n text stop head) (more : Bytes) : At n (text ++ more) stop head := by
  refine ⟨indexOf_extend (List.prefix_append _ _) terminator_ne_nil h.ends, h.fits, ?_⟩
  rw [List.take_append_of_le_length h.end_le]
  exact h.value

theorem Phase.sound (h : Phase self text out) : Sound self text out := by
  cases h with
  | gathering h1 h2 h3 h4 h5 h6 h7 h8 =>
    refine ⟨?_, ?_, fun _ => h4, fun head hhead => ?_⟩
    · rw [h1, acceptedHead, h8]
    · rw [h4]
      exact List.nil_prefix
    · rw [h1] at hhead
      cases hhead
  | tooLarge h1 h2 h3 h4 h5 h6 h7 =>
    refine ⟨?_, ?_, fun _ => h4, fun head hhead => ?_⟩
    · rw [h1, acceptedHead]
      split
      · rfl
      · rename_i stop hstop
        have := h7 stop hstop
        rw [if_neg (by omega)]
    · rw [h4]
      exact List.nil_prefix
    · rw [h1] at hhead
      cases hhead
  | failed stop h1 h2 h3 h4 h5 h6 =>
    refine ⟨?_, ?_, fun _ => h4, fun head hhead => ?_⟩
    · obtain ⟨r, hr⟩ := parseHead_ok (text.take (stop + 4))
      rw [h1, acceptedHead, h5]
      simp only [hr]
      cases r with
      | value head => exact absurd hr (h6 head)
      | needMore => exact (ite_self none).symm
      | failure e => exact (ite_self none).symm
    · rw [h4]
      exact List.nil_prefix
    · rw [h1] at hhead
      cases hhead
  | unlengthed stop head h1 h2 h3 h4 h5 h6 h7 =>
    refine ⟨h1.trans h5.accepted.symm, ?_, fun _ => h4, fun _ _ => ?_⟩
    · rw [h4]
      exact List.nil_prefix
    · rw [h4]
      exact Nat.zero_le _
  | body stop head h1 h2 h3 h4 h5 h6 h7 h8 =>
    refine ⟨h1.trans h4.accepted.symm, ?_, fun hnone => ?_, fun head' hhead => ?_⟩
    · rw [h4.bodyOf_eq, h7]
    · rw [h1] at hnone
      cases hnone
    · rw [h1] at hhead
      cases hhead
      exact h8.le
  | finished stop head h1 h2 h3 h4 h5 h6 =>
    refine ⟨h1.trans h4.accepted.symm, ?_, fun hnone => ?_, fun head' hhead => ?_⟩
    · rw [h4.bodyOf_eq]
      exact h5
    · rw [h1] at hnone
      cases hnone
    · rw [h1] at hhead
      cases hhead
      rcases h6 with ⟨-, h6⟩ | ⟨-, h6⟩
      · rw [h6]
        exact Nat.zero_le _
      · exact h6.le

end Texts

/-! ## One call -/

/-- The state between the calls. -/
structure Inv (s : StreamDecoder) (text out : Bytes) : Prop where
  phase : Phase s text out
  received : s.received = out.length

/-- What a call does: `text` and `out` are taken with it. -/
structure Step (slips : Prop) (s : StreamDecoder) (r : StreamDecodeResult) (text out : Bytes) : Prop where
  sound : Sound s text out
  completes : Completes r → ∃ head, s.head = some head ∧ (noBody s.method head = true ∨ out.length = head.contentLength)
  keeps : ¬ slips → Inv s text out ∧ ∀ e, r = .failure e → Refused s

section Deliver

variable {self : StreamDecoder} {text out body : Bytes} {stop : Nat} {head : ParsedHead} {eof : Bool}

/-- **The bytes behind the head**: those that a message has are returned. -/
theorem deliver_step (hhead : self.head = some head) (hfailure : self.failure = none) (hdone : self.done = false)
    (hat : At self.room text stop head) (hbody : out ++ body = text.drop (stop + 4)) (hreceived : self.received = out.length)
    (hfit : noBody self.method head = true → out = []) (hunlengthed : head.transfer ≠ .contentLength → out = [])
    (hbound : out.length ≤ head.contentLength) :
    Step (Overruns self head body eof) (self.deliver head body eof).2 (self.deliver head body eof).1 text
      (out ++ bytesOf (self.deliver head body eof).1) := by
  have hall : out ++ body = bodyOf text := hbody.trans hat.bodyOf_eq.symm
  -- whatever is returned of the body
  have hsound : ∀ {s : StreamDecoder} {given : Bytes}, s.head = self.head → s.room = self.room → given <+: body →
      (out ++ given).length ≤ head.contentLength → Sound s text (out ++ given) := by
    intro s given hs hr hgiven hle
    refine ⟨?_, ?_, fun hnone => ?_, fun head' hhead' => ?_⟩
    · rw [hs, hr, hhead, hat.accepted]
    · rw [← hall]
      exact (List.prefix_append_right_inj _).2 hgiven
    · rw [hs, hhead] at hnone
      cases hnone
    · rw [hs, hhead] at hhead'
      cases hhead'
      exact hle
  have hnothing : Sound self text (out ++ []) := hsound rfl rfl List.nil_prefix (by rw [List.append_nil]; exact hbound)
  unfold deliver
  by_cases hno : noBody self.method head = true
  · rw [if_pos hno]
    by_cases hempty : body.length ≠ 0
    · rw [if_pos hempty]
      refine ⟨hnothing, nofun, fun hslip => absurd ?_ hslip⟩
      rw [Overruns, if_pos hno]
      exact fun hnil => hempty (congrArg List.length hnil)
    · rw [if_neg hempty]
      refine ⟨⟨hnothing.head, hnothing.bytes, hnothing.none, hnothing.bound⟩, fun _ => ⟨head, hhead, .inl hno⟩, fun _ =>
        ⟨⟨.finished stop head hhead hfailure rfl hat ?_ (.inl ⟨hno, ?_⟩), ?_⟩, nofun⟩⟩
      · rw [← hat.bodyOf_eq]
        exact hnothing.bytes
      · exact (List.append_nil out).trans (hfit hno)
      · exact hreceived.trans (congrArg List.length (List.append_nil out).symm)
  · have hno' : noBody self.method head = false := Bool.eq_false_iff.2 hno
    rw [if_neg hno]
    by_cases hlength : head.transfer ≠ .contentLength
    · rw [if_pos hlength]
      refine ⟨hnothing, nofun, fun _ => ⟨⟨.unlengthed stop head hhead hfailure hdone ?_ hat hno' hlength, ?_⟩, fun _ _ =>
        .inr (.inr ⟨hdone, head, hhead, hno', hlength⟩)⟩⟩
      · exact (List.append_nil out).trans (hunlengthed hlength)
      · exact hreceived.trans (congrArg List.length (List.append_nil out).symm)
    · rw [if_neg hlength]
      have hlength := Decidable.of_not_not hlength
      by_cases hover : self.received > head.contentLength ∨ body.length > head.contentLength - self.received
      · rw [if_pos hover]
        refine ⟨hnothing, nofun, fun hslip => absurd ?_ hslip⟩
        rw [Overruns, if_neg hno]
        exact ⟨hlength, .inl (by omega)⟩
      · rw [if_neg hover]
        have hle : (out ++ body).length ≤ head.contentLength := by
          rw [List.length_append]
          omega
        have hsum : self.received + body.length = (out ++ body).length := by
          rw [List.length_append, hreceived]
        simp only
        rw [hsum]
        -- the state behind the body, complete or not
        have hphase : Phase { self with
            received := (out ++ body).length
            done := self.done || (out ++ body).length == head.contentLength } text (out ++ body) := by
          by_cases hcomplete : (out ++ body).length = head.contentLength
          · refine .finished stop head hhead hfailure ?_ hat ?_ (.inr ⟨hno', hcomplete⟩)
            · simp only [hdone, Bool.false_or, beq_iff_eq]
              exact hcomplete
            · rw [hbody]
          · refine .body stop head hhead hfailure ?_ hat hno' hlength hbody (by omega)
            simp only [hdone, Bool.false_or, beq_eq_false_iff_ne]
            exact hcomplete
        by_cases hempty : body.length ≠ 0
        · rw [if_pos hempty]
          exact ⟨hsound rfl rfl (List.prefix_refl _) hle, fun hcomplete => ⟨head, hhead, .inr (beq_iff_eq.1 hcomplete)⟩,
            fun _ => ⟨⟨hphase, rfl⟩, nofun⟩⟩
        · rw [if_neg hempty]
          obtain rfl : body = [] := List.eq_nil_of_length_eq_zero (Decidable.of_not_not hempty)
          by_cases hcomplete : ((out ++ []).length == head.contentLength) = true
          · rw [if_pos hcomplete]
            exact ⟨hsound rfl rfl List.nil_prefix hle, fun _ => ⟨head, hhead, .inr (beq_iff_eq.1 hcomplete)⟩,
              fun _ => ⟨⟨hphase, rfl⟩, nofun⟩⟩
          · rw [if_neg hcomplete]
            cases eof with
            | false => exact ⟨hsound rfl rfl List.nil_prefix hle, nofun, fun _ => ⟨⟨hphase, rfl⟩, nofun⟩⟩
            | true =>
              refine ⟨hsound rfl rfl List.nil_prefix hle, nofun, fun hslip => absurd ?_ hslip⟩
              have hne : (out ++ []).length ≠ head.contentLength := fun h => hcomplete (beq_iff_eq.2 h)
              rw [List.append_nil] at hne hle
              rw [Overruns, if_neg hno]
              exact ⟨hlength, .inr ⟨rfl, rfl, by omega⟩⟩

end Deliver

section Calls

variable {self s' : StreamDecoder} {text out : Bytes} {call : Push} {r : StreamDecodeResult}

theorem Phase.append (h : Phase self text out) (hover : self.done = true ∨ Refused self) (more : Bytes) :
    Phase self (text ++ more) out := by
  have hlate : ∀ {stop}, (∀ j, Occurs text terminator j → self.room < j + 4) → self.room ≤ text.length →
      indexOf (text ++ more) terminator = some stop → self.room < stop + 4 := by
    intro stop hnone hlen hstop
    by_contra hle
    have hfour : terminator.length = 4 := rfl
    exact hle (hnone stop ((indexOf_some hstop).1.of_le (List.prefix_append _ _) (by omega)))
  have hlonger : text.length ≤ (text ++ more).length := by
    rw [List.length_append]
    omega
  cases h with
  | gathering h1 h2 h3 h4 h5 h6 h7 h8 =>
    have hfull : self.room ≤ self.headerLen := by
      rcases hover with hdone | hfailure | ⟨-, -, hfull⟩ | ⟨-, head, hhead, -⟩
      · rw [h3] at hdone
        cases hdone
      · exact absurd h2 hfailure
      · exact hfull
      · rw [h1] at hhead
        cases hhead
    exact .tooLarge h1 h2 h3 h4 (by omega) (by omega) fun stop =>
      hlate (fun j hj => absurd hj (indexOf_none h8 terminator_ne_nil j)) (by omega)
  | tooLarge h1 h2 h3 h4 h5 h6 h7 =>
    refine .tooLarge h1 h2 h3 h4 h5 (by omega) fun stop => hlate (fun j hj => ?_) h6
    by_contra hle
    obtain ⟨stop, hstop⟩ : ∃ stop, indexOf text terminator = some stop := by
      cases hnone : indexOf text terminator with
      | none => exact absurd hj (indexOf_none hnone terminator_ne_nil j)
      | some stop => exact ⟨stop, rfl⟩
    have hmin : stop ≤ j := Nat.not_lt.1 fun hlt => (indexOf_some hstop).2 j hlt hj
    have := h7 stop hstop
    omega
  | failed stop h1 h2 h3 h4 h5 h6 =>
    have hle : stop + 4 ≤ text.length := (indexOf_some h5).1.end_le terminator_ne_nil
    refine .failed stop h1 h2 h3 h4 (indexOf_extend (List.prefix_append _ _) terminator_ne_nil h5) fun head => ?_
    rw [List.take_append_of_le_length hle]
    exact h6 head
  | unlengthed stop head h1 h2 h3 h4 h5 h6 h7 => exact .unlengthed stop head h1 h2 h3 h4 (h5.append more) h6 h7
  | body stop head h1 h2 h3 h4 h5 h6 h7 h8 =>
    exfalso
    rcases hover with hdone | hfailure | ⟨-, hnone, -⟩ | ⟨-, head', hhead, -, hlength⟩
    · rw [h3] at hdone
      cases hdone
    · exact hfailure h2
    · rw [h1] at hnone
      cases hnone
    · rw [h1] at hhead
      cases hhead
      exact hlength h6
  | finished stop head h1 h2 h3 h4 h5 h6 =>
    refine .finished stop head h1 h2 h3 (h4.append more) (h5.trans ?_) h6
    rw [List.drop_append_of_le_length h4.end_le]
    exact List.prefix_append _ _

theorem feed_full (h : self.room ≤ self.headerLen) (input : Bytes) :
    self.feed input = .ok (self, if input = [] then .more else .full) := by
  cases input with
  | nil => rfl
  | cons byte rest =>
    unfold room at h
    rw [feed, if_pos (by omega), if_neg (List.cons_ne_nil _ _)]

/-- **A decoder that has refused gives nothing any more**, whatever it is passed. -/
theorem push_refused (h : Refused self) (hpush : self.push call.input call.eof call.stopRequested = .ok (r, s')) :
    ¬ Gives r ∧ Refused s' := by
  have hunfinished : ∀ eof, ¬ Gives (unfinished eof) := by
    intro eof
    cases eof <;> exact id
  unfold push at hpush
  by_cases hstop : call.stopRequested = true
  · rw [if_pos hstop] at hpush
    cases hpush
    exact ⟨id, h⟩
  · rw [if_neg hstop] at hpush
    rcases hf : self.failure with _ | e
    · rw [hf] at hpush
      simp only at hpush
      rcases h with hfailure | ⟨hdone, hhead, hfull⟩ | ⟨hdone, head, hhead, hno, hlength⟩
      · exact absurd hf hfailure
      · rw [hdone, hhead, if_neg Bool.false_ne_true] at hpush
        simp only [feed_full hfull, bind, Except.bind] at hpush
        split at hpush
        · cases hpush
          exact ⟨hunfinished _, .inr (.inl ⟨hdone, hhead, hfull⟩)⟩
        · cases hpush
          exact ⟨id, .inr (.inl ⟨hdone, hhead, hfull⟩)⟩
        · rename_i hfed
          split at hfed <;> cases hfed
        · rename_i hfed
          split at hfed <;> cases hfed
      · rw [hdone, hhead, if_neg Bool.false_ne_true] at hpush
        simp only [deliver, hno, if_pos hlength] at hpush
        cases hpush
        exact ⟨id, .inr (.inr ⟨hdone, head, hhead, hno, hlength⟩)⟩
    · rw [hf] at hpush
      cases hpush
      exact ⟨id, h⟩

theorem step_unchanged {slips : Prop} (hreceived : self.received = out.length) (hr : bytesOf r = [])
    (hphase : Phase self text out) (hcompletes : Completes r → ∃ head, self.head = some head ∧
      (noBody self.method head = true ∨ out.length = head.contentLength))
      (hrefused : ¬ slips → ∀ e, r = .failure e → Refused self) :
    Step slips self r text (out ++ bytesOf r) := by
  rw [hr, List.append_nil]
  exact ⟨hphase.sound, hcompletes, fun hslip => ⟨⟨hphase, hreceived⟩, hrefused hslip⟩⟩

theorem Step.weaken {P Q : Prop} (h : Step P self r text out) (hpq : P → Q) : Step Q self r text out :=
  ⟨h.sound, h.completes, fun hq => h.keeps fun hp => hq (hpq hp)⟩

theorem Phase.completed (h : Phase self text out) (hdone : self.done = true) : ∃ head, self.head = some head ∧
    (noBody self.method head = true ∨ out.length = head.contentLength) := by
  cases h with
  | gathering h1 h2 h3 => exact absurd (h3.symm.trans hdone) Bool.false_ne_true
  | tooLarge h1 h2 h3 => exact absurd (h3.symm.trans hdone) Bool.false_ne_true
  | failed stop h1 h2 h3 => exact absurd (h3.symm.trans hdone) Bool.false_ne_true
  | unlengthed stop head h1 h2 h3 => exact absurd (h3.symm.trans hdone) Bool.false_ne_true
  | body stop head h1 h2 h3 => exact absurd (h3.symm.trans hdone) Bool.false_ne_true
  | finished stop head h1 h2 h3 h4 h5 h6 => exact ⟨head, h1, h6.imp And.left And.right⟩

theorem body_step {head : ParsedHead} (h : Inv self text out) (hstop : call.stopRequested = false)
    (hfailure : self.failure = none)
    (hdone : self.done = false) (hhead : self.head = some head) :
    Step (Slips self call) (self.deliver head call.input call.eof).2 (self.deliver head call.input call.eof).1
      (text ++ call.input) (out ++ bytesOf (self.deliver head call.input call.eof).1) := by
  obtain ⟨hphase, hreceived⟩ := h
  have hphase' := hphase
  cases hphase with
  | gathering h1 => exact absurd (h1.symm.trans hhead) (Option.some_ne_none _).symm
  | tooLarge h1 => exact absurd (h1.symm.trans hhead) (Option.some_ne_none _).symm
  | failed stop h1 => exact absurd (h1.symm.trans hhead) (Option.some_ne_none _).symm
  | unlengthed stop head' h1 h2 h3 h4 h5 h6 h7 =>
    cases h1.symm.trans hhead
    have hrefused : Refused self := .inr (.inr ⟨hdone, head, hhead, h6, h7⟩)
    have hdeliver : self.deliver head call.input call.eof = (.failure .contentLengthRequired, self) := by
      rw [deliver, if_neg (Bool.eq_false_iff.1 h6), if_pos h7]
    rw [hdeliver]
    exact step_unchanged hreceived rfl (hphase'.append (.inr hrefused) _) nofun fun _ _ _ => hrefused
  | body stop head' h1 h2 h3 h4 h5 h6 h7 h8 =>
    cases h1.symm.trans hhead
    refine (deliver_step hhead hfailure hdone (h4.append _) ?_ hreceived (fun hno => ?_) (fun hne => absurd h6 hne)
      h8.le).weaken
      fun hover => ⟨hstop, hfailure, .inr (.inl ⟨hdone, head, hhead, hover⟩)⟩
    · rw [h7, List.drop_append_of_le_length h4.end_le]
    · rw [h5] at hno
      cases hno
  | finished stop head' h1 h2 h3 => exact absurd (h3.symm.trans hdone).symm Bool.false_ne_true

theorem gather_step (h : Inv self text out) (hstop : call.stopRequested = false) (hfailure : self.failure = none)
    (hdone : self.done = false) (hhead : self.head = none)
    (hpush : self.push call.input call.eof call.stopRequested = .ok (r, s')) :
    Step (Slips self call) s' r (text ++ call.input) (out ++ bytesOf r) := by
  obtain ⟨hphase, hreceived⟩ := h
  have hphase' := hphase
  rw [push, hstop, if_neg Bool.false_ne_true, hfailure] at hpush
  simp only at hpush
  rw [hdone, hhead, if_neg Bool.false_ne_true] at hpush
  simp only at hpush
  cases hphase with
  | failed stop h1 h2 => exact absurd hfailure h2
  | unlengthed stop head h1 => exact absurd (hhead.symm.trans h1) (Option.some_ne_none _).symm
  | body stop head h1 => exact absurd (hhead.symm.trans h1) (Option.some_ne_none _).symm
  | finished stop head h1 => exact absurd (hhead.symm.trans h1) (Option.some_ne_none _).symm
  | tooLarge h1 h2 h3 h4 h5 h6 h7 =>
    have hrefused : Refused self := .inr (.inl ⟨hdone, hhead, h5.ge⟩)
    have hnext := hphase'.append (.inr hrefused) call.input
    rw [feed_full h5.ge] at hpush
    simp only [bind, Except.bind] at hpush
    by_cases hempty : call.input = []
    · rw [if_pos hempty] at hpush
      cases hpush
      refine step_unchanged hreceived ?_ hnext ?_ fun _ _ _ => hrefused
      · cases call.eof <;> rfl
      · cases call.eof <;> exact nofun
    · rw [if_neg hempty] at hpush
      cases hpush
      exact step_unchanged hreceived rfl hnext nofun fun _ _ _ => hrefused
  | gathering h1 h2 h3 h4 h5 h6 h7 h8 =>
    obtain ⟨s1, fed, hfeed, hgathered⟩ := feed_spec call.input self (h6 ▸ h7)
      (h5 ▸ indexOf_none h8 terminator_ne_nil)
    rw [hfeed] at hpush
    simp only [bind, Except.bind] at hpush
    rw [h5] at hgathered
    cases hgathered with
    | @more b g1 g2 g3 g4 =>
      cases hpush
      generalize hnext : ({ self with headerBuffer := b, headerLen := (text ++ call.input).length } : StreamDecoder) = next
      obtain ⟨n1, n2, n3, n4, n5, n6⟩ : next.head = none ∧ next.failure = none ∧ next.done = false ∧ next.room = self.room ∧
          next.headerLen = (text ++ call.input).length ∧ next.received = out.length := by
        rw [← hnext]
        exact ⟨h1, h2, h3, by rw [room, room, g3], rfl, hreceived⟩
      have hbuffered : next.buffered = text ++ call.input := by
        rw [← hnext]
        exact g4
      refine step_unchanged n6 (by cases call.eof <;> rfl) (.gathering n1 n2 n3 h4 hbuffered n5 (n4 ▸ g2) g1)
        (by cases call.eof <;> exact nofun) fun hslip e he => ?_
      have heof : call.eof = true := by
        by_contra hno
        rw [Bool.eq_false_iff.2 hno] at he
        cases he
      refine .inr (.inl ⟨n3, n1, ?_⟩)
      by_contra hroom
      rw [← h5] at g1 n5
      exact hslip ⟨hstop, hfailure, .inr (.inr (.inr ⟨hdone, hhead, heof, g1, by omega⟩))⟩
    | @full b g1 g2 g3 =>
      cases hpush
      have hroom : ({ self with headerBuffer := b, headerLen := self.room } : StreamDecoder).room = self.room := by
        rw [room, room, g1]
      refine step_unchanged hreceived rfl (.tooLarge h1 h2 h3 h4 hroom.symm (hroom ▸ g2.le) (hroom ▸ g3)) nofun fun _ _ _ =>
        .inr (.inl ⟨h3, h1, hroom.le⟩)
    | @failed b stop e g1 g2 g3 g4 =>
      cases hpush
      refine step_unchanged hreceived rfl (.failed stop h1 (Option.some_ne_none e) h3 h4 g2 fun head hvalue => ?_)
        nofun fun _ _ _ =>
        .inl (Option.some_ne_none e)
      rw [g4] at hvalue
      cases hvalue
    | @head b stop head g1 g2 g3 g4 =>
      generalize hnext : ({ self with headerBuffer := b, headerLen := stop + 4, head := some head } : StreamDecoder)
          = next at hpush
      obtain ⟨n1, n2, n3, n4, n5, n6⟩ : next.head = some head ∧ next.failure = none ∧ next.done = false ∧
        next.room = self.room ∧
          next.received = out.length ∧ next.method = self.method := by
        rw [← hnext]
        exact ⟨rfl, h2, h3, by rw [room, room, g1], hreceived, rfl⟩
      rw [n1] at hpush
      have hdelivered := Except.ok.inj hpush
      have hat : At next.room (text ++ call.input) stop head := n4 ▸ ⟨g2, g3, g4⟩
      have hstep := @deliver_step next (text ++ call.input) out ((text ++ call.input).drop (stop + 4))
          stop head call.eof n1 n2 n3 hat (by rw [h4]; rfl) n5
        (fun _ => h4) (fun _ => h4) (by rw [h4]; exact Nat.zero_le _)
      rw [hdelivered] at hstep
      refine hstep.weaken fun hover => ⟨hstop, hfailure, .inr (.inr (.inl ?_))⟩
      rw [h5]
      refine ⟨hdone, hhead, stop, head, g2, g3, g4, ?_⟩
      rw [Overruns, n6, n5, ← hreceived] at hover
      exact hover

/-- **One call.** -/
theorem push_step (h : Inv self text out) (hdrop : ¬ Drops self call)
    (hpush : self.push call.input call.eof call.stopRequested = .ok (r, s')) :
    Step (Slips self call) s' r (text ++ call.input) (out ++ bytesOf r) := by
  obtain ⟨hphase, hreceived⟩ := h
  unfold push at hpush
  by_cases hstop : call.stopRequested = true
  · rw [if_pos hstop] at hpush
    cases hpush
    have hphase' : Phase self (text ++ call.input) (out ++ bytesOf .aborted) := by
      rw [show bytesOf .aborted = [] from rfl, List.append_nil]
      by_cases hempty : call.input = []
      · rw [hempty, List.append_nil]
        exact hphase
      · refine hphase.append ?_ _
        by_contra hno
        rw [not_or] at hno
        exact hdrop ⟨hstop, hempty, Bool.eq_false_iff.2 hno.1, hno.2⟩
    exact ⟨hphase'.sound, nofun, fun _ => ⟨⟨hphase', by rw [hreceived]; exact congrArg _ (List.append_nil _).symm⟩, nofun⟩⟩
  · have hstop := Bool.eq_false_iff.2 hstop
    rw [hstop, if_neg Bool.false_ne_true] at hpush
    rcases hf : self.failure with _ | e
    · rw [hf] at hpush
      simp only at hpush
      rcases hd : self.done with _ | _
      · rcases hh : self.head with _ | head
        · exact gather_step ⟨hphase, hreceived⟩ hstop hf hd hh (by unfold push; rw [hstop, hf]; exact hpush)
        · rw [hd, hh, if_neg Bool.false_ne_true] at hpush
          have hdelivered := Except.ok.inj hpush
          have hstep : Step (Slips self call) (self.deliver head call.input call.eof).2 (self.deliver head call.input call.eof).1
              (text ++ call.input) (out ++ bytesOf (self.deliver head call.input call.eof).1) :=
            body_step ⟨hphase, hreceived⟩ hstop hf hd hh
          rw [hdelivered] at hstep
          exact hstep
      · rw [hd, if_pos rfl] at hpush
        cases hpush
        by_cases hempty : call.input.length = 0
        · rw [if_pos hempty, List.eq_nil_of_length_eq_zero hempty, List.append_nil]
          exact step_unchanged hreceived rfl hphase (fun _ => hphase.completed hd) nofun
        · rw [if_neg hempty]
          refine step_unchanged hreceived rfl (hphase.append (.inl hd) _) nofun fun hslip => absurd ?_ hslip
          exact ⟨hstop, hf, .inl ⟨hd, fun hnil => hempty (congrArg List.length hnil)⟩⟩
    · rw [hf] at hpush
      cases hpush
      have hrefused : Refused self := .inl (by rw [hf]; exact Option.some_ne_none _)
      exact step_unchanged hreceived rfl (hphase.append (.inr hrefused) _) nofun fun _ _ _ => hrefused

end Calls

/-! ## Runs -/

section Runs

variable {start self s s' : StreamDecoder} {log pre post : List Turn} {t : Turn} {call : Push} {r : StreamDecodeResult}

@[simp] theorem seen_snoc : seen (log ++ [t]) = seen log ++ t.call.input := by
  rw [seen, List.flatMap_append, List.flatMap_singleton, seen]

@[simp] theorem returned_snoc : returned (log ++ [t]) = returned log ++ bytesOf t.result := by
  rw [returned, List.flatMap_append, List.flatMap_singleton, returned]

theorem feed_same : ∀ {input : Bytes} {self s' : StreamDecoder} {fed : Fed}, self.feed input = .ok (s', fed) →
    s'.room = self.room ∧ s'.method = self.method
  | [], self, s', fed, h => by
    cases h
    exact ⟨rfl, rfl⟩
  | byte :: rest, self, s', fed, h => by
    have hstore : (self.store byte).room = self.room ∧ (self.store byte).method = self.method := by
      refine ⟨?_, rfl⟩
      rw [room, room, store, List.length_set]
    unfold feed at h
    simp only at h
    split at h
    · cases h
      exact ⟨rfl, rfl⟩
    · split at h
      · obtain ⟨gathered, -, h⟩ := Except.bind_ok.1 h
        obtain ⟨parsed, -, h⟩ := Except.bind_ok.1 h
        split at h <;> cases h <;> exact hstore
      · obtain ⟨hroom, hmethod⟩ := feed_same h
        exact ⟨hroom.trans hstore.1, hmethod.trans hstore.2⟩

theorem deliver_same (self : StreamDecoder) (head : ParsedHead) (body : Bytes) (eof : Bool) :
    (self.deliver head body eof).2.room = self.room ∧ (self.deliver head body eof).2.method = self.method := by
  unfold deliver
  split
  · split <;> exact ⟨rfl, rfl⟩
  · split
    · exact ⟨rfl, rfl⟩
    · split
      · exact ⟨rfl, rfl⟩
      · simp only
        split
        · exact ⟨rfl, rfl⟩
        · split <;> exact ⟨rfl, rfl⟩

theorem push_same (h : self.push call.input call.eof call.stopRequested = .ok (r, s')) :
    s'.room = self.room ∧ s'.method = self.method := by
  have hdeliver : ∀ {s0 : StreamDecoder} {head : ParsedHead} {body : Bytes},
      (.ok (s0.deliver head body call.eof) : Access _) = .ok (r, s') → s'.room = s0.room ∧ s'.method = s0.method := by
    intro s0 head body h
    have hsame := deliver_same s0 head body call.eof
    rw [Except.ok.inj h] at hsame
    exact hsame
  unfold push at h
  split at h
  · cases h
    exact ⟨rfl, rfl⟩
  · split at h
    · cases h
      exact ⟨rfl, rfl⟩
    · split at h
      · cases h
        exact ⟨rfl, rfl⟩
      · split at h
        · exact hdeliver h
        · obtain ⟨⟨s1, fed⟩, hfeed, h⟩ := Except.bind_ok.1 h
          have hfed := feed_same hfeed
          simp only at h
          split at h
          · cases h
            exact hfed
          · cases h
            exact hfed
          · cases h
            exact hfed
          · split at h
            · obtain ⟨hroom, hmethod⟩ := hdeliver h
              exact ⟨hroom.trans hfed.1, hmethod.trans hfed.2⟩
            · cases h
              exact hfed

theorem Run.same (h : Run start log s) : s.room = start.room ∧ s.method = start.method := by
  induction h with
  | start => exact ⟨rfl, rfl⟩
  | turn _ hpush ih =>
    obtain ⟨hroom, hmethod⟩ := push_same hpush
    exact ⟨hroom.trans ih.1, hmethod.trans ih.2⟩

/-- **A run without an exit that is not recorded keeps its state.** -/
theorem Run.inv {buffer : Bytes} {method : Method} (h : Run (init buffer method) log s)
    (hslips : ∀ t ∈ log, ¬ Slips t.before t.call) (hdrops : ∀ t ∈ log, ¬ Drops t.before t.call) :
    Inv s (seen log) (returned log) := by
  induction h with
  | start =>
    refine ⟨.gathering rfl rfl rfl rfl rfl rfl (Nat.zero_le _) ?_, rfl⟩
    exact indexOf_eq_none fun j hj => absurd (hj.end_le terminator_ne_nil) (by simp [terminator, seen])
  | @turn log s s' call r hrun hpush ih =>
    have hbefore := ih (fun t ht => hslips t (List.mem_append_left _ ht)) (fun t ht => hdrops t (List.mem_append_left _ ht))
    have hlast : (⟨s, call, r⟩ : Turn) ∈ log ++ [⟨s, call, r⟩] := List.mem_append_right _ (List.mem_singleton_self _)
    rw [seen_snoc, returned_snoc]
    exact ((push_step hbefore (hdrops _ hlast) hpush).keeps (hslips _ hlast)).1

theorem Run.none (h : Run start [] s) : s = start := by
  generalize hlog : ([] : List Turn) = log at h
  cases h with
  | start => rfl
  | turn => exact absurd hlog.symm (List.append_ne_nil_of_right_ne_nil _ (List.cons_ne_nil _ _))

theorem Run.last (h : Run start (log ++ [t]) s) :
    Run start log t.before ∧ t.before.push t.call.input t.call.eof t.call.stopRequested = .ok (t.result, s) := by
  generalize hlog : log ++ [t] = whole at h
  cases h with
  | start => exact absurd hlog (List.append_ne_nil_of_right_ne_nil _ (List.cons_ne_nil _ _))
  | turn hrun hpush =>
    obtain ⟨rfl, hlast⟩ := List.append_inj' hlog rfl
    cases hlast
    exact ⟨hrun, hpush⟩

theorem Run.split (h : Run start (pre ++ post) s) : ∃ s1, Run start pre s1 ∧ Run s1 post s := by
  induction post using List.reverseRecOn generalizing s with
  | nil =>
    rw [List.append_nil] at h
    exact ⟨s, h, .start⟩
  | append_singleton post t ih =>
    rw [← List.append_assoc] at h
    obtain ⟨hrun, hpush⟩ := h.last
    obtain ⟨s1, hpre, hpost⟩ := ih hrun
    exact ⟨s1, hpre, hpost.turn hpush⟩

theorem Run.refused (h : Run start log s) (hstart : Refused start) : Refused s ∧ ∀ t ∈ log, ¬ Gives t.result := by
  induction h with
  | start => exact ⟨hstart, fun _ ht => absurd ht List.not_mem_nil⟩
  | turn _ hpush ih =>
    obtain ⟨hgives, hnext⟩ := push_refused ih.1 hpush
    refine ⟨hnext, fun t ht => ?_⟩
    rcases List.mem_append.1 ht with ht | ht
    · exact ih.2 t ht
    · rw [List.mem_singleton.1 ht]
      exact hgives

theorem Run.step {buffer : Bytes} {method : Method} (h : Run (init buffer method) (pre ++ [t]) s)
    (hclean : ∀ u ∈ pre, ¬ Slips u.before u.call ∧ ¬ Drops u.before u.call) (hdrop : ¬ Drops t.before t.call) :
    Step (Slips t.before t.call) s t.result (seen (pre ++ [t])) (returned (pre ++ [t])) := by
  obtain ⟨hrun, hpush⟩ := h.last
  rw [seen_snoc, returned_snoc]
  exact push_step (hrun.inv (fun u hu => (hclean u hu).1) fun u hu => (hclean u hu).2) hdrop hpush

theorem Clean.before (h : Clean log) (hlog : log = pre ++ t :: post) :
    (∀ u ∈ pre, ¬ Slips u.before u.call ∧ ¬ Drops u.before u.call) ∧ ¬ Drops t.before t.call := by
  refine ⟨fun u hu => ?_, (h pre t post hlog).2⟩
  obtain ⟨front, back, rfl⟩ := List.append_of_mem hu
  rw [List.append_assoc, List.cons_append] at hlog
  obtain ⟨hslip, hdrop⟩ := h front u (back ++ t :: post) hlog
  exact ⟨fun hslips => List.append_ne_nil_of_right_ne_nil _ (List.cons_ne_nil _ _) (hslip hslips), hdrop⟩

end Runs

/-- **A response is decoded exactly as it arrives, and its failures are final**, in every run in which no call follows one
whose failure is not recorded. -/
theorem streams_exact (buffer : Bytes) (method : Method) (log : List Turn) (s : StreamDecoder)
    (hrun : Run (init buffer method) log s) (hclean : Clean log) :
    returned log <+: bodyOf (seen log) ∧
    s.head = acceptedHead (min buffer.length maxHeaderBytes) (seen log) ∧
    (s.head = none → returned log = []) ∧
    (∀ head, s.head = some head → (returned log).length ≤ head.contentLength) ∧
    (∀ pre t post, log = pre ++ t :: post → Completes t.result →
      ∃ head, acceptedHead (min buffer.length maxHeaderBytes) (seen (pre ++ [t])) = some head ∧
        (noBody method head = true ∨ (returned (pre ++ [t])).length = head.contentLength)) ∧
    ∀ pre t post e, log = pre ++ t :: post → t.result = .failure e → ∀ u ∈ post, ¬ Gives u.result := by
  have hturn : ∀ pre t post, log = pre ++ t :: post → ∃ s1, s1.room = min buffer.length maxHeaderBytes ∧ s1.method = method ∧
      Run s1 post s ∧ Step (Slips t.before t.call) s1 t.result (seen (pre ++ [t])) (returned (pre ++ [t])) := by
    intro pre t post hlog
    obtain ⟨hbefore, hdrop⟩ := hclean.before hlog
    rw [hlog, List.append_cons] at hrun
    obtain ⟨s1, hpre, hpost⟩ := hrun.split
    exact ⟨s1, hpre.same.1, hpre.same.2, hpost, hpre.step hbefore hdrop⟩
  have hsound : Sound s (seen log) (returned log) := by
    rcases List.eq_nil_or_concat' log with rfl | ⟨pre, t, rfl⟩
    · exact (hrun.inv (fun _ ht => absurd ht List.not_mem_nil) fun _ ht => absurd ht List.not_mem_nil).phase.sound
    · obtain ⟨s1, -, -, hpost, hstep⟩ := hturn pre t [] rfl
      rw [hpost.none]
      exact hstep.sound
  refine ⟨hsound.bytes, ?_, hsound.none, hsound.bound, fun pre t post hlog hcompletes => ?_, fun pre t post e hlog he => ?_⟩
  · have hhead := hsound.head
    rw [hrun.same.1] at hhead
    exact hhead
  · obtain ⟨s1, hroom, hmethod, -, hstep⟩ := hturn pre t post hlog
    obtain ⟨head, hhead, hend⟩ := hstep.completes hcompletes
    refine ⟨head, ?_, hmethod ▸ hend⟩
    rw [← hroom, ← hstep.sound.head, hhead]
  · intro u hu
    obtain ⟨s1, -, -, hpost, hstep⟩ := hturn pre t post hlog
    by_cases hslip : Slips t.before t.call
    · rw [(hclean pre t post hlog).1 hslip] at hu
      cases hu
    · exact (hpost.refused ((hstep.keeps hslip).2 e he)).2 u hu

theorem clean_snoc {log : List Turn} {t : Turn} (hslips : ∀ u ∈ log, ¬ Slips u.before u.call)
    (hdrops : ∀ u ∈ log ++ [t], u.call.stopRequested = false) : Clean (log ++ [t]) := by
  intro pre u post hlog
  refine ⟨fun hslip => ?_, fun hdrop => ?_⟩
  · rcases List.eq_nil_or_concat' post with rfl | ⟨post, v, rfl⟩
    · rfl
    · rw [← List.cons_append, ← List.append_assoc] at hlog
      rw [(List.append_inj' hlog rfl).1] at hslips
      exact absurd hslip (hslips u (List.mem_append_right _ List.mem_cons_self))
  · have hstop := hdrops u (hlog ▸ List.mem_append_right _ List.mem_cons_self)
    exact Bool.false_ne_true (hstop.symm.trans hdrop.1)

theorem streams_exact_two : ∃ log s, log.length = 2 ∧ returned log = ascii "ok" ∧ returned log <+: bodyOf (seen log) ∧
    Run (init (List.replicate 64 0) .get) log s := by
  obtain ⟨s1, s2, h1, h2⟩ : ∃ s1 s2,
      (init (List.replicate 64 0) .get).push (ascii "HTTP/1.1 200 N\r\nContent-Length:2\r\n\r\no") false false =
        .ok (.chunk (ascii "o") false, s1) ∧ s1.push (ascii "k") false false = .ok (.chunk (ascii "k") true, s2) :=
        ⟨_, _, rfl, rfl⟩
  let first : Turn := ⟨init (List.replicate 64 0) .get,
    ⟨ascii "HTTP/1.1 200 N\r\nContent-Length:2\r\n\r\no", false, false⟩, .chunk (ascii "o") false⟩
  let second : Turn := ⟨s1, ⟨ascii "k", false, false⟩, .chunk (ascii "k") true⟩
  have hfirst : Run (init (List.replicate 64 0) .get) ([] ++ [first]) s1 := .turn .start h1
  have hrun : Run (init (List.replicate 64 0) .get) ([first] ++ [second]) s2 := .turn hfirst h2
  have hslip : ¬ Slips first.before first.call := by
    have hends : indexOf (first.before.buffered ++ first.call.input) terminator = some 32 := by decide
    rintro ⟨-, -, ⟨h, -⟩ | ⟨-, head, h, -⟩ | ⟨-, -, stop, head, h, -, hparse, hover⟩ | ⟨-, -, h, -⟩⟩
    · cases h
    · cases h
    · rw [hends] at h
      cases h
      have hvalue := hparse.symm.trans (rfl : _ = Except.ok (HeadResult.value _))
      cases hvalue
      revert hover
      decide
    · cases h
  refine ⟨_, s2, rfl, rfl, (streams_exact _ _ _ s2 hrun (clean_snoc (fun u hu => ?_) fun u hu => ?_)).1, hrun⟩
  · rw [List.mem_singleton.1 hu]
    exact hslip
  · rcases List.mem_append.1 hu with hu | hu
    · rw [List.mem_singleton.1 hu]
    · rw [List.mem_singleton.1 hu]

/-- **A failure that is not recorded**: a byte behind a response without a body fails, and the next call completes. -/
theorem late_byte_completes : ¬ ∀ (buffer : Bytes) (method : Method) (log : List Turn) (s : StreamDecoder),
    Run (init buffer method) log s → ∀ pre t post e, log = pre ++ t :: post → t.result = .failure e →
    ∀ u ∈ post, ¬ Gives u.result := by
  intro hfinal
  obtain ⟨s1, s2, h1, h2⟩ : ∃ s1 s2, (init (List.replicate 32 0) .get).push (ascii "HTTP/1.1 204 N\r\n\r\nx") false false =
      .ok (.failure .unexpectedBody, s1) ∧ s1.push [] false false = .ok (.complete, s2) := ⟨_, _, rfl, rfl⟩
  let first : Turn := ⟨init (List.replicate 32 0) .get, ⟨ascii "HTTP/1.1 204 N\r\n\r\nx", false, false⟩,
      .failure .unexpectedBody⟩
  let second : Turn := ⟨s1, ⟨[], false, false⟩, .complete⟩
  have hfirst : Run (init (List.replicate 32 0) .get) ([] ++ [first]) s1 := .turn .start h1
  have hrun : Run (init (List.replicate 32 0) .get) ([first] ++ [second]) s2 := .turn hfirst h2
  exact hfinal _ _ _ _ hrun [] first [second] _ rfl rfl second (List.mem_singleton_self _) trivial

end StreamDecoder
end Http
end R4
