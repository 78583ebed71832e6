import R4Recovery.NtfsFormat
import R4Recovery.Checked
/-!
# Lznt1 — the read side of the compression units

`lznt1Decompress` walks over the chunks of a unit, the groups of a chunk and the tokens of a group.  Every access is checked
here: a read outside the source, a write outside the destination or a difference below zero is a fault and not a refusal, and
so is a copy from in front of the chunk.  No source makes it fault (`lznt1Decompress_settled`).
-/
namespace R4
namespace Lznt1

open Gpt (getLe)

/-- The source refuses with `null` only. -/
abbrev Decoding (α : Type) := Checked Unit α

/-- `if (bad) return null`. -/
def refuse (bad : Prop) [Decidable bad] : Decoding Unit := Checked.refuse (decide bad) ()

/-! ## Accesses -/

def byteAt (b : Bytes) (i : Nat) : Decoding UInt8 :=
  match b[i]? with
  | some v => .ok v
  | none => .error .bounds

def le16 (b : Bytes) (i : Nat) : Decoding Nat := if i + 2 ≤ b.length then .ok (getLe b i 2) else .error .bounds

def setByte (b : Bytes) (i : Nat) (v : UInt8) : Decoding Bytes :=
  if i < b.length then .ok (b.set i v) else .error .bounds

/-- `@memcpy(dst[out..out + len], src[start..start + len])`. -/
def copyBytes (dst : Bytes) (out : Nat) (src : Bytes) (start len : Nat) : Decoding Bytes :=
  if out + len ≤ dst.length ∧ start + len ≤ src.length then .ok (put dst out (slice src start len)) else .error .bounds

def minus (a b : Nat) : Decoding Nat := if b ≤ a then .ok (a - b) else .error .overflow

/-! ## The decoder -/

/-- The halvings of `u` down to a nibble. -/
def halvings (u : Nat) : Nat := if h : u ≥ 0x10 then halvings (u / 2) + 1 else 0
termination_by u
decreasing_by omega

/-- The counter of the halvings has four bits. -/
def shiftFor (written : Nat) : Decoding Nat := do
  let u ← minus written 1
  if halvings u < 16 then .ok (halvings u) else .error .overflow

/-- The overlapping copy of a back reference.  The source does not compare the place it reads with the chunk's
start; a read in front of it is a fault here. -/
def copyBack (chunkStart offset : Nat) : Nat → Bytes → Nat → Decoding (Bytes × Nat)
  | 0, dst, out => .ok (dst, out)
  | k + 1, dst, out => do
    let source ← minus out offset
    let _ ← minus source chunkStart
    let v ← byteAt dst source
    let dst ← setByte dst out v
    copyBack chunkStart offset k dst (out + 1)

/-- The places in the source and in the destination. -/
structure State where
  inp : Nat
  out : Nat
  dst : Bytes
  deriving DecidableEq, Repr

/-- A token whose flag is clear. -/
def literal (src : Bytes) (st : State) : Decoding State := do
  refuse (st.out + 1 > st.dst.length)
  let v ← byteAt src st.inp
  let dst ← setByte st.dst st.out v
  .ok { inp := st.inp + 1, out := st.out + 1, dst := dst }

/-- A token whose flag is set. -/
def backReference (src : Bytes) (chunkEnd chunkStart : Nat) (st : State) : Decoding State := do
  refuse (st.inp + 2 > chunkEnd)
  let tuple ← le16 src st.inp
  let written ← minus st.out chunkStart
  refuse (written = 0)
  let l ← shiftFor written
  let length := (tuple &&& (0x0FFF >>> l)) + 3
  let wide ← minus 12 l
  let offset := (tuple >>> wide) + 1
  refuse (offset > written)
  refuse (st.out + length > st.dst.length)
  let (dst, out) ← copyBack chunkStart offset length st.dst st.out
  .ok { inp := st.inp + 2, out := out, dst := dst }

def token (src : Bytes) (chunkEnd chunkStart flags : Nat) (st : State) : Decoding State :=
  if flags &&& 1 == 0 then literal src st else backReference src chunkEnd chunkStart st

/-- The tokens of one group, `n` of them left. -/
def tokens (src : Bytes) (chunkEnd chunkStart : Nat) : Nat → Nat → State → Decoding State
  | 0, _, st => .ok st
  | n + 1, flags, st =>
    if st.inp < chunkEnd then do
      let st ← token src chunkEnd chunkStart flags st
      if st.out ≥ st.dst.length then .ok st else tokens src chunkEnd chunkStart n (flags >>> 1) st
    else .ok st

/-- What decoding leaves of a state: the places grow, and the destination keeps its length and is not left. -/
structure Moved (st st' : State) : Prop where
  inp : st.inp ≤ st'.inp
  out : st.out ≤ st'.out
  length : st'.dst.length = st.dst.length
  room : st.out ≤ st.dst.length → st'.out ≤ st.dst.length

theorem Moved.refl (st : State) : Moved st st := ⟨Nat.le_refl _, Nat.le_refl _, rfl, id⟩

theorem Moved.trans {st st' st'' : State} (h : Moved st st') (h' : Moved st' st'') : Moved st st'' :=
  ⟨h.inp.trans h'.inp, h.out.trans h'.out, h'.length.trans h.length, fun hroom => by
    rw [← h.length]
    exact h'.room (by rw [h.length]; exact h.room hroom)⟩

theorem refuse_ok {bad : Prop} [Decidable bad] {u : Unit} (h : refuse bad = .ok u) : ¬ bad := by
  unfold refuse Checked.refuse at h
  split at h
  · cases h
  · rename_i hbad
    exact fun hb => hbad (decide_eq_true hb)

theorem setByte_length {b b' : Bytes} {i : Nat} {v : UInt8} (h : setByte b i v = .ok b') : b'.length = b.length := by
  unfold setByte at h
  split at h
  · cases h
    exact List.length_set
  · cases h

theorem copyBytes_length {dst src dst' : Bytes} {out start len : Nat} (h : copyBytes dst out src start len = .ok dst') :
    dst'.length = dst.length := by
  unfold copyBytes at h
  split at h
  · cases h
    exact length_put ..
  · cases h

theorem copyBack_moved {chunkStart offset : Nat} : ∀ {k out out' : Nat} {dst dst' : Bytes},
    copyBack chunkStart offset k dst out = .ok (dst', out') → dst'.length = dst.length ∧ out' = out + k
  | 0, out, out', dst, dst', h => by
    cases h
    exact ⟨rfl, rfl⟩
  | k + 1, out, out', dst, dst', h => by
    obtain ⟨source, -, h⟩ := Except.bind_ok.1 h
    obtain ⟨-, -, h⟩ := Except.bind_ok.1 h
    obtain ⟨v, -, h⟩ := Except.bind_ok.1 h
    obtain ⟨dst'', hset, h⟩ := Except.bind_ok.1 h
    obtain ⟨hlen, rfl⟩ := copyBack_moved h
    exact ⟨hlen.trans (setByte_length hset), by omega⟩

theorem literal_moved {src : Bytes} {st st' : State} (h : literal src st = .ok st') : Moved st st' := by
  obtain ⟨_, hroom, h⟩ := Except.bind_ok.1 h
  obtain ⟨v, -, h⟩ := Except.bind_ok.1 h
  obtain ⟨dst, hset, h⟩ := Except.bind_ok.1 h
  have hroom := refuse_ok hroom
  cases h
  exact ⟨Nat.le_succ _, Nat.le_succ _, setByte_length hset, fun _ => by simp only; omega⟩

theorem backReference_moved {src : Bytes} {chunkEnd chunkStart : Nat} {st st' : State}
    (h : backReference src chunkEnd chunkStart st = .ok st') : Moved st st' := by
  obtain ⟨-, -, h⟩ := Except.bind_ok.1 h
  obtain ⟨tuple, -, h⟩ := Except.bind_ok.1 h
  obtain ⟨written, -, h⟩ := Except.bind_ok.1 h
  obtain ⟨-, -, h⟩ := Except.bind_ok.1 h
  obtain ⟨l, -, h⟩ := Except.bind_ok.1 h
  obtain ⟨wide, -, h⟩ := Except.bind_ok.1 h
  obtain ⟨-, -, h⟩ := Except.bind_ok.1 h
  obtain ⟨_, hroom, h⟩ := Except.bind_ok.1 h
  obtain ⟨⟨dst, out⟩, hcopy, h⟩ := Except.bind_ok.1 h
  have hroom := refuse_ok hroom
  obtain ⟨hlen, rfl⟩ := copyBack_moved hcopy
  cases h
  exact ⟨Nat.le_add_right _ _, Nat.le_add_right _ _, hlen, fun _ => Nat.le_of_not_lt hroom⟩

theorem token_moved {src : Bytes} {chunkEnd chunkStart flags : Nat} {st st' : State}
    (h : token src chunkEnd chunkStart flags st = .ok st') : Moved st st' := by
  unfold token at h
  split at h
  · exact literal_moved h
  · exact backReference_moved h

theorem tokens_moved {src : Bytes} {chunkEnd chunkStart : Nat} : ∀ {n flags : Nat} {st st' : State},
    tokens src chunkEnd chunkStart n flags st = .ok st' → Moved st st'
  | 0, _, st, st', h => by
    cases h
    exact Moved.refl _
  | n + 1, flags, st, st', h => by
    unfold tokens at h
    split at h
    · obtain ⟨st1, htoken, h⟩ := Except.bind_ok.1 h
      split at h
      · cases h
        exact token_moved htoken
      · exact (token_moved htoken).trans (tokens_moved h)
    · cases h
      exact Moved.refl _

/-- The groups of a compressed chunk. -/
def groups (src : Bytes) (chunkEnd chunkStart : Nat) (st : State) : Decoding State :=
  if _ : st.inp < chunkEnd ∧ st.out < st.dst.length then do
    let flags ← byteAt src st.inp
    match h : tokens src chunkEnd chunkStart 8 flags.toNat { st with inp := st.inp + 1 } with
    | .error e => .error e
    | .ok st' =>
      have := (tokens_moved h).inp
      groups src chunkEnd chunkStart st'
  else .ok st
termination_by chunkEnd - st.inp
decreasing_by
  simp only at this
  omega

/-- One chunk behind its header. -/
def chunk (src : Bytes) (header payloadLen : Nat) (st : State) : Decoding State := do
  let chunkEnd := st.inp + payloadLen
  if header &&& 0x8000 == 0 then
    refuse (st.out + payloadLen > st.dst.length)
    let dst ← copyBytes st.dst st.out src st.inp payloadLen
    .ok { inp := chunkEnd, out := st.out + payloadLen, dst := dst }
  else
    let st ← groups src chunkEnd st.out st
    .ok { st with inp := chunkEnd }

theorem chunk_inp {src : Bytes} {header payloadLen : Nat} {st st' : State} (h : chunk src header payloadLen st = .ok st') :
    st'.inp = st.inp + payloadLen := by
  unfold chunk at h
  simp only at h
  split at h
  · obtain ⟨-, -, h⟩ := Except.bind_ok.1 h
    obtain ⟨dst, -, h⟩ := Except.bind_ok.1 h
    cases h
    rfl
  · obtain ⟨st1, -, h⟩ := Except.bind_ok.1 h
    cases h
    rfl

/-- The chunks of a unit. -/
def chunks (src : Bytes) (st : State) : Decoding State :=
  if _ : st.inp + 2 ≤ src.length ∧ st.out < st.dst.length then do
    let header ← le16 src st.inp
    if header = 0 then .ok { st with inp := st.inp + 2 }
    else do
      refuse (header &&& 0x7000 ≠ 0x3000)
      refuse (st.inp + 2 + ((header &&& 0x0FFF) + 1) > src.length)
      match h : chunk src header ((header &&& 0x0FFF) + 1) { st with inp := st.inp + 2 } with
      | .error e => .error e
      | .ok st' =>
        have := chunk_inp h
        chunks src st'
  else .ok st
termination_by src.length - st.inp
decreasing_by
  simp only at this
  omega

/-- What is returned, and the destination after it. -/
def lznt1Decompress (src dst : Bytes) : Decoding (Nat × Bytes) := do
  let st ← chunks src { inp := 0, out := 0, dst := dst }
  .ok (st.out, st.dst)

/-! ## What the accesses give -/

theorem byteAt_ok {b : Bytes} {i : Nat} (h : i < b.length) : byteAt b i = .ok b[i] := by
  rw [byteAt, List.getElem?_eq_getElem h]

theorem le16_ok {b : Bytes} {i : Nat} (h : i + 2 ≤ b.length) : le16 b i = .ok (getLe b i 2) := if_pos h

theorem minus_ok {a b : Nat} (h : b ≤ a) : minus a b = .ok (a - b) := if_pos h

theorem refuse_not {bad : Prop} [Decidable bad] (h : ¬ bad) : refuse bad = .ok () := by
  unfold refuse Checked.refuse
  rw [decide_eq_false h]
  rfl

theorem refuse_settled (bad : Prop) [Decidable bad] : Checked.Settled (refuse bad) :=
  (Checked.Yields.refuse _ ()).settled

/-! ## The split -/

theorem halvings_lt (u : Nat) : u < 2 ^ (halvings u + 4) := by
  unfold halvings
  split
  · have ih := halvings_lt (u / 2)
    rw [Nat.add_right_comm, Nat.pow_succ]
    omega
  · omega
termination_by u

theorem halvings_le (u : Nat) (h : 0x10 ≤ u) : 2 ^ (halvings u + 3) ≤ u := by
  unfold halvings
  rw [dif_pos h]
  by_cases hhalf : 0x10 ≤ u / 2
  · have ih := halvings_le (u / 2) hhalf
    rw [Nat.add_right_comm, Nat.pow_succ]
    omega
  · unfold halvings
    rw [dif_neg hhalf]
    omega
termination_by u

theorem halvings_le_twelve {u : Nat} (h : u < 2 ^ 16) : halvings u ≤ 12 := by
  by_contra hno
  by_cases hu : 0x10 ≤ u
  · have hle := halvings_le u hu
    have hpow : 2 ^ 16 ≤ 2 ^ (halvings u + 3) := Nat.pow_le_pow_right (by omega) (by omega)
    omega
  · unfold halvings at hno
    rw [dif_neg hu] at hno
    omega

theorem shiftFor_ok {written : Nat} (h0 : 0 < written) (h : written ≤ 2 ^ 16) :
    shiftFor written = .ok (halvings (written - 1)) := by
  unfold shiftFor
  rw [minus_ok (show 1 ≤ written from h0)]
  have hle : halvings (written - 1) ≤ 12 := halvings_le_twelve (by omega)
  exact if_pos (by omega)

/-! ## The copy -/

/-- The text with `k` bytes more, each the one `offset` places before it. -/
def repeatBack (offset : Nat) : Nat → Bytes → Bytes
  | 0, text => text
  | k + 1, text => repeatBack offset k (text ++ [text.getD (text.length - offset) 0])

/-- A destination that begins with `text`. -/
def onto (dst text : Bytes) : Bytes := text ++ dst.drop text.length

theorem length_onto {dst text : Bytes} (h : text.length ≤ dst.length) : (onto dst text).length = dst.length := by
  rw [onto, List.length_append, List.length_drop]
  omega

theorem onto_take (dst : Bytes) {out : Nat} (h : out ≤ dst.length) : onto dst (dst.take out) = dst := by
  rw [onto, List.length_take, Nat.min_eq_left h, List.take_append_drop]

theorem setByte_onto {dst text : Bytes} (h : text.length < dst.length) (v : UInt8) :
    setByte (onto dst text) text.length v = .ok (onto dst (text ++ [v])) := by
  rw [setByte, if_pos (by rw [length_onto (by omega)]; exact h), onto, onto, List.drop_eq_getElem_cons h, List.set_append,
    if_neg (by omega), Nat.sub_self, List.set_cons_zero, List.length_append, List.length_singleton, List.append_assoc]
  rfl

/-- **The copy repeats what it has written**, also where it overlaps. -/
theorem copyBack_eq (dst : Bytes) (chunkStart : Nat) {offset : Nat} (hpos : 1 ≤ offset) : ∀ (k : Nat) (text : Bytes),
    chunkStart + offset ≤ text.length → text.length + k ≤ dst.length →
    copyBack chunkStart offset k (onto dst text) text.length = .ok (onto dst (repeatBack offset k text), text.length + k)
  | 0, _, _, _ => rfl
  | k + 1, text, hback, hroom => by
    have hread : byteAt (onto dst text) (text.length - offset) = .ok (text.getD (text.length - offset) 0) := by
      rw [byteAt, onto, List.getElem?_append_left (by omega), List.getD_eq_getElem?_getD,
        List.getElem?_eq_getElem (by omega)]
      rfl
    unfold copyBack
    rw [minus_ok (by omega)]
    simp only [Except.bind, bind, minus_ok (show chunkStart ≤ text.length - offset by omega), hread]
    rw [setByte_onto (by omega)]
    have ih := copyBack_eq dst chunkStart hpos k (text ++ [text.getD (text.length - offset) 0])
      (by rw [List.length_append]; omega) (by rw [List.length_append, List.length_singleton]; omega)
    rw [List.length_append, List.length_singleton] at ih
    simp only
    rw [ih]
    congr 2
    omega

/-! ## No fault -/

section Safe

variable {src : Bytes} {chunkEnd chunkStart : Nat}

open Checked (Settled)

theorem copyBack_settled {dst : Bytes} {offset k out : Nat} (hpos : 1 ≤ offset) (hback : chunkStart + offset ≤ out)
    (hroom : out + k ≤ dst.length) : Settled (copyBack chunkStart offset k dst out : Decoding (Bytes × Nat)) := by
  have hlen : (dst.take out).length = out := by
    rw [List.length_take]
    omega
  have heq := copyBack_eq dst chunkStart hpos k (dst.take out) (by omega) (by omega)
  rw [onto_take dst (by omega), hlen] at heq
  exact .inl ⟨_, heq⟩

theorem setByte_settled {b : Bytes} {i : Nat} {v : UInt8} (h : i < b.length) : Settled (setByte b i v : Decoding Bytes) :=
  .inl ⟨_, if_pos h⟩

theorem literal_settled {st : State} (hin : st.inp < src.length) : Settled (literal src st) := by
  refine (refuse_settled _).bind fun _ hroom => ?_
  have hroom := refuse_ok hroom
  rw [byteAt_ok hin]
  refine (setByte_settled (by omega)).bind fun dst _ => ?_
  exact .inl ⟨_, rfl⟩

theorem backReference_settled {st : State} (hend : chunkEnd ≤ src.length) (hstart : chunkStart ≤ st.out)
    (hout : st.out ≤ 2 ^ 16) : Settled (backReference src chunkEnd chunkStart st) := by
  refine (refuse_settled _).bind fun _ htuple => ?_
  have htuple := refuse_ok htuple
  rw [le16_ok (by omega), minus_ok hstart]
  refine (refuse_settled _).bind fun _ hwritten => ?_
  have hwritten := refuse_ok hwritten
  rw [shiftFor_ok (by omega) (by omega)]
  have hle : halvings (st.out - chunkStart - 1) ≤ 12 := halvings_le_twelve (by omega)
  simp only [bind, Except.bind, minus_ok hle]
  refine (refuse_settled _).bind fun _ hoffset => ?_
  have hoffset := refuse_ok hoffset
  refine (refuse_settled _).bind fun _ hroom => ?_
  have hroom := refuse_ok hroom
  refine (copyBack_settled (Nat.le_add_left ..) (by omega) (by omega)).bind fun copied _ => ?_
  exact .inl ⟨_, rfl⟩

theorem token_settled {flags : Nat} {st : State} (hin : st.inp < chunkEnd) (hend : chunkEnd ≤ src.length)
    (hstart : chunkStart ≤ st.out) (hout : st.out ≤ 2 ^ 16) : Settled (token src chunkEnd chunkStart flags st) := by
  unfold token
  split
  · exact literal_settled (by omega)
  · exact backReference_settled hend hstart hout

theorem tokens_settled (hend : chunkEnd ≤ src.length) : ∀ {n flags : Nat} {st : State}, chunkStart ≤ st.out →
    st.out ≤ st.dst.length → st.dst.length ≤ 2 ^ 16 → Settled (tokens src chunkEnd chunkStart n flags st)
  | 0, _, _, _, _, _ => .inl ⟨_, rfl⟩
  | n + 1, flags, st, hstart, hout, hdst => by
    unfold tokens
    split
    · rename_i hin
      refine (token_settled hin hend hstart (by omega)).bind fun st' htoken => ?_
      have hmoved := token_moved htoken
      split
      · exact .inl ⟨_, rfl⟩
      · refine tokens_settled hend (hstart.trans hmoved.out) ?_ (by rw [hmoved.length]; exact hdst)
        rw [hmoved.length]
        exact hmoved.room hout
    · exact .inl ⟨_, rfl⟩

theorem groups_moved {st st' : State} (h : groups src chunkEnd chunkStart st = .ok st') : Moved st st' := by
  unfold groups at h
  split at h
  · obtain ⟨flags, -, h⟩ := Except.bind_ok.1 h
    split at h
    · cases h
    · rename_i st1 htokens
      have hmoved := tokens_moved htokens
      have hinp : st.inp + 1 ≤ st1.inp := hmoved.inp
      have hflags : Moved st { st with inp := st.inp + 1 } := ⟨Nat.le_succ _, Nat.le_refl _, rfl, id⟩
      exact (hflags.trans hmoved).trans (groups_moved h)
  · cases h
    exact Moved.refl _
termination_by chunkEnd - st.inp

theorem groups_settled (hend : chunkEnd ≤ src.length) {st : State} (hstart : chunkStart ≤ st.out)
    (hout : st.out ≤ st.dst.length) (hdst : st.dst.length ≤ 2 ^ 16) : Settled (groups src chunkEnd chunkStart st) := by
  unfold groups
  split
  · rw [byteAt_ok (by omega)]
    simp only [bind, Except.bind]
    split
    · rename_i e htokens
      have hsettled : Settled (tokens src chunkEnd chunkStart 8 src[st.inp].toNat { st with inp := st.inp + 1 }) :=
        tokens_settled hend hstart hout hdst
      rw [htokens] at hsettled
      exact hsettled
    · rename_i st1 htokens
      have hmoved := tokens_moved htokens
      have hinp : st.inp + 1 ≤ st1.inp := hmoved.inp
      refine groups_settled hend (hstart.trans hmoved.out) ?_ (by rw [hmoved.length]; exact hdst)
      rw [hmoved.length]
      exact hmoved.room hout
  · exact .inl ⟨_, rfl⟩
termination_by chunkEnd - st.inp

theorem chunk_moved {header payloadLen : Nat} {st st' : State} (h : chunk src header payloadLen st = .ok st') :
    Moved st st' := by
  unfold chunk at h
  simp only at h
  split at h
  · obtain ⟨_, hroom, h⟩ := Except.bind_ok.1 h
    obtain ⟨dst, hcopy, h⟩ := Except.bind_ok.1 h
    have hroom := refuse_ok hroom
    cases h
    exact ⟨Nat.le_add_right _ _, Nat.le_add_right _ _, copyBytes_length hcopy, fun _ => by simp only; omega⟩
  · obtain ⟨st1, hgroups, h⟩ := Except.bind_ok.1 h
    have hmoved := groups_moved hgroups
    cases h
    exact ⟨Nat.le_add_right _ _, hmoved.out, hmoved.length, hmoved.room⟩

theorem chunk_settled {header payloadLen : Nat} {st : State} (hend : st.inp + payloadLen ≤ src.length)
    (hout : st.out ≤ st.dst.length) (hdst : st.dst.length ≤ 2 ^ 16) : Settled (chunk src header payloadLen st) := by
  unfold chunk
  simp only
  split
  · refine (refuse_settled _).bind fun _ hroom => ?_
    have hroom := refuse_ok hroom
    rw [copyBytes, if_pos ⟨by omega, hend⟩]
    exact .inl ⟨_, rfl⟩
  · refine (groups_settled hend (Nat.le_refl _) hout hdst).bind fun st' _ => ?_
    exact .inl ⟨_, rfl⟩

theorem chunks_moved {st st' : State} (h : chunks src st = .ok st') : Moved st st' := by
  unfold chunks at h
  split at h
  · obtain ⟨header, -, h⟩ := Except.bind_ok.1 h
    split at h
    · cases h
      exact ⟨Nat.le_add_right _ _, Nat.le_refl _, rfl, id⟩
    · obtain ⟨-, -, h⟩ := Except.bind_ok.1 h
      obtain ⟨-, -, h⟩ := Except.bind_ok.1 h
      split at h
      · cases h
      · rename_i st1 hchunk
        have hinp : st1.inp = st.inp + 2 + ((header &&& 0x0FFF) + 1) := chunk_inp hchunk
        have hheader : Moved st { st with inp := st.inp + 2 } := ⟨Nat.le_add_right _ _, Nat.le_refl _, rfl, id⟩
        exact (hheader.trans (chunk_moved hchunk)).trans (chunks_moved h)
  · cases h
    exact Moved.refl _
termination_by src.length - st.inp

theorem chunks_settled {st : State} (hout : st.out ≤ st.dst.length) (hdst : st.dst.length ≤ 2 ^ 16) :
    Settled (chunks src st) := by
  unfold chunks
  split
  · rename_i hrun
    rw [le16_ok hrun.1]
    simp only [bind, Except.bind]
    split
    · exact .inl ⟨_, rfl⟩
    · refine (refuse_settled _).bind fun _ _ => ?_
      refine (refuse_settled _).bind fun _ hend => ?_
      have hend := refuse_ok hend
      split
      · rename_i e hchunk
        have hsettled : Settled (chunk src (getLe src st.inp 2) ((getLe src st.inp 2 &&& 0x0FFF) + 1)
            { st with inp := st.inp + 2 }) :=
          chunk_settled (Nat.le_of_not_lt hend) hout hdst
        rw [hchunk] at hsettled
        exact hsettled
      · rename_i st1 hchunk
        have hmoved := chunk_moved hchunk
        have hinp : st1.inp = st.inp + 2 + ((getLe src st.inp 2 &&& 0x0FFF) + 1) := chunk_inp hchunk
        refine chunks_settled ?_ (by rw [hmoved.length]; exact hdst)
        rw [hmoved.length]
        exact hmoved.room hout
  · exact .inl ⟨_, rfl⟩
termination_by src.length - st.inp

/-- **No source makes the decoder fault**, and what it gives fits into the destination. -/
theorem lznt1Decompress_settled {dst : Bytes} (hdst : dst.length ≤ 2 ^ 16) : Settled (lznt1Decompress src dst) ∧
    ∀ n dst', lznt1Decompress src dst = .ok (n, dst') → n ≤ dst.length ∧ dst'.length = dst.length := by
  refine ⟨(chunks_settled (Nat.zero_le _) hdst).bind fun st _ => .inl ⟨_, rfl⟩, fun n dst' h => ?_⟩
  obtain ⟨st, hchunks, h⟩ := Except.bind_ok.1 h
  have hmoved := chunks_moved hchunks
  cases h
  exact ⟨hmoved.room (Nat.zero_le _), hmoved.length⟩

end Safe

end Lznt1
end R4
