import R4Recovery.Lznt1
import Mathlib.Data.Nat.Log
import Mathlib.Tactic.Ring
/-!
# Lznt1Codec — what an encoder writes is read back

An encoder cuts its text into chunks, stored ones and packed ones; a packed chunk is a sequence of groups of eight tokens
behind one byte of flags.  The split of a back reference follows from its place in the chunk.  Whatever tokens the encoder
chooses, the decoder gives the text (`chunks_encode`).
-/
namespace R4
namespace Lznt1

open Gpt (getLe)

/-! ## The encoder -/

/-- The bits of a displacement: a nibble at least, and enough for the places that are written. -/
def displacementBits (written : Nat) : Nat := max 4 (Nat.clog 2 written)

inductive Token where
  | literal (byte : UInt8)
  | reference (offset length : Nat)
  deriving DecidableEq, Repr

namespace Token

def flag : Token → Nat
  | literal _ => 0
  | reference _ _ => 1

/-- What an encoder may choose behind the bytes `c` of the chunk. -/
def Valid (c : Bytes) : Token → Prop
  | literal _ => True
  | reference offset length => 1 ≤ offset ∧ offset ≤ c.length ∧ 3 ≤ length ∧
      length < 2 ^ (16 - displacementBits c.length) + 3

def bytes (c : Bytes) : Token → Bytes
  | literal byte => [byte]
  | reference offset length => leBytes 2 ((offset - 1) * 2 ^ (16 - displacementBits c.length) + (length - 3))

/-- The chunk with the token's bytes behind it. -/
def emit (c : Bytes) : Token → Bytes
  | literal byte => c ++ [byte]
  | reference offset length => repeatBack offset length c

end Token

def TokensValid : Bytes → List Token → Prop
  | _, [] => True
  | c, t :: ts => t.Valid c ∧ TokensValid (t.emit c) ts

def tokenBytes : Bytes → List Token → Bytes
  | _, [] => []
  | c, t :: ts => t.bytes c ++ tokenBytes (t.emit c) ts

def emitTokens (c : Bytes) (ts : List Token) : Bytes := ts.foldl Token.emit c

/-- The flags of the tokens, the first one lowest, and what stands above them. -/
def flagBits (unused : Nat) : List Token → Nat
  | [] => unused
  | t :: ts => t.flag + 2 * flagBits unused ts

/-- The tokens behind one byte of flags. -/
structure Group where
  tokens : List Token
  unused : Nat
  some : tokens ≠ []
  size : tokens.length ≤ 8
  byte : flagBits unused tokens < 256

def Group.bytes (c : Bytes) (g : Group) : Bytes := UInt8.ofNat (flagBits g.unused g.tokens) :: tokenBytes c g.tokens

def groupBytes : Bytes → List Group → Bytes
  | _, [] => []
  | c, g :: gs => g.bytes c ++ groupBytes (emitTokens c g.tokens) gs

def emitGroups (c : Bytes) (gs : List Group) : Bytes := gs.foldl (fun c g => emitTokens c g.tokens) c

/-- Every group but the last one is full. -/
def GroupsValid : Bytes → List Group → Prop
  | _, [] => True
  | c, g :: gs => TokensValid c g.tokens ∧ (gs ≠ [] → g.tokens.length = 8) ∧ GroupsValid (emitTokens c g.tokens) gs

inductive Chunk where
  | stored (data : Bytes)
  | packed (gs : List Group)

namespace Chunk

def payload : Chunk → Bytes
  | stored data => data
  | packed gs => groupBytes [] gs

def output : Chunk → Bytes
  | stored data => data
  | packed gs => emitGroups [] gs

def signature : Chunk → Nat
  | stored _ => 0x3000
  | packed _ => 0xB000

/-- The length fits into its twelve bits. -/
def Valid (chunk : Chunk) : Prop := 1 ≤ chunk.payload.length ∧ chunk.payload.length ≤ 4096 ∧
  ∀ gs, chunk = packed gs → GroupsValid [] gs

def bytes (chunk : Chunk) : Bytes := leBytes 2 (chunk.signature + (chunk.payload.length - 1)) ++ chunk.payload

end Chunk

def encode (cs : List Chunk) : Bytes := cs.flatMap Chunk.bytes

def decoded (cs : List Chunk) : Bytes := cs.flatMap Chunk.output

/-! ## The split is the encoder's -/

theorem halvings_displacement (written : Nat) (h : 0 < written) : halvings (written - 1) + 4 = displacementBits written := by
  have hlt := halvings_lt (written - 1)
  have hle : Nat.clog 2 written ≤ halvings (written - 1) + 4 := Nat.clog_le_of_le_pow (by omega)
  unfold displacementBits
  by_cases hu : 0x10 ≤ written - 1
  · have hpow := halvings_le (written - 1) hu
    have hge : halvings (written - 1) + 3 < Nat.clog 2 written := by
      rw [Nat.lt_clog_iff_pow_lt (by decide)]
      omega
    omega
  · have hzero : halvings (written - 1) = 0 := by
      unfold halvings
      exact dif_neg hu
    omega

theorem le_displacement (written : Nat) : written ≤ 2 ^ displacementBits written :=
  (Nat.le_pow_clog (by decide) written).trans (Nat.pow_le_pow_right (by decide) (Nat.le_max_right _ _))

theorem shiftRight_mask {l : Nat} (h : l ≤ 12) : 0x0FFF >>> l = 2 ^ (12 - l) - 1 := by
  interval_cases l <;> rfl

theorem tuple_split {l low : Nat} (high : Nat) (h : l ≤ 12) (hlow : low < 2 ^ (12 - l)) :
    (high * 2 ^ (12 - l) + low) &&& (0x0FFF >>> l) = low ∧ (high * 2 ^ (12 - l) + low) >>> (12 - l) = high := by
  rw [shiftRight_mask h, Nat.and_two_pow_sub_one_eq_mod, Nat.shiftRight_eq_div_pow]
  exact ⟨by rw [Nat.add_comm, Nat.add_mul_mod_self_right, Nat.mod_eq_of_lt hlow],
    by rw [Nat.add_comm, Nat.add_mul_div_right _ _ (Nat.two_pow_pos _), Nat.div_eq_of_lt hlow, Nat.zero_add]⟩

/-! ## Lengths -/

theorem length_repeatBack {offset : Nat} : ∀ (k : Nat) (c : Bytes), (repeatBack offset k c).length = c.length + k
  | 0, _ => rfl
  | k + 1, c => by
    rw [repeatBack, length_repeatBack k, List.length_append, List.length_singleton]
    omega

theorem repeatBack_append {offset : Nat} (done : Bytes) : ∀ (k : Nat) (c : Bytes), offset ≤ c.length →
    repeatBack offset k (done ++ c) = done ++ repeatBack offset k c
  | 0, _, _ => rfl
  | k + 1, c, h => by
    have hread : (done ++ c).getD ((done ++ c).length - offset) 0 = c.getD (c.length - offset) 0 := by
      rw [List.getD_append_right _ _ _ _ (by rw [List.length_append]; omega), List.length_append]
      congr 1
      omega
    rw [repeatBack, repeatBack, hread, List.append_assoc,
      repeatBack_append done k _ (by rw [List.length_append]; omega)]

theorem Token.length_emit {c : Bytes} {t : Token} (h : t.Valid c) : c.length + 1 ≤ (t.emit c).length := by
  cases t with
  | literal byte =>
    rw [Token.emit, List.length_append]
    exact Nat.le_refl _
  | reference offset length =>
    obtain ⟨-, -, hlength, -⟩ := h
    rw [Token.emit, length_repeatBack]
    omega

theorem Token.bytes_ne_nil (c : Bytes) (t : Token) : 0 < (t.bytes c).length := by
  cases t with
  | literal byte => exact Nat.one_pos
  | reference offset length =>
    rw [Token.bytes, length_leBytes]
    decide

theorem length_emitTokens : ∀ {ts : List Token} {c : Bytes}, TokensValid c ts →
    c.length + ts.length ≤ (emitTokens c ts).length
  | [], _, _ => Nat.le_refl _
  | t :: ts, c, h => by
    have hemit := Token.length_emit h.1
    have ih : (t.emit c).length + ts.length ≤ (emitTokens c (t :: ts)).length := length_emitTokens h.2
    rw [List.length_cons]
    omega

theorem length_emitGroups : ∀ {gs : List Group} {c : Bytes}, GroupsValid c gs →
    c.length + gs.length ≤ (emitGroups c gs).length
  | [], _, _ => Nat.le_refl _
  | g :: gs, c, h => by
    have hemit := length_emitTokens h.1
    have hsome := List.length_pos_iff.2 g.some
    have ih : (emitTokens c g.tokens).length + gs.length ≤ (emitGroups c (g :: gs)).length := length_emitGroups h.2.2
    rw [List.length_cons]
    omega

/-! ## Reading back -/

theorem byteAt_append (pre post : Bytes) (b : UInt8) : byteAt (pre ++ b :: post) pre.length = .ok b := by
  rw [byteAt, List.getElem?_append_right (Nat.le_refl _), Nat.sub_self]
  rfl

theorem le16_append (pre post : Bytes) {n : Nat} (h : n < 2 ^ 16) : le16 (pre ++ (leBytes 2 n ++ post))
    pre.length = .ok n := by
  rw [le16_ok (by rw [List.length_append, List.length_append, length_leBytes]; omega), getLe,
    ← List.append_assoc, slice_middle rfl (length_leBytes 2 n), leNat_leBytes_of_lt h]

/-- Behind `pre` of the source, with `text` written. -/
def place (dst pre text : Bytes) : State := { inp := pre.length, out := text.length, dst := onto dst text }

section Exact

variable {src dst done : Bytes} {chunkEnd : Nat}

theorem token_exact {c pre post : Bytes} {t : Token} {flags : Nat} (hvalid : t.Valid c) (hdst : dst.length ≤ 2 ^ 16)
    (hroom : (done ++ t.emit c).length ≤ dst.length) (hsrc : src = pre ++ (t.bytes c ++ post))
    (hend : (pre ++ t.bytes c).length ≤ chunkEnd) (hflag : flags % 2 = t.flag) :
    token src chunkEnd done.length flags (place dst pre (done ++ c))
    = .ok (place dst (pre ++ t.bytes c) (done ++ t.emit c)) := by
  have hemit := Token.length_emit hvalid
  rw [List.length_append] at hroom
  have hfit : (done ++ c).length < dst.length := by
    rw [List.length_append]
    omega
  have hlength : (onto dst (done ++ c)).length = dst.length := length_onto (by omega)
  unfold token
  rw [Nat.and_one_is_mod, hflag]
  cases t with
  | literal byte =>
    show literal src (place dst pre (done ++ c)) = _
    have hread : byteAt src pre.length = .ok byte := hsrc ▸ byteAt_append pre post byte
    unfold literal place
    simp only
    rw [refuse_not (by rw [hlength]; omega), hread]
    simp only [bind, Except.bind]
    rw [setByte_onto hfit]
    simp only [Token.emit, Token.bytes, List.append_assoc, List.length_append, List.length_singleton]
    rfl
  | reference offset length =>
    show backReference src chunkEnd done.length (place dst pre (done ++ c)) = _
    obtain ⟨hpos, hback, hmin, hmax⟩ := hvalid
    have hc : c.length ≤ 2 ^ 16 := by
      rw [List.length_append] at hfit
      omega
    have hbits := halvings_displacement c.length (by omega)
    have hl : halvings (c.length - 1) ≤ 12 := halvings_le_twelve (by omega)
    have hwide : 16 - displacementBits c.length = 12 - halvings (c.length - 1) := by omega
    have hlow : length - 3 < 2 ^ (12 - halvings (c.length - 1)) := by
      rw [← hwide]
      omega
    have htuple : (offset - 1) * 2 ^ (12 - halvings (c.length - 1)) + (length - 3) < 2 ^ 16 := by
      have hmul : offset * 2 ^ (12 - halvings (c.length - 1)) ≤ 2 ^ 16 := by
        have hle : offset ≤ 2 ^ (halvings (c.length - 1) + 4) := by
          rw [hbits]
          have := le_displacement c.length
          omega
        calc offset * 2 ^ (12 - halvings (c.length - 1))
            ≤ 2 ^ (halvings (c.length - 1) + 4) * 2 ^ (12 - halvings (c.length - 1)) := Nat.mul_le_mul_right _ hle
          _ = 2 ^ 16 := by
            rw [← Nat.pow_add]
            congr 1
            omega
      obtain ⟨o, rfl⟩ : ∃ o, offset = o + 1 := ⟨offset - 1, by omega⟩
      rw [Nat.succ_mul] at hmul
      rw [Nat.add_sub_cancel]
      omega
    obtain ⟨hlen, hoff⟩ := tuple_split (offset - 1) hl hlow
    rw [Token.bytes, hwide] at hsrc hend
    rw [List.length_append, length_leBytes] at hend
    have hread : le16 src pre.length = .ok ((offset - 1) * 2 ^ (12 - halvings (c.length - 1)) + (length - 3)) :=
      hsrc ▸ le16_append pre post htuple
    have hwritten : (done ++ c).length - done.length = c.length := by
      rw [List.length_append]
      omega
    rw [Token.emit, length_repeatBack] at hroom
    unfold backReference place
    simp only
    rw [refuse_not (by omega), hread, minus_ok (by rw [List.length_append]; omega), hwritten]
    simp only [bind, Except.bind]
    rw [refuse_not (by omega), shiftFor_ok (by omega) hc]
    simp only
    rw [minus_ok hl]
    simp only
    rw [hlen, hoff, Nat.sub_add_cancel hmin, Nat.sub_add_cancel hpos, refuse_not (by omega),
      refuse_not (by rw [hlength, List.length_append]; omega)]
    simp only
    rw [copyBack_eq dst done.length hpos length (done ++ c) (by rw [List.length_append]; omega)
      (by rw [List.length_append]; omega), repeatBack_append done length c hback]
    simp only [Token.emit, Token.bytes, List.length_append, length_leBytes, length_repeatBack]
    congr 2
    omega

theorem flagBits_cons (unused : Nat) (t : Token) (ts : List Token) : flagBits unused (t :: ts) % 2 = t.flag ∧
    flagBits unused (t :: ts) >>> 1 = flagBits unused ts := by
  rw [Nat.shiftRight_one, flagBits]
  cases t
  · rw [Token.flag]
    omega
  · rw [Token.flag]
    omega

/-- **The tokens of a group**: fewer than `n` end with their chunk. -/
theorem tokens_exact (hdst : dst.length ≤ 2 ^ 16) {unused : Nat} (post : Bytes) : ∀ {n : Nat} {ts : List Token}
    {c pre : Bytes},
    ts.length ≤ n → TokensValid c ts → (done ++ emitTokens c ts).length ≤ dst.length →
    src = pre ++ (tokenBytes c ts ++ post) → (pre ++ tokenBytes c ts).length ≤ chunkEnd →
    (ts.length < n → (pre ++ tokenBytes c ts).length = chunkEnd) →
    tokens src chunkEnd done.length n (flagBits unused ts) (place dst pre (done ++ c)) =
      .ok (place dst (pre ++ tokenBytes c ts) (done ++ emitTokens c ts))
  | 0, [], c, pre, _, _, _, _, _, _ => by
    rw [tokenBytes, List.append_nil]
    rfl
  | n + 1, [], c, pre, _, _, _, _, _, hlast => by
    have hin : ¬ (place dst pre (done ++ c)).inp < chunkEnd := by
      rw [← hlast (Nat.succ_pos n), tokenBytes, List.append_nil]
      exact Nat.lt_irrefl _
    rw [tokens, if_neg hin, tokenBytes, List.append_nil]
    rfl
  | n + 1, t :: ts, c, pre, hn, hvalid, hroom, hsrc, hend, hlast => by
    obtain ⟨ht, hts⟩ := hvalid
    have hcount : (t.emit c).length + ts.length ≤ (emitTokens c (t :: ts)).length := length_emitTokens hts
    have hbytes := Token.bytes_ne_nil c t
    rw [List.length_append] at hroom
    rw [tokenBytes, ← List.append_assoc, List.length_append] at hend
    obtain ⟨hflag, hshift⟩ := flagBits_cons unused t ts
    have hin : (place dst pre (done ++ c)).inp < chunkEnd := by
      rw [List.length_append] at hend
      show pre.length < chunkEnd
      omega
    have htoken : token src chunkEnd done.length (flagBits unused (t :: ts)) (place dst pre (done ++ c)) =
        .ok (place dst (pre ++ t.bytes c) (done ++ t.emit c)) :=
      token_exact ht hdst (by rw [List.length_append]; omega) (hsrc.trans (by rw [tokenBytes, List.append_assoc])) (by omega)
        hflag
    rw [tokens, if_pos hin, htoken]
    simp only [bind, Except.bind]
    rw [hshift]
    have hrest : (place dst (pre ++ t.bytes c) (done ++ t.emit c)).dst.length = dst.length :=
      length_onto (by rw [List.length_append]; omega)
    by_cases hfull : (place dst (pre ++ t.bytes c) (done ++ t.emit c)).out ≥ dst.length
    · obtain rfl : ts = [] := by
        have hout : dst.length ≤ (done ++ t.emit c).length := hfull
        rw [List.length_append] at hout
        exact List.eq_nil_of_length_eq_zero (by omega)
      rw [hrest, if_pos hfull, tokenBytes, tokenBytes, List.append_nil]
      rfl
    · rw [hrest, if_neg hfull, tokens_exact hdst post (Nat.le_of_succ_le_succ hn) hts
        (by rw [List.length_append]; exact hroom) (hsrc.trans (by rw [tokenBytes, List.append_assoc, List.append_assoc]))
        (by rw [List.length_append]; exact hend)
        (fun hlt => by rw [← hlast (Nat.succ_lt_succ hlt), tokenBytes, List.append_assoc])]
      rw [tokenBytes, List.append_assoc]
      rfl

theorem groups_stop {chunkStart : Nat} {st : State} (h : ¬ (st.inp < chunkEnd ∧ st.out < st.dst.length)) :
    groups src chunkEnd chunkStart st = .ok st := by
  rw [groups, dif_neg h]

theorem groups_step {chunkStart : Nat} {st st' : State} {flags : UInt8} (hin : st.inp < chunkEnd)
    (hout : st.out < st.dst.length) (hflags : byteAt src st.inp = .ok flags)
    (htokens : tokens src chunkEnd chunkStart 8 flags.toNat { st with inp := st.inp + 1 } = .ok st') :
    groups src chunkEnd chunkStart st = groups src chunkEnd chunkStart st' := by
  conv => lhs; unfold groups
  rw [dif_pos ⟨hin, hout⟩, hflags]
  simp only [bind, Except.bind]
  split
  · rename_i e htokens'
    rw [htokens] at htokens'
    cases htokens'
  · rename_i st1 htokens'
    rw [htokens] at htokens'
    cases htokens'
    rfl

/-- **The groups of a chunk.** -/
theorem groups_exact (hdst : dst.length ≤ 2 ^ 16) (post : Bytes) : ∀ {gs : List Group} {c pre : Bytes}, GroupsValid c gs →
    (done ++ emitGroups c gs).length ≤ dst.length → src = pre ++ (groupBytes c gs ++ post) →
    (pre ++ groupBytes c gs).length = chunkEnd →
    groups src chunkEnd done.length (place dst pre (done ++ c)) =
      .ok (place dst (pre ++ groupBytes c gs) (done ++ emitGroups c gs))
  | [], c, pre, _, _, _, hend => by
    rw [groupBytes, List.append_nil] at hend ⊢
    exact groups_stop fun h => Nat.lt_irrefl _ (hend ▸ h.1)
  | g :: gs, c, pre, hvalid, hroom, hsrc, hend => by
    obtain ⟨htokens, hfull, hgs⟩ := hvalid
    have hcount := length_emitTokens htokens
    have hsome := List.length_pos_iff.2 g.some
    have hemit : (emitTokens c g.tokens).length + gs.length ≤ (emitGroups c (g :: gs)).length := length_emitGroups hgs
    rw [List.length_append] at hroom
    have hfit : (done ++ c).length < dst.length := by
      rw [List.length_append]
      omega
    have hnat : (UInt8.ofNat (flagBits g.unused g.tokens)).toNat = flagBits g.unused g.tokens :=
      UInt8.toNat_ofNat_of_lt' g.byte
    rw [groupBytes, Group.bytes, List.cons_append, List.cons_append] at hsrc
    rw [groupBytes, Group.bytes, List.cons_append, List.append_cons] at hend
    have hflags : byteAt src (place dst pre (done ++ c)).inp = .ok (UInt8.ofNat (flagBits g.unused g.tokens)) :=
      hsrc ▸ byteAt_append pre _ _
    have hinside : pre.length + 1 + (tokenBytes c g.tokens).length ≤ chunkEnd := by
      rw [← hend]
      simp only [List.length_append, List.length_singleton]
      omega
    generalize hflag : UInt8.ofNat (flagBits g.unused g.tokens) = flags at *
    have hrun : tokens src chunkEnd done.length 8 flags.toNat (place dst (pre ++ [flags]) (done ++ c)) =
        .ok (place dst (pre ++ [flags] ++ tokenBytes c g.tokens) (done ++ emitTokens c g.tokens)) := by
      rw [hnat]
      refine tokens_exact hdst (groupBytes (emitTokens c g.tokens) gs ++ post)
        g.size htokens (by rw [List.length_append]; omega) ?_ ?_ fun hlt => ?_
      · rw [hsrc, List.append_cons]
        simp only [List.append_assoc]
      · simp only [List.length_append, List.length_singleton]
        omega
      · obtain rfl : gs = [] := by
          by_contra hne
          have := hfull hne
          omega
        rw [← hend, groupBytes, List.append_nil]
    have hstate : place dst (pre ++ [flags]) (done ++ c) =
        { place dst pre (done ++ c) with inp := (place dst pre (done ++ c)).inp + 1 } := by
      rw [place, List.length_append]
      rfl
    have hrest : groups src chunkEnd done.length (place dst (pre ++ [flags] ++ tokenBytes c g.tokens)
        (done ++ emitTokens c g.tokens)) = .ok (place dst (pre ++ [flags] ++ tokenBytes c g.tokens ++
          groupBytes (emitTokens c g.tokens) gs) (done ++ emitGroups (emitTokens c g.tokens) gs)) := by
      refine groups_exact hdst post hgs (by rw [List.length_append]; exact hroom) ?_ ?_
      · rw [hsrc, List.append_cons]
        simp only [List.append_assoc]
      · rw [List.append_assoc]
        exact hend
    rw [groups_step (by show pre.length < chunkEnd; omega) (by rw [place, length_onto (by omega)]; exact hfit) hflags
      (hstate ▸ hrun), hrest]
    rw [groupBytes, Group.bytes, hflag]
    simp only [List.append_assoc, List.cons_append, List.nil_append]
    rfl

/-! ## Chunks -/

theorem and_high (n m k : Nat) : n &&& m * 2 ^ k = (n / 2 ^ k &&& m) * 2 ^ k := by
  refine Nat.eq_of_testBit_eq fun i => ?_
  rw [Nat.testBit_and, Nat.testBit_mul_two_pow, Nat.testBit_mul_two_pow, Nat.testBit_and, Nat.testBit_div_two_pow]
  by_cases hi : k ≤ i
  · rw [Nat.sub_add_cancel hi]
    simp [hi]
  · simp [hi]

theorem header_fields {signature x : Nat} (hx : x < 4096) : (signature * 4096 + x) &&& 0x0FFF = x ∧
    (signature * 4096 + x) &&& 0x7000 = (signature &&& 7) * 4096 ∧
    (signature * 4096 + x) &&& 0x8000 = (signature &&& 8) * 4096 := by
  have hdiv : (signature * 4096 + x) / 2 ^ 12 = signature := by omega
  refine ⟨?_, ?_, ?_⟩
  · rw [show 0x0FFF = 2 ^ 12 - 1 from rfl, Nat.and_two_pow_sub_one_eq_mod]
    omega
  · rw [show 0x7000 = 7 * 2 ^ 12 from rfl, and_high, hdiv]
    rfl
  · rw [show 0x8000 = 8 * 2 ^ 12 from rfl, and_high, hdiv]
    rfl

theorem put_onto {text data : Bytes} (h : (text ++ data).length ≤ dst.length) :
    put (onto dst text) text.length data = onto dst (text ++ data) := by
  rw [List.length_append] at h
  refine List.ext_getElem? fun i => ?_
  rw [getElem?_put]
  by_cases hlo : text.length ≤ i
  · by_cases hhi : i < text.length + data.length
    · have hin : i < (onto dst text).length := by
        rw [length_onto (by omega)]
        omega
      obtain ⟨b, hb⟩ : ∃ b, (onto dst text)[i]? = some b := ⟨_, List.getElem?_eq_getElem hin⟩
      rw [hb, Option.map_some, if_pos hlo, onto,
        List.getElem?_append_left (by rw [List.length_append]; exact hhi), List.getElem?_append_right hlo,
        List.getElem?_eq_getElem (by omega)]
      rfl
    · have hnone : data[i - text.length]? = none := List.getElem?_eq_none (by omega)
      rw [hnone, onto, onto, List.getElem?_append_right hlo,
        List.getElem?_append_right (by rw [List.length_append]; omega), List.getElem?_drop, List.getElem?_drop,
        List.length_append, Nat.add_sub_cancel' hlo, Nat.add_sub_cancel' (by omega)]
      simp
  · rw [onto, onto, List.append_assoc, List.getElem?_append_left (by omega), List.getElem?_append_left (by omega)]
    simp [hlo]

theorem chunk_exact (hdst : dst.length ≤ 2 ^ 16) {ch : Chunk} {pre post : Bytes} {header : Nat} (hvalid : ch.Valid)
    (hheader : header = ch.signature + (ch.payload.length - 1)) (hroom : (done ++ ch.output).length ≤ dst.length)
    (hsrc : src = pre ++ (ch.payload ++ post)) :
    chunk src header ch.payload.length (place dst pre done) = .ok (place dst (pre ++ ch.payload) (done ++ ch.output)) := by
  obtain ⟨hmin, hmax, hgroups⟩ := hvalid
  have hx : ch.payload.length - 1 < 4096 := by omega
  unfold chunk
  simp only
  cases ch with
  | stored data =>
    obtain ⟨-, -, hkind⟩ : _ ∧ _ ∧ (3 * 4096 + (data.length - 1)) &&& 0x8000 = (3 &&& 8) * 4096 := header_fields hx
    have hfit : done.length + data.length ≤ dst.length := by
      rw [List.length_append] at hroom
      exact hroom
    have hlength : (onto dst done).length = dst.length := length_onto (by omega)
    have hsource : slice src pre.length data.length = data := by
      rw [hsrc, ← List.append_assoc]
      exact slice_middle rfl rfl
    have hcopy : copyBytes (onto dst done) done.length src pre.length data.length = .ok (onto dst (done ++ data)) := by
      rw [copyBytes, if_pos ⟨by rw [hlength]; exact hfit, by simp only [hsrc, List.length_append, Chunk.payload]; omega⟩, hsource]
      exact congrArg Except.ok (put_onto hroom)
    rw [if_pos (by rw [hheader]; exact beq_iff_eq.2 hkind), place]
    simp only
    rw [refuse_not (by rw [hlength]; exact Nat.not_lt.2 hfit)]
    simp only [bind, Except.bind, Chunk.payload]
    rw [hcopy]
    simp only [place, Chunk.output, List.length_append]
  | packed gs =>
    obtain ⟨-, -, hkind⟩ : _ ∧ _ ∧ (11 * 4096 + ((groupBytes [] gs).length - 1)) &&& 0x8000 = (11 &&& 8) * 4096 :=
      header_fields hx
    have hrun : groups src (pre ++ groupBytes [] gs).length done.length (place dst pre (done ++ [])) =
        .ok (place dst (pre ++ groupBytes [] gs) (done ++ emitGroups [] gs)) :=
      groups_exact hdst post (hgroups gs rfl) hroom hsrc rfl
    rw [List.append_nil, List.length_append] at hrun
    rw [if_neg (by rw [hheader]; exact fun h => absurd (hkind.symm.trans (beq_iff_eq.1 h)) (by decide))]
    simp only [place] at hrun ⊢
    simp only [Chunk.payload, Chunk.output, hrun, bind, Except.bind, List.length_append]

theorem chunks_stop {st : State} (h : ¬ (st.inp + 2 ≤ src.length ∧ st.out < st.dst.length)) : chunks src st = .ok st := by
  rw [chunks, dif_neg h]

theorem chunks_step {st st' : State} (header : Nat) (hin : st.inp + 2 ≤ src.length) (hout : st.out < st.dst.length)
    (hheader : le16 src st.inp = .ok header) (hsome : header ≠ 0) (hsignature : header &&& 0x7000 = 0x3000)
    (hend : st.inp + 2 + ((header &&& 0x0FFF) + 1) ≤ src.length)
    (hchunk : chunk src header ((header &&& 0x0FFF) + 1) { st with inp := st.inp + 2 } = .ok st') :
    chunks src st = chunks src st' := by
  conv => lhs; unfold chunks
  rw [dif_pos ⟨hin, hout⟩, hheader]
  simp only [bind, Except.bind]
  rw [if_neg hsome, refuse_not (fun h => h hsignature), refuse_not (Nat.not_lt.2 hend)]
  simp only
  split
  · rename_i e hchunk'
    rw [hchunk] at hchunk'
    cases hchunk'
  · rename_i st1 hchunk'
    rw [hchunk] at hchunk'
    cases hchunk'
    rfl

/-- The end of a unit: no header any more, an empty one, or no room. -/
def Ends (dst text tail : Bytes) : Prop := tail.length < 2 ∨ tail.take 2 = [0, 0] ∨ dst.length ≤ text.length

theorem chunks_end {pre tail : Bytes} (htext : done.length ≤ dst.length) (hends : Ends dst done tail)
    (hsrc : src = pre ++ tail) :
    ∃ st, chunks src (place dst pre done) = .ok st ∧ st.out = done.length ∧ st.dst = onto dst done := by
  by_cases hrun : pre.length + 2 ≤ src.length ∧ done.length < (onto dst done).length
  · have htail : tail.take 2 = [0, 0] := by
      rw [hsrc, List.length_append, length_onto htext] at hrun
      rcases hends with h | h | h
      · omega
      · exact h
      · omega
    have hzero : le16 src pre.length = .ok 0 := by
      rw [le16_ok hrun.1, getLe, slice, hsrc, List.drop_left, htail]
      rfl
    refine ⟨{ place dst pre done with inp := pre.length + 2 }, ?_, rfl, rfl⟩
    rw [chunks, dif_pos (by exact hrun)]
    show (le16 src pre.length >>= _) = _
    rw [hzero]
    rfl
  · exact ⟨place dst pre done, chunks_stop hrun, rfl, rfl⟩

theorem Chunk.output_ne_nil {ch : Chunk} (h : ch.Valid) : 0 < ch.output.length := by
  obtain ⟨hmin, -, hgroups⟩ := h
  cases ch with
  | stored data => exact hmin
  | packed gs =>
    have hlength : 0 + gs.length ≤ (emitGroups [] gs).length := length_emitGroups (hgroups gs rfl)
    have hsome : gs ≠ [] := fun hnil => by
      rw [hnil] at hmin
      exact absurd hmin (by decide)
    have := List.length_pos_iff.2 hsome
    rw [Chunk.output]
    omega

/-- **What an encoder writes is read back.** -/
theorem chunks_exact (hdst : dst.length ≤ 2 ^ 16) {tail : Bytes} : ∀ {cs : List Chunk} {pre done : Bytes},
    (∀ ch ∈ cs, ch.Valid) → (done ++ decoded cs).length ≤ dst.length → Ends dst (done ++ decoded cs) tail →
    src = pre ++ (encode cs ++ tail) → ∃ st, chunks src (place dst pre done) = .ok st ∧
      st.out = (done ++ decoded cs).length ∧ st.dst = onto dst (done ++ decoded cs)
  | [], pre, done, _, hroom, hends, hsrc => by
    rw [decoded, List.flatMap_nil, List.append_nil] at *
    exact chunks_end hroom hends hsrc
  | ch :: cs, pre, done, hvalid, hroom, hends, hsrc => by
    have hch := hvalid ch List.mem_cons_self
    have hsome := Chunk.output_ne_nil hch
    obtain ⟨hmin, hmax, -⟩ := hch
    have hx : ch.payload.length - 1 < 4096 := by omega
    rw [decoded, List.flatMap_cons, ← List.append_assoc] at hroom hends ⊢
    rw [encode, List.flatMap_cons, Chunk.bytes] at hsrc
    have hfit : (done ++ ch.output).length ≤ dst.length := by
      rw [List.length_append] at hroom
      omega
    obtain ⟨sig, hsig, hkind, hsmall⟩ : ∃ sig, ch.signature = sig * 4096 ∧ sig &&& 7 = 3 ∧ sig < 16 := by
      cases ch with
      | stored data => exact ⟨3, rfl, rfl, by decide⟩
      | packed gs => exact ⟨11, rfl, rfl, by decide⟩
    obtain ⟨hlow, hmid, -⟩ : (sig * 4096 + (ch.payload.length - 1)) &&& 0x0FFF = ch.payload.length - 1 ∧
        (sig * 4096 + (ch.payload.length - 1)) &&& 0x7000 = (sig &&& 7) * 4096 ∧ _ := header_fields hx
    have hzero : sig ≠ 0 := fun h => by
      rw [h] at hkind
      exact absurd hkind (by decide)
    have hlength : (ch.payload.length - 1) + 1 = ch.payload.length := by omega
    have hsrc' : src = (pre ++ leBytes 2 (ch.signature + (ch.payload.length - 1))) ++
        (ch.payload ++ (encode cs ++ tail)) := by
      rw [hsrc, encode]
      simp only [List.append_assoc]
    have hstep : chunks src (place dst pre done) =
        chunks src (place dst (pre ++ leBytes 2 (ch.signature + (ch.payload.length - 1)) ++ ch.payload)
        (done ++ ch.output)) := by
      have hin : pre.length + 2 + ch.payload.length ≤ src.length := by
        rw [hsrc']
        simp only [List.length_append, length_leBytes]
        omega
      refine chunks_step (sig * 4096 + (ch.payload.length - 1)) (by show pre.length + 2 ≤ src.length; omega) ?_ ?_
        (by omega) (by rw [hmid, hkind]) (by rw [hlow, hlength]; exact hin) ?_
      · show done.length < (onto dst done).length
        rw [List.length_append] at hfit
        rw [length_onto (by omega)]
        omega
      · rw [hsrc', hsig, List.append_assoc]
        exact le16_append pre _ (by omega)
      · have hrun := chunk_exact hdst (hvalid ch List.mem_cons_self) rfl hfit hsrc'
        rw [hlow, hlength, ← hsig, ← hrun]
        simp only [place, List.length_append, length_leBytes]
    obtain ⟨st, hst⟩ := chunks_exact hdst (fun ch' h => hvalid ch' (List.mem_cons_of_mem _ h)) hroom hends
      (hsrc'.trans (by rw [List.append_assoc, List.append_assoc, List.append_assoc]))
    exact ⟨st, hstep.trans hst.1, hst.2⟩

end Exact

/-- **The read side of a compression unit**: whatever the source holds, the decoder ends inside of both texts, and what an
encoder wrote it reads back. -/
theorem lznt1Decompress_safe (src dst : Bytes) (hdst : dst.length ≤ 65536) : Checked.Settled (lznt1Decompress src dst) ∧
    (∀ n dst', lznt1Decompress src dst = .ok (n, dst') → n ≤ dst.length ∧ dst'.length = dst.length) ∧
    ∀ cs tail, (∀ ch ∈ cs, ch.Valid) → src = encode cs ++ tail → (decoded cs).length ≤ dst.length →
      Ends dst (decoded cs) tail → lznt1Decompress src dst = .ok ((decoded cs).length, onto dst (decoded cs)) := by
  obtain ⟨hsettled, hbound⟩ : Checked.Settled (lznt1Decompress src dst) ∧ ∀ n dst', lznt1Decompress src dst = .ok (n, dst') →
      n ≤ dst.length ∧ dst'.length = dst.length := lznt1Decompress_settled hdst
  refine ⟨hsettled, hbound, fun cs tail hvalid hsrc hroom hends => ?_⟩
  obtain ⟨st, hst, hout, hdone⟩ : ∃ st, chunks src (place dst [] []) = .ok st ∧ st.out = ([] ++ decoded cs).length ∧
      st.dst = onto dst ([] ++ decoded cs) := chunks_exact hdst hvalid hroom hends hsrc
  show (chunks src (place dst [] []) >>= _) = _
  rw [hst]
  show Except.ok (st.out, st.dst) = _
  rw [hout, hdone, List.nil_append]

/-- One byte, and a back reference that reads what it writes. -/
def overlapping : Chunk :=
  .packed [{ tokens := [.literal 97, .reference 1 3], unused := 0, some := nofun, size := by decide, byte := by decide }]

theorem overlapping_valid : overlapping.Valid := by
  have hbits : displacementBits 1 = 4 := by
    rw [displacementBits, Nat.clog_one_right]
    rfl
  have hpayload : overlapping.payload.length = 4 := rfl
  refine ⟨by omega, by omega, fun gs hgs => ?_⟩
  obtain rfl := Chunk.packed.inj hgs
  refine ⟨⟨trivial, ⟨Nat.le_refl 1, Nat.le_refl 1, Nat.le_refl 3, ?_⟩, trivial⟩, fun h => absurd rfl h, trivial⟩
  show 3 < 2 ^ (16 - displacementBits 1) + 3
  rw [hbits]
  decide

theorem lznt1Decompress_safe_overlapping :
    lznt1Decompress (encode [overlapping] ++ []) (zeros 4) = .ok (4, [97, 97, 97, 97]) :=
  (lznt1Decompress_safe (encode [overlapping] ++ []) (zeros 4) (by decide)).2.2 [overlapping] []
    (fun _ h => List.mem_singleton.1 h ▸ overlapping_valid) rfl (by decide) (.inl (by decide))

end Lznt1
end R4
