import R4Recovery.UploadClaim
/-!
# UploadClaimText — what a claim's text survives

The format escapes nothing, and `nameValid` and `parentValid` let a newline pass.  A valid claim is read back, and no torn
write of it is taken for a claim, exactly when its four texts hold no newline.
-/
namespace R4
namespace Upload

open Journal (refuse)

/-- The claim is written, its text is read back as it, and no cut of the text is read as any claim. -/
def Durable (c : Claim) : Prop :=
  ∃ text, serialize c = some text ∧ parse text = some c ∧ ∀ cut, cut <+: text → cut ≠ text → parse cut = none

/-! ## The buffer is large enough -/

theorem length_line (key value : Bytes) : (line key value ++ [10]).length = key.length + value.length + 2 := by
  simp only [line, List.length_append, List.length_cons, List.length_nil]
  omega

theorem length_protocol (p : Protocol) : p.text.length ≤ 7 := by cases p <;> decide

theorem claimText_length {c : Claim} (h : claimValid c = true) : (claimText c).length ≤ claimMax := by
  obtain ⟨hp, hs, ht, hb⟩ := claimValid_length h
  have hlong : ∀ n : UInt64, (decimal n.toNat).length ≤ 20 := fun n =>
    length_decimal (by decide) (Nat.lt_trans n.toNat_lt (by decide))
  have hshort : (decimal c.identity.generation.toNat).length ≤ 5 :=
    length_decimal (by decide) (Nat.lt_trans c.identity.generation.toNat_lt (by decide))
  have hsum : (decimal (checksum (bodyText c)).toNat).length ≤ 10 :=
    length_decimal (by decide) (Nat.lt_trans (checksum (bodyText c)).toNat_lt (by decide))
  have hgeneration := hlong c.generation
  have hvolume := hlong c.volume
  have hnode := hlong c.identity.node
  have hsize := hlong c.identity.size
  have hprotocol := length_protocol c.protocol
  have hmagic : claimMagic.length = 11 := by decide
  have hkeys : ["magic", "generation", "volume", "parent", "stage", "target", "backup", "node", "nodegen", "size",
      "protocol",
      "checksum"].map (fun key => (ascii key).length) = [5, 10, 6, 6, 5, 6, 6, 4, 7, 4, 8, 8] := by decide
  simp only [List.map_cons, List.map_nil, List.cons.injEq, and_true] at hkeys
  obtain ⟨k1, k2, k3, k4, k5, k6, k7, k8, k9, k10, k11, k12⟩ := hkeys
  have htext : (claimText c).length = (line (ascii "magic") claimMagic ++ [10]).length +
      ((line (ascii "generation") (decimal c.generation.toNat) ++ [10]).length +
      ((line (ascii "volume") (decimal c.volume.toNat) ++ [10]).length + ((line (ascii "parent") c.parent ++ [10]).length +
      ((line (ascii "stage") c.stage ++ [10]).length + ((line (ascii "target") c.target ++ [10]).length +
      ((line (ascii "backup") c.backup ++ [10]).length +
      ((line (ascii "node") (decimal c.identity.node.toNat) ++ [10]).length +
      ((line (ascii "nodegen") (decimal c.identity.generation.toNat) ++ [10]).length +
      ((line (ascii "size") (decimal c.identity.size.toNat) ++ [10]).length +
      ((line (ascii "protocol") c.protocol.text ++ [10]).length +
      (line (ascii "checksum") (decimal (checksum (bodyText c)).toNat) ++ [10]).length)))))))))) := by
    simp only [claimText, bodyText, bodyFields, List.flatMap_cons, List.flatMap_nil, List.length_append, List.append_nil]
    omega
  rw [htext]
  simp only [length_line, k1, k2, k3, k4, k5, k6, k7, k8, k9, k10, k11, k12, hmagic]
  have hmaxPath : maxPath = 1024 := rfl
  have hmaxName : maxName = 768 := rfl
  have hclaimMax : claimMax = 4096 := rfl
  omega

theorem serialize_valid {c : Claim} (h : claimValid c = true) : serialize c = some (claimText c) := by
  unfold serialize
  rw [h, if_neg (by decide), if_pos (claimText_length h)]

/-! ## The lines of a text that is read -/

theorem nextLine_eq : ∀ {data l rest : Bytes}, nextLine data = some (l, rest) → data = l ++ 10 :: rest ∧ (10 : UInt8) ∉ l
  | [], l, rest, h => by cases h
  | c :: data, l, rest, h => by
    unfold nextLine at h
    split at h
    · rename_i hc
      cases h
      exact ⟨by rw [hc]; rfl, List.not_mem_nil⟩
    · rename_i hc
      obtain ⟨⟨l', rest'⟩, hn, heq⟩ := Option.map_eq_some_iff.1 h
      cases heq
      obtain ⟨hd, hl⟩ := nextLine_eq hn
      refine ⟨by rw [hd]; rfl, fun hm => ?_⟩
      rcases List.mem_cons.1 hm with hm | hm
      · exact hc hm.symm
      · exact hl hm

theorem textField_eq {key : String} {data value rest : Bytes} (h : textField key data = some (value, rest)) :
    data.count 10 = rest.count 10 + 1 ∧ (10 : UInt8) ∉ value := by
  unfold textField at h
  split at h
  · cases h
  · rename_i l rest' hn
    obtain ⟨v, hs, heq⟩ := Option.map_eq_some_iff.1 h
    cases heq
    obtain ⟨hd, hl⟩ := nextLine_eq hn
    constructor
    · rw [hd, List.count_append, List.count_cons_self, List.count_eq_zero_of_not_mem hl, Nat.zero_add]
    · unfold splitField at hs
      split at hs
      · cases hs
        exact fun hm => hl (List.mem_of_mem_drop hm)
      · cases hs

theorem numberField_eq {key : String} {data rest : Bytes} {n : Nat} (h : numberField key data = some (n, rest)) :
    data.count 10 = rest.count 10 + 1 := by
  unfold numberField at h
  split at h
  · cases h
  · rename_i value rest' ht
    obtain ⟨m, _, heq⟩ := Option.map_eq_some_iff.1 h
    cases heq
    exact (textField_eq ht).1

theorem boundedField_eq {key : String} {cap : Nat} {data value rest : Bytes}
    (h : boundedField key cap data = some (value, rest)) : data.count 10 = rest.count 10 + 1 ∧ (10 : UInt8) ∉ value := by
  unfold boundedField at h
  split at h
  · cases h
  · rename_i value' rest' ht
    obtain ⟨v, hv, heq⟩ := Option.map_eq_some_iff.1 h
    cases heq
    unfold setField at hv
    split at hv
    · cases hv
    · cases hv
      exact textField_eq ht

theorem refuse_eq {bad : Bool} {u : Unit} (h : refuse bad = some u) : bad = false := by
  cases bad
  · rfl
  · cases h

/-- **A text that is read has twelve newlines, and the claim it is read as has none.** -/
theorem parse_newlines {data : Bytes} {c : Claim} (h : parse data = some c) : data.count 10 = 12 ∧ c.plain = true := by
  unfold parse at h
  obtain ⟨_, _, h⟩ := Option.bind_eq_some_iff.1 h
  obtain ⟨⟨magic, r1⟩, hmagic, h⟩ := Option.bind_eq_some_iff.1 h
  obtain ⟨_, _, h⟩ := Option.bind_eq_some_iff.1 h
  obtain ⟨⟨generation, r2⟩, hgeneration, h⟩ := Option.bind_eq_some_iff.1 h
  obtain ⟨⟨volume, r3⟩, hvolume, h⟩ := Option.bind_eq_some_iff.1 h
  obtain ⟨⟨parent, r4⟩, hparent, h⟩ := Option.bind_eq_some_iff.1 h
  obtain ⟨⟨stage, r5⟩, hstage, h⟩ := Option.bind_eq_some_iff.1 h
  obtain ⟨⟨target, r6⟩, htarget, h⟩ := Option.bind_eq_some_iff.1 h
  obtain ⟨⟨backup, r7⟩, hbackup, h⟩ := Option.bind_eq_some_iff.1 h
  obtain ⟨⟨node, r8⟩, hnode, h⟩ := Option.bind_eq_some_iff.1 h
  obtain ⟨⟨nodegen, r9⟩, hnodegen, h⟩ := Option.bind_eq_some_iff.1 h
  obtain ⟨_, _, h⟩ := Option.bind_eq_some_iff.1 h
  obtain ⟨⟨size, r10⟩, hsize, h⟩ := Option.bind_eq_some_iff.1 h
  obtain ⟨⟨protocol, r11⟩, hprotocol, h⟩ := Option.bind_eq_some_iff.1 h
  obtain ⟨_, _, h⟩ := Option.bind_eq_some_iff.1 h
  obtain ⟨⟨want, r12⟩, hwant, h⟩ := Option.bind_eq_some_iff.1 h
  obtain ⟨_, _, h⟩ := Option.bind_eq_some_iff.1 h
  obtain ⟨_, _, h⟩ := Option.bind_eq_some_iff.1 h
  obtain ⟨_, hend, h⟩ := Option.bind_eq_some_iff.1 h
  obtain ⟨_, _, h⟩ := Option.bind_eq_some_iff.1 h
  have hr : r12 = [] := by simpa using refuse_eq hend
  obtain ⟨cparent, hp⟩ := boundedField_eq hparent
  obtain ⟨cstage, hs⟩ := boundedField_eq hstage
  obtain ⟨ctarget, ht⟩ := boundedField_eq htarget
  obtain ⟨cbackup, hb⟩ := boundedField_eq hbackup
  cases h
  constructor
  · have cnone : r12.count 10 = 0 := by rw [hr]; rfl
    have := (textField_eq hmagic).1
    have := (textField_eq hprotocol).1
    have := numberField_eq hgeneration
    have := numberField_eq hvolume
    have := numberField_eq hnode
    have := numberField_eq hnodegen
    have := numberField_eq hsize
    have := numberField_eq hwant
    omega
  · simp only [Claim.plain, List.all_cons, List.all_nil, Bool.and_true, Bool.and_eq_true, Bool.not_eq_true',
      List.contains_eq_mem, decide_eq_false_iff_not]
    exact ⟨hp, hs, ht, hb⟩

/-! ## A torn write -/

theorem claimText_snoc (c : Claim) : ∃ front, claimText c = front ++ [10] :=
  ⟨bodyText c ++ line (ascii "checksum") (decimal (checksum (bodyText c)).toNat), by
    unfold claimText
    rw [List.append_assoc]⟩

theorem parse_cut {c c' : Claim} (h : parse (claimText c) = some c') {cut : Bytes} (hp : cut <+: claimText c)
    (hne : cut ≠ claimText c) : parse cut = none := by
  obtain ⟨tail, htail⟩ := hp
  obtain ⟨front, hfront⟩ := claimText_snoc c
  have hlast : (10 : UInt8) ∈ tail := by
    rcases List.eq_nil_or_concat tail with rfl | ⟨most, last, rfl⟩
    · exact absurd (by rw [← htail, List.append_nil]) hne
    · have heq : (cut ++ most) ++ [last] = front ++ [10] := by
        rw [← hfront, ← htail, List.append_assoc, List.concat_eq_append]
      rw [List.concat_eq_append, (List.append_inj_right' heq rfl)]
      exact List.mem_append_right _ List.mem_cons_self
  cases hcut : parse cut with
  | none => rfl
  | some d =>
    have hwhole := (parse_newlines h).1
    have hpart := (parse_newlines hcut).1
    rw [← htail, List.count_append] at hwhole
    have := List.count_pos_iff.2 hlast
    omega

/-- **A valid claim survives its text exactly when no newline is in its texts.** -/
theorem durable_iff {c : Claim} (h : claimValid c = true) : Durable c ↔ c.plain = true := by
  constructor
  · rintro ⟨text, _, hparse, _⟩
    exact (parse_newlines hparse).2
  · intro hp
    have hparse := parse_serialize (serialize_valid h) hp
    exact ⟨claimText c, serialize_valid h, hparse, fun cut hcut hne => parse_cut hparse hcut hne⟩

def sampleClaim : Claim where
  generation := 7
  volume := 0x1234
  parent := ascii "C:\\R4OS\\UPDATE\\INBOX"
  stage := ascii "UPLOAD.STG"
  target := ascii "PACKAGE.R4U"
  backup := ascii "PACKAGE.BAK"
  identity := { node := 42, generation := 3, size := 8388608 }

theorem sampleClaim_durable : claimValid sampleClaim = true ∧ Durable sampleClaim :=
  ⟨by decide +kernel, (durable_iff (by decide +kernel)).2 (by decide +kernel)⟩

theorem newline_lost : ¬ ∀ c : Claim, claimValid c = true → ∃ text, serialize c = some text ∧ parse text = some c ∧
    ∀ cut, cut <+: text → cut ≠ text → parse cut = none := by
  intro h
  obtain ⟨text, hs, hp, _⟩ := h { sampleClaim with stage := ascii "UP\nLOAD.STG" } (by decide +kernel)
  have hnone : (serialize { sampleClaim with stage := ascii "UP\nLOAD.STG" }).bind parse = none := by decide +kernel
  rw [hs, Option.bind_some, hp] at hnone
  cases hnone

end Upload
end R4
