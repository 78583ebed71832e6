import R4Recovery.JournalText
/-!
# UploadClaim — the durable record of an upload

`upload_publish_claim.zig`: a claim names the volume, the parent, the three names and the identity of a staged upload.  It
is a text of twelve lines, the last of them a checksum.  `replayClaim` drives one claim to its end over the answers of a
file system.
-/
namespace R4
namespace Upload

open Journal (refuse)

def claimMagic : Bytes := ascii "R4U_CLAIM=1"
def maxPath : Nat := 1024
def maxName : Nat := 768
def maxClaims : Nat := 16
def claimMax : Nat := 4096

inductive Protocol where
  | sftp | scp | ftp | storage
  deriving DecidableEq, Repr

def Protocol.text : Protocol → Bytes
  | .sftp => ascii "sftp"
  | .scp => ascii "scp"
  | .ftp => ascii "ftp"
  | .storage => ascii "storage"

def Protocol.parse (value : Bytes) : Option Protocol :=
  [Protocol.sftp, .scp, .ftp, .storage].find? (fun p => value == p.text)

/-- Record and sequence on NTFS; first cluster and size on FAT. -/
structure FileIdentity where
  node : UInt64 := 0
  generation : UInt16 := 0
  size : UInt64 := 0
  deriving DecidableEq, Repr

structure Claim where
  generation : UInt64 := 0
  volume : UInt64 := 0
  parent : Bytes := []
  stage : Bytes := []
  target : Bytes := []
  backup : Bytes := []
  identity : FileIdentity := {}
  protocol : Protocol := .sftp
  deriving DecidableEq, Repr

/-! ## Validity -/

/-- One path component: no separator, colon or zero byte, and no dots alone.  A newline passes. -/
def nameValid (value : Bytes) : Bool :=
  value.length != 0 && decide (value.length ≤ maxName) && value != ascii "." && value != ascii ".." &&
    value.all (fun c => c != 92 && c != 47 && c != 58 && c != 0)

def parentValid (value : Bytes) : Bool :=
  value.length != 0 && decide (value.length ≤ maxPath) && decide (3 ≤ value.length) && value[1]? == some 58 &&
    value[2]? == some 92 && !value.tails.any (fun tail => startsWith tail (ascii "..")) && value.all (fun c => c != 0 && c != 47)

def toLower (c : UInt8) : UInt8 := if 65 ≤ c ∧ c ≤ 90 then c + 32 else c

def eqlIgnoreAsciiCase (a b : Bytes) : Bool := a.map toLower == b.map toLower

def claimValid (c : Claim) : Bool :=
  c.generation != 0 && parentValid c.parent && nameValid c.stage && nameValid c.target &&
    (c.backup.isEmpty || nameValid c.backup) && !eqlIgnoreAsciiCase c.stage c.target &&
    (c.backup.isEmpty || (!eqlIgnoreAsciiCase c.backup c.stage && !eqlIgnoreAsciiCase c.backup c.target))

/-- `setField` of a field with room for `cap` bytes. -/
def setField (cap : Nat) (value : Bytes) : Option Bytes := if cap < value.length then none else some value

/-- What a caller wants to publish. -/
structure Publish where
  volume : UInt64
  parent : Bytes
  stage : Bytes
  target : Bytes
  backup : Bytes
  identity : FileIdentity
  protocol : Protocol
  deriving DecidableEq, Repr

def build (generation : UInt64) (p : Publish) : Option Claim := do
  let parent ← setField maxPath p.parent
  let stage ← setField maxName p.stage
  let target ← setField maxName p.target
  let backup ← setField maxName p.backup
  let c : Claim := { generation, volume := p.volume, parent, stage, target, backup, identity := p.identity, protocol := p.protocol }
  refuse (!claimValid c)
  pure c

/-! ## The text -/

def checksum (data : Bytes) : UInt32 := Journal.checksum data

def line (key value : Bytes) : Bytes := key ++ 61 :: value

/-- The lines before the checksum, as keys and values. -/
def bodyFields (c : Claim) : List (Bytes × Bytes) :=
  [ (ascii "magic", claimMagic),
    (ascii "generation", decimal c.generation.toNat),
    (ascii "volume", decimal c.volume.toNat),
    (ascii "parent", c.parent),
    (ascii "stage", c.stage),
    (ascii "target", c.target),
    (ascii "backup", c.backup),
    (ascii "node", decimal c.identity.node.toNat),
    (ascii "nodegen", decimal c.identity.generation.toNat),
    (ascii "size", decimal c.identity.size.toNat),
    (ascii "protocol", c.protocol.text) ]

def bodyText (c : Claim) : Bytes := (bodyFields c).flatMap (fun f => line f.1 f.2 ++ [10])

def claimText (c : Claim) : Bytes :=
  bodyText c ++ (line (ascii "checksum") (decimal (checksum (bodyText c)).toNat) ++ [10])

/-- Each append fails exactly when the text would outgrow the buffer. -/
def serialize (c : Claim) : Option Bytes :=
  if !claimValid c then none else if (claimText c).length ≤ claimMax then some (claimText c) else none

/-- The next line and what follows its newline; an unterminated tail is none. -/
def nextLine : Bytes → Option (Bytes × Bytes)
  | [] => none
  | c :: rest => if c = 10 then some ([], rest) else (nextLine rest).map (fun p => (c :: p.1, p.2))

def splitField (line : Bytes) (key : String) : Option Bytes :=
  if startsWith line (ascii key ++ [61]) then some (line.drop (ascii key ++ [61]).length) else none

/-- The value of the next line, which must have this key, and what follows. -/
def textField (key : String) (data : Bytes) : Option (Bytes × Bytes) :=
  match nextLine data with
  | none => none
  | some (line, rest) => (splitField line key).map (fun value => (value, rest))

def parseNumber (value : Bytes) : Option Nat :=
  if value = [] ∨ 20 < value.length then none else parseDigits value 0

def numberField (key : String) (data : Bytes) : Option (Nat × Bytes) :=
  match textField key data with
  | none => none
  | some (value, rest) => (parseNumber value).map (fun n => (n, rest))

def boundedField (key : String) (cap : Nat) (data : Bytes) : Option (Bytes × Bytes) :=
  match textField key data with
  | none => none
  | some (value, rest) => (setField cap value).map (fun value => (value, rest))

def parse (data : Bytes) : Option Claim := do
  refuse (decide (claimMax < data.length))
  let (magic, rest) ← textField "magic" data
  refuse (magic != claimMagic)
  let (generation, rest) ← numberField "generation" rest
  let (volume, rest) ← numberField "volume" rest
  let (parent, rest) ← boundedField "parent" maxPath rest
  let (stage, rest) ← boundedField "stage" maxName rest
  let (target, rest) ← boundedField "target" maxName rest
  let (backup, rest) ← boundedField "backup" maxName rest
  let (node, rest) ← numberField "node" rest
  let (nodegen, rest) ← numberField "nodegen" rest
  refuse (decide (2 ^ 16 ≤ nodegen))
  let (size, rest) ← numberField "size" rest
  let (protocol, rest) ← textField "protocol" rest
  let protocol ← Protocol.parse protocol
  let body := data.take (data.length - rest.length)
  let (want, rest) ← numberField "checksum" rest
  refuse (decide (2 ^ 32 ≤ want))
  refuse (checksum body != want.toUInt32)
  refuse (!rest.isEmpty)
  let c : Claim :=
    { generation := generation.toUInt64, volume := volume.toUInt64, parent, stage, target, backup
      identity := { node := node.toUInt64, generation := nodegen.toUInt16, size := size.toUInt64 }, protocol }
  refuse (!claimValid c)
  pure c

/-! ## Replay -/

inductive ObservedState where
  | stageOnly | halfPublished | alias_ | targetOnly | missing | foreign | io
  deriving DecidableEq, Repr

inductive ReplayStatus where
  | published | rolledBack | retired | foreign | invalid | io
  deriving DecidableEq, Repr

/-- The file system under a replay. -/
structure ReplayIo (σ : Type) where
  observe : Claim → σ → ObservedState
  publish : Claim → σ → Bool × σ
  discardStage : Claim → σ → Bool × σ
  retire : Claim → σ → Bool × σ

section Replay

variable {σ : Type}

/-- The record is retired; a failure keeps it. -/
def retired (io : ReplayIo σ) (c : Claim) (status : ReplayStatus) (s : σ) : ReplayStatus × σ :=
  match io.retire c s with
  | (true, s) => (status, s)
  | (false, s) => (.io, s)

def replayClaim (io : ReplayIo σ) (c : Claim) (s : σ) : ReplayStatus × σ :=
  if !claimValid c then (.invalid, s)
  else match io.observe c s with
    | .io => (.io, s)
    | .stageOnly =>
      match io.discardStage c s with
      | (true, s) => retired io c .rolledBack s
      | (false, s) => (.io, s)
    | .halfPublished | .alias_ =>
      match io.publish c s with
      | (true, s) => retired io c .published s
      | (false, s) => (.io, s)
    | .targetOnly => retired io c .published s
    | .missing => retired io c .retired s
    | .foreign => retired io c .foreign s

end Replay

/-! ## The round trip -/

theorem bind_of {α β : Type} {x : Option α} {f : α → Option β} {a : α} {r : Option β} (h : x = some a) (hr : f a = r) :
    (x >>= f) = r := by
  rw [h]
  exact hr

theorem refuse_of {bad : Bool} (h : bad = false) : refuse bad = some () := by rw [h]; rfl

/-- No text of the claim holds a newline. -/
def Claim.plain (c : Claim) : Bool := [c.parent, c.stage, c.target, c.backup].all (fun text => !text.contains 10)

theorem nextLine_append : ∀ {l rest : Bytes}, (10 : UInt8) ∉ l → nextLine (l ++ 10 :: rest) = some (l, rest)
  | [], rest, _ => rfl
  | c :: l, rest, h => by
    have hc : c ≠ 10 := fun hc => h (hc ▸ List.mem_cons_self)
    show (if c = 10 then _ else (nextLine (l ++ 10 :: rest)).map _) = _
    rw [if_neg hc, nextLine_append (fun hm => h (List.mem_cons_of_mem _ hm))]
    rfl

theorem textField_line {key : String} {value rest : Bytes} (hk : (10 : UInt8) ∉ ascii key) (hv : (10 : UInt8) ∉ value) :
    textField key (line (ascii key) value ++ [10] ++ rest) = some (value, rest) := by
  unfold textField
  have hl : (10 : UInt8) ∉ line (ascii key) value := by
    unfold line
    intro hm
    rcases List.mem_append.1 hm with hm | hm
    · exact hk hm
    · rcases List.mem_cons.1 hm with hm | hm
      · cases hm
      · exact hv hm
  rw [List.append_assoc, List.singleton_append, nextLine_append hl]
  have hline : line (ascii key) value = (ascii key ++ [61]) ++ value := by
    unfold line
    rw [List.append_assoc, List.singleton_append]
  simp only [splitField, hline, startsWith_append, if_true, List.drop_left, Option.map_some]

theorem parseNumber_decimal {n : Nat} (h : n < 2 ^ 64) : parseNumber (decimal n) = some n := by
  have hlen : (decimal n).length ≤ 20 := length_decimal (by decide) (Nat.lt_trans h (by decide))
  unfold parseNumber
  rw [if_neg (by rw [not_or]; exact ⟨decimal_ne_nil n, by omega⟩), parseDigits_decimal h]

theorem newline_decimal (n : Nat) : (10 : UInt8) ∉ decimal n := fun hm => (by
  have := decimal_digits n 10 hm
  cases this)

theorem numberField_line {key : String} {n : Nat} {rest : Bytes} (hk : (10 : UInt8) ∉ ascii key) (hn : n < 2 ^ 64) :
    numberField key (line (ascii key) (decimal n) ++ [10] ++ rest) = some (n, rest) := by
  unfold numberField
  rw [textField_line hk (newline_decimal n)]
  simp only [parseNumber_decimal hn, Option.map_some]

theorem boundedField_line {key : String} {cap : Nat} {value rest : Bytes} (hk : (10 : UInt8) ∉ ascii key)
    (hv : (10 : UInt8) ∉ value) (hc : value.length ≤ cap) :
    boundedField key cap (line (ascii key) value ++ [10] ++ rest) = some (value, rest) := by
  unfold boundedField
  rw [textField_line hk hv]
  simp only [setField, if_neg (Nat.not_lt.2 hc), Option.map_some]

theorem newline_protocol (p : Protocol) : (10 : UInt8) ∉ p.text := by cases p <;> decide

theorem parse_protocol (p : Protocol) : Protocol.parse p.text = some p := by cases p <;> decide

theorem nameValid_length {value : Bytes} (h : nameValid value = true) : value.length ≤ maxName := by
  simp only [nameValid, Bool.and_eq_true, decide_eq_true_eq] at h
  exact h.1.1.1.2

theorem claimValid_length {c : Claim} (h : claimValid c = true) : c.parent.length ≤ maxPath ∧ c.stage.length ≤ maxName ∧
    c.target.length ≤ maxName ∧ c.backup.length ≤ maxName := by
  simp only [claimValid, Bool.and_eq_true, Bool.or_eq_true] at h
  obtain ⟨⟨⟨⟨⟨⟨_, hp⟩, hs⟩, ht⟩, hb⟩, _⟩, _⟩ := h
  refine ⟨?_, nameValid_length hs, nameValid_length ht, ?_⟩
  · simp only [parentValid, Bool.and_eq_true, decide_eq_true_eq] at hp
    exact hp.1.1.1.1.1.2
  · rcases hb with hb | hb
    · rw [List.isEmpty_iff.1 hb]
      exact Nat.zero_le _
    · exact nameValid_length hb

/-- **A claim whose texts hold no newline is read back as it was written.** -/
theorem parse_serialize {c : Claim} {text : Bytes} (h : serialize c = some text) (hp : c.plain = true) : parse text = some c := by
  unfold serialize at h
  by_cases hv : claimValid c = true
  · rw [hv, if_neg (by decide)] at h
    split at h
    · rename_i hlen
      cases h
      simp only [Claim.plain, List.all_cons, List.all_nil, Bool.and_true, Bool.and_eq_true, Bool.not_eq_true',
        List.contains_eq_mem, decide_eq_false_iff_not] at hp
      obtain ⟨hparent, hstage, htarget, hbackup⟩ := hp
      obtain ⟨lp, ls, lt, lb⟩ := claimValid_length hv
      have hbody : (claimText c).take ((claimText c).length -
          (line (ascii "checksum") (decimal (checksum (bodyText c)).toNat) ++ [10]).length) = bodyText c := by
        unfold claimText
        rw [List.length_append, Nat.add_sub_cancel, List.take_left]
      have htext : claimText c = line (ascii "magic") claimMagic ++ [10] ++
          (line (ascii "generation") (decimal c.generation.toNat) ++ [10] ++
          (line (ascii "volume") (decimal c.volume.toNat) ++ [10] ++ (line (ascii "parent") c.parent ++ [10] ++
          (line (ascii "stage") c.stage ++ [10] ++ (line (ascii "target") c.target ++ [10] ++
          (line (ascii "backup") c.backup ++ [10] ++ (line (ascii "node") (decimal c.identity.node.toNat) ++ [10] ++
          (line (ascii "nodegen") (decimal c.identity.generation.toNat) ++ [10] ++
          (line (ascii "size") (decimal c.identity.size.toNat) ++ [10] ++ (line (ascii "protocol") c.protocol.text ++ [10] ++
          (line (ascii "checksum") (decimal (checksum (bodyText c)).toNat) ++ [10]))))))))))) := by
        simp only [claimText, bodyText, bodyFields, List.flatMap_cons, List.flatMap_nil, List.append_assoc, List.append_nil]
      have hmagic := congrArg (textField "magic") htext
      rw [textField_line (by decide) (by decide)] at hmagic
      have hend : numberField "checksum" (line (ascii "checksum") (decimal (checksum (bodyText c)).toNat) ++ [10]) =
          some ((checksum (bodyText c)).toNat, []) := by
        have : numberField "checksum" (line (ascii "checksum") (decimal (checksum (bodyText c)).toNat) ++ [10] ++ []) = _ :=
          numberField_line (by decide) (Nat.lt_trans (checksum (bodyText c)).toNat_lt (by decide))
        rwa [List.append_nil] at this
      unfold parse
      refine bind_of (refuse_of (decide_eq_false (Nat.not_lt.2 hlen))) ?_
      refine bind_of hmagic ?_
      refine bind_of (refuse_of (bne_self_eq_false _)) ?_
      refine bind_of (numberField_line (by decide) c.generation.toNat_lt) ?_
      refine bind_of (numberField_line (by decide) c.volume.toNat_lt) ?_
      refine bind_of (boundedField_line (by decide) hparent lp) ?_
      refine bind_of (boundedField_line (by decide) hstage ls) ?_
      refine bind_of (boundedField_line (by decide) htarget lt) ?_
      refine bind_of (boundedField_line (by decide) hbackup lb) ?_
      refine bind_of (numberField_line (by decide) c.identity.node.toNat_lt) ?_
      refine bind_of (numberField_line (by decide) (Nat.lt_trans c.identity.generation.toNat_lt (by decide))) ?_
      refine bind_of (refuse_of (decide_eq_false (Nat.not_le.2 c.identity.generation.toNat_lt))) ?_
      refine bind_of (numberField_line (by decide) c.identity.size.toNat_lt) ?_
      refine bind_of (textField_line (by decide) (newline_protocol _)) ?_
      refine bind_of (parse_protocol _) ?_
      refine bind_of hend ?_
      refine bind_of (refuse_of (decide_eq_false (Nat.not_le.2 (checksum (bodyText c)).toNat_lt))) ?_
      refine bind_of (refuse_of (by rw [hbody]; simp)) ?_
      refine bind_of (refuse_of rfl) ?_
      have hback : (⟨c.generation.toNat.toUInt64, c.volume.toNat.toUInt64, c.parent, c.stage, c.target, c.backup,
          ⟨c.identity.node.toNat.toUInt64, c.identity.generation.toNat.toUInt16, c.identity.size.toNat.toUInt64⟩,
          c.protocol⟩ : Claim) = c := by simp
      rw [hback]
      exact bind_of (refuse_of (by rw [hv]; rfl)) rfl
    · cases h
  · rw [if_pos (by simpa using hv)] at h
    cases h

end Upload
end R4
