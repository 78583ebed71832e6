import R4Recovery.AtomicUpdateForward
import R4Recovery.Cache
/-!
# CacheSafe — the ZIP transaction across crashes

The durable states of a transaction are few: those before the record is complete, and from there the phases of one
chain.  `recover` goes from any of them to the end of its own part, so every history of crashes stays among them.
-/
namespace R4
namespace Cache

open AtomicUpdate (File Dir)

/-! ## Records -/

variable {sha : Bytes → Bytes} {kind : Kind}

theorem length_putFingerprint {f : Fingerprint} (h : f.sha256.length = 32) : (putFingerprint f).length = 48 := by
  simp [putFingerprint, h]

theorem getFingerprint_put {f : Fingerprint} (hs : f.sha256.length = 32) (hb : f.bytes < 2 ^ 64) :
    getFingerprint (putFingerprint f) = f := by
  have hbytes : slice (putFingerprint f) 0 8 = leBytes 8 f.bytes := by simp [putFingerprint, slice]
  have hsum : slice (putFingerprint f) 8 4 = leBytes 4 f.checksum.toNat := by simp [putFingerprint, slice]
  have hsha : slice (putFingerprint f) 16 32 = f.sha256 := by
    have hlen : (leBytes 8 f.bytes ++ leBytes 4 f.checksum.toNat ++ zeros 4).length = 16 := by simp
    have hmid := slice_middle (c := []) hlen hs
    rwa [List.append_nil] at hmid
  have hc : f.checksum.toNat < 256 ^ 4 := f.checksum.toNat_lt
  unfold getFingerprint
  rw [hbytes, hsum, hsha, leNat_leBytes_of_lt (by simpa using hb), leNat_leBytes_of_lt hc, UInt32.ofNat_toNat]

/-- The fingerprints of a record have digests of 32 bytes and the sizes of archives. -/
structure Record.Ok (r : Record) : Prop where
  newSha : r.new.sha256.length = 32
  newSmall : 22 ≤ r.new.bytes
  newFits : r.new.bytes ≤ maxArchiveBytes
  oldSha : ∀ old ∈ r.old, old.sha256.length = 32
  oldFits : ∀ old ∈ r.old, old.bytes ≤ maxArchiveBytes

section Encode

variable {r : Record}

def Record.head (r : Record) : Bytes := ascii "R4CACHE1" ++ [r.kind.byte, if r.old.isSome then 1 else 0] ++ zeros 6

def Record.oldBytes (r : Record) : Bytes := r.old.elim (zeros 48) putFingerprint

theorem length_head (r : Record) : r.head.length = 16 := by simp [Record.head, ascii]

theorem length_oldBytes (h : r.Ok) : r.oldBytes.length = 48 := by
  unfold Record.oldBytes
  cases ho : r.old with
  | none => simp
  | some old => exact length_putFingerprint (h.oldSha old ho)

theorem body_eq (r : Record) : r.body = r.head ++ putFingerprint r.new ++ r.oldBytes ++ zeros 16 := rfl

theorem length_body (h : r.Ok) : r.body.length = 128 := by
  rw [body_eq]
  simp [length_head, length_putFingerprint h.newSha, length_oldBytes h]

variable (hsha : ∀ b, (sha b).length = 32)

include hsha in
theorem length_encode (h : r.Ok) : (r.encode sha).length = Record.size := by
  simp [Record.encode, length_body h, hsha, Record.size]

theorem encode_magic (r : Record) : slice (r.encode sha) 0 8 = ascii "R4CACHE1" := by
  simp [Record.encode, Record.body, slice, ascii]

theorem encode_kind (r : Record) : (r.encode sha).getD 8 0 = r.kind.byte := by
  simp [Record.encode, Record.body, ascii]

theorem encode_flag (r : Record) : (r.encode sha).getD 9 0 = if r.old.isSome then 1 else 0 := by
  simp [Record.encode, Record.body, ascii]

theorem encode_new (h : r.Ok) : slice (r.encode sha) 16 48 = putFingerprint r.new := by
  have he : r.encode sha = r.head ++ putFingerprint r.new ++ (r.oldBytes ++ zeros 16 ++ sha r.body) := by
    simp [Record.encode, body_eq]
  rw [he]
  exact slice_middle (length_head r) (length_putFingerprint h.newSha)

theorem encode_old (h : r.Ok) : slice (r.encode sha) 64 48 = r.oldBytes := by
  have he : r.encode sha = r.head ++ putFingerprint r.new ++ r.oldBytes ++ (zeros 16 ++ sha r.body) := by
    simp [Record.encode, body_eq]
  rw [he]
  refine slice_middle ?_ (length_oldBytes h)
  simp [length_head, length_putFingerprint h.newSha]

theorem encode_body (h : r.Ok) : slice (r.encode sha) 0 128 = r.body :=
  slice_middle (a := []) rfl (length_body h)

include hsha in
theorem encode_digest (h : r.Ok) : slice (r.encode sha) 128 32 = sha r.body := by
  have hmid := slice_middle (c := []) (length_body h) (hsha r.body)
  rwa [List.append_nil] at hmid

theorem encode_getOld (h : r.Ok) :
    (if (r.encode sha).getD 9 0 = 1 then some (getFingerprint (slice (r.encode sha) 64 48)) else none) = r.old := by
  rw [encode_flag, encode_old h]
  unfold Record.oldBytes
  cases ho : r.old with
  | none => rfl
  | some old =>
    have hb : old.bytes < 2 ^ 64 := Nat.lt_of_le_of_lt (h.oldFits old ho) (by decide)
    simpa using getFingerprint_put (h.oldSha old ho) hb

include hsha in
/-- **A record reads back.** -/
theorem decode_encode (h : r.Ok) : Record.decode sha (r.encode sha) r.kind = .ok r := by
  have hnew : r.new.bytes < 2 ^ 64 := Nat.lt_of_le_of_lt h.newFits (by decide)
  have hflag : ¬ (r.encode sha).getD 9 0 > 1 := by
    rw [encode_flag]
    cases r.old
    · decide
    · exact Nat.lt_irrefl 1
  have hsmall : ¬ (r.new.bytes < 22 ∨ maxArchiveBytes < r.new.bytes ∨
      r.old.any (fun old => maxArchiveBytes < old.bytes) = true) := by
    rintro (hc | hc | hc)
    · exact absurd h.newSmall (Nat.not_le.2 hc)
    · exact absurd h.newFits (Nat.not_le.2 hc)
    · cases ho : r.old with
      | none => rw [ho] at hc; cases hc
      | some old =>
        rw [ho] at hc
        exact absurd (h.oldFits old ho) (by simpa using hc)
  have hhead : ¬ ((r.encode sha).length ≠ Record.size ∨ slice (r.encode sha) 0 8 ≠ ascii "R4CACHE1" ∨
      (r.encode sha).getD 8 0 ≠ r.kind.byte ∨ (r.encode sha).getD 9 0 > 1) := by
    rintro (hc | hc | hc | hc)
    · exact hc (length_encode hsha h)
    · exact hc (encode_magic r)
    · exact hc (encode_kind r)
    · exact hflag hc
  unfold Record.decode
  rw [if_neg hhead, encode_body h, encode_digest hsha h,
    if_neg (by simp), encode_new h, getFingerprint_put h.newSha hnew, encode_getOld h]
  dsimp only
  rw [if_neg hsmall, if_neg (by simp)]

end Encode

/-! ## Directories of a transaction -/

/-- The transaction's files; no journal backup. -/
def layout (zip part backup journal stage : Option File) : Dir Slot
  | .zip => zip
  | .part => part
  | .backup => backup
  | .journal => journal
  | .journalStage => stage
  | .journalBackup => none

section Layout

variable (z p b j s f : Option File)

theorem set_zip : (layout z p b j s).set .zip f = layout f p b j s := by
  funext n
  cases n <;> rfl

theorem set_part : (layout z p b j s).set .part f = layout z f b j s := by
  funext n
  cases n <;> rfl

theorem set_backup : (layout z p b j s).set .backup f = layout z p f j s := by
  funext n
  cases n <;> rfl

theorem set_journal : (layout z p b j s).set .journal f = layout z p b f s := by
  funext n
  cases n <;> rfl

theorem set_stage : (layout z p b j s).set .journalStage f = layout z p b j f := by
  funext n
  cases n <;> rfl

end Layout

/-! ## Phases -/

/-- An archive that replaces another one or none: of an archive's size, with a fingerprint and a chain of its own. -/
structure Replacement where
  old : Option File
  part : File
  small : 22 ≤ part.size
  fits : part.size ≤ maxArchiveBytes
  oldFits : ∀ o ∈ old, o.size ≤ maxArchiveBytes
  differs : ∀ o ∈ old, ¬ (o.size = part.size ∧ o.checksum = part.checksum)
  apart : ∀ o ∈ old, o.cluster ≠ part.cluster

/-- The bytes and the chain of another file. -/
def Holds (f z : File) : Prop := z.content = f.content ∧ z.cluster = f.cluster

/-- The durable states once the record `j` is complete, in their order. -/
inductive Phase (t : Replacement) (j : File) : Dir Slot → Prop
  | staged : Phase t j (layout t.old (some t.part) none none (some j))
  | published : Phase t j (layout t.old (some t.part) none (some j) (some j))
  | journaled : Phase t j (layout t.old (some t.part) none (some j) none)
  | backed {o : File} (ho : t.old = some o) : Phase t j (layout (some o) (some t.part) (some o) (some j) none)
  | switched {z : File} (hz : Holds t.part z) : Phase t j (layout (some z) (some t.part) t.old (some j) none)
  | detached {z : File} {b : Option File} (hz : Holds t.part z) (hb : b = t.old ∨ b = none) :
      Phase t j (layout (some z) none b (some j) none)
  | done {z : File} (hz : Holds t.part z) : Phase t j (layout (some z) none none none none)

section Replacing

variable {t : Replacement} {j z : File} {b : Option File} {now : Nat}

theorem Holds.refl (f : File) : Holds f f := ⟨rfl, rfl⟩

theorem holds_switched (o f : File) (now : Nat) : Holds f (o.switched f now) := ⟨rfl, rfl⟩

theorem Holds.fingerprint {f : File} (h : Holds f z) : File.fingerprint sha z = File.fingerprint sha f := by
  unfold File.fingerprint AtomicUpdate.File.size AtomicUpdate.File.checksum
  rw [h.1]

theorem part_bytes (t : Replacement) : t.part.content ≠ [] := by
  intro h
  have hs : t.part.size = 0 := by rw [AtomicUpdate.File.size, h]; rfl
  exact absurd t.small (by rw [hs]; decide)

def Replacement.record (t : Replacement) (sha : Bytes → Bytes) (kind : Kind) : Record :=
  { kind := kind
    new := File.fingerprint sha t.part
    old := t.old.map (File.fingerprint sha) }

theorem record_ok (hsha : ∀ b, (sha b).length = 32) (t : Replacement) : (t.record sha kind).Ok where
  newSha := hsha _
  newSmall := t.small
  newFits := t.fits
  oldSha := by
    intro old h
    obtain ⟨o, _, rfl⟩ := Option.mem_map.1 h
    exact hsha _
  oldFits := by
    intro old h
    obtain ⟨o, ho, rfl⟩ := Option.mem_map.1 h
    exact t.oldFits o ho

theorem isNew_of_holds (h : Holds t.part z) : (t.record sha kind).spec.isNew z := by
  unfold AtomicUpdate.Spec.isNew AtomicUpdate.File.size AtomicUpdate.File.checksum
  rw [h.1]
  exact ⟨rfl, rfl⟩

theorem isOld_of_old {o : File} (h : t.old = some o) : (t.record sha kind).spec.isOld o := by
  refine ⟨?_, t.differs o h, ?_, ?_⟩ <;> simp [Record.spec, Replacement.record, h, File.fingerprint]

theorem identity_of_holds (h : Holds t.part z) : AtomicUpdate.sameFileRecoveryIdentity z t.part = true := by
  have hc : t.part.cluster ≠ 0 := fun hc => part_bytes t (t.part.placed.1 hc)
  have hs : t.part.content.length ≠ 0 := fun hs => part_bytes t (List.length_eq_zero_iff.1 hs)
  unfold AtomicUpdate.sameFileRecoveryIdentity AtomicUpdate.File.size
  rw [h.1, h.2]
  simp [hc, hs]

theorem ownership_apart {o : File} (h : t.old = some o) : AtomicUpdate.sameFileOwnership o t.part = false := by
  unfold AtomicUpdate.sameFileOwnership
  simp [t.apart o h]

/-! ## Fingerprints of the files -/

theorem fingerprint_part (h : Holds t.part z) {d : Dir Slot} {path : Slot} (hd : d path = some z) :
    fingerprintOf sha d path = .ok (some (t.record sha kind).new) := by
  have hs : ¬ maxArchiveBytes < z.size := by
    rw [AtomicUpdate.File.size, h.1]
    exact Nat.not_lt.2 t.fits
  unfold fingerprintOf
  rw [hd]
  dsimp only
  rw [if_neg hs, h.fingerprint]
  rfl

theorem fingerprint_none {d : Dir Slot} {path : Slot} (hd : d path = none) : fingerprintOf sha d path = .ok none := by
  unfold fingerprintOf
  rw [hd]

theorem fingerprint_old {d : Dir Slot} {path : Slot} (hd : d path = t.old) :
    fingerprintOf sha d path = .ok (t.record sha kind).old := by
  cases ho : t.old with
  | none => rw [fingerprint_none (hd.trans ho), Replacement.record, ho]; rfl
  | some o =>
    unfold fingerprintOf
    rw [hd, ho]
    dsimp only
    rw [if_neg (Nat.not_lt.2 (t.oldFits o ho)), Replacement.record, ho]
    rfl

theorem old_ne_new : (t.record sha kind).old ≠ some (t.record sha kind).new := by
  intro h
  obtain ⟨o, ho, hf⟩ := Option.map_eq_some_iff.1 h
  refine t.differs o ho ⟨?_, ?_⟩
  · exact congrArg Fingerprint.bytes hf
  · exact congrArg Fingerprint.checksum hf

/-! ## The end of a transaction -/

theorem expectAbsent_bind {α : Type} {path : Slot} {d : Dir Slot} {f : Unit → Act α} (h : d path = none) :
    (expectAbsent path >>= f) d = f () d := by
  refine Crashing.read_bind ?_
  rw [h]
  rfl

theorem fingerprint_bind {α : Type} {path : Slot} {d : Dir Slot} {v : Option Fingerprint} {f : Option Fingerprint → Act α}
    (h : fingerprintOf sha d path = .ok v) : (fingerprint sha path >>= f) d = f v d := Crashing.read_bind h

theorem remove_none {path : Slot} {d : Dir Slot} (h : d path = none) (size : Nat) (checksum : UInt32) :
    remove path size checksum d = ([], .ok (), d) := by
  unfold remove
  rw [h]

theorem remove_some {path : Slot} {d : Dir Slot} {f : File} (h : d path = some f) :
    remove path f.size f.checksum d = ([d.set path none], .ok (), d.set path none) := by
  unfold remove
  rw [h]
  exact if_pos ⟨rfl, rfl⟩

variable (sha kind j) in
theorem removeBackup_run (hz : Holds t.part z) (hb : b = t.old ∨ b = none) :
    ∃ q, removeBackup (t.record sha kind).old (layout (some z) none b (some j) none) =
      (q, .ok (), layout (some z) none none (some j) none) ∧ ∀ x ∈ q, Phase t j x := by
  cases ho : t.old with
  | none =>
    have hbn : b = none := by rcases hb with h | h; exact h.trans ho; exact h
    refine ⟨[], ?_, by simp⟩
    rw [hbn, Replacement.record, ho]
    rfl
  | some o =>
    have hr : (t.record sha kind).old = some (File.fingerprint sha o) := by rw [Replacement.record, ho]; rfl
    have hrm : removeBackup (some (File.fingerprint sha o)) = remove .backup o.size o.checksum := rfl
    rw [hr, hrm]
    by_cases hbn : b = none
    · refine ⟨[], ?_, by simp⟩
      rw [hbn]
      exact remove_none rfl _ _
    · have hbo : b = some o := by rcases hb with h | h; exact h.trans ho; exact absurd h hbn
      refine ⟨[layout (some z) none none (some j) none], ?_, ?_⟩
      · rw [hbo]
        refine (remove_some rfl).trans ?_
        rw [set_backup]
      · intro x hx
        rw [List.mem_singleton.1 hx]
        exact .detached hz (.inr rfl)

/-- **The end deletes the backup, then the record.** -/
theorem settle_run (hj : j.content = (t.record sha kind).encode sha) (hz : Holds t.part z) (hb : b = t.old ∨ b = none) :
    ∃ q, settle sha (t.record sha kind) (layout (some z) none b (some j) none) =
      (q, .ok (), layout (some z) none none none none) ∧ ∀ x ∈ q, Phase t j x := by
  obtain ⟨q, hq, hph⟩ := removeBackup_run sha kind j hz hb
  have hrm : remove .journal ((t.record sha kind).encode sha).length (Journal.checksum ((t.record sha kind).encode sha))
      (layout (some z) none none (some j) none) =
      ([layout (some z) none none none none], .ok (), layout (some z) none none none none) := by
    rw [← hj]
    refine (remove_some rfl).trans ?_
    rw [set_journal]
  refine ⟨q ++ [layout (some z) none none none none], ?_, ?_⟩
  · unfold settle
    rw [fingerprint_bind (fingerprint_part hz rfl : fingerprintOf sha _ _ = .ok (some (t.record sha kind).new)), Crashing.refuse_bind (by simp), expectAbsent_bind rfl]
    exact Crashing.bind_run hq hrm
  · intro x hx
    rcases List.mem_append.1 hx with hx | hx
    · exact hph x hx
    · rw [List.mem_singleton.1 hx]
      exact .done hz

/-! ## Publishing the ZIP -/

theorem named_zip : AtomicUpdate.Named short (t.record sha kind).spec .zip .part .backup where
  stageOk := .inr rfl
  backupOk := rfl
  targetStage := by decide
  targetBackup := by decide
  stageBackup := by decide

theorem publishZip_create {zip : Option File} (ho : t.old = none) (h : zip = none ∨ ∃ z, Holds t.part z ∧ zip = some z) :
    ∃ p z, publishZip now (t.record sha kind) (layout zip (some t.part) none (some j) none) =
      (p, .ok (), layout (some z) none none (some j) none) ∧ Holds t.part z ∧ ∀ x ∈ p, Phase t j x := by
  have hnew : (t.record sha kind).spec.isNew t.part := isNew_of_holds (Holds.refl t.part)
  have he : (t.record sha kind).spec.targetExisted = false := by simp [Record.spec, Replacement.record, ho]
  have hk : (t.record sha kind).spec.oldKnown = false := by simp [Record.spec, Replacement.record, ho]
  have hdet : ∀ {z : File}, Holds t.part z → Phase t j (layout (some z) none none (some j) none) :=
    fun hz => .detached hz (.inr rfl)
  rcases h with rfl | ⟨z, hz, rfl⟩
  · have hrun := AtomicUpdate.create_start now (d := layout none (some t.part) none (some j) none) named_zip he hk rfl
      rfl hnew rfl
    rw [set_zip, set_part] at hrun
    refine ⟨_, t.part, Crashing.mapError_run _ hrun, Holds.refl _, ?_⟩
    intro x hx
    rcases List.mem_pair.1 hx with rfl | rfl
    · have hsw := Phase.switched (t := t) (j := j) (Holds.refl t.part)
      rwa [ho] at hsw
    · exact hdet (Holds.refl _)
  · have hrun := AtomicUpdate.create_published now (d := layout (some z) (some t.part) none (some j) none) named_zip he
      hk rfl (isNew_of_holds hz) rfl hnew (identity_of_holds hz) rfl
    rw [set_part] at hrun
    refine ⟨_, z, Crashing.mapError_run _ hrun, hz, ?_⟩
    intro x hx
    rw [List.mem_singleton.1 hx]
    exact hdet hz

theorem publishZip_existing {o : File} {zip backup : Option File} (ho : t.old = some o)
    (h : (zip = some o ∧ (backup = none ∨ backup = some o)) ∨ (∃ z, Holds t.part z ∧ zip = some z ∧ backup = some o)) :
    ∃ p z, publishZip now (t.record sha kind) (layout zip (some t.part) backup (some j) none) =
      (p, .ok (), layout (some z) none (some o) (some j) none) ∧ Holds t.part z ∧ ∀ x ∈ p, Phase t j x := by
  have hnew : (t.record sha kind).spec.isNew t.part := isNew_of_holds (Holds.refl t.part)
  have hold : (t.record sha kind).spec.isOld _ := isOld_of_old ho
  have he : (t.record sha kind).spec.targetExisted = true := by simp [Record.spec, Replacement.record, ho]
  have hsw : Phase t j (layout (some (o.switched t.part now)) (some t.part) (some o) (some j) none) := by
    have hsw := Phase.switched (t := t) (j := j) (holds_switched o t.part now)
    rwa [ho] at hsw
  have hdet : ∀ {z : File}, Holds t.part z → Phase t j (layout (some z) none (some o) (some j) none) :=
    fun hz => .detached hz (.inl ho.symm)
  rcases h with ⟨rfl, rfl | rfl⟩ | ⟨z, hz, rfl, rfl⟩
  · have hrun := AtomicUpdate.existing_start now (d := layout (some o) (some t.part) none (some j) none) named_zip he rfl
      hold rfl hnew rfl (ownership_apart ho)
    rw [set_backup, set_zip, set_part] at hrun
    refine ⟨_, _, Crashing.mapError_run _ hrun, holds_switched o _ _, ?_⟩
    intro x hx
    rcases List.mem_cons.1 hx with rfl | hx
    · exact .backed ho
    · rcases List.mem_pair.1 hx with rfl | rfl
      · exact hsw
      · exact hdet (holds_switched _ _ _)
  · have hrun := AtomicUpdate.existing_backed now (d := layout (some o) (some t.part) (some o) (some j) none) named_zip
      he rfl hold rfl hnew rfl hold (AtomicUpdate.identity_self o) (ownership_apart ho)
    rw [set_zip, set_part] at hrun
    refine ⟨_, _, Crashing.mapError_run _ hrun, holds_switched o _ _, ?_⟩
    intro x hx
    rcases List.mem_pair.1 hx with rfl | rfl
    · exact hsw
    · exact hdet (holds_switched _ _ _)
  · have hrun := AtomicUpdate.existing_switched now (d := layout (some z) (some t.part) (some o) (some j) none) named_zip
      he rfl (isNew_of_holds hz) rfl hnew (identity_of_holds hz) rfl hold
    rw [set_part] at hrun
    refine ⟨_, z, Crashing.mapError_run _ hrun, hz, ?_⟩
    intro x hx
    rw [List.mem_singleton.1 hx]
    exact hdet hz

variable (sha kind j now) in
/-- **From every phase with a PART the ZIP is published**, through phases. -/
theorem publishZip_run {zip backup : Option File}
    (h : (zip = t.old ∧ backup = none) ∨ (∃ o, t.old = some o ∧ zip = some o ∧ backup = some o) ∨
      (∃ z, Holds t.part z ∧ zip = some z ∧ backup = t.old)) :
    ∃ p z, publishZip now (t.record sha kind) (layout zip (some t.part) backup (some j) none) =
      (p, .ok (), layout (some z) none t.old (some j) none) ∧ Holds t.part z ∧ ∀ x ∈ p, Phase t j x := by
  cases ho : t.old with
  | none =>
    rcases h with ⟨hz, rfl⟩ | ⟨o, hn, _⟩ | ⟨z, hz, hs, rfl⟩
    · exact publishZip_create ho (.inl (hz.trans ho))
    · rw [ho] at hn; cases hn
    · rw [ho]
      exact publishZip_create ho (.inr ⟨z, hz, hs⟩)
  | some o =>
    rcases h with ⟨hz, rfl⟩ | ⟨o', hn, hz, hb⟩ | ⟨z, hz, hs, hb⟩
    · exact publishZip_existing ho (.inl ⟨hz.trans ho, .inl rfl⟩)
    · rw [ho] at hn
      cases hn
      exact publishZip_existing ho (.inl ⟨hz, .inr hb⟩)
    · exact publishZip_existing ho (.inr ⟨z, hz, hs, hb.trans ho⟩)

/-! ## Finishing -/

variable (now) in
theorem finish_publishing (hj : j.content = (t.record sha kind).encode sha) {zip backup : Option File}
    (h : (zip = t.old ∧ backup = none) ∨ (∃ o, t.old = some o ∧ zip = some o ∧ backup = some o) ∨
      (∃ z, Holds t.part z ∧ zip = some z ∧ backup = t.old)) :
    ∃ q z, finish sha now (t.record sha kind) (layout zip (some t.part) backup (some j) none) =
      (q, .ok (), layout (some z) none none none none) ∧ Holds t.part z ∧ ∀ x ∈ q, Phase t j x := by
  obtain ⟨p, z, hpub, hz, hp⟩ := publishZip_run sha kind j now h
  obtain ⟨q, hset, hq⟩ := settle_run hj hz (.inl rfl)
  have hzip : ∃ v, fingerprintOf sha (layout zip (some t.part) backup (some j) none) .zip = .ok v ∧
      (v = (t.record sha kind).old ∨ v = some (t.record sha kind).new) := by
    rcases h with ⟨rfl, _⟩ | ⟨o, ho, rfl, _⟩ | ⟨z', hz', rfl, _⟩
    · exact ⟨_, fingerprint_old rfl, .inl rfl⟩
    · exact ⟨_, fingerprint_old (t := t) ho.symm, .inl rfl⟩
    · exact ⟨_, fingerprint_part hz' rfl, .inr rfl⟩
  have hbackup : ∃ w, fingerprintOf sha (layout zip (some t.part) backup (some j) none) .backup = .ok w ∧
      (w = none ∨ w = (t.record sha kind).old) := by
    rcases h with ⟨_, rfl⟩ | ⟨o, ho, _, rfl⟩ | ⟨z', _, _, rfl⟩
    · exact ⟨_, fingerprint_none rfl, .inl rfl⟩
    · exact ⟨_, fingerprint_old (t := t) ho.symm, .inr rfl⟩
    · exact ⟨_, fingerprint_old rfl, .inr rfl⟩
  obtain ⟨v, hv, hvc⟩ := hzip
  obtain ⟨w, hw, hwc⟩ := hbackup
  refine ⟨p ++ q, z, ?_, hz, ?_⟩
  · unfold finish
    rw [fingerprint_bind hv, fingerprint_bind (fingerprint_part (Holds.refl t.part) rfl : fingerprintOf sha _ _ = .ok (some (t.record sha kind).new)), fingerprint_bind hw,
      Crashing.refuse_bind (by rcases hwc with rfl | rfl <;> simp)]
    refine Crashing.bind_run (a := ()) (t := layout (some z) none t.old (some j) none) ?_ hset
    unfold Crashing.unlessDone
    rw [if_neg (by simp), Crashing.refuse_bind (by simp), Crashing.refuse_bind (by rcases hvc with rfl | rfl <;> simp)]
    exact hpub
  · intro x hx
    rcases List.mem_append.1 hx with hx | hx
    · exact hp x hx
    · exact hq x hx

variable (now) in
theorem finish_settling (hj : j.content = (t.record sha kind).encode sha) (hz : Holds t.part z) (hb : b = t.old ∨ b = none) :
    ∃ q, finish sha now (t.record sha kind) (layout (some z) none b (some j) none) =
      (q, .ok (), layout (some z) none none none none) ∧ ∀ x ∈ q, Phase t j x := by
  obtain ⟨q, hset, hq⟩ := settle_run hj hz hb
  have hbackup : ∃ w, fingerprintOf sha (layout (some z) none b (some j) none) .backup = .ok w ∧
      (w = none ∨ w = (t.record sha kind).old) := by
    rcases hb with rfl | rfl
    · exact ⟨_, fingerprint_old rfl, .inr rfl⟩
    · exact ⟨_, fingerprint_none rfl, .inl rfl⟩
  obtain ⟨w, hw, hwc⟩ := hbackup
  refine ⟨q, ?_, hq⟩
  unfold finish
  rw [fingerprint_bind (fingerprint_part hz rfl : fingerprintOf sha _ _ = .ok (some (t.record sha kind).new)), fingerprint_bind (fingerprint_none rfl), fingerprint_bind hw,
    Crashing.refuse_bind (by rcases hwc with rfl | rfl <;> simp)]
  refine (Crashing.bind_run (a := ()) (p := []) ?_ hset).trans rfl
  unfold Crashing.unlessDone
  rw [if_pos (by simp)]
  rfl

/-! ## Publishing the record -/

theorem named_journal (spec : AtomicUpdate.Spec) : AtomicUpdate.Named short spec .journal .journalStage .journalBackup where
  stageOk := .inl rfl
  backupOk := rfl
  targetStage := by decide
  targetBackup := by decide
  stageBackup := by decide

section Journal

variable {record : Record} {zip part backup : Option File}

theorem journalSpec_isNew (hj : j.content = record.encode sha) : (record.journalSpec sha).isNew j := by
  unfold AtomicUpdate.Spec.isNew Record.journalSpec AtomicUpdate.File.size AtomicUpdate.File.checksum
  simp only [hj, and_self]

theorem publishJournal_staged (hj : j.content = record.encode sha) :
    publishJournal sha now record (layout zip part backup none (some j)) =
      ([layout zip part backup (some j) (some j), layout zip part backup (some j) none], .ok (),
        layout zip part backup (some j) none) := by
  have hrun := AtomicUpdate.create_start now (d := layout zip part backup none (some j))
    (named_journal (record.journalSpec sha)) rfl rfl rfl rfl (journalSpec_isNew hj) rfl
  rw [set_journal, set_stage] at hrun
  exact Crashing.mapError_run _ hrun

theorem publishJournal_published (hj : j.content = record.encode sha) :
    publishJournal sha now record (layout zip part backup (some j) (some j)) =
      ([layout zip part backup (some j) none], .ok (), layout zip part backup (some j) none) := by
  have hrun := AtomicUpdate.create_published now (d := layout zip part backup (some j) (some j))
    (named_journal (record.journalSpec sha)) rfl rfl rfl (journalSpec_isNew hj) rfl
    (journalSpec_isNew hj) (AtomicUpdate.identity_self j) rfl
  rw [set_stage] at hrun
  exact Crashing.mapError_run _ hrun

theorem publishJournal_done (hj : j.content = record.encode sha) :
    publishJournal sha now record (layout zip part backup (some j) none) = ([], .ok (), layout zip part backup (some j) none) := by
  have hrun := AtomicUpdate.create_done now (d := layout zip part backup (some j) none)
    (named_journal (record.journalSpec sha)) rfl rfl rfl (journalSpec_isNew hj) rfl rfl
  exact Crashing.mapError_run _ hrun

end Journal

/-! ## Recovering from a phase -/

theorem readRecord_none {d : Dir Slot} {path : Slot} (h : d path = none) : readRecord sha kind d path = .ok none := by
  unfold readRecord
  rw [h]

theorem readRecord_record (hsha : ∀ b, (sha b).length = 32) (hj : j.content = (t.record sha kind).encode sha)
    {d : Dir Slot} {path : Slot} (h : d path = some j) : readRecord sha kind d path = .ok (some (t.record sha kind)) := by
  have hs : ¬ j.size ≠ Record.size := by
    rw [AtomicUpdate.File.size, hj, length_encode hsha (record_ok hsha t)]
    exact fun h => h rfl
  have hd := decode_encode hsha (record_ok hsha t : (t.record sha kind).Ok)
  unfold readRecord
  rw [h]
  dsimp only
  rw [if_neg hs, hj]
  exact congrArg (Except.map some) hd

theorem recover_found {d d1 d2 : Dir Slot} {p q : List (Dir Slot)} (hjb : d .journalBackup = none)
    (hact : activeRecord sha kind d = ([], .ok (some (t.record sha kind)), d))
    (hpub : publishJournal sha now (t.record sha kind) d = (p, .ok (), d1))
    (hfin : finish sha now (t.record sha kind) d1 = (q, .ok (), d2)) :
    recover sha kind now d = (p ++ q, .ok (), d2) := by
  unfold recover
  rw [expectAbsent_bind hjb]
  exact Crashing.bind_run (p := []) hact (Crashing.bind_run hpub hfin)

theorem activeRecord_journal {d : Dir Slot} {record : Record} (h : readRecord sha kind d .journal = .ok (some record)) :
    activeRecord sha kind d = ([], .ok (some record), d) := by
  unfold activeRecord
  refine (Crashing.read_bind (a := some record) (by rw [h])).trans ?_
  rfl

theorem activeRecord_stage {d : Dir Slot} {record : Option Record} (hn : d .journal = none) (hb : d .backup = none)
    (h : readRecord sha kind d .journalStage = .ok record) : activeRecord sha kind d = ([], .ok record, d) := by
  unfold activeRecord
  refine (Crashing.read_bind (a := none) (by rw [readRecord_none hn])).trans ?_
  dsimp only
  rw [expectAbsent_bind hb]
  unfold stagedRecord
  refine (Crashing.read_bind (a := .ok record) (by rw [h])).trans ?_
  rfl

variable (now) in
/-- **From every phase `recover` ends the transaction**, through phases. -/
theorem recover_phase (hsha : ∀ b, (sha b).length = 32) (hj : j.content = (t.record sha kind).encode sha) {d : Dir Slot}
    (h : Phase t j d) :
    ∃ p z, recover sha kind now d = (p, .ok (), layout (some z) none none none none) ∧ Holds t.part z ∧
      ∀ x ∈ p, Phase t j x := by
  have hjournal : ∀ {d : Dir Slot}, d .journal = some j → activeRecord sha kind d = ([], .ok (some (t.record sha kind)), d) :=
    fun hd => activeRecord_journal (readRecord_record hsha hj hd)
  cases h with
  | staged =>
    obtain ⟨q, z, hq, hz, hph⟩ := finish_publishing now hj (.inl ⟨rfl, rfl⟩)
    have hact := activeRecord_stage (d := layout t.old (some t.part) none none (some j)) rfl rfl
      (readRecord_record hsha hj rfl)
    refine ⟨_, z, recover_found rfl hact (publishJournal_staged hj) hq, hz, ?_⟩
    intro x hx
    rcases List.mem_append.1 hx with hx | hx
    · rcases List.mem_pair.1 hx with rfl | rfl
      · exact .published
      · exact .journaled
    · exact hph x hx
  | published =>
    obtain ⟨q, z, hq, hz, hph⟩ := finish_publishing now hj (.inl ⟨rfl, rfl⟩)
    refine ⟨_, z, recover_found rfl (hjournal rfl) (publishJournal_published hj) hq, hz, ?_⟩
    intro x hx
    rcases List.mem_append.1 hx with hx | hx
    · rw [List.mem_singleton.1 hx]
      exact .journaled
    · exact hph x hx
  | journaled =>
    obtain ⟨q, z, hq, hz, hph⟩ := finish_publishing now hj (.inl ⟨rfl, rfl⟩)
    exact ⟨q, z, recover_found rfl (hjournal rfl) (publishJournal_done hj) hq, hz, hph⟩
  | backed ho =>
    obtain ⟨q, z, hq, hz, hph⟩ := finish_publishing now hj (.inr (.inl ⟨_, ho, rfl, rfl⟩))
    exact ⟨q, z, recover_found rfl (hjournal rfl) (publishJournal_done hj) hq, hz, hph⟩
  | switched hz =>
    obtain ⟨q, z, hq, hz, hph⟩ := finish_publishing now hj (.inr (.inr ⟨_, hz, rfl, rfl⟩))
    exact ⟨q, z, recover_found rfl (hjournal rfl) (publishJournal_done hj) hq, hz, hph⟩
  | detached hz hb =>
    obtain ⟨q, hq, hph⟩ := finish_settling now hj hz hb
    exact ⟨q, _, recover_found rfl (hjournal rfl) (publishJournal_done hj) hq, hz, hph⟩
  | @done z hz =>
    refine ⟨[], z, ?_, hz, by simp⟩
    unfold recover
    rw [expectAbsent_bind rfl]
    exact Crashing.bind_run (p := []) (activeRecord_stage rfl rfl (readRecord_none rfl)) rfl

end Replacing

end Cache
end R4
