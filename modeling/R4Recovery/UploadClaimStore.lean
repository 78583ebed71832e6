import R4Recovery.UploadClaim
/-!
# UploadClaimStore — the claim directory over boots

`upload_claim_store.zig`: claims are files of one directory, named after a generation that starts again with every boot.  A
boot replays the claims it finds; one that fails stays.  Live claims are kept as long as no new one takes the name of a
file that is still there and the sweep reaches them all.
-/
namespace R4
namespace Upload

/-! ## The claim directory -/

structure DirEntry where
  name : Bytes
  isDir : Bool := false
  content : Bytes := []
  deriving DecidableEq

/-- The record of an entry as the sweep reads it. -/
def DirEntry.claim (e : DirEntry) : Option Claim :=
  if e.isDir then none else if e.content = [] ∨ claimMax < e.content.length then none else parse e.content

def DirEntry.named (e : DirEntry) (name : Bytes) : Bool := eqlIgnoreCase e.name name

/-- Eight digits for the low half of the generation. -/
def claimName (generation : UInt64) : Bytes :=
  (List.range 8).map (fun i => (ascii "0123456789ABCDEF").getD (generation.toNat / 16 ^ (7 - i) % 16) 0) ++ ascii ".CLM"

def deleteFile (d : List DirEntry) (name : Bytes) : List DirEntry := d.filter (fun e => !(e.named name && !e.isDir))

/-- A file of this name is replaced; the entry is listed at some place. -/
def writeFile (d : List DirEntry) (place : Nat) (name content : Bytes) : Option (List DirEntry) :=
  if d.any (fun e => e.named name && e.isDir) then none
  else
    let d := deleteFile d name
    some (d.take place ++ { name, content } :: d.drop place)

/-! ## The store -/

/-- The directory, the generation of the next claim, and the claims that were reported durable and neither retired nor
replayed to an end. -/
structure Store where
  dir : List DirEntry
  nextGeneration : UInt64
  live : List Claim

def bump (generation : UInt64) : UInt64 := if generation + 1 = 0 then 1 else generation + 1

def Store.writeClaim (s : Store) (p : Publish) (reuse : UInt64) (place : Nat) : Option (Claim × Store) := do
  let generation := if reuse ≠ 0 then reuse else s.nextGeneration
  let c ← build generation p
  let text ← serialize c
  let dir ← writeFile s.dir place (claimName generation) text
  pure (c, { s with dir, nextGeneration := if reuse = 0 then bump s.nextGeneration else s.nextGeneration })

/-- What the replays of a sweep meet on the volumes of the uploads. -/
structure ReplayAnswers where
  observe : Claim → ObservedState
  publish : Claim → Bool
  discardStage : Claim → Bool

/-- The uploads are in other directories: only `retire` changes this one. -/
def sweepIo (a : ReplayAnswers) : ReplayIo (List DirEntry) where
  observe c _ := a.observe c
  publish c d := (a.publish c, d)
  discardStage c d := (a.discardStage c, d)
  retire c d := (!(deleteFile d (claimName c.generation)).any (fun e => e.named (claimName c.generation)),
    deleteFile d (claimName c.generation))

def ReplayStatus.terminal : ReplayStatus → Bool
  | .published | .rolledBack | .retired | .foreign => true
  | .invalid | .io => false

/-- The sweep from an index, with the visits that are left: the directory it leaves and the claims it attempted. -/
def sweep (io : ReplayIo (List DirEntry)) : Nat → Nat → List DirEntry → List DirEntry × List (Claim × ReplayStatus)
  | 0, _, d => (d, [])
  | left + 1, i, d =>
    match d[i]? with
    | none => (d, [])
    | some e =>
      match e.claim with
      | none => sweep io left (i + 1) d
      | some c =>
        let (status, d) := replayClaim io c d
        -- a retired entry is gone, its successor is at the same index
        let (d, seen) := sweep io left (if status.terminal then i else i + 1) d
        (d, (c, status) :: seen)

def recoverBeforeRuntime (a : ReplayAnswers) (d : List DirEntry) : List DirEntry × List (Claim × ReplayStatus) :=
  sweep (sweepIo a) maxClaims 0 d

inductive Call where
  | boot (a : ReplayAnswers)
  | beginPublish (p : Publish) (place : Nat)
  | refreshIdentity (p : Publish) (generation : UInt64) (place : Nat)
  | retire (generation : UInt64)

def Store.step (s : Store) : Call → Store
  | .boot a =>
    { dir := (recoverBeforeRuntime a s.dir).1
      nextGeneration := 1
      live := s.live.filter (fun c => !(recoverBeforeRuntime a s.dir).2.any (fun t => t.1 == c && t.2.terminal)) }
  | .beginPublish p place =>
    match s.writeClaim p 0 place with
    | none => s
    | some (c, s') => { s' with live := c :: s.live }
  | .refreshIdentity p generation place =>
    if generation = 0 then s
    else match s.writeClaim p generation place with
      | none => s
      | some (c, s') => { s' with live := s.live.map (fun o => if o.generation = generation then c else o) }
  | .retire generation =>
    if generation = 0 then s
    else { s with dir := deleteFile s.dir (claimName generation), live := s.live.filter (fun c => c.generation != generation) }

/-- **What keeps the claims**: a new claim finds no file under its name and has no newline in its texts, a refresh is of a
live claim with its own names, a retired name is no other live claim's, and the sweep's sixteen visits reach every valid
claim. -/
def Store.Meets (s : Store) : Call → Prop
  | .boot _ => ∀ e ∈ s.dir.drop maxClaims, e.claim = none
  | .beginPublish p _ => (∀ e ∈ s.dir, e.named (claimName s.nextGeneration) = false) ∧
      ∀ text ∈ [p.parent, p.stage, p.target, p.backup], (10 : UInt8) ∉ text
  | .refreshIdentity p generation _ => ∃ c ∈ s.live, c.generation = generation ∧ c.volume = p.volume ∧ c.parent = p.parent ∧
      c.stage = p.stage ∧ c.target = p.target ∧ c.backup = p.backup
  | .retire generation => ∀ c ∈ s.live, claimName c.generation = claimName generation → c.generation = generation

inductive Runs (start : Store) : Store → Prop
  | start : Runs start start
  | step {s : Store} (call : Call) (h : Runs start s) (hm : s.Meets call) : Runs start (s.step call)

/-! ## Names -/

theorem named_iff {e : DirEntry} {name : Bytes} : e.named name = true ↔ e.name.map toUpper = name.map toUpper :=
  eqlIgnoreCase_iff _ _

theorem claimName_upper (generation : UInt64) : (claimName generation).map toUpper = claimName generation := by
  have hdigit : ∀ n : Nat, toUpper ((ascii "0123456789ABCDEF").getD n 0) = (ascii "0123456789ABCDEF").getD n 0 := by
    intro n
    by_cases hn : n < 16
    · interval_cases n <;> rfl
    · rw [List.getD_eq_default _ _ (by simp only [ascii, List.length_map]; exact Nat.not_lt.1 hn)]
      rfl
  unfold claimName
  rw [List.map_append, List.map_map]
  congr 1
  exact List.map_congr_left (fun i _ => hdigit _)

/-- Unique names, and every record under the name of its generation. -/
structure Filed (d : List DirEntry) : Prop where
  unique : d.Pairwise (fun a b => a.name.map toUpper ≠ b.name.map toUpper)
  own : ∀ e ∈ d, ∀ c, e.claim = some c → e.name.map toUpper = claimName c.generation

theorem Filed.sublist {d d' : List DirEntry} (h : Filed d) (hs : d'.Sublist d) : Filed d' :=
  ⟨h.unique.sublist hs, fun e he => h.own e (hs.mem he)⟩

theorem Filed.eq_of_named {d : List DirEntry} (h : Filed d) {a b : DirEntry} (ha : a ∈ d) (hb : b ∈ d)
    (hn : a.name.map toUpper = b.name.map toUpper) : a = b := by
  by_contra hne
  have : Std.Symm (fun a b : DirEntry => a.name.map toUpper ≠ b.name.map toUpper) := ⟨fun _ _ h => h.symm⟩
  exact h.unique.forall ha hb hne hn

theorem claim_isDir {e : DirEntry} {c : Claim} (h : e.claim = some c) : e.isDir = false := by
  unfold DirEntry.claim at h
  cases hd : e.isDir with
  | false => rfl
  | true => rw [hd, if_pos rfl] at h; cases h

/-! ## The sweep -/

section Sweep

variable {a : ReplayAnswers} {c : Claim} {e : DirEntry} {pre suf d : List DirEntry}

/-- How a replay ends when the record can be retired. -/
def outcome (a : ReplayAnswers) (c : Claim) : ReplayStatus :=
  if !claimValid c then .invalid
  else match a.observe c with
    | .io => .io
    | .stageOnly => if a.discardStage c then .rolledBack else .io
    | .halfPublished | .alias_ => if a.publish c then .published else .io
    | .targetOnly => .published
    | .missing => .retired
    | .foreign => .foreign

/-- The entry is still there after the sweep has visited it. -/
def survives (a : ReplayAnswers) (e : DirEntry) : Bool :=
  match e.claim with
  | none => true
  | some c => !(outcome a c).terminal

theorem delete_own (h : Filed (pre ++ e :: suf)) (hc : e.claim = some c) :
    deleteFile (pre ++ e :: suf) (claimName c.generation) = pre ++ suf := by
  have hname : ∀ x ∈ pre ++ e :: suf, x.named (claimName c.generation) = true → x = e := by
    intro x hx hn
    have hown := h.own e (by simp) c hc
    refine h.eq_of_named hx (by simp) ?_
    rw [named_iff.1 hn, hown, claimName_upper]
  have hother : ∀ x ∈ pre ++ suf, x.named (claimName c.generation) = false := by
    intro x hx
    by_contra hn
    have hxe := hname x (by simp only [List.mem_append, List.mem_cons] at hx ⊢; tauto) (by simpa using hn)
    subst hxe
    have hu := (List.pairwise_middle (fun h => Ne.symm h)).1 h.unique
    exact (List.pairwise_cons.1 hu).1 x hx rfl
  have hself : e.named (claimName c.generation) = true := by
    rw [named_iff, h.own e (by simp) c hc, claimName_upper]
  unfold deleteFile
  rw [List.filter_append, List.filter_cons_of_neg (by rw [hself, claim_isDir hc]; decide)]
  rw [← List.filter_append, List.filter_eq_self.2 (fun x hx => by rw [hother x hx]; rfl)]

theorem retire_own (h : Filed (pre ++ e :: suf)) (hc : e.claim = some c) :
    (sweepIo a).retire c (pre ++ e :: suf) = (true, pre ++ suf) := by
  show (!(deleteFile (pre ++ e :: suf) (claimName c.generation)).any _, deleteFile (pre ++ e :: suf) (claimName c.generation)) = _
  rw [delete_own h hc]
  congr 1
  rw [Bool.not_eq_true', List.any_eq_false]
  intro x hx hn
  have hu := (List.pairwise_middle (fun h => Ne.symm h)).1 h.unique
  refine (List.pairwise_cons.1 hu).1 x hx ?_
  rw [named_iff.1 hn, h.own e (by simp) c hc, claimName_upper]

theorem replay_own (h : Filed (pre ++ e :: suf)) (hc : e.claim = some c) :
    replayClaim (sweepIo a) c (pre ++ e :: suf) =
      (outcome a c, if (outcome a c).terminal then pre ++ suf else pre ++ e :: suf) := by
  have hret : ∀ status : ReplayStatus, retired (sweepIo a) c status (pre ++ e :: suf) = (status, pre ++ suf) := by
    intro status
    unfold retired
    rw [retire_own h hc]
  have hobs : (sweepIo a).observe c (pre ++ e :: suf) = a.observe c := rfl
  have hpub : (sweepIo a).publish c (pre ++ e :: suf) = (a.publish c, pre ++ e :: suf) := rfl
  have hdis : (sweepIo a).discardStage c (pre ++ e :: suf) = (a.discardStage c, pre ++ e :: suf) := rfl
  cases hv : claimValid c with
  | false => simp [replayClaim, outcome, hv, ReplayStatus.terminal]
  | true =>
    cases ho : a.observe c with
    | io => simp [replayClaim, outcome, hv, hobs, ho, ReplayStatus.terminal]
    | stageOnly => cases hd : a.discardStage c <;> simp [replayClaim, outcome, hv, hobs, ho, hdis, hd, hret, ReplayStatus.terminal]
    | halfPublished => cases hp : a.publish c <;> simp [replayClaim, outcome, hv, hobs, ho, hpub, hp, hret, ReplayStatus.terminal]
    | alias_ => cases hp : a.publish c <;> simp [replayClaim, outcome, hv, hobs, ho, hpub, hp, hret, ReplayStatus.terminal]
    | targetOnly => simp [replayClaim, outcome, hv, hobs, ho, hret, ReplayStatus.terminal]
    | missing => simp [replayClaim, outcome, hv, hobs, ho, hret, ReplayStatus.terminal]
    | foreign => simp [replayClaim, outcome, hv, hobs, ho, hret, ReplayStatus.terminal]

/-- **What the sweep does**: of the entries it visits those whose claims end are gone, and every claim among them was
attempted. -/
theorem sweep_eq : ∀ (left : Nat) {pre suf : List DirEntry}, Filed (pre ++ suf) →
    sweep (sweepIo a) left pre.length (pre ++ suf) = (pre ++ ((suf.take left).filter (survives a) ++ suf.drop left),
      (suf.take left).filterMap (fun e => e.claim.map (fun c => (c, outcome a c))))
  | 0, pre, suf, _ => by simp [sweep]
  | left + 1, pre, [], _ => by simp [sweep]
  | left + 1, pre, e :: suf, h => by
    have hget : (pre ++ e :: suf)[pre.length]? = some e := by simp
    have hnext : pre ++ e :: suf = (pre ++ [e]) ++ suf := by simp
    have hlen : pre.length + 1 = (pre ++ [e]).length := by simp
    have hgo := sweep_eq left (hnext ▸ h)
    unfold sweep
    rw [hget]
    cases hc : e.claim with
    | none =>
      have hs : survives a e = true := by unfold survives; rw [hc]
      simp only [hc]
      rw [hlen, hnext, hgo, List.take_succ_cons, List.filter_cons_of_pos hs, List.filterMap_cons, hc]
      simp
    | some c =>
      simp only [hc, replay_own h hc]
      cases ht : (outcome a c).terminal with
      | true =>
        have hs : survives a e = false := by unfold survives; rw [hc]; simp [ht]
        have hrest := sweep_eq left (h.sublist ((List.Sublist.refl pre).append (List.sublist_cons_self e suf)))
        simp only [if_true, hrest, List.take_succ_cons, List.filter_cons, hs, List.filterMap_cons, hc, Option.map_some, List.drop_succ_cons,
          Bool.false_eq_true, if_false]
      | false =>
        have hs : survives a e = true := by unfold survives; rw [hc]; simp [ht]
        simp only [Bool.false_eq_true, if_false]
        rw [hlen, hnext, hgo, List.take_succ_cons, List.filter_cons_of_pos hs, List.filterMap_cons, hc]
        simp

end Sweep

/-! ## Writing -/

section Write

variable {s s' : Store} {p : Publish} {c : Claim} {d d' : List DirEntry} {name content : Bytes} {place : Nat}

theorem mem_deleteFile {e : DirEntry} (hn : ∀ x ∈ d, x.named name = true → x.isDir = false) :
    e ∈ deleteFile d name ↔ e ∈ d ∧ e.named name = false := by
  unfold deleteFile
  rw [List.mem_filter]
  constructor
  · rintro ⟨he, hb⟩
    refine ⟨he, ?_⟩
    by_contra hnamed
    have hnamed : e.named name = true := by simpa using hnamed
    rw [hnamed, hn e he hnamed] at hb
    cases hb
  · rintro ⟨he, hb⟩
    exact ⟨he, by rw [hb]; rfl⟩

theorem writeFile_some (h : writeFile d place name content = some d') :
    (∀ e, e ∈ d' ↔ e = { name, content } ∨ (e ∈ d ∧ e.named name = false)) ∧
      (d'.Perm ({ name, content } :: deleteFile d name)) := by
  unfold writeFile at h
  by_cases hd : d.any (fun e => e.named name && e.isDir) = true
  · rw [if_pos hd] at h
    cases h
  rw [if_neg hd] at h
  cases h
  have hfile : ∀ x ∈ d, x.named name = true → x.isDir = false := by
    intro x hx hn
    by_contra hdir
    exact hd (List.any_eq_true.2 ⟨x, hx, by rw [hn]; simpa using hdir⟩)
  have hperm : ((deleteFile d name).take place ++ { name, content } :: (deleteFile d name).drop place).Perm
      ({ name, content } :: deleteFile d name) := by
    refine List.perm_middle.trans ?_
    rw [List.take_append_drop]
  refine ⟨fun e => ?_, hperm⟩
  rw [hperm.mem_iff, List.mem_cons, mem_deleteFile hfile]

theorem filed_write (h : Filed d) (hw : writeFile d place (claimName c.generation) content = some d')
    (hc : ∀ x, ({ name := claimName c.generation, content } : DirEntry).claim = some x → x = c) : Filed d' := by
  obtain ⟨hmem, hperm⟩ := writeFile_some hw
  constructor
  · rw [hperm.pairwise_iff (fun h => Ne.symm h), List.pairwise_cons]
    refine ⟨fun x hx hn => ?_, h.unique.sublist List.filter_sublist⟩
    have hx' : x ∈ d' := hperm.mem_iff.2 (List.mem_cons_of_mem _ hx)
    have hnamed : x.named (claimName c.generation) = true := named_iff.2 hn.symm
    unfold deleteFile at hx
    have hdir := (List.mem_filter.1 hx).2
    rcases (hmem x).1 hx' with rfl | ⟨_, hno⟩
    · rw [hnamed] at hdir
      cases hdir
    · rw [hno] at hnamed
      cases hnamed
  · intro e he x hx
    rcases (hmem e).1 he with rfl | ⟨he, _⟩
    · rw [hc x hx]
      exact claimName_upper _
    · exact h.own e he x hx

theorem build_some {generation : UInt64} (h : build generation p = some c) :
    c = { generation, volume := p.volume, parent := p.parent, stage := p.stage, target := p.target, backup := p.backup,
          identity := p.identity, protocol := p.protocol } := by
  unfold build at h
  have hset : ∀ {cap : Nat} {v w : Bytes}, setField cap v = some w → w = v := by
    intro cap v w hs
    unfold setField at hs
    split at hs
    · cases hs
    · exact (Option.some.inj hs).symm
  obtain ⟨parent, h1, h⟩ := Option.bind_eq_some_iff.1 h
  obtain ⟨stage, h2, h⟩ := Option.bind_eq_some_iff.1 h
  obtain ⟨target, h3, h⟩ := Option.bind_eq_some_iff.1 h
  obtain ⟨backup, h4, h⟩ := Option.bind_eq_some_iff.1 h
  obtain ⟨_, _, h⟩ := Option.bind_eq_some_iff.1 h
  cases h
  rw [hset h1, hset h2, hset h3, hset h4]

theorem serialize_ne_nil {text : Bytes} (h : serialize c = some text) : text ≠ [] ∧ text.length ≤ claimMax := by
  unfold serialize at h
  split at h
  · cases h
  · split at h
    · rename_i hlen
      cases h
      refine ⟨?_, hlen⟩
      unfold claimText line
      simp
    · cases h

theorem writeClaim_some {reuse : UInt64} (h : s.writeClaim p reuse place = some (c, s')) :
    c.generation = (if reuse ≠ 0 then reuse else s.nextGeneration) ∧ c.volume = p.volume ∧ c.parent = p.parent ∧
      c.stage = p.stage ∧ c.target = p.target ∧ c.backup = p.backup ∧ ∃ text, serialize c = some text ∧
        writeFile s.dir place (claimName c.generation) text = some s'.dir := by
  unfold Store.writeClaim at h
  obtain ⟨c', hb, h⟩ := Option.bind_eq_some_iff.1 h
  obtain ⟨text, ht, h⟩ := Option.bind_eq_some_iff.1 h
  obtain ⟨dir, hw, h⟩ := Option.bind_eq_some_iff.1 h
  cases h
  have hc := build_some hb
  rw [hc]
  refine ⟨rfl, rfl, rfl, rfl, rfl, rfl, text, ?_, hw⟩
  rw [← hc]
  exact ht

theorem claim_written {text : Bytes} (ht : serialize c = some text) (hp : c.plain = true) :
    ({ name := claimName c.generation, content := text } : DirEntry).claim = some c := by
  obtain ⟨hne, hlen⟩ := serialize_ne_nil ht
  unfold DirEntry.claim
  rw [if_neg Bool.false_ne_true, if_neg (by rw [not_or]; exact ⟨hne, Nat.not_lt.2 hlen⟩)]
  exact parse_serialize ht hp

end Write

/-! ## The invariant -/

/-- **Every live claim is in the directory, and no two share a name.** -/
structure Store.Kept (s : Store) : Prop where
  filed : Filed s.dir
  present : ∀ c ∈ s.live, ∃ e ∈ s.dir, e.claim = some c
  plain : ∀ c ∈ s.live, c.plain = true
  apart : s.live.Pairwise (fun a b => claimName a.generation ≠ claimName b.generation)

section Kept

variable {s : Store} {p : Publish} {generation : UInt64} {place : Nat}

theorem Store.Kept.named (h : s.Kept) {c : Claim} {e : DirEntry} (he : e ∈ s.dir) (hc : e.claim = some c) :
    e.named (claimName c.generation) = true := by
  rw [named_iff, h.filed.own e he c hc, claimName_upper]

theorem Store.Kept.eq_of_name (h : s.Kept) {a b : Claim} (ha : a ∈ s.live) (hb : b ∈ s.live)
    (hn : claimName a.generation = claimName b.generation) : a = b := by
  by_contra hne
  have : Std.Symm (fun a b : Claim => claimName a.generation ≠ claimName b.generation) := ⟨fun _ _ h => h.symm⟩
  exact h.apart.forall ha hb hne hn

theorem kept_boot {a : ReplayAnswers} (h : s.Kept) : (s.step (.boot a)).Kept := by
  have hsweep : sweep (sweepIo a) maxClaims [].length ([] ++ s.dir) = _ := sweep_eq maxClaims (by rw [List.nil_append]; exact h.filed)
  rw [List.length_nil, List.nil_append, List.nil_append] at hsweep
  have hdir : (s.step (.boot a)).dir = (s.dir.take maxClaims).filter (survives a) ++ s.dir.drop maxClaims :=
    congrArg Prod.fst hsweep
  have hsub : ((s.dir.take maxClaims).filter (survives a) ++ s.dir.drop maxClaims).Sublist s.dir := by
    conv_rhs => rw [← List.take_append_drop maxClaims s.dir]
    exact List.filter_sublist.append (List.Sublist.refl _)
  refine ⟨by rw [hdir]; exact h.filed.sublist hsub, fun c hc => ?_, fun c hc => h.plain c (List.mem_filter.1 hc).1,
    h.apart.sublist List.filter_sublist⟩
  obtain ⟨hlive, hend⟩ := List.mem_filter.1 hc
  obtain ⟨e, he, hec⟩ := h.present c hlive
  refine ⟨e, ?_, hec⟩
  rw [hdir, List.mem_append]
  rw [← List.take_append_drop maxClaims s.dir, List.mem_append] at he
  rcases he with he | he
  · left
    rw [List.mem_filter]
    refine ⟨he, ?_⟩
    unfold survives
    rw [hec]
    by_contra hterm
    have hseen : (recoverBeforeRuntime a s.dir).2.any (fun t => t.1 == c && t.2.terminal) = true := by
      unfold recoverBeforeRuntime
      rw [hsweep, List.any_eq_true]
      refine ⟨(c, outcome a c), List.mem_filterMap.2 ⟨e, he, by rw [hec]; rfl⟩, ?_⟩
      rw [beq_self_eq_true, Bool.true_and]
      simpa using hterm
    rw [hseen] at hend
    cases hend
  · exact .inr he

theorem kept_begin (h : s.Kept) (hm : s.Meets (.beginPublish p place)) : (s.step (.beginPublish p place)).Kept := by
  unfold Store.step
  cases hw : s.writeClaim p 0 place with
  | none =>
    simp only [hw]
    exact h
  | some r =>
    obtain ⟨c, s'⟩ := r
    simp only [hw]
    obtain ⟨hgen, _, hparent, hstage, htarget, hbackup, text, ht, hfile⟩ := writeClaim_some hw
    rw [if_neg (by decide)] at hgen
    obtain ⟨hfree, htexts⟩ := hm
    rw [← hgen] at hfree
    have hp : c.plain = true := by
      unfold Claim.plain
      rw [hparent, hstage, htarget, hbackup, List.all_eq_true]
      exact fun x hx => by simpa using htexts x hx
    have hwritten := claim_written ht hp
    obtain ⟨hmem, _⟩ := writeFile_some hfile
    refine ⟨filed_write h.filed hfile (fun x hx => Option.some.inj (hx.symm.trans hwritten)), ?_, ?_, ?_⟩
    · intro x hx
      rcases List.mem_cons.1 hx with rfl | hx
      · exact ⟨_, (hmem _).2 (.inl rfl), hwritten⟩
      · obtain ⟨e, he, hec⟩ := h.present x hx
        exact ⟨e, (hmem e).2 (.inr ⟨he, hfree e he⟩), hec⟩
    · intro x hx
      rcases List.mem_cons.1 hx with rfl | hx
      · exact hp
      · exact h.plain x hx
    · refine List.pairwise_cons.2 ⟨fun x hx hn => ?_, h.apart⟩
      obtain ⟨e, he, hec⟩ := h.present x hx
      have hnamed := h.named he hec
      rw [← hn, hfree e he] at hnamed
      cases hnamed

theorem kept_refresh (h : s.Kept) (hm : s.Meets (.refreshIdentity p generation place)) :
    (s.step (.refreshIdentity p generation place)).Kept := by
  unfold Store.step
  by_cases hzero : generation = 0
  · simp only [hzero, if_true]
    exact h
  simp only [hzero, if_false]
  cases hw : s.writeClaim p generation place with
  | none => exact h
  | some r =>
    obtain ⟨c, s'⟩ := r
    dsimp only
    obtain ⟨hgen, _, hparent, hstage, htarget, hbackup, text, ht, hfile⟩ := writeClaim_some hw
    rw [if_pos hzero] at hgen
    obtain ⟨o, ho, hog, _, h1, h2, h3, h4⟩ := hm
    have hp : c.plain = true := by
      have := h.plain o ho
      unfold Claim.plain at this ⊢
      rw [hparent, hstage, htarget, hbackup, ← h1, ← h2, ← h3, ← h4]
      exact this
    have hwritten := claim_written ht hp
    obtain ⟨hmem, _⟩ := writeFile_some hfile
    -- a live claim that is not the refreshed one has another name
    have hother : ∀ x ∈ s.live, x.generation ≠ generation → claimName x.generation ≠ claimName generation := by
      intro x hx hne hn
      rw [← hog] at hn
      have := h.eq_of_name hx ho hn
      rw [this] at hne
      exact hne hog
    refine ⟨filed_write h.filed hfile (fun x hx => Option.some.inj (hx.symm.trans hwritten)), ?_, ?_, ?_⟩
    · intro x hx
      obtain ⟨y, hy, rfl⟩ := List.mem_map.1 hx
      by_cases hyg : y.generation = generation
      · rw [if_pos hyg]
        exact ⟨_, (hmem _).2 (.inl rfl), hwritten⟩
      · rw [if_neg hyg]
        obtain ⟨e, he, hec⟩ := h.present y hy
        refine ⟨e, (hmem e).2 (.inr ⟨he, ?_⟩), hec⟩
        by_contra hn
        have hn := named_iff.1 (by simpa using hn : e.named (claimName c.generation) = true)
        rw [h.filed.own e he y hec, claimName_upper, hgen] at hn
        exact hother y hy hyg hn
    · intro x hx
      obtain ⟨y, hy, rfl⟩ := List.mem_map.1 hx
      by_cases hyg : y.generation = generation
      · rw [if_pos hyg]; exact hp
      · rw [if_neg hyg]; exact h.plain y hy
    · refine List.pairwise_map.2 (h.apart.imp (fun {x y} hxy => ?_))
      have hname : ∀ z : Claim, claimName (if z.generation = generation then c else z).generation = claimName z.generation := by
        intro z
        by_cases hz : z.generation = generation
        · rw [if_pos hz, hgen, hz]
        · rw [if_neg hz]
      rw [hname, hname]
      exact hxy

theorem kept_retire (h : s.Kept) (hm : s.Meets (.retire generation)) : (s.step (.retire generation)).Kept := by
  unfold Store.step
  by_cases hzero : generation = 0
  · simp only [hzero, if_true]
    exact h
  simp only [hzero, if_false]
  refine ⟨h.filed.sublist List.filter_sublist, fun c hc => ?_, fun c hc => h.plain c (List.mem_filter.1 hc).1,
    h.apart.sublist List.filter_sublist⟩
  obtain ⟨hlive, hne⟩ := List.mem_filter.1 hc
  obtain ⟨e, he, hec⟩ := h.present c hlive
  refine ⟨e, List.mem_filter.2 ⟨he, ?_⟩, hec⟩
  cases hn : e.named (claimName generation) with
  | false => rfl
  | true =>
    have hn := named_iff.1 hn
    rw [h.filed.own e he c hec, claimName_upper] at hn
    rw [hm c hlive hn] at hne
    simp at hne

end Kept

/-- The start of a run: no claim is live yet; the directory may hold records of earlier runs and other entries. -/
structure Store.Fresh (s : Store) : Prop where
  filed : Filed s.dir
  live : s.live = []

/-- **Live claims are kept where every call meets the condition**: each is in the directory under its own name and parses
to itself, no two share a file name, and a sweep attempts every valid claim. -/
theorem claims_kept (start s : Store) (h0 : start.Fresh) (h : Runs start s) :
    (∀ c ∈ s.live, ∃ e ∈ s.dir, e.named (claimName c.generation) = true ∧ e.claim = some c) ∧
    s.live.Pairwise (fun a b => claimName a.generation ≠ claimName b.generation) ∧
    ∀ a, s.Meets (.boot a) → ∀ e ∈ s.dir, ∀ c, e.claim = some c → c ∈ (recoverBeforeRuntime a s.dir).2.map (·.1) := by
  have hkept : s.Kept := by
    induction h with
    | start =>
      refine ⟨h0.filed, fun c hc => ?_, fun c hc => ?_, ?_⟩
      · rw [h0.live] at hc; cases hc
      · rw [h0.live] at hc; cases hc
      · rw [h0.live]; exact List.Pairwise.nil
    | step call _ hm ih =>
      cases call with
      | boot a => exact kept_boot ih
      | beginPublish p place => exact kept_begin ih hm
      | refreshIdentity p generation place => exact kept_refresh ih hm
      | retire generation => exact kept_retire ih hm
  refine ⟨fun c hc => ?_, hkept.apart, fun a hm e he c hc => ?_⟩
  · obtain ⟨e, he, hec⟩ := hkept.present c hc
    exact ⟨e, he, hkept.named he hec, hec⟩
  · have hsweep : sweep (sweepIo a) maxClaims [].length ([] ++ s.dir) = _ := sweep_eq maxClaims (by rw [List.nil_append]; exact hkept.filed)
    rw [List.length_nil, List.nil_append, List.nil_append] at hsweep
    unfold recoverBeforeRuntime
    rw [hsweep, List.mem_map]
    rw [← List.take_append_drop maxClaims s.dir, List.mem_append] at he
    rcases he with he | he
    · exact ⟨(c, outcome a c), List.mem_filterMap.2 ⟨e, he, by rw [hc]; rfl⟩, rfl⟩
    · rw [hm e he] at hc
      cases hc

/-- An upload of `target`, staged under `stage`. -/
def upload (stage target : String) : Publish :=
  { volume := 0x1234, parent := ascii "C:\\R4OS\\UPDATE\\INBOX", stage := ascii stage, target := ascii target, backup := []
    identity := { node := 42, generation := 3, size := 8388608 }, protocol := .sftp }

def noClaims : Store := ⟨[], 1, []⟩

theorem noClaims_fresh : noClaims.Fresh := ⟨⟨List.Pairwise.nil, fun _ he => (by cases he)⟩, rfl⟩

/-- A boot on which no claim replays. -/
def failedBoot : ReplayAnswers := ⟨fun _ => .io, fun _ => false, fun _ => false⟩

/-- Two uploads and a boot that replays neither. -/
def twoUploads : Store :=
  ((noClaims.step (.beginPublish (upload "UPLOAD.STG" "PACKAGE.R4U") 0)).step
    (.beginPublish (upload "SECOND.STG" "OTHER.R4U") 1)).step (.boot failedBoot)

theorem twoUploads_meets : let c1 := Call.beginPublish (upload "UPLOAD.STG" "PACKAGE.R4U") 0
    let c2 := Call.beginPublish (upload "SECOND.STG" "OTHER.R4U") 1
    (noClaims.Meets c1 ∧ (noClaims.step c1).Meets c2 ∧ ((noClaims.step c1).step c2).Meets (.boot failedBoot)) ∧
    twoUploads.Meets (.boot failedBoot) ∧ twoUploads.live.map (·.generation) = [2, 1] := by
  unfold Store.Meets
  decide +kernel

theorem twoUploads_runs : Runs noClaims twoUploads := by
  obtain ⟨h1, h2, hboot⟩ := twoUploads_meets.1
  exact .step _ (.step _ (.step _ .start h1) h2) hboot

theorem claims_kept_two : twoUploads.live.map (·.generation) = [2, 1] ∧
    (∀ c ∈ twoUploads.live, ∃ e ∈ twoUploads.dir, e.named (claimName c.generation) = true ∧ e.claim = some c) ∧
    twoUploads.live.Pairwise (fun a b => claimName a.generation ≠ claimName b.generation) ∧
    ∀ e ∈ twoUploads.dir, ∀ c, e.claim = some c → c ∈ (recoverBeforeRuntime failedBoot twoUploads.dir).2.map (·.1) := by
  obtain ⟨hagain, hlive⟩ := twoUploads_meets.2
  obtain ⟨hpresent, hapart, hsweep⟩ := claims_kept noClaims twoUploads noClaims_fresh twoUploads_runs
  exact ⟨hlive, hpresent, hapart, hsweep failedBoot hagain⟩

/-- **A claim that failed to replay is overwritten by the first upload after the boot**: both have generation 1. -/
theorem claims_overwritten :
    let s := [.beginPublish (upload "UPLOAD.STG" "PACKAGE.R4U") 0, .boot failedBoot,
      .beginPublish (upload "SECOND.STG" "OTHER.R4U") 0].foldl Store.step noClaims
    (∃ c ∈ s.live, ∀ e ∈ s.dir, e.claim.all (fun r => r.stage != c.stage) = true) ∧
      ¬ s.live.Pairwise (fun a b => claimName a.generation ≠ claimName b.generation) := by
  decide +kernel

end Upload
end R4
