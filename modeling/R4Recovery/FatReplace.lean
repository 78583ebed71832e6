import R4Recovery.FatListing
/-!
# FatReplace — the ownership transfer of a file

`fat32.replaceFileAtomic`: the old file is published under the backup name, the target's entry is switched to the staged
chain, the staged entry is detached.  What each part leaves behind when it succeeds.
-/
namespace R4
namespace Fat

/-- The results but `io`. -/
inductive AtomicReplaceResult where
  | ok | notFound | invalid | alias | readOnly | conflict | notAtomic
  deriving DecidableEq, Repr

section Replace

variable (env : Env)

/-- The staged entry, if it is still there, is detached. -/
def consumeStage (staged : Bytes) (owner : Entry) : Fs AtomicReplaceResult := do
  let found ← findOptionalEntryLocation env staged
  match found with
  | none => pure .ok
  | some loc =>
    if !sameFileOwnership loc.entry owner then pure .conflict
    else do
      detachEntryNoFree env loc
      flushVolume env
      pure .ok

/-- The target's entry is switched to the staged chain: the visibility point. -/
def switchTarget (target staged : Bytes) (t s : EntryLocation) : Fs AtomicReplaceResult := do
  updateFileLocation env t.index s.entry.firstCluster s.entry.size
  flushVolume env
  let switched ← findEntry env target
  Stateful.refuse (fun _ => !sameFileOwnership switched.entry s.entry) .io
  consumeStage env staged s.entry

/-- The old file under the backup name. -/
def publishBackup (backup : Bytes) (old : Entry) : Fs Unit := do
  createOwnershipAlias env backup old
  flushVolume env
  let published ← findEntry env backup
  Stateful.refuse (fun _ => !sameFileOwnership published.entry old) .io

def transferExisting (target staged backup : Bytes) (t s : EntryLocation) (b : Option EntryLocation) : Fs AtomicReplaceResult :=
  if sameFileOwnership t.entry s.entry then do
    detachEntryNoFree env s
    flushVolume env
    pure .ok
  else match b with
    | some b => if !sameFileOwnership b.entry t.entry then pure .conflict else switchTarget env target staged t s
    | none => do
      publishBackup env backup t.entry
      switchTarget env target staged t s

def transferNew (target staged : Bytes) (s : EntryLocation) (b : Option EntryLocation) : Fs AtomicReplaceResult :=
  if b.isSome then pure .conflict
  else do
    createOwnershipAlias env target s.entry
    flushVolume env
    consumeStage env staged s.entry

def replaceFound (target staged backup : Bytes) (t s b : Option EntryLocation) : Fs AtomicReplaceResult :=
  if t.isNone && !validShortInput target then pure .notAtomic
  else if t.any (fun t => t.entry.isDir || t.entry.isReadOnly) then pure .readOnly
  else if b.any (fun b => b.entry.isDir || b.entry.isReadOnly) then pure .conflict
  else match s with
    | none => pure (if t.isSome then .ok else .notFound)
    | some s =>
      if s.entry.isDir || s.entry.isReadOnly then pure .readOnly
      else match t with
        | some t => transferExisting env target staged backup t s b
        | none => transferNew env target staged s b

def replaceFileAtomic (target staged backup : Bytes) (consume : Bool) : Fs AtomicReplaceResult :=
  if !consume then pure .notAtomic
  else if !validInputName target || !validInputName staged || !validShortInput backup then pure .invalid
  else if eqlIgnoreCase target staged || eqlIgnoreCase target backup || eqlIgnoreCase staged backup then pure .alias
  else do
    let t ← findOptionalEntryLocation env target
    let s ← findOptionalEntryLocation env staged
    let b ← findOptionalEntryLocation env backup
    replaceFound env target staged backup t s b

end Replace

/-! ## What the parts leave behind -/

variable {env : Env} {w w' : World} {v : Volume} {es : List EntryLocation} {name : Bytes}

theorem request_ok {u : Unit} (h : request env w = (.ok u, w')) : w'.volume = w.volume := by
  have hw : (request env w).2 = w' := congrArg Prod.snd h
  rw [← hw]
  rfl

theorem change_ok {f : Volume → Volume} {u : Unit} (h : change env f w = (.ok u, w')) : w'.volume = f w.volume := by
  obtain ⟨_, w1, h1, h2⟩ := Stateful.bind_ok h
  cases h2
  show f w1.volume = f w.volume
  rw [request_ok h1]

theorem find_ok {r : Option EntryLocation} (h : findOptionalEntryLocation env name w = (.ok r, w'))
    (he : w.volume.entries = some es) (hn : validInputName name = true) :
    w'.volume = w.volume ∧ r = es.find? (fun e => e.matches name) := by
  obtain ⟨_, w1, h1, h2⟩ := Stateful.bind_ok h
  obtain ⟨hf, rfl⟩ := Stateful.check_eq h2
  rw [request_ok h1, find_of_entries he hn] at hf
  refine ⟨request_ok h1, ?_⟩
  unfold lookupIn at hf
  cases hfind : es.find? (fun e => e.matches name) with
  | none => rw [hfind] at hf; cases hf; rfl
  | some loc => rw [hfind] at hf; cases hf; rfl

theorem findEntry_ok {loc : EntryLocation} (h : findEntry env name w = (.ok loc, w')) (he : w.volume.entries = some es)
    (hn : validInputName name = true) : w'.volume = w.volume ∧ loc ∈ es ∧ loc.matches name = true := by
  obtain ⟨r, w1, h1, h2⟩ := Stateful.bind_ok h
  obtain ⟨hv, hr⟩ := find_ok h1 he hn
  cases r with
  | none => cases h2
  | some loc' =>
    cases h2
    have hm := List.find?_some hr.symm
    exact ⟨hv, List.mem_of_find?_eq_some hr.symm, hm⟩

theorem reclaim_ok {u : Unit} : ∀ {is : List Nat} {w w' : World}, reclaimSlots env is w = (.ok u, w') →
    w'.volume = is.foldl Volume.deleteSlot w.volume
  | [], w, w', h => by cases h; rfl
  | i :: is, w, w', h => by
    obtain ⟨_, w1, h1, h⟩ := Stateful.bind_ok h
    obtain ⟨_, w2, h2, h⟩ := Stateful.bind_ok h
    rw [reclaim_ok h, request_ok h2, change_ok h1]
    rfl

theorem detach_ok {loc : EntryLocation} {u : Unit} (h : detachEntryNoFree env loc w = (.ok u, w')) :
    w'.volume = w.volume.detached loc := by
  obtain ⟨_, w1, h1, h⟩ := Stateful.bind_ok h
  unfold Volume.detached
  cases hl : loc.lfnSlots with
  | nil =>
    rw [hl] at h
    cases h
    exact change_ok h1
  | cons k ks =>
    rw [hl] at h
    obtain ⟨_, w2, h2, h⟩ := Stateful.bind_ok h
    rw [reclaim_ok h, request_ok h2, change_ok h1]

theorem update_ok {i cluster size : Nat} {u : Unit} (h : updateFileLocation env i cluster size w = (.ok u, w')) :
    ∃ date time, w'.volume = w.volume.relocate i cluster size date time := ⟨_, _, change_ok h⟩

/-! ## New entries -/

/-- Every slot has thirty-two bytes. -/
def Sized (v : Volume) : Prop := ∀ raw ∈ v.slots, raw.length = 32

/-- Behind the end mark every slot is free. -/
def Ended (v : Volume) : Prop := ∀ pre f post, v.slots = pre ++ f :: post → Slot.first f = 0 → ∀ x ∈ post, Slot.first x = 0

/-- The table is unchanged but for the directory's own clusters and clusters that were free. -/
structure Frame (v v' : Volume) : Prop where
  clusterEnd : v'.clusterEnd = v.clusterEnd
  fat : ∀ c, v.fat c ≠ 0 → c ∉ v.chain → v'.fat c = v.fat c
  chain : ∀ c ∈ v'.chain, c ∈ v.chain ∨ v.fat c = 0

theorem frame_of_eq {v v' : Volume} (he : v'.clusterEnd = v.clusterEnd) (hf : v'.fat = v.fat) (hc : v'.chain = v.chain) :
    Frame v v' := ⟨he, fun _ _ _ => by rw [hf], fun c h => .inl (hc ▸ h)⟩

theorem Frame.refl (v : Volume) : Frame v v := frame_of_eq rfl rfl rfl

theorem Frame.trans {u v v' : Volume} (h : Frame u v) (g : Frame v v') : Frame u v' where
  clusterEnd := g.clusterEnd.trans h.clusterEnd
  fat := by
    intro c hc hout
    have hv := h.fat c hc hout
    refine (g.fat c (by rw [hv]; exact hc) (fun hm => ?_)).trans hv
    rcases h.chain c hm with hm | hz
    · exact hout hm
    · exact hc hz
  chain := by
    intro c hm
    rcases g.chain c hm with hm | hz
    · exact h.chain c hm
    · by_cases hout : c ∈ u.chain
      · exact .inl hout
      · by_cases h0 : u.fat c = 0
        · exact .inr h0
        · rw [h.fat c h0 hout] at hz
          exact absurd hz h0

theorem linkChain_off (fat : Nat → Nat) : ∀ {cs : List Nat} {c : Nat}, c ∉ cs → linkChain fat cs c = fat c
  | [], _, _ => rfl
  | [d], c, h => by
    unfold linkChain
    exact Function.update_of_ne (by simpa using h) _ _
  | d :: e :: rest, c, h => by
    rw [List.mem_cons, not_or] at h
    unfold linkChain
    rw [Function.update_of_ne h.1]
    exact linkChain_off fat h.2

theorem extended_frame {cs : List Nat} (h : ∀ c ∈ cs, v.fat c = 0) : Frame v (v.extended cs) := by
  refine ⟨rfl, ?_, ?_⟩
  · intro c hc hch
    have hcs : c ∉ cs := fun hm => hc (h c hm)
    unfold Volume.extended
    dsimp only
    cases ht : v.chain.getLast? with
    | none => rfl
    | some tail =>
      have hne : c ≠ tail := fun he => hch (he ▸ List.mem_of_getLast? ht)
      cases hf : cs.head? with
      | none => rfl
      | some first =>
        dsimp only
        rw [Function.update_of_ne hne, linkChain_off v.fat hcs]
  · intro c hm
    rcases List.mem_append.1 hm with hm | hm
    · exact .inl hm
    · exact .inr (h c hm)

theorem extend_ok {missing : Nat} {u : Unit} (h : extend env missing w = (.ok u, w')) :
    ∃ cs, w'.volume = w.volume.extended cs ∧ (∀ c ∈ cs, w.volume.fat c = 0) ∧ 16 ≤ w.volume.perCluster ∧
      cs.length = (missing + w.volume.perCluster - 1) / w.volume.perCluster := by
  unfold extend at h
  dsimp only at h
  split at h
  · cases h
  · rename_i hr
    simp only [Bool.or_eq_true, not_or, decide_eq_true_eq, Bool.not_eq_true', Bool.not_eq_false, Nat.not_lt,
      Volume.allocatable, Bool.and_eq_true, beq_iff_eq, List.all_eq_true] at hr
    obtain ⟨_, w1, h1, h⟩ := Stateful.bind_ok h
    obtain ⟨_, w2, h2, h⟩ := Stateful.bind_ok h
    refine ⟨_, ?_, fun c hc => (hr.1.2.2 c hc).2, hr.1.1.1.1.1.1, hr.1.2.1.1⟩
    rw [request_ok h, change_ok h2, request_ok h1]

theorem writeSlots_one {i : Nat} {raw : Slot} {u : Unit} (h : writeDirectorySlots env ([i].zip [raw]) w = (.ok u, w')) :
    w'.volume = w.volume.setSlot i raw := by
  obtain ⟨_, w1, h1, h⟩ := Stateful.bind_ok h
  cases h
  exact change_ok h1

/-- A volume with one entry more. -/
structure Added (v v' : Volume) (es : List EntryLocation) (new : EntryLocation) : Prop where
  listed : ∃ es', v'.entries = some es' ∧ ∀ e, e ∈ es' ↔ e = new ∨ e ∈ es
  fresh : new ∉ es
  sized : Sized v'
  frame : Frame v v'

theorem mem_insert {α : Type} {a b : List α} {x e : α} : e ∈ a ++ x :: b ↔ e = x ∨ e ∈ a ++ b := by
  simp only [List.mem_append, List.mem_cons]
  constructor
  · rintro (h | h | h)
    · exact .inr (.inl h)
    · exact .inl h
    · exact .inr (.inr h)
  · rintro (h | h | h)
    · exact .inr (.inl h)
    · exact .inl h
    · exact .inr (.inr h)

theorem added_of_insert {pre post : List Slot} {f raw : Slot} {es1 : List EntryLocation} {new : EntryLocation} {v' : Volume}
    (hslots : v'.slots = pre ++ f :: post) (he : v'.entries = some es) (hw : walk v'.clusterEnd pre 0 {} [] = some (es1, {}, []))
    (hf : f.free = true) (hend : f.first = 0 → ∀ x ∈ post, Slot.first x = 0) (hsized : Sized v') (hraw : raw.length = 32)
    (hv : visit v'.clusterEnd raw pre.length {} [] = .entry new) (hframe : Frame v v') :
    Added v (v'.setSlot pre.length raw) es new := by
  unfold Volume.entries at he
  rw [hslots] at he
  obtain ⟨es2, rfl, hl⟩ := list_insert he hw hf hend hv
  have hset : (v'.setSlot pre.length raw).slots = pre ++ raw :: post := by
    unfold Volume.setSlot
    dsimp only
    rw [hslots, set_middle]
  have hlist : (v'.setSlot pre.length raw).entries = some (es1 ++ new :: es2) := by
    unfold Volume.entries
    rw [hset]
    exact hl
  obtain ⟨hn1, hn2⟩ := entries_split hlist
  refine ⟨⟨es1 ++ new :: es2, hlist, fun e => mem_insert⟩, ?_, ?_, ⟨hframe.clusterEnd, hframe.fat, hframe.chain⟩⟩
  · intro hm
    rcases List.mem_append.1 hm with hm | hm
    · exact hn1 hm
    · exact hn2 hm
  · intro x hx
    rw [hset] at hx
    rcases mem_insert.1 hx with rfl | hx
    · exact hraw
    · exact hsized x (by rw [hslots]; exact mem_insert.2 (.inr hx))

theorem scan_ok {needed : Nat} {free : FreeSlots} (h : (Stateful.check (fun w : World =>
    (scanFree needed w.volume.slots 0 {} [] [] []).elim (.error .io) .ok) : Fs FreeSlots) w = (.ok free, w')) :
    w' = w ∧ scanFree needed w.volume.slots 0 {} [] [] [] = some free := by
  obtain ⟨hs, rfl⟩ := Stateful.check_eq h
  refine ⟨rfl, ?_⟩
  cases hf : scanFree needed w.volume.slots 0 {} [] [] [] with
  | none => rw [hf] at hs; cases hs
  | some f => rw [hf] at hs; cases hs; rfl

theorem slots_enough {needed : Nat} {free : FreeSlots} {run : List Nat} (hf : free.enough = true)
    (h : directorySlots env needed free w = (.ok run, w')) : run = free.run ∧ w' = w := by
  unfold directorySlots at h
  rw [if_pos hf] at h
  cases h
  exact ⟨rfl, rfl⟩

theorem slots_grown {free : FreeSlots} {run : List Nat} (hf : free.enough = false) (hrun : free.run = [])
    (h : directorySlots env 1 free w = (.ok run, w')) : run = [w.volume.slots.length] ∧
      ∃ c, w'.volume = w.volume.extended [c] ∧ w.volume.fat c = 0 ∧ 16 ≤ w.volume.perCluster := by
  unfold directorySlots at h
  rw [if_neg (by rw [hf]; decide), hrun] at h
  obtain ⟨_, w1, h1, h⟩ := Stateful.bind_ok h
  cases h
  obtain ⟨cs, hv, hfree, hper, hlen⟩ := extend_ok h1
  have hone : cs.length = 1 := by
    rw [hlen]
    exact (congrArg (· / w.volume.perCluster) (by simp)).trans (Nat.div_self (by omega))
  obtain ⟨c, rfl⟩ := List.length_eq_one_iff.1 hone
  exact ⟨rfl, c, hv, hfree c List.mem_cons_self, hper⟩

theorem walk_reclaimed {n : Nat} {front longs : List Slot} {es1 : List EntryLocation} {s1 : LfnState} {ps1 : List Nat}
    (hw : walk n (front ++ longs) 0 {} [] = some (es1, s1, ps1)) (hp : Pending s1 ps1) (hlong : ∀ l ∈ longs, Slot.Long l)
    (hps : ps1 = List.range' front.length longs.length) :
    ∃ es0, walk n (front ++ longs.map deletedSlot) 0 {} [] = some (es0, {}, []) := by
  by_cases hnil : longs = []
  · subst hnil
    have hps : ps1 = [] := hps
    subst hps
    rw [hp.none] at hw
    exact ⟨es1, hw⟩
  · rw [walk_append] at hw
    obtain ⟨⟨es0, s0, ps0⟩, h0, _⟩ := Option.bind_eq_some_iff.1 hw
    refine ⟨es0 ++ [], ?_⟩
    rw [walk_append, h0]
    show Option.map _ (walk n (longs.map deletedSlot) (0 + front.length) s0 ps0) = _
    rw [walk_deleted hnil hlong]
    rfl

theorem sized_reclaimed {front longs post : List Slot} (h : ∀ x ∈ front ++ longs ++ post, List.length x = 32) :
    ∀ x ∈ front ++ longs.map deletedSlot ++ post, List.length x = 32 := by
  intro x hx
  simp only [List.mem_append, List.mem_map] at hx
  rcases hx with (hx | ⟨l, hl, rfl⟩) | hx
  · exact h x (by simp [hx])
  · rw [deletedSlot, List.length_set]
    exact h l (by simp [hl])
  · exact h x (by simp [hx])

/-- **A new 8.3 entry** goes to the first free slot behind reclaimed orphans, or to a new cluster. -/
theorem write_ok {raw : Slot} {u : Unit} (h : writeDirectoryEntries env [raw] w = (.ok u, w')) (he : w.volume.entries = some es)
    (hsized : Sized w.volume) (hended : Ended w.volume) (hraw : raw.length = 32)
    (hv : ∀ i, ∃ new, visit w.volume.clusterEnd raw i {} [] = .entry new) :
    ∃ i new, visit w.volume.clusterEnd raw i {} [] = .entry new ∧ Added w.volume w'.volume es new := by
  obtain ⟨_, w1, h1, ha⟩ := Stateful.bind_ok h
  obtain ⟨free, w2, h2, hb⟩ := Stateful.bind_ok ha
  obtain ⟨_, w3, h3, hc⟩ := Stateful.bind_ok hb
  obtain ⟨run, w4, h4, hwrite⟩ := Stateful.bind_ok hc
  obtain ⟨hw2, hscan⟩ := scan_ok h2
  have hv1 := request_ok h1
  have hv3 := reclaim_ok h3
  rw [hw2, hv1] at hv3
  rw [hv1] at hscan
  rcases scanFree_one (.inl ⟨rfl, rfl⟩) he hscan with
    ⟨henough, pre, f, post, es1, s1, ps1, hslots, hf, hw, hrun, hrec⟩ | ⟨henough, hrun, hrec, hw⟩
  · obtain ⟨hp, front, longs, rfl, hlong, hps⟩ := walk_pending pre hw
    obtain ⟨hr, hw4⟩ := slots_enough henough h4
    rw [hr, hrun, Nat.zero_add] at hwrite
    have hv4 := writeSlots_one hwrite
    rw [hrec, hps, deleteSlots_run longs _ (f :: post) hslots] at hv3
    obtain ⟨es0, hw0⟩ := walk_reclaimed hw hp hlong hps
    have hlen : (front ++ longs.map deletedSlot).length = (front ++ longs).length := by simp
    obtain ⟨new, hnew⟩ := hv (front ++ longs.map deletedSlot).length
    refine ⟨_, new, hnew, ?_⟩
    rw [hv4, hw4, hv3, ← hlen]
    refine added_of_insert rfl ?_ hw0 hf (hended _ f post hslots) (sized_reclaimed ?_) hraw hnew (frame_of_eq rfl rfl rfl)
    · unfold Volume.entries at he
      rw [hslots] at he
      exact list_reclaim longs hlong hf he
    · rw [← hslots]
      exact hsized
  · obtain ⟨hr, c, hv4, hfree, hper⟩ := slots_grown henough hrun h4
    rw [hrec] at hv3
    have hv3 : w3.volume = w.volume := hv3
    rw [hv3] at hr hv4 hfree hper
    rw [hr] at hwrite
    have hv5 := writeSlots_one hwrite
    obtain ⟨new, hnew⟩ := hv w.volume.slots.length
    refine ⟨_, new, hnew, ?_⟩
    rw [hv5, hv4]
    obtain ⟨m, hm⟩ : ∃ m, [c].length * w.volume.perCluster = m + 1 := ⟨w.volume.perCluster - 1, by simp; omega⟩
    have hext : (w.volume.extended [c]).slots = w.volume.slots ++ zeroSlot :: List.replicate m zeroSlot := by
      unfold Volume.extended
      dsimp only
      rw [hm, List.replicate_succ]
    have hzero : zeroSlot.first = 0 := rfl
    refine added_of_insert hext ?_ hw (by simp [Slot.free, hzero]) ?_ ?_ hraw hnew
      (extended_frame (by simpa using hfree))
    · unfold Volume.entries
      rw [hext, ← List.append_nil es]
      exact list_of_walk hw (list_visit_stop (visit_end hzero))
    · intro _ x hx
      rw [List.eq_of_mem_replicate hx]
      exact hzero
    · intro x hx
      rw [hext] at hx
      rcases mem_insert.1 hx with rfl | hx
      · rfl
      · rcases List.mem_append.1 hx with hx | hx
        · exact hsized x hx
        · rw [List.eq_of_mem_replicate hx]
          rfl

/-! ## Ownership aliases -/

theorem validInput_of_short (h : validShortInput name = true) : validInputName name = true := by
  unfold validInputName
  rw [h]
  rfl

/-- **An ownership alias** is one entry more, for the same file, under a name that was not there. -/
theorem alias_ok {e : Entry} {u : Unit} (h : createOwnershipAlias env name e w = (.ok u, w')) (he : w.volume.entries = some es)
    (hsized : Sized w.volume) (hended : Ended w.volume) (hsound : Sound w.volume.clusterEnd e) :
    ∃ short new, buildShortName name = some short ∧ Aliases e short new.index new ∧ Added w.volume w'.volume es new := by
  obtain ⟨existing, w1, h1, hrest⟩ := Stateful.bind_ok h
  cases hshort : buildShortName name with
  | none =>
    rw [hshort] at hrest
    cases existing <;> cases hrest
  | some short =>
    have hn : validInputName name = true := validInput_of_short (by rw [validShortInput, hshort]; rfl)
    obtain ⟨hv1, _⟩ := find_ok h1 he hn
    rw [hshort] at hrest
    cases existing with
    | some loc => cases hrest
    | none =>
      rw [← hv1] at he hsized hended hsound
      obtain ⟨i, new, hnew, hadded⟩ := write_ok hrest he hsized hended (length_aliasSlot (length_buildShortName hshort) e)
        (fun i => (visit_alias hshort hsound i).imp (fun _ h => h.1))
      obtain ⟨loc, hloc, ha⟩ := visit_alias hshort hsound i
      rw [hnew] at hloc
      cases hloc
      rw [hv1] at hadded
      exact ⟨short, new, rfl, ⟨rfl, ha.name, ha.shortName, ha.attr, ha.cluster, ha.size⟩, hadded⟩

theorem eqlIgnoreCase_upper (a b : Bytes) : eqlIgnoreCase (a.map toUpper) b = eqlIgnoreCase a b := by
  unfold eqlIgnoreCase
  rw [List.map_map, show toUpper ∘ toUpper = toUpper from funext toUpper_toUpper]

theorem alias_matches {e : Entry} {short : Bytes} {i : Nat} {new : EntryLocation} (ha : Aliases e short i new) (x : Bytes) :
    new.matches x = eqlIgnoreCase (shortNameToBuffer short) x := by
  unfold EntryLocation.matches
  rw [ha.name, ha.shortName, Bool.or_self]

theorem alias_named {e : Entry} {short : Bytes} {i : Nat} {new : EntryLocation} (ha : Aliases e short i new)
    (hshort : buildShortName name = some short) (hdot : name.getLast? ≠ some 46) (x : Bytes) :
    new.matches x = eqlIgnoreCase name x := by
  rw [alias_matches ha, (text_buildShortName hshort).1 hdot, eqlIgnoreCase_upper]

theorem alias_dotted {e : Entry} {short : Bytes} {i : Nat} {new : EntryLocation} (ha : Aliases e short i new)
    (hshort : buildShortName name = some short) (hdot : name.getLast? = some 46) : new.matches name = false := by
  rw [alias_matches ha, (text_buildShortName hshort).2 hdot, eqlIgnoreCase_upper]
  by_contra hne
  have heq := congrArg List.length ((eqlIgnoreCase_iff _ _).1 (by simpa using hne))
  have hpos : name ≠ [] := by rintro rfl; cases hdot
  have hlen := List.length_pos_of_ne_nil hpos
  simp at heq
  omega

end Fat
end R4
