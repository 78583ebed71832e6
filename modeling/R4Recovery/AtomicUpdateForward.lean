import R4Recovery.AtomicUpdate
/-!
# AtomicUpdateForward — the forward transition from every state it passes

From the start and from each durable state on the way, the forward transition passes the states that are left and ends
with the new file under the target and, where there was an old file, the old one under the backup.
-/
namespace R4
namespace AtomicUpdate

variable {N : Type} {spec : Spec} {d : Dir N} {target stage backup name : N} {t s b f : File} {now : Nat}

/-! ## Fingerprints -/

def Spec.isNew (spec : Spec) (f : File) : Prop := f.size = spec.newSize ∧ f.checksum = spec.newChecksum

def Spec.isOld (spec : Spec) (f : File) : Prop :=
  spec.oldKnown = true ∧ ¬ spec.isNew f ∧ f.size = spec.oldSize ∧ f.checksum = spec.oldChecksum

theorem observe_none (h : d name = none) : observe spec d name = {} := by
  unfold observe
  rw [h]

theorem observe_new (h : d name = some f) (hf : spec.isNew f) : observe spec d name = { entry := some f, content := .new } := by
  unfold observe
  rw [h]
  simp only [Observed.mk.injEq, true_and]
  exact if_pos hf

theorem observe_old (h : d name = some f) (hf : spec.isOld f) : observe spec d name = { entry := some f, content := .old } := by
  obtain ⟨hk, hn, ho⟩ := hf
  have hn : ¬ (f.size = spec.newSize ∧ f.checksum = spec.newChecksum) := hn
  unfold observe
  rw [h]
  simp only [Observed.mk.injEq, true_and]
  rw [if_neg hn, if_pos ⟨hk, ho⟩]

theorem observing_bind {α : Type} (f : Observed × Observed × Observed → Update N α) (d : Dir N) :
    (observing spec target stage backup >>= f) d =
      f (observe spec d target, observe spec d stage, observe spec d backup) d := rfl

/-! ## Identity -/

theorem sameFileOwnership_of_identity (h : sameFileRecoveryIdentity t s = true) : sameFileOwnership t s = true := by
  unfold sameFileRecoveryIdentity at h
  unfold sameFileOwnership
  simp only [Bool.or_eq_true, Bool.and_eq_true, beq_iff_eq] at h ⊢
  rcases h with h | h
  · exact ⟨h.1.2, h.2⟩
  · exact ⟨h.1.1.1.1.1.trans h.1.1.1.1.2.symm, h.1.1.1.2.trans h.1.1.2.symm⟩

theorem sameFileOwnership_symm (h : sameFileOwnership t s = true) : sameFileOwnership s t = true := by
  unfold sameFileOwnership at h ⊢
  simp only [Bool.and_eq_true, beq_iff_eq] at h ⊢
  exact ⟨h.1.symm, h.2.symm⟩

theorem identity_self (f : File) : sameFileRecoveryIdentity f f = true := by
  unfold sameFileRecoveryIdentity
  by_cases h : f.content = []
  · have hc := f.placed.2 h
    have hs : f.size = 0 := by rw [File.size, h]; rfl
    simp [hc, hs]
  · have hc : f.cluster ≠ 0 := fun hc => h (f.placed.1 hc)
    have hs : f.size ≠ 0 := fun hs => h (List.length_eq_zero_iff.1 hs)
    simp [hc, hs]

/-! ## Directories -/

variable [DecidableEq N]

@[simp] theorem set_self (d : Dir N) (name : N) (f : Option File) : d.set name f name = f := by simp [Dir.set]

theorem set_other {other : N} (h : other ≠ name) (d : Dir N) (f : Option File) : d.set name f other = d other := by
  simp [Dir.set, h]

/-! ## The checks in front -/

/-- The names are three, the stage and the backup short or allowed to be long. -/
structure Named (short : N → Bool) (spec : Spec) (target stage backup : N) : Prop where
  stageOk : short stage = true ∨ spec.longStage = true
  backupOk : short backup = true
  targetStage : target ≠ stage
  targetBackup : target ≠ backup
  stageBackup : stage ≠ backup

variable {short : N → Bool}

theorem transition_create (hn : Named short spec target stage backup) (he : spec.targetExisted = false)
    (hk : spec.oldKnown = false) (hok : createStateAllowed (observe spec d target) (observe spec d stage) (observe spec d backup) = true) :
    transition short now target stage backup .forward spec d =
      finishCreateForward now target stage backup (observe spec d target, observe spec d stage, observe spec d backup) spec d := by
  unfold transition
  rw [Crashing.refuse_bind (by rcases hn.stageOk with h | h <;> simp [h, hn.backupOk]), Crashing.refuse_bind (by simp),
    Crashing.refuse_bind (by simp [hn.targetStage, hn.targetBackup, hn.stageBackup]), Crashing.refuse_bind (by simp [hk])]
  rw [observing_bind, he]
  exact Crashing.refuse_bind (by rw [hok]; rfl)

theorem transition_existing (hn : Named short spec target stage backup) (he : spec.targetExisted = true)
    (hk : spec.oldKnown = true) (hok : existingStateAllowed spec (observe spec d target) (observe spec d stage) (observe spec d backup) = true) :
    transition short now target stage backup .forward spec d =
      finishExistingForward now target stage backup (observe spec d target, observe spec d stage, observe spec d backup) spec d := by
  unfold transition
  rw [Crashing.refuse_bind (by rcases hn.stageOk with h | h <;> simp [h, hn.backupOk]), Crashing.refuse_bind (by simp),
    Crashing.refuse_bind (by simp [hn.targetStage, hn.targetBackup, hn.stageBackup]), Crashing.refuse_bind (by simp [he])]
  rw [observing_bind, he, hk]
  exact Crashing.refuse_bind (by rw [hok]; rfl)

variable (now) in
theorem create_done (hn : Named short spec target stage backup) (he : spec.targetExisted = false) (hk : spec.oldKnown = false)
    (ht : d target = some t) (hnew : spec.isNew t) (hs : d stage = none) (hb : d backup = none) :
    transition short now target stage backup .forward spec d = ([], .ok (), d) := by
  have o1 : observe spec d target = _ := observe_new ht hnew
  have o2 : observe spec d stage = _ := observe_none hs
  have o3 : observe spec d backup = _ := observe_none hb
  rw [transition_create hn he hk (by rw [o1, o2, o3]; rfl), o1, o2, o3]
  unfold finishCreateForward
  refine Crashing.bind_run (p := []) (t := d) rfl ?_
  rw [observing_bind, o1, o2, o3]
  rfl

/-! ## The ownership transfer -/

theorem replace_create (ht : d target = none) (hs : d stage = some s) (hb : d backup = none) :
    replaceFileAtomic now target stage backup d =
      ([d.set target (some s), (d.set target (some s)).set stage none], .ok (), (d.set target (some s)).set stage none) := by
  unfold replaceFileAtomic
  refine (Crashing.read_bind (a := (none, some s, none)) (by rw [ht, hs, hb])).trans ?_
  rfl

theorem replace_same (ht : d target = some t) (hs : d stage = some s) (h : sameFileOwnership t s = true) :
    replaceFileAtomic now target stage backup d = ([d.set stage none], .ok (), d.set stage none) := by
  unfold replaceFileAtomic
  refine (Crashing.read_bind (a := (some t, some s, d backup)) (by rw [ht, hs])).trans ?_
  dsimp only
  rw [if_pos h]
  rfl

theorem replace_backed (ht : d target = some t) (hs : d stage = some s) (hb : d backup = some b)
    (h : sameFileOwnership t s = false) (hbt : sameFileOwnership b t = true) :
    replaceFileAtomic now target stage backup d =
      ([d.set target (some (t.switched s now)), (d.set target (some (t.switched s now))).set stage none], .ok (),
        (d.set target (some (t.switched s now))).set stage none) := by
  unfold replaceFileAtomic
  refine (Crashing.read_bind (a := (some t, some s, some b)) (by rw [ht, hs, hb])).trans ?_
  dsimp only
  rw [if_neg (by rw [h]; decide), if_neg (by rw [hbt]; decide)]
  rfl

theorem replace_full (ht : d target = some t) (hs : d stage = some s) (hb : d backup = none)
    (h : sameFileOwnership t s = false) :
    replaceFileAtomic now target stage backup d =
      ([d.set backup (some t), (d.set backup (some t)).set target (some (t.switched s now)),
          ((d.set backup (some t)).set target (some (t.switched s now))).set stage none], .ok (),
        ((d.set backup (some t)).set target (some (t.switched s now))).set stage none) := by
  unfold replaceFileAtomic
  refine (Crashing.read_bind (a := (some t, some s, none)) (by rw [ht, hs, hb])).trans ?_
  dsimp only
  rw [if_neg (by rw [h]; decide)]
  rfl

/-! ## Creating a file -/

section Create

variable (hn : Named short spec target stage backup) (he : spec.targetExisted = false) (hk : spec.oldKnown = false)
  {p : List (Dir N)} {d' : Dir N}

include hn he hk

theorem create_run (hs : d stage = some s) (hnew : spec.isNew s)
    (hok : createStateAllowed (observe spec d target) (observe spec d stage) (observe spec d backup) = true)
    (hrun : replaceFileAtomic now target stage backup d = (p, .ok (), d')) (ht' : d' target = some t) (htn : spec.isNew t)
    (hs' : d' stage = none) (hb' : d' backup = none) :
    transition short now target stage backup .forward spec d = (p, .ok (), d') := by
  have hcheck : (observing spec target stage backup >>= fun o => Crashing.refuse
      (o.1.content != .new || o.2.1.content != .missing || o.2.2.content != .missing) .conflict : Update N Unit) d' =
      ([], .ok (), d') := by
    rw [observing_bind, observe_new ht' htn, observe_none hs', observe_none hb']
    rfl
  rw [transition_create hn he hk hok]
  unfold finishCreateForward Crashing.unlessDone
  rw [observe_new hs hnew, if_neg (by simp)]
  refine (Crashing.bind_run hrun hcheck).trans ?_
  rw [List.append_nil]

variable (now) in
/-- **Creating from the start.** -/
theorem create_start (ht : d target = none) (hs : d stage = some s) (hnew : spec.isNew s) (hb : d backup = none) :
    transition short now target stage backup .forward spec d =
      ([d.set target (some s), (d.set target (some s)).set stage none], .ok (), (d.set target (some s)).set stage none) := by
  refine create_run hn he hk hs hnew ?_ (replace_create ht hs hb) (t := s) ?_ hnew (set_self _ _ _) ?_
  · rw [observe_none ht, observe_new hs hnew, observe_none hb]
    rfl
  · rw [set_other hn.targetStage, set_self]
  · rw [set_other hn.stageBackup.symm, set_other hn.targetBackup.symm, hb]

variable (now) in
theorem create_published (ht : d target = some t) (htn : spec.isNew t) (hs : d stage = some s) (hnew : spec.isNew s)
    (hid : sameFileRecoveryIdentity t s = true) (hb : d backup = none) :
    transition short now target stage backup .forward spec d = ([d.set stage none], .ok (), d.set stage none) := by
  refine create_run hn he hk hs hnew ?_ (replace_same ht hs (sameFileOwnership_of_identity hid)) (t := t) ?_ htn (set_self _ _ _) ?_
  · rw [observe_new ht htn, observe_new hs hnew, observe_none hb]
    exact hid
  · rw [set_other hn.targetStage, ht]
  · rw [set_other hn.stageBackup.symm, hb]

end Create

/-! ## Replacing a file -/

section Existing

variable (hn : Named short spec target stage backup) (he : spec.targetExisted = true)
  {p : List (Dir N)} {d' : Dir N}

include hn he

theorem existing_run (hs : d stage = some s) (hnew : spec.isNew s)
    (hok : existingStateAllowed spec (observe spec d target) (observe spec d stage) (observe spec d backup) = true)
    (hrun : replaceFileAtomic now target stage backup d = (p, .ok (), d')) (ht' : d' target = some t) (htn : spec.isNew t)
    (hs' : d' stage = none) (hb' : d' backup = some b) (hbo : spec.isOld b) :
    transition short now target stage backup .forward spec d = (p, .ok (), d') := by
  have hcheck : (verifyExistingTerminal target stage backup .forward spec : Update N Unit) d' = ([], .ok (), d') := by
    unfold verifyExistingTerminal
    rw [observing_bind, observe_new ht' htn, observe_none hs', observe_old hb' hbo]
    rfl
  rw [transition_existing hn he hbo.1 hok]
  unfold finishExistingForward Crashing.unlessDone
  rw [observe_new hs hnew, if_neg (by simp)]
  refine (Crashing.bind_run hrun hcheck).trans ?_
  rw [List.append_nil]

variable (now) in
/-- **Replacing from the start.** -/
theorem existing_start (ht : d target = some t) (hto : spec.isOld t) (hs : d stage = some s) (hnew : spec.isNew s)
    (hb : d backup = none) (hown : sameFileOwnership t s = false) :
    transition short now target stage backup .forward spec d =
      ([d.set backup (some t), (d.set backup (some t)).set target (some (t.switched s now)),
          ((d.set backup (some t)).set target (some (t.switched s now))).set stage none], .ok (),
        ((d.set backup (some t)).set target (some (t.switched s now))).set stage none) := by
  refine existing_run hn he hs hnew ?_ (replace_full ht hs hb hown) (t := t.switched s now) (b := t) ?_ hnew (set_self _ _ _) ?_ hto
  · rw [observe_old ht hto, observe_new hs hnew, observe_none hb, existingStateAllowed, hto.1]
    rfl
  · rw [set_other hn.targetStage, set_self]
  · rw [set_other hn.stageBackup.symm, set_other hn.targetBackup.symm, set_self]

variable (now) in
theorem existing_backed (ht : d target = some t) (hto : spec.isOld t) (hs : d stage = some s) (hnew : spec.isNew s)
    (hb : d backup = some b) (hbo : spec.isOld b) (hid : sameFileRecoveryIdentity t b = true)
    (hown : sameFileOwnership t s = false) :
    transition short now target stage backup .forward spec d =
      ([d.set target (some (t.switched s now)), (d.set target (some (t.switched s now))).set stage none], .ok (),
        (d.set target (some (t.switched s now))).set stage none) := by
  have hbt := sameFileOwnership_symm (sameFileOwnership_of_identity hid)
  refine existing_run hn he hs hnew ?_ (replace_backed ht hs hb hown hbt) (t := t.switched s now) (b := b) ?_ hnew
    (set_self _ _ _) ?_ hbo
  · rw [observe_old ht hto, observe_new hs hnew, observe_old hb hbo, existingStateAllowed, hto.1]
    exact hid
  · rw [set_other hn.targetStage, set_self]
  · rw [set_other hn.stageBackup.symm, set_other hn.targetBackup.symm, hb]

variable (now) in
theorem existing_switched (ht : d target = some t) (htn : spec.isNew t) (hs : d stage = some s) (hnew : spec.isNew s)
    (hid : sameFileRecoveryIdentity t s = true) (hb : d backup = some b) (hbo : spec.isOld b) :
    transition short now target stage backup .forward spec d = ([d.set stage none], .ok (), d.set stage none) := by
  refine existing_run hn he hs hnew ?_ (replace_same ht hs (sameFileOwnership_of_identity hid)) (t := t) (b := b) ?_ htn
    (set_self _ _ _) ?_ hbo
  · rw [observe_new ht htn, observe_new hs hnew, observe_old hb hbo, existingStateAllowed, hbo.1]
    simpa [sameIfBoth] using hid
  · rw [set_other hn.targetStage, ht]
  · rw [set_other hn.stageBackup.symm, hb]

end Existing

end AtomicUpdate
end R4
