import R4Recovery.FatReplace
/-!
# FatReplaceSafe — when the ownership transfer keeps the target

In a directory with unique names and unshared chains the transfer does what it says exactly when the names it is given
stand for different entries: names are compared as texts, but resolved through long names and 8.3 names.
-/
namespace R4
namespace Fat

variable {v v' : Volume} {es es' : List EntryLocation} {name : Bytes} {a b e : EntryLocation}

/-! ## Chains -/

/-- Clusters that follow one another in the table up to its end mark. -/
def IsChain (fat : Nat → Nat) : List Nat → Prop
  | [] => False
  | [c] => fatValueIsEoc (fat c) = true
  | c :: d :: rest => fat c = d ∧ d ≠ 0 ∧ fatValueIsEoc d = false ∧ IsChain fat (d :: rest)

theorem IsChain.ne_zero {fat : Nat → Nat} : ∀ {cs : List Nat}, IsChain fat cs → ∀ c ∈ cs, fat c ≠ 0
  | [c], h, x, hx => by
    rw [List.mem_singleton.1 hx]
    intro h0
    unfold IsChain at h
    rw [h0] at h
    cases h
  | c :: d :: rest, h, x, hx => by
    obtain ⟨h1, h2, _, h4⟩ := h
    rcases List.mem_cons.1 hx with rfl | hx
    · rw [h1]; exact h2
    · exact IsChain.ne_zero h4 x hx

theorem IsChain.congr {fat fat' : Nat → Nat} : ∀ {cs : List Nat}, IsChain fat cs → (∀ c ∈ cs, fat' c = fat c) → IsChain fat' cs
  | [c], h, hf => by
    unfold IsChain at h ⊢
    rw [hf c List.mem_cons_self]
    exact h
  | c :: d :: rest, h, hf => by
    obtain ⟨h1, h2, h3, h4⟩ := h
    exact ⟨(hf c List.mem_cons_self).trans h1, h2, h3, h4.congr (fun x hx => hf x (List.mem_cons_of_mem _ hx))⟩

theorem IsChain.unique {fat : Nat → Nat} : ∀ {cs ds : List Nat}, IsChain fat cs → IsChain fat ds → cs.head? = ds.head? → cs = ds
  | [c], [d], _, _, h => by
    rw [List.head?_cons, List.head?_cons] at h
    rw [Option.some.inj h]
  | [c], d :: d' :: ds, hc, hd, h => by
    rw [List.head?_cons, List.head?_cons] at h
    obtain ⟨h1, _, h3, _⟩ := hd
    unfold IsChain at hc
    rw [Option.some.inj h, h1, h3] at hc
    cases hc
  | c :: c' :: cs, [d], hc, hd, h => by
    rw [List.head?_cons, List.head?_cons] at h
    obtain ⟨h1, _, h3, _⟩ := hc
    unfold IsChain at hd
    rw [← Option.some.inj h, h1, h3] at hd
    cases hd
  | c :: c' :: cs, d :: d' :: ds, hc, hd, h => by
    rw [List.head?_cons, List.head?_cons] at h
    obtain ⟨h1, _, _, h4⟩ := hc
    obtain ⟨g1, _, _, g4⟩ := hd
    have hcd := Option.some.inj h
    subst hcd
    have hnext : c' = d' := h1.symm.trans g1
    subst hnext
    rw [IsChain.unique h4 g4 rfl]

/-- The cluster chain of a file that is not empty. -/
structure Volume.ChainOf (v : Volume) (e : Entry) (cs : List Nat) : Prop where
  ne_zero : e.firstCluster ≠ 0
  head : cs.head? = some e.firstCluster
  chain : IsChain v.fat cs

theorem Volume.ChainOf.unique {e : Entry} {cs ds : List Nat} (h : v.ChainOf e cs) (g : v.ChainOf e ds) : cs = ds :=
  h.chain.unique g.chain (h.head.trans g.head.symm)

/-- No cluster is in the chains of two entries. -/
def Unshared (v : Volume) (es : List EntryLocation) : Prop :=
  ∀ a ∈ es, ∀ b ∈ es, ∀ cs ds c, v.ChainOf a.entry cs → v.ChainOf b.entry ds → c ∈ cs → c ∈ ds → a = b

/-- **A directory with unique names and unshared chains.** -/
structure Volume.Directory (v : Volume) (es : List EntryLocation) : Prop where
  listed : v.entries = some es
  sized : Sized v
  ended : Ended v
  unique : ∀ a ∈ es, ∀ b ∈ es, ∀ name, a.matches name = true → b.matches name = true → a = b
  chained : ∀ e ∈ es, e.entry.firstCluster ≠ 0 → ∃ cs, v.ChainOf e.entry cs ∧ ∀ c ∈ cs, c ∉ v.chain
  unshared : Unshared v es

/-- The file an entry held is held by an entry of the new volume, its chain as it was. -/
structure Holds (v v' : Volume) (e e' : Entry) : Prop where
  cluster : e'.firstCluster = e.firstCluster
  size : e'.size = e.size
  chain : ∀ cs, v.ChainOf e cs → v'.ChainOf e' cs

section Directory

variable (hd : v.Directory es)

include hd

theorem Volume.Directory.cluster_unique (ha : a ∈ es) (hb : b ∈ es) (h : a.entry.firstCluster = b.entry.firstCluster)
    (hne : a.entry.firstCluster ≠ 0) : a = b := by
  obtain ⟨cs, hcs, _⟩ := hd.chained a ha hne
  obtain ⟨ds, hds, _⟩ := hd.chained b hb (h ▸ hne)
  have hca : a.entry.firstCluster ∈ cs := List.mem_of_head? hcs.head
  have hcb : a.entry.firstCluster ∈ ds := h ▸ List.mem_of_head? hds.head
  exact hd.unshared a ha b hb cs ds _ hcs hds hca hcb

theorem Volume.Directory.chain_kept (hf : Frame v v') (he : e ∈ es) {e' : Entry} (hc : e'.firstCluster = e.entry.firstCluster)
    {cs : List Nat} (h : v.ChainOf e.entry cs) : v'.ChainOf e' cs := by
  obtain ⟨ds, hds, hout⟩ := hd.chained e he h.ne_zero
  have hcd := h.unique hds
  subst hcd
  refine ⟨by rw [hc]; exact h.ne_zero, by rw [hc]; exact h.head, h.chain.congr (fun c hm => ?_)⟩
  exact hf.fat c (h.chain.ne_zero c hm) (hout c hm)

theorem Volume.Directory.holds (hf : Frame v v') (he : e ∈ es) {e' : Entry} (hc : e'.firstCluster = e.entry.firstCluster)
    (hs : e'.size = e.entry.size) : Holds v v' e.entry e' := ⟨hc, hs, fun _ h => hd.chain_kept hf he hc h⟩

/-- **Chains stay unshared** where the entries own chains of the old directory, each its own. -/
theorem Volume.Directory.unshared_of (hf : Frame v v')
    (hold : ∀ e ∈ es', e.entry.firstCluster ≠ 0 → ∃ o ∈ es, o.entry.firstCluster = e.entry.firstCluster)
    (hown : ∀ a ∈ es', ∀ b ∈ es', a.entry.firstCluster = b.entry.firstCluster → a.entry.firstCluster ≠ 0 → a = b) :
    Unshared v' es' := by
  intro a ha b hb cs ds c hcs hds hca hcb
  obtain ⟨oa, hoa, ea⟩ := hold a ha hcs.ne_zero
  obtain ⟨ob, hob, eb⟩ := hold b hb hds.ne_zero
  obtain ⟨cs', hcs', _⟩ := hd.chained oa hoa (ea ▸ hcs.ne_zero)
  obtain ⟨ds', hds', _⟩ := hd.chained ob hob (eb ▸ hds.ne_zero)
  have h1 := (hd.chain_kept hf hoa ea.symm hcs').unique hcs
  have h2 := (hd.chain_kept hf hob eb.symm hds').unique hds
  subst h1 h2
  have hab := hd.unshared oa hoa ob hob _ _ c hcs' hds' hca hcb
  subst hab
  exact hown a ha b hb (ea.symm.trans eb) hcs.ne_zero

end Directory

/-! ## Lookups -/

theorem lookupIn_found (h : lookupIn es name = .found e) : e ∈ es ∧ e.matches name = true := by
  unfold lookupIn at h
  cases hf : es.find? (fun e => e.matches name) with
  | none => rw [hf] at h; cases h
  | some loc =>
    rw [hf] at h
    cases h
    have hm := List.find?_some hf
    exact ⟨List.mem_of_find?_eq_some hf, hm⟩

theorem lookupIn_none : lookupIn es name = .notFound ↔ ∀ e ∈ es, e.matches name = false := by
  unfold lookupIn
  cases hf : es.find? (fun e => e.matches name) with
  | none =>
    rw [List.find?_eq_none] at hf
    exact ⟨fun _ e he => by simpa using hf e he, fun _ => rfl⟩
  | some loc =>
    have hm := List.find?_some hf
    refine ⟨fun h => (by cases h), fun h => ?_⟩
    rw [h loc (List.mem_of_find?_eq_some hf)] at hm
    cases hm

theorem find_of_unique (he : e ∈ es) (hm : e.matches name = true) (hu : ∀ x ∈ es, x.matches name = true → x = e) :
    es.find? (fun e => e.matches name) = some e := by
  cases hf : es.find? (fun e => e.matches name) with
  | none =>
    rw [List.find?_eq_none] at hf
    exact absurd hm (hf e he)
  | some loc =>
    have hm := List.find?_some hf
    rw [hu loc (List.mem_of_find?_eq_some hf) hm]

theorem lookupIn_unique (he : e ∈ es) (hm : e.matches name = true) (hu : ∀ x ∈ es, x.matches name = true → x = e) :
    lookupIn es name = .found e := by
  unfold lookupIn
  rw [find_of_unique he hm hu]

/-! ## The parts of the transfer -/

/-- The volume lists the entries of which `P` holds. -/
structure Final (v v' : Volume) (P : EntryLocation → Prop) : Prop where
  frame : Frame v v'
  listed : ∃ es', v'.entries = some es' ∧ ∀ e, e ∈ es' ↔ P e

theorem final_detached {w : Volume} (hf : Frame v w) (hl : w.entries = some es') (hm : a ∈ es') :
    Final v (w.detached a) (fun e => e ∈ es' ∧ e ≠ a) := by
  obtain ⟨es2, h2, hmem, hfat, hend, hchain⟩ := entries_detached hl hm
  exact ⟨hf.trans (frame_of_eq hend hfat hchain), es2, h2, hmem⟩

variable {env : Env} {w w' : World} {r : AtomicReplaceResult} {target staged backup : Bytes}

theorem consume_ok {owner : Entry} {l : EntryLocation} (h : consumeStage env staged owner w = (.ok r, w'))
    (he : w.volume.entries = some es) (hn : validInputName staged = true)
    (hl : es.find? (fun e => e.matches staged) = some l) (hs : sameFileOwnership l.entry owner = true) :
    r = .ok ∧ w'.volume = w.volume.detached l := by
  obtain ⟨found, w1, h1, hrest⟩ := Stateful.bind_ok h
  obtain ⟨hv1, hfound⟩ := find_ok h1 he hn
  rw [hl] at hfound
  subst hfound
  have hrest : (if !sameFileOwnership l.entry owner then pure .conflict
    else do
      detachEntryNoFree env l
      flushVolume env
      pure .ok : Fs AtomicReplaceResult) w1 = (.ok r, w') := hrest
  rw [if_neg (by rw [hs]; decide)] at hrest
  obtain ⟨_, w2, h2, hrest⟩ := Stateful.bind_ok hrest
  obtain ⟨_, w3, h3, hrest⟩ := Stateful.bind_ok hrest
  cases hrest
  exact ⟨rfl, by rw [request_ok h3, detach_ok h2, hv1]⟩

theorem sameFileOwnership_self {e : Entry} (h : e.isDir = false) : sameFileOwnership e e = true := by
  simp [sameFileOwnership, h]

theorem placeValid_of_sound {n : Nat} {e : Entry} (h : Sound n e) (hf : e.isDir = false) :
    placeValid n e.firstCluster e.size = true := by
  rw [← entryClusterValid_file hf]
  exact h.valid

theorem switch_ok {t s : EntryLocation} (h : switchTarget env target staged t s w = (.ok r, w'))
    (he : w.volume.entries = some es) (hsized : Sized w.volume) (ht : t ∈ es) (hs : s ∈ es) (hne : t ≠ s)
    (htf : t.entry.isDir = false) (hsf : s.entry.isDir = false) (htn : validInputName target = true)
    (hsn : validInputName staged = true) (hsm : s.matches staged = true) (hsu : ∀ x ∈ es, x.matches staged = true → x = s) :
    r = .ok ∧ ∃ t', Moved t t' s.entry.firstCluster s.entry.size ∧
      Final w.volume w'.volume (fun e => (e = t' ∨ (e ∈ es ∧ e ≠ t)) ∧ e ≠ s) := by
  have hsound := entries_sound he hs
  obtain ⟨_, w1, h1, hrest⟩ := Stateful.bind_ok h
  obtain ⟨_, w2, h2, hrest⟩ := Stateful.bind_ok hrest
  obtain ⟨switched, w3, h3, hrest⟩ := Stateful.bind_ok hrest
  obtain ⟨_, w4, h4, hrest⟩ := Stateful.bind_ok hrest
  obtain ⟨date, time, hv1⟩ := update_ok h1
  obtain ⟨es2, t', hl, hmoved, hmem⟩ := entries_relocated date time hsound.cluster hsound.size
    (placeValid_of_sound hsound hsf) he ht rfl hsized htf
  rw [← hv1, ← request_ok h2] at hl
  obtain ⟨hv3, _⟩ := findEntry_ok h3 hl htn
  obtain ⟨_, rfl⟩ := Stateful.refuse_ok h4
  rw [← hv3] at hl
  have hs2 : s ∈ es2 := (hmem s).2 (.inr ⟨hs, hne.symm⟩)
  have hfind : es2.find? (fun e => e.matches staged) = some s := by
    refine find_of_unique hs2 hsm (fun x hx hxm => ?_)
    rcases (hmem x).1 hx with rfl | ⟨hx, _⟩
    · rw [hmoved.matches] at hxm
      exact absurd (hsu t ht hxm) hne
    · exact hsu x hx hxm
  obtain ⟨hr, hv'⟩ := consume_ok hrest hl hsn hfind (sameFileOwnership_self hsf)
  have hframe : Frame w.volume w3.volume := by
    rw [hv3, request_ok h2, hv1]
    exact frame_of_eq rfl rfl rfl
  have hfinal := final_detached hframe hl hs2
  rw [← hv'] at hfinal
  refine ⟨hr, t', hmoved, hfinal.frame, ?_⟩
  obtain ⟨es3, h3l, h3m⟩ := hfinal.listed
  exact ⟨es3, h3l, fun e => by rw [h3m, hmem]⟩

/-! ## The transfers -/

/-- The result of a transfer from a directory whose entries under the names are `t`, `s` and `b`. -/
inductive Transferred (v v' : Volume) (es : List EntryLocation) (target staged backup : Bytes) (s : EntryLocation) :
    Option EntryLocation → Option EntryLocation → Prop
  | same {t : EntryLocation} {b : Option EntryLocation} (hs : sameFileOwnership t.entry s.entry = true)
      (hfin : Final v v' (fun e => e ∈ es ∧ e ≠ s)) : Transferred v v' es target staged backup s (some t) b
  | backed {t t' b : EntryLocation} (hs : sameFileOwnership t.entry s.entry = false)
      (hb : sameFileOwnership b.entry t.entry = true) (hmoved : Moved t t' s.entry.firstCluster s.entry.size)
      (hfin : Final v v' (fun e => (e = t' ∨ (e ∈ es ∧ e ≠ t)) ∧ e ≠ s)) :
      Transferred v v' es target staged backup s (some t) (some b)
  | full {t t' new : EntryLocation} (hs : sameFileOwnership t.entry s.entry = false)
      (hmoved : Moved t t' s.entry.firstCluster s.entry.size) (hcluster : new.entry.firstCluster = t.entry.firstCluster)
      (hsize : new.entry.size = t.entry.size) (hnew : new ∉ es) (hnamed : ∀ x, new.matches x = eqlIgnoreCase backup x)
      (hfin : Final v v' (fun e => (e = t' ∨ ((e = new ∨ e ∈ es) ∧ e ≠ t)) ∧ e ≠ s)) :
      Transferred v v' es target staged backup s (some t) none
  | created {new l : EntryLocation} (hcluster : new.entry.firstCluster = s.entry.firstCluster)
      (hsize : new.entry.size = s.entry.size) (hnew : new ∉ es)
      (hnamed : target.getLast? ≠ some 46 → ∀ x, new.matches x = eqlIgnoreCase target x)
      (hdotted : target.getLast? = some 46 → new.matches target = false) (hl : l = new ∨ l = s) (hlm : l.matches staged = true)
      (hfin : Final v v' (fun e => (e = new ∨ e ∈ es) ∧ e ≠ l)) :
      Transferred v v' es target staged backup s none none

/-- The names of a transfer. -/
structure Named (target staged backup : Bytes) : Prop where
  targetValid : validInputName target = true
  stagedValid : validInputName staged = true
  backupShort : validShortInput backup = true
  targetStaged : eqlIgnoreCase target staged = false
  targetBackup : eqlIgnoreCase target backup = false
  stagedBackup : eqlIgnoreCase staged backup = false

section Transfer

variable {t s : EntryLocation} (hd : w.volume.Directory es) (hnames : Named target staged backup) (hs : s ∈ es)
  (hsm : s.matches staged = true) (hsf : s.entry.isDir = false)

include hd hnames hs hsm hsf

/-- **The transfer over an existing target.** -/
theorem transferExisting_ok {b : Option EntryLocation} (h : transferExisting env target staged backup t s b w = (.ok r, w'))
    (ht : t ∈ es) (htf : t.entry.isDir = false) (hb : b = es.find? (fun e => e.matches backup)) :
    (r = .ok ∧ Transferred w.volume w'.volume es target staged backup s (some t) b) ∨ (r ≠ .ok ∧ w'.volume = w.volume) := by
  have hsu : ∀ x ∈ es, x.matches staged = true → x = s := fun x hx hxm => hd.unique x hx s hs staged hxm hsm
  unfold transferExisting at h
  by_cases hsame : sameFileOwnership t.entry s.entry = true
  · rw [if_pos hsame] at h
    obtain ⟨_, w1, h1, hrest⟩ := Stateful.bind_ok h
    obtain ⟨_, w2, h2, hrest⟩ := Stateful.bind_ok hrest
    cases hrest
    have hfin := final_detached (Frame.refl w.volume) hd.listed hs
    rw [← detach_ok h1, ← request_ok h2] at hfin
    exact .inl ⟨rfl, .same hsame hfin⟩
  · rw [if_neg hsame] at h
    have hsame : sameFileOwnership t.entry s.entry = false := by simpa using hsame
    have hne : t ≠ s := by
      rintro rfl
      rw [sameFileOwnership_self htf] at hsame
      cases hsame
    cases b with
    | some b =>
      dsimp only at h
      by_cases hbt : sameFileOwnership b.entry t.entry = true
      · rw [if_neg (by rw [hbt]; decide)] at h
        obtain ⟨hr, t', hmoved, hfin⟩ := switch_ok h hd.listed hd.sized ht hs hne htf hsf hnames.targetValid hnames.stagedValid hsm hsu
        exact .inl ⟨hr, .backed hsame hbt hmoved hfin⟩
      · rw [if_pos (by simpa using hbt)] at h
        cases h
        exact .inr ⟨by decide, rfl⟩
    | none =>
      dsimp only at h
      obtain ⟨_, w1, hpub, hswitch⟩ := Stateful.bind_ok h
      obtain ⟨_, w2, h2, hrest⟩ := Stateful.bind_ok hpub
      obtain ⟨_, w3, h3, hrest⟩ := Stateful.bind_ok hrest
      obtain ⟨published, w4, h4, hrest⟩ := Stateful.bind_ok hrest
      obtain ⟨_, rfl⟩ := Stateful.refuse_ok hrest
      obtain ⟨short, new, hshort, ha, hadded⟩ := alias_ok h2 hd.listed hd.sized hd.ended (entries_sound hd.listed ht)
      obtain ⟨es1, hl1, hmem1⟩ := hadded.listed
      have hbn : ∀ x ∈ es, x.matches backup = false := by
        have hnone := List.find?_eq_none.1 hb.symm
        exact fun x hx => by simpa using hnone x hx
      rw [← request_ok h3] at hl1
      obtain ⟨hv4, hpm, hpb⟩ := findEntry_ok h4 hl1 (validInput_of_short hnames.backupShort)
      have hnewm : new.matches backup = true := by
        rcases (hmem1 published).1 hpm with rfl | hp
        · exact hpb
        · rw [hbn published hp] at hpb
          cases hpb
      have hdot : backup.getLast? ≠ some 46 := by
        intro hdot
        rw [alias_dotted ha hshort hdot] at hnewm
        cases hnewm
      have hnamed := alias_named ha hshort hdot
      rw [← hv4] at hl1
      have hv : w4.volume = w2.volume := hv4.trans (request_ok h3)
      have hsu1 : ∀ x ∈ es1, x.matches staged = true → x = s := by
        intro x hx hxm
        rcases (hmem1 x).1 hx with rfl | hx
        · rw [hnamed, eqlIgnoreCase_symm, hnames.stagedBackup] at hxm
          cases hxm
        · exact hsu x hx hxm
      obtain ⟨hr, t', hmoved, hfin⟩ := switch_ok hswitch hl1 (by rw [hv]; exact hadded.sized) ((hmem1 t).2 (.inr ht))
        ((hmem1 s).2 (.inr hs)) hne htf hsf hnames.targetValid hnames.stagedValid hsm hsu1
      refine .inl ⟨hr, .full hsame hmoved ha.cluster ha.size hadded.fresh hnamed ⟨?_, ?_⟩⟩
      · have hframe := hfin.frame
        rw [hv] at hframe
        exact hadded.frame.trans hframe
      · obtain ⟨es2, hl2, hmem2⟩ := hfin.listed
        exact ⟨es2, hl2, fun e => by rw [hmem2, hmem1]⟩

/-- **The transfer to a new target.** -/
theorem transferNew_ok {b : Option EntryLocation} (h : transferNew env target staged s b w = (.ok r, w')) :
    (r = .ok ∧ b = none ∧ Transferred w.volume w'.volume es target staged backup s none none) ∨ (r ≠ .ok ∧ w'.volume = w.volume) := by
  unfold transferNew at h
  cases b with
  | some b =>
    cases h
    exact .inr ⟨by decide, rfl⟩
  | none =>
    rw [if_neg (by decide)] at h
    obtain ⟨_, w1, h1, hrest⟩ := Stateful.bind_ok h
    obtain ⟨_, w2, h2, hrest⟩ := Stateful.bind_ok hrest
    obtain ⟨short, new, hshort, ha, hadded⟩ := alias_ok h1 hd.listed hd.sized hd.ended (entries_sound hd.listed hs)
    obtain ⟨es1, hl1, hmem1⟩ := hadded.listed
    rw [← request_ok h2] at hl1
    -- the new entry may take the staged name when the target's name ends in a dot; it owns the same file
    have hfound : ∃ l, es1.find? (fun e => e.matches staged) = some l ∧ (l = new ∨ l = s) ∧ l.matches staged = true := by
      cases hf : es1.find? (fun e => e.matches staged) with
      | none => exact absurd hsm (List.find?_eq_none.1 hf s ((hmem1 s).2 (.inr hs)))
      | some l =>
        have hm := List.find?_some hf
        refine ⟨l, rfl, ?_, hm⟩
        rcases (hmem1 l).1 (List.mem_of_find?_eq_some hf) with hl | hl
        · exact .inl hl
        · exact .inr (hd.unique l hl s hs staged hm hsm)
    obtain ⟨l, hfind, hl, hlm⟩ := hfound
    have hfile : new.entry.isDir = false := by
      unfold Entry.isDir
      rw [ha.attr]
      exact hsf
    have hsame : sameFileOwnership l.entry s.entry = true := by
      rcases hl with rfl | rfl
      · simp [sameFileOwnership, hfile, hsf, ha.cluster, ha.size]
      · exact sameFileOwnership_self hsf
    obtain ⟨hr, hv'⟩ := consume_ok hrest hl1 hnames.stagedValid hfind hsame
    have hframe : Frame w.volume w2.volume := by
      rw [request_ok h2]
      exact hadded.frame
    have hfin := final_detached hframe hl1 (List.mem_of_find?_eq_some hfind)
    rw [← hv'] at hfin
    refine .inl ⟨hr, rfl, .created ha.cluster ha.size hadded.fresh (fun hdot => alias_named ha hshort hdot)
      (fun hdot => alias_dotted ha hshort hdot) hl hlm ⟨hfin.frame, ?_⟩⟩
    obtain ⟨es2, hl2, hmem2⟩ := hfin.listed
    exact ⟨es2, hl2, fun e => by rw [hmem2, hmem1]⟩

end Transfer

/-! ## What a transfer is for -/

/-- **The transfer kept its promise**: the target has the staged file, the staged name is gone, the old file is under the
backup name, no chain is shared and none of the three files has lost its owner. -/
structure Replaced (v v' : Volume) (target staged backup : Bytes) : Prop where
  missing : findEntryLocationStatus v staged = .notFound → v' = v
  resolves : ∀ s, findEntryLocationStatus v staged = .found s →
    ∃ t, findEntryLocationStatus v' target = .found t ∧ Holds v v' s.entry t.entry
  consumed : findEntryLocationStatus v' staged = .notFound
  kept : ∀ t s, findEntryLocationStatus v target = .found t → findEntryLocationStatus v staged = .found s →
    sameFileOwnership t.entry s.entry = false →
    ∃ b, findEntryLocationStatus v' backup = .found b ∧ Holds v v' t.entry b.entry
  owned : ∃ es', v'.entries = some es' ∧ Unshared v' es' ∧ ∀ name ∈ [target, staged, backup], ∀ e,
    findEntryLocationStatus v name = .found e → e.entry.firstCluster ≠ 0 → ∃ e' ∈ es', Holds v v' e.entry e'.entry

/-- **The names stand for different entries**: target and staged, and target and backup where the old file is kept; and a
target that is not there has a name its entry is found under. -/
structure Separate (v : Volume) (target staged backup : Bytes) : Prop where
  targetStaged : ∀ t s, findEntryLocationStatus v target = .found t → findEntryLocationStatus v staged = .found s →
    t.index ≠ s.index
  targetBackup : ∀ t s b, findEntryLocationStatus v target = .found t → findEntryLocationStatus v staged = .found s →
    findEntryLocationStatus v backup = .found b → sameFileOwnership t.entry s.entry = false → b.index ≠ t.index
  named : ∀ s, findEntryLocationStatus v target = .notFound → findEntryLocationStatus v staged = .found s →
    target.getLast? ≠ some 46

section Final

variable {P : EntryLocation → Prop}

theorem final_found (hfin : Final v v' P) (hn : validInputName name = true) (he : P e) (hm : e.matches name = true)
    (hu : ∀ x, P x → x.matches name = true → x = e) : findEntryLocationStatus v' name = .found e := by
  obtain ⟨es', hl, hmem⟩ := hfin.listed
  rw [find_of_entries hl hn]
  exact lookupIn_unique ((hmem e).2 he) hm (fun x hx => hu x ((hmem x).1 hx))

theorem final_none (hfin : Final v v' P) (hn : validInputName name = true) (hno : ∀ x, P x → x.matches name = false) :
    findEntryLocationStatus v' name = .notFound := by
  obtain ⟨es', hl, hmem⟩ := hfin.listed
  rw [find_of_entries hl hn, lookupIn_none]
  exact fun x hx => hno x ((hmem x).1 hx)

theorem final_of_found (hfin : Final v v' P) (hn : validInputName name = true) (h : findEntryLocationStatus v' name = .found e) :
    P e ∧ e.matches name = true := by
  obtain ⟨es', hl, hmem⟩ := hfin.listed
  rw [find_of_entries hl hn] at h
  obtain ⟨he, hm⟩ := lookupIn_found h
  exact ⟨(hmem e).1 he, hm⟩

theorem final_owned (hd : v.Directory es) (hfin : Final v v' P) {names : List Bytes}
    (hold : ∀ e, P e → e.entry.firstCluster ≠ 0 → ∃ o ∈ es, o.entry.firstCluster = e.entry.firstCluster)
    (hown : ∀ a b, P a → P b → a.entry.firstCluster = b.entry.firstCluster → a.entry.firstCluster ≠ 0 → a = b)
    (hkeep : ∀ e ∈ es, e.entry.firstCluster ≠ 0 →
      ∃ e', P e' ∧ e'.entry.firstCluster = e.entry.firstCluster ∧ e'.entry.size = e.entry.size)
    (hnames : ∀ name ∈ names, validInputName name = true) :
    ∃ es', v'.entries = some es' ∧ Unshared v' es' ∧ ∀ name ∈ names, ∀ e, findEntryLocationStatus v name = .found e →
      e.entry.firstCluster ≠ 0 → ∃ e' ∈ es', Holds v v' e.entry e'.entry := by
  obtain ⟨es', hl, hmem⟩ := hfin.listed
  refine ⟨es', hl, hd.unshared_of hfin.frame (fun e he => hold e ((hmem e).1 he))
    (fun a ha b hb => hown a b ((hmem a).1 ha) ((hmem b).1 hb)), ?_⟩
  intro name hname e hf hne
  rw [find_of_entries hd.listed (hnames name hname)] at hf
  obtain ⟨he, _⟩ := lookupIn_found hf
  obtain ⟨e', hp, hc, hs⟩ := hkeep e he hne
  exact ⟨e', (hmem e').2 hp, hd.holds hfin.frame he hc hs⟩

end Final

theorem sameFileOwnership_place {a b : Entry} (h : sameFileOwnership a b = true) :
    a.firstCluster = b.firstCluster ∧ a.size = b.size := by
  simp only [sameFileOwnership, Bool.and_eq_true, beq_iff_eq] at h
  exact ⟨h.1.2, h.2⟩

theorem sameFileOwnership_of_place {a b : Entry} (ha : a.isDir = false) (hb : b.isDir = false)
    (hc : a.firstCluster = b.firstCluster) (hs : a.size = b.size) : sameFileOwnership a b = true := by
  simp [sameFileOwnership, ha, hb, hc, hs]

section Switched

variable {t t' s : EntryLocation} {M : EntryLocation → Prop}

theorem moved_ne (hd : v.Directory es) (ht : t ∈ es) (hs : s ∈ es) (hne : t ≠ s)
    (hmoved : Moved t t' s.entry.firstCluster s.entry.size) : t' ≠ s := by
  rintro rfl
  exact hne (entries_index hd.listed ht hs hmoved.index.symm)

theorem switched_found (hfin : Final v v' (fun e => (e = t' ∨ (M e ∧ e ≠ t)) ∧ e ≠ s)) (hn : validInputName target = true)
    (hmoved : Moved t t' s.entry.firstCluster s.entry.size) (hne : t' ≠ s) (htm : t.matches target = true)
    (htu : ∀ x, M x → x.matches target = true → x = t) : findEntryLocationStatus v' target = .found t' := by
  refine final_found hfin hn ⟨.inl rfl, hne⟩ (by rw [hmoved.matches]; exact htm) ?_
  rintro x ⟨rfl | hx, _⟩ hm
  · rfl
  · exact absurd (htu x hx.1 hm) hx.2

theorem switched_gone (hfin : Final v v' (fun e => (e = t' ∨ (M e ∧ e ≠ t)) ∧ e ≠ s)) (hn : validInputName staged = true)
    (hmoved : Moved t t' s.entry.firstCluster s.entry.size) (hne : t ≠ s) (ht : M t)
    (hsu : ∀ x, M x → x.matches staged = true → x = s) : findEntryLocationStatus v' staged = .notFound := by
  refine final_none hfin hn ?_
  rintro x ⟨hx, hxs⟩
  by_contra hm
  have hm : x.matches staged = true := by simpa using hm
  rcases hx with rfl | hx
  · rw [hmoved.matches] at hm
    exact hne (hsu t ht hm)
  · exact hxs (hsu x hx.1 hm)

end Switched

section Verdict

variable {t s : EntryLocation} (hd : v.Directory es) (hnames : Named target staged backup)

theorem Named.valid {x : Bytes} (hnames : Named target staged backup) (hx : x ∈ [target, staged, backup]) :
    validInputName x = true := by
  simp only [List.mem_cons, List.not_mem_nil, or_false] at hx
  rcases hx with rfl | rfl | rfl
  · exact hnames.targetValid
  · exact hnames.stagedValid
  · exact validInput_of_short hnames.backupShort

include hd hnames

theorem found_iff {x : Bytes} (hx : x ∈ [target, staged, backup]) :
    findEntryLocationStatus v x = .found e ↔ e ∈ es ∧ e.matches x = true := by
  rw [find_of_entries hd.listed (hnames.valid hx)]
  exact ⟨lookupIn_found, fun h => lookupIn_unique h.1 h.2 (fun y hy hm => hd.unique y hy e h.1 x hm h.2)⟩

theorem notFound_iff {x : Bytes} (hx : x ∈ [target, staged, backup]) :
    findEntryLocationStatus v x = .notFound ↔ ∀ e ∈ es, e.matches x = false := by
  rw [find_of_entries hd.listed (hnames.valid hx)]
  exact lookupIn_none

theorem same_iff (ht : t ∈ es) (htm : t.matches target = true) (hs : s ∈ es) (hsm : s.matches staged = true)
    (hsame : sameFileOwnership t.entry s.entry = true) (hfin : Final v v' (fun e => e ∈ es ∧ e ≠ s)) :
    Replaced v v' target staged backup ↔ Separate v target staged backup := by
  have hft := (found_iff hd hnames (by simp)).2 ⟨ht, htm⟩
  have hfs := (found_iff hd hnames (by simp)).2 ⟨hs, hsm⟩
  obtain ⟨hcluster, hsize⟩ := sameFileOwnership_place hsame
  constructor
  · intro h
    -- were the two one entry, the target would be gone
    have hne : t ≠ s := by
      rintro rfl
      obtain ⟨t', hf, _⟩ := h.resolves t hfs
      obtain ⟨⟨hm, hx⟩, htm'⟩ := final_of_found hfin hnames.targetValid hf
      exact hx (hd.unique t' hm t ht target htm' htm)
    refine ⟨fun t1 s1 h1 h2 hi => ?_, fun t1 s1 b1 h1 h2 _ h4 => ?_, fun s1 h1 => ?_⟩
    · rw [hft] at h1; rw [hfs] at h2
      cases h1; cases h2
      exact hne (entries_index hd.listed ht hs hi)
    · rw [hft] at h1; rw [hfs] at h2
      cases h1; cases h2
      rw [hsame] at h4
      cases h4
    · rw [hft] at h1
      cases h1
  · intro hsep
    have hne : t ≠ s := fun h => hsep.targetStaged t s hft hfs (by rw [h])
    have hzero : s.entry.firstCluster = 0 := by
      by_contra h0
      exact hne (hd.cluster_unique ht hs hcluster (hcluster ▸ h0))
    refine ⟨fun h => ?_, fun s1 h1 => ?_, ?_, fun t1 s1 h1 h2 h3 => ?_, ?_⟩
    · rw [hfs] at h
      cases h
    · rw [hfs] at h1
      cases h1
      exact ⟨t, final_found hfin hnames.targetValid ⟨ht, hne⟩ htm (fun x hx hm => hd.unique x hx.1 t ht target hm htm),
        hd.holds hfin.frame hs hcluster hsize⟩
    · refine final_none hfin hnames.stagedValid (fun x hx => ?_)
      by_contra hm
      exact hx.2 (hd.unique x hx.1 s hs staged (by simpa using hm) hsm)
    · rw [hft] at h1; rw [hfs] at h2
      cases h1; cases h2
      rw [hsame] at h3
      cases h3
    · refine final_owned hd hfin (fun e he _ => ⟨e, he.1, rfl⟩) (fun a b ha hb h hne0 => hd.cluster_unique ha.1 hb.1 h hne0)
        (fun e he h0 => ⟨e, ⟨he, ?_⟩, rfl, rfl⟩) (fun name hname => hnames.valid hname)
      rintro rfl
      exact h0 hzero

theorem backed_iff {t' b : EntryLocation} (ht : t ∈ es) (htm : t.matches target = true) (hs : s ∈ es)
    (hsm : s.matches staged = true) (hb : b ∈ es) (hbm : b.matches backup = true)
    (htf : t.entry.isDir = false) (hsf : s.entry.isDir = false)
    (hts : sameFileOwnership t.entry s.entry = false) (hbt : sameFileOwnership b.entry t.entry = true)
    (hmoved : Moved t t' s.entry.firstCluster s.entry.size)
    (hfin : Final v v' (fun e => (e = t' ∨ (e ∈ es ∧ e ≠ t)) ∧ e ≠ s)) :
    Replaced v v' target staged backup ↔ Separate v target staged backup := by
  have hft := (found_iff hd hnames (by simp)).2 ⟨ht, htm⟩
  have hfs := (found_iff hd hnames (by simp)).2 ⟨hs, hsm⟩
  have hfb := (found_iff hd hnames (by simp)).2 ⟨hb, hbm⟩
  obtain ⟨hcluster, hsize⟩ := sameFileOwnership_place hbt
  have hne : t ≠ s := by
    rintro rfl
    rw [sameFileOwnership_self htf] at hts
    cases hts
  have ht's : t' ≠ s := moved_ne hd ht hs hne hmoved
  constructor
  · intro h
    have hbne : b ≠ t := by
      rintro rfl
      obtain ⟨b', hf, hh⟩ := h.kept b s hft hfs hts
      obtain ⟨⟨hm, _⟩, hbm'⟩ := final_of_found hfin (hnames.valid (by simp)) hf
      rcases hm with rfl | ⟨hm, hx⟩
      · rw [sameFileOwnership_of_place htf hsf (hh.cluster.symm.trans hmoved.cluster) (hh.size.symm.trans hmoved.size)] at hts
        cases hts
      · exact hx (hd.unique b' hm b hb backup hbm' hbm)
    refine ⟨fun t1 s1 h1 h2 hi => ?_, fun t1 s1 b1 h1 h2 h3 _ hi => ?_, fun s1 h1 => ?_⟩
    · rw [hft] at h1; rw [hfs] at h2
      cases h1; cases h2
      exact hne (entries_index hd.listed ht hs hi)
    · rw [hft] at h1; rw [hfb] at h3
      cases h1; cases h3
      exact hbne (entries_index hd.listed hb ht hi)
    · rw [hft] at h1
      cases h1
  · intro hsep
    have hbne : b ≠ t := fun h => hsep.targetBackup t s b hft hfs hfb hts (by rw [h])
    have hbs : b ≠ s := by
      rintro rfl
      rw [sameFileOwnership_of_place htf hsf hcluster.symm hsize.symm] at hts
      cases hts
    have hzero : t.entry.firstCluster = 0 := by
      by_contra h0
      exact hbne (hd.cluster_unique hb ht hcluster (hcluster ▸ h0))
    refine ⟨fun h => ?_, fun s1 h1 => ?_, ?_, fun t1 s1 h1 h2 h3 => ?_, ?_⟩
    · rw [hfs] at h
      cases h
    · rw [hfs] at h1
      cases h1
      exact ⟨t', switched_found hfin hnames.targetValid hmoved ht's htm (fun x hx hm => hd.unique x hx t ht target hm htm),
        hd.holds hfin.frame hs hmoved.cluster hmoved.size⟩
    · exact switched_gone hfin hnames.stagedValid hmoved hne ht (fun x hx hm => hd.unique x hx s hs staged hm hsm)
    · rw [hft] at h1
      cases h1
      refine ⟨b, final_found hfin (hnames.valid (by simp)) ⟨.inr ⟨hb, hbne⟩, hbs⟩ hbm ?_,
        hd.holds hfin.frame ht hcluster hsize⟩
      rintro x ⟨rfl | hx, _⟩ hm
      · rw [hmoved.matches] at hm
        exact absurd (hd.unique b hb t ht backup hbm hm) hbne
      · exact hd.unique x hx.1 b hb backup hm hbm
    · refine final_owned hd hfin ?_ ?_ ?_ (fun name hname => hnames.valid hname)
      · rintro e ⟨rfl | he, _⟩ _
        · exact ⟨s, hs, hmoved.cluster.symm⟩
        · exact ⟨e, he.1, rfl⟩
      · rintro x y ⟨rfl | hx, hxs⟩ ⟨rfl | hy, hys⟩ h h0
        · rfl
        · exact absurd (hd.cluster_unique hy.1 hs (h.symm.trans hmoved.cluster) (h ▸ h0)) hys
        · exact absurd (hd.cluster_unique hx.1 hs (h.trans hmoved.cluster) h0) hxs
        · exact hd.cluster_unique hx.1 hy.1 h h0
      · intro e he h0
        by_cases hes : e = s
        · subst hes
          exact ⟨t', ⟨.inl rfl, ht's⟩, hmoved.cluster, hmoved.size⟩
        · refine ⟨e, ⟨.inr ⟨he, ?_⟩, hes⟩, rfl, rfl⟩
          rintro rfl
          exact h0 hzero

theorem full_replaced {t' new : EntryLocation} (ht : t ∈ es) (htm : t.matches target = true) (hs : s ∈ es)
    (hsm : s.matches staged = true) (hnone : ∀ e ∈ es, e.matches backup = false) (htf : t.entry.isDir = false)
    (hts : sameFileOwnership t.entry s.entry = false) (hmoved : Moved t t' s.entry.firstCluster s.entry.size)
    (hcluster : new.entry.firstCluster = t.entry.firstCluster) (hsize : new.entry.size = t.entry.size) (hnew : new ∉ es)
    (hnamed : ∀ x, new.matches x = eqlIgnoreCase backup x)
    (hfin : Final v v' (fun e => (e = t' ∨ ((e = new ∨ e ∈ es) ∧ e ≠ t)) ∧ e ≠ s)) :
    Replaced v v' target staged backup := by
  have hft := (found_iff hd hnames (by simp)).2 ⟨ht, htm⟩
  have hfs := (found_iff hd hnames (by simp)).2 ⟨hs, hsm⟩
  have hne : t ≠ s := by
    rintro rfl
    rw [sameFileOwnership_self htf] at hts
    cases hts
  have ht's : t' ≠ s := moved_ne hd ht hs hne hmoved
  have hnt : new ≠ t := fun h => hnew (h ▸ ht)
  have hns : new ≠ s := fun h => hnew (h ▸ hs)
  refine ⟨fun h => ?_, fun s1 h1 => ?_, ?_, fun t1 s1 h1 h2 h3 => ?_, ?_⟩
  · rw [hfs] at h
    cases h
  · rw [hfs] at h1
    cases h1
    refine ⟨t', switched_found hfin hnames.targetValid hmoved ht's htm ?_, hd.holds hfin.frame hs hmoved.cluster hmoved.size⟩
    rintro x (rfl | hx) hm
    · rw [hnamed, eqlIgnoreCase_symm, hnames.targetBackup] at hm
      cases hm
    · exact hd.unique x hx t ht target hm htm
  · refine switched_gone hfin hnames.stagedValid hmoved hne (.inr ht) ?_
    rintro x (rfl | hx) hm
    · rw [hnamed, eqlIgnoreCase_symm, hnames.stagedBackup] at hm
      cases hm
    · exact hd.unique x hx s hs staged hm hsm
  · rw [hft] at h1
    cases h1
    refine ⟨new, final_found hfin (hnames.valid (by simp)) ⟨.inr ⟨.inl rfl, hnt⟩, hns⟩
      (by rw [hnamed]; exact eqlIgnoreCase_refl backup) ?_, hd.holds hfin.frame ht hcluster hsize⟩
    rintro x ⟨rfl | ⟨rfl | hx, _⟩, _⟩ hm
    · rw [hmoved.matches, hnone t ht] at hm
      cases hm
    · rfl
    · rw [hnone x hx] at hm
      cases hm
  · refine final_owned hd hfin ?_ ?_ ?_ (fun name hname => hnames.valid hname)
    · rintro e ⟨rfl | ⟨rfl | he, _⟩, _⟩ _
      · exact ⟨s, hs, hmoved.cluster.symm⟩
      · exact ⟨t, ht, hcluster.symm⟩
      · exact ⟨e, he, rfl⟩
    · rintro x y ⟨rfl | ⟨rfl | hx, hxt⟩, hxs⟩ ⟨rfl | ⟨rfl | hy, hyt⟩, hys⟩ h h0
      · rfl
      · exact absurd (hd.cluster_unique hs ht (hmoved.cluster.symm.trans (h.trans hcluster)) (hmoved.cluster ▸ h0)).symm hne
      · exact absurd (hd.cluster_unique hy hs (h.symm.trans hmoved.cluster) (h ▸ h0)) hys
      · exact absurd (hd.cluster_unique ht hs (hcluster.symm.trans (h.trans hmoved.cluster)) (hcluster ▸ h0)) hne
      · rfl
      · exact absurd (hd.cluster_unique hy ht (h.symm.trans hcluster) (h ▸ h0)) hyt
      · exact absurd (hd.cluster_unique hx hs (h.trans hmoved.cluster) h0) hxs
      · exact absurd (hd.cluster_unique hx ht (h.trans hcluster) h0) hxt
      · exact hd.cluster_unique hx hy h h0
    · intro e he h0
      by_cases hes : e = s
      · subst hes
        exact ⟨t', ⟨.inl rfl, ht's⟩, hmoved.cluster, hmoved.size⟩
      by_cases het : e = t
      · subst het
        exact ⟨new, ⟨.inr ⟨.inl rfl, hnt⟩, hns⟩, hcluster, hsize⟩
      exact ⟨e, ⟨.inr ⟨.inr he, het⟩, hes⟩, rfl, rfl⟩

theorem created_iff {new l : EntryLocation} (htarget : ∀ e ∈ es, e.matches target = false) (hs : s ∈ es)
    (hsm : s.matches staged = true) (hcluster : new.entry.firstCluster = s.entry.firstCluster)
    (hsize : new.entry.size = s.entry.size) (hnew : new ∉ es)
    (hnamed : target.getLast? ≠ some 46 → ∀ x, new.matches x = eqlIgnoreCase target x)
    (hdotted : target.getLast? = some 46 → new.matches target = false) (hl : l = new ∨ l = s) (hlm : l.matches staged = true)
    (hfin : Final v v' (fun e => (e = new ∨ e ∈ es) ∧ e ≠ l)) :
    Replaced v v' target staged backup ↔ Separate v target staged backup := by
  have hft := (notFound_iff hd hnames (by simp)).2 htarget
  have hfs := (found_iff hd hnames (by simp)).2 ⟨hs, hsm⟩
  constructor
  · intro h
    refine ⟨fun t1 s1 h1 => ?_, fun t1 s1 b1 h1 => ?_, fun s1 _ _ hdot => ?_⟩
    · rw [hft] at h1
      cases h1
    · rw [hft] at h1
      cases h1
    · obtain ⟨t, hf, _⟩ := h.resolves s hfs
      obtain ⟨⟨hm, _⟩, htm⟩ := final_of_found hfin hnames.targetValid hf
      rcases hm with rfl | hm
      · rw [hdotted hdot] at htm
        cases htm
      · rw [htarget t hm] at htm
        cases htm
  · intro hsep
    have hnamed := hnamed (hsep.named s hft hfs)
    have hls : l = s := by
      rcases hl with rfl | rfl
      · rw [hnamed, hnames.targetStaged] at hlm
        cases hlm
      · rfl
    subst hls
    have hnl : new ≠ l := fun h => hnew (h ▸ hs)
    refine ⟨fun h => ?_, fun s1 h1 => ?_, ?_, fun t1 s1 h1 => ?_, ?_⟩
    · rw [hfs] at h
      cases h
    · rw [hfs] at h1
      cases h1
      refine ⟨new, final_found hfin hnames.targetValid ⟨.inl rfl, hnl⟩ (by rw [hnamed]; exact eqlIgnoreCase_refl target) ?_,
        hd.holds hfin.frame hs hcluster hsize⟩
      rintro x ⟨rfl | hx, _⟩ hm
      · rfl
      · rw [htarget x hx] at hm
        cases hm
    · refine final_none hfin hnames.stagedValid ?_
      rintro x ⟨rfl | hx, hxl⟩
      · rw [hnamed]
        exact hnames.targetStaged
      · by_contra hm
        exact hxl (hd.unique x hx l hs staged (by simpa using hm) hsm)
    · rw [hft] at h1
      cases h1
    · refine final_owned hd hfin ?_ ?_ ?_ (fun name hname => hnames.valid hname)
      · rintro e ⟨rfl | he, _⟩ _
        · exact ⟨l, hs, hcluster.symm⟩
        · exact ⟨e, he, rfl⟩
      · rintro x y ⟨rfl | hx, hxl⟩ ⟨rfl | hy, hyl⟩ h h0
        · rfl
        · exact absurd (hd.cluster_unique hy hs (h.symm.trans hcluster) (h ▸ h0)) hyl
        · exact absurd (hd.cluster_unique hx hs (h.trans hcluster) h0) hxl
        · exact hd.cluster_unique hx hy h h0
      · intro e he _
        by_cases hel : e = l
        · subst hel
          exact ⟨new, ⟨.inl rfl, hnl⟩, hcluster, hsize⟩
        · exact ⟨e, ⟨.inr he, hel⟩, rfl, rfl⟩

theorem full_separate (ht : t ∈ es) (htm : t.matches target = true) (hs : s ∈ es) (hsm : s.matches staged = true)
    (hnone : ∀ e ∈ es, e.matches backup = false) (hne : t ≠ s) : Separate v target staged backup := by
  have hft := (found_iff hd hnames (by simp)).2 ⟨ht, htm⟩
  have hfs := (found_iff hd hnames (by simp)).2 ⟨hs, hsm⟩
  have hfb := (notFound_iff hd hnames (by simp)).2 hnone
  refine ⟨fun t1 s1 h1 h2 hi => ?_, fun t1 s1 b1 _ _ h3 => ?_, fun s1 h1 => ?_⟩
  · rw [hft] at h1; rw [hfs] at h2
    cases h1; cases h2
    exact hne (entries_index hd.listed ht hs hi)
  · rw [hfb] at h3
    cases h3
  · rw [hft] at h1
    cases h1

theorem transferred_iff {o b : Option EntryLocation} (h : Transferred v v' es target staged backup s o b)
    (ho : o = es.find? (fun e => e.matches target)) (hs : s ∈ es) (hsm : s.matches staged = true)
    (hb : b = es.find? (fun e => e.matches backup)) (hof : ∀ t, o = some t → t.entry.isDir = false)
    (hsf : s.entry.isDir = false) : Replaced v v' target staged backup ↔ Separate v target staged backup := by
  cases h with
  | same hsame hfin =>
    have htm := List.find?_some ho.symm
    exact same_iff hd hnames (List.mem_of_find?_eq_some ho.symm) htm hs hsm hsame hfin
  | backed hts hbt hmoved hfin =>
    have htm := List.find?_some ho.symm
    have hbm := List.find?_some hb.symm
    exact backed_iff hd hnames (List.mem_of_find?_eq_some ho.symm) htm hs hsm (List.mem_of_find?_eq_some hb.symm) hbm
      (hof _ rfl) hsf hts hbt hmoved hfin
  | full hts hmoved hcluster hsize hnew hnamed hfin =>
    have htm := List.find?_some ho.symm
    have ht := List.mem_of_find?_eq_some ho.symm
    have hnone : ∀ e ∈ es, e.matches backup = false := fun e he => by simpa using List.find?_eq_none.1 hb.symm e he
    refine iff_of_true (full_replaced hd hnames ht htm hs hsm hnone (hof _ rfl) hts hmoved hcluster hsize hnew hnamed hfin)
      (full_separate hd hnames ht htm hs hsm hnone ?_)
    rintro rfl
    rw [sameFileOwnership_self (hof _ rfl)] at hts
    cases hts
  | created hcluster hsize hnew hnamed hdotted hl hlm hfin =>
    have htarget : ∀ e ∈ es, e.matches target = false := fun e he => by simpa using List.find?_eq_none.1 ho.symm e he
    exact created_iff hd hnames htarget hs hsm hcluster hsize hnew hnamed hdotted hl hlm hfin

theorem unstaged_iff (hnone : ∀ e ∈ es, e.matches staged = false) :
    Replaced v v target staged backup ↔ Separate v target staged backup := by
  have hfs := (notFound_iff hd hnames (by simp)).2 hnone
  refine iff_of_true ⟨fun _ => rfl, fun s1 h1 => ?_, hfs, fun t1 s1 _ h2 => ?_, es, hd.listed, hd.unshared, ?_⟩
    ⟨fun t1 s1 _ h2 => ?_, fun t1 s1 b1 _ h2 => ?_, fun s1 _ h2 => ?_⟩
  · rw [hfs] at h1
    cases h1
  · rw [hfs] at h2
    cases h2
  · intro name hname e hf _
    exact ⟨e, ((found_iff hd hnames hname).1 hf).1, rfl, rfl, fun _ h => h⟩
  · rw [hfs] at h2
    cases h2
  · rw [hfs] at h2
    cases h2
  · rw [hfs] at h2
    cases h2

end Verdict

theorem replaceFound_ok {t s b : Option EntryLocation} (hd : w.volume.Directory es) (hnames : Named target staged backup)
    (h : replaceFound env target staged backup t s b w = (.ok r, w')) (ht : t = es.find? (fun e => e.matches target))
    (hs : s = es.find? (fun e => e.matches staged)) (hb : b = es.find? (fun e => e.matches backup)) :
    (r = .ok ∧ (Replaced w.volume w'.volume target staged backup ↔ Separate w.volume target staged backup)) ∨
      (r ≠ .ok ∧ w'.volume = w.volume) := by
  unfold replaceFound at h
  by_cases h1 : (t.isNone && !validShortInput target) = true
  · rw [if_pos h1] at h
    cases h
    exact .inr ⟨by decide, rfl⟩
  rw [if_neg h1] at h
  by_cases h2 : t.any (fun t => t.entry.isDir || t.entry.isReadOnly) = true
  · rw [if_pos h2] at h
    cases h
    exact .inr ⟨by decide, rfl⟩
  rw [if_neg h2] at h
  by_cases h3 : b.any (fun b => b.entry.isDir || b.entry.isReadOnly) = true
  · rw [if_pos h3] at h
    cases h
    exact .inr ⟨by decide, rfl⟩
  rw [if_neg h3] at h
  have htf : ∀ x, t = some x → x.entry.isDir = false := by
    rintro x rfl
    have := Bool.not_eq_true _ ▸ h2
    simp only [Option.any_some, Bool.or_eq_false_iff] at this
    exact this.1
  cases s with
  | none =>
    have hnone : ∀ e ∈ es, e.matches staged = false := fun e he => by simpa using List.find?_eq_none.1 hs.symm e he
    cases h
    cases t with
    | none => exact .inr ⟨by decide, rfl⟩
    | some t => exact .inl ⟨rfl, unstaged_iff hd hnames hnone⟩
  | some s =>
    have hsm := List.find?_some hs.symm
    have hse := List.mem_of_find?_eq_some hs.symm
    dsimp only at h
    by_cases h4 : (s.entry.isDir || s.entry.isReadOnly) = true
    · rw [if_pos h4] at h
      cases h
      exact .inr ⟨by decide, rfl⟩
    rw [if_neg h4] at h
    have hsf : s.entry.isDir = false := by
      have := Bool.not_eq_true _ ▸ h4
      simp only [Bool.or_eq_false_iff] at this
      exact this.1
    cases t with
    | some t =>
      rcases transferExisting_ok hd hnames hse hsm hsf h (List.mem_of_find?_eq_some ht.symm) (htf t rfl) hb with ⟨hr, htr⟩ | hno
      · exact .inl ⟨hr, transferred_iff hd hnames htr ht hse hsm hb htf hsf⟩
      · exact .inr hno
    | none =>
      rcases transferNew_ok hd hnames hse hsm hsf h with ⟨hr, hbn, htr⟩ | hno
      · subst hbn
        exact .inl ⟨hr, transferred_iff hd hnames htr ht hse hsm hb htf hsf⟩
      · exact .inr hno

/-- **Atomic replace keeps the target exactly when the names stand for different entries.**  Any result but `ok` and `io`
leaves the volume as it was. -/
theorem replaceFileAtomic_replaced_iff (env : Env) (w w' : World) (es : List EntryLocation) (target staged backup : Bytes)
    (r : AtomicReplaceResult) (hd : w.volume.Directory es)
    (h : replaceFileAtomic env target staged backup true w = (.ok r, w')) :
    (r = .ok → (Replaced w.volume w'.volume target staged backup ↔ Separate w.volume target staged backup)) ∧
      (r ≠ .ok → w'.volume = w.volume) := by
  unfold replaceFileAtomic at h
  rw [if_neg (by decide)] at h
  by_cases h1 : (!validInputName target || !validInputName staged || !validShortInput backup) = true
  · rw [if_pos h1] at h
    cases h
    exact ⟨fun h => (by cases h), fun _ => rfl⟩
  rw [if_neg h1] at h
  by_cases h2 : (eqlIgnoreCase target staged || eqlIgnoreCase target backup || eqlIgnoreCase staged backup) = true
  · rw [if_pos h2] at h
    cases h
    exact ⟨fun h => (by cases h), fun _ => rfl⟩
  rw [if_neg h2] at h
  have hnames : Named target staged backup := by
    simp only [Bool.not_eq_true, Bool.or_eq_false_iff, Bool.not_eq_false'] at h1 h2
    exact ⟨h1.1.1, h1.1.2, h1.2, h2.1.1, h2.1.2, h2.2⟩
  obtain ⟨t, w1, h3, h⟩ := Stateful.bind_ok h
  obtain ⟨s, w2, h4, h⟩ := Stateful.bind_ok h
  obtain ⟨b, w3, h5, h⟩ := Stateful.bind_ok h
  obtain ⟨hv1, ht⟩ := find_ok h3 hd.listed hnames.targetValid
  obtain ⟨hv2, hs⟩ := find_ok h4 (by rw [hv1]; exact hd.listed) hnames.stagedValid
  obtain ⟨hv3, hb⟩ := find_ok h5 (by rw [hv2, hv1]; exact hd.listed) (hnames.valid (by simp))
  have hv : w3.volume = w.volume := hv3.trans (hv2.trans hv1)
  rw [← hv] at hd ⊢
  rcases replaceFound_ok hd hnames h ht hs hb with ⟨hr, hiff⟩ | ⟨hr, hsame⟩
  · exact ⟨fun _ => hiff, fun hn => absurd hr hn⟩
  · exact ⟨fun hok => absurd hok hr, fun _ => hsame⟩

/-! ## A directory with a long name -/

/-- A device that never fails and a clock that stands. -/
def steady : Env := { succeeds := fun _ => true, now := fun _ => (0, 0), freeClusters := fun _ => [] }

/-- `my notes`, which is also `MYNOTE~1`, on cluster 3, and `NEW` on cluster 4. -/
def notes : World where
  volume :=
    { fat := fun c => if 2 ≤ c ∧ c < 5 then eocMark else 0
      clusterEnd := 100
      perCluster := 16
      chain := [2]
      slots := [[65, 109, 0, 121, 0, 32, 0, 110, 0, 111, 0, 15, 0, 41, 116, 0, 101, 0, 115, 0, 0, 0, 255, 255, 255, 255, 0, 0,
          255, 255, 255, 255],
        ascii "MYNOTE~1   " ++ 32 :: zeros 14 ++ [3, 0, 5, 0, 0, 0],
        ascii "NEW        " ++ 32 :: zeros 14 ++ [4, 0, 7, 0, 0, 0]] ++ List.replicate 13 zeroSlot }

def notesEntries : List EntryLocation := notes.volume.entries.getD []

theorem notes_checks : (notes.volume.entries.isSome = true ∧ (∀ raw ∈ notes.volume.slots, raw.length = 32) ∧
      notes.volume.slots.Pairwise (fun f x => Slot.first f = 0 → Slot.first x = 0)) ∧
    ((∀ a ∈ notesEntries, ∀ b ∈ notesEntries, ∀ p ∈ [a.entry.name, a.shortName], ∀ q ∈ [b.entry.name, b.shortName],
        p.map toUpper = q.map toUpper → a.index = b.index) ∧
      (∀ e ∈ notesEntries, fatValueIsEoc (notes.volume.fat e.entry.firstCluster) = true) ∧
      (∀ e ∈ notesEntries, e.entry.firstCluster ∉ notes.volume.chain) ∧
      (∀ a ∈ notesEntries, ∀ b ∈ notesEntries, a.entry.firstCluster = b.entry.firstCluster → a.index = b.index) ∧
      (∀ t ∈ notesEntries, ∀ s ∈ notesEntries, t.matches (ascii "my notes") = true → s.matches (ascii "NEW") = true →
        t.index ≠ s.index) ∧
      ∀ e ∈ notesEntries, e.matches (ascii "OLD") = false) ∧
    (replaceFileAtomic steady (ascii "my notes") (ascii "NEW") (ascii "OLD") true notes).1.toOption = some .ok ∧
    (replaceFileAtomic steady (ascii "my notes") (ascii "MYNOTE~1") (ascii "OLD") true notes).1.toOption = some .ok ∧
    (findEntryLocationStatus notes.volume (ascii "MYNOTE~1")).optional.toOption.join.isSome = true ∧
    (findEntryLocationStatus (replaceFileAtomic steady (ascii "my notes") (ascii "MYNOTE~1") (ascii "OLD") true
      notes).2.volume (ascii "my notes")).optional.toOption.join.isNone = true := by decide +kernel

theorem notes_listed : notes.volume.entries = some notesEntries := by
  have h := notes_checks.1.1
  unfold notesEntries
  cases he : notes.volume.entries with
  | none => rw [he] at h; cases h
  | some es => rfl

theorem notes_chain (ha : a ∈ notesEntries) {cs : List Nat} (h : notes.volume.ChainOf a.entry cs) : cs = [a.entry.firstCluster] := by
  have hend := notes_checks.2.1.2.1 a ha
  exact h.unique ⟨h.ne_zero, rfl, hend⟩

theorem notes_directory : notes.volume.Directory notesEntries where
  listed := notes_listed
  sized := notes_checks.1.2.1
  ended := by
    intro pre f post hs hf x hx
    have hp := notes_checks.1.2.2
    rw [hs, List.pairwise_append, List.pairwise_cons] at hp
    exact hp.2.1.1 x hx hf
  unique := by
    intro a ha b hb name hma hmb
    have hno := notes_checks.2.1.1
    simp only [EntryLocation.matches, Bool.or_eq_true, eqlIgnoreCase_iff] at hma hmb
    refine entries_index notes_listed ha hb ?_
    rcases hma with hma | hma <;> rcases hmb with hmb | hmb
    · exact hno a ha b hb _ (by simp) _ (by simp) (hma.trans hmb.symm)
    · exact hno a ha b hb _ (by simp) _ (by simp) (hma.trans hmb.symm)
    · exact hno a ha b hb _ (by simp) _ (by simp) (hma.trans hmb.symm)
    · exact hno a ha b hb _ (by simp) _ (by simp) (hma.trans hmb.symm)
  chained := by
    intro e he hne
    obtain ⟨-, hend, hout, -⟩ := notes_checks.2.1
    refine ⟨[e.entry.firstCluster], ⟨hne, rfl, hend e he⟩, fun c hc => ?_⟩
    rw [List.mem_singleton.1 hc]
    exact hout e he
  unshared := by
    intro a ha b hb cs ds c hcs hds hca hcb
    obtain ⟨-, -, -, hown, -⟩ := notes_checks.2.1
    rw [notes_chain ha hcs, List.mem_singleton] at hca
    rw [notes_chain hb hds, List.mem_singleton] at hcb
    exact entries_index notes_listed ha hb (hown a ha b hb (hca.symm.trans hcb))

theorem notes_named : Named (ascii "my notes") (ascii "NEW") (ascii "OLD") := by
  constructor <;> decide

theorem notes_separate : Separate notes.volume (ascii "my notes") (ascii "NEW") (ascii "OLD") := by
  obtain ⟨-, -, -, -, hts, hb⟩ := notes_checks.2.1
  refine ⟨fun t s h1 h2 => ?_, fun t s b _ _ h3 => ?_, fun _ _ _ => by decide⟩
  · obtain ⟨ht, htm⟩ := (found_iff notes_directory notes_named (by simp)).1 h1
    obtain ⟨hs, hsm⟩ := (found_iff notes_directory notes_named (by simp)).1 h2
    exact hts t ht s hs htm hsm
  · obtain ⟨hbe, hbm⟩ := (found_iff notes_directory notes_named (by simp)).1 h3
    rw [hb b hbe] at hbm
    cases hbm

theorem notes_replaced :
    Replaced notes.volume (replaceFileAtomic steady (ascii "my notes") (ascii "NEW") (ascii "OLD") true notes).2.volume
      (ascii "my notes") (ascii "NEW") (ascii "OLD") := by
  have hr := notes_checks.2.2.1
  cases hw : replaceFileAtomic steady (ascii "my notes") (ascii "NEW") (ascii "OLD") true notes with
  | mk r w' =>
    rw [hw] at hr
    cases r with
    | error e => cases hr
    | ok r =>
      cases hr
      exact ((replaceFileAtomic_replaced_iff steady notes w' notesEntries _ _ _ .ok notes_directory hw).1 rfl).2 notes_separate

/-- **A target staged under its own 8.3 name is deleted**: the two texts differ, the entry is one. -/
theorem replaceFileAtomic_deletes_target : ∃ w' : World,
    replaceFileAtomic steady (ascii "my notes") (ascii "MYNOTE~1") (ascii "OLD") true notes = (.ok .ok, w') ∧
      notes.volume.Directory notesEntries ∧
      ¬ Replaced notes.volume w'.volume (ascii "my notes") (ascii "MYNOTE~1") (ascii "OLD") := by
  obtain ⟨-, hr, hstaged, hgone⟩ := notes_checks.2.2
  cases hw : replaceFileAtomic steady (ascii "my notes") (ascii "MYNOTE~1") (ascii "OLD") true notes with
  | mk r w' =>
    rw [hw] at hr hgone
    cases r with
    | error e => cases hr
    | ok r =>
      cases hr
      refine ⟨w', rfl, notes_directory, fun h => ?_⟩
      cases hs : findEntryLocationStatus notes.volume (ascii "MYNOTE~1") with
      | found s =>
        obtain ⟨t, ht, _⟩ := h.resolves s hs
        rw [ht] at hgone
        cases hgone
      | notFound => rw [hs] at hstaged; cases hstaged
      | io => rw [hs] at hstaged; cases hstaged

end Fat
end R4
