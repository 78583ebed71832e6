import R4Recovery.StorageEffect
/-!
# StorageAdmission — exclusive claims stay exclusive

The admission invariant (`Admitted`) and the freshness of ids (`Fresh`) hold along every run of calls, and a reference
that a call ended is refused ever after (`Dead`).
-/
namespace R4
namespace Storage

/-! ## The invariant -/

/-- **The admission invariant.** -/
structure Admitted (s : State) : Prop where
  claimsApart : ∀ i j, i ≠ j → (s.claims i).id ≠ 0 → (s.claims j).id ≠ 0 →
    Disjoint (s.claims i).region.sectors (s.claims j).region.sectors
  usesAdmitted : ∀ u c, (s.uses u).id ≠ 0 → (s.claims c).id ≠ 0 →
    ¬ Disjoint (s.uses u).region.sectors (s.claims c).region.sectors →
    (s.uses u).kind = .raw ∧ (s.uses u).owner = (s.claims c).owner ∧
    (s.uses u).region.sectors ⊆ (s.claims c).region.sectors ∧ (s.claims c).phase ≠ .preparing
  mountsPlaced : ∀ m, (s.mounts m).active = true → Placed s (s.mounts m).region
  usesPlaced : ∀ u, (s.uses u).id ≠ 0 → Placed s (s.uses u).region
  claimsPlaced : ∀ c, (s.claims c).id ≠ 0 → Placed s (s.claims c).region

/-- Ids and generations come from the sequence, and no two live uses or claims share one. -/
structure Fresh (s : State) : Prop where
  devices : ∀ i, (s.devices i).generation ≤ s.sequence
  mounts : ∀ i, (s.mounts i).generation ≤ s.sequence
  uses : ∀ i, (s.uses i).id ≤ s.sequence
  claims : ∀ i, (s.claims i).id ≤ s.sequence
  usesApart : ∀ i j, (s.uses i).id ≠ 0 → (s.uses i).id = (s.uses j).id → i = j
  claimsApart : ∀ i j, (s.claims i).id ≠ 0 → (s.claims i).id = (s.claims j).id → i = j
  apart : ∀ u c, (s.uses u).id ≠ 0 → (s.uses u).id ≠ (s.claims c).id

theorem Admitted.initial : Admitted {} :=
  ⟨fun _ _ _ h => absurd rfl h, fun _ _ h => absurd rfl h, fun _ h => (by cases h), fun _ h => absurd rfl h,
    fun _ h => absurd rfl h⟩

theorem Fresh.initial : Fresh {} :=
  ⟨fun _ => Nat.le_refl _, fun _ => Nat.le_refl _, fun _ => Nat.le_refl _, fun _ => Nat.le_refl _,
    fun _ _ h => absurd rfl h, fun _ _ h => absurd rfl h, fun _ _ h => absurd rfl h⟩

section Kept

variable {s t : State}

theorem Placed.congr {region : Region} (h : Placed s region) (hd : t.devices = s.devices) : Placed t region :=
  ⟨h.generation, h.count, by rw [hd]; exact h.slot⟩

theorem Placed.update {region : Region} {i : Fin maxDevices} {d : Device} (h : Placed s region)
    (hd : t.devices = Function.update s.devices i d)
    (hi : i.val = region.device.slot → d = { s.devices i with retiring := false }) : Placed t region := by
  obtain ⟨hs, h1, h2, h3, h4⟩ := h.slot
  refine ⟨h.generation, h.count, hs, ?_⟩
  rw [hd]
  by_cases hj : (⟨region.device.slot, hs⟩ : Fin maxDevices) = i
  · have hval : i.val = region.device.slot := by rw [← hj]
    rw [hj] at h1 h3 h4 ⊢
    rw [Function.update_self, hi hval]
    exact ⟨h1, rfl, h3, h4⟩
  · rw [Function.update_of_ne hj]
    exact ⟨h1, h2, h3, h4⟩

theorem Placed.meets {region : Region} {ref : DeviceRef} {i : Fin maxDevices} (h : Placed s region) (hi : i.val = ref.slot)
    (hg : (s.devices i).generation = ref.generation) (hslot : i.val = region.device.slot) :
    ¬ Disjoint region.sectors (Region.sectors ⟨ref, 0, (s.devices i).sectors⟩) := by
  obtain ⟨hs, -, -, h3, h4⟩ := h.slot
  have hij : (⟨region.device.slot, hs⟩ : Fin maxDevices) = i := Fin.ext hslot.symm
  rw [hij] at h3 h4
  have hdev : region.device = ref := by
    cases hr : region.device
    cases ref
    rw [hr] at h3 hslot
    simp only [DeviceRef.mk.injEq]
    exact ⟨hslot.symm.trans hi, h3.symm.trans hg⟩
  have hc := h.count
  rw [Set.not_disjoint_iff]
  exact ⟨(region.device, region.first), ⟨rfl, Nat.le_refl _, by dsimp only; omega⟩, hdev, Nat.zero_le _, by dsimp only; omega⟩

theorem Admitted.devices (h : Admitted s) (hm : t.mounts = s.mounts) (hu : t.uses = s.uses) (hc : t.claims = s.claims)
    (hmp : ∀ m, (s.mounts m).active = true → Placed t (s.mounts m).region)
    (hup : ∀ u, (s.uses u).id ≠ 0 → Placed t (s.uses u).region)
    (hcp : ∀ c, (s.claims c).id ≠ 0 → Placed t (s.claims c).region) : Admitted t where
  claimsApart := by rw [hc]; exact h.claimsApart
  usesAdmitted := by rw [hu, hc]; exact h.usesAdmitted
  mountsPlaced := by rw [hm]; exact hmp
  usesPlaced := by rw [hu]; exact hup
  claimsPlaced := by rw [hc]; exact hcp

/-- **A new use**: outside every claim, or raw, inside one and its owner's. -/
theorem Admitted.addUse (h : Admitted s) {i : Fin maxUses} {owner : Owner} {region : Region} {kind : UseKind}
    (hp : Placed s region) (hok : ∀ c, (s.claims c).id ≠ 0 → ¬ Disjoint region.sectors (s.claims c).region.sectors →
      kind = .raw ∧ owner = (s.claims c).owner ∧ region.sectors ⊆ (s.claims c).region.sectors ∧
      (s.claims c).phase ≠ .preparing) : Admitted (addUse s i owner region kind) where
  claimsApart := h.claimsApart
  usesAdmitted := by
    intro u c
    show (Function.update s.uses i _ u).id ≠ 0 → (s.claims c).id ≠ 0 → _
    by_cases hi : u = i
    · rw [hi, Function.update_self]
      intro _ hc hm
      change ¬ Disjoint (Function.update s.uses i _ i).region.sectors _ at hm
      show (Function.update s.uses i _ i).kind = _ ∧ (Function.update s.uses i _ i).owner = _ ∧
        (Function.update s.uses i _ i).region.sectors ⊆ _ ∧ _
      rw [Function.update_self] at hm ⊢
      exact hok c hc hm
    · rw [Function.update_of_ne hi]
      intro hu hc hm
      change ¬ Disjoint (Function.update s.uses i _ u).region.sectors _ at hm
      show (Function.update s.uses i _ u).kind = _ ∧ (Function.update s.uses i _ u).owner = _ ∧
        (Function.update s.uses i _ u).region.sectors ⊆ _ ∧ _
      rw [Function.update_of_ne hi] at hm ⊢
      exact h.usesAdmitted u c hu hc hm
  mountsPlaced := fun m hm => (h.mountsPlaced m hm).congr rfl
  usesPlaced := by
    intro u
    show (Function.update s.uses i _ u).id ≠ 0 → Placed _ (Function.update s.uses i _ u).region
    by_cases hi : u = i
    · rw [hi, Function.update_self]
      exact fun _ => hp.congr rfl
    · rw [Function.update_of_ne hi]
      exact fun hu => (h.usesPlaced u hu).congr rfl
  claimsPlaced := fun c hc => (h.claimsPlaced c hc).congr rfl

theorem Admitted.shrink (h : Admitted s) (hd : t.devices = s.devices)
    (hm : ∀ m, (t.mounts m).active = true → (t.mounts m).region = (s.mounts m).region ∧ (s.mounts m).active = true)
    (hu : ∀ u, (t.uses u).id ≠ 0 → t.uses u = s.uses u)
    (hc : ∀ c, (t.claims c).id ≠ 0 → (s.claims c).id ≠ 0 ∧ (t.claims c).region = (s.claims c).region ∧
      (t.claims c).owner = (s.claims c).owner ∧ ((t.claims c).phase = .preparing → (s.claims c).phase = .preparing)) :
    Admitted t where
  claimsApart := by
    intro i j hij hi hj
    obtain ⟨hi', hri, -, -⟩ := hc i hi
    obtain ⟨hj', hrj, -, -⟩ := hc j hj
    rw [hri, hrj]
    exact h.claimsApart i j hij hi' hj'
  usesAdmitted := by
    intro u c hul hcl hmeet
    obtain ⟨hc', hr, ho, hph⟩ := hc c hcl
    have hsame := hu u hul
    rw [hsame] at hul hmeet ⊢
    rw [hr] at hmeet ⊢
    obtain ⟨h1, h2, h3, h4⟩ := h.usesAdmitted u c hul hc' hmeet
    exact ⟨h1, h2.trans ho.symm, h3, fun hp => h4 (hph hp)⟩
  mountsPlaced := by
    intro m hact
    obtain ⟨hr, hact'⟩ := hm m hact
    rw [hr]
    exact (h.mountsPlaced m hact').congr hd
  usesPlaced := by
    intro u hul
    have hsame := hu u hul
    rw [hsame] at hul ⊢
    exact (h.usesPlaced u hul).congr hd
  claimsPlaced := by
    intro c hcl
    obtain ⟨hc', hr, -, -⟩ := hc c hcl
    rw [hr]
    exact (h.claimsPlaced c hc').congr hd

theorem Admitted.moveClaim (h : Admitted s) {id : Nat} {owner : Owner} {i : Fin maxClaims} {phase : Phase}
    (hv : s.claimValue id owner = .ok i) (hph : phase ≠ .preparing) :
    Admitted (s.setClaim i { s.claims i with phase }) := by
  obtain ⟨h0, hid, -, -⟩ := claimValue_ok hv
  refine h.shrink rfl (fun _ hl => ⟨rfl, hl⟩) (fun _ _ => rfl) (fun c => ?_)
  show (Function.update s.claims i _ c).id ≠ 0 → _ ∧ (Function.update s.claims i _ c).region = _ ∧
    (Function.update s.claims i _ c).owner = _ ∧ ((Function.update s.claims i _ c).phase = _ → _)
  by_cases hi : c = i
  · rw [hi, Function.update_self]
    exact fun hl => ⟨hl, rfl, rfl, fun hp => absurd hp hph⟩
  · rw [Function.update_of_ne hi]
    exact fun hl => ⟨hl, rfl, rfl, fun hp => hp⟩

/-- **A new claim** is clear of every use and every claim. -/
theorem Admitted.addClaim (h : Admitted s) {i : Fin maxClaims} {x : Claim} (hd : t.devices = s.devices)
    (hm : t.mounts = s.mounts) (hu : t.uses = s.uses) (hc : t.claims = Function.update s.claims i x)
    (hp : Placed s x.region) (hclear : s.regionUsed x.region = false) (hapart : s.regionClaimed x.region = false) :
    Admitted t where
  claimsApart := by
    rw [regionClaimed_false] at hapart
    intro a b hab
    rw [hc]
    by_cases ha : a = i
    · have hb : b ≠ i := fun hb => hab (ha.trans hb.symm)
      rw [ha, Function.update_self, Function.update_of_ne hb]
      exact fun _ hb => (hapart b hb).symm
    · rw [Function.update_of_ne ha]
      by_cases hb : b = i
      · rw [hb, Function.update_self]
        exact fun ha _ => hapart a ha
      · rw [Function.update_of_ne hb]
        exact h.claimsApart a b hab
  usesAdmitted := by
    rw [regionUsed_false] at hclear
    intro u c
    rw [hu, hc]
    by_cases hi : c = i
    · rw [hi, Function.update_self]
      exact fun hul _ hmeet => absurd (hclear u hul) hmeet
    · rw [Function.update_of_ne hi]
      exact h.usesAdmitted u c
  mountsPlaced := by
    rw [hm]
    exact fun m hact => (h.mountsPlaced m hact).congr hd
  usesPlaced := by
    rw [hu]
    exact fun u hul => (h.usesPlaced u hul).congr hd
  claimsPlaced := by
    intro c
    rw [hc]
    by_cases hi : c = i
    · rw [hi, Function.update_self]
      exact fun _ => hp.congr hd
    · rw [Function.update_of_ne hi]
      exact fun hcl => (h.claimsPlaced c hcl).congr hd

theorem Admitted.addMount (h : Admitted s) {i : Fin maxMounts} {x : Mount} (hd : t.devices = s.devices)
    (hm : t.mounts = Function.update s.mounts i x) (hu : t.uses = s.uses) (hc : t.claims = s.claims)
    (hp : Placed s x.region) : Admitted t where
  claimsApart := by rw [hc]; exact h.claimsApart
  usesAdmitted := by rw [hu, hc]; exact h.usesAdmitted
  mountsPlaced := by
    intro m
    rw [hm]
    by_cases hi : m = i
    · rw [hi, Function.update_self]
      exact fun _ => hp.congr hd
    · rw [Function.update_of_ne hi]
      exact fun hact => (h.mountsPlaced m hact).congr hd
  usesPlaced := by
    rw [hu]
    exact fun u hul => (h.usesPlaced u hul).congr hd
  claimsPlaced := by
    rw [hc]
    exact fun c hcl => (h.claimsPlaced c hcl).congr hd

theorem Admitted.changeDevice (h : Admitted s) {i : Fin maxDevices} {d : Device}
    (hd : t.devices = Function.update s.devices i d) (hm : t.mounts = s.mounts) (hu : t.uses = s.uses)
    (hc : t.claims = s.claims) (hoff : ∀ region, Placed s region → i.val = region.device.slot →
      d = { s.devices i with retiring := false } ∨
      (¬ ∃ m, (s.mounts m).active = true ∧ (s.mounts m).region = region) ∧
      (¬ ∃ u, (s.uses u).id ≠ 0 ∧ (s.uses u).region = region) ∧
      (¬ ∃ c, (s.claims c).id ≠ 0 ∧ (s.claims c).region = region)) : Admitted t := by
  refine h.devices hm hu hc (fun m hl => ?_) (fun u hl => ?_) (fun c hl => ?_)
  · refine (h.mountsPlaced m hl).update hd (fun hslot => ?_)
    exact (hoff _ (h.mountsPlaced m hl) hslot).resolve_right (fun ho => ho.1 ⟨m, hl, rfl⟩)
  · refine (h.usesPlaced u hl).update hd (fun hslot => ?_)
    exact (hoff _ (h.usesPlaced u hl) hslot).resolve_right (fun ho => ho.2.1 ⟨u, hl, rfl⟩)
  · refine (h.claimsPlaced c hl).update hd (fun hslot => ?_)
    exact (hoff _ (h.claimsPlaced c hl) hslot).resolve_right (fun ho => ho.2.2 ⟨c, hl, rfl⟩)

theorem canRetire_clear {ref : DeviceRef} {i : Fin maxDevices} (hr : s.canRetire ref = .ok i) {region : Region}
    (hp : Placed s region) (hslot : i.val = region.device.slot) :
    (¬ ∃ m, (s.mounts m).active = true ∧ (s.mounts m).region = region) ∧
    (¬ ∃ u, (s.uses u).id ≠ 0 ∧ (s.uses u).region = region) ∧
    (¬ ∃ c, (s.claims c).id ≠ 0 ∧ (s.claims c).region = region) := by
  obtain ⟨hi, -, -, hg, hu, hc, hm⟩ := canRetire_ok hr
  have hmeet := hp.meets hi hg hslot
  refine ⟨?_, ?_, ?_⟩
  · rintro ⟨m, hl, rfl⟩
    exact hmeet (hm m hl)
  · rintro ⟨u, hl, rfl⟩
    exact hmeet (hu u hl)
  · rintro ⟨c, hl, rfl⟩
    exact hmeet (hc c hl)

/-- **A call keeps the invariant.** -/
theorem Admitted.effect {c : Call} (h : Admitted s) (he : Effect s c t) : Admitted t := by
  cases he with
  | registerDevice i g hi hfree =>
    refine h.changeDevice rfl rfl rfl rfl (fun region hp hslot => ?_)
    obtain ⟨hs, hact, -⟩ := hp.slot
    have hij : (⟨region.device.slot, hs⟩ : Fin maxDevices) = i := Fin.ext hslot.symm
    rw [hij, hfree] at hact
    cases hact
  | beginRetirement i hr =>
    exact h.changeDevice rfl rfl rfl rfl (fun region hp hslot => .inr (canRetire_clear hr hp hslot))
  | cancelRetirement i => exact h.changeDevice rfl rfl rfl rfl (fun _ _ _ => .inl rfl)
  | cancelNothing => exact h
  | retireDevice i g hr =>
    exact h.changeDevice rfl rfl rfl rfl (fun region hp hslot => .inr (canRetire_clear hr hp hslot))
  | bindMount i g hi hfree hp => exact h.addMount rfl rfl rfl rfl hp
  | unbindMount i g hm =>
    refine h.shrink rfl (fun m => ?_) (fun _ _ => rfl) (fun _ hl => ⟨hl, rfl, rfl, id⟩)
    show (Function.update s.mounts i _ m).active = true → (Function.update s.mounts i _ m).region = _ ∧ _
    by_cases hi : m = i
    · rw [hi, Function.update_self]
      exact nofun
    · rw [Function.update_of_ne hi]
      exact fun hl => ⟨rfl, hl⟩
  | beginUse m i hm hc hfree =>
    rw [regionClaimed_false] at hc
    exact h.addUse (mountValue_ok hm).2.2.2.2 (fun c hl hmeet => absurd (hc c hl).symm hmeet)
  | beginRawRead i hp hc hfree =>
    rw [regionClaimed_false] at hc
    exact h.addUse hp (fun c hl hmeet => absurd (hc c hl).symm hmeet)
  | endUse i h0 hid =>
    refine h.shrink rfl (fun _ hl => ⟨rfl, hl⟩) (fun u => ?_) (fun _ hl => ⟨hl, rfl, rfl, id⟩)
    show (Function.update s.uses i _ u).id ≠ 0 → Function.update s.uses i _ u = s.uses u
    by_cases hi : u = i
    · rw [hi, Function.update_self]
      exact fun hl => absurd rfl hl
    · rw [Function.update_of_ne hi]
      exact fun _ => rfl
  | prepareClaim i g hp hu hc hfree => exact h.addClaim rfl rfl rfl rfl hp hu hc
  | activateClaim i hv => exact h.moveClaim hv nofun
  | @beginClaimIo id owner region c i hv hact hin hfree =>
    obtain ⟨h0, hid, ho, hp⟩ := claimValue_ok hv
    have hl : (s.claims c).id ≠ 0 := by rw [hid]; exact h0
    obtain ⟨hdev, hcount, hfirst, hend⟩ := Region.contains_subset hin
    obtain ⟨hs, h1, h2, h3, h4⟩ := hp.slot
    have hplaced : Placed s region := by
      refine ⟨hdev ▸ hp.generation, hcount, ?_⟩
      rw [← hdev]
      exact ⟨hs, h1, h2, h3, by omega⟩
    refine h.addUse hplaced (fun c' hl' hmeet => ?_)
    -- the claims are apart, so the region meets only the one that contains it
    have hcc : c' = c := by
      by_contra hne
      exact hmeet ((h.claimsApart c' c hne hl' hl).symm.mono_left (Region.sectors_subset hin))
    rw [hcc]
    exact ⟨rfl, ho.symm, Region.sectors_subset hin, by rw [hact]; nofun⟩
  | finishClaim i hv => exact h.moveClaim hv nofun
  | releaseClaim i g hv =>
    refine h.shrink rfl (fun _ hl => ⟨rfl, hl⟩) (fun _ _ => rfl) (fun c => ?_)
    show (Function.update s.claims i _ c).id ≠ 0 → _ ∧ (Function.update s.claims i _ c).region = _ ∧
      (Function.update s.claims i _ c).owner = _ ∧ ((Function.update s.claims i _ c).phase = _ → _)
    by_cases hi : c = i
    · rw [hi, Function.update_self]
      exact fun hl => absurd rfl hl
    · rw [Function.update_of_ne hi]
      exact fun hl => ⟨hl, rfl, rfl, id⟩

/-! ## Ids are not handed out twice -/

theorem Fresh.shrink (h : Fresh s) (hseq : s.sequence ≤ t.sequence) (hd : ∀ i, (t.devices i).generation ≤ t.sequence)
    (hm : ∀ i, (t.mounts i).generation ≤ t.sequence) (hu : ∀ i, (t.uses i).id ≠ 0 → (t.uses i).id = (s.uses i).id)
    (hc : ∀ i, (t.claims i).id ≠ 0 → (t.claims i).id = (s.claims i).id) : Fresh t where
  devices := hd
  mounts := hm
  uses := by
    intro i
    by_cases hi : (t.uses i).id = 0
    · omega
    · rw [hu i hi]
      exact Nat.le_trans (h.uses i) hseq
  claims := by
    intro i
    by_cases hi : (t.claims i).id = 0
    · omega
    · rw [hc i hi]
      exact Nat.le_trans (h.claims i) hseq
  usesApart := by
    intro i j hi hij
    have hj : (t.uses j).id ≠ 0 := hij ▸ hi
    exact h.usesApart i j (hu i hi ▸ hi) ((hu i hi).symm.trans (hij.trans (hu j hj)))
  claimsApart := by
    intro i j hi hij
    have hj : (t.claims j).id ≠ 0 := hij ▸ hi
    exact h.claimsApart i j (hc i hi ▸ hi) ((hc i hi).symm.trans (hij.trans (hc j hj)))
  apart := by
    intro u c hul hid
    have hcl : (t.claims c).id ≠ 0 := hid ▸ hul
    exact h.apart u c (hu u hul ▸ hul) ((hu u hul).symm.trans (hid.trans (hc c hcl)))

theorem update_forall {n : Nat} {α : Type} {f : Fin n → α} {i : Fin n} {a : α} {P : Fin n → α → Prop} (hi : P i a)
    (h : ∀ j, j ≠ i → P j (f j)) (j : Fin n) : P j (Function.update f i a j) := by
  by_cases hj : j = i
  · rw [hj, Function.update_self]
    exact hi
  · rw [Function.update_of_ne hj]
    exact h j hj

theorem Fresh.addUse (h : Fresh s) (i : Fin maxUses) (owner : Owner) (region : Region) (kind : UseKind) :
    Fresh (addUse s i owner region kind) where
  devices := fun j => Nat.le_succ_of_le (h.devices j)
  mounts := fun j => Nat.le_succ_of_le (h.mounts j)
  uses := update_forall (P := fun _ (x : Use) => x.id ≤ s.sequence + 1) (Nat.le_refl _) (fun j _ => Nat.le_succ_of_le (h.uses j))
  claims := fun j => Nat.le_succ_of_le (h.claims j)
  usesApart := by
    refine update_forall (P := fun a (x : Use) => ∀ b, x.id ≠ 0 → x.id = (Function.update s.uses i _ b).id → a = b) ?_ ?_
    · refine update_forall (P := fun b (y : Use) => _ ≠ 0 → _ = y.id → i = b) (fun _ _ => rfl) (fun b _ _ hid => ?_)
      have := h.uses b
      rw [← hid] at this
      exact absurd this (Nat.not_succ_le_self _)
    · intro a ha
      refine update_forall (P := fun b (y : Use) => _ ≠ 0 → _ = y.id → a = b) (fun _ hid => ?_) (fun b _ => h.usesApart a b)
      have := h.uses a
      rw [hid] at this
      exact absurd this (Nat.not_succ_le_self _)
  claimsApart := h.claimsApart
  apart := by
    refine update_forall (P := fun _ (x : Use) => ∀ c, x.id ≠ 0 → x.id ≠ (s.claims c).id) (fun c _ hid => ?_) (fun j _ => h.apart j)
    have := h.claims c
    rw [← hid] at this
    exact absurd this (Nat.not_succ_le_self _)

theorem Fresh.addClaim (h : Fresh s) {i : Fin maxClaims} {x : Claim} (hx : x.id = s.sequence + 1)
    (hseq : t.sequence = s.sequence + 1) (hd : t.devices = s.devices) (hm : t.mounts = s.mounts) (hu : t.uses = s.uses)
    (hc : t.claims = Function.update s.claims i x) : Fresh t where
  devices := by rw [hd, hseq]; exact fun j => Nat.le_succ_of_le (h.devices j)
  mounts := by rw [hm, hseq]; exact fun j => Nat.le_succ_of_le (h.mounts j)
  uses := by rw [hu, hseq]; exact fun j => Nat.le_succ_of_le (h.uses j)
  claims := by
    rw [hc, hseq]
    exact update_forall (P := fun _ (y : Claim) => y.id ≤ s.sequence + 1) (Nat.le_of_eq hx) (fun j _ => Nat.le_succ_of_le (h.claims j))
  usesApart := by rw [hu]; exact h.usesApart
  claimsApart := by
    rw [hc]
    refine update_forall (P := fun a (y : Claim) => ∀ b, y.id ≠ 0 → y.id = (Function.update s.claims i x b).id → a = b) ?_ ?_
    · refine update_forall (P := fun b (y : Claim) => _ ≠ 0 → _ = y.id → i = b) (fun _ _ => rfl) (fun b _ _ hid => ?_)
      have := h.claims b
      omega
    · intro a ha
      refine update_forall (P := fun b (y : Claim) => _ ≠ 0 → _ = y.id → a = b) (fun _ hid => ?_) (fun b _ => h.claimsApart a b)
      have := h.claims a
      omega
  apart := by
    rw [hu, hc]
    intro u
    refine update_forall (P := fun _ (y : Claim) => _ ≠ 0 → _ ≠ y.id) (fun _ hid => ?_) (fun c _ => h.apart u c)
    have := h.uses u
    omega

/-- **A call keeps ids fresh.** -/
theorem Fresh.effect {c : Call} (h : Fresh s) (he : Effect s c t) : Fresh t := by
  cases he with
  | registerDevice i g hi hfree =>
    exact h.shrink (Nat.le_succ _) (update_forall (P := fun _ (x : Device) => x.generation ≤ s.sequence + 1) (Nat.le_refl _)
      (fun j _ => Nat.le_succ_of_le (h.devices j))) (fun j => Nat.le_succ_of_le (h.mounts j)) (fun _ _ => rfl) (fun _ _ => rfl)
  | beginRetirement i hr | cancelRetirement i | retireDevice i g hr =>
    exact h.shrink (Nat.le_refl _) (update_forall (P := fun _ (x : Device) => x.generation ≤ s.sequence) (h.devices i)
      (fun j _ => h.devices j)) h.mounts (fun _ _ => rfl) (fun _ _ => rfl)
  | cancelNothing => exact h
  | bindMount i g hi hfree hp =>
    exact h.shrink (Nat.le_succ _) (fun j => Nat.le_succ_of_le (h.devices j))
      (update_forall (P := fun _ (x : Mount) => x.generation ≤ s.sequence + 1) (Nat.le_refl _)
        (fun j _ => Nat.le_succ_of_le (h.mounts j))) (fun _ _ => rfl) (fun _ _ => rfl)
  | unbindMount i g hm =>
    exact h.shrink (Nat.le_refl _) h.devices (update_forall (P := fun _ (x : Mount) => x.generation ≤ s.sequence) (h.mounts i)
      (fun j _ => h.mounts j)) (fun _ _ => rfl) (fun _ _ => rfl)
  | beginUse m i hm hc hfree => exact h.addUse i _ _ _
  | beginRawRead i hp hc hfree => exact h.addUse i _ _ _
  | endUse i h0 hid =>
    exact h.shrink (Nat.le_refl _) h.devices h.mounts (update_forall (P := fun j (x : Use) => x.id ≠ 0 → x.id = (s.uses j).id)
      (fun h0 => absurd rfl h0) (fun _ _ _ => rfl)) (fun _ _ => rfl)
  | prepareClaim i g hp hu hc hfree => exact h.addClaim rfl rfl rfl rfl rfl rfl
  | activateClaim i hv | finishClaim i hv =>
    exact h.shrink (Nat.le_refl _) h.devices h.mounts (fun _ _ => rfl)
      (update_forall (P := fun j (x : Claim) => x.id ≠ 0 → x.id = (s.claims j).id) (fun _ => rfl) (fun _ _ _ => rfl))
  | beginClaimIo c i hv hact hin hfree => exact h.addUse i _ _ _
  | releaseClaim i g hv =>
    exact h.shrink (Nat.le_refl _) h.devices h.mounts (fun _ _ => rfl)
      (update_forall (P := fun j (x : Claim) => x.id ≠ 0 → x.id = (s.claims j).id) (fun h0 => absurd rfl h0) (fun _ _ _ => rfl))

/-- What is in service in `t` was so in `s`, or bears a newer id. -/
structure Later (s t : State) : Prop where
  sequence : s.sequence ≤ t.sequence
  devices : ∀ i, (t.devices i).active = true →
    (s.devices i).active = true ∧ (t.devices i).generation = (s.devices i).generation ∨ s.sequence < (t.devices i).generation
  mounts : ∀ i, (t.mounts i).active = true →
    (s.mounts i).active = true ∧ (t.mounts i).generation = (s.mounts i).generation ∨ s.sequence < (t.mounts i).generation
  uses : ∀ i, (t.uses i).id ≠ 0 → (t.uses i).id = (s.uses i).id ∨ s.sequence < (t.uses i).id
  claims : ∀ i, (t.claims i).id ≠ 0 → (t.claims i).id = (s.claims i).id ∨ s.sequence < (t.claims i).id

theorem SameTables.later (h : SameTables s t) : Later s t where
  sequence := h.sequence
  devices := by rw [h.devices]; exact fun _ ha => .inl ⟨ha, rfl⟩
  mounts := by rw [h.mounts]; exact fun _ ha => .inl ⟨ha, rfl⟩
  uses := by rw [h.uses]; exact fun _ _ => .inl rfl
  claims := by rw [h.claims]; exact fun _ _ => .inl rfl

theorem Effect.later {c : Call} (he : Effect s c t) : Later s t := by
  have same := (SameTables.refl s).later
  have claimsKept : ∀ (i : Fin maxClaims) (x : Claim), (x.id ≠ 0 → x.id = (s.claims i).id ∨ s.sequence < x.id) →
      ∀ j, (Function.update s.claims i x j).id ≠ 0 → (Function.update s.claims i x j).id = (s.claims j).id ∨
        s.sequence < (Function.update s.claims i x j).id := fun i x hx =>
    update_forall (P := fun j (y : Claim) => y.id ≠ 0 → y.id = (s.claims j).id ∨ s.sequence < y.id) hx (fun _ _ _ => .inl rfl)
  have usesKept : ∀ (i : Fin maxUses) (x : Use), (x.id ≠ 0 → x.id = (s.uses i).id ∨ s.sequence < x.id) →
      ∀ j, (Function.update s.uses i x j).id ≠ 0 → (Function.update s.uses i x j).id = (s.uses j).id ∨
        s.sequence < (Function.update s.uses i x j).id := fun i x hx =>
    update_forall (P := fun j (y : Use) => y.id ≠ 0 → y.id = (s.uses j).id ∨ s.sequence < y.id) hx (fun _ _ _ => .inl rfl)
  have devicesKept : ∀ (i : Fin maxDevices) (x : Device), (x.active = true → (s.devices i).active = true ∧
      x.generation = (s.devices i).generation ∨ s.sequence < x.generation) → ∀ j, (Function.update s.devices i x j).active = true →
      (s.devices j).active = true ∧ (Function.update s.devices i x j).generation = (s.devices j).generation ∨
        s.sequence < (Function.update s.devices i x j).generation := fun i x hx =>
    update_forall (P := fun j (y : Device) => y.active = true → (s.devices j).active = true ∧ y.generation = (s.devices j).generation ∨
      s.sequence < y.generation) hx (fun _ _ ha => .inl ⟨ha, rfl⟩)
  have mountsKept : ∀ (i : Fin maxMounts) (x : Mount), (x.active = true → (s.mounts i).active = true ∧
      x.generation = (s.mounts i).generation ∨ s.sequence < x.generation) → ∀ j, (Function.update s.mounts i x j).active = true →
      (s.mounts j).active = true ∧ (Function.update s.mounts i x j).generation = (s.mounts j).generation ∨
        s.sequence < (Function.update s.mounts i x j).generation := fun i x hx =>
    update_forall (P := fun j (y : Mount) => y.active = true → (s.mounts j).active = true ∧ y.generation = (s.mounts j).generation ∨
      s.sequence < y.generation) hx (fun _ _ ha => .inl ⟨ha, rfl⟩)
  cases he with
  | registerDevice i g hi hfree =>
    exact ⟨Nat.le_succ _, devicesKept i _ (fun _ => .inr (Nat.lt_succ_self _)), same.mounts, same.uses, same.claims⟩
  | beginRetirement i hr | cancelRetirement i =>
    exact ⟨Nat.le_refl _, devicesKept i _ (fun ha => .inl ⟨ha, rfl⟩), same.mounts, same.uses, same.claims⟩
  | cancelNothing => exact same
  | retireDevice i g hr => exact ⟨Nat.le_refl _, devicesKept i _ nofun, same.mounts, same.uses, same.claims⟩
  | bindMount i g hi hfree hp =>
    exact ⟨Nat.le_succ _, same.devices, mountsKept i _ (fun _ => .inr (Nat.lt_succ_self _)), same.uses, same.claims⟩
  | unbindMount i g hm => exact ⟨Nat.le_refl _, same.devices, mountsKept i _ nofun, same.uses, same.claims⟩
  | beginUse m i hm hc hfree | beginRawRead i hp hc hfree | beginClaimIo c i hv hact hin hfree =>
    exact ⟨Nat.le_succ _, same.devices, same.mounts, usesKept i _ (fun _ => .inr (Nat.lt_succ_self _)), same.claims⟩
  | endUse i h0 hid =>
    exact ⟨Nat.le_refl _, same.devices, same.mounts, usesKept i _ (fun h0 => absurd rfl h0), same.claims⟩
  | prepareClaim i g hp hu hc hfree =>
    exact ⟨Nat.le_succ _, same.devices, same.mounts, same.uses, claimsKept i _ (fun _ => .inr (Nat.lt_succ_self _))⟩
  | activateClaim i hv | finishClaim i hv =>
    exact ⟨Nat.le_refl _, same.devices, same.mounts, same.uses, claimsKept i _ (fun _ => .inl rfl)⟩
  | releaseClaim i g hv =>
    exact ⟨Nat.le_refl _, same.devices, same.mounts, same.uses, claimsKept i _ (fun h0 => absurd rfl h0)⟩

theorem Later.trans {u : State} (h : Later s t) (g : Later t u) : Later s u where
  sequence := Nat.le_trans h.sequence g.sequence
  devices := by
    intro i hu
    rcases g.devices i hu with ⟨ht, hg⟩ | hg
    · rw [hg]
      exact h.devices i ht
    · exact .inr (Nat.lt_of_le_of_lt h.sequence hg)
  mounts := by
    intro i hu
    rcases g.mounts i hu with ⟨ht, hg⟩ | hg
    · rw [hg]
      exact h.mounts i ht
    · exact .inr (Nat.lt_of_le_of_lt h.sequence hg)
  uses := by
    intro i hu
    rcases g.uses i hu with hg | hg
    · rw [hg] at hu ⊢
      exact h.uses i hu
    · exact .inr (Nat.lt_of_le_of_lt h.sequence hg)
  claims := by
    intro i hu
    rcases g.claims i hu with hg | hg
    · rw [hg] at hu ⊢
      exact h.claims i hu
    · exact .inr (Nat.lt_of_le_of_lt h.sequence hg)

end Kept

/-! ## Ended references -/

/-- The reference has been handed out, and nothing in service bears it. -/
def Dead (s : State) : Ref → Prop
  | .none => True
  | .device ref => ref.generation ≤ s.sequence ∧ ∀ i : Fin maxDevices, i.val = ref.slot → (s.devices i).active = true →
      (s.devices i).generation ≠ ref.generation
  | .mount ref => ref.generation ≤ s.sequence ∧ ∀ i : Fin maxMounts, i.val = ref.slot → (s.mounts i).active = true →
      (s.mounts i).generation ≠ ref.generation
  | .id id => id ≠ 0 ∧ id ≤ s.sequence ∧ (∀ u, (s.uses u).id ≠ id) ∧ ∀ c, (s.claims c).id ≠ id

section Ended

variable {s t : State} {c : Call} {r : Ref}

/-- **What is dead stays dead.** -/
theorem Dead.later (h : Dead s r) (hl : Later s t) : Dead t r := by
  cases r with
  | none => trivial
  | device ref =>
    refine ⟨Nat.le_trans h.1 hl.sequence, fun i hi hact hgen => ?_⟩
    rcases hl.devices i hact with ⟨ha, hg⟩ | hg
    · exact h.2 i hi ha (hg.symm.trans hgen)
    · have := h.1
      omega
  | mount ref =>
    refine ⟨Nat.le_trans h.1 hl.sequence, fun i hi hact hgen => ?_⟩
    rcases hl.mounts i hact with ⟨ha, hg⟩ | hg
    · exact h.2 i hi ha (hg.symm.trans hgen)
    · have := h.1
      omega
  | id id =>
    obtain ⟨h0, hseq, hu, hc⟩ := h
    refine ⟨h0, Nat.le_trans hseq hl.sequence, fun u hid => ?_, fun c hid => ?_⟩
    · rcases hl.uses u (by omega) with hg | hg
      · exact hu u (hg.symm.trans hid)
      · omega
    · rcases hl.claims c (by omega) with hg | hg
      · exact hc c (hg.symm.trans hid)
      · omega

theorem Effect.dead (h : Fresh s) (he : Effect s c t) (hr : c.releases = some r) : Dead t r := by
  cases he with
  | retireDevice i g hret =>
    cases hr
    obtain ⟨hi, -, -, hgen, -⟩ := canRetire_ok hret
    refine ⟨by rw [← hgen]; exact h.devices i, fun j hj => ?_⟩
    have hij : j = i := Fin.ext (hj.trans hi.symm)
    show (Function.update s.devices i _ j).active = true → _
    rw [hij, Function.update_self]
    exact nofun
  | unbindMount i g hm =>
    cases hr
    obtain ⟨hi, -, -, hgen, -⟩ := mountValue_ok hm
    refine ⟨by rw [← hgen]; exact h.mounts i, fun j hj => ?_⟩
    have hij : j = i := Fin.ext (hj.trans hi.symm)
    show (Function.update s.mounts i _ j).active = true → _
    rw [hij, Function.update_self]
    exact nofun
  | @endUse id owner i h0 hid =>
    cases hr
    have hl : (s.uses i).id ≠ 0 := by rw [hid]; exact h0
    refine ⟨h0, by rw [← hid]; exact h.uses i, update_forall (P := fun _ (x : Use) => x.id ≠ id) h0.symm (fun j hj he => ?_),
      fun c he => h.apart i c hl (hid.trans he.symm)⟩
    exact hj (h.usesApart i j hl (hid.trans he.symm)).symm
  | @releaseClaim id owner i g hv =>
    cases hr
    obtain ⟨h0, hid, -, -⟩ := claimValue_ok hv
    have hl : (s.claims i).id ≠ 0 := by rw [hid]; exact h0
    refine ⟨h0, by rw [← hid]; exact h.claims i, fun u he => ?_,
      update_forall (P := fun _ (x : Claim) => x.id ≠ id) h0.symm (fun j hj he => ?_)⟩
    · have hu : (s.uses u).id = id := he
      exact h.apart u i (by rw [hu]; exact h0) (hu.trans hid.symm)
    · exact hj (h.claimsApart i j hl (hid.trans he.symm)).symm
  | registerDevice | beginRetirement | cancelRetirement | cancelNothing | bindMount | beginUse | beginRawRead | prepareClaim
  | activateClaim | beginClaimIo | finishClaim => cases hr

theorem Dead.not_placed {region : Region} (h : Dead s (.device region.device)) : ¬ Placed s region := by
  intro hp
  obtain ⟨hs, hact, -, hgen, -⟩ := hp.slot
  exact h.2 ⟨_, hs⟩ rfl hact hgen

theorem Dead.not_claim {id : Nat} {owner : Owner} {i : Fin maxClaims} (h : Dead s (.id id)) : s.claimValue id owner ≠ .ok i := by
  intro hv
  exact h.2.2.2 i (claimValue_ok hv).2.1

theorem Dead.not_mount {ref : MountRef} {i : Fin maxMounts} (h : Dead s (.mount ref)) : s.mountValue ref ≠ .ok i := by
  intro hv
  obtain ⟨hi, -, hact, hgen, -⟩ := mountValue_ok hv
  exact h.2 i hi hact hgen

theorem Dead.not_retire {ref : DeviceRef} {i : Fin maxDevices} (h : Dead s (.device ref)) : s.canRetire ref ≠ .ok i := by
  intro hv
  obtain ⟨hi, -, hact, hgen, -⟩ := canRetire_ok hv
  exact h.2 i hi hact hgen

/-- **No call that names a dead reference has an effect.** -/
theorem Dead.refused (h : Dead s r) (hr : r ∈ c.names) (hcan : c.isCancel = false) : ¬ Effect s c t := by
  intro he
  cases he with
  | registerDevice i g hi hfree => cases hr
  | beginRetirement i hret | retireDevice i g hret =>
    obtain rfl := List.mem_singleton.1 hr
    exact h.not_retire hret
  | cancelRetirement | cancelNothing => cases hcan
  | bindMount i g hi hfree hp | beginRawRead i hp hc hfree | prepareClaim i g hp hu hc hfree =>
    obtain rfl := List.mem_singleton.1 hr
    exact h.not_placed hp
  | unbindMount i g hm | beginUse m i hm hc hfree =>
    obtain rfl := List.mem_singleton.1 hr
    exact h.not_mount hm
  | endUse i h0 hid =>
    obtain rfl := List.mem_singleton.1 hr
    exact h.2.2.1 i hid
  | activateClaim i hv | finishClaim i hv | releaseClaim i g hv =>
    obtain rfl := List.mem_singleton.1 hr
    exact h.not_claim hv
  | beginClaimIo c i hv hact hin hfree =>
    rcases List.mem_cons.1 hr with rfl | hr
    · exact h.not_claim hv
    · obtain rfl := List.mem_singleton.1 hr
      rw [← (Region.contains_subset hin).1] at h
      exact h.not_placed (claimValue_ok hv).2.2.2

theorem Dead.cancelled {ref : DeviceRef} (h : Dead s (.device ref)) (i : Fin maxDevices) (hact : (s.devices i).active = true) :
    ((Call.cancelRetirement ref).exec s).2.devices i = s.devices i := by
  show (dite _ _ _ : State).devices i = s.devices i
  split
  · rename_i hs
    split
    · rename_i hgen
      by_cases hi : i = ⟨ref.slot, hs⟩
      · exact absurd (by simpa [hi] using hgen) (h.2 i (by rw [hi]) hact)
      · exact Function.update_of_ne hi _ _
    · rfl
  · rfl

end Ended

/-! ## Runs -/

/-- **A call keeps the invariants**, whether it succeeds or fails. -/
theorem exec_keeps {s : State} (c : Call) (ha : Admitted s) (hf : Fresh s) :
    Admitted (c.exec s).2 ∧ Fresh (c.exec s).2 ∧ Later s (c.exec s).2 := by
  rcases h : c.exec s with ⟨r, t⟩
  cases r with
  | ok r =>
    have he := exec_ok h
    exact ⟨ha.effect he, hf.effect he, he.later⟩
  | error e =>
    rcases exec_error h with hs | ⟨id, owner, i, -, hv, ht⟩
    · have hd : t.devices = s.devices := hs.devices
      refine ⟨ha.shrink hd ?_ ?_ ?_, hf.shrink hs.sequence ?_ ?_ ?_ ?_, hs.later⟩
      · rw [hs.mounts]; exact fun _ hl => ⟨rfl, hl⟩
      · rw [hs.uses]; exact fun _ _ => rfl
      · rw [hs.claims]; exact fun _ hl => ⟨hl, rfl, rfl, fun hp => hp⟩
      · rw [hd]; exact fun i => Nat.le_trans (hf.devices i) hs.sequence
      · rw [hs.mounts]; exact fun i => Nat.le_trans (hf.mounts i) hs.sequence
      · rw [hs.uses]; exact fun _ _ => rfl
      · rw [hs.claims]; exact fun _ _ => rfl
    · have he : Effect s (.finishClaim id owner) t := ht ▸ .finishClaim i hv
      exact ⟨ha.effect he, hf.effect he, he.later⟩

theorem exec_effect {s : State} {c : Call} (h : succeeded (c.exec s).1 = true) : Effect s c (c.exec s).2 := by
  rcases hx : c.exec s with ⟨x, t⟩
  rw [hx] at h
  cases x with
  | error e => cases h
  | ok a => exact exec_ok hx

/-- **A run keeps the invariants, and what it ended is dead behind it.** -/
theorem runs_keeps : ∀ (calls : List Call) {s : State}, Admitted s → Fresh s →
    Admitted (runs s calls).1 ∧ Later s (runs s calls).1 ∧ ∀ r ∈ (runs s calls).2, Dead (runs s calls).1 r
  | [], s, ha, _ => ⟨ha, (SameTables.refl s).later, fun _ hr => by cases hr⟩
  | c :: calls, s, ha, hf => by
    obtain ⟨ha', hf', hl'⟩ := exec_keeps c ha hf
    obtain ⟨ha'', hl'', hdead⟩ := runs_keeps calls ha' hf'
    refine ⟨ha'', hl'.trans hl'', fun r hr => ?_⟩
    change r ∈ (if succeeded (c.exec s).1 then c.releases.toList ++ (runs (c.exec s).2 calls).2 else _) at hr
    split at hr
    · rename_i hok
      rcases List.mem_append.1 hr with hr | hr
      · exact (Effect.dead hf (exec_effect hok) (Option.mem_toList.1 hr)).later hl''
      · exact hdead r hr
    · exact hdead r hr

/-- **Storage admission**: behind every run of calls the live claims are apart and every use that meets one is raw, its
owner's and inside it; whatever is live lies on a device in service; a reference that was ended is refused; and a call
that fails leaves the tables as they were, but for the claim that `finishClaim` closes. -/
theorem storage_admission (calls : List Call) :
    Admitted (runs {} calls).1 ∧
    (∀ r ∈ (runs {} calls).2, ∀ c : Call, r ∈ c.names →
      (c.isCancel = false → ∃ e t, c.exec (runs {} calls).1 = (.error e, t)) ∧
      (c.isCancel = true → ∀ i, ((runs {} calls).1.devices i).active = true →
        (c.exec (runs {} calls).1).2.devices i = (runs {} calls).1.devices i)) ∧
    (∀ (c : Call) e t, c.exec (runs {} calls).1 = (.error e, t) → SameTables (runs {} calls).1 t ∨
      ∃ id owner i, c = .finishClaim id owner ∧ ((runs {} calls).1.claims i).id = id ∧
        t = (runs {} calls).1.setClaim i { (runs {} calls).1.claims i with phase := .finishing }) := by
  obtain ⟨ha, -, hdead⟩ := runs_keeps calls Admitted.initial Fresh.initial
  generalize (runs {} calls).1 = s at ha hdead ⊢
  refine ⟨ha, fun r hr c hc => ⟨fun hcan => ?_, fun hcan => ?_⟩, fun c e t h => ?_⟩
  · rcases h : c.exec s with ⟨x, t⟩
    cases x with
    | error e => exact ⟨e, t, rfl⟩
    | ok a => exact absurd (exec_ok h) ((hdead r hr).refused hc hcan)
  · cases c with
    | cancelRetirement ref =>
      obtain rfl := List.mem_singleton.1 hc
      exact (hdead _ hr).cancelled
    | _ => cases hcan
  · rcases exec_error h with hs | ⟨id, owner, i, hc, hv, ht⟩
    · exact .inl hs
    · exact .inr ⟨id, owner, i, hc, (claimValue_ok hv).2.1, ht⟩

end Storage
end R4
