import Mathlib.Data.Set.Basic
import Mathlib.Order.Disjoint
import Mathlib.Order.BooleanAlgebra.Set
import R4Recovery.StorageAccess
/-!
# StorageEffect — what an admission call can do

A region is a set of sectors; `overlaps` and `contains` are its disjointness and inclusion (`overlaps_iff`,
`contains_subset`).  `Effect` says once what a successful call found and did (`exec_ok`); a failed one changes no table,
but that `finishClaim` closes its claim first (`exec_error`).
-/
namespace R4
namespace Storage

/-! ## Regions as sets of sectors -/

namespace Region

def sectors (r : Region) : Set (DeviceRef × Nat) := {p | p.1 = r.device ∧ r.first ≤ p.2 ∧ p.2 < r.first + r.count}

variable {a b : Region}

theorem overlaps_iff : a.overlaps b = true ↔ ¬ Disjoint a.sectors b.sectors := by
  rw [Set.not_disjoint_iff]
  unfold overlaps
  constructor
  · intro h
    split at h
    · cases h
    · rename_i hne
      simp only [Bool.or_eq_true, bne_iff_ne, beq_iff_eq, not_or, not_not] at hne
      obtain ⟨⟨hd, ha⟩, hb⟩ := hne
      refine ⟨(a.device, max a.first b.first), ⟨rfl, ?_, ?_⟩, hd, ?_, ?_⟩ <;> split at h <;>
        simp only [decide_eq_true_eq] at h <;> dsimp only <;> omega
  · rintro ⟨p, ⟨hda, ha1, ha2⟩, hdb, hb1, hb2⟩
    have hd : a.device = b.device := hda.symm.trans hdb
    have hne : ¬ (a.device != b.device || a.count == 0 || b.count == 0) = true := by
      simp only [hd, bne_self_eq_false, Bool.false_or, Bool.or_eq_true, beq_iff_eq]
      omega
    rw [if_neg hne]
    split <;> simp only [decide_eq_true_eq] <;> omega

theorem contains_subset (h : a.contains b = true) : a.device = b.device ∧ b.count ≠ 0 ∧ a.first ≤ b.first ∧
    b.first + b.count ≤ a.first + a.count := by
  simp only [contains, Bool.and_eq_true, beq_iff_eq, bne_iff_ne, decide_eq_true_eq] at h
  obtain ⟨⟨⟨⟨hd, hc⟩, h1⟩, h2⟩, h3⟩ := h
  exact ⟨hd, hc, h1, by omega⟩

theorem sectors_subset (h : a.contains b = true) : b.sectors ⊆ a.sectors := by
  obtain ⟨hd, -, h1, h2⟩ := contains_subset h
  rintro p ⟨hp, hp1, hp2⟩
  exact ⟨hp.trans hd.symm, by omega, by omega⟩

end Region

/-! ## What the checks check -/

/-- The region is not empty and lies on a device in service, of the generation it records. -/
structure Placed (s : State) (region : Region) : Prop where
  generation : region.device.generation ≠ 0
  count : region.count ≠ 0
  slot : ∃ h : region.device.slot < maxDevices, (s.devices ⟨region.device.slot, h⟩).active = true ∧
    (s.devices ⟨region.device.slot, h⟩).retiring = false ∧
    (s.devices ⟨region.device.slot, h⟩).generation = region.device.generation ∧
    region.first + region.count ≤ (s.devices ⟨region.device.slot, h⟩).sectors

section Checks

variable {s t : State} {region : Region}

theorem validateRegion_iff : s.validateRegion region = .ok () ↔ Placed s region := by
  unfold State.validateRegion State.deviceValue
  by_cases hs : region.device.slot < maxDevices
  · rw [dif_pos hs]
    dsimp only
    generalize hd : s.devices ⟨region.device.slot, hs⟩ = d
    constructor
    · intro h
      split at h
      · cases h
      · rename_i hbad
        simp only [bind, Except.bind] at h
        split at h
        · cases h
        · rename_i hin
          simp only [Bool.or_eq_true, beq_iff_eq, Bool.not_eq_true', bne_iff_ne, decide_eq_true_eq, not_or, not_not,
            Bool.not_eq_false, Bool.not_eq_true] at hbad hin
          obtain ⟨⟨⟨h1, h2⟩, h3⟩, h4⟩ := hbad
          exact ⟨h1, by omega, hs, by rw [hd]; exact ⟨h2, h3, h4, by omega⟩⟩
    · rintro ⟨hg, hc, h', h1, h2, h3, h4⟩
      rw [hd] at h1 h2 h3 h4
      rw [if_neg (by simp [hg, h1, h2, h3])]
      simp only [bind, Except.bind]
      rw [if_neg]
      simp only [Bool.or_eq_true, beq_iff_eq, decide_eq_true_eq]
      omega
  · rw [dif_neg hs]
    constructor
    · intro h; cases h
    · rintro ⟨_, _, h, _⟩; exact absurd h hs

theorem regionUsed_false : s.regionUsed region = false ↔
    ∀ i, (s.uses i).id ≠ 0 → Disjoint (s.uses i).region.sectors region.sectors := by
  simp only [State.regionUsed, List.any_eq_false, List.mem_finRange, true_imp_iff, Bool.and_eq_true, bne_iff_ne, not_and,
    Region.overlaps_iff, not_not]

theorem regionClaimed_false : s.regionClaimed region = false ↔
    ∀ i, (s.claims i).id ≠ 0 → Disjoint (s.claims i).region.sectors region.sectors := by
  simp only [State.regionClaimed, List.any_eq_false, List.mem_finRange, true_imp_iff, Bool.and_eq_true, bne_iff_ne, not_and,
    Region.overlaps_iff, not_not]

theorem canRetire_ok {ref : DeviceRef} {i : Fin maxDevices} (h : s.canRetire ref = .ok i) :
    i.val = ref.slot ∧ ref.generation ≠ 0 ∧ (s.devices i).active = true ∧ (s.devices i).generation = ref.generation ∧
    (∀ u, (s.uses u).id ≠ 0 → Disjoint (s.uses u).region.sectors (Region.sectors ⟨ref, 0, (s.devices i).sectors⟩)) ∧
    (∀ c, (s.claims c).id ≠ 0 → Disjoint (s.claims c).region.sectors (Region.sectors ⟨ref, 0, (s.devices i).sectors⟩)) ∧
    (∀ m, (s.mounts m).active = true → Disjoint (s.mounts m).region.sectors
      (Region.sectors ⟨ref, 0, (s.devices i).sectors⟩)) := by
  unfold State.canRetire at h
  split at h
  · rename_i hs
    dsimp only at h
    split at h
    · cases h
    · rename_i hbad
      split at h
      · cases h
      · rename_i hfree
        split at h
        · cases h
        · rename_i hm
          cases h
          simp only [Bool.or_eq_true, not_or, Bool.not_eq_true, regionUsed_false, regionClaimed_false] at hfree
          simp only [Bool.or_eq_true, beq_iff_eq, Bool.not_eq_true', bne_iff_ne, not_or, not_not, Bool.not_eq_false] at hbad
          simp only [Bool.not_eq_true, List.any_eq_false, List.mem_finRange, true_imp_iff, Bool.and_eq_true, not_and,
            Region.overlaps_iff, not_not] at hm
          exact ⟨rfl, hbad.1.1, hbad.1.2, hbad.2, hfree.1, hfree.2, hm⟩
  · cases h

theorem mountValue_ok {ref : MountRef} {i : Fin maxMounts} (h : s.mountValue ref = .ok i) :
    i.val = ref.slot ∧ ref.generation ≠ 0 ∧ (s.mounts i).active = true ∧ (s.mounts i).generation = ref.generation ∧
    Placed s (s.mounts i).region := by
  unfold State.mountValue at h
  split at h
  · rename_i hs
    dsimp only at h
    split at h
    · cases h
    · rename_i hbad
      simp only [Bool.or_eq_true, beq_iff_eq, Bool.not_eq_true', bne_iff_ne, not_or, not_not, Bool.not_eq_false] at hbad
      cases hv : s.validateRegion (s.mounts ⟨ref.slot, hs⟩).region with
      | error e => rw [hv] at h; cases h
      | ok u =>
        rw [hv] at h
        cases h
        exact ⟨rfl, hbad.1.1, hbad.1.2, hbad.2, validateRegion_iff.1 hv⟩
  · cases h

theorem claimValue_ok {id : Nat} {owner : Owner} {i : Fin maxClaims} (h : s.claimValue id owner = .ok i) :
    id ≠ 0 ∧ (s.claims i).id = id ∧ (s.claims i).owner = owner ∧ Placed s (s.claims i).region := by
  unfold State.claimValue at h
  split at h
  · cases h
  · rename_i hid
    split at h
    · cases h
    · rename_i j hj
      split at h
      · cases h
      · rename_i ho
        cases hv : s.validateRegion (s.claims j).region with
        | error e => rw [hv] at h; cases h
        | ok u =>
          rw [hv] at h
          cases h
          simp only [beq_iff_eq] at hid
          simp only [bne_iff_ne, not_not] at ho
          exact ⟨hid, by simpa using List.find?_some hj, ho, validateRegion_iff.1 hv⟩

end Checks

/-! ## What a call does -/

/-- The tables are the same; the sequence may have moved on. -/
structure SameTables (s t : State) : Prop where
  devices : t.devices = s.devices
  mounts : t.mounts = s.mounts
  uses : t.uses = s.uses
  claims : t.claims = s.claims
  sequence : s.sequence ≤ t.sequence

instance : Std.Refl SameTables := ⟨fun _ => ⟨rfl, rfl, rfl, rfl, Nat.le_refl _⟩⟩

instance : IsTrans State SameTables where
  trans _ _ _ h g := ⟨g.devices.trans h.devices, g.mounts.trans h.mounts, g.uses.trans h.uses, g.claims.trans h.claims,
    Nat.le_trans h.sequence g.sequence⟩

theorem SameTables.refl (s : State) : SameTables s s := Std.Refl.refl s

open Stateful (Keeps FailsIn)

/-- Whatever comes out of it, no table changes. -/
abbrev Quiet {α : Type} (x : Op α) : Prop := x.Keeps SameTables

/-- A failure changes no table. -/
abbrev Fails {α : Type} (x : Op α) : Prop := x.FailsIn SameTables

theorem Quiet.check {α : Type} (f : State → Except Error α) : Quiet (Stateful.check f) := Keeps.check f

theorem Quiet.next : Quiet next :=
  Keeps.bind (Quiet.check _) (fun _ => Keeps.bind
    (Keeps.update (fun _ => ⟨rfl, rfl, rfl, rfl, Nat.le_succ _⟩)) (fun _ => Quiet.check _))

theorem Quiet.changed : Quiet changed :=
  Keeps.bind (Quiet.check _) (fun _ => Keeps.update (fun _ => ⟨rfl, rfl, rfl, rfl, Nat.le_refl _⟩))

theorem Fails.last {α : Type} (f : State → State) (a : α) : Fails (do Stateful.update f; pure a) :=
  (FailsIn.update f).map (fun _ => a)

theorem Fails.giving {α : Type} {x : Op α} (hx : Fails x) (f : α → Ref) : Fails (giving x f) := hx.map f

theorem giving_ok {α : Type} {x : Op α} {f : α → Ref} {s t : State} {r : Ref} (h : giving x f s = (.ok r, t)) :
    ∃ a, x s = (.ok a, t) := by
  rcases Stateful.bind_cases h with ⟨e, -, h⟩ | ⟨a, u, h, hu⟩
  · cases h
  · cases hu
    exact ⟨a, h⟩

open Stateful (bind_ok check_eq refuse_ok bind_cases)

section Steps

variable {s t : State}

theorem next_ok {n : Nat} (h : next s = (.ok n, t)) : n = s.sequence + 1 ∧ t = { s with sequence := s.sequence + 1 } := by
  obtain ⟨_, u, h1, h⟩ := bind_ok h
  obtain ⟨-, rfl⟩ := refuse_ok h1
  obtain ⟨_, u, h1, h⟩ := bind_ok h
  cases h1
  cases h
  exact ⟨rfl, rfl⟩

theorem changed_ok {u : Unit} (h : changed s = (.ok u, t)) : t = { s with topologyGeneration := s.topologyGeneration + 1 } := by
  obtain ⟨_, v, h1, h⟩ := bind_ok h
  obtain ⟨-, rfl⟩ := refuse_ok h1
  cases h
  rfl

theorem changed_state (s : State) : ∃ g, (changed s).2 = { s with topologyGeneration := g } := by
  rcases h : changed s with ⟨r, t⟩
  rcases bind_cases h with ⟨e, h1, -⟩ | ⟨_, u, h1, h⟩
  · obtain ⟨-, rfl⟩ := check_eq h1
    exact ⟨s.topologyGeneration, rfl⟩
  · obtain ⟨-, rfl⟩ := check_eq h1
    cases h
    exact ⟨_, rfl⟩

theorem slotOf_ok {n slot : Nat} {e : Error} {i : Fin n} (h : slotOf n slot e s = (.ok i, t)) : i.val = slot ∧ s = t := by
  obtain ⟨hf, rfl⟩ := check_eq h
  split at hf
  · cases hf; exact ⟨rfl, rfl⟩
  · cases hf

/-- The state with a new use in a free slot, under the next id. -/
def addUse (s : State) (i : Fin maxUses) (owner : Owner) (region : Region) (kind : UseKind) : State :=
  { s.setUse i { id := s.sequence + 1, owner, region, kind } with sequence := s.sequence + 1 }

theorem reserveUse_ok {region : Region} {owner : Owner} {kind : UseKind} {id : Nat}
    (h : reserveUse region owner kind s = (.ok id, t)) :
    ∃ i, (s.uses i).id = 0 ∧ t = addUse s i owner region kind := by
  obtain ⟨_, u, h1, h⟩ := bind_ok h
  obtain ⟨-, rfl⟩ := refuse_ok h1
  obtain ⟨i, u, h1, h⟩ := bind_ok h
  obtain ⟨hi, rfl⟩ := check_eq h1
  obtain ⟨n, u, h1, h⟩ := bind_ok h
  obtain ⟨rfl, rfl⟩ := next_ok h1
  cases h
  split at hi
  · cases hi
  · rename_i j hj
    cases hi
    exact ⟨i, by simpa using List.find?_some hj, rfl⟩

theorem Fails.reserveUse (region : Region) (owner : Owner) (kind : UseKind) : Fails (reserveUse region owner kind) :=
  FailsIn.bind (Quiet.check _) (fun _ => FailsIn.bind (Quiet.check _) (fun _ => FailsIn.bind Quiet.next (fun _ => Fails.last _ _)))

end Steps

/-- **What a successful call does**, and what it had found. -/
inductive Effect (s : State) : Call → State → Prop
  | registerDevice {slot sectors : Nat} (i : Fin maxDevices) (g : Nat) (hi : i.val = slot)
      (hfree : (s.devices i).active = false) :
      Effect s (.registerDevice slot sectors)
        { s.setDevice i { active := true, generation := s.sequence + 1, sectors } with
          sequence := s.sequence + 1, topologyGeneration := g }
  | beginRetirement {ref : DeviceRef} (i : Fin maxDevices) (h : s.canRetire ref = .ok i) :
      Effect s (.beginRetirement ref) (s.setDevice i { s.devices i with retiring := true })
  | cancelRetirement {ref : DeviceRef} (i : Fin maxDevices) :
      Effect s (.cancelRetirement ref) (s.setDevice i { s.devices i with retiring := false })
  | cancelNothing {ref : DeviceRef} : Effect s (.cancelRetirement ref) s
  | retireDevice {ref : DeviceRef} (i : Fin maxDevices) (g : Nat) (h : s.canRetire ref = .ok i) :
      Effect s (.retireDevice ref) { s.setDevice i { s.devices i with active := false } with topologyGeneration := g }
  | bindMount {slot : Nat} {region : Region} {required : Bool} (i : Fin maxMounts) (g : Nat) (hi : i.val = slot)
      (hfree : (s.mounts i).active = false) (hp : Placed s region) :
      Effect s (.bindMount slot region required)
        { s.setMount i { active := true, generation := s.sequence + 1, region, runtimeRequired := required } with
          sequence := s.sequence + 1, topologyGeneration := g }
  | unbindMount {ref : MountRef} (i : Fin maxMounts) (g : Nat) (h : s.mountValue ref = .ok i) :
      Effect s (.unbindMount ref) { s.setMount i { s.mounts i with active := false } with topologyGeneration := g }
  | beginUse {ref : MountRef} {owner : Owner} {kind : UseKind} (m : Fin maxMounts) (i : Fin maxUses)
      (hm : s.mountValue ref = .ok m) (hc : s.regionClaimed (s.mounts m).region = false) (hfree : (s.uses i).id = 0) :
      Effect s (.beginUse ref owner kind) (addUse s i owner (s.mounts m).region kind)
  | beginRawRead {region : Region} {owner : Owner} (i : Fin maxUses) (hp : Placed s region)
      (hc : s.regionClaimed region = false) (hfree : (s.uses i).id = 0) :
      Effect s (.beginRawRead region owner) (addUse s i owner region .raw)
  | endUse {id : Nat} {owner : Owner} (i : Fin maxUses) (h0 : id ≠ 0) (h : (s.uses i).id = id) :
      Effect s (.endUse id owner) (s.setUse i { s.uses i with id := 0 })
  | prepareClaim {region : Region} {owner : Owner} (i : Fin maxClaims) (g : Nat) (hp : Placed s region)
      (hu : s.regionUsed region = false) (hc : s.regionClaimed region = false) (hfree : (s.claims i).id = 0) :
      Effect s (.prepareClaim region owner)
        { s.setClaim i { id := s.sequence + 1, owner, region } with sequence := s.sequence + 1, topologyGeneration := g }
  | activateClaim {id : Nat} {owner : Owner} (i : Fin maxClaims) (h : s.claimValue id owner = .ok i) :
      Effect s (.activateClaim id owner) (s.setClaim i { s.claims i with phase := .active })
  | beginClaimIo {id : Nat} {owner : Owner} {region : Region} (c : Fin maxClaims) (i : Fin maxUses)
      (h : s.claimValue id owner = .ok c) (hact : (s.claims c).phase = .active)
      (hin : (s.claims c).region.contains region = true) (hfree : (s.uses i).id = 0) :
      Effect s (.beginClaimIo id owner region) (addUse s i owner region .raw)
  | finishClaim {id : Nat} {owner : Owner} (i : Fin maxClaims) (h : s.claimValue id owner = .ok i) :
      Effect s (.finishClaim id owner) (s.setClaim i { s.claims i with phase := .finishing })
  | releaseClaim {id : Nat} {owner : Owner} (i : Fin maxClaims) (g : Nat) (h : s.claimValue id owner = .ok i) :
      Effect s (.releaseClaim id owner) { s.setClaim i { s.claims i with id := 0 } with topologyGeneration := g }

section Exec

variable {s t : State}

/-- **A call that succeeds has its effect.** -/
theorem exec_ok {c : Call} {r : Ref} (h : c.exec s = (.ok r, t)) : Effect s c t := by
  cases c with
  | registerDevice slot sectors =>
    obtain ⟨_, h⟩ := giving_ok h
    obtain ⟨i, _, h1, h⟩ := bind_ok h
    obtain ⟨hi, rfl⟩ := slotOf_ok h1
    obtain ⟨_, _, h1, h⟩ := bind_ok h
    obtain ⟨-, rfl⟩ := refuse_ok h1
    obtain ⟨_, _, h1, h⟩ := bind_ok h
    obtain ⟨hfree, rfl⟩ := refuse_ok h1
    obtain ⟨_, _, h1, h⟩ := bind_ok h
    obtain ⟨rfl, rfl⟩ := next_ok h1
    obtain ⟨_, _, h1, h⟩ := bind_ok h
    obtain rfl := changed_ok h1
    cases h
    exact .registerDevice i _ hi hfree
  | beginRetirement ref =>
    obtain ⟨_, h⟩ := giving_ok h
    obtain ⟨i, _, h1, h⟩ := bind_ok h
    obtain ⟨hi, rfl⟩ := check_eq h1
    obtain ⟨_, _, h1, h⟩ := bind_ok h
    obtain ⟨-, rfl⟩ := refuse_ok h1
    cases h
    exact .beginRetirement i hi
  | cancelRetirement ref =>
    obtain ⟨_, h⟩ := giving_ok h
    cases h
    dsimp only
    split
    · split
      · exact .cancelRetirement _
      · exact .cancelNothing
    · exact .cancelNothing
  | retireDevice ref =>
    obtain ⟨_, h⟩ := giving_ok h
    obtain ⟨i, _, h1, h⟩ := bind_ok h
    obtain ⟨hi, rfl⟩ := check_eq h1
    obtain ⟨_, _, h1, h⟩ := bind_ok h
    obtain rfl := changed_ok h1
    cases h
    exact .retireDevice i _ hi
  | bindMount slot region required =>
    obtain ⟨_, h⟩ := giving_ok h
    obtain ⟨_, _, h1, h⟩ := bind_ok h
    obtain ⟨hp, rfl⟩ := check_eq h1
    obtain ⟨i, _, h1, h⟩ := bind_ok h
    obtain ⟨hi, rfl⟩ := slotOf_ok h1
    obtain ⟨_, _, h1, h⟩ := bind_ok h
    obtain ⟨hfree, rfl⟩ := refuse_ok h1
    obtain ⟨_, _, h1, h⟩ := bind_ok h
    obtain ⟨rfl, rfl⟩ := next_ok h1
    obtain ⟨_, _, h1, h⟩ := bind_ok h
    obtain rfl := changed_ok h1
    cases h
    exact .bindMount i _ hi hfree (validateRegion_iff.1 hp)
  | unbindMount ref =>
    obtain ⟨_, h⟩ := giving_ok h
    obtain ⟨i, _, h1, h⟩ := bind_ok h
    obtain ⟨hi, rfl⟩ := check_eq h1
    obtain ⟨_, _, h1, h⟩ := bind_ok h
    obtain ⟨-, rfl⟩ := refuse_ok h1
    obtain ⟨_, _, h1, h⟩ := bind_ok h
    obtain ⟨-, rfl⟩ := refuse_ok h1
    obtain ⟨_, _, h1, h⟩ := bind_ok h
    obtain rfl := changed_ok h1
    cases h
    exact .unbindMount i _ hi
  | beginUse ref owner kind =>
    obtain ⟨_, h⟩ := giving_ok h
    obtain ⟨_, _, h1, h⟩ := bind_ok h
    obtain ⟨-, rfl⟩ := refuse_ok h1
    obtain ⟨m, _, h1, h⟩ := bind_ok h
    obtain ⟨hm, rfl⟩ := check_eq h1
    obtain ⟨_, _, h1, h⟩ := bind_ok h
    obtain ⟨hc, rfl⟩ := refuse_ok h1
    obtain ⟨_, _, h1, h⟩ := bind_ok h
    cases h1
    obtain ⟨i, hfree, rfl⟩ := reserveUse_ok h
    exact .beginUse m i hm hc hfree
  | beginRawRead region owner =>
    obtain ⟨_, h⟩ := giving_ok h
    obtain ⟨_, _, h1, h⟩ := bind_ok h
    obtain ⟨hp, rfl⟩ := check_eq h1
    obtain ⟨_, _, h1, h⟩ := bind_ok h
    obtain ⟨hc, rfl⟩ := refuse_ok h1
    obtain ⟨i, hfree, rfl⟩ := reserveUse_ok h
    exact .beginRawRead i (validateRegion_iff.1 hp) hc hfree
  | endUse id owner =>
    obtain ⟨_, h⟩ := giving_ok h
    obtain ⟨_, _, h1, h⟩ := bind_ok h
    obtain ⟨h0, rfl⟩ := refuse_ok h1
    obtain ⟨i, _, h1, h⟩ := bind_ok h
    obtain ⟨hi, rfl⟩ := check_eq h1
    obtain ⟨_, _, h1, h⟩ := bind_ok h
    obtain ⟨-, rfl⟩ := refuse_ok h1
    cases h
    split at hi
    · cases hi
    · rename_i j hj
      cases hi
      exact .endUse i (by simpa using h0) (by simpa using List.find?_some hj)
  | prepareClaim region owner =>
    obtain ⟨_, h⟩ := giving_ok h
    obtain ⟨_, _, h1, h⟩ := bind_ok h
    obtain ⟨hp, rfl⟩ := check_eq h1
    obtain ⟨_, _, h1, h⟩ := bind_ok h
    obtain ⟨-, rfl⟩ := refuse_ok h1
    obtain ⟨_, _, h1, h⟩ := bind_ok h
    obtain ⟨-, rfl⟩ := refuse_ok h1
    obtain ⟨_, _, h1, h⟩ := bind_ok h
    obtain ⟨hfree, rfl⟩ := refuse_ok h1
    obtain ⟨i, _, h1, h⟩ := bind_ok h
    obtain ⟨hi, rfl⟩ := check_eq h1
    obtain ⟨_, _, h1, h⟩ := bind_ok h
    obtain rfl := changed_ok h1
    obtain ⟨_, _, h1, h⟩ := bind_ok h
    obtain ⟨rfl, rfl⟩ := next_ok h1
    cases h
    rw [Bool.or_eq_false_iff] at hfree
    split at hi
    · cases hi
    · rename_i j hj
      cases hi
      exact .prepareClaim i _ (validateRegion_iff.1 hp) hfree.1 hfree.2 (by simpa using List.find?_some hj)
  | activateClaim id owner =>
    obtain ⟨_, h⟩ := giving_ok h
    obtain ⟨i, _, h1, h⟩ := bind_ok h
    obtain ⟨hi, rfl⟩ := check_eq h1
    obtain ⟨_, _, h1, h⟩ := bind_ok h
    obtain ⟨-, rfl⟩ := refuse_ok h1
    cases h
    exact .activateClaim i hi
  | beginClaimIo id owner region =>
    obtain ⟨_, h⟩ := giving_ok h
    obtain ⟨c, _, h1, h⟩ := bind_ok h
    obtain ⟨hc, rfl⟩ := check_eq h1
    obtain ⟨_, _, h1, h⟩ := bind_ok h
    obtain ⟨hact, rfl⟩ := refuse_ok h1
    obtain ⟨_, _, h1, h⟩ := bind_ok h
    obtain ⟨hin, rfl⟩ := refuse_ok h1
    obtain ⟨i, hfree, rfl⟩ := reserveUse_ok h
    exact .beginClaimIo c i hc (by simpa using hact) (by simpa using hin) hfree
  | finishClaim id owner =>
    obtain ⟨_, h⟩ := giving_ok h
    obtain ⟨i, _, h1, h⟩ := bind_ok h
    obtain ⟨hi, rfl⟩ := check_eq h1
    obtain ⟨_, _, h1, h⟩ := bind_ok h
    cases h1
    obtain ⟨-, rfl⟩ := refuse_ok h
    exact .finishClaim i hi
  | releaseClaim id owner =>
    obtain ⟨_, h⟩ := giving_ok h
    obtain ⟨i, _, h1, h⟩ := bind_ok h
    obtain ⟨hi, rfl⟩ := check_eq h1
    obtain ⟨_, _, h1, h⟩ := bind_ok h
    obtain ⟨-, rfl⟩ := refuse_ok h1
    obtain ⟨_, _, h1, h⟩ := bind_ok h
    cases h1
    cases h
    obtain ⟨g, hg⟩ := changed_state s
    dsimp only
    rw [hg]
    exact .releaseClaim i g hi

/-- **A call that fails changes no table**, but that `finishClaim` closes its claim before it finds a use there. -/
theorem exec_error {c : Call} {e : Error} (h : c.exec s = (.error e, t)) : SameTables s t ∨
    ∃ id owner i, c = .finishClaim id owner ∧ s.claimValue id owner = .ok i ∧
      t = s.setClaim i { s.claims i with phase := .finishing } := by
  cases c with
  | registerDevice slot sectors =>
    exact .inl (Fails.giving (FailsIn.bind (Quiet.check _) (fun _ => FailsIn.bind (Quiet.check _) (fun _ => FailsIn.bind (Quiet.check _) (fun _ =>
      FailsIn.bind Quiet.next (fun _ => FailsIn.bind Quiet.changed (fun _ => Fails.last _ _)))))) _ s e t h)
  | beginRetirement ref =>
    exact .inl (Fails.giving (FailsIn.bind (Quiet.check _) (fun _ => FailsIn.bind (Quiet.check _) (fun _ => FailsIn.update _))) _ s e t h)
  | cancelRetirement ref => exact .inl (Fails.giving (FailsIn.update _) _ s e t h)
  | retireDevice ref =>
    exact .inl (Fails.giving (FailsIn.bind (Quiet.check _) (fun _ => FailsIn.bind Quiet.changed (fun _ => FailsIn.update _))) _ s e t h)
  | bindMount slot region required =>
    exact .inl (Fails.giving (FailsIn.bind (Quiet.check _) (fun _ => FailsIn.bind (Quiet.check _) (fun _ => FailsIn.bind (Quiet.check _) (fun _ =>
      FailsIn.bind Quiet.next (fun _ => FailsIn.bind Quiet.changed (fun _ => Fails.last _ _)))))) _ s e t h)
  | unbindMount ref =>
    exact .inl (Fails.giving (FailsIn.bind (Quiet.check _) (fun _ => FailsIn.bind (Quiet.check _) (fun _ => FailsIn.bind (Quiet.check _) (fun _ =>
      FailsIn.bind Quiet.changed (fun _ => FailsIn.update _))))) _ s e t h)
  | beginUse ref owner kind =>
    exact .inl (Fails.giving (FailsIn.bind (Quiet.check _) (fun _ => FailsIn.bind (Quiet.check _) (fun _ => FailsIn.bind (Quiet.check _) (fun _ =>
      FailsIn.bind (Quiet.check _) (fun _ => Fails.reserveUse _ _ _))))) _ s e t h)
  | beginRawRead region owner =>
    exact .inl (Fails.giving (FailsIn.bind (Quiet.check _) (fun _ => FailsIn.bind (Quiet.check _) (fun _ =>
      Fails.reserveUse _ _ _))) _ s e t h)
  | endUse id owner =>
    exact .inl (Fails.giving (FailsIn.bind (Quiet.check _) (fun _ => FailsIn.bind (Quiet.check _) (fun _ => FailsIn.bind (Quiet.check _) (fun _ =>
      FailsIn.update _)))) _ s e t h)
  | prepareClaim region owner =>
    exact .inl (Fails.giving (FailsIn.bind (Quiet.check _) (fun _ => FailsIn.bind (Quiet.check _) (fun _ => FailsIn.bind (Quiet.check _) (fun _ =>
      FailsIn.bind (Quiet.check _) (fun _ => FailsIn.bind (Quiet.check _) (fun _ => FailsIn.bind Quiet.changed (fun _ =>
        FailsIn.bind Quiet.next (fun _ => Fails.last _ _)))))))) _ s e t h)
  | activateClaim id owner =>
    exact .inl (Fails.giving (FailsIn.bind (Quiet.check _) (fun _ => FailsIn.bind (Quiet.check _) (fun _ => FailsIn.update _))) _ s e t h)
  | beginClaimIo id owner region =>
    exact .inl (Fails.giving (FailsIn.bind (Quiet.check _) (fun _ => FailsIn.bind (Quiet.check _) (fun _ => FailsIn.bind (Quiet.check _) (fun _ =>
      Fails.reserveUse _ _ _)))) _ s e t h)
  | finishClaim id owner =>
    rcases bind_cases h with ⟨e', h, -⟩ | ⟨a, u, -, hu⟩
    · rcases bind_cases h with ⟨e', h, -⟩ | ⟨i, u, h1, h⟩
      · obtain ⟨-, rfl⟩ := check_eq h
        exact .inl (SameTables.refl s)
      · obtain ⟨hi, rfl⟩ := check_eq h1
        rcases bind_cases h with ⟨e', h, -⟩ | ⟨_, u, h1, h⟩
        · cases h
        · cases h1
          obtain ⟨-, rfl⟩ := check_eq h
          exact .inr ⟨id, owner, i, rfl, hi, rfl⟩
    · cases hu
  | releaseClaim id owner =>
    refine .inl (Fails.giving (FailsIn.bind (Quiet.check _) (fun _ => FailsIn.bind (Quiet.check _) (fun _ =>
      FailsIn.bind (fun s => ?_) (fun _ => FailsIn.update _)))) _ s e t h)
    exact Quiet.changed s

end Exec

end Storage
end R4
