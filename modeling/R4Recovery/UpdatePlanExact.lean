import R4Recovery.UpdatePlan
/-!
# UpdatePlanExact — the install order is sound, complete and canonical

The planner answers with an order exactly when the references resolve and the needs have no cycle; and the order is the one
that takes, at every position, the first foundation package of the ready ones, or the first ready one.
-/
namespace R4
namespace UpdateBatch

open Manifest Precedence

variable {packages : List PlanPackage} {components : List PlanComponent} {requirements : List PlanRequirement}

/-! ## What a plan has to meet -/

/-- Two components of one kind and name, or of one target. -/
def Clash (a b : PlanComponent) : Prop :=
  (a.kind = b.kind ∧ a.name.map toUpper = b.name.map toUpper) ∨ a.target.map targetFold = b.target.map targetFold

def Provides (c : PlanComponent) (r : PlanRequirement) : Prop :=
  c.kind = r.kind ∧ c.name.map toUpper = r.name.map toUpper ∧ c.target.map targetFold = r.target.map targetFold ∧
    AtLeast c.version r.version

/-- Package `j` needs a component of another package `i`. -/
def Needs (components : List PlanComponent) (requirements : List PlanRequirement) (i j : Nat) : Prop :=
  i ≠ j ∧ ∃ r ∈ requirements, r.currentSatisfied = false ∧ r.packageIndex = j ∧
    ∃ c ∈ components, c.packageIndex = i ∧ Provides c r

def InLimits (packages : List PlanPackage) (room : Nat) : Prop :=
  0 < packages.length ∧ packages.length ≤ maxPackages ∧ packages.length ≤ room

def Resolves (count : Nat) (components : List PlanComponent) (r : PlanRequirement) : Prop :=
  r.packageIndex < count ∧ (r.currentSatisfied = false → ∃ c ∈ components, Provides c r)

structure Admissible (count : Nat) (components : List PlanComponent) (requirements : List PlanRequirement) : Prop where
  placed : ∀ c ∈ components, c.packageIndex < count
  distinct : components.Pairwise fun a b => ¬ Clash a b
  resolved : ∀ r ∈ requirements, Resolves count components r

/-- Of the packages that are ready after `pre`, the first foundation package, or the first if none is one. -/
def Lowest (packages : List PlanPackage) (edge : Nat → Nat → Prop) (pre : List Nat) (i : Nat) : Prop :=
  i < packages.length ∧ Ready edge pre i ∧
    (isFoundation packages i = true →
      ∀ j < packages.length, Ready edge pre j → isFoundation packages j = true → i ≤ j) ∧
    (isFoundation packages i = false →
      ∀ j < packages.length, Ready edge pre j → isFoundation packages j = false ∧ i ≤ j)

structure Canonical (packages : List PlanPackage) (edge : Nat → Nat → Prop) (order : List Nat) : Prop where
  perm : order.Perm (List.range packages.length)
  before : ∀ i j, edge i j → order.idxOf i < order.idxOf j
  lowest : ∀ pre i post, order = pre ++ i :: post → Lowest packages edge pre i

/-! ## Components -/

theorem clashes_iff (a b : PlanComponent) : a.clashes b = true ↔ Clash a b := by
  unfold PlanComponent.clashes Clash
  rw [Bool.or_eq_true, Bool.and_eq_true, beq_iff_eq, eqlIgnoreCase_iff, targetEquals_iff]

theorem Clash.symm {a b : PlanComponent} (h : Clash a b) : Clash b a :=
  h.imp (fun h => ⟨h.1.symm, h.2.symm⟩) Eq.symm

theorem provides_iff (c : PlanComponent) (r : PlanRequirement) : c.provides r = true ↔ Provides c r := by
  unfold PlanComponent.provides Provides
  rw [← eqlIgnoreCase_iff, ← targetEquals_iff, ← compareVersions_ge]
  simp only [Bool.not_or, Bool.and_eq_true, Bool.not_eq_true', Bool.not_eq_false', bne_eq_false_iff_eq,
    decide_eq_false_iff_not, and_assoc]

theorem checkComponents_spec (count : Nat) : ∀ (comps prior : List PlanComponent),
    (checkComponents count prior comps = .ok () ↔
      (∀ c ∈ comps, c.packageIndex < count) ∧ (∀ p ∈ prior, ∀ c ∈ comps, ¬ Clash p c) ∧
        comps.Pairwise fun a b => ¬ Clash a b) ∧ checkComponents count prior comps ≠ .error .dependencyCycle
  | [], prior => ⟨by simp [checkComponents], fun h => by cases h⟩
  | component :: rest, prior => by
    obtain ⟨hrest, hcycle⟩ := checkComponents_spec count rest (prior ++ [component])
    unfold checkComponents
    by_cases hplace : count ≤ component.packageIndex
    · rw [if_pos hplace]
      refine ⟨⟨(by cases ·), fun h => ?_⟩, by simp⟩
      exact absurd (h.1 component List.mem_cons_self) (Nat.not_lt.2 hplace)
    · rw [if_neg hplace]
      by_cases hany : prior.any (fun p => component.clashes p) = true
      · rw [if_pos hany]
        refine ⟨⟨(by cases ·), fun h => ?_⟩, by simp⟩
        obtain ⟨p, hp, hclash⟩ := List.any_eq_true.1 hany
        exact absurd ((clashes_iff _ _).1 hclash).symm (h.2.1 p hp component List.mem_cons_self)
      · rw [if_neg hany]
        refine ⟨hrest.trans ?_, hcycle⟩
        have hprior : ∀ p ∈ prior, ¬ Clash p component := fun p hp hc =>
          hany (List.any_eq_true.2 ⟨p, hp, (clashes_iff _ _).2 hc.symm⟩)
        rw [List.forall_mem_cons, List.pairwise_cons]
        constructor
        · rintro ⟨h1, h2, h3⟩
          refine ⟨⟨Nat.not_le.1 hplace, h1⟩, fun p hp => List.forall_mem_cons.2 ⟨hprior p hp, ?_⟩, ?_, h3⟩
          · exact h2 p (List.mem_append_left _ hp)
          · exact h2 component (List.mem_append_right _ List.mem_cons_self)
        · rintro ⟨⟨-, h1⟩, h2, h3, h4⟩
          refine ⟨h1, fun p hp => ?_, h4⟩
          rcases List.mem_append.1 hp with hp | hp
          · exact fun c hc => h2 p hp c (List.mem_cons_of_mem _ hc)
          · rwa [List.mem_singleton.1 hp]

theorem provider_unique (h : components.Pairwise fun a b => ¬ Clash a b) {r : PlanRequirement} {c c' : PlanComponent}
    (hc : c ∈ components) (hc' : c' ∈ components) (hp : Provides c r) (hp' : Provides c' r) : c = c' := by
  by_contra hne
  have : Std.Symm fun a b => ¬ Clash a b := ⟨fun _ _ hab hba => hab hba.symm⟩
  exact h.forall hc hc' hne (.inl ⟨hp.1.trans hp'.1.symm, hp.2.1.trans hp'.2.1.symm⟩)

/-! ## Edges -/

/-- The graph after the requirements `done`: an edge for each need, counted once. -/
structure Linked (count : Nat) (components : List PlanComponent) (done : List PlanRequirement) (g : Graph) : Prop where
  edges : ∀ i j, g.edges i j = true ↔ Needs components done i j
  indegree : ∀ j, g.indegree j = ((List.range count).countP fun i => g.edges i j : Nat)

variable {count : Nat} {done : List PlanRequirement} {g : Graph}

theorem Linked.init (count : Nat) (components : List PlanComponent) : Linked count components [] {} where
  edges i j := ⟨fun h => absurd h Bool.false_ne_true, fun ⟨_, r, hr, _⟩ => absurd hr List.not_mem_nil⟩
  indegree j := by
    rw [List.countP_eq_zero.2 (fun i _ => Bool.false_ne_true)]
    rfl

theorem needs_append (components : List PlanComponent) (done : List PlanRequirement) (r : PlanRequirement) (i j : Nat) :
    Needs components (done ++ [r]) i j ↔ Needs components done i j ∨ Needs components [r] i j := by
  unfold Needs
  constructor
  · rintro ⟨hne, r', hr', h⟩
    rcases List.mem_append.1 hr' with hr' | hr'
    · exact .inl ⟨hne, r', hr', h⟩
    · exact .inr ⟨hne, r', hr', h⟩
  · rintro (⟨hne, r', hr', h⟩ | ⟨hne, r', hr', h⟩)
    · exact ⟨hne, r', List.mem_append_left _ hr', h⟩
    · exact ⟨hne, r', List.mem_append_right _ hr', h⟩

theorem Linked.skip (h : Linked count components done g) {r : PlanRequirement} (hs : r.currentSatisfied = true) :
    Linked count components (done ++ [r]) g := by
  refine ⟨fun i j => ?_, h.indegree⟩
  rw [h.edges, needs_append, or_iff_left]
  rintro ⟨-, r', hr', hs', -⟩
  obtain rfl := List.mem_singleton.1 hr'
  exact absurd (hs'.symm.trans hs) Bool.false_ne_true

theorem Linked.link (h : Linked count components done g) (hdistinct : components.Pairwise fun a b => ¬ Clash a b)
    (hplaced : ∀ c ∈ components, c.packageIndex < count) {r : PlanRequirement} (hs : r.currentSatisfied = false)
    {c : PlanComponent} (hc : c ∈ components) (hp : Provides c r) :
    Linked count components (done ++ [r]) (g.link c.packageIndex r.packageIndex) := by
  have hone : ∀ i j, Needs components [r] i j ↔ i ≠ j ∧ i = c.packageIndex ∧ j = r.packageIndex := by
    intro i j
    constructor
    · rintro ⟨hne, r', hr', -, hj, c', hc', hi, hp'⟩
      obtain rfl := List.mem_singleton.1 hr'
      obtain rfl := provider_unique hdistinct hc hc' hp hp'
      exact ⟨hne, hi.symm, hj.symm⟩
    · rintro ⟨hne, rfl, rfl⟩
      exact ⟨hne, r, List.mem_singleton_self r, hs, rfl, c, hc, rfl, hp⟩
  unfold Graph.link
  by_cases hold : c.packageIndex = r.packageIndex ∨ g.edges c.packageIndex r.packageIndex = true
  · rw [if_pos hold]
    refine ⟨fun i j => ?_, h.indegree⟩
    rw [needs_append, hone, h.edges, iff_self_or]
    rintro ⟨hne, rfl, rfl⟩
    exact (h.edges _ _).1 (hold.resolve_left hne)
  · rw [if_neg hold]
    obtain ⟨hne, hnew⟩ := not_or.1 hold
    refine ⟨fun i j => ?_, fun j => ?_⟩
    · rw [needs_append, hone, ← h.edges, Bool.or_eq_true, decide_eq_true_eq]
      exact or_congr_right ⟨fun hij => ⟨by rw [hij.1, hij.2]; exact hne, hij⟩, And.right⟩
    · dsimp only
      by_cases hj : j = r.packageIndex
      · subst hj
        have hturn : (List.range count).countP (fun i => g.edges i r.packageIndex ||
            decide (i = c.packageIndex ∧ r.packageIndex = r.packageIndex))
            = (List.range count).countP (fun i => g.edges i r.packageIndex) + 1 :=
          countP_turn List.nodup_range (List.mem_range.2 (hplaced c hc)) (Bool.eq_false_iff.2 hnew) (by simp)
            (fun i hi => by simp [hi])
        rw [Function.update_self, h.indegree, hturn]
        rfl
      · rw [Function.update_of_ne hj, h.indegree]
        simp [hj]

/-- **The graph has an edge for each need, or some requirement does not resolve.** -/
theorem linkRequirements_spec (hdistinct : components.Pairwise fun a b => ¬ Clash a b)
    (hplaced : ∀ c ∈ components, c.packageIndex < count) : ∀ (reqs done : List PlanRequirement) (g : Graph),
    Linked count components done g →
    (∃ g', linkRequirements count components reqs g = .ok g' ∧ (∀ r ∈ reqs, Resolves count components r) ∧
      Linked count components (done ++ reqs) g') ∨
    ∃ e, linkRequirements count components reqs g = .error e ∧ e ≠ .dependencyCycle ∧
      ¬ ∀ r ∈ reqs, Resolves count components r
  | [], done, g, h => .inl ⟨g, rfl, fun _ hr => absurd hr List.not_mem_nil, by rwa [List.append_nil]⟩
  | r :: rest, done, g, h => by
    -- the rest of the list, once this requirement is dealt with
    have hgo : ∀ g', Resolves count components r → Linked count components (done ++ [r]) g' →
        linkRequirements count components (r :: rest) g = linkRequirements count components rest g' →
        (∃ g', linkRequirements count components (r :: rest) g = .ok g' ∧
          (∀ x ∈ r :: rest, Resolves count components x) ∧ Linked count components (done ++ r :: rest) g') ∨
        ∃ e, linkRequirements count components (r :: rest) g = .error e ∧ e ≠ .dependencyCycle ∧
          ¬ ∀ x ∈ r :: rest, Resolves count components x := by
      intro g' hr hlinked heq
      rw [heq]
      rcases linkRequirements_spec hdistinct hplaced rest _ g' hlinked with ⟨g'', hok, hrest, hg⟩ | ⟨e, he, hne, hrest⟩
      · rw [List.append_assoc, List.singleton_append] at hg
        exact .inl ⟨g'', hok, List.forall_mem_cons.2 ⟨hr, hrest⟩, hg⟩
      · exact .inr ⟨e, he, hne, fun hall => hrest (List.forall_mem_cons.1 hall).2⟩
    by_cases hplace : count ≤ r.packageIndex
    · refine .inr ⟨.invalidReference, by rw [linkRequirements, if_pos hplace], by decide, fun hall => ?_⟩
      exact absurd (hall r List.mem_cons_self).1 (Nat.not_lt.2 hplace)
    · cases hs : r.currentSatisfied with
      | true =>
        refine hgo g ⟨Nat.not_le.1 hplace, fun hf => absurd (hf.symm.trans hs) Bool.false_ne_true⟩ (h.skip hs) ?_
        rw [linkRequirements, if_neg hplace, if_pos hs]
      | false =>
        have hnot : ¬ r.currentSatisfied = true := ne_true_of_eq_false hs
        cases hfind : components.find? (fun component => component.provides r) with
        | none =>
          refine .inr ⟨.unresolvedRequirement, by rw [linkRequirements, if_neg hplace, if_neg hnot, hfind], by decide,
            fun hall => ?_⟩
          obtain ⟨c, hc, hp⟩ := (hall r List.mem_cons_self).2 hs
          exact List.find?_eq_none.1 hfind c hc ((provides_iff c r).2 hp)
        | some c =>
          have hc := List.mem_of_find?_eq_some hfind
          have hp := (provides_iff c r).1 (List.find?_some (p := fun c : PlanComponent => c.provides r) hfind)
          exact hgo _ ⟨Nat.not_le.1 hplace, fun _ => ⟨c, hc, hp⟩⟩ (h.link hdistinct hplaced hs hc hp)
            (by rw [linkRequirements, if_neg hplace, if_neg hnot, hfind])

/-! ## Emission -/

def Open (s : Emission) (i : Nat) : Prop := s.emitted i = false ∧ s.indegree i = 0

/-- The search has seen the packages below `k`. -/
def Chosen (packages : List PlanPackage) (s : Emission) (k : Nat) : Option Nat → Prop
  | none => ∀ j < k, ¬ Open s j
  | some i => i < k ∧ Open s i ∧
    (isFoundation packages i = true → ∀ j < k, Open s j → isFoundation packages j = true → i ≤ j) ∧
    (isFoundation packages i = false → ∀ j < k, Open s j → isFoundation packages j = false ∧ i ≤ j)

theorem choose_spec (packages : List PlanPackage) (s : Emission) {k : Nat} :
    ∀ {selected : Option Nat}, Chosen packages s k selected → Chosen packages s (k + 1) (choose packages s selected k) := by
  intro selected h
  unfold choose
  by_cases hopen : s.emitted k = true ∨ s.indegree k ≠ 0
  · rw [if_pos hopen]
    have hclosed : ¬ Open s k := fun ho => hopen.elim (fun he => absurd (ho.1.symm.trans he) Bool.false_ne_true) (· ho.2)
    have hless : ∀ {j}, j < k + 1 → Open s j → j < k := fun hj ho =>
      (Nat.lt_succ_iff_lt_or_eq.1 hj).resolve_right (fun heq => hclosed (heq ▸ ho))
    cases selected with
    | none => exact fun j hj ho => h j (hless hj ho) ho
    | some i =>
      obtain ⟨h1, h2, h3, h4⟩ := h
      exact ⟨h1.trans (Nat.lt_succ_self k), h2, fun hf j hj ho => h3 hf j (hless hj ho) ho,
        fun hf j hj ho => h4 hf j (hless hj ho) ho⟩
  · rw [if_neg hopen]
    have hk : Open s k := ⟨Bool.eq_false_iff.2 (fun he => hopen (.inl he)), not_not.1 (fun hne => hopen (.inr hne))⟩
    have hsplit : ∀ {j}, j < k + 1 → j < k ∨ j = k := Nat.lt_succ_iff_lt_or_eq.1
    cases selected with
    | none =>
      have honly : ∀ {j}, j < k + 1 → Open s j → j = k := fun hj ho => (hsplit hj).resolve_left (fun hlt => h _ hlt ho)
      exact ⟨Nat.lt_succ_self k, hk, fun _ j hj ho _ => (honly hj ho).ge,
        fun hf j hj ho => ⟨honly hj ho ▸ hf, (honly hj ho).ge⟩⟩
    | some i =>
      obtain ⟨h1, h2, h3, h4⟩ := h
      dsimp only
      cases hfk : isFoundation packages k with
      | false =>
        rw [Bool.false_and, if_neg Bool.false_ne_true]
        refine ⟨h1.trans (Nat.lt_succ_self k), h2, fun hf j hj ho hfj => ?_, fun hf j hj ho => ?_⟩
        · rcases hsplit hj with hj | rfl
          · exact h3 hf j hj ho hfj
          · exact h1.le
        · rcases hsplit hj with hj | rfl
          · exact h4 hf j hj ho
          · exact ⟨hfk, h1.le⟩
      | true =>
        cases hfi : isFoundation packages i with
        | true =>
          rw [Bool.not_true, Bool.and_false, if_neg Bool.false_ne_true]
          refine ⟨h1.trans (Nat.lt_succ_self k), h2, fun hf j hj ho hfj => ?_, fun hf => ?_⟩
          · rcases hsplit hj with hj | rfl
            · exact h3 hf j hj ho hfj
            · exact h1.le
          · exact absurd (hf.symm.trans hfi) Bool.false_ne_true
        | false =>
          rw [Bool.not_false, Bool.and_true, if_pos rfl]
          refine ⟨Nat.lt_succ_self k, hk, fun _ j hj ho hfj => ?_, fun hf => absurd (hf.symm.trans hfk) Bool.false_ne_true⟩
          rcases hsplit hj with hj | rfl
          · exact absurd ((h4 hfi j hj ho).1.symm.trans hfj) Bool.false_ne_true
          · exact Nat.le_refl j

theorem select_spec (packages : List PlanPackage) (s : Emission) :
    Chosen packages s packages.length (select packages s) := by
  unfold select
  have hrun : ∀ k, Chosen packages s k ((List.range k).foldl (choose packages s) none) := by
    intro k
    induction k with
    | zero => exact fun j hj => absurd hj (Nat.not_lt_zero j)
    | succ k ih =>
      rw [List.range_succ, List.foldl_append]
      exact choose_spec packages s ih
  exact hrun packages.length

/-- What holds between two turns of the loop: the in-degrees count the edges from packages that are still to come. -/
structure Emitting (packages : List PlanPackage) (edges : Nat → Nat → Bool) (s : Emission) : Prop where
  emitted : ∀ i, s.emitted i = true ↔ i ∈ s.out
  indegree : ∀ j < packages.length,
    s.indegree j = ((List.range packages.length).countP fun i => edges i j && !s.emitted i : Nat)
  bound : ∀ i ∈ s.out, i < packages.length
  lowest : ∀ pre i post, s.out = pre ++ i :: post → Lowest packages (fun i j => edges i j = true) pre i

variable {edges : Nat → Nat → Bool} {s : Emission}

namespace Emitting

theorem init (edges : Nat → Nat → Bool) (indegree : Nat → Int)
    (h : ∀ j, indegree j = ((List.range packages.length).countP fun i => edges i j : Nat)) :
    Emitting packages edges { indegree } where
  emitted i := ⟨fun h => absurd h Bool.false_ne_true, fun h => absurd h List.not_mem_nil⟩
  indegree j _ := by simp [h]
  bound i hi := absurd hi List.not_mem_nil
  lowest pre i post h := absurd h.symm (by simp)

theorem open_iff (h : Emitting packages edges s) (hrange : ∀ i j, edges i j = true → i < packages.length) {j : Nat}
    (hj : j < packages.length) : Open s j ↔ Ready (fun i j => edges i j = true) s.out j := by
  unfold Open Ready
  refine and_congr ?_ ?_
  · rw [← h.emitted, Bool.not_eq_true]
  · rw [h.indegree j hj, Int.natCast_eq_zero, List.countP_eq_zero]
    constructor
    · intro hall i hi
      have hnot := hall i (List.mem_range.2 (hrange i j hi))
      rw [hi, Bool.true_and, Bool.not_eq_true', Bool.not_eq_false] at hnot
      exact (h.emitted i).1 hnot
    · intro hall i _ hi
      rw [Bool.and_eq_true, Bool.not_eq_true'] at hi
      exact absurd (((h.emitted i).2 (hall i hi.1)).symm.trans hi.2) Bool.noConfusion

/-- **The chosen package is ready, and one turn keeps the invariant.** -/
theorem step (h : Emitting packages edges s) (hrange : ∀ i j, edges i j = true → i < packages.length) {next : Nat}
    (hsel : select packages s = some next) : Emitting packages edges (s.emit packages.length edges next) := by
  have hchosen := select_spec packages s
  rw [hsel] at hchosen
  obtain ⟨hlt, hopen, hfirst, hrest⟩ := hchosen
  have hlow : Lowest packages (fun i j => edges i j = true) s.out next :=
    ⟨hlt, (h.open_iff hrange hlt).1 hopen, fun hf j hj hr => hfirst hf j hj ((h.open_iff hrange hj).2 hr),
      fun hf j hj hr => hrest hf j hj ((h.open_iff hrange hj).2 hr)⟩
  refine ⟨fun i => ?_, fun j hj => ?_, fun i hi => ?_, fun pre i post heq => ?_⟩
  · show Function.update s.emitted next true i = true ↔ i ∈ s.out ++ [next]
    rw [List.mem_append, List.mem_singleton, ← h.emitted]
    by_cases hi : i = next
    · rw [hi, Function.update_self]
      simp
    · rw [Function.update_of_ne hi, or_iff_left hi]
  · show (if j < packages.length ∧ edges next j = true then s.indegree j - 1 else s.indegree j) = _
    cases he : edges next j with
    | true =>
      have hturn : (List.range packages.length).countP (fun i => edges i j && !s.emitted i)
          = (List.range packages.length).countP
              (fun i => edges i j && !(s.emit packages.length edges next).emitted i) + 1 := by
        refine countP_turn List.nodup_range (List.mem_range.2 hlt) ?_ ?_ (fun i hi => ?_)
        · simp [Emission.emit]
        · rw [he, hopen.1]
          rfl
        · simp [Emission.emit, hi]
      rw [if_pos ⟨hj, rfl⟩, h.indegree j hj, hturn]
      omega
    | false =>
      rw [if_neg (fun hc => absurd hc.2 Bool.false_ne_true), h.indegree j hj]
      congr 1
      refine List.countP_congr (fun i _ => ?_)
      by_cases hi : i = next
      · rw [hi, he]
        rfl
      · simp [Emission.emit, hi]
  · rcases List.mem_append.1 hi with hi | hi
    · exact h.bound i hi
    · exact List.mem_singleton.1 hi ▸ hlt
  · rcases List.eq_nil_or_concat post with rfl | ⟨post', y, rfl⟩
    · obtain ⟨rfl, hx⟩ := List.append_inj' heq rfl
      cases hx
      exact hlow
    · rw [List.concat_eq_append, ← List.cons_append, ← List.append_assoc] at heq
      obtain ⟨hout, -⟩ := List.append_inj' heq rfl
      exact h.lowest pre i post' hout

theorem layered (h : Emitting packages edges s) : Layered (fun i j => edges i j = true) s.out := fun pre i post heq =>
  (h.lowest pre i post heq).2.1

theorem missing {out : List Nat} {n : Nat} (hlen : out.length < n) : ∃ i ∈ List.range n, i ∉ out := by
  by_contra hall
  have hsub : List.range n ⊆ out := fun i hi => by
    by_contra hout
    exact hall ⟨i, hi, hout⟩
  have hle := (List.nodup_range.subperm hsub).length_le
  rw [List.length_range] at hle
  omega

/-- **The loop emits every package, or the edges have a cycle.** -/
theorem emitAll (hrange : ∀ i j, edges i j = true → i < packages.length) : ∀ (left : Nat) {s : Emission},
    Emitting packages edges s → s.out.length + left = packages.length →
    (∃ s', emitAll packages edges left s = .ok s'.out ∧ Emitting packages edges s' ∧ s'.out.length = packages.length) ∨
      (emitAll packages edges left s = .error .dependencyCycle ∧ ¬ Acyclic fun i j => edges i j = true)
  | 0, s, h, hlen => .inl ⟨s, rfl, h, hlen⟩
  | left + 1, s, h, hlen => by
    unfold UpdateBatch.emitAll
    have hchosen := select_spec packages s
    cases hsel : select packages s with
    | none =>
      rw [hsel] at hchosen
      refine .inr ⟨rfl, fun hacyclic => ?_⟩
      obtain ⟨i, hi, hout⟩ : ∃ i ∈ List.range packages.length, i ∉ s.out := missing (by omega)
      obtain ⟨j, hj, hready⟩ := exists_ready hacyclic (fun i j he => List.mem_range.2 (hrange i j he)) hi hout
      exact hchosen j (List.mem_range.1 hj) ((h.open_iff hrange (List.mem_range.1 hj)).2 hready)
    | some next =>
      refine emitAll hrange left (h.step hrange hsel) ?_
      show (s.out ++ [next]).length + left = _
      rw [List.length_append, List.length_singleton]
      omega

theorem canonical (h : Emitting packages edges s) (hlen : s.out.length = packages.length)
    (hrange : ∀ i j, edges i j = true → j < packages.length) :
    Canonical packages (fun i j => edges i j = true) s.out := by
  have hperm : s.out.Perm (List.range packages.length) := by
    refine (List.subperm_of_subset h.layered.nodup (fun i hi => List.mem_range.2 (h.bound i hi))).perm_of_length_le ?_
    rw [List.length_range, hlen]
  exact ⟨hperm, fun i j he => h.layered.before he (hperm.mem_iff.2 (List.mem_range.2 (hrange i j he))), h.lowest⟩

end Emitting

/-- **Package order is sound, complete and canonical.**  `planOrder` returns an order exactly when the limits hold, the
references resolve and the needs have no cycle; `dependencyCycle` is the answer exactly when only the last fails; and the
order puts every provider before its consumers and takes, at each position, the lowest ready package of the first class. -/
theorem planOrder_exact (packages : List PlanPackage) (components : List PlanComponent)
    (requirements : List PlanRequirement) (room : Nat) :
    ((∃ order, planOrder packages components requirements room = .ok order) ↔ InLimits packages room ∧
      Admissible packages.length components requirements ∧ Acyclic (Needs components requirements)) ∧
    (planOrder packages components requirements room = .error .dependencyCycle ↔ InLimits packages room ∧
      Admissible packages.length components requirements ∧ ¬ Acyclic (Needs components requirements)) ∧
    ∀ order, planOrder packages components requirements room = .ok order →
      Canonical packages (Needs components requirements) order := by
  -- a plan that fails before the loop fails both answers
  have hfail : ∀ e, e ≠ PlanError.dependencyCycle → planOrder packages components requirements room = .error e →
      ¬ (InLimits packages room ∧ Admissible packages.length components requirements) →
      ((∃ order, planOrder packages components requirements room = .ok order) ↔ InLimits packages room ∧
        Admissible packages.length components requirements ∧ Acyclic (Needs components requirements)) ∧
      (planOrder packages components requirements room = .error .dependencyCycle ↔ InLimits packages room ∧
        Admissible packages.length components requirements ∧ ¬ Acyclic (Needs components requirements)) ∧
      ∀ order, planOrder packages components requirements room = .ok order →
        Canonical packages (Needs components requirements) order := by
    intro e hne heq hnot
    rw [heq]
    refine ⟨⟨fun h => ?_, fun h => absurd ⟨h.1, h.2.1⟩ hnot⟩, ⟨fun h => ?_, fun h => absurd ⟨h.1, h.2.1⟩ hnot⟩, ?_⟩
    · obtain ⟨_, h⟩ := h
      cases h
    · exact absurd (Except.error.inj h) hne
    · intro order h
      cases h
  by_cases hlimit : packages.length = 0 ∨ maxPackages < packages.length ∨ room < packages.length
  · refine hfail .tooManyPackages (by decide) (by rw [planOrder, if_pos hlimit]) (fun h => ?_)
    obtain ⟨⟨h1, h2, h3⟩, -⟩ := h
    omega
  have hin : InLimits packages room := by
    unfold InLimits
    omega
  obtain ⟨hcheck, hcycle⟩ := checkComponents_spec packages.length components []
  cases hc : checkComponents packages.length [] components with
  | error e =>
    refine hfail e (fun he => hcycle (he ▸ hc)) (by rw [planOrder, if_neg hlimit, hc]) (fun h => ?_)
    rw [hcheck.2 ⟨h.2.placed, fun _ hp => absurd hp List.not_mem_nil, h.2.distinct⟩] at hc
    cases hc
  | ok _ =>
    obtain ⟨hplaced, -, hdistinct⟩ := hcheck.1 hc
    rcases linkRequirements_spec hdistinct hplaced requirements [] {} (Linked.init _ _) with
      ⟨g, hok, hresolved, hlinked⟩ | ⟨e, he, hne, hresolved⟩
    · rw [List.nil_append] at hlinked
      have hadmit : Admissible packages.length components requirements := ⟨hplaced, hdistinct, hresolved⟩
      have hedges : (fun i j => g.edges i j = true) = Needs components requirements := by
        funext i j
        exact propext (hlinked.edges i j)
      have hrange : ∀ i j, g.edges i j = true → i < packages.length ∧ j < packages.length := by
        intro i j he
        obtain ⟨-, r, hr, -, rfl, c, hc, rfl, -⟩ := (hlinked.edges i j).1 he
        exact ⟨hplaced c hc, (hresolved r hr).1⟩
      have hplan : planOrder packages components requirements room
          = emitAll packages g.edges packages.length { indegree := g.indegree } := by
        rw [planOrder, if_neg hlimit, hc]
        dsimp only
        rw [hok]
      rw [hplan, ← hedges]
      rcases (Emitting.init g.edges g.indegree hlinked.indegree).emitAll (fun i j he => (hrange i j he).1)
        packages.length (Nat.zero_add _) with ⟨s, hs, hemit, hlen⟩ | ⟨herr, hcyclic⟩
      · have hcan := hemit.canonical hlen (fun i j he => (hrange i j he).2)
        have hacyclic : Acyclic fun i j => g.edges i j = true := hemit.layered.acyclic (fun i j he =>
          hcan.perm.mem_iff.2 (List.mem_range.2 (hrange i j he).2))
        rw [hs]
        refine ⟨⟨fun _ => ⟨hin, hadmit, hacyclic⟩, fun _ => ⟨_, rfl⟩⟩, ⟨fun h => ?_, fun h => absurd hacyclic h.2.2⟩, ?_⟩
        · cases h
        · intro order h
          exact Except.ok.inj h ▸ hcan
      · rw [herr]
        refine ⟨⟨fun h => ?_, fun h => absurd h.2.2 hcyclic⟩, ⟨fun _ => ⟨hin, hadmit, hcyclic⟩, fun _ => rfl⟩, ?_⟩
        · obtain ⟨_, h⟩ := h
          cases h
        · intro order h
          cases h
    · refine hfail e hne ?_ (fun h => hresolved h.2.resolved)
      rw [planOrder, if_neg hlimit, hc]
      dsimp only
      rw [he]

end UpdateBatch
end R4
