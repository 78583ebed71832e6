import R4Recovery.HiveBuild
/-!
# HiveBuildTree — the keys that the writer collects

The collected keys form a tree whose parents come before their children.  A path is located in it exactly when its components
are, up to case, a prefix of those of a collected value.
-/
namespace R4
namespace Hive

/-- A path up to ASCII case. -/
def foldCase (path : List Bytes) : List Bytes := path.map (fun component => component.map toUpper)

theorem foldCase_append (a b : List Bytes) : foldCase (a ++ b) = foldCase a ++ foldCase b := List.map_append

/-- **A tree of keys**: the root first, every parent before its children, siblings of different names. -/
structure Tree (keys : List BuildKey) : Prop where
  root : keys[0]? = some { parent := invalidIndex, name := [] }
  parents : ∀ (i : Nat) (key : BuildKey), 0 < i → keys[i]? = some key → key.parent < i
  names : ∀ (i : Nat) (key : BuildKey), 0 < i → keys[i]? = some key → validName key.name false = true
  distinct : ∀ (i j : Nat) (a b : BuildKey), 0 < i → i < j → keys[i]? = some a → keys[j]? = some b → a.parent = b.parent →
    eqlIgnoreCase a.name b.name = false

def locate (keys : List BuildKey) : Nat → List Bytes → Option Nat
  | current, [] => some current
  | current, component :: rest => (findBuildChild keys current component).bind (fun child => locate keys child rest)

theorem Tree.length_pos {keys : List BuildKey} (h : Tree keys) : 0 < keys.length := by
  have hroot := h.root
  by_contra h0
  rw [List.getElem?_eq_none (by omega)] at hroot
  cases hroot

theorem tree_root : Tree [{ parent := invalidIndex, name := [] }] where
  root := rfl
  parents i key hi hkey := by
    rw [List.getElem?_eq_none (show [_].length ≤ i from hi)] at hkey
    cases hkey
  names i key hi hkey := by
    rw [List.getElem?_eq_none (show [_].length ≤ i from hi)] at hkey
    cases hkey
  distinct i j a b hi hij ha _ _ := by
    rw [List.getElem?_eq_none (show [_].length ≤ i from hi)] at ha
    cases ha

/-! ## Children -/

theorem findBuildChild_some {keys : List BuildKey} {parent index : Nat} {name : Bytes}
    (h : findBuildChild keys parent name = some index) :
    0 < index ∧ ∃ key, keys[index]? = some key ∧ key.parent = parent ∧ eqlIgnoreCase key.name name = true := by
  obtain ⟨hfound, hmem, _⟩ := List.find?_range'_eq_some.1 h
  obtain ⟨hlo, _⟩ := List.mem_range'_1.1 hmem
  obtain ⟨key, hkey, hmatch⟩ := (Option.any_eq_true _ _).1 hfound
  rw [Bool.and_eq_true, beq_iff_eq] at hmatch
  exact ⟨hlo, key, hkey, hmatch⟩

theorem findBuildChild_append {keys : List BuildKey} (hpos : 0 < keys.length) (key : BuildKey) (parent : Nat)
    (name : Bytes) :
    findBuildChild (keys ++ [key]) parent name = (findBuildChild keys parent name).or
      (if key.parent == parent && eqlIgnoreCase key.name name then some keys.length else none) := by
  unfold findBuildChild
  have hlen : (keys ++ [key]).length - 1 = (keys.length - 1) + 1 := by
    rw [List.length_append, List.length_singleton]
    omega
  have hlast : 1 + (keys.length - 1) = keys.length := by omega
  rw [hlen, List.range'_concat, List.find?_append, Nat.one_mul, hlast]
  congr 1
  · refine List.find?_congr (fun i hi => ?_)
    obtain ⟨_, hhi⟩ := List.mem_range'_1.1 hi
    rw [List.getElem?_append_left (by omega)]
  · rw [List.find?_cons, List.getElem?_append_right (Nat.le_refl _), Nat.sub_self]
    show (match key.parent == parent && eqlIgnoreCase key.name name with | true => _ | false => _) = _
    cases key.parent == parent && eqlIgnoreCase key.name name <;> rfl

theorem findBuildChild_mono {keys : List BuildKey} (hpos : 0 < keys.length) {key : BuildKey} {parent index : Nat}
    {name : Bytes}
    (h : findBuildChild keys parent name = some index) : findBuildChild (keys ++ [key]) parent name = some index := by
  rw [findBuildChild_append hpos, h, Option.some_or]

theorem eqlIgnoreCase_trans {a b c : Bytes} (hab : eqlIgnoreCase a b = true) (hbc : eqlIgnoreCase b c = true) :
    eqlIgnoreCase a c = true :=
  (eqlIgnoreCase_iff _ _).2 (((eqlIgnoreCase_iff _ _).1 hab).trans ((eqlIgnoreCase_iff _ _).1 hbc))

theorem eqlIgnoreCase_symm {a b : Bytes} (h : eqlIgnoreCase a b = true) : eqlIgnoreCase b a = true :=
  (eqlIgnoreCase_iff _ _).2 ((eqlIgnoreCase_iff _ _).1 h).symm

theorem findBuildChild_congr (keys : List BuildKey) (parent : Nat) {a b : Bytes} (h : a.map toUpper = b.map toUpper) :
    findBuildChild keys parent a = findBuildChild keys parent b := by
  unfold findBuildChild eqlIgnoreCase
  rw [h]

theorem Tree.append {keys : List BuildKey} (h : Tree keys) {parent : Nat} {name : Bytes} (hp : parent < keys.length)
    (hname : validName name false = true) (hnew : findBuildChild keys parent name = none) :
    Tree (keys ++ [{ parent := parent, name := name }]) := by
  have hpos := h.length_pos
  have hget : ∀ (i : Nat) (key : BuildKey), (keys ++ [{ parent := parent, name := name }])[i]? = some key →
      keys[i]? = some key ∨ (i = keys.length ∧ key = { parent := parent, name := name }) := by
    intro i key hkey
    rcases Nat.lt_trichotomy i keys.length with hi | hi | hi
    · rw [List.getElem?_append_left hi] at hkey
      exact Or.inl hkey
    · rw [hi, List.getElem?_append_right (Nat.le_refl _), Nat.sub_self] at hkey
      exact Or.inr ⟨hi, (Option.some.inj hkey).symm⟩
    · rw [List.getElem?_eq_none (by rw [List.length_append, List.length_singleton]; omega)] at hkey
      cases hkey
  refine ⟨?_, fun i key hi hkey => ?_, fun i key hi hkey => ?_, fun i j a b hi hij ha hb hab => ?_⟩
  · rw [List.getElem?_append_left hpos]
    exact h.root
  · rcases hget i key hkey with hkey | ⟨rfl, rfl⟩
    · exact h.parents i key hi hkey
    · exact hp
  · rcases hget i key hkey with hkey | ⟨rfl, rfl⟩
    · exact h.names i key hi hkey
    · exact hname
  · rcases hget i a ha with ha | ⟨rfl, rfl⟩
    · rcases hget j b hb with hb | ⟨rfl, rfl⟩
      · exact h.distinct i j a b hi hij ha hb hab
      · -- no key of the parent has the name of the new one
        have hnone := List.find?_range'_eq_none.1 hnew i hi (by omega)
        rw [ha] at hnone
        simp only [Option.any_some, Bool.not_eq_true', Bool.and_eq_false_iff, beq_eq_false_iff_ne] at hnone
        exact hnone.resolve_left (not_not.2 hab)
    · rcases hget j b hb with hb | ⟨rfl, rfl⟩
      · rw [List.getElem?_eq_none (by omega)] at hb
        cases hb
      · omega

/-! ## Paths -/

theorem locate_append (keys : List BuildKey) : ∀ (a : List Bytes) (current : Nat) (b : List Bytes),
    locate keys current (a ++ b) = (locate keys current a).bind (fun next => locate keys next b)
  | [], _, _ => rfl
  | component :: a, current, b => by
    rw [List.cons_append, locate, locate, Option.bind_assoc]
    congr 1
    funext child
    exact locate_append keys a child b

theorem locate_snoc (keys : List BuildKey) (a : List Bytes) (current : Nat) (component : Bytes) :
    locate keys current (a ++ [component]) = (locate keys current a).bind (fun next => findBuildChild keys next component) := by
  rw [locate_append]
  congr 1
  funext next
  show (findBuildChild keys next component).bind some = _
  exact Option.bind_fun_some _

theorem locate_congr (keys : List BuildKey) : ∀ {a b : List Bytes} (current : Nat), foldCase a = foldCase b →
    locate keys current a = locate keys current b
  | [], [], _, _ => rfl
  | [], _ :: _, _, h => by cases h
  | _ :: _, [], _, h => by cases h
  | x :: a, y :: b, current, h => by
    obtain ⟨hxy, hab⟩ := List.cons.inj h
    rw [locate, locate, findBuildChild_congr keys current hxy]
    congr 1
    funext child
    exact locate_congr keys child hab

theorem locate_lt {keys : List BuildKey} : ∀ {path : List Bytes} {current index : Nat}, current < keys.length →
    locate keys current path = some index → index < keys.length
  | [], _, _, hc, h => by
    cases h
    exact hc
  | component :: rest, current, index, hc, h => by
    obtain ⟨child, hchild, h⟩ := Option.bind_eq_some_iff.1 h
    obtain ⟨_, key, hkey, _⟩ := findBuildChild_some hchild
    exact locate_lt (List.getElem?_eq_some_iff.1 hkey).1 h

/-- **A key has one path up to case.** -/
theorem Tree.locate_inj {keys : List BuildKey} (h : Tree keys) : ∀ (index : Nat) {a b : List Bytes},
    locate keys 0 a = some index → locate keys 0 b = some index → foldCase a = foldCase b := by
  intro index
  induction index using Nat.strong_induction_on with
  | _ index ih =>
    intro a b ha hb
    -- the last component of a path names a key behind the root
    have hlast : ∀ {p : List Bytes} {x : Bytes}, locate keys 0 (p ++ [x]) = some index → 0 < index ∧ ∃ key,
        keys[index]? = some key ∧ locate keys 0 p = some key.parent ∧ key.name.map toUpper = x.map toUpper := by
      intro p x hp
      rw [locate_snoc] at hp
      obtain ⟨next, hnext, hfind⟩ := Option.bind_eq_some_iff.1 hp
      obtain ⟨hpos, key, hkey, hparent, hname⟩ := findBuildChild_some hfind
      exact ⟨hpos, key, hkey, by rw [hnext, hparent], (eqlIgnoreCase_iff _ _).1 hname⟩
    rcases List.eq_nil_or_concat a with rfl | ⟨a', x, rfl⟩
    · rcases List.eq_nil_or_concat b with rfl | ⟨b', y, rfl⟩
      · rfl
      · rw [List.concat_eq_append] at hb
        have h0 : index = 0 := (Option.some.inj ha).symm
        exact absurd (hlast hb).1 (by omega)
    · rw [List.concat_eq_append] at ha ⊢
      obtain ⟨hpos, key, hkey, hpa, hxa⟩ := hlast ha
      rcases List.eq_nil_or_concat b with rfl | ⟨b', y, rfl⟩
      · have h0 : index = 0 := (Option.some.inj hb).symm
        omega
      · rw [List.concat_eq_append] at hb ⊢
        obtain ⟨_, key', hkey', hpb, hyb⟩ := hlast hb
        rw [hkey] at hkey'
        cases hkey'
        rw [foldCase_append, foldCase_append, ih key.parent (h.parents index key hpos hkey) hpa hpb]
        congr 1
        exact congrArg (fun n => [n]) (hxa.symm.trans hyb)

theorem locate_mono {keys : List BuildKey} (hpos : 0 < keys.length) {key : BuildKey} : ∀ {path : List Bytes}
    {current index : Nat},
    locate keys current path = some index → locate (keys ++ [key]) current path = some index
  | [], _, _, h => h
  | component :: rest, current, index, h => by
    obtain ⟨child, hchild, h⟩ := Option.bind_eq_some_iff.1 h
    exact Option.bind_eq_some_iff.2 ⟨child, findBuildChild_mono hpos hchild, locate_mono hpos h⟩

theorem Tree.locate_new {keys : List BuildKey} (h : Tree keys) {path : List Bytes} {parent : Nat} {name : Bytes}
    (hp : locate keys 0 path = some parent) : ∀ {rest pre : List Bytes} {current index : Nat},
      locate keys 0 pre = some current → locate (keys ++ [{ parent := parent, name := name }]) current rest = some index →
      locate keys 0 (pre ++ rest) = some index ∨ foldCase (pre ++ rest) = foldCase (path ++ [name])
  | [], pre, current, index, hpre, hl => by
    cases hl
    rw [List.append_nil]
    exact Or.inl hpre
  | component :: rest, pre, current, index, hpre, hl => by
    have hpos := h.length_pos
    have hplt := locate_lt hpos hp
    obtain ⟨child, hchild, hl⟩ := Option.bind_eq_some_iff.1 hl
    rw [findBuildChild_append hpos] at hchild
    rcases Option.or_eq_some_iff.1 hchild with hold | ⟨_, hnew⟩
    · have hnext : locate keys 0 (pre ++ [component]) = some child := by
        rw [locate_snoc, hpre]
        exact hold
      have hrec := h.locate_new hp hnext hl
      rwa [List.append_assoc, List.singleton_append] at hrec
    · split at hnew
      · rename_i hmatch
        cases hnew
        rw [Bool.and_eq_true, beq_iff_eq] at hmatch
        obtain ⟨hparent, hname⟩ := hmatch
        -- the new key has no child
        cases rest with
        | nil =>
          refine Or.inr ?_
          rw [← hparent] at hpre
          rw [foldCase_append, foldCase_append, h.locate_inj _ hpre hp]
          congr 1
          exact congrArg (fun n => [n]) ((eqlIgnoreCase_iff _ _).1 hname).symm
        | cons y rest =>
          obtain ⟨grandchild, hg, _⟩ := Option.bind_eq_some_iff.1 hl
          obtain ⟨hgpos, key, hkey, hgparent, _⟩ := findBuildChild_some hg
          have hglt := (List.getElem?_eq_some_iff.1 hkey).1
          rw [List.length_append, List.length_singleton] at hglt
          by_cases hlast : grandchild = keys.length
          · rw [hlast, List.getElem?_append_right (Nat.le_refl _), Nat.sub_self] at hkey
            cases hkey
            have hself : parent = keys.length := hgparent
            omega
          · rw [List.getElem?_append_left (by omega)] at hkey
            have := h.parents grandchild key hgpos hkey
            omega
      · cases hnew

/-! ## The keys of a path -/

/-- The loop of the writer over a list of components. -/
def ensureList (room : BuildRoom) : List BuildKey → Nat → List Bytes → Except Error (List BuildKey × Nat)
  | keys, current, [] => .ok (keys, current)
  | keys, current, component :: rest =>
    if !validName component false then .error .badName
    else match findBuildChild keys current component with
      | some child => ensureList room keys child rest
      | none =>
        if room.keys ≤ keys.length then .error .tooManyEntries
        else ensureList room (keys ++ [{ parent := current, name := component }]) keys.length rest

theorem ensureComponents_eq (room : BuildRoom) : ∀ (left : Nat) (keys : List BuildKey) (current : Nat) (rest : Bytes),
    rest.length < left → ensureComponents room left keys current rest = some (ensureList room keys current (components rest))
  | 0, _, _, _, h => absurd h (Nat.not_lt_zero _)
  | left + 1, keys, current, rest, h => by
    unfold ensureComponents
    cases hnext : nextComponent rest with
    | none =>
      rw [nextComponent_none hnext]
      rfl
    | some pair =>
      obtain ⟨component, next⟩ := pair
      obtain ⟨heq, hlen⟩ := nextComponent_some hnext
      rw [heq, ensureList]
      dsimp only
      split
      · rfl
      · cases findBuildChild keys current component with
        | some child => exact ensureComponents_eq room left keys child next (by omega)
        | none =>
          dsimp only
          split
          · rfl
          · exact ensureComponents_eq room left _ _ next (by omega)

/-- The keys are grown by those of one path. -/
structure Grown (keys : List BuildKey) (path : List Bytes) (keys' : List BuildKey) (index : Nat) : Prop where
  tree : Tree keys'
  kept : ∀ p i, locate keys 0 p = some i → locate keys' 0 p = some i
  located : locate keys' 0 path = some index
  paths : ∀ p i, locate keys' 0 p = some i → locate keys 0 p = some i ∨ foldCase p <+: foldCase path

/-- **Only a lack of room stops the loop.** -/
theorem ensureList_spec (room : BuildRoom) : ∀ (rest pre : List Bytes) {keys : List BuildKey} {current : Nat}, Tree keys →
    locate keys 0 pre = some current → (∀ component ∈ rest, validName component false = true) →
    ensureList room keys current rest = .error .tooManyEntries ∨
      ∃ keys' index, ensureList room keys current rest = .ok (keys', index) ∧ Grown keys (pre ++ rest) keys' index
  | [], pre, keys, current, ht, hl, _ => by
    rw [List.append_nil]
    exact Or.inr ⟨keys, current, rfl, ht, fun _ _ h => h, hl, fun _ _ h => Or.inl h⟩
  | component :: rest, pre, keys, current, ht, hl, hnames => by
    have hname := hnames component List.mem_cons_self
    have hrest : ∀ c ∈ rest, validName c false = true := fun c hc => hnames c (List.mem_cons_of_mem _ hc)
    have hassoc : pre ++ component :: rest = (pre ++ [component]) ++ rest := by
      rw [List.append_assoc, List.singleton_append]
    have hpos := ht.length_pos
    rw [ensureList, hname, hassoc]
    show (match findBuildChild keys current component with | some child => _ | none => _) = _ ∨ _
    cases hfind : findBuildChild keys current component with
    | some child =>
      have hchild : locate keys 0 (pre ++ [component]) = some child := by
        rw [locate_snoc, hl]
        exact hfind
      exact ensureList_spec room rest (pre ++ [component]) ht hchild hrest
    | none =>
      dsimp only
      by_cases hroom : room.keys ≤ keys.length
      · rw [if_pos hroom]
        exact Or.inl rfl
      · rw [if_neg hroom]
        have ht' := ht.append (locate_lt hpos hl) hname hfind
        have hnew : locate (keys ++ [{ parent := current, name := component }]) 0 (pre ++ [component])
            = some keys.length := by
          rw [locate_snoc, locate_mono hpos hl]
          show findBuildChild _ _ _ = _
          rw [findBuildChild_append hpos, hfind, Option.none_or, beq_self_eq_true,
            (eqlIgnoreCase_iff _ _).2 rfl]
          rfl
        rcases ensureList_spec room rest (pre ++ [component]) ht' hnew hrest with hfull | ⟨keys', index, hok, hgrown⟩
        · exact Or.inl hfull
        · refine Or.inr ⟨keys', index, hok, hgrown.tree, fun p i hp => hgrown.kept p i (locate_mono hpos hp),
            hgrown.located, fun p i hp => ?_⟩
          rcases hgrown.paths p i hp with hp | hp
          · rcases ht.locate_new hl (show locate keys 0 [] = some 0 from rfl) hp with hold | heq
            · exact Or.inl hold
            · rw [List.nil_append] at heq
              rw [heq, foldCase_append (pre ++ [component])]
              exact Or.inr (List.prefix_append _ _)
          · exact Or.inr hp

/-! ## The values -/

/-- The components of a path. -/
def address (path : Bytes) : List Bytes := ((parseRoot path).map (fun root => components root.2)).getD []

/-- **What the writer checks of a value.** -/
structure ValueAccepted (kind : HiveKind) (value : BuildValue) : Prop where
  payload : PayloadOk value.valueType value.data
  name : validName value.name true = true
  path : ∃ rest, parseRoot value.keyPath = some (kind, rest)
  components : ∀ component ∈ address value.keyPath, validName component false = true

/-- Two values of one key and one name, up to case. -/
def SameEntry (a b : BuildValue) : Prop :=
  foldCase (address a.keyPath) = foldCase (address b.keyPath) ∧ eqlIgnoreCase a.name b.name = true

/-- **What the writer checks of its input.** -/
structure Accepted (kind : HiveKind) (values : List BuildValue) : Prop where
  each : ∀ value ∈ values, ValueAccepted kind value
  distinct : values.Pairwise (fun a b => ¬ SameEntry a b)

theorem ensureBuildKey_spec (room : BuildRoom) {kind : HiveKind} {value : BuildValue} (hv : ValueAccepted kind value)
    {keys : List BuildKey} (ht : Tree keys) :
    ensureBuildKey room kind keys value.keyPath = .error .tooManyEntries ∨
      ∃ keys' index, ensureBuildKey room kind keys value.keyPath = .ok (keys', index) ∧
        Grown keys (address value.keyPath) keys' index := by
  obtain ⟨rest, hrest⟩ := hv.path
  have haddress : address value.keyPath = components rest := by
    rw [address, hrest]
    rfl
  have hnames := hv.components
  rw [haddress] at hnames ⊢
  unfold ensureBuildKey
  rw [hrest]
  dsimp only
  rw [if_neg (not_not.2 rfl), ensureComponents_eq room _ keys 0 rest (Nat.lt_succ_self _)]
  exact ensureList_spec room (components rest) [] ht rfl hnames

/-- The keys and the values that are collected. -/
structure Collected (input : List BuildValue) (keys : List BuildKey) (done : List (BuildValue × Nat)) : Prop where
  tree : Tree keys
  values : done.map Prod.fst = input
  located : ∀ p ∈ done, locate keys 0 (address p.1.keyPath) = some p.2
  paths : ∀ path i, locate keys 0 path = some i →
    path = [] ∨ ∃ value ∈ input, foldCase path <+: foldCase (address value.keyPath)

/-- **The values that pass the checks are collected, or the room does not suffice.** -/
theorem collectKeys_spec (room : BuildRoom) (kind : HiveKind) : ∀ (values : List BuildValue) {input : List BuildValue}
    {keys : List BuildKey} {done : List (BuildValue × Nat)}, Accepted kind (input ++ values) → Collected input keys done →
    collectKeys room kind values keys done = .error .tooManyEntries ∨
      ∃ keys' done', collectKeys room kind values keys done = .ok (keys', done') ∧ Collected (input ++ values) keys' done'
  | [], input, keys, done, _, hc => by
    rw [List.append_nil]
    exact Or.inr ⟨keys, done, rfl, hc⟩
  | value :: rest, input, keys, done, ha, hc => by
    have hassoc : input ++ value :: rest = (input ++ [value]) ++ rest := by
      rw [List.append_assoc, List.singleton_append]
    have hvalue := ha.each value (List.mem_append_right _ List.mem_cons_self)
    have hpayload : payloadCheck value = .ok () := by
      unfold payloadCheck
      rw [hvalue.payload]
    rw [collectKeys, hpayload, hvalue.name]
    show (ensureBuildKey room kind keys value.keyPath >>= _) = _ ∨
        ∃ keys' done', (ensureBuildKey room kind keys value.keyPath >>= _) =
      _ ∧ _
    rcases ensureBuildKey_spec room hvalue hc.tree with hfull | ⟨keys', index, hok, hgrown⟩
    · rw [hfull]
      exact Or.inl rfl
    · rw [hok]
      -- no value that is done has the key and the name of this one
      have hnone : done.any (fun prior => prior.2 == index && eqlIgnoreCase prior.1.name value.name) = false := by
        rw [List.any_eq_false]
        intro prior hprior hboth
        rw [Bool.and_eq_true, beq_iff_eq] at hboth
        have hmem : prior.1 ∈ input := by
          rw [← hc.values]
          exact List.mem_map_of_mem hprior
        have hlocated := hgrown.kept _ _ (hc.located prior hprior)
        rw [hboth.1] at hlocated
        exact (List.pairwise_append.1 ha.distinct).2.2 prior.1 hmem value List.mem_cons_self
          ⟨hgrown.tree.locate_inj index hlocated hgrown.located, hboth.2⟩
      show (if done.any (fun prior => prior.2 == index && eqlIgnoreCase prior.1.name value.name) = true then _ else _) = _ ∨
        ∃ keys' done', (if done.any (fun prior => prior.2 == index && eqlIgnoreCase prior.1.name value.name)
        = true then _ else _) = _ ∧ _
      rw [hnone, if_neg Bool.false_ne_true, hassoc]
      rw [hassoc] at ha
      refine collectKeys_spec room kind rest ha ⟨hgrown.tree, ?_, fun p hp => ?_, fun path i hpath => ?_⟩
      · rw [List.map_append, hc.values]
        rfl
      · rcases List.mem_append.1 hp with hp | hp
        · exact hgrown.kept _ _ (hc.located p hp)
        · rw [List.mem_singleton.1 hp]
          exact hgrown.located
      · rcases hgrown.paths path i hpath with hold | hnew
        · rcases hc.paths path i hold with hnil | ⟨v, hv, hprefix⟩
          · exact Or.inl hnil
          · exact Or.inr ⟨v, List.mem_append_left _ hv, hprefix⟩
        · exact Or.inr ⟨value, List.mem_append_right _ (List.mem_singleton.2 rfl), hnew⟩

/-- **A path is located exactly when it is a prefix of a collected one, up to case.** -/
theorem Collected.located_iff {input : List BuildValue} {keys : List BuildKey} {done : List (BuildValue × Nat)}
    (hc : Collected input keys done) (path : List Bytes) : (∃ i, locate keys 0 path = some i) ↔
      path = [] ∨ ∃ value ∈ input, foldCase path <+: foldCase (address value.keyPath) := by
  refine ⟨fun ⟨i, hi⟩ => hc.paths path i hi, ?_⟩
  rintro (rfl | ⟨value, hvalue, hprefix⟩)
  · exact ⟨0, rfl⟩
  · rw [← hc.values] at hvalue
    obtain ⟨p, hp, rfl⟩ := List.mem_map.1 hvalue
    have hlocated := hc.located p hp
    have htake : foldCase ((address p.1.keyPath).take path.length) = foldCase path := by
      have hlen := List.prefix_iff_eq_take.1 hprefix
      rw [foldCase, List.map_take, hlen, foldCase, List.length_map]
      rfl
    rw [← List.take_append_drop path.length (address p.1.keyPath), locate_append] at hlocated
    obtain ⟨i, hi, _⟩ := Option.bind_eq_some_iff.1 hlocated
    rw [locate_congr keys 0 htake] at hi
    exact ⟨i, hi⟩

end Hive
end R4
