import R4Recovery.FatCursor
/-!
# FatEnumerate — a FAT directory is enumerated exactly

The three scanners run over the same slots in the same order, those of the clusters of the chain (`chainFrom`).  The cursor
keeps what is left of them between its calls (`Remains`), so its entries are those that are read by their numbers.
-/
namespace R4
namespace Fat32

open Fat (Slot LfnState attrLongName attrDirectory maxLfnEntries nameMax nameUnitsMax makeEntry validInputName fatValueIsEoc
  shortNameToBuffer dirChainMaxClusters)

/-! ## The slots of a chain -/

/-- Slots with where they are, and whether nothing but the end of the chain is behind them. -/
structure Stream where
  slots : List (Nat × Nat × Slot)
  whole : Bool

namespace Stream

def done : Stream := ⟨[], true⟩

def broken : Stream := ⟨[], false⟩

def andThen (a b : Stream) : Stream := if a.whole then ⟨a.slots ++ b.slots, b.whole⟩ else a

def cons (slot : Nat × Nat × Slot) (st : Stream) : Stream := ⟨slot :: st.slots, st.whole⟩

theorem cons_andThen (slot : Nat × Nat × Slot) (a b : Stream) : (cons slot a).andThen b = cons slot (a.andThen b) := by
  unfold andThen cons
  split
  · rfl
  · rfl

end Stream

section Streams

variable (v : Volume) (read : Nat → Option Bytes)

/-- `n` slots of a cluster from slot `k` on. -/
def clusterFrom (cluster : Nat) : Nat → Nat → Stream
  | 0, _ => .done
  | n + 1, k =>
    match read (v.clusterLba cluster + k / 16) with
    | none => .broken
    | some sector =>
      .cons (v.clusterLba cluster + k / 16, 32 * (k % 16), slice sector (32 * (k % 16)) 32) (clusterFrom cluster n (k + 1))

/-- The slots of a chain that may have `left` clusters more. -/
def chainFrom : Nat → Nat → Stream
  | left, cluster =>
    if fatValueIsEoc cluster then .done
    else if !v.validDataCluster cluster then .broken
    else match left with
      | 0 => .broken
      | left + 1 =>
        match fatEntry? v read cluster with
        | none => .broken
        | some next =>
          if !fatValueIsEoc next && !v.validDataCluster next then .broken
          else (clusterFrom v read cluster (16 * v.sectorsPerCluster) 0).andThen (chainFrom left next)

end Streams

variable {v : Volume} {read : Nat → Option Bytes}

/-! ## Scans over slots -/

section Scan

variable {σ : Type} (f : Nat → Nat → Slot → σ → ClusterStep σ)

def overSlots : List (Nat × Nat × Slot) → σ → ClusterStep σ
  | [], s => .next s
  | (lba, off, raw) :: rest, s =>
    match f lba off raw s with
    | .next s => overSlots rest s
    | .found e => .found e
    | .endDirectory => .endDirectory
    | .io => .io

/-- A scan over a stream; behind one that is not whole it fails. -/
def overStream (st : Stream) (s : σ) : ClusterStep σ :=
  match overSlots f st.slots s with
  | .next s => if st.whole then .next s else .io
  | .found e => .found e
  | .endDirectory => .endDirectory
  | .io => .io

/-- A scan with its end. -/
def ClusterStep.finish (active : σ → Bool) : ClusterStep σ → LookupStatus
  | .next s => if active s then .io else .notFound
  | .found e => .found e
  | .endDirectory => .notFound
  | .io => .io

def ClusterStep.andThen (x : ClusterStep σ) (g : σ → ClusterStep σ) : ClusterStep σ :=
  match x with
  | .next s => g s
  | .found e => .found e
  | .endDirectory => .endDirectory
  | .io => .io

theorem overSlots_append : ∀ (a b : List (Nat × Nat × Slot)) (s : σ),
    overSlots f (a ++ b) s = (overSlots f a s).andThen (overSlots f b)
  | [], _, _ => rfl
  | (lba, off, raw) :: a, b, s => by
    rw [List.cons_append, overSlots, overSlots]
    cases f lba off raw s with
    | next s => exact overSlots_append a b s
    | found e => rfl
    | endDirectory => rfl
    | io => rfl

theorem overStream_cons (whole : Bool) (lba off : Nat) (raw : Slot) (rest : List (Nat × Nat × Slot)) (s : σ) :
    overStream f ⟨(lba, off, raw) :: rest, whole⟩ s = (f lba off raw s).andThen (overStream f ⟨rest, whole⟩) := by
  unfold overStream
  dsimp only
  rw [overSlots]
  cases f lba off raw s with
  | next s => rfl
  | found e => rfl
  | endDirectory => rfl
  | io => rfl

theorem overStream_andThen (a b : Stream) (s : σ) : overStream f (a.andThen b) s = (overStream f a s).andThen (overStream f b) := by
  unfold overStream Stream.andThen
  cases hwhole : a.whole with
  | false =>
    rw [if_neg Bool.false_ne_true, hwhole]
    cases overSlots f a.slots s with
    | next s => rfl
    | found e => rfl
    | endDirectory => rfl
    | io => rfl
  | true =>
    rw [if_pos rfl]
    dsimp only
    rw [overSlots_append]
    cases overSlots f a.slots s with
    | next s => rfl
    | found e => rfl
    | endDirectory => rfl
    | io => rfl

theorem scanSlots_eq (lba : Nat) (sector : Bytes) : ∀ (offs : List Nat) (s : σ),
    scanSlots f lba sector offs s = overSlots f (offs.map (fun off => (lba, off, slice sector off 32))) s
  | [], _ => rfl
  | off :: rest, s => by
    rw [scanSlots, List.map_cons, overSlots]
    cases f lba off (slice sector off 32) s with
    | next s => exact scanSlots_eq lba sector rest s
    | found e => rfl
    | endDirectory => rfl
    | io => rfl

theorem clusterFrom_sector {cluster i : Nat} {sector : Bytes} (hread : read (v.clusterLba cluster + i) = some sector) (n : Nat) :
    ∀ (j m : Nat), m + j = 16 → clusterFrom v read cluster (j + n) (16 * i + m) =
      Stream.andThen ⟨(List.range' m j).map (fun k => (v.clusterLba cluster + i, 32 * k, slice sector (32 * k) 32)), true⟩
        (clusterFrom v read cluster n (16 * (i + 1)))
  | 0, m, h => by
    rw [Nat.zero_add, show 16 * i + m = 16 * (i + 1) by omega]
    rfl
  | j + 1, m, h => by
    have hdiv : (16 * i + m) / 16 = i := by omega
    have hmod : (16 * i + m) % 16 = m := by omega
    rw [Nat.add_right_comm, clusterFrom, hdiv, hmod, hread]
    dsimp only
    rw [show 16 * i + m + 1 = 16 * i + (m + 1) by omega, clusterFrom_sector hread n j (m + 1) (by omega), ← Stream.cons_andThen]
    rfl

theorem scanSectors_eq (cluster : Nat) : ∀ (m i : Nat) (s : σ),
    scanSectors read f (v.clusterLba cluster) (List.range' i m) s = overStream f (clusterFrom v read cluster (16 * m) (16 * i)) s
  | 0, _, _ => rfl
  | m + 1, i, s => by
    rw [List.range'_succ, scanSectors]
    cases hread : read (v.clusterLba cluster + i) with
    | none =>
      rw [show 16 * (m + 1) = 16 * m + 15 + 1 by omega, clusterFrom, show 16 * i / 16 = i by omega, hread]
      rfl
    | some sector =>
      have hsplit := clusterFrom_sector hread (16 * m) 16 0 rfl
      rw [Nat.add_zero, Nat.add_comm 16] at hsplit
      rw [Nat.mul_succ, hsplit, overStream_andThen]
      have hfirst : scanSlots f (v.clusterLba cluster + i) sector slotOffsets s =
          overStream f ⟨(List.range' 0 16).map (fun k => (v.clusterLba cluster + i, 32 * k, slice sector (32 * k) 32)), true⟩ s := by
        rw [scanSlots_eq, slotOffsets, List.map_map, List.range_eq_range']
        unfold overStream
        show overSlots f ((List.range' 0 16).map (fun k => (v.clusterLba cluster + i, 32 * k, slice sector (32 * k) 32))) s = _
        cases overSlots f ((List.range' 0 16).map (fun k => (v.clusterLba cluster + i, 32 * k, slice sector (32 * k) 32))) s with
        | next s => rfl
        | found e => rfl
        | endDirectory => rfl
        | io => rfl
      dsimp only
      rw [hfirst]
      cases overStream f ⟨(List.range' 0 16).map (fun k => (v.clusterLba cluster + i, 32 * k, slice sector (32 * k) 32)), true⟩ s with
      | next s => exact scanSectors_eq cluster m (i + 1) s
      | found e => rfl
      | endDirectory => rfl
      | io => rfl

theorem chainFrom_eoc {cluster : Nat} (h : fatValueIsEoc cluster = true) (left : Nat) : chainFrom v read left cluster = .done := by
  unfold chainFrom
  rw [if_pos h]

/-- **A scan along a chain** runs over its slots. -/
theorem scanChain_eq (active : σ → Bool) : ∀ (fuel : Nat) (it : DirChainIterator) (s : σ), it.fatError = false →
    it.steps ≤ dirChainMaxClusters → dirChainMaxClusters < it.steps + fuel →
    scanChain v read f active fuel it s =
      some ((overStream f (chainFrom v read (dirChainMaxClusters - it.steps) it.cluster) s).finish active)
  | 0, it, s, _, hsteps, hfuel => absurd hfuel (by omega)
  | fuel + 1, it, s, herror, hsteps, hfuel => by
    rw [scanChain]
    unfold DirChainIterator.next chainFrom
    rw [herror, if_neg Bool.false_ne_true]
    cases heoc : fatValueIsEoc it.cluster with
    | true =>
      rw [if_pos rfl, if_pos rfl]
      dsimp only
      rw [herror]
      rfl
    | false =>
      rw [if_neg Bool.false_ne_true, if_neg Bool.false_ne_true]
      cases hvalid : v.validDataCluster it.cluster with
      | false => rfl
      | true =>
        rw [Bool.not_true, if_neg Bool.false_ne_true, if_neg Bool.false_ne_true]
        by_cases hfull : dirChainMaxClusters ≤ it.steps
        · rw [if_pos hfull, Nat.sub_eq_zero_of_le hfull]
          rfl
        rw [if_neg hfull]
        obtain ⟨left, hleft⟩ : ∃ left, dirChainMaxClusters - it.steps = left + 1 := ⟨dirChainMaxClusters - it.steps - 1, by omega⟩
        have hrest : dirChainMaxClusters - (it.steps + 1) = left := by omega
        rw [hleft]
        cases hfat : fatEntry? v read it.cluster with
        | none => rfl
        | some next =>
          -- the cluster is run over, and the rest by the hypothesis
          have hgo : ∀ it' : DirChainIterator, it'.fatError = false → it'.steps = it.steps + 1 →
              chainFrom v read left it'.cluster = chainFrom v read left next →
              (match scanSectors read f (v.clusterLba it.cluster) (List.range v.sectorsPerCluster) s with
                | .next s => scanChain v read f active fuel it' s
                | .found e => some (.found e)
                | .endDirectory => some .notFound
                | .io => some .io) =
              some ((overStream f ((clusterFrom v read it.cluster (16 * v.sectorsPerCluster) 0).andThen
                (chainFrom v read left next)) s).finish active) := by
            intro it' herror' hsteps' hchain
            rw [List.range_eq_range', scanSectors_eq, overStream_andThen, Nat.mul_zero]
            cases overStream f (clusterFrom v read it.cluster (16 * v.sectorsPerCluster) 0) s with
            | next s =>
              have hnext := scanChain_eq active fuel it' s herror' (by omega) (by omega)
              rw [hsteps', hrest, hchain] at hnext
              exact hnext
            | found e => rfl
            | endDirectory => rfl
            | io => rfl
          dsimp only
          cases hend : fatValueIsEoc next with
          | true =>
            rw [if_pos rfl, Bool.not_true, Bool.false_and, if_neg Bool.false_ne_true]
            have heocs : chainFrom v read left eoc = chainFrom v read left next := by
              rw [chainFrom_eoc (by decide), chainFrom_eoc hend]
            exact hgo { cluster := eoc, steps := it.steps + 1 } rfl rfl heocs
          | false =>
            rw [if_neg Bool.false_ne_true]
            cases hok : v.validDataCluster next with
            | true => exact hgo { cluster := next, steps := it.steps + 1 } rfl rfl rfl
            | false => rfl

theorem scanFrom_eq {start : Nat} (hstart : fatValueIsEoc start = false) (active : σ → Bool) (s : σ) :
    scanChain v read f active (dirChainMaxClusters + 1) (DirChainIterator.init v start) s =
      some ((overStream f (chainFrom v read dirChainMaxClusters start) s).finish active) := by
  cases hvalid : v.validDataCluster start with
  | true =>
    have herror : (DirChainIterator.init v start).fatError = false := by
      unfold DirChainIterator.init
      rw [hvalid]
      rfl
    exact scanChain_eq f active _ (DirChainIterator.init v start) s herror (Nat.zero_le _) (by omega)
  | false =>
    unfold DirChainIterator.init chainFrom
    rw [hvalid, hstart]
    rfl

end Scan

/-! ## Long names between slots -/

/-- What the state of a long name keeps. -/
structure LfnSane (s : LfnState) : Prop where
  len : s.len ≤ nameUnitsMax
  total : s.total ≤ maxLfnEntries
  expected : s.expected ≤ s.total
  idle : s.active = false → s.len = 0

theorem LfnSane.fresh : LfnSane {} where
  len := Nat.zero_le _
  total := Nat.zero_le _
  expected := Nat.le_refl _
  idle := fun _ => rfl

theorem LfnSane.name {s : LfnState} (h : LfnSane s) : s.name = s.units.take s.len := by
  unfold LfnState.name
  cases hactive : s.active with
  | true => rw [if_pos rfl]
  | false => rw [if_neg Bool.false_ne_true, h.idle hactive, List.take_zero]

theorem LfnState.unit_keeps {isLast ended ended' : Bool} {dst unit : Nat} {s s' : LfnState}
    (h : LfnState.unit isLast dst unit (ended, s) = some (ended', s')) :
    s'.active = s.active ∧ s'.total = s.total ∧ s'.expected = s.expected ∧ (s.len ≤ nameUnitsMax → s'.len ≤ nameUnitsMax) := by
  have hlen : dst < nameUnitsMax → s.len ≤ nameUnitsMax → max s.len (dst + 1) ≤ nameUnitsMax := fun hdst hs =>
    Nat.max_le.mpr ⟨hs, hdst⟩
  unfold LfnState.unit at h
  dsimp only at h
  split at h
  · split at h
    · cases h
    · rename_i hroom
      cases h
      exact ⟨rfl, rfl, rfl, hlen (by omega)⟩
  · split at h
    · split at h
      · cases h
        exact ⟨rfl, rfl, rfl, id⟩
      · cases h
    · split at h
      · cases h
        exact ⟨rfl, rfl, rfl, id⟩
      · split at h
        · cases h
        · rename_i hroom
          cases h
          exact ⟨rfl, rfl, rfl, hlen (by omega)⟩

theorem LfnState.units_keep (isLast : Bool) (dst unit : Nat × Nat → Nat) : ∀ (l : List (Nat × Nat)) (acc acc' : Bool × LfnState),
    l.foldlM (fun acc at_ => LfnState.unit isLast (dst at_) (unit at_) acc) acc = some acc' →
    acc'.2.active = acc.2.active ∧ acc'.2.total = acc.2.total ∧ acc'.2.expected = acc.2.expected ∧
      (acc.2.len ≤ nameUnitsMax → acc'.2.len ≤ nameUnitsMax)
  | [], acc, acc', h => by
    cases h
    exact ⟨rfl, rfl, rfl, id⟩
  | x :: l, (ended, s), acc', h => by
    rw [List.foldlM_cons] at h
    obtain ⟨⟨ended₁, s₁⟩, hx, hrest⟩ := Option.bind_eq_some_iff.mp h
    obtain ⟨hactive, htotal, hexpected, hlen⟩ := LfnState.unit_keeps hx
    obtain ⟨hactive', htotal', hexpected', hlen'⟩ := LfnState.units_keep isLast dst unit l _ _ hrest
    exact ⟨hactive'.trans hactive, htotal'.trans htotal, hexpected'.trans hexpected, fun h => hlen' (hlen h)⟩

/-- **A slot of a long name** leaves a state that can be saved. -/
theorem LfnSane.consume {s s' : LfnState} {raw : Slot} (hs : LfnSane s) (h : s.consume raw = some s') : LfnSane s' := by
  unfold LfnState.consume at h
  dsimp only at h
  split at h
  · cases h
  split at h
  · cases h
  rename_i hordinal
  obtain ⟨s₁, hbegin, h⟩ := Option.bind_eq_some_iff.mp h
  have hs₁ : s₁.active = true ∧ s₁.total ≤ maxLfnEntries ∧ s₁.expected ≤ s₁.total ∧ s₁.len ≤ nameUnitsMax := by
    unfold LfnState.begin at hbegin
    split at hbegin
    · split at hbegin
      · cases hbegin
      · cases hbegin
        exact ⟨rfl, by dsimp only; omega, Nat.le_refl _, Nat.zero_le _⟩
    · rename_i hactive
      split at hbegin
      · cases hbegin
      · cases hbegin
        exact ⟨by simpa using hactive, hs.total, hs.expected, hs.len⟩
  split at h
  · cases h
  obtain ⟨⟨ended, s₂⟩, hunits, h⟩ := Option.bind_eq_some_iff.mp h
  cases h
  obtain ⟨hactive, htotal, hexpected, hlen⟩ := LfnState.units_keep _ _ _ _ _ _ hunits
  have hlive : s₂.active = true := hactive.trans hs₁.1
  exact
    { len := hlen hs₁.2.2.2
      total := le_of_eq_of_le htotal hs₁.2.1
      expected := by
        dsimp only at htotal hexpected ⊢
        omega
      idle := fun hidle => absurd (hlive.symm.trans hidle) Bool.noConfusion }

theorem enumSlot_pass {lba off : Nat} {raw : Slot} {s s' : LfnState} (hs : LfnSane s) (h : enumSlot lba off raw s = .pass s') :
    LfnSane s' := by
  unfold enumSlot at h
  split at h
  · cases h
  split at h
  · cases h
    exact .fresh
  split at h
  · split at h
    · cases h
    · cases h
      exact hs.consume ‹_›
  split at h
  · split at h
    · cases h
    · cases h
      exact hs
  split at h
  · cases h
  · cases h

theorem DirectoryCursor.lfn_save (c : DirectoryCursor) (s : LfnState) : (c.save s).lfn = s := by
  obtain ⟨units, len, active, total, expected, checksum⟩ := s
  cases active with
  | true => rfl
  | false => rfl

/-! ## The entries of a stream -/

/-- The entries of the slots from a state on, and what ends them. -/
def listing (whole : Bool) : List (Nat × Nat × Slot) → LfnState → List Located × LookupStatus
  | [], s => ([], if !whole || s.active then .io else .notFound)
  | (lba, off, raw) :: rest, s =>
    match enumSlot lba off raw s with
    | .stop => ([], .notFound)
    | .bad => ([], .io)
    | .pass s => listing whole rest s
    | .entry e => (e :: (listing whole rest {}).1, (listing whole rest {}).2)

theorem listing_last (whole : Bool) : ∀ (slots : List (Nat × Nat × Slot)) (s : LfnState),
    (listing whole slots s).2 = .notFound ∨ (listing whole slots s).2 = .io
  | [], s => by
    rw [listing]
    dsimp only
    split
    · exact .inr rfl
    · exact .inl rfl
  | (lba, off, raw) :: rest, s => by
    rw [listing]
    cases enumSlot lba off raw s with
    | stop => exact .inl rfl
    | bad => exact .inr rfl
    | pass s => exact listing_last whole rest s
    | entry e => exact listing_last whole rest {}

theorem trimBlanks_length (field : Bytes) : (Fat.trimBlanks field).length ≤ field.length :=
  (List.rdropWhile_prefix _ _).length_le

theorem shortNameToBuffer_length (raw : Bytes) : (shortNameToBuffer raw).length ≤ 12 := by
  have hbase := trimBlanks_length (raw.take 8)
  have hext := trimBlanks_length ((raw.drop 8).take 3)
  have hbase' := List.length_take_le 8 raw
  have hext' := List.length_take_le 3 (raw.drop 8)
  unfold shortNameToBuffer
  dsimp only
  rw [List.length_append]
  split
  · rw [List.length_nil]
    omega
  · rw [List.length_cons]
    omega

theorem utf8OfUnit_length {unit : Nat} {text : Bytes} (h : Fat.utf8OfUnit unit = some text) : text.length ≤ 3 := by
  unfold Fat.utf8OfUnit at h
  split at h
  · cases h
    exact Nat.le_of_ble_eq_true rfl
  split at h
  · cases h
    exact Nat.le_of_ble_eq_true rfl
  split at h
  · cases h
  · cases h
    exact Nat.le_of_ble_eq_true rfl

theorem utf8_length : ∀ {units : List Nat} {texts : List Bytes}, units.mapM Fat.utf8OfUnit = some texts →
    texts.flatten.length ≤ 3 * units.length
  | [], texts, h => by
    cases h
    exact Nat.le_refl _
  | unit :: units, texts, h => by
    rw [List.mapM_cons] at h
    obtain ⟨text, htext, h⟩ := Option.bind_eq_some_iff.mp h
    obtain ⟨rest, hrest, h⟩ := Option.bind_eq_some_iff.mp h
    cases h
    have hfirst := utf8OfUnit_length htext
    have hothers := utf8_length hrest
    rw [List.flatten_cons, List.length_append, List.length_cons]
    omega

/-- A name leaves a place for its zero. -/
theorem makeEntry_name (raw : Slot) {lfn : List Nat} (hlfn : lfn.length ≤ nameUnitsMax) :
    (makeEntry raw lfn).name.length < nameMax := by
  have hshort : (shortNameToBuffer (raw.take 11)).length < nameMax :=
    Nat.lt_of_le_of_lt (shortNameToBuffer_length _) (by decide)
  show (Fat.entryName raw lfn).length < nameMax
  unfold Fat.entryName
  split
  · exact hshort
  · cases htext : Fat.utf16UnitsToUtf8 lfn with
    | none => exact hshort
    | some text =>
      unfold Fat.utf16UnitsToUtf8 at htext
      obtain ⟨htext, -⟩ := Option.filter_eq_some_iff.mp htext
      obtain ⟨texts, htexts, rfl⟩ := Option.map_eq_some_iff.mp htext
      have hlength := utf8_length htexts
      rw [show nameUnitsMax = 255 from rfl] at hlfn
      rw [Option.getD_some, show nameMax = 768 from rfl]
      omega

theorem enumSlot_entry {lba off : Nat} {raw : Slot} {s : LfnState} {e : Located} (h : enumSlot lba off raw s = .entry e) :
    (raw.attr = attrLongName → False) ∧ ¬(raw.first = 46 ∨ raw.attr &&& 0x08 ≠ 0) ∧ raw.first ≠ 0 ∧ raw.first ≠ 0xE5 ∧
      (s.active && !s.completeFor raw) = false ∧
      e = { entry := makeEntry raw (s.units.take s.len), directoryLba := lba, directoryOffset := off } := by
  unfold enumSlot at h
  split at h
  · cases h
  rename_i hfirst
  split at h
  · cases h
  rename_i hdeleted
  split at h
  · split at h
    · cases h
    · cases h
  rename_i hlong
  split at h
  · split at h
    · cases h
    · cases h
  rename_i hlabel
  split at h
  · cases h
  rename_i hcomplete
  cases h
  exact ⟨hlong, hlabel, hfirst, hdeleted, Bool.eq_false_iff.mpr hcomplete, rfl⟩

/-- **An entry is read by its number** as it stands in the listing. -/
theorem readSlot_listing (whole : Bool) (wanted : Nat) {room : Nat} (hroom : nameMax ≤ room) :
    ∀ (slots : List (Nat × Nat × Slot)) (seen : Nat) (s : LfnState), LfnSane s → seen ≤ wanted →
      (overStream (readSlot wanted room) ⟨slots, whole⟩ (seen, s)).finish (fun s => s.2.active) =
        match (listing whole slots s).1[wanted - seen]? with
        | some e => .found e
        | none => (listing whole slots s).2
  | [], seen, s, _, _ => by
    cases whole with
    | true => rfl
    | false => rfl
  | (lba, off, raw) :: rest, seen, s, hsane, hseen => by
    rw [overStream_cons, listing, readSlot]
    cases hslot : enumSlot lba off raw s with
    | stop => rfl
    | bad => rfl
    | pass s => exact readSlot_listing whole wanted hroom rest seen s (enumSlot_pass hsane hslot) hseen
    | entry e =>
      dsimp only
      have hname : e.entry.name.length < nameMax := by
        rw [(enumSlot_entry hslot).2.2.2.2.2]
        exact makeEntry_name _ (Nat.le_trans (List.length_take_le _ _) hsane.len)
      by_cases hhit : seen = wanted
      · rw [if_pos hhit, if_neg (by omega), hhit, Nat.sub_self]
        rfl
      · obtain ⟨d, hd⟩ : ∃ d, wanted - seen = d + 1 := ⟨wanted - seen - 1, by omega⟩
        rw [if_neg hhit, hd, List.getElem?_cons_succ, show d = wanted - (seen + 1) by omega]
        exact readSlot_listing whole wanted hroom rest (seen + 1) {} .fresh (by omega)

/-- How a look-up by name follows the listing; it may refuse what the listing passes. -/
inductive Follows (name : Bytes) : SlotStep → ClusterStep LfnState → Prop where
  | stop : Follows name .stop .endDirectory
  | io {step : SlotStep} : Follows name step .io
  | pass {s : LfnState} : Follows name (.pass s) (.next s)
  | found {e : Located} : Follows name (.entry e) (.found e)
  | other {e : Located} (h : eqlIgnoreCase e.entry.name name = false) : Follows name (.entry e) (.next {})

theorem findSlot_follows (v : Volume) (name : Bytes) (lba off : Nat) (raw : Slot) {s : LfnState} (hs : LfnSane s) :
    Follows name (enumSlot lba off raw s) (findSlot v name lba off raw s) := by
  unfold enumSlot findSlot
  by_cases hend : raw.first = 0
  · rw [if_pos hend, if_pos hend]
    exact .stop
  rw [if_neg hend, if_neg hend]
  by_cases hdeleted : raw.first = 0xE5
  · rw [if_pos hdeleted, if_pos hdeleted]
    exact .pass
  rw [if_neg hdeleted, if_neg hdeleted]
  by_cases hlong : raw.attr = attrLongName
  · rw [if_pos hlong, if_pos hlong]
    cases s.consume raw with
    | none => exact .io
    | some s => exact .pass
  rw [if_neg hlong, if_neg hlong]
  by_cases hbits : raw.attr &&& attrLongName = attrLongName
  · rw [if_pos hbits]
    exact .io
  rw [if_neg hbits]
  by_cases hlabel : raw.first = 46 ∨ raw.attr &&& 0x08 ≠ 0
  · rw [if_pos hlabel, if_pos hlabel]
    cases s.active with
    | true => exact .io
    | false => exact .pass
  rw [if_neg hlabel, if_neg hlabel]
  cases hcomplete : s.active && !s.completeFor raw with
  | true => exact .io
  | false =>
    rw [if_neg Bool.false_ne_true, if_neg Bool.false_ne_true, hs.name]
    dsimp only
    split
    · exact .io
    split
    · exact .found
    · rename_i hother
      exact .other (Bool.or_eq_false_iff.mp (Bool.eq_false_iff.mpr hother)).1

/-- **An entry is found by its name**, or one before it is, where the look-up does not fail. -/
theorem findSlot_listing {whole : Bool} {name : Bytes} : ∀ (slots : List (Nat × Nat × Slot)) (s : LfnState) (k : Nat) (e : Located),
    LfnSane s → (listing whole slots s).1[k]? = some e → e.entry.name = name →
    (overStream (findSlot v name) ⟨slots, whole⟩ s).finish (fun s => s.active) = .io ∨
      ∃ (j : Nat) (e' : Located), j ≤ k ∧ (listing whole slots s).1[j]? = some e' ∧
        (overStream (findSlot v name) ⟨slots, whole⟩ s).finish (fun s => s.active) = .found e'
  | [], s, k, e, _, hk, _ => by
    rw [listing] at hk
    cases hk
  | (lba, off, raw) :: rest, s, k, e, hs, hk, hname => by
    have hfollows := findSlot_follows v name lba off raw hs
    have hpass : ∀ s', enumSlot lba off raw s = .pass s' → LfnSane s' := fun s' h => enumSlot_pass hs h
    rw [overStream_cons]
    rw [listing] at hk ⊢
    generalize enumSlot lba off raw s = step at hfollows hk hpass ⊢
    generalize findSlot v name lba off raw s = found at hfollows ⊢
    cases hfollows with
    | stop => cases hk
    | io => exact .inl rfl
    | pass => exact findSlot_listing rest _ k e (hpass _ rfl) hk hname
    | found => exact .inr ⟨0, _, Nat.zero_le _, rfl, rfl⟩
    | other hother =>
      cases k with
      | zero =>
        cases hk
        rw [hname, eqlIgnoreCase_refl] at hother
        cases hother
      | succ k =>
        rcases findSlot_listing rest {} k e .fresh hk hname with hio | ⟨j, e', hj, hat, hfound⟩
        · exact .inl hio
        · exact .inr ⟨j + 1, e', Nat.succ_le_succ hj, hat, hfound⟩

/-! ## The cursor between its calls -/

/-- **What a cursor has left**: a chain from the start of a cluster on, or the rest of a cluster and what follows it. -/
inductive Remains (v : Volume) (read : Nat → Option Bytes) (c : DirectoryCursor) : Stream → Prop where
  | start (hsteps : c.steps ≤ dirChainMaxClusters) (hoffset : c.offset = 0) :
      Remains v read c (chainFrom v read (dirChainMaxClusters - c.steps) c.cluster)
  | inside (hsteps : c.steps ≤ dirChainMaxClusters) (n k : Nat) (hk : 0 < k) (hoffset : c.offset = 32 * k)
      (hsize : k + n = 16 * v.sectorsPerCluster) (hlive : fatValueIsEoc c.cluster = false)
      (hvalid : v.validDataCluster c.cluster = true) :
      Remains v read c
        ((clusterFrom v read c.cluster n k).andThen (chainFrom v read (dirChainMaxClusters - c.steps) c.successor))

/-- What the head of the loop may come to where `st` is left. -/
inductive Entered (v : Volume) (read : Nat → Option Bytes) (c : DirectoryCursor) (active : Bool) (st : Stream) : Enter → Prop where
  | ended (c' : DirectoryCursor) (hslots : st.slots = []) (hwhole : st.whole = true) (hactive : active = false) :
      Entered v read c active st (.stop .notFound c')
  | failed (c' : DirectoryCursor) (hslots : st.slots = []) (hbad : (!st.whole || active) = true) :
      Entered v read c active st (.stop .io c')
  | slot (c' : DirectoryCursor) (bytes : Bytes) (st' : Stream) (hstate : c'.state = c.state)
      (hlive : fatValueIsEoc c'.cluster = false) (hvalid : v.validDataCluster c'.cluster = true)
      (hread : read (v.clusterLba c'.cluster + c'.offset / sectorSize) = some bytes)
      (hst : st = .cons (v.clusterLba c'.cluster + c'.offset / sectorSize, c'.offset % sectorSize,
        slice bytes (c'.offset % sectorSize) 32) st')
      (hrest : Remains v read { c' with offset := c'.offset + 32 } st') :
      Entered v read c active st (.sector c' (v.clusterLba c'.cluster + c'.offset / sectorSize) bytes)

theorem Entered.of_state {c₁ c₂ : DirectoryCursor} {active : Bool} {st : Stream} {r : Enter}
    (h : Entered v read c₁ active st r) (hstate : c₁.state = c₂.state) : Entered v read c₂ active st r := by
  cases h with
  | ended c' hslots hwhole hactive => exact .ended c' hslots hwhole hactive
  | failed c' hslots hbad => exact .failed c' hslots hbad
  | slot c' bytes st' hs hlive hvalid hread hst hrest => exact .slot c' bytes st' (hs.trans hstate) hlive hvalid hread hst hrest

theorem enterSector_spec {c : DirectoryCursor} (active : Bool) (n k : Nat) (hsteps : c.steps ≤ dirChainMaxClusters)
    (hoffset : c.offset = 32 * k) (hsize : k + (n + 1) = 16 * v.sectorsPerCluster) (hlive : fatValueIsEoc c.cluster = false)
    (hvalid : v.validDataCluster c.cluster = true) :
    Entered v read c active
      ((clusterFrom v read c.cluster (n + 1) k).andThen (chainFrom v read (dirChainMaxClusters - c.steps) c.successor))
      (enterSector v read c) := by
  have hdiv : c.offset / sectorSize = k / 16 := by
    rw [hoffset, show sectorSize = 32 * 16 from rfl, Nat.mul_div_mul_left _ _ (by decide)]
  have hmod : c.offset % sectorSize = 32 * (k % 16) := by
    rw [hoffset, show sectorSize = 32 * 16 from rfl, Nat.mul_mod_mul_left]
  rw [clusterFrom, ← hdiv, ← hmod]
  unfold enterSector
  dsimp only
  cases hread : read (v.clusterLba c.cluster + c.offset / sectorSize) with
  | none => exact .failed c rfl rfl
  | some bytes =>
    refine .slot c bytes _ rfl hlive hvalid hread (Stream.cons_andThen _ _ _) ?_
    exact Remains.inside (c := { c with offset := c.offset + 32 }) hsteps n (k + 1) (Nat.succ_pos k)
      (congrArg (· + 32) hoffset) (by omega) hlive hvalid

theorem enter_start {c : DirectoryCursor} (active : Bool) (hoffset : c.offset = 0) :
    Entered v read c active (chainFrom v read (dirChainMaxClusters - c.steps) c.cluster) (enter v read c active) := by
  have hturn : ¬(c.offset = v.sectorsPerCluster * sectorSize ∧ v.sectorsPerCluster * sectorSize ≠ 0) := by
    rintro ⟨hfull, hsome⟩
    exact hsome (hfull.symm.trans hoffset)
  unfold enter chainFrom
  dsimp only
  rw [if_neg hturn]
  cases hlive : fatValueIsEoc c.cluster with
  | true =>
    rw [if_pos rfl, if_pos rfl]
    cases active with
    | true => exact .failed c rfl rfl
    | false => exact .ended _ rfl rfl rfl
  | false =>
    rw [if_neg Bool.false_ne_true, if_neg Bool.false_ne_true]
    cases hvalid : v.validDataCluster c.cluster with
    | false => exact .failed c rfl rfl
    | true =>
      rw [Bool.not_true, if_neg Bool.false_ne_true, if_neg Bool.false_ne_true, if_pos hoffset]
      by_cases hfull : dirChainMaxClusters ≤ c.steps
      · rw [if_pos hfull, Nat.sub_eq_zero_of_le hfull]
        exact .failed c rfl rfl
      rw [if_neg hfull]
      obtain ⟨left, hleft⟩ : ∃ left, dirChainMaxClusters - c.steps = left + 1 := ⟨dirChainMaxClusters - c.steps - 1, by omega⟩
      rw [hleft]
      cases hfat : fatEntry? v read c.cluster with
      | none => exact .failed c rfl rfl
      | some next =>
        dsimp only
        cases hbad : !fatValueIsEoc next && !v.validDataCluster next with
        | true => exact .failed _ rfl rfl
        | false =>
          rw [if_neg Bool.false_ne_true, if_neg Bool.false_ne_true]
          -- the size of a cluster is positive where a data cluster is valid
          have hsectors : 0 < v.sectorsPerCluster := by
            by_contra hnone
            unfold Volume.validDataCluster at hvalid
            simp [show v.sectorsPerCluster = 0 by omega] at hvalid
          obtain ⟨n, hn⟩ : ∃ n, 16 * v.sectorsPerCluster = n + 1 := ⟨16 * v.sectorsPerCluster - 1, by omega⟩
          have hsector := @enterSector_spec v read { c with successor := next, steps := c.steps + 1 } active n 0
            (Nat.lt_of_not_le hfull) hoffset (by omega) hlive hvalid
          rw [← hn, show dirChainMaxClusters - (c.steps + 1) = left by omega] at hsector
          exact hsector.of_state rfl

/-- **The head of the loop** takes the next slot of what is left. -/
theorem enter_spec {c : DirectoryCursor} {st : Stream} (active : Bool) (h : Remains v read c st) :
    Entered v read c active st (enter v read c active) := by
  cases h with
  | start hsteps hoffset => exact enter_start active hoffset
  | inside hsteps n k hk hoffset hsize hlive hvalid =>
    cases n with
    | zero =>
      have hturn : c.offset = v.sectorsPerCluster * sectorSize ∧ v.sectorsPerCluster * sectorSize ≠ 0 := by
        have hbytes : v.sectorsPerCluster * sectorSize = 32 * k := by
          rw [show sectorSize = 512 from rfl]
          omega
        exact ⟨hoffset.trans hbytes.symm, by omega⟩
      have hfresh : ¬(0 = v.sectorsPerCluster * sectorSize ∧ v.sectorsPerCluster * sectorSize ≠ 0) := by
        rintro ⟨hzero, hsome⟩
        exact hsome hzero.symm
      have henter : enter v read c active = enter v read { c with cluster := c.successor, offset := 0 } active := by
        unfold enter
        dsimp only
        rw [if_pos hturn, if_neg hfresh]
      rw [henter]
      exact (enter_start (c := { c with cluster := c.successor, offset := 0 }) active rfl).of_state rfl
    | succ n =>
      have hturn : ¬(c.offset = v.sectorsPerCluster * sectorSize ∧ v.sectorsPerCluster * sectorSize ≠ 0) := by
        rintro ⟨hfull, -⟩
        rw [show sectorSize = 512 from rfl] at hfull
        omega
      have hmoved : c.offset ≠ 0 := by omega
      unfold enter
      dsimp only
      rw [if_neg hturn, hlive, if_neg Bool.false_ne_true, hvalid, Bool.not_true, if_neg Bool.false_ne_true, if_neg hmoved]
      exact enterSector_spec active n k hsteps hoffset hsize hlive hvalid

theorem enter_loaded {c : DirectoryCursor} {bytes : Bytes} (active : Bool) (hlive : fatValueIsEoc c.cluster = false)
    (hvalid : v.validDataCluster c.cluster = true) (hmid : c.offset % sectorSize ≠ 0)
    (hread : read (v.clusterLba c.cluster + c.offset / sectorSize) = some bytes) :
    enter v read c active = .sector c (v.clusterLba c.cluster + c.offset / sectorSize) bytes := by
  have hturn : ¬(c.offset = v.sectorsPerCluster * sectorSize ∧ v.sectorsPerCluster * sectorSize ≠ 0) := by
    rintro ⟨hfull, -⟩
    rw [hfull, Nat.mul_mod_left] at hmid
    exact hmid rfl
  have hmoved : c.offset ≠ 0 := by
    intro hzero
    rw [hzero] at hmid
    exact hmid rfl
  unfold enter
  dsimp only
  rw [if_neg hturn, hlive, if_neg Bool.false_ne_true, hvalid, Bool.not_true, if_neg Bool.false_ne_true, if_neg hmoved]
  unfold enterSector
  dsimp only
  rw [hread]

theorem scanLoop_loaded (budget : Nat) {c : DirectoryCursor} {bytes : Bytes} (s : LfnState)
    (hlive : fatValueIsEoc c.cluster = false) (hvalid : v.validDataCluster c.cluster = true)
    (hread : read (v.clusterLba c.cluster + c.offset / sectorSize) = some bytes) :
    scanLoop v read budget
        (if c.offset % sectorSize + 32 < sectorSize then some (v.clusterLba c.cluster + c.offset / sectorSize, bytes) else none)
        { c with offset := c.offset + 32 } s =
      scanLoop v read budget none { c with offset := c.offset + 32 } s := by
  split
  · rename_i hmore
    rw [show sectorSize = 512 from rfl] at hmore
    cases budget with
    | zero => rfl
    | succ budget =>
      have hdiv : (c.offset + 32) / sectorSize = c.offset / sectorSize := by
        rw [show sectorSize = 512 from rfl]
        omega
      have hmid : (c.offset + 32) % sectorSize ≠ 0 := by
        rw [show sectorSize = 512 from rfl]
        omega
      have henter : proceed v read none { c with offset := c.offset + 32 } s.active =
          proceed v read (some (v.clusterLba c.cluster + c.offset / sectorSize, bytes)) { c with offset := c.offset + 32 }
            s.active := by
        unfold proceed
        dsimp only
        rw [← hdiv] at hread ⊢
        exact enter_loaded (c := { c with offset := c.offset + 32 }) s.active hlive hvalid hmid hread
      rw [scanLoop, scanLoop, henter]
  · rfl

/-- What `budget` slots of `st` come to. -/
inductive Searched (v : Volume) (read : Nat → Option Bytes) (budget : Nat) (st : Stream) (s : LfnState) :
    Next × DirectoryCursor × LfnState → Prop where
  | found (e : Located) (c' : DirectoryCursor) (st' : Stream) (hstate : c'.state = 1) (hrest : Remains v read c' st')
      (hless : st'.slots.length < st.slots.length)
      (hlist : listing st.whole st.slots s =
        (e :: (listing st'.whole st'.slots {}).1, (listing st'.whole st'.slots {}).2)) : Searched v read budget st s (.found e, c', {})
  | again (c' : DirectoryCursor) (s' : LfnState) (st' : Stream) (hstate : c'.state = 1) (hrest : Remains v read c' st')
      (hsane : LfnSane s') (hless : st'.slots.length + budget = st.slots.length)
      (hlist : listing st.whole st.slots s = listing st'.whole st'.slots s') : Searched v read budget st s (.again, c', s')
  | notFound (c' : DirectoryCursor) (s' : LfnState) (hlist : listing st.whole st.slots s = ([], .notFound)) :
      Searched v read budget st s (.notFound, c', s')
  | io (c' : DirectoryCursor) (s' : LfnState) (hlist : listing st.whole st.slots s = ([], .io)) :
      Searched v read budget st s (.io, c', s')

/-- **A call** goes along the listing, slot by slot. -/
theorem scanLoop_spec : ∀ (budget : Nat) (c : DirectoryCursor) (s : LfnState) (st : Stream), Remains v read c st → LfnSane s →
    c.state = 1 → Searched v read budget st s (scanLoop v read budget none c s)
  | 0, c, s, st, hrest, hsane, hstate => .again c s st hstate hrest hsane rfl rfl
  | budget + 1, c, s, st, hrest, hsane, hstate => by
    have hentered := enter_spec s.active hrest
    rw [scanLoop, show proceed v read none c s.active = enter v read c s.active from rfl]
    generalize enter v read c s.active = r at hentered ⊢
    cases hentered with
    | ended c' hslots hwhole hactive =>
      refine .notFound c' s ?_
      rw [hslots, listing, hwhole, hactive]
      rfl
    | failed c' hslots hbad =>
      refine .io c' s ?_
      rw [hslots, listing, if_pos hbad]
    | slot c' bytes st' hs hlive hvalid hread hst hafter =>
      have hlength : st'.slots.length + 1 = st.slots.length := by
        rw [hst]
        rfl
      have hlisting : listing st.whole st.slots s = listing st'.whole
          ((v.clusterLba c'.cluster + c'.offset / sectorSize, c'.offset % sectorSize, slice bytes (c'.offset % sectorSize) 32) ::
            st'.slots) s := by
        rw [hst]
        rfl
      rw [listing] at hlisting
      dsimp only
      cases hslot : enumSlot (v.clusterLba c'.cluster + c'.offset / sectorSize) (c'.offset % sectorSize)
        (slice bytes (c'.offset % sectorSize) 32) s with
      | stop =>
        rw [hslot] at hlisting
        exact .notFound _ _ hlisting
      | bad =>
        rw [hslot] at hlisting
        exact .io _ _ hlisting
      | entry e =>
        rw [hslot] at hlisting
        exact .found e _ st' (hs.trans hstate) hafter (by omega) hlisting
      | pass s' =>
        rw [hslot] at hlisting
        dsimp only at hlisting ⊢
        rw [scanLoop_loaded budget s' hlive hvalid hread]
        have hnext := scanLoop_spec budget { c' with offset := c'.offset + 32 } s' st' hafter (enumSlot_pass hsane hslot)
          (hs.trans hstate)
        generalize scanLoop v read budget none { c' with offset := c'.offset + 32 } s' = out at hnext ⊢
        cases hnext with
        | found e c'' st'' hstate' hrest' hless' hlist' =>
          exact .found e c'' st'' hstate' hrest' (by omega) (hlisting.trans hlist')
        | again c'' s'' st'' hstate' hrest' hsane' hless' hlist' =>
          exact .again c'' s'' st'' hstate' hrest' hsane' (by omega) (hlisting.trans hlist')
        | notFound c'' s'' hlist' => exact .notFound c'' s'' (hlisting.trans hlist')
        | io c'' s'' hlist' => exact .io c'' s'' (hlisting.trans hlist')

/-- **A cursor that is kept** passes the checks of the next call, and what it has left is `st`. -/
structure Held (v : Volume) (read : Nat → Option Bytes) (c : DirectoryCursor) (st : Stream) : Prop where
  state : c.state = 1
  rest : Remains v read c st
  sane : LfnSane c.lfn
  active : c.lfnActive ≤ 1

theorem Held.save {c : DirectoryCursor} {st : Stream} {s : LfnState} (hstate : c.state = 1) (hrest : Remains v read c st)
    (hsane : LfnSane s) : Held v read (c.save s) st where
  state := hstate
  rest := by
    cases hrest with
    | start hsteps hoffset => exact Remains.start (c := c.save s) hsteps hoffset
    | inside hsteps n k hk hoffset hsize hlive hvalid =>
      exact Remains.inside (c := c.save s) hsteps n k hk hoffset hsize hlive hvalid
  sane := by
    rw [c.lfn_save s]
    exact hsane
  active := Bool.toNat_le s.active

theorem Remains.offset {c : DirectoryCursor} {st : Stream} (h : Remains v read c st) :
    ¬(v.sectorsPerCluster * sectorSize < c.offset ∨ c.offset % 32 ≠ 0) := by
  rw [show sectorSize = 512 from rfl]
  cases h with
  | start hsteps hoffset => omega
  | inside hsteps n k hk hoffset hsize hlive hvalid => omega

theorem Held.call {c : DirectoryCursor} {st : Stream} (start : Nat) (h : Held v read c st) :
    nextDirectoryEntry v read start c = ((scanLoop v read 256 none c c.lfn).1,
      (scanLoop v read 256 none c c.lfn).2.1.save (scanLoop v read 256 none c c.lfn).2.2) := by
  have hlen : c.lfnLen ≤ nameUnitsMax := h.sane.len
  have htotal : c.lfnTotal ≤ maxLfnEntries := h.sane.total
  have hexpected : c.lfnExpected ≤ c.lfnTotal := h.sane.expected
  have hactive := h.active
  have hstate := h.state
  have hchecks : ¬(2 < c.state ∨ 1 < c.lfnActive ∨ nameUnitsMax < c.lfnLen ∨ maxLfnEntries < c.lfnTotal ∨
      c.lfnTotal < c.lfnExpected) := by
    omega
  unfold nextDirectoryEntry
  rw [if_neg hchecks, if_neg (by omega)]
  dsimp only
  rw [if_neg (by omega : ¬c.state = 0), if_neg h.rest.offset]

/-- **The calls on a cursor** give what its listing has left. -/
theorem enumerate_spec (start : Nat) : ∀ (fuel : Nat) (c : DirectoryCursor) (st : Stream), Held v read c st →
    st.slots.length < fuel → enumerate v read start fuel c = some (listing st.whole st.slots c.lfn)
  | 0, c, st, _, hfuel => absurd hfuel (Nat.not_lt_zero _)
  | fuel + 1, c, st, hheld, hfuel => by
    have hscanned := scanLoop_spec 256 c c.lfn st hheld.rest hheld.sane hheld.state
    rw [enumerate, hheld.call start]
    generalize scanLoop v read 256 none c c.lfn = out at hscanned ⊢
    cases hscanned with
    | found e c' st' hstate hrest hless hlist =>
      have hrest' := enumerate_spec start fuel _ st' (Held.save hstate hrest .fresh) (by omega)
      rw [c'.lfn_save {}] at hrest'
      dsimp only
      rw [hrest', hlist]
      rfl
    | again c' s' st' hstate hrest hsane hless hlist =>
      have hrest' := enumerate_spec start fuel _ st' (Held.save hstate hrest hsane) (by omega)
      rw [c'.lfn_save s'] at hrest'
      dsimp only
      rw [hrest', hlist]
    | notFound c' s' hlist =>
      rw [hlist]
    | io c' s' hlist =>
      rw [hlist]

theorem enumerate_start (start fuel : Nat) :
    enumerate v read start fuel {} = enumerate v read start fuel { cluster := start, state := 1 } := by
  cases fuel with
  | zero => rfl
  | succ fuel =>
    rw [enumerate, enumerate]
    rfl

theorem held_start (start : Nat) :
    Held v read { cluster := start, state := 1 } (chainFrom v read dirChainMaxClusters start) where
  state := rfl
  rest := Remains.start (c := { cluster := start, state := 1 }) (Nat.zero_le _) rfl
  sane := .fresh
  active := Nat.zero_le _

/-- What the calls on one cursor give is what the two other scanners give: they come to an end, their entries are those that
are read by the numbers from two on, in their order, and they end as the first number without an entry does.  The look-up of
the name of an entry finds that entry or one before it, unless it fails. -/
def CursorExact (v : Volume) (read : Nat → Option Bytes) (start room : Nat) : Prop :=
  ∃ (entries : List Located) (last : LookupStatus), (last = .notFound ∨ last = .io) ∧
    (∃ enough, ∀ fuel, enough ≤ fuel → enumerate v read start fuel {} = some (entries, last)) ∧
    (∀ k, readDirectoryEntryStatus v read start (k + 2) room = some (entries[k]?.elim last .found)) ∧
    ∀ (k : Nat) (e : Located), entries[k]? = some e →
      ∃ status, findEntryStatus v read start e.entry.name = some status ∧
        (status = .io ∨ ∃ (j : Nat) (e' : Located), j ≤ k ∧ entries[j]? = some e' ∧ status = .found e')

theorem exact_of_live {start room : Nat} (hstart : fatValueIsEoc start = false) (hroom : nameMax ≤ room) :
    CursorExact v read start room := by
  obtain ⟨st, hst, hheld⟩ : ∃ st, chainFrom v read dirChainMaxClusters start = st ∧
      Held v read { cluster := start, state := 1 } st := ⟨_, rfl, held_start start⟩
  refine ⟨(listing st.whole st.slots {}).1, (listing st.whole st.slots {}).2, listing_last st.whole st.slots {},
    ⟨st.slots.length + 1, fun fuel hfuel => ?_⟩, fun k => ?_, fun k e hk => ?_⟩
  · rw [enumerate_start, enumerate_spec start fuel _ st hheld (by omega)]
    rfl
  · unfold readDirectoryEntryStatus
    rw [if_neg (by omega), scanFrom_eq _ hstart, Nat.add_sub_cancel, hst]
    have hread := readSlot_listing st.whole k hroom st.slots 0 {} .fresh (Nat.zero_le k)
    rw [Nat.sub_zero] at hread
    refine congrArg some (hread.trans ?_)
    cases (listing st.whole st.slots {}).1[k]? with
    | some e => rfl
    | none => rfl
  · unfold findEntryStatus
    cases hname : validInputName e.entry.name with
    | false => exact ⟨.io, if_pos rfl, .inl rfl⟩
    | true =>
      rw [Bool.not_true, if_neg Bool.false_ne_true, scanFrom_eq _ hstart, hst]
      refine ⟨_, rfl, ?_⟩
      exact findSlot_listing st.slots {} k e .fresh hk rfl

/-! ## A start that is an end -/

/-- **At the mark for the end of a chain the cursor finds an empty directory.** -/
theorem enumerate_eoc {start : Nat} (hstart : fatValueIsEoc start = true) (fuel : Nat) :
    enumerate v read start (fuel + 1) {} = some ([], .notFound) := by
  have hheld : Held v read { cluster := start, state := 1 } _ := held_start start
  have hfresh : ¬(0 = v.sectorsPerCluster * sectorSize ∧ v.sectorsPerCluster * sectorSize ≠ 0) := by
    rintro ⟨hzero, hsome⟩
    exact hsome hzero.symm
  have henter : enter v read { cluster := start, state := 1 } false = .stop .notFound { cluster := start, state := 2 } := by
    unfold enter
    dsimp only
    rw [if_neg hfresh, if_pos hstart, if_neg Bool.false_ne_true]
  have hscan : scanLoop v read 256 none { cluster := start, state := 1 } {} = (.notFound, { cluster := start, state := 2 }, {}) := by
    rw [scanLoop, show proceed v read none { cluster := start, state := 1 } (({} : LfnState).active) =
      enter v read { cluster := start, state := 1 } false from rfl, henter]
  rw [enumerate_start, enumerate, hheld.call start]
  rw [show (({ cluster := start, state := 1 } : DirectoryCursor).lfn) = {} from rfl, hscan]

/-- The scanner that reads by numbers fails there. -/
theorem readDirectoryEntryStatus_eoc {start : Nat} (hstart : fatValueIsEoc start = true) (k room : Nat) :
    readDirectoryEntryStatus v read start (k + 2) room = some .io := by
  have hbeyond : reservedStart ≤ start := by
    rw [fatValueIsEoc, Bool.and_eq_true, decide_eq_true_eq] at hstart
    exact Nat.le_trans (by decide) hstart.1
  have hinvalid : v.validDataCluster start = false := by
    unfold Volume.validDataCluster
    simp [hbeyond]
  unfold readDirectoryEntryStatus
  rw [if_neg (by omega), scanChain]
  unfold DirChainIterator.next DirChainIterator.init
  rw [hinvalid]
  rfl

theorem not_exact_of_eoc {start room : Nat} (hstart : fatValueIsEoc start = true) : ¬ CursorExact v read start room := by
  rintro ⟨entries, last, -, ⟨enough, henough⟩, hread, -⟩
  have hempty := (henough (enough + 1) (Nat.le_succ _)).symm.trans (enumerate_eoc hstart enough)
  cases hempty
  have hlast := (hread 0).symm.trans (readDirectoryEntryStatus_eoc hstart 0 room)
  cases hlast

/-- **The cursor enumerates a directory exactly when its start is no mark for the end of a chain**, whatever the volume holds
and whichever of its sectors fail.  The buffer for a name has `nameMax` bytes or more. -/
theorem cursor_exact (v : Volume) (read : Nat → Option Bytes) (start : Nat) {room : Nat} (hroom : nameMax ≤ room) :
    CursorExact v read start room ↔ fatValueIsEoc start = false := by
  refine ⟨fun hexact => ?_, fun hstart => exact_of_live hstart hroom⟩
  rw [Bool.eq_false_iff]
  exact fun heoc => not_exact_of_eoc heoc hexact

/-- A directory of two clusters, with a file in each. -/
def pairVolume : Volume where
  partitionLba := 0
  reservedSectors := 1
  fatCount := 1
  sectorsPerFat := 1
  totalSectors := 10
  sectorsPerCluster := 1
  fsInfoSector := 0
  backupBootSector := 0

def pairSlot (letter : UInt8) : Slot := letter :: List.replicate 10 32 ++ [0x20] ++ List.replicate 20 0

def pairSector : Nat → Option Bytes
  | 1 => some ([0, 0, 0, 0, 0, 0, 0, 0, 3, 0, 0, 0, 0xFF, 0xFF, 0xFF, 0x0F] ++ List.replicate 496 0)
  | 2 => some (pairSlot 65 ++ List.replicate 480 0xE5)
  | 3 => some (pairSlot 66 ++ List.replicate 480 0)
  | _ => none

theorem pair_exact :
    (enumerate pairVolume pairSector 2 3 {}).map (fun r => r.1.map (fun e => e.entry.name)) = some [[65], [66]] ∧
      CursorExact pairVolume pairSector 2 768 :=
  ⟨by decide +kernel, (cursor_exact pairVolume pairSector 2 (by decide)).2 (by decide)⟩

/-- **The same volume from the mark on**: the cursor ends without an entry, the number two cannot be read. -/
theorem mark_differs : enumerate pairVolume pairSector 0x0FFFFFFF 1 {} = some ([], .notFound) ∧
    readDirectoryEntryStatus pairVolume pairSector 0x0FFFFFFF 2 768 = some .io ∧
    ¬ CursorExact pairVolume pairSector 0x0FFFFFFF 768 :=
  ⟨enumerate_eoc (by decide) 0, readDirectoryEntryStatus_eoc (by decide) 0 768, not_exact_of_eoc (by decide)⟩

end Fat32
end R4
