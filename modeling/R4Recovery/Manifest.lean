import R4Recovery.Lines
/-!
# Manifest — the words of an update manifest

The part of `r4u_manifest.zig` that the batch planner and the batch journal read: component kinds, install modes and
priorities, version texts and their order, tokens, and targets up to case and kind of separator.
-/
namespace R4
namespace Manifest

def headerSize : Nat := 64
def packageNameMaxBytes : Nat := 48
def versionMaxBytes : Nat := 24

inductive ComponentKind where
  | kernel | r4x | r4l | r4d | r4p
  deriving DecidableEq, Repr

inductive InstallMode where
  | live | restart
  deriving DecidableEq, Repr

inductive Priority where
  | normal | foundation
  deriving DecidableEq, Repr

def InstallMode.text : InstallMode → Bytes
  | .live => ascii "live"
  | .restart => ascii "restart"

def InstallMode.parse (value : Bytes) : Option InstallMode :=
  [InstallMode.live, .restart].find? (fun mode => eqlIgnoreCase value mode.text)

def Priority.text : Priority → Bytes
  | .normal => ascii "normal"
  | .foundation => ascii "foundation"

def Priority.parse (value : Bytes) : Option Priority :=
  [Priority.normal, .foundation].find? (fun priority => eqlIgnoreCase value priority.text)

/-! ## Versions -/

/-- The digits of a version part, a `u32`. -/
def partFrom : Bytes → Nat → Option Nat
  | [], numeric => some numeric
  | byte :: rest, numeric =>
    if isDigit byte then
      if numeric * 10 + (byte.toNat - 48) < 2 ^ 32 then partFrom rest (numeric * 10 + (byte.toNat - 48)) else none
    else none

def partValid (part : Bytes) : Bool :=
  !part.isEmpty && !(decide (1 < part.length) && part.head? == some 48) && (partFrom part 0).isSome

/-- `std.mem.splitScalar(u8, value, '.')`. -/
def versionParts (value : Bytes) : List Bytes := value.splitOn 46

def validSemanticVersion (value : Bytes) : Bool :=
  value.length != 0 && decide (value.length ≤ versionMaxBytes) && (versionParts value).all partValid &&
    (versionParts value).length == 3

def compareParts : List Bytes → List Bytes → Option Int
  | left :: lefts, right :: rights =>
    match partFrom left 0, partFrom right 0 with
    | some leftValue, some rightValue =>
      if leftValue < rightValue then some (-1) else if rightValue < leftValue then some 1 else compareParts lefts rights
    | _, _ => none
  | _, _ => some 0

def compareVersions (left right : Bytes) : Option Int :=
  if !validSemanticVersion left || !validSemanticVersion right then none
  else compareParts (versionParts left) (versionParts right)

/-! ## Tokens and targets -/

def validToken (value : Bytes) (maxBytes : Nat) : Bool :=
  value.length != 0 && decide (value.length ≤ maxBytes) &&
    value.all (fun byte => decide (32 < byte) && decide (byte < 0x7F) && byte != 59 && byte != 124 && byte != 61)

def targetFold (byte : UInt8) : UInt8 := if byte == 47 || byte == 92 then 47 else toUpper byte

def targetEquals (left right : Bytes) : Bool := left.map targetFold == right.map targetFold

theorem targetEquals_iff (left right : Bytes) : targetEquals left right = true ↔ left.map targetFold = right.map targetFold := by
  unfold targetEquals
  rw [beq_iff_eq]

/-! ## The order of versions -/

def partNumber (part : Bytes) : Nat := part.foldl (fun numeric byte => numeric * 10 + (byte.toNat - 48)) 0

/-- The numbers of a version text. -/
def versionNumbers (value : Bytes) : List Nat := (versionParts value).map partNumber

/-- Both texts are versions, and the numbers of `have_` are not below those of `want`. -/
def AtLeast (have_ want : Bytes) : Prop :=
  validSemanticVersion have_ = true ∧ validSemanticVersion want = true ∧ ¬ versionNumbers have_ < versionNumbers want

theorem partFrom_eq : ∀ {part : Bytes} {numeric n : Nat}, partFrom part numeric = some n →
    n = part.foldl (fun numeric byte => numeric * 10 + (byte.toNat - 48)) numeric
  | [], _, _, h => (Option.some.inj h).symm
  | byte :: rest, numeric, n, h => by
    rw [partFrom] at h
    split at h
    · split at h
      · rw [List.foldl_cons]
        exact partFrom_eq h
      · cases h
    · cases h

theorem compareParts_spec : ∀ {lefts rights : List Bytes}, lefts.length = rights.length →
    (∀ part ∈ lefts, partValid part = true) → (∀ part ∈ rights, partValid part = true) →
    ∃ c, compareParts lefts rights = some c ∧ (c < 0 ↔ lefts.map partNumber < rights.map partNumber)
  | [], [], _, _, _ => ⟨0, rfl, by simp⟩
  | [], _ :: _, hlen, _, _ => by cases hlen
  | _ :: _, [], hlen, _, _ => by cases hlen
  | left :: lefts, right :: rights, hlen, hl, hr => by
    obtain ⟨c, hc, hlt⟩ := compareParts_spec (Nat.succ.inj hlen) (fun p hp => hl p (List.mem_cons_of_mem _ hp))
      (fun p hp => hr p (List.mem_cons_of_mem _ hp))
    have hvalue : ∀ {part : Bytes}, partValid part = true → ∃ n, partFrom part 0 = some n := fun h => by
      unfold partValid at h
      rw [Bool.and_eq_true] at h
      exact Option.isSome_iff_exists.1 h.2
    obtain ⟨a, ha⟩ := hvalue (hl left List.mem_cons_self)
    obtain ⟨b, hb⟩ := hvalue (hr right List.mem_cons_self)
    rw [List.map_cons, List.map_cons, List.cons_lt_cons_iff, partNumber, partNumber, ← partFrom_eq ha, ← partFrom_eq hb]
    unfold compareParts
    rw [ha, hb]
    dsimp only
    rcases Nat.lt_trichotomy a b with hab | rfl | hab
    · rw [if_pos hab]
      exact ⟨-1, rfl, ⟨fun _ => .inl hab, fun _ => by decide⟩⟩
    · rw [if_neg (Nat.lt_irrefl a), if_neg (Nat.lt_irrefl a)]
      exact ⟨c, hc, hlt.trans ⟨fun h => .inr ⟨rfl, h⟩, fun h => h.elim (fun h => absurd h (Nat.lt_irrefl a)) And.right⟩⟩
    · rw [if_neg (Nat.lt_asymm hab), if_pos hab]
      exact ⟨1, rfl, by omega⟩

theorem validSemanticVersion_iff (value : Bytes) : validSemanticVersion value = true ↔
    value.length ≠ 0 ∧ value.length ≤ versionMaxBytes ∧ (∀ part ∈ versionParts value, partValid part = true) ∧
      (versionParts value).length = 3 := by
  unfold validSemanticVersion
  rw [Bool.and_eq_true, Bool.and_eq_true, Bool.and_eq_true, bne_iff_ne, decide_eq_true_eq, List.all_eq_true, beq_iff_eq,
    and_assoc, and_assoc]

/-- **`compareVersions` is the order of the numbers, and answers for two version texts only.** -/
theorem compareVersions_ge (have_ want : Bytes) : ¬ ((compareVersions have_ want).getD (-1) < 0) ↔ AtLeast have_ want := by
  unfold compareVersions AtLeast
  cases hl : validSemanticVersion have_ with
  | false => simp
  | true =>
    cases hr : validSemanticVersion want with
    | false => simp
    | true =>
      obtain ⟨-, -, hlv, hll⟩ := (validSemanticVersion_iff _).1 hl
      obtain ⟨-, -, hrv, hrl⟩ := (validSemanticVersion_iff _).1 hr
      obtain ⟨c, hc, hlt⟩ := compareParts_spec (hll.trans hrl.symm) hlv hrv
      rw [Bool.not_true, Bool.or_false, if_neg Bool.false_ne_true, hc, Option.getD_some]
      exact (not_congr hlt).trans ⟨fun h => ⟨rfl, rfl, h⟩, fun h => h.2.2⟩

end Manifest
end R4
