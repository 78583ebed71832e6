import Mathlib.Data.Fin.Basic
import Mathlib.Data.List.FinRange
import Mathlib.Logic.Function.Basic
import Mathlib.Order.Defs.LinearOrder
/-!
# Slots — searching a fixed table of slots

A table is a function on `Fin n`; the searches go through the slots in order, as a loop over the table does.
-/
namespace R4
namespace Slots

variable {n : Nat} {p : Fin n → Bool} {better : Fin n → Fin n → Bool} {i : Fin n}

/-- The first slot that satisfies `p`. -/
def first (p : Fin n → Bool) : Option (Fin n) := (List.finRange n).find? p

/-- One step of the search for the best slot: a later slot wins only when it is better. -/
def pick (p : Fin n → Bool) (better : Fin n → Fin n → Bool) (best : Option (Fin n)) (i : Fin n) : Option (Fin n) :=
  if p i then
    match best with
    | none => some i
    | some j => if better i j then some i else best
  else best

/-- The best slot that satisfies `p`, the earliest of equals. -/
def best (p : Fin n → Bool) (better : Fin n → Fin n → Bool) : Option (Fin n) :=
  (List.finRange n).foldl (pick p better) none

theorem first_some (h : first p = some i) : p i = true := List.find?_some h

theorem first_none : first p = none ↔ ∀ i, p i = false := by
  unfold first
  simp

theorem first_least (h : first p = some i) {j : Fin n} (hj : j < i) : p j = false := by
  obtain ⟨-, as, bs, hs, has⟩ := List.find?_eq_some_iff_append.1 h
  have hmem : j ∈ as := by
    have hj' : j ∈ List.finRange n := List.mem_finRange j
    rw [hs, List.mem_append, List.mem_cons] at hj'
    rcases hj' with hj' | rfl | hj'
    · exact hj'
    · exact absurd hj (lt_irrefl _)
    · have hp : (as ++ i :: bs).Pairwise (· < ·) := by
        rw [← hs]
        exact List.pairwise_lt_finRange n
      have hlt := (List.pairwise_cons.1 (List.pairwise_append.1 hp).2.1).1 j hj'
      exact absurd hj (lt_asymm hlt)
  simpa using has j hmem

theorem first_eq (hi : p i = true) (hless : ∀ j < i, p j = false) : first p = some i := by
  cases h : first p with
  | none => exact absurd ((first_none.1 h i).symm.trans hi) Bool.false_ne_true
  | some j =>
    rcases lt_trichotomy i j with hij | rfl | hji
    · exact absurd ((first_least h hij).symm.trans hi) Bool.false_ne_true
    · rfl
    · exact absurd ((hless j hji).symm.trans (first_some h)) Bool.false_ne_true

theorem pick_fold : ∀ (l : List (Fin n)) (b : Option (Fin n)), (∀ i ∈ b, p i = true) →
    (∀ i ∈ l.foldl (pick p better) b, p i = true) ∧
      (l.foldl (pick p better) b = none ↔ b = none ∧ ∀ i ∈ l, p i = false)
  | [], b, hb => ⟨hb, by simp⟩
  | x :: l, b, hb => by
    have hstep : ∀ i ∈ pick p better b x, p i = true := by
      intro i hi
      unfold pick at hi
      split at hi
      · rename_i hx
        split at hi
        · cases hi; exact hx
        · split at hi
          · cases hi; exact hx
          · exact hb i hi
      · exact hb i hi
    have hnone : pick p better b x = none ↔ b = none ∧ p x = false := by
      unfold pick
      cases hx : p x with
      | false => simp
      | true =>
        cases b with
        | none => simp
        | some j => by_cases hxj : better x j = true <;> simp [hxj]
    obtain ⟨h1, h2⟩ := pick_fold l (pick p better b x) hstep
    refine ⟨h1, h2.trans ?_⟩
    rw [hnone, List.forall_mem_cons, and_assoc]

theorem best_some (h : best p better = some i) : p i = true := by
  have hall : ∀ i ∈ best p better, p i = true := (pick_fold (List.finRange n) none (by simp)).1
  exact hall i h

theorem best_none : best p better = none ↔ ∀ i, p i = false := by
  unfold best
  rw [(pick_fold (List.finRange n) none (by simp)).2]
  simp

section Least

variable {α : Type} [LinearOrder α] {key : Fin n → α}

theorem pick_least : ∀ (l : List (Fin n)) (b : Option (Fin n)) (i : Fin n),
    l.foldl (pick p (fun i j => decide (key i < key j))) b = some i →
    (∀ j ∈ b, key i ≤ key j) ∧ ∀ j ∈ l, p j = true → key i ≤ key j
  | [], b, i, h => by
    refine ⟨fun j hj => ?_, fun _ hj => absurd hj List.not_mem_nil⟩
    obtain rfl : i = j := Option.some.inj (h.symm.trans hj)
    exact le_refl _
  | x :: l, b, i, h => by
    obtain ⟨h1, h2⟩ := pick_least l _ i h
    unfold pick at h1
    cases hx : p x with
    | false =>
      rw [hx, if_neg Bool.false_ne_true] at h1
      refine ⟨h1, fun j hj hpj => ?_⟩
      rcases List.mem_cons.1 hj with rfl | hj
      · exact absurd (hx.symm.trans hpj) Bool.false_ne_true
      · exact h2 j hj hpj
    | true =>
      rw [hx, if_pos rfl] at h1
      -- the later of the two stands only when its key is smaller
      have hboth : key i ≤ key x ∧ ∀ j ∈ b, key i ≤ key j := by
        cases b with
        | none => exact ⟨h1 x rfl, fun _ hj => absurd hj (by simp)⟩
        | some y =>
          dsimp only at h1
          by_cases hxy : key x < key y
          · rw [if_pos (decide_eq_true hxy)] at h1
            have hix := h1 x rfl
            exact ⟨hix, fun j hj => Option.some.inj hj ▸ hix.trans hxy.le⟩
          · rw [if_neg (by simpa using hxy)] at h1
            have hiy := h1 y rfl
            exact ⟨hiy.trans (not_lt.1 hxy), fun j hj => Option.some.inj hj ▸ hiy⟩
      refine ⟨hboth.2, fun j hj hpj => ?_⟩
      rcases List.mem_cons.1 hj with rfl | hj
      · exact hboth.1
      · exact h2 j hj hpj

theorem best_least (key : Fin n → α) (h : best p (fun i j => decide (key i < key j)) = some i) {j : Fin n}
    (hj : p j = true) : key i ≤ key j := (pick_least _ _ _ h).2 j (List.mem_finRange j) hj

end Least

end Slots
end R4
