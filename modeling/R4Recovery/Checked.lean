import Mathlib.Tactic.Common
/-!
# Checked — computations that may be refused and must not fault

A checked computation ends with a value, with an error of its own, or by a fault: a read outside a slice or a sum outside a
machine word.  `Yields x P a` is its whole specification: the value `a` where `P` holds, a refusal elsewhere, never a fault.
-/
namespace R4

inductive Stop (ε : Type) where
  | fail (e : ε)
  | bounds
  | overflow
  deriving DecidableEq, Repr

abbrev Checked (ε α : Type) := Except (Stop ε) α

namespace Checked

variable {ε α β : Type}

/-- `if (bad) return e`. -/
def refuse (bad : Bool) (e : ε) : Checked ε Unit := if bad then .error (.fail e) else .ok ()

/-- `x orelse return e`. -/
def require (x : Option α) (e : ε) : Checked ε α :=
  match x with
  | some a => .ok a
  | none => .error (.fail e)

/-- A loop over the numbers below `n`. -/
def upTo (n : Nat) (f : Nat → Checked ε Unit) : Checked ε Unit := forM (List.range n) f

/-- **The computation gives `a` where `P` holds and is refused elsewhere.** -/
def Yields (x : Checked ε α) (P : Prop) (a : α) : Prop := (P ∧ x = .ok a) ∨ (¬ P ∧ ∃ e, x = .error (.fail e))

theorem Yields.ok {x : Checked ε α} {P : Prop} {a : α} (h : Yields x P a) (hp : P) : x = .ok a := by
  rcases h with ⟨_, h⟩ | ⟨hn, _⟩
  · exact h
  · exact absurd hp hn

theorem Yields.holds {x : Checked ε α} {P : Prop} {a b : α} (h : Yields x P a) (hx : x = .ok b) : P ∧ b = a := by
  rcases h with ⟨hp, h⟩ | ⟨_, e, h⟩
  · rw [hx] at h
    cases h
    exact ⟨hp, rfl⟩
  · rw [hx] at h
    cases h

/-- The computation ends with a value or with an error of its own. -/
def Settled (x : Checked ε α) : Prop := (∃ a, x = .ok a) ∨ ∃ e, x = .error (.fail e)

theorem Yields.settled {x : Checked ε α} {P : Prop} {a : α} (h : Yields x P a) : Settled x := by
  rcases h with ⟨_, h⟩ | ⟨_, h⟩
  · exact Or.inl ⟨a, h⟩
  · exact Or.inr h

theorem Settled.yields {x : Checked ε Unit} (h : Settled x) : Yields x (x = .ok ()) () := by
  rcases h with ⟨_, h⟩ | ⟨e, h⟩
  · exact Or.inl ⟨h, h⟩
  · refine Or.inr ⟨?_, e, h⟩
    rw [h]
    exact fun h => by cases h

theorem Yields.pure (a : α) : Yields (.ok a : Checked ε α) True a := Or.inl ⟨trivial, rfl⟩

theorem Yields.congr {x : Checked ε α} {P Q : Prop} {a : α} (h : Yields x P a) (hpq : P ↔ Q) : Yields x Q a := by
  unfold Yields at *
  rwa [hpq] at h

theorem Yields.refuse (bad : Bool) (e : ε) : Yields (refuse bad e) (bad = false) () := by
  cases bad
  · exact Or.inl ⟨rfl, rfl⟩
  · exact Or.inr ⟨by decide, e, rfl⟩

theorem Yields.require (x : Option α) (e : ε) (d : α) : Yields (require x e) (x.isSome = true) (x.getD d) := by
  cases x
  · exact Or.inr ⟨Bool.false_ne_true, e, rfl⟩
  · exact Or.inl ⟨rfl, rfl⟩

/-- **The second computation may rely on what the first has checked.** -/
theorem Yields.bind {x : Checked ε α} {f : α → Checked ε β} {P Q : Prop} {a : α} {b : β} (hx : Yields x P a)
    (hf : P → Yields (f a) Q b) : Yields (x >>= f) (P ∧ Q) b := by
  rcases hx with ⟨hp, hx⟩ | ⟨hn, e, hx⟩
  · rw [hx]
    rcases hf hp with ⟨hq, h⟩ | ⟨hn, h⟩
    · exact Or.inl ⟨⟨hp, hq⟩, h⟩
    · exact Or.inr ⟨fun hc => hn hc.2, h⟩
  · rw [hx]
    exact Or.inr ⟨fun hc => hn hc.1, e, rfl⟩

theorem Yields.seq {x : Checked ε Unit} {y : Checked ε β} {P Q : Prop} {b : β} (hx : Yields x P ()) (hy : P → Yields y Q b) :
    Yields (x >>= fun _ => y) (P ∧ Q) b := hx.bind hy

theorem Yields.read {x : Checked ε α} {f : α → Checked ε β} {Q : Prop} {a : α} {b : β} (hx : x = .ok a)
    (hf : Yields (f a) Q b) :
    Yields (x >>= f) Q b := by
  rw [hx]
  exact hf

theorem Settled.bind {x : Checked ε α} {f : α → Checked ε β} (hx : Settled x) (hf : ∀ a, x = .ok a → Settled (f a)) :
    Settled (x >>= f) := by
  rcases hx with ⟨a, hx⟩ | ⟨e, hx⟩
  · have h := hf a hx
    rwa [hx]
  · rw [hx]
    exact Or.inr ⟨e, rfl⟩

theorem upTo_succ (n : Nat) (f : Nat → Checked ε Unit) : upTo (n + 1) f = upTo n f >>= fun _ => f n := by
  unfold upTo
  rw [List.range_succ, List.forM_append]
  congr 1
  funext _
  show f n >>= (fun _ => Pure.pure ()) = f n
  cases f n <;> rfl

theorem Yields.upTo {f : Nat → Checked ε Unit} {P : Nat → Prop} : ∀ {n : Nat},
    (∀ i, i < n → (∀ j, j < i → P j) → Yields (f i) (P i) ()) → Yields (upTo n f) (∀ i, i < n → P i) ()
  | 0, _ => Or.inl ⟨fun _ h => absurd h (Nat.not_lt_zero _), rfl⟩
  | n + 1, h => by
    rw [upTo_succ]
    have hn : Yields (Checked.upTo n f) (∀ i, i < n → P i) () := Yields.upTo (fun i hi => h i (Nat.lt_succ_of_lt hi))
    refine (hn.bind (fun hp => h n (Nat.lt_succ_self n) hp)).congr ⟨fun hc i hi => ?_, fun hc => ⟨fun i hi => ?_, ?_⟩⟩
    · rcases Nat.lt_succ_iff_lt_or_eq.1 hi with hi | hi
      · exact hc.1 i hi
      · rw [hi]
        exact hc.2
    · exact hc i (Nat.lt_succ_of_lt hi)
    · exact hc n (Nat.lt_succ_self n)

end Checked
end R4
