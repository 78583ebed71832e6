import Mathlib.Order.Defs.Unbundled
/-!
# Stateful — operations that keep their changes when they fail

An operation on a state returns a value or an error, and the state it leaves behind in both cases: what it changed before
it failed stays.  `Keeps R` bounds every change by a preorder `R`, `FailsIn R` only the changes of a failed run.
-/
namespace R4

def Stateful (σ ε α : Type) : Type := σ → Except ε α × σ

namespace Stateful

variable {σ ε α β : Type}

def bind (x : Stateful σ ε α) (f : α → Stateful σ ε β) : Stateful σ ε β := fun s =>
  match x s with
  | (.error e, t) => (.error e, t)
  | (.ok a, t) => f a t

instance : Monad (Stateful σ ε) where
  pure a := fun s => (.ok a, s)
  bind := bind

/-- A check that only looks at the state. -/
def check (f : σ → Except ε α) : Stateful σ ε α := fun s => (f s, s)

def refuse (bad : σ → Bool) (e : ε) : Stateful σ ε Unit := check (fun s => if bad s then .error e else .ok ())

def update (f : σ → σ) : Stateful σ ε Unit := fun s => (.ok (), f s)

section Runs

variable {s t : σ}

theorem bind_cases {x : Stateful σ ε α} {f : α → Stateful σ ε β} {r : Except ε β} (h : (x >>= f) s = (r, t)) :
    (∃ e, x s = (.error e, t) ∧ r = .error e) ∨ ∃ a u, x s = (.ok a, u) ∧ f a u = (r, t) := by
  change Stateful.bind x f s = (r, t) at h
  unfold Stateful.bind at h
  split at h
  · rename_i e u hx
    cases h
    exact .inl ⟨e, hx, rfl⟩
  · rename_i a u hx
    exact .inr ⟨a, u, hx, h⟩

theorem bind_ok {x : Stateful σ ε α} {f : α → Stateful σ ε β} {b : β} (h : (x >>= f) s = (.ok b, t)) :
    ∃ a u, x s = (.ok a, u) ∧ f a u = (.ok b, t) := by
  rcases bind_cases h with ⟨e, -, h⟩ | h
  · cases h
  · exact h

theorem bind_run {x : Stateful σ ε α} {f : α → Stateful σ ε β} {a : α} (h : x s = (.ok a, t)) : (x >>= f) s = f a t := by
  change Stateful.bind x f s = _
  unfold Stateful.bind
  rw [h]

theorem bind_fail {x : Stateful σ ε α} {f : α → Stateful σ ε β} {e : ε} (h : x s = (.error e, t)) :
    (x >>= f) s = (.error e, t) := by
  change Stateful.bind x f s = _
  unfold Stateful.bind
  rw [h]

theorem check_eq {f : σ → Except ε α} {r : Except ε α} (h : check f s = (r, t)) : f s = r ∧ s = t := by
  cases h; exact ⟨rfl, rfl⟩

theorem refuse_ok {bad : σ → Bool} {e : ε} {u : Unit} (h : refuse bad e s = (.ok u, t)) : bad s = false ∧ s = t := by
  obtain ⟨hf, rfl⟩ := check_eq h
  split at hf
  · cases hf
  · rename_i hb; exact ⟨by simpa using hb, rfl⟩

theorem check_bind {g : σ → Except ε α} {f : α → Stateful σ ε β} {a : α} (h : g s = .ok a) : (check g >>= f) s = f a s :=
  bind_run (by rw [check, h])

theorem refuse_bind {bad : σ → Bool} {e : ε} {f : Unit → Stateful σ ε β} (h : bad s = false) :
    (refuse bad e >>= f) s = f () s := check_bind (by rw [h]; rfl)

theorem update_bind (g : σ → σ) (f : Unit → Stateful σ ε β) : (update g >>= f) s = f () (g s) := rfl

end Runs

/-! ## What a run may change -/

/-- Whatever comes out of it, the state moves along `R`. -/
def Keeps (R : σ → σ → Prop) (x : Stateful σ ε α) : Prop := ∀ s, R s (x s).2

/-- A failure moves the state along `R`. -/
def FailsIn (R : σ → σ → Prop) (x : Stateful σ ε α) : Prop := ∀ s e t, x s = (.error e, t) → R s t

variable {R : σ → σ → Prop}

theorem Keeps.check [Std.Refl R] (f : σ → Except ε α) : Keeps R (check f) := fun s => Std.Refl.refl s

theorem Keeps.pure [Std.Refl R] (a : α) : Keeps R (Pure.pure a : Stateful σ ε α) := fun s => Std.Refl.refl s

theorem Keeps.update {f : σ → σ} (h : ∀ s, R s (f s)) : Keeps R (update f : Stateful σ ε Unit) := h

theorem Keeps.bindOk [IsTrans σ R] {x : Stateful σ ε α} {f : α → Stateful σ ε β} (hx : Keeps R x)
    (hf : ∀ a s t, x s = (.ok a, t) → Keeps R (f a)) : Keeps R (x >>= f) := by
  intro s
  have h1 := hx s
  rcases bind_cases (Prod.eta ((x >>= f) s)).symm with ⟨e, h, -⟩ | ⟨a, u, h, hu⟩
  · rw [h] at h1
    exact h1
  · have h2 := hf a s u h u
    rw [h] at h1
    rw [hu] at h2
    exact IsTrans.trans _ _ _ h1 h2

theorem Keeps.bind [IsTrans σ R] {x : Stateful σ ε α} {f : α → Stateful σ ε β} (hx : Keeps R x) (hf : ∀ a, Keeps R (f a)) :
    Keeps R (x >>= f) := Keeps.bindOk hx (fun a _ _ _ => hf a)

theorem Keeps.ite {p : Prop} [Decidable p] {x y : Stateful σ ε α} (hx : p → Keeps R x) (hy : ¬ p → Keeps R y) :
    Keeps R (if p then x else y) := by
  split
  · rename_i h; exact hx h
  · rename_i h; exact hy h

theorem FailsIn.update (f : σ → σ) : FailsIn R (update f : Stateful σ ε Unit) := by
  intro s e t h
  cases h

theorem FailsIn.bind [IsTrans σ R] {x : Stateful σ ε α} {f : α → Stateful σ ε β} (hx : Keeps R x) (hf : ∀ a, FailsIn R (f a)) :
    FailsIn R (x >>= f) := by
  intro s e t h
  have hq := hx s
  rcases bind_cases h with ⟨e', h, -⟩ | ⟨a, u, h, hu⟩
  · rw [h] at hq
    exact hq
  · rw [h] at hq
    exact IsTrans.trans _ _ _ hq (hf a u e t hu)

theorem FailsIn.map {x : Stateful σ ε α} (hx : FailsIn R x) (f : α → β) : FailsIn R (do let a ← x; Pure.pure (f a)) := by
  intro s e t h
  rcases bind_cases h with ⟨e', h, -⟩ | ⟨a, u, -, hu⟩
  · exact hx s e' t h
  · cases hu

/-- The preorder of an invariant. -/
def Preserves (P : σ → Prop) (s t : σ) : Prop := P s → P t

instance (P : σ → Prop) : Std.Refl (Preserves P) := ⟨fun _ h => h⟩

instance (P : σ → Prop) : IsTrans σ (Preserves P) := ⟨fun _ _ _ h g p => g (h p)⟩

end Stateful

end R4
