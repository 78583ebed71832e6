import Mathlib.Logic.Basic
/-!
# Crash — runs that can be cut at every durable state

A run passes durable states on its way and ends in one.  A crash leaves the state it started in or one it passed.
-/
namespace R4

/-- The durable states a run passes, and how it ends. -/
def Crashing (σ ε α : Type) : Type := σ → List σ × (Except ε α × σ)

namespace Crashing

variable {σ ε α β : Type}

def bind (x : Crashing σ ε α) (f : α → Crashing σ ε β) : Crashing σ ε β := fun s =>
  match x s with
  | (p, .error e, t) => (p, .error e, t)
  | (p, .ok a, t) => (p ++ (f a t).1, (f a t).2)

instance : Monad (Crashing σ ε) where
  pure a := fun s => ([], .ok a, s)
  bind := bind

def fail (e : ε) : Crashing σ ε α := fun s => ([], .error e, s)

/-- A reading of the state that may fail. -/
def read (f : σ → Except ε α) : Crashing σ ε α := fun s => ([], f s, s)

/-- `if (bad) return e`. -/
def refuse (bad : Bool) (e : ε) : Crashing σ ε Unit := fun s => ([], if bad then .error e else .ok (), s)

/-- A change that is durable when it is there. -/
def change (f : σ → σ) : Crashing σ ε Unit := fun s => ([f s], .ok (), f s)

/-- A change that passes through other durable states. -/
def changeThrough (before : List (σ → σ)) (f : σ → σ) : Crashing σ ε Unit := fun s =>
  (before.map (fun g => g s) ++ [f s], .ok (), f s)

/-- A failure under the caller's name for it. -/
def mapError {δ : Type} (g : ε → δ) (x : Crashing σ ε α) : Crashing σ δ α := fun s => ((x s).1, (x s).2.1.mapError g, (x s).2.2)

/-- A part that is left out where its work is done. -/
def unlessDone (done : Bool) (x : Crashing σ ε Unit) : Crashing σ ε Unit := if done then pure () else x

variable {x : Crashing σ ε α} {f : α → Crashing σ ε β} {s t : σ} {p q : List σ}

theorem bind_run {a : α} {r : Except ε β × σ} (hx : x s = (p, .ok a, t)) (hf : f a t = (q, r)) : (x >>= f) s = (p ++ q, r) := by
  change Crashing.bind x f s = _
  unfold Crashing.bind
  rw [hx]
  show (p ++ (f a t).1, (f a t).2) = _
  rw [hf]

theorem bind_fail {e : ε} (hx : x s = (p, .error e, t)) : (x >>= f) s = (p, .error e, t) := by
  change Crashing.bind x f s = _
  unfold Crashing.bind
  rw [hx]

theorem read_bind {g : σ → Except ε α} {a : α} (h : g s = .ok a) : (read g >>= f) s = f a s := by
  change Crashing.bind (read g) f s = _
  unfold Crashing.bind read
  rw [h]
  rfl

theorem refuse_bind {bad : Bool} {e : ε} {g : Unit → Crashing σ ε β} (h : bad = false) : (refuse bad e >>= g) s = g () s := by
  rw [h]
  rfl

theorem mapError_run {δ : Type} {a : α} (g : ε → δ) (hx : x s = (p, .ok a, t)) : mapError g x s = (p, .ok a, t) := by
  unfold mapError
  rw [hx]
  rfl

end Crashing
end R4
