import Mathlib.Data.List.Basic
/-!
# Runs — a step function over a list of events

What holds at the start and is kept by every step holds in every state of a run; the steps may rely on a condition on each
event and the state it meets.
-/
namespace R4
namespace Runs

variable {σ ε : Type} {step : σ → ε → σ}

/-- The state after the events. -/
def run (step : σ → ε → σ) (s : σ) (events : List ε) : σ := events.foldl step s

/-- Every step of a run starts in a state that satisfies `P` with its event. -/
def Along (step : σ → ε → σ) (P : σ → ε → Prop) : σ → List ε → Prop
  | _, [] => True
  | s, e :: events => P s e ∧ Along step P (step s e) events

instance decidableAlong {P : σ → ε → Prop} [∀ s e, Decidable (P s e)] : ∀ (s : σ) (events : List ε),
    Decidable (Along step P s events)
  | _, [] => inferInstanceAs (Decidable True)
  | s, e :: events =>
    have := decidableAlong (P := P) (step s e) events
    inferInstanceAs (Decidable (P s e ∧ Along step P (step s e) events))

@[simp] theorem run_nil (s : σ) : run step s [] = s := rfl

@[simp] theorem run_cons (s : σ) (e : ε) (events : List ε) : run step s (e :: events) = run step (step s e) events := rfl

theorem run_append (s : σ) (as bs : List ε) : run step s (as ++ bs) = run step (run step s as) bs := List.foldl_append ..

theorem along_append {P : σ → ε → Prop} : ∀ (as bs : List ε) (s : σ),
    Along step P s (as ++ bs) ↔ Along step P s as ∧ Along step P (run step s as) bs
  | [], bs, s => by simp [Along]
  | a :: as, bs, s => by
    rw [List.cons_append, run_cons]
    show P s a ∧ Along step P (step s a) (as ++ bs) ↔ (P s a ∧ Along step P (step s a) as) ∧ _
    rw [along_append as bs, and_assoc]

/-- **The invariant rule.** -/
theorem invariant {I : σ → Prop} {P : σ → ε → Prop} (hstep : ∀ s e, I s → P s e → I (step s e)) :
    ∀ (events : List ε) {s : σ}, I s → Along step P s events → I (run step s events)
  | [], _, h, _ => h
  | e :: events, s, h, ha => invariant hstep events (hstep s e h ha.1) ha.2

end Runs
end R4
