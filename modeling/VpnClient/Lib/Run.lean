import Mathlib

/-!
# Runs of a step function

A system given by a total step function `step : σ → α → σ`, a run by the actions it
takes in order. Where some interleavings are excluded (a lock the code holds, a call
that does not overlap another), `Allowed ok` says that each action of a run was allowed
by `ok` in the state it was taken from.

`run_invariant` is the induction rule for runs: a property that every allowed step
keeps holds after every allowed run.
-/

namespace VpnClient.Lib.Run

variable {σ α : Type*} (step : σ → α → σ)

/-- The state after taking the actions in order. -/
def run (s : σ) (as : List α) : σ := as.foldl step s

@[simp] theorem run_nil (s : σ) : run step s [] = s := rfl

@[simp] theorem run_cons (s : σ) (a : α) (as : List α) : run step s (a :: as) = run step (step s a) as := rfl

/-- Every action of the run is allowed, by `ok`, in the state it is taken from. -/
def Allowed (ok : σ → α → Prop) : σ → List α → Prop
  | _, [] => True
  | s, a :: as => ok s a ∧ Allowed ok (step s a) as

variable {step} {ok : σ → α → Prop}

instance decAllowed [∀ s a, Decidable (ok s a)] : ∀ (s : σ) (as : List α), Decidable (Allowed step ok s as)
  | _, [] => isTrue trivial
  | s, a :: as =>
    have := decAllowed (step s a) as
    inferInstanceAs (Decidable (ok s a ∧ Allowed step ok (step s a) as))

@[simp] theorem allowed_nil (s : σ) : Allowed step ok s [] := trivial

@[simp] theorem allowed_cons {s : σ} {a : α} {as : List α} :
    Allowed step ok s (a :: as) ↔ ok s a ∧ Allowed step ok (step s a) as := Iff.rfl

theorem allowed_append : ∀ {s : σ} {as bs : List α},
    Allowed step ok s (as ++ bs) ↔ Allowed step ok s as ∧ Allowed step ok (run step s as) bs
  | s, [], bs => by simp
  | s, a :: as, bs => by
    simp only [List.cons_append, allowed_cons, run_cons, allowed_append, and_assoc]

/-- **Induction over runs**: what every allowed step keeps holds after every allowed run. -/
theorem run_invariant {P : σ → Prop} (hstep : ∀ s a, P s → ok s a → P (step s a)) {s : σ} {as : List α}
    (hs : P s) (has : Allowed step ok s as) : P (run step s as) := by
  induction as generalizing s with
  | nil => exact hs
  | cons a as ih => exact ih (hstep s a hs has.1) has.2

/-- **Induction over runs** of a system whose every action is allowed. -/
theorem run_preserves {P : σ → Prop} (hstep : ∀ s a, P s → P (step s a)) {s : σ} (as : List α)
    (hs : P s) : P (run step s as) := by
  induction as generalizing s with
  | nil => exact hs
  | cons a as ih => exact ih (hstep s a hs)

/-- **Simulation**: a relation between the states of two systems that every action,
taken by both, keeps holds after every run of the same actions. -/
theorem run_simulation {τ : Type*} {step' : τ → α → τ} {R : σ → τ → Prop}
    (hstep : ∀ s t a, R s t → R (step s a) (step' t a)) {s : σ} {t : τ} (as : List α) (h : R s t) :
    R (run step s as) (run step' t as) := by
  induction as generalizing s t with
  | nil => exact h
  | cons a as ih => exact ih (hstep s t a h)

/-- **Simulation** of allowed runs: a relation that every allowed action keeps holds after
every allowed run. -/
theorem run_simulation_of_allowed {τ : Type*} {step' : τ → α → τ} {R : σ → τ → Prop}
    (hstep : ∀ s t a, R s t → ok s a → R (step s a) (step' t a)) {s : σ} {t : τ} {as : List α}
    (has : Allowed step ok s as) (h : R s t) : R (run step s as) (run step' t as) := by
  induction as generalizing s t with
  | nil => exact h
  | cons a as ih => exact ih has.2 (hstep s t a h has.1)

end VpnClient.Lib.Run
