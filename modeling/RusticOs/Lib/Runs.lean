import Mathlib.Tactic

/-!
# `RusticOs.Lib.Runs`: runs of a deterministic machine

A machine is a function `step : σ → α → σ`. `Allowed ok step s l` says that every input of `l`
meets `ok` in the state it arrives in. The rules here are the inductions over a run: over its
last input with the inputs before it (`run_history`), and over a state alone
(`run_invariant`).
-/

set_option autoImplicit false

namespace RusticOs.Lib

variable {σ α : Type} {step : σ → α → σ} {ok : σ → α → Prop}

/-- The state a list of inputs leads to. -/
def run (step : σ → α → σ) (s : σ) (l : List α) : σ := l.foldl step s

@[simp] theorem run_nil (step : σ → α → σ) (s : σ) : run step s [] = s := rfl

@[simp] theorem run_cons (step : σ → α → σ) (s : σ) (a : α) (l : List α) :
    run step s (a :: l) = run step (step s a) l := rfl

@[simp] theorem run_append (step : σ → α → σ) (s : σ) (l l' : List α) :
    run step s (l ++ l') = run step (run step s l) l' := List.foldl_append

/-- Every input is allowed in the state it arrives in. -/
def Allowed (ok : σ → α → Prop) (step : σ → α → σ) : σ → List α → Prop
  | _, [] => True
  | s, a :: l => ok s a ∧ Allowed ok step (step s a) l

theorem allowed_append {s : σ} {l l' : List α} :
    Allowed ok step s (l ++ l') ↔ Allowed ok step s l ∧ Allowed ok step (run step s l) l' := by
  induction l generalizing s with
  | nil => simp [Allowed]
  | cons a l ih => simp [Allowed, ih, and_assoc]

theorem Allowed.before {s : σ} {l l' : List α} (h : Allowed ok step s l') (hl : l <+: l') :
    Allowed ok step s l := by
  obtain ⟨rest, rfl⟩ := hl
  exact (allowed_append.mp h).1

/-- What holds at the start and is kept by every input, given the inputs before it, holds of
the whole run. -/
theorem run_history {P : List α → σ → Prop} {s : σ} (start : P [] s)
    (next : ∀ l a, P l (run step s l) → Allowed ok step s l → ok (run step s l) a →
      P (l ++ [a]) (step (run step s l) a)) {l : List α} (h : Allowed ok step s l) :
    P l (run step s l) := by
  -- on the last input: the state before it is the run of the rest
  induction l using List.reverseRecOn with
  | nil => exact start
  | append_singleton l a ih =>
    obtain ⟨hl, ha⟩ := allowed_append.mp h
    rw [run_append]
    exact next l a (ih hl) hl ha.1

/-- What holds at the start and is kept by every input holds along the run. -/
theorem run_invariant {P : σ → Prop} {s : σ} (start : P s)
    (next : ∀ s a, P s → ok s a → P (step s a)) {l : List α} (h : Allowed ok step s l) :
    P (run step s l) :=
  run_history (P := fun _ t => P t) start (fun _ a hP _ ha => next _ a hP ha) h

end RusticOs.Lib
