import RusticOs.Lib.Fallible

/-!
# `RusticOs.Lib.Halt`: refusals, panics and loops that do not end

A computation that the caller may see refused, that may panic, or that may still be looping
when its model runs out of turns. A proof that a computation never panics and always returns
is a proof that it never halts in one of the other two ways.
-/

set_option autoImplicit false

namespace RusticOs.Lib

/-- Why a computation did not return a value. -/
inductive Halt (ε : Type) where
  | refused (error : ε)
  | panicked
  | looping
  deriving DecidableEq

namespace Fallible

variable {ε σ α : Type}

/-- A value that must be there. -/
def expect (x : Option α) : Fallible (Halt ε) σ α :=
  match x with
  | some a => pure a
  | none => fail .panicked

/-- A condition that must hold. -/
def require (c : Prop) [Decidable c] : Fallible (Halt ε) σ Unit := refuse (¬ c) .panicked

/-- Refuse with a result's error. -/
def check (x : Except ε α) : Fallible (Halt ε) σ α := lift (x.mapError .refused)

theorem require_bind {β : Type} {c : Prop} [Decidable c] (h : c)
    (f : Unit → Fallible (Halt ε) σ β) : (require c >>= f) = f () :=
  refuse_bind_of_not (not_not.mpr h) _ f

@[simp] theorem check_ok_bind {β : Type} (a : α) (f : α → Fallible (Halt ε) σ β) :
    (check (.ok a) >>= f) = f a := rfl

theorem Leads.check_bind {β : Type} {r : Except ε α} {f : α → Fallible (Halt ε) σ β} {s : σ}
    {Q : Except (Halt ε) β → σ → Prop} (herror : ∀ e, r = .error e → Q (.error (.refused e)) s)
    (hok : ∀ a, r = .ok a → Leads (f a) s Q) : Leads (check r >>= f) s Q := by
  cases r with
  | error e => exact herror e rfl
  | ok a => exact hok a rfl

end Fallible

/-! ### Checks that decide a condition -/

section
variable {ε α β γ : Type}

/-- A check that returns `a` when `P` holds and is refused otherwise, without a panic. -/
structure Decides (x : Except (Halt ε) α) (P : Prop) (a : α) : Prop where
  ok : P → x = .ok a
  refused : ¬ P → ∃ e, x = .error (.refused e)

variable {x : Except (Halt ε) α} {P : Prop} {a : α}

theorem Decides.iff (h : Decides x P a) : (∃ b, x = .ok b) ↔ P := by
  constructor
  · rintro ⟨b, hb⟩
    by_contra hP
    obtain ⟨e, he⟩ := h.refused hP
    rw [hb] at he
    cases he
  · exact fun hP => ⟨a, h.ok hP⟩

theorem Decides.eq {b : α} (h : Decides x P a) (hb : x = .ok b) : b = a := by
  have hx := h.ok (h.iff.mp ⟨b, hb⟩)
  rw [hb] at hx
  exact Except.ok.inj hx

theorem Decides.congr {Q : Prop} (h : Decides x P a) (hPQ : P ↔ Q) : Decides x Q a := by
  rw [← propext hPQ]
  exact h

theorem decides_ok (a : α) : Decides (.ok a : Except (Halt ε) α) True a :=
  ⟨fun _ => rfl, fun h => absurd trivial h⟩

theorem decides_refused (e : ε) (a : α) : Decides (.error (.refused e)) False a :=
  ⟨False.elim, fun _ => ⟨e, rfl⟩⟩

theorem decides_reject (c : Prop) [Decidable c] (e : ε) :
    Decides (reject c (.refused e)) (¬ c) () :=
  ⟨fun h => reject_of_not h _, fun h => ⟨e, reject_of (not_not.mp h) _⟩⟩

/-- A step that cannot fail before a check. -/
theorem Decides.after {f : α → Except (Halt ε) β} {b : β} (hx : x = .ok a) (h : Decides (f a) P b) :
    Decides (x >>= f) P b := by
  subst hx
  exact h

/-- One check and then another. -/
theorem Decides.bind {f : α → Except (Halt ε) β} {Q : Prop} {b : β} (hx : Decides x P a)
    (hf : P → Decides (f a) Q b) : Decides (x >>= f) (P ∧ Q) b := by
  constructor
  · rintro ⟨hP, hQ⟩
    rw [hx.ok hP, ok_bind]
    exact (hf hP).ok hQ
  · intro h
    by_cases hP : P
    · rw [hx.ok hP, ok_bind]
      exact (hf hP).refused fun hQ => h ⟨hP, hQ⟩
    · obtain ⟨e, he⟩ := hx.refused hP
      exact ⟨e, by rw [he, error_bind]⟩

end

end RusticOs.Lib
