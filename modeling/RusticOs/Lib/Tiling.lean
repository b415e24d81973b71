import Mathlib.Tactic

/-!
# `RusticOs.Lib.Tiling`: pieces that follow one another

A list of pieces, each of some size, laid one after another from a start. `span` is what they
cover together and `Placed start l a x` says that the piece `x` lies at `a`. Pieces at different
places do not meet (`Placed.apart`), and a place inside one piece is in no other.
-/

set_option autoImplicit false

namespace RusticOs.Lib

variable {α : Type}

/-- A size for every piece. -/
class Sized (α : Type) where
  size : α → Nat

open Sized (size)

variable [Sized α] {start a b n : Nat} {l r pre post : List α} {x y : α}

/-- What the pieces cover together. -/
def span : List α → Nat
  | [] => 0
  | x :: l => size x + span l

/-- The size of the last piece, or `p` when there is none. -/
def lastSize (p : Nat) : List α → Nat
  | [] => p
  | x :: l => lastSize (size x) l

@[simp] theorem span_nil : span ([] : List α) = 0 := rfl

@[simp] theorem span_cons (x : α) (l : List α) : span (x :: l) = size x + span l := rfl

@[simp] theorem span_append (l r : List α) : span (l ++ r) = span l + span r := by
  induction l with
  | nil => simp
  | cons x l ih => simp [ih, Nat.add_assoc]

@[simp] theorem lastSize_nil (p : Nat) : lastSize p ([] : List α) = p := rfl

@[simp] theorem lastSize_cons (p : Nat) (x : α) (l : List α) :
    lastSize p (x :: l) = lastSize (size x) l := rfl

@[simp] theorem lastSize_append (p : Nat) (l r : List α) :
    lastSize p (l ++ r) = lastSize (lastSize p l) r := by
  induction l generalizing p with
  | nil => rfl
  | cons x l ih => exact ih _

/-- The piece `x` lies at `a` when the pieces are laid from `start` on. -/
def Placed (start : Nat) (l : List α) (a : Nat) (x : α) : Prop :=
  ∃ pre post, l = pre ++ x :: post ∧ a = start + span pre

theorem placed_middle (start : Nat) (pre : List α) (x : α) (post : List α) :
    Placed start (pre ++ x :: post) (start + span pre) x := ⟨pre, post, rfl, rfl⟩

@[simp] theorem not_placed_nil : ¬ Placed start ([] : List α) a x := by
  rintro ⟨pre, post, h, -⟩
  simp at h

@[simp] theorem placed_cons :
    Placed start (y :: l) a x ↔ (a = start ∧ x = y) ∨ Placed (start + size y) l a x := by
  constructor
  · rintro ⟨pre, post, h, rfl⟩
    cases pre with
    | nil =>
      obtain ⟨rfl, rfl⟩ := List.cons.inj h
      exact Or.inl ⟨rfl, rfl⟩
    | cons z pre =>
      obtain ⟨rfl, rfl⟩ := List.cons.inj h
      exact Or.inr ⟨pre, post, rfl, by simp [Nat.add_assoc]⟩
  · rintro (⟨rfl, rfl⟩ | ⟨pre, post, rfl, rfl⟩)
    · exact ⟨[], l, rfl, by simp⟩
    · exact ⟨y :: pre, post, rfl, by simp [Nat.add_assoc]⟩

@[simp] theorem placed_append :
    Placed start (l ++ r) a x ↔ Placed start l a x ∨ Placed (start + span l) r a x := by
  induction l generalizing start with
  | nil => simp
  | cons y l ih => simp [ih, or_assoc, Nat.add_assoc]

theorem Placed.mem (h : Placed start l a x) : x ∈ l := by
  obtain ⟨pre, post, rfl, -⟩ := h
  simp

/-- A piece lies inside what the pieces cover. -/
theorem Placed.inside (h : Placed start l a x) : start ≤ a ∧ a + size x ≤ start + span l := by
  obtain ⟨pre, post, rfl, rfl⟩ := h
  simp only [span_append, span_cons]
  omega

/-- Two pieces that are not one and the same do not meet. -/
theorem Placed.apart (ha : Placed start l a x) (hb : Placed start l b y) :
    (a = b ∧ x = y) ∨ a + size x ≤ b ∨ b + size y ≤ a := by
  induction l generalizing start with
  | nil => exact absurd ha not_placed_nil
  | cons z l ih =>
    rcases placed_cons.mp ha with ⟨rfl, rfl⟩ | ha <;>
      rcases placed_cons.mp hb with ⟨rfl, rfl⟩ | hb
    · exact Or.inl ⟨rfl, rfl⟩
    · exact Or.inr (Or.inl hb.inside.1)
    · exact Or.inr (Or.inr ha.inside.1)
    · exact ih ha hb

/-- One piece at one place. -/
theorem Placed.unique (ha : Placed start l a x) (hb : Placed start l a y) (hx : 0 < size x)
    (hy : 0 < size y) : x = y := by
  rcases ha.apart hb with ⟨-, h⟩ | h | h
  · exact h
  · omega
  · omega

end RusticOs.Lib
