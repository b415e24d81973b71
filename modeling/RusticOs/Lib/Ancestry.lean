import Mathlib.Logic.Relation
import Mathlib.Data.Fintype.Card
import Mathlib.Tactic

/-!
# `RusticOs.Lib.Ancestry`: walks along an acyclic relation

A relation without cycles on a finite type has no walk longer than the type. `Acyclic.walk` is
the rule a bounded walk uses: what holds at a node once it holds at its successors with one turn
less holds with as many turns as there are nodes.
-/

set_option autoImplicit false

namespace RusticOs.Lib

open Relation

variable {α : Type} {r : α → α → Prop}

/-- No walk comes back to where it started. -/
def Acyclic (r : α → α → Prop) : Prop := ∀ a, ¬ TransGen r a a

/-- A rank that every edge lowers. -/
theorem acyclic_of_rank (rank : α → Nat) (h : ∀ a b, r a b → rank b < rank a) : Acyclic r := by
  have hwalk : ∀ a b, TransGen r a b → rank b < rank a := by
    intro a b hab
    induction hab with
    | single hab => exact h _ _ hab
    | tail _ hbc ih => exact (h _ _ hbc).trans ih
  exact fun a ha => lt_irrefl _ (hwalk a a ha)

/-- Edges that a map sends to edges make no cycle. -/
theorem Acyclic.comap {β : Type} {r' : β → β → Prop} (h : Acyclic r) (f : β → α)
    (hf : ∀ a b, r' a b → r (f a) (f b)) : Acyclic r' :=
  fun a ha => h (f a) (ha.lift f hf)

/-- A node that no edge leads to can be given edges. -/
theorem Acyclic.leaf {r' : α → α → Prop} (h : Acyclic r) {x : α} (hto : ∀ a, ¬ r' a x)
    (hold : ∀ a b, a ≠ x → r' a b → r a b) : Acyclic r' := by
  have hne : ∀ {a b}, TransGen r' a b → b ≠ x := by
    rintro a b hab rfl
    cases hab with
    | single hab => exact hto _ hab
    | tail _ hbc => exact hto _ hbc
  have hwalk : ∀ {a b}, a ≠ x → TransGen r' a b → TransGen r a b := by
    intro a b ha hab
    induction hab with
    | single hab => exact TransGen.single (hold _ _ ha hab)
    | tail hab hbc ih => exact ih.tail (hold _ _ (hne hab) hbc)
  exact fun a ha => h a (hwalk (hne ha) ha)

/-- A walk from `start` meets every node at most once, so that many turns are enough. -/
theorem Acyclic.walk [Fintype α] (h : Acyclic r) {start : α} {P : Nat → α → Prop}
    (step : ∀ n a, TransGen r start a → (∀ b, r a b → P n b) → P (n + 1) a) {n : Nat}
    (hn : Fintype.card α ≤ n + 1) {a : α} (ha : r start a) : P n a := by
  classical
  -- `seen` are the nodes passed on the way to `a`; the walk cannot be at one of them again
  have key : ∀ (n : Nat) (seen : Finset α) (a : α), start ∈ seen →
      (∀ s ∈ seen, TransGen r s a) → Fintype.card α ≤ n + seen.card → P n a := by
    intro n
    induction n with
    | zero =>
      intro seen a _ hseen hcard
      have hfull : seen = Finset.univ :=
        Finset.eq_univ_of_card seen (le_antisymm seen.card_le_univ (by omega))
      exact absurd (hseen a (by rw [hfull]; exact Finset.mem_univ a)) (h a)
    | succ n ih =>
      intro seen a hstart hseen hcard
      have hfresh : a ∉ seen := fun hmem => h a (hseen a hmem)
      refine step n a (hseen start hstart) fun b hab => ?_
      refine ih (insert a seen) b (Finset.mem_insert_of_mem hstart) ?_ ?_
      · intro s hs
        rcases Finset.mem_insert.mp hs with rfl | hs
        · exact TransGen.single hab
        · exact (hseen s hs).tail hab
      · rw [Finset.card_insert_of_notMem hfresh]
        omega
  refine key n {start} a (Finset.mem_singleton_self start) (fun s hs => ?_) ?_
  · rw [Finset.mem_singleton.mp hs]
    exact TransGen.single ha
  · rw [Finset.card_singleton]
    exact hn

end RusticOs.Lib
