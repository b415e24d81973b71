import Mathlib.Data.Multiset.Sort
import Mathlib.Tactic

/-!
# `RusticOs.Lib.Largest`: what the largest numbers of a multiset hold together

`largest k s` is the sum of the `k` largest members of `s`, of all of them when there are
fewer. A greedy choice takes the largest member first, and `largest_cons` is the law of one
such choice.
-/

set_option autoImplicit false

namespace RusticOs.Lib

/-- The sum of the `k` largest members of `s`. -/
def largest (k : Nat) (s : Multiset Nat) : Nat := ((s.sort (· ≥ ·)).take k).sum

@[simp] theorem largest_none (k : Nat) : largest k 0 = 0 := by simp [largest]

@[simp] theorem largest_zero (s : Multiset Nat) : largest 0 s = 0 := by simp [largest]

/-- The largest member and the `k` largest of the rest. -/
theorem largest_cons {a : Nat} {s : Multiset Nat} (h : ∀ b ∈ s, b ≤ a) (k : Nat) :
    largest (k + 1) (a ::ₘ s) = a + largest k s := by
  have hsort : (a ::ₘ s).sort (· ≥ ·) = a :: s.sort (· ≥ ·) := Multiset.sort_cons a s _ h
  rw [largest, hsort, List.take_succ_cons, List.sum_cons, largest]

end RusticOs.Lib
