import RusticOs.Fs.Basic
import RusticOs.Lib.Halt

/-!
# `RusticOs.Kernel.Machine`: words and pages of the machine

Addresses and sizes are 64-bit words; `usize` is one. An addition, subtraction or multiplication
that does not fit a word panics (`plus`, `minus`, `times`), so that a computation that returns has
not overflowed.
-/

set_option autoImplicit false

namespace RusticOs.Kernel

open RusticOs.Lib
open RusticOs.Fs (checkedAdd checkedAdd_eq_some)

/-- The size of a page. -/
def PAGE_SIZE : UInt64 := 4096

section
variable {ε : Type}

def plus (a b : UInt64) : Except (Halt ε) UInt64 := orRefuse .panicked (checkedAdd a b)

def minus (a b : UInt64) : Except (Halt ε) UInt64 := if b ≤ a then .ok (a - b) else .error .panicked

def times (a b : UInt64) : Except (Halt ε) UInt64 :=
  if a.toNat * b.toNat < 2 ^ 64 then .ok (a * b) else .error .panicked

theorem plus_ok {a b : UInt64} (h : a.toNat + b.toNat < 2 ^ 64) :
    (plus a b : Except (Halt ε) UInt64) = .ok (a + b) := by
  unfold plus checkedAdd
  rw [if_pos h]
  rfl

theorem minus_ok {a b : UInt64} (h : b.toNat ≤ a.toNat) :
    (minus a b : Except (Halt ε) UInt64) = .ok (a - b) :=
  if_pos (UInt64.le_iff_toNat_le.mpr h)

theorem times_ok {a b : UInt64} (h : a.toNat * b.toNat < 2 ^ 64) :
    (times a b : Except (Halt ε) UInt64) = .ok (a * b) := if_pos h

end

theorem toNat_add_of_lt {a b : UInt64} (h : a.toNat + b.toNat < 2 ^ 64) :
    (a + b).toNat = a.toNat + b.toNat := by
  rw [UInt64.toNat_add, Nat.mod_eq_of_lt h]

theorem toNat_sub_of_ge {a b : UInt64} (h : b.toNat ≤ a.toNat) :
    (a - b).toNat = a.toNat - b.toNat :=
  UInt64.toNat_sub_of_le _ _ (UInt64.le_iff_toNat_le.mpr h)

theorem toNat_mul_of_lt {a b : UInt64} (h : a.toNat * b.toNat < 2 ^ 64) :
    (a * b).toNat = a.toNat * b.toNat := by
  rw [UInt64.toNat_mul, Nat.mod_eq_of_lt h]

/-- `u64::is_power_of_two`. -/
def isPowerOfTwo (x : UInt64) : Bool := x.toNat == 2 ^ x.toNat.log2

theorem isPowerOfTwo_iff {x : UInt64} : isPowerOfTwo x = true ↔ ∃ k, x.toNat = 2 ^ k := by
  unfold isPowerOfTwo
  rw [beq_iff_eq]
  constructor
  · exact fun h => ⟨_, h⟩
  · rintro ⟨k, hk⟩
    rw [hk, Nat.log2_two_pow]

/-- The first address of the page of an address. -/
def pageStart (a : UInt64) : UInt64 := a &&& ~~~ (PAGE_SIZE - 1)

/-- A mask of `n` bits from bit `k` on keeps those bits. -/
theorem and_mask (x n k : Nat) : x &&& (2 ^ n - 1) * 2 ^ k = x / 2 ^ k % 2 ^ n * 2 ^ k := by
  apply Nat.eq_of_testBit_eq
  intro i
  rw [Nat.testBit_and, Nat.testBit_mul_two_pow, Nat.testBit_mul_two_pow,
    Nat.testBit_two_pow_sub_one, Nat.testBit_mod_two_pow, Nat.testBit_div_two_pow]
  by_cases hi : k ≤ i
  · simp [hi, Bool.and_comm]
  · simp [hi]

theorem toNat_pageStart (a : UInt64) : (pageStart a).toNat = a.toNat / 4096 * 4096 := by
  have ha : a.toNat < 2 ^ 64 := a.toNat_lt
  have hmask : (~~~ (PAGE_SIZE - 1)).toNat = (2 ^ 52 - 1) * 2 ^ 12 := by decide
  rw [pageStart, UInt64.toNat_and, hmask, and_mask]
  omega

end RusticOs.Kernel
