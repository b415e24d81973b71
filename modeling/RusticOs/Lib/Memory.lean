import RusticOs.Lib.Bytes

/-!
# `RusticOs.Lib.Memory`: memory as bytes and as words

A memory holds one byte at every address. Words are eight bytes, least significant first.

* `Memory.read`, `Memory.word`: the bytes and the word at an address;
* `Memory.write`, `Memory.setWord`: overwrite them;
* `Memory.splice`: take a range from another memory.

What is read back after a write depends only on whether the ranges meet.
-/

set_option autoImplicit false

namespace RusticOs.Lib

/-- A byte at every address. -/
def Memory := Nat → UInt8

namespace Memory

variable {m m' : Memory} {a b n i : Nat} {l : List UInt8} {w : UInt64}

/-- The `n` bytes from `a` on. -/
def read (m : Memory) (a n : Nat) : List UInt8 := (List.range n).map fun i => m (a + i)

/-- Overwrite the bytes from `a` on. -/
def write (m : Memory) (a : Nat) (l : List UInt8) : Memory :=
  fun i => if a ≤ i then l[i - a]?.getD (m i) else m i

/-- The memory `m` with the `n` bytes from `a` on taken from `m'`. -/
def splice (m : Memory) (a n : Nat) (m' : Memory) : Memory :=
  fun i => if a ≤ i ∧ i < a + n then m' i else m i

/-- The word at `a`. -/
def word (m : Memory) (a : Nat) : UInt64 := ofLe64 (m.read a 8)

/-- Overwrite the word at `a`. -/
def setWord (m : Memory) (a : Nat) (w : UInt64) : Memory := m.write a (le64 w)

@[simp] theorem length_read (m : Memory) (a n : Nat) : (m.read a n).length = n := by simp [read]

theorem read_congr (h : ∀ i, a ≤ i → i < a + n → m i = m' i) : m.read a n = m'.read a n := by
  apply List.map_congr_left
  intro i hi
  rw [List.mem_range] at hi
  exact h (a + i) (by omega) (by omega)

/-- A write changes no byte outside its range. -/
theorem write_of_outside (h : i < a ∨ a + l.length ≤ i) : m.write a l i = m i := by
  unfold write
  split
  · rw [List.getElem?_eq_none (by omega), Option.getD_none]
  · rfl

theorem write_of_inside (hl : a ≤ i) (hr : i < a + l.length) :
    m.write a l i = l.get ⟨i - a, by omega⟩ := by
  unfold write
  rw [if_pos hl, List.getElem?_eq_getElem (by omega), Option.getD_some]
  rfl

theorem read_write_self (m : Memory) (a : Nat) (l : List UInt8) :
    (m.write a l).read a l.length = l := by
  apply List.ext_getElem
  · rw [length_read]
  · intro i hi hi'
    have hin : m.write a l (a + i) = l.get ⟨a + i - a, by omega⟩ :=
      write_of_inside (by omega) (by omega)
    simp only [read, List.getElem_map, List.getElem_range, hin, List.get_eq_getElem,
      Nat.add_sub_cancel_left]

theorem read_write_of_apart (h : a + n ≤ b ∨ b + l.length ≤ a) :
    (m.write b l).read a n = m.read a n := by
  apply read_congr
  intro i hi hi'
  exact write_of_outside (by omega)

theorem word_congr (h : ∀ i, a ≤ i → i < a + 8 → m i = m' i) : m.word a = m'.word a :=
  congrArg ofLe64 (read_congr h)

@[simp] theorem word_setWord_self (m : Memory) (a : Nat) (w : UInt64) :
    (m.setWord a w).word a = w := by
  have hread := m.read_write_self a (le64 w)
  rw [length_le64] at hread
  rw [word, setWord, hread, ofLe64_le64]

theorem setWord_of_outside (h : i < a ∨ a + 8 ≤ i) : m.setWord a w i = m i :=
  write_of_outside (by rw [length_le64]; exact h)

theorem word_setWord_of_apart (h : a + 8 ≤ b ∨ b + 8 ≤ a) :
    (m.setWord b w).word a = m.word a :=
  congrArg ofLe64 (read_write_of_apart (by rw [length_le64]; exact h))

theorem splice_of_inside (hl : a ≤ i) (hr : i < a + n) : m.splice a n m' i = m' i :=
  if_pos ⟨hl, hr⟩

theorem splice_of_outside (h : i < a ∨ a + n ≤ i) : m.splice a n m' i = m i :=
  if_neg (by omega)

end Memory

end RusticOs.Lib
