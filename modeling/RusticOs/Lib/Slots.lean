import RusticOs.Lib.Cells

/-!
# `RusticOs.Lib.Slots`: fixed tables of slots

A table of `n` slots, each empty or holding a value. `position p` finds the first slot whose
value passes `p`, `vacant` the first empty one, and `occupied p` counts the slots whose value
passes `p`.
-/

set_option autoImplicit false

namespace RusticOs.Lib

variable {α : Type} {n : Nat}

/-- A fixed number of slots. -/
abbrev Slots (α : Type) (n : Nat) := Vector (Option α) n

namespace Slots

/-- The first slot whose value passes `p`, with the value. -/
def position (p : α → Bool) (slots : Slots α n) : Option (Fin n × α) :=
  (List.finRange n).findSome? fun i => (slots[i].filter p).map fun a => (i, a)

/-- The first empty slot. -/
def vacant (slots : Slots α n) : Option (Fin n) :=
  (List.finRange n).find? fun i => slots[i].isNone

/-- How many slots hold a value that passes `p`. -/
def occupied (p : α → Bool) (slots : Slots α n) : Nat := slots.countP fun x => x.any p

variable {slots : Slots α n} {p : α → Bool} {i j : Fin n} {a : α}

theorem position_eq_some (h : position p slots = some (i, a)) :
    slots[i] = some a ∧ p a = true := by
  obtain ⟨j, -, hj⟩ := List.exists_of_findSome?_eq_some h
  rw [Option.map_eq_some_iff] at hj
  obtain ⟨b, hb, hpair⟩ := hj
  cases hpair
  exact Option.filter_eq_some_iff.mp hb

theorem position_eq_none :
    position p slots = none ↔ ∀ (i : Fin n) a, slots[i] = some a → p a = false := by
  unfold position
  rw [List.findSome?_eq_none_iff]
  constructor
  · intro h i a hi
    have hnone := h i (List.mem_finRange i)
    rw [Option.map_eq_none_iff, Option.filter_eq_none_iff] at hnone
    simpa using hnone a hi
  · intro h i _
    rw [Option.map_eq_none_iff, Option.filter_eq_none_iff]
    intro a hi
    simp [h i a hi]

/-- A value that passes a test no other slot's value passes is the one that is found. -/
theorem position_of_unique (hi : slots[i] = some a) (hp : p a = true)
    (hunique : ∀ (j : Fin n) b, slots[j] = some b → p b = true → j = i) :
    position p slots = some (i, a) := by
  cases hfind : position p slots with
  | none => simp [position_eq_none.mp hfind i a hi] at hp
  | some found =>
    obtain ⟨hslot, hpasses⟩ := position_eq_some hfind
    have hsame := hunique _ _ hslot hpasses
    rw [hsame, hi] at hslot
    rw [Option.some.inj hslot, ← hsame]

theorem vacant_eq_some (h : vacant slots = some i) : slots[i] = none := by
  simpa using List.find?_some h

theorem vacant_eq_none : vacant slots = none ↔ n ≤ occupied (fun _ => true) slots := by
  have hle : occupied (fun _ => true) slots ≤ n := Vector.countP_le_size
  have hfull : n ≤ occupied (fun _ => true) slots ↔ ∀ x ∈ slots, x.any (fun _ => true) = true := by
    rw [← Vector.countP_eq_size]
    exact ⟨le_antisymm hle, Eq.ge⟩
  rw [hfull, vacant, List.find?_eq_none]
  constructor
  · intro h x hx
    obtain ⟨i, hi, rfl⟩ := Vector.getElem_of_mem hx
    have hslot := h ⟨i, hi⟩ (List.mem_finRange _)
    simpa [Option.isSome_iff_ne_none] using hslot
  · intro h i _
    have hslot := h slots[i] (Vector.getElem_mem i.isLt)
    simpa [Option.isSome_iff_ne_none] using hslot

theorem setAt_eq_some {x : Option α} :
    (slots.setAt i x)[j] = some a ↔ (j = i ∧ x = some a) ∨ (j ≠ i ∧ slots[j] = some a) := by
  by_cases h : i = j
  · subst h
    simp
  · rw [Vector.setAt_ne slots (Ne.symm h)]
    simp [Ne.symm h]

/-- At most one slot holds a value of a kind. -/
def Once (P : α → Prop) (slots : Slots α n) : Prop :=
  ∀ (i j : Fin n) a b, slots[i] = some a → slots[j] = some b → P a → P b → i = j

theorem Once.setAt {P : α → Prop} {x : Option α} (h : Once P slots)
    (hx : ∀ a, x = some a → P a → ∀ (j : Fin n) b, j ≠ i → slots[j] = some b → ¬ P b) :
    Once P (slots.setAt i x) := by
  intro j k a b hj hk ha hb
  rcases setAt_eq_some.mp hj with ⟨rfl, hja⟩ | ⟨hji, hja⟩ <;>
    rcases setAt_eq_some.mp hk with ⟨rfl, hkb⟩ | ⟨hki, hkb⟩
  · rfl
  · exact absurd hb (hx a hja ha k b hki hkb)
  · exact absurd ha (hx b hkb hb j a hji hja)
  · exact h j k a b hja hkb ha hb

/-- Filling an empty slot adds its value to the count. -/
theorem occupied_fill (hi : slots[i] = none) (a : α) :
    occupied p (slots.setAt i (some a)) = occupied p slots + if p a then 1 else 0 := by
  have hslot : (slots[i.val]).any p = false := by
    rw [← Vector.getElem_val, hi]
    rfl
  rw [occupied, occupied, Vector.countP_set, hslot]
  simp

/-- Emptying a slot takes its value out of the count. -/
theorem occupied_clear (hi : slots[i] = some a) (hp : p a = true) :
    occupied p (slots.setAt i none) + 1 = occupied p slots := by
  have hcount : 0 < slots.countP fun x => x.any p := by
    rw [Vector.countP_pos_iff]
    exact ⟨some a, hi ▸ Vector.getElem_mem i.isLt, by simpa using hp⟩
  have hslot : (slots[i.val]).any p = true := by
    rw [← Vector.getElem_val, hi]
    simpa using hp
  rw [occupied, occupied, Vector.countP_set, hslot]
  simp
  omega

end Slots

end RusticOs.Lib
