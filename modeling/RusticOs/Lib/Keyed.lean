import Mathlib.Tactic

/-!
# `RusticOs.Lib.Keyed`: fixed tables of keyed slots as finite maps

A table of `n` slots, each empty or holding a key and a value. `lookup table` reads it as a
map from keys to values. With unique keys (`UniqueKeys`) the map does not depend on the
order of the slots (`lookup_eq_some`), and a change of one slot is a change of the map at
its key: `lookup_insert`, `lookup_erase`, `lookup_replace`.
-/

set_option autoImplicit false

namespace RusticOs.Lib

variable {n : Nat} {κ β : Type} [DecidableEq κ]

/-- No two slots carry the same key. -/
def UniqueKeys (table : Fin n → Option (κ × β)) : Prop :=
  ∀ i j k b b', table i = some (k, b) → table j = some (k, b') → i = j

/-- The value a slot holds for a key. -/
def valueFor (k : κ) : Option (κ × β) → Option β
  | some (k', b) => if k' = k then some b else none
  | none => none

/-- The value of the first slot with a key. -/
def lookup (table : Fin n → Option (κ × β)) (k : κ) : Option β :=
  (List.finRange n).findSome? fun i => valueFor k (table i)

theorem valueFor_eq_some {k : κ} {slot : Option (κ × β)} {b : β} :
    valueFor k slot = some b ↔ slot = some (k, b) := by
  cases slot with
  | none => simp [valueFor]
  | some p =>
    rcases p with ⟨k', b'⟩
    by_cases h : k' = k <;> simp [valueFor, h]

theorem lookup_eq_none {table : Fin n → Option (κ × β)} {k : κ} :
    lookup table k = none ↔ ∀ i b, table i ≠ some (k, b) := by
  unfold lookup
  rw [List.findSome?_eq_none_iff]
  constructor
  · intro h i b hi
    have hnone := h i (List.mem_finRange i)
    rw [valueFor_eq_some.mpr hi] at hnone
    cases hnone
  · intro h i _
    cases hv : valueFor k (table i) with
    | none => rfl
    | some b => exact absurd (valueFor_eq_some.mp hv) (h i b)

/-- With unique keys the value of a key is that of its slot. -/
theorem lookup_eq_some {table : Fin n → Option (κ × β)} (h : UniqueKeys table) {k : κ} {b : β} :
    lookup table k = some b ↔ ∃ i, table i = some (k, b) := by
  constructor
  · intro hb
    obtain ⟨i, -, hi⟩ := List.exists_of_findSome?_eq_some hb
    exact ⟨i, valueFor_eq_some.mp hi⟩
  · rintro ⟨i, hi⟩
    cases hfind : lookup table k with
    | none => exact absurd hi (lookup_eq_none.mp hfind i b)
    | some b' =>
      obtain ⟨j, -, hj⟩ := List.exists_of_findSome?_eq_some hfind
      have hj := valueFor_eq_some.mp hj
      rw [h j i k b' b hj hi, hi, Option.some.injEq, Prod.mk.injEq] at hj
      rw [hj.2]

section
variable {table table' : Fin n → Option (κ × β)} {i : Fin n} {k : κ} {b b' : β}

variable (h : UniqueKeys table)
include h

section
variable (h' : UniqueKeys table') (hsame : ∀ j, j ≠ i → table' j = table j)
include h' hsame

/-- One slot changed: every key it neither held nor holds keeps its value. -/
theorem lookup_of_ne (hold : ∀ b, table i ≠ some (k, b)) (hnew : ∀ b, table' i ≠ some (k, b)) :
    lookup table' k = lookup table k := by
  apply Option.ext
  intro b
  rw [lookup_eq_some h', lookup_eq_some h]
  refine exists_congr fun j => ?_
  by_cases hji : j = i
  · subst hji
    exact ⟨fun hj => absurd hj (hnew b), fun hj => absurd hj (hold b)⟩
  · rw [hsame j hji]

/-- A free slot got a key. -/
theorem lookup_insert (hold : table i = none) (hnew : table' i = some (k, b)) :
    lookup table' = Function.update (lookup table) k (some b) := by
  funext x
  by_cases hx : x = k
  · subst hx
    rw [Function.update_self]
    exact (lookup_eq_some h').mpr ⟨i, hnew⟩
  · rw [Function.update_of_ne hx]
    refine lookup_of_ne h h' hsame (by simp [hold]) fun c hc => hx ?_
    rw [hnew, Option.some.injEq, Prod.mk.injEq] at hc
    exact hc.1.symm

/-- A slot lost its key. -/
theorem lookup_erase (hold : table i = some (k, b)) (hnew : table' i = none) :
    lookup table' = Function.update (lookup table) k none := by
  funext x
  by_cases hx : x = k
  · subst hx
    rw [Function.update_self, lookup_eq_none]
    intro j c hj
    by_cases hji : j = i
    · rw [hji, hnew] at hj
      cases hj
    · rw [hsame j hji] at hj
      exact hji (h j i x c b hj hold)
  · rw [Function.update_of_ne hx]
    refine lookup_of_ne h h' hsame (fun c hc => hx ?_) (by simp [hnew])
    rw [hold, Option.some.injEq, Prod.mk.injEq] at hc
    exact hc.1.symm

/-- A slot kept its key and got a new value. -/
theorem lookup_replace (hold : table i = some (k, b)) (hnew : table' i = some (k, b')) :
    lookup table' = Function.update (lookup table) k (some b') := by
  funext x
  by_cases hx : x = k
  · subst hx
    rw [Function.update_self]
    exact (lookup_eq_some h').mpr ⟨i, hnew⟩
  · rw [Function.update_of_ne hx]
    refine lookup_of_ne h h' hsame (fun c hc => hx ?_) fun c hc => hx ?_
    · rw [hold, Option.some.injEq, Prod.mk.injEq] at hc
      exact hc.1.symm
    · rw [hnew, Option.some.injEq, Prod.mk.injEq] at hc
      exact hc.1.symm

end

end

end RusticOs.Lib
