import Mathlib.Tactic

/-!
# `RusticOs.Lib.Cells`: vectors at an index of their own length

A vector of `n` cells is read and written at an index `i : Fin n`. The index is its own bound, so
neither the read `xs[i]` nor the write `xs.setAt i x` has one to prove.

* `Vector.getElem_val`: the read is the read at the number of the index.
* `Vector.getElem_setAt`: what a write leaves in each cell.
* `Vector.getElem_reorder`: the cells under a permutation of the indices.
-/

set_option autoImplicit false

/-- The first index. -/
abbrev Fin.first {n : Nat} : Fin (n + 1) := 0

namespace Vector

variable {α : Type} {n : Nat} {i j : Fin n}

/-- A cell of the vector. -/
instance getElemFin : GetElem (Vector α n) (Fin n) α fun _ _ => True where
  getElem xs i _ := getElem xs i.val i.isLt

/-- The vector with one cell changed. -/
abbrev setAt (xs : Vector α n) (i : Fin n) (x : α) : Vector α n := xs.set i.val x i.isLt

@[simp] theorem getElem_val (xs : Vector α n) (i : Fin n) :
    xs[i] = getElem xs i.val i.isLt := rfl

theorem getElem_setAt (xs : Vector α n) (i j : Fin n) (x : α) :
    (xs.setAt i x)[j] = if i = j then x else xs[j] := by
  rw [getElem_val, getElem_set]
  simp [Fin.ext_iff]

@[simp] theorem setAt_self (xs : Vector α n) (i : Fin n) (x : α) : (xs.setAt i x)[i] = x := by
  rw [getElem_setAt, if_pos rfl]

theorem setAt_ne (xs : Vector α n) (h : j ≠ i) (x : α) : (xs.setAt i x)[j] = xs[j] := by
  rw [getElem_setAt, if_neg h.symm]

/-- The later of two writes to a cell stays. -/
theorem setAt_setAt (xs : Vector α n) (i : Fin n) (x y : α) :
    (xs.setAt i x).setAt i y = xs.setAt i y :=
  set_set ..

/-- Writing back what a cell holds changes nothing. -/
theorem setAt_getElem (xs : Vector α n) (i : Fin n) : xs.setAt i xs[i] = xs :=
  set_getElem_self i.isLt

/-- The cells in another order. -/
def reorder (xs : Vector α n) (σ : Equiv.Perm (Fin n)) : Vector α n := ofFn fun i => xs[σ i]

theorem getElem_reorder (xs : Vector α n) (σ : Equiv.Perm (Fin n)) (i : Fin n) :
    (xs.reorder σ)[i] = xs[σ i] :=
  getElem_ofFn i.isLt

theorem reorder_symm (xs : Vector α n) (σ : Equiv.Perm (Fin n)) :
    (xs.reorder σ).reorder σ.symm = xs := by
  ext i hi
  show ((xs.reorder σ).reorder σ.symm)[(⟨i, hi⟩ : Fin n)] = xs[(⟨i, hi⟩ : Fin n)]
  rw [getElem_reorder, getElem_reorder, Equiv.apply_symm_apply]

end Vector
