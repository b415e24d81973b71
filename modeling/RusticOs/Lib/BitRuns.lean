import RusticOs.Lib.Bitmap

/-!
# `RusticOs.Lib.BitRuns`: the bits of a bitmap as a set, and runs of them

A bitmap with a counter beside it is right when the counter is the size of a set of indices.

* `Bitmap.indices`: the indices whose bit is set or clear, and what setting bits does to them;
* `sum_countZeros`: the clear bits counted word by word;
* `scanRun`: the search for the first run of `k` indices with a property, by a counter of the
  indices seen last that have it. `scanRun_spec`: it finds the lowest one, if there is one.
-/

set_option autoImplicit false

namespace RusticOs.Lib

/-! ### Indices -/

namespace Bitmap

variable {n : Nat}

/-- The indices whose bit is `used`. -/
def indices (m : Vector UInt64 n) (used : Bool) : Finset Nat :=
  (Finset.range (64 * n)).filter fun i => get m i = used

@[simp] theorem mem_indices {m : Vector UInt64 n} {used : Bool} {i : Nat} :
    i ∈ indices m used ↔ i < 64 * n ∧ get m i = used := by
  rw [indices, Finset.mem_filter, Finset.mem_range]

section
variable {m : Vector UInt64 n} {is : List Nat} {used : Bool}

theorem indices_setAll_same (h : ∀ i ∈ is, i < 64 * n) :
    indices (setAll m is used) used = indices m used ∪ is.toFinset := by
  ext j
  rw [Finset.mem_union, mem_indices, mem_indices, List.mem_toFinset, get_setAll m h]
  by_cases hj : j ∈ is
  · simp [hj, h j hj]
  · simp [hj]

theorem indices_setAll_other (h : ∀ i ∈ is, i < 64 * n) :
    indices (setAll m is used) (!used) = indices m (!used) \ is.toFinset := by
  ext j
  rw [Finset.mem_sdiff, mem_indices, mem_indices, List.mem_toFinset, get_setAll m h]
  by_cases hj : j ∈ is
  · simp [hj]
  · simp [hj]

/-- Setting bits that were not `used`, each once, adds them. -/
theorem card_setAll_same (m : Vector UInt64 n) (used : Bool) (hnodup : is.Nodup)
    (h : ∀ i ∈ is, i < 64 * n ∧ get m i = !used) :
    (indices (setAll m is used) used).card = (indices m used).card + is.length := by
  have hdisjoint : Disjoint (indices m used) is.toFinset := by
    rw [Finset.disjoint_left]
    intro i hi his
    have hused := (mem_indices.mp hi).2
    rw [(h i (List.mem_toFinset.mp his)).2] at hused
    cases used <;> cases hused
  rw [indices_setAll_same fun i hi => (h i hi).1, Finset.card_union_of_disjoint hdisjoint,
    List.toFinset_card_of_nodup hnodup]

/-- And takes them from the others. -/
theorem card_setAll_other (m : Vector UInt64 n) (used : Bool) (hnodup : is.Nodup)
    (h : ∀ i ∈ is, i < 64 * n ∧ get m i = !used) :
    (indices (setAll m is used) (!used)).card + is.length = (indices m (!used)).card := by
  have hsubset : is.toFinset ⊆ indices m (!used) := fun i hi =>
    mem_indices.mpr (h i (List.mem_toFinset.mp hi))
  have hle := Finset.card_le_card hsubset
  rw [indices_setAll_other fun i hi => (h i hi).1, Finset.card_sdiff_of_subset hsubset]
  rw [List.toFinset_card_of_nodup hnodup] at hle ⊢
  omega

end

end Bitmap

/-! ### Counting by words -/

/-- The number of clear bits of a word. -/
def countZeros (w : UInt64) : Nat := (List.range 64).countP fun k => !wordBit w k

theorem card_indices_false_eq {n : Nat} (m : Vector UInt64 n) :
    (Bitmap.indices m false).card = ((List.range (64 * n)).countP fun i => !Bitmap.get m i) := by
  have hfilter : Bitmap.indices m false
      = ((List.range (64 * n)).filter fun i => !Bitmap.get m i).toFinset := by
    ext i
    simp
  rw [hfilter, List.toFinset_card_of_nodup (List.nodup_range.filter _),
    List.countP_eq_length_filter]

/-- The clear bits of the first `k` words. -/
theorem sum_take_countZeros {n : Nat} (m : Vector UInt64 n) {k : Nat} (hk : k ≤ n) :
    ((m.toList.take k).map countZeros).sum
      = (List.range (64 * k)).countP fun i => !Bitmap.get m i := by
  induction k with
  | zero => simp
  | succ k ih =>
    have hlt : k < m.toList.length := by
      rw [Vector.length_toList]
      omega
    have hword : (List.range 64).countP ((fun i => !Bitmap.get m i) ∘ (64 * k + ·))
        = countZeros (m.toList.get ⟨k, hlt⟩) := by
      apply List.countP_congr
      intro j hj
      have hj := List.mem_range.mp hj
      have hdiv : (64 * k + j) / 64 = k := by omega
      have hmod : (64 * k + j) % 64 = j := by omega
      simp [Bitmap.get, hdiv, hmod, show k < n by omega]
    rw [List.take_succ_eq_append_getElem hlt, List.map_append, List.sum_append, ih (by omega),
      Nat.mul_succ, List.range_add, List.countP_append, List.countP_map, hword]
    simp

/-- The clear bits of a bitmap, counted word by word. -/
theorem sum_countZeros {n : Nat} (m : Vector UInt64 n) :
    (m.toList.map countZeros).sum = (Bitmap.indices m false).card := by
  have h := sum_take_countZeros m (le_refl n)
  rwa [List.take_of_length_le (by rw [Vector.length_toList]), ← card_indices_false_eq] at h

/-! ### Runs -/

section
variable {p : Nat → Bool} {k : Nat}

/-- The `k` indices from `s` on have the property. -/
def IsRun (p : Nat → Bool) (k s : Nat) : Prop := ∀ j < k, p (s + j) = true

/-- The start of the first run of `k` that ends among the `n` indices from `i` on, when the last
`run` indices before `i` have the property. -/
def scanRun (p : Nat → Bool) (k : Nat) : Nat → Nat → Nat → Option Nat
  | 0, _, _ => none
  | n + 1, i, run =>
    if p i then
      if run + 1 = k then some (i + 1 - k) else scanRun p k n (i + 1) (run + 1)
    else scanRun p k n (i + 1) 0

/-- What the scan has found out before index `i`. -/
structure Scanned (p : Nat → Bool) (k i run : Nat) : Prop where
  short : run < k
  le : run ≤ i
  counted : ∀ j, i - run ≤ j → j < i → p j = true
  before : ∀ s < i - run, ¬ IsRun p k s

theorem Scanned.start (hk : 0 < k) : Scanned p k 0 0 :=
  ⟨hk, le_refl 0, fun _ _ h => absurd h (Nat.not_lt_zero _),
    fun _ h => absurd h (Nat.not_lt_zero _)⟩

/-- Starts from which a run would pass over `i` are done with. -/
theorem Scanned.miss {i run : Nat} (h : Scanned p k i run) (hi : p i = false) :
    Scanned p k (i + 1) 0 where
  short := Nat.zero_lt_of_lt h.short
  le := Nat.zero_le _
  counted j hle hlt := by omega
  before s hs hrun := by
    by_cases hbefore : s < i - run
    · exact h.before s hbefore hrun
    · have hshort := h.short
      have hat := hrun (i - s) (by omega)
      rw [show s + (i - s) = i by omega, hi] at hat
      cases hat

theorem Scanned.hit {i run : Nat} (h : Scanned p k i run) (hi : p i = true) (hlt : run + 1 < k) :
    Scanned p k (i + 1) (run + 1) where
  short := hlt
  le := Nat.succ_le_succ h.le
  counted j hle hj := by
    rcases Nat.lt_succ_iff_lt_or_eq.mp hj with hj | rfl
    · exact h.counted j (by omega) hj
    · exact hi
  before s hs := h.before s (by omega)

/-- What a scan finds. -/
inductive Found (p : Nat → Bool) (k n : Nat) : Option Nat → Prop where
  | lowest {s : Nat} (inside : s + k ≤ n) (isRun : IsRun p k s) (least : ∀ t < s, ¬ IsRun p k t) :
      Found p k n (some s)
  | absent (nowhere : ∀ s, s + k ≤ n → ¬ IsRun p k s) : Found p k n none

theorem Scanned.scanRun {i run : Nat} (h : Scanned p k i run) (n : Nat) :
    Found p k (i + n) (RusticOs.Lib.scanRun p k n i run) := by
  induction n generalizing i run with
  | zero =>
    refine .absent fun s hs => h.before s ?_
    have := h.short
    omega
  | succ n ih =>
    rw [RusticOs.Lib.scanRun, show i + (n + 1) = i + 1 + n by omega]
    cases hi : p i with
    | false => exact ih (h.miss hi)
    | true =>
      by_cases hlast : run + 1 = k
      · have hle := h.le
        rw [if_pos rfl, if_pos hlast]
        refine .lowest (by omega) (fun j hj => ?_) fun t ht => h.before t (by omega)
        by_cases hend : i + 1 - k + j = i
        · rw [hend, hi]
        · exact h.counted _ (by omega) (by omega)
      · rw [if_pos rfl, if_neg hlast]
        have := h.short
        exact ih (h.hit hi (by omega))

/-- A scan from the first index finds the lowest run, if there is one. -/
theorem scanRun_spec (hk : 0 < k) (n : Nat) : Found p k n (scanRun p k n 0 0) := by
  have h := (Scanned.start (p := p) hk).scanRun n
  rwa [Nat.zero_add] at h

end

end RusticOs.Lib
