import Mathlib.Data.Nat.Bitwise
import RusticOs.Lib.Cells

/-!
# `RusticOs.Lib.Bitmap`: one bit per index in an array of 64-bit words

`Bitmap.get` and `Bitmap.set` address bit `i` of word `i / 64`. The two facts everything
else uses are `Bitmap.get_set`, what a bit is after another one was set, and
`Bitmap.ext_get`: two bitmaps with the same bits are the same words.
-/

set_option autoImplicit false

namespace RusticOs.Lib

variable {n : Nat}

/-- The word with only bit `k` set. -/
def bitMask (k : Nat) : UInt64 := 1 <<< UInt64.ofNat k

theorem toNat_bitMask {k : Nat} (h : k < 64) : (bitMask k).toNat = 2 ^ k := by
  have hk : (UInt64.ofNat k).toNat = k := UInt64.toNat_ofNat_of_lt' (by
    show k < 2 ^ 64
    omega)
  have hlt : 2 ^ k < 2 ^ 64 := Nat.pow_lt_pow_right (by decide) h
  rw [bitMask, UInt64.toNat_shiftLeft, hk, Nat.mod_eq_of_lt h, UInt64.toNat_one,
    Nat.one_shiftLeft, Nat.mod_eq_of_lt hlt]

/-- Bit `k` of a word. -/
def wordBit (w : UInt64) (k : Nat) : Bool := w &&& bitMask k != 0

theorem wordBit_eq_testBit (w : UInt64) {k : Nat} (h : k < 64) :
    wordBit w k = w.toNat.testBit k := by
  have hand : (w &&& bitMask k).toNat = (w.toNat.testBit k).toNat * 2 ^ k := by
    rw [UInt64.toNat_and, toNat_bitMask h, Nat.and_two_pow]
  have hpos : 0 < 2 ^ k := Nat.two_pow_pos k
  cases hb : w.toNat.testBit k with
  | false =>
    have hz : w &&& bitMask k = 0 := by
      apply UInt64.toNat_inj.mp
      rw [hand, hb]
      simp
    simp [wordBit, hz]
  | true =>
    have hz : w &&& bitMask k ≠ 0 := by
      intro hz
      rw [hz, hb] at hand
      simp only [UInt64.toNat_zero, Bool.toNat_true, Nat.one_mul] at hand
      omega
    simp [wordBit, hz]

/-- Words with the same bits are equal. -/
theorem word_ext {w v : UInt64} (h : ∀ k < 64, wordBit w k = wordBit v k) : w = v := by
  apply UInt64.toNat_inj.mp
  apply Nat.eq_of_testBit_eq
  intro k
  by_cases hk : k < 64
  · rw [← wordBit_eq_testBit w hk, ← wordBit_eq_testBit v hk, h k hk]
  · have hle : 2 ^ 64 ≤ 2 ^ k := Nat.pow_le_pow_right (by decide) (by omega)
    rw [Nat.testBit_lt_two_pow (by have := w.toNat_lt; omega),
      Nat.testBit_lt_two_pow (by have := v.toNat_lt; omega)]

theorem wordBit_or_mask (w : UInt64) {k j : Nat} (hk : k < 64) (hj : j < 64) :
    wordBit (w ||| bitMask k) j = (wordBit w j || decide (k = j)) := by
  rw [wordBit_eq_testBit _ hj, wordBit_eq_testBit _ hj, UInt64.toNat_or, toNat_bitMask hk,
    Nat.testBit_or, Nat.testBit_two_pow]

theorem wordBit_and_not (w v : UInt64) {k : Nat} (hk : k < 64) :
    wordBit (w &&& ~~~ v) k = (wordBit w k && !wordBit v k) := by
  have hnot : (~~~ v).toNat = 2 ^ 64 - (v.toNat + 1) := by
    rw [UInt64.toNat_not]
    show 2 ^ 64 - 1 - v.toNat = _
    omega
  rw [wordBit_eq_testBit _ hk, wordBit_eq_testBit _ hk, wordBit_eq_testBit _ hk, UInt64.toNat_and,
    hnot, Nat.testBit_and, Nat.testBit_two_pow_sub_succ v.toNat_lt]
  simp [hk]

theorem wordBit_and_not_mask (w : UInt64) {k j : Nat} (hk : k < 64) (hj : j < 64) :
    wordBit (w &&& ~~~ bitMask k) j = (wordBit w j && !decide (k = j)) := by
  rw [wordBit_and_not w _ hj, wordBit_eq_testBit (bitMask k) hj, toNat_bitMask hk,
    Nat.testBit_two_pow]

/-- The number of the lowest bit that is set, 64 when there is none. -/
def trailingZeros (w : UInt64) : Nat := ((List.range 64).find? (wordBit w)).getD 64

theorem trailingZeros_spec {w : UInt64} (h : w ≠ 0) :
    trailingZeros w < 64 ∧ wordBit w (trailingZeros w) = true := by
  unfold trailingZeros
  cases hfind : (List.range 64).find? (wordBit w) with
  | some k =>
    have hk := List.mem_of_find?_eq_some hfind
    exact ⟨List.mem_range.mp hk, List.find?_some hfind⟩
  | none =>
    -- a word without a set bit is the word of no bits
    rw [List.find?_eq_none] at hfind
    refine absurd (word_ext fun k hk => ?_) h
    rw [Bool.eq_false_iff.mpr (hfind k (List.mem_range.mpr hk))]
    simp [wordBit]

namespace Bitmap

/-- Bit `i`. A bit past the last word is clear. -/
def get (m : Vector UInt64 n) (i : Nat) : Bool := wordBit (m[i / 64]?.getD 0) (i % 64)

/-- The bitmap with bit `i` set to `used`. -/
def set (m : Vector UInt64 n) (i : Nat) (used : Bool) : Vector UInt64 n :=
  let word := m[i / 64]?.getD 0
  m.setIfInBounds (i / 64)
    (if used then word ||| bitMask (i % 64) else word &&& ~~~ bitMask (i % 64))

/-- Set every bit of a list of indices to `used`. -/
def setAll (m : Vector UInt64 n) (is : List Nat) (used : Bool) : Vector UInt64 n :=
  is.foldl (fun m i => set m i used) m

theorem get_of_le {m : Vector UInt64 n} {i : Nat} (h : 64 * n ≤ i) : get m i = false := by
  have hi : ¬ i / 64 < n := by omega
  simp [get, hi, wordBit]

/-- A bit after one bit was set. -/
theorem get_set (m : Vector UInt64 n) {i : Nat} (hi : i < 64 * n) (used : Bool) (j : Nat) :
    get (set m i used) j = if i = j then used else get m j := by
  have hin : i / 64 < n := by omega
  have hi64 : i % 64 < 64 := Nat.mod_lt _ (by decide)
  have hj64 : j % 64 < 64 := Nat.mod_lt _ (by decide)
  by_cases hw : i / 64 = j / 64
  · have hget : (set m i used)[j / 64]?.getD 0
        = if used then m[i / 64]?.getD 0 ||| bitMask (i % 64)
          else m[i / 64]?.getD 0 &&& ~~~ bitMask (i % 64) := by
      rw [← hw]
      simp [set, hin]
    rw [get, hget, get, ← hw]
    have hiff : (i = j) ↔ (i % 64 = j % 64) := by omega
    cases used with
    | true =>
      rw [if_pos rfl, wordBit_or_mask _ hi64 hj64]
      by_cases hij : i = j
      · rw [if_pos hij, decide_eq_true (hiff.mp hij), Bool.or_true]
      · rw [if_neg hij, decide_eq_false fun h => hij (hiff.mpr h), Bool.or_false]
    | false =>
      rw [if_neg Bool.false_ne_true, wordBit_and_not_mask _ hi64 hj64]
      by_cases hij : i = j
      · rw [if_pos hij, decide_eq_true (hiff.mp hij), Bool.not_true, Bool.and_false]
      · rw [if_neg hij, decide_eq_false fun h => hij (hiff.mpr h), Bool.not_false, Bool.and_true]
  · have hget : (set m i used)[j / 64]? = m[j / 64]? := by
      simp [set, hw]
    have hij : i ≠ j := fun h => hw (by rw [h])
    rw [get, hget, if_neg hij, get]

/-- Bitmaps with the same bits are equal. -/
theorem ext_get {m m' : Vector UInt64 n} (h : ∀ i < 64 * n, get m i = get m' i) : m = m' := by
  apply Vector.ext
  intro w hw
  apply word_ext
  intro k hk
  have hi := h (64 * w + k) (by omega)
  have hdiv : (64 * w + k) / 64 = w := by omega
  have hmod : (64 * w + k) % 64 = k := by omega
  simpa [get, hdiv, hmod, hw] using hi

/-- A bit after a list of bits was set. -/
theorem get_setAll (m : Vector UInt64 n) {is : List Nat} (h : ∀ i ∈ is, i < 64 * n)
    (used : Bool) (j : Nat) :
    get (setAll m is used) j = if j ∈ is then used else get m j := by
  induction is generalizing m with
  | nil => simp [setAll]
  | cons i is ih =>
    have htail : ∀ k ∈ is, k < 64 * n := fun k hk => h k (List.mem_cons_of_mem _ hk)
    show get (setAll (set m i used) is used) j = _
    rw [ih _ htail, get_set m (h i List.mem_cons_self) used j]
    by_cases hj : j ∈ is
    · rw [if_pos hj, if_pos (List.mem_cons_of_mem _ hj)]
    · by_cases hij : i = j
      · rw [if_neg hj, if_pos hij, if_pos (by rw [hij]; exact List.mem_cons_self)]
      · rw [if_neg hj, if_neg hij, if_neg (by
          rw [List.mem_cons]
          rintro (h | h)
          · exact hij h.symm
          · exact hj h)]

theorem get_zero (i : Nat) : get (Vector.replicate n 0) i = false := by
  unfold get
  by_cases h : i / 64 < n
  · simp [h, wordBit]
  · simp [h, wordBit]

/-- A bitmap whose bits are all set in another has no word beyond the other's. -/
theorem and_not_eq_zero {m m' : Vector UInt64 n} (h : ∀ i, get m i = true → get m' i = true)
    (i : Fin n) : m[i] &&& ~~~ m'[i] = 0 := by
  apply word_ext
  intro k hk
  have hword : ∀ m : Vector UInt64 n, get m (64 * i.val + k) = wordBit m[i] k := by
    intro m
    have hdiv : (64 * i.val + k) / 64 = i.val := by omega
    have hmod : (64 * i.val + k) % 64 = k := by omega
    rw [get, hdiv, hmod, Vector.getElem?_eq_getElem i.isLt]
    rfl
  have hsub := h (64 * i.val + k)
  rw [hword, hword] at hsub
  rw [wordBit_and_not _ _ hk, show wordBit 0 k = false by simp [wordBit]]
  cases hb : wordBit m[i] k with
  | false => rfl
  | true => rw [hsub hb]; rfl

end Bitmap

end RusticOs.Lib
