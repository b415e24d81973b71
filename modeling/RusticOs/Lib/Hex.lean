import RusticOs.Lib.Bytes

/-!
# `RusticOs.Lib.Hex`: lowercase hexadecimal text

Text is a list of ASCII codes.

* `lowerHex w x`: a number in lowercase digits, padded with zeros to `w` of them;
* `readHex`: the bytes written by pairs of digits. `readHex_eq_some`: it accepts exactly what
  `hexPairs` writes;
* `lowerHex_eq_hexPairs`: a number of `k` bytes in `2 * k` digits is its big-endian bytes in pairs.
-/

set_option autoImplicit false

namespace RusticOs.Lib

/-! ### Digits -/

/-- The digit of a number below 16. -/
def hexDigit (n : Nat) : UInt8 := UInt8.ofNat (if n < 10 then 48 + n else 87 + n)

/-- The number of a lowercase digit. -/
def hexValue (b : UInt8) : Option Nat :=
  if 48 ≤ b.toNat ∧ b.toNat ≤ 57 then some (b.toNat - 48)
  else if 97 ≤ b.toNat ∧ b.toNat ≤ 102 then some (b.toNat - 97 + 10)
  else none

theorem hexValue_eq_some {b : UInt8} {n : Nat} :
    hexValue b = some n ↔ n < 16 ∧ b = hexDigit n := by
  have hto : ∀ m < 256, (UInt8.ofNat m).toNat = m := fun m hm =>
    UInt8.toNat_ofNat_of_lt' (by show m < 2 ^ 8; omega)
  unfold hexValue hexDigit
  constructor
  · intro h
    split at h
    · obtain rfl := Option.some.inj h
      refine ⟨by omega, UInt8.toNat_inj.mp ?_⟩
      rw [if_pos (by omega), hto _ (by omega)]
      omega
    · split at h
      · obtain rfl := Option.some.inj h
        refine ⟨by omega, UInt8.toNat_inj.mp ?_⟩
        rw [if_neg (by omega), hto _ (by omega)]
        omega
      · cases h
  · rintro ⟨hn, rfl⟩
    by_cases hlt : n < 10
    · rw [if_pos hlt, hto _ (by omega), if_pos (by omega)]
      congr 1
      omega
    · rw [if_neg hlt, hto _ (by omega), if_neg (by omega), if_pos (by omega)]
      congr 1
      omega

/-! ### Numbers -/

/-- The digits of a number, most significant first, padded with zeros to `w`. -/
def lowerHex (w x : Nat) : List UInt8 :=
  let digits := (Nat.digits 16 x).reverse.map hexDigit
  List.replicate (w - digits.length) 48 ++ digits

@[simp] theorem lowerHex_zero (w : Nat) : lowerHex w 0 = List.replicate w 48 := by
  simp [lowerHex]

/-- The last digit. -/
theorem lowerHex_succ (w x : Nat) :
    lowerHex (w + 1) x = lowerHex w (x / 16) ++ [hexDigit (x % 16)] := by
  rcases Nat.eq_zero_or_pos x with rfl | hpos
  · rw [Nat.zero_div, Nat.zero_mod, lowerHex_zero, lowerHex_zero, List.replicate_succ']
    rfl
  · have hdigits : Nat.digits 16 x = x % 16 :: Nat.digits 16 (x / 16) :=
      Nat.digits_def' (by decide) hpos
    simp only [lowerHex, hdigits, List.reverse_cons, List.map_append, List.map_cons, List.map_nil,
      List.length_append, List.length_map, List.length_reverse, List.length_cons, List.length_nil,
      Nat.add_sub_add_right, List.append_assoc]

/-! ### Bytes -/

/-- Bytes in pairs of digits. -/
def hexPairs (bytes : List UInt8) : List UInt8 := bytes.flatMap fun b => lowerHex 2 b.toNat

/-- The bytes of pairs of digits. -/
def readHex : List UInt8 → Option (List UInt8)
  | [] => some []
  | [_] => none
  | hi :: lo :: rest => do
    let hi ← hexValue hi
    let lo ← hexValue lo
    let bytes ← readHex rest
    pure (UInt8.ofNat (hi * 16 + lo) :: bytes)

theorem lowerHex_two {x : Nat} (h : x < 256) :
    lowerHex 2 x = [hexDigit (x / 16), hexDigit (x % 16)] := by
  rw [lowerHex_succ, lowerHex_succ, Nat.div_div_eq_div_mul, Nat.div_eq_of_lt h, lowerHex_zero,
    Nat.mod_eq_of_lt (show x / 16 < 16 by omega)]
  rfl

@[simp] theorem length_hexPairs (bytes : List UInt8) :
    (hexPairs bytes).length = bytes.length * 2 := by
  induction bytes with
  | nil => rfl
  | cons b bytes ih =>
    rw [hexPairs, List.flatMap_cons, List.length_append, lowerHex_two b.toNat_lt]
    rw [hexPairs] at ih
    rw [ih, List.length_cons, List.length_cons, List.length_cons, List.length_nil]
    omega

theorem hexPairs_cons (b : UInt8) (bytes : List UInt8) :
    hexPairs (b :: bytes)
      = hexDigit (b.toNat / 16) :: hexDigit (b.toNat % 16) :: hexPairs bytes := by
  rw [hexPairs, List.flatMap_cons, lowerHex_two b.toNat_lt]
  rfl

/-- Exactly the pairs of lowercase digits are read, each byte from its own. -/
theorem readHex_eq_some {text bytes : List UInt8} :
    readHex text = some bytes ↔ text = hexPairs bytes := by
  induction text using readHex.induct generalizing bytes with
  | case1 =>
    rw [readHex, Option.some_inj]
    constructor
    · rintro rfl
      rfl
    · intro h
      have hlength := congrArg List.length h
      rw [length_hexPairs, List.length_nil] at hlength
      exact (List.length_eq_zero_iff.mp (by omega)).symm
  | case2 head =>
    rw [readHex]
    constructor
    · exact nofun
    · intro h
      have hlength := congrArg List.length h
      rw [length_hexPairs, List.length_cons, List.length_nil] at hlength
      omega
  | case3 hi lo rest ih =>
    rw [readHex]
    simp only [Option.bind_eq_bind, Option.bind_eq_some_iff, Option.pure_def, Option.some_inj]
    constructor
    · rintro ⟨h, hhi, l, hlo, tail, htail, rfl⟩
      obtain ⟨hh, rfl⟩ := hexValue_eq_some.mp hhi
      obtain ⟨hl, rfl⟩ := hexValue_eq_some.mp hlo
      have hbyte : (UInt8.ofNat (h * 16 + l)).toNat = h * 16 + l :=
        UInt8.toNat_ofNat_of_lt' (by show _ < 2 ^ 8; omega)
      rw [hexPairs_cons, hbyte, ← ih.mp htail, show (h * 16 + l) / 16 = h by omega,
        show (h * 16 + l) % 16 = l by omega]
    · intro h
      cases bytes with
      | nil => cases h
      | cons b bytes =>
        rw [hexPairs_cons, List.cons.injEq, List.cons.injEq] at h
        obtain ⟨hhi, hlo, hrest⟩ := h
        have hlt := b.toNat_lt
        refine ⟨_, hexValue_eq_some.mpr ⟨by omega, hhi⟩, _,
          hexValue_eq_some.mpr ⟨by omega, hlo⟩, _, ih.mpr hrest, ?_⟩
        rw [Nat.div_add_mod', UInt8.ofNat_toNat]

/-! ### Words -/

/-- Big-endian bytes. -/
def beBytes (w n : Nat) : List UInt8 := (leBytes w n).reverse

/-- A number of `k` bytes in `2 * k` digits. -/
theorem lowerHex_eq_hexPairs {k x : Nat} (h : x < 256 ^ k) :
    lowerHex (2 * k) x = hexPairs (beBytes k x) := by
  induction k generalizing x with
  | zero =>
    obtain rfl : x = 0 := by
      rw [pow_zero] at h
      omega
    rfl
  | succ k ih =>
    have hlt : x / 256 < 256 ^ k := Nat.div_lt_of_lt_mul (by rwa [pow_succ'] at h)
    have hbyte : (UInt8.ofNat x).toNat = x % 256 := UInt8.toNat_ofNat'
    rw [Nat.mul_succ, lowerHex_succ, lowerHex_succ, Nat.div_div_eq_div_mul, ih hlt, beBytes,
      beBytes, leBytes, List.reverse_cons]
    have hlast : hexPairs [UInt8.ofNat x] = [hexDigit (x / 16 % 16), hexDigit (x % 16)] := by
      rw [hexPairs_cons, hbyte, show x % 256 / 16 = x / 16 % 16 by omega,
        show x % 256 % 16 = x % 16 by omega]
      rfl
    rw [List.append_assoc]
    show _ = (_ ++ _ : List UInt8).flatMap _
    rw [List.flatMap_append]
    show _ = _ ++ hexPairs [UInt8.ofNat x]
    rw [hlast]
    rfl

end RusticOs.Lib
