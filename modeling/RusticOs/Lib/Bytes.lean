import RusticOs.Lib.Cells

/-!
# `RusticOs.Lib.Bytes`: byte strings, little-endian words and fixed layouts

A fixed layout is a list of field widths. `slicesAt` cuts a byte string at the offsets
the widths name, and concatenating the fields writes it. The two directions are inverse:

* `slicesAt_flatten`: cutting the concatenation of fields of those widths gives the
  fields back;
* `flatten_slicesAt`: concatenating the cuts of a string of the right length gives the
  string back.

Both hold for every list of widths, so a codec proof reads one conjunction of slice
equations off its own width table. Words are little endian: `leBytes` writes a number in
a given number of bytes and `leValue` reads one.
-/

set_option autoImplicit false

namespace RusticOs.Lib

/-! ### Fixed-size byte strings -/

/-- A byte array of fixed size. -/
abbrev Bytes (n : Nat) := Vector UInt8 n

/-- `n` zero bytes. -/
def zeros (n : Nat) : List UInt8 := List.replicate n 0

/-- Whether every byte is zero. -/
def allZero (l : List UInt8) : Bool := l.all (· == 0)

/-- The first elements of `l` in an array of `n` elements, the rest filled with `d`. -/
def fill {α : Type} (d : α) (n : Nat) (l : List α) : Vector α n :=
  ⟨((l ++ List.replicate n d).take n).toArray, by simp⟩

/-- The first bytes of `l` in a zeroed array of `n` bytes. -/
def Bytes.pack (n : Nat) (l : List UInt8) : Bytes n := fill 0 n l

@[simp] theorem length_zeros (n : Nat) : (zeros n).length = n := by simp [zeros]

variable {α : Type} {n : Nat} {l : List UInt8}

theorem toList_fill (d : α) (n : Nat) (l : List α) :
    (fill d n l).toList = (l ++ List.replicate n d).take n := by
  simp [fill, Vector.toList]

/-- An array filled exactly holds the elements it was filled with. -/
theorem toList_fill_of_length (d : α) {l : List α} (h : l.length = n) :
    (fill d n l).toList = l := by
  rw [toList_fill, List.take_append_of_le_length (by omega), ← h, List.take_length]

theorem fill_toList (d : α) (v : Vector α n) : fill d n v.toList = v := by
  apply Vector.toList_inj.mp
  rw [toList_fill_of_length d v.length_toList]

theorem getElem_fill (d : α) (l : List α) {i : Nat} (hi : i < n) :
    (fill d n l)[i] = l[i]?.getD d := by
  have hlist : (fill d n l).toList[i]? = (l ++ List.replicate n d)[i]? := by
    rw [toList_fill, List.getElem?_take_of_lt hi]
  rw [Vector.getElem?_toList, Vector.getElem?_eq_getElem hi] at hlist
  by_cases hl : i < l.length
  · rw [List.getElem?_append_left hl] at hlist
    rw [← hlist]
    rfl
  · rw [List.getElem?_append_right (by omega), List.getElem?_replicate_of_lt (by omega)] at hlist
    rw [List.getElem?_eq_none (by omega)]
    exact Option.some.inj hlist

theorem Bytes.toList_pack (n : Nat) (l : List UInt8) :
    (Bytes.pack n l).toList = (l ++ zeros n).take n := toList_fill 0 n l

theorem Bytes.toList_pack_of_length (h : l.length = n) :
    (Bytes.pack n l).toList = l := toList_fill_of_length 0 h

theorem Bytes.pack_toList (b : Bytes n) : Bytes.pack n b.toList = b := fill_toList 0 b

theorem Bytes.pack_zeros (n : Nat) : Bytes.pack n (zeros n) = Vector.replicate n 0 := by
  apply Vector.toList_inj.mp
  rw [Bytes.toList_pack_of_length (length_zeros n)]
  simp [zeros]

theorem allZero_iff : allZero l = true ↔ l = zeros l.length := by
  simp [allZero, zeros, List.eq_replicate_iff]

theorem allZero_zeros (n : Nat) : allZero (zeros n) = true := by
  rw [allZero_iff, length_zeros]

/-! ### Little-endian words -/

/-- The `w` low bytes of `n`, least significant first. -/
def leBytes : Nat → Nat → List UInt8
  | 0, _ => []
  | w + 1, n => UInt8.ofNat n :: leBytes w (n / 256)

/-- The number a little-endian byte string writes. -/
def leValue : List UInt8 → Nat
  | [] => 0
  | b :: bs => b.toNat + 256 * leValue bs

@[simp] theorem length_leBytes (w n : Nat) : (leBytes w n).length = w := by
  induction w generalizing n with
  | zero => rfl
  | succ w ih => simp [leBytes, ih]

theorem leValue_leBytes (w n : Nat) : leValue (leBytes w n) = n % 256 ^ w := by
  induction w generalizing n with
  | zero => simp [leBytes, leValue, Nat.mod_one]
  | succ w ih =>
    rw [leBytes, leValue, ih, UInt8.toNat_ofNat', pow_succ' 256 w, Nat.mod_mul]

theorem leBytes_leValue (l : List UInt8) : leBytes l.length (leValue l) = l := by
  induction l with
  | nil => rfl
  | cons b bs ih =>
    have hb : b.toNat < 256 := b.toNat_lt
    rw [List.length_cons, leBytes, leValue, Nat.add_mul_div_left _ _ (by decide),
      Nat.div_eq_of_lt hb, Nat.zero_add, ih]
    congr 1
    apply UInt8.toNat_inj.mp
    rw [UInt8.toNat_ofNat', Nat.add_mul_mod_self_left, Nat.mod_eq_of_lt hb]

theorem leValue_lt (l : List UInt8) : leValue l < 256 ^ l.length := by
  induction l with
  | nil => simp [leValue]
  | cons b bs ih =>
    have hb : b.toNat < 256 := b.toNat_lt
    rw [leValue, List.length_cons, Nat.pow_succ]
    omega

/-- The two bytes of a 16-bit word. -/
def le16 (x : UInt16) : List UInt8 := leBytes 2 x.toNat

/-- The four bytes of a 32-bit word. -/
def le32 (x : UInt32) : List UInt8 := leBytes 4 x.toNat

/-- The eight bytes of a 64-bit word. -/
def le64 (x : UInt64) : List UInt8 := leBytes 8 x.toNat

/-- The 16-bit word of two bytes. -/
def ofLe16 (l : List UInt8) : UInt16 := UInt16.ofNat (leValue l)

/-- The 32-bit word of four bytes. -/
def ofLe32 (l : List UInt8) : UInt32 := UInt32.ofNat (leValue l)

/-- The 64-bit word of eight bytes. -/
def ofLe64 (l : List UInt8) : UInt64 := UInt64.ofNat (leValue l)

@[simp] theorem length_le32 (x : UInt32) : (le32 x).length = 4 := length_leBytes 4 _
@[simp] theorem length_le64 (x : UInt64) : (le64 x).length = 8 := length_leBytes 8 _

@[simp] theorem ofLe32_le32 (x : UInt32) : ofLe32 (le32 x) = x := by
  have hx : x.toNat < 256 ^ 4 := x.toNat_lt
  rw [ofLe32, le32, leValue_leBytes, Nat.mod_eq_of_lt hx, UInt32.ofNat_toNat]

@[simp] theorem ofLe64_le64 (x : UInt64) : ofLe64 (le64 x) = x := by
  have hx : x.toNat < 256 ^ 8 := x.toNat_lt
  rw [ofLe64, le64, leValue_leBytes, Nat.mod_eq_of_lt hx, UInt64.ofNat_toNat]

theorem le16_ofLe16 (h : l.length = 2) : le16 (ofLe16 l) = l := by
  have hl : leValue l < UInt16.size := by simpa [h] using leValue_lt l
  rw [le16, ofLe16, UInt16.toNat_ofNat_of_lt' hl, ← h, leBytes_leValue]

theorem le32_ofLe32 (h : l.length = 4) : le32 (ofLe32 l) = l := by
  have hl : leValue l < UInt32.size := by simpa [h] using leValue_lt l
  rw [le32, ofLe32, UInt32.toNat_ofNat_of_lt' hl, ← h, leBytes_leValue]

theorem le64_ofLe64 (h : l.length = 8) : le64 (ofLe64 l) = l := by
  have hl : leValue l < UInt64.size := by simpa [h] using leValue_lt l
  rw [le64, ofLe64, UInt64.toNat_ofNat_of_lt' hl, ← h, leBytes_leValue]

/-! ### Slices and layouts -/

section
variable {α : Type}

/-- The `len` elements of `l` from offset `off` on. -/
def slice (l : List α) (off len : Nat) : List α := (l.drop off).take len

theorem length_slice (l : List α) (off len : Nat) :
    (slice l off len).length = min len (l.length - off) := by
  simp [slice]

variable {l : List α} {n w i : Nat}

theorem length_slice_of_le {off len : Nat} (h : off + len ≤ l.length) :
    (slice l off len).length = len := by
  rw [length_slice]
  omega

theorem getElem?_slice (l : List α) (off len i : Nat) :
    (slice l off len)[i]? = if i < len then l[off + i]? else none := by
  rw [slice, List.getElem?_take, List.getElem?_drop]

/-- The front of a concatenation. -/
theorem slice_zero_of_append {a b : List α} (h : l = a ++ b) (hn : a.length = n) :
    slice l 0 n = a := by
  rw [h, slice, List.drop_zero, ← hn, List.take_left]

/-- The `i`-th piece of a concatenation of pieces of one width. -/
theorem slice_flatten {cs : List (List α)} (h : ∀ c ∈ cs, c.length = w) (hi : i < cs.length) :
    slice cs.flatten (w * i) w = cs[i] := by
  induction cs generalizing i with
  | nil => cases hi
  | cons c cs ih =>
    have hc := h c List.mem_cons_self
    rw [List.flatten_cons]
    cases i with
    | zero =>
      rw [Nat.mul_zero, List.getElem_cons_zero]
      exact slice_zero_of_append rfl hc
    | succ i =>
      rw [List.getElem_cons_succ, ← ih fun d hd => h d (List.mem_cons_of_mem _ hd), slice,
        slice, show w * (i + 1) = c.length + w * i by rw [hc]; ring,
        List.drop_length_add_append]

/-- A cut of width one. -/
theorem slice_one (b : Bytes n) (h : i < n) : slice b.toList i 1 = [b[i]] := by
  have hlen : i < b.toList.length := by simpa using h
  rw [slice, List.drop_eq_getElem_cons hlen]
  simp

/-- One byte of an array, read off a cut of width one. -/
theorem getElem_of_slice {b : Bytes n} {x : UInt8} (h : i < n) (hs : slice b.toList i 1 = [x]) :
    b[i] = x := by
  rw [slice_one b h] at hs
  simpa using hs

/-- The cuts of `l` of the given widths, one after another from offset `off` on. -/
def slicesAt (l : List α) : Nat → List Nat → List (List α)
  | _, [] => []
  | off, w :: ws => slice l off w :: slicesAt l (off + w) ws

/-- Two cuts side by side are one cut. -/
theorem slice_append_slice (l : List α) (off a b : Nat) :
    slice l off a ++ slice l (off + a) b = slice l off (a + b) := by
  rw [slice, slice, slice, List.take_add, List.drop_drop]

/-- The cuts of a layout side by side are one cut. -/
theorem flatten_slicesAt_eq_slice (l : List α) (ws : List Nat) (off : Nat) :
    (slicesAt l off ws).flatten = slice l off ws.sum := by
  induction ws generalizing off with
  | nil => simp [slicesAt, slice]
  | cons w ws ih =>
    rw [slicesAt, List.flatten_cons, ih, slice_append_slice, List.sum_cons]

/-- Concatenating the cuts of a string whose length is the sum of the widths gives the
string back. -/
theorem flatten_slicesAt {ws : List Nat} (h : ws.sum = l.length) :
    (slicesAt l 0 ws).flatten = l := by
  rw [flatten_slicesAt_eq_slice, h, slice, List.drop_zero, List.take_length]

theorem slicesAt_append_flatten (fs : List (List α)) (pre : List α) :
    slicesAt (pre ++ fs.flatten) pre.length (fs.map List.length) = fs := by
  induction fs generalizing pre with
  | nil => rfl
  | cons f fs ih =>
    have hstep := ih (pre ++ f)
    rw [List.append_assoc, List.length_append] at hstep
    rw [List.flatten_cons, List.map_cons, slicesAt, hstep, slice, List.drop_left, List.take_left]

/-- Cutting the concatenation of fields at their own widths gives the fields back. -/
theorem slicesAt_flatten {fs : List (List α)} {ws : List Nat}
    (h : fs.map List.length = ws) : slicesAt fs.flatten 0 ws = fs := by
  subst h
  exact slicesAt_append_flatten fs []

/-- The chunks of width `w` of a list of `n * w` elements. -/
def chunks (w : Nat) : Nat → List α → List (List α)
  | 0, _ => []
  | n + 1, l => l.take w :: chunks w n (l.drop w)

@[simp] theorem length_chunks (w n : Nat) (l : List α) : (chunks w n l).length = n := by
  induction n generalizing l with
  | zero => rfl
  | succ n ih => simp [chunks, ih]

theorem getElem?_chunks (l : List α) (h : i < n) :
    (chunks w n l)[i]? = some (slice l (w * i) w) := by
  induction n generalizing i l with
  | zero => omega
  | succ n ih =>
    cases i with
    | zero => rfl
    | succ i =>
      rw [chunks, List.getElem?_cons_succ, ih _ (Nat.lt_of_succ_lt_succ h), slice, slice,
        List.drop_drop, Nat.mul_succ, Nat.add_comm]

theorem length_of_mem_chunks {c : List α} (h : l.length = n * w) (hc : c ∈ chunks w n l) :
    c.length = w := by
  induction n generalizing l with
  | zero => simp [chunks] at hc
  | succ n ih =>
    have hl : l.length = n * w + w := by rw [h, Nat.succ_mul]
    rw [chunks, List.mem_cons] at hc
    rcases hc with rfl | hc
    · rw [List.length_take]
      omega
    · exact ih (by rw [List.length_drop]; omega) hc

/-- Cutting a concatenation of `n` pieces of width `w` gives the pieces back, whatever
follows them. -/
theorem chunks_flatten_append (cs : List (List α)) (h : ∀ c ∈ cs, c.length = w) (rest : List α) :
    chunks w cs.length (cs.flatten ++ rest) = cs := by
  induction cs with
  | nil => rfl
  | cons c cs ih =>
    have hc := h c List.mem_cons_self
    rw [List.length_cons, chunks, List.flatten_cons, List.append_assoc, ← hc, List.take_left,
      List.drop_left, hc, ih fun d hd => h d (List.mem_cons_of_mem _ hd)]

theorem chunks_flatten (cs : List (List α)) (h : ∀ c ∈ cs, c.length = w) :
    chunks w cs.length cs.flatten = cs := by
  simpa using chunks_flatten_append cs h []

/-- Concatenating the chunks of a list of `n * w` elements gives the list back. -/
theorem flatten_chunks (h : l.length = n * w) : (chunks w n l).flatten = l := by
  induction n generalizing l with
  | zero =>
    rw [Nat.zero_mul, List.length_eq_zero_iff] at h
    rw [h, chunks, List.flatten_nil]
  | succ n ih =>
    rw [Nat.succ_mul] at h
    rw [chunks, List.flatten_cons, ih (by rw [List.length_drop]; omega), List.take_append_drop]

theorem chunks_eq_map_slice (w n : Nat) (l : List α) :
    chunks w n l = (List.range n).map fun i => slice l (w * i) w := by
  induction n generalizing l with
  | zero => rfl
  | succ n ih =>
    rw [chunks, ih, List.range_succ_eq_map, List.map_cons, List.map_map]
    congr 1
    apply List.map_congr_left
    intro i _
    rw [Function.comp_apply, slice, slice, List.drop_drop]
    congr 2
    rw [Nat.mul_succ, Nat.add_comm]

/-- Concatenating the consecutive cuts of width `w` gives the list back. -/
theorem flatten_map_slice (h : l.length = n * w) :
    ((List.range n).map fun i => slice l (w * i) w).flatten = l := by
  rw [← chunks_eq_map_slice, flatten_chunks h]

/-- Overwrite the elements of `l` from `at` on by `part`. -/
def overwrite (l : List α) (at_ : Nat) (part : List α) : List α :=
  l.take at_ ++ part ++ l.drop (at_ + part.length)

theorem getElem?_overwrite {part : List α} {at_ : Nat} (h : at_ + part.length ≤ l.length)
    (i : Nat) : (overwrite l at_ part)[i]?
      = if at_ ≤ i ∧ i < at_ + part.length then part[i - at_]? else l[i]? := by
  have htake : (l.take at_).length = at_ := by
    rw [List.length_take]
    omega
  rw [overwrite, List.append_assoc]
  by_cases h1 : i < at_
  · rw [List.getElem?_append_left (by omega), List.getElem?_take_of_lt h1, if_neg (by omega)]
  · rw [List.getElem?_append_right (by omega), htake]
    by_cases h2 : i < at_ + part.length
    · rw [List.getElem?_append_left (by omega), if_pos (by omega)]
    · rw [List.getElem?_append_right (by omega), List.getElem?_drop, if_neg (by omega)]
      congr 1
      omega

end

end RusticOs.Lib
