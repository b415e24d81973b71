import RusticOs.Proofs.Tiles

/-!
# `RusticOs.Proofs.Allocator`: what each call does to the blocks

The cells of a region under every call of the allocator. `Valid` is the invariant between calls:
the cells cover the region, no two free ones are neighbours, and the totals are those of the used
cells.

* `alloc_spec`: a free cell becomes up to three, the middle one used and aligned as asked;
* `free_spec`: a used cell and its free neighbours become one free cell;
* `extend_spec`, `truncate_spec`: the last free cell grows, appears, shrinks or goes;
* `startOf_spec`: a handle is found exactly when a used cell is what it names.

A request whose rounded size, header and alignment gap may not fit a word is left out of
`alloc_spec` (`Measurable`): the sum that `alloc` compares with a free block would overflow.
-/

set_option autoImplicit false

namespace RusticOs.Sdk

open RusticOs.Lib RusticOs.Lib.Fallible
open UInt64 (le_iff_toNat_le lt_iff_toNat_lt toNat_inj toNat_mod)
open RusticOs.Fs (checkedAdd checkedAdd_eq_some)
open RusticOs.Kernel (toNat_add_of_lt toNat_sub_of_ge isPowerOfTwo isPowerOfTwo_iff)

/-! ### Alignment -/

theorem checkedNextMultipleOf_eq_some {x y n : UInt64} (h : checkedNextMultipleOf x n = some y) :
    y.toNat % n.toNat = 0 ∧ x.toNat ≤ y.toNat ∧ y.toNat < x.toNat + n.toNat := by
  unfold checkedNextMultipleOf at h
  split at h
  · cases h
  rename_i hn
  have hpos : 0 < n.toNat := Nat.pos_of_ne_zero fun h0 => hn (toNat_inj.mp h0)
  split at h
  · rename_i hmod
    cases h
    have hzero := congrArg UInt64.toNat hmod
    rw [toNat_mod] at hzero
    exact ⟨hzero, le_refl _, by omega⟩
  · rw [checkedAdd_eq_some] at h
    rename_i hmod
    have hlt := Nat.mod_lt x.toNat hpos
    have hne : x.toNat % n.toNat ≠ 0 := fun h0 => hmod (toNat_inj.mp h0)
    have hle : (x % n).toNat ≤ n.toNat := by
      rw [toNat_mod]
      omega
    rw [toNat_sub_of_ge hle, toNat_mod] at h
    have hdiv := Nat.div_add_mod x.toNat n.toNat
    have hy : y.toNat = n.toNat * (x.toNat / n.toNat + 1) := by
      rw [Nat.mul_add, Nat.mul_one]
      omega
    exact ⟨by rw [hy, Nat.mul_mod_right], by omega, by omega⟩

/-- The next multiple is the least one, and fits a word if any does. -/
theorem checkedNextMultipleOf_least {x n : UInt64} {y : Nat} (hn : 0 < n.toNat)
    (hy : y % n.toNat = 0) (hxy : x.toNat ≤ y) (hlt : y < 2 ^ 64) :
    ∃ z, checkedNextMultipleOf x n = some z ∧ z.toNat ≤ y := by
  have hne : n ≠ 0 := fun h0 => by rw [h0] at hn; exact absurd hn (by decide)
  obtain ⟨k, hk⟩ := Nat.dvd_of_mod_eq_zero hy
  -- a multiple from `x` on is at least the one after the quotient
  have hleast : ∀ z : Nat, z % n.toNat = 0 → z < x.toNat + n.toNat → z ≤ y := by
    intro z hz hzlt
    obtain ⟨j, rfl⟩ := Nat.dvd_of_mod_eq_zero hz
    have hj : j ≤ k := by
      by_contra hlt'
      have hstep : n.toNat * (k + 1) ≤ n.toNat * j := Nat.mul_le_mul_left _ (by omega)
      rw [Nat.mul_succ] at hstep
      omega
    rw [hk]
    exact Nat.mul_le_mul_left _ hj
  cases hnext : checkedNextMultipleOf x n with
  | some z =>
    obtain ⟨hmod, -, hzlt⟩ := checkedNextMultipleOf_eq_some hnext
    exact ⟨z, rfl, hleast _ hmod hzlt⟩
  | none =>
    exfalso
    unfold checkedNextMultipleOf at hnext
    rw [if_neg hne] at hnext
    split at hnext
    · cases hnext
    rename_i hmod
    have hmodlt := Nat.mod_lt x.toNat hn
    have hsub : (n - x % n).toNat = n.toNat - x.toNat % n.toNat := by
      rw [toNat_sub_of_ge (by rw [toNat_mod]; omega), toNat_mod]
    have hpos : x.toNat % n.toNat ≠ 0 := fun h0 => hmod (toNat_inj.mp h0)
    have hround : (x.toNat + (n.toNat - x.toNat % n.toNat)) % n.toNat = 0 := by
      have hdiv := Nat.div_add_mod x.toNat n.toNat
      rw [show x.toNat + (n.toNat - x.toNat % n.toNat) = n.toNat * (x.toNat / n.toNat + 1) by
        rw [Nat.mul_succ]; omega, Nat.mul_mod_right]
    have hfits := hleast _ hround (by omega)
    have hadd : checkedAdd x (n - x % n) = some (x + (n - x % n)) :=
      if_pos (by rw [hsub]; omega)
    rw [hadd] at hnext
    cases hnext

/-- An alignment that is allowed is within a word or a multiple of two words. -/
theorem align_cases {align : UInt64} (hp : isPowerOfTwo align = true)
    (hmax : align.toNat ≤ 4096) :
    0 < align.toNat ∧ (8 % align.toNat = 0 ∧ align.toNat ≤ 8
      ∨ 16 ≤ align.toNat ∧ align.toNat % 8 = 0) := by
  obtain ⟨k, hk⟩ := isPowerOfTwo_iff.mp hp
  have hle : k ≤ 12 := by
    by_contra hlt
    have hpow : 2 ^ 13 ≤ 2 ^ k := Nat.pow_le_pow_right (by decide) (by omega)
    omega
  rw [hk]
  interval_cases k <;> decide

/-- The longest gap an alignment may need. -/
def slack (align : UInt64) : Nat := if align.toNat ≤ 8 then 0 else align.toNat + 16

/-- A gap to leave in front of a block: none, or room for a header. -/
structure Gap (block : Nat) (align : UInt64) (gap : Nat) : Prop where
  room : gap = 0 ∨ 24 ≤ gap
  words : gap % 8 = 0
  aligned : (block + gap + 24) % align.toNat = 0
  bound : gap ≤ slack align

namespace Allocator

variable {b : Build}

theorem pushGap_spec {align gap : UInt64} (hgap : gap.toNat % 8 = 0)
    (halign : gap.toNat ≠ 0 → 16 ≤ align.toNat) (hmax : align.toNat ≤ 4096) :
    ∃ g, pushGap align HEADER.toNat gap = .ok (some g) ∧ (g.toNat = 0 ∨ 24 ≤ g.toNat)
      ∧ (g = gap ∨ gap.toNat ≠ 0 ∧ gap.toNat ≤ 16 ∧ g.toNat = gap.toNat + align.toNat) := by
  show ∃ g, pushGap align (22 + 1 + 1) gap = .ok (some g) ∧ _
  have hzero : gap ≠ 0 ↔ gap.toNat ≠ 0 := by rw [ne_eq, ← toNat_inj]; rfl
  by_cases hloop : gap ≠ 0 ∧ gap < HEADER
  · have hsmall : gap.toNat < 24 := lt_iff_toNat_lt.mp hloop.2
    have hwide := halign (hzero.mp hloop.1)
    have hsum : gap.toNat + align.toNat < 2 ^ 64 := by omega
    have hadd : checkedAdd gap align = some (gap + align) := if_pos hsum
    have hto : (gap + align).toNat = gap.toNat + align.toNat := toNat_add_of_lt hsum
    have hne := hzero.mp hloop.1
    refine ⟨gap + align, ?_, by omega, Or.inr ⟨hne, by omega, hto⟩⟩
    -- one push is enough: the gap is at least a word and the alignment at least two
    rw [pushGap, if_pos hloop, hadd]
    show pushGap align (22 + 1) (gap + align) = _
    rw [pushGap, if_neg]
    rintro ⟨-, hlt⟩
    rw [lt_iff_toNat_lt, toNat_header] at hlt
    omega
  · refine ⟨gap, by rw [pushGap, if_neg hloop], ?_, Or.inl rfl⟩
    by_contra hcon
    refine hloop ⟨hzero.mpr (by omega), ?_⟩
    rw [lt_iff_toNat_lt, toNat_header]
    omega

theorem leadingGap_spec (block : UInt64) {align : UInt64} (hblock : block.toNat % 8 = 0)
    (htop : block.toNat + 24 < 2 ^ 64) (hp : isPowerOfTwo align = true)
    (hmax : align.toNat ≤ 4096) :
    ∃ x, leadingGap b block align = .ok x
      ∧ (∀ gap, x = some gap → Gap block.toNat align gap.toNat)
      ∧ ∀ n, (n = 0 ∨ 24 ≤ n) → (block.toNat + n + 24) % align.toNat = 0 →
        block.toNat + n + 24 < 2 ^ 64 → ∃ gap, x = some gap ∧ gap.toNat ≤ n := by
  obtain ⟨hpos, hcases⟩ := align_cases hp hmax
  obtain ⟨hsum, hto⟩ := header_fits htop
  have hadd : checkedAdd block HEADER = some (block + HEADER) := if_pos hsum
  unfold leadingGap
  rw [hadd, Option.bind_some]
  cases hnext : checkedNextMultipleOf (block + HEADER) align with
  | none =>
    refine ⟨none, rfl, by simp, ?_⟩
    intro n _ hn hfit
    obtain ⟨z, hz, -⟩ := checkedNextMultipleOf_least (x := block + HEADER) hpos hn (by omega) hfit
    rw [hnext] at hz
    cases hz
  | some payload =>
    obtain ⟨hmod, hge, hlt⟩ := checkedNextMultipleOf_eq_some hnext
    have hheader : HEADER.toNat ≤ payload.toNat := by rw [toNat_header]; omega
    have hfirst : (payload - HEADER).toNat = payload.toNat - 24 :=
      toNat_sub_of_ge hheader
    have hsecond : block.toNat ≤ (payload - HEADER).toNat := by omega
    have hgap : (payload - HEADER - block).toNat = payload.toNat - 24 - block.toNat := by
      rw [toNat_sub_of_ge hsecond, hfirst]
    show ∃ x, (b.sub payload HEADER >>= fun gap => _) = .ok x ∧ _
    rw [Build.sub_ok hheader, ok_bind, Build.sub_ok hsecond, ok_bind]
    generalize payload - HEADER - block = first at hgap
    -- the payload is a multiple of a word either way; within a word there is no gap at all
    have hwords : first.toNat % 8 = 0 ∧ (first.toNat ≠ 0 → 16 ≤ align.toNat) := by
      rcases hcases with ⟨hdvd, hle⟩ | ⟨hwide, hwords⟩
      · have hsame : (block.toNat + 24) % align.toNat = 0 := by
          have h8 : align.toNat ∣ 8 := Nat.dvd_of_mod_eq_zero hdvd
          have hb8 : 8 ∣ block.toNat + 24 := by omega
          exact Nat.mod_eq_zero_of_dvd (h8.trans hb8)
        have hback : (payload.toNat - (block.toNat + 24)) % align.toNat = 0 :=
          Nat.mod_eq_zero_of_dvd
            (Nat.dvd_sub (Nat.dvd_of_mod_eq_zero hmod) (Nat.dvd_of_mod_eq_zero hsame))
        rw [Nat.mod_eq_of_lt (by omega)] at hback
        omega
      · have hpay : payload.toNat % 8 = 0 :=
          Nat.mod_eq_zero_of_dvd
            ((Nat.dvd_of_mod_eq_zero hwords).trans (Nat.dvd_of_mod_eq_zero hmod))
        omega
    obtain ⟨g, hpush, hroom, hg⟩ := pushGap_spec hwords.1 hwords.2 hmax
    have hend : block.toNat + first.toNat + 24 = payload.toNat := by omega
    refine ⟨some g, hpush, ?_, ?_⟩
    · rintro gap ⟨⟩
      rcases hg with rfl | ⟨hne, hle, hg⟩
      · refine ⟨hroom, hwords.1, by rw [hend]; exact hmod, ?_⟩
        unfold slack
        split <;> omega
      · have hwide := hwords.2 hne
        refine ⟨hroom, by omega, ?_, ?_⟩
        · rw [hg, show block.toNat + (first.toNat + align.toNat) + 24
            = payload.toNat + align.toNat by omega, Nat.add_mod_right, hmod]
        · unfold slack
          rw [if_neg (by omega)]
          omega
    · intro n hnroom hn hfit
      refine ⟨g, rfl, ?_⟩
      obtain ⟨z, hz, hzle⟩ := checkedNextMultipleOf_least (x := block + HEADER) hpos hn (by omega)
        hfit
      rw [hnext] at hz
      cases hz
      rcases hg with rfl | ⟨hne, hle, hg⟩
      · omega
      · -- a shorter gap is the first one, which cannot carry a header
        have hdvd : align.toNat ∣ n - first.toNat := by
          have hdiff := Nat.dvd_sub (Nat.dvd_of_mod_eq_zero hn) (Nat.dvd_of_mod_eq_zero hmod)
          rwa [show block.toNat + n + 24 - payload.toNat = n - first.toNat by omega] at hdiff
        have hstep := Nat.le_of_dvd (by omega) hdvd
        omega

end Allocator

/-! ### Totals of the cells -/

/-- The bytes of the used cells. -/
def usedBytes (cs : List Cell) : Nat := (cs.map fun c => if c.owner = none then 0 else c.size).sum

/-- The number of used cells. -/
def usedCount (cs : List Cell) : Nat := (cs.map fun c => if c.owner = none then 0 else 1).sum

section
variable {l r cs : List Cell} {c : Cell}

@[simp] theorem usedBytes_append (l r : List Cell) :
    usedBytes (l ++ r) = usedBytes l + usedBytes r := by simp [usedBytes]

@[simp] theorem usedBytes_cons (c : Cell) (l : List Cell) :
    usedBytes (c :: l) = (if c.owner = none then 0 else c.size) + usedBytes l := by simp [usedBytes]

@[simp] theorem usedBytes_nil : usedBytes [] = 0 := rfl

@[simp] theorem usedCount_append (l r : List Cell) :
    usedCount (l ++ r) = usedCount l + usedCount r := by simp [usedCount]

@[simp] theorem usedCount_cons (c : Cell) (l : List Cell) :
    usedCount (c :: l) = (if c.owner = none then 0 else 1) + usedCount l := by simp [usedCount]

@[simp] theorem usedCount_nil : usedCount [] = 0 := rfl

theorem usedBytes_le_span (cs : List Cell) : usedBytes cs ≤ span cs := by
  induction cs with
  | nil => simp
  | cons c cs ih =>
    rw [usedBytes_cons, span_cons, size_cell]
    split <;> omega

theorem usedCount_le_length (cs : List Cell) : usedCount cs ≤ cs.length := by
  induction cs with
  | nil => simp
  | cons c cs ih =>
    rw [usedCount_cons, List.length_cons]
    split <;> omega

/-- Of two neighbours, one is used. -/
def NotBothFree (c d : Cell) : Prop := c.owner ≠ none ∨ d.owner ≠ none

/-- Cells between used ends. -/
theorem isChain_between {mid : List Cell} (hl : l.IsChain NotBothFree) (hr : r.IsChain NotBothFree)
    (hm : mid.IsChain NotBothFree) (hlast : ∀ x ∈ l.getLast?, x.owner ≠ none)
    (hhead : ∀ y ∈ r.head?, y.owner ≠ none) : (l ++ mid ++ r).IsChain NotBothFree := by
  rw [List.append_assoc, List.isChain_append, List.isChain_append]
  refine ⟨hl, ⟨hm, hr, fun x _ y hy => Or.inr (hhead y hy)⟩, fun x hx y _ => Or.inl (hlast x hx)⟩

/-- The neighbours of a free cell are used. -/
theorem IsChain.around (h : (l ++ c :: r).IsChain NotBothFree) (hc : c.owner = none) :
    (∀ x ∈ l.getLast?, x.owner ≠ none) ∧ (∀ y ∈ r.head?, y.owner ≠ none) := by
  rw [List.isChain_append, List.isChain_cons] at h
  constructor
  · intro x hx
    rcases h.2.2 x hx c rfl with hx | hx
    · exact hx
    · exact absurd hc hx
  · intro y hy
    rcases h.2.1.1 y hy with hx | hx
    · exact absurd hc hx
    · exact hx

end

/-- A piece that was cut off: at most one free cell. -/
structure Spare (l : List Cell) : Prop where
  short : l.length ≤ 1
  free : ∀ c ∈ l, c.owner = none
  sizes : Whole l

theorem spare_nil : Spare [] := ⟨by simp, by simp, by simp⟩

theorem spare_single {n : Nat} (h : 24 ≤ n) (h8 : n % 8 = 0) : Spare [⟨n, none⟩] :=
  ⟨by simp, by simp, by simp [h, h8]⟩

theorem Spare.isChain {l : List Cell} (h : Spare l) : l.IsChain NotBothFree := by
  match l, h.short with
  | [], _ => exact List.IsChain.nil
  | [c], _ => exact List.isChain_singleton c

theorem Spare.unowned {l : List Cell} {P : Cell → UInt64 → Prop} (h : Spare l) :
    ∀ c ∈ l, ∀ w, c.owner = some w → P c w := by
  intro c hc w hw
  rw [h.free c hc] at hw
  cases hw

theorem Spare.usedBytes_eq {l : List Cell} (h : Spare l) : usedBytes l = 0 := by
  unfold usedBytes
  rw [List.map_congr_left (g := fun _ => 0) fun c hc => if_pos (h.free c hc)]
  simp

theorem Spare.usedCount_eq {l : List Cell} (h : Spare l) : usedCount l = 0 := by
  unfold usedCount
  rw [List.map_congr_left (g := fun _ => 0) fun c hc => if_pos (h.free c hc)]
  simp

namespace Allocator

/-- The invariant between calls. -/
structure Valid (s : Allocator) (cs : List Cell) : Prop extends Tiled s.region cs where
  apart : cs.IsChain NotBothFree
  used : s.used.toNat = usedBytes cs
  live : s.live.toNat = usedCount cs
  peak : s.used.toNat ≤ s.peak.toNat
  generation : 0 < s.generation.toNat ∧ s.generation.toNat < 2 ^ 63

/-- A request whose rounded size, header and longest gap fit a word. A request that is refused for
its form is not measured. -/
def Measurable (size align : UInt64) : Prop :=
  size ≠ 0 → isPowerOfTwo align = true → align ≤ MAX_ALIGN → size.toNat + 7 < 2 ^ 64 →
    (size.toNat + 7) / 8 * 8 + 24 + slack align < 2 ^ 64

variable {b : Build} {s : Allocator} {cs l r : List Cell} {c : Cell} {offset : UInt64}
  {header : Header}

/-! ### Finding room -/

/-- A cell at `a` is free and can hold an aligned payload of `need` bytes behind a header, with no
gap in front or one that can carry a header of its own. -/
structure Holds (a : Nat) (c : Cell) (need : Nat) (align : UInt64) : Prop where
  free : c.owner = none
  room : ∃ gap, (gap = 0 ∨ 24 ≤ gap) ∧ (a + gap + 24) % align.toNat = 0 ∧ gap + 24 + need ≤ c.size

/-- No cell can hold the payload. -/
def NoRoom (s : Allocator) (cs : List Cell) (need : Nat) (align : UInt64) : Prop :=
  ∀ a c, Placed s.region.base.toNat cs a c → ¬ Holds a c need align

variable {need align gap : UInt64} {start x : Nat} {d : Cell} {front back : List Cell} {u : Cell}
  {m : Memory}

theorem fits_spec (ht : Tiled s.region (l ++ c :: r)) (ho : offset.toNat = span l)
    (hheader : header.Describes (lastSize 0 l) c) (hp : isPowerOfTwo align = true)
    (hmax : align.toNat ≤ 4096) (hneed : need.toNat + 24 + slack align < 2 ^ 64) :
    ∃ x, s.fits b need align offset header = .ok x
      ∧ (∀ gap, x = some gap → c.owner = none
        ∧ Gap (s.region.base.toNat + span l) align gap.toNat
        ∧ gap.toNat + 24 + need.toNat ≤ c.size)
      ∧ (x = none → ¬ Holds (s.region.base.toNat + span l) c need.toNat align) := by
  obtain ⟨hc, -, -, hspan, hcovers⟩ := ht.split
  have hbounded := ht.bounded
  have haligned := ht.aligned
  have hsum : s.region.base.toNat + offset.toNat < 2 ^ 64 := by omega
  have hto : (s.region.base + offset).toNat = s.region.base.toNat + span l := by
    rw [toNat_add_of_lt hsum, ho]
  unfold fits
  by_cases hfree : header.mark = FREE
  swap
  · exact ⟨none, if_neg hfree, by simp, fun _ h => hfree (hheader.mark_iff.mpr h.free)⟩
  obtain ⟨x, hx, hgap, hleast⟩ := leadingGap_spec (b := b) (s.region.base + offset) (by omega)
    (by omega) hp hmax
  rw [hto] at hleast
  rw [if_pos hfree, Build.add_ok hsum, ok_bind, hx, ok_bind]
  cases x with
  | none =>
    refine ⟨none, rfl, by simp, ?_⟩
    rintro - ⟨-, n, hn, haligned', hroom⟩
    obtain ⟨gap, hsome, -⟩ := hleast n hn haligned' (by omega)
    cases hsome
  | some gap =>
    have hg := hgap gap rfl
    rw [hto] at hg
    have hbound := hg.bound
    obtain ⟨hfront, hftn⟩ := header_fits (x := gap) (by omega)
    have htotal : (gap + HEADER).toNat + need.toNat < 2 ^ 64 := by omega
    show ∃ x, (b.add gap HEADER >>= fun front => _) = .ok x ∧ _
    rw [Build.add_ok hfront, ok_bind, Build.add_ok htotal, ok_bind]
    by_cases hroom : gap + HEADER + need ≤ header.size
    · refine ⟨some gap, if_pos hroom, ?_, by simp⟩
      rintro gap' ⟨⟩
      rw [le_iff_toNat_le, toNat_add_of_lt htotal, hftn, hheader.size] at hroom
      exact ⟨hheader.mark_iff.mp hfree, hg, hroom⟩
    · refine ⟨none, if_neg hroom, by simp, ?_⟩
      rintro - ⟨-, n, hn, haligned', hroom'⟩
      obtain ⟨gap', hsome, hle⟩ := hleast n hn haligned' (by omega)
      cases hsome
      rw [le_iff_toNat_le, toNat_add_of_lt htotal, hftn, hheader.size] at hroom
      omega

/-- Where `find` found room. -/
structure Found (s : Allocator) (cs : List Cell) (need align : UInt64) (l : List Cell) (c : Cell)
    (r : List Cell) (offset : UInt64) (header : Header) (gap : UInt64) : Prop where
  cells : cs = l ++ c :: r
  offset : offset.toNat = span l
  header : header.Describes (lastSize 0 l) c
  free : c.owner = none
  front : Gap (s.region.base.toNat + span l) align gap.toNat
  room : gap.toNat + 24 + need.toNat ≤ c.size

theorem find_spec (ht : Tiled s.region cs) (hp : isPowerOfTwo align = true)
    (hmax : align.toNat ≤ 4096) (hneed : need.toNat + 24 + slack align < 2 ^ 64) :
    ∃ x, s.find b need align = .ok x
      ∧ (∀ offset header gap, x = some (offset, header, gap) →
        ∃ l c r, Found s cs need align l c r offset header gap)
      ∧ (x = none → NoRoom s cs need.toNat align) := by
  -- the cells passed cannot hold the payload
  apply walk_rule (I := fun l x => x = none ∧ NoRoom s l need.toNat align) ht
  · intro l c r offset next header acc hcs ho _ hheader hI
    obtain ⟨x, hx, hfits, hnone⟩ := fits_spec (b := b) (hcs ▸ ht) ho hheader hp hmax hneed
    rw [hx, ok_bind]
    cases x with
    | none =>
      refine ⟨_, rfl, rfl, ?_⟩
      intro a d hd
      rw [placed_append, placed_cons] at hd
      rcases hd with hd | ⟨rfl, rfl⟩ | hd
      · exact hI.2 a d hd
      · exact hnone rfl
      · exact absurd hd not_placed_nil
    | some gap =>
      obtain ⟨hfree, hgap, hroom⟩ := hfits gap rfl
      refine ⟨_, rfl, ?_, by simp⟩
      intro o h g heq
      cases heq
      exact ⟨l, c, r, hcs, ho, hheader, hfree, hgap, hroom⟩
  · rintro acc ⟨rfl, hno⟩
    exact ⟨by simp, fun _ => hno⟩
  · exact ⟨rfl, fun a d hd => absurd hd not_placed_nil⟩

/-- Room that was found was there. -/
theorem Found.not_noRoom (h : Found s cs need align l c r offset header gap) :
    ¬ NoRoom s cs need.toNat align := by
  intro hno
  have hplaced : Placed s.region.base.toNat cs (s.region.base.toNat + span l) c := by
    rw [h.cells]
    exact placed_middle _ _ _ _
  exact hno _ c hplaced ⟨h.free, gap.toNat, h.front.room, h.front.aligned, h.room⟩

/-- A request that is refused for its form. -/
def Malformed (size align : UInt64) : Prop :=
  size = 0 ∨ ¬ isPowerOfTwo align = true ∨ MAX_ALIGN < align

/-- A size rounded up to whole words. -/
def rounded (size : UInt64) : Nat := (size.toNat + 7) / 8 * 8

/-- No cell can hold more than its own size. -/
theorem noRoom_of_large (ht : Tiled s.region cs) {need : Nat} (h : s.region.len.toNat < need) :
    NoRoom s cs need align := by
  rintro a c hplaced ⟨-, gap, -, -, hroom⟩
  have hin := hplaced.inside
  rw [ht.covers, size_cell] at hin
  omega

/-! ### Writing headers -/

/-- The allocator with its region's memory replaced. -/
def withMemory (s : Allocator) (m : Memory) : Allocator :=
  { s with region := { s.region with memory := m } }

@[simp] theorem withMemory_withMemory (s : Allocator) (m m' : Memory) :
    (s.withMemory m).withMemory m' = s.withMemory m' := rfl

@[simp] theorem withMemory_memory (s : Allocator) (m : Memory) :
    (s.withMemory m).region.memory = m := rfl

@[simp] theorem withMemory_base (s : Allocator) (m : Memory) :
    (s.withMemory m).region.base = s.region.base := rfl

@[simp] theorem withMemory_len (s : Allocator) (m : Memory) :
    (s.withMemory m).region.len = s.region.len := rfl

theorem run_readAt (offset : UInt64) (ho : offset.toNat % 8 = 0)
    (hin : offset.toNat + 24 ≤ s.region.len.toNat) :
    (readAt offset).run s
      = (.ok (Header.load s.region.memory (s.region.base.toNat + offset.toNat)), s) := by
  unfold readAt
  rw [run_get_bind, Region.header_eq ho hin]
  rfl

theorem run_writeAt (offset : UInt64) (header : Header) (ho : offset.toNat % 8 = 0)
    (hin : offset.toNat + 24 ≤ s.region.len.toNat) :
    (writeAt offset header).run s = (.ok (), s.withMemory
      (Header.store s.region.memory (s.region.base.toNat + offset.toNat) header)) := by
  unfold writeAt
  rw [run_get_bind, Region.setHeader_eq ho hin]
  rfl

/-- Recording a predecessor at the end of a cell. -/
theorem run_relink (offset size : UInt64) {p : Nat} (hsmall : s.region.len.toNat < 2 ^ 63)
    (ho : offset.toNat % 8 = 0) (hr : offset.toNat + span r = s.region.len.toNat)
    (hsizes : Whole r)
    (ht : Tiles s.region.memory (s.region.base.toNat + offset.toNat) p r) :
    ∃ m, (relink b offset size).run s = (.ok (), s.withMemory m)
      ∧ Tiles m (s.region.base.toNat + offset.toNat) size.toNat r
      ∧ ChangedIn s.region.memory m (s.region.base.toNat + offset.toNat) 24
      ∧ (r = [] → m = s.region.memory) := by
  obtain ⟨htop, hto⟩ := header_fits (x := offset) (by omega)
  unfold relink
  rw [run_get_bind, Build.add_ok htop, lift_ok_bind]
  cases r with
  | nil =>
    rw [span_nil] at hr
    rw [if_pos (by rw [lt_iff_toNat_lt]; omega)]
    exact ⟨s.region.memory, rfl, trivial, ChangedIn.refl _ _ _, fun _ => rfl⟩
  | cons c r =>
    have hc := hsizes c List.mem_cons_self
    rw [span_cons, size_cell] at hr
    rw [if_neg (by rw [lt_iff_toNat_lt]; omega),
      run_bind_of_ok (run_readAt _ ho (by omega)), run_writeAt _ _ ho (by omega)]
    refine ⟨_, rfl, ht.relink hsizes ?_ (changedIn_store _ _ _), changedIn_store _ _ _, by simp⟩
    rw [Header.load_store_self]
    exact ⟨ht.1.size, rfl, ht.1.state⟩

/-! ### Cutting a free cell -/

/-- What `cutFront` leaves: a gap cell or nothing, and where the rest starts. -/
theorem run_cutFront (offset gap : UInt64) {p : Nat} (hheader : header.Describes p c)
    (hsmall : s.region.len.toNat < 2 ^ 63) (ho : offset.toNat % 8 = 0)
    (hin : offset.toNat + c.size ≤ s.region.len.toNat) (hroom : gap.toNat = 0 ∨ 24 ≤ gap.toNat)
    (hwords : gap.toNat % 8 = 0) (hgap : gap.toNat + 24 ≤ c.size) :
    ∃ front m start block prev,
      (cutFront b offset header gap).run s = (.ok (start, block, prev), s.withMemory m)
        ∧ Spare front ∧ span front = gap.toNat ∧ start.toNat = offset.toNat + gap.toNat
        ∧ block.toNat = c.size - gap.toNat ∧ prev.toNat = lastSize p front
        ∧ Tiles m (s.region.base.toNat + offset.toNat) p front
        ∧ ChangedIn s.region.memory m (s.region.base.toNat + offset.toNat) gap.toNat := by
  have hsize := hheader.size
  unfold cutFront
  by_cases hpos : 0 < gap
  · have hposN : 0 < gap.toNat := lt_iff_toNat_lt.mp hpos
    have hstart : offset.toNat + gap.toNat < 2 ^ 64 := by omega
    have hblock : gap.toNat ≤ header.size.toNat := by omega
    rw [if_pos hpos, run_bind_of_ok (run_writeAt _ _ ho (by omega)), Build.add_ok hstart,
      lift_ok_bind, Build.sub_ok hblock, lift_ok_bind]
    refine ⟨[⟨gap.toNat, none⟩], _, _, _, _, rfl, spare_single (by omega) hwords, by simp,
      toNat_add_of_lt hstart, ?_, by simp, ⟨?_, trivial⟩,
      (changedIn_store _ _ _).mono (le_refl _) (by omega)⟩
    · rw [toNat_sub_of_ge hblock, hsize]
    · rw [Header.load_store_self]
      exact ⟨rfl, hheader.prev, rfl⟩
  · have hzero : gap.toNat = 0 := by
      rw [lt_iff_toNat_lt] at hpos
      exact Nat.eq_zero_of_not_pos hpos
    rw [if_neg hpos]
    exact ⟨[], s.region.memory, offset, header.size, header.prev, rfl, spare_nil, by simp [hzero],
      by omega, by omega, hheader.prev, trivial, ChangedIn.refl _ _ _⟩

/-- What `cutBack` leaves: a block of at least `want` bytes and a free cell or nothing behind. -/
theorem run_cutBack (start block want : UInt64) (hsmall : s.region.len.toNat < 2 ^ 63)
    (hstart : start.toNat % 8 = 0) (hin : start.toNat + block.toNat ≤ s.region.len.toNat)
    (hblock : block.toNat % 8 = 0) (hwant : want.toNat % 8 = 0) (hle : want.toNat ≤ block.toNat) :
    ∃ back m size last,
      (cutBack b start block want).run s = (.ok (size, last), s.withMemory m)
        ∧ Spare back ∧ size.toNat + span back = block.toNat ∧ want.toNat ≤ size.toNat
        ∧ size.toNat % 8 = 0 ∧ last.toNat = lastSize size.toNat back
        ∧ Tiles m (s.region.base.toNat + start.toNat + size.toNat) size.toNat back
        ∧ ChangedIn s.region.memory m (s.region.base.toNat + start.toNat + size.toNat)
            (span back) := by
  obtain ⟨hleast, hto⟩ := header_fits (x := want) (by omega)
  unfold cutBack
  rw [Build.add_ok hleast, lift_ok_bind]
  by_cases hcut : want + HEADER ≤ block
  · have hcutN : want.toNat + 24 ≤ block.toNat := by
      rw [le_iff_toNat_le] at hcut
      omega
    have hbehind : start.toNat + want.toNat < 2 ^ 64 := by omega
    have hbto : (start + want).toNat = start.toNat + want.toNat := toNat_add_of_lt hbehind
    have hrest : (block - want).toNat = block.toNat - want.toNat := toNat_sub_of_ge hle
    rw [if_pos hcut, Build.add_ok hbehind, lift_ok_bind, Build.sub_ok hle, lift_ok_bind,
      run_bind_of_ok (run_writeAt _ _ (by omega) (by omega)), hbto, ← Nat.add_assoc]
    refine ⟨[⟨block.toNat - want.toNat, none⟩], _, want, block - want, rfl,
      spare_single (by omega) (by omega), by simp; omega, le_refl _, hwant, by simp [hrest],
      ⟨?_, trivial⟩, (changedIn_store _ _ _).mono (le_refl _) (by simp; omega)⟩
    rw [Header.load_store_self]
    exact ⟨hrest, rfl, rfl⟩
  · rw [if_neg hcut]
    exact ⟨[], s.region.memory, block, block, rfl, spare_nil, by simp, hle, hblock, by simp,
      trivial, ChangedIn.refl _ _ _⟩

/-! ### Allocating -/

theorem toNat_nextGeneration {g : UInt64} (hg : g.toNat < 2 ^ 63) :
    (nextGeneration g).toNat = if g.toNat + 1 = 2 ^ 63 then 1 else g.toNat + 1 := by
  have hsum : (g + 1).toNat = g.toNat + 1 := toNat_add_of_lt (by show g.toNat + 1 < _; omega)
  have hmask : ((~~~ (0 : UInt64)) >>> (1 : UInt64)).toNat = 2 ^ 63 - 1 := by decide
  have hand : ((g + 1) &&& ((~~~ (0 : UInt64)) >>> (1 : UInt64))).toNat
      = (g.toNat + 1) % 2 ^ 63 := by
    rw [UInt64.toNat_and, hmask, hsum, Nat.and_two_pow_sub_one_eq_mod]
  unfold nextGeneration
  dsimp only
  generalize (g + 1) &&& ((~~~ (0 : UInt64)) >>> (1 : UInt64)) = next at hand
  have hzero : next = 0 ↔ (g.toNat + 1) % 2 ^ 63 = 0 := by
    rw [← toNat_inj, hand]
    rfl
  by_cases hlast : g.toNat + 1 = 2 ^ 63
  · rw [if_pos (hzero.mpr (by rw [hlast, Nat.mod_self])), if_pos hlast]
    rfl
  · rw [Nat.mod_eq_of_lt (by omega)] at hand hzero
    rw [if_neg (fun h => by have := hzero.mp h; omega), if_neg hlast, hand]

theorem nextGeneration_bounds {g : UInt64} (hg : g.toNat < 2 ^ 63) :
    0 < (nextGeneration g).toNat ∧ (nextGeneration g).toNat < 2 ^ 63 := by
  rw [toNat_nextGeneration hg]
  split <;> omega

/-- The totals after a block of `block` bytes is charged. -/
def charged (s : Allocator) (block : UInt64) : Allocator :=
  { s with
    used := s.used + block
    live := s.live + 1
    generation := nextGeneration s.generation
    peak := if s.peak < s.used + block then s.used + block else s.peak }

theorem run_charge (block : UInt64) (hused : s.used.toNat + block.toNat < 2 ^ 64)
    (hlive : s.live.toNat + 1 < 2 ^ 64) :
    (charge b block).run s = (.ok (), s.charged block) := by
  unfold charge
  rw [run_get_bind, Build.add_ok hused, lift_ok_bind, Build.add_ok hlive]
  rfl

/-- A used cell and where it lies. -/
def Used (start : Nat) (cs : List Cell) (a : Nat) (c : Cell) : Prop :=
  Placed start cs a c ∧ c.owner ≠ none

/-- What every call keeps: the region's start, the payloads of the cells that stay used, and
every byte outside the region. -/
structure Keeps (s : Allocator) (cs : List Cell) (s' : Allocator) (cs' : List Cell) : Prop where
  base : s'.region.base = s.region.base
  payload : ∀ a c, Used s.region.base.toNat cs a c → Used s.region.base.toNat cs' a c →
    ∀ i, a + 24 ≤ i → i < a + c.size → s'.region.memory i = s.region.memory i
  outside : ∀ i, i < s.region.base.toNat ∨
    s.region.base.toNat + max s.region.len.toNat s'.region.len.toNat ≤ i →
    s'.region.memory i = s.region.memory i

/-- The outcome of an allocation: the block `blk` is the cell `u` at `a`. -/
structure Allocated (s : Allocator) (cs : List Cell) (size align : UInt64) (blk : Block)
    (s' : Allocator) (cs' : List Cell) (a : Nat) (u : Cell) : Prop extends Keeps s cs s' cs' where
  valid : s'.Valid cs'
  len : s'.region.len = s.region.len
  asked : blk.size = size
  generation : blk.generation = s.generation
  address : blk.address.toNat = a + 24
  aligned : blk.address.toNat % align.toNat = 0
  owner : u.owner = some s.generation
  room : size.toNat + 24 ≤ u.size
  cells : ∀ x d, Used s.region.base.toNat cs' x d
    ↔ (x = a ∧ d = u) ∨ Used s.region.base.toNat cs x d
  fresh : ∀ d, ¬ Used s.region.base.toNat cs a d
  live : s'.live.toNat = s.live.toNat + 1
  next : s'.generation = nextGeneration s.generation
  peak : s'.peak.toNat = max s.peak.toNat s'.used.toNat

/-- The memory after a free cell is cut and its middle taken. -/
structure Carved (s : Allocator) (l : List Cell) (c : Cell) (r front : List Cell) (u : Cell)
    (back : List Cell) (m : Memory) : Prop where
  before : Spare front
  behind : Spare back
  whole : span front + u.size + span back = c.size
  sizes : 24 ≤ u.size ∧ u.size % 8 = 0
  tiles : Tiles m s.region.base.toNat 0 (l ++ (front ++ u :: back) ++ r)
  changed : ChangedIn s.region.memory m (s.region.base.toNat + span l) (c.size + 24)
  ending : r = [] →
    ChangedIn s.region.memory m (s.region.base.toNat + span l) c.size

/-- The block that `alloc` takes once it found room. -/
theorem run_carve {α : Type} {k : UInt64 → UInt64 → M α} (h : s.Valid cs)
    (hf : Found s cs need align l c r offset header gap) (hneed : need.toNat % 8 = 0) :
    ∃ front u back m start size,
      Carved s l c r front u back m ∧ u.owner = some s.generation
        ∧ size.toNat = u.size ∧ 24 + need.toNat ≤ u.size
        ∧ start.toNat = span l + gap.toNat ∧ span front = gap.toNat
        ∧ (do
            let stop ← Fallible.lift (b.add offset header.size)
            let (start, block, prev) ← cutFront b offset header gap
            let want ← .lift (b.add HEADER need)
            let (block, last) ← cutBack b start block want
            writeAt start ⟨block, prev, tag s.generation USED⟩
            relink b stop last
            k start block).run s = (k start size).run (s.withMemory m) := by
  obtain rfl := hf.cells
  obtain ⟨hc, hlsize, hrsize, hl, hcovers⟩ := h.toTiled.split
  have hsmall := h.small
  have ho := hf.offset
  have hsize := hf.header.size
  have hroom := hf.room
  have hgap := hf.front
  obtain ⟨htl, htc, htr⟩ := tiles_append.mp h.tiles
  -- the end of the cell
  have hstop : offset.toNat + header.size.toNat < 2 ^ 64 := by omega
  have hstopN : (offset + header.size).toNat = span l + c.size := by
    rw [toNat_add_of_lt hstop, ho, hsize]
  -- the gap in front
  obtain ⟨front, m1, start, block, prev, hrun1, hfront, hspanf, hstart, hblock, hprev, ht1, hm1⟩ :=
    run_cutFront (b := b) (s := s) offset gap hf.header hsmall (by omega) (by omega) hgap.room
      hgap.words (by omega)
  -- the rest behind
  have hwant : HEADER.toNat + need.toNat < 2 ^ 64 := by rw [toNat_header]; omega
  have hwantN : (HEADER + need).toNat = 24 + need.toNat := toNat_add_of_lt hwant
  have hwords := hgap.words
  obtain ⟨back, m2, size, last, hrun2, hback, hwhole, hle, hmod, hlast, ht2, hm2⟩ :=
    run_cutBack (b := b) (s := s.withMemory m1) start block (HEADER + need) hsmall (by omega)
      (by rw [withMemory_len]; omega) (by omega) (by omega) (by omega)
  rw [withMemory_base, withMemory_memory] at hm2
  rw [withMemory_base] at ht2
  -- the used header
  have hrun3 := run_writeAt (s := s.withMemory m2) start
    ⟨size, prev, tag s.generation USED⟩ (by omega) (by rw [withMemory_len]; omega)
  rw [withMemory_memory, withMemory_base, withMemory_withMemory] at hrun3
  have hm3 := changedIn_store m2 (s.region.base.toNat + start.toNat)
    ⟨size, prev, tag s.generation USED⟩
  have hself : (Header.load (Header.store m2 (s.region.base.toNat + start.toNat)
      ⟨size, prev, tag s.generation USED⟩) (s.region.base.toNat + start.toNat)).Describes
      (lastSize (lastSize 0 l) front) ⟨size.toNat, some s.generation⟩ := by
    rw [Header.load_store_self]
    exact ⟨rfl, hprev, rfl⟩
  generalize Header.store m2 (s.region.base.toNat + start.toNat)
    ⟨size, prev, tag s.generation USED⟩ = m3 at hrun3 hm3 hself
  have h3 : ChangedIn s.region.memory m3 (s.region.base.toNat + span l) c.size :=
    ((hm1.mono (by omega) (by omega)).trans (hm2.mono (by omega) (by omega))).trans
      (hm3.mono (by omega) (by omega))
  -- the predecessor of what follows
  have htr3 : Tiles m3 (s.region.base.toNat + (span l + c.size)) c.size r := by
    rw [Nat.add_assoc] at htr
    exact htr.changed hrsize h3 (Or.inr (by omega))
  obtain ⟨m4, hrun4, ht4, hm4, hnil⟩ := run_relink (b := b) (s := s.withMemory m3)
    (offset + header.size) last (r := r) (p := c.size) hsmall (by omega)
    (by rw [withMemory_len]; omega) hrsize (by rw [hstopN]; exact htr3)
  rw [withMemory_base, hstopN] at ht4 hm4
  rw [withMemory_memory] at hm4 hnil
  rw [withMemory_withMemory] at hrun4
  have h4 : ChangedIn s.region.memory m4 (s.region.base.toNat + span l) (c.size + 24) :=
    (h3.mono (by omega) (by omega)).trans (hm4.mono (by omega) (by omega))
  refine ⟨front, ⟨size.toNat, some s.generation⟩, back, m4, start, size,
    ⟨hfront, hback, by show span front + size.toNat + span back = _; omega,
      ⟨by show 24 ≤ size.toNat; omega, hmod⟩, ?_, h4, ?_⟩,
    rfl, rfl, by show _ ≤ size.toNat; omega, by omega, hspanf, ?_⟩
  · have hspan : span l + span (front ++ (⟨size.toNat, some s.generation⟩ : Cell) :: back)
        = span l + c.size := by
      simp only [span_append, span_cons, size_cell]
      omega
    rw [tiles_append, tiles_append, tiles_append, tiles_cons, span_append, hspan]
    refine ⟨⟨htl.changed hlsize h4 (Or.inl (le_refl _)), ?_, ?_, ?_⟩, ?_⟩
    · -- the gap: everything after it was written behind it
      have hsizes := hfront.sizes
      rw [ho] at ht1
      refine ((ht1.changed hsizes hm2 (Or.inl ?_)).changed hsizes hm3 (Or.inl ?_)).changed hsizes
        hm4 (Or.inl ?_) <;> omega
    · rw [hspanf, show s.region.base.toNat + span l + gap.toNat
        = s.region.base.toNat + start.toNat by omega, hm4.load (Or.inl (by omega))]
      exact hself
    · rw [hspanf, show s.region.base.toNat + span l + gap.toNat + size.toNat
        = s.region.base.toNat + start.toNat + size.toNat by omega]
      refine (ht2.changed hback.sizes hm3 (Or.inr ?_)).changed hback.sizes hm4 (Or.inl ?_) <;> omega
    · rw [lastSize_append, lastSize_append, lastSize_cons, size_cell, ← hlast]
      exact ht4
  · intro hr
    rw [hnil hr]
    exact h3
  · rw [Build.add_ok hstop, lift_ok_bind, run_bind_of_ok hrun1]
    dsimp only
    rw [Build.add_ok hwant, lift_ok_bind, run_bind_of_ok hrun2]
    dsimp only
    rw [withMemory_withMemory, run_bind_of_ok hrun3, run_bind_of_ok hrun4]

theorem used_append : Used start (l ++ r) x d ↔ Used start l x d ∨ Used (start + span l) r x d := by
  unfold Used
  rw [placed_append, or_and_right]

theorem used_cons :
    Used start (c :: r) x d
      ↔ (x = start ∧ d = c ∧ c.owner ≠ none) ∨ Used (start + c.size) r x d := by
  unfold Used
  rw [placed_cons, or_and_right, size_cell]
  refine or_congr_left ⟨?_, ?_⟩
  · rintro ⟨⟨rfl, rfl⟩, howner⟩
    exact ⟨rfl, rfl, howner⟩
  · rintro ⟨rfl, rfl, howner⟩
    exact ⟨⟨rfl, rfl⟩, howner⟩

theorem not_used_of_spare (h : Spare l) : ¬ Used start l x d :=
  fun hu => hu.2 (h.free d hu.1.mem)

/-- The first and the last byte of what a change to one cell and the header behind it reaches. -/
theorem Carved.inside (ht : Tiled s.region (l ++ c :: r)) (h : Carved s l c r front u back m) :
    ChangedIn s.region.memory m (s.region.base.toNat + span l) (c.size + span r) := by
  cases r with
  | nil => exact (h.ending rfl).mono (le_refl _) (by simp)
  | cons d r =>
    have hd := (ht.sizes d (by simp)).1
    refine h.changed.mono (le_refl _) ?_
    rw [span_cons, size_cell]
    omega

theorem Carved.cells (h : Carved s l c r front u back m) (hc : c.owner = none)
    (hu : u.owner ≠ none) : Used start (l ++ (front ++ u :: back) ++ r) x d
      ↔ (x = start + span l + span front ∧ d = u) ∨ Used start (l ++ c :: r) x d := by
  have hspan : span front + span (u :: back) = c.size := by
    have hwhole := h.whole
    rw [span_cons, size_cell]
    omega
  simp only [used_append, used_cons, not_used_of_spare h.before, not_used_of_spare h.behind,
    span_append, hc, ne_eq, not_true_eq_false, and_false, false_or, or_false, hu,
    not_false_eq_true, and_true]
  rw [← Nat.add_assoc start, hspan]
  tauto

/-- The allocator after a free cell was carved and its middle charged. -/
theorem Carved.allocated {size address block : UInt64} (h : s.Valid cs)
    (hf : Found s cs need align l c r offset header gap) (hcarved : Carved s l c r front u back m)
    (howner : u.owner = some s.generation) (hblock : block.toNat = u.size) (hpos : 0 < size.toNat)
    (hroom : size.toNat + 24 ≤ u.size) (hspan : span front = gap.toNat)
    (haddress : address.toNat = s.region.base.toNat + span l + gap.toNat + 24) :
    Allocated s cs size align ⟨address, size, s.generation⟩ ((s.withMemory m).charged block)
      (l ++ (front ++ u :: back) ++ r) (s.region.base.toNat + span l + span front) u := by
  obtain rfl := hf.cells
  have hc := hf.free
  have hwhole := hcarved.whole
  have hcovers := h.covers
  have hused := h.used
  have hlive := h.live
  have hbytes := usedBytes_le_span (l ++ c :: r)
  have hcount := usedCount_le_length (l ++ c :: r)
  have hlength := length_le_span h.sizes
  have hsmall := h.small
  have hune : u.owner ≠ none := by rw [howner]; simp
  simp only [usedBytes_append, usedBytes_cons, usedCount_append, usedCount_cons, hc, if_true,
    span_append, span_cons, size_cell, Nat.zero_add] at hused hlive hcovers hbytes hcount hlength
  have husedto : (s.used + block).toNat = s.used.toNat + block.toNat :=
    toNat_add_of_lt (by
      have hl := usedBytes_le_span l
      have hr := usedBytes_le_span r
      omega)
  have hliveto : (s.live + 1).toNat = s.live.toNat + 1 :=
    toNat_add_of_lt (by show s.live.toNat + 1 < _; omega)
  have hchanged := hcarved.inside h.toTiled
  have hcells : ∀ x d, Used s.region.base.toNat (l ++ (front ++ u :: back) ++ r) x d
      ↔ (x = s.region.base.toNat + span l + span front ∧ d = u)
        ∨ Used s.region.base.toNat (l ++ c :: r) x d := fun x d => hcarved.cells hc hune
  have hpeak : (if s.peak < s.used + block then s.used + block else s.peak).toNat
      = max s.peak.toNat (s.used + block).toNat := by
    split <;> rename_i hlt <;> rw [lt_iff_toNat_lt] at hlt <;> omega
  refine { base := rfl, payload := ?_, outside := ?_, valid := ?_, len := rfl, asked := rfl,
           generation := rfl, address := by rw [haddress, hspan], aligned := ?_, owner := howner,
           room := hroom, cells := hcells, fresh := ?_, live := hliveto, next := rfl,
           peak := hpeak }
  · -- the payload of another used cell lies before the carved one or behind the next header
    intro x d hd hd' i hi hi'
    have hdsize := (h.sizes d hd.1.mem).1
    refine hcarved.changed i ?_
    rcases used_append.mp hd with hd | hd
    · have hin := hd.1.inside
      rw [size_cell] at hin
      omega
    · rcases used_cons.mp hd with ⟨-, -, hne⟩ | hd
      · exact absurd hc hne
      · have hin := hd.1.inside
        omega
  · intro i hi
    refine hchanged i ?_
    have hlen : ((s.withMemory m).charged block).region.len = s.region.len := rfl
    rw [hlen, Nat.max_self] at hi
    omega
  · refine { aligned := h.aligned, bounded := h.bounded, small := h.small, tiles := hcarved.tiles,
             sizes := ?_, covers := ?_, owners := ?_, apart := ?_, used := ?_, live := ?_,
             peak := ?_, generation := nextGeneration_bounds h.generation.2 }
    · obtain ⟨-, hl, hr, -⟩ := h.toTiled.split
      simp only [whole_append, whole_cons]
      exact ⟨⟨hl, hcarved.before.sizes, hcarved.sizes, hcarved.behind.sizes⟩, hr⟩
    · show _ = s.region.len.toNat
      simp only [span_append, span_cons, size_cell]
      omega
    · have howners := h.owners
      simp only [List.forall_mem_append, List.forall_mem_cons] at howners ⊢
      refine ⟨⟨howners.1, hcarved.before.unowned, ?_, hcarved.behind.unowned⟩, howners.2.2⟩
      rintro w hw
      rw [howner] at hw
      cases hw
      exact ⟨h.generation.2, by omega⟩
    · have hchain := List.isChain_append.mp h.apart
      have haround := IsChain.around h.apart hc
      refine isChain_between hchain.1 (List.isChain_cons.mp hchain.2.1).2 ?_ haround.1 haround.2
      rw [List.isChain_append, List.isChain_cons]
      refine ⟨hcarved.before.isChain, ⟨fun y _ => Or.inl hune, hcarved.behind.isChain⟩, ?_⟩
      intro x _ y hy
      cases hy
      exact Or.inr hune
    · show (s.used + block).toNat = _
      simp only [usedBytes_append, usedBytes_cons, hcarved.before.usedBytes_eq,
        hcarved.behind.usedBytes_eq, hune, if_false]
      omega
    · show (s.live + 1).toNat = _
      simp only [usedCount_append, usedCount_cons, hcarved.before.usedCount_eq,
        hcarved.behind.usedCount_eq, hune, if_false]
      omega
    · exact (Nat.le_max_right _ _).trans_eq hpeak.symm
  · have hal := hf.front.aligned
    rw [← haddress] at hal
    exact hal
  · intro d hd
    have hdsize := (h.sizes d hd.1.mem).1
    have hu := hcarved.sizes.1
    rcases hd.1.apart (placed_middle _ l c r) with ⟨-, rfl⟩ | hlt | hlt
    · exact hd.2 hc
    · rw [size_cell] at hlt
      omega
    · rw [size_cell] at hlt
      omega

theorem alloc_spec {size : UInt64} (h : s.Valid cs) (hm : Measurable size align) :
    (∃ e, (alloc b size align).run s = (.error (.refused e), s)
        ∧ (Malformed size align ∨ NoRoom s cs (rounded size) align)) ∨
      ∃ blk s' cs' a u, (alloc b size align).run s = (.ok blk, s')
        ∧ Allocated s cs size align blk s' cs' a u ∧ ¬ Malformed size align
        ∧ ¬ NoRoom s cs (rounded size) align := by
  unfold alloc
  by_cases hrequest : size = 0 ∨ ¬ isPowerOfTwo align = true ∨ MAX_ALIGN < align
  · rw [refuse_bind_of hrequest]
    exact Or.inl ⟨_, rfl, Or.inl hrequest⟩
  rw [refuse_bind_of_not hrequest]
  have hwellformed : ¬ Malformed size align := hrequest
  cases hneed : checkedNextMultipleOf size ALIGN with
  | none =>
    -- the rounded size is no word, so no cell has it
    refine Or.inl ⟨_, rfl, Or.inr (noRoom_of_large h.toTiled ?_)⟩
    have hsmall := h.small
    by_contra hle
    obtain ⟨z, hz, -⟩ := checkedNextMultipleOf_least (x := size) (n := ALIGN)
      (y := rounded size) (by decide) (Nat.mul_mod_left _ _) (by unfold rounded; omega) (by omega)
    rw [hneed] at hz
    cases hz
  | some need =>
    simp only [not_or, not_not] at hrequest
    obtain ⟨hzero, hp, hmaxw⟩ := hrequest
    have hpos : 0 < size.toNat := Nat.pos_of_ne_zero fun h0 => hzero (toNat_inj.mp h0)
    have hmax : align.toNat ≤ 4096 := le_iff_toNat_le.mp (UInt64.not_lt.mp hmaxw)
    obtain ⟨hmod, hge, hlt⟩ := checkedNextMultipleOf_eq_some hneed
    rw [toNat_align] at hmod hlt
    have hneedlt := need.toNat_lt
    have hmeasure : need.toNat + 24 + slack align < 2 ^ 64 := by
      have := hm hzero hp (UInt64.not_lt.mp hmaxw) (by omega)
      omega
    have hrounded : need.toNat = rounded size := by unfold rounded; omega
    obtain ⟨x, hfind, hfound, hnone⟩ := find_spec (b := b) h.toTiled hp hmax hmeasure
    rw [hrounded] at hnone
    have hfree : s.used.toNat ≤ s.region.len.toNat := by
      rw [h.used, ← h.covers]
      exact usedBytes_le_span cs
    rw [orRefuse_some, Fallible.check_ok_bind, run_get_bind, hfind,
      lift_ok_bind, freeBytes, Build.sub_ok hfree, lift_ok_bind]
    cases x with
    | none => exact Or.inl ⟨_, rfl, Or.inr (hnone rfl)⟩
    | some found =>
      obtain ⟨offset, header, gap⟩ := found
      obtain ⟨l, c, r, hf⟩ := hfound offset header gap rfl
      right
      rw [orRefuse_some, Fallible.check_ok_bind]
      obtain ⟨front, u, back, m, start, block, hcarved, howner, hblock, hroom, hstart, hspan,
        hrun⟩ := run_carve (b := b) (k := fun start block => do
          charge b block
          let payload ← .lift (b.add start HEADER)
          let address ← .check (orRefuse .region (s.region.pointer payload))
          return (⟨address, size, s.generation⟩ : Block)) h hf hmod
      have hcovers := h.covers
      have hbounded := h.bounded
      have hsmall := h.small
      have hwhole := hcarved.whole
      have hused := h.used
      have hlive := h.live
      have hcount := usedCount_le_length cs
      have hlength := length_le_span h.sizes
      -- what is charged stays within the region, so no counter overflows
      have hbytes : usedBytes cs + c.size ≤ s.region.len.toNat := by
        have hl := usedBytes_le_span l
        have hr := usedBytes_le_span r
        rw [hf.cells, span_append, span_cons, size_cell] at hcovers
        rw [hf.cells, usedBytes_append, usedBytes_cons, if_pos hf.free]
        omega
      have hplace := (hf.cells ▸ h.toTiled).split.2.2.2.2
      obtain ⟨hpayload, hpto⟩ := header_fits (x := start) (by omega)
      have hpointer : s.region.pointer (start + HEADER)
          = some (s.region.base + (start + HEADER)) := by
        unfold Region.pointer
        rw [if_neg]
        rw [lt_iff_toNat_lt, hpto]
        omega
      have haddress : (s.region.base + (start + HEADER)).toNat
          = s.region.base.toNat + span l + gap.toNat + 24 := by
        rw [toNat_add_of_lt (by omega), hpto]
        omega
      have hcharge := run_charge (b := b) (s := s.withMemory m) block
        (by show s.used.toNat + block.toNat < 2 ^ 64; omega)
        (by show s.live.toNat + 1 < 2 ^ 64; omega)
      refine ⟨_, _, _, _, _, ?_, hcarved.allocated h hf howner hblock hpos (by omega) hspan
        haddress, hwellformed, hrounded ▸ hf.not_noRoom⟩
      refine hrun.trans ?_
      rw [run_bind_of_ok hcharge, Build.add_ok hpayload, lift_ok_bind, hpointer]
      rfl

end Allocator

end RusticOs.Sdk
