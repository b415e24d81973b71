import RusticOs.Lib.Tiling
import RusticOs.Sdk.Allocator

/-!
# `RusticOs.Proofs.Tiles`: the blocks a region is tiled with

The abstract view of an allocator's region is a list of cells, one for each block: its size and,
when it is used, the generation that owns it. `Tiles` says that the headers in memory describe a
list of cells laid one after another, each with the size of the one before it, and `Tiled` that
they cover a region exactly.

* `Tiles.congr`: a tiling depends on the bytes it covers and on no other;
* `Tiles.relink`: changing the predecessor in the first header;
* `walk_rule`: a walk over the blocks of a tiled region ends, and what it visits are the cells in
  order, so an invariant over the cells passed is enough to know its result.
-/

set_option autoImplicit false

namespace RusticOs.Sdk

open RusticOs.Lib
open RusticOs.Fs (checkedAdd checkedAdd_eq_some)
open RusticOs.Kernel (toNat_add_of_lt)

/-! ### Headers in memory -/

theorem toNat_header : HEADER.toNat = 24 := rfl

theorem toNat_align : ALIGN.toNat = 8 := rfl

/-- The place behind a header. -/
theorem header_fits {x : UInt64} (h : x.toNat + 24 < 2 ^ 64) :
    x.toNat + HEADER.toNat < 2 ^ 64 ∧ (x + HEADER).toNat = x.toNat + 24 :=
  ⟨h, toNat_add_of_lt h⟩

section
variable {m m' : Memory} {a b n i : Nat} {h : Header}

theorem Header.store_of_outside (hi : i < a ∨ a + 24 ≤ i) : Header.store m a h i = m i := by
  unfold Header.store
  rw [Memory.setWord_of_outside (by omega), Memory.setWord_of_outside (by omega),
    Memory.setWord_of_outside (by omega)]

theorem Header.load_congr (hm : ∀ i, a ≤ i → i < a + 24 → m i = m' i) :
    Header.load m a = Header.load m' a := by
  unfold Header.load
  rw [Memory.word_congr fun i _ _ => hm i (by omega) (by omega),
    Memory.word_congr (a := a + 8) fun i _ _ => hm i (by omega) (by omega),
    Memory.word_congr (a := a + 16) fun i _ _ => hm i (by omega) (by omega)]

@[simp] theorem Header.load_store_self (m : Memory) (a : Nat) (h : Header) :
    Header.load (Header.store m a h) a = h := by
  unfold Header.load Header.store
  rw [Memory.word_setWord_self, Memory.word_setWord_of_apart (by omega),
    Memory.word_setWord_of_apart (by omega), Memory.word_setWord_self,
    Memory.word_setWord_of_apart (by omega), Memory.word_setWord_self]

/-- Memory changed only in the `n` bytes from `a` on. -/
def ChangedIn (m m' : Memory) (a n : Nat) : Prop := ∀ i, i < a ∨ a + n ≤ i → m' i = m i

theorem ChangedIn.refl (m : Memory) (a n : Nat) : ChangedIn m m a n := fun _ _ => rfl

theorem changedIn_store (m : Memory) (a : Nat) (h : Header) :
    ChangedIn m (Header.store m a h) a 24 := fun _ hi => Header.store_of_outside hi

theorem ChangedIn.mono {k c : Nat} (h : ChangedIn m m' a n) (hl : c ≤ a) (hr : a + n ≤ c + k) :
    ChangedIn m m' c k := fun i hi => h i (by omega)

theorem ChangedIn.load (h : ChangedIn m m' b n) (hapart : a + 24 ≤ b ∨ b + n ≤ a) :
    Header.load m' a = Header.load m a :=
  Header.load_congr fun i _ _ => h i (by omega)

theorem ChangedIn.trans {m'' : Memory} (h : ChangedIn m m' a n) (h' : ChangedIn m' m'' a n) :
    ChangedIn m m'' a n := fun i hi => (h' i hi).trans (h i hi)

end

/-! ### Marks and generations -/

theorem mark_free : (tag 0 FREE) &&& STATE = FREE := by decide

theorem mark_used (g : UInt64) : (tag g USED) &&& STATE ≠ FREE := by
  intro h
  have hbit := congrArg UInt64.toNat h
  rw [tag, UInt64.toNat_and, UInt64.toNat_or] at hbit
  have hone : STATE.toNat = 1 := rfl
  have hused : USED.toNat = 1 := rfl
  have hfree : FREE.toNat = 0 := rfl
  rw [hone, hused, hfree, Nat.and_one_is_mod] at hbit
  have hodd := Nat.or_mod_two_eq_one (a := (g <<< 1).toNat) (b := 1)
  omega

theorem generation_used {g : UInt64} (hg : g.toNat < 2 ^ 63) : (tag g USED) >>> 1 = g := by
  apply UInt64.toNat_inj.mp
  have hshift : (g <<< 1).toNat = g.toNat <<< 1 := by
    rw [UInt64.toNat_shiftLeft]
    exact Nat.mod_eq_of_lt (by rw [Nat.shiftLeft_eq]; show g.toNat * 2 ^ 1 < _; omega)
  have hused : USED.toNat = 1 := rfl
  rw [tag, UInt64.toNat_shiftRight, UInt64.toNat_or, hshift, hused]
  show (g.toNat <<< 1 ||| 1) >>> 1 = g.toNat
  rw [Nat.shiftRight_or_distrib, Nat.shiftLeft_shiftRight]
  simp

/-! ### Cells -/

/-- A block as its allocator means it: its size, and the generation that owns it. -/
structure Cell where
  size : Nat
  owner : Option UInt64

instance : Sized Cell := ⟨Cell.size⟩

@[simp] theorem size_cell (c : Cell) : Sized.size c = c.size := rfl

/-- The third header word of a cell. -/
def Cell.tag (c : Cell) : UInt64 :=
  match c.owner with
  | none => Sdk.tag 0 FREE
  | some g => Sdk.tag g USED

/-- A header of the cell `c` behind a block of `prev` bytes. -/
structure Header.Describes (h : Header) (prev : Nat) (c : Cell) : Prop where
  size : h.size.toNat = c.size
  prev : h.prev.toNat = prev
  state : h.state = c.tag

theorem Header.Describes.mark_iff {h : Header} {p : Nat} {c : Cell} (hd : h.Describes p c) :
    h.mark = FREE ↔ c.owner = none := by
  rw [Header.mark, hd.state, Cell.tag]
  cases c.owner with
  | none => exact iff_of_true mark_free rfl
  | some g => exact iff_of_false (mark_used g) (by simp)

theorem Header.Describes.generation_eq {h : Header} {p : Nat} {c : Cell} {g : UInt64}
    (hd : h.Describes p c) (hc : c.owner = some g) (hg : g.toNat < 2 ^ 63) :
    h.generation = g := by
  rw [Header.generation, hd.state, Cell.tag, hc]
  exact generation_used hg

/-- Cells that can each carry a header and end at a word. -/
def Whole (cs : List Cell) : Prop := ∀ c ∈ cs, 24 ≤ c.size ∧ c.size % 8 = 0

/-- Memory holds the headers of cells that follow one another from `a` on, behind a block of
`prev` bytes. -/
def Tiles (m : Memory) : Nat → Nat → List Cell → Prop
  | _, _, [] => True
  | a, prev, c :: cs => (Header.load m a).Describes prev c ∧ Tiles m (a + c.size) c.size cs

section
variable {m m' : Memory} {a p p' : Nat} {c : Cell} {l r cs : List Cell}

@[simp] theorem whole_nil : Whole [] := by simp [Whole]

@[simp] theorem whole_cons :
    Whole (c :: cs) ↔ (24 ≤ c.size ∧ c.size % 8 = 0) ∧ Whole cs := List.forall_mem_cons

@[simp] theorem whole_append : Whole (l ++ r) ↔ Whole l ∧ Whole r := List.forall_mem_append

@[simp] theorem tiles_nil : Tiles m a p [] := trivial

@[simp] theorem tiles_cons :
    Tiles m a p (c :: cs) ↔ (Header.load m a).Describes p c ∧ Tiles m (a + c.size) c.size cs :=
  Iff.rfl

@[simp] theorem tiles_append :
    Tiles m a p (l ++ r) ↔ Tiles m a p l ∧ Tiles m (a + span l) (lastSize p l) r := by
  induction l generalizing a p with
  | nil => simp
  | cons c l ih => simp [ih, and_assoc, Nat.add_assoc]

/-- A tiling depends on the bytes it covers and on no other. -/
theorem Tiles.congr (h : Tiles m a p cs) (hc : Whole cs)
    (hm : ∀ i, a ≤ i → i < a + span cs → m' i = m i) : Tiles m' a p cs := by
  induction cs generalizing a p with
  | nil => trivial
  | cons c cs ih =>
    obtain ⟨hload, hrest⟩ := tiles_cons.mp h
    obtain ⟨hsize, hcs⟩ := whole_cons.mp hc
    have hrange : ∀ i, a ≤ i → i < a + (c.size + span cs) → m' i = m i := hm
    constructor
    · have hsame : Header.load m' a = Header.load m a :=
        Header.load_congr fun i hl hr => hrange i hl (by omega)
      rw [hsame]
      exact hload
    · exact ih hrest hcs fun i hl hr => hrange i (by omega) (by omega)

theorem Tiles.changed {b n : Nat} (h : Tiles m a p cs) (hc : Whole cs)
    (hm : ChangedIn m m' b n) (hapart : a + span cs ≤ b ∨ b + n ≤ a) : Tiles m' a p cs :=
  h.congr hc fun i _ _ => hm i (by omega)

/-- Another predecessor in the first header. -/
theorem Tiles.relink (h : Tiles m a p (c :: cs)) (hc : Whole (c :: cs))
    (hload : (Header.load m' a).Describes p' c) (hm : ChangedIn m m' a 24) :
    Tiles m' a p' (c :: cs) := by
  obtain ⟨hsize, hcs⟩ := whole_cons.mp hc
  refine ⟨hload, h.2.changed hcs hm (Or.inr ?_)⟩
  omega

end

/-! ### Regions covered by cells -/

/-- A region that a list of cells covers exactly. The bounds on the region are those of an
object of the language: it does not wrap around and spans at most `isize::MAX` bytes. -/
structure Tiled (g : Region) (cs : List Cell) : Prop where
  aligned : g.base.toNat % 8 = 0
  bounded : g.base.toNat + g.len.toNat < 2 ^ 64
  small : g.len.toNat < 2 ^ 63
  tiles : Tiles g.memory g.base.toNat 0 cs
  sizes : Whole cs
  covers : span cs = g.len.toNat
  owners : ∀ c ∈ cs, ∀ w, c.owner = some w → w.toNat < 2 ^ 63 ∧ 24 < c.size

theorem span_mod_eight {cs : List Cell} (h : Whole cs) : span cs % 8 = 0 := by
  induction cs with
  | nil => rfl
  | cons c cs ih =>
    obtain ⟨hc, hcs⟩ := whole_cons.mp h
    have hrest := ih hcs
    rw [span_cons, size_cell]
    omega

theorem length_le_span {cs : List Cell} (h : Whole cs) : 24 * cs.length ≤ span cs := by
  induction cs with
  | nil => simp
  | cons c cs ih =>
    obtain ⟨hc, hcs⟩ := whole_cons.mp h
    have hrest := ih hcs
    rw [span_cons, size_cell, List.length_cons]
    omega

/-- One cell of a tiled region, with those before and behind it. -/
theorem Tiled.split {g : Region} {l r : List Cell} {c : Cell} (h : Tiled g (l ++ c :: r)) :
    (24 ≤ c.size ∧ c.size % 8 = 0) ∧ Whole l ∧ Whole r ∧ span l % 8 = 0
      ∧ span l + (c.size + span r) = g.len.toNat := by
  obtain ⟨hl, hrest⟩ := whole_append.mp h.sizes
  obtain ⟨hc, hr⟩ := whole_cons.mp hrest
  refine ⟨hc, hl, hr, span_mod_eight hl, ?_⟩
  rw [← h.covers, span_append]
  rfl

namespace Region

variable {g : Region} {offset : UInt64} {h : Header}

theorem holds_iff {len : UInt64} :
    g.holds offset len = true ↔ offset.toNat + len.toNat ≤ g.len.toNat := by
  have hlen := g.len.toNat_lt
  unfold holds
  rw [Option.any_eq_true]
  constructor
  · rintro ⟨stop, hstop, hle⟩
    rw [checkedAdd_eq_some] at hstop
    rw [decide_eq_true_eq, UInt64.le_iff_toNat_le] at hle
    omega
  · intro hle
    refine ⟨offset + len, if_pos (by omega), ?_⟩
    rw [decide_eq_true_eq, UInt64.le_iff_toNat_le, toNat_add_of_lt (by omega)]
    exact hle

theorem admits_iff :
    g.admits offset = true ↔ offset.toNat % 8 = 0 ∧ offset.toNat + 24 ≤ g.len.toNat := by
  unfold admits
  rw [Bool.and_eq_true, beq_iff_eq, holds_iff, toNat_header, ← UInt64.toNat_inj, UInt64.toNat_mod]
  rfl

theorem header_eq (ho : offset.toNat % 8 = 0) (hin : offset.toNat + 24 ≤ g.len.toNat) :
    g.header offset = some (Header.load g.memory (g.at_ offset)) :=
  if_pos (admits_iff.mpr ⟨ho, hin⟩)

/-- A region with a header stored. -/
def stored (g : Region) (offset : UInt64) (h : Header) : Region :=
  { g with memory := Header.store g.memory (g.at_ offset) h }

theorem setHeader_eq (ho : offset.toNat % 8 = 0) (hin : offset.toNat + 24 ≤ g.len.toNat) :
    g.setHeader offset h = some (g.stored offset h) :=
  if_pos (admits_iff.mpr ⟨ho, hin⟩)

end Region

/-! ### Walking over the cells -/

namespace Allocator

variable {b : Build} {s : Allocator} {cs l r : List Cell} {c : Cell} {offset : UInt64}

/-- A step at a cell shows its header and goes to the next. -/
theorem step_cell (ht : Tiled s.region (l ++ c :: r)) (ho : offset.toNat = span l) :
    ∃ next header, s.step b offset = .ok (some (next, header)) ∧ next.toNat = span l + c.size
      ∧ header.Describes (lastSize 0 l) c := by
  obtain ⟨hc, -, -, hmod, hcovers⟩ := ht.split
  have hsmall := ht.small
  have hload : (Header.load s.region.memory (s.region.at_ offset)).Describes (lastSize 0 l) c := by
    have htiles := (tiles_cons.mp (tiles_append.mp ht.tiles).2).1
    rwa [Region.at_, ho]
  have hsize := hload.size
  generalize hheader : Header.load s.region.memory (s.region.at_ offset) = header at hload hsize
  obtain ⟨htop, hto⟩ := header_fits (x := offset) (by omega)
  have hnext : offset.toNat + header.size.toNat < 2 ^ 64 := by omega
  refine ⟨offset + header.size, header, ?_, by rw [toNat_add_of_lt hnext]; omega, hload⟩
  unfold step
  rw [Build.add_ok htop, ok_bind, if_neg, Region.header_eq (by omega) (by omega), hheader]
  · show (if header.size < HEADER then _ else _) = _
    rw [if_neg, Build.add_ok hnext, ok_bind, if_neg]
    · rfl
    · rw [UInt64.lt_iff_toNat_lt, toNat_add_of_lt hnext]
      omega
    · rw [UInt64.lt_iff_toNat_lt, toNat_header]
      omega
  · rw [UInt64.lt_iff_toNat_lt, hto]
    omega

/-- A step at the end of the region. -/
theorem step_end (ht : Tiled s.region cs) (ho : offset.toNat = span cs) :
    s.step b offset = .ok none := by
  have hcovers := ht.covers
  have hsmall := ht.small
  obtain ⟨htop, hto⟩ := header_fits (x := offset) (by omega)
  unfold step
  rw [Build.add_ok htop, ok_bind, if_pos]
  · rfl
  · rw [UInt64.lt_iff_toNat_lt, hto]
    omega

section
variable {β : Type}
  {visit : UInt64 → UInt64 → Header → β → Except (Halt AllocError) (ForInStep β)}
  {I : List Cell → β → Prop} {Q : β → Prop} (ht : Tiled s.region cs)
  (hvisit : ∀ l c r offset next header acc, cs = l ++ c :: r → offset.toNat = span l →
    next.toNat = span l + c.size → header.Describes (lastSize 0 l) c → I l acc →
    ∃ x, visit offset next header acc = .ok x ∧
      match x with
      | .done y => Q y
      | .yield y => I (l ++ [c]) y)
  (hend : ∀ acc, I cs acc → Q acc)
include ht hvisit hend

theorem walk_cells {turns : Nat} {acc : β} (hcs : cs = l ++ r) (ho : offset.toNat = span l)
    (hturns : r.length < turns) (hI : I l acc) :
    ∃ y, s.walk b visit turns offset acc = .ok y ∧ Q y := by
  -- on the cells still ahead, with the cells passed generalised
  induction r generalizing l offset acc turns with
  | nil =>
    obtain ⟨turns, rfl⟩ := Nat.exists_eq_succ_of_ne_zero (show turns ≠ 0 by omega)
    rw [List.append_nil] at hcs
    subst hcs
    refine ⟨acc, ?_, hend acc hI⟩
    rw [walk, step_end ht ho]
    rfl
  | cons c r ih =>
    obtain ⟨turns, rfl⟩ := Nat.exists_eq_succ_of_ne_zero (show turns ≠ 0 by omega)
    obtain ⟨next, header, hstep, hnext, hheader⟩ := step_cell (b := b) (hcs ▸ ht) ho
    obtain ⟨x, hx, hcase⟩ := hvisit l c r offset next header acc hcs ho hnext hheader hI
    rw [walk, hstep, ok_bind]
    show ∃ y, (visit offset next header acc >>= fun x => _) = .ok y ∧ Q y
    rw [hx, ok_bind]
    cases x with
    | done y => exact ⟨y, rfl, hcase⟩
    | yield y =>
      refine ih (l := l ++ [c]) (by simp [hcs]) (by simp [hnext]) ?_ hcase
      rw [List.length_cons] at hturns
      omega

/-- A walk ends. An invariant of the cells passed that every visit keeps gives its result. -/
theorem walk_rule {acc : β} (hI : I [] acc) : ∃ y, s.walkAll b visit acc = .ok y ∧ Q y := by
  have hlength := length_le_span ht.sizes
  have hcovers := ht.covers
  exact walk_cells ht hvisit hend rfl rfl (by omega) hI

end

/-- The last cell and its header. -/
theorem last_spec (ht : Tiled s.region cs) :
    ∃ x, s.last b = .ok x ∧ (cs = [] → x = none) ∧
      ∀ l c, cs = l ++ [c] → ∃ offset header, x = some (offset, header)
        ∧ offset.toNat = span l ∧ header.Describes (lastSize 0 l) c := by
  apply walk_rule (I := fun l x => (l = [] → x = none) ∧
      ∀ l' c, l = l' ++ [c] → ∃ offset header, x = some (offset, header)
        ∧ offset.toNat = span l' ∧ header.Describes (lastSize 0 l') c) ht
  · intro l c r offset next header acc _ ho _ hheader _
    refine ⟨_, rfl, by simp, ?_⟩
    intro l' c' heq
    obtain ⟨rfl, hc⟩ := List.append_inj' heq rfl
    cases hc
    exact ⟨offset, header, rfl, ho, hheader⟩
  · exact fun acc h => h
  · simp

end Allocator

end RusticOs.Sdk
