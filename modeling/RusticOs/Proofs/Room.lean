import Mathlib.Order.Bounds.Defs
import RusticOs.Proofs.Heap

/-!
# `RusticOs.Proofs.Room`: what the allocator finds and how far it shrinks

The other direction of `Heap`: an allocator that refuses has no room, and the end of the region
goes as far back as it may.

* `largestFree_spec`: the largest free run is that of the cells;
* `succeeds_alloc_iff`: a well-formed request is refused only if no free cell can hold it, and
  up to the alignment of a word only if it is larger than the largest free run;
* `truncationTarget_least`: the target is the least length in its steps that `truncate` accepts;
* `heap_complete`: all of this along every history, and `extend` as the way back from `truncate`.

The way back is open when a header fits what was given up: `extend` takes no less
(`room_exceeded`).
-/

set_option autoImplicit false

namespace RusticOs.Sdk

open RusticOs.Lib
open RusticOs.Fs (checkedAdd checkedAdd_eq_some)
open RusticOs.Kernel (toNat_add_of_lt isPowerOfTwo isPowerOfTwo_iff)

namespace Allocator

variable {b : Build} {s : Allocator} {cs l : List Cell} {c : Cell}

/-- A call returns and is not refused. -/
def Succeeds {α : Type} (x : M α) (s : Allocator) : Prop := ∃ a s', x.run s = (.ok a, s')

/-! ### Room -/

/-- The largest free run is that of the largest free cell. -/
theorem largestFree_spec (ht : Tiled s.region cs) :
    ∃ largest, s.largestFree b = .ok largest
      ∧ (∀ c ∈ cs, c.owner = none → c.size ≤ largest.toNat)
      ∧ (largest.toNat = 0 ∨ ∃ c ∈ cs, c.owner = none ∧ c.size = largest.toNat) := by
  apply walk_rule (I := fun l (largest : UInt64) =>
    (∀ c ∈ l, c.owner = none → c.size ≤ largest.toNat)
      ∧ (largest.toNat = 0 ∨ ∃ c ∈ l, c.owner = none ∧ c.size = largest.toNat)) ht
  · intro l c r offset next header largest _ _ _ hheader hI
    refine ⟨_, rfl, ?_⟩
    have hsize := hheader.size
    by_cases hlarger : header.mark = FREE ∧ largest < header.size
    · rw [if_pos hlarger]
      have hlt := UInt64.lt_iff_toNat_lt.mp hlarger.2
      refine ⟨?_, Or.inr ⟨c, by simp, hheader.mark_iff.mp hlarger.1, hsize.symm⟩⟩
      intro d hd hfree
      rcases List.mem_append.mp hd with hd | hd
      · have := hI.1 d hd hfree
        omega
      · rw [List.mem_singleton.mp hd]
        omega
    · rw [if_neg hlarger]
      refine ⟨?_, hI.2.imp_right fun ⟨d, hd, h⟩ => ⟨d, by simp [hd], h⟩⟩
      intro d hd hfree
      rcases List.mem_append.mp hd with hd | hd
      · exact hI.1 d hd hfree
      · rw [List.mem_singleton.mp hd] at hfree ⊢
        by_contra hgt
        refine hlarger ⟨hheader.mark_iff.mpr hfree, UInt64.lt_iff_toNat_lt.mpr ?_⟩
        omega
  · exact fun _ h => h
  · exact ⟨by simp, Or.inl rfl⟩

/-- Every cell lies on a word. -/
theorem Tiled.placed_mod {a : Nat} (ht : Tiled s.region cs)
    (h : Placed s.region.base.toNat cs a c) : a % 8 = 0 := by
  obtain ⟨pre, post, rfl, rfl⟩ := h
  have haligned := ht.aligned
  obtain ⟨-, -, -, hspan, -⟩ := ht.split
  omega

/-- Up to the alignment of a word, there is no room exactly when the largest cell is too small. -/
theorem noRoom_iff_of_word {need : Nat} {align largest : UInt64} (ht : Tiled s.region cs)
    (halign : align.toNat ∣ 8) (hmost : ∀ c ∈ cs, c.owner = none → c.size ≤ largest.toNat)
    (hsome : largest.toNat = 0 ∨ ∃ c ∈ cs, c.owner = none ∧ c.size = largest.toNat) :
    NoRoom s cs need align ↔ largest.toNat < 24 + need := by
  constructor
  · intro hno
    rcases hsome with hzero | ⟨c, hc, hfree, hsize⟩
    · omega
    obtain ⟨pre, post, hcs⟩ := List.append_of_mem hc
    have hplaced : Placed s.region.base.toNat cs (s.region.base.toNat + span pre) c :=
      ⟨pre, post, hcs, rfl⟩
    by_contra hlarge
    refine hno _ c hplaced ⟨hfree, 0, Or.inl rfl, ?_, by omega⟩
    have hword := Tiled.placed_mod ht hplaced
    exact Nat.mod_eq_zero_of_dvd (halign.trans (by omega))
  · rintro hlt a c hplaced ⟨hfree, gap, -, -, hroom⟩
    have := hmost c hplaced.mem hfree
    omega

/-- A well-formed request is served exactly when a free cell can hold it. -/
theorem succeeds_alloc_iff {size align : UInt64} (h : s.Valid cs) (hm : Measurable size align)
    (hform : ¬ Malformed size align) :
    Succeeds (alloc b size align) s ↔ ¬ NoRoom s cs (rounded size) align := by
  rcases alloc_spec (b := b) h hm with ⟨e, hrun, hwhy⟩ | ⟨blk, s', _, _, _, hrun, _, _, hroom⟩
  · have hno := hwhy.resolve_left hform
    refine iff_of_false ?_ (not_not.mpr hno)
    rintro ⟨blk, s', hok⟩
    rw [hrun] at hok
    cases hok
  · exact iff_of_true ⟨blk, s', hrun⟩ hroom

/-! ### Shrinking -/

theorem succeeds_truncate_iff {len : UInt64} (h : s.Valid cs) :
    Succeeds (truncate b len) s ↔ Shrinks s cs len := by
  rcases truncate_spec (b := b) len h with ⟨e, hrun, hno⟩ | ⟨s', _, hrun, _, _, hyes⟩
  · refine iff_of_false ?_ hno
    rintro ⟨x, s', hok⟩
    rw [hrun] at hok
    cases hok
  · exact iff_of_true ⟨(), s', hrun⟩ hyes

theorem powerOfTwo_cases {g : UInt64} (h : isPowerOfTwo g = true) : g.toNat ∣ 8 ∨ 8 ∣ g.toNat := by
  obtain ⟨k, hk⟩ := isPowerOfTwo_iff.mp h
  rw [hk]
  rcases Nat.le_total k 3 with hle | hle
  · exact Or.inl (pow_dvd_pow 2 hle)
  · exact Or.inr (pow_dvd_pow 2 hle)

/-- Where a trailing free cell at `offset` is cut: the least multiple that is `offset` or leaves a
header, if it fits a word. -/
theorem cutAt_spec (offset : UInt64) {g : UInt64} (hoffset : offset.toNat % 8 = 0)
    (hsmall : offset.toNat + 24 < 2 ^ 64) (hg : isPowerOfTwo g = true) :
    ∃ x, cutAt b offset g = .ok x
      ∧ (∀ target, x = some target → target.toNat % g.toNat = 0 ∧ target.toNat % 8 = 0
        ∧ (target.toNat = offset.toNat ∨ offset.toNat + 24 ≤ target.toNat))
      ∧ ∀ m : UInt64, m.toNat % g.toNat = 0 →
        (m.toNat = offset.toNat ∨ offset.toNat + 24 ≤ m.toNat) →
        ∃ target, x = some target ∧ target ≤ m := by
  have hpos : 0 < g.toNat := by
    obtain ⟨k, hk⟩ := isPowerOfTwo_iff.mp hg
    rw [hk]
    exact Nat.two_pow_pos k
  have hmod : offset % g = 0 ↔ offset.toNat % g.toNat = 0 := by
    rw [← UInt64.toNat_inj, UInt64.toNat_mod]
    rfl
  unfold cutAt
  by_cases hwhole : offset % g = 0
  · refine ⟨some offset, if_pos hwhole, ?_, ?_⟩
    · rintro target ⟨⟩
      exact ⟨hmod.mp hwhole, hoffset, Or.inl rfl⟩
    · intro m _ hm
      exact ⟨offset, rfl, UInt64.le_iff_toNat_le.mpr (by omega)⟩
  · have hsum : offset.toNat + HEADER.toNat < 2 ^ 64 := hsmall
    have hto : (offset + HEADER).toNat = offset.toNat + 24 := toNat_add_of_lt hsum
    rw [if_neg hwhole, Build.add_ok hsum, ok_bind]
    refine ⟨_, rfl, ?_, ?_⟩
    · intro target hnext
      obtain ⟨hmultiple, hge, -⟩ := checkedNextMultipleOf_eq_some hnext
      refine ⟨hmultiple, ?_, Or.inr (by omega)⟩
      -- in steps below a word the cell would have been dropped whole
      rcases powerOfTwo_cases hg with hdvd | hdvd
      · exact absurd (hmod.mpr (Nat.mod_eq_zero_of_dvd (hdvd.trans (by omega)))) hwhole
      · exact Nat.mod_eq_zero_of_dvd (hdvd.trans (Nat.dvd_of_mod_eq_zero hmultiple))
    · intro m hm hroom
      have hleave : offset.toNat + 24 ≤ m.toNat := by
        refine hroom.resolve_left fun heq => hwhole (hmod.mpr ?_)
        rw [← heq]
        exact hm
      obtain ⟨target, htarget, hle⟩ := checkedNextMultipleOf_least (x := offset + HEADER) hpos hm
        (by omega) m.toNat_lt
      exact ⟨target, htarget, UInt64.le_iff_toNat_le.mpr hle⟩

/-- The lengths in steps of `g` that a region may take, and the one it has. -/
def Targets (b : Build) (s : Allocator) (g : UInt64) : Set UInt64 :=
  {len | (len = s.region.len ∨ len % g = 0) ∧ Succeeds (truncate b len) s}

theorem mem_targets {g len : UInt64} (h : s.Valid cs) :
    len ∈ Targets b s g ↔ (len = s.region.len ∨ len.toNat % g.toNat = 0) ∧ Shrinks s cs len := by
  have hmod : len % g = 0 ↔ len.toNat % g.toNat = 0 := by
    rw [← UInt64.toNat_inj, UInt64.toNat_mod]
    rfl
  rw [← hmod, ← succeeds_truncate_iff (b := b) h]
  rfl

/-- The length a region has is the only one when its last cell is not free. -/
theorem isLeast_len {g : UInt64} (h : s.Valid cs)
    (honly : ∀ len : UInt64, len.toNat % g.toNat = 0 → Shrinks s cs len → s.region.len ≤ len) :
    IsLeast (Targets b s g) s.region.len := by
  refine ⟨(mem_targets h).mpr ⟨Or.inl rfl, Or.inl rfl⟩, ?_⟩
  intro len hlen
  rcases ((mem_targets h).mp hlen).1 with rfl | hmod
  · exact UInt64.le_refl _
  · exact honly len hmod ((mem_targets h).mp hlen).2

/-- `truncation_target` is the least of the lengths in its steps that `truncate` accepts. -/
theorem truncationTarget_least {g : UInt64} (h : s.Valid cs) (hg : isPowerOfTwo g = true) :
    ∃ target, s.truncationTarget b g = .ok target ∧ IsLeast (Targets b s g) target := by
  obtain ⟨x, hlast, hnil, hcons⟩ := last_spec (b := b) h.toTiled
  unfold truncationTarget
  rw [if_neg (not_not.mpr hg), hlast, ok_bind]
  rcases List.eq_nil_or_concat cs with rfl | ⟨l, c, rfl⟩
  · rw [hnil rfl]
    refine ⟨_, rfl, isLeast_len h ?_⟩
    rintro len - (rfl | ⟨l, c, hcs, -⟩)
    · exact UInt64.le_refl _
    · exact absurd hcs (by simp)
  rw [List.concat_eq_append] at *
  obtain ⟨offset, header, rfl, ho, hheader⟩ := hcons l c rfl
  dsimp only
  by_cases hmark : header.mark = FREE
  swap
  · rw [if_pos hmark]
    refine ⟨_, rfl, isLeast_len h ?_⟩
    intro len _ hshrinks
    by_contra hlt
    have hne : len ≠ s.region.len := fun heq => hlt (heq ▸ UInt64.le_refl _)
    exact hmark (hheader.mark_iff.mpr ((shrinks_concat hne).mp hshrinks).1)
  rw [if_neg (not_not.mpr hmark)]
  have howner := hheader.mark_iff.mp hmark
  have hsmall := h.small
  obtain ⟨hc, -, -, hlmod, hcovers⟩ := h.toTiled.split
  rw [span_nil, Nat.add_zero] at hcovers
  obtain ⟨x, hcut, hgood, hbest⟩ := cutAt_spec (b := b) (g := g) offset (by omega) (by omega) hg
  -- every accepted multiple is one that `cutAt` looks for
  have habove : ∀ len : UInt64, len ≠ s.region.len → len.toNat % g.toNat = 0 →
      Shrinks s (l ++ [c]) len → ∃ target, x = some target ∧ target ≤ len := by
    intro len hne hmod hshrinks
    obtain ⟨-, -, -, hroom⟩ := (shrinks_concat hne).mp hshrinks
    exact hbest len hmod (by omega)
  rw [hcut, ok_bind]
  cases x with
  | none =>
    refine ⟨_, rfl, isLeast_len h ?_⟩
    intro len hmod hshrinks
    by_contra hlt
    obtain ⟨target, hsome, -⟩ := habove len (fun heq => hlt (heq ▸ UInt64.le_refl _)) hmod hshrinks
    cases hsome
  | some target =>
    obtain ⟨hmultiple, hwords, hroom⟩ := hgood target rfl
    by_cases hpast : s.region.len ≤ target
    · refine ⟨s.region.len, if_pos hpast, isLeast_len h ?_⟩
      intro len hmod hshrinks
      by_contra hlt
      obtain ⟨_, hsome, hle⟩ := habove len (fun heq => hlt (heq ▸ UInt64.le_refl _)) hmod hshrinks
      cases hsome
      exact hlt (UInt64.le_trans hpast hle)
    · refine ⟨target, if_neg hpast, ?_, ?_⟩
      · rw [mem_targets h]
        have hbefore := UInt64.lt_iff_toNat_lt.mp (UInt64.not_le.mp hpast)
        refine ⟨Or.inr hmultiple, Or.inr ⟨l, c, rfl, howner, hwords, by omega, by omega⟩⟩
      · intro len hlen
        rw [mem_targets h] at hlen
        by_cases hsame : len = s.region.len
        · rw [hsame]
          exact UInt64.le_of_lt (UInt64.not_le.mp hpast)
        · obtain ⟨_, hsome, hle⟩ := habove len hsame (hlen.1.resolve_left hsame) hlen.2
          cases hsome
          exact hle

end Allocator

open Allocator

namespace Heap

variable {b : Build} {s : Allocator} {cs : List Cell} {h : Heap}

/-! ### The way back -/

/-- The heap after the end of the region went back to `target` and the bytes given up, like all
bytes outside the region, became anything. -/
def shrunk (b : Build) (h : Heap) (target : UInt64) (content : Memory) : Heap :=
  run (step b) h [.truncate target, .elsewhere content]

/-- Appending what was given up leads back. -/
structure Restores (b : Build) (h : Heap) (target : UInt64) (content : Memory) : Prop where
  accepted : ((perform b (.extend (h.allocator.region.len - target))).run
    (shrunk b h target content).allocator).1 = .ok .done
  capacity : (step b (shrunk b h target content)
    (.extend (h.allocator.region.len - target))).allocator.region.len = h.allocator.region.len
  free : (step b (shrunk b h target content)
    (.extend (h.allocator.region.len - target))).allocator.freeBytes b = h.allocator.freeBytes b
  live : (step b (shrunk b h target content)
    (.extend (h.allocator.region.len - target))).live = h.live
  payload : ∀ blk ∈ h.live, ∀ i, blk.address.toNat ≤ i →
    i < blk.address.toNat + blk.size.toNat →
    (step b (shrunk b h target content)
      (.extend (h.allocator.region.len - target))).allocator.region.memory i
      = h.allocator.region.memory i

theorem Sound.restores {target : UInt64} (hs : Sound h cs)
    (ht : Succeeds (truncate b target) h.allocator)
    (hroom : HEADER ≤ h.allocator.region.len - target) (content : Memory) :
    Restores b h target content := by
  have hv := hs.valid
  have hlen := hv.covers ▸ span_mod_eight hv.sizes
  have hbounded := hv.bounded
  have hsmall := hv.small
  -- the end goes back
  obtain ⟨s1, cs1, hrun1, hm1, hlen1, hshrinks⟩ : ∃ s1 cs1,
      (truncate b target).run h.allocator = (.ok (), s1) ∧ Moved h.allocator cs s1 cs1
        ∧ s1.region.len = target ∧ Shrinks h.allocator cs target := by
    rcases truncate_spec (b := b) target hv with ⟨e, hrun, hno⟩ | hmoved
    · exact absurd ((succeeds_truncate_iff hv).mp ht) hno
    · exact hmoved
  have hwords : target.toNat % 8 = 0 ∧ target.toNat ≤ h.allocator.region.len.toNat := by
    rcases hshrinks with rfl | ⟨-, -, -, -, hmod, hle, -⟩
    · exact ⟨hlen, Nat.le_refl _⟩
    · exact ⟨hmod, hle⟩
  -- bytes outside change
  have hv2 := valid_elsewhere hm1.valid content
  generalize hs2 : s1.withMemory
    (content.splice s1.region.base.toNat s1.region.len.toNat s1.region.memory) = s2 at hv2
  have hbase2 : s2.region.base = h.allocator.region.base := by rw [← hs2]; exact hm1.base
  have hlen2 : s2.region.len = target := by rw [← hs2]; exact hlen1
  have hused2 : s2.used = h.allocator.used := by rw [← hs2]; exact hm1.used
  have hinside2 : ∀ i, s1.region.base.toNat ≤ i → i < s1.region.base.toNat + s1.region.len.toNat →
      s2.region.memory i = s1.region.memory i := by
    intro i hl hr
    rw [← hs2]
    exact Memory.splice_of_inside hl hr
  have hshrunk : (shrunk b h target content).allocator = s2
      ∧ (shrunk b h target content).live = h.live := by
    have hperform : (perform b (.truncate target)).run h.allocator = (.ok .done, s1) :=
      Fallible.run_bind_of_ok hrun1 _
    rw [shrunk, run_cons, step_eq hperform, run_cons, run_nil]
    exact ⟨hs2, rfl⟩
  -- the end goes forward
  have hle : target ≤ h.allocator.region.len := UInt64.le_iff_toNat_le.mpr hwords.2
  have hamount : (h.allocator.region.len - target).toNat
      = h.allocator.region.len.toNat - target.toNat := UInt64.toNat_sub_of_le _ _ hle
  generalize hextra : h.allocator.region.len - target = extra at hroom hamount
  have happend : s2.Appendable extra := by
    intro _ _ _
    rw [hbase2, hlen2]
    omega
  have hback : target + extra = h.allocator.region.len := by
    apply UInt64.toNat_inj.mp
    rw [toNat_add_of_lt (by omega)]
    omega
  obtain ⟨s3, cs3, hrun3, hm3, hlen3⟩ : ∃ s3 cs3, (extend b extra).run s2 = (.ok (), s3)
      ∧ Moved s2 cs1 s3 cs3 ∧ s3.region.len = s2.region.len + extra := by
    rcases extend_spec (b := b) hv2 happend with ⟨e, -, hwhy⟩ | hmoved
    · exfalso
      rcases hwhy with hshort | hodd | hover
      · exact UInt64.not_lt.mpr hroom hshort
      · refine hodd (UInt64.toNat_inj.mp ?_)
        show extra.toNat % 8 = 0
        omega
      · have hsum : checkedAdd s2.region.len extra = some (s2.region.len + extra) :=
          if_pos (by rw [hlen2]; omega)
        rw [hsum] at hover
        cases hover
    · exact hmoved
  have hperform3 : (perform b (.extend extra)).run s2 = (.ok .done, s3) :=
    Fallible.run_bind_of_ok hrun3 _
  have hstep : (Heap.step b (shrunk b h target content) (.extend extra)).allocator = s3
      ∧ (Heap.step b (shrunk b h target content) (.extend extra)).live = h.live := by
    rw [step_eq (hshrunk.1.symm ▸ hperform3)]
    exact ⟨rfl, hshrunk.2⟩
  refine ⟨?_, ?_, ?_, ?_, ?_⟩
  · rw [hextra, hshrunk.1, hperform3]
  · rw [hextra, hstep.1, hlen3, hlen2, hback]
  · rw [hextra, hstep.1, freeBytes, freeBytes, hlen3, hlen2, hback, hm3.used, hused2]
  · rw [hextra, hstep.2]
  · intro blk hblk i hl hr
    obtain ⟨a, c, hn⟩ := hs.named blk hblk
    have hused1 := (hm1.cells a c).mpr hn.used
    have hn2 : Names s2.region.base.toNat cs1 blk a c := hbase2 ▸ hn.of_used hused1
    have hused3 := (hm3.cells a c).mpr hn2.used
    have hin := hused1.1.inside
    have haddress := hn.address
    have hfits := hn.room
    rw [size_cell, hm1.valid.covers] at hin
    have hkept1 := hm1.toKeeps.block hn hused1 hl hr
    have hkept3 := hm3.toKeeps.block hn2 hused3 hl hr
    rw [hextra, hstep.1, hkept3, hinside2 i (by rw [hm1.base]; omega) (by rw [hm1.base]; omega),
      hkept1]

/-! ### Completeness -/

/-- What a heap between calls has room for and how far it shrinks. -/
structure Complete (b : Build) (h : Heap) : Prop where
  /-- Up to the alignment of a word, a request is served exactly when it fits the largest free
  run. -/
  words : ∃ largest, h.allocator.largestFree b = .ok largest ∧ ∀ size align : UInt64,
    ¬ Malformed size align → align ≤ ALIGN → Measurable size align →
    (Succeeds (alloc b size align) h.allocator ↔ 24 + rounded size ≤ largest.toNat)
  /-- In general it is served exactly when a free block can hold it. -/
  blocks : ∃ cs, h.allocator.Valid cs ∧ ∀ size align : UInt64, ¬ Malformed size align →
    Measurable size align →
    (¬ Succeeds (alloc b size align) h.allocator ↔ NoRoom h.allocator cs (rounded size) align)
  /-- The target is the least length in its steps that `truncate` accepts; what is given up can be
  appended again when it has room for a header, and is refused otherwise. -/
  target : ∀ g, isPowerOfTwo g = true → ∃ target, h.allocator.truncationTarget b g = .ok target
    ∧ IsLeast (Targets b h.allocator g) target
    ∧ ∀ content, (HEADER ≤ h.allocator.region.len - target → Restores b h target content)
      ∧ (h.allocator.region.len - target < HEADER →
        (perform b (.extend (h.allocator.region.len - target))).run
          (shrunk b h target content).allocator
          = (.error (.refused .region), (shrunk b h target content).allocator))

theorem Sound.complete (hs : Sound h cs) : Complete b h where
  words := by
    obtain ⟨largest, hlargest, hmost, hsome⟩ := largestFree_spec (b := b) hs.valid.toTiled
    refine ⟨largest, hlargest, ?_⟩
    intro size align hform halign hm
    have hdvd : align.toNat ∣ 8 := by
      have hp : isPowerOfTwo align = true := by
        by_contra hp
        exact hform (Or.inr (Or.inl hp))
      have hle : align.toNat ≤ 8 := UInt64.le_iff_toNat_le.mp halign
      rcases powerOfTwo_cases hp with hdvd | hdvd
      · exact hdvd
      · obtain ⟨k, hk⟩ := isPowerOfTwo_iff.mp hp
        have hpos : 0 < align.toNat := hk ▸ Nat.two_pow_pos k
        have hge := Nat.le_of_dvd hpos hdvd
        rw [show align.toNat = 8 by omega]
    rw [succeeds_alloc_iff hs.valid hm hform,
      noRoom_iff_of_word hs.valid.toTiled hdvd hmost hsome, Nat.not_lt]
  blocks := by
    refine ⟨cs, hs.valid, ?_⟩
    intro size align hform hm
    rw [succeeds_alloc_iff hs.valid hm hform, not_not]
  target := by
    intro g hg
    obtain ⟨target, htarget, hleast⟩ := truncationTarget_least (b := b) hs.valid hg
    refine ⟨target, htarget, hleast, ?_⟩
    intro content
    refine ⟨fun hroom => hs.restores hleast.1.2 hroom content, ?_⟩
    intro hshort
    refine Fallible.run_bind_of_error ?_ _
    unfold extend
    rw [Fallible.refuse_bind_of (Or.inl hshort)]
    rfl

/-- Along every history of calls, in every build: a well-formed request is refused only if no free
block can hold it, which up to the alignment of a word is to say that it is larger than the
largest free run; and the truncation target is the least length in its steps that `truncate`
accepts, from where `extend` leads back when it accepts what was given up. Every allocation asked
for is to be measurable in a word. -/
theorem heap_complete (b : Build) {g : Region} (hg : g.Owned) (hs : initialise g = .ok s)
    {calls : List Call} (h : PermittedAll b s calls) : Complete b (after b s calls) := by
  obtain ⟨cs, hsound⟩ := sound_after hg hs h
  exact hsound.complete

theorem heap_complete_sample : sampleRegion.Owned ∧ initialise sampleRegion = .ok sample
    ∧ Complete .release (after .release sample [.alloc 16 8]) := by
  have hcalls : PermittedAll .release sample [.alloc 16 8] := ⟨fun _ _ _ _ => by decide, trivial⟩
  exact ⟨sampleRegion_owned, rfl, heap_complete .release sampleRegion_owned rfl hcalls⟩

/-- A buffer of 72 zero bytes. -/
def nineWords : Region := ⟨4096, 72, fun _ => 0⟩

/-- The allocator over it. -/
def nine : Allocator := ⟨nineWords.stored 0 ⟨72, 0, tag 0 FREE⟩, 0, 0, 0, 1⟩

/-- In a release build a request for nearly the whole address space is served by a free run of 64
bytes. In every build, a region whose trailing free block has 32 bytes is cut by 8 bytes in steps
of 16, and `extend` does not take them back. -/
theorem room_exceeded :
    (sampleRegion.Owned ∧ initialise sampleRegion = .ok sample
      ∧ sample.largestFree .release = .ok 64
      ∧ ((alloc .release 18446744073709551592 1).run sample).1
        = .ok ⟨4120, 18446744073709551592, 1⟩)
    ∧ ∀ b, nineWords.Owned ∧ initialise nineWords = .ok nine
      ∧ (after b nine [.alloc 16 8]).allocator.region.len = 72
      ∧ (after b nine [.alloc 16 8]).allocator.truncationTarget b 16 = .ok 64
      ∧ (after b nine [.alloc 16 8, .truncate 64]).allocator.region.len = 64
      ∧ ((perform b (.extend 8)).run (after b nine [.alloc 16 8, .truncate 64]).allocator).1
        = .error (.refused .region) := by
  refine ⟨⟨sampleRegion_owned, rfl, by decide +kernel, by decide +kernel⟩, ?_⟩
  intro b
  refine ⟨⟨by decide, by decide, by decide, by decide⟩, rfl, ?_⟩
  cases b <;> decide +kernel

end Heap

end RusticOs.Sdk
