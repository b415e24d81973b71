import RusticOs.Proofs.Allocator

/-!
# `RusticOs.Proofs.Release`: handles, releases and the end of the region

* `startOf_spec`: a handle is accepted exactly when a used cell is what it names;
* `free_spec`: the cell of an accepted handle and its free neighbours become one free cell;
* `extend_spec` and `truncate_spec`: the end of the region moves over free bytes only.

A refused call leaves the allocator as it was.
-/

set_option autoImplicit false

namespace RusticOs.Sdk.Allocator

open RusticOs.Lib RusticOs.Lib.Fallible
open UInt64 (le_iff_toNat_le lt_iff_toNat_lt toNat_inj toNat_mod)
open RusticOs.Fs (checkedAdd checkedAdd_eq_some)
open RusticOs.Kernel (toNat_add_of_lt toNat_sub_of_ge)

variable {b : Build} {s : Allocator} {cs l r : List Cell} {c : Cell} {offset : UInt64}
  {header : Header} {blk : Block}

/-! ### Handles -/

/-- The handle names the used cell `c` at `a`. -/
structure Names (start : Nat) (cs : List Cell) (blk : Block) (a : Nat) (c : Cell) : Prop where
  placed : Placed start cs a c
  address : blk.address.toNat = a + 24
  owner : c.owner = some blk.generation
  room : blk.size.toNat + 24 ≤ c.size

theorem Names.used {start a : Nat} (h : Names start cs blk a c) : Used start cs a c :=
  ⟨h.placed, by rw [h.owner]; simp⟩

/-- The handle fits the cell `c` behind the cells `l`, with `target` the offset it points to. -/
def Matches (blk : Block) (target : UInt64) (l : List Cell) (c : Cell) : Prop :=
  target.toNat = span l + 24 ∧ c.owner = some blk.generation ∧ blk.size.toNat + 24 ≤ c.size

/-- What the walk of `startOf` says at the cell `c` behind the cells `l`. -/
def Verdict (blk : Block) (target : UInt64) (l : List Cell) (c : Cell) (offset : UInt64)
    (y : Except AllocError UInt64) : Prop :=
  y = .ok offset ∧ Matches blk target l c
    ∨ (y = .error .unowned ∨ y = .error .doubleFree) ∧ ¬ Matches blk target l c

theorem owns_spec (blk : Block) (target : UInt64) (ht : Tiled s.region (l ++ c :: r))
    (ho : offset.toNat = span l) (hheader : header.Describes (lastSize 0 l) c) :
    ∃ y, owns b blk target offset header = .ok y ∧ Verdict blk target l c offset y := by
  obtain ⟨hc, -, -, -, hcovers⟩ := ht.split
  have hsmall := ht.small
  have hsize := hheader.size
  unfold owns
  by_cases hfree : header.mark = FREE
  · rw [if_pos hfree]
    refine ⟨_, rfl, Or.inr ⟨Or.inr rfl, ?_⟩⟩
    rintro ⟨-, howner, -⟩
    rw [hheader.mark_iff.mp hfree] at howner
    cases howner
  obtain ⟨hpayload, hpto⟩ := header_fits (x := offset) (by omega)
  rw [ho] at hpto
  rw [if_neg hfree, Build.add_ok hpayload, ok_bind]
  by_cases htarget : target = offset + HEADER
  swap
  · rw [if_pos htarget]
    refine ⟨_, rfl, Or.inr ⟨Or.inl rfl, ?_⟩⟩
    rintro ⟨heq, -⟩
    exact htarget (toNat_inj.mp (heq.trans hpto.symm))
  have hroom : HEADER.toNat ≤ header.size.toNat := by rw [toNat_header]; omega
  have hrto : (header.size - HEADER).toNat = c.size - 24 := by
    rw [toNat_sub_of_ge hroom, hsize]
    rfl
  rw [if_neg (not_not.mpr htarget), Build.sub_ok hroom, ok_bind]
  obtain ⟨g, hg⟩ := Option.ne_none_iff_exists'.mp fun h => hfree (hheader.mark_iff.mpr h)
  have hgen := hheader.generation_eq hg (ht.owners c (by simp) g hg).1
  have htar : target.toNat = span l + 24 := by rw [htarget, hpto]
  by_cases hok : blk.size ≤ header.size - HEADER ∧ blk.generation = header.generation
  · refine ⟨.ok offset, if_pos hok, Or.inl ⟨rfl, htar, ?_, ?_⟩⟩
    · rw [hg, hok.2, hgen]
    · have hle := le_iff_toNat_le.mp hok.1
      omega
  · refine ⟨.error .unowned, if_neg hok, Or.inr ⟨Or.inl rfl, ?_⟩⟩
    rintro ⟨-, howner, hle⟩
    refine hok ⟨le_iff_toNat_le.mpr (by omega), ?_⟩
    rw [hg] at howner
    cases howner
    exact hgen.symm

/-- A handle is found exactly when a used cell is what it names. -/
theorem startOf_spec (ht : Tiled s.region cs) (blk : Block) :
    (∃ l c r offset, s.startOf b blk = .ok offset ∧ cs = l ++ c :: r ∧ offset.toNat = span l
        ∧ Names s.region.base.toNat cs blk (s.region.base.toNat + span l) c)
      ∨ (s.startOf b blk = .error (.refused .unowned)
          ∨ s.startOf b blk = .error (.refused .doubleFree))
        ∧ ∀ a c, ¬ Names s.region.base.toNat cs blk a c := by
  have hcovers := ht.covers
  unfold startOf
  by_cases hlow : blk.address < s.region.base
  · rw [if_pos hlow]
    refine Or.inr ⟨Or.inl rfl, ?_⟩
    intro a c hn
    have hin := hn.placed.inside
    have haddress := hn.address
    rw [lt_iff_toNat_lt] at hlow
    omega
  have hle : s.region.base.toNat ≤ blk.address.toNat :=
    le_iff_toNat_le.mp (UInt64.not_lt.mp hlow)
  have htarget : (blk.address - s.region.base).toNat = blk.address.toNat - s.region.base.toNat :=
    toNat_sub_of_ge hle
  rw [if_neg hlow, Build.sub_ok hle, ok_bind]
  generalize blk.address - s.region.base = target at htarget
  by_cases hhigh : s.region.len ≤ target
  · rw [if_pos hhigh]
    refine Or.inr ⟨Or.inl rfl, ?_⟩
    intro a c hn
    have hin := hn.placed.inside
    have haddress := hn.address
    have hroom := (ht.owners c hn.placed.mem _ hn.owner).2
    rw [size_cell] at hin
    rw [le_iff_toNat_le] at hhigh
    omega
  have hlt : target.toNat < s.region.len.toNat :=
    lt_iff_toNat_lt.mp (UInt64.not_le.mp hhigh)
  -- the walk stops at the cell around the target
  have hwalk : ∃ y, s.walkAll b (fun offset next header acc =>
      if target < next then do
        let owner ← owns b blk target offset header
        return .done owner
      else return .yield acc) (.error .unowned) = .ok y
      ∧ ∃ l c r offset, cs = l ++ c :: r ∧ offset.toNat = span l ∧ span l ≤ target.toNat
        ∧ target.toNat < span l + c.size ∧ Verdict blk target l c offset y := by
    apply walk_rule (I := fun l acc => span l ≤ target.toNat ∧ acc = .error .unowned) ht
    · intro l c r offset next header acc hcs ho hnext hheader hI
      by_cases hstop : target < next
      · obtain ⟨y, hy, hverdict⟩ := owns_spec (b := b) blk target (hcs ▸ ht) ho hheader
        rw [if_pos hstop, hy]
        rw [lt_iff_toNat_lt, hnext] at hstop
        exact ⟨.done y, rfl, l, c, r, offset, hcs, ho, hI.1, hstop, hverdict⟩
      · rw [if_neg hstop]
        rw [lt_iff_toNat_lt, hnext] at hstop
        refine ⟨.yield acc, rfl, ?_, hI.2⟩
        simp only [span_append, span_cons, size_cell, span_nil]
        omega
    · intro acc hI
      omega
    · exact ⟨Nat.zero_le _, rfl⟩
  obtain ⟨y, hwalk, l, c, r, offset, hcs, ho, hlo, hhi, hy⟩ := hwalk
  rw [if_neg hhigh, hwalk, ok_bind]
  have hplaced : Placed s.region.base.toNat cs (s.region.base.toNat + span l) c := by
    rw [hcs]
    exact placed_middle _ l c r
  rcases hy with ⟨rfl, htar, howner, hroom⟩ | ⟨hy, hnot⟩
  · exact Or.inl ⟨l, c, r, offset, rfl, hcs, ho, hplaced, by omega, howner, hroom⟩
  · refine Or.inr ⟨?_, ?_⟩
    · rcases hy with rfl | rfl
      · exact Or.inl rfl
      · exact Or.inr rfl
    · -- a cell that the handle names would be the one the walk stopped at
      intro a d hn
      have haddress := hn.address
      have hroom := hn.room
      have howner := (ht.owners d hn.placed.mem _ hn.owner).2
      rcases hn.placed.apart hplaced with ⟨rfl, rfl⟩ | happart | happart
      · exact hnot ⟨by omega, hn.owner, hroom⟩
      · rw [size_cell] at happart
        omega
      · rw [size_cell] at happart
        omega

/-! ### Merging neighbours -/

/-- A free cell of `n` bytes takes in the cell behind it if that one is free too. -/
theorem run_mergeNext (offset : UInt64) {header : Header} {n p : Nat}
    (hsmall : s.region.len.toNat < 2 ^ 63) (ho : offset.toNat % 8 = 0)
    (hheader : header.Describes p ⟨n, none⟩)
    (hload : Header.load s.region.memory (s.region.base.toNat + offset.toNat) = header)
    (hn : 24 ≤ n ∧ n % 8 = 0) (hr : offset.toNat + (n + span r) = s.region.len.toNat)
    (hsizes : Whole r)
    (ht : Tiles s.region.memory (s.region.base.toNat + (offset.toNat + n)) n r)
    (hchain : r.IsChain NotBothFree) :
    ∃ taken rest m header', r = taken ++ rest ∧ Spare taken
      ∧ (mergeNext b offset header).run s = (.ok header', s.withMemory m)
      ∧ header'.Describes p ⟨n + span taken, none⟩
      ∧ Header.load m (s.region.base.toNat + offset.toNat) = header'
      ∧ ChangedIn s.region.memory m (s.region.base.toNat + offset.toNat) 24
      ∧ ∀ y ∈ rest.head?, y.owner ≠ none := by
  have hsize : header.size.toNat = n := hheader.size
  have hnext : offset.toNat + header.size.toNat < 2 ^ 64 := by omega
  have hnto : (offset + header.size).toNat = offset.toNat + n := by
    rw [toNat_add_of_lt hnext, hsize]
  obtain ⟨htop, htto⟩ := header_fits (x := offset + header.size) (by omega)
  have hkeep : header.Describes p ⟨n + span ([] : List Cell), none⟩ := hheader
  unfold mergeNext
  rw [run_get_bind, Build.add_ok hnext, lift_ok_bind, Build.add_ok htop, lift_ok_bind]
  cases r with
  | nil =>
    rw [span_nil] at hr
    rw [if_neg (by rw [le_iff_toNat_le]; omega)]
    exact ⟨[], [], s.region.memory, header, rfl, spare_nil, rfl, hkeep, hload,
      ChangedIn.refl _ _ _, by simp⟩
  | cons d r =>
    have hd := hsizes d List.mem_cons_self
    rw [span_cons, size_cell] at hr
    rw [if_pos (by rw [le_iff_toNat_le]; omega),
      run_bind_of_ok (run_readAt _ (by omega) (by omega)), hnto]
    have hfollow := ht.1
    generalize Header.load s.region.memory (s.region.base.toNat + (offset.toNat + n)) = following
      at hfollow
    have hfsize := hfollow.size
    by_cases hfree : following.mark = FREE
    · have howner := hfollow.mark_iff.mp hfree
      have hsum : header.size.toNat + following.size.toNat < 2 ^ 64 := by omega
      rw [if_pos hfree, Build.add_ok hsum, lift_ok_bind,
        run_bind_of_ok (run_writeAt _ _ ho (by omega))]
      refine ⟨[d], r, _, { header with size := header.size + following.size }, rfl,
        ⟨by simp, by simp [howner], by simpa using hd⟩, rfl, ?_, Header.load_store_self _ _ _,
        changedIn_store _ _ _, ?_⟩
      · refine ⟨?_, hheader.prev, hheader.state⟩
        show (header.size + following.size).toNat = _
        rw [toNat_add_of_lt hsum, hsize, hfsize]
        simp
      · exact (IsChain.around (l := []) hchain howner).2
    · rw [if_neg hfree]
      refine ⟨[], d :: r, s.region.memory, header, rfl, spare_nil, rfl, hkeep, hload,
        ChangedIn.refl _ _ _, ?_⟩
      intro y hy
      cases hy
      exact fun h => hfree (hfollow.mark_iff.mpr h)

/-- A free cell of `n` bytes goes into the cell in front of it if that one is free too. -/
theorem run_mergePrevious (offset : UInt64) {header : Header} {n : Nat}
    (ho : offset.toNat = span l) (hheader : header.Describes (lastSize 0 l) ⟨n, none⟩)
    (hload : Header.load s.region.memory (s.region.base.toNat + offset.toNat) = header)
    (hin : span l + n ≤ s.region.len.toNat) (hn : 24 ≤ n)
    (hsizes : Whole l)
    (ht : Tiles s.region.memory s.region.base.toNat 0 l) (hchain : l.IsChain NotBothFree) :
    ∃ rest taken m start header', l = rest ++ taken ∧ Spare taken
      ∧ (mergePrevious b offset header).run s = (.ok (start, header'), s.withMemory m)
      ∧ start.toNat = span rest
      ∧ header'.Describes (lastSize 0 rest) ⟨span taken + n, none⟩
      ∧ Header.load m (s.region.base.toNat + start.toNat) = header'
      ∧ ChangedIn s.region.memory m (s.region.base.toNat + start.toNat) 24
      ∧ ∀ x ∈ rest.getLast?, x.owner ≠ none := by
  have hlen := s.region.len.toNat_lt
  have hsize : header.size.toNat = n := hheader.size
  have hkeep : header.Describes (lastSize 0 l) ⟨span ([] : List Cell) + n, none⟩ := by
    rw [span_nil, Nat.zero_add]
    exact hheader
  have hprev := hheader.prev
  unfold mergePrevious
  rcases List.eq_nil_or_concat l with rfl | ⟨rest, d, rfl⟩
  · -- the first block has no predecessor
    have hzero : header.prev = 0 := toNat_inj.mp hprev
    rw [if_neg (not_not.mpr hzero)]
    exact ⟨[], [], s.region.memory, offset, header, rfl, spare_nil, rfl, ho, hkeep, hload,
      ChangedIn.refl _ _ _, by simp⟩
  · rw [List.concat_eq_append] at *
    have hd := hsizes d (by simp)
    have hrest := span_mod_eight (whole_append.mp hsizes).1
    simp only [lastSize_append, lastSize_cons, lastSize_nil, size_cell] at hprev
    simp only [span_append, span_cons, span_nil, size_cell, Nat.add_zero] at ho hin
    have hne : header.prev ≠ 0 := by
      intro h0
      have := congrArg UInt64.toNat h0
      rw [hprev] at this
      have hz : (0 : UInt64).toNat = 0 := rfl
      omega
    have hsub : header.prev.toNat ≤ offset.toNat := by omega
    have hsto : (offset - header.prev).toNat = span rest := by
      rw [toNat_sub_of_ge hsub]
      omega
    have hmerged := (tiles_cons.mp (tiles_append.mp ht).2).1
    rw [if_pos hne, Build.sub_ok hsub, lift_ok_bind,
      run_bind_of_ok (run_readAt _ (by omega) (by omega)), hsto]
    generalize Header.load s.region.memory (s.region.base.toNat + span rest) = merged at hmerged
    have hmsize := hmerged.size
    by_cases hfree : merged.mark = FREE
    · have howner := hmerged.mark_iff.mp hfree
      have hsum : merged.size.toNat + header.size.toNat < 2 ^ 64 := by omega
      rw [if_pos hfree, Build.add_ok hsum, lift_ok_bind,
        run_bind_of_ok (run_writeAt _ _ (by omega) (by omega))]
      refine ⟨rest, [d], _, offset - header.prev, { merged with size := merged.size + header.size },
        rfl, ⟨by simp, by simp [howner], by simpa using hd⟩, rfl, hsto, ?_,
        Header.load_store_self _ _ _, changedIn_store _ _ _, ?_⟩
      · refine ⟨?_, hmerged.prev, ?_⟩
        · show (merged.size + header.size).toNat = _
          rw [toNat_add_of_lt hsum, hsize, hmsize]
          simp
        · show merged.state = _
          rw [hmerged.state, Cell.tag, Cell.tag, howner]
      · exact (IsChain.around (r := []) hchain howner).1
    · rw [if_neg hfree]
      refine ⟨rest ++ [d], [], s.region.memory, offset, header, by simp, spare_nil, rfl,
        by simpa using ho, hkeep, hload, ChangedIn.refl _ _ _, ?_⟩
      intro x hx
      simp only [List.getLast?_append, List.getLast?_singleton, Option.some_or, Option.mem_def,
        Option.some.injEq] at hx
      subst hx
      exact fun h => hfree (hmerged.mark_iff.mpr h)

/-- The memory after a free cell of `n` bytes and its free neighbours became one. -/
structure Merged (s : Allocator) (l q : List Cell) (n : Nat) (t r : List Cell) (m : Memory) :
    Prop where
  before : Spare q
  behind : Spare t
  tiles : Tiles m s.region.base.toNat 0 (l ++ ⟨span q + (n + span t), none⟩ :: r)
  changed : ChangedIn s.region.memory m (s.region.base.toNat + span l)
    (span q + (n + span t) + 24)
  ending : r = [] → ChangedIn s.region.memory m (s.region.base.toNat + span l)
    (span q + (n + span t))
  left : ∀ x ∈ l.getLast?, x.owner ≠ none
  right : ∀ y ∈ r.head?, y.owner ≠ none

theorem run_coalesce (offset : UInt64) {n : Nat} (hsmall : s.region.len.toNat < 2 ^ 63)
    (ho : offset.toNat = span l) (hcovers : span l + (n + span r) = s.region.len.toNat)
    (hn : 24 ≤ n ∧ n % 8 = 0) (hl : Whole l) (hr : Whole r)
    (ht : Tiles s.region.memory s.region.base.toNat 0 (l ++ ⟨n, none⟩ :: r))
    (hlchain : l.IsChain NotBothFree) (hrchain : r.IsChain NotBothFree) :
    ∃ l' q t r' m, l = l' ++ q ∧ r = t ++ r' ∧ Merged s l' q n t r' m
      ∧ (coalesce b offset).run s = (.ok (), s.withMemory m) := by
  have hlmod := span_mod_eight hl
  obtain ⟨htl, hload, htr⟩ := tiles_append.mp ht
  rw [Nat.add_assoc, ← ho] at htr
  rw [← ho] at hload
  -- the cell behind, the cell before, and the link of what follows both
  obtain ⟨t, r', m1, header1, rfl, ht1, hrun1, hheader1, hload1, hm1, hright⟩ :=
    run_mergeNext (b := b) (s := s) offset hsmall (by omega) hload rfl hn (by omega) hr htr hrchain
  obtain ⟨l', q, m2, start, header2, rfl, hq, hrun2, hstart, hheader2, hload2, hm2, hleft⟩ :=
    run_mergePrevious (b := b) (s := s.withMemory m1) offset ho hheader1 hload1
      (by rw [withMemory_len]; rw [span_append] at hcovers; omega) (by omega) hl
      (htl.changed hl hm1 (Or.inl (by omega))) hlchain
  simp only [span_append] at ho hcovers hlmod
  rw [withMemory_base, withMemory_memory] at hm2
  rw [withMemory_base] at hload2
  have hsize : header2.size.toNat = span q + (n + span t) := hheader2.size
  have hl' := (whole_append.mp hl).1
  have hr' := (whole_append.mp hr).2
  have hl'mod := span_mod_eight hl'
  have htmod := span_mod_eight ht1.sizes
  have hqmod := span_mod_eight hq.sizes
  have hstop : start.toNat + header2.size.toNat < 2 ^ 64 := by omega
  have hsto : (start + header2.size).toNat = span l' + (span q + (n + span t)) := by
    rw [toNat_add_of_lt hstop, hstart, hsize]
  have h2 : ChangedIn s.region.memory m2 (s.region.base.toNat + span l')
      (span q + (n + span t)) :=
    (hm1.mono (by omega) (by omega)).trans (hm2.mono (by omega) (by omega))
  have htr' : Tiles m2 (s.region.base.toNat + (start + header2.size).toNat) (lastSize n t) r' := by
    have hback := (tiles_append.mp htr).2
    rw [show s.region.base.toNat + (offset.toNat + n) + span t
      = s.region.base.toNat + (start + header2.size).toNat by omega] at hback
    exact hback.changed hr' h2 (Or.inr (by omega))
  obtain ⟨m3, hrun3, ht3, hm3, hnil⟩ := run_relink (b := b) (s := s.withMemory m2)
    (start + header2.size) header2.size hsmall (by omega) (by rw [withMemory_len]; omega) hr' htr'
  rw [withMemory_base, hsto] at ht3 hm3
  rw [withMemory_memory] at hm3 hnil
  refine ⟨l', q, t, r', m3, rfl, rfl, ⟨hq, ht1, ?_, ?_, ?_, hleft, hright⟩, ?_⟩
  · rw [tiles_append, tiles_cons]
    refine ⟨?_, ?_, ?_⟩
    · exact ((tiles_append.mp htl).1.changed hl' h2 (Or.inl (le_refl _))).changed hl' hm3
        (Or.inl (by omega))
    · rw [hm3.load (Or.inl (by omega)), ← hstart, hload2]
      exact hheader2
    · show Tiles m3 (s.region.base.toNat + span l' + (span q + (n + span t)))
        (span q + (n + span t)) r'
      rw [hsize] at ht3
      rw [Nat.add_assoc]
      exact ht3
  · exact (h2.mono (by omega) (by omega)).trans (hm3.mono (by omega) (by omega))
  · intro hlast
    rw [hnil hlast]
    exact h2
  · unfold coalesce
    rw [run_bind_of_ok (run_readAt _ (by omega) (by omega)),
      run_bind_of_ok hrun1, run_bind_of_ok hrun2]
    dsimp only
    rw [Build.add_ok hstop, lift_ok_bind, withMemory_withMemory]
    exact hrun3

/-! ### Releasing -/

/-- The totals after a block of `block` bytes is taken off. -/
def discharged (s : Allocator) (block : UInt64) : Allocator :=
  { s with used := s.used - block, live := s.live - 1 }

theorem run_discharge {block : UInt64} (hused : block.toNat ≤ s.used.toNat)
    (hlive : 1 ≤ s.live.toNat) : (discharge b block).run s = (.ok (), s.discharged block) := by
  unfold discharge
  rw [run_get_bind, Build.sub_ok hused, lift_ok_bind,
    Build.sub_ok (show (1 : UInt64).toNat ≤ s.live.toNat from hlive)]
  rfl

/-- The outcome of a release: the cell at `a` is no longer used. -/
structure Freed (s : Allocator) (cs : List Cell) (s' : Allocator) (cs' : List Cell) (a : Nat) :
    Prop extends Keeps s cs s' cs' where
  valid : s'.Valid cs'
  len : s'.region.len = s.region.len
  cells : ∀ x d, Used s.region.base.toNat cs' x d ↔ x ≠ a ∧ Used s.region.base.toNat cs x d
  live : s'.live.toNat + 1 = s.live.toNat
  next : s'.generation = s.generation
  peak : s'.peak = s.peak

theorem Merged.cells {q t : List Cell} {n start x : Nat} {m : Memory} {d : Cell}
    (h : Merged s l q n t r m) (hc : c.size = n) (howner : c.owner ≠ none)
    (hpos : ∀ d ∈ l ++ q ++ c :: (t ++ r), 0 < d.size) :
    Used start (l ++ (⟨span q + (n + span t), none⟩ : Cell) :: r) x d
      ↔ x ≠ start + span (l ++ q) ∧ Used start (l ++ q ++ c :: (t ++ r)) x d := by
  have hspan :
      start + span l + (span q + (n + span t)) = start + span (l ++ q) + c.size + span t := by
    rw [span_append]
    omega
  simp only [used_append, used_cons, not_used_of_spare h.before, not_used_of_spare h.behind, ne_eq,
    not_true_eq_false, and_false, false_or, or_false, hspan, howner, not_false_eq_true, and_true]
  constructor
  · rintro (hd | hd)
    · have hin := hd.1.inside
      have := hpos d (by simp [hd.1.mem])
      rw [size_cell] at hin
      refine ⟨?_, Or.inl hd⟩
      rw [span_append]
      omega
    · have hin := hd.1.inside
      have := hpos c (by simp)
      exact ⟨by omega, Or.inr (Or.inr hd)⟩
  · rintro ⟨hne, hd | ⟨hd, -⟩ | hd⟩
    · exact Or.inl hd
    · exact absurd hd hne
    · exact Or.inr hd

theorem Merged.freed {q t : List Cell} {m m1 : Memory} {size : UInt64}
    (h : s.Valid (l ++ q ++ c :: (t ++ r))) (howner : c.owner ≠ none) (hsize : size.toNat = c.size)
    (hm1 : ChangedIn s.region.memory m1 (s.region.base.toNat + span (l ++ q)) 24)
    (hmerged : Merged ((s.withMemory m1).discharged size) l q c.size t r m) :
    Freed s (l ++ q ++ c :: (t ++ r)) (((s.withMemory m1).discharged size).withMemory m)
      (l ++ ⟨span q + (c.size + span t), none⟩ :: r) (s.region.base.toNat + span (l ++ q)) := by
  have hpos : ∀ d ∈ l ++ q ++ c :: (t ++ r), 0 < d.size := fun d hd => by
    have := (h.sizes d hd).1
    omega
  have hcovers := h.covers
  have hused := h.used
  have hlive := h.live
  have hsmall := h.small
  have hc := h.sizes c (by simp)
  have hchain := List.isChain_append.mp h.apart
  simp only [span_append, span_cons, size_cell] at hcovers
  simp only [usedBytes_append, usedBytes_cons, howner, if_false, usedCount_append,
    usedCount_cons] at hused hlive
  have hbase : ((s.withMemory m1).discharged size).region.base = s.region.base := rfl
  have hmemory : ((s.withMemory m1).discharged size).region.memory = m1 := rfl
  have hcells : ∀ x d, Used s.region.base.toNat
      (l ++ (⟨span q + (c.size + span t), none⟩ : Cell) :: r) x d
      ↔ x ≠ s.region.base.toNat + span (l ++ q)
        ∧ Used s.region.base.toNat (l ++ q ++ c :: (t ++ r)) x d :=
    fun x d => hmerged.cells rfl howner hpos
  have hchanged := hmerged.changed
  have hending := hmerged.ending
  rw [hbase, hmemory] at hchanged hending
  simp only [span_append] at hm1
  simp only [hmerged.before.usedBytes_eq, hmerged.before.usedCount_eq,
    hmerged.behind.usedBytes_eq, hmerged.behind.usedCount_eq] at hused hlive
  have husedto : (s.used - size).toNat = s.used.toNat - c.size := by
    rw [toNat_sub_of_ge (by omega), hsize]
  have hliveto : (s.live - 1).toNat = s.live.toNat - 1 :=
    toNat_sub_of_ge (by show 1 ≤ s.live.toNat; omega)
  refine { base := rfl, payload := ?_, outside := ?_, valid := ?_, len := rfl, cells := hcells,
           live := ?_, next := rfl, peak := rfl }
  · -- what stays used lies before the merged cell or behind the next header
    intro x d _ hd i hi hi'
    have hdsize : 0 < d.size := hpos d ((hcells x d).mp hd).2.1.mem
    have hplace : i < s.region.base.toNat + span l
        ∨ s.region.base.toNat + span l + (span q + (c.size + span t) + 24) ≤ i := by
      rcases used_append.mp hd with hd | hd
      · have hin := hd.1.inside
        rw [size_cell] at hin
        omega
      · rcases used_cons.mp hd with ⟨-, -, hne⟩ | hd
        · exact absurd rfl hne
        · have hin := hd.1.inside
          simp only at hin
          omega
    exact (hchanged i hplace).trans (hm1 i (by omega))
  · intro i hi
    have hlen : ((s.withMemory m1).discharged size).region.len = s.region.len := rfl
    rw [withMemory_len, hlen, Nat.max_self] at hi
    have hrange :
        i < s.region.base.toNat + span l ∨ s.region.base.toNat + s.region.len.toNat ≤ i := by
      omega
    have hm : m i = m1 i := by
      cases hr1 : r with
      | nil =>
        subst hr1
        rw [span_nil] at hcovers
        exact hending rfl i (by omega)
      | cons e r' =>
        subst hr1
        have he := (h.sizes e (by simp)).1
        rw [span_cons, size_cell] at hcovers
        exact hchanged i (by omega)
    exact hm.trans (hm1 i (by omega))
  · refine { aligned := h.aligned, bounded := h.bounded, small := h.small, tiles := hmerged.tiles,
             sizes := ?_, covers := ?_, owners := ?_, apart := ?_, used := ?_, live := ?_,
             peak := ?_, generation := h.generation }
    · have hq := span_mod_eight hmerged.before.sizes
      have ht := span_mod_eight hmerged.behind.sizes
      have hsizes := h.sizes
      simp only [whole_append, whole_cons] at hsizes ⊢
      exact ⟨hsizes.1.1, by omega, hsizes.2.2.2⟩
    · show _ = s.region.len.toNat
      simp only [span_append, span_cons, size_cell]
      omega
    · have howners := h.owners
      simp only [List.forall_mem_append, List.forall_mem_cons] at howners ⊢
      exact ⟨howners.1.1, fun w hw => absurd hw.symm (Option.some_ne_none w), howners.2.2.2⟩
    · have hl1 := (List.isChain_append.mp hchain.1).1
      have hr1 := (List.isChain_append.mp (List.isChain_cons.mp hchain.2.1).2).2.1
      have hmid : List.IsChain NotBothFree [(⟨span q + (c.size + span t), none⟩ : Cell)] :=
        List.isChain_singleton _
      simpa using isChain_between hl1 hr1 hmid hmerged.left hmerged.right
    · show (s.used - size).toNat = _
      simp only [usedBytes_append, usedBytes_cons, if_true]
      omega
    · show (s.live - 1).toNat = _
      simp only [usedCount_append, usedCount_cons, if_true]
      omega
    · show (s.used - size).toNat ≤ s.peak.toNat
      have := h.peak
      omega
  · show (s.live - 1).toNat + 1 = s.live.toNat
    omega

theorem free_spec (h : s.Valid cs) (blk : Block) :
    (∃ a c s' cs', Names s.region.base.toNat cs blk a c
        ∧ (free b blk).run s = (.ok (), s') ∧ Freed s cs s' cs' a)
      ∨ ((free b blk).run s = (.error (.refused .unowned), s)
          ∨ (free b blk).run s = (.error (.refused .doubleFree), s))
        ∧ ∀ a c, ¬ Names s.region.base.toNat cs blk a c := by
  unfold free
  rw [run_get_bind]
  rcases startOf_spec (b := b) h.toTiled blk with ⟨l, c, r, offset, hstart, rfl, ho, hnames⟩
    | ⟨hstart, hnames⟩
  swap
  · exact Or.inr ⟨hstart.imp (fun h => by rw [h]; rfl) fun h => by rw [h]; rfl, hnames⟩
  left
  have howner : c.owner ≠ none := hnames.used.2
  obtain ⟨hc, hlsizes, hrsizes, hlmod, hcovers⟩ := h.toTiled.split
  have hused := h.used
  have hlive := h.live
  have hsmall := h.small
  simp only [usedBytes_append, usedBytes_cons, howner, if_false, usedCount_append,
    usedCount_cons] at hused hlive
  obtain ⟨htl, hheader, htr⟩ := tiles_append.mp h.tiles
  have hchain := List.isChain_append.mp h.apart
  -- the header loses its owner
  rw [hstart, lift_ok_bind, run_bind_of_ok (run_readAt _ (by omega) (by omega)),
    run_bind_of_ok (run_writeAt _ _ (by omega) (by omega)), ho]
  generalize Header.load s.region.memory (s.region.base.toNat + span l) = header at hheader
  have hsize := hheader.size
  have hself : (Header.load (Header.store s.region.memory (s.region.base.toNat + span l)
      { header with state := tag 0 FREE }) (s.region.base.toNat + span l)).Describes
      (lastSize 0 l) ⟨c.size, none⟩ := by
    rw [Header.load_store_self]
    exact ⟨hsize, hheader.prev, rfl⟩
  have hm1 := changedIn_store s.region.memory (s.region.base.toNat + span l)
    { header with state := tag 0 FREE }
  generalize Header.store s.region.memory (s.region.base.toNat + span l)
    { header with state := tag 0 FREE } = m1 at hself hm1
  rw [run_bind_of_ok (run_discharge (by show _ ≤ s.used.toNat; omega)
    (by show 1 ≤ s.live.toNat; omega))]
  obtain ⟨l', q, t, r', m, rfl, rfl, hmerged, hrun⟩ := run_coalesce (b := b)
    (s := (s.withMemory m1).discharged header.size) offset (n := c.size) hsmall ho hcovers hc
    hlsizes hrsizes
    (tiles_append.mpr ⟨htl.changed hlsizes hm1 (Or.inl (le_refl _)), hself,
      htr.changed hrsizes hm1 (Or.inr (by omega))⟩)
    hchain.1 (List.isChain_cons.mp hchain.2.1).2
  exact ⟨_, c, _, _, hnames, hrun, hmerged.freed h howner hsize hm1⟩

/-! ### Payloads -/

/-- The bytes of an accepted handle lie in the cell it names. -/
theorem payload_spec (ht : Tiled s.region cs) (blk : Block) :
    (∃ a c, Names s.region.base.toNat cs blk a c
        ∧ (payload b blk).run s = (.ok blk.address.toNat, s))
      ∨ ((payload b blk).run s = (.error (.refused .unowned), s)
          ∨ (payload b blk).run s = (.error (.refused .doubleFree), s))
        ∧ ∀ a c, ¬ Names s.region.base.toNat cs blk a c := by
  unfold payload
  rw [run_get_bind]
  rcases startOf_spec (b := b) ht blk with ⟨l, c, r, offset, hstart, rfl, ho, hnames⟩
    | ⟨hstart, hnames⟩
  · obtain ⟨-, -, -, -, hcovers⟩ := ht.split
    have hsmall := ht.small
    have haddress := hnames.address
    have hroom := hnames.room
    obtain ⟨hsum, hto⟩ := header_fits (x := offset) (by omega)
    rw [ho] at hto
    have hslice : s.region.slice (offset + HEADER) blk.size = some blk.address.toNat := by
      unfold Region.slice
      rw [if_pos (Region.holds_iff.mpr (by omega)), Region.at_, hto, haddress, Nat.add_assoc]
    refine Or.inl ⟨_, c, hnames, ?_⟩
    rw [hstart, lift_ok_bind, Build.add_ok hsum, lift_ok_bind, hslice]
    rfl
  · exact Or.inr ⟨hstart.imp (fun h => by rw [h]; rfl) fun h => by rw [h]; rfl, hnames⟩

/-- Writing into a payload leaves the tiling as it is. -/
theorem Valid.splice {a : Nat} {content : Memory} (h : s.Valid cs)
    (hn : Names s.region.base.toNat cs blk a c) :
    (s.withMemory (s.region.memory.splice blk.address.toNat blk.size.toNat content)).Valid cs := by
  have haddress := hn.address
  have hroom := hn.room
  obtain ⟨l, r, rfl, rfl⟩ := hn.placed
  have hchanged : ∀ i, i < s.region.base.toNat + span l + 24
      ∨ s.region.base.toNat + span l + c.size ≤ i →
      s.region.memory.splice blk.address.toNat blk.size.toNat content i = s.region.memory i :=
    fun i hi => Memory.splice_of_outside (by omega)
  generalize s.region.memory.splice blk.address.toNat blk.size.toNat content = m at hchanged
  obtain ⟨htl, hheader, htr⟩ := tiles_append.mp h.tiles
  obtain ⟨-, hl, hr, -⟩ := h.toTiled.split
  refine { h with tiles := tiles_append.mpr ⟨htl.congr hl fun i _ hi => hchanged i (by omega), ?_,
    htr.congr hr fun i hi _ => hchanged i (by omega)⟩ }
  have hsame : Header.load m (s.region.base.toNat + span l)
      = Header.load s.region.memory (s.region.base.toNat + span l) :=
    Header.load_congr fun i _ _ => hchanged i (by omega)
  rw [withMemory_memory, withMemory_base, hsame]
  exact hheader

/-! ### The end of the region -/

/-- The bytes `extend` is asked to append are the owner's: the region with them is still an
object. A call that is refused for its argument appends nothing. -/
def Appendable (s : Allocator) (extra : UInt64) : Prop :=
  HEADER ≤ extra → extra % ALIGN = 0 → s.region.len.toNat + extra.toNat < 2 ^ 64 →
    s.region.base.toNat + s.region.len.toNat + extra.toNat < 2 ^ 64
      ∧ s.region.len.toNat + extra.toNat < 2 ^ 63

/-- The outcome of moving the end of the region: no used cell is touched. -/
structure Moved (s : Allocator) (cs : List Cell) (s' : Allocator) (cs' : List Cell) :
    Prop extends Keeps s cs s' cs' where
  valid : s'.Valid cs'
  cells : ∀ x d, Used s.region.base.toNat cs' x d ↔ Used s.region.base.toNat cs x d
  used : s'.used = s.used
  live : s'.live = s.live
  next : s'.generation = s.generation
  peak : s'.peak = s.peak

theorem Moved.refl (h : s.Valid cs) : Moved s cs s cs :=
  { base := rfl, payload := fun _ _ _ _ _ _ _ => rfl, outside := fun _ _ => rfl, valid := h,
    cells := fun _ _ => Iff.rfl, used := rfl, live := rfl, next := rfl, peak := rfl }

/-- The last cells `q` of a region, free, replaced by the free cells `t`. -/
theorem Valid.moved {q t : List Cell} (m : Memory) (len : UInt64) (h : s.Valid (l ++ q))
    (hq : Spare q) (ht : Spare t) (hlast : q ≠ [] ∨ ∀ x ∈ l.getLast?, x.owner ≠ none)
    (hlen : span l + span t = len.toNat) (hbounded : s.region.base.toNat + len.toNat < 2 ^ 64)
    (hsmall : len.toNat < 2 ^ 63)
    (htiles : Tiles m (s.region.base.toNat + span l) (lastSize 0 l) t)
    (hm : ChangedIn s.region.memory m (s.region.base.toNat + span l) (span t)) :
    Moved s (l ++ q) { s with region := ⟨s.region.base, len, m⟩ } (l ++ t) := by
  have hl := (whole_append.mp h.sizes).1
  have hcells : ∀ start x d, Used start (l ++ t) x d ↔ Used start (l ++ q) x d := by
    intro start x d
    rw [used_append, used_append, iff_false_intro (not_used_of_spare hq),
      iff_false_intro (not_used_of_spare ht)]
  have hcovers := h.covers
  rw [span_append] at hcovers
  refine { base := rfl, payload := ?_, outside := ?_, valid := ?_, cells := hcells _,
           used := rfl, live := rfl, next := rfl, peak := rfl }
  · intro x d _ hd i _ hi
    rcases used_append.mp hd with hd | hd
    · have hin := hd.1.inside
      rw [size_cell] at hin
      exact hm i (Or.inl (by omega))
    · exact absurd hd (not_used_of_spare ht)
  · intro i hi
    refine hm i ?_
    have hmax : len.toNat ≤ max s.region.len.toNat len.toNat := Nat.le_max_right _ _
    rcases hi with hi | hi
    · omega
    · right
      show s.region.base.toNat + span l + span t ≤ i
      have : s.region.base.toNat + max s.region.len.toNat len.toNat ≤ i := hi
      omega
  · have htl := (tiles_append.mp h.tiles).1
    have hchain := List.isChain_append.mp h.apart
    refine { aligned := h.aligned, bounded := hbounded, small := hsmall,
             tiles := tiles_append.mpr ⟨htl.changed hl hm (Or.inl (le_refl _)), htiles⟩,
             sizes := whole_append.mpr ⟨hl, ht.sizes⟩, covers := ?_, owners := ?_, apart := ?_,
             used := ?_, live := ?_, peak := h.peak, generation := h.generation }
    · rw [span_append]
      exact hlen
    · exact List.forall_mem_append.mpr ⟨(List.forall_mem_append.mp h.owners).1, ht.unowned⟩
    · -- the cell before a free one is used
      rw [List.isChain_append]
      refine ⟨hchain.1, ht.isChain, ?_⟩
      intro x hx y _
      refine Or.inl ?_
      rcases hlast with hne | hlast
      · obtain ⟨d, q', rfl⟩ := List.exists_cons_of_ne_nil hne
        rcases hchain.2.2 x hx d rfl with hx | hx
        · exact hx
        · exact absurd (hq.free d (by simp)) hx
      · exact hlast x hx
    · have hused := h.used
      rw [usedBytes_append, hq.usedBytes_eq] at hused
      rw [usedBytes_append, ht.usedBytes_eq]
      exact hused
    · have hlive := h.live
      rw [usedCount_append, hq.usedCount_eq] at hlive
      rw [usedCount_append, ht.usedCount_eq]
      exact hlive

/-- The free cell that `extend` makes of the end of the region. -/
theorem appended_spec {extra : UInt64} (h : s.Valid cs)
    (hsum : s.region.len.toNat + extra.toNat < 2 ^ 63) :
    ∃ offset header l q, s.appended b extra = .ok (offset, header) ∧ cs = l ++ q ∧ Spare q
      ∧ (q ≠ [] ∨ ∀ x ∈ l.getLast?, x.owner ≠ none) ∧ offset.toNat = span l
      ∧ header.Describes (lastSize 0 l) ⟨span q + extra.toNat, none⟩ := by
  obtain ⟨x, hlast, hnil, hcons⟩ := last_spec (b := b) h.toTiled
  have hcovers := h.covers
  unfold appended
  rw [hlast, ok_bind]
  rcases List.eq_nil_or_concat cs with rfl | ⟨l, c, rfl⟩
  · rw [hnil rfl]
    exact ⟨s.region.len, _, [], [], rfl, rfl, spare_nil, Or.inr (by simp), hcovers.symm,
      by simp, rfl, rfl⟩
  · rw [List.concat_eq_append] at *
    obtain ⟨offset, header, rfl, ho, hheader⟩ := hcons l c rfl
    have hsize := hheader.size
    have hc := h.sizes c (by simp)
    simp only [span_append, span_cons, span_nil, size_cell, Nat.add_zero] at hcovers
    by_cases hfree : header.mark = FREE
    · have howner := hheader.mark_iff.mp hfree
      have hfit : header.size.toNat + extra.toNat < 2 ^ 64 := by omega
      have hadd : checkedAdd header.size extra = some (header.size + extra) := if_pos hfit
      refine ⟨offset, { header with size := header.size + extra }, l, [c], ?_, rfl,
        ⟨by simp, by simp [howner], by simpa using hc⟩, Or.inl (by simp), ho, ?_, hheader.prev, ?_⟩
      · dsimp only
        rw [if_pos hfree, hadd]
        rfl
      · show (header.size + extra).toNat = _
        rw [toNat_add_of_lt hfit, hsize]
        simp
      · show header.state = _
        rw [hheader.state, Cell.tag, Cell.tag, howner]
    · refine ⟨s.region.len, _, l ++ [c], [], if_neg hfree, by simp, spare_nil, Or.inr ?_, ?_, ?_,
        ?_, rfl⟩
      · intro y hy
        simp only [List.getLast?_append, List.getLast?_singleton, Option.some_or, Option.mem_def,
          Option.some.injEq] at hy
        subst hy
        exact fun hy => hfree (hheader.mark_iff.mpr hy)
      · simpa using hcovers.symm
      · simp
      · simpa using hsize

theorem extend_spec {extra : UInt64} (h : s.Valid cs) (hext : s.Appendable extra) :
    (∃ e, (extend b extra).run s = (.error (.refused e), s)
        ∧ (extra < HEADER ∨ extra % ALIGN ≠ 0 ∨ checkedAdd s.region.len extra = none)) ∨
      ∃ s' cs', (extend b extra).run s = (.ok (), s') ∧ Moved s cs s' cs'
        ∧ s'.region.len = s.region.len + extra := by
  unfold extend
  by_cases hrequest : extra < HEADER ∨ extra % ALIGN ≠ 0
  · rw [refuse_bind_of hrequest]
    exact Or.inl ⟨_, rfl, hrequest.imp_right Or.inl⟩
  rw [refuse_bind_of_not hrequest, run_get_bind]
  cases hgrown : checkedAdd s.region.len extra with
  | none => exact Or.inl ⟨_, rfl, Or.inr (Or.inr rfl)⟩
  | some grown =>
    right
    rw [checkedAdd_eq_some] at hgrown
    have hgrownlt := grown.toNat_lt
    simp only [not_or, not_not] at hrequest
    have hlarge := UInt64.not_lt.mp hrequest.1
    obtain ⟨hbounded, hsmall⟩ := hext hlarge hrequest.2 (by omega)
    have hextra : 24 ≤ extra.toNat := le_iff_toNat_le.mp hlarge
    have hwords : extra.toNat % 8 = 0 := by
      have := congrArg UInt64.toNat hrequest.2
      rw [toNat_mod] at this
      exact this
    -- a free last cell grows; behind a used one a new cell begins
    obtain ⟨offset, header, l, q, happended, rfl, hq, hlast, ho, hheader⟩ :=
      appended_spec (b := b) h hsmall
    have hcovers := h.covers
    rw [span_append] at hcovers
    have hlmod := span_mod_eight (whole_append.mp h.sizes).1
    have hqmod := span_mod_eight hq.sizes
    have hchecks :
        ¬ (offset % ALIGN ≠ 0 ∨ ¬ (checkedAdd offset HEADER).any (· ≤ grown) = true) := by
      rw [not_or, not_not, not_not]
      constructor
      · apply toNat_inj.mp
        rw [toNat_mod, ho]
        exact hlmod
      · obtain ⟨hfit, hto⟩ := header_fits (x := offset) (by omega)
        have hadd : checkedAdd offset HEADER = some (offset + HEADER) := if_pos hfit
        rw [hadd, Option.any_some, decide_eq_true_eq, le_iff_toNat_le, hto]
        omega
    have hgrow : s.region.len.toNat + extra.toNat < 2 ^ 64 := by omega
    have hgto : (s.region.len + extra).toNat = s.region.len.toNat + extra.toNat :=
      toNat_add_of_lt hgrow
    rw [orRefuse_some, Fallible.check_ok_bind, happended, lift_ok_bind]
    dsimp only
    rw [refuse_bind_of_not hchecks, Region.grow, Build.add_ok hgrow]
    have hmoved := h.moved (t := [⟨span q + extra.toNat, none⟩])
      (Header.store s.region.memory (s.region.base.toNat + span l) header) (s.region.len + extra)
      hq (spare_single (by omega) (by omega)) hlast (by simp; omega) (by omega) (by omega)
      ⟨by rw [Header.load_store_self]; exact hheader, trivial⟩
      ((changedIn_store _ _ _).mono (le_refl _) (by simp; omega))
    refine ⟨_, _, ?_, hmoved, rfl⟩
    have hwrite := run_writeAt (s := { s with region :=
      { s.region with len := s.region.len + extra } }) offset header (by omega)
      (by show _ ≤ (s.region.len + extra).toNat; omega)
    rw [ho] at hwrite
    exact hwrite

/-- What `keepRemainder` does to a free cell at the end. -/
theorem run_keepRemainder (offset remainder : UInt64) {p : Nat} (ho : offset.toNat % 8 = 0)
    (hin : offset.toNat + c.size ≤ s.region.len.toNat) (hheader : header.Describes p c)
    (howner : c.owner = none) (hwords : remainder.toNat % 8 = 0) (hle : remainder.toNat ≤ c.size) :
    (∃ e, (keepRemainder offset header remainder).run s = (.error (.refused e), s)
        ∧ 0 < remainder.toNat ∧ remainder.toNat < 24) ∨
      ∃ t m, (keepRemainder offset header remainder).run s = (.ok (), s.withMemory m)
        ∧ (remainder.toNat = 0 ∨ 24 ≤ remainder.toNat) ∧ Spare t
        ∧ span t = remainder.toNat ∧ Tiles m (s.region.base.toNat + offset.toNat) p t
        ∧ ChangedIn s.region.memory m (s.region.base.toNat + offset.toNat) (span t) := by
  unfold keepRemainder
  by_cases hzero : remainder = 0
  · rw [if_neg (not_not.mpr hzero)]
    subst hzero
    exact Or.inr ⟨[], s.region.memory, rfl, Or.inl rfl, spare_nil, rfl, trivial,
      ChangedIn.refl _ _ _⟩
  rw [if_pos hzero]
  by_cases hshort : remainder < HEADER
  · rw [refuse_bind_of hshort]
    exact Or.inl ⟨_, rfl, Nat.pos_of_ne_zero fun h0 => hzero (toNat_inj.mp h0),
      lt_iff_toNat_lt.mp hshort⟩
  · have hlarge : 24 ≤ remainder.toNat := le_iff_toNat_le.mp (UInt64.not_lt.mp hshort)
    rw [refuse_bind_of_not hshort, run_writeAt _ _ ho (by omega)]
    refine Or.inr ⟨[⟨remainder.toNat, none⟩], _, rfl, Or.inr hlarge, spare_single hlarge hwords,
      by simp, ⟨?_, trivial⟩, (changedIn_store _ _ _).mono (le_refl _) (by simp; omega)⟩
    rw [Header.load_store_self]
    refine ⟨rfl, hheader.prev, ?_⟩
    show header.state = _
    rw [hheader.state, Cell.tag, Cell.tag, howner]

/-- The lengths a region may shrink to: the one it has, and the whole words down to its last cell,
if that is free, with room for a header in what is left of it. -/
def Shrinks (s : Allocator) (cs : List Cell) (len : UInt64) : Prop :=
  len = s.region.len ∨ ∃ l c, cs = l ++ [c] ∧ c.owner = none ∧ len.toNat % 8 = 0
    ∧ len.toNat ≤ s.region.len.toNat ∧ (len.toNat = span l ∨ span l + 24 ≤ len.toNat)

theorem shrinks_concat {len : UInt64} (hne : len ≠ s.region.len) :
    Shrinks s (l ++ [c]) len ↔ c.owner = none ∧ len.toNat % 8 = 0
      ∧ len.toNat ≤ s.region.len.toNat ∧ (len.toNat = span l ∨ span l + 24 ≤ len.toNat) := by
  constructor
  · rintro (rfl | ⟨l', c', heq, h⟩)
    · exact absurd rfl hne
    · obtain ⟨rfl, hc⟩ := List.append_inj' heq rfl
      cases hc
      exact h
  · exact fun h => Or.inr ⟨l, c, rfl, h⟩

theorem truncate_spec (len : UInt64) (h : s.Valid cs) :
    (∃ e, (truncate b len).run s = (.error (.refused e), s) ∧ ¬ Shrinks s cs len) ∨
      ∃ s' cs', (truncate b len).run s = (.ok (), s') ∧ Moved s cs s' cs'
        ∧ s'.region.len = len ∧ Shrinks s cs len := by
  have hwhole : s.region.len.toNat % 8 = 0 := h.covers ▸ span_mod_eight h.sizes
  unfold truncate
  by_cases hwords : len % ALIGN ≠ 0
  · rw [refuse_bind_of hwords]
    refine Or.inl ⟨_, rfl, ?_⟩
    have hodd : len.toNat % 8 ≠ 0 := fun h0 => hwords (toNat_inj.mp h0)
    rintro (rfl | ⟨-, -, -, -, hmod, -⟩)
    · exact hodd hwhole
    · exact hodd hmod
  rw [refuse_bind_of_not hwords, run_get_bind]
  by_cases hsame : len = s.region.len
  · rw [if_pos hsame]
    exact Or.inr ⟨s, cs, rfl, Moved.refl h, hsame.symm, Or.inl hsame⟩
  rw [if_neg hsame]
  obtain ⟨x, hlast, hnil, hcons⟩ := last_spec (b := b) h.toTiled
  rw [hlast, lift_ok_bind]
  rcases List.eq_nil_or_concat cs with rfl | ⟨l, c, rfl⟩
  · rw [hnil rfl]
    refine Or.inl ⟨_, rfl, ?_⟩
    rintro (hlen | ⟨l, c, hcs, -⟩)
    · exact hsame hlen
    · exact absurd hcs (by simp)
  rw [List.concat_eq_append] at *
  obtain ⟨offset, header, rfl, ho, hheader⟩ := hcons l c rfl
  rw [orRefuse_some, Fallible.check_ok_bind, shrinks_concat hsame]
  dsimp only
  by_cases hrequest : s.region.len < len ∨ header.mark ≠ FREE ∨ len < offset
  · rw [refuse_bind_of hrequest]
    refine Or.inl ⟨_, rfl, ?_⟩
    rintro ⟨howner, -, hle, hcut⟩
    rw [lt_iff_toNat_lt, lt_iff_toNat_lt] at hrequest
    rcases hrequest with hlong | hmark | hlow
    · omega
    · exact hmark (hheader.mark_iff.mpr howner)
    · omega
  rw [refuse_bind_of_not hrequest]
  simp only [not_or, not_not] at hrequest hwords
  obtain ⟨hshorter, hfree, hlow⟩ := hrequest
  have howner := hheader.mark_iff.mp hfree
  obtain ⟨hc, -, -, hlmod, hcovers⟩ := h.toTiled.split
  rw [span_nil, Nat.add_zero] at hcovers
  have hsmall := h.small
  have hbounded := h.bounded
  have hlenmod : len.toNat % 8 = 0 := by
    have := congrArg UInt64.toNat hwords
    rw [toNat_mod] at this
    exact this
  have hle : offset.toNat ≤ len.toNat := le_iff_toNat_le.mp (UInt64.not_lt.mp hlow)
  have hlenle : len.toNat ≤ s.region.len.toNat :=
    le_iff_toNat_le.mp (UInt64.not_lt.mp hshorter)
  have hremainder : (len - offset).toNat = len.toNat - offset.toNat :=
    toNat_sub_of_ge hle
  rw [Build.sub_ok hle, lift_ok_bind]
  -- the remainder of the last cell is nothing, or holds a header
  rcases run_keepRemainder (s := s) offset (len - offset) (by omega) (by omega) hheader
    howner (by omega) (by omega)
    with ⟨e, hrun, hpos, hshort⟩ | ⟨t, m, hrun, hkept, ht, hspan, htiles, hm⟩
  · refine Or.inl ⟨e, by rw [run_bind_of_error hrun], ?_⟩
    rintro ⟨-, -, -, hcut⟩
    omega
  · rw [ho] at htiles hm
    have hmoved := h.moved (q := [c]) (t := t) m len
      ⟨by simp, by simp [howner], by simpa using hc⟩ ht (Or.inl (by simp)) (by omega) (by omega)
      (by omega) htiles hm
    have hshrink : (s.withMemory m).region.shrink len
        = some { (s.withMemory m).region with len := len } := if_neg hshorter
    refine Or.inr ⟨_, _, ?_, hmoved, rfl, howner, hlenmod, hlenle, by omega⟩
    rw [run_bind_of_ok hrun, run_get_bind, hshrink]
    rfl

end RusticOs.Sdk.Allocator
