import RusticOs.Kernel.Frames
import RusticOs.Lib.Runs

/-!
# `RusticOs.Proofs.Frames`: the frame allocator keeps its books

* `validateMap_spec`: a map that passes is ordered and without overflow;
* `Sound`: handed out frames are managed, the two counters count, every managed frame has an
  address;
* one `_cases` lemma for each call: all it can do;
* `frame_allocator_laws`: the books after a map was imported and any calls.
-/

set_option autoImplicit false

namespace RusticOs.Kernel

open RusticOs.Lib RusticOs.Lib.Fallible
open Bitmap (setAll get_setAll set indices get_zero get_set)
open RusticOs.Fs (checkedAdd checkedAdd_eq_some)

/-! ### Pages and addresses -/

theorem toNat_pageSize : PAGE_SIZE.toNat = 4096 := rfl

theorem toNat_div_page (x : UInt64) : (x / PAGE_SIZE).toNat = x.toNat / 4096 := by
  rw [UInt64.toNat_div]
  rfl

theorem toNat_pagesUp (x : UInt64) : (pagesUp x).toNat = (x.toNat + 4095) / 4096 := by
  have hlt := x.toNat_lt
  have hmod : (x % PAGE_SIZE).toNat = x.toNat % 4096 := by
    rw [UInt64.toNat_mod]
    rfl
  unfold pagesUp
  split
  · rename_i hzero
    rw [hzero, UInt64.toNat_zero] at hmod
    rw [toNat_div_page]
    omega
  · rename_i hne
    have hpos : x.toNat % 4096 ≠ 0 := fun h => hne (UInt64.toNat_inj.mp (hmod.trans h))
    rw [UInt64.toNat_add, toNat_div_page, UInt64.toNat_one, Nat.mod_eq_of_lt (by omega)]
    omega

namespace FrameAllocator

/-- The bytes from `start` on touch page `i`. -/
def Touches (start length : UInt64) (i : Nat) : Prop :=
  start.toNat < (i + 1) * 4096 ∧ i * 4096 < start.toNat + length.toNat

/-- Page `i` lies wholly inside a usable entry. -/
def Usable (entries : List MapEntry) (i : Nat) : Prop :=
  ∃ entry ∈ entries, entry.2.2 = true ∧ entry.1.toNat ≤ i * 4096
    ∧ (i + 1) * 4096 ≤ entry.1.toNat + entry.2.1.toNat

theorem mem_range {first last : UInt64} {i : Nat} :
    i ∈ range first last ↔ first.toNat ≤ i ∧ i < last.toNat := by
  rw [range, List.mem_range'_1]
  omega

theorem nodup_range (first last : UInt64) : (range first last).Nodup := List.nodup_range'

theorem mem_wholePages {entry : MapEntry} (h : entry.1.toNat + entry.2.1.toNat < 2 ^ 64) {i : Nat} :
    i ∈ wholePages entry ↔ entry.1.toNat ≤ i * 4096
      ∧ (i + 1) * 4096 ≤ entry.1.toNat + entry.2.1.toNat := by
  rw [wholePages, mem_range, toNat_pagesUp, toNat_div_page, UInt64.toNat_add, Nat.mod_eq_of_lt h]
  omega

section
variable {n : Nat} (a : FrameAllocator n)

theorem toNat_frames_le : a.frames.toNat ≤ 64 * n := by
  have hle : (UInt64.ofNat n).toNat ≤ n := Nat.mod_le _ _
  have hmul : a.frames.toNat ≤ (UInt64.ofNat n).toNat * 64 := by
    rw [frames, UInt64.toNat_mul]
    exact Nat.mod_le _ _
  omega

theorem toNat_addressLimit_le : a.addressLimit.toNat ≤ a.frames.toNat * 4096 := by
  rw [addressLimit, UInt64.toNat_mul]
  exact Nat.mod_le _ _

end

end FrameAllocator

/-! ### The firmware map -/

/-- An entry that begins at or after `before` and ends within the words. -/
structure EntryFrom (before : Nat) (entry : MapEntry) : Prop where
  ordered : before ≤ entry.1.toNat
  nonempty : 0 < entry.2.1.toNat
  ends : entry.1.toNat + entry.2.1.toNat < 2 ^ 64

/-- Entries in order, from `before` on. -/
def Ordered : Nat → List MapEntry → Prop
  | _, [] => True
  | before, entry :: rest =>
    EntryFrom before entry ∧ Ordered (entry.1.toNat + entry.2.1.toNat) rest

theorem validateEntry_ok {s t : MapSummary × UInt64} {entry : MapEntry}
    (h : validateEntry s entry = .ok t) :
    EntryFrom s.2.toNat entry ∧ t.2.toNat = entry.1.toNat + entry.2.1.toNat := by
  simp only [validateEntry, except_bind_eq_ok, reject_eq_ok] at h
  obtain ⟨_, -, region, hregion, _, hordered, bytes, -, h⟩ := h
  cases h
  obtain ⟨r, hr, hsame⟩ : ∃ r, MemoryRegion.new entry.1 entry.2.1 = .ok r ∧ r = region := by
    cases hr : MemoryRegion.new entry.1 entry.2.1 with
    | error e =>
      rw [hr] at hregion
      cases hregion
    | ok r =>
      rw [hr] at hregion
      exact ⟨r, rfl, Except.ok.inj hregion⟩
  subst hsame
  unfold MemoryRegion.new at hr
  split at hr
  · cases hr
  · rename_i hne
    split at hr
    · rename_i stop hstop
      obtain rfl := Except.ok.inj hr
      have hsum := checkedAdd_eq_some.mp hstop
      refine ⟨⟨?_, ?_, ?_⟩, hsum.symm⟩
      · rw [UInt64.not_lt, UInt64.le_iff_toNat_le] at hordered
        exact hordered
      · rw [Nat.pos_iff_ne_zero]
        exact fun hzero => hne (UInt64.toNat_inj.mp hzero)
      · rw [hsum]
        exact stop.toNat_lt
    · cases hr

theorem foldlM_validateEntry_ok {s t : MapSummary × UInt64} {entries : List MapEntry}
    (h : entries.foldlM validateEntry s = .ok t) : Ordered s.2.toNat entries := by
  induction entries generalizing s with
  | nil => trivial
  | cons entry rest ih =>
    rw [List.foldlM_cons] at h
    obtain ⟨next, hnext, h⟩ := except_bind_eq_ok.mp h
    obtain ⟨hentry, hstop⟩ := validateEntry_ok hnext
    have hrest := ih h
    rw [hstop] at hrest
    exact ⟨hentry, hrest⟩

/-- A map that passes the check is ordered. -/
theorem validateMap_spec {entries : List MapEntry} {summary : MapSummary}
    (h : validateMap entries = .ok summary) : Ordered 0 entries := by
  obtain ⟨s, hs, -⟩ := except_bind_eq_ok.mp h
  exact foldlM_validateEntry_ok hs

theorem Ordered.entry {before : Nat} {entries : List MapEntry} (h : Ordered before entries)
    {entry : MapEntry} (hmem : entry ∈ entries) : EntryFrom before entry := by
  induction entries generalizing before with
  | nil => cases hmem
  | cons head rest ih =>
    rcases List.mem_cons.mp hmem with rfl | hmem
    · exact h.1
    · have hfrom := ih h.2 hmem
      have hhead := h.1.ordered
      exact ⟨by have := hfrom.ordered; omega, hfrom.nonempty, hfrom.ends⟩

namespace FrameAllocator

/-! ### The books -/

section
variable {n : Nat} {a : FrameAllocator n}

/-- The frames that are managed and not handed out. -/
def freeSet (a : FrameAllocator n) : Finset Nat :=
  (Finset.range (64 * n)).filter fun i => a.isFree i = true

theorem isFree_iff {i : Nat} : a.isFree i = true
    ↔ Bitmap.get a.managed i = true ∧ Bitmap.get a.allocated i = false := by
  simp [isFree]

/-- The books of an allocator. -/
structure Sound (a : FrameAllocator n) : Prop where
  subset : ∀ i, Bitmap.get a.allocated i = true → Bitmap.get a.managed i = true
  free : a.free = a.freeSet.card
  total : a.total = (indices a.managed true).card
  located : ∀ i, Bitmap.get a.managed i = true → (i + 1) * 4096 ≤ a.addressLimit.toNat

theorem get_lt {m : Vector UInt64 n} {i : Nat} (h : Bitmap.get m i = true) : i < 64 * n := by
  by_contra hle
  rw [Bitmap.get_of_le (Nat.not_lt.mp hle)] at h
  cases h

theorem mem_freeSet {i : Nat} : i ∈ a.freeSet ↔ a.isFree i = true := by
  rw [freeSet, Finset.mem_filter, Finset.mem_range, and_iff_right_iff_imp]
  exact fun h => get_lt (isFree_iff.mp h).1

/-- A managed frame has a bit, and its address is a word. -/
theorem Sound.frame (h : a.Sound) {i : Nat} (hi : Bitmap.get a.managed i = true) :
    i < a.frames.toNat ∧ i * 4096 < 2 ^ 64 := by
  have hle := h.located i hi
  have hlimit := toNat_addressLimit_le a
  have hlt := a.addressLimit.toNat_lt
  omega

end

/-! ### Importing a map -/

section
variable {n : Nat}

/-- What was imported: the usable pages of the entries so far, all below `before`. -/
structure Imported (a : FrameAllocator n) (entries : List MapEntry) (before : Nat) : Prop where
  none : ∀ i, Bitmap.get a.allocated i = false
  managed : ∀ i, Bitmap.get a.managed i = true ↔ Usable entries i
  free : a.free = (indices a.managed true).card
  total : a.total = (indices a.managed true).card
  below : ∀ i, Bitmap.get a.managed i = true → (i + 1) * 4096 ≤ before

theorem usable_append {done : List MapEntry} {entry : MapEntry} {i : Nat} :
    Usable (done ++ [entry]) i ↔ Usable done i ∨ (entry.2.2 = true ∧ entry.1.toNat ≤ i * 4096
      ∧ (i + 1) * 4096 ≤ entry.1.toNat + entry.2.1.toNat) := by
  simp only [Usable, List.mem_append, List.mem_singleton]
  constructor
  · rintro ⟨e, he | rfl, hrest⟩
    · exact Or.inl ⟨e, he, hrest⟩
    · exact Or.inr hrest
  · rintro (⟨e, he, hrest⟩ | hrest)
    · exact ⟨e, Or.inl he, hrest⟩
    · exact ⟨entry, Or.inr rfl, hrest⟩

theorem Imported.entry {a : FrameAllocator n} {done : List MapEntry} {before : Nat}
    (h : Imported a done before) {entry : MapEntry} (he : EntryFrom before entry)
    (hlimit : entry.2.2 = true → entry.1.toNat + entry.2.1.toNat ≤ 64 * n * 4096) :
    Imported (a.importEntry entry) (done ++ [entry]) (entry.1.toNat + entry.2.1.toNat) := by
  have hordered := he.ordered
  cases husable : entry.2.2 with
  | false =>
    have hsame : a.importEntry entry = a := by simp [importEntry, husable]
    rw [hsame]
    refine ⟨h.none, fun i => ?_, h.free, h.total, fun i hi => ?_⟩
    · rw [h.managed i, usable_append, husable]
      simp
    · have := h.below i hi
      omega
  | true =>
    have hpages : ∀ {i : Nat}, i ∈ wholePages entry ↔ _ := mem_wholePages he.ends
    have hinside : ∀ i ∈ wholePages entry, i < 64 * n := by
      intro i hi
      have := hpages.mp hi
      have := hlimit husable
      omega
    -- pages that were imported before end before this entry begins
    have hnew : ∀ i ∈ wholePages entry, i < 64 * n ∧ Bitmap.get a.managed i = !true := by
      intro i hi
      refine ⟨hinside i hi, ?_⟩
      rw [Bool.not_true, ← Bool.not_eq_true]
      intro hset
      have := h.below i hset
      have := hpages.mp hi
      omega
    have hcard := Bitmap.card_setAll_same a.managed true (nodup_range _ _) hnew
    have himport : a.importEntry entry
        = { a with managed := setAll a.managed (wholePages entry) true
                   free := a.free + (wholePages entry).length
                   total := a.total + (wholePages entry).length } := if_pos husable
    rw [himport]
    refine ⟨h.none, fun i => ?_, ?_, ?_, fun i hi => ?_⟩
    · show Bitmap.get (setAll a.managed (wholePages entry) true) i = true ↔ _
      rw [get_setAll _ hinside, usable_append, ← h.managed i, husable, ← hpages]
      by_cases hi : i ∈ wholePages entry
      · simp [hi]
      · simp [hi]
    · rw [h.free]
      exact hcard.symm
    · rw [h.total]
      exact hcard.symm
    · change Bitmap.get (setAll a.managed (wholePages entry) true) i = true at hi
      rw [get_setAll _ hinside] at hi
      split at hi
      · rename_i hmem
        exact (hpages.mp hmem).2
      · have := h.below i hi
        omega

theorem Imported.entries {a : FrameAllocator n} {done entries : List MapEntry} {before : Nat}
    (h : Imported a done before) (hordered : Ordered before entries)
    (hlimit : ∀ entry ∈ entries, entry.2.2 = true →
      entry.1.toNat + entry.2.1.toNat ≤ 64 * n * 4096) :
    ∃ last, Imported (entries.foldl importEntry a) (done ++ entries) last := by
  induction entries generalizing a done before with
  | nil =>
    rw [List.append_nil]
    exact ⟨before, h⟩
  | cons entry rest ih =>
    have hnext := ih (h.entry hordered.1 (hlimit entry List.mem_cons_self)) hordered.2
      fun e he => hlimit e (List.mem_cons_of_mem _ he)
    rwa [List.append_assoc] at hnext

/-- All an import can do. -/
inductive Importing (a : FrameAllocator n) (entries : List MapEntry) :
    Except FrameError Unit × FrameAllocator n → Prop where
  | refused (e : FrameError) : Importing a entries (.error e, a)
  | imported (ordered : Ordered 0 entries) (within : ∀ entry ∈ entries, a.pastLimit entry = false) :
      Importing a entries (.ok (), entries.foldl importEntry a)

theorem importMap_cases (a : FrameAllocator n) (entries : List MapEntry) :
    Importing a entries ((importMap entries).run a) := by
  unfold importMap
  rw [run_get_bind]
  by_cases hused : a.total ≠ 0
  · rw [run_refuse_bind_of hused]
    exact .refused _
  rw [run_refuse_bind_of_not hused]
  cases hvalid : validateMap entries with
  | error e => exact .refused _
  | ok summary =>
    show Importing a entries ((Fallible.refuse (entries.any a.pastLimit = true)
      FrameError.addressLimit >>= _).run a)
    by_cases hpast : entries.any a.pastLimit = true
    · rw [run_refuse_bind_of hpast]
      exact .refused _
    · rw [run_refuse_bind_of_not hpast]
      refine .imported (validateMap_spec hvalid) fun entry hmem => ?_
      rw [← Bool.not_eq_true]
      exact fun htrue => hpast (List.any_eq_true.mpr ⟨entry, hmem, htrue⟩)

/-- A usable entry that is not past the limit ends at or before it. -/
theorem ends_of_pastLimit {a : FrameAllocator n} {entry : MapEntry} {before : Nat}
    (he : EntryFrom before entry) (h : a.pastLimit entry = false) (husable : entry.2.2 = true) :
    entry.1.toNat + entry.2.1.toNat ≤ a.addressLimit.toNat := by
  have hsum : checkedAdd entry.1 entry.2.1 = some (entry.1 + entry.2.1) := by
    rw [checkedAdd_eq_some, UInt64.toNat_add, Nat.mod_eq_of_lt he.ends]
  rw [pastLimit, husable, Bool.true_and, hsum, Option.all_some, decide_eq_false_iff_not, gt_iff_lt,
    UInt64.not_lt, UInt64.le_iff_toNat_le, UInt64.toNat_add, Nat.mod_eq_of_lt he.ends] at h
  exact h

end

/-- The books after a map was imported into a new allocator. -/
theorem importMap_sound {managed allocated : List UInt64} {entries : List MapEntry}
    {start booted : FrameAllocator managed.length} (hnew : new managed allocated = .ok start)
    (himport : (importMap entries).run start = (.ok (), booted)) :
    booted.Sound ∧ (∀ i, Bitmap.get booted.managed i = true ↔ Usable entries i)
      ∧ ∀ i, Bitmap.get booted.allocated i = false := by
  have hstart : Imported start [] 0 := by
    unfold new at hnew
    split at hnew
    · cases hnew
    · obtain rfl := Except.ok.inj hnew
      have hempty : (indices (Vector.replicate managed.length 0) true).card = 0 := by
        rw [Finset.card_eq_zero, Finset.eq_empty_iff_forall_notMem]
        intro i hi
        have hset := (Bitmap.mem_indices.mp hi).2
        rw [get_zero] at hset
        cases hset
      refine ⟨get_zero, fun i => ?_, hempty.symm, hempty.symm, fun i hi => ?_⟩
      · show Bitmap.get (Vector.replicate managed.length 0) i = true ↔ _
        rw [get_zero]
        simp [Usable]
      · change Bitmap.get (Vector.replicate managed.length 0) i = true at hi
        rw [get_zero] at hi
        cases hi
  have hcases := importMap_cases start entries
  rw [himport] at hcases
  obtain _ | ⟨hordered, hpast⟩ := hcases
  have hends : ∀ entry ∈ entries, entry.2.2 = true →
      entry.1.toNat + entry.2.1.toNat ≤ start.addressLimit.toNat := fun entry hmem husable =>
    ends_of_pastLimit (hordered.entry hmem) (hpast entry hmem) husable
  obtain ⟨last, himported⟩ := hstart.entries hordered fun entry hmem husable => by
    have hlimit := toNat_addressLimit_le start
    have hframes := toNat_frames_le start
    have := hends entry hmem husable
    omega
  rw [List.nil_append] at himported
  refine ⟨⟨fun i hi => ?_, ?_, himported.total, fun i hi => ?_⟩, himported.managed, himported.none⟩
  · rw [himported.none i] at hi
    cases hi
  · have hset : (entries.foldl importEntry start).freeSet
        = indices (entries.foldl importEntry start).managed true := by
      ext i
      rw [mem_freeSet, isFree_iff, Bitmap.mem_indices, himported.none i]
      exact ⟨fun h => ⟨get_lt h.1, h.1⟩, fun h => ⟨h.2, rfl⟩⟩
    rw [hset]
    exact himported.free
  · obtain ⟨entry, hmem, husable, -, hstop⟩ := (himported.managed i).mp hi
    exact le_trans hstop (hends entry hmem husable)

/-! ### What each call can do -/

section
variable {n : Nat} {a : FrameAllocator n}

/-- All a reservation can do. -/
inductive Reserved (a : FrameAllocator n) (start length : UInt64) :
    Except FrameError Unit × FrameAllocator n → Prop where
  | refused (e : FrameError) : Reserved a start length (.error e, a)
  | reserved {held : List Nat} (untouched : ∀ i, Touches start length i →
        Bitmap.get a.allocated i = false)
      (nodup : held.Nodup)
      (held_iff : ∀ i, i ∈ held ↔ Touches start length i ∧ Bitmap.get a.managed i = true) :
      Reserved a start length (.ok (), { a with
        managed := setAll a.managed held false
        free := a.free - held.length
        total := a.total - held.length })

theorem mem_touched {start stop length : UInt64} (h : start.toNat + length.toNat = stop.toNat)
    {i : Nat} : i ∈ a.touched start stop ↔ Touches start length i ∧ i < a.frames.toNat := by
  have hmin : (min (pagesUp stop) a.frames).toNat = min (pagesUp stop).toNat a.frames.toNat := by
    show (if pagesUp stop ≤ a.frames then pagesUp stop else a.frames).toNat = _
    by_cases hle : pagesUp stop ≤ a.frames
    · rw [if_pos hle, Nat.min_eq_left (UInt64.le_iff_toNat_le.mp hle)]
    · rw [if_neg hle, Nat.min_eq_right (by rw [UInt64.le_iff_toNat_le] at hle; omega)]
  rw [touched, mem_range, hmin, toNat_div_page, toNat_pagesUp, Touches, h]
  omega

theorem reserve_cases (hs : a.Sound) (start length : UInt64) :
    Reserved a start length ((reserve start length).run a) := by
  unfold reserve
  rw [run_get_bind]
  cases hstop : (checkedAdd start length).filter fun _ => length ≠ 0 with
  | none => exact .refused _
  | some stop =>
    obtain ⟨hsum, -⟩ := Option.filter_eq_some_iff.mp hstop
    have htouched := fun i => mem_touched (a := a) (checkedAdd_eq_some.mp hsum) (i := i)
    rw [orRefuse_some, lift_ok_bind]
    by_cases hused : ∃ frame ∈ a.touched start stop, Bitmap.get a.allocated frame = true
    · rw [run_refuse_bind_of hused]
      exact .refused _
    · rw [run_refuse_bind_of_not hused]
      refine .reserved (fun i hi => ?_) ((nodup_range _ _).filter _) fun i => ?_
      · rw [← Bool.not_eq_true]
        intro hset
        exact hused ⟨i, (htouched i).mpr ⟨hi, (hs.frame (hs.subset i hset)).1⟩, hset⟩
      · rw [List.mem_filter, htouched]
        constructor
        · exact fun h => ⟨h.1.1, h.2⟩
        · exact fun h => ⟨⟨h.1, (hs.frame h.2).1⟩, h.2⟩

/-- All an allocation of one frame can do. -/
inductive Handed (a : FrameAllocator n) :
    Except FrameError UInt64 × FrameAllocator n → Prop where
  | exhausted (none : a.free = 0) : Handed a (.error .exhausted, a)
  | handed {frame cursor : Nat} {address : UInt64} (some : a.free ≠ 0)
      (free : a.isFree frame = true)
      (addressed : address.toNat = frame * 4096) :
      Handed a (.ok address, { a with
        allocated := set a.allocated frame true, cursor, free := a.free - 1 })

theorem available_bit (index : Nat) {bit : Nat} (hbit : bit < 64) :
    wordBit (a.available index) bit = a.isFree (index * 64 + bit) := by
  have hdiv : (index * 64 + bit) / 64 = index := by omega
  have hmod : (index * 64 + bit) % 64 = bit := by omega
  rw [available, wordBit_and_not _ _ hbit, isFree, Bitmap.get, Bitmap.get, hdiv, hmod]

theorem scan_spec : (∃ index bit, a.scan = some (index, bit) ∧ index < n ∧ bit < 64
      ∧ a.isFree (index * 64 + bit) = true)
    ∨ a.scan = none ∧ ∀ i, a.isFree i = false := by
  cases hscan : a.scan with
  | some found =>
    obtain ⟨offset, hmem, hfound⟩ := List.exists_of_findSome?_eq_some hscan
    have hpos : 0 < n := Nat.zero_lt_of_lt (List.mem_range.mp hmem)
    dsimp only at hfound
    split at hfound
    · rename_i hsome
      obtain rfl := Option.some.inj hfound
      have hindex : (a.cursor + offset) % n < n := Nat.mod_lt _ hpos
      obtain ⟨hbit, hset⟩ := trailingZeros_spec hsome
      rw [available_bit _ hbit] at hset
      exact Or.inl ⟨_, _, rfl, hindex, hbit, hset⟩
    · cases hfound
  | none =>
    refine Or.inr ⟨rfl, fun i => ?_⟩
    rw [← Bool.not_eq_true]
    intro hfree
    have hlt := get_lt (isFree_iff.mp hfree).1
    have hindex : i / 64 < n := by omega
    -- the scan has passed over the word of `i`
    obtain ⟨offset, hoffset, hword⟩ : ∃ offset < n, (a.cursor + offset) % n = i / 64 := by
      have hcursor := Nat.mod_lt a.cursor (show 0 < n by omega)
      by_cases hle : a.cursor % n ≤ i / 64
      · refine ⟨i / 64 - a.cursor % n, by omega, ?_⟩
        rw [← Nat.mod_add_mod, Nat.add_sub_of_le hle, Nat.mod_eq_of_lt hindex]
      · refine ⟨i / 64 + n - a.cursor % n, by omega, ?_⟩
        rw [← Nat.mod_add_mod, Nat.add_sub_of_le (by omega), Nat.add_mod_right,
          Nat.mod_eq_of_lt hindex]
    have hnone := List.findSome?_eq_none_iff.mp hscan offset (List.mem_range.mpr hoffset)
    dsimp only at hnone
    rw [hword] at hnone
    split at hnone
    · cases hnone
    · rename_i hzero
      have hbit := available_bit (a := a) (i / 64) (Nat.mod_lt i (by decide : 0 < 64))
      rw [not_not.mp hzero, Nat.div_add_mod' i 64, hfree] at hbit
      simp [wordBit] at hbit

theorem allocate_cases (hs : a.Sound) : Handed a (allocate.run a) := by
  unfold allocate
  rw [run_get_bind]
  by_cases hnone : a.free = 0
  · rw [if_pos hnone]
    exact .exhausted hnone
  · rw [if_neg hnone]
    rcases scan_spec (a := a) with ⟨index, bit, hscan, hindex, hbit, hfree⟩ | ⟨-, hall⟩
    · rw [hscan]
      refine .handed hnone hfree ?_
      obtain ⟨-, hlt⟩ := hs.frame (isFree_iff.mp hfree).1
      have hindex64 : (UInt64.ofNat index).toNat = index :=
        UInt64.toNat_ofNat_of_lt' (by show _ < 2 ^ 64; omega)
      have hbit64 : (UInt64.ofNat bit).toNat = bit :=
        UInt64.toNat_ofNat_of_lt' (by show _ < 2 ^ 64; omega)
      have hword : (64 : UInt64).toNat = 64 := rfl
      rw [UInt64.toNat_mul, UInt64.toNat_add, UInt64.toNat_mul, hindex64, hbit64, hword,
        toNat_pageSize, Nat.mod_eq_of_lt (a := index * 64) (by omega),
        Nat.mod_eq_of_lt (a := index * 64 + bit) (by omega), Nat.mod_eq_of_lt hlt]
    · -- a free frame is counted, so the scan finds one
      refine absurd ?_ hnone
      rw [hs.free, Finset.card_eq_zero, Finset.eq_empty_iff_forall_notMem]
      intro i hi
      have := mem_freeSet.mp hi
      rw [hall i] at this
      cases this

/-- All an allocation of a run can do. -/
inductive HandedRun (a : FrameAllocator n) (count maximum : Nat) :
    Except FrameError UInt64 × FrameAllocator n → Prop where
  | invalid (bad : count = 0 ∨ count > maximum ∨ maximum > 128) :
      HandedRun a count maximum (.error .invalidRange, a)
  | exhausted (fits : ¬ (count = 0 ∨ count > maximum ∨ maximum > 128))
      (nowhere : ∀ first, ¬ IsRun a.isFree count first) :
      HandedRun a count maximum (.error .exhausted, a)
  | handed {first : Nat} {address : UInt64} (fits : ¬ (count = 0 ∨ count > maximum ∨ maximum > 128))
      (isRun : IsRun a.isFree count first) (least : ∀ t < first, ¬ IsRun a.isFree count t)
      (addressed : address.toNat = first * 4096) :
      HandedRun a count maximum (.ok address, { a with
        allocated := setAll a.allocated (List.range' first count) true
        free := a.free - count })

/-- A run of free frames lies within the bitmaps. -/
theorem isRun_inside {count first : Nat} (hpos : 0 < count) (h : IsRun a.isFree count first) :
    first + count ≤ 64 * n := by
  have := get_lt (isFree_iff.mp (h (count - 1) (by omega))).1
  omega

theorem contiguous_cases (hs : a.Sound) (count maximum : Nat) :
    HandedRun a count maximum ((allocateContiguousBounded count maximum).run a) := by
  unfold allocateContiguousBounded
  rw [run_get_bind]
  by_cases hbad : count = 0 ∨ count > maximum ∨ maximum > 128
  · rw [run_refuse_bind_of hbad]
    exact .invalid hbad
  · rw [run_refuse_bind_of_not hbad]
    have hpos : 0 < count := by omega
    have hfound := scanRun_spec (p := a.isFree) hpos (64 * n)
    generalize scanRun a.isFree count (64 * n) 0 0 = r at hfound
    cases hfound with
    | absent nowhere =>
      exact .exhausted hbad fun first hrun => nowhere first (isRun_inside hpos hrun) hrun
    | @lowest first inside isRun least =>
      refine .handed hbad isRun least ?_
      have hfirst := isRun 0 hpos
      rw [Nat.add_zero] at hfirst
      obtain ⟨-, hlt⟩ := hs.frame (isFree_iff.mp hfirst).1
      have hofNat : (UInt64.ofNat first).toNat = first :=
        UInt64.toNat_ofNat_of_lt' (by show _ < 2 ^ 64; omega)
      rw [UInt64.toNat_mul, hofNat, toNat_pageSize, Nat.mod_eq_of_lt hlt]

/-- All a release can do. -/
inductive TakenBack (a : FrameAllocator n) (address : UInt64) :
    Except FrameError Unit × FrameAllocator n → Prop where
  | refused (e : FrameError) : TakenBack a address (.error e, a)
  | taken {frame cursor : Nat} (held : Bitmap.get a.allocated frame = true)
      (addressed : address.toNat / 4096 = frame) :
      TakenBack a address (.ok (), { a with
        allocated := set a.allocated frame false, free := a.free + 1, cursor })

theorem release_cases (address : UInt64) : TakenBack a address ((release address).run a) := by
  unfold release
  rw [run_get_bind]
  cases hlocate : a.locate address with
  | error e => exact .refused e
  | ok frame =>
    rw [lift_ok_bind]
    have hframe : address.toNat / 4096 = frame := by
      unfold locate at hlocate
      split at hlocate
      · cases hlocate
      · split at hlocate
        · cases hlocate
        · rw [← toNat_div_page]
          exact Except.ok.inj hlocate
    by_cases hmanaged : ¬ Bitmap.get a.managed frame
    · rw [run_refuse_bind_of hmanaged]
      exact .refused _
    · rw [run_refuse_bind_of_not hmanaged]
      by_cases hallocated : ¬ Bitmap.get a.allocated frame
      · rw [run_refuse_bind_of hallocated]
        exact .refused _
      · rw [run_refuse_bind_of_not hallocated]
        exact .taken (not_not.mp hallocated) hframe

end

/-! ### The books are kept -/

section
variable {n : Nat} {a : FrameAllocator n}

theorem Sound.card_sdiff (h : a.Sound) {is : List Nat} (hnodup : is.Nodup)
    (hfree : ∀ i ∈ is, a.isFree i = true) :
    (a.freeSet \ is.toFinset).card = a.free - is.length := by
  have hsubset : is.toFinset ⊆ a.freeSet := fun i hi =>
    mem_freeSet.mpr (hfree i (List.mem_toFinset.mp hi))
  rw [Finset.card_sdiff_of_subset hsubset, List.toFinset_card_of_nodup hnodup, ← h.free]

/-- Handing out free frames. -/
theorem Sound.hand (h : a.Sound) {is : List Nat} (hnodup : is.Nodup)
    (hfree : ∀ i ∈ is, a.isFree i = true) (cursor : Nat) :
    Sound { a with allocated := setAll a.allocated is true
                   cursor, free := a.free - is.length } := by
  have hinside : ∀ i ∈ is, i < 64 * n := fun i hi => get_lt (isFree_iff.mp (hfree i hi)).1
  refine ⟨fun i hi => ?_, ?_, h.total, h.located⟩
  · change Bitmap.get (setAll a.allocated is true) i = true at hi
    rw [get_setAll _ hinside] at hi
    split at hi
    · rename_i hmem
      exact (isFree_iff.mp (hfree i hmem)).1
    · exact h.subset i hi
  · have hset : FrameAllocator.freeSet { a with
        allocated := setAll a.allocated is true, cursor, free := a.free - is.length }
        = a.freeSet \ is.toFinset := by
      ext i
      rw [mem_freeSet, Finset.mem_sdiff, mem_freeSet, List.mem_toFinset, isFree_iff, isFree_iff]
      show _ ∧ Bitmap.get (setAll a.allocated is true) i = false ↔ _
      rw [get_setAll _ hinside]
      by_cases hi : i ∈ is
      · simp [hi]
      · simp [hi]
    rw [hset, h.card_sdiff hnodup hfree]

/-- Taking a frame back. -/
theorem Sound.take (h : a.Sound) {frame : Nat} (hheld : Bitmap.get a.allocated frame = true)
    (cursor : Nat) : Sound { a with
      allocated := set a.allocated frame false, free := a.free + 1, cursor } := by
  have hlt := get_lt hheld
  refine ⟨fun i hi => ?_, ?_, h.total, h.located⟩
  · change Bitmap.get (set a.allocated frame false) i = true at hi
    rw [get_set _ hlt] at hi
    split at hi
    · cases hi
    · exact h.subset i hi
  · have hset : FrameAllocator.freeSet { a with
        allocated := set a.allocated frame false, free := a.free + 1, cursor }
        = insert frame a.freeSet := by
      ext i
      rw [mem_freeSet, Finset.mem_insert, mem_freeSet, isFree_iff, isFree_iff]
      show _ ∧ Bitmap.get (set a.allocated frame false) i = false ↔ _
      rw [get_set _ hlt]
      by_cases hi : frame = i
      · subst hi
        simp [h.subset frame hheld]
      · simp [hi, Ne.symm hi]
    have hnot : frame ∉ a.freeSet := by
      rw [mem_freeSet, isFree_iff, hheld]
      exact fun hf => nomatch hf.2
    rw [hset, Finset.card_insert_of_notMem hnot, ← h.free]

/-- Giving up managed frames that are not handed out. -/
theorem Sound.giveUp (h : a.Sound) {held : List Nat} (hnodup : held.Nodup)
    (hfree : ∀ i ∈ held, a.isFree i = true) : Sound { a with
      managed := setAll a.managed held false
      free := a.free - held.length
      total := a.total - held.length } := by
  have hmanaged : ∀ i ∈ held, i < 64 * n ∧ Bitmap.get a.managed i = !false := fun i hi =>
    ⟨get_lt (isFree_iff.mp (hfree i hi)).1, (isFree_iff.mp (hfree i hi)).1⟩
  have hinside : ∀ i ∈ held, i < 64 * n := fun i hi => (hmanaged i hi).1
  refine ⟨fun i hi => ?_, ?_, ?_, fun i hi => ?_⟩
  · show Bitmap.get (setAll a.managed held false) i = true
    rw [get_setAll _ hinside, if_neg, h.subset i hi]
    intro hmem
    rw [(isFree_iff.mp (hfree i hmem)).2] at hi
    cases hi
  · have hset : FrameAllocator.freeSet { a with
        managed := setAll a.managed held false
        free := a.free - held.length
        total := a.total - held.length } = a.freeSet \ held.toFinset := by
      ext i
      rw [mem_freeSet, Finset.mem_sdiff, mem_freeSet, List.mem_toFinset, isFree_iff, isFree_iff]
      show Bitmap.get (setAll a.managed held false) i = true ∧ _ ↔ _
      rw [get_setAll _ hinside]
      by_cases hi : i ∈ held
      · simp [hi]
      · simp [hi]
    rw [hset, h.card_sdiff hnodup hfree]
  · have hcard := Bitmap.card_setAll_other a.managed false hnodup hmanaged
    rw [Bool.not_false, ← h.total] at hcard
    exact Nat.sub_eq_of_eq_add hcard.symm
  · change Bitmap.get (setAll a.managed held false) i = true at hi
    rw [get_setAll _ hinside] at hi
    split at hi
    · cases hi
    · exact h.located i hi

end

/-! ### Calls and what they have returned -/

/-- What an observer of the calls knows: the pages that were reserved, and the frames that were
handed out and not taken back since. -/
structure Ledger where
  reserved : Set Nat
  held : Set Nat

/-- The ledger after a call and its answer. -/
def Ledger.note (g : Ledger) : Call → Answer → Ledger
  | .reserve start length, .ok _ =>
    { g with reserved := g.reserved ∪ {i | Touches start length i} }
  | .allocate, .ok (some address) => { g with held := g.held ∪ {address.toNat / 4096} }
  | .allocateContiguousBounded count _, .ok (some address) =>
    { g with held := g.held ∪
        Set.Ico (address.toNat / 4096) (address.toNat / 4096 + count) }
  | .release address, .ok _ => { g with held := g.held \ {address.toNat / 4096} }
  | _, _ => g

/-- An allocator with its ledger, after one call. -/
def follow {n : Nat} (s : FrameAllocator n × Ledger) (call : Call) : FrameAllocator n × Ledger :=
  ((s.1.step call).1, s.2.note call (s.1.step call).2)

/-- The allocator agrees with the map it imported and with the ledger. -/
structure Agrees {n : Nat} (entries : List MapEntry) (s : FrameAllocator n × Ledger) : Prop where
  sound : s.1.Sound
  managed : ∀ i, Bitmap.get s.1.managed i = true ↔ Usable entries i ∧ i ∉ s.2.reserved
  held : ∀ i, i ∈ s.2.held ↔ Bitmap.get s.1.allocated i = true

section
variable {n : Nat} {a : FrameAllocator n} {entries : List MapEntry} {g : Ledger}

theorem Agrees.hand (h : Agrees entries (a, g)) {first count : Nat}
    (hrun : IsRun a.isFree count first) (cursor : Nat) : Agrees entries
      ({ a with allocated := setAll a.allocated (List.range' first count) true
                cursor, free := a.free - count },
        { g with held := g.held ∪ Set.Ico first (first + count) }) := by
  have hmem : ∀ i, i ∈ List.range' first count ↔ first ≤ i ∧ i < first + count := fun i =>
    List.mem_range'_1
  have hfree : ∀ i ∈ List.range' first count, a.isFree i = true := by
    intro i hi
    rw [hmem] at hi
    have := hrun (i - first) (by omega)
    rwa [show first + (i - first) = i by omega] at this
  have hsound := h.sound.hand List.nodup_range' hfree cursor
  rw [List.length_range'] at hsound
  refine ⟨hsound, h.managed, fun i => ?_⟩
  show i ∈ g.held ∪ _
    ↔ Bitmap.get (setAll a.allocated (List.range' first count) true) i = true
  rw [get_setAll _ fun j hj => get_lt (isFree_iff.mp (hfree j hj)).1, Set.mem_union,
    h.held i, Set.mem_Ico, ← hmem]
  by_cases hi : i ∈ List.range' first count
  · simp [hi]
  · simp [hi]

/-- One call keeps the agreement. -/
theorem Agrees.step (h : Agrees entries (a, g)) (call : Call) :
    Agrees entries (follow (a, g) call) := by
  cases call with
  | reserve start length =>
    have hcases := reserve_cases h.sound start length
    rw [follow, FrameAllocator.step]
    generalize (reserve start length).run a = r at hcases
    cases hcases with
    | refused e => exact h
    | @reserved held untouched nodup held_iff =>
      have hfree : ∀ i ∈ held, a.isFree i = true := fun i hi =>
        isFree_iff.mpr ⟨((held_iff i).mp hi).2, untouched i ((held_iff i).mp hi).1⟩
      refine ⟨h.sound.giveUp nodup hfree, fun i => ?_, h.held⟩
      show Bitmap.get (setAll a.managed held false) i = true
        ↔ _ ∧ i ∉ g.reserved ∪ {i | Touches start length i}
      have hmanaged := h.managed i
      dsimp only at hmanaged
      rw [get_setAll _ fun j hj => get_lt (isFree_iff.mp (hfree j hj)).1, Set.mem_union,
        Set.mem_ofPred_eq]
      -- a page that is touched and was managed is among those given up
      by_cases hi : i ∈ held
      · simp [hi, ((held_iff i).mp hi).1]
      · rw [if_neg hi, hmanaged]
        have hnot : Usable entries i ∧ i ∉ g.reserved → ¬ Touches start length i :=
          fun hu ht => hi ((held_iff i).mpr ⟨ht, hmanaged.mpr hu⟩)
        tauto
  | allocate =>
    have hcases := allocate_cases h.sound
    rw [follow, FrameAllocator.step]
    generalize (allocate : Fallible FrameError (FrameAllocator n) UInt64).run a = r at hcases
    cases hcases with
    | exhausted none => exact h
    | @handed frame cursor address some free addressed =>
      have hframe : address.toNat / 4096 = frame := by
        rw [addressed]
        exact Nat.mul_div_cancel _ (by decide)
      have hone : IsRun a.isFree 1 frame := fun j hj => by
        obtain rfl : j = 0 := by omega
        exact free
      have hnext := h.hand hone cursor
      have hset : g.held ∪ Set.Ico frame (frame + 1) = g.held ∪ {address.toNat / 4096} := by
        rw [hframe]
        congr 1
        ext i
        rw [Set.mem_Ico, Set.mem_singleton_iff]
        omega
      rw [hset] at hnext
      exact hnext
  | allocateContiguousBounded count maximum =>
    have hcases := contiguous_cases h.sound count maximum
    rw [follow, FrameAllocator.step]
    generalize (allocateContiguousBounded count maximum).run a = r at hcases
    cases hcases with
    | invalid bad => exact h
    | exhausted fits nowhere => exact h
    | @handed first address fits isRun least addressed =>
      have hfirst : address.toNat / 4096 = first := by
        rw [addressed]
        exact Nat.mul_div_cancel _ (by decide)
      have hnext := h.hand isRun a.cursor
      rw [← hfirst] at hnext ⊢
      exact hnext
  | release address =>
    have hcases := release_cases (a := a) address
    rw [follow, FrameAllocator.step]
    generalize (release address).run a = r at hcases
    cases hcases with
    | refused e => exact h
    | @taken frame cursor held addressed =>
      refine ⟨h.sound.take held cursor, h.managed, fun i => ?_⟩
      show i ∈ g.held \ {address.toNat / 4096}
        ↔ Bitmap.get (set a.allocated frame false) i = true
      rw [get_set _ (get_lt held), Set.mem_sdiff, h.held i, Set.mem_singleton_iff,
        addressed]
      by_cases hi : frame = i
      · simp [hi]
      · simp [hi, Ne.symm hi]

theorem Agrees.run {s : FrameAllocator n × Ledger} (h : Agrees entries s) (calls : List Call) :
    Agrees entries (RusticOs.Lib.run follow s calls) := by
  induction calls generalizing s with
  | nil => exact h
  | cons call calls ih => exact ih (h.step call)

/-- A refused call changes nothing. -/
theorem step_refused (hs : a.Sound) {call : Call} {e : FrameError}
    (h : (a.step call).2 = .error e) : (a.step call).1 = a := by
  cases call with
  | reserve start length =>
    have hcases := reserve_cases hs start length
    rw [FrameAllocator.step] at h ⊢
    generalize (reserve start length).run a = r at hcases h
    cases hcases with
    | refused e => rfl
    | reserved untouched nodup held_iff => cases h
  | allocate =>
    have hcases := allocate_cases hs
    rw [FrameAllocator.step] at h ⊢
    generalize (allocate : Fallible FrameError (FrameAllocator n) UInt64).run a = r at hcases h
    cases hcases with
    | exhausted none => rfl
    | handed some free addressed => cases h
  | allocateContiguousBounded count maximum =>
    have hcases := contiguous_cases hs count maximum
    rw [FrameAllocator.step] at h ⊢
    generalize (allocateContiguousBounded count maximum).run a = r at hcases h
    cases hcases with
    | invalid bad => rfl
    | exhausted fits nowhere => rfl
    | handed fits isRun least addressed => cases h
  | release address =>
    have hcases := release_cases (a := a) address
    rw [FrameAllocator.step] at h ⊢
    generalize (release address).run a = r at hcases h
    cases hcases with
    | refused e => rfl
    | taken held addressed => cases h

end

/-! ### The laws of the allocator -/

/-- A request for a run that is refused whatever is free. -/
def OutOfBounds (count maximum : Nat) : Prop := count = 0 ∨ count > maximum ∨ maximum > 128

/-- What holds of an allocator that has imported `entries`, with the ledger of its calls since. -/
structure Laws {n : Nat} (entries : List MapEntry) (a : FrameAllocator n) (g : Ledger) : Prop where
  subset : ∀ i, Bitmap.get a.allocated i = true → Bitmap.get a.managed i = true
  managed : ∀ i, Bitmap.get a.managed i = true ↔ Usable entries i ∧ i ∉ g.reserved
  free : a.free = a.freeSet.card
  total : a.total = (indices a.managed true).card
  exhausted : a.free = 0 → allocate.run a = (.error .exhausted, a)
  /-- A frame that is handed out is free, and was taken back since it was last handed out. -/
  handed : a.free ≠ 0 → ∃ frame address t, allocate.run a = (.ok address, t)
    ∧ address.toNat = frame * 4096 ∧ a.isFree frame = true ∧ frame ∉ g.held
  noRun : ∀ count maximum, ¬ OutOfBounds count maximum → (¬ ∃ first, IsRun a.isFree count first) →
    (allocateContiguousBounded count maximum).run a = (.error .exhausted, a)
  handedRun : ∀ count maximum, ¬ OutOfBounds count maximum → (∃ first, IsRun a.isFree count first) →
    ∃ first address t, (allocateContiguousBounded count maximum).run a = (.ok address, t)
      ∧ address.toNat = first * 4096 ∧ IsRun a.isFree count first
      ∧ (∀ other < first, ¬ IsRun a.isFree count other)
      ∧ ∀ i, first ≤ i → i < first + count → i ∉ g.held
  outOfBounds : ∀ count maximum, OutOfBounds count maximum →
    (allocateContiguousBounded count maximum).run a = (.error .invalidRange, a)
  refused : ∀ call e, (a.step call).2 = .error e → (a.step call).1 = a
  refusedImport : ∀ map e t, (importMap map).run a = (.error e, t) → t = a

/-- The frame allocator, after a new one has imported a map and answered any calls. -/
theorem frame_allocator_laws {managed allocated : List UInt64} {entries : List MapEntry}
    {start booted a : FrameAllocator managed.length} {g : Ledger}
    (hnew : new managed allocated = .ok start)
    (himport : (importMap entries).run start = (.ok (), booted)) (calls : List Call)
    (hs : (a, g) = run follow (booted, ⟨∅, ∅⟩) calls) : Laws entries a g := by
  obtain ⟨hsound, husable, hnone⟩ := importMap_sound hnew himport
  have hbooted : Agrees entries (booted, ⟨∅, ∅⟩) := by
    refine ⟨hsound, fun i => ?_, fun i => ?_⟩
    · show _ ↔ _ ∧ i ∉ (∅ : Set Nat)
      rw [husable i]
      simp
    · show i ∈ (∅ : Set Nat) ↔ Bitmap.get booted.allocated i = true
      rw [hnone i]
      simp
  have h : Agrees entries (a, g) := hs ▸ hbooted.run calls
  have hfresh : ∀ {i : Nat}, a.isFree i = true → i ∉ g.held := by
    intro i hfree hheld
    have hset := (h.held i).mp hheld
    rw [(isFree_iff.mp hfree).2] at hset
    cases hset
  have hallocate := allocate_cases h.sound
  have hrun := fun count maximum => contiguous_cases h.sound count maximum
  refine
    { subset := h.sound.subset, managed := h.managed, free := h.sound.free, total := h.sound.total
      exhausted := ?_, handed := ?_, noRun := ?_, handedRun := ?_, outOfBounds := ?_
      refused := fun call e => step_refused h.sound
      refusedImport := ?_ }
  · intro hzero
    generalize (allocate : Fallible FrameError (FrameAllocator managed.length) UInt64).run a = r
      at hallocate
    cases hallocate with
    | exhausted none => rfl
    | handed some free addressed => exact absurd hzero some
  · intro hpos
    generalize (allocate : Fallible FrameError (FrameAllocator managed.length) UInt64).run a = r
      at hallocate
    cases hallocate with
    | exhausted none => exact absurd none hpos
    | handed some free addressed => exact ⟨_, _, _, rfl, addressed, free, hfresh free⟩
  · intro count maximum hin hnowhere
    have hcases := hrun count maximum
    generalize (allocateContiguousBounded count maximum).run a = r at hcases
    cases hcases with
    | invalid bad => exact absurd bad hin
    | exhausted fits nowhere => rfl
    | handed fits isRun least addressed => exact absurd ⟨_, isRun⟩ hnowhere
  · rintro count maximum hin ⟨somewhere, hsome⟩
    have hcases := hrun count maximum
    generalize (allocateContiguousBounded count maximum).run a = r at hcases
    cases hcases with
    | invalid bad => exact absurd bad hin
    | exhausted fits nowhere => exact absurd hsome (nowhere somewhere)
    | @handed first address fits isRun least addressed =>
      refine ⟨first, address, _, rfl, addressed, isRun, least, fun i hle hlt => hfresh ?_⟩
      have hfree := isRun (i - first) (by omega)
      rwa [Nat.add_sub_of_le hle] at hfree
  · intro count maximum hout
    have hcases := hrun count maximum
    generalize (allocateContiguousBounded count maximum).run a = r at hcases
    cases hcases with
    | invalid bad => rfl
    | exhausted fits nowhere => exact absurd hout fits
    | handed fits isRun least addressed => exact absurd hout fits
  · intro map e t himport
    have hcases := importMap_cases a map
    rw [himport] at hcases
    cases hcases
    rfl

/-- A machine of sixteen pages, the first of which is not usable. -/
def sixteenPages : List MapEntry := [(0, 4096, false), (4096, 61440, true)]

/-- A frame handed out and taken back, a page given up, and four frames in a row. -/
def sixteenCalls : List Call :=
  [.allocate, .reserve 8192 4096, .allocateContiguousBounded 4 8, .release 4096]

theorem sixteenPages_booted : ∃ start booted : FrameAllocator [(0 : UInt64)].length,
    new [0] [0] = .ok start ∧ (importMap sixteenPages).run start = (.ok (), booted)
      ∧ (run follow (booted, ⟨∅, ∅⟩) sixteenCalls).1.free = 10 ∧ IsRun booted.isFree 5 1 := by
  refine ⟨_, _, rfl, rfl, by decide +kernel, ?_⟩
  intro j hj
  have hall : ∀ j < 5, (([(0, 4096, false), (4096, 61440, true)] : List MapEntry).foldl importEntry
      (⟨Vector.replicate 1 0, Vector.replicate 1 0, 0, 0, 0⟩ : FrameAllocator 1)).isFree (1 + j)
        = true := by
    decide +kernel
  exact hall j hj

theorem frame_allocator_laws_sixteenPages : ∃ start booted : FrameAllocator [(0 : UInt64)].length,
    new [0] [0] = .ok start ∧ (importMap sixteenPages).run start = (.ok (), booted)
      ∧ let s := run follow (booted, ⟨∅, ∅⟩) sixteenCalls
        s.1.free = 10 ∧ Laws sixteenPages s.1 s.2 := by
  obtain ⟨start, booted, hnew, himport, hfree, -⟩ := sixteenPages_booted
  exact ⟨start, booted, hnew, himport, hfree, frame_allocator_laws hnew himport sixteenCalls rfl⟩

/-- Five free frames in a row, and a request for five of them that is refused: the caller's bound is
four. -/
theorem contiguous_bound : ∃ start booted : FrameAllocator [(0 : UInt64)].length,
    new [0] [0] = .ok start ∧ (importMap sixteenPages).run start = (.ok (), booted)
      ∧ IsRun booted.isFree 5 1
      ∧ (allocateContiguousBounded 5 4).run booted = (.error .invalidRange, booted) := by
  obtain ⟨start, booted, hnew, himport, -, hrun⟩ := sixteenPages_booted
  have hbound : 5 = 0 ∨ 5 > 4 ∨ 4 > 128 := by decide
  refine ⟨start, booted, hnew, himport, hrun, ?_⟩
  rw [allocateContiguousBounded, run_get_bind, run_refuse_bind_of hbound]

end FrameAllocator

end RusticOs.Kernel
