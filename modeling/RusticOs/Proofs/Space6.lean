import RusticOs.Fs.Space6
import RusticOs.Lib.Runs

/-!
# `RusticOs.Proofs.Space6`: the free-space counter counts

As long as no released extent ends past the 64-bit words, the counter is the number of clear bits,
allocation is complete and release is exact.

* `allocate_cases`, `release_cases`: all a call can do;
* `Counted`: the invariant, kept by every call (`step_counted`);
* `release_wraps`: what an extent that ends past the words does.
-/

set_option autoImplicit false

namespace RusticOs.Fs

open RusticOs.Lib
open Fallible hiding run

namespace FreeSpace

/-- The counter is the number of clear bits. -/
def Counted (s : FreeSpace) : Prop := s.free.toNat = (Bitmap.indices s.words false).card

/-- `n` sectors from `start` on that are free. -/
def FreeRun (s : FreeSpace) (n start : Nat) : Prop :=
  start + n ≤ dataSectors ∧ ∀ i, start ≤ i → i < start + n → Bitmap.get s.words i = false

/-- A run whose sectors all lie in the space and are allocated. -/
def Releasable (s : FreeSpace) (run : Extent) : Prop :=
  run.sectors ≠ 0 ∧ run.start.toNat + run.sectors.toNat ≤ dataSectors
    ∧ ∀ i, run.start.toNat ≤ i → i < run.start.toNat + run.sectors.toNat →
      Bitmap.get s.words i = true

/-- `t` is `s` with `n` sectors from `start` on marked, and no others. -/
structure Marks (s t : FreeSpace) (start n : Nat) (used : Bool) : Prop where
  inside : ∀ i, start ≤ i → i < start + n → Bitmap.get t.words i = used
  outside : ∀ i, ¬ (start ≤ i ∧ i < start + n) → Bitmap.get t.words i = Bitmap.get s.words i

section
variable {s : FreeSpace} {start n : Nat}

theorem mem_range {i : Nat} : i ∈ List.range' start n ↔ start ≤ i ∧ i < start + n := by
  rw [List.mem_range'_1]

theorem marks_setAll (h : start + n ≤ dataSectors) (used : Bool) (free : UInt64) :
    Marks s ⟨Bitmap.setAll s.words (List.range' start n) used, free⟩ start n used := by
  have hinside : ∀ i ∈ List.range' start n, i < 64 * 2048 := by
    intro i hi
    rw [mem_range] at hi
    unfold dataSectors at h
    omega
  constructor
  · intro i hle hlt
    rw [Bitmap.get_setAll _ hinside, if_pos (mem_range.mpr ⟨hle, hlt⟩)]
  · intro i hi
    rw [Bitmap.get_setAll _ hinside, if_neg (mt mem_range.mp hi)]

theorem isRun_iff {k : Nat} :
    (start + k ≤ dataSectors ∧ IsRun (fun i => !Bitmap.get s.words i) k start)
      ↔ s.FreeRun k start := by
  unfold FreeRun IsRun
  constructor
  · rintro ⟨hle, hrun⟩
    refine ⟨hle, fun i hi hlt => ?_⟩
    have := hrun (i - start) (by omega)
    rw [show start + (i - start) = i by omega] at this
    simpa using this
  · rintro ⟨hle, hrun⟩
    exact ⟨hle, fun j hj => by simp [hrun (start + j) (by omega) (by omega)]⟩

/-- The sectors of a run within the space that are all `used`, one by one. -/
theorem run_is {used : Bool} (hle : start + n ≤ dataSectors)
    (h : ∀ i, start ≤ i → i < start + n → Bitmap.get s.words i = used) :
    ∀ i ∈ List.range' start n, i < 64 * 2048 ∧ Bitmap.get s.words i = used := by
  intro i hi
  rw [mem_range] at hi
  unfold dataSectors at hle
  exact ⟨by omega, h i hi.1 hi.2⟩

/-- A free run counts. -/
theorem FreeRun.le_free (h : s.Counted) (hrun : s.FreeRun n start) : n ≤ s.free.toNat := by
  have hsubset : (List.range' start n).toFinset ⊆ Bitmap.indices s.words false := by
    intro i hi
    rw [List.mem_toFinset, mem_range] at hi
    have hle := hrun.1
    unfold dataSectors at hle
    exact Bitmap.mem_indices.mpr ⟨by omega, hrun.2 i hi.1 hi.2⟩
  have hcard := Finset.card_le_card hsubset
  rwa [List.toFinset_card_of_nodup List.nodup_range', List.length_range', ← h] at hcard

end

/-! ### Allocation -/

/-- All an allocation can do. -/
inductive Allocated (s : FreeSpace) (sectors : UInt64) :
    Except (Halt Error) Extent × FreeSpace → Prop where
  | size (bad : sectors = 0 ∨ sectors.toNat > fileSectorsMax) :
      Allocated s sectors (.error (.refused .size), s)
  | full (fits : ¬ (sectors = 0 ∨ sectors.toNat > fileSectorsMax))
      (nowhere : ∀ start, ¬ s.FreeRun sectors.toNat start) :
      Allocated s sectors (.error (.refused .full), s)
  | taken {start : Nat} (fits : ¬ (sectors = 0 ∨ sectors.toNat > fileSectorsMax))
      (enough : sectors ≤ s.free) (free : s.FreeRun sectors.toNat start)
      (least : ∀ t < start, ¬ s.FreeRun sectors.toNat t) :
      Allocated s sectors (.ok ⟨UInt64.ofNat start, sectors⟩,
        ⟨Bitmap.setAll s.words (List.range' start sectors.toNat) true, s.free - sectors⟩)

variable {s : FreeSpace}

theorem allocate_cases (h : s.Counted) (sectors : UInt64) :
    Allocated s sectors ((allocate sectors).run s) := by
  unfold allocate
  rw [run_get_bind]
  by_cases hbad : sectors = 0 ∨ sectors.toNat > fileSectorsMax
  · rw [run_refuse_bind_of hbad]
    exact .size hbad
  · rw [run_refuse_bind_of_not hbad]
    have hpos : 0 < sectors.toNat := by
      rw [Nat.pos_iff_ne_zero]
      intro hzero
      exact hbad (Or.inl (UInt64.toNat_inj.mp hzero))
    by_cases hfull : sectors > s.free
    · rw [run_refuse_bind_of hfull]
      refine .full hbad fun start hrun => ?_
      have hle := hrun.le_free h
      rw [gt_iff_lt, UInt64.lt_iff_toNat_lt] at hfull
      omega
    · rw [run_refuse_bind_of_not hfull]
      have hfound : Found (fun i => !Bitmap.get s.words i) sectors.toNat dataSectors
          (s.firstRun sectors) := scanRun_spec hpos dataSectors
      generalize s.firstRun sectors = r at hfound
      cases hfound with
      | absent nowhere =>
        refine .full hbad fun start hrun => ?_
        obtain ⟨hle, hrun⟩ := isRun_iff.mpr hrun
        exact nowhere start hle hrun
      | lowest inside isRun least =>
        refine .taken hbad (UInt64.not_lt.mp hfull) (isRun_iff.mp ⟨inside, isRun⟩)
          fun t ht hrun => least t ht (isRun_iff.mpr hrun).2

/-! ### Release -/

/-- All a release can do, when the end of its run is a word. -/
inductive Released (s : FreeSpace) (run : Extent) :
    Except (Halt Error) Unit × FreeSpace → Prop where
  | refused (bad : ¬ s.Releasable run) : Released s run (.error (.refused .invalid), s)
  | cleared (ok : s.Releasable run) : Released s run (.ok (),
      ⟨Bitmap.setAll s.words (List.range' run.start.toNat run.sectors.toNat) false,
        s.free + run.sectors⟩)

/-- Clear and releasable sectors are apart, so together they are at most all sectors. -/
theorem Releasable.count_le (h : s.Counted) {run : Extent} (hrun : s.Releasable run) :
    s.free.toNat + run.sectors.toNat ≤ dataSectors := by
  obtain ⟨-, hle, hset⟩ := hrun
  have hcard := Bitmap.card_setAll_same s.words false List.nodup_range' (run_is hle hset)
  have hall := Finset.card_filter_le (Finset.range (64 * 2048)) fun i => Bitmap.get
    (Bitmap.setAll s.words (List.range' run.start.toNat run.sectors.toNat) false) i = false
  rw [Finset.card_range] at hall
  rw [List.length_range', ← h] at hcard
  unfold Bitmap.indices at hcard
  unfold dataSectors
  omega

theorem release_cases (b : Build) (h : s.Counted) {run : Extent}
    (hend : run.start.toNat + run.sectors.toNat < 2 ^ 64) :
    Released s run ((release b run).run s) := by
  unfold release
  rw [run_get_bind]
  by_cases hzero : run.sectors = 0
  · rw [run_refuse_bind_of hzero]
    exact .refused fun hok => hok.1 hzero
  · have hstop : run.stop b = .ok (run.start + run.sectors) := Build.add_ok hend
    have hnat : (run.start + run.sectors).toNat = run.start.toNat + run.sectors.toNat := by
      rw [UInt64.toNat_add, Nat.mod_eq_of_lt hend]
    rw [run_refuse_bind_of_not hzero, hstop, lift_ok_bind, hnat, Nat.add_sub_cancel_left]
    by_cases hpast : run.start.toNat + run.sectors.toNat > dataSectors
    · rw [run_refuse_bind_of hpast]
      exact .refused fun hok => absurd hok.2.1 (Nat.not_le.mpr hpast)
    · rw [run_refuse_bind_of_not hpast]
      dsimp only
      by_cases hset : ∀ i ∈ List.range' run.start.toNat run.sectors.toNat,
          Bitmap.get s.words i = true
      · have hok : s.Releasable run := ⟨hzero, Nat.not_lt.mp hpast, fun i hi hlt =>
          hset i (mem_range.mpr ⟨hi, hlt⟩)⟩
        have hfree : (b.add s.free run.sectors : Except (Halt Error) UInt64)
            = .ok (s.free + run.sectors) := Build.add_ok (by
          have := hok.count_le h
          unfold dataSectors at this
          omega)
        rw [run_refuse_bind_of_not (not_not.mpr hset), hfree]
        exact .cleared hok
      · rw [run_refuse_bind_of hset]
        exact .refused fun hok => hset fun i hi => by
          rw [mem_range] at hi
          exact hok.2.2 i hi.1 hi.2

/-- A run whose end is not a word makes a debug build panic. -/
theorem release_panics {run : Extent} (hend : ¬ run.start.toNat + run.sectors.toNat < 2 ^ 64) :
    (release .debug run).run s = (.error .panicked, s) := by
  have hzero : run.sectors ≠ 0 := by
    intro hzero
    rw [hzero] at hend
    exact hend run.start.toNat_lt
  have hstop : run.stop .debug = .error .panicked := Build.add_panics hend
  unfold release
  rw [run_get_bind, run_refuse_bind_of_not hzero, hstop]
  rfl

/-! ### The counter along a run of calls -/

theorem new_counted {words : List UInt64} (h : new words = .ok s) : s.Counted := by
  unfold new at h
  split at h
  · rename_i hlength
    obtain rfl := Except.ok.inj h
    have hsum := sum_countZeros (⟨words.toArray, hlength⟩ : Vector UInt64 2048)
    have hle := Finset.card_filter_le (Finset.range (64 * 2048)) fun i =>
      Bitmap.get (⟨words.toArray, hlength⟩ : Vector UInt64 2048) i = false
    change (words.map countZeros).sum = _ at hsum
    rw [Finset.card_range] at hle
    show (UInt64.ofNat _).toNat = _
    rw [hsum]
    unfold Bitmap.indices
    exact UInt64.toNat_ofNat_of_lt' (by show _ < 2 ^ 64; omega)
  · cases h

theorem fill_counted (s : FreeSpace) : s.fill.Counted := by
  show (0 : UInt64).toNat = _
  rw [eq_comm, UInt64.toNat_zero, Finset.card_eq_zero, Finset.eq_empty_iff_forall_notMem]
  intro i hi
  obtain ⟨hlt, hclear⟩ := Bitmap.mem_indices.mp hi
  have hword : i / 64 < 2048 := by omega
  have hbit : wordBit 0xFFFFFFFFFFFFFFFF (i % 64) = true := by
    have hall : ∀ k < 64, wordBit 0xFFFFFFFFFFFFFFFF k = true := by decide
    exact hall _ (Nat.mod_lt _ (by decide))
  simp [fill, Bitmap.get, hword, hbit] at hclear

/-- The end of a released run is a word. -/
def Call.Ends : Call → Prop
  | .release run => run.start.toNat + run.sectors.toNat < 2 ^ 64
  | _ => True

theorem step_counted (b : Build) (h : s.Counted) {call : Call} (hc : call.Ends) :
    (s.step b call).Counted := by
  cases call with
  | fill => exact fill_counted s
  | allocate sectors =>
    have hcases := allocate_cases h sectors
    rw [step]
    generalize (allocate sectors).run s = r at hcases
    cases hcases with
    | size bad => exact h
    | full fits nowhere => exact h
    | @taken start fits enough free least =>
      have hcard := Bitmap.card_setAll_other s.words true List.nodup_range' (run_is free.1 free.2)
      rw [List.length_range', Bool.not_true, ← h] at hcard
      rw [Counted, UInt64.toNat_sub_of_le _ _ enough]
      exact Nat.sub_eq_of_eq_add hcard.symm
  | release run =>
    have hcases := release_cases b h hc
    rw [step]
    generalize (release b run).run s = r at hcases
    cases hcases with
    | refused bad => exact h
    | cleared ok =>
      have hcount := ok.count_le h
      obtain ⟨-, hle, hset⟩ := ok
      unfold dataSectors at hcount
      have hcard := Bitmap.card_setAll_same s.words false List.nodup_range' (run_is hle hset)
      rw [List.length_range', ← h] at hcard
      show (s.free + run.sectors).toNat = _
      rw [UInt64.toNat_add, Nat.mod_eq_of_lt (by omega), hcard]

theorem run_counted (b : Build) (h : s.Counted) {calls : List Call}
    (hcalls : ∀ call ∈ calls, call.Ends) : (run (step b) s calls).Counted := by
  induction calls generalizing s with
  | nil => exact h
  | cons call calls ih =>
    rw [run_cons]
    exact ih (step_counted b h (hcalls call List.mem_cons_self)) fun c hc =>
      hcalls c (List.mem_cons_of_mem _ hc)

/-! ### The laws of the space -/

/-- The laws of the free space, in either build. In every space reached from stored words by calls
whose released runs end at a word, the counter is the number of clear bits; an allocation of a
length a file may have takes a free run exactly when there is one, and marks exactly it; a run that
ends at a word is released exactly when it is not empty and all its sectors lie in the space and are
allocated, and otherwise it is refused without any change. A debug build panics on every other
run. -/
theorem free_space_laws (b : Build) {words : List UInt64} {start s : FreeSpace}
    (hnew : new words = .ok start) (calls : List Call) (hcalls : ∀ call ∈ calls, call.Ends)
    (hs : s = run (step b) start calls) :
    s.free.toNat = (Bitmap.indices s.words false).card
      ∧ (∀ n : UInt64, 1 ≤ n → n.toNat ≤ fileSectorsMax →
        ((∃ first, s.FreeRun n.toNat first) → ∃ first t, s.FreeRun n.toNat first
            ∧ (allocate n).run s = (.ok ⟨UInt64.ofNat first, n⟩, t) ∧ Marks s t first n.toNat true)
          ∧ ((¬ ∃ first, s.FreeRun n.toNat first) →
            (allocate n).run s = (.error (.refused .full), s)))
      ∧ (∀ extent : Extent, extent.start.toNat + extent.sectors.toNat < 2 ^ 64 →
        (s.Releasable extent → ∃ t, (release b extent).run s = (.ok (), t)
            ∧ Marks s t extent.start.toNat extent.sectors.toNat false)
          ∧ (¬ s.Releasable extent →
            (release b extent).run s = (.error (.refused .invalid), s)))
      ∧ ∀ extent : Extent, ¬ extent.start.toNat + extent.sectors.toNat < 2 ^ 64 →
        (release .debug extent).run s = (.error .panicked, s) := by
  have h : s.Counted := hs ▸ run_counted b (new_counted hnew) hcalls
  refine ⟨h, fun n hone hmax => ?_, fun extent hend => ?_, fun extent => release_panics⟩
  · have hcases := allocate_cases h n
    generalize (allocate n).run s = r at hcases
    cases hcases with
    | size bad =>
      rcases bad with rfl | bad
      · exact absurd hone (by decide)
      · omega
    | full fits nowhere =>
      exact ⟨fun ⟨first, hrun⟩ => absurd hrun (nowhere first), fun _ => rfl⟩
    | taken fits enough free least =>
      exact ⟨fun _ => ⟨_, _, free, rfl, marks_setAll free.1 true _⟩,
        fun hnone => absurd ⟨_, free⟩ hnone⟩
  · have hcases := release_cases b h hend
    generalize (release b extent).run s = r at hcases
    cases hcases with
    | refused bad => exact ⟨fun hok => absurd hok bad, fun _ => rfl⟩
    | cleared ok =>
      exact ⟨fun _ => ⟨_, rfl, marks_setAll ok.2.1 false _⟩, fun hbad => absurd ok hbad⟩

/-- The space of a blank map. -/
def blank : FreeSpace := ⟨Vector.replicate 2048 0, 131072⟩

theorem new_blank : new (List.replicate 2048 0) = .ok blank := by
  have hlength : (List.replicate 2048 (0 : UInt64)).length = 2048 := List.length_replicate
  have hzeros : countZeros 0 = 64 := by decide
  have hsum : ((List.replicate 2048 (0 : UInt64)).map countZeros).sum = 131072 := by
    rw [List.map_replicate, List.sum_replicate, hzeros]
    rfl
  rw [new, dif_pos hlength, hsum]
  rfl

/-- One run of a blank space is allocated, and a sector that is not cannot be released. -/
theorem free_space_laws_blank :
    new (List.replicate 2048 0) = .ok blank
      ∧ (∃ first t, blank.FreeRun 3 first
        ∧ (allocate 3).run blank = (.ok ⟨UInt64.ofNat first, 3⟩, t))
      ∧ (release .release ⟨7, 2⟩).run blank = (.error (.refused .invalid), blank) := by
  obtain ⟨-, hallocate, hrelease, -⟩ := free_space_laws .release new_blank [] nofun rfl
  have hfree : blank.FreeRun 3 0 := ⟨by decide, fun i _ _ => Bitmap.get_zero i⟩
  obtain ⟨first, t, hrun, hok, -⟩ := (hallocate 3 (by decide) (by decide)).1 ⟨0, hfree⟩
  refine ⟨new_blank, ⟨first, t, hrun, hok⟩, (hrelease ⟨7, 2⟩ (by decide)).2 fun hok => ?_⟩
  have hclear : Bitmap.get blank.words 7 = false := Bitmap.get_zero 7
  exact nomatch hclear.symm.trans (hok.2.2 7 (le_refl 7) (by decide))

/-- A run of five sectors that starts at the last word. Its end wraps around to 4, so a release
build accepts it, clears nothing and counts five sectors that do not exist. A debug build
panics. -/
theorem release_wraps : new (List.replicate 2048 0) = .ok blank
    ∧ (release .release ⟨0xFFFFFFFFFFFFFFFF, 5⟩).run blank = (.ok (), { blank with free := 131077 })
    ∧ (Bitmap.indices blank.words false).card = 131072
    ∧ (release .debug ⟨0xFFFFFFFFFFFFFFFF, 5⟩).run blank = (.error .panicked, blank) := by
  refine ⟨new_blank, rfl, ?_, rfl⟩
  have hcounted : (131072 : UInt64).toNat = _ := new_counted new_blank
  exact hcounted.symm

end FreeSpace

end RusticOs.Fs
