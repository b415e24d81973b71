import RusticOs.Lib.Largest
import RusticOs.Proofs.Extents7

/-!
# `RusticOs.Proofs.Planner7`: the planner takes the largest free runs first

A plan has at most eight runs, so what matters is how much the eight largest maximal free runs
hold together.

* `Maximal.eq_of_meets`: two maximal free runs that share a sector are the same;
* `scan_step`: one turn of the scan finds the next maximal free run;
* `bestRun_spec`: the scan returns a longest maximal free run that is not taken yet;
* `planRuns_ok_iff`: the choice loop succeeds exactly when the largest runs left are enough;
* `planPayload_optimal`: when the planner succeeds, and what it returns.
-/

set_option autoImplicit false

namespace RusticOs.Fs

open RusticOs.Lib

/-! ### Maximal free runs -/

/-- The sectors from `start` up to `stop` are free, and no longer run around them is. -/
structure Maximal (map : SpaceMap) (start stop : Nat) : Prop where
  nonempty : start < stop
  inside : stop ≤ dataSectors
  free : ∀ s, start ≤ s → s < stop → Bitmap.get map s = false
  left : start = 0 ∨ Bitmap.get map (start - 1) = true
  right : stop = dataSectors ∨ Bitmap.get map stop = true

variable {map : SpaceMap}

variable {a b c d : Nat} {r : Nat × Nat} {cursor : Nat} {taken : List (Nat × Nat)}
  {best : Option Extent}

theorem Maximal.start_le (h : Maximal map a b) (h' : Maximal map c d) : c ≤ a ∨ b ≤ c := by
  by_contra hno
  -- the sector before `c` would be free in the first run
  have hbusy := h'.left.resolve_left (by omega)
  rw [h.free (c - 1) (by omega) (by omega)] at hbusy
  cases hbusy

theorem Maximal.stop_le (h : Maximal map a b) (h' : Maximal map c d) : b ≤ d ∨ d ≤ a := by
  by_contra hno
  -- the sector at `d` would be free in the first run
  have hin := h.inside
  have hbusy := h'.right.resolve_left (by omega)
  rw [h.free d (by omega) (by omega)] at hbusy
  cases hbusy

/-- Two maximal free runs that share a sector are the same. -/
theorem Maximal.eq_of_meets (h : Maximal map a b) (h' : Maximal map c d) (had : a < d)
    (hcb : c < b) : a = c ∧ b = d := by
  have h1 := h.start_le h'
  have h2 := h'.start_le h
  have h3 := h.stop_le h'
  have h4 := h'.stop_le h
  omega

open Classical in
/-- The maximal free runs of a map. -/
@[irreducible] noncomputable def maximalRuns (map : SpaceMap) : Finset (Nat × Nat) :=
  (Finset.range dataSectors ×ˢ Finset.range (dataSectors + 1)).filter
    fun r => Maximal map r.1 r.2

@[simp] theorem mem_maximalRuns : r ∈ maximalRuns map ↔ Maximal map r.1 r.2 := by
  classical
  unfold maximalRuns
  rw [Finset.mem_filter, Finset.mem_product, Finset.mem_range, Finset.mem_range]
  constructor
  · exact fun h => h.2
  · intro h
    have h1 := h.nonempty
    have h2 := h.inside
    exact ⟨⟨by omega, by omega⟩, h⟩

/-- How many sectors each of a set of runs holds. -/
def runLengths (runs : Finset (Nat × Nat)) : Multiset Nat := runs.val.map fun r => r.2 - r.1

/-! ### The scan -/

theorem skipSectors_stops (map : SpaceMap) (used : Bool) (left cursor : Nat) :
    skipSectors map used left cursor = cursor + left
      ∨ Bitmap.get map (skipSectors map used left cursor) ≠ used := by
  induction left generalizing cursor with
  | zero => exact Or.inl rfl
  | succ left ih =>
    rw [skipSectors]
    split
    · rcases ih (cursor + 1) with h | h
      · left
        omega
      · exact Or.inr h
    · rename_i h
      exact Or.inr h

/-- Where the scan stands between two runs. -/
def Boundary (map : SpaceMap) (cursor : Nat) : Prop :=
  cursor = 0 ∨ cursor = dataSectors ∨ Bitmap.get map cursor = true

/-- The next free run from `cursor` on. -/
structure NextRun (map : SpaceMap) (cursor start stop : Nat) : Prop where
  advances : cursor < stop
  inside : stop ≤ dataSectors
  ordered : cursor ≤ start ∧ start ≤ stop
  boundary : Boundary map stop
  free : ∀ s, start ≤ s → s < stop → Bitmap.get map s = false
  maximal : start < stop → Maximal map start stop
  only : ∀ a b, Maximal map a b → cursor ≤ a → a < stop → a = start ∧ b = stop

/-- One turn of the scan finds the next free run. -/
theorem scan_step (hc : cursor < dataSectors) (hb : Boundary map cursor) :
    NextRun map cursor (skipSectors map true (dataSectors - cursor) cursor)
      (skipSectors map false
        (dataSectors - skipSectors map true (dataSectors - cursor) cursor)
        (skipSectors map true (dataSectors - cursor) cursor)) := by
  obtain ⟨hs1, hs2, hs3⟩ := skipSectors_spec map true (dataSectors - cursor) cursor
  have hs4 := skipSectors_stops map true (dataSectors - cursor) cursor
  generalize skipSectors map true (dataSectors - cursor) cursor = start at *
  obtain ⟨ht1, ht2, ht3⟩ := skipSectors_spec map false (dataSectors - start) start
  have ht4 := skipSectors_stops map false (dataSectors - start) start
  generalize skipSectors map false (dataSectors - start) start = stop at *
  have hbound : Boundary map stop := by
    rcases ht4 with h | h
    · exact Or.inr (Or.inl (by omega))
    · exact Or.inr (Or.inr (by simpa using h))
  have hadvance : cursor < stop := by
    by_contra hle
    -- the scan stopped at once both times, so the bit would be set and clear
    have hstart : start = cursor := by omega
    have hstop : stop = cursor := by omega
    subst hstart hstop
    rcases hs4 with h | h
    · omega
    · rcases ht4 with h' | h'
      · omega
      · cases hbit : Bitmap.get map stop <;> simp [hbit] at h h'
  have hleft : start < stop → start = 0 ∨ Bitmap.get map (start - 1) = true := by
    intro hlt
    by_cases hmoved : cursor < start
    · exact Or.inr (hs3 (start - 1) (by omega) (by omega))
    · have hstart : start = cursor := by omega
      subst hstart
      rcases hb with h | h | h
      · exact Or.inl h
      · omega
      · rw [ht3 start (le_refl _) hlt] at h
        cases h
  have hmax : start < stop → Maximal map start stop := by
    intro hlt
    refine ⟨hlt, by omega, ht3, hleft hlt, ?_⟩
    rcases hbound with h | h | h
    · omega
    · exact Or.inl h
    · exact Or.inr h
  refine ⟨hadvance, by omega, ⟨hs1, ht1⟩, hbound, ht3, hmax, fun a b hab hca hastop => ?_⟩
  have hstart : start ≤ a := by
    by_contra hlt
    have hbusy := hs3 a hca (by omega)
    rw [hab.free a (le_refl _) hab.nonempty] at hbusy
    cases hbusy
  exact hab.eq_of_meets (hmax (by omega)) hastop (by have := hab.nonempty; omega)

/-- A run as the planner stores it. -/
def extentOf (r : Nat × Nat) : Extent := ⟨UInt64.ofNat r.1, UInt64.ofNat (r.2 - r.1)⟩

theorem Maximal.toNat_extentOf (h : Maximal map r.1 r.2) :
    (extentOf r).start.toNat = r.1 ∧ (extentOf r).sectors.toNat = r.2 - r.1
      ∧ (extentOf r).endSector.toNat = r.2 := by
  have h1 := h.nonempty
  have h2 := h.inside
  have h64 : dataSectors < 2 ^ 64 := by decide
  have hs : (extentOf r).start.toNat = r.1 := UInt64.toNat_ofNat_of_lt' (by
    show r.1 < 2 ^ 64
    omega)
  have hn : (extentOf r).sectors.toNat = r.2 - r.1 := UInt64.toNat_ofNat_of_lt' (by
    show r.2 - r.1 < 2 ^ 64
    omega)
  have hinside : (extentOf r).Inside := by
    unfold Extent.Inside
    omega
  refine ⟨hs, hn, ?_⟩
  rw [hinside.endSector]
  omega

/-- A maximal free run touches none of some others exactly when it is not one of them. -/
theorem untouched_iff (htaken : ∀ r ∈ taken, r ∈ maximalRuns map) (hab : Maximal map a b) :
    ((taken.map extentOf).any fun run => a < run.endSector.toNat && run.start.toNat < b) = true
      ↔ (a, b) ∈ taken := by
  simp only [List.any_map, List.any_eq_true, Function.comp_apply, Bool.and_eq_true,
    decide_eq_true_eq]
  constructor
  · rintro ⟨r, hr, h1, h2⟩
    have hmax := mem_maximalRuns.mp (htaken r hr)
    obtain ⟨hs, -, he⟩ := hmax.toNat_extentOf
    rw [he] at h1
    rw [hs] at h2
    obtain ⟨h3, h4⟩ := hab.eq_of_meets hmax h1 h2
    rw [h3, h4]
    exact hr
  · intro hr
    obtain ⟨hs, -, he⟩ := Maximal.toNat_extentOf (r := (a, b)) hab
    have hne := hab.nonempty
    refine ⟨(a, b), hr, ?_, ?_⟩
    · rw [he]
      exact hne
    · rw [hs]
      exact hne

/-- A longest run of those that start before `cursor` and are not taken. -/
def BestUpTo (map : SpaceMap) (taken : List (Nat × Nat)) (cursor : Nat) (best : Option Extent) :
    Prop :=
  match best with
  | none => ∀ a b, Maximal map a b → a < cursor → (a, b) ∈ taken
  | some e => ∃ r, e = extentOf r ∧ Maximal map r.1 r.2 ∧ r ∉ taken
      ∧ ∀ a b, Maximal map a b → a < cursor → (a, b) ∉ taken → b - a ≤ r.2 - r.1

/-- A turn of the scan that meets nothing new. -/
theorem BestUpTo.skip {stop : Nat} (h : BestUpTo map taken cursor best)
    (hnew : ∀ a b, Maximal map a b → cursor ≤ a → a < stop → (a, b) ∈ taken
      ∨ ∃ e ∈ best, b - a ≤ e.sectors.toNat) :
    BestUpTo map taken stop best := by
  cases best with
  | none =>
    intro a b hab hlt
    by_cases hc : a < cursor
    · exact h a b hab hc
    · rcases hnew a b hab (by omega) hlt with hin | ⟨e, he, -⟩
      · exact hin
      · cases he
  | some e =>
    obtain ⟨r, rfl, hmax, hr, hall⟩ := h
    refine ⟨r, rfl, hmax, hr, fun a b hab hlt hno => ?_⟩
    by_cases hc : a < cursor
    · exact hall a b hab hc hno
    · rcases hnew a b hab (by omega) hlt with hin | ⟨e, he, hle⟩
      · exact absurd hin hno
      · cases he
        rw [hmax.toNat_extentOf.2.1] at hle
        exact hle

/-- One run offered to the best so far. -/
theorem betterRun_best (htaken : ∀ r ∈ taken, r ∈ maximalRuns map) {start stop : Nat}
    (hnext : NextRun map cursor start stop) (h : BestUpTo map taken cursor best) :
    BestUpTo map taken stop (betterRun (taken.map extentOf) start stop best) := by
  unfold betterRun
  by_cases hempty : start < stop
  · have hmax := hnext.maximal hempty
    have htouched := untouched_iff htaken hmax
    split
    · rename_i hbetter
      obtain ⟨-, hfree, hlonger⟩ := hbetter
      refine ⟨(start, stop), rfl, hmax, fun hin => hfree (htouched.mpr hin),
        fun a b hab hlt hno => ?_⟩
      by_cases hc : a < cursor
      · cases best with
        | none => exact absurd (h a b hab hc) hno
        | some e =>
          obtain ⟨r, rfl, hr, -, hall⟩ := h
          have hle := hall a b hab hc hno
          simp only [Option.all_some, decide_eq_true_eq, hr.toNat_extentOf.2.1] at hlonger
          show b - a ≤ stop - start
          omega
      · obtain ⟨rfl, rfl⟩ := hnext.only a b hab (by omega) hlt
        exact le_refl _
    · rename_i hkept
      refine h.skip fun a b hab hca hlt => ?_
      obtain ⟨rfl, rfl⟩ := hnext.only a b hab hca hlt
      by_cases hin : (a, b) ∈ taken
      · exact Or.inl hin
      · right
        cases best with
        | none => exact absurd ⟨by omega, fun h => hin (htouched.mp h), rfl⟩ hkept
        | some e =>
          refine ⟨e, rfl, ?_⟩
          by_contra hlt'
          exact hkept ⟨by omega, fun h => hin (htouched.mp h), by
            rw [Option.all_some]
            exact decide_eq_true (by omega)⟩
  · rw [if_neg (by omega)]
    refine h.skip fun a b hab hca hlt => ?_
    obtain ⟨rfl, rfl⟩ := hnext.only a b hab hca hlt
    exact absurd hab.nonempty hempty

/-- The scan returns a longest maximal free run that is not taken. -/
theorem bestRun_best (htaken : ∀ r ∈ taken, r ∈ maximalRuns map) (fuel cursor : Nat)
    (hfuel : dataSectors ≤ cursor + fuel) (hb : Boundary map cursor) (hc : cursor ≤ dataSectors)
    (h : BestUpTo map taken cursor best) :
    BestUpTo map taken dataSectors (bestRun map (taken.map extentOf) fuel cursor best) := by
  induction fuel generalizing cursor best with
  | zero =>
    have hend : cursor = dataSectors := by omega
    rw [bestRun]
    exact hend ▸ h
  | succ fuel ih =>
    rw [bestRun]
    split
    · rename_i hlt
      have hnext := scan_step hlt hb
      have hadvance := hnext.advances
      exact ih _ (by omega) hnext.boundary hnext.inside (betterRun_best htaken hnext h)
    · have hend : cursor = dataSectors := by omega
      exact hend ▸ h

theorem bestRun_spec (htaken : ∀ r ∈ taken, r ∈ maximalRuns map) :
    BestUpTo map taken dataSectors (bestRun map (taken.map extentOf) dataSectors 0 none) :=
  bestRun_best htaken dataSectors 0 (by omega) (Or.inl rfl) (by omega)
    fun _ _ _ hlt => absurd hlt (Nat.not_lt_zero _)

/-! ### The choice loop -/

/-- The maximal free runs that are not taken yet. -/
noncomputable def runsLeft (map : SpaceMap) (taken : List (Nat × Nat)) : Finset (Nat × Nat) :=
  maximalRuns map \ taken.toFinset

theorem mem_runsLeft : r ∈ runsLeft map taken ↔ Maximal map r.1 r.2 ∧ r ∉ taken := by
  rw [runsLeft, Finset.mem_sdiff, mem_maximalRuns, List.mem_toFinset]

/-- Taking a longest run leaves the other largest ones. -/
theorem largest_runLengths {runs : Finset (Nat × Nat)} (hr : r ∈ runs)
    (hbest : ∀ q ∈ runs, q.2 - q.1 ≤ r.2 - r.1) (k : Nat) :
    largest (k + 1) (runLengths runs) = (r.2 - r.1) + largest k (runLengths (runs.erase r)) := by
  have hsplit : runLengths runs = (r.2 - r.1) ::ₘ runLengths (runs.erase r) := by
    unfold runLengths
    rw [Finset.erase_val, ← Multiset.map_cons (fun q : Nat × Nat => q.2 - q.1),
      Multiset.cons_erase hr]
  rw [hsplit]
  apply largest_cons
  intro n hn
  obtain ⟨q, hq, rfl⟩ := Multiset.mem_map.mp hn
  exact hbest q (Finset.mem_of_mem_erase hq)

theorem runsLeft_snoc (taken : List (Nat × Nat)) (r : Nat × Nat) :
    runsLeft map (taken ++ [r]) = (runsLeft map taken).erase r := by
  ext q
  rw [Finset.mem_erase, mem_runsLeft, mem_runsLeft, List.mem_append, List.mem_singleton]
  tauto

theorem planRuns_done (fuel : Nat) (chosen : List Extent) :
    planRuns map (fuel + 1) 0 chosen = .ok chosen := by
  rw [planRuns, if_pos rfl]

/-- The choice loop succeeds exactly when the largest runs left are enough. -/
theorem planRuns_ok_iff (k remaining : Nat) (taken : List (Nat × Nat))
    (htaken : ∀ r ∈ taken, r ∈ maximalRuns map) (hlen : taken.length + k = 8) :
    (∃ result, planRuns map (k + 1) remaining (taken.map extentOf) = .ok result)
      ↔ remaining ≤ largest k (runLengths (runsLeft map taken)) := by
  induction k generalizing remaining taken with
  | zero =>
    rw [largest_zero]
    by_cases hzero : remaining = 0
    · rw [hzero, planRuns_done]
      simp
    · rw [planRuns, if_neg hzero, reject_of (by rw [List.length_map]; omega), error_bind]
      simp [hzero]
  | succ k ih =>
    by_cases hzero : remaining = 0
    · rw [hzero, planRuns_done]
      simp
    rw [planRuns, if_neg hzero, reject_of_not (by rw [List.length_map]; omega), ok_bind]
    have hbest := bestRun_spec htaken
    generalize bestRun map (taken.map extentOf) dataSectors 0 none = best at hbest ⊢
    cases best with
    | none =>
      -- every maximal free run is taken
      have hnone : runsLeft map taken = ∅ := by
        apply Finset.eq_empty_of_forall_notMem
        intro r hr
        obtain ⟨hmax, hno⟩ := mem_runsLeft.mp hr
        have hin := hmax.inside
        have hne := hmax.nonempty
        exact hno (hbest r.1 r.2 hmax (by omega))
      rw [hnone, orRefuse_none, error_bind]
      simp [runLengths, hzero]
    | some e =>
      obtain ⟨r, rfl, hmax, hno, hall⟩ := hbest
      have hstep := largest_runLengths (mem_runsLeft.mpr ⟨hmax, hno⟩)
        (fun q hq => by
          obtain ⟨hq, hqno⟩ := mem_runsLeft.mp hq
          have hin := hq.inside
          have hne := hq.nonempty
          exact hall q.1 q.2 hq (by omega) hqno) k
      have hsize := hmax.toNat_extentOf.2.1
      rw [hstep, ← runsLeft_snoc, orRefuse_some, ok_bind]
      dsimp only
      rw [hsize]
      by_cases hlast : remaining ≤ r.2 - r.1
      · -- the last run: it may be cut, and nothing is left to cover
        rw [show remaining - min (r.2 - r.1) remaining = 0 by omega, planRuns_done]
        constructor
        · intro _
          omega
        · exact fun _ => ⟨_, rfl⟩
      · have hwhole : (taken.map extentOf) ++ [⟨(extentOf r).start,
            UInt64.ofNat (min (r.2 - r.1) remaining)⟩] = (taken ++ [r]).map extentOf := by
          rw [Nat.min_eq_left (by omega), List.map_append]
          rfl
        rw [hwhole, Nat.min_eq_left (by omega), ih _ (taken ++ [r])]
        · omega
        · intro q hq
          rcases List.mem_append.mp hq with hq | hq
          · exact htaken q hq
          · rw [List.mem_singleton.mp hq]
            exact mem_maximalRuns.mpr hmax
        · rw [List.length_append, List.length_singleton]
          omega

/-- Where the free sectors are one run at the end of the region, a plan is the front of it. -/
theorem planPayload_tail {length : Nat} (hlength : length ≤ maxFileBytes)
    (used : ∀ s < a, Bitmap.get map s = true)
    (free : ∀ s, a ≤ s → s < dataSectors → Bitmap.get map s = false)
    (hpos : 0 < sectorsFor length) (hfits : a + sectorsFor length ≤ dataSectors) :
    planPayload map length
      = .ok (PayloadPlan.ofRuns [⟨UInt64.ofNat a, UInt64.ofNat (sectorsFor length)⟩]) := by
  have hmax : Maximal map a dataSectors := by
    refine ⟨by omega, le_rfl, free, ?_, Or.inl rfl⟩
    rcases Nat.eq_zero_or_pos a with h | h
    · exact Or.inl h
    · exact Or.inr (used (a - 1) (by omega))
  have hbest : bestRun map [] dataSectors 0 none = some (extentOf (a, dataSectors)) := by
    have hspec : BestUpTo map [] dataSectors (bestRun map [] dataSectors 0 none) :=
      bestRun_spec nofun
    generalize bestRun map [] dataSectors 0 none = best at hspec ⊢
    cases best with
    | none => exact absurd (hspec a dataSectors hmax (by omega)) List.not_mem_nil
    | some e =>
      obtain ⟨r, rfl, hr, -⟩ := hspec
      have hne := hr.nonempty
      have hin := hr.inside
      have hstart : a ≤ r.1 := by
        by_contra hlt
        have hfree := hr.free r.1 le_rfl hne
        rw [used r.1 (by omega)] at hfree
        cases hfree
      obtain ⟨h1, h2⟩ := hr.eq_of_meets hmax (by omega) (by omega)
      rw [← h1, ← h2]
  have hsize : (extentOf (a, dataSectors)).sectors.toNat = dataSectors - a :=
    (Maximal.toNat_extentOf (r := (a, dataSectors)) hmax).2.1
  rw [planPayload, reject_of_not (by omega), ok_bind, planRuns, if_neg (by omega),
    reject_of_not (by decide), ok_bind, hbest, orRefuse_some, ok_bind]
  dsimp only
  rw [hsize, Nat.min_eq_right (by omega), Nat.sub_self, planRuns_done]
  rfl

/-! ### Plans -/

/-- What a plan for `length` bytes over the free sectors of `map` is. -/
structure Plans (map : SpaceMap) (length : Nat) (plan : PayloadPlan) : Prop where
  few : plan.runs.length ≤ 8
  runs : ∀ run ∈ plan.runs, FreeRun map run
  disjoint : plan.runs.Pairwise fun run other => run.sectorList.Disjoint other.sectorList
  total : (plan.runs.map fun run => run.sectors.toNat).sum = sectorsFor length
  accepted : checkPayload plan.extents (UInt8.ofNat plan.used) (UInt32.ofNat length) = .ok ()

theorem runs_eq_take {plan : PayloadPlan} {length : UInt32} (h : PlanFor map plan length) :
    plan.extents.toList.take (UInt8.ofNat plan.used).toNat = plan.runs := by
  rw [h.toNat_used]
  rfl

theorem PlanFor.plans {plan : PayloadPlan} {length : UInt32} (h : PlanFor map plan length) :
    Plans map length.toNat plan := by
  have hruns := runs_eq_take h
  have hshape := h.shape
  have hinside := hruns ▸ hshape.inside
  refine ⟨?_, ?_, ?_, ?_, ?_⟩
  · rw [PayloadPlan.runs, List.length_take]
    have := h.used_le
    omega
  · intro run hrun
    refine ⟨(hruns ▸ hshape.nonempty) run hrun, hinside run hrun, fun s hs => ?_⟩
    exact h.free s (mem_runSectors.mpr ⟨run, hrun, hs⟩)
  · refine (hruns ▸ hshape.disjoint).imp_of_mem fun ha hb hab => ?_
    exact (hinside _ ha).disjoint (hinside _ hb) hab
  · rw [← hruns]
    exact hshape.total
  · rw [UInt32.ofNat_toNat]
    exact checkPayload_eq_ok.mpr hshape

/-- A payload of up to the file limit can be planned exactly when the eight largest maximal
free runs hold it, and a plan is at most eight disjoint free runs of exactly its sectors. -/
theorem planPayload_optimal (map : SpaceMap) (length : Nat) (hlength : length ≤ maxFileBytes) :
    ((∃ plan, planPayload map length = .ok plan)
      ↔ sectorsFor length ≤ largest 8 (runLengths (maximalRuns map)))
    ∧ ∀ plan, planPayload map length = .ok plan → Plans map length plan := by
  have hleft : runsLeft map [] = maximalRuns map := by
    unfold runsLeft
    simp
  have hiff := @planRuns_ok_iff map 8 (sectorsFor length) [] (by simp) rfl
  rw [hleft] at hiff
  have hsize : (UInt32.ofNat length).toNat = length := UInt32.toNat_ofNat_of_lt' (by
    have hmax : maxFileBytes < 2 ^ 32 := by decide
    show length < 2 ^ 32
    omega)
  constructor
  · rw [← hiff, planPayload, reject_of_not (by omega), ok_bind]
    constructor
    · rintro ⟨plan, h⟩
      obtain ⟨chosen, hchosen, -⟩ := except_bind_eq_ok.mp h
      exact ⟨chosen, hchosen⟩
    · rintro ⟨chosen, hchosen⟩
      exact ⟨_, except_bind_eq_ok.mpr ⟨chosen, hchosen, rfl⟩⟩
  · intro plan h
    rw [← hsize] at h ⊢
    exact (planPayload_spec h).plans

theorem planPayload_optimal_one_sector :
    512 ≤ maxFileBytes
    ∧ ((∃ plan, planPayload (Vector.replicate 2048 0) 512 = .ok plan)
      ↔ sectorsFor 512 ≤ largest 8 (runLengths (maximalRuns (Vector.replicate 2048 0))))
    ∧ ∀ plan, planPayload (Vector.replicate 2048 0) 512 = .ok plan
      → Plans (Vector.replicate 2048 0) 512 plan :=
  ⟨by decide, planPayload_optimal _ 512 (by decide)⟩

end RusticOs.Fs
