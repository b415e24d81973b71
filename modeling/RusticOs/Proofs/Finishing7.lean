import RusticOs.Proofs.Promises7
import RusticOs.Proofs.Retention7

/-!
# `RusticOs.Proofs.Finishing7`: finishing a stage that was promised

What finishing a fresh stage does on an owner that keeps the stage's promise. The retained slot is
there, the scope is free and the epoch is current, so the target is refused only for one of the
three reasons of `Refusal`: the file is gone, it is at another version, or the sequence has no
successor. With a target in hand nothing else refuses: the candidate is well formed, so its check
passes, and what the file releases was allocated.

* `commitTracked_promised`: a tracked stage.
* `admissionCandidate_promised`: an admission.
-/

set_option autoImplicit false

namespace RusticOs.Fs

open RusticOs.Lib RusticOs.Lib.Fallible

/-- Why a promised write is refused. -/
inductive Refusal (w : World7) (identity : WriteIdentity7) (expectedVersion : UInt64) :
    Error → Prop where
  | gone (none : w.contents.store.entries identity.object = none) :
      Refusal w identity expectedVersion .notFound
  | moved {entry : Entry} (live : w.contents.store.entries identity.object = some entry)
      (other : entry.version ≠ expectedVersion) : Refusal w identity expectedVersion .version
  | exhausted (full : 2 ^ 64 ≤ w.volume.header.sequence.toNat + 1) :
      Refusal w identity expectedVersion .exhausted

section
variable {v : Volume7}

theorem nodePosition_none {id : UInt32} (h : v.nodePosition id = none) (i : Fin 256) :
    ¬ (v.nodes[i].kind ≠ .empty ∧ v.nodes[i].id = id) := by
  rw [Volume7.nodePosition, List.find?_eq_none] at h
  intro hlive
  exact h i (List.mem_finRange i) (decide_eq_true hlive)

/-- A retained slot that is not reserved can be used. -/
theorem freeRecordSlot_ok (h : v.reservedRecords < v.freeRecords) :
    ∃ slot, v.freeRecordSlot = .ok slot := by
  have hempty : ∃ i : Fin 8, v.records[i].isNone = true := by
    have hpos : 0 < v.records.toList.countP Option.isNone := Nat.zero_lt_of_lt h
    obtain ⟨r, hr, hnone⟩ := List.countP_pos_iff.mp hpos
    obtain ⟨k, hk, rfl⟩ := List.getElem_of_mem hr
    rw [Vector.length_toList] at hk
    exact ⟨⟨k, hk⟩, by simpa using hnone⟩
  obtain ⟨i, hi⟩ := hempty
  cases hfind : (List.finRange 8).find? fun i => v.records[i].isNone with
  | none => exact absurd hi (List.find?_eq_none.mp hfind i (List.mem_finRange i))
  | some slot =>
    refine ⟨slot, ?_⟩
    rw [Volume7.freeRecordSlot, hfind, reject_of_not (by omega), ok_bind, orRefuse_some]

end

section
variable {w : World7} {staged : Fin 2 → List UInt8} {identity : WriteIdentity7}
  {expectedVersion : UInt64}

theorem liveFile_promised (h : Ready w staged) (hp : Promise w.contents.store identity)
    (expectedVersion : UInt64) :
    (∃ index, liveFile w.volume identity expectedVersion = .ok (index, w.volume.nodes[index]))
      ∨ ∃ e, liveFile w.volume identity expectedVersion = .error e
        ∧ Refusal w identity expectedVersion e := by
  have hepoch : ¬ identity.retryEpoch ≠ w.volume.header.epoch := not_not.mpr hp.epoch
  unfold liveFile
  rw [reject_of_not hepoch, ok_bind]
  cases hposition : w.volume.nodePosition identity.object with
  | none =>
    refine Or.inr ⟨.notFound, rfl, .gone ?_⟩
    cases hentry : w.contents.store.entries identity.object with
    | none => rfl
    | some entry =>
      obtain ⟨i, hi, hid, -⟩ := (entriesOf_eq_some w.disk.medium.view h.valid).mp hentry
      exact absurd ⟨hi, hid⟩ (nodePosition_none hposition i)
  | some index =>
    obtain ⟨hlive, hid⟩ := nodePosition_spec hposition
    have hentry := entriesOf_slot w.disk.medium.view h.valid hlive
    rw [hid] at hentry
    have hkind : w.volume.nodes[index].kind = .file := hp.file _ hentry
    by_cases hversion : w.volume.nodes[index].version = expectedVersion
    · refine Or.inl ⟨index, ?_⟩
      rw [orRefuse_some, ok_bind]
      dsimp only
      rw [reject_of_not (not_not.mpr hkind), ok_bind, reject_of_not (not_not.mpr hversion), ok_bind]
      rfl
    · refine Or.inr ⟨.version, ?_, .moved hentry hversion⟩
      rw [orRefuse_some, ok_bind]
      dsimp only
      rw [reject_of_not (not_not.mpr hkind), ok_bind, reject_of hversion, error_bind]

/-- A promised write has a target, or is refused for one of the three reasons. -/
theorem target_promised (h : Ready w staged) (hp : Promise w.contents.store identity)
    (hroom : w.volume.reservedRecords < w.volume.freeRecords) (expectedVersion : UInt64) :
    (∃ index slot, TargetSpec w.volume identity expectedVersion index slot)
      ∨ ∃ e, trackedTarget w.volume identity expectedVersion = .error e
        ∧ admissionTarget w.volume identity expectedVersion = .error e
        ∧ Refusal w identity expectedVersion e := by
  unfold trackedTarget admissionTarget
  rcases liveFile_promised h hp expectedVersion with
    ⟨index, hlive⟩ | ⟨e, hlive, hrefusal⟩
  · obtain ⟨slot, hslot⟩ := freeRecordSlot_ok hroom
    by_cases hseq : w.volume.header.sequence.toNat + 1 < 2 ^ 64
    · have hnext := checkedAdd_one hseq
      refine Or.inl ⟨index, slot, (targetSpec hlive hslot hnext ?_).2.2⟩
      rw [gt_iff_lt, UInt64.lt_iff_toNat_lt, ← checkedAdd_eq_some.mp hnext]
      exact Nat.not_lt.mpr hp.inst_le
    · rw [hlive, hslot, checkedAdd_one_full hseq]
      exact Or.inr ⟨.exhausted, rfl, rfl, .exhausted (by omega)⟩
  · rw [hlive]
    exact Or.inr ⟨e, rfl, rfl, hrefusal⟩

end

/-! ### Records that can be retained -/

section
variable {w : World7} {staged : Fin 2 → List UInt8} {identity : WriteIdentity7}
  {expectedVersion : UInt64} {index : Fin 256} {receipt : Fin 8} {plan : PayloadPlan}

section
variable (ht : TargetSpec w.volume identity expectedVersion index receipt)
include ht

theorem TargetSpec.sequence_lt : w.volume.header.sequence.toNat + 1 < 2 ^ 64 :=
  ht.next ▸ UInt64.toNat_lt _

/-- The file's version lies below the next sequence. -/
theorem TargetSpec.version_lt (h : Ready w staged) :
    ¬ w.volume.header.sequence + 1 ≤ expectedVersion := by
  have hle := (h.wellFormed.node index (live_of_file ht.kind)).version_le
  rw [ht.version, UInt64.le_iff_toNat_le] at hle
  rw [UInt64.le_iff_toNat_le, ht.next]
  omega

theorem TargetSpec.version_ne (h : Ready w staged) : expectedVersion ≠ 0 := by
  rw [← ht.version]
  exact (h.wellFormed.node index (live_of_file ht.kind)).shape.version_ne

theorem TargetSpec.epoch_le (h : Ready w staged) :
    ¬ identity.retryEpoch > w.volume.header.sequence + 1 := by
  have hle := UInt64.le_iff_toNat_le.mp h.wellFormed.head.epoch_le
  rw [gt_iff_lt, UInt64.lt_iff_toNat_lt, ht.next, ht.epoch]
  omega

/-- The tracked target. -/
theorem TargetSpec.tracked (h : Ready w staged) : trackedTarget w.volume identity expectedVersion
    = .ok ⟨index, w.volume.nodes[index], receipt, w.volume.header.sequence + 1⟩ := by
  have hversion := ht.version_lt h
  rw [UInt64.le_iff_toNat_le, ht.next] at hversion
  have hlt := ht.sequence_lt
  have hminimum := checkedAdd_one (n := expectedVersion) (by omega)
  have hordered : ¬ w.volume.header.sequence + 1 < expectedVersion + 1 := by
    rw [UInt64.lt_iff_toNat_lt, ht.next, ← checkedAdd_eq_some.mp hminimum]
    show ¬ _ < expectedVersion.toNat + 1
    omega
  simp only [trackedTarget, ht.found, ht.free, ok_bind, checkedAdd_one hlt, orRefuse_some, hminimum,
    reject_of_not hordered, reject_of_not ht.inst_le]
  rfl

/-- The admission target. -/
theorem TargetSpec.admission : admissionTarget w.volume identity expectedVersion
    = .ok (receipt, w.volume.header.sequence + 1) := by
  simp only [admissionTarget, ht.found, ht.free, ok_bind, checkedAdd_one ht.sequence_lt,
    orRefuse_some, reject_of_not ht.inst_le]
  rfl

end

/-- No retained record answers a promised scope. -/
theorem Promise.scope_free (h : Ready w staged) (hp : Promise w.contents.store identity) (k : Fin 8)
    (a : Record7) (ha : w.volume.records[k] = some a) : a.scope ≠ identity.scope := by
  intro hscope
  have hknown := outcome_of_record h ha
  rw [hscope, hp.first] at hknown
  cases hknown

theorem Promise.first_free (h : Ready w staged) (hp : Promise w.contents.store identity) :
    ¬ (w.volume.findRetry identity).isSome = true := by
  intro hsome
  obtain ⟨r, hretry⟩ := Option.isSome_iff_exists.mp hsome
  obtain ⟨k, hk, hscope⟩ := findRetry_some hretry
  exact hp.scope_free h k r hk hscope

/-- The record of a tracked replacement can be retained. -/
theorem trackedRecord_retains (h : Ready w staged) {slot : StageSlot}
    (hp : Promise w.contents.store slot.identity)
    (ht : TargetSpec w.volume slot.identity slot.expectedVersion index receipt)
    (hplan : PlanFor w.volume.map plan slot.length)
    (hcrc : slot.length = 0 → slot.payloadCrc = crc []) :
    Retains w.volume.header w.volume.nodes w.volume.records w.volume.map index receipt
      (trackedRecord slot plan (w.volume.header.sequence + 1)) where
  room := ht.sequence_lt
  kind := ht.kind
  empty := ht.empty
  observes :=
    { object := ht.id.symm
      previous := ht.version.symm
      observed := rfl
      events := by
        intro e he
        simp only [eventSequences, trackedRecord, List.mem_cons, List.not_mem_nil, or_false] at he
        rcases he with rfl | rfl | rfl
        · exact Or.inl rfl
        · exact Or.inr rfl
        · exact Or.inr rfl
      state := nofun
      committed := fun _ => rfl }
  fields :=
    { shape :=
        { subject_ne := hp.within.subject_ne
          workspace_ne := hp.within.workspace_ne
          inst_ne := hp.within.inst_ne
          object_ge := UInt32.not_lt.mpr hp.within.object_ge
          object_ne := hp.within.apart.symm
          retryKey_ne := hp.within.key_ne
          retryEpoch_ne := hp.within.epoch_ne
          previous_ne := ht.version_ne h
          prevention := rfl
          state := by
            show (_ || decide (w.volume.header.sequence + 1 ≤ slot.expectedVersion)
              || decide (slot.identity.inst > w.volume.header.sequence + 1)) = false
            rw [decide_eq_false (ht.version_lt h), decide_eq_false ht.inst_le]
            simp [trackedRecord]
          epoch := ht.epoch_le h
          payload := hplan.shape }
      workspace_lt := hp.within.workspace_lt
      object_lt := hp.within.object_lt
      previous_le := UInt64.le_of_lt (UInt64.not_le.mp (ht.version_lt h))
      committed_le := UInt64.le_refl _
      terminal_le := UInt64.le_refl _
      admissionNumber_le := UInt64.zero_le
      epoch := ht.epoch
      crc := hcrc }
  scope := by
    intro k a ha hsame
    exact hp.scope_free h k a ha (scope_eq_iff.mpr hsame)
  free := by
    rw [trackedRecord_runs hplan]
    exact hplan.free

/-- The snapshot of an admission is canonical, also when it is empty. -/
theorem admittedRecord_payload {length : UInt32} (hplan : PlanFor w.volume.map plan length) :
    PayloadShape (if plan.used = 0 then Vector.replicate 8 Extent.zero else plan.extents)
      (UInt8.ofNat plan.used) length := by
  split
  · rename_i hzero
    have hshape := hplan.shape
    rw [hzero] at hshape ⊢
    refine ⟨hshape.used_le, hshape.length_le, ?_, ?_, ?_, ?_, hshape.total⟩
    · intro run hrun
      cases hrun
    · intro run hrun
      cases hrun
    · exact List.Pairwise.nil
    · intro run hrun
      have hmem := List.mem_of_mem_drop hrun
      simpa using hmem
  · exact hplan.shape

/-- The record of an admission can be retained. -/
theorem admittedRecord_retains (h : Ready w staged) {length payloadCrc32 : UInt32}
    (hp : Promise w.contents.store identity)
    (ht : TargetSpec w.volume identity expectedVersion index receipt)
    (hplan : PlanFor w.volume.map plan length) (hcrc : length = 0 → payloadCrc32 = crc []) :
    Retains w.volume.header w.volume.nodes w.volume.records w.volume.map index receipt
      (admittedRecord identity expectedVersion (w.volume.header.sequence + 1) length payloadCrc32
        plan) where
  room := ht.sequence_lt
  kind := ht.kind
  empty := ht.empty
  observes :=
    { object := ht.id.symm
      previous := ht.version.symm
      observed := rfl
      events := by
        intro e he
        simp only [eventSequences, admittedRecord, List.mem_cons, List.not_mem_nil, or_false] at he
        rcases he with rfl | rfl | rfl
        · exact Or.inr rfl
        · exact Or.inl rfl
        · exact Or.inl rfl
      state := nofun
      committed := nofun }
  fields :=
    { shape :=
        { subject_ne := hp.within.subject_ne
          workspace_ne := hp.within.workspace_ne
          inst_ne := hp.within.inst_ne
          object_ge := UInt32.not_lt.mpr hp.within.object_ge
          object_ne := hp.within.apart.symm
          retryKey_ne := hp.within.key_ne
          retryEpoch_ne := hp.within.epoch_ne
          previous_ne := ht.version_ne h
          prevention := rfl
          state := by
            show (_ || decide (w.volume.header.sequence + 1 ≤ expectedVersion)
              || decide (identity.inst > w.volume.header.sequence + 1)) = false
            rw [decide_eq_false (ht.version_lt h), decide_eq_false ht.inst_le]
            simp [admittedRecord]
          epoch := ht.epoch_le h
          payload := admittedRecord_payload hplan }
      workspace_lt := hp.within.workspace_lt
      object_lt := hp.within.object_lt
      previous_le := UInt64.le_of_lt (UInt64.not_le.mp (ht.version_lt h))
      committed_le := UInt64.zero_le
      terminal_le := UInt64.zero_le
      admissionNumber_le := UInt64.le_refl _
      epoch := ht.epoch
      crc := hcrc }
  scope := by
    intro k a ha hsame
    exact hp.scope_free h k a ha (scope_eq_iff.mpr hsame)
  free := by
    rw [admittedRecord_runs hplan]
    exact hplan.free

end

/-! ### What cannot refuse -/

/-- A candidate that is well formed passes its check. -/
theorem candidateVerdict_ok {c : Candidate7} {v : Volume7} (hshape : c.record.Shape)
    (room : v.header.sequence.toNat + 1 < 2 ^ 64)
    (h : WellFormed (nextHeader v.header) (c.nodes v.nodes)
      (v.records.setAt c.recordSlot (some c.record)) (c.map v.map)) :
    candidateVerdict c v = .ok () := by
  have hencode : ∃ block, c.record.encode = .ok block := by
    rw [Record7.encode, Record7.checkLocal_eq_ok.mpr hshape]
    exact ⟨_, rfl⟩
  obtain ⟨block, hblock⟩ := hencode
  rw [candidateVerdict, hblock, ok_bind, candidateHeader_eq_ok.mpr ⟨room, rfl⟩, ok_bind]
  exact validateGeneration_eq_ok.mpr (validGeneration_iff.mpr h)

/-- Runs that are apart and allocated are released. -/
theorem foldlM_release_ok {runs : List Extent} {map : SpaceMap}
    (hinside : ∀ run ∈ runs, run.Inside ∧ run.sectors ≠ 0) (hnodup : (runSectors runs).Nodup)
    (hset : ∀ s ∈ runSectors runs, Bitmap.get map s = true) :
    runs.foldlM release map = .ok (mutateMap map runs false) := by
  induction runs generalizing map with
  | nil => rfl
  | cons run runs ih =>
    obtain ⟨hin, hne⟩ := hinside run List.mem_cons_self
    rw [runSectors_cons, List.nodup_append] at hnodup
    simp only [runSectors_cons, List.mem_append] at hset
    have hlt : ∀ s ∈ run.sectorList, s < dataSectors := fun s hs => get_lt (hset s (Or.inl hs))
    have hrelease : release map run = .ok (Bitmap.setAll map run.sectorList false) := by
      have hbounds : ¬ (run.sectors = 0 ∨ run.endSector.toNat > dataSectors) := by
        rintro (h0 | hgt)
        · exact hne h0
        · rw [hin.endSector] at hgt
          unfold Extent.Inside at hin
          omega
      have hall : ¬ (run.sectorList.any fun s => !Bitmap.get map s) = true := by
        rw [List.any_eq_true]
        rintro ⟨s, hs, hnot⟩
        rw [hset s (Or.inl hs)] at hnot
        cases hnot
      rw [release, reject_of_not hbounds, ok_bind, reject_of_not hall, ok_bind]
      rfl
    rw [List.foldlM_cons, hrelease, ok_bind, ih (fun r hr => hinside r (List.mem_cons_of_mem _ hr))
      hnodup.2.1]
    · rw [mutateMap, mutateMap, runSectors_cons, Bitmap.setAll, Bitmap.setAll, Bitmap.setAll,
        List.foldl_append]
    · intro s hs
      rw [Bitmap.get_setAll _ hlt, if_neg fun hmem => hnodup.2.2 s hmem s hs rfl]
      exact hset s (Or.inr hs)

/-! ### Finishing -/

section
variable {w : World7} {staged : Fin 2 → List UInt8} {slot : StageSlot} {bytes : List UInt8}
  {plan : PayloadPlan} {index : Fin 256} {receipt : Fin 8}

/-- The CRC of a stage that was supplied no bytes. -/
theorem FreshHolds.crc_empty {map : SpaceMap} {view : Nat → Block}
    (h : FreshHolds map view slot plan bytes) (hlength : bytes.length = slot.length.toNat)
    (hzero : slot.length = 0) : slot.payloadCrc = crc [] := by
  have hnil : bytes = [] := by
    rw [← List.length_eq_zero_iff, hlength, hzero]
    rfl
  rw [StageSlot.payloadCrc, h.checksum, hnil]
  rfl

/-- What a replaced file releases is allocated, also once the plan is reserved. -/
theorem trackedCandidate_releases (h : Held w staged slot bytes) (hmode : slot.mode = .fresh plan)
    (ht : TargetSpec w.volume slot.identity slot.expectedVersion index receipt) :
    (releasable w.volume.records w.volume.nodes[index]).foldlM release
        (reservePlan w.volume.map plan)
      = .ok (mutateMap (reservePlan w.volume.map plan)
        (releasable w.volume.records w.volume.nodes[index]) false) := by
  have hfresh := h.holds.fresh plan hmode
  have hshape := h.ready.wellFormed.file_shape ht.kind
  refine foldlM_release_ok (fun run hrun => ?_) ?_ fun s hs => ?_
  · have hmem := (List.mem_filter.mp hrun).1
    exact ⟨hshape.payload.inside run hmem, hshape.payload.nonempty run hmem⟩
  · exact hshape.payload.nodup.sublist (List.filter_sublist.flatMap _)
  · have hset := h.ready.valid.node_sectors (getElem_mem_nodes _ _) ht.kind
      (releasable_sectors hs)
    rw [reservePlan, get_mutateMap fun s hs => hfresh.planned.lt hs]
    split
    · rfl
    · exact hset

/-- The owner a tracked stage publishes. -/
def trackedVolume (v : Volume7) (slot : StageSlot) (plan : PayloadPlan) (target : TrackedTarget) :
    Volume7 :=
  { (trackedCandidate v slot plan target).apply v with fenced := true }

/-- The candidate of an admission into a retained slot. -/
def admittedCandidate (v : Volume7) (identity : WriteIdentity7) (expectedVersion : UInt64)
    (length payloadCrc32 : UInt32) (plan : PayloadPlan) (receipt : Fin 8) : Candidate7 :=
  { Candidate7.empty receipt (admittedRecord identity expectedVersion (v.header.sequence + 1) length
      payloadCrc32 plan) with added := plan }

/-- An admission with a target whose candidate passes its check. -/
theorem admissionCandidate_run {identity : WriteIdentity7} {expectedVersion : UInt64}
    {length payloadCrc32 : UInt32}
    (htarget : admissionTarget w.volume identity expectedVersion
      = .ok (receipt, w.volume.header.sequence + 1))
    (hfits : (admittedCandidate w.volume identity expectedVersion length payloadCrc32 plan
      receipt).Fits w.volume.map)
    (hverdict : candidateVerdict (admittedCandidate w.volume identity expectedVersion length
      payloadCrc32 plan receipt) w.volume = .ok ()) :
    (admissionCandidate identity expectedVersion length payloadCrc32 plan).run w
      = (.ok (admittedCandidate w.volume identity expectedVersion length payloadCrc32 plan receipt),
        w) := by
  have hvalidate := validateCandidate_run hfits
  rw [hverdict] at hvalidate
  unfold admissionCandidate
  rw [run_getVolume_bind, run_lift_bind_of_ok htarget]
  dsimp only
  exact run_bind_of_ok hvalidate _

section
variable (h : Held w staged slot bytes) (hmode : slot.mode = .fresh plan)
  (hlength : bytes.length = slot.length.toNat) (hp : Promise w.contents.store slot.identity)
include h hmode hlength hp

/-- The candidate of a promised tracked stage, with the target it has, passes its check. -/
theorem trackedCandidate_ok
    (ht : TargetSpec w.volume slot.identity slot.expectedVersion index receipt) :
    let c := trackedCandidate w.volume slot plan
      ⟨index, w.volume.nodes[index], receipt, w.volume.header.sequence + 1⟩
    c.Fits w.volume.map ∧ candidateVerdict c w.volume = .ok () := by
  have hr := h.ready
  have hfresh := h.holds.fresh plan hmode
  have hretains := trackedRecord_retains hr hp ht hfresh.planned (hfresh.crc_empty hlength)
  have hwf := hr.wellFormed.replace hretains rfl
  rw [trackedRecord_runs hfresh.planned] at hwf
  refine ⟨⟨fun s hs => ⟨hfresh.planned.lt hs, hfresh.planned.free s hs⟩, fun s hs => ?_⟩,
    candidateVerdict_ok (c := trackedCandidate _ _ plan _) hretains.fields.shape ht.sequence_lt hwf⟩
  exact hr.valid.node_sectors (getElem_mem_nodes _ _) ht.kind (releasable_sectors hs)

/-- Finishing a promised tracked stage: one of the three refusals, or one publication. -/
theorem commitTracked_promised
    (hroom : w.volume.reservedRecords < w.volume.freeRecords) :
    (∃ e, trackedTarget w.volume slot.identity slot.expectedVersion = .error e
        ∧ (commitTracked slot plan).run w = (.error e, w)
        ∧ Refusal w slot.identity slot.expectedVersion e)
      ∨ ∃ target, trackedTarget w.volume slot.identity slot.expectedVersion = .ok target
        ∧ (trackedCandidate w.volume slot plan target).Fits w.volume.map
        ∧ candidateVerdict (trackedCandidate w.volume slot plan target) w.volume = .ok ()
        ∧ (commitTracked slot plan).run w = (do
            publishNamespace
            pure (trackedCandidate w.volume slot plan target).record : Op Record7).run
              { w with volume := trackedVolume w.volume slot plan target } := by
  have hr := h.ready
  unfold commitTracked
  rw [run_getVolume_bind, run_refuse_bind_of_not (hp.first_free hr)]
  rcases target_promised hr hp hroom slot.expectedVersion with
    ⟨index, receipt, ht⟩ | ⟨e, htarget, -, hrefusal⟩
  · have htarget := ht.tracked hr
    obtain ⟨hfits, hverdict⟩ := trackedCandidate_ok h hmode hlength hp ht
    have hvalidate := validateCandidate_run (w := w) hfits
    rw [hverdict] at hvalidate
    refine Or.inr ⟨⟨index, w.volume.nodes[index], receipt, w.volume.header.sequence + 1⟩, htarget,
      hfits, hverdict, ?_⟩
    rw [run_lift_bind_of_ok htarget]
    dsimp only
    rw [run_bind_of_ok hvalidate]
    have hreleases := trackedCandidate_releases h hmode ht
    split
    · rename_i e hrelease
      exact nomatch hreleases.symm.trans hrelease
    · rename_i map hrelease
      obtain rfl := Except.ok.inj (hreleases.symm.trans hrelease)
      rfl
  · rw [run_lift_bind_of_error htarget]
    exact Or.inl ⟨e, htarget, rfl, hrefusal⟩

/-- The candidate of a promised admission passes its check. -/
theorem admittedCandidate_ok
    (ht : TargetSpec w.volume slot.identity slot.expectedVersion index receipt) :
    (admittedCandidate w.volume slot.identity slot.expectedVersion slot.length slot.payloadCrc plan
        receipt).Fits w.volume.map
      ∧ candidateVerdict (admittedCandidate w.volume slot.identity slot.expectedVersion slot.length
        slot.payloadCrc plan receipt) w.volume = .ok () := by
  have hr := h.ready
  have hfresh := h.holds.fresh plan hmode
  have hretains := admittedRecord_retains hr hp ht hfresh.planned (hfresh.crc_empty hlength)
  have hwf := hr.wellFormed.admitted hretains rfl
  rw [admittedRecord_runs hfresh.planned] at hwf
  exact ⟨⟨fun s hs => ⟨hfresh.planned.lt hs, hfresh.planned.free s hs⟩, nofun⟩,
    candidateVerdict_ok (c := admittedCandidate _ _ _ _ _ plan _) hretains.fields.shape
      ht.sequence_lt hwf⟩

end

end

section
variable {w : World7} {staged : Fin 2 → List UInt8} {stage : Stage7} {i : Fin 2}
  {slot : StageSlot}

theorem finishTrackedSlot_fresh {plan : PayloadPlan} (hkind : slot.kind = .tracked)
    (hcomplete : slot.complete = true) (hmode : slot.mode = .fresh plan) :
    finishTrackedSlot slot = commitTracked slot plan := by
  rw [finishTrackedSlot, refuse_bind_of_not (by simp [hkind, hcomplete]), hmode]

theorem isFresh_iff : slot.isFresh = true ↔ ∃ plan, slot.mode = .fresh plan := by
  unfold StageSlot.isFresh
  cases slot.mode with
  | fresh plan => simp
  | retry record matching => simp

end

end RusticOs.Fs
