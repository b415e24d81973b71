import RusticOs.Proofs.Mutations7

/-!
# `RusticOs.Proofs.Tracked7`: candidates and tracked replacement

A candidate is validated in place and undone (`validateCandidate_run`: the owner is
unchanged when the added runs were free and the released ones allocated). A complete fresh
stage commits as one publication of the request with exactly the supplied bytes
(`commitTracked_spec`).
-/

set_option autoImplicit false

namespace RusticOs.Fs

open RusticOs.Lib

/-! ### Candidates -/

/-- Runs added were free and runs released were allocated. -/
structure Candidate7.Fits (c : Candidate7) (map : SpaceMap) : Prop where
  added : ∀ s ∈ runSectors c.added.runs, s < dataSectors ∧ Bitmap.get map s = false
  released : ∀ s ∈ runSectors c.released, Bitmap.get map s = true

variable {c : Candidate7}

/-- A bit of the candidate's bitmap. -/
theorem Candidate7.Fits.get_map {map : SpaceMap} (h : c.Fits map) (s : Nat) :
    Bitmap.get (c.map map) s = if s ∈ runSectors c.released then false
      else if s ∈ runSectors c.added.runs then true else Bitmap.get map s := by
  rw [Candidate7.map, mutateMap, mutateMap,
    Bitmap.get_setAll _ fun s hs => get_lt (h.released s hs),
    Bitmap.get_setAll _ fun s hs => (h.added s hs).1]

/-- Undoing a candidate restores the bitmap exactly. -/
theorem Candidate7.Fits.restore_map {map : SpaceMap} (h : c.Fits map) :
    mutateMap (mutateMap (c.map map) c.released true) c.added.runs false = map := by
  apply Bitmap.ext_get
  intro s _
  rw [mutateMap, mutateMap, Bitmap.get_setAll _ fun s hs => (h.added s hs).1,
    Bitmap.get_setAll _ fun s hs => get_lt (h.released s hs), h.get_map]
  by_cases hadded : s ∈ runSectors c.added.runs
  · rw [if_pos hadded, (h.added s hadded).2]
  · by_cases hreleased : s ∈ runSectors c.released
    · rw [if_neg hadded, if_pos hreleased, h.released s hreleased]
    · rw [if_neg hadded, if_neg hreleased, if_neg hreleased, if_neg hadded]

theorem Candidate7.Fits.restore_apply {v : Volume7} (h : c.Fits v.map) :
    c.restore v (c.apply v) = v := by
  have hrecords : (v.records.setAt c.recordSlot (some c.record)).setAt c.recordSlot
      v.records[c.recordSlot] = v.records := by
    rw [Vector.setAt_setAt, Vector.setAt_getElem]
  have hnodes : (c.restore v (c.apply v)).nodes = v.nodes := by
    unfold Candidate7.restore Candidate7.apply Candidate7.nodes
    cases c.nodeUpdate with
    | none => rfl
    | some update =>
      show (v.nodes.setAt update.1 update.2).setAt update.1 v.nodes[update.1] = v.nodes
      rw [Vector.setAt_setAt, Vector.setAt_getElem]
  show { v with
    nodes := (c.restore v (c.apply v)).nodes
    records := (v.records.setAt c.recordSlot (some c.record)).setAt c.recordSlot
      v.records[c.recordSlot]
    map := mutateMap (mutateMap (c.map v.map) c.released true) c.added.runs false } = v
  rw [hnodes, hrecords, h.restore_map]

/-- What validating a candidate decides. -/
def candidateVerdict (c : Candidate7) (v : Volume7) : Except Error Unit := do
  let _ ← c.record.encode
  let header ← candidateHeader v.header
  validateGeneration header (c.nodes v.nodes) (v.records.setAt c.recordSlot (some c.record))
    (c.map v.map)

/-- Validating a candidate leaves the owner as it was. -/
theorem validateCandidate_run {w : World7} (h : c.Fits w.volume.map) :
    (validateCandidate c).run w = (candidateVerdict c w.volume, w) := by
  unfold validateCandidate candidateVerdict
  rw [run_getVolume_bind]
  cases c.record.encode with
  | error e => rfl
  | ok block =>
    cases candidateHeader w.volume.header with
    | error e => rfl
    | ok header =>
      show (_, { w with volume := c.restore w.volume (c.apply w.volume) }) = (_, w)
      rw [h.restore_apply]
      rfl

theorem candidateVerdict_eq_ok {v : Volume7} {u : Unit} (h : candidateVerdict c v = .ok u) :
    (c.apply v).Publishable := by
  simp only [candidateVerdict, except_bind_eq_ok] at h
  obtain ⟨_, -, header, hheader, hvalid⟩ := h
  obtain ⟨hroom, rfl⟩ := candidateHeader_eq_ok.mp hheader
  exact ⟨hroom, validateGeneration_eq_ok.mp hvalid⟩

theorem CallSpec.validate {α : Type} {w : World7} {staged : Fin 2 → List UInt8} {request : Request}
    (h : Ready w staged) (hfits : c.Fits w.volume.map) {f : Unit → Op α}
    (hf : (c.apply w.volume).Publishable →
      CallSpec (f ()) w staged request) :
    CallSpec (validateCandidate c >>= f) w staged request := by
  cases hr : candidateVerdict c w.volume with
  | error e =>
    refine .of_run (fun d => ?_) (.fail h e)
    rw [Fallible.run_bind, validateCandidate_run (w := { w with disk := d }) hfits, hr]
    rfl
  | ok u =>
    refine .of_run (fun d => ?_) (hf (candidateVerdict_eq_ok hr))
    rw [Fallible.run_bind, validateCandidate_run (w := { w with disk := d }) hfits, hr]

/-! ### Retained snapshots under a change of one slot -/

theorem Retained.set_empty {records : Records7} {record : Record7} (h : Retained records record)
    {slot : Fin 8} (hempty : records[slot] = none) (r : Record7) :
    Retained (records.setAt slot (some r)) record := by
  obtain ⟨i, current, hi, hsame, hdirect⟩ := h
  refine ⟨i, current, ?_, hsame, hdirect⟩
  rw [Vector.setAt_ne]
  · exact hi
  · rintro rfl
    rw [hempty] at hi
    cases hi

theorem Retained.set_same {records : Records7} {record : Record7} (h : Retained records record)
    {slot : Fin 8} {old new : Record7} (hold : records[slot] = some old)
    (hsame : SameSnapshot new old) (hstate : old.state ≠ .directCommitted) :
    Retained (records.setAt slot (some new)) record := by
  obtain ⟨i, current, hi, hcurrent, hdirect⟩ := h
  by_cases his : i = slot
  · subst his
    rw [hold, Option.some.injEq] at hi
    subst hi
    refine ⟨i, new, Vector.setAt_self _ _ _, ?_, fun hd => ?_⟩
    · exact ⟨hsame.scope.trans hcurrent.scope, hsame.object.trans hcurrent.object,
        hsame.inst.trans hcurrent.inst, hsame.previous.trans hcurrent.previous,
        hsame.length.trans hcurrent.length, hsame.payloadCrc32.trans hcurrent.payloadCrc32,
        hsame.extentsUsed.trans hcurrent.extentsUsed, hsame.extents.trans hcurrent.extents⟩
    · rw [hdirect hd] at hstate
      exact absurd hd hstate
  · exact ⟨i, current, by rw [Vector.setAt_ne _ his]; exact hi, hcurrent, hdirect⟩

/-! ### Targets -/

section
variable {v : Volume7} {identity : WriteIdentity7} {expectedVersion : UInt64}

theorem liveFile_spec {index : Fin 256} {node : Node7}
    (h : liveFile v identity expectedVersion = .ok (index, node)) :
    node = v.nodes[index] ∧ v.nodes[index].kind = .file ∧ v.nodes[index].id = identity.object
      ∧ v.nodes[index].version = expectedVersion ∧ identity.retryEpoch = v.header.epoch := by
  simp only [liveFile, except_bind_eq_ok, reject_eq_ok, orRefuse_eq_ok] at h
  obtain ⟨_, hepoch, i, hi, _, hkind, _, hversion, h⟩ := h
  cases h
  exact ⟨rfl, not_not.mp hkind, (nodePosition_spec hi).2, not_not.mp hversion, not_not.mp hepoch⟩

/-- A live file at its expected version, a free retained slot and the next sequence. -/
structure TargetSpec (v : Volume7) (identity : WriteIdentity7) (expectedVersion : UInt64)
    (index : Fin 256) (slot : Fin 8) : Prop where
  found : liveFile v identity expectedVersion = .ok (index, v.nodes[index])
  free : v.freeRecordSlot = .ok slot
  next : (v.header.sequence + 1).toNat = v.header.sequence.toNat + 1
  inst_le : ¬ identity.inst > v.header.sequence + 1
  kind : v.nodes[index].kind = .file
  id : v.nodes[index].id = identity.object
  version : v.nodes[index].version = expectedVersion
  epoch : identity.retryEpoch = v.header.epoch
  empty : v.records[slot] = none
  room : v.reservedRecords < v.freeRecords

/-- What both kinds of target look up. -/
theorem targetSpec {index : Fin 256} {node : Node7} {slot : Fin 8} {sequence : UInt64}
    (hfound : liveFile v identity expectedVersion = .ok (index, node))
    (hfree : v.freeRecordSlot = .ok slot)
    (hnext : checkedAdd v.header.sequence 1 = some sequence) (hinst : ¬ identity.inst > sequence) :
    node = v.nodes[index] ∧ sequence = v.header.sequence + 1
      ∧ TargetSpec v identity expectedVersion index slot := by
  obtain ⟨rfl, hkind, hid, hversion, hepoch⟩ := liveFile_spec hfound
  obtain ⟨hnone, hroom⟩ := freeRecordSlot_spec hfree
  obtain rfl := checkedAdd_eq_add hnext
  exact ⟨rfl, rfl, hfound, hfree, (checkedAdd_eq_some.mp hnext).symm, hinst, hkind, hid, hversion,
    hepoch, hnone, hroom⟩

theorem trackedTarget_spec {target : TrackedTarget}
    (h : trackedTarget v identity expectedVersion = .ok target) :
    ∃ index slot, target = ⟨index, v.nodes[index], slot, v.header.sequence + 1⟩
      ∧ TargetSpec v identity expectedVersion index slot := by
  simp only [trackedTarget, except_bind_eq_ok, reject_eq_ok, orRefuse_eq_ok] at h
  obtain ⟨⟨index, node⟩, hfound, slot, hfree, sequence, hnext, _, -, _, -, _, hinst, h⟩ := h
  cases h
  obtain ⟨rfl, rfl, ht⟩ := targetSpec hfound hfree hnext hinst
  exact ⟨index, slot, rfl, ht⟩

theorem TargetSpec.live {index : Fin 256} {slot : Fin 8}
    (h : TargetSpec v identity expectedVersion index slot) : v.nodes[index].kind ≠ .empty := by
  rw [h.kind]
  exact nofun

end

/-! ### Stages under a candidate -/

/-- The record a candidate publishes fills a free slot, or moves an admission on. -/
inductive Candidate7.Takes (c : Candidate7) (v : Volume7) : Prop where
  | free (empty : v.records[c.recordSlot] = none) (room : v.reservedRecords < v.freeRecords)
  | advance (old : Record7) (held : v.records[c.recordSlot] = some old)
      (same : SameSnapshot c.record old) (state : old.state ≠ .directCommitted)

/-- Open stages survive the publication of a candidate whose added runs are apart from
theirs. -/
theorem StagesHold.applyCandidate {v : Volume7} {view view' : Nat → Block}
    {staged : Fin 2 → List UInt8} (h : StagesHold v view staged) (hv : v.Valid) {c : Candidate7}
    (hfits : c.Fits v.map) (htakes : c.Takes v)
    (hapart : ∀ (j : Fin 2) (other : StageSlot), v.stages[j] = some other →
      (runSectors c.added.runs).Disjoint (runSectors other.freshRuns))
    (hplanned : ∀ (i : Fin 2) (slot : StageSlot), v.stages[i] = some slot →
      ∀ s ∈ runSectors slot.freshRuns, view' (payloadSector + s) = view (payloadSector + s))
    (hallocated : ∀ s, Bitmap.get v.map s = true →
      view' (payloadSector + s) = view (payloadSector + s)) :
    StagesHold (c.apply v) view' staged := by
  refine h.transport hv rfl (fun i slot hi s hs => ⟨?_, hplanned i slot hi s hs⟩) ?_ hallocated ?_
  · have hfree := ((h.holds i slot hi).free hs).2
    show Bitmap.get (c.map v.map) s = false
    rw [hfits.get_map]
    split
    · rfl
    · rw [if_neg fun hadded => hapart i slot hi hadded hs]
      exact hfree
  · intro record hr
    cases htakes with
    | free empty room => exact hr.set_empty empty _
    | advance old held same state => exact hr.set_same held same state
  · show v.reservedRecords
      ≤ (v.records.setAt c.recordSlot (some c.record)).toList.countP Option.isNone
    have hroom := h.room
    cases htakes with
    | free empty room =>
      have := freeRecords_set v.records empty c.record
      unfold Volume7.freeRecords at room
      omega
    | advance old held same state =>
      rw [freeRecords_overwrite v.records held c.record]
      exact hroom

/-! ### Committing a fresh stage -/

/-- An owner that is ready, and a stage of it that is not registered. -/
structure Held (w : World7) (staged : Fin 2 → List UInt8) (slot : StageSlot)
    (bytes : List UInt8) : Prop where
  ready : Ready w staged
  holds : StageHolds w.volume.toGeneration7 w.disk.medium.view slot bytes
  apart : ∀ (j : Fin 2) (other : StageSlot), w.volume.stages[j] = some other →
    (runSectors slot.freshRuns).Disjoint (runSectors other.freshRuns)

theorem length_le_sectors (length : Nat) : length ≤ 512 * sectorsFor length := by
  unfold sectorsFor
  omega

/-- A complete fresh stage is stored with the CRC its record will carry. -/
theorem FreshHolds.stored_all {map : SpaceMap} {view : Nat → Block} {slot : StageSlot}
    {plan : PayloadPlan} {bytes : List UInt8} (h : FreshHolds map view slot plan bytes)
    (hlength : bytes.length = slot.length.toNat) :
    Stored view plan.runs slot.length slot.payloadCrc where
  enough := by
    rw [h.planned.length_sectors]
    exact length_le_sectors _
  crc := by
    rw [← hlength, h.stored, StageSlot.payloadCrc, h.checksum]
    rfl

theorem trackedRecord_runs {map : SpaceMap} {plan : PayloadPlan} {length : UInt32}
    (h : PlanFor map plan length) (slot : StageSlot) (sequence : UInt64) :
    (trackedRecord slot plan sequence).runs = plan.runs := by
  show plan.extents.toList.take (UInt8.ofNat plan.used).toNat = plan.runs
  rw [h.toNat_used]
  rfl

theorem releasable_sectors {records : Records7} {node : Node7} {s : Nat}
    (h : s ∈ runSectors (releasable records node)) : s ∈ runSectors node.runs := by
  obtain ⟨run, hrun, hs⟩ := mem_runSectors.mp h
  exact mem_runSectors.mpr ⟨run, (List.mem_filter.mp hrun).1, hs⟩

section
variable {w : World7} {staged : Fin 2 → List UInt8} {slot : StageSlot} {bytes : List UInt8}

theorem commitTracked_spec (h : Held w staged slot bytes) {plan : PayloadPlan}
    (hmode : slot.mode = .fresh plan) (hlength : bytes.length = slot.length.toNat) :
    CallSpec (commitTracked slot plan) w staged
      (.replace slot.identity slot.expectedVersion bytes) := by
  have hr := h.ready
  have hfresh := h.holds.fresh plan hmode
  have hapart := h.apart
  rw [freshRuns_of_fresh hmode] at hapart
  unfold commitTracked
  refine .getVolume (.refuse hr fun hretry => .lift hr fun target htarget => ?_)
  obtain ⟨index, receiptSlot, rfl, ht⟩ := trackedTarget_spec htarget
  have hfits : (trackedCandidate w.volume slot plan
      ⟨index, w.volume.nodes[index], receiptSlot, w.volume.header.sequence + 1⟩).Fits
        w.volume.map :=
    ⟨fun s hs => ⟨hfresh.planned.lt hs, hfresh.planned.free s hs⟩, fun s hs =>
      hr.valid.node_sectors (getElem_mem_nodes _ _) ht.kind (releasable_sectors hs)⟩
  refine .validate hr hfits fun _ => ?_
  -- old runs that cannot be released fence the owner
  split
  · exact .fence hr .uncertain
  · rename_i map hmap
    obtain ⟨rfl, -⟩ := foldlM_release hmap
    have hrecord := trackedRecord_runs hfresh.planned slot (w.volume.header.sequence + 1)
    have hstored : Stored w.disk.medium.view
        (trackedRecord slot plan (w.volume.header.sequence + 1)).runs slot.length
          slot.payloadCrc := by
      rw [hrecord]
      exact hfresh.stored_all hlength
    have hpayload : payload w.disk.medium.view
        (trackedRecord slot plan (w.volume.header.sequence + 1)).runs slot.length.toNat
          = bytes := by
      rw [hrecord, ← hlength]
      exact hfresh.stored
    refine .publish hr (Continues.refl _) (fun hp => ⟨?_, ?_, ?_⟩) _
    · exact (hr.durable.recovers.stored.setNode (n := w.volume.nodes[index].withContent
        (w.volume.header.sequence + 1) slot.length slot.payloadCrc (UInt8.ofNat plan.used)
        plan.extents) fun _ => hstored).setRecord hstored
    · exact (hr.stages.applyCandidate hr.valid hfits (.free ht.empty ht.room) hapart
        (fun _ _ _ _ _ => rfl) fun _ _ => rfl).congr rfl rfl rfl fun _ => rfl
    · have hentry := entriesOf_replace w.disk.medium.view hr.valid hp.valid ht.live
        (n := w.volume.nodes[index].withContent (w.volume.header.sequence + 1) slot.length
          slot.payloadCrc (UInt8.ofNat plan.used) plan.extents) ht.live rfl
      have houtcome := outcomesOf_insert w.disk.medium.view hr.valid hp.valid ht.empty
        (r := trackedRecord slot plan (w.volume.header.sequence + 1))
      have hbytes : (trackedRecord slot plan (w.volume.header.sequence + 1)).outcome
          (payload w.disk.medium.view
            (trackedRecord slot plan (w.volume.header.sequence + 1)).runs slot.length.toNat)
          = .direct slot.identity slot.expectedVersion (w.volume.header.sequence + 1) bytes := by
        rw [hpayload]
        rfl
      have hcontent : (w.volume.nodes[index].withContent (w.volume.header.sequence + 1) slot.length
          slot.payloadCrc (UInt8.ofNat plan.used) plan.extents).entry
          (payload w.disk.medium.view
            (trackedRecord slot plan (w.volume.header.sequence + 1)).runs slot.length.toNat)
          = { w.volume.nodes[index].entry (fileBytes w.disk.medium.view w.volume.nodes index) with
              version := w.volume.header.sequence + 1, bytes } := by
        rw [hpayload]
        rfl
      have hfile : w.contents.store.entries slot.identity.object
          = some (w.volume.nodes[index].entry
            (fileBytes w.disk.medium.view w.volume.nodes index)) := by
        rw [← ht.id]
        exact entriesOf_slot w.disk.medium.view hr.valid ht.live
      have hfirst : w.contents.store.outcomes slot.identity.scope = none :=
        outcomesOf_eq_none _ fun i r hi =>
          findRetry_none (Option.not_isSome_iff_eq_none.mp hretry) hi
      have happlies : w.contents.store.Applies
          (.replace slot.identity slot.expectedVersion bytes) _ :=
        .replace ⟨hfile, ht.kind, ht.version⟩ ht.epoch hfirst
      have hstore := congrArg₂ (Store.mk (w.volume.header.sequence + 1) w.volume.header.epoch
        w.volume.header.next) (hentry.trans (congrArg _ (congrArg some hcontent)))
        (houtcome.trans (congrArg _ (congrArg some hbytes)))
      rw [ht.id] at hstore
      exact (congrArg (Store.Applies _ _) hstore).mpr happlies

end

end RusticOs.Fs
