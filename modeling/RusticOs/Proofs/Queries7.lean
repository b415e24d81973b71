import Mathlib.Data.List.ReduceOption
import RusticOs.Fs.Session7
import RusticOs.Proofs.Contents7

/-!
# `RusticOs.Proofs.Queries7`: what the owner's lookups return

One specification for each read-only query of `Volume7`, in terms of slots: a query that
scans a table returns the one slot with the key it was asked for. Later modules cite these
and never unfold a scan.
-/

set_option autoImplicit false

namespace RusticOs.Fs

open RusticOs.Lib

/-- The structures of an owner pass the check. -/
def Volume7.Valid (v : Volume7) : Prop := ValidGeneration v.header v.nodes v.records v.map

/-- A volume answers unless it is fenced. -/
theorem Volume7.ready_eq_ok {v : Volume7} {u : Unit} : v.ready = .ok u ↔ v.fenced = false := by
  rw [Volume7.ready, reject_eq_ok, Bool.not_eq_true]

/-! ### Nodes -/

section
variable {v : Volume7}

/-- The position of a node holds a live node of that id. -/
theorem nodePosition_spec {id : UInt32} {i : Fin 256} (h : v.nodePosition id = some i) :
    v.nodes[i].kind ≠ .empty ∧ v.nodes[i].id = id := by
  have hp := List.find?_some h
  exact of_decide_eq_true hp

/-- `stat` answers with a live node of the id. -/
theorem stat_spec {id : UInt32} {n : Node7} (h : v.stat id = .ok n) :
    ∃ i : Fin 256, v.nodes[i] = n ∧ n.kind ≠ .empty ∧ n.id = id := by
  simp only [Volume7.stat, except_bind_eq_ok, orRefuse_eq_ok] at h
  obtain ⟨_, -, h⟩ := h
  have hp := List.find?_some h
  obtain ⟨i, hi⟩ := mem_toList_nodes.mp (List.mem_of_find?_eq_some h)
  exact ⟨i, hi, of_decide_eq_true hp⟩

/-- A name that is not found under a live directory is not taken. -/
theorem lookup_notFound {parent : UInt32} {name : List UInt8} {directory : Node7}
    (hdir : v.stat parent = .ok directory) (h : v.lookup parent name = .error .notFound)
    (i : Fin 256) (hk : v.nodes[i].kind ≠ .empty) :
    ¬ (v.nodes[i].parent = parent ∧ v.nodes[i].name = name) := by
  intro hcontra
  have hmem := getElem_mem_nodes v.nodes i
  unfold Volume7.lookup at h
  cases hready : v.ready with
  | error e =>
    rw [Volume7.stat, hready] at hdir
    cases hdir
  | ok u =>
    cases hname : validName name with
    | error e =>
      rw [hready, hname] at h
      simp only [bind, Except.bind, Except.error.injEq] at h
      rw [h, validName] at hname
      unfold reject at hname
      split at hname <;> cases hname
    | ok u =>
      have hfind : v.nodes.toList.find? (fun node => decide (node.kind ≠ .empty
          ∧ node.parent = parent ∧ node.name = name)) = none := by
        cases hf : v.nodes.toList.find? (fun node => decide (node.kind ≠ .empty
          ∧ node.parent = parent ∧ node.name = name)) with
        | none => rfl
        | some node =>
          rw [hready, hname, hdir, hf] at h
          by_cases hp : parent = 0 <;> by_cases hk : directory.kind = .directory <;>
            simp [hp, hk, bind, Except.bind, reject] at h
      rw [List.find?_eq_none] at hfind
      exact hfind _ hmem (decide_eq_true ⟨hk, hcontra⟩)

end

/-! ### Retained records -/

section
variable {v : Volume7}

variable {r : Record7} {identity : WriteIdentity7}

/-- Two scopes agree field by field. -/
theorem scope_eq_iff :
    r.scope = identity.scope ↔ r.subject = identity.subject ∧ r.workspace = identity.workspace
      ∧ r.retryEpoch = identity.retryEpoch ∧ r.retryKey = identity.retryKey := by
  rw [Record7.scope, WriteIdentity7.scope, Scope.mk.injEq]

/-- A record of the identity's scope. -/
theorem sameRetryScope_iff : sameRetryScope r identity = true ↔ r.scope = identity.scope := by
  rw [scope_eq_iff]
  simp [sameRetryScope, and_assoc]

/-- A record of the same write, not only of its scope. -/
theorem sameRecordIdentity_iff {version : UInt64} :
    sameRecordIdentity r identity version = true
      ↔ (r.object = identity.object ∧ r.inst = identity.inst ∧ r.previous = version)
        ∧ r.scope = identity.scope := by
  rw [sameRecordIdentity, Bool.and_eq_true, sameRetryScope_iff]
  simp [and_assoc]

/-- A retry that is found is retained under the scope. -/
theorem findRetry_some (h : v.findRetry identity = some r) :
    ∃ i : Fin 8, v.records[i] = some r ∧ r.scope = identity.scope := by
  have hp := List.find?_some h
  obtain ⟨i, hi⟩ := mem_toList_records.mp
    (List.reduceOption_mem_iff.mp (List.mem_of_find?_eq_some h))
  exact ⟨i, hi, scope_eq_iff.mpr (of_decide_eq_true hp)⟩

/-- A retry that is not found has no record. -/
theorem findRetry_none (h : v.findRetry identity = none) {i : Fin 8} (hr : v.records[i] = some r) :
    r.scope ≠ identity.scope := by
  intro hs
  rw [Volume7.findRetry, List.find?_eq_none] at h
  have hmem : r ∈ v.records.toList.reduceOption :=
    List.reduceOption_mem_iff.mpr (mem_toList_records.mpr ⟨i, hr⟩)
  exact h r hmem (decide_eq_true (scope_eq_iff.mp hs))

/-- The record a lookup answers with. -/
theorem lookupRecord_spec {slot : Fin 8} (h : lookupRecord v identity = .ok (slot, r)) :
    v.records[slot] = some r ∧ r.scope = identity.scope := by
  unfold lookupRecord at h
  split at h
  · rename_i found hfound
    cases h
    obtain ⟨i, -, hi⟩ := List.exists_of_findSome?_eq_some hfound
    rw [Option.map_eq_some_iff] at hi
    obtain ⟨r', hr', heq⟩ := hi
    cases heq
    rw [Option.filter_eq_some_iff] at hr'
    exact ⟨hr'.1, sameRetryScope_iff.mp hr'.2⟩
  · split at h <;> cases h

/-- A record slot is free and not reserved for a stage. -/
theorem freeRecordSlot_spec {slot : Fin 8} (h : v.freeRecordSlot = .ok slot) :
    v.records[slot] = none ∧ v.reservedRecords < v.freeRecords := by
  simp only [Volume7.freeRecordSlot, except_bind_eq_ok, reject_eq_ok, orRefuse_eq_ok] at h
  obtain ⟨_, hlt, h⟩ := h
  have hp := List.find?_some h
  exact ⟨Option.isNone_iff_eq_none.mp hp, by omega⟩

end

/-! ### Stages -/

section
variable {v : Volume7}

/-- The open slots are those of the table. -/
theorem mem_openSlots {slot : StageSlot} :
    slot ∈ v.openSlots ↔ ∃ i : Fin 2, v.stages[i] = some slot := by
  rw [Volume7.openSlots, List.reduceOption_mem_iff, Vector.mem_toList_iff, Vector.mem_iff_getElem]
  constructor
  · rintro ⟨i, hi, h⟩
    exact ⟨⟨i, hi⟩, h⟩
  · rintro ⟨i, h⟩
    exact ⟨i.val, i.isLt, h⟩

/-- A scope is held by an open stage of it. -/
theorem stageHoldsScope_iff {identity : WriteIdentity7} :
    v.stageHoldsScope identity = true
      ↔ ∃ (i : Fin 2) (slot : StageSlot), v.stages[i] = some slot
        ∧ slot.identity.scope = identity.scope := by
  rw [Volume7.stageHoldsScope, List.any_eq_true]
  constructor
  · rintro ⟨slot, hslot, h⟩
    obtain ⟨i, hi⟩ := mem_openSlots.mp hslot
    refine ⟨i, slot, hi, ?_⟩
    rw [WriteIdentity7.scope, WriteIdentity7.scope, Scope.mk.injEq]
    simpa [and_assoc] using h
  · rintro ⟨i, slot, hi, h⟩
    refine ⟨slot, mem_openSlots.mpr ⟨i, hi⟩, ?_⟩
    rw [WriteIdentity7.scope, WriteIdentity7.scope, Scope.mk.injEq] at h
    simpa [and_assoc] using h

/-- A stage that is found is open in its slot. -/
theorem stageIndex_spec {stage : Stage7} {i : Fin 2} {slot : StageSlot}
    (h : v.stageIndex stage = .ok (i, slot)) :
    v.stages[i] = some slot ∧ stage.slot.toNat = i.val := by
  unfold Volume7.stageIndex at h
  split at h
  · split at h
    · rename_i hslot
      split at h
      · cases h
        exact ⟨hslot, rfl⟩
      · cases h
    · cases h
  · cases h

/-- A bit of the planning map: allocated, or planned by an open fresh stage. -/
theorem get_planningMap
    (hlt : ∀ slot ∈ v.openSlots, ∀ s ∈ runSectors slot.freshRuns, s < dataSectors) (s : Nat) :
    Bitmap.get v.planningMap s = true ↔ Bitmap.get v.map s = true
      ∨ ∃ slot ∈ v.openSlots, s ∈ runSectors slot.freshRuns := by
  unfold Volume7.planningMap
  generalize v.map = map
  generalize v.openSlots = slots at hlt
  induction slots generalizing map with
  | nil => simp
  | cons slot slots ih =>
    rw [List.foldl_cons, ih _ (fun slot hslot => hlt slot (List.mem_cons_of_mem _ hslot)),
      mutateMap, Bitmap.get_setAll _ (hlt slot List.mem_cons_self)]
    simp only [List.mem_cons, exists_eq_or_imp]
    by_cases hs : s ∈ runSectors slot.freshRuns <;> simp [hs]

/-- One reservation for a fresh stage. -/
def reserves : Option StageSlot → Nat
  | none => 0
  | some slot => if slot.isFresh then 1 else 0

/-- The two slots reserve a record each, or none. -/
theorem reservedRecords_eq (v : Volume7) :
    v.reservedRecords = reserves v.stages[(0 : Fin 2)] + reserves v.stages[(1 : Fin 2)] := by
  have hlist : v.stages.toList = [v.stages[0], v.stages[1]] := by
    apply List.ext_getElem
    · simp
    · intro i h1 h2
      have : i = 0 ∨ i = 1 := by
        simp at h2
        omega
      rcases this with rfl | rfl <;> simp
  rw [Volume7.reservedRecords, Volume7.openSlots, hlist]
  show _ = reserves v.stages[0] + reserves v.stages[1]
  cases h0 : v.stages[0] <;> cases h1 : v.stages[1] <;>
    simp [List.reduceOption, reserves, List.countP_cons, Nat.add_comm]

/-- Filling an empty retained slot uses one up. -/
theorem freeRecords_set (records : Records7) {slot : Fin 8} (h : records[slot] = none)
    (r : Record7) :
    (records.setAt slot (some r)).toList.countP Option.isNone + 1
      = records.toList.countP Option.isNone := by
  have hlt : slot.val < records.toList.length := by simp
  have hget : records.toList[slot.val] = none := by simpa using h
  have hpos : 0 < records.toList.countP Option.isNone := by
    rw [List.countP_pos_iff]
    exact ⟨none, hget ▸ List.getElem_mem hlt, rfl⟩
  rw [Vector.toList_set, List.countP_set hlt, hget]
  simp only [Option.isNone_none, if_true, Option.isNone_some, Bool.false_eq_true, if_false]
  omega

/-- Overwriting a retained slot that is in use leaves the count. -/
theorem freeRecords_overwrite (records : Records7) {slot : Fin 8} {old : Record7}
    (h : records[slot] = some old) (r : Record7) :
    (records.setAt slot (some r)).toList.countP Option.isNone
      = records.toList.countP Option.isNone := by
  have hlt : slot.val < records.toList.length := by simp
  have hget : records.toList[slot.val] = some old := by simpa using h
  rw [Vector.toList_set, List.countP_set hlt, hget]
  simp

end

end RusticOs.Fs
