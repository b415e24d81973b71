import RusticOs.Proofs.Queries7

/-!
# `RusticOs.Proofs.Stages7`: what an open stage holds

A stage lives in memory only. `StageHolds g view slot bytes` says what it promises after
the caller supplied `bytes`: a fresh stage has planned free runs of the right shape and the
bytes are on the disk in its first sectors; a retry stage names a retained snapshot and
knows whether the bytes so far agree with it. `StagesHold` adds what holds between the
stages of one owner: disjoint plans, distinct scopes, and a retained slot for each fresh
stage.

* `StageHolds.transport`: an open stage survives any publication that leaves its planned
  sectors free and untouched and keeps the retained snapshots.
* `payload_write_next`: writing the next sector of a plan appends to the payload.
-/

set_option autoImplicit false

namespace RusticOs.Fs

open RusticOs.Lib
open Vector (setAt_ne setAt_self)

/-! ### Payload bytes by sector -/

/-- The bytes of a list of payload sectors. -/
def sectorBytes (img : Nat → Block) (sectors : List Nat) : List UInt8 :=
  sectors.flatMap fun s => (img (payloadSector + s)).toList

theorem payload_eq (img : Nat → Block) (runs : List Extent) (length : Nat) :
    payload img runs length = (sectorBytes img (runSectors runs)).take length := rfl

theorem length_sectorBytes (img : Nat → Block) (sectors : List Nat) :
    (sectorBytes img sectors).length = 512 * sectors.length := by
  induction sectors with
  | nil => rfl
  | cons s sectors ih =>
    rw [sectorBytes, List.flatMap_cons, List.length_append, Vector.length_toList,
      List.length_cons]
    unfold sectorBytes at ih
    omega

theorem sectorBytes_append (img : Nat → Block) (a b : List Nat) :
    sectorBytes img (a ++ b) = sectorBytes img a ++ sectorBytes img b := List.flatMap_append

variable {sectors : List Nat} {k s : Nat}

theorem sectorBytes_congr {img img' : Nat → Block}
    (h : ∀ s ∈ sectors, img' (payloadSector + s) = img (payloadSector + s)) :
    sectorBytes img' sectors = sectorBytes img sectors :=
  List.flatMap_congr fun s hs => by rw [h s hs]

/-- A payload that ends inside sector `k` is the sectors before it and a part of it. -/
theorem take_sectorBytes (img : Nat → Block) (hs : sectors[k]? = some s) {m : Nat} (hm : m ≤ 512) :
    (sectorBytes img sectors).take (512 * k + m)
      = sectorBytes img (sectors.take k) ++ (img (payloadSector + s)).toList.take m := by
  obtain ⟨hk, hget⟩ := List.getElem?_eq_some_iff.mp hs
  have hsplit : sectors = sectors.take k ++ s :: sectors.drop (k + 1) := by
    rw [← hget, ← List.drop_eq_getElem_cons hk, List.take_append_drop]
  have hlen : (sectorBytes img (sectors.take k)).length = 512 * k := by
    rw [length_sectorBytes, List.length_take, Nat.min_eq_left (by omega)]
  conv_lhs => rw [hsplit]
  rw [sectorBytes_append, ← hlen, List.take_length_add_append]
  congr 1
  rw [sectorBytes, List.flatMap_cons, List.take_append_of_le_length (by simpa using hm)]

/-- The payload of whole sectors. -/
theorem take_sectorBytes_whole (img : Nat → Block) (hk : k ≤ sectors.length) :
    (sectorBytes img sectors).take (512 * k) = sectorBytes img (sectors.take k) := by
  have hlen : (sectorBytes img (sectors.take k)).length = 512 * k := by
    rw [length_sectorBytes, List.length_take, Nat.min_eq_left hk]
  conv_lhs => rw [← List.take_append_drop k sectors]
  rw [sectorBytes_append, ← hlen, List.take_left]

/-- The next sector of a payload: what was there, then what the sector holds. -/
theorem payload_next (img : Nat → Block) {runs : List Extent} {m : Nat}
    (hs : (runSectors runs)[k]? = some s) (hm : m ≤ 512) :
    payload img runs (512 * k + m)
      = payload img runs (512 * k) ++ (img (payloadSector + s)).toList.take m := by
  have hk : k < (runSectors runs).length := (List.getElem?_eq_some_iff.mp hs).1
  rw [payload_eq, payload_eq, take_sectorBytes img hs hm, take_sectorBytes_whole img (by omega)]

/-- Writing the next sector appends to the payload. -/
theorem payload_write_next {img : Nat → Block} {runs : List Extent}
    (hnodup : (runSectors runs).Nodup) (hs : (runSectors runs)[k]? = some s) {bytes : List UInt8}
    (hbytes : bytes.length ≤ 512) :
    payload (Function.update img (payloadSector + s) (payloadBlock bytes)) runs
        (512 * k + bytes.length)
      = payload img runs (512 * k) ++ bytes := by
  obtain ⟨hk, hget⟩ := List.getElem?_eq_some_iff.mp hs
  rw [payload_next _ hs hbytes, Function.update_self]
  congr 1
  · rw [payload_eq, payload_eq, take_sectorBytes_whole _ (by omega),
      take_sectorBytes_whole _ (by omega)]
    apply sectorBytes_congr
    intro t ht
    apply Function.update_of_ne
    intro heq
    -- the earlier sectors of the runs are other sectors
    have hts : t = s := by omega
    obtain ⟨i, hi, hti⟩ := List.getElem_of_mem ht
    rw [List.length_take] at hi
    rw [List.getElem_take, hts, ← hget, hnodup.getElem_inj_iff] at hti
    omega
  · rw [payloadBlock, Bytes.toList_pack, List.take_take, Nat.min_eq_left hbytes, List.take_left]

/-! ### Open stages -/

/-- Two records of one outcome: they differ at most in what an execution or a cancellation
changes. -/
structure SameSnapshot (a b : Record7) : Prop where
  scope : a.scope = b.scope
  object : a.object = b.object
  inst : a.inst = b.inst
  previous : a.previous = b.previous
  length : a.length = b.length
  payloadCrc32 : a.payloadCrc32 = b.payloadCrc32
  extentsUsed : a.extentsUsed = b.extentsUsed
  extents : a.extents = b.extents

theorem SameSnapshot.refl (r : Record7) : SameSnapshot r r :=
  ⟨rfl, rfl, rfl, rfl, rfl, rfl, rfl, rfl⟩

theorem SameSnapshot.runs {a b : Record7} (h : SameSnapshot a b) : a.runs = b.runs := by
  rw [Record7.runs, Record7.runs, h.extents, h.extentsUsed]

/-- The snapshot of a record is still retained. A direct commit is retained unchanged. -/
def Retained (records : Records7) (record : Record7) : Prop :=
  ∃ (i : Fin 8) (current : Record7), records[i] = some current ∧ SameSnapshot current record
    ∧ (record.state = .directCommitted → current = record)

/-- A fresh stage: a planned payload whose first bytes are on the disk. -/
structure FreshHolds (map : SpaceMap) (view : Nat → Block) (slot : StageSlot)
    (plan : PayloadPlan) (bytes : List UInt8) : Prop where
  planned : PlanFor map plan slot.length
  stored : payload view plan.runs bytes.length = bytes
  checksum : slot.checksum = crcUpdate crcInit bytes

/-- A retry stage: a retained snapshot and whether the bytes so far agree with it. -/
structure RetryHolds (records : Records7) (view : Nat → Block) (slot : StageSlot)
    (record : Record7) (matching : Bool) (bytes : List UInt8) : Prop where
  retained : Retained records record
  scope : record.scope = slot.identity.scope
  length : record.length = slot.length
  answers : record.object = slot.identity.object ∧ record.inst = slot.identity.inst
    ∧ record.previous = slot.expectedVersion
  tracked : slot.kind = .tracked → record.state = .directCommitted
  agrees : matching = decide (payload view record.runs bytes.length = bytes)
  checksum : slot.checksum = crcUpdate crcInit (payload view record.runs bytes.length)

/-- What an open stage holds once `bytes` have been supplied. -/
structure StageHolds (g : Generation7) (view : Nat → Block) (slot : StageSlot)
    (bytes : List UInt8) : Prop where
  written : slot.written.toNat = bytes.length
  within : bytes.length ≤ slot.length.toNat
  whole : bytes.length = slot.length.toNat ∨ bytes.length % 512 = 0
  size : slot.length.toNat ≤ maxFileBytes
  fresh : ∀ plan, slot.mode = .fresh plan → FreshHolds g.map view slot plan bytes
  retry : ∀ record matching, slot.mode = .retry record matching →
    RetryHolds g.records view slot record matching bytes

/-- Everything the open stages of an owner hold. -/
structure StagesHold (v : Volume7) (view : Nat → Block) (staged : Fin 2 → List UInt8) : Prop where
  holds : ∀ (i : Fin 2) (slot : StageSlot), v.stages[i] = some slot →
    StageHolds v.toGeneration7 view slot (staged i)
  disjoint : ∀ (i j : Fin 2) (a b : StageSlot), i ≠ j → v.stages[i] = some a →
    v.stages[j] = some b → (runSectors a.freshRuns).Disjoint (runSectors b.freshRuns)
  scopes : ∀ (i j : Fin 2) (a b : StageSlot), i ≠ j → v.stages[i] = some a →
    v.stages[j] = some b → a.identity.scope ≠ b.identity.scope
  room : v.reservedRecords ≤ v.freeRecords

theorem freshRuns_of_fresh {slot : StageSlot} {plan : PayloadPlan} (h : slot.mode = .fresh plan) :
    slot.freshRuns = plan.runs := by
  rw [StageSlot.freshRuns, h]

theorem freshRuns_of_retry {slot : StageSlot} {record : Record7} {matching : Bool}
    (h : slot.mode = .retry record matching) : slot.freshRuns = [] := by
  rw [StageSlot.freshRuns, h]

section
variable {g g' : Generation7} {view view' : Nat → Block} {slot : StageSlot} {bytes : List UInt8}

variable {map : SpaceMap} {plan : PayloadPlan} {length : UInt32}

/-- The sectors of a plan lie in the payload region. -/
theorem PlanFor.lt (h : PlanFor map plan length) {s : Nat} (hs : s ∈ runSectors plan.runs) :
    s < dataSectors := by
  refine h.shape.lt ?_
  rw [h.toNat_used]
  exact hs

theorem PlanFor.nodup (h : PlanFor map plan length) : (runSectors plan.runs).Nodup := by
  have := h.shape.nodup
  rwa [h.toNat_used] at this

theorem PlanFor.length_sectors (h : PlanFor map plan length) :
    (runSectors plan.runs).length = sectorsFor length.toNat := by
  have := h.shape.length_sectors
  rwa [h.toNat_used] at this

theorem PlanFor.mono {map' : SpaceMap} (h : PlanFor map plan length)
    (hfree : ∀ s ∈ runSectors plan.runs, Bitmap.get map' s = false) : PlanFor map' plan length :=
  ⟨h.used_le, h.shape, hfree⟩

namespace StageHolds

/-- The planned sectors of a stage are free. -/
theorem free (h : StageHolds g view slot bytes) {s : Nat} (hs : s ∈ runSectors slot.freshRuns) :
    s < dataSectors ∧ Bitmap.get g.map s = false := by
  cases hmode : slot.mode with
  | fresh plan =>
    have hplan := (h.fresh plan hmode).planned
    rw [freshRuns_of_fresh hmode] at hs
    exact ⟨hplan.lt hs, hplan.free s hs⟩
  | retry record matching =>
    rw [freshRuns_of_retry hmode] at hs
    cases hs

/-- A stage survives a publication that leaves its planned sectors free and untouched and
keeps the retained snapshots. -/
theorem transport (h : StageHolds g view slot bytes)
    (hv : ValidGeneration g.header g.nodes g.records g.map)
    (hfree : ∀ s ∈ runSectors slot.freshRuns, Bitmap.get g'.map s = false)
    (hplanned : ∀ s ∈ runSectors slot.freshRuns,
      view' (payloadSector + s) = view (payloadSector + s))
    (hretained : ∀ record, Retained g.records record → Retained g'.records record)
    (hallocated : ∀ s, Bitmap.get g.map s = true →
      view' (payloadSector + s) = view (payloadSector + s)) :
    StageHolds g' view' slot bytes where
  written := h.written
  within := h.within
  whole := h.whole
  size := h.size
  fresh := by
    intro plan hmode
    have hf := h.fresh plan hmode
    rw [freshRuns_of_fresh hmode] at hfree hplanned
    refine ⟨hf.planned.mono hfree, ?_, hf.checksum⟩
    rw [payload_congr hplanned]
    exact hf.stored
  retry := by
    intro record matching hmode
    have hr := h.retry record matching hmode
    have hpayload : payload view' record.runs bytes.length
        = payload view record.runs bytes.length := by
      obtain ⟨i, current, hi, hsame, -⟩ := hr.retained
      rw [← hsame.runs]
      exact payload_congr fun s hs => hallocated s (hv.record_sectors hi hs)
    refine ⟨hretained record hr.retained, hr.scope, hr.length, hr.answers, hr.tracked, ?_, ?_⟩
    · rw [hpayload]
      exact hr.agrees
    · rw [hpayload]
      exact hr.checksum

end StageHolds

end

/-! ### Opening and closing slots -/

section
variable {v v' : Volume7} {view view' : Nat → Block} {staged : Fin 2 → List UInt8}

/-- The stages of an owner survive a publication that leaves their planned sectors free and
untouched, keeps the retained snapshots, and leaves enough retained slots. -/
theorem StagesHold.transport (h : StagesHold v view staged) (hv : v.Valid)
    (hstages : v'.stages = v.stages)
    (hplanned : ∀ (i : Fin 2) (slot : StageSlot), v.stages[i] = some slot →
      ∀ s ∈ runSectors slot.freshRuns, Bitmap.get v'.map s = false
        ∧ view' (payloadSector + s) = view (payloadSector + s))
    (hretained : ∀ record, Retained v.records record → Retained v'.records record)
    (hallocated : ∀ s, Bitmap.get v.map s = true →
      view' (payloadSector + s) = view (payloadSector + s))
    (hroom : v.reservedRecords ≤ v'.freeRecords) : StagesHold v' view' staged where
  holds := by
    intro i slot hi
    rw [hstages] at hi
    exact (h.holds i slot hi).transport hv (fun s hs => (hplanned i slot hi s hs).1)
      (fun s hs => (hplanned i slot hi s hs).2) hretained hallocated
  disjoint := by
    rw [hstages]
    exact h.disjoint
  scopes := by
    rw [hstages]
    exact h.scopes
  room := by
    rw [reservedRecords_eq, hstages, ← reservedRecords_eq]
    exact hroom

/-- The reservations after one slot changed. -/
theorem reservedRecords_set (v : Volume7) (i : Fin 2) (slot : Option StageSlot) :
    ({ v with stages := v.stages.setAt i slot } : Volume7).reservedRecords + reserves v.stages[i]
      = v.reservedRecords + reserves slot := by
  rw [reservedRecords_eq, reservedRecords_eq]
  obtain rfl | rfl : i = 0 ∨ i = 1 := by omega
  · rw [setAt_self, setAt_ne v.stages (by decide : (1 : Fin 2) ≠ 0)]
    omega
  · rw [setAt_self, setAt_ne v.stages (by decide : (0 : Fin 2) ≠ 1)]
    omega

/-- Closing a stage keeps the others. -/
theorem StagesHold.close (h : StagesHold v view staged) (i : Fin 2) :
    StagesHold { v with stages := v.stages.setAt i none } view staged where
  holds := by
    intro j slot hj
    by_cases hji : j = i
    · rw [hji, setAt_self] at hj
      cases hj
    · rw [setAt_ne _ hji] at hj
      exact h.holds j slot hj
  disjoint := by
    intro j k a b hne ha hb
    by_cases hji : j = i
    · rw [hji, setAt_self] at ha
      cases ha
    by_cases hki : k = i
    · rw [hki, setAt_self] at hb
      cases hb
    rw [setAt_ne _ hji] at ha
    rw [setAt_ne _ hki] at hb
    exact h.disjoint j k a b hne ha hb
  scopes := by
    intro j k a b hne ha hb
    by_cases hji : j = i
    · rw [hji, setAt_self] at ha
      cases ha
    by_cases hki : k = i
    · rw [hki, setAt_self] at hb
      cases hb
    rw [setAt_ne _ hji] at ha
    rw [setAt_ne _ hki] at hb
    exact h.scopes j k a b hne ha hb
  room := by
    have hset := reservedRecords_set v i none
    have hroom := h.room
    rw [reserves] at hset
    show _ ≤ v.freeRecords
    omega

/-- Opening a stage in a closed slot, or storing the next state of one that was taken out. -/
theorem StagesHold.open (h : StagesHold v view staged) {i : Fin 2} (hi : v.stages[i] = none)
    {slot : StageSlot} {bytes : List UInt8} (hslot : StageHolds v.toGeneration7 view slot bytes)
    (hdisjoint : ∀ (j : Fin 2) (other : StageSlot), v.stages[j] = some other →
      (runSectors slot.freshRuns).Disjoint (runSectors other.freshRuns))
    (hscopes : ∀ (j : Fin 2) (other : StageSlot), v.stages[j] = some other →
      slot.identity.scope ≠ other.identity.scope)
    (hroom : v.reservedRecords + reserves (some slot) ≤ v.freeRecords) :
    StagesHold { v with stages := v.stages.setAt i (some slot) } view
      (Function.update staged i bytes) where
  holds := by
    intro j other hj
    by_cases hji : j = i
    · subst hji
      rw [setAt_self, Option.some.injEq] at hj
      rw [Function.update_self, ← hj]
      exact hslot
    · rw [setAt_ne _ hji] at hj
      rw [Function.update_of_ne hji]
      exact h.holds j other hj
  disjoint := by
    intro j k a b hne ha hb
    by_cases hji : j = i
    · rw [hji, setAt_self, Option.some.injEq] at ha
      rw [setAt_ne _ (fun hk => hne (hji.trans hk.symm))] at hb
      exact ha ▸ hdisjoint k b hb
    rw [setAt_ne _ hji] at ha
    by_cases hki : k = i
    · rw [hki, setAt_self, Option.some.injEq] at hb
      exact hb ▸ (hdisjoint j a ha).symm
    rw [setAt_ne _ hki] at hb
    exact h.disjoint j k a b hne ha hb
  scopes := by
    intro j k a b hne ha hb
    by_cases hji : j = i
    · rw [hji, setAt_self, Option.some.injEq] at ha
      rw [setAt_ne _ (fun hk => hne (hji.trans hk.symm))] at hb
      exact ha ▸ hscopes k b hb
    rw [setAt_ne _ hji] at ha
    by_cases hki : k = i
    · rw [hki, setAt_self, Option.some.injEq] at hb
      exact hb ▸ (hscopes j a ha).symm
    rw [setAt_ne _ hki] at hb
    exact h.scopes j k a b hne ha hb
  room := by
    have hset := reservedRecords_set v i (some slot)
    rw [hi] at hset
    rw [reserves] at hset
    show _ ≤ v.freeRecords
    omega

end

end RusticOs.Fs
