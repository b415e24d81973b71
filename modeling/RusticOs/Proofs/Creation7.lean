import RusticOs.Proofs.Finishing7
import RusticOs.Proofs.Planner7

/-!
# `RusticOs.Proofs.Creation7`: calls that nothing refuses

On a ready owner, a valid name that is free in a writable directory is created: the lookups answer
from the tables, the new tables are well formed, and the publication returns when the disk answers
every command (`create_returns`). So does a replacement whose preflight has passed
(`replaceTracked_returns`).

The owners at the end are what the examples of later modules start from: one with a file, one
whose file was written, and one with two open stages.
-/

set_option autoImplicit false

namespace RusticOs.Fs

open RusticOs.Lib RusticOs.Lib.Fallible

/-! ### Lookups on well-formed tables -/

section
variable {v : Volume7} {j : Fin 256}

variable (h : WellFormed v.header v.nodes v.records v.map)
include h

theorem live_iff_kind : Live v.nodes j ↔ v.nodes[j].kind ≠ .empty :=
  (validGeneration_iff.mpr h).live_iff j

theorem stat_live (hv : v.fenced = false) (hj : Live v.nodes j) :
    v.stat v.nodes[j].id = .ok v.nodes[j] := by
  have hready : v.ready = .ok () := Volume7.ready_eq_ok.mpr hv
  rw [Volume7.stat, hready, ok_bind]
  cases hfind : v.nodes.toList.find? fun node =>
      decide (node.kind ≠ .empty ∧ node.id = v.nodes[j].id) with
  | none =>
    have hnot := List.find?_eq_none.mp hfind _ (getElem_mem_nodes v.nodes j)
    exact absurd (decide_eq_true ⟨(live_iff_kind h).mp hj, rfl⟩) hnot
  | some n =>
    obtain ⟨k, rfl⟩ := mem_toList_nodes.mp (List.mem_of_find?_eq_some hfind)
    have hfound := List.find?_some hfind
    obtain ⟨hkind, hid⟩ := of_decide_eq_true hfound
    rw [h.ids k j ((live_iff_kind h).mpr hkind) hj hid]
    rfl

theorem nameFree_ok (hv : v.fenced = false) {name : List UInt8} (hname : validName name = .ok ())
    (hj : Live v.nodes j) (hkind : v.nodes[j].kind = .directory)
    (hfree : ∀ k, Live v.nodes k →
      ¬ (v.nodes[k].parent = v.nodes[j].id ∧ v.nodes[k].name = name)) :
    nameFree v v.nodes[j].id name = .ok () := by
  have hready : v.ready = .ok () := Volume7.ready_eq_ok.mpr hv
  have hfind : v.nodes.toList.find? (fun node => decide (node.kind ≠ .empty
      ∧ node.parent = v.nodes[j].id ∧ node.name = name)) = none := by
    rw [List.find?_eq_none]
    intro n hn hsame
    obtain ⟨k, rfl⟩ := mem_toList_nodes.mp hn
    obtain ⟨hlive, hnamed⟩ := of_decide_eq_true hsame
    exact hfree k ((live_iff_kind h).mpr hlive) hnamed
  have hlookup : v.lookup v.nodes[j].id name = .error .notFound := by
    rw [Volume7.lookup, hready, ok_bind, hname, ok_bind, hfind]
    split
    · rw [stat_live h hv hj, ok_bind, reject_of_not (not_not.mpr hkind), ok_bind]
      rfl
    · rfl
  rw [nameFree, hlookup]

end

/-! ### Creation -/

section
variable {w : World7} {staged : Fin 2 → List UInt8} {slot j : Fin 256} {parent : UInt32}
  {name : List UInt8} {kind : Kind}

/-- What a creation of a node in the directory of slot `j` needs. -/
structure CanCreate (g : Generation7) (slot j : Fin 256) (parent : UInt32) (name : List UInt8)
    (kind : Kind) : Prop where
  sequence : g.header.sequence.toNat + 1 < 2 ^ 64
  next : g.header.next.toNat + 1 < 2 ^ 32
  kind_ne : kind ≠ .empty
  valid : validName name = .ok ()
  live : Live g.nodes j
  parent_id : g.nodes[j].id = parent
  directory : g.nodes[j].kind = .directory
  writable : g.nodes[j].space ≠ 1
  free : ∀ k, Live g.nodes k →
    ¬ (g.nodes[k].parent = parent ∧ g.nodes[k].name = name)
  found : ((List.finRange 256).find? fun i => g.nodes[i].kind = .empty) = some slot

/-- The node a creation in the directory of slot `j` makes. -/
def madeNode (g : Generation7) (j : Fin 256) (parent : UInt32) (name : List UInt8)
    (kind : Kind) : Node7 :=
  createdNode g.header.next parent (g.header.sequence + 1) g.nodes[j].space name kind

theorem payloadShape_none : PayloadShape (Vector.replicate 8 Extent.zero) 0 0 :=
  ⟨by decide, by decide, nofun, nofun,
    List.Pairwise.nil, by decide, by decide⟩

section
variable (h : Ready w staged) (hc : CanCreate w.volume.toGeneration7 slot j parent name kind)
include h hc

theorem madeNode_shape : (madeNode w.volume.toGeneration7 j parent name kind).Shape where
  id_ne := by
    have hmin := h.wellFormed.head.next_ge
    intro hzero
    rw [show w.volume.header.next = 0 from hzero] at hmin
    exact absurd hmin (by decide)
  version_ne := by
    intro hzero
    have hnext := toNat_next_sequence hc.sequence
    rw [show (nextHeader w.volume.header).sequence = 0 from hzero] at hnext
    exact nomatch hnext
  kind_ne := hc.kind_ne
  space := (h.wellFormed.node j hc.live).shape.space
  nameLength_le := by
    show (UInt8.ofNat name.length).toNat ≤ 31
    rw [validName_nameLength hc.valid]
    exact validName_length hc.valid
  name := by rw [madeNode, createdNode_name hc.valid]; exact hc.valid
  padding := by
    have hle := validName_length hc.valid
    show allZero ((Bytes.pack 32 name).toList.drop (UInt8.ofNat name.length).toNat) = true
    rw [validName_nameLength hc.valid, Bytes.toList_pack, List.drop_take, List.drop_left]
    rw [zeros, List.take_replicate]
    exact allZero_zeros _
  directory := fun _ => ⟨rfl, rfl, rfl⟩
  payload := payloadShape_none

theorem CanCreate.creates :
    Creates w.volume.header w.volume.nodes slot j
      (madeNode w.volume.toGeneration7 j parent name kind) where
  room := hc.sequence
  free := by
    have hkind := List.find?_some hc.found
    by_contra hlive
    exact (live_iff_kind h.wellFormed).mp hlive (by simpa using hkind)
  shape := madeNode_shape h hc
  crc := fun _ _ => crc_nil.symm
  id := rfl
  version := rfl
  below := hc.parent_id ▸ (h.wellFormed.node j hc.live).shape.id_ne
  directory := ⟨hc.live, hc.parent_id, hc.directory, rfl⟩
  name := by
    intro k hk
    rw [madeNode, createdNode_name hc.valid]
    exact hc.free k hk
  runs := rfl

/-- The volume a creation publishes. -/
def createdVolume (v : Volume7) (slot j : Fin 256) (parent : UInt32) (name : List UInt8)
    (kind : Kind) : Volume7 :=
  { v with
    fenced := true, nodes := v.nodes.setAt slot (madeNode v.toGeneration7 j parent name kind)
    header := { v.header with next := v.header.next + 1 } }

theorem create_run :
    (create parent name kind).run w
      = (do
          publishNamespace
          pure (madeNode w.volume.toGeneration7 j parent name kind) : Op Node7).run
          { w with volume := createdVolume w.volume slot j parent name kind } := by
  have hready : w.volume.ready = .ok () := Volume7.ready_eq_ok.mpr h.unfenced
  have hstat : w.volume.stat parent = .ok w.volume.nodes[j] :=
    hc.parent_id ▸ stat_live h.wellFormed h.unfenced hc.live
  have hfree : nameFree w.volume parent name = .ok () := by
    have hfree := hc.free
    rw [← hc.parent_id] at hfree ⊢
    exact nameFree_ok h.wellFormed h.unfenced hc.valid hc.live hc.directory hfree
  have hid : w.volume.header.nextId = .ok w.volume.header.next := by
    rw [Header7.nextId, reject_of_not, ok_bind]
    · rfl
    · intro hmax
      have := hc.next
      rw [hmax] at this
      exact absurd this (by decide)
  have hnext : w.volume.header.next.toNat + (1 : UInt32).toNat
      = (w.volume.header.next + 1).toNat := by
    rw [UInt32.toNat_add]
    exact (Nat.mod_eq_of_lt hc.next).symm
  rw [create, run_getVolume_bind, hready, lift_ok_bind, hc.valid, lift_ok_bind,
    run_refuse_bind_of_not hc.kind_ne, hstat, lift_ok_bind, run_refuse_bind_of_not hc.writable,
    run_refuse_bind_of_not (not_not.mpr hc.directory), hfree, lift_ok_bind, hc.found, orRefuse_some,
    lift_ok_bind, hid, lift_ok_bind, checkedAdd32_eq_some.mpr hnext, orRefuse_some, lift_ok_bind,
    checkedAdd_eq_some.mpr (toNat_next_sequence hc.sequence).symm, orRefuse_some, lift_ok_bind,
    run_setVolume_bind]
  rfl

/-- On a disk that answers every command the creation returns. -/
theorem create_returns (hd : w.disk.AllDone) : ∃ d : Disk, d.AllDone ∧
      (create parent name kind).run w
        = (.ok (madeNode w.volume.toGeneration7 j parent name kind), { w with
            volume := publishedVolume (createdVolume w.volume slot j parent name kind)
            disk := d }) :=
    by
  have hpub : Publishable { w.volume.header with next := w.volume.header.next + 1 }
      (w.volume.nodes.setAt slot (madeNode w.volume.toGeneration7 j parent name kind))
      w.volume.records w.volume.map :=
    ⟨hc.sequence, validGeneration_iff.mpr (h.wellFormed.create (hc.creates h) hc.next)⟩
  obtain ⟨d, hall, hrun⟩ := publishNamespace_returns
    (w := { w with volume := createdVolume w.volume slot j parent name kind }) hpub hd
  refine ⟨d, hall, ?_⟩
  rw [create_run h hc, run_bind, hrun]
  rfl

end

end

/-! ### Tracked writes -/

/-- A tracked stage that its preflight does not refuse is fresh. -/
theorem openSlot_fresh {v : Volume7} {identity : WriteIdentity7} {expectedVersion : UInt64}
    {length : UInt32} {target : TrackedTarget} {plan : PayloadPlan} (hw : v.fenced = false)
    (hidentity : v.validateIdentity identity = .ok ())
    (hscope : v.stageHoldsScope identity = false) (hfirst : v.findRetry identity = none)
    (htarget : trackedTarget v identity expectedVersion = .ok target)
    (hplan : planPayload v.planningMap length.toNat = .ok plan) :
    openSlot v identity expectedVersion length .tracked
      = .ok (openedSlot identity expectedVersion length .tracked (.fresh plan)) := by
  have hsize : ¬ length.toNat > maxFileBytes := by
    obtain ⟨_, hsize, -⟩ := except_bind_eq_ok.mp hplan
    exact reject_eq_ok.mp hsize
  have hready : v.ready = .ok () := Volume7.ready_eq_ok.mpr hw
  simp only [openSlot, hready, ok_bind, reject_of_not hsize, hidentity, hscope, Bool.false_eq_true,
    reject_of_not not_false, openTracked, hfirst, htarget, hplan]
  rfl

/-- A fresh stage that was supplied its next sector. -/
def StageSlot.filled (slot : StageSlot) (data : List UInt8) : StageSlot :=
  { slot with
    checksum := crcUpdate slot.checksum data
    written := slot.written + UInt32.ofNat data.length }

section
variable {w : World7} {staged : Fin 2 → List UInt8} {identity : WriteIdentity7}
  {expectedVersion : UInt64} {slot : StageSlot} {plan : PayloadPlan} {target : TrackedTarget}
  {data : List UInt8}

/-- On a disk that answers, a sector of a fresh stage is written. -/
theorem writeSlot_returns (hmode : slot.mode = .fresh plan) (hdata : ¬ slot.Misfits data)
    {sector : Nat} (hsector : (runSectors slot.runs)[slot.written.toNat / 512]? = some sector)
    (hd : w.disk.AllDone) : ∃ d : Disk, d.AllDone
      ∧ d.medium = w.disk.medium.effect (slot.command sector data)
      ∧ (writeSlot slot data).run w = (.ok (slot.filled data), { w with disk := d }) := by
  have hran := writeSlot_ran (w := w) hdata hsector hd.1
  rw [next_of_fresh _ sector data hmode] at hran
  generalize (writeSlot slot data).run w = r at hran ⊢
  cases hran with
  | done d medium idle live => exact ⟨d, live hd, medium, rfl⟩
  | released e d medium idle broken => exact absurd hd broken
  | fenced d medium idle broken => exact absurd hd broken

section
variable (ready : Ready w staged) (hd : w.disk.AllDone) (hone : data.length ≤ 512)
  (hslot : openSlot w.volume identity expectedVersion (UInt32.ofNat data.length) .tracked
    = .ok slot) (hmode : slot.mode = .fresh plan)
include ready hd hone hslot hmode

/-- A replacement by at most one sector is written, and the owner keeps what its stages hold. -/
theorem writeSectors_returns : ∃ d : Disk, d.AllDone
    ∧ (writeSectors slot (chunks 512 (sectorsFor data.length) data)).run w
      = (.ok (slot.filled data), { w with disk := d })
    ∧ Held { w with disk := d } staged (slot.filled data) data
    ∧ data.length = slot.length.toNat ∧ { w with disk := d }.contents = w.contents := by
  have hopened := openSlot_spec ready hslot
  have hheld := hopened.held
  have hlength : data.length = slot.length.toNat := by
    rw [hopened.request.2.2.1]
    exact (UInt32.toNat_ofNat_of_lt' (by show _ < 2 ^ 32; omega)).symm
  rcases Nat.eq_zero_or_pos data.length with hzero | hpos
  · obtain rfl := List.length_eq_zero_iff.mp hzero
    have hsame : slot.filled [] = slot := by simp [StageSlot.filled, crcUpdate]
    rw [hsame]
    exact ⟨w.disk, hd, rfl, hheld, hlength, rfl⟩
  have hchunks : chunks 512 (sectorsFor data.length) data = [data] := by
    rw [show sectorsFor data.length = 1 by unfold sectorsFor; omega, chunks,
      List.take_of_length_le hone]
    rfl
  have hdata : ¬ slot.Misfits data := by
    have hfit : ¬ slot.Misfits (data.take 512) := chunk_length hpos (by
      rw [hheld.holds.written, ← hlength, List.length_nil, Nat.zero_add])
    rwa [List.take_of_length_le hone] at hfit
  have hnext := hheld.holds.nextSector hdata
  obtain ⟨sector, hsector⟩ := hheld.exists_sector hnext
  obtain ⟨d, hdone, hmedium, hwrite⟩ := writeSlot_returns (w := w) hmode hdata hsector hd
  obtain ⟨hfilled, hcontents⟩ := hheld.next hnext hsector hmedium hdone.1
  rw [next_of_fresh _ sector data hmode, List.nil_append] at hfilled
  refine ⟨d, hdone, ?_, hfilled, hlength, hcontents⟩
  rw [hchunks, writeSectors, List.foldlM_cons, run_bind, run_mapError, hwrite]
  rfl

variable (htarget : trackedTarget w.volume identity expectedVersion = .ok target)
include htarget

/-- A replacement by at most one sector, once its preflight has passed, comes to the publication
of a candidate that passes its check. -/
theorem replaceTracked_publishes : ∃ d : Disk, d.AllDone
    ∧ (let c := trackedCandidate w.volume (slot.filled data) plan target
      c.Fits w.volume.map ∧ candidateVerdict c w.volume = .ok ()
        ∧ (replaceTracked identity expectedVersion data).run w
          = (do publishNamespace; pure c.record : Op Record7).run { w with
            volume := trackedVolume w.volume (slot.filled data) plan target, disk := d }) := by
  have hopened := openSlot_spec ready hslot
  obtain ⟨hidentity, hversion, -, hkind⟩ := hopened.request
  have hfresh : slot.isFresh = true := isFresh_iff.mpr ⟨plan, hmode⟩
  have hroom : w.volume.reservedRecords < w.volume.freeRecords := by
    have := hopened.room
    rw [reserves, if_pos hfresh] at this
    omega
  obtain ⟨d, hdone, hwrites, hfilled, hlength, hcontents⟩ :=
    writeSectors_returns ready hd hone hslot hmode
  have hcomplete : (slot.filled data).complete = true := (complete_iff hfilled).mpr hlength
  have hrun : (replaceTracked identity expectedVersion data).run w
      = (commitTracked (slot.filled data) plan).run { w with disk := d } := by
    rw [replaceTracked, run_getVolume_bind, ready.ready, lift_ok_bind,
      run_refuse_bind_of_not (by omega), run_lift_bind_of_ok hslot, run_bind_of_ok hwrites,
      @finishTrackedSlot_fresh (slot.filled data) plan hkind hcomplete hmode]
  have hpromise := openSlot_promise ready hslot hfresh
  rw [← hcontents] at hpromise
  rw [← hidentity, ← hversion] at htarget
  rcases commitTracked_promised hfilled hmode hlength hpromise hroom with
    ⟨e, hnone, -⟩ | ⟨found, hfound, hfits, hverdict, hcommit⟩
  · cases hnone.symm.trans htarget
  · obtain rfl := Except.ok.inj (hfound.symm.trans htarget)
    exact ⟨d, hdone, hfits, hverdict, hrun.trans hcommit⟩

/-- On a disk that answers every command the replacement returns. -/
theorem replaceTracked_returns :
    ∃ d : Disk, d.AllDone ∧ (replaceTracked identity expectedVersion data).run w
      = (.ok (trackedRecord (slot.filled data) plan target.sequence), { w with
        volume := publishedVolume (trackedVolume w.volume (slot.filled data) plan target)
        disk := d }) := by
  obtain ⟨d, hdone, -, hverdict, hrun⟩ :=
    replaceTracked_publishes ready hd hone hslot hmode htarget
  obtain ⟨d', hdone', hpublish⟩ := publishNamespace_returns
    (w := ⟨trackedVolume w.volume (slot.filled data) plan target, d, w.nextOwner⟩)
    (candidateVerdict_eq_ok hverdict) hdone
  refine ⟨d', hdone', ?_⟩
  rw [hrun, run_bind_of_ok hpublish]
  rfl

end

end

/-! ### A file on the provisioned owner -/

/-- The volume of the provisioned owner. -/
def provisionedVolume : Volume7 :=
  { Volume7.empty with
    nodes := installRoots, header := genesisHeader someLineage, fenced := false }

theorem canCreate_provisioned : CanCreate provisionedVolume.toGeneration7 4 1 2 [97] .file where
  sequence := by decide +kernel
  next := by decide +kernel
  kind_ne := by decide
  valid := by decide
  live := by unfold Live; decide +kernel
  parent_id := by decide +kernel
  directory := by decide +kernel
  writable := by decide +kernel
  free := by unfold Live; decide +kernel
  found := by decide +kernel

/-- The volume after the creation of a file `a` in `data`. -/
def filedVolume : Volume7 := publishedVolume (createdVolume provisionedVolume 4 1 2 [97] .file)

theorem create_provisioned : ∃ d : Disk, d.AllDone ∧
    (create 2 [97] .file).run provisioned
      = (.ok (madeNode provisionedVolume.toGeneration7 1 2 [97] .file), ⟨filedVolume, d, 1⟩) := by
  have hready := provisioned_ready
  obtain ⟨d, hd, heq⟩ : ∃ d : Disk, d.AllDone ∧ provisioned = ⟨provisionedVolume, d, 1⟩ :=
    provisioned_eq
  rw [heq] at hready ⊢
  exact create_returns hready canCreate_provisioned hd

/-! ### Writes of that file -/

theorem Reachable.finishOp {w w' : World7} {α : Type} {reply : Except Error α → Response} {x : Op α}
    {r : Except Error α} (h : Reachable (.idle w)) (call : Call)
    (hcall : idleStep w call = RusticOs.Fs.finishOp reply x w) (hrun : x.run w = (r, w')) :
    Reachable (.idle w') := by
  have hstep := h.step call
  rw [Session.step, hcall, RusticOs.Fs.finishOp, hrun] at hstep
  exact hstep

theorem filed_reachable : ∃ d : Disk, d.AllDone ∧ Reachable (.idle ⟨filedVolume, d, 1⟩) := by
  obtain ⟨d, hd, hcreate⟩ := create_provisioned
  exact ⟨d, hd, provisioned_reachable.finishOp (.create 2 [97] .file) rfl hcreate⟩

/-- Writes of the file, one for each epoch and key. -/
def keyed (retryEpoch retryKey : UInt64) : WriteIdentity7 :=
  { subject := 1, workspace := 4, object := 5, inst := 1, retryEpoch, retryKey }

/-- The write used where one is enough. -/
def someIdentity : WriteIdentity7 := keyed 1 1

/-- A stage for a write of two bytes over a version of the file, planned at a sector. -/
def stageAt (identity : WriteIdentity7) (version sector : UInt64) : StageSlot :=
  openedSlot identity version 2 .tracked (.fresh (.ofRuns [⟨sector, 1⟩]))

/-- Such a stage is opened where the first `a` sectors are taken. -/
theorem openSlot_stageAt {v : Volume7} {identity : WriteIdentity7} {version : UInt64} {a : Nat}
    {target : TrackedTarget} (hw : v.fenced = false)
    (hidentity : v.validateIdentity identity = .ok ())
    (hscope : v.stageHoldsScope identity = false) (hfirst : v.findRetry identity = none)
    (htarget : trackedTarget v identity version = .ok target)
    (hmap : ∀ s, Bitmap.get v.planningMap s = true ↔ s < a) (ha : a < dataSectors) :
    openSlot v identity version 2 .tracked = .ok (stageAt identity version (UInt64.ofNat a)) :=
  openSlot_fresh hw hidentity hscope hfirst htarget (planPayload_tail (by decide)
    (fun s hs => (hmap s).mpr hs)
    (fun s hs _ => Bool.eq_false_iff.mpr fun hset => absurd ((hmap s).mp hset) (by omega))
    (by decide) ha)

/-- The bitmap of the first `a` sectors. -/
theorem get_setAll_range {a : Nat} (ha : a < dataSectors) (s : Nat) :
    Bitmap.get (Bitmap.setAll (Vector.replicate 2048 0 : SpaceMap) (List.range a) true) s = true
      ↔ s < a := by
  rw [Bitmap.get_setAll _ fun s hs => Nat.lt_trans (List.mem_range.mp hs) ha, Bitmap.get_zero]
  simp

/-- The file, as a write of it finds it. -/
def fileTarget : TrackedTarget :=
  ⟨4, madeNode provisionedVolume.toGeneration7 1 2 [97] .file, Fin.first, 3⟩

/-- The volume once `hi` was written to the file. -/
def writtenVolume : Volume7 :=
  publishedVolume (trackedVolume filedVolume ((stageAt someIdentity 2 0).filled [104, 105])
    (.ofRuns [⟨0, 1⟩]) fileTarget)

theorem replace_filed {d : Disk} (hd : d.AllDone) (h : Reachable (.idle ⟨filedVolume, d, 1⟩)) :
    ∃ (r : Record7) (d' : Disk), d'.AllDone ∧ r.scope = someIdentity.scope ∧ r.committed = 3
      ∧ (replaceTracked someIdentity 2 [104, 105]).run ⟨filedVolume, d, 1⟩
        = (.ok r, ⟨writtenVolume, d', 1⟩) := by
  unfold writtenVolume
  have htarget : trackedTarget filedVolume someIdentity 2 = .ok fileTarget := by decide +kernel
  have hslot : openSlot filedVolume someIdentity 2 (UInt32.ofNat [(104 : UInt8), 105].length)
      .tracked = .ok (stageAt someIdentity 2 0) :=
    openSlot_stageAt (a := 0) rfl (by decide +kernel) (by decide +kernel) (by decide +kernel)
      htarget (get_setAll_range (a := 0) (by decide)) (by decide)
  have hmode : (stageAt someIdentity 2 0).mode = .fresh (.ofRuns [⟨0, 1⟩]) := rfl
  obtain ⟨staged, ready⟩ := h.ready rfl
  obtain ⟨d', hd', hrun⟩ := replaceTracked_returns (w := ⟨filedVolume, d, 1⟩) ready hd (by decide)
    hslot hmode htarget
  refine ⟨_, d', hd', ?_, ?_, hrun⟩ <;> rfl

theorem written_reachable : ∃ d : Disk, d.AllDone ∧ Reachable (.idle ⟨writtenVolume, d, 1⟩) := by
  obtain ⟨d, hd, hfiled⟩ := filed_reachable
  obtain ⟨r, d', hd', -, -, hrun⟩ := replace_filed hd hfiled
  exact ⟨d', hd', hfiled.finishOp (.replaceTracked someIdentity 2 [104, 105]) rfl hrun⟩

theorem written_sequence : writtenVolume.header.sequence.toNat + 1 < 2 ^ 64 := by decide +kernel

theorem written_idle : writtenVolume.openStages = 0 := by decide +kernel

/-- Its record is that of a write. -/
theorem written_settled (i : Fin 8) (r : Record7) (h : writtenVolume.records[i] = some r) :
    r.state ≠ .admitted := by
  have hall : ∀ i : Fin 8, ∀ r ∈ writtenVolume.records[i], r.state ≠ .admitted := by decide +kernel
  exact hall i r h

/-- The file owns the first sector, and no other file anything. -/
theorem written_owns {s : Nat} :
    (∃ i, Owns writtenVolume.nodes writtenVolume.records (.file i) s) ↔ s < 1 := by
  have hfile : ∀ i : Fin 256, writtenVolume.nodes[i].kind = .file ↔ i = 4 := by decide +kernel
  have hruns : runSectors writtenVolume.nodes[(4 : Fin 256)].runs = [0] := by decide +kernel
  simp only [Owns, hfile, exists_eq_left, hruns, List.mem_singleton, Nat.lt_one_iff]

/-- Once retention was maintained, a second write releases what the first has written. -/
theorem replacing_candidate : ∃ (w : World7) (c : Candidate7), w.disk.AllDone
    ∧ c.Fits w.volume.map ∧ ((validateCandidate c).run w).1 = .ok () ∧ c.added.runs = [⟨1, 1⟩]
    ∧ c.released = [⟨0, 1⟩] ∧ ∃ node, c.nodeUpdate = some (4, node) := by
  obtain ⟨d, hd, hwritten⟩ := written_reachable
  obtain ⟨_, ready⟩ := hwritten.ready rfl
  obtain ⟨live, d', hd', hlive, hmaintain⟩ :=
    maintainRetention_returns ready hd written_sequence written_idle written_settled
  have hmaintained := hwritten.finishOp .maintain rfl hmaintain
  obtain ⟨_, ready'⟩ := hmaintained.ready rfl
  have htarget : trackedTarget (publishedVolume (maintainedVolume writtenVolume live)) (keyed 2 2) 3
      = .ok ⟨4, writtenVolume.nodes[(4 : Fin 256)], Fin.first, 5⟩ := by
    rfl
  have howns : ∀ s, Bitmap.get live s = true ↔ s < 1 := by
    intro s
    rw [hlive]
    exact written_owns
  have hslot : openSlot (publishedVolume (maintainedVolume writtenVolume live)) (keyed 2 2) 3
      (UInt32.ofNat [(104 : UInt8), 105].length) .tracked = .ok (stageAt (keyed 2 2) 3 1) :=
    openSlot_stageAt (a := 1) rfl rfl rfl rfl htarget howns (by decide)
  have hmode : (stageAt (keyed 2 2) 3 1).mode = .fresh (.ofRuns [⟨1, 1⟩]) := rfl
  obtain ⟨d'', hd'', hfits, hverdict, -⟩ := replaceTracked_publishes ready' hd' (by decide)
    hslot hmode htarget
  refine ⟨⟨publishedVolume (maintainedVolume writtenVolume live), d'', 1⟩, _, hd'', hfits, ?_, ?_⟩
  · exact congrArg Prod.fst (validateCandidate_run (w := ⟨_, d'', 1⟩) hfits) |>.trans hverdict
  · exact ⟨rfl, rfl, _, rfl⟩

/-- The owner of the file with one stage open, and with two. -/
def oneStage : Volume7 :=
  { filedVolume with
    stages := filedVolume.stages.setAt Fin.first
      (some { stageAt (keyed 1 2) 2 0 with nonce := 1 })
    stageNonce := 1, stageOwner := 1 }

def twoStages : Volume7 :=
  { oneStage with
    stages := oneStage.stages.setAt (Fin.last 1) (some { stageAt (keyed 1 3) 2 1 with nonce := 2 })
    stageNonce := 2 }

/-- The first token of the owner. -/
def firstStage : Stage7 := { owner := 1, slot := 0, nonce := 1 }

theorem openStage_filed (d : Disk) : (openStage (keyed 1 2) 2 2 .tracked).run ⟨filedVolume, d, 1⟩
    = (.ok firstStage, ⟨oneStage, d, 2⟩) := by
  have hslot : openSlot filedVolume (keyed 1 2) 2 2 .tracked = .ok (stageAt (keyed 1 2) 2 0) :=
    openSlot_stageAt (a := 0) rfl (by decide +kernel) (by decide +kernel) (by decide +kernel)
      (by decide +kernel : _ = Except.ok fileTarget) (get_setAll_range (a := 0) (by decide))
      (by decide)
  have hfind : ((List.finRange 2).find? fun i => filedVolume.stages[i].isNone) = some 0 := by
    decide +kernel
  have hnonce : checkedAdd filedVolume.stageNonce 1 = some 1 := by decide +kernel
  exact openStage_eq (w := ⟨filedVolume, d, 1⟩) rfl hfind hnonce hslot
    (.taken rfl (by decide : (1 : UInt64) ≠ 0) rfl rfl)

theorem twoStages_reachable : ∃ d : Disk, d.AllDone ∧ Reachable (.idle ⟨twoStages, d, 2⟩) := by
  obtain ⟨d, hd, hfiled⟩ := filed_reachable
  have hslot : openSlot oneStage (keyed 1 3) 2 2 .tracked = .ok (stageAt (keyed 1 3) 2 1) :=
    openSlot_stageAt (a := 1) rfl (by decide +kernel) (by decide +kernel) (by decide +kernel)
      (by decide +kernel : _ = Except.ok fileTarget) (get_setAll_range (a := 1) (by decide))
      (by decide)
  have hfind : ((List.finRange 2).find? fun i => oneStage.stages[i].isNone) = some 1 := by
    decide +kernel
  have hnonce : checkedAdd oneStage.stageNonce 1 = some 2 := by decide +kernel
  have hopened := hfiled.finishOp (.openStage (keyed 1 2) 2 2 .tracked) rfl (openStage_filed d)
  exact ⟨d, hd, hopened.finishOp (.openStage (keyed 1 3) 2 2 .tracked) rfl
    (openStage_eq (w := ⟨oneStage, d, 2⟩) rfl hfind hnonce hslot
      (.own (by decide : (1 : UInt64) ≠ 0) rfl rfl))⟩

end RusticOs.Fs
