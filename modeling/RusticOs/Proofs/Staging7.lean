import RusticOs.Proofs.Tracked7

/-!
# `RusticOs.Proofs.Staging7`: streamed stages

One sector of a stage is one command: a write to a planned free sector, or a read of the
retained snapshot (`writeSlot_ran`). The disk holds the same contents after it as before,
and the stage holds one sector more. From this follow the specifications of the public
stage calls (`openStage_spec`, `stageWrite_spec`, `abortStage_spec`, `releaseStages_spec`).
-/

set_option autoImplicit false

namespace RusticOs.Fs

open RusticOs.Lib RusticOs.Lib.Fallible

/-! ### The next sector of a stage -/

/-- The bytes are not the next sector of a stage. -/
abbrev StageSlot.Misfits (slot : StageSlot) (data : List UInt8) : Prop :=
  slot.length - slot.written = 0 ∨ data.length ≠ min (slot.length - slot.written).toNat 512

/-- Only the last sector of a stage is short, so a stage that expects more is at the start
of a sector. -/
structure NextSector (slot : StageSlot) (bytes data : List UInt8) : Prop where
  start : bytes.length = 512 * (slot.written.toNat / 512)
  index : slot.written.toNat / 512 < sectorsFor slot.length.toNat
  within : bytes.length + data.length ≤ slot.length.toNat
  short : data.length ≤ 512
  whole : bytes.length + data.length = slot.length.toNat ∨ data.length = 512
  written : (slot.written + UInt32.ofNat data.length).toNat = bytes.length + data.length

theorem StageHolds.nextSector {g : Generation7} {view : Nat → Block} {slot : StageSlot}
    {bytes data : List UInt8} (h : StageHolds g view slot bytes)
    (hdata : ¬ slot.Misfits data) :
    NextSector slot bytes data := by
  obtain ⟨hne, hlen⟩ := not_or.mp hdata
  have hwritten := h.written
  have hle := h.within
  have hlt := slot.length.toNat_lt
  have hremaining : (slot.length - slot.written).toNat = slot.length.toNat - bytes.length := by
    rw [UInt32.toNat_sub_of_le _ _ (by rw [UInt32.le_iff_toNat_le]; omega), hwritten]
  have hpos : bytes.length < slot.length.toNat := by
    by_contra hge
    apply hne
    rw [← UInt32.toNat_inj, hremaining]
    show slot.length.toNat - bytes.length = 0
    omega
  rw [not_not, hremaining] at hlen
  have hmod : bytes.length % 512 = 0 := by
    rcases h.whole with heq | hmod
    · omega
    · exact hmod
  refine ⟨by omega, ?_, by omega, by omega, by omega, ?_⟩
  · unfold sectorsFor
    omega
  · rw [UInt32.toNat_add, UInt32.toNat_ofNat_of_lt' (by show _ < 2 ^ 32; omega), hwritten]
    exact Nat.mod_eq_of_lt (by omega)

section
variable {slot : StageSlot} {bytes data : List UInt8} (h : NextSector slot bytes data)
include h

theorem NextSector.written_append :
    (slot.written + UInt32.ofNat data.length).toNat = (bytes ++ data).length := by
  rw [List.length_append]
  exact h.written

theorem NextSector.within_append : (bytes ++ data).length ≤ slot.length.toNat := by
  rw [List.length_append]
  exact h.within

theorem NextSector.whole_append :
    (bytes ++ data).length = slot.length.toNat ∨ (bytes ++ data).length % 512 = 0 := by
  have := h.start
  rw [List.length_append]
  rcases h.whole with hw | hw
  · exact Or.inl hw
  · right
    omega

end

/-- The command that moves a stage on by one sector. -/
def StageSlot.command (slot : StageSlot) (sector : Nat) (data : List UInt8) : Command Block :=
  match slot.mode with
  | .fresh _ => .write (payloadSector + sector) (payloadBlock data)
  | .retry _ _ => .read (payloadSector + sector)

/-- The stage after that command. -/
def StageSlot.next (slot : StageSlot) (view : Nat → Block) (sector : Nat) (data : List UInt8) :
    StageSlot :=
  match slot.mode with
  | .fresh _ =>
    { slot with
      checksum := crcUpdate slot.checksum data
      written := slot.written + UInt32.ofNat data.length }
  | .retry record matching =>
    { slot with
      mode := .retry record
        (matching && (view (payloadSector + sector)).toList.take data.length == data)
      checksum := crcUpdate slot.checksum
        ((view (payloadSector + sector)).toList.take data.length)
      written := slot.written + UInt32.ofNat data.length }

section
variable {slot : StageSlot} (view : Nat → Block) (sector : Nat) (data : List UInt8)

theorem next_of_fresh {plan : PayloadPlan} (h : slot.mode = .fresh plan) :
    slot.next view sector data = { slot with
      checksum := crcUpdate slot.checksum data
      written := slot.written + UInt32.ofNat data.length } := by
  rw [StageSlot.next, h]

theorem next_of_retry {record : Record7} {matching : Bool}
    (h : slot.mode = .retry record matching) : slot.next view sector data = { slot with
      mode := .retry record
        (matching && (view (payloadSector + sector)).toList.take data.length == data)
      checksum := crcUpdate slot.checksum
        ((view (payloadSector + sector)).toList.take data.length)
      written := slot.written + UInt32.ofNat data.length } := by
  rw [StageSlot.next, h]

theorem command_of_fresh {plan : PayloadPlan} (h : slot.mode = .fresh plan) :
    slot.command sector data = .write (payloadSector + sector) (payloadBlock data) := by
  rw [StageSlot.command, h]

theorem command_of_retry {record : Record7} {matching : Bool}
    (h : slot.mode = .retry record matching) :
    slot.command sector data = .read (payloadSector + sector) := by
  rw [StageSlot.command, h]

end

/-- The ways one sector of a stage can go. -/
inductive WriteRan (c : Command Block) (next : StageSlot) (w : World7) :
    Except WriteFault StageSlot × World7 → Prop where
  | done (d : Disk) (medium : d.medium = w.disk.medium.effect c) (idle : d.inflight = none)
      (live : w.disk.AllDone → d.AllDone) : WriteRan c next w (.ok next, { w with disk := d })
  | released (e : Error) (d : Disk) (medium : d.medium = w.disk.medium)
      (idle : d.inflight = none) (broken : ¬ w.disk.AllDone) :
      WriteRan c next w (.error (.released e), { w with disk := d })
  | fenced (d : Disk)
      (medium : d.medium = w.disk.medium ∨ d.medium = w.disk.medium.effect c)
      (idle : d.inflight = none) (broken : ¬ w.disk.AllDone) :
      WriteRan c next w (.error .fenced, { w with volume := w.volume.fenceClear, disk := d })

/-- The runs a stage walks: planned ones, or those of the retained snapshot. -/
def StageSlot.runs (slot : StageSlot) : List Extent :=
  match slot.mode with
  | .fresh plan => plan.runs
  | .retry record _ => record.runs

/-- A valid record has as many sectors as its length needs. -/
theorem Record7.Shape.length_sectors {r : Record7} (h : r.Shape) :
    (runSectors r.runs).length = sectorsFor r.length.toNat := h.payload.length_sectors

/-- `next` is a later state of the stage `slot`. -/
structure Walks (next slot : StageSlot) : Prop where
  nonce : next.nonce = slot.nonce
  kind : next.kind = slot.kind
  identity : next.identity = slot.identity
  expectedVersion : next.expectedVersion = slot.expectedVersion
  length : next.length = slot.length
  fresh : ∀ plan, slot.mode = .fresh plan → next.mode = .fresh plan
  retry : ∀ record matching, slot.mode = .retry record matching →
    ∃ later, next.mode = .retry record later

namespace Walks

theorem refl (slot : StageSlot) : Walks slot slot :=
  ⟨rfl, rfl, rfl, rfl, rfl, fun _ h => h, fun _ matching h => ⟨matching, h⟩⟩

theorem trans {a b c : StageSlot} (hab : Walks a b) (hbc : Walks b c) : Walks a c where
  nonce := hab.nonce.trans hbc.nonce
  kind := hab.kind.trans hbc.kind
  identity := hab.identity.trans hbc.identity
  expectedVersion := hab.expectedVersion.trans hbc.expectedVersion
  length := hab.length.trans hbc.length
  fresh plan h := hab.fresh plan (hbc.fresh plan h)
  retry record matching h := by
    obtain ⟨later, hlater⟩ := hbc.retry record matching h
    exact hab.retry record later hlater

variable {next slot : StageSlot} (h : Walks next slot)
include h

theorem runs : next.runs = slot.runs := by
  unfold StageSlot.runs
  cases hmode : slot.mode with
  | fresh plan => rw [h.fresh plan hmode]
  | retry record matching =>
    obtain ⟨later, hlater⟩ := h.retry record matching hmode
    rw [hlater]

theorem command : next.command = slot.command := by
  funext sector data
  cases hmode : slot.mode with
  | fresh plan => rw [command_of_fresh _ _ hmode, command_of_fresh _ _ (h.fresh plan hmode)]
  | retry record matching =>
    obtain ⟨later, hlater⟩ := h.retry record matching hmode
    rw [command_of_retry _ _ hmode, command_of_retry _ _ hlater]

theorem isFresh : next.isFresh = slot.isFresh := by
  unfold StageSlot.isFresh
  cases hmode : slot.mode with
  | fresh plan => rw [h.fresh plan hmode]
  | retry record matching =>
    obtain ⟨later, hlater⟩ := h.retry record matching hmode
    rw [hlater]

end Walks

theorem next_walks (slot : StageSlot) (view : Nat → Block) (sector : Nat) (data : List UInt8) :
    Walks (slot.next view sector data) slot := by
  cases hmode : slot.mode with
  | fresh plan =>
    rw [next_of_fresh view sector data hmode]
    exact ⟨rfl, rfl, rfl, rfl, rfl, fun _ h => h, fun _ matching h => ⟨matching, h⟩⟩
  | retry record matching =>
    rw [next_of_retry view sector data hmode]
    refine ⟨rfl, rfl, rfl, rfl, rfl, fun _ h => (nomatch hmode.symm.trans h), fun _ _ h => ?_⟩
    cases hmode.symm.trans h
    exact ⟨_, rfl⟩

section
variable {w : World7} {staged : Fin 2 → List UInt8} {slot : StageSlot} {bytes data : List UInt8}
  {sector : Nat}

theorem Held.length_sectors (h : Held w staged slot bytes) :
    (runSectors slot.runs).length = sectorsFor slot.length.toNat := by
  unfold StageSlot.runs
  cases hmode : slot.mode with
  | fresh plan => exact (h.holds.fresh plan hmode).planned.length_sectors
  | retry record matching =>
    have hr := h.holds.retry record matching hmode
    obtain ⟨i, current, hi, hsame, -⟩ := hr.retained
    show (runSectors record.runs).length = _
    rw [← hr.length, ← hsame.runs, ← hsame.length]
    exact (h.ready.valid.record_shape hi).length_sectors

theorem Held.exists_sector (h : Held w staged slot bytes) (hn : NextSector slot bytes data) :
    ∃ s, (runSectors slot.runs)[slot.written.toNat / 512]? = some s :=
  ⟨_, List.getElem?_eq_getElem (by rw [h.length_sectors]; exact hn.index)⟩

/-- One sector of a stage is one command. Where it fails, new bytes fence the owner and a reread
does not. -/
theorem writeSlot_run (slot : StageSlot) (data : List UInt8) (w : World7) :
    (writeSlot slot data).run w
      = if slot.Misfits data then (.error (.refused .invalid), w)
        else match (runSectors slot.runs)[slot.written.toNat / 512]? with
          | none => (.error (.released .corrupt), w)
          | some sector => match (Device.execute (slot.command sector data)).run w.disk with
            | (.ok _, d) => (.ok (slot.next w.disk.medium.view sector data), { w with disk := d })
            | (.error e, d) => match slot.mode with
              | .fresh _ => (.error .fenced, { w with volume := w.volume.fenceClear, disk := d })
              | .retry _ _ => (.error (.released e), { w with disk := d }) := by
  unfold StageSlot.runs
  rw [writeSlot]
  by_cases hdata : slot.Misfits data
  · rw [refuse_bind_of hdata, if_pos hdata]
    rfl
  rw [refuse_bind_of_not hdata, if_neg hdata]
  cases hmode : slot.mode with
  | fresh plan =>
    dsimp only
    rw [runSector_eq]
    cases (runSectors plan.runs)[slot.written.toNat / 512]? with
    | none => rfl
    | some sector =>
      dsimp only
      rw [command_of_fresh sector data hmode, next_of_fresh _ sector data hmode]
      simp only [orRefuse_some, lift_ok_bind, run_bind, run_attempt, run_onDisk,
        Device.writeSector, hmode]
      rcases (Device.execute _).run w.disk with ⟨_ | _, d⟩ <;> rfl
  | retry record matching =>
    dsimp only
    rw [runSector_eq]
    cases (runSectors record.runs)[slot.written.toNat / 512]? with
    | none => rfl
    | some sector =>
      dsimp only
      rw [command_of_retry sector data hmode, next_of_retry _ sector data hmode]
      simp only [orRefuse_some, lift_ok_bind, run_bind, run_mapError, run_onDisk,
        Device.readSector]
      rcases (Device.execute _).run w.disk with ⟨_ | _, d⟩ <;> rfl

/-- A sector that was taken is one more sector of the same stage. -/
theorem writeSlot_walks {w' : World7} {next : StageSlot}
    (h : (writeSlot slot data).run w = (.ok next, w')) : Walks next slot := by
  rw [writeSlot_run] at h
  split at h
  · cases h
  · split at h
    · cases h
    · split at h
      · cases h
        exact next_walks _ _ _ _
      · split at h <;> cases h

theorem writeSlot_ran (hdata : ¬ slot.Misfits data)
    (hsector : (runSectors slot.runs)[slot.written.toNat / 512]? = some sector)
    (hidle : w.disk.inflight = none) :
    WriteRan (slot.command sector data) (slot.next w.disk.medium.view sector data) w
      ((writeSlot slot data).run w) := by
  rw [writeSlot_run, if_neg hdata, hsector]
  dsimp only
  cases hr : w.disk.replies 0 with
  | done =>
    rw [Device.run_execute_of_done hidle hr]
    exact .done _ rfl hidle fun hall => ⟨hidle, fun n => hall.2 (n + 1)⟩
  | failed e applied =>
    rw [Device.run_execute_of_failed hidle hr]
    have hbroken : ¬ w.disk.AllDone := fun hall => by
      rw [hall.2 0] at hr
      cases hr
    cases hmode : slot.mode with
    | fresh plan =>
      refine .fenced _ ?_ hidle hbroken
      cases applied with
      | false => exact Or.inl rfl
      | true => exact Or.inr rfl
    | retry record matching =>
      rw [command_of_retry sector data hmode]
      refine .released e _ ?_ hidle hbroken
      cases applied <;> rfl

/-- A write to a free sector keeps the owner ready when no other stage plans the sector. -/
theorem Ready.writeFree (h : Ready w staged) (hfree : Bitmap.get w.volume.map sector = false)
    (hother : ∀ (j : Fin 2) (other : StageSlot), w.volume.stages[j] = some other →
      sector ∉ runSectors other.freshRuns) {b : Block} {d : Disk}
    (hm : d.medium = w.disk.medium.effect (.write (payloadSector + sector) b))
    (hidle : d.inflight = none) :
    Ready { w with disk := d } staged ∧ ({ w with disk := d } : World7).contents = w.contents := by
  have hview : ∀ s, s ≠ sector →
      d.medium.view (payloadSector + s) = w.disk.medium.view (payloadSector + s) := by
    intro s hs
    rw [hm, Medium.view_effect]
    exact Function.update_of_ne (by omega) _ _
  have hallocated : ∀ s, Bitmap.get w.volume.map s = true →
      d.medium.view (payloadSector + s) = w.disk.medium.view (payloadSector + s) := by
    intro s hs
    apply hview
    rintro rfl
    rw [hfree] at hs
    cases hs
  refine ⟨⟨h.unfenced, hidle, ?_, ?_⟩, contents_congr h.valid hallocated⟩
  · show Durable d.medium w.volume.toGeneration7
    have hafter : d.medium = w.disk.medium.after [.write (payloadSector + sector) b] := hm
    rw [hafter]
    apply h.durable.after
    intro x hx
    rw [List.mem_singleton.mp hx]
    exact free_not_mem_footprint hfree
  · refine h.stages.transport h.valid rfl (fun i slot hi s hs => ⟨?_, ?_⟩) (fun _ hr => hr)
      hallocated h.stages.room
    · exact ((h.stages.holds i slot hi).free hs).2
    · apply hview
      rintro rfl
      exact hother i slot hi hs

/-- The first sectors of a walk, then the next one. -/
theorem payload_snoc (view : Nat → Block) {runs : List Extent} (hn : NextSector slot bytes data)
    (hs : (runSectors runs)[slot.written.toNat / 512]? = some sector) :
    payload view runs (bytes ++ data).length = payload view runs bytes.length
      ++ (view (payloadSector + sector)).toList.take data.length := by
  rw [List.length_append]
  conv_lhs => rw [hn.start]
  rw [payload_next view hs hn.short, ← hn.start]

theorem Held.next_fresh (h : Held w staged slot bytes) (hn : NextSector slot bytes data)
    {plan : PayloadPlan} (hmode : slot.mode = .fresh plan)
    (hs : (runSectors plan.runs)[slot.written.toNat / 512]? = some sector) {d : Disk}
    (hm : d.medium = w.disk.medium.effect (.write (payloadSector + sector) (payloadBlock data)))
    (hidle : d.inflight = none) :
    Held { w with disk := d } staged { slot with
        checksum := crcUpdate slot.checksum data
        written := slot.written + UInt32.ofNat data.length } (bytes ++ data)
      ∧ ({ w with disk := d } : World7).contents = w.contents := by
  have hf := h.holds.fresh plan hmode
  have hmem : sector ∈ runSectors slot.freshRuns := by
    rw [freshRuns_of_fresh hmode]
    exact List.mem_of_getElem? hs
  obtain ⟨hready, hcontents⟩ := h.ready.writeFree (h.holds.free hmem).2
    (fun j other hj hin => h.apart j other hj hmem hin) hm hidle
  refine ⟨⟨hready, ⟨hn.written_append, hn.within_append, hn.whole_append, h.holds.size, ?_, ?_⟩,
    h.apart⟩, hcontents⟩
  · intro plan' hmode'
    obtain rfl : plan = plan' := StageMode.fresh.inj (hmode.symm.trans hmode')
    refine ⟨hf.planned, ?_, ?_⟩
    · show payload d.medium.view plan.runs (bytes ++ data).length = bytes ++ data
      have hview : d.medium.view = Function.update w.disk.medium.view (payloadSector + sector)
          (payloadBlock data) := by
        rw [hm, Medium.view_effect]
        rfl
      rw [List.length_append, hview]
      conv_lhs => rw [hn.start]
      rw [payload_write_next hf.planned.nodup hs hn.short, ← hn.start, hf.stored]
    · show crcUpdate slot.checksum data = _
      rw [hf.checksum, crcUpdate_append]
  · intro record matching hmode'
    exact nomatch hmode.symm.trans hmode'

theorem Held.next_retry (h : Held w staged slot bytes) (hn : NextSector slot bytes data)
    {record : Record7} {matching : Bool} (hmode : slot.mode = .retry record matching)
    (hs : (runSectors record.runs)[slot.written.toNat / 512]? = some sector) {d : Disk}
    (hd : SameDisk d w) :
    Held { w with disk := d } staged { slot with
        mode := .retry record (matching
          && (w.disk.medium.view (payloadSector + sector)).toList.take data.length == data)
        checksum := crcUpdate slot.checksum
          ((w.disk.medium.view (payloadSector + sector)).toList.take data.length)
        written := slot.written + UInt32.ofNat data.length } (bytes ++ data) := by
  have hr := h.holds.retry record matching hmode
  have hpayload := payload_snoc w.disk.medium.view hn hs
  refine ⟨h.ready.onDisk hd, ⟨hn.written_append, hn.within_append, hn.whole_append, h.holds.size,
    nofun, ?_⟩, ?_⟩
  · rintro record' matching' ⟨⟩
    refine ⟨hr.retained, hr.scope, hr.length, hr.answers, hr.tracked, ?_, ?_⟩
    · show _ = decide (payload d.medium.view record.runs (bytes ++ data).length = bytes ++ data)
      rw [hd.medium, hpayload, hr.agrees]
      have hlength : (payload w.disk.medium.view record.runs bytes.length).length
          = bytes.length := by
        have hk := (List.getElem?_eq_some_iff.mp hs).1
        have := hn.start
        rw [payload_eq, List.length_take, length_sectorBytes]
        omega
      rw [Bool.eq_iff_iff, Bool.and_eq_true, decide_eq_true_iff, decide_eq_true_iff, beq_iff_eq]
      constructor
      · rintro ⟨h1, h2⟩
        rw [h1, h2]
      · intro happ
        exact List.append_inj happ hlength
    · show _ = crcUpdate crcInit (payload d.medium.view record.runs (bytes ++ data).length)
      rw [hd.medium, hpayload, hr.checksum, crcUpdate_append]
  · intro j other hj s hs
    cases hs

/-- A stage that moved on by one sector holds one sector more. -/
theorem Held.next (h : Held w staged slot bytes) (hn : NextSector slot bytes data)
    (hs : (runSectors slot.runs)[slot.written.toNat / 512]? = some sector) {d : Disk}
    (hm : d.medium = w.disk.medium.effect (slot.command sector data))
    (hidle : d.inflight = none) :
    Held { w with disk := d } staged (slot.next w.disk.medium.view sector data) (bytes ++ data)
      ∧ ({ w with disk := d } : World7).contents = w.contents := by
  unfold StageSlot.runs at hs
  cases hmode : slot.mode with
  | fresh plan =>
    rw [hmode] at hs
    rw [command_of_fresh sector data hmode] at hm
    rw [next_of_fresh _ sector data hmode]
    exact h.next_fresh hn hmode hs hm hidle
  | retry record matching =>
    rw [hmode] at hs
    rw [command_of_retry sector data hmode] at hm
    rw [next_of_retry _ sector data hmode]
    exact ⟨h.next_retry hn hmode hs ⟨hm, hidle⟩, SameDisk.contents ⟨hm, hidle⟩⟩

/-- The disk stores the same contents whether or not the next sector reached it. -/
theorem Held.stores (h : Held w staged slot bytes) (hn : NextSector slot bytes data)
    (hs : (runSectors slot.runs)[slot.written.toNat / 512]? = some sector) {d : Disk}
    (hm : d.medium = w.disk.medium ∨ d.medium = w.disk.medium.effect (slot.command sector data))
    (hidle : d.inflight = none) {img : Nat → Block} (himg : d.Image img) :
    Stores img w.contents := by
  rw [Device.image_of_inflight_none hidle] at himg
  rcases hm with hm | hm
  · have hd : SameDisk d w := ⟨hm, hidle⟩
    rw [← hd.contents]
    exact (h.ready.onDisk hd).durable.stores himg
  · obtain ⟨hmoved, hcontents⟩ := h.next hn hs hm hidle
    rw [← hcontents]
    exact hmoved.ready.durable.stores himg

end

/-! ### Opening -/

/-- What the preflight of a stage decided. -/
structure Opened (w : World7) (staged : Fin 2 → List UInt8) (identity : WriteIdentity7)
    (expectedVersion : UInt64) (length : UInt32) (kind : Stage7Kind) (slot : StageSlot) : Prop where
  request : slot.identity = identity ∧ slot.expectedVersion = expectedVersion
    ∧ slot.length = length ∧ slot.kind = kind
  held : Held w staged slot []
  scopes : ∀ (j : Fin 2) (other : StageSlot), w.volume.stages[j] = some other →
    slot.identity.scope ≠ other.identity.scope
  room : w.volume.reservedRecords + reserves (some slot) ≤ w.volume.freeRecords

section
variable {w : World7} {staged : Fin 2 → List UInt8} {identity : WriteIdentity7}
  {expectedVersion : UInt64} {length : UInt32}

/-- A plan over the planning map is free, and apart from every open stage. -/
theorem planned_apart (h : Ready w staged) {plan : PayloadPlan}
    (hplan : planPayload w.volume.planningMap length.toNat = .ok plan) :
    PlanFor w.volume.map plan length ∧ ∀ (j : Fin 2) (other : StageSlot),
      w.volume.stages[j] = some other →
      (runSectors plan.runs).Disjoint (runSectors other.freshRuns) := by
  have hp := planPayload_spec hplan
  have hbit := get_planningMap (v := w.volume) fun slot hslot s hs => by
    obtain ⟨i, hi⟩ := mem_openSlots.mp hslot
    exact ((h.stages.holds i slot hi).free hs).1
  refine ⟨hp.mono fun s hs => ?_, fun j other hj s hs hother => ?_⟩
  · have hnot := hp.free s hs
    rw [← Bool.not_eq_true, hbit] at hnot
    exact Bool.not_eq_true _ ▸ fun hm => hnot (Or.inl hm)
  · have hnot := hp.free s hs
    rw [← Bool.not_eq_true, hbit] at hnot
    exact hnot (Or.inr ⟨other, mem_openSlots.mpr ⟨j, hj⟩, hother⟩)

/-- What a preflight found: a plan and a target, or the record that answers the request. -/
def OpeningSpec (v : Volume7) (identity : WriteIdentity7) (expectedVersion : UInt64)
    (length : UInt32) (kind : Stage7Kind) : Opening → Prop
  | .fresh plan => planPayload v.planningMap length.toNat = .ok plan ∧ v.findRetry identity = none
      ∧ ∃ index slot, TargetSpec v identity expectedVersion index slot
  | .retry record => v.findRetry identity = some record ∧ record.length = length
      ∧ (record.object = identity.object ∧ record.inst = identity.inst
        ∧ record.previous = expectedVersion)
      ∧ (kind = .tracked → record.state = .directCommitted)

variable {v : Volume7} {kind : Stage7Kind} {slot : StageSlot}

theorem openTracked_spec {opening : Opening}
    (h : openTracked v identity expectedVersion length = .ok opening) :
    OpeningSpec v identity expectedVersion length .tracked opening := by
  unfold openTracked at h
  split at h
  · rename_i record hretry
    simp only [except_bind_eq_ok, reject_eq_ok] at h
    obtain ⟨_, hsame, _, hstate, h⟩ := h
    cases h
    push Not at hsame
    exact ⟨hretry, hsame.2.2.2, ⟨hsame.1, hsame.2.1, hsame.2.2.1⟩, fun _ => not_not.mp hstate⟩
  · rename_i hretry
    simp only [except_bind_eq_ok] at h
    obtain ⟨target, htarget, plan, hplan, h⟩ := h
    cases h
    obtain ⟨index, slot, -, ht⟩ := trackedTarget_spec htarget
    exact ⟨hplan, hretry, index, slot, ht⟩

theorem admissionTarget_spec {slot : Fin 8} {number : UInt64}
    (h : admissionTarget v identity expectedVersion = .ok (slot, number)) :
    ∃ index, TargetSpec v identity expectedVersion index slot
      ∧ number = v.header.sequence + 1 := by
  simp only [admissionTarget, except_bind_eq_ok, reject_eq_ok, orRefuse_eq_ok] at h
  obtain ⟨⟨index, node⟩, hfound, free, hfree, sequence, hnext, _, hinst, h⟩ := h
  cases h
  obtain ⟨-, hnumber, ht⟩ := targetSpec hfound hfree hnext hinst
  exact ⟨index, ht, hnumber⟩

theorem sameRequest_iff {r : Record7} {n : Nat} :
    sameRequest r identity expectedVersion n = true
      ↔ ((r.object = identity.object ∧ r.inst = identity.inst ∧ r.previous = expectedVersion)
        ∧ r.scope = identity.scope) ∧ r.length.toNat = n := by
  rw [sameRequest, Bool.and_eq_true, sameRecordIdentity_iff, decide_eq_true_iff]

theorem openAdmission_spec {opening : Opening}
    (h : openAdmission v identity expectedVersion length = .ok opening) :
    OpeningSpec v identity expectedVersion length .admission opening := by
  unfold openAdmission at h
  split at h
  · rename_i record hretry
    simp only [except_bind_eq_ok, reject_eq_ok] at h
    obtain ⟨_, hsame, h⟩ := h
    cases h
    obtain ⟨⟨hanswers, -⟩, hlength⟩ := sameRequest_iff.mp (not_not.mp hsame)
    exact ⟨hretry, UInt32.toNat_inj.mp hlength, hanswers, fun hk => by cases hk⟩
  · rename_i hretry
    simp only [except_bind_eq_ok] at h
    obtain ⟨⟨slot, number⟩, htarget, plan, hplan, h⟩ := h
    cases h
    obtain ⟨index, ht, -⟩ := admissionTarget_spec htarget
    exact ⟨hplan, hretry, index, slot, ht⟩

/-- A fresh slot of an opening. -/
def openedSlot (identity : WriteIdentity7) (expectedVersion : UInt64) (length : UInt32)
    (kind : Stage7Kind) (mode : StageMode) : StageSlot :=
  { nonce := 0, kind, identity, expectedVersion, length, mode, written := 0, checksum := crcInit }

theorem openSlot_eq_ok (h : openSlot v identity expectedVersion length kind = .ok slot) :
    length.toNat ≤ maxFileBytes ∧ v.validateIdentity identity = .ok ()
      ∧ (∀ (j : Fin 2) (other : StageSlot), v.stages[j] = some other →
        identity.scope ≠ other.identity.scope)
      ∧ ((∃ plan, OpeningSpec v identity expectedVersion length kind (.fresh plan)
          ∧ slot = openedSlot identity expectedVersion length kind (.fresh plan))
        ∨ ∃ record, OpeningSpec v identity expectedVersion length kind (.retry record)
          ∧ slot = openedSlot identity expectedVersion length kind (.retry record true)) := by
  simp only [openSlot, except_bind_eq_ok, reject_eq_ok] at h
  obtain ⟨_, -, _, hsize, _, hidentity, _, hscope, h⟩ := h
  obtain ⟨opening, hspec, rfl⟩ : ∃ opening,
      OpeningSpec v identity expectedVersion length kind opening
        ∧ slot = openedSlot identity expectedVersion length kind (match opening with
          | .fresh plan => .fresh plan
          | .retry record => .retry record true) := by
    cases kind with
    | tracked =>
      obtain ⟨opening, hopening, h⟩ := except_bind_eq_ok.mp h
      cases h
      exact ⟨opening, openTracked_spec hopening, rfl⟩
    | admission =>
      obtain ⟨opening, hopening, h⟩ := except_bind_eq_ok.mp h
      cases h
      exact ⟨opening, openAdmission_spec hopening, rfl⟩
  refine ⟨by omega, hidentity, fun j other hj heq => ?_, ?_⟩
  · exact hscope (stageHoldsScope_iff.mpr ⟨j, other, hj, heq.symm⟩)
  · cases opening with
    | fresh plan => exact Or.inl ⟨plan, hspec, rfl⟩
    | retry record => exact Or.inr ⟨record, hspec, rfl⟩

theorem openSlot_spec (h : Ready w staged)
    (hopen : openSlot w.volume identity expectedVersion length kind = .ok slot) :
    Opened w staged identity expectedVersion length kind slot := by
  obtain ⟨hsize, -, hscopes, ⟨plan, ⟨hplan, -, _, _, ht⟩, rfl⟩ | ⟨record, hspec, rfl⟩⟩ :=
    openSlot_eq_ok hopen
  · obtain ⟨hfor, hapart⟩ := planned_apart h hplan
    refine ⟨⟨rfl, rfl, rfl, rfl⟩, ⟨h, ⟨rfl, Nat.zero_le _, Or.inr rfl, hsize, ?_, ?_⟩, hapart⟩,
      hscopes, ?_⟩
    · rintro plan' ⟨⟩
      exact ⟨hfor, List.take_zero, rfl⟩
    · exact nofun
    · exact ht.room
  · obtain ⟨hretry, hlength, hanswers, htracked⟩ := hspec
    obtain ⟨i, hi, hscope⟩ := findRetry_some hretry
    refine ⟨⟨rfl, rfl, rfl, rfl⟩, ⟨h, ⟨rfl, Nat.zero_le _, Or.inr rfl, hsize, ?_, ?_⟩, ?_⟩,
      hscopes, h.stages.room⟩
    · exact nofun
    · rintro record' matching' ⟨⟩
      refine ⟨⟨i, record, hi, SameSnapshot.refl _, fun _ => rfl⟩, hscope, hlength, hanswers,
        htracked, ?_, ?_⟩
      · simp [payload]
      · simp [payload, crcUpdate, openedSlot]
    · intro j other _ s hs
      cases hs

/-- The identity an owner opens a stage under: its own, or the next one of the program. -/
inductive TakesOwner (w : World7) (owner nextOwner : UInt64) : Prop where
  | own (ne : w.volume.stageOwner ≠ 0) (same : owner = w.volume.stageOwner)
      (kept : nextOwner = w.nextOwner)
  | taken (zero : w.volume.stageOwner = 0) (ne : w.nextOwner ≠ 0) (took : owner = w.nextOwner)
      (counted : nextOwner = w.nextOwner + 1)

/-- The ways opening a stage can end. -/
inductive OpenRan (identity : WriteIdentity7) (expectedVersion : UInt64) (length : UInt32)
    (kind : Stage7Kind) (w : World7) : Except Error Stage7 × World7 → Prop where
  | refused (e : Error) (nextOwner : UInt64)
      (kept : w.nextOwner ≠ 0 → nextOwner = w.nextOwner) :
      OpenRan identity expectedVersion length kind w (.error e, { w with nextOwner })
  | opened (index : Fin 2) (slot : StageSlot) (nonce owner nextOwner : UInt64)
      (closed : w.volume.stages[index] = none)
      (counted : checkedAdd w.volume.stageNonce 1 = some nonce)
      (slotOk : openSlot w.volume identity expectedVersion length kind = .ok slot)
      (took : TakesOwner w owner nextOwner) :
      OpenRan identity expectedVersion length kind w
        (.ok { owner, slot := UInt8.ofNat index.val, nonce }, { w with
          volume := { w.volume with
            stageOwner := owner
            stageNonce := nonce
            stages := w.volume.stages.setAt index (some { slot with nonce }) }
          nextOwner })

theorem openStage_ran (identity : WriteIdentity7) (expectedVersion : UInt64) (length : UInt32)
    (kind : Stage7Kind) (w : World7) :
    OpenRan identity expectedVersion length kind w
      ((openStage identity expectedVersion length kind).run w) := by
  rw [openStage, run_getVolume_bind]
  cases w.volume.ready with
  | error e => exact .refused e w.nextOwner fun _ => rfl
  | ok u =>
  rw [lift_ok_bind]
  cases hfind : (List.finRange 2).find? fun i => w.volume.stages[i].isNone with
  | none => exact .refused .busy w.nextOwner fun _ => rfl
  | some index =>
  have hclosed : w.volume.stages[index] = none := by
    have hp := List.find?_some hfind
    exact Option.isNone_iff_eq_none.mp hp
  rw [orRefuse_some, lift_ok_bind]
  cases hnonce : checkedAdd w.volume.stageNonce 1 with
  | none => exact .refused .exhausted w.nextOwner fun _ => rfl
  | some nonce =>
  rw [orRefuse_some, lift_ok_bind]
  cases hslot : openSlot w.volume identity expectedVersion length kind with
  | error e => exact .refused e w.nextOwner fun _ => rfl
  | ok slot =>
  rw [lift_ok_bind]
  split
  · rename_i hzero
    by_cases howner : w.nextOwner = 0
    · simp only [run_bind, run_get, run_change, run_refuse, howner, if_true]
      exact .refused .exhausted _ fun hne => absurd howner hne
    · simp only [run_bind, run_get, run_change, run_refuse, howner, if_false]
      exact .opened index slot nonce w.nextOwner (w.nextOwner + 1) hclosed hnonce hslot
        (.taken hzero howner rfl rfl)
  · rename_i hne
    exact .opened index slot nonce w.volume.stageOwner w.nextOwner hclosed hnonce hslot
      (.own hne rfl rfl)

/-- A stage that nothing refuses is opened. -/
theorem openStage_eq {identity : WriteIdentity7} {expectedVersion : UInt64} {length : UInt32}
    {w : World7} {index : Fin 2} {nonce owner nextOwner : UInt64} (hw : w.volume.fenced = false)
    (hfind : ((List.finRange 2).find? fun i => w.volume.stages[i].isNone) = some index)
    (hnonce : checkedAdd w.volume.stageNonce 1 = some nonce)
    (hslot : openSlot w.volume identity expectedVersion length kind = .ok slot)
    (took : TakesOwner w owner nextOwner) :
    (openStage identity expectedVersion length kind).run w
      = (.ok { owner, slot := UInt8.ofNat index.val, nonce }, { w with
          volume := { w.volume with
            stageOwner := owner
            stageNonce := nonce
            stages := w.volume.stages.setAt index (some { slot with nonce }) }
          nextOwner }) := by
  have hready : w.volume.ready = .ok () := Volume7.ready_eq_ok.mpr hw
  rw [openStage, run_getVolume_bind, hready, lift_ok_bind, hfind, orRefuse_some, lift_ok_bind,
    hnonce, orRefuse_some, lift_ok_bind, hslot, lift_ok_bind]
  cases took with
  | own ne same kept =>
    subst same kept
    rw [if_neg ne]
    rfl
  | taken zero ne took counted =>
    subst took counted
    rw [if_pos zero]
    simp only [run_bind, run_get, run_change, run_refuse, ne, if_false]
    rfl

/-- The same stage under its token. -/
theorem StageHolds.withNonce {g : Generation7} {view : Nat → Block} {bytes : List UInt8}
    (h : StageHolds g view slot bytes) (nonce : UInt64) :
    StageHolds g view { slot with nonce } bytes where
  written := h.written
  within := h.within
  whole := h.whole
  size := h.size
  fresh := fun plan hmode => ⟨(h.fresh plan hmode).planned, (h.fresh plan hmode).stored,
    (h.fresh plan hmode).checksum⟩
  retry := fun record matching hmode =>
    have hr := h.retry record matching hmode
    ⟨hr.retained, hr.scope, hr.length, hr.answers, hr.tracked, hr.agrees, hr.checksum⟩

theorem openStage_spec (h : Ready w staged) (identity : WriteIdentity7) (expectedVersion : UInt64)
    (length : UInt32) (kind : Stage7Kind) :
    ((openStage identity expectedVersion length kind).run w).2.contents = w.contents
      ∧ (∀ e, ((openStage identity expectedVersion length kind).run w).1 = .error e →
        Ready ((openStage identity expectedVersion length kind).run w).2 staged)
      ∧ ∀ t, ((openStage identity expectedVersion length kind).run w).1 = .ok t →
        ∃ i : Fin 2, t.slot.toNat = i.val
          ∧ Ready ((openStage identity expectedVersion length kind).run w).2
            (Function.update staged i []) := by
  have hran := openStage_ran identity expectedVersion length kind w
  generalize (openStage identity expectedVersion length kind).run w = r at hran
  cases hran with
  | refused e nextOwner =>
    exact ⟨rfl, fun _ _ => ⟨h.unfenced, h.idle, h.durable, h.stages⟩, nofun⟩
  | opened index slot nonce owner nextOwner hclosed hcounted hslot =>
    have hopened := openSlot_spec h hslot
    have hstages := h.stages.open hclosed (hopened.held.holds.withNonce nonce) hopened.held.apart
      hopened.scopes hopened.room
    refine ⟨rfl, nofun, ?_⟩
    rintro t ⟨⟩
    refine ⟨index, ?_, h.unfenced, h.idle, h.durable, hstages.congr rfl rfl rfl fun _ => rfl⟩
    exact UInt8.toNat_ofNat_of_lt' (by show _ < 2 ^ 8; omega)

end

/-! ### Writing, aborting and releasing registered stages -/

section
variable {w : World7} {staged : Fin 2 → List UInt8}

/-- The world with a stage slot stored or cleared. -/
def World7.setStage (w : World7) (i : Fin 2) (slot : Option StageSlot) : World7 :=
  { w with volume := { w.volume with stages := w.volume.stages.setAt i slot } }

theorem run_setStage_bind {α : Type} (i : Fin 2) (slot : Option StageSlot) (f : Unit → Op α)
    (w : World7) : (setStage i slot >>= f).run w = (f ()).run (w.setStage i slot) := rfl

theorem setStage_setStage (w : World7) (i : Fin 2) (a b : Option StageSlot) :
    (w.setStage i a).setStage i b = w.setStage i b := by
  show ({ w with volume := { w.volume with stages := _ } } : World7) = _
  rw [show (w.setStage i a).volume.stages.setAt i b = w.volume.stages.setAt i b from
    Vector.setAt_setAt w.volume.stages i a b]
  rfl

/-- Closing a stage keeps an owner ready. -/
theorem Ready.close (h : Ready w staged) (i : Fin 2) : Ready (w.setStage i none) staged :=
  ⟨h.unfenced, h.idle, h.durable, h.stages.close i⟩

/-- A stage taken out of its slot is held. -/
theorem Ready.take (h : Ready w staged) {i : Fin 2} {slot : StageSlot}
    (hi : w.volume.stages[i] = some slot) : Held (w.setStage i none) staged slot (staged i) where
  ready := h.close i
  holds := h.stages.holds i slot hi
  apart := by
    intro j other hj
    by_cases hji : j = i
    · subst hji
      rw [World7.setStage, Vector.setAt_self] at hj
      cases hj
    · rw [World7.setStage, Vector.setAt_ne _ hji] at hj
      exact h.stages.disjoint i j slot other (Ne.symm hji) hi hj

/-- Putting the next state of a taken stage back. -/
theorem Held.put {slot next : StageSlot} {bytes : List UInt8} {i : Fin 2} {d : Disk}
    (h : Ready w staged) (hi : w.volume.stages[i] = some slot)
    (hheld : Held { w.setStage i none with disk := d } staged next bytes)
    (hwalks : Walks next slot) :
    Ready (World7.setStage { w.setStage i none with disk := d } i (some next))
      (Function.update staged i bytes) := by
  have hset : (w.setStage i none).volume.reservedRecords + reserves w.volume.stages[i]
      = w.volume.reservedRecords + 0 := reservedRecords_set w.volume i none
  rw [hi] at hset
  have hroom := h.stages.room
  have hopen := hheld.ready.stages.open (i := i) (Vector.setAt_self _ _ _) hheld.holds hheld.apart
    ?_ ?_
  · exact ⟨h.unfenced, hheld.ready.idle, hheld.ready.durable, hopen⟩
  · intro j other hj
    by_cases hji : j = i
    · subst hji
      have hnone := Vector.setAt_self w.volume.stages j none
      exact nomatch hnone.symm.trans hj
    · have hother := (Vector.setAt_ne w.volume.stages hji none).symm.trans hj
      rw [hwalks.identity]
      exact h.stages.scopes i j slot other (Ne.symm hji) hi hother
  · show (w.setStage i none).volume.reservedRecords + reserves (some next) ≤ w.volume.freeRecords
    have hreserves : reserves (some next) = reserves (some slot) := by
      rw [reserves, reserves, hwalks.isFresh]
    omega

theorem Ready.ready (h : Ready w staged) : w.volume.ready = .ok () :=
  Volume7.ready_eq_ok.mpr h.unfenced

/-- A registered stage takes one sector, or the owner keeps its contents. -/
theorem stageWrite_spec (h : Ready w staged) (stage : Stage7) (data : List UInt8) :
    (∀ e, ((stageWrite stage data).run w).1 = .error e →
        Settles w.contents none staged ((stageWrite stage data).run w).2)
      ∧ ∀ n, ((stageWrite stage data).run w).1 = .ok n → ∃ i : Fin 2, stage.slot.toNat = i.val
        ∧ Ready ((stageWrite stage data).run w).2 (Function.update staged i (staged i ++ data))
        ∧ ((stageWrite stage data).run w).2.contents = w.contents := by
  rw [stageWrite, run_getVolume_bind, h.ready, lift_ok_bind]
  cases hindex : w.volume.stageIndex stage with
  | error e => exact ⟨fun _ _ => .kept h rfl, nofun⟩
  | ok found =>
  obtain ⟨i, slot⟩ := found
  obtain ⟨hi, hslot⟩ := stageIndex_spec hindex
  have hheld := h.take hi
  rw [lift_ok_bind]
  dsimp only
  rw [run_setStage_bind, run_bind, run_attempt]
  by_cases hdata : slot.Misfits data
  · rw [writeSlot_run, if_pos hdata]
    have hput := Held.put h hi hheld (.refl slot)
    rw [Function.update_eq_self] at hput
    exact ⟨fun _ _ => .kept hput rfl, nofun⟩
  · have hnext := hheld.holds.nextSector hdata
    obtain ⟨sector, hsector⟩ := hheld.exists_sector hnext
    have hran := writeSlot_ran (w := w.setStage i none) hdata hsector h.idle
    generalize (writeSlot slot data).run (w.setStage i none) = r at hran
    cases hran with
    | done d medium idle live =>
      obtain ⟨hmoved, hcontents⟩ := hheld.next hnext hsector medium idle
      have hput := Held.put h hi hmoved (next_walks slot w.disk.medium.view sector data)
      exact ⟨nofun, fun _ _ => ⟨i, hslot, hput, hcontents⟩⟩
    | released e d medium idle broken =>
      have hd : SameDisk d (w.setStage i none) := ⟨medium, idle⟩
      exact ⟨fun _ _ => .kept (hheld.ready.onDisk hd) hd.contents, nofun⟩
    | fenced d medium idle broken =>
      exact ⟨fun _ _ => .fenced rfl fun img himg =>
        Or.inl (hheld.stores hnext hsector medium idle himg), nofun⟩

/-- Aborting a stage closes it or does nothing. -/
theorem abortStage_run (stage : Stage7) (w : World7) :
    ((abortStage stage).run w).2 = w
      ∨ ∃ i, ((abortStage stage).run w).2 = w.setStage i none := by
  rw [abortStage, run_getVolume_bind]
  cases w.volume.stageIndex stage with
  | error e => exact Or.inl rfl
  | ok found => exact Or.inr ⟨found.1, rfl⟩

theorem abortStage_spec (h : Ready w staged) (stage : Stage7) :
    Ready ((abortStage stage).run w).2 staged
      ∧ ((abortStage stage).run w).2.contents = w.contents := by
  rcases abortStage_run stage w with hrun | ⟨i, hrun⟩
  · rw [hrun]
    exact ⟨h, rfl⟩
  · rw [hrun]
    exact ⟨h.close i, rfl⟩

theorem releaseStages_spec (h : Ready w staged) :
    Ready (releaseStages.run w).2 staged ∧ (releaseStages.run w).2.contents = w.contents :=
  ⟨⟨h.unfenced, h.idle, h.durable, .of_none rfl _ _⟩, rfl⟩

end

end RusticOs.Fs
