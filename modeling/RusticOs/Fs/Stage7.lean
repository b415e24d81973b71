import RusticOs.Fs.Mutation7

/-!
# `RusticOs.Fs.Stage7`: streamed stages and tracked replacement

`volume7/stage.rs` and `volume7/replacement.rs`. A fresh stage reserves planned runs and a
retained slot in memory only, and writes its payload one sector at a time. A stage that
matches a retained record compares each supplied sector with the stored snapshot instead.
Tracked replacement is a stage held on the stack, written sector by sector and finished.
-/

set_option autoImplicit false

namespace RusticOs.Fs

open RusticOs.Lib
open Fallible (lift refuse fail)

/-! ### Opening and writing -/

/-- Why a sector write stopped: an argument refusal that keeps the stage, a refusal that
ends it, or a failed write that fenced the owner. -/
inductive WriteFault where
  | refused (error : Error)
  | released (error : Error)
  | fenced

def WriteFault.error : WriteFault → Error
  | .refused e => e
  | .released e => e
  | .fenced => .uncertain

/-- Preflight and planning of a stage that is not registered yet. -/
def openSlot (v : Volume7) (identity : WriteIdentity7) (expectedVersion : UInt64)
    (length : UInt32) (kind : Stage7Kind) : Except Error StageSlot := do
  v.ready
  reject (length.toNat > maxFileBytes) .size
  v.validateIdentity identity
  reject (v.stageHoldsScope identity = true) .busy
  let opening ← match kind with
    | .tracked => openTracked v identity expectedVersion length
    | .admission => openAdmission v identity expectedVersion length
  let mode := match opening with
    | .fresh plan => StageMode.fresh plan
    | .retry record => StageMode.retry record true
  pure { nonce := 0, kind, identity, expectedVersion, length, mode, written := 0
         checksum := crcInit }

/-- Open a stage and return its token. -/
def openStage (identity : WriteIdentity7) (expectedVersion : UInt64) (length : UInt32)
    (kind : Stage7Kind) : Op Stage7 := do
  let v ← getVolume
  lift v.ready
  let index ← lift
    (orRefuse .busy ((List.finRange 2).find? fun i => v.stages[i].isNone))
  let nonce ← lift (orRefuse .exhausted (checkedAdd v.stageNonce 1))
  let slot ← lift (openSlot v identity expectedVersion length kind)
  if v.stageOwner = 0 then do
    -- an owner takes its identity from the program-wide counter once
    let owner := (← Fallible.get).nextOwner
    Fallible.change fun w => { w with nextOwner := w.nextOwner + 1 }
    refuse (owner = 0) .exhausted
    setVolume fun v => { v with stageOwner := owner }
  setVolume fun v => { v with
    stageNonce := nonce, stages := v.stages.setAt index (some { slot with nonce }) }
  let v ← getVolume
  pure { owner := v.stageOwner, slot := UInt8.ofNat index.val, nonce }

/-- Release every open stage. -/
def releaseStages : Op Nat := do
  let v ← getVolume
  setVolume fun v => { v with stages := Vector.replicate 2 none }
  pure v.openStages

/-- Write or verify the next sector of a stage. The final sector is zero-padded. -/
def writeSlot (slot : StageSlot) (bytes : List UInt8) : Fallible WriteFault World7 StageSlot := do
  let remaining := slot.length - slot.written
  refuse (remaining = 0 ∨ bytes.length ≠ min remaining.toNat 512) (.refused .invalid)
  let index := slot.written.toNat / 512
  match slot.mode with
  | .fresh plan => do
    let sector ← lift (orRefuse (.released .corrupt) (runSector plan.runs index))
    match ← (onDisk (Device.writeSector (payloadSector + sector) (payloadBlock bytes))).attempt with
    | .ok _ =>
      pure { slot with
        checksum := crcUpdate slot.checksum bytes
        written := slot.written + UInt32.ofNat bytes.length }
    | .error _ => do
      Fallible.change fun w => { w with volume := w.volume.fenceClear }
      fail .fenced
  | .retry record matching => do
    let sector ← lift (orRefuse (.released .corrupt) (runSector record.runs index))
    let block ← (onDisk (Device.readSector (payloadSector + sector))).mapError .released
    -- the CRC covers the stored snapshot, whether or not the supplied bytes differ
    let stored := block.toList.take bytes.length
    pure { slot with
      mode := .retry record (matching && stored == bytes)
      checksum := crcUpdate slot.checksum stored
      written := slot.written + UInt32.ofNat bytes.length }

/-- Store or clear one stage slot. -/
def setStage (index : Fin 2) (slot : Option StageSlot) : Op Unit :=
  setVolume fun v => { v with stages := v.stages.setAt index slot }

/-- Supply the next sector of a stage and return the bytes still expected. -/
def stageWrite (stage : Stage7) (bytes : List UInt8) : Op UInt32 := do
  let v ← getVolume
  lift v.ready
  let (index, slot) ← lift (v.stageIndex stage)
  setStage index none
  match ← (writeSlot slot bytes).attempt with
  | .ok next => do
    setStage index (some next)
    pure (next.length - next.written)
  | .error (.refused e) => do
    setStage index (some slot)
    fail e
  | .error fault => fail fault.error

/-- Release an open stage without I/O. -/
def abortStage (stage : Stage7) : Op Unit := do
  let v ← getVolume
  let (index, _) ← lift (v.stageIndex stage)
  setStage index none

/-- Remove a complete stage of a kind so that it can be finished. Any other stage stays
open. -/
def takeFinishable (stage : Stage7) (kind : Stage7Kind) : Op StageSlot := do
  let v ← getVolume
  let (index, slot) ← lift (v.stageIndex stage)
  refuse (¬ (slot.kind = kind ∧ slot.complete)) .invalid
  setStage index none
  pure slot

/-! ### Tracked replacement -/

/-- The record a tracked replacement publishes. -/
def trackedRecord (slot : StageSlot) (plan : PayloadPlan) (sequence : UInt64) : Record7 :=
  { subject := slot.identity.subject
    workspace := slot.identity.workspace
    object := slot.identity.object
    inst := slot.identity.inst
    retryEpoch := slot.identity.retryEpoch
    retryKey := slot.identity.retryKey
    previous := slot.expectedVersion
    committed := sequence
    admissionNumber := 0
    terminal := sequence
    length := slot.length
    payloadCrc32 := slot.payloadCrc
    state := .directCommitted
    prevention := none
    extentsUsed := UInt8.ofNat plan.used
    extents := plan.extents }

/-- A node with new content. -/
def Node7.withContent (node : Node7) (version : UInt64) (length payloadCrc32 : UInt32)
    (extentsUsed : UInt8) (extents : Vector Extent 8) : Node7 :=
  { node with version, length, payloadCrc32, extentsUsed, extents }

/-- The candidate a tracked replacement publishes. -/
def trackedCandidate (v : Volume7) (slot : StageSlot) (plan : PayloadPlan)
    (target : TrackedTarget) : Candidate7 :=
  let record := trackedRecord slot plan target.sequence
  { Candidate7.empty target.receiptSlot record with
    nodeUpdate := some (target.index, target.previous.withContent target.sequence slot.length
      record.payloadCrc32 (UInt8.ofNat plan.used) plan.extents)
    added := plan
    released := releasable v.records target.previous }

/-- Recheck, validate and publish a fresh tracked stage whose payload is on disk. -/
def commitTracked (slot : StageSlot) (plan : PayloadPlan) : Op Record7 := do
  let v ← getVolume
  refuse ((v.findRetry slot.identity).isSome = true) .idempotencyConflict
  let target ← lift (trackedTarget v slot.identity slot.expectedVersion)
  let c := trackedCandidate v slot plan target
  validateCandidate c
  match c.released.foldlM release (reservePlan v.map plan) with
  | .error _ => do
    setVolume Volume7.fenceClear
    fail .uncertain
  | .ok map => do
    setVolume fun v => { v with
      fenced := true, map, nodes := c.nodes v.nodes
      records := v.records.setAt c.recordSlot (some c.record) }
    publishNamespace
    pure c.record

/-- Finish a tracked stage that is no longer registered. -/
def finishTrackedSlot (slot : StageSlot) : Op Record7 := do
  refuse (slot.kind ≠ .tracked ∨ slot.complete = false) .invalid
  match slot.mode with
  | .retry record matching => do
    refuse (slot.payloadCrc ≠ record.payloadCrc32) .corrupt
    refuse (matching = false) .idempotencyConflict
    pure record
  | .fresh plan => commitTracked slot plan

/-- Finish a fully written tracked stage. -/
def finishTracked (stage : Stage7) : Op Record7 := do
  let v ← getVolume
  lift v.ready
  let slot ← takeFinishable stage .tracked
  finishTrackedSlot slot

/-- Supply all sectors of a stage. -/
def writeSectors (slot : StageSlot) (sectors : List (List UInt8)) : Op StageSlot :=
  sectors.foldlM (fun slot sector => (writeSlot slot sector).mapError WriteFault.error) slot

/-- Replace one file and retain a record with the exact bytes. -/
def replaceTracked (identity : WriteIdentity7) (expectedVersion : UInt64) (bytes : List UInt8) :
    Op Record7 := do
  let v ← getVolume
  lift v.ready
  refuse (bytes.length ≥ 2 ^ 32) .size
  let slot ← lift
    (openSlot v identity expectedVersion (UInt32.ofNat bytes.length) .tracked)
  let slot ← writeSectors slot (chunks 512 (sectorsFor bytes.length) bytes)
  finishTrackedSlot slot

end RusticOs.Fs
