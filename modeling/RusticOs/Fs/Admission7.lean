import RusticOs.Fs.Poll7

/-!
# `RusticOs.Fs.Admission7`: durable admission, execution, cancellation and bounded reads

`volume7/admission.rs` and `volume7/read.rs`. The admission calls return a
`PollPublication7` that holds the world until it is dropped.
-/

set_option autoImplicit false

namespace RusticOs.Fs

open RusticOs.Lib
open Fallible (lift refuse fail)

/-! ### Admission -/

/-- The record of a fresh admission. -/
def admittedRecord (identity : WriteIdentity7) (expectedVersion admissionNumber : UInt64)
    (length payloadCrc32 : UInt32) (plan : PayloadPlan) : Record7 :=
  { subject := identity.subject
    workspace := identity.workspace
    object := identity.object
    inst := identity.inst
    retryEpoch := identity.retryEpoch
    retryKey := identity.retryKey
    previous := expectedVersion
    committed := 0
    admissionNumber
    terminal := 0
    length
    payloadCrc32
    state := .admitted
    prevention := none
    extentsUsed := UInt8.ofNat plan.used
    -- the snapshot stays canonical even for an empty file
    extents := if plan.used = 0 then Vector.replicate 8 Extent.zero else plan.extents }

/-- Build and validate the admitted candidate for payload that is already planned. -/
def admissionCandidate (identity : WriteIdentity7) (expectedVersion : UInt64)
    (length payloadCrc32 : UInt32) (plan : PayloadPlan) : Op Candidate7 := do
  let v ← getVolume
  let (recordSlot, admissionNumber) ← lift (admissionTarget v identity expectedVersion)
  let record := admittedRecord identity expectedVersion admissionNumber length payloadCrc32 plan
  let c := { Candidate7.empty recordSlot record with added := plan }
  validateCandidate c
  pure c

/-- Begin a pollable durable admission of borrowed bytes. -/
def prepareAdmission (identity : WriteIdentity7) (expectedVersion : UInt64)
    (bytes : List UInt8) : Op PollPublication7 := do
  let v ← getVolume
  lift v.ready
  refuse (bytes.length > maxFileBytes) .size
  lift (v.validateIdentity identity)
  refuse (v.stageHoldsScope identity = true) .busy
  let length := UInt32.ofNat bytes.length
  match ← lift (openAdmission v identity expectedVersion length) with
  | .retry record => do
    let w ← Fallible.get
    pure (PollPublication7.retry w record bytes)
  | .fresh plan => do
    let c ← admissionCandidate identity expectedVersion length (crc bytes) plan
    let w ← Fallible.get
    pure (PollPublication7.publish w c (some bytes))

/-- Finish a fully written admission stage as a pollable publication. -/
def finishAdmission (stage : Stage7) : Op PollPublication7 := do
  let v ← getVolume
  lift v.ready
  let slot ← takeFinishable stage .admission
  match slot.mode with
  | .retry record matching =>
    if slot.payloadCrc ≠ record.payloadCrc32 then do
      setVolume fun v => { v with fenced := true }
      fail .corrupt
    else do
      refuse (matching = false) .idempotencyConflict
      -- the retained record may have moved on while the stage was open
      let current ← lift (orRefuse .corrupt (v.findRetry slot.identity))
      let w ← Fallible.get
      pure (PollPublication7.replay w current)
  | .fresh plan => do
    refuse ((v.findRetry slot.identity).isSome = true) .idempotencyConflict
    let c ← admissionCandidate slot.identity slot.expectedVersion slot.length slot.payloadCrc
      plan
    let w ← Fallible.get
    pure (PollPublication7.staged w c)

/-! ### Execution and cancellation -/

/-- The retained record of an identity and its slot. -/
def lookupRecord (v : Volume7) (identity : WriteIdentity7) : Except Error (Fin 8 × Record7) :=
  match (List.finRange 8).findSome? fun slot =>
      (v.records[slot].filter fun record => sameRetryScope record identity).map (slot, ·) with
  | some found => .ok found
  | none =>
    if identity.retryEpoch ≠ v.header.epoch then .error .expiredEpoch
    else .error .outcomeUnknown

/-- The record of an executed admission. -/
def Record7.execute (record : Record7) (committed : UInt64) : Record7 :=
  { record with committed, terminal := committed, state := .admittedCommitted }

/-- The record of a cancelled admission. -/
def Record7.cancel (record : Record7) (terminal : UInt64) (prevention : PreventionReason) :
    Record7 :=
  { record with committed := 0, terminal, state := .cancelled, prevention := some prevention }

/-- The candidate of an execution: the file takes over the snapshot's runs. -/
def executeCandidate (v : Volume7) (slot : Fin 8) (record : Record7) (index : Fin 256)
    (committed : UInt64) : Candidate7 :=
  { Candidate7.empty slot (record.execute committed) with
    nodeUpdate := some (index, v.nodes[index].withContent committed record.length
      record.payloadCrc32 record.extentsUsed record.extents)
    released := releasable v.records v.nodes[index] }

/-- Validate a candidate and publish it without new payload. -/
def publishChange (c : Candidate7) : Op PollPublication7 := do
  validateCandidate c
  let w ← Fallible.get
  pure (PollPublication7.publish w c none)

/-- Prepare explicit execution of a durable admission. -/
def prepareExecute (identity : WriteIdentity7) (expectedVersion : UInt64) :
    Op PollPublication7 := do
  let w ← Fallible.get
  let v := w.volume
  lift v.ready
  lift (v.validateIdentity identity)
  let (slot, record) ← lift (lookupRecord v identity)
  refuse (¬ sameRecordIdentity record identity expectedVersion) .idempotencyConflict
  match record.state with
  | .cancelled => fail .cancelled
  | .directCommitted => fail .idempotencyConflict
  | .admittedCommitted => pure (PollPublication7.replay w record)
  | .admitted => do
    let index ← lift (orRefuse .notFound (v.nodePosition identity.object))
    let node := v.nodes[index]
    refuse (node.kind ≠ .file) .isDirectory
    refuse (node.version ≠ record.previous) .version
    let committed ← lift (orRefuse .exhausted (checkedAdd v.header.sequence 1))
    publishChange (executeCandidate v slot record index committed)

/-- Prepare a durable cancellation with its cause. -/
def prepareCancellation (identity : WriteIdentity7) (expectedVersion : UInt64)
    (prevention : PreventionReason) : Op PollPublication7 := do
  let w ← Fallible.get
  let v := w.volume
  lift v.ready
  lift (v.validateIdentity identity)
  let (slot, record) ← lift (lookupRecord v identity)
  refuse (¬ sameRecordIdentity record identity expectedVersion) .idempotencyConflict
  match record.state with
  | .cancelled => do
    refuse (record.prevention ≠ some prevention) .idempotencyConflict
    pure (PollPublication7.replay w record)
  | .admittedCommitted | .directCommitted => pure (PollPublication7.replay w record)
  | .admitted => do
    let terminal ← lift (orRefuse .exhausted (checkedAdd v.header.sequence 1))
    publishChange (Candidate7.empty slot (record.cancel terminal prevention))

/-! ### Bounded reads -/

/-- Copy bytes from consecutive sectors, starting `within` bytes into the first one. -/
def copySectors : List Nat → Nat → Nat → Fallible Error Disk (List UInt8)
  | [], _, _ => pure []
  | sector :: rest, within, remaining =>
    if remaining = 0 then pure []
    else do
      let block ← Device.readSector (payloadSector + sector)
      let take := min remaining (512 - within)
      let tail ← copySectors rest 0 (remaining - take)
      pure (slice block.toList within take ++ tail)

/-- Copy the part of `[offset, stop)` that falls into each run. -/
def readRunList (offset stop : Nat) : List Extent → Nat → Fallible Error Disk (List UInt8)
  | [], _ => pure []
  | run :: rest, position => do
    let runEnd := position + run.sectors.toNat * 512
    let part ←
      if runEnd > offset ∧ position < stop then
        let start := max offset position
        copySectors (run.sectorList.drop ((start - position) / 512)) ((start - position) % 512)
          (min stop runEnd - start)
      else pure []
    let tail ← readRunList offset stop rest runEnd
    pure (part ++ tail)

/-- The bytes `[offset, offset + size)` of a payload, clipped at its length. -/
def readRuns (runs : List Extent) (length : UInt32) (offset : UInt64) (size : Nat) :
    Fallible Error Disk (List UInt8) := do
  refuse (offset.toNat > length.toNat) .size
  let count := min size (length.toNat - offset.toNat)
  let bytes ← readRunList offset.toNat (offset.toNat + count) runs 0
  refuse (bytes.length ≠ count) .corrupt
  pure bytes

/-- Copy a range of a live file's current version. -/
def readRange (id : UInt32) (expectedVersion : Option UInt64) (offset : UInt64) (size : Nat) :
    Op (List UInt8) := do
  let v ← getVolume
  let node ← lift (v.stat id)
  refuse (expectedVersion.any (· != node.version) = true) .version
  refuse (node.kind ≠ .file) .isDirectory
  refuse (node.validate ≠ .ok ()) .corrupt
  onDisk (readRuns node.runs node.length offset size)

/-- Copy a range of a retained record's snapshot. -/
def readRetainedRange (record : Record7) (offset : UInt64) (size : Nat) : Op (List UInt8) := do
  let v ← getVolume
  lift v.ready
  refuse (record ∉ v.records.toList.reduceOption) .notFound
  refuse (record.validate v.header.sequence v.header.next ≠ .ok ()) .corrupt
  onDisk (readRuns record.runs record.length offset size)

end RusticOs.Fs
