import RusticOs.Fs.Publication7

/-!
# `RusticOs.Fs.Mutation7`: synchronous mutations and streamed stages

Namespace mutations (`volume7/namespace.rs`), retention maintenance
(`volume7/maintenance.rs`), streamed stages (`volume7/stage.rs`) and tracked replacement
(`volume7/replacement.rs`), with the candidate deltas of `volume7/poll.rs` they share with
the pollable publications.
-/

set_option autoImplicit false

namespace RusticOs.Fs

open RusticOs.Lib
open Fallible (lift refuse)

/-! ### Candidates -/

/-- A small metadata delta: one record slot, at most one node, runs added and runs
released. -/
structure Candidate7 where
  recordSlot : Fin 8
  record : Record7
  nodeUpdate : Option (Fin 256 × Node7)
  added : PayloadPlan
  released : List Extent

namespace Candidate7

def empty (recordSlot : Fin 8) (record : Record7) : Candidate7 :=
  { recordSlot, record, nodeUpdate := none, added := PayloadPlan.empty, released := [] }

/-- The node table with the candidate's node. -/
def nodes (c : Candidate7) (nodes : Nodes7) : Nodes7 :=
  match c.nodeUpdate with
  | some (index, node) => nodes.setAt index node
  | none => nodes

/-- The bitmap with the candidate's runs. -/
def map (c : Candidate7) (map : SpaceMap) : SpaceMap :=
  mutateMap (mutateMap map c.added.runs true) c.released false

/-- The owner with the candidate's structures. -/
def apply (c : Candidate7) (v : Volume7) : Volume7 :=
  { v with
    records := v.records.setAt c.recordSlot (some c.record)
    nodes := c.nodes v.nodes
    map := c.map v.map }

/-- Undo `apply` on an owner that was `old` before. -/
def restore (c : Candidate7) (old v : Volume7) : Volume7 :=
  { v with
    map := mutateMap (mutateMap v.map c.released true) c.added.runs false
    records := v.records.setAt c.recordSlot old.records[c.recordSlot]
    nodes := match c.nodeUpdate with
      | some (index, _) => v.nodes.setAt index old.nodes[index]
      | none => v.nodes }

end Candidate7

/-- Validate a candidate against the exact next header. The owner is changed in place for
the check and restored after it. -/
def validateCandidate (c : Candidate7) : Op Unit := do
  let old ← getVolume
  let _ ← lift c.record.encode
  let header ← lift (candidateHeader old.header)
  setVolume c.apply
  let v ← getVolume
  setVolume (c.restore old)
  lift (validateGeneration header v.nodes v.records v.map)

/-- Adopt a published candidate. -/
def adoptCandidate (v : Volume7) (c : Candidate7) (header : Header7) : Volume7 :=
  { c.apply v with header }

/-- The runs of a node that no retained snapshot owns. -/
def releasable (records : Records7) (node : Node7) : List Extent :=
  node.runs.filter fun run => !retainedOwnsRun records run

/-! ### Namespace mutations -/

/-- Only a lookup that finds nothing lets a name be taken. -/
def nameFree (v : Volume7) (parent : UInt32) (name : List UInt8) : Except Error Unit :=
  match v.lookup parent name with
  | .ok _ => .error .existing
  | .error .notFound => .ok ()
  | .error e => .error e

/-- The node of a new file or directory. -/
def createdNode (id parent : UInt32) (version : UInt64) (space : UInt8) (name : List UInt8)
    (kind : Kind) : Node7 :=
  { id, parent, version, length := 0, kind, space, extentsUsed := 0
    extents := Vector.replicate 8 Extent.zero, nameLength := UInt8.ofNat name.length
    nameField := Bytes.pack 32 name, payloadCrc32 := 0 }

/-- Create a file or directory with a new identity. -/
def create (parent : UInt32) (name : List UInt8) (kind : Kind) : Op Node7 := do
  let v ← getVolume
  lift v.ready
  lift (validName name)
  refuse (kind = .empty) .invalid
  let directory ← lift (v.stat parent)
  refuse (directory.space = 1) .readOnly
  refuse (directory.kind ≠ .directory) .notDirectory
  lift (nameFree v parent name)
  let slot ← lift
    (orRefuse .full ((List.finRange 256).find? fun i => v.nodes[i].kind = .empty))
  let id ← lift v.header.nextId
  let next ← lift (orRefuse .exhausted (checkedAdd32 id 1))
  let version ← lift (orRefuse .exhausted (checkedAdd v.header.sequence 1))
  let node := createdNode id parent version directory.space name kind
  setVolume fun v => { v with
    fenced := true, nodes := v.nodes.setAt slot node, header := { v.header with next } }
  publishNamespace
  pure node

/-- Remove a file or an empty directory. Retained snapshots keep their runs. -/
def remove (id : UInt32) : Op Unit := do
  let v ← getVolume
  lift v.ready
  let index ← lift (orRefuse .notFound (v.nodePosition id))
  let node := v.nodes[index]
  refuse (node.space = 1 ∨ node.parent = 0) .readOnly
  refuse (∃ i : Fin 256, v.nodes[i].kind ≠ .empty ∧ v.nodes[i].parent = id) .notEmpty
  let _ ← lift (orRefuse .exhausted (checkedAdd v.header.sequence 1))
  match (releasable v.records node).foldlM release v.map with
  | .error _ => do
    setVolume Volume7.fenceClear
    Fallible.fail .corrupt
  | .ok map => do
    setVolume fun v => { v with fenced := true, map, nodes := v.nodes.setAt index Node7.empty }
    publishNamespace

/-! ### Retention maintenance -/

/-- Mark one run of a live file, checking its bounds. -/
def liveRun (map : SpaceMap) (run : Extent) : Except Error SpaceMap := do
  let stop ← orRefuse .corrupt (checkedAdd run.start run.sectors)
  reject (run.sectors = 0 ∨ stop.toNat > dataSectors) .corrupt
  markSectors map run.sectorList

/-- The bitmap of the sectors live files own. -/
def liveFileMap (nodes : Nodes7) : Except Error SpaceMap :=
  (nodes.toList.filter fun node => node.kind = .file).foldlM
    (fun map node => node.runs.foldlM liveRun map) (Vector.replicate 2048 0)

/-- Drop every terminal outcome and publish the next retry epoch. -/
def maintainRetention : Op UInt64 := do
  let v ← getVolume
  lift v.ready
  refuse (v.openStages ≠ 0) .busy
  refuse (∃ i : Fin 8, v.records[i].any (fun r => r.state = .admitted) = true) .busy
  let epoch ← lift (orRefuse .exhausted (checkedAdd v.header.epoch 1))
  let _ ← lift (orRefuse .exhausted (checkedAdd v.header.sequence 1))
  lift (validateGeneration v.header v.nodes v.records v.map)
  let live ← lift (liveFileMap v.nodes)
  refuse (∃ i : Fin 2048, live[i] &&& ~~~ v.map[i] ≠ 0) .corrupt
  setVolume fun v => { v with
    fenced := true, records := Vector.replicate 8 none, map := live
    header := { v.header with epoch } }
  publishNamespace
  pure epoch

/-! ### Tracked targets -/

/-- The live file and the fresh resources a tracked replacement would publish. -/
structure TrackedTarget where
  index : Fin 256
  previous : Node7
  receiptSlot : Fin 8
  sequence : UInt64
  deriving DecidableEq

/-- Outcome of the preflight of a stage. -/
inductive Opening where
  | fresh (plan : PayloadPlan)
  | retry (record : Record7)

/-- The live file at its expected version. -/
def liveFile (v : Volume7) (identity : WriteIdentity7) (expectedVersion : UInt64) :
    Except Error (Fin 256 × Node7) := do
  reject (identity.retryEpoch ≠ v.header.epoch) .expiredEpoch
  let index ← orRefuse .notFound (v.nodePosition identity.object)
  let node := v.nodes[index]
  reject (node.kind ≠ .file) .isDirectory
  reject (node.version ≠ expectedVersion) .version
  pure (index, node)

def trackedTarget (v : Volume7) (identity : WriteIdentity7) (expectedVersion : UInt64) :
    Except Error TrackedTarget := do
  let (index, previous) ← liveFile v identity expectedVersion
  let receiptSlot ← v.freeRecordSlot
  let sequence ← orRefuse .exhausted (checkedAdd v.header.sequence 1)
  let minimum ← orRefuse .exhausted (checkedAdd expectedVersion 1)
  reject (sequence < minimum) .corrupt
  reject (identity.inst > sequence) .invalid
  pure { index, previous, receiptSlot, sequence }

/-- Tracked preflight: the exact retry rules, then the fresh target and a plan that avoids
every open stage. -/
def openTracked (v : Volume7) (identity : WriteIdentity7) (expectedVersion : UInt64)
    (length : UInt32) : Except Error Opening :=
  match v.findRetry identity with
  | some record => do
    reject (record.object ≠ identity.object ∨ record.inst ≠ identity.inst
      ∨ record.previous ≠ expectedVersion ∨ record.length ≠ length) .idempotencyConflict
    reject (record.state ≠ .directCommitted) .outcomeUnknown
    pure (.retry record)
  | none => do
    let _ ← trackedTarget v identity expectedVersion
    let plan ← planPayload v.planningMap length.toNat
    pure (.fresh plan)

/-- The receipt slot and admission number a fresh admission would use. -/
def admissionTarget (v : Volume7) (identity : WriteIdentity7) (expectedVersion : UInt64) :
    Except Error (Fin 8 × UInt64) := do
  let _ ← liveFile v identity expectedVersion
  let recordSlot ← v.freeRecordSlot
  let admissionNumber ← orRefuse .exhausted (checkedAdd v.header.sequence 1)
  reject (identity.inst > admissionNumber) .invalid
  pure (recordSlot, admissionNumber)

/-- A record answers an identity's retry scope. -/
def sameRetryScope (record : Record7) (identity : WriteIdentity7) : Bool :=
  record.subject = identity.subject && record.workspace = identity.workspace
    && record.retryEpoch = identity.retryEpoch && record.retryKey = identity.retryKey

def sameRecordIdentity (record : Record7) (identity : WriteIdentity7)
    (expectedVersion : UInt64) : Bool :=
  record.object = identity.object && record.inst = identity.inst
    && record.previous = expectedVersion && sameRetryScope record identity

def sameRequest (record : Record7) (identity : WriteIdentity7) (expectedVersion : UInt64)
    (length : Nat) : Bool :=
  sameRecordIdentity record identity expectedVersion && record.length.toNat = length

/-- Admission preflight: the exact retry rules, then the fresh target and a plan that
avoids every open stage. -/
def openAdmission (v : Volume7) (identity : WriteIdentity7) (expectedVersion : UInt64)
    (length : UInt32) : Except Error Opening :=
  match v.findRetry identity with
  | some record => do
    reject (¬ sameRequest record identity expectedVersion length.toNat) .idempotencyConflict
    pure (.retry record)
  | none => do
    let _ ← admissionTarget v identity expectedVersion
    let plan ← planPayload v.planningMap length.toNat
    pure (.fresh plan)

end RusticOs.Fs
