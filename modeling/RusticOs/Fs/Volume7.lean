import RusticOs.Fs.Payload7

/-!
# `RusticOs.Fs.Volume7`: the v7 owner and its read-only queries

The in-memory state of `volume7.rs` and `volume7/stage.rs`: the decoded generation, the
fence, and the open stages with their tokens. An operation runs over a `World7`: one owner,
the disk it works on, and the program-wide counter of stage owners. The validator's
workspace bitmap is scratch that nothing reads between calls, so it is not part of the
state.
-/

set_option autoImplicit false

namespace RusticOs.Fs

open RusticOs.Lib

/-! ### State -/

/-- Scoped retry identity of one replacement. -/
structure WriteIdentity7 where
  subject : UInt64
  workspace : UInt32
  object : UInt32
  inst : UInt64
  retryEpoch : UInt64
  retryKey : UInt64
  deriving DecidableEq

/-- The token of one open stage. -/
structure Stage7 where
  owner : UInt64
  slot : UInt8
  nonce : UInt64
  deriving DecidableEq

/-- Which mutation a stage finishes as. -/
inductive Stage7Kind where
  | tracked | admission
  deriving DecidableEq, Repr

/-- A fresh stage writes new payload to planned free sectors. A retry stage verifies an
exact retry against a retained snapshot. -/
inductive StageMode where
  | fresh (plan : PayloadPlan)
  | retry (record : Record7) (matching : Bool)
  deriving DecidableEq

/-- One open stage. -/
structure StageSlot where
  nonce : UInt64
  kind : Stage7Kind
  identity : WriteIdentity7
  expectedVersion : UInt64
  length : UInt32
  mode : StageMode
  written : UInt32
  checksum : UInt32
  deriving DecidableEq

namespace StageSlot

/-- Every logical byte has been written or verified. -/
def complete (slot : StageSlot) : Bool := slot.written = slot.length

/-- CRC of the logical bytes so far. -/
def payloadCrc (slot : StageSlot) : UInt32 := ~~~ slot.checksum

/-- The planned runs; a retry stage has none. -/
def freshRuns (slot : StageSlot) : List Extent :=
  match slot.mode with
  | .fresh plan => plan.runs
  | .retry _ _ => []

/-- The stage writes new payload. -/
def isFresh (slot : StageSlot) : Bool :=
  match slot.mode with
  | .fresh _ => true
  | .retry _ _ => false

end StageSlot

/-- A v7 owner. -/
structure Volume7 extends Generation7 where
  recoveredFromHeader : Bool
  fenced : Bool
  stages : Vector (Option StageSlot) 2
  stageNonce : UInt64
  stageOwner : UInt64

/-- One owner, its disk, and the next stage owner identity of the program. -/
structure World7 where
  volume : Volume7
  disk : Disk
  nextOwner : UInt64

/-- Operations of the owner. -/
abbrev Op := Fallible Error World7

/-- A disk computation as an operation. -/
def onDisk {α : Type} (x : Fallible Error Disk α) : Op α :=
  Fallible.on World7.disk (fun w d => { w with disk := d }) x

/-- Change the owner. -/
def setVolume (f : Volume7 → Volume7) : Op Unit :=
  Fallible.change fun w => { w with volume := f w.volume }

/-- Read the owner. -/
def getVolume : Op Volume7 := World7.volume <$> Fallible.get

namespace Volume7

/-- Empty fenced storage. -/
def empty : Volume7 :=
  { header := Header7.initial (Vector.replicate 16 0)
    nodes := Vector.replicate 256 Node7.empty
    records := Vector.replicate 8 none
    map := Vector.replicate 2048 0
    recoveredFromHeader := false
    fenced := true
    stages := Vector.replicate 2 none
    stageNonce := 0
    stageOwner := 0 }

/-- Drop everything decoded and every stage. The fence and the stage counters stay. -/
def clear (v : Volume7) : Volume7 :=
  { empty with fenced := v.fenced, stageNonce := v.stageNonce, stageOwner := v.stageOwner }

/-- Clear and fence. -/
def fenceClear (v : Volume7) : Volume7 := { v.clear with fenced := true }

/-- Refuse every use of a fenced owner. -/
def ready (v : Volume7) : Except Error Unit := reject (v.fenced = true) .uncertain

/-! ### Queries -/

/-- The slot of a live node. -/
def nodePosition (v : Volume7) (id : UInt32) : Option (Fin 256) :=
  (List.finRange 256).find? fun i => decide (v.nodes[i].kind ≠ .empty ∧ v.nodes[i].id = id)

def stat (v : Volume7) (id : UInt32) : Except Error Node7 := do
  v.ready
  orRefuse .notFound
    (v.nodes.toList.find? fun node => decide (node.kind ≠ .empty ∧ node.id = id))

def lookup (v : Volume7) (parent : UInt32) (name : List UInt8) : Except Error Node7 := do
  v.ready
  validName name
  if parent ≠ 0 then do
    let directory ← v.stat parent
    reject (directory.kind ≠ .directory) .notDirectory
  orRefuse .notFound (v.nodes.toList.find? fun node =>
    decide (node.kind ≠ .empty ∧ node.parent = parent ∧ node.name = name))

/-- The retained record that answers an identity's retry scope. -/
def findRetry (v : Volume7) (identity : WriteIdentity7) : Option Record7 :=
  v.records.toList.reduceOption.find? fun record => decide (record.subject = identity.subject
    ∧ record.workspace = identity.workspace ∧ record.retryEpoch = identity.retryEpoch
    ∧ record.retryKey = identity.retryKey)

def validateIdentity (v : Volume7) (identity : WriteIdentity7) : Except Error Unit :=
  reject (identity.subject = 0 ∨ identity.workspace = 0 ∨ identity.object < nextMin
    ∨ identity.inst = 0 ∨ identity.retryEpoch = 0 ∨ identity.retryKey = 0
    ∨ identity.workspace ≥ v.header.next ∨ identity.object ≥ v.header.next
    ∨ identity.workspace = identity.object) .invalid

/-- The open stages. -/
def openSlots (v : Volume7) : List StageSlot := v.stages.toList.reduceOption

/-- How many stages are open. -/
def openStages (v : Volume7) : Nat := v.openSlots.length

/-- Some open stage holds the identity's retry scope. -/
def stageHoldsScope (v : Volume7) (identity : WriteIdentity7) : Bool :=
  v.openSlots.any fun slot => slot.identity.subject = identity.subject
    && slot.identity.workspace = identity.workspace
    && slot.identity.retryEpoch = identity.retryEpoch
    && slot.identity.retryKey = identity.retryKey

/-- Retained slots that are empty. -/
def freeRecords (v : Volume7) : Nat := v.records.toList.countP Option.isNone

/-- Retained slots that open fresh stages have reserved. -/
def reservedRecords (v : Volume7) : Nat := v.openSlots.countP StageSlot.isFresh

/-- The first empty retained slot, when one is left after the reservations. -/
def freeRecordSlot (v : Volume7) : Except Error (Fin 8) := do
  reject (v.freeRecords ≤ v.reservedRecords) .full
  orRefuse .full ((List.finRange 8).find? fun i => v.records[i].isNone)

/-- The allocation bitmap with every open fresh stage's runs marked. -/
def planningMap (v : Volume7) : SpaceMap :=
  v.openSlots.foldl (fun map slot => mutateMap map slot.freshRuns true) v.map

/-- The open stage a token names. -/
def stageIndex (v : Volume7) (stage : Stage7) : Except Error (Fin 2 × StageSlot) :=
  if h : stage.slot.toNat < 2 then
    match v.stages[stage.slot.toNat] with
    | some slot =>
      if stage.owner = v.stageOwner ∧ slot.nonce = stage.nonce then
        .ok (⟨stage.slot.toNat, h⟩, slot)
      else .error .invalid
    | none => .error .invalid
  else .error .invalid

end Volume7

end RusticOs.Fs
