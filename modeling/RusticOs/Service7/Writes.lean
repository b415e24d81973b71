import RusticOs.Service7.Grants

/-!
# `RusticOs.Service7.Writes`: reads, lookups and staged transfers of the v7 service

`file-service/src/v7/read.rs`, `v7/lookup.rs`, `v7/transfer.rs`, `v7/write.rs` and the envelope
check of `validation.rs`. A slot holds at most one transfer. Its bytes collect in one sector
buffer and go to the volume's stage as soon as a sector is full.

The digest is the SHA-256 of a library; here it is any function from bytes to 32 bytes.
-/

set_option autoImplicit false

namespace RusticOs.Service7

open RusticOs.Lib RusticOs.Abi
open Fallible (lift refuse fail)
open RusticOs.Fs (World7 Volume7 Record7 Stage7 Stage7Kind WriteIdentity7)

/-- The message digest. -/
class Sha256 where
  digest : List UInt8 → Bytes 32

/-! ### Envelopes -/

/-- `validation::envelope`: no status, a bounded payload and zero bytes after it. -/
def envelope (p : Packet) : Except Error Unit :=
  reject (p.status ≠ 0 ∨ p.count.toNat > 40 ∨ allZero (p.tail p.count.toNat) = false) .protocol

/-- `validation::request` for the read operations. -/
def readShape (p : Packet) : Except Error Unit := do
  envelope p
  reject (if Op.ofCode p.op = some .references then ¬ (p.count = 0 ∧ p.version = 0)
    else p.count ≠ 30) .protocol

/-! ### Transfers -/

/-- Why a chunk was not accepted: refused with the transfer unchanged, or with the stage
ended by the volume. -/
inductive Fault where
  | refused (error : Error)
  | ended (error : Error)

/-- One client's streamed replacement or admission. `buffer` holds the bytes of the current
sector that wait for the rest of it, and `digest` every byte supplied so far. -/
structure Transfer where
  stage : Stage7
  kind : Stage7Kind
  request : Replacement
  size : UInt32
  received : UInt32
  buffer : List UInt8
  digest : List UInt8

namespace Transfer

def new (stage : Stage7) (kind : Stage7Kind) (request : Replacement) (size : UInt32) : Transfer :=
  { stage, kind, request, size, received := 0, buffer := [], digest := [] }

def object (t : Transfer) : UInt32 := t.request.resource.object

def complete (t : Transfer) : Bool := t.received = t.size

/-- The length at which the buffer is staged: a sector, or what is left of the file. -/
def target (t : Transfer) : Nat := min 512 (t.size.toNat - (t.received.toNat - t.buffer.length))

/-- Take what fits from the supplied bytes. -/
def take (t : Transfer) (rest : List UInt8) : Nat := min (t.target - t.buffer.length) rest.length

/-- The transfer with the next bytes in its buffer. -/
def push (t : Transfer) (rest : List UInt8) : Transfer :=
  { t with
    buffer := t.buffer ++ rest.take (t.take rest)
    received := t.received + UInt32.ofNat (t.take rest) }

/-- Buffer the supplied bytes, staging every sector that fills. Each turn takes at least one
byte of a transfer that still expects them, so the number of bytes bounds the turns. -/
def absorb : Nat → List UInt8 → Transfer → Fallible Fault World7 Transfer
  | 0, _, t => pure t
  | fuel + 1, rest, t =>
    if rest = [] then pure t
    else if (t.push rest).buffer.length = t.target then do
      let _ ← (Fs.stageWrite t.stage (t.push rest).buffer).mapError fun e =>
        .ended (replyError e)
      absorb fuel (rest.drop (t.take rest)) { t.push rest with buffer := [] }
    else absorb fuel (rest.drop (t.take rest)) (t.push rest)

/-- Accept the client bytes at `offset`. -/
def chunk (t : Transfer) (offset : UInt32) (bytes : List UInt8) :
    Fallible Fault World7 Transfer := do
  refuse (offset ≠ t.received ∨ bytes = []
    ∨ bytes.length > t.size.toNat - t.received.toNat) (.refused .offset)
  absorb bytes.length bytes { t with digest := t.digest ++ bytes }

/-- Release the stage without I/O. A stage the volume already ended is refused as stale. -/
def abort (t : Transfer) : Fallible Error World7 Unit := do
  let _ ← (Fs.abortStage t.stage).attempt
  pure ()

/-- Finish the complete stage, with the digest of the supplied bytes. -/
def finish [Sha256] (t : Transfer) : Fallible Error World7 (Record7 × Bytes 32) := do
  match ← (Fs.finishTracked t.stage).attempt with
  | .ok record => pure (record, Sha256.digest t.digest)
  | .error e => do
    -- only an `Invalid` refusal leaves a stage open
    t.abort
    fail (replyError e)

end Transfer

/-- Per-slot transfers, the last receipt each slot produced or looked up, and the service
instance persisted in fresh records. -/
structure Writes where
  transfers : Vector (Option Transfer) 4
  receipts : Vector (Option Operation) 4
  inst : UInt64

/-- The volume with its disk, and the transfers over it. -/
structure Service where
  world : World7
  writes : Writes

/-- Request handlers. -/
abbrev Handler := Fallible Error Service

/-- Run an operation of the volume and keep its own refusal. -/
def onWorld {ε α : Type} (x : Fallible ε World7 α) : Fallible ε Service α :=
  Fallible.on Service.world (fun s w => { s with world := w }) x

/-- Run an operation of the volume and report its refusal. -/
def onVolume {α : Type} (x : Fs.Op α) : Handler α := (onWorld x).mapError replyError

/-- Read the volume. -/
def getVolume : Handler Volume7 := (fun s => s.world.volume) <$> Fallible.get

/-- Change the transfers and receipts. -/
def setWrites (f : Writes → Writes) : Handler Unit :=
  Fallible.change fun s => { s with writes := f s.writes }

namespace Writes

/-- The transfer of a slot. -/
def at_ (w : Writes) (slot : Nat) : Option Transfer := w.transfers[slot]?.join

/-- The slot's transfer, when it targets `object` and finishes as `kind`. -/
def find (w : Writes) (slot : Nat) (object : UInt32) (kind : Stage7Kind) : Except Error Transfer :=
  orRefuse .noTransfer ((w.at_ slot).filter fun t => t.object = object && t.kind = kind)

def setTransfer (w : Writes) (slot : Nat) (t : Option Transfer) : Writes :=
  { w with transfers := w.transfers.setIfInBounds slot t }

def setReceipt (w : Writes) (slot : Nat) (o : Option Operation) : Writes :=
  { w with receipts := w.receipts.setIfInBounds slot o }

def forgetReceipts (w : Writes) : Writes := { w with receipts := Vector.replicate 4 none }

end Writes

/-- Drop everything a slot holds: abort its stage and forget its receipt. -/
def reset (slot : Nat) : Handler Unit := do
  let s ← Fallible.get
  match s.writes.at_ slot with
  | some t => do
    setWrites (·.setTransfer slot none)
    onWorld t.abort
  | none => pure ()
  setWrites (·.setReceipt slot none)

/-! ### Reads -/

/-- Serve one envelope-, grant- and shape-checked read request. -/
def readRequest [Sha256] (grant : Grant7) (p : Packet) : Handler Packet := do
  lift (grant.holds readRight)
  let v ← getVolume
  if Op.ofCode p.op = some .references then do
    let _ ← lift (authorizedResource v grant.scope p.arg p.id)
    let h ← lift (reported (header v))
    let references ← lift (References.new h.lineage p.arg p.id)
    lift (references.packet p.context)
  else do
    let request ← lift (RangeRequest.decode p)
    let node ← lift (authorizedResource v grant.scope request.workspace.root
      request.resource.object)
    let h ← lift (reported (header v))
    refuse (h.lineage ≠ request.workspace.lineage) .denied
    let expected := request.expectedVersion.map Word.value
    if Op.ofCode p.op = some .readOpen then do
      let bytes ← onVolume (Fs.readRange node.id expected request.offset request.length.toNat)
      let version ← lift (Word.new node.version)
      let retryEpoch ← lift (Word.new h.epoch)
      let reply : Header :=
        { id := node.id, size := node.length.toUInt64, version
          rangeSha256 := Sha256.digest bytes, retryEpoch }
      lift (reply.packet p.context)
    else do
      let bytes ← onVolume (Fs.readRange node.id expected request.offset
        (min request.length.toNat 40))
      pure { Packet.new Op.readChunk.code with
        id := node.id, arg := node.length, version := node.version, context := p.context
        count := UInt8.ofNat bytes.length, data := Bytes.pack 40 bytes }

/-! ### Lookups -/

/-- The record lies within the grant scope in the live namespace. -/
def visible (v : Volume7) (grant : Grant7) (record : Record7) : Bool :=
  retainedVisible v grant.scope record.workspace record.object

/-- Stream a retained snapshot from `offset` on, one sector at a time. -/
def snapshotBytes (record : Record7) : Nat → UInt64 → Fs.Op (List UInt8)
  | 0, _ => pure []
  | fuel + 1, offset =>
    if offset.toNat < record.length.toNat then do
      let part ← Fs.readRetainedRange record offset 512
      refuse (part = []) .corrupt
      let rest ← snapshotBytes record fuel (offset + UInt64.ofNat part.length)
      pure (part ++ rest)
    else pure []

/-- SHA-256 of a retained snapshot. -/
def snapshotSha256 [Sha256] (record : Record7) : Handler (Bytes 32) :=
  Sha256.digest <$> onVolume (snapshotBytes record (record.length.toNat + 1) 0)

/-- The receipt of a committed retained record. -/
def receipt (lineage : Bytes 16) (record : Record7) (sha256 : Bytes 32) :
    Except Error Operation := do
  let workspace ← Workspace.new lineage record.workspace
  let id ← Numbered.new lineage record.committed
  let serviceInstance ← Numbered.new lineage record.inst
  let resource ← Resource.new workspace record.object
  let previousVersion ← Word.new record.previous
  let version ← Word.new record.committed
  let epoch ← Word.new record.retryEpoch
  let key ← Word.new record.retryKey
  pure { id, serviceInstance, workspace, resource, previousVersion, version
         size := record.length, retry := { epoch, key }, sha256 }

/-- What a missing or hidden record of a retry identity is answered with. -/
def hidden (h : Fs.Header7) (retry : Retry) : Error :=
  if retry.epoch.value = h.epoch then .outcomeUnknown else .expiredEpoch

/-- The record of a retry identity. -/
def Named (subject : UInt64) (workspace : Workspace) (retry : Retry) (r : Record7) : Prop :=
  r.subject = subject ∧ r.workspace = workspace.root ∧ r.retryEpoch = retry.epoch.value
    ∧ r.retryKey = retry.key.value

instance (subject : UInt64) (workspace : Workspace) (retry : Retry) (r : Record7) :
    Decidable (Named subject workspace retry r) := inferInstanceAs (Decidable (_ ∧ _))

/-- The record a lookup names, when the caller may see it. -/
def lookupRecord (v : Volume7) (grant : Grant7) (query : Lookup) : Except Error Record7 := do
  let h ← reported (header v)
  let records ← reported (retainedRecords v)
  match query with
  | .id id => do
    reject (id.lineage ≠ h.lineage) .lineage
    let record ← orRefuse .outcomeUnknown (records.find? fun r =>
      r.subject = grant.subject && r.committed = id.number)
    -- a guessed identity must not reveal history outside this grant's scope
    reject (visible v grant record = false) .outcomeUnknown
    pure record
  | .retry workspace retry => do
    reject (workspace.lineage ≠ h.lineage) .lineage
    orRefuse (hidden h retry) ((records.find? fun r =>
      Named grant.subject workspace retry r).filter (visible v grant))

/-- Resolve a lookup to its receipt. -/
def retained [Sha256] (grant : Grant7) (p : Packet) : Handler Operation := do
  refuse (grant.subject = 0) .denied
  lift (grant.holds inspectRight)
  let query ← lift (Lookup.decodeWorkspace p)
  let v ← getVolume
  let record ← lift (lookupRecord v grant query)
  match record.state with
  | .admitted => fail .busy
  | .cancelled => fail .unsupported
  | .directCommitted | .admittedCommitted => do
    let sha256 ← snapshotSha256 record
    lift (receipt v.header.lineage record sha256)

/-! ### Transfer requests -/

/-- Open a streamed transfer of `size` bytes whose stage finishes as `kind`. -/
def openTransfer (slot : Nat) (grant : Grant7) (request : Replacement) (size : UInt32)
    (kind : Stage7Kind) : Handler Unit := do
  lift (grant.holds (writeRight ||| inspectRight))
  refuse (grant.subject = 0 ∨ slot ≥ 4) .denied
  let workspace := request.workspace.root
  let object := request.resource.object
  let s ← Fallible.get
  let v := s.world.volume
  let _ ← lift (authorizedResource v grant.scope workspace object)
  let h ← lift (reported (header v))
  refuse (h.lineage ≠ request.workspace.lineage) .denied
  refuse ((s.writes.at_ slot).isSome = true) .busy
  refuse (s.writes.inst = 0) .uncertain
  let records ← lift (reported (retainedRecords v))
  let old := records.find? fun r => Named grant.subject request.workspace request.retry r
  refuse (kind = .admission ∧ old.any (fun r => r.state = .directCommitted) = true)
    .idempotencyConflict
  let identity : WriteIdentity7 :=
    { subject := grant.subject, workspace, object
      -- an exact retry presents the instance its record persisted
      inst := (old.map (·.inst)).getD s.writes.inst
      retryEpoch := request.retry.epoch.value, retryKey := request.retry.key.value }
  let stage ← onVolume (Fs.openStage identity request.expectedVersion.value size kind)
  setWrites (·.setTransfer slot (some (Transfer.new stage kind request size)))

/-- Accept the next client bytes of the slot's transfer. -/
def chunkRequest (slot : Nat) (grant : Grant7) (kind : Stage7Kind) (p : Packet) :
    Handler Packet := do
  lift (grant.holds writeRight)
  refuse (p.count = 0 ∨ p.version ≠ 0) .protocol
  let s ← Fallible.get
  let transfer ← lift (s.writes.find slot p.id kind)
  match ← (onWorld (transfer.chunk p.arg p.payload)).attempt with
  | .ok next => do
    setWrites (·.setTransfer slot (some next))
    pure p.ack
  | .error (.refused e) => fail e
  | .error (.ended e) => do
    setWrites (·.setTransfer slot none)
    fail e

/-- Commit, accept and abort carry only the object identity. -/
def bare (p : Packet) : Except Error Unit :=
  reject (p.count ≠ 0 ∨ p.arg ≠ 0 ∨ p.version ≠ 0) .protocol

/-- Remove the slot's complete transfer so that it can be finished. -/
def takeComplete (slot : Nat) (grant : Grant7) (kind : Stage7Kind) (p : Packet) :
    Handler Transfer := do
  lift (grant.holds writeRight)
  lift (bare p)
  let s ← Fallible.get
  let transfer ← lift (s.writes.find slot p.id kind)
  refuse (transfer.complete = false) .offset
  setWrites (·.setTransfer slot none)
  pure transfer

/-- Release the slot's transfer. -/
def abortRequest (slot : Nat) (grant : Grant7) (kind : Stage7Kind) (p : Packet) :
    Handler Packet := do
  lift (grant.holds writeRight)
  lift (bare p)
  let s ← Fallible.get
  let transfer ← lift (s.writes.find slot p.id kind)
  setWrites (·.setTransfer slot none)
  onWorld transfer.abort
  pure p.ack

/-- The receipt of a record that has been published, checked against the request it answers.
Any failure is `Uncertain`: the effect exists even when it cannot be described. -/
def committed (lineage : Bytes 16) (record : Record7) (sha256 : Bytes 32)
    (request : Replacement) : Except Error Operation :=
  match receipt lineage record sha256 with
  | .error _ => .error .uncertain
  | .ok o => do
    reject (o.workspace ≠ request.workspace ∨ o.resource ≠ request.resource
      ∨ o.retry ≠ request.retry ∨ o.previousVersion ≠ request.expectedVersion) .uncertain
    pure o

/-- Any failure as `Uncertain`. -/
def uncertain {ε α : Type} : Except ε α → Except Error α
  | .ok a => .ok a
  | .error _ => .error .uncertain

/-- Publish the slot's complete tracked transfer. -/
def commitRequest [Sha256] (slot : Nat) (grant : Grant7) (p : Packet) : Handler Packet := do
  let transfer ← takeComplete slot grant .tracked p
  let (record, sha256) ← onWorld transfer.finish
  let v ← getVolume
  let h ← lift (uncertain (header v))
  let o ← lift (committed h.lineage record sha256 transfer.request)
  let first ← lift (uncertain (o.partWorkspace Op.replaceCommit.code p.context 0))
  setWrites (·.setReceipt slot (some o))
  pure first

/-- A part of the receipt the slot last produced or looked up. -/
def partRequest (slot : Nat) (grant : Grant7) (p : Packet) : Handler Packet := do
  lift (grant.holds inspectRight)
  match ← lift (Lookup.decodeWorkspace p) with
  | .retry _ _ => fail .protocol
  | .id id => do
    let s ← Fallible.get
    let o ← lift (orRefuse .outcomeUnknown
      ((s.writes.receipts[slot]?.join).filter fun o => o.id = id))
    lift (o.partWorkspace Op.operationPart.code p.context p.arg.toNat)

/-- Look a receipt up and keep it for its parts. -/
def lookupRequest [Sha256] (slot : Nat) (grant : Grant7) (p : Packet) : Handler Packet := do
  let o ← retained grant p
  let first ← lift (o.partWorkspace p.op p.context 0)
  setWrites (·.setReceipt slot (some o))
  pure first

/-- Whether the packet selects the profile-2 write path. -/
def writeSelected (p : Packet) : Bool :=
  match Op.ofCode p.op with
  | some .replaceOpen => p.count = 40
  | some .operationId | some .operationPart => p.count = 20
  | some .operationRetry => p.count = 28
  | some .replaceChunk | some .replaceCommit | some .replaceAbort => true
  | _ => false

/-- Serve one request of the write path. -/
def writeRequest [Sha256] (slot : Nat) (grant : Grant7) (p : Packet) : Handler Packet := do
  refuse (slot ≥ 4) .denied
  match Op.ofCode p.op with
  | some .operationPart => partRequest slot grant p
  | some .operationId | some .operationRetry => lookupRequest slot grant p
  | some .replaceOpen => do
    let request ← lift (Replacement.decodeWorkspace p)
    openTransfer slot grant request p.arg .tracked
    pure p.ack
  | some .replaceChunk => chunkRequest slot grant .tracked p
  | some .replaceCommit => commitRequest slot grant p
  | some .replaceAbort => abortRequest slot grant .tracked p
  | _ => fail .unsupported

end RusticOs.Service7
