import RusticOs.Service7.Control

/-!
# `RusticOs.Service7.Server`: staged admission and the dispatcher of the v7 service

`file-service/src/v7/admission.rs`, `v7/admission/records.rs` and the request path of `v7.rs`.
A `Server7` serves one mounted volume: it routes each request after the envelope and grant
checks, and drops the stages of the slots that lost their grant meanwhile.

`handleWith` answers nothing exactly when the list of turns ends before the request has
returned.
-/

set_option autoImplicit false

namespace RusticOs.Service7

open RusticOs.Lib RusticOs.Abi
open Fallible (lift refuse fail)
open RusticOs.Fs (World7 Volume7 Record7 RecordState WriteIdentity7 PollPublication7)

/-! ### Retained admissions -/

/-- The subject's admission named by `id`. -/
def byId (v : Volume7) (grant : Grant7) (id : AdmissionId) : Except Error Record7 := do
  let h ← reported (header v)
  reject (id.lineage ≠ h.lineage) .lineage
  let records ← reported (retainedRecords v)
  orRefuse .outcomeUnknown ((records.find? fun r => r.subject = grant.subject
    && r.admissionNumber ≠ 0 && r.admissionNumber = id.number).filter (visible v grant))

/-- The subject's admission under a retry identity. -/
def byRetry (v : Volume7) (grant : Grant7) (workspace : Workspace) (retry : Retry) :
    Except Error Record7 := do
  let h ← reported (header v)
  reject (workspace.lineage ≠ h.lineage) .lineage
  let records ← reported (retainedRecords v)
  orRefuse (hidden h retry) ((records.find? fun r => r.admissionNumber ≠ 0
    && Named grant.subject workspace retry r).filter (visible v grant))

/-- The identity that execution or cancellation of a record names. -/
def identity (r : Record7) : WriteIdentity7 :=
  { subject := r.subject, workspace := r.workspace, object := r.object, inst := r.inst
    retryEpoch := r.retryEpoch, retryKey := r.retryKey }

/-- The wire state of a retained admission; a direct write is none. -/
def stateOf : RecordState → Except Error State
  | .admitted => .ok .admitted
  | .admittedCommitted => .ok .committed
  | .cancelled => .ok .cancelled
  | .directCommitted => .error .corrupt

/-- The minimal immutable status of an admission record. -/
def statusOf (lineage : Bytes 16) (r : Record7) : Except Error Status := do
  let id ← Numbered.new lineage r.admissionNumber
  let state ← stateOf r.state
  let serviceInstance ← Numbered.new lineage r.inst
  pure { id, state, serviceInstance, terminal := r.terminal }

/-- `admission::prevention_reason`. -/
def preventionReason : Fs.PreventionReason → PreventionReason
  | .unknown => .unknown
  | .requested => .requested
  | .versionConflict => .versionConflict
  | .authorityLost => .authorityLost

/-- The retained observation of an admission. -/
def observation (lineage : Bytes 16) (r : Record7) : Except Error Observation := do
  let status ← statusOf lineage r
  pure (.retained status (r.prevention.map preventionReason))

def statusReply (v : Volume7) (r : Record7) (p : Packet) : Except Error Packet := do
  let h ← reported (header v)
  let status ← statusOf h.lineage r
  status.packet p.op p.context

/-! ### Admission requests -/

/-- Whether the packet selects the admission path. -/
def admissionSelected (p : Packet) : Bool :=
  match Op.ofCode p.op with
  | some .admissionOpen => p.count = 40
  | some .admissionRetry => p.count = 28
  | some .admissionChunk | some .admissionAccept | some .admissionAbort | some .admissionGet
  | some .admissionExecute | some .admissionCancel | some .admissionObserve => true
  | _ => false

/-- The subject already has a retained record under the request's retry identity. -/
def retainedFor (v : Volume7) (subject : UInt64) (request : Replacement) : Except Error Bool := do
  let records ← reported (retainedRecords v)
  pure (records.any fun r => Named subject request.workspace request.retry r)

/-- Finish the complete admission stage. A refusal before the publication leaves no stage
open. -/
def Transfer.finishAdmission (t : Transfer) : Fs.Op PollPublication7 := do
  match ← (Fs.finishAdmission t.stage).attempt with
  | .ok p => pure p
  | .error e => do
    let _ ← (Fs.abortStage t.stage).attempt
    fail e

/-- Service housekeeping after the caller lost its authority: durably cancel the admitted
record with cause `AuthorityLost`. Nothing stops it, and any failure is `Uncertain`. -/
def authorityLost (r : Record7) : Serve Unit := do
  let driven ← (published (publish none
    (Fs.prepareCancellation (identity r) r.previous .authorityLost))).mapError fun
      | .refused _ => .refused .uncertain
      | .waiting => .waiting
  match driven.record with
  | some r => refuse (r.state ≠ .cancelled) (.refused .uncertain)
  | none => fail (.refused .uncertain)

/-- Reply with the status of a record that is durable already. -/
def durableReply (r : Record7) (p : Packet) : Handler Packet := do
  let v ← getVolume
  lift (uncertain (statusReply v r p))

/-- Admit the slot's complete transfer. -/
def acceptRequest (caller : Caller7) (grant : Grant7) (p : Packet) : Serve Packet := do
  serve (lift (grant.holds inspectRight))
  let transfer ← serve (takeComplete caller.slot grant .admission p)
  let v ← serve getVolume
  -- only an admission this request creates is the service's to retire
  let old ← serve (lift (retainedFor v grant.subject transfer.request))
  let driven ← published (publish (some (caller, inspectRight)) transfer.finishAdmission)
  match driven.denied with
  | some e => do
    match driven.record with
    | some r => if old then pure () else authorityLost r
    | none => pure ()
    fail (.refused e)
  | none => do
    let r ← serve (lift (orRefuse .uncertain driven.record))
    serve (durableReply r p)

/-- Execute an admitted record under live write authority. -/
def executeRequest (caller : Caller7) (grant : Grant7) (p : Packet) : Serve Packet := do
  serve (lift (grant.holds inspectRight))
  let id ← serve (lift (AdmissionId.decode p))
  let v ← serve getVolume
  let r ← serve (lift (byId v grant id))
  if r.state ≠ .admitted then serve (lift (statusReply v r p))
  else do
    serve (lift (grant.holds writeRight))
    let _ ← serve (lift (authorizedResource v grant.scope r.workspace r.object))
    let driven ← published (publish (some (caller, inspectRight))
      (Fs.prepareExecute (identity r) r.previous))
    -- stopped before its header: record the cause so that the admission can never run
    match driven.record with
    | some _ => pure ()
    | none => authorityLost r
    match driven.denied with
    | some e => fail (.refused (if driven.record.isSome then .uncertain else e))
    | none => do
      let r ← serve (lift (orRefuse .uncertain driven.record))
      serve (durableReply r p)

/-- Durably cancel an admitted record. -/
def cancelRequest (caller : Caller7) (grant : Grant7) (p : Packet) : Serve Packet := do
  serve (lift (grant.holds (cancelRight ||| inspectRight)))
  let id ← serve (lift (AdmissionId.decode p))
  let v ← serve getVolume
  let r ← serve (lift (byId v grant id))
  if r.state ≠ .admitted then serve (lift (statusReply v r p))
  else do
    let driven ← published (publish (some (caller, cancelRight))
      (Fs.prepareCancellation (identity r) r.previous .requested))
    match driven.denied with
    | some e => fail (.refused (if driven.record.isSome then .uncertain else e))
    | none => do
      let r ← serve (lift (orRefuse .uncertain driven.record))
      serve (durableReply r p)

/-- Status by admission identity. -/
def getRequest (grant : Grant7) (p : Packet) : Handler Packet := do
  lift (grant.holds inspectRight)
  let id ← lift (AdmissionId.decode p)
  let v ← getVolume
  let r ← lift (byId v grant id)
  lift (statusReply v r p)

/-- Status by retry identity. -/
def retryRequest (grant : Grant7) (p : Packet) : Handler Packet := do
  lift (grant.holds inspectRight)
  match ← lift (Lookup.decodeWorkspace { p with op := Op.operationRetry.code }) with
  | .id _ => fail .protocol
  | .retry workspace retry => do
    let v ← getVolume
    let r ← lift (byRetry v grant workspace retry)
    lift (statusReply v r p)

/-- Retained observation by admission identity. -/
def observeRequest (grant : Grant7) (p : Packet) : Handler Packet := do
  lift (grant.holds inspectRight)
  refuse (¬ (p.arg = observationVersion ∨ p.arg = observationV2)) .unsupportedVersion
  let id ← lift (AdmissionId.decode p)
  let v ← getVolume
  let r ← lift (byId v grant id)
  let h ← lift (reported (header v))
  let view ← lift (observation h.lineage r)
  lift (view.reply p)

/-- Serve one request of the admission path. -/
def admissionRequest (caller : Caller7) (grant : Grant7) (p : Packet) : Serve Packet := do
  serve (refuse (grant.subject = 0) .denied)
  match Op.ofCode p.op with
  | some .admissionOpen => serve do
      let request ← lift (Replacement.decodeWorkspace p)
      openTransfer caller.slot grant request p.arg .admission
      pure p.ack
  | some .admissionChunk => serve do
      lift (grant.holds inspectRight)
      chunkRequest caller.slot grant .admission p
  | some .admissionAbort => serve do
      lift (grant.holds inspectRight)
      abortRequest caller.slot grant .admission p
  | some .admissionAccept => acceptRequest caller grant p
  | some .admissionGet => serve (getRequest grant p)
  | some .admissionRetry => serve (retryRequest grant p)
  | some .admissionObserve => serve (observeRequest grant p)
  | some .admissionExecute => executeRequest caller grant p
  | some .admissionCancel => cancelRequest caller grant p
  | _ => fail (.refused .unsupported)

/-! ### The server -/

/-- The service over one borrowed volume. -/
structure Server7 extends Service where
  grants : Grants

/-- Drop the transfers and receipts of the marked slots, lowest first. -/
def resetAll (marked : Vector Bool 4) (s : Service) : Service :=
  (List.finRange 4).foldl (fun s i => if marked[i] then ((reset i.val).run s).2 else s) s

/-- The owner's view of a request that starts. -/
def Owner.start (grants : Grants) : Owner := { grants, lost := Vector.replicate 4 false }

namespace Server7

/-- What a request comes to: a reply, or a wait for a further callback. -/
def outcome (p : Packet) : Except Stop Packet → Option Packet
  | .ok reply => some reply
  | .error (.refused e) => some (p.failure e)
  | .error .waiting => none

/-- A handler that drives nothing, on the server. -/
def settle (s : Server7) (p : Packet) (x : Handler Packet) : Option (Packet × Server7) :=
  match x.run s.toService with
  | (.ok reply, t) => some (reply, { s with toService := t })
  | (.error e, t) => some (p.failure e, { s with toService := t })

/-- The admission path. Slots that lost their grant drop their stages and receipts once the
volume is free. -/
def serveAdmission (s : Server7) (caller : Caller7) (grant : Grant7) (p : Packet)
    (turns : List Turn) : Option (Packet × Server7) :=
  let start : Serving := { toService := s.toService, owner := Owner.start s.grants, turns }
  match (admissionRequest caller grant p).run start with
  | (r, t) =>
    (outcome p r).map fun reply =>
      (reply, { toService := resetAll t.owner.lost t.toService, grants := t.owner.grants })

/-- Route a request that passed the envelope and grant checks. -/
def route [Sha256] (s : Server7) (slot : Nat) (peer : UInt64) (grant : Grant7) (p : Packet)
    (turns : List Turn) : Option (Packet × Server7) :=
  match Op.ofCode p.op with
  | some .references | some .readOpen | some .readChunk =>
    s.settle p do
      lift (readShape p)
      readRequest grant p
  | _ =>
    if writeSelected p then s.settle p (writeRequest slot grant p)
    else if admissionSelected p then
      s.serveAdmission { slot, peer, context := p.context } grant p turns
    else some (p.failure .unsupported, s)

/-- Serve one client request. -/
def handleWith [Sha256] (s : Server7) (slot : Nat) (peer : UInt64) (p : Packet) (now : UInt64)
    (turns : List Turn) : Option (Packet × Server7) :=
  match envelope p with
  | .error e => some (p.failure e, s)
  | .ok _ =>
    match s.grants.check slot peer p.context now with
    | .error e => some (p.failure e, s)
    | .ok grant => s.route slot peer grant p turns

end Server7

end RusticOs.Service7
