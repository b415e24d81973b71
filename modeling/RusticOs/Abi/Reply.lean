import RusticOs.Abi.Reference

/-!
# `RusticOs.Abi.Reply`: receipts, admission status and range headers

The reply codecs of `files/operation`, `files/workspace`, `files/admission`, `files/read` and
the observation of `files/lifecycle`. A reply type is checked again when it is framed, so a fact the
wire cannot describe is refused instead of sent.
-/

set_option autoImplicit false

namespace RusticOs.Abi

open RusticOs.Lib

/-- `References::packet`. -/
def References.packet (r : References) (context : UInt32) : Except Error Packet := do
  reject (r.workspace ≠ r.resource.workspace) .invalid
  pure { Packet.new Op.references.code with
    id := r.resource.object, arg := r.workspace.root, context, count := 16
    data := Bytes.pack 40 r.workspace.lineage.toList }

/-! ### Receipts -/

/-- The receipt of a completed operation. -/
structure Operation where
  id : OperationId
  serviceInstance : Instance
  workspace : Workspace
  resource : Resource
  previousVersion : Version
  version : Version
  size : UInt32
  retry : Retry
  sha256 : Bytes 32
  deriving DecidableEq

/-- Bytes of an encoded receipt. -/
def receiptBytes : Nat := 104

namespace Operation

/-- The identities and versions of the receipt fit each other. -/
def valid (o : Operation) : Bool :=
  decide (o.id.lineage = o.workspace.lineage ∧ o.resource.workspace = o.workspace
    ∧ o.resource.object > 4 ∧ o.resource.object ≠ o.workspace.root
    ∧ o.serviceInstance.lineage = o.id.lineage ∧ o.id.number = o.version.value
    ∧ o.previousVersion.value < o.version.value ∧ o.serviceInstance.number ≤ o.version.value
    ∧ o.retry.epoch.value ≤ o.version.value)

/-- The encoded receipt around its eight size bytes. -/
def bytes (o : Operation) (size : List UInt8) : List UInt8 :=
  o.id.lineage.toList ++ le32 o.workspace.root ++ le32 o.resource.object
    ++ le64 o.previousVersion.value ++ le64 o.version.value ++ le64 o.serviceInstance.number
    ++ le64 o.retry.epoch.value ++ le64 o.retry.key.value ++ size ++ o.sha256.toList

/-- `operation::Operation::encode`: the profile-1 receipt. -/
def encode (o : Operation) : Except Error (List UInt8) := do
  reject (o.valid = false ∨ o.size > 1024) .protocol
  pure (o.bytes (le16 (UInt16.ofNat o.size.toNat) ++ zeros 6))

/-- `workspace::Operation::encode`: the profile-2 receipt. -/
def encodeWorkspace (o : Operation) : Except Error (List UInt8) := do
  reject (o.size > maxFileBytes) .protocol
  reject (o.valid = false) .protocol
  pure (o.bytes (le32 o.size ++ le32 profile))

/-- One fragment of an encoded receipt. -/
def fragment (o : Operation) (op : UInt8) (context : UInt32) (offset : Nat)
    (bytes : List UInt8) : Packet :=
  { Packet.new op with
    context, id := UInt32.ofNat offset, arg := UInt32.ofNat receiptBytes, version := o.id.number
    count := UInt8.ofNat (min (offset + 40) receiptBytes - offset)
    data := Bytes.pack 40 (slice bytes offset (min (offset + 40) receiptBytes - offset)) }

/-- `operation::Operation::part`. -/
def part (o : Operation) (op : UInt8) (context : UInt32) (offset : Nat) :
    Except Error Packet := do
  reject (¬ (offset = 0 ∨ offset = 40 ∨ offset = 80)) .offset
  let bytes ← o.encode
  pure (o.fragment op context offset bytes)

/-- `workspace::Operation::part`: the envelope of the profile-1 receipt of size zero, with
the profile-2 bytes in it. -/
def partWorkspace (o : Operation) (op : UInt8) (context : UInt32) (offset : Nat) :
    Except Error Packet := do
  let _ ← { o with size := 0 }.part op context offset
  let bytes ← o.encodeWorkspace
  pure (o.fragment op context offset bytes)

end Operation

/-! ### Admission status -/

/-- The state of an admission. -/
inductive State where
  | admitted | cancelled | committed
  deriving DecidableEq, Repr

def State.code : State → UInt32
  | .admitted => 1
  | .cancelled => 2
  | .committed => 3

/-- What a caller may know about an admission. -/
structure Status where
  id : AdmissionId
  state : State
  serviceInstance : Instance
  terminal : UInt64

namespace Status

/-- The terminal number does not fit the state. -/
def terminalBroken (s : Status) : Bool :=
  match s.state with
  | .admitted => s.terminal ≠ 0
  | .cancelled | .committed => s.terminal ≤ s.id.number

def validate (s : Status) : Except Error Unit :=
  reject (s.serviceInstance.lineage ≠ s.id.lineage ∨ s.serviceInstance.number > s.id.number
    ∨ s.terminalBroken = true) .protocol

/-- The requests a status answers. -/
def answers : Op → Bool
  | .admissionAccept | .admissionGet | .admissionRetry | .admissionExecute
  | .admissionCancel => true
  | _ => false

def packet (s : Status) (op : UInt8) (context : UInt32) : Except Error Packet := do
  s.validate
  reject ((Op.ofCode op).any answers = false) .protocol
  pure { Packet.new op with
    context, arg := s.state.code, version := s.id.number, count := 32
    data := Bytes.pack 40 (s.id.lineage.toList ++ le64 s.serviceInstance.number
      ++ le64 s.terminal) }

end Status

/-! ### Activity and observations -/

/-- How far a live execution is. -/
inductive ActivityPhase where
  | queued | running | stopping | settling
  deriving DecidableEq, Repr

def ActivityPhase.code : ActivityPhase → UInt32
  | .queued => 4
  | .running => 1
  | .stopping => 2
  | .settling => 3

/-- A live execution or ticket. -/
structure Activity where
  id : AdmissionId
  serviceInstance : Instance
  phase : ActivityPhase
  cancelRequested : Bool
  ioPending : Bool
  deriving DecidableEq

namespace Activity

def validate (a : Activity) (op : UInt8) : Except Error Unit :=
  reject (¬ ((Op.ofCode op).any Op.live = true ∨ Op.ofCode op = some .admissionSchedule)
    ∨ a.serviceInstance.lineage ≠ a.id.lineage ∨ a.serviceInstance.number > a.id.number
    ∨ (Op.ofCode op = some .admissionRequestCancel ∨ a.phase = .stopping)
      ∧ a.cancelRequested = false
    ∨ a.phase = .running ∧ a.cancelRequested = true
    ∨ a.phase = .queued ∧ a.ioPending = true) .protocol

def packet (a : Activity) (op : UInt8) (context : UInt32) : Except Error Packet := do
  a.validate op
  pure { Packet.new op with
    context, version := a.id.number, count := 24
    arg := a.phase.code ||| (if a.cancelRequested then 256 else 0)
      ||| (if a.ioPending then 512 else 0)
    data := Bytes.pack 40 (a.id.lineage.toList ++ le64 a.serviceInstance.number) }

end Activity

/-- Why an admission was prevented, on the wire. -/
inductive PreventionReason where
  | unknown | requested | versionConflict | authorityLost
  deriving DecidableEq, Repr

def PreventionReason.code : PreventionReason → UInt8
  | .unknown => 1
  | .requested => 2
  | .versionConflict => 3
  | .authorityLost => 4

/-- A retained fact or live progress. -/
inductive Observation where
  | retained (status : Status) (prevention : Option PreventionReason)
  | active (activity : Activity)

namespace Observation

/-- `Observation::packet`: the coarse profile, without a cause. -/
def coarse (o : Observation) (context : UInt32) : Except Error Packet := do
  let p ← match o with
    | .retained status _ => status.packet Op.admissionGet.code context
    | .active activity => activity.packet Op.admissionActivity.code context
  pure { p with op := Op.admissionObserve.code, id := observationVersion }

/-- `ObservationV2::packet`: a retained fact carries its cause exactly when it is
cancelled. -/
def packet (o : Observation) (context : UInt32) : Except Error Packet := do
  let p ← o.coarse context
  match o with
  | .retained status prevention => do
    reject (decide (status.state = .cancelled) ≠ prevention.isSome) .protocol
    pure { p with
      id := observationV2, count := 33
      data := p.data.set 32 ((prevention.map PreventionReason.code).getD 0) }
  | .active _ => pure { p with id := observationV2 }

/-- The profile a request asks for. -/
def reply (o : Observation) (p : Packet) : Except Error Packet :=
  if p.arg = observationVersion then o.coarse p.context
  else if p.arg = observationV2 then o.packet p.context
  else .error .unsupportedVersion

end Observation

/-! ### Range headers -/

/-- The header of a range read. -/
structure Header where
  id : UInt32
  size : UInt64
  version : Version
  rangeSha256 : Bytes 32
  retryEpoch : Epoch

def Header.packet (h : Header) (context : UInt32) : Except Error Packet := do
  reject (h.id = 0 ∨ h.size > maxFileBytes.toUInt64) .invalid
  pure { Packet.new Op.readOpen.code with
    context, id := h.id, arg := h.size.toUInt32, version := h.version.value, count := 40
    data := Bytes.pack 40 (h.rangeSha256.toList ++ le64 h.retryEpoch.value) }

end RusticOs.Abi
