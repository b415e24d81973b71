import RusticOs.Abi.Packet

/-!
# `RusticOs.Abi.Reference`: stable identities and the requests that name them

`files/reference.rs` and the request codecs of `files/operation`, `files/workspace`,
`files/admission` and `files/read`. Identities carry no authority. Each
one is nonzero by construction, so a decoder is where a zero is refused.
-/

set_option autoImplicit false

namespace RusticOs.Abi

open RusticOs.Lib

/-! ### Identities -/

/-- A nonzero word: versions, retry epochs and retry keys. -/
structure Word where
  value : UInt64
  nonzero : value ≠ 0
  deriving DecidableEq

def Word.new (value : UInt64) : Except Error Word :=
  if h : value = 0 then .error .invalid else .ok ⟨value, h⟩

abbrev Version := Word
abbrev Epoch := Word
abbrev Key := Word

/-- A number that is unique within a lineage. -/
structure Numbered where
  lineage : Bytes 16
  number : UInt64
  lineage_ne : lineage ≠ Vector.replicate 16 0
  nonzero : number ≠ 0
  deriving DecidableEq

def Numbered.new (lineage : Bytes 16) (number : UInt64) : Except Error Numbered :=
  if h : lineage = Vector.replicate 16 0 ∨ number = 0 then .error .invalid
  else .ok ⟨lineage, number, fun hl => h (Or.inl hl), fun hn => h (Or.inr hn)⟩

/-- A completed operation, by the sequence that committed it. -/
abbrev OperationId := Numbered

/-- A service incarnation, by the first sequence it could commit. -/
abbrev Instance := Numbered

/-- An admission, by the sequence that admitted it. -/
abbrev AdmissionId := Numbered

structure Workspace where
  lineage : Bytes 16
  root : UInt32
  lineage_ne : lineage ≠ Vector.replicate 16 0
  root_ne : root ≠ 0
  deriving DecidableEq

def Workspace.new (lineage : Bytes 16) (root : UInt32) : Except Error Workspace :=
  if h : lineage = Vector.replicate 16 0 ∨ root = 0 then .error .invalid
  else .ok ⟨lineage, root, fun hl => h (Or.inl hl), fun hr => h (Or.inr hr)⟩

structure Resource where
  workspace : Workspace
  object : UInt32
  object_ne : object ≠ 0
  deriving DecidableEq

def Resource.new (workspace : Workspace) (object : UInt32) : Except Error Resource :=
  if h : object = 0 then .error .invalid else .ok ⟨workspace, object, h⟩

structure References where
  workspace : Workspace
  resource : Resource

def References.new (lineage : Bytes 16) (workspace object : UInt32) :
    Except Error References := do
  let workspace ← Workspace.new lineage workspace
  let resource ← Resource.new workspace object
  pure { workspace, resource }

/-- A retry identity. -/
structure Retry where
  epoch : Epoch
  key : Key
  deriving DecidableEq

/-! ### Replacement requests -/

/-- One replacement as its caller names it. -/
structure Replacement where
  workspace : Workspace
  resource : Resource
  expectedVersion : Version
  retry : Retry

/-- The profile marker of the workspace requests. -/
def profile : UInt32 := 2

/-- The largest file of the workspace profile. -/
def maxFileBytes : UInt32 := 524288

namespace Replacement

/-- `operation::Replacement::decode`: the profile-1 request. -/
def decode (p : Packet) : Except Error Replacement := do
  reject (¬ (Op.ofCode p.op = some .replaceOpen ∨ Op.ofCode p.op = some .admissionOpen)
    ∨ p.status ≠ 0 ∨ p.count ≠ 36 ∨ p.arg > 1024 ∨ p.tail 36 ≠ zeros 4) .protocol
  let workspace ← Workspace.new p.lineage (ofLe32 (p.field 16 4))
  let resource ← Resource.new workspace p.id
  let expectedVersion ← Word.new p.version
  let epoch ← Word.new (ofLe64 (p.field 20 8))
  let key ← Word.new (ofLe64 (p.field 28 8))
  pure { workspace, resource, expectedVersion, retry := { epoch, key } }

/-- `workspace::Replacement::decode`: the profile-2 request, with the marker after the
identity. -/
def decodeWorkspace (p : Packet) : Except Error Replacement := do
  reject (p.count ≠ 40 ∨ p.arg > maxFileBytes ∨ p.field 36 4 ≠ le32 profile) .protocol
  decode { p.cut 36 with arg := 0 }

end Replacement

/-! ### Lookups -/

/-- What a lookup names. -/
inductive Lookup where
  | retry (workspace : Workspace) (retry : Retry)
  | id (id : OperationId)

namespace Lookup

/-- `operation::Lookup::decode`. -/
def decode (p : Packet) : Except Error Lookup :=
  match Op.ofCode p.op with
  | some .operationRetry =>
    if p.arg = 0 ∧ p.count = 24 then do
      let workspace ← Workspace.new p.lineage p.id
      let epoch ← Word.new p.version
      let key ← Word.new (ofLe64 (p.field 16 8))
      pure (.retry workspace { epoch, key })
    else .error .protocol
  | some .operationId | some .operationPart =>
    if p.id = 0 ∧ p.count = 16 then do
      let id ← Numbered.new p.lineage p.version
      pure (.id id)
    else .error .protocol
  | _ => .error .protocol

/-- The identity bytes of a workspace lookup, before its profile marker. -/
def identityBytes (p : Packet) : Option Nat :=
  match Op.ofCode p.op with
  | some .operationRetry => some 24
  | some .operationId | some .operationPart => some 16
  | _ => none

/-- `workspace::Lookup::decode`: a marked lookup. -/
def decodeWorkspace (p : Packet) : Except Error Lookup := do
  let stop ← orRefuse .protocol (identityBytes p)
  reject (p.status ≠ 0 ∨ p.count.toNat ≠ stop + 4 ∨ p.field stop 4 ≠ le32 profile
    ∨ allZero (p.tail (stop + 4)) = false
    ∨ (Op.ofCode p.op = some .operationPart ∧ ¬ (p.arg = 0 ∨ p.arg = 40 ∨ p.arg = 80))
    ∨ (Op.ofCode p.op ≠ some .operationPart ∧ p.arg ≠ 0)) .protocol
  decode (p.cut stop)

end Lookup

/-! ### Admission identities -/

/-- The versions of an observation. -/
def observationVersion : UInt32 := 1
def observationV2 : UInt32 := 2

/-- `admission::live`: requests about a running execution. -/
def Op.live : Op → Bool
  | .admissionActivity | .admissionRequestCancel => true
  | _ => false

/-- The requests that name one admission. -/
def Op.namesAdmission : Op → Bool
  | .admissionGet | .admissionExecute | .admissionCancel | .admissionSchedule
  | .admissionObserve => true
  | op => op.live

/-- `AdmissionId::decode`. -/
def AdmissionId.decode (p : Packet) : Except Error AdmissionId := do
  reject ((Op.ofCode p.op).any Op.namesAdmission = false ∨ p.status ≠ 0 ∨ p.id ≠ 0
    ∨ (if Op.ofCode p.op = some .admissionObserve then
        ¬ (p.arg = observationVersion ∨ p.arg = observationV2) else p.arg ≠ 0)
    ∨ p.count ≠ 16 ∨ p.tail 16 ≠ zeros 24) .protocol
  Numbered.new p.lineage p.version

/-! ### Range reads -/

/-- The largest range of one read. -/
def maxRange : Nat := 1024

/-- The largest integer a caller can represent. -/
def maxInteger : Nat := 2 ^ 53 - 1

/-- The version of the range profile. -/
def rangeVersion : UInt16 := 1

/-- One range of one file. -/
structure RangeRequest where
  workspace : Workspace
  resource : Resource
  expectedVersion : Option Version
  offset : UInt64
  length : UInt16

namespace RangeRequest

def validate (r : RangeRequest) : Except Error Unit :=
  reject (r.workspace ≠ r.resource.workspace ∨ r.length = 0 ∨ r.length.toNat > maxRange
    ∨ r.offset.toNat + r.length.toNat > maxInteger) .invalid

/-- The request can be sent under an operation: a chunk names its version and fits one
packet. -/
def sendable (r : RangeRequest) (op : Option Op) : Except Error Unit := do
  r.validate
  reject (¬ (op = some .readOpen ∨ op = some .readChunk)
    ∨ op = some .readChunk ∧ (r.expectedVersion = none ∨ r.length.toNat > 40)) .invalid

/-- `read::Request::decode`. -/
def decode (p : Packet) : Except Error RangeRequest := do
  reject (¬ (Op.ofCode p.op = some .readOpen ∨ Op.ofCode p.op = some .readChunk)
    ∨ p.status ≠ 0 ∨ p.count ≠ 30 ∨ allZero (p.tail 30) = false) .invalid
  reject (ofLe16 (p.field 28 2) ≠ rangeVersion) .unsupportedVersion
  let workspace ← Workspace.new p.lineage (ofLe32 (p.field 16 4))
  let resource ← Resource.new workspace p.id
  let expectedVersion ← if p.version = 0 then pure none else some <$> Word.new p.version
  reject (p.arg.toNat ≥ 2 ^ 16) .invalid
  let result : RangeRequest :=
    { workspace, resource, expectedVersion, offset := ofLe64 (p.field 20 8)
      length := UInt16.ofNat p.arg.toNat }
  result.sendable (Op.ofCode p.op)
  pure result

end RangeRequest

end RusticOs.Abi
