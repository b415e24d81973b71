import RusticOs.Lib.Bytes
import RusticOs.Lib.Fallible

/-!
# `RusticOs.Abi.Packet`: errors, operations and packets of the file service

The wire contract of `abi/src/files.rs`: the refusals with their status bytes, the operation
bytes, the rights, and the 64-byte packet in its decoded form. `Op` names the operations of
the client profiles; a packet still carries the plain byte, and `Op.ofCode` reads it.
-/

set_option autoImplicit false

namespace RusticOs.Abi

open RusticOs.Lib

/-- The refusals of the file service. -/
inductive Error where
  | protocol | io | uncertain | invalid | corrupt | notFound | existing | notDirectory
  | isDirectory | notEmpty | full | size | version | readOnly | empty | exhausted | denied
  | revoked | expired | busy | noTransfer | offset | closed | unsupported | lineage
  | expiredEpoch | outcomeUnknown | idempotencyConflict | interrupted | unsupportedVersion
  | unavailable
  deriving DecidableEq, Repr

/-- The status byte of a refusal. -/
def Error.code : Error → UInt8
  | .protocol => 1
  | .io => 2
  | .uncertain => 3
  | .invalid => 4
  | .corrupt => 5
  | .notFound => 6
  | .existing => 7
  | .notDirectory => 8
  | .isDirectory => 9
  | .notEmpty => 10
  | .full => 11
  | .size => 12
  | .version => 13
  | .readOnly => 14
  | .empty => 15
  | .exhausted => 16
  | .denied => 17
  | .revoked => 18
  | .expired => 19
  | .busy => 20
  | .noTransfer => 21
  | .offset => 22
  | .closed => 23
  | .unsupported => 24
  | .lineage => 25
  | .expiredEpoch => 26
  | .outcomeUnknown => 27
  | .idempotencyConflict => 28
  | .interrupted => 29
  | .unsupportedVersion => 30
  | .unavailable => 31

/-- The operations a client packet may select. -/
inductive Op where
  | lookup | stat | list | create | remove | read | begin | chunk | commit | abort | mkdir
  | recovery | trackBegin | receipt | references | readOpen | readChunk | replaceOpen
  | replaceChunk | replaceCommit | replaceAbort | operationRetry | operationId | operationPart
  | admissionOpen | admissionChunk | admissionAccept | admissionAbort | admissionGet
  | admissionRetry | admissionExecute | admissionCancel | admissionActivity
  | admissionRequestCancel | capabilities | admissionSchedule | admissionObserve
  | lifecycleCancel | negotiationDescribe
  deriving DecidableEq, Repr

/-- The operation byte. -/
def Op.code : Op → UInt8
  | .lookup => 1
  | .stat => 2
  | .list => 3
  | .create => 4
  | .remove => 5
  | .read => 6
  | .begin => 7
  | .chunk => 8
  | .commit => 9
  | .abort => 10
  | .mkdir => 11
  | .recovery => 12
  | .trackBegin => 13
  | .receipt => 14
  | .references => 15
  | .readOpen => 16
  | .readChunk => 17
  | .replaceOpen => 18
  | .replaceChunk => 19
  | .replaceCommit => 20
  | .replaceAbort => 21
  | .operationRetry => 22
  | .operationId => 23
  | .operationPart => 24
  | .admissionOpen => 48
  | .admissionChunk => 49
  | .admissionAccept => 50
  | .admissionAbort => 51
  | .admissionGet => 52
  | .admissionRetry => 53
  | .admissionExecute => 54
  | .admissionCancel => 55
  | .admissionActivity => 56
  | .admissionRequestCancel => 57
  | .capabilities => 58
  | .admissionSchedule => 59
  | .admissionObserve => 60
  | .lifecycleCancel => 61
  | .negotiationDescribe => 62

/-- Every operation, in the order of its byte. -/
def Op.all : List Op :=
  [.lookup, .stat, .list, .create, .remove, .read, .begin, .chunk, .commit, .abort, .mkdir,
   .recovery, .trackBegin, .receipt, .references, .readOpen, .readChunk, .replaceOpen,
   .replaceChunk, .replaceCommit, .replaceAbort, .operationRetry, .operationId, .operationPart,
   .admissionOpen, .admissionChunk, .admissionAccept, .admissionAbort, .admissionGet,
   .admissionRetry, .admissionExecute, .admissionCancel, .admissionActivity,
   .admissionRequestCancel, .capabilities, .admissionSchedule, .admissionObserve,
   .lifecycleCancel, .negotiationDescribe]

/-- The operation a byte selects. -/
def Op.ofCode (b : UInt8) : Option Op := Op.all.find? fun op => op.code == b

/-! ### Rights -/

def readRight : UInt8 := 1
def writeRight : UInt8 := 2
def inspectRight : UInt8 := 4
def cancelRight : UInt8 := 8

/-! ### Packets -/

/-- One request or reply. -/
structure Packet where
  op : UInt8
  status : UInt8
  count : UInt8
  id : UInt32
  arg : UInt32
  context : UInt32
  version : UInt64
  data : Bytes 40
  deriving DecidableEq

namespace Packet

/-- An empty packet of an operation. -/
def new (op : UInt8) : Packet :=
  { op, status := 0, count := 0, id := 0, arg := 0, context := 0, version := 0
    data := Vector.replicate 40 0 }

/-- The bytes the packet carries. -/
def payload (p : Packet) : List UInt8 := p.data.toList.take (min p.count.toNat 40)

/-- `len` data bytes from `off` on. -/
def field (p : Packet) (off len : Nat) : List UInt8 := slice p.data.toList off len

/-- The data bytes from `off` on. -/
def tail (p : Packet) (off : Nat) : List UInt8 := p.data.toList.drop off

/-- The first 16 data bytes, where every identity carries its lineage. -/
def lineage (p : Packet) : Bytes 16 := Bytes.pack 16 (p.field 0 16)

/-- The packet with its data cut to `n` bytes and `n` as its count. -/
def cut (p : Packet) (n : Nat) : Packet :=
  { p with count := UInt8.ofNat n, data := Bytes.pack 40 (p.data.toList.take n) }

/-- An empty acknowledgement of a request. -/
def ack (p : Packet) : Packet := { new p.op with context := p.context }

/-- The reply to a refused request. -/
def failure (p : Packet) (e : Error) : Packet := { p.ack with status := e.code }

end Packet

end RusticOs.Abi
