import RusticOs.Fs.Basic

/-!
# `RusticOs.Fs.Format7`: the on-disk shapes of a v7 volume

The codecs of `format7/`: the header copy, the 128-byte node record, the 192-byte retained
record and the receipt block. Sectors are numbered from the volume start: header copies at
8 and 9, generation 0 at 10, generation 1 at 110, payload from 210 on.

Each encoder lists the fields in the order and width of the source's layout table, and each
decoder reads the same offsets. A decoder refuses a broken checksum, a reserved byte that
is not zero, and a record whose own rules fail.
-/

set_option autoImplicit false

namespace RusticOs.Fs

open RusticOs.Lib

/-! ### Geometry -/

/-- The eight magic bytes `RUSTFS3` and a zero. -/
def magic7 : List UInt8 := [82, 85, 83, 84, 70, 83, 51, 0]

/-- Largest file: 512 KiB. -/
def maxFileBytes : Nat := 524288

/-- The feature marker this codec implements: extents, snapshots, scoped records and
512 KiB files. -/
def features7 : UInt32 := 15

/-- Smallest identity watermark: 1 to 4 name the roots. -/
def nextMin : UInt32 := 5

/-- An exhausted watermark. -/
def nextExhausted : UInt32 := 4294967295

/-- First payload sector. -/
def payloadSector : Nat := 210

/-- Sector of a generation's header copy. -/
def headerSector (generation : UInt8) : Nat := 8 + generation.toNat % 2

/-- First sector of a generation's node table. -/
def nodesSector (generation : UInt8) : Nat := 10 + generation.toNat % 2 * 100

/-- First sector of a generation's free-space map. -/
def mapSector (generation : UInt8) : Nat := nodesSector generation + 64

/-- First sector of a generation's receipt block. -/
def receiptsSector (generation : UInt8) : Nat := mapSector generation + 32

/-- Payload geometry of nodes and records: the first `used` runs are nonempty, in bounds and
disjoint, the others are zero, and the used ones total exactly the sectors of `length`. -/
def checkPayload (runs : Vector Extent 8) (used : UInt8) (length : UInt32) :
    Except Error Unit := do
  reject (used.toNat > 8 ∨ length.toNat > maxFileBytes) .corrupt
  let live := runs.toList.take used.toNat
  checkAll (fun run => reject (run.sectors = 0
    ∨ (checkedAdd run.start run.sectors).all (fun e => decide (e.toNat > dataSectors))) .corrupt)
    live
  reject (¬ live.Pairwise fun run other => ¬ run.Overlaps other) .corrupt
  reject ((runs.toList.drop used.toNat).any fun run => run.start != 0 || run.sectors != 0)
    .corrupt
  reject ((live.map fun run => run.sectors.toNat).sum ≠ sectorsFor length.toNat) .corrupt

/-- The eight `(start, sectors)` pairs of a record. -/
def encodeRuns (runs : Vector Extent 8) : List UInt8 :=
  runs.toList.flatMap fun run => le32 run.start.toUInt32 ++ le32 run.sectors.toUInt32

/-- One `(start, sectors)` pair. -/
def decodeRun (b : List UInt8) : Extent :=
  ⟨(ofLe32 (slice b 0 4)).toUInt64, (ofLe32 (slice b 4 4)).toUInt64⟩

/-- The eight pairs of 64 bytes. -/
def decodeRuns (b : List UInt8) : Vector Extent 8 :=
  Vector.ofFn fun i => decodeRun (slice b (8 * i.val) 8)

/-! ### The header copy -/

/-- The durable head of a volume. `epoch` is the retry generation, `sequence` the global
version identity, `next` the identity watermark, and the checksums are those of the
generation it names. -/
structure Header7 where
  lineage : Bytes 16
  epoch : UInt64
  sequence : UInt64
  next : UInt32
  generation : UInt8
  nodesChecksum : UInt32
  mapChecksum : UInt32
  receiptsChecksum : UInt32
  deriving DecidableEq

namespace Header7

/-- A volume that has never been committed. -/
def initial (lineage : Bytes 16) : Header7 :=
  { lineage, epoch := 1, sequence := 1, next := nextMin, generation := 0
    nodesChecksum := 0, mapChecksum := 0, receiptsChecksum := 0 }

/-- The header's own rules. -/
def validate (h : Header7) : Except Error Unit :=
  reject (h.lineage = Vector.replicate 16 0 ∨ h.sequence < 1 ∨ h.epoch < 1
    ∨ h.epoch > h.sequence ∨ h.next < nextMin ∨ h.generation ≥ 2) .corrupt

/-- The fields of a copy in layout order. -/
def fields (h : Header7) (checksum : UInt32) : List (List UInt8) :=
  [magic7, [7], [1], [h.generation], [0], h.lineage.toList, le64 h.epoch, le64 h.sequence,
   le32 h.next, le32 h.nodesChecksum, le32 h.mapChecksum, le32 h.receiptsChecksum, le32 256,
   le32 128, le32 16384, le32 131072, le32 8, le32 features7, le32 192, [8], zeros 3,
   zeros 416, le32 checksum]

/-- The widths of those fields. -/
def widths : List Nat :=
  [8, 1, 1, 1, 1, 16, 8, 8, 4, 4, 4, 4, 4, 4, 4, 4, 4, 4, 4, 1, 3, 416, 4]

/-- The checksum a copy carries: over its bytes with the checksum field zeroed. -/
def checksum (h : Header7) : UInt32 := crc (h.fields 0).flatten

def encode (h : Header7) : Except Error Block := do
  h.validate
  pure (Bytes.pack 512 (h.fields h.checksum).flatten)

def decode (b : Block) : Except Error Header7 := do
  let at_ := slice b.toList
  reject (at_ 0 8 ≠ magic7 ∨ at_ 8 1 ≠ [7] ∨ at_ 9 1 ≠ [1] ∨ b[10] ≥ 2 ∨ at_ 11 1 ≠ [0]
    ∨ at_ 89 3 ≠ zeros 3 ∨ ¬ allZero (at_ 92 416)
    ∨ ofLe32 (at_ 60 4) ≠ 256 ∨ ofLe32 (at_ 64 4) ≠ 128 ∨ ofLe32 (at_ 68 4) ≠ 16384
    ∨ ofLe32 (at_ 72 4) ≠ 131072 ∨ ofLe32 (at_ 76 4) ≠ 8 ∨ ofLe32 (at_ 80 4) ≠ features7
    ∨ ofLe32 (at_ 84 4) ≠ 192 ∨ at_ 88 1 ≠ [8]
    ∨ crc (at_ 0 508 ++ zeros 4) ≠ ofLe32 (at_ 508 4)) .corrupt
  let header : Header7 :=
    { lineage := Bytes.pack 16 (at_ 12 16)
      epoch := ofLe64 (at_ 28 8)
      sequence := ofLe64 (at_ 36 8)
      next := ofLe32 (at_ 44 4)
      generation := b[10]
      nodesChecksum := ofLe32 (at_ 48 4)
      mapChecksum := ofLe32 (at_ 52 4)
      receiptsChecksum := ofLe32 (at_ 56 4) }
  header.validate
  pure header

/-- The identity an allocation may hand out. -/
def nextId (h : Header7) : Except Error UInt32 := do
  reject (h.next = nextExhausted) .exhausted
  pure h.next

end Header7

/-! ### The node record -/

/-- One object's identity, name and payload runs. -/
structure Node7 where
  id : UInt32
  parent : UInt32
  version : UInt64
  length : UInt32
  kind : Kind
  space : UInt8
  extentsUsed : UInt8
  extents : Vector Extent 8
  nameLength : UInt8
  nameField : Bytes 32
  payloadCrc32 : UInt32
  deriving DecidableEq

namespace Node7

/-- The empty slot. -/
def empty : Node7 :=
  { id := 0, parent := 0, version := 0, length := 0, kind := .empty, space := 0
    extentsUsed := 0, extents := Vector.replicate 8 Extent.zero, nameLength := 0
    nameField := Vector.replicate 32 0, payloadCrc32 := 0 }

instance : Inhabited Node7 := ⟨empty⟩

/-- The live bytes of the name field. -/
def name (n : Node7) : List UInt8 := n.nameField.toList.take n.nameLength.toNat

/-- The used runs. -/
def runs (n : Node7) : List Extent := n.extents.toList.take n.extentsUsed.toNat

/-- What one record proves about itself. -/
def validate (n : Node7) : Except Error Unit :=
  if n = empty then .ok ()
  else do
    reject (n.id = 0 ∨ n.version = 0 ∨ n.kind = .empty ∨ ¬ (1 ≤ n.space ∧ n.space ≤ 4)
      ∨ n.nameLength.toNat > 31) .corrupt
    reject (validName n.name ≠ .ok ()) .corrupt
    reject (¬ allZero (n.nameField.toList.drop n.nameLength.toNat)) .corrupt
    reject (n.kind = .directory ∧ (n.length ≠ 0 ∨ n.payloadCrc32 ≠ 0 ∨ n.extentsUsed ≠ 0))
      .corrupt
    reject (n.length.toNat > maxFileBytes) .corrupt
    checkPayload n.extents n.extentsUsed n.length

/-- The fields before the checksum, in layout order. -/
def fields (n : Node7) : List (List UInt8) :=
  [le32 n.id, le32 n.parent, le64 n.version, le32 n.length, [n.kind.code], [n.space],
   [n.extentsUsed], [n.nameLength], encodeRuns n.extents, n.nameField.toList,
   le32 n.payloadCrc32]

/-- The widths of the fields and of the checksum after them. -/
def widths : List Nat := [4, 4, 8, 4, 1, 1, 1, 1, 64, 32, 4, 4]

def encode (n : Node7) : Except Error (Bytes 128) := do
  n.validate
  if n = empty then pure (Vector.replicate 128 0)
  else pure (Bytes.pack 128 (n.fields.flatten ++ le32 (crc n.fields.flatten)))

def decode (b : Bytes 128) : Except Error Node7 :=
  if b = Vector.replicate 128 0 then .ok empty
  else do
    let at_ := slice b.toList
    reject (crc (at_ 0 124) ≠ ofLe32 (at_ 124 4)) .corrupt
    let kind ← match b[20] with
      | 1 => pure Kind.file
      | 2 => pure Kind.directory
      | _ => .error .corrupt
    let node : Node7 :=
      { id := ofLe32 (at_ 0 4)
        parent := ofLe32 (at_ 4 4)
        version := ofLe64 (at_ 8 8)
        length := ofLe32 (at_ 16 4)
        kind
        space := b[21]
        extentsUsed := b[22]
        extents := decodeRuns (at_ 24 64)
        nameLength := b[23]
        nameField := Bytes.pack 32 (at_ 88 32)
        payloadCrc32 := ofLe32 (at_ 120 4) }
    node.validate
    pure node

/-- The node whose fields are the cuts of a record. -/
def cut (b : Bytes 128) (kind : Kind) : Node7 :=
  { id := ofLe32 (slice b.toList 0 4)
    parent := ofLe32 (slice b.toList 4 4)
    version := ofLe64 (slice b.toList 8 8)
    length := ofLe32 (slice b.toList 16 4)
    kind
    space := b[21]
    extentsUsed := b[22]
    extents := decodeRuns (slice b.toList 24 64)
    nameLength := b[23]
    nameField := Bytes.pack 32 (slice b.toList 88 32)
    payloadCrc32 := ofLe32 (slice b.toList 120 4) }

end Node7

/-! ### The retained record -/

/-- The durable outcomes a record can carry. -/
inductive RecordState where
  | directCommitted | admitted | cancelled | admittedCommitted
  deriving DecidableEq, Repr

/-- The state byte. -/
def RecordState.code : RecordState → UInt8
  | .directCommitted => 0
  | .admitted => 1
  | .cancelled => 2
  | .admittedCommitted => 3

/-- The state a byte names. -/
def RecordState.ofCode : UInt8 → Option RecordState
  | 0 => some .directCommitted
  | 1 => some .admitted
  | 2 => some .cancelled
  | 3 => some .admittedCommitted
  | _ => none

/-- Whether a state names a committed replacement. -/
def RecordState.committed : RecordState → Bool
  | .directCommitted | .admittedCommitted => true
  | .admitted | .cancelled => false

/-- A scoped outcome with the payload snapshot that makes an exact retry answerable. -/
structure Record7 where
  subject : UInt64
  workspace : UInt32
  object : UInt32
  inst : UInt64
  retryEpoch : UInt64
  retryKey : UInt64
  previous : UInt64
  committed : UInt64
  admissionNumber : UInt64
  terminal : UInt64
  length : UInt32
  payloadCrc32 : UInt32
  state : RecordState
  prevention : Option PreventionReason
  extentsUsed : UInt8
  extents : Vector Extent 8
  deriving DecidableEq

namespace Record7

/-- The used runs. -/
def runs (r : Record7) : List Extent := r.extents.toList.take r.extentsUsed.toNat

/-- Whether the state's own arithmetic fails. -/
def stateBroken (r : Record7) : Bool :=
  match r.state with
  | .directCommitted =>
    r.admissionNumber != 0 || r.terminal != r.committed || r.committed ≤ r.previous
      || r.inst > r.committed
  | .admitted =>
    r.committed != 0 || r.terminal != 0 || r.admissionNumber ≤ r.previous
      || r.inst > r.admissionNumber
  | .cancelled =>
    r.committed != 0 || r.terminal ≤ r.admissionNumber || r.admissionNumber ≤ r.previous
      || r.inst > r.admissionNumber
  | .admittedCommitted =>
    r.committed != r.terminal || r.terminal ≤ r.admissionNumber
      || r.admissionNumber ≤ r.previous || r.inst > r.admissionNumber

/-- The sequence the retry epoch may not exceed. -/
def epochBound (r : Record7) : UInt64 :=
  match r.state with
  | .directCommitted => r.committed
  | .admitted | .cancelled | .admittedCommitted => r.admissionNumber

/-- What one record proves about itself. -/
def checkLocal (r : Record7) : Except Error Unit := do
  reject (r.subject = 0 ∨ r.workspace = 0 ∨ r.inst = 0 ∨ r.object < nextMin
    ∨ r.object = r.workspace ∨ r.retryKey = 0 ∨ r.retryEpoch = 0 ∨ r.previous = 0) .corrupt
  reject (decide (r.state = .cancelled) ≠ r.prevention.isSome) .corrupt
  reject (r.stateBroken = true) .corrupt
  reject (r.retryEpoch > r.epochBound) .corrupt
  checkPayload r.extents r.extentsUsed r.length

/-- The bounds that need the header the record belongs to. -/
def validate (r : Record7) (sequence : UInt64) (next : UInt32) : Except Error Unit := do
  reject (sequence = 0 ∨ next < nextMin) .corrupt
  r.checkLocal
  reject (r.workspace ≥ next ∨ r.object ≥ next) .corrupt
  reject (r.retryEpoch > sequence ∨ r.previous > sequence ∨ r.committed > sequence
    ∨ r.terminal > sequence ∨ r.admissionNumber > sequence) .corrupt

/-- The fields before the checksum, in layout order. -/
def fields (r : Record7) : List (List UInt8) :=
  [le64 r.subject, le32 r.workspace, le32 r.object, le64 r.inst, le64 r.retryEpoch,
   le64 r.retryKey, le64 r.previous, le64 r.committed, le64 r.admissionNumber,
   le64 r.terminal, le32 r.length, le32 r.payloadCrc32, [r.state.code],
   [(r.prevention.map PreventionReason.code).getD 0], [r.extentsUsed], zeros 5,
   encodeRuns r.extents, zeros 36]

/-- The widths of the fields and of the checksum after them. -/
def widths : List Nat := [8, 4, 4, 8, 8, 8, 8, 8, 8, 8, 4, 4, 1, 1, 1, 5, 64, 36, 4]

def encode (r : Record7) : Except Error (Bytes 192) := do
  r.checkLocal
  pure (Bytes.pack 192 (r.fields.flatten ++ le32 (crc r.fields.flatten)))

def decode (b : Bytes 192) : Except Error Record7 := do
  let at_ := slice b.toList
  reject (crc (at_ 0 188) ≠ ofLe32 (at_ 188 4) ∨ at_ 83 5 ≠ zeros 5
    ∨ ¬ allZero (at_ 152 36)) .corrupt
  let state ← orRefuse .corrupt (RecordState.ofCode b[80])
  let prevention ←
    if state = .cancelled then some <$> orRefuse .corrupt (PreventionReason.ofCode b[81])
    else do
      reject (b[81] ≠ 0) .corrupt
      pure none
  let record : Record7 :=
    { subject := ofLe64 (at_ 0 8)
      workspace := ofLe32 (at_ 8 4)
      object := ofLe32 (at_ 12 4)
      inst := ofLe64 (at_ 16 8)
      retryEpoch := ofLe64 (at_ 24 8)
      retryKey := ofLe64 (at_ 32 8)
      previous := ofLe64 (at_ 40 8)
      committed := ofLe64 (at_ 48 8)
      admissionNumber := ofLe64 (at_ 56 8)
      terminal := ofLe64 (at_ 64 8)
      length := ofLe32 (at_ 72 4)
      payloadCrc32 := ofLe32 (at_ 76 4)
      state
      prevention
      extentsUsed := b[82]
      extents := decodeRuns (at_ 88 64) }
  record.checkLocal
  pure record

/-- The record whose fields are the cuts of a slot. -/
def cut (b : Bytes 192) (state : RecordState) (prevention : Option PreventionReason) : Record7 :=
  { subject := ofLe64 (slice b.toList 0 8)
    workspace := ofLe32 (slice b.toList 8 4)
    object := ofLe32 (slice b.toList 12 4)
    inst := ofLe64 (slice b.toList 16 8)
    retryEpoch := ofLe64 (slice b.toList 24 8)
    retryKey := ofLe64 (slice b.toList 32 8)
    previous := ofLe64 (slice b.toList 40 8)
    committed := ofLe64 (slice b.toList 48 8)
    admissionNumber := ofLe64 (slice b.toList 56 8)
    terminal := ofLe64 (slice b.toList 64 8)
    length := ofLe32 (slice b.toList 72 4)
    payloadCrc32 := ofLe32 (slice b.toList 76 4)
    state
    prevention
    extentsUsed := b[82]
    extents := decodeRuns (slice b.toList 88 64) }

/-- One retained slot: the all-zero slot is empty. -/
def slot (b : Bytes 192) : Except Error (Option Record7) :=
  if b = Vector.replicate 192 0 then .ok none else some <$> decode b

end Record7

/-- The eight slots of a receipt block. The padding after them must be zero. -/
def receiptSlots (block : List UInt8) : Except Error (List (Option Record7)) := do
  reject (¬ allZero (block.drop 1536)) .corrupt
  (chunks 192 8 block).mapM fun b => Record7.slot (Bytes.pack 192 b)

end RusticOs.Fs
