import RusticOs.Fs.Format7

/-!
# `RusticOs.Fs.Validation7`: structural checks spanning one decoded v7 generation

`validateGeneration` of `format7/validation.rs`: the namespace is a forest under the four
roots, the retained records tell one consistent history, and the allocation bitmap is
exactly the sectors that live files and retained snapshots own. The one overlap it permits
is a committed record that is the current version of its live file.
-/

set_option autoImplicit false

namespace RusticOs.Fs

open RusticOs.Lib

/-- The node table of a generation. -/
abbrev Nodes7 := Vector Node7 256

/-- The retained slots of a generation. -/
abbrev Records7 := Vector (Option Record7) 8

/-- One decoded generation: the header that names it, its node table, its retained slots
and its allocation bitmap. -/
structure Generation7 where
  header : Header7
  nodes : Nodes7
  records : Records7
  map : SpaceMap

/-- The live node with an identity. -/
def findNode (nodes : Nodes7) (id : UInt32) : Option Node7 :=
  nodes.toList.find? fun node => decide (node ≠ Node7.empty ∧ node.id = id)

/-! ### The namespace -/

/-- A node without a parent is one of the four roots. -/
def checkTop (node : Node7) : Except Error Unit :=
  reject (node.id = 0 ∨ node.kind ≠ .directory ∨ node.space ≠ node.id.toUInt8
    ∨ rootNames[node.id.toNat - 1]? ≠ some node.name) .corrupt

/-- One node slot against the header and the slots before it. -/
def checkNode (header : Header7) (nodes : Nodes7) (index : Fin 256) : Except Error Unit := do
  let node := nodes[index]
  node.validate
  if node = Node7.empty then pure ()
  else do
    reject (node.kind = .file ∧ node.length = 0 ∧ node.payloadCrc32 ≠ crc []) .corrupt
    reject (node.id ≥ header.next ∨ node.version > header.sequence) .corrupt
    reject (∃ j : Fin 256, j < index ∧ nodes[j] ≠ Node7.empty ∧ (nodes[j].id = node.id
      ∨ (nodes[j].parent = node.parent ∧ nodes[j].name = node.name))) .corrupt
    if node.parent = 0 then checkTop node else pure ()

/-- Follow parents from `ancestor`, at most `fuel` of them: the walk reaches the top and
never comes back to `id`. -/
def climb (nodes : Nodes7) (id : UInt32) : Nat → UInt32 → Except Error Unit
  | 0, ancestor => reject (ancestor ≠ 0) .corrupt
  | fuel + 1, ancestor =>
    if ancestor = 0 then .ok ()
    else do
      reject (ancestor = id) .corrupt
      let node ← orRefuse .corrupt (findNode nodes ancestor)
      climb nodes id fuel node.parent

/-- One node's parent is a live directory of its space, and the walk up ends. -/
def checkParent (nodes : Nodes7) (index : Fin 256) : Except Error Unit :=
  let node := nodes[index]
  if node = Node7.empty ∨ node.parent = 0 then .ok ()
  else do
    let parent ← orRefuse .corrupt (findNode nodes node.parent)
    reject (parent.kind ≠ .directory ∨ parent.space ≠ node.space) .corrupt
    climb nodes node.id 256 node.parent

def validateNodes (header : Header7) (nodes : Nodes7) : Except Error Unit := do
  checkAll (checkNode header nodes) (List.finRange 256)
  -- every root has been seen
  reject (∃ root : Fin 4, ∀ i : Fin 256,
    ¬ (nodes[i] ≠ Node7.empty ∧ nodes[i].parent = 0 ∧ nodes[i].id.toNat = root.val + 1)) .corrupt
  checkAll (checkParent nodes) (List.finRange 256)

/-! ### The retained records -/

/-- The sequence at which a record observed its file's version. -/
def versionObservationSequence (record : Record7) : UInt64 :=
  if record.state = .directCommitted then record.committed else record.admissionNumber

/-- The versions before and after a committed replacement. -/
def committedVersion (record : Record7) : Option (UInt64 × UInt64) :=
  if record.state.committed then some (record.previous, record.committed) else none

/-- A live file is exactly what a committed record wrote. -/
def matchesCommittedContent (record : Record7) (node : Node7) : Bool :=
  node.kind = .file && node.length = record.length && node.payloadCrc32 = record.payloadCrc32
    && node.extentsUsed = record.extentsUsed && node.extents = record.extents

/-- A record is the current version of its live file. -/
def aliasesCurrentFile (record : Record7) (nodes : Nodes7) : Bool :=
  record.state.committed &&
    match findNode nodes record.object with
    | none => false
    | some node => node.version = record.committed && matchesCommittedContent record node

/-- A record against the live file it names. A file that is gone constrains nothing. -/
def validateReceiptTarget (record : Record7) (nodes : Nodes7) : Except Error Unit :=
  match findNode nodes record.object with
  | none => .ok ()
  | some node => do
    reject (node.kind ≠ .file ∨ node.version < record.previous) .corrupt
    reject (record.state.committed = false ∧ node.version > record.previous
      ∧ node.version ≤ record.admissionNumber) .corrupt
    reject (record.state.committed ∧ (node.version < record.committed
      ∨ (node.version = record.committed ∧ ¬ matchesCommittedContent record node))) .corrupt

/-- Two records answer the same retry. -/
def sameRetryIdentity (left right : Record7) : Bool :=
  left.subject = right.subject && left.workspace = right.workspace
    && left.retryEpoch = right.retryEpoch && left.retryKey = right.retryKey

/-- The sequences at which something happened to a record; zero is no event. -/
def eventSequences (record : Record7) : List UInt64 :=
  [record.admissionNumber, record.terminal, record.committed]

/-- Two records claim one event. -/
def shareEventSequence (left right : Record7) : Bool :=
  (eventSequences left).any fun event => event != 0 && (eventSequences right).contains event

/-- No other record saw a different version between an admission and its commit. -/
def committedAdmissionIsUnchanged (committing other : Record7) : Bool :=
  if committing.state ≠ .admittedCommitted then true
  else if committing.admissionNumber < versionObservationSequence other
      ∧ versionObservationSequence other < committing.committed then
    other.previous = committing.previous
  else true

/-- Later observations see later versions. -/
def observationsAreMonotonic (left right : Record7) : Bool :=
  if versionObservationSequence left < versionObservationSequence right then
    left.previous ≤ right.previous
  else if versionObservationSequence left = versionObservationSequence right then false
  else right.previous ≤ left.previous

/-- The later of two commits started at or after the earlier one. -/
def commitsAreMonotonic (left right : Record7) : Bool :=
  match committedVersion left, committedVersion right with
  | some (_, leftCommitted), some (rightPrevious, rightCommitted) =>
    if leftCommitted < rightCommitted then rightPrevious ≥ leftCommitted
    else left.previous ≥ rightCommitted
  | _, _ => true

/-- An observation after a commit sees at least the committed version. -/
def seesCommit (committing other : Record7) : Bool :=
  match committedVersion committing with
  | some (_, committed) =>
    !(versionObservationSequence other > committed && other.previous < committed)
  | none => true

/-- Two records of one object tell one history. -/
def sameObjectHistoryIsConsistent (left right : Record7) : Bool :=
  left.object != right.object ||
    (observationsAreMonotonic left right
      && committedAdmissionIsUnchanged left right && committedAdmissionIsUnchanged right left
      && commitsAreMonotonic left right && seesCommit left right && seesCommit right left)

/-- A record contradicts one in an earlier slot. -/
def contradicts (record prior : Record7) : Bool :=
  sameRetryIdentity record prior || shareEventSequence record prior
    || !sameObjectHistoryIsConsistent record prior

/-- One retained slot against the header, its file and the slots before it. -/
def checkReceipt (header : Header7) (nodes : Nodes7) (receipts : Records7) (index : Fin 8) :
    Except Error Unit :=
  match receipts[index] with
  | none => .ok ()
  | some record => do
    record.validate header.sequence header.next
    reject (record.retryEpoch ≠ header.epoch) .corrupt
    validateReceiptTarget record nodes
    reject (∃ j : Fin 8, j < index ∧ receipts[j].any (contradicts record) = true) .corrupt

def validateReceipts (header : Header7) (nodes : Nodes7) (receipts : Records7) :
    Except Error Unit :=
  checkAll (checkReceipt header nodes receipts) (List.finRange 8)

/-! ### Ownership -/

/-- Mark sectors in the scratch bitmap. A sector that is marked already is refused. -/
def markSectors : SpaceMap → List Nat → Except Error SpaceMap
  | scratch, [] => .ok scratch
  | scratch, sector :: rest => do
    reject (Bitmap.get scratch sector = true) .corrupt
    markSectors (Bitmap.set scratch sector true) rest

def markRuns (scratch : SpaceMap) (runs : List Extent) : Except Error SpaceMap :=
  markSectors scratch (runSectors runs)

/-- Mark the runs of a live file. -/
def markNode (scratch : SpaceMap) (node : Node7) : Except Error SpaceMap :=
  if node.kind = .file ∧ node ≠ Node7.empty then markRuns scratch node.runs else .ok scratch

/-- Mark the runs of a retained snapshot, unless its live file already owns them. Only one
record may share a file's runs. -/
def markReceipt (nodes : Nodes7) (receipts : Records7) (scratch : SpaceMap) (slot : Fin 8) :
    Except Error SpaceMap :=
  match receipts[slot] with
  | none => .ok scratch
  | some receipt => do
    reject (receipt.length = 0 ∧ receipt.payloadCrc32 ≠ crc []) .corrupt
    if aliasesCurrentFile receipt nodes then do
      reject (∃ j : Fin 8, j < slot ∧ receipts[j].any (fun prior =>
        prior.object = receipt.object && aliasesCurrentFile prior nodes) = true) .corrupt
      pure scratch
    else markRuns scratch receipt.runs

/-- The whole check of one decoded generation. -/
def validateGeneration (header : Header7) (nodes : Nodes7) (receipts : Records7)
    (map : SpaceMap) : Except Error Unit := do
  header.validate
  validateNodes header nodes
  validateReceipts header nodes receipts
  let scratch ← nodes.toList.foldlM markNode (Vector.replicate 2048 0)
  let scratch ← (List.finRange 8).foldlM (markReceipt nodes receipts) scratch
  reject (scratch ≠ map) .corrupt

end RusticOs.Fs
