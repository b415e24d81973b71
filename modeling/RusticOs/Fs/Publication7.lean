import RusticOs.Fs.Volume7

/-!
# `RusticOs.Fs.Publication7`: writing a generation, mounting and provisioning

`volume7/publication.rs`, `volume7/mount.rs` and `volume7/provision.rs`. A publication
writes the inactive generation, flushes, writes the header that names it, and flushes
again. A mount flushes first, selects a header from the two copies, and loads and checks
the generation it names. Mounting fills the owner field by field and clears it on any
refusal; here the loaded generation is a value that is stored only on success.
-/

set_option autoImplicit false

namespace RusticOs.Fs

open RusticOs.Lib
open Fallible (lift refuse fail)

/-! ### Sectors of a generation -/

/-- A node sector: four encoded nodes. -/
def nodesBlock (nodes : Nodes7) (sector : Nat) : Except Error Block := do
  let encoded ← ((nodes.toList.drop (4 * sector)).take 4).mapM Node7.encode
  pure (Bytes.pack 512 (encoded.flatMap Vector.toList))

/-- A map sector: 64 words. -/
def mapBlock (map : SpaceMap) (sector : Nat) : Block :=
  Bytes.pack 512 (((map.toList.drop (64 * sector)).take 64).flatMap le64)

/-- Copy the part of a retained slot that falls into a receipt sector. -/
def copyReceipt (sector : Nat) (block : List UInt8) (index : Nat) (record : Option Record7) :
    Except Error (List UInt8) :=
  match record with
  | none => .ok block
  | some record =>
    let copyStart := max (512 * sector) (192 * index)
    let copyEnd := min (512 * sector + 512) (192 * index + 192)
    if copyStart ≥ copyEnd then .ok block
    else do
      let encoded ← record.encode
      pure (overwrite block (copyStart - 512 * sector)
        (slice encoded.toList (copyStart - 192 * index) (copyEnd - copyStart)))

/-- A receipt sector: the parts of the eight 192-byte slots that fall into it. -/
def receiptsBlock (records : Records7) (sector : Nat) : Except Error Block := do
  let block ← (List.finRange 8).foldlM
    (fun block index => copyReceipt sector block index.val records[index]) (zeros 512)
  pure (Bytes.pack 512 block)

/-- Write `count` sectors from `base` on and return the CRC of their bytes. -/
def writeRegion (onError : Error → Error) (base count : Nat) (block : Nat → Except Error Block) :
    Fallible Error Disk UInt32 := do
  let blocks ← (List.range count).mapM fun sector => do
    let bytes ← lift (block sector)
    (Device.writeSector (base + sector) bytes).mapError onError
    pure bytes
  pure (crc (blocks.flatMap Vector.toList))

/-- Write a whole generation and return its three checksums. -/
def writeGeneration (onError : Error → Error) (nodes : Nodes7) (records : Records7)
    (map : SpaceMap) (generation : UInt8) : Fallible Error Disk (UInt32 × UInt32 × UInt32) := do
  let nodesChecksum ← writeRegion onError (nodesSector generation) 64 (nodesBlock nodes)
  let mapChecksum ← writeRegion onError (mapSector generation) 32 fun s => .ok (mapBlock map s)
  let receiptsChecksum ←
    writeRegion onError (receiptsSector generation) 4 (receiptsBlock records)
  pure (nodesChecksum, mapChecksum, receiptsChecksum)

/-! ### Publication -/

/-- Every refusal during a publication is reported as uncertain. -/
def uncertain (_ : Error) : Error := .uncertain

/-- The header of the next generation, before its checksums are known. -/
def candidateHeader (header : Header7) : Except Error Header7 := do
  let sequence ← orRefuse .exhausted (checkedAdd header.sequence 1)
  pure { header with sequence, generation := header.generation ^^^ 1 }

/-- Persist the owner's structures to the inactive generation, then name them with its
header. -/
def publishCandidate (v : Volume7) : Fallible Error Disk Header7 := do
  let candidate ← lift (candidateHeader v.header)
  lift (validateGeneration candidate v.nodes v.records v.map)
  let (nodesChecksum, mapChecksum, receiptsChecksum) ←
    writeGeneration uncertain v.nodes v.records v.map candidate.generation
  let published := { candidate with nodesChecksum, mapChecksum, receiptsChecksum }
  let encoded ← lift published.encode
  Device.flush.mapError uncertain
  (Device.writeSector (headerSector published.generation) encoded).mapError uncertain
  Device.flush.mapError uncertain
  pure published

/-- Publish the owner's structures and adopt the new header, or clear and fence. -/
def publishNamespace : Op Unit := do
  let v ← getVolume
  match ← (onDisk (publishCandidate v)).attempt with
  | .ok header => setVolume fun v => { v with header, fenced := false }
  | .error e => do
    setVolume Volume7.fenceClear
    fail e

/-! ### Mounting -/

/-- A header copy counts only in its own slot. -/
def candidate (bytes : Block) (slot : UInt8) : Option Header7 :=
  match Header7.decode bytes with
  | .ok header => if header.generation = slot then some header else none
  | .error _ => none

/-- A provisioned volume that has never been published over. -/
def cleanGenesis (header : Header7) (other : Block) : Bool :=
  header.generation = 0 && header.sequence = 1 && header.epoch = 1 && header.next = nextMin
    && allZero other.toList

/-- Two headers, the older one first. -/
def orderHeaders (left right : Header7) : Except Error (Header7 × Header7) :=
  if left.sequence < right.sequence then .ok (left, right)
  else if right.sequence < left.sequence then .ok (right, left)
  else .error .corrupt

/-- The newer of two headers whose sequences are adjacent. -/
def newerHeader (left right : Header7) : Except Error (Header7 × Bool) := do
  reject (left.lineage ≠ right.lineage ∨ left.generation = right.generation) .corrupt
  let (older, newer) ← orderHeaders left right
  reject (newer.sequence.toNat - older.sequence.toNat ≠ 1 ∨ newer.epoch < older.epoch
    ∨ newer.next < older.next) .corrupt
  pure (newer, false)

/-- The header a mount trusts, and whether a broken copy was passed over. -/
def selectHeader (first second : Block) : Except Error (Header7 × Bool) :=
  match candidate first 0, candidate second 1 with
  | none, none => .error .corrupt
  | some header, none => .ok (header, !cleanGenesis header second)
  | none, some header => .ok (header, true)
  | some left, some right => newerHeader left right

/-- A decoded and verified generation. -/
structure Mounted7 extends Generation7 where
  recovered : Bool

/-- Read `count` sectors from `base` on, decoding each, and return the CRC of their bytes. -/
def readRegion {α : Type} (base count : Nat) (decode : Block → Except Error α) :
    Fallible Error Disk (UInt32 × List α) := do
  let parts ← (List.range count).mapM fun sector => do
    let block ← Device.readSector (base + sector)
    let part ← lift (decode block)
    pure (block, part)
  pure (crc (parts.flatMap fun part => part.1.toList), parts.map Prod.snd)

def decodeNodes (block : Block) : Except Error (List Node7) :=
  (chunks 128 4 block.toList).mapM fun bytes => Node7.decode (Bytes.pack 128 bytes)

def decodeMap (block : Block) : List UInt64 := (chunks 8 64 block.toList).map ofLe64

/-- Load the generation a header names, checking the three region checksums. -/
def readGeneration (header : Header7) : Fallible Error Disk (Nodes7 × SpaceMap × Records7) := do
  let (nodesCrc, nodes) ← readRegion (nodesSector header.generation) 64 decodeNodes
  refuse (nodesCrc ≠ header.nodesChecksum) .corrupt
  let (mapCrc, map) ← readRegion (mapSector header.generation) 32 fun b => .ok (decodeMap b)
  refuse (mapCrc ≠ header.mapChecksum) .corrupt
  let (receiptsCrc, receipts) ←
    readRegion (receiptsSector header.generation) 4 fun b => .ok b.toList
  refuse (receiptsCrc ≠ header.receiptsChecksum) .corrupt
  let records ← lift (receiptSlots receipts.flatten)
  pure (fill Node7.empty 256 nodes.flatten, fill 0 2048 map.flatten, fill none 8 records)

/-- Everything a mount reads and checks after its flush. -/
def loadVolume : Fallible Error Disk Mounted7 := do
  let first ← Device.readSector (headerSector 0)
  let second ← Device.readSector (headerSector 1)
  let (header, recovered) ← lift (selectHeader first second)
  let (nodes, map, records) ← readGeneration header
  lift (validateGeneration header nodes records map)
  verifyPayloads nodes records
  pure { header, nodes, records, map, recovered }

def mountTrusted : Fallible Error Disk Mounted7 := do
  Device.flush
  loadVolume

/-- Flush, recover the best header, and load its generation into the owner. -/
def mountInto : Op Unit := do
  setVolume Volume7.fenceClear
  match ← (onDisk mountTrusted).attempt with
  | .ok m => setVolume fun v => { v with
      header := m.header, nodes := m.nodes, records := m.records, map := m.map
      recoveredFromHeader := m.recovered, fenced := false }
  | .error e => do
    setVolume Volume7.clear
    fail e

/-! ### Provisioning -/

/-- One of the four roots. -/
def rootNode (index : Nat) : Node7 :=
  { Node7.empty with
    id := UInt32.ofNat (index + 1)
    version := 1
    kind := .directory
    space := UInt8.ofNat (index + 1)
    nameLength := UInt8.ofNat (rootNames.getD index []).length
    nameField := Bytes.pack 32 (rootNames.getD index []) }

/-- The node table with the four roots in its first slots. -/
def installRoots : Nodes7 := fill Node7.empty 256 ((List.range 4).map rootNode)

/-- Invalidate both header copies, write generation 0, and name it. -/
def provisionDisk (v : Volume7) (initial : Header7) : Fallible Error Disk Header7 := do
  Device.writeSector (headerSector 0) zeroBlock
  Device.writeSector (headerSector 1) zeroBlock
  Device.flush
  let (nodesChecksum, mapChecksum, receiptsChecksum) ←
    writeGeneration id v.nodes v.records v.map 0
  Device.flush
  let header := { initial with nodesChecksum, mapChecksum, receiptsChecksum }
  let bytes ← lift header.encode
  Device.writeSector (headerSector 0) bytes
  Device.flush
  pure header

/-- Destructively format a volume in place. -/
def provisionInto (lineage : Bytes 16) : Op Unit := do
  let initial := Header7.initial lineage
  let _ ← lift initial.encode
  setVolume fun v => { v.fenceClear with nodes := installRoots }
  let v ← getVolume
  match ← (onDisk (provisionDisk v initial)).attempt with
  | .ok header => setVolume fun v => { v with header, fenced := false }
  | .error e => do
    setVolume Volume7.clear
    fail e

end RusticOs.Fs
