import RusticOs.Fs.Stage7

/-!
# `RusticOs.Fs.Poll7`: pollable publications

The state machine of `volume7/poll.rs`. A publication borrows the owner and its disk until
it settles. Each poll issues at most one command: payload writes, the payload flush, the
inactive generation encoded as a delta over the owner, the metadata flush, the header and
the final flush. A retry check reads the retained snapshot instead. Whether an outstanding
command settles in a poll is the device's choice and is the `settled` argument here.
-/

set_option autoImplicit false

namespace RusticOs.Fs

open RusticOs.Lib

/-! ### State -/

inductive Publication7Phase where
  | retrying | preparing | readyToPublish | settling | committed | cancelled | failed | uncertain
  deriving DecidableEq, Repr

inductive Publication7Cancel where
  | cancelled | tooLate | draining
  deriving DecidableEq, Repr

/-- The command a publication issues next. -/
inductive Step where
  | retryRead (index : Nat)
  | payloadWrite (index : Nat)
  | payloadFlush
  | nodesWrite (index : Nat)
  | mapWrite (index : Nat)
  | receiptsWrite (index : Nat)
  | metadataFlush
  | headerWrite
  | headerFlush
  | done
  deriving DecidableEq, Repr

/-- One retry check or publication, with the world it borrows. -/
structure PollPublication7 where
  world : World7
  candidate : Option Candidate7
  bytes : Option (List UInt8)
  retryRecord : Option Record7
  retryMatches : Bool
  retryChecksum : UInt32
  payloadOffset : Nat
  step : Step
  phase : Publication7Phase
  outcome : Option Record7
  error : Option Error
  pending : Bool
  stopping : Bool
  ioStarted : Bool
  blockPrepared : Bool
  block : Block
  nodesChecksum : UInt32
  mapChecksum : UInt32
  receiptsChecksum : UInt32
  publishedHeader : Option Header7

/-- The world with the owner's fence set or lifted. -/
def World7.setFenced (w : World7) (fenced : Bool) : World7 :=
  { w with volume := { w.volume with fenced } }

namespace PollPublication7

/-- A guard that has issued nothing. -/
def fresh (world : World7) (step : Step) (phase : Publication7Phase) : PollPublication7 :=
  { world, candidate := none, bytes := none, retryRecord := none, retryMatches := true
    retryChecksum := crcInit, payloadOffset := 0, step, phase, outcome := none, error := none
    pending := false, stopping := false, ioStarted := false, blockPrepared := false
    block := zeroBlock, nodesChecksum := crcInit, mapChecksum := crcInit
    receiptsChecksum := crcInit, publishedHeader := none }

/-- Publish a candidate, writing `bytes` to its added runs first when there are any. -/
def publish (world : World7) (candidate : Candidate7) (bytes : Option (List UInt8)) :
    PollPublication7 :=
  let step := match bytes with
    | some _ => if candidate.added.addedSectors ≠ 0 then Step.payloadWrite 0 else .payloadFlush
    | none => .nodesWrite 0
  { fresh (world.setFenced true) step .preparing with candidate := some candidate, bytes }

/-- Publish a candidate whose payload a stage already wrote. -/
def staged (world : World7) (candidate : Candidate7) : PollPublication7 :=
  { publish world candidate none with step := .payloadFlush }

/-- Check `bytes` against a retained snapshot. -/
def retry (world : World7) (record : Record7) (bytes : List UInt8) : PollPublication7 :=
  { fresh (world.setFenced true) (.retryRead 0) .retrying with
    bytes := some bytes, retryRecord := some record }

/-- A publication that has settled with a retained record. -/
def replay (world : World7) (record : Record7) : PollPublication7 :=
  { fresh world .done .committed with outcome := some record }

/-- The durable record, visible once committed. -/
def result (p : PollPublication7) : Option Record7 :=
  if p.phase = .committed then p.outcome else none

/-! ### Delta encoding -/

/-- The node a candidate publishes in a slot. -/
def candidateNode (c : Candidate7) (nodes : Nodes7) (index : Fin 256) : Node7 :=
  match c.nodeUpdate with
  | some (changed, node) => if changed = index then node else nodes[index]
  | none => nodes[index]

def encodeNodes (c : Candidate7) (v : Volume7) (sector : Nat) : Except Error Block := do
  let encoded ← (((List.finRange 256).drop (4 * sector)).take 4).mapM fun index =>
    (candidateNode c v.nodes index).encode
  pure (Bytes.pack 512 (encoded.flatMap Vector.toList))

/-- The bits of runs that fall into one word. -/
def wordSectors (wordIndex : Nat) (runs : List Extent) : List Nat :=
  runs.flatMap fun run =>
    let first := max run.start.toNat (wordIndex * 64)
    List.range' first (min run.endSector.toNat (wordIndex * 64 + 64) - first)

def mutateWord (word : UInt64) (wordIndex : Nat) (runs : List Extent) (allocated : Bool) :
    UInt64 :=
  (wordSectors wordIndex runs).foldl (fun word sector =>
    if allocated then word ||| bitMask (sector % 64) else word &&& ~~~ bitMask (sector % 64)) word

def encodeMap (c : Candidate7) (v : Volume7) (sector : Nat) : Block :=
  Bytes.pack 512 ((((List.finRange 2048).drop (64 * sector)).take 64).flatMap fun index =>
    le64 (mutateWord (mutateWord v.map[index] index.val c.added.runs true) index.val
      c.released false))

def encodeReceipts (c : Candidate7) (v : Volume7) (sector : Nat) : Except Error Block := do
  let block ← (List.finRange 8).foldlM (fun block index =>
    copyReceipt sector block index.val
      (if index = c.recordSlot then some c.record else v.records[index])) (zeros 512)
  pure (Bytes.pack 512 block)

/-! ### Commands -/

/-- The bytes of logical sector `index` of the borrowed payload. -/
def payloadSlice (bytes : List UInt8) (index : Nat) : List UInt8 := slice bytes (512 * index) 512

/-- Encode the block of the next command once, and count it into its region's checksum. -/
def prepareBlock (p : PollPublication7) : Except Error PollPublication7 :=
  if p.blockPrepared then .ok p
  else
    match p.step with
    | .payloadWrite index => do
      let c ← orRefuse .corrupt p.candidate
      let _ ← orRefuse .corrupt (runSector c.added.runs index)
      let bytes ← orRefuse .corrupt p.bytes
      pure { p with block := payloadBlock (payloadSlice bytes index), blockPrepared := true }
    | .nodesWrite index => do
      let c ← orRefuse .corrupt p.candidate
      let block ← encodeNodes c p.world.volume index
      pure { p with
        block, nodesChecksum := crcUpdate p.nodesChecksum block.toList, blockPrepared := true }
    | .mapWrite index => do
      let c ← orRefuse .corrupt p.candidate
      let block := encodeMap c p.world.volume index
      pure { p with
        block, mapChecksum := crcUpdate p.mapChecksum block.toList, blockPrepared := true }
    | .receiptsWrite index => do
      let c ← orRefuse .corrupt p.candidate
      let block ← encodeReceipts c p.world.volume index
      pure { p with
        block, receiptsChecksum := crcUpdate p.receiptsChecksum block.toList
        blockPrepared := true }
    | .headerWrite => do
      let header ← orRefuse .corrupt p.publishedHeader
      let block ← header.encode
      pure { p with block, blockPrepared := true }
    | .retryRead _ | .payloadFlush | .metadataFlush | .headerFlush =>
      .ok { p with blockPrepared := true }
    | .done => .error .invalid

/-- The generation a publication writes. -/
def target (p : PollPublication7) : UInt8 := p.world.volume.header.generation ^^^ 1

/-- The command of the current step. `none` where the source would panic or has nothing to
issue. -/
def command (p : PollPublication7) : Option (Command Block) :=
  match p.step with
  | .retryRead index => do
    let record ← p.retryRecord
    let sector ← runSector record.runs index
    pure (.read (payloadSector + sector))
  | .payloadWrite index => do
    let c ← p.candidate
    let sector ← runSector c.added.runs index
    pure (.write (payloadSector + sector) p.block)
  | .payloadFlush | .metadataFlush | .headerFlush => some .flush
  | .nodesWrite index => some (.write (nodesSector p.target + index) p.block)
  | .mapWrite index => some (.write (mapSector p.target + index) p.block)
  | .receiptsWrite index => some (.write (receiptsSector p.target + index) p.block)
  | .headerWrite => do
    let header ← p.publishedHeader
    pure (.write (headerSector header.generation) p.block)
  | .done => none

/-- Issue or poll the current command. A read leaves the sector in the scratch block. -/
def pollCommand (p : PollPublication7) (settled : Bool) :
    Poll (Except Error Unit) × PollPublication7 :=
  match p.command with
  | none => (.ready (.ok ()), p)
  | some c =>
    match Device.pollCommand settled c p.world.disk with
    | (r, disk) =>
      let q := { p with world := { p.world with disk } }
      match r, c with
      | .ready (.ok ()), .read sector =>
        (r, { q with block := p.world.disk.medium.view sector })
      | _, _ => (r, q)

/-! ### Settlement -/

def markFailure (p : PollPublication7) (e : Error) (fence : Bool) :
    Poll (Except Error Publication7Phase) × PollPublication7 :=
  (.ready (.error e),
    { p with
      pending := false
      phase := if fence then .uncertain else .failed
      world := p.world.setFenced fence
      error := some e })

/-- Move on to a step and report its phase. -/
def goto (p : PollPublication7) (step : Step) (phase : Publication7Phase) :
    Poll (Except Error Publication7Phase) × PollPublication7 :=
  (.ready (.ok phase), { p with step, phase })

def retrySectorCount (record : Record7) : Nat :=
  (record.runs.map fun run => run.sectors.toNat).sum

/-- Decide a retry check whose snapshot has been read. -/
def finishRetry (p : PollPublication7) (record : Record7) :
    Poll (Except Error Publication7Phase) × PollPublication7 :=
  if ~~~ p.retryChecksum ≠ record.payloadCrc32 then p.markFailure .corrupt true
  else if p.retryMatches = false then p.markFailure .idempotencyConflict false
  else (.ready (.ok .committed),
    { p with outcome := some record, phase := .committed, world := p.world.setFenced false })

/-- Compare one snapshot sector with the supplied bytes. -/
def completeRetryRead (p : PollPublication7) (index : Nat) (record : Record7)
    (bytes : List UInt8) : Poll (Except Error Publication7Phase) × PollPublication7 :=
  let count := min (bytes.length - p.payloadOffset) 512
  let stored := p.block.toList.take count
  let q := { p with
    retryChecksum := crcUpdate p.retryChecksum stored
    retryMatches := p.retryMatches && stored == slice bytes p.payloadOffset count
    payloadOffset := p.payloadOffset + count }
  if index + 1 = retrySectorCount record then q.finishRetry record
  else q.goto (.retryRead (index + 1)) .retrying

/-- The header a publication writes once its generation is durable. -/
def nextHeader (p : PollPublication7) : Header7 :=
  let header := p.world.volume.header
  { header with
    sequence := header.sequence + 1
    generation := header.generation ^^^ 1
    nodesChecksum := ~~~ p.nodesChecksum
    mapChecksum := ~~~ p.mapChecksum
    receiptsChecksum := ~~~ p.receiptsChecksum }

/-- The current command has settled. -/
def completeCommand (p : PollPublication7) :
    Poll (Except Error Publication7Phase) × PollPublication7 :=
  let p := { p with pending := false, blockPrepared := false }
  if p.stopping then
    (.ready (.ok .cancelled), { p with phase := .cancelled, world := p.world.setFenced false })
  else
    match p.step, p.candidate, p.retryRecord, p.bytes, p.publishedHeader with
    | .retryRead index, _, some record, some bytes, _ => p.completeRetryRead index record bytes
    | .payloadWrite index, some c, _, _, _ =>
      if index + 1 = c.added.addedSectors then p.goto .payloadFlush .preparing
      else p.goto (.payloadWrite (index + 1)) .preparing
    | .payloadFlush, _, _, _, _ => p.goto (.nodesWrite 0) .preparing
    | .nodesWrite index, _, _, _, _ =>
      p.goto (if index + 1 = 64 then .mapWrite 0 else .nodesWrite (index + 1)) .preparing
    | .mapWrite index, _, _, _, _ =>
      p.goto (if index + 1 = 32 then .receiptsWrite 0 else .mapWrite (index + 1)) .preparing
    | .receiptsWrite index, _, _, _, _ =>
      p.goto (if index + 1 = 4 then .metadataFlush else .receiptsWrite (index + 1)) .preparing
    | .metadataFlush, _, _, _, _ =>
      { p with publishedHeader := some p.nextHeader }.goto .headerWrite .readyToPublish
    | .headerWrite, _, _, _, _ => p.goto .headerFlush .settling
    | .headerFlush, some c, _, _, some header =>
      (.ready (.ok .committed),
        { p with
          world := { p.world with
            volume := { adoptCandidate p.world.volume c header with fenced := false } }
          outcome := some c.record
          phase := .committed
          step := .done })
    | _, _, _, _, _ => (.ready (.ok p.phase), p)

/-- The phase of a publication whose command is outstanding. -/
def stagePhase (p : PollPublication7) : Publication7Phase :=
  match p.step with
  | .retryRead _ => .retrying
  | .headerWrite | .headerFlush => .settling
  | .done => p.phase
  | _ => .preparing

/-- Issue the prepared command or poll it again. -/
def pollPrepared (p : PollPublication7) (settled : Bool) :
    Poll (Except Error Publication7Phase) × PollPublication7 :=
  let p := { p with pending := true, ioStarted := true, phase := .uncertain }
  match p.pollCommand settled with
  | (.pending, q) => (.pending, { q with phase := q.stagePhase })
  | (.ready (.error _), q) => q.markFailure .uncertain true
  | (.ready (.ok _), q) => q.completeCommand

/-- Poll an unsettled publication. -/
def pollActive (p : PollPublication7) (settled : Bool) :
    Poll (Except Error Publication7Phase) × PollPublication7 :=
  match p.step, p.retryRecord with
  | .retryRead _, some record =>
    if retrySectorCount record = 0 then p.finishRetry record
    else
      match p.prepareBlock with
      | .error e => p.markFailure e p.ioStarted
      | .ok q => q.pollPrepared settled
  | _, _ =>
    match p.prepareBlock with
    | .error e => p.markFailure e p.ioStarted
    | .ok q => q.pollPrepared settled

def pollAdvance (p : PollPublication7) (settled : Bool) :
    Poll (Except Error Publication7Phase) × PollPublication7 :=
  match p.phase with
  | .committed | .cancelled => (.ready (.ok p.phase), p)
  | .failed | .uncertain => (.ready (.error (p.error.getD .uncertain)), p)
  | _ => p.pollActive settled

/-- Stop before the header is submitted. An outstanding command must settle first. -/
def abortBeforeHeader (p : PollPublication7) :
    Except Error Publication7Cancel × PollPublication7 :=
  match p.phase with
  | .settling | .committed => (.ok .tooLate, p)
  | .uncertain | .failed => (.error (p.error.getD .uncertain), p)
  | .cancelled => (.ok .cancelled, p)
  | .retrying | .preparing | .readyToPublish =>
    if p.pending then (.ok .draining, { p with stopping := true })
    else (.ok .cancelled, { p with phase := .cancelled, world := p.world.setFenced false })

/-- Give the borrowed world back. -/
def drop (p : PollPublication7) : World7 :=
  if p.pending ∨ p.phase = .settling then p.world.setFenced true
  else if p.phase = .preparing ∨ p.phase = .readyToPublish ∨ p.phase = .retrying then
    p.world.setFenced false
  else p.world

end PollPublication7

end RusticOs.Fs
