import RusticOs.Fs.Validation7

/-!
# `RusticOs.Fs.Payload7`: planning, writing and verifying payload runs

`volume7/payload.rs`: the planner that picks at most eight free runs, the walk from a
logical sector of a file to its payload sector, and the streaming CRC check of live files
and retained snapshots. The planner's two inner loops carry the number of sectors left as
fuel, so both stop at the end of the payload region.
-/

set_option autoImplicit false

namespace RusticOs.Fs

open RusticOs.Lib

/-! ### Plans -/

/-- The runs chosen for one payload: the first `used` of `extents`. -/
structure PayloadPlan where
  extents : Vector Extent 8
  used : Nat
  deriving DecidableEq

namespace PayloadPlan

def empty : PayloadPlan := ⟨Vector.replicate 8 Extent.zero, 0⟩

/-- The used runs. -/
def runs (plan : PayloadPlan) : List Extent := plan.extents.toList.take plan.used

/-- Sectors of the used runs. -/
def addedSectors (plan : PayloadPlan) : Nat := (plan.runs.map fun run => run.sectors.toNat).sum

/-- The plan with runs `chosen` in its first slots. -/
def ofRuns (chosen : List Extent) : PayloadPlan :=
  ⟨fill Extent.zero 8 chosen, chosen.length⟩

end PayloadPlan

/-- The first sector from `cursor` on whose allocation bit differs from `used`, or the end
of the region. -/
def skipSectors (map : SpaceMap) (used : Bool) : Nat → Nat → Nat
  | 0, cursor => cursor
  | left + 1, cursor =>
    if Bitmap.get map cursor = used then skipSectors map used left (cursor + 1) else cursor

/-- The free run found between `start` and `stop` replaces the best one so far when it is
longer and touches no run already selected. -/
def betterRun (selected : List Extent) (start stop : Nat) (best : Option Extent) :
    Option Extent :=
  if stop - start > 0
      ∧ ¬ (selected.any fun run => start < run.endSector.toNat && run.start.toNat < stop)
      ∧ best.all (fun current => decide (stop - start > current.sectors.toNat)) then
    some ⟨UInt64.ofNat start, UInt64.ofNat (stop - start)⟩
  else best

/-- The longest free run that touches no selected one, scanning from `cursor`. -/
def bestRun (map : SpaceMap) (selected : List Extent) : Nat → Nat → Option Extent → Option Extent
  | 0, _, best => best
  | fuel + 1, cursor, best =>
    if cursor < dataSectors then
      let start := skipSectors map true (dataSectors - cursor) cursor
      let stop := skipSectors map false (dataSectors - start) start
      bestRun map selected fuel stop (betterRun selected start stop best)
    else best

/-- Select runs until `remaining` sectors are covered. -/
def planRuns (map : SpaceMap) : Nat → Nat → List Extent → Except Error (List Extent)
  | 0, _, _ => .error .full
  | fuel + 1, remaining, chosen =>
    if remaining = 0 then .ok chosen
    else do
      reject (chosen.length = 8) .full
      let best ← orRefuse .full (bestRun map chosen dataSectors 0 none)
      let sectors := min best.sectors.toNat remaining
      planRuns map fuel (remaining - sectors)
        (chosen ++ [⟨best.start, UInt64.ofNat sectors⟩])

/-- Choose at most eight free runs for `length` bytes. -/
def planPayload (map : SpaceMap) (length : Nat) : Except Error PayloadPlan := do
  reject (length > maxFileBytes) .size
  let chosen ← planRuns map 9 (sectorsFor length) []
  pure (PayloadPlan.ofRuns chosen)

/-- Set or clear the allocation bits of runs. -/
def mutateMap (map : SpaceMap) (runs : List Extent) (allocated : Bool) : SpaceMap :=
  Bitmap.setAll map (runSectors runs) allocated

/-- Mark a plan's runs used. -/
def reservePlan (map : SpaceMap) (plan : PayloadPlan) : SpaceMap := mutateMap map plan.runs true

/-- The payload sector that holds logical sector `index` of `runs`. -/
def runSector : List Extent → Nat → Option Nat
  | [], _ => none
  | run :: rest, index =>
    if index < run.sectors.toNat then some (run.start.toNat + index)
    else runSector rest (index - run.sectors.toNat)

/-- Some retained snapshot owns a sector of the run. -/
def retainedOwnsRun (records : Records7) (run : Extent) : Bool :=
  records.toList.any fun record =>
    record.any fun record => record.runs.any fun owned => decide (run.Overlaps owned)

/-! ### Stored bytes -/

/-- The block that stores at most 512 bytes, padded with zeros. -/
def payloadBlock (bytes : List UInt8) : Block := Bytes.pack 512 bytes

/-- The bytes of a payload of `length` bytes in `runs`. -/
def payload (img : Nat → Block) (runs : List Extent) (length : Nat) : List UInt8 :=
  ((runSectors runs).flatMap fun s => (img (payloadSector + s)).toList).take length

/-- The streaming check: the bytes left and the running CRC after reading sectors. -/
def verifySectors : List Nat → Nat → UInt32 → Fallible Error Disk (Nat × UInt32)
  | [], remaining, checksum => pure (remaining, checksum)
  | sector :: rest, remaining, checksum =>
    if remaining = 0 then verifySectors rest 0 checksum
    else do
      let block ← Device.readSector (payloadSector + sector)
      let count := min remaining 512
      verifySectors rest (remaining - count) (crcUpdate checksum (block.toList.take count))

def verifyPayload (runs : List Extent) (length expected : UInt32) :
    Fallible Error Disk Unit := do
  let (remaining, checksum) ← verifySectors (runSectors runs) length.toNat crcInit
  Fallible.refuse (remaining ≠ 0 ∨ ~~~ checksum ≠ expected) .corrupt

/-- Every live file and every retained snapshot has its CRC. -/
def verifyPayloads (nodes : Nodes7) (records : Records7) : Fallible Error Disk Unit := do
  let _ ← nodes.toList.mapM fun node =>
    if node.kind = .file then verifyPayload node.runs node.length node.payloadCrc32
    else pure ()
  let _ ← records.toList.mapM fun record =>
    match record with
    | none => pure ()
    | some record => verifyPayload record.runs record.length record.payloadCrc32

end RusticOs.Fs
