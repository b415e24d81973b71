import RusticOs.Sdk.Region

/-!
# `RusticOs.Sdk.Allocator`: the first-fit block allocator

`memory/allocator.rs`: blocks tile a region, each behind a header with its own size, the size of
the block before it, and a word that packs a generation and a free or used mark. `alloc` takes
the first free block that fits, cutting a block off in front for alignment and one off behind
when enough is left; `free` merges a block with its free neighbours; `extend` and `truncate`
move the end of the region.

The arithmetic is that of the build: where the source adds and subtracts without a check, a
debug build panics on overflow and a release build wraps. A walk over the blocks that has not
ended after as many turns as there are places for a header does not end.
-/

set_option autoImplicit false

namespace RusticOs.Sdk

open RusticOs.Lib
open RusticOs.Fs (checkedAdd)
open RusticOs.Kernel (isPowerOfTwo)

def FREE : UInt64 := 0
def USED : UInt64 := 1

/-- Low bit of the third header word; the generation occupies the rest. -/
def STATE : UInt64 := 1

/-- Free or used marker of a block. -/
def Header.mark (h : Header) : UInt64 := h.state &&& STATE

/-- Generation of the allocation that occupies a block, `0` while it is free. -/
def Header.generation (h : Header) : UInt64 := h.state >>> 1

/-- Packs a generation and a state marker into the third header word. -/
def tag (generation state : UInt64) : UInt64 := (generation <<< 1) ||| state

inductive AllocError where
  | request | empty | exhausted | unowned | doubleFree | region
  deriving DecidableEq

/-- A handle on a live allocation. -/
structure Block where
  address : UInt64
  size : UInt64
  generation : UInt64
  deriving DecidableEq

structure Allocator where
  region : Region
  used : UInt64
  live : UInt64
  peak : UInt64
  /-- Generation the next allocation receives. -/
  generation : UInt64

namespace Allocator

/-- Largest alignment a single allocation may request. -/
def MAX_ALIGN : UInt64 := 4096

/-- A computation over an allocator. -/
abbrev M := Fallible (Halt AllocError) Allocator

/-- Put one free block over a region. -/
def initialise (region : Region) : Except AllocError Allocator :=
  if region.len < HEADER then .error .region
  else match region.setHeader 0 ⟨region.len, 0, tag 0 FREE⟩ with
    | none => .error .region
    | some region => .ok ⟨region, 0, 0, 0, 1⟩

section
variable (b : Build)

/-! ### Walking the blocks -/

/-- The header at `offset` and the offset of the block after it; `none` at the end of the region
and at a malformed size. -/
def step (s : Allocator) (offset : UInt64) :
    Except (Halt AllocError) (Option (UInt64 × Header)) := do
  let top ← b.add offset HEADER
  if s.region.len < top then return none
  else match s.region.header offset with
    | none => return none
    | some header =>
      if header.size < HEADER then return none
      else do
        let next ← b.add offset header.size
        if s.region.len < next then return none else return some (next, header)

/-- The blocks from `offset` on, each shown to `visit`, until it is done. -/
def walk {β : Type} (s : Allocator)
    (visit : UInt64 → UInt64 → Header → β → Except (Halt AllocError) (ForInStep β)) :
    Nat → UInt64 → β → Except (Halt AllocError) β
  | 0, _, _ => .error .looping
  | turns + 1, offset, acc => do
    match ← s.step b offset with
    | none => return acc
    | some (next, header) =>
      match ← visit offset next header acc with
      | .done acc => return acc
      | .yield acc => s.walk visit turns next acc

/-- A walk over all blocks. A header lies at a multiple of `ALIGN`, so one that goes on longer
has come back to an offset. -/
def walkAll {β : Type} (s : Allocator)
    (visit : UInt64 → UInt64 → Header → β → Except (Halt AllocError) (ForInStep β)) (acc : β) :
    Except (Halt AllocError) β :=
  s.walk b visit (s.region.len.toNat / 8 + 1) 0 acc

def last (s : Allocator) : Except (Halt AllocError) (Option (UInt64 × Header)) :=
  s.walkAll b (fun offset _ header _ => .ok (.yield (some (offset, header)))) none

/-- Largest single free run, bookkeeping included; `0` when nothing is free. -/
def largestFree (s : Allocator) : Except (Halt AllocError) UInt64 :=
  s.walkAll b (fun _ _ header largest =>
    .ok (.yield (if header.mark = FREE ∧ largest < header.size then header.size else largest))) 0

def freeBytes (s : Allocator) : Except (Halt AllocError) UInt64 := b.sub s.region.len s.used

/-! ### Reading and writing headers -/

def readAt (offset : UInt64) : M Header := do
  let s ← Fallible.get
  .check (orRefuse .region (s.region.header offset))

def writeAt (offset : UInt64) (header : Header) : M Unit := do
  let s ← Fallible.get
  let region ← .check (orRefuse .region (s.region.setHeader offset header))
  .change fun s => { s with region := region }

/-- Record `size` as the predecessor of the block that starts at `offset`. -/
def relink (offset size : UInt64) : M Unit := do
  let s ← Fallible.get
  let top ← .lift (b.add offset HEADER)
  if s.region.len < top then pure ()
  else do
    let header ← readAt offset
    writeAt offset { header with prev := size }

/-! ### Allocating -/

/-- Push a gap forward until it is none or can carry a header. -/
def pushGap (align : UInt64) : Nat → UInt64 → Except (Halt AllocError) (Option UInt64)
  | 0, _ => .error .looping
  | turns + 1, gap =>
    if gap ≠ 0 ∧ gap < HEADER then
      match checkedAdd gap align with
      | none => .ok none
      | some gap => pushGap align turns gap
    else .ok (some gap)

/-- Bytes that must precede a block at `block` so that its payload reaches `align`. -/
def leadingGap (block align : UInt64) : Except (Halt AllocError) (Option UInt64) :=
  match (checkedAdd block HEADER).bind (checkedNextMultipleOf · align) with
  | none => .ok none
  | some payload => do
    let gap ← b.sub payload HEADER
    let gap ← b.sub gap block
    pushGap align HEADER.toNat gap

/-- Whether the block at `offset` is free and has room, and the gap to leave in front. -/
def fits (s : Allocator) (need align offset : UInt64) (header : Header) :
    Except (Halt AllocError) (Option UInt64) :=
  if header.mark = FREE then do
    let block ← b.add s.region.base offset
    match ← leadingGap b block align with
    | none => return none
    | some gap =>
      let front ← b.add gap HEADER
      let total ← b.add front need
      if total ≤ header.size then return some gap else return none
  else return none

/-- The first block that fits, with its offset and the gap to leave in front. -/
def find (s : Allocator) (need align : UInt64) :
    Except (Halt AllocError) (Option (UInt64 × Header × UInt64)) :=
  s.walkAll b (fun offset _ header _ => do
    match ← s.fits b need align offset header with
    | some gap => return .done (some (offset, header, gap))
    | none => return .yield none) none

/-- Leave a gap in front: the start, the size and the predecessor of what remains. -/
def cutFront (offset : UInt64) (header : Header) (gap : UInt64) :
    M (UInt64 × UInt64 × UInt64) :=
  if 0 < gap then do
    writeAt offset ⟨gap, header.prev, tag 0 FREE⟩
    let start ← .lift (b.add offset gap)
    let block ← .lift (b.sub header.size gap)
    return (start, block, gap)
  else return (offset, header.size, header.prev)

/-- Give back what is left behind `want` bytes if it can carry a header: the size of the block
and of the last piece. -/
def cutBack (start block want : UInt64) : M (UInt64 × UInt64) := do
  let least ← .lift (b.add want HEADER)
  if least ≤ block then do
    let behind ← .lift (b.add start want)
    let rest ← .lift (b.sub block want)
    writeAt behind ⟨rest, want, tag 0 FREE⟩
    return (want, rest)
  else return (block, block)

/-- The generation after one. -/
def nextGeneration (generation : UInt64) : UInt64 :=
  let mask : UInt64 := (~~~ (0 : UInt64)) >>> (1 : UInt64)
  let next : UInt64 := (generation + 1) &&& mask
  if next = 0 then 1 else next

/-- Charge a block to the totals and take its generation. -/
def charge (block : UInt64) : M Unit := do
  let s ← Fallible.get
  let used ← .lift (b.add s.used block)
  let live ← .lift (b.add s.live 1)
  .change fun s =>
    { s with
      used := used
      live := live
      generation := nextGeneration s.generation
      peak := if s.peak < used then used else s.peak }

def alloc (size align : UInt64) : M Block := do
  .refuse (size = 0 ∨ ¬ isPowerOfTwo align ∨ MAX_ALIGN < align) (.refused .request)
  let need ← .check (orRefuse .request (checkedNextMultipleOf size ALIGN))
  let s ← Fallible.get
  let found ← .lift (s.find b need align)
  let free ← .lift (s.freeBytes b)
  let (offset, header, gap) ← .check (orRefuse (if free = 0 then .empty else .exhausted) found)
  let stop ← .lift (b.add offset header.size)
  let (start, block, prev) ← cutFront b offset header gap
  let want ← .lift (b.add HEADER need)
  let (block, last) ← cutBack b start block want
  writeAt start ⟨block, prev, tag s.generation USED⟩
  relink b stop last
  charge b block
  let payload ← .lift (b.add start HEADER)
  let address ← .check (orRefuse .region (s.region.pointer payload))
  return ⟨address, size, s.generation⟩

/-! ### Handles -/

/-- Whether the block at `offset`, the one around `target`, is the one a handle names. -/
def owns (block : Block) (target offset : UInt64) (header : Header) :
    Except (Halt AllocError) (Except AllocError UInt64) :=
  if header.mark = FREE then return .error .doubleFree
  else do
    let payload ← b.add offset HEADER
    if target ≠ payload then return .error .unowned
    else do
      let room ← b.sub header.size HEADER
      if block.size ≤ room ∧ block.generation = header.generation then return .ok offset
      else return .error .unowned

/-- Offset of the block that owns a handle. -/
def startOf (s : Allocator) (block : Block) : Except (Halt AllocError) UInt64 :=
  if block.address < s.region.base then .error (.refused .unowned)
  else do
    let target ← b.sub block.address s.region.base
    if s.region.len ≤ target then .error (.refused .unowned)
    else do
      let found ← s.walkAll b (fun offset next header acc =>
        if target < next then do
          let owner ← owns b block target offset header
          return .done owner
        else return .yield acc) (.error .unowned)
      found.mapError .refused

/-- Take in a free block behind. -/
def mergeNext (offset : UInt64) (header : Header) : M Header := do
  let s ← Fallible.get
  let next ← .lift (b.add offset header.size)
  let top ← .lift (b.add next HEADER)
  if top ≤ s.region.len then do
    let following ← readAt next
    if following.mark = FREE then do
      let size ← .lift (b.add header.size following.size)
      writeAt offset { header with size := size }
      return { header with size := size }
    else return header
  else return header

/-- Go into a free block in front. -/
def mergePrevious (offset : UInt64) (header : Header) : M (UInt64 × Header) :=
  if header.prev ≠ 0 then do
    let previous ← .lift (b.sub offset header.prev)
    let merged ← readAt previous
    if merged.mark = FREE then do
      let size ← .lift (b.add merged.size header.size)
      writeAt previous { merged with size := size }
      return (previous, { merged with size := size })
    else return (offset, header)
  else return (offset, header)

/-- Merge a just-freed block with a free next and a free previous neighbour. -/
def coalesce (offset : UInt64) : M Unit := do
  let header ← readAt offset
  let header ← mergeNext b offset header
  let (start, header) ← mergePrevious b offset header
  let stop ← .lift (b.add start header.size)
  relink b stop header.size

/-- Take a block off the totals. -/
def discharge (block : UInt64) : M Unit := do
  let s ← Fallible.get
  let used ← .lift (b.sub s.used block)
  let live ← .lift (b.sub s.live 1)
  .change fun s => { s with used := used, live := live }

def free (block : Block) : M Unit := do
  let s ← Fallible.get
  let offset ← .lift (s.startOf b block)
  let header ← readAt offset
  writeAt offset { header with state := tag 0 FREE }
  discharge b header.size
  coalesce b offset

/-- The place of a block's bytes, as `bytes` and `bytes_mut` find it. -/
def payload (block : Block) : M Nat := do
  let s ← Fallible.get
  let offset ← .lift (s.startOf b block)
  let start ← .lift (b.add offset HEADER)
  .check (orRefuse .region (s.region.slice start block.size))

def bytes (block : Block) : M (List UInt8) := do
  let place ← payload b block
  let s ← Fallible.get
  return s.region.memory.read place block.size.toNat

/-- Obtain a block's bytes with `bytes_mut` and leave in them what `content` holds there. -/
def bytesMut (block : Block) (content : Memory) : M Unit := do
  let place ← payload b block
  .change fun s =>
    { s with region := { s.region with
        memory := s.region.memory.splice place block.size.toNat content } }

/-! ### The end of the region -/

/-- The header `extend` writes and where. -/
def appended (s : Allocator) (extra : UInt64) : Except (Halt AllocError) (UInt64 × Header) := do
  match ← s.last b with
  | some (offset, header) =>
    if header.mark = FREE then
      match checkedAdd header.size extra with
      | none => .error (.refused .region)
      | some size => return (offset, { header with size := size })
    else return (s.region.len, ⟨extra, header.size, tag 0 FREE⟩)
  | none => return (s.region.len, ⟨extra, 0, tag 0 FREE⟩)

/-- Append `extra` owned bytes directly after the region. -/
def extend (extra : UInt64) : M Unit := do
  .refuse (extra < HEADER ∨ extra % ALIGN ≠ 0) (.refused .region)
  let s ← Fallible.get
  let grown ← .check (orRefuse .region (checkedAdd s.region.len extra))
  let (offset, header) ← .lift (s.appended b extra)
  .refuse (offset % ALIGN ≠ 0 ∨ ¬ (checkedAdd offset HEADER).any (· ≤ grown)) (.refused .region)
  let region ← .lift (s.region.grow b extra)
  .change fun s => { s with region := region }
  writeAt offset header

/-- The multiple of `granularity` at which the free block at `offset` is cut. Either it disappears
entirely, or what is left of it can still carry a header. -/
def cutAt (offset granularity : UInt64) : Except (Halt AllocError) (Option UInt64) :=
  if offset % granularity = 0 then return some offset
  else do
    let least ← b.add offset HEADER
    return checkedNextMultipleOf least granularity

/-- The length the region may shrink to in steps of `granularity` without touching a live block. -/
def truncationTarget (s : Allocator) (granularity : UInt64) :
    Except (Halt AllocError) UInt64 :=
  if ¬ isPowerOfTwo granularity then return s.region.len
  else do
    match ← s.last b with
    | none => return s.region.len
    | some (offset, header) =>
      if header.mark ≠ FREE then return s.region.len
      else do
        match ← cutAt b offset granularity with
        | none => return s.region.len
        | some target => if s.region.len ≤ target then return s.region.len else return target

/-- Keep `remainder` bytes of the free block at `offset`. -/
def keepRemainder (offset : UInt64) (header : Header) (remainder : UInt64) : M Unit :=
  if remainder ≠ 0 then do
    .refuse (remainder < HEADER) (.refused .region)
    writeAt offset { header with size := remainder }
  else pure ()

/-- Give up the bytes after `len`. -/
def truncate (len : UInt64) : M Unit := do
  .refuse (len % ALIGN ≠ 0) (.refused .region)
  let s ← Fallible.get
  if len = s.region.len then pure ()
  else do
    let found ← .lift (s.last b)
    let (offset, header) ← .check (orRefuse .region found)
    .refuse (s.region.len < len ∨ header.mark ≠ FREE ∨ len < offset) (.refused .region)
    let remainder ← .lift (b.sub len offset)
    keepRemainder offset header remainder
    let s ← Fallible.get
    let region ← .check (orRefuse .region (s.region.shrink len))
    .change fun s => { s with region := region }

end

end Allocator

end RusticOs.Sdk
