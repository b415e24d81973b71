import RusticOs.Kernel.Machine
import RusticOs.Lib.BitRuns

/-!
# `RusticOs.Kernel.Frames`: the physical frame allocator

Two bitmaps of `n` words hold one bit for each 4 KiB frame: whether the allocator manages it and
whether it is handed out. A frame is named by its physical address.

* `validateMap`: the check of a firmware map (`boot/map.rs`);
* `importMap`: manage the whole pages of its usable entries;
* `reserve`: stop managing every page a byte range touches;
* `allocate`, `allocateContiguousBounded`, `release`: hand out frames and take them back.

The counters are at most the number of frames, so they are `Nat`s that cannot overflow. The limit of
the addresses wraps around for bitmaps of `2 ^ 46` words and more, which no machine can hold.
-/

set_option autoImplicit false

namespace RusticOs.Kernel

open RusticOs.Lib
open Fallible (refuse change)
open RusticOs.Fs (checkedAdd)

/-! ### The firmware map -/

/-- The base, the length and the usability of a region. -/
abbrev MapEntry := UInt64 × UInt64 × Bool

inductive MapError where
  | invalidRange
  | unorderedOrOverlapping
  | tooManyEntries
  | noUsableMemory
  deriving DecidableEq

structure MapSummary where
  entries : Nat
  usableBytes : UInt64
  deriving DecidableEq

inductive RegionError where
  | empty
  | addressOverflow
  deriving DecidableEq

structure MemoryRegion where
  start : UInt64
  stop : UInt64

def MemoryRegion.new (start length : UInt64) : Except RegionError MemoryRegion :=
  if length = 0 then .error .empty
  else
    match checkedAdd start length with
    | some stop => .ok ⟨start, stop⟩
    | none => .error .addressOverflow

/-- Check one entry against the end of the one before it. -/
def validateEntry (s : MapSummary × UInt64) (entry : MapEntry) :
    Except MapError (MapSummary × UInt64) := do
  reject (s.1.entries = 4096) .tooManyEntries
  let region ← (MemoryRegion.new entry.1 entry.2.1).mapError fun _ => .invalidRange
  reject (entry.1 < s.2) .unorderedOrOverlapping
  let usableBytes ← (if entry.2.2 then orRefuse .invalidRange (checkedAdd s.1.usableBytes entry.2.1)
    else .ok s.1.usableBytes)
  pure (⟨s.1.entries + 1, usableBytes⟩, region.stop)

def validateMap (entries : List MapEntry) : Except MapError MapSummary := do
  let s ← entries.foldlM validateEntry (⟨0, 0⟩, 0)
  reject (s.1.usableBytes = 0) .noUsableMemory
  pure s.1

/-! ### The allocator -/

inductive FrameError where
  | invalidMap
  | invalidStorage
  | addressLimit
  | invalidRange
  | notManaged
  | notAllocated
  | inUse
  | exhausted
  deriving DecidableEq

structure FrameAllocator (n : Nat) where
  managed : Vector UInt64 n
  allocated : Vector UInt64 n
  free : Nat
  total : Nat
  cursor : Nat

/-- `u64::div_ceil` by the size of a page. -/
def pagesUp (x : UInt64) : UInt64 :=
  if x % PAGE_SIZE = 0 then x / PAGE_SIZE else x / PAGE_SIZE + 1

namespace FrameAllocator

/-- An allocator that manages nothing, over storage of one size. -/
def new (managed allocated : List UInt64) : Except FrameError (FrameAllocator managed.length) :=
  if managed = [] ∨ managed.length ≠ allocated.length then .error .invalidStorage
  else .ok ⟨Vector.replicate _ 0, Vector.replicate _ 0, 0, 0, 0⟩

variable {n : Nat}

/-- The number of frames that have a bit. -/
def frames (_ : FrameAllocator n) : UInt64 := UInt64.ofNat n * 64

/-- The first address past the frames that have a bit. -/
def addressLimit (a : FrameAllocator n) : UInt64 := a.frames * PAGE_SIZE

/-- The frames `first..last`. -/
def range (first last : UInt64) : List Nat := List.range' first.toNat (last.toNat - first.toNat)

/-- The whole pages of an entry. -/
def wholePages (entry : MapEntry) : List Nat :=
  range (pagesUp entry.1) ((entry.1 + entry.2.1) / PAGE_SIZE)

/-- Manage the whole pages of a usable entry. -/
def importEntry (a : FrameAllocator n) (entry : MapEntry) : FrameAllocator n :=
  if entry.2.2 then
    { a with managed := Bitmap.setAll a.managed (wholePages entry) true
             free := a.free + (wholePages entry).length
             total := a.total + (wholePages entry).length }
  else a

/-- A usable entry that does not end within the bitmaps. -/
def pastLimit (a : FrameAllocator n) (entry : MapEntry) : Bool :=
  entry.2.2 && (checkedAdd entry.1 entry.2.1).all fun stop => decide (stop > a.addressLimit)

/-- Import the whole usable pages of a map. The map is checked before anything changes. -/
def importMap (entries : List MapEntry) : Fallible FrameError (FrameAllocator n) Unit := do
  let a ← Fallible.get
  refuse (a.total ≠ 0) .inUse
  let _ ← Fallible.lift ((validateMap entries).mapError fun _ => .invalidMap)
  refuse (entries.any a.pastLimit = true) .addressLimit
  change fun a => entries.foldl importEntry a

/-- The frames a byte range touches, of those that have a bit. -/
def touched (a : FrameAllocator n) (start stop : UInt64) : List Nat :=
  range (start / PAGE_SIZE) (min (pagesUp stop) a.frames)

/-- Stop managing every page a byte range touches. -/
def reserve (start length : UInt64) : Fallible FrameError (FrameAllocator n) Unit := do
  let a ← Fallible.get
  let stop ← Fallible.lift (orRefuse .invalidRange
    ((checkedAdd start length).filter fun _ => length ≠ 0))
  refuse (∃ frame ∈ a.touched start stop, Bitmap.get a.allocated frame = true) .inUse
  let held := (a.touched start stop).filter fun frame => Bitmap.get a.managed frame
  change fun a =>
    { a with managed := Bitmap.setAll a.managed held false
             free := a.free - held.length
             total := a.total - held.length }

/-- The number of the frame at an address. Its word and mask are those of the bitmap. -/
def locate (a : FrameAllocator n) (address : UInt64) : Except FrameError Nat :=
  if address % PAGE_SIZE ≠ 0 then .error .invalidRange
  else if a.frames ≤ address / PAGE_SIZE then .error .addressLimit
  else .ok (address / PAGE_SIZE).toNat

/-- The frames of a word that are managed and not handed out. -/
def available (a : FrameAllocator n) (index : Nat) : UInt64 :=
  a.managed[index]?.getD 0 &&& ~~~ (a.allocated[index]?.getD 0)

/-- The first word from the cursor on that has an available frame, and its lowest bit. -/
def scan (a : FrameAllocator n) : Option (Nat × Nat) :=
  (List.range n).findSome? fun offset =>
    let index := (a.cursor + offset) % n
    if a.available index ≠ 0 then some (index, trailingZeros (a.available index)) else none

/-- Hand out a frame. -/
def allocate : Fallible FrameError (FrameAllocator n) UInt64 := do
  let a ← Fallible.get
  if a.free = 0 then Fallible.fail .exhausted
  else
    match a.scan with
    | none => Fallible.fail .exhausted
    | some (index, bit) => do
      change fun a =>
        { a with allocated := Bitmap.set a.allocated (index * 64 + bit) true
                 cursor := index
                 free := a.free - 1 }
      return (UInt64.ofNat index * 64 + UInt64.ofNat bit) * PAGE_SIZE

/-- Take a frame back. -/
def release (address : UInt64) : Fallible FrameError (FrameAllocator n) Unit := do
  let a ← Fallible.get
  let frame ← Fallible.lift (a.locate address)
  refuse (¬ Bitmap.get a.managed frame) .notManaged
  refuse (¬ Bitmap.get a.allocated frame) .notAllocated
  change fun a =>
    { a with allocated := Bitmap.set a.allocated frame false
             free := a.free + 1
             cursor := frame / 64 }

/-- The frame is managed and not handed out. -/
def isFree (a : FrameAllocator n) (frame : Nat) : Bool :=
  Bitmap.get a.managed frame && !Bitmap.get a.allocated frame

/-- Hand out one run of frames, of at most `maximum`. -/
def allocateContiguousBounded (count maximum : Nat) :
    Fallible FrameError (FrameAllocator n) UInt64 := do
  let a ← Fallible.get
  refuse (count = 0 ∨ count > maximum ∨ maximum > 128) .invalidRange
  match scanRun a.isFree count (64 * n) 0 0 with
  | none => Fallible.fail .exhausted
  | some first => do
    change fun a =>
      { a with allocated := Bitmap.setAll a.allocated (List.range' first count) true
               free := a.free - count }
    return UInt64.ofNat first * PAGE_SIZE

/-! ### Calls of the owner -/

inductive Call where
  | reserve (start length : UInt64)
  | allocate
  | allocateContiguousBounded (count maximum : Nat)
  | release (address : UInt64)

/-- What a call returns: an address, or nothing. -/
abbrev Answer := Except FrameError (Option UInt64)

def step (a : FrameAllocator n) : Call → FrameAllocator n × Answer
  | .reserve start length =>
    let r := (reserve start length).run a
    (r.2, r.1.map fun _ => none)
  | .allocate =>
    let r := allocate.run a
    (r.2, r.1.map some)
  | .allocateContiguousBounded count maximum =>
    let r := (allocateContiguousBounded count maximum).run a
    (r.2, r.1.map some)
  | .release address =>
    let r := (release address).run a
    (r.2, r.1.map fun _ => none)

end FrameAllocator

end RusticOs.Kernel
