import RusticOs.Kernel.Machine

/-!
# `RusticOs.Kernel.Elf`: the executables the kernel accepts

`Image.parse` reads a static ELF64 executable out of a byte string (`kernel/src/process/elf.rs`):
the file header, and then the program headers one after another with the end of the last load,
the pages used so far and the loads so far. A computation here is refused with one of the parser's
errors or panics where an operation of the source would overflow or leave a slice.
-/

set_option autoImplicit false

namespace RusticOs.Kernel.Elf

open RusticOs.Lib RusticOs.Kernel
open RusticOs.Fs (checkedAdd)

def MAX_SEGMENTS : Nat := 8
def MAX_BYTES : Nat := 1024 * 1024
def MAX_PAGES : UInt64 := 256
def STACK_TOP : UInt64 := 0x80000000
def STACK_PAGES : UInt64 := 16
def STACK_GUARD : UInt64 := STACK_TOP - (STACK_PAGES + 1) * PAGE_SIZE

/-- The heap window of a process (`kernel/src/process/heap.rs`). -/
def WINDOW_BASE : UInt64 := 0x10000000
def WINDOW_PAGES : UInt64 := 128
def WINDOW_END : UInt64 := WINDOW_BASE + WINDOW_PAGES * PAGE_SIZE

inductive Error where
  | header
  | bounds
  | unsupported
  | segment
  | overlap
  | budget
  | entry
  deriving DecidableEq

/-- The parser's results. -/
abbrev Parse (α : Type) := Except (Halt Error) α

structure Segment where
  address : UInt64
  memorySize : UInt64
  offset : UInt64
  fileSize : UInt64
  writable : Bool
  executable : Bool
  deriving DecidableEq

instance : Inhabited Segment := ⟨⟨0, 0, 0, 0, false, false⟩⟩

namespace Segment

def startPage (s : Segment) : UInt64 := pageStart s.address

def endPage (s : Segment) : Parse UInt64 := do
  let top ← plus s.address s.memorySize
  let top ← plus top PAGE_SIZE
  let top ← minus top 1
  return pageStart top

end Segment

structure Image where
  bytes : List UInt8
  entry : UInt64
  segments : Vector Segment MAX_SEGMENTS
  count : Nat
  deriving DecidableEq

/-- The little-endian number in a field of at most eight bytes. -/
def number (bytes : List UInt8) (at_ size : UInt64) : Parse UInt64 := do
  let end_ ← orRefuse (.refused .bounds) (checkedAdd at_ size)
  reject (bytes.length < end_.toNat) (.refused .bounds)
  let field := slice bytes at_.toNat size.toNat
  return field.zipIdx.foldl (fun n b => n ||| b.1.toUInt64 <<< UInt64.ofNat (b.2 * 8)) 0

/-- The bytes every accepted file starts with. -/
def MAGIC : List UInt8 := [0x7f, 0x45, 0x4c, 0x46, 2, 1, 1, 0, 0]

/-- A field of the file header that must have one value. -/
def expect (bytes : List UInt8) (at_ size value : UInt64) : Parse Unit := do
  let n ← number bytes at_ size
  reject (n ≠ value) (.refused .header)

/-- The checks of the file header. -/
def header (bytes : List UInt8) : Parse Unit := do
  reject (bytes.length < 64 ∨ MAX_BYTES < bytes.length ∨ bytes.take 9 ≠ MAGIC
    ∨ ¬ allZero (slice bytes 9 7)) (.refused .header)
  expect bytes 16 2 2
  expect bytes 18 2 62
  expect bytes 20 4 1
  expect bytes 48 4 0
  expect bytes 52 2 64
  expect bytes 54 2 56

/-- Where the program headers are, and how many. -/
def table (bytes : List UInt8) : Parse (UInt64 × UInt64) := do
  let offset ← number bytes 32 8
  let count ← number bytes 56 2
  reject (¬ (1 ≤ count ∧ count ≤ 16)) (.refused .budget)
  let size ← times count 56
  reject (offset < 64 ∨ ¬ (checkedAdd offset size).any (fun n => n.toNat ≤ bytes.length))
    (.refused .bounds)
  return (offset, count)

/-- The fields of a program header the parser reads. -/
structure Raw where
  flags : UInt64
  fileOffset : UInt64
  address : UInt64
  fileSize : UInt64
  memorySize : UInt64
  alignment : UInt64
  deriving DecidableEq

def Raw.read (bytes : List UInt8) (at_ : UInt64) : Parse Raw := do
  let flags ← number bytes (← plus at_ 4) 4
  let fileOffset ← number bytes (← plus at_ 8) 8
  let address ← number bytes (← plus at_ 16) 8
  let fileSize ← number bytes (← plus at_ 32) 8
  let memorySize ← number bytes (← plus at_ 40) 8
  let alignment ← number bytes (← plus at_ 48) 8
  return { flags, fileOffset, address, fileSize, memorySize, alignment }

/-- The segment of a load. -/
def Raw.toSegment (r : Raw) : Segment where
  address := r.address
  memorySize := r.memorySize
  offset := r.fileOffset
  fileSize := r.fileSize
  writable := r.flags &&& 2 ≠ 0
  executable := r.flags &&& 1 ≠ 0

/-- The segment of a load, if it is one the kernel maps. -/
def Raw.segment (r : Raw) (length : Nat) : Parse Segment := do
  let end_ ← orRefuse (.refused .bounds) (checkedAdd r.address r.memorySize)
  reject (¬ (4 ≤ r.flags ∧ r.flags ≤ 6) ∨ r.memorySize = 0 ∨ r.memorySize < r.fileSize
    ∨ r.address < PAGE_SIZE ∨ STACK_GUARD < end_
    ∨ r.fileOffset % PAGE_SIZE ≠ r.address % PAGE_SIZE
    ∨ (1 < r.alignment ∧ (¬ isPowerOfTwo r.alignment
      ∨ r.address % r.alignment ≠ r.fileOffset % r.alignment))) (.refused .segment)
  reject (¬ (checkedAdd r.fileOffset r.fileSize).any (fun n => n.toNat ≤ length))
    (.refused .bounds)
  let top ← r.toSegment.endPage
  reject (r.toSegment.startPage < WINDOW_END ∧ WINDOW_BASE < top) (.refused .segment)
  return r.toSegment

/-- What the loop over the program headers carries. -/
structure Scan where
  segments : Vector Segment MAX_SEGMENTS
  count : Nat
  pages : UInt64
  previousEnd : UInt64
  deriving DecidableEq

namespace Scan

def new : Scan where
  segments := Vector.replicate MAX_SEGMENTS default
  count := 0
  pages := STACK_PAGES
  previousEnd := PAGE_SIZE

/-- Take one more segment. -/
def push (scan : Scan) (s : Segment) : Parse Scan := do
  reject (s.startPage < scan.previousEnd) (.refused .overlap)
  let top ← s.endPage
  let size ← minus top s.startPage
  let pages ← plus scan.pages (size / PAGE_SIZE)
  reject (MAX_PAGES < pages ∨ scan.count = MAX_SEGMENTS) (.refused .budget)
  if h : scan.count < MAX_SEGMENTS then
    .ok { segments := scan.segments.set scan.count s h
          count := scan.count + 1
          pages := pages
          previousEnd := top }
  else .error .panicked

/-- Read the program header at an offset. -/
def step (bytes : List UInt8) (scan : Scan) (at_ : UInt64) : Parse Scan := do
  let kind ← number bytes at_ 4
  if kind = 0 then .ok scan
  else if kind = 1 then do
    let r ← Raw.read bytes at_
    let s ← r.segment bytes.length
    scan.push s
  else .error (.refused .unsupported)

/-- Read the program header of an index. -/
def stepAt (bytes : List UInt8) (offset : UInt64) (scan : Scan) (index : Nat) : Parse Scan := do
  let shift ← times (UInt64.ofNat index) 56
  let at_ ← plus offset shift
  scan.step bytes at_

end Scan

/-- Whether an executable segment has the entry in the part the file backs. -/
def enters (entry : UInt64) : List Segment → Parse Bool
  | [] => .ok false
  | s :: rest =>
    if s.executable then do
      let top ← plus s.address s.fileSize
      if s.address ≤ entry ∧ entry < top then .ok true else enters entry rest
    else enters entry rest

namespace Image

def loaded (image : Image) : List Segment := image.segments.toList.take image.count

def parse (bytes : List UInt8) : Parse Image := do
  header bytes
  let (offset, count) ← table bytes
  let entry ← number bytes 24 8
  let scan ← (List.range count.toNat).foldlM (Scan.stepAt bytes offset) Scan.new
  let image : Image :=
    { bytes := bytes, entry := entry, segments := scan.segments, count := scan.count }
  let found ← enters entry image.loaded
  reject (¬ found) (.refused .entry)
  return image

/-- The bytes of the file that back a segment. -/
def data (image : Image) (s : Segment) : Parse (List UInt8) := do
  let end_ ← plus s.offset s.fileSize
  if end_.toNat ≤ image.bytes.length then
    .ok (slice image.bytes s.offset.toNat s.fileSize.toNat)
  else .error .panicked

end Image

end RusticOs.Kernel.Elf
