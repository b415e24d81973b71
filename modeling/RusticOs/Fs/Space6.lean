import RusticOs.Fs.Basic
import RusticOs.Lib.BitRuns
import RusticOs.Lib.Overflow

/-!
# `RusticOs.Fs.Space6`: free-space accounting of the v6 payload region

`extent.rs`: one bit for each payload sector and a counter of the clear ones. `Extent::end` is an
unchecked addition, so the operations are those of a build: a debug build panics where a release
build wraps around.
-/

set_option autoImplicit false

namespace RusticOs.Fs

open RusticOs.Lib

/-- Sectors one file may occupy: 256 KiB. -/
def fileSectorsMax : Nat := 512

/-- `Extent::end`. -/
def Extent.stop (b : Build) (e : Extent) : Except (Halt Error) UInt64 := b.add e.start e.sectors

/-- The bitmap and the number of its clear bits. -/
structure FreeSpace where
  words : SpaceMap
  free : UInt64

namespace FreeSpace

/-- Count the clear bits of stored words. -/
def new (words : List UInt64) : Except Error FreeSpace :=
  if h : words.length = 2048 then
    .ok { words := ⟨words.toArray, h⟩, free := UInt64.ofNat (words.map countZeros).sum }
  else .error .size

/-- Mark every sector used. -/
def fill (s : FreeSpace) : FreeSpace :=
  { s with words := Vector.replicate 2048 0xFFFFFFFFFFFFFFFF, free := 0 }

/-- The start of the first run of clear sectors. -/
def firstRun (s : FreeSpace) (sectors : UInt64) : Option Nat :=
  scanRun (fun sector => !Bitmap.get s.words sector) sectors.toNat dataSectors 0 0

/-- Take the first free run of a length. -/
def allocate (sectors : UInt64) : Fallible (Halt Error) FreeSpace Extent := do
  let s ← Fallible.get
  Fallible.refuse (sectors = 0 ∨ sectors.toNat > fileSectorsMax) (.refused .size)
  Fallible.refuse (sectors > s.free) (.refused .full)
  match s.firstRun sectors with
  | some start => do
    Fallible.change fun s =>
      { s with words := Bitmap.setAll s.words (List.range' start sectors.toNat) true
               free := s.free - sectors }
    pure ⟨UInt64.ofNat start, sectors⟩
  | none => Fallible.fail (.refused .full)

/-- Return a run. -/
def release (b : Build) (run : Extent) : Fallible (Halt Error) FreeSpace Unit := do
  let s ← Fallible.get
  Fallible.refuse (run.sectors = 0) (.refused .invalid)
  let stop ← Fallible.lift (run.stop b)
  Fallible.refuse (stop.toNat > dataSectors) (.refused .invalid)
  -- an end that wrapped around is below the start, and the range is empty
  let sectors := List.range' run.start.toNat (stop.toNat - run.start.toNat)
  Fallible.refuse (¬ ∀ sector ∈ sectors, Bitmap.get s.words sector = true) (.refused .invalid)
  Fallible.change fun s => { s with words := Bitmap.setAll s.words sectors false }
  let free ← Fallible.lift (b.add s.free run.sectors)
  Fallible.change fun s => { s with free }

/-- A call of the owner of the space. -/
inductive Call where
  | fill
  | allocate (sectors : UInt64)
  | release (run : Extent)

/-- The space after a call. -/
def step (b : Build) (s : FreeSpace) : Call → FreeSpace
  | .fill => s.fill
  | .allocate sectors => ((allocate sectors).run s).2
  | .release run => ((release b run).run s).2

end FreeSpace

end RusticOs.Fs
