import RusticOs.Kernel.Machine
import RusticOs.Lib.Memory
import RusticOs.Lib.Overflow

/-!
# `RusticOs.Sdk.Region`: the bytes behind the SDK allocator

`memory/region.rs`: a bounds-checked view of one contiguous byte range. The bytes are those of
the machine's memory, of which the region owns `base .. base + len`; `usize` is a 64-bit word.
-/

set_option autoImplicit false

namespace RusticOs.Sdk

open RusticOs.Lib
open RusticOs.Fs (checkedAdd)

/-- Alignment of every block start and block size inside a region. -/
def ALIGN : UInt64 := 8

/-- Bookkeeping bytes that precede the payload of every block. -/
def HEADER : UInt64 := 24

/-- `usize::checked_next_multiple_of`. -/
def checkedNextMultipleOf (x m : UInt64) : Option UInt64 :=
  if m = 0 then none
  else if x % m = 0 then some x
  else checkedAdd x (m - x % m)

/-- In-region bookkeeping: blocks tile the region and are linked by size. -/
structure Header where
  size : UInt64
  prev : UInt64
  state : UInt64
  deriving DecidableEq

/-- The header stored at an address. -/
def Header.load (m : Memory) (a : Nat) : Header := ⟨m.word a, m.word (a + 8), m.word (a + 16)⟩

/-- Store a header at an address. -/
def Header.store (m : Memory) (a : Nat) (h : Header) : Memory :=
  ((m.setWord a h.size).setWord (a + 8) h.prev).setWord (a + 16) h.state

structure Region where
  base : UInt64
  len : UInt64
  memory : Memory

namespace Region

variable (r : Region)

def holds (offset len : UInt64) : Bool := (checkedAdd offset len).any (· ≤ r.len)

/-- Whether a header may be accessed at an offset. -/
def admits (offset : UInt64) : Bool := offset % ALIGN == 0 && r.holds offset HEADER

/-- Where an offset lies in memory. -/
def at_ (offset : UInt64) : Nat := r.base.toNat + offset.toNat

def header (offset : UInt64) : Option Header :=
  if r.admits offset then some (Header.load r.memory (r.at_ offset)) else none

def setHeader (offset : UInt64) (h : Header) : Option Region :=
  if r.admits offset then some { r with memory := Header.store r.memory (r.at_ offset) h } else none

def pointer (offset : UInt64) : Option UInt64 :=
  if r.len < offset then none else some (r.base + offset)

/-- The place of a slice of `len` bytes. -/
def slice (offset len : UInt64) : Option Nat :=
  if r.holds offset len then some (r.at_ offset) else none

def grow {ε : Type} (b : Build) (extra : UInt64) : Except (Halt ε) Region := do
  return { r with len := ← b.add r.len extra }

def shrink (len : UInt64) : Option Region :=
  if r.len < len then none else some { r with len := len }

end Region

end RusticOs.Sdk
