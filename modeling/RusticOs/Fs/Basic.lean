import RusticOs.Lib.Bitmap
import RusticOs.Lib.Bytes
import RusticOs.Lib.Device

/-!
# `RusticOs.Fs.Basic`: errors, checksums, names, extents and free space

The parts of the filesystem crate that every volume format shares: `lib.rs`,
`checksum.rs`, `storage.rs`, the name rule of `namespace.rs` and the payload accounting of
`extent.rs`.
-/

set_option autoImplicit false

namespace RusticOs.Fs

open RusticOs.Lib

/-- The filesystem's refusals. -/
inductive Error where
  | io | uncertain | invalid | corrupt | notFound | existing | notDirectory | isDirectory
  | notEmpty | full | size | version | readOnly | empty | exhausted | unsupported | lineage
  | expiredEpoch | outcomeUnknown | idempotencyConflict | busy | cancelled
  deriving DecidableEq, Repr

/-- What a node slot holds. -/
inductive Kind where
  | empty | file | directory
  deriving DecidableEq, Repr

/-- The kind byte of a stored node. -/
def Kind.code : Kind → UInt8
  | .empty => 0
  | .file => 1
  | .directory => 2

/-- Why an admitted operation was prevented. -/
inductive PreventionReason where
  | unknown | requested | versionConflict | authorityLost
  deriving DecidableEq, Repr

/-- The cause byte of a stored prevention. -/
def PreventionReason.code : PreventionReason → UInt8
  | .unknown => 0
  | .requested => 1
  | .versionConflict => 2
  | .authorityLost => 3

/-- The prevention a stored cause byte names. -/
def PreventionReason.ofCode : UInt8 → Option PreventionReason
  | 0 => some .unknown
  | 1 => some .requested
  | 2 => some .versionConflict
  | 3 => some .authorityLost
  | _ => none

/-- One 512-byte sector. -/
abbrev Block := Bytes 512

/-- The device a volume lives on. -/
abbrev Disk := Device Error Block

/-- The all-zero sector. -/
def zeroBlock : Block := Bytes.pack 512 []

/-! ### Checked arithmetic -/

/-- The sum of two words, unless it overflows. -/
def checkedAdd (a b : UInt64) : Option UInt64 :=
  if a.toNat + b.toNat < 2 ^ 64 then some (a + b) else none

/-- The sum of two 32-bit words, unless it overflows. -/
def checkedAdd32 (a b : UInt32) : Option UInt32 :=
  if a.toNat + b.toNat < 2 ^ 32 then some (a + b) else none

theorem checkedAdd_eq_some {a b c : UInt64} :
    checkedAdd a b = some c ↔ a.toNat + b.toNat = c.toNat := by
  unfold checkedAdd
  have hc := c.toNat_lt
  split
  · rename_i h
    rw [Option.some.injEq, ← UInt64.toNat_inj, UInt64.toNat_add, Nat.mod_eq_of_lt h]
  · constructor
    · intro h
      cases h
    · intro h
      omega

theorem checkedAdd_eq_none {a b : UInt64} :
    checkedAdd a b = none ↔ 2 ^ 64 ≤ a.toNat + b.toNat := by
  unfold checkedAdd
  split
  · rename_i h
    exact ⟨nofun, fun hle => absurd h (Nat.not_lt.mpr hle)⟩
  · rename_i h
    exact ⟨fun _ => Nat.not_lt.mp h, fun _ => rfl⟩

theorem checkedAdd32_eq_some {a b c : UInt32} :
    checkedAdd32 a b = some c ↔ a.toNat + b.toNat = c.toNat := by
  unfold checkedAdd32
  have hc := c.toNat_lt
  split
  · rename_i h
    rw [Option.some.injEq, ← UInt32.toNat_inj, UInt32.toNat_add, Nat.mod_eq_of_lt h]
  · constructor
    · intro h
      cases h
    · intro h
      omega

theorem checkedAdd_eq_add {a b c : UInt64} (h : checkedAdd a b = some c) : a + b = c := by
  unfold checkedAdd at h
  split at h
  · exact Option.some.inj h
  · cases h

theorem checkedAdd32_eq_add {a b c : UInt32} (h : checkedAdd32 a b = some c) : a + b = c := by
  unfold checkedAdd32 at h
  split at h
  · exact Option.some.inj h
  · cases h

/-! ### Checksums -/

/-- One bit of the reflected CRC-32 register. -/
def crcShift (value : UInt32) : UInt32 :=
  (value >>> 1) ^^^ (0xedb88320 &&& (0 - (value &&& 1)))

/-- One byte of the CRC-32 register. -/
def crcByte (value : UInt32) (byte : UInt8) : UInt32 :=
  crcShift (crcShift (crcShift (crcShift (crcShift (crcShift (crcShift (crcShift
    (value ^^^ byte.toUInt32))))))))

/-- The running CRC-32 register over more bytes. -/
def crcUpdate (value : UInt32) (bytes : List UInt8) : UInt32 := bytes.foldl crcByte value

/-- The register before any byte. -/
def crcInit : UInt32 := ~~~ 0

/-- CRC-32/IEEE of a byte string. -/
def crc (bytes : List UInt8) : UInt32 := ~~~ crcUpdate crcInit bytes

/-- The running form: updating with `a` and then with `b` is updating with both. -/
theorem crcUpdate_append (value : UInt32) (a b : List UInt8) :
    crcUpdate value (a ++ b) = crcUpdate (crcUpdate value a) b := by
  simp [crcUpdate]

theorem crc_nil : crc [] = 0 := by decide

/-! ### Names -/

/-- An ASCII letter or digit. -/
def isAsciiAlphanumeric (b : UInt8) : Bool :=
  (48 ≤ b && b ≤ 57) || (65 ≤ b && b ≤ 90) || (97 ≤ b && b ≤ 122)

/-- The name rule: 1 to 31 letters, digits, dots, underscores or dashes, and neither `.`
nor `..`. -/
def validName (name : List UInt8) : Except Error Unit :=
  reject (name = [] ∨ name.length > 31 ∨ name = [46] ∨ name = [46, 46]
    ∨ name.any (fun b => !isAsciiAlphanumeric b && !([46, 95, 45] : List UInt8).contains b))
    .invalid

/-- The names of the four roots: `system`, `data`, `config` and `workspaces`. -/
def rootNames : List (List UInt8) :=
  [[115, 121, 115, 116, 101, 109],
   [100, 97, 116, 97],
   [99, 111, 110, 102, 105, 103],
   [119, 111, 114, 107, 115, 112, 97, 99, 101, 115]]

/-! ### Payload extents -/

/-- Sectors of the payload region: 64 MiB. -/
def dataSectors : Nat := 131072

/-- One contiguous run of payload sectors, relative to the payload region. -/
structure Extent where
  start : UInt64
  sectors : UInt64
  deriving DecidableEq, Repr

/-- The unused extent. -/
def Extent.zero : Extent := ⟨0, 0⟩

instance : Inhabited Extent := ⟨Extent.zero⟩

/-- The sector after the run. -/
def Extent.endSector (e : Extent) : UInt64 := e.start + e.sectors

/-- The payload sectors of the run, in order. Starts and lengths come from 32-bit fields or
from the planner, so the end never overflows. -/
def Extent.sectorList (e : Extent) : List Nat := List.range' e.start.toNat e.sectors.toNat

/-- The payload sectors of a list of runs, in file order. -/
def runSectors (runs : List Extent) : List Nat := runs.flatMap Extent.sectorList

/-- Two runs share a sector. -/
def Extent.Overlaps (a b : Extent) : Prop := a.start < b.endSector ∧ b.start < a.endSector

instance (a b : Extent) : Decidable (a.Overlaps b) := inferInstanceAs (Decidable (_ ∧ _))

/-- The allocation bitmap: a set bit means allocated. -/
abbrev SpaceMap := Vector UInt64 2048

/-- Return a run to the free space. A run outside the space, an empty one, or one with a
sector that is not allocated is refused. -/
def release (map : SpaceMap) (run : Extent) : Except Error SpaceMap := do
  reject (run.sectors = 0 ∨ run.endSector.toNat > dataSectors) .invalid
  reject (run.sectorList.any fun s => !Bitmap.get map s) .invalid
  pure (Bitmap.setAll map run.sectorList false)

/-- Sectors a payload of `length` bytes needs. -/
def sectorsFor (length : Nat) : Nat := (length + 511) / 512

end RusticOs.Fs
