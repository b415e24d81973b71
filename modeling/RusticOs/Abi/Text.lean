import RusticOs.Abi.Reference
import RusticOs.Lib.Hex

/-!
# `RusticOs.Abi.Text`: identifiers as text

`files/reference/text.rs`, `files/operation/identity.rs` and `files/admission/identity.rs`. A `str`
is its bytes. `display` functions are the `fmt::Display` of the source and `fromStr` functions its
`FromStr`. Versions, epochs and keys are one nonzero word behind a tag; operations and
admissions are a lineage and a word behind a tag.
-/

set_option autoImplicit false

namespace RusticOs.Abi

open RusticOs.Lib

/-- ASCII text. -/
def ascii (text : List Char) : List UInt8 := text.map fun c => UInt8.ofNat c.toNat

/-- The separator of the parts of an identifier. -/
def underscore : List UInt8 := ascii ['_']

/-- `hex::<n>`: exactly `n` bytes in lowercase digits. -/
def hex (n : Nat) (text : List UInt8) : Except Error (Bytes n) := do
  reject (text.length ≠ n * 2) .invalid
  let bytes ← orRefuse .invalid (readHex text)
  pure (Bytes.pack n bytes)

/-- `u32::from_be_bytes`. -/
def ofBe32 (b : Bytes 4) : UInt32 := ofLe32 b.toList.reverse

/-- `u64::from_be_bytes`. -/
def ofBe64 (b : Bytes 8) : UInt64 := ofLe64 b.toList.reverse

/-- The bytes of a lineage, two digits each. -/
def displayLineage (lineage : Bytes 16) : List UInt8 := hexPairs lineage.toList

/-! ### Words -/

def displayWord (tag : List UInt8) (word : Word) : List UInt8 := tag ++ lowerHex 16 word.value.toNat

def wordFromStr (tag text : List UInt8) : Except Error Word := do
  reject (text.length ≠ 18 ∨ slice text 0 2 ≠ tag) .invalid
  let value ← hex 8 (text.drop 2)
  Word.new (ofBe64 value)

def displayVersion : Version → List UInt8 := displayWord (ascii ['v', '_'])
def versionFromStr : List UInt8 → Except Error Version := wordFromStr (ascii ['v', '_'])

def displayEpoch : Epoch → List UInt8 := displayWord (ascii ['e', '_'])
def epochFromStr : List UInt8 → Except Error Epoch := wordFromStr (ascii ['e', '_'])

def displayKey : Key → List UInt8 := displayWord (ascii ['k', '_'])
def keyFromStr : List UInt8 → Except Error Key := wordFromStr (ascii ['k', '_'])

/-! ### Numbers of a lineage -/

def displayNumbered (tag : List UInt8) (x : Numbered) : List UInt8 :=
  tag ++ displayLineage x.lineage ++ underscore ++ lowerHex 16 x.number.toNat

def numberedFromStr (tag text : List UInt8) : Except Error Numbered := do
  reject (text.length ≠ 52 ∨ slice text 0 3 ≠ tag ∨ slice text 35 1 ≠ underscore) .invalid
  let lineage ← hex 16 (slice text 3 32)
  let number ← hex 8 (text.drop 36)
  Numbered.new lineage (ofBe64 number)

def displayOperationId : OperationId → List UInt8 := displayNumbered (ascii ['o', 'p', '_'])
def operationIdFromStr : List UInt8 → Except Error OperationId :=
  numberedFromStr (ascii ['o', 'p', '_'])

def displayAdmissionId : AdmissionId → List UInt8 := displayNumbered (ascii ['a', 'd', '_'])
def admissionIdFromStr : List UInt8 → Except Error AdmissionId :=
  numberedFromStr (ascii ['a', 'd', '_'])

/-! ### Workspaces and resources -/

def displayWorkspace (x : Workspace) : List UInt8 :=
  ascii ['w', 's', '_'] ++ displayLineage x.lineage ++ underscore ++ lowerHex 8 x.root.toNat

def workspaceFromStr (text : List UInt8) : Except Error Workspace := do
  reject (text.length ≠ 44 ∨ slice text 0 3 ≠ ascii ['w', 's', '_'] ∨ slice text 35 1 ≠ underscore)
    .invalid
  let lineage ← hex 16 (slice text 3 32)
  let root ← hex 4 (slice text 36 8)
  Workspace.new lineage (ofBe32 root)

def displayResource (x : Resource) : List UInt8 :=
  ascii ['r', 's', '_'] ++ displayLineage x.workspace.lineage ++ underscore
    ++ lowerHex 8 x.workspace.root.toNat ++ underscore ++ lowerHex 8 x.object.toNat

def resourceFromStr (text : List UInt8) : Except Error Resource := do
  reject (text.length ≠ 53 ∨ slice text 0 3 ≠ ascii ['r', 's', '_'] ∨ slice text 35 1 ≠ underscore
    ∨ slice text 44 1 ≠ underscore) .invalid
  let lineage ← hex 16 (slice text 3 32)
  let root ← hex 4 (slice text 36 8)
  let workspace ← Workspace.new lineage (ofBe32 root)
  let object ← hex 4 (slice text 45 8)
  Resource.new workspace (ofBe32 object)

end RusticOs.Abi
