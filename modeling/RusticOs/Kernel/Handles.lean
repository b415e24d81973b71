import RusticOs.Fs.Basic
import RusticOs.Lib.Slots

/-!
# `RusticOs.Kernel.Handles`: owner-bound handles of the kernel brokers

`Table T capacity perOwner` is the table every kernel broker keeps its handles in
(`kernel/src/handles/table.rs`): a handle is an identifier of the table's domain that one owner
holds, with rights, on one object. Identifiers count up and are never given out again.

A change either succeeds as a whole or leaves the table as it is, so the operations return the
changed table with their result.
-/

set_option autoImplicit false

namespace RusticOs.Kernel

open RusticOs.Lib
open RusticOs.Fs (checkedAdd)

/-- Why a table refuses. -/
inductive HandleError where
  | handle
  | denied
  | quota
  deriving DecidableEq

/-- A live handle. -/
structure Entry (T : Type) where
  id : UInt64
  owner : UInt64
  object : T
  rights : UInt8
  deriving DecidableEq

/-- The handles of one broker. -/
structure Table (T : Type) (capacity perOwner : Nat) where
  entries : Slots (Entry T) capacity
  next : UInt64
  domain : UInt64
  allowed : UInt8
  transferRight : UInt8

namespace Table

variable {T : Type} {capacity perOwner : Nat}

def new (domain allowed transferRight : UInt8) : Table T capacity perOwner where
  entries := Vector.replicate capacity none
  next := 1
  domain := domain.toUInt64 <<< 56
  allowed := allowed
  transferRight := transferRight

/-- How many handles an owner holds. -/
def owned (t : Table T capacity perOwner) (owner : UInt64) : Nat :=
  t.entries.occupied fun e => e.owner == owner

/-- Whether an owner may hold one more handle. -/
def room (t : Table T capacity perOwner) (owner : UInt64) : Bool := t.owned owner < perOwner

/-- The slot of an owner's handle, with its entry. -/
def index (t : Table T capacity perOwner) (owner id : UInt64) :
    Except HandleError (Fin capacity × Entry T) :=
  orRefuse .handle (t.entries.position fun e => e.id == id && e.owner == owner)

/-- The number after the next identifier's, while identifiers last. -/
def following (t : Table T capacity perOwner) : Except HandleError UInt64 :=
  orRefuse .quota ((checkedAdd t.next 1).filter fun next => next < (1 : UInt64) <<< 56)

/-- Hand a new handle to an owner. -/
def grant (t : Table T capacity perOwner) (owner : UInt64) (object : T) (rights : UInt8) :
    Except HandleError (UInt64 × Table T capacity perOwner) := do
  reject (rights = 0 ∨ rights &&& ~~~ t.allowed ≠ 0) .denied
  reject (¬ t.room owner) .quota
  let slot ← orRefuse .quota t.entries.vacant
  let next ← t.following
  let id := t.domain ||| t.next
  return (id, { t with
    next := next
    entries := t.entries.setAt slot (some { id := id, owner := owner, object := object,
                                            rights := rights }) })

/-- The object of an owner's handle that carries a right. -/
def resolve (t : Table T capacity perOwner) (owner id : UInt64) (right : UInt8) :
    Except HandleError T := do
  let (_, entry) ← t.index owner id
  reject (entry.rights &&& right ≠ right) .denied
  return entry.object

/-- Give up an owner's handle. -/
def remove (t : Table T capacity perOwner) (owner id : UInt64) :
    Except HandleError (T × Table T capacity perOwner) := do
  let (slot, entry) ← t.index owner id
  return (entry.object, { t with entries := t.entries.setAt slot none })

/-- Move an owner's handle to another owner under a new identifier. -/
def transfer (t : Table T capacity perOwner) (owner id target : UInt64) (rights : UInt8) :
    Except HandleError (UInt64 × Table T capacity perOwner) := do
  let (slot, old) ← t.index owner id
  reject (t.transferRight = 0 ∨ old.rights &&& t.transferRight = 0 ∨ rights = 0
    ∨ rights &&& ~~~ old.rights ≠ 0) .denied
  reject (target ≠ owner ∧ ¬ t.room target) .quota
  let next ← t.following
  return (t.domain ||| (next - 1), { t with
    entries := t.entries.setAt slot (some { old with id := t.domain ||| t.next, owner := target,
                                                     rights := rights })
    next := next })

/-- Some handle of an owner. -/
def first (t : Table T capacity perOwner) (owner : UInt64) : Option UInt64 :=
  (t.entries.position fun e => e.owner == owner).map fun found => found.2.id

end Table

end RusticOs.Kernel
