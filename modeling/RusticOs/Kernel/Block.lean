import RusticOs.Kernel.Handles
import RusticOs.Lib.Halt
import RusticOs.Lib.Runs

/-!
# `RusticOs.Kernel.Block`: the kernel's block request broker

Processes reach the disk through grants of sector ranges (`kernel/src/block/access/queue.rs`,
`grants.rs`). A request is admitted against a grant, waits in a record, is started by the sole
device dispatcher, finished with the device's status and read by the process that made it.
Closing a handle drops its requests; one that is with the device is abandoned and dropped when it
finishes.

An `expect` of the source is a `panicked` halt here, and the loop of `closeOwner` runs on a number
of turns.
-/

set_option autoImplicit false

namespace RusticOs.Kernel.Block

open RusticOs.Lib RusticOs.Kernel
open RusticOs.Fs (checkedAdd)

/-! ### The interface -/

def READ : UInt8 := 1
def WRITE : UInt8 := 2
def FLUSH : UInt8 := 4
def ALL : UInt8 := READ ||| WRITE ||| FLUSH
def SECTOR : Nat := 512
def MAX_ID : UInt64 := ((1 : UInt64) <<< 56) - 1

/-- The errors of `rustic_abi::block` the broker returns. -/
inductive Error where
  | handle
  | denied
  | busy
  | quota
  | range
  | readOnly
  | noRequest
  | wouldBlock
  deriving DecidableEq

/-- What a refusal of the handle table is to a caller. -/
def Error.ofHandle : HandleError → Error
  | .handle => .handle
  | .denied => .denied
  | .quota => .quota

inductive Operation where
  | read
  | write
  | flush
  deriving DecidableEq

/-- The right an operation needs. -/
def Operation.right : Operation → UInt8
  | .read => READ
  | .write => WRITE
  | .flush => FLUSH

inductive Status where
  | success
  | cancelled
  | io
  | timeout
  | protocol
  | unavailable
  deriving DecidableEq

/-- What a request may have done to the disk. -/
inductive Effect where
  | none
  | completed
  | unknown
  deriving DecidableEq

structure Completion where
  id : UInt64
  operation : Operation
  status : Status
  effect : Effect
  data : Bytes SECTOR
  deriving DecidableEq

/-- What the device says of itself; its size is not read here. -/
structure Geometry where
  readOnly : Bool
  deriving DecidableEq

/-! ### Grants -/

/-- A range of sectors, and what may be done to it. -/
structure Grant where
  first : UInt64
  sectors : UInt64
  rights : UInt8
  deriving DecidableEq

namespace Grant

/-- A grant lies on the disk, and only a grant of the whole disk may flush it. -/
def validate (g : Grant) (capacity : UInt64) : Except Error Unit := do
  reject (g.sectors = 0 ∨ ¬ (checkedAdd g.first g.sectors).any (· ≤ capacity)) .range
  reject (g.rights &&& FLUSH ≠ 0 ∧ (g.first ≠ 0 ∨ g.sectors ≠ capacity)) .denied

/-- The disk's sector of a sector of the grant. -/
def sector (g : Grant) (relative : UInt64) : Except Error UInt64 := do
  reject (g.sectors ≤ relative) .range
  orRefuse .range (checkedAdd g.first relative)

/-- The disk's sector an operation is on; a flush is of the whole disk. -/
def target (g : Grant) (operation : Operation) (relative : UInt64) : Except Error UInt64 :=
  if operation = .flush then .ok 0 else g.sector relative

end Grant

/-! ### Records -/

inductive Phase where
  | queued
  | active
  | complete
  deriving DecidableEq

structure Record where
  owner : UInt64
  handle : UInt64
  sector : UInt64
  phase : Phase
  abandoned : Bool
  result : Completion
  deriving DecidableEq

/-- What the dispatcher gets of a request. -/
structure Pending where
  owner : UInt64
  id : UInt64
  operation : Operation
  sector : UInt64
  data : Bytes SECTOR
  deriving DecidableEq

namespace Record

/-- A request that is with the device. -/
def activated (r : Record) : Record := { r with phase := .active }

def pending (r : Record) : Pending where
  owner := r.owner
  id := r.result.id
  operation := r.result.operation
  sector := r.sector
  data := r.result.data

/-- A request the device is done with. -/
def finished (r : Record) (status : Status) (data : Bytes SECTOR) : Record :=
  { r with
    phase := .complete
    result := { r.result with
      status := status
      effect :=
        if r.result.operation = .read ∨ status = .unavailable then .none
        else if status = .success then .completed
        else .unknown
      data :=
        if r.result.operation = .read ∧ status = .success then data
        else Vector.replicate SECTOR 0 } }

/-- A request that was cancelled in the queue. -/
def cancelled (r : Record) : Record :=
  { r with
    phase := .complete
    result := { r.result with status := .cancelled, data := Vector.replicate SECTOR 0 } }

/-- What is left of a request when a handle is closed. -/
def closed (handle : UInt64) (r : Record) : Option Record :=
  if r.handle = handle then
    if r.phase = .active then some { r with abandoned := true } else none
  else some r

end Record

/-! ### The broker -/

def GRANTS : Nat := 4
def GRANTS_PER_OWNER : Nat := 1
def RECORDS : Nat := 2

abbrev Handles := Table Grant GRANTS GRANTS_PER_OWNER

structure Broker where
  handles : Handles
  records : Slots Record RECORDS
  next : UInt64

/-- The broker's computations. -/
abbrev Step (α : Type) := Fallible (Halt Error) Broker α

/-- A result of the handle table. -/
def held {α : Type} (x : Except HandleError α) : Except Error α := x.mapError .ofHandle

namespace Broker

def new : Broker where
  handles := .new 1 ALL 0
  records := Vector.replicate RECORDS none
  next := 1

def grant (owner : UInt64) (grant : Grant) (capacity : UInt64) : Step UInt64 := do
  let s ← .get
  .check (grant.validate capacity)
  let (id, handles) ← .check (held (s.handles.grant owner grant grant.rights))
  .change fun s => { s with handles := handles }
  return id

/-- The disk's sector an owner's handle lets it operate on. -/
def check (s : Broker) (owner handle : UInt64) (operation : Operation) (relative : UInt64)
    (physical : Geometry) : Except Error UInt64 := do
  let grant ← held (s.handles.resolve owner handle operation.right)
  let sector ← grant.target operation relative
  reject (operation ≠ .read ∧ physical.readOnly) .readOnly
  return sector

/-- The slot and the number of the next request. -/
def place (s : Broker) (owner : UInt64) : Except Error (Fin RECORDS × UInt64) := do
  reject ((s.records.position fun r => r.owner == owner).isSome) .busy
  let slot ← orRefuse .busy s.records.vacant
  let next ← orRefuse .quota ((checkedAdd s.next 1).filter fun n => n ≤ MAX_ID)
  return (slot, next)

/-- The record of a request that was just admitted. -/
def admitted (s : Broker) (owner handle : UInt64) (operation : Operation) (sector : UInt64)
    (data : Bytes SECTOR) : Record where
  owner := owner
  handle := handle
  sector := sector
  phase := .queued
  abandoned := false
  result := { id := s.next, operation := operation, status := .success, effect := .none,
              data := data }

def admission (owner handle : UInt64) (operation : Operation) (sector : UInt64)
    (data : Bytes SECTOR) (physical : Geometry) : Step UInt64 := do
  let s ← .get
  let sector ← .check (s.check owner handle operation sector physical)
  let (slot, next) ← .check (s.place owner)
  .change fun s => { s with
    next := next
    records := s.records.setAt slot (some (s.admitted owner handle operation sector data)) }
  return s.next

/-- The request that is with the device. -/
def active (s : Broker) : Option UInt64 :=
  (s.records.position fun r => r.phase == .active).map fun found => found.2.result.id

/-- The queued requests with their slots. -/
def queue (s : Broker) : List (Fin RECORDS × Record) :=
  (List.finRange RECORDS).filterMap fun i =>
    (s.records[i].filter fun r => r.phase == .queued).map fun r => (i, r)

/-- Give the oldest queued request to the device, unless the device has one. -/
def start (s : Broker) : Option Pending × Broker :=
  if s.active.isSome then (none, s) else
    match s.queue.argmin fun q => q.2.result.id.toNat with
    | none => (none, s)
    | some (slot, record) =>
      (some record.pending, { s with records := s.records.setAt slot (some record.activated) })

def finish (id : UInt64) (status : Status) (data : Bytes SECTOR) : Step Unit := do
  let s ← .get
  let (slot, record) ← .expect (s.records.position fun r => r.result.id == id && r.phase == .active)
  .change fun s => { s with
    records := s.records.setAt slot
      (if record.abandoned then none else some (record.finished status data)) }

/-- The slot of the request an owner made through a handle. -/
def slot (s : Broker) (owner handle : UInt64) : Except Error (Fin RECORDS × Record) := do
  let _ ← held (s.handles.resolve owner handle 0)
  orRefuse .noRequest (s.records.position fun r => r.owner == owner && r.handle == handle)

def peek (s : Broker) (owner handle : UInt64) : Except Error Completion := do
  let (_, record) ← s.slot owner handle
  reject (record.phase ≠ .complete) .wouldBlock
  return record.result

def consume (owner handle : UInt64) : Step Unit := do
  let s ← .get
  let _ ← .check (s.peek owner handle)
  let (slot, _) ← .check (s.slot owner handle)
  .change fun s => { s with records := s.records.setAt slot none }

/-- Cancel a queued request; the answer is 1 when it is too late. -/
def cancel (owner handle id : UInt64) : Step UInt64 := do
  let s ← .get
  let (slot, record) ← .check (s.slot owner handle)
  .refuse (record.result.id ≠ id) (.refused .noRequest)
  if record.phase ≠ .queued then return 1
  .change fun s => { s with records := s.records.setAt slot (some record.cancelled) }
  return 0

def close (owner handle : UInt64) : Step Unit := do
  let s ← .get
  let (_, handles) ← .check (held (s.handles.remove owner handle))
  .change fun s => { s with
    handles := handles
    records := s.records.map fun r => r.bind (Record.closed handle) }

/-- The turns left of the loop that closes an owner's handles. -/
def closeOwnerLoop (owner : UInt64) : Nat → Step Unit
  | 0 => .fail .looping
  | turns + 1 => do
    let s ← .get
    match s.handles.first owner with
    | none => return ()
    | some handle =>
      let closed ← .attempt (close owner handle)
      .expect closed.toOption
      closeOwnerLoop owner turns

/-- Close every handle of an owner; one turn more than there are handles is enough. -/
def closeOwner (owner : UInt64) : Step Unit := closeOwnerLoop owner (GRANTS + 1)

end Broker

/-! ### Calls -/

/-- A call to the broker. -/
inductive Call where
  | grant (owner : UInt64) (grant : Grant) (capacity : UInt64)
  | admission (owner handle : UInt64) (operation : Operation) (sector : UInt64)
      (data : Bytes SECTOR) (physical : Geometry)
  | start
  | finish (id : UInt64) (status : Status) (data : Bytes SECTOR)
  | peek (owner handle : UInt64)
  | consume (owner handle : UInt64)
  | cancel (owner handle id : UInt64)
  | close (owner handle : UInt64)
  | closeOwner (owner : UInt64)
  deriving DecidableEq

/-- What a call returns. -/
inductive Value where
  | none
  | number (n : UInt64)
  | pending (p : Option Pending)
  | completion (c : Completion)
  deriving DecidableEq

/-- The outcome of a call. -/
abbrev Answer := Except (Halt Error) Value

/-- Run a call. -/
def Broker.perform : Call → Step Value
  | .grant owner g capacity => return .number (← grant owner g capacity)
  | .admission owner handle operation sector data physical =>
    return .number (← admission owner handle operation sector data physical)
  | .start => do
    let s ← .get
    .change fun s => s.start.2
    return .pending s.start.1
  | .finish id status data => do
    finish id status data
    return .none
  | .peek owner handle => do
    let s ← .get
    return .completion (← .check (s.peek owner handle))
  | .consume owner handle => do
    consume owner handle
    return .none
  | .cancel owner handle id => return .number (← cancel owner handle id)
  | .close owner handle => do
    close owner handle
    return .none
  | .closeOwner owner => do
    closeOwner owner
    return .none

/-- The answer to a call. -/
def Broker.answer (s : Broker) (call : Call) : Answer := ((perform call).run s).1

/-- The broker after a call. -/
def Broker.step (s : Broker) (call : Call) : Broker := ((perform call).run s).2

/-- The dispatcher finishes the request it was given. -/
def Broker.Permits (s : Broker) (call : Call) : Prop :=
  ∀ id status data, call = .finish id status data → s.active = some id

/-- The broker after a sequence of calls. -/
def Broker.after (calls : List Call) : Broker := run Broker.step Broker.new calls

/-- Every call is permitted when it is made. -/
def Permitted (calls : List Call) : Prop := Allowed Broker.Permits Broker.step Broker.new calls

end RusticOs.Kernel.Block
