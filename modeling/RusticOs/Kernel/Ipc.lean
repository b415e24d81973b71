import RusticOs.Kernel.Handles
import RusticOs.Lib.Halt

/-!
# `RusticOs.Kernel.Ipc`: the kernel's message broker

Two processes talk over a channel with one bounded queue for each direction
(`kernel/src/ipc/broker.rs`, `channel.rs`, `message.rs`). A process names a side of a channel by a
handle it owns; the broker keeps the channels and the handles in two tables that refer to each
other by channel number.

An `expect`, `unwrap` or `assert!` of the source is a `panicked` halt here, and the loop of
`closeOwner` runs on a number of turns, so that a run that does not end is `looping`.
-/

set_option autoImplicit false

namespace RusticOs.Kernel.Ipc

open RusticOs.Lib RusticOs.Kernel
open RusticOs.Fs (checkedAdd)

/-! ### Messages -/

def VERSION : UInt16 := 1
def DATA : UInt16 := 1
def HEADER : Nat := 24
def PAYLOAD : Nat := 64
def MAX_MESSAGE : Nat := HEADER + PAYLOAD
def READ : UInt8 := 1
def WRITE : UInt8 := 2
def TRANSFER : UInt8 := 4
def ALL : UInt8 := READ ||| WRITE ||| TRANSFER

/-- The errors of `rustic_abi::ipc` the broker returns. -/
inductive Error where
  | handle
  | denied
  | size
  | version
  | message
  | wouldBlock
  | closed
  | quota
  deriving DecidableEq

/-- What a refusal of the handle table is to a caller. -/
def Error.ofHandle : HandleError → Error
  | .handle => .handle
  | .denied => .denied
  | .quota => .quota

structure Message where
  correlation : UInt64
  sender : UInt64
  payload : Bytes PAYLOAD
  len : Nat
  deriving DecidableEq

namespace Message

/-- The message a sender's bytes hold. -/
def decode (bytes : List UInt8) (sender : UInt64) : Except Error Message := do
  reject (¬ (HEADER ≤ bytes.length ∧ bytes.length ≤ MAX_MESSAGE)) .size
  reject (ofLe16 (slice bytes 0 2) ≠ VERSION) .version
  reject (ofLe16 (slice bytes 2 2) ≠ DATA ∨ ¬ allZero (slice bytes 16 8)) .message
  let len := (ofLe32 (slice bytes 4 4)).toNat
  reject (PAYLOAD < len ∨ bytes.length ≠ HEADER + len) .size
  return { correlation := ofLe64 (slice bytes 8 8)
           sender := sender
           payload := Bytes.pack PAYLOAD (bytes.drop HEADER)
           len := len }

def length (m : Message) : Nat := HEADER + m.len

/-- The bytes a receiver gets; the first `length` of them are the message. -/
def encode (m : Message) : Bytes MAX_MESSAGE :=
  Bytes.pack MAX_MESSAGE (le16 VERSION ++ le16 DATA ++ le32 (UInt32.ofNat m.len)
    ++ le64 m.correlation ++ le64 m.sender ++ m.payload.toList.take m.len)

end Message

/-! ### Channels -/

/-- The broker's computations over the part `σ` of its state. -/
abbrev Step (σ α : Type) := Fallible (Halt Error) σ α

/-- A ring of two messages. -/
structure Queue where
  messages : Vector (Option Message) 2
  head : Fin 2
  len : Nat
  deriving DecidableEq

namespace Queue

def new : Queue := { messages := Vector.replicate 2 none, head := 0, len := 0 }

def push (message : Message) : Step Queue Unit := do
  let q ← .get
  .refuse (q.len = 2) (.refused .wouldBlock)
  .change fun q => { q with
    messages := q.messages.setAt (Fin.ofNat 2 (q.head + q.len)) (some message)
    len := q.len + 1 }

def peek (q : Queue) : Option Message := q.messages[q.head]

def pop : Step Queue Unit := do
  let q ← .get
  .require (0 < q.len)
  .change fun q => { messages := q.messages.setAt q.head none
                     head := Fin.ofNat 2 (q.head + 1)
                     len := q.len - 1 }

end Queue

/-- A side of a channel. -/
structure Endpoint where
  channel : UInt64
  side : Fin 2
  deriving DecidableEq

/-- The other side. -/
def Endpoint.peer (e : Endpoint) : Endpoint := { e with side := 1 - e.side }

structure Channel where
  id : UInt64
  isOpen : Vector Bool 2
  queues : Vector Queue 2
  deriving DecidableEq

namespace Channel

def new (id : UInt64) : Channel :=
  { id := id, isOpen := Vector.replicate 2 true, queues := Vector.replicate 2 .new }

/-- Run a computation on the queue of one side. -/
def onQueue {α : Type} (side : Fin 2) (x : Step Queue α) : Step Channel α :=
  .on (fun c => c.queues[side]) (fun c q => { c with queues := c.queues.setAt side q }) x

def send (side : Fin 2) (message : Message) : Step Channel Unit := do
  let c ← .get
  .refuse (¬ c.isOpen[1 - side]) (.refused .closed)
  onQueue (1 - side) (Queue.push message)

def peek (c : Channel) (side : Fin 2) : Except Error Message :=
  orRefuse (if c.isOpen[1 - side] then .wouldBlock else .closed) c.queues[side].peek

def pop (side : Fin 2) : Step Channel Unit := onQueue side Queue.pop

/-- Close one side and drop what it had not read. -/
def close (c : Channel) (side : Fin 2) : Channel :=
  { c with isOpen := c.isOpen.setAt side false, queues := c.queues.setAt side .new }

/-- Whether both sides are closed. -/
def closed (c : Channel) : Bool := !c.isOpen[0] && !c.isOpen[1]

end Channel

/-! ### The broker -/

def CHANNELS : Nat := 24
def ENDPOINT_HANDLES : Nat := 64
def HANDLES_PER_OWNER : Nat := 24

abbrev Handles := Table Endpoint ENDPOINT_HANDLES HANDLES_PER_OWNER

structure Broker where
  channels : Slots Channel CHANNELS
  handles : Handles
  nextChannel : UInt64

/-- Refuse as the handle table does. -/
def held {σ α : Type} (x : Except HandleError α) : Step σ α := .check (x.mapError .ofHandle)

namespace Broker

def new : Broker where
  channels := Vector.replicate CHANNELS none
  handles := .new 0 ALL TRANSFER
  nextChannel := 1

/-- The slot and the channel of an endpoint that a live handle names. -/
def slot (endpoint : Endpoint) : Step Broker (Fin CHANNELS × Channel) := do
  let b ← .get
  .expect (b.channels.position fun c => c.id == endpoint.channel)

/-- Run a computation on the channel in a slot. -/
def onChannel {α : Type} (slot : Fin CHANNELS) (c : Channel) (x : Step Channel α) :
    Step Broker α :=
  .on (fun _ => c) (fun b c => { b with channels := b.channels.setAt slot (some c) }) x

def connect (a b : UInt64) : Step Broker (UInt64 × UInt64) := do
  let s ← .get
  let slot ← .check (orRefuse .quota s.channels.vacant)
  let next ← .check (orRefuse .quota (checkedAdd s.nextChannel 1))
  let endpoint : Endpoint := { channel := s.nextChannel, side := 0 }
  let (first, handles) ← held (s.handles.grant a endpoint ALL)
  .change fun s => { s with handles := handles }
  match handles.grant b { endpoint with side := 1 } ALL with
  | .ok (second, handles) =>
    .change fun s => { channels := s.channels.setAt slot (some (.new s.nextChannel))
                       handles := handles
                       nextChannel := next }
    return (first, second)
  | .error error =>
    let (_, handles) ← held (handles.remove a first)
    .change fun s => { s with handles := handles }
    held (.error error)

def send (owner handle : UInt64) (bytes : List UInt8) : Step Broker Unit := do
  let s ← .get
  let endpoint ← held (s.handles.resolve owner handle WRITE)
  let message ← .check (Message.decode bytes owner)
  let (slot, channel) ← slot endpoint
  onChannel slot channel (Channel.send endpoint.side message)

def peek (owner handle : UInt64) : Step Broker Message := do
  let s ← .get
  let endpoint ← held (s.handles.resolve owner handle READ)
  let (_, channel) ← slot endpoint
  .check (channel.peek endpoint.side)

def consume (owner handle : UInt64) : Step Broker Unit := do
  let s ← .get
  let endpoint ← held (s.handles.resolve owner handle READ)
  let (slot, channel) ← slot endpoint
  let _ ← .check (channel.peek endpoint.side)
  onChannel slot channel (Channel.pop endpoint.side)

def close (owner handle : UInt64) : Step Broker Unit := do
  let s ← .get
  let (endpoint, handles) ← held (s.handles.remove owner handle)
  .change fun s => { s with handles := handles }
  let (slot, channel) ← slot endpoint
  let channel := channel.close endpoint.side
  .change fun s => { s with
    channels := s.channels.setAt slot (if channel.closed then none else some channel) }

/-- The turns left of the loop that closes an owner's handles. -/
def closeOwnerLoop (owner : UInt64) : Nat → Step Broker Unit
  | 0 => .fail .looping
  | turns + 1 => do
    let s ← .get
    match s.handles.first owner with
    | none => return ()
    | some handle =>
      let closed ← .attempt (close owner handle)
      .expect closed.toOption
      closeOwnerLoop owner turns

/-- Close every handle of an owner; one turn more than there are handles is enough. -/
def closeOwner (owner : UInt64) : Step Broker Unit := closeOwnerLoop owner (ENDPOINT_HANDLES + 1)

def transfer (owner handle target : UInt64) (rights : UInt8) : Step Broker UInt64 := do
  let s ← .get
  let (id, handles) ← held (s.handles.transfer owner handle target rights)
  .change fun s => { s with handles := handles }
  return id

end Broker

/-! ### Calls -/

/-- A call to the broker. -/
inductive Call where
  | connect (a b : UInt64)
  | send (owner handle : UInt64) (bytes : List UInt8)
  | peek (owner handle : UInt64)
  | consume (owner handle : UInt64)
  | close (owner handle : UInt64)
  | closeOwner (owner : UInt64)
  | transfer (owner handle target : UInt64) (rights : UInt8)
  deriving DecidableEq

/-- What a call returns. -/
inductive Value where
  | none
  | message (m : Message)
  | handle (id : UInt64)
  | handles (first second : UInt64)
  deriving DecidableEq

/-- The outcome of a call. -/
abbrev Answer := Except (Halt Error) Value

/-- Run a call. -/
def Broker.perform : Call → Step Broker Value
  | .connect a b => do
    let (first, second) ← connect a b
    return .handles first second
  | .send owner handle bytes => do
    send owner handle bytes
    return .none
  | .peek owner handle => return .message (← peek owner handle)
  | .consume owner handle => do
    consume owner handle
    return .none
  | .close owner handle => do
    close owner handle
    return .none
  | .closeOwner owner => do
    closeOwner owner
    return .none
  | .transfer owner handle target rights => return .handle (← transfer owner handle target rights)

/-- The answer to a call. -/
def Broker.answer (s : Broker) (call : Call) : Answer := ((perform call).run s).1

/-- The broker after a call. -/
def Broker.next (s : Broker) (call : Call) : Broker := ((perform call).run s).2

end RusticOs.Kernel.Ipc
