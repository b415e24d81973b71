import RusticOs.Fs.Basic
import RusticOs.Lib.Runs
import RusticOs.Lib.Slots

/-!
# `RusticOs.Kernel.Process`: the table of processes

`kernel/src/process/lifecycle.rs`: sixteen slots in round robin. A call either refuses and leaves
the table as it is, or gives its answer with the changed table. `Table.run` is a whole sequence
of calls, `Table.answers` what its successful calls answered.
-/

set_option autoImplicit false

namespace RusticOs.Kernel.Process

open RusticOs.Lib
open RusticOs.Fs (checkedAdd)

/-- How a process ended. -/
inductive Exit where
  | code (value : UInt64)
  | fault (vector error address : UInt64)
  | killed
  deriving DecidableEq

inductive State where
  | dormant
  | ready
  | running
  | blocked
  | exited (exit : Exit)
  deriving DecidableEq

def State.isExited : State → Bool
  | .exited _ => true
  | _ => false

/-- Why the table refuses. -/
inductive Error where
  | full
  | unknown
  | running
  | notExited
  | alreadyExited
  | notRunning
  | notBlocked
  | exhausted
  deriving DecidableEq

structure Record where
  pid : UInt64
  state : State
  deriving DecidableEq

/-- The processes, the pid of the next one and the slot that was selected last. -/
structure Table where
  slots : Slots Record 16
  next : UInt64
  cursor : Fin 16

namespace Table

def new : Table where
  slots := Vector.replicate 16 none
  next := 1
  cursor := Fin.last 15

def create (t : Table) : Except Error ((Fin 16 × UInt64) × Table) := do
  let slot ← orRefuse .full t.slots.vacant
  let next ← orRefuse .exhausted (checkedAdd t.next 1)
  pure ((slot, t.next), { t with slots := t.slots.setAt slot (some ⟨t.next, .ready⟩), next })

/-- The slot of a process, with its record. -/
def slot (t : Table) (pid : UInt64) : Except Error (Fin 16 × Record) :=
  orRefuse .unknown (t.slots.position fun r => r.pid == pid)

def state (t : Table) (pid : UInt64) : Except Error State := do
  let (_, record) ← t.slot pid
  pure record.state

/-- Change the state of a process, if its state is an allowed one. -/
def alter (t : Table) (pid : UInt64) (allowed : State → Bool) (refusal : Error) (state : State) :
    Except Error Table := do
  let (slot, record) ← t.slot pid
  reject (allowed record.state = false) refusal
  pure { t with slots := t.slots.setAt slot (some { record with state }) }

def hold (t : Table) (pid : UInt64) : Except Error Table :=
  t.alter pid (· == .ready) .notRunning .dormant

def start (t : Table) (pid : UInt64) : Except Error Table :=
  t.alter pid (· == .dormant) .notRunning .ready

def suspend (t : Table) (pid : UInt64) : Except Error Table :=
  t.alter pid (· == .running) .notRunning .ready

def finish (t : Table) (pid : UInt64) (exit : Exit) : Except Error Table :=
  t.alter pid (fun state => !state.isExited) .alreadyExited (.exited exit)

def block (t : Table) (pid : UInt64) : Except Error Table :=
  t.alter pid (· == .running) .notRunning .blocked

def wake (t : Table) (pid : UInt64) : Except Error Table :=
  t.alter pid (· == .blocked) .notBlocked .ready

/-- The slot some way ahead of another one. -/
def ahead (cursor : Fin 16) (distance : Nat) : Fin 16 :=
  ⟨(cursor.val + distance) % 16, Nat.mod_lt _ (by decide)⟩

/-- The ready process nearest ahead of the cursor, which itself comes last. -/
def nearest (t : Table) : Option (Fin 16 × Record) :=
  (List.range 16).findSome? fun d =>
    (t.slots[ahead t.cursor (d + 1)].filter (·.state == .ready)).map
      fun record => (ahead t.cursor (d + 1), record)

def schedule (t : Table) : Except Error (Option (Fin 16 × UInt64) × Table) := do
  reject (t.slots.position (·.state == .running)).isSome .running
  match t.nearest with
  | none => pure (none, t)
  | some (slot, record) =>
    pure (some (slot, record.pid),
      { t with
        slots := t.slots.setAt slot (some { record with state := .running })
        cursor := slot })

def reap (t : Table) (pid : UInt64) : Except Error (Exit × Table) := do
  let (slot, record) ← t.slot pid
  match record.state with
  | .exited exit => pure (exit, { t with slots := t.slots.setAt slot none })
  | _ => .error .notExited

end Table

/-! ### Sequences of calls -/

inductive Call where
  | create
  | hold (pid : UInt64)
  | start (pid : UInt64)
  | schedule
  | suspend (pid : UInt64)
  | block (pid : UInt64)
  | wake (pid : UInt64)
  | finish (pid : UInt64) (exit : Exit)
  | reap (pid : UInt64)

/-- What a successful call answers. -/
inductive Answer where
  | created (slot : Fin 16) (pid : UInt64)
  | altered
  | scheduled (selected : Option (Fin 16 × UInt64))
  | reaped (exit : Exit)

namespace Table

def perform (t : Table) : Call → Except Error (Answer × Table)
  | .create => do
    let ((slot, pid), t) ← t.create
    pure (.created slot pid, t)
  | .hold pid => do pure (.altered, ← t.hold pid)
  | .start pid => do pure (.altered, ← t.start pid)
  | .schedule => do
    let (selected, t) ← t.schedule
    pure (.scheduled selected, t)
  | .suspend pid => do pure (.altered, ← t.suspend pid)
  | .block pid => do pure (.altered, ← t.block pid)
  | .wake pid => do pure (.altered, ← t.wake pid)
  | .finish pid exit => do pure (.altered, ← t.finish pid exit)
  | .reap pid => do
    let (exit, t) ← t.reap pid
    pure (.reaped exit, t)

/-- The table after a call. -/
def step (t : Table) (call : Call) : Table :=
  match t.perform call with
  | .ok (_, t') => t'
  | .error _ => t

/-- The table after a sequence of calls. -/
abbrev run (t : Table) (calls : List Call) : Table := Lib.run step t calls

/-- What the successful calls of a sequence answer, in order. -/
def answers : Table → List Call → List Answer
  | _, [] => []
  | t, call :: calls =>
    match t.perform call with
    | .ok (answer, t') => answer :: answers t' calls
    | .error _ => answers t calls

/-- The pids a sequence of calls creates. -/
def created (t : Table) (calls : List Call) : List UInt64 :=
  (t.answers calls).filterMap fun
    | .created _ pid => some pid
    | _ => none

/-- The pids the successful `schedule` calls of a sequence select, `none` where no process was
ready. -/
def scheduled (t : Table) (calls : List Call) : List (Option UInt64) :=
  (t.answers calls).filterMap fun
    | .scheduled selected => some (selected.map Prod.snd)
    | _ => none

end Table

end RusticOs.Kernel.Process
