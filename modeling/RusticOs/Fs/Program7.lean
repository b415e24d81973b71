import RusticOs.Fs.Session7

/-!
# `RusticOs.Fs.Program7`: the owners of one program

The identity an owner opens its stages under comes from one counter of the program,
`NEXT_OWNER` of `volume7/stage.rs`. A `Program` is its owners, each with its own disk, and that
counter; a step is one call of one owner. A power cut ends the program with every owner and every
token in it, so it is no step: the run of a program begins on whatever its disks hold.
-/

set_option autoImplicit false

namespace RusticOs.Fs

open RusticOs.Lib

/-- The owners of a program and the next identity one of them takes. -/
structure Program (n : Nat) where
  owners : Fin n → Session
  nextOwner : UInt64

namespace Program

variable {n : Nat}

/-- One call of owner `k`. An idle owner sees the program's counter. A lent one opens no stage, so
its calls leave the counter alone. -/
def step (p : Program n) (k : Fin n) (call : Call) : Program n × Response :=
  match call, p.owners k with
  | .powerCut _ _, _ => (p, .event)
  | call, .idle w =>
    let next := idleStep { w with nextOwner := p.nextOwner } call
    ({ owners := Function.update p.owners k next.1, nextOwner := next.1.world.nextOwner }, next.2)
  | call, .publishing q =>
    let next := publishingStep q call
    ({ p with owners := Function.update p.owners k next.1 }, next.2)

/-- A sequence of calls. -/
def run (p : Program n) (events : List (Fin n × Call)) : Program n :=
  events.foldl (fun p event => (p.step event.1 event.2).1) p

@[simp] theorem run_nil (p : Program n) : p.run [] = p := rfl

theorem run_cons (p : Program n) (event : Fin n × Call) (events : List (Fin n × Call)) :
    p.run (event :: events) = (p.step event.1 event.2).1.run events := rfl

end Program

end RusticOs.Fs
