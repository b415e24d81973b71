import RusticOs.Fs.Admission7

/-!
# `RusticOs.Fs.Session7`: runs of the public v7 calls

A session is one owner over its life: idle, or lent to a publication. `Call` lists every
public call that touches the owner or the disk, with the events around them: a poll that
settles or not, a drop, a power cut that keeps any subset of the unflushed writes, and the
explicit recovery of a command that was left outstanding. A call the borrow rules forbid in
a state does nothing.

The answers of the disk are part of its state, so a run over an arbitrary disk is a run
under arbitrary disk errors. A power cut inside a call is a disk that fails every command
from some point on, the first of them applied or not, followed by `Call.powerCut`.
-/

set_option autoImplicit false

namespace RusticOs.Fs

open RusticOs.Lib

/-- An owner that is free, or lent to a publication. -/
inductive Session where
  | idle (w : World7)
  | publishing (p : PollPublication7)

/-- The world of a session. -/
def Session.world : Session → World7
  | .idle w => w
  | .publishing p => p.world

/-- Calls and events. -/
inductive Call where
  | provision (lineage : Bytes 16)
  | mount
  | create (parent : UInt32) (name : List UInt8) (kind : Kind)
  | remove (id : UInt32)
  | maintain
  | replaceTracked (identity : WriteIdentity7) (expectedVersion : UInt64) (bytes : List UInt8)
  | openStage (identity : WriteIdentity7) (expectedVersion : UInt64) (length : UInt32)
      (kind : Stage7Kind)
  | stageWrite (stage : Stage7) (bytes : List UInt8)
  | abortStage (stage : Stage7)
  | releaseStages
  | finishTracked (stage : Stage7)
  | prepareAdmission (identity : WriteIdentity7) (expectedVersion : UInt64) (bytes : List UInt8)
  | finishAdmission (stage : Stage7)
  | prepareExecute (identity : WriteIdentity7) (expectedVersion : UInt64)
  | prepareCancellation (identity : WriteIdentity7) (expectedVersion : UInt64)
      (prevention : PreventionReason)
  | readRange (id : UInt32) (expectedVersion : Option UInt64) (offset : UInt64) (size : Nat)
  | readRetainedRange (record : Record7) (offset : UInt64) (size : Nat)
  | poll (settled : Bool)
  | abort
  | drop
  | powerCut (mask : List Bool) (replies : Nat → Reply Error)
  | resolve (applied : Bool)

/-- What a call answers. -/
inductive Response where
  | unit (r : Except Error Unit)
  | node (r : Except Error Node7)
  | epoch (r : Except Error UInt64)
  | record (r : Except Error Record7)
  | token (r : Except Error Stage7)
  | remaining (r : Except Error UInt32)
  | count (n : Nat)
  | bytes (r : Except Error (List UInt8))
  | begun (r : Except Error Unit)
  | phase (r : Poll (Except Error Publication7Phase))
  | cancel (r : Except Error Publication7Cancel)
  | event

/-- Run an operation on an idle owner. -/
def finishOp {α : Type} (reply : Except Error α → Response) (x : Op α) (w : World7) :
    Session × Response :=
  (.idle (x.run w).2, reply (x.run w).1)

/-- Run an operation that lends the owner to a publication. -/
def beginPublication (x : Op PollPublication7) (w : World7) : Session × Response :=
  match x.run w with
  | (.ok p, _) => (.publishing p, .begun (.ok ()))
  | (.error e, w') => (.idle w', .begun (.error e))

/-- The world after a power cut: a new program on what reached storage. -/
def World7.powerCut (w : World7) (mask : List Bool) (replies : Nat → Reply Error) : World7 :=
  { volume := Volume7.empty
    disk := { w.disk with
      medium := ⟨w.disk.exposed.cut mask, []⟩, inflight := none, replies }
    nextOwner := 1 }

/-- The calls of an idle owner. -/
def idleStep (w : World7) : Call → Session × Response
  | .provision lineage => finishOp .unit (provisionInto lineage) w
  | .mount => finishOp .unit mountInto w
  | .create parent name kind => finishOp .node (create parent name kind) w
  | .remove id => finishOp .unit (remove id) w
  | .maintain => finishOp .epoch maintainRetention w
  | .replaceTracked identity version bytes =>
    finishOp .record (replaceTracked identity version bytes) w
  | .openStage identity version length kind =>
    finishOp .token (openStage identity version length kind) w
  | .stageWrite stage bytes => finishOp .remaining (stageWrite stage bytes) w
  | .abortStage stage => finishOp .unit (abortStage stage) w
  | .releaseStages => finishOp (fun r => .count (r.toOption.getD 0)) releaseStages w
  | .finishTracked stage => finishOp .record (finishTracked stage) w
  | .prepareAdmission identity version bytes =>
    beginPublication (prepareAdmission identity version bytes) w
  | .finishAdmission stage => beginPublication (finishAdmission stage) w
  | .prepareExecute identity version => beginPublication (prepareExecute identity version) w
  | .prepareCancellation identity version prevention =>
    beginPublication (prepareCancellation identity version prevention) w
  | .readRange id version offset size => finishOp .bytes (readRange id version offset size) w
  | .readRetainedRange record offset size =>
    finishOp .bytes (readRetainedRange record offset size) w
  | .powerCut mask replies => (.idle (w.powerCut mask replies), .event)
  | .resolve applied => (.idle { w with disk := w.disk.resolve applied }, .event)
  | .poll _ | .abort | .drop => (.idle w, .event)

/-- The calls while the owner is lent. -/
def publishingStep (p : PollPublication7) : Call → Session × Response
  | .poll settled => (.publishing (p.pollAdvance settled).2, .phase (p.pollAdvance settled).1)
  | .abort => (.publishing p.abortBeforeHeader.2, .cancel p.abortBeforeHeader.1)
  | .drop => (.idle p.drop, .event)
  | .powerCut mask replies => (.idle (p.world.powerCut mask replies), .event)
  | _ => (.publishing p, .event)

/-- One call. -/
def Session.step : Session → Call → Session × Response
  | .idle w, call => idleStep w call
  | .publishing p, call => publishingStep p call

/-- A sequence of calls. -/
def Session.run (s : Session) (calls : List Call) : Session :=
  calls.foldl (fun s call => (s.step call).1) s

/-- Empty storage on an arbitrary disk. -/
def Session.start (disk : Disk) (nextOwner : UInt64) : Session :=
  .idle { volume := Volume7.empty, disk, nextOwner }

/-- A session some sequence of calls leads to. -/
def Reachable (s : Session) : Prop :=
  ∃ disk nextOwner calls, s = (Session.start disk nextOwner).run calls

theorem reachable_start (disk : Disk) (nextOwner : UInt64) :
    Reachable (Session.start disk nextOwner) :=
  ⟨disk, nextOwner, [], rfl⟩

theorem Reachable.step {s : Session} (h : Reachable s) (call : Call) :
    Reachable (s.step call).1 := by
  obtain ⟨disk, nextOwner, calls, rfl⟩ := h
  exact ⟨disk, nextOwner, calls ++ [call], by simp [Session.run]⟩

end RusticOs.Fs
