import RusticOs.Service7.Writes

/-!
# `RusticOs.Service7.Control`: owner control between the polls of a publication

`file-service/src/v7/control.rs`. Between two polls the owner's callback may revoke or detach
slots and returns its clock. What one callback does, the time it returns, and whether the
outstanding command settles in the poll after it, is one `Turn`. A callback and a disk that
answer as they like are an arbitrary list of turns; a list that ends before the publication
has settled is a request that has not returned yet.
-/

set_option autoImplicit false

namespace RusticOs.Service7

open RusticOs.Lib RusticOs.Abi
open RusticOs.Fs (World7 Record7 PollPublication7)

/-- What the owner may do while a publication is in flight. -/
inductive OwnerAction where
  | revoke (slot : Nat)
  | detach (slot : Nat)

/-- One callback and the poll that follows it. -/
structure Turn where
  actions : List OwnerAction
  now : UInt64
  settled : Bool

/-- The client whose request started the publication. -/
structure Caller7 where
  slot : Nat
  peer : UInt64
  context : UInt32

/-- The grant table and the slots that lost their grant during the request. -/
structure Owner where
  grants : Grants
  lost : Vector Bool 4

namespace Owner

/-- One action of the callback. -/
def act (o : Owner) : OwnerAction → Owner
  | .revoke slot =>
    match o.grants.revoke slot with
    | .ok grants => { grants, lost := o.lost.setIfInBounds slot true }
    | .error _ => o
  | .detach slot =>
    if slot < 4 then
      { grants := o.grants.detach slot, lost := o.lost.setIfInBounds slot true }
    else o

/-- The owner after a callback. -/
def poll (o : Owner) (turn : Turn) : Owner := turn.actions.foldl act o

/-- Revoke every grant that expired by `now`. -/
def expire (o : Owner) (now : UInt64) : Owner :=
  { grants := o.grants.expire now
    lost := Vector.zipWith (· || ·) o.lost (o.grants.expired now) }

/-- The owner after a callback and the expiry that follows it. -/
def turn (o : Owner) (t : Turn) : Owner := (o.poll t).expire t.now

/-- The caller's live authority for `right` at `now`. -/
def callerHolds (o : Owner) (caller : Caller7) (now : UInt64) (right : UInt8) :
    Except Error Unit := do
  let grant ← o.grants.check caller.slot caller.peer caller.context now
  grant.holds right

end Owner

/-- How a driven publication ended: the record it made durable or replayed, none when it was
stopped, and the first authority failure of the caller. -/
structure Driven where
  record : Option Record7
  denied : Option Error

/-- The caller and the right it must keep; nothing for the service's own housekeeping. -/
abbrev Guard := Option (Caller7 × UInt8)

/-- Keep the first authority failure, or look for one after a callback. -/
def observe (guard : Guard) (o : Owner) (now : UInt64) : Option Error → Option Error
  | some e => some e
  | none =>
    match guard with
    | none => none
    | some (caller, right) =>
      match o.callerHolds caller now right with
      | .ok _ => none
      | .error e => some e

/-- A request in progress. -/
structure Serving extends Service where
  owner : Owner
  turns : List Turn

/-- A refusal, or a request that waits for a further callback. -/
inductive Stop where
  | refused (error : Error)
  | waiting

/-- Request handlers that may drive a publication. -/
abbrev Serve := Fallible Stop Serving

/-- Run a handler that drives nothing. -/
def serve {α : Type} (x : Handler α) : Serve α :=
  Fallible.on Serving.toService (fun s t => { s with toService := t }) (x.mapError .refused)

/-- The end of a loop of polls. -/
structure Ended where
  result : Except Error Driven
  owner : Owner
  turns : List Turn
  publication : PollPublication7

/-- The loop of `drive`: a callback, the caller's check, expiry, a stop once authority is
lost, and one poll. -/
def driveLoop (guard : Guard) :
    List Turn → Option Error → Owner → PollPublication7 → Option Ended
  | [], _, _, _ => none
  | turn :: turns, found, o, p =>
    let denied := observe guard (o.poll turn) turn.now found
    let owner := o.turn turn
    match if denied.isSome then p.abortBeforeHeader else (.ok .draining, p) with
    | (.error e, publication) => some ⟨.error (replyError e), owner, turns, publication⟩
    | (.ok _, publication) =>
      match publication.phase with
      | .committed =>
        some ⟨(orRefuse .uncertain publication.result).map fun record =>
          ⟨some record, denied⟩, owner, turns, publication⟩
      | .cancelled =>
        some ⟨if denied.isSome then .ok ⟨none, denied⟩ else .error .uncertain, owner, turns,
          publication⟩
      | _ =>
        match publication.pollAdvance turn.settled with
        | (.ready (.error e), publication) =>
          some ⟨.error (replyError e), owner, turns, publication⟩
        | (_, publication) => driveLoop guard turns denied owner publication

/-- Drive a publication to settlement. A replay that settled without I/O calls no owner
control. -/
def drive (guard : Guard) (turns : List Turn) (o : Owner) (p : PollPublication7) :
    Option Ended :=
  if p.phase = .committed then
    some ⟨(orRefuse .uncertain p.result).map fun record => ⟨some record, none⟩, o, turns, p⟩
  else driveLoop guard turns none o p

/-- Begin a publication and drive it. Dropping it gives the volume back. -/
def publish (guard : Guard) (x : Fs.Op PollPublication7) : Serve Driven :=
  ⟨fun s =>
    match x.run s.world with
    | (.error e, w) => (.error (.refused (replyError e)), { s with world := w })
    | (.ok p, _) =>
      match drive guard s.turns s.owner p with
      | none => (.error .waiting, s)
      | some ended =>
        ((match ended.result with
          | .ok driven => .ok driven
          | .error e => .error (.refused e)),
          { s with
            world := ended.publication.drop, owner := ended.owner, turns := ended.turns })⟩

/-- `published`: pass a publication's result through, forgetting every cached receipt when
the volume ended fenced. -/
def published {α : Type} (x : Serve α) : Serve α :=
  ⟨fun s =>
    match x.run s with
    | (r, t) =>
      (r, if t.world.volume.fenced then { t with writes := t.writes.forgetReceipts } else t)⟩

end RusticOs.Service7
