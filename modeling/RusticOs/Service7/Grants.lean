import RusticOs.Abi.Reply
import RusticOs.Fs.Session7

/-!
# `RusticOs.Service7.Grants`: client authority and scope checks of the v7 service

`file-service/src/v7/grants.rs` and `v7/scope.rs`, with the error projection of `reply.rs`.
The table records what the owner installed: four slots, each with a grant, and the next
context, which is the generation a new grant receives. Scope checks walk the parent links of
the mounted generation.
-/

set_option autoImplicit false

namespace RusticOs.Service7

open RusticOs.Lib RusticOs.Abi
open RusticOs.Fs (Volume7 Node7 Kind)

/-- `reply::error`: what the wire says about a filesystem refusal. -/
def replyError : Fs.Error → Error
  | .io => .io
  | .uncertain => .uncertain
  | .invalid => .invalid
  | .corrupt => .corrupt
  | .notFound => .notFound
  | .existing => .existing
  | .notDirectory => .notDirectory
  | .isDirectory => .isDirectory
  | .notEmpty => .notEmpty
  | .full => .full
  | .size => .size
  | .version => .version
  | .readOnly => .readOnly
  | .empty => .empty
  | .exhausted => .exhausted
  | .unsupported => .unsupported
  | .lineage => .lineage
  | .expiredEpoch => .expiredEpoch
  | .outcomeUnknown => .outcomeUnknown
  | .idempotencyConflict => .idempotencyConflict
  | .busy => .busy
  -- the completed-only wire profile cannot describe a durable cancellation
  | .cancelled => .unsupported

/-- A filesystem result as the wire reports it. -/
def reported {α : Type} : Except Fs.Error α → Except Error α
  | .ok a => .ok a
  | .error e => .error (replyError e)

/-- `Volume7::header`. -/
def header (v : Volume7) : Except Fs.Error Fs.Header7 := do
  v.ready
  pure v.header

/-- `Volume7::retained_records`: the retained records, in slot order. -/
def retainedRecords (v : Volume7) : Except Fs.Error (List Fs.Record7) := do
  v.ready
  pure v.records.toList.reduceOption

/-! ### Scopes -/

/-- A live node; a missing one is `Denied`. -/
def node (v : Volume7) (id : UInt32) : Except Error Node7 :=
  match v.stat id with
  | .ok n => .ok n
  | .error .notFound => .error .denied
  | .error e => .error (replyError e)

/-- Walk up at most `fuel` parent links, looking for `ancestor`. -/
def ascend (v : Volume7) (ancestor : UInt32) : Nat → Node7 → Except Error Bool
  | 0, _ => .ok false
  | fuel + 1, current =>
    if current.parent = 0 then .ok false
    else do
      let parent ← node v current.parent
      if parent.kind ≠ .directory ∨ parent.space ≠ current.space then .ok false
      else if parent.id = ancestor then .ok true
      else ascend v ancestor fuel parent

/-- A file scope reaches itself; only directories authorize descendants. -/
def within (v : Volume7) (resource ancestor : Node7) : Except Error Bool :=
  if resource.id = ancestor.id then .ok true
  else if ancestor.kind ≠ .directory ∨ resource.space ≠ ancestor.space then .ok false
  else ascend v ancestor.id 256 resource

/-- The resource node, when `workspace` is a directory that contains it and it lies within
the grant `scope`. -/
def authorizedResource (v : Volume7) (scope workspace resource : UInt32) :
    Except Error Node7 := do
  let workspaceNode ← node v workspace
  reject (workspaceNode.kind ≠ .directory) .denied
  let resourceNode ← node v resource
  reject ((← within v resourceNode workspaceNode) = false) .denied
  let scopeNode ← node v scope
  reject ((← within v resourceNode scopeNode) = false) .denied
  pure resourceNode

/-- A live node of that identity lies within the scope. A failed lookup hides it. -/
def placed (v : Volume7) (scopeNode : Node7) (id : UInt32) : Bool :=
  match node v id with
  | .ok live => (within v live scopeNode).toOption.getD false
  | .error _ => false

/-- Whether a retained record of `workspace` and `object` lies within `scope`, as far as the
live namespace can still show it. -/
def retainedVisible (v : Volume7) (scope workspace object : UInt32) : Bool :=
  if scope = workspace ∨ scope = object then true
  else
    match node v scope with
    | .ok scopeNode => [workspace, object].any (placed v scopeNode)
    | .error _ => false

/-! ### Grants -/

/-- Reads, tracked replacement, and inspection of its receipts. -/
def trackedWrite7 : UInt8 := readRight ||| writeRight ||| inspectRight

/-- Authority the owner asks to install in one slot. -/
structure GrantRequest7 where
  peer : UInt64
  endpoint : UInt64
  scope : UInt32
  rights : UInt8
  subject : UInt64
  expires : UInt64
  deriving DecidableEq

/-- Installed authority. `context` is its generation. -/
structure Grant7 extends GrantRequest7 where
  context : UInt32
  deriving DecidableEq

/-- The grant has every right in `rights`. -/
def Grant7.holds (g : Grant7) (rights : UInt8) : Except Error Unit :=
  reject (g.rights &&& rights ≠ rights) .denied

/-- One installed grant. A revoked one keeps its endpoint binding. -/
structure Slot where
  grant : Grant7
  revoked : Bool
  deriving DecidableEq

/-- The deadline of the grant has passed at `now`. -/
def Slot.Expired (s : Slot) (now : UInt64) : Prop := s.grant.expires ≠ 0 ∧ now ≥ s.grant.expires

instance (s : Slot) (now : UInt64) : Decidable (s.Expired now) :=
  inferInstanceAs (Decidable (_ ∧ _))

/-- The slot table. -/
structure Grants where
  slots : Vector (Option Slot) 4
  nextContext : UInt32

namespace Grants

/-- What a slot holds. -/
def entry (g : Grants) (slot : Nat) : Option Slot := g.slots[slot]?.join

/-- Permanently revoke the slot's current generation. -/
def revoke (g : Grants) (slot : Nat) : Except Error Grants := do
  reject (slot ≥ 4) .invalid
  let old ← orRefuse .notFound (g.entry slot)
  pure { g with slots := g.slots.setIfInBounds slot (some { old with revoked := true }) }

/-- Forget the slot. -/
def detach (g : Grants) (slot : Nat) : Grants :=
  { g with slots := g.slots.setIfInBounds slot none }

/-- Revoke an entry whose deadline has passed. -/
def expireSlot (now : UInt64) (s : Slot) : Slot :=
  if s.Expired now then { s with revoked := true } else s

/-- Mark expired slots revoked. -/
def expire (g : Grants) (now : UInt64) : Grants :=
  { g with slots := g.slots.map (Option.map (expireSlot now)) }

/-- The slots an expiry revokes. -/
def expired (g : Grants) (now : UInt64) : Vector Bool 4 :=
  g.slots.map fun e => e.any fun s => !s.revoked && decide (s.Expired now)

/-- The live grant for a request from `peer` carrying `context` at `now`. -/
def check (g : Grants) (slot : Nat) (peer : UInt64) (context : UInt32) (now : UInt64) :
    Except Error Grant7 := do
  let s ← orRefuse .denied (g.entry slot)
  reject (s.grant.peer ≠ peer) .denied
  reject (s.revoked = true ∨ s.grant.context ≠ context) .revoked
  reject (s.Expired now) .expired
  pure s.grant

end Grants

end RusticOs.Service7
