import RusticOs.Fs.Volume7

/-!
# `RusticOs.Fs.Store`: what a filesystem volume is for

The abstract model, with no sectors, slots, generations or checksums in it. A store maps
object identities to live entries and retry scopes to durable outcomes, and counts its
publications in `sequence`. A `Request` is one mutation as a caller means it, with its whole
payload. `Store.Applies s r s'` says what a published request does and when it may happen;
`Store.After base history s` chains requests, newest last.
-/

set_option autoImplicit false

namespace RusticOs.Fs

open RusticOs.Lib

/-- A live file or directory. -/
structure Entry where
  parent : UInt32
  name : List UInt8
  kind : Kind
  space : UInt8
  version : UInt64
  bytes : List UInt8

/-- The scope that makes a retry the same request. -/
structure Scope where
  subject : UInt64
  workspace : UInt32
  retryEpoch : UInt64
  retryKey : UInt64
  deriving DecidableEq

/-- A durable outcome and the bytes it was supplied with. -/
structure Outcome where
  object : UInt32
  inst : UInt64
  previous : UInt64
  committed : UInt64
  admissionNumber : UInt64
  terminal : UInt64
  state : RecordState
  prevention : Option PreventionReason
  bytes : List UInt8

/-- The scope of an identity. -/
def WriteIdentity7.scope (identity : WriteIdentity7) : Scope :=
  { subject := identity.subject, workspace := identity.workspace
    retryEpoch := identity.retryEpoch, retryKey := identity.retryKey }

/-- Live entries by identity and durable outcomes by scope. -/
structure Store where
  sequence : UInt64
  epoch : UInt64
  next : UInt32
  entries : UInt32 → Option Entry
  outcomes : Scope → Option Outcome

/-- One mutation. A creation names the identity it hands out. -/
inductive Request where
  | create (id parent : UInt32) (name : List UInt8) (kind : Kind)
  | remove (id : UInt32)
  | replace (identity : WriteIdentity7) (expectedVersion : UInt64) (bytes : List UInt8)
  | accept (identity : WriteIdentity7) (expectedVersion : UInt64) (bytes : List UInt8)
  | execute (identity : WriteIdentity7) (expectedVersion : UInt64)
  | cancel (identity : WriteIdentity7) (expectedVersion : UInt64) (prevention : PreventionReason)
  | maintain

/-- The outcome of a direct replacement published as `sequence`. -/
def Outcome.direct (identity : WriteIdentity7) (expectedVersion sequence : UInt64)
    (bytes : List UInt8) : Outcome :=
  { object := identity.object, inst := identity.inst, previous := expectedVersion
    committed := sequence, admissionNumber := 0, terminal := sequence
    state := .directCommitted, prevention := none, bytes }

/-- The outcome of an admission published as `sequence`. -/
def Outcome.admitted (identity : WriteIdentity7) (expectedVersion sequence : UInt64)
    (bytes : List UInt8) : Outcome :=
  { object := identity.object, inst := identity.inst, previous := expectedVersion
    committed := 0, admissionNumber := sequence, terminal := 0
    state := .admitted, prevention := none, bytes }

/-- An admission executed by the publication `sequence`. -/
def Outcome.execute (o : Outcome) (sequence : UInt64) : Outcome :=
  { o with committed := sequence, terminal := sequence, state := .admittedCommitted }

/-- An admission cancelled by the publication `sequence`. -/
def Outcome.cancel (o : Outcome) (sequence : UInt64) (prevention : PreventionReason) : Outcome :=
  { o with committed := 0, terminal := sequence, state := .cancelled,
           prevention := some prevention }

/-- The outcome answers an identity's request at a version. -/
def Outcome.Answers (o : Outcome) (identity : WriteIdentity7) (expectedVersion : UInt64) : Prop :=
  o.object = identity.object ∧ o.inst = identity.inst ∧ o.previous = expectedVersion

namespace Store

/-- The next sequence. -/
def tick (s : Store) : UInt64 := s.sequence + 1

theorem toNat_tick {s : Store} (room : s.sequence.toNat + 1 < 2 ^ 64) :
    s.tick.toNat = s.sequence.toNat + 1 := by
  rw [tick, UInt64.toNat_add]
  exact Nat.mod_eq_of_lt room

/-- The store with an entry changed by the next publication. -/
def setEntry (s : Store) (id : UInt32) (entry : Option Entry) : Store :=
  { s with sequence := s.tick, entries := Function.update s.entries id entry }

/-- The store with an outcome changed. -/
def setOutcome (s : Store) (scope : Scope) (outcome : Outcome) : Store :=
  { s with outcomes := Function.update s.outcomes scope (some outcome) }

/-- A live file at a version. -/
def FileAt (s : Store) (id : UInt32) (version : UInt64) (entry : Entry) : Prop :=
  s.entries id = some entry ∧ entry.kind = .file ∧ entry.version = version

/-- What one published request does. -/
inductive Applies (s : Store) : Request → Store → Prop where
  | create {parent : UInt32} {name : List UInt8} {kind : Kind} {directory : Entry}
      (parent_live : s.entries parent = some directory)
      (parent_kind : directory.kind = .directory) (kind_ne : kind ≠ .empty)
      (fresh : s.entries s.next = none) (room : s.next.toNat + 1 < 2 ^ 32)
      (unnamed : ∀ k sibling, s.entries k = some sibling →
        ¬ (sibling.parent = parent ∧ sibling.name = name)) :
      Applies s (.create s.next parent name kind)
        { s.setEntry s.next (some { parent, name, kind, space := directory.space
                                    version := s.tick, bytes := [] }) with next := s.next + 1 }
  | remove {id : UInt32} {entry : Entry} (live : s.entries id = some entry)
      (childless : ∀ k child, s.entries k = some child → child.parent ≠ id) :
      Applies s (.remove id) (s.setEntry id none)
  | replace {identity : WriteIdentity7} {expectedVersion : UInt64} {bytes : List UInt8}
      {entry : Entry} (target : s.FileAt identity.object expectedVersion entry)
      (epoch : identity.retryEpoch = s.epoch) (first : s.outcomes identity.scope = none) :
      Applies s (.replace identity expectedVersion bytes)
        ((s.setEntry identity.object (some { entry with version := s.tick, bytes })).setOutcome
          identity.scope (.direct identity expectedVersion s.tick bytes))
  | accept {identity : WriteIdentity7} {expectedVersion : UInt64} {bytes : List UInt8}
      {entry : Entry} (target : s.FileAt identity.object expectedVersion entry)
      (epoch : identity.retryEpoch = s.epoch) (first : s.outcomes identity.scope = none) :
      Applies s (.accept identity expectedVersion bytes)
        ({ s with sequence := s.tick }.setOutcome identity.scope
          (.admitted identity expectedVersion s.tick bytes))
  | execute {identity : WriteIdentity7} {expectedVersion : UInt64} {o : Outcome} {entry : Entry}
      (known : s.outcomes identity.scope = some o) (waiting : o.state = .admitted)
      (answers : o.Answers identity expectedVersion)
      (target : s.FileAt identity.object expectedVersion entry) :
      Applies s (.execute identity expectedVersion)
        ((s.setEntry identity.object (some { entry with version := s.tick, bytes := o.bytes })
          ).setOutcome identity.scope (o.execute s.tick))
  | cancel {identity : WriteIdentity7} {expectedVersion : UInt64} {prevention : PreventionReason}
      {o : Outcome} (known : s.outcomes identity.scope = some o) (waiting : o.state = .admitted)
      (answers : o.Answers identity expectedVersion) :
      Applies s (.cancel identity expectedVersion prevention)
        ({ s with sequence := s.tick }.setOutcome identity.scope (o.cancel s.tick prevention))
  | maintain (settled : ∀ scope o, s.outcomes scope = some o → o.state ≠ .admitted) :
      Applies s .maintain
        { s with sequence := s.tick, epoch := s.epoch + 1, outcomes := fun _ => none }

/-- The store after a history of requests, newest last. -/
inductive After (base : Store) : List Request → Store → Prop where
  | refl : After base [] base
  | snoc {history : List Request} {s s' : Store} {request : Request}
      (before : After base history s) (room : s.sequence.toNat + 1 < 2 ^ 64)
      (applies : s.Applies request s') :
      After base (history ++ [request]) s'

end Store

end RusticOs.Fs
