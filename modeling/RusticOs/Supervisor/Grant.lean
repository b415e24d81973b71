import RusticOs.Lib.Cells
import RusticOs.Lib.Runs

/-!
# `RusticOs.Supervisor.Grant`: the administrative grant sequence of one dormant child

`apps/supervisor/src/grant.rs`. The module owns the order of the private administrative
operations and the words they carry. An exchange answers with eight words, the first of them
zero when the service accepted. `Event` lists the transitions the supervisor can apply;
`Sequence.Takes` says when it may apply them.
-/

set_option autoImplicit false

namespace RusticOs.Supervisor

open RusticOs.Lib

/-- The words of one administrative exchange. -/
abbrev Words := Vector UInt64 8

/-! ### Requests -/

/-- Private derivation of one helper level from a live root. -/
def derive : UInt64 := 37

/-- `files::GRANT`. -/
def grantOp : UInt64 := 32

/-- `files::REVOKE`. -/
def revokeOp : UInt64 := 33

/-- `files::GRANT_SECOND_SCOPE`. -/
def grantSecondScope : UInt64 := 38

/-- Client slots that the shell and the supervisor hold. -/
def reserved : Nat := 2

/-- The recovery identity of the shell's owner client and of the supervisor. -/
def ownerSubject : UInt64 := 1

/-! The roles that `subject` and `extends` tell apart. -/

def lostReply : UInt64 := 7
def lostOperation : UInt64 := 10
def lostAdmission : UInt64 := 11
def admissionSession : UInt64 := 12
def privateAdmissionSession : UInt64 := 13
def tasksOwner : UInt64 := 15

/-- Everything the service is told about one child's authority. -/
structure Request where
  slot : Nat
  role : UInt64
  peer : UInt64
  endpoint : UInt64
  scope : UInt32
  other : UInt32
  rights : UInt8
  expires : UInt64
  parent : UInt32

namespace Request

def client (r : Request) : UInt64 := UInt64.ofNat (r.slot + reserved)

/-- Recovery identity installed with the grant; zero for no durable-operation authority. -/
def subject (r : Request) : UInt64 :=
  if r.role = privateAdmissionSession then r.peer
  else if r.role = tasksOwner then r.other.toUInt64
  else if r.role = lostReply ∨ r.role = lostOperation ∨ r.role = lostAdmission
      ∨ r.role = admissionSession then ownerSubject
  else 0

/-- Only the two-scope role receives authority over its second object. -/
def extends_ (r : Request) : Bool := r.role = tasksOwner

end Request

/-! ### The sequence -/

/-- Where the sequence stands with respect to the file service. -/
inductive Phase where
  | install | extend | ready | withdraw | done
  deriving DecidableEq, Repr

/-- What the caller must do after one transition. -/
inductive Step where
  | again
  | ready (generation : UInt32)
  | failed (error : UInt64)
  deriving DecidableEq

/-- Phase and generation of one child's administrative sequence. -/
structure Sequence where
  phase : Phase
  generation : UInt32
  failure : UInt64
  leaked : Bool
  deriving DecidableEq

/-- The generation of an accepted reply: nonzero, in 32 bits, and nothing after it. -/
def generationOf (w : Words) : Option UInt32 :=
  if w[1] ≠ 0 ∧ w[1].toNat < 2 ^ 32 ∧ (w.toList.drop 2).all (· == 0) = true then some w[1].toUInt32
  else none

namespace Sequence

def new : Sequence := { phase := .install, generation := 0, failure := 0, leaked := false }

/-- A root is installed in the service and no running child holds it. -/
def outstanding (s : Sequence) : Bool := s.generation ≠ 0 && s.phase ≠ .done

/-- Words that withdraw the installed root, in any phase. -/
def withdrawal (_ : Sequence) (r : Request) : Words := #v[revokeOp, r.client, 0, 0, 0, 0, 0, 0]

/-- Words of the exchange this phase owes the service. -/
def words (s : Sequence) (r : Request) : Words :=
  match s.phase with
  | .extend =>
    #v[grantSecondScope, r.client, s.generation.toUInt64, r.other.toUInt64, 0, 0, 0, 0]
  | .withdraw => s.withdrawal r
  | .install =>
    if r.parent ≠ 0 then
      #v[derive, r.client, r.parent.toUInt64, r.peer, r.endpoint, r.scope.toUInt64,
        r.rights.toUInt64, r.expires]
    else
      #v[grantOp, r.client, r.peer, r.endpoint, r.scope.toUInt64, r.rights.toUInt64, r.expires,
        r.subject]
  | .ready | .done => Vector.replicate 8 0

/-- An installed root must go before the job may report `error`. -/
def beginWithdrawal (s : Sequence) (error : UInt64) : Step × Sequence :=
  (.again, { s with failure := error, phase := .withdraw })

/-- The exchange, a precondition, the activation or the job deadline failed. -/
def fail (s : Sequence) (error : UInt64) : Step × Sequence :=
  match s.phase with
  | .withdraw => (.again, s)
  | .done => (.failed error, s)
  | _ =>
    if s.generation = 0 then (.failed error, { s with phase := .done })
    else s.beginWithdrawal error

/-- Interpret one decoded administrative reply. -/
def reply (s : Sequence) (r : Request) (w : Words) : Step × Sequence :=
  match s.phase with
  | .withdraw => (.failed s.failure, { s with leaked := w[0] ≠ 0, phase := .done })
  | .ready | .done => s.fail 4
  | .install =>
    if w[0] ≠ 0 then s.fail 2
    else
      match generationOf w with
      | none => s.beginWithdrawal 4
      | some generation =>
        if r.extends_ then (.again, { s with generation, phase := .extend })
        else (.ready generation, { s with generation, phase := .ready })
  | .extend =>
    if w[0] ≠ 0 then s.fail 2
    else
      match generationOf w with
      | none => s.beginWithdrawal 4
      | some generation =>
        -- the service echoes the unchanged generation
        if generation ≠ s.generation then s.fail 4
        else (.ready generation, { s with phase := .ready })

/-- The child is running and owns the grant. -/
def activated (s : Sequence) : Sequence := { s with phase := .done }

/-- The administrative channel cannot carry another exchange. -/
def abandon (s : Sequence) (error : UInt64) : UInt64 × Sequence :=
  (if s.failure ≠ 0 then s.failure else error,
    { s with leaked := s.outstanding, phase := .done })

end Sequence

/-! ### Runs -/

/-- The transitions of a sequence. -/
inductive Event where
  | reply (r : Request) (w : Words)
  | fail (error : UInt64)
  | abandon (error : UInt64)
  | activated

/-- The sequence after an event. -/
def Sequence.apply (s : Sequence) : Event → Sequence
  | .reply r w => (s.reply r w).2
  | .fail error => (s.fail error).2
  | .abandon error => (s.abandon error).2
  | .activated => s.activated

/-- The sequence has not ended, and a child is activated only once its root is ready. -/
def Sequence.Takes (s : Sequence) (e : Event) : Prop :=
  s.phase ≠ .done ∧ (e = .activated → s.phase = .ready)

/-- The sequence a list of events leads to. -/
def Sequence.after (events : List Event) : Sequence := run Sequence.apply Sequence.new events

/-- Events that can happen in this order, the last of them perhaps ending the sequence. -/
def Possible (events : List Event) : Prop :=
  Allowed Sequence.Takes Sequence.apply Sequence.new events

/-- The service accepts: a root is installed. -/
def Sequence.Accepts (s : Sequence) (e : Event) : Prop :=
  s.phase = .install ∧ ∃ r w, e = .reply r w ∧ w[0] = 0

/-- Some reply installed a root. -/
def Accepted (events : List Event) : Prop :=
  ∃ before e, before ++ [e] <+: events ∧ (Sequence.after before).Accepts e

/-- An event that is no accepting reply without a generation in it. -/
def Event.Usable : Event → Prop
  | .reply _ w => w[0] = 0 → (generationOf w).isSome = true
  | _ => True

/-- What a sequence owes the owner of the root: it reports an installed root as outstanding
until it ends, it ends by handing the root over, by withdrawing it or by reporting it leaked,
and it never reports a leak when nothing was installed. -/
structure Secure (events : List Event) : Prop where
  held : Accepted events → (Sequence.after events).phase ≠ .done →
    (Sequence.after events).outstanding = true
  ended : ∀ before e, events = before ++ [e] → Accepted events →
    (Sequence.after events).phase = .done →
      e = .activated
        ∨ (∃ r w, e = .reply r w ∧ w[0] = 0 ∧ (Sequence.after before).phase = .withdraw
          ∧ (Sequence.after before).words r = (Sequence.after before).withdrawal r)
        ∨ (Sequence.after events).leaked = true
  honest : ¬ Accepted events → (Sequence.after events).leaked = false

end RusticOs.Supervisor
