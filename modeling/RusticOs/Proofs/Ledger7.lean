import RusticOs.Proofs.Admission7
import RusticOs.Proofs.Reads7

/-!
# `RusticOs.Proofs.Ledger7`: the invariant of every session

A `Ledger` is what an observer of the calls and answers writes down. It holds the bytes
supplied to each open stage, the request that may be in the middle of its publication, the
store when the volume was first seen, and the requests published since. A request enters
`history` when an unfenced owner shows a new sequence. Formatting a volume starts the ledger
over.

`Inv g s` relates a ledger to a session:

* an unfenced owner is `Ready`, and its store is the first one with the history applied,
* the disk of a fenced owner stores that state, or that state with the pending request
  applied,
* a lent owner is `Lent` with that state as the contents before it.

`inv_step` is the one theorem about steps; `Observed.inv` is its closure over runs.
-/

set_option autoImplicit false

namespace RusticOs.Fs

open RusticOs.Lib

/-! ### Ledgers -/

/-- What an observer of the calls writes down. -/
structure Ledger where
  staged : Fin 2 → List UInt8
  pending : Option Request
  base : Option Store
  seen : UInt64
  history : List Request

/-- The request a call makes of an owner. -/
def requestOf (staged : Fin 2 → List UInt8) (w : World7) : Call → Option Request
  | .create parent name kind => some (.create w.volume.header.next parent name kind)
  | .remove id => some (.remove id)
  | .maintain => some .maintain
  | .replaceTracked identity version bytes => some (.replace identity version bytes)
  | .finishTracked stage => finishRequest w.volume staged stage .replace
  | .prepareAdmission identity version bytes => some (.accept identity version bytes)
  | .finishAdmission stage => finishRequest w.volume staged stage .accept
  | .prepareExecute identity version => some (.execute identity version)
  | .prepareCancellation identity version prevention =>
    some (.cancel identity version prevention)
  | _ => none

/-- The stage slot of a token. -/
def Stage7.index (stage : Stage7) : Fin 2 := ⟨stage.slot.toNat % 2, Nat.mod_lt _ (by decide)⟩

namespace Ledger

/-- Nothing seen yet. -/
def empty : Ledger :=
  { staged := fun _ => [], pending := none, base := none, seen := 0, history := [] }

/-- Note a call on an idle owner and its answer. -/
def note (g : Ledger) (w : World7) : Call → Response → Ledger
  | .provision lineage, _ =>
    match (Header7.initial lineage).encode with
    | .ok _ => { g with pending := none, base := none, history := [] }
    | .error _ => g
  | .openStage _ _ _ _, .token (.ok token) =>
    { g with staged := Function.update g.staged token.index [] }
  | .stageWrite stage bytes, .remaining (.ok _) =>
    { g with staged := Function.update g.staged stage.index (g.staged stage.index ++ bytes) }
  | .mount, _ | .powerCut _ _, _ | .resolve _, _ => g
  | call, _ => if w.volume.fenced = true then g else { g with pending := requestOf g.staged w call }

/-- Look at an owner. A fenced one shows nothing. -/
def settle (g : Ledger) (w : World7) : Ledger :=
  if w.volume.fenced = true then g
  else
    match g.base with
    | none =>
      { g with
        pending := none
        base := some w.contents.store
        seen := w.volume.header.sequence
        history := [] }
    | some _ =>
      { g with
        pending := none
        seen := w.volume.header.sequence
        history := if w.volume.header.sequence = g.seen then g.history
          else g.history ++ g.pending.toList }

/-- Follow one call. -/
def step (g : Ledger) (s : Session) (call : Call) : Ledger :=
  match s with
  | .idle w => (g.note w call (s.step call).2).settle (s.step call).1.world
  | .publishing _ => g.settle (s.step call).1.world

/-- The ledger's store: the first one with the history applied. -/
def Holds (g : Ledger) (s : Store) : Prop :=
  ∃ base, g.base = some base ∧ Store.After base g.history s ∧ s.sequence = g.seen

/-- Disk contents that store the ledger's state, with or without the pending request. -/
def StoredOn (g : Ledger) (img : Nat → Block) : Prop :=
  ∃ c, Stores img c ∧ (g.Holds c.store
    ∨ ∃ before request, g.Holds before.store ∧ g.pending = some request
      ∧ Publication request before c)

end Ledger

/-- A ledger and a session that follow the same calls. -/
def follow (g : Ledger) (s : Session) (calls : List Call) : Ledger × Session :=
  calls.foldl (fun x call => (x.1.step x.2 call, (x.2.step call).1)) (g, s)

@[simp] theorem follow_nil (g : Ledger) (s : Session) : follow g s [] = (g, s) := rfl

@[simp] theorem follow_cons (g : Ledger) (s : Session) (call : Call) (calls : List Call) :
    follow g s (call :: calls) = follow (g.step s call) (s.step call).1 calls := rfl

theorem follow_session (g : Ledger) (s : Session) (calls : List Call) :
    (follow g s calls).2 = s.run calls := by
  induction calls generalizing g s with
  | nil => rfl
  | cons call calls ih =>
    rw [follow_cons, ih]
    rfl

/-- A session with the ledger of the calls that led to it. -/
def Observed (g : Ledger) (s : Session) : Prop :=
  ∃ disk nextOwner calls, (g, s) = follow .empty (Session.start disk nextOwner) calls

/-- Every reachable session has a ledger. -/
theorem Reachable.observed {s : Session} (h : Reachable s) : ∃ g, Observed g s := by
  obtain ⟨disk, nextOwner, calls, rfl⟩ := h
  refine ⟨(follow .empty (Session.start disk nextOwner) calls).1, disk, nextOwner, calls, ?_⟩
  rw [← follow_session .empty]

/-! ### The invariant -/

/-- The owner of a guard is not fenced, and retains the record the guard answers with. -/
structure PollPublication7.Told (p : PollPublication7) : Prop where
  unfenced : p.world.volume.fenced = false
  retains : ∀ r, p.outcome = some r → p.world.volume.Retains r

/-- A ledger and a session that agree. -/
inductive Inv (g : Ledger) : Session → Prop where
  | ready {w : World7} (ready : Ready w g.staged) (holds : g.Holds w.contents.store)
      (pending : g.pending = none) : Inv g (.idle w)
  | fenced {w : World7} (fenced : w.volume.fenced = true)
      (images : g.base ≠ none → ∀ img, w.disk.Image img → g.StoredOn img) : Inv g (.idle w)
  | lent {p : PollPublication7} {before : Contents7} {after : Option Contents7}
      (lent : Lent before after g.staged p) (fenced : p.world.volume.fenced = true)
      (holds : g.Holds before.store)
      (publishes : ∀ c, after = some c → ∃ request, g.pending = some request
        ∧ Publication request before c) : Inv g (.publishing p)
  | settled {p : PollPublication7} (phase : p.Settled) (pending : p.pending = false)
      (owner : Inv g (.idle p.world))
      (told : p.phase = .committed → p.Told) : Inv g (.publishing p)

theorem Store.Applies.sequence {s s' : Store} {request : Request} (h : s.Applies request s') :
    s'.sequence = s.tick := by
  cases h <;> rfl

section
variable {g : Ledger} {w w' : World7} {before : Contents7} {after : Option Contents7}

theorem Ledger.settle_fenced (h : w.volume.fenced = true) : g.settle w = g := if_pos h

/-- An owner that still has the ledger's state. -/
theorem inv_kept (ready : Ready w g.staged) (holds : g.Holds before.store)
    (same : w.contents = before) : Inv (g.settle w) (.idle w) := by
  obtain ⟨base, hbase, hafter, hseen⟩ := holds
  have hseq : w.volume.header.sequence = g.seen := by
    rw [← hseen, ← same]
    rfl
  have hsettle : g.settle w = { g with pending := none } := by
    rw [Ledger.settle, if_neg (by rw [ready.unfenced]; exact Bool.false_ne_true), hbase]
    dsimp only
    rw [if_pos hseq, hseq]
  rw [hsettle]
  exact .ready ready ⟨base, hbase, same ▸ hafter, same ▸ hseen⟩ rfl

/-- An owner that has published the pending request. -/
theorem inv_done {request : Request} {c : Contents7} (ready : Ready w g.staged)
    (holds : g.Holds before.store) (pending : g.pending = some request)
    (publication : Publication request before c) (same : w.contents = c) :
    Inv (g.settle w) (.idle w) := by
  obtain ⟨base, hbase, hafter, hseen⟩ := holds
  have hseq : w.volume.header.sequence = g.seen + 1 := by
    have := publication.applies.sequence
    rw [← same] at this
    rw [← hseen]
    exact this
  have hne : w.volume.header.sequence ≠ g.seen := by
    rw [hseq]
    simp
  have hsettle : g.settle w = { g with
      pending := none, seen := w.volume.header.sequence, history := g.history ++ [request] } := by
    rw [Ledger.settle, if_neg (by rw [ready.unfenced]; exact Bool.false_ne_true), hbase]
    dsimp only
    rw [if_neg hne, pending]
    congr 1
  rw [hsettle]
  refine .ready ready ⟨base, hbase, hafter.snoc publication.room ?_, rfl⟩ rfl
  rw [same]
  exact publication.applies

/-- An owner whose ledger starts here. -/
theorem inv_first (ready : Ready w g.staged) (hbase : g.base = none) :
    Inv (g.settle w) (.idle w) := by
  have hsettle : g.settle w = { g with
      pending := none, base := some w.contents.store, seen := w.volume.header.sequence
      history := [] } := by
    rw [Ledger.settle, if_neg (by rw [ready.unfenced]; exact Bool.false_ne_true), hbase]
  rw [hsettle]
  exact .ready ready ⟨_, rfl, .refl, rfl⟩ rfl

theorem inv_fenced (fenced : w.volume.fenced = true)
    (images : g.base ≠ none → ∀ img, w.disk.Image img → g.StoredOn img) :
    Inv (g.settle w) (.idle w) := by
  rw [Ledger.settle_fenced fenced]
  exact .fenced fenced images

/-- An owner that shows disk contents the ledger knows. -/
theorem inv_stored (ready : Ready w g.staged) (stored : g.StoredOn w.disk.medium.view) :
    Inv (g.settle w) (.idle w) := by
  obtain ⟨c, hc, hknown⟩ := stored
  have hsame : w.contents = c :=
    Stores.unique (ready.durable.stores w.disk.medium.view_image) hc
  rcases hknown with holds | ⟨before, request, holds, pending, publication⟩
  · exact inv_kept ready holds hsame
  · exact inv_done ready holds pending publication hsame

section
variable (holds : g.Holds before.store)
  (publishes : ∀ c, after = some c →
    ∃ request, g.pending = some request ∧ Publication request before c)
include holds publishes

theorem storedOn_of_images {img : Nat → Block}
    (h : Stores img before ∨ ∃ c, after = some c ∧ Stores img c) : g.StoredOn img := by
  rcases h with hold | ⟨c, hc, hnew⟩
  · exact ⟨before, hold, Or.inl holds⟩
  · obtain ⟨request, hpending, hpublication⟩ := publishes c hc
    exact ⟨c, hnew, Or.inr ⟨before, request, holds, hpending, hpublication⟩⟩

/-- A call that settles leaves a session the ledger agrees with. -/
theorem Settles.inv (h : Settles before after g.staged w) : Inv (g.settle w) (.idle w) := by
  cases h with
  | kept ready same => exact inv_kept ready holds same
  | done ready published =>
    obtain ⟨request, hpending, hpublication⟩ := publishes _ published
    exact inv_done ready holds hpending hpublication rfl
  | fenced fenced images =>
    exact inv_fenced fenced fun _ img himg => storedOn_of_images holds publishes (images img himg)

/-- A guard leaves a session the ledger agrees with. -/
theorem Lent.inv {p : PollPublication7} (h : Lent before after g.staged p) :
    Inv (g.settle p.world) (.publishing p) := by
  have hlent : p.world.volume.fenced = true → Inv (g.settle p.world) (.publishing p) := by
    intro hfenced
    rw [Ledger.settle_fenced hfenced]
    exact .lent h hfenced holds publishes
  cases h with
  | resting begun same pub rests =>
    obtain ⟨c, ht⟩ := rests.tracks
    exact hlent (by rw [ht.volume])
  | waiting begun same pub waits =>
    obtain ⟨c, hissuing, -⟩ := waits.issuing
    exact hlent (by rw [hissuing.tracks.volume])
  | probing ready sound same pub rests => exact hlent (by rw [rests.probes.volume])
  | probed ready sound same pub waits => exact hlent (by rw [waits.probes.volume])
  | fenced phase pending fenced images => exact hlent fenced
  | stopped phase pending ready contents =>
    refine .settled (Or.inr (phase.imp_right Or.inl)) pending (inv_kept ready holds contents)
      fun hphase => ?_
    rcases phase with h | h <;> exact nomatch h.symm.trans hphase
  | committed phase pending ready contents told =>
    refine .settled (Or.inl phase) pending ?_ fun _ => ⟨ready.unfenced, told⟩
    cases after with
    | none => exact inv_kept ready holds contents
    | some c =>
      obtain ⟨request, hpending, hpublication⟩ := publishes c rfl
      exact inv_done ready holds hpending hpublication contents

end

end

/-! ### Fenced owners -/

/-- The calls that can bring a fenced owner back, or lose it. -/
def Call.Recovers : Call → Prop
  | .provision _ | .mount | .powerCut _ _ | .resolve _ => True
  | _ => False

section
variable {w : World7}

variable (h : w.volume.fenced = true)
include h

theorem ready_of_fenced : w.volume.ready = .error .uncertain := by
  rw [Volume7.ready, reject, if_pos h]

/-- A call that begins with the owner's check is refused by a fenced owner. -/
theorem run_ready_of_fenced {α : Type} (f : Volume7 → Unit → Op α) :
    (getVolume >>= fun v => Fallible.lift v.ready >>= f v).run w = (.error .uncertain, w) := by
  rw [run_getVolume_bind, ready_of_fenced h]
  rfl

theorem readRange_of_fenced (id : UInt32) (version : Option UInt64) (offset : UInt64) (size : Nat) :
    (readRange id version offset size).run w = (.error .uncertain, w) := by
  have hstat : w.volume.stat id = .error .uncertain := by
    rw [Volume7.stat, ready_of_fenced h]
    rfl
  rw [readRange, run_getVolume_bind, hstat]
  rfl

theorem run_world_of_fenced {α : Type} (f : World7 → Unit → Op α) :
    (Fallible.get >>= fun w => Fallible.lift w.volume.ready >>= f w).run w
      = (.error .uncertain, w) := by
  show (Fallible.lift w.volume.ready >>= f w).run w = _
  rw [ready_of_fenced h]
  rfl

/-- A fenced owner answers no call but a recovery. It may still drop its stages. -/
theorem fenced_idleStep {call : Call} (hcall : ¬ call.Recovers) :
    ∃ w', (idleStep w call).1 = .idle w' ∧ w'.volume.fenced = true ∧ w'.disk = w.disk := by
  have hrefused : ∀ {α : Type} (reply : Except Error α → Response) {x : Op α},
      x.run w = (.error .uncertain, w) → ∃ w', (finishOp reply x w).1 = .idle w'
        ∧ w'.volume.fenced = true ∧ w'.disk = w.disk := by
    intro α reply x hx
    refine ⟨w, ?_, h, rfl⟩
    rw [finishOp, hx]
  have hbegin : ∀ {x : Op PollPublication7}, x.run w = (.error .uncertain, w) →
      ∃ w', (beginPublication x w).1 = .idle w' ∧ w'.volume.fenced = true ∧ w'.disk = w.disk := by
    intro x hx
    refine ⟨w, ?_, h, rfl⟩
    rw [beginPublication, hx]
  cases call with
  | provision lineage | mount | powerCut mask replies | resolve applied =>
    exact absurd trivial hcall
  | create parent name kind | remove id | maintain | replaceTracked identity version bytes
  | openStage identity version length kind | stageWrite stage bytes | finishTracked stage
  | readRetainedRange record offset size => exact hrefused _ (run_ready_of_fenced h _)
  | readRange id version offset size => exact hrefused _ (readRange_of_fenced h _ _ _ _)
  | prepareAdmission identity version bytes => exact hbegin (run_ready_of_fenced h _)
  | finishAdmission stage => exact hbegin (run_ready_of_fenced h _)
  | prepareExecute identity version => exact hbegin (run_world_of_fenced h _)
  | prepareCancellation identity version prevention => exact hbegin (run_world_of_fenced h _)
  | abortStage stage =>
    refine ⟨_, rfl, ?_, ?_⟩
    · rcases abortStage_run stage w with hrun | ⟨i, hrun⟩
      · rw [hrun]
        exact h
      · rw [hrun]
        exact h
    · rcases abortStage_run stage w with hrun | ⟨i, hrun⟩
      · rw [hrun]
      · rw [hrun]
        rfl
  | releaseStages => exact ⟨_, rfl, h, rfl⟩
  | poll settled => exact ⟨w, rfl, h, rfl⟩
  | abort => exact ⟨w, rfl, h, rfl⟩
  | drop => exact ⟨w, rfl, h, rfl⟩

end

/-! ### One step -/

section
variable {g : Ledger} {w : World7}

/-- A synchronous mutation of a ready owner. -/
theorem CallSpec.inv {α : Type} {x : Op α} {request : Request}
    (hx : CallSpec x w g.staged request) (ready : Ready w g.staged)
    (holds : g.Holds w.contents.store) :
    Inv (Ledger.settle { g with pending := some request } (x.run w).2) (.idle (x.run w).2) := by
  obtain ⟨after, hafter, hruns⟩ := hx
  exact (hruns w.disk ⟨rfl, ready.idle⟩).settles.inv (g := { g with pending := some request }) holds
    fun c hc => ⟨request, rfl, hafter c hc⟩

/-- A lending call of a ready owner. -/
theorem LendSpec.inv {x : Op PollPublication7} {request : Request}
    (hx : LendSpec (fun _ => x) w g.staged request) (ready : Ready w g.staged)
    (holds : g.Holds w.contents.store) :
    Inv (Ledger.settle { g with pending := some request } (beginPublication x w).1.world)
      (beginPublication x w).1 := by
  obtain ⟨after, hafter, hruns⟩ := hx
  have hran := hruns w.disk ⟨rfl, ready.idle⟩
  change LendRan _ _ _ _ (x.run w) at hran
  unfold beginPublication
  generalize x.run w = r at hran
  cases hran with
  | lent lent disk phase =>
    exact lent.inv (g := { g with pending := some request }) holds
      fun c hc => ⟨request, rfl, hafter c hc⟩
  | refused settles publishes =>
    exact settles.inv (g := { g with pending := some request }) holds fun c hc => (by cases hc)

/-- A read leaves the ledger's state alone. -/
theorem ReadRan.inv {α : Type} {answer : Except Error α} {r : Except Error α × World7}
    (h : ReadRan w answer r) (ready : Ready w g.staged) (holds : g.Holds w.contents.store) :
    Inv (g.settle r.2) (.idle r.2) := by
  obtain ⟨d, hd, hsame⟩ := h.world
  rw [hd]
  exact inv_kept (ready.onDisk hsame) holds hsame.contents

theorem stage_index {stage : Stage7} {i : Fin 2} (h : stage.slot.toNat = i.val) :
    stage.index = i := by
  apply Fin.ext
  show stage.slot.toNat % 2 = i.val
  rw [h]
  exact Nat.mod_eq_of_lt i.isLt

theorem finishTracked_unknown {stage : Stage7} (ready : Ready w g.staged)
    (h : finishRequest w.volume g.staged stage .replace = none) :
    ((finishTracked stage).run w).2 = w := by
  rw [finishTracked, run_getVolume_bind, ready.ready, Fallible.lift_ok_bind]
  unfold finishRequest at h
  cases hindex : w.volume.stageIndex stage with
  | error e =>
    rw [takeFinishable, Fallible.run_bind, run_getVolume_bind, hindex]
    rfl
  | ok found =>
    rw [hindex] at h
    cases h

theorem finishAdmission_unknown {stage : Stage7} (ready : Ready w g.staged)
    (h : finishRequest w.volume g.staged stage .accept = none) :
    ∃ e, (finishAdmission stage).run w = (.error e, w) := by
  rw [finishAdmission, run_getVolume_bind, ready.ready, Fallible.lift_ok_bind]
  unfold finishRequest at h
  cases hindex : w.volume.stageIndex stage with
  | error e =>
    rw [takeFinishable, Fallible.run_bind, run_getVolume_bind, hindex]
    exact ⟨e, rfl⟩
  | ok found =>
    rw [hindex] at h
    cases h

/-- A format starts the ledger over; a refused one changes nothing. -/
theorem provision_inv (lineage : Bytes 16) (h : Inv g (.idle w)) :
    Inv (Ledger.settle (g.note w (.provision lineage) (.unit ((provisionInto lineage).run w).1))
      ((provisionInto lineage).run w).2) (.idle ((provisionInto lineage).run w).2) := by
  cases hencode : (Header7.initial lineage).encode with
  | error e =>
    have hrun : (provisionInto lineage).run w = (.error e, w) := by
      rw [provisionInto, hencode]
      rfl
    have hnote : ∀ r, g.note w (.provision lineage) r = g := fun r => by
      rw [Ledger.note, hencode]
    rw [hrun, hnote]
    cases h with
    | ready ready holds pending => exact inv_kept ready holds rfl
    | fenced fenced images => exact inv_fenced fenced images
  | ok block =>
    have hnote : ∀ r, g.note w (.provision lineage) r
        = { g with pending := none, base := none, history := [] } := fun r => by
      rw [Ledger.note, hencode]
    rw [hnote]
    obtain ⟨hok, herror⟩ := provisionInto_spec w lineage g.staged
    cases hr : ((provisionInto lineage).run w).1 with
    | ok u => exact inv_first (hok u hr).1 rfl
    | error e =>
      rcases herror e hr with hsame | hfenced
      · rw [hsame]
        cases h with
        | ready ready holds pending => exact inv_first ready rfl
        | fenced fenced images => exact inv_fenced fenced fun hbase => absurd rfl hbase
      · exact inv_fenced hfenced fun hbase => absurd rfl hbase

/-- A mount shows what the disk stores. -/
theorem mount_inv (h : Inv g (.idle w)) :
    Inv (g.settle (mountInto.run w).2) (.idle (mountInto.run w).2) := by
  obtain ⟨himages, hok, herror, -⟩ := mountInto_spec w g.staged
  have hstored : g.base ≠ none → ∀ img, w.disk.Image img → g.StoredOn img := by
    intro hbase img himg
    cases h with
    | ready ready holds pending =>
      have hmedium := (Device.image_of_inflight_none ready.idle).mp himg
      exact ⟨_, ready.durable.stores hmedium, Or.inl holds⟩
    | fenced fenced images => exact images hbase img himg
  cases hr : (mountInto.run w).1 with
  | error e =>
    exact inv_fenced (herror e hr) fun hbase img himg => hstored hbase img (himages img himg)
  | ok u =>
    obtain ⟨hready, hstores⟩ := hok u hr
    by_cases hbase : g.base = none
    · exact inv_first hready hbase
    · exact inv_stored hready (hstored hbase _ (himages _ (Device.view_image _)))

/-- After a power cut a new program knows what reached storage. -/
theorem powerCut_inv (mask : List Bool) (replies : Nat → Reply Error)
    (hstored : g.base ≠ none → ∀ img, w.disk.Image img → g.StoredOn img) :
    Inv (g.settle (w.powerCut mask replies)) (.idle (w.powerCut mask replies)) := by
  refine inv_fenced rfl fun hbase img himg => hstored hbase img ?_
  exact Device.image_of_powerCut w.disk mask ((Device.image_of_inflight_none rfl).mp himg)

/-- What the ledger knows of an idle owner's disk. -/
theorem Inv.storedOn (h : Inv g (.idle w)) (hbase : g.base ≠ none) {img : Nat → Block}
    (himg : w.disk.Image img) : g.StoredOn img := by
  cases h with
  | ready ready holds pending =>
    have hmedium := (Device.image_of_inflight_none ready.idle).mp himg
    exact ⟨_, ready.durable.stores hmedium, Or.inl holds⟩
  | fenced fenced images => exact images hbase img himg

/-- One call of a ready owner. -/
theorem ready_step (ready : Ready w g.staged) (holds : g.Holds w.contents.store)
    (pending : g.pending = none) (call : Call) :
    Inv (g.step (.idle w) call) (idleStep w call).1 := by
  have hinv : Inv g (.idle w) := .ready ready holds pending
  show Inv (Ledger.settle (g.note w call (idleStep w call).2) (idleStep w call).1.world)
    (idleStep w call).1
  simp only [Ledger.note, ready.unfenced, Bool.false_eq_true, if_false]
  -- a mutation settles the request it noted; the other calls keep the store
  cases call with
  | provision lineage => exact provision_inv lineage hinv
  | mount => exact mount_inv hinv
  | create parent name kind =>
    exact (create_spec ready parent name kind).inv ready holds
  | remove id =>
    exact (remove_spec ready id).inv ready holds
  | maintain =>
    exact (maintainRetention_spec ready).inv ready holds
  | replaceTracked identity version bytes =>
    exact (replaceTracked_spec ready identity version bytes).inv ready holds
  | finishTracked stage =>
    show Inv (Ledger.settle { g with pending := finishRequest _ _ _ _ } _) _
    cases hr : finishRequest w.volume g.staged stage .replace with
    | none =>
      show Inv (Ledger.settle _ ((finishTracked stage).run w).2)
        (.idle ((finishTracked stage).run w).2)
      rw [finishTracked_unknown ready hr]
      exact inv_kept (g := { g with pending := none }) ready holds rfl
    | some request =>
      exact (finishTracked_spec ready stage fun r h =>
        Option.some.inj (h.symm.trans hr)).inv ready holds
  | prepareAdmission identity version bytes =>
    exact (prepareAdmission_spec ready identity version bytes).inv ready holds
  | finishAdmission stage =>
    show Inv (Ledger.settle { g with pending := finishRequest _ _ _ _ } _) _
    cases hr : finishRequest w.volume g.staged stage .accept with
    | none =>
      obtain ⟨e, hrun⟩ := finishAdmission_unknown ready hr
      show Inv (Ledger.settle _ (beginPublication (finishAdmission stage) w).1.world)
        (beginPublication (finishAdmission stage) w).1
      rw [beginPublication, hrun]
      exact inv_kept (g := { g with pending := none }) ready holds rfl
    | some request =>
      exact (finishAdmission_spec ready stage fun r h =>
        Option.some.inj (h.symm.trans hr)).inv ready holds
  | prepareExecute identity version =>
    exact (prepareExecute_spec ready identity version).inv ready holds
  | prepareCancellation identity version prevention =>
    exact (prepareCancellation_spec ready identity version prevention).inv ready holds
  | openStage identity version length kind =>
    obtain ⟨hcontents, herror, hok⟩ := openStage_spec ready identity version length kind
    simp only [idleStep, finishOp]
    rcases hrun : (openStage identity version length kind).run w with ⟨r, w'⟩
    rw [hrun] at hcontents herror hok
    cases r with
    | error e => exact inv_kept (g := { g with pending := none }) (herror e rfl) holds hcontents
    | ok token =>
      obtain ⟨i, hi, hready⟩ := hok token rfl
      rw [← stage_index hi] at hready
      exact inv_kept (g := { g with staged := Function.update g.staged token.index [] }) hready
        holds hcontents
  | stageWrite stage bytes =>
    obtain ⟨herror, hok⟩ := stageWrite_spec ready stage bytes
    simp only [idleStep, finishOp]
    rcases hrun : (stageWrite stage bytes).run w with ⟨r, w'⟩
    rw [hrun] at herror hok
    cases r with
    | error e =>
      exact (herror e rfl).inv (g := { g with pending := none }) holds fun c hc => (by cases hc)
    | ok n =>
      obtain ⟨i, hi, hready, hcontents⟩ := hok n rfl
      rw [← stage_index hi] at hready
      exact inv_kept (g := { g with
        staged := Function.update g.staged stage.index (g.staged stage.index ++ bytes) }) hready
        holds hcontents
  | abortStage stage =>
    obtain ⟨hready, hcontents⟩ := abortStage_spec ready stage
    exact inv_kept (g := { g with pending := none }) hready holds hcontents
  | releaseStages =>
    obtain ⟨hready, hcontents⟩ := releaseStages_spec ready
    exact inv_kept (g := { g with pending := none }) hready holds hcontents
  | readRange id version offset size =>
    exact (readRange_spec ready id version offset size).inv (g := { g with pending := none })
      ready holds
  | readRetainedRange record offset size =>
    exact (readRetainedRange_spec ready record offset size).inv (g := { g with pending := none })
      ready holds
  | powerCut mask replies =>
    exact powerCut_inv mask replies fun hbase _ himg => hinv.storedOn hbase himg
  | resolve applied =>
    have hmedium : (w.disk.resolve applied).medium = w.disk.medium := by
      rw [Device.resolve, ready.idle]
    exact inv_kept (ready.onDisk ⟨hmedium, rfl⟩) holds
      (SameDisk.contents ⟨hmedium, rfl⟩)
  | poll settled | abort | drop =>
    exact inv_kept (g := { g with pending := none }) ready holds rfl

/-- All the ledger may note of a fenced owner is a stage. -/
theorem note_fenced (fenced : w.volume.fenced = true) {call : Call} (hcall : ¬ call.Recovers)
    (response : Response) : ∃ staged, g.note w call response = { g with staged } := by
  unfold Ledger.note
  split
  · exact absurd trivial hcall
  · exact ⟨_, rfl⟩
  · exact ⟨_, rfl⟩
  · exact absurd trivial hcall
  · exact absurd trivial hcall
  · exact absurd trivial hcall
  · exact ⟨g.staged, if_pos fenced⟩

/-- One call of a fenced owner. -/
theorem fenced_step (fenced : w.volume.fenced = true)
    (images : g.base ≠ none → ∀ img, w.disk.Image img → g.StoredOn img) (call : Call) :
    Inv (g.step (.idle w) call) (idleStep w call).1 := by
  have hinv : Inv g (.idle w) := .fenced fenced images
  show Inv (Ledger.settle (g.note w call (idleStep w call).2) (idleStep w call).1.world)
    (idleStep w call).1
  by_cases hcall : call.Recovers
  · cases call with
    | provision lineage => exact provision_inv lineage hinv
    | mount => exact mount_inv hinv
    | powerCut mask replies => exact powerCut_inv mask replies images
    | resolve applied =>
      exact inv_fenced fenced fun hbase img himg =>
        images hbase img (Device.image_of_resolve himg)
    | _ => cases hcall
  · obtain ⟨w', hw', hfenced', hdisk⟩ := fenced_idleStep fenced hcall
    obtain ⟨staged, hnote⟩ := note_fenced (g := g) fenced hcall (idleStep w call).2
    rw [hnote, hw']
    exact inv_fenced (g := { g with staged }) hfenced' fun hbase img himg =>
      images hbase img (hdisk ▸ himg)

end

section
variable {g : Ledger} {p : PollPublication7}

/-- A settled guard is as its owner. -/
theorem inv_settled (phase : p.Settled) (pending : p.pending = false)
    (owner : Inv g (.idle p.world)) (told : p.phase = .committed → p.Told) :
    Inv (g.settle p.world) (.publishing p) := by
  refine .settled phase pending ?_ told
  cases owner with
  | ready ready holds pending => exact inv_kept ready holds rfl
  | fenced fenced images => exact inv_fenced fenced images

/-- One call while the owner is lent. -/
theorem publishing_step (h : Inv g (.publishing p)) (call : Call) :
    Inv (g.step (.publishing p) call) (publishingStep p call).1 := by
  show Inv (g.settle (publishingStep p call).1.world) (publishingStep p call).1
  cases h with
  | lent lent fenced holds publishes =>
    have hsame : Inv (g.settle p.world) (.publishing p) := lent.inv holds publishes
    cases call with
    | poll settled => exact (lent.poll settled).inv holds publishes
    | abort => exact lent.abort.inv holds publishes
    | drop => exact lent.drop.inv holds publishes
    | powerCut mask replies =>
      exact powerCut_inv mask replies fun _ _ himg =>
        storedOn_of_images holds publishes (lent.images himg)
    | _ => exact hsame
  | settled phase pending owner told =>
    have hsame : Inv (g.settle p.world) (.publishing p) := inv_settled phase pending owner told
    cases call with
    | poll settled =>
      show Inv (g.settle (p.pollAdvance settled).2.world) (.publishing (p.pollAdvance settled).2)
      rw [pollAdvance_settled phase]
      exact hsame
    | abort =>
      show Inv (g.settle p.abortBeforeHeader.2.world) (.publishing p.abortBeforeHeader.2)
      rw [abort_settled phase]
      exact hsame
    | drop =>
      show Inv (g.settle p.drop) (.idle p.drop)
      rw [drop_settled phase pending]
      cases owner with
      | ready ready holds pending => exact inv_kept ready holds rfl
      | fenced fenced images => exact inv_fenced fenced images
    | powerCut mask replies =>
      exact powerCut_inv mask replies fun hbase _ himg => owner.storedOn hbase himg
    | _ => exact hsame

end

/-- Every call keeps the invariant. -/
theorem inv_step {g : Ledger} {s : Session} (h : Inv g s) (call : Call) :
    Inv (g.step s call) (s.step call).1 := by
  cases s with
  | publishing p => exact publishing_step h call
  | idle w =>
    cases h with
    | ready ready holds pending => exact ready_step ready holds pending call
    | fenced fenced images => exact fenced_step fenced images call

/-- Runs keep the invariant. -/
theorem inv_follow {g : Ledger} {s : Session} (h : Inv g s) (calls : List Call) :
    Inv (follow g s calls).1 (follow g s calls).2 := by
  induction calls generalizing g s with
  | nil => exact h
  | cons call calls ih => exact ih (inv_step h call)

/-- Every observed session agrees with its ledger. -/
theorem Observed.inv {g : Ledger} {s : Session} (h : Observed g s) : Inv g s := by
  obtain ⟨disk, nextOwner, calls, h⟩ := h
  have hstart : Inv .empty (Session.start disk nextOwner) :=
    .fenced rfl fun hbase => absurd rfl hbase
  have := inv_follow hstart calls
  rw [← h] at this
  exact this

/-- An unfenced reachable owner is ready. -/
theorem Reachable.ready {w : World7} (h : Reachable (.idle w)) (hw : w.volume.fenced = false) :
    ∃ staged, Ready w staged := by
  obtain ⟨g, hg⟩ := h.observed
  cases hg.inv with
  | ready ready holds pending => exact ⟨_, ready⟩
  | fenced fenced images => exact nomatch fenced.symm.trans hw

end RusticOs.Fs
