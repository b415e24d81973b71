import RusticOs.Proofs.Ledger7

/-!
# `RusticOs.Proofs.Crash7`: crash atomicity

`crash_atomicity`: cut the power anywhere in a mutating call, keep any subset of the unflushed
writes, and the next mount restores the state before the call or the state after it; the latter
once success was reported.

A call is executed on a disk with arbitrary answers, which stops at any command it fails,
and a publication is polled, aborted and dropped in any order.
-/

set_option autoImplicit false

namespace RusticOs.Fs

open RusticOs.Lib

/-! ### A provisioned owner -/

/-- Answers of a disk that never fails. -/
def reliable : Nat → Reply Error := fun _ => .done

/-- Blank storage. -/
def blankDisk : Disk :=
  { medium := ⟨fun _ => zeroBlock, []⟩, inflight := none, replies := reliable, refusal := .busy
    log := [] }

theorem blankDisk_allDone : blankDisk.AllDone := ⟨rfl, fun _ => rfl⟩

/-- A lineage for the examples below. -/
def someLineage : Bytes 16 := Vector.replicate 16 1

/-- The owner of a blank disk that was just formatted. -/
def provisioned : World7 :=
  ((provisionInto someLineage).run { volume := Volume7.empty, disk := blankDisk, nextOwner := 1 }).2

theorem provisioned_ok :
    ((provisionInto someLineage).run
      { volume := Volume7.empty, disk := blankDisk, nextOwner := 1 }).1 = .ok () := by
  have hvalid : (Header7.initial someLineage).validate = .ok () := by decide
  obtain ⟨-, hdone⟩ := provisionDisk_follows
    (v := { Volume7.empty.fenceClear with nodes := installRoots }) hvalid rfl rfl rfl blankDisk
  obtain ⟨d, hd, -⟩ := hdone blankDisk_allDone
  rw [provisionInto, encode_headerBlock hvalid, Fallible.lift_ok_bind, run_setVolume_bind,
    run_getVolume_bind, Fallible.run_bind, Fallible.run_attempt, run_onDisk, hd]
  rfl

/-- The owner it is, on a disk that goes on answering. -/
theorem provisioned_eq : ∃ d : Disk, d.AllDone ∧ provisioned =
    { volume := { Volume7.empty with
        nodes := installRoots, header := genesisHeader someLineage, fenced := false }
      disk := d
      nextOwner := 1 } := by
  have hvalid : (Header7.initial someLineage).validate = .ok () := by decide
  obtain ⟨-, hdone⟩ := provisionDisk_follows
    (v := { Volume7.empty.fenceClear with nodes := installRoots }) hvalid rfl rfl rfl blankDisk
  obtain ⟨d, hd, hall⟩ := hdone blankDisk_allDone
  refine ⟨d, hall, ?_⟩
  rw [provisioned, provisionInto, encode_headerBlock hvalid, Fallible.lift_ok_bind,
    run_setVolume_bind, run_getVolume_bind, Fallible.run_bind, Fallible.run_attempt, run_onDisk, hd]
  rfl

theorem provisioned_ready : Ready provisioned fun _ => [] :=
  ((provisionInto_spec _ someLineage fun _ => []).1 () provisioned_ok).1

theorem provisioned_reachable : Reachable (.idle provisioned) :=
  (reachable_start blankDisk 1).step (.provision someLineage)

/-- A reachable session whose owner is not fenced has a ready owner, lent or not. -/
theorem Reachable.world_ready {s : Session} (h : Reachable s)
    (hs : s.world.volume.fenced = false) : ∃ staged, Ready s.world staged := by
  obtain ⟨g, hg⟩ := h.observed
  have hidle : ∀ {w : World7}, Inv g (.idle w) → w.volume.fenced = false →
      ∃ staged, Ready w staged := by
    intro w hw hunfenced
    cases hw with
    | ready ready holds pending => exact ⟨_, ready⟩
    | fenced fenced images => exact nomatch fenced.symm.trans hunfenced
  cases s with
  | idle w => exact hidle hg.inv hs
  | publishing p =>
    cases hg.inv with
    | lent lent fenced holds publishes => exact nomatch fenced.symm.trans hs
    | settled phase pending owner told => exact hidle owner hs

/-! ### Executions of a call -/

/-- The calls that publish. -/
def Call.Mutates : Call → Prop
  | .create _ _ _ | .remove _ | .maintain | .replaceTracked _ _ _ | .finishTracked _
  | .prepareAdmission _ _ _ | .finishAdmission _ | .prepareExecute _ _
  | .prepareCancellation _ _ _ => True
  | _ => False

/-- The calls on a publication. -/
def Call.OnGuard : Call → Prop
  | .poll _ | .abort | .drop => True
  | _ => False

/-- The answer of a mutation that has published, or that a retained record answers. -/
def Response.Succeeded : Response → Prop
  | .unit (.ok _) | .node (.ok _) | .epoch (.ok _) | .record (.ok _) => True
  | _ => False

/-- A publication that has reported `Committed`. -/
def Session.Committed : Session → Prop
  | .publishing p => p.phase = .committed
  | .idle _ => False

/-- The owner on a disk with other answers. -/
def World7.answering (w : World7) (replies : Nat → Reply Error) : World7 :=
  { w with disk := w.disk.withReplies replies }

/-- A call, and the events on the publication it begins. -/
def World7.execute (w : World7) (call : Call) (events : List Call) : Session :=
  (Session.idle w).run (call :: events)

/-- Success was reported by the call, or by its publication before the end of the events. -/
def Reported (w : World7) (call : Call) (events : List Call) : Prop :=
  ((Session.idle w).step call).2.Succeeded
    ∨ ∃ seen, seen <+: events ∧ (w.execute call seen).Committed

/-- An execution in progress or at its end. -/
inductive Executes (before : Contents7) (after : Option Contents7)
    (staged : Fin 2 → List UInt8) : Session → Prop where
  | lent {p : PollPublication7} (lent : Lent before after staged p) :
      Executes before after staged (.publishing p)
  | idle {w : World7} (settles : Settles before after staged w) :
      Executes before after staged (.idle w)

/-- An execution that has reported success. -/
inductive Shows (c : Contents7) (staged : Fin 2 → List UInt8) : Session → Prop where
  | lent {p : PollPublication7} (phase : p.phase = .committed) (pending : p.pending = false)
      (ready : Ready p.world staged) (contents : p.world.contents = c) :
      Shows c staged (.publishing p)
  | idle {w : World7} (ready : Ready w staged) (contents : w.contents = c) :
      Shows c staged (.idle w)

section
variable {before : Contents7} {after : Option Contents7} {staged : Fin 2 → List UInt8}
  {s : Session}

theorem Session.run_cons (s : Session) (call : Call) (calls : List Call) :
    s.run (call :: calls) = (s.step call).1.run calls := rfl

theorem Session.run_append (s : Session) (a b : List Call) :
    s.run (a ++ b) = (s.run a).run b := by
  rw [Session.run, List.foldl_append]
  rfl

theorem Reachable.run (h : Reachable s) (calls : List Call) : Reachable (s.run calls) := by
  obtain ⟨disk, nextOwner, before, rfl⟩ := h
  exact ⟨disk, nextOwner, before ++ calls, (Session.run_append _ _ _).symm⟩

/-- An event on a publication keeps an execution one. -/
theorem Executes.step (h : Executes before after staged s) {event : Call} (he : event.OnGuard) :
    Executes before after staged (s.step event).1 := by
  cases h with
  | lent lent =>
    cases event with
    | poll settled => exact .lent (lent.poll settled)
    | abort => exact .lent lent.abort
    | drop => exact .idle lent.drop
    | _ => cases he
  | idle settles =>
    cases event with
    | poll settled | abort | drop => exact .idle settles
    | _ => cases he

variable {c : Contents7} {img : Nat → Block}

theorem Shows.step (h : Shows c staged s) {event : Call} (he : event.OnGuard) :
    Shows c staged (s.step event).1 := by
  cases h with
  | lent phase pending ready contents =>
    cases event with
    | poll settled =>
      show Shows c staged (.publishing (PollPublication7.pollAdvance _ settled).2)
      rw [pollAdvance_settled (Or.inl phase)]
      exact .lent phase pending ready contents
    | abort =>
      show Shows c staged (.publishing (PollPublication7.abortBeforeHeader _).2)
      rw [abort_settled (Or.inl phase)]
      exact .lent phase pending ready contents
    | drop =>
      show Shows c staged (.idle (PollPublication7.drop _))
      rw [drop_settled (Or.inl phase) pending]
      exact .idle ready contents
    | _ => cases he
  | idle ready contents =>
    cases event with
    | poll settled | abort | drop => exact .idle ready contents
    | _ => cases he

theorem Executes.run {events : List Call} (he : ∀ e ∈ events, e.OnGuard)
    (h : Executes before after staged s) : Executes before after staged (s.run events) := by
  induction events generalizing s with
  | nil => exact h
  | cons event events ih =>
    exact ih (fun e hm => he e (List.mem_cons_of_mem _ hm))
      (h.step (he event List.mem_cons_self))

theorem Shows.run {events : List Call} (he : ∀ e ∈ events, e.OnGuard) (h : Shows c staged s) :
    Shows c staged (s.run events) := by
  induction events generalizing s with
  | nil => exact h
  | cons event events ih =>
    exact ih (fun e hm => he e (List.mem_cons_of_mem _ hm))
      (h.step (he event List.mem_cons_self))

/-- A committed publication shows what it has published. -/
theorem Executes.shows (h : Executes before after staged s) (hs : s.Committed) :
    Shows (after.getD before) staged s := by
  cases h with
  | idle settles => cases hs
  | lent lent =>
    obtain ⟨pending, ready, contents, -⟩ := lent.done hs
    exact .lent hs pending ready contents

theorem Ready.images {w : World7} (h : Ready w staged) (himg : w.disk.Image img) :
    Stores img w.contents :=
  h.durable.stores ((Device.image_of_inflight_none h.idle).mp himg)

theorem Executes.images (h : Executes before after staged s) (himg : s.world.disk.Image img) :
    Stores img before ∨ Stores img (after.getD before) := by
  have hone : Stores img before ∨ (∃ c, after = some c ∧ Stores img c) →
      Stores img before ∨ Stores img (after.getD before) := by
    rintro (hold | ⟨c, rfl, hnew⟩)
    · exact Or.inl hold
    · exact Or.inr hnew
  cases h with
  | lent lent => exact hone (lent.images himg)
  | idle settles =>
    cases settles with
    | kept ready same => exact Or.inl (same ▸ ready.images himg)
    | done ready published => exact hone (Or.inr ⟨_, published, ready.images himg⟩)
    | fenced fenced images => exact hone (images img himg)

theorem Shows.world (h : Shows c staged s) :
    s.world.volume.fenced = false ∧ s.world.contents = c := by
  cases h with
  | lent phase pending ready contents | idle ready contents => exact ⟨ready.unfenced, contents⟩

theorem Shows.images (h : Shows c staged s) (himg : s.world.disk.Image img) : Stores img c := by
  cases h with
  | lent phase pending ready contents | idle ready contents => exact contents ▸ ready.images himg

end

/-! ### Crash atomicity -/

/-- On a disk that answers every command, the call and enough polls report success and leave
`after`. -/
def Completes (w : World7) (call : Call) (after : Contents7) : Prop :=
  ∃ n, Reported (w.answering reliable) call (List.replicate n (.poll true))
    ∧ ((w.answering reliable).execute call (List.replicate n (.poll true))).world.contents = after

/-- What the executions of a call have in common: the one state it may publish. -/
structure Publishes1 (w : World7) (staged : Fin 2 → List UInt8) (call : Call)
    (after : Option Contents7) : Prop where
  executes : ∀ replies,
    Executes w.contents after staged ((Session.idle (w.answering replies)).step call).1
  succeeds : ∀ replies, ((Session.idle (w.answering replies)).step call).2.Succeeded →
    Shows (after.getD w.contents) staged ((Session.idle (w.answering replies)).step call).1
  completes : ∀ c, after = some c → Completes w call c

section
variable {w : World7} {staged : Fin 2 → List UInt8} {request : Request}

theorem sameDisk_answering (h : Ready w staged) (replies : Nat → Reply Error) :
    SameDisk (w.disk.withReplies replies) w := ⟨rfl, h.idle⟩

theorem run_polls (p : PollPublication7) (n : Nat) :
    (Session.publishing p).run (List.replicate n (.poll true)) = .publishing (p.drive n) := by
  induction n generalizing p with
  | zero => rfl
  | succ n ih => exact ih _

/-- A synchronous mutation. -/
theorem CallSpec.publishes1 {α : Type} {x : Op α} (hx : CallSpec x w staged request)
    (h : Ready w staged) {call : Call} {reply : Except Error α → Response}
    (hstep : ∀ v, (Session.idle v).step call = finishOp reply x v)
    (hreply : ∀ r, (reply r).Succeeded ↔ ∃ a, r = .ok a) :
    ∃ after, Publishes1 w staged call after := by
  obtain ⟨after, -, hruns⟩ := hx
  refine ⟨after, fun replies => ?_, fun replies hs => ?_, fun c hc => ?_⟩
  · rw [hstep]
    exact .idle (hruns _ (sameDisk_answering h replies)).settles
  · rw [hstep] at hs ⊢
    obtain ⟨a, ha⟩ := (hreply _).mp hs
    obtain ⟨hready, hcontents⟩ := (hruns _ (sameDisk_answering h replies)).returned a ha
    exact .idle hready hcontents
  · have hrun := hruns _ (sameDisk_answering h reliable)
    obtain ⟨a, ha⟩ := hrun.returns ⟨h.idle, fun _ => rfl⟩ (by rw [hc]; rfl)
    refine ⟨0, Or.inl ?_, ?_⟩
    · rw [hstep]
      exact (hreply _).mpr ⟨a, ha⟩
    · show ((Session.idle (w.answering reliable)).step call).1.world.contents = c
      rw [hstep]
      have := (hrun.returned a ha).2
      rw [hc] at this
      exact this

/-- A call that lends the owner. -/
theorem LendSpec.publishes1 {x : Op PollPublication7} (hx : LendSpec (fun _ => x) w staged request)
    (h : Ready w staged) {call : Call}
    (hstep : ∀ v, (Session.idle v).step call = beginPublication x v) :
    ∃ after, Publishes1 w staged call after := by
  obtain ⟨after, -, hruns⟩ := hx
  have hbegun : ∀ v r, (beginPublication x v).2 = r → ¬ r.Succeeded := by
    intro v r hr
    unfold beginPublication at hr
    split at hr <;> subst hr <;> exact fun hs => hs
  refine ⟨after, fun replies => ?_, fun replies hs => ?_, fun c hc => ?_⟩
  · rw [hstep]
    have hran := hruns _ (sameDisk_answering h replies)
    change LendRan _ _ _ _ (x.run (w.answering replies)) at hran
    unfold beginPublication
    generalize x.run (w.answering replies) = r at hran
    cases hran with
    | lent lent disk phase => exact .lent lent
    | refused settles publishes => exact .idle (settles.weaken after)
  · rw [hstep] at hs
    exact absurd hs (hbegun _ _ rfl)
  · have hran := hruns _ (sameDisk_answering h reliable)
    change LendRan _ _ _ _ (x.run (w.answering reliable)) at hran
    have hrun : (Session.idle (w.answering reliable)).step call
        = beginPublication x (w.answering reliable) := hstep _
    unfold beginPublication at hrun
    generalize x.run (w.answering reliable) = r at hran hrun
    cases hran with
    | refused settles publishes => exact nomatch publishes.symm.trans hc
    | @lent p v lent disk phase =>
      have hactive : p.phase ≠ .cancelled ∧ p.phase ≠ .failed ∧ p.phase ≠ .uncertain := by
        rcases phase with h | h | h <;> rw [h] <;> decide
      obtain ⟨n, hdriven⟩ := lent.drive (by rw [disk]; exact ⟨h.idle, fun _ => rfl⟩) hactive
      have hexecute : (w.answering reliable).execute call (List.replicate n (.poll true))
          = .publishing (p.drive n) := by
        rw [World7.execute, Session.run_cons, hrun]
        exact run_polls p n
      refine ⟨n, Or.inr ⟨_, List.prefix_rfl, ?_⟩, ?_⟩
      · rw [hexecute]
        rcases hdriven.phase with hphase | ⟨hnone, -⟩
        · exact hphase
        · exact nomatch hnone.symm.trans hc
      · rw [hexecute]
        have := hdriven.contents
        rw [hc] at this
        exact this

/-- Every mutating call of a ready owner has at most one state to publish. -/
theorem Ready.publishes1 (h : Ready w staged) {call : Call} (hcall : call.Mutates) :
    ∃ after, Publishes1 w staged call after := by
  have hok : ∀ {α : Type} {reply : Except Error α → Response},
      (∀ a, (reply (.ok a)).Succeeded) → (∀ e, ¬ (reply (.error e)).Succeeded) →
      ∀ r, (reply r).Succeeded ↔ ∃ a, r = .ok a := by
    intro α reply hyes hno r
    cases r with
    | ok a => exact ⟨fun _ => ⟨a, rfl⟩, fun _ => hyes a⟩
    | error e => exact ⟨fun hs => absurd hs (hno e), fun ⟨a, ha⟩ => (nomatch ha)⟩
  cases call with
  | create parent name kind =>
    exact (create_spec h parent name kind).publishes1 h (fun _ => rfl)
      (hok (fun _ => trivial) fun _ hs => hs)
  | remove id =>
    exact (remove_spec h id).publishes1 h (fun _ => rfl) (hok (fun _ => trivial) fun _ hs => hs)
  | maintain =>
    exact (maintainRetention_spec h).publishes1 h (fun _ => rfl)
      (hok (fun _ => trivial) fun _ hs => hs)
  | replaceTracked identity version bytes =>
    exact (replaceTracked_spec h identity version bytes).publishes1 h (fun _ => rfl)
      (hok (fun _ => trivial) fun _ hs => hs)
  | finishTracked stage =>
    have hspec : CallSpec (finishTracked stage) w staged
        ((finishRequest w.volume staged stage .replace).getD .maintain) :=
      finishTracked_spec h stage fun r hr => by rw [hr]; rfl
    exact hspec.publishes1 h (fun _ => rfl) (hok (fun _ => trivial) fun _ hs => hs)
  | prepareAdmission identity version bytes =>
    exact (prepareAdmission_spec h identity version bytes).publishes1 h fun _ => rfl
  | finishAdmission stage =>
    have hspec : LendSpec (fun _ => finishAdmission stage) w staged
        ((finishRequest w.volume staged stage .accept).getD .maintain) :=
      finishAdmission_spec h stage fun r hr => by rw [hr]; rfl
    exact hspec.publishes1 h fun _ => rfl
  | prepareExecute identity version =>
    exact (prepareExecute_spec h identity version).publishes1 h fun _ => rfl
  | prepareCancellation identity version prevention =>
    exact (prepareCancellation_spec h identity version prevention).publishes1 h fun _ => rfl
  | _ => cases hcall

/-- A mount after a power cut restores what every image of the disk stores. -/
theorem mount_after_cut {s : Session} (mask : List Bool) {P : Contents7 → Prop}
    (h : ∀ img, s.world.disk.Image img → ∃ c, Stores img c ∧ P c) :
    ∃ v, ((s.step (.powerCut mask reliable)).1.step .mount) = (.idle v, .unit (.ok ()))
      ∧ (∃ staged, Ready v staged) ∧ v.disk.AllDone ∧ P v.contents := by
  have hstep : (s.step (.powerCut mask reliable)).1 = .idle (s.world.powerCut mask reliable) := by
    cases s <;> rfl
  obtain ⟨c, hstores, hc⟩ := h _ (s.world.disk.exposed.cut_image mask)
  obtain ⟨-, hready, -, hmount⟩ := mountInto_spec (s.world.powerCut mask reliable) fun _ => []
  obtain ⟨hok, hcontents, hdone⟩ := hmount ⟨rfl, fun _ => rfl⟩ c hstores
  refine ⟨(mountInto.run (s.world.powerCut mask reliable)).2, ?_, ⟨_, (hready () hok).1⟩, hdone,
    hcontents ▸ hc⟩
  rw [hstep, ← hok]
  rfl

end

/-- The state `after` of a call: the completed call leaves it, or it is the state before. Whatever
the disk answers, and however the publication is polled, aborted and dropped, a reported success
leaves an unfenced owner in that state. A power cut after any of this, with any subset of the
unflushed writes, is followed by a mount that restores the state before or `after`, and `after` once
success was reported. -/
structure Atomic (w : World7) (call : Call) (after : Contents7) : Prop where
  completes : Completes w call after ∨ after = w.contents
  reported : ∀ replies events, (∀ e ∈ events, e.OnGuard) →
    Reported (w.answering replies) call events →
      ((w.answering replies).execute call events).world.volume.fenced = false
        ∧ ((w.answering replies).execute call events).world.contents = after
  restored : ∀ replies events, (∀ e ∈ events, e.OnGuard) → ∀ mask,
    ∃ v, ((((w.answering replies).execute call events).step (.powerCut mask reliable)).1.step
        .mount) = (.idle v, .unit (.ok ()))
      ∧ (v.contents = w.contents ∨ v.contents = after)
      ∧ (Reported (w.answering replies) call events → v.contents = after)

/-- Crash atomicity: a mutating call of an unfenced owner has one such state. -/
theorem crash_atomicity {w : World7} (h : Reachable (.idle w)) (hw : w.volume.fenced = false)
    {call : Call} (hcall : call.Mutates) : ∃ after, Atomic w call after := by
  obtain ⟨staged, hready⟩ := h.ready hw
  obtain ⟨after, hpub⟩ := hready.publishes1 hcall
  have hshows : ∀ replies events, (∀ e ∈ events, e.OnGuard) →
      Reported (w.answering replies) call events → Shows (after.getD w.contents) staged
        ((w.answering replies).execute call events) := by
    intro replies events hevents hreported
    rcases hreported with hs | ⟨seen, ⟨rest, rfl⟩, hs⟩
    · exact Shows.run (s := ((Session.idle (w.answering replies)).step call).1) hevents
        (hpub.succeeds replies hs)
    · have hseen : Executes w.contents after staged ((w.answering replies).execute call seen) :=
        Executes.run (s := ((Session.idle (w.answering replies)).step call).1)
          (fun e he => hevents e (List.mem_append_left _ he)) (hpub.executes replies)
      rw [World7.execute, ← List.cons_append, Session.run_append]
      exact (hseen.shows hs).run fun e he => hevents e (List.mem_append_right _ he)
  refine ⟨after.getD w.contents, ?_, fun replies events hevents hreported => ?_,
    fun replies events hevents mask => ?_⟩
  · cases after with
    | none => exact Or.inr rfl
    | some c => exact Or.inl (hpub.completes c rfl)
  · exact (hshows replies events hevents hreported).world
  by_cases hreported : Reported (w.answering replies) call events
  · obtain ⟨v, hmount, -, -, hv⟩ := mount_after_cut mask (P := fun c => c = after.getD w.contents)
      fun img himg => ⟨_, (hshows replies events hevents hreported).images himg, rfl⟩
    exact ⟨v, hmount, Or.inr hv, fun _ => hv⟩
  · have hexecutes : Executes w.contents after staged ((w.answering replies).execute call events) :=
      Executes.run (s := ((Session.idle (w.answering replies)).step call).1) hevents
        (hpub.executes replies)
    obtain ⟨v, hmount, -, -, hv⟩ := mount_after_cut mask
      (P := fun c => c = w.contents ∨ c = after.getD w.contents) fun img himg => by
        rcases hexecutes.images himg with hold | hnew
        · exact ⟨_, hold, Or.inl rfl⟩
        · exact ⟨_, hnew, Or.inr rfl⟩
    exact ⟨v, hmount, hv, fun hr => absurd hr hreported⟩

theorem crash_atomicity_provisioned : provisioned.volume.fenced = false
    ∧ ∃ after, Atomic provisioned (.create 3 [97] .file) after :=
  ⟨provisioned_ready.unfenced,
    crash_atomicity provisioned_reachable provisioned_ready.unfenced trivial⟩

end RusticOs.Fs
