import RusticOs.Proofs.Ledger7

/-!
# `RusticOs.Proofs.Carries7`: the stages after a call

`Carries w w'` says that no stage was opened between `w` and `w'`: each stage that is open in `w'`
was open in `w`, in the same slot, under the same token and for the same request, and the counters
of tokens stand where they stood. It is a preorder, so a call keeps it when its steps do
(`Carrying`). It holds of every call but the opening of a stage and the end of the program.

* `idle_carries`: a call of an idle owner.
* `publishing_carries`: a call of a lent owner.
-/

set_option autoImplicit false

namespace RusticOs.Fs

open RusticOs.Lib RusticOs.Lib.Fallible

/-! ### The stages after a call -/

/-- No stage was opened: each one that is open was open before, in its slot. -/
structure Carries (w w' : World7) : Prop where
  nextOwner : w'.nextOwner = w.nextOwner
  stageNonce : w'.volume.stageNonce = w.volume.stageNonce
  stageOwner : w'.volume.stageOwner = w.volume.stageOwner
  slots : ∀ (i : Fin 2) (slot : StageSlot), w'.volume.stages[i] = some slot →
    ∃ old, w.volume.stages[i] = some old ∧ Walks slot old

/-- An unchanged world. -/
theorem Carries.refl (w : World7) : Carries w w :=
  ⟨rfl, rfl, rfl, fun _ slot h => ⟨slot, h, Walks.refl slot⟩⟩

/-- Carrying composes along a run. -/
theorem Carries.trans {a b c : World7} (h : Carries a b) (h' : Carries b c) : Carries a c where
  nextOwner := h'.nextOwner.trans h.nextOwner
  stageNonce := h'.stageNonce.trans h.stageNonce
  stageOwner := h'.stageOwner.trans h.stageOwner
  slots := by
    intro i slot hslot
    obtain ⟨mid, hmid, hsame⟩ := h'.slots i slot hslot
    obtain ⟨old, hold, hsame'⟩ := h.slots i mid hmid
    exact ⟨old, hold, hsame.trans hsame'⟩

/-- The stages are as they were. -/
theorem Carries.of_stages {w w' : World7} (hnext : w'.nextOwner = w.nextOwner)
    (hnonce : w'.volume.stageNonce = w.volume.stageNonce)
    (howner : w'.volume.stageOwner = w.volume.stageOwner)
    (hstages : w'.volume.stages = w.volume.stages) : Carries w w' :=
  ⟨hnext, hnonce, howner, fun _ slot h => ⟨slot, hstages ▸ h, Walks.refl slot⟩⟩

/-- Every stage was dropped. -/
theorem Carries.of_none {w w' : World7} (hnext : w'.nextOwner = w.nextOwner)
    (hnonce : w'.volume.stageNonce = w.volume.stageNonce)
    (howner : w'.volume.stageOwner = w.volume.stageOwner)
    (hstages : w'.volume.stages = Vector.replicate 2 none) : Carries w w' := by
  refine ⟨hnext, hnonce, howner, fun i slot h => ?_⟩
  rw [hstages] at h
  simp at h

/-- Closing a slot drops its stage. -/
theorem Carries.close (w : World7) (i : Fin 2) : Carries w (w.setStage i none) := by
  refine ⟨rfl, rfl, rfl, fun j slot h => ?_⟩
  by_cases hji : j = i
  · subst hji
    have hnone := Vector.setAt_self w.volume.stages j none
    exact nomatch hnone.symm.trans h
  · exact ⟨slot, (Vector.setAt_ne w.volume.stages hji none).symm.trans h, Walks.refl slot⟩

/-- A computation that opens no stage. -/
def Carrying {ε α : Type} (x : Fallible ε World7 α) : Prop := Fallible.Keeps Carries x

namespace Carrying

section
variable {ε α β : Type}

/-- A program that returns at once. -/
theorem pure (a : α) : Carrying (Pure.pure a : Fallible ε World7 α) :=
  Fallible.Keeps.pure Carries.refl a

/-- A program that refuses at once. -/
theorem fail (e : ε) : Carrying (Fallible.fail e : Fallible ε World7 α) :=
  Fallible.Keeps.fail Carries.refl e

/-- One program after the other. -/
theorem bind {x : Fallible ε World7 α} {f : α → Fallible ε World7 β} (hx : Carrying x)
    (hf : ∀ a, Carrying (f a)) : Carrying (x >>= f) :=
  Fallible.Keeps.bind (R := Carries) (fun _ _ _ h h' => h.trans h') hx hf

/-- A check, and what follows it. -/
theorem lift {r : Except ε α} {f : α → Fallible ε World7 β} (hf : ∀ a, Carrying (f a)) :
    Carrying (Fallible.lift r >>= f) :=
  Fallible.Keeps.lift_bind Carries.refl fun a _ => hf a

/-- A check alone. -/
theorem lifted (r : Except ε α) : Carrying (Fallible.lift r : Fallible ε World7 α) :=
  fun w => .refl w

/-- A refusal, and what follows it. -/
theorem refuse {c : Prop} [Decidable c] {e : ε} {f : Unit → Fallible ε World7 β}
    (hf : Carrying (f ())) : Carrying (Fallible.refuse c e >>= f) :=
  Fallible.Keeps.refuse_bind Carries.refl fun _ => hf

end

section
variable {α β : Type}

/-- A program that reads the volume first. -/
theorem getVolume {f : Volume7 → Op α} (hf : ∀ v, Carrying (f v)) : Carrying (getVolume >>= f) :=
  fun w => hf w.volume w

/-- A program of the disk alone. -/
theorem onDisk (x : Fallible Error Disk α) : Carrying (onDisk x) :=
  fun _ => .of_stages rfl rfl rfl rfl

/-- Changes that leave the stages alone. -/
theorem setVolume {f : Volume7 → Volume7} (h : ∀ v, (f v).stageNonce = v.stageNonce
      ∧ (f v).stageOwner = v.stageOwner ∧ (f v).stages = v.stages) : Carrying (setVolume f) :=
  fun w => .of_stages rfl (h w.volume).1 (h w.volume).2.1 (h w.volume).2.2

/-- Changes that drop the stages. -/
theorem clears {f : Volume7 → Volume7} (h : ∀ v, (f v).stageNonce = v.stageNonce
      ∧ (f v).stageOwner = v.stageOwner ∧ (f v).stages = Vector.replicate 2 none) :
    Carrying (Fs.setVolume f) :=
  fun w => .of_none rfl (h w.volume).1 (h w.volume).2.1 (h w.volume).2.2

/-- Fencing clears the stages. -/
theorem fenceClear : Carrying (Fs.setVolume Volume7.fenceClear) :=
  clears fun _ => ⟨rfl, rfl, rfl⟩

/-- So does clearing the volume. -/
theorem clear : Carrying (Fs.setVolume Volume7.clear) :=
  clears fun _ => ⟨rfl, rfl, rfl⟩

/-- A closed slot. -/
theorem closeStage (i : Fin 2) : Carrying (setStage i none) := fun w => .close w i

/-- A program whose error is looked at. -/
theorem attempt {ε ε' : Type} {x : Fallible ε World7 α} {f : Except ε α → Fallible ε' World7 β}
    (hx : Carrying x) (hf : ∀ r, Carrying (f r)) : Carrying (x.attempt >>= f) :=
  bind (Fallible.Keeps.attempt hx) hf

end

/-! ### The synchronous calls -/

/-- The whole publication, whether it fences or not. -/
theorem publishNamespace : Carrying publishNamespace := by
  refine getVolume fun v => attempt (onDisk _) fun r => ?_
  cases r with
  | ok header => exact setVolume fun _ => ⟨rfl, rfl, rfl⟩
  | error e => exact fenceClear.bind fun _ => fail e

/-- A mount starts without stages. -/
theorem mountInto : Carrying mountInto := by
  refine fenceClear.bind fun _ => attempt (onDisk _) fun r => ?_
  cases r with
  | ok m => exact setVolume fun _ => ⟨rfl, rfl, rfl⟩
  | error e => exact clear.bind fun _ => fail e

/-- So does a new volume. -/
theorem provisionInto (lineage : Bytes 16) : Carrying (provisionInto lineage) := by
  refine lift fun _ => bind (clears fun _ => ⟨rfl, rfl, rfl⟩) fun _ =>
    getVolume fun v => attempt (onDisk _) fun r => ?_
  cases r with
  | ok header => exact setVolume fun _ => ⟨rfl, rfl, rfl⟩
  | error e => exact clear.bind fun _ => fail e

/-- A new node. -/
theorem create (parent : UInt32) (name : List UInt8) (kind : Kind) :
    Carrying (create parent name kind) :=
  getVolume fun _ => lift fun _ => lift fun _ => refuse <| lift fun _ => refuse <| refuse <|
    lift fun _ => lift fun _ => lift fun _ => lift fun _ => lift fun _ =>
      bind (setVolume fun _ => ⟨rfl, rfl, rfl⟩) fun _ =>
        publishNamespace.bind fun _ => pure _

/-- A node that is removed. -/
theorem remove (id : UInt32) : Carrying (remove id) := by
  refine getVolume fun v => lift fun _ => lift fun index => refuse <| refuse <| lift fun _ => ?_
  cases (releasable v.records v.nodes[index]).foldlM release v.map with
  | error e => exact fenceClear.bind fun _ => fail _
  | ok map =>
    exact bind (setVolume fun _ => ⟨rfl, rfl, rfl⟩) fun _ => publishNamespace

/-- A maintenance publication. -/
theorem maintainRetention : Carrying maintainRetention := by
  refine getVolume fun v => lift fun _ => refuse <| refuse <| lift fun _ => lift fun _ =>
    lift fun _ => lift fun live => refuse ?_
  exact bind (setVolume fun _ => ⟨rfl, rfl, rfl⟩) fun _ =>
    publishNamespace.bind fun _ => pure _

/-- Validation puts the map back as it was. -/
theorem validateCandidate (c : Candidate7) : Carrying (validateCandidate c) :=
  getVolume fun _ => lift fun _ => lift fun _ =>
    bind (setVolume fun _ => ⟨rfl, rfl, rfl⟩) fun _ => getVolume fun _ =>
      bind (setVolume fun _ => ⟨rfl, rfl, rfl⟩) fun _ => lifted _

/-- The direct publication of a stage's candidate. -/
theorem commitTracked (slot : StageSlot) (plan : PayloadPlan) :
    Carrying (commitTracked slot plan) := by
  refine getVolume fun v => refuse <| lift fun target => (validateCandidate _).bind fun _ => ?_
  cases (trackedCandidate v slot plan target).released.foldlM release (reservePlan v.map plan) with
  | error e => exact fenceClear.bind fun _ => fail _
  | ok map =>
    exact bind (setVolume fun _ => ⟨rfl, rfl, rfl⟩) fun _ =>
      publishNamespace.bind fun _ => pure _

/-- A finished slot, fresh or retried. -/
theorem finishTrackedSlot (slot : StageSlot) : Carrying (finishTrackedSlot slot) := by
  refine refuse ?_
  cases slot.mode with
  | fresh plan => exact commitTracked slot plan
  | retry record matching => exact refuse <| refuse <| pure record

/-- The stage that is finished is taken out. -/
theorem takeFinishable (stage : Stage7) (kind : Stage7Kind) :
    Carrying (takeFinishable stage kind) :=
  getVolume fun _ => lift fun found => refuse <| (closeStage found.1).bind fun _ => pure _

/-- A tracked write that is finished. -/
theorem finishTracked (stage : Stage7) : Carrying (finishTracked stage) :=
  getVolume fun _ => lift fun _ => (takeFinishable stage _).bind fun slot => finishTrackedSlot slot

/-- One sector of a stage. -/
theorem writeSlot (slot : StageSlot) (bytes : List UInt8) : Carrying (writeSlot slot bytes) := by
  refine refuse ?_
  cases slot.mode with
  | fresh plan =>
    refine lift fun sector => attempt (onDisk _) fun r => ?_
    cases r with
    | ok u => exact pure _
    | error e =>
      refine bind (x := Fallible.change _) (fun w => .of_none rfl rfl rfl rfl) fun _ => fail _
  | retry record matching =>
    exact lift fun sector => bind (Fallible.Keeps.mapError (onDisk _)) fun _ => pure _

/-- A direct write. -/
theorem replaceTracked (identity : WriteIdentity7) (expectedVersion : UInt64)
    (bytes : List UInt8) : Carrying (replaceTracked identity expectedVersion bytes) := by
  refine getVolume fun _ => lift fun _ => refuse <| lift fun slot => bind (x := writeSectors _ _) ?_
    fun next => finishTrackedSlot next
  exact Fallible.Keeps.foldlM (R := Carries) Carries.refl (fun _ _ _ h h' => h.trans h')
    (fun slot bytes => Fallible.Keeps.mapError (writeSlot slot bytes)) _ _

/-- A stage that is given up. -/
theorem abortStage (stage : Stage7) : Carrying (abortStage stage) :=
  getVolume fun _ => lift fun found => closeStage found.1

/-- All stages given up. -/
theorem releaseStages : Carrying releaseStages :=
  getVolume fun _ => bind (clears fun _ => ⟨rfl, rfl, rfl⟩) fun _ => pure _

/-- A read of a file. -/
theorem readRange (id : UInt32) (version : Option UInt64) (offset : UInt64) (size : Nat) :
    Carrying (readRange id version offset size) :=
  getVolume fun _ => lift fun _ => refuse <| refuse <| refuse <| onDisk _

/-- A read of a snapshot. -/
theorem readRetainedRange (record : Record7) (offset : UInt64) (size : Nat) :
    Carrying (readRetainedRange record offset size) :=
  getVolume fun _ => lift fun _ => refuse <| refuse <| onDisk _

/-- A stage that was taken out of its slot is put back, perhaps further along. -/
theorem put {w w' : World7} {i : Fin 2} {slot next : StageSlot}
    (h : Carries (w.setStage i none) w') (hi : w.volume.stages[i] = some slot)
    (hsame : Walks next slot) : Carries w (w'.setStage i (some next)) := by
  refine ⟨h.nextOwner, h.stageNonce, h.stageOwner, fun j other hj => ?_⟩
  by_cases hji : j = i
  · subst hji
    have hnext := (Vector.setAt_self w'.volume.stages j (some next)).symm.trans hj
    rw [Option.some.injEq] at hnext
    exact ⟨slot, hi, hnext ▸ hsame⟩
  · have hother := (Vector.setAt_ne w'.volume.stages hji (some next)).symm.trans hj
    exact ((Carries.close w i).trans h).slots j other hother

/-- A sector supplied from outside: the slot that walks on keeps its identity. -/
theorem stageWrite (stage : Stage7) (bytes : List UInt8) : Carrying (stageWrite stage bytes) := by
  intro w
  unfold Fs.stageWrite
  rw [run_getVolume_bind]
  cases w.volume.ready with
  | error e => exact .refl w
  | ok u =>
  rw [lift_ok_bind]
  cases hindex : w.volume.stageIndex stage with
  | error e => exact .refl w
  | ok found =>
  obtain ⟨i, slot⟩ := found
  obtain ⟨hi, -⟩ := stageIndex_spec hindex
  have hwrite := writeSlot slot bytes (w.setStage i none)
  rw [lift_ok_bind]
  dsimp only
  rw [run_setStage_bind, run_bind, run_attempt]
  rcases hr : (Fs.writeSlot slot bytes).run (w.setStage i none) with ⟨r, w'⟩
  rw [hr] at hwrite
  cases r with
  | ok next => exact put hwrite hi (writeSlot_walks hr)
  | error fault =>
    cases fault with
    | refused e => exact put hwrite hi (.refl slot)
    | released e | fenced => exact (Carries.close w i).trans hwrite

end Carrying

/-! ### The lending calls -/

/-- A call that lends an owner, or refuses, opens no stage. -/
def Lends (x : Op PollPublication7) (w : World7) : Prop := Carries w (beginPublication x w).1.world

namespace Lends

section
variable {α : Type} {w : World7}

/-- A refusal leaves the owner as it is. -/
theorem fail (e : Error) : Lends (Fallible.fail e) w := .refl w

/-- A check before a publication. -/
theorem lift {r : Except Error α} {f : α → Op PollPublication7} (hf : ∀ a, Lends (f a) w) :
    Lends (Fallible.lift r >>= f) w := by
  cases r with
  | error e => exact fail e
  | ok a => exact hf a

/-- A refusal before a publication. -/
theorem refuse {c : Prop} [Decidable c] {e : Error} {f : Unit → Op PollPublication7}
    (hf : Lends (f ()) w) : Lends (Fallible.refuse c e >>= f) w := by
  by_cases hc : c
  · rw [refuse_bind_of hc]
    exact fail e
  · rw [refuse_bind_of_not hc]
    exact hf

/-- The world is read first. -/
theorem get {f : World7 → Op PollPublication7} (hf : Lends (f w) w) :
    Lends (Fallible.get >>= f) w := hf

/-- The volume is read first. -/
theorem getVolume {f : Volume7 → Op PollPublication7} (hf : Lends (f w.volume) w) :
    Lends (getVolume >>= f) w := hf

/-- Anything that opens no stage can come first. -/
theorem bind {x : Op α} {f : α → Op PollPublication7} (hx : Carrying x)
    (hf : ∀ a w', Lends (f a) w') : Lends (x >>= f) w := by
  have hfirst := hx w
  unfold Lends beginPublication
  rw [run_bind]
  rcases hr : x.run w with ⟨r, w'⟩
  rw [hr] at hfirst
  cases r with
  | ok a => exact hfirst.trans (hf a w')
  | error e => exact hfirst

/-- The guard holds the owner as it is, up to the fence. -/
theorem guard {guard : World7 → PollPublication7}
    (h : ∀ w, ∃ fenced, (guard w).world = w.setFenced fenced) :
    Lends (do let w ← Fallible.get; pure (guard w)) w := by
  obtain ⟨fenced, hw⟩ := h w
  show Carries w (guard w).world
  rw [hw]
  exact .of_stages rfl rfl rfl rfl

/-- A replay lends the world as it is. -/
theorem replay (record : Record7) : Lends (pure (.replay w record)) w := .refl w

end

/-- The candidate of an admission is built and validated. -/
theorem admissionCandidate (identity : WriteIdentity7) (expectedVersion : UInt64)
    (length payloadCrc32 : UInt32) (plan : PayloadPlan) :
    Carrying (admissionCandidate identity expectedVersion length payloadCrc32 plan) :=
  Carrying.getVolume fun _ => Carrying.lift fun _ =>
    (Carrying.validateCandidate _).bind fun _ => Carrying.pure _

/-- An admission: begun, a retry to compare, or refused. -/
theorem prepareAdmission (identity : WriteIdentity7) (expectedVersion : UInt64)
    (bytes : List UInt8) (w : World7) :
    Lends (prepareAdmission identity expectedVersion bytes) w := by
  refine getVolume <| lift fun _ => refuse <| lift fun _ => refuse <| lift fun opening => ?_
  cases opening with
  | retry record => exact guard fun _ => ⟨true, rfl⟩
  | fresh plan => exact bind (admissionCandidate _ _ _ _ _) fun c w' => guard fun _ => ⟨true, rfl⟩

/-- Finishing an admission takes the stage out and goes on without it. -/
theorem finishAdmission_eq (stage : Stage7) :
    ∃ rest : Volume7 → StageSlot → Op PollPublication7,
      (∀ v slot w, Lends (rest v slot) w)
        ∧ Fs.finishAdmission stage = (do
          let v ← Fs.getVolume
          Fallible.lift v.ready
          let slot ← takeFinishable stage .admission
          rest v slot) := by
  refine ⟨_, fun v slot w => ?_, rfl⟩
  cases slot.mode with
  | retry record matching =>
    dsimp only
    split
    · exact bind (Carrying.setVolume fun _ => ⟨rfl, rfl, rfl⟩) fun _ _ => fail _
    · exact refuse <| lift fun _ => guard fun _ => ⟨_, rfl⟩
  | fresh plan =>
    exact refuse <| bind (admissionCandidate _ _ _ _ _) fun _ _ => guard fun _ => ⟨true, rfl⟩

/-- A staged admission that is finished. -/
theorem finishAdmission (stage : Stage7) (w : World7) : Lends (finishAdmission stage) w := by
  obtain ⟨rest, hrest, heq⟩ := finishAdmission_eq stage
  rw [heq]
  exact getVolume <| lift fun _ => bind (Carrying.takeFinishable stage _) fun slot w' =>
    hrest _ slot w'

/-- A change without new payload. -/
theorem publishChange (c : Candidate7) (w : World7) : Lends (publishChange c) w :=
  bind (Carrying.validateCandidate c) fun _ _ => guard fun _ => ⟨true, rfl⟩

/-- An execution: replayed, published or refused. -/
theorem prepareExecute (identity : WriteIdentity7) (expectedVersion : UInt64) (w : World7) :
    Lends (prepareExecute identity expectedVersion) w := by
  refine get <| lift fun _ => lift fun _ => lift fun found => refuse ?_
  obtain ⟨slot, record⟩ := found
  dsimp only
  cases record.state with
  | cancelled => exact fail _
  | directCommitted => exact fail _
  | admittedCommitted => exact replay record
  | admitted =>
    exact lift fun _ => refuse <| refuse <| lift fun _ => publishChange _ w

/-- A cancellation: replayed, published or refused. -/
theorem prepareCancellation (identity : WriteIdentity7) (expectedVersion : UInt64)
    (prevention : PreventionReason) (w : World7) :
    Lends (prepareCancellation identity expectedVersion prevention) w := by
  refine get <| lift fun _ => lift fun _ => lift fun found => refuse ?_
  obtain ⟨slot, record⟩ := found
  dsimp only
  cases record.state with
  | cancelled => exact refuse <| replay record
  | directCommitted => exact replay record
  | admittedCommitted => exact replay record
  | admitted => exact lift fun _ => publishChange _ w

end Lends

/-! ### A lent owner -/

namespace PollPublication7

section
variable {p q : PollPublication7}

/-- The fence is no part of what is carried. -/
theorem carries_setFenced (w : World7) (fenced : Bool) : Carries w (w.setFenced fenced) :=
  .of_stages rfl rfl rfl rfl

/-- The next block is prepared in memory. -/
theorem prepareBlock_world (h : p.prepareBlock = .ok q) : q.world = p.world := by
  unfold prepareBlock at h
  split at h
  · cases h
    rfl
  · cases hstep : p.step with
    | retryRead index | payloadFlush | metadataFlush | headerFlush =>
      rw [hstep] at h
      cases h
      rfl
    | payloadWrite index =>
      simp only [hstep, except_bind_eq_ok] at h
      obtain ⟨_, -, _, -, _, -, h⟩ := h
      cases h
      rfl
    | nodesWrite index | receiptsWrite index | headerWrite =>
      simp only [hstep, except_bind_eq_ok] at h
      obtain ⟨_, -, _, -, h⟩ := h
      cases h
      rfl
    | mapWrite index =>
      simp only [hstep, except_bind_eq_ok] at h
      obtain ⟨_, -, h⟩ := h
      cases h
      rfl
    | done =>
      rw [hstep] at h
      cases h

/-- Issuing a command changes the disk only. -/
theorem pollCommand_world (settled : Bool) :
    ∃ disk, (p.pollCommand settled).2.world = { p.world with disk } := by
  unfold pollCommand
  split
  · exact ⟨p.world.disk, rfl⟩
  · dsimp only
    split
    · exact ⟨_, rfl⟩
    · exact ⟨_, rfl⟩

/-- A retry that compared equal. -/
theorem carries_finishRetry (p : PollPublication7) (record : Record7) :
    Carries p.world (p.finishRetry record).2.world := by
  unfold finishRetry
  split
  · exact carries_setFenced _ _
  · split
    · exact carries_setFenced _ _
    · exact carries_setFenced _ _

/-- A command that has settled moves the owner's fence, or commits its candidate. -/
theorem carries_completeCommand : Carries p.world p.completeCommand.2.world := by
  unfold completeCommand
  dsimp only
  split
  · exact carries_setFenced _ _
  · split
    · unfold completeRetryRead
      dsimp only
      split
      · generalize hq : ({ p with
          retryMatches := _, retryChecksum := _, payloadOffset := _, pending := _
          blockPrepared := _ } : PollPublication7) = q
        have hworld : q.world = p.world := by rw [← hq]
        exact hworld ▸ carries_finishRetry q _
      · exact .refl _
    · split <;> exact .refl _
    all_goals first
      | exact .refl _
      | exact .of_stages rfl rfl rfl rfl

/-- A turn that issues the prepared command. -/
theorem carries_pollPrepared (settled : Bool) :
    Carries p.world (p.pollPrepared settled).2.world := by
  unfold pollPrepared
  dsimp only
  generalize hp : ({ p with pending := true, ioStarted := true, phase := .uncertain } :
    PollPublication7) = p'
  have hworld : p'.world = p.world := by rw [← hp]
  obtain ⟨disk, hdisk⟩ := p'.pollCommand_world settled
  have hcarries : Carries p.world (p'.pollCommand settled).2.world := by
    rw [hdisk, hworld]
    exact .of_stages rfl rfl rfl rfl
  generalize p'.pollCommand settled = polled at hcarries
  obtain ⟨r, q⟩ := polled
  cases r with
  | pending => exact hcarries
  | ready r =>
    cases r with
    | ok u => exact hcarries.trans carries_completeCommand
    | error e => exact hcarries.trans (carries_setFenced _ _)

/-- Issuing the next block, or failing to prepare it. -/
theorem carries_issue (settled : Bool) :
    Carries p.world (match p.prepareBlock with
      | .error e => p.markFailure e p.ioStarted
      | .ok q => q.pollPrepared settled).2.world := by
  cases hprepare : p.prepareBlock with
  | error e => exact carries_setFenced _ _
  | ok q =>
    have := carries_pollPrepared (p := q) settled
    rw [prepareBlock_world hprepare] at this
    exact this

/-- A turn that settles a command or begins the next. -/
theorem carries_pollAdvance (settled : Bool) :
    Carries p.world (p.pollAdvance settled).2.world := by
  have hactive : Carries p.world (p.pollActive settled).2.world := by
    unfold pollActive
    split
    · split
      · exact carries_finishRetry p _
      · exact carries_issue settled
    · exact carries_issue settled
  unfold pollAdvance
  split <;> first | exact .refl _ | exact hactive

/-- An abort before the header. -/
theorem carries_abort : Carries p.world p.abortBeforeHeader.2.world := by
  unfold abortBeforeHeader
  split
  all_goals first | exact .refl _ | skip
  all_goals split
  all_goals first | exact .refl _ | exact carries_setFenced _ _

/-- A guard that is dropped. -/
theorem carries_drop : Carries p.world p.drop := by
  unfold PollPublication7.drop
  split
  · exact carries_setFenced _ _
  · split
    · exact carries_setFenced _ _
    · exact .refl _

end

end PollPublication7

/-! ### One call -/

/-- The calls after which a stage may be open that was not open before. -/
def Call.Opens : Call → Prop
  | .openStage _ _ _ _ => True
  | _ => False

/-- The end of the program. -/
def Call.Cuts : Call → Prop
  | .powerCut _ _ => True
  | _ => False

/-- A call of the idle owner that opens no stage. -/
theorem idle_carries (w : World7) {call : Call} (hopens : ¬ call.Opens) (hcuts : ¬ call.Cuts) :
    Carries w (idleStep w call).1.world := by
  cases call with
  | provision lineage => exact Carrying.provisionInto lineage w
  | mount => exact Carrying.mountInto w
  | create parent name kind => exact Carrying.create parent name kind w
  | remove id => exact Carrying.remove id w
  | maintain => exact Carrying.maintainRetention w
  | replaceTracked identity version bytes => exact Carrying.replaceTracked identity version bytes w
  | openStage identity version length kind => exact absurd trivial hopens
  | stageWrite stage bytes => exact Carrying.stageWrite stage bytes w
  | abortStage stage => exact Carrying.abortStage stage w
  | releaseStages => exact Carrying.releaseStages w
  | finishTracked stage => exact Carrying.finishTracked stage w
  | prepareAdmission identity version bytes => exact Lends.prepareAdmission identity version bytes w
  | finishAdmission stage => exact Lends.finishAdmission stage w
  | prepareExecute identity version => exact Lends.prepareExecute identity version w
  | prepareCancellation identity version prevention =>
    exact Lends.prepareCancellation identity version prevention w
  | readRange id version offset size => exact Carrying.readRange id version offset size w
  | readRetainedRange record offset size => exact Carrying.readRetainedRange record offset size w
  | powerCut mask replies => exact absurd trivial hcuts
  | resolve applied => exact .of_stages rfl rfl rfl rfl
  | poll settled | abort | drop => exact .refl w

/-- A call while a publication is under way. -/
theorem publishing_carries (p : PollPublication7) {call : Call} (hcuts : ¬ call.Cuts) :
    Carries p.world (publishingStep p call).1.world := by
  cases call with
  | powerCut mask replies => exact absurd trivial hcuts
  | poll settled => exact p.carries_pollAdvance settled
  | abort => exact p.carries_abort
  | drop => exact p.carries_drop
  | _ => exact .refl _

end RusticOs.Fs
