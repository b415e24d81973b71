import RusticOs.Proofs.Carries7

/-!
# `RusticOs.Proofs.Promises7`: what an open stage can rely on

A fresh stage reserves sectors, a retained slot and a retry scope in the memory of its owner.
`Ready` already says that the sectors and the slot stay free. What is left is a fact about the
store: `Promise s identity` says that a write under `identity` could be published now, if the file
is still there at its version.

* `Promise.apply`: a published request keeps the promises it does not spend.
* `Upheld.step`: an owner keeps the promise of each of its open fresh stages. What would spend one
  is refused: a direct write or an admission under the scope of a stage, and maintenance while a
  stage is open.
-/

set_option autoImplicit false

namespace RusticOs.Fs

open RusticOs.Lib RusticOs.Lib.Fallible

/-! ### Promises of a store -/

/-- An identity that passes the check of an owner whose next identity is `next`. -/
structure WriteIdentity7.Within (identity : WriteIdentity7) (next : UInt32) : Prop where
  subject_ne : identity.subject ≠ 0
  workspace_ne : identity.workspace ≠ 0
  object_ge : nextMin ≤ identity.object
  inst_ne : identity.inst ≠ 0
  epoch_ne : identity.retryEpoch ≠ 0
  key_ne : identity.retryKey ≠ 0
  workspace_lt : identity.workspace < next
  object_lt : identity.object < next
  apart : identity.workspace ≠ identity.object

theorem validateIdentity_eq_ok {v : Volume7} {identity : WriteIdentity7} {u : Unit} :
    v.validateIdentity identity = .ok u ↔ identity.Within v.header.next := by
  rw [Volume7.validateIdentity, reject_eq_ok]
  push Not
  simp only [UInt32.not_lt, UInt32.not_le]
  constructor
  · rintro ⟨h1, h2, h3, h4, h5, h6, h7, h8, h9⟩
    exact ⟨h1, h2, h3, h4, h5, h6, h7, h8, h9⟩
  · intro h
    exact ⟨h.subject_ne, h.workspace_ne, h.object_ge, h.inst_ne, h.epoch_ne, h.key_ne,
      h.workspace_lt, h.object_lt, h.apart⟩

theorem WriteIdentity7.Within.mono {identity : WriteIdentity7} {next next' : UInt32}
    (h : identity.Within next) (hle : next ≤ next') : identity.Within next' :=
  { h with
    workspace_lt := UInt32.lt_of_lt_of_le h.workspace_lt hle
    object_lt := UInt32.lt_of_lt_of_le h.object_lt hle }

/-- A write under `identity` could be published, if the file is there at its version. -/
structure Promise (s : Store) (identity : WriteIdentity7) : Prop where
  within : identity.Within s.next
  epoch : identity.retryEpoch = s.epoch
  inst_le : identity.inst.toNat ≤ s.sequence.toNat + 1
  first : s.outcomes identity.scope = none
  file : ∀ entry, s.entries identity.object = some entry → entry.kind = .file

/-- The request leaves the scope of an identity alone and its epoch current. -/
def Request.Spares (identity : WriteIdentity7) : Request → Prop
  | .replace other _ _ => other.scope ≠ identity.scope
  | .accept other _ _ => other.scope ≠ identity.scope
  | .maintain => False
  | _ => True

section
variable {s s' : Store} {identity : WriteIdentity7} {request : Request}

/-- A promise is kept when the scope stays free and the file is a file. -/
theorem Promise.keep (h : Promise s identity) (hnext : s.next ≤ s'.next)
    (hepoch : s'.epoch = s.epoch) (hsequence : s.sequence.toNat ≤ s'.sequence.toNat)
    (hfirst : s'.outcomes identity.scope = none)
    (hfile : ∀ entry, s'.entries identity.object = some entry → entry.kind = .file) :
    Promise s' identity where
  within := h.within.mono hnext
  epoch := h.epoch.trans hepoch.symm
  inst_le := le_trans h.inst_le (by omega)
  first := hfirst
  file := hfile

theorem Promise.apply (h : Promise s identity) (room : s.sequence.toNat + 1 < 2 ^ 64)
    (ha : s.Applies request s') (hs : request.Spares identity) : Promise s' identity := by
  have htick : s.sequence.toNat ≤ s.tick.toNat := by
    rw [Store.toNat_tick room]
    omega
  -- an outcome under another scope, or one that was there, leaves the promised scope free
  have hscope : ∀ {scope : Scope} {o : Outcome}, scope ≠ identity.scope →
      Function.update s.outcomes scope (some o) identity.scope = none := by
    intro scope o hne
    rw [Function.update_of_ne (Ne.symm hne)]
    exact h.first
  have hknown : ∀ {scope : Scope} {o : Outcome}, s.outcomes scope = some o →
      scope ≠ identity.scope := by
    rintro scope o ho rfl
    exact nomatch h.first.symm.trans ho
  -- a new version of a file is a file
  have hfile : ∀ {id : UInt32} {new : Entry}, new.kind = .file →
      ∀ e, Function.update s.entries id (some new) identity.object = some e → e.kind = .file := by
    intro id new hnew e he
    by_cases hid : identity.object = id
    · rw [hid, Function.update_self, Option.some.injEq] at he
      exact he ▸ hnew
    · rw [Function.update_of_ne hid] at he
      exact h.file e he
  cases ha with
  | create parent_live parent_kind kind_ne fresh hroom unnamed =>
    refine h.keep ?_ rfl htick h.first fun e he => h.file e ?_
    · show s.next ≤ s.next + 1
      rw [UInt32.le_iff_toNat_le, UInt32.toNat_add]
      have : (1 : UInt32).toNat = 1 := rfl
      omega
    · have hne : identity.object ≠ s.next := UInt32.ne_of_lt h.within.object_lt
      rw [← he]
      exact (Function.update_of_ne hne _ _).symm
  | remove live childless =>
    refine h.keep (UInt32.le_refl _) rfl htick h.first fun e he => ?_
    rename_i id entry
    by_cases hid : identity.object = id
    · have hnone : (s.setEntry id none).entries identity.object = none := by
        rw [hid]
        exact Function.update_self _ _ _
      exact nomatch hnone.symm.trans he
    · change Function.update s.entries id none identity.object = some e at he
      rw [Function.update_of_ne hid] at he
      exact h.file e he
  | replace target epoch first =>
    exact h.keep (UInt32.le_refl _) rfl htick (hscope hs) (hfile target.2.1)
  | accept target epoch first =>
    exact h.keep (UInt32.le_refl _) rfl htick (hscope hs) h.file
  | execute known waiting answers target =>
    exact h.keep (UInt32.le_refl _) rfl htick (hscope (hknown known))
      (hfile target.2.1)
  | cancel known waiting answers =>
    exact h.keep (UInt32.le_refl _) rfl htick (hscope (hknown known)) h.file
  | maintain settled => exact hs.elim

end

/-! ### Promises of an owner -/

/-- Every open fresh stage has its promise. -/
def Promised (v : Volume7) (s : Store) : Prop :=
  ∀ (i : Fin 2) (slot : StageSlot), v.stages[i] = some slot → slot.isFresh = true →
    Promise s slot.identity

/-- An owner that keeps its promises. A fenced one has made none: it finishes nothing, and a mount
drops its stages. -/
inductive Upheld : Session → Prop where
  | fenced {w : World7} (fenced : w.volume.fenced = true) : Upheld (.idle w)
  | ready {w : World7} {staged : Fin 2 → List UInt8} (ready : Ready w staged)
      (promised : Promised w.volume w.contents.store) : Upheld (.idle w)
  | lent {p : PollPublication7} {before : Contents7} {after : Option Contents7}
      {staged : Fin 2 → List UInt8} (lent : Lent before after staged p)
      (kept : Promised p.world.volume before.store)
      (published : ∀ c, after = some c → Promised p.world.volume c.store) :
      Upheld (.publishing p)

section
variable {w w' : World7} {staged : Fin 2 → List UInt8} {request : Request} {s : Store}

theorem Promised.carry (h : Promised w.volume s) (hc : Carries w w') : Promised w'.volume s := by
  intro i slot hi hfresh
  obtain ⟨old, hold, hsame⟩ := hc.slots i slot hi
  rw [hsame.identity]
  exact h i old hold (hsame.isFresh ▸ hfresh)

theorem promised_of_none (h : w.volume.stages = Vector.replicate 2 none) :
    Promised w.volume s := by
  intro i slot hi
  rw [h] at hi
  simp at hi

/-- A publication that spares the stages that stay open. -/
theorem Promised.publish {before c : Contents7} (h : Promised w.volume before.store)
    (hp : Publication request before c)
    (hs : ∀ (i : Fin 2) (slot : StageSlot), w.volume.stages[i] = some slot →
      request.Spares slot.identity) : Promised w.volume c.store :=
  fun i slot hi hfresh => (h i slot hi hfresh).apply hp.room hp.applies (hs i slot hi)

theorem Settles.upheld {before : Contents7} {after : Option Contents7}
    (h : Settles before after staged w) (kept : Promised w.volume before.store)
    (published : ∀ c, after = some c → Promised w.volume c.store) : Upheld (.idle w) := by
  cases h with
  | kept ready same => exact .ready ready (same ▸ kept)
  | done ready hpublished => exact .ready ready (published _ hpublished)
  | fenced fenced images => exact .fenced fenced

/-- A synchronous mutation that spares the stages that stay open. -/
theorem CallSpec.upheld {α : Type} {x : Op α} (hx : CallSpec x w staged request)
    (ready : Ready w staged) (promised : Promised w.volume w.contents.store) (hc : Carrying x)
    (hs : ∀ (i : Fin 2) (slot : StageSlot), (x.run w).2.volume.stages[i] = some slot →
      request.Spares slot.identity) : Upheld (.idle (x.run w).2) := by
  obtain ⟨after, hafter, hruns⟩ := hx
  have kept := promised.carry (hc w)
  exact (hruns w.disk ⟨rfl, ready.idle⟩).settles.upheld kept
    fun c hc => kept.publish (hafter c hc) hs

/-- A lending call that spares the stages that stay open. -/
theorem LendSpec.upheld {x : Op PollPublication7} (hx : LendSpec (fun _ => x) w staged request)
    (ready : Ready w staged) (promised : Promised w.volume w.contents.store) (hc : Lends x w)
    (hs : ∀ (i : Fin 2) (slot : StageSlot),
      (beginPublication x w).1.world.volume.stages[i] = some slot →
        request.Spares slot.identity) : Upheld (beginPublication x w).1 := by
  obtain ⟨after, hafter, hruns⟩ := hx
  have hran := hruns w.disk ⟨rfl, ready.idle⟩
  have kept := promised.carry hc
  change LendRan _ _ _ _ (x.run w) at hran
  unfold beginPublication at hs kept ⊢
  generalize x.run w = r at hran hs kept
  cases hran with
  | lent lent disk phase => exact .lent lent kept fun c hc => kept.publish (hafter c hc) hs
  | refused settles publishes => exact settles.upheld kept nofun

end

/-! ### What an owner with open stages refuses -/

section
variable {w : World7}

/-- A direct write under the scope of an open stage. -/
theorem replaceTracked_held {identity : WriteIdentity7}
    (h : w.volume.stageHoldsScope identity = true) (expectedVersion : UInt64)
    (bytes : List UInt8) :
    ∃ e, (replaceTracked identity expectedVersion bytes).run w = (.error e, w) := by
  unfold replaceTracked
  rw [run_getVolume_bind]
  cases w.volume.ready with
  | error e => exact ⟨e, rfl⟩
  | ok u =>
  rw [lift_ok_bind]
  by_cases hsize : bytes.length ≥ 2 ^ 32
  · rw [refuse_bind_of hsize]
    exact ⟨.size, rfl⟩
  rw [refuse_bind_of_not hsize]
  cases hopen : openSlot w.volume identity expectedVersion (UInt32.ofNat bytes.length) .tracked with
  | error e => exact ⟨e, rfl⟩
  | ok slot =>
    obtain ⟨i, other, hi, hscope⟩ := stageHoldsScope_iff.mp h
    obtain ⟨-, -, hscopes, -⟩ := openSlot_eq_ok hopen
    exact absurd hscope.symm (hscopes i other hi)

/-- An admission under the scope of an open stage. -/
theorem prepareAdmission_held {identity : WriteIdentity7}
    (h : w.volume.stageHoldsScope identity = true) (expectedVersion : UInt64)
    (bytes : List UInt8) :
    ∃ e, (prepareAdmission identity expectedVersion bytes).run w = (.error e, w) := by
  unfold prepareAdmission
  rw [run_getVolume_bind]
  cases w.volume.ready with
  | error e => exact ⟨e, rfl⟩
  | ok u =>
  rw [lift_ok_bind]
  by_cases hsize : bytes.length > maxFileBytes
  · rw [refuse_bind_of hsize]
    exact ⟨.size, rfl⟩
  rw [refuse_bind_of_not hsize]
  cases w.volume.validateIdentity identity with
  | error e => exact ⟨e, rfl⟩
  | ok u =>
  rw [lift_ok_bind, refuse_bind_of h]
  exact ⟨.busy, rfl⟩

/-- Maintenance while a stage is open. -/
theorem maintainRetention_held (h : w.volume.openStages ≠ 0) :
    ∃ e, maintainRetention.run w = (.error e, w) := by
  unfold maintainRetention
  rw [run_getVolume_bind]
  cases w.volume.ready with
  | error e => exact ⟨e, rfl⟩
  | ok u =>
  rw [lift_ok_bind, refuse_bind_of h]
  exact ⟨.busy, rfl⟩

/-- A token that names no open stage is refused as invalid. -/
theorem stageIndex_error {v : Volume7} {stage : Stage7} {e : Error}
    (h : v.stageIndex stage = .error e) : e = .invalid := by
  unfold Volume7.stageIndex at h
  split at h
  · split at h
    · split at h <;> cases h
      rfl
    · cases h
      rfl
  · cases h
    rfl

/-- A complete stage of the kind that is finished is taken. -/
theorem takeFinishable_ok {α : Type} {stage : Stage7} {kind : Stage7Kind} {i : Fin 2}
    {slot : StageSlot} (hindex : w.volume.stageIndex stage = .ok (i, slot))
    (hfinish : slot.kind = kind ∧ slot.complete = true) (f : StageSlot → Op α) :
    (takeFinishable stage kind >>= f).run w = (f slot).run (w.setStage i none) := by
  unfold takeFinishable
  simp only [bind_assoc, pure_bind, run_getVolume_bind]
  rw [hindex, lift_ok_bind]
  dsimp only
  rw [refuse_bind_of_not (not_not.mpr hfinish), run_setStage_bind]

/-- Taking a stage to finish it: it is refused and stays, or its slot is closed. -/
theorem takeFinishable_run {α : Type} (stage : Stage7) (kind : Stage7Kind) (f : StageSlot → Op α)
    (w : World7) :
    (takeFinishable stage kind >>= f).run w = (.error .invalid, w)
      ∨ ∃ i slot, w.volume.stageIndex stage = .ok (i, slot) ∧ slot.kind = kind
        ∧ slot.complete = true
        ∧ (takeFinishable stage kind >>= f).run w = (f slot).run (w.setStage i none) := by
  cases hindex : w.volume.stageIndex stage with
  | error e =>
    left
    unfold takeFinishable
    simp only [bind_assoc, pure_bind, run_getVolume_bind]
    rw [hindex, show e = .invalid from stageIndex_error hindex]
    rfl
  | ok found =>
    obtain ⟨i, slot⟩ := found
    by_cases hfinish : slot.kind = kind ∧ slot.complete = true
    · exact Or.inr ⟨i, slot, rfl, hfinish.1, hfinish.2, takeFinishable_ok hindex hfinish f⟩
    · left
      unfold takeFinishable
      simp only [bind_assoc, pure_bind, run_getVolume_bind]
      rw [hindex, lift_ok_bind]
      dsimp only
      rw [refuse_bind_of hfinish]
      rfl

end

/-! ### One call -/

section
variable {w : World7} {staged : Fin 2 → List UInt8}

/-- Once a stage is taken, the stages that stay have other scopes. -/
theorem scope_ne_of_taken (h : Ready w staged) {i : Fin 2} {slot : StageSlot}
    (hi : w.volume.stages[i] = some slot) {w' : World7} (hc : Carries (w.setStage i none) w')
    {j : Fin 2} {other : StageSlot} (hj : w'.volume.stages[j] = some other) :
    slot.identity.scope ≠ other.identity.scope := by
  obtain ⟨old, hold, hsame⟩ := hc.slots j other hj
  rw [hsame.identity]
  by_cases hji : j = i
  · subst hji
    have hnone := Vector.setAt_self w.volume.stages j none
    exact nomatch hnone.symm.trans hold
  · have hother := (Vector.setAt_ne w.volume.stages hji none).symm.trans hold
    exact h.stages.scopes i j slot old (Ne.symm hji) hi hother

/-- A call that leaves the owner as it was. -/
theorem Upheld.same {α : Type} {x : Op α} (h : Upheld (.idle w)) {r : Except Error α}
    (hrun : x.run w = (r, w)) : Upheld (.idle (x.run w).2) := by
  rw [hrun]
  exact h

theorem Upheld.refused {x : Op PollPublication7} (h : Upheld (.idle w)) {e : Error}
    (hrun : x.run w = (.error e, w)) : Upheld (beginPublication x w).1 := by
  rw [beginPublication, hrun]
  exact h

theorem finishTracked_run (ready : Ready w staged) (stage : Stage7) :
    (finishTracked stage).run w = (.error .invalid, w)
      ∨ ∃ i slot, w.volume.stageIndex stage = .ok (i, slot) ∧ slot.kind = .tracked
        ∧ slot.complete = true
        ∧ (finishTracked stage).run w = (finishTrackedSlot slot).run (w.setStage i none) := by
  unfold finishTracked
  rw [run_getVolume_bind, ready.ready, lift_ok_bind]
  exact takeFinishable_run stage .tracked finishTrackedSlot w

theorem finishTracked_upheld (ready : Ready w staged)
    (promised : Promised w.volume w.contents.store) (stage : Stage7) :
    Upheld (.idle ((finishTracked stage).run w).2) := by
  rcases finishTracked_run ready stage with hrun | ⟨i, slot, hindex, -, -, hrun⟩
  · exact (Upheld.ready ready promised).same hrun
  · have hc : Carries (w.setStage i none) ((finishTracked stage).run w).2 := by
      rw [hrun]
      exact Carrying.finishTrackedSlot slot _
    exact (finishTracked_spec ready stage (finishRequest_eq hindex)).upheld ready promised
      (Carrying.finishTracked stage)
      fun j other hj => scope_ne_of_taken ready (stageIndex_spec hindex).1 hc hj

/-- Finishing a staged admission: it is refused and stays, or its slot is closed. -/
theorem finishAdmission_run (ready : Ready w staged) (stage : Stage7) :
    (finishAdmission stage).run w = (.error .invalid, w)
      ∨ ∃ i slot, w.volume.stageIndex stage = .ok (i, slot)
        ∧ Carries (w.setStage i none) (beginPublication (finishAdmission stage) w).1.world := by
  obtain ⟨rest, hrest, heq⟩ := Lends.finishAdmission_eq stage
  have hrun : (finishAdmission stage).run w
      = (takeFinishable stage .admission >>= rest w.volume).run w := by
    rw [heq, run_getVolume_bind, ready.ready, lift_ok_bind]
  rcases takeFinishable_run stage .admission (rest w.volume) w with
    hrefused | ⟨i, slot, hindex, -, -, htaken⟩
  · exact Or.inl (hrun.trans hrefused)
  · refine Or.inr ⟨i, slot, hindex, ?_⟩
    have hc := hrest w.volume slot (w.setStage i none)
    unfold Lends beginPublication at hc
    rw [beginPublication, hrun, htaken]
    exact hc

theorem finishAdmission_upheld (ready : Ready w staged)
    (promised : Promised w.volume w.contents.store) (stage : Stage7) :
    Upheld (beginPublication (finishAdmission stage) w).1 := by
  rcases finishAdmission_run ready stage with hrefused | ⟨i, slot, hindex, hc⟩
  · exact (Upheld.ready ready promised).refused hrefused
  · exact (finishAdmission_spec ready stage (finishRequest_eq hindex)).upheld ready promised
      (Lends.finishAdmission stage w)
      fun j other hj => scope_ne_of_taken ready (stageIndex_spec hindex).1 hc hj

variable {identity : WriteIdentity7} {expectedVersion : UInt64} {length : UInt32}

/-- What a fresh stage is opened under is promised. -/
theorem openSlot_promise (ready : Ready w staged) {kind : Stage7Kind} {slot : StageSlot}
    (h : openSlot w.volume identity expectedVersion length kind = .ok slot)
    (hfresh : slot.isFresh = true) : Promise w.contents.store slot.identity := by
  obtain ⟨-, hidentity, -, ⟨plan, ⟨-, hfirst, index, free, ht⟩, rfl⟩ | ⟨record, -, rfl⟩⟩ :=
    openSlot_eq_ok h
  · have hinst := UInt64.le_iff_toNat_le.mp (UInt64.not_lt.mp ht.inst_le)
    rw [ht.next] at hinst
    refine ⟨validateIdentity_eq_ok.mp hidentity, ht.epoch, hinst, ?_, fun entry hentry => ?_⟩
    · exact outcomesOf_eq_none _ fun i r hi => findRetry_none hfirst hi
    · have hslot := entriesOf_slot w.disk.medium.view ready.valid ht.live
      rw [ht.id] at hslot
      rw [Option.some.inj (hentry.symm.trans hslot)]
      exact ht.kind
  · cases hfresh

theorem openStage_upheld (ready : Ready w staged)
    (promised : Promised w.volume w.contents.store) (identity : WriteIdentity7)
    (expectedVersion : UInt64) (length : UInt32) (kind : Stage7Kind) :
    Upheld (.idle ((openStage identity expectedVersion length kind).run w).2) := by
  obtain ⟨hcontents, herror, hok⟩ := openStage_spec ready identity expectedVersion length kind
  have hran := openStage_ran identity expectedVersion length kind w
  generalize (openStage identity expectedVersion length kind).run w = r at hcontents herror hok hran
  cases hran with
  | refused e nextOwner => exact .ready (herror e rfl) promised
  | opened index slot nonce owner nextOwner closed counted slotOk took =>
    obtain ⟨i, -, hready⟩ := hok _ rfl
    refine .ready hready fun j other hj hfresh => ?_
    rw [hcontents]
    by_cases hji : j = index
    · subst hji
      rw [Vector.setAt_self, Option.some.injEq] at hj
      subst hj
      have hp := openSlot_promise ready slotOk hfresh
      exact hp
    · rw [Vector.setAt_ne _ hji] at hj
      exact promised j other hj hfresh

/-- A read, or an answer without one. -/
theorem Upheld.onDisk (ready : Ready w staged) (promised : Promised w.volume w.contents.store)
    {d : Disk} (hd : SameDisk d w) : Upheld (.idle { w with disk := d }) :=
  .ready (ready.onDisk hd) (hd.contents ▸ promised)

theorem ReadRan.upheld {α : Type} {answer : Except Error α} {r : Except Error α × World7}
    (h : ReadRan w answer r) (ready : Ready w staged)
    (promised : Promised w.volume w.contents.store) : Upheld (.idle r.2) := by
  obtain ⟨d, hd, hsame⟩ := h.world
  rw [hd]
  exact .onDisk ready promised hsame

theorem mount_upheld (w : World7) : Upheld (.idle (mountInto.run w).2) := by
  obtain ⟨-, hok, herror, -⟩ := mountInto_spec w fun _ => []
  cases hr : (mountInto.run w).1 with
  | error e => exact .fenced (herror e hr)
  | ok u =>
    refine .ready (hok u hr).1 (promised_of_none ?_)
    rw [mountInto_run] at hr ⊢
    rcases hm : mountTrusted.run w.disk with ⟨r, d⟩
    rw [hm] at hr
    cases r with
    | ok m => rfl
    | error e => cases hr

theorem provision_upheld (h : Upheld (.idle w)) (lineage : Bytes 16) :
    Upheld (.idle ((provisionInto lineage).run w).2) := by
  obtain ⟨hok, herror⟩ := provisionInto_spec w lineage fun _ => []
  cases hr : ((provisionInto lineage).run w).1 with
  | error e =>
    rcases herror e hr with hsame | hfenced
    · rw [hsame]
      exact h
    · exact .fenced hfenced
  | ok u =>
    refine .ready (hok u hr).1 (promised_of_none ?_)
    cases hencode : (Header7.initial lineage).encode with
    | error e =>
      rw [provisionInto, hencode] at hr
      cases hr
    | ok block =>
      rw [provisionInto, hencode, lift_ok_bind, run_setVolume_bind,
        run_getVolume_bind, run_bind, run_attempt, run_onDisk] at hr ⊢
      generalize (provisionDisk _ _).run w.disk = result at hr ⊢
      obtain ⟨r, d⟩ := result
      cases r with
      | ok header => rfl
      | error e => cases hr

/-- One call of a ready owner. -/
theorem ready_upheld (ready : Ready w staged) (promised : Promised w.volume w.contents.store)
    {call : Call} (hcuts : ¬ call.Cuts) : Upheld (idleStep w call).1 := by
  have hsame : Upheld (.idle w) := .ready ready promised
  cases call with
  | provision lineage => exact provision_upheld hsame lineage
  | mount => exact mount_upheld w
  | create parent name kind =>
    exact (create_spec ready parent name kind).upheld ready promised
      (Carrying.create parent name kind) fun _ _ _ => trivial
  | remove id =>
    exact (remove_spec ready id).upheld ready promised (Carrying.remove id) fun _ _ _ => trivial
  | maintain =>
    by_cases hopen : w.volume.openStages ≠ 0
    · obtain ⟨e, hrun⟩ := maintainRetention_held hopen
      exact hsame.same hrun
    · refine (maintainRetention_spec ready).upheld ready promised Carrying.maintainRetention
        fun i slot hi => ?_
      obtain ⟨old, hold, -⟩ := (Carrying.maintainRetention w).slots i slot hi
      exact nomatch (openStages_eq_zero hopen i).symm.trans hold
  | replaceTracked identity version bytes =>
    by_cases hheld : w.volume.stageHoldsScope identity = true
    · obtain ⟨e, hrun⟩ := replaceTracked_held hheld version bytes
      exact hsame.same hrun
    · refine (replaceTracked_spec ready identity version bytes).upheld ready promised
        (Carrying.replaceTracked identity version bytes) fun i slot hi heq => hheld ?_
      obtain ⟨old, hold, hold'⟩ :=
        (Carrying.replaceTracked identity version bytes w).slots i slot hi
      exact stageHoldsScope_iff.mpr ⟨i, old, hold, by rw [heq, hold'.identity]⟩
  | openStage identity version length kind =>
    exact openStage_upheld ready promised identity version length kind
  | stageWrite stage bytes =>
    obtain ⟨herror, hok⟩ := stageWrite_spec ready stage bytes
    have kept := promised.carry (Carrying.stageWrite stage bytes w)
    show Upheld (.idle ((stageWrite stage bytes).run w).2)
    cases hr : ((stageWrite stage bytes).run w).1 with
    | error e => exact (herror e hr).upheld kept nofun
    | ok n =>
      obtain ⟨i, -, hready, hcontents⟩ := hok n hr
      exact .ready hready (hcontents ▸ kept)
  | abortStage stage =>
    obtain ⟨hready, hcontents⟩ := abortStage_spec ready stage
    exact .ready hready (hcontents ▸ promised.carry (Carrying.abortStage stage w))
  | releaseStages =>
    obtain ⟨hready, hcontents⟩ := releaseStages_spec ready
    exact .ready hready (hcontents ▸ promised.carry (Carrying.releaseStages w))
  | finishTracked stage => exact finishTracked_upheld ready promised stage
  | prepareAdmission identity version bytes =>
    by_cases hheld : w.volume.stageHoldsScope identity = true
    · obtain ⟨e, hrun⟩ := prepareAdmission_held hheld version bytes
      exact hsame.refused hrun
    · refine (prepareAdmission_spec ready identity version bytes).upheld ready promised
        (Lends.prepareAdmission identity version bytes w) fun i slot hi heq => hheld ?_
      obtain ⟨old, hold, hold'⟩ := (Lends.prepareAdmission identity version bytes w).slots i slot hi
      exact stageHoldsScope_iff.mpr ⟨i, old, hold, by rw [heq, hold'.identity]⟩
  | finishAdmission stage => exact finishAdmission_upheld ready promised stage
  | prepareExecute identity version =>
    exact (prepareExecute_spec ready identity version).upheld ready promised
      (Lends.prepareExecute identity version w) fun _ _ _ => trivial
  | prepareCancellation identity version prevention =>
    exact (prepareCancellation_spec ready identity version prevention).upheld ready promised
      (Lends.prepareCancellation identity version prevention w) fun _ _ _ => trivial
  | readRange id version offset size =>
    exact (readRange_spec ready id version offset size).upheld ready promised
  | readRetainedRange record offset size =>
    exact (readRetainedRange_spec ready record offset size).upheld ready promised
  | powerCut mask replies => exact absurd trivial hcuts
  | resolve applied =>
    have hmedium : (w.disk.resolve applied).medium = w.disk.medium := by
      rw [Device.resolve, ready.idle]
    exact .onDisk ready promised ⟨hmedium, rfl⟩
  | poll settled | abort | drop => exact hsame

end

/-- Every call keeps an owner's promises. -/
theorem Upheld.step {s : Session} (h : Upheld s) {call : Call} (hcuts : ¬ call.Cuts) :
    Upheld (s.step call).1 := by
  cases h with
  | ready ready promised => exact ready_upheld ready promised hcuts
  | @fenced w fenced =>
    by_cases hcall : call.Recovers
    · cases call with
      | provision lineage => exact provision_upheld (.fenced fenced) lineage
      | mount => exact mount_upheld w
      | powerCut mask replies => exact absurd trivial hcuts
      | resolve applied => exact .fenced fenced
      | _ => cases hcall
    · obtain ⟨w', hw', hfenced, -⟩ := fenced_idleStep fenced hcall
      show Upheld (idleStep w call).1
      rw [hw']
      exact .fenced hfenced
  | @lent p before after staged lent kept published =>
    have hc := publishing_carries p hcuts
    have hkept := kept.carry hc
    have hpublished :
        ∀ c, after = some c → Promised (publishingStep p call).1.world.volume c.store :=
      fun c hafter => (published c hafter).carry hc
    cases call with
    | poll settled => exact .lent (lent.poll settled) hkept hpublished
    | abort => exact .lent lent.abort hkept hpublished
    | drop => exact lent.drop.upheld hkept hpublished
    | powerCut mask replies => exact absurd trivial hcuts
    | _ => exact .lent lent kept published

end RusticOs.Fs
