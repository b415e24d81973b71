import RusticOs.Proofs.Reservation7

/-!
# `RusticOs.Proofs.Streaming7`: a streamed replacement is a borrowed one

A tracked replacement can borrow its bytes (`replaceTracked`) or stream them: open a stage, write
the bytes sector by sector and finish the stage. `streamTracked_run` says that the second way
answers the same and leaves the same owner and disk, but for the counters the stage was opened
under.

* `World7.counted`: the owner with other counters;
* `Blind`: computations that do not see them.
-/

set_option autoImplicit false

namespace RusticOs.Fs

open RusticOs.Lib RusticOs.Lib.Fallible

/-! ### Counters -/

/-- The counters stages are opened under. -/
structure StageCounters where
  stageNonce : UInt64
  stageOwner : UInt64
  nextOwner : UInt64

def Volume7.counted (v : Volume7) (c : StageCounters) : Volume7 :=
  { v with stageNonce := c.stageNonce, stageOwner := c.stageOwner }

/-- The owner with other counters. -/
def World7.counted (w : World7) (c : StageCounters) : World7 :=
  { w with volume := w.volume.counted c, nextOwner := c.nextOwner }

/-- The counters of an owner. -/
def World7.counters (w : World7) : StageCounters :=
  ⟨w.volume.stageNonce, w.volume.stageOwner, w.nextOwner⟩

@[simp] theorem World7.counted_counters (w : World7) : w.counted w.counters = w := rfl

/-- A computation that neither reads nor changes the counters. -/
def Blind {ε α : Type} (x : Fallible ε World7 α) : Prop :=
  ∀ c, Fallible.Commutes (fun w : World7 => w.counted c) x

namespace Blind

section
variable {ε ε' α β : Type}

theorem pure (a : α) : Blind (Pure.pure a : Fallible ε World7 α) := fun _ => .pure a

theorem fail (e : ε) : Blind (Fallible.fail e : Fallible ε World7 α) := fun _ => .fail e

theorem bind {x : Fallible ε World7 α} {f : α → Fallible ε World7 β} (hx : Blind x)
    (hf : ∀ a, Blind (f a)) : Blind (x >>= f) := fun c => (hx c).bind fun a => hf a c

theorem lift_bind {r : Except ε α} {f : α → Fallible ε World7 β} (hf : ∀ a, Blind (f a)) :
    Blind (Fallible.lift r >>= f) := fun c => .lift_bind fun a => hf a c

theorem refuse_bind {p : Prop} [Decidable p] {e : ε} {f : Unit → Fallible ε World7 β}
    (hf : Blind (f ())) : Blind (Fallible.refuse p e >>= f) := fun c => .refuse_bind (hf c)

theorem attempt {x : Fallible ε World7 α} (hx : Blind x) :
    Blind (x.attempt : Fallible ε' World7 (Except ε α)) := fun c => (hx c).attempt

theorem mapError {f : ε → ε'} {x : Fallible ε World7 α} (hx : Blind x) :
    Blind (x.mapError f) := fun c => (hx c).mapError

theorem change {f : World7 → World7} (h : ∀ w c, f (w.counted c) = (f w).counted c) :
    Blind (Fallible.change f : Fallible ε World7 Unit) := fun c => .change fun w => h w c

end

section
variable {α β : Type}

theorem setVolume {f : Volume7 → Volume7} (h : ∀ v c, f (v.counted c) = (f v).counted c) :
    Blind (setVolume f) := by
  refine change fun w c => ?_
  show ({ w.counted c with volume := f (w.volume.counted c) } : World7) = _
  rw [h]
  rfl

theorem getVolume_bind {f : Volume7 → Op β} (hf : ∀ v, Blind (f v))
    (hsame : ∀ v c, f (v.counted c) = f v) : Blind (getVolume >>= f) := by
  intro c w
  rw [run_getVolume_bind, run_getVolume_bind]
  show (f (w.volume.counted c)).run (w.counted c) = _
  rw [hsame]
  exact hf w.volume c w

theorem onDisk (x : Fallible Error Disk α) : Blind (onDisk x) := by
  intro c
  exact Fallible.Commutes.on (g := fun w : World7 => w.counted c) (fun _ => rfl) (fun _ _ => rfl) x

end

/-- One sector. -/
theorem writeSlot (slot : StageSlot) (bytes : List UInt8) : Blind (writeSlot slot bytes) := by
  unfold Fs.writeSlot
  refine refuse_bind ?_
  cases slot.mode with
  | fresh plan =>
    refine lift_bind fun sector => bind (attempt (onDisk _)) fun r => ?_
    cases r with
    | ok u => exact pure _
    | error e => exact bind (change fun _ _ => rfl) fun _ => fail _
  | retry record matching =>
    exact lift_bind fun sector => bind (mapError (onDisk _)) fun block => pure _

theorem publishNamespace : Blind publishNamespace := by
  unfold Fs.publishNamespace
  refine getVolume_bind (fun v => bind (attempt (onDisk _)) fun r => ?_) fun _ _ => rfl
  cases r with
  | ok header => exact setVolume fun _ _ => rfl
  | error e => exact bind (setVolume fun _ _ => rfl) fun _ => fail _

theorem validateCandidate (candidate : Candidate7) : Blind (validateCandidate candidate) := by
  unfold Fs.validateCandidate
  refine getVolume_bind (fun old => lift_bind fun _ => lift_bind fun header =>
    bind (setVolume fun _ _ => rfl) fun _ => getVolume_bind (fun v =>
      bind (setVolume fun _ _ => rfl) fun _ _ => .lift _) fun _ _ => rfl) fun _ _ => rfl

/-- The publication of a tracked stage. -/
theorem commitTracked (slot : StageSlot) (plan : PayloadPlan) :
    Blind (commitTracked slot plan) := by
  unfold Fs.commitTracked
  refine getVolume_bind (fun v => refuse_bind (lift_bind fun target =>
    bind (validateCandidate _) fun _ => ?_)) fun _ _ => rfl
  cases List.foldlM release (reservePlan v.map plan)
    (trackedCandidate v slot plan target).released with
  | error e => exact bind (setVolume fun _ _ => rfl) fun _ => fail _
  | ok map => exact bind (setVolume fun _ _ => rfl) fun _ => bind publishNamespace fun _ => pure _

theorem finishTrackedSlot (slot : StageSlot) : Blind (finishTrackedSlot slot) := by
  unfold Fs.finishTrackedSlot
  refine refuse_bind ?_
  cases slot.mode with
  | retry record matching => exact refuse_bind (refuse_bind (pure _))
  | fresh plan => exact commitTracked slot plan

end Blind

/-! ### The nonce of a stage -/

/-- Nothing that is done to a stage depends on its nonce. -/
theorem writeSlot_nonce (slot : StageSlot) (nonce : UInt64) (data : List UInt8) (w : World7) :
    (writeSlot { slot with nonce } data).run w = match (writeSlot slot data).run w with
      | (.ok next, w') => (.ok { next with nonce }, w')
      | (.error fault, w') => (.error fault, w') := by
  have hruns : ({ slot with nonce } : StageSlot).runs = slot.runs := rfl
  have hcommand : ({ slot with nonce } : StageSlot).command = slot.command := rfl
  have hnext : ∀ view sector, ({ slot with nonce } : StageSlot).next view sector data
      = { slot.next view sector data with nonce } := by
    intro view sector
    unfold StageSlot.next
    cases slot.mode <;> rfl
  simp only [writeSlot_run, hruns, hcommand, hnext]
  by_cases hdata : slot.Misfits data
  · rw [if_pos hdata, if_pos hdata]
  · rw [if_neg hdata, if_neg hdata]
    cases (runSectors slot.runs)[slot.written.toNat / 512]? with
    | none => rfl
    | some sector =>
      dsimp only
      rcases (Device.execute (slot.command sector data)).run w.disk with ⟨_ | _, d⟩
      · cases slot.mode <;> rfl
      · rfl

/-- The ways a sector of the right length can go. -/
inductive Wrote (slot : StageSlot) (data : List UInt8) (w : World7) :
    Except WriteFault StageSlot × World7 → Prop where
  | missing : Wrote slot data w (.error (.released .corrupt), w)
  | released (e : Error) (d : Disk) : Wrote slot data w (.error (.released e), { w with disk := d })
  | fenced (d : Disk) :
      Wrote slot data w (.error .fenced, { w with volume := w.volume.fenceClear, disk := d })
  | done (next : StageSlot) (d : Disk)
      (written : next.written = slot.written + UInt32.ofNat data.length)
      (same : Walks next slot) : Wrote slot data w (.ok next, { w with disk := d })

theorem writeSlot_wrote {slot : StageSlot} {data : List UInt8}
    (hdata : ¬ slot.Misfits data) (w : World7) :
    Wrote slot data w ((writeSlot slot data).run w) := by
  rw [writeSlot_run, if_neg hdata]
  split
  · exact .missing
  · rcases (Device.execute _).run w.disk with ⟨e | _, d⟩
    · dsimp only
      split
      · exact .fenced d
      · exact .released e d
    · refine .done _ d ?_ (next_walks _ _ _ _)
      unfold StageSlot.next
      split <;> rfl

theorem finishTrackedSlot_nonce (slot : StageSlot) (nonce : UInt64) :
    finishTrackedSlot { slot with nonce } = finishTrackedSlot slot := rfl

/-! ### The owner while the stage is open -/

section
variable {w : World7} {c : StageCounters} {i : Fin 2} {slot : StageSlot} {nonce : UInt64}

/-- The token of the stage. -/
def StageCounters.token (c : StageCounters) (i : Fin 2) (nonce : UInt64) : Stage7 :=
  { owner := c.stageOwner, slot := UInt8.ofNat i.val, nonce }

/-- The owner `w` with the stage open under the counters `c`. -/
def World7.staging (w : World7) (c : StageCounters) (i : Fin 2) (nonce : UInt64)
    (slot : StageSlot) : World7 := (w.counted c).setStage i (some { slot with nonce })

theorem setStage_closed (hi : w.volume.stages[i] = none) : w.setStage i none = w := by
  have hset : w.volume.stages.setAt i none = w.volume.stages := by
    rw [← hi]
    exact Vector.setAt_getElem w.volume.stages i
  show ({ w with volume := { w.volume with stages := w.volume.stages.setAt i none } } : World7) = w
  rw [hset]

theorem staging_close (hi : w.volume.stages[i] = none) :
    (w.staging c i nonce slot).setStage i none = w.counted c := by
  rw [World7.staging, setStage_setStage]
  exact setStage_closed (w := w.counted c) hi

theorem staging_index (w : World7) (c : StageCounters) (i : Fin 2) (nonce : UInt64)
    (slot : StageSlot) : (w.staging c i nonce slot).volume.stageIndex (c.token i nonce)
      = .ok (i, { slot with nonce }) := by
  have hslot : (UInt8.ofNat i.val).toNat = i.val :=
    UInt8.toNat_ofNat_of_lt' (by show _ < 2 ^ 8; omega)
  exact stageIndex_eq_ok.mpr ⟨hslot, Vector.setAt_self _ _ _, rfl, rfl⟩

theorem stageWrite_staging (c : StageCounters) (nonce : UInt64)
    (hw : w.volume.fenced = false) (hi : w.volume.stages[i] = none)
    {data : List UInt8} (hdata : ¬ slot.Misfits data) :
    (stageWrite (c.token i nonce) data).run (w.staging c i nonce slot)
      = match (writeSlot slot data).run w with
        | (.ok next, w') => (.ok (next.length - next.written), w'.staging c i nonce next)
        | (.error fault, w') => (.error fault.error, w'.counted c) := by
  have hready : (w.staging c i nonce slot).volume.ready = .ok () := Volume7.ready_eq_ok.mpr hw
  rw [stageWrite, run_getVolume_bind, hready, lift_ok_bind, staging_index, lift_ok_bind]
  dsimp only
  rw [run_setStage_bind, staging_close hi, run_bind, run_attempt,
    Blind.writeSlot _ _ c w, writeSlot_nonce]
  have hwrote := writeSlot_wrote hdata w
  generalize (writeSlot slot data).run w = r at hwrote
  cases hwrote <;> rfl

/-- Supply all sectors of an open stage. -/
def stageSectors (stage : Stage7) : List (List UInt8) → Op Unit
  | [] => pure ()
  | sector :: rest => do
    let _ ← stageWrite stage sector
    stageSectors stage rest

/-- Sector by sector, the open stage and the borrowed bytes move alike. -/
theorem stageSectors_staging (c : StageCounters) (nonce : UInt64) (k : Nat) {rest : List UInt8}
    (hk : k = sectorsFor rest.length)
    (hw : w.volume.fenced = false) (hi : w.volume.stages[i] = none)
    (hrest : slot.written.toNat + rest.length = slot.length.toNat) :
    (∃ next d, (writeSectors slot (chunks 512 k rest)).run w = (.ok next, { w with disk := d })
        ∧ (stageSectors (c.token i nonce) (chunks 512 k rest)).run (w.staging c i nonce slot)
          = (.ok (), World7.staging { w with disk := d } c i nonce next)
        ∧ next.complete = true ∧ Walks next slot)
      ∨ ∃ e w', (writeSectors slot (chunks 512 k rest)).run w = (.error e, w')
        ∧ (stageSectors (c.token i nonce) (chunks 512 k rest)).run (w.staging c i nonce slot)
          = (.error e, w'.counted c) := by
  induction k generalizing w slot rest with
  | zero =>
    have hnil : rest.length = 0 := by
      unfold sectorsFor at hk
      omega
    refine Or.inl ⟨slot, w.disk, rfl, rfl, ?_, .refl slot⟩
    rw [StageSlot.complete, decide_eq_true_iff, ← UInt32.toNat_inj]
    omega
  | succ k ih =>
    obtain ⟨hpos, hleft⟩ := sectors_succ hk
    have hdata := chunk_length hpos hrest
    have hstaged := stageWrite_staging c nonce hw hi hdata
    have hwrote := writeSlot_wrote hdata w
    rw [chunks, writeSectors, List.foldlM_cons, stageSectors, run_bind, run_bind, run_mapError]
    generalize (writeSlot slot (rest.take 512)).run w = r at hwrote hstaged
    rw [hstaged]
    cases hwrote with
    | missing | released e d | fenced d => exact Or.inr ⟨_, _, rfl, rfl⟩
    | done next d written same =>
      have hnext : next.written.toNat + (rest.drop 512).length = next.length.toNat := by
        have hlt := slot.length.toNat_lt
        rw [same.length, written, UInt32.toNat_add, List.length_take, List.length_drop,
          UInt32.toNat_ofNat_of_lt' (by show _ < 2 ^ 32; omega), Nat.mod_eq_of_lt (by omega)]
        omega
      rcases ih (w := { w with disk := d }) hleft hw hi hnext with
        ⟨last, d', hrun, hstage, hcomplete, hsame⟩ | ⟨e, w', hrun, hstage⟩
      · exact Or.inl ⟨last, d', hrun, hstage, hcomplete, hsame.trans same⟩
      · exact Or.inr ⟨e, w', hrun, hstage⟩

theorem finishTracked_staging (hw : w.volume.fenced = false) (hi : w.volume.stages[i] = none)
    (hkind : slot.kind = .tracked) (hcomplete : slot.complete = true) :
    (finishTracked (c.token i nonce)).run (w.staging c i nonce slot)
      = (((finishTrackedSlot slot).run w).1, ((finishTrackedSlot slot).run w).2.counted c) := by
  have hready : (w.staging c i nonce slot).volume.ready = .ok () := Volume7.ready_eq_ok.mpr hw
  rw [finishTracked, run_getVolume_bind, hready, lift_ok_bind,
    takeFinishable_ok (staging_index w c i nonce slot) ⟨hkind, hcomplete⟩, staging_close hi,
    finishTrackedSlot_nonce]
  exact Blind.finishTrackedSlot slot c w

end

/-! ### Opening -/

/-- A slot for one more stage, and counters to open it under. -/
structure CanStage (w : World7) : Prop where
  slot : ∃ i : Fin 2, w.volume.stages[i] = none
  nonce : w.volume.stageNonce.toNat + 1 < 2 ^ 64
  owner : w.volume.stageOwner ≠ 0 ∨ w.nextOwner ≠ 0

/-- A fenced owner refuses every preflight. -/
theorem openSlot_fenced {v : Volume7} (hv : v.fenced = true) (identity : WriteIdentity7)
    (expectedVersion : UInt64) (length : UInt32) (kind : Stage7Kind) :
    openSlot v identity expectedVersion length kind = .error .uncertain := by
  rw [openSlot, Volume7.ready, reject_of hv, error_bind]

/-- A stage starts with nothing written. -/
theorem openSlot_new {v : Volume7} {identity : WriteIdentity7} {expectedVersion : UInt64}
    {length : UInt32} {kind : Stage7Kind} {slot : StageSlot}
    (h : openSlot v identity expectedVersion length kind = .ok slot) :
    ∃ mode, slot = openedSlot identity expectedVersion length kind mode := by
  obtain ⟨-, -, -, ⟨plan, -, hslot⟩ | ⟨record, -, hslot⟩⟩ := openSlot_eq_ok h
  · exact ⟨_, hslot⟩
  · exact ⟨_, hslot⟩

/-- With a slot and counters left, a stage is opened when its preflight passes. -/
theorem openStage_staging {w : World7} (h : CanStage w) : ∃ c i nonce,
    w.volume.stages[i] = none ∧ ∀ identity expectedVersion length kind,
      (openStage identity expectedVersion length kind).run w
        = match openSlot w.volume identity expectedVersion length kind with
          | .ok slot => (.ok (StageCounters.token c i nonce), w.staging c i nonce slot)
          | .error e => (.error e, w) := by
  have hnonce : checkedAdd w.volume.stageNonce 1 = some (w.volume.stageNonce + 1) := by
    rw [checkedAdd_eq_some, UInt64.toNat_add]
    exact (Nat.mod_eq_of_lt h.nonce).symm
  obtain ⟨i, hfind⟩ :
      ∃ i, ((List.finRange 2).find? fun i => w.volume.stages[i].isNone) = some i := by
    obtain ⟨i, hi⟩ := h.slot
    rw [← Option.isSome_iff_exists, List.find?_isSome]
    exact ⟨i, List.mem_finRange i, by rw [hi]; rfl⟩
  have hi : w.volume.stages[i] = none := by
    have hp := List.find?_some hfind
    exact Option.isNone_iff_eq_none.mp hp
  obtain ⟨owner, nextOwner, took⟩ : ∃ owner nextOwner, TakesOwner w owner nextOwner := by
    by_cases hzero : w.volume.stageOwner = 0
    · exact ⟨_, _, .taken hzero (h.owner.resolve_left (not_not.mpr hzero)) rfl rfl⟩
    · exact ⟨_, _, .own hzero rfl rfl⟩
  refine ⟨⟨w.volume.stageNonce + 1, owner, nextOwner⟩, i, w.volume.stageNonce + 1, hi, ?_⟩
  intro identity expectedVersion length kind
  by_cases hw : w.volume.fenced = true
  · rw [openSlot_fenced hw]
    exact run_ready_of_fenced hw _
  · rw [Bool.not_eq_true] at hw
    cases hslot : openSlot w.volume identity expectedVersion length kind with
    | ok slot => exact openStage_eq hw hfind hnonce hslot took
    | error e =>
      have hready : w.volume.ready = .ok () := Volume7.ready_eq_ok.mpr hw
      rw [openStage, run_getVolume_bind, hready, lift_ok_bind, hfind, orRefuse_some,
        lift_ok_bind, hnonce, orRefuse_some, lift_ok_bind, hslot]
      rfl

/-! ### Tracked replacement -/

/-- Replace one file through a stage. -/
def streamTracked (identity : WriteIdentity7) (expectedVersion : UInt64) (bytes : List UInt8) :
    Op Record7 := do
  let stage ← openStage identity expectedVersion (UInt32.ofNat bytes.length) .tracked
  stageSectors stage (chunks 512 (sectorsFor bytes.length) bytes)
  finishTracked stage

theorem replaceTracked_run (w : World7) (identity : WriteIdentity7) (expectedVersion : UInt64)
    {bytes : List UInt8} (hsize : bytes.length < 2 ^ 32) :
    (replaceTracked identity expectedVersion bytes).run w
      = match openSlot w.volume identity expectedVersion (UInt32.ofNat bytes.length) .tracked with
        | .ok slot => (writeSectors slot (chunks 512 (sectorsFor bytes.length) bytes)
            >>= finishTrackedSlot).run w
        | .error e => (.error e, w) := by
  by_cases hw : w.volume.fenced = true
  · rw [openSlot_fenced hw]
    exact run_ready_of_fenced hw _
  · have hready : w.volume.ready = .ok () := Volume7.ready_eq_ok.mpr (Bool.not_eq_true _ ▸ hw)
    rw [replaceTracked, run_getVolume_bind, hready, lift_ok_bind,
      run_refuse_bind_of_not (not_le.mpr hsize)]
    cases openSlot w.volume identity expectedVersion (UInt32.ofNat bytes.length) .tracked <;> rfl

/-- The streamed replacement answers as the borrowed one and leaves the same owner and disk, but
for the counters. -/
theorem streamTracked_run {w : World7} (h : CanStage w) (identity : WriteIdentity7)
    (expectedVersion : UInt64) {bytes : List UInt8} (hsize : bytes.length < 2 ^ 32) :
    ∃ c, (streamTracked identity expectedVersion bytes).run w
      = (((replaceTracked identity expectedVersion bytes).run w).1,
        ((replaceTracked identity expectedVersion bytes).run w).2.counted c) := by
  obtain ⟨c, i, nonce, hi, hopen⟩ := openStage_staging h
  rw [replaceTracked_run w identity expectedVersion hsize, streamTracked, run_bind, hopen]
  cases hslot : openSlot w.volume identity expectedVersion (UInt32.ofNat bytes.length) .tracked with
  | error e => exact ⟨w.counters, rfl⟩
  | ok slot =>
    refine ⟨c, ?_⟩
    have hw : w.volume.fenced = false := by
      by_contra hw
      rw [openSlot_fenced (by simpa using hw)] at hslot
      cases hslot
    obtain ⟨mode, hmode⟩ := openSlot_new hslot
    have hlength : slot.written.toNat + bytes.length = slot.length.toNat := by
      rw [hmode]
      show 0 + bytes.length = (UInt32.ofNat bytes.length).toNat
      rw [UInt32.toNat_ofNat_of_lt' hsize, Nat.zero_add]
    dsimp only
    rw [run_bind, run_bind]
    rcases stageSectors_staging c nonce (sectorsFor bytes.length) rfl hw hi
      hlength with ⟨next, d, hwrite, hstage, hcomplete, hsame⟩ | ⟨e, w', hwrite, hstage⟩
    · rw [hwrite, hstage]
      exact finishTracked_staging (w := { w with disk := d }) hw hi
        (hsame.kind.trans (by rw [hmode]; rfl)) hcomplete
    · rw [hwrite, hstage]

end RusticOs.Fs
