import RusticOs.Proofs.Lending7

/-!
# `RusticOs.Proofs.Admission7`: durable admission, execution and cancellation

`LendSpec x w staged request` is what every call that lends the owner is proved to satisfy.
Like a synchronous mutation it has at most one state `after` to publish, and that state is
the old store with `request` applied. The guard it returns is `Lent`, with nothing
outstanding; a refusal leaves the owner's contents alone.

* `prepareAdmission_spec`, `finishAdmission_spec`: an admission retains exactly the bytes
  supplied, as the payload its own publication writes or as a stage has written them.
* `prepareExecute_spec`: the file takes over the retained bytes.
* `prepareCancellation_spec`: only the record changes.
-/

set_option autoImplicit false

namespace RusticOs.Fs

open RusticOs.Lib

/-! ### Specifications of lending calls -/

/-- The ways a call that lends the owner can end. -/
inductive LendRan (before : Contents7) (after : Option Contents7) (staged : Fin 2 → List UInt8)
    (d : Disk) : Except Error PollPublication7 × World7 → Prop where
  | lent {p : PollPublication7} {w : World7} (lent : Lent before after staged p)
      (disk : p.world.disk = d)
      (phase : p.phase = .preparing ∨ p.phase = .retrying ∨ p.phase = .committed) :
      LendRan before after staged d (.ok p, w)
  | refused {e : Error} {w : World7} (settles : Settles before none staged w)
      (publishes : after = none) : LendRan before after staged d (.error e, w)

/-- What a lending call does on every device that holds what the owner's disk holds. The
rest of a call that has read its world mentions the device. -/
def LendSpec (x : Disk → Op PollPublication7) (w : World7) (staged : Fin 2 → List UInt8)
    (request : Request) : Prop :=
  ∃ after : Option Contents7, (∀ c, after = some c → Publication request w.contents c)
    ∧ ∀ d, SameDisk d w → LendRan w.contents after staged d ((x d).run { w with disk := d })

section
variable {β : Type} {w w' : World7} {staged : Fin 2 → List UInt8} {request : Request}

theorem LendSpec.of_world {v : World7} {x y : Disk → Op PollPublication7}
    (hmedium : v.disk.medium = w.disk.medium) (hcontents : v.contents = w.contents)
    (h : ∀ d, (x d).run { w with disk := d } = (y d).run { v with disk := d })
    (hy : LendSpec y v staged request) : LendSpec x w staged request := by
  obtain ⟨after, hafter, hruns⟩ := hy
  rw [hcontents] at hafter hruns
  refine ⟨after, hafter, fun d hd => ?_⟩
  rw [h]
  exact hruns d ⟨hd.medium.trans hmedium.symm, hd.idle⟩

theorem LendSpec.of_run {x y : Disk → Op PollPublication7}
    (h : ∀ d, (x d).run { w with disk := d } = (y d).run { w with disk := d })
    (hy : LendSpec y w staged request) : LendSpec x w staged request :=
  .of_world rfl rfl h hy

theorem LendSpec.fail (h : Ready w staged) (e : Error) :
    LendSpec (fun _ => Fallible.fail e) w staged request :=
  ⟨none, nofun, fun _ hd =>
    .refused (.kept (h.onDisk hd) hd.contents) rfl⟩

theorem LendSpec.lift (h : Ready w staged) {r : Except Error β}
    {f : Disk → β → Op PollPublication7}
    (hf : ∀ b, r = .ok b → LendSpec (fun d => f d b) w staged request) :
    LendSpec (fun d => Fallible.lift r >>= f d) w staged request := by
  cases r with
  | error e => exact .fail h e
  | ok b => exact hf b rfl

theorem LendSpec.refuse (h : Ready w staged) {c : Prop} [Decidable c] {e : Error}
    {f : Disk → Unit → Op PollPublication7}
    (hf : ¬ c → LendSpec (fun d => f d ()) w staged request) :
    LendSpec (fun d => Fallible.refuse c e >>= f d) w staged request := by
  by_cases hc : c
  · simp only [Fallible.refuse_bind_of hc]
    exact .fail h e
  · simp only [Fallible.refuse_bind_of_not hc]
    exact hf hc

theorem LendSpec.getVolume {f : Volume7 → Op PollPublication7}
    (hf : LendSpec (fun _ => f w.volume) w staged request) :
    LendSpec (fun _ => getVolume >>= f) w staged request :=
  .of_run (y := fun _ => f w.volume) (fun _ => rfl) hf

theorem LendSpec.get {f : World7 → Op PollPublication7}
    (hf : LendSpec (fun d => f { w with disk := d }) w staged request) :
    LendSpec (fun _ => Fallible.get >>= f) w staged request :=
  .of_run (y := fun d => f { w with disk := d }) (fun _ => rfl) hf

theorem LendSpec.validate (h : Ready w staged) {c : Candidate7} (hfits : c.Fits w.volume.map)
    {f : Unit → Op PollPublication7}
    (hf : (c.apply w.volume).Publishable →
      LendSpec (fun _ => f ()) w staged request) :
    LendSpec (fun _ => validateCandidate c >>= f) w staged request := by
  cases hr : candidateVerdict c w.volume with
  | error e =>
    refine .of_run (fun d => ?_) (.fail h e)
    rw [Fallible.run_bind, validateCandidate_run (w := { w with disk := d }) hfits, hr]
    rfl
  | ok u =>
    refine .of_run (fun d => ?_) (hf (candidateVerdict_eq_ok hr))
    rw [Fallible.run_bind, validateCandidate_run (w := { w with disk := d }) hfits, hr]

/-- A publication begun on one device is begun on every other with the same medium. -/
theorem Begun.onDisk {c : Candidate7} {bytes : Option (List UInt8)} {flushes : Bool}
    (h : Begun ⟨w, c, bytes, flushes⟩ staged) {d : Disk} (hd : SameDisk d w) :
    Begun ⟨{ w with disk := d }, c, bytes, flushes⟩ staged
      ∧ (⟨{ w with disk := d }, c, bytes, flushes⟩ : Origin).after
        = (⟨w, c, bytes, flushes⟩ : Origin).after := by
  refine ⟨⟨h.ready.onDisk hd, ⟨h.sound.publishable, h.sound.fits, h.sound.flushes⟩, ?_, h.takes,
    h.apart⟩, ?_⟩
  · show AllStored (applyWrites d.medium.view _) _ _
    rw [hd.medium]
    exact h.stored
  · show publishedState _ _ _ _ (applyWrites d.medium.view _) = _
    rw [hd.medium]
    rfl

/-- Lending the owner to a publication. `guard` is how the call builds it. -/
theorem LendSpec.begin {c : Candidate7} (bytes : Option (List UInt8)) (flushes : Bool)
    {guard : World7 → PollPublication7}
    (h : Begun ⟨w, c, bytes, flushes⟩ staged)
    (hpublication : Publication request w.contents (⟨w, c, bytes, flushes⟩ : Origin).after)
    (hguard : ∀ d, SameDisk d w →
      Resting ⟨{ w with disk := d }, c, bytes, flushes⟩ (guard { w with disk := d }) 0)
    (hfresh : ∀ v : World7, (guard v).world.disk = v.disk ∧ (guard v).phase = .preparing) :
    LendSpec (fun _ => do let w ← Fallible.get; pure (guard w)) w staged request := by
  refine ⟨_, fun c hc => Option.some.inj hc ▸ hpublication, fun d hd => ?_⟩
  obtain ⟨hbegun, hafter⟩ := h.onDisk hd
  exact .lent (.resting hbegun hd.contents (congrArg some hafter.symm) (hguard d hd))
    (hfresh _).1 (Or.inl (hfresh _).2)

/-- Lending the owner to a retry check. -/
theorem LendSpec.check {record : Record7} {bytes : List UInt8} (h : Ready w staged)
    (hsound : (⟨w, record, bytes⟩ : Check).Sound) :
    LendSpec (fun _ => do let w ← Fallible.get; pure (.retry w record bytes)) w staged request := by
  refine ⟨none, nofun, fun d hd => ?_⟩
  refine .lent (.probing (k := ⟨{ w with disk := d }, record, bytes⟩) (h.onDisk hd)
    ⟨hsound.length, hsound.sectors, ?_, hsound.retained⟩ hd.contents rfl (retry_rests hd.idle)) rfl
    (Or.inr (Or.inl rfl))
  show Stored d.medium.view _ _ _
  rw [hd.medium]
  exact hsound.stored

/-- Answering from a retained record. -/
theorem LendSpec.replay (h : Ready w staged) {record : Record7} (hr : w.volume.Retains record) :
    LendSpec (fun d => pure (.replay { w with disk := d } record)) w staged request :=
  ⟨none, nofun, fun _ hd =>
    .lent (.committed rfl rfl (h.onDisk hd) hd.contents fun _ ho => Option.some.inj ho ▸ hr) rfl
      (Or.inr (Or.inr rfl))⟩

end

/-! ### The payload a publication writes -/

section
variable {view : Nat → Block} {runs : List Extent} {bytes : List UInt8}

/-- The payload writes of a publication. -/
def payloadWrites (runs : List Extent) (bytes : List UInt8) : List (Nat × Block) :=
  (runSectors runs).mapIdx fun i s =>
    (payloadSector + s, payloadBlock (PollPublication7.payloadSlice bytes i))

theorem payloadWrites_getElem? {k s : Nat} (hs : (runSectors runs)[k]? = some s) :
    (payloadWrites runs bytes)[k]?
      = some (payloadSector + s, payloadBlock (PollPublication7.payloadSlice bytes k)) := by
  rw [payloadWrites, List.getElem?_mapIdx, hs]
  rfl

/-- Once its sectors are written a payload reads back as the bytes. -/
theorem payload_payloadWrites (hnodup : (runSectors runs).Nodup)
    (hlength : (runSectors runs).length = sectorsFor bytes.length) :
    payload (applyWrites view (payloadWrites runs bytes)) runs bytes.length = bytes := by
  -- after `k` sectors the first `512 * k` bytes are there
  have hstep : ∀ k ≤ (runSectors runs).length,
      payload (applyWrites view ((payloadWrites runs bytes).take k)) runs
        (min (512 * k) bytes.length) = bytes.take (512 * k) := by
    intro k
    induction k with
    | zero =>
      intro _
      rw [payload_eq]
      simp
    | succ k ih =>
      intro hk
      have hs := List.getElem?_eq_getElem (l := runSectors runs) (i := k) (by omega)
      have hbelow : 512 * k < bytes.length := by
        rw [hlength] at hk
        unfold sectorsFor at hk
        omega
      have hslice : (PollPublication7.payloadSlice bytes k).length
          = min 512 (bytes.length - 512 * k) := length_slice _ _ _
      have hprev := ih (by omega)
      rw [Nat.min_eq_left (by omega)] at hprev
      rw [List.take_add_one, payloadWrites_getElem? hs, Option.toList_some, applyWrites_append,
        applyWrites_cons, applyWrites_nil,
        show min (512 * (k + 1)) bytes.length
          = 512 * k + (PollPublication7.payloadSlice bytes k).length by omega,
        payload_write_next hnodup hs (by omega), hprev, Nat.mul_succ, List.take_add]
      rfl
  have hend := hstep (runSectors runs).length le_rfl
  have hlen : (payloadWrites runs bytes).length = (runSectors runs).length := List.length_mapIdx
  have hcover : bytes.length ≤ 512 * (runSectors runs).length := by
    rw [hlength]
    exact length_le_sectors _
  rw [List.take_of_length_le (le_of_eq hlen), Nat.min_eq_right hcover,
    List.take_of_length_le hcover] at hend
  exact hend

end

theorem writesOf_extra_some (w : World7) (c : Candidate7) (bytes : List UInt8) :
    writesOf (⟨w, c, some bytes, true⟩ : Origin).extra = payloadWrites c.added.runs bytes := by
  have hflush : writesOf [Command.flush (β := Block)] = [] := rfl
  have hwrites : ∀ (l : List Nat) (f : Nat → Nat → Nat × Block),
      writesOf (l.mapIdx fun i s => Command.write (f i s).1 (f i s).2) = l.mapIdx f := by
    intro l
    induction l with
    | nil => exact fun _ => rfl
    | cons s l ih =>
      intro f
      rw [List.mapIdx_cons, List.mapIdx_cons, ← ih fun i s => f (i + 1) s]
      rfl
  show writesOf (_ ++ [Command.flush]) = _
  rw [writesOf_append, hflush, List.append_nil]
  exact hwrites _ fun i s =>
    (payloadSector + s, payloadBlock (PollPublication7.payloadSlice bytes i))

theorem writesOf_extra_none (w : World7) (c : Candidate7) (flushes : Bool) :
    writesOf (⟨w, c, none, flushes⟩ : Origin).extra = [] := by
  cases flushes <;> rfl

/-! ### Admission -/

/-- Publishable structures whose payload is stored make a publication that can begin. -/
theorem Begun.of_publishable {w : World7} {staged : Fin 2 → List UInt8} {c : Candidate7}
    {bytes : Option (List UInt8)} {flushes : Bool} (h : Ready w staged)
    (hfits : c.Fits w.volume.map) (hp : (c.apply w.volume).Publishable)
    (hflushes : ∀ b, bytes = some b → flushes = true) (htakes : c.Takes w.volume)
    (hstored : AllStored (applyWrites w.disk.medium.view
      (writesOf (⟨w, c, bytes, flushes⟩ : Origin).extra)) (c.nodes w.volume.nodes)
      (w.volume.records.setAt c.recordSlot (some c.record)))
    (hapart : ∀ (j : Fin 2) (other : StageSlot), w.volume.stages[j] = some other →
      (runSectors c.added.runs).Disjoint (runSectors other.freshRuns)) :
    Begun ⟨w, c, bytes, flushes⟩ staged :=
  ⟨h, ⟨hp, hfits, hflushes⟩, hstored, htakes, hapart⟩

theorem admittedRecord_runs {map : SpaceMap} {plan : PayloadPlan} {length : UInt32}
    (h : PlanFor map plan length) (identity : WriteIdentity7) (expectedVersion number : UInt64)
    (crc32 : UInt32) :
    (admittedRecord identity expectedVersion number length crc32 plan).runs = plan.runs := by
  show (if plan.used = 0 then Vector.replicate 8 Extent.zero else plan.extents).toList.take
    (UInt8.ofNat plan.used).toNat = plan.extents.toList.take plan.used
  rw [h.toNat_used]
  split
  · rename_i hzero
    rw [hzero, List.take_zero, List.take_zero]
  · rfl

section
variable {w : World7} {staged : Fin 2 → List UInt8} {identity : WriteIdentity7}
  {expectedVersion : UInt64}

/-- Retaining a payload that is stored once `ws` is written over free sectors. -/
theorem admission_spec (h : Ready w staged) {plan : PayloadPlan} {length payloadCrc32 : UInt32}
    (bytes : List UInt8) (source : Option (List UInt8)) (flushes : Bool)
    (ws : List (Nat × Block)) {guard : Candidate7 → World7 → PollPublication7}
    (hplan : PlanFor w.volume.map plan length)
    (hapart : ∀ (j : Fin 2) (other : StageSlot), w.volume.stages[j] = some other →
      (runSectors plan.runs).Disjoint (runSectors other.freshRuns))
    (hfirst : w.volume.findRetry identity = none) (hlength : length.toNat = bytes.length)
    (hcrc : payloadCrc32 = crc bytes)
    (hws : ∀ c : Candidate7, c.added = plan →
      writesOf (⟨w, c, source, flushes⟩ : Origin).extra = ws)
    (hpayload : payload (applyWrites w.disk.medium.view ws) plan.runs bytes.length = bytes)
    (hflushes : ∀ b, source = some b → flushes = true)
    (hguard : ∀ c d, SameDisk d w →
      Resting ⟨{ w with disk := d }, c, source, flushes⟩ (guard c { w with disk := d }) 0)
    (hfresh : ∀ c (v : World7), (guard c v).world.disk = v.disk ∧ (guard c v).phase = .preparing) :
    LendSpec (fun _ => do
      let c ← admissionCandidate identity expectedVersion length payloadCrc32 plan
      let w ← Fallible.get
      pure (guard c w)) w staged (.accept identity expectedVersion bytes) := by
  unfold admissionCandidate
  simp only [bind_assoc, pure_bind]
  refine .getVolume (.lift h fun target htarget => ?_)
  obtain ⟨slot, number⟩ := target
  obtain ⟨index, ht, rfl⟩ := admissionTarget_spec htarget
  have hruns := admittedRecord_runs hplan identity expectedVersion (w.volume.header.sequence + 1)
    payloadCrc32
  have hfits : ({ Candidate7.empty slot (admittedRecord identity expectedVersion
      (w.volume.header.sequence + 1) length payloadCrc32 plan) with added := plan } :
        Candidate7).Fits w.volume.map :=
    ⟨fun s hs => ⟨hplan.lt hs, hplan.free s hs⟩, nofun⟩
  refine .validate h hfits fun hp => ?_
  have hextra := hws { Candidate7.empty slot (admittedRecord identity expectedVersion
      (w.volume.header.sequence + 1) length payloadCrc32 plan) with added := plan } rfl
  -- allocated sectors keep what they hold
  have hkept : ∀ s, Bitmap.get w.volume.map s = true →
      applyWrites w.disk.medium.view ws (payloadSector + s)
        = w.disk.medium.view (payloadSector + s) := by
    intro s hs
    refine applyWrites_of_not_mem fun write hwrite hsector => ?_
    rw [← hextra] at hwrite
    obtain ⟨t, hmem, hwt⟩ := Origin.mem_extra hwrite
    have hst : s = t := by omega
    subst hst
    rw [hplan.free s hmem] at hs
    cases hs
  have hbytes : payload (applyWrites w.disk.medium.view ws) (admittedRecord identity
      expectedVersion (w.volume.header.sequence + 1) length payloadCrc32 plan).runs length.toNat
        = bytes := by
    rw [hruns, hlength]
    exact hpayload
  have hstored : Stored (applyWrites w.disk.medium.view ws) (admittedRecord identity
      expectedVersion (w.volume.header.sequence + 1) length payloadCrc32 plan).runs length
        payloadCrc32 := by
    refine ⟨?_, by rw [hbytes, hcrc]⟩
    rw [hruns, hplan.length_sectors]
    exact length_le_sectors _
  have hvalid := h.durable.recovers.valid
  refine .begin source flushes (Begun.of_publishable h hfits hp hflushes
    (.free ht.empty ht.room) ?_ hapart) ⟨hp.room, ?_⟩ (hguard _) (hfresh _)
  · rw [hextra]
    exact (h.durable.recovers.stored.congr hvalid hkept).setRecord hstored
  · show w.contents.store.Applies _ (publishedState w.volume.header w.volume.nodes
      (w.volume.records.setAt slot _) _ (applyWrites w.disk.medium.view _)).store
    rw [hextra, store_publishedState]
    have hsame := congrArg Contents7.store
      (contents_congr (g := w.volume.toGeneration7) hvalid hkept)
    have hentries : entriesOf (applyWrites w.disk.medium.view ws) w.volume.nodes
        = w.contents.store.entries := congrArg Store.entries hsame
    have houtcomes : outcomesOf (applyWrites w.disk.medium.view ws) w.volume.records
        = w.contents.store.outcomes := congrArg Store.outcomes hsame
    have hrecord : (admittedRecord identity expectedVersion (w.volume.header.sequence + 1) length
        payloadCrc32 plan).outcome (payload (applyWrites w.disk.medium.view ws) (admittedRecord
          identity expectedVersion (w.volume.header.sequence + 1) length payloadCrc32 plan).runs
          length.toNat)
        = .admitted identity expectedVersion (w.volume.header.sequence + 1) bytes := by
      rw [hbytes]
      rfl
    have hinsert := outcomesOf_insert (applyWrites w.disk.medium.view ws) hvalid hp.valid ht.empty
    rw [houtcomes] at hinsert
    have hfile : w.contents.store.entries identity.object
        = some (w.volume.nodes[index].entry
          (fileBytes w.disk.medium.view w.volume.nodes index)) := by
      rw [← ht.id]
      exact entriesOf_slot w.disk.medium.view h.valid ht.live
    have hnone : w.contents.store.outcomes identity.scope = none :=
      outcomesOf_eq_none _ fun i r hi => findRetry_none hfirst hi
    have happlies : w.contents.store.Applies (.accept identity expectedVersion bytes) _ :=
      .accept ⟨hfile, ht.kind, ht.version⟩ ht.epoch hnone
    have hstore := congrArg₂ (Store.mk (w.volume.header.sequence + 1) w.volume.header.epoch
      w.volume.header.next) hentries (hinsert.trans (congrArg _ (congrArg some hrecord)))
    exact (congrArg (Store.Applies _ _) hstore).mpr happlies

/-- A retained record whose snapshot can be compared with bytes of its length. -/
theorem check_sound (h : Ready w staged) {record : Record7} {bytes : List UInt8} {i : Fin 8}
    (hi : w.volume.records[i] = some record) (hlength : record.length.toNat = bytes.length) :
    (⟨w, record, bytes⟩ : Check).Sound where
  length := hlength
  sectors := by
    rw [(h.valid.record_shape hi).length_sectors, hlength]
  stored := h.durable.recovers.stored.record i record hi
  retained := ⟨i, hi⟩

theorem prepareAdmission_spec (h : Ready w staged) (identity : WriteIdentity7)
    (expectedVersion : UInt64) (bytes : List UInt8) :
    LendSpec (fun _ => prepareAdmission identity expectedVersion bytes) w staged
      (.accept identity expectedVersion bytes) := by
  unfold prepareAdmission
  refine .getVolume (.lift h fun _ _ => .refuse h fun hsize =>
    .lift h fun _ _ => .refuse h fun _ => .lift h fun opening hopening => ?_)
  have hnat : (UInt32.ofNat bytes.length).toNat = bytes.length :=
    UInt32.toNat_ofNat_of_lt' (by
      unfold maxFileBytes at hsize
      show _ < 2 ^ 32
      omega)
  have hspec := openAdmission_spec hopening
  cases opening with
  | retry record =>
    obtain ⟨hretry, hlength, -, -⟩ := hspec
    obtain ⟨i, hi, -⟩ := findRetry_some hretry
    exact .check h (check_sound h hi (by rw [hlength, hnat]))
  | fresh plan =>
    obtain ⟨hplanned, hfirst, -⟩ := hspec
    obtain ⟨hplan, hapart⟩ := planned_apart h hplanned
    refine admission_spec h bytes (some bytes) true (payloadWrites plan.runs bytes) hplan hapart
      hfirst hnat rfl (fun c hc => by rw [writesOf_extra_some, hc])
      (payload_payloadWrites hplan.nodup (by rw [hplan.length_sectors, hnat]))
      (fun _ _ => rfl) (fun c d hd => publish_resting hd.idle bytes) fun c v => ⟨rfl, rfl⟩

theorem finishAdmission_spec (h : Ready w staged) (stage : Stage7) {request : Request}
    (hrequest : ∀ r, finishRequest w.volume staged stage .accept = some r → r = request) :
    LendSpec (fun _ => finishAdmission stage) w staged request := by
  unfold finishAdmission takeFinishable
  refine .getVolume (.lift h fun _ _ => ?_)
  simp only [bind_assoc, pure_bind]
  refine .getVolume (.lift h fun found hfound => ?_)
  obtain ⟨i, slot⟩ := found
  obtain ⟨hi, -⟩ := stageIndex_spec hfound
  have hreq : Request.accept slot.identity slot.expectedVersion (staged i) = request := by
    apply hrequest
    rw [finishRequest, hfound]
  subst hreq
  refine .refuse h fun hfinish => ?_
  rw [not_not] at hfinish
  have hheld := h.take hi
  have hlength := (complete_iff hheld).mp hfinish.2
  refine .of_world (v := w.setStage i none) rfl rfl
    (fun d => run_setStage_bind i none _ _) ?_
  have hready := hheld.ready
  cases hmode : slot.mode with
  | retry record matching =>
    have hretry := hheld.holds.retry record matching hmode
    -- the stage has read the whole snapshot, so its checksum is the record's
    have hcrc : ¬ slot.payloadCrc ≠ record.payloadCrc32 := by
      obtain ⟨j, current, hj, hsame, -⟩ := hretry.retained
      have hstored := hready.durable.recovers.stored.record j current hj
      rw [not_not, StageSlot.payloadCrc, hretry.checksum, hlength, ← hretry.length,
        ← hsame.payloadCrc32, ← hstored.crc, ← hsame.runs, ← hsame.length]
      rfl
    dsimp only
    rw [if_neg hcrc]
    refine .refuse hready fun _ => .lift hready fun current hcurrent => ?_
    obtain ⟨j, hj, -⟩ := findRetry_some (orRefuse_eq_ok.mp hcurrent)
    exact .get (.replay hready ⟨j, hj⟩)
  | fresh plan =>
    have hfresh := hheld.holds.fresh plan hmode
    have hapart := hheld.apart
    rw [freshRuns_of_fresh hmode] at hapart
    refine .refuse hready fun hfirst => ?_
    refine admission_spec hready (staged i) none true [] hfresh.planned hapart
      (Option.not_isSome_iff_eq_none.mp hfirst) hlength.symm
      (by rw [StageSlot.payloadCrc, hfresh.checksum]; rfl)
      (fun c _ => writesOf_extra_none _ c true) (by rw [applyWrites_nil]; exact hfresh.stored)
      (fun _ hb => by cases hb) (fun c d hd => (change_resting hd.idle).2) fun c v => ⟨rfl, rfl⟩

/-! ### Execution and cancellation -/

theorem sameSnapshot_execute (record : Record7) (committed : UInt64) :
    SameSnapshot (record.execute committed) record := ⟨rfl, rfl, rfl, rfl, rfl, rfl, rfl, rfl⟩

theorem sameSnapshot_cancel (record : Record7) (terminal : UInt64)
    (prevention : PreventionReason) : SameSnapshot (record.cancel terminal prevention) record :=
  ⟨rfl, rfl, rfl, rfl, rfl, rfl, rfl, rfl⟩

variable (h : Ready w staged)
include h

/-- Publishing a change of one retained record, and perhaps of its file, without payload. -/
theorem publishChange_spec {c : Candidate7} {old : Record7} {request : Request}
    (hadded : c.added = PayloadPlan.empty) (hheld : w.volume.records[c.recordSlot] = some old)
    (hsame : SameSnapshot c.record old) (hstate : old.state ≠ .directCommitted)
    (hreleased : ∀ s ∈ runSectors c.released, Bitmap.get w.volume.map s = true)
    (hnodes : AllStored w.disk.medium.view (c.nodes w.volume.nodes) w.volume.records)
    (happlies : (c.apply w.volume).Publishable →
      w.contents.store.Applies request ((c.apply w.volume).publishedState
        w.disk.medium.view).store) :
    LendSpec (fun _ => publishChange c) w staged request := by
  have hnone : ∀ s, s ∉ runSectors c.added.runs := by
    intro s hs
    rw [hadded] at hs
    cases hs
  have hfits : c.Fits w.volume.map := ⟨fun s hs => absurd hs (hnone s), hreleased⟩
  have hextra := writesOf_extra_none w c false
  have hstored : Stored w.disk.medium.view c.record.runs c.record.length c.record.payloadCrc32 := by
    rw [hsame.runs, hsame.length, hsame.payloadCrc32]
    exact h.durable.recovers.stored.record _ _ hheld
  unfold publishChange
  refine .validate h hfits fun hp => .begin none false
    (Begun.of_publishable h hfits hp nofun (.advance old hheld hsame hstate) ?_
      fun _ _ _ s hs => absurd hs (hnone s)) ⟨hp.room, ?_⟩
    (fun d hd => (change_resting hd.idle).1) fun v => ⟨rfl, rfl⟩
  · rw [hextra]
    exact hnodes.setRecord hstored
  · show w.contents.store.Applies request (publishedState _ _ _ _ (applyWrites _ _)).store
    rw [hextra]
    exact happlies hp

/-- A retained record is an outcome of the store. -/
theorem outcome_of_record {slot : Fin 8} {record : Record7}
    (hslot : w.volume.records[slot] = some record) :
    w.contents.store.outcomes record.scope
      = some (record.outcome (payload w.disk.medium.view record.runs record.length.toNat)) :=
  (outcomesOf_eq_some _ h.valid).mpr ⟨slot, record, hslot, rfl, rfl⟩

theorem prepareExecute_spec (identity : WriteIdentity7) (expectedVersion : UInt64) :
    LendSpec (fun _ => prepareExecute identity expectedVersion) w staged
      (.execute identity expectedVersion) := by
  unfold prepareExecute
  apply LendSpec.get
  dsimp only
  refine .lift h fun _ _ => .lift h fun _ _ => .lift h fun found hfound => ?_
  obtain ⟨slot, record⟩ := found
  obtain ⟨hslot, hscope⟩ := lookupRecord_spec hfound
  dsimp only
  refine .refuse h fun hidentity => ?_
  obtain ⟨hanswers, -⟩ := sameRecordIdentity_iff.mp (not_not.mp hidentity)
  cases hstate : record.state with
  | cancelled | directCommitted => exact .fail h _
  | admittedCommitted => exact .replay h ⟨slot, hslot⟩
  | admitted =>
    refine .lift h fun index hindex => ?_
    refine .refuse (c := w.volume.nodes[index].kind ≠ .file) h fun hkind => ?_
    refine .refuse (c := w.volume.nodes[index].version ≠ record.previous) h
      fun hversion => ?_
    refine .lift h fun committed hcommitted => ?_
    rw [orRefuse_eq_ok] at hindex hcommitted
    obtain ⟨hlive, hid⟩ := nodePosition_spec hindex
    rw [not_not] at hkind hversion
    have hseq := checkedAdd_eq_add hcommitted
    subst hseq
    have hstored := h.durable.recovers.stored.record slot record hslot
    refine publishChange_spec h rfl hslot (sameSnapshot_execute _ _) (by rw [hstate]; simp)
      (fun s hs => h.valid.node_sectors (getElem_mem_nodes _ _) hkind (releasable_sectors hs))
      (h.durable.recovers.stored.setNode fun _ => hstored) fun hp => ?_
    have hentry := entriesOf_replace w.disk.medium.view h.valid hp.valid hlive
      (n := w.volume.nodes[index].withContent (w.volume.header.sequence + 1) record.length
        record.payloadCrc32 record.extentsUsed record.extents) hlive rfl
    have houtcome := outcomesOf_replace w.disk.medium.view h.valid hp.valid hslot
      (r := record.execute (w.volume.header.sequence + 1)) rfl
    have hfile : w.contents.store.entries identity.object
        = some (w.volume.nodes[index].entry
          (fileBytes w.disk.medium.view w.volume.nodes index)) := by
      rw [← hid]
      exact entriesOf_slot w.disk.medium.view h.valid hlive
    have hknown := outcome_of_record h hslot
    rw [hscope] at hknown
    have happlies := Store.Applies.execute hknown hstate hanswers
      ⟨hfile, hkind, hversion.trans hanswers.2.2⟩
    have hstore := congrArg₂ (Store.mk (w.volume.header.sequence + 1) w.volume.header.epoch
      w.volume.header.next) hentry houtcome
    rw [hid, show (record.execute (w.volume.header.sequence + 1)).scope = identity.scope from
      hscope] at hstore
    exact (congrArg (Store.Applies _ _) hstore).mpr happlies

theorem prepareCancellation_spec (identity : WriteIdentity7) (expectedVersion : UInt64)
    (prevention : PreventionReason) :
    LendSpec (fun _ => prepareCancellation identity expectedVersion prevention) w staged
      (.cancel identity expectedVersion prevention) := by
  unfold prepareCancellation
  apply LendSpec.get
  dsimp only
  refine .lift h fun _ _ => .lift h fun _ _ => .lift h fun found hfound => ?_
  obtain ⟨slot, record⟩ := found
  obtain ⟨hslot, hscope⟩ := lookupRecord_spec hfound
  dsimp only
  refine .refuse h fun hidentity => ?_
  obtain ⟨hanswers, -⟩ := sameRecordIdentity_iff.mp (not_not.mp hidentity)
  cases hstate : record.state with
  | cancelled => exact .refuse h fun _ => .replay h ⟨slot, hslot⟩
  | directCommitted | admittedCommitted => exact .replay h ⟨slot, hslot⟩
  | admitted =>
    refine .lift h fun terminal hterminal => ?_
    rw [orRefuse_eq_ok] at hterminal
    have hseq := checkedAdd_eq_add hterminal
    subst hseq
    refine publishChange_spec h rfl hslot (sameSnapshot_cancel _ _ _) (by rw [hstate]; simp)
      nofun h.durable.recovers.stored fun hp => ?_
    have houtcome := outcomesOf_replace w.disk.medium.view h.valid hp.valid hslot
      (r := record.cancel (w.volume.header.sequence + 1) prevention) rfl
    have hknown := outcome_of_record h hslot
    rw [hscope] at hknown
    have happlies : w.contents.store.Applies (.cancel identity expectedVersion prevention) _ :=
      .cancel hknown hstate hanswers
    have hstore := congrArg (Store.mk (w.volume.header.sequence + 1) w.volume.header.epoch
      w.volume.header.next (entriesOf w.disk.medium.view w.volume.nodes)) houtcome
    rw [show (record.cancel (w.volume.header.sequence + 1) prevention).scope = identity.scope from
      hscope] at hstore
    exact (congrArg (Store.Applies _ _) hstore).mpr happlies

end

end RusticOs.Fs
