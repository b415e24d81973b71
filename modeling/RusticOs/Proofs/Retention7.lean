import RusticOs.Proofs.Candidates7
import RusticOs.Proofs.Crash7

/-!
# `RusticOs.Proofs.Retention7`: what retention maintenance does

Maintenance rebuilds the bitmap from the live files and drops every record. The rebuilt bitmap
is the old one without the sectors only snapshots owned (`liveFileMap_spec`), so on a valid
owner the check before the publication cannot fail (`maintained_publishable`). A call that is
refused has changed nothing. A publication that fails on the disk is not a refusal: it answers
`uncertain` and fences the owner.
-/

set_option autoImplicit false

namespace RusticOs.Fs

open RusticOs.Lib RusticOs.Lib.Fallible

/-! ### The bitmap of the live files -/

section
variable {header : Header7} {nodes : Nodes7} {records : Records7} {map : SpaceMap}

theorem liveRun_eq_ok {m m' : SpaceMap} {run : Extent} :
    liveRun m run = .ok m' ↔ (run.Inside ∧ run.sectors ≠ 0)
      ∧ markSectors m run.sectorList = .ok m' := by
  simp only [liveRun, except_bind_eq_ok, orRefuse_eq_ok, reject_eq_ok]
  constructor
  · rintro ⟨stop, hstop, _, hbounds, hmark⟩
    push Not at hbounds
    have hend := checkedAdd_eq_some.mp hstop
    exact ⟨⟨by unfold Extent.Inside; omega, hbounds.1⟩, hmark⟩
  · rintro ⟨⟨hinside, hne⟩, hmark⟩
    have hstop := checkedAdd_eq_some.mpr hinside.endSector.symm
    refine ⟨_, hstop, (), ?_, hmark⟩
    rintro (h0 | hlt)
    · exact hne h0
    · rw [hinside.endSector] at hlt
      unfold Extent.Inside at hinside
      omega

theorem flatMap_files (l : List Node7) :
    (l.filter fun node => node.kind = .file).flatMap (fun node => runSectors node.runs)
      = l.flatMap nodeSectors := by
  induction l with
  | nil => rfl
  | cons n l ih =>
    rw [List.flatMap_cons, nodeSectors, ← ih]
    by_cases hk : n.kind = .file
    · rw [List.filter_cons_of_pos (by simpa using hk), List.flatMap_cons, if_pos hk]
    · rw [List.filter_cons_of_neg (by simpa using hk), if_neg hk, List.nil_append]

/-- On a well-formed owner the walk over the live files marks exactly their sectors. -/
theorem liveFileMap_spec (h : WellFormed header nodes records map) :
    ∃ live, liveFileMap nodes = .ok live
      ∧ ∀ s, Bitmap.get live s = true ↔ ∃ i, Owns nodes records (.file i) s := by
  have hvalid := validGeneration_iff.mpr h
  have hnodup : (nodes.toList.flatMap nodeSectors).Nodup := (List.nodup_append.mp hvalid.nodup).1
  have hmem : ∀ s, s ∈ nodes.toList.flatMap nodeSectors ↔ ∃ i, Owns nodes records (.file i) s := by
    intro s
    rw [List.mem_flatMap]
    constructor
    · rintro ⟨n, hn, hs⟩
      obtain ⟨i, rfl⟩ := mem_toList_nodes.mp hn
      exact ⟨i, (mem_nodeSectors records).mp hs⟩
    · rintro ⟨i, hi⟩
      exact ⟨nodes[i], mem_toList_nodes.mpr ⟨i, rfl⟩, (mem_nodeSectors records).mpr hi⟩
  have hlt : ∀ s ∈ nodes.toList.flatMap nodeSectors, s < dataSectors := by
    intro s hs
    obtain ⟨i, hi⟩ := (hmem s).mp hs
    exact h.owner_lt hi
  refine ⟨Bitmap.setAll (Vector.replicate 2048 0) (nodes.toList.flatMap nodeSectors) true, ?_,
    fun s => ?_⟩
  · -- the nested loops mark the concatenation of all runs of all files
    have hruns : ∀ node ∈ nodes.toList.filter (fun node => node.kind = .file), ∀ m m',
        node.runs.foldlM liveRun m = .ok m'
          ↔ (∀ run ∈ node.runs, run.Inside ∧ run.sectors ≠ 0)
            ∧ markSectors m (runSectors node.runs) = .ok m' :=
      fun node _ m m' => foldlM_mark (P := fun run => run.Inside ∧ run.sectors ≠ 0)
        (g := Extent.sectorList) fun _ _ _ _ => liveRun_eq_ok
    unfold liveFileMap
    rw [foldlM_mark (P := fun node => ∀ run ∈ node.runs, run.Inside ∧ run.sectors ≠ 0)
      (g := fun node => runSectors node.runs) hruns, flatMap_files]
    constructor
    · intro node hnode run hrun
      obtain ⟨hn, hk⟩ := List.mem_filter.mp hnode
      have hshape := hvalid.file_shape hn (of_decide_eq_true hk)
      exact ⟨hshape.payload.inside run hrun, hshape.payload.nonempty run hrun⟩
    · exact (markSectors_eq_ok hlt).mpr ⟨hnodup, fun s _ => Bitmap.get_zero s, rfl⟩
  · rw [Bitmap.get_setAll _ hlt, ← hmem, Bitmap.get_zero]
    split
    · exact iff_of_true rfl ‹_›
    · exact iff_of_false Bool.false_ne_true ‹_›

/-- What maintenance installs passes the check of its publication. -/
theorem maintained_publishable (h : WellFormed header nodes records map)
    (room : header.sequence.toNat + 1 < 2 ^ 64) {live : SpaceMap}
    (hlive : ∀ s, Bitmap.get live s = true ↔ ∃ i, Owns nodes records (.file i) s) :
    Publishable { header with epoch := header.epoch + 1 } nodes (Vector.replicate 8 none) live :=
  ⟨room, validGeneration_iff.mpr (h.maintain room hlive)⟩

end

/-! ### Publications that fail -/

theorem writeRegion_errs {P : Error → Prop} {onError : Error → Error} (h : ∀ e, P (onError e))
    (base : Nat) {count : Nat} {block : Nat → Except Error Block}
    (hblock : ∀ s < count, ∀ e, block s = .error e → P e) :
    Fallible.Errs P (writeRegion onError base count block) := by
  refine Fallible.Errs.bind (Fallible.Errs.mapM fun s hs => ?_) fun _ => Fallible.Errs.pure _
  refine (Fallible.Errs.lift (hblock s (List.mem_range.mp hs))).bind fun bytes => ?_
  exact (Fallible.Errs.mapError h).bind fun _ => Fallible.Errs.pure _

/-- The only refusal of a publication that has begun is `uncertain`. -/
theorem publishCandidate_errs {v : Volume7} (h : v.Publishable) :
    Fallible.Errs (· = .uncertain) (publishCandidate v) := by
  have huncertain : ∀ e, uncertain e = .uncertain := fun _ => rfl
  have hok : ∀ {β : Type} {r : Except Error β} {b : β}, r = .ok b →
      ∀ e, r = .error e → e = .uncertain := fun hr _ he => nomatch hr.symm.trans he
  have hheader : candidateHeader v.header = .ok (nextHeader v.header) :=
    candidateHeader_eq_ok.mpr ⟨h.room, rfl⟩
  unfold publishCandidate
  rw [hheader, lift_ok_bind, validateGeneration_eq_ok.mpr h.valid, lift_ok_bind]
  have hregions : Fallible.Errs (· = .uncertain)
      (writeGeneration uncertain v.nodes v.records v.map (nextHeader v.header).generation) := by
    refine (writeRegion_errs huncertain _ fun s hs =>
      hok (nodesBlock_eq (fun n hn => h.valid.node_validate hn) hs)).bind fun _ => ?_
    refine (writeRegion_errs huncertain _ fun s hs => hok rfl).bind fun _ => ?_
    exact (writeRegion_errs huncertain _ fun s hs =>
      hok (receiptsBlock_eq (fun i r hr => h.valid.record_shape hr) hs)).bind
        fun _ => Fallible.Errs.pure _
  refine hregions.bind fun sums => ?_
  have hencode : { nextHeader v.header with
      nodesChecksum := sums.1, mapChecksum := sums.2.1, receiptsChecksum := sums.2.2 }.validate
        = .ok () := ((nextHeader v.header).validate_checksums _ _ _).trans h.valid.head
  refine (Fallible.Errs.lift (hok (encode_headerBlock hencode))).bind fun _ => ?_
  exact (Fallible.Errs.mapError huncertain).bind fun _ =>
    (Fallible.Errs.mapError huncertain).bind fun _ =>
    (Fallible.Errs.mapError huncertain).bind fun _ => Fallible.Errs.pure _

/-- A publication of structures that pass its check is refused only as `uncertain`. -/
theorem publishNamespace_errs {w : World7}
    (h : w.volume.Publishable) {e : Error}
    (he : (publishNamespace.run w).1 = .error e) : e = .uncertain := by
  rw [publishNamespace_run] at he
  rcases hr : (publishCandidate w.volume).run w.disk with ⟨r, d⟩
  rw [hr] at he
  cases r with
  | ok header => cases he
  | error e' =>
    cases he
    exact publishCandidate_errs h w.disk _ (by rw [hr])

/-- On a disk that answers every command a publication returns. -/
theorem publishNamespace_returns {w : World7}
    (h : w.volume.Publishable)
    (hd : w.disk.AllDone) : ∃ d : Disk, d.AllDone ∧ publishNamespace.run w
      = (.ok (), { w with volume := publishedVolume w.volume, disk := d }) := by
  obtain ⟨-, hdone⟩ := publishCandidate_follows h w.disk
  obtain ⟨d, hrun, hall⟩ := hdone hd
  rw [publishNamespace_run, hrun]
  exact ⟨d, hall, rfl⟩

/-- What a publication that returned leaves: the new header, and the payload as it was. -/
theorem publishNamespace_ok {w w' : World7} {u : Unit}
    (h : w.volume.Publishable)
    (hrun : publishNamespace.run w = (.ok u, w')) :
    w'.volume = publishedVolume w.volume
      ∧ ∀ s, w'.disk.medium.view (payloadSector + s) = w.disk.medium.view (payloadSector + s) := by
  obtain ⟨hran, -⟩ := publishCandidate_follows h w.disk
  rw [publishNamespace_run] at hrun
  generalize (publishCandidate w.volume).run w.disk = r at hran hrun
  cases hran with
  | stopped => cases hrun
  | finished d medium inflight log idle =>
    cases hrun
    refine ⟨rfl, fun s => ?_⟩
    show d.medium.view _ = _
    rw [medium, after_publicationCommands]
    exact publishedContents_payload _ _ _ _ _ _ _

/-! ### Maintenance -/

/-- What a maintenance that succeeded leaves. -/
structure Maintained (w w' : World7) : Prop where
  unfenced : w'.volume.fenced = false
  records : w'.volume.records = Vector.replicate 8 none
  map : ∀ s, Bitmap.get w'.volume.map s = true
    ↔ ∃ i, Owns w.volume.nodes w.volume.records (.file i) s
  epoch : w'.volume.header.epoch.toNat = w.volume.header.epoch.toNat + 1
  sequence : w'.volume.header.sequence.toNat = w.volume.header.sequence.toNat + 1
  nodes : w'.volume.nodes = w.volume.nodes
  bytes : ∀ s, w'.disk.medium.view (payloadSector + s) = w.disk.medium.view (payloadSector + s)
  /-- What only a snapshot owned is free for the planner. -/
  allocatable : ∀ (s : Nat) (k : Fin 8), Owns w.volume.nodes w.volume.records (.snapshot k) s →
    (∀ i, ¬ Owns w.volume.nodes w.volume.records (.file i) s) →
      Bitmap.get w'.volume.planningMap s = false
  stored : ∀ img, w'.disk.Image img → Stores img w'.contents

/-- The owner maintenance publishes. -/
def maintainedVolume (v : Volume7) (live : SpaceMap) : Volume7 :=
  { v with
    fenced := true, records := Vector.replicate 8 none, map := live
    header := { v.header with epoch := v.header.epoch + 1 } }

/-- The ways maintenance of a well-formed owner runs: three refusals before anything is
changed, and one publication. -/
inductive MaintainRan (w : World7) : Except Error UInt64 × World7 → Prop where
  | busy (cause : w.volume.openStages ≠ 0
      ∨ ∃ i : Fin 8, w.volume.records[i].any (fun r => r.state = .admitted) = true) :
      MaintainRan w (.error .busy, w)
  | exhausted (full : 2 ^ 64 ≤ w.volume.header.sequence.toNat + 1) :
      MaintainRan w (.error .exhausted, w)
  | published (live : SpaceMap) {r : Except Error Unit} {w' : World7}
      (room : w.volume.header.sequence.toNat + 1 < 2 ^ 64) (idle : ¬ w.volume.openStages ≠ 0)
      (hlive : ∀ s, Bitmap.get live s = true
        ↔ ∃ i, Owns w.volume.nodes w.volume.records (.file i) s)
      (hrun : publishNamespace.run { w with volume := maintainedVolume w.volume live } = (r, w')) :
      MaintainRan w (r.map fun _ => w.volume.header.epoch + 1, w')

theorem maintainRetention_ran {w : World7} (hfence : w.volume.fenced = false)
    (h : WellFormed w.volume.header w.volume.nodes w.volume.records w.volume.map) :
    MaintainRan w (maintainRetention.run w) := by
  have hready : w.volume.ready = .ok () := Volume7.ready_eq_ok.mpr hfence
  have hepoch := UInt64.le_iff_toNat_le.mp h.head.epoch_le
  obtain ⟨live, hmap, hlive⟩ := liveFileMap_spec h
  unfold maintainRetention
  rw [run_getVolume_bind, run_lift_bind_of_ok hready]
  by_cases hopen : w.volume.openStages ≠ 0
  · rw [run_refuse_bind_of hopen]
    exact .busy (Or.inl hopen)
  rw [run_refuse_bind_of_not hopen]
  by_cases hadmitted : ∃ i : Fin 8, w.volume.records[i].any (fun r => r.state = .admitted) = true
  · rw [run_refuse_bind_of hadmitted]
    exact .busy (Or.inr hadmitted)
  rw [run_refuse_bind_of_not hadmitted]
  by_cases hroom : w.volume.header.sequence.toNat + 1 < 2 ^ 64
  · have hfits : ¬ ∃ i : Fin 2048, live[i] &&& ~~~ w.volume.map[i] ≠ 0 := by
      rintro ⟨i, hi⟩
      refine hi (Bitmap.and_not_eq_zero (fun s hs => ?_) i)
      obtain ⟨k, hk⟩ := (hlive s).mp hs
      exact (h.map_iff s).mpr ⟨_, hk⟩
    have hepoch : orRefuse Error.exhausted (checkedAdd w.volume.header.epoch 1) = .ok _ :=
      congrArg (orRefuse _) (checkedAdd_one (by omega))
    have hsequence : orRefuse Error.exhausted (checkedAdd w.volume.header.sequence 1) = .ok _ :=
      congrArg (orRefuse _) (checkedAdd_one hroom)
    rw [run_lift_bind_of_ok hepoch, run_lift_bind_of_ok hsequence,
      run_lift_bind_of_ok (validateGeneration_eq_ok.mpr (validGeneration_iff.mpr h)),
      run_lift_bind_of_ok hmap, run_refuse_bind_of_not]
    swap
    · exact hfits
    rw [run_publish]
    rcases hrun : publishNamespace.run
      { w with volume := maintainedVolume w.volume live } with ⟨r, w'⟩
    have hcase := MaintainRan.published (w := w) live hroom hopen hlive hrun
    rw [maintainedVolume] at hrun
    rw [hrun]
    cases r with
    | ok u => exact hcase
    | error e => exact hcase
  · by_cases hroom' : w.volume.header.epoch.toNat + 1 < 2 ^ 64
    · have hepoch : orRefuse Error.exhausted (checkedAdd w.volume.header.epoch 1) = .ok _ :=
        congrArg (orRefuse _) (checkedAdd_one hroom')
      have hsequence : orRefuse Error.exhausted (checkedAdd w.volume.header.sequence 1)
          = .error .exhausted := congrArg (orRefuse _) (checkedAdd_one_full hroom)
      rw [run_lift_bind_of_ok hepoch, run_lift_bind_of_error hsequence]
      exact .exhausted (by omega)
    · have hepoch : orRefuse Error.exhausted (checkedAdd w.volume.header.epoch 1)
          = .error .exhausted := congrArg (orRefuse _) (checkedAdd_one_full hroom')
      rw [run_lift_bind_of_error hepoch]
      exact .exhausted (by omega)

section
variable {w : World7} {staged : Fin 2 → List UInt8} {live : SpaceMap}

theorem Ready.wellFormed (h : Ready w staged) :
    WellFormed w.volume.header w.volume.nodes w.volume.records w.volume.map :=
  validGeneration_iff.mp h.valid

/-- A publication of the maintained owner that returned leaves what maintenance promises. -/
theorem Maintained.of_published (h : Ready w staged)
    (room : w.volume.header.sequence.toNat + 1 < 2 ^ 64) (hidle : ¬ w.volume.openStages ≠ 0)
    (hlive : ∀ s, Bitmap.get live s = true
      ↔ ∃ i, Owns w.volume.nodes w.volume.records (.file i) s)
    {u : Unit} {w' : World7}
    (hrun : publishNamespace.run { w with volume := maintainedVolume w.volume live }
      = (.ok u, w')) : Maintained w w' := by
  have hwf := h.wellFormed
  have hp := maintained_publishable hwf room hlive
  obtain ⟨hvolume, hbytes⟩ := publishNamespace_ok
    (w := { w with volume := maintainedVolume w.volume live }) hp hrun
  have hepoch := UInt64.le_iff_toNat_le.mp hwf.head.epoch_le
  have hsucc : ∀ n : UInt64, n.toNat + 1 < 2 ^ 64 → (n + 1).toNat = n.toNat + 1 := by
    intro n hn
    rw [UInt64.toNat_add]
    exact Nat.mod_eq_of_lt hn
  have hmap : w'.volume.map = live := by rw [hvolume]; rfl
  have hslots : w'.volume.openSlots = [] := by
    have hstages : w'.volume.openSlots = w.volume.openSlots := by rw [hvolume]; rfl
    rw [hstages]
    exact List.length_eq_zero_iff.mp (not_not.mp hidle)
  have hready : Ready w' staged := by
    have hnone : ∀ (k : Fin 8) (a : Record7),
        (Vector.replicate 8 (none : Option Record7))[k] = some a → False := by
      intro k a ha
      simp at ha
    have hcontinues : Continues w.volume.header
        { w.volume.header with epoch := w.volume.header.epoch + 1 } := by
      refine ⟨rfl, rfl, rfl, ?_, UInt32.le_refl _⟩
      rw [UInt64.le_iff_toNat_le, hsucc _ (by omega)]
      exact Nat.le_succ _
    have hstages : StagesHold (maintainedVolume w.volume live) w.disk.medium.view staged := by
      refine StagesHold.of_none ?_ _ _
      apply Vector.ext
      intro i hi
      rw [Vector.getElem_replicate]
      exact openStages_eq_zero hidle ⟨i, hi⟩
    obtain ⟨after, -, -, hreturned, -⟩ := publishNamespace_spec
      (w := { w with volume := maintainedVolume w.volume live }) (g := w.volume.toGeneration7)
      h.durable h.idle hcontinues
      ⟨h.durable.recovers.stored.node, fun k a ha => (hnone k a ha).elim⟩ hstages hp
    exact (hrun ▸ hreturned u (by rw [hrun])).1
  refine ⟨by rw [hvolume]; rfl, by rw [hvolume]; rfl, fun s => by rw [hmap]; exact hlive s, ?_, ?_,
    by rw [hvolume]; rfl, hbytes, fun s k _ hfile => ?_, fun img himg => hready.images himg⟩
  · rw [hvolume]
    exact hsucc _ (by omega)
  · rw [hvolume]
    exact hsucc _ room
  · rw [Bool.eq_false_iff]
    intro hset
    rw [get_planningMap (by rw [hslots]; simp), hslots, hmap, hlive] at hset
    rcases hset with ⟨i, hi⟩ | ⟨slot, hslot, -⟩
    · exact hfile i hi
    · cases hslot

/-- On a disk that answers every command, maintenance that nothing is in the way of returns. -/
theorem maintainRetention_returns (h : Ready w staged) (hd : w.disk.AllDone)
    (room : w.volume.header.sequence.toNat + 1 < 2 ^ 64) (hopen : w.volume.openStages = 0)
    (hsettled : ∀ (i : Fin 8) (r : Record7), w.volume.records[i] = some r → r.state ≠ .admitted) :
    ∃ (live : SpaceMap) (d : Disk), d.AllDone
      ∧ (∀ s, Bitmap.get live s = true ↔ ∃ i, Owns w.volume.nodes w.volume.records (.file i) s)
      ∧ maintainRetention.run w = (.ok (w.volume.header.epoch + 1), { w with
        volume := publishedVolume (maintainedVolume w.volume live), disk := d }) := by
  have hran := maintainRetention_ran h.unfenced h.wellFormed
  generalize maintainRetention.run w = result at hran ⊢
  cases hran with
  | busy cause =>
    rcases cause with hne | ⟨i, hi⟩
    · exact absurd hopen hne
    · obtain ⟨r, hr, hstate⟩ := (Option.any_eq_true _ _).mp hi
      exact absurd (of_decide_eq_true hstate) (hsettled i r hr)
  | exhausted full => omega
  | @published live r w' room idle hlive hrun =>
    obtain ⟨d, hdone, hok⟩ := publishNamespace_returns
      (w := { w with volume := maintainedVolume w.volume live })
      (maintained_publishable h.wellFormed room hlive) hd
    obtain ⟨rfl, rfl⟩ := Prod.mk.inj (hrun.symm.trans hok)
    exact ⟨live, d, hdone, hlive, rfl⟩

end

end RusticOs.Fs
