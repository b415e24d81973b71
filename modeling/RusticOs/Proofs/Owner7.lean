import RusticOs.Proofs.Stages7

/-!
# `RusticOs.Proofs.Owner7`: an unfenced owner and what a call may leave

`Ready w staged` is the invariant of an unfenced owner: no command is outstanding, the disk
durably holds exactly the owner's structures, and its open stages hold what they promise.
`Settles before after staged w` lists what a call that starts from the contents `before`
may leave: the owner ready with those contents, ready with the contents it published, or
fenced, and then every image of the disk is one of the two.

* `publishNamespace_spec`: the synchronous publication settles.
* `mountInto_spec`: a mount restores what the disk stores, and makes it durable.
* `provisionInto_spec`: a provisioned owner is ready.
-/

set_option autoImplicit false

namespace RusticOs.Fs

open RusticOs.Lib

/-! ### Running operations -/

section
variable {α : Type}

@[simp] theorem run_onDisk (x : Fallible Error Disk α) (w : World7) :
    (onDisk x).run w = ((x.run w.disk).1, { w with disk := (x.run w.disk).2 }) := rfl

@[simp] theorem run_getVolume_bind (f : Volume7 → Op α) (w : World7) :
    (getVolume >>= f).run w = (f w.volume).run w := rfl

@[simp] theorem run_setVolume_bind (g : Volume7 → Volume7) (f : Unit → Op α) (w : World7) :
    (setVolume g >>= f).run w = (f ()).run { w with volume := g w.volume } := rfl

end

/-! ### Ready owners -/

/-- The invariant of an unfenced owner. -/
structure Ready (w : World7) (staged : Fin 2 → List UInt8) : Prop where
  unfenced : w.volume.fenced = false
  idle : w.disk.inflight = none
  durable : Durable w.disk.medium w.volume.toGeneration7
  stages : StagesHold w.volume w.disk.medium.view staged

variable {w : World7} {staged : Fin 2 → List UInt8}

theorem Ready.valid (h : Ready w staged) : w.volume.Valid := h.durable.recovers.valid

/-- A device with the same medium and nothing outstanding. -/
structure SameDisk (d : Disk) (w : World7) : Prop where
  medium : d.medium = w.disk.medium
  idle : d.inflight = none

theorem SameDisk.contents {d : Disk} (hd : SameDisk d w) :
    ({ w with disk := d } : World7).contents = w.contents := by
  simp only [World7.contents, hd.medium]

/-- An owner is as ready on another device with the same medium. -/
theorem Ready.onDisk (h : Ready w staged) {d : Disk} (hd : SameDisk d w) :
    Ready { w with disk := d } staged where
  unfenced := h.unfenced
  idle := hd.idle
  durable := by
    show Durable d.medium w.volume.toGeneration7
    rw [hd.medium]
    exact h.durable
  stages := by
    show StagesHold w.volume d.medium.view staged
    rw [hd.medium]
    exact h.stages

/-- What a call may leave. -/
inductive Settles (before : Contents7) (after : Option Contents7) (staged : Fin 2 → List UInt8)
    (w : World7) : Prop where
  | kept (ready : Ready w staged) (same : w.contents = before)
  | done (ready : Ready w staged) (published : after = some w.contents)
  | fenced (fenced : w.volume.fenced = true)
      (images : ∀ img, w.disk.Image img → Stores img before ∨ ∃ c, after = some c ∧ Stores img c)

/-- A call that published nothing settles as one that might have. -/
theorem Settles.weaken {before : Contents7} (h : Settles before none staged w)
    (after : Option Contents7) : Settles before after staged w := by
  cases h with
  | kept ready same => exact .kept ready same
  | done ready published => exact nomatch published
  | fenced fenced images =>
    refine .fenced fenced fun img himg => ?_
    rcases images img himg with hold | ⟨c, hc, -⟩
    · exact Or.inl hold
    · exact nomatch hc

/-- A stage's promises do not depend on the header, the nodes or the fence. -/
theorem StagesHold.congr {v v' : Volume7} {view view' : Nat → Block} (h : StagesHold v view staged)
    (hstages : v'.stages = v.stages) (hmap : v'.map = v.map) (hrecords : v'.records = v.records)
    (hview : ∀ s, view' (payloadSector + s) = view (payloadSector + s)) :
    StagesHold v' view' staged where
  holds := by
    intro i slot hi
    rw [hstages] at hi
    have hslot := h.holds i slot hi
    have hpayload : ∀ runs n, payload view' runs n = payload view runs n :=
      fun runs n => payload_congr fun s _ => hview s
    refine ⟨hslot.written, hslot.within, hslot.whole, hslot.size, ?_, ?_⟩
    · intro plan hmode
      obtain ⟨h1, h2, h3⟩ := hslot.fresh plan hmode
      exact ⟨hmap ▸ h1, (hpayload _ _).trans h2, h3⟩
    · intro record matching hmode
      obtain ⟨h1, h2, h3, h4, h5, h6, h7⟩ := hslot.retry record matching hmode
      exact ⟨hrecords ▸ h1, h2, h3, h4, h5, by rw [hpayload]; exact h6,
        by rw [hpayload]; exact h7⟩
  disjoint := by
    rw [hstages]
    exact h.disjoint
  scopes := by
    rw [hstages]
    exact h.scopes
  room := by
    rw [reservedRecords_eq, hstages, ← reservedRecords_eq, Volume7.freeRecords, hrecords]
    exact h.room

/-- An owner without open stages promises nothing. -/
theorem StagesHold.of_none {v : Volume7} (h : v.stages = Vector.replicate 2 none)
    (view : Nat → Block) (staged : Fin 2 → List UInt8) : StagesHold v view staged where
  holds := by
    intro i slot hi
    rw [h] at hi
    simp at hi
  disjoint := by
    intro i j a b _ hi
    rw [h] at hi
    simp at hi
  scopes := by
    intro i j a b _ hi
    rw [h] at hi
    simp at hi
  room := by
    rw [reservedRecords_eq, h]
    simp [reserves]

/-! ### Publication -/

theorem publishNamespace_run (w : World7) :
    publishNamespace.run w = match (publishCandidate w.volume).run w.disk with
      | (.ok header, d) =>
        (.ok (), { w with volume := { w.volume with header, fenced := false }, disk := d })
      | (.error e, d) => (.error e, { w with volume := w.volume.fenceClear, disk := d }) := by
  rcases hx : (publishCandidate w.volume).run w.disk with ⟨r, d⟩
  rw [publishNamespace, run_getVolume_bind, Fallible.run_bind, Fallible.run_attempt, run_onDisk, hx]
  cases r <;> rfl

/-- A volume once it is published. -/
def publishedVolume (v : Volume7) : Volume7 :=
  { v with header := publishedHeader v.header v.nodes v.records v.map, fenced := false }

/-- A synchronous publication settles. The disk durably holds `g`; the owner already has the
new structures. -/
theorem publishNamespace_spec {g : Generation7} (hdurable : Durable w.disk.medium g)
    (hidle : w.disk.inflight = none) (hcontinues : Continues g.header w.volume.header)
    (hstored : AllStored w.disk.medium.view w.volume.nodes w.volume.records)
    (hstages : StagesHold w.volume w.disk.medium.view staged)
    (hp : w.volume.Publishable) :
    ∃ after, after = w.volume.publishedState w.disk.medium.view
      ∧ Settles (contents g w.disk.medium.view) (some after) staged (publishNamespace.run w).2
      ∧ (∀ u, (publishNamespace.run w).1 = .ok u →
        Ready (publishNamespace.run w).2 staged ∧ (publishNamespace.run w).2.contents = after)
      ∧ (w.disk.AllDone → ∃ u, (publishNamespace.run w).1 = .ok u) := by
  have hpub : Publishes g w.disk.medium.view [] w.volume.header w.volume.nodes w.volume.records
      w.volume.map := ⟨hcontinues, hp, by simp, hstored⟩
  obtain ⟨hran, hdone⟩ := publishCandidate_follows hp w.disk
  refine ⟨_, rfl, ?_⟩
  rw [publishNamespace_run]
  generalize (publishCandidate w.volume).run w.disk = r at hran hdone
  cases hran with
  | finished d m i l _ =>
    have hview : ∀ s, d.medium.view (payloadSector + s)
        = w.disk.medium.view (payloadSector + s) := by
      intro s
      rw [m, after_publicationCommands]
      exact publishedContents_payload _ _ _ _ _ _ _
    have hready : Ready { w with volume := publishedVolume w.volume, disk := d } staged := by
      refine ⟨rfl, i.trans hidle, ?_, hstages.congr rfl rfl rfl hview⟩
      show Durable d.medium _
      rw [m]
      exact hdurable.publish hpub
    have hcontents := contents_of_payload
      (g := published w.volume.header w.volume.nodes w.volume.records w.volume.map) hview
    exact ⟨.done hready (congrArg some hcontents.symm), fun _ _ => ⟨hready, hcontents⟩,
      fun _ => ⟨(), rfl⟩⟩
  | stopped e d k j hk m i l =>
    refine ⟨.fenced rfl ?_, nofun, fun hall => ?_⟩
    · intro img himg
      rw [Device.image_of_inflight_none (show d.inflight = none from i.trans hidle), m] at himg
      rcases hdurable.publish_stores hpub himg with hold | ⟨-, hnew⟩
      · exact Or.inl hold
      · exact Or.inr ⟨_, rfl, hnew⟩
    · obtain ⟨d', hd', -⟩ := hdone hall
      cases hd'

/-- A publication whose structures fail the check changes nothing on the disk. -/
theorem publishNamespace_refused {g : Generation7} (hdurable : Durable w.disk.medium g)
    (hidle : w.disk.inflight = none)
    (hp : ¬ w.volume.Publishable)
    (staged : Fin 2 → List UInt8) :
    Settles (contents g w.disk.medium.view) none staged (publishNamespace.run w).2
      ∧ ∀ u, (publishNamespace.run w).1 ≠ .ok u := by
  obtain ⟨e, he⟩ := publishCandidate_refuses hp
  rw [publishNamespace_run, he]
  refine ⟨.fenced rfl fun img himg => Or.inl ?_, nofun⟩
  exact hdurable.stores ((Device.image_of_inflight_none hidle).mp himg)

/-! ### Mounting -/

/-- A mount flushes first: it leaves no new images, and on success returns what the disk
stores, with nothing unflushed. -/
theorem mountTrusted_spec (d : Disk) :
    (∀ img, (mountTrusted.run d).2.Image img → d.Image img)
      ∧ (∀ m, (mountTrusted.run d).1 = .ok m → (mountTrusted.run d).2.inflight = none
        ∧ (mountTrusted.run d).2.medium = ⟨d.medium.view, []⟩ ∧ recover d.medium.view = .ok m)
      ∧ (d.AllDone → (mountTrusted.run d).1 = recover d.medium.view
        ∧ (mountTrusted.run d).2.AllDone) := by
  rw [mountTrusted, Fallible.run_bind]
  cases hin : d.inflight with
  | some c =>
    rw [Device.flush, Device.run_execute_of_some hin]
    exact ⟨fun img h => h, nofun, fun hall => nomatch hin.symm.trans hall.1⟩
  | none =>
    cases hr : d.replies 0 with
    | failed e applied =>
      rw [Device.flush, Device.run_execute_of_failed hin hr]
      refine ⟨fun img h => ?_, nofun,
        fun hall => nomatch hr.symm.trans (hall.2 0)⟩
      dsimp only at h
      rw [Device.image_of_inflight_none (by exact hin)] at h
      apply Device.image_of_medium
      cases applied with
      | false => exact h
      | true => exact Medium.image_of_flush h
    | done =>
      rw [Device.flush, Device.run_execute_of_done hin hr]
      obtain ⟨hm, hi, -, hres, hall⟩ := loadVolume_reads { d with
        medium := d.medium.effect .flush
        replies := fun n => d.replies (n + 1)
        log := d.log ++ [.flush] }
      refine ⟨fun img h => ?_, fun m hok => ⟨hi.trans hin, hm, ?_⟩,
        fun hd => hall ⟨hin, fun n => hd.2 (n + 1)⟩⟩
      · rw [Device.image_of_inflight_none (hi.trans hin), hm] at h
        exact Device.image_of_medium (Medium.image_of_flush h)
      · rcases hres with h | ⟨e, he⟩
        · exact h.symm.trans hok
        · exact nomatch he.symm.trans hok

theorem mountInto_run (w : World7) :
    mountInto.run w = match mountTrusted.run w.disk with
      | (.ok m, d) =>
        (.ok (), { w with
          volume := { w.volume.fenceClear with
            toGeneration7 := m.toGeneration7
            recoveredFromHeader := m.recovered
            fenced := false }
          disk := d })
      | (.error e, d) => (.error e, { w with volume := w.volume.fenceClear.clear, disk := d }) := by
  rcases hx : mountTrusted.run w.disk with ⟨r, d⟩
  rw [mountInto, run_setVolume_bind, Fallible.run_bind, Fallible.run_attempt, run_onDisk, hx]
  cases r <;> rfl

/-- A mount restores what the disk stores and makes it durable. A failed one leaves the
owner fenced and the disk no more uncertain than before. -/
theorem mountInto_spec (w : World7) (staged : Fin 2 → List UInt8) :
    (∀ img, (mountInto.run w).2.disk.Image img → w.disk.Image img)
      ∧ (∀ u, (mountInto.run w).1 = .ok u → Ready (mountInto.run w).2 staged
        ∧ Stores w.disk.medium.view (mountInto.run w).2.contents)
      ∧ (∀ e, (mountInto.run w).1 = .error e → (mountInto.run w).2.volume.fenced = true)
      ∧ (w.disk.AllDone → ∀ c, Stores w.disk.medium.view c →
        (mountInto.run w).1 = .ok () ∧ (mountInto.run w).2.contents = c
          ∧ (mountInto.run w).2.disk.AllDone) := by
  obtain ⟨himages, hok, hall⟩ := mountTrusted_spec w.disk
  rw [mountInto_run]
  rcases hx : mountTrusted.run w.disk with ⟨r, d⟩
  rw [hx] at himages hok hall
  cases r with
  | error e =>
    refine ⟨himages, nofun, fun _ _ => rfl, fun hd c hc => ?_⟩
    obtain ⟨recovered, hrec⟩ := recovers_iff.mp hc.recovers
    exact nomatch (hall hd).1.trans hrec
  | ok m =>
    obtain ⟨hidle, hmedium, hrec⟩ := hok m rfl
    have hrecovers : Recovers w.disk.medium.view m.toGeneration7 :=
      recovers_iff.mpr ⟨m.recovered, hrec⟩
    have hstores : Stores w.disk.medium.view
        (contents m.toGeneration7 d.medium.view) := by
      rw [hmedium]
      exact ⟨hrecovers, rfl⟩
    refine ⟨himages, fun _ _ => ⟨⟨rfl, hidle, ?_, StagesHold.of_none rfl _ _⟩, hstores⟩,
      nofun, fun hd c hc => ⟨rfl, hstores.unique hc, (hall hd).2⟩⟩
    show Durable d.medium m.toGeneration7
    rw [hmedium]
    exact Durable.of_settled hrecovers

end RusticOs.Fs
