import RusticOs.Proofs.Replacement7
import RusticOs.Proofs.Retry7

/-!
# `RusticOs.Proofs.Lending7`: an owner that is lent to a publication

`Begun o staged` is what a pollable publication starts from: a ready owner, and a candidate
whose payload is stored once the payload commands are done. Wherever its commands are cut,
the owner is ready with the old contents (`Begun.kept`), ready with the new ones
(`Begun.done`), or the disk stores one of the two (`Begun.images`).

`Lent before after staged p` is the invariant of a guard `p` that was begun with the contents
`before` and may publish `after`. Polls and aborts keep it (`Lent.poll`, `Lent.abort`), a drop
gives back an owner that settles (`Lent.drop`), and at every moment the disk stores one of the
two contents (`Lent.images`). On a disk that answers every command enough polls settle the
guard (`Lent.drive`).
-/

set_option autoImplicit false

namespace RusticOs.Fs

open RusticOs.Lib

/-! ### Begun publications -/

/-- The contents a publication leaves. -/
def Origin.after (o : Origin) : Contents7 :=
  publishedState o.world.volume.header o.nodes o.records o.map
    (applyWrites o.world.disk.medium.view (writesOf o.extra))

/-- What a publication is begun from. -/
structure Begun (o : Origin) (staged : Fin 2 → List UInt8) : Prop where
  ready : Ready o.world staged
  sound : o.Sound
  stored : AllStored (applyWrites o.world.disk.medium.view (writesOf o.extra)) o.nodes o.records
  takes : o.candidate.Takes o.world.volume
  apart : ∀ (j : Fin 2) (other : StageSlot), o.world.volume.stages[j] = some other →
    (runSectors o.candidate.added.runs).Disjoint (runSectors other.freshRuns)

/-- Payload commands write the added runs. -/
theorem Origin.mem_extra {o : Origin} {w : Nat × Block} (hw : w ∈ writesOf o.extra) :
    ∃ s ∈ runSectors o.candidate.added.runs, w.1 = payloadSector + s := by
  rw [Origin.extra, writesOf_append, List.mem_append] at hw
  rcases hw with hw | hw
  · obtain ⟨c, hc, hwc⟩ := List.mem_flatMap.mp hw
    unfold Origin.writes at hc
    split at hc
    · obtain ⟨i, hi, rfl⟩ := List.mem_mapIdx.mp hc
      rw [List.mem_singleton.mp hwc]
      exact ⟨_, List.getElem_mem hi, rfl⟩
    · cases hc
  · obtain ⟨c, hc, hwc⟩ := List.mem_flatMap.mp hw
    split at hc
    · rw [List.mem_singleton.mp hc] at hwc
      cases hwc
    · cases hc

/-- The payload sectors a publication writes are those of the added runs. -/
theorem Origin.mem_commands {o : Origin} {k s : Nat} {w : Nat × Block}
    (hw : w ∈ writesOf (o.commands.take k)) (hs : w.1 = payloadSector + s) :
    s ∈ runSectors o.candidate.added.runs := by
  obtain ⟨c, hc, hwc⟩ := List.mem_flatMap.mp hw
  have hall : w ∈ writesOf o.commands := List.mem_flatMap.mpr ⟨c, List.mem_of_mem_take hc, hwc⟩
  rw [Origin.commands, publicationCommands, twoPhase, writesOf_append, writesOf_append,
    List.mem_append, List.mem_append] at hall
  have hheader := headerSector_le (o.world.volume.header.generation ^^^ 1)
  have hnodes := nodesSector_le (o.world.volume.header.generation ^^^ 1)
  rcases hall with (hall | hall) | hall
  · obtain ⟨t, ht, hwt⟩ := Origin.mem_extra hall
    have hst : s = t := by omega
    exact hst ▸ ht
  · obtain ⟨j, hj, rfl⟩ := writesOf_generation_lt hall
    rw [payloadSector] at hs
    dsimp only at hs
    omega
  · simp only [writesOf, List.flatMap_cons, List.flatMap_nil, Command.writes, List.nil_append,
      List.append_nil, List.mem_singleton] at hall
    rw [hall, payloadSector] at hs
    dsimp only at hs
    omega

theorem Origin.view_commands (o : Origin) (k : Nat) {s : Nat}
    (hs : s ∉ runSectors o.candidate.added.runs) :
    (o.world.disk.medium.after (o.commands.take k)).view (payloadSector + s)
      = o.world.disk.medium.view (payloadSector + s) := by
  rw [Medium.view_after, applyWrites_of_not_mem]
  exact fun w hw hws => hs (Origin.mem_commands hw hws)

namespace Begun

variable {o : Origin} {staged : Fin 2 → List UInt8} {w : World7}

variable (h : Begun o staged)
include h

theorem publishes :
    Publishes o.world.volume.toGeneration7 o.world.disk.medium.view o.extra
      o.world.volume.header o.nodes o.records o.map where
  continues := Continues.refl _
  publishable := h.sound.publishable
  free := fun w hw => by
    obtain ⟨s, hs, hws⟩ := Origin.mem_extra hw
    exact ⟨s, hws, (h.sound.fits.added s hs).2⟩
  stored := h.stored

/-- Allocated sectors are not written. -/
theorem view_allocated (k : Nat) {s : Nat} (hs : Bitmap.get o.world.volume.map s = true) :
    (o.world.disk.medium.after (o.commands.take k)).view (payloadSector + s)
      = o.world.disk.medium.view (payloadSector + s) := by
  refine o.view_commands k fun hadded => ?_
  rw [(h.sound.fits.added s hadded).2] at hs
  cases hs

/-- Sectors planned by an open stage are not written. -/
theorem view_planned (k : Nat) {j : Fin 2} {slot : StageSlot}
    (hj : o.world.volume.stages[j] = some slot) {s : Nat} (hs : s ∈ runSectors slot.freshRuns) :
    (o.world.disk.medium.after (o.commands.take k)).view (payloadSector + s)
      = o.world.disk.medium.view (payloadSector + s) :=
  o.view_commands k fun hadded => h.apart j slot hj hadded hs

/-- Until the header is written the owner can go on with what it had. -/
theorem kept {k : Nat} (hk : k ≤ o.extra.length + 101)
    (hvolume : w.volume = { o.world.volume with fenced := false })
    (hmedium : w.disk.medium = o.world.disk.medium.after (o.commands.take k))
    (hidle : w.disk.inflight = none) : Ready w staged ∧ w.contents = o.world.contents := by
  have hdurable := h.ready.durable.publish_before h.publishes hk
  have hstages : StagesHold o.world.volume
      (o.world.disk.medium.after (o.commands.take k)).view staged :=
    h.ready.stages.transport h.ready.valid rfl
      (fun j slot hj s hs => ⟨((h.ready.stages.holds j slot hj).free hs).2,
        h.view_planned k hj hs⟩)
      (fun _ hr => hr) (fun s hs => h.view_allocated k hs) h.ready.stages.room
  have hcontents : contents _ (o.world.disk.medium.after (o.commands.take k)).view = _ :=
    contents_congr h.ready.durable.recovers.valid fun s hs => h.view_allocated k hs
  refine ⟨⟨by rw [hvolume], hidle, ?_, ?_⟩, ?_⟩
  · rw [hmedium, hvolume]
    exact hdurable
  · rw [hmedium, hvolume]
    exact hstages.congr rfl rfl rfl fun _ => rfl
  · rw [World7.contents, hmedium, hvolume]
    exact hcontents

/-- Once every command is done the owner holds the candidate. -/
theorem done (hvolume : w.volume = o.committed)
    (hmedium : w.disk.medium = o.world.disk.medium.after o.commands)
    (hidle : w.disk.inflight = none) : Ready w staged ∧ w.contents = o.after := by
  have hdurable := h.ready.durable.publish h.publishes
  have hall : o.commands.take o.commands.length = o.commands := List.take_length
  have hstages : StagesHold (o.candidate.apply o.world.volume)
      (o.world.disk.medium.after o.commands).view staged :=
    h.ready.stages.applyCandidate h.ready.valid h.sound.fits h.takes h.apart
      (fun j slot hj s hs => hall ▸ h.view_planned o.commands.length hj hs)
      (fun s hs => hall ▸ h.view_allocated o.commands.length hs)
  refine ⟨⟨by rw [hvolume]; rfl, hidle, ?_, ?_⟩, ?_⟩
  · rw [hmedium, hvolume]
    exact hdurable
  · rw [hmedium, hvolume]
    exact hstages.congr rfl rfl rfl fun _ => rfl
  · rw [World7.contents, hmedium, hvolume]
    refine contents_of_payload (g := published _ _ _ _) fun s => ?_
    rw [Origin.commands, after_publicationCommands]
    exact publishedContents_payload _ _ _ _ _ _ s

/-- Wherever the commands are cut, the disk stores the old contents or the new ones. -/
theorem images {d : Disk} {i : Nat}
    (hmedium : d.medium = o.world.disk.medium.after (o.commands.take i)
      ∨ d.medium = o.world.disk.medium.after (o.commands.take (i + 1)))
    (hinflight : d.inflight = none
      ∨ d.medium = o.world.disk.medium.after (o.commands.take i)
        ∧ ∃ step c, StepAt o i step c ∧ d.inflight = some c)
    {img : Nat → Block} (himg : d.Image img) :
    Stores img o.world.contents ∨ Stores img o.after := by
  have hcut : ∀ k, (o.world.disk.medium.after (o.commands.take k)).Image img →
      Stores img o.world.contents ∨ Stores img o.after := by
    intro k hk
    rcases h.ready.durable.publish_stores h.publishes hk with hold | ⟨-, hnew⟩
    · exact Or.inl hold
    · exact Or.inr hnew
  rcases hinflight with hnone | ⟨hm, step, c, hstep, hsome⟩
  · rw [Device.image_of_inflight_none hnone] at himg
    rcases hmedium with hm | hm
    · exact hcut i (hm ▸ himg)
    · exact hcut (i + 1) (hm ▸ himg)
  · rcases Device.image_of_inflight hsome himg with himg | himg
    · exact hcut i (hm ▸ himg)
    · rw [hm, ← hstep.after_succ] at himg
      exact hcut (i + 1) himg

end Begun

/-! ### Lent owners -/

/-- A guard that was begun with the contents `before` and may publish `after`. -/
inductive Lent (before : Contents7) (after : Option Contents7) (staged : Fin 2 → List UInt8)
    (p : PollPublication7) : Prop where
  | resting {o : Origin} {i : Nat} (begun : Begun o staged) (same : o.world.contents = before)
      (publishes : after = some o.after) (rests : Resting o p i)
  | waiting {o : Origin} {i : Nat} (begun : Begun o staged) (same : o.world.contents = before)
      (publishes : after = some o.after) (waits : Waiting o p i)
  | probing {k : Check} {i : Nat} (ready : Ready k.world staged) (sound : k.Sound)
      (same : k.world.contents = before) (publishes : after = none) (rests : ProbeRests k p i)
  | probed {k : Check} {i : Nat} (ready : Ready k.world staged) (sound : k.Sound)
      (same : k.world.contents = before) (publishes : after = none) (waits : ProbeWaits k p i)
  | committed (phase : p.phase = .committed) (pending : p.pending = false)
      (ready : Ready p.world staged) (contents : p.world.contents = after.getD before)
      (told : ∀ r, p.outcome = some r → p.world.volume.Retains r)
  | stopped (phase : p.phase = .cancelled ∨ p.phase = .failed) (pending : p.pending = false)
      (ready : Ready p.world staged) (contents : p.world.contents = before)
  | fenced (phase : p.phase = .uncertain) (pending : p.pending = false)
      (fenced : p.world.volume.fenced = true)
      (images : ∀ img, p.world.disk.Image img →
        Stores img before ∨ ∃ c, after = some c ∧ Stores img c)

section
variable {before : Contents7} {after : Option Contents7} {staged : Fin 2 → List UInt8}
  {p : PollPublication7}

variable {k : Check} {o : Origin} {i : Nat} {stopping : Bool}
  {r : Poll (Except Error Publication7Phase) × PollPublication7}

/-- The owner of a check is as it was, on a disk with the same contents. -/
theorem probe_kept (h : Ready k.world staged) {w : World7}
    (hvolume : w.volume = { k.world.volume with fenced := false })
    (hmedium : w.disk.medium = k.world.disk.medium) (hidle : w.disk.inflight = none) :
    Ready w staged ∧ w.contents = k.world.contents := by
  have hsame : ({ k.world.volume with fenced := false } : Volume7) = k.world.volume := by
    rw [← h.unfenced]
  rw [hsame] at hvolume
  refine ⟨⟨by rw [hvolume]; exact h.unfenced, hidle, ?_, ?_⟩, ?_⟩
  · rw [hvolume, hmedium]
    exact h.durable
  · rw [hvolume, hmedium]
    exact h.stages
  · rw [World7.contents, hvolume, hmedium]
    rfl

/-- Every image of a check's disk stores the contents it was begun with. -/
theorem probe_images (h : Ready k.world staged) {d : Disk}
    (hmedium : d.medium = k.world.disk.medium)
    (hinflight : d.inflight = none ∨ ∃ s, d.inflight = some (.read s)) {img : Nat → Block}
    (himg : d.Image img) : Stores img k.world.contents := by
  have hmed : d.medium.Image img := by
    rcases hinflight with hnone | ⟨s, hs⟩
    · exact (Device.image_of_inflight_none hnone).mp himg
    · exact (Device.image_of_inflight hs himg).elim id id
  exact h.durable.stores (hmedium ▸ hmed)

theorem SettleRan.lent (h : SettleRan o i stopping r) (begun : Begun o staged)
    (same : o.world.contents = before) (publishes : after = some o.after) :
    Lent before after staged r.2 := by
  cases h with
  | moved rests goes => exact .resting begun same publishes rests
  | committed done last goes =>
    obtain ⟨hready, hcontents⟩ := begun.done done.volume done.medium done.inflight
    refine .committed done.phase done.pending hready (by rw [publishes]; exact hcontents)
      fun r hr => ⟨o.candidate.recordSlot, ?_⟩
    rw [done.volume, ← hr, done.outcome]
    exact Vector.setAt_self _ _ _
  | cancelled ended stops =>
    obtain ⟨hready, hcontents⟩ :=
      begun.kept ended.before ended.volume ended.medium ended.inflight
    exact .stopped (Or.inl ended.phase) ended.pending hready (hcontents.trans same)

theorem PollRan.lent (h : PollRan o i stopping r) (begun : Begun o staged)
    (same : o.world.contents = before) (publishes : after = some o.after) :
    Lent before after staged r.2 := by
  cases h with
  | pending waits stops => exact .waiting begun same publishes waits
  | settled settled => exact settled.lent begun same publishes
  | failed failed =>
    refine .fenced failed.phase failed.pending (by rw [failed.volume]; rfl) fun img himg => ?_
    rcases begun.images failed.medium (Or.inl failed.inflight) himg with hold | hnew
    · exact Or.inl (same ▸ hold)
    · exact Or.inr ⟨_, publishes, hnew⟩

section
variable (ready : Ready k.world staged) (same : k.world.contents = before)
  (publishes : after = none)
include ready same publishes

theorem ProbeDecided.lent (h : ProbeDecided k i r) (sound : k.Sound) :
    Lent before after staged r.2 := by
  cases h with
  | matched ended outcome agrees =>
    obtain ⟨hready, hcontents⟩ := probe_kept ready ended.volume ended.medium ended.inflight
    refine .committed ended.phase ended.pending hready
      (by rw [publishes]; exact hcontents.trans same) fun r hr => ?_
    obtain rfl := Option.some.inj (outcome.symm.trans hr)
    rw [ended.volume]
    exact sound.retained
  | conflict ended other =>
    obtain ⟨hready, hcontents⟩ := probe_kept ready ended.volume ended.medium ended.inflight
    exact .stopped (Or.inr ended.phase) ended.pending hready (hcontents.trans same)

theorem ProbeSettled.lent (h : ProbeSettled k i stopping r) (sound : k.Sound) :
    Lent before after staged r.2 := by
  cases h with
  | moved rests goes => exact .probing ready sound same publishes rests
  | decided decided goes => exact decided.lent ready same publishes sound
  | cancelled ended stops =>
    obtain ⟨hready, hcontents⟩ := probe_kept ready ended.volume ended.medium ended.inflight
    exact .stopped (Or.inl ended.phase) ended.pending hready (hcontents.trans same)

theorem ProbeRan.lent (h : ProbeRan k stopping r) (sound : k.Sound) :
    Lent before after staged r.2 := by
  cases h with
  | pending waits stops => exact .probed ready sound same publishes waits
  | settled settled => exact settled.lent ready same publishes sound
  | failed ended =>
    refine .fenced ended.phase ended.pending (by rw [ended.volume]) fun img himg => Or.inl ?_
    rw [← same]
    exact probe_images ready ended.medium (Or.inl ended.inflight) himg

end

/-- No poll moves the publication any more. -/
def PollPublication7.Settled (p : PollPublication7) : Prop :=
  p.phase = .committed ∨ p.phase = .cancelled ∨ p.phase = .failed ∨ p.phase = .uncertain

/-- A guard that has settled answers from its phase. -/
theorem pollAdvance_settled (h : p.Settled) (settled : Bool) : (p.pollAdvance settled).2 = p := by
  unfold PollPublication7.pollAdvance
  rcases h with h | h | h | h <;> rw [h]

theorem abort_settled (h : p.Settled) : p.abortBeforeHeader.2 = p := by
  unfold PollPublication7.abortBeforeHeader
  rcases h with h | h | h | h <;> rw [h]

theorem drop_settled (h : p.Settled) (hpending : p.pending = false) : p.drop = p.world := by
  unfold PollPublication7.drop
  rw [hpending]
  rcases h with h | h | h | h <;> rw [h] <;> rfl

/-- A poll keeps the invariant of a lent owner. -/
theorem Lent.poll (h : Lent before after staged p) (settled : Bool) :
    Lent before after staged (p.pollAdvance settled).2 := by
  cases h with
  | resting begun same publishes rests =>
    exact (rests.poll begun.sound settled).lent begun same publishes
  | waiting begun same publishes waits =>
    exact (waits.poll begun.sound settled).lent begun same publishes
  | probing ready sound same publishes rests =>
    exact (rests.poll sound settled).lent ready same publishes sound
  | probed ready sound same publishes waits =>
    exact (waits.poll sound settled).lent ready same publishes sound
  | committed phase pending ready contents told =>
    rw [pollAdvance_settled (Or.inl phase)]
    exact .committed phase pending ready contents told
  | stopped phase pending ready contents =>
    rw [pollAdvance_settled (Or.inr (phase.imp_right Or.inl))]
    exact .stopped phase pending ready contents
  | fenced phase pending fenced images =>
    rw [pollAdvance_settled (Or.inr (Or.inr (Or.inr phase)))]
    exact .fenced phase pending fenced images

/-- An abort keeps the invariant of a lent owner. -/
theorem Lent.abort (h : Lent before after staged p) :
    Lent before after staged p.abortBeforeHeader.2 := by
  cases h with
  | resting begun same publishes rests =>
    rcases rests.abort with ⟨q, habort, ended⟩ | ⟨-, habort⟩
    · obtain ⟨hready, hcontents⟩ :=
        begun.kept ended.before ended.volume ended.medium ended.inflight
      rw [habort]
      exact .stopped (Or.inl ended.phase) ended.pending hready (hcontents.trans same)
    · rw [habort]
      exact .resting begun same publishes rests
  | waiting begun same publishes waits =>
    rcases waits.abort with ⟨habort, hwaits, -⟩ | ⟨-, habort⟩
    · rw [habort]
      exact .waiting begun same publishes hwaits
    · rw [habort]
      exact .waiting begun same publishes waits
  | probing ready sound same publishes rests =>
    obtain ⟨q, habort, ended⟩ := rests.abort
    obtain ⟨hready, hcontents⟩ := probe_kept ready ended.volume ended.medium ended.inflight
    rw [habort]
    exact .stopped (Or.inl ended.phase) ended.pending hready (hcontents.trans same)
  | probed ready sound same publishes waits =>
    obtain ⟨habort, hwaits⟩ := waits.abort
    rw [habort]
    exact .probed ready sound same publishes hwaits
  | committed phase pending ready contents told =>
    rw [abort_settled (Or.inl phase)]
    exact .committed phase pending ready contents told
  | stopped phase pending ready contents =>
    rw [abort_settled (Or.inr (phase.imp_right Or.inl))]
    exact .stopped phase pending ready contents
  | fenced phase pending fenced images =>
    rw [abort_settled (Or.inr (Or.inr (Or.inr phase)))]
    exact .fenced phase pending fenced images

/-- A guard whose phase is `Committed` has published. -/
theorem Lent.done (h : Lent before after staged p) (hphase : p.phase = .committed) :
    p.pending = false ∧ Ready p.world staged ∧ p.world.contents = after.getD before
      ∧ ∀ r, p.outcome = some r → p.world.volume.Retains r := by
  cases h with
  | committed phase pending ready contents told => exact ⟨pending, ready, contents, told⟩
  | resting begun same publishes rests =>
    rw [rests.phase] at hphase
    rcases Step.restPhase_cases _ with h | h | h <;> exact nomatch h.symm.trans hphase
  | waiting begun same publishes waits =>
    have hstep := waits.phase.symm.trans hphase
    cases h : PollPublication7.step _ <;> (rw [h] at hstep; exact nomatch hstep)
  | probing ready sound same publishes rests => exact nomatch rests.phase.symm.trans hphase
  | probed ready sound same publishes waits => exact nomatch waits.phase.symm.trans hphase
  | stopped phase pending ready contents =>
    rcases phase with h | h <;> exact nomatch h.symm.trans hphase
  | fenced phase pending fenced images => exact nomatch phase.symm.trans hphase

/-- At every moment the disk of a lent owner stores the contents before or after. -/
theorem Lent.images (h : Lent before after staged p) {img : Nat → Block}
    (himg : p.world.disk.Image img) : Stores img before ∨ ∃ c, after = some c ∧ Stores img c := by
  cases h with
  | resting begun same publishes rests =>
    rcases begun.images (Or.inl rests.medium) (Or.inl rests.inflight) himg with hold | hnew
    · exact Or.inl (same ▸ hold)
    · exact Or.inr ⟨_, publishes, hnew⟩
  | waiting begun same publishes waits =>
    obtain ⟨c, hissuing, hinflight⟩ := waits.issuing
    rcases begun.images (Or.inl hissuing.medium)
      (Or.inr ⟨hissuing.medium, _, c, hissuing.tracks.step, hinflight⟩) himg with hold | hnew
    · exact Or.inl (same ▸ hold)
    · exact Or.inr ⟨_, publishes, hnew⟩
  | probing ready sound same publishes rests =>
    exact Or.inl (same ▸ probe_images ready rests.probes.medium (Or.inl rests.inflight) himg)
  | probed ready sound same publishes waits =>
    have hread := waits.inflight.trans
      (checkCommands_getElem? (List.getElem?_eq_getElem waits.some))
    exact Or.inl (same ▸ probe_images ready waits.probes.medium (Or.inr ⟨_, hread⟩) himg)
  | committed phase pending ready contents told =>
    have hstores := ready.durable.stores ((Device.image_of_inflight_none ready.idle).mp himg)
    change Stores img p.world.contents at hstores
    rw [contents] at hstores
    cases after with
    | none => exact Or.inl hstores
    | some c => exact Or.inr ⟨c, rfl, hstores⟩
  | stopped phase pending ready contents =>
    have hstores := ready.durable.stores ((Device.image_of_inflight_none ready.idle).mp himg)
    change Stores img p.world.contents at hstores
    exact Or.inl (contents ▸ hstores)
  | fenced phase pending fenced images => exact images img himg

/-- Giving back an owner whose publication has not committed. -/
theorem drop_kept (hready : Ready (p.world.setFenced false) staged)
    (hcontents : (p.world.setFenced false).contents = before) (hpending : p.pending = false)
    (hphase : p.phase = .preparing ∨ p.phase = .readyToPublish ∨ p.phase = .retrying) :
    Settles before after staged p.drop := by
  have hdrop : p.drop = p.world.setFenced false := by
    unfold PollPublication7.drop
    rw [hpending]
    rcases hphase with h | h | h <;> rw [h] <;> rfl
  rw [hdrop]
  exact .kept hready hcontents

theorem drop_fenced (hdrop : p.pending = true ∨ p.phase = .settling)
    (himages : ∀ img, p.world.disk.Image img →
      Stores img before ∨ ∃ c, after = some c ∧ Stores img c) :
    Settles before after staged p.drop := by
  unfold PollPublication7.drop
  rw [if_pos hdrop]
  exact .fenced rfl himages

/-- An owner is given back with the contents before or after, or fenced. -/
theorem Lent.drop (h : Lent before after staged p) : Settles before after staged p.drop := by
  have himages : ∀ img, p.world.disk.Image img →
      Stores img before ∨ ∃ c, after = some c ∧ Stores img c := fun img himg => h.images himg
  cases h with
  | @resting o i begun same publishes rests =>
    obtain ⟨c, ht⟩ := rests.tracks
    by_cases hlast : p.step = .headerFlush
    · refine drop_fenced (Or.inr ?_) himages
      rw [rests.phase, hlast]
      rfl
    · have hbefore : i ≤ o.extra.length + 101 := by
        rcases ht.step.place with ⟨-, hi⟩ | ⟨-, hi⟩ | ⟨hst, -⟩ | ⟨-, hi⟩
        · omega
        · omega
        · exact absurd hst hlast
        · omega
      obtain ⟨hready, hcontents⟩ := begun.kept (w := p.world.setFenced false) hbefore (by
        show ({ p.world.volume with fenced := false } : Volume7) = _
        rw [ht.volume]) rests.medium rests.inflight
      refine drop_kept hready (hcontents.trans same) rests.pending ?_
      rw [rests.phase]
      cases hst : p.step <;> simp_all [Step.restPhase]
  | waiting begun same publishes waits | probed ready sound same publishes waits =>
    exact drop_fenced (Or.inl waits.pending) himages
  | probing ready sound same publishes rests =>
    obtain ⟨hready, hcontents⟩ := probe_kept (w := p.world.setFenced false) ready (by
      show ({ p.world.volume with fenced := false } : Volume7) = _
      rw [rests.probes.volume]) rests.probes.medium rests.inflight
    exact drop_kept hready (hcontents.trans same) rests.pending (Or.inr (Or.inr rests.phase))
  | committed phase pending ready contents told =>
    rw [drop_settled (Or.inl phase) pending]
    cases after with
    | none => exact .kept ready contents
    | some c => exact .done ready (congrArg some contents.symm)
  | stopped phase pending ready contents =>
    rw [drop_settled (Or.inr (phase.imp_right Or.inl)) pending]
    exact .kept ready contents
  | fenced phase pending fenced images =>
    rw [drop_settled (Or.inr (Or.inr (Or.inr phase))) pending]
    exact .fenced fenced images

/-! ### Driving a guard to its end -/

/-- Poll `n` times, each command settling at once. -/
def PollPublication7.drive (p : PollPublication7) : Nat → PollPublication7
  | 0 => p
  | n + 1 => PollPublication7.drive (p.pollAdvance true).2 n

/-- The end of a guard on a disk that answers every command. -/
structure Driven (before : Contents7) (after : Option Contents7) (staged : Fin 2 → List UInt8)
    (p : PollPublication7) : Prop where
  phase : p.phase = .committed ∨ after = none ∧ p.phase = .failed
  pending : p.pending = false
  ready : Ready p.world staged
  contents : p.world.contents = after.getD before

/-- Polling a guard that has settled changes nothing. -/
theorem drive_settled (h : p.Settled) (n : Nat) : p.drive n = p := by
  induction n with
  | zero => rfl
  | succ n ih =>
    rw [PollPublication7.drive, pollAdvance_settled h]
    exact ih

theorem Resting.drive (ho : o.Sound) (n : Nat) (hn : n = o.extra.length + 103 - i)
    (h : Resting o p i) (hd : p.world.disk.AllDone) : Committed o (p.drive n) := by
  -- one command a poll
  induction n generalizing p i with
  | zero =>
    obtain ⟨c, ht⟩ := h.tracks
    have hlt := (List.getElem?_eq_some_iff.mp ht.step.command).1
    rw [o.length_commands] at hlt
    omega
  | succ n ih =>
    obtain ⟨q, c, hissuing, hworld, hstop, hpoll⟩ := h.prepare ho
    have hqd : q.world.disk.AllDone := hworld ▸ hd
    obtain ⟨hsettle, hdisk⟩ := hissuing.poll_answers ho ⟨hqd.1, fun n _ => hqd.2 n⟩
    have hdone : (q.pollPrepared true).2.world.disk.AllDone := by
      rw [hdisk]
      exact ⟨hqd.1, fun n => hqd.2 (n + 1)⟩
    rw [PollPublication7.drive, hpoll true]
    generalize q.pollPrepared true = r at hsettle hdone
    cases hsettle with
    | moved rests goes => exact ih (by omega) rests hdone
    | cancelled ended stops => exact nomatch hstop.symm.trans stops
    | committed done last goes =>
      rw [drive_settled (Or.inl done.phase)]
      exact done

/-- A check that was decided stays so. -/
theorem ProbeDecided.driven (h : ProbeDecided k i r) (ready : Ready k.world staged) (n : Nat) :
    Driven k.world.contents none staged (r.2.drive n) := by
  cases h with
  | matched ended outcome agrees =>
    obtain ⟨hready, hcontents⟩ := probe_kept ready ended.volume ended.medium ended.inflight
    rw [drive_settled (Or.inl ended.phase)]
    exact ⟨Or.inl ended.phase, ended.pending, hready, hcontents⟩
  | conflict ended other =>
    obtain ⟨hready, hcontents⟩ := probe_kept ready ended.volume ended.medium ended.inflight
    rw [drive_settled (Or.inr (Or.inr (Or.inl ended.phase)))]
    exact ⟨Or.inr ⟨rfl, ended.phase⟩, ended.pending, hready, hcontents⟩

theorem ProbeRests.drive (ready : Ready k.world staged) (sound : k.Sound) (n : Nat)
    (hn : n + i = (runSectors k.record.runs).length) (h : ProbeRests k p i)
    (hd : p.world.disk.AllDone) : Driven k.world.contents none staged (p.drive (n + 1)) := by
  -- one sector a poll
  induction n generalizing p i with
  | zero =>
    rcases h.probes.place with hlt | hnone
    · omega
    · exact (h.finish sound hnone true).driven ready 0
  | succ n ih =>
    obtain ⟨hsettle, hdisk⟩ := h.poll_answers sound
      (List.getElem?_eq_getElem (show i < (runSectors k.record.runs).length by omega))
      ⟨hd.1, fun n _ => hd.2 n⟩
    have hdone : (p.pollAdvance true).2.world.disk.AllDone := by
      rw [hdisk]
      exact ⟨hd.1, fun n => hd.2 (n + 1)⟩
    rw [PollPublication7.drive]
    generalize p.pollAdvance true = r at hsettle hdone
    cases hsettle with
    | moved rests goes => exact ih (by omega) rests hdone
    | decided decided goes => exact decided.driven ready (n + 1)
    | cancelled ended stops => exact nomatch stops

/-- A guard with nothing outstanding that was not asked to stop settles once its commands
are answered. -/
theorem Lent.drive (h : Lent before after staged p) (hd : p.world.disk.AllDone)
    (hphase : p.phase ≠ .cancelled ∧ p.phase ≠ .failed ∧ p.phase ≠ .uncertain) :
    ∃ n, Driven before after staged (p.drive n) := by
  cases h with
  | resting begun same publishes rests =>
    have hdone := rests.drive begun.sound _ rfl hd
    obtain ⟨hready, hcontents⟩ := begun.done hdone.volume hdone.medium hdone.inflight
    exact ⟨_, Or.inl hdone.phase, hdone.pending, hready, by rw [publishes]; exact hcontents⟩
  | waiting begun same publishes waits =>
    obtain ⟨c, -, hinflight⟩ := waits.issuing
    exact nomatch hinflight.symm.trans hd.1
  | @probing k i ready sound same publishes rests =>
    subst same publishes
    rcases rests.probes.place with hlt | hnone
    · exact ⟨_, rests.drive ready sound ((runSectors k.record.runs).length - i) (by omega) hd⟩
    · exact ⟨1, (rests.finish sound hnone true).driven ready 0⟩
  | probed ready sound same publishes waits =>
    exact nomatch (waits.inflight.symm.trans hd.1).symm.trans
      (checkCommands_getElem? (List.getElem?_eq_getElem waits.some))
  | committed phase pending ready contents told =>
    exact ⟨0, Or.inl phase, pending, ready, contents⟩
  | stopped phase pending ready contents =>
    rcases phase with h | h
    · exact absurd h hphase.1
    · exact absurd h hphase.2.1
  | fenced phase pending fenced images => exact absurd phase hphase.2.2

end

end RusticOs.Fs
