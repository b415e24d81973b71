import RusticOs.Proofs.Creation7

/-!
# `RusticOs.Proofs.Agreement7`: polled and synchronous publications write the same bytes

A pollable publication encodes the new generation from the owner's tables and a delta, and never
changes the owner before its last command. The synchronous writer changes the owner first and
encodes the result. `polled_publication_agrees` says that both hand the device the same commands:
the hundred generation sectors, the flush, the header and the final flush.

* `Begins`: the ways a pollable publication starts, with the commands before its generation;
* `Tended`: what polls and aborts make of a guard;
* `Stands`: where a guard stands, from the commands it has issued so far.
-/

set_option autoImplicit false

namespace RusticOs.Fs

open RusticOs.Lib

/-! ### Guards under polls and aborts -/

/-- The ways a publication of `c` begins, with the commands it issues before its generation. -/
inductive Begins (w : World7) (c : Candidate7) :
    PollPublication7 → List (Command Block) → Prop where
  | payload (bytes : List UInt8) : Begins w c (.publish w c (some bytes))
      (((runSectors c.added.runs).mapIdx fun i s => .write (payloadSector + s)
        (payloadBlock (PollPublication7.payloadSlice bytes i))) ++ [.flush])
  | stored : Begins w c (.staged w c) [.flush]
  | change : Begins w c (.publish w c none) []

/-- A guard after polls, each settling its command or not, and aborts. -/
inductive Tended (start : PollPublication7) : PollPublication7 → Prop where
  | start : Tended start start
  | poll {p : PollPublication7} (before : Tended start p) (settled : Bool) :
      Tended start (p.pollAdvance settled).2
  | abort {p : PollPublication7} (before : Tended start p) : Tended start p.abortBeforeHeader.2

/-- Where a publication stands. -/
inductive Stands (o : Origin) (p : PollPublication7) : Prop where
  | resting (i : Nat) (rests : Resting o p i)
  | waiting (i : Nat) (waits : Waiting o p i)
  | committed (done : Committed o p)
  | cancelled (i : Nat) (ended : Cancelled o p i)
  | failed (i : Nat) (ended : Failed o p i)

section
variable {o : Origin} {p : PollPublication7} {i : Nat}

theorem PollRan.stands {stopping : Bool}
    {r : Poll (Except Error Publication7Phase) × PollPublication7} (h : PollRan o i stopping r) :
    Stands o r.2 := by
  cases h with
  | pending waiting stops => exact .waiting i waiting
  | failed failed => exact .failed i failed
  | settled settled =>
    cases settled with
    | moved resting goes => exact .resting (i + 1) resting
    | committed committed last goes => exact .committed committed
    | cancelled cancelled stops => exact .cancelled (i + 1) cancelled

theorem Stands.poll (ho : o.Sound) (h : Stands o p) (settled : Bool) :
    Stands o (p.pollAdvance settled).2 := by
  cases h with
  | resting i rests => exact (rests.poll ho settled).stands
  | waiting i waits => exact (waits.poll ho settled).stands
  | committed done =>
    rw [pollAdvance_settled (Or.inl done.phase)]
    exact .committed done
  | cancelled i ended =>
    rw [pollAdvance_settled (Or.inr (Or.inl ended.phase))]
    exact .cancelled i ended
  | failed i ended =>
    rw [pollAdvance_settled (Or.inr (Or.inr (Or.inr ended.phase)))]
    exact .failed i ended

theorem Stands.abort (h : Stands o p) : Stands o p.abortBeforeHeader.2 := by
  cases h with
  | resting i rests =>
    rcases rests.abort with ⟨q, hq, hcancelled⟩ | ⟨-, hq⟩
    · rw [hq]
      exact .cancelled i hcancelled
    · rw [hq]
      exact .resting i rests
  | waiting i waits =>
    rcases waits.abort with ⟨hq, hwaits, -⟩ | ⟨-, hq⟩
    · rw [hq]
      exact .waiting i hwaits
    · rw [hq]
      exact .waiting i waits
  | committed done =>
    rw [abort_settled (Or.inl done.phase)]
    exact .committed done
  | cancelled i ended =>
    rw [abort_settled (Or.inr (Or.inl ended.phase))]
    exact .cancelled i ended
  | failed i ended =>
    rw [abort_settled (Or.inr (Or.inr (Or.inr ended.phase)))]
    exact .failed i ended

theorem Tended.stands {start : PollPublication7} (ho : o.Sound) (hstart : Stands o start)
    (h : Tended start p) : Stands o p := by
  induction h with
  | start => exact hstart
  | poll _ settled ih => exact ih.poll ho settled
  | abort _ ih => exact ih.abort

/-- The device has seen the first commands of the publication, in order. -/
theorem Stands.log (h : Stands o p) :
    ∃ i, p.world.disk.log = o.world.disk.log ++ o.commands.take i := by
  cases h with
  | resting i rests => exact ⟨i, rests.log⟩
  | waiting i waits =>
    obtain ⟨c, hissuing, hinflight⟩ := waits.issuing
    rcases hissuing.issued with ⟨hnone, -⟩ | ⟨-, hlog⟩
    · exact nomatch hnone.symm.trans hinflight
    · exact ⟨i + 1, hlog⟩
  | committed done => exact ⟨o.commands.length, by rw [done.log, List.take_length]⟩
  | cancelled i ended => exact ⟨i, ended.log⟩
  | failed i ended => exact ⟨i + 1, ended.log⟩

theorem Step.restPhase_ne_committed (step : Step) : step.restPhase ≠ .committed := by
  cases step <;> simp [Step.restPhase]

theorem Step.waitPhase_ne_committed (step : Step) : step.waitPhase ≠ .committed := by
  cases step <;> simp [Step.waitPhase]

/-- Only the last command makes a publication committed. -/
theorem Stands.committed_of_phase (h : Stands o p) (hphase : p.phase = .committed) :
    Committed o p := by
  cases h with
  | resting i rests => exact absurd (rests.phase.symm.trans hphase) p.step.restPhase_ne_committed
  | waiting i waits => exact absurd (waits.phase.symm.trans hphase) p.step.waitPhase_ne_committed
  | committed done => exact done
  | cancelled i ended | failed i ended => exact nomatch ended.phase.symm.trans hphase

/-- Until then the owner's tables are as they were. -/
theorem Stands.volume (h : Stands o p) (hphase : p.phase ≠ .committed) :
    p.world.volume = { o.world.volume with fenced := p.world.volume.fenced } := by
  cases h with
  | resting i rests =>
    obtain ⟨c, ht⟩ := rests.tracks
    rw [ht.volume]
  | waiting i waits =>
    obtain ⟨c, hissuing, -⟩ := waits.issuing
    rw [hissuing.tracks.volume]
  | committed done => exact absurd done.phase hphase
  | cancelled i ended => rw [ended.volume]
  | failed i ended =>
    rw [ended.volume]
    rfl

end

/-! ### Agreement -/

/-- The owner with a candidate adopted under the header it had: what the synchronous writer
publishes. -/
def adoptedTables (v : Volume7) (c : Candidate7) : Volume7 := adoptCandidate v c v.header

section
variable {w : World7} {c : Candidate7}

/-- A publication that begins stands before its first command, and its commands are those before
its generation and those of the synchronous writer. -/
theorem Begins.origin {start : PollPublication7} {before : List (Command Block)}
    (h : Begins w c start before) (hidle : w.disk.inflight = none)
    (hfits : c.Fits w.volume.map)
    (hp : (c.apply w.volume).Publishable) :
    ∃ o : Origin, o.Sound ∧ Resting o start 0 ∧ o.world = w ∧ o.candidate = c
      ∧ o.commands = before ++ publicationCommands [] w.volume.header (c.nodes w.volume.nodes)
        (w.volume.records.setAt c.recordSlot (some c.record)) (c.map w.volume.map) := by
  cases h with
  | payload bytes =>
    refine ⟨⟨w, c, some bytes, true⟩, ⟨hp, hfits, fun _ _ => rfl⟩, publish_resting hidle bytes,
      rfl, rfl, ?_⟩
    simp [Origin.commands, Origin.extra, Origin.writes, publicationCommands, twoPhase,
      Origin.nodes, Origin.records, Origin.map]
  | stored =>
    refine ⟨⟨w, c, none, true⟩, ⟨hp, hfits, fun _ h => by cases h⟩, (change_resting hidle).2,
      rfl, rfl, ?_⟩
    simp [Origin.commands, Origin.extra, Origin.writes, publicationCommands, twoPhase,
      Origin.nodes, Origin.records, Origin.map]
  | change =>
    refine ⟨⟨w, c, none, false⟩, ⟨hp, hfits, fun _ h => by cases h⟩, (change_resting hidle).1,
      rfl, rfl, ?_⟩
    simp [Origin.commands, Origin.extra, Origin.writes, publicationCommands,
      Origin.nodes, Origin.records, Origin.map]

/-- What a guard that was begun with `before` has done, when the synchronous writer issues
`commands` and returns `header`. -/
structure Agrees (w : World7) (c : Candidate7) (before commands : List (Command Block))
    (header : Header7) (p : PollPublication7) : Prop where
  issued : ∃ i, p.world.disk.log = w.disk.log ++ (before ++ commands).take i
  unchanged : p.phase ≠ .committed →
    p.world.volume = { w.volume with fenced := p.world.volume.fenced }
  committed : p.phase = .committed → p.world.disk.log = w.disk.log ++ (before ++ commands)
    ∧ p.world.volume = { adoptCandidate w.volume c header with fenced := false }

/-- For a candidate that passes its check, the polled publication and the synchronous one of the
adopted tables issue the same 103 commands and end with the same header. On a device that answers
everything the polled one is committed. -/
theorem polled_publication_agrees (hidle : w.disk.inflight = none) (hfits : c.Fits w.volume.map)
    (hvalid : ((validateCandidate c).run w).1 = .ok ()) :
    ∃ commands header, commands.length = 103
      ∧ (∀ d : Disk, d.AllDone → ∃ d', (publishCandidate (adoptedTables w.volume c)).run d
          = (.ok header, d') ∧ d'.log = d.log ++ commands)
      ∧ (∀ start before p, Begins w c start before → Tended start p →
          Agrees w c before commands header p)
      ∧ (w.disk.AllDone → ∀ start before, Begins w c start before →
          ∃ n, (start.drive n).phase = .committed) := by
  rw [validateCandidate_run hfits] at hvalid
  have hp := candidateVerdict_eq_ok hvalid
  have hsync := @publishCandidate_follows (adoptedTables w.volume c) hp
  refine ⟨publicationCommands [] w.volume.header (c.nodes w.volume.nodes)
      (w.volume.records.setAt c.recordSlot (some c.record)) (c.map w.volume.map),
    publishedHeader w.volume.header (c.nodes w.volume.nodes)
      (w.volume.records.setAt c.recordSlot (some c.record)) (c.map w.volume.map), ?_, ?_, ?_, ?_⟩
  · rw [publicationCommands, length_twoPhase, List.length_append, length_generationWrites]
    rfl
  · intro d hd
    obtain ⟨hran, hdone⟩ := hsync d
    obtain ⟨d', hd', -⟩ := hdone hd
    rw [hd'] at hran
    cases hran with
    | finished _ medium inflight log idle => exact ⟨d', hd', log⟩
  · intro start before p hbegins htended
    obtain ⟨o, ho, hrests, hworld, hcand, hcommands⟩ := hbegins.origin hidle hfits hp
    have hstands := htended.stands ho (.resting 0 hrests)
    refine ⟨?_, fun hphase => ?_, fun hphase => ?_⟩
    · obtain ⟨i, hi⟩ := hstands.log
      exact ⟨i, by rw [hi, hworld, hcommands]⟩
    · rw [← hworld]
      exact hstands.volume hphase
    · have hdone := hstands.committed_of_phase hphase
      subst hworld hcand
      exact ⟨by rw [hdone.log, hcommands], hdone.volume⟩
  · intro hd start before hbegins
    obtain ⟨o, ho, hrests, hworld, hcand, hcommands⟩ := hbegins.origin hidle hfits hp
    have hdisk : start.world.disk = w.disk := by
      cases hbegins <;> rfl
    exact ⟨_, (hrests.drive ho _ rfl (hdisk ▸ hd)).phase⟩

end

/-- A replacement that writes one sector, gives one back and changes its file. -/
theorem polled_publication_agrees_replacing : ∃ (w : World7) (c : Candidate7),
    c.added.runs = [⟨1, 1⟩] ∧ c.released = [⟨0, 1⟩] ∧ (∃ node, c.nodeUpdate = some (4, node))
      ∧ w.disk.AllDone ∧ ∃ commands header, commands.length = 103
        ∧ (∀ d : Disk, d.AllDone → ∃ d', (publishCandidate (adoptedTables w.volume c)).run d
            = (.ok header, d') ∧ d'.log = d.log ++ commands)
        ∧ (∀ start before p, Begins w c start before → Tended start p →
            Agrees w c before commands header p)
        ∧ (w.disk.AllDone → ∀ start before, Begins w c start before →
            ∃ n, (start.drive n).phase = .committed) := by
  obtain ⟨w, c, hd, hfits, hvalid, hadded, hreleased, hnode⟩ := replacing_candidate
  exact ⟨w, c, hadded, hreleased, hnode, hd, polled_publication_agrees hd.1 hfits hvalid⟩

end RusticOs.Fs
