import RusticOs.Proofs.Streaming7

/-!
# `RusticOs.Proofs.Streamed7`: a streamed admission is a borrowed one

`prepareAdmission` writes or checks borrowed bytes while it is polled; a streamed admission has
written or checked them before `finishAdmission`. When the disk answers the payload commands, both
publications come to the same end (`streamAdmission_run`): they issue the same commands, and from
the payload flush on one is a copy of the other.

* `writeSectors_answers`: what the sectors of a stage do on a disk that answers them;
* `Twins`: the two publications after the payload;
* `SameEnd`: two publications that have settled alike.
-/

set_option autoImplicit false

namespace RusticOs.Fs

open RusticOs.Lib RusticOs.Lib.Fallible

/-! ### Sectors on a disk that answers -/

section
variable {w : World7} {staged : Fin 2 → List UInt8} {slot : StageSlot} {data : List UInt8}
  {sector n : Nat}

theorem writeSlot_answers (hdata : ¬ slot.Misfits data)
    (hsector : (runSectors slot.runs)[slot.written.toNat / 512]? = some sector)
    (hd : w.disk.Answers (n + 1)) :
    (writeSlot slot data).run w = (.ok (slot.next w.disk.medium.view sector data),
      { w with disk := w.disk.answered (slot.command sector data) }) := by
  rw [writeSlot_run, if_neg hdata, hsector]
  dsimp only
  rw [hd.execute]

/-- The commands for sectors from the `j`th on. -/
def StageSlot.commands (slot : StageSlot) (j : Nat) (sectors : List (List UInt8)) :
    List (Command Block) :=
  List.zipWith slot.command ((runSectors slot.runs).drop j) sectors

theorem commands_cons {sectors : List (List UInt8)} {j : Nat}
    (hsector : (runSectors slot.runs)[j]? = some sector) :
    slot.commands j (data :: sectors)
      = slot.command sector data :: slot.commands (j + 1) sectors := by
  obtain ⟨hlt, hget⟩ := List.getElem?_eq_some_iff.mp hsector
  rw [StageSlot.commands, List.drop_eq_getElem_cons hlt, List.zipWith_cons_cons, hget]
  rfl

/-- The sectors of a stage that are left, on a disk that answers their commands. -/
theorem writeSectors_answers (k : Nat) {bytes rest : List UInt8} (hk : k = sectorsFor rest.length)
    (h : Held w staged slot bytes) (hrest : bytes.length + rest.length = slot.length.toNat)
    (hd : w.disk.Answers (k + n)) :
    ∃ next, (writeSectors slot (chunks 512 k rest)).run w = (.ok next, { w with
          disk := w.disk.ran (slot.commands (bytes.length / 512) (chunks 512 k rest)) })
      ∧ Held { w with
          disk := w.disk.ran (slot.commands (bytes.length / 512) (chunks 512 k rest)) }
        staged next (bytes ++ rest) ∧ Walks next slot := by
  -- one sector of the rest at a time
  induction k generalizing w slot bytes rest with
  | zero =>
    obtain rfl := eq_nil_of_sectors hk
    have hnone : slot.commands (bytes.length / 512) (chunks 512 0 []) = [] :=
      List.zipWith_nil_right
    refine ⟨slot, ?_, ?_, .refl slot⟩
    · rw [hnone]
      rfl
    · rw [hnone, List.append_nil]
      exact h
  | succ k ih =>
    obtain ⟨hpos, hleft⟩ := sectors_succ hk
    have hwritten := h.holds.written
    have hdata := chunk_length hpos (hwritten ▸ hrest)
    have hn := h.holds.nextSector hdata
    obtain ⟨sector, hsector⟩ := h.exists_sector hn
    rw [Nat.add_right_comm] at hd
    have hmoved := (h.next hn hsector (d := w.disk.answered (slot.command sector (rest.take 512)))
      rfl h.ready.idle).1
    have hwalks := next_walks slot w.disk.medium.view sector (rest.take 512)
    obtain ⟨last, hrun, hheld, hlast⟩ := ih hleft hmoved (by
        rw [hwalks.length, List.length_append, List.length_take, List.length_drop]
        omega) (hd.answered _)
    have hcommands : slot.commands (bytes.length / 512) (chunks 512 (k + 1) rest)
        = slot.command sector (rest.take 512) :: (slot.next w.disk.medium.view sector
          (rest.take 512)).commands ((bytes ++ rest.take 512).length / 512)
            (chunks 512 k (rest.drop 512)) := by
      rw [hwritten] at hsector
      rw [chunks, commands_cons hsector]
      congr 1
      rw [StageSlot.commands, StageSlot.commands, hwalks.runs, hwalks.command]
      -- after a short sector nothing is left
      cases k with
      | zero => rw [chunks, List.zipWith_nil_right, List.zipWith_nil_right]
      | succ k =>
        have hstart := hn.start
        rw [hwritten] at hstart
        have hnext : (bytes ++ rest.take 512).length / 512 = bytes.length / 512 + 1 := by
          rw [List.length_append, List.length_take]
          unfold sectorsFor at hk
          omega
        rw [hnext]
    refine ⟨last, ?_, ?_, hlast.trans hwalks⟩
    · rw [hcommands, chunks, writeSectors, List.foldlM_cons, run_bind,
        run_mapError, writeSlot_answers hdata hsector hd]
      exact hrun
    · rw [hcommands]
      rw [List.append_assoc, List.take_append_drop] at hheld
      exact hheld

end

/-! ### Publications driven to their end -/

namespace PollPublication7

/-- What a publication has come to. -/
def answer (p : PollPublication7) : Except Error Record7 :=
  match p.result with
  | some record => .ok record
  | none => .error (p.error.getD .uncertain)

theorem drive_add (p : PollPublication7) (a b : Nat) : p.drive (a + b) = (p.drive a).drive b := by
  induction a generalizing p with
  | zero => rw [Nat.zero_add, drive]
  | succ a ih =>
    rw [Nat.add_right_comm, drive, drive]
    exact ih _

end PollPublication7

/-- Two publications that have settled alike, but for the counters. -/
structure SameEnd (c : StageCounters) (p q : PollPublication7) : Prop where
  left : p.Settled
  right : q.Settled
  answer : q.answer = p.answer
  drop : q.drop = p.drop.counted c

theorem World7.counted_eq {w v : World7} {c : StageCounters}
    (hvolume : v.volume = w.volume.counted c) (hdisk : v.disk = w.disk)
    (hnext : v.nextOwner = c.nextOwner) : v = w.counted c := by
  cases v
  subst hvolume hdisk hnext
  rfl

/-! ### The two publications after the payload -/

section
variable {w : World7} {candidate : Candidate7} {bytes : List UInt8} {d : Disk} {c : StageCounters}
  {p q : PollPublication7} {i : Nat}

/-- The borrowed publication. -/
abbrev Origin.borrows (w : World7) (candidate : Candidate7) (bytes : List UInt8) : Origin :=
  ⟨w, candidate, some bytes, true⟩

/-- The streamed one. -/
abbrev Origin.streams (w : World7) (d : Disk) (c : StageCounters) (candidate : Candidate7) :
    Origin := ⟨World7.counted { w with disk := d } c, candidate, none, true⟩

theorem commands_borrows (w : World7) (candidate : Candidate7) (bytes : List UInt8) (d : Disk)
    (c : StageCounters) : (Origin.borrows w candidate bytes).commands
      = (Origin.borrows w candidate bytes).writes
        ++ (Origin.streams w d c candidate).commands := by
  simp only [Origin.commands, Origin.extra, publicationCommands, twoPhase]
  simp only [if_true, List.append_assoc]
  rfl

/-- The streamed publication is where the borrowed one is, payload apart. -/
structure Twins (w : World7) (candidate : Candidate7) (bytes : List UInt8) (d : Disk)
    (c : StageCounters) (p q : PollPublication7) (i : Nat) : Prop where
  left : Resting (.borrows w candidate bytes) p
    ((Origin.borrows w candidate bytes).writes.length + i)
  right : Resting (.streams w d c candidate) q i
  disk : q.world.disk = p.world.disk

/-- Both have committed. -/
theorem SameEnd.committed (hp : Committed (.borrows w candidate bytes) p)
    (hq : Committed (.streams w d c candidate) q) (hdisk : q.world.disk = p.world.disk) :
    SameEnd c p q where
  left := Or.inl hp.phase
  right := Or.inl hq.phase
  answer := by
    rw [PollPublication7.answer, PollPublication7.answer, PollPublication7.result,
      PollPublication7.result, hp.phase, hq.phase, hp.outcome, hq.outcome]
    rfl
  drop := by
    rw [drop_settled (Or.inl hp.phase) hp.pending, drop_settled (Or.inl hq.phase) hq.pending]
    refine World7.counted_eq ?_ hdisk hq.owner
    rw [hp.volume, hq.volume]
    rfl

/-- The same command has failed for both. -/
theorem SameEnd.failed {a : Command Block} {j : Nat} {e : Error} {applied : Bool}
    (hp : Issuing (.borrows w candidate bytes) p j a)
    (hq : Issuing (.streams w d c candidate) q i a)
    (hdisk : q.world.disk = p.world.disk) (hidle : p.world.disk.inflight = none)
    (hr : p.world.disk.replies 0 = .failed e applied) :
    SameEnd c (p.pollPrepared true).2 (q.pollPrepared true).2 := by
  obtain ⟨hphase, hpending, herror, hworld⟩ := hp.poll_fails hidle hr
  obtain ⟨hphase', hpending', herror', hworld'⟩ := hq.poll_fails (hdisk ▸ hidle) (hdisk ▸ hr)
  have hend : ∀ {r : PollPublication7}, r.phase = .uncertain → r.Settled :=
    fun h => Or.inr (Or.inr (Or.inr h))
  refine ⟨hend hphase, hend hphase', ?_, ?_⟩
  · rw [PollPublication7.answer, PollPublication7.answer, PollPublication7.result,
      PollPublication7.result, hphase, hphase', herror, herror']
    rfl
  · rw [drop_settled (hend hphase) hpending, drop_settled (hend hphase') hpending', hworld, hworld']
    refine World7.counted_eq rfl ?_ hq.tracks.owner
    rw [hdisk]

theorem Twins.poll (ho : (Origin.borrows w candidate bytes).Sound)
    (ho' : (Origin.streams w d c candidate).Sound) (h : Twins w candidate bytes d c p q i) :
    Twins w candidate bytes d c (p.pollAdvance true).2 (q.pollAdvance true).2 (i + 1)
      ∨ SameEnd c (p.pollAdvance true).2 (q.pollAdvance true).2 := by
  obtain ⟨p', a, hp, hworld, hstop, hpoll⟩ := h.left.prepare ho
  obtain ⟨q', b, hq, hworld', hstop', hpoll'⟩ := h.right.prepare ho'
  have hsame : b = a := by
    have hleft := hp.tracks.step.command
    rw [commands_borrows w candidate bytes d c, List.getElem?_append_right (Nat.le_add_right _ _),
      Nat.add_sub_cancel_left, hq.tracks.step.command] at hleft
    exact Option.some.inj hleft
  subst hsame
  rw [hpoll true, hpoll' true]
  have hdisk : q'.world.disk = p'.world.disk := by rw [hworld, hworld', h.disk]
  have hidle : p'.world.disk.inflight = none := by rw [hworld]; exact h.left.inflight
  cases hr : p'.world.disk.replies 0 with
  | failed e applied => exact Or.inr (SameEnd.failed hp hq hdisk hidle hr)
  | done =>
    have hanswers : p'.world.disk.Answers 1 := ⟨hidle, fun n hn => by
      obtain rfl : n = 0 := by omega
      exact hr⟩
    obtain ⟨hsettle, hafter⟩ := hp.poll_answers ho hanswers
    obtain ⟨hsettle', hafter'⟩ := hq.poll_answers ho' (hdisk ▸ hanswers)
    have hdisks : (q'.pollPrepared true).2.world.disk = (p'.pollPrepared true).2.world.disk := by
      rw [hafter, hafter', hdisk]
    have hextra : (Origin.borrows w candidate bytes).extra.length
        = (Origin.borrows w candidate bytes).writes.length + 1 := List.length_append
    have hextra' : (Origin.streams w d c candidate).extra.length = 1 := rfl
    generalize p'.pollPrepared true = r at hsettle hdisks
    generalize q'.pollPrepared true = r' at hsettle' hdisks
    cases hsettle with
    | cancelled ended stops => exact nomatch hstop.symm.trans stops
    | moved rests goes =>
      cases hsettle' with
      | cancelled ended stops => exact nomatch hstop'.symm.trans stops
      | moved rests' goes' => exact Or.inl ⟨rests, rests', hdisks⟩
      | committed done last goes' =>
        obtain ⟨a, ht⟩ := rests.tracks
        have hlt := ht.step.lt
        rw [Origin.length_commands] at hlt
        omega
    | committed done last goes =>
      cases hsettle' with
      | cancelled ended stops => exact nomatch hstop'.symm.trans stops
      | committed done' last' goes' => exact Or.inr (SameEnd.committed done done' hdisks)
      | moved rests' goes' =>
        obtain ⟨a, ht⟩ := rests'.tracks
        have hlt := ht.step.lt
        rw [Origin.length_commands] at hlt
        omega

/-- From the payload flush on both publications come to one end. -/
theorem Twins.drive (ho : (Origin.borrows w candidate bytes).Sound)
    (ho' : (Origin.streams w d c candidate).Sound) (n : Nat) (hn : n + i = 104)
    (h : Twins w candidate bytes d c p q i) : SameEnd c (p.drive n) (q.drive n) := by
  -- one command a poll, for both
  induction n generalizing p q i with
  | zero =>
    obtain ⟨a, ht⟩ := h.right.tracks
    have hlt := ht.step.lt
    have hextra : (Origin.streams w d c candidate).extra.length = 1 := rfl
    rw [Origin.length_commands] at hlt
    omega
  | succ n ih =>
    rw [PollPublication7.drive, PollPublication7.drive]
    rcases h.poll ho ho' with hnext | hend
    · exact ih (by omega) hnext
    · rw [drive_settled hend.left, drive_settled hend.right]
      exact hend

/-- The borrowed publication while it writes its payload. -/
theorem borrows_payload (ho : (Origin.borrows w candidate bytes).Sound)
    (hd : w.disk.Answers (Origin.borrows w candidate bytes).writes.length) (i : Nat)
    (hi : i ≤ (Origin.borrows w candidate bytes).writes.length) :
    Resting (.borrows w candidate bytes)
        ((PollPublication7.publish w candidate (some bytes)).drive i) i
      ∧ ((PollPublication7.publish w candidate (some bytes)).drive i).world.disk
        = w.disk.ran ((Origin.borrows w candidate bytes).commands.take i) := by
  induction i with
  | zero => exact ⟨publish_resting hd.idle bytes, rfl⟩
  | succ i ih =>
    obtain ⟨hrests, hdisk⟩ := ih (by omega)
    rw [PollPublication7.drive_add]
    generalize (PollPublication7.publish w candidate (some bytes)).drive i = p at hrests hdisk
    obtain ⟨q, a, hq, hworld, hstop, hpoll⟩ := hrests.prepare ho
    have hanswers : q.world.disk.Answers 1 := by
      rw [hworld, hdisk]
      refine Device.Answers.ran (hd.mono ?_)
      rw [List.length_take]
      omega
    obtain ⟨hsettle, hafter⟩ := hq.poll_answers ho hanswers
    have hafter' : (q.pollPrepared true).2.world.disk
        = w.disk.ran ((Origin.borrows w candidate bytes).commands.take (i + 1)) := by
      rw [hafter, hq.tracks.step.take_succ, Device.ran_concat, hworld, hdisk]
    show Resting _ (p.pollAdvance true).2 _ ∧ (p.pollAdvance true).2.world.disk = _
    rw [hpoll true]
    generalize q.pollPrepared true = r at hsettle hafter'
    cases hsettle with
    | moved rests goes => exact ⟨rests, hafter'⟩
    | cancelled ended stops => exact nomatch hstop.symm.trans stops
    | committed done last goes =>
      have hextra := writes_le_extra (Origin.borrows w candidate bytes)
      omega

/-- The borrowed publication ends as the one whose payload was written before. -/
theorem SameEnd.fresh (hfits : candidate.Fits w.volume.map)
    (hpub : Publishable w.volume.header (candidate.nodes w.volume.nodes)
      (w.volume.records.setAt candidate.recordSlot (some candidate.record))
      (candidate.map w.volume.map))
    (hd : w.disk.Answers (Origin.borrows w candidate bytes).writes.length)
    (hran : d = w.disk.ran (Origin.borrows w candidate bytes).writes) :
    SameEnd c ((PollPublication7.publish w candidate (some bytes)).drive
        ((Origin.borrows w candidate bytes).writes.length + 104))
      ((PollPublication7.staged (World7.counted { w with disk := d } c) candidate).drive 104) := by
  have ho : (Origin.borrows w candidate bytes).Sound := ⟨hpub, hfits, fun _ _ => rfl⟩
  have ho' : (Origin.streams w d c candidate).Sound := ⟨hpub, hfits, nofun⟩
  obtain ⟨hrests, hdisk⟩ := borrows_payload ho hd _ (le_refl _)
  rw [commands_borrows w candidate bytes d c, List.take_left] at hdisk
  have hidle : d.inflight = none := by
    rw [hran, ← hdisk]
    exact hrests.inflight
  rw [PollPublication7.drive_add]
  exact Twins.drive ho ho' 104 rfl ⟨hrests, (change_resting hidle).2, hran.trans hdisk.symm⟩

/-- A stage of the candidate's payload issues the same commands. -/
theorem commands_writes {slot : StageSlot} {plan : PayloadPlan} (hmode : slot.mode = .fresh plan)
    (hplan : (runSectors plan.runs).length = sectorsFor bytes.length)
    (hadded : candidate.added = plan) :
    slot.commands 0 (chunks 512 (sectorsFor bytes.length) bytes)
      = (Origin.borrows w candidate bytes).writes := by
  have hruns : slot.runs = plan.runs := by rw [StageSlot.runs, hmode]
  rw [StageSlot.commands, hruns, List.drop_zero, Origin.writes, hadded]
  apply List.ext_getElem?
  intro j
  rw [List.getElem?_zipWith, List.getElem?_mapIdx]
  by_cases hj : j < sectorsFor bytes.length
  · rw [getElem?_chunks bytes hj, List.getElem?_eq_getElem (hplan ▸ hj)]
    exact congrArg some (command_of_fresh _ _ hmode)
  · rw [List.getElem?_eq_none (by omega : (runSectors plan.runs).length ≤ j)]
    rfl

end

/-! ### Retries -/

section
variable {k : Check} {p : PollPublication7} {i : Nat}

theorem ProbeDecided.settled {r : Poll (Except Error Publication7Phase) × PollPublication7}
    (h : ProbeDecided k i r) : r.2.Settled := by
  cases h with
  | matched ended => exact Or.inl ended.phase
  | conflict ended => exact Or.inr (Or.inr (Or.inl ended.phase))

/-- A check whose reads are answered is decided, one sector a poll. -/
theorem ProbeRests.decides (hk : k.Sound) (n : Nat)
    (hn : n + i = (runSectors k.record.runs).length) (h : ProbeRests k p i)
    (hd : p.world.disk.Answers n) (hdisk : p.world.disk = k.world.disk.ran (k.commands.take i)) :
    ∃ j r, ProbeDecided k j r ∧ p.drive (n + 1) = r.2
      ∧ r.2.world.disk = k.world.disk.ran k.commands := by
  induction n generalizing p i with
  | zero =>
    rcases h.probes.place with hlt | hnone
    · omega
    · refine ⟨i, _, h.finish hk hnone true, rfl, ?_⟩
      rw [h.pollAdvance_empty hnone, finishRetry_disk, hdisk,
        List.take_of_length_le (by rw [length_checkCommands]; omega)]
  | succ n ih =>
    have hs := List.getElem?_eq_getElem (show i < (runSectors k.record.runs).length by omega)
    obtain ⟨hsettle, hafter⟩ := h.poll_answers hk hs (hd.mono (by omega))
    have hafter' : (p.pollAdvance true).2.world.disk
        = k.world.disk.ran (k.commands.take (i + 1)) := by
      rw [hafter, checkCommands_take_succ hs, Device.ran_concat, hdisk]
    have hd' : (p.pollAdvance true).2.world.disk.Answers n := by
      rw [hafter]
      exact hd.answered _
    rw [PollPublication7.drive]
    generalize p.pollAdvance true = r at hsettle hafter' hd'
    cases hsettle with
    | moved rests goes => exact ih (by omega) rests hd' hafter'
    | cancelled ended stops => cases stops
    | decided decided goes last =>
      refine ⟨i + 1, r, decided, drive_settled decided.settled _, ?_⟩
      rw [hafter', List.take_of_length_le (by rw [length_checkCommands]; omega)]

/-- The two verdicts on the snapshot. -/
theorem ProbeDecided.verdict {r : Poll (Except Error Publication7Phase) × PollPublication7}
    (h : ProbeDecided k i r) : r.2.answer = (if k.snapshot k.bytes.length = k.bytes
      then .ok k.record else .error .idempotencyConflict)
      ∧ r.2.world.volume = { k.world.volume with fenced := false }
      ∧ r.2.world.nextOwner = k.world.nextOwner
      ∧ r.2.world.disk.medium = k.world.disk.medium ∧ r.2.drop = r.2.world := by
  cases h with
  | matched ended outcome same =>
    refine ⟨?_, ended.volume, ended.owner, ended.medium,
      drop_settled (Or.inl ended.phase) ended.pending⟩
    rw [if_pos same, PollPublication7.answer, PollPublication7.result, ended.phase, outcome]
    rfl
  | conflict ended other error =>
    refine ⟨?_, ended.volume, ended.owner, ended.medium,
      drop_settled (Or.inr (Or.inr (Or.inl ended.phase))) ended.pending⟩
    rw [if_neg other, PollPublication7.answer, PollPublication7.result, ended.phase, error]
    rfl

/-- A stage that compares with the record issues the same reads. -/
theorem commands_reads {slot : StageSlot} {matching : Bool}
    (hmode : slot.mode = .retry k.record matching) (hk : k.Sound) :
    slot.commands 0 (chunks 512 (sectorsFor k.bytes.length) k.bytes) = k.commands := by
  have hruns : slot.runs = k.record.runs := by rw [StageSlot.runs, hmode]
  rw [StageSlot.commands, hruns, List.drop_zero, Check.commands]
  apply List.ext_getElem?
  intro j
  rw [List.getElem?_zipWith, List.getElem?_map]
  by_cases hj : j < sectorsFor k.bytes.length
  · rw [getElem?_chunks k.bytes hj, List.getElem?_eq_getElem (hk.sectors ▸ hj)]
    exact congrArg some (command_of_retry _ _ hmode)
  · have hsectors := hk.sectors
    rw [List.getElem?_eq_none (by omega : (runSectors k.record.runs).length ≤ j)]
    rfl

end

/-! ### Streamed admission -/

section
variable {w : World7} {c : StageCounters} {i : Fin 2} {nonce : UInt64} {slot : StageSlot}
  {identity : WriteIdentity7} {expectedVersion : UInt64} {bytes : List UInt8}

/-- Admit bytes through a stage. -/
def streamAdmission (identity : WriteIdentity7) (expectedVersion : UInt64) (bytes : List UInt8) :
    Op PollPublication7 := do
  let stage ← openStage identity expectedVersion (UInt32.ofNat bytes.length) .admission
  stageSectors stage (chunks 512 (sectorsFor bytes.length) bytes)
  finishAdmission stage

/-- Begin a publication, poll it `n` times and drop it. -/
def driven (n : Nat) (begin : Op PollPublication7) : Op Record7 := do
  let p ← begin
  Fallible.change fun _ => (p.drive n).drop
  Fallible.lift (p.drive n).answer

/-- After `n` polls the publication has settled. -/
def SettlesIn (n : Nat) (begin : Op PollPublication7) (w : World7) : Prop :=
  ∀ p, (begin.run w).1 = .ok p → (p.drive n).Settled

/-- The preflight of a borrowed admission is that of a stage. -/
theorem prepareAdmission_run (w : World7) (identity : WriteIdentity7) (expectedVersion : UInt64)
    (hsize : bytes.length < 2 ^ 32) :
    (prepareAdmission identity expectedVersion bytes).run w
      = match openSlot w.volume identity expectedVersion (UInt32.ofNat bytes.length) .admission with
        | .error e => (.error e, w)
        | .ok slot => match slot.mode with
          | .retry record _ => (.ok (.retry w record bytes), w)
          | .fresh plan => (admissionCandidate identity expectedVersion
                (UInt32.ofNat bytes.length) (crc bytes) plan
              >>= fun candidate => Fallible.get
              >>= fun w => pure (PollPublication7.publish w candidate (some bytes))).run w := by
  have hnat : (UInt32.ofNat bytes.length).toNat = bytes.length := UInt32.toNat_ofNat_of_lt' hsize
  rw [prepareAdmission, run_getVolume_bind, openSlot, hnat]
  cases hready : w.volume.ready with
  | error e => rfl
  | ok _ =>
    rw [lift_ok_bind, ok_bind]
    by_cases hfits : bytes.length > maxFileBytes
    · rw [run_refuse_bind_of hfits, reject_of hfits]
      rfl
    · rw [run_refuse_bind_of_not hfits, reject_of_not hfits, ok_bind]
      cases hidentity : w.volume.validateIdentity identity with
      | error e => rfl
      | ok _ =>
        rw [lift_ok_bind, ok_bind]
        by_cases hscope : w.volume.stageHoldsScope identity = true
        · rw [run_refuse_bind_of hscope, reject_of hscope]
          rfl
        · rw [run_refuse_bind_of_not hscope, reject_of_not hscope, ok_bind]
          dsimp only
          cases openAdmission w.volume identity expectedVersion (UInt32.ofNat bytes.length) with
          | error e => rfl
          | ok opening => cases opening <;> rfl

variable {plan : PayloadPlan} {record : Record7} {staged : Fin 2 → List UInt8} {length : UInt32}

/-- A fresh admission that is finished publishes its candidate. -/
theorem finishAdmission_fresh {candidate : Candidate7} (hw : w.volume.fenced = false)
    (hi : w.volume.stages[i] = none) (hkind : slot.kind = .admission)
    (hcomplete : slot.complete = true) (hmode : slot.mode = .fresh plan)
    (hfirst : w.volume.findRetry slot.identity = none)
    (hrun : (admissionCandidate slot.identity slot.expectedVersion slot.length slot.payloadCrc
      plan).run (w.counted c) = (.ok candidate, w.counted c)) :
    (finishAdmission (c.token i nonce)).run (w.staging c i nonce slot)
      = (.ok (.staged (w.counted c) candidate), w.counted c) := by
  have hready : (w.staging c i nonce slot).volume.ready = .ok () := Volume7.ready_eq_ok.mpr hw
  have hnone : ¬ ((w.staging c i nonce slot).volume.findRetry slot.identity).isSome = true := by
    show ¬ (w.volume.findRetry slot.identity).isSome = true
    rw [hfirst]
    exact Bool.false_ne_true
  rw [finishAdmission, run_getVolume_bind, hready, lift_ok_bind,
    takeFinishable_ok (staging_index w c i nonce slot) ⟨hkind, hcomplete⟩, staging_close hi]
  dsimp only
  rw [hmode]
  dsimp only
  rw [run_refuse_bind_of_not hnone]
  exact run_bind_of_ok hrun _

/-- A retried admission that is finished replays the record, or is a conflict. -/
theorem finishAdmission_retry (c : StageCounters) (nonce : UInt64) {matching : Bool}
    (hw : w.volume.fenced = false) (hi : w.volume.stages[i] = none) (hkind : slot.kind = .admission)
    (hcomplete : slot.complete = true) (hmode : slot.mode = .retry record matching)
    (hcrc : slot.payloadCrc = record.payloadCrc32)
    (hretry : w.volume.findRetry slot.identity = some record) :
    (finishAdmission (c.token i nonce)).run (w.staging c i nonce slot)
      = if matching then (.ok (.replay (w.counted c) record), w.counted c)
        else (.error .idempotencyConflict, w.counted c) := by
  have hready : (w.staging c i nonce slot).volume.ready = .ok () := Volume7.ready_eq_ok.mpr hw
  have hfound : (w.staging c i nonce slot).volume.findRetry slot.identity = some record := hretry
  rw [finishAdmission, run_getVolume_bind, hready, lift_ok_bind,
    takeFinishable_ok (staging_index w c i nonce slot) ⟨hkind, hcomplete⟩, staging_close hi]
  dsimp only
  rw [hmode]
  dsimp only
  rw [if_neg (by exact not_not.mpr hcrc), hfound]
  cases matching <;> rfl

/-- What supplying all bytes to an admission stage comes to, on a disk that answers. -/
theorem stageSectors_answers (c : StageCounters) (nonce : UInt64) (hi : w.volume.stages[i] = none)
    (hsize : bytes.length < 2 ^ 32)
    (h : Opened w staged identity expectedVersion
      (UInt32.ofNat bytes.length) .admission slot)
    (hd : w.disk.Answers (sectorsFor bytes.length)) :
    ∃ next, (stageSectors (c.token i nonce) (chunks 512 (sectorsFor bytes.length) bytes)).run
          (w.staging c i nonce slot) = (.ok (), World7.staging { w with
            disk := w.disk.ran (slot.commands 0 (chunks 512 (sectorsFor bytes.length) bytes)) } c i
          nonce next)
      ∧ Held { w with
          disk := w.disk.ran (slot.commands 0 (chunks 512 (sectorsFor bytes.length) bytes)) } staged
        next bytes
      ∧ Walks next slot ∧ next.complete = true := by
  have hlength : ([] : List UInt8).length + bytes.length = slot.length.toNat := by
    rw [h.request.2.2.1, UInt32.toNat_ofNat_of_lt' hsize, List.length_nil, Nat.zero_add]
  have hwritten : slot.written.toNat + bytes.length = slot.length.toNat := by
    rw [h.held.holds.written]
    exact hlength
  obtain ⟨next, hwrite, hheld, hwalks⟩ := writeSectors_answers (n := 0) _ rfl h.held hlength hd
  rcases stageSectors_staging c nonce (sectorsFor bytes.length) rfl
    h.held.ready.unfenced hi hwritten with
    ⟨next', d, hwrite', hstage, hcomplete, -⟩ | ⟨e, w', hwrite', -⟩
  · obtain ⟨hnext, hworld⟩ := Prod.ext_iff.mp (hwrite.symm.trans hwrite')
    obtain rfl := Except.ok.inj hnext
    have hdisk := congrArg World7.disk hworld
    subst hdisk
    exact ⟨next, hstage, hheld, hwalks, hcomplete⟩
  · exact nomatch (Prod.ext_iff.mp (hwrite.symm.trans hwrite')).1

section
variable (c : StageCounters) (nonce : UInt64) (ready : Ready w staged)
  (hi : w.volume.stages[i] = none) (hsize : bytes.length < 2 ^ 32)
  (hd : w.disk.Answers (sectorsFor bytes.length))
  (hopen : openSlot w.volume identity expectedVersion (UInt32.ofNat bytes.length) .admission
    = .ok slot)
include ready hi hsize hd hopen

/-- A fresh admission: both ways publish one candidate, to one end. -/
theorem admission_fresh (hmode : slot.mode = .fresh plan)
    (hspec : OpeningSpec w.volume identity expectedVersion (UInt32.ofNat bytes.length) .admission
      (.fresh plan)) :
    ∃ p q w', (prepareAdmission identity expectedVersion bytes).run w = (.ok p, w)
      ∧ (stageSectors (c.token i nonce) (chunks 512 (sectorsFor bytes.length) bytes)
          >>= fun _ => finishAdmission (c.token i nonce)).run (w.staging c i nonce slot)
        = (.ok q, w')
      ∧ SameEnd c (p.drive (sectorsFor bytes.length + 104)) (q.drive 104) := by
  have hopened := openSlot_spec ready hopen
  obtain ⟨next, hstage, hheld, hwalks, hcomplete⟩ :=
    stageSectors_answers c nonce hi hsize hopened hd
  generalize hran : w.disk.ran (slot.commands 0 (chunks 512 (sectorsFor bytes.length) bytes)) = d
    at hstage hheld
  have hnext := hwalks.fresh plan hmode
  have hlength := (complete_iff hheld).mp hcomplete
  have hfresh := hheld.holds.fresh plan hnext
  have hcrc : next.payloadCrc = crc bytes := by
    rw [StageSlot.payloadCrc, hfresh.checksum]
    rfl
  obtain ⟨hidentity, hversion, hlen, hkind⟩ := hopened.request
  have hidentity' : next.identity = identity := hwalks.identity.trans hidentity
  have hversion' : next.expectedVersion = expectedVersion :=
    hwalks.expectedVersion.trans hversion
  have hlen' : next.length = UInt32.ofNat bytes.length := hwalks.length.trans hlen
  have hpromise := openSlot_promise hheld.ready hopen (isFresh_iff.mpr ⟨plan, hmode⟩)
  rw [hidentity] at hpromise
  obtain ⟨-, hfirst, index, receipt, ht⟩ := hspec
  obtain ⟨hfits, hverdict⟩ := admittedCandidate_ok hheld hnext hlength (hidentity' ▸ hpromise)
    (hidentity' ▸ hversion' ▸ ht)
  rw [hidentity', hversion', hlen', hcrc] at hfits hverdict
  have hplan : (runSectors plan.runs).length = sectorsFor bytes.length := by
    rw [hfresh.planned.length_sectors, hlen', UInt32.toNat_ofNat_of_lt' hsize]
  have hpub := candidateVerdict_eq_ok hverdict
  -- both ways build one candidate
  have hborrows := admissionCandidate_run (w := w) ht.admission hfits hverdict
  have hstreams := admissionCandidate_run (w := World7.counted { w with disk := d } c)
    ht.admission hfits hverdict
  have hadded : (admittedCandidate w.volume identity expectedVersion (UInt32.ofNat bytes.length)
    (crc bytes) plan receipt).added = plan := rfl
  change (admissionCandidate _ _ _ _ plan).run _ = (.ok (admittedCandidate w.volume _ _ _ _ _ _), _)
    at hstreams
  change Candidate7.Fits (admittedCandidate w.volume _ _ _ _ _ _) w.volume.map at hfits
  generalize admittedCandidate w.volume identity expectedVersion (UInt32.ofNat bytes.length)
    (crc bytes) plan receipt = candidate at *
  have hwrites : (Origin.borrows w candidate bytes).writes.length = sectorsFor bytes.length := by
    rw [length_writes rfl, hadded, hplan]
  refine ⟨.publish w candidate (some bytes), .staged (World7.counted { w with disk := d } c)
    candidate, World7.counted { w with disk := d } c, ?_, ?_, ?_⟩
  · rw [prepareAdmission_run w identity expectedVersion hsize, hopen]
    dsimp only
    rw [hmode]
    exact run_bind_of_ok hborrows _
  · rw [run_bind_of_ok hstage]
    rw [← hidentity', ← hversion', ← hlen', ← hcrc] at hstreams
    refine finishAdmission_fresh hheld.ready.unfenced hi (hwalks.kind.trans hkind) hcomplete
      hnext ?_ hstreams
    rw [hidentity']
    exact hfirst
  · rw [← hwrites] at hd ⊢
    exact SameEnd.fresh hfits hpub hd (by rw [← hran, commands_writes hmode hplan hadded])

/-- A retried admission: both ways compare the same sectors. -/
theorem admission_retry (hmode : slot.mode = .retry record true)
    (hspec : OpeningSpec w.volume identity expectedVersion (UInt32.ofNat bytes.length) .admission
      (.retry record)) :
    ∃ p d, (prepareAdmission identity expectedVersion bytes).run w = (.ok p, w)
      ∧ (p.drive (sectorsFor bytes.length + 1)).Settled
      ∧ (p.drive (sectorsFor bytes.length + 1)).drop = { w with disk := d }
      ∧ (stageSectors (c.token i nonce) (chunks 512 (sectorsFor bytes.length) bytes)
          >>= fun _ => finishAdmission (c.token i nonce)).run (w.staging c i nonce slot)
        = ((p.drive (sectorsFor bytes.length + 1)).answer.map
            (.replay (World7.counted { w with disk := d } c)),
          World7.counted { w with disk := d } c) := by
  have hopened := openSlot_spec ready hopen
  obtain ⟨next, hstage, hheld, hwalks, hcomplete⟩ :=
    stageSectors_answers c nonce hi hsize hopened hd
  have hlength := (complete_iff hheld).mp hcomplete
  obtain ⟨later, hnext⟩ := hwalks.retry record true hmode
  obtain ⟨hidentity, hversion, hlen, hkind⟩ := hopened.request
  obtain ⟨hretry, hrecord, -, -⟩ := hspec
  obtain ⟨j, hj, -⟩ := findRetry_some hretry
  have hk : (⟨w, record, bytes⟩ : Check).Sound := check_sound ready hj (by
    rw [hrecord, UInt32.toNat_ofNat_of_lt' hsize])
  obtain ⟨_, verdict, hdecided, hdrive, hdisk⟩ := (retry_rests hd.idle).decides hk
    (sectorsFor bytes.length) (by rw [hk.sectors]; rfl) hd rfl
  obtain ⟨hanswer, hvolume, howner, hmedium, hdrop⟩ := hdecided.verdict
  have hreads := commands_reads (k := ⟨w, record, bytes⟩) hmode hk
  rw [hreads] at hstage hheld
  generalize w.disk.ran (Check.commands ⟨w, record, bytes⟩) = d at hstage hheld hdisk
  rw [hdisk] at hmedium
  have hholds := hheld.holds.retry record later hnext
  -- the stage has read the whole snapshot, so its checksum is the record's
  have hcrc : next.payloadCrc = record.payloadCrc32 := by
    rw [StageSlot.payloadCrc, hholds.checksum, ← hk.stored.crc, hlength, ← hholds.length]
    exact congrArg (fun m : Medium Block => crc (payload m.view record.runs record.length.toNat))
      hmedium
  have hmatch : later = decide (Check.snapshot ⟨w, record, bytes⟩ bytes.length = bytes) := by
    rw [hholds.agrees, Check.snapshot, ← hmedium]
  have hfound : w.volume.findRetry next.identity = some record := by
    rw [hwalks.identity, hidentity]
    exact hretry
  have hfinish := finishAdmission_retry c nonce hheld.ready.unfenced hi
    (hwalks.kind.trans hkind) hcomplete hnext hcrc hfound
  refine ⟨.retry w record bytes, d, ?_, ?_, ?_, ?_⟩
  · rw [prepareAdmission_run w identity expectedVersion hsize, hopen]
    dsimp only
    rw [hmode]
  · rw [hdrive]
    exact hdecided.settled
  · rw [hdrive, hdrop]
    refine World7.counted_eq (w := { w with disk := d }) (c := w.counters) (hvolume.trans ?_) hdisk
      howner
    rw [← ready.unfenced]
    rfl
  · rw [run_bind_of_ok hstage, hfinish, hdrive, hanswer, hmatch]
    by_cases hsame : Check.snapshot ⟨w, record, bytes⟩ bytes.length = bytes
    · rw [if_pos (decide_eq_true hsame), if_pos hsame]
      rfl
    · rw [if_neg (by simpa using hsame), if_neg hsame]
      rfl

end

/-- A streamed admission against the borrowed one. -/
structure Alike (c : StageCounters) (n : Nat) (borrowed streamed : Op PollPublication7)
    (w : World7) : Prop where
  left : SettlesIn n borrowed w
  right : SettlesIn n streamed w
  same : (driven n streamed).run w
    = (((driven n borrowed).run w).1, ((driven n borrowed).run w).2.counted c)

theorem driven_of_error {begin : Op PollPublication7} {e : Error} {w' : World7}
    (h : begin.run w = (.error e, w')) (n : Nat) : (driven n begin).run w = (.error e, w') := by
  rw [driven, run_bind_of_error h]

theorem driven_of_ok {begin : Op PollPublication7} {p : PollPublication7} {w' : World7} {m : Nat}
    (h : begin.run w = (.ok p, w')) (hp : (p.drive m).Settled) {n : Nat} (hn : m ≤ n) :
    SettlesIn n begin w ∧ (driven n begin).run w = ((p.drive m).answer, (p.drive m).drop) := by
  obtain ⟨k, rfl⟩ := Nat.exists_eq_add_of_le hn
  have hdrive : p.drive (m + k) = p.drive m := by
    rw [PollPublication7.drive_add]
    exact drive_settled hp k
  constructor
  · intro p' hp'
    rw [h] at hp'
    obtain rfl := Except.ok.inj hp'
    rw [hdrive]
    exact hp
  · rw [driven, run_bind_of_ok h, hdrive]
    rfl

/-- Both are refused alike. -/
theorem Alike.of_error {borrowed streamed : Op PollPublication7} {e : Error}
    (hborrowed : borrowed.run w = (.error e, w)) (hstreamed : streamed.run w = (.error e, w))
    (n : Nat) : Alike w.counters n borrowed streamed w where
  left p hp := by
    rw [hborrowed] at hp
    cases hp
  right p hp := by
    rw [hstreamed] at hp
    cases hp
  same := by
    rw [driven_of_error hborrowed, driven_of_error hstreamed]
    rfl

/-- The streamed admission comes to the end of the borrowed one and leaves the same owner and
disk, but for the counters, when the disk answers its payload commands. -/
theorem streamAdmission_run (ready : Ready w staged) (h : CanStage w) (identity : WriteIdentity7)
    (expectedVersion : UInt64) (hsize : bytes.length < 2 ^ 32)
    (hd : w.disk.Answers (sectorsFor bytes.length)) :
    ∃ c, ∀ n, sectorsFor bytes.length + 104 ≤ n →
      Alike c n (prepareAdmission identity expectedVersion bytes)
        (streamAdmission identity expectedVersion bytes) w := by
  obtain ⟨c, i, nonce, hi, hopen⟩ := openStage_staging h
  specialize hopen identity expectedVersion (UInt32.ofNat bytes.length) .admission
  cases hslot : openSlot w.volume identity expectedVersion (UInt32.ofNat bytes.length)
    .admission with
  | error e =>
    refine ⟨w.counters, fun n _ => ?_⟩
    have hborrowed := prepareAdmission_run w identity expectedVersion hsize
    have hstreamed : (streamAdmission identity expectedVersion bytes).run w = (.error e, w) := by
      rw [hslot] at hopen
      exact run_bind_of_error hopen _
    rw [hslot] at hborrowed
    exact .of_error hborrowed hstreamed n
  | ok slot =>
    rw [hslot] at hopen
    have hstreamed : (streamAdmission identity expectedVersion bytes).run w
        = (stageSectors (c.token i nonce) (chunks 512 (sectorsFor bytes.length) bytes)
          >>= fun _ => finishAdmission (c.token i nonce)).run (w.staging c i nonce slot) :=
      run_bind_of_ok hopen _
    refine ⟨c, fun n hn => ?_⟩
    obtain ⟨-, -, -, ⟨plan, hspec, hopened⟩ | ⟨record, hspec, hopened⟩⟩ := openSlot_eq_ok hslot
    · obtain ⟨p, q, w', hp, hq, hend⟩ := admission_fresh c nonce ready hi hsize hd
        hslot (congrArg StageSlot.mode hopened) hspec
      rw [← hstreamed] at hq
      obtain ⟨hsettles, hborrowed⟩ := driven_of_ok hp hend.left hn
      obtain ⟨hsettles', hrun⟩ := driven_of_ok hq hend.right (n := n) (by omega)
      exact ⟨hsettles, hsettles', by rw [hrun, hborrowed, hend.answer, hend.drop]⟩
    · obtain ⟨p, d, hp, hsettled, hdrop, hq⟩ := admission_retry c nonce ready hi
        hsize hd hslot (congrArg StageSlot.mode hopened) hspec
      rw [← hstreamed] at hq
      obtain ⟨hsettles, hborrowed⟩ := driven_of_ok hp hsettled (n := n) (by omega)
      generalize (p.drive (sectorsFor bytes.length + 1)).answer = r at hq hborrowed
      cases r with
      | error e =>
        refine ⟨hsettles, fun p' hp' => ?_, ?_⟩
        · rw [hq] at hp'
          cases hp'
        · rw [driven_of_error hq, hborrowed, hdrop]
      | ok record =>
        obtain ⟨hsettles', hrun⟩ := driven_of_ok (m := 0) hq (Or.inl rfl) (Nat.zero_le n)
        refine ⟨hsettles, hsettles', ?_⟩
        rw [hrun, hborrowed, hdrop]
        rfl

end

/-! ### Streamed and borrowed writes -/

/-- Streamed and borrowed writes agree. Whenever a reachable owner has a slot and counters for one
more stage, the streamed replacement gives the answer, the owner and the disk of the borrowed one,
but for the counters. So does the streamed admission, driven to its end, when the disk answers the
payload commands. -/
theorem streaming_agrees {w : World7} (h : Reachable (.idle w)) (hstage : CanStage w)
    (identity : WriteIdentity7) (expectedVersion : UInt64) (bytes : List UInt8)
    (hsize : bytes.length < 2 ^ 32) :
    (∃ c, (streamTracked identity expectedVersion bytes).run w
        = (((replaceTracked identity expectedVersion bytes).run w).1,
          ((replaceTracked identity expectedVersion bytes).run w).2.counted c))
      ∧ ((∀ j < sectorsFor bytes.length, w.disk.replies j = .done) →
        ∃ c, ∀ n, sectorsFor bytes.length + 104 ≤ n →
          Alike c n (prepareAdmission identity expectedVersion bytes)
            (streamAdmission identity expectedVersion bytes) w) := by
  refine ⟨streamTracked_run hstage identity expectedVersion hsize, fun hd => ?_⟩
  by_cases hw : w.volume.fenced = true
  · -- a fenced owner refuses both before it reads anything
    have hborrowed : (prepareAdmission identity expectedVersion bytes).run w
        = (.error .uncertain, w) := run_ready_of_fenced hw _
    have hopen : (openStage identity expectedVersion (UInt32.ofNat bytes.length) .admission).run w
        = (.error .uncertain, w) := run_ready_of_fenced hw _
    have hstreamed : (streamAdmission identity expectedVersion bytes).run w
        = (.error .uncertain, w) := run_bind_of_error hopen _
    exact ⟨w.counters, fun n _ => .of_error hborrowed hstreamed n⟩
  · obtain ⟨staged, ready⟩ := h.ready (Bool.not_eq_true _ ▸ hw)
    exact streamAdmission_run ready hstage identity expectedVersion hsize ⟨ready.idle, hd⟩

/-- A file's first write, streamed and borrowed. -/
theorem streaming_agrees_filed : ∃ d : Disk, Reachable (.idle ⟨filedVolume, d, 1⟩)
    ∧ (∃ c, (streamTracked someIdentity 2 [104, 105]).run ⟨filedVolume, d, 1⟩
      = (((replaceTracked someIdentity 2 [104, 105]).run ⟨filedVolume, d, 1⟩).1,
        ((replaceTracked someIdentity 2 [104, 105]).run ⟨filedVolume, d, 1⟩).2.counted c))
    ∧ ∃ c, ∀ n, 105 ≤ n → Alike c n (prepareAdmission someIdentity 2 [104, 105])
      (streamAdmission someIdentity 2 [104, 105]) ⟨filedVolume, d, 1⟩ := by
  obtain ⟨d, hd, hfiled⟩ := filed_reachable
  have hslot : filedVolume.stages[(0 : Fin 2)] = none := by decide +kernel
  have hnonce : filedVolume.stageNonce.toNat + 1 < 2 ^ 64 := by decide +kernel
  have howner : (1 : UInt64) ≠ 0 := by decide
  obtain ⟨htracked, hadmission⟩ := streaming_agrees hfiled ⟨⟨0, hslot⟩, hnonce, Or.inr howner⟩
    someIdentity 2 [104, 105] (by decide)
  exact ⟨d, hfiled, htracked, hadmission fun j _ => hd.2 j⟩

/-- With two stages open a third write goes through at once, while its stage is refused. -/
theorem streamed_busy : ∃ d : Disk, Reachable (.idle ⟨twoStages, d, 2⟩)
    ∧ (∃ record, ((replaceTracked someIdentity 2 []).run ⟨twoStages, d, 2⟩).1 = .ok record)
    ∧ (streamTracked someIdentity 2 []).run ⟨twoStages, d, 2⟩
      = (.error .busy, ⟨twoStages, d, 2⟩) := by
  obtain ⟨d, hd, htwo⟩ := twoStages_reachable
  have hslot : openSlot twoStages someIdentity 2 (UInt32.ofNat ([] : List UInt8).length) .tracked
      = .ok (openedSlot someIdentity 2 0 .tracked (.fresh PayloadPlan.empty)) := by decide +kernel
  have htarget : trackedTarget twoStages someIdentity 2 = .ok fileTarget := by decide +kernel
  obtain ⟨staged, ready⟩ := htwo.ready rfl
  obtain ⟨d', -, hrun⟩ := replaceTracked_returns (w := ⟨twoStages, d, 2⟩) ready hd (by decide) hslot
    rfl htarget
  refine ⟨d, htwo, ⟨_, congrArg Prod.fst hrun⟩, ?_⟩
  have hready : twoStages.ready = .ok () := rfl
  have hfull : ((List.finRange 2).find? fun i => twoStages.stages[i].isNone) = none := by
    decide +kernel
  refine run_bind_of_error ?_ _
  rw [openStage, run_getVolume_bind, hready, lift_ok_bind, hfull]
  rfl

end RusticOs.Fs
