import RusticOs.Proofs.Poll7

/-!
# `RusticOs.Proofs.Retry7`: a pollable retry check

Checking an exact retry reads the retained snapshot sector by sector and compares it with
the supplied bytes. Nothing is written: the disk keeps its contents and the owner its
tables through every poll. `ProbeRests.poll` and `ProbeWaits.poll` say what one poll can do. The
check commits with the retained record exactly when the bytes are the snapshot's.
-/

set_option autoImplicit false

namespace RusticOs.Fs

open RusticOs.Lib

/-- The owner retains exactly this record. -/
def Volume7.Retains (v : Volume7) (r : Record7) : Prop := ∃ i : Fin 8, v.records[i] = some r

/-- What a retry check was begun with. -/
structure Check where
  world : World7
  record : Record7
  bytes : List UInt8

namespace Check

variable (k : Check)

/-- Its commands. -/
def commands : List (Command Block) :=
  (runSectors k.record.runs).map fun s => .read (payloadSector + s)

/-- The snapshot it is compared with. -/
def snapshot (n : Nat) : List UInt8 := payload k.world.disk.medium.view k.record.runs n

/-- The bytes compared once `i` sectors were read. -/
def offset (i : Nat) : Nat := min (512 * i) k.bytes.length

/-- A retained record of the right length whose snapshot is stored. -/
structure Sound : Prop where
  length : k.record.length.toNat = k.bytes.length
  sectors : (runSectors k.record.runs).length = sectorsFor k.bytes.length
  stored : Stored k.world.disk.medium.view k.record.runs k.record.length k.record.payloadCrc32
  retained : k.world.volume.Retains k.record

end Check

/-- A check whose first `i` sectors were read and compared. -/
structure Probes (k : Check) (p : PollPublication7) (i : Nat) : Prop where
  record : p.retryRecord = some k.record
  bytes : p.bytes = some k.bytes
  step : p.step = .retryRead i
  volume : p.world.volume = { k.world.volume with fenced := true }
  owner : p.world.nextOwner = k.world.nextOwner
  medium : p.world.disk.medium = k.world.disk.medium
  offset : p.payloadOffset = k.offset i
  agrees : p.retryMatches = decide (k.snapshot (k.offset i) = k.bytes.take (k.offset i))
  checksum : p.retryChecksum = crcUpdate crcInit (k.snapshot (k.offset i))
  place : i < (runSectors k.record.runs).length ∨ (runSectors k.record.runs).length = 0

/-- A check with no read outstanding. -/
structure ProbeRests (k : Check) (p : PollPublication7) (i : Nat) : Prop where
  probes : Probes k p i
  pending : p.pending = false
  stopping : p.stopping = false
  phase : p.phase = .retrying
  inflight : p.world.disk.inflight = none
  log : p.world.disk.log = k.world.disk.log ++ k.commands.take i

/-- A check whose read of sector `i` is outstanding. -/
structure ProbeWaits (k : Check) (p : PollPublication7) (i : Nat) : Prop where
  probes : Probes k p i
  pending : p.pending = true
  phase : p.phase = .retrying
  inflight : p.world.disk.inflight = k.commands[i]?
  some : i < (runSectors k.record.runs).length
  log : p.world.disk.log = k.world.disk.log ++ k.commands.take (i + 1)

/-- A check that has ended. The disk is as it was, and so is the owner but for its fence. -/
structure ProbeEnded (k : Check) (p : PollPublication7) (phase : Publication7Phase)
    (fenced : Bool) (i : Nat) : Prop where
  phase : p.phase = phase
  pending : p.pending = false
  volume : p.world.volume = { k.world.volume with fenced }
  owner : p.world.nextOwner = k.world.nextOwner
  medium : p.world.disk.medium = k.world.disk.medium
  inflight : p.world.disk.inflight = none
  log : p.world.disk.log = k.world.disk.log ++ k.commands.take i

/-- The verdict on a snapshot that was read as a whole. -/
inductive ProbeDecided (k : Check) (i : Nat) :
    Poll (Except Error Publication7Phase) × PollPublication7 → Prop where
  | matched {q : PollPublication7} (ended : ProbeEnded k q .committed false i)
      (outcome : q.outcome = some k.record) (same : k.snapshot k.bytes.length = k.bytes) :
      ProbeDecided k i (.ready (.ok .committed), q)
  | conflict {q : PollPublication7} (ended : ProbeEnded k q .failed false i)
      (other : k.snapshot k.bytes.length ≠ k.bytes)
      (error : q.error = some .idempotencyConflict) :
      ProbeDecided k i (.ready (.error .idempotencyConflict), q)

/-- What a sector that was read leads to. -/
inductive ProbeSettled (k : Check) (i : Nat) (stopping : Bool) :
    Poll (Except Error Publication7Phase) × PollPublication7 → Prop where
  | moved {q : PollPublication7} (rests : ProbeRests k q i) (goes : stopping = false) :
      ProbeSettled k i stopping (.ready (.ok .retrying), q)
  | decided {r : Poll (Except Error Publication7Phase) × PollPublication7}
      (decided : ProbeDecided k i r) (goes : stopping = false)
      (last : (runSectors k.record.runs).length ≤ i) : ProbeSettled k i stopping r
  | cancelled {q : PollPublication7} (ended : ProbeEnded k q .cancelled false i)
      (stops : stopping = true) : ProbeSettled k i stopping (.ready (.ok .cancelled), q)

section
variable {k : Check} {p : PollPublication7} {i : Nat}

theorem length_checkCommands (k : Check) :
    k.commands.length = (runSectors k.record.runs).length := List.length_map _

/-- Deciding a check whose bytes were all compared. -/
theorem finishRetry_decided (hk : k.Sound)
    (hmatches : p.retryMatches = decide (k.snapshot k.bytes.length = k.bytes))
    (hchecksum : p.retryChecksum = crcUpdate crcInit (k.snapshot k.bytes.length))
    (hpending : p.pending = false)
    (hvolume : p.world.volume = { k.world.volume with fenced := true })
    (howner : p.world.nextOwner = k.world.nextOwner)
    (hmedium : p.world.disk.medium = k.world.disk.medium)
    (hinflight : p.world.disk.inflight = none)
    (hlog : p.world.disk.log = k.world.disk.log ++ k.commands.take i) :
    ProbeDecided k i (p.finishRetry k.record) := by
  have hcrc : ~~~ p.retryChecksum = k.record.payloadCrc32 := by
    rw [hchecksum, ← hk.stored.crc, Check.snapshot, hk.length]
    rfl
  unfold PollPublication7.finishRetry
  rw [if_neg (not_not.mpr hcrc)]
  by_cases hsame : k.snapshot k.bytes.length = k.bytes
  · rw [hmatches, if_neg (by simp [hsame])]
    refine .matched ⟨rfl, hpending, ?_, howner, hmedium, hinflight, hlog⟩ rfl hsame
    show ({ p.world.volume with fenced := false } : Volume7) = _
    rw [hvolume]
  · rw [hmatches, if_pos (by simp [hsame])]
    refine .conflict ⟨rfl, rfl, ?_, howner, hmedium, hinflight, hlog⟩ hsame rfl
    show ({ p.world.volume with fenced := false } : Volume7) = _
    rw [hvolume]

/-- The compared bytes grow by the sector that was read. -/
theorem offset_succ (hk : k.Sound) (hi : i < (runSectors k.record.runs).length) :
    k.offset i = 512 * i
      ∧ k.offset i + min (k.bytes.length - k.offset i) 512 = k.offset (i + 1) := by
  rw [hk.sectors] at hi
  unfold sectorsFor at hi
  unfold Check.offset
  omega

variable {s : Nat}

theorem snapshot_succ (hk : k.Sound) (hs : (runSectors k.record.runs)[i]? = some s) :
    k.snapshot (k.offset (i + 1)) = k.snapshot (k.offset i)
      ++ (k.world.disk.medium.view (payloadSector + s)).toList.take
        (min (k.bytes.length - k.offset i) 512) := by
  obtain ⟨hstart, hnext⟩ := offset_succ hk (List.getElem?_eq_some_iff.mp hs).1
  rw [← hnext, hstart]
  exact payload_next _ hs (Nat.min_le_right _ _)

theorem length_snapshot (hk : k.Sound) (i : Nat) :
    (k.snapshot (k.offset i)).length = (k.bytes.take (k.offset i)).length := by
  have hsectors := hk.sectors
  unfold sectorsFor at hsectors
  rw [Check.snapshot, payload_eq, List.length_take, List.length_take, length_sectorBytes]
  unfold Check.offset
  omega

/-- Whether the bytes agree so far, one sector later. -/
theorem agrees_succ (hk : k.Sound) (hs : (runSectors k.record.runs)[i]? = some s) :
    decide (k.snapshot (k.offset (i + 1)) = k.bytes.take (k.offset (i + 1)))
      = (decide (k.snapshot (k.offset i) = k.bytes.take (k.offset i))
        && (k.world.disk.medium.view (payloadSector + s)).toList.take
            (min (k.bytes.length - k.offset i) 512)
          == slice k.bytes (k.offset i) (min (k.bytes.length - k.offset i) 512)) := by
  obtain ⟨-, hnext⟩ := offset_succ hk (List.getElem?_eq_some_iff.mp hs).1
  have htake : k.bytes.take (k.offset (i + 1)) = k.bytes.take (k.offset i)
      ++ slice k.bytes (k.offset i) (min (k.bytes.length - k.offset i) 512) := by
    rw [← hnext, List.take_add]
    rfl
  rw [snapshot_succ hk hs, htake, Bool.eq_iff_iff, Bool.and_eq_true, decide_eq_true_iff,
    decide_eq_true_iff, beq_iff_eq]
  constructor
  · exact fun happ => List.append_inj happ (length_snapshot hk i)
  · rintro ⟨h1, h2⟩
    rw [h1, h2]

theorem completeCommand_retry {record : Record7} {bytes : List UInt8}
    (hst : p.step = .retryRead i) (hr : p.retryRecord = some record) (hb : p.bytes = some bytes)
    (hstop : p.stopping = false) :
    p.completeCommand = PollPublication7.completeRetryRead
      { p with pending := false, blockPrepared := false } i record bytes := by
  cases p
  dsimp only at hst hr hb hstop
  subst hst hr hb hstop
  rfl

/-- What a settled read of sector `i` leads to. -/
theorem Probes.settle (hk : k.Sound) (h : Probes k p i)
    (hs : (runSectors k.record.runs)[i]? = some s)
    (hblock : p.block = k.world.disk.medium.view (payloadSector + s))
    (hinflight : p.world.disk.inflight = none)
    (hlog : p.world.disk.log = k.world.disk.log ++ k.commands.take (i + 1)) :
    ProbeSettled k (i + 1) p.stopping p.completeCommand := by
  have hi := (List.getElem?_eq_some_iff.mp hs).1
  by_cases hstop : p.stopping = true
  · rw [completeCommand_stopping hstop]
    refine .cancelled ⟨rfl, rfl, ?_, h.owner, h.medium, hinflight, hlog⟩ hstop
    show ({ p.world.volume with fenced := false } : Volume7) = _
    rw [h.volume]
  rw [Bool.not_eq_true] at hstop
  obtain ⟨hstart, hnext⟩ := offset_succ hk hi
  have hagrees : (p.retryMatches && p.block.toList.take (min (k.bytes.length - p.payloadOffset) 512)
      == slice k.bytes p.payloadOffset (min (k.bytes.length - p.payloadOffset) 512))
      = decide (k.snapshot (k.offset (i + 1)) = k.bytes.take (k.offset (i + 1))) := by
    rw [h.agrees, hblock, h.offset, agrees_succ hk hs]
  have hchecksum : crcUpdate p.retryChecksum
      (p.block.toList.take (min (k.bytes.length - p.payloadOffset) 512))
      = crcUpdate crcInit (k.snapshot (k.offset (i + 1))) := by
    rw [h.checksum, hblock, h.offset, snapshot_succ hk hs, crcUpdate_append]
  have hoffset : p.payloadOffset + min (k.bytes.length - p.payloadOffset) 512
      = k.offset (i + 1) := by
    rw [h.offset, hnext]
  rw [completeCommand_retry h.step h.record h.bytes hstop, hstop]
  unfold PollPublication7.completeRetryRead
  dsimp only
  have hcount : PollPublication7.retrySectorCount k.record = (runSectors k.record.runs).length :=
    (length_runSectors _).symm
  rw [hcount]
  split
  · rename_i hend
    have hall : k.offset (i + 1) = k.bytes.length := by
      have hsectors := hk.sectors
      unfold sectorsFor at hsectors
      unfold Check.offset
      omega
    rw [hall] at hagrees hchecksum
    rw [List.take_length] at hagrees
    exact .decided (finishRetry_decided hk hagrees hchecksum rfl h.volume h.owner h.medium
      hinflight hlog) rfl (by omega)
  · exact .moved ⟨⟨h.record, h.bytes, rfl, h.volume, h.owner, h.medium, hoffset, hagrees, hchecksum,
      Or.inl (by omega)⟩, rfl, rfl, rfl, hinflight, hlog⟩ rfl

/-! ### One poll, one abort -/

/-- The ways a poll of a check can end. -/
inductive ProbeRan (k : Check) (stopping : Bool) :
    Poll (Except Error Publication7Phase) × PollPublication7 → Prop where
  | pending {q : PollPublication7} {i : Nat} (waits : ProbeWaits k q i)
      (stops : q.stopping = stopping) : ProbeRan k stopping (.pending, q)
  | failed {q : PollPublication7} {i : Nat} (ended : ProbeEnded k q .uncertain true i) :
      ProbeRan k stopping (.ready (.error .uncertain), q)
  | settled {r : Poll (Except Error Publication7Phase) × PollPublication7} {i : Nat}
      (settled : ProbeSettled k i stopping r) : ProbeRan k stopping r

theorem checkCommands_getElem? (hs : (runSectors k.record.runs)[i]? = some s) :
    k.commands[i]? = some (.read (payloadSector + s)) := by
  rw [Check.commands, List.getElem?_map, hs]
  rfl

theorem checkCommands_take_succ (hs : (runSectors k.record.runs)[i]? = some s) :
    k.commands.take (i + 1) = k.commands.take i ++ [.read (payloadSector + s)] := by
  rw [List.take_add_one, checkCommands_getElem? hs]
  rfl

/-- The fields of a check that issuing its read leaves alone. -/
theorem Probes.of_eq {q : PollPublication7} (h : Probes k p i)
    (hrecord : q.retryRecord = p.retryRecord) (hbytes : q.bytes = p.bytes) (hstep : q.step = p.step)
    (hvolume : q.world.volume = p.world.volume) (howner : q.world.nextOwner = p.world.nextOwner)
    (hmedium : q.world.disk.medium = p.world.disk.medium)
    (hoffset : q.payloadOffset = p.payloadOffset) (hagrees : q.retryMatches = p.retryMatches)
    (hchecksum : q.retryChecksum = p.retryChecksum) : Probes k q i :=
  ⟨hrecord.trans h.record, hbytes.trans h.bytes, hstep.trans h.step, hvolume.trans h.volume,
    howner.trans h.owner, hmedium.trans h.medium, hoffset.trans h.offset, hagrees.trans h.agrees,
    hchecksum.trans h.checksum, h.place⟩

/-- The command of a check is the read of its sector. -/
theorem Probes.command (h : Probes k p i) (hs : (runSectors k.record.runs)[i]? = some s) :
    (p.issued p.world.disk).command = some (.read (payloadSector + s)) := by
  simp only [PollPublication7.command, h.step, h.record, runSector_eq, hs, bind, Option.bind, pure]

/-- A check whose read the device has answered. -/
abbrev PollPublication7.reads (p : PollPublication7) (s : Nat) (disk : Disk) : PollPublication7 :=
  { p.issued disk with block := p.world.disk.medium.view (payloadSector + s) }

theorem Probes.settles (hk : k.Sound) (h : Probes k p i)
    (hs : (runSectors k.record.runs)[i]? = some s) {d : Disk}
    (hmedium : d.medium = p.world.disk.medium) (hinflight : d.inflight = none)
    (hlog : d.log = k.world.disk.log ++ k.commands.take (i + 1)) :
    ProbeSettled k (i + 1) p.stopping (p.reads s d).completeCommand :=
  Probes.settle (p := p.reads s d) hk (h.of_eq rfl rfl rfl rfl rfl hmedium rfl rfl rfl) hs
    (by rw [← h.medium]) hinflight hlog

/-- Polling the read of sector `i`. -/
theorem Probes.poll (hk : k.Sound) (h : Probes k p i) (hs : (runSectors k.record.runs)[i]? = some s)
    (hissued : p.world.disk.inflight = none
        ∧ p.world.disk.log = k.world.disk.log ++ k.commands.take i
      ∨ p.world.disk.inflight = some (.read (payloadSector + s))
        ∧ p.world.disk.log = k.world.disk.log ++ k.commands.take (i + 1))
    (settled : Bool) : ProbeRan k p.stopping (p.pollPrepared settled) := by
  have hlt := (List.getElem?_eq_some_iff.mp hs).1
  have hsubmitted : p.world.disk.submitted (.read (payloadSector + s))
      = k.world.disk.log ++ k.commands.take (i + 1) := by
    unfold Device.submitted
    rcases hissued with ⟨hin, hlog⟩ | ⟨hin, hlog⟩
    · rw [hin, hlog, checkCommands_take_succ hs, List.append_assoc]
      rfl
    · rw [hin, hlog]
      rfl
  have hpolled := Device.pollCommand_polled (hissued.imp And.left And.left) settled
  unfold PollPublication7.pollPrepared PollPublication7.pollCommand
  dsimp only
  rw [h.command hs]
  dsimp only
  generalize Device.pollCommand settled (.read (payloadSector + s)) p.world.disk = r at hpolled
  cases hpolled with
  | pending d medium inflight log =>
    refine .pending (i := i) ⟨h.of_eq rfl rfl rfl rfl rfl medium rfl rfl rfl, rfl, ?_,
      inflight.trans (checkCommands_getElem? hs).symm, hlt, log.trans hsubmitted⟩ rfl
    show PollPublication7.stagePhase _ = _
    unfold PollPublication7.stagePhase
    dsimp only
    rw [h.step]
  | failed e d medium inflight log =>
    refine .failed (i := i + 1) ⟨rfl, rfl, ?_, h.owner, ?_, inflight, log.trans hsubmitted⟩
    · show ({ p.world.volume with fenced := true } : Volume7) = _
      rw [h.volume]
    · exact (medium.elim id id).trans h.medium
  | settled d medium inflight log =>
    exact .settled (h.settles hk hs medium inflight (log.trans hsubmitted))

theorem finishRetry_disk (p : PollPublication7) (record : Record7) :
    (p.finishRetry record).2.world.disk = p.world.disk := by
  unfold PollPublication7.finishRetry
  split
  · rfl
  · split <;> rfl

theorem completeRetryRead_disk (p : PollPublication7) (i : Nat) (record : Record7)
    (bytes : List UInt8) : (p.completeRetryRead i record bytes).2.world.disk = p.world.disk := by
  unfold PollPublication7.completeRetryRead
  dsimp only
  split
  · exact finishRetry_disk _ _
  · rfl

/-- Settling a command leaves the disk alone. -/
theorem completeCommand_disk (p : PollPublication7) :
    p.completeCommand.2.world.disk = p.world.disk := by
  unfold PollPublication7.completeCommand
  dsimp only
  split
  · rfl
  · split
    · exact completeRetryRead_disk _ _ _ _
    · split <;> rfl
    all_goals rfl

/-- The read of sector `i` settles when the device answers it. -/
theorem Probes.poll_answers (hk : k.Sound) (h : Probes k p i)
    (hs : (runSectors k.record.runs)[i]? = some s) (hd : p.world.disk.Answers 1)
    (hlog : p.world.disk.log = k.world.disk.log ++ k.commands.take i) :
    ProbeSettled k (i + 1) p.stopping (p.pollPrepared true)
      ∧ (p.pollPrepared true).2.world.disk
        = p.world.disk.answered (.read (payloadSector + s)) := by
  have hpoll : p.pollPrepared true
      = (p.reads s (p.world.disk.answered (.read (payloadSector + s)))).completeCommand := by
    unfold PollPublication7.pollPrepared PollPublication7.pollCommand
    dsimp only
    rw [h.command hs]
    dsimp only
    rw [hd.pollCommand]
  rw [hpoll, completeCommand_disk]
  refine ⟨h.settles hk hs rfl hd.idle ?_, rfl⟩
  show p.world.disk.log ++ [_] = _
  rw [hlog, checkCommands_take_succ hs, List.append_assoc]

/-- A read has no block to encode. -/
theorem prepareBlock_retry (hst : p.step = .retryRead i) :
    p.prepareBlock = .ok { p with blockPrepared := true } := by
  rcases p with ⟨_, _, _, _, _, _, _, _, _, _, _, _, _, _, b, _, _, _, _, _⟩
  dsimp only at hst
  subst hst
  cases b <;> rfl

/-- Polling a check that has something to read prepares the read. -/
theorem Probes.pollAdvance_prepares (h : Probes k p i) (hphase : p.phase = .retrying)
    (hlt : i < (runSectors k.record.runs).length) (settled : Bool) :
    p.pollAdvance settled = match p.prepareBlock with
      | .error e => p.markFailure e p.ioStarted
      | .ok q => q.pollPrepared settled := by
  have hcount : PollPublication7.retrySectorCount k.record ≠ 0 := by
    rw [PollPublication7.retrySectorCount, ← length_runSectors]
    omega
  unfold PollPublication7.pollAdvance PollPublication7.pollActive
  rw [hphase, h.step, h.record]
  exact if_neg hcount

/-- Such a read can be prepared, so it is issued. -/
theorem Probes.pollAdvance_eq (h : Probes k p i) (hphase : p.phase = .retrying)
    (hlt : i < (runSectors k.record.runs).length) (settled : Bool) :
    p.pollAdvance settled
      = PollPublication7.pollPrepared { p with blockPrepared := true } settled := by
  rw [h.pollAdvance_prepares hphase hlt, prepareBlock_retry h.step]

/-- An empty snapshot needs no read. -/
theorem ProbeRests.pollAdvance_empty (h : ProbeRests k p i)
    (hnone : (runSectors k.record.runs).length = 0) (settled : Bool) :
    p.pollAdvance settled = p.finishRetry k.record := by
  have hcount : PollPublication7.retrySectorCount k.record = 0 :=
    (length_runSectors _).symm.trans hnone
  unfold PollPublication7.pollAdvance PollPublication7.pollActive
  rw [h.phase, h.probes.step, h.probes.record]
  exact if_pos hcount

/-- An empty snapshot is decided without a read. -/
theorem ProbeRests.finish (hk : k.Sound) (h : ProbeRests k p i)
    (hnone : (runSectors k.record.runs).length = 0) (settled : Bool) :
    ProbeDecided k i (p.pollAdvance settled) := by
  have hempty : k.bytes.length = 0 := by
    have hsectors := hk.sectors
    unfold sectorsFor at hsectors
    omega
  have hoffset : k.offset i = k.bytes.length := by
    unfold Check.offset
    omega
  have hagrees := h.probes.agrees
  have hchecksum := h.probes.checksum
  rw [hoffset] at hagrees hchecksum
  rw [List.take_length] at hagrees
  rw [h.pollAdvance_empty hnone]
  exact finishRetry_decided hk hagrees hchecksum h.pending h.probes.volume h.probes.owner
    h.probes.medium h.inflight h.log

/-- One poll of a check with no read outstanding. -/
theorem ProbeRests.poll (hk : k.Sound) (h : ProbeRests k p i) (settled : Bool) :
    ProbeRan k false (p.pollAdvance settled) := by
  rcases h.probes.place with hlt | hnone
  · rw [h.probes.pollAdvance_eq h.phase hlt, ← h.stopping]
    exact Probes.poll (p := { p with blockPrepared := true }) hk
      (h.probes.of_eq rfl rfl rfl rfl rfl rfl rfl rfl rfl) (List.getElem?_eq_getElem hlt)
      (Or.inl ⟨h.inflight, h.log⟩) settled
  · exact .settled (.decided (h.finish hk hnone settled) rfl (by omega))

/-- One poll of a check reads one sector when the device answers the read. -/
theorem ProbeRests.poll_answers (hk : k.Sound) (h : ProbeRests k p i)
    (hs : (runSectors k.record.runs)[i]? = some s) (hd : p.world.disk.Answers 1) :
    ProbeSettled k (i + 1) false (p.pollAdvance true)
      ∧ (p.pollAdvance true).2.world.disk
        = p.world.disk.answered (.read (payloadSector + s)) := by
  have hlt := (List.getElem?_eq_some_iff.mp hs).1
  rw [h.probes.pollAdvance_eq h.phase hlt, ← h.stopping]
  exact Probes.poll_answers (p := { p with blockPrepared := true }) hk
    (h.probes.of_eq rfl rfl rfl rfl rfl rfl rfl rfl rfl) hs hd h.log

/-- One poll of a check whose read is outstanding. -/
theorem ProbeWaits.poll (hk : k.Sound) (h : ProbeWaits k p i) (settled : Bool) :
    ProbeRan k p.stopping (p.pollAdvance settled) := by
  have hs := List.getElem?_eq_getElem h.some
  rw [h.probes.pollAdvance_eq h.phase h.some]
  exact Probes.poll (p := { p with blockPrepared := true }) hk
    (h.probes.of_eq rfl rfl rfl rfl rfl rfl rfl rfl rfl) hs
    (Or.inr ⟨h.inflight.trans (checkCommands_getElem? hs), h.log⟩) settled

/-- An abort of a check with no read outstanding cancels it. -/
theorem ProbeRests.abort (h : ProbeRests k p i) :
    ∃ q, p.abortBeforeHeader = (.ok .cancelled, q) ∧ ProbeEnded k q .cancelled false i := by
  refine ⟨{ p with phase := .cancelled, world := p.world.setFenced false }, ?_, rfl, h.pending, ?_,
    h.probes.owner, h.probes.medium, h.inflight, h.log⟩
  · unfold PollPublication7.abortBeforeHeader
    rw [h.phase, h.pending]
    exact if_neg Bool.false_ne_true
  · show ({ p.world.volume with fenced := false } : Volume7) = _
    rw [h.probes.volume]

/-- An abort while a read is outstanding drains it. -/
theorem ProbeWaits.abort (h : ProbeWaits k p i) :
    p.abortBeforeHeader = (.ok .draining, { p with stopping := true })
      ∧ ProbeWaits k { p with stopping := true } i := by
  refine ⟨?_, h.probes.of_eq rfl rfl rfl rfl rfl rfl rfl rfl rfl, h.pending, h.phase, h.inflight,
    h.some, h.log⟩
  unfold PollPublication7.abortBeforeHeader
  rw [h.phase]
  exact if_pos h.pending

end

/-- A check begins with nothing read. -/
theorem retry_rests {w : World7} {record : Record7} {bytes : List UInt8}
    (hidle : w.disk.inflight = none) :
    ProbeRests ⟨w, record, bytes⟩ (.retry w record bytes) 0 := by
  have hoffset : (⟨w, record, bytes⟩ : Check).offset 0 = 0 := Nat.zero_min _
  have hsnapshot : (⟨w, record, bytes⟩ : Check).snapshot 0 = [] := by
    rw [Check.snapshot, payload_eq, List.take_zero]
  refine ⟨⟨rfl, rfl, rfl, rfl, rfl, rfl, hoffset.symm, ?_, ?_, by omega⟩, rfl, rfl, rfl, hidle,
    (List.append_nil _).symm⟩
  · rw [hoffset, hsnapshot]
    rfl
  · rw [hoffset, hsnapshot]
    rfl

end RusticOs.Fs
