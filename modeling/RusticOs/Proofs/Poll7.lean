import RusticOs.Proofs.Delta7

/-!
# `RusticOs.Proofs.Poll7`: a pollable publication follows its commands

`Origin` is what a publication was begun with. Its commands are those of the two-phase
write, with the payload in front. The state of a guard is one of

* `Resting o p i`: the first `i` commands have settled and nothing is outstanding,
* `Waiting o p i`: command `i` is outstanding as well,
* `Committed o p`, `Cancelled o p` and `Failed o p`, after which no command is issued.

`Resting.poll` and `Waiting.poll` say what one poll can do, `Resting.abort` and
`Waiting.abort` what an abort can do. Everything about a publication is derived from these.
-/

set_option autoImplicit false

namespace RusticOs.Fs

open RusticOs.Lib

/-! ### What a publication was begun with -/

/-- A candidate on an owner, with the payload it still has to write, if any, and whether a
payload flush comes before the generation. -/
structure Origin where
  world : World7
  candidate : Candidate7
  bytes : Option (List UInt8)
  flushes : Bool

namespace Origin

variable (o : Origin)

/-- The tables a publication writes. -/
def nodes : Nodes7 := o.candidate.nodes o.world.volume.nodes

@[inherit_doc nodes]
def records : Records7 :=
  o.world.volume.records.setAt o.candidate.recordSlot (some o.candidate.record)

@[inherit_doc nodes]
def map : SpaceMap := o.candidate.map o.world.volume.map

/-- The generation it writes to. -/
def target : UInt8 := o.world.volume.header.generation ^^^ 1

/-- The header it writes last. -/
def header : Header7 := publishedHeader o.world.volume.header o.nodes o.records o.map

/-- Its payload writes. -/
def writes : List (Command Block) :=
  match o.bytes with
  | some bytes => (runSectors o.candidate.added.runs).mapIdx fun i s =>
    .write (payloadSector + s) (payloadBlock (PollPublication7.payloadSlice bytes i))
  | none => []

/-- Its commands before the generation. -/
def extra : List (Command Block) := o.writes ++ if o.flushes then [.flush] else []

/-- Its commands. -/
def commands : List (Command Block) :=
  publicationCommands o.extra o.world.volume.header o.nodes o.records o.map

theorem length_commands : o.commands.length = o.extra.length + 103 := by
  rw [commands, publicationCommands, length_twoPhase, List.length_append, length_generationWrites]

end Origin

/-- Step `step` of a guard issues command `i`, which is `c`. -/
inductive StepAt (o : Origin) : Nat → Step → Command Block → Prop where
  | payload {i s : Nat} {bytes : List UInt8} (hb : o.bytes = some bytes)
      (hs : (runSectors o.candidate.added.runs)[i]? = some s) :
      StepAt o i (.payloadWrite i) (.write (payloadSector + s)
        (payloadBlock (PollPublication7.payloadSlice bytes i)))
  | payloadFlush (hf : o.flushes = true) : StepAt o o.writes.length .payloadFlush .flush
  | nodes {k : Nat} (hk : k < 64) :
      StepAt o (o.extra.length + k) (.nodesWrite k)
        (.write (nodesSector o.target + k) (nodesImage o.nodes k))
  | map {k : Nat} (hk : k < 32) :
      StepAt o (o.extra.length + 64 + k) (.mapWrite k)
        (.write (mapSector o.target + k) (mapBlock o.map k))
  | receipts {k : Nat} (hk : k < 4) :
      StepAt o (o.extra.length + 96 + k) (.receiptsWrite k)
        (.write (receiptsSector o.target + k) (receiptsSectorImage o.records k))
  | metadataFlush : StepAt o (o.extra.length + 100) .metadataFlush .flush
  | headerWrite : StepAt o (o.extra.length + 101) .headerWrite
      (.write (headerSector o.target) (headerBlock o.header))
  | headerFlush : StepAt o (o.extra.length + 102) .headerFlush .flush

section
variable {o : Origin}

theorem length_writes {bytes : List UInt8} (h : o.bytes = some bytes) :
    o.writes.length = (runSectors o.candidate.added.runs).length := by
  rw [Origin.writes, h, List.length_mapIdx]

/-- Commands of the generation. -/
theorem commands_generation {k : Nat} (hk : k < 100) :
    o.commands[o.extra.length + k]? = some (.write (nodesSector o.target + k)
      (generationBlock o.nodes o.records o.map k)) := by
  have hlt : o.extra.length + k
      < (o.extra ++ generationWrites o.nodes o.records o.map o.target).length := by
    rw [List.length_append, length_generationWrites]
    omega
  show (twoPhase (o.extra ++ generationWrites o.nodes o.records o.map o.target) _ _)[_]? = _
  rw [twoPhase, List.getElem?_append_left hlt, List.getElem?_append_right (by omega),
    Nat.add_sub_cancel_left]
  simp [generationWrites, hk]

/-- The last three commands. -/
theorem commands_last {k : Nat} :
    o.commands[o.extra.length + 100 + k]?
      = [Command.flush, .write (headerSector o.target) (headerBlock o.header), .flush][k]? := by
  have hlen : (o.extra ++ generationWrites o.nodes o.records o.map o.target).length
      = o.extra.length + 100 := by
    rw [List.length_append, length_generationWrites]
  show (twoPhase (o.extra ++ generationWrites o.nodes o.records o.map o.target) _ _)[_]? = _
  rw [twoPhase, ← hlen, List.getElem?_append_right (by omega), Nat.add_sub_cancel_left]
  rfl

theorem commands_extra {i : Nat} {c : Command Block} (h : o.extra[i]? = some c) :
    o.commands[i]? = some c := by
  have hlt := (List.getElem?_eq_some_iff.mp h).1
  show (twoPhase (o.extra ++ generationWrites o.nodes o.records o.map o.target) _ _)[_]? = _
  rw [twoPhase, List.getElem?_append_left (by rw [List.length_append]; omega),
    List.getElem?_append_left hlt, h]

/-- The command of a step is the command at its place. -/
theorem StepAt.command {i : Nat} {step : Step} {c : Command Block} (h : StepAt o i step c) :
    o.commands[i]? = some c := by
  cases h with
  | payload hb hs =>
    apply commands_extra
    have hlt := (List.getElem?_eq_some_iff.mp hs).1
    rw [Origin.extra, List.getElem?_append_left (by rw [length_writes hb]; exact hlt),
      Origin.writes, hb]
    simp only [List.getElem?_mapIdx, hs, Option.map_some]
  | payloadFlush hf =>
    apply commands_extra
    rw [Origin.extra, List.getElem?_append_right (le_refl _), Nat.sub_self, if_pos hf]
    rfl
  | nodes hk =>
    rw [commands_generation (by omega), generationBlock, if_pos hk]
  | @map k hk =>
    rw [Nat.add_assoc, commands_generation (by omega), generationBlock, if_neg (by omega),
      if_pos (by omega), Nat.add_sub_cancel_left, mapSector, Nat.add_assoc]
  | @receipts k hk =>
    rw [Nat.add_assoc, commands_generation (by omega), generationBlock, if_neg (by omega),
      if_neg (by omega), Nat.add_sub_cancel_left, receiptsSector, mapSector, ← Nat.add_assoc]
  | metadataFlush => exact commands_last (k := 0)
  | headerWrite => exact commands_last (k := 1)
  | headerFlush => exact commands_last (k := 2)

theorem StepAt.lt {i : Nat} {step : Step} {c : Command Block} (h : StepAt o i step c) :
    i < o.commands.length := (List.getElem?_eq_some_iff.mp h.command).1

end

/-! ### Running checksums -/

/-- The running CRC over the first `k` blocks of a region. -/
def sumUpTo (block : Nat → Block) (k : Nat) : UInt32 :=
  crcUpdate crcInit ((List.range k).flatMap fun s => (block s).toList)

theorem sumUpTo_succ (block : Nat → Block) (k : Nat) :
    crcUpdate (sumUpTo block k) (block k).toList = sumUpTo block (k + 1) := by
  rw [sumUpTo, sumUpTo, List.range_succ, List.flatMap_append, crcUpdate_append,
    List.flatMap_singleton]

/-- The block of a region enters the region's sum. -/
theorem sum_next {block : Nat → Block} {sum : UInt32} {start n k : Nat}
    (h : sum = sumUpTo block (min (start + k - start) n)) (hk : k < n) :
    crcUpdate sum (block k).toList = sumUpTo block (min (start + k + 1 - start) n) := by
  rw [h, show min (start + k - start) n = k by omega, sumUpTo_succ]
  congr 1
  omega

/-- A block outside a region leaves its sum alone. -/
theorem sum_stays {block : Nat → Block} {sum : UInt32} {start n i : Nat}
    (h : sum = sumUpTo block (min (i - start) n)) (hi : i + 1 ≤ start ∨ start + n ≤ i) :
    sum = sumUpTo block (min (i + 1 - start) n) := by
  rw [h]
  congr 1
  omega

/-- The checksums of a guard once the first `j` blocks were prepared. -/
structure Counted (o : Origin) (p : PollPublication7) (j : Nat) : Prop where
  nodes : p.nodesChecksum = sumUpTo (nodesImage o.nodes) (min (j - o.extra.length) 64)
  map : p.mapChecksum = sumUpTo (mapBlock o.map) (min (j - (o.extra.length + 64)) 32)
  receipts : p.receiptsChecksum
    = sumUpTo (receiptsSectorImage o.records) (min (j - (o.extra.length + 96)) 4)

/-! ### Guards on their way -/

/-- What every publication is begun with: a candidate that may be published, and a payload
flush whenever there is payload to write. -/
structure Origin.Sound (o : Origin) : Prop where
  publishable : Publishable o.world.volume.header o.nodes o.records o.map
  fits : o.candidate.Fits o.world.volume.map
  flushes : ∀ bytes, o.bytes = some bytes → o.flushes = true

/-- A guard that is at command `i`, which is `c`. -/
structure Tracks (o : Origin) (p : PollPublication7) (i : Nat) (c : Command Block) : Prop where
  candidate : p.candidate = some o.candidate
  bytes : p.bytes = o.bytes
  step : StepAt o i p.step c
  volume : p.world.volume = { o.world.volume with fenced := true }
  owner : p.world.nextOwner = o.world.nextOwner
  header : o.extra.length + 101 ≤ i → p.publishedHeader = some o.header

section
variable {o : Origin} {p : PollPublication7} {i : Nat} {c : Command Block}

theorem writes_le_extra (o : Origin) : o.writes.length ≤ o.extra.length := by
  rw [Origin.extra, List.length_append]
  omega

/-- A guard with a block prepared and the checksums that count it. -/
def PollPublication7.withBlock (p : PollPublication7) (block : Block)
    (nodesChecksum mapChecksum receiptsChecksum : UInt32) : PollPublication7 :=
  { p with block, nodesChecksum, mapChecksum, receiptsChecksum, blockPrepared := true }

/-- Blocks outside the generation are not counted. -/
theorem Counted.keep (h : Counted o p i) (hi : i + 1 ≤ o.extra.length ∨ o.extra.length + 100 ≤ i)
    (block : Block) : Counted o (p.withBlock block p.nodesChecksum p.mapChecksum
      p.receiptsChecksum) (i + 1) :=
  ⟨sum_stays h.nodes (by omega), sum_stays h.map (by omega), sum_stays h.receipts (by omega)⟩

open PollPublication7 in
/-- Preparing the block of a command succeeds and counts it. -/
theorem Tracks.prepare (ho : o.Sound) (h : Tracks o p i c) (hcount : Counted o p i)
    (hfresh : p.blockPrepared = false) :
    ∃ block n m r, p.prepareBlock = .ok (p.withBlock block n m r)
      ∧ (p.withBlock block n m r).command = some c
      ∧ Counted o (p.withBlock block n m r) (i + 1) := by
  have hstep := h.step
  have hvalid := ho.publishable.valid
  have htarget : p.target = o.target := by
    rw [target, h.volume]
    rfl
  unfold prepareBlock command
  rw [hfresh]
  simp only [Bool.false_eq_true, if_false]
  generalize hst : p.step = st at hstep
  -- a table's block enters its own running sum; the other sums stand still
  cases hstep with
  | @payload i s bytes hb hs =>
    have hsector : runSector o.candidate.added.runs i = some s := (runSector_eq _ _).trans hs
    have hlt := (List.getElem?_eq_some_iff.mp hs).1
    have hle := writes_le_extra o
    rw [length_writes hb] at hle
    refine ⟨payloadBlock (payloadSlice bytes i), _, _, _, ?_, ?_,
      hcount.keep (Or.inl (by omega)) _⟩
    · simp only [withBlock, hst, h.candidate, h.bytes, hb, orRefuse_some, hsector, bind,
        Except.bind, pure, Except.pure]
    · simp only [withBlock, hst, h.candidate, hsector, bind, Option.bind, pure]
  | payloadFlush hf =>
    have hlen : o.extra.length = o.writes.length + 1 := by
      rw [Origin.extra, if_pos hf, List.length_append]
      rfl
    exact ⟨p.block, _, _, _, by simp only [withBlock, hst], by simp only [withBlock, hst],
      hcount.keep (Or.inl (by omega)) _⟩
  | @nodes k hk =>
    have hblock : encodeNodes o.candidate p.world.volume k = .ok (nodesImage o.nodes k) := by
      rw [encodeNodes_eq, h.volume]
      exact nodesBlock_eq (fun n hn => hvalid.node_validate hn) hk
    refine ⟨nodesImage o.nodes k, crcUpdate p.nodesChecksum (nodesImage o.nodes k).toList,
      p.mapChecksum, p.receiptsChecksum, ?_, ?_, ?_⟩
    · simp only [withBlock, hst, h.candidate, orRefuse_some, hblock, bind, Except.bind, pure,
        Except.pure]
    · simp only [withBlock, hst, ← htarget]
      rfl
    · exact ⟨sum_next hcount.nodes hk, sum_stays hcount.map (by omega),
        sum_stays hcount.receipts (by omega)⟩
  | @map k hk =>
    have hblock : encodeMap o.candidate p.world.volume k = mapBlock o.map k := by
      rw [h.volume]
      exact encodeMap_eq (v := { o.world.volume with fenced := true }) ho.fits k
    refine ⟨mapBlock o.map k, p.nodesChecksum, crcUpdate p.mapChecksum (mapBlock o.map k).toList,
      p.receiptsChecksum, ?_, ?_, ?_⟩
    · simp only [withBlock, hst, h.candidate, orRefuse_some, hblock, bind, Except.bind, pure,
        Except.pure]
    · simp only [withBlock, hst, ← htarget]
      rfl
    · exact ⟨sum_stays hcount.nodes (by omega), sum_next hcount.map hk,
        sum_stays hcount.receipts (by omega)⟩
  | @receipts k hk =>
    have hblock : encodeReceipts o.candidate p.world.volume k
        = .ok (receiptsSectorImage o.records k) := by
      rw [encodeReceipts_eq, h.volume]
      exact receiptsBlock_eq (fun i r hr => hvalid.record_shape hr) hk
    refine ⟨receiptsSectorImage o.records k, p.nodesChecksum, p.mapChecksum,
      crcUpdate p.receiptsChecksum (receiptsSectorImage o.records k).toList,
      ?_, ?_, ?_⟩
    · simp only [withBlock, hst, h.candidate, orRefuse_some, hblock, bind, Except.bind, pure,
        Except.pure]
    · simp only [withBlock, hst, ← htarget]
      rfl
    · exact ⟨sum_stays hcount.nodes (by omega), sum_stays hcount.map (by omega),
        sum_next hcount.receipts hk⟩
  | metadataFlush | headerFlush =>
    exact ⟨p.block, _, _, _, by simp only [withBlock, hst], by simp only [withBlock, hst],
      hcount.keep (Or.inr (by omega)) _⟩
  | headerWrite =>
    have hheader := h.header (le_refl _)
    have hencode : o.header.encode = .ok (headerBlock o.header) :=
      encode_headerBlock ho.publishable.published.head
    refine ⟨headerBlock o.header, _, _, _, ?_, ?_, hcount.keep (Or.inr (by omega)) _⟩
    · simp only [withBlock, hst, hheader, orRefuse_some, hencode, bind, Except.bind, pure,
        Except.pure]
    · simp only [withBlock, hst, hheader, bind, Option.bind, pure]
      rfl

/-- The phase of a guard with nothing outstanding. -/
def Step.restPhase : Step → Publication7Phase
  | .headerWrite => .readyToPublish
  | .headerFlush => .settling
  | _ => .preparing

/-- The phase of a guard whose command is outstanding. -/
def Step.waitPhase : Step → Publication7Phase
  | .headerWrite | .headerFlush => .settling
  | _ => .preparing

theorem StepAt.stagePhase {step : Step} (h : StepAt o i step c) (hst : p.step = step) :
    p.stagePhase = step.waitPhase := by
  rw [PollPublication7.stagePhase, hst]
  cases h <;> rfl

/-- The header a guard computes once its generation is counted. -/
theorem Tracks.nextHeader (h : Tracks o p i c) (hcount : Counted o p (o.extra.length + 101)) :
    p.nextHeader = o.header := by
  have h1 := hcount.nodes
  have h2 := hcount.map
  have h3 := hcount.receipts
  rw [show min (o.extra.length + 101 - o.extra.length) 64 = 64 by omega] at h1
  rw [show min (o.extra.length + 101 - (o.extra.length + 64)) 32 = 32 by omega] at h2
  rw [show min (o.extra.length + 101 - (o.extra.length + 96)) 4 = 4 by omega] at h3
  rw [PollPublication7.nextHeader, h.volume, h1, h2, h3]
  rfl

/-- The step after a settled one, before the last. -/
def Step.next (c : Candidate7) : Step → Step
  | .payloadWrite i => if i + 1 = c.added.addedSectors then .payloadFlush else .payloadWrite (i + 1)
  | .payloadFlush => .nodesWrite 0
  | .nodesWrite k => if k + 1 = 64 then .mapWrite 0 else .nodesWrite (k + 1)
  | .mapWrite k => if k + 1 = 32 then .receiptsWrite 0 else .mapWrite (k + 1)
  | .receiptsWrite k => if k + 1 = 4 then .metadataFlush else .receiptsWrite (k + 1)
  | .metadataFlush => .headerWrite
  | .headerWrite => .headerFlush
  | step => step

/-- The commands of a publication come one after another. -/
theorem StepAt.next (ho : o.Sound) {step : Step} (h : StepAt o i step c)
    (hlast : i ≠ o.extra.length + 102) : ∃ c', StepAt o (i + 1) (step.next o.candidate) c' := by
  cases h with
  | @payload i s bytes hb hs =>
    have hlt := (List.getElem?_eq_some_iff.mp hs).1
    have hadded : o.candidate.added.addedSectors
        = (runSectors o.candidate.added.runs).length := (length_runSectors _).symm
    rw [Step.next, hadded]
    split
    · rename_i hend
      rw [hend, ← length_writes hb]
      exact ⟨_, .payloadFlush (ho.flushes bytes hb)⟩
    · exact ⟨_, .payload hb (List.getElem?_eq_getElem (by omega))⟩
  | payloadFlush hf =>
    have hlen : o.writes.length + 1 = o.extra.length + 0 := by
      rw [Origin.extra, if_pos hf, List.length_append]
      rfl
    rw [hlen]
    exact ⟨_, .nodes (by omega)⟩
  | @nodes k hk =>
    rw [Step.next]
    split
    · rw [show o.extra.length + k + 1 = o.extra.length + 64 + 0 by omega]
      exact ⟨_, .map (by omega)⟩
    · rw [Nat.add_assoc]
      exact ⟨_, .nodes (by omega)⟩
  | @map k hk =>
    rw [Step.next]
    split
    · rw [show o.extra.length + 64 + k + 1 = o.extra.length + 96 + 0 by omega]
      exact ⟨_, .receipts (by omega)⟩
    · rw [Nat.add_assoc]
      exact ⟨_, .map (by omega)⟩
  | @receipts k hk =>
    rw [Step.next]
    split
    · rw [show o.extra.length + 96 + k + 1 = o.extra.length + 100 by omega]
      exact ⟨_, .metadataFlush⟩
    · rw [Nat.add_assoc]
      exact ⟨_, .receipts (by omega)⟩
  | metadataFlush => exact ⟨_, .headerWrite⟩
  | headerWrite => exact ⟨_, .headerFlush⟩
  | headerFlush => exact absurd rfl hlast

/-- Where the last steps stand. -/
theorem StepAt.place {step : Step} (h : StepAt o i step c) :
    step = .metadataFlush ∧ i = o.extra.length + 100
      ∨ step = .headerWrite ∧ i = o.extra.length + 101
      ∨ step = .headerFlush ∧ i = o.extra.length + 102
      ∨ (step ≠ .metadataFlush ∧ step ≠ .headerWrite ∧ step ≠ .headerFlush)
        ∧ i < o.extra.length + 100 := by
  have hle := writes_le_extra o
  cases h with
  | payload hb hs =>
    have hlt := (List.getElem?_eq_some_iff.mp hs).1
    rw [length_writes hb] at hle
    exact Or.inr (Or.inr (Or.inr ⟨by simp, by omega⟩))
  | payloadFlush hf | nodes hk | map hk | receipts hk =>
    exact Or.inr (Or.inr (Or.inr ⟨by simp, by omega⟩))
  | metadataFlush => exact Or.inl ⟨rfl, rfl⟩
  | headerWrite => exact Or.inr (Or.inl ⟨rfl, rfl⟩)
  | headerFlush => exact Or.inr (Or.inr (Or.inl ⟨rfl, rfl⟩))

/-- What settling a command before the last does to a guard. -/
theorem StepAt.completeCommand {step : Step} (h : StepAt o i step c)
    (hlast : i ≠ o.extra.length + 102) (hst : p.step = step)
    (hc : p.candidate = some o.candidate) (hstop : p.stopping = false) :
    p.completeCommand = { p with
        pending := false
        blockPrepared := false
        publishedHeader :=
          if step = Step.metadataFlush then some p.nextHeader else p.publishedHeader
        }.goto (step.next o.candidate) (step.next o.candidate).restPhase := by
  cases p
  dsimp only at hst hc hstop
  subst hst hc hstop
  cases h with
  | payload hb hs =>
    by_cases hend : i + 1 = o.candidate.added.addedSectors <;>
      simp [PollPublication7.completeCommand, Step.next, Step.restPhase, hend]
  | @nodes k hk =>
    by_cases hend : k + 1 = 64 <;>
      simp [PollPublication7.completeCommand, Step.next, Step.restPhase, hend]
  | @map k hk =>
    by_cases hend : k + 1 = 32 <;>
      simp [PollPublication7.completeCommand, Step.next, Step.restPhase, hend]
  | @receipts k hk =>
    by_cases hend : k + 1 = 4 <;>
      simp [PollPublication7.completeCommand, Step.next, Step.restPhase, hend]
  | headerFlush => exact absurd rfl hlast
  | _ => rfl

end

/-! ### The states of a guard -/

/-- The owner once a publication is committed. -/
def Origin.committed (o : Origin) : Volume7 :=
  { adoptCandidate o.world.volume o.candidate o.header with fenced := false }

/-- The owner while a publication borrows it, or once it failed. -/
def Origin.borrowed (o : Origin) : Volume7 := { o.world.volume with fenced := true }

/-- The first `i` commands have settled and nothing is outstanding. -/
structure Resting (o : Origin) (p : PollPublication7) (i : Nat) : Prop where
  tracks : ∃ c, Tracks o p i c
  counted : Counted o p i
  pending : p.pending = false
  prepared : p.blockPrepared = false
  stopping : p.stopping = false
  phase : p.phase = p.step.restPhase
  medium : p.world.disk.medium = o.world.disk.medium.after (o.commands.take i)
  inflight : p.world.disk.inflight = none
  log : p.world.disk.log = o.world.disk.log ++ o.commands.take i

/-- The first `i` commands have settled and command `i` is prepared. It is outstanding when
the device holds it. -/
structure Issuing (o : Origin) (p : PollPublication7) (i : Nat) (c : Command Block) : Prop where
  tracks : Tracks o p i c
  counted : Counted o p (i + 1)
  prepared : p.blockPrepared = true
  command : p.command = some c
  stopping : p.stopping = true → i ≤ o.extra.length + 100
  medium : p.world.disk.medium = o.world.disk.medium.after (o.commands.take i)
  issued : p.world.disk.inflight = none ∧ p.world.disk.log = o.world.disk.log ++ o.commands.take i
    ∨ p.world.disk.inflight = some c
      ∧ p.world.disk.log = o.world.disk.log ++ o.commands.take (i + 1)

/-- Command `i` is outstanding. -/
structure Waiting (o : Origin) (p : PollPublication7) (i : Nat) : Prop where
  issuing : ∃ c, Issuing o p i c ∧ p.world.disk.inflight = some c
  pending : p.pending = true
  phase : p.phase = p.step.waitPhase

/-- The candidate is adopted and every command has settled. -/
structure Committed (o : Origin) (p : PollPublication7) : Prop where
  phase : p.phase = .committed
  pending : p.pending = false
  outcome : p.outcome = some o.candidate.record
  volume : p.world.volume = o.committed
  owner : p.world.nextOwner = o.world.nextOwner
  medium : p.world.disk.medium = o.world.disk.medium.after o.commands
  inflight : p.world.disk.inflight = none
  log : p.world.disk.log = o.world.disk.log ++ o.commands

/-- The publication stopped before its header: the owner is as it was, and `i` commands
have settled. -/
structure Cancelled (o : Origin) (p : PollPublication7) (i : Nat) : Prop where
  phase : p.phase = .cancelled
  pending : p.pending = false
  before : i ≤ o.extra.length + 101
  volume : p.world.volume = { o.world.volume with fenced := false }
  owner : p.world.nextOwner = o.world.nextOwner
  medium : p.world.disk.medium = o.world.disk.medium.after (o.commands.take i)
  inflight : p.world.disk.inflight = none
  log : p.world.disk.log = o.world.disk.log ++ o.commands.take i

/-- Command `i` failed, with or without its effect: the owner is fenced. -/
structure Failed (o : Origin) (p : PollPublication7) (i : Nat) : Prop where
  phase : p.phase = .uncertain
  pending : p.pending = false
  volume : p.world.volume = o.borrowed
  owner : p.world.nextOwner = o.world.nextOwner
  medium : p.world.disk.medium = o.world.disk.medium.after (o.commands.take i)
    ∨ p.world.disk.medium = o.world.disk.medium.after (o.commands.take (i + 1))
  inflight : p.world.disk.inflight = none
  log : p.world.disk.log = o.world.disk.log ++ o.commands.take (i + 1)

/-- What the settling of command `i` leads to. -/
inductive SettleRan (o : Origin) (i : Nat) (stopping : Bool) :
    Poll (Except Error Publication7Phase) × PollPublication7 → Prop where
  | moved {q : PollPublication7} (resting : Resting o q (i + 1)) (goes : stopping = false) :
      SettleRan o i stopping (.ready (.ok q.phase), q)
  | committed {q : PollPublication7} (committed : Committed o q) (last : i = o.extra.length + 102)
      (goes : stopping = false) : SettleRan o i stopping (.ready (.ok .committed), q)
  | cancelled {q : PollPublication7} (cancelled : Cancelled o q (i + 1))
      (stops : stopping = true) : SettleRan o i stopping (.ready (.ok .cancelled), q)

/-- The ways a poll of command `i` can end. -/
inductive PollRan (o : Origin) (i : Nat) (stopping : Bool) :
    Poll (Except Error Publication7Phase) × PollPublication7 → Prop where
  | pending {q : PollPublication7} (waiting : Waiting o q i) (stops : q.stopping = stopping) :
      PollRan o i stopping (.pending, q)
  | failed {q : PollPublication7} (failed : Failed o q i) :
      PollRan o i stopping (.ready (.error .uncertain), q)
  | settled {r : Poll (Except Error Publication7Phase) × PollPublication7}
      (settled : SettleRan o i stopping r) : PollRan o i stopping r

section
variable {o : Origin} {p : PollPublication7} {i : Nat} {c : Command Block}

theorem StepAt.take_succ {step : Step} (h : StepAt o i step c) :
    o.commands.take (i + 1) = o.commands.take i ++ [c] := by
  rw [List.take_add_one, h.command]
  rfl

theorem StepAt.after_succ {step : Step} (h : StepAt o i step c) (m : Medium Block) :
    m.after (o.commands.take (i + 1)) = (m.after (o.commands.take i)).effect c := by
  rw [h.take_succ, Medium.after_append]
  rfl

/-- Publications never read, so polling a command only moves the device. -/
theorem pollCommand_eq (hc : p.command = some c) (hread : ∀ s, c ≠ .read s) (settled : Bool) :
    p.pollCommand settled = ((Device.pollCommand settled c p.world.disk).1,
      { p with world := { p.world with
          disk := (Device.pollCommand settled c p.world.disk).2 } }) := by
  unfold PollPublication7.pollCommand
  rw [hc]
  dsimp only
  rcases Device.pollCommand settled c p.world.disk with ⟨r, d⟩
  cases c with
  | read s => exact absurd rfl (hread s)
  | write s b | flush => rcases r with _ | ⟨_ | _⟩ <;> rfl

theorem StepAt.not_read {step : Step} (h : StepAt o i step c) (s : Nat) : c ≠ .read s := by
  cases h <;> exact nofun

/-- A guard that was asked to stop is cancelled by the command that settles. -/
theorem completeCommand_stopping (h : p.stopping = true) :
    p.completeCommand = (.ready (.ok .cancelled), { p with
      pending := false
      blockPrepared := false
      phase := .cancelled
      world := p.world.setFenced false }) := by
  unfold PollPublication7.completeCommand
  exact if_pos h

/-- The final flush adopts the candidate. -/
theorem completeCommand_headerFlush {d : Candidate7} {header : Header7}
    (hst : p.step = .headerFlush) (hc : p.candidate = some d)
    (hh : p.publishedHeader = some header) (hstop : p.stopping = false) :
    p.completeCommand = (.ready (.ok .committed), { p with
      pending := false
      blockPrepared := false
      world := { p.world with
        volume := { adoptCandidate p.world.volume d header with fenced := false } }
      outcome := some d.record
      phase := .committed
      step := .done }) := by
  cases p
  dsimp only at hst hc hh hstop
  subst hst hc hh hstop
  rfl

/-- The log of a device that was handed command `i`. -/
theorem Issuing.submitted (h : Issuing o p i c) :
    p.world.disk.submitted c = o.world.disk.log ++ o.commands.take (i + 1) := by
  unfold Device.submitted
  rcases h.issued with ⟨hin, hlog⟩ | ⟨hin, hlog⟩
  · rw [hin, hlog, h.tracks.step.take_succ, List.append_assoc]
    rfl
  · rw [hin, hlog]
    rfl

theorem Issuing.inflight (h : Issuing o p i c) :
    p.world.disk.inflight = none ∨ p.world.disk.inflight = some c := by
  rcases h.issued with ⟨hin, -⟩ | ⟨hin, -⟩
  · exact Or.inl hin
  · exact Or.inr hin

/-- What a command that settled leads to. -/
theorem Tracks.settle (ho : o.Sound) (h : Tracks o p i c) (hcount : Counted o p (i + 1))
    (hstops : p.stopping = true → i ≤ o.extra.length + 100)
    (hmedium : p.world.disk.medium = o.world.disk.medium.after (o.commands.take (i + 1)))
    (hinflight : p.world.disk.inflight = none)
    (hlog : p.world.disk.log = o.world.disk.log ++ o.commands.take (i + 1)) :
    SettleRan o i p.stopping p.completeCommand
      ∧ p.completeCommand.2.world.disk = p.world.disk := by
  by_cases hstop : p.stopping = true
  · have hle := hstops hstop
    rw [completeCommand_stopping hstop]
    refine ⟨.cancelled ⟨rfl, rfl, by omega, ?_, h.owner, hmedium, hinflight, hlog⟩ hstop, rfl⟩
    show ({ p.world.volume with fenced := false } : Volume7) = _
    rw [h.volume]
  · rw [Bool.not_eq_true] at hstop
    by_cases hlast : i = o.extra.length + 102
    · have hst : p.step = .headerFlush := by
        rcases h.step.place with ⟨-, hi⟩ | ⟨-, hi⟩ | ⟨hst, -⟩ | ⟨-, hi⟩
        · omega
        · omega
        · exact hst
        · omega
      have hall : o.commands.take (i + 1) = o.commands :=
        List.take_of_length_le (by rw [o.length_commands]; omega)
      rw [hall] at hmedium hlog
      rw [completeCommand_headerFlush hst h.candidate (h.header (by omega)) hstop]
      refine ⟨.committed ⟨rfl, rfl, rfl, ?_, h.owner, hmedium, hinflight, hlog⟩ hlast hstop, rfl⟩
      show ({ adoptCandidate p.world.volume o.candidate o.header with fenced := false }
        : Volume7) = _
      rw [h.volume]
      rfl
    · obtain ⟨c', hnext⟩ := h.step.next ho hlast
      rw [h.step.completeCommand hlast rfl h.candidate hstop]
      have hheader : o.extra.length + 101 ≤ i + 1 →
          (if p.step = Step.metadataFlush then some p.nextHeader else p.publishedHeader)
            = some o.header := by
        -- the header is computed when the metadata flush settles, and kept
        intro hi
        rcases h.step.place with ⟨hst, rfl⟩ | ⟨hst, hi'⟩ | ⟨hst, hi'⟩ | ⟨-, hi'⟩
        · rw [if_pos hst, h.nextHeader hcount]
        · rw [hst, if_neg nofun, h.header (by omega)]
        · omega
        · omega
      have hmoved : Resting o { p with
          pending := false
          blockPrepared := false
          publishedHeader :=
            if p.step = Step.metadataFlush then some p.nextHeader else p.publishedHeader
          step := p.step.next o.candidate
          phase := (p.step.next o.candidate).restPhase } (i + 1) :=
        ⟨⟨c', h.candidate, h.bytes, hnext, h.volume, h.owner, hheader⟩,
          ⟨hcount.nodes, hcount.map, hcount.receipts⟩, rfl, rfl, hstop, rfl, hmedium, hinflight,
          hlog⟩
      exact ⟨.moved hmoved hstop, rfl⟩

/-- A guard whose command the device has: nothing is known of it until the device answers. -/
abbrev PollPublication7.issued (p : PollPublication7) (disk : Disk) : PollPublication7 :=
  { p with pending := true, ioStarted := true, phase := .uncertain, world := { p.world with disk } }

/-- Polling an issued command moves the device. -/
theorem Issuing.pollCommand (h : Issuing o p i c) (settled : Bool) :
    (p.issued p.world.disk).pollCommand settled
      = ((Device.pollCommand settled c p.world.disk).1,
        p.issued (Device.pollCommand settled c p.world.disk).2) :=
  pollCommand_eq (p := p.issued p.world.disk) h.command h.tracks.step.not_read settled

/-- A prepared command that the device has carried out. -/
theorem Issuing.settles (ho : o.Sound) (h : Issuing o p i c) {d : Disk}
    (hmedium : d.medium = p.world.disk.medium.effect c) (hinflight : d.inflight = none)
    (hlog : d.log = p.world.disk.submitted c) :
    SettleRan o i p.stopping (p.issued d).completeCommand
      ∧ (p.issued d).completeCommand.2.world.disk = d := by
  refine Tracks.settle (p := p.issued d) ho ⟨h.tracks.candidate, h.tracks.bytes, h.tracks.step,
    h.tracks.volume, h.tracks.owner, h.tracks.header⟩
    ⟨h.counted.nodes, h.counted.map, h.counted.receipts⟩ h.stopping ?_ hinflight
    (hlog.trans h.submitted)
  rw [h.tracks.step.after_succ, ← h.medium]
  exact hmedium

/-- Polling a prepared command. -/
theorem Issuing.poll (ho : o.Sound) (h : Issuing o p i c) (settled : Bool) :
    PollRan o i p.stopping (p.pollPrepared settled) := by
  have hstep := h.tracks.step
  have hpolled := Device.pollCommand_polled h.inflight settled
  unfold PollPublication7.pollPrepared
  dsimp only
  rw [h.pollCommand]
  generalize Device.pollCommand settled c p.world.disk = r at hpolled
  cases hpolled with
  | pending d medium inflight log =>
    refine .pending ⟨⟨c, ⟨?_, ?_, h.prepared, h.command, h.stopping, medium.trans h.medium,
      Or.inr ⟨inflight, log.trans h.submitted⟩⟩, inflight⟩, rfl, hstep.stagePhase rfl⟩ rfl
    · exact ⟨h.tracks.candidate, h.tracks.bytes, hstep, h.tracks.volume, h.tracks.owner,
        h.tracks.header⟩
    · exact ⟨h.counted.nodes, h.counted.map, h.counted.receipts⟩
  | failed e d medium inflight log =>
    refine .failed ⟨rfl, rfl, ?_, h.tracks.owner, ?_, inflight, log.trans h.submitted⟩
    · show ({ p.world.volume with fenced := true } : Volume7) = _
      rw [h.tracks.volume]
      rfl
    · rw [hstep.after_succ, ← h.medium]
      exact medium
  | settled d medium inflight log => exact .settled (h.settles ho medium inflight log).1

/-- A prepared command that the device answers settles. -/
theorem Issuing.poll_answers (ho : o.Sound) (h : Issuing o p i c)
    (hd : p.world.disk.Answers 1) :
    SettleRan o i p.stopping (p.pollPrepared true)
      ∧ (p.pollPrepared true).2.world.disk = p.world.disk.answered c := by
  have hpoll : p.pollPrepared true = (p.issued (p.world.disk.answered c)).completeCommand := by
    unfold PollPublication7.pollPrepared
    dsimp only
    rw [h.pollCommand, hd.pollCommand]
  have hlog : (p.world.disk.answered c).log = p.world.disk.submitted c := by
    rw [Device.submitted, hd.idle]
    rfl
  rw [hpoll]
  exact h.settles ho rfl hd.idle hlog

/-- A prepared command that the device fails ends the publication. -/
theorem Issuing.poll_fails (h : Issuing o p i c) {e : Error} {applied : Bool}
    (hidle : p.world.disk.inflight = none) (hr : p.world.disk.replies 0 = .failed e applied) :
    (p.pollPrepared true).2.phase = .uncertain ∧ (p.pollPrepared true).2.pending = false
      ∧ (p.pollPrepared true).2.error = some .uncertain
      ∧ (p.pollPrepared true).2.world = { p.world with
        volume := o.borrowed, disk := ((Device.execute c).run p.world.disk).2 } := by
  have hpolled : Device.pollCommand true c p.world.disk
      = (.ready (.error e), ((Device.execute c).run p.world.disk).2) := by
    rw [Device.run_execute_of_failed hidle hr]
    simp only [Device.pollCommand, hidle, ne_eq, not_true_eq_false, if_false, if_true,
      Device.settle, hr]
    cases applied <;> rfl
  have hvolume : ({ p.world.volume with fenced := true } : Volume7) = o.borrowed := by
    rw [h.tracks.volume]
    rfl
  unfold PollPublication7.pollPrepared
  dsimp only
  rw [h.pollCommand, hpolled]
  refine ⟨rfl, rfl, rfl, ?_⟩
  rw [← hvolume]
  rfl

/-! ### One poll, one abort -/

/-- Polling a guard on its way prepares its command and polls it. -/
theorem pollAdvance_eq {q : PollPublication7}
    (hphase : p.phase = .preparing ∨ p.phase = .readyToPublish ∨ p.phase = .settling)
    (hstep : StepAt o i p.step c) (hq : p.prepareBlock = .ok q) (settled : Bool) :
    p.pollAdvance settled = q.pollPrepared settled := by
  have hactive : p.pollAdvance settled = p.pollActive settled := by
    unfold PollPublication7.pollAdvance
    rcases hphase with h | h | h <;> rw [h]
  rw [hactive, PollPublication7.pollActive, hq]
  generalize p.step = step at hstep
  cases hstep <;> rfl

theorem Step.restPhase_cases (step : Step) :
    step.restPhase = .preparing ∨ step.restPhase = .readyToPublish
      ∨ step.restPhase = .settling := by
  cases step <;> simp [Step.restPhase]

/-- A guard at rest prepares its next command. -/
theorem Resting.prepare (ho : o.Sound) (h : Resting o p i) :
    ∃ q c, Issuing o q i c ∧ q.world = p.world ∧ q.stopping = false
      ∧ ∀ settled, p.pollAdvance settled = q.pollPrepared settled := by
  obtain ⟨c, ht⟩ := h.tracks
  obtain ⟨block, n, m, r, hprepare, hcommand, hcounted⟩ := ht.prepare ho h.counted h.prepared
  refine ⟨p.withBlock block n m r, c, ⟨⟨ht.candidate, ht.bytes, ht.step, ht.volume, ht.owner,
    ht.header⟩, hcounted, rfl, hcommand, fun hs => ?_, h.medium, Or.inl ⟨h.inflight, h.log⟩⟩, rfl,
    h.stopping, pollAdvance_eq ?_ ht.step hprepare⟩
  · have hstop : p.stopping = true := hs
    rw [h.stopping] at hstop
    cases hstop
  · rw [h.phase]
    exact p.step.restPhase_cases

/-- One poll of a guard at rest. -/
theorem Resting.poll (ho : o.Sound) (h : Resting o p i) (settled : Bool) :
    PollRan o i false (p.pollAdvance settled) := by
  obtain ⟨q, c, hissuing, -, hstop, hpoll⟩ := h.prepare ho
  rw [hpoll, ← hstop]
  exact hissuing.poll ho settled

/-- One poll of a guard whose command is outstanding. -/
theorem Waiting.poll (ho : o.Sound) (h : Waiting o p i) (settled : Bool) :
    PollRan o i p.stopping (p.pollAdvance settled) := by
  obtain ⟨c, hissuing, -⟩ := h.issuing
  have hprepare : p.prepareBlock = .ok p := by
    unfold PollPublication7.prepareBlock
    exact if_pos hissuing.prepared
  rw [pollAdvance_eq ?_ hissuing.tracks.step hprepare]
  · exact hissuing.poll ho settled
  · rw [h.phase]
    cases p.step <;> simp [Step.waitPhase]

/-- An abort of a guard at rest: it is cancelled, unless the header was submitted. -/
theorem Resting.abort (h : Resting o p i) :
    (∃ q, p.abortBeforeHeader = (.ok .cancelled, q) ∧ Cancelled o q i)
      ∨ i = o.extra.length + 102 ∧ p.abortBeforeHeader = (.ok .tooLate, p) := by
  obtain ⟨c, ht⟩ := h.tracks
  have hplace := ht.step.place
  have hphase := h.phase
  unfold PollPublication7.abortBeforeHeader
  by_cases hlast : p.step = .headerFlush
  · rw [hlast] at hphase
    rw [hphase]
    refine Or.inr ⟨?_, rfl⟩
    rcases hplace with ⟨hst, -⟩ | ⟨hst, -⟩ | ⟨-, hi⟩ | ⟨hst, -⟩
    · exact nomatch hst.symm.trans hlast
    · exact nomatch hst.symm.trans hlast
    · exact hi
    · exact absurd hlast hst.2.2
  · left
    refine ⟨{ p with phase := .cancelled, world := p.world.setFenced false }, ?_, rfl, h.pending,
      ?_, ?_, ht.owner, h.medium, h.inflight, h.log⟩
    · have hpending : ¬ p.pending = true := by rw [h.pending]; exact Bool.false_ne_true
      rcases hplace with ⟨hst, -⟩ | ⟨hst, -⟩ | ⟨hst, -⟩ | ⟨hst, -⟩
      · rw [hst] at hphase
        rw [hphase]
        exact if_neg hpending
      · rw [hst] at hphase
        rw [hphase]
        exact if_neg hpending
      · exact absurd hst hlast
      · have hrest : p.step.restPhase = .preparing := by
          cases hcase : p.step <;> simp_all [Step.restPhase]
        rw [hphase, hrest]
        exact if_neg hpending
    · rcases hplace with ⟨-, hi⟩ | ⟨-, hi⟩ | ⟨hst, -⟩ | ⟨-, hi⟩
      · omega
      · omega
      · exact absurd hst hlast
      · omega
    · show ({ p.world.volume with fenced := false } : Volume7) = _
      rw [ht.volume]

/-- An abort while a command is outstanding: the guard drains it and stops, unless the
command is the header or comes after it. -/
theorem Waiting.abort (h : Waiting o p i) :
    (p.abortBeforeHeader = (.ok .draining, { p with stopping := true })
        ∧ Waiting o { p with stopping := true } i ∧ i ≤ o.extra.length + 100)
      ∨ o.extra.length + 101 ≤ i ∧ p.abortBeforeHeader = (.ok .tooLate, p) := by
  obtain ⟨c, hissuing, hinflight⟩ := h.issuing
  have ht := hissuing.tracks
  have hphase := h.phase
  have hpending := h.pending
  -- before the header the phase is `preparing`
  have hdrain : p.step.waitPhase = .preparing → i ≤ o.extra.length + 100 →
      p.abortBeforeHeader = (.ok .draining, { p with stopping := true })
        ∧ Waiting o { p with stopping := true } i ∧ i ≤ o.extra.length + 100 := by
    intro hwait hle
    refine ⟨?_, ⟨⟨c, ⟨⟨ht.candidate, ht.bytes, ht.step, ht.volume, ht.owner, ht.header⟩,
      ⟨hissuing.counted.nodes, hissuing.counted.map, hissuing.counted.receipts⟩,
      hissuing.prepared, hissuing.command, fun _ => hle, hissuing.medium, hissuing.issued⟩,
      hinflight⟩, hpending, hphase⟩, hle⟩
    unfold PollPublication7.abortBeforeHeader
    rw [hphase, hwait]
    exact if_pos hpending
  have hlate : p.step.waitPhase = .settling → p.abortBeforeHeader = (.ok .tooLate, p) := by
    intro hwait
    unfold PollPublication7.abortBeforeHeader
    rw [hphase, hwait]
  rcases ht.step.place with ⟨hst, hi⟩ | ⟨hst, hi⟩ | ⟨hst, hi⟩ | ⟨hst, hi⟩
  · exact Or.inl (hdrain (by rw [hst]; rfl) (by omega))
  · exact Or.inr ⟨by omega, hlate (by rw [hst]; rfl)⟩
  · exact Or.inr ⟨by omega, hlate (by rw [hst]; rfl)⟩
  · refine Or.inl (hdrain ?_ (by omega))
    cases hcase : p.step <;> simp_all [Step.waitPhase]

end

/-! ### Beginning -/

section
variable {w : World7} {c : Candidate7}

/-- A publication that writes its payload first. -/
theorem publish_resting (hidle : w.disk.inflight = none) (bytes : List UInt8) :
    Resting ⟨w, c, some bytes, true⟩ (.publish w c (some bytes)) 0 := by
  have hextra : (⟨w, c, some bytes, true⟩ : Origin).extra.length
      = (⟨w, c, some bytes, true⟩ : Origin).writes.length + 1 := by
    rw [Origin.extra, List.length_append]
    rfl
  have hadded : c.added.addedSectors = (runSectors c.added.runs).length :=
    (length_runSectors _).symm
  have hlen :
      (⟨w, c, some bytes, true⟩ : Origin).writes.length = (runSectors c.added.runs).length :=
    length_writes rfl
  refine ⟨?_, ⟨?_, ?_, ?_⟩, rfl, rfl, rfl, ?_, rfl, hidle, (List.append_nil _).symm⟩
  · by_cases hnone : c.added.addedSectors = 0
    · have hstep : (PollPublication7.publish w c (some bytes)).step = .payloadFlush := by
        show (if c.added.addedSectors ≠ 0 then Step.payloadWrite 0 else .payloadFlush) = _
        exact if_neg (not_not.mpr hnone)
      refine ⟨.flush, rfl, rfl, ?_, rfl, rfl, fun h => ?_⟩
      · rw [hstep]
        have hat := StepAt.payloadFlush (o := ⟨w, c, some bytes, true⟩) rfl
        rwa [hlen, ← hadded, hnone] at hat
      · omega
    · have hstep : (PollPublication7.publish w c (some bytes)).step = .payloadWrite 0 := by
        show (if c.added.addedSectors ≠ 0 then Step.payloadWrite 0 else .payloadFlush) = _
        exact if_pos hnone
      have hat := StepAt.payload (o := ⟨w, c, some bytes, true⟩) rfl
        (List.getElem?_eq_getElem (show 0 < (runSectors c.added.runs).length by omega))
      refine ⟨_, rfl, rfl, hstep ▸ hat, rfl, rfl, fun h => by omega⟩
  · rw [Nat.zero_sub]
    rfl
  · rw [Nat.zero_sub]
    rfl
  · rw [Nat.zero_sub]
    rfl
  · show Publication7Phase.preparing
      = Step.restPhase (if c.added.addedSectors ≠ 0 then Step.payloadWrite 0 else .payloadFlush)
    split <;> rfl

/-- A publication without payload, or whose payload a stage has written. -/
theorem change_resting (hidle : w.disk.inflight = none) :
    Resting ⟨w, c, none, false⟩ (.publish w c none) 0
      ∧ Resting ⟨w, c, none, true⟩ (.staged w c) 0 := by
  constructor
  · refine ⟨⟨_, rfl, rfl, StepAt.nodes (k := 0) (by omega), rfl, rfl, nofun⟩,
      ⟨?_, ?_, ?_⟩, rfl, rfl, rfl, rfl, rfl, hidle, (List.append_nil _).symm⟩ <;> rfl
  · refine ⟨⟨_, rfl, rfl, StepAt.payloadFlush rfl, rfl, rfl, nofun⟩,
      ⟨?_, ?_, ?_⟩, rfl, rfl, rfl, rfl, rfl, hidle, (List.append_nil _).symm⟩ <;> rfl

end

end RusticOs.Fs
