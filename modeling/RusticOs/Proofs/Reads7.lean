import RusticOs.Proofs.Owner7

/-!
# `RusticOs.Proofs.Reads7`: bounded reads return slices of the stored bytes

A bounded read walks the runs of a payload and copies the part of each that falls into the
requested range. `readRuns_reads` says that the parts put together are the requested slice
of the whole payload, clipped at its length.

* `readRange_spec`: a read of a live file is a slice of its bytes in the store.
* `readRetainedRange_spec`: a read of a retained record is a slice of its snapshot.
-/

set_option autoImplicit false

namespace RusticOs.Fs

open RusticOs.Lib RusticOs.Lib.Fallible

/-! ### Slices -/

section
variable {α : Type}

/-- A slice of a concatenation: the part in front and the part behind. -/
theorem slice_append (a b : List α) (off len : Nat) :
    slice (a ++ b) off len
      = slice a off len ++ slice b (off - a.length) (len - (a.length - off)) := by
  rw [slice, slice, slice, List.drop_append, List.take_append, List.length_drop]

/-- A slice ends where the list ends. -/
theorem slice_clip (l : List α) (off len : Nat) :
    slice l off len = slice l off (min len (l.length - off)) := by
  have hlen : (l.drop off).length = l.length - off := List.length_drop
  rcases Nat.le_total len (l.length - off) with h | h
  · rw [Nat.min_eq_left h]
  · rw [Nat.min_eq_right h, slice, slice, List.take_of_length_le (by omega),
      List.take_of_length_le (by omega)]

theorem slice_eq_nil {l : List α} {off len : Nat} (h : len = 0 ∨ l.length ≤ off) :
    slice l off len = [] := by
  rcases h with rfl | h
  · rw [slice, List.take_zero]
  · rw [slice, List.drop_eq_nil_of_le h, List.take_nil]

theorem slice_drop (l : List α) (k off len : Nat) :
    slice (l.drop k) off len = slice l (k + off) len := by
  rw [slice, slice, List.drop_drop]

theorem slice_take (l : List α) (n off len : Nat) :
    slice (l.take n) off len = slice l off (min len (n - off)) := by
  rw [slice, slice, List.drop_take, List.take_take]

end

/-! ### Copying sectors -/

theorem sectorBytes_cons (img : Nat → Block) (s : Nat) (sectors : List Nat) :
    sectorBytes img (s :: sectors)
      = (img (payloadSector + s)).toList ++ sectorBytes img sectors := rfl

theorem sectorBytes_drop (img : Nat → Block) (sectors : List Nat) (k : Nat) :
    sectorBytes img (sectors.drop k) = (sectorBytes img sectors).drop (512 * k) := by
  induction sectors generalizing k with
  | nil => simp [sectorBytes]
  | cons s sectors ih =>
    cases k with
    | zero => rfl
    | succ k =>
      have hfront : (img (payloadSector + s)).toList.drop (512 * (k + 1)) = [] :=
        List.drop_eq_nil_of_le (by rw [Vector.length_toList]; omega)
      rw [List.drop_succ_cons, ih, sectorBytes_cons, List.drop_append, Vector.length_toList,
        hfront, List.nil_append, show 512 * (k + 1) - 512 = 512 * k by omega]

/-- Copying from consecutive sectors. -/
theorem copySectors_reads (sectors : List Nat) {within remaining : Nat} (h : within ≤ 512) :
    Reads (copySectors sectors within remaining) fun img =>
      .ok (slice (sectorBytes img sectors) within remaining) := by
  induction sectors generalizing within remaining with
  | nil =>
    refine (Reads.pure []).congr fun img => ?_
    rw [slice_eq_nil (Or.inr (Nat.zero_le _))]
  | cons s sectors ih =>
    rw [copySectors]
    split
    · rename_i hzero
      refine (Reads.pure []).congr fun img => ?_
      rw [slice_eq_nil (Or.inl hzero)]
    · refine ((Reads.read (payloadSector + s)).bind fun block =>
        (ih (Nat.zero_le _)).bind fun tail => Reads.pure
          (slice block.toList within (min remaining (512 - within)) ++ tail)).congr fun img => ?_
      show Except.ok (_ ++ _) = Except.ok _
      rw [sectorBytes_cons, slice_append, Vector.length_toList, Nat.sub_eq_zero_of_le h,
        slice_clip (img (payloadSector + s)).toList within remaining, Vector.length_toList]
      congr 3
      omega

/-! ### Runs -/

/-- The part of `[offset, stop)` in runs that begin at `position` of a payload. -/
theorem readRunList_reads (offset stop : Nat) (runs : List Extent) (position : Nat) :
    Reads (readRunList offset stop runs position) fun img =>
      .ok (slice (sectorBytes img (runSectors runs)) (offset - position)
        (stop - max offset position)) := by
  -- one run at a time; `position` is where the run begins
  induction runs generalizing position with
  | nil =>
    refine (Reads.pure []).congr fun img => ?_
    rw [slice_eq_nil (Or.inr (Nat.zero_le _))]
  | cons run runs ih =>
    have hlen : ∀ img : Nat → Block,
        (sectorBytes img run.sectorList).length = 512 * run.sectors.toNat := fun img => by
      rw [length_sectorBytes, Extent.length_sectorList]
    have hrest : ∀ x : Fallible Error Disk (List UInt8),
        Reads x (fun img => .ok (slice (sectorBytes img run.sectorList) (offset - position)
          (stop - max offset position))) →
        Reads (do
          let part ← x
          let tail ← readRunList offset stop runs (position + run.sectors.toNat * 512)
          pure (part ++ tail)) fun img =>
            .ok (slice (sectorBytes img (runSectors (run :: runs))) (offset - position)
              (stop - max offset position)) := by
      intro x hx
      refine (hx.bind fun part => (ih (position + run.sectors.toNat * 512)).bind fun tail =>
        Reads.pure (part ++ tail)).congr fun img => ?_
      show Except.ok (_ ++ _) = Except.ok _
      rw [runSectors_cons, sectorBytes_append, slice_append, hlen]
      congr 3
      · omega
      · omega
    rw [readRunList]
    dsimp only
    split
    · refine hrest _ ((copySectors_reads _ (by omega)).congr fun img => ?_)
      rw [sectorBytes_drop, slice_drop, slice_clip _ (offset - position), hlen]
      congr 2
      · omega
      · omega
    · refine hrest _ ((Reads.pure []).congr fun img => ?_)
      rw [slice_eq_nil]
      rw [hlen]
      omega

/-- A bounded read is a slice of the payload. -/
theorem readRuns_reads {runs : List Extent} {length : UInt32} (offset : UInt64) (size : Nat)
    (h : length.toNat ≤ 512 * (runSectors runs).length) :
    Reads (readRuns runs length offset size) fun img =>
      if offset.toNat > length.toNat then .error .size
      else .ok (slice (payload img runs length.toNat) offset.toNat size) := by
  refine ((Reads.refuse (offset.toNat > length.toNat) Error.size).bind fun _ =>
    (readRunList_reads offset.toNat
      (offset.toNat + min size (length.toNat - offset.toNat)) runs 0).bind fun bytes =>
    (Reads.refuse (bytes.length ≠ min size (length.toNat - offset.toNat)) Error.corrupt).bind
      fun _ => Reads.pure bytes).congr fun img => ?_
  by_cases hsize : offset.toNat > length.toNat
  · rw [if_pos hsize, reject, if_pos hsize]
    rfl
  · have hslice : slice (sectorBytes img (runSectors runs)) (offset.toNat - 0)
        (offset.toNat + min size (length.toNat - offset.toNat) - max offset.toNat 0)
          = slice (payload img runs length.toNat) offset.toNat size := by
      rw [payload_eq, slice_take]
      congr 1
      omega
    have hlength : (slice (payload img runs length.toNat) offset.toNat size).length
        = min size (length.toNat - offset.toNat) := by
      rw [length_slice, payload_eq, List.length_take, length_sectorBytes]
      omega
    rw [if_neg hsize, reject, if_neg hsize]
    show (Except.bind (reject _ _) _ : Except Error (List UInt8)) = _
    rw [hslice, reject, if_neg (not_not.mpr hlength)]
    rfl

/-! ### Two runs of a read -/

section
variable {img img' : Nat → Block}

theorem copySectors_lockstep (sectors : List Nat) (within remaining : Nat) :
    Lockstep img img' (fun _ _ => True) (copySectors sectors within remaining)
      (copySectors sectors within remaining) := by
  induction sectors generalizing within remaining with
  | nil => exact Lockstep.pure trivial
  | cons s sectors ih =>
    rw [copySectors]
    split
    · exact Lockstep.pure trivial
    · exact (Lockstep.read _).bind fun _ _ _ => (ih _ _).bind fun _ _ _ => Lockstep.pure trivial

theorem readRunList_lockstep (offset stop : Nat) (runs : List Extent) (position : Nat) :
    Lockstep img img' (fun _ _ => True) (readRunList offset stop runs position)
      (readRunList offset stop runs position) := by
  induction runs generalizing position with
  | nil => exact Lockstep.pure trivial
  | cons run runs ih =>
    have hrest : ∀ a c : List UInt8, Lockstep img img' (fun _ _ => True)
        (do
          let tail ← readRunList offset stop runs (position + run.sectors.toNat * 512)
          pure (a ++ tail))
        (do
          let tail ← readRunList offset stop runs (position + run.sectors.toNat * 512)
          pure (c ++ tail)) := fun _ _ => (ih _).bind fun _ _ _ => Lockstep.pure trivial
    rw [readRunList]
    split
    · exact (copySectors_lockstep _ _ _).bind fun a c _ => hrest a c
    · exact hrest [] []

/-- A read of a payload that two disks show alike ends alike on both. -/
theorem readRuns_lockstep {runs : List Extent} {length : UInt32} (offset : UInt64) (size : Nat)
    (h : length.toNat ≤ 512 * (runSectors runs).length)
    (hsame : payload img runs length.toNat = payload img' runs length.toNat) :
    Lockstep img img' (· = ·) (readRuns runs length offset size)
      (readRuns runs length offset size) := by
  have hlock : Lockstep img img' (fun _ _ => True) (readRuns runs length offset size)
      (readRuns runs length offset size) := by
    refine (Lockstep.refuse Iff.rfl _).bind fun _ _ _ => ?_
    refine ((readRunList_lockstep offset.toNat _ runs 0).reads (readRunList_reads _ _ _ _)
      (readRunList_reads _ _ _ _)).bind fun a c hac => ?_
    -- both disks give as many bytes
    have hlen : a.length = c.length := by
      rw [← Except.ok.inj hac.1, ← Except.ok.inj hac.2, length_slice, length_slice,
        length_sectorBytes, length_sectorBytes]
    exact (Lockstep.refuse (by rw [hlen]) _).bind fun _ _ _ => Lockstep.pure trivial
  refine (hlock.reads (readRuns_reads offset size h) (readRuns_reads offset size h)).mono ?_
  intro a c hac
  rw [hsame] at hac
  exact Except.ok.inj (hac.1.symm.trans hac.2)

end

/-! ### Reads of an owner -/

section
variable {w : World7} {staged : Fin 2 → List UInt8}

/-- A computation on the disk that only reads leaves an owner as it was. -/
theorem run_reads {α : Type} (h : Ready w staged) {x : Fallible Error Disk α}
    {f : (Nat → Block) → Except Error α} (hx : Reads x f) :
    ∃ r d, (onDisk x).run w = (r, { w with disk := d }) ∧ SameDisk d w
      ∧ (r = f w.disk.medium.view ∨ ∃ e, r = .error e)
      ∧ (w.disk.AllDone → r = f w.disk.medium.view) := by
  obtain ⟨hm, hi, -, hres, hall⟩ := hx w.disk
  exact ⟨_, _, rfl, ⟨hm, hi.trans h.idle⟩, hres, fun hd => (hall hd).1⟩

/-- How a read ends: nothing changes, and the answer is `f` or a refusal. -/
structure ReadRan {α : Type} (w : World7) (answer : Except Error α)
    (r : Except Error α × World7) : Prop where
  world : ∃ d, r.2 = { w with disk := d } ∧ SameDisk d w
  answers : ∀ a, r.1 = .ok a → answer = .ok a
  total : w.disk.AllDone → r.1 = answer

/-- What a bounded read of a payload answers. -/
def readAnswer (bytes : List UInt8) (offset : UInt64) (size : Nat) : Except Error (List UInt8) :=
  if offset.toNat > bytes.length then .error .size else .ok (slice bytes offset.toNat size)

theorem run_readRuns (h : Ready w staged) {runs : List Extent} {length crc32 : UInt32}
    (hstored : Stored w.disk.medium.view runs length crc32) (offset : UInt64) (size : Nat) :
    ReadRan w (readAnswer (payload w.disk.medium.view runs length.toNat) offset size)
      ((onDisk (readRuns runs length offset size)).run w) := by
  obtain ⟨r, d, hrun, hd, hres, hall⟩ := run_reads h (readRuns_reads offset size hstored.enough)
  have hlen : (payload w.disk.medium.view runs length.toNat).length = length.toNat := by
    rw [payload_eq, List.length_take, length_sectorBytes]
    have := hstored.enough
    omega
  have hanswer : readAnswer (payload w.disk.medium.view runs length.toNat) offset size
      = if offset.toNat > length.toNat then .error .size
        else .ok (slice (payload w.disk.medium.view runs length.toNat) offset.toNat size) := by
    rw [readAnswer, hlen]
  rw [hrun, hanswer]
  refine ⟨⟨d, rfl, hd⟩, fun a ha => ?_, hall⟩
  rcases hres with hres | ⟨e, he⟩
  · exact hres.symm.trans ha
  · exact nomatch he.symm.trans ha

/-- What reading a live file of a store answers. -/
def Store.read (s : Store) (id : UInt32) (expectedVersion : Option UInt64) (offset : UInt64)
    (size : Nat) : Except Error (List UInt8) :=
  match s.entries id with
  | none => .error .notFound
  | some entry =>
    if expectedVersion.any (· != entry.version) = true then .error .version
    else if entry.kind ≠ .file then .error .isDirectory
    else readAnswer entry.bytes offset size

variable (h : Ready w staged)
include h

theorem ReadRan.refused {α : Type} (e : Error) :
    ReadRan w (.error e) ((Fallible.fail e : Op α).run w) :=
  ⟨⟨w.disk, rfl, rfl, h.idle⟩, nofun, fun _ => rfl⟩

/-- The live node of an identity, by slot or by search. -/
theorem stat_eq (id : UInt32) :
    w.volume.stat id = .error .notFound ∧ w.contents.store.entries id = none
      ∨ ∃ i : Fin 256, w.volume.stat id = .ok w.volume.nodes[i]
        ∧ w.volume.nodes[i].kind ≠ .empty ∧ w.volume.nodes[i].id = id
        ∧ w.contents.store.entries id = some (w.volume.nodes[i].entry
          (fileBytes w.disk.medium.view w.volume.nodes i)) := by
  have hready : w.volume.ready = .ok () := Volume7.ready_eq_ok.mpr h.unfenced
  cases hfind : w.volume.nodes.toList.find? fun node =>
      decide (node.kind ≠ .empty ∧ node.id = id) with
  | none =>
    refine Or.inl ⟨?_, ?_⟩
    · rw [Volume7.stat, hready, hfind]
      rfl
    · cases hentry : w.contents.store.entries id with
      | none => rfl
      | some entry =>
        obtain ⟨i, hk, hid, -⟩ := (entriesOf_eq_some _ h.valid).mp hentry
        have hnone := List.find?_eq_none.mp hfind _ (getElem_mem_nodes w.volume.nodes i)
        exact absurd (decide_eq_true ⟨hk, hid⟩) hnone
  | some node =>
    have hstat : w.volume.stat id = .ok node := by
      rw [Volume7.stat, hready, hfind]
      rfl
    obtain ⟨i, rfl, hk, hid⟩ := stat_spec hstat
    refine Or.inr ⟨i, hstat, hk, hid, ?_⟩
    rw [← hid]
    exact entriesOf_slot _ h.valid hk

/-- A read of a live file is a read of its entry in the store. -/
theorem readRange_spec (id : UInt32) (expectedVersion : Option UInt64) (offset : UInt64)
    (size : Nat) :
    ReadRan w (w.contents.store.read id expectedVersion offset size)
      ((readRange id expectedVersion offset size).run w) := by
  rw [readRange, run_getVolume_bind, Store.read]
  rcases stat_eq h id with ⟨hstat, hentry⟩ | ⟨i, hstat, hk, hid, hentry⟩
  · rw [hstat, hentry, lift_error_bind]
    exact .refused h _
  · rw [hstat, hentry, lift_ok_bind]
    dsimp only [Node7.entry]
    by_cases hversion : expectedVersion.any (· != w.volume.nodes[i].version) = true
    · rw [if_pos hversion, refuse_bind_of hversion]
      exact .refused h _
    rw [if_neg hversion, refuse_bind_of_not hversion]
    by_cases hkind : w.volume.nodes[i].kind ≠ .file
    · rw [if_pos hkind, refuse_bind_of hkind]
      exact .refused h _
    rw [if_neg hkind, refuse_bind_of_not hkind]
    have hvalid : ¬ w.volume.nodes[i].validate ≠ .ok () :=
      not_not.mpr (h.valid.node_validate (getElem_mem_nodes _ i))
    rw [refuse_bind_of_not hvalid]
    exact run_readRuns h (h.durable.recovers.stored.node _ (getElem_mem_nodes _ i)
      (not_not.mp hkind)) offset size

/-- A read of a retained record is a slice of its snapshot. -/
theorem readRetainedRange_spec (record : Record7) (offset : UInt64) (size : Nat) :
    ReadRan w (if record ∈ w.volume.records.toList.reduceOption
        then readAnswer (payload w.disk.medium.view record.runs record.length.toNat) offset size
        else .error .notFound)
      ((readRetainedRange record offset size).run w) := by
  have hready : w.volume.ready = .ok () := Volume7.ready_eq_ok.mpr h.unfenced
  rw [readRetainedRange, run_getVolume_bind, hready, lift_ok_bind]
  by_cases hmem : record ∈ w.volume.records.toList.reduceOption
  · rw [if_pos hmem, refuse_bind_of_not (not_not.mpr hmem)]
    obtain ⟨i, hi⟩ := mem_toList_records.mp (List.reduceOption_mem_iff.mp hmem)
    have hvalid : ¬ record.validate w.volume.header.sequence w.volume.header.next ≠ .ok () :=
      not_not.mpr (h.valid.record i record hi).bounds
    rw [refuse_bind_of_not hvalid]
    exact run_readRuns h (h.durable.recovers.stored.record i record hi) offset size
  · rw [if_neg hmem, refuse_bind_of hmem]
    exact .refused h _

end

end RusticOs.Fs
