import RusticOs.Proofs.Tracked7

/-!
# `RusticOs.Proofs.Delta7`: the delta encoder writes the candidate's generation

A pollable publication never builds the new tables. It encodes each sector from the owner's
tables and the candidate's changes. The three theorems say that this is the encoding of the
changed tables: `encodeNodes_eq`, `encodeMap_eq` and `encodeReceipts_eq`.
-/

set_option autoImplicit false

namespace RusticOs.Fs

open RusticOs.Lib

/-! ### Nodes and receipts -/

/-- Reading every cell of a vector gives its list. -/
theorem map_finRange_getElem {α : Type} {n : Nat} (v : Vector α n) :
    (List.finRange n).map (fun i => v[i]) = v.toList := by
  apply List.ext_getElem
  · simp
  · intro i h1 h2
    simp

namespace PollPublication7

/-- The node a candidate encodes is that of the changed table. -/
theorem candidateNode_eq (c : Candidate7) (nodes : Nodes7) (i : Fin 256) :
    candidateNode c nodes i = (c.nodes nodes)[i] := by
  unfold candidateNode Candidate7.nodes
  cases c.nodeUpdate with
  | none => rfl
  | some update =>
    obtain ⟨changed, node⟩ := update
    dsimp only
    by_cases h : changed = i
    · rw [if_pos h, ← h, Vector.setAt_self]
    · rw [if_neg h, Vector.setAt_ne _ (Ne.symm h)]

/-- A sector of nodes, as if the table were changed first. -/
theorem encodeNodes_eq (c : Candidate7) (v : Volume7) (sector : Nat) :
    encodeNodes c v sector = nodesBlock (c.nodes v.nodes) sector := by
  have hlist : ((c.nodes v.nodes).toList.drop (4 * sector)).take 4
      = (((List.finRange 256).drop (4 * sector)).take 4).map
        fun i => candidateNode c v.nodes i := by
    rw [List.map_take, List.map_drop, ← map_finRange_getElem]
    simp only [candidateNode_eq]
  rw [encodeNodes, nodesBlock, hlist, List.mapM_map]
  rfl

/-- A sector of records, as if the table were changed first. -/
theorem encodeReceipts_eq (c : Candidate7) (v : Volume7) (sector : Nat) :
    encodeReceipts c v sector
      = receiptsBlock (v.records.setAt c.recordSlot (some c.record)) sector := by
  have hslot : ∀ i : Fin 8, (if i = c.recordSlot then some c.record else v.records[i])
      = (v.records.setAt c.recordSlot (some c.record))[i] := by
    intro i
    by_cases h : i = c.recordSlot
    · rw [if_pos h, h, Vector.setAt_self]
    · rw [if_neg h, Vector.setAt_ne _ h]
  unfold encodeReceipts receiptsBlock
  simp only [hslot]

/-! ### The bitmap -/

/-- A bit of a word after a list of bits was set or cleared. -/
theorem wordBit_foldl (sectors : List Nat) (word : UInt64) (allocated : Bool) {k : Nat}
    (hk : k < 64) :
    wordBit (sectors.foldl (fun word sector =>
        if allocated then word ||| bitMask (sector % 64)
        else word &&& ~~~ bitMask (sector % 64)) word) k
      = if ∃ s ∈ sectors, s % 64 = k then allocated else wordBit word k := by
  induction sectors generalizing word with
  | nil => simp
  | cons s sectors ih =>
    have hs : s % 64 < 64 := Nat.mod_lt _ (by decide)
    have hstep : wordBit (if allocated then word ||| bitMask (s % 64)
        else word &&& ~~~ bitMask (s % 64)) k
        = if s % 64 = k then allocated else wordBit word k := by
      cases allocated with
      | true =>
        rw [if_pos rfl, wordBit_or_mask _ hs hk]
        by_cases h : s % 64 = k <;> simp [h]
      | false =>
        rw [if_neg Bool.false_ne_true, wordBit_and_not_mask _ hs hk]
        by_cases h : s % 64 = k <;> simp [h]
    rw [List.foldl_cons, ih, hstep]
    simp only [List.mem_cons, exists_eq_or_imp]
    by_cases h : s % 64 = k <;> simp [h]

/-- The bits of runs inside the region that fall into a word. -/
theorem mem_wordSectors {runs : List Extent} (h : ∀ s ∈ runSectors runs, s < dataSectors)
    {index s : Nat} : s ∈ wordSectors index runs ↔ s ∈ runSectors runs ∧ s / 64 = index := by
  have hrun : ∀ run ∈ runs, (s ∈ List.range' (max run.start.toNat (index * 64))
      (min run.endSector.toNat (index * 64 + 64) - max run.start.toNat (index * 64)))
      ↔ s ∈ run.sectorList ∧ s / 64 = index := by
    intro run hmem
    have hend : run.sectors.toNat = 0 ∧ run.endSector.toNat = run.start.toNat
        ∨ run.endSector.toNat = run.start.toNat + run.sectors.toNat := by
      by_cases hzero : run.sectors.toNat = 0
      · left
        refine ⟨hzero, ?_⟩
        rw [Extent.endSector, UInt64.toNat_add, hzero, Nat.add_zero]
        exact Nat.mod_eq_of_lt run.start.toNat_lt
      · right
        have hlast := h (run.start.toNat + (run.sectors.toNat - 1)) (mem_runSectors.mpr
          ⟨run, hmem, Extent.mem_sectorList.mpr ⟨by omega, by omega⟩⟩)
        rw [Extent.endSector, UInt64.toNat_add]
        apply Nat.mod_eq_of_lt
        unfold dataSectors at hlast
        omega
    rw [List.mem_range'_1, Extent.mem_sectorList]
    omega
  unfold wordSectors
  rw [List.mem_flatMap, mem_runSectors]
  constructor
  · rintro ⟨run, hmem, hs⟩
    obtain ⟨hs, hword⟩ := (hrun run hmem).mp hs
    exact ⟨⟨run, hmem, hs⟩, hword⟩
  · rintro ⟨⟨run, hmem, hs⟩, hword⟩
    exact ⟨run, hmem, (hrun run hmem).mpr ⟨hs, hword⟩⟩

/-- A bit of the map lies in its word. -/
theorem get_word (map : SpaceMap) {index k : Nat} (hi : index < 2048) (hk : k < 64) :
    Bitmap.get map (64 * index + k) = wordBit map[index] k := by
  have hdiv : (64 * index + k) / 64 = index := by omega
  have hmod : (64 * index + k) % 64 = k := by omega
  simp [Bitmap.get, hdiv, hmod, hi]

/-- One word of the bitmap with runs set or cleared. -/
theorem mutateWord_eq (map : SpaceMap) {runs : List Extent}
    (h : ∀ s ∈ runSectors runs, s < dataSectors) (allocated : Bool) {index : Nat}
    (hi : index < 2048) :
    mutateWord map[index] index runs allocated = (mutateMap map runs allocated)[index] := by
  apply word_ext
  intro k hk
  rw [mutateWord, wordBit_foldl _ _ _ hk, ← get_word map hi hk,
    ← get_word (mutateMap map runs allocated) hi hk, mutateMap, Bitmap.get_setAll _ h]
  have hiff : (∃ s ∈ wordSectors index runs, s % 64 = k) ↔ 64 * index + k ∈ runSectors runs := by
    constructor
    · rintro ⟨s, hs, hmod⟩
      obtain ⟨hs, hdiv⟩ := (mem_wordSectors h).mp hs
      have heq : s = 64 * index + k := by omega
      exact heq ▸ hs
    · intro hs
      exact ⟨_, (mem_wordSectors h).mpr ⟨hs, by omega⟩, by omega⟩
  simp only [hiff]

/-- A sector of the map, as if the map were changed first. -/
theorem encodeMap_eq {c : Candidate7} {v : Volume7} (h : c.Fits v.map) (sector : Nat) :
    encodeMap c v sector = mapBlock (c.map v.map) sector := by
  have hword : ∀ i : Fin 2048, mutateWord (mutateWord v.map[i] i.val c.added.runs true) i.val
      c.released false = (c.map v.map)[i] := by
    intro i
    show mutateWord (mutateWord v.map[i.val] i.val c.added.runs true) i.val c.released false
      = (c.map v.map)[i.val]
    rw [mutateWord_eq v.map (fun s hs => (h.added s hs).1) true i.isLt,
      mutateWord_eq _ (fun s hs => get_lt (h.released s hs)) false i.isLt]
    rfl
  have hlist : ((c.map v.map).toList.drop (64 * sector)).take 64
      = (((List.finRange 2048).drop (64 * sector)).take 64).map fun i => (c.map v.map)[i] := by
    rw [List.map_take, List.map_drop, map_finRange_getElem]
  unfold encodeMap mapBlock
  simp only [hword]
  rw [hlist, List.flatMap_map]

end PollPublication7

end RusticOs.Fs
