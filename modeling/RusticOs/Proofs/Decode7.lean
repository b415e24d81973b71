import RusticOs.Proofs.Codec7

/-!
# `RusticOs.Proofs.Decode7`: what is accepted is what would be written

The other direction of the codecs. A block that decodes is the encoding of what it decodes
to, so every structure has exactly one image on disk: a reserved byte, an unused run or a
checksum that differs is refused.

Each proof shows that the fields of the decoded value are the cuts of the block at the
layout's width table, and puts the cuts together again.
-/

set_option autoImplicit false

namespace RusticOs.Fs

open RusticOs.Lib

/-! ### Runs -/

theorem le32_toUInt32_ofLe32 {l : List UInt8} (h : l.length = 4) :
    le32 (ofLe32 l).toUInt64.toUInt32 = l := by
  rw [UInt32.toUInt32_toUInt64, le32_ofLe32 h]

theorem encodeRuns_decodeRuns {b : List UInt8} (h : b.length = 64) :
    encodeRuns (decodeRuns b) = b := by
  have hrun : ∀ i : Fin 8, le32 (decodeRun (slice b (8 * i.val) 8)).start.toUInt32
      ++ le32 (decodeRun (slice b (8 * i.val) 8)).sectors.toUInt32 = slice b (8 * i.val) 8 := by
    intro i
    have hi := i.isLt
    have hlen : (slice b (8 * i.val) 8).length = 8 := length_slice_of_le (by omega)
    rw [decodeRun, le32_toUInt32_ofLe32 (length_slice_of_le (by omega)),
      le32_toUInt32_ofLe32 (length_slice_of_le (by omega)), slice_append_slice, slice,
      List.drop_zero, List.take_of_length_le (by omega)]
  have hlist : (decodeRuns b).toList
      = (List.finRange 8).map fun i => decodeRun (slice b (8 * i.val) 8) := by
    rw [decodeRuns, Vector.toList_ofFn, List.ofFn_eq_map]
  rw [encodeRuns, hlist, List.flatMap_map, List.flatMap, List.map_congr_left fun i _ => hrun i]
  have hrange : (List.finRange 8).map (fun i => slice b (8 * i.val) 8)
      = (List.range 8).map fun i => slice b (8 * i) 8 := by
    rw [← List.map_coe_finRange_eq_range, List.map_map]
    rfl
  rw [hrange, flatten_map_slice (by omega)]

/-! ### The header copy -/

section
variable {n off : Nat} (b : Bytes n)

theorem length_field {w : Nat} (h : off + w ≤ n) : (slice b.toList off w).length = w :=
  length_slice_of_le (by rw [Vector.length_toList]; exact h)

theorem slice_le32 (h : off + 4 ≤ n) :
    slice b.toList off 4 = le32 (ofLe32 (slice b.toList off 4)) :=
  (le32_ofLe32 (length_field b h)).symm

theorem slice_le64 (h : off + 8 ≤ n) :
    slice b.toList off 8 = le64 (ofLe64 (slice b.toList off 8)) :=
  (le64_ofLe64 (length_field b h)).symm

theorem le32_of_slice {x : UInt32} (h : off + 4 ≤ n) (hx : ofLe32 (slice b.toList off 4) = x) :
    slice b.toList off 4 = le32 x := by
  rw [← hx]
  exact slice_le32 b h

theorem slice_pack {w : Nat} (h : off + w ≤ n) :
    slice b.toList off w = (Bytes.pack w (slice b.toList off w)).toList :=
  (Bytes.toList_pack_of_length (length_field b h)).symm

theorem slice_of_allZero {w : Nat} (h : off + w ≤ n) (hz : allZero (slice b.toList off w) = true) :
    slice b.toList off w = zeros w := by
  rw [allZero_iff.mp hz, length_field b h]

/-- An array is its cuts put together. -/
theorem toList_of_slicesAt {b : Bytes n} {ws : List Nat} {fields : List (List UInt8)} {c : UInt32}
    (h : slicesAt b.toList 0 ws = fields ++ [le32 c]) (hw : ws.sum = n) :
    b.toList = fields.flatten ++ le32 c := by
  have hflat := flatten_slicesAt (l := b.toList) (hw.trans b.length_toList.symm)
  rw [h, List.flatten_append, List.flatten_singleton] at hflat
  exact hflat.symm

theorem slice_runs (h : off + 64 ≤ n) :
    slice b.toList off 64 = encodeRuns (decodeRuns (slice b.toList off 64)) :=
  (encodeRuns_decodeRuns (length_field b h)).symm

end

namespace Header7

/-- What a copy that decodes looks like. -/
theorem decode_eq_ok {b : Block} {h : Header7} (hb : decode b = .ok h) :
    h.validate = .ok () ∧ slicesAt b.toList 0 widths = h.fields (ofLe32 (slice b.toList 508 4))
      ∧ crc (slice b.toList 0 508 ++ zeros 4) = ofLe32 (slice b.toList 508 4) := by
  rw [decode, except_bind_eq_ok] at hb
  obtain ⟨_, hcheck, hb⟩ := hb
  obtain ⟨_, hv, hb⟩ := except_bind_eq_ok.mp hb
  rw [reject_eq_ok] at hcheck
  simp only [not_or, not_not, ne_eq] at hcheck
  obtain ⟨h0, h8, h9, -, h11, h89, h92, h60, h64, h68, h72, h76, h80, h84, h88, hcrc⟩ := hcheck
  cases hb
  refine ⟨hv, ?_, hcrc⟩
  simp only [widths, fields, slicesAt, Nat.zero_add, Nat.reduceAdd, List.cons.injEq, and_true]
  exact ⟨h0, h8, h9, slice_one b (by decide), h11, slice_pack b (by decide),
    slice_le64 b (by decide), slice_le64 b (by decide), slice_le32 b (by decide),
    slice_le32 b (by decide), slice_le32 b (by decide), slice_le32 b (by decide),
    le32_of_slice b (by decide) h60, le32_of_slice b (by decide) h64,
    le32_of_slice b (by decide) h68, le32_of_slice b (by decide) h72,
    le32_of_slice b (by decide) h76, le32_of_slice b (by decide) h80,
    le32_of_slice b (by decide) h84, h88, h89, slice_of_allZero b (by decide) h92,
    slice_le32 b (by decide)⟩

/-- A copy that decodes is the encoding of its header. -/
theorem encode_decode {b : Block} {h : Header7} (hb : decode b = .ok h) : h.encode = .ok b := by
  obtain ⟨hv, hs, hcrc⟩ := decode_eq_ok hb
  have hl : b.toList = (h.fields (ofLe32 (slice b.toList 508 4))).flatten := by
    rw [← hs, flatten_slicesAt (by simp [widths])]
  have hbody : slice b.toList 0 508 = ((h.fields 0).take 22).flatten :=
    slice_zero_of_append (hl.trans (h.flatten_fields _)) (by simp [fields, magic7])
  have hchecksum : h.checksum = ofLe32 (slice b.toList 508 4) := by
    rw [← hcrc, hbody, checksum, h.flatten_fields 0]
    rfl
  refine encode_eq_ok.mpr ⟨hv, ?_⟩
  rw [hchecksum]
  exact hl

end Header7

/-! ### The node record -/

namespace Node7

/-- What a record that decodes looks like. -/
theorem decode_eq_ok {b : Bytes 128} {n : Node7} (hb : decode b = .ok n)
    (hne : b ≠ Vector.replicate 128 0) :
    n.Shape ∧ n = cut b n.kind ∧ slice b.toList 20 1 = [n.kind.code]
      ∧ crc (slice b.toList 0 124) = ofLe32 (slice b.toList 124 4) := by
  rw [decode, if_neg hne, except_bind_eq_ok] at hb
  obtain ⟨_, hcrc, hb⟩ := hb
  rw [reject_eq_ok, not_not] at hcrc
  -- a file or a directory, cut and validated
  obtain ⟨kind, hkind, hcode, hrest⟩ : ∃ kind : Kind, kind ≠ .empty ∧ kind.code = b[20]
      ∧ ((cut b kind).validate >>= fun _ => pure (cut b kind)) = .ok n := by
    dsimp only at hb
    split at hb
    · rename_i h20
      exact ⟨.file, by decide, h20.symm, hb⟩
    · rename_i h20
      exact ⟨.directory, by decide, h20.symm, hb⟩
    · cases hb
  obtain ⟨_, hv, hrest⟩ := except_bind_eq_ok.mp hrest
  cases hrest
  rcases validate_eq_ok.mp hv with hempty | hshape
  · exact absurd (congrArg Node7.kind hempty) hkind
  · exact ⟨hshape, rfl, (slice_one b (by decide)).trans (by rw [← hcode]; rfl), hcrc⟩

/-- A record that decodes is the encoding of its node. -/
theorem encode_decode {b : Bytes 128} {n : Node7} (hb : decode b = .ok n) : n.encode = .ok b := by
  by_cases hzero : b = Vector.replicate 128 0
  · rw [decode, if_pos hzero] at hb
    cases hb
    rw [hzero, encode_empty]
  · obtain ⟨hshape, hcut, hcode, hcrc⟩ := decode_eq_ok hb hzero
    have hs : slicesAt b.toList 0 widths
        = n.fields ++ [le32 (ofLe32 (slice b.toList 124 4))] := by
      rw [hcut]
      simp only [widths, fields, cut, slicesAt, Nat.zero_add, Nat.reduceAdd, List.cons_append,
        List.nil_append, List.cons.injEq, and_true]
      exact ⟨slice_le32 b (by decide), slice_le32 b (by decide), slice_le64 b (by decide),
        slice_le32 b (by decide), hcode, slice_one b (by decide), slice_one b (by decide),
        slice_one b (by decide), slice_runs b (by decide), slice_pack b (by decide),
        slice_le32 b (by decide), slice_le32 b (by decide)⟩
    have hl := toList_of_slicesAt hs (by simp [widths])
    have hbody : slice b.toList 0 124 = n.fields.flatten :=
      slice_zero_of_append hl (by simp [fields])
    rw [encode_of_shape hshape, image, ← hbody, hcrc, hbody, ← hl, Bytes.pack_toList]

end Node7

/-! ### The retained record -/

theorem RecordState.code_ofCode {x : UInt8} {s : RecordState} (h : ofCode x = some s) :
    s.code = x := by
  unfold ofCode at h
  split at h <;> cases h <;> rfl

theorem PreventionReason.code_ofCode {x : UInt8} {p : PreventionReason} (h : ofCode x = some p) :
    p.code = x := by
  unfold ofCode at h
  split at h <;> cases h <;> rfl

namespace Record7

variable {b : Bytes 192} {r : Record7}

/-- What a slot that decodes looks like. -/
theorem decode_eq_ok (hb : decode b = .ok r) :
    r.Shape ∧ r = cut b r.state r.prevention ∧ slice b.toList 80 1 = [r.state.code]
      ∧ slice b.toList 81 1 = [(r.prevention.map PreventionReason.code).getD 0]
      ∧ slice b.toList 83 5 = zeros 5 ∧ slice b.toList 152 36 = zeros 36
      ∧ crc (slice b.toList 0 188) = ofLe32 (slice b.toList 188 4) := by
  rw [decode, except_bind_eq_ok] at hb
  obtain ⟨_, hcheck, hb⟩ := hb
  rw [reject_eq_ok] at hcheck
  simp only [not_or, not_not, ne_eq] at hcheck
  obtain ⟨hcrc, h83, h152⟩ := hcheck
  obtain ⟨state, hstate, hb⟩ := except_bind_eq_ok.mp hb
  have hcode := RecordState.code_ofCode (orRefuse_eq_ok.mp hstate)
  -- only a cancelled record has a cause
  obtain ⟨prevention, hprevention, hrest⟩ : ∃ prevention,
      (prevention.map PreventionReason.code).getD 0 = b[81]
      ∧ ((cut b state prevention).checkLocal >>= fun _ => pure (cut b state prevention))
        = .ok r := by
    dsimp only at hb
    split at hb
    · obtain ⟨prevention, hprevention, hb⟩ := except_bind_eq_ok.mp hb
      cases hcause : PreventionReason.ofCode b[81] with
      | none =>
        rw [hcause] at hprevention
        cases hprevention
      | some reason =>
        rw [hcause] at hprevention
        cases hprevention
        exact ⟨some reason, PreventionReason.code_ofCode hcause, hb⟩
    · obtain ⟨_, hzero, hb⟩ := except_bind_eq_ok.mp hb
      rw [reject_eq_ok, not_not] at hzero
      exact ⟨none, hzero.symm, hb⟩
  obtain ⟨_, hv, hrest⟩ := except_bind_eq_ok.mp hrest
  cases hrest
  exact ⟨checkLocal_eq_ok.mp hv, rfl, (slice_one b (by decide)).trans (by rw [← hcode]; rfl),
    (slice_one b (by decide)).trans (by rw [← hprevention]; rfl), h83,
    slice_of_allZero b (by decide) h152, hcrc⟩

/-- A slot that decodes is the encoding of its record. -/
theorem encode_decode (hb : decode b = .ok r) : r.encode = .ok b := by
  obtain ⟨hshape, hcut, hcode, hprevention, h83, h152, hcrc⟩ := decode_eq_ok hb
  have hs : slicesAt b.toList 0 widths = r.fields ++ [le32 (ofLe32 (slice b.toList 188 4))] := by
    rw [hcut]
    simp only [widths, fields, cut, slicesAt, Nat.zero_add, Nat.reduceAdd, List.cons_append,
      List.nil_append, List.cons.injEq, and_true]
    exact ⟨slice_le64 b (by decide), slice_le32 b (by decide), slice_le32 b (by decide),
      slice_le64 b (by decide), slice_le64 b (by decide), slice_le64 b (by decide),
      slice_le64 b (by decide), slice_le64 b (by decide), slice_le64 b (by decide),
      slice_le64 b (by decide), slice_le32 b (by decide), slice_le32 b (by decide), hcode,
      hprevention, slice_one b (by decide), h83, slice_runs b (by decide), h152,
      slice_le32 b (by decide)⟩
  have hl := toList_of_slicesAt hs (by simp [widths])
  have hbody : slice b.toList 0 188 = r.fields.flatten :=
    slice_zero_of_append hl (by simp [fields])
  rw [encode_of_shape hshape, image, ← hbody, hcrc, hbody, ← hl, Bytes.pack_toList]

theorem encode_eq_ok : r.encode = .ok b ↔ r.Shape ∧ b.toList = r.image := by
  have hlist := Bytes.toList_pack_of_length r.length_image
  constructor
  · intro h
    obtain ⟨⟨⟩, hv, -⟩ := except_bind_eq_ok.mp h
    have hshape := checkLocal_eq_ok.mp hv
    rw [encode_of_shape hshape] at h
    cases h
    exact ⟨hshape, hlist⟩
  · rintro ⟨hshape, hb⟩
    rw [encode_of_shape hshape, ← hb, Bytes.pack_toList]

theorem slot_eq_none : slot b = .ok none ↔ b = Vector.replicate 192 0 := by
  constructor
  · intro h
    unfold slot at h
    split at h
    · assumption
    · cases hd : decode b <;> rw [hd] at h <;> cases h
  · intro h
    rw [slot, if_pos h]

/-- A slot holds a record exactly when it is the record's encoding. -/
theorem slot_eq_some : slot b = .ok (some r) ↔ r.encode = .ok b := by
  constructor
  · intro h
    unfold slot at h
    split at h
    · cases h
    · cases hd : decode b with
      | error e =>
        rw [hd] at h
        cases h
      | ok r' =>
        rw [hd] at h
        cases h
        exact encode_decode hd
  · intro h
    obtain ⟨hshape, hb⟩ := encode_eq_ok.mp h
    rw [← Bytes.pack_toList b, hb]
    exact slot_image hshape

/-- A record decodes from its encoding. -/
theorem decode_encode (h : r.encode = .ok b) : decode b = .ok r := by
  have hslot := slot_eq_some.mpr h
  unfold slot at hslot
  split at hslot
  · cases hslot
  · cases hd : decode b with
    | error e =>
      rw [hd] at hslot
      cases hslot
    | ok r' =>
      rw [hd] at hslot
      cases hslot
      rfl

/-- The bytes of a slot that decodes. -/
theorem slotImage_of_slot {record : Option Record7} (h : slot b = .ok record) :
    slotImage record = b.toList := by
  cases record with
  | none =>
    rw [slot_eq_none.mp h]
    simp [slotImage, zeros]
  | some r => exact (encode_eq_ok.mp (slot_eq_some.mp h)).2.symm

theorem shape_of_slot (h : slot b = .ok (some r)) : r.Shape :=
  (encode_eq_ok.mp (slot_eq_some.mp h)).1

end Record7

/-! ### The receipt block -/

/-- Four sectors put together. -/
def receiptBytes (blocks : Fin 4 → Block) : List UInt8 :=
  (List.finRange 4).flatMap fun i => (blocks i).toList

variable {records : Records7} {blocks : Fin 4 → Block}

theorem receiptBytes_eq
    (h : ∀ i, blocks i = Bytes.pack 512 (slice (receiptsImage records 8) (512 * i.val) 512)) :
    receiptBytes blocks = receiptsImage records 8 := by
  have hlen := length_receiptsImage records (k := 8) (le_refl 8)
  have hcut : ∀ i : Fin 4, (blocks i).toList
      = slice (receiptsImage records 8) (512 * i.val) 512 := by
    intro i
    have hi := i.isLt
    rw [h i, Bytes.toList_pack_of_length (length_slice_of_le (by omega))]
  have hrange : (List.finRange 4).map (fun i => slice (receiptsImage records 8) (512 * i.val) 512)
      = (List.range 4).map fun i => slice (receiptsImage records 8) (512 * i) 512 := by
    rw [← List.map_coe_finRange_eq_range, List.map_map]
    rfl
  rw [receiptBytes, List.flatMap, List.map_congr_left fun i _ => hcut i, hrange,
    flatten_map_slice (by omega)]

theorem slice_receiptBytes (blocks : Fin 4 → Block) (i : Fin 4) :
    slice (receiptBytes blocks) (512 * i.val) 512 = (blocks i).toList := by
  have hi : i.val < ((List.finRange 4).map fun i => (blocks i).toList).length := by simp
  have := slice_flatten (w := 512)
    (show ∀ c ∈ (List.finRange 4).map fun i => (blocks i).toList, c.length = 512 by simp) hi
  rw [receiptBytes, List.flatMap, this]
  simp

theorem length_receiptBytes (blocks : Fin 4 → Block) : (receiptBytes blocks).length = 2048 := by
  simp [receiptBytes, List.length_flatMap]

/-- A block whose slots decode is the image of its records. -/
theorem receiptsImage_of_slots {block : List UInt8} (hlen : block.length = 2048)
    (h : receiptSlots block = .ok records.toList) :
    receiptsImage records 8 = block
      ∧ ∀ (i : Fin 8) (r : Record7), records[i] = some r → r.Shape := by
  obtain ⟨_, hpad, h⟩ := except_bind_eq_ok.mp h
  rw [reject_eq_ok, not_not] at hpad
  have hchunk : ∀ c ∈ chunks 192 8 (block.take 1536), c.length = 192 := fun c hc =>
    length_of_mem_chunks (by rw [List.length_take]; omega) hc
  have hfront : chunks 192 8 block = chunks 192 8 (block.take 1536) := by
    have hcut := chunks_flatten_append (chunks 192 8 (block.take 1536)) hchunk (block.drop 1536)
    rwa [length_chunks, flatten_chunks (by rw [List.length_take]; omega),
      List.take_append_drop] at hcut
  rw [hfront, except_mapM_eq_ok] at h
  have hslots : List.Forall₂ (fun c record => c = slotImage record)
      (chunks 192 8 (block.take 1536)) records.toList := by
    refine ((List.forall₂_and_left _ _).mpr ⟨hchunk, h⟩).imp fun c record hc => ?_
    rw [Record7.slotImage_of_slot hc.2, Bytes.toList_pack_of_length hc.1]
  have himages : chunks 192 8 (block.take 1536) = records.toList.map slotImage := by
    rw [← List.forall₂_eq_eq_eq]
    exact List.forall₂_map_right_iff.mpr hslots
  constructor
  · rw [receiptsImage, List.take_of_length_le (by simp), List.flatMap, ← himages,
      flatten_chunks (by rw [List.length_take]; omega)]
    have hzero : zeros (2048 - 192 * 8) = block.drop 1536 := by
      rw [allZero_iff.mp hpad, List.length_drop, hlen]
    rw [hzero, List.take_append_drop]
  · intro i r hr
    have hslot := h.get (show i.val < _ by simp) (show i.val < _ by simp)
    have hget : records.toList.get ⟨i.val, by simp⟩ = some r := by simpa using hr
    rw [hget] at hslot
    exact Record7.shape_of_slot hslot

/-- The records of sectors that could be built have their own shape. -/
theorem shape_of_receiptsBlock (h : ∀ i : Fin 4, receiptsBlock records i.val = .ok (blocks i))
    (i : Fin 8) {r : Record7} (hr : records[i] = some r) : r.Shape := by
  have hi := i.isLt
  -- the sector in which the slot starts
  obtain ⟨block, hfold, -⟩ := except_bind_eq_ok.mp (h ⟨192 * i.val / 512, by omega⟩)
  obtain ⟨x, y, hcopy⟩ := foldlM_step_ok hfold (List.mem_finRange i)
  rw [hr, copyReceipt, if_neg (by dsimp only; omega)] at hcopy
  obtain ⟨b, hencode, -⟩ := except_bind_eq_ok.mp hcopy
  exact (Record7.encode_eq_ok.mp hencode).1

/-- A receipt block decodes to the records whose sectors it consists of. -/
theorem receiptSlots_eq_ok :
    receiptSlots (receiptBytes blocks) = .ok records.toList
      ↔ ∀ i : Fin 4, receiptsBlock records i.val = .ok (blocks i) := by
  constructor
  · intro h i
    obtain ⟨himage, hshape⟩ := receiptsImage_of_slots (length_receiptBytes blocks) h
    rw [receiptsBlock_spec hshape i.isLt, himage, slice_receiptBytes, Bytes.pack_toList]
  · intro h
    have hshape := fun i r hr => shape_of_receiptsBlock h i (r := r) hr
    have hblocks : ∀ i, blocks i
        = Bytes.pack 512 (slice (receiptsImage records 8) (512 * i.val) 512) := by
      intro i
      exact Except.ok.inj ((h i).symm.trans (receiptsBlock_spec hshape i.isLt))
    rw [receiptBytes_eq hblocks]
    exact receiptSlots_receiptsImage hshape

end RusticOs.Fs
