import RusticOs.Fs.Publication7
import RusticOs.Proofs.Extents7

/-!
# `RusticOs.Proofs.Codec7`: what is written is what is read back

Decoding an encoded header copy, node or retained record gives the value back
(`Header7.decode_encode`, `Node7.decode_encode`, `Record7.slot_image`). The three regions
of a generation follow: a node sector decodes to its four nodes, a map sector to its 64
words, and the four receipt sectors together to the eight slots, although 192-byte slots
straddle sectors (`receiptSlots_receiptsImage`).

Each codec proof cuts the encoded bytes at the layout's own width table, so one rewrite
turns every offset the decoder reads into the field that was written there.
-/

set_option autoImplicit false

namespace RusticOs.Fs

open RusticOs.Lib

/-! ### Runs -/

theorem decodeRun_encode {run : Extent} (h : run.Inside) :
    decodeRun (le32 run.start.toUInt32 ++ le32 run.sectors.toUInt32) = run := by
  have hword : ∀ x : UInt64, x.toNat ≤ dataSectors → x.toUInt32.toUInt64 = x := by
    intro x hx
    apply UInt64.toNat_inj.mp
    rw [UInt32.toNat_toUInt64, UInt64.toNat_toUInt32,
      Nat.mod_eq_of_lt (lt_of_le_of_lt hx (by decide))]
  have h0 : slice (le32 run.start.toUInt32 ++ le32 run.sectors.toUInt32) 0 4
      = le32 run.start.toUInt32 := slice_zero_of_append rfl (length_le32 _)
  have h4 : slice (le32 run.start.toUInt32 ++ le32 run.sectors.toUInt32) 4 4
      = le32 run.sectors.toUInt32 := by
    rw [slice, List.drop_left' (length_le32 _), List.take_of_length_le (by simp)]
  unfold Extent.Inside at h
  rw [decodeRun, h0, h4, ofLe32_le32, ofLe32_le32, hword _ (by omega), hword _ (by omega)]

theorem decodeRuns_encodeRuns {runs : Vector Extent 8} (h : ∀ run ∈ runs.toList, run.Inside) :
    decodeRuns (encodeRuns runs) = runs := by
  apply Vector.ext
  intro i hi
  have hlen : i < (runs.toList.map fun run =>
      le32 run.start.toUInt32 ++ le32 run.sectors.toUInt32).length := by simpa using hi
  have hcut := slice_flatten (w := 8) (by simp) hlen
  rw [decodeRuns, Vector.getElem_ofFn, encodeRuns, List.flatMap, hcut, List.getElem_map]
  simpa using decodeRun_encode (h runs[i] (by simp))

@[simp] theorem length_encodeRuns (runs : Vector Extent 8) : (encodeRuns runs).length = 64 := by
  simp [encodeRuns, List.length_flatMap]

/-! ### The header copy -/

namespace Header7

theorem length_fields (h : Header7) (c : UInt32) :
    (h.fields c).map List.length = widths := by
  simp [fields, widths, magic7]

theorem length_flatten_fields (h : Header7) (c : UInt32) : (h.fields c).flatten.length = 512 := by
  rw [List.length_flatten, h.length_fields]
  rfl

/-- The checksum comes last. -/
theorem flatten_fields (h : Header7) (c : UInt32) :
    (h.fields c).flatten = ((h.fields 0).take 22).flatten ++ le32 c := by
  simp only [fields, List.take, List.flatten_cons, List.flatten_nil, List.append_assoc,
    List.append_nil]

theorem encode_eq_ok {h : Header7} {b : Block} :
    h.encode = .ok b ↔ h.validate = .ok () ∧ b.toList = (h.fields h.checksum).flatten := by
  have hlist := Bytes.toList_pack_of_length (h.length_flatten_fields h.checksum)
  rw [encode, except_bind_eq_ok]
  constructor
  · rintro ⟨⟨⟩, hv, hb⟩
    cases hb
    exact ⟨hv, hlist⟩
  · rintro ⟨hv, hb⟩
    refine ⟨(), hv, ?_⟩
    rw [← hlist, Vector.toList_inj] at hb
    rw [hb]
    rfl

theorem decode_encode {h : Header7} {b : Block} (hb : h.encode = .ok b) : decode b = .ok h := by
  obtain ⟨hv, hl⟩ := encode_eq_ok.mp hb
  have hs : slicesAt b.toList 0 widths = h.fields h.checksum := by
    rw [hl]
    exact slicesAt_flatten (h.length_fields _)
  simp only [widths, fields, slicesAt, Nat.zero_add, Nat.reduceAdd, List.cons.injEq, and_true] at hs
  obtain ⟨h0, h8, h9, h10, h11, h12, h28, h36, h44, h48, h52, h56, h60, h64, h68, h72, h76, h80,
    h84, h88, h89, h92, h508⟩ := hs
  have hgen : b[10] = h.generation := getElem_of_slice (by decide) h10
  have hcrc : crc (slice b.toList 0 508 ++ zeros 4) = h.checksum := by
    rw [slice_zero_of_append (hl.trans (h.flatten_fields _)) (by simp [fields, magic7]), checksum,
      h.flatten_fields 0]
    rfl
  have hg : ¬ h.generation ≥ 2 := by
    have := reject_eq_ok.mp hv
    tauto
  simp only [decode, h0, h8, h9, hgen, h11, h12, h28, h36, h44, h48, h52, h56, h60, h64, h68, h72,
    h76, h80, h84, h88, h89, h92, h508, hcrc, ofLe32_le32, ofLe64_le64, Bytes.pack_toList,
    allZero_zeros, hg]
  simp only [reject, ne_eq, not_true_eq_false, or_self, if_false]
  show (h.validate >>= fun _ => pure h) = .ok h
  rw [hv]
  rfl

end Header7

/-! ### The node record -/

namespace Node7

/-- What `Node7.validate` accepts, apart from the empty slot. -/
structure Shape (n : Node7) : Prop where
  id_ne : n.id ≠ 0
  version_ne : n.version ≠ 0
  kind_ne : n.kind ≠ .empty
  space : 1 ≤ n.space ∧ n.space ≤ 4
  nameLength_le : n.nameLength.toNat ≤ 31
  name : validName n.name = .ok ()
  padding : allZero (n.nameField.toList.drop n.nameLength.toNat) = true
  directory : n.kind = .directory → n.length = 0 ∧ n.payloadCrc32 = 0 ∧ n.extentsUsed = 0
  payload : PayloadShape n.extents n.extentsUsed n.length

theorem validate_eq_ok {n : Node7} : n.validate = .ok () ↔ n = empty ∨ n.Shape := by
  unfold validate
  split
  · rename_i h
    simp [h]
  · rename_i h
    simp only [except_bind_eq_ok, reject_eq_ok, checkPayload_eq_ok, h, false_or]
    constructor
    · rintro ⟨_, h1, _, h2, _, h3, _, h4, _, h5, h6⟩
      push Not at h1 h2 h3 h4 h5
      exact ⟨h1.1, h1.2.1, h1.2.2.1, h1.2.2.2.1, h1.2.2.2.2, h2, h3, h4, h6⟩
    · rintro ⟨h1, h2, h3, h4, h5, h6, h7, h8, h9⟩
      have hlen := h9.length_le
      refine ⟨(), ?_, (), by simp [h6], (), by simp [h7], (), ?_, (), by omega, h9⟩
      · push Not
        exact ⟨h1, h2, h3, h4, h5⟩
      · push Not
        exact h8

theorem Shape.ne_empty {n : Node7} (h : n.Shape) : n ≠ empty := by
  rintro rfl
  exact h.kind_ne rfl

theorem length_fields (n : Node7) (c : UInt32) :
    (n.fields ++ [le32 c]).map List.length = widths := by
  simp [fields, widths]

/-- The bytes of a node that is not empty. -/
def image (n : Node7) : List UInt8 := n.fields.flatten ++ le32 (crc n.fields.flatten)

theorem image_eq (n : Node7) :
    n.image = (n.fields ++ [le32 (crc n.fields.flatten)]).flatten := by
  simp [image]

theorem length_image (n : Node7) : n.image.length = 128 := by
  rw [image_eq, List.length_flatten, n.length_fields]
  rfl

theorem encode_empty : empty.encode = .ok (Vector.replicate 128 0) := by
  simp [encode, validate]

theorem encode_of_shape {n : Node7} (h : n.Shape) :
    n.encode = .ok (Bytes.pack 128 n.image) := by
  rw [encode, validate_eq_ok.mpr (Or.inr h)]
  show (if n = empty then _ else _) = _
  rw [if_neg h.ne_empty]
  rfl

/-- A node that passes its own check can be encoded. -/
theorem encode_of_validate {n : Node7} (h : n.validate = .ok ()) : ∃ b, n.encode = .ok b := by
  rcases validate_eq_ok.mp h with rfl | h
  · exact ⟨_, encode_empty⟩
  · exact ⟨_, encode_of_shape h⟩

theorem decode_image {n : Node7} (h : n.Shape) : decode (Bytes.pack 128 n.image) = .ok n := by
  have hl := Bytes.toList_pack_of_length n.length_image
  generalize Bytes.pack 128 n.image = b at hl
  have hs : slicesAt b.toList 0 widths = n.fields ++ [le32 (crc n.fields.flatten)] := by
    rw [hl, image_eq]
    exact slicesAt_flatten (n.length_fields _)
  have hbody : slice b.toList 0 124 = n.fields.flatten :=
    slice_zero_of_append hl (by simp [fields])
  simp only [widths, fields, slicesAt, Nat.zero_add, Nat.reduceAdd, List.cons_append,
    List.nil_append, List.cons.injEq, and_true] at hs
  obtain ⟨h0, h4, h8, h16, h20, h21, h22, h23, h24, h88, h120, h124⟩ := hs
  -- the identity is not zero, so the record is not the empty slot's image
  have hne : b ≠ Vector.replicate 128 0 := by
    rintro rfl
    apply h.id_ne
    rw [← ofLe32_le32 n.id, ← h0]
    rfl
  have hcrc : crc (slice b.toList 0 124) = ofLe32 (slice b.toList 124 4) := by
    rw [h124, hbody, ofLe32_le32]
    rfl
  have hv := validate_eq_ok.mpr (Or.inr h)
  rw [decode, if_neg hne]
  simp only [hcrc, h0, h4, h8, h16, h24, h88, h120, getElem_of_slice _ h20, getElem_of_slice _ h21,
    getElem_of_slice _ h22, getElem_of_slice _ h23, ofLe32_le32, ofLe64_le64,
    decodeRuns_encodeRuns h.payload.all_inside, Bytes.pack_toList]
  have hkind := h.kind_ne
  rcases n with ⟨id, parent, version, length, kind, space, used, extents, nameLength, name, crc32⟩
  cases kind with
  | empty => exact absurd rfl hkind
  | file | directory => simp [reject, Kind.code, hv, bind, Except.bind, pure, Except.pure]

theorem decode_encode {n : Node7} {b : Bytes 128} (hb : n.encode = .ok b) : decode b = .ok n := by
  have hv : n.validate = .ok () := by
    obtain ⟨⟨⟩, hv, -⟩ := except_bind_eq_ok.mp hb
    exact hv
  rcases validate_eq_ok.mp hv with rfl | h
  · rw [encode_empty] at hb
    cases hb
    rw [decode, if_pos rfl]
  · rw [encode_of_shape h] at hb
    cases hb
    exact decode_image h

end Node7

/-! ### The retained record -/

theorem RecordState.ofCode_code (s : RecordState) : RecordState.ofCode s.code = some s := by
  cases s <;> rfl

theorem PreventionReason.ofCode_code (p : PreventionReason) :
    PreventionReason.ofCode p.code = some p := by
  cases p <;> rfl

namespace Record7

/-- What `Record7.checkLocal` accepts. -/
structure Shape (r : Record7) : Prop where
  subject_ne : r.subject ≠ 0
  workspace_ne : r.workspace ≠ 0
  inst_ne : r.inst ≠ 0
  object_ge : ¬ r.object < nextMin
  object_ne : r.object ≠ r.workspace
  retryKey_ne : r.retryKey ≠ 0
  retryEpoch_ne : r.retryEpoch ≠ 0
  previous_ne : r.previous ≠ 0
  prevention : decide (r.state = .cancelled) = r.prevention.isSome
  state : r.stateBroken = false
  epoch : ¬ r.retryEpoch > r.epochBound
  payload : PayloadShape r.extents r.extentsUsed r.length

theorem checkLocal_eq_ok {r : Record7} : r.checkLocal = .ok () ↔ r.Shape := by
  simp only [checkLocal, except_bind_eq_ok, reject_eq_ok, checkPayload_eq_ok]
  constructor
  · rintro ⟨_, h1, _, h2, _, h3, _, h4, h5⟩
    push Not at h1 h2
    exact ⟨h1.1, h1.2.1, h1.2.2.1, h1.2.2.2.1, h1.2.2.2.2.1, h1.2.2.2.2.2.1,
      h1.2.2.2.2.2.2.1, h1.2.2.2.2.2.2.2, h2, by simpa using h3, h4, h5⟩
  · rintro ⟨h1, h2, h3, h4, h5, h6, h7, h8, h9, h10, h11, h12⟩
    refine ⟨(), ?_, (), fun h => h h9, (), by simp [h10], (), h11, h12⟩
    push Not
    exact ⟨h1, h2, h3, h4, h5, h6, h7, h8⟩

theorem length_fields (r : Record7) (c : UInt32) :
    (r.fields ++ [le32 c]).map List.length = widths := by
  simp [fields, widths]

/-- The bytes of a record. -/
def image (r : Record7) : List UInt8 := r.fields.flatten ++ le32 (crc r.fields.flatten)

theorem image_eq (r : Record7) :
    r.image = (r.fields ++ [le32 (crc r.fields.flatten)]).flatten := by
  simp [image]

@[simp] theorem length_image (r : Record7) : r.image.length = 192 := by
  rw [image_eq, List.length_flatten, r.length_fields]
  rfl

theorem encode_of_shape {r : Record7} (h : r.Shape) :
    r.encode = .ok (Bytes.pack 192 r.image) := by
  rw [encode, checkLocal_eq_ok.mpr h]
  rfl

theorem slot_image {r : Record7} (h : r.Shape) : slot (Bytes.pack 192 r.image) = .ok (some r) := by
  have hl := Bytes.toList_pack_of_length r.length_image
  generalize Bytes.pack 192 r.image = b at hl
  have hs : slicesAt b.toList 0 widths = r.fields ++ [le32 (crc r.fields.flatten)] := by
    rw [hl, image_eq]
    exact slicesAt_flatten (r.length_fields _)
  have hbody : slice b.toList 0 188 = r.fields.flatten :=
    slice_zero_of_append hl (by simp [fields])
  simp only [widths, fields, slicesAt, Nat.zero_add, Nat.reduceAdd, List.cons_append,
    List.nil_append, List.cons.injEq, and_true] at hs
  obtain ⟨h0, h8, h12, h16, h24, h32, h40, h48, h56, h64, h72, h76, h80, h81, h82, h83, h88, h152,
    h188⟩ := hs
  -- the subject is not zero, so the record is not an empty slot
  have hne : b ≠ Vector.replicate 192 0 := by
    rintro rfl
    apply h.subject_ne
    rw [← ofLe64_le64 r.subject, ← h0]
    rfl
  have hcrc : crc (slice b.toList 0 188) = ofLe32 (slice b.toList 188 4) := by
    rw [h188, hbody, ofLe32_le32]
    rfl
  have hv := checkLocal_eq_ok.mpr h
  rw [slot, if_neg hne, decode]
  simp only [hcrc, h0, h8, h12, h16, h24, h32, h40, h48, h56, h64, h72, h76, h83, h88, h152,
    getElem_of_slice _ h80, getElem_of_slice _ h81, getElem_of_slice _ h82, ofLe32_le32,
    ofLe64_le64, decodeRuns_encodeRuns h.payload.all_inside, RecordState.ofCode_code,
    allZero_zeros, orRefuse_some]
  have hprev := h.prevention
  rcases r with ⟨a, b, c, d, e, f, g, i, j, k, l, m, state, prevention, n, o⟩
  cases prevention with
  | none =>
    have hstate : state ≠ .cancelled := by simpa using hprev
    simp [reject, hstate, hv, bind, Except.bind, pure, Except.pure, Functor.map, Except.map]
  | some reason =>
    have hstate : state = .cancelled := by simpa using hprev
    simp [reject, hstate, bind, Except.bind, pure, Except.pure, Functor.map, Except.map,
      PreventionReason.ofCode_code]
    subst hstate
    rw [hv]

end Record7

/-! ### Regions of a generation -/

/-- Nodes that pass their own check encode, and each encoding decodes to its node. -/
theorem mapM_encode {nodes : List Node7} (h : ∀ n ∈ nodes, n.validate = .ok ()) :
    ∃ bs, nodes.mapM Node7.encode = .ok bs ∧ bs.length = nodes.length
      ∧ bs.mapM Node7.decode = .ok nodes := by
  induction nodes with
  | nil => exact ⟨[], rfl, rfl, rfl⟩
  | cons n nodes ih =>
    obtain ⟨b, hb⟩ := Node7.encode_of_validate (h n List.mem_cons_self)
    obtain ⟨bs, hbs, hlen, hdec⟩ := ih fun m hm => h m (List.mem_cons_of_mem _ hm)
    refine ⟨b :: bs, ?_, by simp [hlen], ?_⟩
    · rw [List.mapM_cons, hb, hbs]
      rfl
    · rw [List.mapM_cons, Node7.decode_encode hb, hdec]
      rfl

variable {sector : Nat} {records : Records7}

/-- A node sector decodes to its four nodes. -/
theorem nodesBlock_spec {nodes : Nodes7} (h : ∀ n ∈ nodes.toList, n.validate = .ok ())
    (hsector : sector < 64) :
    ∃ b, nodesBlock nodes sector = .ok b
      ∧ decodeNodes b = .ok ((nodes.toList.drop (4 * sector)).take 4) := by
  have hfour : ((nodes.toList.drop (4 * sector)).take 4).length = 4 := by
    simp only [List.length_take, List.length_drop, Vector.length_toList]
    omega
  obtain ⟨bs, hbs, hlen, hdec⟩ := mapM_encode
    fun n (hn : n ∈ (nodes.toList.drop (4 * sector)).take 4) =>
      h n (List.mem_of_mem_drop (List.mem_of_mem_take hn))
  rw [hfour] at hlen
  have hwidth : ∀ c ∈ bs.map Vector.toList, c.length = 128 := by simp
  have hbytes : (bs.flatMap Vector.toList).length = 512 := by
    rw [List.length_flatMap]
    simp [hlen]
  refine ⟨Bytes.pack 512 (bs.flatMap Vector.toList), ?_, ?_⟩
  · rw [nodesBlock, hbs]
    rfl
  · have hchunks := chunks_flatten (bs.map Vector.toList) hwidth
    rw [List.length_map, hlen] at hchunks
    have hpack : (fun b : Bytes 128 => Node7.decode (Bytes.pack 128 b.toList)) = Node7.decode := by
      funext b
      rw [Bytes.pack_toList]
    rw [decodeNodes, Bytes.toList_pack_of_length hbytes, List.flatMap, hchunks, List.mapM_map]
    exact (congrArg (fun f => bs.mapM f) hpack).trans hdec

/-- A map sector decodes to its 64 words. -/
theorem decodeMap_mapBlock (map : SpaceMap) (hsector : sector < 32) :
    decodeMap (mapBlock map sector) = (map.toList.drop (64 * sector)).take 64 := by
  have hlen : ((map.toList.drop (64 * sector)).take 64).length = 64 := by
    simp only [List.length_take, List.length_drop, Vector.length_toList]
    omega
  generalize hws : (map.toList.drop (64 * sector)).take 64 = words at hlen
  have hbytes : (words.flatMap le64).length = 512 := by
    rw [List.length_flatMap]
    simp [hlen]
  have hchunks := chunks_flatten (w := 8) (words.map le64) (by simp)
  rw [List.length_map, hlen] at hchunks
  rw [decodeMap, mapBlock, hws, Bytes.toList_pack_of_length hbytes, List.flatMap, hchunks,
    List.map_map]
  simp [Function.comp_def]

/-- The 192 bytes of a retained slot. -/
def slotImage : Option Record7 → List UInt8
  | none => zeros 192
  | some record => record.image

@[simp] theorem length_slotImage (record : Option Record7) : (slotImage record).length = 192 := by
  cases record <;> simp [slotImage]

theorem length_flatMap_slotImage (l : List (Option Record7)) :
    (l.flatMap slotImage).length = 192 * l.length := by
  induction l with
  | nil => rfl
  | cons record l ih =>
    rw [List.flatMap_cons, List.length_append, ih, length_slotImage, List.length_cons]
    omega

/-- The receipt block once the slots before `k` have been copied into it. -/
def receiptsImage (records : Records7) (k : Nat) : List UInt8 :=
  (records.toList.take k).flatMap slotImage ++ zeros (2048 - 192 * k)

theorem length_receiptsImage (records : Records7) {k : Nat} (hk : k ≤ 8) :
    (receiptsImage records k).length = 2048 := by
  rw [receiptsImage, List.length_append, length_flatMap_slotImage, length_zeros, List.length_take,
    Vector.length_toList]
  omega

/-- Copying one more slot overwrites its bytes. -/
theorem receiptsImage_succ (records : Records7) {k : Nat} (hk : k < 8) :
    receiptsImage records (k + 1) = overwrite (receiptsImage records k) (192 * k)
      (slotImage records[k]) := by
  have hlen : ((records.toList.take k).flatMap slotImage).length = 192 * k := by
    rw [length_flatMap_slotImage, List.length_take, Vector.length_toList]
    omega
  have hget : records.toList[k]? = some records[k] := by simp [hk]
  have hrest : 2048 - 192 * (k + 1) = 2048 - 192 * k - 192 := by omega
  rw [overwrite, receiptsImage, receiptsImage, List.take_add_one, hget, List.flatMap_append,
    length_slotImage, ← hlen, List.take_left, List.drop_length_add_append, hlen, hrest]
  simp [zeros]

variable (h : ∀ (i : Fin 8) (r : Record7), records[i] = some r → r.Shape)
include h

/-- Copying a slot's part of a sector is the sector of the block with that slot copied. -/
theorem copyReceipt_spec (sector : Nat) (hsector : sector < 4) (i : Fin 8) :
    copyReceipt sector (slice (receiptsImage records i.val) (512 * sector) 512) i.val records[i]
      = .ok (slice (receiptsImage records (i.val + 1)) (512 * sector) 512) := by
  have hi := i.isLt
  have hlen := length_receiptsImage records (k := i.val) (by omega)
  have hfit : 192 * i.val + (slotImage records[i.val]).length
      ≤ (receiptsImage records i.val).length := by
    rw [hlen, length_slotImage]
    omega
  cases hr : records[i] with
  | none =>
    -- an empty slot leaves the zeros that are there
    have hslot : records[i.val] = none := hr
    rw [copyReceipt]
    congr 1
    apply List.ext_getElem?
    intro j
    rw [getElem?_slice, getElem?_slice, receiptsImage_succ records hi, getElem?_overwrite hfit]
    split
    · split
      · rename_i hj hrange
        rw [length_slotImage] at hrange
        rw [hslot, slotImage, receiptsImage, List.getElem?_append_right]
        · simp only [zeros, List.getElem?_replicate, length_flatMap_slotImage,
            List.length_take, Vector.length_toList]
          rw [if_pos (by omega), if_pos (by omega)]
        · rw [length_flatMap_slotImage, List.length_take, Vector.length_toList]
          omega
      · rfl
    · rfl
  | some r =>
    have hslot : slotImage records[i.val] = r.image := by
      show slotImage records[i] = _
      rw [hr]
      rfl
    rw [copyReceipt, receiptsImage_succ records hi]
    rw [hslot] at hfit ⊢
    rw [Record7.length_image] at hfit
    split
    · congr 1
      apply List.ext_getElem?
      intro j
      rw [getElem?_slice, getElem?_slice, getElem?_overwrite (by rw [Record7.length_image]; omega),
        Record7.length_image]
      split
      · rw [if_neg (by omega)]
      · rfl
    · rename_i hlt
      -- the part of the slot that lies in the sector
      rw [Record7.encode_of_shape (h i r hr)]
      show Except.ok _ = _
      congr 1
      rw [Bytes.toList_pack_of_length (Record7.length_image r)]
      have hpart : (slice r.image (max (512 * sector) (192 * i.val) - 192 * i.val)
          (min (512 * sector + 512) (192 * i.val + 192)
            - max (512 * sector) (192 * i.val))).length
          = min (512 * sector + 512) (192 * i.val + 192)
            - max (512 * sector) (192 * i.val) := by
        apply length_slice_of_le
        rw [Record7.length_image]
        omega
      apply List.ext_getElem?
      intro j
      rw [getElem?_overwrite (by rw [hpart, length_slice, hlen]; omega), hpart, getElem?_slice,
        getElem?_slice, getElem?_slice, getElem?_overwrite (by rw [Record7.length_image]; omega),
        Record7.length_image]
      by_cases hj : j < 512
      · rw [if_pos hj, if_pos hj]
        split
        · rename_i hr1
          rw [if_pos (by omega), if_pos (by omega)]
          congr 1
          omega
        · rename_i hr1
          rw [if_neg (by omega)]
      · rw [if_neg (by omega), if_neg hj, if_neg hj]

/-- A receipt sector is its part of the whole receipt block. -/
theorem receiptsBlock_spec (hsector : sector < 4) :
    receiptsBlock records sector
      = .ok (Bytes.pack 512 (slice (receiptsImage records 8) (512 * sector) 512)) := by
  have hzero : slice (receiptsImage records 0) (512 * sector) 512 = zeros 512 := by
    simp only [receiptsImage, slice, zeros, List.take_zero, List.flatMap_nil, List.nil_append,
      List.drop_replicate, List.take_replicate]
    congr 1
    omega
  have hfold := foldlM_finRange
    (b := fun k => slice (receiptsImage records k) (512 * sector) 512)
    (f := fun block index => copyReceipt sector block index.val records[index])
    fun i => copyReceipt_spec h sector hsector i
  rw [hzero] at hfold
  rw [receiptsBlock, hfold]
  rfl

/-- The receipt block decodes to its slots. -/
theorem receiptSlots_receiptsImage :
    receiptSlots (receiptsImage records 8) = .ok records.toList := by
  have himage : receiptsImage records 8
      = (records.toList.map slotImage).flatten ++ zeros 512 := by
    rw [receiptsImage, List.take_of_length_le (by simp)]
    rfl
  have hlen : (records.toList.map slotImage).flatten.length = 1536 := by
    rw [← List.flatMap_def, length_flatMap_slotImage, Vector.length_toList]
  have hpad : allZero ((receiptsImage records 8).drop 1536) = true := by
    rw [himage, List.drop_left' hlen, allZero_zeros]
  have hchunks : chunks 192 8 (receiptsImage records 8) = records.toList.map slotImage := by
    have := chunks_flatten_append (w := 192) (records.toList.map slotImage) (by simp) (zeros 512)
    rwa [List.length_map, Vector.length_toList, ← himage] at this
  have hslot : ∀ record ∈ records.toList,
      Record7.slot (Bytes.pack 192 (slotImage record)) = .ok record := by
    intro record hmem
    cases record with
    | none => rw [slotImage, Bytes.pack_zeros, Record7.slot, if_pos rfl]
    | some r =>
      obtain ⟨i, hi, hr⟩ := List.getElem_of_mem hmem
      rw [Vector.length_toList] at hi
      exact Record7.slot_image (h ⟨i, hi⟩ r (by simpa using hr))
  rw [receiptSlots, hpad, hchunks]
  show (records.toList.map slotImage).mapM (fun b => Record7.slot (Bytes.pack 192 b)) = _
  rw [List.mapM_map, except_mapM_eq_ok, List.forall₂_same]
  exact hslot

end RusticOs.Fs
