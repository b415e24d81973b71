import RusticOs.Proofs.Recover7

/-!
# `RusticOs.Proofs.Publication7`: a publication is a two-phase write

Publishing issues one fixed list of commands (`publicationCommands`): the hundred sectors of
the inactive generation, a flush, the header copy that names it, a flush. `Durable` says
that a medium holds a mounted generation whatever is lost. The rule of this module is
`Durable.publish_image`: cut the commands of a publication anywhere, keep any subset of the
unflushed writes, and a mount finds the generation before it or the one after it. When all
commands are done the medium durably holds the new one (`Durable.publish`).
-/

set_option autoImplicit false

namespace RusticOs.Fs

open RusticOs.Lib

/-! ### The sectors of a generation -/

/-- A node sector of a valid table. -/
def nodesImage (nodes : Nodes7) (sector : Nat) : Block :=
  (nodesBlock nodes sector).toOption.getD zeroBlock

/-- A receipt sector of a valid table. -/
def receiptsSectorImage (records : Records7) (sector : Nat) : Block :=
  (receiptsBlock records sector).toOption.getD zeroBlock

/-- Sector `k` of a generation. -/
def generationBlock (nodes : Nodes7) (records : Records7) (map : SpaceMap) (k : Nat) : Block :=
  if k < 64 then nodesImage nodes k
  else if k < 96 then mapBlock map (k - 64)
  else receiptsSectorImage records (k - 96)

/-- The commands that write a generation. -/
def generationWrites (nodes : Nodes7) (records : Records7) (map : SpaceMap) (generation : UInt8) :
    List (Command Block) :=
  (List.range 100).map fun k =>
    .write (nodesSector generation + k) (generationBlock nodes records map k)

/-- The checksum of a region of `count` blocks. -/
def regionSum (count : Nat) (block : Nat → Block) : UInt32 :=
  crc ((List.range count).flatMap fun s => (block s).toList)

/-- The header a publication of these structures writes over `header`. -/
def publishedHeader (header : Header7) (nodes : Nodes7) (records : Records7) (map : SpaceMap) :
    Header7 :=
  { header with
    sequence := header.sequence + 1
    generation := header.generation ^^^ 1
    nodesChecksum := regionSum 64 (nodesImage nodes)
    mapChecksum := regionSum 32 (mapBlock map)
    receiptsChecksum := regionSum 4 (receiptsSectorImage records) }

/-- The sector of a valid header copy. -/
def headerBlock (header : Header7) : Block :=
  Bytes.pack 512 (header.fields header.checksum).flatten

theorem encode_headerBlock {header : Header7} (h : header.validate = .ok ()) :
    header.encode = .ok (headerBlock header) :=
  Header7.encode_eq_ok.mpr ⟨h, Bytes.toList_pack_of_length (header.length_flatten_fields _)⟩

section
variable {nodes : Nodes7} {records : Records7}

theorem nodesBlock_eq (h : ∀ n ∈ nodes.toList, n.validate = .ok ()) {s : Nat} (hs : s < 64) :
    nodesBlock nodes s = .ok (nodesImage nodes s) := by
  obtain ⟨b, hb, -⟩ := nodesBlock_spec h hs
  rw [nodesImage, hb]
  rfl

theorem decodeNodes_nodesImage (h : ∀ n ∈ nodes.toList, n.validate = .ok ()) {s : Nat}
    (hs : s < 64) :
    decodeNodes (nodesImage nodes s) = .ok (slice nodes.toList (4 * s) 4) := by
  obtain ⟨b, hb, hdec⟩ := nodesBlock_spec h hs
  rw [nodesImage, hb]
  exact hdec

theorem receiptsBlock_eq (h : ∀ (i : Fin 8) (r : Record7), records[i] = some r → r.Shape) {s : Nat}
    (hs : s < 4) : receiptsBlock records s = .ok (receiptsSectorImage records s) := by
  rw [receiptsSectorImage, receiptsBlock_spec h hs]
  rfl

theorem toList_receiptsSectorImage
    (h : ∀ (i : Fin 8) (r : Record7), records[i] = some r → r.Shape) {s : Nat} (hs : s < 4) :
    (receiptsSectorImage records s).toList = slice (receiptsImage records 8) (512 * s) 512 := by
  rw [receiptsSectorImage, receiptsBlock_spec h hs]
  apply Bytes.toList_pack_of_length
  apply length_slice_of_le
  rw [length_receiptsImage records (le_refl 8)]
  omega

end

/-! ### Reading a written generation back -/

variable {img : Nat → Block} {header : Header7} {nodes : Nodes7} {records : Records7}
  {map : SpaceMap}

/-- A region whose sectors decode is loaded with its checksum. -/
theorem loadRegion_of {α : Type} {base count : Nat} {block : Nat → Block}
    {decode : Block → Except Error α} {part : Nat → α}
    (himg : ∀ s < count, img (base + s) = block s)
    (hdecode : ∀ s < count, decode (block s) = .ok (part s)) :
    loadRegion img base count decode
      = .ok (regionSum count block, (List.range count).map part) := by
  have hparts : ((List.range count).mapM fun sector => do
      let part ← decode (img (base + sector))
      pure (img (base + sector), part))
      = .ok ((List.range count).map fun s => (block s, part s)) := by
    apply mapM_eq_ok_map
    intro s hs
    rw [List.mem_range] at hs
    rw [himg s hs, hdecode s hs]
    rfl
  rw [loadRegion, hparts]
  show Except.ok (_, _) = Except.ok (_, _)
  rw [List.flatMap_map, List.map_map]
  rfl

/-- Contents with a valid generation written to a slot load it under its header. -/
theorem loadGeneration_of (hv : ValidGeneration header nodes records map)
    (hnodes : header.nodesChecksum = regionSum 64 (nodesImage nodes))
    (hmap : header.mapChecksum = regionSum 32 (mapBlock map))
    (hreceipts : header.receiptsChecksum = regionSum 4 (receiptsSectorImage records))
    (himg : ∀ k < 100, img (nodesSector header.generation + k)
      = generationBlock nodes records map k) :
    loadGeneration img header = .ok (nodes, map, records) := by
  have hvalid : ∀ n ∈ nodes.toList, n.validate = .ok () := fun n hn => hv.node_validate hn
  have hshape : ∀ (i : Fin 8) (r : Record7), records[i] = some r → r.Shape :=
    fun i r hr => hv.record_shape hr
  have h1 : loadRegion img (nodesSector header.generation) 64 decodeNodes
      = .ok (regionSum 64 (nodesImage nodes),
          (List.range 64).map fun s => slice nodes.toList (4 * s) 4) := by
    refine loadRegion_of (fun s hs => ?_) fun s hs => decodeNodes_nodesImage hvalid hs
    rw [himg s (by omega), generationBlock, if_pos hs]
  have h2 : loadRegion img (mapSector header.generation) 32 (fun b => .ok (decodeMap b))
      = .ok (regionSum 32 (mapBlock map),
          (List.range 32).map fun s => slice map.toList (64 * s) 64) := by
    refine loadRegion_of (fun s hs => ?_) fun s hs => by rw [decodeMap_mapBlock map hs]; rfl
    rw [mapSector, Nat.add_assoc, himg (64 + s) (by omega), generationBlock, if_neg (by omega),
      if_pos (by omega), Nat.add_sub_cancel_left]
  have h3 : loadRegion img (receiptsSector header.generation) 4 (fun b => .ok b.toList)
      = .ok (regionSum 4 (receiptsSectorImage records),
          (List.range 4).map fun s => slice (receiptsImage records 8) (512 * s) 512) := by
    refine loadRegion_of (fun s hs => ?_) fun s hs => by
      rw [toList_receiptsSectorImage hshape hs]
    rw [receiptsSector, mapSector, Nat.add_assoc, Nat.add_assoc, himg (64 + (32 + s)) (by omega),
      generationBlock, if_neg (by omega), if_neg (by omega)]
    congr 1
    omega
  have hf1 := flatten_map_slice (w := 4) (n := 64) nodes.length_toList
  have hf2 := flatten_map_slice (w := 64) (n := 32) map.length_toList
  have hf3 := flatten_map_slice (w := 512) (n := 4) (length_receiptsImage records (le_refl 8))
  simp only [loadGeneration, h1, h2, h3, bind, Except.bind, pure, Except.pure, hnodes, hmap,
    hreceipts, reject, ne_eq, not_true_eq_false, if_false, hf1, hf2, hf3,
    receiptSlots_receiptsImage hshape, fill_toList]

/-! ### Selecting the new header -/

theorem Header7.generation_cases (h : header.validate = .ok ()) :
    header.generation = 0 ∨ header.generation = 1 := by
  have hlt : ¬ header.generation ≥ 2 := by
    have := reject_eq_ok.mp h
    tauto
  rw [ge_iff_le, UInt8.not_le, UInt8.lt_iff_toNat_lt] at hlt
  rw [← UInt8.toNat_inj, ← UInt8.toNat_inj]
  show _ = 0 ∨ _ = 1
  have : (2 : UInt8).toNat = 2 := rfl
  omega

/-- A selected header is the copy in its own slot. -/
theorem selectHeader_candidate {recovered : Bool}
    (h : selectHeader (img (headerSector 0)) (img (headerSector 1)) = .ok (header, recovered)) :
    candidate (img (headerSector header.generation)) header.generation = some header := by
  have hslot : ∀ {b : Block} {g : UInt8} {header : Header7}, candidate b g = some header →
      header.generation = g := by
    intro b g header h
    unfold candidate at h
    split at h
    · split at h
      · cases h
        assumption
      · cases h
    · cases h
  unfold selectHeader at h
  split at h
  · cases h
  · rename_i left hfirst hsecond
    cases h
    rw [hslot hfirst]
    exact hfirst
  · rename_i right hfirst hsecond
    cases h
    rw [hslot hsecond]
    exact hsecond
  · rename_i left right hfirst hsecond
    simp only [newerHeader, except_bind_eq_ok] at h
    obtain ⟨_, _, ⟨older, newer⟩, hpair, _, _, h⟩ := h
    cases h
    unfold orderHeaders at hpair
    split at hpair
    · cases hpair
      rw [hslot hsecond]
      exact hsecond
    · split at hpair
      · cases hpair
        rw [hslot hfirst]
        exact hfirst
      · cases hpair

theorem candidate_headerBlock (h : header.validate = .ok ()) :
    candidate (headerBlock header) header.generation = some header := by
  rw [candidate, Header7.decode_encode (encode_headerBlock h)]
  exact if_pos rfl

/-- The header a publication starts from continues the mounted one. -/
structure Continues (old new : Header7) : Prop where
  lineage : new.lineage = old.lineage
  sequence : new.sequence = old.sequence
  generation : new.generation = old.generation
  epoch : old.epoch ≤ new.epoch
  next : old.next ≤ new.next

theorem Continues.refl (header : Header7) : Continues header header :=
  ⟨rfl, rfl, rfl, UInt64.le_refl _, UInt32.le_refl _⟩

/-- A copy one ahead of the selected header is selected. -/
theorem selectHeader_published {old new : Header7}
    (hold : candidate (img (headerSector old.generation)) old.generation = some old)
    (hnew : candidate (img (headerSector new.generation)) new.generation = some new)
    (hgen : old.generation = 0 ∧ new.generation = 1 ∨ old.generation = 1 ∧ new.generation = 0)
    (hlineage : new.lineage = old.lineage) (hsequence : new.sequence.toNat = old.sequence.toNat + 1)
    (hepoch : old.epoch ≤ new.epoch) (hnext : old.next ≤ new.next) :
    ∃ recovered,
      selectHeader (img (headerSector 0)) (img (headerSector 1)) = .ok (new, recovered) := by
  have hlt : old.sequence < new.sequence := by
    rw [UInt64.lt_iff_toNat_lt]
    omega
  have hnlt : ¬ new.sequence < old.sequence := UInt64.not_lt.mpr (UInt64.le_of_lt hlt)
  have hstep : ¬ (new.sequence.toNat - old.sequence.toNat ≠ 1 ∨ new.epoch < old.epoch
      ∨ new.next < old.next) := by
    rintro (h | h | h)
    · omega
    · exact UInt64.not_lt.mpr hepoch h
    · exact UInt32.not_lt.mpr hnext h
  refine ⟨false, ?_⟩
  rcases hgen with ⟨ho, hn⟩ | ⟨ho, hn⟩
  · rw [ho] at hold
    rw [hn] at hnew
    have hpair : ¬ (old.lineage ≠ new.lineage ∨ old.generation = new.generation) := by
      simp [ho, hn, hlineage]
    simp only [selectHeader, hold, hnew, newerHeader, orderHeaders, reject, if_neg hpair,
      if_pos hlt, if_neg hstep, bind, Except.bind, pure, Except.pure]
  · rw [ho] at hold
    rw [hn] at hnew
    have hpair : ¬ (new.lineage ≠ old.lineage ∨ new.generation = old.generation) := by
      simp [ho, hn, hlineage]
    simp only [selectHeader, hold, hnew, newerHeader, orderHeaders, reject, if_neg hpair,
      if_neg hnlt, if_pos hlt, if_neg hstep, bind, Except.bind, pure, Except.pure]

/-- The header a publication validates against. -/
def nextHeader (header : Header7) : Header7 :=
  { header with sequence := header.sequence + 1, generation := header.generation ^^^ 1 }

theorem candidateHeader_eq_ok {next : Header7} :
    candidateHeader header = .ok next ↔
      header.sequence.toNat + 1 < 2 ^ 64 ∧ next = nextHeader header := by
  have hone : (1 : UInt64).toNat = 1 := rfl
  simp only [candidateHeader, except_bind_eq_ok, orRefuse_eq_ok, checkedAdd, hone]
  constructor
  · rintro ⟨sequence, h, hnext⟩
    split at h
    · rename_i hlt
      cases h
      cases hnext
      exact ⟨hlt, rfl⟩
    · cases h
  · rintro ⟨hlt, rfl⟩
    exact ⟨header.sequence + 1, if_pos hlt, rfl⟩

/-- The owner's structures can be published over `header`. -/
structure Publishable (header : Header7) (nodes : Nodes7) (records : Records7) (map : SpaceMap) :
    Prop where
  room : header.sequence.toNat + 1 < 2 ^ 64
  valid : ValidGeneration (nextHeader header) nodes records map

/-- An owner's structures can be published over its own header. -/
abbrev Volume7.Publishable (v : Volume7) : Prop :=
  Fs.Publishable v.header v.nodes v.records v.map

theorem Publishable.sequence (h : Publishable header nodes records map) :
    (header.sequence + 1).toNat = header.sequence.toNat + 1 := by
  rw [UInt64.toNat_add]
  exact Nat.mod_eq_of_lt h.room

theorem Publishable.published (h : Publishable header nodes records map) :
    ValidGeneration (publishedHeader header nodes records map) nodes records map := by
  have hvalid := validateGeneration_eq_ok.mpr h.valid
  rw [← validateGeneration_checksums] at hvalid
  exact validateGeneration_eq_ok.mp hvalid

/-- The generation a mount finds after a publication. -/
def published (header : Header7) (nodes : Nodes7) (records : Records7) (map : SpaceMap) :
    Generation7 :=
  { header := publishedHeader header nodes records map, nodes, records, map }

theorem flip_generation {g : UInt8} (h : g = 0 ∨ g = 1) :
    g = 0 ∧ g ^^^ 1 = 1 ∨ g = 1 ∧ g ^^^ 1 = 0 := by
  rcases h with rfl | rfl
  · exact Or.inl ⟨rfl, rfl⟩
  · exact Or.inr ⟨rfl, rfl⟩

/-- Contents with the new generation and its header recover to the new generation. -/
theorem Recovers.publish {img' : Nat → Block} {m : Generation7} (h : Recovers img m)
    (hc : Continues m.header header) (hp : Publishable header nodes records map)
    (hold : img' (headerSector m.header.generation) = img (headerSector m.header.generation))
    (hnew : img' (headerSector (header.generation ^^^ 1))
      = headerBlock (publishedHeader header nodes records map))
    (hgen : ∀ k < 100, img' (nodesSector (header.generation ^^^ 1) + k)
      = generationBlock nodes records map k)
    (hstored : AllStored img' nodes records) :
    Recovers img' (published header nodes records map) where
  select := by
    have hvalid := hp.published.head
    apply selectHeader_published
    · rw [hold]
      exact selectHeader_candidate h.select.choose_spec
    · show candidate (img' (headerSector (header.generation ^^^ 1))) (header.generation ^^^ 1)
        = some _
      rw [hnew]
      exact candidate_headerBlock hvalid
    · show m.header.generation = 0 ∧ header.generation ^^^ 1 = 1
        ∨ m.header.generation = 1 ∧ header.generation ^^^ 1 = 0
      rw [hc.generation]
      exact flip_generation (Header7.generation_cases h.valid.head)
    · exact hc.lineage
    · show (header.sequence + 1).toNat = _
      rw [hp.sequence, hc.sequence]
    · exact hc.epoch
    · exact hc.next
  load := loadGeneration_of hp.published rfl rfl rfl hgen
  valid := hp.published
  stored := hstored

/-! ### The synchronous writer -/

/-- The commands of a publication: those of its payload, if it writes any, and the two
phases. -/
def publicationCommands (extra : List (Command Block)) (header : Header7) (nodes : Nodes7)
    (records : Records7) (map : SpaceMap) : List (Command Block) :=
  twoPhase (extra ++ generationWrites nodes records map (header.generation ^^^ 1))
    (headerSector (header.generation ^^^ 1))
    (headerBlock (publishedHeader header nodes records map))

theorem writeRegion_follows (onError : Error → Error) (base : Nat) {count : Nat}
    {block : Nat → Except Error Block} {image : Nat → Block}
    (h : ∀ s < count, block s = .ok (image s)) :
    Follows (writeRegion onError base count block)
      ((List.range count).map fun s => .write (base + s) (image s)) (regionSum count image) := by
  have hround : ∀ s ∈ List.range count, Follows (ε := Error)
      (do
        let bytes ← Fallible.lift (block s)
        (Device.writeSector (base + s) bytes).mapError onError
        pure bytes) [.write (base + s) (image s)] (image s) := by
    intro s hs
    rw [h s (List.mem_range.mp hs)]
    exact (((Follows.write (base + s) (image s)).mapError onError).bind
      (Follows.pure (image s)))
  have hloop := (Follows.mapM hround).bind (f := fun blocks =>
    pure (crc (blocks.flatMap Vector.toList))) (Follows.pure _)
  rw [List.append_nil, List.flatMap_map] at hloop
  rw [← List.flatMap_singleton' ((List.range count).map _), List.flatMap_map]
  exact hloop

/-- The hundred writes are those of the three regions. -/
theorem generationWrites_eq (nodes : Nodes7) (records : Records7) (map : SpaceMap)
    (generation : UInt8) :
    generationWrites nodes records map generation
      = ((List.range 64).map fun s => .write (nodesSector generation + s) (nodesImage nodes s))
        ++ (((List.range 32).map fun s => .write (mapSector generation + s) (mapBlock map s))
        ++ ((List.range 4).map fun s =>
          .write (receiptsSector generation + s) (receiptsSectorImage records s))) := by
  have hnodes : (List.range 64).map (fun k => Command.write (nodesSector generation + k)
      (generationBlock nodes records map k))
      = (List.range 64).map fun s => .write (nodesSector generation + s) (nodesImage nodes s) :=
    List.map_congr_left fun s hs => by
      rw [generationBlock, if_pos (List.mem_range.mp hs)]
  have hmap : (List.range 32).map ((fun k => Command.write (nodesSector generation + k)
      (generationBlock nodes records map k)) ∘ (64 + ·))
      = (List.range 32).map fun s => .write (mapSector generation + s) (mapBlock map s) :=
    List.map_congr_left fun s hs => by
      have := List.mem_range.mp hs
      rw [Function.comp_apply, generationBlock, if_neg (by omega), if_pos (by omega),
        Nat.add_sub_cancel_left, mapSector, Nat.add_assoc]
  have hreceipts : (List.range 4).map ((fun k => Command.write (nodesSector generation + k)
      (generationBlock nodes records map k)) ∘ (96 + ·))
      = (List.range 4).map fun s =>
        .write (receiptsSector generation + s) (receiptsSectorImage records s) :=
    List.map_congr_left fun s hs => by
      rw [Function.comp_apply, generationBlock, if_neg (by omega), if_neg (by omega),
        Nat.add_sub_cancel_left, receiptsSector, mapSector, ← Nat.add_assoc]
  rw [generationWrites, show (100 : Nat) = 64 + 32 + 4 from rfl, List.range_add, List.range_add,
    List.map_append, List.map_append, List.map_map, List.map_map, hnodes, hmap, hreceipts,
    List.append_assoc]

theorem writeGeneration_follows (onError : Error → Error)
    (hv : ValidGeneration header nodes records map) (generation : UInt8) :
    Follows (writeGeneration onError nodes records map generation)
      (generationWrites nodes records map generation)
      (regionSum 64 (nodesImage nodes), regionSum 32 (mapBlock map),
        regionSum 4 (receiptsSectorImage records)) := by
  rw [generationWrites_eq]
  refine (writeRegion_follows onError _ fun s hs =>
    nodesBlock_eq (fun n hn => hv.node_validate hn) hs).bind ?_
  refine (writeRegion_follows onError _ fun s hs => rfl).bind ?_
  rw [← List.append_nil (List.map _ (List.range 4))]
  exact (writeRegion_follows onError _ fun s hs =>
    receiptsBlock_eq (fun i r hr => hv.record_shape hr) hs).bind (Follows.pure _)

/-- A publication of structures that pass its check follows the two-phase commands. -/
theorem publishCandidate_follows {v : Volume7} (h : v.Publishable) :
    Follows (publishCandidate v) (publicationCommands [] v.header v.nodes v.records v.map)
      (publishedHeader v.header v.nodes v.records v.map) := by
  have hheader : candidateHeader v.header = .ok (nextHeader v.header) :=
    candidateHeader_eq_ok.mpr ⟨h.room, rfl⟩
  rw [publishCandidate, hheader, Fallible.lift_ok_bind,
    validateGeneration_eq_ok.mpr h.valid, Fallible.lift_ok_bind]
  refine (writeGeneration_follows uncertain h.valid _).bind ?_
  show Follows (Fallible.lift (publishedHeader v.header v.nodes v.records v.map).encode >>= _) _ _
  rw [encode_headerBlock h.published.head, Fallible.lift_ok_bind]
  exact (Follows.flush.mapError uncertain).bind
    (((Follows.write _ _).mapError uncertain).bind
      ((Follows.flush.mapError uncertain).bind (Follows.pure _)))

/-- A publication of structures that fail its check issues no command. -/
theorem publishCandidate_refuses {v : Volume7}
    (h : ¬ v.Publishable) :
    ∃ e, publishCandidate v = Fallible.fail e := by
  unfold publishCandidate
  cases hheader : candidateHeader v.header with
  | error e => exact ⟨e, rfl⟩
  | ok next =>
    obtain ⟨hroom, rfl⟩ := candidateHeader_eq_ok.mp hheader
    cases hvalid : validateGeneration (nextHeader v.header) v.nodes v.records v.map with
    | error e => exact ⟨e, by rw [Fallible.lift_ok_bind, hvalid]; rfl⟩
    | ok _ => exact absurd ⟨hroom, validateGeneration_eq_ok.mp hvalid⟩ h

/-! ### Durable generations -/

/-- A medium that holds a mounted generation whatever is lost. -/
structure Durable (medium : Medium Block) (m : Generation7) : Prop where
  recovers : Recovers medium.view m
  holds : medium.Holds (footprint m.header m.map) medium.view

namespace Durable

variable {medium : Medium Block} {m : Generation7}

theorem of_settled {img : Nat → Block} (h : Recovers img m) : Durable ⟨img, []⟩ m :=
  ⟨h, Medium.holds_settled _ _⟩

/-- Every image after a power loss recovers to the generation. -/
theorem image (h : Durable medium m) {img : Nat → Block} (himg : medium.Image img) :
    Recovers img m :=
  h.recovers.congr fun _ hs => h.holds.image himg hs

/-- Commands that write outside the footprint keep the generation. -/
theorem after (h : Durable medium m) {cs : List (Command Block)}
    (hcs : ∀ w ∈ writesOf cs, w.1 ∉ footprint m.header m.map) : Durable (medium.after cs) m := by
  have hview : ∀ s ∈ footprint m.header m.map, (medium.after cs).view s = medium.view s :=
    fun s hs => by
      rw [Medium.view_after, applyWrites_of_not_mem fun w hw hws => hcs w hw (hws ▸ hs)]
  exact ⟨h.recovers.congr hview, (h.holds.after hcs).congr fun s hs => (hview s hs).symm⟩

end Durable

/-- A free payload sector is outside the footprint. -/
theorem free_not_mem_footprint {header : Header7} {map : SpaceMap} {s : Nat}
    (hs : Bitmap.get map s = false) : payloadSector + s ∉ footprint header map := by
  rintro (h | h | h | h)
  · simp only [payloadSector] at h
    omega
  · simp only [payloadSector] at h
    omega
  · simp only [payloadSector, nodesSector] at h
    omega
  · rw [Nat.add_sub_cancel_left, hs] at h
    cases h.2

/-- The inactive generation is outside the footprint. -/
theorem inactive_not_mem_footprint {header : Header7} {map : SpaceMap} {g : UInt8}
    (hg : header.generation = 0 ∧ g = 1 ∨ header.generation = 1 ∧ g = 0) {k : Nat} (hk : k < 100) :
    nodesSector g + k ∉ footprint header map := by
  have h0 : nodesSector 0 = 10 := rfl
  have h1 : nodesSector 1 = 110 := rfl
  rcases hg with ⟨ho, rfl⟩ | ⟨ho, rfl⟩
  · rintro (h | h | ⟨h, h'⟩ | ⟨h, -⟩)
    · omega
    · omega
    · rw [ho] at h'
      omega
    · rw [payloadSector] at h
      omega
  · rintro (h | h | ⟨h, -⟩ | ⟨h, -⟩)
    · omega
    · omega
    · rw [ho] at h
      omega
    · rw [payloadSector] at h
      omega

/-! ### The rule -/

theorem length_generationWrites (nodes : Nodes7) (records : Records7) (map : SpaceMap)
    (generation : UInt8) : (generationWrites nodes records map generation).length = 100 := by
  simp [generationWrites]

theorem writesOf_generationWrites (nodes : Nodes7) (records : Records7) (map : SpaceMap)
    (generation : UInt8) :
    writesOf (generationWrites nodes records map generation)
      = (List.range 100).map fun k =>
        (nodesSector generation + k, generationBlock nodes records map k) := by
  rw [writesOf, generationWrites, List.flatMap_map]
  exact List.map_eq_flatMap.symm

/-- A publication over the mounted generation `m` and the contents `view`: its payload
commands write free sectors only, the structures pass the check, and their payload is
stored once the payload commands are done. -/
structure Publishes (m : Generation7) (view : Nat → Block) (extra : List (Command Block))
    (header : Header7) (nodes : Nodes7) (records : Records7) (map : SpaceMap) : Prop where
  continues : Continues m.header header
  publishable : Publishable header nodes records map
  free : ∀ w ∈ writesOf extra, ∃ s, w.1 = payloadSector + s ∧ Bitmap.get m.map s = false
  stored : AllStored (applyWrites view (writesOf extra)) nodes records

/-- The contents once a publication is done. -/
def publishedContents (view : Nat → Block) (extra : List (Command Block)) (header : Header7)
    (nodes : Nodes7) (records : Records7) (map : SpaceMap) : Nat → Block :=
  Function.update
    (applyWrites view
      (writesOf (extra ++ generationWrites nodes records map (header.generation ^^^ 1))))
    (headerSector (header.generation ^^^ 1))
    (headerBlock (publishedHeader header nodes records map))

section
variable {medium : Medium Block} {m : Generation7} {view : Nat → Block}
  {extra : List (Command Block)} {header : Header7} {nodes : Nodes7} {records : Records7}
  {map : SpaceMap}

theorem nodesSector_le (g : UInt8) : 10 ≤ nodesSector g ∧ nodesSector g ≤ 110 := by
  unfold nodesSector
  omega

theorem headerSector_le (g : UInt8) : 8 ≤ headerSector g ∧ headerSector g ≤ 9 := by
  unfold headerSector
  omega

theorem writesOf_generation_lt {w : Nat × Block} {g : UInt8}
    (hw : w ∈ writesOf (generationWrites nodes records map g)) :
    ∃ k < 100, w = (nodesSector g + k, generationBlock nodes records map k) := by
  rw [writesOf_generationWrites, List.mem_map] at hw
  obtain ⟨k, hk, rfl⟩ := hw
  exact ⟨k, List.mem_range.mp hk, rfl⟩

/-- Payload sectors keep what the payload commands left. -/
theorem publishedContents_payload (view : Nat → Block) (extra : List (Command Block))
    (header : Header7) (nodes : Nodes7) (records : Records7) (map : SpaceMap) (s : Nat) :
    publishedContents view extra header nodes records map (payloadSector + s)
      = applyWrites view (writesOf extra) (payloadSector + s) := by
  have hheader := headerSector_le (header.generation ^^^ 1)
  have hnodes := nodesSector_le (header.generation ^^^ 1)
  rw [publishedContents, Function.update_of_ne (by rw [payloadSector]; omega), writesOf_append,
    applyWrites_append, applyWrites_of_not_mem]
  intro w hw hws
  obtain ⟨k, hk, rfl⟩ := writesOf_generation_lt hw
  rw [payloadSector] at hws
  dsimp only at hws
  omega

namespace Publishes

/-- The commands before the header write outside the footprint. -/
theorem outside (h : Publishes m view extra header nodes records map)
    (hv : m.header.validate = .ok ()) :
    ∀ w ∈ writesOf (extra ++ generationWrites nodes records map (header.generation ^^^ 1)),
      w.1 ∉ footprint m.header m.map := by
  intro w hw
  rw [writesOf_append, List.mem_append] at hw
  rcases hw with hw | hw
  · obtain ⟨s, hs, hfree⟩ := h.free w hw
    rw [hs]
    exact free_not_mem_footprint hfree
  · obtain ⟨k, hk, rfl⟩ := writesOf_generation_lt hw
    refine inactive_not_mem_footprint ?_ hk
    rw [h.continues.generation]
    exact flip_generation (Header7.generation_cases hv)

/-- The published contents recover to the new generation. -/
theorem recovers (h : Publishes m view extra header nodes records map) (hm : Recovers view m) :
    Recovers (publishedContents view extra header nodes records map)
      (published header nodes records map) := by
  have hflip := flip_generation (Header7.generation_cases hm.valid.head)
  have hgen := h.continues.generation
  have hheader := headerSector_le (header.generation ^^^ 1)
  have hnodes := nodesSector_le (header.generation ^^^ 1)
  refine hm.publish h.continues h.publishable ?_ ?_ ?_ ?_
  · -- the selected header copy is not written
    have hne : headerSector m.header.generation ≠ headerSector (header.generation ^^^ 1) := by
      rw [hgen]
      rcases hflip with ⟨h0, h1⟩ | ⟨h0, h1⟩ <;> rw [h1, h0] <;> decide
    rw [publishedContents, Function.update_of_ne hne, applyWrites_of_not_mem]
    intro w hw hws
    exact h.outside hm.valid.head w hw (hws ▸ header_mem_footprint _ _ _)
  · exact Function.update_self _ _ _
  · intro k hk
    rw [publishedContents, Function.update_of_ne (by omega), writesOf_append, applyWrites_append]
    apply applyWrites_of_mem
    · rw [writesOf_generationWrites, List.map_map]
      exact List.Nodup.map (fun a b hab => Nat.add_left_cancel hab) List.nodup_range
    · rw [writesOf_generationWrites, List.mem_map]
      exact ⟨k, List.mem_range.mpr hk, rfl⟩
  · exact ⟨fun n hn hk => (h.stored.node n hn hk).congr fun s _ =>
        publishedContents_payload view extra header nodes records map s,
      fun i r hr => (h.stored.record i r hr).congr fun s _ =>
        publishedContents_payload view extra header nodes records map s⟩

end Publishes

/-- A power loss after any prefix of a publication's commands leaves the footprint of the
generation before it, or the published contents once the header has been submitted. -/
theorem Durable.publish_image (hm : Durable medium m)
    (h : Publishes m medium.view extra header nodes records map) {k : Nat} {img : Nat → Block}
    (himg : (medium.after
      ((publicationCommands extra header nodes records map).take k)).Image img) :
    (∀ s ∈ footprint m.header m.map, img s = medium.view s) ∨ (extra.length + 102 ≤ k
      ∧ img = publishedContents medium.view extra header nodes records map) := by
  rcases Medium.twoPhase_image hm.holds (h.outside hm.recovers.valid.head) himg with hold | hnew
  · exact Or.inl hold
  · obtain ⟨hk, rfl⟩ := hnew
    rw [List.length_append, length_generationWrites] at hk
    exact Or.inr ⟨by omega, rfl⟩

/-- Until the header is written the generation before it is durable. -/
theorem Durable.publish_before (hm : Durable medium m)
    (h : Publishes m medium.view extra header nodes records map) {k : Nat}
    (hk : k ≤ extra.length + 101) :
    Durable (medium.after ((publicationCommands extra header nodes records map).take k)) m := by
  rw [publicationCommands, take_twoPhase_of_le (by
    rw [List.length_append, length_generationWrites]
    omega)]
  apply hm.after
  intro w hw
  obtain ⟨c, hc, hwc⟩ := List.mem_flatMap.mp hw
  rcases List.mem_append.mp (List.mem_of_mem_take hc) with hc | hc
  · exact h.outside hm.recovers.valid.head w (List.mem_flatMap.mpr ⟨c, hc, hwc⟩)
  · rw [List.mem_singleton.mp hc] at hwc
    cases hwc

/-- A finished publication leaves the published contents with nothing unflushed. -/
theorem after_publicationCommands (medium : Medium Block) (extra : List (Command Block))
    (header : Header7) (nodes : Nodes7) (records : Records7) (map : SpaceMap) :
    medium.after (publicationCommands extra header nodes records map)
      = ⟨publishedContents medium.view extra header nodes records map, []⟩ :=
  medium.after_twoPhase

/-- A finished publication is durable. -/
theorem Durable.publish (hm : Durable medium m)
    (h : Publishes m medium.view extra header nodes records map) :
    Durable (medium.after (publicationCommands extra header nodes records map))
      (published header nodes records map) := by
  rw [after_publicationCommands]
  exact Durable.of_settled (h.recovers hm.recovers)

end

end RusticOs.Fs
