import RusticOs.Proofs.Validation7

/-!
# `RusticOs.Proofs.Recover7`: what a mount finds on a disk

`recover img` is what a mount computes from disk contents `img` when the disk answers every
read. `loadVolume_reads` connects it with the code: on any disk a mount returns
`recover` of what it sees, or a refusal of the disk.

* `recovers_iff`: what makes a mount succeed, as one structure.
* `Recovers.congr`: the result depends only on the footprint: the two header copies, the
  selected generation, and the allocated payload sectors.
-/

set_option autoImplicit false

namespace RusticOs.Fs

open RusticOs.Lib

/-! ### Recovery as a function of the contents -/

/-- Decode one region of the contents. -/
def loadRegion {α : Type} (img : Nat → Block) (base count : Nat)
    (decode : Block → Except Error α) : Except Error (UInt32 × List α) := do
  let parts ← (List.range count).mapM fun sector => do
    let part ← decode (img (base + sector))
    pure (img (base + sector), part)
  pure (crc (parts.flatMap fun part => part.1.toList), parts.map Prod.snd)

/-- Decode the generation a header names. -/
def loadGeneration (img : Nat → Block) (header : Header7) :
    Except Error (Nodes7 × SpaceMap × Records7) := do
  let (nodesCrc, nodes) ← loadRegion img (nodesSector header.generation) 64 decodeNodes
  reject (nodesCrc ≠ header.nodesChecksum) .corrupt
  let (mapCrc, map) ← loadRegion img (mapSector header.generation) 32 fun b => .ok (decodeMap b)
  reject (mapCrc ≠ header.mapChecksum) .corrupt
  let (receiptsCrc, receipts) ←
    loadRegion img (receiptsSector header.generation) 4 fun b => .ok b.toList
  reject (receiptsCrc ≠ header.receiptsChecksum) .corrupt
  let records ← receiptSlots receipts.flatten
  pure (fill Node7.empty 256 nodes.flatten, fill 0 2048 map.flatten, fill none 8 records)

/-- The stored payload has the expected CRC. -/
def payloadVerdict (img : Nat → Block) (runs : List Extent) (length expected : UInt32) :
    Except Error Unit :=
  reject (512 * (runSectors runs).length < length.toNat
    ∨ crc (payload img runs length.toNat) ≠ expected) .corrupt

def nodeVerdict (img : Nat → Block) (node : Node7) : Except Error Unit :=
  if node.kind = .file then payloadVerdict img node.runs node.length node.payloadCrc32
  else .ok ()

def recordVerdict (img : Nat → Block) : Option Record7 → Except Error Unit
  | none => .ok ()
  | some record => payloadVerdict img record.runs record.length record.payloadCrc32

/-- Every live file and every retained snapshot has its CRC. -/
def payloadVerdicts (img : Nat → Block) (nodes : Nodes7) (records : Records7) :
    Except Error Unit := do
  let _ ← nodes.toList.mapM (nodeVerdict img)
  let _ ← records.toList.mapM (recordVerdict img)

/-- What a mount computes from disk contents. -/
def recover (img : Nat → Block) : Except Error Mounted7 := do
  let (header, recovered) ← selectHeader (img (headerSector 0)) (img (headerSector 1))
  let (nodes, map, records) ← loadGeneration img header
  validateGeneration header nodes records map
  payloadVerdicts img nodes records
  pure { header, nodes, records, map, recovered }

/-! ### The code reads exactly that -/

theorem readRegion_reads {α : Type} (base count : Nat) (decode : Block → Except Error α) :
    Reads (readRegion base count decode) fun img => loadRegion img base count decode :=
  (Reads.mapM (fun sector => (Reads.read (base + sector)).bind fun block =>
    (Reads.lift (decode block)).bind fun part => Reads.pure (block, part)) (List.range count)).bind
    fun _ => Reads.pure _

theorem readGeneration_reads (header : Header7) :
    Reads (readGeneration header) fun img => loadGeneration img header := by
  refine (readRegion_reads (nodesSector header.generation) 64 decodeNodes).bind fun nodes => ?_
  refine (Reads.refuse _ _).bind fun _ => ?_
  refine (readRegion_reads (mapSector header.generation) 32 fun b => .ok (decodeMap b)).bind
    fun map => ?_
  refine (Reads.refuse _ _).bind fun _ => ?_
  refine (readRegion_reads (receiptsSector header.generation) 4 fun b => .ok b.toList).bind
    fun receipts => ?_
  refine (Reads.refuse _ _).bind fun _ => ?_
  exact (Reads.lift (receiptSlots receipts.2.flatten)).bind fun records => Reads.pure _

/-- The streaming check reads the first `remaining` stored bytes. -/
theorem verifySectors_reads (sectors : List Nat) (remaining : Nat) (checksum : UInt32) :
    Reads (verifySectors sectors remaining checksum) fun img =>
      .ok (remaining - 512 * sectors.length, crcUpdate checksum
        ((sectors.flatMap fun s => (img (payloadSector + s)).toList).take remaining)) := by
  induction sectors generalizing remaining checksum with
  | nil => exact (Reads.pure (remaining, checksum)).congr fun img => by simp [crcUpdate]
  | cons sector rest ih =>
    rw [verifySectors]
    split
    · rename_i h
      refine (ih 0 checksum).congr fun img => ?_
      simp [h]
    · refine ((Reads.read (payloadSector + sector)).bind fun block =>
        ih (remaining - min remaining 512)
          (crcUpdate checksum (block.toList.take (min remaining 512)))).congr fun img => ?_
      show Except.ok _ = Except.ok _
      have hleft : remaining - min remaining 512 - 512 * rest.length
          = remaining - 512 * (sector :: rest).length := by
        rw [List.length_cons]
        omega
      have hrest : remaining - min remaining 512 = remaining - 512 := by omega
      have hblock : (img (payloadSector + sector)).toList.take (min remaining 512)
          = (img (payloadSector + sector)).toList.take remaining := by
        rw [← List.take_take, List.take_of_length_le (l := Vector.toList _) (by simp)]
      rw [← crcUpdate_append, List.flatMap_cons, List.take_append, Vector.length_toList, hleft,
        hrest, hblock]

theorem verifyPayload_reads (runs : List Extent) (length expected : UInt32) :
    Reads (verifyPayload runs length expected) fun img =>
      payloadVerdict img runs length expected := by
  refine ((verifySectors_reads (runSectors runs) length.toNat crcInit).bind fun r =>
    Reads.refuse (r.1 ≠ 0 ∨ ~~~ r.2 ≠ expected) .corrupt).congr fun img => ?_
  show reject _ _ = reject _ _
  unfold reject
  refine if_congr (or_congr ?_ Iff.rfl) rfl rfl
  omega

theorem verifyPayloads_reads (nodes : Nodes7) (records : Records7) :
    Reads (verifyPayloads nodes records) fun img => payloadVerdicts img nodes records := by
  refine (Reads.mapM (h := fun node img => nodeVerdict img node) (fun node => ?_) _).bind
    fun _ => (Reads.mapM (h := fun record img => recordVerdict img record) (fun record => ?_)
      _).bind fun _ => Reads.pure ()
  · by_cases hk : node.kind = .file
    · simp only [nodeVerdict, hk, if_true]
      exact verifyPayload_reads _ _ _
    · simp only [nodeVerdict, hk, if_false]
      exact Reads.pure ()
  · cases record with
    | none => exact Reads.pure ()
    | some record => exact verifyPayload_reads _ _ _

/-- A mount returns what the contents it sees recover to, or a refusal of the disk. -/
theorem loadVolume_reads : Reads loadVolume recover :=
  (Reads.read (headerSector 0)).bind fun first => (Reads.read (headerSector 1)).bind fun second =>
    (Reads.lift (selectHeader first second)).bind fun selected =>
      (readGeneration_reads selected.1).bind fun loaded => (Reads.lift _).bind fun _ =>
        (verifyPayloads_reads loaded.1 loaded.2.2).bind fun _ =>
          Reads.pure
            (Mounted7.mk ⟨selected.1, loaded.1, loaded.2.2, loaded.2.1⟩ selected.2)

/-! ### What recovery needs -/

/-- A payload is stored with its CRC. -/
structure Stored (img : Nat → Block) (runs : List Extent) (length expected : UInt32) : Prop where
  enough : length.toNat ≤ 512 * (runSectors runs).length
  crc : crc (payload img runs length.toNat) = expected

variable {img : Nat → Block} {runs : List Extent} {img' : Nat → Block}

theorem payloadVerdict_eq_ok {length expected : UInt32} :
    payloadVerdict img runs length expected = .ok () ↔ Stored img runs length expected := by
  rw [payloadVerdict, reject_eq_ok]
  constructor
  · intro h
    push Not at h
    exact ⟨h.1, h.2⟩
  · rintro ⟨h1, h2⟩
    push Not
    exact ⟨h1, h2⟩

/-- Every live file and every retained snapshot is stored with its CRC. -/
structure AllStored (img : Nat → Block) (nodes : Nodes7) (records : Records7) : Prop where
  node : ∀ n ∈ nodes.toList, n.kind = .file → Stored img n.runs n.length n.payloadCrc32
  record : ∀ (i : Fin 8) (r : Record7), records[i] = some r →
    Stored img r.runs r.length r.payloadCrc32

theorem payloadVerdicts_eq_ok {nodes : Nodes7} {records : Records7} :
    payloadVerdicts img nodes records = .ok () ↔ AllStored img nodes records := by
  have hnode : (∀ n ∈ nodes.toList, nodeVerdict img n = .ok ()) ↔
      ∀ n ∈ nodes.toList, n.kind = .file → Stored img n.runs n.length n.payloadCrc32 := by
    refine forall₂_congr fun n _ => ?_
    unfold nodeVerdict
    split
    · rename_i hk
      simp [hk, payloadVerdict_eq_ok]
    · rename_i hk
      simp [hk]
  have hrecord : (∀ o ∈ records.toList, recordVerdict img o = .ok ()) ↔
      ∀ (i : Fin 8) (r : Record7), records[i] = some r →
        Stored img r.runs r.length r.payloadCrc32 := by
    constructor
    · intro h i r hr
      exact payloadVerdict_eq_ok.mp (h (some r) (mem_toList_records.mpr ⟨i, hr⟩))
    · intro h o ho
      cases o with
      | none => rfl
      | some r =>
        obtain ⟨i, hr⟩ := mem_toList_records.mp ho
        exact payloadVerdict_eq_ok.mpr (h i r hr)
  simp only [payloadVerdicts, except_bind_eq_ok]
  constructor
  · rintro ⟨us, h1, vs, h2, -⟩
    exact ⟨hnode.mp (mapM_unit_eq_ok.mp ⟨us, h1⟩), hrecord.mp (mapM_unit_eq_ok.mp ⟨vs, h2⟩)⟩
  · rintro ⟨h1, h2⟩
    obtain ⟨us, hus⟩ := mapM_unit_eq_ok.mpr (hnode.mpr h1)
    obtain ⟨vs, hvs⟩ := mapM_unit_eq_ok.mpr (hrecord.mpr h2)
    exact ⟨us, hus, vs, hvs, rfl⟩

/-- Disk contents from which a mount loads the generation `m`. -/
structure Recovers (img : Nat → Block) (m : Generation7) : Prop where
  select : ∃ recovered, selectHeader (img (headerSector 0)) (img (headerSector 1))
    = .ok (m.header, recovered)
  load : loadGeneration img m.header = .ok (m.nodes, m.map, m.records)
  valid : ValidGeneration m.header m.nodes m.records m.map
  stored : AllStored img m.nodes m.records

/-- A mount succeeds exactly on such contents. -/
theorem recovers_iff {m : Generation7} :
    Recovers img m ↔ ∃ recovered, recover img = .ok { m with recovered } := by
  simp only [recover, except_bind_eq_ok]
  constructor
  · rintro ⟨⟨recovered, h1⟩, h2, h3, h4⟩
    exact ⟨recovered, (m.header, recovered), h1, (m.nodes, m.map, m.records), h2, (),
      validateGeneration_eq_ok.mpr h3, (), payloadVerdicts_eq_ok.mpr h4, rfl⟩
  · rintro ⟨_, ⟨header, flag⟩, h1, ⟨nodes, map, records⟩, h2, _, h3, _, h4, h5⟩
    cases h5
    exact ⟨⟨flag, h1⟩, h2, validateGeneration_eq_ok.mp h3, payloadVerdicts_eq_ok.mp h4⟩

/-! ### The footprint -/

theorem payload_congr {length : Nat}
    (h : ∀ s ∈ runSectors runs, img' (payloadSector + s) = img (payloadSector + s)) :
    payload img' runs length = payload img runs length := by
  unfold payload
  congr 1
  exact List.flatMap_congr fun s hs => by rw [h s hs]

theorem Stored.congr {length expected : UInt32} (hs : Stored img runs length expected)
    (h : ∀ s ∈ runSectors runs, img' (payloadSector + s) = img (payloadSector + s)) :
    Stored img' runs length expected :=
  ⟨hs.enough, by rw [payload_congr h]; exact hs.crc⟩

/-- The sectors a mounted generation depends on: both header copies, the generation it
selects, and its allocated payload sectors. -/
def footprint (header : Header7) (map : SpaceMap) : Set Nat :=
  {s | s = 8 ∨ s = 9
    ∨ (nodesSector header.generation ≤ s ∧ s < nodesSector header.generation + 100)
    ∨ (payloadSector ≤ s ∧ Bitmap.get map (s - payloadSector) = true)}

theorem header_mem_footprint (header : Header7) (map : SpaceMap) (g : UInt8) :
    headerSector g ∈ footprint header map := by
  show headerSector g = 8 ∨ headerSector g = 9 ∨ _
  unfold headerSector
  omega

theorem generation_mem_footprint (header : Header7) (map : SpaceMap) {k : Nat} (hk : k < 100) :
    nodesSector header.generation + k ∈ footprint header map :=
  Or.inr (Or.inr (Or.inl ⟨by omega, by omega⟩))

theorem payload_mem_footprint (header : Header7) {map : SpaceMap} {s : Nat}
    (hs : Bitmap.get map s = true) : payloadSector + s ∈ footprint header map :=
  Or.inr (Or.inr (Or.inr ⟨by omega, by rwa [Nat.add_sub_cancel_left]⟩))

theorem loadRegion_congr {α : Type} {base count : Nat} {decode : Block → Except Error α}
    (h : ∀ s < count, img' (base + s) = img (base + s)) :
    loadRegion img' base count decode = loadRegion img base count decode := by
  unfold loadRegion
  rw [mapM_congr fun s hs => by rw [h s (List.mem_range.mp hs)]]

theorem loadGeneration_congr {header : Header7}
    (h : ∀ k < 100, img' (nodesSector header.generation + k)
      = img (nodesSector header.generation + k)) :
    loadGeneration img' header = loadGeneration img header := by
  have hnodes : loadRegion img' (nodesSector header.generation) 64 decodeNodes
      = loadRegion img (nodesSector header.generation) 64 decodeNodes :=
    loadRegion_congr fun s hs => h s (by omega)
  have hmap : loadRegion img' (mapSector header.generation) 32 (fun b => .ok (decodeMap b))
      = loadRegion img (mapSector header.generation) 32 (fun b => .ok (decodeMap b)) :=
    loadRegion_congr fun s hs => by
      rw [mapSector, Nat.add_assoc]
      exact h (64 + s) (by omega)
  have hreceipts : loadRegion img' (receiptsSector header.generation) 4 (fun b => .ok b.toList)
      = loadRegion img (receiptsSector header.generation) 4 (fun b => .ok b.toList) :=
    loadRegion_congr fun s hs => by
      rw [receiptsSector, mapSector, Nat.add_assoc, Nat.add_assoc]
      exact h (64 + (32 + s)) (by omega)
  simp only [loadGeneration, hnodes, hmap, hreceipts]

theorem AllStored.congr {header : Header7} {nodes : Nodes7} {records : Records7} {map : SpaceMap}
    (hs : AllStored img nodes records) (hv : ValidGeneration header nodes records map)
    (h : ∀ s, Bitmap.get map s = true → img' (payloadSector + s) = img (payloadSector + s)) :
    AllStored img' nodes records :=
  ⟨fun n hn hk => (hs.node n hn hk).congr fun s hmem => h s (hv.node_sectors hn hk hmem),
    fun i r hr => (hs.record i r hr).congr fun s hmem => h s (hv.record_sectors hr hmem)⟩

/-- Recovery depends only on the footprint of what it finds. -/
theorem Recovers.congr {m : Generation7} (h : Recovers img m)
    (hF : ∀ s ∈ footprint m.header m.map, img' s = img s) : Recovers img' m where
  select := by
    rw [hF _ (header_mem_footprint _ _ 0), hF _ (header_mem_footprint _ _ 1)]
    exact h.select
  load := by
    rw [loadGeneration_congr fun k hk => hF _ (generation_mem_footprint _ _ hk)]
    exact h.load
  valid := h.valid
  stored := h.stored.congr h.valid fun _ hs => hF _ (payload_mem_footprint _ hs)

end RusticOs.Fs
