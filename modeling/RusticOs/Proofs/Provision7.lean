import RusticOs.Proofs.Owner7

/-!
# `RusticOs.Proofs.Provision7`: a provisioned volume is valid and durable

The generation that `provisionInto` installs holds the four roots and nothing else.
`genesis_valid` proves that it passes the validator under every header it may carry, and
`provisionInto_spec` that a successful call leaves a ready owner, a failed one a fenced
owner, and a call with a zero lineage the owner as it was.
-/

set_option autoImplicit false

namespace RusticOs.Fs

open RusticOs.Lib

/-! ### The first generation -/

theorem installRoots_get (i : Fin 256) :
    installRoots[i] = if i.val < 4 then rootNode i.val else Node7.empty := by
  show (fill Node7.empty 256 ((List.range 4).map rootNode))[i.val] = _
  rw [getElem_fill _ _ i.isLt]
  split
  · rename_i h
    rw [List.getElem?_map, List.getElem?_range h]
    rfl
  · rename_i h
    rw [List.getElem?_eq_none (by simp; omega)]
    rfl

theorem rootNode_validate : ∀ k < 4, (rootNode k).validate = .ok () := by decide

theorem rootNode_checkTop : ∀ k < 4, checkTop (rootNode k) = .ok () := by decide

theorem rootNode_id_lt : ∀ k < 4, (rootNode k).id < nextMin := by decide

theorem rootNode_id : ∀ k < 4, (rootNode k).id.toNat = k + 1 := by decide

/-- The four roots differ in identity and name. -/
theorem rootNode_inj : ∀ k < 4, ∀ j < k, (rootNode j).id ≠ (rootNode k).id
    ∧ (rootNode j).name ≠ (rootNode k).name := by decide

theorem installRoots_live {i : Fin 256} (h : installRoots[i] ≠ Node7.empty) :
    i.val < 4 ∧ installRoots[i] = rootNode i.val := by
  rw [installRoots_get] at h ⊢
  split at h
  · rename_i hi
    exact ⟨hi, if_pos hi⟩
  · exact absurd rfl h

theorem installRoots_not_file {n : Node7} (hn : n ∈ installRoots.toList) : n.kind ≠ .file := by
  obtain ⟨i, rfl⟩ := mem_toList_nodes.mp hn
  rw [installRoots_get]
  split
  · exact nofun
  · exact nofun

/-- The provisioned structures pass the check under every header that does. -/
theorem genesis_valid {header : Header7} (h : header.validate = .ok ()) :
    ValidGeneration header installRoots (Vector.replicate 8 none) (Vector.replicate 2048 0) := by
  have hempty : ∀ i : Fin 8, (Vector.replicate 8 (none : Option Record7))[i] = none :=
    fun i => by simp
  have hnext : nextMin ≤ header.next := UInt32.not_lt.mp (by
    have := reject_eq_ok.mp h
    tauto)
  have hsequence : 1 ≤ header.sequence := UInt64.not_lt.mp (by
    have := reject_eq_ok.mp h
    tauto)
  have howned : owned installRoots (Vector.replicate 8 none) = [] := by
    unfold owned
    rw [List.append_eq_nil_iff, List.flatMap_eq_nil_iff, List.flatMap_eq_nil_iff]
    constructor
    · intro n hn
      rw [nodeSectors, if_neg (installRoots_not_file hn)]
    · intro r hr
      simp at hr
      rw [hr]
      rfl
  refine ⟨h, ?_, ?_, ?_, ?_, ?_, ?_, ?_⟩
  · intro i hi
    obtain ⟨hlt, heq⟩ := installRoots_live hi
    have hshape : (rootNode i.val).Shape := by
      rcases Node7.validate_eq_ok.mp (rootNode_validate i.val hlt) with he | hs
      · rw [heq, he] at hi
        exact absurd rfl hi
      · exact hs
    refine ⟨heq ▸ hshape, ?_, ?_, ?_, ?_, ?_⟩
    · intro hk
      exact absurd hk (installRoots_not_file (getElem_mem_nodes _ i))
    · rw [heq]
      exact UInt32.lt_of_lt_of_le (rootNode_id_lt i.val hlt) hnext
    · rw [heq]
      exact hsequence
    · intro j hj hne
      obtain ⟨hjlt, hjeq⟩ := installRoots_live hne
      rw [heq, hjeq]
      obtain ⟨h1, h2⟩ := rootNode_inj i.val hlt j.val hj
      exact ⟨h1, fun hcontra => h2 hcontra.2⟩
    · intro _
      rw [heq]
      exact rootNode_checkTop i.val hlt
  · intro root
    have hget : installRoots[(⟨root.val, by omega⟩ : Fin 256)] = rootNode root.val := by
      rw [installRoots_get]
      exact if_pos root.isLt
    refine ⟨⟨root.val, by omega⟩, ?_, ?_, ?_⟩
    · rw [hget]
      intro he
      cases congrArg Node7.kind he
    · rw [hget]
      rfl
    · rw [hget]
      exact rootNode_id root.val root.isLt
  · intro i
    unfold checkParent
    apply if_pos
    by_cases hi : installRoots[i] = Node7.empty
    · exact Or.inl hi
    · rw [(installRoots_live hi).2]
      exact Or.inr rfl
  · intro i r hr
    rw [hempty] at hr
    cases hr
  · intro i
    refine ⟨fun r hr => ?_, fun r hr => ?_⟩
    · rw [hempty] at hr
      cases hr
    · rw [hempty] at hr
      cases hr
  · rw [howned]
    exact List.nodup_nil
  · intro s
    rw [howned, Bitmap.get_zero]
    simp

/-- One retained record and nothing else. -/
def onlyRecord (r : Record7) : Records7 := Vector.ofFn fun i => if i = 0 then some r else none

theorem onlyRecord_get (r : Record7) (i : Fin 8) :
    (onlyRecord r)[i] = if i = 0 then some r else none := by
  simp [onlyRecord]

theorem onlyRecord_eq_some {r r' : Record7} {i : Fin 8} (h : (onlyRecord r)[i] = some r') :
    i = 0 ∧ r' = r := by
  rw [onlyRecord_get] at h
  split at h
  · rename_i hi
    exact ⟨hi, (Option.some.inj h).symm⟩
  · cases h

/-- A provisioned volume may retain an outcome of a file that is gone. -/
theorem genesis_valid_retaining {header : Header7} (h : header.validate = .ok ()) {r : Record7}
    (hbounds : r.validate header.sequence header.next = .ok ())
    (hepoch : r.retryEpoch = header.epoch) (hgone : findNode installRoots r.object = none)
    (hcrc : r.payloadCrc32 = crc []) (hruns : r.runs = []) :
    ValidGeneration header installRoots (onlyRecord r) (Vector.replicate 2048 0) := by
  have base := genesis_valid h
  have hsectors : ∀ o ∈ (onlyRecord r).toList, recordSectors installRoots o = [] := by
    intro o ho
    obtain ⟨i, hi, rfl⟩ := List.getElem_of_mem ho
    rw [Vector.length_toList] at hi
    have hget := onlyRecord_get r ⟨i, hi⟩
    rw [Vector.getElem_toList]
    rw [Vector.getElem_val] at hget
    rw [hget]
    split
    · rw [recordSectors, hruns]
      split <;> rfl
    · rfl
  have howned : owned installRoots (onlyRecord r) = [] := by
    unfold owned
    rw [List.append_eq_nil_iff, List.flatMap_eq_nil_iff, List.flatMap_eq_nil_iff]
    exact ⟨fun n hn => by rw [nodeSectors, if_neg (installRoots_not_file hn)], hsectors⟩
  refine ⟨h, base.node, base.roots, base.parent, ?_, ?_, ?_, ?_⟩
  · intro i r' hr'
    obtain ⟨rfl, rfl⟩ := onlyRecord_eq_some hr'
    refine ⟨hbounds, hepoch, ?_, fun j hj => absurd hj (by omega)⟩
    rw [validateReceiptTarget, hgone]
  · intro i
    refine ⟨fun r' hr' _ => ?_, fun r' hr' _ j hj => ?_⟩
    · rw [(onlyRecord_eq_some hr').2]
      exact hcrc
    · rw [(onlyRecord_eq_some hr').1] at hj
      exact absurd hj (by omega)
  · rw [howned]
    exact List.nodup_nil
  · intro s
    rw [howned, Bitmap.get_zero]
    simp

/-! ### Provisioning -/

/-- The header of a provisioned volume. -/
def genesisHeader (lineage : Bytes 16) : Header7 :=
  { Header7.initial lineage with
    nodesChecksum := regionSum 64 (nodesImage installRoots)
    mapChecksum := regionSum 32 (mapBlock (Vector.replicate 2048 0))
    receiptsChecksum := regionSum 4 (receiptsSectorImage (Vector.replicate 8 none)) }

/-- The generation of a provisioned volume. -/
def genesis (lineage : Bytes 16) : Generation7 :=
  { header := genesisHeader lineage
    nodes := installRoots
    records := Vector.replicate 8 none
    map := Vector.replicate 2048 0 }

/-- The commands before the header of a provisioned volume. -/
def provisionWrites : List (Command Block) :=
  [.write (headerSector 0) zeroBlock, .write (headerSector 1) zeroBlock, .flush]
    ++ generationWrites installRoots (Vector.replicate 8 none) (Vector.replicate 2048 0) 0

theorem Header7.validate_checksums (header : Header7) (a b c : UInt32) :
    { header with nodesChecksum := a, mapChecksum := b, receiptsChecksum := c }.validate
      = header.validate := rfl

variable {lineage : Bytes 16}

theorem genesisHeader_validate (h : (Header7.initial lineage).validate = .ok ()) :
    (genesisHeader lineage).validate = .ok () :=
  ((Header7.initial lineage).validate_checksums _ _ _).trans h

theorem provisionDisk_follows {v : Volume7} (h : (Header7.initial lineage).validate = .ok ())
    (hnodes : v.nodes = installRoots) (hrecords : v.records = Vector.replicate 8 none)
    (hmap : v.map = Vector.replicate 2048 0) :
    Follows (provisionDisk v (Header7.initial lineage))
      (twoPhase provisionWrites (headerSector 0) (headerBlock (genesisHeader lineage)))
      (genesisHeader lineage) := by
  rw [provisionDisk, hnodes, hrecords, hmap]
  show Follows _ ([Command.write (headerSector 0) zeroBlock]
    ++ ([Command.write (headerSector 1) zeroBlock] ++ ([Command.flush]
    ++ (generationWrites installRoots (Vector.replicate 8 none) (Vector.replicate 2048 0) 0
    ++ ([Command.flush] ++ ([Command.write (headerSector 0) (headerBlock (genesisHeader lineage))]
    ++ ([Command.flush] ++ []))))))) _
  refine (Follows.write _ _).bind ((Follows.write _ _).bind (Follows.flush.bind
    ((writeGeneration_follows id (genesis_valid h) 0).bind (Follows.flush.bind ?_))))
  show Follows (Fallible.lift (genesisHeader lineage).encode >>= _) _ _
  rw [encode_headerBlock (genesisHeader_validate h), Fallible.lift_ok_bind]
  exact (Follows.write _ _).bind (Follows.flush.bind (Follows.pure _))

theorem candidate_zeroBlock (slot : UInt8) : candidate zeroBlock slot = none := by
  have hmagic : slice zeroBlock.toList 0 8 ≠ magic7 := by decide
  cases hdecode : Header7.decode zeroBlock with
  | error e => rw [candidate, hdecode]
  | ok header =>
    simp only [Header7.decode, except_bind_eq_ok, reject_eq_ok] at hdecode
    obtain ⟨_, hfields, -⟩ := hdecode
    exact absurd (Or.inl hmagic) hfields

/-- The disk of a provisioned volume recovers to its genesis. -/
theorem genesis_recovers (h : (Header7.initial lineage).validate = .ok ()) (view : Nat → Block) :
    Recovers (Function.update (applyWrites view (writesOf provisionWrites)) (headerSector 0)
      (headerBlock (genesisHeader lineage))) (genesis lineage) := by
  have hwrites : writesOf provisionWrites = (8, zeroBlock) :: (9, zeroBlock) ::
      (List.range 100).map fun k => (10 + k, generationBlock installRoots (Vector.replicate 8 none)
        (Vector.replicate 2048 0) k) := by
    rw [provisionWrites, writesOf_append, writesOf_generationWrites]
    rfl
  have hnodup : ((writesOf provisionWrites).map Prod.fst).Nodup := by
    rw [hwrites, List.map_cons, List.map_cons, List.map_map]
    refine List.nodup_cons.mpr ⟨?_, List.nodup_cons.mpr ⟨?_, ?_⟩⟩
    · simp
      omega
    · simp
      omega
    · exact List.Nodup.map (fun a b hab => Nat.add_left_cancel hab) List.nodup_range
  have hother : applyWrites view (writesOf provisionWrites) (headerSector 1) = zeroBlock :=
    applyWrites_of_mem hnodup (by rw [hwrites]; exact List.mem_cons_of_mem _ List.mem_cons_self)
  refine ⟨?_, ?_, genesis_valid (genesisHeader_validate h), ?_, ?_⟩
  · rw [Function.update_self, Function.update_of_ne (by decide), hother, selectHeader,
      candidate_zeroBlock, show (0 : UInt8) = (genesisHeader lineage).generation from rfl,
      candidate_headerBlock (genesisHeader_validate h)]
    exact ⟨_, rfl⟩
  · refine loadGeneration_of (genesis_valid (genesisHeader_validate h)) rfl rfl rfl fun k hk => ?_
    show Function.update _ 8 _ (10 + k) = _
    rw [Function.update_of_ne (by omega)]
    apply applyWrites_of_mem hnodup
    rw [hwrites]
    exact List.mem_cons_of_mem _ (List.mem_cons_of_mem _
      (List.mem_map.mpr ⟨k, List.mem_range.mpr hk, rfl⟩))
  · intro n hn hk
    exact absurd hk (installRoots_not_file hn)
  · intro i r hr
    have hnone : (genesis lineage).records[i] = none := by
      show (Vector.replicate 8 none)[i] = none
      simp
    rw [hnone] at hr
    cases hr

/-- Provisioning writes the disk and then sets the owner up, or clears it. -/
theorem provisionInto_run (w : World7) {block : Block}
    (hencode : (Header7.initial lineage).encode = .ok block) :
    (provisionInto lineage).run w = match (provisionDisk
        { w.volume.fenceClear with nodes := installRoots }
        (Header7.initial lineage)).run w.disk with
      | (.ok header, d) => (.ok (), { w with
          volume := { w.volume.fenceClear with nodes := installRoots, header, fenced := false }
          disk := d })
      | (.error e, d) => (.error e, { w with
          volume := ({ w.volume.fenceClear with nodes := installRoots } : Volume7).clear
          disk := d }) := by
  rw [provisionInto, hencode, Fallible.lift_ok_bind, run_setVolume_bind, run_getVolume_bind,
    Fallible.run_bind, Fallible.run_attempt, run_onDisk]
  rcases (provisionDisk { w.volume.fenceClear with nodes := installRoots }
    (Header7.initial lineage)).run w.disk with ⟨r, d⟩
  cases r <;> rfl

/-- A provisioned owner is ready. A failed call leaves it fenced; a zero lineage is refused
with nothing changed. -/
theorem provisionInto_spec (w : World7) (lineage : Bytes 16) (staged : Fin 2 → List UInt8) :
    (∀ u, ((provisionInto lineage).run w).1 = .ok u →
        Ready ((provisionInto lineage).run w).2 staged
        ∧ ((provisionInto lineage).run w).2.volume.toGeneration7 = genesis lineage)
      ∧ (∀ e, ((provisionInto lineage).run w).1 = .error e →
        ((provisionInto lineage).run w).2 = w
          ∨ ((provisionInto lineage).run w).2.volume.fenced = true) := by
  cases hencode : (Header7.initial lineage).encode with
  | error e =>
    have hrun : (provisionInto lineage).run w = (.error e, w) := by
      rw [provisionInto, hencode]
      rfl
    rw [hrun]
    exact ⟨fun u hu => (by cases hu), fun _ _ => Or.inl rfl⟩
  | ok block =>
    have hvalid : (Header7.initial lineage).validate = .ok () := by
      unfold Header7.encode at hencode
      obtain ⟨⟨⟩, hv, -⟩ := except_bind_eq_ok.mp hencode
      exact hv
    have hrun := provisionInto_run w hencode
    obtain ⟨hran, -⟩ := provisionDisk_follows
      (v := { w.volume.fenceClear with nodes := installRoots }) hvalid rfl rfl rfl w.disk
    rw [hrun]
    generalize (provisionDisk { w.volume.fenceClear with nodes := installRoots }
      (Header7.initial lineage)).run w.disk = r at hran
    cases hran with
    | stopped e d k j hk m i l => exact ⟨fun u hu => (by cases hu), fun _ _ => Or.inr rfl⟩
    | finished d m i l idle =>
      refine ⟨fun _ _ => ⟨⟨rfl, ?_, ?_, StagesHold.of_none rfl _ _⟩, rfl⟩,
        fun e he => by cases he⟩
      · exact i.trans (idle (by simp [twoPhase]))
      · show Durable d.medium (genesis lineage)
        rw [m, Medium.after_twoPhase]
        exact Durable.of_settled (genesis_recovers hvalid _)

end RusticOs.Fs
