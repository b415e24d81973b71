import RusticOs.Proofs.Crash7
import RusticOs.Proofs.Decode7

/-!
# `RusticOs.Proofs.RoundTrip7`: codecs, generations and mounts are inverse

* `readGeneration_writeGeneration`: a valid generation that was written to a slot is read
  back from it, with its three checksums.
* `codec_roundtrip`: the codecs in both directions, the generation, and a mount after any
  publication.
-/

set_option autoImplicit false

namespace RusticOs.Fs

open RusticOs.Lib

/-- A header with the checksums of the regions it names. -/
def Header7.withChecksums (header : Header7) (sums : UInt32 × UInt32 × UInt32) : Header7 :=
  { header with nodesChecksum := sums.1, mapChecksum := sums.2.1, receiptsChecksum := sums.2.2 }

section
variable {header : Header7} {nodes : Nodes7} {records : Records7} {map : SpaceMap}

theorem ValidGeneration.withChecksums (h : ValidGeneration header nodes records map)
    (sums : UInt32 × UInt32 × UInt32) :
    ValidGeneration (header.withChecksums sums) nodes records map := by
  have hvalid := validateGeneration_eq_ok.mpr h
  rw [← validateGeneration_checksums] at hvalid
  exact validateGeneration_eq_ok.mp hvalid

/-- What was written to a generation's slot is read back from it. -/
theorem readGeneration_writeGeneration (hv : ValidGeneration header nodes records map)
    {onError : Error → Error} {d d' e : Disk} {sums : UInt32 × UInt32 × UInt32}
    (hwrite : (writeGeneration onError nodes records map header.generation).run d
      = (.ok sums, d')) (he : e.medium = d'.medium) (hall : e.AllDone) :
    ((readGeneration (header.withChecksums sums)).run e).1 = .ok (nodes, map, records) := by
  obtain ⟨-, -, -, -, hread⟩ := readGeneration_reads (header.withChecksums sums) e
  rw [(hread hall).1, he]
  obtain ⟨hran, -⟩ := writeGeneration_follows onError hv header.generation d
  rw [hwrite] at hran
  cases hran with
  | finished _ hmedium _ _ _ =>
    refine loadGeneration_of (hv.withChecksums _) rfl rfl rfl fun k hk => ?_
    rw [hmedium, Medium.view_after]
    apply applyWrites_of_mem
    · rw [writesOf_generationWrites, List.map_map]
      exact List.Nodup.map (fun a b hab => Nat.add_left_cancel hab) List.nodup_range
    · rw [writesOf_generationWrites, List.mem_map]
      exact ⟨k, List.mem_range.mpr hk, rfl⟩

/-- On a disk that answers every command a valid generation is written. -/
theorem writeGeneration_returns (hv : ValidGeneration header nodes records map)
    (onError : Error → Error) {d : Disk} (hall : d.AllDone) :
    ∃ sums d', (writeGeneration onError nodes records map header.generation).run d
      = (.ok sums, d') ∧ d'.AllDone := by
  obtain ⟨-, hdone⟩ := writeGeneration_follows onError hv header.generation d
  obtain ⟨d', hd', hall'⟩ := hdone hall
  exact ⟨_, d', hd', hall'⟩

end

/-- A mount of an unfenced owner's disk restores the owner's structures. -/
theorem Ready.mount {w : World7} {staged : Fin 2 → List UInt8} (h : Ready w staged) :
    ∃ v, (Session.idle (w.answering reliable)).step .mount = (.idle v, .unit (.ok ()))
      ∧ v.volume.toGeneration7 = w.volume.toGeneration7 := by
  obtain ⟨-, -, -, hmount⟩ := mountInto_spec (w.answering reliable) staged
  obtain ⟨hok, hcontents, -⟩ := hmount ⟨h.idle, fun _ => rfl⟩ w.contents
    (h.images (Device.view_image w.disk))
  refine ⟨(mountInto.run (w.answering reliable)).2, ?_, congrArg Contents7.toGeneration7 hcontents⟩
  rw [← hok]
  rfl

/-- The on-disk formats lose nothing and admit nothing else. Each structure decodes from its
encoding, and a block that decodes is the encoding of what it decodes to. So a generation
that passes the validator is read back from the slot it was written to, under the header with
the checksums the write returned. And at any time an unfenced owner, such as one that has
just reported a publication, holds exactly the header, nodes, map and records that a mount of
its disk restores, at once or after any power cut. -/
theorem codec_roundtrip :
    (∀ (h : Header7) (b : Block), h.encode = .ok b ↔ Header7.decode b = .ok h)
      ∧ (∀ (n : Node7) (b : Bytes 128), n.encode = .ok b ↔ Node7.decode b = .ok n)
      ∧ (∀ (r : Record7) (b : Bytes 192), r.encode = .ok b ↔ Record7.decode b = .ok r)
      ∧ (∀ (r : Record7) (b : Bytes 192), r.encode = .ok b ↔ Record7.slot b = .ok (some r))
      ∧ (∀ b : Bytes 192, b = Vector.replicate 192 0 ↔ Record7.slot b = .ok none)
      ∧ (∀ (records : Records7) (blocks : Fin 4 → Block),
        (∀ i : Fin 4, receiptsBlock records i.val = .ok (blocks i))
          ↔ receiptSlots (receiptBytes blocks) = .ok records.toList)
      ∧ (∀ (g : Generation7) (onError : Error → Error),
        validateGeneration g.header g.nodes g.records g.map = .ok () →
          (∀ d : Disk, d.AllDone → ∃ sums d', (writeGeneration onError g.nodes g.records g.map
            g.header.generation).run d = (.ok sums, d') ∧ d'.AllDone)
          ∧ ∀ (d d' e : Disk) sums, (writeGeneration onError g.nodes g.records g.map
              g.header.generation).run d = (.ok sums, d') → e.medium = d'.medium → e.AllDone →
            (∃ b, (g.header.withChecksums sums).encode = .ok b
              ∧ Header7.decode b = .ok (g.header.withChecksums sums))
            ∧ ((readGeneration (g.header.withChecksums sums)).run e).1
              = .ok (g.nodes, g.map, g.records))
      ∧ (∀ s : Session, Reachable s → s.world.volume.fenced = false → ∀ mask, ∃ v,
        ((s.step (.powerCut mask reliable)).1.step .mount) = (.idle v, .unit (.ok ()))
          ∧ v.volume.toGeneration7 = s.world.volume.toGeneration7)
      ∧ ∀ w : World7, Reachable (.idle w) → w.volume.fenced = false → ∃ v,
        (Session.idle (w.answering reliable)).step .mount = (.idle v, .unit (.ok ()))
          ∧ v.volume.toGeneration7 = w.volume.toGeneration7 := by
  refine ⟨fun h b => ⟨Header7.decode_encode, Header7.encode_decode⟩,
    fun n b => ⟨Node7.decode_encode, Node7.encode_decode⟩,
    fun r b => ⟨Record7.decode_encode, Record7.encode_decode⟩,
    fun r b => Record7.slot_eq_some.symm, fun b => Record7.slot_eq_none.symm,
    fun records blocks => receiptSlots_eq_ok.symm, fun g onError hg => ?_,
    fun s hs hunfenced mask => ?_, fun w hw hunfenced => ?_⟩
  · have hv := validateGeneration_eq_ok.mp hg
    refine ⟨fun d hall => writeGeneration_returns hv onError hall,
      fun d d' e sums hwrite he hall => ⟨?_, readGeneration_writeGeneration hv hwrite he hall⟩⟩
    have hencode := encode_headerBlock (hv.withChecksums sums).head
    exact ⟨_, hencode, Header7.decode_encode hencode⟩
  · obtain ⟨staged, hready⟩ := hs.world_ready hunfenced
    obtain ⟨v, hmount, -, -, hv⟩ := mount_after_cut mask (P := fun c => c = s.world.contents)
      fun img himg => ⟨_, hready.images himg, rfl⟩
    exact ⟨v, hmount, congrArg Contents7.toGeneration7 hv⟩
  · obtain ⟨staged, hready⟩ := hw.ready hunfenced
    exact hready.mount

/-- The roots of a new volume are read back. -/
theorem codec_roundtrip_provisioned : ∃ v,
    (Session.idle (provisioned.answering reliable)).step .mount = (.idle v, .unit (.ok ()))
      ∧ v.volume.toGeneration7 = provisioned.volume.toGeneration7 :=
  codec_roundtrip.2.2.2.2.2.2.2.2 provisioned provisioned_reachable provisioned_ready.unfenced

end RusticOs.Fs
