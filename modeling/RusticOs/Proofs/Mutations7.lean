import RusticOs.Proofs.Provision7

/-!
# `RusticOs.Proofs.Mutations7`: creation, removal and retention maintenance

`CallSpec x w staged request` is what every synchronous mutation is proved to satisfy. The
call has at most one state `after` to publish, fixed by the owner and the disk contents
before it. That state is the old store with `request` applied. On every disk the call
settles: it leaves the old contents, or `after`, or a fenced owner whose disk stores one of
the two. When it returns a value the owner is ready with `after`, and on a disk that answers
every command it does return.

The rules for the refusals of a preflight (`.lift`, `.refuse`) peel a call
down to its publication (`.publish`).
-/

set_option autoImplicit false

namespace RusticOs.Fs

open RusticOs.Lib

/-! ### Specifications of calls -/

/-- `c` is `before` with a request published. -/
structure Publication (request : Request) (before c : Contents7) : Prop where
  room : before.header.sequence.toNat + 1 < 2 ^ 64
  applies : before.store.Applies request c.store

/-- What a call that publishes at most `after` does on one disk. -/
structure CallRuns {α : Type} (before : Contents7) (after : Option Contents7)
    (staged : Fin 2 → List UInt8) (x : Op α) (w : World7) : Prop where
  settles : Settles before after staged (x.run w).2
  returned : ∀ a, (x.run w).1 = .ok a →
    Ready (x.run w).2 staged ∧ (x.run w).2.contents = after.getD before
  returns : w.disk.AllDone → after.isSome = true → ∃ a, (x.run w).1 = .ok a

/-- What a mutation does on every device that holds what the owner's disk holds. -/
def CallSpec {α : Type} (x : Op α) (w : World7) (staged : Fin 2 → List UInt8)
    (request : Request) : Prop :=
  ∃ after : Option Contents7, (∀ c, after = some c → Publication request w.contents c)
    ∧ ∀ d, SameDisk d w → CallRuns w.contents after staged x { w with disk := d }

section
variable {α β : Type} {w : World7} {staged : Fin 2 → List UInt8} {request : Request}

/-- A specification depends only on how a call runs. -/
theorem CallSpec.of_run {x y : Op α}
    (h : ∀ d, x.run { w with disk := d } = y.run { w with disk := d })
    (hy : CallSpec y w staged request) : CallSpec x w staged request := by
  obtain ⟨after, hafter, hruns⟩ := hy
  refine ⟨after, hafter, fun d hd => ?_⟩
  obtain ⟨h1, h2, h3⟩ := hruns d hd
  exact ⟨by rw [h]; exact h1, by rw [h]; exact h2, by rw [h]; exact h3⟩

/-- A refusal before anything was changed. -/
theorem CallSpec.fail (h : Ready w staged) (e : Error) :
    CallSpec (Fallible.fail e : Op α) w staged request :=
  ⟨none, nofun, fun _ hd =>
    ⟨.kept (h.onDisk hd) hd.contents, nofun, nofun⟩⟩

/-- A call that returns without touching anything. -/
theorem CallSpec.answer (h : Ready w staged) (a : α) :
    CallSpec (pure a : Op α) w staged request :=
  ⟨none, nofun, fun _ hd =>
    ⟨.kept (h.onDisk hd) hd.contents, fun _ _ => ⟨h.onDisk hd, hd.contents⟩,
      nofun⟩⟩

theorem CallSpec.lift (h : Ready w staged) {r : Except Error β} {f : β → Op α}
    (hf : ∀ b, r = .ok b → CallSpec (f b) w staged request) :
    CallSpec (Fallible.lift r >>= f) w staged request := by
  cases r with
  | error e => exact .fail h e
  | ok b => exact hf b rfl

theorem CallSpec.refuse (h : Ready w staged) {c : Prop} [Decidable c] {e : Error} {f : Unit → Op α}
    (hf : ¬ c → CallSpec (f ()) w staged request) :
    CallSpec (Fallible.refuse c e >>= f) w staged request := by
  by_cases hc : c
  · rw [Fallible.refuse_bind_of hc]
    exact .fail h e
  · rw [Fallible.refuse_bind_of_not hc]
    exact hf hc

theorem CallSpec.getVolume {f : Volume7 → Op α} (hf : CallSpec (f w.volume) w staged request) :
    CallSpec (getVolume >>= f) w staged request :=
  .of_run (y := f w.volume) (fun _ => rfl) hf

theorem run_publish (g : Volume7 → Volume7) (a : α) (w : World7) :
    (do setVolume g; publishNamespace; pure a : Op α).run w
      = match publishNamespace.run { w with volume := g w.volume } with
        | (.ok _, w') => (.ok a, w')
        | (.error e, w') => (.error e, w') := by
  rw [run_setVolume_bind, Fallible.run_bind]
  rcases publishNamespace.run { w with volume := g w.volume } with ⟨r, w'⟩
  cases r <;> rfl

/-- Publishing structures that pass the check. -/
theorem CallRuns.publish (h : Ready w staged) {g : Volume7 → Volume7} (a : α)
    (hcontinues : Continues w.volume.header (g w.volume).header)
    (hstored : AllStored w.disk.medium.view (g w.volume).nodes (g w.volume).records)
    (hstages : StagesHold (g w.volume) w.disk.medium.view staged)
    (hp : (g w.volume).Publishable) :
    CallRuns w.contents (some ((g w.volume).publishedState w.disk.medium.view)) staged
      (do setVolume g; publishNamespace; pure a) w := by
  obtain ⟨after, rfl, hsettles, hret, hall⟩ := publishNamespace_spec
    (w := { w with volume := g w.volume }) (g := w.volume.toGeneration7)
    h.durable h.idle hcontinues hstored hstages hp
  have hrun := run_publish g a w
  rcases hx : publishNamespace.run { w with volume := g w.volume } with ⟨r, w'⟩
  rw [hx] at hsettles hret hall hrun
  cases r with
  | error e =>
    refine ⟨by rw [hrun]; exact hsettles, fun a ha => ?_, fun hd _ => ?_⟩
    · rw [hrun] at ha
      cases ha
    · obtain ⟨u, hu⟩ := hall hd
      cases hu
  | ok u =>
    refine ⟨by rw [hrun]; exact hsettles, fun _ _ => ?_, fun _ _ => ⟨a, by rw [hrun]⟩⟩
    rw [hrun]
    exact hret u rfl

/-- Structures that fail the check are not published. -/
theorem CallRuns.refused (h : Ready w staged) {g : Volume7 → Volume7} (a : α)
    (hp : ¬ (g w.volume).Publishable) :
    CallRuns w.contents none staged (do setVolume g; publishNamespace; pure a) w := by
  obtain ⟨hsettles, hne⟩ := publishNamespace_refused
    (w := { w with volume := g w.volume }) (g := w.volume.toGeneration7) h.durable h.idle hp staged
  have hrun := run_publish g a w
  rcases hx : publishNamespace.run { w with volume := g w.volume } with ⟨r, w'⟩
  rw [hx] at hsettles hne hrun
  cases r with
  | ok u => exact absurd rfl (hne u)
  | error e =>
    refine ⟨by rw [hrun]; exact hsettles, fun a ha => ?_, nofun⟩
    rw [hrun] at ha
    cases ha

section
variable {g : Volume7 → Volume7} (h : Ready w staged)
  (hcontinues : Continues w.volume.header (g w.volume).header)
  (hp : (g w.volume).Publishable →
    AllStored w.disk.medium.view (g w.volume).nodes (g w.volume).records
    ∧ StagesHold (g w.volume) w.disk.medium.view staged
    ∧ w.contents.store.Applies request ((g w.volume).publishedState w.disk.medium.view).store)
include h hcontinues hp

/-- Install new structures and publish them. -/
theorem CallSpec.publish (a : α) :
    CallSpec (do setVolume g; publishNamespace; pure a) w staged request := by
  by_cases hpub : (g w.volume).Publishable
  · obtain ⟨hstored, hstages, happlies⟩ := hp hpub
    refine ⟨some ((g w.volume).publishedState w.disk.medium.view), ?_, fun d hd => ?_⟩
    · rintro c ⟨⟩
      refine ⟨?_, happlies⟩
      show w.volume.header.sequence.toNat + 1 < 2 ^ 64
      rw [← hcontinues.sequence]
      exact hpub.room
    · rw [← hd.contents, ← hd.medium]
      rw [← hd.medium] at hstored hstages
      exact CallRuns.publish (h.onDisk hd) a hcontinues hstored hstages hpub
  · refine ⟨none, nofun, fun d hd => ?_⟩
    rw [← hd.contents]
    exact CallRuns.refused (h.onDisk hd) a hpub

/-- Install new structures, publish them and return nothing. -/
theorem CallSpec.publish_unit :
    CallSpec (do setVolume g; publishNamespace) w staged request := by
  refine .of_run (fun d => ?_) (.publish h hcontinues hp ())
  rw [run_setVolume_bind, run_setVolume_bind, Fallible.bind_pure_id]

end

/-- An owner that fences itself without touching the disk. -/
theorem CallSpec.fence (h : Ready w staged) (e : Error) :
    CallSpec (do setVolume Volume7.fenceClear; Fallible.fail e : Op α) w staged request :=
  ⟨none, nofun, fun _ hd =>
    ⟨.fenced rfl fun img himg => Or.inl (by
        rw [← hd.contents]
        exact (h.onDisk hd).durable.stores ((Device.image_of_inflight_none hd.idle).mp himg)),
      nofun, nofun⟩⟩

end

/-! ### Creation -/

/-- A valid name fits its field. -/
theorem validName_length {name : List UInt8} (h : validName name = .ok ()) : name.length ≤ 31 := by
  have := reject_eq_ok.mp h
  push Not at this
  exact this.2.1

theorem validName_nameLength {name : List UInt8} (h : validName name = .ok ()) :
    (UInt8.ofNat name.length).toNat = name.length := by
  have hle := validName_length h
  exact UInt8.toNat_ofNat_of_lt' (by
    show _ < 2 ^ 8
    omega)

theorem createdNode_name {name : List UInt8} (h : validName name = .ok ()) (id parent : UInt32)
    (version : UInt64) (space : UInt8) (kind : Kind) :
    (createdNode id parent version space name kind).name = name := by
  have hle := validName_length h
  show (Bytes.pack 32 name).toList.take (UInt8.ofNat name.length).toNat = name
  rw [validName_nameLength h, Bytes.toList_pack, List.take_take, Nat.min_eq_left (by omega),
    List.take_left]

/-- The entry of a new node: its name, and no bytes yet. -/
theorem createdNode_entry {name : List UInt8} (h : validName name = .ok ()) (id parent : UInt32)
    (version : UInt64) (space : UInt8) (kind : Kind) (view : Nat → Block) :
    (createdNode id parent version space name kind).entry
        (payload view (createdNode id parent version space name kind).runs
          (createdNode id parent version space name kind).length.toNat)
      = { parent, name, kind, space, version, bytes := [] } := by
  rw [Node7.entry, createdNode_name h]
  rfl

/-- A changed node keeps the payload stored when its own is. -/
theorem AllStored.setNode {view : Nat → Block} {nodes : Nodes7} {records : Records7}
    (h : AllStored view nodes records) {i : Fin 256} {n : Node7}
    (hn : n.kind = .file → Stored view n.runs n.length n.payloadCrc32) :
    AllStored view (nodes.setAt i n) records where
  node := by
    intro m hm hk
    obtain ⟨j, rfl⟩ := mem_toList_nodes.mp hm
    by_cases hj : j = i
    · subst hj
      rw [Vector.setAt_self] at hk ⊢
      exact hn hk
    · rw [Vector.setAt_ne _ hj] at hk ⊢
      exact h.node _ (getElem_mem_nodes _ j) hk
  record := h.record

/-- A changed record keeps the payload stored when its own is. -/
theorem AllStored.setRecord {view : Nat → Block} {nodes : Nodes7} {records : Records7}
    (h : AllStored view nodes records) {i : Fin 8} {r : Record7}
    (hr : Stored view r.runs r.length r.payloadCrc32) :
    AllStored view nodes (records.setAt i (some r)) where
  node := h.node
  record := by
    intro j r' hj
    by_cases hji : j = i
    · rw [hji, Vector.setAt_self, Option.some.injEq] at hj
      exact hj ▸ hr
    · rw [Vector.setAt_ne _ hji] at hj
      exact h.record j r' hj

theorem stored_empty (view : Nat → Block) : Stored view [] 0 0 :=
  ⟨Nat.zero_le _, crc_nil⟩

section
variable {w : World7} {staged : Fin 2 → List UInt8}

/-- The watermark names no live node. -/
theorem ValidGeneration.fresh_id {header : Header7} {nodes : Nodes7} {records : Records7}
    {map : SpaceMap} (h : ValidGeneration header nodes records map) (view : Nat → Block) :
    entriesOf view nodes header.next = none := by
  cases he : entriesOf view nodes header.next with
  | none => rfl
  | some e =>
    obtain ⟨i, hk, hid, -⟩ := (entriesOf_eq_some view h).mp he
    have hlt := (h.node i ((h.live_iff i).mpr hk)).id_lt
    rw [hid] at hlt
    exact absurd hlt (UInt32.lt_irrefl _)

theorem nameFree_eq_ok {v : Volume7} {parent : UInt32} {name : List UInt8} {u : Unit}
    (h : nameFree v parent name = .ok u) : v.lookup parent name = .error .notFound := by
  unfold nameFree at h
  split at h
  · cases h
  · assumption
  · cases h

theorem create_spec (h : Ready w staged) (parent : UInt32) (name : List UInt8) (kind : Kind) :
    CallSpec (create parent name kind) w staged
      (.create w.volume.header.next parent name kind) := by
  unfold create
  refine .getVolume (.lift h fun _ _ => .lift h fun _ hname =>
    .refuse h fun hkind => .lift h fun directory hdir =>
    .refuse h fun _ => .refuse h fun hdirkind => .lift h fun _ hfree =>
    .lift h fun slot hslot => .lift h fun id hid =>
    .lift h fun next hnext => .lift h fun version hversion => ?_)
  have hid : id = w.volume.header.next := by
    unfold Header7.nextId at hid
    obtain ⟨_, -, hid⟩ := except_bind_eq_ok.mp hid
    cases hid
    rfl
  subst hid
  have hempty : w.volume.nodes[slot].kind = .empty := by
    have hp := List.find?_some (orRefuse_eq_ok.mp hslot)
    simpa using hp
  have hroom : w.volume.header.next.toNat + 1 = next.toNat :=
    checkedAdd32_eq_some.mp (orRefuse_eq_ok.mp hnext)
  obtain rfl : w.volume.header.next + 1 = next := checkedAdd32_eq_add (orRefuse_eq_ok.mp hnext)
  obtain rfl : w.volume.header.sequence + 1 = version :=
    checkedAdd_eq_add (orRefuse_eq_ok.mp hversion)
  refine .publish h ⟨rfl, rfl, rfl, UInt64.le_refl _, ?_⟩ (fun hp => ⟨?_, ?_, ?_⟩) _
  · show w.volume.header.next ≤ w.volume.header.next + 1
    rw [UInt32.le_iff_toNat_le]
    omega
  · exact h.durable.recovers.stored.setNode fun _ => stored_empty _
  · exact h.stages.congr rfl rfl rfl fun _ => rfl
  · obtain ⟨i, rfl, hlive, rfl⟩ := stat_spec hdir
    have hinsert := entriesOf_insert w.disk.medium.view h.valid hp.valid hempty
      (n := createdNode w.volume.header.next w.volume.nodes[i].id (w.volume.header.sequence + 1)
        w.volume.nodes[i].space name kind) hkind
    rw [createdNode_entry hname] at hinsert
    rw [store_publishedState, hinsert]
    refine Store.Applies.create (s := w.contents.store)
      (entriesOf_slot w.disk.medium.view h.valid hlive) (not_not.mp hdirkind) hkind
      (h.valid.fresh_id w.disk.medium.view) ?_ ?_
    · have := (w.volume.header.next + 1).toNat_lt
      show w.volume.header.next.toNat + 1 < 2 ^ 32
      omega
    · intro k sibling hk hsame
      obtain ⟨j, hj, -, rfl⟩ := (entriesOf_eq_some w.disk.medium.view h.valid).mp hk
      exact lookup_notFound hdir (nameFree_eq_ok hfree) j hj hsame

/-! ### Removal -/

theorem release_eq_ok {map map' : SpaceMap} {run : Extent} (h : release map run = .ok map') :
    map' = Bitmap.setAll map run.sectorList false
      ∧ ∀ s ∈ run.sectorList, Bitmap.get map s = true := by
  simp only [release, except_bind_eq_ok, reject_eq_ok] at h
  obtain ⟨_, -, _, hall, h⟩ := h
  cases h
  refine ⟨rfl, fun s hs => ?_⟩
  rw [List.any_eq_true] at hall
  push Not at hall
  simpa using hall s hs

theorem get_lt {map : SpaceMap} {s : Nat} (h : Bitmap.get map s = true) : s < dataSectors := by
  by_contra hle
  rw [Bitmap.get_of_le (by rw [dataSectors] at hle; omega)] at h
  cases h

/-- Releasing runs clears their bits, all of which were set. -/
theorem foldlM_release {runs : List Extent} {map map' : SpaceMap}
    (h : runs.foldlM release map = .ok map') :
    map' = mutateMap map runs false ∧ ∀ s ∈ runSectors runs, Bitmap.get map s = true := by
  induction runs generalizing map with
  | nil =>
    cases h
    exact ⟨rfl, by simp⟩
  | cons run runs ih =>
    rw [List.foldlM_cons] at h
    obtain ⟨mid, hmid, h⟩ := except_bind_eq_ok.mp h
    obtain ⟨rfl, hset⟩ := release_eq_ok hmid
    obtain ⟨rfl, hrest⟩ := ih h
    have hlt : ∀ s ∈ run.sectorList, s < 64 * 2048 := fun s hs => get_lt (hset s hs)
    refine ⟨?_, fun s hs => ?_⟩
    · rw [mutateMap, mutateMap, runSectors_cons, Bitmap.setAll, Bitmap.setAll, Bitmap.setAll,
        List.foldl_append]
    · rw [runSectors_cons, List.mem_append] at hs
      rcases hs with hs | hs
      · exact hset s hs
      · have := hrest s hs
        rw [Bitmap.get_setAll _ hlt] at this
        split at this
        · cases this
        · exact this

/-- Clearing bits frees nothing that was free. -/
theorem get_mutateMap_false {map : SpaceMap} {runs : List Extent}
    (h : ∀ s ∈ runSectors runs, s < dataSectors) {s : Nat} (hs : Bitmap.get map s = false) :
    Bitmap.get (mutateMap map runs false) s = false := by
  rw [mutateMap, Bitmap.get_setAll _ h]
  split
  · rfl
  · exact hs

theorem remove_spec (h : Ready w staged) (id : UInt32) :
    CallSpec (remove id) w staged (.remove id) := by
  unfold remove
  refine .getVolume (.lift h fun _ _ => .lift h fun index hindex =>
    .refuse h fun _ => .refuse h fun hchild => .lift h fun _ _ => ?_)
  obtain ⟨hlive, rfl⟩ := nodePosition_spec (orRefuse_eq_ok.mp hindex)
  split
  · exact .fence h .corrupt
  · rename_i map hmap
    obtain ⟨rfl, hset⟩ := foldlM_release hmap
    refine .publish_unit h (Continues.refl _) fun hp => ⟨?_, ?_, ?_⟩
    · exact h.durable.recovers.stored.setNode nofun
    · refine h.stages.transport h.valid rfl (fun i slot hi s hs => ⟨?_, rfl⟩) (fun _ hr => hr)
        (fun _ _ => rfl) h.stages.room
      exact get_mutateMap_false (fun s hs => get_lt (hset s hs))
        ((h.stages.holds i slot hi).free hs).2
    · rw [store_publishedState, entriesOf_erase w.disk.medium.view h.valid hp.valid hlive]
      refine Store.Applies.remove (s := w.contents.store)
        (entriesOf_slot w.disk.medium.view h.valid hlive) fun k child hk hparent => ?_
      obtain ⟨j, hj, -, rfl⟩ := (entriesOf_eq_some w.disk.medium.view h.valid).mp hk
      exact hchild ⟨j, hj, hparent⟩

/-! ### Retention maintenance -/

theorem openStages_eq_zero {v : Volume7} (h : ¬ v.openStages ≠ 0) (i : Fin 2) :
    v.stages[i] = none := by
  cases hi : v.stages[i] with
  | none => rfl
  | some slot =>
    have hmem := mem_openSlots.mpr ⟨i, hi⟩
    rw [List.length_eq_zero_iff.mp (not_not.mp h)] at hmem
    cases hmem

theorem maintainRetention_spec (h : Ready w staged) :
    CallSpec maintainRetention w staged .maintain := by
  unfold maintainRetention
  refine .getVolume (.lift h fun _ _ => .refuse h fun hopen =>
    .refuse h fun hadmitted => .lift h fun epoch hepoch =>
    .lift h fun _ _ => .lift h fun _ _ => .lift h fun live _ =>
    .refuse h fun _ => ?_)
  have hroom : w.volume.header.epoch.toNat + 1 = epoch.toNat :=
    checkedAdd_eq_some.mp (orRefuse_eq_ok.mp hepoch)
  obtain rfl : w.volume.header.epoch + 1 = epoch := checkedAdd_eq_add (orRefuse_eq_ok.mp hepoch)
  have hnone : ∀ i : Fin 8, (Vector.replicate 8 (none : Option Record7))[i] = none :=
    fun i => by simp
  refine .publish h ⟨rfl, rfl, rfl, ?_, UInt32.le_refl _⟩ (fun hp => ⟨?_, ?_, ?_⟩) _
  · show w.volume.header.epoch ≤ w.volume.header.epoch + 1
    rw [UInt64.le_iff_toNat_le]
    omega
  · refine ⟨h.durable.recovers.stored.node, fun i r hr => ?_⟩
    rw [hnone] at hr
    cases hr
  · refine StagesHold.of_none ?_ _ _
    apply Vector.ext
    intro i hi
    rw [Vector.getElem_replicate]
    exact openStages_eq_zero hopen ⟨i, hi⟩
  · have houtcomes : outcomesOf w.disk.medium.view (Vector.replicate 8 none) = fun _ => none := by
      funext scope
      refine outcomesOf_eq_none _ fun i r hr => ?_
      rw [hnone] at hr
      cases hr
    rw [store_publishedState, houtcomes]
    refine Store.Applies.maintain (s := w.contents.store) fun scope o ho hstate => ?_
    obtain ⟨i, r, hr, -, rfl⟩ := (outcomesOf_eq_some w.disk.medium.view h.valid).mp ho
    exact hadmitted ⟨i, by rw [hr]; exact decide_eq_true hstate⟩

end

end RusticOs.Fs
