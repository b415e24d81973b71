import RusticOs.Fs.Store
import RusticOs.Lib.Keyed
import RusticOs.Proofs.Publication7

/-!
# `RusticOs.Proofs.Contents7`: the durable state of a v7 volume and the store it holds

`Contents7` is everything a mount restores: the generation and the bytes of every live file
and every retained snapshot. `Stores img c` says that a mount of the disk contents `img`
restores exactly `c`. `Contents7.store` reads contents as the abstract store: entries by
identity, outcomes by retry scope.

* `Durable.stores`: a durable generation is restored with its bytes from every image after a
  power loss.
* `nodeTable_unique`, `recordTable_unique`: in a valid generation identities and scopes name
  at most one slot, so the tables are finite maps.
-/

set_option autoImplicit false

namespace RusticOs.Fs

open RusticOs.Lib

/-! ### Contents -/

/-- A generation with the bytes of its live files and retained snapshots, slot by slot. -/
structure Contents7 extends Generation7 where
  files : Fin 256 → List UInt8
  snapshots : Fin 8 → List UInt8

/-- The snapshot a retained slot has in disk contents. -/
def snapshotBytes (img : Nat → Block) : Option Record7 → List UInt8
  | none => []
  | some record => payload img record.runs record.length.toNat

/-- The contents a generation has in disk contents. -/
def contents (g : Generation7) (img : Nat → Block) : Contents7 :=
  { g with
    files := fun i => payload img g.nodes[i].runs g.nodes[i].length.toNat
    snapshots := fun i => snapshotBytes img g.records[i] }

/-- The contents of an owner on its disk. -/
def World7.contents (w : World7) : Contents7 :=
  Fs.contents w.volume.toGeneration7 w.disk.medium.view

/-- A mount of the disk contents restores exactly `c`. -/
structure Stores (img : Nat → Block) (c : Contents7) : Prop where
  recovers : Recovers img c.toGeneration7
  bytes : contents c.toGeneration7 img = c

variable {img : Nat → Block} {g : Generation7}

/-- Contents are determined by the disk they are stored on. -/
theorem Stores.unique {c c' : Contents7} (h : Stores img c) (h' : Stores img c') : c = c' := by
  obtain ⟨r, hr⟩ := recovers_iff.mp h.recovers
  obtain ⟨r', hr'⟩ := recovers_iff.mp h'.recovers
  rw [hr, Except.ok.injEq, Mounted7.mk.injEq] at hr'
  rw [← h.bytes, ← h'.bytes, hr'.1]

/-- Only files have payload. -/
theorem ValidGeneration.runs_of_not_file {header : Header7} {nodes : Nodes7} {records : Records7}
    {map : SpaceMap} (h : ValidGeneration header nodes records map) {n : Node7}
    (hn : n ∈ nodes.toList) (hk : n.kind ≠ .file) : n.runs = [] := by
  by_cases hne : n = Node7.empty
  · rw [hne]
    rfl
  · have hshape := h.node_shape hn hne
    have hdir : n.kind = .directory := by
      cases hkind : n.kind with
      | empty => exact absurd hkind hshape.kind_ne
      | file => exact absurd hkind hk
      | directory => rfl
    rw [Node7.runs, (hshape.directory hdir).2.2]
    rfl

theorem getElem_mem_nodes (nodes : Nodes7) (i : Fin 256) : nodes[i] ∈ nodes.toList :=
  mem_toList_nodes.mpr ⟨i, rfl⟩

/-- Contents depend on the allocated payload sectors only. -/
theorem contents_congr {img' : Nat → Block} (hv : ValidGeneration g.header g.nodes g.records g.map)
    (h : ∀ s, Bitmap.get g.map s = true → img' (payloadSector + s) = img (payloadSector + s)) :
    contents g img' = contents g img := by
  have hfiles : ∀ i : Fin 256, payload img' g.nodes[i].runs g.nodes[i].length.toNat
      = payload img g.nodes[i].runs g.nodes[i].length.toNat := by
    intro i
    have hmem := getElem_mem_nodes g.nodes i
    by_cases hk : g.nodes[i].kind = .file
    · exact payload_congr fun s hs => h s (hv.node_sectors hmem hk hs)
    · rw [hv.runs_of_not_file hmem hk]
      rfl
  have hsnapshots : ∀ i : Fin 8, snapshotBytes img' g.records[i]
      = snapshotBytes img g.records[i] := by
    intro i
    cases hr : g.records[i] with
    | none => rfl
    | some r => exact payload_congr fun s hs => h s (hv.record_sectors hr hs)
  simp only [contents, hfiles, hsnapshots]

/-- A durable generation is restored with its bytes whatever is lost. -/
theorem Durable.stores {medium : Medium Block} (h : Durable medium g) (himg : medium.Image img) :
    Stores img (contents g medium.view) where
  recovers := h.image himg
  bytes := contents_congr h.recovers.valid fun _ hs =>
    h.holds.image himg (payload_mem_footprint _ hs)

/-- Contents that agree on every payload sector. -/
theorem contents_of_payload {img' : Nat → Block}
    (h : ∀ s, img' (payloadSector + s) = img (payloadSector + s)) :
    contents g img' = contents g img := by
  have hpayload : ∀ runs n, payload img' runs n = payload img runs n :=
    fun runs n => payload_congr fun s _ => h s
  have hsnapshot : ∀ r, snapshotBytes img' r = snapshotBytes img r := by
    intro r
    cases r with
    | none => rfl
    | some r => exact hpayload _ _
  simp only [contents, hpayload, hsnapshot]

/-- The contents a publication of these structures leaves, when its payload commands have
left `view`. -/
def publishedState (header : Header7) (nodes : Nodes7) (records : Records7) (map : SpaceMap)
    (view : Nat → Block) : Contents7 :=
  contents (published header nodes records map) view

/-- The contents a publication of an owner's structures leaves. -/
abbrev Volume7.publishedState (v : Volume7) (view : Nat → Block) : Contents7 :=
  Fs.publishedState v.header v.nodes v.records v.map view

/-- Crash atomicity of one publication: cut its commands anywhere, keep any subset of the
unflushed writes, and the disk stores the contents before it, or those after it once the
header has been submitted. -/
theorem Durable.publish_stores {medium : Medium Block} {extra : List (Command Block)}
    {header : Header7} {nodes : Nodes7} {records : Records7} {map : SpaceMap}
    (hg : Durable medium g) (h : Publishes g medium.view extra header nodes records map) {k : Nat}
    (himg : (medium.after
      ((publicationCommands extra header nodes records map).take k)).Image img) :
    Stores img (contents g medium.view) ∨ (extra.length + 102 ≤ k
      ∧ Stores img (publishedState header nodes records map
        (applyWrites medium.view (writesOf extra)))) := by
  rcases hg.publish_image h himg with hold | ⟨hk, rfl⟩
  · exact Or.inl ⟨hg.recovers.congr hold, contents_congr hg.recovers.valid fun s hs =>
      hold _ (payload_mem_footprint _ hs)⟩
  · exact Or.inr ⟨hk, h.recovers hg.recovers, contents_of_payload fun s =>
      publishedContents_payload _ _ _ _ _ _ s⟩

/-! ### The store -/

/-- The scope of a retained record. -/
def Record7.scope (r : Record7) : Scope :=
  { subject := r.subject, workspace := r.workspace, retryEpoch := r.retryEpoch
    retryKey := r.retryKey }

/-- The entry of a live node. -/
def Node7.entry (n : Node7) (bytes : List UInt8) : Entry :=
  { parent := n.parent, name := n.name, kind := n.kind, space := n.space
    version := n.version, bytes }

/-- The outcome of a retained record. -/
def Record7.outcome (r : Record7) (bytes : List UInt8) : Outcome :=
  { object := r.object, inst := r.inst, previous := r.previous, committed := r.committed
    admissionNumber := r.admissionNumber, terminal := r.terminal, state := r.state
    prevention := r.prevention, bytes }

/-- The live nodes by identity. -/
def nodeTable (nodes : Nodes7) (files : Fin 256 → List UInt8) (i : Fin 256) :
    Option (UInt32 × Entry) :=
  if nodes[i].kind = .empty then none else some (nodes[i].id, nodes[i].entry (files i))

/-- The retained records by scope. -/
def recordTable (records : Records7) (snapshots : Fin 8 → List UInt8) (i : Fin 8) :
    Option (Scope × Outcome) :=
  records[i].map fun r => (r.scope, r.outcome (snapshots i))

/-- The store that contents hold. -/
def Contents7.store (c : Contents7) : Store :=
  { sequence := c.header.sequence
    epoch := c.header.epoch
    next := c.header.next
    entries := lookup (nodeTable c.nodes c.files)
    outcomes := lookup (recordTable c.records c.snapshots) }

section
variable {header : Header7} {nodes : Nodes7} {records : Records7} {map : SpaceMap}

/-- A slot that is not the empty node is live. -/
theorem ValidGeneration.live_iff (h : ValidGeneration header nodes records map) (i : Fin 256) :
    nodes[i] ≠ Node7.empty ↔ nodes[i].kind ≠ .empty := by
  constructor
  · intro hne
    exact (h.node i hne).shape.kind_ne
  · intro hk he
    rw [he] at hk
    exact hk rfl

variable {i : Fin 256} {r : Record7} {scope : Scope} {n : Node7}

theorem ValidGeneration.id_inj (h : ValidGeneration header nodes records map) {j : Fin 256}
    (hi : nodes[i].kind ≠ .empty) (hj : nodes[j].kind ≠ .empty) (hid : nodes[i].id = nodes[j].id) :
    i = j := by
  have hi' := (h.live_iff i).mpr hi
  have hj' := (h.live_iff j).mpr hj
  rcases lt_trichotomy i j with hlt | heq | hlt
  · exact absurd hid ((h.node j hj').unique i hlt hi').1
  · exact heq
  · exact absurd hid.symm ((h.node i hi').unique j hlt hj').1

theorem ValidGeneration.scope_inj (h : ValidGeneration header nodes records map) {i j : Fin 8}
    {r' : Record7} (hi : records[i] = some r) (hj : records[j] = some r')
    (hscope : r.scope = r'.scope) : i = j := by
  have hsame : ∀ a b : Record7, a.scope = b.scope → contradicts a b = true := by
    intro a b hab
    rw [Record7.scope, Record7.scope, Scope.mk.injEq] at hab
    simp [contradicts, sameRetryIdentity, hab]
  rcases lt_trichotomy i j with hlt | heq | hlt
  · have := (h.record j r' hj).consistent i hlt r hi
    rw [hsame r' r hscope.symm] at this
    cases this
  · exact heq
  · have := (h.record i r hi).consistent j hlt r' hj
    rw [hsame r r' hscope] at this
    cases this

theorem nodeTable_eq_some {files : Fin 256 → List UInt8} {id : UInt32} {e : Entry} :
    nodeTable nodes files i = some (id, e)
      ↔ nodes[i].kind ≠ .empty ∧ nodes[i].id = id ∧ nodes[i].entry (files i) = e := by
  unfold nodeTable
  split
  · rename_i hk
    exact ⟨nofun, fun h => absurd hk h.1⟩
  · rename_i hk
    rw [Option.some.injEq, Prod.mk.injEq]
    exact ⟨fun h => ⟨hk, h⟩, fun h => h.2⟩

theorem recordTable_eq_some {snapshots : Fin 8 → List UInt8} {i : Fin 8} {o : Outcome} :
    recordTable records snapshots i = some (scope, o)
      ↔ ∃ r, records[i] = some r ∧ r.scope = scope ∧ r.outcome (snapshots i) = o := by
  simp [recordTable]

theorem nodeTable_unique (h : ValidGeneration header nodes records map)
    (files : Fin 256 → List UInt8) : UniqueKeys (nodeTable nodes files) := by
  intro i j id e e' hi hj
  obtain ⟨hki, hidi, -⟩ := nodeTable_eq_some.mp hi
  obtain ⟨hkj, hidj, -⟩ := nodeTable_eq_some.mp hj
  exact h.id_inj hki hkj (hidi.trans hidj.symm)

theorem recordTable_unique (h : ValidGeneration header nodes records map)
    (snapshots : Fin 8 → List UInt8) : UniqueKeys (recordTable records snapshots) := by
  intro i j scope o o' hi hj
  obtain ⟨r, hr, hs, -⟩ := recordTable_eq_some.mp hi
  obtain ⟨r', hr', hs', -⟩ := recordTable_eq_some.mp hj
  exact h.scope_inj hr hr' (hs.trans hs'.symm)

/-! ### Changing one slot -/

/-- The bytes of the file in a slot. -/
def fileBytes (view : Nat → Block) (nodes : Nodes7) (i : Fin 256) : List UInt8 :=
  payload view nodes[i].runs nodes[i].length.toNat

/-- The entries of a node table. -/
def entriesOf (view : Nat → Block) (nodes : Nodes7) : UInt32 → Option Entry :=
  lookup (nodeTable nodes (fileBytes view nodes))

/-- The outcomes of the retained slots. -/
def outcomesOf (view : Nat → Block) (records : Records7) : Scope → Option Outcome :=
  lookup (recordTable records fun i => snapshotBytes view records[i])

theorem store_publishedState (header : Header7) (nodes : Nodes7) (records : Records7)
    (map : SpaceMap) (view : Nat → Block) :
    (publishedState header nodes records map view).store
      = { sequence := header.sequence + 1, epoch := header.epoch, next := header.next
          entries := entriesOf view nodes, outcomes := outcomesOf view records } := rfl

variable (view : Nat → Block)
include view

theorem nodeTable_set_ne (nodes : Nodes7) {j : Fin 256} (h : j ≠ i) (n : Node7) :
    nodeTable (nodes.setAt i n) (fileBytes view (nodes.setAt i n)) j
      = nodeTable nodes (fileBytes view nodes) j := by
  rw [nodeTable, nodeTable, fileBytes, fileBytes, Vector.setAt_ne nodes h]

theorem nodeTable_set_self (nodes : Nodes7) (i : Fin 256) (hn : n.kind ≠ .empty) :
    nodeTable (nodes.setAt i n) (fileBytes view (nodes.setAt i n)) i
      = some (n.id, n.entry (payload view n.runs n.length.toNat)) := by
  rw [nodeTable, fileBytes, Vector.setAt_self, if_neg hn]

theorem recordTable_set_ne (records : Records7) {i j : Fin 8} (h : j ≠ i) (r : Option Record7) :
    recordTable (records.setAt i r) (fun i' => snapshotBytes view (records.setAt i r)[i']) j
      = recordTable records (fun i => snapshotBytes view records[i]) j := by
  rw [recordTable, recordTable, Vector.setAt_ne records h]

theorem recordTable_set_self (records : Records7) (i : Fin 8) (r : Record7) :
    recordTable (records.setAt i (some r))
        (fun i' => snapshotBytes view (records.setAt i (some r))[i']) i
      = some (r.scope, r.outcome (payload view r.runs r.length.toNat)) := by
  rw [recordTable, Vector.setAt_self]
  rfl

variable {header' : Header7} {records' : Records7} {map' : SpaceMap} {nodes' : Nodes7}

section
variable (h : ValidGeneration header nodes records map)
include h

/-- A node in a free slot is a new entry. -/
theorem entriesOf_insert (h' : ValidGeneration header' (nodes.setAt i n) records' map')
    (hold : nodes[i].kind = .empty) (hn : n.kind ≠ .empty) :
    entriesOf view (nodes.setAt i n) = Function.update (entriesOf view nodes) n.id
      (some (n.entry (payload view n.runs n.length.toNat))) :=
  lookup_insert (nodeTable_unique h _) (nodeTable_unique h' _)
    (fun _ hj => nodeTable_set_ne view nodes hj n) (if_pos hold)
    (nodeTable_set_self view nodes i hn)

/-- A cleared slot removes its entry. -/
theorem entriesOf_erase (h' : ValidGeneration header' (nodes.setAt i Node7.empty) records' map')
    (hold : nodes[i].kind ≠ .empty) :
    entriesOf view (nodes.setAt i Node7.empty)
      = Function.update (entriesOf view nodes) nodes[i].id none :=
  lookup_erase (nodeTable_unique h _) (nodeTable_unique h' _)
    (fun _ hj => nodeTable_set_ne view nodes hj Node7.empty) (if_neg hold) (by
      rw [nodeTable, Vector.setAt_self]
      rfl)

/-- A node with the same identity replaces its entry. -/
theorem entriesOf_replace (h' : ValidGeneration header' (nodes.setAt i n) records' map')
    (hold : nodes[i].kind ≠ .empty) (hn : n.kind ≠ .empty) (hid : n.id = nodes[i].id) :
    entriesOf view (nodes.setAt i n) = Function.update (entriesOf view nodes) nodes[i].id
      (some (n.entry (payload view n.runs n.length.toNat))) :=
  lookup_replace (nodeTable_unique h _) (nodeTable_unique h' _)
    (fun _ hj => nodeTable_set_ne view nodes hj n) (if_neg hold)
    (hid ▸ nodeTable_set_self view nodes i hn)

/-- A record in a free slot is a new outcome. -/
theorem outcomesOf_insert {i : Fin 8}
    (h' : ValidGeneration header' nodes' (records.setAt i (some r)) map')
    (hold : records[i] = none) :
    outcomesOf view (records.setAt i (some r)) = Function.update (outcomesOf view records) r.scope
      (some (r.outcome (payload view r.runs r.length.toNat))) :=
  lookup_insert (recordTable_unique h _) (recordTable_unique h' _)
    (fun _ hj => recordTable_set_ne view records hj (some r)) (by rw [recordTable, hold]; rfl)
    (recordTable_set_self view records i r)

/-- A record with the same scope replaces its outcome. -/
theorem outcomesOf_replace {i : Fin 8} {old : Record7}
    (h' : ValidGeneration header' nodes' (records.setAt i (some r)) map')
    (hold : records[i] = some old) (hscope : r.scope = old.scope) :
    outcomesOf view (records.setAt i (some r)) = Function.update (outcomesOf view records) r.scope
      (some (r.outcome (payload view r.runs r.length.toNat))) :=
  lookup_replace (recordTable_unique h _) (recordTable_unique h' _)
    (fun _ hj => recordTable_set_ne view records hj (some r))
    (b := old.outcome (snapshotBytes view (some old))) (by rw [recordTable, hold, hscope]; rfl)
    (recordTable_set_self view records i r)

/-- A live slot is an entry of the store. -/
theorem entriesOf_slot (hk : nodes[i].kind ≠ .empty) :
    entriesOf view nodes nodes[i].id = some (nodes[i].entry (fileBytes view nodes i)) :=
  (lookup_eq_some (nodeTable_unique h _)).mpr ⟨i, nodeTable_eq_some.mpr ⟨hk, rfl, rfl⟩⟩

theorem entriesOf_eq_some {id : UInt32} {e : Entry} :
    entriesOf view nodes id = some e
      ↔ ∃ i : Fin 256, nodes[i].kind ≠ .empty ∧ nodes[i].id = id
        ∧ nodes[i].entry (fileBytes view nodes i) = e := by
  rw [entriesOf, lookup_eq_some (nodeTable_unique h _)]
  exact exists_congr fun i => nodeTable_eq_some

theorem outcomesOf_eq_some {o : Outcome} :
    outcomesOf view records scope = some o
      ↔ ∃ (i : Fin 8) (r : Record7), records[i] = some r ∧ r.scope = scope
        ∧ r.outcome (payload view r.runs r.length.toNat) = o := by
  rw [outcomesOf, lookup_eq_some (recordTable_unique h _)]
  refine exists_congr fun i => recordTable_eq_some.trans (exists_congr fun r => ?_)
  refine and_congr_right fun hr => and_congr_right fun _ => ?_
  rw [hr]
  rfl

end

theorem outcomesOf_eq_none
    (hnone : ∀ (i : Fin 8) (r : Record7), records[i] = some r → r.scope ≠ scope) :
    outcomesOf view records scope = none := by
  rw [outcomesOf, lookup_eq_none]
  intro i o hi
  obtain ⟨r, hr, hs, -⟩ := recordTable_eq_some.mp hi
  exact hnone i r hr hs

end

end RusticOs.Fs
