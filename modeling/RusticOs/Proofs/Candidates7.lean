import RusticOs.Proofs.Specification7
import RusticOs.Proofs.Tracked7

/-!
# `RusticOs.Proofs.Candidates7`: what a mutation builds is well formed

Every mutation checks its candidate with the validator before it publishes. On a well-formed
owner that check is only a precaution. The lemmas here say so for the structures each
mutation builds, in the terms of `WellFormed`: a record that observes the current version of a
file, with the next sequence number, extends the history of that file, and runs planned in free
sectors give every sector one owner again.

* `WellFormed.admitted`: a new admission.
* `WellFormed.replace`: a file whose runs a new record shares.
* `WellFormed.maintain`: no records at all.
* `WellFormed.create`: a new file or directory.
-/

set_option autoImplicit false

namespace RusticOs.Fs

open RusticOs.Lib
open Vector (setAt_ne setAt_self)

variable {header : Header7} {nodes : Nodes7} {records : Records7} {map : SpaceMap}

/-! ### The next header -/

variable {n : UInt64} {r : Record7} {nodes' : Nodes7}

/-- A counter with room counts on. -/
theorem checkedAdd_one (h : n.toNat + 1 < 2 ^ 64) : checkedAdd n 1 = some (n + 1) := by
  rw [checkedAdd_eq_some, UInt64.toNat_add]
  exact (Nat.mod_eq_of_lt h).symm

theorem checkedAdd_one_full (h : ¬ n.toNat + 1 < 2 ^ 64) : checkedAdd n 1 = none := by
  cases hc : checkedAdd n 1 with
  | none => rfl
  | some m =>
    have hm : n.toNat + 1 = m.toNat := checkedAdd_eq_some.mp hc
    have hlt := m.toNat_lt
    exact absurd (by rw [hm]; exact hlt) h

section
variable (room : header.sequence.toNat + 1 < 2 ^ 64)
include room

/-- The successor of the sequence, where there is one. -/
theorem toNat_next_sequence : (nextHeader header).sequence.toNat = header.sequence.toNat + 1 := by
  show (header.sequence + 1).toNat = _
  rw [UInt64.toNat_add]
  exact Nat.mod_eq_of_lt room

theorem le_next (h : n ≤ header.sequence) : n ≤ (nextHeader header).sequence := by
  have hle := UInt64.le_iff_toNat_le.mp h
  rw [UInt64.le_iff_toNat_le, toNat_next_sequence room]
  omega

theorem lt_next (h : n ≤ header.sequence) : n < (nextHeader header).sequence := by
  have hle := UInt64.le_iff_toNat_le.mp h
  rw [UInt64.lt_iff_toNat_lt, toNat_next_sequence room]
  omega

theorem HeaderFields.next (h : HeaderFields header) : HeaderFields (nextHeader header) where
  lineage_ne := h.lineage_ne
  epoch_ge := h.epoch_ge
  epoch_le := le_next room h.epoch_le
  next_ge := h.next_ge
  generation_lt := by
    have hcases : header.generation = 0 ∨ header.generation = 1 :=
      Header7.generation_cases (header_validate_eq_ok.mpr h)
    show header.generation ^^^ 1 < 2
    rcases hcases with h0 | h1
    · rw [h0]
      decide
    · rw [h1]
      decide

theorem NodeFields.next {n : Node7} (h : NodeFields header n) : NodeFields (nextHeader header) n :=
  ⟨h.shape, h.crc, h.id_lt, le_next room h.version_le⟩

theorem RecordFields.next (h : RecordFields header r) : RecordFields (nextHeader header) r :=
  ⟨h.shape, h.workspace_lt, h.object_lt, le_next room h.previous_le, le_next room h.committed_le,
    le_next room h.terminal_le, le_next room h.admissionNumber_le, h.epoch, h.crc⟩

end

/-! ### Content changes in place -/

/-- The same tree of names: the nodes of the slots differ in content only. -/
structure SameTree (nodes nodes' : Nodes7) : Prop where
  live : ∀ i, Live nodes' i ↔ Live nodes i
  id : ∀ i : Fin 256, nodes'[i].id = nodes[i].id
  parent : ∀ i : Fin 256, nodes'[i].parent = nodes[i].parent
  name : ∀ i : Fin 256, nodes'[i].name = nodes[i].name
  kind : ∀ i : Fin 256, nodes'[i].kind = nodes[i].kind
  space : ∀ i : Fin 256, nodes'[i].space = nodes[i].space

theorem SameTree.childOf (h : SameTree nodes nodes') : ChildOf nodes' = ChildOf nodes := by
  funext i j
  apply propext
  constructor
  · intro hc
    exact ⟨(h.live i).mp hc.child, (h.live j).mp hc.parent, h.parent i ▸ hc.below,
      (h.parent i).symm.trans (hc.named.trans (h.id j))⟩
  · intro hc
    exact ⟨(h.live i).mpr hc.child, (h.live j).mpr hc.parent, (h.parent i).symm ▸ hc.below,
      (h.parent i).trans (hc.named.trans (h.id j).symm)⟩

theorem SameTree.forest (h : SameTree nodes nodes') (hf : Forest nodes) : Forest nodes' where
  roots := by
    intro k
    obtain ⟨i, hi, hparent, hid⟩ := hf.roots k
    exact ⟨i, (h.live i).mpr hi, (h.parent i).trans hparent, by rw [h.id]; exact hid⟩
  top := by
    intro i hi hparent
    rw [h.parent] at hparent
    rw [h.kind, h.space, h.id, h.name]
    exact hf.top i ((h.live i).mp hi) hparent
  parent := by
    intro i hi hparent
    rw [h.parent] at hparent
    obtain ⟨j, hchild, hkind, hspace⟩ := hf.parent i ((h.live i).mp hi) hparent
    exact ⟨j, h.childOf ▸ hchild, (h.kind j).trans hkind,
      (h.space j).trans (hspace.trans (h.space i).symm)⟩
  acyclic := h.childOf ▸ hf.acyclic

theorem SameTree.uniqueIds (h : SameTree nodes nodes') (hu : UniqueIds nodes) :
    UniqueIds nodes' := by
  intro i j hi hj hid
  rw [h.id, h.id] at hid
  exact hu i j ((h.live i).mp hi) ((h.live j).mp hj) hid

theorem SameTree.uniqueNames (h : SameTree nodes nodes') (hu : UniqueNames nodes) :
    UniqueNames nodes' := by
  intro i j hi hj hparent hname
  rw [h.parent, h.parent] at hparent
  rw [h.name, h.name] at hname
  exact hu i j ((h.live i).mp hi) ((h.live j).mp hj) hparent hname

/-- New content for a live file leaves the tree alone. -/
theorem sameTree_withContent {i : Fin 256} (hi : Live nodes i) (hk : nodes[i].kind = .file)
    (version : UInt64) (length crc : UInt32) (used : UInt8) (extents : Vector Extent 8) :
    SameTree nodes (nodes.setAt i (nodes[i].withContent version length crc used extents)) := by
  have hself := setAt_self nodes i (nodes[i].withContent version length crc used extents)
  have hcase : ∀ {α : Type} (f : Node7 → α),
      f (nodes[i].withContent version length crc used extents) = f nodes[i] →
      ∀ j : Fin 256, f (nodes.setAt i (nodes[i].withContent version length crc used extents))[j]
        = f nodes[j] := by
    intro α f hf j
    by_cases hj : j = i
    · rw [hj, hself, hf]
    · rw [setAt_ne _ hj]
  refine ⟨fun j => ?_, hcase Node7.id rfl, hcase Node7.parent rfl, hcase Node7.name rfl,
    hcase Node7.kind rfl, hcase Node7.space rfl⟩
  by_cases hj : j = i
  · subst hj
    refine ⟨fun _ => hi, fun _ => ?_⟩
    intro hempty
    rw [hself] at hempty
    have hkind : (nodes[j].withContent version length crc used extents).kind = .file := hk
    rw [hempty] at hkind
    cases hkind
  · unfold Live
    rw [setAt_ne _ hj]

/-! ### A new record -/

/-- A record that observes the current version of a live file, with the next sequence number. -/
structure Observes (header : Header7) (node : Node7) (r : Record7) : Prop where
  object : r.object = node.id
  previous : r.previous = node.version
  observed : versionObservationSequence r = (nextHeader header).sequence
  events : ∀ e ∈ eventSequences r, e = 0 ∨ e = (nextHeader header).sequence
  state : r.state ≠ .admittedCommitted
  committed : r.state.committed = true → r.committed = (nextHeader header).sequence

theorem RecordFields.event_le (h : RecordFields header r) {e : UInt64} (he : e ∈ eventSequences r) :
    e ≤ header.sequence := by
  simp only [eventSequences, List.mem_cons, List.not_mem_nil, or_false] at he
  rcases he with rfl | rfl | rfl
  · exact h.admissionNumber_le
  · exact h.terminal_le
  · exact h.committed_le

theorem RecordFields.observed_le (h : RecordFields header r) :
    versionObservationSequence r ≤ header.sequence := by
  unfold versionObservationSequence
  split
  · exact h.committed_le
  · exact h.admissionNumber_le

/-- The events of a new record are new. -/
theorem Observes.eventsApart {node : Node7} {old : Record7} (h : Observes header node r)
    (room : header.sequence.toNat + 1 < 2 ^ 64) (hold : RecordFields header old) :
    EventsApart old r := by
  intro e he hnew
  rcases h.events e hnew with hzero | hnext
  · exact hzero
  · have hlt := lt_next room (hold.event_le he)
    rw [hnext] at hlt
    exact absurd hlt (UInt64.lt_irrefl _)

/-- A new record continues the history of its file. -/
theorem Observes.history {node : Node7} {old : Record7} (h : Observes header node r)
    (room : header.sequence.toNat + 1 < 2 ^ 64) (hold : RecordFields header old)
    (hcurrent : Current old node) : OneHistory old r ∧ OneHistory r old := by
  have hobserved := lt_next room hold.observed_le
  have hcommitted := lt_next room hold.committed_le
  rw [← h.observed] at hobserved
  have hback : ∀ {n m : UInt64}, n < m → m < n → False :=
    fun h1 h2 => UInt64.lt_irrefl _ (UInt64.lt_trans h1 h2)
  constructor
  · refine ⟨UInt64.ne_of_lt hobserved, fun _ => ?_, fun _ _ hlt => ?_, fun hc _ _ => ?_,
      fun hc _ => ?_⟩
    · rw [h.previous]
      exact hcurrent.newer
    · rw [h.observed] at hlt
      exact (hback hlt hcommitted).elim
    · rw [h.previous]
      exact hcurrent.committed hc
    · rw [h.previous]
      exact hcurrent.committed hc
  · refine ⟨(UInt64.ne_of_lt hobserved).symm, fun hlt => (hback hlt hobserved).elim,
      fun hs => absurd hs h.state, fun hc _ hlt => ?_, fun hc hlt => ?_⟩
    · rw [h.committed hc] at hlt
      exact (hback hlt hcommitted).elim
    · rw [h.committed hc, ← h.observed] at hlt
      exact (hback hlt hobserved).elim

/-- What holds between all retained records, and between each and a new one, holds with the
new one retained. -/
theorem pairs_set {P : Record7 → Record7 → Prop} {j : Fin 8}
    (h : ∀ (i k : Fin 8) a b, i ≠ k → records[i] = some a → records[k] = some b → P a b)
    (hnew : ∀ (i : Fin 8) a, i ≠ j → records[i] = some a → P a r ∧ P r a) :
    ∀ (i k : Fin 8) a b, i ≠ k → (records.setAt j (some r))[i] = some a →
      (records.setAt j (some r))[k] = some b → P a b := by
  intro i k a b hne ha hb
  by_cases hi : i = j
  · have hk : k ≠ j := fun hk => hne (hi.trans hk.symm)
    rw [hi, setAt_self, Option.some.injEq] at ha
    rw [setAt_ne _ hk] at hb
    exact ha ▸ (hnew k b hk hb).2
  · rw [setAt_ne _ hi] at ha
    by_cases hk : k = j
    · rw [hk, setAt_self, Option.some.injEq] at hb
      exact hb ▸ (hnew i a hi ha).1
    · rw [setAt_ne _ hk] at hb
      exact h i k a b hne ha hb

/-! ### Ownership under a candidate -/

theorem get_mutateMap {runs : List Extent} (h : ∀ s ∈ runSectors runs, s < dataSectors)
    (allocated : Bool) (s : Nat) :
    Bitmap.get (mutateMap map runs allocated) s
      = if s ∈ runSectors runs then allocated else Bitmap.get map s :=
  Bitmap.get_setAll _ h allocated s

/-- A sector in two runs makes them overlap. -/
theorem overlaps_of_mem {a b : Extent} (ha : a.Inside) (hb : b.Inside) {s : Nat}
    (h : s ∈ a.sectorList) (h' : s ∈ b.sectorList) : a.Overlaps b := by
  by_contra hnot
  exact ha.disjoint hb hnot h h'

/-- Runs that overlap and are not empty have a sector in common. -/
theorem mem_of_overlaps {a b : Extent} (ha : a.Inside) (hb : b.Inside) (hane : a.sectors ≠ 0)
    (hbne : b.sectors ≠ 0) (h : a.Overlaps b) : ∃ s ∈ a.sectorList, s ∈ b.sectorList := by
  rw [ha.overlaps_iff hb] at h
  have hpos : a.sectors.toNat ≠ 0 := fun h0 => hane (UInt64.toNat_inj.mp h0)
  have hpos' : b.sectors.toNat ≠ 0 := fun h0 => hbne (UInt64.toNat_inj.mp h0)
  refine ⟨max a.start.toNat b.start.toNat, ?_, ?_⟩
  · rw [Extent.mem_sectorList]
    omega
  · rw [Extent.mem_sectorList]
    omega

namespace WellFormed

variable {i : Fin 256} {s : Nat}

variable (h : WellFormed header nodes records map)
include h

theorem file_shape (hk : nodes[i].kind = .file) :
    nodes[i].Shape := (h.node i (live_of_file hk)).shape

/-- A sector that is free has no owner. -/
theorem not_owns (hs : Bitmap.get map s = false) (o : Owner) : ¬ Owns nodes records o s := by
  intro ho
  rw [(h.map_iff s).mpr ⟨o, ho⟩] at hs
  cases hs

theorem owner_lt {o : Owner} (ho : Owns nodes records o s) :
    s < dataSectors := get_lt ((h.map_iff s).mpr ⟨o, ho⟩)

/-- A file and a snapshot with a sector in common have all their runs in common. -/
theorem shares_of_owns {k : Fin 8} (hi : Owns nodes records (.file i) s)
    (hk : Owns nodes records (.snapshot k) s) : Shares nodes records (.snapshot k) (.file i) := by
  rcases h.exclusive _ _ s hi hk with heq | hno | hyes
  · cases heq
  · exact hno.elim
  · exact hyes

theorem snapshot_owns {k : Fin 8} {t : Nat} (hi : Owns nodes records (.file i) s)
    (hk : Owns nodes records (.snapshot k) s) (ht : Owns nodes records (.file i) t) :
    Owns nodes records (.snapshot k) t := by
  obtain ⟨r, hr, -, -, -, hcontent⟩ := h.shares_of_owns hi hk
  exact ⟨r, hr, hcontent.runs_eq ▸ ht.2⟩

/-- A replaced or removed file releases the sectors no snapshot owns. -/
theorem mem_releasable (hk : nodes[i].kind = .file) :
    s ∈ runSectors (releasable records nodes[i])
      ↔ Owns nodes records (.file i) s ∧ ∀ k, ¬ Owns nodes records (.snapshot k) s := by
  have hshape := h.file_shape hk
  have hinside : ∀ run ∈ nodes[i].runs, run.Inside := hshape.payload.inside
  constructor
  · intro hs
    obtain ⟨run, hrun, hsrun⟩ := mem_runSectors.mp hs
    obtain ⟨hmem, hnot⟩ := List.mem_filter.mp hrun
    refine ⟨⟨hk, mem_runSectors.mpr ⟨run, hmem, hsrun⟩⟩, ?_⟩
    rintro k ⟨r, hr, hown⟩
    obtain ⟨other, hother, hsother⟩ := mem_runSectors.mp hown
    have hover := overlaps_of_mem (hinside run hmem)
      ((h.record k r hr).shape.payload.inside other hother) hsrun hsother
    have hretained : retainedOwnsRun records run = true :=
      List.any_eq_true.mpr ⟨some r, mem_toList_records.mpr ⟨k, hr⟩,
        List.any_eq_true.mpr ⟨other, hother, decide_eq_true hover⟩⟩
    rw [hretained] at hnot
    cases hnot
  · rintro ⟨⟨-, hs⟩, hfree⟩
    obtain ⟨run, hrun, hsrun⟩ := mem_runSectors.mp hs
    refine mem_runSectors.mpr ⟨run, List.mem_filter.mpr ⟨hrun, ?_⟩, hsrun⟩
    rw [Bool.not_eq_true', ← Bool.not_eq_true]
    -- a snapshot that overlaps the run shares all of the file's runs, also this sector
    intro hretained
    obtain ⟨slot, hslot, hany⟩ := List.any_eq_true.mp hretained
    obtain ⟨k, rfl⟩ := mem_toList_slots.mp hslot
    obtain ⟨r, hr, hruns⟩ := (Option.any_eq_true _ _).mp hany
    obtain ⟨other, hother, hover⟩ := List.any_eq_true.mp hruns
    have hrshape := (h.record k r hr).shape.payload
    obtain ⟨t, ht, ht'⟩ := mem_of_overlaps (hinside run hrun) (hrshape.inside other hother)
      (hshape.payload.nonempty run hrun) (hrshape.nonempty other hother) (of_decide_eq_true hover)
    exact hfree k (h.snapshot_owns ⟨hk, mem_runSectors.mpr ⟨run, hrun, ht⟩⟩
      ⟨r, hr, mem_runSectors.mpr ⟨other, hother, ht'⟩⟩ ⟨hk, hs⟩)

end WellFormed

/-- The owners after a record is retained in an empty slot. -/
theorem owns_setRecord {j : Fin 8} {r : Record7} {o : Owner} {s : Nat} :
    Owns nodes (records.setAt j (some r)) o s
      ↔ (o = .snapshot j ∧ s ∈ runSectors r.runs) ∨ (o ≠ .snapshot j ∧ Owns nodes records o s) := by
  cases o with
  | file i =>
    show (nodes[i].kind = .file ∧ s ∈ runSectors nodes[i].runs) ↔ _
    simp [Owns]
  | snapshot k =>
    by_cases hk : k = j
    · subst hk
      simp [Owns]
    · simp [Owns, hk, setAt_ne _ hk]

/-- The owners after a file has new content. -/
theorem owns_setNode {i : Fin 256} {n : Node7} (hk : n.kind = .file) {o : Owner} {s : Nat} :
    Owns (nodes.setAt i n) records o s
      ↔ (o = .file i ∧ s ∈ runSectors n.runs) ∨ (o ≠ .file i ∧ Owns nodes records o s) := by
  cases o with
  | snapshot k => simp [Owns]
  | file k =>
    by_cases hki : k = i
    · subst hki
      simp [Owns, hk]
    · simp [Owns, hki, setAt_ne _ hki]

/-! ### Retaining a record -/

/-- What a record must bring to be retained in slot `j`: it observes the file in slot `i`, and
its runs are free. -/
structure Retains (header : Header7) (nodes : Nodes7) (records : Records7) (map : SpaceMap)
    (i : Fin 256) (j : Fin 8) (r : Record7) : Prop where
  room : header.sequence.toNat + 1 < 2 ^ 64
  kind : nodes[i].kind = .file
  empty : records[j] = none
  observes : Observes header nodes[i] r
  fields : RecordFields (nextHeader header) r
  scope : ∀ (k : Fin 8) a, records[k] = some a → ¬ SameScope a r
  free : ∀ s ∈ runSectors r.runs, Bitmap.get map s = false

section
variable {i : Fin 256} {j : Fin 8} {r : Record7}

theorem Retains.record (h : WellFormed header nodes records map)
    (hr : Retains header nodes records map i j r) (k : Fin 8) (a : Record7)
    (ha : (records.setAt j (some r))[k] = some a) : RecordFields (nextHeader header) a := by
  by_cases hk : k = j
  · rw [hk, setAt_self, Option.some.injEq] at ha
    exact ha ▸ hr.fields
  · rw [setAt_ne _ hk] at ha
    exact (h.record k a ha).next hr.room

/-- The retained records and the new one tell one history. -/
theorem Retains.pairs (h : WellFormed header nodes records map)
    (hr : Retains header nodes records map i j r) :
    ∀ (k l : Fin 8) a b, k ≠ l → (records.setAt j (some r))[k] = some a →
      (records.setAt j (some r))[l] = some b →
      ¬ SameScope a b ∧ EventsApart a b ∧ (a.object = b.object → OneHistory a b) := by
  refine pairs_set (P := fun a b => ¬ SameScope a b ∧ EventsApart a b
    ∧ (a.object = b.object → OneHistory a b)) (fun k l a b hne ha hb => ?_) fun k a _ ha => ?_
  · exact ⟨h.scopes k l a b hne ha hb, h.events k l a b hne ha hb, h.history k l a b hne ha hb⟩
  · have hfields := h.record k a ha
    have hevents := hr.observes.eventsApart hr.room hfields
    have hone : a.object = r.object → OneHistory a r ∧ OneHistory r a := fun hobject =>
      hr.observes.history hr.room hfields (h.current k a ha i (live_of_file hr.kind)
        (hobject.trans hr.observes.object).symm)
    exact ⟨⟨hr.scope k a ha, hevents, fun hobject => (hone hobject).1⟩,
      fun hscope => hr.scope k a ha hscope.symm, hevents.symm,
      fun hobject => (hone hobject.symm).2⟩

theorem Retains.sector_lt (hr : Retains header nodes records map i j r) {s : Nat}
    (hs : s ∈ runSectors r.runs) : s < dataSectors := hr.fields.shape.payload.lt hs

/-- A file and a snapshot go on sharing when neither changes. -/
theorem Shares.keep {nodes' : Nodes7} {o o' : Owner} {x : Option Record7}
    (h : Shares nodes records o o') (hne : o ≠ .snapshot j)
    (hsame : ∀ k, o' = .file k → nodes'[k] = nodes[k]) :
    Shares nodes' (records.setAt j x) o o' := by
  cases o with
  | file k => exact h
  | snapshot k =>
    cases o' with
    | snapshot l => exact h
    | file l =>
      obtain ⟨a, ha, hrest⟩ := h
      refine ⟨a, by rw [setAt_ne _ fun heq => hne (by rw [heq])]; exact ha, ?_⟩
      rw [hsame l rfl]
      exact hrest

/-- An empty slot owns nothing. -/
theorem Retains.not_snapshot (hr : Retains header nodes records map i j r) {o : Owner} {s : Nat}
    (ho : Owns nodes records o s) : o ≠ .snapshot j := by
  rintro rfl
  obtain ⟨a, ha, -⟩ := ho
  rw [hr.empty] at ha
  cases ha

/-- A new admission. -/
theorem WellFormed.admitted (h : WellFormed header nodes records map)
    (hr : Retains header nodes records map i j r) (hstate : r.state = .admitted) :
    WellFormed (nextHeader header) nodes (records.setAt j (some r))
      (mutateMap map r.runs true) := by
  have hpairs := hr.pairs h
  refine ⟨h.head.next hr.room, fun k hk => (h.node k hk).next hr.room, h.forest, h.ids, h.names,
    hr.record h, ?_, fun k l a b hne ha hb => (hpairs k l a b hne ha hb).1,
    fun k l a b hne ha hb => (hpairs k l a b hne ha hb).2.1,
    fun k l a b hne ha hb => (hpairs k l a b hne ha hb).2.2, ?_, fun s => ?_⟩
  · intro k a ha l hl hid
    by_cases hk : k = j
    · rw [hk, setAt_self, Option.some.injEq] at ha
      subst ha
      obtain rfl : l = i := h.ids l i hl (live_of_file hr.kind) (hid.trans hr.observes.object)
      have hcommitted : ¬ r.state.committed = true := by
        rw [hstate]
        exact Bool.false_ne_true
      refine ⟨hr.kind, ?_, fun _ hlt => ?_, fun hc => absurd hc hcommitted,
        fun hc => absurd hc hcommitted⟩
      · rw [hr.observes.previous]
        exact UInt64.le_refl _
      · rw [hr.observes.previous] at hlt
        exact absurd hlt (UInt64.lt_irrefl _)
    · rw [setAt_ne _ hk] at ha
      exact h.current k a ha l hl hid
  · intro o o' s ho ho'
    rcases owns_setRecord.mp ho with ⟨rfl, hs⟩ | ⟨hne, hold⟩
    · rcases owns_setRecord.mp ho' with ⟨rfl, -⟩ | ⟨-, hold'⟩
      · exact Or.inl rfl
      · exact absurd hold' (h.not_owns (hr.free s hs) o')
    · rcases owns_setRecord.mp ho' with ⟨rfl, hs⟩ | ⟨hne', hold'⟩
      · exact absurd hold (h.not_owns (hr.free s hs) o)
      · rcases h.exclusive o o' s hold hold' with heq | hshares | hshares
        · exact Or.inl heq
        · exact Or.inr (Or.inl (hshares.keep hne fun _ _ => rfl))
        · exact Or.inr (Or.inr (hshares.keep hne' fun _ _ => rfl))
  · rw [get_mutateMap fun s hs => hr.sector_lt hs]
    by_cases hs : s ∈ runSectors r.runs
    · rw [if_pos hs]
      exact iff_of_true rfl ⟨.snapshot j, owns_setRecord.mpr (Or.inl ⟨rfl, hs⟩)⟩
    · rw [if_neg hs, h.map_iff]
      constructor
      · rintro ⟨o, ho⟩
        exact ⟨o, owns_setRecord.mpr (Or.inr ⟨hr.not_snapshot ho, ho⟩)⟩
      · rintro ⟨o, ho⟩
        rcases owns_setRecord.mp ho with ⟨-, hmem⟩ | ⟨-, hold⟩
        · exact absurd hmem hs
        · exact ⟨o, hold⟩

/-- The file a record replaces. -/
def replacedNode (header : Header7) (node : Node7) (r : Record7) : Node7 :=
  node.withContent (nextHeader header).sequence r.length r.payloadCrc32 r.extentsUsed r.extents

theorem replacedNode_sameContent (hr : Retains header nodes records map i j r) :
    SameContent r (replacedNode header nodes[i] r) := ⟨hr.kind, rfl, rfl, rfl, rfl⟩

theorem replacedNode_runs : (replacedNode header nodes[i] r).runs = r.runs := rfl

/-- New content from a record keeps the rules of a node. -/
theorem NodeFields.replace (h : NodeFields header nodes[i])
    (hr : Retains header nodes records map i j r) :
    NodeFields (nextHeader header) (replacedNode header nodes[i] r) := by
  have hne : (nextHeader header).sequence ≠ 0 := by
    intro hzero
    have hnat := toNat_next_sequence hr.room
    rw [hzero] at hnat
    simp at hnat
  refine ⟨⟨h.shape.id_ne, hne, h.shape.kind_ne, h.shape.space, h.shape.nameLength_le,
    h.shape.name, h.shape.padding, fun hdir => ?_, hr.fields.shape.payload⟩, fun _ => hr.fields.crc,
    h.id_lt, UInt64.le_refl _⟩
  have hfile : (replacedNode header nodes[i] r).kind = .file := hr.kind
  rw [hdir] at hfile
  cases hfile

/-- A record that is older than the new version agrees with the new file. -/
theorem Retains.current (hr : Retains header nodes records map i j r) {a : Record7}
    (hfields : RecordFields header a) : Current a (replacedNode header nodes[i] r) := by
  refine ⟨hr.kind, le_next hr.room hfields.previous_le, fun _ _ => ?_, fun _ => ?_,
    fun _ hversion => ?_⟩
  · exact lt_next hr.room hfields.admissionNumber_le
  · exact le_next hr.room hfields.committed_le
  · have hlt := lt_next hr.room hfields.committed_le
    rw [← hversion] at hlt
    exact absurd hlt (UInt64.lt_irrefl _)

/-- The record of a replacement agrees with the file it wrote. -/
theorem Retains.current_self (h : NodeFields header nodes[i])
    (hr : Retains header nodes records map i j r) (hstate : r.state = .directCommitted) :
    Current r (replacedNode header nodes[i] r) := by
  have hcommitted : r.state.committed = true := by
    rw [hstate]
    rfl
  have hversion : r.committed = (nextHeader header).sequence := hr.observes.committed hcommitted
  refine ⟨hr.kind, ?_, fun hc => ?_, fun _ => ?_, fun _ _ => replacedNode_sameContent hr⟩
  · rw [hr.observes.previous]
    exact le_next hr.room h.version_le
  · rw [hcommitted] at hc
    cases hc
  · exact hversion ▸ UInt64.le_refl _

/-- A replaced file: the record and the file share the new runs, and the old runs are released
where no snapshot owns them. -/
theorem WellFormed.replace (h : WellFormed header nodes records map)
    (hr : Retains header nodes records map i j r) (hstate : r.state = .directCommitted) :
    WellFormed (nextHeader header) (nodes.setAt i (replacedNode header nodes[i] r))
      (records.setAt j (some r))
      (mutateMap (mutateMap map r.runs true) (releasable records nodes[i]) false) := by
  have hlive := live_of_file hr.kind
  have htree : SameTree nodes (nodes.setAt i (replacedNode header nodes[i] r)) :=
    sameTree_withContent hlive hr.kind _ _ _ _ _
  have hpairs := hr.pairs h
  have hkind : (replacedNode header nodes[i] r).kind = .file := hr.kind
  -- an owner after the change: the file and the record of the change, or an older owner
  have howns : ∀ {o s}, Owns (nodes.setAt i (replacedNode header nodes[i] r))
      (records.setAt j (some r)) o s
        ↔ ((o = .file i ∨ o = .snapshot j) ∧ s ∈ runSectors r.runs)
          ∨ (o ≠ .file i ∧ o ≠ .snapshot j ∧ Owns nodes records o s) := by
    intro o s
    rw [owns_setNode hkind, owns_setRecord, replacedNode_runs]
    constructor
    · rintro (⟨ho, hs⟩ | ⟨hne, ⟨ho, hs⟩ | ⟨hne', hold⟩⟩)
      · exact Or.inl ⟨Or.inl ho, hs⟩
      · exact Or.inl ⟨Or.inr ho, hs⟩
      · exact Or.inr ⟨hne, hne', hold⟩
    · rintro (⟨ho | ho, hs⟩ | ⟨hne, hne', hold⟩)
      · exact Or.inl ⟨ho, hs⟩
      · exact Or.inr ⟨by rw [ho]; simp, Or.inl ⟨ho, hs⟩⟩
      · exact Or.inr ⟨hne, Or.inr ⟨hne', hold⟩⟩
  refine ⟨h.head.next hr.room, fun k hk => ?_, htree.forest h.forest, htree.uniqueIds h.ids,
    htree.uniqueNames h.names, hr.record h, fun k a ha l hl hid => ?_,
    fun k l a b hne ha hb => (hpairs k l a b hne ha hb).1,
    fun k l a b hne ha hb => (hpairs k l a b hne ha hb).2.1,
    fun k l a b hne ha hb => (hpairs k l a b hne ha hb).2.2, ?_, fun s => ?_⟩
  · by_cases hki : k = i
    · rw [hki, setAt_self]
      exact (h.node i hlive).replace hr
    · have hlivek := (htree.live k).mp hk
      rw [setAt_ne _ hki]
      exact (h.node k hlivek).next hr.room
  · have hlivel := (htree.live l).mp hl
    by_cases hk : k = j
    · rw [hk, setAt_self, Option.some.injEq] at ha
      subst ha
      rw [htree.id] at hid
      obtain rfl : l = i := h.ids l i hlivel hlive (hid.trans hr.observes.object)
      rw [setAt_self]
      exact hr.current_self (h.node l hlive) hstate
    · rw [setAt_ne _ hk] at ha
      by_cases hli : l = i
      · subst hli
        rw [setAt_self]
        exact hr.current (h.record k a ha)
      · rw [setAt_ne _ hli] at hid ⊢
        exact h.current k a ha l hlivel hid
  · have hself : Shares (nodes.setAt i (replacedNode header nodes[i] r)) (records.setAt j (some r))
        (.snapshot j) (.file i) := by
      have hcommitted : r.state.committed = true := by
        rw [hstate]
        rfl
      refine ⟨r, setAt_self _ _ _, hcommitted, ?_⟩
      rw [setAt_self]
      exact ⟨hr.observes.object.symm, (hr.observes.committed hcommitted).symm,
        replacedNode_sameContent hr⟩
    have hother : ∀ {o : Owner}, o ≠ .file i → ∀ k, o = .file k →
        (nodes.setAt i (replacedNode header nodes[i] r))[k] = nodes[k] :=
      fun hne k hk => setAt_ne _ (fun heq => hne (by rw [hk, heq])) _
    intro o o' s ho ho'
    rcases howns.mp ho with ⟨hnew, hs⟩ | ⟨hne, hnej, hold⟩
    · rcases howns.mp ho' with ⟨hnew', -⟩ | ⟨-, -, hold'⟩
      · rcases hnew with rfl | rfl
        · rcases hnew' with rfl | rfl
          · exact Or.inl rfl
          · exact Or.inr (Or.inr hself)
        · rcases hnew' with rfl | rfl
          · exact Or.inr (Or.inl hself)
          · exact Or.inl rfl
      · exact absurd hold' (h.not_owns (hr.free s hs) o')
    · rcases howns.mp ho' with ⟨-, hs⟩ | ⟨hne', hnej', hold'⟩
      · exact absurd hold (h.not_owns (hr.free s hs) o)
      · rcases h.exclusive o o' s hold hold' with heq | hshares | hshares
        · exact Or.inl heq
        · exact Or.inr (Or.inl (hshares.keep hnej (hother hne')))
        · exact Or.inr (Or.inr (hshares.keep hnej' (hother hne)))
  · have hreleased : ∀ s ∈ runSectors (releasable records nodes[i]), s < dataSectors :=
      fun s hs => h.owner_lt ((h.mem_releasable hr.kind).mp hs).1
    rw [get_mutateMap hreleased, get_mutateMap fun s hs => hr.sector_lt hs]
    by_cases hs : s ∈ runSectors r.runs
    · have hkept : s ∉ runSectors (releasable records nodes[i]) := fun hrel =>
        h.not_owns (hr.free s hs) _ ((h.mem_releasable hr.kind).mp hrel).1
      rw [if_neg hkept, if_pos hs]
      exact iff_of_true rfl ⟨.file i, howns.mpr (Or.inl ⟨Or.inl rfl, hs⟩)⟩
    · rw [if_neg hs]
      by_cases hrel : s ∈ runSectors (releasable records nodes[i])
      · rw [if_pos hrel]
        obtain ⟨hfile, hnone⟩ := (h.mem_releasable hr.kind).mp hrel
        refine iff_of_false Bool.false_ne_true ?_
        rintro ⟨o, ho⟩
        rcases howns.mp ho with ⟨-, hmem⟩ | ⟨hne, -, hold⟩
        · exact hs hmem
        · rcases h.exclusive o (.file i) s hold hfile with heq | hshares | hshares
          · exact hne heq
          · cases o with
            | file k => exact hshares
            | snapshot k => exact hnone k hold
          · cases o with
            | file k => exact hshares
            | snapshot k => exact hnone k hold
      · rw [if_neg hrel, h.map_iff]
        constructor
        · rintro ⟨o, ho⟩
          by_cases hfile : o = .file i
          · -- the old runs that stay are owned by a snapshot
            subst hfile
            have hsnap : ∃ k, Owns nodes records (.snapshot k) s := by
              by_contra hnone
              push Not at hnone
              exact hrel ((h.mem_releasable hr.kind).mpr ⟨ho, hnone⟩)
            obtain ⟨k, hk⟩ := hsnap
            exact ⟨.snapshot k, howns.mpr (Or.inr ⟨by simp, hr.not_snapshot hk, hk⟩)⟩
          · exact ⟨o, howns.mpr (Or.inr ⟨hfile, hr.not_snapshot ho, ho⟩)⟩
        · rintro ⟨o, ho⟩
          rcases howns.mp ho with ⟨-, hmem⟩ | ⟨-, -, hold⟩
          · exact absurd hmem hs
          · exact ⟨o, hold⟩

end

/-! ### Dropping every record -/

/-- The structures maintenance publishes: no record, and the sectors of live files. -/
theorem WellFormed.maintain (h : WellFormed header nodes records map)
    (room : header.sequence.toNat + 1 < 2 ^ 64) {live : SpaceMap}
    (hlive : ∀ s, Bitmap.get live s = true ↔ ∃ i, Owns nodes records (.file i) s) :
    WellFormed (nextHeader { header with epoch := header.epoch + 1 }) nodes
      (Vector.replicate 8 none) live := by
  have hnone : ∀ (k : Fin 8) (a : Record7), (Vector.replicate 8 none)[k] = some a → False := by
    intro k a ha
    simp at ha
  have hepoch := UInt64.le_iff_toNat_le.mp h.head.epoch_le
  have hsucc : (header.epoch + 1).toNat = header.epoch.toNat + 1 := by
    rw [UInt64.toNat_add]
    exact Nat.mod_eq_of_lt (by show _ + 1 < _; omega)
  refine ⟨⟨h.head.lineage_ne, ?_, ?_, h.head.next_ge, (h.head.next room).generation_lt⟩,
    fun k hk => ⟨(h.node k hk).shape, (h.node k hk).crc, (h.node k hk).id_lt,
      le_next room (h.node k hk).version_le⟩, h.forest, h.ids, h.names,
    fun k a ha => (hnone k a ha).elim, fun k a ha => (hnone k a ha).elim,
    fun k l a b _ ha => (hnone k a ha).elim, fun k l a b _ ha => (hnone k a ha).elim,
    fun k l a b _ ha => (hnone k a ha).elim, ?_, fun s => ?_⟩
  · show (1 : UInt64) ≤ header.epoch + 1
    rw [UInt64.le_iff_toNat_le, hsucc]
    simp
  · show header.epoch + 1 ≤ (nextHeader header).sequence
    rw [UInt64.le_iff_toNat_le, hsucc, toNat_next_sequence room]
    omega
  · intro o o' s ho ho'
    cases o with
    | snapshot k =>
      obtain ⟨a, ha, -⟩ := ho
      exact (hnone k a ha).elim
    | file k =>
      cases o' with
      | snapshot l =>
        obtain ⟨a, ha, -⟩ := ho'
        exact (hnone l a ha).elim
      | file l =>
        rcases h.exclusive (.file k) (.file l) s ho ho' with heq | hshares | hshares
        · exact Or.inl heq
        · exact hshares.elim
        · exact hshares.elim
  · rw [hlive]
    constructor
    · rintro ⟨i, hi⟩
      exact ⟨.file i, hi⟩
    · rintro ⟨o, ho⟩
      cases o with
      | file i => exact ⟨i, ho⟩
      | snapshot k =>
        obtain ⟨a, ha, -⟩ := ho
        exact (hnone k a ha).elim

/-! ### A new node -/

/-- What a node must bring to be created in slot `i` of a directory in slot `j`. -/
structure Creates (header : Header7) (nodes : Nodes7) (i j : Fin 256) (n : Node7) : Prop where
  room : header.sequence.toNat + 1 < 2 ^ 64
  free : nodes[i] = Node7.empty
  shape : n.Shape
  crc : n.kind = .file → n.length = 0 → n.payloadCrc32 = crc []
  id : n.id = header.next
  version : n.version = (nextHeader header).sequence
  below : n.parent ≠ 0
  directory : Live nodes j ∧ nodes[j].id = n.parent ∧ nodes[j].kind = .directory
    ∧ nodes[j].space = n.space
  name : ∀ k, Live nodes k → ¬ (nodes[k].parent = n.parent ∧ nodes[k].name = n.name)
  runs : n.runs = []

section
variable {i j : Fin 256} {n : Node7}

theorem Creates.live (hc : Creates header nodes i j n) (k : Fin 256) :
    Live (nodes.setAt i n) k ↔ k = i ∨ Live nodes k := by
  by_cases hk : k = i
  · subst hk
    rw [Live, setAt_self]
    refine iff_of_true (fun hempty => ?_) (Or.inl rfl)
    exact hc.shape.kind_ne (by rw [hempty]; rfl)
  · rw [Live, setAt_ne _ hk]
    exact ⟨Or.inr, fun h => h.resolve_left hk⟩

theorem Creates.ne (hc : Creates header nodes i j n) {k : Fin 256} (hk : Live nodes k) : k ≠ i := by
  rintro rfl
  exact hk hc.free

/-- Live nodes have identities below the next one. -/
theorem WellFormed.id_ne_next (h : WellFormed header nodes records map) {k : Fin 256}
    (hk : Live nodes k) : nodes[k].id ≠ header.next := UInt32.ne_of_lt (h.node k hk).id_lt

theorem Creates.forest (h : WellFormed header nodes records map)
    (hc : Creates header nodes i j n) : Forest (nodes.setAt i n) where
  roots := by
    intro r
    obtain ⟨k, hk, hparent, hid⟩ := h.forest.roots r
    refine ⟨k, (hc.live k).mpr (Or.inr hk), ?_⟩
    rw [setAt_ne _ (hc.ne hk)]
    exact ⟨hparent, hid⟩
  top := by
    intro k hk hparent
    rcases (hc.live k).mp hk with rfl | hold
    · rw [setAt_self] at hparent
      exact absurd hparent hc.below
    · rw [setAt_ne _ (hc.ne hold)] at hparent ⊢
      exact h.forest.top k hold hparent
  parent := by
    intro k hk hbelow
    rcases (hc.live k).mp hk with rfl | hold
    · obtain ⟨hj, hid, hkind, hspace⟩ := hc.directory
      have hjk := hc.ne hj
      refine ⟨j, ⟨hk, (hc.live j).mpr (Or.inr hj), hbelow, ?_⟩, ?_, ?_⟩
      · rw [setAt_self, setAt_ne _ hjk]
        exact hid.symm
      · rw [setAt_ne _ hjk]
        exact hkind
      · rw [setAt_self, setAt_ne _ hjk]
        exact hspace
    · rw [setAt_ne _ (hc.ne hold)] at hbelow
      obtain ⟨l, hchild, hkind, hspace⟩ := h.forest.parent k hold hbelow
      have hl := hc.ne hchild.parent
      refine ⟨l, ⟨hk, (hc.live l).mpr (Or.inr hchild.parent), ?_, ?_⟩, ?_, ?_⟩
      · rw [setAt_ne _ (hc.ne hold)]
        exact hbelow
      · rw [setAt_ne _ (hc.ne hold), setAt_ne _ hl]
        exact hchild.named
      · rw [setAt_ne _ hl]
        exact hkind
      · rw [setAt_ne _ hl, setAt_ne _ (hc.ne hold)]
        exact hspace
  acyclic := by
    -- the new node is nobody's parent: its identity was never handed out
    refine h.forest.acyclic.leaf (x := i) (fun k hchild => ?_) fun k l hk hchild => ?_
    · have hparent := hchild.named
      rw [setAt_self, hc.id] at hparent
      rcases (hc.live k).mp hchild.child with rfl | hold
      · obtain ⟨hj, hid, -⟩ := hc.directory
        rw [setAt_self] at hparent
        exact h.id_ne_next hj (hid.trans hparent)
      · rw [setAt_ne _ (hc.ne hold)] at hparent
        have hbelow := hchild.below
        rw [setAt_ne _ (hc.ne hold)] at hbelow
        obtain ⟨l, hl, -⟩ := h.forest.parent k hold hbelow
        exact h.id_ne_next hl.parent (hl.named.symm.trans hparent)
    · have hold := ((hc.live k).mp hchild.child).resolve_left hk
      have hbelow := hchild.below
      have hnamed := hchild.named
      rw [setAt_ne _ hk] at hbelow hnamed
      rcases (hc.live l).mp hchild.parent with rfl | hl
      · rw [setAt_self, hc.id] at hnamed
        obtain ⟨m, hm, -⟩ := h.forest.parent k hold hbelow
        exact absurd (hm.named.symm.trans hnamed) (h.id_ne_next hm.parent)
      · rw [setAt_ne _ (hc.ne hl)] at hnamed
        exact ⟨hold, hl, hbelow, hnamed⟩

/-- A node without runs owns nothing. -/
theorem Creates.owns (hc : Creates header nodes i j n) {o : Owner} {s : Nat} :
    Owns (nodes.setAt i n) records o s ↔ Owns nodes records o s := by
  cases o with
  | snapshot k => exact Iff.rfl
  | file k =>
    by_cases hk : k = i
    · subst hk
      show (_ ∧ _) ↔ (_ ∧ _)
      rw [setAt_self, hc.runs, hc.free]
      refine iff_of_false (fun h => ?_) fun h => ?_
      · cases h.2
      · cases h.1
    · show (_ ∧ _) ↔ (_ ∧ _)
      rw [setAt_ne _ hk]

/-- A new file or directory. -/
theorem WellFormed.create (h : WellFormed header nodes records map)
    (hc : Creates header nodes i j n) (hnext : header.next.toNat + 1 < 2 ^ 32) :
    WellFormed (nextHeader { header with next := header.next + 1 }) (nodes.setAt i n) records
      map := by
  have hsucc : (header.next + 1).toNat = header.next.toNat + 1 := by
    rw [UInt32.toNat_add]
    exact Nat.mod_eq_of_lt hnext
  have hlt : ∀ {id : UInt32}, id < header.next → id < header.next + 1 := by
    intro id hid
    rw [UInt32.lt_iff_toNat_lt] at hid ⊢
    omega
  have hhead := h.head.next hc.room
  refine ⟨⟨hhead.lineage_ne, hhead.epoch_ge, hhead.epoch_le, ?_, hhead.generation_lt⟩,
    fun k hk => ?_, hc.forest h, fun k l hk hl hid => ?_, fun k l hk hl hparent hname => ?_,
    fun k r hr => ?_, fun k r hr l hl hid => ?_, h.scopes, h.events, h.history, ?_, fun s => ?_⟩
  · have hge := h.head.next_ge
    show nextMin ≤ header.next + 1
    rw [UInt32.le_iff_toNat_le] at hge ⊢
    omega
  · rcases (hc.live k).mp hk with rfl | hold
    · rw [setAt_self]
      refine ⟨hc.shape, hc.crc, ?_, ?_⟩
      · show n.id < header.next + 1
        rw [hc.id, UInt32.lt_iff_toNat_lt]
        omega
      · rw [hc.version]
        exact UInt64.le_refl _
    · rw [setAt_ne _ (hc.ne hold)]
      have hnode := (h.node k hold).next hc.room
      exact ⟨hnode.shape, hnode.crc, hlt hnode.id_lt, hnode.version_le⟩
  · rcases (hc.live k).mp hk with rfl | hk' <;> rcases (hc.live l).mp hl with rfl | hl'
    · rfl
    · rw [setAt_self, setAt_ne _ (hc.ne hl'), hc.id] at hid
      exact absurd hid.symm (h.id_ne_next hl')
    · rw [setAt_self, setAt_ne _ (hc.ne hk'), hc.id] at hid
      exact absurd hid (h.id_ne_next hk')
    · rw [setAt_ne _ (hc.ne hk'), setAt_ne _ (hc.ne hl')] at hid
      exact h.ids k l hk' hl' hid
  · rcases (hc.live k).mp hk with rfl | hk' <;> rcases (hc.live l).mp hl with rfl | hl'
    · rfl
    · rw [setAt_self, setAt_ne _ (hc.ne hl')] at hparent hname
      exact absurd ⟨hparent.symm, hname.symm⟩ (hc.name l hl')
    · rw [setAt_self, setAt_ne _ (hc.ne hk')] at hparent hname
      exact absurd ⟨hparent, hname⟩ (hc.name k hk')
    · rw [setAt_ne _ (hc.ne hk'), setAt_ne _ (hc.ne hl')] at hparent hname
      exact h.names k l hk' hl' hparent hname
  · have hrecord := (h.record k r hr).next hc.room
    exact { hrecord with
      workspace_lt := hlt hrecord.workspace_lt
      object_lt := hlt hrecord.object_lt }
  · rcases (hc.live l).mp hl with rfl | hl'
    · rw [setAt_self, hc.id] at hid
      exact absurd hid.symm (UInt32.ne_of_lt (h.record k r hr).object_lt)
    · rw [setAt_ne _ (hc.ne hl')] at hid ⊢
      exact h.current k r hr l hl' hid
  · have hshares : ∀ {o o'}, Shares nodes records o o' → Shares (nodes.setAt i n) records o o' := by
      intro o o' hs
      cases o with
      | file k => exact hs
      | snapshot k =>
        cases o' with
        | snapshot l => exact hs
        | file l =>
          obtain ⟨r, hr, hcommitted, hid, hversion, hcontent⟩ := hs
          have hl := hc.ne (live_of_file hcontent.1)
          refine ⟨r, hr, hcommitted, ?_⟩
          rw [setAt_ne _ hl]
          exact ⟨hid, hversion, hcontent⟩
    intro o o' s ho ho'
    rcases h.exclusive o o' s (hc.owns.mp ho) (hc.owns.mp ho') with heq | hs | hs
    · exact Or.inl heq
    · exact Or.inr (Or.inl (hshares hs))
    · exact Or.inr (Or.inr (hshares hs))
  · rw [h.map_iff]
    exact exists_congr fun o => hc.owns.symm

end

end RusticOs.Fs
