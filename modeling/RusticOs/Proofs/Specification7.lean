import RusticOs.Lib.Ancestry
import RusticOs.Proofs.Validation7

/-!
# `RusticOs.Proofs.Specification7`: what the validator decides

The validator walks parents for at most 256 turns, compares every slot with the slots before it
and marks owned sectors in a scratch bitmap. `WellFormed` says what all this is for, without a
loop: the live nodes are a forest under the four roots (`Forest`), the retained records tell one
history (`OneHistory`, `Current`), and every sector has one owner, where a committed record may
share the runs of the file it wrote (`Owner`, `Owns`, `Shares`).
`validateGeneration_iff_wellFormed` proves that the two agree on every input.

* `forest_iff`: the parent checks hold exactly for a forest. From the checks, the number of turns
  a walk needs is a rank that every edge lowers; back, a walk without cycles ends in time.
* `consistent_iff`: the history check is symmetric on records with no event in common.
* `owned_nodup_iff`: the marking succeeds exactly when ownership is exclusive.
-/

set_option autoImplicit false

namespace RusticOs.Fs

open RusticOs.Lib
open Relation

variable {header : Header7} {nodes : Nodes7} {records : Records7} {map : SpaceMap}

/-! ### The forest of live nodes -/

/-- A slot that holds a node. -/
def Live (nodes : Nodes7) (i : Fin 256) : Prop := nodes[i] ≠ Node7.empty

/-- Live node `i` names live node `j` as its parent. -/
structure ChildOf (nodes : Nodes7) (i j : Fin 256) : Prop where
  child : Live nodes i
  parent : Live nodes j
  below : nodes[i].parent ≠ 0
  named : nodes[i].parent = nodes[j].id

/-- The live nodes are trees whose tops are the four roots. -/
structure Forest (nodes : Nodes7) : Prop where
  roots : ∀ k : Fin 4, ∃ i, Live nodes i ∧ nodes[i].parent = 0 ∧ nodes[i].id.toNat = k.val + 1
  top : ∀ i, Live nodes i → nodes[i].parent = 0 → nodes[i].kind = .directory
    ∧ nodes[i].space = nodes[i].id.toUInt8
    ∧ ∃ k : Fin 4, nodes[i].id.toNat = k.val + 1 ∧ rootNames[k.val]? = some nodes[i].name
  parent : ∀ i, Live nodes i → nodes[i].parent ≠ 0 →
    ∃ j, ChildOf nodes i j ∧ nodes[j].kind = .directory ∧ nodes[j].space = nodes[i].space
  acyclic : Acyclic (ChildOf nodes)

/-- No two live nodes have one identity. -/
def UniqueIds (nodes : Nodes7) : Prop :=
  ∀ i j, Live nodes i → Live nodes j → nodes[i].id = nodes[j].id → i = j

/-- No two live nodes of one directory have one name. -/
def UniqueNames (nodes : Nodes7) : Prop :=
  ∀ i j, Live nodes i → Live nodes j → nodes[i].parent = nodes[j].parent →
    nodes[i].name = nodes[j].name → i = j

variable {id : UInt32} {i : Fin 256} {a b r : Record7} {s : Nat}

theorem findNode_live {n : Node7} (h : findNode nodes id = some n) :
    ∃ j, Live nodes j ∧ nodes[j].id = id ∧ nodes[j] = n := by
  obtain ⟨hmem, hne, hid⟩ := findNode_some h
  obtain ⟨j, rfl⟩ := mem_toList_nodes.mp hmem
  exact ⟨j, hne, hid, rfl⟩

theorem UniqueIds.findNode (h : UniqueIds nodes) {j : Fin 256} (hj : Live nodes j) :
    findNode nodes nodes[j].id = some nodes[j] := by
  cases hf : Fs.findNode nodes nodes[j].id with
  | none =>
    have hnone := List.find?_eq_none.mp hf nodes[j] (mem_toList_nodes.mpr ⟨j, rfl⟩)
    exact absurd (decide_eq_true ⟨hj, rfl⟩) hnone
  | some n =>
    obtain ⟨k, hk, hid, rfl⟩ := findNode_live hf
    rw [h k j hk hj hid]

theorem findNode_eq_none : findNode nodes id = none ↔ ∀ j, Live nodes j → nodes[j].id ≠ id := by
  unfold findNode
  rw [List.find?_eq_none]
  constructor
  · intro h j hj hid
    exact h nodes[j] (mem_toList_nodes.mpr ⟨j, rfl⟩) (decide_eq_true ⟨hj, hid⟩)
  · intro h n hn hp
    obtain ⟨j, rfl⟩ := mem_toList_nodes.mp hn
    obtain ⟨hj, hid⟩ := of_decide_eq_true hp
    exact h j hj hid

theorem checkTop_eq_ok {node : Node7} :
    checkTop node = .ok () ↔ node.kind = .directory ∧ node.space = node.id.toUInt8
      ∧ ∃ k : Fin 4, node.id.toNat = k.val + 1 ∧ rootNames[k.val]? = some node.name := by
  unfold checkTop
  rw [reject_eq_ok]
  push Not
  constructor
  · rintro ⟨hid, hkind, hspace, hname⟩
    have hlt := (List.getElem?_eq_some_iff.mp hname).1
    have hpos : node.id.toNat ≠ 0 := fun h => hid (UInt32.toNat_inj.mp h)
    have hlen : rootNames.length = 4 := rfl
    exact ⟨hkind, hspace, ⟨node.id.toNat - 1, by omega⟩, by simp only; omega, hname⟩
  · rintro ⟨hkind, hspace, k, hid, hname⟩
    refine ⟨?_, hkind, hspace, ?_⟩
    · rintro h
      rw [h] at hid
      exact absurd hid (by simp)
    · rw [hid, Nat.add_sub_cancel]
      exact hname

/-! ### The walk to the top -/

/-- The walk from `ancestor` reaches the top within `fuel` turns. -/
def Climbs (nodes : Nodes7) : Nat → UInt32 → Prop
  | 0, ancestor => ancestor = 0
  | fuel + 1, ancestor =>
    ancestor = 0 ∨ ∃ n, findNode nodes ancestor = some n ∧ Climbs nodes fuel n.parent

theorem climbs_of_climb {fuel : Nat} {ancestor : UInt32}
    (h : climb nodes id fuel ancestor = .ok ()) : Climbs nodes fuel ancestor := by
  induction fuel generalizing ancestor with
  | zero =>
    rw [climb, reject_eq_ok, not_not] at h
    exact h
  | succ fuel ih =>
    rw [climb] at h
    split at h
    · rename_i hzero
      exact Or.inl hzero
    · obtain ⟨_, -, h⟩ := except_bind_eq_ok.mp h
      obtain ⟨n, hn, h⟩ := except_bind_eq_ok.mp h
      exact Or.inr ⟨n, orRefuse_eq_ok.mp hn, ih h⟩

/-- Walks that end make the parent relation acyclic: the turns they need fall along it. -/
theorem acyclic_of_climbs (hunique : UniqueIds nodes)
    (h : ∀ i, Live nodes i → ∃ fuel, Climbs nodes fuel nodes[i].parent) :
    Acyclic (ChildOf nodes) := by
  classical
  refine acyclic_of_rank (fun i => if hi : Live nodes i then Nat.find (h i hi) else 0) ?_
  intro i j hij
  simp only [dif_pos hij.child, dif_pos hij.parent]
  have hturns := Nat.find_spec (h i hij.child)
  generalize Nat.find (h i hij.child) = fuel at hturns ⊢
  cases fuel with
  | zero => exact absurd hturns hij.below
  | succ fuel =>
    rcases hturns with hzero | ⟨n, hn, hrest⟩
    · exact absurd hzero hij.below
    · rw [hij.named, hunique.findNode hij.parent] at hn
      cases hn
      exact Nat.lt_succ_of_le (Nat.find_min' _ hrest)

/-- In a forest the walk from a node's parent ends without meeting the node. -/
theorem Forest.climb (h : Forest nodes) (hunique : UniqueIds nodes)
    (hids : ∀ i, Live nodes i → nodes[i].id ≠ 0) (hi : Live nodes i)
    (hbelow : nodes[i].parent ≠ 0) : climb nodes nodes[i].id 256 nodes[i].parent = .ok () := by
  obtain ⟨j, hij, -⟩ := h.parent i hi hbelow
  rw [hij.named]
  refine h.acyclic.walk (P := fun fuel j => Live nodes j →
    Fs.climb nodes nodes[i].id fuel nodes[j].id = .ok ()) ?_ (by simp) hij hij.parent
  intro fuel j hwalk hnext hj
  have hne : nodes[j].id ≠ nodes[i].id := by
    intro hid
    rw [hunique j i hj hi hid] at hwalk
    exact h.acyclic i hwalk
  rw [Fs.climb, if_neg (hids j hj), reject_of_not hne, ok_bind, hunique.findNode hj, orRefuse_some,
    ok_bind]
  by_cases htop : nodes[j].parent = 0
  · rw [htop]
    cases fuel with
    | zero => exact reject_of_not (by simp) _
    | succ fuel => rw [Fs.climb, if_pos rfl]
  · obtain ⟨k, hjk, -⟩ := h.parent j hj htop
    rw [hjk.named]
    exact hnext k hjk hjk.parent

theorem checkParent_eq_ok :
    checkParent nodes i = .ok () ↔ (Live nodes i → nodes[i].parent ≠ 0 →
      ∃ n, findNode nodes nodes[i].parent = some n ∧ n.kind = .directory
        ∧ n.space = nodes[i].space
        ∧ climb nodes nodes[i].id 256 nodes[i].parent = .ok ()) := by
  unfold checkParent
  dsimp only
  by_cases hskip : nodes[i] = Node7.empty ∨ nodes[i].parent = 0
  · rw [if_pos hskip]
    refine ⟨fun _ hi hbelow => ?_, fun _ => rfl⟩
    rcases hskip with h | h
    · exact absurd h hi
    · exact absurd h hbelow
  · rw [if_neg hskip]
    push Not at hskip
    simp only [except_bind_eq_ok, orRefuse_eq_ok, reject_eq_ok]
    push Not
    constructor
    · rintro ⟨n, hn, _, ⟨hkind, hspace⟩, hclimb⟩ _ _
      exact ⟨n, hn, hkind, hspace, hclimb⟩
    · intro h
      obtain ⟨n, hn, hkind, hspace, hclimb⟩ := h hskip.1 hskip.2
      exact ⟨n, hn, (), ⟨hkind, hspace⟩, hclimb⟩

/-- The root and parent checks hold exactly for a forest. -/
theorem forest_iff (hunique : UniqueIds nodes) (hids : ∀ i, Live nodes i → nodes[i].id ≠ 0) :
    Forest nodes ↔
      (∀ i, Live nodes i → nodes[i].parent = 0 → checkTop nodes[i] = .ok ())
      ∧ (∀ k : Fin 4, ∃ i, Live nodes i ∧ nodes[i].parent = 0 ∧ nodes[i].id.toNat = k.val + 1)
      ∧ ∀ i, checkParent nodes i = .ok () := by
  constructor
  · intro h
    refine ⟨fun i hi htop => checkTop_eq_ok.mpr (h.top i hi htop), h.roots, fun i => ?_⟩
    rw [checkParent_eq_ok]
    intro hi hbelow
    obtain ⟨j, hij, hkind, hspace⟩ := h.parent i hi hbelow
    refine ⟨nodes[j], ?_, hkind, hspace, h.climb hunique hids hi hbelow⟩
    rw [hij.named]
    exact hunique.findNode hij.parent
  · rintro ⟨htop, hroots, hparent⟩
    refine ⟨hroots, fun i hi h => checkTop_eq_ok.mp (htop i hi h), fun i hi hbelow => ?_, ?_⟩
    · obtain ⟨n, hn, hkind, hspace, -⟩ := checkParent_eq_ok.mp (hparent i) hi hbelow
      obtain ⟨j, hj, hid, rfl⟩ := findNode_live hn
      exact ⟨j, ⟨hi, hj, hbelow, hid.symm⟩, hkind, hspace⟩
    · refine acyclic_of_climbs hunique fun i hi => ?_
      by_cases hbelow : nodes[i].parent = 0
      · exact ⟨0, hbelow⟩
      · obtain ⟨n, -, -, -, hclimb⟩ := checkParent_eq_ok.mp (hparent i) hi hbelow
        exact ⟨256, climbs_of_climb hclimb⟩

/-! ### Histories -/

/-- A committed record and a file have the same payload, run for run. -/
structure SameContent (record : Record7) (node : Node7) : Prop where
  file : node.kind = .file
  length : node.length = record.length
  crc : node.payloadCrc32 = record.payloadCrc32
  used : node.extentsUsed = record.extentsUsed
  runs : node.extents = record.extents

theorem matchesCommittedContent_iff {record : Record7} {node : Node7} :
    matchesCommittedContent record node = true ↔ SameContent record node := by
  simp only [matchesCommittedContent, Bool.and_eq_true, decide_eq_true_eq]
  constructor
  · rintro ⟨⟨⟨⟨h1, h2⟩, h3⟩, h4⟩, h5⟩
    exact ⟨h1, h2, h3, h4, h5⟩
  · rintro ⟨h1, h2, h3, h4, h5⟩
    exact ⟨⟨⟨⟨h1, h2⟩, h3⟩, h4⟩, h5⟩

/-- A record and the live file it names agree. -/
structure Current (record : Record7) (node : Node7) : Prop where
  file : node.kind = .file
  newer : record.previous ≤ node.version
  pending : record.state.committed = false → record.previous < node.version →
    record.admissionNumber < node.version
  committed : record.state.committed = true → record.committed ≤ node.version
  content : record.state.committed = true → node.version = record.committed →
    SameContent record node

/-- Two records of one object, seen from the first. -/
structure OneHistory (a b : Record7) : Prop where
  apart : versionObservationSequence a ≠ versionObservationSequence b
  ordered : versionObservationSequence a < versionObservationSequence b → a.previous ≤ b.previous
  unchanged : a.state = .admittedCommitted →
    a.admissionNumber < versionObservationSequence b →
    versionObservationSequence b < a.committed → b.previous = a.previous
  commits : a.state.committed = true → b.state.committed = true → a.committed < b.committed →
    a.committed ≤ b.previous
  sees : a.state.committed = true → a.committed < versionObservationSequence b →
    a.committed ≤ b.previous

/-- Two records never answer one retry. -/
def SameScope (a b : Record7) : Prop :=
  a.subject = b.subject ∧ a.workspace = b.workspace ∧ a.retryEpoch = b.retryEpoch
    ∧ a.retryKey = b.retryKey

/-- Two records have no event in common. -/
def EventsApart (a b : Record7) : Prop :=
  ∀ e ∈ eventSequences a, e ∈ eventSequences b → e = 0

theorem EventsApart.symm (h : EventsApart a b) : EventsApart b a :=
  fun e hb ha => h e ha hb

theorem SameScope.symm (h : SameScope a b) : SameScope b a :=
  ⟨h.1.symm, h.2.1.symm, h.2.2.1.symm, h.2.2.2.symm⟩

theorem validateReceiptTarget_eq_ok {record : Record7} (hunique : UniqueIds nodes) :
    validateReceiptTarget record nodes = .ok ()
      ↔ ∀ j, Live nodes j → nodes[j].id = record.object → Current record nodes[j] := by
  unfold validateReceiptTarget
  cases hf : findNode nodes record.object with
  | none => exact ⟨fun _ j hj hid => absurd hid (findNode_eq_none.mp hf j hj), fun _ => rfl⟩
  | some n =>
    obtain ⟨j, hj, hid, rfl⟩ := findNode_live hf
    simp only [except_bind_eq_ok, reject_eq_ok]
    push Not
    simp only [UInt64.not_lt, UInt64.not_le]
    constructor
    · rintro ⟨_, ⟨hfile, hnewer⟩, _, hpending, hcommitted⟩ k hk hkid
      rw [hunique k j hk hj (hkid.trans hid.symm)]
      refine ⟨hfile, hnewer, hpending, fun hc => (hcommitted hc).1, fun hc hv => ?_⟩
      exact matchesCommittedContent_iff.mp ((hcommitted hc).2 hv)
    · intro h
      have hcur := h j hj hid
      refine ⟨(), ⟨hcur.file, hcur.newer⟩, (), hcur.pending, fun hc => ⟨hcur.committed hc, ?_⟩⟩
      exact fun hv => matchesCommittedContent_iff.mpr (hcur.content hc hv)

/-- Two records never answer one retry exactly when their scopes differ. -/
theorem sameRetryIdentity_iff : sameRetryIdentity a b = true ↔ SameScope a b := by
  simp only [sameRetryIdentity, SameScope, Bool.and_eq_true, decide_eq_true_eq, and_assoc]

theorem shareEventSequence_iff : shareEventSequence a b = false ↔ EventsApart a b := by
  rw [shareEventSequence, List.any_eq_false]
  refine forall_congr' fun e => forall_congr' fun _ => ?_
  rw [Bool.and_eq_true, bne_iff_ne, List.contains_iff_mem]
  tauto

theorem observationsAreMonotonic_iff :
    observationsAreMonotonic a b = true
      ↔ versionObservationSequence a ≠ versionObservationSequence b
        ∧ (versionObservationSequence a < versionObservationSequence b → a.previous ≤ b.previous)
        ∧ (versionObservationSequence b < versionObservationSequence a →
          b.previous ≤ a.previous) := by
  unfold observationsAreMonotonic
  generalize versionObservationSequence a = x
  generalize versionObservationSequence b = y
  rcases lt_trichotomy x.toNat y.toNat with h | h | h
  · have hlt : x < y := UInt64.lt_iff_toNat_lt.mpr h
    have hne : x ≠ y := UInt64.ne_of_lt hlt
    have hnot : ¬ y < x := UInt64.not_lt.mpr (UInt64.le_of_lt hlt)
    rw [if_pos hlt, decide_eq_true_eq]
    tauto
  · have heq : x = y := UInt64.toNat_inj.mp h
    rw [if_neg (by rw [heq]; exact UInt64.lt_irrefl y), if_pos heq]
    tauto
  · have hlt : y < x := UInt64.lt_iff_toNat_lt.mpr h
    have hne : x ≠ y := (UInt64.ne_of_lt hlt).symm
    have hnot : ¬ x < y := UInt64.not_lt.mpr (UInt64.le_of_lt hlt)
    rw [if_neg hnot, if_neg hne, decide_eq_true_eq]
    tauto

theorem committedAdmissionIsUnchanged_iff :
    committedAdmissionIsUnchanged a b = true ↔ (a.state = .admittedCommitted →
      a.admissionNumber < versionObservationSequence b →
      versionObservationSequence b < a.committed → b.previous = a.previous) := by
  unfold committedAdmissionIsUnchanged
  by_cases hstate : a.state = .admittedCommitted
  · rw [if_neg (not_not.mpr hstate)]
    split
    · rename_i h
      rw [decide_eq_true_eq]
      tauto
    · rename_i h
      tauto
  · rw [if_pos hstate]
    tauto

theorem commitsAreMonotonic_iff
    (hne : a.state.committed = true → b.state.committed = true → a.committed ≠ b.committed) :
    commitsAreMonotonic a b = true ↔ (a.state.committed = true → b.state.committed = true →
      (a.committed < b.committed → a.committed ≤ b.previous)
      ∧ (b.committed < a.committed → b.committed ≤ a.previous)) := by
  unfold commitsAreMonotonic committedVersion
  by_cases ha : a.state.committed = true
  · by_cases hb : b.state.committed = true
    · rw [if_pos ha, if_pos hb]
      dsimp only
      split
      · rename_i hlt
        have hnot : ¬ b.committed < a.committed := UInt64.not_lt.mpr (UInt64.le_of_lt hlt)
        rw [decide_eq_true_eq]
        tauto
      · rename_i hnot
        have hlt : b.committed < a.committed :=
          UInt64.lt_of_le_of_ne (UInt64.not_lt.mp hnot) (hne ha hb).symm
        rw [decide_eq_true_eq]
        tauto
    · rw [if_pos ha, if_neg hb]
      tauto
  · rw [if_neg ha]
    tauto

theorem seesCommit_iff :
    seesCommit a b = true ↔ (a.state.committed = true →
      a.committed < versionObservationSequence b → a.committed ≤ b.previous) := by
  unfold seesCommit committedVersion
  by_cases ha : a.state.committed = true
  · rw [if_pos ha]
    simp only [ha, Bool.not_eq_true', Bool.and_eq_false_imp, decide_eq_true_eq,
      decide_eq_false_iff_not, UInt64.not_lt, gt_iff_lt, forall_const]
  · rw [if_neg ha]
    tauto

/-- The history check of two records with no event in common says the same in both orders. -/
theorem consistent_iff
    (hne : a.state.committed = true → b.state.committed = true → a.committed ≠ b.committed) :
    sameObjectHistoryIsConsistent a b = true
      ↔ (a.object = b.object → OneHistory a b ∧ OneHistory b a) := by
  unfold sameObjectHistoryIsConsistent
  by_cases hobject : a.object = b.object
  · simp only [hobject, bne_self_eq_false, Bool.false_or, Bool.and_eq_true,
      observationsAreMonotonic_iff, committedAdmissionIsUnchanged_iff,
      commitsAreMonotonic_iff hne, seesCommit_iff, forall_const]
    constructor
    · rintro ⟨⟨⟨⟨⟨⟨h1, h2, h3⟩, h4⟩, h5⟩, h6⟩, h7⟩, h8⟩
      exact ⟨⟨h1, h2, h4, fun ha hb => (h6 ha hb).1, h7⟩,
        ⟨h1.symm, h3, h5, fun hb ha => (h6 ha hb).2, h8⟩⟩
    · rintro ⟨⟨h1, h2, h3, h4, h5⟩, ⟨-, h6, h7, h8, h9⟩⟩
      exact ⟨⟨⟨⟨⟨⟨h1, h2, h6⟩, h3⟩, h7⟩, fun ha hb => ⟨h4 ha hb, h8 hb ha⟩⟩, h5⟩, h9⟩
  · have hbne : (a.object != b.object) = true := bne_iff_ne.mpr hobject
    rw [hbne, Bool.true_or]
    exact ⟨fun _ h => absurd h hobject, fun _ => rfl⟩

/-- A committed record has a commit number. -/
theorem Record7.Shape.committed_ne (h : r.Shape) (hc : r.state.committed = true) :
    r.committed ≠ 0 := by
  have hstate := h.state
  unfold Record7.stateBroken at hstate
  intro hzero
  cases hs : r.state with
  | admitted | cancelled => simp [hs, RecordState.committed] at hc
  | directCommitted =>
    rw [hs] at hstate
    simp only [Bool.or_eq_false_iff, decide_eq_false_iff_not, hzero] at hstate
    exact hstate.1.2 (UInt64.le_iff_toNat_le.mpr (Nat.zero_le _))
  | admittedCommitted =>
    rw [hs] at hstate
    simp only [Bool.or_eq_false_iff, decide_eq_false_iff_not, hzero,
      bne_eq_false_iff_eq] at hstate
    exact hstate.1.1.2 (hstate.1.1.1 ▸ UInt64.le_iff_toNat_le.mpr (Nat.zero_le _))

theorem EventsApart.committed_ne (h : EventsApart a b) (ha : a.Shape)
    (hc : a.state.committed = true) : a.committed ≠ b.committed := by
  intro heq
  refine ha.committed_ne hc (h a.committed ?_ ?_)
  · simp [eventSequences]
  · simp [eventSequences, heq]

/-! ### Ownership -/

/-- What may own a payload sector. -/
inductive Owner where
  | file (i : Fin 256)
  | snapshot (i : Fin 8)

/-- A live file or a retained snapshot has a sector among its runs. -/
def Owns (nodes : Nodes7) (records : Records7) : Owner → Nat → Prop
  | .file i, s => nodes[i].kind = .file ∧ s ∈ runSectors nodes[i].runs
  | .snapshot i, s => ∃ r, records[i] = some r ∧ s ∈ runSectors r.runs

/-- The first is the record of the commit that made the second what it is. -/
def Shares (nodes : Nodes7) (records : Records7) : Owner → Owner → Prop
  | .snapshot i, .file j => ∃ r, records[i] = some r ∧ r.state.committed = true
      ∧ nodes[j].id = r.object ∧ nodes[j].version = r.committed ∧ SameContent r nodes[j]
  | _, _ => False

/-- Every sector has one owner, up to the one permitted sharing. -/
def Exclusive (nodes : Nodes7) (records : Records7) : Prop :=
  ∀ o o' s, Owns nodes records o s → Owns nodes records o' s →
    o = o' ∨ Shares nodes records o o' ∨ Shares nodes records o' o

theorem live_of_file (h : nodes[i].kind = .file) : Live nodes i := by
  intro hempty
  rw [hempty] at h
  cases h

/-- A record aliases the current file exactly when it shares its runs. -/
theorem aliases_iff (hunique : UniqueIds nodes) {i : Fin 8} (hr : records[i] = some r) :
    aliasesCurrentFile r nodes = true ↔ ∃ j, Shares nodes records (.snapshot i) (.file j) := by
  unfold aliasesCurrentFile
  rw [Bool.and_eq_true]
  constructor
  · rintro ⟨hc, hmatch⟩
    cases hf : findNode nodes r.object with
    | none => simp [hf] at hmatch
    | some n =>
      obtain ⟨j, hj, hid, rfl⟩ := findNode_live hf
      simp only [hf, Bool.and_eq_true, decide_eq_true_eq] at hmatch
      exact ⟨j, r, hr, hc, hid, hmatch.1, matchesCommittedContent_iff.mp hmatch.2⟩
  · rintro ⟨j, r', hr', hc, hid, hversion, hcontent⟩
    rw [hr] at hr'
    cases hr'
    refine ⟨hc, ?_⟩
    rw [← hid, hunique.findNode (live_of_file hcontent.file)]
    simp only [Bool.and_eq_true, decide_eq_true_eq]
    exact ⟨hversion, matchesCommittedContent_iff.mpr hcontent⟩

theorem SameContent.runs_eq {n : Node7} (h : SameContent r n) : n.runs = r.runs := by
  rw [Node7.runs, Record7.runs, h.used, h.runs]

theorem mem_nodeSectors (records : Records7) :
    s ∈ nodeSectors nodes[i] ↔ Owns nodes records (.file i) s := by
  unfold nodeSectors
  split
  · rename_i h
    exact ⟨fun hs => ⟨h, hs⟩, fun hs => hs.2⟩
  · rename_i h
    exact ⟨fun hs => absurd hs List.not_mem_nil, fun hs => absurd hs.1 h⟩

theorem mem_recordSectors (hunique : UniqueIds nodes) {i : Fin 8} :
    s ∈ recordSectors nodes records[i] ↔ Owns nodes records (.snapshot i) s
      ∧ ∀ j, ¬ Shares nodes records (.snapshot i) (.file j) := by
  cases hr : records[i] with
  | none =>
    rw [recordSectors]
    constructor
    · intro h
      cases h
    · rintro ⟨⟨r, hr', -⟩, -⟩
      rw [hr] at hr'
      cases hr'
  | some r =>
    have halias := aliases_iff hunique hr
    have howns : Owns nodes records (.snapshot i) s ↔ s ∈ runSectors r.runs := by
      show (∃ r', records[i] = some r' ∧ s ∈ runSectors r'.runs) ↔ _
      rw [hr]
      simp
    rw [recordSectors, howns, ← not_exists, ← halias]
    split
    · rename_i ha
      simp [ha]
    · rename_i ha
      simp [ha]

theorem mem_owned_iff (hunique : UniqueIds nodes) :
    s ∈ owned nodes records ↔ ∃ o, Owns nodes records o s := by
  unfold owned
  rw [List.mem_append, List.mem_flatMap, List.mem_flatMap]
  constructor
  · rintro (⟨n, hn, hs⟩ | ⟨r, hr, hs⟩)
    · obtain ⟨i, rfl⟩ := mem_toList_nodes.mp hn
      exact ⟨.file i, (mem_nodeSectors records).mp hs⟩
    · obtain ⟨i, rfl⟩ := mem_toList_slots.mp hr
      exact ⟨.snapshot i, ((mem_recordSectors hunique).mp hs).1⟩
  · rintro ⟨o, ho⟩
    cases o with
    | file i =>
      exact Or.inl ⟨nodes[i], mem_toList_nodes.mpr ⟨i, rfl⟩, (mem_nodeSectors records).mpr ho⟩
    | snapshot i =>
      by_cases halias : ∃ j, Shares nodes records (.snapshot i) (.file j)
      · -- the file it shares its runs with owns the sector as well
        obtain ⟨j, r, hr, -, -, -, hcontent⟩ := halias
        obtain ⟨r', hr', hs⟩ := ho
        rw [hr] at hr'
        cases hr'
        refine Or.inl ⟨nodes[j], mem_toList_nodes.mpr ⟨j, rfl⟩, ?_⟩
        rw [nodeSectors, if_pos hcontent.file, hcontent.runs_eq]
        exact hs
      · push Not at halias
        exact Or.inr ⟨records[i], mem_toList_slots.mpr ⟨i, rfl⟩,
          (mem_recordSectors hunique).mpr ⟨ho, halias⟩⟩

/-- The concatenation over a table has no duplicate exactly when no slot and no pair of slots
has one. -/
theorem nodup_flatMap_slots {α β : Type} {n : Nat} {v : Vector α n} {f : α → List β} :
    (v.toList.flatMap f).Nodup ↔ (∀ i : Fin n, (f v[i]).Nodup)
      ∧ ∀ i j : Fin n, i ≠ j → ∀ s ∈ f v[i], s ∉ f v[j] := by
  rw [List.nodup_flatMap, List.pairwise_iff_getElem]
  constructor
  · rintro ⟨hone, hpair⟩
    refine ⟨fun i => hone _ (mem_toList_slots.mpr ⟨i, rfl⟩), fun i j hij s hi hj => ?_⟩
    have hlen : v.toList.length = n := v.length_toList
    rcases lt_or_gt_of_ne (Fin.val_ne_of_ne hij) with hlt | hlt
    · have hdisjoint := hpair i.val j.val (by omega) (by omega) hlt
      simp only [Vector.getElem_toList] at hdisjoint
      exact hdisjoint hi hj
    · have hdisjoint := hpair j.val i.val (by omega) (by omega) hlt
      simp only [Vector.getElem_toList] at hdisjoint
      exact hdisjoint hj hi
  · rintro ⟨hone, hpair⟩
    constructor
    · intro a ha
      obtain ⟨i, rfl⟩ := mem_toList_slots.mp ha
      exact hone i
    · intro i j hi hj hlt
      have hlen : v.toList.length = n := v.length_toList
      simp only [Vector.getElem_toList]
      intro s hs hs'
      exact hpair ⟨i, by omega⟩ ⟨j, by omega⟩ (by simp only [ne_eq, Fin.mk.injEq]; omega) s hs hs'

theorem nodup_nodeSectors (h : Live nodes i → nodes[i].Shape) : (nodeSectors nodes[i]).Nodup := by
  unfold nodeSectors
  split
  · rename_i hk
    exact (h (live_of_file hk)).payload.nodup
  · exact List.nodup_nil

theorem nodup_recordSectors {i : Fin 8} (h : ∀ r, records[i] = some r → r.Shape) :
    (recordSectors nodes records[i]).Nodup := by
  cases hr : records[i] with
  | none => exact List.nodup_nil
  | some r =>
    rw [recordSectors]
    split
    · exact List.nodup_nil
    · exact (h r hr).payload.nodup

/-- No sector is listed twice exactly when every sector has one owner. -/
theorem owned_nodup_iff (hunique : UniqueIds nodes)
    (hnodes : ∀ i : Fin 256, (nodeSectors nodes[i]).Nodup)
    (hrecords : ∀ i : Fin 8, (recordSectors nodes records[i]).Nodup)
    (halone : ∀ i i' j, Shares nodes records (.snapshot i) (.file j) →
      Shares nodes records (.snapshot i') (.file j) → i = i') :
    (owned nodes records).Nodup ↔ Exclusive nodes records := by
  have hshared : ∀ {i j s}, Shares nodes records (.snapshot i) (.file j) →
      Owns nodes records (.snapshot i) s → Owns nodes records (.file j) s := by
    rintro i j s ⟨r, hr, -, -, -, hcontent⟩ ⟨r', hr', hs⟩
    rw [hr] at hr'
    cases hr'
    exact ⟨hcontent.file, hcontent.runs_eq ▸ hs⟩
  have hnone : ∀ {i j}, ¬ Shares nodes records (.file i) (.file j) := fun h => h
  unfold owned
  rw [List.nodup_append, nodup_flatMap_slots, nodup_flatMap_slots]
  constructor
  · rintro ⟨⟨-, hfiles⟩, ⟨-, hsnapshots⟩, hapart⟩
    have hfile : ∀ {i i' s}, Owns nodes records (.file i) s → Owns nodes records (.file i') s →
        i = i' := by
      intro i i' s hi hi'
      by_contra hne
      exact hfiles i i' hne s ((mem_nodeSectors records).mpr hi)
        ((mem_nodeSectors records).mpr hi')
    -- a file's sector in a snapshot means that the snapshot is the file's own record
    have hmixed : ∀ {i j s}, Owns nodes records (.file i) s → Owns nodes records (.snapshot j) s →
        Shares nodes records (.snapshot j) (.file i) := by
      intro i j s hi hj
      by_cases halias : ∃ k, Shares nodes records (.snapshot j) (.file k)
      · obtain ⟨k, hk⟩ := halias
        rw [hfile hi (hshared hk hj)]
        exact hk
      · push Not at halias
        refine absurd rfl (hapart s (List.mem_flatMap.mpr ⟨nodes[i], mem_toList_nodes.mpr ⟨i, rfl⟩,
          (mem_nodeSectors records).mpr hi⟩) s (List.mem_flatMap.mpr ⟨records[j],
            mem_toList_slots.mpr ⟨j, rfl⟩, (mem_recordSectors hunique).mpr ⟨hj, halias⟩⟩))
    intro o o' s ho ho'
    cases o with
    | file i =>
      cases o' with
      | file i' => exact Or.inl (by rw [hfile ho ho'])
      | snapshot j => exact Or.inr (Or.inr (hmixed ho ho'))
    | snapshot j =>
      cases o' with
      | file i' => exact Or.inr (Or.inl (hmixed ho' ho))
      | snapshot j' =>
        left
        by_cases halias : ∃ k, Shares nodes records (.snapshot j) (.file k)
        · obtain ⟨k, hk⟩ := halias
          rw [halone j j' k hk (hmixed (hshared hk ho) ho')]
        · by_cases halias' : ∃ k, Shares nodes records (.snapshot j') (.file k)
          · obtain ⟨k, hk⟩ := halias'
            exact absurd ⟨k, hmixed (hshared hk ho') ho⟩ halias
          · push Not at halias halias'
            by_contra hne
            exact hsnapshots j j' (fun h => hne (by rw [h])) s
              ((mem_recordSectors hunique).mpr ⟨ho, halias⟩)
              ((mem_recordSectors hunique).mpr ⟨ho', halias'⟩)
  · intro h
    refine ⟨⟨hnodes, fun i i' hne s hi hi' => ?_⟩, ⟨hrecords, fun j j' hne s hj hj' => ?_⟩,
      fun s hs s' hs' heq => ?_⟩
    · rcases h (.file i) (.file i') s ((mem_nodeSectors records).mp hi)
        ((mem_nodeSectors records).mp hi') with h | h | h
      · cases h
        exact hne rfl
      · exact hnone h
      · exact hnone h
    · obtain ⟨hj, -⟩ := (mem_recordSectors hunique).mp hj
      obtain ⟨hj', -⟩ := (mem_recordSectors hunique).mp hj'
      rcases h (.snapshot j) (.snapshot j') s hj hj' with h | h | h
      · cases h
        exact hne rfl
      · exact h
      · exact h
    · subst heq
      obtain ⟨n, hn, hs⟩ := List.mem_flatMap.mp hs
      obtain ⟨i, rfl⟩ := mem_toList_nodes.mp hn
      obtain ⟨r, hr, hs'⟩ := List.mem_flatMap.mp hs'
      obtain ⟨j, rfl⟩ := mem_toList_slots.mp hr
      obtain ⟨hj, halias⟩ := (mem_recordSectors hunique).mp hs'
      rcases h (.file i) (.snapshot j) s ((mem_nodeSectors records).mp hs) hj with h | h | h
      · cases h
      · exact h
      · exact halias i h

/-! ### Well-formed generations -/

/-- The rules of a header. -/
structure HeaderFields (header : Header7) : Prop where
  lineage_ne : header.lineage ≠ Vector.replicate 16 0
  epoch_ge : 1 ≤ header.epoch
  epoch_le : header.epoch ≤ header.sequence
  next_ge : nextMin ≤ header.next
  generation_lt : header.generation < 2

theorem header_validate_eq_ok : header.validate = .ok () ↔ HeaderFields header := by
  simp only [Header7.validate, reject_eq_ok, not_or, gt_iff_lt, ge_iff_le, UInt64.not_lt,
    UInt32.not_lt, UInt8.not_le]
  constructor
  · rintro ⟨hlineage, -, hepoch, hle, hnext, hgeneration⟩
    exact ⟨hlineage, hepoch, hle, hnext, hgeneration⟩
  · intro h
    exact ⟨h.lineage_ne, UInt64.le_trans h.epoch_ge h.epoch_le, h.epoch_ge, h.epoch_le, h.next_ge,
      h.generation_lt⟩

/-- The rules one record keeps under a header. -/
structure RecordFields (header : Header7) (r : Record7) : Prop where
  shape : r.Shape
  workspace_lt : r.workspace < header.next
  object_lt : r.object < header.next
  previous_le : r.previous ≤ header.sequence
  committed_le : r.committed ≤ header.sequence
  terminal_le : r.terminal ≤ header.sequence
  admissionNumber_le : r.admissionNumber ≤ header.sequence
  epoch : r.retryEpoch = header.epoch
  crc : r.length = 0 → r.payloadCrc32 = crc []

theorem recordFields_iff (h : HeaderFields header) :
    RecordFields header r ↔ r.validate header.sequence header.next = .ok ()
      ∧ r.retryEpoch = header.epoch ∧ (r.length = 0 → r.payloadCrc32 = crc []) := by
  have hsequence : header.sequence ≠ 0 := by
    intro h0
    have hone := UInt64.le_trans h.epoch_ge h.epoch_le
    rw [h0] at hone
    exact absurd hone (by decide)
  simp only [Record7.validate, except_bind_eq_ok, reject_eq_ok, not_or, gt_iff_lt, ge_iff_le,
    UInt64.not_lt, UInt32.not_lt, UInt32.not_le]
  constructor
  · intro hr
    refine ⟨⟨(), ⟨hsequence, h.next_ge⟩, (), Record7.checkLocal_eq_ok.mpr hr.shape, (),
      ⟨hr.workspace_lt, hr.object_lt⟩, ?_, hr.previous_le, hr.committed_le,
      hr.terminal_le, hr.admissionNumber_le⟩, hr.epoch, hr.crc⟩
    rw [hr.epoch]
    exact h.epoch_le
  · rintro ⟨⟨_, -, _, hshape, _, ⟨hworkspace, hobject⟩, -, hprevious, hcommitted, hterminal,
      hadmission⟩, hepoch, hcrc⟩
    exact ⟨Record7.checkLocal_eq_ok.mp hshape, hworkspace, hobject, hprevious, hcommitted,
      hterminal, hadmission, hepoch, hcrc⟩

/-- The rules one live node keeps under a header. -/
structure NodeFields (header : Header7) (n : Node7) : Prop where
  shape : n.Shape
  crc : n.kind = .file → n.length = 0 → n.payloadCrc32 = crc []
  id_lt : n.id < header.next
  version_le : n.version ≤ header.sequence

/-- What a generation of the volume is. -/
structure WellFormed (header : Header7) (nodes : Nodes7) (records : Records7) (map : SpaceMap) :
    Prop where
  head : HeaderFields header
  node : ∀ i, Live nodes i → NodeFields header nodes[i]
  forest : Forest nodes
  ids : UniqueIds nodes
  names : UniqueNames nodes
  record : ∀ (i : Fin 8) r, records[i] = some r → RecordFields header r
  current : ∀ (i : Fin 8) r, records[i] = some r → ∀ j, Live nodes j → nodes[j].id = r.object →
    Current r nodes[j]
  scopes : ∀ (i j : Fin 8) a b, i ≠ j → records[i] = some a → records[j] = some b →
    ¬ SameScope a b
  events : ∀ (i j : Fin 8) a b, i ≠ j → records[i] = some a → records[j] = some b →
    EventsApart a b
  history : ∀ (i j : Fin 8) a b, i ≠ j → records[i] = some a → records[j] = some b →
    a.object = b.object → OneHistory a b
  exclusive : Exclusive nodes records
  map_iff : ∀ s, Bitmap.get map s = true ↔ ∃ o, Owns nodes records o s

/-- Two records cannot both be the commit that made a file what it is. -/
theorem shares_alone (hshape : ∀ (i : Fin 8) r, records[i] = some r → r.Shape)
    (hevents : ∀ (i j : Fin 8) a b, i ≠ j → records[i] = some a → records[j] = some b →
      EventsApart a b) {i i' : Fin 8} {j : Fin 256}
    (h : Shares nodes records (.snapshot i) (.file j))
    (h' : Shares nodes records (.snapshot i') (.file j)) : i = i' := by
  obtain ⟨a, ha, hc, -, hversion, -⟩ := h
  obtain ⟨b, hb, -, -, hversion', -⟩ := h'
  by_contra hne
  exact (hevents i i' a b hne ha hb).committed_ne (hshape i a ha) hc
    (hversion.symm.trans hversion')

/-- The validator's node checks, read without an order of the slots. -/
theorem nodesValid_iff :
    (∀ i, Live nodes i → NodeValid header nodes i)
      ↔ (∀ i, Live nodes i → NodeFields header nodes[i]) ∧ UniqueIds nodes ∧ UniqueNames nodes
        ∧ ∀ i, Live nodes i → nodes[i].parent = 0 → checkTop nodes[i] = .ok () := by
  constructor
  · intro h
    -- the check compares a slot with the slots before it, so one order of the two is checked
    have hpair : ∀ i j, Live nodes i → Live nodes j → i ≠ j → nodes[i].id ≠ nodes[j].id
        ∧ ¬ (nodes[i].parent = nodes[j].parent ∧ nodes[i].name = nodes[j].name) := by
      intro i j hi hj hne
      rcases lt_or_gt_of_ne hne with hlt | hlt
      · exact (h j hj).unique i hlt hi
      · obtain ⟨h1, h2⟩ := (h i hi).unique j hlt hj
        exact ⟨fun h => h1 h.symm, fun h => h2 ⟨h.1.symm, h.2.symm⟩⟩
    refine ⟨fun i hi => ?_, fun i j hi hj hid => ?_, fun i j hi hj hparent hname => ?_,
      fun i hi => (h i hi).top⟩
    · exact ⟨(h i hi).shape, (h i hi).crc, (h i hi).id_lt, (h i hi).version_le⟩
    · by_contra hne
      exact (hpair i j hi hj hne).1 hid
    · by_contra hne
      exact (hpair i j hi hj hne).2 ⟨hparent, hname⟩
  · rintro ⟨hfields, hids, hnames, htop⟩ i hi
    refine ⟨(hfields i hi).shape, (hfields i hi).crc, (hfields i hi).id_lt,
      (hfields i hi).version_le, fun j hlt hj => ⟨fun hid => ?_, fun hname => ?_⟩, htop i hi⟩
    · exact absurd (hids j i hj hi hid) (ne_of_lt hlt)
    · exact absurd (hnames j i hj hi hname.1 hname.2) (ne_of_lt hlt)

theorem contradicts_eq_false :
    contradicts a b = false ↔ ¬ SameScope a b ∧ EventsApart a b
      ∧ sameObjectHistoryIsConsistent a b = true := by
  rw [contradicts, Bool.or_eq_false_iff, Bool.or_eq_false_iff, shareEventSequence_iff,
    Bool.not_eq_false', ← sameRetryIdentity_iff, Bool.not_eq_true, and_assoc]

/-- The validator's record checks, read without an order of the slots. -/
theorem recordsValid_iff (hhead : HeaderFields header) (hunique : UniqueIds nodes) :
    ((∀ (i : Fin 8) r, records[i] = some r → RecordValid header nodes records i r)
        ∧ ∀ i : Fin 8, ReceiptMarks nodes records i)
      ↔ (∀ (i : Fin 8) r, records[i] = some r → RecordFields header r)
        ∧ (∀ (i : Fin 8) r, records[i] = some r → ∀ j, Live nodes j → nodes[j].id = r.object →
          Current r nodes[j])
        ∧ ∀ (i j : Fin 8) a b, i ≠ j → records[i] = some a → records[j] = some b →
          ¬ SameScope a b ∧ EventsApart a b ∧ (a.object = b.object → OneHistory a b) := by
  constructor
  · rintro ⟨hvalid, hmarks⟩
    refine ⟨fun i r hr => (recordFields_iff hhead).mpr
        ⟨(hvalid i r hr).bounds, (hvalid i r hr).epoch, (hmarks i).crc r hr⟩,
      fun i r hr => (validateReceiptTarget_eq_ok hunique).mp (hvalid i r hr).target, ?_⟩
    intro i j a b hne ha hb
    have hshape : a.Shape := .of_validate (hvalid i a ha).bounds
    have hshape' : b.Shape := .of_validate (hvalid j b hb).bounds
    rcases lt_or_gt_of_ne hne with hlt | hlt
    · obtain ⟨hscope, hevents, hhistory⟩ :=
        contradicts_eq_false.mp ((hvalid j b hb).consistent i hlt a ha)
      rw [consistent_iff fun hc _ => hevents.committed_ne hshape' hc] at hhistory
      exact ⟨fun h => hscope h.symm, hevents.symm, fun h => (hhistory h.symm).2⟩
    · obtain ⟨hscope, hevents, hhistory⟩ :=
        contradicts_eq_false.mp ((hvalid i a ha).consistent j hlt b hb)
      rw [consistent_iff fun hc _ => hevents.committed_ne hshape hc] at hhistory
      exact ⟨hscope, hevents, fun h => (hhistory h).1⟩
  · rintro ⟨hfields, hcurrent, hpair⟩
    have hshape : ∀ (i : Fin 8) r, records[i] = some r → r.Shape :=
      fun i r hr => (hfields i r hr).shape
    constructor
    · intro i a ha
      refine ⟨((recordFields_iff hhead).mp (hfields i a ha)).1, (hfields i a ha).epoch,
        (validateReceiptTarget_eq_ok hunique).mpr (hcurrent i a ha), fun j hlt b hb => ?_⟩
      obtain ⟨hscope, hevents, hhistory⟩ := hpair i j a b (ne_of_gt hlt) ha hb
      obtain ⟨-, -, hhistory'⟩ := hpair j i b a (ne_of_lt hlt) hb ha
      rw [contradicts_eq_false, consistent_iff fun hc _ => hevents.committed_ne (hshape i a ha) hc]
      exact ⟨hscope, hevents, fun h => ⟨hhistory h, hhistory' h.symm⟩⟩
    · intro i
      refine ⟨fun r hr => (hfields i r hr).crc, fun a ha halias j hlt b hb hobject => ?_⟩
      rw [← Bool.not_eq_true]
      intro halias'
      -- two aliases of one file would be two records of one commit
      obtain ⟨k, hk⟩ := (aliases_iff hunique ha).mp halias
      obtain ⟨k', hk'⟩ := (aliases_iff hunique hb).mp halias'
      have hsame : k' = k := by
        obtain ⟨a', ha', -, hid, -, hcontent⟩ := hk
        obtain ⟨b', hb', -, hid', -, hcontent'⟩ := hk'
        rw [ha] at ha'
        rw [hb] at hb'
        cases ha'
        cases hb'
        exact hunique k' k (live_of_file hcontent'.file) (live_of_file hcontent.file)
          (hid'.trans (hobject.trans hid.symm))
      exact absurd (shares_alone hshape (fun i j a b hne ha hb => (hpair i j a b hne ha hb).2.1)
        (hsame ▸ hk') hk) (ne_of_lt hlt)

/-- What the checks of the validator amount to. -/
theorem validGeneration_iff :
    ValidGeneration header nodes records map ↔ WellFormed header nodes records map := by
  constructor
  · intro h
    obtain ⟨hfields, hids, hnames, htop⟩ := nodesValid_iff.mp h.node
    have hhead := header_validate_eq_ok.mp h.head
    obtain ⟨hrecord, hcurrent, hpair⟩ := (recordsValid_iff hhead hids).mp ⟨h.record, h.marks⟩
    have hforest := (forest_iff hids fun i hi => (hfields i hi).shape.id_ne).mpr
      ⟨htop, h.roots, h.parent⟩
    have hevents := fun i j a b hne ha hb => (hpair i j a b hne ha hb).2.1
    have hshape : ∀ (i : Fin 8) r, records[i] = some r → r.Shape :=
      fun i r hr => h.record_shape hr
    refine ⟨hhead, hfields, hforest, hids, hnames, hrecord, hcurrent,
      fun i j a b hne ha hb => (hpair i j a b hne ha hb).1, hevents,
      fun i j a b hne ha hb => (hpair i j a b hne ha hb).2.2, ?_, fun s => ?_⟩
    · exact (owned_nodup_iff hids (fun i => nodup_nodeSectors fun hi => (h.node i hi).shape)
        (fun i => nodup_recordSectors fun r hr => hshape i r hr)
        fun i i' j => shares_alone hshape hevents).mp h.nodup
    · rw [h.map_iff, mem_owned_iff hids]
  · intro h
    have hnodes := nodesValid_iff.mpr ⟨h.node, h.ids, h.names,
      fun i hi htop => checkTop_eq_ok.mpr (h.forest.top i hi htop)⟩
    obtain ⟨hvalid, hmarks⟩ := (recordsValid_iff h.head h.ids).mpr ⟨h.record, h.current,
      fun i j a b hne ha hb => ⟨h.scopes i j a b hne ha hb, h.events i j a b hne ha hb,
        h.history i j a b hne ha hb⟩⟩
    obtain ⟨-, hroots, hparent⟩ :=
      (forest_iff h.ids fun i hi => (h.node i hi).shape.id_ne).mp h.forest
    have hshape : ∀ (i : Fin 8) r, records[i] = some r → r.Shape :=
      fun i r hr => (h.record i r hr).shape
    refine ⟨header_validate_eq_ok.mpr h.head, hnodes, hroots, hparent, hvalid, hmarks, ?_,
      fun s => ?_⟩
    · refine (owned_nodup_iff h.ids ?_ ?_ fun i i' j => shares_alone hshape h.events).mpr
        h.exclusive
      · exact fun i => nodup_nodeSectors fun hi => (hnodes i hi).shape
      · exact fun i => nodup_recordSectors fun r hr => hshape i r hr
    · rw [h.map_iff, mem_owned_iff h.ids]

/-- The validator accepts exactly the well-formed generations. -/
theorem validateGeneration_iff_wellFormed (header : Header7) (nodes : Nodes7) (records : Records7)
    (map : SpaceMap) :
    validateGeneration header nodes records map = .ok () ↔ WellFormed header nodes records map :=
  validateGeneration_eq_ok.trans validGeneration_iff

end RusticOs.Fs
