import RusticOs.Proofs.Codec7

/-!
# `RusticOs.Proofs.Validation7`: what a valid generation is

`validateGeneration_eq_ok` reads the validator as a structure, `ValidGeneration`, whose
fields are the facts the rest of the development uses: every live node has a proper shape
and a unique identity, every retained record is bounded by the header, and the bitmap is
exactly the list of owned sectors, each owned once.

* `markSectors_eq_ok`: marking succeeds exactly on distinct unmarked sectors.
* `ValidGeneration.node_sectors`, `ValidGeneration.record_sectors`: every sector of a live
  file or a retained snapshot is allocated.
-/

set_option autoImplicit false

namespace RusticOs.Fs

open RusticOs.Lib

/-! ### Marking -/

/-- Marking succeeds exactly on distinct sectors that are not marked yet. -/
theorem markSectors_eq_ok {scratch result : SpaceMap} {l : List Nat}
    (hl : ∀ s ∈ l, s < dataSectors) :
    markSectors scratch l = .ok result ↔ l.Nodup ∧ (∀ s ∈ l, Bitmap.get scratch s = false)
      ∧ result = Bitmap.setAll scratch l true := by
  induction l generalizing scratch with
  | nil =>
    simp only [markSectors, Except.ok.injEq, List.nodup_nil, List.not_mem_nil, false_implies,
      implies_true, true_and, Bitmap.setAll, List.foldl_nil]
    exact eq_comm
  | cons s l ih =>
    have hs : s < 64 * 2048 := hl s List.mem_cons_self
    have htail : ∀ t ∈ l, t < dataSectors := fun t ht => hl t (List.mem_cons_of_mem _ ht)
    simp only [markSectors, except_bind_eq_ok, reject_eq_ok, ih htail, List.nodup_cons,
      List.forall_mem_cons, Bitmap.get_set scratch hs]
    constructor
    · rintro ⟨_, hfree, hnodup, hrest, rfl⟩
      have hmem : s ∉ l := by
        intro hmem
        simpa using hrest s hmem
      refine ⟨⟨hmem, hnodup⟩, ⟨by simpa using hfree, fun t ht => ?_⟩, rfl⟩
      have hne : s ≠ t := fun h => hmem (h ▸ ht)
      simpa [hne] using hrest t ht
    · rintro ⟨⟨hmem, hnodup⟩, ⟨hfree, hrest⟩, rfl⟩
      refine ⟨(), by simp [hfree], hnodup, fun t ht => ?_, rfl⟩
      have hne : s ≠ t := fun h => hmem (h ▸ ht)
      simpa [hne] using hrest t ht

theorem markSectors_append (scratch : SpaceMap) (a b : List Nat) :
    markSectors scratch (a ++ b) = markSectors scratch a >>= fun m => markSectors m b := by
  induction a generalizing scratch with
  | nil => rfl
  | cons s a ih =>
    simp only [List.cons_append, markSectors, ih]
    cases reject (Bitmap.get scratch s = true) Error.corrupt <;> rfl

/-- A loop that checks each element and marks its sectors marks the concatenation. -/
theorem foldlM_mark {α : Type} {f : SpaceMap → α → Except Error SpaceMap} {P : α → Prop}
    {g : α → List Nat} {l : List α}
    (hf : ∀ a ∈ l, ∀ m m', f m a = .ok m' ↔ P a ∧ markSectors m (g a) = .ok m')
    {scratch result : SpaceMap} :
    l.foldlM f scratch = .ok result
      ↔ (∀ a ∈ l, P a) ∧ markSectors scratch (l.flatMap g) = .ok result := by
  induction l generalizing scratch with
  | nil => simp [markSectors, pure, Except.pure]
  | cons a l ih =>
    rw [List.foldlM_cons, except_bind_eq_ok, List.flatMap_cons, markSectors_append,
      except_bind_eq_ok, List.forall_mem_cons]
    constructor
    · rintro ⟨m, hm, hl⟩
      obtain ⟨hP, hm⟩ := (hf a List.mem_cons_self _ _).mp hm
      obtain ⟨hPs, hl⟩ := (ih fun b hb => hf b (List.mem_cons_of_mem _ hb)).mp hl
      exact ⟨⟨hP, hPs⟩, m, hm, hl⟩
    · rintro ⟨⟨hP, hPs⟩, m, hm, hl⟩
      exact ⟨m, (hf a List.mem_cons_self _ _).mpr ⟨hP, hm⟩,
        (ih fun b hb => hf b (List.mem_cons_of_mem _ hb)).mpr ⟨hPs, hl⟩⟩

/-! ### Ownership -/

/-- The sectors a node owns. -/
def nodeSectors (node : Node7) : List Nat := if node.kind = .file then runSectors node.runs else []

/-- The sectors a retained slot owns alone. -/
def recordSectors (nodes : Nodes7) : Option Record7 → List Nat
  | none => []
  | some record => if aliasesCurrentFile record nodes then [] else runSectors record.runs

/-- The sectors live files and retained snapshots own, in marking order. -/
def owned (nodes : Nodes7) (records : Records7) : List Nat :=
  nodes.toList.flatMap nodeSectors ++ records.toList.flatMap (recordSectors nodes)

theorem markNode_eq_ok {node : Node7} {m m' : SpaceMap} :
    markNode m node = .ok m' ↔ True ∧ markSectors m (nodeSectors node) = .ok m' := by
  have hiff : (node.kind = .file ∧ node ≠ Node7.empty) ↔ node.kind = .file := by
    refine and_iff_left_of_imp ?_
    rintro h rfl
    cases h
  simp only [markNode, nodeSectors, hiff, true_and]
  split <;> rfl

/-- What marking checks of a retained slot. -/
structure ReceiptMarks (nodes : Nodes7) (receipts : Records7) (slot : Fin 8) : Prop where
  crc : ∀ r, receipts[slot] = some r → r.length = 0 → r.payloadCrc32 = crc []
  alone : ∀ r, receipts[slot] = some r → aliasesCurrentFile r nodes = true →
    ∀ j < slot, ∀ prior, receipts[j] = some prior → prior.object = r.object →
      aliasesCurrentFile prior nodes = false

variable {nodes : Nodes7} {header : Header7} {records : Records7}

theorem markReceipt_eq_ok {receipts : Records7} {slot : Fin 8} {m m' : SpaceMap} :
    markReceipt nodes receipts m slot = .ok m' ↔ ReceiptMarks nodes receipts slot
      ∧ markSectors m (recordSectors nodes receipts[slot]) = .ok m' := by
  unfold markReceipt
  cases hr : receipts[slot] with
  | none =>
    refine ⟨fun h => ⟨⟨?_, ?_⟩, h⟩, fun h => h.2⟩
    · rw [hr]
      simp
    · rw [hr]
      simp
  | some r =>
    simp only [except_bind_eq_ok, reject_eq_ok, recordSectors]
    have hcrc : (¬ (r.length = 0 ∧ r.payloadCrc32 ≠ Fs.crc [])) ↔
        ∀ r', receipts[slot] = some r' → r'.length = 0 → r'.payloadCrc32 = Fs.crc [] := by
      rw [hr]
      simp
    by_cases ha : aliasesCurrentFile r nodes = true
    · simp only [ha, if_true, markSectors, except_bind_eq_ok, reject_eq_ok]
      have halone : (¬ ∃ j : Fin 8, j < slot ∧ receipts[j].any (fun prior =>
            decide (prior.object = r.object) && aliasesCurrentFile prior nodes) = true) ↔
          ∀ r', receipts[slot] = some r' → aliasesCurrentFile r' nodes = true →
            ∀ j < slot, ∀ prior, receipts[j] = some prior → prior.object = r'.object →
              aliasesCurrentFile prior nodes = false := by
        rw [hr]
        simp only [Option.some.injEq, forall_eq', ha, forall_const, not_exists, not_and,
          Option.any_eq_true, Bool.and_eq_true, decide_eq_true_eq, Bool.not_eq_true]
      constructor
      · rintro ⟨_, h1, _, h2, h3⟩
        exact ⟨⟨hcrc.mp h1, halone.mp h2⟩, h3⟩
      · rintro ⟨⟨h1, h2⟩, h3⟩
        exact ⟨(), hcrc.mpr h1, (), halone.mpr h2, h3⟩
    · simp only [ha, markRuns]
      constructor
      · rintro ⟨_, h1, h2⟩
        refine ⟨⟨hcrc.mp h1, fun r' hr' halias => ?_⟩, h2⟩
        rw [hr, Option.some.injEq] at hr'
        exact absurd (hr' ▸ halias) ha
      · rintro ⟨h, h2⟩
        exact ⟨(), hcrc.mpr h.crc, h2⟩

/-! ### The namespace -/

/-- What holds of a live node slot. -/
structure NodeValid (header : Header7) (nodes : Nodes7) (index : Fin 256) : Prop where
  shape : nodes[index].Shape
  crc : nodes[index].kind = .file → nodes[index].length = 0 → nodes[index].payloadCrc32 = crc []
  id_lt : nodes[index].id < header.next
  version_le : nodes[index].version ≤ header.sequence
  unique : ∀ j < index, nodes[j] ≠ Node7.empty → nodes[j].id ≠ nodes[index].id
    ∧ ¬ (nodes[j].parent = nodes[index].parent ∧ nodes[j].name = nodes[index].name)
  top : nodes[index].parent = 0 → checkTop nodes[index] = .ok ()

theorem checkNode_eq_ok {index : Fin 256} :
    checkNode header nodes index = .ok ()
      ↔ nodes[index] ≠ Node7.empty → NodeValid header nodes index := by
  simp only [checkNode]
  by_cases hempty : nodes[index] = Node7.empty
  · have hval : nodes[index].validate = .ok () := Node7.validate_eq_ok.mpr (Or.inl hempty)
    rw [if_pos hempty, hval]
    exact ⟨fun _ hne => absurd hempty hne, fun _ => rfl⟩
  · have htop : (if nodes[index].parent = 0 then checkTop nodes[index] else pure ()) = .ok ()
        ↔ (nodes[index].parent = 0 → checkTop nodes[index] = .ok ()) := by
      split
      · rename_i h
        exact ⟨fun hc _ => hc, fun hc => hc h⟩
      · rename_i h
        exact ⟨fun _ hz => absurd hz h, fun _ => rfl⟩
    simp only [except_bind_eq_ok, reject_eq_ok, hempty, if_false, htop, ne_eq, not_false_eq_true,
      forall_const]
    constructor
    · rintro ⟨_, h1, _, h2, _, h3, _, h4, h5⟩
      refine ⟨(Node7.validate_eq_ok.mp h1).resolve_left hempty, fun hk hl => ?_, ?_, ?_,
        fun j hj hne => ?_, h5⟩
      · by_contra hc
        exact h2 ⟨hk, hl, hc⟩
      · exact UInt32.not_le.mp fun h => h3 (Or.inl h)
      · exact UInt64.not_lt.mp fun h => h3 (Or.inr h)
      · exact ⟨fun h => h4 ⟨j, hj, hne, Or.inl h⟩, fun h => h4 ⟨j, hj, hne, Or.inr h⟩⟩
    · intro h
      refine ⟨(), Node7.validate_eq_ok.mpr (Or.inr h.shape), (), ?_, (), ?_, (), ?_, h.top⟩
      · rintro ⟨hk, hl, hc⟩
        exact hc (h.crc hk hl)
      · rintro (hid | hver)
        · exact UInt32.not_le.mpr h.id_lt hid
        · exact UInt64.not_lt.mpr h.version_le hver
      · rintro ⟨j, hj, hne, hid | hname⟩
        · exact (h.unique j hj hne).1 hid
        · exact (h.unique j hj hne).2 hname

/-- What holds of a retained slot. -/
structure RecordValid (header : Header7) (nodes : Nodes7) (receipts : Records7) (index : Fin 8)
    (record : Record7) : Prop where
  bounds : record.validate header.sequence header.next = .ok ()
  epoch : record.retryEpoch = header.epoch
  target : validateReceiptTarget record nodes = .ok ()
  consistent : ∀ j < index, ∀ prior, receipts[j] = some prior → contradicts record prior = false

theorem checkReceipt_eq_ok {receipts : Records7} {index : Fin 8} :
    checkReceipt header nodes receipts index = .ok ()
      ↔ ∀ record, receipts[index] = some record →
        RecordValid header nodes receipts index record := by
  unfold checkReceipt
  cases hr : receipts[index] with
  | none => simp
  | some record =>
    simp only [except_bind_eq_ok, reject_eq_ok, Option.some.injEq, forall_eq']
    constructor
    · rintro ⟨_, h1, _, h2, _, h3, h4⟩
      refine ⟨h1, not_not.mp h2, h3, fun j hj prior hprior => ?_⟩
      rw [← Bool.not_eq_true]
      intro hc
      exact h4 ⟨j, hj, by rw [hprior]; exact hc⟩
    · intro h
      refine ⟨(), h.bounds, (), not_not.mpr h.epoch, (), h.target, ?_⟩
      rintro ⟨j, hj, hany⟩
      obtain ⟨prior, hprior, hc⟩ := (Option.any_eq_true _ _).mp hany
      rw [h.consistent j hj prior hprior] at hc
      cases hc

theorem Record7.Shape.of_validate {r : Record7} {sequence : UInt64} {next : UInt32}
    (h : r.validate sequence next = .ok ()) : r.Shape := by
  simp only [Record7.validate, except_bind_eq_ok] at h
  obtain ⟨_, _, _, h, _⟩ := h
  exact Record7.checkLocal_eq_ok.mp h

/-! ### The generation -/

/-- A valid generation. -/
structure ValidGeneration (header : Header7) (nodes : Nodes7) (records : Records7)
    (map : SpaceMap) : Prop where
  head : header.validate = .ok ()
  node : ∀ i : Fin 256, nodes[i] ≠ Node7.empty → NodeValid header nodes i
  roots : ∀ root : Fin 4, ∃ i : Fin 256, nodes[i] ≠ Node7.empty ∧ nodes[i].parent = 0
    ∧ nodes[i].id.toNat = root.val + 1
  parent : ∀ i : Fin 256, checkParent nodes i = .ok ()
  record : ∀ (i : Fin 8) (r : Record7), records[i] = some r → RecordValid header nodes records i r
  marks : ∀ i : Fin 8, ReceiptMarks nodes records i
  nodup : (owned nodes records).Nodup
  map_iff : ∀ s, Bitmap.get map s = true ↔ s ∈ owned nodes records

theorem node_shape_of (h : ∀ i : Fin 256, nodes[i] ≠ Node7.empty → NodeValid header nodes i)
    {node : Node7} (hmem : node ∈ nodes.toList) (hne : node ≠ Node7.empty) : node.Shape := by
  obtain ⟨i, hi, rfl⟩ := List.getElem_of_mem hmem
  rw [Vector.length_toList] at hi
  have := (h ⟨i, hi⟩ (by simpa using hne)).shape
  simpa using this

theorem owned_lt (hnodes : ∀ n ∈ nodes.toList, n ≠ Node7.empty → n.Shape)
    (hrecords : ∀ (i : Fin 8) (r : Record7), records[i] = some r → r.Shape) {s : Nat}
    (hs : s ∈ owned nodes records) : s < dataSectors := by
  rcases List.mem_append.mp hs with hs | hs
  · obtain ⟨n, hn, hs⟩ := List.mem_flatMap.mp hs
    unfold nodeSectors at hs
    split at hs
    · rename_i hk
      refine (hnodes n hn ?_).payload.lt hs
      rintro rfl
      cases hk
    · cases hs
  · obtain ⟨o, ho, hs⟩ := List.mem_flatMap.mp hs
    obtain ⟨i, hi, rfl⟩ := List.getElem_of_mem ho
    rw [Vector.length_toList] at hi
    cases hr : records.toList[i] with
    | none => simp [hr, recordSectors] at hs
    | some r =>
      rw [hr, recordSectors] at hs
      split at hs
      · cases hs
      · exact (hrecords ⟨i, hi⟩ r (by simpa using hr)).payload.lt hs

/-- A bitmap is the marks of a list exactly when its bits are the list. -/
theorem setAll_zero_iff {l : List Nat} (hl : ∀ s ∈ l, s < dataSectors) {map : SpaceMap} :
    Bitmap.setAll (Vector.replicate 2048 0) l true = map
      ↔ ∀ s, Bitmap.get map s = true ↔ s ∈ l := by
  have hget :
      ∀ s, Bitmap.get (Bitmap.setAll (Vector.replicate 2048 0) l true) s = true ↔ s ∈ l := by
    intro s
    rw [Bitmap.get_setAll _ hl, Bitmap.get_zero]
    simp
  constructor
  · rintro rfl
    exact hget
  · intro h
    apply Bitmap.ext_get
    intro s _
    rw [Bool.eq_iff_iff, hget, h]

theorem flatMap_finRange_records (nodes : Nodes7) (records : Records7) :
    (List.finRange 8).flatMap (fun i => recordSectors nodes records[i])
      = records.toList.flatMap (recordSectors nodes) := by
  have hlist : records.toList = (List.finRange 8).map fun i => records[i] := by
    apply List.ext_getElem
    · simp
    · intro i h1 h2
      simp
  rw [hlist, List.flatMap_map]

/-- The validator accepts exactly the valid generations. -/
theorem validateGeneration_eq_ok {map : SpaceMap} :
    validateGeneration header nodes records map = .ok ()
      ↔ ValidGeneration header nodes records map := by
  have hnodes : validateNodes header nodes = .ok () ↔
      (∀ i : Fin 256, nodes[i] ≠ Node7.empty → NodeValid header nodes i)
      ∧ (∀ root : Fin 4, ∃ i : Fin 256, nodes[i] ≠ Node7.empty ∧ nodes[i].parent = 0
        ∧ nodes[i].id.toNat = root.val + 1)
      ∧ (∀ i : Fin 256, checkParent nodes i = .ok ()) := by
    simp only [validateNodes, except_bind_eq_ok, checkAll_eq_ok, reject_eq_ok, List.mem_finRange,
      forall_const, checkNode_eq_ok, not_exists, not_forall, not_not]
    constructor
    · rintro ⟨_, h1, _, h2, h3⟩
      exact ⟨h1, h2, h3⟩
    · rintro ⟨h1, h2, h3⟩
      exact ⟨(), h1, (), h2, h3⟩
  have hreceipts : validateReceipts header nodes records = .ok () ↔
      ∀ (i : Fin 8) (r : Record7), records[i] = some r →
        RecordValid header nodes records i r := by
    simp only [validateReceipts, checkAll_eq_ok, List.mem_finRange, forall_const,
      checkReceipt_eq_ok]
  simp only [validateGeneration, except_bind_eq_ok, hnodes, hreceipts, reject_eq_ok, not_not,
    foldlM_mark (P := fun _ => True) (g := nodeSectors) fun _ _ _ _ => markNode_eq_ok,
    foldlM_mark (P := ReceiptMarks nodes records) (g := fun i => recordSectors nodes records[i])
      fun _ _ _ _ => markReceipt_eq_ok,
    flatMap_finRange_records, List.mem_finRange, forall_const]
  constructor
  · rintro ⟨_, h1, _, ⟨h2, h3, h4⟩, _, h5, m1, ⟨-, h6⟩, m2, ⟨h7, h8⟩, rfl⟩
    have hlt : ∀ s ∈ owned nodes records, s < dataSectors := fun s hs =>
      owned_lt (fun n hn hne => node_shape_of h2 hn hne)
        (fun i r hr => .of_validate (h5 i r hr).bounds) hs
    have hmark : markSectors (Vector.replicate 2048 0) (owned nodes records) = .ok m2 := by
      rw [owned, markSectors_append, h6]
      exact h8
    obtain ⟨h9, -, h10⟩ := (markSectors_eq_ok hlt).mp hmark
    exact ⟨h1, h2, h3, h4, h5, h7, h9, (setAll_zero_iff hlt).mp h10.symm⟩
  · rintro ⟨h1, h2, h3, h4, h5, h6, h7, h8⟩
    have hlt : ∀ s ∈ owned nodes records, s < dataSectors := fun s hs =>
      owned_lt (fun n hn hne => node_shape_of h2 hn hne)
        (fun i r hr => .of_validate (h5 i r hr).bounds) hs
    have hmark : markSectors (Vector.replicate 2048 0) (owned nodes records) = .ok map :=
      (markSectors_eq_ok hlt).mpr ⟨h7, fun s _ => Bitmap.get_zero s,
        ((setAll_zero_iff hlt).mpr h8).symm⟩
    rw [owned, markSectors_append, except_bind_eq_ok] at hmark
    obtain ⟨m1, hm1, hm2⟩ := hmark
    exact ⟨(), h1, (), ⟨h2, h3, h4⟩, (), h5, m1, ⟨fun _ _ => trivial, hm1⟩, map, ⟨h6, hm2⟩, rfl⟩

/-- The elements of a table are the contents of its slots. -/
theorem mem_toList_slots {α : Type} {n : Nat} {v : Vector α n} {a : α} :
    a ∈ v.toList ↔ ∃ i : Fin n, v[i] = a := by
  rw [Vector.mem_toList_iff, Vector.mem_iff_getElem]
  constructor
  · rintro ⟨i, hi, ha⟩
    exact ⟨⟨i, hi⟩, ha⟩
  · rintro ⟨i, ha⟩
    exact ⟨i.val, i.isLt, ha⟩

theorem mem_toList_records {r : Record7} :
    some r ∈ records.toList ↔ ∃ i : Fin 8, records[i] = some r := mem_toList_slots

theorem mem_toList_nodes {n : Node7} :
    n ∈ nodes.toList ↔ ∃ i : Fin 256, nodes[i] = n := mem_toList_slots

theorem findNode_some {id : UInt32} {n : Node7} (h : findNode nodes id = some n) :
    n ∈ nodes.toList ∧ n ≠ Node7.empty ∧ n.id = id := by
  have hp := List.find?_some h
  rw [decide_eq_true_eq] at hp
  exact ⟨List.mem_of_find?_eq_some h, hp⟩

/-- A record that is the current version of a file has that file's payload. -/
theorem aliasesCurrentFile_spec {record : Record7} (h : aliasesCurrentFile record nodes = true) :
    ∃ n ∈ nodes.toList, n.kind = .file ∧ n.id = record.object ∧ n.version = record.committed
      ∧ n.length = record.length ∧ n.payloadCrc32 = record.payloadCrc32 ∧ n.runs = record.runs := by
  unfold aliasesCurrentFile at h
  rw [Bool.and_eq_true] at h
  cases hf : findNode nodes record.object with
  | none => simp [hf] at h
  | some n =>
    obtain ⟨hmem, -, hid⟩ := findNode_some hf
    simp only [hf, matchesCommittedContent, Bool.and_eq_true, decide_eq_true_eq] at h
    obtain ⟨-, hver, ⟨⟨⟨hkind, hlen⟩, hcrc⟩, hused⟩, hext⟩ := h
    exact ⟨n, hmem, hkind, hid, hver, hlen, hcrc, by rw [Node7.runs, Record7.runs, hused, hext]⟩

namespace ValidGeneration

variable {header : Header7} {nodes : Nodes7} {records : Records7} {map : SpaceMap}

variable (h : ValidGeneration header nodes records map)
include h

theorem node_shape {n : Node7} (hn : n ∈ nodes.toList) (hne : n ≠ Node7.empty) :
    n.Shape := node_shape_of h.node hn hne

theorem node_validate {n : Node7} (hn : n ∈ nodes.toList) : n.validate = .ok () := by
  by_cases hne : n = Node7.empty
  · exact Node7.validate_eq_ok.mpr (Or.inl hne)
  · exact Node7.validate_eq_ok.mpr (Or.inr (h.node_shape hn hne))

theorem file_shape {n : Node7} (hn : n ∈ nodes.toList) (hk : n.kind = .file) : n.Shape := by
  refine h.node_shape hn ?_
  rintro rfl
  cases hk

theorem record_shape {i : Fin 8} {r : Record7} (hr : records[i] = some r) :
    r.Shape := .of_validate (h.record i r hr).bounds

/-- Every sector of a live file is allocated. -/
theorem node_sectors {n : Node7} (hn : n ∈ nodes.toList) (hk : n.kind = .file) {s : Nat}
    (hs : s ∈ runSectors n.runs) : Bitmap.get map s = true := by
  rw [h.map_iff]
  apply List.mem_append_left
  rw [List.mem_flatMap]
  refine ⟨n, hn, ?_⟩
  rw [nodeSectors, if_pos hk]
  exact hs

/-- Every sector of a retained snapshot is allocated. -/
theorem record_sectors {i : Fin 8} {r : Record7} (hr : records[i] = some r) {s : Nat}
    (hs : s ∈ runSectors r.runs) : Bitmap.get map s = true := by
  by_cases ha : aliasesCurrentFile r nodes = true
  · obtain ⟨n, hn, hk, -, -, -, -, hruns⟩ := aliasesCurrentFile_spec ha
    exact h.node_sectors hn hk (hruns ▸ hs)
  · rw [h.map_iff]
    apply List.mem_append_right
    rw [List.mem_flatMap]
    refine ⟨some r, mem_toList_records.mpr ⟨i, hr⟩, ?_⟩
    rw [recordSectors, if_neg ha]
    exact hs

end ValidGeneration

/-- The checksums of the header play no part in validation. -/
theorem validateGeneration_checksums (header : Header7) (nodes : Nodes7) (records : Records7)
    (map : SpaceMap) (a b c : UInt32) :
    validateGeneration
      { header with nodesChecksum := a, mapChecksum := b, receiptsChecksum := c } nodes records map
      = validateGeneration header nodes records map := rfl

end RusticOs.Fs
