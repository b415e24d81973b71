import RusticOs.Proofs.Crash7
import RusticOs.Proofs.Reads7
import RusticOs.Service7.Server

/-!
# `RusticOs.Proofs.Lookups7`: lookups of the v7 service reveal only visible records

Two servers `Agree` for a grant when they have the same namespace, lineage and epoch, the
same records of the grant's subject that its scope can see, with the same snapshot bytes, and
disks that answer alike. Everything else may differ: the other records, their slots, the
sequence, the transfers.

- `find?_filter_eq_some`: a search for a key that at most one element has, followed by a
  visibility test, finds exactly the visible element with that key. A valid volume gives
  every retry scope and every event number to at most one record.
- `byId_congr`, `byRetry_congr`, `lookupRecord_congr`: so the three searches of the service
  agree.
- `snapshotBytes_congr`: reading a snapshot ends the same way on both disks.
- `lookup_noninterference`: the replies are the same.
-/

set_option autoImplicit false

namespace RusticOs.Service7

open RusticOs.Lib RusticOs.Lib.Fallible RusticOs.Abi
open RusticOs.Fs (World7 Volume7 Record7 Block payload)

/-! ### Searches for a unique key -/

/-- A search for a key followed by a test, when at most one element has the key. -/
theorem find?_filter_eq_some {α : Type} {l : List α} {key test : α → Bool}
    (unique : ∀ a ∈ l, ∀ b ∈ l, key a = true → key b = true → a = b) {a : α} :
    (l.find? key).filter test = some a ↔ a ∈ l ∧ key a = true ∧ test a = true := by
  rw [Option.filter_eq_some_iff]
  constructor
  · intro h
    exact ⟨List.mem_of_find?_eq_some h.1, List.find?_some h.1, h.2⟩
  · intro h
    -- the search finds some element with the key, which is `a`
    cases hfind : l.find? key with
    | none => exact absurd h.2.1 (List.find?_eq_none.mp hfind a h.1)
    | some b =>
      have hab := unique b (List.mem_of_find?_eq_some hfind) a h.1 (List.find?_some hfind) h.2.1
      rw [hab]
      exact ⟨rfl, h.2.2⟩

/-- Two lists that agree on the elements passing key and test are searched alike. -/
theorem find?_filter_congr {α : Type} {l l' : List α} {key test : α → Bool}
    (unique : ∀ a ∈ l, ∀ b ∈ l, key a = true → key b = true → a = b)
    (unique' : ∀ a ∈ l', ∀ b ∈ l', key a = true → key b = true → a = b)
    (same : ∀ a, key a = true → test a = true → (a ∈ l ↔ a ∈ l')) :
    (l.find? key).filter test = (l'.find? key).filter test := by
  apply Option.ext
  intro a
  rw [find?_filter_eq_some unique, find?_filter_eq_some unique']
  constructor
  · intro h
    exact ⟨(same a h.2.1 h.2.2).mp h.1, h.2⟩
  · intro h
    exact ⟨(same a h.2.1 h.2.2).mpr h.1, h.2⟩

/-! ### Valid volumes -/

/-- The retained records of a volume. -/
def recordsOf (v : Volume7) : List Record7 := v.records.toList.reduceOption

variable {v : Volume7} {r r' : Record7}

theorem mem_recordsOf : r ∈ recordsOf v ↔ ∃ i : Fin 8, v.records[i] = some r := by
  rw [recordsOf, List.reduceOption_mem_iff, Fs.mem_toList_records]

/-- Records that contradict each other are one record. -/
theorem eq_of_contradicts (hv : v.Valid) (hr : r ∈ recordsOf v) (hr' : r' ∈ recordsOf v)
    (h : Fs.contradicts r r' = true) (h' : Fs.contradicts r' r = true) : r = r' := by
  obtain ⟨i, hi⟩ := mem_recordsOf.mp hr
  obtain ⟨j, hj⟩ := mem_recordsOf.mp hr'
  rcases lt_trichotomy i j with hlt | heq | hlt
  · exact absurd h' (Bool.eq_false_iff.mp ((hv.record j r' hj).consistent i hlt r hi))
  · rw [heq, hj] at hi
    exact (Option.some.inj hi).symm
  · exact absurd h (Bool.eq_false_iff.mp ((hv.record i r hi).consistent j hlt r' hj))

/-- A retry scope belongs to one record. -/
theorem eq_of_scope (hv : v.Valid) (hr : r ∈ recordsOf v) (hr' : r' ∈ recordsOf v)
    (h : r.scope = r'.scope) : r = r' := by
  obtain ⟨i, hi⟩ := mem_recordsOf.mp hr
  obtain ⟨j, hj⟩ := mem_recordsOf.mp hr'
  rw [hv.scope_inj hi hj h, hj] at hi
  exact (Option.some.inj hi).symm

/-- An event number belongs to one record. -/
theorem eq_of_event (hv : v.Valid) (hr : r ∈ recordsOf v) (hr' : r' ∈ recordsOf v) {n : UInt64}
    (hn : n ≠ 0) (h : n ∈ Fs.eventSequences r) (h' : n ∈ Fs.eventSequences r') : r = r' := by
  have hshare : ∀ a b : Record7, n ∈ Fs.eventSequences a → n ∈ Fs.eventSequences b →
      Fs.contradicts a b = true := by
    intro a b ha hb
    have hs : Fs.shareEventSequence a b = true := by
      rw [Fs.shareEventSequence, List.any_eq_true]
      exact ⟨n, ha, by simp [hn, hb]⟩
    simp [Fs.contradicts, hs]
  exact eq_of_contradicts hv hr hr' (hshare r r' h h') (hshare r' r h' h)

theorem scope_of_named {subject : UInt64} {workspace : Workspace} {retry : Retry}
    (h : Named subject workspace retry r) :
    r.scope = ⟨subject, workspace.root, retry.epoch.value, retry.key.value⟩ := by
  rw [Record7.scope, h.1, h.2.1, h.2.2.1, h.2.2.2]

/-! ### Agreement -/

/-- A record of the grant's subject that its scope can see. -/
structure Sees (v : Volume7) (grant : Grant7) (r : Record7) : Prop where
  own : r.subject = grant.subject
  visible : visible v grant r = true

/-- What two servers must share for the lookups of a grant. -/
structure Agree (grant : Grant7) (s t : Service) : Prop where
  fenced : s.world.volume.fenced = t.world.volume.fenced
  nodes : s.world.volume.nodes = t.world.volume.nodes
  lineage : s.world.volume.header.lineage = t.world.volume.header.lineage
  epoch : s.world.volume.header.epoch = t.world.volume.header.epoch
  records : ∀ r, Sees s.world.volume grant r →
    (r ∈ recordsOf s.world.volume ↔ r ∈ recordsOf t.world.volume)
  snapshots : ∀ r ∈ recordsOf s.world.volume, Sees s.world.volume grant r →
    payload s.world.disk.medium.view r.runs r.length.toNat
      = payload t.world.disk.medium.view r.runs r.length.toNat
  disks : Device.Alike s.world.disk.medium.view t.world.disk.medium.view s.world.disk t.world.disk

section
variable {v v' : Volume7} (hf : v.fenced = v'.fenced) (hn : v.nodes = v'.nodes)
include hf hn

theorem stat_congr (id : UInt32) : v.stat id = v'.stat id := by
  simp only [Volume7.stat, Volume7.ready, hf, hn]

theorem node_congr (id : UInt32) : node v id = node v' id := by
  simp only [node, stat_congr hf hn]

theorem ascend_congr (ancestor : UInt32) (fuel : Nat) (current : Fs.Node7) :
    ascend v ancestor fuel current = ascend v' ancestor fuel current := by
  -- one parent link a turn
  induction fuel generalizing current with
  | zero => rfl
  | succ fuel ih => simp only [ascend, node_congr hf hn, ih]

theorem within_congr (resource ancestor : Fs.Node7) :
    within v resource ancestor = within v' resource ancestor := by
  simp only [within, ascend_congr hf hn]

theorem visible_congr (grant : Grant7) (r : Record7) : visible v grant r = visible v' grant r := by
  have hplaced : ∀ n, placed v n = placed v' n := by
    intro n
    funext id
    simp only [placed, node_congr hf hn, within_congr hf hn]
  simp only [visible, retainedVisible, node_congr hf hn, hplaced]

end

/-! ### Searches -/

section
variable {grant : Grant7} {s t : Service}

/-- A search of the grant's own records for a unique key agrees. -/
theorem Agree.find (h : Agree grant s t) {key : Record7 → Bool}
    (own : ∀ r, key r = true → r.subject = grant.subject)
    (unique : ∀ v : Volume7, v.Valid → ∀ a ∈ recordsOf v, ∀ b ∈ recordsOf v,
      key a = true → key b = true → a = b)
    (hs : s.world.volume.Valid) (ht : t.world.volume.Valid) :
    ((recordsOf s.world.volume).find? key).filter (visible s.world.volume grant)
      = ((recordsOf t.world.volume).find? key).filter (visible t.world.volume grant) := by
  have hvisible : visible t.world.volume grant = visible s.world.volume grant := by
    funext r
    rw [visible_congr h.fenced h.nodes]
  rw [hvisible]
  apply find?_filter_congr (unique _ hs) (unique _ ht)
  intro r hkey hvis
  exact h.records r ⟨own r hkey, hvis⟩

end

/-- A fenced volume refuses, an unfenced one answers. -/
theorem header_fenced {v : Volume7} (h : v.fenced = true) : header v = .error .uncertain := by
  simp [header, Volume7.ready, reject, h, bind, Except.bind]

theorem header_ready {v : Volume7} (h : v.fenced = false) : header v = .ok v.header := by
  simp [header, Volume7.ready, reject, h, bind, Except.bind, pure, Except.pure]

theorem retainedRecords_ready {v : Volume7} (h : v.fenced = false) :
    retainedRecords v = .ok (recordsOf v) := by
  simp [retainedRecords, recordsOf, Volume7.ready, reject, h, bind, Except.bind, pure, Except.pure]

theorem reported_ok {α : Type} (a : α) : reported (.ok a) = .ok a := rfl

section
variable {v : Volume7} {grant : Grant7}

/-- The record with a key among the retained ones, when the grant sees it. -/
def search (v : Volume7) (grant : Grant7) (lineage : Bytes 16) (missing : Fs.Header7 → Error)
    (key : Record7 → Bool) : Except Error Record7 := do
  let h ← reported (header v)
  reject (lineage ≠ h.lineage) .lineage
  let records ← reported (retainedRecords v)
  orRefuse (missing h) ((records.find? key).filter (visible v grant))

variable {lineage : Bytes 16} {missing : Fs.Header7 → Error} {key : Record7 → Bool}

theorem search_fenced (h : v.fenced = true) :
    search v grant lineage missing key = .error .uncertain := by
  unfold search
  rw [header_fenced h]
  rfl

theorem search_ready (h : v.fenced = false) :
    search v grant lineage missing key = (do
      reject (lineage ≠ v.header.lineage) .lineage
      orRefuse (missing v.header) (((recordsOf v).find? key).filter (visible v grant))) := by
  unfold search
  rw [header_ready h, retainedRecords_ready h]
  rfl

/-- The lineage a lookup names. -/
def lookupLineage : Lookup → Bytes 16
  | .id id => id.lineage
  | .retry workspace _ => workspace.lineage

/-- The key a lookup searches for among the subject's records. -/
def lookupKey (grant : Grant7) : Lookup → Record7 → Bool
  | .id id, r => r.subject = grant.subject && r.committed = id.number
  | .retry workspace retry, r => Named grant.subject workspace retry r

/-- What a missing or hidden record is answered with. -/
def lookupMissing (h : Fs.Header7) : Lookup → Error
  | .id _ => .outcomeUnknown
  | .retry _ retry => hidden h retry

/-- A search by number, as a search followed by a test. -/
theorem reject_visible (found : Option Record7) (e : Error) :
    (do
      let r ← orRefuse e found
      reject (visible v grant r = false) e
      pure r) = orRefuse e (found.filter (visible v grant)) := by
  cases found with
  | none => rfl
  | some r =>
    cases hvis : visible v grant r with
    | false => simp [hvis, reject, Option.filter]
    | true => simp [hvis, reject, Option.filter, pure, Except.pure]

/-- A lookup is a search; by number it tests what it found afterwards. -/
theorem lookupRecord_eq (query : Lookup) :
    lookupRecord v grant query
      = search v grant (lookupLineage query) (lookupMissing · query) (lookupKey grant query) := by
  unfold lookupRecord
  cases hf : v.fenced with
  | true =>
    rw [search_fenced hf, header_fenced hf]
    rfl
  | false =>
    rw [search_ready hf, header_ready hf, retainedRecords_ready hf]
    cases query with
    | id id =>
      simp only [reported_ok, ok_bind, reject_visible]
      rfl
    | retry workspace retry => rfl

end

/-! ### The searches agree -/

section
variable {grant : Grant7} {s t : Service}

/-- The key of a lookup belongs to one record. -/
theorem lookupKey_unique {v : Volume7} (hv : v.Valid) (query : Lookup) {a b : Record7}
    (ha : a ∈ recordsOf v) (hb : b ∈ recordsOf v) (hka : lookupKey grant query a = true)
    (hkb : lookupKey grant query b = true) : a = b := by
  cases query with
  | id id =>
    simp only [lookupKey, Bool.and_eq_true, decide_eq_true_eq] at hka hkb
    exact eq_of_event hv ha hb id.nonzero (by simp [Fs.eventSequences, hka.2])
      (by simp [Fs.eventSequences, hkb.2])
  | retry workspace retry =>
    simp only [lookupKey, decide_eq_true_eq] at hka hkb
    exact eq_of_scope hv ha hb ((scope_of_named hka).trans (scope_of_named hkb).symm)

theorem lookupKey_own {query : Lookup} {r : Record7} (h : lookupKey grant query r = true) :
    r.subject = grant.subject := by
  cases query with
  | id id =>
    simp only [lookupKey, Bool.and_eq_true, decide_eq_true_eq] at h
    exact h.1
  | retry workspace retry => exact (of_decide_eq_true h).1

/-- What a lookup finds is a retained record the grant sees. -/
theorem lookupRecord_sees {v : Volume7} {query : Lookup} {r : Record7}
    (h : lookupRecord v grant query = .ok r) : r ∈ recordsOf v ∧ Sees v grant r := by
  rw [lookupRecord_eq] at h
  cases hf : v.fenced with
  | true =>
    rw [search_fenced hf] at h
    cases h
  | false =>
    rw [search_ready hf] at h
    obtain ⟨_, -, hfound⟩ := except_bind_eq_ok.mp h
    obtain ⟨hfind, hvis⟩ := Option.filter_eq_some_iff.mp (orRefuse_eq_ok.mp hfound)
    exact ⟨List.mem_of_find?_eq_some hfind, lookupKey_own (List.find?_some hfind), hvis⟩

variable (h : Agree grant s t) (hs : s.world.volume.Valid) (ht : t.world.volume.Valid)
include h hs ht

/-- A search for a key that the subject's records have, each its own, agrees. -/
theorem search_congr {lineage : Bytes 16} {missing : Fs.Header7 → Error} {key : Record7 → Bool}
    (hmissing : missing s.world.volume.header = missing t.world.volume.header)
    (own : ∀ r, key r = true → r.subject = grant.subject)
    (unique : ∀ v : Volume7, v.Valid → ∀ a ∈ recordsOf v, ∀ b ∈ recordsOf v,
      key a = true → key b = true → a = b) :
    search s.world.volume grant lineage missing key
      = search t.world.volume grant lineage missing key := by
  cases hf : s.world.volume.fenced with
  | true => rw [search_fenced hf, search_fenced (h.fenced ▸ hf)]
  | false =>
    rw [search_ready hf, search_ready (h.fenced ▸ hf), h.lineage, hmissing,
      h.find own unique hs ht]

theorem byId_congr (id : AdmissionId) :
    byId s.world.volume grant id = byId t.world.volume grant id := by
  apply search_congr h hs ht rfl
  · intro r hr
    simp only [Bool.and_eq_true, decide_eq_true_eq] at hr
    exact hr.1.1
  · intro v hv a ha b hb hka hkb
    simp only [Bool.and_eq_true, decide_eq_true_eq] at hka hkb
    exact eq_of_event hv ha hb id.nonzero (by simp [Fs.eventSequences, hka.2])
      (by simp [Fs.eventSequences, hkb.2])

theorem byRetry_congr (workspace : Workspace) (retry : Retry) :
    byRetry s.world.volume grant workspace retry
      = byRetry t.world.volume grant workspace retry := by
  apply search_congr h hs ht (by simp only [hidden, h.epoch])
  · intro r hr
    simp only [Bool.and_eq_true, decide_eq_true_eq] at hr
    exact hr.2.1
  · intro v hv a ha b hb hka hkb
    simp only [Bool.and_eq_true, decide_eq_true_eq] at hka hkb
    exact eq_of_scope hv ha hb ((scope_of_named hka.2).trans (scope_of_named hkb.2).symm)

theorem lookupRecord_congr (query : Lookup) :
    lookupRecord s.world.volume grant query = lookupRecord t.world.volume grant query := by
  rw [lookupRecord_eq, lookupRecord_eq]
  apply search_congr h hs ht (by cases query <;> simp only [lookupMissing, hidden, h.epoch])
  · exact fun r => lookupKey_own
  · intro v hv a ha b hb
    exact lookupKey_unique hv query ha hb

end

/-! ### Snapshots -/

/-- A snapshot of a valid record has all its sectors. -/
theorem snapshot_enough {v : Volume7} (hv : v.Valid) {r : Record7} (hr : r ∈ recordsOf v) :
    r.length.toNat ≤ 512 * (Fs.runSectors r.runs).length := by
  obtain ⟨i, hi⟩ := mem_recordsOf.mp hr
  have hlen := (hv.record_shape hi).payload.length_sectors
  change (Fs.runSectors r.runs).length = _ at hlen
  rw [hlen, Fs.sectorsFor]
  omega

/-- A read of a retained record goes straight to its runs. -/
theorem readRetainedRange_run {w : World7} (hf : w.volume.fenced = false) (hv : w.volume.Valid)
    {r : Record7} (hr : r ∈ recordsOf w.volume) (offset : UInt64) (size : Nat) :
    (Fs.readRetainedRange r offset size).run w
      = (Fs.onDisk (Fs.readRuns r.runs r.length offset size)).run w := by
  obtain ⟨i, hi⟩ := mem_recordsOf.mp hr
  have hready : w.volume.ready = .ok () := Volume7.ready_eq_ok.mpr hf
  unfold recordsOf at hr
  rw [Fs.readRetainedRange, Fs.run_getVolume_bind, hready, lift_ok_bind,
    refuse_bind_of_not (not_not.mpr hr),
    refuse_bind_of_not (not_not.mpr (hv.record i r hi).bounds)]

/-- Reading a snapshot that two disks show alike ends alike. -/
theorem snapshotBytes_congr {w w' : World7} {img img' : Nat → Block} {r : Record7}
    (hf : w.volume.fenced = false) (hf' : w'.volume.fenced = false) (hv : w.volume.Valid)
    (hv' : w'.volume.Valid) (hr : r ∈ recordsOf w.volume) (hr' : r ∈ recordsOf w'.volume)
    (hsame : payload img r.runs r.length.toNat = payload img' r.runs r.length.toNat)
    (fuel : Nat) (offset : UInt64) {d d' : Fs.Disk} (hd : Device.Alike img img' d d') :
    ((snapshotBytes r fuel offset).run { w with disk := d }).1
      = ((snapshotBytes r fuel offset).run { w' with disk := d' }).1 := by
  -- one sector a turn; the disks answer alike after each
  induction fuel generalizing offset d d' with
  | zero => rfl
  | succ fuel ih =>
    rw [snapshotBytes]
    split
    · obtain ⟨hend, hnext⟩ := Fs.readRuns_lockstep offset 512 (snapshot_enough hv hr) hsame d d' hd
      have hx := readRetainedRange_run (w := { w with disk := d }) hf hv hr offset 512
      have hy := readRetainedRange_run (w := { w' with disk := d' }) hf' hv' hr' offset 512
      apply bind_fst_congr
      · rw [hx, hy]
        exact hend.eq
      intro part _
      rw [hx, hy]
      apply bind_fst_congr
      · rw [run_refuse, run_refuse]
        split <;> rfl
      intro _ _
      apply bind_fst_congr
      · rw [run_refuse, run_refuse]
        split <;> exact ih _ hnext
      · intro rest _
        rfl
    · rfl

/-! ### Handlers -/

theorem run_getVolume_bind {α : Type} (f : Volume7 → Handler α) (s : Service) :
    (getVolume >>= f).run s = (f s.world.volume).run s := rfl

section
variable {α : Type} {s t : Service}

/-- A check that reads no state goes the same way in both runs. -/
theorem lift_fst_congr {β : Type} {x : Except Error β} {f g : β → Handler α}
    (h : ∀ b, ((f b).run s).1 = ((g b).run t).1) :
    ((Fallible.lift x >>= f).run s).1 = ((Fallible.lift x >>= g).run t).1 :=
  bind_fst_congr rfl fun b _ => h b

theorem refuse_fst_congr {c : Prop} [Decidable c] {e : Error} {f g : Unit → Handler α}
    (h : ((f ()).run s).1 = ((g ()).run t).1) :
    ((Fallible.refuse c e >>= f).run s).1 = ((Fallible.refuse c e >>= g).run t).1 := by
  rw [refuse_eq_lift]
  exact lift_fst_congr fun _ => h

end

section
variable {grant : Grant7} {s t : Service}

theorem statusReply_congr (h : Agree grant s t) (r : Record7) (p : Packet) :
    statusReply s.world.volume r p = statusReply t.world.volume r p := by
  unfold statusReply
  cases hf : s.world.volume.fenced with
  | true => rw [header_fenced hf, header_fenced (h.fenced ▸ hf)]
  | false =>
    rw [header_ready hf, header_ready (h.fenced ▸ hf), reported_ok, reported_ok, ok_bind, ok_bind,
      h.lineage]

variable (h : Agree grant s t) (hs : s.world.volume.Valid) (ht : t.world.volume.Valid)
include h hs ht

theorem getRequest_congr (p : Packet) :
    ((getRequest grant p).run s).1 = ((getRequest grant p).run t).1 := by
  unfold getRequest
  apply lift_fst_congr
  intro _
  apply lift_fst_congr
  intro id
  rw [run_getVolume_bind, run_getVolume_bind, byId_congr h hs ht]
  apply lift_fst_congr
  intro r
  exact statusReply_congr h r p

theorem retryRequest_congr (p : Packet) :
    ((retryRequest grant p).run s).1 = ((retryRequest grant p).run t).1 := by
  unfold retryRequest
  apply lift_fst_congr
  intro _
  apply lift_fst_congr
  intro query
  cases query with
  | id id => rfl
  | retry workspace retry =>
    dsimp only
    rw [run_getVolume_bind, run_getVolume_bind, byRetry_congr h hs ht]
    apply lift_fst_congr
    intro r
    exact statusReply_congr h r p

theorem observeRequest_congr (p : Packet) :
    ((observeRequest grant p).run s).1 = ((observeRequest grant p).run t).1 := by
  unfold observeRequest
  apply lift_fst_congr
  intro _
  apply refuse_fst_congr
  apply lift_fst_congr
  intro id
  rw [run_getVolume_bind, run_getVolume_bind, byId_congr h hs ht]
  apply lift_fst_congr
  intro r
  cases hf : s.world.volume.fenced with
  | true =>
    rw [header_fenced hf, header_fenced (h.fenced ▸ hf)]
    rfl
  | false =>
    rw [header_ready hf, header_ready (h.fenced ▸ hf), reported_ok, reported_ok,
      lift_ok_bind, lift_ok_bind, h.lineage]
    apply lift_fst_congr
    intro view
    rfl

/-- The digest of a visible snapshot is the same. -/
theorem snapshotSha256_congr [Sha256] (hf : s.world.volume.fenced = false) {r : Record7}
    (hr : r ∈ recordsOf s.world.volume) (hsees : Sees s.world.volume grant r) :
    ((snapshotSha256 r).run s).1 = ((snapshotSha256 r).run t).1 := by
  have hbytes := snapshotBytes_congr hf (show t.world.volume.fenced = false from h.fenced ▸ hf) hs
    ht hr ((h.records r hsees).mp hr) (h.snapshots r hr hsees) (r.length.toNat + 1) 0 h.disks
  show ((onVolume (snapshotBytes r _ 0) >>= fun bytes => pure (Sha256.digest bytes)).run s).1
    = ((onVolume (snapshotBytes r _ 0) >>= fun bytes => pure (Sha256.digest bytes)).run t).1
  apply bind_fst_congr
  · unfold onVolume onWorld
    rw [run_mapError, run_mapError, run_on, run_on, hbytes]
    cases ((snapshotBytes r (r.length.toNat + 1) 0).run t.world).1 <;> rfl
  · intro bytes _
    rfl

theorem retained_congr [Sha256] (p : Packet) :
    ((retained grant p).run s).1 = ((retained grant p).run t).1 := by
  unfold retained
  apply refuse_fst_congr
  apply lift_fst_congr
  intro _
  apply lift_fst_congr
  intro query
  rw [run_getVolume_bind, run_getVolume_bind, ← lookupRecord_congr h hs ht]
  cases hfound : lookupRecord s.world.volume grant query with
  | error e => rfl
  | ok r =>
    obtain ⟨hr, hsees⟩ := lookupRecord_sees hfound
    have hf : s.world.volume.fenced = false := by
      rw [← Bool.not_eq_true]
      intro hf
      rw [lookupRecord_eq, search_fenced hf] at hfound
      cases hfound
    have hdigest := snapshotSha256_congr h hs ht hf hr hsees
    rw [lift_ok_bind, lift_ok_bind, h.lineage]
    cases r.state with
    | admitted => rfl
    | cancelled => rfl
    | directCommitted | admittedCommitted => exact bind_fst_congr hdigest fun _ _ => rfl

theorem lookupRequest_congr [Sha256] (slot : Nat) (p : Packet) :
    ((lookupRequest slot grant p).run s).1 = ((lookupRequest slot grant p).run t).1 := by
  unfold lookupRequest
  apply bind_fst_congr (retained_congr h hs ht p)
  intro o _
  apply lift_fst_congr
  intro first
  rfl

end

/-! ### Replies -/

/-- The reply a handler's result is sent as. -/
def replyOf (p : Packet) : Except Error Packet → Packet
  | .ok reply => reply
  | .error e => p.failure e

/-- Handlers compose before or after they are lifted. -/
theorem serve_bind {α β : Type} (x : Handler α) (f : α → Handler β) :
    (serve x >>= fun a => serve (f a)) = serve (x >>= f) := by
  show Fallible.mk _ = Fallible.mk _
  congr 1
  funext s
  simp only [serve, run_on, run_mapError, run_bind]
  rcases x.run s.toService with ⟨r, t⟩
  cases r <;> rfl

namespace Server7

theorem settle_fst (s : Server7) (p : Packet) (x : Handler Packet) :
    (s.settle p x).map Prod.fst = some (replyOf p (x.run s.toService).1) := by
  unfold settle
  rcases x.run s.toService with ⟨r, t⟩
  cases r <;> rfl

/-- A request of the admission path that drives nothing is answered by its handler. -/
theorem serveAdmission_fst (s : Server7) {caller : Caller7} {grant : Grant7} {p : Packet}
    {x : Handler Packet} (h : admissionRequest caller grant p = serve x) (turns : List Turn) :
    (s.serveAdmission caller grant p turns).map Prod.fst
      = some (replyOf p (x.run s.toService).1) := by
  unfold serveAdmission
  rw [h]
  simp only [serve, run_on, run_mapError]
  rcases x.run s.toService with ⟨r, t⟩
  cases r <;> rfl

end Server7

/-- The requests that look retained records up. -/
def looksUp : Op → Bool
  | .admissionGet | .admissionRetry | .admissionObserve | .operationId | .operationRetry => true
  | _ => false

section
variable {grant : Grant7} {s t : Server7}

variable {p : Packet} {op : Op} {slot : Nat} {peer : UInt64}

/-- Lookups of the admission path. -/
theorem admissionRequest_lookup {caller : Caller7} (hop : Op.ofCode p.op = some op)
    (h : op = .admissionGet ∨ op = .admissionRetry ∨ op = .admissionObserve) :
    admissionRequest caller grant p = serve (do
      Fallible.refuse (grant.subject = 0) .denied
      if op = .admissionGet then getRequest grant p
      else if op = .admissionRetry then retryRequest grant p
      else observeRequest grant p) := by
  unfold admissionRequest
  rw [hop]
  rcases h with rfl | rfl | rfl <;> exact serve_bind _ _

theorem serveAdmission_lookup_congr (h : Agree grant s.toService t.toService)
    (hs : s.world.volume.Valid) (ht : t.world.volume.Valid) {caller : Caller7}
    (hop : Op.ofCode p.op = some op)
    (hlook : op = .admissionGet ∨ op = .admissionRetry ∨ op = .admissionObserve)
    (turns turns' : List Turn) :
    (s.serveAdmission caller grant p turns).map Prod.fst
      = (t.serveAdmission caller grant p turns').map Prod.fst := by
  have hreq := @admissionRequest_lookup grant p op caller hop hlook
  rw [s.serveAdmission_fst hreq, t.serveAdmission_fst hreq]
  congr 2
  apply refuse_fst_congr
  split
  · exact getRequest_congr h hs ht p
  · split
    · exact retryRequest_congr h hs ht p
    · exact observeRequest_congr h hs ht p

theorem settle_lookup_congr [Sha256] (h : Agree grant s.toService t.toService)
    (hs : s.world.volume.Valid) (ht : t.world.volume.Valid)
    (hlook : Op.ofCode p.op = some .operationId ∨ Op.ofCode p.op = some .operationRetry) :
    (s.settle p (writeRequest slot grant p)).map Prod.fst
      = (t.settle p (writeRequest slot grant p)).map Prod.fst := by
  rw [s.settle_fst, t.settle_fst]
  congr 2
  unfold writeRequest
  apply refuse_fst_congr
  rcases hlook with hop | hop
  · rw [hop]
    exact lookupRequest_congr h hs ht slot p
  · rw [hop]
    exact lookupRequest_congr h hs ht slot p

/-- An operation lookup is served by the write path or refused. -/
theorem route_operation [Sha256] (u : Server7)
    (hop : Op.ofCode p.op = some .operationId ∨ Op.ofCode p.op = some .operationRetry)
    (turns : List Turn) :
    u.route slot peer grant p turns
      = if writeSelected p then u.settle p (writeRequest slot grant p)
        else some (p.failure .unsupported, u) := by
  have hselected : admissionSelected p = false := by
    rcases hop with hop | hop <;> simp [admissionSelected, hop]
  unfold Server7.route
  rcases hop with hop | hop <;> simp [hop, hselected]

/-- An admission lookup is served by the admission path or refused. -/
theorem route_admission [Sha256] (u : Server7) (hop : Op.ofCode p.op = some op)
    (hlook : op = .admissionGet ∨ op = .admissionRetry ∨ op = .admissionObserve)
    (turns : List Turn) : u.route slot peer grant p turns
      = if admissionSelected p then
          u.serveAdmission { slot, peer, context := p.context } grant p turns
        else some (p.failure .unsupported, u) := by
  have hselected : writeSelected p = false := by
    rcases hlook with rfl | rfl | rfl <;> simp [writeSelected, hop]
  unfold Server7.route
  rcases hlook with rfl | rfl | rfl <;> simp [hop, hselected]

theorem route_lookup_congr [Sha256] (h : Agree grant s.toService t.toService)
    (hs : s.world.volume.Valid) (ht : t.world.volume.Valid) (hop : Op.ofCode p.op = some op)
    (hlook : looksUp op = true) (turns turns' : List Turn) :
    (s.route slot peer grant p turns).map Prod.fst
      = (t.route slot peer grant p turns').map Prod.fst := by
  have hkind : (op = .operationId ∨ op = .operationRetry)
      ∨ (op = .admissionGet ∨ op = .admissionRetry ∨ op = .admissionObserve) := by
    cases op <;> simp_all [looksUp]
  rcases hkind with hwrite | hadmission
  · have hop' : Op.ofCode p.op = some .operationId ∨ Op.ofCode p.op = some .operationRetry := by
      rcases hwrite with rfl | rfl
      · exact Or.inl hop
      · exact Or.inr hop
    rw [route_operation s hop', route_operation t hop']
    split
    · exact settle_lookup_congr h hs ht hop'
    · rfl
  · rw [route_admission s hop hadmission, route_admission t hop hadmission]
    split
    · exact serveAdmission_lookup_congr h hs ht hop hadmission turns turns'
    · rfl

end

/-! ### Non-interference -/

/-- A lookup tells its caller nothing of records it may not see. Two valid servers that hold the
same grants and agree on what the caller's grant is shown answer a GET, RETRY, OBSERVE,
OPERATION_ID or OPERATION_RETRY request with the same packet, whatever their other records,
versions and payloads, and whatever happens while the request is served. -/
theorem lookup_noninterference [Sha256] {s t : Server7} (hs : s.world.volume.Valid)
    (ht : t.world.volume.Valid) {slot : Nat} {peer : UInt64} {p : Packet} {now : UInt64} {op : Op}
    (hop : Op.ofCode p.op = some op) (hlook : looksUp op = true) (hgrants : s.grants = t.grants)
    (hagree : ∀ grant, s.grants.check slot peer p.context now = .ok grant →
      Agree grant s.toService t.toService) (turns turns' : List Turn) :
    (s.handleWith slot peer p now turns).map Prod.fst
      = (t.handleWith slot peer p now turns').map Prod.fst := by
  unfold Server7.handleWith
  rw [← hgrants]
  cases henv : envelope p with
  | error e => rfl
  | ok _ =>
    cases hcheck : s.grants.check slot peer p.context now with
    | error e => rfl
    | ok grant => exact route_lookup_congr (hagree grant hcheck) hs ht hop hlook turns turns'

/-- A cancelled admission of subject 2 for a file that is gone. -/
def foreignRecord : Record7 :=
  { subject := 2, workspace := 3, object := 5, inst := 1, retryEpoch := 1, retryKey := 1
    previous := 1, committed := 0, admissionNumber := 2, terminal := 3, length := 0
    payloadCrc32 := Fs.crc [], state := .cancelled, prevention := some .requested
    extentsUsed := 0, extents := Vector.replicate 8 ⟨0, 0⟩ }

/-- A server whose slot 0 holds a grant of subject 7 over the workspaces, with these records. -/
def sampleServer (records : Fs.Records7) : Server7 :=
  { world :=
      { volume :=
          { header := { Fs.Header7.initial Fs.someLineage with sequence := 3, next := 6 }
            nodes := Fs.installRoots, records, map := Vector.replicate 2048 0
            recoveredFromHeader := false, fenced := false, stages := Vector.replicate 2 none
            stageNonce := 0, stageOwner := 1 }
        disk := Fs.blankDisk, nextOwner := 2 }
    writes :=
      { transfers := Vector.replicate 4 none, receipts := Vector.replicate 4 none, inst := 3 }
    grants :=
      { slots := #v[some ⟨⟨⟨1, 1, 3, trackedWrite7, 7, 0⟩, 1⟩, false⟩, none, none, none]
        nextContext := 2 } }

/-- A request for the status of admission 2. -/
def sampleGet : Packet :=
  { Packet.new Op.admissionGet.code with
    count := 16, context := 1, version := 2
    data := Bytes.pack 40 (List.replicate 16 1 ++ zeros 24) }

/-- A stand-in digest. -/
@[reducible] def sampleDigest : Sha256 := ⟨fun _ => Vector.replicate 32 0⟩

theorem sampleServer_valid {records : Fs.Records7}
    (h : records = Fs.onlyRecord foreignRecord ∨ records = Vector.replicate 8 none) :
    (sampleServer records).world.volume.Valid := by
  have hheader : { Fs.Header7.initial Fs.someLineage with sequence := 3, next := 6 }.validate
      = .ok () := by decide +kernel
  rcases h with rfl | rfl
  · have hgone : Fs.findNode Fs.installRoots foreignRecord.object = none := by decide +kernel
    have hbounds : foreignRecord.validate 3 6 = .ok () := by decide +kernel
    exact Fs.genesis_valid_retaining hheader hbounds rfl hgone rfl rfl
  · exact Fs.genesis_valid hheader

/-- Subject 7 cannot tell the cancelled admission of subject 2 from no admission at all. -/
theorem lookup_noninterference_foreign :
    (sampleServer (Fs.onlyRecord foreignRecord)).grants.check 0 1 sampleGet.context 0
        = .ok ⟨⟨1, 1, 3, trackedWrite7, 7, 0⟩, 1⟩
      ∧ (@Server7.handleWith sampleDigest (sampleServer (Fs.onlyRecord foreignRecord)) 0 1 sampleGet
          0 []).map Prod.fst
        = (@Server7.handleWith sampleDigest (sampleServer (Vector.replicate 8 none)) 0 1 sampleGet
          0 []).map Prod.fst := by
  have hcheck : (sampleServer (Fs.onlyRecord foreignRecord)).grants.check 0 1 sampleGet.context 0
      = .ok ⟨⟨1, 1, 3, trackedWrite7, 7, 0⟩, 1⟩ := by decide +kernel
  refine ⟨hcheck, ?_⟩
  apply @lookup_noninterference sampleDigest _ _ (sampleServer_valid (Or.inl rfl))
    (sampleServer_valid (Or.inr rfl)) 0 1 sampleGet 0 .admissionGet (by decide) rfl rfl
  intro grant hgrant
  rw [hcheck] at hgrant
  cases hgrant
  refine ⟨rfl, rfl, rfl, rfl, ?_, ?_, ?_⟩
  · intro r hsees
    constructor
    · intro hr
      -- the only record is not subject 7's
      obtain ⟨i, hi⟩ := mem_recordsOf.mp hr
      have hown := hsees.own
      rw [(Fs.onlyRecord_eq_some hi).2] at hown
      exact absurd hown (by decide)
    · intro hr
      obtain ⟨i, hi⟩ := mem_recordsOf.mp hr
      simp [sampleServer] at hi
  · intro r _ _
    rfl
  · exact ⟨rfl, rfl, rfl, rfl, Iff.rfl⟩

end RusticOs.Service7
