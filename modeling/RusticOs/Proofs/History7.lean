import RusticOs.Proofs.Creation7

/-!
# `RusticOs.Proofs.History7`: histories of publications

One counter, the sequence, numbers every publication. A publication gives its own number to
the entry and the outcome it changes, and to nothing else. So versions, commit numbers and
admission numbers never come back, whatever is removed, forgotten or lost in a crash. What a
call answers is in the store (`Tells`), so the numbers handed out are these.

* `Store.Applies.number`: where a number in a store comes from, one publication.
* `Store.After.issues_number`: the same over a history.
* `identity_monotonicity`: over runs with crashes and remounts.
-/

set_option autoImplicit false

namespace RusticOs.Fs

open RusticOs.Lib RusticOs.Lib.Fallible

/-! ### Numbers -/

/-- What carries a number: an entry its version, an outcome its commit number and its
admission number. -/
inductive Holder where
  | version (id : UInt32)
  | commit (scope : Scope)
  | admission (scope : Scope)
  deriving DecidableEq

/-- Holders of the same kind of number. -/
def Holder.Alike : Holder → Holder → Prop
  | .version _, .version _ | .commit _, .commit _ | .admission _, .admission _ => True
  | _, _ => False

/-- The holders a published request gives its number to. -/
def Request.holders : Request → List Holder
  | .create id _ _ _ => [.version id]
  | .replace identity _ _ | .execute identity _ =>
    [.version identity.object, .commit identity.scope]
  | .accept identity _ _ => [.admission identity.scope]
  | .remove _ | .cancel _ _ _ | .maintain => []

/-- A request has at most one holder of each kind. -/
theorem Request.holders_alike {request : Request} {k k' : Holder} (hk : k ∈ request.holders)
    (hk' : k' ∈ request.holders) (h : k.Alike k') : k = k' := by
  cases request <;> simp only [Request.holders, List.mem_cons, List.not_mem_nil, or_false] at hk hk'
  case create => rw [hk, hk']
  case accept => rw [hk, hk']
  case replace => rcases hk with rfl | rfl <;> rcases hk' with rfl | rfl <;> first | rfl | cases h
  case execute => rcases hk with rfl | rfl <;> rcases hk' with rfl | rfl <;> first | rfl | cases h

/-- A number other than zero, which stands for none. -/
def nonzero (n : UInt64) : Option UInt64 := if n = 0 then none else some n

namespace Store

/-- The number a holder carries in a store. -/
def number (s : Store) : Holder → Option UInt64
  | .version id => (s.entries id).map Entry.version
  | .commit scope => (s.outcomes scope).bind fun o => nonzero o.committed
  | .admission scope => (s.outcomes scope).bind fun o => nonzero o.admissionNumber

/-- The number `n` is given to a holder between two stores. -/
def HandsOut (s s' : Store) (k : Holder) (n : UInt64) : Prop :=
  s'.number k = some n ∧ s.number k ≠ some n

/-- The watermarks of a store bound what it holds. -/
structure Bounded (s : Store) : Prop where
  epoch : s.epoch.toNat ≤ s.sequence.toNat
  id : ∀ id e, s.entries id = some e → id.toNat < s.next.toNat
  number : ∀ k n, s.number k = some n → n.toNat ≤ s.sequence.toNat

/-- Publication `i` of a history gives the number `n` to a holder. -/
def Issues (base : Store) (published : List Request) (now : Store) (i : Fin published.length)
    (k : Holder) (n : UInt64) : Prop :=
  ∃ before after, After base (published.take i) before ∧ before.sequence.toNat + 1 < 2 ^ 64
    ∧ before.Applies (published.get i) after ∧ After after (published.drop (i + 1)) now
    ∧ before.HandsOut after k n

section
variable {s s' base now : Store} {request : Request} {history more : List Request}

theorem Applies.toNat_sequence (h : s.Applies request s')
    (room : s.sequence.toNat + 1 < 2 ^ 64) : s'.sequence.toNat = s.sequence.toNat + 1 := by
  rw [h.sequence, toNat_tick room]

theorem nonzero_eq_some {m n : UInt64} (h : nonzero m = some n) : m = n := by
  unfold nonzero at h
  split at h
  · cases h
  · exact Option.some.inj h

theorem nonzero_ne {m n : UInt64} (h : nonzero m = some n) : n ≠ 0 := by
  rintro rfl
  rw [nonzero_eq_some h] at h
  cases h

/-- After one update of a table a number is an old one or that of the update. -/
theorem number_update {κ ν : Type} [DecidableEq κ] {f : κ → Option ν} {k k' : κ} {x : Option ν}
    {g : ν → Option UInt64} {n : UInt64} (h : (Function.update f k x k').bind g = some n) :
    (f k').bind g = some n ∨ k' = k ∧ x.bind g = some n := by
  by_cases hk : k' = k
  · subst hk
    rw [Function.update_self] at h
    exact Or.inr ⟨rfl, h⟩
  · rw [Function.update_of_ne hk] at h
    exact Or.inl h

/-- A number in a store is an old one, or it is the publication's own and belongs to a holder
of the request. -/
theorem Applies.number (h : s.Applies request s') {k : Holder} {n : UInt64}
    (hn : s'.number k = some n) :
    s.number k = some n ∨ k ∈ request.holders ∧ n = s'.sequence := by
  rw [h.sequence]
  cases k with
  | version id =>
    change (s'.entries id).map Entry.version = some n at hn
    show (s.entries id).map Entry.version = some n ∨ _
    rw [Option.map_eq_bind] at hn ⊢
    cases h with
    | accept target epoch first | cancel known waiting answers | maintain settled =>
      exact Or.inl hn
    | remove live childless =>
      rcases number_update hn with hold | ⟨-, hnew⟩
      · exact Or.inl hold
      · cases hnew
    | create parent_live parent_kind kind_ne fresh room unnamed =>
      refine (number_update hn).imp_right fun ⟨hid, hnew⟩ => ⟨?_, (Option.some.inj hnew).symm⟩
      rw [hid]
      exact List.mem_singleton_self _
    | replace target epoch first | execute known waiting answers target =>
      refine (number_update hn).imp_right fun ⟨hid, hnew⟩ => ⟨?_, (Option.some.inj hnew).symm⟩
      rw [hid]
      exact List.mem_cons_self
  | commit scope =>
    cases h with
    | create parent_live parent_kind kind_ne fresh room unnamed => exact Or.inl hn
    | remove live childless => exact Or.inl hn
    | maintain settled => cases hn
    | accept target epoch first | cancel known waiting answers =>
      rcases number_update hn with hold | ⟨-, hnew⟩
      · exact Or.inl hold
      · cases hnew
    | replace target epoch first | execute known waiting answers target =>
      refine (number_update hn).imp_right fun ⟨hscope, hnew⟩ =>
        ⟨?_, (nonzero_eq_some hnew).symm⟩
      rw [hscope]
      exact List.mem_cons_of_mem _ (List.mem_singleton_self _)
  | admission scope =>
    cases h with
    | create parent_live parent_kind kind_ne fresh room unnamed => exact Or.inl hn
    | remove live childless => exact Or.inl hn
    | maintain settled => cases hn
    | replace target epoch first =>
      rcases number_update hn with hold | ⟨-, hnew⟩
      · exact Or.inl hold
      · cases hnew
    | accept target epoch first =>
      refine (number_update hn).imp_right fun ⟨hscope, hnew⟩ =>
        ⟨?_, (nonzero_eq_some hnew).symm⟩
      rw [hscope]
      exact List.mem_singleton_self _
    | execute known waiting answers target =>
      -- an execution keeps the admission number of its outcome
      rcases number_update hn with hold | ⟨rfl, hnew⟩
      · exact Or.inl hold
      · refine Or.inl ?_
        rw [Store.number, known]
        exact hnew
    | cancel known waiting answers =>
      rcases number_update hn with hold | ⟨rfl, hnew⟩
      · exact Or.inl hold
      · refine Or.inl ?_
        rw [Store.number, known]
        exact hnew

theorem Applies.handsOut (h : s.Applies request s') {k : Holder} {n : UInt64}
    (hn : s.HandsOut s' k n) : k ∈ request.holders ∧ n = s'.sequence :=
  (h.number hn.1).resolve_left hn.2

/-! ### Histories -/

namespace After

/-- Each publication takes the next sequence. -/
theorem sequence (h : After base history s) :
    s.sequence.toNat = base.sequence.toNat + history.length := by
  induction h with
  | refl => rfl
  | snoc before room applies ih =>
    rw [applies.toNat_sequence room, ih, List.length_append, List.length_singleton]
    omega

/-- The watermark of identities never falls. -/
theorem next_le (h : After base history s) : base.next.toNat ≤ s.next.toNat := by
  induction h with
  | refl => exact le_rfl
  | @snoc history s s' request before room applies ih =>
    refine ih.trans ?_
    cases applies with
    | create parent_live parent_kind kind_ne fresh hroom unnamed =>
      show s.next.toNat ≤ (s.next + 1).toNat
      rw [UInt32.toNat_add, show (1 : UInt32).toNat = 1 from rfl]
      omega
    | _ => exact le_rfl

/-- The retry epoch never falls, and stays below the sequence. -/
theorem epoch_le (h : After base history s) (hb : base.epoch.toNat ≤ base.sequence.toNat) :
    base.epoch.toNat ≤ s.epoch.toNat ∧ s.epoch.toNat ≤ s.sequence.toNat := by
  induction h with
  | refl => exact ⟨le_rfl, hb⟩
  | @snoc history s s' request before room applies ih =>
    obtain ⟨hgrows, hbound⟩ := ih
    rw [applies.toNat_sequence room]
    cases applies with
    | maintain settled =>
      have hadd : (s.epoch + 1).toNat = s.epoch.toNat + 1 := by
        rw [UInt64.toNat_add, show (1 : UInt64).toNat = 1 from rfl]
        omega
      show base.epoch.toNat ≤ (s.epoch + 1).toNat ∧ (s.epoch + 1).toNat ≤ _
      omega
    | _ =>
      show base.epoch.toNat ≤ s.epoch.toNat ∧ s.epoch.toNat ≤ _
      omega

/-- A number names the publication that issued it. -/
theorem issues_number {i : Fin history.length} {k : Holder} {n : UInt64}
    (h : Issues base history now i k n) :
    n.toNat = base.sequence.toNat + i + 1 ∧ k ∈ (history.get i).holders := by
  obtain ⟨before, after, hbefore, hroom, happlies, -, hn⟩ := h
  obtain ⟨hk, rfl⟩ := happlies.handsOut hn
  refine ⟨?_, hk⟩
  rw [happlies.toNat_sequence hroom, hbefore.sequence, List.length_take]
  have := i.isLt
  omega

/-- What a history has issued stays issued. -/
theorem issues_snoc {i : Fin history.length} {k : Holder} {n : UInt64}
    (h : Issues base history s i k n) (room : s.sequence.toNat + 1 < 2 ^ 64)
    (applies : s.Applies request s') :
    ∃ j, Issues base (history ++ [request]) s' j k n := by
  obtain ⟨before, after, hbefore, hroom, happlies, hafter, hn⟩ := h
  have hlt := i.isLt
  refine ⟨⟨i, by simp⟩, before, after, ?_, hroom, ?_, ?_, hn⟩
  · rw [List.take_append_of_le_length hlt.le]
    exact hbefore
  · rw [List.get_eq_getElem, List.getElem_append_left hlt]
    exact happlies
  · rw [List.drop_append_of_le_length hlt]
    exact hafter.snoc room applies

/-- Every number in a store was there before the history or was issued by it. -/
theorem number (h : After base history now) {k : Holder} {n : UInt64}
    (hn : now.number k = some n) : base.number k = some n ∨ ∃ i, Issues base history now i k n := by
  induction h with
  | refl => exact Or.inl hn
  | @snoc history s s' request before room applies ih =>
    by_cases hold : s.number k = some n
    · refine (ih hold).imp_right ?_
      rintro ⟨i, hi⟩
      exact issues_snoc hi room applies
    · refine Or.inr ⟨⟨history.length, by simp⟩, s, s', ?_, room, ?_, ?_, hn, hold⟩
      · rw [List.take_left]
        exact before
      · rw [List.get_eq_getElem, List.getElem_append_right (le_refl _)]
        simpa using applies
      · rw [List.drop_eq_nil_of_le (by simp)]
        exact .refl

end After

end

end Store

/-! ### Stores of ready owners -/

section
variable {w : World7} {staged : Fin 2 → List UInt8}

/-- The validator bounds a store by its watermarks. -/
theorem Ready.bounded (h : Ready w staged) : w.contents.store.Bounded := by
  have hvalid := h.valid
  have hentry : ∀ id e, w.contents.store.entries id = some e → ∃ i : Fin 256,
      w.volume.nodes[i] ≠ Node7.empty ∧ w.volume.nodes[i].id = id
        ∧ w.volume.nodes[i].version = e.version := by
    intro id e he
    obtain ⟨i, hk, hid, rfl⟩ := (entriesOf_eq_some w.disk.medium.view hvalid).mp he
    exact ⟨i, (hvalid.live_iff i).mpr hk, hid, rfl⟩
  have houtcome : ∀ scope o, w.contents.store.outcomes scope = some o →
      o.committed.toNat ≤ w.volume.header.sequence.toNat
        ∧ o.admissionNumber.toNat ≤ w.volume.header.sequence.toNat := by
    intro scope o ho
    obtain ⟨i, r, hr, -, rfl⟩ := (outcomesOf_eq_some w.disk.medium.view hvalid).mp ho
    have hbounds := (hvalid.record i r hr).bounds
    simp only [Record7.validate, except_bind_eq_ok, reject_eq_ok, not_or, UInt64.not_lt,
      gt_iff_lt] at hbounds
    obtain ⟨_, -, _, -, _, -, -, -, hcommitted, -, hadmission⟩ := hbounds
    exact ⟨hcommitted, hadmission⟩
  refine ⟨?_, fun id e he => ?_, fun k n hn => ?_⟩
  · have hhead := hvalid.head
    simp only [Header7.validate, reject_eq_ok, not_or, UInt64.not_lt, gt_iff_lt] at hhead
    exact hhead.2.2.2.1
  · obtain ⟨i, hlive, rfl, -⟩ := hentry id e he
    exact (hvalid.node i hlive).id_lt
  · cases k with
    | version id =>
      obtain ⟨e, he, rfl⟩ := Option.map_eq_some_iff.mp hn
      obtain ⟨i, hlive, -, hversion⟩ := hentry id e he
      rw [← hversion]
      exact (hvalid.node i hlive).version_le
    | commit scope =>
      obtain ⟨o, ho, hn⟩ := Option.bind_eq_some_iff.mp hn
      rw [← Store.nonzero_eq_some hn]
      exact (houtcome scope o ho).1
    | admission scope =>
      obtain ⟨o, ho, hn⟩ := Option.bind_eq_some_iff.mp hn
      rw [← Store.nonzero_eq_some hn]
      exact (houtcome scope o ho).2

theorem publishCandidate_ok {v : Volume7} {d d' : Disk} {header : Header7}
    (h : (publishCandidate v).run d = (.ok header, d')) :
    header.next = v.header.next ∧ header.lineage = v.header.lineage := by
  obtain ⟨candidate, _, hcandidate, h⟩ := run_bind_eq_ok.mp h
  obtain ⟨_, _, _, h⟩ := run_bind_eq_ok.mp h
  obtain ⟨sums, _, _, h⟩ := run_bind_eq_ok.mp h
  obtain ⟨_, _, _, h⟩ := run_bind_eq_ok.mp h
  obtain ⟨_, _, _, h⟩ := run_bind_eq_ok.mp h
  obtain ⟨_, _, _, h⟩ := run_bind_eq_ok.mp h
  obtain ⟨_, _, _, h⟩ := run_bind_eq_ok.mp h
  cases h
  obtain ⟨sequence, -, hcandidate⟩ := except_bind_eq_ok.mp (congrArg Prod.fst hcandidate)
  cases hcandidate
  exact ⟨rfl, rfl⟩

/-- What a creation that returned has done: it hands out the watermark and moves it past the
identity, gives the node the number of its publication, and keeps it. -/
structure Created (w : World7) (node : Node7) (w' : World7) : Prop where
  id : node.id = w.volume.header.next
  next : w'.volume.header.next.toNat = node.id.toNat + 1
  version : node.version.toNat = w.volume.header.sequence.toNat + 1
  kind : node.kind ≠ .empty
  kept : ∃ i : Fin 256, w'.volume.nodes[i] = node
  unfenced : w.volume.fenced = false ∧ w'.volume.fenced = false

theorem create_ok {parent : UInt32} {name : List UInt8} {kind : Kind} {node : Node7} {w' : World7}
    (h : (create parent name kind).run w = (.ok node, w')) : Created w node w' := by
  rw [create, run_getVolume_bind] at h
  obtain ⟨_, hready, h⟩ := run_lift_bind_eq_ok.mp h
  obtain ⟨_, -, h⟩ := run_lift_bind_eq_ok.mp h
  obtain ⟨hkind, h⟩ := run_refuse_bind_eq_ok.mp h
  obtain ⟨directory, -, h⟩ := run_lift_bind_eq_ok.mp h
  obtain ⟨-, h⟩ := run_refuse_bind_eq_ok.mp h
  obtain ⟨-, h⟩ := run_refuse_bind_eq_ok.mp h
  obtain ⟨_, -, h⟩ := run_lift_bind_eq_ok.mp h
  obtain ⟨slot, -, h⟩ := run_lift_bind_eq_ok.mp h
  obtain ⟨id, hid, h⟩ := run_lift_bind_eq_ok.mp h
  obtain ⟨next, hnext, h⟩ := run_lift_bind_eq_ok.mp h
  obtain ⟨version, hversion, h⟩ := run_lift_bind_eq_ok.mp h
  have hid : id = w.volume.header.next := by
    obtain ⟨_, -, hid⟩ := except_bind_eq_ok.mp hid
    cases hid
    rfl
  have hroom : id.toNat + 1 = next.toNat := checkedAdd32_eq_some.mp (orRefuse_eq_ok.mp hnext)
  have hcounted : w.volume.header.sequence.toNat + 1 = version.toNat :=
    checkedAdd_eq_some.mp (orRefuse_eq_ok.mp hversion)
  rw [run_publish, publishNamespace_run] at h
  rcases hx : (publishCandidate _).run w.disk with ⟨r, d⟩
  rw [hx] at h
  cases r with
  | error e => cases h
  | ok header =>
    cases h
    refine ⟨hid, ?_, hcounted.symm, hkind, ⟨slot, Vector.setAt_self _ _ _⟩,
      Volume7.ready_eq_ok.mp hready, rfl⟩
    show header.next.toNat = id.toNat + 1
    rw [(publishCandidate_ok hx).1]
    exact hroom.symm

/-- The record a tracked stage is finished with is retained. -/
theorem finishTrackedSlot_retains {slot : StageSlot} {view : Nat → Block} {bytes : List UInt8}
    (hholds : StageHolds w.volume.toGeneration7 view slot bytes) {r : Record7} {w' : World7}
    (h : (finishTrackedSlot slot).run w = (.ok r, w')) : w'.volume.Retains r := by
  rw [finishTrackedSlot] at h
  obtain ⟨hrequest, h⟩ := run_refuse_bind_eq_ok.mp h
  have hkind : slot.kind = .tracked := not_not.mp (not_or.mp hrequest).1
  cases hmode : slot.mode with
  | retry record matching =>
    rw [hmode] at h
    obtain ⟨-, h⟩ := run_refuse_bind_eq_ok.mp h
    obtain ⟨-, h⟩ := run_refuse_bind_eq_ok.mp h
    cases h
    have hretry := hholds.retry _ matching hmode
    obtain ⟨i, current, hi, -, hsame⟩ := hretry.retained
    exact ⟨i, hsame (hretry.tracked hkind) ▸ hi⟩
  | fresh plan =>
    rw [hmode] at h
    change (commitTracked slot plan).run w = _ at h
    rw [commitTracked, run_getVolume_bind] at h
    obtain ⟨-, h⟩ := run_refuse_bind_eq_ok.mp h
    obtain ⟨target, -, h⟩ := run_lift_bind_eq_ok.mp h
    obtain ⟨_, v, -, h⟩ := run_bind_eq_ok.mp h
    split at h
    · cases h
    · rw [run_publish, publishNamespace_run] at h
      rcases hx : (publishCandidate _).run v.disk with ⟨result, d⟩
      rw [hx] at h
      cases result with
      | error e => cases h
      | ok header =>
        cases h
        exact ⟨target.receiptSlot, Vector.setAt_self _ _ _⟩

section
variable (ready : Ready w staged) {r : Record7}
include ready

theorem finishTracked_retains {stage : Stage7} (h : ((finishTracked stage).run w).1 = .ok r) :
    ((finishTracked stage).run w).2.volume.Retains r := by
  rcases finishTracked_run ready stage with hrun | ⟨i, slot, hindex, -, -, hrun⟩
  · rw [hrun] at h
    cases h
  · have hheld := ready.take (stageIndex_spec hindex).1
    rw [hrun] at h ⊢
    exact finishTrackedSlot_retains hheld.holds (Prod.ext h rfl)

theorem replaceTracked_retains {identity : WriteIdentity7} {expectedVersion : UInt64}
    {bytes : List UInt8} (h : ((replaceTracked identity expectedVersion bytes).run w).1 = .ok r) :
    ((replaceTracked identity expectedVersion bytes).run w).2.volume.Retains r := by
  rcases hrun : (replaceTracked identity expectedVersion bytes).run w with ⟨result, w'⟩
  rw [hrun] at h
  obtain rfl : result = .ok r := h
  rw [replaceTracked, run_getVolume_bind] at hrun
  obtain ⟨_, -, hrun⟩ := run_lift_bind_eq_ok.mp hrun
  obtain ⟨hsize, hrun⟩ := run_refuse_bind_eq_ok.mp hrun
  obtain ⟨slot, hslot, hrun⟩ := run_lift_bind_eq_ok.mp hrun
  obtain ⟨next, v, hwrites, hrun⟩ := run_bind_eq_ok.mp hrun
  have hopened := openSlot_spec ready hslot
  have hnat : (UInt32.ofNat bytes.length).toNat = bytes.length :=
    UInt32.toNat_ofNat_of_lt' (by show _ < 2 ^ 32; omega)
  obtain ⟨last, m, hpass, hheld, -⟩ := writeSectors_passes (sectorsFor bytes.length) rfl
    hopened.held (by rw [hopened.request.2.2.1, hnat, List.length_nil, Nat.zero_add])
  rcases hpass w.disk ⟨rfl, ready.idle⟩ with ⟨d, hpassed, -⟩ | ⟨e, _, hfailed, -⟩
  · obtain ⟨hnext, rfl⟩ := Prod.mk.inj (hwrites.symm.trans hpassed)
    obtain rfl := Except.ok.inj hnext
    exact finishTrackedSlot_retains (w := { w with disk := d }) hheld.holds hrun
  · cases hwrites.symm.trans hfailed

/-- The numbers of a retained record are in the store. -/
theorem Ready.number_record (hr : w.volume.Retains r) :
    (r.committed ≠ 0 → w.contents.store.number (.commit r.scope) = some r.committed)
      ∧ (r.admissionNumber ≠ 0 →
        w.contents.store.number (.admission r.scope) = some r.admissionNumber) := by
  obtain ⟨i, hi⟩ := hr
  have hknown := outcome_of_record ready hi
  refine ⟨fun hne => ?_, fun hne => ?_⟩ <;> rw [Store.number, hknown] <;> exact if_neg hne

/-- A commit or admission number in the store is an event of a retained record. -/
theorem Ready.record_of_number {k : Holder} {n : UInt64} (hk : w.contents.store.number k = some n)
    (hversion : ∀ id, k ≠ .version id) : n ≠ 0 ∧ ∃ (i : Fin 8) (r : Record7),
      w.volume.records[i] = some r ∧ n ∈ eventSequences r
        ∧ (k = .commit r.scope ∨ k = .admission r.scope) := by
  cases k with
  | version id => exact absurd rfl (hversion id)
  | commit scope =>
    obtain ⟨o, ho, hn⟩ := Option.bind_eq_some_iff.mp hk
    obtain ⟨i, r, hi, rfl, rfl⟩ := (outcomesOf_eq_some w.disk.medium.view ready.valid).mp ho
    refine ⟨Store.nonzero_ne hn, i, r, hi, ?_, Or.inl rfl⟩
    rw [← Store.nonzero_eq_some hn]
    simp [eventSequences, Record7.outcome]
  | admission scope =>
    obtain ⟨o, ho, hn⟩ := Option.bind_eq_some_iff.mp hk
    obtain ⟨i, r, hi, rfl, rfl⟩ := (outcomesOf_eq_some w.disk.medium.view ready.valid).mp ho
    refine ⟨Store.nonzero_ne hn, i, r, hi, ?_, Or.inr rfl⟩
    rw [← Store.nonzero_eq_some hn]
    simp [eventSequences, Record7.outcome]

/-- No two outcomes carry one commit number, or one admission number. -/
theorem Ready.number_alike {k k' : Holder} {n : UInt64} (hk : w.contents.store.number k = some n)
    (hk' : w.contents.store.number k' = some n) (halike : k.Alike k')
    (hversion : ∀ id, k ≠ .version id) : k = k' := by
  have hversion' : ∀ id, k' ≠ .version id := by
    rintro id rfl
    cases k with
    | version id => exact hversion id rfl
    | commit scope => cases halike
    | admission scope => cases halike
  obtain ⟨hn, i, a, ha, hna, hak⟩ := ready.record_of_number hk hversion
  obtain ⟨-, j, b, hb, hnb, hbk⟩ := ready.record_of_number hk' hversion'
  have hij : i = j := by
    by_contra hij
    exact hn (ready.wellFormed.events i j a b hij ha hb n hna hnb)
  subst hij
  obtain rfl := Option.some.inj (ha.symm.trans hb)
  rcases hak with rfl | rfl <;> rcases hbk with rfl | rfl <;> first | rfl | cases halike

end

end

/-! ### Runs -/

/-- The calls that format a volume, and so end a lineage. -/
def Call.Formats : Call → Prop
  | .provision lineage => ∃ block, (Header7.initial lineage).encode = .ok block
  | _ => False

namespace Ledger

/-- A ledger that starts over at a store. -/
def restart (g : Ledger) (s : Store) : Ledger :=
  { g with pending := none, base := some s, seen := s.sequence, history := [] }

section
variable {g : Ledger} {base : Store}

theorem note_base (w : World7) {call : Call} (hcall : ¬ call.Formats) (response : Response) :
    (g.note w call response).base = g.base := by
  unfold note
  split
  · rename_i lineage
    split
    · rename_i block hencode
      exact absurd ⟨block, hencode⟩ hcall
    · rfl
  · rfl
  · rfl
  · rfl
  · rfl
  · rfl
  · split <;> rfl

theorem settle_base (w : World7) (h : g.base = some base) : (g.settle w).base = some base := by
  unfold settle
  split
  · exact h
  · rw [h]

/-- A ledger keeps its first store until a format. -/
theorem step_base (s : Session) {call : Call} (hcall : ¬ call.Formats) (h : g.base = some base) :
    (g.step s call).base = some base := by
  cases s with
  | idle w => exact settle_base _ ((note_base w hcall _).trans h)
  | publishing p => exact settle_base _ h

end

end Ledger

section
variable {g : Ledger} {s : Session} {calls : List Call}

theorem follow_base {base : Store} (hcalls : ∀ call ∈ calls, ¬ call.Formats)
    (h : g.base = some base) : (follow g s calls).1.base = some base := by
  induction calls generalizing g s with
  | nil => exact h
  | cons call calls ih =>
    exact ih (fun c hc => hcalls c (List.mem_cons_of_mem _ hc))
      (g.step_base s (hcalls call List.mem_cons_self) h)

/-- A ledger may start over at any unfenced owner. -/
theorem Inv.restart (h : Inv g s) (hs : s.world.volume.fenced = false) :
    Inv (g.restart s.world.contents.store) s := by
  have hidle : ∀ {w : World7}, Inv g (.idle w) → w.volume.fenced = false →
      Inv (g.restart w.contents.store) (.idle w) := by
    intro w hw hunfenced
    cases hw with
    | ready ready holds pending => exact .ready ready ⟨_, rfl, .refl, rfl⟩ rfl
    | fenced fenced images => exact nomatch fenced.symm.trans hunfenced
  cases s with
  | idle w => exact hidle h hs
  | publishing p =>
    cases h with
    | lent lent fenced holds publishes => exact nomatch fenced.symm.trans hs
    | settled phase pending owner told => exact .settled phase pending (hidle owner hs) told

/-- What the ledger holds of an unfenced owner. -/
theorem Inv.holds (h : Inv g s) (hs : s.world.volume.fenced = false) :
    g.Holds s.world.contents.store := by
  have hidle : ∀ {w : World7}, Inv g (.idle w) → w.volume.fenced = false →
      g.Holds w.contents.store := by
    intro w hw hunfenced
    cases hw with
    | ready ready holds pending => exact holds
    | fenced fenced images => exact nomatch fenced.symm.trans hunfenced
  cases s with
  | idle w => exact hidle h hs
  | publishing p =>
    cases h with
    | lent lent fenced holds publishes => exact nomatch fenced.symm.trans hs
    | settled phase pending owner told => exact hidle owner hs

/-- Between two unfenced owners of one lineage lies a history of publications. -/
theorem Reachable.after (h : Reachable s) (hs : s.world.volume.fenced = false)
    (hcalls : ∀ call ∈ calls, ¬ call.Formats)
    (hend : (s.run calls).world.volume.fenced = false) :
    ∃ published, Store.After s.world.contents.store published
      (s.run calls).world.contents.store := by
  obtain ⟨g, hg⟩ := h.observed
  have hinv := inv_follow (hg.inv.restart hs) calls
  rw [follow_session] at hinv
  obtain ⟨base, hbase, hafter, -⟩ := hinv.holds hend
  rw [follow_base hcalls rfl] at hbase
  cases hbase
  exact ⟨_, hafter⟩

/-- A guard that answers has left its record with an unfenced owner. -/
theorem Reachable.told {p : PollPublication7} {r : Record7} (h : Reachable (.publishing p))
    (hr : p.result = some r) : p.world.volume.fenced = false ∧ p.world.volume.Retains r := by
  unfold PollPublication7.result at hr
  split at hr
  · rename_i hphase
    obtain ⟨g, hg⟩ := h.observed
    cases hg.inv with
    | lent lent fenced holds publishes =>
      obtain ⟨-, ready, -⟩ := lent.done hphase
      exact nomatch fenced.symm.trans ready.unfenced
    | settled phase pending owner told => exact ⟨(told hphase).unfenced, (told hphase).retains r hr⟩
  · cases hr

theorem beginPublication_answer (x : Op PollPublication7) (w : World7) :
    ∃ r, (beginPublication x w).2 = .begun r := by
  unfold beginPublication
  split <;> exact ⟨_, rfl⟩

/-- A call that returned has left an unfenced owner. -/
theorem CallSpec.unfenced {α : Type} {x : Op α} {w : World7} {staged : Fin 2 → List UInt8}
    {request : Request} (hx : CallSpec x w staged request) (ready : Ready w staged) {a : α}
    (ha : (x.run w).1 = .ok a) : (x.run w).2.volume.fenced = false := by
  obtain ⟨after, -, hruns⟩ := hx
  exact ((hruns w.disk ⟨rfl, ready.idle⟩).returned a ha).1.unfenced

/-- The record a call reports: its answer, or the outcome of a committed publication. -/
def Reports (x : Session × Response) (r : Record7) : Prop :=
  x.2 = .record (.ok r) ∨ ∃ p, x.1 = .publishing p ∧ p.result = some r

/-- A reported record is retained by an unfenced owner. -/
theorem Reports.retains (h : Reachable s) {call : Call} {r : Record7}
    (hr : Reports (s.step call) r) : (s.step call).1.world.volume.fenced = false
      ∧ (s.step call).1.world.volume.Retains r := by
  rcases hr with hr | ⟨p, hp, hresult⟩
  · cases s with
    | publishing p => cases call <;> cases hr
    | idle w =>
      have hready : ∀ {x : Op Record7}, x.run w = (.ok r, (x.run w).2) →
          (w.volume.fenced = true → x.run w = (.error .uncertain, w)) →
          ∃ staged, Ready w staged := by
        intro x hx hfenced
        cases hw : w.volume.fenced with
        | true => exact nomatch hx.symm.trans (hfenced hw)
        | false => exact h.ready hw
      cases call with
      | replaceTracked identity version bytes =>
        have hok := Response.record.inj hr
        obtain ⟨staged, ready⟩ := hready (x := replaceTracked identity version bytes)
          (Prod.ext hok rfl) fun hw => run_ready_of_fenced hw _
        exact ⟨(replaceTracked_spec ready identity version bytes).unfenced ready hok,
          replaceTracked_retains ready hok⟩
      | finishTracked stage =>
        have hok := Response.record.inj hr
        obtain ⟨staged, ready⟩ := hready (x := finishTracked stage) (Prod.ext hok rfl)
          fun hw => run_ready_of_fenced hw _
        have hspec : CallSpec (finishTracked stage) w staged
            ((finishRequest w.volume staged stage .replace).getD .maintain) :=
          finishTracked_spec ready stage fun r hr => by rw [hr]; rfl
        exact ⟨hspec.unfenced ready hok, finishTracked_retains ready hok⟩
      | prepareAdmission _ _ _ | finishAdmission _ | prepareExecute _ _
      | prepareCancellation _ _ _ =>
        obtain ⟨_, hbegun⟩ := beginPublication_answer _ w
        exact nomatch hbegun.symm.trans hr
      | _ => cases hr
  · have hreach := h.step call
    rw [hp] at hreach ⊢
    exact hreach.told hresult

/-- The numbers a call tells its caller: a creation the version of its node, any other call the
numbers of the record it reports. -/
inductive Tells (s : Session) (call : Call) : Holder → UInt64 → Prop where
  | version {node : Node7} (answer : (s.step call).2 = .node (.ok node)) :
      Tells s call (.version node.id) node.version
  | commit {r : Record7} (reports : Reports (s.step call) r) (ne : r.committed ≠ 0) :
      Tells s call (.commit r.scope) r.committed
  | admission {r : Record7} (reports : Reports (s.step call) r) (ne : r.admissionNumber ≠ 0) :
      Tells s call (.admission r.scope) r.admissionNumber

/-- Only an idle owner answers a creation. -/
theorem idle_of_node {call : Call} {node : Node7} (h : (s.step call).2 = .node (.ok node)) :
    ∃ w, s = .idle w ∧ Created w node (s.step call).1.world := by
  cases s with
  | publishing p => cases call <;> cases h
  | idle w =>
    refine ⟨w, rfl, ?_⟩
    cases call with
    | create parent name kind => exact create_ok (Prod.ext (Response.node.inj h) rfl)
    | prepareAdmission _ _ _ | finishAdmission _ | prepareExecute _ _ | prepareCancellation _ _ _ =>
      obtain ⟨_, hbegun⟩ := beginPublication_answer _ w
      exact nomatch hbegun.symm.trans h
    | _ => cases h

/-- What a call tells is in the store of an unfenced owner. -/
theorem Tells.stored (h : Reachable s) {call : Call} {k : Holder} {n : UInt64}
    (ht : Tells s call k n) : (s.step call).1.world.volume.fenced = false
      ∧ (s.step call).1.world.contents.store.number k = some n := by
  cases ht with
  | version answer =>
    obtain ⟨w, rfl, hcreated⟩ := idle_of_node answer
    have hunfenced := hcreated.unfenced.2
    obtain ⟨staged, ready⟩ := (h.step call).world_ready hunfenced
    obtain ⟨i, hi⟩ := hcreated.kept
    refine ⟨hunfenced, ?_⟩
    have hentry := entriesOf_slot ((Session.idle w).step call).1.world.disk.medium.view ready.valid
      (i := i) (by rw [hi]; exact hcreated.kind)
    rw [hi] at hentry
    exact congrArg (Option.map Entry.version) hentry
  | commit reports ne =>
    obtain ⟨hunfenced, hretains⟩ := reports.retains h
    obtain ⟨staged, ready⟩ := (h.step call).world_ready hunfenced
    exact ⟨hunfenced, (ready.number_record hretains).1 ne⟩
  | admission reports ne =>
    obtain ⟨hunfenced, hretains⟩ := reports.retains h
    obtain ⟨staged, ready⟩ := (h.step call).world_ready hunfenced
    exact ⟨hunfenced, (ready.number_record hretains).2 ne⟩

/-- A call that tells a number formats nothing: a guard ignores the call. -/
theorem Tells.run {call : Call} {k : Holder} {n : UInt64} (ht : Tells s call k n) :
    ∃ more : List Call, (∀ c ∈ more, ¬ c.Formats) ∧ (s.step call).1 = s.run more := by
  by_cases hformats : call.Formats
  · cases call with
    | provision lineage =>
      refine ⟨[], nofun, ?_⟩
      cases s with
      | publishing p => rfl
      | idle w =>
        have hnone : ∀ r, ¬ Reports ((Session.idle w).step (.provision lineage)) r := by
          rintro r (hr | ⟨p, hp, -⟩)
          · cases hr
          · cases hp
        cases ht with
        | version answer => cases answer
        | commit reports ne | admission reports ne => exact absurd reports (hnone _)
    | _ => cases hformats
  · exact ⟨[call], fun c hc => List.mem_singleton.mp hc ▸ hformats, rfl⟩

end

/-- From one unfenced state of a lineage to another: a list of publications, each with the next
sequence. The watermarks never fall. Every number in the second state was in the first or was
issued by one publication, which its value names, to at most one holder of each kind; so it lies
above every number of the first state. -/
structure Advances (s t : Session) (published : List Request) : Prop where
  history : Store.After s.world.contents.store published t.world.contents.store
  sequence : t.world.volume.header.sequence.toNat
    = s.world.volume.header.sequence.toNat + published.length
  next : s.world.volume.header.next ≤ t.world.volume.header.next
  epoch : s.world.volume.header.epoch ≤ t.world.volume.header.epoch
  ids : ∀ id e, s.world.contents.store.entries id = some e → id < s.world.volume.header.next
  numbers : ∀ k n, s.world.contents.store.number k = some n → n ≤ s.world.volume.header.sequence
  issued : ∀ k n, t.world.contents.store.number k = some n →
    s.world.contents.store.number k = some n ∨ ∃ i, Store.Issues s.world.contents.store published
      t.world.contents.store i k n
  unique : ∀ i j k k' n,
    Store.Issues s.world.contents.store published t.world.contents.store i k n →
      n.toNat = s.world.volume.header.sequence.toNat + i + 1
        ∧ (Store.Issues s.world.contents.store published t.world.contents.store j k' n →
          i = j ∧ (k.Alike k' → k = k'))

theorem Reachable.advances {s : Session} (h : Reachable s) (hs : s.world.volume.fenced = false)
    {calls : List Call} (hcalls : ∀ call ∈ calls, ¬ call.Formats)
    (hend : (s.run calls).world.volume.fenced = false) :
    ∃ published, Advances s (s.run calls) published := by
  obtain ⟨staged, hready⟩ := h.world_ready hs
  have hbounded := hready.bounded
  obtain ⟨published, hafter⟩ := h.after hs hcalls hend
  refine ⟨published, hafter, hafter.sequence, hafter.next_le, (hafter.epoch_le hbounded.epoch).1,
    hbounded.id, hbounded.number, fun k n hn => hafter.number hn, fun i j k k' n hi => ?_⟩
  obtain ⟨hnumber, hk⟩ := Store.After.issues_number hi
  refine ⟨hnumber, fun hj => ?_⟩
  obtain ⟨hnumber', hk'⟩ := Store.After.issues_number hj
  obtain rfl : i = j := Fin.ext (by omega)
  exact ⟨rfl, Request.holders_alike hk hk'⟩

/-- What holds along a run of calls from a session. -/
structure Monotone (s : Session) (calls : List Call) : Prop where
  advances : s.world.volume.fenced = false → (s.run calls).world.volume.fenced = false →
    ∃ published, Advances s (s.run calls) published
  created : ∀ call call' node node', (s.step call).2 = .node (.ok node) →
    (((s.step call).1.run calls).step call').2 = .node (.ok node') →
      node.id < node'.id ∧ node.version < node'.version
  told : ∀ call k n, Tells s call k n → (s.step call).1.world.volume.fenced = false
    ∧ (s.step call).1.world.contents.store.number k = some n
  unique : ∀ call call' k k' n, Tells s call k n →
    Tells ((s.step call).1.run calls) call' k' n → k.Alike k' → k = k'

/-- Identity monotonicity. Two unfenced states of one lineage are a list of publications apart,
whatever was called, failed, crashed and was mounted between them. A creation returns a larger
identity and a larger version than every earlier one. What a call answers is in the store, and no
number is ever told for two things of a kind. -/
theorem identity_monotonicity {s : Session} (h : Reachable s) {calls : List Call}
    (hcalls : ∀ call ∈ calls, ¬ call.Formats) : Monotone s calls := by
  refine ⟨fun hs hend => h.advances hs hcalls hend, fun call call' node node' hnode hnode' => ?_,
    fun call k n ht => ht.stored h, fun call call' k k' n ht ht' halike => ?_⟩
  · obtain ⟨w, rfl, hcreated⟩ := idle_of_node hnode
    obtain ⟨w', hw', hcreated'⟩ := idle_of_node hnode'
    have hunfenced := hcreated.unfenced.2
    obtain ⟨published, ha⟩ := (h.step call).advances hunfenced hcalls
      (by rw [hw']; exact hcreated'.unfenced.1)
    have hnext := UInt32.le_iff_toNat_le.mp ha.next
    have hversion := UInt64.le_iff_toNat_le.mp
      (ha.numbers _ _ ((Tells.version hnode).stored h).2)
    have hsequence := ha.sequence
    rw [hw'] at hnext hsequence
    constructor
    · rw [hcreated.next] at hnext
      rw [UInt32.lt_iff_toNat_lt, hcreated'.id]
      exact hnext
    · rw [UInt64.lt_iff_toNat_lt, hcreated'.version]
      change w'.volume.header.sequence.toNat = _ at hsequence
      omega
  · obtain ⟨hunfenced, hk⟩ := ht.stored h
    have hreach : Reachable ((s.step call).1.run calls) := (h.step call).run calls
    obtain ⟨hunfenced', hk'⟩ := ht'.stored hreach
    obtain ⟨more, hmore, hrun⟩ := ht'.run
    have hall : ∀ c ∈ calls ++ more, ¬ c.Formats := fun c hc =>
      (List.mem_append.mp hc).elim (hcalls c) (hmore c)
    rw [hrun, ← Session.run_append] at hunfenced' hk'
    obtain ⟨published, ha⟩ := (h.step call).advances hunfenced hall hunfenced'
    have hbound := UInt64.le_iff_toNat_le.mp (ha.numbers k n hk)
    -- the number was told by the first call already, so no later publication has issued it
    have hold : (s.step call).1.world.contents.store.number k' = some n := by
      refine (ha.issued k' n hk').resolve_right ?_
      rintro ⟨i, hi⟩
      have := (ha.unique i i k' k' n hi).1
      omega
    obtain ⟨staged, ready⟩ := (h.step call).world_ready hunfenced
    cases ht with
    | commit reports ne | admission reports ne =>
      exact ready.number_alike hk hold halike nofun
    | version answer =>
      obtain ⟨w, rfl, hcreated⟩ := idle_of_node answer
      obtain ⟨first, hfirst, hstep⟩ := (Tells.version answer).run
      rw [hstep] at hunfenced hk hold
      obtain ⟨published, ha⟩ := h.advances hcreated.unfenced.1 hfirst hunfenced
      have hfresh : ∀ k, (Session.idle w).world.contents.store.number k ≠ some _ := fun k hn => by
        have := UInt64.le_iff_toNat_le.mp (ha.numbers k _ hn)
        rw [hcreated.version] at this
        exact absurd this (by show ¬ (_ + 1 ≤ w.volume.header.sequence.toNat); omega)
      obtain ⟨i, hi⟩ := (ha.issued _ _ hk).resolve_left (hfresh _)
      obtain ⟨j, hj⟩ := (ha.issued _ _ hold).resolve_left (hfresh _)
      exact ((ha.unique i j _ _ _ hi).2 hj).2 halike

theorem canCreate_written : CanCreate writtenVolume.toGeneration7 5 1 2 [98] .file where
  sequence := by decide +kernel
  next := by decide +kernel
  kind_ne := by decide
  valid := by decide
  live := by unfold Live; decide +kernel
  parent_id := by decide +kernel
  directory := by decide +kernel
  writable := by decide +kernel
  free := by unfold Live; decide +kernel
  found := by decide +kernel

/-- A second file is made once the owner of the first was lost and its disk mounted again. -/
theorem create_remounted {d : Disk} (h : Reachable (.idle ⟨writtenVolume, d, 1⟩)) :
    ∃ v, (Session.idle ⟨writtenVolume, d, 1⟩).run [.powerCut [] reliable, .mount] = .idle v
      ∧ Tells (.idle v) (.create 2 [98] .file) (.version 6) 4 := by
  obtain ⟨staged, ready⟩ := h.ready rfl
  obtain ⟨v, hmount, ⟨_, ready'⟩, hdone, hsame⟩ :=
    mount_after_cut (s := .idle ⟨writtenVolume, d, 1⟩) []
      (P := fun c => c.toGeneration7 = writtenVolume.toGeneration7)
      fun img himg => ⟨_, ready.images himg, rfl⟩
  have hsame : v.volume.toGeneration7 = writtenVolume.toGeneration7 := hsame
  obtain ⟨_, -, hcreate⟩ := create_returns ready' (hsame ▸ canCreate_written) hdone
  refine ⟨v, by rw [Session.run_cons, Session.run_cons, hmount]; rfl, ?_⟩
  have hnode : (madeNode v.volume.toGeneration7 1 2 [98] .file).id = 6
      ∧ (madeNode v.volume.toGeneration7 1 2 [98] .file).version = 4 := by
    rw [hsame]
    decide +kernel
  have htells : Tells (.idle v) (.create 2 [98] .file) _ _ :=
    .version (congrArg Response.node (congrArg Prod.fst hcreate))
  rwa [hnode.1, hnode.2] at htells

/-- A file is made and written, the power fails, and a second file is made. -/
theorem identity_monotonicity_filed : ∃ filed written mounted,
    ((Session.idle provisioned).step (.create 2 [97] .file)).1 = filed
      ∧ Tells (.idle provisioned) (.create 2 [97] .file) (.version 5) 2
      ∧ (filed.step (.replaceTracked someIdentity 2 [104, 105])).1 = written
      ∧ Tells filed (.replaceTracked someIdentity 2 [104, 105]) (.commit someIdentity.scope) 3
      ∧ written.run [.powerCut [] reliable, .mount] = mounted
      ∧ Tells mounted (.create 2 [98] .file) (.version 6) 4
      ∧ Monotone (.idle provisioned) [.replaceTracked someIdentity 2 [104, 105],
          .powerCut [] reliable, .mount]
      ∧ Monotone filed [.powerCut [] reliable, .mount] := by
  obtain ⟨d, hd, hcreate⟩ := create_provisioned
  have hfiled := provisioned_reachable.finishOp (.create 2 [97] .file) rfl hcreate
  obtain ⟨r, d', hd', hscope, hcommitted, hreplace⟩ := replace_filed hd hfiled
  have hwritten := hfiled.finishOp (.replaceTracked someIdentity 2 [104, 105]) rfl hreplace
  obtain ⟨v, hmounted, htells⟩ := create_remounted hwritten
  refine ⟨.idle ⟨filedVolume, d, 1⟩, .idle ⟨writtenVolume, d', 1⟩, .idle v, ?_, ?_, ?_, ?_,
    hmounted, htells, identity_monotonicity provisioned_reachable (by simp [Call.Formats]),
    identity_monotonicity hfiled (by simp [Call.Formats])⟩
  · exact congrArg (fun x => Session.idle x.2) hcreate
  · have hnode : (madeNode provisionedVolume.toGeneration7 1 2 [97] .file).id = 5
        ∧ (madeNode provisionedVolume.toGeneration7 1 2 [97] .file).version = 2 := by decide +kernel
    have htold : Tells (.idle provisioned) (.create 2 [97] .file) _ _ :=
      .version (congrArg Response.node (congrArg Prod.fst hcreate))
    rwa [hnode.1, hnode.2] at htold
  · exact congrArg (fun x => Session.idle x.2) hreplace
  · rw [← hscope, ← hcommitted]
    refine .commit (Or.inl (congrArg Response.record (congrArg Prod.fst hreplace))) ?_
    rw [hcommitted]
    decide

end RusticOs.Fs
