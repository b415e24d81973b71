import RusticOs.Kernel.Block
import RusticOs.Proofs.Handles

/-!
# `RusticOs.Proofs.Block`: what one call to the block broker does

`Change` says once what a call that succeeds does to the handles and the records, with every
condition the broker checked. A call that is refused does nothing. `outcome` proves both for
every valid broker; the finishing of a request is for the one the device has.

- `Broker.Valid`: one record an owner, one active request, and who may still read a record.
- `outcome`: one call.
-/

set_option autoImplicit false

namespace RusticOs.Kernel.Block

open RusticOs.Lib RusticOs.Lib.Fallible
open RusticOs.Fs (checkedAdd checkedAdd_eq_some)

/-! ### Grants -/

/-- A sector of a grant. -/
def Grant.Covers (g : Grant) (sector : UInt64) : Prop :=
  g.first.toNat ≤ sector.toNat ∧ sector.toNat < g.first.toNat + g.sectors.toNat

/-- What was checked of a grant. -/
structure Grant.Fits (g : Grant) : Prop where
  nonempty : 0 < g.sectors.toNat
  whole : g.rights &&& FLUSH ≠ 0 → g.first = 0

/-- An accepted grant is not empty, and starts at 0 when it may flush. -/
theorem Grant.validate_ok {g : Grant} {capacity : UInt64} {u : Unit}
    (h : g.validate capacity = .ok u) : g.Fits := by
  unfold validate at h
  obtain ⟨_, hrange, hflush⟩ := except_bind_eq_ok.mp h
  rw [reject_eq_ok] at hrange hflush
  constructor
  · apply Nat.pos_of_ne_zero
    intro hzero
    exact hrange (Or.inl (UInt64.toNat_inj.mp hzero))
  · intro hright
    by_contra hfirst
    exact hflush ⟨hright, Or.inl hfirst⟩

/-- A translated sector lies inside the grant. -/
theorem Grant.sector_ok {g : Grant} {relative sector : UInt64}
    (h : g.sector relative = .ok sector) : g.Covers sector := by
  unfold Grant.sector at h
  obtain ⟨_, hrange, hsum⟩ := except_bind_eq_ok.mp h
  rw [reject_eq_ok, UInt64.not_le, UInt64.lt_iff_toNat_lt] at hrange
  rw [orRefuse_eq_ok, checkedAdd_eq_some] at hsum
  unfold Covers
  omega

/-- Sector 0 is in every grant that may flush. -/
theorem Grant.Fits.covers_zero {g : Grant} (h : g.Fits) (hright : g.rights &&& FLUSH = FLUSH) :
    g.Covers 0 := by
  have hfirst : g.first = 0 := h.whole (by rw [hright]; decide)
  have hsome := h.nonempty
  unfold Covers
  rw [hfirst]
  simp
  exact hsome

/-! ### Validity -/

/-- The state every sequence of calls keeps. -/
structure Broker.Valid (s : Broker) : Prop where
  handles : s.handles.Valid
  grants : ∀ id e, s.handles.find id = some e → e.rights = e.object.rights ∧ e.object.Fits
  below : ∀ (i : Fin RECORDS) r, s.records[i] = some r → r.result.id.toNat < s.next.toNat
  owners : ∀ (i j : Fin RECORDS) r r', s.records[i] = some r → s.records[j] = some r' →
    r.owner = r'.owner → i = j
  single : ∀ (i j : Fin RECORDS) r r', s.records[i] = some r → s.records[j] = some r' →
    r.phase = .active → r'.phase = .active → i = j
  ids : ∀ (i j : Fin RECORDS) r r', s.records[i] = some r → s.records[j] = some r' →
    r.result.id = r'.result.id → i = j
  live : ∀ (i : Fin RECORDS) r, s.records[i] = some r → r.abandoned = false →
    ∃ e, s.handles.Held r.owner r.handle e
  away : ∀ (i : Fin RECORDS) r, s.records[i] = some r → r.abandoned = true → r.phase = .active

/-- A new broker has no grants and no requests. -/
theorem Broker.valid_new : Broker.new.Valid := by
  have hnone : ∀ i : Fin RECORDS, Broker.new.records[i] = none := by
    intro i
    simp [new]
  constructor
  case handles => exact Table.valid_new 1 ALL 0
  case grants =>
    intro id e h
    rw [show Broker.new.handles.find id = none from Table.find_new 1 ALL 0 id] at h
    cases h
  all_goals
    intro i
    simp [hnone]

section
variable {s : Broker} {slot : Fin RECORDS} {r : Record}

/-- The broker with one record changed. -/
def Broker.put (s : Broker) (slot : Fin RECORDS) (x : Option Record) : Broker :=
  { s with records := s.records.setAt slot x }

/-- The records after one slot is written. -/
theorem Broker.put_eq_some {x : Option Record} {i : Fin RECORDS} {r' : Record} :
    (s.put slot x).records[i] = some r'
      ↔ (i = slot ∧ x = some r') ∨ (i ≠ slot ∧ s.records[i] = some r') :=
  Slots.setAt_eq_some

/-- A broker whose records each stand for one of a valid broker. -/
theorem Broker.Valid.of_origin {s' : Broker} (v : s.Valid) (handles : s'.handles.Valid)
    (grants : ∀ id e, s'.handles.find id = some e → e.rights = e.object.rights ∧ e.object.Fits)
    (hnext : s'.next = s.next)
    (horigin : ∀ (i : Fin RECORDS) q, s'.records[i] = some q →
      ∃ q₀, s.records[i] = some q₀ ∧ q.owner = q₀.owner ∧ q.result.id = q₀.result.id)
    (single : ∀ (i j : Fin RECORDS) r r', s'.records[i] = some r → s'.records[j] = some r' →
      r.phase = .active → r'.phase = .active → i = j)
    (live : ∀ (i : Fin RECORDS) r, s'.records[i] = some r → r.abandoned = false →
      ∃ e, s'.handles.Held r.owner r.handle e)
    (away : ∀ (i : Fin RECORDS) r, s'.records[i] = some r → r.abandoned = true →
      r.phase = .active) : s'.Valid where
  handles := handles
  grants := grants
  single := single
  live := live
  away := away
  below := by
    intro i q h
    obtain ⟨q₀, h₀, -, hid⟩ := horigin i q h
    rw [hid, hnext]
    exact v.below i q₀ h₀
  owners := by
    intro i j q q' h h' heq
    obtain ⟨q₀, h₀, howner, -⟩ := horigin i q h
    obtain ⟨q₁, h₁, howner', -⟩ := horigin j q' h'
    exact v.owners i j q₀ q₁ h₀ h₁ (by rw [← howner, heq, howner'])
  ids := by
    intro i j q q' h h' heq
    obtain ⟨q₀, h₀, -, hid⟩ := horigin i q h
    obtain ⟨q₁, h₁, -, hid'⟩ := horigin j q' h'
    exact v.ids i j q₀ q₁ h₀ h₁ (by rw [← hid, heq, hid'])

/-- A record dropped. -/
theorem Broker.Valid.drop (v : s.Valid) (slot : Fin RECORDS) : (s.put slot none).Valid := by
  have hold : ∀ (i : Fin RECORDS) r, (s.put slot none).records[i] = some r →
      s.records[i] = some r := by
    intro i r h
    rcases put_eq_some.mp h with ⟨-, h⟩ | ⟨-, h⟩
    · cases h
    · exact h
  exact v.of_origin v.handles v.grants rfl (fun i r h => ⟨r, hold i r h, rfl, rfl⟩)
    (fun i j r r' h h' => v.single i j r r' (hold i r h) (hold j r' h'))
    (fun i r h => v.live i r (hold i r h)) fun i r h => v.away i r (hold i r h)

/-- A record that changed and stayed the record of the same request. -/
structure SameRequest (r r' : Record) : Prop where
  owner : r'.owner = r.owner
  handle : r'.handle = r.handle
  sector : r'.sector = r.sector
  id : r'.result.id = r.result.id
  operation : r'.result.operation = r.result.operation

/-- An unchanged record. -/
theorem SameRequest.refl (r : Record) : SameRequest r r := ⟨rfl, rfl, rfl, rfl, rfl⟩

/-- A record moved on to another phase. -/
theorem Broker.Valid.update {r' : Record} (v : s.Valid) (hslot : s.records[slot] = some r)
    (hsame : SameRequest r r') (hkept : r'.abandoned = r.abandoned)
    (haway : r'.abandoned = true → r'.phase = .active)
    (hactive : r'.phase = .active → ∀ (j : Fin RECORDS) q, s.records[j] = some q → j ≠ slot →
      q.phase ≠ .active) : (s.put slot (some r')).Valid := by
  -- a record of the new table stands for one of the old table
  have hold : ∀ (i : Fin RECORDS) q, (s.put slot (some r')).records[i] = some q →
      (i = slot ∧ q = r') ∨ (i ≠ slot ∧ s.records[i] = some q) := by
    intro i q h
    rcases put_eq_some.mp h with ⟨hi, h⟩ | h
    · exact Or.inl ⟨hi, (Option.some.inj h).symm⟩
    · exact Or.inr h
  refine v.of_origin v.handles v.grants rfl ?horigin ?single ?live ?away
  case horigin =>
    intro i q h
    rcases hold i q h with ⟨rfl, rfl⟩ | ⟨-, h⟩
    · exact ⟨r, hslot, hsame.owner, hsame.id⟩
    · exact ⟨q, h, rfl, rfl⟩
  case single =>
    intro i j q q' h h' hq hq'
    rcases hold i q h with ⟨hi, hqr⟩ | ⟨hi, h₀⟩ <;>
      rcases hold j q' h' with ⟨hj, hqr'⟩ | ⟨hj, h₁⟩
    · rw [hi, hj]
    · exact absurd hq' (hactive (hqr ▸ hq) j q' h₁ hj)
    · exact absurd hq (hactive (hqr' ▸ hq') i q h₀ hi)
    · exact v.single i j q q' h₀ h₁ hq hq'
  case live =>
    intro i q h hq
    rcases hold i q h with ⟨rfl, rfl⟩ | ⟨-, h⟩
    · rw [hsame.owner, hsame.handle]
      exact v.live i r hslot (hkept ▸ hq)
    · exact v.live i q h hq
  case away =>
    intro i q h hq
    rcases hold i q h with ⟨rfl, rfl⟩ | ⟨-, h⟩
    · exact haway hq
    · exact v.away i q h hq

/-- Starting keeps the request. -/
theorem sameRequest_activated (r : Record) : SameRequest r r.activated := ⟨rfl, rfl, rfl, rfl, rfl⟩

/-- Finishing keeps it. -/
theorem sameRequest_finished (r : Record) (status : Status) (data : Bytes SECTOR) :
    SameRequest r (r.finished status data) := ⟨rfl, rfl, rfl, rfl, rfl⟩

/-- So does cancelling. -/
theorem sameRequest_cancelled (r : Record) : SameRequest r r.cancelled := ⟨rfl, rfl, rfl, rfl, rfl⟩

/-- A record is not abandoned while its request is queued or complete. -/
theorem Broker.Valid.kept (v : s.Valid) (hslot : s.records[slot] = some r)
    (hphase : r.phase ≠ .active) : r.abandoned = false := by
  cases habandoned : r.abandoned with
  | false => rfl
  | true => exact absurd (v.away slot r hslot habandoned) hphase

end

/-! ### What a call does -/

/-- What is left of the records when handles are closed. -/
def Withdrawn (records records' : Slots Record RECORDS) : Prop :=
  ∀ i : Fin RECORDS, records'[i] = records[i] ∨ ∃ r, records[i] = some r
    ∧ ((r.phase ≠ .active ∧ records'[i] = none)
      ∨ (r.phase = .active ∧ records'[i] = some { r with abandoned := true }))

/-- What a call that succeeds does. -/
inductive Change (s : Broker) : Call → Value → Broker → Prop
  | granted {owner capacity id : UInt64} {g : Grant} {handles : Handles} (hfits : g.Fits)
      (h : Table.Granted s.handles handles ⟨id, owner, g, g.rights⟩) :
      Change s (.grant owner g capacity) (.number id) { s with handles := handles }
  | admitted {owner handle relative sector next : UInt64} {operation : Operation}
      {data : Bytes SECTOR} {physical : Geometry} {slot : Fin RECORDS} {e : Entry Grant}
      (hheld : s.handles.Held owner handle e)
      (hright : e.rights &&& operation.right = operation.right)
      (hsector : e.object.Covers sector)
      (howner : ∀ (j : Fin RECORDS) r, s.records[j] = some r → r.owner ≠ owner)
      (hslot : s.records[slot] = none) (hnext : next.toNat = s.next.toNat + 1) :
      Change s (.admission owner handle operation relative data physical) (.number s.next)
        ({ s with next := next }.put slot (some (s.admitted owner handle operation sector data)))
  | idle : Change s .start (.pending none) s
  | started {slot : Fin RECORDS} {r : Record} (hslot : s.records[slot] = some r)
      (hqueued : r.phase = .queued)
      (hnone : ∀ (j : Fin RECORDS) q, s.records[j] = some q → q.phase ≠ .active)
      (hleast : ∀ (j : Fin RECORDS) q, s.records[j] = some q → q.phase = .queued →
        r.result.id.toNat ≤ q.result.id.toNat) :
      Change s .start (.pending (some r.pending)) (s.put slot (some r.activated))
  | finished {slot : Fin RECORDS} {r : Record} {status : Status} {data : Bytes SECTOR}
      (hslot : s.records[slot] = some r) (hactive : r.phase = .active)
      (hkept : r.abandoned = false) :
      Change s (.finish r.result.id status data) .none
        (s.put slot (some (r.finished status data)))
  | dropped {slot : Fin RECORDS} {r : Record} {status : Status} {data : Bytes SECTOR}
      (hslot : s.records[slot] = some r) (hactive : r.phase = .active)
      (habandoned : r.abandoned = true) :
      Change s (.finish r.result.id status data) .none (s.put slot none)
  | peeked {owner handle : UInt64} {slot : Fin RECORDS} {r : Record}
      (hslot : s.records[slot] = some r) (howner : r.owner = owner) (hhandle : r.handle = handle)
      (hcomplete : r.phase = .complete) : Change s (.peek owner handle) (.completion r.result) s
  | consumed {owner handle : UInt64} {slot : Fin RECORDS} {r : Record}
      (hslot : s.records[slot] = some r) (howner : r.owner = owner) (hhandle : r.handle = handle)
      (hcomplete : r.phase = .complete) (hpeek : s.peek owner handle = .ok r.result) :
      Change s (.consume owner handle) .none (s.put slot none)
  | late {owner handle id : UInt64} : Change s (.cancel owner handle id) (.number 1) s
  | cancelled {owner handle : UInt64} {slot : Fin RECORDS} {r : Record}
      (hslot : s.records[slot] = some r) (howner : r.owner = owner) (hhandle : r.handle = handle)
      (hqueued : r.phase = .queued) :
      Change s (.cancel owner handle r.result.id) (.number 0) (s.put slot (some r.cancelled))
  | closed {owner handle : UInt64} {s' : Broker} (hrecords : Withdrawn s.records s'.records)
      (hnext : s'.next = s.next)
      (hfind : ∀ id e, s'.handles.find id = some e → s.handles.find id = some e)
      (hgone : ∀ (i : Fin RECORDS) r, s'.records[i] = some r → r.handle = handle →
        r.phase = .active) :
      Change s (.close owner handle) .none s'
  | ownerClosed {owner : UInt64} {s' : Broker} (hrecords : Withdrawn s.records s'.records)
      (hnext : s'.next = s.next)
      (hfind : ∀ id e, s'.handles.find id = some e → s.handles.find id = some e)
      (hgone : ∀ (i : Fin RECORDS) r, s'.records[i] = some r → r.owner = owner →
        r.phase = .active) :
      Change s (.closeOwner owner) .none s'

/-- What a call leads to: a valid broker, changed as the call says or not at all. -/
inductive Outcome (s : Broker) (call : Call) : Answer → Broker → Prop
  | done {value : Value} {s' : Broker} (hvalid : s'.Valid) (h : Change s call value s') :
      Outcome s call (.ok value) s'
  | refused {error : Error} (hvalid : s.Valid) : Outcome s call (.error (.refused error)) s

/-- A call has its outcome. -/
abbrev Settles (s : Broker) (call : Call) : Prop :=
  Leads (Broker.perform call) s (Outcome s call)

section
variable {s s' : Broker}

/-! ### Granting -/

/-- A handle error is only renamed. -/
theorem held_eq_ok {α : Type} {x : Except HandleError α} {a : α} : held x = .ok a ↔ x = .ok a := by
  cases x <;> simp [held, Except.mapError]

/-- A grant is validated before a handle is made for it. -/
theorem outcome_grant (v : s.Valid) (owner : UInt64) (g : Grant) (capacity : UInt64) :
    Settles s (.grant owner g capacity) := by
  unfold Settles Broker.perform Broker.grant
  simp only [bind_assoc]
  refine .get_bind (.check_bind (fun _ _ => .refused v) fun _ hvalidate =>
    .check_bind (fun _ _ => .refused v) fun ⟨id, handles⟩ hgrant => ?_)
  have hfits := Grant.validate_ok hvalidate
  obtain ⟨hnew, -⟩ := Table.grant_ok v.handles (held_eq_ok.mp hgrant)
  refine Outcome.done ?_ (.granted hfits hnew)
  -- the entries are the old ones and the new one
  have hentry : ∀ i e, handles.find i = some e →
      e = ⟨id, owner, g, g.rights⟩ ∨ s.handles.find i = some e := by
    intro i e he
    rw [hnew.find] at he
    by_cases hi : i = id
    · subst hi
      rw [Function.update_self] at he
      exact Or.inl (Option.some.inj he).symm
    · rw [Function.update_of_ne hi] at he
      exact Or.inr he
  constructor
  case handles => exact hnew.valid
  case grants =>
    intro i e he
    rcases hentry i e he with rfl | he
    · exact ⟨rfl, hfits⟩
    · exact v.grants i e he
  case live =>
    intro i r hr hkept
    obtain ⟨e, hfind, howner⟩ := v.live i r hr hkept
    refine ⟨e, ?_, howner⟩
    show handles.find r.handle = some e
    have hne : r.handle ≠ id := by
      rintro rfl
      have hfresh : s.handles.find r.handle = none := hnew.fresh
      rw [hfresh] at hfind
      cases hfind
    rw [hnew.find, Function.update_of_ne hne, hfind]
  case below => exact v.below
  case owners => exact v.owners
  case single => exact v.single
  case ids => exact v.ids
  case away => exact v.away

/-! ### Admitting -/

variable {owner handle : UInt64} {i : Fin RECORDS} {r : Record}

/-- A checked sector is covered by a handle that carries the right. -/
theorem Broker.Valid.check_ok (v : s.Valid) {relative sector : UInt64} {operation : Operation}
    {physical : Geometry} (h : s.check owner handle operation relative physical = .ok sector) :
    ∃ e, s.handles.Held owner handle e ∧ e.rights &&& operation.right = operation.right
      ∧ e.object.Covers sector := by
  unfold Broker.check at h
  obtain ⟨g, hresolve, h⟩ := except_bind_eq_ok.mp h
  obtain ⟨x, hsector, h⟩ := except_bind_eq_ok.mp h
  obtain ⟨_, -, h⟩ := except_bind_eq_ok.mp h
  cases h
  obtain ⟨e, he, hright, rfl⟩ := (Table.resolve_eq_ok v.handles).mp (held_eq_ok.mp hresolve)
  refine ⟨e, he, hright, ?_⟩
  unfold Grant.target at hsector
  split at hsector
  · -- a flush: sector 0 of a grant of the whole disk
    rename_i hflush
    cases hsector
    obtain ⟨hrights, hfits⟩ := v.grants handle e he.1
    apply hfits.covers_zero
    rw [← hrights]
    rw [hflush] at hright
    exact hright
  · exact Grant.sector_ok hsector

/-- A request is placed when its owner has none and a record is free. -/
theorem place_ok {next : UInt64} {slot : Fin RECORDS} (h : s.place owner = .ok (slot, next)) :
    (∀ (j : Fin RECORDS) r, s.records[j] = some r → r.owner ≠ owner)
      ∧ s.records[slot] = none ∧ next.toNat = s.next.toNat + 1 := by
  unfold Broker.place at h
  obtain ⟨_, hfree, h⟩ := except_bind_eq_ok.mp h
  obtain ⟨slot', hslot, h⟩ := except_bind_eq_ok.mp h
  obtain ⟨next', hnext, h⟩ := except_bind_eq_ok.mp h
  cases h
  rw [reject_eq_ok, Option.not_isSome_iff_eq_none, Slots.position_eq_none] at hfree
  rw [orRefuse_eq_ok, Option.filter_eq_some_iff, checkedAdd_eq_some] at hnext
  refine ⟨?_, Slots.vacant_eq_some (orRefuse_eq_ok.mp hslot), hnext.1.symm⟩
  intro j r hj howner
  have htest := hfree j r hj
  simp [howner] at htest

/-- A new record under a new number. -/
theorem Broker.Valid.insert (v : s.Valid) {sector next : UInt64} {operation : Operation}
    {data : Bytes SECTOR} {slot : Fin RECORDS} {e : Entry Grant}
    (hheld : s.handles.Held owner handle e)
    (howner : ∀ (j : Fin RECORDS) r, s.records[j] = some r → r.owner ≠ owner)
    (hnext : next.toNat = s.next.toNat + 1) :
    ({ s with next := next }.put slot (some (s.admitted owner handle operation sector data))).Valid
    := by
  have hold : ∀ (i : Fin RECORDS) r, ({ s with next := next }.put slot
      (some (s.admitted owner handle operation sector data))).records[i] = some r →
      (i = slot ∧ r = s.admitted owner handle operation sector data)
        ∨ (i ≠ slot ∧ s.records[i] = some r) := by
    intro i r h
    rcases Broker.put_eq_some.mp h with ⟨hi, h⟩ | h
    · exact Or.inl ⟨hi, (Option.some.inj h).symm⟩
    · exact Or.inr h
  constructor
  case handles => exact v.handles
  case grants => exact v.grants
  case below =>
    intro i r h
    show r.result.id.toNat < next.toNat
    rcases hold i r h with ⟨-, rfl⟩ | ⟨-, h⟩
    · show s.next.toNat < next.toNat
      omega
    · have := v.below i r h
      omega
  case owners =>
    intro i j r r' h h' heq
    rcases hold i r h with ⟨hi, rfl⟩ | ⟨-, h⟩ <;> rcases hold j r' h' with ⟨hj, rfl⟩ | ⟨-, h'⟩
    · rw [hi, hj]
    · exact absurd heq.symm (howner j r' h')
    · exact absurd heq (howner i r h)
    · exact v.owners i j r r' h h' heq
  case ids =>
    intro i j r r' h h' heq
    rcases hold i r h with ⟨hi, rfl⟩ | ⟨-, h⟩ <;> rcases hold j r' h' with ⟨hj, rfl⟩ | ⟨-, h'⟩
    · rw [hi, hj]
    · have hlt := v.below j r' h'
      rw [← heq] at hlt
      exact absurd hlt (lt_irrefl _)
    · have hlt := v.below i r h
      rw [heq] at hlt
      exact absurd hlt (lt_irrefl _)
    · exact v.ids i j r r' h h' heq
  case single =>
    intro i j r r' h h' hr hr'
    rcases hold i r h with ⟨-, rfl⟩ | ⟨-, h⟩
    · cases hr
    rcases hold j r' h' with ⟨-, rfl⟩ | ⟨-, h'⟩
    · cases hr'
    exact v.single i j r r' h h' hr hr'
  case live =>
    intro i r h hkept
    rcases hold i r h with ⟨-, rfl⟩ | ⟨-, h⟩
    · exact ⟨e, hheld⟩
    · exact v.live i r h hkept
  case away =>
    intro i r h habandoned
    rcases hold i r h with ⟨-, rfl⟩ | ⟨-, h⟩
    · cases habandoned
    · exact v.away i r h habandoned

/-- An admission: refused, or queued under a new id. -/
theorem outcome_admission (v : s.Valid) (owner handle : UInt64) (operation : Operation)
    (relative : UInt64) (data : Bytes SECTOR) (physical : Geometry) :
    Settles s (.admission owner handle operation relative data physical) := by
  unfold Settles Broker.perform Broker.admission
  simp only [bind_assoc]
  refine .get_bind (.check_bind (fun _ _ => .refused v) fun sector hcheck =>
    .check_bind (fun _ _ => .refused v) fun ⟨slot, next⟩ hplace => ?_)
  obtain ⟨e, hheld, hright, hsector⟩ := v.check_ok hcheck
  obtain ⟨howner, hslot, hnext⟩ := place_ok hplace
  exact Outcome.done (v.insert hheld howner hnext)
    (.admitted hheld hright hsector howner hslot hnext)

/-! ### Starting and finishing -/

/-- No request is active. -/
theorem active_eq_none (h : s.active = none) (j : Fin RECORDS) (r : Record)
    (hj : s.records[j] = some r) : r.phase ≠ .active := by
  unfold Broker.active at h
  rw [Option.map_eq_none_iff, Slots.position_eq_none] at h
  simpa using h j r hj

/-- The active id is that of an active record. -/
theorem active_eq_some {id : UInt64} (h : s.active = some id) :
    ∃ (i : Fin RECORDS) (r : Record), s.records[i] = some r ∧ r.phase = .active
      ∧ r.result.id = id := by
  unfold Broker.active at h
  rw [Option.map_eq_some_iff] at h
  obtain ⟨⟨i, r⟩, hfound, hid⟩ := h
  obtain ⟨hi, hactive⟩ := Slots.position_eq_some hfound
  exact ⟨i, r, hi, by simpa using hactive, hid⟩

/-- The queue lists the queued records. -/
theorem mem_queue : (i, r) ∈ s.queue ↔ s.records[i] = some r ∧ r.phase = .queued := by
  unfold Broker.queue
  rw [List.mem_filterMap]
  constructor
  · rintro ⟨j, -, hj⟩
    obtain ⟨q, hq, heq⟩ := Option.map_eq_some_iff.mp hj
    cases heq
    obtain ⟨hslot, hphase⟩ := Option.filter_eq_some_iff.mp hq
    exact ⟨hslot, by simpa using hphase⟩
  · rintro ⟨hslot, hphase⟩
    refine ⟨i, List.mem_finRange i, Option.map_eq_some_iff.mpr ⟨r, ?_, rfl⟩⟩
    rw [Option.filter_eq_some_iff]
    exact ⟨hslot, by simp [hphase]⟩

/-- A start takes the oldest queued record, when none is active. -/
theorem outcome_start (v : s.Valid) : Settles s .start := by
  show Outcome s .start (.ok (.pending s.start.1)) s.start.2
  unfold Broker.start
  split
  · exact .done v .idle
  · rename_i hactive
    rw [Option.not_isSome_iff_eq_none] at hactive
    have hnone := active_eq_none hactive
    split
    · exact .done v .idle
    · rename_i slot r hmin
      obtain ⟨hslot, hqueued⟩ := mem_queue.mp (List.argmin_mem hmin)
      have hkept : r.abandoned = false := v.kept hslot (by rw [hqueued]; decide)
      refine .done (v.update hslot (sameRequest_activated r) rfl ?_ ?_)
        (.started hslot hqueued hnone ?_)
      · intro _
        rfl
      · intro _ j q hj _
        exact hnone j q hj
      · intro j q hj hq
        have hle := List.le_of_mem_argmin (mem_queue.mpr ⟨hj, hq⟩) hmin
        exact hle

/-- The device finishes the active request. -/
theorem outcome_finish (v : s.Valid) {id : UInt64} (hactive : s.active = some id)
    (status : Status) (data : Bytes SECTOR) :
    Settles s (.finish id status data) := by
  obtain ⟨i, r, hi, hphase, rfl⟩ := active_eq_some hactive
  have hfound : (s.records.position fun q => q.result.id == r.result.id && q.phase == .active)
      = some (i, r) := by
    refine Slots.position_of_unique hi (by simp [hphase]) ?_
    intro j q hj htest
    rw [Bool.and_eq_true, beq_iff_eq, beq_iff_eq] at htest
    exact v.ids j i q r hj hi htest.1
  unfold Settles Broker.perform Broker.finish
  simp only [bind_assoc]
  refine .get_bind ?_
  rw [hfound]
  show Outcome s _ (.ok .none)
    (s.put i (if r.abandoned then none else some (r.finished status data)))
  cases habandoned : r.abandoned with
  | true => exact .done (v.drop i) (.dropped hi hphase habandoned)
  | false =>
    refine .done (v.update hi (sameRequest_finished r status data) rfl ?_ ?_)
      (.finished hi hphase habandoned)
    · intro h
      rw [show (r.finished status data).abandoned = r.abandoned from rfl, habandoned] at h
      cases h
    · exact nofun

/-! ### Reading and cancelling -/

/-- The record of a handle is its owner's. -/
theorem slot_ok (h : s.slot owner handle = .ok (i, r)) :
    s.records[i] = some r ∧ r.owner = owner ∧ r.handle = handle := by
  unfold Broker.slot at h
  obtain ⟨_, -, h⟩ := except_bind_eq_ok.mp h
  obtain ⟨hi, htest⟩ := Slots.position_eq_some (orRefuse_eq_ok.mp h)
  rw [Bool.and_eq_true, beq_iff_eq, beq_iff_eq] at htest
  exact ⟨hi, htest⟩

/-- A peek reads a complete record. -/
theorem peek_ok {c : Completion} (h : s.peek owner handle = .ok c) :
    ∃ i r, s.slot owner handle = .ok (i, r) ∧ r.phase = .complete ∧ r.result = c := by
  unfold Broker.peek at h
  obtain ⟨⟨i, r⟩, hslot, h⟩ := except_bind_eq_ok.mp h
  obtain ⟨_, hcomplete, h⟩ := except_bind_eq_ok.mp h
  cases h
  exact ⟨i, r, hslot, not_not.mp (reject_eq_ok.mp hcomplete), rfl⟩

/-- A peek changes nothing. -/
theorem outcome_peek (v : s.Valid) (owner handle : UInt64) :
    Settles s (.peek owner handle) := by
  refine .get_bind (.check_bind (fun _ _ => .refused v) fun c hpeek => ?_)
  obtain ⟨i, r, hslot, hcomplete, rfl⟩ := peek_ok hpeek
  obtain ⟨hi, howner, hhandle⟩ := slot_ok hslot
  exact Outcome.done v (.peeked hi howner hhandle hcomplete)

/-- A completion is consumed once. -/
theorem outcome_consume (v : s.Valid) (owner handle : UInt64) :
    Settles s (.consume owner handle) := by
  unfold Settles Broker.perform Broker.consume
  simp only [bind_assoc]
  refine .get_bind (.check_bind (fun _ _ => .refused v) fun c hpeek => ?_)
  obtain ⟨i, r, hslot, hcomplete, rfl⟩ := peek_ok hpeek
  obtain ⟨hi, howner, hhandle⟩ := slot_ok hslot
  rw [hslot, check_ok_bind]
  exact Outcome.done (v.drop i) (.consumed hi howner hhandle hcomplete hpeek)

/-- A cancellation names the request it cancels. -/
theorem outcome_cancel (v : s.Valid) (owner handle id : UInt64) :
    Settles s (.cancel owner handle id) := by
  unfold Settles Broker.perform Broker.cancel
  simp only [bind_assoc]
  refine .get_bind (.check_bind (fun _ _ => .refused v) fun ⟨i, r⟩ hslot =>
    .refuse_bind (fun _ => .refused v) fun hid => ?_)
  obtain ⟨hi, howner, hhandle⟩ := slot_ok hslot
  obtain rfl := not_not.mp hid
  by_cases hqueued : r.phase = .queued
  · have hkept : r.abandoned = false := v.kept hi (by rw [hqueued]; decide)
    rw [if_neg (not_not.mpr hqueued)]
    refine Outcome.done (v.update hi (sameRequest_cancelled r) rfl ?_ ?_)
      (.cancelled hi howner hhandle hqueued)
    · intro h
      rw [show r.cancelled.abandoned = r.abandoned from rfl, hkept] at h
      cases h
    · exact nofun
  · rw [if_pos hqueued]
    exact Outcome.done v .late

/-! ### Closing -/

/-- Nothing is withdrawn. -/
theorem Withdrawn.refl (records : Slots Record RECORDS) : Withdrawn records records :=
  fun _ => Or.inl rfl

/-- Withdrawals compose. -/
theorem Withdrawn.trans {a b c : Slots Record RECORDS} (hab : Withdrawn a b)
    (hbc : Withdrawn b c) : Withdrawn a c := by
  intro i
  rcases hbc i with hsame | ⟨r, hr, hlater⟩
  · rw [hsame]
    exact hab i
  · rcases hab i with hsame | ⟨q, hq, ⟨-, hnone⟩ | ⟨hactive, hsome⟩⟩
    · rw [hsame] at hr
      exact Or.inr ⟨r, hr, hlater⟩
    · rw [hnone] at hr
      cases hr
    · -- abandoned before: it stays so
      rw [hsome] at hr
      cases hr
      rcases hlater with ⟨hphase, -⟩ | ⟨-, hc⟩
      · exact absurd hactive hphase
      · exact Or.inr ⟨q, hq, Or.inr ⟨hactive, hc⟩⟩

/-- A record of a broker that lost handles is an old one, as it was or abandoned. -/
theorem Withdrawn.origin {records records' : Slots Record RECORDS} (h : Withdrawn records records')
    (hr : records'[i] = some r) :
    records[i] = some r
      ∨ ∃ q, records[i] = some q ∧ q.phase = .active ∧ r = { q with abandoned := true } := by
  rcases h i with hsame | ⟨q, hq, ⟨-, hnone⟩ | ⟨hactive, hsome⟩⟩
  · exact Or.inl (hsame ▸ hr)
  · rw [hnone] at hr
    cases hr
  · rw [hsome] at hr
    exact Or.inr ⟨q, hq, hactive, (Option.some.inj hr).symm⟩

/-- An owner closes a handle of its own. -/
theorem run_close (v : s.Valid) {e : Entry Grant} (hheld : s.handles.Held owner handle e) :
    ∃ s', (Broker.close owner handle).run s = (.ok (), s') ∧ s'.Valid
      ∧ Withdrawn s.records s'.records ∧ s'.next = s.next
      ∧ (∀ id e, s'.handles.find id = some e → s.handles.find id = some e)
      ∧ (∀ (i : Fin RECORDS) r, s'.records[i] = some r → r.handle = handle → r.phase = .active)
      ∧ s'.handles.owned owner + 1 = s.handles.owned owner := by
  obtain ⟨handles, hremove⟩ := hheld.remove v.handles
  obtain ⟨-, -, -, hvalid, -, -, hgone⟩ := Table.remove_ok v.handles hremove
  have hfind : ∀ id e, handles.find id = some e → id ≠ handle ∧ s.handles.find id = some e := by
    intro id e he
    rw [hgone] at he
    by_cases hid : id = handle
    · subst hid
      rw [Function.update_self] at he
      cases he
    · rw [Function.update_of_ne hid] at he
      exact ⟨hid, he⟩
  have hmap : ∀ i : Fin RECORDS, (s.records.map fun r => r.bind (Record.closed handle))[i]
      = s.records[i].bind (Record.closed handle) := by
    intro i
    simp
  have hwithdrawn : Withdrawn s.records
      (s.records.map fun r => r.bind (Record.closed handle)) := by
    intro i
    rw [hmap i]
    cases hi : s.records[i] with
    | none => exact Or.inl rfl
    | some r =>
      rw [Option.bind_some, Record.closed]
      by_cases hhandle : r.handle = handle
      · rw [if_pos hhandle]
        by_cases hactive : r.phase = .active
        · rw [if_pos hactive]
          exact Or.inr ⟨r, rfl, Or.inr ⟨hactive, rfl⟩⟩
        · rw [if_neg hactive]
          exact Or.inr ⟨r, rfl, Or.inl ⟨hactive, rfl⟩⟩
      · rw [if_neg hhandle]
        exact Or.inl rfl
  -- a record that kept its place kept it as it was, or is with the device
  have hcase : ∀ (i : Fin RECORDS) r,
      (s.records.map fun r => r.bind (Record.closed handle))[i] = some r →
      (s.records[i] = some r ∧ r.handle ≠ handle)
        ∨ ∃ q, s.records[i] = some q ∧ q.phase = .active ∧ r = { q with abandoned := true } := by
    intro i r hr
    rw [hmap i, Option.bind_eq_some_iff] at hr
    obtain ⟨q, hq, hclosed⟩ := hr
    unfold Record.closed at hclosed
    split at hclosed
    · split at hclosed
      · rename_i hactive
        cases hclosed
        exact Or.inr ⟨q, hq, hactive, rfl⟩
      · cases hclosed
    · rename_i hhandle
      cases hclosed
      exact Or.inl ⟨hq, hhandle⟩
  refine ⟨{ s with handles := handles,
                   records := s.records.map fun r => r.bind (Record.closed handle) },
    ?_, ?_, hwithdrawn, rfl, fun id e he => (hfind id e he).2, ?_, Table.remove_occupied hremove⟩
  · unfold Broker.close
    rw [run_get_bind, hremove]
    rfl
  · have horigin : ∀ (i : Fin RECORDS) r,
        (s.records.map fun r => r.bind (Record.closed handle))[i] = some r →
        ∃ q, s.records[i] = some q ∧ r.owner = q.owner ∧ r.result.id = q.result.id
          ∧ r.phase = q.phase := by
      intro i r hr
      rcases hcase i r hr with ⟨hr, -⟩ | ⟨q, hq, -, rfl⟩
      · exact ⟨r, hr, rfl, rfl, rfl⟩
      · exact ⟨q, hq, rfl, rfl, rfl⟩
    refine v.of_origin hvalid (fun id e he => v.grants id e (hfind id e he).2) rfl ?horigin ?single
      ?live ?away
    case horigin =>
      intro i r hr
      obtain ⟨q, hq, howner, hid, -⟩ := horigin i r hr
      exact ⟨q, hq, howner, hid⟩
    case single =>
      intro i j r r' hr hr' hactive hactive'
      obtain ⟨q, hq, -, -, hphase⟩ := horigin i r hr
      obtain ⟨q', hq', -, -, hphase'⟩ := horigin j r' hr'
      exact v.single i j q q' hq hq' (hphase ▸ hactive) (hphase' ▸ hactive')
    case live =>
      intro i r hr hkept
      rcases hcase i r hr with ⟨hr, hhandle⟩ | ⟨q, -, -, rfl⟩
      · obtain ⟨e, he, howner⟩ := v.live i r hr hkept
        refine ⟨e, ?_, howner⟩
        show handles.find r.handle = some e
        rw [hgone, Function.update_of_ne hhandle, he]
      · cases hkept
    case away =>
      intro i r hr habandoned
      rcases hcase i r hr with ⟨hr, -⟩ | ⟨q, -, hactive, rfl⟩
      · exact v.away i r hr habandoned
      · exact hactive
  · intro i r hr hhandle
    rcases hcase i r hr with ⟨-, hne⟩ | ⟨q, -, hactive, rfl⟩
    · exact absurd hhandle hne
    · exact hactive

/-- A handle is closed with its request. -/
theorem outcome_close (v : s.Valid) (owner handle : UInt64) :
    Settles s (.close owner handle) := by
  by_cases hheld : ∃ e, s.handles.Held owner handle e
  · obtain ⟨e, hheld⟩ := hheld
    obtain ⟨s', hrun, hvalid, hrecords, hnext, hfind, hgone, -⟩ := run_close v hheld
    exact .bind hrun (Outcome.done hvalid (.closed hrecords hnext hfind hgone))
  · have hrun : (Broker.close owner handle).run s = (.error (.refused .handle), s) := by
      rw [Broker.close, run_get_bind, Table.remove_of_not_held v.handles fun e he => hheld ⟨e, he⟩]
      rfl
    exact .bind_error hrun (.refused v)

/-- The loop closes one handle of the owner a turn, and ends when there is none. -/
theorem run_closeOwnerLoop (owner : UInt64) (turns : Nat) (v : s.Valid)
    (hturns : s.handles.owned owner < turns) :
    ∃ s', (Broker.closeOwnerLoop owner turns).run s = (.ok (), s') ∧ s'.Valid
      ∧ Withdrawn s.records s'.records ∧ s'.next = s.next
      ∧ (∀ id e, s'.handles.find id = some e → s.handles.find id = some e)
      ∧ ∀ id e, ¬ s'.handles.Held owner id e := by
  induction turns generalizing s with
  | zero => omega
  | succ turns ih =>
    unfold Broker.closeOwnerLoop
    rw [run_get_bind]
    cases hfirst : s.handles.first owner with
    | none =>
      exact ⟨s, rfl, v, .refl _, rfl, fun _ _ h => h,
        fun id e => Table.first_eq_none v.handles hfirst e⟩
    | some handle =>
      obtain ⟨e, hheld⟩ := Table.first_eq_some v.handles hfirst
      obtain ⟨s₁, hclose, v₁, hrecords₁, hnext₁, hfind₁, -, hcount⟩ := run_close v hheld
      obtain ⟨s', hrun, v', hrecords, hnext, hfind, hnone⟩ := ih v₁ (by omega)
      refine ⟨s', ?_, v', hrecords₁.trans hrecords, hnext.trans hnext₁,
        fun id e h => hfind₁ id e (hfind id e h), hnone⟩
      have hattempt : (attempt (Broker.close owner handle)
          : Fallible (Halt Error) Broker _).run s = (.ok (.ok ()), s₁) := by
        rw [run_attempt, hclose]
      dsimp only
      rw [run_bind_of_ok hattempt]
      exact hrun

/-- All handles of an owner are closed. -/
theorem outcome_closeOwner (v : s.Valid) (owner : UInt64) :
    Settles s (.closeOwner owner) := by
  have hcount : s.handles.owned owner < GRANTS + 1 :=
    Nat.lt_succ_of_le Vector.countP_le_size
  obtain ⟨s', hrun, hvalid, hrecords, hnext, hfind, hnone⟩ := run_closeOwnerLoop owner _ v hcount
  refine .bind hrun (Outcome.done hvalid (.ownerClosed hrecords hnext hfind ?_))
  -- a record of the owner that is still there is abandoned, for its handle is gone
  intro i r hr howner
  cases habandoned : r.abandoned with
  | true => exact hvalid.away i r hr habandoned
  | false =>
    obtain ⟨e, he⟩ := hvalid.live i r hr habandoned
    exact absurd (howner ▸ he) (hnone r.handle e)

/-! ### Every call -/

/-- Every permitted call has the outcome the specification allows. -/
theorem outcome (v : s.Valid) {call : Call} (h : s.Permits call) :
    Outcome s call (s.answer call) (s.step call) := by
  cases call with
  | grant owner g capacity => exact outcome_grant v owner g capacity
  | admission owner handle operation sector data physical =>
    exact outcome_admission v owner handle operation sector data physical
  | start => exact outcome_start v
  | finish id status data => exact outcome_finish v (h id status data rfl) status data
  | peek owner handle => exact outcome_peek v owner handle
  | consume owner handle => exact outcome_consume v owner handle
  | cancel owner handle id => exact outcome_cancel v owner handle id
  | close owner handle => exact outcome_close v owner handle
  | closeOwner owner => exact outcome_closeOwner v owner

end

end RusticOs.Kernel.Block
