import RusticOs.Proofs.Block

/-!
# `RusticOs.Proofs.Requests`: block requests over any sequence of calls

A moment of a run is the list of calls before it. `Happens calls before call value` says that
`call` was made then and returned `value`. `Tracks` keeps what the records say of the moments so
far: by whom and through which grant a record was admitted, which requests were started, which
are gone for good. One call keeps it (`Tracks.step`), so it holds at every moment of every run.

- `Came`: where a record of the broker after a call comes from.
- `tracks_after`: every moment of a run.
- `requests_confined`: requests stay inside their grants, and completions say what happened.
-/

set_option autoImplicit false

namespace RusticOs.Kernel.Block

open RusticOs.Lib

/-! ### Moments -/

/-- A call was made after `before` and returned a value. -/
def Happens (calls before : List Call) (call : Call) (value : Value) : Prop :=
  before ++ [call] <+: calls ∧ (Broker.after before).answer call = .ok value

/-- A request was given to the device. -/
def Starts (calls before : List Call) (p : Pending) : Prop :=
  Happens calls before .start (.pending (some p))

/-- A request was admitted under a number. -/
def Admits (calls before : List Call) (owner handle : UInt64) (operation : Operation)
    (data : Bytes SECTOR) (id : UInt64) : Prop :=
  ∃ relative physical,
    Happens calls before (.admission owner handle operation relative data physical) (.number id)

/-- A completion was taken. -/
def Consumes (calls before : List Call) (owner handle : UInt64) (c : Completion) : Prop :=
  Happens calls before (.consume owner handle) .none
    ∧ (Broker.after before).answer (.peek owner handle) = .ok (.completion c)

/-- The grant through which a request is admitted: given to the owner before, still held, with
the right the operation needs and the sector inside it. -/
structure Through (before : List Call) (owner handle : UInt64) (operation : Operation)
    (sector : UInt64) (g : Grant) : Prop where
  given : ∃ earlier capacity, Happens before earlier (.grant owner g capacity) (.number handle)
  live : (Broker.after before).handles.resolve owner handle operation.right = .ok g
  right : g.rights &&& operation.right = operation.right
  inside : g.Covers sector

/-- A call that takes a queued request out of the queue for good. -/
inductive Withdraws (s : Broker) : Call → Value → UInt64 → Prop
  | cancel {owner handle id : UInt64} : Withdraws s (.cancel owner handle id) (.number 0) id
  | close {owner handle : UInt64} {i : Fin RECORDS} {r : Record} (h : s.records[i] = some r)
      (hqueued : r.phase = .queued) (hhandle : r.handle = handle) :
      Withdraws s (.close owner handle) .none r.result.id
  | closeOwner {owner : UInt64} {i : Fin RECORDS} {r : Record} (h : s.records[i] = some r)
      (hqueued : r.phase = .queued) (howner : r.owner = owner) :
      Withdraws s (.closeOwner owner) .none r.result.id

section
variable {calls before : List Call} {call c : Call} {value : Value}

theorem Happens.mono {calls' : List Call} (h : Happens calls before call value)
    (hle : calls <+: calls') : Happens calls' before call value :=
  ⟨h.1.trans hle, h.2⟩

theorem happens_snoc : Happens (calls ++ [c]) before call value
    ↔ Happens calls before call value
      ∨ (before = calls ∧ call = c ∧ (Broker.after calls).answer c = .ok value) := by
  constructor
  · rintro ⟨hbefore, hanswer⟩
    rcases List.prefix_concat_iff.mp hbefore with heq | hlt
    · obtain ⟨rfl, he⟩ := List.append_inj' heq rfl
      cases he
      exact Or.inr ⟨rfl, rfl, hanswer⟩
    · exact Or.inl ⟨hlt, hanswer⟩
  · rintro (h | ⟨rfl, rfl, hanswer⟩)
    · exact h.mono (List.prefix_append _ _)
    · exact ⟨List.prefix_rfl, hanswer⟩

/-- Of two moments of a run, the shorter one is before the other. -/
theorem Happens.before_of_length {before' : List Call} {call' : Call} {value' : Value}
    (h : Happens calls before call value) (h' : Happens calls before' call' value')
    (hlt : before.length < before'.length) : Happens before' before call value := by
  refine ⟨List.prefix_of_prefix_length_le h.1 ((List.prefix_append _ _).trans h'.1) ?_, h.2⟩
  rw [List.length_append, List.length_singleton]
  exact hlt

theorem Happens.eq_of_length {before' : List Call} {call' : Call} {value' : Value}
    (h : Happens calls before call value) (h' : Happens calls before' call' value')
    (heq : before.length = before'.length) : before = before' :=
  (List.prefix_of_prefix_length_le ((List.prefix_append _ _).trans h.1)
    ((List.prefix_append _ _).trans h'.1) heq.le).eq_of_length heq

end

/-! ### Where records come from -/

/-- A record after a call, and what it was before. -/
inductive Came (s : Broker) (call : Call) (value : Value) (i : Fin RECORDS) : Record → Prop
  | kept {r : Record} (h : s.records[i] = some r) : Came s call value i r
  | abandoned {r : Record} (h : s.records[i] = some r) (hactive : r.phase = .active) :
      Came s call value i { r with abandoned := true }
  | admitted {owner handle relative sector : UInt64} {operation : Operation}
      {data : Bytes SECTOR} {physical : Geometry} {e : Entry Grant}
      (hcall : call = .admission owner handle operation relative data physical)
      (hvalue : value = .number s.next) (hheld : s.handles.Held owner handle e)
      (hright : e.rights &&& operation.right = operation.right)
      (hsector : e.object.Covers sector) :
      Came s call value i (s.admitted owner handle operation sector data)
  | started {r : Record} (h : s.records[i] = some r) : Came s call value i r.activated
  | finished {r : Record} {status : Status} {data : Bytes SECTOR} (h : s.records[i] = some r)
      (hcall : call = .finish r.result.id status data) (hvalue : value = .none) :
      Came s call value i (r.finished status data)
  | cancelled {r : Record} (h : s.records[i] = some r) (hqueued : r.phase = .queued)
      (hcall : call ≠ .start) :
      Came s call value i r.cancelled

section
variable {s s' : Broker} {call : Call} {value : Value} {i : Fin RECORDS} {r : Record}

theorem Withdrawn.came {records' : Slots Record RECORDS} (h : Withdrawn s.records records')
    (hr : records'[i] = some r) : Came s call value i r := by
  rcases h.origin hr with hr | ⟨q, hq, hactive, rfl⟩
  · exact .kept hr
  · exact .abandoned hq hactive

theorem Change.came (h : Change s call value s') (hr : s'.records[i] = some r) :
    Came s call value i r := by
  cases h with
  | granted _ _ | idle | peeked _ _ _ _ | late => exact .kept hr
  | admitted hheld hright hsector howner hslot hnext =>
    rcases Broker.put_eq_some.mp hr with ⟨-, hnew⟩ | ⟨-, hr⟩
    · cases hnew
      exact .admitted rfl rfl hheld hright hsector
    · exact .kept hr
  | started hslot hqueued hnone hleast =>
    rcases Broker.put_eq_some.mp hr with ⟨rfl, hnew⟩ | ⟨-, hr⟩
    · cases hnew
      exact .started hslot
    · exact .kept hr
  | finished hslot hactive hkept =>
    rcases Broker.put_eq_some.mp hr with ⟨rfl, hnew⟩ | ⟨-, hr⟩
    · cases hnew
      exact .finished hslot rfl rfl
    · exact .kept hr
  | dropped hslot hactive habandoned | consumed hslot howner hhandle hcomplete hpeek =>
    rcases Broker.put_eq_some.mp hr with ⟨-, hnew⟩ | ⟨-, hr⟩
    · cases hnew
    · exact .kept hr
  | cancelled hslot howner hhandle hqueued =>
    rcases Broker.put_eq_some.mp hr with ⟨rfl, hnew⟩ | ⟨-, hr⟩
    · cases hnew
      exact .cancelled hslot hqueued nofun
    · exact .kept hr
  | closed hrecords hnext hfind hgone => exact hrecords.came hr
  | ownerClosed hrecords hnext hfind hgone => exact hrecords.came hr

/-- A queued record was queued before, or was just admitted under the next number. -/
theorem Came.queued (h : Came s call value i r) (hqueued : r.phase = .queued) :
    s.records[i] = some r ∨ r.result.id = s.next := by
  cases h with
  | kept h => exact Or.inl h
  | abandoned h hactive =>
    exact nomatch hactive.symm.trans hqueued
  | admitted _ _ _ _ _ => exact Or.inr rfl
  | started h | finished h _ _ | cancelled h _ _ => cases hqueued

/-- A record has the number of an old one, or the next number. -/
theorem Came.id (h : Came s call value i r) :
    (∃ q, s.records[i] = some q ∧ r.result.id = q.result.id) ∨ r.result.id = s.next := by
  cases h with
  | kept h | abandoned h _ | started h | finished h _ _ | cancelled h _ _ =>
    exact Or.inl ⟨_, h, rfl⟩
  | admitted _ _ _ _ _ => exact Or.inr rfl

variable (h : Change s call value s')
include h

/-- A handle is an old one, or was just granted. -/
theorem Change.find {id : UInt64} {e : Entry Grant} (he : s'.handles.find id = some e) :
    s.handles.find id = some e
      ∨ ∃ capacity, call = .grant e.owner e.object capacity ∧ value = .number id := by
  cases h with
  | @granted owner capacity new g handles hfits h =>
    have hfind : Function.update s.handles.find new (some ⟨new, owner, g, g.rights⟩) id
        = some e := h.find ▸ he
    by_cases hid : id = new
    · subst hid
      rw [Function.update_self] at hfind
      cases hfind
      exact Or.inr ⟨capacity, rfl, rfl⟩
    · rw [Function.update_of_ne hid] at hfind
      exact Or.inl hfind
  | closed hrecords hnext hfind hgone | ownerClosed hrecords hnext hfind hgone =>
    exact Or.inl (hfind id e he)
  | _ => exact Or.inl he

theorem Change.next_le : s.next.toNat ≤ s'.next.toNat := by
  cases h with
  | admitted hheld hright hsector howner hslot hnext =>
    show s.next.toNat ≤ _
    exact (Nat.le_succ _).trans hnext.symm.le
  | closed hrecords hnext hfind hgone | ownerClosed hrecords hnext hfind hgone =>
    exact hnext ▸ le_refl _
  | _ => exact le_refl _

/-- A number given out before is on no new record. -/
theorem Change.not_queued {id : UInt64} (hid : id.toNat < s.next.toNat)
    (hnone : ∀ (i : Fin RECORDS) r, s.records[i] = some r → r.phase = .queued →
      r.result.id ≠ id)
    (hr : s'.records[i] = some r) (hqueued : r.phase = .queued) : r.result.id ≠ id := by
  rcases (h.came hr).queued hqueued with hold | hnew
  · exact hnone i r hold hqueued
  · rintro rfl
    rw [hnew] at hid
    exact lt_irrefl _ hid

theorem Change.not_there {id : UInt64} (hid : id.toNat < s.next.toNat)
    (hnone : ∀ (i : Fin RECORDS) r, s.records[i] = some r → r.result.id ≠ id)
    (hr : s'.records[i] = some r) : r.result.id ≠ id := by
  rcases (h.came hr).id with ⟨q, hq, heq⟩ | hnew
  · rw [heq]
    exact hnone i q hq
  · rintro rfl
    rw [hnew] at hid
    exact lt_irrefl _ hid

end

/-! ### What the records say of the past -/

/-- The device was said to be unavailable for a request. -/
def Unavailable (calls : List Call) (id : UInt64) : Prop :=
  ∃ before data, Happens calls before (.finish id .unavailable data) .none

/-- What holds at every moment of a run. -/
structure Tracks (calls : List Call) (s : Broker) : Prop where
  valid : s.Valid
  given : ∀ id e, s.handles.find id = some e →
    ∃ before capacity, Happens calls before (.grant e.owner e.object capacity) (.number id)
  admitted : ∀ (i : Fin RECORDS) r, s.records[i] = some r → ∃ before data g,
    Admits calls before r.owner r.handle r.result.operation data r.result.id
      ∧ Through before r.owner r.handle r.result.operation r.sector g
      ∧ (r.phase = .queued → r.result.data = data)
  numbered : ∀ before owner handle operation data id,
    Admits calls before owner handle operation data id → id.toNat < s.next.toNat
  started : ∀ before p, Starts calls before p → p.id.toNat < s.next.toNat
  ahead : ∀ before p, Starts calls before p → ∀ (i : Fin RECORDS) r, s.records[i] = some r →
    r.phase = .queued → p.id.toNat < r.result.id.toNat
  honest : ∀ (i : Fin RECORDS) r, s.records[i] = some r → r.result.operation ≠ .read →
    r.result.effect = .none → r.phase = .complete →
    (∀ before p, Starts calls before p → p.id ≠ r.result.id) ∨ Unavailable calls r.result.id
  consumed : ∀ before owner handle c, Consumes calls before owner handle c →
    c.id.toNat < s.next.toNat ∧ ∀ (i : Fin RECORDS) r, s.records[i] = some r → r.result.id ≠ c.id
  withdrawn : ∀ before call value id, Happens calls before call value →
    Withdraws (Broker.after before) call value id →
    id.toNat < s.next.toNat ∧ ∀ (i : Fin RECORDS) r, s.records[i] = some r →
      r.phase = .queued → r.result.id ≠ id

theorem tracks_new : Tracks [] Broker.new := by
  have hnone : ∀ i : Fin RECORDS, Broker.new.records[i] = none := by
    intro i
    simp [Broker.new]
  have hnothing : ∀ before call value, ¬ Happens [] before call value := by
    rintro before call value ⟨h, -⟩
    simp at h
  constructor
  case valid => exact Broker.valid_new
  case given =>
    intro id e h
    rw [show Broker.new.handles.find id = none from Table.find_new 1 ALL 0 id] at h
    cases h
  case numbered =>
    rintro before owner handle operation data id ⟨relative, physical, h⟩
    exact absurd h (hnothing _ _ _)
  case started => exact fun before p h => absurd h (hnothing _ _ _)
  case ahead => exact fun before p h => absurd h (hnothing _ _ _)
  case consumed => exact fun before owner handle c h => absurd h.1 (hnothing _ _ _)
  case withdrawn => exact fun before call value id h => absurd h (hnothing _ _ _)
  all_goals
    intro i r h
    rw [hnone i] at h
    cases h

/-! ### One call -/

theorem answer_peek {s : Broker} {owner handle : UInt64} {c : Completion} :
    s.answer (.peek owner handle) = .ok (.completion c) ↔ s.peek owner handle = .ok c := by
  have hanswer : s.answer (.peek owner handle)
      = match s.peek owner handle with
        | .ok c => .ok (.completion c)
        | .error error => .error (.refused error) := by
    unfold Broker.answer Broker.perform
    rw [Fallible.run_get_bind]
    cases s.peek owner handle <;> rfl
  rw [hanswer]
  cases s.peek owner handle with
  | ok c' => simp
  | error error => simp

/-- A write or flush that was with the device had no effect only if the device was not there. -/
theorem finished_effect {r : Record} {status : Status} {data : Bytes SECTOR}
    (hoperation : r.result.operation ≠ .read)
    (heffect : (r.finished status data).result.effect = .none) : status = .unavailable := by
  by_contra hne
  unfold Record.finished at heffect
  dsimp only at heffect
  rw [if_neg (not_or.mpr ⟨hoperation, hne⟩)] at heffect
  split at heffect <;> cases heffect

section
variable {calls : List Call} {c : Call} {s s' : Broker} {v : Value}

/-- A refused call adds nothing. -/
theorem Tracks.refused (h : Tracks calls s) {halt : Halt Error}
    (hanswer : (Broker.after calls).answer c = .error halt) : Tracks (calls ++ [c]) s := by
  have hold : ∀ {before call value}, Happens (calls ++ [c]) before call value →
      Happens calls before call value := by
    intro before call value hnew
    rcases happens_snoc.mp hnew with hold | ⟨-, -, hok⟩
    · exact hold
    · rw [hanswer] at hok
      cases hok
  have hmono : ∀ {before call value}, Happens calls before call value →
      Happens (calls ++ [c]) before call value :=
    fun h => h.mono (List.prefix_append _ _)
  constructor
  case valid => exact h.valid
  case given =>
    intro id e he
    obtain ⟨before, capacity, hgrant⟩ := h.given id e he
    exact ⟨before, capacity, hmono hgrant⟩
  case admitted =>
    intro i r hr
    obtain ⟨before, data, g, ⟨relative, physical, hadmits⟩, hrest⟩ := h.admitted i r hr
    exact ⟨before, data, g, ⟨relative, physical, hmono hadmits⟩, hrest⟩
  case numbered =>
    rintro before owner handle operation data id ⟨relative, physical, hnew⟩
    exact h.numbered before owner handle operation data id ⟨relative, physical, hold hnew⟩
  case started => exact fun before p hnew => h.started before p (hold hnew)
  case ahead => exact fun before p hnew => h.ahead before p (hold hnew)
  case honest =>
    intro i r hr hoperation heffect hphase
    rcases h.honest i r hr hoperation heffect hphase with hnever | ⟨before, data, hfinish⟩
    · exact Or.inl fun before p hnew => hnever before p (hold hnew)
    · exact Or.inr ⟨before, data, hmono hfinish⟩
  case consumed =>
    exact fun before owner handle c hnew => h.consumed before owner handle c ⟨hold hnew.1, hnew.2⟩
  case withdrawn =>
    exact fun before call value id hnew => h.withdrawn before call value id (hold hnew)

/-- The grant of a request that is being admitted. -/
theorem Tracks.through (h : Tracks calls (Broker.after calls)) {owner handle sector : UInt64}
    {operation : Operation} {e : Entry Grant}
    (hheld : (Broker.after calls).handles.Held owner handle e)
    (hright : e.rights &&& operation.right = operation.right) (hsector : e.object.Covers sector) :
    Through calls owner handle operation sector e.object where
  given := by
    obtain ⟨before, capacity, hgrant⟩ := h.given handle e hheld.1
    exact ⟨before, capacity, hheld.2 ▸ hgrant⟩
  live := (Table.resolve_eq_ok h.valid.handles).mpr ⟨e, hheld, hright, rfl⟩
  right := (h.valid.grants handle e hheld.1).1 ▸ hright
  inside := hsector

/-- What a request that is just started was. -/
theorem Change.starts {p : Pending} (h : Change s .start (.pending (some p)) s') :
    ∃ (i : Fin RECORDS) (r : Record), s.records[i] = some r ∧ r.phase = .queued ∧ p = r.pending
      ∧ s' = s.put i (some r.activated)
      ∧ ∀ (j : Fin RECORDS) q, s.records[j] = some q → q.phase = .queued →
        r.result.id.toNat ≤ q.result.id.toNat := by
  cases h with
  | started hslot hqueued hnone hleast => exact ⟨_, _, hslot, hqueued, rfl, rfl, hleast⟩

section
variable (h : Tracks calls (Broker.after calls))
  (hanswer : (Broker.after calls).answer c = .ok v)
  (hchange : Change (Broker.after calls) c v s')
include h hanswer hchange

theorem Tracks.step_given (id : UInt64) (e : Entry Grant) (he : s'.handles.find id = some e) :
    ∃ before capacity,
      Happens (calls ++ [c]) before (.grant e.owner e.object capacity) (.number id) := by
  rcases hchange.find he with hold | ⟨capacity, rfl, rfl⟩
  · obtain ⟨before, capacity, hgrant⟩ := h.given id e hold
    exact ⟨before, capacity, hgrant.mono (List.prefix_append _ _)⟩
  · exact ⟨calls, capacity, happens_snoc.mpr (Or.inr ⟨rfl, rfl, hanswer⟩)⟩

theorem Tracks.step_admitted (i : Fin RECORDS) (r : Record) (hr : s'.records[i] = some r) :
    ∃ before data g, Admits (calls ++ [c]) before r.owner r.handle r.result.operation data
        r.result.id
      ∧ Through before r.owner r.handle r.result.operation r.sector g
      ∧ (r.phase = .queued → r.result.data = data) := by
  -- a record of a request that was there before
  have hsame : ∀ q, (Broker.after calls).records[i] = some q → SameRequest q r →
      (r.phase = .queued → r = q) → ∃ before data g,
      Admits (calls ++ [c]) before r.owner r.handle r.result.operation data r.result.id
        ∧ Through before r.owner r.handle r.result.operation r.sector g
        ∧ (r.phase = .queued → r.result.data = data) := by
    intro q hq hrequest hqueued
    obtain ⟨before, data, g, ⟨relative, physical, hadmits⟩, hthrough, hdata⟩ := h.admitted i q hq
    rw [hrequest.owner, hrequest.handle, hrequest.operation, hrequest.id, hrequest.sector]
    refine ⟨before, data, g,
      ⟨relative, physical, hadmits.mono (List.prefix_append _ _)⟩, hthrough, fun hphase => ?_⟩
    have heq := hqueued hphase
    subst heq
    exact hdata hphase
  cases hchange.came hr with
  | kept hq => exact hsame r hq (.refl r) fun _ => rfl
  | abandoned hq hactive =>
    exact hsame _ hq ⟨rfl, rfl, rfl, rfl, rfl⟩ fun hphase => nomatch hactive.symm.trans hphase
  | started hq => exact hsame _ hq (sameRequest_activated _) nofun
  | finished hq _ _ => exact hsame _ hq (sameRequest_finished _ _ _) nofun
  | cancelled hq _ _ => exact hsame _ hq (sameRequest_cancelled _) nofun
  | @admitted owner handle relative sector operation data physical e hcall hvalue hheld hright
      hsector =>
      subst hcall hvalue
      exact ⟨calls, data, e.object,
        ⟨relative, physical, happens_snoc.mpr (Or.inr ⟨rfl, rfl, hanswer⟩)⟩,
        h.through hheld hright hsector, fun _ => rfl⟩

variable {before : List Call}

theorem Tracks.step_numbered {owner handle id : UInt64} {operation : Operation}
    {data : Bytes SECTOR} (hadmits : Admits (calls ++ [c]) before owner handle operation data id) :
    id.toNat < s'.next.toNat := by
  obtain ⟨relative, physical, hnew⟩ := hadmits
  rcases happens_snoc.mp hnew with hold | ⟨-, rfl, hok⟩
  · exact (h.numbered before owner handle operation data id
      ⟨relative, physical, hold⟩).trans_le hchange.next_le
  · rw [hanswer] at hok
    cases hok
    generalize hid : Value.number id = w at hchange
    cases hchange with
    | admitted hheld hright hsector howner hslot hnext =>
      cases hid
      show (Broker.after calls).next.toNat < _
      exact Nat.lt_of_succ_le hnext.symm.le

theorem Tracks.step_started {p : Pending} (hstarts : Starts (calls ++ [c]) before p) :
    p.id.toNat < s'.next.toNat := by
  rcases happens_snoc.mp hstarts with hold | ⟨-, rfl, hok⟩
  · exact (h.started before p hold).trans_le hchange.next_le
  · rw [hanswer] at hok
    cases hok
    obtain ⟨i, r, hr, -, rfl, -⟩ := hchange.starts
    exact (h.valid.below i r hr).trans_le hchange.next_le

theorem Tracks.step_ahead {p : Pending} (hstarts : Starts (calls ++ [c]) before p) (i : Fin RECORDS)
    (r : Record) (hr : s'.records[i] = some r) (hqueued : r.phase = .queued) :
    p.id.toNat < r.result.id.toNat := by
  rcases happens_snoc.mp hstarts with hold | ⟨-, rfl, hok⟩
  · rcases (hchange.came hr).queued hqueued with hkept | hnew
    · exact h.ahead before p hold i r hkept hqueued
    · rw [hnew]
      exact h.started before p hold
  · -- the oldest queued request has just left the queue
    rw [hanswer] at hok
    cases hok
    obtain ⟨j, q, hq, -, rfl, rfl, hleast⟩ := hchange.starts
    rcases Broker.put_eq_some.mp hr with ⟨-, hself⟩ | ⟨hne, hr⟩
    · cases hself
      cases hqueued
    · refine lt_of_le_of_ne (hleast i r hr hqueued) fun heq => hne ?_
      exact h.valid.ids i j r q hr hq (UInt64.toNat_inj.mp heq.symm)

theorem Tracks.step_honest (i : Fin RECORDS) (r : Record) (hr : s'.records[i] = some r)
    (hoperation : r.result.operation ≠ .read) (heffect : r.result.effect = .none)
    (hcomplete : r.phase = .complete) :
    (∀ before p, Starts (calls ++ [c]) before p → p.id ≠ r.result.id)
      ∨ Unavailable (calls ++ [c]) r.result.id := by
  cases hchange.came hr with
  | kept hq =>
    rcases h.honest i r hq hoperation heffect hcomplete with hnever | ⟨before, data, hfinish⟩
    · refine Or.inl fun before p hstarts heq => ?_
      rcases happens_snoc.mp hstarts with hold | ⟨-, rfl, hok⟩
      · exact hnever before p hold heq
      · -- what is started now was queued, and this record is complete
        rw [hanswer] at hok
        cases hok
        obtain ⟨j, q, hqueue, hqueued, rfl, -⟩ := hchange.starts
        have hslot := h.valid.ids j i q r hqueue hq heq
        rw [hslot, hq] at hqueue
        cases hqueue
        exact nomatch hcomplete.symm.trans hqueued
    · exact Or.inr ⟨before, data, hfinish.mono (List.prefix_append _ _)⟩
  | abandoned hq hactive => exact nomatch hactive.symm.trans hcomplete
  | admitted _ _ _ _ _ => cases hcomplete
  | started hq => cases hcomplete
  | @finished q status data hq hcall hvalue =>
    subst hcall hvalue
    have hstatus := finished_effect hoperation heffect
    subst hstatus
    exact Or.inr ⟨calls, data, happens_snoc.mpr (Or.inr ⟨rfl, rfl, hanswer⟩)⟩
  | cancelled hq hqueued hcall =>
    refine Or.inl fun before p hstarts heq => ?_
    rcases happens_snoc.mp hstarts with hold | ⟨-, hstart, -⟩
    · have hlt := h.ahead before p hold i _ hq hqueued
      rw [heq] at hlt
      exact lt_irrefl _ hlt
    · exact hcall hstart.symm

theorem Tracks.step_consumed {owner handle : UInt64} {done : Completion}
    (hconsumes : Consumes (calls ++ [c]) before owner handle done) :
    done.id.toNat < s'.next.toNat
      ∧ ∀ (i : Fin RECORDS) r, s'.records[i] = some r → r.result.id ≠ done.id := by
  obtain ⟨hnew, hpeek⟩ := hconsumes
  rcases happens_snoc.mp hnew with hold | ⟨rfl, rfl, hok⟩
  · obtain ⟨hlt, hnone⟩ := h.consumed before owner handle done ⟨hold, hpeek⟩
    exact ⟨hlt.trans_le hchange.next_le, fun i r hr => hchange.not_there hlt hnone hr⟩
  · rw [hanswer] at hok
    cases hok
    rw [answer_peek] at hpeek
    cases hchange with
    | consumed hslot howner hhandle hcomplete hshown =>
      rw [hshown] at hpeek
      cases hpeek
      refine ⟨h.valid.below _ _ hslot, fun i r hr heq => ?_⟩
      rcases Broker.put_eq_some.mp hr with ⟨-, hself⟩ | ⟨hne, hr⟩
      · cases hself
      · exact hne (h.valid.ids i _ r _ hr hslot heq)

omit hanswer in
/-- Of a request in the queue, nothing queued is left when its record is not. -/
theorem Tracks.step_left {j : Fin RECORDS} {q : Record}
    (hq : (Broker.after calls).records[j] = some q)
    (hleft : ∀ r, s'.records[j] = some r → r.phase = .queued → r ≠ q) :
    q.result.id.toNat < s'.next.toNat
      ∧ ∀ (i : Fin RECORDS) r, s'.records[i] = some r → r.phase = .queued →
        r.result.id ≠ q.result.id := by
  have hlt := h.valid.below j q hq
  refine ⟨hlt.trans_le hchange.next_le, fun i r hr hqueued heq => ?_⟩
  rcases (hchange.came hr).queued hqueued with hkept | hnew
  · have hij := h.valid.ids i j r q hkept hq heq
    subst hij
    rw [hkept] at hq
    exact hleft r hr hqueued (Option.some.inj hq)
  · rw [← heq, hnew] at hlt
    exact lt_irrefl _ hlt

theorem Tracks.step_withdrawn {call : Call} {value : Value} {id : UInt64}
    (hnew : Happens (calls ++ [c]) before call value)
    (hwithdraws : Withdraws (Broker.after before) call value id) :
    id.toNat < s'.next.toNat
      ∧ ∀ (i : Fin RECORDS) r, s'.records[i] = some r → r.phase = .queued → r.result.id ≠ id := by
  rcases happens_snoc.mp hnew with hold | ⟨rfl, rfl, hok⟩
  · obtain ⟨hlt, hnone⟩ := h.withdrawn before call value id hold hwithdraws
    exact ⟨hlt.trans_le hchange.next_le,
      fun i r hr hqueued => hchange.not_queued hlt hnone hr hqueued⟩
  · rw [hanswer] at hok
    cases hok
    have hleft := @Tracks.step_left _ _ _ _ h hchange
    cases hwithdraws with
    | cancel =>
      cases hchange with
      | cancelled hslot howner hhandle hqueued =>
        refine hleft hslot fun r hr hphase => ?_
        rcases Broker.put_eq_some.mp hr with ⟨-, hself⟩ | ⟨hne, -⟩
        · cases hself
          cases hphase
        · exact absurd rfl hne
    | close hslot hqueued hhandle =>
      cases hchange with
      | closed hrecords hnext hfind hgone =>
        refine hleft hslot fun r hr hphase heq => ?_
        exact nomatch (hgone _ r hr (heq ▸ hhandle)).symm.trans hphase
    | closeOwner hslot hqueued howner =>
      cases hchange with
      | ownerClosed hrecords hnext hfind hgone =>
        refine hleft hslot fun r hr hphase heq => ?_
        exact nomatch (hgone _ r hr (heq ▸ howner)).symm.trans hphase

theorem Tracks.step (hvalid : s'.Valid) : Tracks (calls ++ [c]) s' where
  valid := hvalid
  given := h.step_given hanswer hchange
  admitted := h.step_admitted hanswer hchange
  numbered := fun _ _ _ _ _ _ hadmits => h.step_numbered hanswer hchange hadmits
  started := fun _ _ hstarts => h.step_started hanswer hchange hstarts
  ahead := fun _ _ hstarts => h.step_ahead hanswer hchange hstarts
  honest := h.step_honest hanswer hchange
  consumed := fun _ _ _ _ hconsumes => h.step_consumed hanswer hchange hconsumes
  withdrawn := fun _ _ _ _ hnew hwithdraws => h.step_withdrawn hanswer hchange hnew hwithdraws

end

end

/-! ### Every run -/

theorem tracks_after {calls : List Call} (h : Permitted calls) :
    Tracks calls (Broker.after calls) := by
  refine run_history (P := Tracks) tracks_new ?_ h
  intro l a htracks _ hpermits
  have houtcome := outcome htracks.valid hpermits
  generalize hanswer : (run Broker.step Broker.new l).answer a = answer at houtcome
  generalize (run Broker.step Broker.new l).step a = s' at houtcome
  cases houtcome with
  | done hvalid hchange => exact Tracks.step htracks hanswer hchange hvalid
  | refused _ => exact Tracks.refused htracks hanswer

/-- A completion can be read at a moment of the run. -/
def Shown (calls before : List Call) (owner handle : UInt64) (c : Completion) : Prop :=
  before <+: calls ∧ (Broker.after before).answer (.peek owner handle) = .ok (.completion c)

/-- What holds of the requests of a run. -/
structure Confined (calls : List Call) : Prop where
  oneActive : ∀ (i j : Fin RECORDS) r r', (Broker.after calls).records[i] = some r →
    (Broker.after calls).records[j] = some r' → r.phase = .active → r'.phase = .active → i = j
  oneRecord : ∀ (i j : Fin RECORDS) r r', (Broker.after calls).records[i] = some r →
    (Broker.after calls).records[j] = some r' → r.owner = r'.owner → i = j
  returns : ∀ call halt, (Broker.after calls).Permits call →
    (Broker.after calls).answer call = .error halt → ∃ error, halt = .refused error
  granted : ∀ before p, Starts calls before p → ∃ handle earlier g,
    Admits before earlier p.owner handle p.operation p.data p.id
      ∧ Through earlier p.owner handle p.operation p.sector g
  once : ∀ before before' p p', Starts calls before p → Starts calls before' p' →
    p.id = p'.id → before = before'
  inOrder : ∀ before before' p p' first second owner owner' handle handle' operation operation'
    data data', Starts calls before p → Starts calls before' p' →
    Admits calls first owner handle operation data p.id →
    Admits calls second owner' handle' operation' data' p'.id →
    first.length < second.length → before.length < before'.length
  oldest : ∀ before p, Starts calls before p → ∀ (i : Fin RECORDS) r,
    (Broker.after before).records[i] = some r → r.phase = .queued →
    p.id.toNat ≤ r.result.id.toNat
  numbering : ∀ first second owner owner' handle handle' operation operation' data data' id id',
    Admits calls first owner handle operation data id →
    Admits calls second owner' handle' operation' data' id' →
    first.length < second.length → id.toNat < id'.toNat
  withdrawn : ∀ before call value id, Happens calls before call value →
    Withdraws (Broker.after before) call value id →
    ∀ moment p, Starts calls moment p → p.id ≠ id
  consumedOnce : ∀ before before' owner owner' handle handle' c c',
    Consumes calls before owner handle c → Consumes calls before' owner' handle' c' →
    c.id = c'.id → before = before'
  visible : ∀ before owner handle c, Shown calls before owner handle c →
    ∃ earlier data, Admits before earlier owner handle c.operation data c.id
  effects : ∀ before owner handle c, Shown calls before owner handle c →
    c.operation ≠ .read → c.effect = .none →
    (∀ moment p, Starts before moment p → p.id ≠ c.id) ∨ Unavailable before c.id

section
variable {calls : List Call} (h : Permitted calls)
include h

variable {before : List Call} {p : Pending}

/-- Every moment of a run is tracked. -/
theorem tracks_before (hbefore : before <+: calls) : Tracks before (Broker.after before) :=
  tracks_after (Allowed.before h hbefore)

/-- The change a call of the run made. -/
theorem change_of_happens {call : Call} {value : Value}
    (hhappens : Happens calls before call value) :
    ∃ s', Change (Broker.after before) call value s' := by
  have hrun := Allowed.before h hhappens.1
  have hpermits : (Broker.after before).Permits call := (allowed_append.mp hrun).2.1
  have houtcome := outcome (tracks_before h ((List.prefix_append _ _).trans hhappens.1)).valid
    hpermits
  rw [hhappens.2] at houtcome
  cases houtcome with
  | done _ hchange => exact ⟨_, hchange⟩

/-- The queued request that was started at a moment of the run. -/
theorem queued_of_starts (hstarts : Starts calls before p) :
    ∃ (i : Fin RECORDS) (r : Record), (Broker.after before).records[i] = some r
      ∧ r.phase = .queued ∧ p = r.pending
      ∧ ∀ (j : Fin RECORDS) q, (Broker.after before).records[j] = some q → q.phase = .queued →
        r.result.id.toNat ≤ q.result.id.toNat := by
  obtain ⟨s', hchange⟩ := change_of_happens h hstarts
  obtain ⟨i, r, hr, hqueued, hp, -, hleast⟩ := hchange.starts
  exact ⟨i, r, hr, hqueued, hp, hleast⟩

theorem starts_increasing {before' : List Call} {p' : Pending} (hstarts : Starts calls before p)
    (hstarts' : Starts calls before' p') (hlt : before.length < before'.length) :
    p.id.toNat < p'.id.toNat := by
  have htracks := tracks_before h ((List.prefix_append _ _).trans hstarts'.1)
  obtain ⟨i, r, hr, hqueued, rfl, -⟩ := queued_of_starts h hstarts'
  exact htracks.ahead before p (hstarts.before_of_length hstarts' hlt) i r hr hqueued

theorem admits_increasing {first second : List Call} {owner owner' handle handle' : UInt64}
    {operation operation' : Operation} {data data' : Bytes SECTOR} {id id' : UInt64}
    (hadmits : Admits calls first owner handle operation data id)
    (hadmits' : Admits calls second owner' handle' operation' data' id')
    (hlt : first.length < second.length) : id.toNat < id'.toNat := by
  obtain ⟨relative, physical, hfirst⟩ := hadmits
  obtain ⟨relative', physical', hsecond⟩ := hadmits'
  have htracks := tracks_before h ((List.prefix_append _ _).trans hsecond.1)
  have hbelow := htracks.numbered first owner handle operation data id
    ⟨relative, physical, hfirst.before_of_length hsecond hlt⟩
  obtain ⟨s', hchange⟩ := change_of_happens h hsecond
  generalize hid : Value.number id' = w at hchange
  cases hchange with
  | admitted _ _ _ _ _ _ =>
    cases hid
    exact hbelow

/-- A withdrawn request is started at no moment, earlier or later. -/
theorem not_started_of_withdraws {moment : List Call} {call : Call} {value : Value} {id : UInt64}
    (hhappens : Happens calls before call value)
    (hwithdraws : Withdraws (Broker.after before) call value id) (hstarts : Starts calls moment p) :
    p.id ≠ id := by
  intro hpid
  obtain ⟨i, r, hr, hqueued, hp, -⟩ := queued_of_starts h hstarts
  have hid : r.result.id = id := by rw [← hpid, hp]; rfl
  rcases lt_trichotomy moment.length before.length with hlt | heq | hlt
  · -- started before: it was not in the queue any more
    have htracks := tracks_before h ((List.prefix_append _ _).trans hhappens.1)
    have hahead := htracks.ahead moment p (hstarts.before_of_length hhappens hlt)
    rw [hpid] at hahead
    obtain ⟨s', hchange⟩ := change_of_happens h hhappens
    cases hwithdraws with
    | cancel =>
      generalize hvalue : Value.number 0 = w at hchange
      cases hchange with
      | cancelled hslot _ _ hq => exact lt_irrefl _ (hahead _ _ hslot hq)
      | late => exact absurd hvalue (by decide)
    | close hslot hq _ | closeOwner hslot hq _ => exact lt_irrefl _ (hahead _ _ hslot hq)
  · have hsame := hstarts.eq_of_length hhappens heq
    subst hsame
    have hprefix := List.prefix_of_prefix_length_le hstarts.1 hhappens.1 (by simp)
    have hcall : Call.start = call := by
      simpa using hprefix.eq_of_length (by simp)
    subst hcall
    cases hwithdraws
  · have htracks := tracks_before h ((List.prefix_append _ _).trans hstarts.1)
    exact (htracks.withdrawn before call value id
      (hhappens.before_of_length hstarts hlt) hwithdraws).2 i r hr hqueued hid

theorem consumed_once {before' : List Call} {owner owner' handle handle' : UInt64}
    {c c' : Completion} (hconsumes : Consumes calls before owner handle c)
    (hconsumes' : Consumes calls before' owner' handle' c') (hid : c.id = c'.id) :
    before'.length ≤ before.length := by
  by_contra hlt
  have htracks := tracks_before h ((List.prefix_append _ _).trans hconsumes'.1.1)
  have hgone := htracks.consumed before owner handle c
    ⟨hconsumes.1.before_of_length hconsumes'.1 (not_le.mp hlt), hconsumes.2⟩
  obtain ⟨i, r, hslot, -, hresult⟩ := peek_ok (answer_peek.mp hconsumes'.2)
  exact hgone.2 i r (slot_ok hslot).1 (by rw [hresult, hid])

end

/-- Requests stay inside the grants they were admitted through, are started once and in the
order of their admission, and a completion is read by the one who asked for it and says what
happened. -/
theorem requests_confined {calls : List Call} (h : Permitted calls) : Confined calls := by
  have htracks := tracks_after h
  constructor
  case oneActive => exact htracks.valid.single
  case oneRecord => exact htracks.valid.owners
  case returns =>
    intro call halt hpermits hanswer
    have houtcome := outcome htracks.valid hpermits
    rw [hanswer] at houtcome
    generalize (Broker.after calls).step call = s' at houtcome
    cases houtcome with
    | refused _ => exact ⟨_, rfl⟩
  case granted =>
    intro before p hstarts
    obtain ⟨i, r, hr, hqueued, rfl, -⟩ := queued_of_starts h hstarts
    obtain ⟨earlier, data, g, hadmits, hthrough, hdata⟩ :=
      (tracks_before h ((List.prefix_append _ _).trans hstarts.1)).admitted i r hr
    refine ⟨r.handle, earlier, g, ?_, hthrough⟩
    show Admits before earlier r.owner r.handle r.result.operation r.result.data r.result.id
    rw [hdata hqueued]
    exact hadmits
  case once =>
    intro before before' p p' hstarts hstarts' hid
    rcases lt_trichotomy before.length before'.length with hlt | heq | hlt
    · have := starts_increasing h hstarts hstarts' hlt
      rw [hid] at this
      exact absurd this (lt_irrefl _)
    · exact hstarts.eq_of_length hstarts' heq
    · have := starts_increasing h hstarts' hstarts hlt
      rw [hid] at this
      exact absurd this (lt_irrefl _)
  case inOrder =>
    intro before before' p p' first second owner owner' handle handle' operation operation' data
      data' hstarts hstarts' hfirst hsecond hlt
    have hids := admits_increasing h hfirst hsecond hlt
    rcases lt_trichotomy before.length before'.length with hbefore | heq | hafter
    · exact hbefore
    · have hsame := hstarts.eq_of_length hstarts' heq
      subst hsame
      have hanswers := hstarts.2.symm.trans hstarts'.2
      cases hanswers
      exact absurd hids (lt_irrefl _)
    · exact absurd (starts_increasing h hstarts' hstarts hafter) (not_lt.mpr hids.le)
  case oldest =>
    intro before p hstarts i r hr hqueued
    obtain ⟨j, q, -, -, rfl, hleast⟩ := queued_of_starts h hstarts
    exact hleast i r hr hqueued
  case numbering =>
    intro first second owner owner' handle handle' operation operation' data data' id id'
    exact admits_increasing h
  case withdrawn =>
    intro before call value id hhappens hwithdraws moment p hstarts
    exact not_started_of_withdraws h hhappens hwithdraws hstarts
  case consumedOnce =>
    intro before before' owner owner' handle handle' c c' hconsumes hconsumes' hid
    exact hconsumes.1.eq_of_length hconsumes'.1
      (le_antisymm (consumed_once h hconsumes' hconsumes hid.symm)
        (consumed_once h hconsumes hconsumes' hid))
  case visible =>
    intro before owner handle c hshown
    obtain ⟨i, r, hslot, -, rfl⟩ := peek_ok (answer_peek.mp hshown.2)
    obtain ⟨hr, rfl, rfl⟩ := slot_ok hslot
    obtain ⟨earlier, data, g, hadmits, -⟩ := (tracks_before h hshown.1).admitted i r hr
    exact ⟨earlier, data, hadmits⟩
  case effects =>
    intro before owner handle c hshown hoperation heffect
    obtain ⟨i, r, hslot, hcomplete, rfl⟩ := peek_ok (answer_peek.mp hshown.2)
    exact (tracks_before h hshown.1).honest i r (slot_ok hslot).1 hoperation heffect hcomplete

/-- One owner's write, from the grant to the reading of its completion. -/
def sampleCalls : List Call :=
  [.grant 7 ⟨16, 4, READ ||| WRITE⟩ 64,
   .admission 7 72057594037927937 .write 3 (Vector.replicate SECTOR 9) ⟨false⟩,
   .start, .finish 1 .io (Vector.replicate SECTOR 0), .consume 7 72057594037927937]

theorem requests_confined_write :
    Permitted sampleCalls ∧ Confined sampleCalls := by
  have hpermitted : Permitted sampleCalls := by
    simp only [Permitted, sampleCalls, Allowed]
    refine ⟨?_, ?_, ?_, ?_, ?_, trivial⟩
    all_goals
      intro id status data hcall
      cases hcall
    -- only the fourth call finishes a request
    decide +kernel
  exact ⟨hpermitted, requests_confined hpermitted⟩

end RusticOs.Kernel.Block
