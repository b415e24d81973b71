import RusticOs.Kernel.Process

/-!
# `RusticOs.Proofs.Process`: the process table over whole sequences of calls

`Does` lists what a successful call can do to the table, and every result is read off it: the
invariant `Table.Valid`, the pids that are given out in ascending order, and the round robin.

A ready process waits `Table.wait` selections at most, the distance of its slot from the cursor.
A selection of another process brings the cursor nearer, and no other call moves it.
-/

set_option autoImplicit false

namespace RusticOs.Kernel.Process

open RusticOs.Lib
open RusticOs.Fs (checkedAdd_eq_some)

variable {t t' : Table} {answer : Answer} {pid : UInt64} {i : Fin 16} {r : Record}

/-- What a successful call answers and does. -/
inductive Does (t : Table) : Answer → Table → Prop
  | created (i : Fin 16) (next : UInt64) (hi : t.slots[i] = none)
      (hnext : t.next.toNat + 1 = next.toNat) :
      Does t (.created i t.next)
        { t with slots := t.slots.setAt i (some ⟨t.next, .ready⟩), next }
  | altered (i : Fin 16) (r : Record) (state : State) (hi : t.slots[i] = some r)
      (hstate : state ≠ .running) :
      Does t .altered { t with slots := t.slots.setAt i (some { r with state }) }
  | idle (hnone : ∀ (i : Fin 16) r, t.slots[i] = some r → r.state ≠ .ready) :
      Does t (.scheduled none) t
  | selected (d : Nat) (r : Record)
      (hnone : ∀ (i : Fin 16) r, t.slots[i] = some r → r.state ≠ .running)
      (hi : t.slots[Table.ahead t.cursor (d + 1)] = some r)
      (hnearest : ∀ e < d, ∀ r, t.slots[Table.ahead t.cursor (e + 1)] = some r →
        r.state ≠ .ready) :
      Does t (.scheduled (some (Table.ahead t.cursor (d + 1), r.pid)))
        { t with
          slots := t.slots.setAt (Table.ahead t.cursor (d + 1))
            (some { r with state := .running })
          cursor := Table.ahead t.cursor (d + 1) }
  | reaped (i : Fin 16) (r : Record) (exit : Exit) (hi : t.slots[i] = some r)
      (hexit : r.state = .exited exit) :
      Does t (.reaped exit) { t with slots := t.slots.setAt i none }

namespace Table

/-! ### What a call does -/

/-- A slot is found by the process in it. -/
theorem slot_eq_ok (h : t.slot pid = .ok (i, r)) : t.slots[i] = some r ∧ r.pid = pid := by
  simpa using Slots.position_eq_some (orRefuse_eq_ok.mp h)

/-- The state of a process is that of its slot. -/
theorem state_eq_ok {state : State} (h : t.state pid = .ok state) :
    ∃ (i : Fin 16) (r : Record), t.slots[i] = some r ∧ r.pid = pid ∧ r.state = state := by
  obtain ⟨⟨i, r⟩, hslot, hstate⟩ := except_bind_eq_ok.mp h
  obtain ⟨hi, hpid⟩ := slot_eq_ok hslot
  exact ⟨i, r, hi, hpid, Except.ok.inj hstate⟩

/-- A change of state that is no start. -/
theorem alter_does {allowed : State → Bool} {refusal : Error} {state : State}
    (hstate : state ≠ .running) (h : t.alter pid allowed refusal state = .ok t') :
    Does t .altered t' := by
  obtain ⟨⟨i, r⟩, hslot, h⟩ := except_bind_eq_ok.mp h
  obtain ⟨-, -, h⟩ := except_bind_eq_ok.mp h
  cases h
  exact .altered i r state (slot_eq_ok hslot).1 hstate

/-- How many slots the search passes before it comes to a slot. -/
def wait (cursor i : Fin 16) : Nat := (i.val + 15 - cursor.val) % 16

/-- The slot that many steps ahead of the cursor. -/
theorem ahead_wait (cursor i : Fin 16) : ahead cursor (wait cursor i + 1) = i := by
  apply Fin.ext
  simp only [ahead, wait]
  omega

/-- No slot is ready. -/
theorem nearest_eq_none (h : t.nearest = none) (hi : t.slots[i] = some r) : r.state ≠ .ready := by
  rw [nearest, List.findSome?_eq_none_iff] at h
  have hfar := h (wait t.cursor i) (List.mem_range.mpr (Nat.mod_lt _ (by decide)))
  rw [ahead_wait, hi, Option.map_eq_none_iff, Option.filter_eq_none_iff] at hfar
  simpa using hfar r rfl

/-- The nearest ready slot: none before it is ready. -/
theorem nearest_eq_some (h : t.nearest = some (i, r)) :
    ∃ d, ahead t.cursor (d + 1) = i ∧ t.slots[i] = some r ∧
      ∀ e < d, ∀ r, t.slots[ahead t.cursor (e + 1)] = some r → r.state ≠ .ready := by
  obtain ⟨before, d, after, hsplit, hfound, hbefore⟩ := List.findSome?_eq_some_iff.mp h
  rw [Option.map_eq_some_iff] at hfound
  obtain ⟨r, hr, hpair⟩ := hfound
  cases hpair
  refine ⟨d, rfl, (Option.filter_eq_some_iff.mp hr).1, fun e he r hr => ?_⟩
  have hsorted := List.pairwise_lt_range (n := 16)
  have hd : d ∈ List.range 16 := by simp [hsplit]
  have hmem : e ∈ List.range 16 := by
    rw [List.mem_range] at hd ⊢
    omega
  rw [hsplit, List.pairwise_append, List.pairwise_cons] at hsorted
  rw [hsplit, List.mem_append, List.mem_cons] at hmem
  have hnone := hbefore e (hmem.resolve_right fun h => h.elim he.ne fun h =>
    he.asymm (hsorted.2.1.1 e h))
  rw [hr, Option.map_eq_none_iff, Option.filter_eq_none_iff] at hnone
  simpa using hnone r rfl

/-- A selection, or nothing to select. -/
theorem schedule_does {selected : Option (Fin 16 × UInt64)}
    (h : t.schedule = .ok (selected, t')) : Does t (.scheduled selected) t' := by
  obtain ⟨u, hrunning, h⟩ := except_bind_eq_ok.mp h
  cases hnearest : t.nearest with
  | none =>
    rw [hnearest] at h
    cases h
    exact .idle fun i r => nearest_eq_none hnearest
  | some found =>
    rw [hnearest] at h
    cases h
    obtain ⟨d, hd, hi, hfirst⟩ := nearest_eq_some hnearest
    rw [← hd] at hi ⊢
    refine .selected d found.2 (fun j s hj => ?_) hi hfirst
    exact beq_eq_false_iff_ne.mp
      (Slots.position_eq_none.mp (by simpa using reject_eq_ok.mp hrunning) j s hj)

/-- A selection is refused only while a process is running. -/
theorem schedule_eq_error {e : Error} (h : t.schedule = .error e) :
    e = .running ∧ ∃ (i : Fin 16) (r : Record), t.slots[i] = some r ∧ r.state = .running := by
  cases hfind : t.slots.position (·.state == .running) with
  | none =>
    rw [schedule, hfind] at h
    cases hnearest : t.nearest with
    | none | some =>
      rw [hnearest] at h
      cases h
  | some found =>
    rw [schedule, hfind] at h
    cases h
    obtain ⟨hi, hrunning⟩ := Slots.position_eq_some hfind
    exact ⟨rfl, found.1, found.2, hi, beq_iff_eq.mp hrunning⟩

/-- A call that succeeds does what its answer says. -/
theorem perform_does {call : Call} (h : t.perform call = .ok (answer, t')) :
    Does t answer t' := by
  cases call <;> obtain ⟨a, ha, hpair⟩ := except_bind_eq_ok.mp h <;> cases hpair
  case create =>
    obtain ⟨i, hi, ha⟩ := except_bind_eq_ok.mp ha
    obtain ⟨next, hnext, ha⟩ := except_bind_eq_ok.mp ha
    cases ha
    exact .created i next (Slots.vacant_eq_some (orRefuse_eq_ok.mp hi))
      (checkedAdd_eq_some.mp (orRefuse_eq_ok.mp hnext))
  case schedule => exact schedule_does ha
  case reap =>
    obtain ⟨⟨i, r⟩, hslot, ha⟩ := except_bind_eq_ok.mp ha
    simp only at ha
    split at ha
    · cases ha
      exact .reaped i r _ (slot_eq_ok hslot).1 ‹_›
    · cases ha
  all_goals exact alter_does (by simp) ha

/-! ### The invariant -/

/-- Every pid stands in one slot and was given out before, and at most one process is running. -/
structure Valid (t : Table) : Prop where
  unique : ∀ pid, t.slots.Once (·.pid = pid)
  given : ∀ (i : Fin 16) r, t.slots[i] = some r → r.pid.toNat < t.next.toNat
  alone : t.slots.Once (·.state = .running)

/-- A slot changes its state, and at most one is running. -/
theorem Valid.state (v : t.Valid) (state : State) (hi : t.slots[i] = some r)
    (hstate : state = .running → ∀ (j : Fin 16) s, t.slots[j] = some s → s.state ≠ .running)
    (cursor : Fin 16) :
    Valid { t with slots := t.slots.setAt i (some { r with state }), cursor } where
  unique pid := (v.unique pid).setAt fun _ ha hpid j s hj hs hsame =>
    hj (v.unique pid j i s r hs hi hsame (by cases ha; exact hpid))
  given j s hj := by
    rcases Slots.setAt_eq_some.mp hj with ⟨-, hs⟩ | ⟨-, hs⟩
    · cases hs
      exact v.given i r hi
    · exact v.given j s hs
  alone := v.alone.setAt fun _ ha hrunning j s _ hs => by
    cases ha
    exact hstate hrunning j s hs

end Table

/-- Every step keeps the table valid. -/
theorem Does.valid (h : Does t answer t') (v : t.Valid) : t'.Valid := by
  cases h with
  | created i next hi hnext =>
    refine ⟨fun pid => (v.unique pid).setAt fun a ha hpid j s _ hs hsame => ?_,
      fun j s hj => ?_, v.alone.setAt fun a ha hrunning => ?_⟩
    · cases ha
      have hs := v.given j s hs
      rw [hsame, ← hpid] at hs
      exact absurd hs (lt_irrefl _)
    · rcases Slots.setAt_eq_some.mp hj with ⟨-, hs⟩ | ⟨-, hs⟩
      · cases hs
        exact hnext.le
      · exact (v.given j s hs).trans hnext.le
    · cases ha
      cases hrunning
  | altered i r state hi hstate => exact v.state state hi (fun h => absurd h hstate) t.cursor
  | idle => exact v
  | selected d r hnone hi => exact v.state .running hi (fun _ => hnone) _
  | reaped i =>
    refine ⟨fun pid => (v.unique pid).setAt fun _ ha => (by cases ha), fun j s hj => ?_,
      v.alone.setAt fun _ ha => (by cases ha)⟩
    rcases Slots.setAt_eq_some.mp hj with ⟨-, hs⟩ | ⟨-, hs⟩
    · cases hs
    · exact v.given j s hs

namespace Table

/-- The empty table. -/
theorem valid_new : new.Valid := by
  have hnone (i : Fin 16) (r : Record) : new.slots[i] ≠ some r := by
    simp [new, Vector.getElem_val]
  exact ⟨fun _ i _ a _ hi => absurd hi (hnone i a), fun i r hi => absurd hi (hnone i r),
    fun i _ a _ hi => absurd hi (hnone i a)⟩

/-- A call is refused, or its answer comes first. -/
theorem step_cases (t : Table) (call : Call) :
    (t.step call = t ∧ ∀ calls, t.answers (call :: calls) = t.answers calls) ∨
      ∃ answer, Does t answer (t.step call) ∧
        ∀ calls, t.answers (call :: calls) = answer :: (t.step call).answers calls := by
  unfold step
  cases hperform : t.perform call with
  | error e => exact .inl ⟨rfl, fun calls => by simp [answers, hperform]⟩
  | ok result =>
    exact .inr ⟨result.1, perform_does hperform, fun calls => by simp [answers, hperform]⟩

/-- A call, refused or not. -/
theorem Valid.step (v : t.Valid) (call : Call) : (t.step call).Valid := by
  rcases t.step_cases call with ⟨hstep, -⟩ | ⟨answer, hdoes, -⟩
  · exact hstep.symm ▸ v
  · exact hdoes.valid v

/-- Every reachable table is valid. -/
theorem valid_run (calls : List Call) : (new.run calls).Valid :=
  List.foldlRecOn calls step valid_new fun _ v call _ => v.step call

/-! ### Creation -/

/-- The pids a sequence of calls gives out ascend, from the next one of the table on. -/
theorem created_ascending (t : Table) (calls : List Call) :
    (t.created calls).Pairwise (·.toNat < ·.toNat) ∧
      ∀ pid ∈ t.created calls, t.next.toNat ≤ pid.toNat := by
  induction calls generalizing t with
  | nil => simp [created, answers]
  | cons call calls ih =>
    have hrest := ih (t.step call)
    rcases t.step_cases call with ⟨hstep, hanswers⟩ | ⟨answer, hdoes, hanswers⟩
    · simpa only [created, hanswers, hstep] using hrest
    · simp only [created, hanswers] at hrest ⊢
      generalize t.step call = t' at hdoes hrest
      cases hdoes with
      | created i next hi hnext =>
        have hless pid h := Nat.lt_of_succ_le (hnext.le.trans (hrest.2 pid h))
        exact ⟨.cons hless hrest.1, List.forall_mem_cons.mpr
          ⟨le_rfl, fun pid h => (hless pid h).le⟩⟩
      | _ => exact hrest

/-! ### The round robin -/

/-- A cursor that moves short of `i` comes nearer to it. -/
theorem wait_ahead {cursor : Fin 16} {d : Nat} (hd : d < wait cursor i) :
    wait (ahead cursor (d + 1)) i < wait cursor i := by
  simp only [ahead, wait] at hd ⊢
  omega

/-- The state the table reports is the slot's. -/
theorem Valid.state_eq (v : t.Valid) (hi : t.slots[i] = some r) {state : State}
    (h : t.state r.pid = .ok state) : r.state = state := by
  obtain ⟨j, s, hj, hpid, hstate⟩ := state_eq_ok h
  cases v.unique r.pid i j r s hi hj rfl hpid
  cases hi.symm.trans hj
  exact hstate

/-- A ready process is selected before its distance from the cursor is used up. -/
theorem scheduled_ready (v : t.Valid) (hi : t.slots[i] = some r) (hready : r.state = .ready)
    (later : List Call)
    (hstays : ∀ k ≤ later.length, some r.pid ∈ t.scheduled (later.take k) ∨
      (t.run (later.take k)).state r.pid = .ok .ready)
    (hmany : wait t.cursor i < (t.scheduled later).length) :
    some r.pid ∈ (t.scheduled later).take (wait t.cursor i + 1) := by
  induction later generalizing t r with
  | nil => simp [scheduled, answers] at hmany
  | cons call later ih =>
    have hlater k (hk : k ≤ later.length) := hstays (k + 1) (Nat.succ_le_succ hk)
    have v' := v.step call
    have hkeep (j : Fin 16) (x : Option Record) (hij : i ≠ j) :
        (t.slots.setAt j x)[i] = some r := (Vector.setAt_ne t.slots hij x).trans hi
    simp only [List.take_succ_cons, run_cons] at hlater
    rcases t.step_cases call with ⟨hstep, hanswers⟩ | ⟨answer, hdoes, hanswers⟩
    · simp only [scheduled, hanswers, hstep] at hlater hmany ⊢
      exact ih v hi hready hlater hmany
    · simp only [scheduled, hanswers] at hlater hmany ⊢
      generalize t.step call = t' at hdoes hlater hmany v' ⊢
      cases hdoes with
      | created j next hj =>
        have hij : i ≠ j := by
          rintro rfl
          cases hi.symm.trans hj
        exact ih v' (hkeep j _ hij) hready hlater hmany
      | altered j s state hj =>
        by_cases hij : i = j
        · subst hij
          cases hi.symm.trans hj
          have hi' := Vector.setAt_self t.slots i (some { r with state })
          have hnow := (hlater 0 (Nat.zero_le _)).resolve_left (by simp [answers])
          exact ih (r := { r with state }) v' hi' (v'.state_eq hi' hnow) hlater hmany
        · exact ih v' (hkeep j _ hij) hready hlater hmany
      | idle hnone => exact absurd hready (hnone i r hi)
      | selected d s hnone hj hnearest =>
        by_cases hij : i = ahead t.cursor (d + 1)
        · rw [← hij] at hj
          cases hi.symm.trans hj
          simp
        · -- another process was nearer: the cursor moves on, short of `i`
          have hpid : s.pid ≠ r.pid := fun h => hij (v.unique r.pid i _ r s hi hj rfl h)
          have hd : d < wait t.cursor i := by
            by_contra hd
            rcases (Nat.not_lt.mp hd).lt_or_eq with hd | rfl
            · exact hnearest _ hd r ((ahead_wait t.cursor i).symm ▸ hi) hready
            · exact hij (ahead_wait t.cursor i).symm
          have hwait := wait_ahead hd
          have hsoon := ih v' (hkeep _ _ hij) hready
            (fun k hk => (hlater k hk).imp_left fun h =>
              (List.mem_cons.mp h).resolve_left (by simpa using hpid.symm))
            (hwait.trans_le (Nat.le_of_lt_succ hmany))
          exact .tail _ (List.take_subset_take_left _ hwait hsoon)
      | reaped j s exit hj hexit =>
        have hij : i ≠ j := by
          rintro rfl
          cases hi.symm.trans hj
          cases hready.symm.trans hexit
        exact ih v' (hkeep j _ hij) hready hlater hmany

/-- In every sequence of calls at most one process is running, no pid is given out twice, a
selection is refused only while a process is running, and a process that stays ready until it is
selected is among the next sixteen that are. -/
theorem schedule_fair (calls : List Call) :
    (new.run calls).slots.Once (·.state = .running) ∧ (new.created calls).Nodup ∧
      (∀ e, (new.run calls).schedule = .error e → e = .running ∧
        ∃ (i : Fin 16) (r : Record), (new.run calls).slots[i] = some r ∧ r.state = .running) ∧
      ∀ pid later,
        (∀ k ≤ later.length, some pid ∈ (new.run calls).scheduled (later.take k) ∨
          ((new.run calls).run (later.take k)).state pid = .ok .ready) →
        16 ≤ ((new.run calls).scheduled later).length →
        some pid ∈ ((new.run calls).scheduled later).take 16 := by
  have v := valid_run calls
  refine ⟨v.alone, (created_ascending new calls).1.imp fun h => ?_, fun e => schedule_eq_error, ?_⟩
  · rintro rfl
    exact lt_irrefl _ h
  · intro pid later hstays hmany
    have hnow := (hstays 0 (Nat.zero_le _)).resolve_left (by simp [scheduled, answers])
    obtain ⟨i, r, hi, rfl, hready⟩ := state_eq_ok hnow
    have hwait : wait (new.run calls).cursor i < 16 := Nat.mod_lt _ (by decide)
    exact List.take_subset_take_left _ hwait
      (scheduled_ready v hi hready later hstays (hwait.trans_le hmany))

-- the second selection is refused, and a blocked process is passed over
example : new.scheduled [.create, .create, .create, .schedule, .schedule, .block 1, .schedule,
    .suspend 2, .schedule, .suspend 3, .schedule] = [some 1, some 2, some 3, some 2] := by
  decide +kernel

end Table

end RusticOs.Kernel.Process
