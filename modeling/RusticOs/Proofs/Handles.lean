import RusticOs.Kernel.Handles
import RusticOs.Lib.Keyed

/-!
# `RusticOs.Proofs.Handles`: a handle table is a finite map with fresh names

A valid table maps each live identifier to its entry (`Table.find`). Its operations are what
they are on that map: a grant adds a name that was never used, a removal takes a name out, and
a transfer does both. An owner reaches its own entries only (`Held`).

- `Table.Valid.clear`, `Table.Valid.place`: the two changes of one slot.
- `Table.resolve_eq_ok`, `Table.resolve_eq_error`: what a handle gives access to.
- `Table.grant_ok`, `Table.remove_ok`, `Table.transfer_ok`: the operations on the map.
-/

set_option autoImplicit false

namespace RusticOs.Kernel.Table

open RusticOs.Lib
open RusticOs.Fs (checkedAdd checkedAdd_eq_some)

variable {T : Type} {capacity perOwner : Nat}

/-! ### The table as a map -/

/-- Every identifier was made by this table and names one slot. -/
structure Valid (t : Table T capacity perOwner) : Prop where
  domain : t.domain.toNat % 2 ^ 56 = 0
  next : t.next.toNat < 2 ^ 56
  ids : ∀ (i : Fin capacity) e, t.entries[i] = some e →
    ∃ k, k < t.next.toNat ∧ e.id.toNat = t.domain.toNat + k
  unique : ∀ (i j : Fin capacity) e e', t.entries[i] = some e → t.entries[j] = some e' →
    e.id = e'.id → i = j

/-- The slots under their identifiers. -/
def keyed (t : Table T capacity perOwner) (i : Fin capacity) : Option (UInt64 × Entry T) :=
  t.entries[i].map fun e => (e.id, e)

/-- The live entry of an identifier. -/
def find (t : Table T capacity perOwner) (id : UInt64) : Option (Entry T) := lookup t.keyed id

/-- An owner holds a handle. -/
def Held (t : Table T capacity perOwner) (owner id : UInt64) (e : Entry T) : Prop :=
  t.find id = some e ∧ e.owner = owner

variable {t : Table T capacity perOwner}

theorem keyed_eq_some {i : Fin capacity} {id : UInt64} {e : Entry T} :
    t.keyed i = some (id, e) ↔ t.entries[i] = some e ∧ e.id = id := by
  unfold keyed
  rw [Option.map_eq_some_iff]
  constructor
  · rintro ⟨e', he, heq⟩
    cases heq
    exact ⟨he, rfl⟩
  · rintro ⟨he, rfl⟩
    exact ⟨e, he, rfl⟩

theorem Valid.keys (h : t.Valid) : UniqueKeys t.keyed := by
  intro i j id e e' hi hj
  rw [keyed_eq_some] at hi hj
  exact h.unique i j e e' hi.1 hj.1 (hi.2.trans hj.2.symm)

theorem find_eq_some (h : t.Valid) {id : UInt64} {e : Entry T} :
    t.find id = some e ↔ ∃ i : Fin capacity, t.entries[i] = some e ∧ e.id = id := by
  unfold find
  rw [lookup_eq_some h.keys]
  exact exists_congr fun i => keyed_eq_some

theorem valid_new (domain allowed right : UInt8) :
    (new domain allowed right : Table T capacity perOwner).Valid where
  domain := by
    show (domain.toUInt64 <<< 56).toNat % 2 ^ 56 = 0
    have hdomain : domain.toNat < 2 ^ 8 := domain.toNat_lt
    rw [UInt64.toNat_shiftLeft, UInt8.toNat_toUInt64]
    show domain.toNat <<< 56 % 2 ^ 64 % 2 ^ 56 = 0
    rw [Nat.shiftLeft_eq]
    omega
  next := show (1 : UInt64).toNat < 2 ^ 56 by decide
  ids := by
    intro i e hi
    simp [new] at hi
  unique := by
    intro i j e e' hi
    simp [new] at hi

theorem find_new (domain allowed right : UInt8) (id : UInt64) :
    (new domain allowed right : Table T capacity perOwner).find id = none := by
  rw [find, lookup_eq_none]
  intro i e
  simp [keyed, new]

/-! ### One slot changed -/

/-- An identifier of the domain is the domain's base and its number. -/
theorem toNat_domain_or {d k : UInt64} (hd : d.toNat % 2 ^ 56 = 0) (hk : k.toNat < 2 ^ 56) :
    (d ||| k).toNat = d.toNat + k.toNat := by
  obtain ⟨m, hm⟩ := Nat.dvd_of_mod_eq_zero hd
  rw [UInt64.toNat_or, hm, Nat.two_pow_add_eq_or_of_lt hk]

/-- The next number is one more, and still below the bound. -/
theorem following_eq_ok {next : UInt64} (h : t.following = .ok next) :
    next.toNat = t.next.toNat + 1 ∧ next.toNat < 2 ^ 56 := by
  unfold following at h
  rw [orRefuse_eq_ok, Option.filter_eq_some_iff, checkedAdd_eq_some] at h
  obtain ⟨hnext, hbound⟩ := h
  have hlt : next < (1 : UInt64) <<< 56 := by simpa using hbound
  refine ⟨hnext.symm, ?_⟩
  simpa using UInt64.lt_iff_toNat_lt.mp hlt

/-- No number is left. -/
def Spent (t : Table T capacity perOwner) : Prop := 2 ^ 56 ≤ t.next.toNat + 1

theorem not_spent_of_following {next : UInt64} (h : t.following = .ok next) : ¬ t.Spent := by
  obtain ⟨hnext, hlt⟩ := following_eq_ok h
  exact Nat.not_le.mpr (hnext ▸ hlt)

/-- What waits for the next number is refused with `quota` only, when no number is left. -/
theorem spent_of_following {α : Type} {f : UInt64 → α} {error : HandleError}
    (h : (t.following >>= fun next => .ok (f next)) = .error error) :
    error = .quota ∧ t.Spent := by
  by_cases hspent : t.Spent
  · unfold following orRefuse at h
    split at h
    · cases h
    · cases h
      exact ⟨rfl, hspent⟩
  · have hlt : t.next.toNat + 1 < 2 ^ 56 := Nat.not_le.mp hspent
    have hnext : (t.next + 1).toNat = t.next.toNat + 1 := by
      rw [UInt64.toNat_add]
      exact Nat.mod_eq_of_lt (by show t.next.toNat + 1 < 2 ^ 64; omega)
    have hadd : checkedAdd t.next 1 = some (t.next + 1) := checkedAdd_eq_some.mpr hnext.symm
    have hbound : t.next + (1 : UInt64) < (1 : UInt64) <<< 56 := by
      rw [UInt64.lt_iff_toNat_lt, hnext]
      exact hlt
    rw [following, hadd, Option.filter_some, if_pos (decide_eq_true hbound)] at h
    cases h

section
variable {t : Table T capacity perOwner} {i : Fin capacity} {e : Entry T}

/-- The table with one slot emptied. -/
def cleared (t : Table T capacity perOwner) (i : Fin capacity) : Table T capacity perOwner :=
  { t with entries := t.entries.setAt i none }

/-- The table with a new entry in a slot, under the next identifier. -/
def placed (t : Table T capacity perOwner) (i : Fin capacity) (next : UInt64) (e : Entry T) :
    Table T capacity perOwner :=
  { t with entries := t.entries.setAt i (some e), next := next }

theorem keyed_cleared_self (t : Table T capacity perOwner) (i : Fin capacity) :
    (t.cleared i).keyed i = none := by
  simp [keyed, cleared]

theorem keyed_cleared_of_ne {j : Fin capacity} (h : j ≠ i) :
    (t.cleared i).keyed j = t.keyed j := by
  unfold keyed cleared
  rw [Vector.setAt_ne _ h]

theorem keyed_placed_of_ne {j : Fin capacity} (h : j ≠ i) (next : UInt64) (e : Entry T) :
    (t.placed i next e).keyed j = t.keyed j := by
  unfold keyed placed
  rw [Vector.setAt_ne _ h]

variable (h : t.Valid)
include h

theorem Valid.clear (i : Fin capacity) : (t.cleared i).Valid where
  domain := h.domain
  next := h.next
  ids := by
    intro j e hj
    rw [cleared, Slots.setAt_eq_some] at hj
    rcases hj with ⟨-, hj⟩ | ⟨-, hj⟩
    · cases hj
    · exact h.ids j e hj
  unique := by
    intro j k e e' hj hk
    rw [cleared, Slots.setAt_eq_some] at hj hk
    rcases hj with ⟨-, hj⟩ | ⟨-, hj⟩
    · cases hj
    rcases hk with ⟨-, hk⟩ | ⟨-, hk⟩
    · cases hk
    exact h.unique j k e e' hj hk

theorem find_cleared (hi : t.entries[i] = some e) :
    (t.cleared i).find = Function.update t.find e.id none :=
  lookup_erase h.keys (h.clear i).keys (fun _ hj => keyed_cleared_of_ne hj)
    (keyed_eq_some.mpr ⟨hi, rfl⟩) (keyed_cleared_self t i)

/-- The next identifier is not in use. -/
theorem Valid.fresh {j : Fin capacity} {e : Entry T} (hj : t.entries[j] = some e) :
    e.id ≠ t.domain ||| t.next := by
  intro heq
  obtain ⟨k, hk, hid⟩ := h.ids j e hj
  rw [heq, toNat_domain_or h.domain h.next] at hid
  omega

theorem Valid.find_next : t.find (t.domain ||| t.next) = none := by
  cases hfind : t.find (t.domain ||| t.next) with
  | none => rfl
  | some e =>
    obtain ⟨i, hi, hid⟩ := (find_eq_some h).mp hfind
    exact absurd hid (h.fresh hi)

theorem Valid.place {next : UInt64} (hnext : t.following = .ok next)
    (hid : e.id = t.domain ||| t.next) (i : Fin capacity) : (t.placed i next e).Valid where
  domain := h.domain
  next := (following_eq_ok hnext).2
  ids := by
    intro j e' hj
    have hcount : next.toNat = t.next.toNat + 1 := (following_eq_ok hnext).1
    show ∃ k, k < next.toNat ∧ e'.id.toNat = t.domain.toNat + k
    rw [placed, Slots.setAt_eq_some] at hj
    rcases hj with ⟨-, hj⟩ | ⟨-, hj⟩
    · cases hj
      exact ⟨t.next.toNat, by omega, by rw [hid, toNat_domain_or h.domain h.next]⟩
    · obtain ⟨k, hk, hke⟩ := h.ids j e' hj
      exact ⟨k, by omega, hke⟩
  unique := by
    intro j k e₁ e₂ hj hk hsame
    rw [placed, Slots.setAt_eq_some] at hj hk
    -- the new identifier is on no old entry
    rcases hj with ⟨rfl, hj⟩ | ⟨-, hj⟩ <;> rcases hk with ⟨rfl, hk⟩ | ⟨-, hk⟩
    · rfl
    · cases hj
      exact absurd (hsame.symm.trans hid) (h.fresh hk)
    · cases hk
      exact absurd (hsame.trans hid) (h.fresh hj)
    · exact h.unique j k e₁ e₂ hj hk hsame

theorem find_placed {next : UInt64} (hnext : t.following = .ok next)
    (hid : e.id = t.domain ||| t.next) (hi : t.entries[i] = none) :
    (t.placed i next e).find = Function.update t.find e.id (some e) :=
  lookup_insert h.keys (h.place hnext hid i).keys (fun _ hj => keyed_placed_of_ne hj next e)
    (by simp [keyed, hi])
    (keyed_eq_some.mpr ⟨by simp [placed], rfl⟩)

end

/-! ### The operations on the map -/

section
variable {t t' : Table T capacity perOwner} {owner id : UInt64}

variable {e : Entry T} {object : T} {error : HandleError} {rights : UInt8}

theorem index_eq_ok {i : Fin capacity} (h : t.index owner id = .ok (i, e)) :
    t.entries[i] = some e ∧ e.id = id ∧ e.owner = owner := by
  unfold index at h
  rw [orRefuse_eq_ok] at h
  obtain ⟨hslot, htest⟩ := Slots.position_eq_some h
  rw [Bool.and_eq_true, beq_iff_eq, beq_iff_eq] at htest
  exact ⟨hslot, htest.1, htest.2⟩

theorem held_of_index (hv : t.Valid) {i : Fin capacity} (h : t.index owner id = .ok (i, e)) :
    t.Held owner id e := by
  obtain ⟨hslot, hid, howner⟩ := index_eq_ok h
  exact ⟨(find_eq_some hv).mpr ⟨i, hslot, hid⟩, howner⟩

/-- An owner's own handle is found. -/
theorem Held.index (hv : t.Valid) (h : t.Held owner id e) : ∃ i, t.index owner id = .ok (i, e) := by
  obtain ⟨i, hslot, hid⟩ := (find_eq_some hv).mp h.1
  refine ⟨i, ?_⟩
  unfold Table.index
  rw [orRefuse_eq_ok]
  apply Slots.position_of_unique hslot
  · simp [hid, h.2]
  · intro j e' hj htest
    rw [Bool.and_eq_true, beq_iff_eq, beq_iff_eq] at htest
    exact hv.unique j i e' e hj hslot (htest.1.trans hid.symm)

/-- A handle that is not the owner's is not found. -/
theorem index_of_not_held (hv : t.Valid) (h : ∀ e, ¬ t.Held owner id e) :
    t.index owner id = .error .handle := by
  cases hindex : t.index owner id with
  | ok found => exact absurd (held_of_index hv hindex) (h _)
  | error x =>
    unfold index orRefuse at hindex
    split at hindex
    · cases hindex
    · exact hindex.symm

/-- A handle gives its owner the object, if it carries the right. -/
theorem resolve_eq_ok (hv : t.Valid) {right : UInt8} :
    t.resolve owner id right = .ok object
      ↔ ∃ e, t.Held owner id e ∧ e.rights &&& right = right ∧ e.object = object := by
  unfold resolve
  constructor
  · intro h
    obtain ⟨⟨i, e⟩, hindex, h⟩ := except_bind_eq_ok.mp h
    obtain ⟨_, hright, hobject⟩ := except_bind_eq_ok.mp h
    cases hobject
    exact ⟨e, held_of_index hv hindex, not_not.mp (reject_eq_ok.mp hright), rfl⟩
  · rintro ⟨e, hheld, hright, rfl⟩
    obtain ⟨i, hindex⟩ := hheld.index hv
    rw [hindex, ok_bind]
    dsimp only
    rw [reject_of_not (not_not.mpr hright)]
    rfl

/-- It is refused when it is not the owner's, or carries too few rights. -/
theorem resolve_eq_error (hv : t.Valid) {right : UInt8}
    (h : t.resolve owner id right = .error error) :
    (error = .handle ∧ ∀ e, ¬ t.Held owner id e)
      ∨ (error = .denied ∧ ∃ e, t.Held owner id e ∧ e.rights &&& right ≠ right) := by
  by_cases hheld : ∃ e, t.Held owner id e
  · obtain ⟨e, hheld⟩ := hheld
    obtain ⟨i, hindex⟩ := hheld.index hv
    unfold resolve at h
    rw [hindex, ok_bind] at h
    dsimp only at h
    by_cases hright : e.rights &&& right ≠ right
    · rw [reject_of hright] at h
      cases h
      exact Or.inr ⟨rfl, e, hheld, hright⟩
    · rw [reject_of_not hright] at h
      cases h
  · have hnone : ∀ e, ¬ t.Held owner id e := fun e he => hheld ⟨e, he⟩
    unfold resolve at h
    rw [index_of_not_held hv hnone] at h
    cases h
    exact Or.inl ⟨rfl, hnone⟩

/-- What a change of a table does not touch. -/
structure SameKind (t t' : Table T capacity perOwner) : Prop where
  domain : t'.domain = t.domain
  allowed : t'.allowed = t.allowed
  transferRight : t'.transferRight = t.transferRight

/-- How many handles there are. -/
def live (t : Table T capacity perOwner) : Nat := t.entries.occupied fun _ => true

/-- No room for one more handle of an owner. -/
def Full (t : Table T capacity perOwner) (owner : UInt64) : Prop :=
  perOwner ≤ t.owned owner ∨ capacity ≤ t.live ∨ t.Spent

/-- A grant adds a fresh handle. -/
structure Granted (t t' : Table T capacity perOwner) (e : Entry T) : Prop where
  valid : t'.Valid
  kind : SameKind t t'
  id : e.id = t.domain ||| t.next
  next : t'.next.toNat = t.next.toNat + 1
  fresh : t.find e.id = none
  find : t'.find = Function.update t.find e.id (some e)

theorem grant_ok (hv : t.Valid) (h : t.grant owner object rights = .ok (id, t')) :
    Granted t t' { id := id, owner := owner, object := object, rights := rights }
      ∧ ¬ t.Full owner ∧ t'.live = t.live + 1
      ∧ ∀ o, t'.owned o = t.owned o + if owner = o then 1 else 0 := by
  unfold grant at h
  obtain ⟨_, -, h⟩ := except_bind_eq_ok.mp h
  obtain ⟨_, hroom, h⟩ := except_bind_eq_ok.mp h
  obtain ⟨slot, hslot, h⟩ := except_bind_eq_ok.mp h
  obtain ⟨next, hnext, h⟩ := except_bind_eq_ok.mp h
  cases h
  have hvacant := Slots.vacant_eq_some (orRefuse_eq_ok.mp hslot)
  refine ⟨?_, ?_, Slots.occupied_fill hvacant _, fun o => ?_⟩
  · exact { valid := hv.place hnext rfl slot
            kind := ⟨rfl, rfl, rfl⟩
            id := rfl
            next := (following_eq_ok hnext).1
            fresh := hv.find_next
            find := find_placed hv hnext rfl hvacant }
  · rintro (hfull | hfull | hspent)
    · exact reject_eq_ok.mp hroom (by simpa [room] using hfull)
    · rw [Slots.vacant_eq_none.mpr hfull] at hslot
      cases hslot
    · exact not_spent_of_following hnext hspent
  · rw [owned, Slots.occupied_fill hvacant]
    simp [owned]

/-- A removal takes the owner's handle out of the map. -/
theorem remove_ok (hv : t.Valid) (h : t.remove owner id = .ok (object, t')) :
    ∃ e, t.Held owner id e ∧ e.object = object ∧ t'.Valid ∧ SameKind t t' ∧ t'.next = t.next
      ∧ t'.find = Function.update t.find id none := by
  unfold remove at h
  obtain ⟨⟨i, e⟩, hindex, h⟩ := except_bind_eq_ok.mp h
  cases h
  obtain ⟨hslot, rfl, -⟩ := index_eq_ok hindex
  exact ⟨e, held_of_index hv hindex, rfl, hv.clear i, ⟨rfl, rfl, rfl⟩, rfl,
    find_cleared hv hslot⟩

/-- An owner's own handle can be removed. -/
theorem Held.remove (hv : t.Valid) (h : t.Held owner id e) :
    ∃ t', t.remove owner id = .ok (e.object, t') := by
  obtain ⟨i, hindex⟩ := h.index hv
  unfold Table.remove
  rw [hindex]
  exact ⟨_, rfl⟩

theorem remove_of_not_held (hv : t.Valid) (h : ∀ e, ¬ t.Held owner id e) :
    t.remove owner id = .error .handle := by
  unfold remove
  rw [index_of_not_held hv h]
  rfl

/-- A transfer takes the owner's handle out and puts a fresh one with fewer rights in. -/
theorem transfer_ok (hv : t.Valid) {target new : UInt64}
    (h : t.transfer owner id target rights = .ok (new, t')) :
    ∃ e t₁, t.Held owner id e ∧ e.rights &&& t.transferRight ≠ 0 ∧ rights ≠ 0
      ∧ rights &&& ~~~ e.rights = 0
      ∧ ¬ (t.Spent ∨ target ≠ owner ∧ perOwner ≤ t.owned target)
      ∧ t₁.find = Function.update t.find id none ∧ t₁.next = t.next ∧ SameKind t t₁
      ∧ Granted t₁ t' { id := new, owner := target, object := e.object, rights := rights } := by
  unfold transfer at h
  obtain ⟨⟨i, e⟩, hindex, h⟩ := except_bind_eq_ok.mp h
  obtain ⟨_, hrights, h⟩ := except_bind_eq_ok.mp h
  obtain ⟨_, hroom, h⟩ := except_bind_eq_ok.mp h
  obtain ⟨next, hnext, hdone⟩ := except_bind_eq_ok.mp h
  rw [reject_eq_ok] at hrights
  push Not at hrights
  obtain ⟨hslot, rfl, howner⟩ := index_eq_ok hindex
  have hcount := (following_eq_ok hnext).1
  have hnew : next - 1 = t.next := by
    apply UInt64.toNat_inj.mp
    rw [UInt64.toNat_sub_of_le _ _ (UInt64.le_iff_toNat_le.mpr (by rw [hcount]; simp)), hcount]
    simp
  cases hdone
  -- the slot is emptied and then taken by the new entry
  have hset : ∀ x, t.entries.setAt i x = (t.cleared i).entries.setAt i x := by
    intro x
    simp [cleared]
  refine ⟨e, t.cleared i, held_of_index hv hindex, hrights.2.1, hrights.2.2.1, hrights.2.2.2,
    ?_, find_cleared hv hslot, rfl, ⟨rfl, rfl, rfl⟩, ?_⟩
  · rintro (hspent | ⟨hne, hfull⟩)
    · exact not_spent_of_following hnext hspent
    · exact reject_eq_ok.mp hroom ⟨hne, by simpa [room] using hfull⟩
  have hvacant : (t.cleared i).entries[i] = none := by simp [cleared]
  rw [hset, hnew]
  exact { valid := (hv.clear i).place hnext rfl i
          kind := ⟨rfl, rfl, rfl⟩
          id := rfl
          next := hcount
          fresh := (hv.clear i).find_next
          find := find_placed (hv.clear i) hnext rfl hvacant }

/-- A transfer is refused when the handle is not the owner's, when it may not be moved with
those rights, or for want of room. -/
theorem transfer_eq_error (hv : t.Valid) {target : UInt64}
    (h : t.transfer owner id target rights = .error error) :
    (error = .handle ∧ ∀ e, ¬ t.Held owner id e)
      ∨ ∃ e, t.Held owner id e
        ∧ ((error = .denied ∧ (t.transferRight = 0 ∨ e.rights &&& t.transferRight = 0 ∨ rights = 0
              ∨ rights &&& ~~~ e.rights ≠ 0))
          ∨ (error = .quota ∧ ¬ (t.transferRight = 0 ∨ e.rights &&& t.transferRight = 0
              ∨ rights = 0 ∨ rights &&& ~~~ e.rights ≠ 0)
            ∧ (t.Spent ∨ target ≠ owner ∧ perOwner ≤ t.owned target))) := by
  by_cases hheld : ∃ e, t.Held owner id e
  · obtain ⟨e, hheld⟩ := hheld
    obtain ⟨i, hindex⟩ := hheld.index hv
    refine Or.inr ⟨e, hheld, ?_⟩
    unfold transfer at h
    rw [hindex, ok_bind] at h
    dsimp only at h
    by_cases hrights : t.transferRight = 0 ∨ e.rights &&& t.transferRight = 0 ∨ rights = 0
        ∨ rights &&& ~~~ e.rights ≠ 0
    · rw [reject_of hrights] at h
      cases h
      exact Or.inl ⟨rfl, hrights⟩
    · rw [reject_of_not hrights, ok_bind] at h
      by_cases hroom : target ≠ owner ∧ ¬ t.room target
      · rw [reject_of hroom] at h
        cases h
        exact Or.inr ⟨rfl, hrights, Or.inr ⟨hroom.1, by simpa [room] using hroom.2⟩⟩
      · rw [reject_of_not hroom, ok_bind] at h
        obtain ⟨rfl, hspent⟩ := spent_of_following h
        exact Or.inr ⟨rfl, hrights, Or.inl hspent⟩
  · have hnone : ∀ e, ¬ t.Held owner id e := fun e he => hheld ⟨e, he⟩
    unfold transfer at h
    rw [index_of_not_held hv hnone] at h
    cases h
    exact Or.inl ⟨rfl, hnone⟩

/-- A grant of rights the table allows is refused for want of room only. -/
theorem grant_eq_error (hrights : ¬ (rights = 0 ∨ rights &&& ~~~ t.allowed ≠ 0))
    (h : t.grant owner object rights = .error error) : error = .quota ∧ t.Full owner := by
  unfold grant at h
  rw [reject_of_not hrights, ok_bind] at h
  by_cases hroom : ¬ t.room owner
  · rw [reject_of hroom] at h
    cases h
    exact ⟨rfl, Or.inl (by simpa [room] using hroom)⟩
  · rw [reject_of_not hroom, ok_bind] at h
    cases hvacant : t.entries.vacant with
    | none =>
      rw [hvacant] at h
      cases h
      exact ⟨rfl, Or.inr (Or.inl (Slots.vacant_eq_none.mp hvacant))⟩
    | some slot =>
      rw [hvacant, orRefuse_some, ok_bind] at h
      obtain ⟨rfl, hspent⟩ := spent_of_following h
      exact ⟨rfl, Or.inr (Or.inr hspent)⟩

/-- Giving a new handle up again leaves the slots as they were. -/
theorem grant_remove_entries (hv : t.Valid) {t'' : Table T capacity perOwner} {object' : T}
    (hgrant : t.grant owner object rights = .ok (id, t'))
    (hremove : t'.remove owner id = .ok (object', t'')) : t''.entries = t.entries := by
  have hvalid := (grant_ok hv hgrant).1.valid
  unfold grant at hgrant
  obtain ⟨_, -, hgrant⟩ := except_bind_eq_ok.mp hgrant
  obtain ⟨_, -, hgrant⟩ := except_bind_eq_ok.mp hgrant
  obtain ⟨slot, hslot, hgrant⟩ := except_bind_eq_ok.mp hgrant
  obtain ⟨next, -, hgrant⟩ := except_bind_eq_ok.mp hgrant
  cases hgrant
  have hvacant := Slots.vacant_eq_some (orRefuse_eq_ok.mp hslot)
  unfold remove at hremove
  obtain ⟨⟨i, e⟩, hindex, hremove⟩ := except_bind_eq_ok.mp hremove
  cases hremove
  obtain ⟨hi, hid, -⟩ := index_eq_ok hindex
  -- the only slot with the new identifier is the one it was put in
  have hsame : i = slot :=
    hvalid.unique i slot e _ hi (Vector.setAt_self t.entries slot _) hid
  subst hsame
  have hset : t.entries.setAt i none = t.entries := by
    rw [← hvacant]
    exact Vector.setAt_getElem t.entries i
  simpa using hset

theorem first_eq_some (hv : t.Valid) (h : t.first owner = some id) : ∃ e, t.Held owner id e := by
  unfold first at h
  rw [Option.map_eq_some_iff] at h
  obtain ⟨⟨i, e⟩, hfound, hid⟩ := h
  obtain ⟨hslot, howner⟩ := Slots.position_eq_some hfound
  exact ⟨e, (find_eq_some hv).mpr ⟨i, hslot, hid⟩, by simpa using howner⟩

theorem first_eq_none (hv : t.Valid) (h : t.first owner = none) (e : Entry T) :
    ¬ t.Held owner id e := by
  unfold first at h
  rw [Option.map_eq_none_iff] at h
  rintro ⟨hfind, howner⟩
  obtain ⟨i, hslot, -⟩ := (find_eq_some hv).mp hfind
  have hnot := Slots.position_eq_none.mp h i e hslot
  simp [howner] at hnot

/-- A removal lowers the number of the owner's handles. -/
theorem remove_occupied (h : t.remove owner id = .ok (object, t')) :
    t'.owned owner + 1 = t.owned owner := by
  unfold remove at h
  obtain ⟨⟨i, e⟩, hindex, h⟩ := except_bind_eq_ok.mp h
  cases h
  obtain ⟨hslot, -, howner⟩ := index_eq_ok hindex
  exact Slots.occupied_clear hslot (by simpa using howner)

end

end RusticOs.Kernel.Table
