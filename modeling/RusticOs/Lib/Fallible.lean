import Mathlib.Tactic

/-!
# `RusticOs.Lib.Fallible`: refusals that keep the state they reached

`Fallible ε σ α` is a computation over a mutable state `σ` that returns a value or refuses
with an `ε`. An early return does not roll back: the state of a refusal is the state
reached when it happened. The laws below are the ones a proof about such code uses: what a
bind does on each outcome, and the monad laws that make `List.mapM` unfold.
-/

set_option autoImplicit false

namespace RusticOs.Lib

/-- A computation over a state that may refuse and keeps the state either way. -/
structure Fallible (ε σ α : Type) where
  run : σ → Except ε α × σ

namespace Fallible

variable {ε ε' σ τ α β : Type}

/-- Run a computation and continue with its value, or stop at its refusal. -/
protected def bind (x : Fallible ε σ α) (f : α → Fallible ε σ β) : Fallible ε σ β :=
  ⟨fun s =>
    match x.run s with
    | (.ok a, s') => (f a).run s'
    | (.error e, s') => (.error e, s')⟩

instance : Monad (Fallible ε σ) where
  pure a := ⟨fun s => (.ok a, s)⟩
  bind := Fallible.bind

/-- Refuse with `e`. -/
def fail (e : ε) : Fallible ε σ α := ⟨fun s => (.error e, s)⟩

/-- Use a result that does not touch the state. -/
def lift (x : Except ε α) : Fallible ε σ α := ⟨fun s => (x, s)⟩

/-- Refuse with `e` when `c` holds. -/
def refuse (c : Prop) [Decidable c] (e : ε) : Fallible ε σ Unit :=
  if c then fail e else pure ()

/-- Read the state. -/
def get : Fallible ε σ σ := ⟨fun s => (.ok s, s)⟩

/-- Change the state. -/
def change (f : σ → σ) : Fallible ε σ Unit := ⟨fun s => (.ok (), f s)⟩

/-- Replace the reason of a refusal. -/
def mapError (f : ε → ε') (x : Fallible ε σ α) : Fallible ε' σ α :=
  ⟨fun s =>
    match x.run s with
    | (.ok a, s') => (.ok a, s')
    | (.error e, s') => (.error (f e), s')⟩

/-- Run a computation and hand its outcome on as a value. -/
def attempt (x : Fallible ε σ α) : Fallible ε' σ (Except ε α) :=
  ⟨fun s => (.ok (x.run s).1, (x.run s).2)⟩

/-- Run a computation on a part of a larger state. -/
def on (view : τ → σ) (store : τ → σ → τ) (x : Fallible ε σ α) : Fallible ε τ α :=
  ⟨fun t => ((x.run (view t)).1, store t (x.run (view t)).2)⟩

theorem run_bind (x : Fallible ε σ α) (f : α → Fallible ε σ β) (s : σ) :
    (x >>= f).run s = match x.run s with
      | (.ok a, s') => (f a).run s'
      | (.error e, s') => (.error e, s') := rfl

@[simp] theorem run_pure (a : α) (s : σ) : (pure a : Fallible ε σ α).run s = (.ok a, s) := rfl

@[simp] theorem run_fail (e : ε) (s : σ) :
    (fail e : Fallible ε σ α).run s = (.error e, s) := rfl

@[simp] theorem run_lift (x : Except ε α) (s : σ) :
    (lift x : Fallible ε σ α).run s = (x, s) := rfl

@[simp] theorem run_get (s : σ) : (get : Fallible ε σ σ).run s = (.ok s, s) := rfl

theorem run_get_bind (f : σ → Fallible ε σ β) (s : σ) : (get >>= f).run s = (f s).run s := rfl

@[simp] theorem run_change (f : σ → σ) (s : σ) :
    (change f : Fallible ε σ Unit).run s = (.ok (), f s) := rfl

@[simp] theorem run_on (view : τ → σ) (store : τ → σ → τ) (x : Fallible ε σ α) (t : τ) :
    (on view store x).run t = ((x.run (view t)).1, store t (x.run (view t)).2) := rfl

@[simp] theorem run_attempt (x : Fallible ε σ α) (s : σ) :
    (attempt x : Fallible ε' σ (Except ε α)).run s = (.ok (x.run s).1, (x.run s).2) := rfl

theorem run_mapError (f : ε → ε') (x : Fallible ε σ α) (s : σ) :
    (x.mapError f).run s = match x.run s with
      | (.ok a, s') => (.ok a, s')
      | (.error e, s') => (.error (f e), s') := rfl

theorem run_refuse (c : Prop) [Decidable c] (e : ε) (s : σ) :
    (refuse c e : Fallible ε σ Unit).run s = if c then (.error e, s) else (.ok (), s) := by
  unfold refuse
  split <;> rfl

variable {x : Fallible ε σ α} {s : σ} {e : ε} {f : α → Fallible ε σ β} {t : σ} {b : β} {c : Prop}

theorem run_bind_of_ok {s' : σ} {a : α} (h : x.run s = (.ok a, s')) (f : α → Fallible ε σ β) :
    (x >>= f).run s = (f a).run s' := by
  rw [run_bind, h]

theorem run_bind_of_error {s' : σ} (h : x.run s = (.error e, s')) (f : α → Fallible ε σ β) :
    (x >>= f).run s = (.error e, s') := by
  rw [run_bind, h]

/-- A sequence returns exactly when its first part does and the rest does from there. -/
theorem run_bind_eq_ok :
    (x >>= f).run s = (.ok b, t) ↔ ∃ a s', x.run s = (.ok a, s') ∧ (f a).run s' = (.ok b, t) := by
  rw [run_bind]
  rcases x.run s with ⟨r, s'⟩
  cases r with
  | ok a => simp
  | error e => simp

/-- Two sequences give the same result when their first parts do and their rests do from
there. -/
theorem bind_fst_congr {y : Fallible ε τ α} {g : α → Fallible ε τ β} {t : τ}
    (h : (x.run s).1 = (y.run t).1)
    (hf : ∀ a, (x.run s).1 = .ok a → ((f a).run (x.run s).2).1 = ((g a).run (y.run t).2).1) :
    ((x >>= f).run s).1 = ((y >>= g).run t).1 := by
  rw [run_bind, run_bind]
  rcases hx : x.run s with ⟨r, s'⟩
  rcases hy : y.run t with ⟨r', t'⟩
  rw [hx, hy] at h hf
  cases h
  cases r with
  | error e => rfl
  | ok a => exact hf a rfl

@[simp] theorem lift_ok_bind (a : α) (f : α → Fallible ε σ β) :
    (lift (.ok a) >>= f) = f a := rfl

@[simp] theorem lift_error_bind (e : ε) (f : α → Fallible ε σ β) :
    (lift (.error e) >>= f) = fail e := rfl

theorem refuse_bind_of_not [Decidable c] (h : ¬ c) (e : ε) (f : Unit → Fallible ε σ β) :
    (refuse c e >>= f) = f () := by
  rw [refuse, if_neg h]
  rfl

theorem refuse_bind_of [Decidable c] (h : c) (e : ε) (f : Unit → Fallible ε σ β) :
    (refuse c e >>= f) = fail e := by
  rw [refuse, if_pos h]
  rfl

/-- A step that is known to pass. -/
theorem run_lift_bind_of_ok {x : Except ε α} {a : α} (h : x = .ok a) (f : α → Fallible ε σ β)
    (s : σ) : (lift x >>= f).run s = (f a).run s := by
  rw [h]
  rfl

/-- A step that is known to refuse. -/
theorem run_lift_bind_of_error {x : Except ε α} (h : x = .error e) (f : α → Fallible ε σ β)
    (s : σ) : (lift x >>= f).run s = (.error e, s) := by
  rw [h]
  rfl

theorem run_refuse_bind_of_not [Decidable c] (h : ¬ c) (e : ε) (f : Unit → Fallible ε σ β) (s : σ) :
    (refuse c e >>= f).run s = (f ()).run s := by
  rw [refuse_bind_of_not h]

theorem run_refuse_bind_of [Decidable c] (h : c) (e : ε) (f : Unit → Fallible ε σ β) (s : σ) :
    (refuse c e >>= f).run s = (.error e, s) := by
  rw [refuse_bind_of h]
  rfl

theorem run_lift_bind_eq_ok {x : Except ε α} :
    (lift x >>= f).run s = (.ok b, t) ↔ ∃ a, x = .ok a ∧ (f a).run s = (.ok b, t) := by
  cases x <;> simp

theorem run_refuse_bind_eq_ok [Decidable c] {f : Unit → Fallible ε σ β} :
    (refuse c e >>= f).run s = (.ok b, t) ↔ ¬ c ∧ (f ()).run s = (.ok b, t) := by
  by_cases h : c
  · rw [refuse_bind_of h]
    simp [h]
  · rw [refuse_bind_of_not h]
    simp [h]

theorem bind_pure_id (x : Fallible ε σ α) : (x >>= fun a => pure a) = x := by
  rcases x with ⟨run⟩
  show Fallible.mk _ = Fallible.mk run
  congr 1
  funext s
  dsimp only
  rcases run s with ⟨r, s'⟩
  cases r <;> rfl

theorem bind_assoc {γ : Type} (x : Fallible ε σ α) (f : α → Fallible ε σ β)
    (g : β → Fallible ε σ γ) : x >>= f >>= g = x >>= fun a => f a >>= g := by
  show Fallible.mk _ = Fallible.mk _
  congr 1
  funext s
  simp only [run_bind]
  rcases x.run s with ⟨r, s'⟩
  cases r <;> rfl

instance : LawfulMonad (Fallible ε σ) :=
  LawfulMonad.mk' _ (fun x => bind_pure_id x) (fun _ _ => rfl) (fun x f g => bind_assoc x f g)

/-! ### Where a computation leads -/

/-- What a computation comes to from a state. -/
def Leads (x : Fallible ε σ α) (s : σ) (Q : Except ε α → σ → Prop) : Prop :=
  Q (x.run s).1 (x.run s).2

section
variable {Q : Except ε β → σ → Prop}

theorem Leads.bind_error (h : x.run s = (.error e, t)) (hQ : Q (.error e) t) :
    Leads (x >>= f) s Q := by
  unfold Leads
  rw [run_bind_of_error h]
  exact hQ

theorem Leads.bind {a : α} (h : x.run s = (.ok a, t)) (hf : Leads (f a) t Q) :
    Leads (x >>= f) s Q := by
  unfold Leads
  rw [run_bind_of_ok h]
  exact hf

theorem Leads.pure {b : β} (h : Q (.ok b) s) : Leads (pure b) s Q := h

theorem Leads.get_bind {f : σ → Fallible ε σ β} (h : Leads (f s) s Q) : Leads (get >>= f) s Q := h

theorem Leads.refuse_bind [Decidable c] {f : Unit → Fallible ε σ β} (hc : c → Q (.error e) s)
    (hf : ¬ c → Leads (f ()) s Q) : Leads (refuse c e >>= f) s Q := by
  by_cases h : c
  · rw [refuse_bind_of h]
    exact hc h
  · rw [refuse_bind_of_not h]
    exact hf h

end

/-! ### Reasons of refusals -/

/-- Every refusal of a computation has a reason in `P`. -/
def Errs (P : ε → Prop) (x : Fallible ε σ α) : Prop := ∀ s e, (x.run s).1 = .error e → P e

section
variable {P : ε → Prop}

theorem Errs.pure (a : α) : Errs P (pure a : Fallible ε σ α) := nofun

theorem Errs.lift {r : Except ε α} (h : ∀ e, r = .error e → P e) :
    Errs P (lift r : Fallible ε σ α) := fun _ e he => h e he

theorem Errs.bind {x : Fallible ε σ α} {f : α → Fallible ε σ β} (hx : Errs P x)
    (hf : ∀ a, Errs P (f a)) : Errs P (x >>= f) := by
  intro s e he
  rw [run_bind] at he
  rcases hr : x.run s with ⟨r, s'⟩
  rw [hr] at he
  cases r with
  | ok a => exact hf a s' e he
  | error e' =>
    cases he
    exact hx s _ (by rw [hr])

theorem Errs.mapError {x : Fallible ε' σ α} {f : ε' → ε} (h : ∀ e, P (f e)) :
    Errs P (x.mapError f) := by
  intro s e he
  rw [run_mapError] at he
  rcases hr : x.run s with ⟨r, s'⟩
  rw [hr] at he
  cases r with
  | ok a => cases he
  | error e' =>
    cases he
    exact h e'

theorem Errs.mapM {f : α → Fallible ε σ β} {l : List α} (h : ∀ a ∈ l, Errs P (f a)) :
    Errs P (l.mapM f) := by
  induction l with
  | nil =>
    rw [List.mapM_nil]
    exact Errs.pure _
  | cons a l ih =>
    rw [List.mapM_cons]
    refine (h a List.mem_cons_self).bind fun b => ?_
    exact (ih fun a ha => h a (List.mem_cons_of_mem _ ha)).bind fun bs => Errs.pure _

end

/-! ### What a computation does to its state -/

/-- Every run moves the state along `R`, whether it returns or refuses. -/
def Keeps (R : σ → σ → Prop) (x : Fallible ε σ α) : Prop := ∀ s, R s (x.run s).2

section
variable {R : σ → σ → Prop}

theorem Keeps.pure (hrefl : ∀ s, R s s) (a : α) : Keeps R (pure a : Fallible ε σ α) :=
  fun s => hrefl s

theorem Keeps.fail (hrefl : ∀ s, R s s) (e : ε) : Keeps R (fail e : Fallible ε σ α) :=
  fun s => hrefl s

theorem Keeps.bind (htrans : ∀ a b c, R a b → R b c → R a c) {x : Fallible ε σ α}
    {f : α → Fallible ε σ β} (hx : Keeps R x) (hf : ∀ a, Keeps R (f a)) : Keeps R (x >>= f) := by
  intro s
  rw [run_bind]
  have hfirst := hx s
  rcases hr : x.run s with ⟨r, s'⟩
  rw [hr] at hfirst
  cases r with
  | ok a => exact htrans _ _ _ hfirst (hf a s')
  | error e => exact hfirst

theorem Keeps.lift_bind (hrefl : ∀ s, R s s) {r : Except ε α} {f : α → Fallible ε σ β}
    (hf : ∀ a, r = .ok a → Keeps R (f a)) : Keeps R (lift r >>= f) := by
  cases r with
  | error e => exact Keeps.fail hrefl e
  | ok a => exact hf a rfl

theorem Keeps.refuse_bind (hrefl : ∀ s, R s s) {c : Prop} [Decidable c] {e : ε}
    {f : Unit → Fallible ε σ β} (hf : ¬ c → Keeps R (f ())) : Keeps R (refuse c e >>= f) := by
  by_cases hc : c
  · rw [refuse_bind_of hc]
    exact Keeps.fail hrefl e
  · rw [refuse_bind_of_not hc]
    exact hf hc

theorem Keeps.attempt {x : Fallible ε σ α} (h : Keeps R x) :
    Keeps R (x.attempt : Fallible ε' σ (Except ε α)) := h

theorem Keeps.mapError {f : ε → ε'} {x : Fallible ε σ α} (h : Keeps R x) :
    Keeps R (x.mapError f) := by
  intro s
  rw [run_mapError]
  have hx := h s
  rcases hr : x.run s with ⟨r, s'⟩
  rw [hr] at hx
  cases r <;> exact hx

/-- A loop of steps. -/
theorem Keeps.foldlM (hrefl : ∀ s, R s s) (htrans : ∀ a b c, R a b → R b c → R a c)
    {f : β → α → Fallible ε σ β} (h : ∀ b a, Keeps R (f b a)) (l : List α) (b : β) :
    Keeps R (l.foldlM f b) := by
  induction l generalizing b with
  | nil => exact Keeps.pure hrefl b
  | cons a l ih =>
    rw [List.foldlM_cons]
    exact (h b a).bind htrans ih

end

/-! ### Computations that do not see a change of their state -/

/-- A run from the changed state answers the same and ends in the changed state. -/
def Commutes (g : σ → σ) (x : Fallible ε σ α) : Prop :=
  ∀ s, x.run (g s) = ((x.run s).1, g (x.run s).2)

section
variable {g : σ → σ}

theorem Commutes.pure (a : α) : Commutes g (pure a : Fallible ε σ α) := fun _ => rfl

theorem Commutes.fail (e : ε) : Commutes g (fail e : Fallible ε σ α) := fun _ => rfl

theorem Commutes.lift (r : Except ε α) : Commutes g (lift r : Fallible ε σ α) := fun _ => rfl

theorem Commutes.change {f : σ → σ} (h : ∀ s, f (g s) = g (f s)) :
    Commutes g (change f : Fallible ε σ Unit) := fun s => by
  rw [run_change, run_change, h]

theorem Commutes.bind {x : Fallible ε σ α} {f : α → Fallible ε σ β} (hx : Commutes g x)
    (hf : ∀ a, Commutes g (f a)) : Commutes g (x >>= f) := by
  intro s
  rw [run_bind, run_bind, hx s]
  rcases x.run s with ⟨r, s'⟩
  cases r with
  | ok a => exact hf a s'
  | error e => rfl

theorem Commutes.lift_bind {r : Except ε α} {f : α → Fallible ε σ β}
    (hf : ∀ a, Commutes g (f a)) : Commutes g (Fallible.lift r >>= f) :=
  (Commutes.lift r).bind hf

theorem Commutes.refuse_bind {c : Prop} [Decidable c] {e : ε} {f : Unit → Fallible ε σ β}
    (hf : Commutes g (f ())) : Commutes g (refuse c e >>= f) := by
  by_cases hc : c
  · rw [refuse_bind_of hc]
    exact Commutes.fail e
  · rw [refuse_bind_of_not hc]
    exact hf

theorem Commutes.attempt {x : Fallible ε σ α} (h : Commutes g x) :
    Commutes g (x.attempt : Fallible ε' σ (Except ε α)) := by
  intro s
  rw [run_attempt, run_attempt, h s]

theorem Commutes.mapError {f : ε → ε'} {x : Fallible ε σ α} (h : Commutes g x) :
    Commutes g (x.mapError f) := by
  intro s
  rw [run_mapError, run_mapError, h s]
  rcases x.run s with ⟨r, s'⟩
  cases r <;> rfl

/-- A computation on a part of the state that the change keeps. -/
theorem Commutes.on {view : σ → τ} {store : σ → τ → σ} (hview : ∀ s, view (g s) = view s)
    (hstore : ∀ s t, store (g s) t = g (store s t)) (x : Fallible ε τ α) :
    Commutes g (x.on view store) := by
  intro s
  rw [run_on, run_on, hview, hstore]

end

end Fallible

/-! ### Checks that only accept or refuse -/

section
variable {ε α β : Type}

/-- Refuse with `e` when `c` holds, with no state. -/
def reject (c : Prop) [Decidable c] (e : ε) : Except ε Unit :=
  if c then .error e else .ok ()

variable {c : Prop} {f : α → Except ε β} {l : List α}

theorem reject_eq_ok [Decidable c] {e : ε} {u : Unit} : reject c e = .ok u ↔ ¬ c := by
  unfold reject
  split <;> simp_all

theorem reject_of [Decidable c] (h : c) (e : ε) : reject c e = .error e := if_pos h

theorem reject_of_not [Decidable c] (h : ¬ c) (e : ε) : reject c e = .ok () := if_neg h

@[simp] theorem ok_bind (a : α) (f : α → Except ε β) : (Except.ok a >>= f) = f a := rfl

@[simp] theorem error_bind (e : ε) (f : α → Except ε β) :
    ((Except.error e : Except ε α) >>= f) = .error e := rfl

theorem Fallible.refuse_eq_lift {σ : Type} (c : Prop) [Decidable c] (e : ε) :
    (Fallible.refuse c e : Fallible ε σ Unit) = Fallible.lift (reject c e) := by
  unfold Fallible.refuse reject
  split <;> rfl

/-- The value of an optional result, or a refusal. -/
def orRefuse (e : ε) : Option α → Except ε α
  | some a => .ok a
  | none => .error e

@[simp] theorem orRefuse_some (e : ε) (a : α) : orRefuse e (some a) = .ok a := rfl

@[simp] theorem orRefuse_none (e : ε) : orRefuse e (none : Option α) = .error e := rfl

theorem orRefuse_eq_ok {e : ε} {x : Option α} {a : α} :
    orRefuse e x = .ok a ↔ x = some a := by
  cases x <;> simp [orRefuse]

/-- A sequence of steps succeeds exactly when the first does and the rest does on its
value. -/
theorem orRefuse_eq_error {e e' : ε} {x : Option α} :
    orRefuse e x = .error e' ↔ x = none ∧ e = e' := by
  cases x <;> simp [orRefuse]

theorem except_bind_eq_ok {x : Except ε α} {b : β} :
    (x >>= f) = .ok b ↔ ∃ a, x = .ok a ∧ f a = .ok b := by
  cases x with
  | error e | ok a => simp [bind, Except.bind]

/-- Run a check at every element of a list, in order. -/
def checkAll (f : α → Except ε Unit) : List α → Except ε Unit
  | [] => .ok ()
  | a :: l => do
    f a
    checkAll f l

/-- A check over a list passes exactly when it passes at every element. -/
theorem checkAll_eq_ok {f : α → Except ε Unit} {u : Unit} :
    checkAll f l = .ok u ↔ ∀ a ∈ l, f a = .ok () := by
  induction l with
  | nil => simp [checkAll]
  | cons a l ih =>
    rw [checkAll, except_bind_eq_ok, List.forall_mem_cons, ← ih]
    constructor
    · rintro ⟨⟨⟩, ha, hl⟩
      exact ⟨ha, hl⟩
    · rintro ⟨ha, hl⟩
      exact ⟨(), ha, hl⟩

/-- A map over a list succeeds with `ys` exactly when each element maps to its partner. -/
theorem except_mapM_eq_ok {ys : List β} :
    l.mapM f = .ok ys ↔ List.Forall₂ (fun a b => f a = .ok b) l ys := by
  induction l generalizing ys with
  | nil =>
    rw [List.mapM_nil, List.forall₂_nil_left_iff]
    constructor
    · intro h
      cases h
      rfl
    · rintro rfl
      rfl
  | cons a l ih =>
    rw [List.mapM_cons, except_bind_eq_ok, List.forall₂_cons_left_iff]
    constructor
    · rintro ⟨b, hb, h⟩
      obtain ⟨bs, hbs, h⟩ := except_bind_eq_ok.mp h
      cases h
      exact ⟨b, bs, hb, ih.mp hbs, rfl⟩
    · rintro ⟨b, bs, hb, hbs, rfl⟩
      exact ⟨b, hb, except_bind_eq_ok.mpr ⟨bs, ih.mpr hbs, rfl⟩⟩

theorem mapM_congr {g : α → Except ε β} (h : ∀ a ∈ l, f a = g a) : l.mapM f = l.mapM g := by
  induction l with
  | nil => rfl
  | cons a l ih =>
    rw [List.mapM_cons, List.mapM_cons, h a List.mem_cons_self,
      ih fun b hb => h b (List.mem_cons_of_mem _ hb)]

/-- A map whose results are known in advance. -/
theorem mapM_eq_ok_map {g : α → β} (h : ∀ a ∈ l, f a = .ok (g a)) : l.mapM f = .ok (l.map g) := by
  rw [except_mapM_eq_ok, List.forall₂_map_right_iff, List.forall₂_same]
  exact h

/-- A list of checks passes exactly when each of them does. -/
theorem mapM_unit_eq_ok {f : α → Except ε Unit} :
    (∃ us, l.mapM f = .ok us) ↔ ∀ a ∈ l, f a = .ok () := by
  constructor
  · rintro ⟨us, h⟩
    rw [except_mapM_eq_ok] at h
    induction h with
    | nil => simp
    | cons hab _ ih => exact List.forall_mem_cons.mpr ⟨hab, ih⟩
  · intro h
    exact ⟨_, mapM_eq_ok_map h⟩

/-- Every step of a loop that succeeds has succeeded. -/
theorem foldlM_step_ok {f : β → α → Except ε β} {b c : β} (h : l.foldlM f b = .ok c) {a : α}
    (ha : a ∈ l) : ∃ x y, f x a = .ok y := by
  induction l generalizing b with
  | nil => cases ha
  | cons a' l ih =>
    rw [List.foldlM_cons] at h
    obtain ⟨y, hy, h⟩ := except_bind_eq_ok.mp h
    rcases List.mem_cons.mp ha with rfl | ha
    · exact ⟨b, y, hy⟩
    · exact ih h ha

/-- A loop over the indices below `n` whose states are known in advance. -/
theorem foldlM_finRange {n : Nat} {f : β → Fin n → Except ε β} {b : Nat → β}
    (h : ∀ i : Fin n, f (b i.val) i = .ok (b (i.val + 1))) :
    (List.finRange n).foldlM f (b 0) = .ok (b n) := by
  have hpre : ∀ k ≤ n, ((List.finRange n).take k).foldlM f (b 0) = .ok (b k) := by
    intro k
    induction k with
    | zero => exact fun _ => rfl
    | succ k ih =>
      intro hk
      have hget : (List.finRange n)[k]? = some ⟨k, hk⟩ := by
        rw [List.getElem?_eq_getElem (by rw [List.length_finRange]; exact hk)]
        simp
      rw [List.take_add_one, hget, List.foldlM_append, ih (by omega)]
      show [(⟨k, hk⟩ : Fin n)].foldlM f (b k) = _
      rw [List.foldlM_cons, h ⟨k, hk⟩]
      rfl
  have hall := hpre n (le_refl n)
  rwa [List.take_of_length_le (by rw [List.length_finRange])] at hall

end

end RusticOs.Lib
