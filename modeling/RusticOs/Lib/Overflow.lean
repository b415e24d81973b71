import RusticOs.Lib.Halt

/-!
# `RusticOs.Lib.Overflow`: arithmetic of a debug and of a release build

An addition or a subtraction that leaves the 64-bit words panics in a debug build and wraps
around in a release build. A computation that returns in a debug build has not overflowed, and
then the release build does the same (`Faithful`).
-/

set_option autoImplicit false

namespace RusticOs.Lib

/-- How a program is built. -/
inductive Build where
  | debug
  | release
  deriving DecidableEq

namespace Build

variable {ε : Type} {b : Build} {x y : UInt64}

/-- What an operation that overflowed to `wrapped` does. -/
def overflow : Build → UInt64 → Except (Halt ε) UInt64
  | .debug, _ => .error .panicked
  | .release, wrapped => .ok wrapped

def add (b : Build) (x y : UInt64) : Except (Halt ε) UInt64 :=
  if x.toNat + y.toNat < 2 ^ 64 then .ok (x + y) else b.overflow (x + y)

def sub (b : Build) (x y : UInt64) : Except (Halt ε) UInt64 :=
  if y ≤ x then .ok (x - y) else b.overflow (x - y)

theorem add_ok (h : x.toNat + y.toNat < 2 ^ 64) :
    (b.add x y : Except (Halt ε) UInt64) = .ok (x + y) := if_pos h

theorem add_panics (h : ¬ x.toNat + y.toNat < 2 ^ 64) :
    (Build.debug.add x y : Except (Halt ε) UInt64) = .error .panicked := if_neg h

theorem sub_ok (h : y.toNat ≤ x.toNat) : (b.sub x y : Except (Halt ε) UInt64) = .ok (x - y) :=
  if_pos (UInt64.le_iff_toNat_le.mpr h)

end Build

/-! ### The two builds of one computation -/

section
variable {ε σ α β : Type}

/-- The release build `y` does what the debug build `x` does, unless that one panics. -/
def Faithful (x y : Except (Halt ε) α) : Prop := x = .error .panicked ∨ y = x

theorem Faithful.refl (x : Except (Halt ε) α) : Faithful x x := Or.inr rfl

theorem Faithful.bind {x y : Except (Halt ε) α} {f g : α → Except (Halt ε) β} (h : Faithful x y)
    (hf : ∀ a, Faithful (f a) (g a)) : Faithful (x >>= f) (y >>= g) := by
  rcases h with rfl | rfl
  · exact Or.inl rfl
  · cases y with
    | error e => exact Or.inr rfl
    | ok a => exact hf a

theorem faithful_add (x y : UInt64) :
    Faithful (Build.debug.add x y : Except (Halt ε) UInt64) (Build.release.add x y) := by
  unfold Build.add
  split
  · exact Faithful.refl _
  · exact Or.inl rfl

theorem faithful_sub (x y : UInt64) :
    Faithful (Build.debug.sub x y : Except (Halt ε) UInt64) (Build.release.sub x y) := by
  unfold Build.sub
  split
  · exact Faithful.refl _
  · exact Or.inl rfl

/-- The same of computations over a state. -/
def FaithfulRun (x y : Fallible (Halt ε) σ α) : Prop :=
  ∀ s, (x.run s).1 = .error .panicked ∨ y.run s = x.run s

theorem FaithfulRun.refl (x : Fallible (Halt ε) σ α) : FaithfulRun x x := fun _ => Or.inr rfl

theorem FaithfulRun.lift {x y : Except (Halt ε) α} (h : Faithful x y) :
    FaithfulRun (Fallible.lift x : Fallible (Halt ε) σ α) (Fallible.lift y) := by
  intro s
  rcases h with rfl | rfl
  · exact Or.inl rfl
  · exact Or.inr rfl

theorem FaithfulRun.bind {x y : Fallible (Halt ε) σ α} {f g : α → Fallible (Halt ε) σ β}
    (h : FaithfulRun x y) (hf : ∀ a, FaithfulRun (f a) (g a)) :
    FaithfulRun (x >>= f) (y >>= g) := by
  intro s
  rw [Fallible.run_bind, Fallible.run_bind]
  rcases h s with hx | hx
  · left
    rcases hrun : x.run s with ⟨r, s'⟩
    rw [hrun] at hx
    cases hx
    rfl
  · rw [hx]
    rcases x.run s with ⟨r, s'⟩
    cases r with
    | error e => exact Or.inr rfl
    | ok a => exact hf a s'

theorem FaithfulRun.next {x : Fallible (Halt ε) σ α} {f g : α → Fallible (Halt ε) σ β}
    (hf : ∀ a, FaithfulRun (f a) (g a)) : FaithfulRun (x >>= f) (x >>= g) :=
  (FaithfulRun.refl x).bind hf

theorem FaithfulRun.add {x y : UInt64} {f g : UInt64 → Fallible (Halt ε) σ β}
    (hf : ∀ a, FaithfulRun (f a) (g a)) :
    FaithfulRun (Fallible.lift (Build.debug.add x y) >>= f)
      (Fallible.lift (Build.release.add x y) >>= g) :=
  (FaithfulRun.lift (faithful_add x y)).bind hf

theorem FaithfulRun.sub {x y : UInt64} {f g : UInt64 → Fallible (Halt ε) σ β}
    (hf : ∀ a, FaithfulRun (f a) (g a)) :
    FaithfulRun (Fallible.lift (Build.debug.sub x y) >>= f)
      (Fallible.lift (Build.release.sub x y) >>= g) :=
  (FaithfulRun.lift (faithful_sub x y)).bind hf

end

end RusticOs.Lib
