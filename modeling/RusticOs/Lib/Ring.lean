import RusticOs.Lib.Cells

/-!
# `RusticOs.Lib.Ring`: a ring of slots that holds a queue

`RingHolds slots head len l` says that the slots of a ring, read from `head` on, hold exactly
the queue `l`, oldest first, and are empty after it. Pushing at the end and popping at the head
are what they are on lists, and `ringContents` reads the queue off the slots.
-/

set_option autoImplicit false

namespace RusticOs.Lib

variable {α : Type} {n : Nat}

/-- The slots from `head` on hold `l` and nothing else. -/
structure RingHolds (slots : Vector (Option α) n) (head : Fin n) (len : Nat) (l : List α) :
    Prop where
  length : l.length = len
  room : len ≤ n
  slot : ∀ (i : Nat) (p : Fin n), i < n → p.val = (head.val + i) % n → slots[p] = l[i]?

theorem ringHolds_empty (head : Fin n) :
    RingHolds (Vector.replicate n (none : Option α)) head 0 [] :=
  ⟨rfl, Nat.zero_le n, fun i p _ _ => by simp⟩

/-- Positions of a ring are apart while they are less than a turn apart. -/
theorem ring_position_inj {head i j : Nat} (hi : i < n) (hj : j < n)
    (h : (head + i) % n = (head + j) % n) : i = j := by
  have hcancel : i ≡ j [MOD n] := Nat.ModEq.add_left_cancel' head h
  rw [Nat.ModEq, Nat.mod_eq_of_lt hi, Nat.mod_eq_of_lt hj] at hcancel
  exact hcancel

section
variable {slots : Vector (Option α) n} {head p : Fin n} {len : Nat} {l : List α}

variable (h : RingHolds slots head len l)
include h

/-- The oldest element is at the head. -/
theorem RingHolds.peek : slots[head] = l.head? := by
  have hhead : head.val = (head.val + 0) % n := by
    rw [Nat.add_zero, Nat.mod_eq_of_lt head.isLt]
  rw [h.slot 0 head (Nat.zero_lt_of_lt head.isLt) hhead, List.head?_eq_getElem?]

/-- A new element goes behind the others. -/
theorem RingHolds.push (hroom : len < n) (hp : p.val = (head.val + len) % n) (a : α) :
    RingHolds (slots.setAt p (some a)) head (len + 1) (l ++ [a]) where
  length := by simp [h.length]
  room := hroom
  slot := by
    intro i q hi hq
    have hlength := h.length
    by_cases hlen : i = len
    · have hpq : p = q := Fin.ext (by rw [hp, hq, hlen])
      subst hpq
      rw [Vector.getElem_val, Vector.getElem_set_self, hlen, ← hlength]
      simp
    · have hne : p.val ≠ q.val := by
        rw [hp, hq]
        exact fun he => hlen (ring_position_inj hroom hi he).symm
      rw [Vector.getElem_val, Vector.getElem_set_ne _ _ hne, ← Vector.getElem_val, h.slot i q hi hq,
        List.getElem?_append]
      split
      · rfl
      · rw [List.getElem?_eq_none (by omega), List.getElem?_eq_none (by simp; omega)]

/-- The oldest element leaves. -/
theorem RingHolds.pop (hlen : 0 < len) (hp : p.val = (head.val + 1) % n) :
    RingHolds (slots.setAt head none) p (len - 1) l.tail where
  length := by simp [h.length]
  room := by
    have := h.room
    omega
  slot := by
    intro i q hi hq
    have hlength := h.length
    have hroom := h.room
    have hposition : q.val = (head.val + (i + 1)) % n := by
      rw [hq, hp, Nat.mod_add_mod, Nat.add_right_comm, Nat.add_assoc]
    by_cases hlast : i + 1 = n
    · -- once around the ring: the slot that was emptied
      have hhead : head = q := by
        apply Fin.ext
        rw [hposition, hlast, Nat.add_mod_right, Nat.mod_eq_of_lt head.isLt]
      subst hhead
      rw [Vector.getElem_val, Vector.getElem_set_self, List.getElem?_eq_none]
      simp
      omega
    · have hne : head.val ≠ q.val := by
        intro he
        have hzero : (head.val + 0) % n = (head.val + (i + 1)) % n := by
          rw [← hposition, ← he, Nat.add_zero, Nat.mod_eq_of_lt head.isLt]
        exact nomatch ring_position_inj (by omega) (by omega) hzero
      rw [Vector.getElem_val, Vector.getElem_set_ne _ _ hne, ← Vector.getElem_val,
        h.slot (i + 1) q (by omega) hposition, List.getElem?_tail]

end

/-- The queue a ring holds. -/
def ringContents (slots : Vector (Option α) n) (head : Fin n) (len : Nat) : List α :=
  (List.range len).filterMap fun i => slots[(head.val + i) % n]?.join

theorem filterMap_getElem?_range (l : List α) :
    (List.range l.length).filterMap (fun i => l[i]?) = l := by
  induction l using List.reverseRecOn with
  | nil => rfl
  | append_singleton l a ih =>
    rw [List.length_append, List.length_singleton, List.range_succ, List.filterMap_append]
    congr 1
    · refine Eq.trans (List.filterMap_congr ?_) ih
      intro i hi
      rw [List.getElem?_append_left (List.mem_range.mp hi)]
    · simp

theorem RingHolds.contents {slots : Vector (Option α) n} {head : Fin n} {len : Nat} {l : List α}
    (h : RingHolds slots head len l) : ringContents slots head len = l := by
  conv_rhs => rw [← filterMap_getElem?_range l]
  rw [ringContents, h.length]
  apply List.filterMap_congr
  intro i hi
  have hroom := h.room
  have hlt := List.mem_range.mp hi
  have hp : (head.val + i) % n < n := Nat.mod_lt _ (by omega)
  rw [Vector.getElem?_eq_getElem hp, Option.join_some]
  exact h.slot i ⟨(head.val + i) % n, hp⟩ (by omega) rfl

end RusticOs.Lib
