import RusticOs.Proofs.Agreement7
import RusticOs.Proofs.Finishing7

/-!
# `RusticOs.Proofs.Checks7`: what the checks of a generation do not depend on

`validateGeneration` scans the slots in order and compares each with the ones before it. Its
verdict is that of `WellFormed`, which speaks of slots only through what they hold, so the slots
can be reordered (`WellFormed.reorder`). The one comparison whose code names its two records
differently is the history of one object, and it is symmetric for records that have no event in
common (`consistent_symm`).

`validateCandidate` writes a candidate into the owner, checks it and takes it out again. The
check is the one that the adopted candidate would get, under the header of its publication.

* `validation_order_free`: the order of the slots.
* `validateCandidate_transparent`: the owner after the check, and its verdict.
-/

set_option autoImplicit false

namespace RusticOs.Fs

open RusticOs.Lib
open Vector (getElem_reorder)

/-! ### Pairs of records -/

section
variable {a b : Record7}

theorem observationsAreMonotonic_symm (a b : Record7) :
    observationsAreMonotonic a b = observationsAreMonotonic b a := by
  rw [Bool.eq_iff_iff, observationsAreMonotonic_iff, observationsAreMonotonic_iff]
  tauto

/-- Two commits at one sequence are two commits at no sequence: there the check passes. -/
theorem commitsAreMonotonic_symm (h : EventsApart a b) :
    commitsAreMonotonic a b = commitsAreMonotonic b a := by
  unfold commitsAreMonotonic committedVersion
  by_cases ha : a.state.committed = true
  · by_cases hb : b.state.committed = true
    · rw [if_pos ha, if_pos hb]
      dsimp only
      by_cases heq : a.committed = b.committed
      · have hzero : a.committed = 0 :=
          h a.committed (by simp [eventSequences]) (by simp [eventSequences, heq])
        rw [← heq, if_neg (UInt64.lt_irrefl _), if_neg (UInt64.lt_irrefl _), hzero]
        simp
      · rcases UInt64.lt_or_lt_of_ne heq with hlt | hlt
        · rw [if_pos hlt, if_neg (UInt64.not_lt.mpr (UInt64.le_of_lt hlt))]
        · rw [if_neg (UInt64.not_lt.mpr (UInt64.le_of_lt hlt)), if_pos hlt]
    · rw [if_pos ha, if_neg hb]
  · by_cases hb : b.state.committed = true
    · rw [if_neg ha, if_pos hb]
    · rw [if_neg ha, if_neg hb]

theorem consistent_symm (h : EventsApart a b) :
    sameObjectHistoryIsConsistent a b = sameObjectHistoryIsConsistent b a := by
  unfold sameObjectHistoryIsConsistent
  rw [bne_comm, observationsAreMonotonic_symm a b, commitsAreMonotonic_symm h]
  ac_rfl

end

/-! ### The order of the slots -/

section
variable {header : Header7} {nodes : Nodes7} {records : Records7} {map : SpaceMap}
  (σ : Equiv.Perm (Fin 256)) (τ : Equiv.Perm (Fin 8))

/-- Where an owner of the reordered slots was. -/
def Owner.before : Owner → Owner
  | .file i => .file (σ i)
  | .snapshot i => .snapshot (τ i)

theorem Owner.before_injective : Function.Injective (Owner.before σ τ) := by
  intro o o' h
  cases o <;> cases o' <;> simp_all [Owner.before]

/-- Every owner comes from somewhere. -/
theorem Owner.before_symm (o : Owner) : (o.before σ.symm τ.symm).before σ τ = o := by
  cases o <;> simp [Owner.before]

theorem live_reorder {i : Fin 256} : Live (nodes.reorder σ) i ↔ Live nodes (σ i) := by
  rw [Live, getElem_reorder]
  rfl

theorem childOf_reorder {i j : Fin 256} :
    ChildOf (nodes.reorder σ) i j ↔ ChildOf nodes (σ i) (σ j) := by
  constructor
  · rintro ⟨hi, hj, hbelow, hnamed⟩
    rw [getElem_reorder] at hbelow hnamed
    rw [getElem_reorder] at hnamed
    exact ⟨(live_reorder σ).mp hi, (live_reorder σ).mp hj, hbelow, hnamed⟩
  · rintro ⟨hi, hj, hbelow, hnamed⟩
    refine ⟨(live_reorder σ).mpr hi, (live_reorder σ).mpr hj, ?_, ?_⟩
    · rw [getElem_reorder]
      exact hbelow
    · rw [getElem_reorder, getElem_reorder]
      exact hnamed

theorem Forest.reorder (h : Forest nodes) : Forest (nodes.reorder σ) where
  roots k := by
    obtain ⟨i, hi⟩ := h.roots k
    refine ⟨σ.symm i, ?_⟩
    rw [live_reorder, getElem_reorder, Equiv.apply_symm_apply]
    exact hi
  top i := by
    rw [live_reorder, getElem_reorder]
    exact h.top (σ i)
  parent i := by
    rw [live_reorder, getElem_reorder]
    intro hi hbelow
    obtain ⟨j, hchild, hkind, hspace⟩ := h.parent (σ i) hi hbelow
    refine ⟨σ.symm j, ?_⟩
    rw [childOf_reorder, getElem_reorder, Equiv.apply_symm_apply]
    exact ⟨hchild, hkind, hspace⟩
  acyclic := h.acyclic.comap σ fun i j => (childOf_reorder σ).mp

theorem owns_reorder {o : Owner} {s : Nat} :
    Owns (nodes.reorder σ) (records.reorder τ) o s ↔ Owns nodes records (o.before σ τ) s := by
  cases o with
  | file i | snapshot i => rw [Owns, getElem_reorder]; rfl

theorem shares_reorder {o o' : Owner} :
    Shares (nodes.reorder σ) (records.reorder τ) o o'
      ↔ Shares nodes records (o.before σ τ) (o'.before σ τ) := by
  cases o <;> cases o'
  case snapshot.file i j => rw [Shares, getElem_reorder, getElem_reorder]; rfl
  all_goals
    show False ↔ False
    rfl

/-- A well-formed generation stays one when its slots are reordered. -/
theorem WellFormed.reorder (h : WellFormed header nodes records map) :
    WellFormed header (nodes.reorder σ) (records.reorder τ) map := by
  constructor
  case head => exact h.head
  case node =>
    intro i
    rw [live_reorder, getElem_reorder]
    exact h.node (σ i)
  case forest => exact h.forest.reorder σ
  case ids =>
    intro i j
    rw [live_reorder, live_reorder, getElem_reorder, getElem_reorder]
    exact fun hi hj hid => σ.injective (h.ids _ _ hi hj hid)
  case names =>
    intro i j
    rw [live_reorder, live_reorder, getElem_reorder, getElem_reorder]
    exact fun hi hj hparent hname => σ.injective (h.names _ _ hi hj hparent hname)
  case record =>
    intro i
    rw [getElem_reorder]
    exact h.record (τ i)
  case current =>
    intro i r hr j
    rw [getElem_reorder] at hr
    rw [live_reorder, getElem_reorder]
    exact h.current (τ i) r hr (σ j)
  case scopes =>
    intro i j a b hne
    rw [getElem_reorder, getElem_reorder]
    exact h.scopes _ _ a b (τ.injective.ne hne)
  case events =>
    intro i j a b hne
    rw [getElem_reorder, getElem_reorder]
    exact h.events _ _ a b (τ.injective.ne hne)
  case history =>
    intro i j a b hne
    rw [getElem_reorder, getElem_reorder]
    exact h.history _ _ a b (τ.injective.ne hne)
  case exclusive =>
    intro o o' s
    rw [owns_reorder, owns_reorder, shares_reorder, shares_reorder]
    exact fun ho ho' => (h.exclusive _ _ s ho ho').imp_left fun heq =>
      Owner.before_injective σ τ heq
  case map_iff =>
    intro s
    rw [h.map_iff]
    constructor
    · rintro ⟨o, ho⟩
      refine ⟨o.before σ.symm τ.symm, (owns_reorder σ τ).mpr ?_⟩
      rw [Owner.before_symm]
      exact ho
    · rintro ⟨o, ho⟩
      exact ⟨o.before σ τ, (owns_reorder σ τ).mp ho⟩

end

/-- Whether a generation is accepted does not depend on the order of its slots. -/
theorem validation_order_free (header : Header7) (nodes : Nodes7) (records : Records7)
    (map : SpaceMap) (σ : Equiv.Perm (Fin 256)) (τ : Equiv.Perm (Fin 8)) :
    (validateGeneration header (nodes.reorder σ) (records.reorder τ) map = .ok ()
        ↔ validateGeneration header nodes records map = .ok ())
      ∧ ∀ a b : Record7, shareEventSequence a b = false → shareEventSequence b a = false
        ∧ sameObjectHistoryIsConsistent a b = sameObjectHistoryIsConsistent b a := by
  refine ⟨?_, fun a b hevents => ?_⟩
  · rw [validateGeneration_eq_ok, validateGeneration_eq_ok, validGeneration_iff,
      validGeneration_iff]
    refine ⟨fun h => ?_, fun h => h.reorder σ τ⟩
    have hback := h.reorder σ.symm τ.symm
    rw [Vector.reorder_symm, Vector.reorder_symm] at hback
    exact hback
  · have hapart := shareEventSequence_iff.mp hevents
    exact ⟨shareEventSequence_iff.mpr hapart.symm, consistent_symm hapart⟩

/-! ### Candidates -/

/-- A header with the sequence after the last one is never accepted. -/
theorem HeaderFields.room {header : Header7} (h : HeaderFields (nextHeader header)) :
    header.sequence.toNat + 1 < 2 ^ 64 := by
  have hone := UInt64.le_iff_toNat_le.mp (UInt64.le_trans h.epoch_ge h.epoch_le)
  have hbound := header.sequence.toNat_lt
  change (1 : UInt64).toNat ≤ (header.sequence + 1).toNat at hone
  rw [UInt64.toNat_add] at hone
  by_contra hfull
  have hlast : header.sequence.toNat + (1 : UInt64).toNat = 2 ^ 64 := by
    have : (1 : UInt64).toNat = 1 := rfl
    omega
  rw [hlast] at hone
  exact absurd hone (by decide)

/-- What is published passes the candidate's check. -/
theorem Publishable.verdict {c : Candidate7} {v : Volume7}
    (h : (c.apply v).Publishable) : candidateVerdict c v = .ok () :=
  candidateVerdict_ok (h.valid.record_shape (Vector.setAt_self _ _ _)) h.room
    (validGeneration_iff.mp h.valid)

/-- Checking a candidate changes nothing of the owner, and passes exactly when the owner that
adopts the candidate is a generation: with the next sequence, in the other half of the disk, and
under whatever checksums the publication puts into its header. -/
theorem validateCandidate_transparent {c : Candidate7} {w : World7} (h : c.Fits w.volume.map)
    (nodesChecksum mapChecksum receiptsChecksum : UInt32) :
    ((validateCandidate c).run w).2 = w
      ∧ (((validateCandidate c).run w).1 = .ok ()
        ↔ (let adopted := adoptCandidate w.volume c
            { w.volume.header with
              sequence := w.volume.header.sequence + 1
              generation := w.volume.header.generation ^^^ 1
              nodesChecksum, mapChecksum, receiptsChecksum }
          validateGeneration adopted.header adopted.nodes adopted.records adopted.map
            = .ok ())) := by
  rw [validateCandidate_run h]
  refine ⟨rfl, ?_⟩
  show _ ↔ validateGeneration (nextHeader w.volume.header) (c.nodes w.volume.nodes)
    (w.volume.records.setAt c.recordSlot (some c.record)) (c.map w.volume.map) = .ok ()
  rw [validateGeneration_eq_ok]
  constructor
  · exact fun hverdict => (candidateVerdict_eq_ok hverdict).valid
  · intro hvalid
    have hroom := (header_validate_eq_ok.mp hvalid.head).room
    exact Publishable.verdict ⟨hroom, hvalid⟩

/-- A replacement that writes one sector, gives one back and changes its file. -/
theorem validateCandidate_transparent_replacing : ∃ (w : World7) (c : Candidate7),
    c.added.runs = [⟨1, 1⟩] ∧ c.released = [⟨0, 1⟩] ∧ (∃ node, c.nodeUpdate = some (4, node))
      ∧ ((validateCandidate c).run w).1 = .ok () ∧ ((validateCandidate c).run w).2 = w
      ∧ ∀ nodesChecksum mapChecksum receiptsChecksum : UInt32,
        (((validateCandidate c).run w).1 = .ok ()
          ↔ (let adopted := adoptCandidate w.volume c
              { w.volume.header with
                sequence := w.volume.header.sequence + 1
                generation := w.volume.header.generation ^^^ 1
                nodesChecksum, mapChecksum, receiptsChecksum }
            validateGeneration adopted.header adopted.nodes adopted.records adopted.map
              = .ok ())) := by
  obtain ⟨w, c, -, hfits, hvalid, hadded, hreleased, hnode⟩ := replacing_candidate
  exact ⟨w, c, hadded, hreleased, hnode, hvalid, (validateCandidate_transparent hfits 0 0 0).1,
    fun n m r => (validateCandidate_transparent hfits n m r).2⟩

end RusticOs.Fs
