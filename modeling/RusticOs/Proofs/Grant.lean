import RusticOs.Supervisor.Grant

/-!
# `RusticOs.Proofs.Grant`: when a grant sequence may lose a root

The sequence knows of an installed root by its generation. A reply that accepts but carries no
usable generation starts the withdrawal without one, so from then on the sequence does not
count the root as outstanding, and abandoning it reports no leak.

- `known_step`: one event of a sequence whose generation tells whether a root is installed.
- `secure_iff_usable`: a possible order of events is secure at every moment exactly when every
  accepting reply carries a generation.
- `unusable_reply_leaks`: the order of events that loses a root in silence.
-/

set_option autoImplicit false

namespace RusticOs.Supervisor

open RusticOs.Lib

/-! ### Accepted roots -/

theorem accepted_nil : ¬ Accepted [] := by
  rintro ⟨before, e, hbefore, -⟩
  simp at hbefore

theorem accepted_snoc {events : List Event} {e : Event} :
    Accepted (events ++ [e]) ↔ Accepted events ∨ (Sequence.after events).Accepts e := by
  constructor
  · rintro ⟨before, e', hbefore, haccepts⟩
    rcases List.prefix_concat_iff.mp hbefore with heq | hlt
    · obtain ⟨rfl, he⟩ := List.append_inj' heq rfl
      cases he
      exact Or.inr haccepts
    · exact Or.inl ⟨before, e', hlt, haccepts⟩
  · rintro (⟨before, e', hbefore, haccepts⟩ | haccepts)
    · exact ⟨before, e', hbefore.trans (List.prefix_append _ _), haccepts⟩
    · exact ⟨events, e, List.prefix_rfl, haccepts⟩

theorem after_snoc (events : List Event) (e : Event) :
    Sequence.after (events ++ [e]) = (Sequence.after events).apply e := by
  rw [Sequence.after, run_append]
  rfl

theorem generationOf_ne_zero {w : Words} {generation : UInt32}
    (h : generationOf w = some generation) : generation ≠ 0 := by
  unfold generationOf at h
  split at h
  · rename_i hw
    cases h
    intro hzero
    apply hw.1
    have htoNat := congrArg UInt32.toNat hzero
    rw [UInt64.toNat_toUInt32, Nat.mod_eq_of_lt hw.2.1] at htoNat
    exact UInt64.toNat_inj.mp htoNat
  · cases h

/-! ### One event -/

/-- The generation tells whether a root is installed. -/
structure Known (installed : Prop) (s : Sequence) : Prop where
  root : installed → s.generation ≠ 0 ∧ s.phase ≠ .install
  none : ¬ installed → s.generation = 0 ∧ s.leaked = false ∧ (s.phase = .install ∨ s.phase = .done)

/-- How a sequence with an installed root can take an event. -/
inductive RootStep (s : Sequence) (e : Event) (t : Sequence) : Prop where
  | kept (same : t.generation = s.generation)
      (phase : t.phase ≠ .install ∧ t.phase ≠ .done)
  | handed (event : e = .activated) (same : t.generation = s.generation) (phase : t.phase = .done)
  | withdrawn (r : Request) (w : Words) (event : e = .reply r w) (accepted : w[(0 : Fin 8)] = 0)
      (withdrawing : s.phase = .withdraw) (same : t.generation = s.generation)
      (phase : t.phase = .done)
  | leaked (leaked : t.leaked = true) (same : t.generation = s.generation) (phase : t.phase = .done)

section
variable {s : Sequence} {e : Event}

/-- A failure while a root is installed starts its withdrawal or waits for it. -/
theorem fail_root (hroot : s.generation ≠ 0) (hphase : s.phase ≠ .install ∧ s.phase ≠ .done)
    (error : UInt64) : RootStep s e (s.fail error).2 := by
  unfold Sequence.fail
  split
  · exact .kept rfl hphase
  · rename_i hdone
    exact absurd hdone hphase.2
  · rw [if_neg hroot]
    exact .kept rfl (by simp [Sequence.beginWithdrawal])

theorem root_step (hroot : s.generation ≠ 0) (hinstall : s.phase ≠ .install) (htakes : s.Takes e) :
    RootStep s e (s.apply e) := by
  have hphase : s.phase ≠ .install ∧ s.phase ≠ .done := ⟨hinstall, htakes.1⟩
  cases e with
  | fail error => exact fail_root hroot hphase error
  | activated => exact .handed rfl rfl rfl
  | abandon error =>
    refine .leaked ?_ rfl rfl
    simp [Sequence.apply, Sequence.abandon, Sequence.outstanding, hroot, htakes.1]
  | reply r w =>
    show RootStep s _ (s.reply r w).2
    unfold Sequence.reply
    split
    · -- the answer to the withdrawal
      rename_i hwithdraw
      by_cases hw : w[0] = 0
      · exact .withdrawn r w rfl hw hwithdraw rfl rfl
      · refine .leaked ?_ rfl rfl
        simp [hw]
    · exact fail_root hroot hphase 4
    · exact fail_root hroot hphase 4
    · contradiction
    · split
      · exact fail_root hroot hphase 2
      · split
        · exact .kept rfl (by simp [Sequence.beginWithdrawal])
        · split
          · exact fail_root hroot hphase 4
          · exact .kept rfl (by simp)

theorem RootStep.root {t : Sequence} (h : RootStep s e t) (hroot : s.generation ≠ 0) :
    t.generation ≠ 0 ∧ t.phase ≠ .install := by
  cases h with
  | kept same phase => exact ⟨same ▸ hroot, phase.1⟩
  | handed event same phase | withdrawn r w event accepted withdrawing same phase
  | leaked leaked same phase => exact ⟨same ▸ hroot, by simp [phase]⟩

/-- An accepting reply with a generation installs a known root. -/
theorem accept_step (haccepts : s.Accepts e) (husable : e.Usable) :
    (s.apply e).generation ≠ 0 ∧ (s.apply e).phase ≠ .install ∧ (s.apply e).phase ≠ .done := by
  obtain ⟨hphase, r, w, rfl, hw⟩ := haccepts
  obtain ⟨generation, hgeneration⟩ := Option.isSome_iff_exists.mp (husable hw)
  have hne := generationOf_ne_zero hgeneration
  show (s.reply r w).2.generation ≠ 0 ∧ _
  unfold Sequence.apply Sequence.reply
  rw [hphase]
  dsimp only
  rw [if_neg (not_not.mpr hw), hgeneration]
  dsimp only
  split <;> simp [hne]

/-- An accepting reply without a generation starts a withdrawal that knows of no root. -/
theorem accept_unusable (haccepts : s.Accepts e) (hroot : s.generation = 0) (husable : ¬ e.Usable) :
    (s.apply e).phase = .withdraw ∧ (s.apply e).outstanding = false := by
  obtain ⟨hphase, r, w, rfl, hw⟩ := haccepts
  have hnone : generationOf w = none := by
    rw [← Option.not_isSome_iff_eq_none]
    intro hsome
    exact husable fun _ => hsome
  have happly : s.apply (.reply r w) = (s.beginWithdrawal 4).2 := by
    show (s.reply r w).2 = _
    unfold Sequence.reply
    rw [hphase]
    dsimp only
    rw [if_neg (not_not.mpr hw), hnone]
  rw [happly]
  simp [Sequence.beginWithdrawal, Sequence.outstanding, hroot]

/-- Nothing is installed and the event accepts nothing. -/
theorem bare_step (hroot : s.generation = 0) (hleaked : s.leaked = false)
    (hinstall : s.phase = .install) (htakes : s.Takes e) (haccepts : ¬ s.Accepts e) :
    (s.apply e).generation = 0 ∧ (s.apply e).leaked = false ∧ (s.apply e).phase = .done := by
  have hfail : ∀ error, (s.fail error).2 = { s with phase := .done } := by
    intro error
    simp [Sequence.fail, hinstall, hroot]
  cases e with
  | fail error =>
    rw [show s.apply (.fail error) = { s with phase := .done } from hfail error]
    exact ⟨hroot, hleaked, rfl⟩
  | activated => exact absurd (htakes.2 rfl) (by simp [hinstall])
  | abandon error => simp [Sequence.apply, Sequence.abandon, Sequence.outstanding, hroot]
  | reply r w =>
    have hw : w[0] ≠ 0 := fun hw => haccepts ⟨hinstall, r, w, rfl, hw⟩
    have happly : s.apply (.reply r w) = { s with phase := .done } := by
      show (s.reply r w).2 = _
      unfold Sequence.reply
      rw [hinstall]
      dsimp only
      rw [if_pos hw]
      exact hfail 2
    rw [happly]
    exact ⟨hroot, hleaked, rfl⟩

end

/-! ### Runs -/

/-- Every accepting reply carries a generation. -/
def AlwaysUsable (events : List Event) : Prop :=
  ∀ before e, before ++ [e] <+: events → (Sequence.after before).Accepts e → e.Usable

variable {events : List Event}

theorem AlwaysUsable.before {more : List Event} (h : AlwaysUsable more) (hle : events <+: more) :
    AlwaysUsable events :=
  fun before e hbefore => h before e (hbefore.trans hle)

theorem known_step {e : Event} (hknown : Known (Accepted events) (Sequence.after events))
    (htakes : (Sequence.after events).Takes e) (husable : AlwaysUsable (events ++ [e])) :
    Known (Accepted (events ++ [e])) ((Sequence.after events).apply e) := by
  by_cases hroot : Accepted events
  · obtain ⟨hgeneration, hphase⟩ := hknown.root hroot
    have hstep := root_step hgeneration hphase htakes
    exact ⟨fun _ => hstep.root hgeneration,
      fun hnot => absurd (accepted_snoc.mpr (Or.inl hroot)) hnot⟩
  · obtain ⟨hgeneration, hleaked, hphase⟩ := hknown.none hroot
    have hinstall := hphase.resolve_right htakes.1
    by_cases haccepts : (Sequence.after events).Accepts e
    · obtain ⟨h1, h2, -⟩ := accept_step haccepts (husable events e List.prefix_rfl haccepts)
      exact ⟨fun _ => ⟨h1, h2⟩, fun hnot => absurd (accepted_snoc.mpr (Or.inr haccepts)) hnot⟩
    · obtain ⟨h1, h2, h3⟩ := bare_step hgeneration hleaked hinstall htakes haccepts
      refine ⟨fun hyes => ?_, fun _ => ⟨h1, h2, Or.inr h3⟩⟩
      rcases accepted_snoc.mp hyes with hyes | hyes
      · exact absurd hyes hroot
      · exact absurd hyes haccepts

theorem known_of_usable (h : Possible events) (husable : AlwaysUsable events) :
    Known (Accepted events) (Sequence.after events) := by
  refine run_history (P := fun l s => AlwaysUsable l → Known (Accepted l) s) ?_ ?_ h husable
  · exact fun _ => ⟨fun hyes => absurd hyes accepted_nil, fun _ => ⟨rfl, rfl, Or.inl rfl⟩⟩
  · intro l e ih _ htakes hl
    exact known_step (ih (hl.before (List.prefix_append _ _))) htakes hl

/-- Without an unusable reply the sequence is secure. -/
theorem secure_of_usable (h : Possible events) (husable : AlwaysUsable events) : Secure events where
  held := by
    intro hroot hphase
    have hknown := (known_of_usable h husable).root hroot
    simp [Sequence.outstanding, hknown.1, hphase]
  honest := fun hroot => ((known_of_usable h husable).none hroot).2.1
  ended := by
    rintro before e rfl hroot hdone
    obtain ⟨hbefore, htakes, -⟩ := allowed_append.mp h
    have hknown := known_of_usable hbefore (husable.before (List.prefix_append _ _))
    rw [after_snoc] at hdone ⊢
    rcases accepted_snoc.mp hroot with hroot | haccepts
    · obtain ⟨hgeneration, hphase⟩ := hknown.root hroot
      cases root_step hgeneration hphase htakes with
      | kept same phase => exact absurd hdone phase.2
      | handed event => exact Or.inl event
      | withdrawn r w event accepted withdrawing =>
        have hwords : (Sequence.after before).words r = (Sequence.after before).withdrawal r := by
          rw [Sequence.words, withdrawing]
        exact Or.inr (Or.inl ⟨r, w, event, accepted, withdrawing, hwords⟩)
      | leaked leaked => exact Or.inr (Or.inr leaked)
    · have hnot := (accept_step haccepts (husable before e List.prefix_rfl haccepts)).2.2
      exact absurd hdone hnot

/-- The first unusable reply leaves a root that is not outstanding. -/
theorem usable_of_secure (h : Possible events)
    (hsecure : ∀ before, before <+: events → Secure before) : AlwaysUsable events := by
  refine run_history (P := fun l _ => (∀ before, before <+: l → Secure before) → AlwaysUsable l)
    ?_ ?_ h hsecure
  · intro _ before e hbefore
    simp at hbefore
  · intro l e ih hl htakes hsecure before e' hbefore haccepts
    have hprior := ih fun before hle => hsecure before (hle.trans (List.prefix_append _ _))
    rcases List.prefix_concat_iff.mp hbefore with heq | hlt
    · obtain ⟨rfl, he⟩ := List.append_inj' heq rfl
      cases he
      by_contra hunusable
      have hnone : ¬ Accepted before := fun hroot =>
        ((known_of_usable hl hprior).root hroot).2 haccepts.1
      have hgeneration := ((known_of_usable hl hprior).none hnone).1
      obtain ⟨hphase, hout⟩ := accept_unusable haccepts hgeneration hunusable
      have hheld := (hsecure _ List.prefix_rfl).held (accepted_snoc.mpr (Or.inr haccepts))
        (by simp [after_snoc, hphase])
      rw [after_snoc, hout] at hheld
      cases hheld
    · exact hprior before e' hlt haccepts

/-- An order of events keeps the owner informed of an installed root at every moment exactly
when every accepting reply carries a generation. -/
theorem secure_iff_usable {events : List Event} (h : Possible events) :
    (∀ before, before <+: events → Secure before) ↔ AlwaysUsable events := by
  constructor
  · exact usable_of_secure h
  · intro husable before hle
    exact secure_of_usable (h.before hle) (husable.before hle)

/-- A session's request. -/
def sessionRequest : Request :=
  { slot := 1, role := 8, peer := 42, endpoint := 7, scope := 5, other := 6, rights := 7
    expires := 100, parent := 0 }

/-- A sequence that installs a root under generation 9 and hands it to its child. -/
theorem secure_handed_over :
    Possible [.reply sessionRequest #v[0, 9, 0, 0, 0, 0, 0, 0], .activated]
      ∧ Secure [.reply sessionRequest #v[0, 9, 0, 0, 0, 0, 0, 0], .activated] := by
  have hpossible : Possible [.reply sessionRequest #v[0, 9, 0, 0, 0, 0, 0, 0], .activated] :=
    ⟨⟨by decide, nofun⟩, ⟨by decide, fun _ => by decide⟩, trivial⟩
  refine ⟨hpossible, (secure_iff_usable hpossible).mpr ?_ _ List.prefix_rfl⟩
  intro before e hbefore haccepts
  have hmem : e ∈ [Event.reply sessionRequest #v[0, 9, 0, 0, 0, 0, 0, 0], .activated] :=
    hbefore.subset (by simp)
  rcases List.mem_cons.mp hmem with rfl | hmem
  · exact fun _ => by decide
  · rw [List.mem_singleton.mp hmem]
    trivial

/-- The service accepts with words that carry no generation, and then the channel is lost. The
root is not outstanding while its withdrawal is owed, and the sequence ends neither handed
over, nor withdrawn, nor leaked. -/
theorem unusable_reply_leaks :
    Possible [.reply sessionRequest (Vector.replicate 8 0), .abandon 4]
      ∧ Sequence.new.Accepts (.reply sessionRequest (Vector.replicate 8 0))
      ∧ (Sequence.after [.reply sessionRequest (Vector.replicate 8 0)]).phase = .withdraw
      ∧ (Sequence.after [.reply sessionRequest (Vector.replicate 8 0)]).outstanding = false
      ∧ (Sequence.after [.reply sessionRequest (Vector.replicate 8 0), .abandon 4]).phase = .done
      ∧ (Sequence.after [.reply sessionRequest (Vector.replicate 8 0), .abandon 4]).leaked
        = false
      ∧ ¬ Secure [.reply sessionRequest (Vector.replicate 8 0)]
      ∧ ¬ Secure [.reply sessionRequest (Vector.replicate 8 0), .abandon 4] := by
  have haccepts : Sequence.new.Accepts (.reply sessionRequest (Vector.replicate 8 0)) :=
    ⟨rfl, _, _, rfl, by decide⟩
  have hroot : ∀ more, Accepted (.reply sessionRequest (Vector.replicate 8 0) :: more) :=
    fun more => ⟨[], _, ⟨more, rfl⟩, haccepts⟩
  refine ⟨⟨⟨by decide, nofun⟩, ⟨by decide, nofun⟩, trivial⟩, haccepts, by decide, by decide,
    by decide, by decide, fun h => ?_, fun h => ?_⟩
  · exact absurd (h.held (hroot _) (by decide)) (by decide)
  · rcases h.ended [_] _ rfl (hroot _) (by decide) with he | ⟨r, w, he, -⟩ | hleaked
    · cases he
    · cases he
    · exact absurd hleaked (by decide)

end RusticOs.Supervisor
