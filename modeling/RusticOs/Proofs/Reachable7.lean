import RusticOs.Proofs.Creation7

/-!
# `RusticOs.Proofs.Reachable7`: what every reachable owner keeps

An owner that is not fenced is ready, whatever was called, polled, aborted, dropped or failed
before. What that says of its tables, and of its maintenance:

* `volume_invariant`: the generation passes the validator, and the open stages have free,
  disjoint plans, distinct scopes and a retained slot each.
* `owner_rooted`: the live nodes are trees under the roots of their spaces.
* `maintainRetention_effect`: maintenance drops the records and nothing else.
-/

set_option autoImplicit false

namespace RusticOs.Fs

open RusticOs.Lib RusticOs.Lib.Fallible
open Relation

/-! ### Tables and stages -/

/-- The generation is valid, and the fresh stages have sectors and records of their own. -/
structure Volume7.Invariant (v : Volume7) : Prop where
  valid : validateGeneration v.header v.nodes v.records v.map = .ok ()
  free : ∀ (i : Fin 2) (slot : StageSlot) (plan : PayloadPlan), v.stages[i] = some slot →
    slot.mode = .fresh plan → ∀ sector ∈ runSectors plan.runs, Bitmap.get v.map sector = false
  disjoint : ∀ (i j : Fin 2) (a b : StageSlot) (p q : PayloadPlan), i ≠ j →
    v.stages[i] = some a → a.mode = .fresh p → v.stages[j] = some b → b.mode = .fresh q →
      (runSectors p.runs).Disjoint (runSectors q.runs)
  room : v.reservedRecords ≤ v.freeRecords
  scopes : ∀ (i j : Fin 2) (a b : StageSlot), i ≠ j → v.stages[i] = some a →
    v.stages[j] = some b → a.identity.scope ≠ b.identity.scope

/-- What every unfenced owner keeps, lent or not. -/
theorem volume_invariant {s : Session} (h : Reachable s) (hs : s.world.volume.fenced = false) :
    s.world.volume.Invariant := by
  obtain ⟨staged, hready⟩ := h.world_ready hs
  have hstages := hready.stages
  refine ⟨validateGeneration_eq_ok.mpr hready.valid, ?_, ?_, hstages.room, hstages.scopes⟩
  · intro i slot plan hi hmode sector hsector
    exact ((hstages.holds i slot hi).fresh plan hmode).planned.free sector hsector
  · intro i j a b p q hne ha hp hb hq
    have hdisjoint := hstages.disjoint i j a b hne ha hb
    rwa [freshRuns_of_fresh hp, freshRuns_of_fresh hq] at hdisjoint

/-- Two open stages, with a sector each. -/
theorem volume_invariant_twoStages : ∃ d : Disk, Reachable (.idle ⟨twoStages, d, 2⟩)
    ∧ twoStages.openSlots.map (fun slot => runSectors slot.runs) = [[0], [1]]
    ∧ twoStages.Invariant := by
  obtain ⟨d, -, htwo⟩ := twoStages_reachable
  exact ⟨d, htwo, by decide +kernel, volume_invariant htwo rfl⟩

/-! ### Trees -/

/-- The live nodes hang under roots: following parents never comes back, it ends at exactly one
node without a parent, and that node is a directory whose identity every node on the way records
as its space. -/
structure Rooted (nodes : Nodes7) : Prop where
  acyclic : Acyclic (ChildOf nodes)
  root : ∀ i, Live nodes i → ∃! r, ReflTransGen (ChildOf nodes) i r ∧ nodes[r].parent = 0
  space : ∀ i r, Live nodes i → ReflTransGen (ChildOf nodes) i r → nodes[r].parent = 0 →
    nodes[r].kind = .directory ∧ nodes[r].id = nodes[i].space.toUInt32

section
variable {nodes : Nodes7} {i r : Fin 256}

/-- A node has one parent at most. -/
theorem UniqueIds.rightUnique (h : UniqueIds nodes) : Relator.RightUnique (ChildOf nodes) :=
  fun _ j k hj hk => h j k hj.parent hk.parent (hj.named.symm.trans hk.named)

/-- Nothing is above a node without a parent. -/
theorem eq_of_top (hi : nodes[i].parent = 0) (h : ReflTransGen (ChildOf nodes) i r) : r = i := by
  rcases h.cases_head with heq | ⟨j, hij, -⟩
  · exact heq.symm
  · exact absurd hi hij.below

variable (hf : Forest nodes) (hids : UniqueIds nodes)
include hf

theorem Forest.reaches_top (hi : Live nodes i) :
    ∃ r, ReflTransGen (ChildOf nodes) i r ∧ nodes[r].parent = 0 := by
  have : Std.Irrefl (TransGen (ChildOf nodes)) := ⟨hf.acyclic⟩
  -- up the parents: they have no cycle
  induction i using (Finite.wellFounded_of_trans_of_irrefl
    (Function.swap (TransGen (ChildOf nodes)))).induction with
  | _ i ih =>
    by_cases htop : nodes[i].parent = 0
    · exact ⟨i, .refl, htop⟩
    · obtain ⟨j, hij, -⟩ := hf.parent i hi htop
      obtain ⟨r, hjr, hr⟩ := ih j (.single hij) hij.parent
      exact ⟨r, .head hij hjr, hr⟩

include hids

/-- All nodes on the way up are live and record one space. -/
theorem Forest.live_above (hi : Live nodes i) (h : ReflTransGen (ChildOf nodes) i r) :
    Live nodes r ∧ nodes[r].space = nodes[i].space := by
  induction h with
  | refl => exact ⟨hi, rfl⟩
  | tail _ hab ih =>
    obtain ⟨c, hac, -, hspace⟩ := hf.parent _ hab.child hab.below
    rw [hids.rightUnique hac hab] at hspace
    exact ⟨hab.parent, hspace.trans ih.2⟩

theorem Forest.rooted : Rooted nodes where
  acyclic := hf.acyclic
  root := by
    intro i hi
    obtain ⟨r, hir, hr⟩ := hf.reaches_top hi
    refine ⟨r, ⟨hir, hr⟩, fun q ⟨hiq, hq⟩ => ?_⟩
    rcases ReflTransGen.total_of_right_unique hids.rightUnique hir hiq with hrq | hqr
    · exact eq_of_top hr hrq
    · exact (eq_of_top hq hqr).symm
  space := by
    intro i r hi hir hr
    obtain ⟨hlive, hspace⟩ := hf.live_above hids hi hir
    obtain ⟨hkind, hown, k, hid, -⟩ := hf.top r hlive hr
    refine ⟨hkind, UInt32.toNat_inj.mp ?_⟩
    rw [← hspace, hown, UInt8.toNat_toUInt32, UInt32.toNat_toUInt8, hid]
    omega

end

/-- On every reachable owner the live nodes are trees under the roots of their spaces. -/
theorem owner_rooted {w : World7} (h : Reachable (.idle w)) (hw : w.volume.fenced = false) :
    Rooted w.volume.nodes := by
  obtain ⟨_, hready⟩ := h.ready hw
  exact hready.wellFormed.forest.rooted hready.wellFormed.ids

/-- A created file hangs under the root of its space. -/
theorem owner_rooted_filed : ∃ d : Disk, Reachable (.idle ⟨filedVolume, d, 1⟩)
    ∧ ChildOf filedVolume.nodes 4 1 ∧ filedVolume.nodes[(4 : Fin 256)].space = 2
    ∧ filedVolume.nodes[(1 : Fin 256)].id = 2 ∧ Rooted filedVolume.nodes := by
  obtain ⟨d, -, hfiled⟩ := filed_reachable
  have hchild : ChildOf filedVolume.nodes 4 1 := by
    have hlive : Live filedVolume.nodes 4 ∧ Live filedVolume.nodes 1 := by
      unfold Live
      decide +kernel
    exact ⟨hlive.1, hlive.2, by decide +kernel, by decide +kernel⟩
  exact ⟨d, hfiled, hchild, by decide +kernel, by decide +kernel, owner_rooted hfiled rfl⟩

/-! ### Retention -/

/-- Retention maintenance of a reachable owner. A success drops every record and nothing else;
a refusal leaves owner and disk as they were; and on a disk that answers every command only an
open stage, an unresolved admission or an exhausted sequence refuses it. -/
theorem maintainRetention_effect {w : World7} (h : Reachable (.idle w)) :
    (∀ epoch, (maintainRetention.run w).1 = .ok epoch →
        epoch = (maintainRetention.run w).2.volume.header.epoch
          ∧ Maintained w (maintainRetention.run w).2)
      ∧ (∀ e, (maintainRetention.run w).1 = .error e → e ≠ .uncertain →
        (maintainRetention.run w).2 = w)
      ∧ (w.volume.fenced = false → w.disk.AllDone →
        w.volume.header.sequence.toNat + 1 < 2 ^ 64 → w.volume.openStages = 0 →
        (∀ (i : Fin 8) (r : Record7), w.volume.records[i] = some r → r.state ≠ .admitted) →
          ∃ epoch, (maintainRetention.run w).1 = .ok epoch) := by
  by_cases hfence : w.volume.fenced = true
  · have hrefused : maintainRetention.run w = (.error .uncertain, w) :=
      run_ready_of_fenced hfence _
    rw [hrefused]
    exact ⟨nofun, fun _ _ _ => rfl,
      fun hw => absurd (hfence.symm.trans hw) (by decide)⟩
  rw [Bool.not_eq_true] at hfence
  obtain ⟨staged, hready⟩ := h.ready hfence
  have hran := maintainRetention_ran hfence hready.wellFormed
  refine ⟨fun epoch he => ?_, fun e he hne => ?_, fun _ hd hroom hopen hsettled => ?_⟩
  · generalize maintainRetention.run w = result at hran he
    cases hran with
    | busy cause => cases he
    | exhausted full => cases he
    | @published live r w' room idle hlive hrun =>
      cases r with
      | error e => cases he
      | ok u =>
        cases he
        have hm := Maintained.of_published hready room idle hlive hrun
        refine ⟨UInt64.toNat_inj.mp ?_, hm⟩
        have hepoch := UInt64.le_iff_toNat_le.mp hready.wellFormed.head.epoch_le
        rw [hm.epoch, UInt64.toNat_add]
        exact Nat.mod_eq_of_lt (by show _ + 1 < _; omega)
  · generalize maintainRetention.run w = result at hran he ⊢
    cases hran with
    | busy cause => rfl
    | exhausted full => rfl
    | @published live r w' room idle hlive hrun =>
      cases r with
      | ok u => cases he
      | error e' =>
        cases he
        exact absurd (publishNamespace_errs
          (w := { w with volume := maintainedVolume w.volume live })
          (maintained_publishable hready.wellFormed room hlive) (by rw [hrun])) hne
  · obtain ⟨live, d, -, -, hrun⟩ := maintainRetention_returns hready hd hroom hopen hsettled
    exact ⟨_, by rw [hrun]⟩

/-- The owner of a written file forgets the write, and not the file. -/
theorem maintainRetention_effect_written : ∃ d : Disk, Reachable (.idle ⟨writtenVolume, d, 1⟩)
    ∧ (writtenVolume.records[(0 : Fin 8)]).isSome = true
    ∧ writtenVolume.nodes[(4 : Fin 256)].kind = .file
    ∧ ∃ epoch, (maintainRetention.run ⟨writtenVolume, d, 1⟩).1 = .ok epoch
      ∧ Maintained ⟨writtenVolume, d, 1⟩ (maintainRetention.run ⟨writtenVolume, d, 1⟩).2 := by
  obtain ⟨d, hd, hwritten⟩ := written_reachable
  obtain ⟨hdone, -, hreturns⟩ := maintainRetention_effect hwritten
  obtain ⟨epoch, hepoch⟩ := hreturns rfl hd written_sequence written_idle written_settled
  exact ⟨d, hwritten, by decide +kernel, by decide +kernel, epoch, hepoch, (hdone epoch hepoch).2⟩

end RusticOs.Fs
