import RusticOs.Proofs.Staging7

/-!
# `RusticOs.Proofs.Replacement7`: tracked replacement

A replacement supplies every sector of a stage and then commits it. What it writes first
is fixed by the owner and the bytes, so the call still has one state to publish
(`.pass`).

* `finishTracked_spec`: finishing a registered stage publishes the bytes supplied to it.
* `replaceTracked_spec`: the one-call form.
-/

set_option autoImplicit false

namespace RusticOs.Fs

open RusticOs.Lib

/-! ### Calls that write before they publish -/

section
variable {α β : Type} {w w' : World7} {staged : Fin 2 → List UInt8} {request : Request}

/-- A specification at a world with the same contents and medium. -/
theorem CallSpec.of_world {v : World7} {x y : Op α} (hmedium : v.disk.medium = w.disk.medium)
    (hcontents : v.contents = w.contents)
    (h : ∀ d, x.run { w with disk := d } = y.run { v with disk := d })
    (hy : CallSpec y v staged request) : CallSpec x w staged request := by
  obtain ⟨after, hafter, hruns⟩ := hy
  rw [hcontents] at hafter hruns
  refine ⟨after, hafter, fun d hd => ?_⟩
  obtain ⟨h1, h2, h3⟩ := hruns d ⟨hd.medium.trans hmedium.symm, hd.idle⟩
  exact ⟨by rw [h]; exact h1, by rw [h]; exact h2, by rw [h]; exact h3⟩

/-- `x` returns `b` and leaves the medium `m`, on every device that answers all its
commands; otherwise the owner's contents stay. -/
def Passes (x : Op β) (w : World7) (staged : Fin 2 → List UInt8) (b : β) (m : Medium Block) :
    Prop :=
  ∀ d, SameDisk d w →
    (∃ d', x.run { w with disk := d } = (.ok b, { w with disk := d' }) ∧ d'.medium = m
      ∧ d'.inflight = none ∧ (d.AllDone → d'.AllDone))
    ∨ ∃ e w', x.run { w with disk := d } = (.error e, w') ∧ Settles w.contents none staged w'
      ∧ ¬ d.AllDone

/-- The world with another medium. -/
def World7.onMedium (w : World7) (m : Medium Block) : World7 :=
  { w with disk := { w.disk with medium := m } }

/-- Run a passing computation before a call. -/
theorem CallSpec.pass {x : Op β} {b : β} {m : Medium Block} (hx : Passes x w staged b m)
    (hcontents : (w.onMedium m).contents = w.contents) {f : β → Op α}
    (hf : CallSpec (f b) (w.onMedium m) staged request) :
    CallSpec (x >>= f) w staged request := by
  obtain ⟨after, hafter, hruns⟩ := hf
  rw [hcontents] at hafter hruns
  refine ⟨after, hafter, fun d hd => ?_⟩
  rcases hx d hd with ⟨d', hrun, hm, hidle, hall⟩ | ⟨e, w', hrun, hsettles, hbroken⟩
  · obtain ⟨h1, h2, h3⟩ := hruns d' ⟨hm, hidle⟩
    have hbind := Fallible.run_bind_of_ok hrun f
    exact ⟨by rw [hbind]; exact h1, by rw [hbind]; exact h2,
      by rw [hbind]; exact fun hd' hs => h3 (hall hd') hs⟩
  · have hbind := Fallible.run_bind_of_error hrun f
    refine ⟨by rw [hbind]; exact hsettles.weaken _, fun a ha => ?_, fun hd' => absurd hd' hbroken⟩
    rw [hbind] at ha
    cases ha

theorem Passes.pure (b : β) :
    Passes (pure b : Op β) w staged b w.disk.medium := fun d hd =>
  Or.inl ⟨d, rfl, hd.medium, hd.idle, fun hall => hall⟩

theorem Passes.bind {x : Op α} {f : α → Op β} {a : α} {b : β} {m m' : Medium Block}
    (hx : Passes x w staged a m) (hcontents : (w.onMedium m).contents = w.contents)
    (hf : Passes (f a) (w.onMedium m) staged b m') : Passes (x >>= f) w staged b m' := by
  intro d hd
  rcases hx d hd with ⟨d', hrun, hm, hidle, hall⟩ | ⟨e, w', hrun, hsettles, hbroken⟩
  · rw [Fallible.run_bind_of_ok hrun f]
    rcases hf d' ⟨hm, hidle⟩ with ⟨d'', hrun', hm', hidle', hall'⟩ | ⟨e, w', hrun', hs, hb⟩
    · exact Or.inl ⟨d'', hrun', hm', hidle', fun h => hall' (hall h)⟩
    · rw [hcontents] at hs
      exact Or.inr ⟨e, w', hrun', hs, fun h => hb (hall h)⟩
  · rw [Fallible.run_bind_of_error hrun f]
    exact Or.inr ⟨e, w', rfl, hsettles, hbroken⟩

end

section
variable {w : World7} {staged : Fin 2 → List UInt8} {slot : StageSlot} {bytes : List UInt8}

theorem writeSlot_passes (h : Held w staged slot bytes) {data : List UInt8} {sector : Nat}
    (hdata : ¬ slot.Misfits data)
    (hsector : (runSectors slot.runs)[slot.written.toNat / 512]? = some sector) :
    Passes ((writeSlot slot data).mapError WriteFault.error) w staged
      (slot.next w.disk.medium.view sector data)
      (w.disk.medium.effect (slot.command sector data)) := by
  intro d hd
  have hn := h.holds.nextSector hdata
  have hran := writeSlot_ran (w := { w with disk := d }) hdata hsector hd.idle
  rw [Fallible.run_mapError]
  generalize (writeSlot slot data).run { w with disk := d } = r at hran
  rw [← hd.medium]
  cases hran with
  | done d' medium idle live => exact Or.inl ⟨d', rfl, medium, idle, live⟩
  | released e d' medium idle broken =>
    have hd' : SameDisk d' w := ⟨medium.trans hd.medium, idle⟩
    exact Or.inr ⟨e, _, rfl, .kept (h.ready.onDisk hd') hd'.contents, broken⟩
  | fenced d' medium idle broken =>
    refine Or.inr ⟨.uncertain, _, rfl, .fenced rfl fun img himg => Or.inl ?_, broken⟩
    exact h.stores hn hsector (hd.medium ▸ medium) idle himg

/-- The next sector of what is left of a stage has the right length. -/
theorem chunk_length {slot : StageSlot} {rest : List UInt8} (hpos : 0 < rest.length)
    (hrest : slot.written.toNat + rest.length = slot.length.toNat) :
    ¬ slot.Misfits (rest.take 512) := by
  have hremaining : (slot.length - slot.written).toNat = rest.length := by
    rw [UInt32.toNat_sub_of_le _ _ (by rw [UInt32.le_iff_toNat_le]; omega)]
    omega
  rw [StageSlot.Misfits, hremaining, List.length_take]
  rintro (hzero | hne)
  · rw [hzero] at hremaining
    simp at hremaining
    omega
  · exact hne (Nat.min_comm _ _)

theorem eq_nil_of_sectors {rest : List UInt8} (h : 0 = sectorsFor rest.length) : rest = [] := by
  rw [← List.length_eq_zero_iff]
  unfold sectorsFor at h
  omega

/-- The first sector of some bytes, and the sectors that are left. -/
theorem sectors_succ {k : Nat} {rest : List UInt8} (h : k + 1 = sectorsFor rest.length) :
    0 < rest.length ∧ k = sectorsFor (rest.drop 512).length := by
  rw [List.length_drop]
  unfold sectorsFor at h ⊢
  omega

/-- Supplying the rest of a stage's bytes, sector by sector. -/
theorem writeSectors_passes (k : Nat) {rest : List UInt8} (hk : k = sectorsFor rest.length)
    (h : Held w staged slot bytes) (hrest : bytes.length + rest.length = slot.length.toNat) :
    ∃ next m, Passes (writeSectors slot (chunks 512 k rest)) w staged next m
      ∧ Held (w.onMedium m) staged next (bytes ++ rest)
      ∧ (w.onMedium m).contents = w.contents ∧ Walks next slot := by
  -- one sector of the rest at a time
  induction k generalizing w slot bytes rest with
  | zero =>
    obtain rfl := eq_nil_of_sectors hk
    refine ⟨slot, w.disk.medium, Passes.pure slot, ?_, rfl, .refl slot⟩
    rw [List.append_nil]
    exact h
  | succ k ih =>
    obtain ⟨hpos, hleft⟩ := sectors_succ hk
    have hdata := chunk_length hpos (h.holds.written.symm ▸ hrest)
    have hn := h.holds.nextSector hdata
    obtain ⟨sector, hsector⟩ := h.exists_sector hn
    obtain ⟨hmoved, hcontents⟩ := h.next hn hsector
      (d := { w.disk with medium := w.disk.medium.effect (slot.command sector (rest.take 512)) })
      rfl h.ready.idle
    have hwalks := next_walks slot w.disk.medium.view sector (rest.take 512)
    obtain ⟨next, m, hpass, hheld, hsame, hlater⟩ := ih hleft hmoved (by
        rw [hwalks.length, List.length_append, List.length_take, List.length_drop]
        omega)
    refine ⟨next, m, ?_, ?_, hsame.trans hcontents, hlater.trans hwalks⟩
    · rw [chunks, writeSectors, List.foldlM_cons]
      exact (writeSlot_passes h hdata hsector).bind hcontents hpass
    · rw [List.append_assoc, List.take_append_drop] at hheld
      exact hheld

theorem complete_iff (h : Held w staged slot bytes) :
    slot.complete = true ↔ bytes.length = slot.length.toNat := by
  rw [StageSlot.complete, decide_eq_true_iff, ← h.holds.written, UInt32.toNat_inj]

/-- Finishing a held stage publishes its request, or answers it from the retained record. -/
theorem finishTrackedSlot_spec (h : Held w staged slot bytes) :
    CallSpec (finishTrackedSlot slot) w staged
      (.replace slot.identity slot.expectedVersion bytes) := by
  unfold finishTrackedSlot
  refine .refuse h.ready fun hfinish => ?_
  push Not at hfinish
  have hlength := (complete_iff h).mp (by simpa using hfinish.2)
  cases hmode : slot.mode with
  | fresh plan => exact commitTracked_spec h hmode hlength
  | retry record matching =>
    exact .refuse h.ready fun _ => .refuse h.ready fun _ =>
      .answer h.ready record

/-- What finishing a token's stage asks for. -/
def finishRequest (v : Volume7) (staged : Fin 2 → List UInt8) (stage : Stage7)
    (request : WriteIdentity7 → UInt64 → List UInt8 → Request) : Option Request :=
  match v.stageIndex stage with
  | .ok (i, slot) => some (request slot.identity slot.expectedVersion (staged i))
  | .error _ => none

theorem finishRequest_eq {v : Volume7} {stage : Stage7} {i : Fin 2}
    (h : v.stageIndex stage = .ok (i, slot))
    {request : WriteIdentity7 → UInt64 → List UInt8 → Request} (r : Request)
    (hr : finishRequest v staged stage request = some r) :
    r = request slot.identity slot.expectedVersion (staged i) := by
  rw [finishRequest, h] at hr
  exact (Option.some.inj hr).symm

theorem finishTracked_spec (h : Ready w staged) (stage : Stage7) {request : Request}
    (hrequest : ∀ r, finishRequest w.volume staged stage .replace = some r → r = request) :
    CallSpec (finishTracked stage) w staged request := by
  unfold finishTracked takeFinishable
  refine .getVolume (.lift h fun _ _ => ?_)
  simp only [bind_assoc, pure_bind]
  refine .getVolume ?_
  refine .lift h fun found hfound => ?_
  obtain ⟨i, slot⟩ := found
  obtain ⟨hi, -⟩ := stageIndex_spec hfound
  have hreq : Request.replace slot.identity slot.expectedVersion (staged i) = request := by
    apply hrequest
    rw [finishRequest, hfound]
  subst hreq
  refine .refuse h fun _ => ?_
  refine .of_world (v := w.setStage i none) rfl rfl (fun d => ?_)
    (finishTrackedSlot_spec (h.take hi))
  exact run_setStage_bind i none _ _

theorem replaceTracked_spec (h : Ready w staged) (identity : WriteIdentity7)
    (expectedVersion : UInt64) (bytes : List UInt8) :
    CallSpec (replaceTracked identity expectedVersion bytes) w staged
      (.replace identity expectedVersion bytes) := by
  unfold replaceTracked
  refine .getVolume (.lift h fun _ _ => .refuse h fun hsize =>
    .lift h fun slot hslot => ?_)
  have hopened := openSlot_spec h hslot
  obtain ⟨hidentity, hversion, hlength, -⟩ := hopened.request
  have hnat : (UInt32.ofNat bytes.length).toNat = bytes.length :=
    UInt32.toNat_ofNat_of_lt' (by show _ < 2 ^ 32; omega)
  obtain ⟨next, m, hpass, hheld, hcontents, hsame⟩ := writeSectors_passes
    (sectorsFor bytes.length) rfl hopened.held (by
      rw [hlength, hnat, List.length_nil, Nat.zero_add])
  refine .pass hpass hcontents ?_
  have hfinish := finishTrackedSlot_spec hheld
  rw [hsame.identity, hsame.expectedVersion, hidentity, hversion] at hfinish
  exact hfinish

end

end RusticOs.Fs
