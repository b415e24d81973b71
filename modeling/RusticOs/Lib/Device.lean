import RusticOs.Lib.Fallible

/-!
# `RusticOs.Lib.Device`: a block device that can lose power

A medium is what has reached stable storage together with the writes made since the last
flush, oldest first. Reads see every write (`Medium.view`). When power is lost, any subset
of the unflushed writes may have reached storage: the possible contents are
`Medium.Image`. Writes are atomic per sector, and a flush makes everything before it
durable.

A device answers each command with a `Reply`. A failed command may still have taken
effect. A polled command that has not settled is in flight: the device owns it, and it may
reach storage at any time (`Device.exposed`). Until it settles every other command is
refused.

The rules a proof uses:

* `Medium.Holds F img`: on the sectors `F` the medium durably holds `img`, whatever
  happens. Writes outside `F`, flushes and reads keep it (`Holds.after`), and every image
  after a power loss agrees with `img` on `F` (`Holds.image`).
* `Follows x cs a`: the computation `x` issues the commands `cs` in order and returns `a`,
  or stops at some prefix of them. It composes along binds and `List.mapM`.
* `Reads x f`: the computation `x` only reads, and its result is the pure function `f` of
  what it sees, or a device refusal.
* `Lockstep R x y`: on two devices that answer alike, `x` and `y` end the same way, and the
  values they return are related by `R`.
* `Medium.twoPhase_image`: the two-phase rule. Write outside `F`, flush, write one sector,
  flush: at every prefix, an image after a power loss agrees on `F` with the old contents
  or is the new contents.
-/

set_option autoImplicit false

namespace RusticOs.Lib

variable {ε β α γ : Type}

/-! ### Media -/

/-- One command a device serves. -/
inductive Command (β : Type) where
  | read (sector : Nat)
  | write (sector : Nat) (block : β)
  | flush
  deriving DecidableEq

/-- The sector write a command carries. -/
def Command.writes : Command β → List (Nat × β)
  | .read _ => []
  | .write s b => [(s, b)]
  | .flush => []

/-- The sector writes of a list of commands, in order. -/
def writesOf (cs : List (Command β)) : List (Nat × β) := cs.flatMap Command.writes

/-- Sector contents after a list of writes. -/
def applyWrites (img : Nat → β) (ws : List (Nat × β)) : Nat → β :=
  ws.foldl (fun img w => Function.update img w.1 w.2) img

/-- Stable contents and the writes made since the last flush, oldest first. -/
structure Medium (β : Type) where
  durable : Nat → β
  unflushed : List (Nat × β)

/-- What a read sees. -/
def Medium.view (m : Medium β) : Nat → β := applyWrites m.durable m.unflushed

/-- What a settled command does. -/
def Medium.effect (m : Medium β) : Command β → Medium β
  | .read _ => m
  | .write s b => { m with unflushed := m.unflushed ++ [(s, b)] }
  | .flush => { durable := m.view, unflushed := [] }

/-- The medium after a list of settled commands. -/
def Medium.after (m : Medium β) (cs : List (Command β)) : Medium β := cs.foldl Medium.effect m

/-- Contents a power loss may leave: the durable ones overwritten by some subset of the
unflushed writes. -/
def Medium.Image (m : Medium β) (img : Nat → β) : Prop :=
  ∃ kept, kept.Sublist m.unflushed ∧ img = applyWrites m.durable kept

/-- The writes a mask keeps, in order. -/
def keepWrites : List Bool → List (Nat × β) → List (Nat × β)
  | keep :: mask, w :: ws => if keep then w :: keepWrites mask ws else keepWrites mask ws
  | [], _ => []
  | _, [] => []

/-- The contents a power loss leaves when exactly the writes of a mask had reached
storage. -/
def Medium.cut (m : Medium β) (mask : List Bool) : Nat → β :=
  applyWrites m.durable (keepWrites mask m.unflushed)

/-- On `F` the medium durably holds `img`: stable storage does, and no unflushed write
touches `F`. -/
structure Medium.Holds (m : Medium β) (F : Set Nat) (img : Nat → β) : Prop where
  durable : ∀ s ∈ F, m.durable s = img s
  quiet : ∀ w ∈ m.unflushed, w.1 ∉ F

@[simp] theorem writesOf_nil : writesOf ([] : List (Command β)) = [] := rfl

@[simp] theorem writesOf_cons (c : Command β) (cs : List (Command β)) :
    writesOf (c :: cs) = c.writes ++ writesOf cs := by
  simp [writesOf]

@[simp] theorem writesOf_append (cs ds : List (Command β)) :
    writesOf (cs ++ ds) = writesOf cs ++ writesOf ds := by
  simp [writesOf]

theorem applyWrites_append (img : Nat → β) (ws vs : List (Nat × β)) :
    applyWrites img (ws ++ vs) = applyWrites (applyWrites img ws) vs := by
  simp [applyWrites]

@[simp] theorem applyWrites_nil (img : Nat → β) : applyWrites img [] = img := rfl

@[simp] theorem applyWrites_cons (img : Nat → β) (w : Nat × β) (ws : List (Nat × β)) :
    applyWrites img (w :: ws) = applyWrites (Function.update img w.1 w.2) ws := rfl

/-- A sector no write touches keeps its contents. -/
theorem applyWrites_of_not_mem {img : Nat → β} {ws : List (Nat × β)} {s : Nat}
    (h : ∀ w ∈ ws, w.1 ≠ s) : applyWrites img ws s = img s := by
  induction ws generalizing img with
  | nil => rfl
  | cons w ws ih =>
    rw [applyWrites_cons, ih fun v hv => h v (List.mem_cons_of_mem _ hv),
      Function.update_of_ne (h w List.mem_cons_self).symm]

/-- When every sector is written at most once, a written sector ends with its own
contents. -/
theorem applyWrites_of_mem {img : Nat → β} {ws : List (Nat × β)} {s : Nat} {b : β}
    (hnodup : (ws.map Prod.fst).Nodup) (h : (s, b) ∈ ws) : applyWrites img ws s = b := by
  induction ws generalizing img with
  | nil => cases h
  | cons w ws ih =>
    rw [List.map_cons, List.nodup_cons] at hnodup
    rw [applyWrites_cons]
    rcases List.mem_cons.mp h with rfl | h
    · rw [applyWrites_of_not_mem, Function.update_self]
      intro v hv hs
      exact hnodup.1 (List.mem_map.mpr ⟨v, hv, hs⟩)
    · exact ih hnodup.2 h

theorem keepWrites_sublist (mask : List Bool) (ws : List (Nat × β)) :
    (keepWrites mask ws).Sublist ws := by
  induction mask generalizing ws with
  | nil => simp [keepWrites]
  | cons keep mask ih =>
    cases ws with
    | nil => simp [keepWrites]
    | cons w ws =>
      rw [keepWrites]
      split
      · exact (ih ws).cons_cons w
      · exact (ih ws).cons w

theorem Medium.cut_image (m : Medium β) (mask : List Bool) : m.Image (m.cut mask) :=
  ⟨_, keepWrites_sublist mask m.unflushed, rfl⟩

theorem Medium.view_image (m : Medium β) : m.Image m.view :=
  ⟨m.unflushed, List.Sublist.refl _, rfl⟩

/-- With nothing unflushed, power loss leaves exactly the stable contents. -/
theorem Medium.image_settled {img img' : Nat → β}
    (h : Medium.Image ⟨img, []⟩ img') : img' = img := by
  obtain ⟨kept, hkept, rfl⟩ := h
  rw [List.sublist_nil.mp hkept, applyWrites_nil]

/-- With one unflushed write, power loss leaves the contents with or without it. -/
theorem Medium.image_single {img img' : Nat → β} {s : Nat} {b : β}
    (h : Medium.Image ⟨img, [(s, b)]⟩ img') :
    img' = img ∨ img' = Function.update img s b := by
  obtain ⟨kept, hkept, rfl⟩ := h
  rcases List.sublist_singleton.mp hkept with rfl | rfl
  · exact Or.inl rfl
  · exact Or.inr rfl

@[simp] theorem Medium.after_nil (m : Medium β) : m.after [] = m := rfl

@[simp] theorem Medium.after_cons (m : Medium β) (c : Command β) (cs : List (Command β)) :
    m.after (c :: cs) = (m.effect c).after cs := rfl

theorem Medium.after_append (m : Medium β) (cs ds : List (Command β)) :
    m.after (cs ++ ds) = (m.after cs).after ds := by
  simp [Medium.after]

theorem Medium.view_effect (m : Medium β) (c : Command β) :
    (m.effect c).view = applyWrites m.view c.writes := by
  cases c with
  | read s => rfl
  | write s b =>
    simp only [Medium.effect, Medium.view, Command.writes]
    rw [applyWrites_append]
  | flush => rfl

/-- Reads after a list of commands see its writes over what they saw before. -/
theorem Medium.view_after (m : Medium β) (cs : List (Command β)) :
    (m.after cs).view = applyWrites m.view (writesOf cs) := by
  induction cs generalizing m with
  | nil => rfl
  | cons c cs ih =>
    rw [Medium.after_cons, ih, Medium.view_effect, writesOf_cons, applyWrites_append]

/-- After a flush everything seen is stable. -/
theorem Medium.after_flush (m : Medium β) (cs : List (Command β)) :
    m.after (cs ++ [.flush]) = ⟨applyWrites m.view (writesOf cs), []⟩ := by
  rw [Medium.after_append, Medium.after_cons, Medium.after_nil, Medium.effect, Medium.view_after]

namespace Medium.Holds

variable {m : Medium β} {F G : Set Nat} {img img' : Nat → β}

theorem congr (h : m.Holds F img) (himg : ∀ s ∈ F, img s = img' s) : m.Holds F img' :=
  ⟨fun s hs => (h.durable s hs).trans (himg s hs), h.quiet⟩

/-- Every image after a power loss agrees with the held contents. -/
theorem image (h : m.Holds F img) (himg : m.Image img') {s : Nat} (hs : s ∈ F) :
    img' s = img s := by
  obtain ⟨kept, hkept, rfl⟩ := himg
  rw [applyWrites_of_not_mem, h.durable s hs]
  intro w hw hws
  exact h.quiet w (hkept.subset hw) (hws ▸ hs)

theorem view (h : m.Holds F img) {s : Nat} (hs : s ∈ F) : m.view s = img s :=
  h.image m.view_image hs

theorem effect (h : m.Holds F img) {c : Command β} (hc : ∀ w ∈ c.writes, w.1 ∉ F) :
    (m.effect c).Holds F img := by
  cases c with
  | read s => exact h
  | write s b =>
    refine ⟨h.durable, fun w hw => ?_⟩
    simp only [Medium.effect, List.mem_append, List.mem_singleton] at hw
    rcases hw with hw | rfl
    · exact h.quiet w hw
    · exact hc (s, b) List.mem_cons_self
  | flush => exact ⟨fun s hs => h.view hs, nofun⟩

/-- Commands that write outside `F` keep what `F` holds. -/
theorem after (h : m.Holds F img) {cs : List (Command β)} (hcs : ∀ w ∈ writesOf cs, w.1 ∉ F) :
    (m.after cs).Holds F img := by
  induction cs generalizing m with
  | nil => exact h
  | cons c cs ih =>
    rw [writesOf_cons] at hcs
    exact ih (h.effect fun w hw => hcs w (List.mem_append_left _ hw))
      fun w hw => hcs w (List.mem_append_right _ hw)

end Medium.Holds

/-- A settled medium holds its contents everywhere. -/
theorem Medium.holds_settled (img : Nat → β) (F : Set Nat) : Medium.Holds ⟨img, []⟩ F img :=
  ⟨fun _ _ => rfl, nofun⟩

/-! ### The two-phase rule -/

/-- Write `pre` elsewhere, flush, write the one sector `h`, flush. -/
def twoPhase (pre : List (Command β)) (h : Nat) (b : β) : List (Command β) :=
  pre ++ [.flush, .write h b, .flush]

@[simp] theorem length_twoPhase (pre : List (Command β)) (h : Nat) (b : β) :
    (twoPhase pre h b).length = pre.length + 3 := by
  simp [twoPhase]

variable {pre : List (Command β)} {h : Nat} {b : β} {k : Nat}

/-- The commands up to and including the first flush of the second phase. -/
theorem take_twoPhase_of_le (hk : k ≤ pre.length + 1) :
    (twoPhase pre h b).take k = (pre ++ [Command.flush]).take k := by
  rw [twoPhase, show pre ++ [Command.flush, .write h b, .flush]
      = (pre ++ [Command.flush]) ++ [.write h b, .flush] by simp,
    List.take_append_of_le_length (by simpa using hk)]

theorem Medium.after_twoPhase_second (m : Medium β) :
    m.after ((twoPhase pre h b).take (pre.length + 2))
      = ⟨applyWrites m.view (writesOf pre), [(h, b)]⟩ := by
  rw [twoPhase, show pre ++ [Command.flush, .write h b, .flush]
      = (pre ++ [Command.flush, .write h b]) ++ [Command.flush] by simp,
    List.take_append_of_le_length (by simp), List.take_of_length_le (by simp),
    show pre ++ [Command.flush, .write h b]
      = (pre ++ [Command.flush]) ++ [Command.write h b] by simp,
    Medium.after_append, Medium.after_flush]
  rfl

/-- All of the commands settled: the new contents, with nothing unflushed. -/
theorem Medium.after_twoPhase (m : Medium β) :
    m.after (twoPhase pre h b)
      = ⟨Function.update (applyWrites m.view (writesOf pre)) h b, []⟩ := by
  rw [twoPhase, show pre ++ [Command.flush, .write h b, .flush]
      = (pre ++ [Command.flush, .write h b]) ++ [Command.flush] by simp, Medium.after_flush]
  simp [Command.writes, applyWrites_append]

/-- Before the header of the second phase is written, the old contents are held. -/
theorem Medium.Holds.twoPhase {m : Medium β} {F : Set Nat} {img : Nat → β} (hold : m.Holds F img)
    (hpre : ∀ w ∈ writesOf pre, w.1 ∉ F) (hk : k ≤ pre.length + 1) :
    (m.after ((twoPhase pre h b).take k)).Holds F img := by
  rw [take_twoPhase_of_le hk]
  apply hold.after
  intro w hw
  apply hpre w
  obtain ⟨c, hc, hwc⟩ := List.mem_flatMap.mp hw
  rcases List.mem_append.mp (List.mem_of_mem_take hc) with hc | hc
  · exact List.mem_flatMap.mpr ⟨c, hc, hwc⟩
  · rw [List.mem_singleton.mp hc] at hwc
    cases hwc

/-- The two-phase rule: a power loss after any prefix of the commands leaves contents that
agree with the old ones on `F`, or exactly the new contents. -/
theorem Medium.twoPhase_image {m : Medium β} {F : Set Nat} {img img' : Nat → β}
    (hold : m.Holds F img) (hpre : ∀ w ∈ writesOf pre, w.1 ∉ F)
    (himg : (m.after ((twoPhase pre h b).take k)).Image img') :
    (∀ s ∈ F, img' s = img s) ∨
      (pre.length + 2 ≤ k ∧ img' = Function.update (applyWrites m.view (writesOf pre)) h b) := by
  by_cases hk : k ≤ pre.length + 1
  · exact Or.inl fun s hs => (hold.twoPhase hpre hk).image himg hs
  · have hfirst : ∀ s ∈ F, applyWrites m.view (writesOf pre) s = img s := fun s hs => by
      rw [applyWrites_of_not_mem fun w hw hws => hpre w hw (hws ▸ hs), hold.view hs]
    by_cases hk2 : k = pre.length + 2
    · rw [hk2, Medium.after_twoPhase_second] at himg
      rcases Medium.image_single himg with rfl | rfl
      · exact Or.inl hfirst
      · exact Or.inr ⟨by omega, rfl⟩
    · rw [List.take_of_length_le (by simp; omega), Medium.after_twoPhase] at himg
      exact Or.inr ⟨by omega, Medium.image_settled himg⟩

/-! ### Devices -/

/-- How a device answers one command. A failed command may still have taken effect. -/
inductive Reply (ε : Type) where
  | done
  | failed (error : ε) (applied : Bool)

/-- The result of polling a command. -/
inductive Poll (α : Type) where
  | pending
  | ready (value : α)

/-- A device: its medium, the polled command it has accepted and not settled, its answers
to the coming commands, the refusal it gives while a command is outstanding, and the
commands submitted to it so far. -/
structure Device (ε β : Type) where
  medium : Medium β
  inflight : Option (Command β)
  replies : Nat → Reply ε
  refusal : ε
  log : List (Command β)

namespace Device

/-- The medium with the outstanding write counted as unflushed: it may reach storage. -/
def exposed (d : Device ε β) : Medium β :=
  { d.medium with
    unflushed := d.medium.unflushed ++ (d.inflight.map Command.writes).getD [] }

/-- Contents a power loss may leave. -/
def Image (d : Device ε β) (img : Nat → β) : Prop := d.exposed.Image img

/-- Explicit recovery of an outstanding command: it took effect or it did not. -/
def resolve (d : Device ε β) (applied : Bool) : Device ε β :=
  { d with
    medium := match d.inflight with
      | some c => if applied then d.medium.effect c else d.medium
      | none => d.medium
    inflight := none }

/-- The device answers every command, and none is outstanding. -/
def AllDone (d : Device ε β) : Prop := d.inflight = none ∧ ∀ n, d.replies n = .done

/-- The answer to the next command settles it. -/
def settle (c : Command β) (d : Device ε β) : Except ε Unit × Device ε β :=
  let next := { d with inflight := none, replies := fun n => d.replies (n + 1) }
  match d.replies 0 with
  | .done => (.ok (), { next with medium := d.medium.effect c })
  | .failed e applied =>
    (.error e, if applied then { next with medium := d.medium.effect c } else next)

/-- Serve one command synchronously. -/
def execute (c : Command β) : Fallible ε (Device ε β) Unit :=
  ⟨fun d =>
    match d.inflight with
    | some _ => (.error d.refusal, d)
    | none => settle c { d with log := d.log ++ [c] }⟩

/-- Read one sector. -/
def readSector (s : Nat) : Fallible ε (Device ε β) β :=
  ⟨fun d =>
    match (execute (.read s)).run d with
    | (.ok _, d') => (.ok (d.medium.view s), d')
    | (.error e, d') => (.error e, d')⟩

/-- Write one sector. -/
def writeSector (s : Nat) (b : β) : Fallible ε (Device ε β) Unit := execute (.write s b)

/-- Make every earlier write durable. -/
def flush : Fallible ε (Device ε β) Unit := execute .flush

/-- Submit a command, or poll the outstanding one. `settled` says whether it settles in
this call. -/
def pollCommand [DecidableEq β] (settled : Bool) (c : Command β) (d : Device ε β) :
    Poll (Except ε Unit) × Device ε β :=
  let submitted := match d.inflight with
    | some _ => d
    | none => { d with inflight := some c, log := d.log ++ [c] }
  if submitted.inflight ≠ some c then (.ready (.error d.refusal), d)
  else if settled then
    match settle c submitted with
    | (r, d') => (.ready r, d')
  else (.pending, submitted)

variable {d : Device ε β} {c : Command β} {img : Nat → β}

theorem run_execute_of_some {c' : Command β} (h : d.inflight = some c') :
    (execute c).run d = (.error d.refusal, d) := by
  simp only [execute, h]

theorem run_execute_of_done (h : d.inflight = none) (hr : d.replies 0 = .done) :
    (execute c).run d = (.ok (), { d with
      medium := d.medium.effect c
      replies := fun n => d.replies (n + 1)
      log := d.log ++ [c] }) := by
  simp only [execute, h, settle, hr]

theorem run_execute_of_failed {e : ε} {applied : Bool} (h : d.inflight = none)
    (hr : d.replies 0 = .failed e applied) :
    (execute c).run d = (.error e, { d with
      medium := if applied then d.medium.effect c else d.medium
      replies := fun n => d.replies (n + 1)
      log := d.log ++ [c] }) := by
  simp only [execute, h, settle, hr]
  cases applied <;> rfl

theorem image_of_inflight_none (h : d.inflight = none) : d.Image img ↔ d.medium.Image img := by
  simp [Image, exposed, h]

theorem view_image (d : Device ε β) : d.Image d.medium.view :=
  ⟨d.medium.unflushed, List.sublist_append_left _ _, rfl⟩

/-- An image that ignores the outstanding write. -/
theorem image_of_medium (h : d.medium.Image img) : d.Image img := by
  obtain ⟨kept, hkept, rfl⟩ := h
  exact ⟨kept, hkept.trans (List.sublist_append_left _ _), rfl⟩

/-- The images of an outstanding command are those before it or after it. -/
theorem image_of_inflight (h : d.inflight = some c) (himg : d.Image img) :
    d.medium.Image img ∨ (d.medium.effect c).Image img := by
  rw [Image, exposed, h] at himg
  cases c with
  | read s | flush => exact Or.inl (by simpa [Command.writes] using himg)
  | write s b => exact Or.inr himg

/-- What a power cut leaves was a possible image. -/
theorem image_of_powerCut (d : Device ε β) (mask : List Bool)
    (h : Medium.Image ⟨d.exposed.cut mask, []⟩ img) : d.Image img := by
  rw [Medium.image_settled h]
  exact d.exposed.cut_image mask

/-- Recovering an outstanding command leaves fewer images. -/
theorem image_of_resolve {applied : Bool} (h : (d.resolve applied).Image img) : d.Image img := by
  have hmedium : (d.resolve applied).medium.Image img := (image_of_inflight_none rfl).mp h
  cases hin : d.inflight with
  | none =>
    rw [resolve, hin] at hmedium
    exact image_of_medium hmedium
  | some c =>
    rw [resolve, hin] at hmedium
    cases applied with
    | false => exact image_of_medium hmedium
    | true =>
      rw [Image, exposed, hin]
      cases c with
      | read s => simpa [Command.writes, Medium.effect] using hmedium
      | write s b => exact hmedium
      | flush =>
        obtain rfl := Medium.image_settled hmedium
        exact ⟨d.medium.unflushed, List.sublist_append_left _ _, rfl⟩

/-- The same device with other answers to the coming commands. -/
def withReplies (d : Device ε β) (replies : Nat → Reply ε) : Device ε β := { d with replies }

end Device

/-- A flush leaves fewer images. -/
theorem Medium.image_of_flush {m : Medium β} {img : Nat → β} (h : (m.effect .flush).Image img) :
    m.Image img := by
  rw [Medium.image_settled h]
  exact m.view_image

/-! ### Polled commands -/

/-- The log once a command is submitted: polling an outstanding one again adds nothing. -/
def Device.submitted (d : Device ε β) (c : Command β) : List (Command β) :=
  if d.inflight.isSome then d.log else d.log ++ [c]

/-- The ways a poll of a command can end. -/
inductive Polled (c : Command β) (d : Device ε β) :
    Poll (Except ε Unit) × Device ε β → Prop where
  | pending (d' : Device ε β) (medium : d'.medium = d.medium) (inflight : d'.inflight = some c)
      (log : d'.log = d.submitted c) : Polled c d (.pending, d')
  | settled (d' : Device ε β) (medium : d'.medium = d.medium.effect c)
      (inflight : d'.inflight = none) (log : d'.log = d.submitted c) :
      Polled c d (.ready (.ok ()), d')
  | failed (e : ε) (d' : Device ε β)
      (medium : d'.medium = d.medium ∨ d'.medium = d.medium.effect c)
      (inflight : d'.inflight = none) (log : d'.log = d.submitted c) :
      Polled c d (.ready (.error e), d')

/-- A command is polled when no other one is outstanding. -/
theorem Device.pollCommand_polled [DecidableEq β] {d : Device ε β} {c : Command β}
    (h : d.inflight = none ∨ d.inflight = some c) (settled : Bool) :
    Polled c d (Device.pollCommand settled c d) := by
  have hsubmitted : ∃ d' : Device ε β, (match d.inflight with
      | some _ => d
      | none => { d with inflight := some c, log := d.log ++ [c] }) = d'
      ∧ d'.medium = d.medium ∧ d'.inflight = some c ∧ d'.log = d.submitted c := by
    rcases h with h | h
    · exact ⟨_, rfl, by rw [h], by rw [h], by rw [h, Device.submitted, h]; rfl⟩
    · exact ⟨_, rfl, by rw [h], by rw [h]; exact h, by rw [h, Device.submitted, h]; rfl⟩
  obtain ⟨d', hd', hm, hi, hl⟩ := hsubmitted
  simp only [Device.pollCommand, hd', hi, ne_eq, not_true_eq_false, if_false]
  cases settled with
  | false => exact .pending d' hm hi hl
  | true =>
    simp only [if_true, Device.settle]
    cases hr : d'.replies 0 with
    | done => exact .settled _ (by rw [← hm]) rfl hl
    | failed e applied =>
      cases applied with
      | false => exact .failed e _ (Or.inl hm) rfl hl
      | true => exact .failed e _ (Or.inr (by rw [← hm]; rfl)) rfl hl

/-- The device once it has answered `c`. -/
def Device.answered (d : Device ε β) (c : Command β) : Device ε β :=
  { d with
    medium := d.medium.effect c
    replies := fun n => d.replies (n + 1)
    log := d.log ++ [c] }

/-- The device answers the next `n` commands, and none is outstanding. -/
structure Device.Answers (d : Device ε β) (n : Nat) : Prop where
  idle : d.inflight = none
  done : ∀ i < n, d.replies i = .done

section
variable {d : Device ε β} {n : Nat}

theorem Device.Answers.mono (h : d.Answers n) {m : Nat} (hm : m ≤ n) : d.Answers m :=
  ⟨h.idle, fun i hi => h.done i (by omega)⟩

theorem Device.Answers.answered (h : d.Answers (n + 1)) (c : Command β) :
    (d.answered c).Answers n :=
  ⟨h.idle, fun i hi => h.done (i + 1) (by omega)⟩

theorem Device.Answers.execute (h : d.Answers (n + 1)) (c : Command β) :
    (Device.execute c).run d = (.ok (), d.answered c) :=
  Device.run_execute_of_done h.idle (h.done 0 (by omega))

theorem Device.Answers.pollCommand [DecidableEq β] (h : d.Answers (n + 1)) (c : Command β) :
    Device.pollCommand true c d = (.ready (.ok ()), d.answered c) := by
  simp only [Device.pollCommand, h.idle, ne_eq, not_true_eq_false, if_false, if_true,
    Device.settle, h.done 0 (by omega), Device.answered]

/-- The device after answering a list of commands. -/
def Device.ran (d : Device ε β) (cs : List (Command β)) : Device ε β := cs.foldl Device.answered d

theorem Device.ran_concat (d : Device ε β) (cs : List (Command β)) (c : Command β) :
    d.ran (cs ++ [c]) = (d.ran cs).answered c := by
  rw [Device.ran, List.foldl_append]
  rfl

theorem Device.Answers.ran {cs : List (Command β)} (h : d.Answers (cs.length + n)) :
    (d.ran cs).Answers n := by
  induction cs generalizing d with
  | nil =>
    rw [List.length_nil, Nat.zero_add] at h
    exact h
  | cons c cs ih =>
    rw [List.length_cons, Nat.add_right_comm] at h
    exact ih (h.answered c)

end

/-! ### Computations that follow a command list -/

/-- The ways a run of the commands `cs` from `d` can end: all of them settled and `a`
returned, or a refusal after the effects of some prefix. -/
inductive Ran (cs : List (Command β)) (a : α) (d : Device ε β) :
    Except ε α × Device ε β → Prop where
  | finished (d' : Device ε β) (medium : d'.medium = d.medium.after cs)
      (inflight : d'.inflight = d.inflight) (log : d'.log = d.log ++ cs)
      (idle : cs ≠ [] → d.inflight = none) : Ran cs a d (.ok a, d')
  | stopped (e : ε) (d' : Device ε β) (k j : Nat) (hk : k ≤ cs.length)
      (medium : d'.medium = d.medium.after (cs.take k)) (inflight : d'.inflight = d.inflight)
      (log : d'.log = d.log ++ cs.take j) : Ran cs a d (.error e, d')

/-- `x` issues the commands `cs` in order and returns `a`, or stops at a refusal. On a
device that answers everything it returns `a`. -/
def Follows (x : Fallible ε (Device ε β) α) (cs : List (Command β)) (a : α) : Prop :=
  ∀ d, Ran cs a d (x.run d) ∧ (d.AllDone → ∃ d', x.run d = (.ok a, d') ∧ d'.AllDone)

theorem Follows.execute (c : Command β) : Follows (Device.execute (ε := ε) c) [c] () := by
  intro d
  cases hin : d.inflight with
  | some c' =>
    rw [Device.run_execute_of_some hin]
    refine ⟨.stopped _ d 0 0 (by simp) rfl rfl (by simp), fun h => ?_⟩
    rw [h.1] at hin
    cases hin
  | none =>
    cases hr : d.replies 0 with
    | done =>
      rw [Device.run_execute_of_done hin hr]
      exact ⟨.finished _ rfl rfl rfl fun _ => hin, fun h => ⟨_, rfl, h.1, fun n => h.2 (n + 1)⟩⟩
    | failed e applied =>
      rw [Device.run_execute_of_failed hin hr]
      refine ⟨?_, fun h => by rw [h.2 0] at hr; cases hr⟩
      cases applied with
      | false => exact .stopped _ _ 0 1 (by simp) rfl rfl rfl
      | true => exact .stopped _ _ 1 1 (by simp) rfl rfl rfl

theorem Follows.write (s : Nat) (b : β) :
    Follows (Device.writeSector (ε := ε) s b) [.write s b] () := Follows.execute _

theorem Follows.flush : Follows (Device.flush (ε := ε) (β := β)) [.flush] () :=
  Follows.execute _

theorem Follows.lift (a : α) :
    Follows (Fallible.lift (.ok a) : Fallible ε (Device ε β) α) [] a := fun d =>
  ⟨.finished d rfl rfl (by simp) fun h => absurd rfl h, fun h => ⟨d, rfl, h⟩⟩

theorem Follows.pure (a : α) : Follows (pure a : Fallible ε (Device ε β) α) [] a :=
  Follows.lift a

variable {x : Fallible ε (Device ε β) α}

theorem Follows.mapError {cs : List (Command β)} {a : α} (hx : Follows x cs a) (f : ε → ε) :
    Follows (x.mapError f) cs a := by
  intro d
  obtain ⟨hran, hdone⟩ := hx d
  rw [Fallible.run_mapError]
  constructor
  · generalize x.run d = r at hran
    cases hran with
    | finished d' m i l n => exact .finished d' m i l n
    | stopped e d' k j hk m i l => exact .stopped (f e) d' k j hk m i l
  · intro h
    obtain ⟨d', hd', hall⟩ := hdone h
    rw [hd']
    exact ⟨d', rfl, hall⟩

/-- Sequencing: the second computation's commands follow the first one's. -/
theorem Follows.bind {f : α → Fallible ε (Device ε β) γ} {cs ds : List (Command β)} {a : α} {c : γ}
    (hx : Follows x cs a) (hf : Follows (f a) ds c) : Follows (x >>= f) (cs ++ ds) c := by
  intro d
  obtain ⟨hran, hdone⟩ := hx d
  rw [Fallible.run_bind]
  constructor
  · generalize x.run d = r at hran
    cases hran with
    | finished d' m i l n =>
      obtain ⟨hran2, -⟩ := hf d'
      show Ran (cs ++ ds) c d ((f a).run d')
      generalize (f a).run d' = r2 at hran2
      cases hran2 with
      | finished d'' m2 i2 l2 n2 =>
        refine .finished d'' ?_ (i2.trans i) ?_ fun hne => ?_
        · rw [m2, m, Medium.after_append]
        · rw [l2, l, List.append_assoc]
        · by_cases hcs : cs = []
          · rw [← i]
            exact n2 fun hds => hne (by rw [hcs, hds]; rfl)
          · exact n hcs
      | stopped e d'' k j hk m2 i2 l2 =>
        refine .stopped e d'' (cs.length + k) (cs.length + j) ?_ ?_ (i2.trans i) ?_
        · rw [List.length_append]
          omega
        · rw [m2, m, List.take_length_add_append, Medium.after_append]
        · rw [l2, l, List.take_length_add_append, List.append_assoc]
    | stopped e d' k j hk m i l =>
      refine .stopped e d' k (min j cs.length) ?_ ?_ i ?_
      · rw [List.length_append]
        omega
      · rw [m, List.take_append_of_le_length hk]
      · rw [l, List.take_append_of_le_length (Nat.min_le_right _ _)]
        by_cases hj : j ≤ cs.length
        · rw [Nat.min_eq_left hj]
        · rw [Nat.min_eq_right (by omega), List.take_of_length_le (by omega), List.take_length]
  · intro h
    obtain ⟨d', hd', hall⟩ := hdone h
    rw [hd']
    exact (hf d').2 hall

/-- A loop issues the commands of its rounds one after another. -/
theorem Follows.mapM {f : α → Fallible ε (Device ε β) γ} {cs : α → List (Command β)} {v : α → γ}
    {l : List α} (h : ∀ a ∈ l, Follows (f a) (cs a) (v a)) :
    Follows (l.mapM f) (l.flatMap cs) (l.map v) := by
  induction l with
  | nil => exact Follows.pure []
  | cons a l ih =>
    rw [List.mapM_cons, List.flatMap_cons, List.map_cons]
    refine (h a List.mem_cons_self).bind ?_
    have htail := ih fun b hb => h b (List.mem_cons_of_mem _ hb)
    have hend := htail.bind (f := fun bs => Pure.pure (v a :: bs))
      (Follows.pure (v a :: l.map v))
    rwa [List.append_nil] at hend

/-! ### Computations that only read -/

/-- `x` only reads: it changes nothing but the device's answers and log, and its result is
the function `f` of what reads see, or a refusal of the device. -/
def Reads (x : Fallible ε (Device ε β) α) (f : (Nat → β) → Except ε α) : Prop :=
  ∀ d, (x.run d).2.medium = d.medium ∧ (x.run d).2.inflight = d.inflight ∧
    (∃ cs, (x.run d).2.log = d.log ++ cs ∧ ∀ c ∈ cs, ∃ s, c = .read s) ∧
    ((x.run d).1 = f d.medium.view ∨ ∃ e, (x.run d).1 = .error e) ∧
    (d.AllDone → (x.run d).1 = f d.medium.view ∧ (x.run d).2.AllDone)

theorem Reads.lift (r : Except ε α) :
    Reads (Fallible.lift r : Fallible ε (Device ε β) α) fun _ => r := fun _ =>
  ⟨rfl, rfl, ⟨[], by simp, by simp⟩, Or.inl rfl, fun h => ⟨rfl, h⟩⟩

theorem Reads.pure (a : α) :
    Reads (pure a : Fallible ε (Device ε β) α) fun _ => .ok a := Reads.lift (.ok a)

theorem Reads.refuse (c : Prop) [Decidable c] (e : ε) :
    Reads (Fallible.refuse c e : Fallible ε (Device ε β) Unit) fun _ => reject c e := by
  rw [Fallible.refuse_eq_lift]
  exact Reads.lift _

theorem Reads.congr {f g : (Nat → β) → Except ε α} (h : Reads x f) (hfg : ∀ img, f img = g img) :
    Reads x g := by
  have : f = g := funext hfg
  exact this ▸ h

theorem Reads.read (s : Nat) :
    Reads (Device.readSector (ε := ε) (β := β) s) fun img => .ok (img s) := by
  intro d
  simp only [Device.readSector]
  cases hin : d.inflight with
  | some c =>
    rw [Device.run_execute_of_some hin]
    refine ⟨rfl, hin, ⟨[], by simp, by simp⟩, Or.inr ⟨_, rfl⟩, fun h => ?_⟩
    rw [h.1] at hin
    cases hin
  | none =>
    cases hr : d.replies 0 with
    | done =>
      rw [Device.run_execute_of_done hin hr]
      exact ⟨rfl, hin, ⟨[.read s], rfl, by simp⟩, Or.inl rfl,
        fun h => ⟨rfl, h.1, fun n => h.2 (n + 1)⟩⟩
    | failed e applied =>
      rw [Device.run_execute_of_failed hin hr]
      refine ⟨?_, hin, ⟨[.read s], rfl, by simp⟩, Or.inr ⟨e, rfl⟩, fun h => ?_⟩
      · cases applied <;> rfl
      · rw [h.2 0] at hr
        cases hr

theorem Reads.bind {g : α → Fallible ε (Device ε β) γ} {f : (Nat → β) → Except ε α}
    {h : α → (Nat → β) → Except ε γ} (hx : Reads x f) (hg : ∀ a, Reads (g a) (h a)) :
    Reads (x >>= g) fun img => f img >>= fun a => h a img := by
  intro d
  obtain ⟨hm, hi, ⟨cs, hl, hcs⟩, hres, hall⟩ := hx d
  rw [Fallible.run_bind]
  rcases hxd : x.run d with ⟨r, d'⟩
  rw [hxd] at hm hi hl hres hall
  dsimp only at hm hi hl hres hall
  cases r with
  | error e =>
    refine ⟨hm, hi, ⟨cs, hl, hcs⟩, Or.inr ⟨e, rfl⟩, fun hd => ?_⟩
    obtain ⟨hf, hd'⟩ := hall hd
    simp only [← hf]
    exact ⟨rfl, hd'⟩
  | ok a =>
    obtain ⟨hm2, hi2, ⟨ds, hl2, hds⟩, hres2, hall2⟩ := hg a d'
    have hf : f d.medium.view = .ok a := by
      rcases hres with h | ⟨e, he⟩
      · exact h.symm
      · cases he
    refine ⟨hm2.trans hm, hi2.trans hi, ⟨cs ++ ds, ?_, ?_⟩, ?_, fun hd => ?_⟩
    · rw [hl2, hl, List.append_assoc]
    · intro c hc
      rcases List.mem_append.mp hc with hc | hc
      · exact hcs c hc
      · exact hds c hc
    · rw [hm] at hres2
      simp only [hf]
      exact hres2
    · have h2 := hall2 (hall hd).2
      rw [hm] at h2
      simp only [hf]
      exact h2

theorem Reads.mapM {g : α → Fallible ε (Device ε β) γ} {h : α → (Nat → β) → Except ε γ}
    (hg : ∀ a, Reads (g a) (h a)) (l : List α) :
    Reads (l.mapM g) fun img => l.mapM fun a => h a img := by
  induction l with
  | nil =>
    simp only [List.mapM_nil]
    exact Reads.pure []
  | cons a l ih =>
    simp only [List.mapM_cons]
    exact (hg a).bind fun b => ih.bind fun bs => Reads.pure (b :: bs)

/-! ### Two runs -/

/-- Two devices that show `img` and `img'` and answer every coming command alike. -/
structure Device.Alike (img img' : Nat → β) (d d' : Device ε β) : Prop where
  left : d.medium.view = img
  right : d'.medium.view = img'
  replies : d.replies = d'.replies
  refusal : d.refusal = d'.refusal
  busy : d.inflight = none ↔ d'.inflight = none

/-- Two results of one kind: related values, or the same refusal. -/
inductive SameEnd (R : α → γ → Prop) : Except ε α → Except ε γ → Prop where
  | ok {a : α} {c : γ} (related : R a c) : SameEnd R (.ok a) (.ok c)
  | error (e : ε) : SameEnd R (.error e) (.error e)

/-- On devices that answer alike, `x` and `y` end alike and leave devices that answer
alike. -/
def Lockstep (img img' : Nat → β) (R : α → γ → Prop) (x : Fallible ε (Device ε β) α)
    (y : Fallible ε (Device ε β) γ) : Prop :=
  ∀ d d', Device.Alike img img' d d' →
    SameEnd R (x.run d).1 (y.run d').1 ∧ Device.Alike img img' (x.run d).2 (y.run d').2

theorem SameEnd.eq {r r' : Except ε α} (h : SameEnd (· = ·) r r') : r = r' := by
  cases h with
  | ok related => rw [related]
  | error e => rfl

section
variable {img img' : Nat → β} {R : α → γ → Prop}

theorem SameEnd.mono {S : α → γ → Prop} {r : Except ε α} {r' : Except ε γ}
    (h : SameEnd R r r') (hRS : ∀ a c, R a c → S a c) : SameEnd S r r' := by
  cases h with
  | ok related => exact .ok (hRS _ _ related)
  | error e => exact .error e

variable {x : Fallible ε (Device ε β) α} {y : Fallible ε (Device ε β) γ}

theorem Lockstep.mono {S : α → γ → Prop} (h : Lockstep img img' R x y)
    (hRS : ∀ a c, R a c → S a c) : Lockstep img img' S x y :=
  fun d d' hd => ⟨(h d d' hd).1.mono hRS, (h d d' hd).2⟩

theorem Lockstep.pure {a : α} {c : γ} (h : R a c) :
    Lockstep img img' R (pure a : Fallible ε (Device ε β) α) (pure c) :=
  fun _ _ hd => ⟨.ok h, hd⟩

theorem Lockstep.fail (e : ε) :
    Lockstep img img' R (Fallible.fail e : Fallible ε (Device ε β) α) (Fallible.fail e) :=
  fun _ _ hd => ⟨.error e, hd⟩

theorem Lockstep.read (s : Nat) :
    Lockstep img img' (fun _ _ => True) (Device.readSector (ε := ε) s)
      (Device.readSector s) := by
  intro d d' hd
  simp only [Device.readSector]
  cases hin : d.inflight with
  | some c =>
    -- both devices refuse
    cases hin' : d'.inflight with
    | none => exact nomatch hin.symm.trans (hd.busy.mpr hin')
    | some c' =>
      rw [Device.run_execute_of_some hin, Device.run_execute_of_some hin', hd.refusal]
      exact ⟨.error _, hd⟩
  | none =>
    have hin' := hd.busy.mp hin
    cases hr : d.replies 0 with
    | done =>
      rw [Device.run_execute_of_done hin hr, Device.run_execute_of_done hin' (hd.replies ▸ hr)]
      exact ⟨.ok trivial, hd.left, hd.right, by simp only [hd.replies], hd.refusal, hd.busy⟩
    | failed e applied =>
      rw [Device.run_execute_of_failed hin hr,
        Device.run_execute_of_failed hin' (hd.replies ▸ hr)]
      refine ⟨.error e, ?_⟩
      cases applied <;>
        exact ⟨hd.left, hd.right, by simp only [hd.replies], hd.refusal, hd.busy⟩

theorem Lockstep.bind {α' γ' : Type} {S : α' → γ' → Prop} {f : α → Fallible ε (Device ε β) α'}
    {g : γ → Fallible ε (Device ε β) γ'} (hx : Lockstep img img' R x y)
    (hf : ∀ a c, R a c → Lockstep img img' S (f a) (g c)) :
    Lockstep img img' S (x >>= f) (y >>= g) := by
  intro d d' hd
  obtain ⟨hend, hnext⟩ := hx d d' hd
  rw [Fallible.run_bind, Fallible.run_bind]
  rcases hxd : x.run d with ⟨r, e⟩
  rcases hyd : y.run d' with ⟨r', e'⟩
  rw [hxd, hyd] at hend hnext
  cases hend with
  | ok related => exact hf _ _ related _ _ hnext
  | error err => exact ⟨.error err, hnext⟩

theorem Lockstep.refuse {c c' : Prop} [Decidable c] [Decidable c'] (h : c ↔ c') (e : ε) :
    Lockstep img img' (fun _ _ => True) (Fallible.refuse c e : Fallible ε (Device ε β) Unit)
      (Fallible.refuse c' e) := by
  unfold Fallible.refuse
  by_cases hc : c
  · rw [if_pos hc, if_pos (h.mp hc)]
    exact Lockstep.fail e
  · rw [if_neg hc, if_neg (mt h.mpr hc)]
    exact Lockstep.pure trivial

/-- Two reads that end alike return what each device shows. -/
theorem Lockstep.reads {f : (Nat → β) → Except ε α} {g : (Nat → β) → Except ε γ}
    (h : Lockstep img img' R x y) (hx : Reads x f) (hy : Reads y g) :
    Lockstep img img' (fun a c => f img = .ok a ∧ g img' = .ok c) x y := by
  intro d d' hd
  obtain ⟨hend, hnext⟩ := h d d' hd
  obtain ⟨-, -, -, hf, -⟩ := hx d
  obtain ⟨-, -, -, hg, -⟩ := hy d'
  rw [hd.left] at hf
  rw [hd.right] at hg
  refine ⟨?_, hnext⟩
  generalize (x.run d).1 = r at hend hf
  generalize (y.run d').1 = r' at hend hg
  cases hend with
  | error e => exact .error e
  | ok related =>
    refine .ok ⟨?_, ?_⟩
    · rcases hf with hf | ⟨e, he⟩
      · exact hf.symm
      · cases he
    · rcases hg with hg | ⟨e, he⟩
      · exact hg.symm
      · cases he

end

end RusticOs.Lib
