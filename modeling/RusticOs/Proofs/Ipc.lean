import RusticOs.Kernel.Switch
import RusticOs.Lib.Ring
import RusticOs.Lib.Runs
import RusticOs.Proofs.Handles

/-!
# `RusticOs.Proofs.Ipc`: the message broker is a switch

The broker's two tables and its rings of messages carry out the calls of a `Switch`: every call
answers and does what a switch does on the state the tables stand for (`Broker.switch`).

- `Broker.Valid`: the channels and the handles refer to each other. A call changes one channel at
  most, and `Linked.change` is the rule for that.
- `settles_send` and its siblings: one call.
-/

set_option autoImplicit false

namespace RusticOs.Kernel.Ipc

open RusticOs.Lib RusticOs.Lib.Fallible
open Function (update update_of_ne update_self)

/-! ### Queues -/

/-- The queue holds `l`, oldest first. -/
def Queue.Holds (q : Queue) (l : List Message) : Prop := RingHolds q.messages q.head q.len l

/-- The messages of a queue, oldest first. -/
def Queue.contents (q : Queue) : List Message := ringContents q.messages q.head q.len

theorem Queue.holds_new : Queue.new.Holds [] := ringHolds_empty 0

section
variable {q : Queue} {l : List Message} {m : Message}

theorem Queue.Holds.push (h : q.Holds l) (hroom : l.length < 2) :
    ∃ q', (Queue.push m).run q = (.ok (), q') ∧ q'.Holds (l ++ [m]) := by
  have hlen : q.len < 2 := by rw [← h.length]; exact hroom
  have hfull : ¬ q.len = 2 := by omega
  refine ⟨{ q with messages := q.messages.setAt (Fin.ofNat 2 (q.head + q.len)) (some m)
                   len := q.len + 1 }, ?_, RingHolds.push h hlen rfl m⟩
  unfold Queue.push
  rw [run_get_bind, refuse_bind_of_not hfull]
  rfl

theorem Queue.Holds.push_full (h : q.Holds l) (hfull : l.length = 2) :
    (Queue.push m).run q = (.error (.refused .wouldBlock), q) := by
  have hlen : q.len = 2 := by rw [← h.length]; exact hfull
  unfold Queue.push
  rw [run_get_bind, refuse_bind_of hlen]
  rfl

theorem Queue.Holds.pop (h : q.Holds (m :: l)) :
    ∃ q', Queue.pop.run q = (.ok (), q') ∧ q'.Holds l := by
  have hlen : 0 < q.len := by rw [← h.length]; exact Nat.succ_pos _
  refine ⟨{ messages := q.messages.setAt q.head none, head := Fin.ofNat 2 (q.head + 1)
            len := q.len - 1 }, ?_, RingHolds.pop h hlen rfl⟩
  unfold Queue.pop
  rw [run_get_bind, require_bind hlen]
  rfl

end

/-! ### The tables as maps -/

/-- The channel slots under their numbers. -/
def Broker.keyed (s : Broker) (i : Fin CHANNELS) : Option (UInt64 × Channel) :=
  s.channels[i].map fun c => (c.id, c)

/-- The channel of a number. -/
def Broker.channel (s : Broker) (k : UInt64) : Option Channel := lookup s.keyed k

/-- The switch a broker stands for. -/
def Broker.switch (s : Broker) : Switch where
  holder id := (s.handles.find id).map fun e => ⟨e.owner, e.object, e.rights⟩
  inbox e := match s.channel e.channel with
    | some c => c.queues[e.side].contents
    | none => []
  next := s.nextChannel

/-- The channels and the handles refer to each other: a side is open while a handle names it, a
channel is there while a side is open, and no two handles name one side. -/
structure Linked (chan : UInt64 → Option Channel) (find : UInt64 → Option (Entry Endpoint))
    (next : UInt64) : Prop where
  id : ∀ k c, chan k = some c → c.id = k
  below : ∀ k c, chan k = some c → k.toNat < next.toNat
  queue : ∀ k c side, chan k = some c → ∃ l, c.queues[(side : Fin 2)].Holds l
  opens : ∀ k c side, chan k = some c →
    (c.isOpen[(side : Fin 2)] = true ↔ ∃ id e, find id = some e ∧ e.object = ⟨k, side⟩)
  drained : ∀ k c side, chan k = some c → c.isOpen[(side : Fin 2)] = false →
    c.queues[side].Holds []
  alive : ∀ k c, chan k = some c → ∃ side : Fin 2, c.isOpen[side] = true
  named : ∀ id e, find id = some e → ∃ c, chan e.object.channel = some c
  single : ∀ id id' e e', find id = some e → find id' = some e' → e.object = e'.object → id = id'

/-- What `Linked` says about one channel. -/
structure Fits (find : UInt64 → Option (Entry Endpoint)) (next k : UInt64) (c : Channel) :
    Prop where
  id : c.id = k
  below : k.toNat < next.toNat
  queue : ∀ side : Fin 2, ∃ l, c.queues[side].Holds l
  opens : ∀ side : Fin 2,
    c.isOpen[side] = true ↔ ∃ id e, find id = some e ∧ e.object = ⟨k, side⟩
  drained : ∀ side : Fin 2, c.isOpen[side] = false → c.queues[side].Holds []
  alive : ∃ side : Fin 2, c.isOpen[side] = true

section
variable {chan : UInt64 → Option Channel} {find find' : UInt64 → Option (Entry Endpoint)}
  {next next' k : UInt64} {c : Channel} {x : Option Channel}

theorem Linked.fits (h : Linked chan find next) (hc : chan k = some c) : Fits find next k c :=
  ⟨h.id k c hc, h.below k c hc, fun side => h.queue k c side hc, fun side => h.opens k c side hc,
    fun side => h.drained k c side hc, h.alive k c hc⟩

/-- A channel whose ends are named as before. -/
theorem Fits.rename (h : Fits find next k c) (hnext : next.toNat ≤ next'.toNat)
    (hnames : ∀ side : Fin 2, (∃ id e, find id = some e ∧ e.object = ⟨k, side⟩)
      ↔ ∃ id e, find' id = some e ∧ e.object = ⟨k, side⟩) : Fits find' next' k c :=
  ⟨h.id, h.below.trans_le hnext, h.queue, fun side => (h.opens side).trans (hnames side),
    h.drained, h.alive⟩

/-- One channel changed, or went, and the handles with it. -/
theorem Linked.change (hself : ∀ c, x = some c → Fits find' next' k c)
    (hothers : ∀ k' c, k' ≠ k → chan k' = some c → Fits find' next' k' c)
    (hnamed : ∀ id e, find' id = some e →
      ∃ c, update chan k x e.object.channel = some c)
    (hsingle : ∀ id id' e e', find' id = some e → find' id' = some e' →
      e.object = e'.object → id = id') : Linked (update chan k x) find' next' := by
  have hfits : ∀ k' c, update chan k x k' = some c → Fits find' next' k' c := by
    intro k' c hc
    by_cases hk : k' = k
    · subst hk
      rw [update_self] at hc
      exact hself c hc
    · rw [update_of_ne hk] at hc
      exact hothers k' c hk hc
  exact ⟨fun k c hc => (hfits k c hc).id, fun k c hc => (hfits k c hc).below,
    fun k c side hc => (hfits k c hc).queue side, fun k c side hc => (hfits k c hc).opens side,
    fun k c side hc => (hfits k c hc).drained side, fun k c hc => (hfits k c hc).alive, hnamed,
    hsingle⟩

end

/-- A broker whose tables agree. -/
structure Broker.Valid (s : Broker) : Prop where
  handles : s.handles.Valid
  allowed : s.handles.allowed = ALL
  transferRight : s.handles.transferRight = TRANSFER
  keys : UniqueKeys s.keyed
  linked : Linked s.channel s.handles.find s.nextChannel

section
variable {s : Broker} {i : Fin CHANNELS} {c c' : Channel}

theorem Broker.keyed_eq_some {k : UInt64} :
    s.keyed i = some (k, c) ↔ s.channels[i] = some c ∧ c.id = k := by
  unfold keyed
  rw [Option.map_eq_some_iff]
  constructor
  · rintro ⟨c', hc, heq⟩
    cases heq
    exact ⟨hc, rfl⟩
  · rintro ⟨hc, rfl⟩
    exact ⟨c, hc, rfl⟩

/-- The broker with one channel slot changed. -/
def Broker.put (s : Broker) (i : Fin CHANNELS) (x : Option Channel) : Broker :=
  { s with channels := s.channels.setAt i x }

theorem Broker.keyed_put_of_ne {j : Fin CHANNELS} {x : Option Channel} (h : j ≠ i) :
    (s.put i x).keyed j = s.keyed j := by
  unfold keyed put
  rw [Vector.setAt_ne _ h]

theorem Broker.keyed_put_self (s : Broker) (i : Fin CHANNELS) (x : Option Channel) :
    (s.put i x).keyed i = x.map fun c => (c.id, c) := by
  simp [keyed, put]

/-- A slot that holds the number it held, or none, keeps the numbers unique. -/
theorem Broker.keys_put {x : Option Channel} (h : UniqueKeys s.keyed)
    (hx : ∀ c' j c'', x = some c' → j ≠ i → s.channels[j] = some c'' → c''.id ≠ c'.id) :
    UniqueKeys (s.put i x).keyed := by
  intro j k id a b hj hk
  rw [Broker.keyed_eq_some, put, Slots.setAt_eq_some] at hj hk
  obtain ⟨hj | hj, hjid⟩ := hj <;> obtain ⟨hk | hk, hkid⟩ := hk
  · rw [hj.1, hk.1]
  · exact absurd (hkid.trans hjid.symm) (hx a k b hj.2 hk.1 hk.2)
  · exact absurd (hjid.trans hkid.symm) (hx b j a hk.2 hj.1 hj.2)
  · exact h j k id a b (keyed_eq_some.mpr ⟨hj.2, hjid⟩) (keyed_eq_some.mpr ⟨hk.2, hkid⟩)

theorem Broker.channel_eq_some (h : UniqueKeys s.keyed) {k : UInt64} :
    s.channel k = some c ↔ ∃ i : Fin CHANNELS, s.channels[i] = some c ∧ c.id = k := by
  unfold channel
  rw [lookup_eq_some h]
  exact exists_congr fun i => keyed_eq_some

/-- The slot's channel changed under the same number. -/
theorem Broker.put_some (h : UniqueKeys s.keyed) (hi : s.channels[i] = some c)
    (hid : c'.id = c.id) :
    UniqueKeys (s.put i (some c')).keyed
      ∧ (s.put i (some c')).channel = update s.channel c.id (some c') := by
  have hkeys : UniqueKeys (s.put i (some c')).keyed := by
    apply keys_put h
    rintro d j e hd hj he heq
    cases hd
    exact hj (h j i _ e c (keyed_eq_some.mpr ⟨he, rfl⟩)
      (keyed_eq_some.mpr ⟨hi, hid.symm.trans heq.symm⟩))
  refine ⟨hkeys, lookup_replace h hkeys (fun _ hj => keyed_put_of_ne hj)
    (keyed_eq_some.mpr ⟨hi, rfl⟩) ?_⟩
  rw [keyed_put_self, Option.map_some, hid]

/-- The slot's channel is gone. -/
theorem Broker.put_none (h : UniqueKeys s.keyed) (hi : s.channels[i] = some c) :
    UniqueKeys (s.put i none).keyed
      ∧ (s.put i none).channel = update s.channel c.id none := by
  have hkeys : UniqueKeys (s.put i none).keyed := keys_put h (by simp)
  exact ⟨hkeys, lookup_erase h hkeys (fun _ hj => keyed_put_of_ne hj)
    (keyed_eq_some.mpr ⟨hi, rfl⟩) (keyed_put_self s i none)⟩

/-- The slot got a channel of a new number. -/
theorem Broker.put_new (h : UniqueKeys s.keyed) (hi : s.channels[i] = none)
    (hid : s.channel c'.id = none) :
    UniqueKeys (s.put i (some c')).keyed
      ∧ (s.put i (some c')).channel = update s.channel c'.id (some c') := by
  have hkeys : UniqueKeys (s.put i (some c')).keyed := by
    apply keys_put h
    rintro d j e hd - he heq
    cases hd
    rw [(channel_eq_some h).mpr ⟨j, he, heq⟩] at hid
    cases hid
  refine ⟨hkeys, lookup_insert h hkeys (fun _ hj => keyed_put_of_ne hj) ?_
    (keyed_put_self s i (some c'))⟩
  simp [keyed, hi]

theorem Broker.put_self (hi : s.channels[i] = some c) : s.put i (some c) = s := by
  have hset : s.channels.setAt i (some c) = s.channels := by
    rw [← hi]
    exact Vector.setAt_getElem s.channels i
  rw [put, hset]

/-! ### What a handle reaches -/

variable {owner id : UInt64} {right : UInt8} {e : Endpoint}

theorem Broker.Valid.reaches (v : s.Valid) (h : s.handles.resolve owner id right = .ok e) :
    s.switch.Reaches owner id right e := by
  obtain ⟨entry, ⟨hfind, howner⟩, hright, rfl⟩ := (Table.resolve_eq_ok v.handles).mp h
  exact ⟨⟨entry.owner, entry.object, entry.rights⟩, by simp [switch, hfind], howner, hright, rfl⟩

theorem Broker.foreign (h : ∀ e, ¬ s.handles.Held owner id e) :
    s.switch.Refuses owner id right .handle := by
  apply Switch.Refuses.foreign
  intro x hx howner
  obtain ⟨e, hfind, rfl⟩ := Option.map_eq_some_iff.mp hx
  exact h e ⟨hfind, howner⟩

theorem Broker.Valid.refuses (v : s.Valid) {error : HandleError}
    (h : s.handles.resolve owner id right = .error error) :
    s.switch.Refuses owner id right (.ofHandle error) := by
  rcases Table.resolve_eq_error v.handles h with ⟨rfl, hnot⟩ | ⟨rfl, e, hheld, hright⟩
  · exact Broker.foreign hnot
  · exact Switch.Refuses.lacking (x := ⟨e.owner, e.object, e.rights⟩)
      (by simp [switch, hheld.1]) hheld.2 hright

/-- The channel of an end that a handle names is there, and the end is open. -/
theorem Broker.Valid.channel_of_names (v : s.Valid) (h : s.switch.Names id e) :
    ∃ c, s.channel e.channel = some c ∧ c.isOpen[e.side] = true := by
  obtain ⟨x, hx, rfl⟩ := h
  obtain ⟨entry, hfind, rfl⟩ := Option.map_eq_some_iff.mp hx
  obtain ⟨c, hc⟩ := v.linked.named id entry hfind
  exact ⟨c, hc, (v.linked.opens _ c _ hc).mpr ⟨id, entry, hfind, rfl⟩⟩

theorem Switch.Reaches.names {sw : Switch} (h : sw.Reaches owner id right e) : sw.Names id e := by
  obtain ⟨x, hx, -, -, he⟩ := h
  exact ⟨x, hx, he⟩

theorem Broker.Valid.isOpen_iff (v : s.Valid) (hc : s.channel e.channel = some c) :
    c.isOpen[e.side] = true ↔ s.switch.IsOpen e := by
  rw [v.linked.opens _ c e.side hc]
  unfold Switch.IsOpen Switch.Names
  constructor
  · rintro ⟨id, entry, hfind, hobject⟩
    exact ⟨id, ⟨entry.owner, entry.object, entry.rights⟩, by simp [switch, hfind], hobject⟩
  · rintro ⟨id, x, hx, hobject⟩
    obtain ⟨entry, hfind, rfl⟩ := Option.map_eq_some_iff.mp hx
    exact ⟨id, entry, hfind, hobject⟩

/-- What waits at an end is what its queue holds. -/
theorem Broker.Valid.holds_inbox (v : s.Valid) (hc : s.channel e.channel = some c) :
    c.queues[e.side].Holds (s.switch.inbox e) := by
  obtain ⟨l, hl⟩ := v.linked.queue _ c e.side hc
  have hinbox : s.switch.inbox e = l := by
    show (match s.channel e.channel with
      | some c => c.queues[e.side].contents
      | none => []) = l
    rw [hc]
    exact hl.contents
  rw [hinbox]
  exact hl

theorem run_slot (h : (s.channels.position fun c => c.id == e.channel) = some (i, c)) :
    (Broker.slot e).run s = (.ok (i, c), s) := by
  unfold Broker.slot
  rw [run_get_bind, h]
  rfl

theorem Broker.Valid.position (v : s.Valid) (hc : s.channel e.channel = some c) :
    ∃ i, s.channels[i] = some c
      ∧ (s.channels.position fun c => c.id == e.channel) = some (i, c) := by
  obtain ⟨i, hi, hid⟩ := (Broker.channel_eq_some v.keys).mp hc
  refine ⟨i, hi, Slots.position_of_unique hi (by simpa using hid) ?_⟩
  intro j d hj hd
  exact v.keys j i e.channel d c (Broker.keyed_eq_some.mpr ⟨hj, by simpa using hd⟩)
    (Broker.keyed_eq_some.mpr ⟨hi, hid⟩)

/-! ### Messages move -/

/-- The queue of one open side changed. -/
theorem Broker.Valid.setQueue (v : s.Valid) (hi : s.channels[i] = some c) {side : Fin 2}
    (hside : c.isOpen[side] = true) {q : Queue} {l : List Message} (hq : q.Holds l) :
    (s.put i (some { c with queues := c.queues.setAt side q })).Valid
      ∧ (s.put i (some { c with queues := c.queues.setAt side q })).switch
        = s.switch.wait ⟨c.id, side⟩ l := by
  obtain ⟨hkeys, hchan⟩ := Broker.put_some v.keys hi
    (show ({ c with queues := c.queues.setAt side q } : Channel).id = c.id from rfl)
  have hc : s.channel c.id = some c := (Broker.channel_eq_some v.keys).mpr ⟨i, hi, rfl⟩
  have hqueue : ∀ side' : Fin 2, (c.queues.setAt side q)[side']
      = if side = side' then q else c.queues[side'] :=
    fun side' => Vector.getElem_setAt c.queues side side' q
  constructor
  · refine ⟨v.handles, v.allowed, v.transferRight, hkeys, ?_⟩
    rw [hchan]
    have hfits := v.linked.fits hc
    refine Linked.change (fun d hd => ?_) (fun k d _ hd => v.linked.fits hd) (fun id e he => ?_)
      v.linked.single
    · cases hd
      refine ⟨rfl, hfits.below, fun side' => ?_, hfits.opens, fun side' hshut => ?_, hfits.alive⟩
      · show ∃ l, (c.queues.setAt side q)[side'].Holds l
        rw [hqueue]
        split
        · exact ⟨l, hq⟩
        · exact hfits.queue side'
      · show (c.queues.setAt side q)[side'].Holds []
        rw [hqueue, if_neg]
        · exact hfits.drained side' hshut
        · rintro rfl
          -- the side that changed is open
          exact Bool.false_ne_true (hshut.symm.trans hside)
    · obtain ⟨d, hd⟩ := v.linked.named id e he
      by_cases hk : e.object.channel = c.id
      · exact ⟨_, by rw [hk, update_self]⟩
      · exact ⟨d, by rw [update_of_ne hk, hd]⟩
  · unfold Broker.switch Switch.wait
    congr 1
    funext e
    show (match (s.put i _).channel e.channel with
      | some c => c.queues[e.side].contents
      | none => []) = update s.switch.inbox ⟨c.id, side⟩ l e
    rw [hchan]
    by_cases hk : e.channel = c.id
    · rw [hk, update_self]
      show (c.queues.setAt side q)[e.side].contents = _
      rw [hqueue]
      by_cases hside : side = e.side
      · have he : e = ⟨c.id, side⟩ := by rw [← hk, hside]
        rw [if_pos hside, he, update_self]
        exact hq.contents
      · have he : e ≠ ⟨c.id, side⟩ := fun he => hside (by rw [he])
        rw [if_neg hside, update_of_ne he]
        exact (v.holds_inbox (hk ▸ hc)).contents
    · have he : e ≠ ⟨c.id, side⟩ := fun he => hk (by rw [he])
      rw [update_of_ne hk, update_of_ne he]
      rfl

end

/-! ### One call -/

/-- The calls there is no room for. A connection takes a channel with a number and two handles, one
for each owner. A transfer takes a new name, and counts for the owner it goes to. -/
def Broker.Full (s : Broker) : Call → Prop
  | .connect a b => s.channels.vacant = none ∨ 2 ^ 64 ≤ s.nextChannel.toNat + 1
      ∨ 2 ^ 56 ≤ s.handles.next.toNat + 2 ∨ ENDPOINT_HANDLES < s.handles.live + 2
      ∨ HANDLES_PER_OWNER ≤ s.handles.owned a
      ∨ HANDLES_PER_OWNER ≤ s.handles.owned b + if a = b then 1 else 0
  | .transfer owner _ target _ =>
    s.handles.Spent ∨ target ≠ owner ∧ HANDLES_PER_OWNER ≤ s.handles.owned target
  | _ => False

/-- A call was answered as a switch answers it, and a refusal left the tables as they were. -/
structure Outcome (s : Broker) (call : Call) (answer : Answer) (s' : Broker) : Prop where
  valid : s'.Valid
  does : s.switch.Does s.Full call answer s'.switch
  frame : ∀ halt, answer = .error halt →
    s'.channels = s.channels ∧ s'.handles.entries = s.handles.entries

/-- A call has its outcome. -/
def Settles (s : Broker) (call : Call) : Prop := Leads (Broker.perform call) s (Outcome s call)

section
variable {s s' : Broker} {call : Call} {answer : Answer}

/-- A refusal that changed nothing. -/
theorem outcome_refused (v : s.Valid) {error : Error}
    (h : s.switch.Does s.Full call (.error (.refused error)) s.switch) :
    Outcome s call (.error (.refused error)) s :=
  ⟨v, h, fun _ _ => ⟨rfl, rfl⟩⟩

/-- A call that succeeded. -/
theorem outcome_ok {value : Value} (v : s'.Valid)
    (h : s.switch.Does s.Full call (.ok value) s'.switch) : Outcome s call (.ok value) s' :=
  ⟨v, h, nofun⟩

variable {α : Type} {c : Channel} {side : Fin 2} {id : UInt64}

theorem leads_held {β : Type} {r : Except HandleError α} {f : α → Step Broker β}
    {Q : Except (Halt Error) β → Broker → Prop}
    (herror : ∀ e, r = .error e → Q (.error (.refused (.ofHandle e))) s)
    (hok : ∀ a, r = .ok a → Leads (f a) s Q) : Leads (held r >>= f) s Q := by
  cases r with
  | error e => exact herror e rfl
  | ok a => exact hok a rfl

/-- A step of a channel in its slot. -/
theorem run_onChannel {i : Fin CHANNELS} {c' : Channel} {x : Step Channel α}
    {r : Except (Halt Error) α} (h : x.run c = (r, c')) :
    (Broker.onChannel i c x).run s = (r, s.put i (some c')) := by
  unfold Broker.onChannel Broker.put
  rw [run_on, h]

theorem run_onQueue {q : Queue} {x : Step Queue α} {r : Except (Halt Error) α}
    (h : x.run c.queues[side] = (r, q)) :
    (Channel.onQueue side x).run c = (r, { c with queues := c.queues.setAt side q }) := by
  unfold Channel.onQueue
  rw [run_on, h]

theorem run_send_open (h : c.isOpen[1 - side] = true) (m : Message) :
    (Channel.send side m).run c = (Channel.onQueue (1 - side) (Queue.push m)).run c := by
  unfold Channel.send
  rw [run_get_bind, refuse_bind_of_not (not_not.mpr h)]

theorem run_send_closed (h : ¬ c.isOpen[1 - side] = true) (m : Message) :
    (Channel.send side m).run c = (.error (.refused .closed), c) := by
  unfold Channel.send
  rw [run_get_bind, refuse_bind_of h]
  rfl

/-- A queue put back where it was. -/
theorem Channel.set_queue_self (c : Channel) (side : Fin 2) :
    ({ c with queues := c.queues.setAt side c.queues[side] } : Channel) = c := by
  rw [show c.queues.setAt side c.queues[side] = c.queues from Vector.setAt_getElem c.queues side]

theorem settles_send (v : s.Valid) (owner id : UInt64) (bytes : List UInt8) :
    Settles s (.send owner id bytes) := by
  unfold Settles Broker.perform Broker.send
  simp only [bind_assoc]
  refine .get_bind (leads_held
    (fun _ hresolve => outcome_refused v (.sendRefused (v.refuses hresolve))) fun e hresolve => ?_)
  have hreach := v.reaches hresolve
  refine .check_bind (fun _ hdecode => outcome_refused v (.sendMalformed hreach hdecode))
    fun m hdecode => ?_
  obtain ⟨c, hc, -⟩ := v.channel_of_names hreach.names
  obtain ⟨i, hi, hslot⟩ := v.position hc
  refine .bind (run_slot hslot) ?_
  dsimp only
  have hid : c.id = e.channel := v.linked.id _ c hc
  have hinbox : c.queues[1 - e.side].Holds (s.switch.inbox e.peer) :=
    v.holds_inbox (e := e.peer) hc
  have hopen : c.isOpen[1 - e.side] = true ↔ s.switch.IsOpen e.peer :=
    v.isOpen_iff (e := e.peer) hc
  by_cases hpeer : s.switch.IsOpen e.peer
  · have hsend := run_send_open (hopen.mpr hpeer) m
    by_cases hroom : (s.switch.inbox e.peer).length < 2
    · obtain ⟨q, hpush, hq⟩ := hinbox.push (m := m) hroom
      obtain ⟨hvalid, hswitch⟩ := v.setQueue hi (hopen.mpr hpeer) hq
      refine .bind (run_onChannel (hsend.trans (run_onQueue hpush))) (.pure (outcome_ok hvalid ?_))
      have heq : (⟨c.id, 1 - e.side⟩ : Endpoint) = e.peer := by rw [hid]; rfl
      rw [hswitch, heq]
      exact .sent hreach hdecode hpeer hroom
    · have hfull : (s.switch.inbox e.peer).length = 2 := by
        have hle := hinbox.room
        rw [← hinbox.length] at hle
        omega
      have hrun := run_onChannel (s := s) (i := i)
        (hsend.trans (run_onQueue (hinbox.push_full (m := m) hfull)))
      rw [Channel.set_queue_self, Broker.put_self hi] at hrun
      exact .bind_error hrun (outcome_refused v (.sendFull hreach hdecode hpeer hfull))
  · have hrun := run_onChannel (s := s) (i := i) (run_send_closed (fun h => hpeer (hopen.mp h)) m)
    rw [Broker.put_self hi] at hrun
    exact .bind_error hrun (outcome_refused v (.sendClosed hreach hdecode hpeer))

/-- What a reader of an end finds there. -/
inductive Reads (s : Broker) (e : Endpoint) : Except Error Message → Prop
  | blocks (hempty : s.switch.inbox e = []) (hopen : s.switch.IsOpen e.peer) :
      Reads s e (.error .wouldBlock)
  | closed (hempty : s.switch.inbox e = []) (hclosed : ¬ s.switch.IsOpen e.peer) :
      Reads s e (.error .closed)
  | message {m : Message} {l : List Message} (h : s.switch.inbox e = m :: l) : Reads s e (.ok m)

theorem reads_peek (v : s.Valid) {e : Endpoint} (hc : s.channel e.channel = some c) :
    Reads s e (c.peek e.side) := by
  have hinbox := v.holds_inbox hc
  have hopen := v.isOpen_iff (e := e.peer) hc
  have hpeek : c.queues[e.side].peek = (s.switch.inbox e).head? := hinbox.peek
  unfold Channel.peek
  rw [hpeek]
  cases hlist : s.switch.inbox e with
  | cons m l => exact .message hlist
  | nil =>
    by_cases hpeer : s.switch.IsOpen e.peer
    · rw [show c.isOpen[1 - e.side] = true from hopen.mpr hpeer]
      exact .blocks hlist hpeer
    · have hclosed : c.isOpen[1 - e.side] = false :=
        Bool.eq_false_iff.mpr fun h => hpeer (hopen.mp h)
      rw [hclosed]
      exact .closed hlist hpeer

theorem settles_peek (v : s.Valid) (owner id : UInt64) : Settles s (.peek owner id) := by
  unfold Settles Broker.perform Broker.peek
  simp only [bind_assoc]
  refine .get_bind (leads_held
    (fun _ hresolve => outcome_refused v (.peekRefused (v.refuses hresolve))) fun e hresolve => ?_)
  have hreach := v.reaches hresolve
  obtain ⟨c, hc, -⟩ := v.channel_of_names hreach.names
  obtain ⟨i, hi, hslot⟩ := v.position hc
  refine .bind (run_slot hslot) ?_
  have hreads := reads_peek v hc
  dsimp only
  generalize c.peek e.side = found at hreads
  cases hreads with
  | blocks hempty hopen => exact outcome_refused v (.peekBlocks hreach hempty hopen)
  | closed hempty hclosed => exact outcome_refused v (.peekClosed hreach hempty hclosed)
  | message hinbox => exact outcome_ok v (.peeked hreach hinbox)

theorem settles_consume (v : s.Valid) (owner id : UInt64) : Settles s (.consume owner id) := by
  unfold Settles Broker.perform Broker.consume
  simp only [bind_assoc]
  refine .get_bind (leads_held
    (fun _ hresolve => outcome_refused v (.consumeRefused (v.refuses hresolve)))
    fun e hresolve => ?_)
  have hreach := v.reaches hresolve
  obtain ⟨c, hc, hside⟩ := v.channel_of_names hreach.names
  obtain ⟨i, hi, hslot⟩ := v.position hc
  refine .bind (run_slot hslot) ?_
  have hreads := reads_peek v hc
  dsimp only
  generalize c.peek e.side = found at hreads
  cases hreads with
  | blocks hempty hopen => exact outcome_refused v (.consumeBlocks hreach hempty hopen)
  | closed hempty hclosed => exact outcome_refused v (.consumeClosed hreach hempty hclosed)
  | @message m l hinbox =>
    have hholds := v.holds_inbox hc
    rw [hinbox] at hholds
    obtain ⟨q, hpop, hq⟩ := hholds.pop
    obtain ⟨hvalid, hswitch⟩ := v.setQueue hi hside hq
    rw [check_ok_bind, Channel.pop]
    refine .bind (run_onChannel (run_onQueue hpop)) (.pure (outcome_ok hvalid ?_))
    have heq : (⟨c.id, e.side⟩ : Endpoint) = e := by rw [v.linked.id _ c hc]
    rw [hswitch, heq]
    exact .consumed hreach hinbox

/-! ### Closing -/

/-- The handle that named an end is gone, and the end with it. -/
theorem Broker.Valid.closeEnd (v : s.Valid) {entry : Entry Endpoint}
    (hfind : s.handles.find id = some entry) {handles : Handles} (hvalid : handles.Valid)
    (hkind : Table.SameKind s.handles handles)
    (hgone : handles.find = update s.handles.find id none) {i : Fin CHANNELS}
    (hi : s.channels[i] = some c) (hid : c.id = entry.object.channel) :
    let c' := c.close entry.object.side
    let s' := ({ s with handles := handles } : Broker).put i (if c'.closed then none else some c')
    s'.Valid ∧ s'.switch = (s.switch.drop id).wait entry.object [] := by
  intro c' s'
  have hc : s.channel c.id = some c := (Broker.channel_eq_some v.keys).mpr ⟨i, hi, rfl⟩
  obtain ⟨hkeys, hchan⟩ : UniqueKeys s'.keyed
      ∧ s'.channel = update s.channel c.id (if c'.closed then none else some c') := by
    show UniqueKeys (Broker.put _ i _).keyed ∧ (Broker.put _ i _).channel = _
    split
    · exact Broker.put_none (s := { s with handles := handles }) v.keys hi
    · exact Broker.put_some (s := { s with handles := handles }) v.keys hi rfl
  have hopen' : ∀ side : Fin 2, c'.isOpen[side]
      = if entry.object.side = side then false else c.isOpen[side] :=
    fun side => Vector.getElem_setAt c.isOpen entry.object.side side false
  have hqueue' : ∀ side : Fin 2, c'.queues[side]
      = if entry.object.side = side then Queue.new else c.queues[side] :=
    fun side => Vector.getElem_setAt c.queues entry.object.side side Queue.new
  -- the other handles, and that none of them names the end
  have hother : ∀ id' e, handles.find id' = some e ↔ id' ≠ id ∧ s.handles.find id' = some e := by
    intro id' e
    rw [hgone]
    by_cases h : id' = id
    · subst h
      simp
    · simp [h]
  have hnone : ∀ id' e, handles.find id' = some e → e.object ≠ entry.object := by
    intro id' e he heq
    obtain ⟨hne, he⟩ := (hother id' e).mp he
    exact hne (v.linked.single id' id e entry he hfind heq)
  have hclosed : c'.closed = true ↔ ∀ side : Fin 2, c'.isOpen[side] = false := by
    rw [Fin.forall_fin_two]
    simp [Channel.closed]
  have hopens : ∀ side : Fin 2, c'.isOpen[side] = true
      ↔ ∃ id' e, handles.find id' = some e ∧ e.object = ⟨c.id, side⟩ := by
    intro side
    rw [hopen' side]
    by_cases hside : entry.object.side = side
    · have hobject : entry.object = ⟨c.id, side⟩ := by rw [hid, ← hside]
      rw [if_pos hside, ← hobject]
      constructor
      · intro h
        cases h
      · rintro ⟨id', e, he, heq⟩
        exact absurd heq (hnone id' e he)
    · rw [if_neg hside, v.linked.opens c.id c side hc]
      constructor
      · rintro ⟨id', e, he, heq⟩
        refine ⟨id', e, (hother id' e).mpr ⟨?_, he⟩, heq⟩
        rintro rfl
        rw [hfind] at he
        cases he
        exact hside (by rw [heq])
      · rintro ⟨id', e, he, heq⟩
        exact ⟨id', e, ((hother id' e).mp he).2, heq⟩
  have hfits := v.linked.fits hc
  constructor
  · refine ⟨hvalid, hkind.allowed.trans v.allowed, hkind.transferRight.trans v.transferRight,
      hkeys, ?_⟩
    show Linked s'.channel handles.find s.nextChannel
    rw [hchan]
    refine Linked.change (fun d hd => ?_) (fun k d hk hd => ?_) (fun id' e he => ?_) ?_
    · -- the channel is still half open
      split at hd
      · cases hd
      rename_i hhalf
      cases hd
      refine ⟨rfl, hfits.below, fun side => ?_, hopens, fun side hshut => ?_, ?_⟩
      · rw [hqueue' side]
        split
        · exact ⟨[], Queue.holds_new⟩
        · exact hfits.queue side
      · rw [hopen' side] at hshut
        rw [hqueue' side]
        split
        · exact Queue.holds_new
        · rename_i hside
          rw [if_neg hside] at hshut
          exact hfits.drained side hshut
      · by_contra hall
        push Not at hall
        exact hhalf (hclosed.mpr fun side => Bool.eq_false_iff.mpr (hall side))
    · -- no handle of another channel went
      refine (v.linked.fits hd).rename (le_refl _) fun side => ?_
      refine exists_congr fun id' => exists_congr fun e => ?_
      rw [hother id' e]
      constructor
      · rintro ⟨he, heq⟩
        refine ⟨⟨?_, he⟩, heq⟩
        rintro rfl
        rw [hfind] at he
        cases he
        exact hk (by rw [hid, heq])
      · rintro ⟨⟨-, he⟩, heq⟩
        exact ⟨he, heq⟩
    · obtain ⟨d, hd⟩ := v.linked.named id' e ((hother id' e).mp he).2
      by_cases hk : e.object.channel = c.id
      · have hside : c'.isOpen[e.object.side] = true :=
          (hopens _).mpr ⟨id', e, he, by rw [← hk]⟩
        have hnot : ¬ c'.closed = true := by
          intro h
          rw [hclosed.mp h] at hside
          cases hside
        exact ⟨c', by rw [hk, update_self, if_neg hnot]⟩
      · exact ⟨d, by rw [update_of_ne hk, hd]⟩
    · intro id₁ id₂ e₁ e₂ h₁ h₂
      exact v.linked.single id₁ id₂ e₁ e₂ ((hother id₁ e₁).mp h₁).2 ((hother id₂ e₂).mp h₂).2
  · have hholder : s'.switch.holder = update s.switch.holder id none := by
      funext id'
      show (handles.find id').map _ = _
      rw [hgone]
      by_cases h : id' = id
      · subst h
        simp
      · rw [update_of_ne h, update_of_ne h]
        rfl
    have hinbox : s'.switch.inbox = update s.switch.inbox entry.object [] := by
      funext e
      show (match s'.channel e.channel with
        | some c => c.queues[e.side].contents
        | none => []) = _
      rw [hchan]
      by_cases hk : e.channel = c.id
      · -- an end of the channel: its queue is new, or what it was, or the channel is gone
        have hbefore : s.switch.inbox e = c.queues[e.side].contents :=
          (v.holds_inbox (c := c) (by rw [hk, hc])).contents.symm
        rw [hk, update_self]
        by_cases hside : entry.object.side = e.side
        · have he : e = entry.object := by
            rcases e with ⟨k, side⟩
            rcases entry with ⟨_, _, ⟨k', side'⟩, _⟩
            simp_all
          rw [he, update_self]
          split
          · rename_i d hd
            split at hd
            · cases hd
            · cases hd
              rw [hqueue', if_pos rfl]
              exact Queue.holds_new.contents
          · rfl
        · have he : e ≠ entry.object := fun he => hside (by rw [he])
          rw [update_of_ne he, hbefore]
          split
          · rename_i d hd
            split at hd
            · cases hd
            · cases hd
              rw [hqueue', if_neg hside]
          · rename_i hd
            split at hd
            · rename_i hshut
              have hfalse := hclosed.mp hshut e.side
              rw [hopen', if_neg hside] at hfalse
              exact (v.linked.drained c.id c e.side hc hfalse).contents.symm
            · cases hd
      · have he : e ≠ entry.object := by
          rintro rfl
          exact hk hid.symm
        rw [update_of_ne hk, update_of_ne he]
        rfl
    show ({ holder := s'.switch.holder, inbox := s'.switch.inbox, next := s.nextChannel }
      : Switch) = _
    rw [hholder, hinbox]
    rfl

/-- An owner closes a handle of its own. -/
theorem run_close (v : s.Valid) {owner : UInt64} {entry : Entry Endpoint}
    (hheld : s.handles.Held owner id entry) :
    ∃ s', (Broker.close owner id).run s = (.ok (), s') ∧ s'.Valid
      ∧ s'.switch = (s.switch.drop id).wait entry.object []
      ∧ s'.handles.owned owner + 1 = s.handles.owned owner := by
  obtain ⟨handles, hremove⟩ := hheld.remove v.handles
  obtain ⟨entry', hheld', -, hvalid, hkind, -, hgone⟩ := Table.remove_ok v.handles hremove
  obtain ⟨c, hc⟩ := v.linked.named id entry hheld.1
  obtain ⟨i, hi, hslot⟩ := v.position hc
  have hid : c.id = entry.object.channel := v.linked.id _ c hc
  obtain ⟨hvalid', hswitch⟩ := v.closeEnd hheld.1 hvalid hkind hgone hi hid
  refine ⟨_, ?_, hvalid', hswitch, Table.remove_occupied hremove⟩
  unfold Broker.close
  have hrun := run_slot (s := { s with handles := handles }) hslot
  rw [run_get_bind, hremove]
  show (Broker.slot entry.object >>= _).run { s with handles := handles } = _
  rw [run_bind_of_ok hrun]
  rfl

theorem settles_close (v : s.Valid) (owner id : UInt64) : Settles s (.close owner id) := by
  by_cases hheld : ∃ e, s.handles.Held owner id e
  · obtain ⟨entry, hheld⟩ := hheld
    obtain ⟨s', hrun, hvalid, hswitch, -⟩ := run_close v hheld
    refine .bind hrun (.pure (outcome_ok hvalid ?_))
    rw [hswitch]
    exact .closed ⟨⟨entry.owner, entry.object, entry.rights⟩, by simp [Broker.switch, hheld.1],
      hheld.2, by simp, rfl⟩
  · have hnone : ∀ e, ¬ s.handles.Held owner id e := fun e he => hheld ⟨e, he⟩
    have hrun : (Broker.close owner id).run s = (.error (.refused .handle), s) := by
      rw [Broker.close, run_get_bind, Table.remove_of_not_held v.handles hnone]
      rfl
    exact .bind_error hrun (outcome_refused v (.closeRefused (Broker.foreign hnone)))

/-- The loop closes one handle of the owner a turn, and ends when there is none. -/
theorem run_closeOwnerLoop (owner : UInt64) (turns : Nat) (v : s.Valid)
    (hturns : s.handles.owned owner < turns) :
    ∃ s', (Broker.closeOwnerLoop owner turns).run s = (.ok (), s') ∧ s'.Valid
      ∧ s'.switch = s.switch.dropOwner owner := by
  induction turns generalizing s with
  | zero => omega
  | succ turns ih =>
    unfold Broker.closeOwnerLoop
    rw [run_get_bind]
    cases hfirst : s.handles.first owner with
    | none =>
      refine ⟨s, rfl, v, (Switch.dropOwner_of_none ?_).symm⟩
      intro id x hx howner
      obtain ⟨e, hfind, rfl⟩ := Option.map_eq_some_iff.mp hx
      exact Table.first_eq_none v.handles hfirst e ⟨hfind, howner⟩
    | some id =>
      obtain ⟨entry, hheld⟩ := Table.first_eq_some v.handles hfirst
      obtain ⟨s₁, hclose, v₁, hswitch, hcount⟩ := run_close v hheld
      obtain ⟨s', hrun, v', hswitch'⟩ := ih v₁ (by omega)
      refine ⟨s', ?_, v', ?_⟩
      · have hattempt : (attempt (Broker.close owner id)
            : Fallible (Halt Error) Broker _).run s = (.ok (.ok ()), s₁) := by
          rw [run_attempt, hclose]
        rw [run_bind_of_ok hattempt]
        exact hrun
      · have hholder : s.switch.holder id
            = some ⟨entry.owner, entry.object, entry.rights⟩ := by
          simp [Broker.switch, hheld.1]
        have hdrop := Switch.dropOwner_drop hholder
        rw [hswitch', hswitch, ← hheld.2]
        exact hdrop

theorem settles_closeOwner (v : s.Valid) (owner : UInt64) : Settles s (.closeOwner owner) := by
  have hcount : s.handles.owned owner < ENDPOINT_HANDLES + 1 :=
    Nat.lt_succ_of_le Vector.countP_le_size
  obtain ⟨s', hrun, hvalid, hswitch⟩ := run_closeOwnerLoop owner _ v hcount
  refine .bind hrun (.pure (outcome_ok hvalid ?_))
  rw [hswitch]
  exact .ownerClosed

/-! ### Moving a handle -/

/-- The end a handle names stays, under another name. -/
theorem Linked.rename {chan : UInt64 → Option Channel}
    {find find' : UInt64 → Option (Entry Endpoint)} {next new : UInt64} {e e' : Entry Endpoint}
    (h : Linked chan find next) (hid : find id = some e) (hobject : e'.object = e.object)
    (hfind : find' = update (update find id none) new (some e'))
    (hnew : update find id none new = none) : Linked chan find' next := by
  have hcase : ∀ k d, find' k = some d ↔ (k = new ∧ d = e') ∨ (k ≠ id ∧ find k = some d) := by
    intro k d
    rw [hfind]
    by_cases hk : k = new
    · subst hk
      rw [update_self]
      constructor
      · intro hd
        cases hd
        exact Or.inl ⟨rfl, rfl⟩
      · rintro (⟨-, rfl⟩ | ⟨hne, hd⟩)
        · rfl
        · rw [update_of_ne hne, hd] at hnew
          cases hnew
    · rw [update_of_ne hk]
      by_cases hki : k = id
      · subst hki
        simp [hk]
      · simp [hk, hki]
  constructor
  case id => exact h.id
  case below => exact h.below
  case queue => exact h.queue
  case drained => exact h.drained
  case alive => exact h.alive
  case opens =>
    intro k c side hc
    rw [h.opens k c side hc]
    constructor
    · rintro ⟨i, d, hd, heq⟩
      by_cases hi : i = id
      · subst hi
        rw [hid] at hd
        cases hd
        exact ⟨new, e', (hcase new e').mpr (Or.inl ⟨rfl, rfl⟩), hobject.trans heq⟩
      · exact ⟨i, d, (hcase i d).mpr (Or.inr ⟨hi, hd⟩), heq⟩
    · rintro ⟨i, d, hd, heq⟩
      rcases (hcase i d).mp hd with ⟨-, rfl⟩ | ⟨-, hd⟩
      · exact ⟨id, e, hid, hobject.symm.trans heq⟩
      · exact ⟨i, d, hd, heq⟩
  case named =>
    intro i d hd
    rcases (hcase i d).mp hd with ⟨-, rfl⟩ | ⟨-, hd⟩
    · rw [hobject]
      exact h.named id e hid
    · exact h.named i d hd
  case single =>
    intro i j d d' hd hd' heq
    rcases (hcase i d).mp hd with ⟨rfl, rfl⟩ | ⟨hi, hd⟩ <;>
      rcases (hcase j d').mp hd' with ⟨rfl, rfl⟩ | ⟨hj, hd'⟩
    · rfl
    · exact absurd (h.single j id d' e hd' hid (heq.symm.trans hobject)) hj
    · exact absurd (h.single i id d e hd hid (heq.trans hobject)) hi
    · exact h.single i j d d' hd hd' heq

/-- The holders of a table whose map changed at one name. -/
theorem holder_update (find : UInt64 → Option (Entry Endpoint)) (id : UInt64)
    (x : Option (Entry Endpoint)) :
    (fun i => (update find id x i).map fun e => (⟨e.owner, e.object, e.rights⟩ : Holder))
      = update (fun i => (find i).map fun e => (⟨e.owner, e.object, e.rights⟩ : Holder))
          id (x.map fun e => ⟨e.owner, e.object, e.rights⟩) := by
  funext i
  by_cases h : i = id
  · subst h
    simp
  · simp [h]

theorem settles_transfer (v : s.Valid) (owner id target : UInt64) (rights : UInt8) :
    Settles s (.transfer owner id target rights) := by
  unfold Settles Broker.perform Broker.transfer
  simp only [bind_assoc]
  refine .get_bind (leads_held (fun error htransfer => outcome_refused v ?_)
    fun ⟨new, handles⟩ htransfer => ?_)
  · rcases Table.transfer_eq_error v.handles htransfer with
      ⟨rfl, hnone⟩ | ⟨e, hheld, ⟨rfl, hrights⟩ | ⟨rfl, hrights, hfull⟩⟩
    · exact .transferRefused (Broker.foreign hnone)
    · rw [v.transferRight] at hrights
      exact .transferDenied (x := ⟨e.owner, e.object, e.rights⟩)
        (by simp [Broker.switch, hheld.1]) hheld.2 (hrights.resolve_left (by decide))
    · rw [v.transferRight] at hrights
      push Not at hrights
      exact .transferFull (x := ⟨e.owner, e.object, e.rights⟩)
        (by simp [Broker.switch, hheld.1]) hheld.2 hrights.2.1 hrights.2.2.1 hrights.2.2.2 hfull
  · obtain ⟨e, t₁, hheld, hright, hsome, hfewer, hroom, hdrop, -, hkind, hgrant⟩ :=
      Table.transfer_ok v.handles htransfer
    rw [v.transferRight] at hright
    have hfind := hgrant.find
    have hfresh := hgrant.fresh
    rw [hdrop] at hfind hfresh
    have hobject : (⟨new, target, e.object, rights⟩ : Entry Endpoint).object = e.object := rfl
    have hvalid : ({ s with handles } : Broker).Valid :=
      { handles := hgrant.valid
        allowed := (hgrant.kind.allowed.trans hkind.allowed).trans v.allowed
        transferRight := (hgrant.kind.transferRight.trans hkind.transferRight).trans
          v.transferRight
        keys := v.keys
        linked := v.linked.rename hheld.1 hobject hfind hfresh }
    have hswitch : ({ s with handles } : Broker).switch
        = (s.switch.drop id).hold new ⟨target, e.object, rights⟩ := by
      unfold Broker.switch Switch.hold Switch.drop
      dsimp only
      rw [hfind, holder_update, holder_update]
      rfl
    have hmapped := congrFun (holder_update s.handles.find id none) new
    rw [hfresh] at hmapped
    show Outcome s _ (.ok (.handle new)) { s with handles }
    refine outcome_ok hvalid ?_
    rw [hswitch]
    exact .transferred (x := ⟨e.owner, e.object, e.rights⟩)
      (by simp [Broker.switch, hheld.1]) hheld.2 hright hsome hfewer hmapped.symm hroom

/-! ### Connecting -/

/-- A new channel with a handle for each of its ends. -/
theorem Linked.connect {chan : UInt64 → Option Channel}
    {find find' : UInt64 → Option (Entry Endpoint)} {next next' id₀ id₁ : UInt64}
    {e₀ e₁ : Entry Endpoint} (h : Linked chan find next)
    (hnext : next.toNat + 1 = next'.toNat) (h₀ : e₀.object = ⟨next, 0⟩) (h₁ : e₁.object = ⟨next, 1⟩)
    (hfresh₀ : find id₀ = none) (hfresh₁ : find id₁ = none) (hne : id₀ ≠ id₁)
    (hfind : find' = update (update find id₀ (some e₀)) id₁ (some e₁)) :
    Linked (update chan next (some (Channel.new next))) find' next' := by
  have hentry : ∀ k d, find' k = some d
      ↔ (k = id₀ ∧ d = e₀) ∨ (k = id₁ ∧ d = e₁) ∨ find k = some d := by
    intro k d
    rw [hfind]
    by_cases hk : k = id₁
    · subst hk
      simp [hne.symm, hfresh₁, eq_comm]
    · by_cases hk₀ : k = id₀
      · subst hk₀
        simp [hk, hfresh₀, eq_comm]
      · simp [hk, hk₀]
  have hold : ∀ k c, chan k = some c → k ≠ next := by
    rintro k c hc rfl
    exact (h.below k c hc).false
  -- an old handle names an old channel
  have hapart : ∀ k d, find k = some d → d.object.channel ≠ next := by
    intro k d hd
    obtain ⟨c, hc⟩ := h.named k d hd
    exact hold _ c hc
  refine Linked.change (fun c hc => ?_) (fun k c hk hc => ?_) (fun i d hd => ?_) ?_
  · cases hc
    refine ⟨rfl, by omega, fun side => ⟨[], by simpa [Channel.new] using Queue.holds_new⟩,
      fun side => ⟨fun _ => ?_, fun _ => by simp [Channel.new]⟩,
      fun side _ => by simpa [Channel.new] using Queue.holds_new, ⟨0, by simp [Channel.new]⟩⟩
    match side with
    | 0 => exact ⟨id₀, e₀, (hentry id₀ e₀).mpr (Or.inl ⟨rfl, rfl⟩), h₀⟩
    | 1 => exact ⟨id₁, e₁, (hentry id₁ e₁).mpr (Or.inr (Or.inl ⟨rfl, rfl⟩)), h₁⟩
  · refine (h.fits hc).rename (by omega) fun side => ⟨?_, ?_⟩
    · rintro ⟨i, d, hd, heq⟩
      exact ⟨i, d, (hentry i d).mpr (Or.inr (Or.inr hd)), heq⟩
    · rintro ⟨i, d, hd, heq⟩
      rcases (hentry i d).mp hd with ⟨-, rfl⟩ | ⟨-, rfl⟩ | hd
      · rw [h₀] at heq
        cases heq
        exact absurd rfl hk
      · rw [h₁] at heq
        cases heq
        exact absurd rfl hk
      · exact ⟨i, d, hd, heq⟩
  · rcases (hentry i d).mp hd with ⟨-, rfl⟩ | ⟨-, rfl⟩ | hd
    · exact ⟨_, by rw [h₀, update_self]⟩
    · exact ⟨_, by rw [h₁, update_self]⟩
    · obtain ⟨c, hc⟩ := h.named i d hd
      exact ⟨c, by rw [update_of_ne (hapart i d hd), hc]⟩
  · intro i j d d' hd hd' heq
    rcases (hentry i d).mp hd with ⟨rfl, rfl⟩ | ⟨rfl, rfl⟩ | hd <;>
      rcases (hentry j d').mp hd' with ⟨rfl, rfl⟩ | ⟨rfl, rfl⟩ | hd'
    · rfl
    · rw [h₀, h₁] at heq
      cases heq
    · exact absurd (by rw [← heq, h₀]) (hapart j d' hd')
    · rw [h₀, h₁] at heq
      cases heq
    · rfl
    · exact absurd (by rw [← heq, h₁]) (hapart j d' hd')
    · exact absurd (by rw [heq, h₀]) (hapart i d hd)
    · exact absurd (by rw [heq, h₁]) (hapart i d hd)
    · exact h.single i j d d' hd hd' heq

/-- A channel that was never opened is not there. -/
theorem Broker.Valid.channel_next (v : s.Valid) : s.channel s.nextChannel = none := by
  cases hc : s.channel s.nextChannel with
  | none => rfl
  | some c => exact absurd (v.linked.below _ c hc) (lt_irrefl _)

/-- The broker with a new channel in a slot. -/
def Broker.connected (s : Broker) (slot : Fin CHANNELS) (handles : Handles) (next : UInt64) :
    Broker :=
  ({ s with handles := handles, nextChannel := next } : Broker).put slot
    (some (.new s.nextChannel))

theorem Broker.Valid.channel_connected (v : s.Valid) {slot : Fin CHANNELS}
    (hslot : s.channels[slot] = none) (handles : Handles) (next : UInt64) :
    UniqueKeys (s.connected slot handles next).keyed
      ∧ (s.connected slot handles next).channel
        = update s.channel s.nextChannel (some (.new s.nextChannel)) := by
  have hnone : ({ s with handles := handles, nextChannel := next } : Broker).channel
      (Channel.new s.nextChannel).id = none := v.channel_next
  exact Broker.put_new v.keys hslot hnone

/-- Nothing waits at the ends of a new channel, and elsewhere what waited before. -/
theorem Broker.Valid.inbox_connected (v : s.Valid) {slot : Fin CHANNELS}
    (hslot : s.channels[slot] = none) (handles : Handles) (next : UInt64) :
    (s.connected slot handles next).switch.inbox = s.switch.inbox := by
  funext e
  show (match (s.connected slot handles next).channel e.channel with
    | some c => c.queues[e.side].contents
    | none => []) = match s.channel e.channel with
    | some c => c.queues[e.side].contents
    | none => []
  rw [(v.channel_connected hslot handles next).2]
  by_cases he : e.channel = s.nextChannel
  · have hnew : (Channel.new s.nextChannel).queues[e.side] = Queue.new := by simp [Channel.new]
    rw [he, update_self, v.channel_next]
    dsimp only
    rw [hnew]
    exact Queue.holds_new.contents
  · rw [update_of_ne he]

theorem outcome_connected (v : s.Valid) {slot : Fin CHANNELS}
    (hvacant : s.channels.vacant = some slot) {a b first second next : UInt64} {t₁ t₂ : Handles}
    (hnext : s.nextChannel.toNat + 1 = next.toNat)
    (hfirst : s.handles.grant a ⟨s.nextChannel, 0⟩ ALL = .ok (first, t₁))
    (hsecond : t₁.grant b ⟨s.nextChannel, 1⟩ ALL = .ok (second, t₂)) :
    Outcome s (.connect a b) (.ok (.handles first second)) (s.connected slot t₂ next) := by
  obtain ⟨hgrant₁, hroom₁, hlive, howned⟩ := Table.grant_ok v.handles hfirst
  obtain ⟨hgrant₂, hroom₂, -⟩ := Table.grant_ok hgrant₁.valid hsecond
  have hslot := Slots.vacant_eq_some hvacant
  obtain ⟨hkeys, hchan⟩ := v.channel_connected hslot t₂ next
  have hroom : ¬ s.Full (.connect a b) := by
    have hcount := next.toNat_lt
    have hnames := hgrant₁.next
    simp only [Table.Full, Table.Spent, hlive, howned b] at hroom₁ hroom₂
    simp only [Broker.Full, hvacant, reduceCtorEq, false_or]
    omega
  have hfresh₂ := hgrant₂.fresh
  have hfind := hgrant₂.find
  rw [hgrant₁.find] at hfresh₂ hfind
  have hne : first ≠ second := by
    rintro rfl
    rw [update_self] at hfresh₂
    cases hfresh₂
  rw [update_of_ne hne.symm] at hfresh₂
  have hholder : (s.connected slot t₂ next).switch.holder
      = update (update s.switch.holder first
          (some ⟨a, ⟨s.nextChannel, 0⟩, ALL⟩)) second (some ⟨b, ⟨s.nextChannel, 1⟩, ALL⟩) := by
    show (fun i => (t₂.find i).map _) = _
    rw [hfind, holder_update, holder_update]
    rfl
  have hswitch : (s.connected slot t₂ next).switch
      = { (s.switch.hold first ⟨a, ⟨s.switch.next, 0⟩, ALL⟩).hold second
            ⟨b, ⟨s.switch.next, 1⟩, ALL⟩ with next := next } := by
    show ({ holder := (s.connected slot t₂ next).switch.holder,
            inbox := (s.connected slot t₂ next).switch.inbox, next := next } : Switch) = _
    rw [hholder, v.inbox_connected hslot]
    rfl
  refine outcome_ok ?_ (hswitch ▸ .connected hroom ?_ ?_ hne hnext)
  · exact { handles := hgrant₂.valid
            allowed := (hgrant₂.kind.allowed.trans hgrant₁.kind.allowed).trans v.allowed
            transferRight := (hgrant₂.kind.transferRight.trans
              hgrant₁.kind.transferRight).trans v.transferRight
            keys := hkeys
            linked := hchan ▸ v.linked.connect hnext rfl rfl hgrant₁.fresh hfresh₂ hne hfind }
  · exact congrArg (Option.map _) hgrant₁.fresh
  · exact congrArg (Option.map _) hfresh₂

/-- A handle that was given and given up again leaves no trace in the switch. -/
theorem outcome_connect_second (v : s.Valid) {a b first : UInt64} {t₁ t₂ : Handles}
    {object : Endpoint} (hfull : s.Full (.connect a b))
    (hfirst : s.handles.grant a ⟨s.nextChannel, 0⟩ ALL = .ok (first, t₁))
    (hremove : t₁.remove a first = .ok (object, t₂)) :
    Outcome s (.connect a b) (.error (.refused .quota)) { s with handles := t₂ } := by
  obtain ⟨hgrant, -⟩ := Table.grant_ok v.handles hfirst
  obtain ⟨-, -, -, hvalid, hkind, -, hgone⟩ := Table.remove_ok hgrant.valid hremove
  have hfind : t₂.find = s.handles.find := by
    rw [hgone, hgrant.find, Function.update_idem]
    exact Function.update_eq_self_iff.mpr hgrant.fresh.symm
  have hswitch : ({ s with handles := t₂ } : Broker).switch = s.switch := by
    unfold Broker.switch
    rw [hfind]
    rfl
  refine ⟨?_, hswitch ▸ .connectFull hfull,
    fun _ _ => ⟨rfl, Table.grant_remove_entries v.handles hfirst hremove⟩⟩
  exact { handles := hvalid
          allowed := (hkind.allowed.trans hgrant.kind.allowed).trans v.allowed
          transferRight := (hkind.transferRight.trans hgrant.kind.transferRight).trans
            v.transferRight
          keys := v.keys
          linked := hfind ▸ v.linked }

theorem settles_connect (v : s.Valid) (a b : UInt64) : Settles s (.connect a b) := by
  have hall : ∀ t : Handles, t.allowed = ALL → ¬ (ALL = 0 ∨ ALL &&& ~~~ t.allowed ≠ 0) := by
    intro t ht
    rw [ht]
    decide
  unfold Settles Broker.perform Broker.connect
  simp only [bind_assoc]
  refine .get_bind (.check_bind (fun _ h => ?_) fun slot hvacant => .check_bind (fun _ h => ?_)
    fun next hnext => leads_held (fun _ hfirst => ?_) fun ⟨first, t₁⟩ hfirst => ?_)
  · obtain ⟨hvacant, rfl⟩ := orRefuse_eq_error.mp h
    exact outcome_refused v (.connectFull (Or.inl hvacant))
  · obtain ⟨hadd, rfl⟩ := orRefuse_eq_error.mp h
    exact outcome_refused v
      (.connectFull (Or.inr (Or.inl (RusticOs.Fs.checkedAdd_eq_none.mp hadd))))
  · obtain ⟨rfl, hfull⟩ := Table.grant_eq_error (hall _ v.allowed) hfirst
    refine outcome_refused v (.connectFull ?_)
    simp only [Table.Full, Table.Spent] at hfull
    simp only [Broker.Full]
    omega
  · obtain ⟨hgrant, -, hlive, howned⟩ := Table.grant_ok v.handles hfirst
    rw [orRefuse_eq_ok] at hvacant hnext
    dsimp only
    cases hsecond : t₁.grant b ⟨s.nextChannel, 1⟩ ALL with
    | error error =>
      obtain ⟨rfl, hfull⟩ :=
        Table.grant_eq_error (hall _ (hgrant.kind.allowed.trans v.allowed)) hsecond
      have hheld : t₁.Held a first ⟨first, a, ⟨s.nextChannel, 0⟩, ALL⟩ :=
        ⟨by rw [hgrant.find, update_self], rfl⟩
      obtain ⟨t₂, hremove⟩ := hheld.remove hgrant.valid
      have hnames := hgrant.next
      simp only [Table.Full, Table.Spent, hlive, howned b] at hfull
      dsimp only
      rw [hremove]
      refine outcome_connect_second v ?_ hfirst hremove
      simp only [Broker.Full]
      omega
    | ok granted =>
      exact outcome_connected v hvacant (RusticOs.Fs.checkedAdd_eq_some.mp hnext) hfirst hsecond

/-! ### Every call -/

theorem settles (v : s.Valid) (call : Call) : Settles s call := by
  cases call with
  | connect a b => exact settles_connect v a b
  | send owner id bytes => exact settles_send v owner id bytes
  | peek owner id => exact settles_peek v owner id
  | consume owner id => exact settles_consume v owner id
  | close owner id => exact settles_close v owner id
  | closeOwner owner => exact settles_closeOwner v owner
  | transfer owner id target rights => exact settles_transfer v owner id target rights

end

end RusticOs.Kernel.Ipc
