import RusticOs.Proofs.Ipc

/-!
# `RusticOs.Proofs.Delivery`: what the message broker does over any sequence of calls

From its start the broker is a switch (`reached_after`), so whatever holds of every switch that
calls lead to holds of the broker: each end has one name, and what is delivered from an end is
what was sent to it, in order and once.

- `take_encode`: a message leaves the broker as it came in, with the sender's name in it.
- `broker_refines`: every sequence of calls, and every call after it.
-/

set_option autoImplicit false

namespace RusticOs.Kernel.Ipc

open RusticOs.Lib

/-! ### Messages keep their bytes -/

/-- What a message that was taken in was made of. -/
theorem Message.decode_ok {bytes : List UInt8} {sender : UInt64} {m : Message}
    (h : decode bytes sender = .ok m) :
    m.sender = sender ∧ bytes.length = m.length ∧ m.len ≤ PAYLOAD
      ∧ slice bytes 0 2 = le16 VERSION ∧ slice bytes 2 2 = le16 DATA
      ∧ slice bytes 4 4 = le32 (UInt32.ofNat m.len) ∧ slice bytes 8 8 = le64 m.correlation
      ∧ m.payload = Bytes.pack PAYLOAD (bytes.drop HEADER) := by
  unfold decode at h
  obtain ⟨_, hsize, h⟩ := except_bind_eq_ok.mp h
  obtain ⟨_, hversion, h⟩ := except_bind_eq_ok.mp h
  obtain ⟨_, hdata, h⟩ := except_bind_eq_ok.mp h
  obtain ⟨_, hlen, h⟩ := except_bind_eq_ok.mp h
  cases h
  rw [reject_eq_ok] at hsize hversion hdata hlen
  have hlong : 24 ≤ bytes.length := (not_not.mp hsize).1
  obtain ⟨hpayload, hlength⟩ := not_or.mp hlen
  refine ⟨rfl, not_not.mp hlength, not_lt.mp hpayload, ?_, ?_, ?_, ?_, rfl⟩
  · rw [← not_not.mp hversion, le16_ofLe16 (length_slice_of_le (by omega))]
  · rw [← not_not.mp (not_or.mp hdata).1, le16_ofLe16 (length_slice_of_le (by omega))]
  · rw [UInt32.ofNat_toNat, le32_ofLe32 (length_slice_of_le (by omega))]
  · rw [le64_ofLe64 (length_slice_of_le (by omega))]

/-- A message is handed out as it was taken in, but for the sender field, which is the owner
that sent it. -/
theorem Message.take_encode {bytes : List UInt8} {sender : UInt64} {m : Message}
    (h : decode bytes sender = .ok m) :
    m.encode.toList.take m.length = bytes.take 16 ++ le64 sender ++ bytes.drop HEADER := by
  obtain ⟨hsender, hlength, hlen, h₀, h₂, h₄, h₈, hpayload⟩ := decode_ok h
  have hrest : (bytes.drop HEADER).length = m.len := by
    rw [List.length_drop, hlength, length]
    omega
  have hbody : m.payload.toList.take m.len = bytes.drop HEADER := by
    rw [hpayload, Bytes.toList_pack, List.take_take, min_eq_left hlen,
      List.take_append_of_le_length hrest.ge, ← hrest, List.take_length]
  -- the first four fields are the first sixteen bytes
  have hfront : le16 VERSION ++ le16 DATA ++ le32 (UInt32.ofNat m.len) ++ le64 m.correlation
      = bytes.take 16 := by
    rw [← h₀, ← h₂, ← h₄, ← h₈, slice_append_slice, slice_append_slice, slice_append_slice, slice,
      List.drop_zero]
  have hfields : (bytes.take 16 ++ le64 sender ++ bytes.drop HEADER).length = m.length := by
    have hheader : HEADER = 24 := rfl
    rw [List.length_append, List.length_append, List.length_take, length_le64, hrest, hlength,
      length]
    omega
  have hfits : m.length ≤ MAX_MESSAGE := Nat.add_le_add_left hlen HEADER
  rw [encode, hbody, hfront, hsender, Bytes.toList_pack, List.take_take, min_eq_left hfits,
    List.take_append_of_le_length hfields.ge, ← hfields, List.take_length]

/-! ### Runs -/

/-- The broker after a sequence of calls. -/
def Broker.after (calls : List Call) : Broker := run Broker.next Broker.new calls

/-- The messages that calls put at an end. -/
def Broker.sent (s : Broker) : List Call → Endpoint → List Message
  | [], _ => []
  | call :: calls, e => s.switch.sends call (s.answer call) e ++ (s.next call).sent calls e

/-- The messages that calls take from an end. -/
def Broker.delivered (s : Broker) : List Call → Endpoint → List Message
  | [], _ => []
  | call :: calls, e => s.switch.delivers call (s.answer call) e ++ (s.next call).delivered calls e

theorem Broker.sent_snoc (s : Broker) (calls : List Call) (call : Call) (e : Endpoint) :
    s.sent (calls ++ [call]) e = s.sent calls e
      ++ (run Broker.next s calls).switch.sends call ((run Broker.next s calls).answer call) e := by
  induction calls generalizing s with
  | nil => simp [sent]
  | cons first calls ih => simp [sent, ih]

theorem Broker.delivered_snoc (s : Broker) (calls : List Call) (call : Call) (e : Endpoint) :
    s.delivered (calls ++ [call]) e = s.delivered calls e
      ++ (run Broker.next s calls).switch.delivers call
        ((run Broker.next s calls).answer call) e := by
  induction calls generalizing s with
  | nil => simp [delivered]
  | cons first calls ih => simp [delivered, ih]

theorem Broker.channel_new (k : UInt64) : Broker.new.channel k = none := by
  rw [channel, lookup_eq_none]
  intro i c
  simp [keyed, new]

theorem Broker.valid_new : Broker.new.Valid where
  handles := Table.valid_new 0 ALL TRANSFER
  allowed := rfl
  transferRight := rfl
  keys := by
    intro i j k c c' hi
    simp [keyed, new] at hi
  linked := by
    have hfind : ∀ id, Broker.new.handles.find id = none := Table.find_new 0 ALL TRANSFER
    constructor
    case named => exact fun id e h => by simp [hfind] at h
    case single => exact fun id id' e e' h => by simp [hfind] at h
    all_goals
      intro k c
      simp [channel_new]

theorem Broker.switch_new : Broker.new.switch = Switch.empty := by
  have hholder : Broker.new.switch.holder = fun _ => none := by
    funext id
    have hfind : Broker.new.handles.find id = none := Table.find_new 0 ALL TRANSFER id
    simp [switch, hfind]
  have hinbox : Broker.new.switch.inbox = fun _ => [] := by
    funext e
    simp only [switch, channel_new]
  show ({ holder := Broker.new.switch.holder, inbox := Broker.new.switch.inbox, next := 1 }
    : Switch) = Switch.empty
  rw [hholder, hinbox]
  rfl

/-- Every broker that calls lead to is valid and is a switch that calls lead to. -/
theorem reached_after (calls : List Call) :
    (Broker.after calls).Valid
      ∧ Switch.Reached (Broker.new.sent calls) (Broker.new.delivered calls)
          (Broker.after calls).switch := by
  induction calls using List.reverseRecOn with
  | nil => exact ⟨Broker.valid_new, Broker.switch_new ▸ .start⟩
  | append_singleton calls call ih =>
    obtain ⟨hvalid, hreached⟩ := ih
    have houtcome : Settles (Broker.after calls) call := settles hvalid call
    have hafter : Broker.after (calls ++ [call]) = (Broker.after calls).next call := by
      rw [Broker.after, run_append]
      rfl
    rw [hafter]
    refine ⟨houtcome.valid, ?_⟩
    have hstep := hreached.step houtcome.does
    have hsent : Broker.new.sent (calls ++ [call]) = fun e => Broker.new.sent calls e
        ++ (Broker.after calls).switch.sends call ((Broker.after calls).answer call) e :=
      funext fun e => Broker.sent_snoc _ calls call e
    have hdelivered : Broker.new.delivered (calls ++ [call])
        = fun e => Broker.new.delivered calls e
          ++ (Broker.after calls).switch.delivers call ((Broker.after calls).answer call) e :=
      funext fun e => Broker.delivered_snoc _ calls call e
    rw [hsent, hdelivered]
    exact hstep

/-! ### The broker is a switch -/

/-- A side of a channel is marked open. -/
def Broker.SideOpen (s : Broker) (e : Endpoint) : Prop :=
  ∃ c, s.channel e.channel = some c ∧ c.isOpen[e.side] = true

/-- A switch answers or refuses. -/
theorem Switch.Does.answered {sw sw' : Switch} {full : Call → Prop} {call : Call}
    {answer : Answer} (h : sw.Does full call answer sw') {halt : Halt Error}
    (hanswer : answer = .error halt) : ∃ error, halt = .refused error := by
  cases h with
  | connected _ _ _ _ _ | sent _ _ _ _ | peeked _ _ | consumed _ _ | closed _ | ownerClosed
  | transferred _ _ _ _ _ _ _ => cases hanswer
  | _ =>
    cases hanswer
    exact ⟨_, rfl⟩

/-- What the broker guarantees after a sequence of calls, and of every call from there. -/
structure Refines (calls : List Call) : Prop where
  simulates : ∀ call, (Broker.after calls).switch.Does (Broker.after calls).Full call
    ((Broker.after calls).answer call) ((Broker.after calls).next call).switch
  returns : ∀ call halt, (Broker.after calls).answer call = .error halt →
    ∃ error, halt = .refused error
  refusal : ∀ call halt, (Broker.after calls).answer call = .error halt →
    ((Broker.after calls).next call).channels = (Broker.after calls).channels
      ∧ ((Broker.after calls).next call).handles.entries = (Broker.after calls).handles.entries
  sides : ∀ e, (Broker.after calls).SideOpen e ↔ ∃! id, (Broker.after calls).switch.Names id e
  channels : ∀ k, ((Broker.after calls).channel k).isSome
    ↔ ∃ side, (Broker.after calls).SideOpen ⟨k, side⟩
  stream : ∀ e, (Broker.after calls).SideOpen e →
    Broker.new.sent calls e = Broker.new.delivered calls e ++ (Broker.after calls).switch.inbox e
  ordered : ∀ e, Broker.new.delivered calls e <+: Broker.new.sent calls e
  unmodified : ∀ bytes owner m, Message.decode bytes owner = .ok m →
    m.encode.toList.take m.length = bytes.take 16 ++ le64 owner ++ bytes.drop HEADER

theorem Broker.Valid.sideOpen_iff {s : Broker} (v : s.Valid) (e : Endpoint) :
    s.SideOpen e ↔ s.switch.IsOpen e := by
  constructor
  · rintro ⟨c, hc, hopen⟩
    exact (v.isOpen_iff hc).mp hopen
  · rintro ⟨id, hid⟩
    exact v.channel_of_names hid

/-- The broker is a set of channels with a queue of two messages each way. -/
theorem broker_refines (calls : List Call) : Refines calls := by
  obtain ⟨v, hreached⟩ := reached_after calls
  have hstreams := hreached.streams
  constructor
  case simulates => exact fun call => (settles v call).does
  case returns => exact fun call halt h => (settles v call).does.answered h
  case refusal => exact fun call halt h => (settles v call).frame halt h
  case sides =>
    intro e
    rw [v.sideOpen_iff]
    constructor
    · rintro ⟨id, hid⟩
      exact ⟨id, hid, fun id' hid' => hstreams.sound.single id' id e hid' hid⟩
    · rintro ⟨id, hid, -⟩
      exact ⟨id, hid⟩
  case channels =>
    intro k
    rw [Option.isSome_iff_exists]
    constructor
    · rintro ⟨c, hc⟩
      obtain ⟨side, hside⟩ := v.linked.alive k c hc
      exact ⟨side, c, hc, hside⟩
    · rintro ⟨side, c, hc, -⟩
      exact ⟨c, hc⟩
  case stream =>
    intro e hopen
    exact hstreams.stream e ((v.sideOpen_iff e).mp hopen)
  case ordered => exact hstreams.ordered
  case unmodified => exact fun bytes owner m h => Message.take_encode h

-- an owner connected to itself twelve times holds its 24 handles: it gets no more of them
example :
    let s := Broker.after (List.replicate 12 (.connect 1 1) ++ [.connect 2 3])
    s.answer (.connect 1 2) = .error (.refused .quota)
      ∧ s.answer (.transfer 2 25 1 READ) = .error (.refused .quota)
      ∧ s.answer (.transfer 2 25 4 READ) = .ok (.handle 27) := by
  decide +kernel

end RusticOs.Kernel.Ipc
