import RusticOs.Kernel.Ipc

/-!
# `RusticOs.Kernel.Switch`: what the message broker is for

A switch connects owners by channels of two ends. Its state is who holds which end under which
name, and for each end the messages that wait there, oldest first. `Switch.Does` says what each
call may answer and do, with no table, no slot and no ring in it: the numbers of channels count
up and a name is fresh. Which calls there is no room for is its parameter `full`: these are refused
with `quota`, and no others.

- `Does.flow`: what waits at an end that stays open, what is sent to it and what is delivered
  from it are one stream.
-/

set_option autoImplicit false

namespace RusticOs.Kernel.Ipc

/-- Who holds an end, and for what. -/
structure Holder where
  owner : UInt64
  endpoint : Endpoint
  rights : UInt8
  deriving DecidableEq

/-- The state of a switch. Channels from number `next` on were never opened. -/
structure Switch where
  holder : UInt64 → Option Holder
  inbox : Endpoint → List Message
  next : UInt64

namespace Switch

/-- A live handle names an end. -/
def Names (sw : Switch) (id : UInt64) (e : Endpoint) : Prop :=
  ∃ x, sw.holder id = some x ∧ x.endpoint = e

/-- An end some handle names is open. -/
def IsOpen (sw : Switch) (e : Endpoint) : Prop := ∃ id, sw.Names id e

/-- An owner's handle gives it a right at an end. -/
def Reaches (sw : Switch) (owner id : UInt64) (right : UInt8) (e : Endpoint) : Prop :=
  ∃ x, sw.holder id = some x ∧ x.owner = owner ∧ x.rights &&& right = right ∧ x.endpoint = e

/-- The refusal of a handle that does not give a right. -/
inductive Refuses (sw : Switch) (owner id : UInt64) (right : UInt8) : Error → Prop
  | foreign (h : ∀ x, sw.holder id = some x → x.owner ≠ owner) : Refuses sw owner id right .handle
  | lacking {x : Holder} (h : sw.holder id = some x) (howner : x.owner = owner)
      (hright : x.rights &&& right ≠ right) : Refuses sw owner id right .denied

/-- A new holder of an end. -/
def hold (sw : Switch) (id : UInt64) (x : Holder) : Switch :=
  { sw with holder := Function.update sw.holder id (some x) }

/-- Nobody holds the end of a name any more. -/
def drop (sw : Switch) (id : UInt64) : Switch :=
  { sw with holder := Function.update sw.holder id none }

/-- The messages that wait at one end change. -/
def wait (sw : Switch) (e : Endpoint) (l : List Message) : Switch :=
  { sw with inbox := Function.update sw.inbox e l }

/-- An owner holds an end. -/
def Owns (sw : Switch) (owner : UInt64) (e : Endpoint) : Prop :=
  ∃ id x, sw.holder id = some x ∧ x.owner = owner ∧ x.endpoint = e

open Classical in
/-- Everything of one owner is closed. -/
noncomputable def dropOwner (sw : Switch) (owner : UInt64) : Switch :=
  { sw with
    holder := fun id => (sw.holder id).filter fun x => x.owner ≠ owner
    inbox := fun e => if sw.Owns owner e then [] else sw.inbox e }

/-- What each call may answer, and what it does, when there is no room for the calls in `full`. -/
inductive Does (sw : Switch) (full : Call → Prop) : Call → Answer → Switch → Prop
  | connected {a b first second next : UInt64} (hroom : ¬ full (.connect a b))
      (hfirst : sw.holder first = none) (hsecond : sw.holder second = none) (hne : first ≠ second)
      (hnext : sw.next.toNat + 1 = next.toNat) :
      Does sw full (.connect a b) (.ok (.handles first second))
        { (sw.hold first ⟨a, ⟨sw.next, 0⟩, ALL⟩).hold second ⟨b, ⟨sw.next, 1⟩, ALL⟩ with
          next := next }
  | connectFull {a b : UInt64} (hfull : full (.connect a b)) :
      Does sw full (.connect a b) (.error (.refused .quota)) sw
  | sendRefused {owner id : UInt64} {bytes : List UInt8} {error : Error}
      (h : sw.Refuses owner id WRITE error) :
      Does sw full (.send owner id bytes) (.error (.refused error)) sw
  | sendMalformed {owner id : UInt64} {bytes : List UInt8} {error : Error} {e : Endpoint}
      (h : sw.Reaches owner id WRITE e) (hbytes : Message.decode bytes owner = .error error) :
      Does sw full (.send owner id bytes) (.error (.refused error)) sw
  | sendClosed {owner id : UInt64} {bytes : List UInt8} {m : Message} {e : Endpoint}
      (h : sw.Reaches owner id WRITE e) (hbytes : Message.decode bytes owner = .ok m)
      (hclosed : ¬ sw.IsOpen e.peer) :
      Does sw full (.send owner id bytes) (.error (.refused .closed)) sw
  | sendFull {owner id : UInt64} {bytes : List UInt8} {m : Message} {e : Endpoint}
      (h : sw.Reaches owner id WRITE e) (hbytes : Message.decode bytes owner = .ok m)
      (hopen : sw.IsOpen e.peer) (hfull : (sw.inbox e.peer).length = 2) :
      Does sw full (.send owner id bytes) (.error (.refused .wouldBlock)) sw
  | sent {owner id : UInt64} {bytes : List UInt8} {m : Message} {e : Endpoint}
      (h : sw.Reaches owner id WRITE e) (hbytes : Message.decode bytes owner = .ok m)
      (hopen : sw.IsOpen e.peer) (hroom : (sw.inbox e.peer).length < 2) :
      Does sw full (.send owner id bytes) (.ok .none) (sw.wait e.peer (sw.inbox e.peer ++ [m]))
  | peekRefused {owner id : UInt64} {error : Error} (h : sw.Refuses owner id READ error) :
      Does sw full (.peek owner id) (.error (.refused error)) sw
  | peekBlocks {owner id : UInt64} {e : Endpoint} (h : sw.Reaches owner id READ e)
      (hempty : sw.inbox e = []) (hopen : sw.IsOpen e.peer) :
      Does sw full (.peek owner id) (.error (.refused .wouldBlock)) sw
  | peekClosed {owner id : UInt64} {e : Endpoint} (h : sw.Reaches owner id READ e)
      (hempty : sw.inbox e = []) (hclosed : ¬ sw.IsOpen e.peer) :
      Does sw full (.peek owner id) (.error (.refused .closed)) sw
  | peeked {owner id : UInt64} {e : Endpoint} {m : Message} {l : List Message}
      (h : sw.Reaches owner id READ e) (hinbox : sw.inbox e = m :: l) :
      Does sw full (.peek owner id) (.ok (.message m)) sw
  | consumeRefused {owner id : UInt64} {error : Error} (h : sw.Refuses owner id READ error) :
      Does sw full (.consume owner id) (.error (.refused error)) sw
  | consumeBlocks {owner id : UInt64} {e : Endpoint} (h : sw.Reaches owner id READ e)
      (hempty : sw.inbox e = []) (hopen : sw.IsOpen e.peer) :
      Does sw full (.consume owner id) (.error (.refused .wouldBlock)) sw
  | consumeClosed {owner id : UInt64} {e : Endpoint} (h : sw.Reaches owner id READ e)
      (hempty : sw.inbox e = []) (hclosed : ¬ sw.IsOpen e.peer) :
      Does sw full (.consume owner id) (.error (.refused .closed)) sw
  | consumed {owner id : UInt64} {e : Endpoint} {m : Message} {l : List Message}
      (h : sw.Reaches owner id READ e) (hinbox : sw.inbox e = m :: l) :
      Does sw full (.consume owner id) (.ok .none) (sw.wait e l)
  | closeRefused {owner id : UInt64} (h : sw.Refuses owner id 0 .handle) :
      Does sw full (.close owner id) (.error (.refused .handle)) sw
  | closed {owner id : UInt64} {e : Endpoint} (h : sw.Reaches owner id 0 e) :
      Does sw full (.close owner id) (.ok .none) ((sw.drop id).wait e [])
  | ownerClosed {owner : UInt64} : Does sw full (.closeOwner owner) (.ok .none) (sw.dropOwner owner)
  | transferRefused {owner id target : UInt64} {rights : UInt8}
      (h : sw.Refuses owner id 0 .handle) :
      Does sw full (.transfer owner id target rights) (.error (.refused .handle)) sw
  | transferDenied {owner id target : UInt64} {rights : UInt8} {x : Holder}
      (h : sw.holder id = some x) (howner : x.owner = owner)
      (hrights : x.rights &&& TRANSFER = 0 ∨ rights = 0 ∨ rights &&& ~~~ x.rights ≠ 0) :
      Does sw full (.transfer owner id target rights) (.error (.refused .denied)) sw
  | transferFull {owner id target : UInt64} {rights : UInt8} {x : Holder}
      (h : sw.holder id = some x) (howner : x.owner = owner)
      (hright : x.rights &&& TRANSFER ≠ 0) (hsome : rights ≠ 0)
      (hfewer : rights &&& ~~~ x.rights = 0) (hfull : full (.transfer owner id target rights)) :
      Does sw full (.transfer owner id target rights) (.error (.refused .quota)) sw
  | transferred {owner id target new : UInt64} {rights : UInt8} {x : Holder}
      (h : sw.holder id = some x) (howner : x.owner = owner)
      (hright : x.rights &&& TRANSFER ≠ 0) (hsome : rights ≠ 0)
      (hfewer : rights &&& ~~~ x.rights = 0) (hnew : (sw.drop id).holder new = none)
      (hroom : ¬ full (.transfer owner id target rights)) :
      Does sw full (.transfer owner id target rights) (.ok (.handle new))
        ((sw.drop id).hold new ⟨target, x.endpoint, rights⟩)

/-- The message a call puts at an end. -/
def sends (sw : Switch) (call : Call) (answer : Answer) (e : Endpoint) : List Message :=
  match call, answer with
  | .send owner id bytes, .ok _ =>
    match sw.holder id, Message.decode bytes owner with
    | some x, .ok m => if x.endpoint.peer = e then [m] else []
    | _, _ => []
  | _, _ => []

/-- The message a call takes from an end: the one `peek` shows there. -/
def delivers (sw : Switch) (call : Call) (answer : Answer) (e : Endpoint) : List Message :=
  match call, answer with
  | .consume _ id, .ok _ =>
    match sw.holder id with
    | some x => if x.endpoint = e then (sw.inbox e).take 1 else []
    | none => []
  | _, _ => []

/-- A switch nobody is connected to. -/
def empty : Switch := { holder := fun _ => none, inbox := fun _ => [], next := 1 }

/-- A switch that calls led to, with what was sent to and delivered from each end. -/
inductive Reached : (Endpoint → List Message) → (Endpoint → List Message) → Switch → Prop
  | start : Reached (fun _ => []) (fun _ => []) empty
  | step {sent delivered : Endpoint → List Message} {sw sw' : Switch} {call : Call}
      {answer : Answer} {full : Call → Prop} (h : Reached sent delivered sw)
      (hdoes : Does sw full call answer sw') :
      Reached (fun e => sent e ++ sw.sends call answer e)
        (fun e => delivered e ++ sw.delivers call answer e) sw'

/-! ### One call -/

section
variable {sw sw' : Switch} {id id' : UInt64} {e e' : Endpoint} {x : Holder}

theorem names_hold : (sw.hold id x).Names id' e'
    ↔ (id' = id ∧ x.endpoint = e') ∨ (id' ≠ id ∧ sw.Names id' e') := by
  unfold Names hold
  by_cases h : id' = id
  · subst h
    simp
  · simp [h]

theorem names_drop : (sw.drop id).Names id' e' ↔ id' ≠ id ∧ sw.Names id' e' := by
  unfold Names drop
  by_cases h : id' = id
  · subst h
    simp
  · simp [h]

variable {owner : UInt64} {call : Call} {answer : Answer}

theorem names_dropOwner : (sw.dropOwner owner).Names id' e'
    ↔ ∃ x, sw.holder id' = some x ∧ x.owner ≠ owner ∧ x.endpoint = e' := by
  unfold Names dropOwner
  simp only [Option.filter_eq_some_iff, decide_eq_true_eq, and_assoc]

/-- An owner that holds nothing loses nothing. -/
theorem dropOwner_of_none (h : ∀ id x, sw.holder id = some x → x.owner ≠ owner) :
    sw.dropOwner owner = sw := by
  have hholder : (fun id => (sw.holder id).filter fun x => x.owner ≠ owner) = sw.holder := by
    funext id
    cases hx : sw.holder id with
    | none => rfl
    | some x => exact Option.filter_some_pos (decide_eq_true (h id x hx))
  unfold dropOwner
  rw [hholder]
  congr 1
  funext e
  refine if_neg ?_
  rintro ⟨id, x, hx, howner, -⟩
  exact h id x hx howner

theorem owns_drop (hx : sw.holder id = some x) (he : e ≠ x.endpoint) {l : List Message} :
    ((sw.drop id).wait x.endpoint l).Owns owner e ↔ sw.Owns owner e := by
  refine exists_congr fun id' => exists_congr fun y => ?_
  show Function.update sw.holder id none id' = some y ∧ _ ↔ _
  by_cases h : id' = id
  · subst h
    rw [Function.update_self, hx]
    constructor
    · rintro ⟨hy, -⟩
      cases hy
    · rintro ⟨hy, -, hye⟩
      cases hy
      exact absurd hye.symm he
  · rw [Function.update_of_ne h]

/-- Closing one end of an owner and then the rest is closing them all. -/
theorem dropOwner_drop (hx : sw.holder id = some x) :
    ((sw.drop id).wait x.endpoint []).dropOwner x.owner = sw.dropOwner x.owner := by
  unfold dropOwner
  congr 1
  · funext id'
    show (Function.update sw.holder id none id').filter _ = _
    by_cases h : id' = id
    · subst h
      simp [hx, Option.filter_some]
    · rw [Function.update_of_ne h]
  · funext e
    by_cases he : e = x.endpoint
    · rw [if_pos (show sw.Owns x.owner e from ⟨id, x, hx, rfl, he.symm⟩)]
      split
      · rfl
      · rw [he]
        exact Function.update_self _ _ _
    · rw [show ((sw.drop id).wait x.endpoint []).inbox e = sw.inbox e from
        Function.update_of_ne he _ _]
      by_cases hown : sw.Owns x.owner e
      · rw [if_pos hown, if_pos ((owns_drop hx he).mpr hown)]
      · rw [if_neg hown, if_neg fun h => hown ((owns_drop hx he).mp h)]

/-- Each end has one name, and the channels from the next number on have none. -/
structure Sound (sw : Switch) : Prop where
  single : ∀ id id' e, sw.Names id e → sw.Names id' e → id = id'
  below : ∀ id e, sw.Names id e → e.channel.toNat < sw.next.toNat

theorem sound_empty : empty.Sound where
  single := by
    rintro id id' e ⟨x, hx, -⟩
    cases hx
  below := by
    rintro id e ⟨x, hx, -⟩
    cases hx

/-- Fewer names, or other messages, leave a switch sound. -/
theorem Sound.of_names (h : sw.Sound) (hnext : sw'.next = sw.next)
    (hnames : ∀ id e, sw'.Names id e → sw.Names id e) : sw'.Sound where
  single := fun id id' e hid hid' => h.single id id' e (hnames id e hid) (hnames id' e hid')
  below := fun id e hid => hnext ▸ h.below id e (hnames id e hid)

theorem Sound.drop (h : sw.Sound) (id : UInt64) : (sw.drop id).Sound :=
  h.of_names rfl fun _ _ hnames => (names_drop.mp hnames).2

/-- A new name for an end that has none leaves a switch sound. -/
theorem Sound.hold (h : sw.Sound) (hfree : ∀ id', ¬ sw.Names id' x.endpoint)
    (hbelow : x.endpoint.channel.toNat < sw.next.toNat) : (sw.hold id x).Sound where
  single := by
    intro i j e hi hj
    rw [names_hold] at hi hj
    rcases hi with ⟨rfl, rfl⟩ | ⟨-, hi⟩ <;> rcases hj with ⟨rfl, hje⟩ | ⟨-, hj⟩
    · rfl
    · exact absurd hj (hfree j)
    · exact absurd (hje ▸ hi) (hfree i)
    · exact h.single i j e hi hj
  below := by
    intro i e hi
    rcases names_hold.mp hi with ⟨-, rfl⟩ | ⟨-, hi⟩
    · exact hbelow
    · exact h.below i e hi

/-- Counting on opens nothing. -/
theorem Sound.count {next : UInt64} (h : sw.Sound) (hnext : sw.next.toNat ≤ next.toNat) :
    ({ sw with next := next } : Switch).Sound where
  single := h.single
  below := fun id e hid => (h.below id e hid).trans_le hnext

/-- A name that moved: its old end is the only one it names. -/
theorem Sound.free_of_drop (h : sw.Sound) (hx : sw.holder id = some x) (id' : UInt64) :
    ¬ (sw.drop id).Names id' x.endpoint := by
  intro hnames
  obtain ⟨hne, hnames⟩ := names_drop.mp hnames
  exact hne (h.single id' id x.endpoint hnames ⟨x, hx, rfl⟩)

section
variable {full : Call → Prop} (hdoes : Does sw full call answer sw')
include hdoes

theorem Does.sound (h : sw.Sound) : sw'.Sound := by
  cases hdoes with
  | @connected a b first second next hroom hfirst hsecond hne hnext =>
    -- the two ends of a channel that was never open
    have hnever : ∀ id side, ¬ sw.Names id ⟨sw.next, side⟩ :=
      fun id side hid => (h.below id _ hid).false
    have hcounted : ({ sw with next := next } : Switch).Sound := h.count (by omega)
    have hlt : sw.next.toNat < next.toNat := by omega
    have hone : (({ sw with next := next } : Switch).hold first ⟨a, ⟨sw.next, 0⟩, ALL⟩).Sound :=
      hcounted.hold (fun id => hnever id 0) hlt
    refine hone.hold ?_ hlt
    intro id hid
    rcases names_hold.mp hid with ⟨-, heq⟩ | ⟨-, hid⟩
    · cases heq
    · exact hnever id 1 hid
  | closed _ => exact (h.drop _).of_names rfl fun _ _ hid => hid
  | ownerClosed =>
    refine h.of_names rfl fun id e hid => ?_
    obtain ⟨x, hx, -, he⟩ := names_dropOwner.mp hid
    exact ⟨x, hx, he⟩
  | transferred hx howner hright hsome hfewer hnew hroom =>
    apply (h.drop _).hold
    · exact fun id' hid' => h.free_of_drop hx id' hid'
    · exact h.below _ _ ⟨_, hx, rfl⟩
  | sent _ _ _ _ | consumed _ _ => exact h.of_names rfl fun _ _ hid => hid
  | _ => exact h

/-- An end that is opened by a call is an end of the next channel. -/
theorem Does.opened (hclosed : ¬ sw.IsOpen e) (hopen : sw'.IsOpen e) : e.channel = sw.next := by
  obtain ⟨id, hid⟩ := hopen
  cases hdoes with
  | connected hroom hfirst hsecond hne hnext =>
    rcases names_hold.mp hid with ⟨-, rfl⟩ | ⟨-, hid⟩
    · rfl
    rcases names_hold.mp hid with ⟨-, rfl⟩ | ⟨-, hid⟩
    · rfl
    exact absurd ⟨id, hid⟩ hclosed
  | closed _ => exact absurd ⟨id, (names_drop.mp hid).2⟩ hclosed
  | ownerClosed =>
    obtain ⟨x, hx, -, he⟩ := names_dropOwner.mp hid
    exact absurd ⟨id, x, hx, he⟩ hclosed
  | transferred hx howner hright hsome hfewer hnew hroom =>
    rcases names_hold.mp hid with ⟨-, rfl⟩ | ⟨-, hid⟩
    · exact absurd ⟨_, _, hx, rfl⟩ hclosed
    · exact absurd ⟨id, (names_drop.mp hid).2⟩ hclosed
  | _ => exact absurd ⟨id, hid⟩ hclosed

theorem Does.next_le : sw.next.toNat ≤ sw'.next.toNat := by
  cases hdoes with
  | connected hroom hfirst hsecond hne hnext => exact Nat.le.intro hnext
  | _ => exact le_refl _

/-- What waits at an end that stays open, with what a call puts there, is what the call takes
from it with what waits there afterwards. -/
theorem Does.flow (h : sw.Sound) (hopen : sw'.IsOpen e) :
    sw.inbox e ++ sw.sends call answer e = sw.delivers call answer e ++ sw'.inbox e := by
  cases hdoes with
  | @sent owner id bytes m e₀ hreach hbytes hpeer hroom =>
    obtain ⟨x, hx, -, -, rfl⟩ := hreach
    simp only [sends, delivers, hx, hbytes, wait, List.nil_append]
    by_cases he : x.endpoint.peer = e
    · subst he
      simp
    · rw [if_neg he, Function.update_of_ne (Ne.symm he), List.append_nil]
  | @consumed owner id e₀ m l hreach hinbox =>
    obtain ⟨x, hx, -, -, rfl⟩ := hreach
    simp only [sends, delivers, hx, wait, List.append_nil]
    by_cases he : x.endpoint = e
    · subst he
      simp [hinbox]
    · rw [if_neg he, Function.update_of_ne (Ne.symm he), List.nil_append]
  | @closed owner id e₀ hreach =>
    obtain ⟨x, hx, -, -, rfl⟩ := hreach
    have he : e ≠ x.endpoint := by
      rintro rfl
      obtain ⟨id', hid'⟩ := hopen
      exact h.free_of_drop hx id' hid'
    simp only [sends, delivers, wait, drop, List.append_nil, List.nil_append]
    rw [Function.update_of_ne he]
  | @ownerClosed owner =>
    obtain ⟨id', hid'⟩ := hopen
    obtain ⟨y, hy, hyowner, hye⟩ := names_dropOwner.mp hid'
    simp only [sends, delivers, dropOwner, List.append_nil, List.nil_append]
    rw [if_neg]
    rintro ⟨id, x, hx, hxowner, hxe⟩
    -- one name for each end: the owner's and the other's would be the same
    have hsame := h.single id id' e ⟨x, hx, hxe⟩ ⟨y, hy, hye⟩
    rw [hsame, hy] at hx
    cases hx
    exact hyowner hxowner
  | _ => simp [sends, delivers, hold, drop]

/-- Nothing is put at or taken from an end that is closed. -/
theorem Does.quiet (hclosed : ¬ sw.IsOpen e) :
    sw.sends call answer e = [] ∧ sw.delivers call answer e = [] := by
  cases hdoes with
  | @sent owner id bytes m e₀ hreach hbytes hpeer hroom =>
    obtain ⟨x, hx, -, -, rfl⟩ := hreach
    have he : x.endpoint.peer ≠ e := fun he => hclosed (he ▸ hpeer)
    simp [sends, delivers, hx, hbytes, he]
  | @consumed owner id e₀ m l hreach hinbox =>
    obtain ⟨x, hx, -, -, rfl⟩ := hreach
    have he : x.endpoint ≠ e := fun he => hclosed ⟨id, x, hx, he⟩
    simp [sends, delivers, hx, he]
  | _ => simp [sends, delivers]

/-- Nothing changes at an end that is closed. -/
theorem Does.inbox_of_closed (hclosed : ¬ sw.IsOpen e) : sw'.inbox e = sw.inbox e := by
  have hne : ∀ {owner id right e₀}, sw.Reaches owner id right e₀ → e ≠ e₀ := by
    rintro owner id right e₀ ⟨x, hx, -, -, he⟩ rfl
    exact hclosed ⟨id, x, hx, he⟩
  cases hdoes with
  | @sent _ _ _ _ e₀ hreach hbytes hpeer hroom =>
    have hpeerNe : e ≠ e₀.peer := fun he => hclosed (he ▸ hpeer)
    exact Function.update_of_ne hpeerNe _ _
  | consumed hreach hinbox | closed hreach => exact Function.update_of_ne (hne hreach) _ _
  | ownerClosed =>
    refine if_neg ?_
    rintro ⟨id, x, hx, -, he⟩
    exact hclosed ⟨id, x, hx, he⟩
  | _ => rfl

end

/-- A call takes from an end only what waits there. -/
theorem delivers_prefix (sw : Switch) (call : Call) (answer : Answer) (e : Endpoint) :
    sw.delivers call answer e <+: sw.inbox e := by
  unfold delivers
  split
  · split
    · split
      · exact List.take_prefix _ _
      · exact List.nil_prefix
    · exact List.nil_prefix
  · exact List.nil_prefix

end

/-! ### Every run -/

/-- What was sent to an end and delivered from it: in order and once each, and nothing is lost
while the end is open. -/
structure Streams (sent delivered : Endpoint → List Message) (sw : Switch) : Prop where
  sound : sw.Sound
  stream : ∀ e, sw.IsOpen e → sent e = delivered e ++ sw.inbox e
  ordered : ∀ e, delivered e <+: sent e
  unused : ∀ e, sw.next.toNat ≤ e.channel.toNat → sent e = [] ∧ delivered e = []
  waits : ∀ e, sw.next.toNat ≤ e.channel.toNat → sw.inbox e = []

theorem streams_empty : Streams (fun _ => []) (fun _ => []) empty where
  sound := sound_empty
  stream := fun _ _ => rfl
  ordered := fun _ => List.nil_prefix
  unused := fun _ _ => ⟨rfl, rfl⟩
  waits := fun _ _ => rfl

theorem Streams.step {sent delivered : Endpoint → List Message} {sw sw' : Switch} {call : Call}
    {answer : Answer} {full : Call → Prop} (h : Streams sent delivered sw)
    (hdoes : Does sw full call answer sw') :
    Streams (fun e => sent e ++ sw.sends call answer e)
      (fun e => delivered e ++ sw.delivers call answer e) sw' := by
  have hnever : ∀ e, sw'.next.toNat ≤ e.channel.toNat →
      sw.next.toNat ≤ e.channel.toNat ∧ ¬ sw.IsOpen e := by
    intro e he
    have hle := hdoes.next_le
    exact ⟨by omega, fun ⟨id, hid⟩ => absurd (h.sound.below id e hid) (by omega)⟩
  constructor
  case sound => exact hdoes.sound h.sound
  case stream =>
    intro e hopen
    by_cases hbefore : sw.IsOpen e
    · rw [h.stream e hbefore, List.append_assoc, hdoes.flow h.sound hopen, List.append_assoc]
    · -- the end was opened by this call: nothing was ever sent to it
      have hnext : sw.next.toNat ≤ e.channel.toNat := by rw [hdoes.opened hbefore hopen]
      rw [(h.unused e hnext).1, (h.unused e hnext).2, (hdoes.quiet hbefore).1,
        (hdoes.quiet hbefore).2, hdoes.inbox_of_closed hbefore, h.waits e hnext]
      rfl
  case ordered =>
    intro e
    by_cases hbefore : sw.IsOpen e
    · obtain ⟨rest, hrest⟩ := delivers_prefix sw call answer e
      rw [h.stream e hbefore, ← hrest]
      exact ⟨rest ++ sw.sends call answer e, by simp⟩
    · rw [(hdoes.quiet hbefore).1, (hdoes.quiet hbefore).2, List.append_nil, List.append_nil]
      exact h.ordered e
  case unused =>
    intro e he
    obtain ⟨hnext, hclosed⟩ := hnever e he
    rw [(h.unused e hnext).1, (h.unused e hnext).2, (hdoes.quiet hclosed).1,
      (hdoes.quiet hclosed).2]
    exact ⟨rfl, rfl⟩
  case waits =>
    intro e he
    obtain ⟨hnext, hclosed⟩ := hnever e he
    rw [hdoes.inbox_of_closed hclosed, h.waits e hnext]

theorem Reached.streams {sent delivered : Endpoint → List Message} {sw : Switch}
    (h : Reached sent delivered sw) : Streams sent delivered sw := by
  induction h with
  | start => exact streams_empty
  | step _ hdoes ih => exact ih.step hdoes

end Switch

end RusticOs.Kernel.Ipc
