import RusticOs.Lib.Runs
import RusticOs.Proofs.Release

/-!
# `RusticOs.Proofs.Heap`: an allocator over any history of calls

A heap is an allocator with what its callers know: the blocks ever returned, those not freed
since, and the most bytes ever in use. A history is a list of calls, with any arguments; between
calls, bytes outside the region may become anything.

* `does`: one call either is refused and changes nothing, or does what `Does` says;
* `Sound.step`: the blocks not freed are the used cells, through every call;
* `heap_safe`: the invariant between calls, and what a call may do, along every history;
* `handles_exact`: a block is accepted exactly while it is live.

Both results are about histories whose allocations are `Measurable`. Without that, `alloc` on a
fresh region can panic or, in a release build, take a block of no bytes out of a free block
(`alloc_overflows`, `wrapped_handle_refused`).
-/

set_option autoImplicit false

namespace RusticOs.Sdk

open RusticOs.Lib RusticOs.Lib.Fallible
open RusticOs.Kernel (toNat_add_of_lt and_mask)

/-! ### Regions -/

/-- A region over an object of the language. -/
structure Region.Owned (g : Region) : Prop where
  aligned : g.base.toNat % 8 = 0
  words : g.len.toNat % 8 = 0
  bounded : g.base.toNat + g.len.toNat < 2 ^ 64
  small : g.len.toNat < 2 ^ 63

namespace Allocator

variable {b : Build} {s : Allocator} {cs : List Cell} {c : Cell} {blk : Block}

/-- A fresh allocator: one free cell. -/
theorem valid_initialise {g : Region} (hg : g.Owned) (h : initialise g = .ok s) :
    s.Valid [⟨g.len.toNat, none⟩] ∧ s.live = 0 ∧ s.used = 0 ∧ s.peak = 0 ∧ s.generation = 1 := by
  unfold initialise at h
  by_cases hshort : g.len < HEADER
  · rw [if_pos hshort] at h
    cases h
  have hlarge : 24 ≤ g.len.toNat := UInt64.le_iff_toNat_le.mp (UInt64.not_lt.mp hshort)
  have hzero : (0 : UInt64).toNat = 0 := rfl
  rw [if_neg hshort, Region.setHeader_eq (by decide) (by rw [hzero]; omega)] at h
  cases h
  have hself : (Header.load (g.stored 0 ⟨g.len, 0, tag 0 FREE⟩).memory g.base.toNat).Describes 0
      ⟨g.len.toNat, none⟩ := by
    have hload := Header.load_store_self g.memory g.base.toNat ⟨g.len, 0, tag 0 FREE⟩
    show (Header.load (Header.store g.memory (g.base.toNat + 0) _) g.base.toNat).Describes _ _
    rw [Nat.add_zero, hload]
    exact ⟨rfl, rfl, rfl⟩
  refine ⟨?_, rfl, rfl, rfl, rfl⟩
  exact { aligned := hg.aligned, bounded := hg.bounded, small := hg.small,
          tiles := ⟨hself, trivial⟩, sizes := by simp [hlarge, hg.words], covers := by simp; rfl,
          owners := by simp, apart := List.isChain_singleton _, used := rfl, live := rfl,
          peak := le_refl _,
          generation := (by decide : 0 < (1 : UInt64).toNat ∧ (1 : UInt64).toNat < 2 ^ 63) }

theorem Names.of_used {start a : Nat} {cs' : List Cell} (h : Names start cs blk a c)
    (hu : Used start cs' a c) : Names start cs' blk a c :=
  ⟨hu.1, h.address, h.owner, h.room⟩

/-- The payload of a block stays as it is when its cell stays used. -/
theorem Keeps.block {s' : Allocator} {cs' : List Cell} {a : Nat} (hk : Keeps s cs s' cs')
    (hn : Names s.region.base.toNat cs blk a c) (hu : Used s.region.base.toNat cs' a c) {i : Nat}
    (hl : blk.address.toNat ≤ i) (hr : i < blk.address.toNat + blk.size.toNat) :
    s'.region.memory i = s.region.memory i := by
  have haddress := hn.address
  have hroom := hn.room
  exact hk.payload a c hn.used hu i (by omega) (by omega)

/-! ### Calls -/

/-- What a caller, or anyone outside the region, may do. -/
inductive Call where
  | alloc (size align : UInt64)
  | free (block : Block)
  | bytes (block : Block)
  /-- Obtain a block's bytes with `bytes_mut` and write the given content into them. -/
  | bytesMut (block : Block) (content : Memory)
  | extend (extra : UInt64)
  | truncate (len : UInt64)
  /-- Bytes outside the region change. -/
  | elsewhere (content : Memory)

inductive Answer where
  | block (block : Block)
  | bytes (bytes : List UInt8)
  | done
  deriving DecidableEq

/-- The answer to a call. -/
def perform (b : Build) : Call → M Answer
  | .alloc size align => do
    let block ← alloc b size align
    return .block block
  | .free block => do
    free b block
    return .done
  | .bytes block => do
    let bytes ← bytes b block
    return .bytes bytes
  | .bytesMut block content => do
    bytesMut b block content
    return .done
  | .extend extra => do
    extend b extra
    return .done
  | .truncate len => do
    truncate b len
    return .done
  | .elsewhere content => do
    Fallible.change fun s => s.withMemory
      (content.splice s.region.base.toNat s.region.len.toNat s.region.memory)
    return .done

/-- The calls a history may make: sizes that can be measured, and `extend` within its contract. -/
def Permitted (s : Allocator) : Call → Prop
  | .alloc size align => Measurable size align
  | .extend extra => s.Appendable extra
  | _ => True

/-- What a call does, with the cells before and after. -/
inductive Does (s : Allocator) (cs : List Cell) :
    Call → Except (Halt AllocError) Answer → Allocator → List Cell → Prop
  | refused (call : Call) (e : AllocError) : Does s cs call (.error (.refused e)) s cs
  | allocated {size align : UInt64} {blk : Block} {s' : Allocator} {cs' : List Cell} {a : Nat}
      {u : Cell} (h : Allocated s cs size align blk s' cs' a u) :
      Does s cs (.alloc size align) (.ok (.block blk)) s' cs'
  | freed {blk : Block} {s' : Allocator} {cs' : List Cell} {a : Nat} {c : Cell}
      (hn : Names s.region.base.toNat cs blk a c) (h : Freed s cs s' cs' a) :
      Does s cs (.free blk) (.ok .done) s' cs'
  | read (blk : Block) (l : List UInt8) : Does s cs (.bytes blk) (.ok (.bytes l)) s cs
  | written {blk : Block} {a : Nat} {c : Cell} (content : Memory)
      (hn : Names s.region.base.toNat cs blk a c) :
      Does s cs (.bytesMut blk content) (.ok .done)
        (s.withMemory (s.region.memory.splice blk.address.toNat blk.size.toNat content)) cs
  | extended {s' : Allocator} {cs' : List Cell} (extra : UInt64) (h : Moved s cs s' cs') :
      Does s cs (.extend extra) (.ok .done) s' cs'
  | truncated {s' : Allocator} {cs' : List Cell} (len : UInt64) (h : Moved s cs s' cs') :
      Does s cs (.truncate len) (.ok .done) s' cs'
  | elsewhere (content : Memory) : Does s cs (.elsewhere content) (.ok .done)
      (s.withMemory (content.splice s.region.base.toNat s.region.len.toNat s.region.memory)) cs

/-- A call is refused and changes nothing, or does its work; it neither panics nor loops. -/
theorem does (h : s.Valid cs) {call : Call} (hp : Permitted s call) :
    ∃ r s' cs', (perform b call).run s = (r, s') ∧ Does s cs call r s' cs' := by
  cases call with
  | alloc size align =>
    rcases alloc_spec (b := b) h hp with ⟨e, hrun, -⟩ | ⟨blk, s', cs', a, u, hrun, hall, -⟩
    · exact ⟨_, _, _, run_bind_of_error hrun _, .refused _ e⟩
    · exact ⟨_, _, _, run_bind_of_ok hrun _, .allocated hall⟩
  | free blk =>
    rcases free_spec (b := b) h blk with ⟨a, c, s', cs', hn, hrun, hfreed⟩ | ⟨hrun | hrun, -⟩
    · exact ⟨_, _, _, run_bind_of_ok hrun _, .freed hn hfreed⟩
    · exact ⟨_, _, _, run_bind_of_error hrun _, .refused _ _⟩
    · exact ⟨_, _, _, run_bind_of_error hrun _, .refused _ _⟩
  | bytes blk =>
    rcases payload_spec (b := b) h.toTiled blk with ⟨a, c, hn, hrun⟩ | ⟨hrun | hrun, -⟩
    · exact ⟨_, _, _, run_bind_of_ok (run_bind_of_ok hrun _) _, .read _ _⟩
    · exact ⟨_, _, _, run_bind_of_error (run_bind_of_error hrun _) _,
        .refused _ _⟩
    · exact ⟨_, _, _, run_bind_of_error (run_bind_of_error hrun _) _,
        .refused _ _⟩
  | bytesMut blk content =>
    rcases payload_spec (b := b) h.toTiled blk with ⟨a, c, hn, hrun⟩ | ⟨hrun | hrun, -⟩
    · exact ⟨_, _, _, run_bind_of_ok (run_bind_of_ok hrun _) _,
        .written content hn⟩
    · exact ⟨_, _, _, run_bind_of_error (run_bind_of_error hrun _) _,
        .refused _ _⟩
    · exact ⟨_, _, _, run_bind_of_error (run_bind_of_error hrun _) _,
        .refused _ _⟩
  | extend extra =>
    rcases extend_spec (b := b) h hp with ⟨e, hrun, -⟩ | ⟨s', cs', hrun, hmoved, -⟩
    · exact ⟨_, _, _, run_bind_of_error hrun _, .refused _ e⟩
    · exact ⟨_, _, _, run_bind_of_ok hrun _, .extended extra hmoved⟩
  | truncate len =>
    rcases truncate_spec (b := b) len h with ⟨e, hrun, -⟩ | ⟨s', cs', hrun, hmoved, -⟩
    · exact ⟨_, _, _, run_bind_of_error hrun _, .refused _ e⟩
    · exact ⟨_, _, _, run_bind_of_ok hrun _, .truncated len hmoved⟩
  | elsewhere content => exact ⟨_, _, _, rfl, .elsewhere content⟩

/-! ### Debug and release builds -/

theorem faithful_step (s : Allocator) (offset : UInt64) :
    Faithful (s.step .debug offset) (s.step .release offset) := by
  unfold step
  refine (faithful_add _ _).bind fun top => ?_
  split
  · exact Faithful.refl _
  split
  · exact Faithful.refl _
  split
  · exact Faithful.refl _
  · exact (faithful_add _ _).bind fun _ => Faithful.refl _

theorem faithful_walk {β : Type} (s : Allocator)
    {visit visit' : UInt64 → UInt64 → Header → β → Except (Halt AllocError) (ForInStep β)}
    (hv : ∀ offset next header acc,
      Faithful (visit offset next header acc) (visit' offset next header acc)) (turns : Nat)
    (offset : UInt64) (acc : β) :
    Faithful (s.walk .debug visit turns offset acc) (s.walk .release visit' turns offset acc) := by
  induction turns generalizing offset acc with
  | zero => exact Faithful.refl _
  | succ turns ih =>
    unfold walk
    refine (faithful_step s offset).bind fun x => ?_
    cases x with
    | none => exact Faithful.refl _
    | some found =>
      refine (hv _ _ _ _).bind fun y => ?_
      cases y with
      | done y => exact Faithful.refl _
      | yield y => exact ih _ _

theorem faithful_last (s : Allocator) : Faithful (s.last .debug) (s.last .release) :=
  faithful_walk s (fun _ _ _ _ => Faithful.refl _) _ _ _

theorem faithful_leadingGap (block align : UInt64) :
    Faithful (leadingGap .debug block align) (leadingGap .release block align) := by
  unfold leadingGap
  split
  · exact Faithful.refl _
  · exact (faithful_sub _ _).bind fun _ => (faithful_sub _ _).bind fun _ => Faithful.refl _

theorem faithful_find (s : Allocator) (need align : UInt64) :
    Faithful (s.find .debug need align) (s.find .release need align) := by
  unfold find walkAll
  refine faithful_walk s (fun offset _ header _ => Faithful.bind ?_ fun _ => Faithful.refl _) _ _ _
  unfold fits
  split
  · refine (faithful_add _ _).bind fun block => (faithful_leadingGap _ _).bind fun x => ?_
    cases x with
    | none => exact Faithful.refl _
    | some gap =>
      exact (faithful_add _ _).bind fun _ => (faithful_add _ _).bind fun _ => Faithful.refl _
  · exact Faithful.refl _

theorem faithful_startOf (s : Allocator) (blk : Block) :
    Faithful (s.startOf .debug blk) (s.startOf .release blk) := by
  unfold startOf
  split
  · exact Faithful.refl _
  refine (faithful_sub _ _).bind fun target => ?_
  split
  · exact Faithful.refl _
  refine Faithful.bind (faithful_walk s (fun offset next header acc => ?_) _ _ _)
    fun _ => Faithful.refl _
  split
  · refine Faithful.bind ?_ fun _ => Faithful.refl _
    unfold owns
    split
    · exact Faithful.refl _
    refine (faithful_add _ _).bind fun payload => ?_
    split
    · exact Faithful.refl _
    · exact (faithful_sub _ _).bind fun _ => Faithful.refl _
  · exact Faithful.refl _

theorem faithful_relink (offset size : UInt64) :
    FaithfulRun (relink .debug offset size) (relink .release offset size) :=
  .next fun _ => .add fun _ => .refl _

theorem faithful_alloc (size align : UInt64) :
    FaithfulRun (alloc .debug size align) (alloc .release size align) := by
  refine .next fun _ => .next fun need => .next fun s =>
    (FaithfulRun.lift (faithful_find s need align)).bind fun found =>
    .sub fun free => .next fun place => .add fun stop => FaithfulRun.bind ?_ fun front =>
    .add fun want => FaithfulRun.bind ?_ fun back =>
    .next fun _ => (faithful_relink _ _).bind fun _ => FaithfulRun.bind ?_ fun _ =>
    .add fun _ => .refl _
  · unfold cutFront
    split
    · exact .next fun _ => .add fun _ => .sub fun _ => .refl _
    · exact .refl _
  · refine .add fun least => ?_
    split
    · exact .add fun _ => .sub fun _ => .refl _
    · exact .refl _
  · exact .next fun _ => .add fun _ => .add fun _ => .refl _

theorem faithful_coalesce (offset : UInt64) :
    FaithfulRun (coalesce .debug offset) (coalesce .release offset) := by
  refine .next fun header => FaithfulRun.bind ?_ fun header => FaithfulRun.bind ?_ fun merged =>
    .add fun _ => faithful_relink _ _
  · refine .next fun s => .add fun next => .add fun top => ?_
    split
    · refine .next fun following => ?_
      split
      · exact .add fun _ => .refl _
      · exact .refl _
    · exact .refl _
  · unfold mergePrevious
    split
    · refine .sub fun previous => .next fun merged => ?_
      split
      · exact .add fun _ => .refl _
      · exact .refl _
    · exact .refl _

theorem faithful_free (blk : Block) : FaithfulRun (free .debug blk) (free .release blk) :=
  .next fun s => (FaithfulRun.lift (faithful_startOf s blk)).bind fun _ => .next fun _ =>
    .next fun _ => FaithfulRun.bind (.next fun _ => .sub fun _ => .sub fun _ => .refl _)
      fun _ => faithful_coalesce _

theorem faithful_payload (blk : Block) :
    FaithfulRun (payload .debug blk) (payload .release blk) :=
  .next fun s => (FaithfulRun.lift (faithful_startOf s blk)).bind fun _ =>
    .add fun _ => .refl _

theorem faithful_extend (extra : UInt64) :
    FaithfulRun (extend .debug extra) (extend .release extra) := by
  refine .next fun _ => .next fun s => .next fun grown => FaithfulRun.bind (FaithfulRun.lift ?_)
    fun place => .next fun _ => FaithfulRun.bind (FaithfulRun.lift ?_) fun _ => .refl _
  · refine (faithful_last s).bind fun _ => Faithful.refl _
  · exact (faithful_add _ _).bind fun _ => Faithful.refl _

theorem faithful_truncate (len : UInt64) :
    FaithfulRun (truncate .debug len) (truncate .release len) := by
  refine .next fun _ => .next fun s => ?_
  split
  · exact .refl _
  · exact (FaithfulRun.lift (faithful_last s)).bind fun _ => .next fun _ => .next fun _ =>
      .sub fun _ => .refl _

/-- A call that does not panic in a debug build does the same in a release build. -/
theorem faithful_perform (call : Call) :
    FaithfulRun (perform .debug call) (perform .release call) := by
  cases call with
  | alloc size align => exact (faithful_alloc size align).bind fun _ => .refl _
  | free blk => exact (faithful_free blk).bind fun _ => .refl _
  | bytes blk | bytesMut blk content =>
    exact FaithfulRun.bind ((faithful_payload blk).bind fun _ => .refl _) fun _ => .refl _
  | extend extra => exact (faithful_extend extra).bind fun _ => .refl _
  | truncate len => exact (faithful_truncate len).bind fun _ => .refl _
  | elsewhere content => exact .refl _

end Allocator

open Allocator

/-! ### Histories -/

/-- An allocator and what its history has shown. -/
structure Heap where
  allocator : Allocator
  /-- Every block ever returned. -/
  issued : List Block
  /-- The blocks returned and not freed since. -/
  live : List Block
  /-- The most bytes ever in use. -/
  top : Nat

namespace Heap

/-- A heap with no history. -/
def start (s : Allocator) : Heap := ⟨s, [], [], 0⟩

/-- What an answer adds to the history. A freed allocation is the one at the address that was
freed. -/
def record (h : Heap) (s : Allocator) : Call → Except (Halt AllocError) Answer → Heap
  | .free blk, .ok _ =>
    ⟨s, h.issued, h.live.filter (·.address ≠ blk.address), max h.top s.used.toNat⟩
  | _, .ok (.block blk) => ⟨s, blk :: h.issued, blk :: h.live, max h.top s.used.toNat⟩
  | _, _ => ⟨s, h.issued, h.live, max h.top s.used.toNat⟩

/-- One call. -/
def step (b : Build) (h : Heap) (call : Call) : Heap :=
  h.record ((perform b call).run h.allocator).2 call ((perform b call).run h.allocator).1

/-- The heap after a history. -/
def after (b : Build) (s : Allocator) (calls : List Call) : Heap := run (step b) (start s) calls

/-- Every call of a history is permitted when it is made. -/
def PermittedAll (b : Build) (s : Allocator) (calls : List Call) : Prop :=
  Allowed (fun h call => Permitted h.allocator call) (step b) (start s) calls

variable {b : Build} {s s' : Allocator} {h : Heap} {cs cs' : List Cell} {blk : Block} {call : Call}

/-- The blocks not freed are the used cells. -/
structure Sound (h : Heap) (cs : List Cell) : Prop where
  valid : h.allocator.Valid cs
  named : ∀ blk ∈ h.live, ∃ a c, Names h.allocator.region.base.toNat cs blk a c
  owned : ∀ a c, Used h.allocator.region.base.toNat cs a c →
    ∃ blk ∈ h.live, blk.address.toNat = a + 24
  nodup : (h.live.map Block.address).Nodup
  count : h.allocator.live.toNat = h.live.length
  peak : h.allocator.peak.toNat = h.top
  issued : ∀ blk ∈ h.live, blk ∈ h.issued

/-- One block less. -/
theorem length_filter_address {l : List Block} (hnodup : (l.map Block.address).Nodup)
    (hmem : blk ∈ l) : (l.filter (·.address ≠ blk.address)).length + 1 = l.length := by
  induction l with
  | nil => cases hmem
  | cons x l ih =>
    obtain ⟨hx, hl⟩ := List.nodup_cons.mp hnodup
    by_cases heq : x.address = blk.address
    · have hall : l.filter (·.address ≠ blk.address) = l := by
        apply List.filter_eq_self.mpr
        intro y hy
        rw [decide_eq_true_eq]
        intro hyb
        exact hx (List.mem_map.mpr ⟨y, hy, hyb.trans heq.symm⟩)
      rw [List.filter_cons_of_neg (by simp [heq]), hall, List.length_cons]
    · rcases List.mem_cons.mp hmem with rfl | hmem
      · exact absurd rfl heq
      · rw [List.filter_cons_of_pos (by simp [heq]), List.length_cons, ih hl hmem, List.length_cons]

/-- A change that leaves the used cells and the totals alone. -/
theorem Sound.same (hs : Sound h cs) (hv : s'.Valid cs')
    (hbase : s'.region.base = h.allocator.region.base)
    (hcells : ∀ a c, Used h.allocator.region.base.toNat cs' a c
      ↔ Used h.allocator.region.base.toNat cs a c)
    (hused : s'.used = h.allocator.used) (hlive : s'.live = h.allocator.live)
    (hpeak : s'.peak = h.allocator.peak) :
    Sound ⟨s', h.issued, h.live, max h.top s'.used.toNat⟩ cs' where
  valid := hv
  named := by
    intro x hx
    obtain ⟨a, c, hn⟩ := hs.named x hx
    exact ⟨a, c, by rw [hbase]; exact hn.of_used ((hcells a c).mpr hn.used)⟩
  owned := by
    intro a c hu
    rw [hbase] at hu
    exact hs.owned a c ((hcells a c).mp hu)
  nodup := hs.nodup
  count := by rw [hlive]; exact hs.count
  peak := by
    have hle := hs.valid.peak
    show s'.peak.toNat = max h.top s'.used.toNat
    rw [hpeak, hused, ← hs.peak]
    omega
  issued := hs.issued

theorem Sound.moved (hs : Sound h cs) (hm : Moved h.allocator cs s' cs') :
    Sound ⟨s', h.issued, h.live, max h.top s'.used.toNat⟩ cs' :=
  hs.same hm.valid hm.base hm.cells hm.used hm.live hm.peak

variable {a : Nat} {c : Cell} {r : Except (Halt AllocError) Answer} {g : Region}

/-- A new block is a new used cell. -/
theorem Sound.allocated {size align : UInt64} {u : Cell} (hs : Sound h cs)
    (ha : Allocated h.allocator cs size align blk s' cs' a u) :
    Sound ⟨s', blk :: h.issued, blk :: h.live, max h.top s'.used.toNat⟩ cs' where
  valid := ha.valid
  named := by
    intro x hx
    rw [ha.base]
    rcases List.mem_cons.mp hx with rfl | hx
    · refine ⟨a, u, ((ha.cells a u).mpr (Or.inl ⟨rfl, rfl⟩)).1, ha.address, ?_, ?_⟩
      · rw [ha.owner, ha.generation]
      · rw [ha.asked]
        exact ha.room
    · obtain ⟨x', c, hn⟩ := hs.named x hx
      exact ⟨x', c, hn.of_used ((ha.cells x' c).mpr (Or.inr hn.used))⟩
  owned := by
    intro x c hu
    rw [ha.base] at hu
    rcases (ha.cells x c).mp hu with ⟨rfl, rfl⟩ | hu
    · exact ⟨blk, List.mem_cons_self, ha.address⟩
    · obtain ⟨y, hy, haddress⟩ := hs.owned x c hu
      exact ⟨y, List.mem_cons_of_mem _ hy, haddress⟩
  nodup := by
    refine List.nodup_cons.mpr ⟨?_, hs.nodup⟩
    -- a block at the same address would be a used cell where there was none
    intro hmem
    obtain ⟨y, hy, heq⟩ := List.mem_map.mp hmem
    obtain ⟨x, c, hn⟩ := hs.named y hy
    have hx : x = a := by
      have h1 := hn.address
      have h2 := ha.address
      rw [heq] at h1
      omega
    exact ha.fresh c (hx ▸ hn.used)
  count := by rw [ha.live, hs.count, List.length_cons]
  peak := by rw [ha.peak, hs.peak]
  issued := by
    intro x hx
    rcases List.mem_cons.mp hx with rfl | hx
    · exact List.mem_cons_self
    · exact List.mem_cons_of_mem _ (hs.issued x hx)

/-- The block of a used cell that a handle names. -/
theorem Sound.named_of (hs : Sound h cs) (hn : Names h.allocator.region.base.toNat cs blk a c) :
    ∃ x ∈ h.live, x.address = blk.address ∧ x.generation = blk.generation := by
  obtain ⟨x, hx, haddress⟩ := hs.owned a c hn.used
  obtain ⟨a', c', hn'⟩ := hs.named x hx
  have hsame : a' = a := by
    have h1 := hn'.address
    omega
  have hcell : c' = c := by
    subst hsame
    have hpos : ∀ d ∈ cs, 0 < d.size := fun d hd => by
      have := (hs.valid.sizes d hd).1
      omega
    exact hn'.placed.unique hn.placed (hpos _ hn'.placed.mem) (hpos _ hn.placed.mem)
  refine ⟨x, hx, UInt64.toNat_inj.mp (haddress.trans hn.address.symm), ?_⟩
  have howner := hn'.owner
  rw [hcell, hn.owner] at howner
  exact (Option.some.inj howner).symm

/-- A freed block is one used cell less. -/
theorem Sound.freed (hs : Sound h cs) (hn : Names h.allocator.region.base.toNat cs blk a c)
    (hf : Freed h.allocator cs s' cs' a) :
    Sound ⟨s', h.issued, h.live.filter (·.address ≠ blk.address), max h.top s'.used.toNat⟩ cs' where
  valid := hf.valid
  named := by
    intro x hx
    obtain ⟨hx, hne⟩ := List.mem_filter.mp hx
    rw [decide_eq_true_eq] at hne
    obtain ⟨a', c', hn'⟩ := hs.named x hx
    rw [hf.base]
    refine ⟨a', c', hn'.of_used ((hf.cells a' c').mpr ⟨?_, hn'.used⟩)⟩
    rintro rfl
    exact hne (UInt64.toNat_inj.mp (hn'.address.trans hn.address.symm))
  owned := by
    intro x d hu
    rw [hf.base] at hu
    obtain ⟨hne, hu⟩ := (hf.cells x d).mp hu
    obtain ⟨y, hy, haddress⟩ := hs.owned x d hu
    refine ⟨y, List.mem_filter.mpr ⟨hy, ?_⟩, haddress⟩
    rw [decide_eq_true_eq]
    intro heq
    have h1 := hn.address
    rw [heq] at haddress
    omega
  nodup := hs.nodup.sublist (List.filter_sublist.map _)
  count := by
    obtain ⟨x, hx, heq, -⟩ := hs.named_of hn
    have hlength := length_filter_address hs.nodup hx
    rw [heq] at hlength
    have hlive := hf.live
    have hcount := hs.count
    show s'.live.toNat = (h.live.filter (·.address ≠ blk.address)).length
    omega
  peak := by
    have hle := hf.valid.peak
    have hpeak := hs.peak
    show s'.peak.toNat = max h.top s'.used.toNat
    rw [hf.peak] at hle ⊢
    omega
  issued := fun x hx => hs.issued x (List.mem_filter.mp hx).1

/-- Bytes outside the region are none of the allocator's. -/
theorem valid_elsewhere (hv : s.Valid cs) (content : Memory) :
    (s.withMemory
      (content.splice s.region.base.toNat s.region.len.toNat s.region.memory)).Valid cs :=
  { hv with tiles := hv.tiles.congr hv.sizes fun i hl hr =>
      Memory.splice_of_inside hl (by rw [← hv.covers]; exact hr) }

theorem step_eq (hrun : (perform b call).run h.allocator = (r, s')) :
    step b h call = h.record s' call r := by
  unfold step
  rw [hrun]

theorem Sound.step (hs : Sound h cs) (hp : Permitted h.allocator call) :
    ∃ cs', Sound (step b h call) cs' := by
  obtain ⟨r, s', cs', hrun, hdoes⟩ := does (b := b) hs.valid hp
  refine ⟨cs', ?_⟩
  rw [step_eq hrun]
  cases hdoes with
  | refused call e =>
    have hsame := hs.same hs.valid rfl (fun _ _ => Iff.rfl) rfl rfl rfl
    cases call <;> exact hsame
  | allocated ha => exact hs.allocated ha
  | freed hn hf => exact hs.freed hn hf
  | read blk l => exact hs.same hs.valid rfl (fun _ _ => Iff.rfl) rfl rfl rfl
  | written content hn =>
    exact hs.same (hs.valid.splice hn) rfl (fun _ _ => Iff.rfl) rfl rfl rfl
  | extended extra hm => exact hs.moved hm
  | truncated len hm => exact hs.moved hm
  | elsewhere content =>
    exact hs.same (valid_elsewhere hs.valid content) rfl (fun _ _ => Iff.rfl) rfl rfl rfl

theorem sound_start (hg : g.Owned) (hs : initialise g = .ok s) :
    Sound (start s) [⟨g.len.toNat, none⟩] := by
  obtain ⟨hv, hlive, -, hpeak, -⟩ := valid_initialise hg hs
  refine ⟨hv, by simp [start], ?_, List.nodup_nil, ?_, ?_, by simp [start]⟩
  · intro a c hu
    have hmem := hu.1.mem
    simp only [List.mem_singleton] at hmem
    exact absurd (by rw [hmem]) hu.2
  · show s.live.toNat = 0
    rw [hlive]
    rfl
  · show s.peak.toNat = 0
    rw [hpeak]
    rfl

theorem sound_after (hg : g.Owned) (hs : initialise g = .ok s) {calls : List Call}
    (h : PermittedAll b s calls) : ∃ cs, Sound (after b s calls) cs :=
  run_invariant (P := fun h => ∃ cs, Sound h cs) ⟨_, sound_start hg hs⟩
    (fun _ _ ⟨_, hsound⟩ hp => hsound.step hp) h

/-! ### Safety -/

/-- What holds of a heap between calls. -/
structure Intact (h : Heap) : Prop where
  /-- Cells tile the region behind the headers in memory, no two free ones are neighbours, the
  totals are those of the used cells, and no live payload meets a header. -/
  tiled : ∃ cs, h.allocator.Valid cs ∧ ∀ blk ∈ h.live, ∀ a c,
    Placed h.allocator.region.base.toNat cs a c →
      blk.address.toNat + blk.size.toNat ≤ a ∨ a + 24 ≤ blk.address.toNat
  /-- A live payload lies in the region. -/
  inside : ∀ blk ∈ h.live, h.allocator.region.base.toNat ≤ blk.address.toNat
    ∧ blk.address.toNat + blk.size.toNat
      ≤ h.allocator.region.base.toNat + h.allocator.region.len.toNat
  /-- Live payloads do not meet. -/
  apart : h.live.Pairwise fun x y => x.address.toNat + x.size.toNat ≤ y.address.toNat
    ∨ y.address.toNat + y.size.toNat ≤ x.address.toNat
  count : h.allocator.live.toNat = h.live.length
  peak : h.allocator.peak.toNat = h.top

/-- The live payload that a call is about. -/
def Concerns : Call → Block → Prop
  | .free x, blk => x.address = blk.address
  | .bytesMut x _, blk => x.address = blk.address
  | _, _ => False

/-- What a call may do to a heap. -/
structure Safe (b : Build) (h : Heap) (call : Call) : Prop where
  /-- It neither panics nor loops, and when it is refused it changes nothing. -/
  returns : (∃ answer, ((perform b call).run h.allocator).1 = .ok answer)
    ∨ ∃ e, (perform b call).run h.allocator = (.error (.refused e), h.allocator)
  /-- Nothing wraps around: both builds do the same. -/
  unwrapped : (perform .release call).run h.allocator = (perform .debug call).run h.allocator
  /-- It leaves the payloads that it is not about as they are. -/
  kept : ∀ blk ∈ h.live, ¬ Concerns call blk → ∀ i, blk.address.toNat ≤ i →
    i < blk.address.toNat + blk.size.toNat →
    ((perform b call).run h.allocator).2.region.memory i = h.allocator.region.memory i
  /-- A block that it returns has the size and the alignment asked for. -/
  served : ∀ size align blk, call = .alloc size align →
    ((perform b call).run h.allocator).1 = .ok (.block blk) →
    blk.size = size ∧ blk.address.toNat % align.toNat = 0

theorem Sound.intact (hs : Sound h cs) : Intact h where
  tiled := by
    refine ⟨cs, hs.valid, ?_⟩
    intro x hx a c hplaced
    obtain ⟨a', c', hn⟩ := hs.named x hx
    have haddress := hn.address
    have hroom := hn.room
    have hc := (hs.valid.sizes c hplaced.mem).1
    rcases hn.placed.apart hplaced with ⟨rfl, -⟩ | happart | happart
    · exact Or.inr (by omega)
    · rw [size_cell] at happart
      exact Or.inl (by omega)
    · rw [size_cell] at happart
      exact Or.inr (by omega)
  inside := by
    intro x hx
    obtain ⟨a, c, hn⟩ := hs.named x hx
    have hin := hn.placed.inside
    have haddress := hn.address
    have hroom := hn.room
    rw [size_cell, hs.valid.covers] at hin
    omega
  apart := by
    have hne : h.live.Pairwise fun x y => x.address ≠ y.address :=
      List.pairwise_map.mp hs.nodup
    refine hne.imp_of_mem ?_
    intro x y hx hy hxy
    obtain ⟨a, c, hn⟩ := hs.named x hx
    obtain ⟨a', c', hn'⟩ := hs.named y hy
    have h1 := hn.address
    have h2 := hn'.address
    have h3 := hn.room
    have h4 := hn'.room
    rcases hn.placed.apart hn'.placed with ⟨rfl, -⟩ | happart | happart
    · exact absurd (UInt64.toNat_inj.mp (h1.trans h2.symm)) hxy
    · rw [size_cell] at happart
      exact Or.inl (by omega)
    · rw [size_cell] at happart
      exact Or.inr (by omega)
  count := hs.count
  peak := hs.peak

theorem Sound.kept (hs : Sound h cs) (hdoes : Does h.allocator cs call r s' cs') (hx : blk ∈ h.live)
    (hc : ¬ Concerns call blk) {i : Nat} (hl : blk.address.toNat ≤ i)
    (hr : i < blk.address.toNat + blk.size.toNat) :
    s'.region.memory i = h.allocator.region.memory i := by
  obtain ⟨a, c, hn⟩ := hs.named blk hx
  cases hdoes with
  | refused => rfl
  | read => rfl
  | allocated ha => exact ha.toKeeps.block hn ((ha.cells a c).mpr (Or.inr hn.used)) hl hr
  | freed hn' hf =>
    refine hf.toKeeps.block hn ((hf.cells a c).mpr ⟨?_, hn.used⟩) hl hr
    rintro rfl
    exact hc (UInt64.toNat_inj.mp (hn'.address.trans hn.address.symm))
  | extended _ hm | truncated _ hm => exact hm.toKeeps.block hn ((hm.cells a c).mpr hn.used) hl hr
  | written content hn' =>
    -- the cell written to is another one
    have h1 := hn.address
    have h2 := hn'.address
    have h3 := hn.room
    have h4 := hn'.room
    refine Memory.splice_of_outside ?_
    rcases hn.placed.apart hn'.placed with ⟨rfl, -⟩ | happart | happart
    · exact absurd (UInt64.toNat_inj.mp (h2.trans h1.symm)) hc
    · rw [size_cell] at happart
      omega
    · rw [size_cell] at happart
      omega
  | elsewhere content =>
    have hin := hs.intact.inside blk hx
    exact Memory.splice_of_inside (by omega) (by omega)

theorem Sound.safe (hs : Sound h cs) (hp : Permitted h.allocator call) : Safe b h call := by
  obtain ⟨r, s', cs', hrun, hdoes⟩ := does (b := b) hs.valid hp
  refine ⟨?_, ?_, ?_, ?_⟩
  · rw [hrun]
    cases hdoes with
    | refused call e => exact Or.inr ⟨e, rfl⟩
    | _ => exact Or.inl ⟨_, rfl⟩
  · rcases faithful_perform call h.allocator with hpanic | hsame
    · obtain ⟨r', s'', cs'', hrun', hdoes'⟩ := does (b := .debug) hs.valid hp
      rw [hrun'] at hpanic
      subst hpanic
      cases hdoes'
    · exact hsame
  · intro x hx hc i hl hr
    rw [hrun]
    exact hs.kept hdoes hx hc hl hr
  · intro size align x hcall hanswer
    rw [hrun] at hanswer
    subst hcall
    cases hdoes with
    | refused => cases hanswer
    | allocated ha =>
      cases hanswer
      exact ⟨ha.asked, ha.aligned⟩

/-- Along every history of calls, in every build: the blocks tile the region, the totals are
those of the used blocks, the live payloads lie apart from each other and from the headers; no
call panics, wraps or loops, a refused call changes nothing, and no call touches a payload it is
not about. Every allocation asked for is to be measurable in a word. -/
theorem heap_safe (b : Build) {g : Region} (hg : g.Owned) (hs : initialise g = .ok s)
    {calls : List Call} (h : PermittedAll b s calls) :
    Intact (after b s calls)
      ∧ ∀ call, Permitted (after b s calls).allocator call → Safe b (after b s calls) call := by
  obtain ⟨cs, hsound⟩ := sound_after hg hs h
  exact ⟨hsound.intact, fun call hp => hsound.safe hp⟩

/-- A buffer of 64 zero bytes. -/
def sampleRegion : Region := ⟨4096, 64, fun _ => 0⟩

/-- The allocator over it. -/
def sample : Allocator := ⟨sampleRegion.stored 0 ⟨64, 0, tag 0 FREE⟩, 0, 0, 0, 1⟩

theorem sampleRegion_owned : sampleRegion.Owned := ⟨by decide, by decide, by decide, by decide⟩

theorem heap_safe_sample : sampleRegion.Owned ∧ initialise sampleRegion = .ok sample
    ∧ Intact (after .release sample [.alloc 16 8, .bytesMut ⟨4120, 16, 1⟩ fun _ => 7])
    ∧ Safe .release (after .release sample [.alloc 16 8, .bytesMut ⟨4120, 16, 1⟩ fun _ => 7])
      (.free ⟨4120, 16, 1⟩) := by
  have hcalls : PermittedAll .release sample
      [.alloc 16 8, .bytesMut ⟨4120, 16, 1⟩ fun _ => 7] :=
    ⟨fun _ _ _ _ => by decide, trivial, trivial⟩
  have hsafe := heap_safe .release sampleRegion_owned (s := sample) rfl hcalls
  exact ⟨sampleRegion_owned, rfl, hsafe.1, hsafe.2 _ trivial⟩

/-- A request for all but the last 24 bytes of the address space. -/
def hugeRequest : Call := .alloc 18446744073709551592 1

/-- The size that a request for nearly the whole address space is compared with overflows: a
debug build panics, and a release build takes a block of no bytes, so that no cells tile the
region any more. -/
theorem alloc_overflows : sampleRegion.Owned ∧ initialise sampleRegion = .ok sample
    ∧ ¬ Safe .debug (start sample) hugeRequest
    ∧ ¬ Intact (after .release sample [hugeRequest]) := by
  refine ⟨sampleRegion_owned, rfl, ?_, ?_⟩
  · intro h
    have hpanics : ((perform .debug hugeRequest).run sample).1 = .error .panicked := by
      decide +kernel
    rcases h.returns with ⟨answer, hok⟩ | ⟨e, hrefused⟩
    · have hok' : ((perform .debug hugeRequest).run sample).1 = .ok answer := hok
      rw [hpanics] at hok'
      cases hok'
    · have hrefused' : (perform .debug hugeRequest).run sample = (.error (.refused e), sample) :=
        hrefused
      rw [hrefused'] at hpanics
      cases hpanics
  · intro h
    obtain ⟨cs, hv, -⟩ := h.tiled
    have hbase : (after .release sample [hugeRequest]).allocator.region.base = 4096 := by
      decide +kernel
    have hlen : (after .release sample [hugeRequest]).allocator.region.len = 64 := by
      decide +kernel
    have hsize : (Header.load (after .release sample [hugeRequest]).allocator.region.memory
        (4096 : UInt64).toNat).size.toNat = 0 := by decide +kernel
    have hcovers := hv.covers
    have htiles := hv.tiles
    rw [hbase] at htiles
    rw [hlen] at hcovers
    cases cs with
    | nil => cases hcovers
    | cons c cs =>
      have hc := (hv.sizes c List.mem_cons_self).1
      have hheader := htiles.1.size
      rw [hsize] at hheader
      omega

/-! ### Stale handles -/

/-- Generations while they last: one more for every block ever returned. -/
structure Numbered (h : Heap) : Prop where
  next : h.allocator.generation.toNat = h.issued.length + 1
  below : ∀ x ∈ h.issued, x.generation.toNat ≤ h.issued.length
  nodup : (h.issued.map Block.generation).Nodup

theorem Numbered.issue {size align : UInt64} {u : Cell} (hnum : Numbered h)
    (ha : Allocated h.allocator cs size align blk s' cs' a u)
    (hfew : (blk :: h.issued).length < 2 ^ 63 - 1) :
    Numbered ⟨s', blk :: h.issued, blk :: h.live, max h.top s'.used.toNat⟩ := by
  have hnext := hnum.next
  have hgen := ha.generation
  rw [List.length_cons] at hfew
  refine ⟨?_, ?_, List.nodup_cons.mpr ⟨?_, hnum.nodup⟩⟩
  · show s'.generation.toNat = (blk :: h.issued).length + 1
    rw [ha.next, toNat_nextGeneration (by omega), if_neg (by omega), List.length_cons, hnext]
  · intro x hx
    show x.generation.toNat ≤ (blk :: h.issued).length
    rw [List.length_cons]
    rcases List.mem_cons.mp hx with rfl | hx
    · rw [hgen]
      omega
    · have := hnum.below x hx
      omega
  · intro hmem
    obtain ⟨x, hx, heq⟩ := List.mem_map.mp hmem
    have hle := hnum.below x hx
    rw [heq, hgen] at hle
    omega

theorem issued_record (hr : ∀ blk, r ≠ .ok (.block blk)) :
    (h.record s' call r).issued = h.issued ∧ (h.record s' call r).allocator = s' := by
  cases r with
  | error e => cases call <;> exact ⟨rfl, rfl⟩
  | ok answer =>
    cases answer with
    | block blk => exact absurd rfl (hr blk)
    | bytes l | done => cases call <;> exact ⟨rfl, rfl⟩

theorem Sound.numbered (hs : Sound h cs) (hp : Permitted h.allocator call)
    (hnum : h.issued.length < 2 ^ 63 - 1 → Numbered h)
    (hfew : (Heap.step b h call).issued.length < 2 ^ 63 - 1) : Numbered (Heap.step b h call) := by
  obtain ⟨r, s', cs', hrun, hdoes⟩ := does (b := b) hs.valid hp
  rw [step_eq hrun] at hfew ⊢
  -- only an allocation issues a block; every other call keeps the next generation
  have hsame : (∀ blk, r ≠ .ok (.block blk)) → s'.generation = h.allocator.generation →
      Numbered (h.record s' call r) := by
    intro hr hgen
    obtain ⟨hissued, hallocator⟩ := issued_record (h := h) hr
    rw [hissued] at hfew
    have hold := hnum hfew
    refine ⟨?_, ?_, ?_⟩
    · rw [hallocator, hissued, hgen]
      exact hold.next
    · rw [hissued]
      exact hold.below
    · rw [hissued]
      exact hold.nodup
  cases hdoes with
  | allocated ha =>
    have hlt : h.issued.length < 2 ^ 63 - 1 := Nat.lt_of_succ_lt hfew
    exact (hnum hlt).issue ha hfew
  | refused | read | written | elsewhere => exact hsame (by simp) rfl
  | freed _ hf => exact hsame (by simp) hf.next
  | extended _ hm | truncated _ hm => exact hsame (by simp) hm.next

theorem numbered_after (hg : g.Owned) (hs : initialise g = .ok s) {calls : List Call}
    (h : PermittedAll b s calls) (hfew : (after b s calls).issued.length < 2 ^ 63 - 1) :
    Numbered (after b s calls) := by
  have hboth : (∃ cs, Sound (after b s calls) cs)
      ∧ ((after b s calls).issued.length < 2 ^ 63 - 1 → Numbered (after b s calls)) := by
    refine run_invariant (P := fun h => (∃ cs, Sound h cs)
      ∧ (h.issued.length < 2 ^ 63 - 1 → Numbered h)) ⟨⟨_, sound_start hg hs⟩, fun _ => ?_⟩ ?_ h
    · refine ⟨?_, by simp [start], by simp [start]⟩
      show s.generation.toNat = 1
      rw [(valid_initialise hg hs).2.2.2.2]
      rfl
    · rintro h call ⟨⟨cs, hsound⟩, hnum⟩ hp
      exact ⟨hsound.step hp, hsound.numbered hp hnum⟩
  exact hboth.2 hfew

/-- A handle that the three calls accept. -/
structure Accepted (b : Build) (s : Allocator) (blk : Block) : Prop where
  bytes : ∃ l, (bytes b blk).run s = (.ok l, s)
  bytesMut : ∀ content, ∃ s', (bytesMut b blk content).run s = (.ok (), s')
  free : ∃ s', (free b blk).run s = (.ok (), s')

/-- A computation is refused as a handle that is not the allocator's, and changes nothing. -/
def Declines {α : Type} (x : M α) (s : Allocator) : Prop :=
  x.run s = (.error (.refused .unowned), s) ∨ x.run s = (.error (.refused .doubleFree), s)

/-- A handle that the three calls refuse. -/
structure Rejected (b : Build) (s : Allocator) (blk : Block) : Prop where
  bytes : Declines (bytes b blk) s
  bytesMut : ∀ content, Declines (bytesMut b blk content) s
  free : Declines (free b blk) s

theorem accepted_of_names (hv : s.Valid cs) (hn : Names s.region.base.toNat cs blk a c) :
    Accepted b s blk := by
  rcases payload_spec (b := b) hv.toTiled blk with ⟨_, _, _, hpayload⟩ | ⟨_, hnone⟩
  swap
  · exact absurd hn (hnone a c)
  rcases free_spec (b := b) hv blk with ⟨_, _, s', _, _, hfree, _⟩ | ⟨_, hnone⟩
  swap
  · exact absurd hn (hnone a c)
  exact ⟨⟨_, run_bind_of_ok hpayload _⟩,
    fun content => ⟨_, run_bind_of_ok hpayload _⟩, s', hfree⟩

theorem rejected_of_not_names (hv : s.Valid cs)
    (hn : ∀ a c, ¬ Names s.region.base.toNat cs blk a c) : Rejected b s blk := by
  rcases payload_spec (b := b) hv.toTiled blk with ⟨a, c, h, _⟩ | ⟨hpayload, _⟩
  · exact absurd h (hn a c)
  rcases free_spec (b := b) hv blk with ⟨a, c, _, _, h, _, _⟩ | ⟨hfree, _⟩
  · exact absurd h (hn a c)
  refine ⟨?_, fun content => ?_, hfree⟩
  · exact hpayload.imp (fun h => run_bind_of_error h _)
      (fun h => run_bind_of_error h _)
  · exact hpayload.imp (fun h => run_bind_of_error h _)
      (fun h => run_bind_of_error h _)

/-- Along every history with fewer than `2 ^ 63 - 1` allocations, in every build, a block that
was ever returned is accepted while it is live and refused, without an effect, ever after. Every
allocation asked for is to be measurable in a word. -/
theorem handles_exact (b : Build) {g : Region} (hg : g.Owned) (hs : initialise g = .ok s)
    {calls : List Call} (h : PermittedAll b s calls)
    (hfew : (after b s calls).issued.length < 2 ^ 63 - 1) {blk : Block}
    (hissued : blk ∈ (after b s calls).issued) :
    (blk ∈ (after b s calls).live → Accepted b (after b s calls).allocator blk)
      ∧ (blk ∉ (after b s calls).live → Rejected b (after b s calls).allocator blk) := by
  obtain ⟨cs, hsound⟩ := sound_after hg hs h
  have hnum := numbered_after hg hs h hfew
  constructor
  · intro hlive
    obtain ⟨a, c, hn⟩ := hsound.named blk hlive
    exact accepted_of_names hsound.valid hn
  · intro hdead
    refine rejected_of_not_names hsound.valid fun a c hn => hdead ?_
    -- the block of the cell it names was issued with the same generation
    obtain ⟨x, hx, -, hgen⟩ := hsound.named_of hn
    have hsame : x = blk := List.inj_on_of_nodup_map hnum.nodup (hsound.issued x hx) hissued hgen
    exact hsame ▸ hx

theorem handles_exact_sample :
    Accepted .release (after .release sample [.alloc 16 8]).allocator ⟨4120, 16, 1⟩
      ∧ Rejected .release
        (after .release sample [.alloc 16 8, .free ⟨4120, 16, 1⟩, .alloc 16 8]).allocator
        ⟨4120, 16, 1⟩ := by
  have hfirst : PermittedAll .release sample [.alloc 16 8] := ⟨fun _ _ _ _ => by decide, trivial⟩
  have hsecond : PermittedAll .release sample
      [.alloc 16 8, .free ⟨4120, 16, 1⟩, .alloc 16 8] :=
    ⟨fun _ _ _ _ => by decide, trivial, fun _ _ _ _ => by decide, trivial⟩
  exact ⟨(handles_exact .release sampleRegion_owned rfl hfirst (by decide +kernel)
      (by decide +kernel)).1 (by decide +kernel),
    (handles_exact .release sampleRegion_owned rfl hsecond (by decide +kernel)
      (by decide +kernel)).2 (by decide +kernel)⟩

/-- In a release build, the block of a request that overflowed is live and refused. -/
theorem wrapped_handle_refused : sampleRegion.Owned ∧ initialise sampleRegion = .ok sample
    ∧ (after .release sample [hugeRequest]).issued = [⟨4120, 18446744073709551592, 1⟩]
    ∧ ⟨4120, 18446744073709551592, 1⟩ ∈ (after .release sample [hugeRequest]).live
    ∧ ¬ Accepted .release (after .release sample [hugeRequest]).allocator
      ⟨4120, 18446744073709551592, 1⟩ := by
  refine ⟨sampleRegion_owned, rfl, by decide +kernel, by decide +kernel, ?_⟩
  intro h
  obtain ⟨l, hl⟩ := h.bytes
  have hrefused : ((bytes .release ⟨4120, 18446744073709551592, 1⟩).run
      (after .release sample [hugeRequest]).allocator).1 = .error (.refused .unowned) := by
    decide +kernel
  rw [hl] at hrefused
  cases hrefused

end Heap

end RusticOs.Sdk
