import RusticOs.Kernel.Elf

/-!
# `RusticOs.Proofs.Elf`: exactly which executables are accepted

`Admissible` says in plain terms which byte strings are executables the kernel runs: the fields of
the file header, the loads the program headers name, the pages they take and the entry. The parser
accepts exactly those, panics on none, and what it returns is what the file says.

- `number_ok`: a field in the file is its little-endian number.
- `Raw.segment_decides`, `Scan.push_decides`, `Scan.step_decides`: one program header.
- `runs_iff`: all of them, as conditions on the list of loads.
- `parse_decides`, `parse_admits`: the whole file.
-/

set_option autoImplicit false

namespace RusticOs.Kernel.Elf

open RusticOs.Lib RusticOs.Kernel
open UInt64 (toNat_ofNat_of_lt' le_iff_toNat_le lt_iff_toNat_lt toNat_inj toNat_mod)
open RusticOs.Fs (checkedAdd checkedAdd_eq_some)

/-! ### Fields -/

/-- The number a field of the file holds. -/
def field (bytes : List UInt8) (at_ size : Nat) : Nat := leValue (slice bytes at_ size)

theorem leValue_concat (l : List UInt8) (b : UInt8) :
    leValue (l ++ [b]) = 2 ^ (l.length * 8) * b.toNat + leValue l := by
  induction l with
  | nil => simp [leValue]
  | cons a l ih =>
    have hpow : 2 ^ ((l.length + 1) * 8) = 256 * 2 ^ (l.length * 8) := by
      rw [Nat.add_mul, pow_add]
      ring
    rw [List.cons_append, leValue, ih, leValue, List.length_cons, hpow]
    ring

/-- Shifting the bytes into place gives their little-endian number. -/
theorem toNat_foldl_shift {l : List UInt8} (h : l.length ≤ 8) :
    (l.zipIdx.foldl (fun n b => n ||| b.1.toUInt64 <<< UInt64.ofNat (b.2 * 8)) (0 : UInt64)).toNat
      = leValue l := by
  -- on the last byte: it goes above the others
  induction l using List.reverseRecOn with
  | nil => rfl
  | append_singleton l b ih =>
    rw [List.length_append, List.length_singleton] at h
    have hlow : leValue l < 2 ^ (l.length * 8) := by
      have hlt := leValue_lt l
      rwa [show (256 : Nat) = 2 ^ 8 from rfl, ← pow_mul, Nat.mul_comm] at hlt
    have hb : b.toNat < 2 ^ 8 := b.toNat_lt
    have hhigh : b.toNat * 2 ^ (l.length * 8) < 2 ^ 64 := by
      calc b.toNat * 2 ^ (l.length * 8) < 2 ^ 8 * 2 ^ (l.length * 8) :=
            Nat.mul_lt_mul_of_pos_right hb (by positivity)
        _ = 2 ^ (8 + l.length * 8) := by rw [pow_add]
        _ ≤ 2 ^ 64 := Nat.pow_le_pow_right (by norm_num) (by omega)
    have hshift : (b.toUInt64 <<< UInt64.ofNat (l.length * 8)).toNat
        = 2 ^ (l.length * 8) * b.toNat := by
      rw [UInt64.toNat_shiftLeft, UInt8.toNat_toUInt64, toNat_ofNat_of_lt' (by
        rw [UInt64.size]; omega), Nat.mod_eq_of_lt (show l.length * 8 < 64 by omega),
        Nat.shiftLeft_eq, Nat.mod_eq_of_lt hhigh, Nat.mul_comm]
    rw [List.zipIdx_append, List.foldl_append, leValue_concat]
    simp only [List.zipIdx_singleton, List.foldl_cons, List.foldl_nil, Nat.zero_add]
    rw [UInt64.toNat_or, ih (by omega), hshift, Nat.or_comm, Nat.two_pow_add_eq_or_of_lt hlow]

theorem field_lt (bytes : List UInt8) (at_ : Nat) {size : Nat} (h : size ≤ 8) :
    field bytes at_ size < 2 ^ 64 := by
  have hlength : (slice bytes at_ size).length ≤ size := by
    rw [length_slice]
    exact min_le_left _ _
  calc field bytes at_ size < 256 ^ (slice bytes at_ size).length := leValue_lt _
    _ ≤ 256 ^ 8 := Nat.pow_le_pow_right (by norm_num) (hlength.trans h)
    _ = 2 ^ 64 := by norm_num

/-- A field fits its word. -/
theorem toNat_field (bytes : List UInt8) (at_ : Nat) {size : Nat} (h : size ≤ 8) :
    (UInt64.ofNat (field bytes at_ size)).toNat = field bytes at_ size :=
  toNat_ofNat_of_lt' (field_lt bytes at_ h)

variable {bytes : List UInt8} {at_ : UInt64} {length : Nat}

theorem ofNat_field_eq {at_ size : Nat} (h : size ≤ 8) (value : UInt64) :
    UInt64.ofNat (field bytes at_ size) = value ↔ field bytes at_ size = value.toNat := by
  rw [← toNat_inj, toNat_field _ _ h]

/-- A field that lies in the file is read. -/
theorem number_ok {size : UInt64} (hsize : size.toNat ≤ 8) (hlength : bytes.length < 2 ^ 64)
    (h : at_.toNat + size.toNat ≤ bytes.length) :
    number bytes at_ size = .ok (UInt64.ofNat (field bytes at_.toNat size.toNat)) := by
  have hsum : at_.toNat + size.toNat < 2 ^ 64 := by omega
  have hadd : checkedAdd at_ size = some (at_ + size) := if_pos hsum
  have hfield : (slice bytes at_.toNat size.toNat).length ≤ 8 := by
    rw [length_slice_of_le h]
    exact hsize
  unfold number
  rw [hadd, orRefuse_some, ok_bind, reject_of_not (by rw [toNat_add_of_lt hsum]; omega), ok_bind]
  show Except.ok _ = _
  congr 1
  apply toNat_inj.mp
  rw [toNat_foldl_shift hfield, toNat_field _ _ hsize]
  rfl

/-! ### Executables -/

/-- The fields of a program header. -/
structure Load where
  flags : Nat
  fileOffset : Nat
  address : Nat
  fileSize : Nat
  memorySize : Nat
  alignment : Nat

/-- The program header at an offset. -/
def loadAt (bytes : List UInt8) (at_ : Nat) : Load where
  flags := field bytes (at_ + 4) 4
  fileOffset := field bytes (at_ + 8) 8
  address := field bytes (at_ + 16) 8
  fileSize := field bytes (at_ + 32) 8
  memorySize := field bytes (at_ + 40) 8
  alignment := field bytes (at_ + 48) 8

/-- The pages a range of bytes touches. -/
def pagesOf (address size : Nat) : Finset Nat :=
  Finset.Ico (address / 4096) ((address + size + 4095) / 4096)

/-- The pages of a load. -/
def Load.pages (l : Load) : Finset Nat := pagesOf l.address l.memorySize

/-- The pages of the heap window. -/
def windowPages : Finset Nat := Finset.Ico (WINDOW_BASE.toNat / 4096) (WINDOW_END.toNat / 4096)

/-- A load the kernel maps: readable, or readable with one of writing and executing; not empty,
backed by the file, above the first page and below the stack's guard, congruent to its place in
the file, and clear of the heap window. -/
structure Load.Fits (l : Load) (length : Nat) : Prop where
  mode : l.flags = 4 ∨ l.flags = 5 ∨ l.flags = 6
  nonempty : 0 < l.memorySize
  backed : l.fileSize ≤ l.memorySize
  inFile : l.fileOffset + l.fileSize ≤ length
  low : 0x1000 ≤ l.address
  high : l.address + l.memorySize ≤ STACK_GUARD.toNat
  congruent : l.fileOffset % 4096 = l.address % 4096
  aligned : l.alignment ≤ 1
    ∨ (∃ k, l.alignment = 2 ^ k) ∧ l.address % l.alignment = l.fileOffset % l.alignment
  window : Disjoint l.pages windowPages

/-- The offsets of the program headers. -/
def programHeaders (bytes : List UInt8) : List Nat :=
  (List.range (field bytes 56 2)).map fun i => field bytes 32 8 + i * 56

/-- The loads among program headers. -/
def loadsAt (bytes : List UInt8) (headers : List Nat) : List Load :=
  (headers.filter fun at_ => field bytes at_ 4 = 1).map (loadAt bytes)

/-- The loads of a file, in the order of its program headers. -/
def loads (bytes : List UInt8) : List Load := loadsAt bytes (programHeaders bytes)

/-- The pages of all of them. -/
def allPages (ls : List Load) : Finset Nat := (ls.map Load.pages).foldr (· ∪ ·) ∅

/-- The files the kernel runs. -/
structure Admissible (bytes : List UInt8) : Prop where
  long : 64 ≤ bytes.length
  short : bytes.length ≤ MAX_BYTES
  magic : bytes.take 9 = MAGIC
  padding : slice bytes 9 7 = zeros 7
  executable : field bytes 16 2 = 2
  machine : field bytes 18 2 = 62
  version : field bytes 20 4 = 1
  flags : field bytes 48 4 = 0
  headerSize : field bytes 52 2 = 64
  entrySize : field bytes 54 2 = 56
  some : 1 ≤ field bytes 56 2
  few : field bytes 56 2 ≤ 16
  apart : 64 ≤ field bytes 32 8
  inFile : field bytes 32 8 + field bytes 56 2 * 56 ≤ bytes.length
  kinds : ∀ at_ ∈ programHeaders bytes, field bytes at_ 4 = 0 ∨ field bytes at_ 4 = 1
  fits : ∀ l ∈ loads bytes, l.Fits bytes.length
  count : (loads bytes).length ≤ 8
  ascending : (loads bytes).Pairwise fun a b => a.address < b.address
  disjoint : (loads bytes).Pairwise fun a b => Disjoint a.pages b.pages
  budget : (allPages (loads bytes)).card + STACK_PAGES.toNat ≤ 256
  entry : ∃ l ∈ loads bytes, l.flags = 5 ∧ l.address ≤ field bytes 24 8
    ∧ field bytes 24 8 < l.address + l.fileSize

/-! ### One load -/

/-- The fields as numbers. -/
def Raw.load (r : Raw) : Load where
  flags := r.flags.toNat
  fileOffset := r.fileOffset.toNat
  address := r.address.toNat
  fileSize := r.fileSize.toNat
  memorySize := r.memorySize.toNat
  alignment := r.alignment.toNat

/-- The words of a program header. -/
def rawAt (bytes : List UInt8) (at_ : Nat) : Raw where
  flags := UInt64.ofNat (field bytes (at_ + 4) 4)
  fileOffset := UInt64.ofNat (field bytes (at_ + 8) 8)
  address := UInt64.ofNat (field bytes (at_ + 16) 8)
  fileSize := UInt64.ofNat (field bytes (at_ + 32) 8)
  memorySize := UInt64.ofNat (field bytes (at_ + 40) 8)
  alignment := UInt64.ofNat (field bytes (at_ + 48) 8)

theorem rawAt_load (bytes : List UInt8) (at_ : Nat) :
    (rawAt bytes at_).load = loadAt bytes at_ := by
  simp only [Raw.load, rawAt, loadAt, toNat_field _ _ (show 4 ≤ 8 by norm_num),
    toNat_field _ _ (le_refl 8)]

/-- A field of a program header that lies in the file. -/
theorem number_header {α : Type} {shift size : UInt64} (hshort : bytes.length ≤ MAX_BYTES)
    (hin : at_.toNat + 56 ≤ bytes.length) (hsize : size.toNat ≤ 8)
    (hfield : shift.toNat + size.toNat ≤ 56) (f : UInt64 → Parse α) :
    (plus at_ shift >>= fun a => number bytes a size >>= f)
      = f (UInt64.ofNat (field bytes (at_.toNat + shift.toNat) size.toNat)) := by
  have hmax : MAX_BYTES < 2 ^ 63 := by decide
  have hsum : at_.toNat + shift.toNat < 2 ^ 64 := by omega
  rw [plus_ok hsum, ok_bind, number_ok hsize (by omega) (by rw [toNat_add_of_lt hsum]; omega),
    ok_bind, toNat_add_of_lt hsum]

theorem Raw.read_ok (hshort : bytes.length ≤ MAX_BYTES) (hin : at_.toNat + 56 ≤ bytes.length) :
    Raw.read bytes at_ = .ok (rawAt bytes at_.toNat) := by
  unfold Raw.read
  rw [number_header hshort hin (by decide) (by decide),
    number_header hshort hin (by decide) (by decide),
    number_header hshort hin (by decide) (by decide),
    number_header hshort hin (by decide) (by decide),
    number_header hshort hin (by decide) (by decide),
    number_header hshort hin (by decide) (by decide)]
  rfl

/-! ### The segment of a load -/

theorem decides_checkedAdd {e : Error} (a b : UInt64) :
    Decides (orRefuse (.refused e) (checkedAdd a b)) (a.toNat + b.toNat < 2 ^ 64) (a + b) := by
  constructor
  · intro h
    rw [show checkedAdd a b = some (a + b) from if_pos h]
    rfl
  · intro h
    rw [show checkedAdd a b = none from if_neg h]
    exact ⟨e, rfl⟩

theorem any_checkedAdd {a b : UInt64} (hlength : length < 2 ^ 64) :
    (checkedAdd a b).any (fun n => n.toNat ≤ length) = true ↔ a.toNat + b.toNat ≤ length := by
  by_cases h : a.toNat + b.toNat < 2 ^ 64
  · rw [show checkedAdd a b = some (a + b) from if_pos h, Option.any_some, decide_eq_true_eq,
      toNat_add_of_lt h]
  · rw [show checkedAdd a b = none from if_neg h]
    simp
    omega

theorem toNat_guard : STACK_GUARD.toNat = 2147414016 := by decide

theorem toNat_page_size : PAGE_SIZE.toNat = 4096 := by decide

/-- The end of the last page of a range below the stack. -/
def endOf (address size : Nat) : Nat := (address + size + 4095) / 4096 * 4096

theorem Segment.endPage_ok {s : Segment}
    (h : s.address.toNat + s.memorySize.toNat ≤ STACK_GUARD.toNat) :
    s.endPage = .ok (UInt64.ofNat (endOf s.address.toNat s.memorySize.toNat)) := by
  rw [toNat_guard] at h
  have hpage := toNat_page_size
  have hsum : s.address.toNat + s.memorySize.toNat < 2 ^ 64 := by omega
  have htop : (s.address + s.memorySize).toNat + PAGE_SIZE.toNat < 2 ^ 64 := by
    rw [toNat_add_of_lt hsum]
    omega
  have hone : (1 : UInt64).toNat ≤ (s.address + s.memorySize + PAGE_SIZE).toNat := by
    rw [toNat_add_of_lt htop, hpage]
    simp
  unfold Segment.endPage
  rw [plus_ok hsum, ok_bind, plus_ok htop, ok_bind, minus_ok hone, ok_bind]
  show Except.ok _ = _
  congr 1
  apply toNat_inj.mp
  rw [toNat_pageStart, UInt64.toNat_sub_of_le _ _ (le_iff_toNat_le.mpr hone),
    toNat_add_of_lt htop, toNat_add_of_lt hsum, hpage, toNat_ofNat_of_lt' (by
      unfold endOf
      rw [UInt64.size]
      omega)]
  unfold endOf
  simp

theorem Segment.toNat_startPage (s : Segment) :
    s.startPage.toNat = s.address.toNat / 4096 * 4096 := toNat_pageStart s.address

/-- A range of pages and the heap window. -/
theorem disjoint_window_iff {address size : Nat} (h : 0 < size) :
    Disjoint (pagesOf address size) windowPages
      ↔ ¬ (address / 4096 * 4096 < WINDOW_END.toNat ∧ WINDOW_BASE.toNat < endOf address size) := by
  have hbase : WINDOW_BASE.toNat = 268435456 := by decide
  have hend : WINDOW_END.toNat = 268959744 := by decide
  unfold pagesOf windowPages endOf
  rw [Finset.disjoint_left]
  simp only [Finset.mem_Ico, hbase, hend]
  constructor
  · intro hdisjoint hboth
    -- the first page they share
    have hshared := hdisjoint (a := max (address / 4096) (268435456 / 4096)) (by omega)
    omega
  · intro hnot p hp hw
    omega

/-- The checks of one load, as conditions on numbers. -/
theorem Raw.checks_iff (r : Raw) (hsum : r.address.toNat + r.memorySize.toNat < 2 ^ 64) :
    ¬ (¬ (4 ≤ r.flags ∧ r.flags ≤ 6) ∨ r.memorySize = 0 ∨ r.memorySize < r.fileSize
      ∨ r.address < PAGE_SIZE ∨ STACK_GUARD < r.address + r.memorySize
      ∨ r.fileOffset % PAGE_SIZE ≠ r.address % PAGE_SIZE
      ∨ (1 < r.alignment ∧ (¬ isPowerOfTwo r.alignment
        ∨ r.address % r.alignment ≠ r.fileOffset % r.alignment)))
    ↔ (r.load.flags = 4 ∨ r.load.flags = 5 ∨ r.load.flags = 6) ∧ 0 < r.load.memorySize
      ∧ r.load.fileSize ≤ r.load.memorySize ∧ 0x1000 ≤ r.load.address
      ∧ r.load.address + r.load.memorySize ≤ STACK_GUARD.toNat
      ∧ r.load.fileOffset % 4096 = r.load.address % 4096
      ∧ (r.load.alignment ≤ 1 ∨ (∃ k, r.load.alignment = 2 ^ k)
        ∧ r.load.address % r.load.alignment = r.load.fileOffset % r.load.alignment) := by
  have hflags : (4 ≤ r.flags ∧ r.flags ≤ 6)
      ↔ r.flags.toNat = 4 ∨ r.flags.toNat = 5 ∨ r.flags.toNat = 6 := by
    rw [le_iff_toNat_le, le_iff_toNat_le]
    show 4 ≤ r.flags.toNat ∧ r.flags.toNat ≤ 6 ↔ _
    omega
  have hzero : r.memorySize = 0 ↔ r.memorySize.toNat = 0 := by
    rw [← toNat_inj]
    rfl
  have hone : 1 < r.alignment ↔ 1 < r.alignment.toNat := lt_iff_toNat_lt
  have hpages : r.fileOffset % PAGE_SIZE = r.address % PAGE_SIZE
      ↔ r.fileOffset.toNat % 4096 = r.address.toNat % 4096 := by
    rw [← toNat_inj, toNat_mod, toNat_mod, toNat_page_size]
  have halign : r.address % r.alignment = r.fileOffset % r.alignment
      ↔ r.address.toNat % r.alignment.toNat = r.fileOffset.toNat % r.alignment.toNat := by
    rw [← toNat_inj, toNat_mod, toNat_mod]
  simp only [not_or, not_and, not_not, ne_eq, hflags, hzero, hone, hpages, halign,
    isPowerOfTwo_iff, lt_iff_toNat_lt, toNat_add_of_lt hsum, toNat_page_size, not_lt,
    Raw.load, Nat.pos_iff_ne_zero]
  refine and_congr (by omega) (and_congr_right fun _ => and_congr_right fun _ =>
    and_congr_right fun _ => and_congr_right fun _ => and_congr_right fun _ => ?_)
  by_cases h : 1 < r.alignment.toNat
  · simp [h, Nat.not_le.mpr h]
  · simp [h, Nat.not_lt.mp h]

/-- The segment of a load is taken exactly when the load fits. -/
theorem Raw.segment_decides (r : Raw) (hlength : length < 2 ^ 64) :
    Decides (r.segment length) (r.load.Fits length) r.toSegment := by
  have hlow : ∀ h : r.address.toNat + r.memorySize.toNat ≤ STACK_GUARD.toNat,
      endOf r.address.toNat r.memorySize.toNat < 2 ^ 64 := by
    intro h
    rw [toNat_guard] at h
    unfold endOf
    omega
  unfold Raw.segment
  refine Decides.congr (Decides.bind (decides_checkedAdd _ _) fun hsum =>
    Decides.bind (decides_reject _ _) fun hchecks =>
    Decides.bind (decides_reject _ _) fun _ =>
    Decides.after (Segment.endPage_ok ((r.checks_iff hsum).mp hchecks).2.2.2.2.1) <|
    Decides.bind (decides_reject _ _) fun _ => decides_ok _) ?_
  have hstart : r.toSegment.startPage.toNat = r.address.toNat / 4096 * 4096 :=
    r.toSegment.toNat_startPage
  have hwindow : ∀ h : r.address.toNat + r.memorySize.toNat ≤ STACK_GUARD.toNat,
      0 < r.memorySize.toNat →
      (¬ (r.toSegment.startPage < WINDOW_END ∧ WINDOW_BASE
        < UInt64.ofNat (endOf r.toSegment.address.toNat r.toSegment.memorySize.toNat))
      ↔ Disjoint r.load.pages windowPages) := by
    intro h hsize
    rw [Load.pages, show r.load.address = r.address.toNat from rfl,
      show r.load.memorySize = r.memorySize.toNat from rfl, disjoint_window_iff hsize,
      lt_iff_toNat_lt, lt_iff_toNat_lt, hstart,
      show (UInt64.ofNat (endOf r.toSegment.address.toNat r.toSegment.memorySize.toNat)).toNat
        = endOf r.address.toNat r.memorySize.toNat from toNat_ofNat_of_lt' (hlow h)]
  constructor
  · rintro ⟨hsum, hchecks, hfile, hclear, -⟩
    obtain ⟨hmode, hsize, hbacked, hfirst, hhigh, hcongruent, haligned⟩ :=
      (r.checks_iff hsum).mp hchecks
    exact { mode := hmode, nonempty := hsize, backed := hbacked,
            inFile := (any_checkedAdd hlength).mp (not_not.mp hfile),
            low := hfirst, high := hhigh, congruent := hcongruent, aligned := haligned,
            window := (hwindow hhigh hsize).mp hclear }
  · intro h
    have hsum : r.address.toNat + r.memorySize.toNat < 2 ^ 64 := by
      have hhigh : r.address.toNat + r.memorySize.toNat ≤ STACK_GUARD.toNat := h.high
      rw [toNat_guard] at hhigh
      omega
    exact ⟨hsum, (r.checks_iff hsum).mpr ⟨h.mode, h.nonempty, h.backed, h.low, h.high,
      h.congruent, h.aligned⟩, not_not.mpr ((any_checkedAdd hlength).mpr h.inFile),
      (hwindow h.high h.nonempty).mpr h.window, trivial⟩

/-! ### One program header -/

/-- The first address of the first page of a load. -/
def Load.start (l : Load) : Nat := l.address / 4096 * 4096

/-- The first address after the last page of a load. -/
def Load.stop (l : Load) : Nat := endOf l.address l.memorySize

theorem Load.card_pages (l : Load) : l.pages.card * 4096 = l.stop - l.start := by
  rw [Load.pages, pagesOf, Nat.card_Ico, Load.stop, Load.start, endOf, Nat.sub_mul]

theorem Load.Fits.start_lt_stop {l : Load} (h : l.Fits length) : l.start < l.stop := by
  have hsize := h.nonempty
  unfold Load.start Load.stop endOf
  omega

theorem Load.Fits.stop_le {l : Load} (h : l.Fits length) : l.stop ≤ 2 ^ 32 := by
  have hhigh := h.high
  rw [toNat_guard] at hhigh
  unfold Load.stop endOf
  omega

namespace Scan

/-- The scan after one more load. -/
def pushed (scan : Scan) (r : Raw) : Scan where
  segments := if h : scan.count < MAX_SEGMENTS then scan.segments.set scan.count r.toSegment h
    else scan.segments
  count := scan.count + 1
  pages := scan.pages + UInt64.ofNat r.load.pages.card
  previousEnd := UInt64.ofNat r.load.stop

/-- The conditions on a load that depend on the loads before it. -/
structure Room (scan : Scan) (l : Load) : Prop where
  above : scan.previousEnd.toNat ≤ l.start
  pages : scan.pages.toNat + l.pages.card ≤ 256
  count : scan.count < MAX_SEGMENTS

/-- A scan is within its budget. -/
structure Within (scan : Scan) : Prop where
  pages : scan.pages.toNat ≤ 256
  count : scan.count ≤ MAX_SEGMENTS

variable {scan : Scan} {r : Raw} {bytes : List UInt8}

theorem push_decides (hscan : scan.Within) {length : Nat} (hfits : r.load.Fits length) :
    Decides (scan.push r.toSegment) (scan.Room r.load) (scan.pushed r) := by
  have hstop : (UInt64.ofNat r.load.stop).toNat = r.load.stop := by
    have := hfits.stop_le
    exact toNat_ofNat_of_lt' (by rw [UInt64.size]; omega)
  have hend : r.toSegment.endPage = .ok (UInt64.ofNat r.load.stop) :=
    Segment.endPage_ok hfits.high
  have hstart : r.toSegment.startPage.toNat = r.load.start := r.toSegment.toNat_startPage
  have hlt := hfits.start_lt_stop
  have hle : r.toSegment.startPage.toNat ≤ (UInt64.ofNat r.load.stop).toNat := by
    rw [hstart, hstop]
    exact hlt.le
  -- the pages of the load
  have hcard : (UInt64.ofNat r.load.stop - r.toSegment.startPage) / PAGE_SIZE
      = UInt64.ofNat r.load.pages.card := by
    have hcard := r.load.card_pages
    have hsmall := hfits.stop_le
    apply toNat_inj.mp
    rw [UInt64.toNat_div, UInt64.toNat_sub_of_le _ _ (le_iff_toNat_le.mpr hle), hstop,
      hstart, toNat_page_size, toNat_ofNat_of_lt' (by rw [UInt64.size]; omega)]
    omega
  have hcount : (UInt64.ofNat r.load.pages.card).toNat = r.load.pages.card := by
    have hcard := r.load.card_pages
    have hsmall := hfits.stop_le
    exact toNat_ofNat_of_lt' (by rw [UInt64.size]; omega)
  have hsum : scan.pages.toNat + (UInt64.ofNat r.load.pages.card).toNat < 2 ^ 64 := by
    have hcard := r.load.card_pages
    have hsmall := hfits.stop_le
    have hpages := hscan.pages
    rw [hcount]
    omega
  have habove : ¬ (r.toSegment.startPage < scan.previousEnd)
      ↔ scan.previousEnd.toNat ≤ r.load.start := by
    rw [UInt64.not_lt, le_iff_toNat_le, hstart]
  have hbudget : ¬ (MAX_PAGES < scan.pages + UInt64.ofNat r.load.pages.card
        ∨ scan.count = MAX_SEGMENTS)
      ↔ scan.pages.toNat + r.load.pages.card ≤ 256 ∧ scan.count < MAX_SEGMENTS := by
    have hmax : MAX_PAGES.toNat = 256 := by decide
    have hle := hscan.count
    rw [not_or, UInt64.not_lt, le_iff_toNat_le, toNat_add_of_lt hsum, hcount, hmax]
    exact and_congr_right fun _ => ⟨fun h => lt_of_le_of_ne hle h, fun h => h.ne⟩
  unfold push
  refine Decides.congr (Decides.bind (decides_reject _ _) fun _ =>
    Decides.after hend <| Decides.after (minus_ok hle) <| ?_) (Q := scan.Room r.load)
    (P := ¬ (r.toSegment.startPage < scan.previousEnd)
      ∧ ¬ (MAX_PAGES < scan.pages + UInt64.ofNat r.load.pages.card
        ∨ scan.count = MAX_SEGMENTS) ∧ True) ?_
  · rw [hcard]
    refine Decides.after (plus_ok hsum) (Decides.bind (decides_reject _ _) fun hroom => ?_)
    have hslot : scan.count < MAX_SEGMENTS := (hbudget.mp hroom).2
    rw [dif_pos hslot, pushed, dif_pos hslot]
    exact decides_ok _
  · rw [habove, hbudget]
    exact ⟨fun h => ⟨h.1, h.2.1.1, h.2.1.2⟩, fun h => ⟨h.above, ⟨h.pages, h.count⟩, trivial⟩⟩

/-- The scan after a program header. -/
def next (bytes : List UInt8) (scan : Scan) (at_ : Nat) : Scan :=
  if field bytes at_ 4 = 1 then scan.pushed (rawAt bytes at_) else scan

/-- A program header is passed over, or names a load that fits. -/
def Accepts (bytes : List UInt8) (scan : Scan) (at_ : Nat) : Prop :=
  field bytes at_ 4 = 0 ∨ field bytes at_ 4 = 1 ∧ (loadAt bytes at_).Fits bytes.length
    ∧ scan.Room (loadAt bytes at_)

theorem step_decides (hscan : scan.Within) {at_ : UInt64} (hshort : bytes.length ≤ MAX_BYTES)
    (hin : at_.toNat + 56 ≤ bytes.length) :
    Decides (scan.step bytes at_) (scan.Accepts bytes at_.toNat) (scan.next bytes at_.toNat) := by
  have hmax : MAX_BYTES < 2 ^ 63 := by decide
  have hword : ∀ n : UInt64, UInt64.ofNat (field bytes at_.toNat 4) = n
      ↔ field bytes at_.toNat 4 = n.toNat := ofNat_field_eq (by norm_num)
  have hnumber : number bytes at_ 4 = .ok (UInt64.ofNat (field bytes at_.toNat 4)) :=
    number_ok (by decide : (4 : UInt64).toNat ≤ 8) (by omega) (show at_.toNat + 4 ≤ _ by omega)
  unfold step
  refine Decides.after hnumber ?_
  by_cases hzero : field bytes at_.toNat 4 = 0
  · rw [if_pos ((hword 0).mpr hzero), next, if_neg (by omega)]
    exact (decides_ok scan).congr ⟨fun _ => Or.inl hzero, fun _ => trivial⟩
  rw [if_neg fun h => hzero ((hword 0).mp h)]
  by_cases hone : field bytes at_.toNat 4 = 1
  · rw [if_pos ((hword 1).mpr hone), next, if_pos hone]
    refine Decides.congr (Decides.after (Raw.read_ok hshort hin) <|
      Decides.bind (Raw.segment_decides _ (by omega)) fun hfits => push_decides hscan hfits) ?_
    rw [rawAt_load]
    constructor
    · exact fun h => Or.inr ⟨hone, h⟩
    · rintro (h | h)
      · exact absurd h hzero
      · exact h.2
  · rw [if_neg fun h => hone ((hword 1).mp h)]
    refine (decides_refused _ _).congr ⟨False.elim, ?_⟩
    rintro (h | h)
    · exact hzero h
    · exact hone h.1

theorem stepAt_decides (hscan : scan.Within) {offset : UInt64} {index : Nat}
    (hshort : bytes.length ≤ MAX_BYTES) (hin : offset.toNat + index * 56 + 56 ≤ bytes.length) :
    Decides (scan.stepAt bytes offset index) (scan.Accepts bytes (offset.toNat + index * 56))
      (scan.next bytes (offset.toNat + index * 56)) := by
  have hmax : MAX_BYTES < 2 ^ 63 := by decide
  have hindex : (UInt64.ofNat index).toNat = index :=
    toNat_ofNat_of_lt' (by rw [UInt64.size]; omega)
  have hsize : (56 : UInt64).toNat = 56 := by decide
  have hmul : (UInt64.ofNat index).toNat * (56 : UInt64).toNat < 2 ^ 64 := by
    rw [hindex, hsize]
    omega
  have hshift : (UInt64.ofNat index * 56).toNat = index * 56 := by
    rw [toNat_mul_of_lt hmul, hindex, hsize]
  have hsum : offset.toNat + (UInt64.ofNat index * 56).toNat < 2 ^ 64 := by
    rw [hshift]
    omega
  have hat : (offset + UInt64.ofNat index * 56).toNat = offset.toNat + index * 56 := by
    rw [toNat_add_of_lt hsum, hshift]
  unfold stepAt
  refine Decides.after (times_ok hmul) (Decides.after (plus_ok hsum) ?_)
  rw [← hat]
  exact step_decides hscan hshort (by rw [hat]; exact hin)

/-! ### All program headers -/

/-- Every program header is accepted by the scan of those before it. -/
def Runs (bytes : List UInt8) : Scan → List Nat → Prop
  | _, [] => True
  | scan, at_ :: rest => scan.Accepts bytes at_ ∧ Runs bytes (scan.next bytes at_) rest

/-- What the pages and the count of a scan are after one more load. -/
theorem toNat_pages_pushed (h : scan.pages.toNat + r.load.pages.card ≤ 256) :
    (scan.pushed r).pages.toNat = scan.pages.toNat + r.load.pages.card := by
  have hcard : (UInt64.ofNat r.load.pages.card).toNat = r.load.pages.card :=
    toNat_ofNat_of_lt' (by rw [UInt64.size]; omega)
  rw [pushed, toNat_add_of_lt (by rw [hcard]; omega), hcard]

theorem Within.pushed (h : scan.Room r.load) : (scan.pushed r).Within where
  pages := by
    rw [toNat_pages_pushed h.pages]
    exact h.pages
  count := h.count

theorem Within.next (hscan : scan.Within) {at_ : Nat} (h : scan.Accepts bytes at_) :
    (scan.next bytes at_).Within := by
  unfold Scan.next
  split
  · rename_i hone
    rcases h with hzero | ⟨-, -, hroom⟩
    · omega
    · rw [← rawAt_load] at hroom
      exact Within.pushed hroom
  · exact hscan

theorem foldlM_decides (hshort : bytes.length ≤ MAX_BYTES) {offset : UInt64} {indices : List Nat}
    (hin : ∀ i ∈ indices, offset.toNat + i * 56 + 56 ≤ bytes.length) (hscan : scan.Within) :
    Decides (indices.foldlM (stepAt bytes offset) scan)
      (scan.Runs bytes (indices.map fun i => offset.toNat + i * 56))
      ((indices.map fun i => offset.toNat + i * 56).foldl (Scan.next bytes) scan) := by
  induction indices generalizing scan with
  | nil => exact decides_ok scan
  | cons i rest ih =>
    rw [List.foldlM_cons, List.map_cons, List.foldl_cons]
    exact Decides.bind (stepAt_decides hscan hshort (hin i List.mem_cons_self)) fun haccepts =>
      ih (fun j hj => hin j (List.mem_cons_of_mem i hj)) (hscan.next haccepts)

/-- Loads that follow each other from a scan on. -/
structure Chain (scan : Scan) (length : Nat) (ls : List Load) : Prop where
  fits : ∀ l ∈ ls, l.Fits length
  above : ∀ l ∈ ls, scan.previousEnd.toNat ≤ l.start
  ordered : ls.Pairwise fun a b => a.stop ≤ b.start
  pages : scan.pages.toNat + (ls.map fun l => l.pages.card).sum ≤ 256
  count : scan.count + ls.length ≤ MAX_SEGMENTS

theorem chain_nil (hscan : scan.Within) (length : Nat) : scan.Chain length [] where
  fits := by simp
  above := by simp
  ordered := List.Pairwise.nil
  pages := hscan.pages
  count := hscan.count

/-- One more load in front: it fits, there is room for it, and the others follow it. -/
theorem chain_cons {length : Nat} {ls : List Load} :
    scan.Chain length (r.load :: ls)
      ↔ r.load.Fits length ∧ scan.Room r.load ∧ (scan.pushed r).Chain length ls := by
  have hstop : r.load.Fits length → (scan.pushed r).previousEnd.toNat = r.load.stop := by
    intro h
    have hle := h.stop_le
    exact toNat_ofNat_of_lt' (by rw [UInt64.size]; omega)
  constructor
  · intro h
    have hfits := h.fits r.load List.mem_cons_self
    have hpages := h.pages
    have hcount := h.count
    rw [List.map_cons, List.sum_cons] at hpages
    rw [List.length_cons] at hcount
    have hroom : scan.Room r.load :=
      ⟨h.above r.load List.mem_cons_self, by omega, by omega⟩
    obtain ⟨hafter, hordered⟩ := List.pairwise_cons.mp h.ordered
    refine ⟨hfits, hroom, ?_⟩
    exact { fits := fun l hl => h.fits l (List.mem_cons_of_mem _ hl)
            above := fun l hl => by
              rw [hstop hfits]
              exact hafter l hl
            ordered := hordered
            pages := by
              rw [toNat_pages_pushed hroom.pages]
              omega
            count := show scan.count + 1 + ls.length ≤ MAX_SEGMENTS by omega }
  · rintro ⟨hfits, hroom, h⟩
    have hlt := hfits.start_lt_stop
    have habove := hroom.above
    have hpages := h.pages
    rw [toNat_pages_pushed hroom.pages] at hpages
    have hafter : ∀ l ∈ ls, r.load.stop ≤ l.start := by
      intro l hl
      rw [← hstop hfits]
      exact h.above l hl
    exact { fits := List.forall_mem_cons.mpr ⟨hfits, h.fits⟩
            above := List.forall_mem_cons.mpr ⟨habove, fun l hl => by
              have := hafter l hl
              omega⟩
            ordered := List.pairwise_cons.mpr ⟨hafter, h.ordered⟩
            pages := by
              rw [List.map_cons, List.sum_cons]
              omega
            count := by
              have hcount : scan.count + 1 + ls.length ≤ MAX_SEGMENTS := h.count
              rw [List.length_cons]
              omega }

/-- The program headers are all accepted exactly when they are null or loads and the loads follow
each other. -/
theorem runs_iff {headers : List Nat} (hscan : scan.Within) :
    scan.Runs bytes headers
      ↔ (∀ at_ ∈ headers, field bytes at_ 4 = 0 ∨ field bytes at_ 4 = 1)
        ∧ scan.Chain bytes.length (loadsAt bytes headers) := by
  induction headers generalizing scan with
  | nil => exact ⟨fun _ => ⟨by simp, chain_nil hscan _⟩, fun _ => trivial⟩
  | cons at_ rest ih =>
    rw [Runs, List.forall_mem_cons]
    by_cases hone : field bytes at_ 4 = 1
    · -- a load: it joins the chain in front
      have hloads : loadsAt bytes (at_ :: rest)
          = (rawAt bytes at_).load :: loadsAt bytes rest := by
        rw [rawAt_load]
        simp [loadsAt, hone]
      rw [hloads, chain_cons, next, if_pos hone]
      constructor
      · rintro ⟨hzero | ⟨-, hfits, hroom⟩, hrest⟩
        · omega
        · rw [← rawAt_load] at hfits hroom
          obtain ⟨hkinds, hchain⟩ := (ih (Within.pushed hroom)).mp hrest
          exact ⟨⟨Or.inr hone, hkinds⟩, hfits, hroom, hchain⟩
      · rintro ⟨⟨-, hkinds⟩, hfits, hroom, hchain⟩
        refine ⟨Or.inr ⟨hone, ?_⟩, (ih (Within.pushed hroom)).mpr ⟨hkinds, hchain⟩⟩
        rw [← rawAt_load]
        exact ⟨hfits, hroom⟩
    · have hloads : loadsAt bytes (at_ :: rest) = loadsAt bytes rest := by
        simp [loadsAt, hone]
      rw [hloads, next, if_neg hone, ih hscan, Accepts]
      simp [hone, and_assoc]

/-- The segments a scan has taken. -/
def loaded (scan : Scan) : List Segment := scan.segments.toList.take scan.count

theorem loaded_pushed (h : scan.count < MAX_SEGMENTS) :
    (scan.pushed r).loaded = scan.loaded ++ [r.toSegment] := by
  have hlength : scan.count < scan.segments.toList.length := by simpa using h
  unfold loaded pushed
  rw [dif_pos h, Vector.toList_set, List.take_add_one, List.take_set_of_le (le_refl _),
    List.getElem?_set_self hlength]
  rfl

theorem loaded_foldl {headers : List Nat} (h : scan.Runs bytes headers) :
    (headers.foldl (Scan.next bytes) scan).loaded = scan.loaded
      ++ ((headers.filter fun at_ => field bytes at_ 4 = 1).map (rawAt bytes)).map Raw.toSegment
    := by
  induction headers generalizing scan with
  | nil => simp
  | cons at_ rest ih =>
    obtain ⟨haccepts, hrest⟩ := h
    rw [List.foldl_cons, ih hrest]
    by_cases hone : field bytes at_ 4 = 1
    · rcases haccepts with hzero | ⟨-, -, hroom⟩
      · omega
      · rw [next, if_pos hone, loaded_pushed hroom.count]
        simp [hone]
    · rw [next, if_neg hone]
      simp [hone]

end Scan

/-! ### Pages -/

variable {length : Nat} {ls : List Load} {bytes : List UInt8} {r : Raw}

/-- Loads in ascending order have disjoint pages exactly when each ends before the next
begins. -/
theorem stop_le_start_iff {a b : Load} (ha : a.Fits length) (hb : b.Fits length) :
    a.stop ≤ b.start ↔ a.address < b.address ∧ Disjoint a.pages b.pages := by
  have hsize := ha.nonempty
  have hsize' := hb.nonempty
  unfold Load.stop Load.start Load.pages pagesOf endOf
  rw [Finset.disjoint_left]
  simp only [Finset.mem_Ico]
  constructor
  · intro h
    refine ⟨by omega, fun p hp hq => ?_⟩
    omega
  · rintro ⟨hlt, hdisjoint⟩
    -- the first page of the second load is not one of the first
    have hfirst := hdisjoint (a := b.address / 4096)
    omega

theorem pairwise_stop_le_start_iff (h : ∀ l ∈ ls, l.Fits length) :
    (ls.Pairwise fun a b => a.stop ≤ b.start)
      ↔ (ls.Pairwise fun a b => a.address < b.address)
        ∧ ls.Pairwise fun a b => Disjoint a.pages b.pages := by
  rw [← List.pairwise_and_iff]
  exact List.Pairwise.iff_of_mem fun ha hb => stop_le_start_iff (h _ ha) (h _ hb)

/-- Disjoint loads take as many pages as they take together. -/
theorem card_allPages (h : ls.Pairwise fun a b => Disjoint a.pages b.pages) :
    (allPages ls).card = (ls.map fun l => l.pages.card).sum := by
  induction ls with
  | nil => rfl
  | cons l ls ih =>
    obtain ⟨hfirst, hrest⟩ := List.pairwise_cons.mp h
    have hdisjoint : Disjoint l.pages (allPages ls) := by
      clear h ih hrest
      induction ls with
      | nil => exact Finset.disjoint_empty_right _
      | cons k ks ih =>
        exact Finset.disjoint_union_right.mpr ⟨hfirst k List.mem_cons_self,
          ih fun m hm => hfirst m (List.mem_cons_of_mem _ hm)⟩
    rw [List.map_cons, List.sum_cons, ← ih hrest, ← Finset.card_union_of_disjoint hdisjoint]
    rfl

/-! ### The file header -/

/-- The file is of a size the parser reads. -/
structure Sized (bytes : List UInt8) : Prop where
  long : 64 ≤ bytes.length
  short : bytes.length ≤ MAX_BYTES

/-- A field of the file header. -/
theorem number_of_sized (hsized : Sized bytes) {at_ size : UInt64} (hsize : size.toNat ≤ 8)
    (hin : at_.toNat + size.toNat ≤ 64) :
    number bytes at_ size = .ok (UInt64.ofNat (field bytes at_.toNat size.toNat)) := by
  have hmax : MAX_BYTES < 2 ^ 63 := by decide
  have hlong := hsized.long
  have hshort := hsized.short
  exact number_ok hsize (by omega) (by omega)

theorem expect_decides (hsized : Sized bytes) {at_ size : UInt64} (value : UInt64)
    (hsize : size.toNat ≤ 8) (hin : at_.toNat + size.toNat ≤ 64) :
    Decides (expect bytes at_ size value) (field bytes at_.toNat size.toNat = value.toNat) () := by
  unfold expect
  refine (Decides.after (number_of_sized hsized hsize hin) (decides_reject _ _)).congr ?_
  rw [not_not, ofNat_field_eq hsize]

/-- What the file header says of itself. -/
structure Heads (bytes : List UInt8) : Prop extends Sized bytes where
  magic : bytes.take 9 = MAGIC
  padding : slice bytes 9 7 = zeros 7
  executable : field bytes 16 2 = 2
  machine : field bytes 18 2 = 62
  version : field bytes 20 4 = 1
  flags : field bytes 48 4 = 0
  headerSize : field bytes 52 2 = 64
  entrySize : field bytes 54 2 = 56

theorem header_decides (bytes : List UInt8) : Decides (header bytes) (Heads bytes) () := by
  have hfirst : ¬ (bytes.length < 64 ∨ MAX_BYTES < bytes.length ∨ bytes.take 9 ≠ MAGIC
        ∨ ¬ allZero (slice bytes 9 7))
      ↔ Sized bytes ∧ bytes.take 9 = MAGIC ∧ slice bytes 9 7 = zeros 7 := by
    rw [not_or, not_or, not_or, not_lt, not_lt, not_not, not_not]
    constructor
    · rintro ⟨hlong, hshort, hmagic, hzero⟩
      refine ⟨⟨hlong, hshort⟩, hmagic, ?_⟩
      rw [allZero_iff, length_slice_of_le (by omega)] at hzero
      exact hzero
    · rintro ⟨⟨hlong, hshort⟩, hmagic, hzero⟩
      exact ⟨hlong, hshort, hmagic, by rw [hzero]; exact allZero_zeros 7⟩
  unfold header
  refine Decides.congr (Decides.bind (decides_reject _ _) fun h =>
    Decides.bind (expect_decides (hfirst.mp h).1 2 (by decide) (by decide)) fun _ =>
    Decides.bind (expect_decides (hfirst.mp h).1 62 (by decide) (by decide)) fun _ =>
    Decides.bind (expect_decides (hfirst.mp h).1 1 (by decide) (by decide)) fun _ =>
    Decides.bind (expect_decides (hfirst.mp h).1 0 (by decide) (by decide)) fun _ =>
    Decides.bind (expect_decides (hfirst.mp h).1 64 (by decide) (by decide)) fun _ =>
    expect_decides (hfirst.mp h).1 56 (by decide) (by decide)) ?_
  rw [hfirst]
  constructor
  · rintro ⟨⟨hsized, hmagic, hpadding⟩, h₁, h₂, h₃, h₄, h₅, h₆⟩
    exact ⟨hsized, hmagic, hpadding, h₁, h₂, h₃, h₄, h₅, h₆⟩
  · intro h
    exact ⟨⟨h.toSized, h.magic, h.padding⟩, h.executable, h.machine, h.version, h.flags,
      h.headerSize, h.entrySize⟩

/-- The program headers lie in the file, behind the file header. -/
structure Tabled (bytes : List UInt8) : Prop where
  some : 1 ≤ field bytes 56 2
  few : field bytes 56 2 ≤ 16
  apart : 64 ≤ field bytes 32 8
  inFile : field bytes 32 8 + field bytes 56 2 * 56 ≤ bytes.length

theorem table_decides (hsized : Sized bytes) :
    Decides (table bytes) (Tabled bytes)
      (UInt64.ofNat (field bytes 32 8), UInt64.ofNat (field bytes 56 2)) := by
  have hmax : MAX_BYTES < 2 ^ 63 := by decide
  have hshort := hsized.short
  have hoffset := toNat_field bytes 32 (le_refl 8)
  have hcount := toNat_field bytes 56 (show 2 ≤ 8 by norm_num)
  have hsize : (56 : UInt64).toNat = 56 := by decide
  have hbudget : ¬ ¬ (1 ≤ UInt64.ofNat (field bytes 56 2) ∧ UInt64.ofNat (field bytes 56 2) ≤ 16)
      ↔ 1 ≤ field bytes 56 2 ∧ field bytes 56 2 ≤ 16 := by
    rw [not_not, le_iff_toNat_le, le_iff_toNat_le, hcount]
    rfl
  have hmul : 1 ≤ field bytes 56 2 ∧ field bytes 56 2 ≤ 16 →
      (UInt64.ofNat (field bytes 56 2)).toNat * (56 : UInt64).toNat < 2 ^ 64 := by
    intro h
    rw [hcount, hsize]
    omega
  unfold table
  refine Decides.congr (Decides.after (number_of_sized hsized (by decide) (by decide)) <|
    Decides.after (number_of_sized hsized (by decide) (by decide)) <|
    Decides.bind (decides_reject _ _) fun h =>
    Decides.after (times_ok (hmul (hbudget.mp h))) <|
    Decides.bind (decides_reject _ _) fun _ => decides_ok _) ?_
  have hbounds : 1 ≤ field bytes 56 2 ∧ field bytes 56 2 ≤ 16 →
      (¬ (UInt64.ofNat (field bytes 32 8) < 64 ∨ ¬ (checkedAdd (UInt64.ofNat (field bytes 32 8))
          (UInt64.ofNat (field bytes 56 2) * 56)).any (fun n => n.toNat ≤ bytes.length))
        ↔ 64 ≤ field bytes 32 8
          ∧ field bytes 32 8 + field bytes 56 2 * 56 ≤ bytes.length) := by
    intro h
    rw [not_or, not_not, UInt64.not_lt, le_iff_toNat_le, any_checkedAdd (by omega),
      hoffset, toNat_mul_of_lt (hmul h), hcount, hsize]
    rfl
  constructor
  · rintro ⟨h, hchecks, -⟩
    have hfew := hbudget.mp h
    obtain ⟨hapart, hin⟩ := (hbounds hfew).mp hchecks
    exact ⟨hfew.1, hfew.2, hapart, hin⟩
  · intro h
    exact ⟨hbudget.mpr ⟨h.some, h.few⟩,
      (hbounds ⟨h.some, h.few⟩).mpr ⟨h.apart, h.inFile⟩, trivial⟩

/-! ### The entry -/

/-- A segment has the entry in the part the file backs. -/
def Segment.Enters (s : Segment) (entry : UInt64) : Prop :=
  s.executable = true ∧ s.address.toNat ≤ entry.toNat
    ∧ entry.toNat < s.address.toNat + s.fileSize.toNat

theorem enters_ok {entry : UInt64} {l : List Segment}
    (h : ∀ s ∈ l, s.address.toNat + s.fileSize.toNat < 2 ^ 64) :
    ∃ found, enters entry l = .ok found ∧ (found = true ↔ ∃ s ∈ l, s.Enters entry) := by
  induction l with
  | nil => exact ⟨false, rfl, by simp⟩
  | cons s rest ih =>
    obtain ⟨found, hrest, hfound⟩ := ih fun t ht => h t (List.mem_cons_of_mem _ ht)
    have hsum := h s List.mem_cons_self
    have hcons : (∃ t ∈ s :: rest, t.Enters entry) ↔ s.Enters entry ∨ ∃ t ∈ rest, t.Enters entry :=
      by simp
    rw [hcons, enters]
    have hin : (s.address ≤ entry ∧ entry < s.address + s.fileSize)
        ↔ s.address.toNat ≤ entry.toNat ∧ entry.toNat < s.address.toNat + s.fileSize.toNat := by
      rw [le_iff_toNat_le, lt_iff_toNat_lt, toNat_add_of_lt hsum]
    have hskip : ¬ s.Enters entry → (found = true ↔ s.Enters entry ∨ ∃ t ∈ rest, t.Enters entry) :=
      fun hnot => hfound.trans (or_iff_right hnot).symm
    by_cases hexecutable : s.executable = true
    · rw [if_pos hexecutable, plus_ok hsum, ok_bind]
      by_cases hs : s.address ≤ entry ∧ entry < s.address + s.fileSize
      · rw [if_pos hs]
        exact ⟨true, rfl, fun _ => Or.inl ⟨hexecutable, hin.mp hs⟩, fun _ => rfl⟩
      · rw [if_neg hs]
        exact ⟨found, hrest, hskip fun h => hs (hin.mpr h.2)⟩
    · rw [if_neg hexecutable]
      exact ⟨found, hrest, hskip fun h => hexecutable h.1⟩

/-! ### The whole file -/

/-- The program headers that are loads, as words. -/
def raws (bytes : List UInt8) : List Raw :=
  ((programHeaders bytes).filter fun at_ => field bytes at_ 4 = 1).map (rawAt bytes)

theorem raws_load (bytes : List UInt8) : (raws bytes).map Raw.load = loads bytes := by
  rw [raws, loads, loadsAt, List.map_map]
  exact List.map_congr_left fun at_ _ => rawAt_load bytes at_

/-- The image of a file. -/
def imageOf (bytes : List UInt8) : Image :=
  let scan := (programHeaders bytes).foldl (Scan.next bytes) Scan.new
  { bytes := bytes, entry := UInt64.ofNat (field bytes 24 8), segments := scan.segments,
    count := scan.count }

theorem within_new : Scan.new.Within := by
  constructor
  · decide
  · decide

/-- From the start, loads follow each other exactly when they are in ascending order, apart, few,
and within the budget. -/
theorem chain_new_iff :
    Scan.new.Chain length ls
      ↔ (∀ l ∈ ls, l.Fits length) ∧ ls.length ≤ 8
        ∧ (ls.Pairwise fun a b => a.address < b.address)
        ∧ (ls.Pairwise fun a b => Disjoint a.pages b.pages)
        ∧ (allPages ls).card + STACK_PAGES.toNat ≤ 256 := by
  have hpages : Scan.new.pages.toNat = STACK_PAGES.toNat := rfl
  have hcount : Scan.new.count + ls.length = ls.length := Nat.zero_add _
  constructor
  · intro h
    obtain ⟨hascending, hdisjoint⟩ := (pairwise_stop_le_start_iff h.fits).mp h.ordered
    have hbudget := h.pages
    rw [hpages, ← card_allPages hdisjoint] at hbudget
    exact ⟨h.fits, hcount ▸ h.count, hascending, hdisjoint, by omega⟩
  · rintro ⟨hfits, hfew, hascending, hdisjoint, hbudget⟩
    exact { fits := hfits
            above := fun l hl => by
              have hlow := (hfits l hl).low
              show PAGE_SIZE.toNat ≤ l.start
              rw [toNat_page_size, Load.start]
              omega
            ordered := (pairwise_stop_le_start_iff hfits).mpr ⟨hascending, hdisjoint⟩
            pages := by
              rw [hpages, ← card_allPages hdisjoint]
              omega
            count := by
              rw [hcount]
              exact hfew }

theorem Raw.flags_eq (r : Raw) {n : Nat} (h : r.load.flags = n) : r.flags = UInt64.ofNat n := by
  rw [← h]
  exact UInt64.ofNat_toNat.symm

/-- The segments of an image are those of its loads. -/
theorem loaded_imageOf (h : Scan.new.Runs bytes (programHeaders bytes)) :
    (imageOf bytes).loaded = (raws bytes).map Raw.toSegment := by
  have hfold := Scan.loaded_foldl h
  rwa [show Scan.new.loaded = [] from rfl, List.nil_append] at hfold

theorem fits_of_mem_raws (h : ∀ l ∈ loads bytes, l.Fits bytes.length) (hr : r ∈ raws bytes) :
    r.load.Fits bytes.length := by
  apply h
  rw [← raws_load]
  exact List.mem_map_of_mem hr

/-- A load's segment has the entry exactly when the load is executable there. -/
theorem enters_iff (h : r.load.Fits length) {entry : UInt64} :
    r.toSegment.Enters entry ↔ r.load.flags = 5 ∧ r.load.address ≤ entry.toNat
      ∧ entry.toNat < r.load.address + r.load.fileSize := by
  have hexecutable : r.toSegment.executable = true ↔ r.load.flags = 5 := by
    show (decide (r.flags &&& 1 ≠ 0) = true) ↔ _
    rcases h.mode with hmode | hmode | hmode
    · rw [r.flags_eq hmode, hmode]
      decide
    · rw [r.flags_eq hmode, hmode]
      decide
    · rw [r.flags_eq hmode, hmode]
      decide
  unfold Segment.Enters
  rw [hexecutable]
  rfl

theorem parse_decides (bytes : List UInt8) :
    Decides (Image.parse bytes) (Admissible bytes) (imageOf bytes) := by
  have hcount := toNat_field bytes 56 (show 2 ≤ 8 by norm_num)
  have hoffset := toNat_field bytes 32 (le_refl 8)
  have hentry := toNat_field bytes 24 (le_refl 8)
  -- the loop over the program headers
  have hscan : Heads bytes → Tabled bytes →
      Decides ((List.range (UInt64.ofNat (field bytes 56 2)).toNat).foldlM
          (Scan.stepAt bytes (UInt64.ofNat (field bytes 32 8))) Scan.new)
        (Scan.new.Runs bytes (programHeaders bytes))
        ((programHeaders bytes).foldl (Scan.next bytes) Scan.new) := by
    intro hheads htabled
    have hin : ∀ i ∈ List.range (field bytes 56 2),
        (UInt64.ofNat (field bytes 32 8)).toNat + i * 56 + 56 ≤ bytes.length := by
      intro i hi
      have hlt := List.mem_range.mp hi
      have hend := htabled.inFile
      rw [hoffset]
      omega
    rw [hcount]
    have hfold := Scan.foldlM_decides hheads.short hin within_new
    rwa [hoffset] at hfold
  -- the entry in one of the segments
  have hfound : Scan.new.Runs bytes (programHeaders bytes) →
      Decides (enters (UInt64.ofNat (field bytes 24 8)) (imageOf bytes).loaded >>= fun found =>
          reject (¬ found) (.refused .entry) >>= fun _ => .ok (imageOf bytes))
        (∃ l ∈ loads bytes, l.flags = 5 ∧ l.address ≤ field bytes 24 8
          ∧ field bytes 24 8 < l.address + l.fileSize) (imageOf bytes) := by
    intro hruns
    have hloaded := loaded_imageOf hruns
    have hfits := fun r => fits_of_mem_raws (r := r) ((Scan.runs_iff within_new).mp hruns).2.fits
    have hsum : ∀ s ∈ (imageOf bytes).loaded, s.address.toNat + s.fileSize.toNat < 2 ^ 64 := by
      intro s hs
      rw [hloaded, List.mem_map] at hs
      obtain ⟨r, hr, rfl⟩ := hs
      have hfit := hfits r hr
      have hhigh : r.address.toNat + r.memorySize.toNat ≤ STACK_GUARD.toNat := hfit.high
      have hbacked : r.fileSize.toNat ≤ r.memorySize.toNat := hfit.backed
      rw [toNat_guard] at hhigh
      show r.address.toNat + r.fileSize.toNat < 2 ^ 64
      omega
    obtain ⟨found, henters, hiff⟩ := @enters_ok (UInt64.ofNat (field bytes 24 8)) _ hsum
    refine Decides.congr (Decides.after henters (Decides.bind (decides_reject _ _) fun _ =>
      decides_ok _)) ?_
    rw [not_not, and_true, hiff, hloaded, ← raws_load]
    simp only [List.mem_map, exists_exists_and_eq_and]
    refine exists_congr fun r => and_congr_right fun hr => ?_
    rw [enters_iff (hfits r hr), hentry]
  unfold Image.parse
  refine Decides.congr (Decides.bind (header_decides bytes) fun hheads =>
    Decides.bind (table_decides hheads.toSized) fun htabled =>
    Decides.after (number_of_sized hheads.toSized (by decide) (by decide)) <|
    Decides.bind (hscan hheads htabled) fun hruns => hfound hruns) ?_
  rw [Scan.runs_iff within_new, show loadsAt bytes (programHeaders bytes) = loads bytes from rfl,
    chain_new_iff]
  constructor
  · rintro ⟨h, ht, ⟨hkinds, hfits, hfew, hascending, hdisjoint, hbudget⟩, hentered⟩
    exact ⟨h.long, h.short, h.magic, h.padding, h.executable, h.machine, h.version, h.flags,
      h.headerSize, h.entrySize, ht.some, ht.few, ht.apart, ht.inFile, hkinds, hfits, hfew,
      hascending, hdisjoint, hbudget, hentered⟩
  · intro h
    exact ⟨⟨⟨h.long, h.short⟩, h.magic, h.padding, h.executable, h.machine, h.version, h.flags,
      h.headerSize, h.entrySize⟩, ⟨h.some, h.few, h.apart, h.inFile⟩,
      ⟨h.kinds, h.fits, h.count, h.ascending, h.disjoint, h.budget⟩, h.entry⟩

/-! ### What an accepted file gives -/

/-- The pages of a segment. -/
def Segment.pages (s : Segment) : Finset Nat := pagesOf s.address.toNat s.memorySize.toNat

/-- An image is what its file says, its slices lie in the file, the ends of its segments are
computed, and no page is both writable and executable. -/
structure Sound (bytes : List UInt8) (image : Image) : Prop where
  file : image.bytes = bytes
  entry : image.entry.toNat = field bytes 24 8
  segments : image.loaded = (raws bytes).map Raw.toSegment
  data : ∀ s ∈ image.loaded,
    image.data s = .ok (slice bytes s.offset.toNat s.fileSize.toNat)
      ∧ (slice bytes s.offset.toNat s.fileSize.toNat).length = s.fileSize.toNat
  ends : ∀ s ∈ image.loaded, ∃ top, s.endPage = .ok top
  exclusive : ∀ s ∈ image.loaded, ∀ t ∈ image.loaded, s.writable = true → t.executable = true →
    Disjoint s.pages t.pages

theorem Raw.load_injective {q : Raw} (h : r.load = q.load) : r = q := by
  rcases r with ⟨f, o, a, s, m, l⟩
  rcases q with ⟨f', o', a', s', m', l'⟩
  simp only [Raw.load, Load.mk.injEq, toNat_inj] at h
  obtain ⟨rfl, rfl, rfl, rfl, rfl, rfl⟩ := h
  rfl

/-- A load is not writable and executable at once. -/
theorem not_writable_executable (h : r.load.Fits length) (hwritable : r.toSegment.writable = true) :
    r.toSegment.executable = false := by
  change decide (r.flags &&& 2 ≠ 0) = true at hwritable
  show decide (r.flags &&& 1 ≠ 0) = false
  rcases h.mode with hmode | hmode | hmode
  · rw [r.flags_eq hmode]
    decide
  · rw [r.flags_eq hmode] at hwritable
    exact absurd hwritable (by decide)
  · rw [r.flags_eq hmode]
    decide

theorem sound_imageOf (h : Admissible bytes) : Sound bytes (imageOf bytes) := by
  have hruns : Scan.new.Runs bytes (programHeaders bytes) :=
    (Scan.runs_iff within_new).mpr ⟨h.kinds, chain_new_iff.mpr
      ⟨h.fits, h.count, h.ascending, h.disjoint, h.budget⟩⟩
  have hloaded := loaded_imageOf hruns
  have hfits := fun r => fits_of_mem_raws (r := r) h.fits
  have horigin : ∀ s ∈ (imageOf bytes).loaded, ∃ r ∈ raws bytes, r.toSegment = s := by
    intro s hs
    rwa [hloaded, List.mem_map] at hs
  constructor
  case file => rfl
  case entry => exact toNat_field bytes 24 (le_refl 8)
  case segments => exact hloaded
  case data =>
    intro s hs
    obtain ⟨r, hr, rfl⟩ := horigin s hs
    have hin : r.fileOffset.toNat + r.fileSize.toNat ≤ bytes.length := (hfits r hr).inFile
    have hmax : MAX_BYTES < 2 ^ 63 := by decide
    have hshort := h.short
    have hsum : r.toSegment.offset.toNat + r.toSegment.fileSize.toNat < 2 ^ 64 :=
      show r.fileOffset.toNat + r.fileSize.toNat < 2 ^ 64 by omega
    refine ⟨?_, length_slice_of_le hin⟩
    unfold Image.data
    rw [plus_ok hsum, ok_bind, if_pos (by rw [toNat_add_of_lt hsum]; exact hin)]
    rfl
  case ends =>
    intro s hs
    obtain ⟨r, hr, rfl⟩ := horigin s hs
    exact ⟨_, Segment.endPage_ok (hfits r hr).high⟩
  case exclusive =>
    intro s hs t ht hwritable hexecutable
    obtain ⟨r, hr, rfl⟩ := horigin s hs
    obtain ⟨q, hq, rfl⟩ := horigin t ht
    -- two different loads, since no load is both
    have hne : r.load ≠ q.load := by
      intro heq
      cases Raw.load_injective heq
      rw [not_writable_executable (hfits r hr) hwritable] at hexecutable
      cases hexecutable
    have hmem : ∀ p ∈ raws bytes, p.load ∈ loads bytes := by
      intro p hp
      rw [← raws_load]
      exact List.mem_map_of_mem hp
    have hsymm : Std.Symm fun a b : Load => Disjoint a.pages b.pages := ⟨fun _ _ h => h.symm⟩
    exact h.disjoint.forall (hmem r hr) (hmem q hq) hne

/-- The parser accepts exactly the files the kernel runs, gives back what they say, and panics on
no file. -/
theorem parse_admits (bytes : List UInt8) :
    ((∃ image, Image.parse bytes = .ok image) ↔ Admissible bytes)
      ∧ (∀ image, Image.parse bytes = .ok image → Sound bytes image)
      ∧ ∀ halt, Image.parse bytes = .error halt → ∃ error, halt = .refused error := by
  have hdecides := parse_decides bytes
  refine ⟨hdecides.iff, ?_, ?_⟩
  · intro image himage
    rw [hdecides.eq himage]
    exact sound_imageOf (hdecides.iff.mp ⟨image, himage⟩)
  · intro halt hhalt
    have hnot : ¬ Admissible bytes := by
      intro h
      rw [hdecides.ok h] at hhalt
      cases hhalt
    obtain ⟨error, herror⟩ := hdecides.refused hnot
    rw [hhalt] at herror
    exact ⟨error, Except.error.inj herror⟩

/-- A file of one executable load that covers the headers themselves. -/
def sampleFile : List UInt8 :=
  MAGIC ++ zeros 7 ++ leBytes 2 2 ++ leBytes 2 62 ++ leBytes 4 1 ++ leBytes 8 0x400040
    ++ leBytes 8 64 ++ zeros 12 ++ leBytes 2 64 ++ leBytes 2 56 ++ leBytes 2 1 ++ zeros 6
    ++ leBytes 4 1 ++ leBytes 4 5 ++ zeros 8 ++ leBytes 8 0x400000 ++ zeros 8
    ++ leBytes 8 120 ++ leBytes 8 120 ++ leBytes 8 4096

example : (Image.parse sampleFile).toOption.map (fun image => (image.entry, image.count))
    = some (0x400040, 1) := by decide +kernel

end RusticOs.Kernel.Elf
