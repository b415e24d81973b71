import RusticOs.Abi.Text

/-!
# `RusticOs.Proofs.Text`: each identifier has one text

A parser accepts exactly what `display` writes (`Canonical`). The parts of a text are cut at fixed
places, so the argument is the same for every identifier: the cuts are the tag, the separators and
the digits of the parts.

* `hex_eq_ok`, `hex32_iff`, `hex64_iff`: the digits of one part;
* `text_identifiers_canonical`: the seven identifiers.
-/

set_option autoImplicit false

namespace RusticOs.Abi

open RusticOs.Lib

/-! ### Parts -/

section
variable {n : Nat} {text : List UInt8}

/-- Fixed-width hex accepts the lower-case digits of its bytes only. -/
theorem hex_eq_ok {b : Bytes n} : hex n text = .ok b ↔ text = hexPairs b.toList := by
  simp only [hex, except_bind_eq_ok, reject_eq_ok, orRefuse_eq_ok, readHex_eq_some]
  constructor
  · rintro ⟨_, hlength, bytes, rfl, h⟩
    rw [not_not, length_hexPairs] at hlength
    have hn : bytes.length = n := by omega
    rw [← Except.ok.inj h, Bytes.toList_pack_of_length hn]
  · intro h
    refine ⟨(), ?_, b.toList, h, ?_⟩
    · rw [not_not, h, length_hexPairs, Vector.length_toList]
    · rw [Bytes.pack_toList]
      rfl

/-- The text of a big-endian word. -/
theorem hexPairs_reverse {w x : Nat} {l : List UInt8} (hl : l.length = w) (hx : leValue l = x) :
    hexPairs l.reverse = lowerHex (2 * w) x := by
  subst hl hx
  rw [lowerHex_eq_hexPairs (leValue_lt l), beBytes, leBytes_leValue]

/-- The texts of the words of `w` bytes, most significant byte first. -/
theorem hex_be_iff {w x : Nat} (hx : x < 256 ^ w) :
    (∃ b, hex w text = .ok b ∧ leValue b.toList.reverse = x) ↔ text = lowerHex (2 * w) x := by
  constructor
  · rintro ⟨b, hb, hvalue⟩
    have hlength : b.toList.reverse.length = w := by rw [List.length_reverse, Vector.length_toList]
    rw [hex_eq_ok.mp hb, ← hexPairs_reverse hlength hvalue, List.reverse_reverse]
  · intro h
    have hvalue : leValue (leBytes w x) = x := by rw [leValue_leBytes, Nat.mod_eq_of_lt hx]
    have hlist : (Bytes.pack w (leBytes w x).reverse).toList = (leBytes w x).reverse :=
      Bytes.toList_pack_of_length (by rw [List.length_reverse, length_leBytes])
    refine ⟨Bytes.pack w (leBytes w x).reverse, hex_eq_ok.mpr ?_, ?_⟩
    · rw [h, hlist, hexPairs_reverse (length_leBytes w x) hvalue]
    · rw [hlist, List.reverse_reverse, hvalue]

/-- A big-endian word fits its width. -/
theorem leValue_reverse_lt (b : Bytes n) : leValue b.toList.reverse < 256 ^ n := by
  have hlt := leValue_lt b.toList.reverse
  rwa [List.length_reverse, Vector.length_toList] at hlt

/-- A big-endian word of four bytes. -/
theorem ofBe32_eq {b : Bytes 4} {x : UInt32} :
    ofBe32 b = x ↔ leValue b.toList.reverse = x.toNat := by
  rw [← UInt32.toNat_inj, ofBe32, ofLe32, UInt32.toNat_ofNat_of_lt' (leValue_reverse_lt b)]

/-- A big-endian word of eight bytes. -/
theorem ofBe64_eq {b : Bytes 8} {x : UInt64} :
    ofBe64 b = x ↔ leValue b.toList.reverse = x.toNat := by
  rw [← UInt64.toNat_inj, ofBe64, ofLe64, UInt64.toNat_ofNat_of_lt' (leValue_reverse_lt b)]

/-- Eight digits name one 32-bit word. -/
theorem hex32_iff {x : UInt32} :
    (∃ b, hex 4 text = .ok b ∧ ofBe32 b = x) ↔ text = lowerHex 8 x.toNat := by
  simpa only [ofBe32_eq] using hex_be_iff x.toNat_lt

/-- Sixteen digits name one 64-bit word. -/
theorem hex64_iff {x : UInt64} :
    (∃ b, hex 8 text = .ok b ∧ ofBe64 b = x) ↔ text = lowerHex 16 x.toNat := by
  simpa only [ofBe64_eq] using hex_be_iff x.toNat_lt

/-- The digits of a 64-bit word. -/
theorem length_lowerHex_word (x : UInt64) : (lowerHex 16 x.toNat).length = 16 := by
  rw [show 16 = 2 * 8 from rfl, lowerHex_eq_hexPairs x.toNat_lt, length_hexPairs, beBytes,
    List.length_reverse, length_leBytes]

/-- The digits of a 32-bit word. -/
theorem length_lowerHex_word32 (x : UInt32) : (lowerHex 8 x.toNat).length = 8 := by
  rw [show 8 = 2 * 4 from rfl, lowerHex_eq_hexPairs x.toNat_lt, length_hexPairs, beBytes,
    List.length_reverse, length_leBytes]

/-- The digits of a lineage. -/
theorem length_displayLineage (lineage : Bytes 16) : (displayLineage lineage).length = 32 := by
  rw [displayLineage, length_hexPairs, Vector.length_toList]

/-- Cutting the first part off the rest of a text. -/
theorem drop_eq_append (text : List UInt8) (off : Nat) {len : Nat} {a b : List UInt8}
    (ha : a.length = len) :
    text.drop off = a ++ b ↔ slice text off len = a ∧ text.drop (off + len) = b := by
  subst ha
  rw [slice, ← List.drop_drop]
  constructor
  · intro h
    rw [h]
    exact ⟨List.take_left, List.drop_left⟩
  · rintro ⟨ha, hb⟩
    rw [← List.take_append_drop a.length (text.drop off), ha, hb]

/-- The last part of a text. -/
theorem drop_eq_last (text : List UInt8) (off : Nat) {len : Nat} {a : List UInt8}
    (ha : a.length = len) (hlen : 0 < len) :
    text.drop off = a ↔ text.length = off + len ∧ slice text off len = a := by
  constructor
  · intro h
    have hlength : text.length - off = len := by rw [← List.length_drop, h, ha]
    exact ⟨by omega, by rw [slice, h, List.take_of_length_le (le_of_eq ha)]⟩
  · rintro ⟨hlength, hslice⟩
    rwa [slice, List.take_of_length_le (by rw [List.length_drop]; omega)] at hslice

end

/-! ### Constructors -/

/-- A word is accepted as it is, when it is not zero. -/
theorem Word.new_eq_ok {value : UInt64} {x : Word} : Word.new value = .ok x ↔ value = x.value := by
  unfold Word.new
  split
  · rename_i h
    constructor
    · exact nofun
    · exact fun hx => absurd (hx.symm.trans h) x.nonzero
  · rw [Except.ok.injEq]
    cases x
    simp

/-- A numbered identity is its lineage and number. -/
theorem Numbered.new_eq_ok {lineage : Bytes 16} {number : UInt64} {x : Numbered} :
    Numbered.new lineage number = .ok x ↔ lineage = x.lineage ∧ number = x.number := by
  unfold Numbered.new
  split
  · rename_i h
    constructor
    · exact nofun
    · rintro ⟨hl, hn⟩
      rcases h with h | h
      · exact absurd (hl.symm.trans h) x.lineage_ne
      · exact absurd (hn.symm.trans h) x.nonzero
  · rw [Except.ok.injEq]
    cases x
    simp

/-- A workspace is its lineage and root. -/
theorem Workspace.new_eq_ok {lineage : Bytes 16} {root : UInt32} {x : Workspace} :
    Workspace.new lineage root = .ok x ↔ lineage = x.lineage ∧ root = x.root := by
  unfold Workspace.new
  split
  · rename_i h
    constructor
    · exact nofun
    · rintro ⟨hl, hr⟩
      rcases h with h | h
      · exact absurd (hl.symm.trans h) x.lineage_ne
      · exact absurd (hr.symm.trans h) x.root_ne
  · rw [Except.ok.injEq]
    cases x
    simp

/-- A resource is its workspace and object. -/
theorem Resource.new_eq_ok {workspace : Workspace} {object : UInt32} {x : Resource} :
    Resource.new workspace object = .ok x ↔ workspace = x.workspace ∧ object = x.object := by
  unfold Resource.new
  split
  · rename_i h
    constructor
    · exact nofun
    · exact fun hx => absurd (hx.2.symm.trans h) x.object_ne
  · rw [Except.ok.injEq]
    cases x
    simp

/-! ### Identifiers -/

/-- The parser accepts each identifier's own text and nothing else, so two texts never name one
identifier. -/
structure Canonical {α : Type} (display : α → List UInt8)
    (fromStr : List UInt8 → Except Error α) : Prop where
  accepts : ∀ text x, fromStr text = .ok x ↔ text = display x
  unique : ∀ text other x, fromStr text = .ok x → fromStr other = .ok x → text = other

/-- A parser that accepts exactly the displayed texts is canonical. -/
theorem Canonical.of_accepts {α : Type} {display : α → List UInt8}
    {fromStr : List UInt8 → Except Error α}
    (h : ∀ text x, fromStr text = .ok x ↔ text = display x) : Canonical display fromStr :=
  ⟨h, fun text other x ht ho => ((h text x).mp ht).trans ((h other x).mp ho).symm⟩

/-- A tag and a word: versions, retry epochs and retry keys. -/
theorem word_canonical {tag : List UInt8} (htag : tag.length = 2) :
    Canonical (displayWord tag) (wordFromStr tag) := by
  refine .of_accepts fun text x => ?_
  have hcut : text = displayWord tag x ↔ _ := drop_eq_append text 0 htag
  have hlast := drop_eq_last text 2 (length_lowerHex_word x.value) (by decide)
  simp only [hcut, wordFromStr, except_bind_eq_ok, reject_eq_ok, Word.new_eq_ok, hex64_iff,
    exists_const, not_or, not_not]
  exact ⟨fun h => ⟨h.1.2, h.2⟩, fun h => ⟨⟨(hlast.mp h.2).1, h.1⟩, h.2⟩⟩

/-- The text of a lineage between a tag and the parts behind the separator. -/
theorem lineage_cuts {tag text rest : List UInt8} (htag : tag.length = 3) (lineage : Bytes 16) :
    text = tag ++ (displayLineage lineage ++ (underscore ++ rest))
      ↔ slice text 0 3 = tag ∧ slice text 3 32 = hexPairs lineage.toList
        ∧ slice text 35 1 = underscore ∧ text.drop 36 = rest := by
  rw [← drop_eq_append text 35 (by rfl), ← displayLineage,
    ← drop_eq_append text 3 (length_displayLineage lineage), ← drop_eq_append text 0 htag,
    List.drop_zero]

/-- A tag, a lineage and a number. -/
theorem numbered_canonical {tag : List UInt8} (htag : tag.length = 3) :
    Canonical (displayNumbered tag) (numberedFromStr tag) := by
  refine .of_accepts fun text x => ?_
  have hlast := drop_eq_last text 36 (length_lowerHex_word x.number) (by decide)
  simp only [displayNumbered, List.append_assoc, lineage_cuts htag, numberedFromStr,
    except_bind_eq_ok, reject_eq_ok, Numbered.new_eq_ok, hex_eq_ok, exists_const, not_or, not_not]
  constructor
  · rintro ⟨⟨-, hcut, hsep⟩, lineage, hline, number, hnumber, rfl, hvalue⟩
    exact ⟨hcut, hline, hsep, hex64_iff.mp ⟨number, hex_eq_ok.mpr hnumber, hvalue⟩⟩
  · rintro ⟨hcut, hline, hsep, hword⟩
    obtain ⟨number, hnumber, hvalue⟩ := hex64_iff.mpr hword
    exact ⟨⟨(hlast.mp hword).1, hcut, hsep⟩, x.lineage, hline, number, hex_eq_ok.mp hnumber, rfl,
      hvalue⟩

/-- A workspace: tag, lineage and root. -/
theorem workspace_canonical : Canonical displayWorkspace workspaceFromStr := by
  refine .of_accepts fun text x => ?_
  have htag : (ascii ['w', 's', '_']).length = 3 := rfl
  simp only [displayWorkspace, List.append_assoc, lineage_cuts htag,
    drop_eq_last text 36 (length_lowerHex_word32 x.root) (by decide), workspaceFromStr,
    except_bind_eq_ok, reject_eq_ok, Workspace.new_eq_ok, hex_eq_ok, exists_const, not_or, not_not]
  constructor
  · rintro ⟨⟨hlength, hcut, hsep⟩, lineage, hline, root, hroot, rfl, hvalue⟩
    exact ⟨hcut, hline, hsep, hlength, hex32_iff.mp ⟨root, hex_eq_ok.mpr hroot, hvalue⟩⟩
  · rintro ⟨hcut, hline, hsep, hlength, hword⟩
    obtain ⟨root, hroot, hvalue⟩ := hex32_iff.mpr hword
    exact ⟨⟨hlength, hcut, hsep⟩, x.lineage, hline, root, hex_eq_ok.mp hroot, rfl, hvalue⟩

/-- A resource: tag, lineage, root and object. -/
theorem resource_canonical : Canonical displayResource resourceFromStr := by
  refine .of_accepts fun text x => ?_
  have htag : (ascii ['r', 's', '_']).length = 3 := rfl
  have hunder : underscore.length = 1 := rfl
  simp only [displayResource, List.append_assoc, lineage_cuts htag,
    drop_eq_append text 36 (length_lowerHex_word32 x.workspace.root),
    drop_eq_append text 44 hunder,
    drop_eq_last text 45 (length_lowerHex_word32 x.object) (by decide),
    resourceFromStr, except_bind_eq_ok, reject_eq_ok, Workspace.new_eq_ok, Resource.new_eq_ok,
    hex_eq_ok, exists_const, not_or, not_not]
  constructor
  · rintro ⟨⟨hlength, hcut, hsep, hsep'⟩, lineage, hline, root, hr, workspace, ⟨rfl, hvalue⟩,
      object, ho, rfl, hvalue'⟩
    exact ⟨hcut, hline, hsep, hex32_iff.mp ⟨root, hex_eq_ok.mpr hr, hvalue⟩, hsep', hlength,
      hex32_iff.mp ⟨object, hex_eq_ok.mpr ho, hvalue'⟩⟩
  · rintro ⟨hcut, hline, hsep, hr, hsep', hlength, ho⟩
    obtain ⟨root, hok, hvalue⟩ := hex32_iff.mpr hr
    obtain ⟨object, hok', hvalue'⟩ := hex32_iff.mpr ho
    exact ⟨⟨hlength, hcut, hsep, hsep'⟩, x.workspace.lineage, hline, root, hex_eq_ok.mp hok,
      x.workspace, ⟨rfl, hvalue⟩, object, hex_eq_ok.mp hok', rfl, hvalue'⟩

/-- Every identifier is parsed from the text it displays and from no other text, so two texts never
name one object. -/
theorem text_identifiers_canonical :
    Canonical displayWorkspace workspaceFromStr ∧ Canonical displayResource resourceFromStr
      ∧ Canonical displayVersion versionFromStr ∧ Canonical displayEpoch epochFromStr
      ∧ Canonical displayKey keyFromStr ∧ Canonical displayOperationId operationIdFromStr
      ∧ Canonical displayAdmissionId admissionIdFromStr :=
  ⟨workspace_canonical, resource_canonical, word_canonical rfl, word_canonical rfl,
    word_canonical rfl, numbered_canonical rfl, numbered_canonical rfl⟩

end RusticOs.Abi
