import RusticOs.Shell.Parser

/-!
# `RusticOs.Proofs.Shell`: the arguments of a command line

The parser writes arguments over the line it reads. An argument is never longer than what it was
read from, so `write ≤ read` and the bytes from `read` on are still those of the line
(`scan_eq`). So the parser does what `tokenize` does, which keeps the two apart
(`arguments_words`), and reads back what `commandLine` wrote (`tokens_commandLine`).

* `parse_in_place`: both, for every line and for every list of arguments.
-/

set_option autoImplicit false

namespace RusticOs.Shell

/-! ### One argument -/

theorem map_eq_ok {ε α β : Type} {f : α → β} {x : Except ε α} {b : β} :
    x.map f = .ok b ↔ ∃ a, x = .ok a ∧ f a = b := by
  cases x <;> simp [Except.map]

section
variable {quote : UInt8} {line w rest bytes : List UInt8} {read write : Nat}

theorem token_cons (quote b : UInt8) (rest : List UInt8) :
    token quote (b :: rest)
      = if quote = 0 ∧ b = 32 then .ok ([], rest)
        else if (b = 39 ∨ b = 34) ∧ quote = 0 then token b rest
        else if (b = 39 ∨ b = 34) ∧ quote = b then token 0 rest
        else if b = 92 ∧ quote ≠ 39 then
          match rest with
          | [] => .error .escape
          | c :: rest => (token quote rest).map (consByte (unescape c))
        else (token quote rest).map (consByte b) := by
  exact token.eq_def quote (b :: rest)

theorem unescape_lt {c : UInt8} (h : c < 128) : unescape c < 128 := by
  unfold unescape
  split
  · decide
  · split
    · decide
    · exact h

/-- What is left of a line is its end. An argument is no longer than what it was read from, and
ASCII when that is. -/
theorem token_used (h : token quote line = .ok (w, rest)) :
    ∃ used, line = used ++ rest ∧ w.length ≤ used.length
      ∧ ((∀ b ∈ used, b < 128) → ∀ b ∈ w, b < 128) := by
  fun_induction token quote line generalizing w rest with
  | case1 => cases h
  | case2 => cases h; exact ⟨[], rfl, le_rfl, id⟩
  | case3 quote b tail => cases h; exact ⟨[b], rfl, by simp, by simp⟩
  | case4 quote b tail _ _ ih | case5 quote b tail _ _ _ ih =>
    obtain ⟨used, rfl, hused, hascii⟩ := ih h
    exact ⟨b :: used, rfl, hused.trans (by simp), fun h => hascii (List.forall_mem_cons.mp h).2⟩
  | case6 => cases h
  | case7 quote b _ _ _ _ c tail ih =>
    obtain ⟨t, htoken, hcons⟩ := map_eq_ok.mp h
    cases hcons
    obtain ⟨used, rfl, hused, hascii⟩ := ih htoken
    refine ⟨b :: c :: used, rfl, by simp only [List.length_cons]; omega, fun h => ?_⟩
    obtain ⟨hc, htail⟩ := List.forall_mem_cons.mp (List.forall_mem_cons.mp h).2
    exact List.forall_mem_cons.mpr ⟨unescape_lt hc, hascii htail⟩
  | case8 quote b tail _ _ _ _ ih =>
    obtain ⟨t, htoken, hcons⟩ := map_eq_ok.mp h
    cases hcons
    obtain ⟨used, rfl, hused, hascii⟩ := ih htoken
    refine ⟨b :: used, rfl, by simpa using hused, fun h => ?_⟩
    obtain ⟨hb, htail⟩ := List.forall_mem_cons.mp h
    exact List.forall_mem_cons.mpr ⟨hb, hascii htail⟩

/-- A byte written at `write`, and the rest of the argument after it. -/
theorem written_cons (h : write < bytes.length) (b : UInt8) (w : List UInt8) :
    (bytes.set write b).take (write + 1) ++ w ++ (bytes.set write b).drop (write + 1 + w.length)
      = bytes.take write ++ (b :: w) ++ bytes.drop (write + (b :: w).length) := by
  rw [List.drop_set_of_lt (by omega), List.set_eq_take_append_cons_drop, if_pos h,
    List.take_append, List.length_take, min_eq_left h.le, List.take_take]
  simp [Nat.add_comm, Nat.add_left_comm]

/-- Reading an argument in place: the argument stands at `write`, the bytes that are not read yet
are as they were, and `read` is where they start. -/
theorem scan_eq (hwrite : write ≤ read) (hread : read ≤ bytes.length) :
    scan bytes read write quote
      = (token quote (bytes.drop read)).map fun t =>
          (bytes.take write ++ t.1 ++ bytes.drop (write + t.1.length), bytes.length - t.2.length,
            write + t.1.length) := by
  fun_induction scan bytes read write quote with
  | case1 bytes read write quote h b hspace =>
    rw [List.drop_eq_getElem_cons h, token_cons, if_pos hspace]
    simp [Except.map]
    omega
  | case2 bytes read write quote h b hspace hopen ih =>
    rw [List.drop_eq_getElem_cons h, token_cons, if_neg hspace, if_pos hopen]
    exact ih (by omega) h
  | case3 bytes read write quote h b hspace hopen hclose ih =>
    rw [List.drop_eq_getElem_cons h, token_cons, if_neg hspace, if_neg hopen, if_pos hclose]
    exact ih (by omega) h
  | case4 bytes read write quote h b hspace hopen hclose hescape h' ih =>
    rw [List.drop_eq_getElem_cons h, token_cons, if_neg hspace, if_neg hopen, if_neg hclose,
      if_pos hescape, List.drop_eq_getElem_cons h', ih (by omega) (by rw [List.length_set]; omega),
      List.drop_set_of_lt (by omega)]
    show _ = Except.map _ (Except.map _ (token quote (bytes.drop (read + 2))))
    cases token quote (bytes.drop (read + 2)) with
    | error e => rfl
    | ok t =>
      have hwritten := written_cons (show write < bytes.length by omega)
        (unescape bytes[read + 1]) t.1
      simp only [Except.map, consByte, hwritten, List.length_set, List.length_cons]
      rw [Nat.add_right_comm, Nat.add_assoc]
  | case5 bytes read write quote h b hspace hopen hclose hescape h' =>
    rw [List.drop_eq_getElem_cons h, token_cons, if_neg hspace, if_neg hopen, if_neg hclose,
      if_pos hescape, List.drop_eq_nil_of_le (by omega)]
    rfl
  | case6 bytes read write quote h b hspace hopen hclose hescape ih =>
    rw [List.drop_eq_getElem_cons h, token_cons, if_neg hspace, if_neg hopen, if_neg hclose,
      if_neg hescape, ih (by omega) (by simpa using h), List.drop_set_of_lt (by omega)]
    cases token quote (bytes.drop (read + 1)) with
    | error e => rfl
    | ok t =>
      have hwritten := written_cons (show write < bytes.length by omega) bytes[read] t.1
      simp only [Except.map, consByte, b, hwritten, List.length_set, List.length_cons]
      rw [Nat.add_right_comm, Nat.add_assoc]
  | case7 bytes read write quote h hquote =>
    rw [List.drop_eq_nil_of_le (by omega), token, if_pos hquote]
    rfl
  | case8 bytes read write quote h hquote =>
    rw [List.drop_eq_nil_of_le (by omega), token, if_neg hquote]
    simp [Except.map]
    omega

/-- A buffer after an argument was written: the text so far, the bytes that are not read yet, and
the write cursor behind the read cursor. -/
theorem written (hread : read ≤ bytes.length) (hwrite : write ≤ read) {used : List UInt8}
    (hline : bytes.drop read = used ++ rest) (hw : w.length ≤ used.length) :
    (bytes.take write ++ w ++ bytes.drop (write + w.length)).take (write + w.length)
        = bytes.take write ++ w
      ∧ (bytes.take write ++ w ++ bytes.drop (write + w.length)).drop (bytes.length - rest.length)
        = rest
      ∧ write + w.length ≤ bytes.length - rest.length := by
  have hlength := congrArg List.length hline
  rw [List.length_drop, List.length_append] at hlength
  have htext : (bytes.take write ++ w).length = write + w.length := by
    rw [List.length_append, List.length_take]
    omega
  refine ⟨List.take_left' htext, ?_, by omega⟩
  rw [List.drop_append, htext, List.drop_eq_nil_of_le (by omega), List.drop_drop, List.nil_append,
    show write + w.length + (bytes.length - rest.length - (write + w.length))
      = read + used.length by omega, ← List.drop_drop, hline, List.drop_left]

end

/-! ### All arguments -/

/-- The bytes of every range of a text. -/
def Args.words (a : Args) : List (List UInt8) := a.ranges.map (slice a.text)

section
variable {bytes : List UInt8} {read write room : Nat} {ranges : List (Nat × Nat)}

theorem drop_skip (bytes : List UInt8) (read : Nat) :
    bytes.drop (skip bytes read) = (bytes.drop read).dropWhile (· == 32) := by
  fun_induction skip bytes read with
  | case1 read h ih =>
    obtain ⟨hlt, hb⟩ := List.getElem?_eq_some_iff.mp h
    rw [ih, List.drop_eq_getElem_cons hlt, List.dropWhile_cons_of_pos (by simp [hb])]
  | case2 read h =>
    by_cases hlt : read < bytes.length
    · rw [List.getElem?_eq_getElem hlt, Option.some.injEq] at h
      rw [List.drop_eq_getElem_cons hlt, List.dropWhile_cons_of_neg (by simpa using h)]
    · rw [List.drop_eq_nil_of_le (by omega), List.dropWhile_nil]

theorem le_skip (bytes : List UInt8) (read : Nat) : read ≤ skip bytes read := by
  fun_induction skip bytes read with
  | case1 read h ih => omega
  | case2 read h => exact le_rfl

/-- A range that ends before an addition to the text does not see it. -/
theorem slice_append {text w : List UInt8} {range : Nat × Nat} (h : range.2 ≤ text.length) :
    Args.slice (text ++ w) range = Args.slice text range := by
  rw [Args.slice, Args.slice, List.take_append_of_le_length h]

/-- The range of the addition is the addition. -/
theorem slice_last {text w : List UInt8} {start : Nat} (h : text.length = start) :
    Args.slice (text ++ w) (start, start + w.length) = w := by
  subst h
  rw [Args.slice, ← List.length_append, List.take_length, List.drop_left]

/-- The arguments that are left, after those already written. -/
theorem arguments_words (hwrite : write ≤ read) (hfit : write ≤ bytes.length)
    (hranges : ∀ range ∈ ranges, range.2 ≤ write) :
    (arguments room bytes read write ranges).map Args.words
      = (tokens room (bytes.drop read)).map (ranges.map (Args.slice (bytes.take write)) ++ ·) := by
  induction room generalizing bytes read write ranges with
  | zero =>
    rw [arguments, tokens, ← drop_skip]
    by_cases hmore : skip bytes read < bytes.length
    · rw [if_pos hmore, if_neg (by rw [List.drop_eq_nil_iff]; omega)]
      rfl
    · rw [if_neg hmore, if_pos (List.drop_eq_nil_iff.mpr (not_lt.mp hmore))]
      simp [Except.map, Args.words]
  | succ room ih =>
    rw [arguments, tokens, ← drop_skip]
    by_cases hmore : skip bytes read < bytes.length
    · have hskip := le_skip bytes read
      rw [if_pos hmore, if_neg (by rw [List.drop_eq_nil_iff]; omega), scan_eq (by omega) hmore.le]
      cases htoken : token 0 (bytes.drop (skip bytes read)) with
      | error e => rfl
      | ok t =>
        obtain ⟨w, rest⟩ := t
        obtain ⟨used, hline, hw, -⟩ := token_used htoken
        obtain ⟨htext, hrest, hstop⟩ := written hmore.le (hwrite.trans hskip) hline hw
        have hstart : (bytes.take write).length = write := by
          rw [List.length_take]
          omega
        have hbefore : ∀ range ∈ ranges, range.2 ≤ (bytes.take write).length := by
          rw [hstart]
          exact hranges
        have hafter : ∀ range ∈ ranges ++ [(write, write + w.length)],
            range.2 ≤ write + w.length := by
          intro range hrange
          rcases List.mem_append.mp hrange with hold | hnew
          · exact (hranges range hold).trans (by omega)
          · rw [List.mem_singleton.mp hnew]
        show (arguments room _ _ _ _).map _ = ((tokens room rest).map (w :: ·)).map _
        rw [ih hstop (by simp only [List.length_append, List.length_drop, hstart]; omega) hafter,
          htext, hrest, List.map_append, List.map_singleton, slice_last hstart,
          List.map_congr_left fun range hrange => slice_append (hbefore range hrange)]
        cases tokens room rest with
        | error e => rfl
        | ok ws => simp [Except.map]
    · rw [if_neg hmore, if_pos (List.drop_eq_nil_iff.mpr (not_lt.mp hmore))]
      simp [Except.map, Args.words]

end

/-! ### ASCII -/

theorem tokens_ascii {room : Nat} {line : List UInt8} {ws : List (List UInt8)}
    (hline : ∀ b ∈ line, b < 128) (h : tokens room line = .ok ws) :
    ∀ w ∈ ws, ∀ b ∈ w, b < 128 := by
  induction room generalizing line ws with
  | zero =>
    rw [tokens] at h
    split at h
    · cases h; simp
    · cases h
  | succ room ih =>
    rw [tokens] at h
    split at h
    · cases h; simp
    · have hskipped : ∀ b ∈ line.dropWhile (· == 32), b < 128 :=
        fun b hb => hline b ((List.dropWhile_sublist _).mem hb)
      cases htoken : token 0 (line.dropWhile (· == 32)) with
      | error e => rw [htoken] at h; cases h
      | ok t =>
        obtain ⟨w, rest⟩ := t
        obtain ⟨used, hused, -, hascii⟩ := token_used htoken
        rw [hused, List.forall_mem_append] at hskipped
        rw [htoken] at h
        obtain ⟨words, htokens, rfl⟩ := map_eq_ok.mp h
        exact List.forall_mem_cons.mpr ⟨hascii hskipped.1, ih hskipped.2 htokens⟩

/-- ASCII arguments are read as they are. -/
theorem Args.get_eq {a : Args} (h : ∀ w ∈ a.words, ∀ b ∈ w, b < 128) :
    a.get = fun n => a.words[n]? := by
  funext n
  rw [Args.get, Args.words, List.getElem?_map]
  cases hrange : a.ranges[n]? with
  | none => rfl
  | some range =>
    exact if_pos (h _ (List.mem_map_of_mem (List.mem_of_getElem? hrange)))

/-! ### Arguments in quotes -/

/-- The inside of an argument in double quotes, and what comes after it. -/
theorem token_enclosed (word rest : List UInt8) :
    token 34 (word.flatMap (fun b => if b = 34 ∨ b = 92 then [92, b] else [b]) ++ 34 :: rest)
      = (token 0 rest).map fun t => (word ++ t.1, t.2) := by
  induction word with
  | nil =>
    rw [List.flatMap_nil, List.nil_append, token_cons, if_neg (by decide), if_neg (by decide),
      if_pos (by decide)]
    cases token 0 rest <;> rfl
  | cons b word ih =>
    rw [List.flatMap_cons, List.append_assoc]
    by_cases hb : b = 34 ∨ b = 92
    · have hself : unescape b = b := by
        rcases hb with rfl | rfl <;> rfl
      rw [if_pos hb, List.cons_append, token_cons, if_neg (by decide), if_neg (by decide),
        if_neg (by decide), if_pos (by decide)]
      show (token 34 (word.flatMap _ ++ 34 :: rest)).map _ = _
      rw [ih, hself]
      cases token 0 rest <;> rfl
    · obtain ⟨hquote, hslash⟩ := not_or.mp hb
      rw [if_neg hb, List.singleton_append, token_cons, if_neg (by simp), if_neg (by simp),
        if_neg (fun h => hquote h.2.symm), if_neg (fun h => hslash h.1), ih]
      cases token 0 rest <;> rfl

/-- An argument in double quotes at the end of a line or before a space. -/
theorem token_enclose (word : List UInt8) {tail rest : List UInt8}
    (h : token 0 tail = .ok ([], rest)) : token 0 (enclose word ++ tail) = .ok (word, rest) := by
  rw [enclose, List.cons_append, List.cons_append, token_cons, if_neg (by decide),
    if_pos (by decide), List.append_assoc, List.singleton_append, token_enclosed, h]
  simp [Except.map]

theorem commandLine_one (w : List UInt8) : commandLine [w] = enclose w := by
  simp [commandLine, List.intercalate]

theorem commandLine_cons_cons (w w' : List UInt8) (ws : List (List UInt8)) :
    commandLine (w :: w' :: ws) = enclose w ++ 32 :: commandLine (w' :: ws) := rfl

/-- A quoted argument starts with no space. -/
theorem dropWhile_enclose (w tail : List UInt8) :
    (enclose w ++ tail).dropWhile (· == 32) = enclose w ++ tail := rfl

theorem tokens_commandLine {room : Nat} (ws : List (List UInt8)) (h : ws.length ≤ room) :
    tokens room (commandLine ws) = .ok ws := by
  induction ws generalizing room with
  | nil => cases room <;> rfl
  | cons w ws ih =>
    cases room with
    | zero => simp at h
    | succ room =>
      have hroom : ws.length ≤ room := by simpa using h
      cases ws with
      | nil =>
        rw [commandLine_one, ← List.append_nil (enclose w), tokens, dropWhile_enclose,
          if_neg (by simp [enclose]), token_enclose w (show token 0 [] = .ok ([], []) from rfl)]
        show (tokens room (commandLine [])).map _ = _
        rw [ih hroom]
        rfl
      | cons w' ws =>
        rw [commandLine_cons_cons, tokens, dropWhile_enclose, if_neg (by simp [enclose]),
          token_enclose w (show token 0 (32 :: commandLine (w' :: ws)) = .ok ([], _) by
            rw [token_cons]; rfl)]
        show (tokens room (commandLine (w' :: ws))).map _ = _
        rw [ih hroom]
        rfl

theorem commandLine_ascii {ws : List (List UInt8)} (h : ∀ w ∈ ws, ∀ b ∈ w, b < 128) :
    ∀ b ∈ commandLine ws, b < 128 := by
  have henclose : ∀ w : List UInt8, (∀ b ∈ w, b < 128) → ∀ b ∈ enclose w, b < 128 := by
    intro w hw b hb
    simp only [enclose, List.mem_append, List.mem_cons, List.mem_flatMap, List.not_mem_nil,
      or_false] at hb
    rcases hb with (rfl | ⟨c, hc, hbc⟩) | rfl
    · decide
    · split at hbc
      · rcases List.mem_pair.mp hbc with rfl | rfl
        · decide
        · exact hw b hc
      · rw [List.mem_singleton.mp hbc]
        exact hw c hc
    · decide
  induction ws with
  | nil => simp [commandLine]
  | cons w ws ih =>
    obtain ⟨hw, hws⟩ := List.forall_mem_cons.mp h
    cases ws with
    | nil =>
      rw [commandLine_one]
      exact henclose w hw
    | cons w' ws =>
      rw [commandLine_cons_cons]
      intro b hb
      rcases List.mem_append.mp hb with hb | hb
      · exact henclose w hw b hb
      · rcases List.mem_cons.mp hb with rfl | hb
        · decide
        · exact ih hws b hb

/-! ### The parser -/

theorem parse_eq_tokenize (bytes : List UInt8) :
    (parse bytes).map (fun a => (a.len, a.get))
      = (tokenize bytes).map fun ws => (ws.length, fun n => ws[n]?) := by
  unfold parse tokenize
  by_cases hascii : ∀ b ∈ bytes, b < 128
  · rw [if_pos hascii, if_pos hascii]
    have hwords := @arguments_words bytes 0 0 16 [] le_rfl (Nat.zero_le _) (by simp)
    have htokens : tokens 16 bytes = (arguments 16 bytes 0 0 []).map Args.words := by
      rw [hwords, List.drop_zero]
      cases tokens 16 bytes <;> rfl
    rw [htokens]
    cases hargs : arguments 16 bytes 0 0 [] with
    | error e => rfl
    | ok a =>
      rw [hargs] at htokens
      show Except.ok (a.len, a.get) = .ok (a.words.length, fun n => a.words[n]?)
      rw [Args.get_eq (tokens_ascii hascii htokens), Args.words, List.length_map, Args.len]
  · rw [if_neg hascii, if_neg hascii]
    rfl

/-- The in-place parser gives the arguments or the error of a tokenizer that reads the line as it
was. Whatever it has written, the write cursor is behind the read cursor and the bytes that are
not read yet are untouched. Arguments put in quotes are read back as they were. -/
theorem parse_in_place :
    (∀ bytes, (parse bytes).map (fun a => (a.len, a.get))
        = (tokenize bytes).map fun ws => (ws.length, fun n => ws[n]?))
      ∧ (∀ bytes read write quote buffer read' write', write ≤ read → read ≤ bytes.length →
        scan bytes read write quote = .ok (buffer, read', write') →
          write' ≤ read' ∧ buffer.drop read' = bytes.drop read')
      ∧ ∀ ws : List (List UInt8), ws.length ≤ 16 → (∀ w ∈ ws, ∀ b ∈ w, b < 128) →
        (parse (commandLine ws)).map (fun a => (a.len, a.get))
          = .ok (ws.length, fun n => ws[n]?) := by
  refine ⟨parse_eq_tokenize, ?_, ?_⟩
  · intro bytes read write quote buffer read' write' hwrite hread hscan
    rw [scan_eq hwrite hread] at hscan
    obtain ⟨⟨w, rest⟩, htoken, hresult⟩ := map_eq_ok.mp hscan
    cases hresult
    obtain ⟨used, hline, hw, -⟩ := token_used htoken
    obtain ⟨-, hrest, hstop⟩ := written hread hwrite hline hw
    have hlength := congrArg List.length hline
    rw [List.length_drop, List.length_append] at hlength
    refine ⟨hstop, hrest.trans ?_⟩
    rw [show bytes.length - rest.length = read + used.length by omega, ← List.drop_drop, hline,
      List.drop_left]
  · intro ws hroom hascii
    rw [parse_eq_tokenize, tokenize, if_pos (commandLine_ascii hascii), tokens_commandLine ws hroom]
    rfl

end RusticOs.Shell
