import Mathlib.Data.FinEnum
import Mathlib.Tactic

/-!
# `RusticOs.Shell.Parser`: bounded in-place quoting and escaping

`parse` of `apps/shell/src/parser.rs`. A command line is cut into at most sixteen arguments. The
arguments are written over the line they are read from: `read` is where the next byte is taken,
`write` where the next byte of an argument goes.

`tokenize` is what the parser is for: it reads the line from a list and builds the arguments
apart from it. `commandLine` writes arguments so that they can be read back.
-/

set_option autoImplicit false

namespace RusticOs.Shell

inductive Error where
  | quote
  | escape
  | arguments
  | encoding
  deriving Repr, DecidableEq

/-- The arguments of a line: where each of them starts and ends in the text. -/
structure Args where
  text : List UInt8
  ranges : List (Nat × Nat)

/-- The text of ASCII bytes. The parser refuses every other line, so that no other bytes are
asked for. -/
def asciiText (bytes : List UInt8) : Option (List UInt8) :=
  if ∀ b ∈ bytes, b < 128 then some bytes else none

namespace Args

def len (a : Args) : Nat := a.ranges.length

/-- The bytes of a range of the text. -/
def slice (text : List UInt8) (range : Nat × Nat) : List UInt8 :=
  (text.take range.2).drop range.1

def get (a : Args) (n : Nat) : Option (List UInt8) :=
  a.ranges[n]?.bind fun range => asciiText (slice a.text range)

end Args

/-- What a byte after a backslash stands for. -/
def unescape (c : UInt8) : UInt8 := if c = 110 then 10 else if c = 116 then 9 else c

/-- Pass over spaces. -/
def skip (bytes : List UInt8) (read : Nat) : Nat :=
  if h : bytes[read]? = some 32 then skip bytes (read + 1) else read
termination_by bytes.length - read
decreasing_by
  have := (List.getElem?_eq_some_iff.mp h).1
  omega

/-- Read one argument, up to a space outside quotes or the end of the line. `quote` is the quote
that is open, or zero. -/
def scan (bytes : List UInt8) (read write : Nat) (quote : UInt8) :
    Except Error (List UInt8 × Nat × Nat) :=
  if h : read < bytes.length then
    let b := bytes[read]
    if quote = 0 ∧ b = 32 then .ok (bytes, read + 1, write)
    else if (b = 39 ∨ b = 34) ∧ quote = 0 then scan bytes (read + 1) write b
    else if (b = 39 ∨ b = 34) ∧ quote = b then scan bytes (read + 1) write 0
    else if b = 92 ∧ quote ≠ 39 then
      if h' : read + 1 < bytes.length then
        scan (bytes.set write (unescape bytes[read + 1])) (read + 2) (write + 1) quote
      else .error .escape
    else scan (bytes.set write b) (read + 1) (write + 1) quote
  else if quote ≠ 0 then .error .quote
  else .ok (bytes, read, write)
termination_by bytes.length - read
decreasing_by all_goals (try rw [List.length_set]); omega

/-- Read the arguments that are left, with room for so many. -/
def arguments (room : Nat) (bytes : List UInt8) (read write : Nat) (ranges : List (Nat × Nat)) :
    Except Error Args :=
  if skip bytes read < bytes.length then
    match room with
    | 0 => .error .arguments
    | room + 1 => do
      let (bytes, read, stop) ← scan bytes (skip bytes read) write 0
      arguments room bytes read stop (ranges ++ [(write, stop)])
  else .ok { text := bytes.take write, ranges }

def parse (bytes : List UInt8) : Except Error Args :=
  if ∀ b ∈ bytes, b < 128 then arguments 16 bytes 0 0 [] else .error .encoding

/-! ### What the parser is for -/

/-- One byte more at the front of an argument. -/
def consByte (b : UInt8) (token : List UInt8 × List UInt8) : List UInt8 × List UInt8 :=
  (b :: token.1, token.2)

/-- One argument and what is left of the line after it. -/
def token : UInt8 → List UInt8 → Except Error (List UInt8 × List UInt8)
  | quote, [] => if quote ≠ 0 then .error .quote else .ok ([], [])
  | quote, b :: rest =>
    if quote = 0 ∧ b = 32 then .ok ([], rest)
    else if (b = 39 ∨ b = 34) ∧ quote = 0 then token b rest
    else if (b = 39 ∨ b = 34) ∧ quote = b then token 0 rest
    else if b = 92 ∧ quote ≠ 39 then
      match rest with
      | [] => .error .escape
      | c :: rest => (token quote rest).map (consByte (unescape c))
    else (token quote rest).map (consByte b)

/-- At most `room` arguments. -/
def tokens (room : Nat) (line : List UInt8) : Except Error (List (List UInt8)) :=
  if line.dropWhile (· == 32) = [] then .ok []
  else
    match room with
    | 0 => .error .arguments
    | room + 1 => do
      let (w, rest) ← token 0 (line.dropWhile (· == 32))
      (tokens room rest).map (w :: ·)

def tokenize (bytes : List UInt8) : Except Error (List (List UInt8)) :=
  if ∀ b ∈ bytes, b < 128 then tokens 16 bytes else .error .encoding

/-- An argument in double quotes, with every double quote and backslash escaped. -/
def enclose (word : List UInt8) : List UInt8 :=
  34 :: word.flatMap (fun b => if b = 34 ∨ b = 92 then [92, b] else [b]) ++ [34]

/-- The arguments in quotes, one space between them. -/
def commandLine (words : List (List UInt8)) : List UInt8 :=
  [32].intercalate (words.map enclose)

end RusticOs.Shell
