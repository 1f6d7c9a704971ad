import Interstellar.Target.Source

/-!
# String literals of the target

How the target reads a string literal in double quotes, by the lexical rules it documents. This
is the other side of `escapeQuoted`: the target reads a compiled string literal with these
rules.

Reading goes in two stages, as in the target itself.

* `Literal.scan` finds where the literal ends. A backslash takes the character after it along,
  whatever it is, and the first double quote not so taken closes the literal. A line end before
  it, a NUL, or the end of the text is an error. Line ends are read as the target reads them: a
  carriage return is a line feed, and a carriage return followed by a line feed is one line
  feed, so the body holds line feeds only.
* `Literal.decode` decodes the body one item after another (`Literal.item`):

| in the body | stands for |
|---|---|
| `\` and a line feed | nothing: the line continues |
| `\\`, `\'`, `\"` | a backslash, a single quote, a double quote |
| `\a` `\b` `\f` `\n` `\r` `\t` `\v` | bell, backspace, form feed, line feed, carriage return, tab, vertical tab |
| `\` and one to three octal digits | the character of that number |
| `\x` and exactly two hexadecimal digits | the character of that number |
| `\u` and exactly four, `\U` and exactly eight hexadecimal digits | the character of that code point |
| `\N{name}` | the character of that name, from a table of names given as a parameter |
| `\` and any other character | both, unchanged |
| any other character | itself |

A malformed escape, a code point past the last one or a name the table lacks is an error. So is
a surrogate code point: the target makes a string holding it, which no string here can hold.
-/

namespace Interstellar

namespace Literal

/-- The character of the code point `n`, if a string can hold it. -/
def codePoint (n : Nat) : Option Char := if n.isValidChar then some (Char.ofNat n) else none

/-- The value of a hexadecimal digit. -/
def hexDigit? (c : Char) : Option Nat :=
  if '0' ≤ c ∧ c ≤ '9' then some (c.toNat - '0'.toNat)
  else if 'a' ≤ c ∧ c ≤ 'f' then some (c.toNat - 'a'.toNat + 10)
  else if 'A' ≤ c ∧ c ≤ 'F' then some (c.toNat - 'A'.toNat + 10)
  else none

/-- Whether `c` is an octal digit. -/
def isOctal (c : Char) : Bool := '0' ≤ c && c ≤ '7'

/-- The number that the digits `ds` stand for in base `b`, most significant first. -/
def digitsValue (digit : Char → Option Nat) (b : Nat) (ds : List Char) : Option Nat :=
  ds.foldlM (fun acc c => (acc * b + ·) <$> digit c) 0

/-- The number that exactly `k` hexadecimal digits at the front of `cs` stand for. -/
def hexPrefix (k : Nat) (cs : List Char) : Option Nat :=
  if (cs.take k).length = k then digitsValue hexDigit? 16 (cs.take k) else none

/-- The character a one-letter escape stands for, by the letter after the backslash. -/
def simple? : Char → Option Char
  | '\\' => some '\\'
  | '\'' => some '\''
  | '"' => some '"'
  | 'a' => some '\x07'
  | 'b' => some '\x08'
  | 'f' => some '\x0c'
  | 'n' => some '\n'
  | 'r' => some '\r'
  | 't' => some '\t'
  | 'v' => some '\x0b'
  | _ => none

/-- A code point read from exactly `k` hexadecimal digits of `cs`, and the body after them. -/
def hexEscape (k : Nat) (cs : List Char) : Option (List Char × List Char) :=
  (fun e => ([e], cs.drop k)) <$> (hexPrefix k cs >>= codePoint)

/-- A character named between braces, and the body after the closing brace. -/
def namedEscape (named : String → Option Char) : List Char → Option (List Char × List Char)
  | '{' :: more =>
    match more.dropWhile (· != '}') with
    | _ :: rest => (fun e => ([e], rest)) <$> named (String.ofList (more.takeWhile (· != '}')))
    | [] => none
  | _ => none

/-- The escape of the character `c` after a backslash, with the body `cs` after `c`: the
characters it stands for and the body after the escape. -/
def escape (named : String → Option Char) (c : Char) (cs : List Char) :
    Option (List Char × List Char) :=
  if c = '\n' then some ([], cs)
  else match simple? c with
  | some e => some ([e], cs)
  | none =>
    if c = 'x' then hexEscape 2 cs
    else if c = 'u' then hexEscape 4 cs
    else if c = 'U' then hexEscape 8 cs
    else if c = 'N' then namedEscape named cs
    else if isOctal c then
      -- up to two more octal digits belong to the escape
      let ds := (cs.take 2).takeWhile isOctal
      (fun e => ([e], cs.drop ds.length)) <$>
        (digitsValue (fun d => some (d.toNat - '0'.toNat)) 8 (c :: ds) >>= codePoint)
    else some (['\\', c], cs)

/-- The first item of a literal's body, with the characters it stands for and the body after
it. -/
def item (named : String → Option Char) : List Char → Option (List Char × List Char)
  | [] => none
  | ['\\'] => none
  | '\\' :: c :: cs => escape named c cs
  | c :: cs => some ([c], cs)

theorem length_le_of_namedEscape {named : String → Option Char} {cs out rest : List Char}
    (h : namedEscape named cs = some (out, rest)) : rest.length ≤ cs.length := by
  unfold namedEscape at h
  split at h
  · rename_i more
    split at h
    · rename_i x rest' hdrop
      obtain ⟨e, -, he⟩ := Option.map_eq_some_iff.1 h
      cases he
      -- what follows the closing brace is part of what follows the opening one
      have hle := (List.dropWhile_sublist (l := more) (· != '}')).length_le
      rw [hdrop, List.length_cons] at hle
      simp only [List.length_cons]
      omega
    · cases h
  · cases h

theorem length_le_of_hexEscape {k : Nat} {cs out rest : List Char}
    (h : hexEscape k cs = some (out, rest)) : rest.length ≤ cs.length := by
  obtain ⟨e, -, he⟩ := Option.map_eq_some_iff.1 h
  cases he
  simp

theorem length_le_of_escape {named : String → Option Char} {c : Char} {cs out rest : List Char}
    (h : escape named c cs = some (out, rest)) : rest.length ≤ cs.length := by
  unfold escape at h
  split at h
  · cases h; exact Nat.le_refl _
  split at h
  · cases h; exact Nat.le_refl _
  split at h
  · exact length_le_of_hexEscape h
  split at h
  · exact length_le_of_hexEscape h
  split at h
  · exact length_le_of_hexEscape h
  split at h
  · exact length_le_of_namedEscape h
  split at h
  · obtain ⟨e, -, he⟩ := Option.map_eq_some_iff.1 h
    cases he
    simp
  · cases h; exact Nat.le_refl _

/-- Every item takes at least one character of the body. -/
theorem length_lt_of_item {named : String → Option Char} {body out rest : List Char}
    (h : item named body = some (out, rest)) : rest.length < body.length := by
  unfold item at h
  split at h
  · cases h
  · cases h
  · have := length_le_of_escape h
    simp only [List.length_cons]
    omega
  · cases h
    simp

/-- The characters that a literal's body stands for. -/
def decode (named : String → Option Char) (body : List Char) : Option (List Char) :=
  match body with
  | [] => some []
  | c :: cs =>
    match h : item named (c :: cs) with
    | some (out, rest) => (out ++ ·) <$> decode named rest
    | none => none
termination_by body.length
decreasing_by exact length_lt_of_item h

/-- The body of a literal, from just after its opening quote, with its escapes kept and its line
ends read as line feeds; and the text after its closing quote. -/
def scan : List Char → Option (List Char × List Char)
  | [] => none
  | '"' :: rest => some ([], rest)
  | '\\' :: '\r' :: '\n' :: rest => (scan rest).map fun (body, r) => ('\\' :: '\n' :: body, r)
  | '\\' :: c :: rest =>
    if c = '\x00' then none
    else (scan rest).map fun (body, r) => ('\\' :: (if c = '\r' then '\n' else c) :: body, r)
  | c :: rest =>
    if c = '\n' ∨ c = '\r' ∨ c = '\x00' then none
    else (scan rest).map fun (body, r) => (c :: body, r)

/-- The string literal at the front of `text`, with the string it stands for and the text after
it. -/
def read (named : String → Option Char) : List Char → Option (String × List Char)
  | '"' :: cs => do
    let (body, rest) ← scan cs
    let value ← decode named body
    pure (String.ofList value, rest)
  | _ => none

end Literal

end Interstellar
