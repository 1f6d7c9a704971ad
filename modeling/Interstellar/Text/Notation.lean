import Interstellar.Doc
import Interstellar.Value

/-!
# The notation of messages

Messages show strings, numbers and records in one fixed notation:

* a string between single quotes, or between double quotes when it holds a single quote and
  no double quote; the chosen quote and the backslash are escaped with a backslash, tab, line
  feed and carriage return as `\t`, `\n`, `\r`, other characters that do not print as
  `\xhh`, `\uhhhh` or `\Uhhhhhhhh` (lower-case hex), and every printing character as itself;
* integers in decimal, booleans as `True` and `False`, null as `None`;
* arrays as `[a, b]` and objects as `{'key': value, ...}` in field order.

`Notation.printable` is the class of characters that print as themselves: the printable
ASCII characters, and above them every character outside the separators, the format and
control characters, surrogates and private use.
-/

namespace Interstellar

namespace Notation

/-- Whether a character above the ASCII range prints as itself. -/
def printableWide (n : Nat) : Bool :=
  !(n ≤ 0xa0 || n == 0xad || (0x600 ≤ n && n ≤ 0x605) || n == 0x61c || n == 0x6dd ||
    n == 0x70f || n == 0x890 || n == 0x891 || n == 0x8e2 || n == 0x1680 || n == 0x180e ||
    (0x2000 ≤ n && n ≤ 0x200f) || (0x2028 ≤ n && n ≤ 0x202f) || (0x205f ≤ n && n ≤ 0x206f) ||
    n == 0x3000 || (0xd800 ≤ n && n ≤ 0xf8ff) || n == 0xfeff || (0xfff9 ≤ n && n ≤ 0xfffb) ||
    n == 0xfffe || n == 0xffff || n == 0x110bd || n == 0x110cd ||
    (0x13430 ≤ n && n ≤ 0x1343f) || (0x1bca0 ≤ n && n ≤ 0x1bca3) ||
    (0x1d173 ≤ n && n ≤ 0x1d17a) || n == 0xe0001 || (0xe0020 ≤ n && n ≤ 0xe007f) ||
    (0xf0000 ≤ n))

/-- Whether a character prints as itself. -/
def printable (c : Char) : Bool :=
  let n := c.toNat
  if n < 0x80 then 0x20 ≤ n && n < 0x7f else printableWide n

/-- The lower-case hex digits of `n`, padded with zeros to `width`. -/
def hex (width n : Nat) : String :=
  let ds := Nat.toDigits 16 n
  String.ofList (List.replicate (width - ds.length) '0' ++ ds)

/-- The escape of a character that does not print as itself. -/
def escapeWide (c : Char) : String :=
  let n := c.toNat
  if c == '\t' then "\\t"
  else if c == '\n' then "\\n"
  else if c == '\r' then "\\r"
  else if n ≤ 0xff then "\\x" ++ hex 2 n
  else if n ≤ 0xffff then "\\u" ++ hex 4 n
  else "\\U" ++ hex 8 n

/-- The quote a string is shown between. -/
def quoteFor (s : String) : Char :=
  if s.contains '\'' && !s.contains '"' then '"' else '\''

/-- A string in quotes, escaped as the module doc says. -/
def string (s : String) : String :=
  let q := quoteFor s
  let body := s.foldl (fun acc c =>
    if c == q || c == '\\' then acc.push '\\' |>.push c
    else if printable c then acc.push c
    else acc ++ escapeWide c) ""
  String.singleton q ++ body ++ String.singleton q

/-- A decimal fraction `m · 10^(-e)` with its trailing zeros dropped, and at least one digit
after the point. -/
def fraction (m : Int) (e : Nat) : String :=
  let digits := (toString m.natAbs).toList
  let padded := List.replicate (e + 1 - digits.length) '0' ++ digits
  let whole := padded.take (padded.length - e)
  let frac := (padded.drop (padded.length - e)).reverse.dropWhile (· == '0') |>.reverse
  let frac := if frac.isEmpty then ['0'] else frac
  (if m < 0 then "-" else "") ++ String.ofList whole ++ "." ++ String.ofList frac

/-- A boolean as messages show it. -/
def bool (b : Bool) : String := if b then "True" else "False"

/-- A value that is not a function, as messages show it. -/
def value {F : Type} : Value F → String
  | .int n => toString n
  | .bool b => bool b
  | .str s => string s
  | .fn _ => "<function>"

mutual

/-- A document as messages show it. -/
def doc : Doc → String
  | .null => "None"
  | .bool b => bool b
  | .int n => toString n
  | .num m e => fraction m e
  | .str s => string s
  | .arr items => "[" ++ docItems items ++ "]"
  | .obj fields => "\x7b" ++ docFields fields ++ "\x7d"

/-- The items of an array, separated by commas. -/
def docItems : List Doc → String
  | [] => ""
  | [d] => doc d
  | d :: ds => doc d ++ ", " ++ docItems ds

/-- The fields of an object, separated by commas. -/
def docFields : List (String × Doc) → String
  | [] => ""
  | [(k, d)] => string k ++ ": " ++ doc d
  | (k, d) :: fs => string k ++ ": " ++ doc d ++ ", " ++ docFields fs

end

end Notation

end Interstellar
