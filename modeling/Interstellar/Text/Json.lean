import Interstellar.Text.Notation

/-!
# JSON text

Documents written as JSON text in the spacing programs print them with: `", "` between items,
`": "` after keys, and only printable ASCII in the text. Every other character of a string is
escaped: the quote, the backslash and the five control characters with a short escape (`\b`,
`\f`, `\n`, `\r`, `\t`) by their letter, anything else as `\uhhhh` in lower-case hex, and a
character beyond the basic plane as the two `\u` escapes of its surrogate pair.
-/

namespace Interstellar

namespace Json

/-- The escape of one character of a string. -/
def escapeChar (c : Char) : String :=
  let n := c.toNat
  if c == '"' then "\\\""
  else if c == '\\' then "\\\\"
  else if c == '\n' then "\\n"
  else if c == '\r' then "\\r"
  else if c == '\t' then "\\t"
  else if n == 8 then "\\b"
  else if n == 12 then "\\f"
  else if 0x20 ≤ n && n ≤ 0x7e then String.singleton c
  else if n ≤ 0xffff then "\\u" ++ Notation.hex 4 n
  else
    let m := n - 0x10000
    "\\u" ++ Notation.hex 4 (0xd800 + m / 0x400) ++ "\\u" ++ Notation.hex 4 (0xdc00 + m % 0x400)

/-- A string as JSON text. -/
def string (s : String) : String := "\"" ++ String.join (s.toList.map escapeChar) ++ "\""

mutual

/-- A document as JSON text. -/
def text : Doc → String
  | .null => "null"
  | .bool b => if b then "true" else "false"
  | .int n => toString n
  | .num m e => Notation.fraction m e
  | .str s => string s
  | .arr items => "[" ++ itemsText items ++ "]"
  | .obj fields => "\x7b" ++ fieldsText fields ++ "\x7d"

/-- The items of an array. -/
def itemsText : List Doc → String
  | [] => ""
  | [d] => text d
  | d :: ds => text d ++ ", " ++ itemsText ds

/-- The fields of an object. -/
def fieldsText : List (String × Doc) → String
  | [] => ""
  | [(k, d)] => string k ++ ": " ++ text d
  | (k, d) :: fs => string k ++ ": " ++ text d ++ ", " ++ fieldsText fs

end

end Json

end Interstellar
