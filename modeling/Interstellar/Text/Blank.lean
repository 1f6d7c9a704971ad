/-!
# Blanks and lines

The character classes that trimming and line splitting use:

* `Blank.isBlank`: the white-space characters, Unicode's `White_Space` property together
  with the four information separators `\x1c`-`\x1f`;
* `Blank.isLineBreak`: line feed, carriage return, vertical tab, form feed, the separators
  `\x1c`-`\x1e`, next line, and the line and paragraph separators;
* `Blank.trim`: a text without its leading and trailing blanks;
* `Blank.lines`: a text cut at its line breaks (a carriage return directly followed by a line
  feed counts once), without an empty last piece after a final break.
-/

namespace Interstellar

namespace Blank

/-- The white-space characters. -/
def isBlank (c : Char) : Bool :=
  let n := c.toNat
  (9 ≤ n && n ≤ 13) || (0x1c ≤ n && n ≤ 0x20) || n == 0x85 || n == 0xa0 || n == 0x1680 ||
    (0x2000 ≤ n && n ≤ 0x200a) || n == 0x2028 || n == 0x2029 || n == 0x202f ||
    n == 0x205f || n == 0x3000

/-- The characters that end a line. -/
def isLineBreak (c : Char) : Bool :=
  let n := c.toNat
  (10 ≤ n && n ≤ 13) || (0x1c ≤ n && n ≤ 0x1e) || n == 0x85 || n == 0x2028 || n == 0x2029

/-- A list of characters without its leading and trailing blanks. -/
def trimList (cs : List Char) : List Char :=
  ((cs.dropWhile isBlank).reverse.dropWhile isBlank).reverse

/-- A text without its leading and trailing blanks. -/
def trim (s : String) : String := String.ofList (trimList s.toList)

/-- The lines of a list of characters, the current line `acc` (reversed) still open. -/
def linesFrom (acc : List Char) : List Char → List String
  | [] => if acc.isEmpty then [] else [String.ofList acc.reverse]
  | '\r' :: '\n' :: rest => String.ofList acc.reverse :: linesFrom [] rest
  | c :: rest =>
    if isLineBreak c then String.ofList acc.reverse :: linesFrom [] rest
    else linesFrom (c :: acc) rest

/-- A text cut at its line breaks. -/
def lines (s : String) : List String := linesFrom [] s.toList

end Blank

end Interstellar
