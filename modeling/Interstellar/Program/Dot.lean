import Interstellar.Fault

/-!
# Graph drawings

Directed graphs are drawn as text in the dot language, and sent to an online viewer as a
link.

* `Dot.quote`: a name or label as dot writes it: bare when it is a plain identifier or a
  number and no keyword, otherwise between double quotes with every quote not already escaped
  given a backslash;
* `Dot.node`, `Dot.edge`: the statements of a graph; `Dot.digraph` the whole text, one
  statement a line, each indented by a tab;
* `Dot.percentEncode`: text made safe for a link: the bytes of its UTF-8 form other than
  letters, digits, `_ . - ~` and `/` are written `%XX`.
-/

namespace Interstellar

namespace Dot

/-- Whether a character may start a plain identifier. -/
def isIdStart (c : Char) : Bool := c.isAlpha || c == '_'

/-- Whether a character may continue a plain identifier. -/
def isIdChar (c : Char) : Bool := c.isAlphanum || c == '_'

/-- Whether text is a number as dot reads one: an optional minus, then digits with an optional
fractional part, or a point followed by digits. -/
def isNumeral (s : String) : Bool :=
  let cs := match s.toList with
    | '-' :: rest => rest
    | cs => cs
  match cs with
  | '.' :: ds => !ds.isEmpty && ds.all Char.isDigit
  | _ =>
    let whole := cs.takeWhile Char.isDigit
    let rest := cs.dropWhile Char.isDigit
    !whole.isEmpty && (rest.isEmpty || (rest.head? == some '.' && rest.tail.all Char.isDigit))

/-- Whether text is a plain identifier or a number (a final line feed is allowed). -/
def isPlain (s : String) : Bool :=
  let body := if s.endsWith "\n" then String.ofList (s.toList.dropLast) else s
  match body.toList with
  | c :: cs => (isIdStart c && cs.all isIdChar) || isNumeral body
  | [] => false

/-- The words dot reserves. -/
def keywords : List String := ["node", "edge", "graph", "digraph", "subgraph", "strict"]

/-- Whether text is an HTML-like label, between angle brackets. -/
def isHtml (s : String) : Bool := s.startsWith "<" && s.endsWith ">"

/-- Give every double quote a backslash unless an odd run of backslashes already escapes it. -/
def escapeQuotes (s : String) : String :=
  let (out, run) := s.foldl (fun (out, run) c =>
    if c == '\\' then (out, run + 1)
    else
      let slashes := String.ofList (List.replicate run '\\')
      if c == '"' then
        if run % 2 == 1 then (out ++ slashes ++ "\"", 0) else (out ++ slashes ++ "\\\"", 0)
      else (out ++ slashes ++ String.singleton c, 0)) ("", 0)
  out ++ String.ofList (List.replicate run '\\')

/-- A name or label as dot writes it. -/
def quote (s : String) : String :=
  if isHtml s then s
  else if !isPlain s || keywords.contains s.toLower then "\"" ++ escapeQuotes s ++ "\""
  else s

/-- A node statement with a label. -/
def node (name label : String) : String := quote name ++ " [label=" ++ quote label ++ "]"

/-- An edge statement, with a label when one is given. -/
def edge (tail head : String) (label : Option String := none) : String :=
  quote tail ++ " -> " ++ quote head ++
    (match label with
     | some l => " [label=" ++ quote l ++ "]"
     | none => "")

/-- The text of a directed graph. -/
def digraph (stmts : List String) : String :=
  "digraph \x7b\n" ++ String.join (stmts.map fun st => "\t" ++ st ++ "\n") ++ "\x7d\n"

/-- Whether a byte is kept as it is in a link. -/
def isSafeByte (b : UInt8) : Bool :=
  let c := Char.ofNat b.toNat
  c.isAlphanum || c == '_' || c == '.' || c == '-' || c == '~' || c == '/'

/-- The upper-case hex digit of a number below sixteen. -/
def hexDigit (n : Nat) : Char :=
  if n < 10 then Char.ofNat (48 + n) else Char.ofNat (55 + n)

/-- Text made safe for a link. -/
def percentEncode (s : String) : String :=
  s.toUTF8.foldl (fun acc b =>
    if isSafeByte b then acc.push (Char.ofNat b.toNat)
    else acc.push '%' |>.push (hexDigit (b.toNat / 16)) |>.push (hexDigit (b.toNat % 16))) ""

end Dot

end Interstellar
