import Interstellar.Letter

/-!
# Program text

A program is a sequence of tokens separated by single spaces, and a term is written in prefix
form: a token, then the terms it takes. The first character of a token fixes its kind:

| token | term |
|---|---|
| `T…`, `F…` | boolean literal, true exactly for the token `T` |
| `I<numeral>` | integer literal |
| `S<letters>` | string literal |
| `U<op> a` | unary operator `op` (the whole rest of the token) applied to `a` |
| `B<op> a b` | binary operator `op` applied to `a` and `b` |
| `L<numeral> b` | abstraction over the variable with that number |
| `v<numeral>` | variable |
| `?… c t e` | conditional |

* `Term.read`: one term from the front of a token list, and the tokens after it; where the
  tokens run out before the term is complete, the missing operands are `Term.hole`;
* `Term.encode`: the text of a term. Literals are written from their payload as they hold it:
  an integer literal writes the numeral of its value, a string literal its letters, a
  boolean literal `T` or `F` by the truth of its payload.
-/

namespace Interstellar

namespace Value

variable {F : Type}

/-- The numeral of a number; booleans count as `0` and `1`, and other types have none. -/
def numeralText : Value F → Except Fault String
  | .int n => .ok (Numeral.render n)
  | .bool b => .ok (Numeral.render (if b then 1 else 0))
  | v => .error (.unordered ">" v.typeName "int")

/-- The letters of a string; other types are no sequence of characters. -/
def letterText : Value F → Except Fault String
  | .str s => Letter.encode s
  | v => .error (.notIterable v.typeName)

/-- The number that a string of digit characters stands for; only strings are sequences. -/
def readNumeral : Value F → Except Fault Nat
  | .str s => Numeral.read s
  | v => .error (.notIterable v.typeName)

/-- The string that a string token spells, its first character (the token's kind) dropped;
only strings can be cut. -/
def readStringToken : Value F → Except Fault String
  | .str s => Letter.decode (String.ofList (s.toList.drop 1))
  | v => .error (.notSubscriptable v.typeName)

end Value

namespace Term

/-- The term a token starts, given the reader of its operands. -/
def readN : Nat → List String → Except Fault (Term × List String)
  | _, [] => .ok (hole, [])
  | 0, ts => .ok (hole, ts)
  | n + 1, tok :: rest =>
    match tok.toList with
    | 'T' :: _ | 'F' :: _ => .ok (.bool (tok == "T"), rest)
    | 'I' :: body => do
      let v ← Numeral.read (String.ofList body)
      .ok (.int v, rest)
    | 'S' :: body => do
      let s ← Letter.decode (String.ofList body)
      .ok (.str s, rest)
    | 'U' :: op => do
      let (a, r) ← readN n rest
      .ok (.unary (String.ofList op) a, r)
    | 'B' :: op => do
      let (a, r) ← readN n rest
      let (b, r) ← readN n r
      .ok (.binary (String.ofList op) a b, r)
    | 'L' :: body => do
      let x ← Numeral.read (String.ofList body)
      let (b, r) ← readN n rest
      .ok (.lam x b, r)
    | 'v' :: body => do
      let x ← Numeral.read (String.ofList body)
      .ok (.var x, rest)
    | '?' :: _ => do
      let (c, r) ← readN n rest
      let (t, r) ← readN n r
      let (e, r) ← readN n r
      .ok (.cond c t e, r)
    | _ => .error (.unknownToken tok)

/-- One term from the front of `ts`, and the tokens after it. A term of `k` tokens nests at
most `k` deep, so the length of `ts` bounds the reading. -/
def read (ts : List String) : Except Fault (Term × List String) := readN ts.length ts

/-- The tokens of a program text: split at every single space, so that two spaces in a row
leave an empty token between them. -/
def tokens (src : String) : List String := (src.toList.splitOn ' ').map String.ofList

/-- The term at the front of a program text. -/
def ofText (src : String) : Except Fault Term := Prod.fst <$> read (tokens src)

/-- The text of a term. -/
def encode : Term → Except Fault String
  | .lit .integer v => ("I" ++ ·) <$> v.numeralText
  | .lit .string v => ("S" ++ ·) <$> v.letterText
  | .lit .boolean v => .ok (if v.truthy then "T" else "F")
  | .unary op a => do .ok ("U" ++ op ++ " " ++ (← a.encode))
  | .binary op a b => do
    let l ← a.encode
    let r ← b.encode
    .ok ("B" ++ op ++ " " ++ l ++ " " ++ r)
  | .lam x b => do .ok ("L" ++ Numeral.render x ++ " " ++ (← b.encode))
  | .var x => .ok ("v" ++ Numeral.render x)
  | .cond c t e => do
    let c ← c.encode
    let t ← t.encode
    let e ← e.encode
    .ok ("? " ++ c ++ " " ++ t ++ " " ++ e)
  | .raw d =>
    match d.get? "type", d.get? "value" with
    | some (.str "boolean"), some v => .ok (if v.truthy then "T" else "F")
    | _, _ => .error d.nodeFault

end Term

end Interstellar
