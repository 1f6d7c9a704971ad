import Interstellar.Value.Arith

/-!
# The compact token codec

An older, smaller reading of token text, which computes as it reads and knows no
abstractions, variables or conditionals:

* `T…`, `F…`, `I…`, `S…` read as in program text;
* `U<c> rest` takes the character `c` as the operator, reads everything from the fourth
  character on as **one** token, and applies `-` (negation), `!` (not), `#` (the base-94
  number whose digits are the letters that `rest` spells) or `$` (which fails: the letters of
  a number are asked of the number itself);
* `B<c> a rest` splits what follows the operator once at a space, reads the first part, and
  only then the second, which is missing when there is no space; it gives the triple of `B<c>`
  and the two readings.

Writing (`Compact.encode`) turns a boolean, integer or string into its token, a string
with an operator into `U<op> S…`, and a pair with an operator into `B<op> a b`.
-/

namespace Interstellar

namespace Compact

/-- What the compact codec reads: a boolean, integer, string, or an operator with two
readings. -/
inductive Item where
  | bool (b : Bool)
  | int (n : Int)
  | str (s : String)
  | triple (op : String) (l r : Item)
  deriving Inhabited

/-- The name of an item's type, as messages say it. -/
def Item.typeName : Item → String
  | .bool _ => "bool"
  | .int _ => "int"
  | .str _ => "str"
  | .triple .. => "tuple"

/-- Truthiness of an item; a triple is always true. -/
def Item.truthy : Item → Bool
  | .bool b => b
  | .int n => n != 0
  | .str s => !s.isEmpty
  | .triple .. => true

/-- The characters of a token from the fourth on. -/
def operandText (cs : List Char) : String := String.ofList (cs.drop 3)

/-- Reads one token text; `fuel` bounds the nesting of operators. -/
def decodeN : Nat → String → Except Fault Item
  | 0, _ => .error .tooDeep
  | n + 1, tok =>
    match tok.toList with
    | 'T' :: _ | 'F' :: _ => .ok (.bool (tok == "T"))
    | 'I' :: body => .int <$> Numeral.read (String.ofList body)
    | 'S' :: body => .str <$> Letter.decode (String.ofList body)
    | ['U'] | ['B'] => .error (.indexOutOfRange "string")
    | 'U' :: op :: _ => do
      let operand ← decodeN n (operandText tok.toList)
      match op with
      | '-' =>
        match operand with
        | .int k => .ok (.int (-k))
        | .bool b => .ok (.int (if b then -1 else 0))
        | v => .error (.badOperand "unary -" v.typeName)
      | '!' => .ok (.bool !operand.truthy)
      | '#' => do
        let letters ← Letter.decode (String.ofList ((operandText tok.toList).toList.drop 1))
        .int <$> Numeral.read letters
      | '$' => do
        let _ ← Numeral.read (String.ofList ((operandText tok.toList).toList.drop 1))
        .error (.notIterable "int")
      | c => .error (.unknownUnary (String.singleton c))
    | 'B' :: op :: _ =>
      match (operandText tok.toList).splitOn " " with
      | [] => .error (.indexOutOfRange "list")
      | a :: rest => do
        let l ← decodeN n a
        match rest with
        | [] => .error (.indexOutOfRange "list")
        | _ => do
          let r ← decodeN n (" ".intercalate rest)
          .ok (.triple ("B" ++ String.singleton op) l r)
    | _ => .error .unknownTokenKind

/-- Reads one token text. -/
def decode (tok : String) : Except Fault Item := decodeN (tok.length + 1) tok

/-- The token of a boolean, integer or string document. -/
def encodePlain : Doc → Except Fault String
  | .bool b => .ok (if b then "T" else "F")
  | .int n => .ok ("I" ++ Numeral.render n)
  | .str s => ("S" ++ ·) <$> Letter.encode s
  | _ => .error .unsupportedType

/-- The token text of a document, with an operator when `op` is given: a string becomes a
unary, an array (of at least two items) a binary application. -/
def encode (v : Doc) (op : Option String) : Except Fault String :=
  match op with
  | none => encodePlain v
  | some o =>
    match v with
    | .str _ => do .ok ("U" ++ o ++ " " ++ (← encodePlain v))
    | .arr (a :: b :: _) => do
      let l ← encodePlain a
      let r ← encodePlain b
      .ok ("B" ++ o ++ " " ++ l ++ " " ++ r)
    | .arr _ => .error (.indexOutOfRange "tuple")
    | _ => .error .unsupportedType

/-- An item as it shows inside a triple: text quoted, triples in round brackets. -/
def Item.inner : Item → String
  | .str s => Notation.string s
  | .triple op l r => "(" ++ Notation.string op ++ ", " ++ l.inner ++ ", " ++ r.inner ++ ")"
  | .bool b => Notation.bool b
  | .int n => toString n

/-- How the command line prints an item: text as it is, anything else as inside a triple. -/
def Item.show : Item → String
  | .str s => s
  | v => v.inner

end Compact

end Interstellar
