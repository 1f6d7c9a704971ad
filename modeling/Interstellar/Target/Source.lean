import Interstellar.Term.Reduce

/-!
# Compiled text

A term compiles to the text of an expression of the dynamically typed target: every node
becomes a function of no arguments (a thunk) that computes the node's value when called.

| node | text |
|---|---|
| literal | `(lambda: 5)`, `(lambda: True)`, `(lambda: "…")` |
| `U- X` | `(lambda: -(X)())` |
| `U! X` | `(lambda: not (X()))` |
| `U# X` | `(lambda: from_base94(raw_encode_string(X())[1:]))` |
| `U$ X` | `(lambda: raw_parse_string('S'+raw_encode_integer(X())[1:]))` |
| `B+ L R` | `(lambda: L() + R())`, likewise `-`, `*`, `<`, `>`, `==` for `=`, `or` for `|`, `and` for `&`, `+` for `.` |
| `B/ L R` | `(lambda: integer_divide_toward_zero(L(), R()))` |
| `B% L R` | `(lambda: remainder(L(), R()))` |
| `BT L R` | `(lambda: R()[:L()])` |
| `BD L R` | `(lambda: R()[L():])` |
| `B$ L R` | `(lambda: L()(R))`: the argument is passed as the unevaluated thunk |
| `L<n> B` | `(lambda: (lambda vn: B()))` |
| `v<n>` | `(lambda: vn())` |
| `? C T F` | `(lambda: (T() if C() else F()))` |

A string literal is written by three replacements in a row: each backslash by two, then each
line feed by `\n`, then each double quote by `\"` (`escapeQuoted`). An
operator's operands are compiled before its name is looked up, so the innermost unknown
operator is the one reported.

`Term.nesting` is the depth to which the brackets of the compiled text nest; the target
refuses text nested deeper than `Term.maxNesting`.
-/

namespace Interstellar

/-- `s` with every occurrence of the character `c` replaced by `new`, as replacing a pattern of
one character does. -/
def replaceChar (s : String) (c : Char) (new : String) : String :=
  String.ofList (s.toList.flatMap fun d => if d = c then new.toList else [d])

/-- A string as a double-quoted literal writes it: backslashes are doubled first, so that the
backslashes of the two escapes made after it are left alone, then each line feed becomes `\n`
and each double quote `\"`. -/
def escapeQuoted (s : String) : String :=
  replaceChar (replaceChar (replaceChar s '\\' "\\\\") '\n' "\\n") '"' "\\\""

/-- The text of a payload as the target writes it. -/
def Scalar.text : Scalar → String
  | .int n => toString n
  | .bool b => Notation.bool b
  | .str s => s
  | .fn f => nomatch f

namespace Term

/-- The compiled text of an operator node, given its operands' texts. -/
def binaryText (op l r : String) : Except Fault String :=
  match op with
  | "+" | "." => .ok ("(lambda: " ++ l ++ "() + " ++ r ++ "())")
  | "-" => .ok ("(lambda: " ++ l ++ "() - " ++ r ++ "())")
  | "*" => .ok ("(lambda: " ++ l ++ "() * " ++ r ++ "())")
  | "/" => .ok ("(lambda: integer_divide_toward_zero(" ++ l ++ "(), " ++ r ++ "()))")
  | "%" => .ok ("(lambda: remainder(" ++ l ++ "(), " ++ r ++ "()))")
  | "<" => .ok ("(lambda: " ++ l ++ "() < " ++ r ++ "())")
  | ">" => .ok ("(lambda: " ++ l ++ "() > " ++ r ++ "())")
  | "=" => .ok ("(lambda: " ++ l ++ "() == " ++ r ++ "())")
  | "|" => .ok ("(lambda: " ++ l ++ "() or " ++ r ++ "())")
  | "&" => .ok ("(lambda: " ++ l ++ "() and " ++ r ++ "())")
  | "T" => .ok ("(lambda: " ++ r ++ "()[:" ++ l ++ "()])")
  | "D" => .ok ("(lambda: " ++ r ++ "()[" ++ l ++ "():])")
  | "$" => .ok ("(lambda: " ++ l ++ "()(" ++ r ++ "))")
  | _ => .error (.unknownBinary op)

/-- The compiled text of a unary node, given its operand's text. -/
def unaryText (op a : String) : Except Fault String :=
  match op with
  | "-" => .ok ("(lambda: -(" ++ a ++ ")())")
  | "!" => .ok ("(lambda: not (" ++ a ++ "()))")
  | "#" => .ok ("(lambda: from_base94(raw_encode_string(" ++ a ++ "())[1:]))")
  | "$" => .ok ("(lambda: raw_parse_string('S'+raw_encode_integer(" ++ a ++ "())[1:]))")
  | _ => .error (.unknownUnary op)

/-- The compiled text of a raw node that declares a type: a literal writes its value as it
stands, a variable its number. -/
def rawText (d : Doc) : Except Fault String :=
  match d.get? "type", d.get? "value", d.get? "var" with
  | some (.str "integer"), some v, _ => .ok ("(lambda: " ++ Fault.typeText v ++ ")")
  | some (.str "boolean"), some v, _ =>
    .ok (if v.truthy then "(lambda: True)" else "(lambda: False)")
  | some (.str "string"), some v, _ => .error (.noAttribute v.typeName "replace")
  | some (.str "var"), _, some x => .ok ("(lambda: v" ++ Fault.typeText x ++ "())")
  | _, _, _ => .error d.nodeFault

/-- The compiled text of a term. -/
def compile : Term → Except Fault String
  | .lit .integer v => .ok ("(lambda: " ++ v.text ++ ")")
  | .lit .boolean v => .ok (if v.truthy then "(lambda: True)" else "(lambda: False)")
  | .lit .string v =>
    match v with
    | .str s => .ok ("(lambda: \"" ++ escapeQuoted s ++ "\")")
    | v => .error (.noAttribute v.typeName "replace")
  | .unary op a => do unaryText op (← a.compile)
  | .binary op a b => do
    let l ← a.compile
    let r ← b.compile
    binaryText op l r
  | .lam x b => do .ok ("(lambda: (lambda v" ++ toString x ++ ": " ++ (← b.compile) ++ "()))")
  | .var x => .ok ("(lambda: v" ++ toString x ++ "())")
  | .cond c t e => do
    let c ← c.compile
    let t ← t.compile
    let e ← e.compile
    .ok ("(lambda: (" ++ t ++ "() if " ++ c ++ "() else " ++ e ++ "()))")
  | .raw d => rawText d

/-- The depth to which the brackets of a term's compiled text nest. -/
def nesting : Term → Nat
  | .unary "-" a | .unary "!" a => 2 + a.nesting
  | .unary _ a => 3 + a.nesting
  | .binary "/" a b | .binary "%" a b => 2 + max a.nesting b.nesting
  | .binary "T" a b | .binary "D" a b | .binary "$" b a => max (1 + b.nesting) (2 + a.nesting)
  | .binary _ a b => 1 + max a.nesting b.nesting
  | .lam _ b => 2 + b.nesting
  | .var _ => 2
  | .cond c t e => 2 + max c.nesting (max t.nesting e.nesting)
  | _ => 1

/-- The deepest nesting of brackets the target accepts. -/
def maxNesting : Nat := 200

end Term

end Interstellar
