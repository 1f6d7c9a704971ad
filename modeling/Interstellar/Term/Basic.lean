import Interstellar.Doc
import Interstellar.Value

/-!
# Terms

The syntax trees of the language: literals, unary and binary operator applications,
lambda abstractions over numbered variables, variables and conditionals.

* `Kind`: the three kinds of literal, with their names `integer`, `string`, `boolean`;
* `Term`: the tree. A literal carries its declared kind and its payload separately, because a
  tree handed in as a document may declare one kind and hold a payload of another; every
  tree read from program text is well kinded (`Term.WellKinded`).
* `Term.raw d` keeps a document that is no node at all: the empty list `[]` that reading
  leaves where the text ran out of tokens (`Term.hole`), or a malformed document. Every
  operation that has to look inside such a node fails, and printing gives the document back.

Operator names are kept as text: which names mean something is decided by each operation,
and an unknown name is an error only when an operation reaches it.
-/

namespace Interstellar

/-- The kinds of literal. -/
inductive Kind where
  | integer
  | string
  | boolean
  deriving DecidableEq, Inhabited

/-- The name of a kind, as documents write it. -/
def Kind.name : Kind → String
  | .integer => "integer"
  | .string => "string"
  | .boolean => "boolean"

/-- The kind named `s`, if any. -/
def Kind.ofName? : String → Option Kind
  | "integer" => some .integer
  | "string" => some .string
  | "boolean" => some .boolean
  | _ => none

/-- A syntax tree of the language. -/
inductive Term where
  /-- A literal of declared kind `k` holding `v`. -/
  | lit (k : Kind) (v : Scalar)
  /-- A unary operator applied to one operand. -/
  | unary (op : String) (arg : Term)
  /-- A binary operator applied to two operands. -/
  | binary (op : String) (lhs rhs : Term)
  /-- An abstraction binding variable number `x`. -/
  | lam (x : Int) (body : Term)
  /-- The variable numbered `x`. -/
  | var (x : Int)
  /-- `cond c t e` is `t` when `c` is true and `e` otherwise. -/
  | cond (test yes no : Term)
  /-- A document that is no node. -/
  | raw (d : Doc)
  deriving Inhabited

namespace Term

/-- The integer literal `n`. -/
abbrev int (n : Int) : Term := .lit .integer (.int n)

/-- The string literal `s`. -/
abbrev str (s : String) : Term := .lit .string (.str s)

/-- The boolean literal `b`. -/
abbrev bool (b : Bool) : Term := .lit .boolean (.bool b)

/-- What reading leaves where the tokens ran out: an empty list, which is no node. -/
def hole : Term := .raw (.arr [])

/-- The node's `type` as documents write it; `none` for a document without a usable one. -/
def typeName? : Term → Option String
  | .lit k _ => some k.name
  | .unary .. => some "unary"
  | .binary .. => some "binop"
  | .lam .. => some "lambda"
  | .var _ => some "var"
  | .cond .. => some "if"
  | .raw (.obj fields) =>
    match fields.find? (·.1 == "type") with
    | some (_, .str s) => some s
    | _ => none
  | .raw _ => none

/-- Whether the node declares the literal kind `k`. -/
def isKind (t : Term) (k : Kind) : Bool := t.typeName? == some k.name

/-- A well-kinded tree: every literal's payload is of its declared kind, and no node is raw. -/
def WellKinded : Term → Prop
  | .lit .integer v => ∃ n, v = .int n
  | .lit .string v => ∃ s, v = .str s
  | .lit .boolean v => ∃ b, v = .bool b
  | .unary _ a => a.WellKinded
  | .binary _ a b => a.WellKinded ∧ b.WellKinded
  | .lam _ b => b.WellKinded
  | .var _ => True
  | .cond c t e => c.WellKinded ∧ t.WellKinded ∧ e.WellKinded
  | .raw _ => False

end Term

end Interstellar
