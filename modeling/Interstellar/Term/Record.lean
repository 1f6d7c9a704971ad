import Interstellar.Term.Basic
import Interstellar.Text.Notation

/-!
# Terms in the notation of messages

Messages that complain about an operand show the node as a record in the notation of
`Interstellar.Notation`, with its fields in the order `type`, then `value`, `op`, `var`, the
operands, and for a conditional `condition`, `true`, `false`:

`{'type': 'integer', 'value': 1}`, `{'type': 'var', 'var': 2}`.
-/

namespace Interstellar

namespace Term

/-- One field of a record: quoted key, colon, value. -/
def recordField (key val : String) : String := Notation.string key ++ ": " ++ val

/-- A record of fields in the given order. -/
def recordOf (fields : List (String × String)) : String :=
  "\x7b" ++ ", ".intercalate (fields.map fun (k, v) => recordField k v) ++ "\x7d"

/-- A node in the notation of messages. -/
def record : Term → String
  | .lit k v => recordOf [("type", Notation.string k.name), ("value", Notation.value v)]
  | .unary op a =>
    recordOf [("type", "'unary'"), ("op", Notation.string op), ("left", a.record)]
  | .binary op a b =>
    recordOf [("type", "'binop'"), ("op", Notation.string op), ("left", a.record),
      ("right", b.record)]
  | .lam x b => recordOf [("type", "'lambda'"), ("var", toString x), ("body", b.record)]
  | .var x => recordOf [("type", "'var'"), ("var", toString x)]
  | .cond c t e =>
    recordOf [("type", "'if'"), ("condition", c.record), ("true", t.record),
      ("false", e.record)]
  | .raw d => Notation.doc d

end Term

end Interstellar
