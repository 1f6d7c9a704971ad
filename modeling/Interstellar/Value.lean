/-!
# Values

The values that programs compute: integers of any size, booleans, strings, and functions.
The type is parametrised by what a function value holds, so that the payload of a literal,
which can never be a function, is `Value Empty` (`Scalar`), while the evaluator of compiled
programs instantiates `F` with its closures.

Booleans take part in arithmetic as the integers `0` and `1`; `Value.asInt?` is that view.
-/

namespace Interstellar

/-- A dynamically typed value; `F` is what a function value carries. -/
inductive Value (F : Type) where
  | int (n : Int)
  | bool (b : Bool)
  | str (s : String)
  | fn (f : F)
  deriving Inhabited

/-- The payload of a literal: a value that is never a function. -/
abbrev Scalar := Value Empty

namespace Value

variable {F : Type}

/-- The name of a value's type, as messages say it. -/
def typeName : Value F → String
  | .int _ => "int"
  | .bool _ => "bool"
  | .str _ => "str"
  | .fn _ => "function"

/-- Truthiness: zero, `false` and the empty string are false; every function is true. -/
def truthy : Value F → Bool
  | .int n => n != 0
  | .bool b => b
  | .str s => !s.isEmpty
  | .fn _ => true

/-- The integer a number stands for: booleans count as `0` and `1`. -/
def asInt? : Value F → Option Int
  | .int n => some n
  | .bool b => some (if b then 1 else 0)
  | _ => none

/-- A scalar seen as a value of any function type. -/
def ofScalar : Scalar → Value F
  | .int n => .int n
  | .bool b => .bool b
  | .str s => .str s
  | .fn f => nomatch f

/-- A value that is not a function, seen as a scalar. -/
def toScalar? : Value F → Option Scalar
  | .int n => some (.int n)
  | .bool b => some (.bool b)
  | .str s => some (.str s)
  | .fn _ => none

@[simp] theorem truthy_ofScalar (v : Scalar) : (ofScalar v : Value F).truthy = v.truthy := by
  cases v with
  | fn f => exact f.elim
  | _ => rfl

@[simp] theorem typeName_ofScalar (v : Scalar) :
    (ofScalar v : Value F).typeName = v.typeName := by
  cases v with
  | fn f => exact f.elim
  | _ => rfl

end Value

end Interstellar
