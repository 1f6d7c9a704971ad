import Interstellar.Lambdaman.Grid
import Interstellar.Text.Decimal

/-!
# Scores

The planner ranks cells by a ratio of distances. A score is a whole number or a double, and it
keeps that kind because a whole number and a double of the same value are written differently
(`6` and `6.0`):

* `whole n`: a whole number;
* `ratio a b`: the double nearest to `a / b`, for `b > 0`;
* `infinity` and `undefined`: the doubles `inf` and `nan`.

Ratios compare by their exact values. The scores of a board are ratios of small distances,
which lie much further apart than the rounding of a double, so this is the order of the
doubles themselves. `undefined` is neither below nor above anything.
-/

namespace Interstellar

namespace Lambdaman

/-- A whole number or a double. -/
inductive Score where
  | whole (n : Int)
  | ratio (a : Int) (b : Nat)
  | infinity
  | undefined
  deriving Inhabited

namespace Score

/-- A distance as a whole number, or `inf`. -/
def ofDist : Dist → Score
  | .fin n => .whole n
  | .inf => .infinity

/-- The double `a / b` of two distances, where a divisor of zero counts as one. -/
def quotient (a b : Dist) : Score :=
  let b := if b == .fin 0 then .fin 1 else b
  match a, b with
  | .fin x, .fin y => .ratio x y
  | .fin _, .inf => .ratio 0 1
  | .inf, .fin _ => .infinity
  | .inf, .inf => .undefined

/-- `a + b - a` for distances: `b` itself, unless `a` is `inf` (which leaves `nan`) or `b`
is (which leaves `inf`). -/
def detour (a b : Dist) : Score :=
  match a, b with
  | .inf, _ => .undefined
  | .fin _, .fin y => .whole y
  | .fin _, .inf => .infinity

/-- A finite score as a fraction with a positive denominator. -/
def fraction? : Score → Option (Int × Nat)
  | .whole n => some (n, 1)
  | .ratio a b => some (a, b)
  | _ => none

/-- Strict order; `undefined` is unordered. -/
def lt (x y : Score) : Bool :=
  match x, y with
  | .undefined, _ | _, .undefined => false
  | .infinity, _ => false
  | _, .infinity => true
  | _, _ =>
    match x.fraction?, y.fraction? with
    | some (a, b), some (c, d) => a * d < c * b
    | _, _ => false

/-- The smaller of `x` and `y`, keeping `x` unless `y` is strictly smaller. -/
def min (x y : Score) : Score := if y.lt x then y else x

/-- The shortest decimal of `a / b` for `a > 0`. -/
def decimalOf (a b : Nat) : Decimal := (Dyadic.ofRatio a b).shortest

/-- How a score is printed: `6`, `0.125`, `7.0`, `inf`, `nan`. -/
def text : Score → String
  | .whole n => toString n
  | .ratio a b =>
    if a = 0 then "0.0"
    else (if a < 0 then "-" else "") ++ (decimalOf a.natAbs b).text
  | .infinity => "inf"
  | .undefined => "nan"

/-- A score as a document: whole values as integers, other doubles as decimal fractions,
`inf` and `nan` as null. -/
def toDoc : Score → Doc
  | .whole n => .int n
  | .ratio a b =>
    if a = 0 then .int 0
    else
      match (decimalOf a.natAbs b).toDoc with
      | .int n => .int (if a < 0 then -n else n)
      | .num m e => .num (if a < 0 then -m else m) e
      | d => d
  | .infinity | .undefined => .null

end Score

end Lambdaman

end Interstellar
