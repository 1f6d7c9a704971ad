import Interstellar.Fault

/-!
# Building terms

Functions that assemble the document form of terms, for writing programs by hand. They take
and give documents, so an argument that is no node (a bare number, say) is kept as it is and
only fails when the result is used.

* `Builder.lit` makes a literal of an integer, string or boolean and refuses anything else;
* `Builder.binop`, `lam`, `var`, `cond` make single nodes; `apply` is the binary `$`;
* `Builder.twice`, `thrice`, `fourfold` concatenate a string with itself through an
  abstraction, `fix` is the fixed-point combinator `(λ1. f (1 1)) (λ1. f (1 1))`;
* `Builder.loop` builds a counted loop from `fix`: it runs `n` rounds, where a round gives `f`
  when its count is `1` and otherwise combines `f` with the next round by `step`. The count is
  also used as the number of the count variable, so two loops with clashing counts interfere;
* `Builder.repeatLetter c n` spells the letter `c` `n` times with `loop`.
-/

namespace Interstellar

namespace Builder

/-- A literal of an integer, string or boolean. -/
def lit : Doc → Except Fault Doc
  | .int n => .ok (.obj [("type", .str "integer"), ("value", .int n)])
  | .str s => .ok (.obj [("type", .str "string"), ("value", .str s)])
  | .bool b => .ok (.obj [("type", .str "boolean"), ("value", .bool b)])
  | _ => .error .unsupportedType

/-- A binary operator node. -/
def binop (op : String) (a b : Doc) : Doc :=
  .obj [("type", .str "binop"), ("op", .str op), ("left", a), ("right", b)]

/-- An abstraction over variable `x`. -/
def lam (x body : Doc) : Doc := .obj [("type", .str "lambda"), ("var", x), ("body", body)]

/-- A conditional. -/
def cond (c t e : Doc) : Doc :=
  .obj [("type", .str "if"), ("condition", c), ("true", t), ("false", e)]

/-- The variable `x`. -/
def var (x : Doc) : Doc := .obj [("type", .str "var"), ("var", x)]

/-- Application. -/
def apply (f a : Doc) : Doc := binop "$" f a

/-- String concatenation. -/
def concat (a b : Doc) : Doc := binop "." a b

/-- `s` twice, through one abstraction. -/
def twice (s : Doc) : Doc := apply (lam (.int 1) (concat (var (.int 1)) (var (.int 1)))) s

/-- `s` three times. -/
def thrice (s : Doc) : Doc :=
  apply (lam (.int 1) (concat (var (.int 1)) (concat (var (.int 1)) (var (.int 1))))) s

/-- `s` four times. -/
def fourfold (s : Doc) : Doc :=
  apply (lam (.int 1) (concat (concat (var (.int 1)) (var (.int 1)))
    (concat (var (.int 1)) (var (.int 1))))) s

/-- The fixed-point combinator applied to `f`. -/
def fix (f : Doc) : Doc :=
  let half := lam (.int 1) (apply f (apply (var (.int 1)) (var (.int 1))))
  apply half half

/-- A loop of `n` rounds with loop variable `id` and count variable `n`: a round is `f` when
the count is `1`, and `step f next` otherwise, where `next` is the round with one less. -/
def loop (id n f : Doc) (step : Doc → Doc → Except Fault Doc) : Except Fault Doc := do
  let one ← lit (.int 1)
  let next := apply (var id) (binop "-" (var n) one)
  let body ← step f next
  let rounds := lam id (lam n (cond (binop "=" (var n) one) f body))
  let count ← lit n
  .ok (apply (apply (lam (.int 0) (fix (var (.int 0)))) rounds) count)

/-- The letter `c` spelled `n` times. -/
def repeatLetter (c n : Doc) : Except Fault Doc := do
  let letter ← lit c
  loop (.int 3) n letter fun a b => .ok (concat a b)

/-- The prompt `echo ` followed by `v`. -/
def echo (v : Doc) : Except Fault Doc := do
  let greeting ← lit (.str "echo ")
  .ok (concat greeting v)

end Builder

end Interstellar
