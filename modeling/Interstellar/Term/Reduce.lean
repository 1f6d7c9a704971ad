import Interstellar.Term.Subst
import Interstellar.Value.Arith

/-!
# The interpreter

`Term.reduce` evaluates a term to a value node by call-by-name reduction:

* literals, abstractions and variables are values (a free variable is a value too), and so is
  a raw node typed as one of them, whatever fields it lacks;
* an operator node evaluates its operands left to right and then reads their payloads, so an
  abstraction or a variable as an operand is a missing `value`; only then is the operator
  looked up, so an unknown operator is reported after its operands were evaluated;
* an application `B$ f a` evaluates `f`, which must give an abstraction, substitutes the
  unevaluated `a` for its variable (`Term.subst`) and evaluates the result; an argument that
  is never used is never evaluated;
* a conditional evaluates its test and then one branch, by the truth of the test's payload.

The operators check the declared kinds of their operands (`Fault.expected` names the nodes),
then compute on the payloads with the rules of `Interstellar.Value`.

Evaluation nests at most `fuel` deep; deeper nesting is `Fault.tooDeep`.
-/

namespace Interstellar

/-- Whether a raw node is a value as it stands: it declares a literal type, or is typed as an
abstraction or a variable, which evaluation returns without looking inside. -/
def Doc.isValueNode (d : Doc) : Bool :=
  match d.get? "type" with
  | some (.str s) => (Kind.ofName? s).isSome || s == "lambda" || s == "var"
  | _ => false

namespace Term

/-- The payload of a value node; abstractions and variables have none. -/
def payload : Term → Except Fault Scalar
  | .lit _ v => .ok v
  | .raw d => .error (if d.has "value" then .illFormed d else .missing (.text "value"))
  | _ => .error (.missing (.text "value"))

/-- A unary operator applied to the payload of its evaluated operand. -/
def applyUnary (op : String) (v : Scalar) : Except Fault Term :=
  match op with
  | "-" => .lit .integer <$> v.neg
  | "!" => .ok (.lit .boolean (.bool !v.truthy))
  | "#" => .lit .integer <$> v.numberOfLetters
  | "$" => .lit .string <$> v.lettersOfNumber
  | _ => .error (.unknownUnary op)

/-- An arithmetic operator's result on two integer nodes. -/
def arith (want : Kind) (f : Scalar → Scalar → Except Fault Scalar) (l r : Term)
    (lv rv : Scalar) : Except Fault Term :=
  if l.isKind .integer && r.isKind .integer then .lit want <$> f lv rv
  else .error (.expected .integer [l, r])

/-- A binary operator other than application, applied to its evaluated operands `l`, `r` with
payloads `lv`, `rv`. -/
def applyBinary (op : String) (l r : Term) (lv rv : Scalar) : Except Fault Term :=
  match op with
  | "+" => arith .integer Value.add l r lv rv
  | "-" => arith .integer Value.sub l r lv rv
  | "*" => arith .integer Value.mul l r lv rv
  | "/" => arith .integer Value.quotient l r lv rv
  | "%" => arith .integer Value.remainder l r lv rv
  | "<" => arith .boolean (Value.compare true) l r lv rv
  | ">" => arith .boolean (Value.compare false) l r lv rv
  | "=" =>
    if (l.isKind .integer && r.isKind .integer) || (l.isKind .string && r.isKind .string) ||
        (l.isKind .boolean && r.isKind .boolean) then
      .ok (.lit .boolean (.bool (lv.equal rv)))
    else .error (.expected .comparable [l, r])
  | "|" =>
    if l.isKind .boolean && r.isKind .boolean then
      .ok (.lit .boolean (if lv.truthy then lv else rv))
    else .error (.expected .boolean [l, r])
  | "&" =>
    if l.isKind .boolean && r.isKind .boolean then
      .ok (.lit .boolean (if lv.truthy then rv else lv))
    else .error (.expected .boolean [l, r])
  | "." =>
    if l.isKind .string && r.isKind .string then .lit .string <$> lv.add rv
    else .error (.expected .string [l, r])
  | "T" =>
    if !l.isKind .integer then .error (.expected .integer [l])
    else if !r.isKind .string then .error (.expected .integer [r])
    else .lit .string <$> rv.take lv
  | "D" =>
    if !l.isKind .integer then .error (.expected .integer [l])
    else if !r.isKind .string then .error (.expected .integer [r])
    else .lit .string <$> rv.drop lv
  | _ => .error (.unknownBinary op)

/-- Call-by-name evaluation, nesting at most `fuel` deep. -/
def reduceN : Nat → Term → Except Fault Term
  | 0, _ => .error .tooDeep
  | n + 1, t =>
    match t with
    | .lit .. | .lam .. | .var _ => .ok t
    | .raw d => if d.isValueNode then .ok t else .error d.nodeFault
    | .unary op a => do
      let v ← reduceN n a
      applyUnary op (← v.payload)
    | .binary "$" f a => do
      match ← reduceN n f with
      | .lam x b => reduceN n (← b.subst x a)
      | .raw d =>
        -- a raw node typed as an abstraction is read for its variable and body
        match d.get? "type" with
        | some (.str "lambda") => .error d.nodeFault
        | _ => .error (.notLambda (.raw d))
      | g => .error (.notLambda g)
    | .binary op a b => do
      let l ← reduceN n a
      let r ← reduceN n b
      let lv ← l.payload
      let rv ← r.payload
      applyBinary op l r lv rv
    | .cond c t e => do
      let v ← reduceN n c
      if (← v.payload).truthy then reduceN n t else reduceN n e

/-- The nesting depth up to which `reduce` evaluates. -/
def depthLimit : Nat := 100000

/-- Call-by-name evaluation of a term to a value node. -/
def reduce (t : Term) : Except Fault Term := reduceN depthLimit t

end Term

end Interstellar
