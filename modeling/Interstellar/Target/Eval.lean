import Interstellar.Target.Literal

/-!
# Running compiled programs

What the compiled text of a term computes when the target runs it, evaluated directly on the
term. Compiled variables are looked up lexically, so this is call-by-name evaluation with
environments, which never captures a variable:

* a variable calls the thunk that the nearest enclosing abstraction over it was applied to;
  with none, it is an unbound name;
* an abstraction is a function value that closes over the current bindings;
* `B$ f a` evaluates `f`, which must be a function, and binds its variable to the thunk of
  the unevaluated `a` in the current bindings;
* operators compute with the rules of `Interstellar.Value` and no kind checks at all: `|` and
  `&` give back one of their operands and evaluate the right one only when needed, `T` and
  `D` evaluate the string before the count.

`Term.run` is the whole pipeline of a term: compile it (which rejects unknown operators before
anything runs), have the target read the compiled text, and evaluate. The target refuses text
that holds a NUL before reading it; then, reading the text in order, it stops at the first
bracket opened more than `maxNesting` deep or the first string literal it cannot read
(`Literal.read`: a carriage return ends a literal's line); only text that reads as tokens is
parsed, and an abstraction over a negative number, `lambda v-3:`, parses as no expression.
-/

namespace Interstellar

/-- A suspended term with the bindings of the place where it was written. -/
inductive Thunk where
  | mk (t : Term) (env : List (Int × Thunk))
  deriving Inhabited

/-- Bindings of variable numbers to thunks, innermost first. -/
abbrev Env := List (Int × Thunk)

/-- A function value: its parameter, its body and the bindings it closes over. -/
structure Closure where
  param : Int
  body : Term
  env : Env
  deriving Inhabited

/-- A value a compiled program computes. -/
abbrev Outcome := Value Closure

/-- The thunk bound to variable `x`, innermost binding first. -/
def Env.find? (env : Env) (x : Int) : Option Thunk :=
  (List.find? (fun b => b.1 == x) env).map (·.2)

namespace Term

/-- A binary operator of the target on two evaluated operands. -/
def combine (op : String) (l r : Outcome) : Except Fault Outcome :=
  match op with
  | "+" | "." => l.add r
  | "-" => l.sub r
  | "*" => l.mul r
  | "/" => l.quotient r
  | "%" => l.remainder r
  | "<" => l.compare true r
  | ">" => l.compare false r
  | "=" => .ok (.bool (l.equal r))
  | _ => .error (.unknownBinary op)

/-- Evaluation of compiled code in the bindings `env`, nesting at most `fuel` deep. -/
def runN : Nat → Env → Term → Except Fault Outcome
  | 0, _, _ => .error .tooDeep
  | n + 1, env, t =>
    match t with
    | .lit .boolean v => .ok (.bool v.truthy)
    | .lit _ v => .ok (Value.ofScalar v)
    | .var x =>
      match env.find? x with
      | some (.mk u env') => runN n env' u
      -- `v-3()` reads as `v - 3()`, and the name looked up is `v`
      | none => .error (.unbound (if x < 0 then "v" else "v" ++ toString x))
    | .lam x b => .ok (.fn ⟨x, b, env⟩)
    | .unary op a => do
      let v ← runN n env a
      match op with
      | "-" => v.neg
      | "!" => .ok (.bool !v.truthy)
      | "#" => v.numberOfLetters
      | "$" => v.lettersOfNumber
      | _ => .error (.unknownUnary op)
    | .binary "$" f a => do
      match ← runN n env f with
      | .fn c => runN n ((c.param, .mk a env) :: c.env) c.body
      | v => .error (.notCallable v.typeName)
    | .binary "|" a b => do
      let l ← runN n env a
      if l.truthy then .ok l else runN n env b
    | .binary "&" a b => do
      let l ← runN n env a
      if l.truthy then runN n env b else .ok l
    | .binary "T" a b => do
      let s ← runN n env b
      let k ← runN n env a
      s.take k
    | .binary "D" a b => do
      let s ← runN n env b
      let k ← runN n env a
      s.drop k
    | .binary op a b => do
      let l ← runN n env a
      let r ← runN n env b
      combine op l r
    | .cond c t e => do
      let v ← runN n env c
      if v.truthy then runN n env t else runN n env e
    | .raw d => .error d.nodeFault

/-- The nesting depth up to which compiled programs run. -/
def runDepth : Nat := 100000

/-- Whether a string literal of `t` holds a NUL. -/
def holdsNul : Term → Bool
  | .lit .boolean _ => false
  | .lit _ (.str s) => s.toList.contains '\x00'
  | .unary _ a | .lam _ a => a.holdsNul
  | .binary _ a b => a.holdsNul || b.holdsNul
  | .cond c t e => c.holdsNul || t.holdsNul || e.holdsNul
  | _ => false

/-- Whether the target reads the literal that the compiled text writes for the string `s`. -/
def literalReads (s : String) : Bool :=
  (Literal.read (fun _ => none) ('"' :: (escapeQuoted s).toList ++ ['"'])).isSome

/-- A bracket opened `depth` deep: too deep past `maxNesting`. -/
def openAt (depth : Nat) : Option Fault := if depth > maxNesting then some .tooManyParens else none

/-- The first fault the target meets reading the compiled text of `t` as tokens, when that text
stands `depth` brackets deep: a bracket opened past `maxNesting` or a string literal it cannot
read. The text of every node starts with a bracket, so a node's own brackets are checked by the
first operand written inside them; the operands come in the order of the text, which for `T`
and `D` puts the string first and for a conditional the branch taken when the test holds. -/
def lexFault (depth : Nat) : Term → Option Fault
  | .lit .string (.str s) =>
    (openAt (depth + 1)).or (if literalReads s then none else some .unterminatedString)
  | .unary "-" a | .unary "!" a => a.lexFault (depth + 2)
  | .unary _ a => a.lexFault (depth + 3)
  | .binary "/" a b | .binary "%" a b => (a.lexFault (depth + 2)).or (b.lexFault (depth + 2))
  | .binary "T" a b | .binary "D" a b => (b.lexFault (depth + 1)).or (a.lexFault (depth + 2))
  | .binary "$" a b => (a.lexFault (depth + 1)).or (b.lexFault (depth + 2))
  | .binary _ a b => (a.lexFault (depth + 1)).or (b.lexFault (depth + 1))
  | .lam _ b => b.lexFault (depth + 2)
  | .var _ => openAt (depth + 2)
  | .cond c t e => (t.lexFault (depth + 2)).or ((c.lexFault (depth + 2)).or (e.lexFault (depth + 2)))
  | _ => openAt (depth + 1)

/-- Whether every abstraction of `t` binds a name: `v` and a number that is not negative. -/
def namesBound : Term → Bool
  | .lam x b => decide (0 ≤ x) && b.namesBound
  | .unary _ a => a.namesBound
  | .binary _ a b => a.namesBound && b.namesBound
  | .cond c t e => c.namesBound && t.namesBound && e.namesBound
  | _ => true

/-- What running a term's compiled text computes, from empty bindings. The text is compiled
first, so an unknown operator is reported before anything runs; then the target reads it, and
refuses it as the module's introduction says. -/
def run (t : Term) : Except Fault Outcome := do
  let _ ← t.compile
  if t.holdsNul then throw .nullBytes
  match t.lexFault 0 with
  | some f => throw f
  | none =>
    if !t.namesBound then throw .invalidSyntax
    runN runDepth [] t

end Term

end Interstellar
