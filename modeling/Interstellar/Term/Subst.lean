import Interstellar.Fault

/-!
# Substitution by name

`Term.subst t x u` puts the term `u` in place of every occurrence of the variable `x` in `t`
that no abstraction over `x` encloses. It renames nothing: an abstraction over another
variable is entered even when `u` mentions that variable, so a free variable of `u` can be
captured there. On closed arguments this is harmless, and the interpreter only ever
substitutes the (unevaluated) argument of an application.

Substitution walks the whole term it enters, so it fails on a raw node that is no node at all
even where evaluation would never go; a raw node that declares a literal type, or a type
that no node has, is passed over like a literal.
-/

namespace Interstellar

/-- Whether substitution passes over a raw node unchanged: it declares a literal type, a
type no node has, or is a variable with a number. -/
def Doc.substInert (d : Doc) : Bool :=
  match d.get? "type" with
  | some (.str s) =>
    match nodeFields s with
    | none => true
    | some _ => Kind.ofName? s |>.isSome || (s == "var" && d.has "var")
  | some _ => true
  | none => false

namespace Term

/-- `t` with `u` in place of each occurrence of `x` that no abstraction over `x` encloses. -/
def subst (t : Term) (x : Int) (u : Term) : Except Fault Term :=
  match t with
  | .var y => .ok (if y = x then u else .var y)
  | .unary op a => do .ok (.unary op (← a.subst x u))
  | .binary op a b => do
    let a' ← a.subst x u
    let b' ← b.subst x u
    .ok (.binary op a' b')
  | .cond c t e => do
    let c' ← c.subst x u
    let t' ← t.subst x u
    let e' ← e.subst x u
    .ok (.cond c' t' e')
  | .lam y b => if y = x then .ok (.lam y b) else do .ok (.lam y (← b.subst x u))
  | .lit k v => .ok (.lit k v)
  | .raw d => if d.substInert then .ok (.raw d) else .error d.nodeFault

end Term

end Interstellar
