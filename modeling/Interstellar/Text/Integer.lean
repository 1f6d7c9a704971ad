import Interstellar.Text.Blank
import Interstellar.Fault

/-!
# Reading decimal integers

`Integer.read` reads a decimal integer as typed by a person: blanks around it are allowed,
then an optional sign, then decimal digits, where single underscores may stand between two
digits. Anything else is `Fault.notAnInteger`, which quotes the whole text.
-/

namespace Interstellar

namespace Integer

/-- The value of a run of digits with single underscores between digits. -/
def digitsValue : List Char → Option Nat
  | [] => none
  | cs =>
    let step (st : Option (Nat × Bool)) (c : Char) : Option (Nat × Bool) :=
      match st with
      | none => none
      | some (v, lastDigit) =>
        if c.isDigit then some (v * 10 + (c.toNat - 48), true)
        else if c == '_' && lastDigit then some (v, false)
        else none
    match cs.foldl step (some (0, false)) with
    | some (v, true) => if cs.head? == some '_' then none else some v
    | _ => none

/-- A decimal integer, possibly signed and surrounded by blanks. -/
def read (s : String) : Except Fault Int :=
  let cs := Blank.trimList s.toList
  let parsed : Option Int :=
    match cs with
    | '-' :: ds => (fun v => -(v : Int)) <$> digitsValue ds
    | '+' :: ds => (fun v => (v : Int)) <$> digitsValue ds
    | ds => (fun v => (v : Int)) <$> digitsValue ds
  match parsed with
  | some v => .ok v
  | none => .error (.notAnInteger s)

end Integer

end Interstellar
