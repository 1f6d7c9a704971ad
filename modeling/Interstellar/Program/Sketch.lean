import Interstellar.Program.Shell

/-!
# Sketches

Three small programs that take no input.

* `Sketch.primeBoards` prints, for each prime up to 241, a grid of cells of a two-dimensional
  board language that tests divisibility by it: the number is split into a count of 99s and a
  rest, one block each. A final block sends the answer on;
* `Sketch.nested` prints the text computed by a thunk nested in another, `Lab`;
* `Sketch.churchNumeral` applies the numeral `2` as if it were a Church numeral, and fails
  because a number cannot be applied.
-/

namespace Interstellar

namespace Sketch

/-- The primes the boards are made for. -/
def primes : List Nat :=
  [2, 3, 5, 7, 11, 13, 17, 19, 23, 29, 31, 37, 41, 43, 47, 53, 59, 61, 67, 71, 73, 79, 83, 89,
   97, 101, 103, 107, 109, 113, 127, 131, 137, 139, 149, 151, 157, 163, 167, 173, 179, 181,
   191, 193, 197, 199, 211, 223, 227, 229, 233, 239, 241]

/-- The indentation of a board row. -/
def indent : String := "            "

/-- One board row after a line break. -/
def row (cells : String) : String := "\n" ++ indent ++ cells

/-- The board that tests divisibility by `n`. -/
def primeBoard (n : Nat) : String :=
  if n ≤ 99 then
    row (". " ++ toString n ++ " . 0 .") ++ row "A  %  . = S" ++ row ".  .  . . ."
  else if n ≤ 198 then
    row (". " ++ toString (n - 99) ++ " . . .") ++ row "99 +  . . ." ++ row ".  .  . 0 ." ++
      row "A  %  . = S" ++ row ".  .  . . ."
  else
    row (". " ++ toString (n - 198) ++ "  . . .") ++ row "99 +  . . ." ++ row ".  .  . . ." ++
      row "99 +  . . ." ++ row ".  .  . 0 ." ++ row "A  %  . = S" ++ row ".  .  . . ."

/-- Every prime board, then the block that sends the answer on. -/
def primeBoards : Program := fun _ => do
  for n in primes do Run.say (primeBoard n)
  Run.say (row ".  .  . . ." ++ row "1  >  . > . > . > . > S")

/-- The text of a thunk nested in another. -/
def nested : Program := fun _ => Run.say ("L" ++ ("a" ++ "b"))

/-- Applying a number as a function. -/
def churchNumeral : Program := fun _ => Run.fail (.notCallable "int")

end Sketch

end Interstellar
