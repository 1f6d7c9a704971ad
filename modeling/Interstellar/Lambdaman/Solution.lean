import Interstellar.Builder
import Interstellar.Term.Document
import Interstellar.Term.Token

/-!
# Programs that spell lambdaman routes

Two routes are long runs of one move, so they are sent as programs that spell them with
counted loops (`Builder.repeatLetter`) rather than as strings:

* board 6: `R` 199 times;
* board 9: 25 rounds of `R` 49 times, `D`, `L` 49 times, `D`.

Each program is prefixed by the command `solve lambdaman<k> ` and written as program text.
-/

namespace Interstellar

namespace Lambdaman

/-- The program text of a route document, prefixed with the command for board `k`. -/
def command (k : Nat) (route : Doc) : Except Fault String := do
  let head ← Builder.lit (.str ("solve lambdaman" ++ toString k ++ " "))
  (Term.ofDoc (Builder.concat head route)).encode

/-- The program that solves board 6. -/
def solution6 : Except Fault String := do
  command 6 (← Builder.repeatLetter (.str "R") (.int 199))

/-- The program that solves board 9. -/
def solution9 : Except Fault String := do
  let right ← Builder.repeatLetter (.str "R") (.int 49)
  let left ← Builder.repeatLetter (.str "L") (.int 49)
  let down ← Builder.lit (.str "D")
  let round := Builder.concat (Builder.concat right down) (Builder.concat left down)
  command 9 (← Builder.loop (.int 4) (.int 25) round fun a b => .ok (Builder.concat a b))

end Lambdaman

end Interstellar
