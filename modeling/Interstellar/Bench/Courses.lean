import Interstellar.Lambdaman.Plan
import Interstellar.Lambdaman.Search
import Interstellar.Spaceship.Ship
import Interstellar.Lambdaman.Solution
import Interstellar.Term.Reduce

/-!
# Workloads on the courses

Workloads that fly a ship and walk a lambdaman board, each sized by one number:

* `Bench.flight n`: the ship's autopilot clears a course of `n` targets laid out along a
  staircase (each step goes `i mod 3` across and `(i + 1) mod 3` up); the answer is the number
  of keys pressed and the keys;
* `Bench.greedyWalk w`: the greedy solver eats an open square board of side `w` from its top
  left corner; the answer is the moves;
* `Bench.pillarTour w`: on a square board of side `w` with pillars, the player walks a loop of
  four steps, steps right, walks to the far corner and lets the solver eat the rest; the answer
  is the moves;
* `Bench.spelledRoutes n`: the lengths of the programs that answer boards 6 and 9, of a program
  that repeats a two-letter route `n` times, and of the text that program computes.
-/

namespace Interstellar

namespace Bench

open Lambdaman Spaceship

/-- The targets of the staircase course of `n` targets. -/
def staircase (n : Nat) : List Point :=
  ((List.range n).foldl (fun (acc : List Point × Point) i =>
    let p : Point := (acc.2.1 + (i % 3 : Nat), acc.2.2 + ((i + 1) % 3 : Nat))
    (p :: acc.1, p)) ([], (0, 0))).1.reverse

/-- A course as text, one target a line. -/
def courseText (ps : List Point) : String :=
  String.join (ps.map fun p => toString p.1 ++ " " ++ toString p.2 ++ "\n")

/-- The most turns a flight takes. -/
def flightLimit : Nat := 1000000

/-- The keys the autopilot presses to clear the staircase course of `n` targets. -/
def flight (n : Nat) : Except Fault Doc := do
  let ship ← (Ship.atStart (0, 0)).load (courseText (staircase n))
  let (ship, _) ← ship.autopilot flightLimit
  pure (.arr [.int ship.keys.size, .str ship.keyString])

/-- The grid of an open square board of side `w`. -/
def openGrid (w : Nat) : Except Fault Grid :=
  Grid.ofRows ((List.range w).map fun _ => List.replicate w '.')

/-- The moves a play on a silent board makes; a fault of the play is the answer's fault. -/
def movesOf (play : Play String) (board : Board) : Except Fault Doc :=
  match (play.run board).run { input := [] } with
  | .ok (moves, _) _ => pure (.str moves)
  | .error (.fault f) _ => .error f
  | .error (.exit _) _ => pure (.str board.moves)

/-- The moves of the greedy solver on an open square board of side `w`, from the top left. -/
def greedyWalk (w : Nat) : Except Fault Doc := do
  let g ← openGrid w
  movesOf (Board.greedy Grid.search id) { Board.create g (0, 0) 0 false with silent := true }

/-- Whether the cell at row `r` and column `c` of a board of side `w` is a pillar: an inner
cell of odd row and even column. The border is open, and so is every other inner row. -/
def isPillar (w r c : Nat) : Bool :=
  0 < r && r + 1 < w && 0 < c && c + 1 < w && r % 2 == 1 && c % 2 == 0

/-- The grid of a square board of side `w` with pillars. -/
def pillarGrid (w : Nat) : Except Fault Grid :=
  Grid.ofRows ((List.range w).map fun r =>
    (List.range w).map fun c => if isPillar w r c then '#' else '.')

/-- Walk to the cell `p`; a cell off the board is no node at all, so there is nothing to walk
to. -/
def walkTo (p : Cell) : Play Unit := do
  if (← get).grid.contains p then
    let _ ← Board.goTo Grid.search p
  else Play.fail (.noAttribute "NoneType" "position")

/-- The moves of a tour of the pillared board of side `w` from its top left corner: a loop of
four steps, a step right, a walk to the far corner, then the solver until nothing remains. -/
def pillarTour (w : Nat) : Except Fault Doc := do
  let g ← pillarGrid w
  let tour : Play String := do
    let _ ← ["R", "D", "L", "U"].mapM Board.move
    walkTo (0, 1)
    walkTo (w - 1, w - 1)
    Board.solve Grid.search id
    pure (← get).moves
  movesOf tour { Board.create g (0, 0) 0 false with silent := true }

/-- The lengths of the programs of boards 6 and 9, of the program repeating `RD` `n` times, and
of the text it reduces to. -/
def spelledRoutes (n : Nat) : Except Fault Doc := do
  let six ← solution6
  let nine ← solution9
  let code ← (Term.ofDoc (← Builder.repeatLetter (.str "RD") (.int n))).encode
  let value ← (← Term.ofText code).reduce
  let len := match value with
    | .lit _ (.str s) => Doc.int s.length
    | _ => .null
  pure (.arr [.int six.length, .int nine.length, .int code.length, len])

end Bench

end Interstellar
