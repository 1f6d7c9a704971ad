import Interstellar.Lambdaman.Plan
import Interstellar.Lambdaman.Search

/-!
# Sessions on a board

A session opens a board from its rows and a start, then performs commands one after another.
After opening and after each command it reports the board's state: the player's cell, the
moves made and the number of remaining cells. A command that fails ends the session with its
fault. Whatever the commands print is not part of the report.

Cells are given by integer coordinates; coordinates off the grid name no cell, and the
commands that need a cell fail on them the way an absent value fails when asked for an
attribute.

Sessions walk with the best-first search of `Interstellar.Lambdaman.Search` (`Grid.search`) and
go through sets of cells in row-major order.
-/

namespace Interstellar

namespace Lambdaman

/-- What a session can be asked to do. -/
inductive Command where
  | move (dir : String)
  | goTo (r c : Int)
  | remaining
  | cells
  | adjacent (r c : Int)
  | costs (r c : Int)
  | nearest
  | branchCount (r c : Int)
  | byBranch
  | shortestPath (r1 c1 r2 c2 : Int)
  | graph
  | picture
  | summary
  | mostDistant
  | nextMove
  | tour
  | solve
  | greedy
  | dijkstra
  deriving Inhabited

/-- A cell as a document. -/
def cellDoc (p : Cell) : Doc := .arr [.int p.1, .int p.2]

/-- A distance as a document; `inf` is null. -/
def distDoc : Dist → Doc
  | .fin n => .int n
  | .inf => .null

namespace Board

/-- The cell at coordinates `(r, c)`, or the fault of asking an absent cell for `attr`. -/
def cellFor (r c : Int) (attr : String) : Play Cell := do
  match (← get).grid.cellAt? r c with
  | some p => pure p
  | none => Play.fail (.noAttribute "NoneType" attr)

/-- The state of a board as a document: the player's cell, the moves and the number of
remaining cells. -/
def state (b : Board) : List (String × Doc) :=
  [("pos", cellDoc b.current), ("moves", .str b.moves), ("remaining", .int b.remaining.length)]

/-- How a board names itself: its number, height and width. -/
def summaryText (b : Board) : String :=
  "Board(#" ++ toString b.number ++ " " ++ toString b.grid.height ++ ", " ++
    toString b.grid.width ++ ")"

end Board

namespace Command

/-- Perform a command; its result, or none for a command that gives nothing back. -/
def perform : Command → Play (Option Doc)
  | .move dir => do pure (some (.bool (← Board.move dir)))
  | .goTo r c => do
    let p ← Board.cellFor r c "position"
    match ← Board.goTo Grid.search p with
    | some b => pure (some (.bool b))
    | none => pure (some .null)
  | .remaining => do pure (some (.arr ((← get).remaining.map cellDoc)))
  | .cells => do pure (some (.arr ((← get).grid.cells.map cellDoc)))
  | .adjacent r c => do
    let p ← Board.cellFor r c "adjacent"
    pure (some (.arr (((← get).grid.adjacent p).map cellDoc)))
  | .costs r c => do
    let p ← Board.cellFor r c "costs"
    let t ← Board.costs p
    let g := (← get).grid
    pure (some (.arr (g.nodes.map fun q => .arr [.int q.1, .int q.2, distDoc (t.at g q)])))
  | .nearest => do pure (some (distDoc (← Board.nearest id).2))
  | .branchCount r c => do
    let p ← Board.cellFor r c "adjacent"
    pure (some (.int ((← get).grid.branchCount p)))
  | .byBranch => do
    let (p, total) ← Board.byBranch (← get).current
    pure (some (.obj [("node", cellDoc p), ("total_cost", distDoc total)]))
  | .shortestPath r1 c1 r2 c2 => do
    let src ← Board.cellFor r1 c1 "costs"
    let dst := (← get).grid.cellAt? r2 c2
    pure (some (.arr ((← Board.shortestPath src dst).map cellDoc)))
  | .graph => do
    let g := (← get).grid
    pure (some (.arr (g.nodes.map fun p =>
      .arr [.int p.1, .int p.2, .arr ((g.adjacent p).map cellDoc)])))
  | .picture => do pure (some (.str (← get).picture))
  | .summary => do
    let b ← get
    pure (some (.obj [("repr", .str b.summaryText), ("len", .int b.grid.height)]))
  | .mostDistant => do
    let (p, d) ← Board.mostDistant id
    pure (some (.obj [("node", cellDoc p), ("inverted", distDoc d)]))
  | .nextMove => do pure (some (cellDoc (← Board.nextMove id)))
  | .tour => do
    let path ← Board.tour id
    pure (some (.arr (path.map fun (p, s) => .arr [.int p.1, .int p.2, s.toDoc])))
  | .solve => do Board.solve Grid.search id; pure none
  | .greedy => do pure (some (.arr [.arr [], .str (← Board.greedy Grid.search id)]))
  | .dijkstra => do pure (some (.arr [.arr [], .str (← Board.dijkstra id)]))

end Command

/-- Open a board from its rows, a start given by coordinates (or none) and a number. The rows
must make a grid; a start off the grid leaves no player, and reading the state fails. -/
def openBoard (rows : List String) (start : Option (Int × Int)) (number : Int) :
    Except Fault Board := do
  let g ← Grid.ofRows (rows.map String.toList)
  match start.bind fun (r, c) => g.cellAt? r c with
  | some p => pure (Board.create g p number false)
  | none => .error (.noAttribute "NoneType" "position")

/-- Perform commands in turn, each reported with its result (when it has one) and the state
after it; a failure is reported and ends the run. -/
def performAll (b : Board) (console : Console) : List Command → List (Except Fault (List (String × Doc)))
  | [] => []
  | cmd :: rest =>
    match (cmd.perform.run b).run console with
    | .ok (res, b') console' =>
      let entry := (match res with
        | some d => [("result", d)]
        | none => []) ++ b'.state
      .ok entry :: performAll b' console' rest
    | .error (.fault f) _ => [.error f]
    | .error (.exit _) _ => []

/-- A whole session: the state after opening, then one entry per command. -/
def session (rows : List String) (start : Option (Int × Int)) (number : Int)
    (cmds : List Command) : Except Fault (List (Except Fault (List (String × Doc)))) := do
  let b ← openBoard rows start number
  pure (.ok b.state :: performAll b { input := [] } cmds)

end Lambdaman

end Interstellar
