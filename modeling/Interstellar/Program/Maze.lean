import Interstellar.Program.Shell
import Interstellar.Program.Dot
import Interstellar.Lambdaman.Plan
import Interstellar.Lambdaman.Search
import Interstellar.Lambdaman.Solution
import Interstellar.Text.Integer

/-!
# The lambdaman solver

A command-line solver for lambdaman boards. The board's number comes from the file name
(`lambdaman12.txt` is board 12). Boards 6 and 9 are answered at once with their programs
(`Lambdaman.solution6`, `solution9`); any other board is read from the file, one row a line
with blanks around it dropped, and the player starts on the first `L`. Then:

* `--graph` prints the graph of the board, one edge per pair of neighbours, every node named
  by its description (which reads its costs);
* `--repl` lets a person play: the arrow keys move, `a` solves the rest with animation, `s`
  submits the moves, `q` quits. Each round shows the board and the possible moves, the one the
  planner would take marked in green. A key that is not an arrow repeats the last arrow;
* otherwise the board is solved, animated with `--display`, and with `--submit` the moves are
  sent to the server.

A board without an `L`, or with its first `L` beyond the width of the first row, has no
player: the drawing fails at the first description, play at the first picture, and solving at
once.
-/

namespace Interstellar

namespace Maze

open Lambdaman

/-- The command line of the solver. -/
def spec : Options.Spec :=
  { prog := "solver.py",
    params := [.positional "file_path" "", .flag "display" "", .flag "submit" "",
               .flag "repl" "", .flag "graph" ""] }

/-- The last component of a path. -/
def baseName (path : String) : String :=
  ((path.splitOn "/").filter fun p => p != "" && p != ".").getLast?.getD ""

/-- The board number a file name gives: the name without `lambdaman` and `.txt`. -/
def boardNumber (path : String) : Except Fault Int :=
  Integer.read (((baseName path).replace "lambdaman" "").replace ".txt" "")

/-- The lines of a text, each with its line feed, as a file reads them. -/
def fileLines (text : String) : List String :=
  match text.splitOn "\n" with
  | [] => []
  | parts =>
    let body := parts.dropLast.map (· ++ "\n")
    if parts.getLast?.getD "" == "" then body else body ++ [parts.getLast?.getD ""]

/-- The first `L` of the rows, in row-major order. -/
def startOf (rows : List String) : Option Cell :=
  let found := rows.zipIdx.filterMap fun (row, r) => (row.toList.idxOf? 'L').map fun c => (r, c)
  found.head?

/-- Send the moves of a board to the server and print the reply. -/
def submit : Play Unit := do
  let b ← get
  let reply ← StateT.lift (Client.call ("solve lambdaman" ++ toString b.number ++ " " ++ b.moves))
  Play.say ("Response: " ++ Program.printed reply)

/-- The drawing of a board's graph: an edge from each node to each neighbour. -/
def drawing : Play String := do
  let g := (← get).grid
  let stmts ← g.nodes.flatMap (fun p => (g.adjacent p).map fun q => (p, q)) |>.mapM fun (p, q) => do
    let a ← Board.describe p
    let b ← Board.describe q
    pure (Dot.edge a b (some "1"))
  pure (Dot.digraph stmts)

/-- Read one key: an escape sequence of an arrow is three characters, other escapes two. -/
def getKey : Run String := do
  let c ← Run.readKey
  if c == '\x1b' then
    let c2 ← Run.readKey
    if c2 == '[' then
      let c3 ← Run.readKey
      pure (String.ofList [c, c2, c3])
    else pure (String.ofList [c, c2])
  else pure (String.singleton c)

/-- The move an arrow key asks for. -/
def arrowMove (key : String) : Option String :=
  if key == "\x1b[A" then some "U"
  else if key == "\x1b[B" then some "D"
  else if key == "\x1b[C" then some "R"
  else if key == "\x1b[D" then some "L"
  else none

/-- The word for a step from `here` to the neighbour `there`. -/
def stepWord (here there : Cell) : String :=
  if there.1 > here.1 then "Down" else if there.1 < here.1 then "Up"
  else if there.2 > here.2 then "Right" else "Left"

/-- The possible moves, each with the neighbour's description, the planner's choice marked. -/
def showMoves : Play Unit := do
  let b ← get
  for q in b.grid.adjacent b.current do
    let choice ← Board.nextMove id
    if q == choice then Play.say greenMark
    let d ← Board.describe q
    Play.say (stepWord b.current q ++ " " ++ d)
    Play.say plainMark

/-- One round of play: `none` when the player quits, otherwise the move to repeat. -/
def playRound (move : Option String) : Play (Option (Option String)) := do
  Play.write (← get).picture
  Play.say "Possible Moves"
  showMoves
  let key ← StateT.lift getKey
  let move := match arrowMove key with
    | some m => some m
    | none => move
  let key ← if key == "a" then do
      modify fun b => { b with animate := true }
      Board.solve Grid.search id
      StateT.lift getKey
    else pure key
  if key == "q" then pure none
  else
    if key == "s" then
      submit
      Play.say ("Moves: " ++ (← get).moves)
    match move with
    | some m => let _ ← Board.move m
    | none => pure ()
    Play.write "\x1bc"
    pure (some move)

/-- Rounds of play, at most `fuel` of them. -/
def playFrom : Nat → Option String → Play Unit
  | 0, _ => pure ()
  | fuel + 1, move => do
    match ← playRound move with
    | some move' => playFrom fuel move'
    | none => pure ()

/-- Play, then show the board and the moves. -/
def play : Play Unit := do
  playFrom ((← StateT.lift get).input.length + 1) none
  Play.write (← get).picture
  Play.say ("Moves: " ++ (← get).moves)

/-- What the modes do on a board without a player, where `start` is the visited start (none
when there is no `L`, a cell off the grid when the `L` lies beyond the first row's width). -/
def withoutPlayer (g : Grid) (number : Int) (args : Options.Args) (start : Key) : Run Unit := do
  if args.has "graph" then
    if g.nodes.isEmpty then
      Run.say (Dot.digraph [])
      Run.exit 0
    else Run.fail (.missing start)
  else if args.has "repl" then
    if g.width = 0 then
      Run.write (String.join (List.replicate g.height "\n"))
      Run.say ("Number: " ++ toString number)
      Run.say "Moves: "
      Run.say "Remaining nodes: 0"
      Run.say "Possible Moves"
      Run.fail (.noAttribute "NoneType" "adjacent")
    else Run.fail (.noAttribute "NoneType" "position")
  else Run.fail (.noAttribute "NoneType" "costs")

/-- The solver. -/
def program : Program := fun argv => do
  let args ← Program.options spec argv
  let path := args.positionals.headD ""
  let number ← Run.lift (boardNumber path)
  if number = 6 ∨ number = 9 then
    let code ← Run.lift (if number = 6 then solution6 else solution9)
    let reply ← Client.call ("`" ++ code)
    Run.say ("Response: " ++ Program.printed reply)
    Run.exit 0
  let text ← Run.readFile path
  let rows := (fileLines text).map Blank.trim
  let g ← Run.lift (Grid.ofRows (rows.map String.toList))
  match startOf rows with
  | none => withoutPlayer g number args .nothing
  | some start =>
    if !g.contains start then withoutPlayer g number args (.pair start.1 start.2) else
    let board := Board.create g start number (args.has "display")
    let session : Play Unit := do
      if args.has "graph" then
        Play.say (← drawing)
        StateT.lift (Run.exit 0)
      else if args.has "repl" then play
      else
        Board.solve Grid.search id
        if args.has "submit" then submit
    let _ ← session.run board

end Maze

end Interstellar
