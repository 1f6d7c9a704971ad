import Interstellar.Lambdaman.Score
import Interstellar.Console

/-!
# The lambdaman board

A board is a grid with a player on it. The player starts on a cell, moves up, down, left or
right onto open cells, and every cell it stands on is visited; the cells neither visited nor
walls remain to be eaten. Each cell also counts how often the player stepped onto it.

Distances are kept per source cell and **worn**: the first read of a cell's costs computes the
distances from it and the predecessors along shortest walks, and every read, the first
included, then adds the visit count of each visited cell to that cell's distance. The worn
distances stay, so a cell read `n` times carries `n` times its visits on top of its distance.
The predecessors keep the distances of the first read.

Play runs on a console (`Play`), because a board can print: its picture, the description of
a cell (which reads that cell's costs), and, when animated, a frame for each step of a walk.
A silent board drops the lines its solvers print before making them (`Play.note`), so the
descriptions they would hold are never read and wear nothing.

* `Board.move`: one step; `false` when the step is not onto an open cell;
* `Board.costs p`: the worn distances from `p`; a cell outside the graph has no entry;
* `Board.totalCost p`, `Board.describe p`: the sum of the worn distances, and the description
  `N((r, c), v<visits> <total>) `;
* `Board.picture`: the grid with the player and the visited cells marked, then the board's
  number, the moves and the count of remaining cells;
* `Board.goTo find p`: walk to `p`, one step when it is next to the player and otherwise along
  the walk the path finder `find` gives.
-/

namespace Interstellar

namespace Lambdaman

/-- A path finder: the walk to follow on a grid from one cell to another, both ends included,
or none. The boards take it from outside; `Interstellar.Lambdaman.Search` gives the one the
programs run with. -/
abbrev Finder := Grid → Cell → Cell → Option (List Cell)

/-- Distances from one cell, worn by reads, and the predecessors of the first read. -/
structure Costs where
  dist : Array Dist
  pred : Array (Option Cell)
  deriving Inhabited

/-- A board in play. Sets of cells and counts are arrays by cell index. -/
structure Board where
  grid : Grid
  number : Int
  start : Cell
  current : Cell
  visited : Array Bool
  visits : Array Nat
  moves : String
  /-- The costs read so far, by source cell. -/
  tables : Array (Option Costs)
  /-- The cell farthest from the start, once it has been asked for. -/
  farthest : Option Cell
  /-- Whether walks print a frame for each step. -/
  animate : Bool
  /-- Whether the lines the board prints are dropped before they are formatted. A dropped line
  that would describe a cell never reads that cell's costs, so it wears nothing. -/
  silent : Bool
  deriving Inhabited

/-- Play on a board, printing to a console. -/
abbrev Play := StateT Board Run

namespace Play

/-- Stop with a fault. -/
def fail {α : Type} (f : Fault) : Play α := StateT.lift (Run.fail f)

/-- Print a line. -/
def say (s : String) : Play Unit := StateT.lift (Run.say s)

/-- Print text without a line break. -/
def write (s : String) : Play Unit := StateT.lift (Run.write s)

/-- Print the line `line` makes, unless the board is silent; a silent board does not make it. -/
def note (line : Play String) : Play Unit := do
  if (← get).silent then pure () else say (← line)

end Play

/-- The escape that starts green text. -/
def greenMark : String := "\x1b[92m"

/-- The escape that starts yellow text. -/
def yellowMark : String := "\x1b[93m"

/-- The escape that ends coloured text. -/
def plainMark : String := "\x1b[0m"

/-- How a cell is written in texts: `(r, c)`. -/
def cellText (p : Cell) : String := "(" ++ toString p.1 ++ ", " ++ toString p.2 ++ ")"

/-- The distance of a node under some costs. -/
def Costs.at (t : Costs) (g : Grid) (p : Cell) : Dist := t.dist.getD (g.index p) .inf

namespace Board

/-- A fresh board on grid `g` with the player at `start`, which lies on the grid. -/
def create (g : Grid) (start : Cell) (number : Int) (animate : Bool) : Board :=
  { grid := g, number := number, start := start, current := start,
    visited := (Array.replicate g.size false).set! (g.index start) true,
    visits := Array.replicate g.size 0, moves := "",
    tables := Array.replicate g.size none, farthest := none, animate := animate,
    silent := false }

/-- Whether `p` has been visited. -/
def isVisited (b : Board) (p : Cell) : Bool := b.visited.getD (b.grid.index p) false

/-- How often the player stepped onto `p`. -/
def visitsOf (b : Board) (p : Cell) : Nat := b.visits.getD (b.grid.index p) 0

/-- The cells neither visited nor walls, in row-major order. -/
def remaining (b : Board) : List Cell :=
  b.grid.cells.filter fun p => !b.isVisited p && !b.grid.isWall p

/-- One step in direction `dir` (`U`, `D`, `L` or `R`), if it leads onto an open cell. -/
def step? (b : Board) (dir : String) : Option Board :=
  let (r, c) := b.current
  let target : Option Cell :=
    if dir == "U" then (if r = 0 then none else some (r - 1, c))
    else if dir == "D" then some (r + 1, c)
    else if dir == "L" then (if c = 0 then none else some (r, c - 1))
    else if dir == "R" then some (r, c + 1)
    else none
  match target with
  | some p =>
    if b.grid.isOpen p then
      let i := b.grid.index p
      some { b with current := p, visited := b.visited.set! i true,
                    visits := b.visits.set! i (b.visits.getD i 0 + 1), moves := b.moves ++ dir }
    else none
  | none => none

/-- One step; whether it was made. -/
def move (dir : String) : Play Bool := do
  match (← get).step? dir with
  | some b' => set b'; pure true
  | none => pure false

/-- The costs of `p` as last left, computing them on the first read; a cell outside the graph
has none. -/
def table (p : Cell) : Play Costs := do
  let b ← get
  match b.tables.getD (b.grid.index p) none with
  | some t => pure t
  | none =>
    if b.grid.linked p then
      let d := b.grid.distances p
      pure ⟨d, b.grid.predecessors d⟩
    else Play.fail .missingNode

/-- The distances `d` worn once more: every visited cell's distance grows by its visits. A
visited cell outside the graph has no distance to wear. -/
def wear (b : Board) (d : Array Dist) : Except Fault (Array Dist) :=
  b.grid.cells.foldlM (fun d q =>
    if b.isVisited q then
      if b.grid.linked q then
        let i := b.grid.index q
        .ok (d.set! i ((d.getD i .inf).add (b.visitsOf q)))
      else .error (.missing (.pair q.1 q.2))
    else .ok d) d

/-- Read the costs of `p`, wearing them. -/
def costs (p : Cell) : Play Costs := do
  let t ← table p
  let b ← get
  match b.wear t.dist with
  | .ok d =>
    let t' := { t with dist := d }
    set { b with tables := b.tables.set! (b.grid.index p) (some t') }
    pure t'
  | .error f => Play.fail f

/-- The sum of the distances from `p` to every node, after one read of its costs. -/
def totalCost (p : Cell) : Play Dist := do
  let t ← costs p
  let g := (← get).grid
  pure (Dist.sum (g.nodes.map (t.at g)))

/-- The description of a cell: where it is, its visits and its total cost. -/
def describe (p : Cell) : Play String := do
  let total ← totalCost p
  pure ("N(" ++ cellText p ++ ", v" ++ toString ((← get).visitsOf p) ++ " " ++ total.text ++ ") ")

/-- How one cell of the picture is drawn. -/
def cellPicture (b : Board) (p : Cell) : String :=
  if p == b.current then greenMark ++ "L" ++ plainMark
  else if b.isVisited p then "o"
  else if b.grid.isWall p then yellowMark ++ "#" ++ plainMark
  else String.singleton (b.grid.char p)

/-- The picture of the board, with its number, moves and remaining count. -/
def picture (b : Board) : String :=
  let rows := (List.range b.grid.height).map fun r =>
    String.join ((List.range b.grid.width).map fun c => b.cellPicture (r, c)) ++ "\n"
  String.join rows ++ "Number: " ++ toString b.number ++ "\n" ++ "Moves: " ++ b.moves ++ "\n" ++
    "Remaining nodes: " ++ toString b.remaining.length ++ "\n"

/-- A frame of an animation: a clear-screen escape, then the picture. -/
def frame : Play Unit := do
  let b ← get
  if b.animate then Play.write ("\x1bc" ++ b.picture) else pure ()

/-- The direction of one step from `here` toward `there`; none when they are the same. -/
def toward (here there : Cell) : String :=
  if there.1 > here.1 then "D" else if there.1 < here.1 then "U"
  else if there.2 > here.2 then "R" else if there.2 < here.2 then "L" else ""

/-- Walk along `path`, one step toward each of its cells in turn, with a frame after each. -/
def follow : List Cell → Play Unit
  | [] => pure ()
  | p :: rest => do
    let _ ← move (toward (← get).current p)
    frame
    follow rest

/-- Walk to `p`: `some true` when already there or after a walk, `none` after a single step to
a neighbour, which shows a frame only when it goes left. A cell farther away is walked to along
the walk `find` gives; when it gives none there is no walk to follow. -/
def goTo (find : Finder) (p : Cell) : Play (Option Bool) := do
  let b ← get
  if p == b.current then pure (some true)
  else if (b.grid.adjacent b.current).contains p then
    let dir := toward b.current p
    let _ ← move dir
    if dir == "L" then frame
    pure none
  else
    match find b.grid b.current p with
    | none => Play.fail (.notIterable "NoneType")
    | some path => do
      follow path
      pure (some true)

end Board

end Lambdaman

end Interstellar
