import Interstellar.Lambdaman.Board

/-!
# Planning a tour

Greedy ways of choosing where the player goes next, and the tours built from them. Every
choice reads worn costs (see `Interstellar.Lambdaman.Board`), so asking changes later answers.
The remaining cells are gone through in an order the boards do not fix, given as a parameter
(`SetOrder`); ties among them go to the first in that order. The nodes, when the farthest one is
sought, are gone through in row-major order, and so are the neighbours of a cell.

* `Board.nearest`: the remaining cell nearest to the player;
* `Board.farthestCosts`: the costs of the node farthest from the start, fixed at the first
  request, which prints that node's description (unless the board is silent);
* `Board.mostDistant`: the remaining cell with the highest ratio of its distance from the
  player to its distance from that farthest node;
* `Board.nextMove`: the one remaining neighbour if there is exactly one, the most distant cell
  at a fork, the nearest cell otherwise;
* `Board.byBranch s`: the neighbour of `s` with the fewest cells beyond it;
* `Board.tour`: at most fifteen remaining cells, ranked by the ratio of their distances from
  the player and from the node farthest from the player;
* `Board.solve`: walk the first cell of the tour, plan again, until nothing remains;
* `Board.greedy`: walk `nextMove` choices until nothing remains, printing each;
* `Board.dijkstra`: a solver that fails on its first choice while anything remains.
-/

namespace Interstellar

namespace Lambdaman

/-- An order in which a set of cells is gone through, given the cells of the set in row-major
order. -/
abbrev SetOrder := List Cell → List Cell

namespace Board

/-- The first cell of `cs` with the least key under `lt`, each later one replacing it only when
strictly less. -/
def firstLeast {κ : Type} (lt : κ → κ → Bool) : List (Cell × κ) → Option (Cell × κ)
  | [] => none
  | c :: cs => some (cs.foldl (fun best x => if lt x.2 best.2 then x else best) c)

/-- The first node of `g` with the greatest distance under `t`. -/
def farthestNode (g : Grid) (t : Costs) : Option Cell :=
  (firstLeast (fun a b => Dist.lt b a) (g.nodes.map fun p => (p, t.at g p))).map (·.1)

/-- Each remaining cell, in the order `order`, with its distance under `t`; a remaining cell
outside the graph has none. -/
def remainingKeys (b : Board) (order : SetOrder) (t : Costs) : Except Fault (List (Cell × Dist)) :=
  (order b.remaining).mapM fun q =>
    if b.grid.linked q then .ok (q, t.at b.grid q) else .error (.missing (.pair q.1 q.2))

/-- The remaining cell nearest to the player, with its distance. -/
def nearest (order : SetOrder) : Play (Cell × Dist) := do
  let t ← costs (← get).current
  let b ← get
  if b.remaining.isEmpty then Play.fail (.emptyChoice "min")
  else
    match b.remainingKeys order t with
    | .error f => Play.fail f
    | .ok keys =>
      match firstLeast Dist.lt keys with
      | some x => pure x
      | none => Play.fail (.emptyChoice "min")

/-- The costs of the node farthest from the start. The node is chosen at the first request,
from the start's costs read then, and its description is printed (a silent board neither
prints nor reads it); later requests give its costs as they stand. -/
def farthestCosts : Play Costs := do
  match (← get).farthest with
  | some f => table f
  | none =>
    let st ← costs (← get).start
    let g := (← get).grid
    match farthestNode g st with
    | none => Play.fail (.emptyChoice "max")
    | some f =>
      Play.note (("Inverted Distances " ++ ·) <$> describe f)
      let t ← costs f
      modify fun b => { b with farthest := some f }
      pure t

/-- The remaining cell with the greatest ratio of its distance from the player to its distance
from the farthest node, with the latter distance. -/
def mostDistant (order : SetOrder) : Play (Cell × Dist) := do
  let _ ← costs (← get).current
  let _ ← farthestCosts
  let b ← get
  -- both tables as they stand after all reads, since the reads may wear the same table twice
  let cur ← table b.current
  let inv ← match b.farthest with
    | some f => table f
    | none => Play.fail (.emptyChoice "max")
  if b.remaining.isEmpty then Play.fail (.emptyChoice "max")
  else
    match b.remainingKeys order cur with
    | .error f => Play.fail f
    | .ok keys =>
      let scored := keys.map fun (q, d) => (q, Score.quotient d (inv.at b.grid q))
      match firstLeast (fun x y => Score.lt y x) scored with
      | some (q, _) => pure (q, inv.at b.grid q)
      | none => Play.fail (.emptyChoice "max")

/-- The neighbours of the player that remain. -/
def freshNeighbours (b : Board) : List Cell :=
  (b.grid.adjacent b.current).filter fun q => !b.isVisited q

/-- Where the player goes next: the one remaining neighbour, the most distant cell at a fork,
and the nearest remaining cell when no neighbour remains. -/
def nextMove (order : SetOrder) : Play Cell := do
  let b ← get
  let next ← match b.freshNeighbours with
    | [q] => pure q
    | [] => (·.1) <$> nearest order
    | _ => (·.1) <$> mostDistant order
  if next == b.current then (·.1) <$> nearest order else pure next

/-- The neighbour of `s` with the fewest cells beyond it, the first of those tied, with its total
cost; its costs are read twice. -/
def byBranch (s : Cell) : Play (Cell × Dist) := do
  let b ← get
  match b.grid.adjacent s with
  | [] => Play.fail (.noAttribute "NoneType" "total_cost")
  | n :: ns =>
    let best := ns.foldl (fun best q =>
      if b.grid.branchCount q < b.grid.branchCount best then q else best) n
    let total ← totalCost best
    let _ ← costs best
    pure (best, total)

/-- The cells of a walk back along predecessors from `p` to a cell without one, followed by
`acc`; a cell outside the graph has no predecessor entry. A walk longer than `fuel` cells goes
round a cycle of predecessors, since it has more cells than the grid, and never ends. -/
def walkBack (g : Grid) (t : Costs) : Nat → Cell → List Cell → Except Fault (List Cell)
  | 0, _, _ => .error .endless
  | fuel + 1, p, acc =>
    if g.linked p then
      match t.pred.getD (g.index p) none with
      | some q => walkBack g t fuel q (p :: acc)
      | none => .ok (p :: acc)
    else .error .missingNode

/-- The shortest walk from `src` to `dst` by the predecessors of `src`'s costs, which are read
once; no cell at all gives an empty walk. -/
def shortestPath (src : Cell) (dst : Option Cell) : Play (List Cell) := do
  let t ← costs src
  match dst with
  | none => pure []
  | some d =>
    let g := (← get).grid
    match walkBack g t (g.size + 1) d [] with
    | .ok path => pure path
    | .error f => Play.fail f

/-- Ranking of the tour: pick the least-scored cell, then lower every other score to the
score through that cell, at most `limit` times. -/
def rank (g : Grid) (sd : Costs) : Nat → List (Cell × Score) → List (Cell × Score)
  | 0, _ => []
  | limit + 1, entries =>
    match firstLeast Score.lt entries with
    | none => []
    | some (c, s) =>
      let rest := (entries.filter fun e => e.1 != c).map fun (q, v) =>
        (q, Score.min v (Score.detour (sd.at g c) (sd.at g q)))
      (c, s) :: rank g sd limit rest

/-- The number of cells a tour holds at most. -/
def tourLimit : Nat := 15

/-- The tour from the player: remaining cells scored by the ratio of their distance from the
player to their distance from the node farthest from the player, then ranked. -/
def tour (order : SetOrder) : Play (List (Cell × Score)) := do
  let t0 ← costs (← get).current
  let g := (← get).grid
  match farthestNode g t0 with
  | none => Play.fail (.emptyChoice "max")
  | some f =>
    let _ ← costs f
    let b ← get
    let sd ← table b.current
    let inv ← table f
    let entries ← (order b.remaining).mapM fun q =>
      if g.linked q then pure (q, Score.quotient (sd.at g q) (inv.at g q))
      else Play.fail .missingNode
    pure (rank g sd tourLimit entries)

/-- Walk the tour from its first cell, planning again after each walk, while cells remain and
`fuel` lasts. Each cell is announced with the number of moves so far and its score. -/
def solveFrom (find : Finder) (order : SetOrder) : Nat → List (Cell × Score) → Play Unit
  | 0, _ => pure ()
  | fuel + 1, path => do
    if (← get).remaining.isEmpty then pure ()
    else
      match path with
      | [] => Play.fail .popEmpty
      | (c, s) :: rest =>
        let moves := (← get).moves.length
        Play.note (do pure ("Step " ++ toString moves ++ ": " ++ (← describe c) ++ " " ++ s.text))
        if (← get).isVisited c then solveFrom find order fuel rest
        else
          let _ ← goTo find c
          solveFrom find order fuel (← tour order)

/-- Eat every remaining cell along tours, walking with `find`. -/
def solve (find : Finder) (order : SetOrder) : Play Unit := do
  let path ← tour order
  let n := (← get).remaining.length
  solveFrom find order ((n + 1) * (tourLimit + 1)) path

/-- A choice of the greedy walk: why it was made, the cell, and whether it is printed as a
description (a neighbour) or as a bare cell. -/
structure Choice where
  action : String
  cell : Cell
  described : Bool

/-- Walk greedily while cells remain and `fuel` lasts, starting from the previous choice. -/
def greedyFrom (find : Finder) (order : SetOrder) : Nat → Option Choice → Play Unit
  | 0, _ => pure ()
  | fuel + 1, prev => do
    let b ← get
    if b.remaining.isEmpty then pure ()
    else
      let picked ← match b.freshNeighbours with
        | [] => pure prev
        | [q] => pure (some ⟨"1_neighbor", q, true⟩)
        | _ => do pure (some ⟨"fork_found", (← mostDistant order).1, false⟩)
      match picked with
      | none => Play.fail (.unassigned "next_position")
      | some ch =>
        let ch ← if ch.cell == b.current then do
            pure ⟨"no_neighbors", (← nearest order).1, false⟩
          else pure ch
        if ch.cell == (← get).current then greedyFrom find order fuel (some ch)
        else
          Play.note (do
            let shown ← if ch.described then describe ch.cell else pure (cellText ch.cell)
            pure ("Action: " ++ ch.action ++ " " ++ shown))
          let _ ← goTo find ch.cell
          greedyFrom find order fuel (some ch)

/-- Eat every remaining cell greedily, walking with `find`; the moves made. -/
def greedy (find : Finder) (order : SetOrder) : Play String := do
  greedyFrom find order ((← get).remaining.length + 1) none
  pure (← get).moves

/-- A solver whose first choice comes back as a pair where three values were expected; with
nothing remaining it gives the moves. -/
def dijkstra (order : SetOrder) : Play String := do
  if (← get).remaining.isEmpty then pure (← get).moves
  else
    let _ ← mostDistant order
    Play.fail (.tooFewValues 3 2)

end Board

end Lambdaman

end Interstellar
