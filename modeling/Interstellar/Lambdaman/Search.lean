import Interstellar.Lambdaman.Grid
import Interstellar.Lambdaman.Heap

/-!
# Best-first search toward a cell

The path finder the programs walk with (`Board.goTo` takes any): a best-first search in which
each cell reached has a cost (steps from the start) and an estimate (the cost plus the
straight-line distance to the goal), and the cell with the least estimate is expanded next.

Which walk comes out when several are shortest depends on the order of the open cells, so the
open cells are kept in a binary heap (`Interstellar.Heap`) ordered by estimate, with one
addition: a cell whose cost drops while it is open is taken out of the array where it stands,
the cells after it closing the gap, and pushed again. Taking it out this way can leave the
array out of heap order, and later pushes and pops work on it as it is.

Estimates are sums `g + √d` of a whole cost and the square root of a whole squared distance,
compared exactly (`rootSumLt`), so no rounding enters the order.

* `Grid.search src dst`: the walk from `src` to `dst`, both ends included, or `none` when `dst`
  cannot be reached.
-/

namespace Interstellar

namespace Lambdaman

/-- Whether `a + √p < b + √q`, decided with whole numbers only: both sides are squared once the
signs allow it. -/
def rootSumLt (a p b q : Nat) : Bool :=
  let c : Int := (b : Int) - a
  if 0 ≤ c then
    let m : Int := (p : Int) - c * c - q
    if m < 0 then true else m * m < 4 * c * c * q
  else
    let m : Int := (q : Int) - p - c * c
    if m ≤ 0 then false else 4 * c * c * p < m * m

/-- What the search knows of one cell. -/
structure Mark where
  /-- The fewest steps from the start found so far; `none` before the cell is reached. -/
  cost : Option Nat := none
  /-- The cell it was reached from. -/
  came : Option Cell := none
  /-- Whether it has been expanded. -/
  closed : Bool := false
  /-- Whether it stands in the frontier. -/
  waiting : Bool := false
  deriving Inhabited

/-- The state of a search toward `goal`: a mark per cell (by cell index) and the frontier, an
array in heap order. -/
structure Frontier where
  grid : Grid
  goal : Cell
  marks : Array Mark
  heap : Array Cell

namespace Frontier

/-- The mark of a cell. -/
def mark (s : Frontier) (p : Cell) : Mark := s.marks.getD (s.grid.index p) {}

/-- The squared distance from a cell to the goal. -/
def gap (s : Frontier) (p : Cell) : Nat :=
  let dr := (p.1 : Int) - s.goal.1
  let dc := (p.2 : Int) - s.goal.2
  (dr * dr + dc * dc).toNat

/-- Whether the estimate of `p` is strictly below that of `q`. -/
def before (s : Frontier) (p q : Cell) : Bool :=
  rootSumLt ((s.mark p).cost.getD 0) (s.gap p) ((s.mark q).cost.getD 0) (s.gap q)

/-- Put a cell into the frontier. -/
def push (s : Frontier) (p : Cell) : Frontier := { s with heap := Heap.push s.before s.heap p }

/-- Take the cell of least estimate out of a frontier that is not empty. -/
def pop (s : Frontier) : Cell × Frontier :=
  let (top, heap) := Heap.pop s.before s.heap
  (top, { s with heap := heap })

/-- Take a cell out of the heap array where it stands, closing the gap. -/
def remove (s : Frontier) (p : Cell) : Frontier :=
  match s.heap.findIdx? (· == p) with
  | some i => { s with heap := s.heap.eraseIdx! i }
  | none => s

/-- Change the mark of a cell. -/
def setMark (s : Frontier) (p : Cell) (f : Mark → Mark) : Frontier :=
  { s with marks := s.marks.modify (s.grid.index p) f }

/-- Offer the neighbour `q` a way through `p`, which costs `cost` steps: taken when it is
cheaper than what `q` has. -/
def offer (s : Frontier) (p : Cell) (cost : Nat) (q : Cell) : Frontier :=
  let m := s.mark q
  if m.closed then s
  else if (m.cost.map fun c => decide (c ≤ cost + 1)).getD false then s
  else
    let s := s.setMark q fun m => { m with came := some p, cost := some (cost + 1) }
    if m.waiting then (s.remove q).push q
    else (s.setMark q fun m => { m with waiting := true }).push q

/-- The walk that ends at `p`, back along the cells each was reached from, at most `fuel`
cells long. -/
def walkTo (s : Frontier) : Nat → Cell → List Cell → List Cell
  | 0, _, acc => acc
  | fuel + 1, p, acc =>
    match (s.mark p).came with
    | some q => s.walkTo fuel q (p :: acc)
    | none => p :: acc

/-- Expand cells until the goal comes out of the frontier, at most `fuel` of them. -/
def run (s : Frontier) : Nat → Option (List Cell)
  | 0 => none
  | fuel + 1 =>
    if s.heap.isEmpty then none
    else
      let (p, s) := s.pop
      if p == s.goal then some (s.walkTo (s.grid.size + 1) p [])
      else
        let s := s.setMark p fun m => { m with closed := true, waiting := false }
        let cost := (s.mark p).cost.getD 0
        let s := (s.grid.adjacent p).foldl (fun s q => s.offer p cost q) s
        s.run fuel

end Frontier

/-- The walk the best-first search finds from `src` to `dst`, both ends included; `none` when
`dst` cannot be reached. -/
def Grid.search (g : Grid) (src dst : Cell) : Option (List Cell) :=
  if src = dst then some [src]
  else
    let marks := (Array.replicate g.size ({} : Mark)).modify (g.index src)
      fun m => { m with cost := some 0 }
    let s : Frontier := { grid := g, goal := dst, marks := marks, heap := #[] }
    (s.push src).run (g.size * g.size + 1)

end Lambdaman

end Interstellar
