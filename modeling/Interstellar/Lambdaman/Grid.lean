import Interstellar.Fault
import Interstellar.Lambdaman.Heap

/-!
# The lambdaman grid

A grid of characters in which `#` is a wall and every other character is open. Cells are
`(row, column)` pairs and are listed in row-major order everywhere.

* `Grid.adjacent p`: the open cells next to `p`, in the order up, down, left, right;
* `Grid.linked p`: whether `p` is open and has an open neighbour; the linked cells are the
  nodes of the grid's graph, whose edges join adjacent open cells;
* `Grid.distances src`: the number of steps from `src` to every cell, `Dist.inf` for the ones no
  steps reach, as a search with a heap finds them: the heap holds pairs of a distance and a
  cell, the least pair is taken out in every round, a cell already settled is passed over when
  it comes out again, and a settled cell offers each neighbour one step more;
* `Grid.predecessors d`: for each node, the last neighbour in row-major order that is one step
  nearer under the distances `d` (where one step beyond `inf` is still `inf`);
* `Grid.branchCount p`: how many cells a depth-first search from `p` enters, `p` aside.
-/

namespace Interstellar

namespace Lambdaman

/-- A cell of a grid: row and column. -/
abbrev Cell := Nat × Nat

/-- A number of steps, or `inf` for no way at all. -/
inductive Dist where
  | fin (n : Nat)
  | inf
  deriving Inhabited, DecidableEq

namespace Dist

/-- Adding a whole number of steps. -/
def add : Dist → Nat → Dist
  | .fin a, k => .fin (a + k)
  | .inf, _ => .inf

/-- Strict order, with `inf` above every number. -/
def lt : Dist → Dist → Bool
  | .fin a, .fin b => a < b
  | .fin _, .inf => true
  | .inf, _ => false

/-- Whether `a` is one step beyond `b`. -/
def isNext (a b : Dist) : Bool := a == b.add 1

/-- The sum of distances, `inf` as soon as one is. -/
def sum (ds : List Dist) : Dist := ds.foldl (fun acc d => match d with
  | .fin k => acc.add k
  | .inf => .inf) (.fin 0)

/-- How a distance is written: its digits, or `inf`. -/
def text : Dist → String
  | .fin n => toString n
  | .inf => "inf"

end Dist

/-- A grid of characters, every row exactly `width` long. -/
structure Grid where
  rows : Array (Array Char)
  width : Nat
  height : Nat
  deriving Inhabited

namespace Grid

/-- The grid of some rows: as wide as the first row, with longer rows cut to that width. There
must be a first row and no row may be shorter. -/
def ofRows (rows : List (List Char)) : Except Fault Grid :=
  match rows with
  | [] => .error (.indexOutOfRange "list")
  | first :: _ =>
    let w := first.length
    if rows.any (·.length < w) then .error (.indexOutOfRange "list")
    else .ok ⟨(rows.map fun r => (r.take w).toArray).toArray, w, rows.length⟩

/-- Whether `p` lies on the grid. -/
def contains (g : Grid) (p : Cell) : Bool := p.1 < g.height && p.2 < g.width

/-- The cell at integer coordinates, if it lies on the grid. -/
def cellAt? (g : Grid) (r c : Int) : Option Cell :=
  if 0 ≤ r ∧ 0 ≤ c ∧ g.contains (r.toNat, c.toNat) then some (r.toNat, c.toNat) else none

/-- The character of a cell. -/
def char (g : Grid) (p : Cell) : Char := (g.rows.getD p.1 #[]).getD p.2 ' '

/-- Whether `p` is a wall. -/
def isWall (g : Grid) (p : Cell) : Bool := g.char p == '#'

/-- Whether `p` lies on the grid and is not a wall. -/
def isOpen (g : Grid) (p : Cell) : Bool := g.contains p && !g.isWall p

/-- The open cells next to `p`: up, down, left, right. -/
def adjacent (g : Grid) (p : Cell) : List Cell :=
  let up := if p.1 = 0 then [] else [(p.1 - 1, p.2)]
  let left := if p.2 = 0 then [] else [(p.1, p.2 - 1)]
  (up ++ [(p.1 + 1, p.2)] ++ left ++ [(p.1, p.2 + 1)]).filter g.isOpen

/-- Whether `p` is a node of the graph: open with an open neighbour. -/
def linked (g : Grid) (p : Cell) : Bool := g.isOpen p && !(g.adjacent p).isEmpty

/-- Every cell, in row-major order. -/
def cells (g : Grid) : List Cell :=
  (List.range g.height).flatMap fun r => (List.range g.width).map fun c => (r, c)

/-- The nodes of the graph, in row-major order. -/
def nodes (g : Grid) : List Cell := g.cells.filter g.linked

/-- The place of a cell in row-major order. -/
def index (g : Grid) (p : Cell) : Nat := p.1 * g.width + p.2

/-- The number of cells. -/
def size (g : Grid) : Nat := g.width * g.height

/-- The order of the entries of a search's heap: by distance, then by cell, row first. -/
def entryLt (x y : Nat × Cell) : Bool :=
  x.1 < y.1 || x.1 == y.1 && (x.2.1 < y.2.1 || x.2.1 == y.2.1 && x.2.2 < y.2.2)

end Grid

/-- The state of a search for the distances from one cell: the distance found so far of every
cell and whether it is settled, by cell index, and the heap of the distances offered, each with
its cell. -/
structure Sweep where
  dist : Array Dist
  done : Array Bool
  heap : Array (Nat × Cell)
  deriving Inhabited

/-- What is left of a search: five for every cell not settled, since settling one pushes at
most four entries, and one for every entry of the heap. -/
def Sweep.left (s : Sweep) : Nat := 5 * s.done.count false + s.heap.size

namespace Grid

/-- Offer the cell `q` a way of `k + 1` steps: when it is shorter than the distance `q` has,
`q` takes it and enters the heap with it. -/
def relax (g : Grid) (k : Nat) (s : Sweep) (q : Cell) : Sweep :=
  if Dist.lt (.fin (k + 1)) (s.dist.getD (g.index q) .inf) then
    { s with dist := s.dist.set! (g.index q) (.fin (k + 1)),
             heap := Heap.push entryLt s.heap (k + 1, q) }
  else s

/-- One round of the search: the least entry leaves the heap; a cell settled before is passed
over, and any other is settled and offers each of its neighbours a way through it. -/
def settle (g : Grid) (s : Sweep) : Sweep :=
  let ((k, p), heap) := Heap.pop entryLt s.heap
  if s.done.getD (g.index p) true then { s with heap := heap }
  else (g.adjacent p).foldl (g.relax k) { s with done := s.done.set! (g.index p) true, heap := heap }

theorem length_adjacent_le (g : Grid) (p : Cell) : (g.adjacent p).length ≤ 4 := by
  unfold adjacent
  refine Nat.le_trans (List.length_filter_le _ _) ?_
  split <;> split <;> simp

theorem relax_done (g : Grid) (k : Nat) (s : Sweep) (q : Cell) : (g.relax k s q).done = s.done := by
  unfold relax
  split <;> rfl

theorem size_relax_le (g : Grid) (k : Nat) (s : Sweep) (q : Cell) :
    (g.relax k s q).heap.size ≤ s.heap.size + 1 := by
  unfold relax
  split <;> simp

theorem foldl_relax_done (g : Grid) (k : Nat) (qs : List Cell) (s : Sweep) :
    (qs.foldl (g.relax k) s).done = s.done := by
  induction qs generalizing s with
  | nil => rfl
  | cons q qs ih => rw [List.foldl_cons, ih, relax_done]

theorem size_foldl_relax_le (g : Grid) (k : Nat) (qs : List Cell) (s : Sweep) :
    (qs.foldl (g.relax k) s).heap.size ≤ s.heap.size + qs.length := by
  induction qs generalizing s with
  | nil => simp
  | cons q qs ih =>
    have := size_relax_le g k s q
    have := ih (g.relax k s q)
    simp only [List.foldl_cons, List.length_cons]
    omega

/-- Every round leaves less to do: the heap loses its least entry, and settling a cell, which
pushes at most one entry for each of its four neighbours, takes five off. -/
theorem left_settle_lt (g : Grid) {s : Sweep} (h : s.heap ≠ #[]) : (g.settle s).left < s.left := by
  have hpos : 0 < s.heap.size := Array.size_pos_iff.2 h
  have hpop := Heap.size_pop entryLt s.heap
  unfold settle Sweep.left
  split
  · rename_i k p heap hp
    rw [hp] at hpop
    simp only at hpop
    split
    · simp only
      omega
    · rename_i hnot
      have hsize := size_foldl_relax_le g k (g.adjacent p)
        { s with done := s.done.set! (g.index p) true, heap := heap }
      have hadj := length_adjacent_le g p
      rw [foldl_relax_done]
      -- the cell was not settled, so the count of cells not settled drops by one
      have hi : g.index p < s.done.size := by
        refine Nat.lt_of_not_le fun hge => hnot ?_
        simp [Array.getD_eq_getD_getElem?, hge]
      have hfalse : s.done[g.index p] = false := by
        simpa [Array.getD_eq_getD_getElem?, hi] using hnot
      have hcount : (s.done.set! (g.index p) true).count false = s.done.count false - 1 := by
        rw [Array.set!_eq_setIfInBounds, Array.setIfInBounds_def, dif_pos hi, Array.count_set hi]
        simp [hfalse]
      have hpos' : 0 < s.done.count false :=
        Array.count_pos_iff.2 (by rw [← hfalse]; exact Array.getElem_mem hi)
      simp only at hsize ⊢
      omega

/-- Settle rounds until the heap is empty; the distances found. -/
def sweep (g : Grid) (s : Sweep) : Array Dist :=
  if _h : s.heap.isEmpty then s.dist else g.sweep (g.settle s)
termination_by s.left
decreasing_by exact g.left_settle_lt (by simpa using _h)

/-- The distances from `src` to every cell, by cell index, as a search with a heap finds them:
every cell starts at `inf`, `src` at `0`, and the heap holds `src` at `0`. -/
def distances (g : Grid) (src : Cell) : Array Dist :=
  g.sweep ⟨(Array.replicate g.size .inf).set! (g.index src) (.fin 0),
    Array.replicate g.size false, #[(0, src)]⟩

/-- The last neighbour of `p`, in row-major order, one step nearer than `p` under `d`. -/
def predecessor (g : Grid) (d : Array Dist) (p : Cell) : Option Cell :=
  (g.adjacent p).foldl (fun best q =>
    if (d.getD (g.index p) .inf).isNext (d.getD (g.index q) .inf) then
      match best with
      | some b => if g.index b < g.index q then some q else some b
      | none => some q
    else best) none

/-- The predecessor of every node under the distances `d`, by cell index. -/
def predecessors (g : Grid) (d : Array Dist) : Array (Option Cell) :=
  (g.cells.map fun p => if g.linked p then g.predecessor d p else none).toArray

/-- The depth-first search from `p`, which counts the cells it enters: `p` is marked, then each
neighbour in turn that is not marked yet is counted and searched from. The marks and the count
are shared by all the searches, so a cell that one marks the rest pass over. A search nested
`fuel` deep stops at once; none from a cell of the grid nests that deep, since each nested
search marks one more cell. -/
def dfs (g : Grid) : Nat → Cell → Array Bool × Nat → Array Bool × Nat
  | 0, _, st => st
  | fuel + 1, p, (seen, count) =>
    (g.adjacent p).foldl (fun (seen, count) q =>
      if seen.getD (g.index q) false then (seen, count)
      else g.dfs fuel q (seen, count + 1)) (seen.set! (g.index p) true, count)

/-- How many cells other than `p` the depth-first search from `p` counts; `p` is marked before
the search starts. -/
def branchCount (g : Grid) (p : Cell) : Nat :=
  (g.dfs (g.size + 1) p ((Array.replicate g.size false).set! (g.index p) true, 0)).2

end Grid

end Lambdaman

end Interstellar
