import Interstellar.Proofs.Dijkstra
import Interstellar.Proofs.Solve

/-!
# Worn costs

The costs of a cell are computed at their first read and kept; every read, the first included,
then adds each visited cell's visits to that cell's distance in the kept table. So the distances
a read returns are the true distances plus the visits counted once per read so far, and two
reads with no step between them differ wherever a visited cell has been stepped on.

* `Board.cached b p`: the costs of `p` as the last read left them, or the distances from `p` and
  the predecessors along them before any read;
* `Board.weight b q`: what one read adds to the distance of `q`: its visits when it is visited;
* `Board.run_costs`: one read, on a board whose visited cells are nodes of the graph, adds the
  weights to the cached distances, keeps the predecessors, and stores the result;
* `Board.cached_fresh`: steps read no costs, so until the first read the cached costs of a node
  are the distances of a search from it;
* `Board.costs_reads_accumulate`: on a board reached by steps from a start that is a node, the
  `k + 1`-th read in a row gives each node its distance from the cell read plus `k + 1` times
  its weight.
-/

namespace Interstellar

namespace Lambdaman

namespace Dist

@[simp] theorem add_zero (x : Dist) : x.add 0 = x := by
  cases x <;> rfl

theorem add_add (x : Dist) (a b : Nat) : (x.add a).add b = x.add (a + b) := by
  cases x
  · simp only [add, Nat.add_assoc]
  · rfl

end Dist

/-- Adding to the distance at index `i` changes no other index, also when `i` is past the end,
where the distance is `inf` and stays so. -/
theorem Array.getD_set!_add {d : Array Dist} {i j w : Nat} :
    (d.set! i ((d.getD i .inf).add w)).getD j .inf =
      if i = j then (d.getD i .inf).add w else d.getD j .inf := by
  by_cases hi : i < d.size
  · exact Array.getD_set!_of_lt hi
  · rw [Array.set!_eq_setIfInBounds, Array.setIfInBounds_eq_of_size_le (Nat.le_of_not_lt hi)]
    split
    · rename_i he
      subst he
      have hinf : d.getD i .inf = .inf := by
        simp [Array.getD_eq_getD_getElem?, Array.getElem?_eq_none (Nat.le_of_not_lt hi)]
      rw [hinf]
      rfl
    · rfl

namespace Grid

variable {g : Grid} {p q : Cell}

theorem isOpen_of_linked (h : g.linked p) : g.isOpen p := by
  simp only [linked, Bool.and_eq_true] at h
  exact h.1

theorem linked_of_mem_adjacent (hp : g.isOpen p) (hq : q ∈ g.adjacent p) : g.linked p := by
  simp [linked, hp, List.ne_nil_of_mem hq]

theorem exists_mem_adjacent_of_linked (h : g.linked p) : ∃ q, q ∈ g.adjacent p := by
  simp only [linked, Bool.and_eq_true, Bool.not_eq_true', List.isEmpty_eq_false_iff] at h
  exact List.exists_mem_of_ne_nil _ h.2

end Grid

namespace Board

variable {b : Board} {p q : Cell}

/-- The costs of `p` as the last read left them; before any read, the distances from `p` and
the predecessors along them. -/
def cached (b : Board) (p : Cell) : Costs :=
  (b.tables.getD (b.grid.index p) none).getD
    ⟨b.grid.distances p, b.grid.predecessors (b.grid.distances p)⟩

/-- What one read adds to the distance of a cell: its visits when it is visited. -/
def weight (b : Board) (q : Cell) : Nat := if b.isVisited q then b.visitsOf q else 0

theorem Retabled.weight {b' : Board} (h : Retabled b b') : b'.weight = b.weight := by
  obtain ⟨t, rfl⟩ := h
  rfl

/-- The first read computes the costs of a node; later reads find them. -/
theorem run_table (hp : b.grid.linked p) : (table p).run b = pure (b.cached p, b) := by
  unfold table cached
  simp only [StateT.run_bind, StateT.run_get, pure_bind]
  cases b.tables.getD (b.grid.index p) none with
  | some t => rfl
  | none => simp [hp]

/-- Wearing one cell: a visited node's distance grows by its visits, and a visited cell outside
the graph has no distance to wear. -/
def wearStep (b : Board) (d : Array Dist) (q : Cell) : Except Fault (Array Dist) :=
  if b.isVisited q then
    if b.grid.linked q then
      .ok (d.set! (b.grid.index q) ((d.getD (b.grid.index q) .inf).add (b.visitsOf q)))
    else .error (.missing (.pair q.1 q.2))
  else .ok d

theorem wear_eq_foldlM (d : Array Dist) : b.wear d = b.grid.cells.foldlM b.wearStep d := rfl

/-- One cell worn adds its weight to its own distance and to no other. -/
theorem wearStep_eq (hv : b.isVisited q → b.grid.linked q) (hq : b.grid.contains q)
    (d : Array Dist) : ∃ d₁, b.wearStep d q = .ok d₁ ∧ ∀ r, b.grid.contains r →
      d₁.getD (b.grid.index r) .inf =
        (d.getD (b.grid.index r) .inf).add (if r = q then b.weight q else 0) := by
  by_cases hvq : b.isVisited q
  · refine ⟨_, by rw [wearStep, if_pos hvq, if_pos (hv hvq)], fun r hr => ?_⟩
    rw [Array.getD_set!_add]
    by_cases he : r = q
    · subst he
      simp [weight, hvq]
    · have hidx : b.grid.index q ≠ b.grid.index r := fun hi => he (Grid.index_injOn hq hr hi).symm
      simp [hidx, he]
  · exact ⟨d, by rw [wearStep, if_neg hvq], fun r _ => by by_cases he : r = q <;> simp [he, weight, hvq]⟩

/-- Wearing adds each cell's weight to its distance, once, when every visited cell of the grid
is a node. -/
theorem wear_eq (hv : ∀ q, b.grid.contains q → b.isVisited q → b.grid.linked q) (d : Array Dist) :
    ∃ d', b.wear d = .ok d' ∧ ∀ q, b.grid.contains q →
      d'.getD (b.grid.index q) .inf = (d.getD (b.grid.index q) .inf).add (b.weight q) := by
  -- each cell of the list is worn once: the cells are distinct
  suffices h : ∀ L : List Cell, L.Nodup → (∀ q ∈ L, b.grid.contains q) → ∀ d : Array Dist,
      ∃ d', L.foldlM b.wearStep d = .ok d' ∧ ∀ q, b.grid.contains q →
          d'.getD (b.grid.index q) .inf =
            (d.getD (b.grid.index q) .inf).add (if q ∈ L then b.weight q else 0) by
    obtain ⟨d', hd', hget⟩ := h _ (Grid.nodup_cells _) (fun q hq => Grid.mem_cells.1 hq) d
    exact ⟨d', hd', fun q hq => by rw [hget q hq, if_pos (Grid.mem_cells.2 hq)]⟩
  intro L hL hc
  induction L with
  | nil => exact fun d => ⟨d, rfl, fun _ _ => by simp⟩
  | cons r L ih =>
    intro d
    obtain ⟨hrL, hL'⟩ := List.nodup_cons.1 hL
    have hr := hc r List.mem_cons_self
    obtain ⟨d₁, hd₁, hget₁⟩ := wearStep_eq (hv r hr) hr d
    obtain ⟨d', hd', hget⟩ := ih hL' (fun q hq => hc q (List.mem_cons_of_mem r hq)) d₁
    refine ⟨d', by rw [List.foldlM_cons, hd₁]; exact hd', fun q hq => ?_⟩
    rw [hget q hq, hget₁ q hq, Dist.add_add]
    by_cases he : q = r
    · subst he
      simp [hrL]
    · simp [he]

/-- **One read of the costs.** On a board whose visited cells are nodes, reading the costs of a
node adds every cell's weight to the distances it had cached, keeps the predecessors, and
stores the result as the costs of that node; nothing else changes and nothing is printed. -/
theorem run_costs (hv : ∀ q, b.grid.contains q → b.isVisited q → b.grid.linked q)
    (hp : b.grid.linked p) :
    ∃ d', (∀ q, b.grid.contains q →
        d'.getD (b.grid.index q) .inf = ((b.cached p).at b.grid q).add (b.weight q)) ∧
      (costs p).run b = pure (⟨d', (b.cached p).pred⟩,
        { b with tables := b.tables.set! (b.grid.index p) (some ⟨d', (b.cached p).pred⟩) }) := by
  obtain ⟨d', hd', hget⟩ := wear_eq hv (b.cached p).dist
  refine ⟨d', hget, ?_⟩
  unfold costs
  simp only [StateT.run_bind, run_table hp, pure_bind, StateT.run_get, hd']
  rfl

/-- After a read, the cached costs of the node read are what the read gave. -/
theorem cached_retable (ht : b.grid.index p < b.tables.size) (t : Costs) :
    ({ b with tables := b.tables.set! (b.grid.index p) (some t) } : Board).cached p = t := by
  simp only [cached]
  rw [Array.getD_set!_of_lt ht, if_pos rfl]
  rfl

/-- Read the costs of `p` `k + 1` times in a row; the costs the last read gives. -/
def rereadCosts (p : Cell) : Nat → Play Costs
  | 0 => costs p
  | k + 1 => do
    let _ ← costs p
    rereadCosts p k

/-- Reads with no step between them add the weights once per read. -/
theorem run_rereadCosts (hv : ∀ q, b.grid.contains q → b.isVisited q → b.grid.linked q)
    (hp : b.grid.linked p) (ht : b.grid.index p < b.tables.size) (k : Nat) :
    ∃ t b', (rereadCosts p k).run b = pure (t, b') ∧ ∀ q, b.grid.contains q →
      t.at b.grid q = ((b.cached p).at b.grid q).add ((k + 1) * b.weight q) := by
  induction k generalizing b with
  | zero =>
    obtain ⟨d', hget, hrun⟩ := run_costs hv hp
    exact ⟨_, _, hrun, fun q hq => by simpa [Costs.at] using hget q hq⟩
  | succ k ih =>
    obtain ⟨d₁, hget₁, hrun₁⟩ := run_costs hv hp
    -- the later reads start from the costs the first one stored
    let b₁ : Board :=
      { b with tables := b.tables.set! (b.grid.index p) (some ⟨d₁, (b.cached p).pred⟩) }
    obtain ⟨t, b', hrun, hget⟩ := ih (b := b₁) hv hp (by simpa [b₁] using ht)
    refine ⟨t, b', ?_, fun q hq => ?_⟩
    · simp only [rereadCosts, StateT.run_bind, hrun₁, pure_bind]
      exact hrun
    · have h₂ : t.at b.grid q = ((b₁.cached p).at b.grid q).add ((k + 1) * b.weight q) :=
        hget q hq
      rw [h₂, cached_retable ht]
      change (d₁.getD (b.grid.index q) .inf).add _ = _
      rw [hget₁ q hq, Dist.add_add, Nat.succ_mul (k + 1), Nat.add_comm (b.weight q)]

/-- A step onto an open cell enters a neighbour of the player. -/
theorem mem_adjacent_of_aims {g : Grid} {here p : Cell} {dir : String} (ha : Aims here dir p)
    (hp : g.isOpen p) : p ∈ g.adjacent here := by
  obtain ⟨r, c⟩ := here
  refine Grid.mem_adjacent.2 ⟨hp, ?_⟩
  rcases ha with ⟨-, h0, rfl⟩ | ⟨-, rfl⟩ | ⟨-, h0, rfl⟩ | ⟨-, rfl⟩ <;> simp_all

/-- A step enters a neighbour of the player, which is then a node of the graph. -/
theorem linked_of_aims {g : Grid} {here p : Cell} {dir : String} (hh : g.isOpen here)
    (ha : Aims here dir p) (hp : g.isOpen p) : g.linked p :=
  Grid.linked_of_mem_adjacent hp (Grid.mem_adjacent_comm (mem_adjacent_of_aims ha hp) hh)

/-- Along a walk from a board whose visited cells are nodes, the visited cells stay nodes. -/
theorem linked_of_isVisited_walk (hb : b.Fit)
    (hv : ∀ q, b.grid.contains q → b.isVisited q → b.grid.linked q) (dirs : List String) :
    ∀ q, b.grid.contains q → (b.walk dirs).isVisited q → b.grid.linked q := by
  induction dirs generalizing b with
  | nil => exact hv
  | cons dir dirs ih =>
    rcases walk_cons b dir dirs with ⟨-, hw, -⟩ | ⟨p, ha, hp, hw, -⟩
    · rw [hw]
      exact ih hb hv
    · rw [hw]
      have hpl := linked_of_aims hb.current ha hp
      refine ih (hb.enter dir hp) (fun q hq hvq => ?_)
      rcases (isVisited_enter hb.sized (Grid.contains_of_isOpen hp) hq).1 hvq with hvq | rfl
      · exact hv q hq hvq
      · exact hpl

section Fresh

variable {g : Grid} {start : Cell} (number : Int) (animate : Bool) (dirs : List String)

/-- On a board reached by steps from a start that is a node, the visited cells are nodes: the
start, and cells entered from a neighbour. -/
theorem linked_of_isVisited_fresh (hstart : g.linked start) :
    ∀ q, ((create g start number animate).walk dirs).grid.contains q →
      ((create g start number animate).walk dirs).isVisited q →
      ((create g start number animate).walk dirs).grid.linked q := by
  have hs := Grid.isOpen_of_linked hstart
  rw [walk_grid]
  refine linked_of_isVisited_walk (fit_create hs number animate) (fun q hq hvq => ?_) dirs
  rw [(isVisited_create (Grid.contains_of_isOpen hs) hq).1 hvq]
  exact hstart

/-- Steps read no costs: before the first read, the cached costs are the distances and the
predecessors along them. -/
theorem cached_fresh (p : Cell) :
    ((create g start number animate).walk dirs).cached p =
      ⟨g.distances p, g.predecessors (g.distances p)⟩ := by
  rw [cached, walk_tables, walk_grid]
  show ((Array.replicate g.size none).getD (g.index p) none).getD _ = _
  rw [Array.getD_replicate]
  rfl

/-- **Reading the costs again wears them again.** On a board reached by steps from a start that
is a node of the graph: one read of the costs of a node `p` adds every cell's weight to what the
previous read of `p` gave, or to the distances from `p` at the first read, keeps the
predecessors, and stores the result; so the `k + 1`-th read in a row gives each cell of the grid
its distance from `p` plus `k + 1` times its weight, `inf` when no steps reach it. -/
theorem costs_reads_accumulate {g : Grid} {start : Cell} (hstart : g.linked start)
    (number : Int) (animate : Bool) (dirs : List String) {p : Cell} (hp : g.linked p) :
    let b := (create g start number animate).walk dirs
    (∀ b' : Board, Retabled b b' → ∃ d', (costs p).run b' =
        pure (⟨d', (b'.cached p).pred⟩,
          { b' with tables := b'.tables.set! (g.index p) (some ⟨d', (b'.cached p).pred⟩) }) ∧
        ∀ q, g.contains q → d'.getD (g.index q) .inf = ((b'.cached p).at g q).add (b.weight q)) ∧
    ∀ k, ∃ t b', (rereadCosts p k).run b = pure (t, b') ∧ ∀ q, g.contains q →
      (∀ n, g.IsDist p q n → t.at g q = .fin (n + (k + 1) * b.weight q)) ∧
      ((∀ n, ¬ g.Steps p q n) → t.at g q = .inf) := by
  intro b
  have hgrid : b.grid = g := walk_grid _ dirs
  have hv := linked_of_isVisited_fresh number animate dirs hstart
  have hpm : g.contains p := Grid.contains_of_isOpen (Grid.isOpen_of_linked hp)
  refine ⟨fun b' hre => ?_, fun k => ?_⟩
  · have hg' : b'.grid = g := hre.grid.trans hgrid
    obtain ⟨d', hget, hrun⟩ := run_costs (b := b') (by rw [hre.grid, hre.isVisited]; exact hv)
      (by rw [hg']; exact hp)
    refine ⟨d', by rw [hrun, hg'], fun q hq => ?_⟩
    rw [← hre.weight, ← hg']
    exact hget q (hg' ▸ hq)
  · have ht : b.grid.index p < b.tables.size := by
      rw [walk_tables, hgrid]
      simpa [create] using Grid.index_lt_size hpm
    obtain ⟨t, b', hrun, hget⟩ := run_rereadCosts hv (by rw [hgrid]; exact hp) ht k
    have hc : b.cached p = ⟨g.distances p, g.predecessors (g.distances p)⟩ :=
      cached_fresh number animate dirs p
    -- the first read starts from the distances from `p`
    have hat : ∀ q, g.contains q →
        t.at g q = ((g.distances p).getD (g.index q) .inf).add ((k + 1) * b.weight q) := by
      intro q hq
      have := hget q (by rw [hgrid]; exact hq)
      rw [hc, hgrid] at this
      exact this
    refine ⟨t, b', hrun, fun q hq => ⟨fun n hn => ?_, fun hn => ?_⟩⟩
    · rw [hat q hq, (Grid.distances_eq_fin_iff hpm hq n).2 hn]
      rfl
    · rw [hat q hq, (Grid.distances_eq_inf_iff hpm hq).2 hn]
      rfl

/-- On a row of three cells, after one step right from the left end, the second read of the
left end's costs puts the middle cell, one step away and stepped on once, at `1 + 2 * 1`. -/
theorem costs_reads_accumulate_row :
    let g : Grid := ⟨#[#['.', '.', '.']], 3, 1⟩
    ∃ t b', (rereadCosts (0, 0) 1).run ((create g (0, 0) 0 false).walk ["R"]) = pure (t, b') ∧
      t.at g (0, 1) = .fin 3 := by
  intro g
  obtain ⟨-, hreads⟩ := costs_reads_accumulate (g := g) (by decide : g.linked (0, 0)) 0 false
    ["R"] (by decide : g.linked (0, 0))
  obtain ⟨t, b', hrun, hget⟩ := hreads 1
  have hw : ((create g (0, 0) 0 false).walk ["R"]).weight (0, 1) = 1 := by decide
  have hd : g.IsDist (0, 0) (0, 1) 1 := Grid.isDist_one (by decide)
  refine ⟨t, b', hrun, ?_⟩
  rw [(hget (0, 1) (by decide)).1 1 hd, hw]

/-- Two reads of the same costs with no step between them differ: on that row the middle cell is
at `2` at the first read and at `3` at the second. -/
theorem costs_read_twice_differs :
    let g : Grid := ⟨#[#['.', '.', '.']], 3, 1⟩
    ∃ t₁ b₁ t₂ b₂, (costs (0, 0)).run ((create g (0, 0) 0 false).walk ["R"]) = pure (t₁, b₁) ∧
      (costs (0, 0)).run b₁ = pure (t₂, b₂) ∧ t₁.at g (0, 1) = .fin 2 ∧ t₂.at g (0, 1) = .fin 3 := by
  intro g
  let b := (create g (0, 0) 0 false).walk ["R"]
  have hgrid : b.grid = g := walk_grid _ _
  have hv := linked_of_isVisited_fresh (g := g) 0 false ["R"] (by decide : g.linked (0, 0))
  have hp : b.grid.linked (0, 0) := by rw [hgrid]; decide
  have hq : b.grid.contains (0, 1) := by rw [hgrid]; decide
  have hw : b.weight (0, 1) = 1 := by decide
  -- before any read the middle cell is one step away
  have hd : (b.cached (0, 0)).at b.grid (0, 1) = .fin 1 := by
    rw [cached_fresh, hgrid]
    exact (Grid.distances_eq_fin_iff (by decide) (by decide) 1).2 (Grid.isDist_one (by decide))
  obtain ⟨d₁, hget₁, hrun₁⟩ := run_costs hv hp
  let b₁ : Board :=
    { b with tables := b.tables.set! (b.grid.index (0, 0)) (some ⟨d₁, (b.cached (0, 0)).pred⟩) }
  obtain ⟨d₂, hget₂, hrun₂⟩ := run_costs (b := b₁) hv hp
  have hfirst : d₁.getD (b.grid.index (0, 1)) .inf = .fin 2 := by
    rw [hget₁ _ hq, hd, hw]
    rfl
  refine ⟨_, _, _, _, hrun₁, hrun₂, ?_, ?_⟩
  · rw [← hgrid]
    exact hfirst
  · -- the second read starts from what the first one stored
    have ht : b.grid.index (0, 0) < b.tables.size := by
      rw [walk_tables, hgrid]
      decide
    show d₂.getD (g.index (0, 1)) .inf = .fin 3
    rw [← hgrid, hget₂ _ hq, cached_retable ht]
    change (d₁.getD (b.grid.index (0, 1)) .inf).add (b.weight (0, 1)) = _
    rw [hfirst, hw]
    rfl

end Fresh

end Board

end Lambdaman

end Interstellar
