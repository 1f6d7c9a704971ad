import Interstellar.Proofs.Wear

/-!
# Shortest walks along predecessors

The predecessors of a search from `s` give each cell the last of its neighbours, in row-major
order, one step nearer under the distances. `shortestPath` walks back along them from the target.

* `Grid.predecessors_distances_source`, `Grid.predecessors_distances_succ`: the source has no
  predecessor, and a cell at distance `n + 1` has a neighbour at distance `n` as predecessor;
* `Grid.predecessors_distances_unreachable`: a node that no steps reach has a node that no steps
  reach as predecessor, since `inf` is one step beyond `inf`;
* `Board.walkBack_of_isDist`, `Board.walkBack_endless`: the walk back from a reachable cell is a
  shortest walk from the source; from an unreachable node it goes round for ever;
* `Board.shortest_paths_by_predecessors`: on a board reached by steps from a start that is a
  node, all of these together for the costs of a node `s` and `shortestPath` from it.
-/

namespace Interstellar

namespace Lambdaman

namespace Dist

theorem isNext_iff {a b : Dist} : a.isNext b ↔ a = b.add 1 := by
  simp [isNext]

theorem not_isNext_zero (b : Dist) : ¬ (Dist.fin 0).isNext b := by
  cases b <;> simp [isNext_iff, add]

theorem isNext_succ_iff {n : Nat} {b : Dist} : (Dist.fin (n + 1)).isNext b ↔ b = .fin n := by
  cases b with
  | fin k =>
    simp only [isNext_iff, add, Dist.fin.injEq]
    omega
  | inf => simp [isNext_iff, add]

/-- The quirk the walk back trips on: `inf` is one step beyond `inf`. -/
theorem isNext_inf_inf : Dist.inf.isNext .inf := by
  simp [isNext_iff, add]

end Dist

namespace Grid

variable {g : Grid} {d : Array Dist} {p q : Cell}

/-! ### The cell list and the predecessor table -/

theorem cells_height_succ (g : Grid) (h : Nat) :
    ({ g with height := h + 1 } : Grid).cells =
      ({ g with height := h } : Grid).cells ++ (List.range g.width).map fun c => (h, c) := by
  simp [cells, List.range_succ]

/-- A cell of the grid stands at its index in the cell list. -/
theorem getElem?_cells (hp : g.contains p) : g.cells[g.index p]? = some p := by
  obtain ⟨r, c⟩ := p
  obtain ⟨hr, hc⟩ := contains_iff.1 hp
  -- the first `h` rows, for every `h` past row `r`
  suffices H : ∀ h, r < h → ({ g with height := h } : Grid).cells[g.index (r, c)]? = some (r, c)
    from H g.height hr
  intro h
  induction h with
  | zero => intro h0; omega
  | succ h ih =>
    intro hrh
    have hlen : ({ g with height := h } : Grid).cells.length = h * g.width := by
      rw [length_cells, size, Nat.mul_comm]
    rw [cells_height_succ]
    rcases Nat.lt_or_ge r h with hlt | hge
    · have hidx : g.index (r, c) < h * g.width := calc
        r * g.width + c < (r + 1) * g.width := by rw [Nat.succ_mul]; omega
        _ ≤ h * g.width := Nat.mul_le_mul_right _ hlt
      rw [List.getElem?_append_left (by rw [hlen]; exact hidx)]
      exact ih hlt
    · obtain rfl : r = h := by omega
      rw [List.getElem?_append_right (by rw [hlen]; simp [index]), hlen]
      simp [index, hc]

theorem predecessors_getD (hp : g.contains p) :
    (g.predecessors d).getD (g.index p) none = if g.linked p then g.predecessor d p else none := by
  rw [predecessors, Array.getD_eq_getD_getElem?, List.getElem?_toArray, List.getElem?_map,
    getElem?_cells hp]
  rfl

/-! ### The predecessor fold -/

/-- One neighbour offered to the predecessor fold: kept when one step nearer than `p` and later
in row-major order than the best so far. -/
def pick (g : Grid) (d : Array Dist) (p : Cell) (best : Option Cell) (q : Cell) : Option Cell :=
  if (d.getD (g.index p) .inf).isNext (d.getD (g.index q) .inf) then
    match best with
    | some b => if g.index b < g.index q then some q else some b
    | none => some q
  else best

theorem predecessor_eq_foldl : g.predecessor d p = (g.adjacent p).foldl (g.pick d p) none := rfl

theorem pick_eq_some {best : Option Cell} {r : Cell} (h : g.pick d p best q = some r) :
    best = some r ∨ r = q ∧ (d.getD (g.index p) .inf).isNext (d.getD (g.index q) .inf) := by
  unfold pick at h
  split at h
  · rename_i hn
    rcases best with _ | b
    · exact .inr ⟨(Option.some.inj h).symm, hn⟩
    · simp only at h
      split at h
      · exact .inr ⟨(Option.some.inj h).symm, hn⟩
      · exact .inl h
  · exact .inl h

theorem isSome_pick {best : Option Cell}
    (h : best.isSome ∨ (d.getD (g.index p) .inf).isNext (d.getD (g.index q) .inf)) :
    (g.pick d p best q).isSome := by
  unfold pick
  split
  · rcases best with _ | b
    · rfl
    · simp only
      split <;> rfl
  · rename_i hn
    exact h.resolve_right hn

theorem foldl_pick_eq_some {L : List Cell} {init : Option Cell} {r : Cell}
    (h : L.foldl (g.pick d p) init = some r) :
    init = some r ∨ r ∈ L ∧ (d.getD (g.index p) .inf).isNext (d.getD (g.index r) .inf) := by
  induction L generalizing init with
  | nil => exact .inl h
  | cons q L ih =>
    rcases ih h with h₁ | ⟨hr, hn⟩
    · rcases pick_eq_some h₁ with h₂ | ⟨rfl, hn⟩
      · exact .inl h₂
      · exact .inr ⟨List.mem_cons_self, hn⟩
    · exact .inr ⟨List.mem_cons_of_mem q hr, hn⟩

theorem isSome_foldl_pick {L : List Cell} {init : Option Cell}
    (h : init.isSome ∨ ∃ q ∈ L, (d.getD (g.index p) .inf).isNext (d.getD (g.index q) .inf)) :
    (L.foldl (g.pick d p) init).isSome := by
  induction L generalizing init with
  | nil =>
    rcases h with h | ⟨q, hq, -⟩
    · exact h
    · exact absurd hq List.not_mem_nil
  | cons r L ih =>
    refine ih ?_
    rcases h with h | ⟨q, hq, hn⟩
    · exact .inl (isSome_pick (.inl h))
    · rcases List.mem_cons.1 hq with rfl | hq
      · exact .inl (isSome_pick (.inr hn))
      · exact .inr ⟨q, hq, hn⟩

/-- A predecessor is a neighbour one step nearer. -/
theorem predecessor_eq_some (h : g.predecessor d p = some q) :
    q ∈ g.adjacent p ∧ (d.getD (g.index p) .inf).isNext (d.getD (g.index q) .inf) := by
  rw [predecessor_eq_foldl] at h
  rcases foldl_pick_eq_some h with h | h
  · exact absurd h (by simp)
  · exact h

/-- A cell with a neighbour one step nearer has a predecessor. -/
theorem isSome_predecessor (hq : q ∈ g.adjacent p)
    (hn : (d.getD (g.index p) .inf).isNext (d.getD (g.index q) .inf)) :
    (g.predecessor d p).isSome := by
  rw [predecessor_eq_foldl]
  exact isSome_foldl_pick (.inr ⟨q, hq, hn⟩)

/-- A cell with no neighbour one step nearer has no predecessor. -/
theorem predecessor_eq_none
    (h : ∀ q ∈ g.adjacent p, ¬ (d.getD (g.index p) .inf).isNext (d.getD (g.index q) .inf)) :
    g.predecessor d p = none := by
  rw [predecessor_eq_foldl]
  cases hf : (g.adjacent p).foldl (g.pick d p) none with
  | none => rfl
  | some r =>
    rcases foldl_pick_eq_some hf with h₀ | ⟨hr, hn⟩
    · exact absurd h₀ (by simp)
    · exact absurd hn (h r hr)

/-- A distance is less than the number of cells: the cells at distances `0, …, n` from `a` are
`n + 1` different cells of the grid. -/
theorem IsDist.lt_size {a b : Cell} {n : Nat} (h : g.IsDist a b n) (ha : g.contains a) :
    n < g.size := by
  choose f hf using fun i : Fin (n + 1) => h.exists_of_le (Nat.lt_succ_iff.1 i.2)
  let idx : Fin (n + 1) → Fin g.size :=
    fun i => ⟨g.index (f i), index_lt_size ((hf i).1.contains ha)⟩
  have hinj : Function.Injective idx := by
    intro i j hij
    have hfij : f i = f j :=
      index_injOn ((hf i).1.contains ha) ((hf j).1.contains ha) (Fin.val_eq_of_eq hij)
    exact Fin.ext ((hf i).unique (hfij ▸ hf j))
  simpa using Fintype.card_le_of_injective idx hinj

/-! ### Predecessors of a search -/

section Distances

variable {s m : Cell} {n : Nat}

/-- The source has no predecessor: nothing is one step nearer than distance `0`. -/
theorem predecessors_distances_source (hs : g.contains s) :
    (g.predecessors (g.distances s)).getD (g.index s) none = none := by
  rw [predecessors_getD hs]
  split
  · have h₀ : (g.distances s).getD (g.index s) .inf = .fin 0 :=
      (distances_eq_fin_iff hs hs 0).2 (isDist_zero_iff.2 rfl)
    exact predecessor_eq_none fun q _ => by rw [h₀]; exact Dist.not_isNext_zero _
  · rfl

/-- A cell at distance `n + 1` has a predecessor, a neighbour at distance `n`. -/
theorem predecessors_distances_succ (hs : g.isOpen s) (hm : g.IsDist s m (n + 1)) :
    ∃ q, (g.predecessors (g.distances s)).getD (g.index m) none = some q ∧ q ∈ g.adjacent m ∧
      g.IsDist s q n := by
  have hsc := contains_of_isOpen hs
  have hmc := hm.1.contains hsc
  obtain ⟨⟨q₀, hq₀, hmq₀⟩, -⟩ := isDist_succ_iff.1 hm
  have hq₀m : q₀ ∈ g.adjacent m := mem_adjacent_comm hmq₀ (hq₀.1.isOpen hs)
  have hdm : (g.distances s).getD (g.index m) .inf = .fin (n + 1) :=
    (distances_eq_fin_iff hsc hmc _).2 hm
  have hdq₀ : (g.distances s).getD (g.index q₀) .inf = .fin n :=
    (distances_eq_fin_iff hsc (contains_of_mem_adjacent hq₀m) n).2 hq₀
  rw [predecessors_getD hmc, if_pos (linked_of_mem_adjacent (isOpen_of_mem_adjacent hmq₀) hq₀m)]
  obtain ⟨q, hq⟩ := Option.isSome_iff_exists.1
    (isSome_predecessor hq₀m (by rw [hdm, hdq₀]; exact Dist.isNext_succ_iff.2 rfl))
  obtain ⟨hqm, hn⟩ := predecessor_eq_some hq
  rw [hdm, Dist.isNext_succ_iff] at hn
  exact ⟨q, hq, hqm, (distances_eq_fin_iff hsc (contains_of_mem_adjacent hqm) n).1 hn⟩

/-- A node that no steps reach has a predecessor, a node that no steps reach either: its
distance and its neighbours' are all `inf`, and `inf` is one step beyond `inf`. -/
theorem predecessors_distances_unreachable (hs : g.contains s) (hm : g.linked m)
    (hu : ∀ n, ¬ g.Steps s m n) :
    ∃ q, (g.predecessors (g.distances s)).getD (g.index m) none = some q ∧ g.linked q ∧
      ∀ n, ¬ g.Steps s q n := by
  have hmo := isOpen_of_linked hm
  have hmc := contains_of_isOpen hmo
  -- a neighbour of an unreachable cell is unreachable
  have hnb : ∀ q ∈ g.adjacent m, ∀ n, ¬ g.Steps s q n :=
    fun q hq n hsq => hu (n + 1) (hsq.tail (mem_adjacent_comm hq hmo))
  have hinf : ∀ q ∈ g.adjacent m, (g.distances s).getD (g.index q) .inf = .inf :=
    fun q hq => (distances_eq_inf_iff hs (contains_of_mem_adjacent hq)).2 (hnb q hq)
  have hdm := (distances_eq_inf_iff hs hmc).2 hu
  obtain ⟨q₀, hq₀⟩ := exists_mem_adjacent_of_linked hm
  rw [predecessors_getD hmc, if_pos hm]
  obtain ⟨q, hq⟩ := Option.isSome_iff_exists.1
    (isSome_predecessor hq₀ (by rw [hdm, hinf q₀ hq₀]; exact Dist.isNext_inf_inf))
  have hqm := (predecessor_eq_some hq).1
  exact ⟨q, hq, linked_of_mem_adjacent (isOpen_of_mem_adjacent hqm)
    (mem_adjacent_comm hqm hmo), hnb q hqm⟩

end Distances

end Grid

namespace Board

/-! ### Walking back -/

section WalkBack

variable {g : Grid} {s : Cell} {t : Costs}

open Grid

/-- From a cell at distance `n`, with more than `n` cells of fuel, the walk back is a shortest
walk from the source, put in front of what was gathered. -/
theorem walkBack_of_isDist (hs : g.linked s) (ht : t.pred = g.predecessors (g.distances s)) :
    ∀ n m, g.IsDist s m n → ∀ fuel, n < fuel → ∀ acc,
      ∃ w, walkBack g t fuel m acc = .ok (w ++ acc) ∧ g.Walk s w m ∧ w.length = n + 1 := by
  have hso := isOpen_of_linked hs
  intro n
  -- induction on the distance: each step back is one step nearer the source
  induction n with
  | zero =>
    intro m hm fuel hfuel acc
    obtain rfl := isDist_zero_iff.1 hm
    obtain ⟨f, rfl⟩ := Nat.exists_eq_succ_of_ne_zero (Nat.pos_iff_ne_zero.1 hfuel)
    refine ⟨[m], ?_, .single m, rfl⟩
    rw [walkBack, if_pos hs, ht, predecessors_distances_source (contains_of_isOpen hso)]
    rfl
  | succ n ih =>
    intro m hm fuel hfuel acc
    obtain ⟨f, rfl⟩ := Nat.exists_eq_succ_of_ne_zero (Nat.pos_iff_ne_zero.1 (show 0 < fuel by omega))
    obtain ⟨q, hq, hqm, hdq⟩ := predecessors_distances_succ hso hm
    have hmo : g.isOpen m := hm.1.isOpen hso
    obtain ⟨w, hw, hwalk, hlen⟩ := ih q hdq f (by omega) (m :: acc)
    refine ⟨w ++ [m], ?_, hwalk.snoc (mem_adjacent_comm hqm hmo), by simp [hlen]⟩
    rw [walkBack, if_pos (linked_of_mem_adjacent hmo hqm), ht, hq]
    simp [hw]

/-- From a node that no steps reach, the walk back goes round for ever, whatever its fuel. -/
theorem walkBack_endless (hs : g.contains s) (ht : t.pred = g.predecessors (g.distances s)) :
    ∀ fuel m acc, g.linked m → (∀ n, ¬ g.Steps s m n) →
      walkBack g t fuel m acc = .error .endless := by
  intro fuel
  induction fuel with
  | zero => intro m acc _ _; rfl
  | succ f ih =>
    intro m acc hm hu
    obtain ⟨q, hq, hql, hqu⟩ := predecessors_distances_unreachable hs hm hu
    rw [walkBack, if_pos hm, ht, hq]
    exact ih q (m :: acc) hql hqu

end WalkBack

variable {b : Board} {s : Cell}

/-- `shortestPath` reads the costs of `s` once and walks back from the target along their
predecessors, which the read leaves as they were cached. -/
theorem run_shortestPath (hv : ∀ q, b.grid.contains q → b.isVisited q → b.grid.linked q)
    (hs : b.grid.linked s) (target : Cell) :
    ∃ d' b', Retabled b b' ∧ ∀ c, ((shortestPath s (some target)).run b).run c =
      match walkBack b.grid ⟨d', (b.cached s).pred⟩ (b.grid.size + 1) target [] with
      | .ok w => .ok (w, b') c
      | .error f => .error (.fault f) c := by
  obtain ⟨d', -, hrun⟩ := run_costs hv hs
  refine ⟨d', { b with tables := b.tables.set! (b.grid.index s) (some ⟨d', (b.cached s).pred⟩) },
    ⟨_, rfl⟩, fun c => ?_⟩
  unfold shortestPath
  simp only [StateT.run_bind, hrun, pure_bind, StateT.run_get]
  cases walkBack b.grid ⟨d', (b.cached s).pred⟩ (b.grid.size + 1) target [] <;> rfl

/-- **Shortest walks along predecessors.** On a board reached by steps from a start that is a
node, and for a node `s`: the search from `s` puts every cell of the grid at its distance, or at
`inf` when no steps reach it; `s` has no predecessor, and a cell at distance `n + 1` has as
predecessor a neighbour at distance `n`. So `shortestPath` from `s` returns, for a cell at
distance `n`, a walk of `n + 1` cells from `s` to it; for a node that no steps reach it never
ends, since `inf` is one step beyond `inf` and the predecessors there go round. -/
theorem shortest_paths_by_predecessors {g : Grid} {start s : Cell} (hstart : g.linked start)
    (hs : g.linked s) (number : Int) (animate : Bool) (dirs : List String) :
    let d := g.distances s
    let pred := g.predecessors d
    let b := (create g start number animate).walk dirs
    (∀ m, g.contains m → ∀ n, (d.getD (g.index m) .inf = .fin n ↔ g.IsDist s m n)) ∧
    (∀ m, g.contains m → (d.getD (g.index m) .inf = .inf ↔ ∀ n, ¬ g.Steps s m n)) ∧
    pred.getD (g.index s) none = none ∧
    (∀ m n, g.IsDist s m (n + 1) →
      ∃ q, pred.getD (g.index m) none = some q ∧ q ∈ g.adjacent m ∧ g.IsDist s q n) ∧
    (∀ t n, g.IsDist s t n → ∃ w b', g.Walk s w t ∧ w.length = n + 1 ∧
      ∀ c, ((shortestPath s (some t)).run b).run c = .ok (w, b') c) ∧
    (∀ t, g.linked t → (∀ n, ¬ g.Steps s t n) →
      ∀ c, ((shortestPath s (some t)).run b).run c = .error (.fault .endless) c) := by
  intro d pred b
  have hso := Grid.isOpen_of_linked hs
  have hsc := Grid.contains_of_isOpen hso
  have hgrid : b.grid = g := walk_grid _ dirs
  have hv := linked_of_isVisited_fresh number animate dirs hstart
  -- no read has happened yet: the walk back reads the predecessors of the search from `s`
  have hpred : (b.cached s).pred = pred := congrArg Costs.pred (cached_fresh number animate dirs s)
  refine ⟨fun m hm n => Grid.distances_eq_fin_iff hsc hm n,
    fun m hm => Grid.distances_eq_inf_iff hsc hm, Grid.predecessors_distances_source hsc,
    fun m n hm => Grid.predecessors_distances_succ hso hm, fun t n ht => ?_, fun t ht hu c => ?_⟩
  · obtain ⟨d', b', -, hrun⟩ := run_shortestPath (b := b) hv (by rw [hgrid]; exact hs) t
    -- the fuel lasts: a distance is less than the number of cells
    have hn := ht.lt_size hsc
    obtain ⟨w, hw, hwalk, hlen⟩ :=
      walkBack_of_isDist (t := ⟨d', (b.cached s).pred⟩) hs hpred n t ht (g.size + 1) (by omega) []
    refine ⟨w, b', hwalk, hlen, fun c => ?_⟩
    simp only [hrun c, hgrid, hw, List.append_nil]
  · obtain ⟨d', b', -, hrun⟩ := run_shortestPath (b := b) hv (by rw [hgrid]; exact hs) t
    have hend := walkBack_endless (t := ⟨d', (b.cached s).pred⟩) hsc hpred (g.size + 1) t [] ht hu
    simp only [hrun c, hgrid, hend]

/-- On the row `..#..` from its left end: the next cell is reached by a walk of two cells, and
the walk back from the far side of the wall never ends. -/
theorem shortest_paths_by_predecessors_split_row :
    let g : Grid := ⟨#[#['.', '.', '#', '.', '.']], 5, 1⟩
    let b := create g (0, 0) 0 false
    g.linked (0, 0) ∧
      (∃ w b', g.Walk (0, 0) w (0, 1) ∧ w.length = 2 ∧
        ∀ c, ((shortestPath (0, 0) (some (0, 1))).run b).run c = .ok (w, b') c) ∧
      ∀ c, ((shortestPath (0, 0) (some (0, 3))).run b).run c = .error (.fault .endless) c := by
  intro g b
  have hl : g.linked (0, 0) := by decide
  obtain ⟨-, -, -, -, hreach, hnever⟩ := shortest_paths_by_predecessors hl hl 0 false []
  -- the cells left of the wall hold all their neighbours, so no steps cross it
  have hleft : ∀ n, ¬ g.Steps (0, 0) (0, 3) n := fun n hs => by
    have := hs.mem_of_closed (S := [(0, 0), (0, 1)]) (by decide) (by decide)
    simp at this
  exact ⟨hl, hreach (0, 1) 1 (Grid.isDist_one (by decide)), hnever (0, 3) (by decide) hleft⟩

/-- A start with no open neighbour is visited but is no node, so wearing any costs fails on it:
on the row `.#..` from its left end, the walk between the two other cells is never given. -/
theorem shortest_path_isolated_start :
    let g : Grid := ⟨#[#['.', '#', '.', '.']], 4, 1⟩
    ∀ c, ((shortestPath (0, 2) (some (0, 3))).run (create g (0, 0) 0 false)).run c =
      .error (.fault (.missing (.pair 0 0))) c :=
  fun _ => rfl

end Board

end Lambdaman

end Interstellar
