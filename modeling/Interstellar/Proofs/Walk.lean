import Interstellar.Lambdaman.Board
import Mathlib

/-!
# Walking on a board

A board changes under `Board.move` one step at a time. This module says what one step does and
what any sequence of steps from a fresh board leaves behind.

* `Board.Aims here dir p`: `p` is the cell one step from `here` in direction `dir`: `U` a row
  up, `D` a row down, `L` a column left, `R` a column right;
* `Board.step?_eq_some_iff`: a step is made exactly when it aims at an open cell, and then it
  is `Board.enter`: the player moves there, the cell is marked visited, its visits grow by one
  and `dir` is recorded;
* `Board.walk`, `Board.outcomes`, `Board.entered`: the board after a sequence of steps,
  whether each step was made, and the cells entered; `Board.run_mapM_move` says that calling
  `move` in turn gives exactly these and touches nothing else;
* `Board.walk_from_start`: from a fresh board on an open cell, the player always stands on an
  open cell, every call of `move` either changes nothing or makes one step, the visited cells
  are the start and the cells entered, the visits add up to the number of moves, and the moves
  replayed on a fresh board are all made and give the same board back.

Marks and counts live in arrays by cell index, and two cells of the grid never share an index
(`Grid.index_injOn`); facts about them hold for the cells of the grid, on boards whose arrays
have one entry per cell (`Board.Sized`).
-/

namespace Interstellar

namespace Lambdaman

theorem Array.getD_set!_of_lt {α : Type} {a : Array α} {i j : Nat} {v d : α} (h : i < a.size) :
    (a.set! i v).getD j d = if i = j then v else a.getD j d := by
  simp only [Array.set!_eq_setIfInBounds, Array.getD_eq_getD_getElem?, Array.getElem?_setIfInBounds, h]
  split <;> simp

theorem Array.getD_replicate {α : Type} (n i : Nat) (a : α) : (Array.replicate n a).getD i a = a := by
  simp only [Array.getD_eq_getD_getElem?, Array.getElem?_replicate]
  split <;> rfl

namespace Grid

variable {g : Grid} {p q : Cell}

theorem contains_iff : g.contains p ↔ p.1 < g.height ∧ p.2 < g.width := by
  simp [contains]

theorem contains_of_isOpen (h : g.isOpen p) : g.contains p := by
  simp only [isOpen, Bool.and_eq_true] at h
  exact h.1

theorem index_lt_size (h : g.contains p) : g.index p < g.size := by
  obtain ⟨hr, hc⟩ := contains_iff.1 h
  calc g.index p = p.1 * g.width + p.2 := rfl
    _ < (p.1 + 1) * g.width := by rw [Nat.succ_mul]; omega
    _ ≤ g.height * g.width := Nat.mul_le_mul_right _ hr
    _ = g.size := Nat.mul_comm _ _

/-- Two cells of the grid with the same index are the same cell. -/
theorem index_injOn (hp : g.contains p) (hq : g.contains q) (h : g.index p = g.index q) :
    p = q := by
  obtain ⟨-, hp2⟩ := contains_iff.1 hp
  obtain ⟨-, hq2⟩ := contains_iff.1 hq
  have hw : 0 < g.width := by omega
  have hrow : p.1 = q.1 := by
    have := congrArg (· / g.width) h
    simpa [index, Nat.add_comm, Nat.add_mul_div_right _ _ hw, Nat.div_eq_of_lt hp2,
      Nat.div_eq_of_lt hq2] using this
  have hcol : p.2 = q.2 := by
    have := congrArg (· % g.width) h
    simpa [index, Nat.add_comm, Nat.add_mul_mod_self_right, Nat.mod_eq_of_lt hp2,
      Nat.mod_eq_of_lt hq2] using this
  exact Prod.ext hrow hcol

theorem mem_cells : p ∈ g.cells ↔ g.contains p := by
  simp [cells, contains_iff, and_comm, Prod.ext_iff]

theorem nodup_cells (g : Grid) : g.cells.Nodup := by
  refine List.nodup_flatMap.2 ⟨fun r _ => List.nodup_range.map fun a b h => ?_, ?_⟩
  · exact (Prod.ext_iff.1 h).2
  · refine List.nodup_range.pairwise_of_forall_ne fun r _ r' _ hne => ?_
    exact List.disjoint_left.2 fun x hx hx' => hne (by
      simp only [List.mem_map] at hx hx'
      obtain ⟨_, -, rfl⟩ := hx
      obtain ⟨_, -, h⟩ := hx'
      exact (Prod.ext_iff.1 h).1.symm)

end Grid

theorem sum_map_ite_eq_count (cs : List Cell) (x : Cell) :
    (cs.map fun q => if x = q then 1 else 0).sum = cs.count x := by
  induction cs with
  | nil => rfl
  | cons c cs ih =>
    by_cases h : x = c
    · subst h; simp [ih, Nat.add_comm]
    · simp [ih, h, Ne.symm h]

/-- Counting the members of `l` at each cell of a list without repeats that holds them all
gives the length of `l`. -/
theorem sum_map_count_of_subset {cs l : List Cell} (hcs : cs.Nodup) (hl : ∀ x ∈ l, x ∈ cs) :
    (cs.map fun q => l.count q).sum = l.length := by
  induction l with
  | nil => simp
  | cons x l ih =>
    have hx : (cs.map fun q => if x = q then 1 else 0).sum = 1 := by
      rw [sum_map_ite_eq_count, List.count_eq_one_of_mem hcs (hl x (List.mem_cons_self ..))]
    simp only [List.count_cons, beq_iff_eq, List.sum_map_add, hx, List.length_cons,
      ih fun y hy => hl y (List.mem_cons_of_mem x hy)]

namespace Board

/-! ### One step -/

/-- `p` is the cell one step from `here` in direction `dir`. -/
def Aims (here : Cell) (dir : String) (p : Cell) : Prop :=
  (dir = "U" ∧ 0 < here.1 ∧ p = (here.1 - 1, here.2)) ∨ (dir = "D" ∧ p = (here.1 + 1, here.2)) ∨
    (dir = "L" ∧ 0 < here.2 ∧ p = (here.1, here.2 - 1)) ∨ (dir = "R" ∧ p = (here.1, here.2 + 1))

/-- The cell a step in direction `dir` aims at from `here`, if it has one. -/
def aim (here : Cell) (dir : String) : Option Cell :=
  if dir == "U" then (if here.1 = 0 then none else some (here.1 - 1, here.2))
  else if dir == "D" then some (here.1 + 1, here.2)
  else if dir == "L" then (if here.2 = 0 then none else some (here.1, here.2 - 1))
  else if dir == "R" then some (here.1, here.2 + 1)
  else none

/-- The board after the player steps onto `p` in direction `dir`. -/
def enter (b : Board) (dir : String) (p : Cell) : Board :=
  let i := b.grid.index p
  { b with current := p, visited := b.visited.set! i true,
           visits := b.visits.set! i (b.visits.getD i 0 + 1), moves := b.moves ++ dir }

theorem aim_eq_some_iff {here p : Cell} {dir : String} : aim here dir = some p ↔ Aims here dir p := by
  unfold aim Aims
  by_cases hU : dir = "U"
  · subst hU
    by_cases h : here.1 = 0 <;> simp [h, eq_comm]
    omega
  by_cases hD : dir = "D"
  · subst hD; simp [eq_comm]
  by_cases hL : dir = "L"
  · subst hL
    by_cases h : here.2 = 0 <;> simp [h, eq_comm]
    omega
  by_cases hR : dir = "R"
  · subst hR; simp [eq_comm]
  simp [hU, hD, hL, hR]

/-- A direction that aims anywhere is one letter long. -/
theorem eq_singleton_of_aims {here p : Cell} {dir : String} (h : Aims here dir p) :
    ∃ c, dir = String.singleton c := by
  rcases h with ⟨rfl, -⟩ | ⟨rfl, -⟩ | ⟨rfl, -⟩ | ⟨rfl, -⟩
  exacts [⟨'U', rfl⟩, ⟨'D', rfl⟩, ⟨'L', rfl⟩, ⟨'R', rfl⟩]

theorem step?_eq (b : Board) (dir : String) :
    b.step? dir = (aim b.current dir).bind fun p =>
      if b.grid.isOpen p then some (b.enter dir p) else none := by
  rcases b with ⟨g, n, s, ⟨r, c⟩, v, vs, m, t, f, a, sl⟩
  simp only [step?, aim, enter]
  split <;> simp_all

/-- A step is made exactly when it aims at an open cell, and it enters that cell. -/
theorem step?_eq_some_iff {b b' : Board} {dir : String} :
    b.step? dir = some b' ↔ ∃ p, Aims b.current dir p ∧ b.grid.isOpen p ∧ b' = b.enter dir p := by
  rw [step?_eq]
  constructor
  · intro h
    obtain ⟨p, hp, h⟩ := Option.bind_eq_some_iff.1 h
    by_cases ho : b.grid.isOpen p
    · exact ⟨p, aim_eq_some_iff.1 hp, ho, (Option.some.inj (by simpa [ho] using h)).symm⟩
    · simp [ho] at h
  · rintro ⟨p, hp, ho, rfl⟩
    simp [aim_eq_some_iff.2 hp, ho]

@[simp] theorem enter_grid (b : Board) (dir : String) (p : Cell) : (b.enter dir p).grid = b.grid :=
  rfl

@[simp] theorem enter_current (b : Board) (dir : String) (p : Cell) :
    (b.enter dir p).current = p := rfl

@[simp] theorem enter_moves (b : Board) (dir : String) (p : Cell) :
    (b.enter dir p).moves = b.moves ++ dir := rfl

/-- The visited marks and the visit counts have one entry per cell of the grid. -/
structure Sized (b : Board) : Prop where
  visited : b.visited.size = b.grid.size
  visits : b.visits.size = b.grid.size

theorem Sized.enter {b : Board} (h : b.Sized) (dir : String) (p : Cell) : (b.enter dir p).Sized :=
  ⟨by simp [Board.enter, h.visited], by simp [Board.enter, h.visits]⟩

section Enter

variable {b : Board} {dir : String} {p q : Cell}

theorem isVisited_enter (hb : b.Sized) (hp : b.grid.contains p) (hq : b.grid.contains q) :
    (b.enter dir p).isVisited q ↔ b.isVisited q ∨ q = p := by
  have hlt : b.grid.index p < b.visited.size := hb.visited ▸ Grid.index_lt_size hp
  have hidx : b.grid.index p = b.grid.index q ↔ q = p :=
    ⟨fun h => (Grid.index_injOn hp hq h).symm, fun h => h ▸ rfl⟩
  simp only [isVisited, enter, Array.getD_set!_of_lt hlt, hidx]
  by_cases h : q = p <;> simp [h]

theorem visitsOf_enter (hb : b.Sized) (hp : b.grid.contains p) (hq : b.grid.contains q) :
    (b.enter dir p).visitsOf q = b.visitsOf q + if q = p then 1 else 0 := by
  have hlt : b.grid.index p < b.visits.size := hb.visits ▸ Grid.index_lt_size hp
  have hidx : b.grid.index p = b.grid.index q ↔ q = p :=
    ⟨fun h => (Grid.index_injOn hp hq h).symm, fun h => h ▸ rfl⟩
  simp only [visitsOf, enter, Array.getD_set!_of_lt hlt, hidx]
  by_cases h : q = p
  · subst h; simp
  · simp [h]

end Enter

/-- What a step in direction `dir` made from `b` to `b'` changes: the player moves to the
neighbouring open cell in that direction, the cell is visited, its visits grow by one, `dir`
is recorded, and nothing else that is marked or counted changes. -/
structure Moved (b : Board) (dir : String) (b' : Board) : Prop where
  aims : Aims b.current dir b'.current
  isOpen : b.grid.isOpen b'.current
  grid : b'.grid = b.grid
  visited : ∀ q ∈ b.grid.cells, b'.isVisited q ↔ b.isVisited q ∨ q = b'.current
  visits : ∀ q ∈ b.grid.cells, b'.visitsOf q = b.visitsOf q + if q = b'.current then 1 else 0
  moves : b'.moves = b.moves ++ dir

theorem moved_enter {b : Board} (hb : b.Sized) {dir : String} {p : Cell}
    (hp : Aims b.current dir p) (ho : b.grid.isOpen p) : Moved b dir (b.enter dir p) where
  aims := hp
  isOpen := ho
  grid := rfl
  visited _ hq := isVisited_enter hb (Grid.contains_of_isOpen ho) (Grid.mem_cells.1 hq)
  visits _ hq := visitsOf_enter hb (Grid.contains_of_isOpen ho) (Grid.mem_cells.1 hq)
  moves := rfl

/-! ### Calls of `move` -/

/-- `move` makes the step when it can, says whether it did, and prints nothing. -/
theorem run_move (b : Board) (dir : String) :
    (move dir).run b = pure ((b.step? dir).isSome, (b.step? dir).getD b) := by
  simp only [move, bind_pure_comp, StateT.run_bind, StateT.run_get, pure_bind]
  cases b.step? dir <;> rfl

/-- A call of `move` either changes nothing and answers `false`, or makes one step and answers
`true`. -/
theorem run_move_cases {b : Board} (hb : b.Sized) (dir : String) :
    (move dir).run b = pure (false, b) ∨ ∃ b', (move dir).run b = pure (true, b') ∧ Moved b dir b' := by
  rw [run_move]
  cases h : b.step? dir with
  | none => exact .inl rfl
  | some b' =>
    obtain ⟨p, hp, ho, rfl⟩ := step?_eq_some_iff.1 h
    exact .inr ⟨_, rfl, moved_enter hb hp ho⟩

/-! ### Sequences of steps -/

/-- The board after the steps `dirs`, each made when it can be. -/
def walk : Board → List String → Board
  | b, [] => b
  | b, dir :: dirs => walk ((b.step? dir).getD b) dirs

/-- Whether each of the steps `dirs` is made. -/
def outcomes : Board → List String → List Bool
  | _, [] => []
  | b, dir :: dirs => (b.step? dir).isSome :: outcomes ((b.step? dir).getD b) dirs

/-- The cells the steps `dirs` enter, in order. -/
def entered : Board → List String → List Cell
  | _, [] => []
  | b, dir :: dirs =>
    match b.step? dir with
    | some b' => b'.current :: entered b' dirs
    | none => entered b dirs

/-- The directions a string of moves spells, one letter each. -/
def letters (moves : String) : List String := moves.toList.map String.singleton

/-- Calling `move` for each direction in turn gives the outcomes and the walk, and prints
nothing. -/
theorem run_mapM_move (b : Board) (dirs : List String) :
    (dirs.mapM move).run b = pure (b.outcomes dirs, b.walk dirs) := by
  induction dirs generalizing b with
  | nil => rfl
  | cons dir dirs ih =>
    simp only [List.mapM_cons, StateT.run_bind, run_move, pure_bind, ih, StateT.run_pure]
    rfl

/-- One step of a walk: a refused step leaves the board, a made one enters a cell. -/
theorem walk_cons (b : Board) (dir : String) (dirs : List String) :
    (b.step? dir = none ∧ b.walk (dir :: dirs) = b.walk dirs ∧
        b.entered (dir :: dirs) = b.entered dirs ∧
        b.outcomes (dir :: dirs) = false :: b.outcomes dirs) ∨
      ∃ p, Aims b.current dir p ∧ b.grid.isOpen p ∧
        b.walk (dir :: dirs) = (b.enter dir p).walk dirs ∧
        b.entered (dir :: dirs) = p :: (b.enter dir p).entered dirs ∧
        b.outcomes (dir :: dirs) = true :: (b.enter dir p).outcomes dirs := by
  cases h : b.step? dir with
  | none => exact .inl ⟨rfl, by simp [walk, h], by simp [entered, h], by simp [outcomes, h]⟩
  | some b' =>
    obtain ⟨p, hp, ho, rfl⟩ := step?_eq_some_iff.1 h
    exact .inr ⟨p, hp, ho, by simp [walk, h], by simp [entered, h], by simp [outcomes, h]⟩

section Walk

variable {b : Board}

theorem walk_grid (b : Board) (dirs : List String) : (b.walk dirs).grid = b.grid := by
  induction dirs generalizing b with
  | nil => rfl
  | cons dir dirs ih =>
    rcases walk_cons b dir dirs with ⟨-, hw, -⟩ | ⟨p, -, -, hw, -⟩
    · rw [hw, ih]
    · rw [hw, ih]; rfl

theorem Sized.walk (hb : b.Sized) (dirs : List String) : (b.walk dirs).Sized := by
  induction dirs generalizing b with
  | nil => exact hb
  | cons dir dirs ih =>
    rcases walk_cons b dir dirs with ⟨-, hw, -⟩ | ⟨p, -, -, hw, -⟩
    · rw [hw]; exact ih hb
    · rw [hw]; exact ih (hb.enter dir p)

/-- The cells a walk enters are open. -/
theorem isOpen_of_mem_entered (dirs : List String) :
    ∀ q ∈ b.entered dirs, b.grid.isOpen q := by
  induction dirs generalizing b with
  | nil => simp [entered]
  | cons dir dirs ih =>
    rcases walk_cons b dir dirs with ⟨-, -, he, -⟩ | ⟨p, -, ho, -, he, -⟩
    · rw [he]; exact ih
    · intro q hq
      rw [he, List.mem_cons] at hq
      rcases hq with rfl | hq
      · exact ho
      · exact ih (b := b.enter dir p) q hq

/-- The player of a walk stands on an open cell when it started on one. -/
theorem isOpen_walk_current (hb : b.grid.isOpen b.current) (dirs : List String) :
    (b.walk dirs).grid.isOpen (b.walk dirs).current := by
  induction dirs generalizing b with
  | nil => exact hb
  | cons dir dirs ih =>
    rcases walk_cons b dir dirs with ⟨-, hw, -⟩ | ⟨p, -, ho, hw, -⟩
    · rw [hw]; exact ih hb
    · rw [hw]; exact ih ho

/-- A walk marks visited exactly the cells it enters. -/
theorem isVisited_walk (hb : b.Sized) (dirs : List String) {q : Cell} (hq : b.grid.contains q) :
    (b.walk dirs).isVisited q ↔ b.isVisited q ∨ q ∈ b.entered dirs := by
  induction dirs generalizing b with
  | nil => simp [walk, entered]
  | cons dir dirs ih =>
    rcases walk_cons b dir dirs with ⟨-, hw, he, -⟩ | ⟨p, -, ho, hw, he, -⟩
    · rw [hw, he]; exact ih hb hq
    · rw [hw, he, ih (hb.enter dir p) hq,
        isVisited_enter hb (Grid.contains_of_isOpen ho) hq, List.mem_cons]
      tauto

/-- A walk counts one visit to a cell for each time it enters it. -/
theorem visitsOf_walk (hb : b.Sized) (dirs : List String) {q : Cell} (hq : b.grid.contains q) :
    (b.walk dirs).visitsOf q = b.visitsOf q + (b.entered dirs).count q := by
  induction dirs generalizing b with
  | nil => simp [walk, entered]
  | cons dir dirs ih =>
    rcases walk_cons b dir dirs with ⟨-, hw, he, -⟩ | ⟨p, -, ho, hw, he, -⟩
    · rw [hw, he]; exact ih hb hq
    · rw [hw, he, ih (hb.enter dir p) hq, visitsOf_enter hb (Grid.contains_of_isOpen ho) hq,
        List.count_cons]
      by_cases h : q = p
      · subst h; simp; omega
      · simp [h, Ne.symm h]

/-- A walk records one letter for each cell it enters. -/
theorem length_moves_walk (dirs : List String) :
    (b.walk dirs).moves.length = b.moves.length + (b.entered dirs).length := by
  induction dirs generalizing b with
  | nil => simp [walk, entered]
  | cons dir dirs ih =>
    rcases walk_cons b dir dirs with ⟨-, hw, he, -⟩ | ⟨p, hp, -, hw, he, -⟩
    · rw [hw, he]; exact ih
    · obtain ⟨c, rfl⟩ := eq_singleton_of_aims hp
      rw [hw, he, ih, enter_moves, String.length_append]
      simp
      omega

/-- The moves a walk records, replayed from where it started, are all made and retrace it. -/
theorem walk_letters (b : Board) (dirs : List String) :
    ∃ m, (b.walk dirs).moves = b.moves ++ m ∧ b.walk (letters m) = b.walk dirs ∧
      ∀ x ∈ b.outcomes (letters m), x = true := by
  induction dirs generalizing b with
  | nil => exact ⟨"", by simp [walk], rfl, by simp [letters, outcomes]⟩
  | cons dir dirs ih =>
    rcases walk_cons b dir dirs with ⟨-, hw, -⟩ | ⟨p, hp, ho, hw, -, -⟩
    · rw [hw]; exact ih b
    · obtain ⟨m, hm, hwm, hom⟩ := ih (b.enter dir p)
      obtain ⟨c, rfl⟩ := eq_singleton_of_aims hp
      have hl : letters (String.singleton c ++ m) = String.singleton c :: letters m := by
        simp [letters]
      have hstep : b.step? (String.singleton c) = some (b.enter (String.singleton c) p) :=
        step?_eq_some_iff.2 ⟨p, hp, ho, rfl⟩
      refine ⟨String.singleton c ++ m, ?_, ?_, ?_⟩
      · rw [hw, hm, enter_moves, String.append_assoc]
      · rw [hl, hw, ← hwm, walk, hstep, Option.getD_some]
      · rw [hl, outcomes, hstep]
        simpa using hom

end Walk

/-! ### Walks from a fresh board -/

section Fresh

variable {g : Grid} {start : Cell} {number : Int} {animate : Bool}

theorem sized_create (g : Grid) (start : Cell) (number : Int) (animate : Bool) :
    (create g start number animate).Sized :=
  ⟨by simp [create, Grid.size], by simp [create, Grid.size]⟩

theorem isVisited_create (hs : g.contains start) {q : Cell} (hq : g.contains q) :
    (create g start number animate).isVisited q ↔ q = start := by
  have hlt : g.index start < (Array.replicate g.size false).size := by
    simpa using Grid.index_lt_size hs
  have hidx : g.index start = g.index q ↔ q = start :=
    ⟨fun h => (Grid.index_injOn hs hq h).symm, fun h => h ▸ rfl⟩
  simp only [isVisited, create, Array.getD_set!_of_lt hlt, hidx, Array.getD_replicate]
  by_cases h : q = start <;> simp [h]

theorem visitsOf_create (q : Cell) : (create g start number animate).visitsOf q = 0 :=
  Array.getD_replicate _ _ _

/-- Steps from a fresh board on an open cell: every call of `move` gives the walk and prints
nothing; the player always stands on an open cell; a further call either changes nothing or
makes one step; the visited cells are the start and the cells entered, each visited as often as
it was entered, and the visits add up to the number of moves; and the moves, replayed on the
fresh board, are all made and give the same board. -/
theorem walk_from_start (hstart : g.isOpen start) (dirs : List String) :
    let b₀ := create g start number animate
    let b := b₀.walk dirs
    (dirs.mapM move).run b₀ = pure (b₀.outcomes dirs, b) ∧
    b.grid.isOpen b.current ∧
    (∀ dir, (move dir).run b = pure (false, b) ∨
      ∃ b', (move dir).run b = pure (true, b') ∧ Moved b dir b') ∧
    (∀ q ∈ g.cells, b.isVisited q ↔ q = start ∨ q ∈ b₀.entered dirs) ∧
    (∀ q ∈ g.cells, b.visitsOf q = (b₀.entered dirs).count q) ∧
    (g.cells.map b.visitsOf).sum = b.moves.length ∧
    b₀.walk (letters b.moves) = b ∧ ∀ x ∈ b₀.outcomes (letters b.moves), x = true := by
  intro b₀ b
  have hsized : b₀.Sized := sized_create g start number animate
  have hs : g.contains start := Grid.contains_of_isOpen hstart
  have hvisits : ∀ q ∈ g.cells, b.visitsOf q = (b₀.entered dirs).count q := fun q hq => by
    rw [visitsOf_walk hsized dirs (Grid.mem_cells.1 hq), visitsOf_create, Nat.zero_add]
  obtain ⟨m, hm, hwm, hom⟩ := walk_letters b₀ dirs
  have hmoves : b.moves = m := hm.trans String.empty_append
  refine ⟨run_mapM_move b₀ dirs, isOpen_walk_current hstart dirs,
    fun dir => run_move_cases (hsized.walk dirs) dir, fun q hq => ?_, hvisits, ?_,
    hmoves ▸ hwm, hmoves ▸ hom⟩
  · have hq' := Grid.mem_cells.1 hq
    rw [isVisited_walk hsized dirs hq', isVisited_create hs hq']
  · have hentered : ∀ x ∈ b₀.entered dirs, x ∈ g.cells := fun x hx =>
      Grid.mem_cells.2 (Grid.contains_of_isOpen (isOpen_of_mem_entered dirs x hx))
    rw [List.map_congr_left hvisits, sum_map_count_of_subset (Grid.nodup_cells g) hentered,
      length_moves_walk]
    simp [b₀, create]

/-- On a two-by-two board walled at the bottom right, from the top left: a step right, an
unknown letter, a step down into the wall, a step left and a step down. -/
theorem walk_from_start_corner :
    let g : Grid := ⟨#[#['.', '.'], #['.', '#']], 2, 2⟩
    let dirs := ["R", "X", "D", "L", "D"]
    let b₀ := create g (0, 0) 0 false
    let b := b₀.walk dirs
    g.isOpen (0, 0) ∧
    (dirs.mapM move).run b₀ = pure (b₀.outcomes dirs, b) ∧
    b.grid.isOpen b.current ∧
    (∀ dir, (move dir).run b = pure (false, b) ∨
      ∃ b', (move dir).run b = pure (true, b') ∧ Moved b dir b') ∧
    (∀ q ∈ g.cells, b.isVisited q ↔ q = (0, 0) ∨ q ∈ b₀.entered dirs) ∧
    (∀ q ∈ g.cells, b.visitsOf q = (b₀.entered dirs).count q) ∧
    (g.cells.map b.visitsOf).sum = b.moves.length ∧
    b₀.walk (letters b.moves) = b ∧ ∀ x ∈ b₀.outcomes (letters b.moves), x = true :=
  ⟨rfl, walk_from_start rfl _⟩

end Fresh

end Board

end Lambdaman

end Interstellar
