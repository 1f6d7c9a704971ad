import Interstellar.Proofs.Wear

/-!
# The greedy walk eats every cell

On a grid with at least two open cells, all joined to the start, `Board.greedy` never fails and
leaves nothing remaining (`Board.greedy_clears_board`).

Each round of the walk goes to a remaining cell: the one remaining neighbour of the player, the
most distant remaining cell at a fork, or the nearest remaining cell when no neighbour remains.
The last choice goes through the choice of the round before, which the player stands on, and
there is none before the first round; but on a fresh board the start has a remaining neighbour,
so the first round never asks for it. Every round leaves fewer cells remaining, and the fuel of
`greedy` lasts.

Besides the tables of costs, the search for the most distant cell changes the board's farthest
node, once (`Board.Rechosen`); a board keeps what the walk needs through all of it
(`Board.Ready`).
-/

namespace Interstellar

namespace Lambdaman

namespace Play

variable {α β : Type} {b : Board} {Q : α → Board → Prop}

theorem Succeeds.map {m : Play α} {f : α → β} {P : β → Board → Prop} (h : Succeeds m b Q)
    (hf : ∀ a b', Q a b' → P (f a) b') : Succeeds (f <$> m) b P := by
  rw [map_eq_pure_bind]
  exact h.bind fun a b' hq => Succeeds.pure (hf a b' hq)

theorem Succeeds.modify {f : Board → Board} {P : PUnit → Board → Prop} (h : P ⟨⟩ (f b)) :
    Succeeds (modify f) b P :=
  fun c => ⟨⟨⟩, f b, c, rfl, h⟩

end Play

namespace Board

open Play

/-! ### Boards with another farthest node -/

theorem walk_start_farthest (b : Board) (dirs : List String) :
    (b.walk dirs).start = b.start ∧ (b.walk dirs).farthest = b.farthest := by
  induction dirs generalizing b with
  | nil => exact ⟨rfl, rfl⟩
  | cons dir dirs ih =>
    rcases walk_cons b dir dirs with ⟨-, hw, -⟩ | ⟨p, -, -, hw, -⟩
    · rw [hw]
      exact ih b
    · rw [hw]
      exact ih _

/-- `b'` is `b` with other tables of costs and perhaps another farthest node. -/
def Rechosen (b b' : Board) : Prop := ∃ t f, b' = { b with tables := t, farthest := f }

section Rechosen

variable {b b' b'' : Board}

theorem Rechosen.refl (b : Board) : Rechosen b b := ⟨b.tables, b.farthest, rfl⟩

theorem Retabled.rechosen (h : Retabled b b') : Rechosen b b' := by
  obtain ⟨t, rfl⟩ := h
  exact ⟨t, b.farthest, rfl⟩

theorem Rechosen.trans (h₁ : Rechosen b b') (h₂ : Rechosen b' b'') : Rechosen b b'' := by
  obtain ⟨t, f, rfl⟩ := h₁
  obtain ⟨t', f', rfl⟩ := h₂
  exact ⟨t', f', rfl⟩

theorem Rechosen.choose (h : Rechosen b b') (f : Option Cell) :
    Rechosen b { b' with farthest := f } := by
  obtain ⟨t, f', rfl⟩ := h
  exact ⟨t, f, rfl⟩

theorem Rechosen.grid (h : Rechosen b b') : b'.grid = b.grid := by
  obtain ⟨t, f, rfl⟩ := h; rfl

theorem Rechosen.start (h : Rechosen b b') : b'.start = b.start := by
  obtain ⟨t, f, rfl⟩ := h; rfl

theorem Rechosen.current (h : Rechosen b b') : b'.current = b.current := by
  obtain ⟨t, f, rfl⟩ := h; rfl

theorem Rechosen.remaining (h : Rechosen b b') : b'.remaining = b.remaining := by
  obtain ⟨t, f, rfl⟩ := h; rfl

theorem Rechosen.fit (h : Rechosen b b') (hb : b.Fit) : b'.Fit := by
  obtain ⟨t, f, rfl⟩ := h
  exact ⟨⟨hb.sized.1, hb.sized.2⟩, hb.current, hb.visited_current, hb.visited⟩

end Rechosen

/-- A board of grid `g` that the greedy walk can go on from: it is fit, its start is open, and
its farthest node, once chosen, is a node of the graph. -/
structure Ready (g : Grid) (b : Board) : Prop where
  fit : b.Fit
  grid : b.grid = g
  start : g.isOpen b.start
  farthest : ∀ f, b.farthest = some f → g.linked f

section Ready

variable {g : Grid} {b b' : Board}

theorem Ready.rechosen (h : Ready g b) (hr : Rechosen b b')
    (hf : ∀ f, b'.farthest = some f → g.linked f) : Ready g b' :=
  ⟨hr.fit h.fit, hr.grid.trans h.grid, by rw [hr.start]; exact h.start, hf⟩

theorem Ready.retabled (h : Ready g b) (hr : Retabled b b') : Ready g b' := by
  obtain ⟨t, rfl⟩ := hr
  exact h.rechosen (Rechosen.refl b |>.trans ⟨t, b.farthest, rfl⟩) h.farthest

/-- On a grid whose open cells are nodes, so are the open cells of a ready board's grid. -/
theorem Ready.linked (h : Ready g b) (hl : ∀ q, g.isOpen q → g.linked q) :
    ∀ q, b.grid.isOpen q → b.grid.linked q := by
  rw [h.grid]
  exact hl

theorem Ready.walk (h : Ready g b) (dirs : List String) : Ready g (b.walk dirs) := by
  obtain ⟨hs, hf⟩ := walk_start_farthest b dirs
  exact ⟨h.fit.walk dirs, (walk_grid b dirs).trans h.grid, by rw [hs]; exact h.start,
    by rw [hf]; exact h.farthest⟩

theorem ready_create {start : Cell} (hs : g.isOpen start) (number : Int) (animate : Bool) :
    Ready g (create g start number animate) :=
  ⟨fit_create hs number animate, rfl, hs, fun _ h => by cases h⟩

end Ready

/-! ### Choosing a remaining cell -/

section Choice

variable {b : Board}

theorem firstLeast_ne_none {κ : Type} (lt : κ → κ → Bool) {l : List (Cell × κ)} (h : l ≠ []) :
    firstLeast lt l ≠ none := by
  obtain ⟨x, hx, -⟩ := firstLeast_eq_some lt h
  rw [hx]
  exact Option.some_ne_none x

theorem mem_of_firstLeast {κ : Type} {lt : κ → κ → Bool} {l : List (Cell × κ)} {x : Cell × κ}
    (h : firstLeast lt l = some x) : x ∈ l := by
  cases l with
  | nil => cases h
  | cons c cs =>
    cases h
    exact mem_foldl_least lt cs c

/-- On a grid whose open cells are nodes, every remaining cell has a distance. -/
theorem remainingKeys_eq (hl : ∀ q, b.grid.isOpen q → b.grid.linked q) {order : SetOrder}
    (horder : ∀ l, (order l).Perm l) (t : Costs) :
    b.remainingKeys order t = .ok ((order b.remaining).map fun q => (q, t.at b.grid q)) :=
  mapM_eq_pure fun q hq => if_pos (hl q (isOpen_of_mem_remaining ((horder _).subset hq)))

theorem ne_current_of_mem_remaining (hb : b.Fit) {c : Cell} (hc : c ∈ b.remaining) :
    c ≠ b.current := by
  rintro rfl
  have hv := hb.visited_current
  rw [not_isVisited_of_mem_remaining hc] at hv
  exact Bool.false_ne_true hv

theorem mem_remaining_of_fresh {q : Cell} (hq : q ∈ b.freshNeighbours) : q ∈ b.remaining := by
  obtain ⟨hadj, hv⟩ := List.mem_filter.1 hq
  exact mem_remaining_of_isOpen (Grid.isOpen_of_mem_adjacent hadj) (by simpa using hv)

variable (hb : b.Fit) (hl : ∀ q, b.grid.isOpen q → b.grid.linked q) {order : SetOrder}
  (horder : ∀ l, (order l).Perm l)
include hb hl horder

/-- The nearest remaining cell, when one remains, is a remaining cell. -/
theorem succeeds_nearest (hne : b.remaining ≠ []) :
    Succeeds (nearest order) b fun x b' => Retabled b b' ∧ x.1 ∈ b.remaining := by
  unfold nearest
  refine Succeeds.get_bind ((succeeds_costs hb hl (hl _ hb.current)).bind fun t b₁ h₁ => ?_)
  refine Succeeds.get_bind ?_
  have hl₁ : ∀ q, b₁.grid.isOpen q → b₁.grid.linked q := h₁.grid ▸ hl
  rw [if_neg (by rw [h₁.remaining]; simpa using hne), remainingKeys_eq hl₁ horder]
  dsimp only
  split
  · rename_i x hx
    obtain ⟨q, hq, rfl⟩ := List.mem_map.1 (mem_of_firstLeast hx)
    exact Succeeds.pure ⟨h₁, h₁.remaining ▸ (horder _).subset hq⟩
  · rename_i hx
    exact absurd hx (firstLeast_ne_none _
      (by simpa [h₁.remaining] using order_ne_nil horder hne))

end Choice

section Farthest

variable {g : Grid} {b : Board} (h : Ready g b) (hl : ∀ q, g.isOpen q → g.linked q)
include h hl

/-- The farthest node's costs: a node is chosen at the first request, and kept. -/
theorem succeeds_farthestCosts :
    Succeeds farthestCosts b fun _ b' => Rechosen b b' ∧ ∃ f, b'.farthest = some f ∧ g.linked f := by
  have hl' := h.linked hl
  unfold farthestCosts
  refine Succeeds.get_bind ?_
  cases hf : b.farthest with
  | some f =>
    exact (succeeds_table (by rw [h.grid]; exact h.farthest f hf)).mono
      fun _ b' hb' => ⟨hb' ▸ Rechosen.refl b, f, hb' ▸ hf, h.farthest f hf⟩
  | none =>
    dsimp only
    refine Succeeds.get_bind ((succeeds_costs h.fit hl' (hl' _ (by rw [h.grid]; exact h.start))).bind
      fun st b₁ h₁ => ?_)
    refine Succeeds.get_bind ?_
    have hl₁ := (h.retabled h₁).linked hl
    have hfit₁ := h₁.fit h.fit
    -- the player's cell is a node, so there is a farthest one
    have hnodes : b₁.grid.nodes ≠ [] := List.ne_nil_of_mem (a := b₁.current)
      (List.mem_filter.2 ⟨Grid.mem_cells.2 (Grid.contains_of_isOpen hfit₁.current),
        hl₁ _ hfit₁.current⟩)
    obtain ⟨f, hfn, hfm⟩ := farthestNode_eq_some hnodes st
    have hfl : b₁.grid.linked f := (List.mem_filter.1 hfm).2
    simp only [hfn]
    refine (succeeds_note ((succeeds_describe hfit₁ hl₁ hfl).map fun _ _ h' => h')).bind
      fun _ b₂ h₂ => ?_
    have hl₂ := (h.retabled (h₁.trans h₂)).linked hl
    refine (succeeds_costs (h₂.fit hfit₁) hl₂ (by rw [h₂.grid]; exact hfl)).bind
      fun t b₃ h₃ => ?_
    refine (Succeeds.modify ?_).bind fun _ b₄ h₄ => Succeeds.pure h₄
    have h₀₃ : Rechosen b b₃ := (h₁.trans (h₂.trans h₃)).rechosen
    refine ⟨h₀₃.choose (some f), f, rfl, ?_⟩
    rw [← h.grid, ← h₁.grid]
    exact hfl

/-- The most distant remaining cell, when one remains, is a remaining cell. -/
theorem succeeds_mostDistant {order : SetOrder} (horder : ∀ l, (order l).Perm l)
    (hne : b.remaining ≠ []) :
    Succeeds (mostDistant order) b fun x b' => Ready g b' ∧ Rechosen b b' ∧ x.1 ∈ b.remaining := by
  have hl' := h.linked hl
  unfold mostDistant
  refine Succeeds.get_bind ((succeeds_costs h.fit hl' (hl' _ h.fit.current)).bind
    fun _ b₁ h₁ => ?_)
  have hr₁ := h.retabled h₁
  refine (succeeds_farthestCosts hr₁ hl).bind fun _ b₂ ⟨h₂, f, hf, hfl⟩ => ?_
  have hr₂ : Ready g b₂ := hr₁.rechosen h₂ fun f' hf' => by
    rw [hf] at hf'
    cases hf'
    exact hfl
  have h₀₂ : Rechosen b b₂ := h₁.rechosen.trans h₂
  have hl₂ := hr₂.linked hl
  refine Succeeds.get_bind ((succeeds_table (hl₂ _ hr₂.fit.current)).bind fun cur b₃ h₃ => ?_)
  subst b₃
  simp only [hf]
  refine (succeeds_table (by rw [hr₂.grid]; exact hfl)).bind fun inv b₄ h₄ => ?_
  subst b₄
  rw [if_neg (by rw [h₀₂.remaining]; simpa using hne), remainingKeys_eq hl₂ horder]
  dsimp only
  split
  · rename_i q s hx
    have hq : q ∈ b₂.remaining := by
      obtain ⟨⟨q', d⟩, hmem, hx'⟩ := List.mem_map.1 (mem_of_firstLeast hx)
      obtain ⟨y, hy, hyq⟩ := List.mem_map.1 hmem
      simp only [Prod.mk.injEq] at hyq hx'
      rw [← hx'.1, ← hyq.1]
      exact (horder _).subset hy
    exact Succeeds.pure ⟨hr₂, h₀₂, h₀₂.remaining ▸ hq⟩
  · rename_i hx
    exact absurd hx (firstLeast_ne_none _
      (by simpa [h₀₂.remaining] using order_ne_nil horder hne))

end Farthest

/-! ### The greedy walk -/

/-- The cell a round of the greedy walk picks first: the one remaining neighbour, the most
distant remaining cell at a fork, and the choice of the round before when no neighbour
remains. -/
def greedyPick (order : SetOrder) (b : Board) (prev : Option Choice) : Play (Option Choice) :=
  match b.freshNeighbours with
  | [] => pure prev
  | [q] => pure (some ⟨"1_neighbor", q, true⟩)
  | _ => do pure (some ⟨"fork_found", (← mostDistant order).1, false⟩)

/-- The rest of a round once its cell is chosen: announce it and walk there. -/
def greedyStep (find : Finder) (order : SetOrder) (fuel : Nat) (ch : Choice) : Play Unit := do
  if ch.cell == (← get).current then greedyFrom find order fuel (some ch)
  else
    Play.note (do
      let shown ← if ch.described then describe ch.cell else pure (cellText ch.cell)
      pure ("Action: " ++ ch.action ++ " " ++ shown))
    let _ ← goTo find ch.cell
    greedyFrom find order fuel (some ch)

/-- A round of the greedy walk: pick a cell, take the nearest remaining cell instead when the
pick is the player's own, and walk there. -/
theorem greedyFrom_succ (find : Finder) (order : SetOrder) (fuel : Nat) (prev : Option Choice) :
    greedyFrom find order (fuel + 1) prev = (do
      let b ← get
      if b.remaining.isEmpty then pure ()
      else
        match ← greedyPick order b prev with
        | none => Play.fail (.unassigned "next_position")
        | some ch =>
          if ch.cell == b.current then
            nearest order >>= fun x => greedyStep find order fuel ⟨"no_neighbors", x.1, false⟩
          else greedyStep find order fuel ch) := by
  rw [greedyFrom]
  congr 1
  funext b
  split
  · rfl
  · -- the definition repeats the rest of the round after each pick
    unfold greedyPick
    rcases b.freshNeighbours with _ | ⟨q, _ | ⟨q', qs⟩⟩
    · rcases prev with _ | ch
      · rfl
      · simp only [pure_bind]
        rfl
    · simp only [pure_bind]
      rfl
    · simp only [bind_assoc, pure_bind]
      rfl

section Greedy

variable {g : Grid} (hl : ∀ q, g.isOpen q → g.linked q) {order : SetOrder}
  (horder : ∀ l, (order l).Perm l)
include hl horder

/-- The first pick of a round is the choice of the round before, on the player's cell, or a
remaining cell; there is a choice before whenever no neighbour remains. -/
theorem succeeds_greedyPick {b : Board} {prev : Option Choice} (hb : Ready g b)
    (hne : b.remaining ≠ []) (hfirst : prev = none → b.freshNeighbours ≠ [])
    (hprev : ∀ ch, prev = some ch → ch.cell = b.current) :
    Succeeds (greedyPick order b prev) b fun picked b₁ => Ready g b₁ ∧ Rechosen b b₁ ∧
      ∃ ch, picked = some ch ∧ (ch.cell = b.current ∨ ch.cell ∈ b.remaining) := by
  unfold greedyPick
  split
  · rename_i hfr
    obtain ⟨ch, rfl⟩ := Option.ne_none_iff_exists'.1 fun h => hfirst h hfr
    exact Succeeds.pure ⟨hb, .refl b, ch, rfl, .inl (hprev ch rfl)⟩
  · rename_i q hfr
    have hq : q ∈ b.freshNeighbours := by rw [hfr]; exact List.mem_singleton_self q
    exact Succeeds.pure ⟨hb, .refl b, _, rfl, .inr (mem_remaining_of_fresh hq)⟩
  · exact (succeeds_mostDistant hb hl horder hne).bind fun x b₁ ⟨hr₁, h₁, hx⟩ =>
      Succeeds.pure ⟨hr₁, h₁, _, rfl, .inr hx⟩

variable (hj : ∀ p q, g.isOpen p → g.isOpen q → g.Joined p q) {find : Finder}
  (hfind : find.Walks g)
include hj hfind

omit horder in
/-- Walking to a remaining cell, then going on with rounds that succeed from every ready board
with fewer cells remaining, succeeds. -/
theorem succeeds_greedyStep {fuel : Nat} {P : Unit → Board → Prop}
    (ih : ∀ (prev : Option Choice) (b : Board), Ready g b → b.remaining.length < fuel →
      (prev = none → b.freshNeighbours ≠ []) → (∀ ch, prev = some ch → ch.cell = b.current) →
      Succeeds (greedyFrom find order fuel prev) b P)
    {b : Board} (hb : Ready g b) (hfuel : b.remaining.length ≤ fuel) {ch : Choice}
    (hc : ch.cell ∈ b.remaining) : Succeeds (greedyStep find order fuel ch) b P := by
  have hl' := hb.linked hl
  have hco := isOpen_of_mem_remaining hc
  unfold greedyStep
  refine Succeeds.get_bind ?_
  rw [if_neg (fun h => ne_current_of_mem_remaining hb.fit hc (beq_iff_eq.1 h))]
  refine (succeeds_note ?_).bind fun _ b₁ h₁ => ?_
  · dsimp only
    split
    · exact (succeeds_describe hb.fit hl' (hl' _ hco)).bind fun _ _ h' => Succeeds.pure h'
    · exact Succeeds.bind (Q := fun _ b' => Retabled b b') (Succeeds.pure (.refl b))
        fun _ _ h' => Succeeds.pure h'
  have hr₁ := hb.retabled h₁
  -- the player's cell and the chosen one are both open, so joined
  have hjoin : b₁.grid.Joined b₁.current ch.cell := by
    rw [hr₁.grid]
    exact hj _ _ (hr₁.grid ▸ hr₁.fit.current) (hb.grid ▸ hco)
  refine (succeeds_goTo (by rw [hr₁.grid]; exact hfind) hr₁.fit.current hjoin).bind
    fun _ b₂ h₂ => ?_
  obtain ⟨⟨dirs, rfl⟩, hcur⟩ := h₂
  have hlt := length_remaining_walk_lt hr₁.fit (h₁.remaining ▸ hc) hcur
  refine ih (some ch) _ (hr₁.walk dirs) (by rw [h₁.remaining] at hlt; omega)
    (fun h => by cases h) fun c hc' => ?_
  cases hc'
  exact hcur.symm

/-- The rounds of the greedy walk, from a ready board with more fuel than cells remaining,
succeed and leave nothing remaining, provided the choice of the round before stands on the
player's cell and, in the first round, the player has a remaining neighbour. Each round walks to
a remaining cell, so fewer cells remain after it. -/
theorem succeeds_greedyFrom (fuel : Nat) : ∀ (prev : Option Choice) (b : Board), Ready g b →
    b.remaining.length < fuel → (prev = none → b.freshNeighbours ≠ []) →
    (∀ ch, prev = some ch → ch.cell = b.current) →
    Succeeds (greedyFrom find order fuel prev) b fun _ b' => Ready g b' ∧ b'.remaining = [] := by
  induction fuel with
  | zero => intro _ _ _ h; omega
  | succ fuel ih =>
    intro prev b hb hfuel hfirst hprev
    rw [greedyFrom_succ]
    refine Succeeds.get_bind ?_
    split_ifs with hempty
    · exact Succeeds.pure ⟨hb, List.isEmpty_iff.1 hempty⟩
    have hne : b.remaining ≠ [] := by simpa using hempty
    refine (succeeds_greedyPick hl horder hb hne hfirst hprev).bind fun picked b₁ hpicked => ?_
    obtain ⟨hr₁, h₁, ch, rfl, hch⟩ := hpicked
    dsimp only
    have hfuel₁ : b₁.remaining.length ≤ fuel := by rw [h₁.remaining]; omega
    split_ifs with hcur
    · -- a pick on the player's cell gives way to the nearest remaining cell
      exact (succeeds_nearest hr₁.fit (hr₁.linked hl) horder
        (by rw [h₁.remaining]; exact hne)).bind fun x b₂ ⟨h₁₂, hx⟩ =>
          succeeds_greedyStep hl hj hfind ih (hr₁.retabled h₁₂)
            (by rw [h₁₂.remaining]; exact hfuel₁) (h₁₂.remaining ▸ hx)
    · have hnc : ch.cell ≠ b.current := fun h => hcur (beq_iff_eq.2 h)
      exact succeeds_greedyStep hl hj hfind ih hr₁ hfuel₁
        (h₁.remaining ▸ hch.resolve_left hnc)

/-- The greedy walk, from a ready board whose player has a remaining neighbour, succeeds with the
moves made and leaves nothing remaining. -/
theorem succeeds_greedy {b : Board} (hb : Ready g b) (hfresh : b.freshNeighbours ≠ []) :
    Succeeds (greedy find order) b fun moves b' =>
      Ready g b' ∧ b'.remaining = [] ∧ moves = b'.moves := by
  unfold greedy
  refine Succeeds.get_bind ((succeeds_greedyFrom hl horder hj hfind _ none b hb (by omega)
    (fun _ => hfresh)
    fun _ h => by cases h).bind fun _ b' ⟨hb', hrem⟩ => ?_)
  exact Succeeds.get_bind (Succeeds.pure ⟨hb', hrem, rfl⟩)

end Greedy

/-- **The greedy walk eats every cell.** On a grid with at least two open cells, all joined to
the start, the greedy walk on a fresh board, with a path finder that gives a walk to every cell
joined to the player's and with any order of going through the remaining cells, succeeds
whatever the console, gives the moves it made, and leaves no cell remaining. -/
theorem greedy_clears_board {g : Grid} {start : Cell} (hstart : g.isOpen start)
    (htwo : ∃ q, g.isOpen q ∧ q ≠ start) (hjoined : ∀ q, g.isOpen q → g.Joined start q)
    {find : Finder} (hfind : find.Walks g) {order : SetOrder} (horder : ∀ l, (order l).Perm l)
    (number : Int) (animate : Bool) (console : Console) :
    ∃ b console', ((greedy find order).run (create g start number animate)).run console =
      .ok (b.moves, b) console' ∧ b.remaining = [] := by
  have hl := linked_of_joined hstart htwo hjoined
  have hj : ∀ p q, g.isOpen p → g.isOpen q → g.Joined p q :=
    fun p q hp hq => ((hjoined p hp).symm hstart).trans (hjoined q hq)
  have hsm := Grid.contains_of_isOpen hstart
  -- the start is a node: it has a neighbour, which is not visited yet
  obtain ⟨q, hq⟩ := Grid.exists_mem_adjacent_of_linked (hl start hstart)
  have hfresh : (create g start number animate).freshNeighbours ≠ [] := by
    refine List.ne_nil_of_mem (a := q) (List.mem_filter.2 ⟨hq, ?_⟩)
    have hnv : ¬ (create g start number animate).isVisited q := fun hv =>
      Grid.ne_of_mem_adjacent hq ((isVisited_create hsm (Grid.contains_of_mem_adjacent hq)).1 hv)
    simpa using hnv
  obtain ⟨moves, b, console', hrun, -, hrem, rfl⟩ :=
    succeeds_greedy hl horder hj hfind (ready_create hstart number animate) hfresh console
  exact ⟨b, console', hrun, hrem⟩

/-- The greedy walk on a fresh row of three open cells, from the middle: a fork at once; with
the best-first search and the row-major order. -/
theorem greedy_clears_board_fork :
    let g : Grid := ⟨#[#['.', '.', '.']], 3, 1⟩
    g.isOpen (0, 1) ∧ (∃ q, g.isOpen q ∧ q ≠ (0, 1)) ∧ (∀ q, g.isOpen q → g.Joined (0, 1) q) ∧
      Finder.Walks Grid.search g ∧ (∀ l : List Cell, (id l).Perm l) ∧
      ∃ b console', ((greedy Grid.search id).run (create g (0, 1) 0 false)).run { input := [] } =
        .ok (b.moves, b) console' ∧ b.remaining = [] := by
  intro g
  have hs : g.isOpen (0, 1) := by decide
  have htwo : ∃ q, g.isOpen q ∧ q ≠ (0, 1) := ⟨(0, 0), by decide, by decide⟩
  have hj : ∀ q, g.isOpen q → g.Joined (0, 1) q := by
    rintro ⟨r, c⟩ hq
    have hcon := Grid.contains_iff.1 (Grid.contains_of_isOpen hq)
    simp only [g] at hcon
    obtain rfl : r = 0 := by omega
    rcases (by omega : c = 0 ∨ c = 1 ∨ c = 2) with rfl | rfl | rfl
    · exact .single (by decide)
    · exact .refl
    · exact .single (by decide)
  exact ⟨hs, htwo, hj, Grid.search_walks g, List.Perm.refl,
    greedy_clears_board hs htwo hj (Grid.search_walks g) List.Perm.refl 0 false { input := [] }⟩

end Board

end Lambdaman

end Interstellar
