import Interstellar.Proofs.Search
import Interstellar.Lambdaman.Plan

/-!
# The tour solver eats every cell

On a grid whose open cells, at least two of them, are all joined to the start, `Board.solve`
never fails and leaves nothing remaining; every letter of the moves it records is a step that
was made (`Board.solve_clears_board`).

The solver re-plans its tour after every walk from distances that each read wears, so nothing
about which cell it picks is predictable; the proof needs none of it. It rests on three facts:

* every computation the solver runs succeeds on a board reached from the start, whatever the
  console (`Play.Succeeds`): all cells it reads the costs of are nodes of the grid's graph, and
  so are all the visited cells that wear them (`Board.Fit`);
* the first cell of every tour is a remaining cell, so the solver never skips one, and walking to
  it visits it: each round leaves fewer cells remaining, and the fuel of `solve` lasts;
* a board changes only by steps and by its tables of costs, so the moves replayed from the start
  retrace its walk.
-/

namespace Interstellar

namespace Lambdaman

namespace Play

/-- `m` run from board `b` succeeds whatever the console, with a result and a board that satisfy
`P`. -/
def Succeeds {α : Type} (m : Play α) (b : Board) (P : α → Board → Prop) : Prop :=
  ∀ c : Console, ∃ a b' c', (m.run b).run c = .ok (a, b') c' ∧ P a b'

variable {α β : Type} {b : Board} {P Q : α → Board → Prop}

theorem Succeeds.mono {m : Play α} (h : Succeeds m b Q) (hQ : ∀ a b', Q a b' → P a b') :
    Succeeds m b P := fun c => by
  obtain ⟨a, b', c', hr, hq⟩ := h c
  exact ⟨a, b', c', hr, hQ a b' hq⟩

theorem Succeeds.pure {a : α} (h : P a b) : Succeeds (Pure.pure a) b P :=
  fun c => ⟨a, b, c, rfl, h⟩

theorem Succeeds.bind {m : Play α} {f : α → Play β} {P : β → Board → Prop}
    (h : Succeeds m b Q) (hf : ∀ a b', Q a b' → Succeeds (f a) b' P) :
    Succeeds (m >>= f) b P := by
  intro c
  obtain ⟨a, b₁, c₁, h₁, hq⟩ := h c
  obtain ⟨a₂, b₂, c₂, h₂, hp⟩ := hf a b₁ hq c₁
  exact ⟨a₂, b₂, c₂, by rw [StateT.run_bind, EStateM.run_bind, h₁]; exact h₂, hp⟩

theorem Succeeds.get_bind {f : Board → Play α} (h : Succeeds (f b) b P) :
    Succeeds (get >>= f) b P :=
  Succeeds.bind (Q := fun b₁ b₂ => b₁ = b ∧ b₂ = b) (fun c => ⟨b, b, c, rfl, rfl, rfl⟩)
    fun _ _ ⟨h₁, h₂⟩ => h₁ ▸ h₂ ▸ h

theorem Succeeds.set {b' : Board} {P : PUnit → Board → Prop} (h : P ⟨⟩ b') :
    Succeeds (MonadState.set b') b P :=
  fun c => ⟨⟨⟩, b', c, rfl, h⟩

theorem Succeeds.write {s : String} {P : Unit → Board → Prop} (h : P () b) :
    Succeeds (Play.write s) b P :=
  fun _ => ⟨(), b, _, rfl, h⟩

theorem Succeeds.say {s : String} {P : Unit → Board → Prop} (h : P () b) :
    Succeeds (Play.say s) b P :=
  fun _ => ⟨(), b, _, rfl, h⟩

end Play

namespace Board

open Play

/-! ### Boards reached from the start -/

section Tables

variable (b : Board) (t : Array (Option Costs))

theorem step?_retable (dir : String) :
    ({ b with tables := t }).step? dir = (b.step? dir).map fun b' => { b' with tables := t } := by
  rw [step?_eq, step?_eq]
  cases aim b.current dir with
  | none => rfl
  | some p => by_cases h : b.grid.isOpen p <;> simp [h, enter]

theorem walk_retable (dirs : List String) :
    ({ b with tables := t }).walk dirs = { b.walk dirs with tables := t } := by
  induction dirs generalizing b with
  | nil => rfl
  | cons dir dirs ih =>
    rw [walk, walk, step?_retable]
    cases b.step? dir with
    | none => exact ih b
    | some b' => exact ih b'

theorem walk_tables (dirs : List String) : (b.walk dirs).tables = b.tables := by
  induction dirs generalizing b with
  | nil => rfl
  | cons dir dirs ih =>
    rw [walk, ih]
    cases h : b.step? dir with
    | none => rfl
    | some b' => obtain ⟨p, -, -, rfl⟩ := step?_eq_some_iff.1 h; rfl

theorem walk_append (ds es : List String) : (b.walk ds).walk es = b.walk (ds ++ es) := by
  induction ds generalizing b with
  | nil => rfl
  | cons d ds ih => exact ih _

end Tables

/-- The player stands on an open visited cell, only open cells are visited, and the marks have
one entry per cell. -/
structure Fit (b : Board) : Prop where
  sized : b.Sized
  current : b.grid.isOpen b.current
  visited_current : b.isVisited b.current
  visited : ∀ q, b.grid.contains q → b.isVisited q → b.grid.isOpen q

section Fit

variable {b : Board}

theorem Fit.enter (hb : b.Fit) (dir : String) {p : Cell} (hp : b.grid.isOpen p) :
    (b.enter dir p).Fit := by
  have hpm := Grid.contains_of_isOpen hp
  refine ⟨hb.sized.enter dir p, hp, (isVisited_enter hb.sized hpm hpm).2 (.inr rfl),
    fun q hq hv => ?_⟩
  rcases (isVisited_enter hb.sized hpm hq).1 hv with hv | rfl
  · exact hb.visited q hq hv
  · exact hp

theorem Fit.walk (hb : b.Fit) (dirs : List String) : (b.walk dirs).Fit := by
  induction dirs generalizing b with
  | nil => exact hb
  | cons dir dirs ih =>
    rcases walk_cons b dir dirs with ⟨-, hw, -⟩ | ⟨p, -, hp, hw, -⟩
    · rw [hw]; exact ih hb
    · rw [hw]; exact ih (hb.enter dir hp)

theorem Fit.retable (hb : b.Fit) (t : Array (Option Costs)) : ({ b with tables := t }).Fit :=
  ⟨⟨hb.sized.1, hb.sized.2⟩, hb.current, hb.visited_current, hb.visited⟩

theorem fit_create {g : Grid} {start : Cell} (hs : g.isOpen start) (number : Int)
    (animate : Bool) : (create g start number animate).Fit := by
  have hsm := Grid.contains_of_isOpen hs
  refine ⟨sized_create g start number animate, hs, (isVisited_create hsm hsm).2 rfl,
    fun q hq hv => ?_⟩
  rw [(isVisited_create hsm hq).1 hv]
  exact hs

/-- A visited cell stays visited along a walk. -/
theorem Fit.isVisited_walk (hb : b.Fit) {q : Cell} (hq : b.grid.contains q) (hv : b.isVisited q)
    (dirs : List String) : (b.walk dirs).isVisited q :=
  (Board.isVisited_walk hb.sized dirs hq).2 (.inl hv)

end Fit

/-- `b` is reached from `b₀` by steps, with its costs read any number of times. -/
def Reached (b₀ b : Board) : Prop := ∃ dirs t, b = { b₀.walk dirs with tables := t }

section Reached

variable {b₀ b : Board}

theorem Reached.refl (b₀ : Board) : Reached b₀ b₀ := ⟨[], b₀.tables, rfl⟩

theorem Reached.retable (h : Reached b₀ b) (t : Array (Option Costs)) :
    Reached b₀ { b with tables := t } := by
  obtain ⟨dirs, t', rfl⟩ := h
  exact ⟨dirs, t, rfl⟩

theorem Reached.walk (h : Reached b₀ b) (dirs : List String) : Reached b₀ (b.walk dirs) := by
  obtain ⟨ds, t, rfl⟩ := h
  exact ⟨ds ++ dirs, t, by rw [walk_retable, walk_append]⟩

theorem Reached.fit (h₀ : b₀.Fit) (h : Reached b₀ b) : b.Fit := by
  obtain ⟨dirs, t, rfl⟩ := h
  exact (h₀.walk dirs).retable t

theorem Reached.grid (h : Reached b₀ b) : b.grid = b₀.grid := by
  obtain ⟨dirs, t, rfl⟩ := h
  exact walk_grid b₀ dirs

end Reached

/-- `b'` is `b` with other tables of costs. -/
def Retabled (b b' : Board) : Prop := ∃ t, b' = { b with tables := t }

theorem Retabled.refl (b : Board) : Retabled b b := ⟨b.tables, rfl⟩

section Retabled

variable {b b' : Board}

theorem Retabled.trans {b'' : Board} (h₁ : Retabled b b') (h₂ : Retabled b' b'') :
    Retabled b b'' := by
  obtain ⟨t, rfl⟩ := h₁
  obtain ⟨t', rfl⟩ := h₂
  exact ⟨t', rfl⟩

theorem Retabled.grid (h : Retabled b b') : b'.grid = b.grid := by
  obtain ⟨t, rfl⟩ := h; rfl

theorem Retabled.current (h : Retabled b b') : b'.current = b.current := by
  obtain ⟨t, rfl⟩ := h; rfl

theorem Retabled.isVisited (h : Retabled b b') : b'.isVisited = b.isVisited := by
  obtain ⟨t, rfl⟩ := h; rfl

theorem Retabled.remaining (h : Retabled b b') : b'.remaining = b.remaining := by
  obtain ⟨t, rfl⟩ := h; rfl

theorem Retabled.moves (h : Retabled b b') : b'.moves = b.moves := by
  obtain ⟨t, rfl⟩ := h; rfl

theorem Retabled.retable_eq (h : Retabled b b') : { b' with tables := b.tables } = b := by
  obtain ⟨t, rfl⟩ := h; rfl

theorem Retabled.fit (h : Retabled b b') (hb : b.Fit) : b'.Fit := by
  obtain ⟨t, rfl⟩ := h; exact hb.retable t

theorem Retabled.reached {b₀ : Board} (h : Retabled b b') (h₀ : Reached b₀ b) : Reached b₀ b' := by
  obtain ⟨t, rfl⟩ := h; exact h₀.retable t

end Retabled

/-! ### Reading costs

Reading the costs of a cell fails only on a cell outside the graph, and wearing them only on a
visited cell outside it. -/

section Costs

variable {b : Board} {p : Cell}

theorem succeeds_table (hp : b.grid.linked p) : Succeeds (table p) b fun _ b' => b' = b := by
  unfold table
  refine Succeeds.get_bind ?_
  split
  · exact Succeeds.pure rfl
  · rw [if_pos hp]
    exact Succeeds.pure rfl

theorem wear_ok (hb : b.Fit) (hl : ∀ q, b.grid.isOpen q → b.grid.linked q) (d : Array Dist) :
    ∃ d', b.wear d = .ok d' := by
  unfold wear
  have hcells : ∀ q ∈ b.grid.cells, b.grid.contains q := fun q hq => Grid.mem_cells.1 hq
  generalize b.grid.cells = l at hcells ⊢
  induction l generalizing d with
  | nil => exact ⟨d, rfl⟩
  | cons q l ih =>
    have hq := hcells q List.mem_cons_self
    have hl' : ∀ r ∈ l, b.grid.contains r := fun r hr => hcells r (List.mem_cons_of_mem q hr)
    rw [List.foldlM_cons]
    by_cases hv : b.isVisited q
    · rw [if_pos hv, if_pos (hl q (hb.visited q hq hv))]
      exact ih _ hl'
    · rw [if_neg hv]
      exact ih _ hl'

variable (hb : b.Fit) (hl : ∀ q, b.grid.isOpen q → b.grid.linked q)
include hb hl

theorem succeeds_costs (hp : b.grid.linked p) :
    Succeeds (costs p) b fun _ b' => Retabled b b' := by
  unfold costs
  refine (succeeds_table hp).bind ?_
  rintro t b' rfl
  refine Succeeds.get_bind ?_
  obtain ⟨d, hd⟩ := wear_ok hb hl t.dist
  rw [hd]
  exact (Succeeds.set ⟨_, rfl⟩).bind fun _ _ h => Succeeds.pure h

theorem succeeds_totalCost (hp : b.grid.linked p) :
    Succeeds (totalCost p) b fun _ b' => Retabled b b' := by
  unfold totalCost
  exact (succeeds_costs hb hl hp).bind fun _ _ h => Succeeds.get_bind (Succeeds.pure h)

theorem succeeds_describe (hp : b.grid.linked p) :
    Succeeds (describe p) b fun _ b' => Retabled b b' := by
  unfold describe
  exact (succeeds_totalCost hb hl hp).bind fun _ _ h => Succeeds.get_bind (Succeeds.pure h)

end Costs

/-! ### Walking to a cell -/

/-- The direction toward a neighbour aims at it. -/
theorem aims_toward {g : Grid} {here p : Cell} (h : p ∈ g.adjacent here) :
    Aims here (toward here p) p := by
  obtain ⟨r, c⟩ := here
  obtain ⟨-, hp⟩ := Grid.mem_adjacent.1 h
  unfold Aims toward
  rcases hp with ⟨h0, rfl⟩ | rfl | ⟨h0, rfl⟩ | rfl
  · have : ¬ r - 1 > r := by omega
    have : r - 1 < r := by omega
    simp_all
  · simp
  · have : ¬ c - 1 > c := by omega
    have : c - 1 < c := by omega
    simp_all
  · simp

theorem step?_toward_self (b : Board) : b.step? (toward b.current b.current) = none := by
  simp [step?_eq, toward, aim]

/-- A step toward the player's own cell or a neighbour of it ends there. -/
theorem current_walk_toward {b : Board} {p : Cell}
    (hp : p = b.current ∨ p ∈ b.grid.adjacent b.current) :
    (b.walk [toward b.current p]).current = p := by
  rcases hp with rfl | hp
  · simp [walk, step?_toward_self]
  · have hstep : b.step? (toward b.current p) = some (b.enter (toward b.current p) p) :=
      step?_eq_some_iff.2 ⟨p, aims_toward hp, Grid.isOpen_of_mem_adjacent hp, rfl⟩
    simp [walk, hstep]

theorem succeeds_move {b : Board} (dir : String) :
    Succeeds (move dir) b fun _ b' => b' = b.walk [dir] :=
  fun c => ⟨_, _, c, by rw [run_move]; rfl, rfl⟩

theorem succeeds_frame {b : Board} : Succeeds frame b fun _ b' => b' = b := by
  unfold frame
  refine Succeeds.get_bind ?_
  split
  · exact Succeeds.write rfl
  · exact Succeeds.pure rfl

/-- Following a walk that starts on the player's cell or next to it takes the player to its
end, by steps. -/
theorem succeeds_follow {g : Grid} {a c : Cell} {path : List Cell} (hw : g.Walk a path c) :
    ∀ b : Board, b.grid = g → (a = b.current ∨ a ∈ g.adjacent b.current) →
      Succeeds (follow path) b fun _ b' => (∃ dirs, b' = b.walk dirs) ∧ b'.current = c := by
  induction hw with
  | single a =>
    intro b hg ha
    unfold follow
    refine Succeeds.get_bind ((succeeds_move _).bind fun _ b₁ h₁ => ?_)
    refine succeeds_frame.bind fun _ b₂ h₂ => ?_
    subst h₁ h₂
    unfold follow
    exact Succeeds.pure ⟨⟨_, rfl⟩, current_walk_toward (hg ▸ ha)⟩
  | cons hab _ ih =>
    intro b hg ha
    unfold follow
    refine Succeeds.get_bind ((succeeds_move _).bind fun _ b₁ h₁ => ?_)
    refine succeeds_frame.bind fun _ b₂ h₂ => ?_
    subst h₁ h₂
    have hcur := current_walk_toward (hg ▸ ha)
    refine (ih _ (by rw [walk_grid, hg]) (.inr (by rw [hcur]; exact hab))).mono ?_
    rintro _ _ ⟨⟨dirs, rfl⟩, hc⟩
    exact ⟨⟨_ :: dirs, walk_append _ _ _⟩, hc⟩

/-- Walking with a path finder that keeps its promise to a cell joined to the player's takes
the player there, by steps. -/
theorem succeeds_goTo {b : Board} {find : Finder} (hfind : find.Walks b.grid) {c : Cell}
    (hcur : b.grid.isOpen b.current) (hc : b.grid.Joined b.current c) :
    Succeeds (goTo find c) b fun _ b' => (∃ dirs, b' = b.walk dirs) ∧ b'.current = c := by
  unfold goTo
  refine Succeeds.get_bind ?_
  split_ifs with h₁ h₂
  · exact Succeeds.pure ⟨⟨[], rfl⟩, (beq_iff_eq.1 h₁).symm⟩
  · -- a neighbour: one step
    have hadj : c ∈ b.grid.adjacent b.current := List.contains_iff_mem.1 h₂
    refine (succeeds_move _).bind fun _ b₁ h₁ => ?_
    subst h₁
    have hcur := current_walk_toward (.inr hadj)
    split
    · exact succeeds_frame.bind fun _ b₂ h₂ => Succeeds.pure ⟨⟨_, h₂⟩, h₂ ▸ hcur⟩
    · exact Succeeds.pure ⟨⟨_, rfl⟩, hcur⟩
  · -- farther: along the walk the path finder gives
    obtain ⟨path, hpath, hwalk⟩ := hfind _ _ hcur hc
    rw [hpath]
    exact (succeeds_follow hwalk b rfl (.inl rfl)).bind fun _ _ h => Succeeds.pure h

/-! ### Tours -/

/-- Keeping the least so far, a fold over cells ends on one of them. -/
theorem mem_foldl_least {κ : Type} (lt : κ → κ → Bool) (cs : List (Cell × κ)) (c : Cell × κ) :
    cs.foldl (fun best x => if lt x.2 best.2 then x else best) c ∈ c :: cs := by
  induction cs generalizing c with
  | nil => simp
  | cons d ds ih =>
    rw [List.foldl_cons]
    split
    · exact List.mem_cons_of_mem c (ih d)
    · rcases List.mem_cons.1 (ih c) with h | h
      · rw [h]
        exact List.mem_cons_self
      · exact List.mem_cons_of_mem c (List.mem_cons_of_mem d h)

theorem firstLeast_eq_some {κ : Type} (lt : κ → κ → Bool) {l : List (Cell × κ)} (h : l ≠ []) :
    ∃ x, firstLeast lt l = some x ∧ x ∈ l := by
  obtain ⟨c, cs, rfl⟩ := List.exists_cons_of_ne_nil h
  exact ⟨_, rfl, mem_foldl_least lt cs c⟩

theorem farthestNode_eq_some {g : Grid} (h : g.nodes ≠ []) (t : Costs) :
    ∃ f, farthestNode g t = some f ∧ f ∈ g.nodes := by
  obtain ⟨x, hx, hmem⟩ := firstLeast_eq_some (fun a b => Dist.lt b a)
    (l := g.nodes.map fun p => (p, t.at g p)) (by simpa using h)
  obtain ⟨p, hp, rfl⟩ := List.mem_map.1 hmem
  exact ⟨p, by simp [farthestNode, hx], hp⟩

/-- A ranking of entries that are not none starts with one of them. -/
theorem rank_eq_cons (g : Grid) (sd : Costs) {entries : List (Cell × Score)} (h : entries ≠ [])
    (limit : Nat) : ∃ c s rest, rank g sd (limit + 1) entries = (c, s) :: rest ∧
      (c, s) ∈ entries := by
  obtain ⟨⟨c, s⟩, hx, hmem⟩ := firstLeast_eq_some Score.lt h
  exact ⟨c, s, _, by rw [rank, hx], hmem⟩

theorem mapM_eq_pure {m : Type → Type} [Monad m] [LawfulMonad m] {α β : Type} {f : α → m β}
    {h : α → β} : ∀ {l : List α}, (∀ x ∈ l, f x = pure (h x)) → l.mapM f = pure (l.map h)
  | [], _ => by simp
  | x :: l, hf => by
    rw [List.mapM_cons, hf x List.mem_cons_self,
      mapM_eq_pure fun y hy => hf y (List.mem_cons_of_mem x hy)]
    simp

theorem isOpen_of_mem_remaining {b : Board} {c : Cell} (hc : c ∈ b.remaining) :
    b.grid.isOpen c := by
  obtain ⟨hm, h⟩ := List.mem_filter.1 hc
  simp only [Bool.and_eq_true, Bool.not_eq_true'] at h
  simp [Grid.isOpen, Grid.mem_cells.1 hm, h.2]

theorem mem_remaining_of_isOpen {b : Board} {c : Cell} (ho : b.grid.isOpen c)
    (hv : b.isVisited c = false) : c ∈ b.remaining := by
  simp only [Grid.isOpen, Bool.and_eq_true, Bool.not_eq_true'] at ho
  exact List.mem_filter.2 ⟨Grid.mem_cells.2 ho.1, by simp [hv, ho.2]⟩

theorem not_isVisited_of_mem_remaining {b : Board} {c : Cell} (hc : c ∈ b.remaining) :
    b.isVisited c = false := by
  obtain ⟨-, h⟩ := List.mem_filter.1 hc
  simp only [Bool.and_eq_true, Bool.not_eq_true'] at h
  exact h.1

/-- An order that lists the cells of a set, each once, lists some cell of a set that has one. -/
theorem order_ne_nil {order : SetOrder} (horder : ∀ l, (order l).Perm l) {l : List Cell}
    (h : l ≠ []) : order l ≠ [] := by
  intro he
  have hp := horder l
  rw [he] at hp
  exact h hp.nil_eq.symm

/-- A tour, read on a fit board of a grid whose open cells are nodes, succeeds; it starts with a
remaining cell whenever one remains, in whatever order the remaining cells are gone through. -/
theorem succeeds_tour {b : Board} (hb : b.Fit) (hl : ∀ q, b.grid.isOpen q → b.grid.linked q)
    {order : SetOrder} (horder : ∀ l, (order l).Perm l) :
    Succeeds (tour order) b fun path b' => Retabled b b' ∧
      (b.remaining ≠ [] → ∃ c s rest, path = (c, s) :: rest ∧ c ∈ b.remaining) := by
  have hnodes : b.grid.nodes ≠ [] := List.ne_nil_of_mem (a := b.current)
    (List.mem_filter.2 ⟨Grid.mem_cells.2 (Grid.contains_of_isOpen hb.current), hl _ hb.current⟩)
  unfold tour
  refine Succeeds.get_bind ((succeeds_costs hb hl (hl _ hb.current)).bind fun t₀ b₁ h₁ => ?_)
  refine Succeeds.get_bind ?_
  obtain ⟨f, hf, hfm⟩ := farthestNode_eq_some (h₁.grid ▸ hnodes) t₀
  have hfl : b₁.grid.linked f := (List.mem_filter.1 hfm).2
  have hl₁ : ∀ q, b₁.grid.isOpen q → b₁.grid.linked q := h₁.grid ▸ hl
  simp only [hf]
  refine (succeeds_costs (h₁.fit hb) hl₁ hfl).bind fun _ b₂ h₂ => ?_
  have h₁₂ := h₁.trans h₂
  refine Succeeds.get_bind ((succeeds_table (b := b₂) ?_).bind fun sd b₃ h₃ => ?_)
  · rw [h₁₂.grid, h₁₂.current]; exact hl _ hb.current
  subst b₃
  refine (succeeds_table (b := b₂) (by rw [h₂.grid]; exact hfl)).bind fun inv b₄ h₄ => ?_
  subst b₄
  rw [mapM_eq_pure (h := fun q => (q, Score.quotient (sd.at b₁.grid q) (inv.at b₁.grid q)))
    fun q hq => if_pos (hl₁ q (h₂.grid ▸ isOpen_of_mem_remaining ((horder _).subset hq))),
    pure_bind]
  refine Succeeds.pure ⟨h₁₂, fun hne => ?_⟩
  rw [← h₁₂.remaining] at hne ⊢
  have hne' : (order b₂.remaining).map (fun q => (q, Score.quotient (sd.at b₁.grid q)
      (inv.at b₁.grid q))) ≠ [] := by
    simpa using order_ne_nil horder hne
  obtain ⟨c, s, rest, hrank, hmem⟩ := rank_eq_cons b₁.grid sd hne' 14
  obtain ⟨q, hq, hqc⟩ := List.mem_map.1 hmem
  simp only [Prod.mk.injEq] at hqc
  exact ⟨c, s, rest, hrank, hqc.1 ▸ (horder _).subset hq⟩

theorem succeeds_note {b : Board} {line : Play String}
    (h : Succeeds line b fun _ b' => Retabled b b') :
    Succeeds (Play.note line) b fun _ b' => Retabled b b' := by
  unfold Play.note
  refine Succeeds.get_bind ?_
  split
  · exact Succeeds.pure (.refl b)
  · exact h.bind fun _ _ h' => Succeeds.say h'

/-! ### The solver -/

/-- Walking to a remaining cell leaves fewer cells remaining. -/
theorem length_remaining_walk_lt {b : Board} (hb : b.Fit) {c : Cell} (hc : c ∈ b.remaining)
    {dirs : List String} (hcur : (b.walk dirs).current = c) :
    (b.walk dirs).remaining.length < b.remaining.length := by
  have hfit := hb.walk dirs
  have hcv : (b.walk dirs).isVisited c := hcur ▸ hfit.visited_current
  have heq : (b.walk dirs).remaining = b.remaining.filter fun q => !(b.walk dirs).isVisited q := by
    simp only [remaining, walk_grid, List.filter_filter]
    refine List.filter_congr fun q hq => ?_
    cases hv : b.isVisited q
    · simp
    · simp [hb.isVisited_walk (Grid.mem_cells.1 hq) hv dirs]
  rw [heq, List.length_filter_lt_length_iff_exists]
  exact ⟨c, hc, by simp [hcv]⟩

section Solve

variable {b₀ : Board} (h₀ : b₀.Fit) (hl : ∀ q, b₀.grid.isOpen q → b₀.grid.linked q)
  (hj : ∀ q, b₀.grid.isOpen q → b₀.grid.Joined b₀.current q) {find : Finder}
  (hfind : find.Walks b₀.grid) {order : SetOrder} (horder : ∀ l, (order l).Perm l)
include h₀ hl hj hfind horder

/-- The rounds of the solver, from a board reached from `b₀` whose tour starts with a remaining
cell when one remains, and with more fuel than cells remaining, succeed and leave nothing
remaining. Each round walks to the first cell of the tour, which is remaining, so fewer cells
remain after it. -/
theorem succeeds_solveFrom (fuel : Nat) : ∀ (path : List (Cell × Score)) (b : Board),
    Reached b₀ b → b.remaining.length < fuel →
    (b.remaining ≠ [] → ∃ c s rest, path = (c, s) :: rest ∧ c ∈ b.remaining) →
    Succeeds (solveFrom find order fuel path) b fun _ b' => Reached b₀ b' ∧ b'.remaining = [] := by
  induction fuel with
  | zero => intro _ _ _ h; omega
  | succ fuel ih =>
    intro path b hr hfuel hpath
    have hb := hr.fit h₀
    have hlb : ∀ q, b.grid.isOpen q → b.grid.linked q := hr.grid ▸ hl
    unfold solveFrom
    refine Succeeds.get_bind ?_
    split_ifs with hempty
    · exact Succeeds.pure ⟨hr, List.isEmpty_iff.1 hempty⟩
    obtain ⟨c, s, rest, rfl, hc⟩ := hpath (by simpa using hempty)
    have hco := isOpen_of_mem_remaining hc
    refine Succeeds.get_bind ?_
    dsimp only
    refine (succeeds_note ((succeeds_describe hb hlb (hlb c hco)).bind
      fun _ _ h => Succeeds.pure h)).bind fun _ b₁ h₁ => ?_
    refine Succeeds.get_bind ?_
    rw [h₁.isVisited, not_isVisited_of_mem_remaining hc]
    -- the player's cell and `c` are both joined to the start
    have hjoin : b₁.grid.Joined b₁.current c := by
      have hs : b₀.grid.isOpen b₀.current := h₀.current
      have hcur : b₀.grid.isOpen b₁.current := by
        rw [← hr.grid, ← h₁.grid]; exact (h₁.fit hb).current
      rw [hr.grid] at hco
      rw [h₁.grid, hr.grid]
      exact ((hj _ hcur).symm hs).trans (hj c hco)
    have hfind₁ : find.Walks b₁.grid := by rw [h₁.grid, hr.grid]; exact hfind
    refine ((succeeds_goTo hfind₁ (h₁.fit hb).current hjoin).bind fun _ b₂ h₂ => ?_)
    obtain ⟨⟨dirs, rfl⟩, hcur⟩ := h₂
    have hr₂ : Reached b₀ (b₁.walk dirs) := (h₁.reached hr).walk dirs
    have hlt := length_remaining_walk_lt (h₁.fit hb) (h₁.remaining ▸ hc) hcur
    refine (succeeds_tour (hr₂.fit h₀) (hr₂.grid ▸ hl) horder).bind fun path b₃ h₃ => ?_
    refine ih path b₃ (h₃.1.reached hr₂) ?_ fun hne => ?_
    · rw [h₃.1.remaining, ← h₁.remaining] at *
      omega
    · exact h₃.1.remaining ▸ h₃.2 (h₃.1.remaining ▸ hne)

/-- The solver, from a board of a grid whose open cells are nodes all joined to the player's,
succeeds and leaves nothing remaining, on a board reached by steps. -/
theorem succeeds_solve :
    Succeeds (solve find order) b₀ fun _ b' => Reached b₀ b' ∧ b'.remaining = [] := by
  unfold solve
  refine (succeeds_tour h₀ hl horder).bind fun path b₁ h₁ => Succeeds.get_bind ?_
  refine succeeds_solveFrom h₀ hl hj hfind horder _ path b₁ (h₁.1.reached (.refl b₀)) ?_
    (h₁.1.remaining ▸ h₁.2)
  simp only [tourLimit]
  omega

end Solve

/-- On a grid with at least two open cells, all joined to `start`, every open cell is a node of
the graph: it has an open neighbour. -/
theorem linked_of_joined {g : Grid} {start : Cell} (hs : g.isOpen start)
    (htwo : ∃ q, g.isOpen q ∧ q ≠ start) (hj : ∀ q, g.isOpen q → g.Joined start q) (q : Cell)
    (hq : g.isOpen q) : g.linked q := by
  suffices h : ∃ r, r ∈ g.adjacent q by
    obtain ⟨r, hr⟩ := h
    simp [Grid.linked, hq, List.ne_nil_of_mem hr]
  by_cases hqs : q = start
  · -- the start has a neighbour on the way to another open cell
    subst hqs
    obtain ⟨r, hr, hrs⟩ := htwo
    rcases Relation.ReflTransGen.cases_head (hj r hr) with h | ⟨p, hp, -⟩
    · exact absurd h.symm hrs
    · exact ⟨p, hp⟩
  · -- any other open cell is entered from a neighbour
    rcases Relation.ReflTransGen.cases_tail (hj q hq) with h | ⟨p, hsp, hpq⟩
    · exact absurd h hqs
    · exact ⟨p, Grid.mem_adjacent_comm hpq (Grid.Joined.isOpen hs hsp)⟩

/-- **The tour solver eats every cell.** On a grid with at least two open cells, all joined to
the start, solving a fresh board with a path finder that gives a walk to every cell joined to
the player's, and with any order of going through the remaining cells, succeeds whatever the
console; afterwards no cell remains, every open cell is the start or was entered, and the moves
recorded, replayed from the fresh board, are all made and retrace the walk. -/
theorem solve_clears_board {g : Grid} {start : Cell} (hstart : g.isOpen start)
    (htwo : ∃ q, g.isOpen q ∧ q ≠ start) (hjoined : ∀ q, g.isOpen q → g.Joined start q)
    {find : Finder} (hfind : find.Walks g) {order : SetOrder} (horder : ∀ l, (order l).Perm l)
    (number : Int) (animate : Bool) (console : Console) :
    let b₀ := create g start number animate
    ∃ b console', ((solve find order).run b₀).run console = .ok ((), b) console' ∧
      b.remaining = [] ∧
      (∀ q, g.isOpen q → q = start ∨ q ∈ b₀.entered (letters b.moves)) ∧
      b₀.walk (letters b.moves) = { b with tables := b₀.tables } ∧
      ∀ x ∈ b₀.outcomes (letters b.moves), x = true := by
  intro b₀
  have h₀ : b₀.Fit := fit_create hstart number animate
  obtain ⟨u, b, console', hrun, ⟨dirs, t, hb⟩, hrem⟩ :=
    succeeds_solve h₀ (linked_of_joined hstart htwo hjoined) hjoined hfind horder console
  have hrt : Retabled (b₀.walk dirs) b := ⟨t, hb⟩
  obtain ⟨m, hm, hw, ho⟩ := walk_letters b₀ dirs
  have hmoves : b.moves = m := by
    rw [hrt.moves, hm]
    simp [b₀, create]
  have hsm := Grid.contains_of_isOpen hstart
  refine ⟨_, console', hrun, hrem, fun q hq => ?_, ?_, ?_⟩
  · -- an open cell does not remain, so it is visited
    have hqm := Grid.contains_of_isOpen hq
    have hv : (b₀.walk dirs).isVisited q := by
      by_contra hv
      have hmem := mem_remaining_of_isOpen (b := b₀.walk dirs) (by rw [walk_grid]; exact hq)
        (by simpa using hv)
      rw [← hrt.remaining, hrem] at hmem
      simp at hmem
    rw [← hw, isVisited_walk (sized_create g start number animate) _ hqm,
      isVisited_create hsm hqm] at hv
    rwa [hmoves]
  · rw [← walk_tables b₀ dirs, hrt.retable_eq, hmoves, hw]
  · rw [hmoves]
    exact ho

/-- Solving a fresh board on a row of two open cells, from its left end, with the best-first
search and the row-major order. -/
theorem solve_clears_board_pair :
    let g : Grid := ⟨#[#['.', '.']], 2, 1⟩
    g.isOpen (0, 0) ∧ (∃ q, g.isOpen q ∧ q ≠ (0, 0)) ∧ (∀ q, g.isOpen q → g.Joined (0, 0) q) ∧
      Finder.Walks Grid.search g ∧ (∀ l : List Cell, (id l).Perm l) ∧
      let b₀ := create g (0, 0) 0 false
      ∃ b console', ((solve Grid.search id).run b₀).run { input := [] } = .ok ((), b) console' ∧
        b.remaining = [] ∧
        (∀ q, g.isOpen q → q = (0, 0) ∨ q ∈ b₀.entered (letters b.moves)) ∧
        b₀.walk (letters b.moves) = { b with tables := b₀.tables } ∧
        ∀ x ∈ b₀.outcomes (letters b.moves), x = true := by
  intro g
  have hs : g.isOpen (0, 0) := by decide
  have htwo : ∃ q, g.isOpen q ∧ q ≠ (0, 0) := ⟨(0, 1), by decide, by decide⟩
  have hj : ∀ q, g.isOpen q → g.Joined (0, 0) q := by
    rintro ⟨r, c⟩ hq
    have hcon := Grid.contains_iff.1 (Grid.contains_of_isOpen hq)
    simp only [g] at hcon
    have hr : r = 0 := by omega
    have hc : c = 0 ∨ c = 1 := by omega
    subst hr
    rcases hc with rfl | rfl
    · exact .refl
    · exact .single (by decide)
  exact ⟨hs, htwo, hj, Grid.search_walks g, List.Perm.refl,
    solve_clears_board hs htwo hj (Grid.search_walks g) List.Perm.refl 0 false { input := [] }⟩

end Board

end Lambdaman

end Interstellar
