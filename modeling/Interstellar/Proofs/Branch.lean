import Interstellar.Proofs.Wear

/-!
# Counting branches

`Grid.branchCount p` runs a depth-first search from `p` and counts the cells it enters: `p` is
marked first, then each of its neighbours in turn that is not marked yet is counted and searched
from in the same way. All the searches share one array of marks and one count, so a cell that
one search marks is passed over by every later one.

* `Grid.Searched`: what one search from `p` does to the marks and the count, stated for every
  marks it may start from; `Grid.searched_dfs` proves it by induction on the depth, through
  `Grid.Grew`, what the searches from the neighbours do one after another;
* `Grid.branchCount_eq_ncard`: the count is the number of cells joined to `p`, less one;
* `Board.succeeds_byBranch`: the neighbours of an open cell are joined to each other through it,
  so they all have the same count, and the choice by fewest branches is the first neighbour;
* `Board.run_byBranch_error`: that choice then reads the neighbour's costs, which fails when a
  visited cell is not a node.
-/

namespace Interstellar

namespace Lambdaman

namespace Grid

variable {g : Grid} {a b p q : Cell}

/-! ### Joined cells -/

theorem Joined.contains (ha : g.contains a) (h : g.Joined a b) : g.contains b := by
  induction h with
  | refl => exact ha
  | tail _ hbc _ => exact contains_of_mem_adjacent hbc

/-- Two neighbours of an open cell are joined through it. -/
theorem joined_of_mem_adjacent (hc : g.isOpen p) (ha : a ∈ g.adjacent p) (hb : b ∈ g.adjacent p) :
    g.Joined a b :=
  .head (mem_adjacent_comm ha hc) (.single hb)

/-! ### Marks -/

/-- The cells of the grid that `seen` marks. -/
def marked (g : Grid) (seen : Array Bool) : Finset Cell :=
  g.cells.toFinset.filter fun q => seen.getD (g.index q) false

variable {seen : Array Bool}

@[simp] theorem mem_marked :
    q ∈ g.marked seen ↔ g.contains q ∧ seen.getD (g.index q) false = true := by
  simp [marked, mem_cells]

/-- Marking a cell adds it to the marked cells. -/
theorem marked_set (hs : seen.size = g.size) (hp : g.contains p) :
    g.marked (seen.set! (g.index p) true) = insert p (g.marked seen) := by
  ext q
  simp only [mem_marked, Finset.mem_insert]
  constructor
  · rintro ⟨hq, hm⟩
    rw [getD_set!_index hs hp hq] at hm
    by_cases hqp : q = p
    · exact .inl hqp
    · rw [if_neg hqp] at hm
      exact .inr ⟨hq, hm⟩
  · rintro (rfl | ⟨hq, hm⟩)
    · exact ⟨hp, by rw [getD_set!_index hs hp hp, if_pos rfl]⟩
    · refine ⟨hq, ?_⟩
      rw [getD_set!_index hs hp hq]
      split <;> simp [hm]

theorem marked_replicate : g.marked (Array.replicate g.size false) = ∅ := by
  ext q
  simp only [mem_marked, Finset.notMem_empty, iff_false, not_and]
  intro hq
  simp [getD_replicate_index hq]

theorem card_marked_le (seen : Array Bool) : (g.marked seen).card ≤ g.size := by
  calc (g.marked seen).card ≤ g.cells.toFinset.card := Finset.card_filter_le _ _
    _ = g.size := by rw [List.toFinset_card_of_nodup (nodup_cells g), length_cells]

/-! ### The depth-first search -/

/-- One neighbour's turn in a search: passed over when marked, else counted and searched from. -/
def dfsStep (g : Grid) (fuel : Nat) (st : Array Bool × Nat) (q : Cell) : Array Bool × Nat :=
  if st.1.getD (g.index q) false then st else g.dfs fuel q (st.1, st.2 + 1)

theorem dfs_succ (fuel : Nat) (p : Cell) (seen : Array Bool) (count : Nat) :
    g.dfs (fuel + 1) p (seen, count) =
      (g.adjacent p).foldl (g.dfsStep fuel) (seen.set! (g.index p) true, count) := rfl

/-- What searches from the neighbours of `p`, one after another, did to the marks and the
count: the marks only grow, the count went up by the number of cells newly marked, and every
newly marked cell is joined to `p` and has all its neighbours marked. -/
structure Grew (g : Grid) (p : Cell) (seen : Array Bool) (count : Nat) (seen' : Array Bool)
    (count' : Nat) : Prop where
  size : seen'.size = seen.size
  grow : g.marked seen ⊆ g.marked seen'
  count : count' + (g.marked seen).card = count + (g.marked seen').card
  closed : ∀ q ∈ g.marked seen' \ g.marked seen, ∀ r ∈ g.adjacent q, r ∈ g.marked seen'
  joined : ∀ q ∈ g.marked seen' \ g.marked seen, g.Joined p q

/-- What one search from `p` did to the marks and the count: as `Grew`, with `p` marked and
counting as newly marked, so that its neighbours are all marked too. -/
structure Searched (g : Grid) (p : Cell) (seen : Array Bool) (count : Nat) (seen' : Array Bool)
    (count' : Nat) : Prop where
  size : seen'.size = seen.size
  grow : g.marked seen ⊆ g.marked seen'
  mem : p ∈ g.marked seen'
  count : count' + (insert p (g.marked seen)).card = count + (g.marked seen').card
  closed : ∀ q ∈ insert p (g.marked seen' \ g.marked seen), ∀ r ∈ g.adjacent q, r ∈ g.marked seen'
  joined : ∀ q ∈ g.marked seen' \ g.marked seen, g.Joined p q

theorem Grew.refl (p : Cell) (seen : Array Bool) (count : Nat) : Grew g p seen count seen count :=
  ⟨rfl, subset_rfl, rfl, fun q hq => absurd hq (by simp), fun q hq => absurd hq (by simp)⟩

theorem Grew.trans {seen₁ seen₂ : Array Bool} {c c₁ c₂ : Nat} (h₁ : Grew g p seen c seen₁ c₁)
    (h₂ : Grew g p seen₁ c₁ seen₂ c₂) : Grew g p seen c seen₂ c₂ := by
  -- a cell new to the whole stretch is new to the first part or to the second
  have hnew : ∀ q ∈ g.marked seen₂ \ g.marked seen,
      q ∈ g.marked seen₁ \ g.marked seen ∨ q ∈ g.marked seen₂ \ g.marked seen₁ := by
    intro q hq
    obtain ⟨hq₂, hq⟩ := Finset.mem_sdiff.1 hq
    by_cases hq₁ : q ∈ g.marked seen₁
    · exact .inl (Finset.mem_sdiff.2 ⟨hq₁, hq⟩)
    · exact .inr (Finset.mem_sdiff.2 ⟨hq₂, hq₁⟩)
  have hcount : c₂ + (g.marked seen).card = c + (g.marked seen₂).card := by
    have := h₁.count
    have := h₂.count
    omega
  refine ⟨h₂.size.trans h₁.size, h₁.grow.trans h₂.grow, hcount, fun q hq r hr => ?_,
    fun q hq => ?_⟩
  · rcases hnew q hq with hq | hq
    · exact h₂.grow (h₁.closed q hq r hr)
    · exact h₂.closed q hq r hr
  · rcases hnew q hq with hq | hq
    · exact h₁.joined q hq
    · exact h₂.joined q hq

/-- **Step lemma.** One neighbour's turn: a marked neighbour is passed over; a search from an
unmarked one, counted first, grows the marks by what it marks and leaves it marked. -/
theorem grew_dfsStep {fuel : Nat}
    (hdfs : ∀ q seen c, seen.size = g.size → g.contains q →
      g.size < fuel + (insert q (g.marked seen)).card →
        Searched g q seen c (g.dfs fuel q (seen, c)).1 (g.dfs fuel q (seen, c)).2)
    {c : Nat} (hs : seen.size = g.size) (hfuel : g.size ≤ fuel + (g.marked seen).card)
    (hq : q ∈ g.adjacent p) :
    Grew g p seen c (g.dfsStep fuel (seen, c) q).1 (g.dfsStep fuel (seen, c) q).2 ∧
      q ∈ g.marked (g.dfsStep fuel (seen, c) q).1 := by
  have hqc := contains_of_mem_adjacent hq
  unfold Grid.dfsStep
  dsimp only
  split
  · exact ⟨.refl p seen c, mem_marked.2 ⟨hqc, ‹_›⟩⟩
  · rename_i hm
    have hq₁ : q ∉ g.marked seen := fun hm' => hm (mem_marked.1 hm').2
    have hcard := Finset.card_insert_of_notMem hq₁
    have hd := hdfs q seen (c + 1) hs hqc (by omega)
    refine ⟨⟨hd.size, hd.grow, by have := hd.count; omega, fun r hr => ?_, fun r hr => ?_⟩, hd.mem⟩
    · exact hd.closed r (Finset.mem_insert_of_mem hr)
    · exact .head hq (hd.joined r hr)

/-- The searches from a list of neighbours of `p`, one after another, grow the marks and leave
every one of them marked. -/
theorem grew_foldl_dfsStep {fuel : Nat}
    (hdfs : ∀ q seen c, seen.size = g.size → g.contains q →
      g.size < fuel + (insert q (g.marked seen)).card →
        Searched g q seen c (g.dfs fuel q (seen, c)).1 (g.dfs fuel q (seen, c)).2) :
    ∀ (L : List Cell), (∀ q ∈ L, q ∈ g.adjacent p) → ∀ (seen : Array Bool) (c : Nat),
      seen.size = g.size → g.size ≤ fuel + (g.marked seen).card →
        Grew g p seen c (L.foldl (g.dfsStep fuel) (seen, c)).1
          (L.foldl (g.dfsStep fuel) (seen, c)).2 ∧
        ∀ q ∈ L, q ∈ g.marked (L.foldl (g.dfsStep fuel) (seen, c)).1 := by
  intro L
  induction L with
  | nil => exact fun _ seen c _ _ => ⟨.refl p seen c, fun q hq => absurd hq List.not_mem_nil⟩
  | cons q L ih =>
    intro hL seen c hs hfuel
    obtain ⟨hstep, hq⟩ := grew_dfsStep hdfs (c := c) hs hfuel (hL q List.mem_cons_self)
    -- the rest of the list starts from the marks after `q`'s turn, which only grew
    have hrest := ih (fun r hr => hL r (List.mem_cons_of_mem q hr))
      (g.dfsStep fuel (seen, c) q).1 (g.dfsStep fuel (seen, c) q).2 (hstep.size.trans hs)
      (Nat.le_trans hfuel (Nat.add_le_add_left (Finset.card_le_card hstep.grow) _))
    rw [List.foldl_cons]
    refine ⟨hstep.trans hrest.1, fun r hr => ?_⟩
    rcases List.mem_cons.1 hr with rfl | hr
    · exact hrest.1.grow hq
    · exact hrest.2 r hr

/-- **Run lemma.** A search from a cell of the grid with more depth than unmarked cells does
what `Searched` says; by induction on the depth, each level marks its cell and hands the
neighbours to the searches one level down. -/
theorem searched_dfs : ∀ (fuel : Nat) (p : Cell) (seen : Array Bool) (count : Nat),
    seen.size = g.size → g.contains p → g.size < fuel + (insert p (g.marked seen)).card →
      Searched g p seen count (g.dfs fuel p (seen, count)).1 (g.dfs fuel p (seen, count)).2 := by
  intro fuel
  induction fuel with
  | zero =>
    intro p seen count hs hp hfuel
    have := card_marked_le (g := g) (seen.set! (g.index p) true)
    rw [marked_set hs hp] at this
    omega
  | succ fuel ih =>
    intro p seen count hs hp hfuel
    have hset := marked_set hs hp
    have hs₁ : (seen.set! (g.index p) true).size = g.size := by simp [hs]
    obtain ⟨hg, hadj⟩ := grew_foldl_dfsStep ih (g.adjacent p) (fun _ h => h) _ count hs₁
      (by rw [hset]; omega)
    rw [dfs_succ]
    -- the searches from the neighbours start from the marks with `p` added
    have hgrow := hg.grow
    have hcount := hg.count
    have hclosed := hg.closed
    have hjoined := hg.joined
    rw [hset] at hgrow hcount hclosed hjoined
    -- a cell new to the search is `p` or new to the searches from its neighbours
    have hnew : ∀ q ∈ insert p (g.marked (List.foldl (g.dfsStep fuel)
        (seen.set! (g.index p) true, count) (g.adjacent p)).1 \ g.marked seen),
        q = p ∨ q ∈ g.marked (List.foldl (g.dfsStep fuel)
          (seen.set! (g.index p) true, count) (g.adjacent p)).1 \ insert p (g.marked seen) := by
      intro q hq
      by_cases hqp : q = p
      · exact .inl hqp
      · rcases Finset.mem_insert.1 hq with h | h
        · exact absurd h hqp
        · obtain ⟨h₁, h₂⟩ := Finset.mem_sdiff.1 h
          exact .inr (Finset.mem_sdiff.2 ⟨h₁, by simp [hqp, h₂]⟩)
    refine ⟨by rw [hg.size, Array.size_set!], (Finset.subset_insert p _).trans hgrow,
      hgrow (Finset.mem_insert_self p _), hcount, fun q hq r hr => ?_, fun q hq => ?_⟩
    · rcases hnew q hq with rfl | hq
      · exact hadj r hr
      · exact hclosed q hq r hr
    · rcases hnew q (Finset.mem_insert_of_mem hq) with rfl | hq
      · exact .refl
      · exact hjoined q hq

/-- **The branch count is the number of joined cells, less one.** The search from `p` starts
with `p` alone marked; the cells it marks are closed under steps and joined to `p`, so they are
the cells joined to `p`, and it counted all of them but `p`. -/
theorem branchCount_eq_ncard (hp : g.contains p) :
    g.branchCount p = {q | g.Joined p q}.ncard - 1 := by
  have hs₀ : (Array.replicate g.size false).size = g.size := Array.size_replicate
  have hm₀ : g.marked ((Array.replicate g.size false).set! (g.index p) true) = {p} := by
    rw [marked_set hs₀ hp, marked_replicate]
    rfl
  have h := searched_dfs (g.size + 1) p ((Array.replicate g.size false).set! (g.index p) true) 0
    (by simp) hp (by omega)
  have hcount := h.count
  have hclosed := h.closed
  have hjoined := h.joined
  rw [hm₀] at hcount hclosed hjoined
  simp only [Finset.mem_singleton, Finset.insert_eq_of_mem, Finset.card_singleton,
    Nat.zero_add] at hcount
  -- the marked cells are the cells joined to `p`
  have hset : {q | g.Joined p q} = ↑(g.marked (g.dfs (g.size + 1) p
      ((Array.replicate g.size false).set! (g.index p) true, 0)).1) := by
    ext q
    simp only [Set.mem_ofPred_eq, Finset.mem_coe]
    constructor
    · intro hj
      induction hj with
      | refl => exact h.mem
      | @tail b c _ hc ih =>
        refine hclosed b ?_ c hc
        by_cases hbp : b = p
        · rw [hbp]
          exact Finset.mem_insert_self p _
        · exact Finset.mem_insert_of_mem (Finset.mem_sdiff.2 ⟨ih, by simpa using hbp⟩)
    · intro hq
      by_cases hqp : q = p
      · exact hqp ▸ .refl
      · exact hjoined q (Finset.mem_sdiff.2 ⟨hq, by simpa using hqp⟩)
  rw [branchCount, hset, Set.ncard_coe_finset]
  omega

/-- Cells joined to each other have the same branch count. -/
theorem branchCount_eq_of_joined (ha : g.isOpen a) (hab : g.Joined a b) :
    g.branchCount b = g.branchCount a := by
  have hb : g.contains b := hab.contains (contains_of_isOpen ha)
  rw [branchCount_eq_ncard hb, branchCount_eq_ncard (contains_of_isOpen ha)]
  congr 2
  ext x
  exact ⟨fun hbx => hab.trans hbx, fun hax => (hab.symm ha).trans hax⟩

end Grid

namespace Board

open Play

variable {b : Board} {s n : Cell} {ns : List Cell}

/-- A choice by fewest of `f` keeps the first cell when no later one has fewer. -/
theorem foldl_fewest_eq (f : Cell → Nat) (h : ∀ q ∈ ns, f q = f n) :
    ns.foldl (fun best q => if f q < f best then q else best) n = n := by
  induction ns with
  | nil => rfl
  | cons q ns ih =>
    rw [List.foldl_cons, if_neg (by rw [h q List.mem_cons_self]; exact Nat.lt_irrefl _)]
    exact ih fun r hr => h r (List.mem_cons_of_mem q hr)

/-- The neighbours of an open cell are joined through it, so they all have the branch count of
the first. -/
theorem branchCount_adjacent (hs : b.grid.isOpen s) (hadj : b.grid.adjacent s = n :: ns) :
    ∀ q ∈ ns, b.grid.branchCount q = b.grid.branchCount n := by
  have hn : n ∈ b.grid.adjacent s := hadj ▸ List.mem_cons_self
  exact fun q hq => Grid.branchCount_eq_of_joined (Grid.isOpen_of_mem_adjacent hn)
    (Grid.joined_of_mem_adjacent hs hn (hadj ▸ List.mem_cons_of_mem n hq))

theorem linked_of_mem_adjacent_open (hs : b.grid.isOpen s) (hn : n ∈ b.grid.adjacent s) :
    b.grid.linked n :=
  Grid.linked_of_mem_adjacent (Grid.isOpen_of_mem_adjacent hn) (Grid.mem_adjacent_comm hn hs)

section Linked

variable (hv : ∀ q, b.grid.contains q → b.isVisited q → b.grid.linked q)
include hv

theorem Retabled.visitedLinked {b' : Board} (h : Retabled b b') :
    ∀ q, b'.grid.contains q → b'.isVisited q → b'.grid.linked q := by
  rw [h.grid, h.isVisited]
  exact hv

theorem succeeds_costs_of_linked {p : Cell} (hp : b.grid.linked p) :
    Succeeds (costs p) b fun _ b' => Retabled b b' := by
  obtain ⟨d', -, hrun⟩ := run_costs hv hp
  intro c
  exact ⟨_, _, c, by rw [hrun]; rfl, _, rfl⟩

theorem succeeds_totalCost_of_linked {p : Cell} (hp : b.grid.linked p) :
    Succeeds (totalCost p) b fun _ b' => Retabled b b' := by
  unfold totalCost
  exact (succeeds_costs_of_linked hv hp).bind fun _ _ h => Succeeds.get_bind (Succeeds.pure h)

/-- **The fewest branches are the first neighbour's.** On a board whose visited cells are
nodes, the choice by fewest branches from an open cell with neighbours succeeds and is the first
neighbour: none has fewer branches than another. -/
theorem succeeds_byBranch (hs : b.grid.isOpen s) (hadj : b.grid.adjacent s = n :: ns) :
    Succeeds (byBranch s) b fun r _ => r.1 = n := by
  have hnl := linked_of_mem_adjacent_open hs (hadj ▸ List.mem_cons_self)
  unfold byBranch
  refine Succeeds.get_bind ?_
  simp only [hadj, foldl_fewest_eq _ (branchCount_adjacent hs hadj)]
  refine (succeeds_totalCost_of_linked hv hnl).bind fun _ b₁ h₁ => ?_
  exact (succeeds_costs_of_linked (h₁.visitedLinked hv) (h₁.grid ▸ hnl)).bind
    fun _ _ _ => Succeeds.pure rfl

end Linked

/-! ### A visited cell that is not a node -/

/-- Wearing fails on the first visited cell, in row-major order, that is not a node. -/
theorem wear_eq_error {q : Cell}
    (h : b.grid.cells.find? (fun r => b.isVisited r && !b.grid.linked r) = some q)
    (d : Array Dist) : b.wear d = .error (.missing (.pair q.1 q.2)) := by
  rw [wear_eq_foldlM]
  -- by induction on the cells still to wear
  suffices hL : ∀ L : List Cell, L.find? (fun r => b.isVisited r && !b.grid.linked r) = some q →
      ∀ d, L.foldlM b.wearStep d = .error (.missing (.pair q.1 q.2)) from hL _ h d
  intro L
  induction L with
  | nil => intro h; cases h
  | cons r L ih =>
    intro h d
    rw [List.find?_cons] at h
    rw [List.foldlM_cons]
    cases hv : b.isVisited r
    · -- a cell not visited is passed over
      simp only [hv, Bool.false_and] at h
      have hstep : b.wearStep d r = .ok d := by simp [wearStep, hv]
      rw [hstep]
      exact ih h d
    · cases hl : b.grid.linked r
      · simp only [hv, hl, Bool.not_false, Bool.and_self, Option.some.injEq] at h
        subst h
        simp only [wearStep, hv, hl, if_true]
        rfl
      · simp only [hv, hl, Bool.not_true, Bool.and_false] at h
        have hstep : b.wearStep d r = .ok (d.set! (b.grid.index r)
            ((d.getD (b.grid.index r) .inf).add (b.visitsOf r))) := by simp [wearStep, hv, hl]
        rw [hstep]
        exact ih h _

/-- Reading the costs of a node fails as wearing them does. -/
theorem run_costs_error {p : Cell} {f : Fault} (hp : b.grid.linked p)
    (hw : b.wear (b.cached p).dist = .error f) : (costs p).run b = Run.fail f := by
  unfold costs
  simp only [StateT.run_bind, run_table hp, pure_bind, StateT.run_get, hw]
  rfl

/-- The choice by fewest branches from an open cell with neighbours fails as wearing the first
neighbour's costs does. -/
theorem run_byBranch_error {f : Fault} (hs : b.grid.isOpen s) (hadj : b.grid.adjacent s = n :: ns)
    (hw : b.wear (b.cached n).dist = .error f) : (byBranch s).run b = Run.fail f := by
  have hnl := linked_of_mem_adjacent_open hs (hadj ▸ List.mem_cons_self)
  unfold byBranch totalCost
  simp only [StateT.run_bind, StateT.run_get, pure_bind, hadj,
    foldl_fewest_eq _ (branchCount_adjacent hs hadj), run_costs_error hnl hw]
  rfl

/-- On a board reached by steps, the start is visited. -/
theorem Reached.isVisited_start {g : Grid} {start : Cell} {number : Int} {animate : Bool}
    (hsm : g.contains start) (hb : Reached (create g start number animate) b) :
    b.isVisited start := by
  obtain ⟨dirs, t, rfl⟩ := hb
  exact (isVisited_walk (sized_create g start number animate) dirs hsm).2
    (.inl ((isVisited_create hsm hsm).2 rfl))

/-- **Branch counts.** The branch count of a cell of the grid is the number of cells joined to
it, itself included, less one. On a board reached by steps from a start, for an open cell `s`
whose first neighbour, in the order up, down, left, right, is `n`: when the start is a node, the
choice by fewest branches from `s` succeeds and is `n`, since all the neighbours of `s` have the
same count; when it is not, reading the costs of `n` fails on a visited cell that is not a node,
and the choice fails with it. -/
theorem branch_count_picks_first_neighbour (g : Grid) (s : Cell) :
    (g.contains s → g.branchCount s = {q | g.Joined s q}.ncard - 1) ∧
    ∀ (start n : Cell) (ns : List Cell) (number : Int) (animate : Bool) (b : Board),
      g.contains start → Reached (create g start number animate) b →
        g.isOpen s → g.adjacent s = n :: ns →
        (g.linked start → Succeeds (byBranch s) b fun r _ => r.1 = n) ∧
        (g.linked start = false → ∃ q, b.isVisited q ∧ g.linked q = false ∧
          ∀ c, ((byBranch s).run b).run c = .error (.fault (.missing (.pair q.1 q.2))) c) := by
  refine ⟨fun hs => Grid.branchCount_eq_ncard hs, ?_⟩
  intro start n ns number animate b hsm hb hs hadj
  have hgrid : b.grid = g := hb.grid
  refine ⟨fun hl => ?_, fun hl => ?_⟩
  · -- every visited cell is a node
    have hv : ∀ q, b.grid.contains q → b.isVisited q → b.grid.linked q := by
      obtain ⟨dirs, t, rfl⟩ := hb
      exact linked_of_isVisited_fresh number animate dirs hl
    exact succeeds_byBranch hv (hgrid ▸ hs) (hgrid ▸ hadj)
  · -- the start is visited and is not a node, so wearing fails
    have hst := hb.isVisited_start hsm
    obtain ⟨q, hq⟩ := Option.isSome_iff_exists.1
      (List.find?_isSome.2 ⟨start, Grid.mem_cells.2 (hgrid ▸ hsm), by simp [hst, hgrid, hl]⟩ :
        (b.grid.cells.find? fun r => b.isVisited r && !b.grid.linked r).isSome)
    have hbad := List.find?_some hq
    simp only [Bool.and_eq_true, Bool.not_eq_true'] at hbad
    refine ⟨q, hbad.1, hgrid ▸ hbad.2, fun c => ?_⟩
    rw [run_byBranch_error (hgrid ▸ hs) (hgrid ▸ hadj) (wear_eq_error hq _)]
    rfl

/-- On a row of three open cells, from the middle, the middle cell counts two branches and the
choice from it is its left neighbour; on the same row with a wall for a start, after a step
right, the choice from the player's cell fails. -/
theorem branch_count_picks_first_neighbour_row :
    let g : Grid := ⟨#[#['.', '.', '.']], 3, 1⟩
    let w : Grid := ⟨#[#['#', '.', '.']], 3, 1⟩
    (g.contains (0, 1) ∧ g.branchCount (0, 1) = {q | g.Joined (0, 1) q}.ncard - 1) ∧
    (g.contains (0, 1) ∧ Reached (create g (0, 1) 0 false) (create g (0, 1) 0 false) ∧
      g.isOpen (0, 1) ∧ g.adjacent (0, 1) = [(0, 0), (0, 2)] ∧ g.linked (0, 1) ∧
      Succeeds (byBranch (0, 1)) (create g (0, 1) 0 false) fun r _ => r.1 = (0, 0)) ∧
    (w.contains (0, 0) ∧ Reached (create w (0, 0) 0 false) ((create w (0, 0) 0 false).walk ["R"]) ∧
      w.isOpen (0, 1) ∧ w.adjacent (0, 1) = [(0, 2)] ∧ w.linked (0, 0) = false ∧
      ∃ q, ((create w (0, 0) 0 false).walk ["R"]).isVisited q ∧ w.linked q = false ∧
        ∀ c, ((byBranch (0, 1)).run ((create w (0, 0) 0 false).walk ["R"])).run c =
          .error (.fault (.missing (.pair q.1 q.2))) c) := by
  intro g w
  have hg : g.contains (0, 1) ∧ g.isOpen (0, 1) ∧ g.adjacent (0, 1) = [(0, 0), (0, 2)] ∧
      g.linked (0, 1) := by decide
  have hw : w.contains (0, 0) ∧ w.isOpen (0, 1) ∧ w.adjacent (0, 1) = [(0, 2)] ∧
      w.linked (0, 0) = false := by decide
  have hr : Reached (create w (0, 0) 0 false) ((create w (0, 0) 0 false).walk ["R"]) :=
    (Reached.refl _).walk ["R"]
  exact ⟨⟨hg.1, (branch_count_picks_first_neighbour g (0, 1)).1 hg.1⟩,
    ⟨hg.1, Reached.refl _, hg.2.1, hg.2.2.1, hg.2.2.2,
      ((branch_count_picks_first_neighbour g (0, 1)).2 _ _ _ 0 false _ hg.1 (Reached.refl _)
        hg.2.1 hg.2.2.1).1 hg.2.2.2⟩,
    ⟨hw.1, hr, hw.2.1, hw.2.2.1, hw.2.2.2,
      ((branch_count_picks_first_neighbour w (0, 1)).2 _ _ _ 0 false _ hw.1 hr hw.2.1
        hw.2.2.1).2 hw.2.2.2⟩⟩

/-- From a wall for a start the player steps right onto a row of two open cells; the choice by
fewest branches from the player's cell then fails on the start, a visited cell that is not a
node, where the first neighbour was to be chosen. -/
theorem branch_choice_fails_off_wall_start :
    let w : Grid := ⟨#[#['#', '.', '.']], 3, 1⟩
    ∀ c, ((byBranch (0, 1)).run ((create w (0, 0) 0 false).walk ["R"])).run c =
      .error (.fault (.missing (.pair 0 0))) c := by
  intro w c
  let b := (create w (0, 0) 0 false).walk ["R"]
  have hs : b.grid.isOpen (0, 1) := by decide
  have hadj : b.grid.adjacent (0, 1) = [(0, 2)] := by decide
  have hfind : b.grid.cells.find? (fun r => b.isVisited r && !b.grid.linked r) = some (0, 0) := by
    decide
  rw [run_byBranch_error hs hadj (wear_eq_error hfind _)]
  rfl

end Board

end Lambdaman

end Interstellar
