import Interstellar.Proofs.Frontier
import Interstellar.Proofs.Distance
import Mathlib.Logic.Relation
import Mathlib.Data.Finset.Card

/-!
# The best-first search finds a walk

Whenever `dst` can be reached from the open cell `src` through adjacent open cells,
`Grid.search src dst` returns a walk from `src` to `dst`: the path finder the programs run with
keeps the promise `Finder.Walks` that the solvers' theorems ask of a path finder
(`Grid.search_walks`). Its walk need not be a shortest one.

The proof follows the marks of the search, which after the start has been expanded keep the
invariant `Frontier.Sound`:

* every cell with a cost other than the start was reached from an expanded neighbour, with one
  step more (`Frontier.Traced`), so going back along the cells each was reached from ends at the
  start (`Frontier.Traced.walkTo`);
* the frontier holds each waiting cell once, and the cells with a cost that are not expanded
  are exactly the waiting ones;
* the neighbours of every expanded cell have a cost (`Frontier.Offered`), so when the frontier
  runs empty every cell reachable from the start has been expanded (`Frontier.Sound.closed_of_joined`),
  the goal among them; but the goal never is, so the frontier is not empty before the goal comes
  out;
* each round expands one more cell and no cost exceeds the number of expanded cells, so one
  round per cell of the grid is enough (`Frontier.Sound.run`).
-/

namespace Interstellar

namespace Lambdaman

namespace Frontier

variable {src p q : Cell} {s t : Frontier}

/-- The cells of the grid that have been expanded. -/
def closedCells (s : Frontier) : Finset Cell :=
  s.grid.cells.toFinset.filter fun q => (s.mark q).closed

theorem card_closedCells_le (s : Frontier) : (closedCells s).card ≤ s.grid.size := by
  calc (closedCells s).card ≤ s.grid.cells.toFinset.card := Finset.card_filter_le _ _
    _ ≤ s.grid.cells.length := List.toFinset_card_le _
    _ = s.grid.size := Grid.length_cells _

/-- The marks of a search from `src` record where each cell with a cost was reached from: the
start has cost zero and was reached from nowhere, and every other cell of the grid with a cost
was reached from an expanded neighbour, with one step more. -/
structure Traced (src : Cell) (s : Frontier) : Prop where
  src_mem : s.grid.contains src
  cost_src : (s.mark src).cost = some 0
  came_src : (s.mark src).came = none
  came : ∀ q c, s.grid.contains q → (s.mark q).cost = some c → q ≠ src →
    ∃ p d, (s.mark q).came = some p ∧ s.grid.contains p ∧ (s.mark p).closed ∧
      q ∈ s.grid.adjacent p ∧ (s.mark p).cost = some d ∧ c = d + 1

/-- What the search from `src` keeps true of its frontier once the start has been expanded. -/
structure Sound (src : Cell) (s : Frontier) : Prop extends Traced src s where
  /-- One mark per cell of the grid. -/
  size : s.marks.size = s.grid.size
  /-- The goal is a cell of the grid and is never expanded. -/
  goal_mem : s.grid.contains s.goal
  goal : (s.mark s.goal).closed = false
  /-- The frontier holds each waiting cell of the grid once, and nothing else. -/
  count : ∀ q, s.heap.count q = if s.grid.contains q ∧ (s.mark q).waiting then 1 else 0
  /-- A waiting cell has a cost and is not expanded. -/
  waiting : ∀ q, s.grid.contains q → (s.mark q).waiting →
    (s.mark q).closed = false ∧ (s.mark q).cost.isSome
  /-- A cell with a cost that is not expanded waits. -/
  pending : ∀ q, s.grid.contains q → (s.mark q).cost.isSome → (s.mark q).closed = false →
    (s.mark q).waiting
  /-- An expanded cell has a cost. -/
  closed : ∀ q, s.grid.contains q → (s.mark q).closed → (s.mark q).cost.isSome
  /-- No cost exceeds the number of expanded cells, and that of an expanded cell is below it. -/
  bound : ∀ q c, s.grid.contains q → (s.mark q).cost = some c →
    c ≤ (closedCells s).card ∧ ((s.mark q).closed → c < (closedCells s).card)

/-- Every neighbour of an expanded cell has a cost. -/
def Offered (s : Frontier) : Prop :=
  ∀ p, s.grid.contains p → (s.mark p).closed → ∀ q ∈ s.grid.adjacent p, (s.mark q).cost.isSome

/-- `t` comes from `s` by offering ways to cells: the marks of expanded cells stay, no cell is
expanded, and a cell with a cost keeps one. -/
structure Grows (s t : Frontier) : Prop where
  grid : t.grid = s.grid
  goal : t.goal = s.goal
  frozen : ∀ r, s.grid.contains r → (s.mark r).closed → t.mark r = s.mark r
  closed : ∀ r, s.grid.contains r → (t.mark r).closed = (s.mark r).closed
  cost : ∀ r, s.grid.contains r → (s.mark r).cost.isSome → (t.mark r).cost.isSome

theorem Grows.refl (s : Frontier) : Grows s s :=
  ⟨rfl, rfl, fun _ _ _ => rfl, fun _ _ => rfl, fun _ _ h => h⟩

theorem Grows.trans {u : Frontier} (h₁ : Grows s t) (h₂ : Grows t u) : Grows s u where
  grid := h₂.grid.trans h₁.grid
  goal := h₂.goal.trans h₁.goal
  frozen r hr hc := by
    rw [h₂.frozen r (h₁.grid ▸ hr) (by rwa [h₁.closed r hr]), h₁.frozen r hr hc]
  closed r hr := (h₂.closed r (h₁.grid ▸ hr)).trans (h₁.closed r hr)
  cost r hr hc := h₂.cost r (h₁.grid ▸ hr) (h₁.cost r hr hc)

theorem Grows.closedCells_eq (h : Grows s t) : closedCells t = closedCells s := by
  ext r
  simp only [closedCells, Finset.mem_filter, List.mem_toFinset, h.grid]
  constructor
  · rintro ⟨hr, hc⟩
    exact ⟨hr, by rwa [← h.closed r (Grid.mem_cells.1 hr)]⟩
  · rintro ⟨hr, hc⟩
    exact ⟨hr, by rwa [h.closed r (Grid.mem_cells.1 hr)]⟩

/-! ### Walking back -/

/-- Going back from a cell with a cost along the cells each was reached from gives a walk from
the start to it, when the fuel exceeds its cost. -/
theorem Traced.walkTo (ht : Traced src s) (fuel : Nat) :
    ∀ p c acc, s.grid.contains p → (s.mark p).cost = some c → c < fuel →
      ∃ w, s.walkTo fuel p acc = w ++ acc ∧ s.grid.Walk src w p := by
  induction fuel with
  | zero => intro p c acc _ _ hc; omega
  | succ fuel ih =>
    intro p c acc hp hpc hc
    by_cases hsrc : p = src
    · subst hsrc
      exact ⟨[p], by simp [Frontier.walkTo, ht.came_src], .single p⟩
    · obtain ⟨q, d, hcame, hq, -, hpq, hqd, rfl⟩ := ht.came p c hp hpc hsrc
      obtain ⟨w, hw, hwalk⟩ := ih q d (p :: acc) hq hqd (by omega)
      exact ⟨w ++ [p], by simp [Frontier.walkTo, hcame, hw], hwalk.snoc hpq⟩

/-! ### Offering ways -/

/-- A frontier that differs from a sound one only in that `q`, not expanded, now waits with a
cost through its expanded neighbour `p`, lower than any it had, is sound, and comes from it by
offering ways. -/
theorem Sound.reroute (hs : Sound src s) {d : Nat} (hq : s.grid.contains q)
    (hqc : (s.mark q).closed = false) (hp : s.grid.contains p) (hpc : (s.mark p).closed)
    (hpq : q ∈ s.grid.adjacent p) (hpd : (s.mark p).cost = some d)
    (hless : ∀ c, (s.mark q).cost = some c → d + 1 < c)
    (hg : t.grid = s.grid) (hgoal : t.goal = s.goal) (hsize : t.marks.size = s.marks.size)
    (hmark : ∀ r, s.grid.contains r → t.mark r = if r = q then
      { s.mark q with came := some p, cost := some (d + 1), waiting := true } else s.mark r)
    (hcount : ∀ r, t.heap.count r = if r = q then 1 else s.heap.count r) :
    Sound src t ∧ Grows s t := by
  have hqp : q ≠ p := by rintro rfl; simp [hqc] at hpc
  have hqs : q ≠ src := by
    rintro rfl
    exact absurd (hless 0 hs.cost_src) (by omega)
  have hother : ∀ r, s.grid.contains r → r ≠ q → t.mark r = s.mark r := fun r hr h => by
    simp [hmark r hr, h]
  have hclosed : ∀ r, s.grid.contains r → (t.mark r).closed = (s.mark r).closed := fun r hr => by
    by_cases h : r = q
    · subst h; simp [hmark r hr]
    · rw [hother r hr h]
  have hgrows : Grows s t :=
    ⟨hg, hgoal, fun r hr hc => hother r hr (by rintro rfl; simp [hqc] at hc), hclosed,
      fun r hr hc => by by_cases h : r = q <;> simp_all⟩
  have hcard : closedCells t = closedCells s := hgrows.closedCells_eq
  refine ⟨{ src_mem := hg ▸ hs.src_mem, cost_src := ?_, came_src := ?_, came := ?_,
            size := ?_, goal_mem := ?_, goal := ?_, count := ?_, waiting := ?_,
            pending := ?_, closed := ?_, bound := ?_ }, hgrows⟩
  · rw [hother src hs.src_mem (Ne.symm hqs)]; exact hs.cost_src
  · rw [hother src hs.src_mem (Ne.symm hqs)]; exact hs.came_src
  · intro r c hr hrc hrs
    rw [hg] at hr ⊢
    have hp' : t.mark p = s.mark p := hother p hp (Ne.symm hqp)
    by_cases h : r = q
    · subst h
      simp only [hmark r hr, if_pos, Option.some.injEq] at hrc ⊢
      exact ⟨p, d, rfl, hp, hp' ▸ hpc, hpq, hp' ▸ hpd, hrc.symm⟩
    · rw [hother r hr h] at hrc ⊢
      obtain ⟨p', d', hcame, hp'm, hp'c, hrp', hp'd, rfl⟩ := hs.came r c hr hrc hrs
      have he : t.mark p' = s.mark p' := hother p' hp'm (by rintro rfl; simp [hqc] at hp'c)
      exact ⟨p', d', hcame, hp'm, he ▸ hp'c, hrp', he ▸ hp'd, rfl⟩
  · rw [hsize, hs.size, hg]
  · rw [hgoal, hg]; exact hs.goal_mem
  · rw [hgoal, hclosed _ hs.goal_mem]; exact hs.goal
  · intro r
    rw [hcount r, hg]
    by_cases h : r = q
    · subst h; simp [hmark r hq, hq]
    · rw [hs.count r]
      by_cases hr : s.grid.contains r
      · simp [hother r hr h, hr, h]
      · simp [hr, h]
  · intro r hr hw
    rw [hg] at hr
    by_cases h : r = q
    · subst h; simp [hmark r hr, hqc]
    · rw [hother r hr h] at hw ⊢; exact hs.waiting r hr hw
  · intro r hr hc hrc
    rw [hg] at hr
    by_cases h : r = q
    · subst h; simp [hmark r hr]
    · rw [hother r hr h] at hc hrc ⊢; exact hs.pending r hr hc hrc
  · intro r hr hrc
    rw [hg] at hr
    by_cases h : r = q
    · subst h; simp [hmark r hr, hqc] at hrc
    · rw [hother r hr h] at hrc ⊢; exact hs.closed r hr hrc
  · intro r c hr hrc
    rw [hg] at hr
    rw [hcard]
    by_cases h : r = q
    · subst h
      simp only [hmark r hr, if_pos, Option.some.injEq] at hrc ⊢
      have := (hs.bound p d hp hpd).2 hpc
      refine ⟨by omega, by simp [hqc]⟩
    · rw [hother r hr h] at hrc ⊢; exact hs.bound r c hr hrc

/-- Offering `q` a way through its expanded neighbour `p` keeps a sound frontier sound and only
offers ways; afterwards `q` has a cost. -/
theorem Sound.offer (hs : Sound src s) {d : Nat} (hp : s.grid.contains p)
    (hpc : (s.mark p).closed) (hpd : (s.mark p).cost = some d) (hpq : q ∈ s.grid.adjacent p) :
    Sound src (s.offer p d q) ∧ Grows s (s.offer p d q) ∧
      ((s.offer p d q).mark q).cost.isSome := by
  have hq : s.grid.contains q := Grid.contains_of_mem_adjacent hpq
  unfold Frontier.offer
  dsimp only
  split
  · -- `q` is expanded already
    exact ⟨hs, .refl s, hs.closed q hq ‹_›⟩
  rename_i hqc
  split
  · -- `q` has a cost no higher than the way through `p`
    rename_i hle
    refine ⟨hs, .refl s, ?_⟩
    cases h : (s.mark q).cost <;> simp_all
  rename_i hgt
  have hqc' : (s.mark q).closed = false := by simpa using hqc
  have hless : ∀ c, (s.mark q).cost = some c → d + 1 < c := fun c hc => by
    simp [hc] at hgt
    omega
  set u := s.setMark q fun m => { m with came := some p, cost := some (d + 1) } with hu_def
  have hu : ∀ r, s.grid.contains r →
      u.mark r = if r = q then { s.mark q with came := some p, cost := some (d + 1) }
        else s.mark r :=
    fun r hr => mark_setMark hs.size hq hr _
  split
  · -- `q` waits already: it is taken out of the frontier and put back
    rename_i hw
    have hmem : q ∈ s.heap := by
      rw [← Array.count_pos_iff, hs.count q]
      simp [hq, hw]
    have hperm : ((u.remove q).push q).heap.Perm s.heap := perm_push.trans (perm_remove hmem)
    obtain ⟨h1, h2⟩ := hs.reroute (t := (u.remove q).push q) hq hqc' hp hpc hpq hpd hless
      (by simp [u]) (by simp [u]) (by simp [u])
      (fun r hr => by
        rw [mark_push, mark_remove, hu r hr]
        split_ifs with h
        · subst h
          rcases hm : s.mark r
          simp_all
        · rfl)
      (fun r => by
        rw [Array.count_eq_of_perm hperm, hs.count r]
        split_ifs <;> simp_all)
    exact ⟨h1, h2, by simp [hu q hq]⟩
  · -- `q` joins the frontier
    rename_i hw
    set v := u.setMark q fun m => { m with waiting := true } with hv_def
    have hmark : ∀ r, s.grid.contains r → (v.push q).mark r =
        if r = q then { s.mark q with came := some p, cost := some (d + 1), waiting := true }
        else s.mark r := fun r hr => by
      rw [mark_push, hv_def, mark_setMark (s := u) (by simp [u, hs.size]) hq hr, hu q hq, if_pos rfl,
        hu r hr]
      split_ifs <;> rfl
    obtain ⟨h1, h2⟩ := hs.reroute (t := v.push q) hq hqc' hp hpc hpq hpd hless
      (by simp [u, v]) (by simp [u, v]) (by simp [u, v]) hmark
      (fun r => by
        rw [Array.count_eq_of_perm perm_push, Array.count_push, setMark_heap, setMark_heap,
          hs.count r]
        split_ifs <;> simp_all)
    exact ⟨h1, h2, by simp [hmark q hq]⟩

/-- Offering ways through the expanded cell `p` to cells next to it, one after another. -/
theorem Sound.foldl_offer (hs : Sound src s) {d : Nat} (hp : s.grid.contains p)
    (hpc : (s.mark p).closed) (hpd : (s.mark p).cost = some d) (l : List Cell)
    (hl : ∀ q ∈ l, q ∈ s.grid.adjacent p) :
    Sound src (l.foldl (fun u q => u.offer p d q) s) ∧
      Grows s (l.foldl (fun u q => u.offer p d q) s) ∧
      ∀ q ∈ l, ((l.foldl (fun u q => u.offer p d q) s).mark q).cost.isSome := by
  induction l generalizing s with
  | nil => exact ⟨hs, .refl s, by simp⟩
  | cons q l ih =>
    obtain ⟨h₁, h₂, h₃⟩ := hs.offer hp hpc hpd (hl q List.mem_cons_self)
    have hfrozen := h₂.frozen p hp hpc
    obtain ⟨k₁, k₂, k₃⟩ := ih h₁ (h₂.grid ▸ hp) (hfrozen ▸ hpc) (hfrozen ▸ hpd)
      (fun r hr => h₂.grid ▸ hl r (List.mem_cons_of_mem q hr))
    refine ⟨k₁, h₂.trans k₂, fun r hr => ?_⟩
    rcases List.mem_cons.1 hr with rfl | hr
    · exact k₂.cost r (h₂.grid ▸ Grid.contains_of_mem_adjacent (hl r List.mem_cons_self)) h₃
    · exact k₃ r hr

/-- Every neighbour of an expanded cell other than `p` has a cost. -/
def OfferedBut (s : Frontier) (p : Cell) : Prop :=
  ∀ r, s.grid.contains r → (s.mark r).closed → r ≠ p → ∀ q ∈ s.grid.adjacent r,
    (s.mark q).cost.isSome

/-- Offering ways through a cell just expanded to all its neighbours makes every neighbour of
an expanded cell have a cost again. -/
theorem Sound.offer_adjacent (ht : Sound src t) (hp : t.grid.contains p)
    (hpc : (t.mark p).closed) (ho : OfferedBut t p) :
    Sound src ((t.grid.adjacent p).foldl (fun u q => u.offer p ((t.mark p).cost.getD 0) q) t) ∧
      Offered ((t.grid.adjacent p).foldl (fun u q => u.offer p ((t.mark p).cost.getD 0) q) t) ∧
      Grows t ((t.grid.adjacent p).foldl (fun u q => u.offer p ((t.mark p).cost.getD 0) q) t) := by
  obtain ⟨d, hd⟩ := Option.isSome_iff_exists.1 (ht.closed p hp hpc)
  rw [hd, Option.getD_some]
  obtain ⟨h₁, h₂, h₃⟩ := ht.foldl_offer hp hpc hd _ fun q hq => hq
  refine ⟨h₁, fun r hr hrc q hq => ?_, h₂⟩
  rw [h₂.grid] at hr hq
  have hrc' : (t.mark r).closed := by rwa [← h₂.closed r hr]
  by_cases h : r = p
  · subst h
    exact h₃ q hq
  · exact h₂.cost q (Grid.contains_of_mem_adjacent hq) (ho r hr hrc' h q hq)

/-! ### Expanding a cell -/

/-- A cell of a sound frontier is a waiting cell of the grid. -/
theorem Sound.mem_heap (hs : Sound src s) (h : q ∈ s.heap) :
    s.grid.contains q ∧ (s.mark q).waiting := by
  have hc := hs.count q
  by_contra hn
  rw [if_neg hn] at hc
  exact (Array.count_pos_iff.2 h).ne' hc

/-- Popping a cell other than the goal from a sound frontier and marking it expanded gives a
sound frontier with one more expanded cell, in which only the neighbours of that cell may lack
a cost. -/
theorem Sound.close (hs : Sound src s) (ho : Offered s) (hne : s.heap ≠ #[])
    (hgoal : s.pop.1 ≠ s.goal) :
    Sound src (s.pop.2.setMark s.pop.1 fun m => { m with closed := true, waiting := false }) ∧
      OfferedBut (s.pop.2.setMark s.pop.1 fun m => { m with closed := true, waiting := false })
        s.pop.1 ∧
      s.grid.contains s.pop.1 ∧
      ((s.pop.2.setMark s.pop.1 fun m => { m with closed := true, waiting := false }).mark
        s.pop.1).closed ∧
      (closedCells (s.pop.2.setMark s.pop.1 fun m => { m with closed := true, waiting := false })).card
        = (closedCells s).card + 1 := by
  obtain ⟨hmem, hperm⟩ := perm_pop hne
  set p := s.pop.1 with hp_def
  set t := s.pop.2.setMark p fun m => { m with closed := true, waiting := false } with ht_def
  have hg : t.grid = s.grid := by simp [t]
  -- the popped cell was waiting, so it has a cost and is not expanded
  have hpin : s.grid.contains p ∧ (s.mark p).waiting := hs.mem_heap hmem
  obtain ⟨hpc, hpd⟩ := hs.waiting p hpin.1 hpin.2
  have hmark : ∀ r, s.grid.contains r → t.mark r =
      if r = p then { s.mark p with closed := true, waiting := false } else s.mark r := by
    intro r hr
    have h := mark_setMark (s := s.pop.2) (by simp [hs.size]) (by simpa using hpin.1)
      (by simpa using hr) fun m => { m with closed := true, waiting := false }
    simpa using h
  have hcost : ∀ r, s.grid.contains r → (t.mark r).cost = (s.mark r).cost := fun r hr => by
    rw [hmark r hr]; split_ifs with h <;> simp [h]
  have hcame : ∀ r, s.grid.contains r → (t.mark r).came = (s.mark r).came := fun r hr => by
    rw [hmark r hr]; split_ifs with h <;> simp [h]
  have hclosed : ∀ r, s.grid.contains r → ((t.mark r).closed ↔ (s.mark r).closed ∨ r = p) :=
    fun r hr => by rw [hmark r hr]; split_ifs with h <;> simp [h]
  have hwait : ∀ r, s.grid.contains r → ((t.mark r).waiting ↔ (s.mark r).waiting ∧ r ≠ p) :=
    fun r hr => by rw [hmark r hr]; split_ifs with h <;> simp [h]
  have hcells : closedCells t = insert p (closedCells s) := by
    ext r
    simp only [closedCells, Finset.mem_filter, Finset.mem_insert, List.mem_toFinset, hg]
    constructor
    · rintro ⟨hr, hrc⟩
      rcases (hclosed r (Grid.mem_cells.1 hr)).1 hrc with h | h
      · exact .inr ⟨hr, h⟩
      · exact .inl h
    · rintro (rfl | ⟨hr, hrc⟩)
      · exact ⟨Grid.mem_cells.2 hpin.1, (hclosed _ hpin.1).2 (.inr rfl)⟩
      · exact ⟨hr, (hclosed r (Grid.mem_cells.1 hr)).2 (.inl hrc)⟩
  have hcard : (closedCells t).card = (closedCells s).card + 1 := by
    rw [hcells, Finset.card_insert_of_notMem]
    simp [closedCells, hpc]
  refine ⟨{ src_mem := hg ▸ hs.src_mem, cost_src := ?_, came_src := ?_, came := ?_,
            size := ?_, goal_mem := ?_, goal := ?_, count := ?_, waiting := ?_,
            pending := ?_, closed := ?_, bound := ?_ }, ?_, hpin.1,
    (hclosed p hpin.1).2 (.inr rfl), hcard⟩
  · rw [hcost src hs.src_mem]; exact hs.cost_src
  · rw [hcame src hs.src_mem]; exact hs.came_src
  · intro r c hr hrc hrs
    rw [hg] at hr ⊢
    rw [hcost r hr] at hrc
    obtain ⟨q, d, hq, hqm, hqc, hrq, hqd, rfl⟩ := hs.came r c hr hrc hrs
    exact ⟨q, d, by rw [hcame r hr, hq], hqm, (hclosed q hqm).2 (.inl hqc), hrq,
      by rw [hcost q hqm, hqd], rfl⟩
  · simp [t, hs.size]
  · rw [hg]; simpa [t] using hs.goal_mem
  · have hgm : s.grid.contains t.goal := by simpa [t] using hs.goal_mem
    have hgp : t.goal ≠ p := by simpa [t] using Ne.symm hgoal
    have := hclosed t.goal hgm
    have hsg : (s.mark t.goal).closed = false := by simpa [t] using hs.goal
    simp_all
  · intro r
    have hc := Array.count_eq_of_perm hperm r
    rw [Array.count_push, hs.count r] at hc
    simp only [beq_iff_eq] at hc
    have hth : t.heap = s.pop.2.heap := rfl
    rw [hth, hg]
    by_cases hr : s.grid.contains r
    · by_cases h : r = p
      · have hw : ¬(t.mark r).waiting := fun hw => ((hwait r hr).1 hw).2 h
        rw [if_pos h.symm, if_pos ⟨hr, h ▸ hpin.2⟩] at hc
        rw [if_neg fun hh => hw hh.2]
        omega
      · have hw : (t.mark r).waiting ↔ (s.mark r).waiting := by simp [hwait r hr, h]
        rw [if_neg (Ne.symm h), Nat.add_zero] at hc
        simp only [hw, hc]
    · have hrp : p ≠ r := fun h => hr (h ▸ hpin.1)
      rw [if_neg hrp, if_neg fun hh => hr hh.1] at hc
      rw [if_neg fun hh => hr hh.1]
      omega
  · intro r hr hw
    rw [hg] at hr
    obtain ⟨hw, hrp⟩ := (hwait r hr).1 hw
    have := hs.waiting r hr hw
    have := hclosed r hr
    rw [hcost r hr]
    simp_all
  · intro r hr hc hrc
    rw [hg] at hr
    rw [hcost r hr] at hc
    have hrp : r ≠ p := fun h => by simp [(hclosed r hr).2 (.inr h)] at hrc
    have hsc : (s.mark r).closed = false := by
      simpa [hrp] using (not_congr (hclosed r hr)).1 (by simp [hrc])
    exact (hwait r hr).2 ⟨hs.pending r hr hc hsc, hrp⟩
  · intro r hr hrc
    rw [hg] at hr
    rw [hcost r hr]
    rcases (hclosed r hr).1 hrc with h | rfl
    · exact hs.closed r hr h
    · exact hpd
  · intro r c hr hrc
    rw [hg] at hr
    rw [hcost r hr] at hrc
    obtain ⟨h₁, h₂⟩ := hs.bound r c hr hrc
    refine ⟨by omega, fun h => ?_⟩
    rcases (hclosed r hr).1 h with h | rfl
    · exact by have := h₂ h; omega
    · exact by omega
  · intro r hr hrc hrp q hq
    rw [hg] at hr hq
    rw [hcost q (Grid.contains_of_mem_adjacent hq)]
    exact ho r hr (by simpa [hrp] using (hclosed r hr).1 hrc) q hq

/-- One round of the search after popping `p`: `p` is marked expanded, and ways through it are
offered to its neighbours. -/
def expand (s : Frontier) (p : Cell) : Frontier :=
  let t := s.setMark p fun m => { m with closed := true, waiting := false }
  (t.grid.adjacent p).foldl (fun u q => u.offer p ((t.mark p).cost.getD 0) q) t

theorem run_succ (s : Frontier) (fuel : Nat) :
    s.run (fuel + 1) = if s.heap = #[] then none
      else if s.pop.1 = s.goal then some (s.pop.2.walkTo (s.grid.size + 1) s.pop.1 [])
      else (s.pop.2.expand s.pop.1).run fuel := by
  simp only [run, expand, Array.isEmpty_iff, beq_iff_eq, pop_goal, pop_grid]

/-- A round that expands a cell other than the goal keeps the frontier sound, with one more
expanded cell. -/
theorem Sound.expand (hs : Sound src s) (ho : Offered s) (hne : s.heap ≠ #[])
    (hgoal : s.pop.1 ≠ s.goal) :
    Sound src (s.pop.2.expand s.pop.1) ∧ Offered (s.pop.2.expand s.pop.1) ∧
      (s.pop.2.expand s.pop.1).grid = s.grid ∧ (s.pop.2.expand s.pop.1).goal = s.goal ∧
      (closedCells (s.pop.2.expand s.pop.1)).card = (closedCells s).card + 1 := by
  obtain ⟨ht, hot, hp, hpc, hcard⟩ := hs.close ho hne hgoal
  obtain ⟨hu, hou, hg⟩ := ht.offer_adjacent (by simpa using hp) hpc hot
  exact ⟨hu, hou, hg.grid.trans (by simp), hg.goal.trans (by simp),
    by rw [Frontier.expand, hg.closedCells_eq, hcard]⟩

/-! ### Running to the goal -/

/-- With the frontier empty, a cell of the grid with a cost is expanded. -/
theorem Sound.closed_of_cost (hs : Sound src s) (he : s.heap = #[]) (hq : s.grid.contains q)
    (hc : (s.mark q).cost.isSome) : (s.mark q).closed := by
  by_contra h
  have hw := hs.pending q hq hc (by simpa using h)
  have hcount := hs.count q
  simp [he, hq, hw] at hcount

/-- With the frontier empty, every cell that can be reached from the start has been expanded. -/
theorem Sound.closed_of_joined (hs : Sound src s) (ho : Offered s) (he : s.heap = #[])
    (hq : s.grid.Joined src q) : s.grid.contains q ∧ (s.mark q).closed := by
  induction hq with
  | refl => exact ⟨hs.src_mem, hs.closed_of_cost he hs.src_mem (by simp [hs.cost_src])⟩
  | tail _ hbc ih =>
    have hc := Grid.contains_of_mem_adjacent hbc
    exact ⟨hc, hs.closed_of_cost he hc (ho _ ih.1 ih.2 _ hbc)⟩

/-- From a sound frontier whose goal can be reached, with at least one round per cell not yet
expanded, the search ends with a walk from the start to the goal. -/
theorem Sound.run (hs : Sound src s) (ho : Offered s) (hj : s.grid.Joined src s.goal)
    (fuel : Nat) (hfuel : s.grid.size + 1 ≤ (closedCells s).card + fuel) :
    ∃ w, s.run fuel = some w ∧ s.grid.Walk src w s.goal := by
  induction fuel generalizing s with
  | zero =>
    have := card_closedCells_le s
    omega
  | succ fuel ih =>
    -- the frontier is not empty: the goal would be expanded, and it never is
    have hne : s.heap ≠ #[] := fun he => by
      have := (hs.closed_of_joined ho he hj).2
      simp [hs.goal] at this
    have hcard := card_closedCells_le s
    rw [run_succ, if_neg hne]
    split_ifs with hgoal
    · obtain ⟨hpin, hpw⟩ := hs.mem_heap (perm_pop hne).1
      obtain ⟨c, hc⟩ := Option.isSome_iff_exists.1 (hs.waiting _ hpin hpw).2
      have ht : Traced src s.pop.2 := ⟨by simpa using hs.src_mem, by simpa using hs.cost_src,
        by simpa using hs.came_src, by simpa using hs.came⟩
      have hbound := (hs.bound _ c hpin hc).1
      obtain ⟨w, hw, hwalk⟩ := ht.walkTo (s.grid.size + 1) s.pop.1 c []
        (by simpa using hpin) (by simpa using hc) (by omega)
      exact ⟨w, by simp [hw], by simpa [hgoal] using hwalk⟩
    · obtain ⟨hu, hou, hg, hgl, hcard'⟩ := hs.expand ho hne hgoal
      obtain ⟨w, hw, hwalk⟩ := ih hu hou (by rw [hg, hgl]; exact hj) (by rw [hg, hcard']; omega)
      exact ⟨w, hw, by rwa [hg, hgl] at hwalk⟩

/-! ### The first round -/

/-- The frontier a search from `src` toward `dst` starts from, before `src` is pushed: only
`src` has a cost. -/
def start (g : Grid) (src dst : Cell) : Frontier :=
  { grid := g, goal := dst, heap := #[],
    marks := (Array.replicate g.size ({} : Mark)).modify (g.index src)
      fun m => { m with cost := some 0 } }

theorem mark_start {g : Grid} {dst : Cell} (hsrc : g.contains src) (hq : g.contains q) :
    (start g src dst).mark q = if q = src then { cost := some 0 } else {} := by
  have h := mark_setMark (s := ⟨g, dst, Array.replicate g.size {}, #[]⟩) (by simp) hsrc hq
    fun m => { m with cost := some 0 }
  simp only [mark, Array.getD_replicate] at h
  exact h

/-- After the first round, in which the start comes out of the frontier and is expanded, the
frontier is sound, the start is the one expanded cell, and only its neighbours may lack a
cost. -/
theorem sound_first {g : Grid} {dst : Cell} (hsrc : g.contains src) (hdst : g.contains dst)
    (hne : src ≠ dst) {s : Frontier} (hs : s = (start g src dst).push src) :
    s.heap ≠ #[] ∧ s.pop.1 = src ∧
      Sound src (s.pop.2.setMark src fun m => { m with closed := true, waiting := false }) ∧
      OfferedBut (s.pop.2.setMark src fun m => { m with closed := true, waiting := false }) src ∧
      ((s.pop.2.setMark src fun m => { m with closed := true, waiting := false }).mark
        src).closed ∧
      (closedCells (s.pop.2.setMark src fun m => { m with closed := true, waiting := false })).card
        = 1 := by
  have hpush : s.heap.Perm #[src] := hs ▸ perm_push
  have hne' : s.heap ≠ #[] := fun h => by simpa [h] using hpush.size_eq
  obtain ⟨hmem, hperm⟩ := perm_pop hne'
  have hp : s.pop.1 = src := by simpa using hpush.mem_iff.1 hmem
  have hempty : s.pop.2.heap = #[] := by
    have := (hperm.trans hpush).size_eq
    simpa using this
  have hsg : s.grid = g := by simp [hs, start]
  set t := s.pop.2.setMark src fun m => { m with closed := true, waiting := false }
  have hg : t.grid = g := by simp [t, hsg]
  have hsm : ∀ r, g.contains r → s.mark r = if r = src then { cost := some 0 } else {} := by
    intro r hr
    rw [hs, mark_push, mark_start hsrc hr]
  have hmark : ∀ r, g.contains r → t.mark r =
      if r = src then { cost := some 0, closed := true } else {} := by
    intro r hr
    have h := mark_setMark (s := s.pop.2) (by simp [hs, start]) (by simpa [hsg] using hsrc)
      (by simpa [hsg] using hr) fun m => { m with closed := true, waiting := false }
    rw [mark_pop, mark_pop, hsm r hr, hsm src hsrc] at h
    rw [h]
    by_cases h : r = src <;> simp [h]
  have hcells : closedCells t = {src} := by
    ext r
    simp only [closedCells, Finset.mem_filter, List.mem_toFinset, hg, Finset.mem_singleton]
    constructor
    · rintro ⟨hr, hrc⟩
      by_contra h
      simp [hmark r (Grid.mem_cells.1 hr), h] at hrc
    · rintro rfl
      exact ⟨Grid.mem_cells.2 hsrc, by simp [hmark r hsrc]⟩
  have hgoal : t.goal = dst := by simp [t, hs, start]
  refine ⟨hne', hp,
    { src_mem := hg ▸ hsrc, cost_src := ?_, came_src := ?_, came := ?_, size := ?_,
      goal_mem := ?_, goal := ?_, count := ?_, waiting := ?_, pending := ?_, closed := ?_,
      bound := ?_ }, ?_, by simp [hmark src hsrc], by simp [hcells]⟩
  · simp [hmark src hsrc]
  · simp [hmark src hsrc]
  · intro r c hr hrc hrs
    rw [hg] at hr
    simp [hmark r hr, hrs] at hrc
  · simp [t, hs, start]
  · rw [hgoal, hg]; exact hdst
  · rw [hgoal, hmark dst hdst]; simp [Ne.symm hne]
  · intro r
    rw [hg]
    have hth : t.heap = s.pop.2.heap := rfl
    rw [hth, hempty]
    by_cases hr : g.contains r
    · by_cases h : r = src
      · subst h; simp [hmark r hr]
      · simp [hmark r hr, h]
    · simp [hr]
  · intro r hr hw
    rw [hg] at hr
    by_cases h : r = src
    · subst h; simp [hmark r hr] at hw
    · simp [hmark r hr, h] at hw
  · intro r hr hc hrc
    rw [hg] at hr
    by_cases h : r = src
    · subst h; simp [hmark r hr] at hrc
    · simp [hmark r hr, h] at hc
  · intro r hr hrc
    rw [hg] at hr
    by_cases h : r = src
    · subst h; simp [hmark r hr]
    · simp [hmark r hr, h] at hrc
  · intro r c hr hrc
    rw [hg] at hr
    rw [hcells]
    by_cases h : r = src
    · subst h
      simp [hmark r hr] at hrc
      simp [← hrc]
    · simp [hmark r hr, h] at hrc
  · intro r hr hrc hrs
    rw [hg] at hr
    simp [hmark r hr, hrs] at hrc

end Frontier

/-- **The search finds a walk**: whenever `dst` can be reached from the open cell `src`, the
best-first search returns a walk from `src` to `dst`. -/
theorem Grid.search_walks (g : Grid) : Finder.Walks Grid.search g := by
  intro src dst hsrc hj
  by_cases h : src = dst
  · subst h
    exact ⟨[src], by simp [Grid.search], .single src⟩
  have hsm := Grid.contains_of_isOpen hsrc
  have hdm := Grid.contains_of_isOpen (hj.isOpen hsrc)
  obtain ⟨hne, hp, ht, hot, hpc, hcard⟩ := Frontier.sound_first hsm hdm h rfl
  have hsearch : g.search src dst =
      ((Frontier.start g src dst).push src).run (g.size * g.size + 1) := by
    simp [Grid.search, h, Frontier.start]
  rw [hsearch, Frontier.run_succ, if_neg hne, hp, if_neg (by simpa [Frontier.start] using h)]
  have hg : (((Frontier.start g src dst).push src).pop.2.setMark src
      fun m => { m with closed := true, waiting := false }).grid = g := by
    simp [Frontier.start]
  obtain ⟨hu, hou, hgrows⟩ := ht.offer_adjacent (by rw [hg]; exact hsm) hpc hot
  obtain ⟨w, hw, hwalk⟩ := hu.run hou
    (by rw [hgrows.grid, hgrows.goal, hg]; simpa [Frontier.start] using hj) (g.size * g.size)
    (by rw [hgrows.closedCells_eq, hcard, hgrows.grid, hg]; have := Nat.le_mul_self g.size; omega)
  refine ⟨w, hw, ?_⟩
  rw [hgrows.grid, hgrows.goal, hg] at hwalk
  simpa [Frontier.start] using hwalk

end Lambdaman

end Interstellar
