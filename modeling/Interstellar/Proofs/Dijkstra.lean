import Interstellar.Proofs.Distance
import Interstellar.Proofs.Heap

/-!
# The search by least distance gives the breadth-first distances

`Grid.distances src` repeats `Grid.settle` until its heap is empty: the least pair of a
distance and a cell leaves the heap; a cell settled before is passed over, and any other is
settled and offers each of its neighbours one step more, pushing a new pair whenever that is
less than what the neighbour has. Pairs made stale by a later offer stay in the heap and are
passed over when they come out.

This module proves that the search gives every cell of the grid its distance from `src`, the
fewest steps between adjacent open cells, and `inf` to the cells no steps reach
(`Grid.distances_eq_fin_iff`, `Grid.distances_eq_inf_iff`).

Every round keeps `Grid.Sound`:

* the heap is in heap order, so the pair that comes out is a least one (`Heap.pop_least`);
* a distance found is the length of some steps, and a pair in the heap offers its cell no less
  than what the cell already has;
* a cell with a distance that is not settled waits in the heap with that distance;
* a settled cell has its true distance, no pair in the heap is nearer than it, and its
  neighbours are at most one step beyond it.

When a cell `p` comes out with `k` and is not settled yet, every cell not settled is at least
`k` from `src` (`Grid.Sound.pop_le_of_isDist`, by induction on that distance), so `k` is the
distance of `p`. While the neighbours of `p` are offered, all but the closeness of `p` holds
(`Grid.Settling`), and each offer adds one neighbour to it. Once the heap is empty, every cell
that steps reach has been settled.
-/

namespace Interstellar

namespace Lambdaman

/-- A distance of at most `n` steps. -/
def Dist.AtMost (d : Dist) (n : Nat) : Prop := ∃ j ≤ n, d = .fin j

namespace Sweep

/-- The distance a search has found for a cell so far. -/
def distOf (s : Sweep) (g : Grid) (q : Cell) : Dist := s.dist.getD (g.index q) .inf

/-- Whether a search has settled a cell. -/
def settled (s : Sweep) (g : Grid) (q : Cell) : Bool := s.done.getD (g.index q) true

/-- The neighbours of `q` are at most one step beyond it. -/
def Close (s : Sweep) (g : Grid) (q : Cell) : Prop :=
  ∀ n, s.distOf g q = .fin n → ∀ r ∈ g.adjacent q, (s.distOf g r).AtMost (n + 1)

end Sweep

namespace Grid

variable {g : Grid} {src p q r : Cell} {s : Sweep} {heap : Array (Nat × Cell)} {j k m n : Nat}

/-! ### The order of the heap -/

/-- Pairs are ordered by distance, then by row, then by column: a strict weak order (in fact
a strict total one). -/
theorem entryLt_order : Heap.Order entryLt where
  irrefl x := by simp [entryLt]
  trans := by
    intro x y z hxy hyz
    simp only [entryLt, Bool.or_eq_true, Bool.and_eq_true, decide_eq_true_eq, beq_iff_eq] at *
    omega
  not_trans := by
    intro x y z hxy hyz
    simp only [entryLt, Bool.or_eq_false_iff, Bool.and_eq_false_iff, decide_eq_false_iff_not,
      beq_eq_false_iff_ne] at *
    omega

theorem le_of_entryLt_eq_false {x y : Nat × Cell} (h : entryLt x y = false) : y.1 ≤ x.1 := by
  simp only [entryLt, Bool.or_eq_false_iff, decide_eq_false_iff_not] at h
  omega

/-! ### Arrays indexed by cells -/

theorem getD_set!_index {α : Type} {a : Array α} (ha : a.size = g.size) (hp : g.contains p)
    (hq : g.contains q) (v d : α) :
    (a.set! (g.index p) v).getD (g.index q) d = if q = p then v else a.getD (g.index q) d := by
  rw [Array.getD_set!_of_lt (ha ▸ index_lt_size hp)]
  by_cases h : q = p
  · simp [h]
  · rw [if_neg fun he => h (index_injOn hq hp he.symm), if_neg h]

theorem getD_replicate_index {α : Type} (hq : g.contains q) (v d : α) :
    (Array.replicate g.size v).getD (g.index q) d = v := by
  simp [Array.getD_eq_getD_getElem?, index_lt_size hq]

/-! ### What every round keeps -/

/-- What a round of the search from `src` keeps, whatever it is in the middle of. -/
structure Core (g : Grid) (src : Cell) (s : Sweep) : Prop where
  size_dist : s.dist.size = g.size
  size_done : s.done.size = g.size
  contains_src : g.contains src
  ordered : Heap.Ordered entryLt s.heap
  at_src : s.distOf g src = .fin 0
  steps : ∀ q j, g.contains q → s.distOf g q = .fin j → g.Steps src q j
  entry : ∀ j q, (j, q) ∈ s.heap → g.contains q ∧ g.Steps src q j ∧ (s.distOf g q).AtMost j
  waiting : ∀ q j, g.contains q → s.settled g q = false → s.distOf g q = .fin j → (j, q) ∈ s.heap
  settled_dist : ∀ q, g.contains q → s.settled g q = true →
    ∃ n, s.distOf g q = .fin n ∧ g.IsDist src q n
  below : ∀ q n j t, g.contains q → s.settled g q = true → g.IsDist src q n → (j, t) ∈ s.heap →
    n ≤ j

/-- What holds between rounds: besides `Core`, every settled cell is close to its neighbours. -/
structure Sound (g : Grid) (src : Cell) (s : Sweep) : Prop extends Core g src s where
  close : ∀ q, g.contains q → s.settled g q = true → s.Close g q

/-- What holds while the neighbours of `p`, just settled at distance `k`, are offered one step
more: every settled cell is within `k`, every one but `p` is close to its neighbours, and the
neighbours of `p` offered so far, `R`, are within `k + 1`. -/
structure Settling (g : Grid) (src : Cell) (k : Nat) (p : Cell) (R : List Cell) (s : Sweep) : Prop
    extends Core g src s where
  contains_p : g.contains p
  settled_p : s.settled g p = true
  dist_p : s.distOf g p = .fin k
  isDist_p : g.IsDist src p k
  bound : ∀ q n, g.contains q → s.settled g q = true → g.IsDist src q n → n ≤ k
  close : ∀ q, g.contains q → s.settled g q = true → q ≠ p → s.Close g q
  close_p : ∀ r ∈ R, g.contains r ∧ (s.distOf g r).AtMost (k + 1)

/-- Before the first round only `src` has a distance, and it waits in the heap. -/
theorem sound_start (hsrc : g.contains src) :
    Sound g src ⟨(Array.replicate g.size .inf).set! (g.index src) (.fin 0),
      Array.replicate g.size false, #[(0, src)]⟩ := by
  have hdist : ∀ q, g.contains q →
      ((Array.replicate g.size Dist.inf).set! (g.index src) (.fin 0)).getD (g.index q) .inf =
        if q = src then .fin 0 else .inf := by
    intro q hq
    rw [getD_set!_index (by simp) hsrc hq, getD_replicate_index hq]
  have hdone : ∀ q, g.contains q → (Array.replicate g.size false).getD (g.index q) true = false :=
    fun q hq => getD_replicate_index hq _ _
  refine ⟨⟨by simp, by simp, hsrc, fun i hi h0 => by simp at hi; omega, ?_, ?_, ?_, ?_, ?_, ?_⟩, ?_⟩
  · rw [Sweep.distOf, hdist src hsrc, if_pos rfl]
  · intro q j hq hj
    simp only [Sweep.distOf, hdist q hq] at hj
    split at hj
    · cases hj
      subst_vars
      exact .refl
    · cases hj
  · intro j q hmem
    simp only [List.mem_toArray, List.mem_singleton, Prod.mk.injEq] at hmem
    obtain ⟨rfl, rfl⟩ := hmem
    exact ⟨hsrc, .refl, 0, le_rfl, by rw [Sweep.distOf, hdist _ hsrc, if_pos rfl]⟩
  · intro q j hq _ hj
    simp only [Sweep.distOf, hdist q hq] at hj
    split at hj
    · cases hj
      subst_vars
      simp
    · cases hj
  · intro q hq hs
    simp [Sweep.settled, hdone q hq] at hs
  · intro q n j t hq hs
    simp [Sweep.settled, hdone q hq] at hs
  · intro q hq hs
    simp [Sweep.settled, hdone q hq] at hs

/-! ### Offering a neighbour one step more -/

/-- A cell whose distance can still be lowered below every settled distance is not settled:
settled cells have their true distance. -/
theorem Core.not_settled_of_lt (h : Core g src s) (hr : g.contains r)
    (hlt : Dist.lt (.fin m) (s.distOf g r) = true)
    (hbelow : ∀ q n, g.contains q → s.settled g q = true → g.IsDist src q n → n ≤ m) :
    s.settled g r = false := by
  cases hs : s.settled g r
  · rfl
  · obtain ⟨n, hn, hd⟩ := h.settled_dist r hr hs
    have := hbelow r n hr hs hd
    rw [hn] at hlt
    simp only [Dist.lt, decide_eq_true_eq] at hlt
    omega

/-- Lowering the distance of a cell reached in `m` steps to `m`, and pushing the pair, keeps
`Core` while no settled cell is beyond `m`. -/
theorem Core.lower (h : Core g src s) (hr : g.contains r) (hsteps : g.Steps src r m)
    (hlt : Dist.lt (.fin m) (s.distOf g r) = true)
    (hbelow : ∀ q n, g.contains q → s.settled g q = true → g.IsDist src q n → n ≤ m) :
    Core g src { s with dist := s.dist.set! (g.index r) (.fin m),
                        heap := Heap.push entryLt s.heap (m, r) } := by
  have hat : ∀ q, g.contains q → (s.dist.set! (g.index r) (.fin m)).getD (g.index q) .inf =
      if q = r then .fin m else s.distOf g q :=
    fun q hq => getD_set!_index h.size_dist hr hq _ _
  have hnot := h.not_settled_of_lt hr hlt hbelow
  refine ⟨by simp [h.size_dist], h.size_done, h.contains_src,
    Heap.ordered_push entryLt_order h.ordered, ?_, ?_, ?_, ?_, ?_, ?_⟩
  · -- `src` keeps `0`: nothing is below it
    simp only [Sweep.distOf, hat src h.contains_src]
    split
    · subst_vars
      rw [h.at_src] at hlt
      simp [Dist.lt] at hlt
    · exact h.at_src
  · intro q j hq hj
    simp only [Sweep.distOf, hat q hq] at hj
    split at hj
    · cases hj
      subst_vars
      exact hsteps
    · exact h.steps q j hq hj
  · intro j q hmem
    rcases Heap.mem_push_iff.1 hmem with hmem | he
    · obtain ⟨hq, hs, i, hi, hdi⟩ := h.entry j q hmem
      refine ⟨hq, hs, ?_⟩
      simp only [Sweep.distOf, hat q hq]
      split
      · subst_vars
        rw [hdi] at hlt
        simp only [Dist.lt, decide_eq_true_eq] at hlt
        exact ⟨m, by omega, rfl⟩
      · exact ⟨i, hi, hdi⟩
    · simp only [Prod.mk.injEq] at he
      obtain ⟨rfl, rfl⟩ := he
      exact ⟨hr, hsteps, j, le_rfl, by rw [Sweep.distOf, hat q hr, if_pos rfl]⟩
  · intro q j hq hns hj
    simp only [Sweep.distOf, hat q hq] at hj
    refine Heap.mem_push_iff.2 ?_
    split at hj
    · cases hj
      subst_vars
      exact .inr rfl
    · exact .inl (h.waiting q j hq hns hj)
  · intro q hq hs
    have hqr : q ≠ r := by
      rintro rfl
      exact Bool.false_ne_true (hnot.symm.trans hs)
    simp only [Sweep.distOf, hat q hq, if_neg hqr]
    exact h.settled_dist q hq hs
  · intro q n j t hq hs hd hmem
    rcases Heap.mem_push_iff.1 hmem with hmem | he
    · exact h.below q n j t hq hs hd hmem
    · simp only [Prod.mk.injEq] at he
      rw [he.1]
      exact hbelow q n hq hs hd

theorem relax_eq : g.relax k s r =
    if Dist.lt (.fin (k + 1)) (s.distOf g r) then
      { s with dist := s.dist.set! (g.index r) (.fin (k + 1)),
               heap := Heap.push entryLt s.heap (k + 1, r) }
    else s := rfl

theorem settled_relax : (g.relax k s r).settled g q = s.settled g q := by
  unfold relax
  split <;> rfl

/-- An offer only lowers distances. -/
theorem atMost_relax (hs : s.dist.size = g.size) (hr : g.contains r) (hq : g.contains q)
    (h : (s.distOf g q).AtMost n) : ((g.relax k s r).distOf g q).AtMost n := by
  rw [relax_eq]
  split
  · rename_i hlt
    simp only [Sweep.distOf, getD_set!_index hs hr hq]
    split
    · subst_vars
      obtain ⟨i, hi, hdi⟩ := h
      simp only [hdi, Dist.lt, decide_eq_true_eq] at hlt
      exact ⟨k + 1, by omega, rfl⟩
    · exact h
  · exact h

/-- After an offer of `k + 1`, the neighbour has at most `k + 1`. -/
theorem atMost_relax_self (hs : s.dist.size = g.size) (hr : g.contains r) :
    ((g.relax k s r).distOf g r).AtMost (k + 1) := by
  rw [relax_eq]
  split
  · rw [Sweep.distOf, getD_set!_index hs hr hr, if_pos rfl]
    exact ⟨k + 1, le_rfl, rfl⟩
  · rename_i hlt
    cases hd : s.distOf g r with
    | inf =>
      rw [hd] at hlt
      simp [Dist.lt] at hlt
    | fin i =>
      rw [hd] at hlt
      simp only [Dist.lt, decide_eq_true_eq, Nat.not_lt] at hlt
      exact ⟨i, hlt, rfl⟩

theorem Settling.bound_succ (h : Settling g src k p R s) :
    ∀ q n, g.contains q → s.settled g q = true → g.IsDist src q n → n ≤ k + 1 :=
  fun q n hq hs hd => Nat.le_succ_of_le (h.bound q n hq hs hd)

/-- An offer leaves a settled cell's distance alone. -/
theorem Settling.distOf_relax (h : Settling g src k p R s) (hr : g.contains r)
    (hq : g.contains q) (hs : s.settled g q = true) :
    (g.relax k s r).distOf g q = s.distOf g q := by
  rw [relax_eq]
  split
  · rename_i hlt
    simp only [Sweep.distOf, getD_set!_index h.size_dist hr hq]
    have hnot := h.toCore.not_settled_of_lt hr hlt h.bound_succ
    rw [if_neg (by rintro rfl; simp [hs] at hnot)]
  · rfl

/-- Offering a neighbour of `p` one step more keeps `Settling` and adds it to the neighbours
offered. -/
theorem Settling.relax (h : Settling g src k p R s) (hr : r ∈ g.adjacent p) :
    Settling g src k p (r :: R) (g.relax k s r) := by
  have hrc := contains_of_mem_adjacent hr
  have hcore : Core g src (g.relax k s r) := by
    rw [relax_eq]
    split
    · rename_i hlt
      exact h.toCore.lower hrc (.tail h.isDist_p.1 hr) hlt h.bound_succ
    · exact h.toCore
  refine ⟨hcore, h.contains_p, by rw [settled_relax]; exact h.settled_p, ?_, h.isDist_p,
    fun q n hq hs => h.bound q n hq (by rwa [settled_relax] at hs), ?_, ?_⟩
  · rw [h.distOf_relax hrc h.contains_p h.settled_p]
    exact h.dist_p
  · intro q hq hs hqp n hn t ht
    rw [settled_relax] at hs
    rw [h.distOf_relax hrc hq hs] at hn
    exact atMost_relax h.size_dist hrc (contains_of_mem_adjacent ht)
      (h.close q hq hs hqp n hn t ht)
  · intro t ht
    rcases List.mem_cons.1 ht with rfl | ht
    · exact ⟨hrc, atMost_relax_self h.size_dist hrc⟩
    · obtain ⟨htc, hd⟩ := h.close_p t ht
      exact ⟨htc, atMost_relax h.size_dist hrc htc hd⟩

/-- Offering every cell of `L`, each a neighbour of `p`, in turn. -/
theorem Settling.foldl_relax (h : Settling g src k p R s) (L : List Cell)
    (hL : ∀ r ∈ L, r ∈ g.adjacent p) :
    Settling g src k p (L.reverse ++ R) (L.foldl (g.relax k) s) := by
  induction L generalizing s R with
  | nil => exact h
  | cons r L ih =>
    rw [List.foldl_cons, List.reverse_cons, List.append_assoc, List.singleton_append]
    exact ih (h.relax (hL r List.mem_cons_self)) fun t ht => hL t (List.mem_cons_of_mem r ht)

/-- Once every neighbour of `p` has been offered, `p` is close to them too. -/
theorem Settling.sound (h : Settling g src k p R s) (hR : ∀ r ∈ g.adjacent p, r ∈ R) :
    Sound g src s := by
  refine ⟨h.toCore, fun q hq hs => ?_⟩
  by_cases hqp : q = p
  · subst hqp
    intro n hn r hr
    rw [h.dist_p] at hn
    cases hn
    exact (h.close_p r (hR r hr)).2
  · exact h.close q hq hs hqp

/-! ### A round -/

section Round

variable (hpop : Heap.pop entryLt s.heap = ((k, p), heap)) (hne : s.heap ≠ #[])
include hpop hne

theorem mem_heap_of_pop : (k, p) ∈ s.heap := by
  have h := (@Heap.perm_pop _ _ entryLt _ hne).1
  rwa [hpop] at h

theorem mem_of_mem_pop {x : Nat × Cell} (hx : x ∈ heap) : x ∈ s.heap :=
  Heap.mem_of_mem_pop hne (by rw [hpop]; exact hx)

theorem mem_pop_of_mem {x : Nat × Cell} (hx : x ∈ s.heap) (hxp : x ≠ (k, p)) : x ∈ heap := by
  have h := @Heap.mem_pop_of_mem _ _ entryLt _ hne _ hx (by rw [hpop]; exact hxp)
  rwa [hpop] at h

omit hne in
/-- What is left of the heap is in heap order. -/
theorem Core.ordered_pop (h : Core g src s) : Heap.Ordered entryLt heap := by
  have ho := Heap.ordered_pop entryLt_order h.ordered
  rwa [hpop] at ho

/-- The pair that comes out is at or before every pair in the heap. -/
theorem Core.pop_le (h : Core g src s) {t : Cell} (hmem : (j, t) ∈ s.heap) : k ≤ j := by
  have hl := Heap.pop_least entryLt_order h.ordered hne hmem
  rw [hpop] at hl
  exact le_of_entryLt_eq_false hl

/-- **No cell that is not settled is nearer than the pair that comes out.** By induction on
the distance `n` of the cell: the last step of a shortest way to it comes from a cell at `n`
that is either settled, so that the cell waits in the heap within `n + 1`, or not settled, and
then the pair is within `n` already. -/
theorem Sound.pop_le_of_isDist (h : Sound g src s) :
    ∀ n q, g.IsDist src q n → s.settled g q = false → k ≤ n := by
  intro n
  induction n with
  | zero =>
    intro q hd hns
    obtain rfl := isDist_zero_iff.1 hd
    exact h.pop_le hpop hne (h.waiting _ 0 h.contains_src hns h.at_src)
  | succ n ih =>
    intro q hd hns
    obtain ⟨⟨r, hr, hq⟩, -⟩ := isDist_succ_iff.1 hd
    have hrc : g.contains r := hr.1.contains h.contains_src
    cases hrs : s.settled g r
    · exact Nat.le_succ_of_le (ih r hr hrs)
    · obtain ⟨n', hn', hd'⟩ := h.settled_dist r hrc hrs
      obtain rfl := hd'.unique hr
      obtain ⟨i, hi, hiq⟩ := h.close r hrc hrs n' hn' q hq
      have hwait := h.waiting q i (contains_of_mem_adjacent hq) hns hiq
      exact Nat.le_trans (h.pop_le hpop hne hwait) hi

/-- A cell that comes out and is not settled yet comes out with its distance, which it already
has. -/
theorem Sound.isDist_pop (h : Sound g src s) (hns : s.settled g p = false) :
    s.distOf g p = .fin k ∧ g.IsDist src p k := by
  obtain ⟨hpc, hsteps, i, hi, hdi⟩ := h.entry k p (mem_heap_of_pop hpop hne)
  have hki : k ≤ i := h.pop_le hpop hne (h.waiting p i hpc hns hdi)
  obtain rfl : i = k := by omega
  refine ⟨hdi, hsteps, fun m hm => ?_⟩
  obtain ⟨n, hn, hd⟩ := exists_isDist hm
  exact Nat.le_trans (h.pop_le_of_isDist hpop hne n p hd hns) hn

/-- Passing over a settled cell that comes out keeps `Sound`. -/
theorem Sound.skip (h : Sound g src s) (hs : s.settled g p = true) :
    Sound g src { s with heap := heap } := by
  refine ⟨⟨h.size_dist, h.size_done, h.contains_src, h.ordered_pop hpop, h.at_src, h.steps,
    fun j q hmem => h.entry j q (mem_of_mem_pop hpop hne hmem), ?_, h.settled_dist,
    fun q n j t hq hs hd hmem => h.below q n j t hq hs hd (mem_of_mem_pop hpop hne hmem)⟩, h.close⟩
  intro q j hq hns hj
  refine mem_pop_of_mem hpop hne (h.waiting q j hq hns hj) ?_
  rintro ⟨-, rfl⟩
  exact Bool.false_ne_true (hns.symm.trans hs)

/-- Settling a cell that comes out and was not settled: all of `Settling` holds with no
neighbour offered yet. -/
theorem Sound.settling (h : Sound g src s) (hns : s.settled g p = false) :
    Settling g src k p [] { s with done := s.done.set! (g.index p) true, heap := heap } := by
  obtain ⟨hdp, hisd⟩ := h.isDist_pop hpop hne hns
  have hpc : g.contains p := (h.entry k p (mem_heap_of_pop hpop hne)).1
  have hset : ∀ q, g.contains q → (s.done.set! (g.index p) true).getD (g.index q) true =
      if q = p then true else s.settled g q :=
    fun q hq => getD_set!_index h.size_done hpc hq _ _
  -- a cell settled now is `p` or was settled before
  have hcases : ∀ q, g.contains q →
      Sweep.settled { s with done := s.done.set! (g.index p) true, heap := heap } g q = true →
        q = p ∨ q ≠ p ∧ s.settled g q = true := by
    intro q hq hs
    rw [Sweep.settled, hset q hq] at hs
    by_cases hqp : q = p
    · exact .inl hqp
    · rw [if_neg hqp] at hs
      exact .inr ⟨hqp, hs⟩
  refine ⟨⟨h.size_dist, by simp [h.size_done], h.contains_src, h.ordered_pop hpop, h.at_src,
    h.steps, fun j q hmem => h.entry j q (mem_of_mem_pop hpop hne hmem), ?_, ?_, ?_⟩,
    hpc, ?_, hdp, hisd, ?_, ?_, fun _ hr => absurd hr List.not_mem_nil⟩
  · intro q j hq hns' hj
    rw [Sweep.settled, hset q hq] at hns'
    by_cases hqp : q = p
    · simp [hqp] at hns'
    · rw [if_neg hqp] at hns'
      refine mem_pop_of_mem hpop hne (h.waiting q j hq hns' hj) ?_
      rintro ⟨-, rfl⟩
      exact hqp rfl
  · intro q hq hs
    rcases hcases q hq hs with rfl | ⟨-, hs⟩
    · exact ⟨k, hdp, hisd⟩
    · exact h.settled_dist q hq hs
  · intro q n j t hq hs hd hmem
    rcases hcases q hq hs with rfl | ⟨-, hs⟩
    · rw [hd.unique hisd]
      exact h.pop_le hpop hne (mem_of_mem_pop hpop hne hmem)
    · exact h.below q n j t hq hs hd (mem_of_mem_pop hpop hne hmem)
  · rw [Sweep.settled, hset p hpc, if_pos rfl]
  · intro q n hq hs hd
    rcases hcases q hq hs with rfl | ⟨-, hs⟩
    · exact (hd.unique hisd).le
    · exact h.below q n k p hq hs hd (mem_heap_of_pop hpop hne)
  · intro q hq hs hqp
    rcases hcases q hq hs with rfl | ⟨-, hs⟩
    · exact absurd rfl hqp
    · exact h.close q hq hs

end Round

/-- **Step lemma.** A round of the search keeps `Sound`. -/
theorem Sound.settle (h : Sound g src s) (hne : s.heap ≠ #[]) : Sound g src (g.settle s) := by
  rcases hpop : Heap.pop entryLt s.heap with ⟨⟨k, p⟩, heap⟩
  unfold Grid.settle
  rw [hpop]
  dsimp only
  rw [show s.done.getD (g.index p) true = s.settled g p from rfl]
  cases hs : s.settled g p
  · rw [if_neg Bool.false_ne_true]
    have hst := (h.settling hpop hne hs).foldl_relax (g.adjacent p) fun _ hr => hr
    exact hst.sound fun r hr => by simpa using hr
  · rw [if_pos rfl]
    exact h.skip hpop hne hs

/-! ### The end of the search -/

/-- Once the heap is empty, every cell that steps from `src` reach is settled: by induction on
the steps, the next cell is a neighbour of a settled one, so it has a distance, and a cell with
a distance that is not settled would wait in the heap. -/
theorem Sound.settled_of_steps (h : Sound g src s) (hemp : s.heap = #[]) (hq : g.Steps src q n) :
    s.settled g q = true := by
  induction hq with
  | refl =>
    cases hs : s.settled g src
    · have hmem := h.waiting src 0 h.contains_src hs h.at_src
      simp [hemp] at hmem
    · rfl
  | @tail b c m hb hc ih =>
    have hbc : g.contains b := hb.contains h.contains_src
    obtain ⟨n, hn, -⟩ := h.settled_dist b hbc ih
    obtain ⟨i, -, hi⟩ := h.close b hbc ih n hn c hc
    cases hs : s.settled g c
    · have hmem := h.waiting c i (contains_of_mem_adjacent hc) hs hi
      simp [hemp] at hmem
    · rfl

theorem Sound.distOf_eq_fin_iff (h : Sound g src s) (hemp : s.heap = #[]) (hq : g.contains q) :
    s.distOf g q = .fin n ↔ g.IsDist src q n := by
  constructor
  · intro hd
    obtain ⟨m, hm, hdm⟩ := h.settled_dist q hq (h.settled_of_steps hemp (h.steps q n hq hd))
    rw [hd] at hm
    cases hm
    exact hdm
  · intro hd
    obtain ⟨m, hm, hdm⟩ := h.settled_dist q hq (h.settled_of_steps hemp hd.1)
    rw [hm, hdm.unique hd]

theorem Sound.distOf_eq_inf_iff (h : Sound g src s) (hemp : s.heap = #[]) (hq : g.contains q) :
    s.distOf g q = .inf ↔ ∀ n, ¬ g.Steps src q n := by
  constructor
  · intro hi n hs
    obtain ⟨m, hm, -⟩ := h.settled_dist q hq (h.settled_of_steps hemp hs)
    rw [hi] at hm
    cases hm
  · intro hno
    cases hd : s.distOf g q with
    | inf => rfl
    | fin j => exact absurd (h.steps q j hq hd) (hno j)

/-- **Run lemma.** From a sound state the search ends in a sound state with an empty heap,
whose distances it returns. -/
theorem Sound.sweep (h : Sound g src s) :
    ∃ s', Sound g src s' ∧ s'.heap = #[] ∧ g.sweep s = s'.dist := by
  fun_induction g.sweep s with
  | case1 s hemp => exact ⟨s, h, by simpa using hemp, rfl⟩
  | case2 s hne ih => exact ih (h.settle (by simpa using hne))

/-- **The search gives the distances.** A cell of the grid gets `n` from the search from a
cell `src` of the grid exactly when `n` is its distance from `src`. -/
theorem distances_eq_fin_iff (hsrc : g.contains src) (hq : g.contains q) (n : Nat) :
    (g.distances src).getD (g.index q) .inf = .fin n ↔ g.IsDist src q n := by
  obtain ⟨s, hs, hemp, he⟩ := (sound_start hsrc).sweep
  rw [distances, he]
  exact hs.distOf_eq_fin_iff hemp hq

/-- A cell of the grid gets `inf` exactly when no steps from `src` reach it. -/
theorem distances_eq_inf_iff (hsrc : g.contains src) (hq : g.contains q) :
    (g.distances src).getD (g.index q) .inf = .inf ↔ ∀ n, ¬ g.Steps src q n := by
  obtain ⟨s, hs, hemp, he⟩ := (sound_start hsrc).sweep
  rw [distances, he]
  exact hs.distOf_eq_inf_iff hemp hq

end Grid

end Lambdaman

end Interstellar
