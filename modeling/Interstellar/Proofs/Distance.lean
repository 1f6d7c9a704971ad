import Interstellar.Proofs.Walk
import Mathlib.Logic.Relation

/-!
# Walks and distances on a grid

The cells of a grid are joined by steps between adjacent open cells. This module states what
the searches over a grid are measured against:

* `Grid.Joined g a b`: some steps lead from `a` to `b`; `Grid.Walk g a w b`: the cells `w` are a
  walk from `a` to `b`, each next to the one before;
* `Grid.Steps g a b n`: `b` is reached from `a` by `n` steps; `Grid.IsDist g a b n`: `n` is the
  fewest such steps, the distance from `a` to `b`; `Grid.steps_iff_walk`: `n` steps are a walk
  of `n + 1` cells;
* `Finder.Walks find g`: what a path finder promises on `g`, a walk from an open cell to every
  cell joined to it.
-/

namespace Interstellar

namespace Lambdaman

namespace Grid

/-- `b` is reached from `a` by exactly `n` steps, each onto an open neighbour. -/
inductive Steps (g : Grid) (a : Cell) : Cell → Nat → Prop
  | refl : Steps g a a 0
  | tail {b c : Cell} {n : Nat} : Steps g a b n → c ∈ g.adjacent b → Steps g a c (n + 1)

/-- `n` is the distance from `a` to `b`: `b` is reached in `n` steps and in no fewer. -/
def IsDist (g : Grid) (a b : Cell) (n : Nat) : Prop := g.Steps a b n ∧ ∀ m, g.Steps a b m → n ≤ m

variable {g : Grid} {a b c src p q : Cell} {k m n : Nat}

/-! ### Adjacent cells, joined cells and walks -/

theorem mem_adjacent : q ∈ g.adjacent p ↔ g.isOpen q ∧
    (0 < p.1 ∧ q = (p.1 - 1, p.2) ∨ q = (p.1 + 1, p.2) ∨ 0 < p.2 ∧ q = (p.1, p.2 - 1) ∨
      q = (p.1, p.2 + 1)) := by
  unfold adjacent
  by_cases h1 : p.1 = 0 <;> by_cases h2 : p.2 = 0 <;> simp [h1, h2, Nat.pos_iff_ne_zero] <;> tauto

theorem isOpen_of_mem_adjacent (h : q ∈ g.adjacent p) : g.isOpen q := (mem_adjacent.1 h).1

theorem contains_of_mem_adjacent (h : q ∈ g.adjacent p) : g.contains q :=
  contains_of_isOpen (isOpen_of_mem_adjacent h)

/-- Adjacency between open cells goes both ways. -/
theorem mem_adjacent_comm (h : q ∈ g.adjacent p) (hp : g.isOpen p) : p ∈ g.adjacent q := by
  obtain ⟨-, hq⟩ := mem_adjacent.1 h
  refine mem_adjacent.2 ⟨hp, ?_⟩
  obtain ⟨p1, p2⟩ := p
  rcases hq with ⟨h0, rfl⟩ | rfl | ⟨h0, rfl⟩ | rfl <;> simp <;> omega

/-- A neighbour of a cell is another cell. -/
theorem ne_of_mem_adjacent (h : q ∈ g.adjacent p) : q ≠ p := by
  obtain ⟨-, hq⟩ := mem_adjacent.1 h
  obtain ⟨r, c⟩ := p
  rintro rfl
  rcases hq with ⟨h0, he⟩ | he | ⟨h0, he⟩ | he <;> simp only [Prod.mk.injEq] at he <;> omega

theorem length_cells (g : Grid) : g.cells.length = g.size := by
  simp [cells, size, List.length_flatMap, Nat.mul_comm]

/-- Two cells joined by steps between adjacent open cells. -/
def Joined (g : Grid) : Cell → Cell → Prop := Relation.ReflTransGen fun a b => b ∈ g.adjacent a

theorem Joined.isOpen (ha : g.isOpen a) (h : g.Joined a b) : g.isOpen b := by
  induction h with
  | refl => exact ha
  | tail _ hbc _ => exact isOpen_of_mem_adjacent hbc

theorem Joined.symm (ha : g.isOpen a) (h : g.Joined a b) : g.Joined b a := by
  induction h with
  | refl => exact .refl
  | tail hab hbc ih => exact .head (mem_adjacent_comm hbc (Joined.isOpen ha hab)) ih

/-- `w` lists a walk on `g` from `a` to `b`: it starts at `a`, ends at `b`, and each of its cells
is next to the one before. -/
inductive Walk (g : Grid) : Cell → List Cell → Cell → Prop
  | single (a : Cell) : Walk g a [a] a
  | cons {a b c : Cell} {w : List Cell} : b ∈ g.adjacent a → Walk g b w c → Walk g a (a :: w) c

theorem Walk.snoc {w : List Cell} (h : g.Walk a w b) (hc : c ∈ g.adjacent b) :
    g.Walk a (w ++ [c]) c := by
  induction h with
  | single a => exact .cons hc (.single c)
  | cons hab _ ih => exact .cons hab (ih hc)


/-! ### Steps and distances -/

theorem Steps.trans (h₁ : g.Steps a b m) (h₂ : g.Steps b c n) : g.Steps a c (m + n) := by
  induction h₂ with
  | refl => exact h₁
  | tail _ hc ih => exact .tail ih hc

theorem Steps.head (hb : b ∈ g.adjacent a) (h : g.Steps b c n) : g.Steps a c (n + 1) := by
  rw [Nat.add_comm]
  exact Steps.trans (.tail .refl hb) h

/-- Steps can be cut after any number of them. -/
theorem Steps.split (h : g.Steps a c n) {i : Nat} (hi : i ≤ n) :
    ∃ b, g.Steps a b i ∧ g.Steps b c (n - i) := by
  induction h generalizing i with
  | refl =>
    obtain rfl := Nat.le_zero.1 hi
    exact ⟨a, .refl, .refl⟩
  | @tail b' c' n hb hc ih =>
    by_cases hin : i = n + 1
    · subst hin
      exact ⟨c', .tail hb hc, by rw [Nat.sub_self]; exact .refl⟩
    · obtain ⟨b, hab, hbc⟩ := ih (by omega : i ≤ n)
      exact ⟨b, hab, by rw [show n + 1 - i = n - i + 1 by omega]; exact .tail hbc hc⟩

theorem Steps.isOpen (ha : g.isOpen a) (h : g.Steps a b n) : g.isOpen b := by
  induction h with
  | refl => exact ha
  | tail _ hc _ => exact isOpen_of_mem_adjacent hc

theorem Steps.contains (ha : g.contains a) (h : g.Steps a b n) : g.contains b := by
  cases h with
  | refl => exact ha
  | tail _ hc => exact contains_of_mem_adjacent hc

theorem steps_zero_iff : g.Steps a b 0 ↔ b = a := by
  constructor
  · intro h
    cases h
    rfl
  · rintro rfl
    exact .refl

/-- Steps never leave a set of cells that holds every neighbour of its cells. -/
theorem Steps.mem_of_closed {S : List Cell} (hS : ∀ p ∈ S, ∀ q ∈ g.adjacent p, q ∈ S)
    (ha : a ∈ S) (h : g.Steps a b n) : b ∈ S := by
  induction h with
  | refl => exact ha
  | tail _ hc ih => exact hS _ ih _ hc

theorem Walk.length_pos {w : List Cell} (h : g.Walk a w b) : 0 < w.length := by
  cases h <;> simp

/-- A walk of `n + 1` cells is `n` steps. -/
theorem Walk.steps {w : List Cell} (h : g.Walk a w b) : g.Steps a b (w.length - 1) := by
  induction h with
  | single a => exact .refl
  | cons hb hw ih =>
    obtain ⟨n, hn⟩ := Nat.exists_eq_succ_of_ne_zero hw.length_pos.ne'
    rw [hn, Nat.succ_sub_one] at ih
    rw [List.length_cons, hn, Nat.add_sub_cancel]
    exact Steps.head hb ih

/-- `n` steps are a walk of `n + 1` cells. -/
theorem steps_iff_walk : g.Steps a b n ↔ ∃ w, g.Walk a w b ∧ w.length = n + 1 := by
  constructor
  · intro h
    induction h with
    | refl => exact ⟨[a], .single a, rfl⟩
    | tail _ hc ih =>
      obtain ⟨w, hw, hlen⟩ := ih
      exact ⟨w ++ [_], hw.snoc hc, by simp [hlen]⟩
  · rintro ⟨w, hw, hlen⟩
    simpa [hlen] using hw.steps

theorem IsDist.unique (h₁ : g.IsDist a b m) (h₂ : g.IsDist a b n) : m = n :=
  Nat.le_antisymm (h₁.2 n h₂.1) (h₂.2 m h₁.1)

/-- A cell reached at all has a distance, at most the steps that reach it. -/
theorem exists_isDist (h : g.Steps a b m) : ∃ n ≤ m, g.IsDist a b n := by
  induction m using Nat.strongRecOn with
  | ind m ih =>
    by_cases hless : ∃ m' < m, g.Steps a b m'
    · obtain ⟨m', hm', hs⟩ := hless
      obtain ⟨n, hn, hd⟩ := ih m' hm' hs
      exact ⟨n, by omega, hd⟩
    · exact ⟨m, le_rfl, h, fun m' hs => Nat.le_of_not_lt fun hlt => hless ⟨m', hlt, hs⟩⟩

theorem isDist_zero_iff : g.IsDist a b 0 ↔ b = a := by
  constructor
  · exact fun h => steps_zero_iff.1 h.1
  · rintro rfl
    exact ⟨.refl, fun _ _ => Nat.zero_le _⟩

/-- A neighbour is one step away. -/
theorem isDist_one (h : q ∈ g.adjacent p) : g.IsDist p q 1 := by
  refine ⟨.tail .refl h, fun m hm => Nat.pos_of_ne_zero fun h0 => ?_⟩
  subst h0
  exact ne_of_mem_adjacent h (steps_zero_iff.1 hm)

/-- Every distance below that of a cell is the distance of some cell: the cells a shortest
walk passes. -/
theorem IsDist.exists_of_le (h : g.IsDist a c n) {i : Nat} (hi : i ≤ n) :
    ∃ b, g.IsDist a b i := by
  obtain ⟨b, hab, hbc⟩ := h.1.split hi
  refine ⟨b, hab, fun m hm => ?_⟩
  have := h.2 _ (hm.trans hbc)
  omega

/-- The cells at distance `k + 1` are the neighbours of cells at distance `k` that are not
within `k` steps. -/
theorem isDist_succ_iff :
    g.IsDist a q (k + 1) ↔ (∃ p, g.IsDist a p k ∧ q ∈ g.adjacent p) ∧ ∀ j ≤ k, ¬ g.IsDist a q j := by
  constructor
  · intro h
    refine ⟨?_, fun j hj hd => by have := hd.unique h; omega⟩
    obtain ⟨p, hp, hpq⟩ := h.1.split (Nat.le_succ k)
    rw [Nat.add_sub_cancel_left] at hpq
    cases hpq with
    | tail hpp hq =>
      rw [steps_zero_iff.1 hpp] at hq
      -- a shorter way to `p` would be a shorter way to `q`
      exact ⟨p, ⟨hp, fun m hm => by have := h.2 _ (.tail hm hq); omega⟩, hq⟩
  · rintro ⟨⟨p, hp, hq⟩, hnot⟩
    refine ⟨.tail hp.1 hq, fun m hm => Nat.le_of_not_lt fun hlt => ?_⟩
    obtain ⟨j, hj, hd⟩ := exists_isDist hm
    exact hnot j (by omega) hd

end Grid

/-- What a path finder promises on the grid `g`: from an open cell to every cell joined to it,
it gives a walk, which starts at the first cell, ends at the second and steps between adjacent
open cells. -/
def Finder.Walks (find : Finder) (g : Grid) : Prop :=
  ∀ a b, g.isOpen a → g.Joined a b → ∃ w, find g a b = some w ∧ g.Walk a w b

end Lambdaman

end Interstellar
