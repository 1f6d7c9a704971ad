import Interstellar.Lambdaman.Search
import Interstellar.Proofs.Heap
import Interstellar.Proofs.Walk

/-!
# What the frontier holds

Which walk the best-first search returns depends on the order of its frontier; whether it
returns one at all depends only on which cells the frontier holds and on the marks. This module
follows both through the operations of `Frontier`, as permutations of the heap array:

* `push` adds its cell (`Frontier.perm_push`), `pop` returns a cell of the frontier and keeps
  the others (`Frontier.perm_pop`), as the heap's own operations do, and `remove` takes out one
  copy of a cell that is there (`Frontier.perm_remove`);
* none of them touches the marks, the grid or the goal; `setMark` changes the mark of one cell
  of the grid and of no other (`Frontier.mark_setMark`).
-/

namespace Interstellar

namespace Lambdaman

theorem Array.count_eq_of_perm {α : Type} [BEq α] {a b : Array α} (h : a.Perm b) (x : α) :
    a.count x = b.count x := by
  rw [← Array.count_toList, ← Array.count_toList]
  exact h.toList.count_eq x

namespace Frontier

variable {s : Frontier} {p : Cell}

/-! ### Push, pop and remove -/

@[simp] theorem push_grid : (s.push p).grid = s.grid := by simp [push]

@[simp] theorem push_goal : (s.push p).goal = s.goal := by simp [push]

@[simp] theorem push_marks : (s.push p).marks = s.marks := by simp [push]

@[simp] theorem mark_push (q : Cell) : (s.push p).mark q = s.mark q := by simp [mark]

theorem perm_push : (s.push p).heap.Perm (s.heap.push p) := Heap.perm_push

@[simp] theorem pop_grid : s.pop.2.grid = s.grid := rfl

@[simp] theorem pop_goal : s.pop.2.goal = s.goal := rfl

@[simp] theorem pop_marks : s.pop.2.marks = s.marks := rfl

@[simp] theorem mark_pop (q : Cell) : s.pop.2.mark q = s.mark q := by simp [mark]

/-- Popping a frontier that is not empty gives one of its cells, and the others stay. -/
theorem perm_pop (hne : s.heap ≠ #[]) :
    s.pop.1 ∈ s.heap ∧ (s.pop.2.heap.push s.pop.1).Perm s.heap :=
  Heap.perm_pop hne

@[simp] theorem remove_grid : (s.remove p).grid = s.grid := by
  unfold remove; split <;> rfl

@[simp] theorem remove_goal : (s.remove p).goal = s.goal := by
  unfold remove; split <;> rfl

@[simp] theorem remove_marks : (s.remove p).marks = s.marks := by
  unfold remove; split <;> rfl

@[simp] theorem mark_remove (q : Cell) : (s.remove p).mark q = s.mark q := by simp [mark]

/-- Removing a cell of the frontier takes out one copy of it. -/
theorem perm_remove (h : p ∈ s.heap) : ((s.remove p).heap.push p).Perm s.heap := by
  unfold remove
  split
  · rename_i i hi
    obtain ⟨hlt, hp, -⟩ := Array.findIdx?_eq_some_iff_getElem.1 hi
    have hpi : s.heap[i] = p := by simpa using hp
    have hperm := List.getElem_cons_eraseIdx_perm (l := s.heap.toList) (n := i) (by simpa using hlt)
    simp only [Array.eraseIdx!, dif_pos hlt, Array.perm_iff_toList_perm, Array.toList_push,
      Array.toList_eraseIdx]
    simp only [Array.getElem_toList, hpi] at hperm
    exact List.perm_append_comm.trans hperm
  · rename_i hn
    have := Array.findIdx?_eq_none_iff.1 hn p h
    simp at this

/-! ### Marks -/

@[simp] theorem setMark_grid (f : Mark → Mark) : (s.setMark p f).grid = s.grid := rfl

@[simp] theorem setMark_goal (f : Mark → Mark) : (s.setMark p f).goal = s.goal := rfl

@[simp] theorem setMark_heap (f : Mark → Mark) : (s.setMark p f).heap = s.heap := rfl

@[simp] theorem size_setMark (f : Mark → Mark) : (s.setMark p f).marks.size = s.marks.size :=
  Array.size_modify

/-- With one mark per cell of the grid, `setMark` changes the mark of its cell only. -/
theorem mark_setMark (hs : s.marks.size = s.grid.size) (hp : s.grid.contains p) {q : Cell}
    (hq : s.grid.contains q) (f : Mark → Mark) :
    (s.setMark p f).mark q = if q = p then f (s.mark p) else s.mark q := by
  have hi : s.grid.index p < s.marks.size := hs ▸ Grid.index_lt_size hp
  simp only [mark, setMark, Array.getD_eq_getD_getElem?, Array.getElem?_modify]
  by_cases h : q = p
  · subst h
    simp [hi]
  · have hne : s.grid.index p ≠ s.grid.index q := fun e => h (Grid.index_injOn hq hp e.symm)
    simp [h, hne]

end Frontier

end Lambdaman

end Interstellar
