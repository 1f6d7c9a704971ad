/-!
# Binary heaps in an array

A binary heap keeps its entries in an array, every entry at or after its parent, the entry at
place `(i - 1) / 2`, so that the least entry is at place `0`. Entries are compared by a strict
order given as a Boolean test `lt`. Which of several least entries comes out first depends on
where each entry stands, so the operations put the entries exactly where the standard array
heap puts them:

* `Heap.siftDown lt a start item pos`: `item`, meant for place `pos`, moves up past every
  parent it is strictly before, not above place `start`;
* `Heap.siftUp lt a start item pos`: `item`, meant for place `pos`, is carried down to a leaf,
  each time into the place of the lesser child (the right one unless the left is strictly
  before it), and from there moves up as in `siftDown`;
* `Heap.push`: the entry goes at the end and moves up;
* `Heap.pop`: the last entry is taken off and, unless the heap is then empty, put at the root in
  place of the entry there, which is returned, and moved down and back up.

The names of the two sifts are the traditional ones, in which `siftDown` moves an entry toward
the root.
-/

namespace Interstellar

namespace Heap

variable {α : Type} [Inhabited α] (lt : α → α → Bool)

/-- The entry at place `i`, or the default past the end. -/
def slot (a : Array α) (i : Nat) : α := a.getD i default

/-- Of the children from place `left` on, the one an entry moving down goes to: the right one
unless the left is strictly before it. -/
def lesserChild (a : Array α) (left : Nat) : Nat :=
  if left + 1 < a.size ∧ !lt (slot a left) (slot a (left + 1)) then left + 1 else left

theorem lesserChild_ge (a : Array α) (left : Nat) : left ≤ lesserChild lt a left := by
  unfold lesserChild
  split <;> omega

/-- Move `item`, meant for place `pos`, up past every parent strictly after it, not above
place `start`, and put it where it stops. -/
def siftDown (a : Array α) (start : Nat) (item : α) (pos : Nat) : Array α :=
  if start < pos then
    let parent := (pos - 1) / 2
    let p := slot a parent
    if lt item p then siftDown (a.set! pos p) start item parent
    else a.set! pos item
  else a.set! pos item
termination_by pos
decreasing_by omega

/-- Move `item`, meant for place `pos`, down to a leaf, each time into the place of the lesser
child, then back up from there, not above place `start`. -/
def siftUp (a : Array α) (start : Nat) (item : α) (pos : Nat) : Array α :=
  if _h : 2 * pos + 1 < a.size then
    let child := lesserChild lt a (2 * pos + 1)
    have : 2 * pos + 1 ≤ child := lesserChild_ge lt a (2 * pos + 1)
    siftUp (a.set! pos (slot a child)) start item child
  else siftDown lt a start item pos
termination_by a.size - pos
decreasing_by
  simp only [Array.size_set!]
  omega

/-- Put an entry into the heap. -/
def push (a : Array α) (x : α) : Array α :=
  let a := a.push x
  siftDown lt a 0 x (a.size - 1)

/-- Take the entry at the root out of a heap that is not empty. -/
def pop (a : Array α) : α × Array α :=
  let last := a.back?.getD default
  let a := a.pop
  if a.isEmpty then (last, a) else (slot a 0, siftUp lt a 0 last 0)

/-! ### Sizes

A sift only writes into places of the array, so every operation changes the number of entries
by exactly one; the searches that use a heap count on this to end. -/

@[simp] theorem size_siftDown (a : Array α) (start : Nat) (item : α) (pos : Nat) :
    (siftDown lt a start item pos).size = a.size := by
  fun_induction siftDown lt a start item pos <;> simp_all

@[simp] theorem size_siftUp (a : Array α) (start : Nat) (item : α) (pos : Nat) :
    (siftUp lt a start item pos).size = a.size := by
  fun_induction siftUp lt a start item pos <;> simp_all

@[simp] theorem size_push (a : Array α) (x : α) : (push lt a x).size = a.size + 1 := by
  simp [push]

theorem size_pop (a : Array α) : (pop lt a).2.size = a.size - 1 := by
  simp only [pop]
  split <;> simp

end Heap

end Interstellar
