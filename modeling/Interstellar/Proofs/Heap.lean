import Interstellar.Lambdaman.Heap
import Mathlib

/-!
# What a heap holds, and in what order

The operations of `Interstellar.Heap` move entries between places of an array. This module
follows what they keep:

* the entries, as permutations of the array: a sift writes the moving entry into the hole and
  keeps every other entry (`Heap.perm_siftDown`, `Heap.perm_siftUp`), `push` adds its entry
  (`Heap.perm_push`), and `pop` returns an entry of the heap and keeps the others
  (`Heap.perm_pop`);
* for a strict weak order (`Heap.Order`), the heap order, no entry strictly before its parent
  (`Heap.Ordered`): `push` and `pop` keep it (`Heap.ordered_push`, `Heap.ordered_pop`), and the
  entry `pop` returns is at or before every entry of the heap (`Heap.pop_least`).

The order is followed through the hole a sift moves. While an entry is carried down from the
root, every parent and child off the hole are in order and the hole's parent is at or before
the hole's children (`Heap.Sinking`); while the entry moves up, it is also at or before the
hole's children (`Heap.Rising`). One lemma moves the hole by one place, another puts the entry
into it.
-/

namespace Interstellar

/-- Writing the entry at `j` into place `i` and then `x` into place `j` keeps the same entries
as writing `x` into place `i`: the entry at `j` has only moved. -/
theorem Array.set_set_perm {α : Type} {a : Array α} {i j : Nat} (hi : i < a.size)
    (hj : j < a.size) (hij : i ≠ j) (x : α) :
    ((a.set! i a[j]).set! j x).Perm (a.set! i x) := by
  have hsz : j < (a.set i x hi).size := by simpa
  -- the two arrays differ by exchanging places `i` and `j`
  have h : (a.set! i a[j]).set! j x = (a.set i x hi).swap i j (by simpa) hsz := by
    ext k hk₁ hk₂
    · simp
    · simp only [Array.set!_eq_setIfInBounds, Array.getElem_swap, Array.getElem_set]
      grind
  rw [h, Array.set!_eq_setIfInBounds, Array.setIfInBounds_def, dif_pos hi]
  exact Array.swap_perm _ _

namespace Heap

variable {α : Type} [Inhabited α] {lt : α → α → Bool} {a : Array α} {start pos : Nat} {item x : α}

theorem slot_eq {i : Nat} (h : i < a.size) : slot a i = a[i] := by
  simp [slot, Array.getD_eq_getD_getElem?, h]

theorem slot_set!_self {i : Nat} (h : i < a.size) (v : α) : slot (a.set! i v) i = v := by
  simp [slot, Array.getD_eq_getD_getElem?, h]

theorem slot_set!_ne {i j : Nat} (h : j ≠ i) (v : α) : slot (a.set! i v) j = slot a j := by
  simp [slot, Array.getD_eq_getD_getElem?, Array.getElem?_setIfInBounds_ne (Ne.symm h)]

theorem slot_push_lt {i : Nat} (h : i < a.size) : slot (a.push x) i = slot a i := by
  simp [slot, Array.getD_eq_getD_getElem?, Array.getElem?_push_lt h, h]

theorem lesserChild_lt {left : Nat} (h : left < a.size) : lesserChild lt a left < a.size := by
  unfold lesserChild
  split <;> omega

/-! ### The entries -/

/-- Moving an entry up from place `pos` leaves the entries of the array with that entry
written at `pos`. -/
theorem perm_siftDown (hpos : pos < a.size) :
    (siftDown lt a start item pos).Perm (a.set! pos item) := by
  fun_induction siftDown lt a start item pos with
  | case1 a pos hlt parent p _ ih =>
    have hparent : parent < a.size := by omega
    refine (ih (by simpa using hparent)).trans ?_
    rw [show p = a[parent] from slot_eq hparent]
    exact Array.set_set_perm hpos hparent (by omega) item
  | case2 => exact .rfl
  | case3 => exact .rfl

/-- Moving an entry down from place `pos` and back up leaves the entries of the array with that
entry written at `pos`. -/
theorem perm_siftUp (hpos : pos < a.size) :
    (siftUp lt a start item pos).Perm (a.set! pos item) := by
  fun_induction siftUp lt a start item pos with
  | case1 a pos h child hle ih =>
    have hchild : child < a.size := lesserChild_lt h
    refine (ih (by simpa using hchild)).trans ?_
    rw [slot_eq hchild]
    exact Array.set_set_perm hpos hchild (by omega) item
  | case2 a pos => exact perm_siftDown hpos

theorem perm_push : (push lt a x).Perm (a.push x) := by
  have h : (siftDown lt (a.push x) 0 x a.size).Perm ((a.push x).set! a.size x) :=
    perm_siftDown (by simp)
  simpa [push, Array.set!_eq_setIfInBounds, Array.setIfInBounds_def, Array.set_push] using h

/-- Popping a heap that is not empty gives one of its entries, and the others stay. -/
theorem perm_pop (hne : a ≠ #[]) : (pop lt a).1 ∈ a ∧ ((pop lt a).2.push (pop lt a).1).Perm a := by
  obtain ⟨ys, last, rfl⟩ : ∃ (ys : Array α) (last : α), a = ys.push last := by
    obtain ⟨last, hl⟩ := Option.isSome_iff_exists.1 (Array.back?_isSome.2 hne)
    obtain ⟨ys, hys⟩ := Array.back?_eq_some_iff.1 hl
    exact ⟨ys, last, hys⟩
  by_cases h : ys = #[]
  · subst h
    simp [pop]
  · -- the root comes out, the last entry fills its place and moves down
    have h0 : 0 < ys.size := Array.size_pos_iff.2 h
    simp only [pop, Array.back?_push, Option.getD_some, Array.pop_push, Array.isEmpty_iff, h,
      if_false]
    rw [slot_eq h0]
    refine ⟨Array.mem_push_of_mem _ (Array.getElem_mem h0), ?_⟩
    refine ((perm_siftUp h0).push _).trans ?_
    have hswap : (ys.set! 0 last).push ys[0] =
        (ys.push last).swap 0 ys.size (by simp) (by simp) := by
      refine Array.ext (by simp) fun k hk₁ hk₂ => ?_
      simp only [Array.set!_eq_setIfInBounds, Array.getElem_swap, Array.getElem_push]
      grind
    rw [hswap]
    exact Array.swap_perm _ _

/-- An entry of a heap that does not come out of it stays in it. -/
theorem mem_pop_of_mem (hne : a ≠ #[]) {y : α} (hy : y ∈ a) (hne' : y ≠ (pop lt a).1) :
    y ∈ (pop lt a).2 := by
  have h := ((@perm_pop _ _ lt _ hne).2.mem_iff).2 hy
  rcases Array.mem_push.1 h with h | h
  · exact h
  · exact absurd h hne'

theorem mem_of_mem_pop (hne : a ≠ #[]) {y : α} (hy : y ∈ (pop lt a).2) : y ∈ a :=
  ((@perm_pop _ _ lt _ hne).2.mem_iff).1 (Array.mem_push_of_mem _ hy)

theorem mem_push_iff {y : α} : y ∈ push lt a x ↔ y ∈ a ∨ y = x := by
  rw [perm_push.mem_iff, Array.mem_push]

/-! ### The order -/

/-- What a heap needs of its order: a strict weak order, in which being at or after (not being
strictly before) is transitive as well. -/
structure Order (lt : α → α → Bool) : Prop where
  irrefl : ∀ x, lt x x = false
  trans : ∀ {x y z}, lt x y → lt y z → lt x z
  not_trans : ∀ {x y z}, lt x y = false → lt y z = false → lt x z = false

variable (o : Order lt)
include o

omit [Inhabited α] in
theorem Order.asymm {x y : α} (h : lt x y) : lt y x = false := by
  cases hyx : lt y x
  · rfl
  · simpa [o.irrefl] using o.trans h hyx

omit o

/-- No entry is strictly before its parent. -/
def Ordered (lt : α → α → Bool) (a : Array α) : Prop :=
  ∀ i, i < a.size → 0 < i → lt (slot a i) (slot a ((i - 1) / 2)) = false

/-- Every entry off the hole whose parent is off the hole too is at or after its parent. -/
def OrderedExcept (lt : α → α → Bool) (a : Array α) (hole : Nat) : Prop :=
  ∀ i, i < a.size → 0 < i → i ≠ hole → (i - 1) / 2 ≠ hole →
    lt (slot a i) (slot a ((i - 1) / 2)) = false

/-- The order while an entry is carried down: off the hole the array is in order, and the
hole's parent is at or before the hole's children. -/
structure Sinking (lt : α → α → Bool) (a : Array α) (hole : Nat) : Prop where
  except : OrderedExcept lt a hole
  grand : 0 < hole → ∀ c, c < a.size → 0 < c → (c - 1) / 2 = hole →
    lt (slot a c) (slot a ((hole - 1) / 2)) = false

/-- The order while `item` moves up: besides, `item` is at or before the hole's children. -/
structure Rising (lt : α → α → Bool) (a : Array α) (hole : Nat) (item : α) : Prop
    extends Sinking lt a hole where
  below : ∀ c, c < a.size → 0 < c → (c - 1) / 2 = hole → lt (slot a c) item = false

theorem Ordered.except {hole : Nat} (h : Ordered lt a) : OrderedExcept lt a hole :=
  fun i hi h0 _ _ => h i hi h0

/-- A leaf has no children, so nothing is asked of them. -/
theorem Sinking.rising {hole : Nat} (h : Sinking lt a hole) (hleaf : a.size ≤ 2 * hole + 1) :
    Rising lt a hole item :=
  { h with below := fun c hc h0 hp => by omega }

include o in
/-- The entry moves up past its parent, which takes its place: the hole moves to the parent. -/
theorem Rising.move {hole : Nat} (h : Rising lt a hole item) (hhole : hole < a.size)
    (h0 : 0 < hole) (hlt : lt item (slot a ((hole - 1) / 2))) :
    Rising lt (a.set! hole (slot a ((hole - 1) / 2))) ((hole - 1) / 2) item := by
  set par := (hole - 1) / 2 with hpar
  have hpl : par < hole := by omega
  refine { except := ?_, grand := ?_, below := ?_ }
  · intro i hi hi0 hip hqp
    simp only [Array.size_set!] at hi
    have hih : i ≠ hole := fun e => hqp (by rw [e])
    rw [slot_set!_ne hih]
    by_cases hq : (i - 1) / 2 = hole
    · -- a child of the hole: at or after the hole's parent, which now stands in the hole
      rw [hq, slot_set!_self hhole]
      exact h.grand h0 i hi hi0 hq
    · rw [slot_set!_ne hq]
      exact h.except i hi hi0 hih hq
  · intro hp0 c hc hc0 hcp
    simp only [Array.size_set!] at hc
    have hgp : (par - 1) / 2 ≠ hole := by omega
    rw [slot_set!_ne hgp]
    have hpar_gp : lt (slot a par) (slot a ((par - 1) / 2)) = false :=
      h.except par (by omega) hp0 (by omega) hgp
    by_cases hch : c = hole
    · rw [hch, slot_set!_self hhole]
      exact hpar_gp
    · -- the hole's sibling, at or after the parent, which is at or after the grandparent
      rw [slot_set!_ne hch]
      have hc_par := h.except c hc hc0 hch (by omega)
      rw [hcp] at hc_par
      exact o.not_trans hc_par hpar_gp
  · intro c hc hc0 hcp
    simp only [Array.size_set!] at hc
    by_cases hch : c = hole
    · rw [hch, slot_set!_self hhole]
      exact o.asymm hlt
    · rw [slot_set!_ne hch]
      have hcpar := h.except c hc hc0 hch (by omega)
      rw [hcp] at hcpar
      cases hci : lt (slot a c) item
      · rfl
      · simpa [hcpar] using o.trans hci hlt

/-- Putting the entry into the hole, where it is at or after its parent, restores the order. -/
theorem Rising.finish {hole : Nat} (h : Rising lt a hole item) (hhole : hole < a.size)
    (hstop : 0 < hole → lt item (slot a ((hole - 1) / 2)) = false) :
    Ordered lt (a.set! hole item) := by
  intro i hi hi0
  simp only [Array.size_set!] at hi
  by_cases hih : i = hole
  · subst hih
    rw [slot_set!_self hhole, slot_set!_ne (by omega)]
    exact hstop hi0
  · rw [slot_set!_ne hih]
    by_cases hq : (i - 1) / 2 = hole
    · rw [hq, slot_set!_self hhole]
      exact h.below i hi hi0 hq
    · rw [slot_set!_ne hq]
      exact h.except i hi hi0 hih hq

include o in
/-- Moving an entry up from a hole that keeps `Rising` ends in order. -/
theorem ordered_siftDown (h : Rising lt a pos item) (hpos : pos < a.size) :
    Ordered lt (siftDown lt a 0 item pos) := by
  fun_induction siftDown lt a 0 item pos with
  | case1 a pos h0 parent p hlt ih =>
    exact ih (h.move o hpos h0 hlt) (by simp; omega)
  | case2 a pos h0 parent p hlt =>
    exact h.finish hpos fun _ => by simpa using hlt
  | case3 a pos h0 =>
    exact h.finish hpos fun hp => absurd hp h0

include o in
/-- Of the two children from `2 * hole + 1` on, the lesser is at or before each. -/
theorem not_lt_lesserChild {hole c : Nat} (hc : c < a.size) (hc0 : 0 < c)
    (hcp : (c - 1) / 2 = hole) :
    lt (slot a c) (slot a (lesserChild lt a (2 * hole + 1))) = false := by
  unfold lesserChild
  split
  · rename_i hr
    rcases (by omega : c = 2 * hole + 1 ∨ c = 2 * hole + 2) with rfl | rfl
    · simpa using hr.2
    · exact o.irrefl _
  · rename_i hr
    rcases (by omega : c = 2 * hole + 1 ∨ c = 2 * hole + 2) with rfl | rfl
    · exact o.irrefl _
    · -- the left child is strictly before the right one
      have hl : lt (slot a (2 * hole + 1)) (slot a (2 * hole + 1 + 1)) := by
        simp only [not_and, Bool.not_eq_true', Bool.not_eq_false] at hr
        exact hr (by omega)
      exact o.asymm hl

include o in
/-- The lesser child moves up into the hole: the hole moves to that child. -/
theorem Sinking.move {hole : Nat} (h : Sinking lt a hole) (hc : 2 * hole + 1 < a.size) :
    Sinking lt (a.set! hole (slot a (lesserChild lt a (2 * hole + 1))))
      (lesserChild lt a (2 * hole + 1)) := by
  set c := lesserChild lt a (2 * hole + 1) with hcdef
  have hcge : 2 * hole + 1 ≤ c := lesserChild_ge lt a _
  have hclt : c < a.size := lesserChild_lt hc
  have hcle : c ≤ 2 * hole + 2 := by
    rw [hcdef]; unfold lesserChild; split <;> omega
  have hhole : hole < a.size := by omega
  refine { except := ?_, grand := ?_ }
  · intro i hi hi0 hic hqc
    simp only [Array.size_set!] at hi
    by_cases hih : i = hole
    · -- the child that moved up is at or after the hole's parent
      subst hih
      rw [slot_set!_self hhole, slot_set!_ne (by omega)]
      exact h.grand hi0 c hclt (by omega) (by omega)
    · rw [slot_set!_ne hih]
      by_cases hq : (i - 1) / 2 = hole
      · -- the sibling is at or after the lesser child
        rw [hq, slot_set!_self hhole]
        exact not_lt_lesserChild o hi hi0 hq
      · rw [slot_set!_ne hq]
        exact h.except i hi hi0 hih hq
  · intro _ d hd hd0 hdp
    simp only [Array.size_set!] at hd
    have hcp : (c - 1) / 2 = hole := by omega
    rw [hcp, slot_set!_self hhole, slot_set!_ne (by omega)]
    have hd_c := h.except d hd hd0 (by omega) (by omega)
    rwa [hdp] at hd_c

include o in
/-- Carrying an entry down from a hole that keeps `Sinking` and back up ends in order. -/
theorem ordered_siftUp (h : Sinking lt a pos) (hpos : pos < a.size) :
    Ordered lt (siftUp lt a 0 item pos) := by
  fun_induction siftUp lt a 0 item pos with
  | case1 a pos hc child hle ih =>
    exact ih (h.move o hc) (by simpa using lesserChild_lt hc)
  | case2 a pos hc =>
    exact ordered_siftDown o (h.rising (by omega)) hpos

include o in
theorem ordered_push (h : Ordered lt a) : Ordered lt (push lt a x) := by
  -- the new entry stands at the last place, a leaf
  have hr : Rising lt (a.push x) a.size x := by
    refine Sinking.rising ⟨fun i hi hi0 hih hq => ?_, fun _ c hc _ hcp => ?_⟩ (by simp; omega)
    · simp only [Array.size_push] at hi
      have hi' : i < a.size := by omega
      rw [slot_push_lt hi', slot_push_lt (by omega)]
      exact h i hi' hi0
    · simp only [Array.size_push] at hc
      omega
  have hlast : (a.push x).size - 1 = a.size := by simp
  simp only [push, hlast]
  exact ordered_siftDown o hr (by simp)

include o in
theorem ordered_pop (h : Ordered lt a) : Ordered lt (pop lt a).2 := by
  simp only [pop]
  split
  · rename_i he
    intro i hi
    simp only [Array.isEmpty_iff] at he
    simp [he] at hi
  · rename_i he
    have h0 : 0 < a.pop.size := by
      simp only [Array.isEmpty_iff] at he
      exact Array.size_pos_iff.2 he
    -- the array without its last entry is in order; the hole is at the root
    have hs : Sinking lt a.pop 0 := by
      refine ⟨fun i hi hi0 _ _ => ?_, fun h0 => absurd h0 (Nat.lt_irrefl 0)⟩
      have hslot : ∀ j, j < a.pop.size → slot a.pop j = slot a j := fun j hj => by
        rw [slot_eq hj, slot_eq (by simp at hj; omega), Array.getElem_pop]
      rw [hslot i hi, hslot _ (by omega)]
      exact h i (by simp at hi; omega) hi0
    exact ordered_siftUp o hs h0

include o in
/-- The root of an ordered heap is at or before every entry. -/
theorem Ordered.root_least (h : Ordered lt a) : ∀ i, i < a.size → lt (slot a i) (slot a 0) = false := by
  intro i
  induction i using Nat.strongRecOn with
  | ind i ih =>
    intro hi
    rcases Nat.eq_zero_or_pos i with rfl | hi0
    · exact o.irrefl _
    · exact o.not_trans (h i hi hi0) (ih _ (by omega) (by omega))

include o in
/-- **The least entry comes out.** The entry that `pop` returns from an ordered heap is at or
before every entry of the heap. -/
theorem pop_least (h : Ordered lt a) (hne : a ≠ #[]) {y : α} (hy : y ∈ a) :
    lt y (pop lt a).1 = false := by
  obtain ⟨i, hi, rfl⟩ := Array.mem_iff_getElem.1 hy
  simp only [pop]
  split
  · -- a single entry
    rename_i he
    have hsz : a.size = 1 := by
      simp only [Array.isEmpty_iff] at he
      have := congrArg Array.size he
      simp at this
      have := Array.size_pos_iff.2 hne
      omega
    obtain rfl : i = 0 := by omega
    have hb : a.back?.getD default = a[0] := by
      simp [Array.back?, hsz]
    rw [hb]
    exact o.irrefl _
  · rename_i he
    have h0 : 0 < a.pop.size := by
      simp only [Array.isEmpty_iff] at he
      exact Array.size_pos_iff.2 he
    rw [slot_eq h0, Array.getElem_pop, ← slot_eq hi, ← slot_eq (by omega)]
    exact h.root_least o i hi

end Heap

end Interstellar
