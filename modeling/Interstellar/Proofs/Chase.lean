import Interstellar.Spaceship.Ship
import Mathlib

/-!
# Chasing one target

The autopilot steers each axis on its own: it compares the target with the position the ship
would reach after one more turn at its speed, and accelerates by one toward the target unless
the ship already moves at speed two that way. Seen from the ship, an axis is a `Track`: how far
the target lies ahead (`gap`) and the speed. A turn of the autopilot toward a fixed target is
`Chase.step`, the two tracks stepped side by side.

* `Track.aimed_step`: after a turn, an axis at full speed never has its target behind it;
* `Track.abs_gap_step_step_step_le`: three turns never leave an axis farther from its target
  than it was, and they leave it exactly as far only when it was on the target and stayed, or
  when the first turn took it farther;
* `Chase.rank`: the largest of the next three squared distances to the target, weighted so
  that a later turn counts for a little more;
* `Chase.rank_step_lt`: every turn that does not land on the target lowers the rank.

Reflecting an axis or exchanging the two axes changes nothing that is measured
(`Chase.rank_flipX`, `Chase.rank_swap`).
-/

namespace Interstellar

namespace Spaceship

/-! ### One axis -/

/-- One axis of a chase: how far the target lies ahead (target minus position) and the speed
along the axis. -/
@[ext]
structure Track where
  gap : ℤ
  vel : ℤ
  deriving DecidableEq, Repr

namespace Track

/-- One turn of the autopilot on this axis: the keypad column the ship steers by sets the new
speed, and the ship moves by it. -/
def step (t : Track) : Track :=
  let v := t.vel + Ship.axisChoice t.gap t.vel t.vel - 1
  ⟨t.gap - v, v⟩

/-- A speed the autopilot can hold: at most two either way. -/
def Bounded (t : Track) : Prop := -2 ≤ t.vel ∧ t.vel ≤ 2

/-- At full speed the target is not behind. -/
def Aimed (t : Track) : Prop := (t.vel = 2 → 0 ≤ t.gap) ∧ (t.vel = -2 → t.gap ≤ 0)

/-- Moving at full speed away from the target, or through it: the next turn can only brake. -/
def Overshoots (t : Track) : Prop := (t.vel = 2 ∧ t.gap ≤ 0) ∨ (t.vel = -2 ∧ 0 ≤ t.gap)

/-- Moving at speed one away from the target. -/
def Retreats (t : Track) : Prop := (t.vel = 1 ∧ t.gap < 0) ∨ (t.vel = -1 ∧ 0 < t.gap)

/-- The same axis seen in a mirror. -/
def neg (t : Track) : Track := ⟨-t.gap, -t.vel⟩

variable {t : Track}

/-- The new speed, case by case. -/
theorem step_vel (t : Track) :
    t.step.vel = if t.gap < t.vel ∧ t.vel > -2 then t.vel - 1
      else if t.gap > t.vel ∧ t.vel < 2 then t.vel + 1 else t.vel := by
  simp only [step, Ship.axisChoice]
  split_ifs <;> omega

@[simp] theorem step_gap (t : Track) : t.step.gap = t.gap - t.step.vel := rfl

/-- Short of the drift, and not at full speed backward, the turn brakes. -/
theorem step_of_lt (h : t.gap < t.vel) (hv : -2 < t.vel) :
    t.step = ⟨t.gap - t.vel + 1, t.vel - 1⟩ := by
  have h1 := step_vel t
  rw [if_pos ⟨h, hv⟩] at h1
  ext
  · rw [step_gap, h1]
    ring
  · exact h1

theorem Bounded.step (h : t.Bounded) : t.step.Bounded := by
  unfold Bounded at *
  rw [step_vel]
  split_ifs <;> omega

theorem aimed_step (h : t.Bounded) : t.step.Aimed := by
  unfold Bounded Aimed at *
  simp only [step_gap, step_vel]
  split_ifs <;> omega

@[simp] theorem neg_gap (t : Track) : t.neg.gap = -t.gap := rfl

@[simp] theorem neg_vel (t : Track) : t.neg.vel = -t.vel := rfl

theorem neg_step (t : Track) : t.neg.step = t.step.neg := by
  have hv : t.neg.step.vel = -t.step.vel := by
    rw [step_vel, step_vel, neg_gap, neg_vel]
    split_ifs <;> omega
  ext
  · rw [step_gap, neg_gap, neg_gap, step_gap, hv]
    ring
  · rw [hv, neg_vel]

@[simp] theorem neg_neg (t : Track) : t.neg.neg = t := by simp [neg]

theorem bounded_neg : t.neg.Bounded ↔ t.Bounded := by
  simp only [Bounded, neg_vel]
  omega

theorem aimed_neg : t.neg.Aimed ↔ t.Aimed := by
  simp only [Aimed, neg_vel, neg_gap]
  omega

theorem overshoots_neg : t.neg.Overshoots ↔ t.Overshoots := by
  simp only [Overshoots, neg_vel, neg_gap]
  omega

/-- Three turns never leave an axis farther from its target; they leave it exactly as far only
when it sat on the target, or when the first turn took it farther. -/
theorem abs_gap_step_step_step_le (h : t.Bounded) :
    |t.step.step.step.gap| ≤ |t.gap| ∧
      (|t.step.step.step.gap| = |t.gap| →
        (t.gap = 0 ∧ t.step.gap = 0) ∨ |t.gap| < |t.step.gap|) := by
  -- the mirror image of an axis behaves the same, so let the target lie ahead
  wlog hg : 0 ≤ t.gap generalizing t
  · have := this (bounded_neg.2 h) (by simp only [neg_gap]; omega)
    simpa only [neg_step, neg_gap, abs_neg, neg_eq_zero] using this
  unfold Bounded at h
  have h1 := step_vel t
  have h2 := step_vel t.step
  have h3 := step_vel t.step.step
  simp only [step_gap] at *
  rw [abs_of_nonneg hg]
  split_ifs at h1 h2 h3 <;> constructor <;> (try intro) <;>
    simp only [abs_eq_max_neg, max_def] at * <;> split_ifs at * <;> omega

/-- At full speed through or away from the target, the next two turns brake and leave the axis
one farther from the target. -/
theorem abs_gap_of_overshoots (h : t.Overshoots) :
    |t.step.gap| = |t.gap| + 1 ∧ |t.step.step.gap| = |t.gap| + 1 := by
  wlog hv : t.vel = 2 generalizing t
  · have hv' : t.vel = -2 := by
      unfold Overshoots at h
      omega
    simpa only [neg_step, neg_gap, abs_neg] using this (overshoots_neg.2 h) (by simp [hv'])
  have hg : t.gap ≤ 0 := by
    unfold Overshoots at h
    omega
  -- moving right at two with the target behind: brake to one, then to rest
  have s₁ : t.step = ⟨t.gap - 1, 1⟩ := by
    rw [step_of_lt (by omega) (by omega)]
    ext <;> dsimp only <;> omega
  have s₂ : t.step.step = ⟨t.gap - 1, 0⟩ := by
    rw [s₁, step_of_lt (by dsimp only; omega) (by dsimp only; omega)]
    ext <;> dsimp only <;> omega
  rw [s₂, s₁]
  dsimp only
  rw [abs_of_nonpos hg, abs_of_nonpos (by omega : t.gap - 1 ≤ 0)]
  omega

section Steady

variable (hb : t.Bounded) (ho : ¬t.Overshoots)
include hb ho

/-- Otherwise a turn never takes the axis farther from its target. -/
theorem abs_step_gap_le : |t.step.gap| ≤ |t.gap| := by
  unfold Bounded Overshoots at *
  have h1 := step_vel t
  simp only [step_gap] at *
  split_ifs at h1 <;> simp only [abs_eq_max_neg, max_def] <;> split_ifs <;> omega

/-- ... and two turns bring it strictly nearer, unless it sits on the target. -/
theorem abs_step_step_gap_lt (h0 : t.gap ≠ 0) : |t.step.step.gap| < |t.gap| := by
  unfold Bounded Overshoots at *
  have h1 := step_vel t
  have h2 := step_vel t.step
  simp only [step_gap] at *
  split_ifs at h1 h2 <;> simp only [abs_eq_max_neg, max_def] <;> split_ifs <;> omega

theorem abs_step_step_gap_le : |t.step.step.gap| ≤ |t.gap| := by
  by_cases h0 : t.gap = 0
  · unfold Bounded Overshoots at *
    have h1 := step_vel t
    have h2 := step_vel t.step
    simp only [step_gap] at *
    split_ifs at h1 h2 <;> simp only [abs_eq_max_neg, max_def] <;> split_ifs <;> omega
  · exact (abs_step_step_gap_lt hb ho h0).le

end Steady

/-- A turn keeps the axis exactly as far from its target only on the target or moving away at
speed one. -/
theorem gap_eq_zero_or_retreats (hb : t.Bounded) (he : |t.step.gap| = |t.gap|) :
    t.gap = 0 ∨ t.Retreats := by
  unfold Bounded Retreats at *
  have h1 := step_vel t
  simp only [step_gap] at *
  split_ifs at h1 <;> simp only [abs_eq_max_neg, max_def] at he <;> split_ifs at he <;> omega

/-- Aimed, an axis that moves away from its target does so at speed one, and the next turn only
brakes: it stays exactly as far. -/
theorem abs_step_gap_of_away (hb : t.Bounded) (ha : t.Aimed) (h : t.vel * t.gap < 0) :
    |t.step.gap| = |t.gap| ∧ t.vel * t.gap = -|t.gap| := by
  unfold Bounded Aimed at *
  have h1 := step_vel t
  simp only [step_gap] at *
  have hv : t.vel = -2 ∨ t.vel = -1 ∨ t.vel = 0 ∨ t.vel = 1 ∨ t.vel = 2 := by omega
  rcases hv with hv | hv | hv | hv | hv <;> rw [hv] at h h1 ha ⊢ <;>
    split_ifs at h1 <;> simp only [abs_eq_max_neg, max_def] <;> split_ifs <;> omega

/-- On the target, or moving away from it at speed one, the speed times the gap is minus the
distance. -/
theorem vel_mul_gap_of_retreats (h : t.gap = 0 ∨ t.Retreats) : t.vel * t.gap = -|t.gap| := by
  unfold Retreats at h
  rcases h with h | ⟨hv, hg⟩ | ⟨hv, hg⟩
  · simp [h]
  · rw [hv, abs_of_neg hg]
    ring
  · rw [hv, abs_of_pos hg]
    ring

/-- Speed one toward positive, where the target lies: behind, the ship only brakes; at or just
ahead, it lands and stays; two ahead, it lands and overshoots by one; farther, it closes in by
two at least. -/
theorem step_of_vel_one (h : t.vel = 1) :
    (t.gap ≤ -1 → t.step.gap = t.gap ∧ t.step.step.gap = t.gap + 1) ∧
      (0 ≤ t.gap → t.gap ≤ 1 → t.step.gap = 0 ∧ t.step.step.gap = 0) ∧
      (t.gap = 2 → t.step.gap = 0 ∧ t.step.step.gap = -1) ∧
      (3 ≤ t.gap → |t.step.gap| ≤ t.gap - 2 ∧ |t.step.step.gap| ≤ t.gap - 2) := by
  have h1 := step_vel t
  have h2 := step_vel t.step
  simp only [step_gap] at *
  rw [h] at h1
  split_ifs at h1 h2 <;> simp only [abs_eq_max_neg, max_def] <;> split_ifs <;> omega

end Track

/-! ### Both axes -/

/-- A ship chasing one target: its two axes. -/
@[ext]
structure Chase where
  x : Track
  y : Track
  deriving DecidableEq, Repr

namespace Chase

/-- One turn of the autopilot toward the target. -/
def step (c : Chase) : Chase := ⟨c.x.step, c.y.step⟩

/-- The squared distance to the target. -/
def dist (c : Chase) : ℤ := c.x.gap ^ 2 + c.y.gap ^ 2

/-- The squared distance to the target from where the ship was a turn ago, had it moved at its
present speed. -/
def backDist (c : Chase) : ℤ := (c.x.gap + c.x.vel) ^ 2 + (c.y.gap + c.y.vel) ^ 2

/-- The rank of a chase: the largest of the next three squared distances, the later ones
weighted up by one third, so that among equal distances the latest counts. -/
def rank (c : Chase) : ℤ := max (3 * c.dist) (max (3 * c.step.dist + 1) (3 * c.step.step.dist + 2))

def Bounded (c : Chase) : Prop := c.x.Bounded ∧ c.y.Bounded

def Aimed (c : Chase) : Prop := c.x.Aimed ∧ c.y.Aimed

/-- On the target. -/
def Landed (c : Chase) : Prop := c.x.gap = 0 ∧ c.y.gap = 0

/-- Mirror the first axis. -/
def flipX (c : Chase) : Chase := ⟨c.x.neg, c.y⟩

/-- Mirror the second axis. -/
def flipY (c : Chase) : Chase := ⟨c.x, c.y.neg⟩

/-- Exchange the axes. -/
def swap (c : Chase) : Chase := ⟨c.y, c.x⟩

variable {c : Chase}

@[simp] theorem step_x (c : Chase) : c.step.x = c.x.step := rfl

@[simp] theorem step_y (c : Chase) : c.step.y = c.y.step := rfl

theorem Bounded.step (h : c.Bounded) : c.step.Bounded := ⟨h.1.step, h.2.step⟩

theorem aimed_step (h : c.Bounded) : c.step.Aimed := ⟨Track.aimed_step h.1, Track.aimed_step h.2⟩

theorem rank_nonneg (c : Chase) : 0 ≤ c.rank :=
  le_max_of_le_left (by unfold dist; positivity)

theorem dist_le_rank (c : Chase) : 3 * c.dist ≤ c.rank := le_max_left _ _

theorem dist_step_le_rank (c : Chase) : 3 * c.step.dist + 1 ≤ c.rank :=
  le_max_of_le_right (le_max_left _ _)

theorem dist_step_step_le_rank (c : Chase) : 3 * c.step.step.dist + 2 ≤ c.rank :=
  le_max_of_le_right (le_max_right _ _)

theorem rank_le_iff {r : ℤ} :
    c.rank ≤ r ↔ 3 * c.dist ≤ r ∧ 3 * c.step.dist + 1 ≤ r ∧ 3 * c.step.step.dist + 2 ≤ r := by
  simp only [rank, max_le_iff]

/-- A turn that does not land on the target lowers the rank. -/
theorem rank_step_lt (hb : c.Bounded) (hl : ¬c.step.Landed) : c.step.rank < c.rank := by
  obtain ⟨hx, hx'⟩ := Track.abs_gap_step_step_step_le hb.1
  obtain ⟨hy, hy'⟩ := Track.abs_gap_step_step_step_le hb.2
  -- the third distance ahead is never beyond the present one
  have h3 : c.step.step.step.dist ≤ c.dist := by
    simp only [dist, step_x, step_y]
    exact add_le_add (sq_le_sq.2 hx) (sq_le_sq.2 hy)
  have hr1 := dist_step_le_rank c
  have hr2 := dist_step_step_le_rank c
  unfold rank
  refine max_lt (by omega) (max_lt (by omega) ?_)
  rcases h3.lt_or_eq with h3 | h3
  · have := dist_le_rank c
    omega
  -- as far as now: some axis moved away on the first turn, so the next distance is larger
  have ex : |c.x.step.step.step.gap| = |c.x.gap| := by
    refine le_antisymm hx (sq_le_sq.1 ?_)
    simp only [dist, step_x, step_y] at h3
    linarith [sq_le_sq.2 hy]
  have ey : |c.y.step.step.step.gap| = |c.y.gap| := by
    refine le_antisymm hy (sq_le_sq.1 ?_)
    simp only [dist, step_x, step_y] at h3
    linarith [sq_le_sq.2 hx]
  have hlt : c.dist < c.step.dist := by
    simp only [dist, step_x, step_y]
    rcases hx' ex with ⟨hx0, hx1⟩ | hx1 <;> rcases hy' ey with ⟨hy0, hy1⟩ | hy1
    · exact absurd ⟨hx1, hy1⟩ hl
    · rw [hx0, hx1]
      linarith [sq_lt_sq.2 hy1]
    · rw [hy0, hy1]
      linarith [sq_lt_sq.2 hx1]
    · linarith [sq_lt_sq.2 hx1, sq_lt_sq.2 hy1]
  omega

/-! ### Symmetries -/

@[simp] theorem flipX_x (c : Chase) : c.flipX.x = c.x.neg := rfl

@[simp] theorem flipX_y (c : Chase) : c.flipX.y = c.y := rfl

@[simp] theorem flipY_x (c : Chase) : c.flipY.x = c.x := rfl

@[simp] theorem flipY_y (c : Chase) : c.flipY.y = c.y.neg := rfl

@[simp] theorem swap_x (c : Chase) : c.swap.x = c.y := rfl

@[simp] theorem swap_y (c : Chase) : c.swap.y = c.x := rfl

@[simp] theorem flipX_flipX (c : Chase) : c.flipX.flipX = c := by simp [flipX]

@[simp] theorem flipY_flipY (c : Chase) : c.flipY.flipY = c := by simp [flipY]

@[simp] theorem swap_swap (c : Chase) : c.swap.swap = c := rfl

@[simp] theorem landed_flipX : c.flipX.Landed ↔ c.Landed := by simp [Landed]

@[simp] theorem landed_flipY : c.flipY.Landed ↔ c.Landed := by simp [Landed]

@[simp] theorem landed_swap : c.swap.Landed ↔ c.Landed := by simp [Landed, and_comm]

@[simp] theorem bounded_flipX : c.flipX.Bounded ↔ c.Bounded := by simp [Bounded, Track.bounded_neg]

@[simp] theorem bounded_flipY : c.flipY.Bounded ↔ c.Bounded := by simp [Bounded, Track.bounded_neg]

@[simp] theorem bounded_swap : c.swap.Bounded ↔ c.Bounded := by simp [Bounded, and_comm]

@[simp] theorem aimed_flipX : c.flipX.Aimed ↔ c.Aimed := by simp [Aimed, Track.aimed_neg]

@[simp] theorem aimed_flipY : c.flipY.Aimed ↔ c.Aimed := by simp [Aimed, Track.aimed_neg]

@[simp] theorem aimed_swap : c.swap.Aimed ↔ c.Aimed := by simp [Aimed, and_comm]

@[simp] theorem flipX_step (c : Chase) : c.flipX.step = c.step.flipX := by
  simp [flipX, step, Track.neg_step]

@[simp] theorem flipY_step (c : Chase) : c.flipY.step = c.step.flipY := by
  simp [flipY, step, Track.neg_step]

@[simp] theorem swap_step (c : Chase) : c.swap.step = c.step.swap := rfl

@[simp] theorem dist_flipX (c : Chase) : c.flipX.dist = c.dist := by simp [flipX, dist]

@[simp] theorem dist_flipY (c : Chase) : c.flipY.dist = c.dist := by simp [flipY, dist]

@[simp] theorem dist_swap (c : Chase) : c.swap.dist = c.dist := by simp [swap, dist, add_comm]

@[simp] theorem backDist_flipX (c : Chase) : c.flipX.backDist = c.backDist := by
  simp only [flipX, backDist, Track.neg_gap, Track.neg_vel]
  ring

@[simp] theorem backDist_flipY (c : Chase) : c.flipY.backDist = c.backDist := by
  simp only [flipY, backDist, Track.neg_gap, Track.neg_vel]
  ring

@[simp] theorem backDist_swap (c : Chase) : c.swap.backDist = c.backDist := by
  simp [swap, backDist, add_comm]

@[simp] theorem rank_flipX (c : Chase) : c.flipX.rank = c.rank := by simp [rank]

@[simp] theorem rank_flipY (c : Chase) : c.flipY.rank = c.rank := by simp [rank]

@[simp] theorem rank_swap (c : Chase) : c.swap.rank = c.rank := by simp [rank]

end Chase

end Spaceship

end Interstellar
