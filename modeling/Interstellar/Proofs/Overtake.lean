import Interstellar.Proofs.Chase

/-!
# A nearer target never ranks higher

The autopilot chases whichever pending target is nearest. When, after a turn toward one target,
another has become the nearest, the chase goes on toward that one from the same position and
speed. `Chase.Overtakes a b` says this happened: `a` is the chase of the old target after the
turn, `b` the chase of the new one; the old one was nearest a turn ago, the new one is nearest
now (`Chase.backDist`, `Chase.dist`).

* `Chase.Overtakes.rank_le`: then `b` ranks no higher than `a`, except in eight positions, one
  up to the symmetries of the square (`Chase.ties`), where it ranks exactly one higher;
* `Chase.rank_of_mem_ties`, `Chase.lead_of_mem_ties`, `Chase.sign_vel_of_step_mem_ties`: in
  those positions the new target lies farther along the direction of travel than the old one,
  and the turn before did not change that direction.

The proof splits on the new target. If no axis of `b` moves at full speed away from it, the
next distances to it never exceed the present one, which is at most the distance to the old
target. If one does, the symmetries bring it to the first axis moving right at speed two; the
old target is then at or ahead of the ship on that axis, and for the new one to have become
nearer by that turn the ship must be moving away from the old one on the second axis at speed
one (`Chase.Overtakes.rank_le_of_canonical`).
-/

namespace Interstellar

namespace Spaceship

namespace Chase

/-- The new target `b` is at least as near as the old one `a`, which was the nearest a turn ago,
and the two chases share the ship's speed. Targets at the same distance are taken in course
order, so the two comparisons are not both ties. -/
structure Overtakes (a b : Chase) : Prop where
  vel_x : b.x.vel = a.x.vel
  vel_y : b.y.vel = a.y.vel
  bounded : a.Bounded
  aimed : a.Aimed
  off_a : ¬a.Landed
  off_b : ¬b.Landed
  ne : a.x.gap ≠ b.x.gap ∨ a.y.gap ≠ b.y.gap
  back : a.backDist ≤ b.backDist
  now : b.dist ≤ a.dist
  strict : a.backDist < b.backDist ∨ b.dist < a.dist

variable {a b : Chase}

theorem Overtakes.bounded_b (h : a.Overtakes b) : b.Bounded := by
  have := h.bounded
  simp only [Bounded, Track.Bounded, h.vel_x, h.vel_y] at *
  exact this

/-- If no axis of the new chase overshoots, the next distances to the new target never exceed
the present one. -/
theorem Overtakes.rank_le_of_steady (h : a.Overtakes b) (hx : ¬b.x.Overshoots)
    (hy : ¬b.y.Overshoots) : b.rank ≤ a.rank := by
  have hb := h.bounded_b
  have ex := Track.abs_step_gap_le hb.1 hx
  have ey := Track.abs_step_gap_le hb.2 hy
  have e2x := Track.abs_step_step_gap_le hb.1 hx
  have e2y := Track.abs_step_step_gap_le hb.2 hy
  have h1 : b.step.dist ≤ b.dist := add_le_add (sq_le_sq.2 ex) (sq_le_sq.2 ey)
  -- two turns bring the ship strictly nearer the new target, which it is not on
  have h2 : b.step.step.dist < b.dist := by
    simp only [dist, step_x, step_y]
    by_cases h0 : b.x.gap = 0
    · have hy0 : b.y.gap ≠ 0 := fun hy0 => h.off_b ⟨h0, hy0⟩
      exact add_lt_add_of_le_of_lt (sq_le_sq.2 e2x)
        (sq_lt_sq.2 (Track.abs_step_step_gap_lt hb.2 hy hy0))
    · exact add_lt_add_of_lt_of_le (sq_lt_sq.2 (Track.abs_step_step_gap_lt hb.1 hx h0))
        (sq_le_sq.2 e2y)
  have hn := h.now
  have r0 := dist_le_rank a
  refine rank_le_iff.2 ⟨by omega, ?_, by omega⟩
  rcases (h1.trans hn).lt_or_eq with h1' | h1'
  · omega
  -- the first turn keeps the new target exactly as far, so the ship moves away from it or sits
  -- on it on each axis; the old target then lies farther back, and the turn toward it cannot
  -- have brought the ship nearer
  suffices a.dist ≤ a.step.dist by have := dist_step_le_rank a; omega
  have hbb : b.step.dist = b.dist := by omega
  have hba : b.dist = a.dist := by omega
  simp only [dist, step_x, step_y] at hbb
  have sx : |b.x.step.gap| = |b.x.gap| :=
    le_antisymm ex (sq_le_sq.1 (by linarith [sq_le_sq.2 ey]))
  have sy : |b.y.step.gap| = |b.y.gap| :=
    le_antisymm ey (sq_le_sq.1 (by linarith [sq_le_sq.2 ex]))
  have qx := Track.vel_mul_gap_of_retreats (Track.gap_eq_zero_or_retreats hb.1 sx)
  have qy := Track.vel_mul_gap_of_retreats (Track.gap_eq_zero_or_retreats hb.2 sy)
  have hback : a.backDist < b.backDist := h.strict.resolve_right (by omega)
  -- the turn moved the ship along its speed farther toward the new target than the old one
  have hdot : a.x.vel * a.x.gap + a.y.vel * a.y.gap + |b.x.gap| + |b.y.gap| < 0 := by
    simp only [backDist, dist] at hback hba
    rw [h.vel_x] at qx hback
    rw [h.vel_y] at qy hback
    linarith
  have hqx := abs_nonneg b.x.gap
  have hqy := abs_nonneg b.y.gap
  have ha := h.bounded
  simp only [dist] at hba
  -- an axis on which the ship got nearer the old target is not one it moves away on; on the
  -- other it then moves away, at speed one, by more than the new target is far
  have toward : ∀ t : Track, t.Bounded → t.Aimed → t.step.gap ^ 2 < t.gap ^ 2 →
      0 ≤ t.vel * t.gap := fun t tb ta ht => by
    by_contra hneg
    have := (Track.abs_step_gap_of_away tb ta (lt_of_not_ge hneg)).1
    rw [← sq_eq_sq_iff_abs_eq_abs] at this
    exact absurd this (ne_of_lt ht)
  have far : ∀ g : ℤ, |b.x.gap| + |b.y.gap| < |g| → b.x.gap ^ 2 + b.y.gap ^ 2 < g ^ 2 :=
    fun g hg => by
      have := pow_lt_pow_left₀ hg (by positivity) two_ne_zero
      linarith [sq_abs b.x.gap, sq_abs b.y.gap, sq_abs g, mul_nonneg hqx hqy]
  by_contra hlt
  have hlt' : a.step.dist < a.dist := lt_of_not_ge hlt
  simp only [dist, step_x, step_y] at hlt'
  rcases lt_or_ge (a.x.step.gap ^ 2) (a.x.gap ^ 2) with hx' | hx'
  · have tx := toward a.x ha.1 h.aimed.1 hx'
    obtain ⟨-, hy'⟩ := Track.abs_step_gap_of_away ha.2 h.aimed.2 (by linarith)
    have := far a.y.gap (by linarith)
    linarith [sq_nonneg a.x.gap]
  · have ty := toward a.y ha.2 h.aimed.2 (by linarith)
    obtain ⟨-, hx''⟩ := Track.abs_step_gap_of_away ha.1 h.aimed.1 (by linarith)
    have := far a.x.gap (by linarith)
    linarith [sq_nonneg a.y.gap]

/-! ### Symmetries -/

theorem Overtakes.flipX (h : a.Overtakes b) : a.flipX.Overtakes b.flipX where
  vel_x := by simp [h.vel_x]
  vel_y := h.vel_y
  bounded := bounded_flipX.2 h.bounded
  aimed := aimed_flipX.2 h.aimed
  off_a := by simpa using h.off_a
  off_b := by simpa using h.off_b
  ne := by simpa using h.ne
  back := by simpa using h.back
  now := by simpa using h.now
  strict := by simpa using h.strict

theorem Overtakes.flipY (h : a.Overtakes b) : a.flipY.Overtakes b.flipY where
  vel_x := h.vel_x
  vel_y := by simp [h.vel_y]
  bounded := bounded_flipY.2 h.bounded
  aimed := aimed_flipY.2 h.aimed
  off_a := by simpa using h.off_a
  off_b := by simpa using h.off_b
  ne := by simpa using h.ne
  back := by simpa using h.back
  now := by simpa using h.now
  strict := by simpa using h.strict

theorem Overtakes.swap (h : a.Overtakes b) : a.swap.Overtakes b.swap where
  vel_x := h.vel_y
  vel_y := h.vel_x
  bounded := bounded_swap.2 h.bounded
  aimed := aimed_swap.2 h.aimed
  off_a := by simpa using h.off_a
  off_b := by simpa using h.off_b
  ne := by simpa [or_comm] using h.ne
  back := by simpa using h.back
  now := by simpa using h.now
  strict := by simpa using h.strict

/-! ### Overshooting the new target -/

/-- The one position, up to symmetry, where the new chase ranks higher: the ship moves right at
two and up at one, the old target three below it, the new one two left and two up. -/
def tie : Chase × Chase := (⟨⟨0, 2⟩, ⟨-3, 1⟩⟩, ⟨⟨-2, 2⟩, ⟨2, 1⟩⟩)

/-- Moving right at two, with the old target at or ahead on that axis and the new one at or
behind, the new one can only have become the nearer if the ship moves away from the old one on
the second axis: a speed of zero there, or a speed toward the old one, would have kept it the
nearer. -/
theorem canonical_speed {w c₁ c₂ q₁ q₂ : ℤ} (hw₀ : 0 ≤ w) (hw₂ : w ≤ 2) (hc₁ : 0 ≤ c₁)
    (hq₁ : q₁ ≤ 0) (H₁ : (c₁ + 2) ^ 2 + (c₂ + w) ^ 2 ≤ (q₁ + 2) ^ 2 + (q₂ + w) ^ 2)
    (H₂ : q₁ ^ 2 + q₂ ^ 2 ≤ c₁ ^ 2 + c₂ ^ 2)
    (hs : (c₁ + 2) ^ 2 + (c₂ + w) ^ 2 < (q₁ + 2) ^ 2 + (q₂ + w) ^ 2 ∨
      q₁ ^ 2 + q₂ ^ 2 < c₁ ^ 2 + c₂ ^ 2) (hne : c₁ ≠ q₁ ∨ c₂ ≠ q₂) : 0 < w ∧ c₂ < 0 := by
  -- the turn took the ship nearer the new target than the old along its speed
  have L : 2 * c₁ + w * c₂ ≤ 2 * q₁ + w * q₂ := by linarith
  rcases (by omega : w = 0 ∨ 0 < w) with rfl | hw
  · -- both targets on the second axis through the ship, where no comparison can be strict
    obtain ⟨rfl, rfl⟩ : c₁ = 0 ∧ q₁ = 0 := by omega
    rcases hs with hs | hs <;> linarith
  refine ⟨hw, lt_of_not_ge fun hc₂ => ?_⟩
  -- the old target at or above: the new one is above it by at least the lead on the first axis
  have e : c₁ + c₂ - q₁ ≤ q₂ := by
    rcases (by omega : w = 1 ∨ w = 2) with rfl | rfl <;> omega
  have hsq : (c₁ + c₂ - q₁) ^ 2 ≤ q₂ ^ 2 := pow_le_pow_left₀ (by omega) e 2
  -- then the new target is no nearer unless it is level with the ship on the first axis
  have hq : q₁ ^ 2 ≤ 0 := by
    linarith [mul_nonneg hc₁ hc₂, mul_nonneg (neg_nonneg.2 hq₁) hc₁,
      mul_nonneg (neg_nonneg.2 hq₁) hc₂]
  obtain rfl : q₁ = 0 := (pow_eq_zero_iff two_ne_zero).1 (le_antisymm hq (sq_nonneg q₁))
  have hcc : c₁ * c₂ = 0 := by linarith [mul_nonneg hc₁ hc₂]
  have hq₂ : q₂ = c₁ + c₂ :=
    le_antisymm ((pow_le_pow_iff_left₀ (by omega) (by omega) two_ne_zero).1 (by linarith))
      (by omega)
  subst hq₂
  rcases mul_eq_zero.1 hcc with rfl | rfl
  · omega
  -- the old target level with the ship: only a speed of two keeps the new one as near, a tie
  have hc : 0 < c₁ := by omega
  rcases (by omega : w = 1 ∨ w = 2) with rfl | rfl <;> rcases hs with hs | hs <;> linarith

/-! The arithmetic of the canonical overshoot. The ship moves right at two and up at one; the
old target is `(c₁, c₂)` from it, at or ahead on the first axis and below; the new target is
`(q₁, q₂)`, at or behind on the first axis. A turn ago the old target was the nearer, now the new
one is. The first axis overshoots the new target, so the next two distances to it are
`(q₁ - 1)² + e²` with `e` the second axis's gap after one or two turns; they stay below the
distance to the old target, or below the next distance to it when `c₁ = 0`, where the ship
overshoots the old target too. -/

section Canonical

variable {c₁ c₂ q₁ q₂ : ℤ} (hc₁ : 0 ≤ c₁) (hc₂ : c₂ < 0) (hq₁ : q₁ ≤ 0)
  (H₁ : (c₁ + 2) ^ 2 + (c₂ + 1) ^ 2 ≤ (q₁ + 2) ^ 2 + (q₂ + 1) ^ 2)
  (H₂ : q₁ ^ 2 + q₂ ^ 2 ≤ c₁ ^ 2 + c₂ ^ 2)
include hc₁ hc₂ hq₁ H₁ H₂

omit hc₁ hc₂ hq₁ in
/-- The turn took the ship nearer the new target than the old along its speed. -/
theorem canonical_lead : 2 * c₁ + c₂ ≤ 2 * q₁ + q₂ := by linarith

/-- The new target below the ship: on the second axis the ship moves away from it and only
brakes. -/
theorem canonical_below (hq₂ : q₂ ≤ -1) :
    (1 ≤ c₁ → (q₁ - 1) ^ 2 + q₂ ^ 2 < c₁ ^ 2 + c₂ ^ 2) ∧
      (c₁ = 0 → (q₁ - 1) ^ 2 + q₂ ^ 2 ≤ 1 + c₂ ^ 2) := by
  have L := canonical_lead H₁ H₂
  -- the old target lies farther below than the new one by the lead
  have hc : (-q₂ - 2 * q₁ + 2 * c₁) ^ 2 ≤ c₂ ^ 2 := by
    linarith [mul_nonneg (by omega : (0 : ℤ) ≤ -c₂ - (-q₂ - 2 * q₁ + 2 * c₁))
      (by omega : (0 : ℤ) ≤ -c₂ + (-q₂ - 2 * q₁ + 2 * c₁))]
  refine ⟨fun h => ?_, fun h => ?_⟩
  · linarith [mul_nonneg_of_nonpos_of_nonpos hq₁ (by omega : q₂ + 1 ≤ 0),
      mul_nonneg hc₁ (by omega : (0 : ℤ) ≤ -q₂ - 1), mul_nonneg hc₁ (by omega : (0 : ℤ) ≤ -q₁),
      sq_nonneg (c₁ - 1), sq_nonneg q₁]
  · subst h
    linarith [mul_nonneg (by omega : (0 : ℤ) ≤ -q₁) (by omega : (0 : ℤ) ≤ -3 * q₁ - 4 * q₂ - 2)]

/-- The new target level with the ship or one above: the second axis lands on it. -/
theorem canonical_level (hq₂ : 0 ≤ q₂) (hq₂' : q₂ ≤ 1) :
    (1 ≤ c₁ → (q₁ - 1) ^ 2 < c₁ ^ 2 + c₂ ^ 2) ∧ (c₁ = 0 → (q₁ - 1) ^ 2 < 1 + c₂ ^ 2) := by
  have L := canonical_lead H₁ H₂
  refine ⟨fun h => ?_, fun h => ?_⟩
  · linarith [mul_nonneg (by omega : (0 : ℤ) ≤ -c₂ - (1 - 2 * q₁))
      (by omega : (0 : ℤ) ≤ -c₂ + (1 - 2 * q₁)), sq_nonneg (c₁ - 1), sq_nonneg q₁]
  subst h
  rcases (by omega : q₁ = 0 ∨ q₁ = -1 ∨ q₁ ≤ -2) with rfl | rfl | hq₁'
  · linarith [mul_pos (neg_pos.2 hc₂) (neg_pos.2 hc₂)]
  · -- one behind: the old target is at least two below
    have : c₂ ≠ -1 := by
      rintro rfl
      rcases (by omega : q₂ = 0 ∨ q₂ = 1) with rfl | rfl <;> linarith
    linarith [mul_nonneg (by omega : (0 : ℤ) ≤ -c₂ - 2) (by omega : (0 : ℤ) ≤ -c₂ + 2)]
  · linarith [mul_nonneg (by omega : (0 : ℤ) ≤ -c₂ - (-2 * q₁ - q₂))
      (by omega : (0 : ℤ) ≤ -c₂ + (-2 * q₁ - q₂)),
      mul_nonneg_of_nonpos_of_nonpos (by omega : q₂ - 1 ≤ 0) (by omega : 4 * q₁ + q₂ + 1 ≤ 0),
      mul_nonneg (by omega : (0 : ℤ) ≤ -q₁) (by omega : (0 : ℤ) ≤ -q₁ - 2)]

/-- The new target two above: the second axis lands on it and overshoots by one. This is where
the tie lives. -/
theorem canonical_two (hs : (c₁ + 2) ^ 2 + (c₂ + 1) ^ 2 < (q₁ + 2) ^ 2 + (q₂ + 1) ^ 2 ∨
      q₁ ^ 2 + q₂ ^ 2 < c₁ ^ 2 + c₂ ^ 2) (hq₂ : q₂ = 2) :
    (1 ≤ c₁ → (q₁ - 1) ^ 2 + 1 < c₁ ^ 2 + c₂ ^ 2) ∧
      (c₁ = 0 → (q₁ - 1) ^ 2 ≤ 1 + c₂ ^ 2 ∧
        ((q₁ - 1) ^ 2 + 1 < 1 + c₂ ^ 2 ∨ q₁ = -2 ∧ c₂ = -3)) := by
  have L := canonical_lead H₁ H₂
  -- one of the two comparisons is strict, so is the lead
  have Ls : 2 * c₁ + c₂ < 2 * q₁ + q₂ := by rcases hs with hs | hs <;> linarith
  subst hq₂
  refine ⟨fun h => ?_, fun h => ?_⟩
  · rcases (by omega : q₁ = 0 ∨ q₁ ≤ -1) with rfl | hq
    · linarith
    · linarith [mul_nonneg (by omega : (0 : ℤ) ≤ -c₂ - (1 - 2 * q₁))
        (by omega : (0 : ℤ) ≤ -c₂ + (1 - 2 * q₁)), sq_nonneg (c₁ - 1), sq_nonneg q₁]
  subst h
  refine ⟨?_, ?_⟩
  · rcases (by omega : -2 ≤ q₁ ∨ q₁ ≤ -3) with h | h
    · linarith
    · linarith [mul_nonneg (by omega : (0 : ℤ) ≤ -c₂ - (-2 * q₁ - 2))
        (by omega : (0 : ℤ) ≤ -c₂ + (-2 * q₁ - 2)),
        mul_nonneg (by omega : (0 : ℤ) ≤ -q₁ - 3) (by omega : (0 : ℤ) ≤ -3 * q₁ - 1)]
  -- otherwise the squares pin both targets down
  by_contra hne
  simp only [not_or, not_and_or, not_lt] at hne
  obtain ⟨h₁, h₂⟩ := hne
  have hq : q₁ ≤ -2 := by
    have : 2 * q₁ ≤ -3 := by linarith
    omega
  have hq' : -3 ≤ q₁ := by
    by_contra hq'
    linarith [mul_nonneg (by omega : (0 : ℤ) ≤ -c₂ - (-2 * q₁ - 2))
      (by omega : (0 : ℤ) ≤ -c₂ + (-2 * q₁ - 2)),
      mul_pos (by omega : (0 : ℤ) < -3 * q₁ - 1) (by omega : (0 : ℤ) < -q₁ - 3)]
  have hc : -4 ≤ c₂ := by
    by_contra hc
    linarith [mul_nonneg (by omega : (0 : ℤ) ≤ -c₂ - 5) (by omega : (0 : ℤ) ≤ -c₂ + 5),
      mul_nonneg (by omega : (0 : ℤ) ≤ q₁ + 3) (by omega : (0 : ℤ) ≤ 5 - q₁)]
  interval_cases q₁ <;> interval_cases c₂ <;> omega

/-- The new target three or more above: the second axis closes in by two at least. -/
theorem canonical_above (hs : (c₁ + 2) ^ 2 + (c₂ + 1) ^ 2 < (q₁ + 2) ^ 2 + (q₂ + 1) ^ 2 ∨
      q₁ ^ 2 + q₂ ^ 2 < c₁ ^ 2 + c₂ ^ 2) (hq₂ : 3 ≤ q₂) :
    (1 ≤ c₁ → (q₁ - 1) ^ 2 + (q₂ - 2) ^ 2 < c₁ ^ 2 + c₂ ^ 2) ∧
      (c₁ = 0 → (q₁ - 1) ^ 2 + (q₂ - 2) ^ 2 < 1 + c₂ ^ 2) := by
  have L := canonical_lead H₁ H₂
  refine ⟨fun h => ?_, fun h => ?_⟩
  · by_cases hq : 2 - q₁ < 2 * q₂
    · linarith
    -- far behind on the first axis, and the old target lower still
    linarith [mul_nonneg (by omega : (0 : ℤ) ≤ -c₂ - (2 - 2 * q₁ - q₂))
        (by omega : (0 : ℤ) ≤ -c₂ + (2 - 2 * q₁ - q₂)),
      mul_pos (by omega : (0 : ℤ) < -q₁) (by omega : (0 : ℤ) < 6 - 3 * q₁ - 4 * q₂),
      sq_nonneg (c₁ - 1)]
  subst h
  by_cases hq : 2 - q₁ < 2 * q₂
  · linarith
  -- far behind on the first axis: the lead is strict, and the old target lies lower still
  replace L : c₂ < 2 * q₁ + q₂ := by rcases hs with hs | hs <;> linarith
  linarith [mul_nonneg (by omega : (0 : ℤ) ≤ -c₂ - (-2 * q₁ - q₂ + 1))
      (by omega : (0 : ℤ) ≤ -c₂ + (-2 * q₁ - q₂ + 1)),
    mul_nonneg (by omega : (0 : ℤ) ≤ -q₁) (by omega : (0 : ℤ) ≤ 2 - q₁ - 2 * q₂),
    sq_nonneg (q₁ + 1)]

/-- The next two distances to the new target, by where it lies on the second axis; `e₁` and
`e₂` are the second axis's gaps after one and two turns at speed one
(`Track.step_of_vel_one`). -/
theorem canonical_bound (hs : (c₁ + 2) ^ 2 + (c₂ + 1) ^ 2 < (q₁ + 2) ^ 2 + (q₂ + 1) ^ 2 ∨
      q₁ ^ 2 + q₂ ^ 2 < c₁ ^ 2 + c₂ ^ 2) {e₁ e₂ : ℤ}
    (he : (q₂ ≤ -1 → e₁ = q₂ ∧ e₂ = q₂ + 1) ∧ (0 ≤ q₂ → q₂ ≤ 1 → e₁ = 0 ∧ e₂ = 0) ∧
      (q₂ = 2 → e₁ = 0 ∧ e₂ = -1) ∧ (3 ≤ q₂ → |e₁| ≤ q₂ - 2 ∧ |e₂| ≤ q₂ - 2)) :
    (1 ≤ c₁ → (q₁ - 1) ^ 2 + e₁ ^ 2 < c₁ ^ 2 + c₂ ^ 2 ∧
        (q₁ - 1) ^ 2 + e₂ ^ 2 < c₁ ^ 2 + c₂ ^ 2) ∧
      (c₁ = 0 → (q₁ - 1) ^ 2 + e₁ ^ 2 ≤ 1 + c₂ ^ 2 ∧
        ((q₁ - 1) ^ 2 + e₂ ^ 2 < 1 + c₂ ^ 2 ∨ q₁ = -2 ∧ q₂ = 2 ∧ c₂ = -3)) := by
  obtain ⟨h₁, h₂, h₃, h₄⟩ := he
  rcases (by omega : q₂ ≤ -1 ∨ (0 ≤ q₂ ∧ q₂ ≤ 1) ∨ q₂ = 2 ∨ 3 ≤ q₂) with
    h | ⟨h, h'⟩ | h | h
  · -- the new target below the ship
    obtain ⟨rfl, rfl⟩ := h₁ h
    obtain ⟨k₁, k₀⟩ := canonical_below hc₁ hc₂ hq₁ H₁ H₂ h
    -- braking brings the second axis nearer level
    have : (e₁ + 1) ^ 2 < e₁ ^ 2 := by linarith
    exact ⟨fun hc => ⟨k₁ hc, by linarith [k₁ hc]⟩,
      fun hc => ⟨k₀ hc, Or.inl (by linarith [k₀ hc])⟩⟩
  · -- level or one above
    obtain ⟨rfl, rfl⟩ := h₂ h h'
    obtain ⟨k₁, k₀⟩ := canonical_level hc₁ hc₂ hq₁ H₁ H₂ h h'
    simp only [ne_eq, OfNat.ofNat_ne_zero, not_false_eq_true, zero_pow, add_zero]
    exact ⟨fun hc => ⟨k₁ hc, k₁ hc⟩, fun hc => ⟨(k₀ hc).le, Or.inl (k₀ hc)⟩⟩
  · -- two above
    obtain ⟨rfl, rfl⟩ := h₃ h
    obtain ⟨k₁, k₀⟩ := canonical_two hc₁ hc₂ hq₁ H₁ H₂ hs h
    refine ⟨fun hc => ⟨by linarith [k₁ hc], by linarith [k₁ hc]⟩, fun hc => ?_⟩
    obtain ⟨k, k'⟩ := k₀ hc
    exact ⟨by linarith, k'.imp (fun k' => by linarith) (fun ⟨k', k''⟩ => ⟨k', h, k''⟩)⟩
  · -- three or more above
    obtain ⟨s₁, s₂⟩ := h₄ h
    have t₁ : e₁ ^ 2 ≤ (q₂ - 2) ^ 2 := sq_le_sq.2 (by rwa [abs_of_nonneg (by omega : 0 ≤ q₂ - 2)])
    have t₂ : e₂ ^ 2 ≤ (q₂ - 2) ^ 2 := sq_le_sq.2 (by rwa [abs_of_nonneg (by omega : 0 ≤ q₂ - 2)])
    obtain ⟨k₁, k₀⟩ := canonical_above hc₁ hc₂ hq₁ H₁ H₂ hs h
    exact ⟨fun hc => ⟨by linarith [k₁ hc], by linarith [k₁ hc]⟩,
      fun hc => ⟨by linarith [k₀ hc], Or.inl (by linarith [k₀ hc])⟩⟩

end Canonical

/-- The canonical overshoot: the ship moves right at two, upward or level, and the new target is
at or behind it on the first axis. The turn before came from the old target's chase, so that
axis aims at it; the ship must move up at one, away from the old target, and the bounds on the
next two distances to the new target come from `canonical_bound`. -/
theorem Overtakes.rank_le_of_canonical (h : a.Overtakes b) (hwx : a.x.vel = 2)
    (hwy : 0 ≤ a.y.vel) (hq : b.x.gap ≤ 0) : b.rank ≤ a.rank ∨ (a, b) = tie := by
  have hc₁ : 0 ≤ a.x.gap := h.aimed.1.1 hwx
  have hback := h.back
  have hnow := h.now
  have hs := h.strict
  simp only [backDist, dist] at hback hnow hs
  rw [h.vel_x, h.vel_y, hwx] at hback hs
  obtain ⟨hw₀, hc₂⟩ := canonical_speed hwy h.bounded.2.2 hc₁ hq hback hnow hs h.ne
  -- at speed two the second axis would aim at the old target, which lies below
  have hw : a.y.vel = 1 := by
    have := h.aimed.2.1
    have := h.bounded.2.2
    omega
  rw [hw] at hback hs
  obtain ⟨k₁, k₀⟩ := canonical_bound hc₁ hc₂ hq hback hnow hs
    (Track.step_of_vel_one (h.vel_y.trans hw))
  -- the first axis overshoots the new target: one step farther behind it for two turns
  obtain ⟨bx₁, bx₂⟩ := Track.abs_gap_of_overshoots (t := b.x) (Or.inl ⟨h.vel_x.trans hwx, hq⟩)
  have sx₁ : b.x.step.gap ^ 2 = (b.x.gap - 1) ^ 2 := by
    rw [← sq_abs, bx₁, abs_of_nonpos hq]
    ring
  have sx₂ : b.x.step.step.gap ^ 2 = (b.x.gap - 1) ^ 2 := by
    rw [← sq_abs, bx₂, abs_of_nonpos hq]
    ring
  have n₀ : 3 * b.dist ≤ a.rank := by
    have := h.now
    have := dist_le_rank a
    omega
  have r₀ := dist_le_rank a
  simp only [dist] at r₀
  refine (by omega : 1 ≤ a.x.gap ∨ a.x.gap = 0).elim (fun hc => Or.inl ?_) (fun hc => ?_)
  · -- the old target ahead: both next distances fall below the present one to it
    obtain ⟨e₁, e₂⟩ := k₁ hc
    refine rank_le_iff.2 ⟨n₀, ?_, ?_⟩ <;> simp only [dist, step_x, step_y] <;> linarith
  -- the ship passes over the old target on the first axis and brakes away from it on the
  -- second: its next distance to it is one more than its height
  obtain ⟨e₁, e₂⟩ := k₀ hc
  have ax : a.x.step.gap ^ 2 = 1 := by
    have := (Track.abs_gap_of_overshoots (t := a.x) (Or.inl ⟨hwx, hc.le⟩)).1
    rw [hc, abs_zero, zero_add] at this
    rw [← sq_abs, this, one_pow]
  have ay : a.y.step.gap ^ 2 = a.y.gap ^ 2 := by
    have := (Track.abs_step_gap_of_away h.bounded.2 h.aimed.2 (by rw [hw]; omega)).1
    rw [← sq_abs, this, sq_abs]
  have r₁ := dist_step_le_rank a
  simp only [dist, step_x, step_y, ax, ay] at r₁
  rcases e₂ with e₂ | ⟨t₁, t₂, t₃⟩
  · left
    refine rank_le_iff.2 ⟨n₀, ?_, ?_⟩ <;> simp only [dist, step_x, step_y] <;> linarith
  · right
    simp only [tie, Prod.mk.injEq, Chase.ext_iff, Track.ext_iff]
    exact ⟨⟨⟨hc, hwx⟩, t₃, hw⟩, ⟨t₁, h.vel_x.trans hwx⟩, t₂, h.vel_y.trans hw⟩

/-! ### The eight ties -/

/-- `tie` under the symmetries of the square. -/
def ties : List (Chase × Chase) :=
  let half := [tie, (tie.1.flipX, tie.2.flipX), (tie.1.flipY, tie.2.flipY),
    (tie.1.flipX.flipY, tie.2.flipX.flipY)]
  half ++ half.map fun p => (p.1.swap, p.2.swap)

theorem tie_mem_ties : tie ∈ ties := by decide

theorem flipX_mem_ties : ∀ p ∈ ties, (p.1.flipX, p.2.flipX) ∈ ties := by decide

theorem flipY_mem_ties : ∀ p ∈ ties, (p.1.flipY, p.2.flipY) ∈ ties := by decide

theorem swap_mem_ties : ∀ p ∈ ties, (p.1.swap, p.2.swap) ∈ ties := by decide

@[simp] theorem mem_ties_flipX : (a.flipX, b.flipX) ∈ ties ↔ (a, b) ∈ ties :=
  ⟨fun h => by simpa using flipX_mem_ties _ h, fun h => flipX_mem_ties _ h⟩

@[simp] theorem mem_ties_flipY : (a.flipY, b.flipY) ∈ ties ↔ (a, b) ∈ ties :=
  ⟨fun h => by simpa using flipY_mem_ties _ h, fun h => flipY_mem_ties _ h⟩

@[simp] theorem mem_ties_swap : (a.swap, b.swap) ∈ ties ↔ (a, b) ∈ ties :=
  ⟨fun h => by simpa using swap_mem_ties _ h, fun h => swap_mem_ties _ h⟩

/-- An overshooting axis of the new chase is brought by reflections to the canonical one. -/
theorem Overtakes.rank_le_of_overshoots (h : a.Overtakes b) (hx : b.x.Overshoots) :
    b.rank ≤ a.rank ∨ (a, b) ∈ ties := by
  -- reflect the first axis so that the ship moves right along it
  wlog hv : b.x.vel = 2 generalizing a b
  · have hv' : b.x.vel = -2 := by
      unfold Track.Overshoots at hx
      omega
    simpa using this h.flipX (Track.overshoots_neg.2 hx) (by simp [hv'])
  -- reflect the second axis so that the ship moves up along it, or not at all
  wlog hw : 0 ≤ a.y.vel generalizing a b
  · simpa using this h.flipY hx hv (by simp only [flipY_y, Track.neg_vel]; omega)
  have hq : b.x.gap ≤ 0 := by
    unfold Track.Overshoots at hx
    omega
  refine (h.rank_le_of_canonical (h.vel_x.symm.trans hv) hw hq).imp_right fun ht => ?_
  rw [ht]
  exact tie_mem_ties

/-- A nearer target never ranks higher, but in the eight ties. -/
theorem Overtakes.rank_le (h : a.Overtakes b) : b.rank ≤ a.rank ∨ (a, b) ∈ ties := by
  by_cases hx : b.x.Overshoots
  · exact h.rank_le_of_overshoots hx
  by_cases hy : b.y.Overshoots
  · simpa using h.swap.rank_le_of_overshoots hy
  exact Or.inl (h.rank_le_of_steady hx hy)

/-- In a tie the new chase ranks one higher. -/
theorem rank_of_mem_ties : ∀ p ∈ ties, p.2.rank = p.1.rank + 1 := by decide

/-- In a tie the new target lies farther than the old one along the signs of the speed. -/
theorem lead_of_mem_ties : ∀ p ∈ ties,
    0 < p.1.x.vel.sign * (p.2.x.gap - p.1.x.gap) + p.1.y.vel.sign * (p.2.y.gap - p.1.y.gap) := by
  decide

/-- The turn into a tie kept the signs of the speed. -/
theorem sign_vel_of_step_mem_ties {c : Chase} (hc : c.Bounded) (h : (c.step, b) ∈ ties) :
    c.x.vel.sign = c.step.x.vel.sign ∧ c.y.vel.sign = c.step.y.vel.sign := by
  -- a chase is its turn taken back: the gap before is the gap after plus the speed after
  have table : ∀ p ∈ ties, ∀ u ∈ [(-2 : ℤ), -1, 0, 1, 2], ∀ v ∈ [(-2 : ℤ), -1, 0, 1, 2],
      (Chase.mk ⟨p.1.x.gap + p.1.x.vel, u⟩ ⟨p.1.y.gap + p.1.y.vel, v⟩).step = p.1 →
        u.sign = p.1.x.vel.sign ∧ v.sign = p.1.y.vel.sign := by
    decide
  have hback : c = Chase.mk ⟨c.step.x.gap + c.step.x.vel, c.x.vel⟩
      ⟨c.step.y.gap + c.step.y.vel, c.y.vel⟩ := by
    ext <;> simp
  have hu : c.x.vel ∈ [(-2 : ℤ), -1, 0, 1, 2] := by
    have := hc.1
    simp only [Track.Bounded, List.mem_cons, List.not_mem_nil] at this ⊢
    omega
  have hv : c.y.vel ∈ [(-2 : ℤ), -1, 0, 1, 2] := by
    have := hc.2
    simp only [Track.Bounded, List.mem_cons, List.not_mem_nil] at this ⊢
    omega
  exact table _ h _ hu _ hv (by rw [← hback])

end Chase

end Spaceship

end Interstellar
