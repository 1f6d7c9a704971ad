import Interstellar.Proofs.Overtake
import Interstellar.Proofs.Flight

/-!
# The autopilot clears every course

`Ship.autopilot` steers, turn after turn, toward the closest pending target until nothing is
pending. From a ship at rest it clears every course of at least one target, and it never moves
the ship faster than two along an axis (`Ship.autopilot_clears_course`).

The proof follows the chase of the target the autopilot heads for (`Ship.chase`); a turn steps it
as `Chase.step` (`Ship.chase_press_steer`). A turn lands on a target and shortens the list of
pending targets, or it leaves the list as it was. Then it keeps the target and lowers the rank
of its chase (`Chase.rank_step_lt`), or it switches to a target that has become nearer, whose
chase ranks no higher than the old one's after the turn (`Chase.Overtakes.rank_le`), unless the
switch is one of the eight ties. A tie ranks one higher, so no higher than before the turn; it
keeps the signs of the speed and heads for a target farther along them, so it lowers how far the
pending targets lie beyond the chased one along those signs (`Ship.spread`). Length, rank and
spread fall in lexicographic order at every turn (`Ship.Flying.progress_lt`).
-/

namespace Interstellar

namespace Spaceship

/-! ### The closest target -/

namespace Chart

/-- `t` is the first point of `l` at the least distance from `p`: the points before it are
farther, the points after it no nearer. -/
def FirstNearest (p t : Point) (l : List Point) : Prop :=
  ∃ l₁ l₂, l = l₁ ++ t :: l₂ ∧ (∀ y ∈ l₁, dist2 p t < dist2 p y) ∧ ∀ y ∈ l₂, dist2 p t ≤ dist2 p y

variable {p p' t t' y : Point} {l : List Point}

theorem FirstNearest.mem (h : FirstNearest p t l) : t ∈ l := by
  obtain ⟨l₁, l₂, rfl, -, -⟩ := h
  simp

theorem FirstNearest.le (h : FirstNearest p t l) (hy : y ∈ l) : dist2 p t ≤ dist2 p y := by
  obtain ⟨l₁, l₂, rfl, h₁, h₂⟩ := h
  simp only [List.mem_append, List.mem_cons] at hy
  rcases hy with hy | rfl | hy
  · exact (h₁ y hy).le
  · exact le_rfl
  · exact h₂ y hy

/-- Two different points, each first nearest from somewhere, are not tied both times: the one
earlier in the list would have won the second time too. -/
theorem FirstNearest.not_tie (h : FirstNearest p t l) (h' : FirstNearest p' t' l) (hne : t ≠ t')
    (he : dist2 p t' = dist2 p t) (he' : dist2 p' t = dist2 p' t') : False := by
  obtain ⟨l₁, l₂, hl, h₁, -⟩ := h
  obtain ⟨l₁', l₂', rfl, h₁', -⟩ := h'
  rcases List.append_eq_append_iff.1 hl with ⟨a, rfl, ha⟩ | ⟨c, rfl, hc⟩
  · -- `t'` stands before `t`
    cases a with
    | nil => exact hne (List.cons.inj ha).1.symm
    | cons x r =>
      have hx := (List.cons.inj ha).1
      have := h₁ t' (by simp [hx])
      omega
  · -- `t` stands before `t'`
    cases c with
    | nil => exact hne (List.cons.inj hc).1
    | cons x r =>
      have hx := (List.cons.inj hc).1
      have := h₁' t (by simp [hx])
      omega

/-- The fold of `closest?` keeps the first point of least distance. -/
theorem foldl_firstNearest (p : Point) : ∀ (best : Point) (qs : List Point),
    FirstNearest p (qs.foldl (fun best r => if dist2 p r < dist2 p best then r else best) best)
      (best :: qs)
  | best, [] => ⟨[], [], rfl, by simp, by simp⟩
  | best, r :: qs => by
    simp only [List.foldl_cons]
    split_ifs with h
    · -- `r` is nearer than `best`, which goes before the nearest of `r :: qs`
      have hr := foldl_firstNearest p r qs
      obtain ⟨l₁, l₂, hl, h₁, h₂⟩ := hr
      have hle := FirstNearest.le ⟨l₁, l₂, hl, h₁, h₂⟩ (List.mem_cons_self ..)
      refine ⟨best :: l₁, l₂, by rw [hl]; rfl, ?_, h₂⟩
      simp only [List.mem_cons, forall_eq_or_imp]
      exact ⟨lt_of_le_of_lt hle h, h₁⟩
    · -- `best` stays; `r` goes after it, and after the nearest when that is `best`
      obtain ⟨l₁, l₂, hl, h₁, h₂⟩ := foldl_firstNearest p best qs
      cases l₁ with
      | nil =>
        obtain ⟨hb, hq⟩ := List.cons.inj hl
        subst hq
        refine ⟨[], r :: qs, by rw [← hb]; rfl, by simp, ?_⟩
        simp only [List.mem_cons, forall_eq_or_imp]
        exact ⟨by rw [← hb]; exact not_lt.1 h, h₂⟩
      | cons x l₁ =>
        obtain ⟨rfl, hq⟩ := List.cons.inj hl
        refine ⟨best :: r :: l₁, l₂, congrArg (fun q => best :: r :: q) hq, ?_, h₂⟩
        have hx := h₁ best (List.mem_cons_self ..)
        simp only [List.mem_cons, forall_eq_or_imp] at h₁ ⊢
        exact ⟨hx, lt_of_lt_of_le hx (not_lt.1 h), h₁.2⟩

/-- `closest?` finds the first pending target of least distance. -/
theorem closest?_eq_some {c : Chart} (h : c.closest? p = some t) : FirstNearest p t c.pending := by
  unfold closest? at h
  split at h
  · cases h
  · rename_i q qs hq
    cases h
    rw [hq]
    exact foldl_firstNearest p q qs

theorem closest?_ne_none {c : Chart} (h : c.pending ≠ []) : ∃ t, c.closest? p = some t := by
  unfold closest?
  split
  · contradiction
  · exact ⟨_, rfl⟩

end Chart

/-! ### The chase of a target -/

/-- A speed of at most two along each axis. -/
def Slow (v : Point) : Prop := -2 ≤ v.1 ∧ v.1 ≤ 2 ∧ -2 ≤ v.2 ∧ v.2 ≤ 2

namespace Ship

variable (s : Ship) (t u : Point)

/-- The chase of `t` as the ship sees it. -/
def chase : Chase := ⟨⟨t.1 - s.pos.1, s.vel.1⟩, ⟨t.2 - s.pos.2, s.vel.2⟩⟩

theorem axisChoice_mem (d n v : ℤ) : 0 ≤ axisChoice d n v ∧ axisChoice d n v ≤ 2 := by
  unfold axisChoice
  split_ifs <;> omega

/-- The key the autopilot presses is on the keypad, one column and one row per axis. -/
theorem keyDelta_steer :
    keyDelta (s.steer t) =
      (axisChoice t.1 s.drift.1 s.vel.1 - 1, axisChoice t.2 s.drift.2 s.vel.2 - 1) ∧
    1 ≤ s.steer t ∧ s.steer t ≤ 9 := by
  have hx := axisChoice_mem t.1 s.drift.1 s.vel.1
  have hy := axisChoice_mem t.2 s.drift.2 s.vel.2
  simp only [keyDelta, steer, Prod.mk.injEq]
  omega

/-- Steering toward `t` steps the chase of `t`. -/
theorem chase_press_steer : (s.press (s.steer t)).chase t = (s.chase t).step := by
  obtain ⟨hd, hk⟩ := keyDelta_steer s t
  obtain ⟨hv, hp, -, -⟩ := s.press_of_accepts hk
  rw [hd] at hv
  -- the autopilot compares the target with the drift, the chase compares the gap with the speed
  have hvx : (s.press (s.steer t)).vel.1 = (s.chase t).x.step.vel := by
    rw [hv, Track.step_vel]
    simp only [chase, drift, axisChoice]
    split_ifs <;> omega
  have hvy : (s.press (s.steer t)).vel.2 = (s.chase t).y.step.vel := by
    rw [hv, Track.step_vel]
    simp only [chase, drift, axisChoice]
    split_ifs <;> omega
  ext
  · rw [Chase.step_x, Track.step_gap, ← hvx]
    simp only [chase, hp]
    ring
  · exact hvx
  · rw [Chase.step_y, Track.step_gap, ← hvy]
    simp only [chase, hp]
    ring
  · exact hvy

theorem dist_chase : (s.chase u).dist = Chart.dist2 s.pos u := by
  simp only [chase, Chase.dist, Chart.dist2]
  ring

theorem landed_chase : (s.chase u).Landed ↔ u = s.pos := by
  simp only [chase, Chase.Landed, Prod.ext_iff]
  omega

theorem bounded_chase : (s.chase u).Bounded ↔ Slow s.vel := by
  simp only [chase, Chase.Bounded, Track.Bounded, Slow]
  tauto

/-- After an accepted key, the chase of any point looks back to where the ship was. -/
theorem backDist_chase_press {k : ℤ} (hk : 1 ≤ k ∧ k ≤ 9) :
    ((s.press k).chase u).backDist = (s.chase u).dist := by
  obtain ⟨-, hp, -, -⟩ := s.press_of_accepts hk
  simp only [chase, Chase.backDist, Chase.dist, hp]
  ring

/-! ### What a turn keeps -/

/-- What the autopilot keeps from turn to turn: the speed is slow now and was slow at every turn
recorded, and a target is pending until the course is clear. -/
structure Flying (s : Ship) : Prop where
  slow : Slow s.vel
  recorded : ∀ v ∈ s.velocities, Slow v
  pending : s.allClear = false → s.chart.pending ≠ []

variable {s t}

theorem Flying.press_steer (hf : s.Flying) : (s.press (s.steer t)).Flying := by
  obtain ⟨-, hk⟩ := keyDelta_steer s t
  have hb := ((bounded_chase s t).2 hf.slow).step
  rw [← chase_press_steer, bounded_chase] at hb
  refine ⟨hb, fun v hv => ?_, fun hc => ?_⟩
  · simp only [press, hk, and_self, ↓reduceIte, Array.mem_push] at hv
    rcases hv with hv | rfl
    · exact hf.recorded v hv
    · simpa [press, hk] using hb
  · obtain ⟨-, -, -, hclear⟩ := s.press_of_accepts hk
    rw [hc, eq_comm, Bool.or_eq_false_iff] at hclear
    simpa using hclear.2

/-! ### The measure -/

/-- The rank of the chase of the target the autopilot heads for. -/
def chaseRank (s : Ship) : ℕ :=
  match s.chart.closest? s.pos with
  | some t => (s.chase t).rank.toNat
  | none => 0

/-- How far the pending targets lie beyond the one the autopilot heads for, along the signs of
the speed. -/
def spread (s : Ship) : ℕ :=
  match s.chart.closest? s.pos with
  | some t =>
    (s.chart.pending.map fun u =>
      (s.vel.1.sign * (u.1 - t.1) + s.vel.2.sign * (u.2 - t.2)).toNat).sum
  | none => 0

/-- What every turn of the autopilot lowers. -/
def progress (s : Ship) : ℕ ×ₗ ℕ ×ₗ ℕ :=
  toLex (s.chart.pending.length, toLex (s.chaseRank, s.spread))

theorem chaseRank_of_closest (h : s.chart.closest? s.pos = some t) :
    s.chaseRank = (s.chase t).rank.toNat := by
  rw [chaseRank, h]

theorem spread_of_closest (h : s.chart.closest? s.pos = some t) :
    s.spread = (s.chart.pending.map fun u =>
      (s.vel.1.sign * (u.1 - t.1) + s.vel.2.sign * (u.2 - t.2)).toNat).sum := by
  rw [spread, h]

/-- In a tie the spread falls: the signs of the speed are the same, and the new target lies
beyond the old one along them. -/
theorem spread_lt_of_lead {a b : ℤ} {t t' : Point} {l : List Point} (ht' : t' ∈ l)
    (hlead : 0 < a * (t'.1 - t.1) + b * (t'.2 - t.2)) :
    (l.map fun u => (a * (u.1 - t'.1) + b * (u.2 - t'.2)).toNat).sum <
      (l.map fun u => (a * (u.1 - t.1) + b * (u.2 - t.2)).toNat).sum := by
  refine List.sum_lt_sum _ _ (fun u _ => Int.toNat_le_toNat (by linarith)) ⟨t', ht', ?_⟩
  simp only [sub_self, mul_zero, add_zero, Int.toNat_zero]
  omega

theorem pending_press_steer : (s.press (s.steer t)).chart.pending =
    s.chart.pending.filter (· ≠ (s.press (s.steer t)).pos) := by
  obtain ⟨-, hk⟩ := keyDelta_steer s t
  rw [(s.press_of_accepts hk).2.2.1, Chart.visit_pending]

/-- A turn that lands on no target keeps the pending list, and the ship is on none of them. -/
theorem pending_press_steer_of_not_mem (hvis : (s.press (s.steer t)).pos ∉ s.chart.pending) :
    (s.press (s.steer t)).chart.pending = s.chart.pending ∧
      ∀ u ∈ s.chart.pending, ¬((s.press (s.steer t)).chase u).Landed := by
  refine ⟨?_, fun u hu hl => hvis ((landed_chase _ u).1 hl ▸ hu)⟩
  rw [pending_press_steer]
  exact List.filter_eq_self.2 fun u hu => by
    simp only [ne_eq, decide_eq_true_eq]
    rintro rfl
    exact hvis hu

section Switch

variable {t' : Point} (hf : s.Flying) (ht : s.chart.closest? s.pos = some t)
  (hvis : (s.press (s.steer t)).pos ∉ s.chart.pending)
  (ht' : (s.press (s.steer t)).chart.closest? (s.press (s.steer t)).pos = some t')
include hf ht hvis ht'

/-- A switch of target is an overtaking: the new target is the nearer now, the old one was the
nearest a turn ago, and they are not tied both times, for `closest?` takes the first. -/
theorem Flying.overtakes_of_switch (htt : t' ≠ t) :
    ((s.press (s.steer t)).chase t).Overtakes ((s.press (s.steer t)).chase t') := by
  obtain ⟨-, hk⟩ := keyDelta_steer s t
  obtain ⟨hsame, hoff⟩ := pending_press_steer_of_not_mem hvis
  have hft := Chart.closest?_eq_some ht
  have hft' : Chart.FirstNearest _ t' s.chart.pending := hsame ▸ Chart.closest?_eq_some ht'
  have hc := (bounded_chase s t).2 hf.slow
  have hback : ∀ u, ((s.press (s.steer t)).chase u).backDist = Chart.dist2 s.pos u := fun u => by
    rw [backDist_chase_press s u hk, dist_chase]
  refine
    { vel_x := rfl
      vel_y := rfl
      bounded := by
        rw [chase_press_steer]
        exact hc.step
      aimed := by
        rw [chase_press_steer]
        exact Chase.aimed_step hc
      off_a := hoff t hft.mem
      off_b := hoff t' hft'.mem
      ne := ?_
      back := ?_
      now := ?_
      strict := ?_ }
  · simp only [chase, ne_eq]
    by_contra hne
    exact htt (Prod.ext (by omega) (by omega))
  · rw [hback, hback]
    exact hft.le hft'.mem
  · rw [dist_chase, dist_chase]
    exact hft'.le hft.mem
  · rw [hback, hback, dist_chase, dist_chase]
    by_contra hn
    simp only [not_or, not_lt] at hn
    exact hft.not_tie hft' htt.symm (le_antisymm hn.1 (hft.le hft'.mem))
      (le_antisymm hn.2 (hft'.le hft.mem))

/-- A tie keeps the signs of the speed and heads for a target farther along them: the spread
falls. -/
theorem Flying.spread_lt_of_tie
    (htie : ((s.press (s.steer t)).chase t, (s.press (s.steer t)).chase t') ∈ Chase.ties) :
    (s.press (s.steer t)).spread < s.spread := by
  obtain ⟨hsame, -⟩ := pending_press_steer_of_not_mem hvis
  have hlead : 0 < ((s.press (s.steer t)).chase t).x.vel.sign *
        (((s.press (s.steer t)).chase t').x.gap - ((s.press (s.steer t)).chase t).x.gap) +
      ((s.press (s.steer t)).chase t).y.vel.sign *
        (((s.press (s.steer t)).chase t').y.gap - ((s.press (s.steer t)).chase t).y.gap) :=
    Chase.lead_of_mem_ties _ htie
  rw [chase_press_steer] at htie
  have hsign := Chase.sign_vel_of_step_mem_ties ((bounded_chase s t).2 hf.slow) htie
  rw [← chase_press_steer] at hsign
  obtain ⟨hsx, hsy⟩ := hsign
  simp only [chase] at hlead hsx hsy
  rw [spread_of_closest ht, spread_of_closest ht', hsame, ← hsx, ← hsy]
  rw [← hsx, ← hsy] at hlead
  have hmem : t' ∈ s.chart.pending := hsame ▸ (Chart.closest?_eq_some ht').mem
  exact spread_lt_of_lead hmem (by linarith)

end Switch

/-- Every turn of the autopilot lowers the progress measure. -/
theorem Flying.progress_lt (hf : s.Flying) (ht : s.chart.closest? s.pos = some t) :
    (s.press (s.steer t)).progress < s.progress := by
  have hft := Chart.closest?_eq_some ht
  unfold progress
  by_cases hvis : (s.press (s.steer t)).pos ∈ s.chart.pending
  · -- landing on a target shortens the list
    refine Prod.Lex.toLex_lt_toLex.2 (Or.inl ?_)
    dsimp only
    rw [pending_press_steer]
    exact List.length_filter_lt_length_iff_exists.2 ⟨_, hvis, by simp⟩
  obtain ⟨hsame, hoff⟩ := pending_press_steer_of_not_mem hvis
  obtain ⟨t', ht'⟩ := Chart.closest?_ne_none (p := (s.press (s.steer t)).pos)
    (hsame ▸ List.ne_nil_of_mem hft.mem)
  -- the turn lowers the rank of the chase it steps
  have hstep : ((s.press (s.steer t)).chase t).rank < (s.chase t).rank := by
    rw [chase_press_steer]
    exact Chase.rank_step_lt ((bounded_chase s t).2 hf.slow)
      (chase_press_steer s t ▸ hoff t hft.mem)
  have hr := Chase.rank_nonneg ((s.press (s.steer t)).chase t)
  refine Prod.Lex.toLex_lt_toLex.2 (Or.inr ⟨congrArg List.length hsame, ?_⟩)
  dsimp only
  rw [chaseRank_of_closest ht, chaseRank_of_closest ht']
  by_cases htt : t' = t
  · subst htt
    exact Prod.Lex.toLex_lt_toLex.2 (Or.inl ((Int.toNat_lt_toNat (by omega)).2 hstep))
  rcases (hf.overtakes_of_switch ht hvis ht' htt).rank_le with hle | htie
  · exact Prod.Lex.toLex_lt_toLex.2 (Or.inl ((Int.toNat_lt_toNat (by omega)).2 (by omega)))
  -- a tie: the rank rises by one, which the turn had lowered, and the spread falls
  have hrank := Chase.rank_of_mem_ties _ htie
  dsimp only at hrank
  exact Prod.Lex.toLex_lt_toLex'.2
    ⟨Int.toNat_le_toNat (by omega), fun _ => hf.spread_lt_of_tie ht hvis ht' htie⟩

/-! ### The run -/

/-- From any ship it keeps flying, the autopilot clears the course after finitely many turns. -/
theorem Flying.autopilot_clears (hf : s.Flying) :
    ∃ n s' m, s.autopilot n = .ok (s', m) ∧ s'.allClear = true ∧ s'.Flying := by
  induction s using (InvImage.wf progress wellFounded_lt).induction with
  | _ s ih =>
    cases hc : s.allClear
    · obtain ⟨t, ht⟩ := Chart.closest?_ne_none (p := s.pos) (hf.pending hc)
      obtain ⟨n, s', m, hrun, hclear, hf'⟩ := ih _ (hf.progress_lt ht) hf.press_steer
      refine ⟨n + 1, s', m + 1, ?_, hclear, hf'⟩
      simp [autopilot, hc, steerTo, ht, hrun, bind, Except.bind, pure, Except.pure]
    · exact ⟨1, s, 0, by simp [autopilot, hc], hc, hf⟩

/-- A course loaded into a ship at rest at the origin, with at least one target, is cleared by
the autopilot after finitely many turns, and no turn moves the ship faster than two along an
axis. -/
theorem autopilot_clears_course {text : String} {s : Ship} (hs : (atStart (0, 0)).load text = .ok s)
    (hne : s.chart.pending ≠ []) :
    ∃ n s' m, s.autopilot n = .ok (s', m) ∧ s'.allClear = true ∧
      ∀ v ∈ s'.velocities, -2 ≤ v.1 ∧ v.1 ≤ 2 ∧ -2 ≤ v.2 ∧ v.2 ≤ 2 := by
  obtain ⟨c, -, rfl⟩ := (load_eq_ok_iff _).1 hs
  have hf : Flying { atStart (0, 0) with chart := c, courseText := text } :=
    ⟨by norm_num [Slow, atStart], by simp [atStart], fun _ => hne⟩
  obtain ⟨n, s', m, hrun, hclear, hf'⟩ := hf.autopilot_clears
  exact ⟨n, s', m, hrun, hclear, hf'.recorded⟩

theorem autopilot_clears_one_target :
    ∃ s, (atStart (0, 0)).load "0 1" = .ok s ∧ s.chart.pending ≠ [] ∧
      ∃ n s' m, s.autopilot n = .ok (s', m) ∧ s'.allClear = true ∧
        ∀ v ∈ s'.velocities, -2 ≤ v.1 ∧ v.1 ≤ 2 ∧ -2 ≤ v.2 ∧ v.2 ≤ 2 := by
  have hload : (atStart (0, 0)).load "0 1" =
      .ok { atStart (0, 0) with chart := { pending := [(0, 1)] }, courseText := "0 1" } :=
    (load_eq_ok_iff _).2 ⟨_, Flight.ofText_zero_one, rfl⟩
  exact ⟨_, hload, List.cons_ne_nil _ _, autopilot_clears_course hload (List.cons_ne_nil _ _)⟩

end Ship

end Spaceship

end Interstellar
