import Interstellar.Spaceship.Ship
import Mathlib.Data.List.Nodup

/-!
# The chart across a flight

A pilot presses keys and may load a new course at any time. What the chart holds is a function
of three things the ship does not keep: the targets the course was loaded with, where the ship
landed after each key accepted since, and whether the course was already marked clear when it
was loaded. `Flight` carries them beside the ship, and a call (`Call`) updates both.

* `Ship.press_of_accepts`, `Ship.press_of_not_accepts`: a key from 1 to 9 adds its keypad step
  to the velocity and then the velocity to the position; any other key changes nothing;
* `Flight.Consistent`: the pending targets are those loaded and not landed on; the visited
  targets are the ones landed on, each once, in the order of its first landing; the course is
  clear exactly when it was clear at loading, or a key was accepted since and nothing is
  pending;
* `Flight.consistent_run`: every call keeps it, from a ship just built on;
* `Flight.chart_after_calls`: what this says of the chart after any calls.

The clear mark is never taken back: a course loaded after another was cleared leaves the ship
clear with targets pending (`Flight.clear_survives_reload`).
-/

namespace Interstellar

namespace Spaceship

/-! ### Visits and key presses -/

namespace Chart

variable (c : Chart) (p : Point)

/-- Reaching `p` drops every pending copy of `p`, whether or not there was one. -/
theorem visit_pending : (c.visit p).pending = c.pending.filter (· ≠ p) := by
  unfold visit
  split
  · exact List.filter_congr fun q _ => by simp [bne, Bool.beq_eq_decide_eq]
  · rename_i h
    refine (List.filter_eq_self.2 fun q hq => ?_).symm
    simp only [decide_eq_true_eq]
    rintro rfl
    exact h (List.contains_iff_mem.2 hq)

theorem visit_visited :
    (c.visit p).visited = if p ∈ c.pending then c.visited.push p else c.visited := by
  unfold visit
  simp only [List.contains_iff_mem]
  split <;> rfl

/-- A course read from text has visited nothing. -/
theorem visited_ofText {text : String} {c : Chart} (h : ofText text = .ok c) : c.visited = #[] := by
  simp only [ofText, bind, Except.bind, pure, Except.pure] at h
  split at h
  · cases h
  · cases h; rfl

end Chart

namespace Ship

variable (s : Ship) {k : Int}

/-- An accepted key adds its keypad step to the velocity, moves the ship by the new velocity,
visits where it lands, and marks the course clear once nothing is pending. -/
theorem press_of_accepts (hk : 1 ≤ k ∧ k ≤ 9) :
    (s.press k).vel = (s.vel.1 + (keyDelta k).1, s.vel.2 + (keyDelta k).2) ∧
    (s.press k).pos = (s.pos.1 + (s.press k).vel.1, s.pos.2 + (s.press k).vel.2) ∧
    (s.press k).chart = s.chart.visit (s.press k).pos ∧
    (s.press k).allClear = (s.allClear || (s.press k).chart.pending.isEmpty) := by
  simp [press, hk]

/-- The keypad: `1` is down-left and `9` up-right, rows from the bottom. -/
example : (List.range 9).map (fun i => keyDelta (i + 1)) =
    [(-1, -1), (0, -1), (1, -1), (-1, 0), (0, 0), (1, 0), (-1, 1), (0, 1), (1, 1)] := by
  decide

theorem press_of_not_accepts (hk : ¬(1 ≤ k ∧ k ≤ 9)) : s.press k = s := by
  simp [press, hk]

/-- Loading a course replaces the chart by the course read, and keeps the rest. -/
theorem load_eq_ok_iff {text : String} {s' : Ship} :
    s.load text = .ok s' ↔ ∃ c, Chart.ofText text = .ok c ∧ s' = { s with chart := c, courseText := text } := by
  unfold load
  cases h : Chart.ofText text with
  | error e => simp [bind, Except.bind]
  | ok c => simp [bind, Except.bind, pure, Except.pure, eq_comm]

end Ship

/-! ### Flights -/

/-- A call a pilot makes on a ship: a key, or a course text to load. -/
inductive Call where
  | press (k : Int)
  | load (text : String)

/-- A ship with what its chart answers for since its course was last loaded: the targets of
that course, the position after each key accepted since, in order, and whether the ship was
already clear when the course was loaded. -/
structure Flight where
  ship : Ship
  targets : List Point
  landings : List Point
  clearAtLoad : Bool

namespace Flight

/-- The flight of a ship whose course has just been loaded: all of it is still to come. -/
def ofShip (s : Ship) : Flight := ⟨s, s.chart.pending, [], s.allClear⟩

/-- The flight of a ship just built at `start`, with the course it is built with. -/
def begin (start : Point) : Flight := ofShip (Ship.atStart start)

/-- Make one call. A course text that cannot be read stops the flight with its fault. -/
def call (f : Flight) : Call → Except Fault Flight
  | .press k =>
    .ok { f with ship := f.ship.press k,
                 landings := if 1 ≤ k ∧ k ≤ 9 then f.landings ++ [(f.ship.press k).pos]
                   else f.landings }
  | .load text => ofShip <$> f.ship.load text

/-- Make the calls in turn. -/
def run (f : Flight) : List Call → Except Fault Flight
  | [] => .ok f
  | c :: cs => (f.call c).bind fun f' => f'.run cs

/-- What the chart keeps of the course last loaded. -/
structure Consistent (f : Flight) : Prop where
  /-- The targets not landed on are pending, in course order and with repeats. -/
  pending : f.ship.chart.pending = f.targets.filter (· ∉ f.landings)
  /-- The targets landed on are visited, each once, in the order of its first landing. -/
  visited : f.ship.chart.visited.toList = (f.landings.filter (· ∈ f.targets)).eraseDups
  /-- The course is clear when it was clear at loading, or when a key was accepted since and
  nothing is pending. -/
  allClear : f.ship.allClear =
    (f.clearAtLoad || (!f.landings.isEmpty && f.ship.chart.pending.isEmpty))

/-- A course just loaded is consistent, whatever came before. -/
theorem consistent_ofShip {s : Ship} (hs : s.chart.visited = #[]) : (ofShip s).Consistent where
  pending := (List.filter_eq_self.2 fun _ _ => by simp [ofShip]).symm
  visited := by simp [ofShip, hs]
  allClear := by simp [ofShip]

theorem consistent_begin (start : Point) : (begin start).Consistent := by
  refine consistent_ofShip ?_
  simp only [Ship.atStart]
  cases h : Chart.ofText Chart.builtInText with
  | error => rfl
  | ok c => simp [Except.toOption, Chart.visited_ofText h]

/-- The visited targets after one more landing at `p`: `p` is added when it was pending. -/
theorem eraseDups_landings_snoc {targets landings : List Point} {p : Point} :
    ((landings ++ [p]).filter (· ∈ targets)).eraseDups =
      (landings.filter (· ∈ targets)).eraseDups ++
        if p ∈ targets.filter (· ∉ landings) then [p] else [] := by
  rw [List.filter_append, List.eraseDups_append]
  by_cases ht : p ∈ targets <;> by_cases hl : p ∈ landings <;>
    simp [ht, hl, List.removeAll, List.eraseDups_cons]

theorem Consistent.press {f : Flight} (hf : f.Consistent) (k : Int) :
    Consistent { f with ship := f.ship.press k,
                        landings := if 1 ≤ k ∧ k ≤ 9 then f.landings ++ [(f.ship.press k).pos]
                          else f.landings } := by
  by_cases hk : 1 ≤ k ∧ k ≤ 9
  · obtain ⟨-, -, hchart, hclear⟩ := f.ship.press_of_accepts hk
    set p := (f.ship.press k).pos
    have hpending : (f.ship.press k).chart.pending = f.targets.filter (· ∉ f.landings ++ [p]) := by
      rw [hchart, Chart.visit_pending, hf.pending, List.filter_filter]
      congr 1
      funext t
      simp [Bool.and_comm]
    refine ⟨by simpa [hk] using hpending, ?_, ?_⟩
    · simp only [hk, and_self, ite_true]
      rw [eraseDups_landings_snoc, ← hf.pending, hchart, Chart.visit_visited]
      split <;> simp [hf.visited]
    · -- pending only shrinks, so a course that was clear stays clear
      have hsub : f.ship.chart.pending = [] → (f.ship.press k).chart.pending = [] := by
        intro h
        rw [hchart, Chart.visit_pending, h, List.filter_nil]
      have hne : (f.landings ++ [p]).isEmpty = false := by simp
      simp only [hk, and_self, ite_true, hclear, hf.allClear, hne]
      by_cases he : f.ship.chart.pending = []
      · simp [he, hsub he]
      · have he' : f.ship.chart.pending.isEmpty = false := by simpa using he
        simp [he']
  · rw [Ship.press_of_not_accepts _ hk]
    simpa [hk] using hf

theorem consistent_load {f f' : Flight} {text : String} (h : f.call (.load text) = .ok f') :
    f'.Consistent := by
  simp only [call, Functor.map, Except.map] at h
  split at h
  · cases h
  · rename_i s hs
    cases h
    obtain ⟨c, hc, rfl⟩ := (Ship.load_eq_ok_iff f.ship).1 hs
    exact consistent_ofShip (Chart.visited_ofText hc)

theorem Consistent.call {f f' : Flight} (hf : f.Consistent) {c : Call} (h : f.call c = .ok f') :
    f'.Consistent := by
  cases c with
  | press k =>
    cases h
    exact hf.press k
  | load text => exact consistent_load h

/-- Every run of calls keeps the chart consistent. -/
theorem consistent_run {f f' : Flight} (hf : f.Consistent) {calls : List Call}
    (h : f.run calls = .ok f') : f'.Consistent := by
  induction calls generalizing f with
  | nil => cases h; exact hf
  | cons c cs ih =>
    simp only [run, Except.bind] at h
    split at h
    · cases h
    · rename_i f₁ h₁
      exact ih (hf.call h₁) h

/-- `eraseDups` keeps one copy of each member. -/
theorem nodup_eraseDups : ∀ l : List Point, l.eraseDups.Nodup
  | [] => List.nodup_nil
  | a :: as => by
    rw [List.eraseDups_cons]
    refine List.nodup_cons.2 ⟨fun h => ?_, nodup_eraseDups _⟩
    simpa using List.mem_filter.1 (List.mem_eraseDups.1 h)
termination_by l => l.length
decreasing_by exact Nat.lt_succ_of_le (List.length_filter_le _ _)

section Consistent

variable {f : Flight} (hf : f.Consistent)
include hf

theorem mem_visited_iff {t : Point} : t ∈ f.ship.chart.visited ↔ t ∈ f.targets ∧ t ∈ f.landings := by
  rw [← Array.mem_toList_iff, hf.visited, List.mem_eraseDups, List.mem_filter, decide_eq_true_eq,
    and_comm]

theorem mem_pending_iff {t : Point} : t ∈ f.ship.chart.pending ↔ t ∈ f.targets ∧ t ∉ f.landings := by
  rw [hf.pending, List.mem_filter, decide_eq_true_eq]

end Consistent

/-- After any calls on a ship just built, of the course last loaded: the pending and the
visited targets are apart and make up the course; the visited ones are the targets landed on
since, each once, in the order of its first landing; every accepted key adds its keypad step to
the velocity and then the velocity to the position, and every other key changes nothing; and
the ship is clear exactly when it was clear at loading, or a key was accepted since and nothing
is pending. -/
theorem chart_after_calls (start : Point) (calls : List Call) {f : Flight}
    (h : (begin start).run calls = .ok f) :
    (∀ t, t ∈ f.targets ↔ t ∈ f.ship.chart.pending ∨ t ∈ f.ship.chart.visited) ∧
    (∀ t ∈ f.ship.chart.pending, t ∉ f.ship.chart.visited) ∧
    f.ship.chart.visited.toList.Nodup ∧
    f.ship.chart.visited.toList = (f.landings.filter (· ∈ f.targets)).eraseDups ∧
    (∀ t ∈ f.targets, t ∈ f.ship.chart.visited ↔ t ∈ f.landings) ∧
    (∀ k, 1 ≤ k ∧ k ≤ 9 →
      (f.ship.press k).vel = (f.ship.vel.1 + (keyDelta k).1, f.ship.vel.2 + (keyDelta k).2) ∧
      (f.ship.press k).pos =
        (f.ship.pos.1 + (f.ship.press k).vel.1, f.ship.pos.2 + (f.ship.press k).vel.2)) ∧
    (∀ k, ¬(1 ≤ k ∧ k ≤ 9) → f.ship.press k = f.ship) ∧
    f.ship.allClear = (f.clearAtLoad || (!f.landings.isEmpty && f.ship.chart.pending.isEmpty)) := by
  have hf := consistent_run (consistent_begin start) h
  refine ⟨fun t => ?_, fun t ht hv => ?_, hf.visited ▸ nodup_eraseDups _, hf.visited,
    fun t ht => ?_, fun k hk => ?_, fun k hk => f.ship.press_of_not_accepts hk, hf.allClear⟩
  · rw [mem_pending_iff hf, mem_visited_iff hf]
    tauto
  · exact ((mem_pending_iff hf).1 ht).2 ((mem_visited_iff hf).1 hv).2
  · rw [mem_visited_iff hf]
    exact and_iff_right ht
  · obtain ⟨hv, hp, -⟩ := f.ship.press_of_accepts hk
    exact ⟨hv, hp⟩

/-- The course of one target at `(0, 1)`. -/
theorem ofText_zero_one : Chart.ofText "0 1" = .ok { pending := [(0, 1)] } := by
  have hsplit : "0 1".splitOn " " = ["0", "1"] := by
    simp only [String.splitOn]
    repeat (rw [String.splitOnAux]; simp +decide only [↓reduceIte])
  have htrim : Blank.trim "0 1" = "0 1" := by decide
  have hlines : Blank.lines "0 1" = ["0 1"] := by decide
  simp [Chart.ofText, htrim, hlines, pointOfLine, hsplit, show Integer.read "0" = .ok 0 from rfl,
    show Integer.read "1" = .ok 1 from rfl, bind, Except.bind, pure, Except.pure]

/-- The course of one target at `(0, 1)`, a key outside the keypad, and a key that lands on the
target. -/
theorem chart_after_calls_one_target :
    ∃ f, (begin (0, 0)).run [.load "0 1", .press 0, .press 8] = .ok f ∧
    (∀ t, t ∈ f.targets ↔ t ∈ f.ship.chart.pending ∨ t ∈ f.ship.chart.visited) ∧
    (∀ t ∈ f.ship.chart.pending, t ∉ f.ship.chart.visited) ∧
    f.ship.chart.visited.toList.Nodup ∧
    f.ship.chart.visited.toList = (f.landings.filter (· ∈ f.targets)).eraseDups ∧
    (∀ t ∈ f.targets, t ∈ f.ship.chart.visited ↔ t ∈ f.landings) ∧
    (∀ k, 1 ≤ k ∧ k ≤ 9 →
      (f.ship.press k).vel = (f.ship.vel.1 + (keyDelta k).1, f.ship.vel.2 + (keyDelta k).2) ∧
      (f.ship.press k).pos =
        (f.ship.pos.1 + (f.ship.press k).vel.1, f.ship.pos.2 + (f.ship.press k).vel.2)) ∧
    (∀ k, ¬(1 ≤ k ∧ k ≤ 9) → f.ship.press k = f.ship) ∧
    f.ship.allClear = (f.clearAtLoad || (!f.landings.isEmpty && f.ship.chart.pending.isEmpty)) := by
  obtain ⟨f, hf⟩ : ∃ f, (begin (0, 0)).run [.load "0 1", .press 0, .press 8] = .ok f := by
    simp [run, call, Ship.load, ofText_zero_one, bind, Except.bind, pure, Except.pure,
      Functor.map, Except.map]
  exact ⟨f, hf, chart_after_calls (0, 0) _ hf⟩

/-- A course cleared and then loaded again: the ship stays clear while the target is pending
once more. -/
theorem clear_survives_reload :
    ∃ f, (begin (0, 0)).run [.load "0 1", .press 8, .load "0 1"] = .ok f ∧
      f.ship.allClear = true ∧ f.ship.chart.pending = [(0, 1)] := by
  simp [run, call, Ship.load, ofText_zero_one, bind, Except.bind, pure, Except.pure,
    Functor.map, Except.map, Ship.press, begin, ofShip, Ship.atStart, keyDelta, Chart.visit]

end Flight

end Spaceship

end Interstellar
