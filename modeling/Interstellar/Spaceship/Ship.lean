import Interstellar.Spaceship.Chart

/-!
# The spaceship

A ship moves on the integer plane. Each turn a key of the numeric keypad changes its velocity
by one step in each axis (`1` is down-left, `5` keeps the velocity, `9` is up-right), and then
the ship moves by its new velocity. Reaching a target of its chart visits it, and once no
target is pending the course is clear.

* `Ship.press k`: one turn with key `k`; keys outside `1..9` are ignored;
* `Ship.steer dest`: the key that brings the next position closer to `dest` in each axis,
  unless the ship is already moving that way at speed two or more;
* `Ship.autopilot n`: at most `n` turns, each steering toward the closest pending target,
  until the course is clear.

The reports (`statusText` and the others) are the texts a pilot is shown.
-/

namespace Interstellar

namespace Spaceship

/-- The velocity change of a keypad key. -/
def keyDelta (k : Int) : Point :=
  ((k - 1) % 3 - 1, (k - 1) / 3 - 1)

/-- A ship: where it is, how it moves, its history, and its course. -/
structure Ship where
  pos : Point := (0, 0)
  vel : Point := (0, 0)
  /-- Every velocity after a turn, in order. -/
  velocities : Array Point := #[]
  /-- Every displacement, in order. -/
  moves : Array Point := #[]
  /-- The keys pressed, in order. -/
  keys : Array Int := #[]
  chart : Chart := {}
  /-- The course text last loaded. -/
  courseText : String := ""
  /-- Whether the course has been cleared; it stays set once it is. -/
  allClear : Bool := false
  deriving Inhabited

namespace Ship

/-- Load a course, replacing the chart; whether the course was cleared stays as it was. -/
def load (s : Ship) (text : String) : Except Fault Ship := do
  let chart ← Chart.ofText text
  pure { s with chart := chart, courseText := text }

/-- A ship at `start` with the built-in course. -/
def atStart (start : Point) : Ship :=
  { pos := start, courseText := Chart.builtInText,
    chart := (Chart.ofText Chart.builtInText).toOption.getD {} }

/-- One turn with key `k`. -/
def press (s : Ship) (k : Int) : Ship :=
  if 1 ≤ k ∧ k ≤ 9 then
    let d := keyDelta k
    let vel := (s.vel.1 + d.1, s.vel.2 + d.2)
    let pos := (s.pos.1 + vel.1, s.pos.2 + vel.2)
    let chart := s.chart.visit pos
    { s with pos := pos, vel := vel, velocities := s.velocities.push vel,
             moves := s.moves.push vel, keys := s.keys.push k, chart := chart,
             allClear := s.allClear || chart.pending.isEmpty }
  else s

/-- The position after one more turn at the present velocity. -/
def drift (s : Ship) : Point := (s.pos.1 + s.vel.1, s.pos.2 + s.vel.2)

/-- The keypad column (`0` left, `1` middle, `2` right) or row (`0` down, `1` level, `2` up)
that steers one axis from `next` toward `dest` at speed `v`. -/
def axisChoice (dest next v : Int) : Int :=
  if dest < next ∧ v > -2 then 0 else if dest > next ∧ v < 2 then 2 else 1

/-- The key that steers toward `dest`. -/
def steer (s : Ship) (dest : Point) : Int :=
  let next := s.drift
  axisChoice dest.2 next.2 s.vel.2 * 3 + axisChoice dest.1 next.1 s.vel.1 + 1

/-- The key that steers toward a target that may be missing. -/
def steerTo (s : Ship) : Option Point → Except Fault Int
  | some p => .ok (s.steer p)
  | none => .error (.notSubscriptable "NoneType")

/-- At most `n` turns toward the closest pending target, until the course is clear; also the
number of turns taken. -/
def autopilot (s : Ship) : Nat → Except Fault (Ship × Nat)
  | 0 => .ok (s, 0)
  | n + 1 =>
    if s.allClear then .ok (s, 0)
    else do
      let k ← s.steerTo (s.chart.closest? s.pos)
      let (s', m) ← (s.press k).autopilot n
      pure (s', m + 1)

/-- A point as reports write it. -/
def pointText (p : Point) : String := "(" ++ toString p.1 ++ ", " ++ toString p.2 ++ ")"

/-- A velocity as reports write it. -/
def velocityText (v : Point) : String := "[" ++ toString v.1 ++ ", " ++ toString v.2 ++ "]"

/-- Position, velocity and the position after one more turn at that velocity. -/
def statusText (s : Ship) : String :=
  "Current pos: (" ++ toString s.pos.1 ++ ", " ++ toString s.pos.2 ++ ") Current vel: (" ++
    velocityText s.vel ++ ") Next Neutral Pos: (" ++ pointText s.drift ++ ")\n"

/-- The position. -/
def positionText (s : Ship) : String :=
  "Current position: (" ++ toString s.pos.1 ++ ", " ++ toString s.pos.2 ++ ")\n"

/-- The velocity. -/
def speedText (s : Ship) : String := "Current veloci: (" ++ velocityText s.vel ++ ")\n"

/-- A numbered list of displacements under a title, ended by an empty line. -/
def historyText (title label : String) (ds : Array Point) : String :=
  let (_, body) := ds.foldl (fun (i, acc) d =>
    (i + 1, acc ++ label ++ " " ++ toString i ++ ": dx=" ++ toString d.1 ++ ", dy=" ++
      toString d.2 ++ "\n")) ((1 : Nat), "")
  title ++ "\n" ++ body ++ "\n"

/-- The velocities after each turn. -/
def velocityHistoryText (s : Ship) : String :=
  historyText "Velocity history:" "Velocity" s.velocities

/-- The displacements of each turn. -/
def moveHistoryText (s : Ship) : String := historyText "Move history:" "Move" s.moves

/-- The keys pressed, as one string of digits. -/
def keyString (s : Ship) : String := String.join (s.keys.toList.map toString)

end Ship

end Spaceship

end Interstellar
