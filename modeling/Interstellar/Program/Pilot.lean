import Interstellar.Program.Shell
import Interstellar.Spaceship.Ship

/-!
# Flying the spaceship

Two programs fly a ship from the origin.

`Pilot.manual` asks for a problem number; a number other than zero loads the course
`courses/spaceship/problems/<number>.txt`, zero keeps the built-in course. Then, turn after
turn, it shows the position and the closest target, suggests a key, and reads one:

* `quit` (in any case) prints the keys pressed so far as a list and stops;
* an empty line takes the suggestion, and so does `0`;
* a key from 1 to 9 is pressed; after it either the course is clear (the keys are printed and
  the program stops) or the ship and chart report their state;
* anything else is refused with a message, and the turn is asked again.

`Pilot.auto` asks for a game number from 1 to 25, fetches that course from the server, flies
it by always steering toward the closest target, prints a dot per turn and the keys, and
submits them. A number out of range, text that is not a number, and any failure of the same
class while fetching or loading are reported, and it asks again.
-/

namespace Interstellar

namespace Pilot

open Spaceship

/-- The refusal of an input that is no key. -/
def refusal : String := "Invalid input. Please us an integer between 0 and 9."

/-- A point as the pilot sees it. -/
def pointText (p : Point) : String := "(" ++ toString p.1 ++ ", " ++ toString p.2 ++ ")"

/-- The keys pressed, as a list. -/
def keyList (s : Ship) : String := "[" ++ ", ".intercalate (s.keys.toList.map toString) ++ "]"

/-- One turn of the manual flight: `none` to go on with the new ship, `some ()` when done. -/
def manualTurn (s : Ship) : Run (Option Ship) := do
  let closest := s.chart.closest? s.pos
  Run.say ("Current: " ++ pointText s.pos ++ ", Closest: " ++
    (match closest with
     | some p => pointText p
     | none => "None"))
  let suggested ← Run.lift (s.steerTo closest)
  Run.say ("Suggested " ++ toString suggested)
  let input ← Run.readLine
    "Enter your velocity as a number key (or 'quit' to exit) (0 for the suggested move): "
  if input.toLower == "quit" then
    Run.say "Key history:"
    Run.say (keyList s)
    Run.say ""
    pure none
  else
    let given := if input.isEmpty then toString suggested else input
    Run.say given
    match Integer.read given with
    | .error f => do
      Run.say refusal
      Run.say (f.message.getD "")
      pure (some s)
    | .ok k =>
      if 0 ≤ k ∧ k ≤ 9 then
        let s' := s.press (if k = 0 then suggested else k)
        if s'.allClear then
          Run.say "Success!"
          Run.say "Key history:"
          Run.say s'.keyString
          pure none
        else
          Run.write s'.statusText
          Run.write s'.chart.statusText
          pure (some s')
      else
        Run.say refusal
        Run.say ""
        pure (some s)

/-- Turns of the manual flight, at most `fuel` of them. -/
def manualFrom : Nat → Ship → Run Unit
  | 0, _ => pure ()
  | fuel + 1, s => do
    match ← manualTurn s with
    | some s' => manualFrom fuel s'
    | none => pure ()

/-- The manual flight. -/
def manual : Program := fun _ => do
  Run.say "Starting position and velocity: (0, 0)"
  let problem ← Run.readLine "what problem?"
  let n ← Run.lift (Integer.read problem)
  let ship0 := Ship.atStart (0, 0)
  let ship ← if n ≠ 0 then do
      let text ← Run.readFile ("./courses/spaceship/problems/" ++ problem ++ ".txt")
      Run.lift (ship0.load text)
    else pure ship0
  manualFrom ((← get).input.length + 1) ship

/-- The most turns an automatic flight takes. -/
def turnLimit : Nat := 1000000

/-- Automatic turns until the course is clear, at most `fuel` of them, printing a dot for each
and the velocity of an axis when it is above three. -/
def autoFrom : Nat → Ship → Run Ship
  | 0, s => pure s
  | fuel + 1, s => do
    if s.allClear then pure s
    else
      Run.write "."
      if s.vel.1.natAbs > 3 then Run.write ("VX" ++ toString s.vel.1)
      if s.vel.2.natAbs > 3 then Run.write ("VY" ++ toString s.vel.2)
      let k ← Run.lift (s.steerTo (s.chart.closest? s.pos))
      autoFrom fuel (s.press k)

/-- Fetch, fly and submit game `n`. -/
def flyGame (n : Int) : Run Unit := do
  let course ← Client.call ("get spaceship" ++ toString n)
  let text ← match course with
    | .str t => pure (Blank.trim t)
    | v => Run.fail (.noAttribute v.typeName "strip")
  let ship ← Run.lift ((Ship.atStart (0, 0)).load text)
  Run.write "Move:"
  let ship ← autoFrom turnLimit ship
  Run.say ""
  Run.say ("Key history for " ++ toString n ++ ":")
  Run.say ship.keyString
  Run.say ""
  Run.say "Submitting"
  Program.sayValue (← Client.call ("solve spaceship" ++ toString n ++ " " ++ ship.keyString))

/-- One request of the automatic flight; a failure of the class of refused values is reported,
any other ends the run. -/
def autoRound : Run Unit := do
  match ← Run.attempt (do
      let n ← Run.lift (Integer.read (← Run.readLine "Enter which game to fetch: "))
      if 1 ≤ n ∧ n ≤ 25 then flyGame n else Run.fail .refused) with
  | .ok () => pure ()
  | .error f =>
    if f.kind == "ValueError" then
      Run.say refusal
      Run.say (f.message.getD "")
    else Run.fail f

/-- Requests of the automatic flight, at most `fuel` of them. -/
def autoLoop : Nat → Run Unit
  | 0 => pure ()
  | fuel + 1 => do
    autoRound
    autoLoop fuel

/-- The automatic flight. -/
def auto : Program := fun _ => do
  autoLoop ((← get).input.length + 1)

end Pilot

end Interstellar
