import Interstellar.Program.Catalog
import Interstellar.Bench.Courses

/-!
# Workloads on the command-line programs

Workloads that run the programs of the catalog on inputs they build themselves, each sized by
one number:

* `Bench.codecSession n`: the codec tool encodes a text of `n` letters, decodes the token it
  printed, and is run once with no action; the answer is the length of all it printed;
* `Bench.pilotSession n`: the manual pilot flies the staircase course of `n` targets (see
  `Bench.staircase`), every move left to its suggestion, with its answers handed to it one by
  one so that no question is shown; the answer is the length of all it printed;
* `Bench.mazeSession w`: the lambdaman solver solves an open square board of side `w` and
  submits the moves, twice, then answers boards 6 and 9; the answer is the list of bodies
  posted. A board of side 1 has no edges, and solving it fails at once.
-/

namespace Interstellar

namespace Bench

/-- A program run on an input with the files of `disk`, the server answering every post with
`reply`. -/
def runWith (prog : Program) (argv : List String) (input : String)
    (disk : List (String × String)) (reply : String) (posts : Nat) : Except Stop Unit × Console :=
  Run.exec (prog argv)
    { input := input.toList, disk := disk, replies := List.replicate posts reply }

/-- A text of `n` letters, the alphabet over and over. -/
def letters (n : Nat) : String :=
  String.ofList ((List.range n).map fun i => Char.ofNat (97 + i % 26))

/-- The length of everything the codec tool prints while encoding a text of `n` letters,
decoding the token it printed and running with no action. -/
def codecSession (n : Nat) : Except Fault Doc := do
  let (r₁, c₁) := runWith CodecTool.program ["--encode"] (letters n ++ "\n") [] "" 0
  let _ ← match r₁ with
    | .error (.fault f) => Except.error f
    | _ => pure ()
  let token := (c₁.output.splitOn "\n").headD ""
  let (_, c₂) := runWith CodecTool.program ["--decode"] (token ++ "\n") [] "" 0
  let (_, c₃) := runWith CodecTool.program [] "" [] "" 0
  pure (.int (c₁.output.length + c₂.output.length + c₃.output.length))

/-- The length of everything the manual pilot prints, its questions not shown, while it flies
the staircase course of `n` targets from problem file 1 and takes every suggestion. It is
given one empty answer for each key the automatic pilot presses on that course, and one
more. -/
def pilotSession (n : Nat) : Except Fault Doc := do
  let course := courseText (staircase n)
  let ship ← (Spaceship.Ship.atStart (0, 0)).load course
  let (flown, _) ← ship.autopilot flightLimit
  let answers := "1\n" ++ String.join (List.replicate (flown.keys.size + 1) "\n")
  let (r, c) := Run.exec (Pilot.manual [])
    { input := answers.toList, disk := [("courses/spaceship/problems/1.txt", course)],
      echo := false }
  match r with
  | .error (.fault f) => .error f
  | _ => pure (.int c.output.length)

/-- The rows of an open square board of side `w`, the player in the top left corner. -/
def openBoard (w : Nat) : String :=
  String.join ((List.range w).map fun r =>
    String.ofList ((List.range w).map fun c => if r = 0 ∧ c = 0 then 'L' else '.') ++ "\n")

/-- The reply of the server to every submission: the string token of `ok`. -/
def acceptance : String := "SO%"

/-- The bodies posted while the solver submits an open board of side `w` twice and answers
boards 6 and 9. -/
def mazeSession (w : Nat) : Except Fault Doc := do
  let path := "lambdaman1.txt"
  let disk := [(path, openBoard w)]
  let runs := [[path, "--submit"], [path, "--display", "--submit"], ["lambdaman6.txt"],
    ["lambdaman9.txt"]]
  let posts ← runs.foldlM (fun (acc : List String) argv => do
    let (r, c) := runWith Maze.program argv "" disk acceptance 1
    match r with
    | .error (.fault f) => Except.error f
    | _ => pure (acc ++ c.posts.toList)) []
  pure (.arr (posts.map Doc.str))

end Bench

end Interstellar
