import Interstellar.Program.Language
import Interstellar.Program.Repl
import Interstellar.Program.Pilot
import Interstellar.Program.Maze
import Interstellar.Program.Sketch

/-!
# The programs by name

Every program of the library under the name it is run by.
-/

namespace Interstellar

namespace Catalog

/-- The programs, each with its name. -/
def programs : List (String × Program) :=
  [("language", Language.program), ("codec", CodecTool.program), ("repl", Repl.program),
   ("pilot", Pilot.manual), ("autopilot", Pilot.auto), ("maze", Maze.program),
   ("primes", Sketch.primeBoards), ("nested", Sketch.nested), ("church", Sketch.churchNumeral)]

/-- The program of a name. -/
def find? (name : String) : Option Program := (programs.find? (·.1 == name)).map (·.2)

end Catalog

end Interstellar
