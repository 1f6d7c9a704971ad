import Interstellar.Program.Options
import Interstellar.Client

/-!
# Programs

A program runs on a console with the words of its command line. This module holds what the
programs share:

* `Program.options spec argv`: read the command line; help is printed and ends the run with
  status 0, a mistake is printed to the error stream and ends it with status 2;
* `Program.printed v`: a value as printing shows it: text as it is, integers in decimal,
  booleans as `True` and `False`.
-/

namespace Interstellar

/-- A program: what it does with the words of its command line. -/
abbrev Program := List String → Run Unit

namespace Program

/-- Read the command line, or end the run with help or a mistake. -/
def options (spec : Options.Spec) (argv : List String) : Run Options.Args :=
  match Options.read spec argv with
  | .ok args => pure args
  | .help text => do Run.write text; Run.exit 0
  | .error text => do
    modify fun c => { c with errors := c.errors ++ text }
    Run.exit 2

/-- A value as printing shows it. -/
def printed : Outcome → String
  | .str s => s
  | .int n => toString n
  | .bool b => Notation.bool b
  | .fn _ => "<function <lambda>>"

/-- Print a value on a line. -/
def sayValue (v : Outcome) : Run Unit := Run.say (printed v)

end Program

end Interstellar
