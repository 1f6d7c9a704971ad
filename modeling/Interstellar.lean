import Interstellar.Doc
import Interstellar.Value
import Interstellar.Term.Basic
import Interstellar.Text.Notation
import Interstellar.Term.Record
import Interstellar.Fault
import Interstellar.Numeral
import Interstellar.Letter
import Interstellar.Term.Token
import Interstellar.Term.Document
import Interstellar.Value.Arith
import Interstellar.Term.Subst
import Interstellar.Term.Reduce
import Interstellar.Target.Source
import Interstellar.Target.Eval
import Interstellar.Compact
import Interstellar.Builder
import Interstellar.Console
import Interstellar.Pack
import Interstellar.Client
import Interstellar.Lambdaman.Solution
import Interstellar.Text.Blank
import Interstellar.Text.Integer
import Interstellar.Text.Decimal
import Interstellar.Spaceship.Chart
import Interstellar.Spaceship.Ship
import Interstellar.Lambdaman.Heap
import Interstellar.Lambdaman.Grid
import Interstellar.Lambdaman.Score
import Interstellar.Lambdaman.Board
import Interstellar.Lambdaman.Search
import Interstellar.Lambdaman.Plan
import Interstellar.Lambdaman.Session
import Interstellar.Program.Options
import Interstellar.Program.Dot
import Interstellar.Text.Json
import Interstellar.Program.Shell
import Interstellar.Program.Language
import Interstellar.Program.Repl
import Interstellar.Program.Pilot
import Interstellar.Program.Maze
import Interstellar.Program.Sketch
import Interstellar.Program.Catalog
import Interstellar.Bench.Language
import Interstellar.Bench.Tools
import Interstellar.Bench.Courses
import Interstellar.Main
import Interstellar.Proofs.Text
import Interstellar.Proofs.Reduce
import Interstellar.Proofs.Scope
import Interstellar.Proofs.Closure
import Interstellar.Proofs.Compile
import Interstellar.Proofs.Division
import Interstellar.Proofs.Grammar
import Interstellar.Proofs.Pack
import Interstellar.Proofs.Walk
import Interstellar.Proofs.Flight
import Interstellar.Proofs.Heap
import Interstellar.Proofs.Frontier
import Interstellar.Proofs.Search
import Interstellar.Proofs.Solve
import Interstellar.Proofs.Codec
import Interstellar.Proofs.Loop
import Interstellar.Proofs.Spelling
import Interstellar.Proofs.Distance
import Interstellar.Proofs.Dijkstra
import Interstellar.Proofs.Wear
import Interstellar.Proofs.Route
import Interstellar.Proofs.Greedy
import Interstellar.Proofs.Printing
import Interstellar.Target.Literal
import Interstellar.Proofs.Quoting
import Interstellar.Proofs.Readable
import Interstellar.Proofs.Branch
import Interstellar.Proofs.Chase
import Interstellar.Proofs.Overtake
import Interstellar.Proofs.Autopilot
