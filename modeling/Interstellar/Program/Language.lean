import Interstellar.Program.Shell
import Interstellar.Program.Dot
import Interstellar.Text.Json
import Interstellar.Term.Document
import Interstellar.Compact

/-!
# The language tool

A command-line tool over program text. It reads one line of program text and, by the first
of its flags that is given in this order:

* `--interp`: reduces it and prints the value, or with `--encode` the token text of the whole
  result; a result that is an abstraction or a variable has no value to print;
* `--compile`: prints the compiled text followed by `()`;
* `--eval`: prints what the compiled text computes;
* `--encode`: prints the line itself as a string token;
* `--parse`: prints the syntax tree as JSON text;
* `--graph`: prints a link to an online viewer of the tree drawn as a graph, and stops with
  status 0.

With none of them it prints `Please specify action` and stops with status 1. `--debug` is
accepted and changes nothing.

In the drawing every node has a label (`Binary: +`, `Integer: 2`, `String: "…"`, `If`, …) and an
edge to each operand, in order; the nodes are named by distinct fifteen-digit numbers taken
in the order the nodes are first reached.
-/

namespace Interstellar

namespace Language

/-- The command line of the tool. -/
def spec : Options.Spec :=
  { prog := "icfp_interp.py",
    params := ["encode", "parse", "interp", "debug", "compile", "eval", "graph"].map
      (Options.Param.flag · "") }

/-- The name of the `k`-th node of a drawing. -/
def nodeName (k : Nat) : String := toString (100000000000000 + k)

/-- The label of a literal node. -/
def literalLabel (k : Kind) (v : Scalar) : String :=
  match k with
  | .string => "String: \"" ++ v.text ++ "\""
  | .integer => "Integer: " ++ v.text
  | .boolean => "Boolean: " ++ v.text

/-- The statements that draw a tree whose root is named `nodeName next`, and the first number
after those its nodes took. -/
def drawFrom (t : Term) (next : Nat) : Except Fault (List String × Nat) :=
  let me := nodeName next
  match t with
  | .lit k v => .ok ([Dot.node me (literalLabel k v)], next + 1)
  | .unary op a => do
    let (la, n1) ← drawFrom a (next + 1)
    .ok ([Dot.node me ("Unary: " ++ op)] ++ la ++ [Dot.edge me (nodeName (next + 1))], n1)
  | .binary op a b => do
    let (la, n1) ← drawFrom a (next + 1)
    let (lb, n2) ← drawFrom b n1
    .ok ([Dot.node me ("Binary: " ++ op)] ++ la ++ lb ++
      [Dot.edge me (nodeName (next + 1)), Dot.edge me (nodeName n1)], n2)
  | .lam x b => do
    let (lb, n1) ← drawFrom b (next + 1)
    .ok ([Dot.node me ("Lambda: " ++ toString x)] ++ lb ++ [Dot.edge me (nodeName (next + 1))], n1)
  | .var x => .ok ([Dot.node me ("Var: " ++ toString x)], next + 1)
  | .cond c a b => do
    let (lc, n1) ← drawFrom c (next + 1)
    let (la, n2) ← drawFrom a n1
    let (lb, n3) ← drawFrom b n2
    .ok ([Dot.node me "If"] ++ lc ++ la ++ lb ++
      [Dot.edge me (nodeName (next + 1)), Dot.edge me (nodeName n1), Dot.edge me (nodeName n2)], n3)
  | .raw d => .error d.nodeFault

/-- The link to a drawing of a tree. -/
def drawingLink (t : Term) : Except Fault String := do
  let (stmts, _) ← drawFrom t 0
  pure ("https://dreampuf.github.io/GraphvizOnline/#" ++ Dot.percentEncode (Dot.digraph stmts))

/-- The tool. -/
def program : Program := fun argv => do
  let args ← Program.options spec argv
  if args.has "interp" then
    let t ← Run.lift (Term.ofText (← Run.readLine))
    let r ← Run.lift t.reduce
    if args.has "encode" then Run.say (← Run.lift r.encode)
    else
      match r with
      | .lit _ v => Run.say v.text
      | _ => Run.fail (.missing (.text "value"))
  else if args.has "compile" then
    let t ← Run.lift (Term.ofText (← Run.readLine))
    Run.say ((← Run.lift t.compile) ++ "()")
  else if args.has "eval" then
    let t ← Run.lift (Term.ofText (← Run.readLine))
    Program.sayValue (← Run.lift t.run)
  else if args.has "encode" then
    Run.say (← Run.lift (Pack.stringToken (← Run.readLine)))
  else if args.has "parse" then
    let t ← Run.lift (Term.ofText (← Run.readLine))
    Run.say (Json.text t.toDoc)
  else if args.has "graph" then
    let t ← Run.lift (Term.ofText (← Run.readLine))
    Run.say (← Run.lift (drawingLink t))
    Run.exit 0
  else
    Run.say "Please specify action"
    Run.exit 1

end Language

namespace CodecTool

/-- The command line of the compact codec tool. -/
def spec : Options.Spec :=
  { prog := "icfp_parser.py", params := ["encode", "decode"].map (Options.Param.flag · "") }

/-- The compact codec tool: `--encode` prints a line as a string token, `--decode` reads a
line as one compact token and prints what it reads; with neither it stops with status 1. -/
def program : Program := fun argv => do
  let args ← Program.options spec argv
  if args.has "encode" then
    Run.say (← Run.lift (Compact.encodePlain (.str (← Run.readLine))))
  else if args.has "decode" then
    Run.say (← Run.lift (Compact.decode (← Run.readLine))).show
  else
    Run.say "Please specify --encode or --decode"
    Run.exit 1

end CodecTool

end Interstellar
