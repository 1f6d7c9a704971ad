import Interstellar.Fault

/-!
# Runs of a program

A program run reads text and keys from its input, prints to its output and error streams,
posts messages to the contest server and writes files. `Console` is all of that as a value:
the input still to be read, the text printed so far, the replies the server will give, the
bodies posted and the files written. `Run` is a computation over a console that can stop
with a fault or exit with a status code; the console keeps everything done before it
stopped.

* `Run.say`, `Run.write`: print a line, or text without a line break;
* `Run.readLine prompt`: print the prompt (unless the console does not echo prompts) and read
  one line (without its line feed); reading at the end of the input is `Fault.endOfInput`;
* `Run.readKey`: read one character; at the end of the input `Fault.endOfKeys`;
* `Run.post body`: record the body and take the server's next reply; with none left,
  `Fault.noReply`;
* `Run.readFile path`: the text of a file, written during the run or present before it, with
  every carriage return (alone or before a line feed) read as a line feed;
* `Run.attempt`: run a computation and catch its fault, as a handler of errors does (an exit
  is not caught).

Paths are relative to the working directory; `Run.normalPath` puts them in one form, without
`.` components.
-/

namespace Interstellar

/-- Everything a program run reads and leaves behind. -/
structure Console where
  /-- The input still to be read. -/
  input : List Char
  /-- The text printed to the output. -/
  output : String := ""
  /-- The text printed to the error stream. -/
  errors : String := ""
  /-- The replies the server will give, in order. -/
  replies : List String := []
  /-- The bodies posted to the server, in order. -/
  posts : Array String := #[]
  /-- The files written, each with its last text, in order of first writing. -/
  files : Array (String × String) := #[]
  /-- The files present before the run, each with its text. -/
  disk : List (String × String) := []
  /-- Whether reading a line prints its prompt. A terminal shows prompts; a caller that hands
  the program its answers one by one does not. -/
  echo : Bool := true
  deriving Inhabited

/-- Why a run stopped early. -/
inductive Stop where
  | fault (f : Fault)
  | exit (code : Nat)
  deriving Inhabited

/-- A computation over a console. -/
abbrev Run := EStateM Stop Console

namespace Run

/-- Stop with a fault. -/
def fail {α : Type} (f : Fault) : Run α := throw (.fault f)

/-- Stop with an exit status. -/
def exit {α : Type} (code : Nat) : Run α := throw (.exit code)

/-- A computation that may fail, lifted into a run. -/
def lift {α : Type} : Except Fault α → Run α
  | .ok a => pure a
  | .error f => fail f

/-- Print text without a line break. -/
def write (s : String) : Run Unit := modify fun c => { c with output := c.output ++ s }

/-- Print a line. -/
def say (s : String) : Run Unit := write (s ++ "\n")

/-- Print a line to the error stream. -/
def sayError (s : String) : Run Unit := modify fun c => { c with errors := c.errors ++ s ++ "\n" }

/-- Print `prompt` (when the console echoes prompts) and read one line of input, without its
line feed. -/
def readLine (prompt : String := "") : Run String := do
  if (← get).echo then write prompt
  let c ← get
  match c.input with
  | [] => fail .endOfInput
  | cs =>
    let line := cs.takeWhile (· != '\n')
    set { c with input := (cs.dropWhile (· != '\n')).drop 1 }
    pure (String.ofList line)

/-- Read one character of input. -/
def readKey : Run Char := do
  let c ← get
  match c.input with
  | [] => fail .endOfKeys
  | k :: rest =>
    set { c with input := rest }
    pure k

/-- Post a message to the server and take its reply. -/
def post (body : String) : Run String := do
  modify fun c => { c with posts := c.posts.push body }
  let c ← get
  match c.replies with
  | [] => fail .noReply
  | r :: rest =>
    set { c with replies := rest }
    pure r

/-- Write a file, replacing what it held. -/
def writeFile (path text : String) : Run Unit :=
  modify fun c =>
    if c.files.any (·.1 == path) then
      { c with files := c.files.map fun (p, t) => if p == path then (p, text) else (p, t) }
    else { c with files := c.files.push (path, text) }

/-- A path without empty or `.` components, and with `..` taken back where it can be. -/
def normalPath (path : String) : String :=
  let parts := (path.splitOn "/").foldl (fun acc part =>
    if part == "" || part == "." then acc
    else if part == ".." then
      match acc with
      | [] => [".."]
      | p :: rest => if p == ".." then ".." :: acc else rest
    else part :: acc) []
  "/".intercalate parts.reverse

/-- The text of a file, as last written or as present before the run. -/
def fileText? (c : Console) (path : String) : Option String :=
  let p := normalPath path
  match c.files.toList.reverse.find? (normalPath ·.1 == p) with
  | some (_, t) => some t
  | none => (c.disk.find? (normalPath ·.1 == p)).map (·.2)

/-- Whether a path names a directory: some file lies below it. -/
def isDirectory (c : Console) (path : String) : Bool :=
  let p := normalPath path ++ "/"
  p == "/" || c.disk.any (fun f => (normalPath f.1).startsWith p) ||
    c.files.any (fun f => (normalPath f.1).startsWith p)

/-- Line ends read as line feeds: a carriage return before a line feed is dropped, and one
alone becomes a line feed. -/
def readLineEnds (s : String) : String :=
  String.ofList (go s.toList)
where
  go : List Char → List Char
    | '\r' :: '\n' :: rest => '\n' :: go rest
    | '\r' :: rest => '\n' :: go rest
    | c :: rest => c :: go rest
    | [] => []

/-- Read a whole file in text mode. -/
def readFile (path : String) : Run String := do
  let c ← get
  match fileText? c path with
  | some t => pure (readLineEnds t)
  | none => if isDirectory c path then fail (.isDirectory path) else fail (.noFile path)

/-- Run `x`, catching its fault; an exit is not caught. -/
def attempt {α : Type} (x : Run α) : Run (Except Fault α) := fun c =>
  match x c with
  | .ok a c' => .ok (.ok a) c'
  | .error (.fault f) c' => .ok (.error f) c'
  | .error (.exit n) c' => .error (.exit n) c'

/-- Run `x` on a console: its result or why it stopped, and the console afterwards. -/
def exec {α : Type} (x : Run α) (c : Console) : Except Stop α × Console :=
  match x.run c with
  | .ok a c' => (.ok a, c')
  | .error e c' => (.error e, c')

end Run

/-- The files a run created or changed, sorted by path. -/
def Console.changed (c : Console) : List (String × String) :=
  let written := c.files.toList.filter fun (p, t) =>
    match c.disk.find? (Run.normalPath ·.1 == Run.normalPath p) with
    | some (_, t0) => t0 != t
    | none => true
  written.mergeSort (fun a b => decide (a.1 ≤ b.1))

end Interstellar
