import Interstellar.Program.Shell

/-!
# The prompt loop

An interactive loop that sends what is typed to the contest server and prints the evaluated
reply.

* `--command TEXT`: send one prompt, print the reply and stop with status 0;
* otherwise read prompts after `>>> ` until the input ends. A line of three backticks starts a
  prompt of several lines, read after `... ` up to the next such line and joined by line feeds;
* with `--save`, each reply is also written to `courses/<prompt>.txt`, where the prompt has
  its spaces turned into underscores. A reply that is not text cannot be written, but the file
  is made, empty, before that fails;
* a prompt that fails prints `Error: True` and `Response: <the failure's text>`, and the loop
  goes on.
-/

namespace Interstellar

namespace Repl

/-- The command line of the loop. -/
def spec : Options.Spec :=
  { prog := "simple-repl.py", description := "Simple REPL for the encoder",
    params := [.option "command" "Execute a single command and exit",
               .flag "save" "Save the output to a file"] }

/-- The longest name a file may have, in bytes. -/
def nameLimit : Nat := 255

/-- Write a reply to the file of its prompt. A path below a directory that does not exist, or
with a name too long, fails; a reply that is not text leaves the file empty and fails. -/
def save (prompt : String) (reply : Outcome) : Run Unit := do
  let path := "courses/" ++ prompt.replace " " "_" ++ ".txt"
  let parts := path.splitOn "/"
  let name := parts.getLast?.getD ""
  let dir := "/".intercalate parts.dropLast
  let c ← get
  if name.utf8ByteSize > nameLimit then Run.fail (.nameTooLong path)
  else if dir != "courses" && !(Run.isDirectory c dir) then Run.fail (.noFile path)
  else
    match reply with
    | .str s => Run.writeFile path s
    | v => do
      Run.writeFile path ""
      Run.fail (.writeNonText v.typeName)

/-- Read the lines of a prompt of several lines, up to the closing line; `fuel` bounds them. -/
def readBlock : Nat → List String → Run String
  | 0, acc => pure ("\n".intercalate acc.reverse)
  | fuel + 1, acc => do
    let line ← Run.readLine "... "
    if line == "```" then pure ("\n".intercalate acc.reverse)
    else readBlock fuel (line :: acc)

/-- One round of the loop: read a prompt, send it, print the reply or the failure. -/
def round (saving : Bool) (fuel : Nat) : Run Unit := do
  let first ← Run.readLine ">>> "
  let prompt ← if first == "```" then readBlock fuel [] else pure first
  match ← Run.attempt (do
      let reply ← Client.call prompt
      if saving then save prompt reply
      Program.sayValue reply) with
  | .ok () => pure ()
  | .error f =>
    Run.say "Error: True"
    Run.say ("Response: " ++ (f.message.getD ""))

/-- Rounds of the loop, at most `fuel` of them; the loop ends when the input does. -/
def loop (saving : Bool) (fuel : Nat) : Nat → Run Unit
  | 0 => pure ()
  | n + 1 => do
    round saving fuel
    loop saving fuel n

/-- The prompt loop. -/
def program : Program := fun argv => do
  let args ← Program.options spec argv
  match args.value? "command" with
  | some cmd =>
    if cmd.isEmpty then
      let n := (← get).input.length + 1
      loop (args.has "save") n n
    else
      Program.sayValue (← Client.call cmd)
      Run.exit 0
  | none =>
    let n := (← get).input.length + 1
    loop (args.has "save") n n

end Repl

end Interstellar
