import Interstellar.Program.Catalog

/-!
# Running a program

`main` runs the program named by its first argument with the remaining arguments, on the text
of standard input. The program's output and error text are written out, a failure is shown as
its class and message on the error stream, and the exit status is the program's.
-/

open Interstellar

/-- All of a stream's text. -/
partial def readAll (stream : IO.FS.Stream) (acc : String) : IO String := do
  let line ← stream.getLine
  if line.isEmpty then pure acc else readAll stream (acc ++ line)

/-- Run the named program. -/
def main (args : List String) : IO UInt32 := do
  match args with
  | name :: rest =>
    match Catalog.find? name with
    | some prog =>
      let input ← readAll (← IO.getStdin) ""
      let (result, console) := Run.exec (prog rest) { input := input.toList }
      IO.print console.output
      IO.eprint console.errors
      match result with
      | .ok _ => pure 0
      | .error (.exit code) => pure code.toUInt32
      | .error (.fault f) =>
        IO.eprintln (f.kind ++ (match f.message with
          | some m => ": " ++ m
          | none => ""))
        pure 1
    | none =>
      IO.eprintln ("unknown program: " ++ name)
      pure 2
  | [] =>
    IO.eprintln ("usage: PROGRAM [ARGS...] where PROGRAM is one of " ++
      ", ".intercalate (Catalog.programs.map (·.1)))
    pure 2
