import Interstellar.Fault

/-!
# Command-line options

The programs read their command lines with one common convention:

* `--name` switches a flag on; `--name VALUE` or `--name=VALUE` gives an option its value;
  any other word is a positional argument, and so is a negative number;
* a long option may be shortened to any prefix that names only one option;
* after `--` every word is positional;
* `-h` or `--help` prints the help text and stops with status 0;
* a mistake prints the usage line and `<prog>: error: <what>` to the error stream and stops
  with status 2. Missing positional arguments are reported before unknown words.

The usage line lists `[-h]`, every option in brackets and then the positional arguments, and
wraps at 78 columns with continuation lines aligned under the first option.
-/

namespace Interstellar

namespace Options

/-- One parameter of a command line. -/
inductive Param where
  /-- A flag `--name`, off unless given. -/
  | flag (name : String) (help : String)
  /-- An option `--name VALUE`; the value is shown in help as the name in capitals. -/
  | option (name : String) (help : String)
  /-- A required positional argument. -/
  | positional (name : String) (help : String)
  deriving Inhabited

/-- What a program's command line takes. -/
structure Spec where
  prog : String
  description : String := ""
  params : List Param
  deriving Inhabited

/-- The arguments a command line gave. -/
structure Args where
  flags : List String := []
  values : List (String × String) := []
  positionals : List String := []
  deriving Inhabited

/-- How reading a command line ends: with the arguments, or with text to print and a status. -/
inductive Outcome where
  | ok (args : Args)
  /-- Help was asked for: the text goes to the output and the status is 0. -/
  | help (text : String)
  /-- A mistake: the text goes to the error stream and the status is 2. -/
  | error (text : String)
  deriving Inhabited

namespace Param

/-- The name of a parameter. -/
def name : Param → String
  | .flag n _ | .option n _ | .positional n _ => n

/-- Whether a parameter is written with dashes. -/
def isOptional : Param → Bool
  | .positional .. => false
  | _ => true

/-- The word that names an optional parameter on the command line. -/
def word (p : Param) : String := "--" ++ p.name

/-- The value's placeholder in help and usage. -/
def placeholder (p : Param) : String := p.name.toUpper

/-- How a parameter appears in the usage line. -/
def usagePart : Param → String
  | .flag n _ => "[--" ++ n ++ "]"
  | p@(.option n _) => "[--" ++ n ++ " " ++ p.placeholder ++ "]"
  | .positional n _ => n

/-- How a parameter is introduced in the help text. -/
def invocation : Param → String
  | .flag n _ => "--" ++ n
  | p@(.option n _) => "--" ++ n ++ " " ++ p.placeholder
  | .positional n _ => n

/-- The help line of a parameter. -/
def help : Param → String
  | .flag _ h | .option _ h | .positional _ h => h

end Param

/-- The width that usage and help are wrapped to. -/
def textWidth : Nat := 78

/-- Lay out words in lines of at most `textWidth` columns, each line after the first starting
with `indent`; `start` is the column where the first word begins. -/
def fillLines (words : List String) (indent : String) (start : Nat) : List String :=
  let (lines, line, _) := words.foldl (fun (lines, line, len) w =>
    if len + 1 + w.length > textWidth && !line.isEmpty then
      (lines ++ [line], [w], indent.length - 1 + w.length + 1)
    else (lines, line ++ [w], len + w.length + 1)) (([] : List (List String)), ([] : List String), start - 1)
  let all := if line.isEmpty then lines else lines ++ [line]
  all.map (" ".intercalate ·)

namespace Spec

/-- The optional parameters, `-h` not included. -/
def optionals (s : Spec) : List Param := s.params.filter (·.isOptional)

/-- The positional parameters. -/
def positionals (s : Spec) : List Param := s.params.filter (!·.isOptional)

/-- The usage text, without the trailing line feed. -/
def usage (s : Spec) : String :=
  let optParts := "[-h]" :: s.optionals.map (·.usagePart)
  let posParts := s.positionals.map (·.usagePart)
  let prefixText := "usage: "
  let full := " ".intercalate (s.prog :: optParts ++ posParts)
  if prefixText.length + full.length ≤ textWidth then prefixText ++ full
  else
    let indent := String.ofList (List.replicate (prefixText.length + s.prog.length + 1) ' ')
    let first := fillLines (s.prog :: optParts) indent prefixText.length
    let rest := if posParts.isEmpty then [] else fillLines posParts indent indent.length
    let lines := match first with
      | [] => []
      | l :: ls => l :: ls.map (indent ++ ·)
    prefixText ++ "\n".intercalate (lines ++ rest.map (indent ++ ·))

/-- One entry of the help text, with the help starting at column `column`. -/
def helpEntry (column : Nat) (invocation help : String) : String :=
  let width := column - 4
  if help.isEmpty then "  " ++ invocation ++ "\n"
  else if invocation.length ≤ width then
    "  " ++ invocation ++ String.ofList (List.replicate (width - invocation.length) ' ') ++
      "  " ++ help ++ "\n"
  else "  " ++ invocation ++ "\n" ++ String.ofList (List.replicate column ' ') ++ help ++ "\n"

/-- The help text. -/
def helpText (s : Spec) : String :=
  let entries := ("-h, --help", "show this help message and exit") ::
    s.params.map fun p => (p.invocation, p.help)
  let longest := entries.foldl (fun m e => max m (e.1.length + 2)) 0
  let column := min (longest + 2) 24
  let pos := s.positionals.map fun p => helpEntry column p.invocation p.help
  let opts := ("-h, --help", "show this help message and exit") ::
    s.optionals.map fun p => (p.invocation, p.help)
  let optText := String.join (opts.map fun (i, h) => helpEntry column i h)
  s.usage ++ "\n\n" ++ (if s.description.isEmpty then "" else s.description ++ "\n\n") ++
    (if pos.isEmpty then "" else "positional arguments:\n" ++ String.join pos ++ "\n") ++
    "options:\n" ++ optText

/-- The text of a mistake. -/
def errorText (s : Spec) (what : String) : String :=
  s.usage ++ "\n" ++ s.prog ++ ": error: " ++ what ++ "\n"

/-- The optional parameters a word can name: exactly, or else by a prefix. -/
def candidates (s : Spec) (w : String) : List String :=
  let words := "-h" :: "--help" :: s.optionals.map (·.word)
  if words.contains w then [w]
  else if w.startsWith "--" then words.filter (·.startsWith w)
  else []

/-- The parameter a word names. -/
def paramOf? (s : Spec) (w : String) : Option Param := s.optionals.find? (·.word == w)

end Spec

/-- Whether a word is a negative number, which counts as positional. -/
def isNegativeNumber (w : String) : Bool :=
  match w.toList with
  | '-' :: rest =>
    let whole := rest.takeWhile Char.isDigit
    let after := rest.dropWhile Char.isDigit
    (!whole.isEmpty && after.isEmpty) ||
      (match after with
       | '.' :: ds => !ds.isEmpty && ds.all Char.isDigit
       | _ => false)
  | _ => false

/-- How a word of a command line reads. -/
inductive Word where
  | positional (w : String)
  /-- `--`: every later word is positional. -/
  | separator
  /-- An option word: the option it names (none when unknown) and a value after `=`. -/
  | optional (w : String) (named : Option String) (explicit : Option String)
  deriving Inhabited

/-- How one word reads, when it comes before any `--`; an abbreviation that fits several
options is a mistake. -/
def classify (s : Spec) (w : String) : Except String Word :=
  if w == "--" then .ok .separator
  else if !w.startsWith "-" || w == "-" then .ok (.positional w)
  else
    let (name, explicit) := match w.splitOn "=" with
      | n :: v :: more => (n, some ("=".intercalate (v :: more)))
      | _ => (w, none)
    let exact := "-h" :: "--help" :: s.optionals.map (·.word)
    if exact.contains w then .ok (.optional w (some w) none)
    else if explicit.isSome && exact.contains name then .ok (.optional w (some name) explicit)
    else
      match s.candidates name with
      | [m] => .ok (.optional w (some m) explicit)
      | [] =>
        if isNegativeNumber w || w.contains ' ' then .ok (.positional w)
        else .ok (.optional w none none)
      | ms => .error ("ambiguous option: " ++ w ++ " could match " ++ ", ".intercalate ms)

/-- How every word reads; after `--` all are positional. -/
def classifyAll (s : Spec) : List String → Except String (List Word)
  | [] => .ok []
  | w :: ws => do
    match ← classify s w with
    | .separator => .ok (.separator :: ws.map .positional)
    | x => .ok (x :: (← classifyAll s ws))

/-- The state of reading: arguments so far and unknown words. -/
structure Reading where
  args : Args := {}
  unknown : List String := []

/-- Take the words of a command line in turn. -/
def takeWords (s : Spec) : List Word → Reading → Outcome
  | [], r =>
    let missing := (s.positionals.drop r.args.positionals.length).map (·.name)
    if !missing.isEmpty then
      .error (s.errorText ("the following arguments are required: " ++ ", ".intercalate missing))
    else if !r.unknown.isEmpty then
      .error (s.errorText ("unrecognized arguments: " ++ " ".intercalate r.unknown))
    else .ok r.args
  | .separator :: ws, r => takeWords s ws r
  | .positional w :: ws, r =>
    if r.args.positionals.length < s.positionals.length then
      takeWords s ws { r with args := { r.args with positionals := r.args.positionals ++ [w] } }
    else takeWords s ws { r with unknown := r.unknown ++ [w] }
  | .optional w none _ :: ws, r => takeWords s ws { r with unknown := r.unknown ++ [w] }
  | .optional w (some m) explicit :: ws, r =>
    if m == "-h" || m == "--help" then .help s.helpText
    else
      match s.paramOf? m with
      | some p@(.flag n _) =>
        match explicit with
        | some v =>
          .error (s.errorText ("argument " ++ p.word ++ ": ignored explicit argument " ++
            Notation.string v))
        | none => takeWords s ws { r with args := { r.args with flags := r.args.flags ++ [n] } }
      | some p@(.option n _) =>
        match explicit with
        | some v => takeWords s ws { r with args := { r.args with values := r.args.values ++ [(n, v)] } }
        | none =>
          match ws with
          | .positional v :: ws' =>
            takeWords s ws' { r with args := { r.args with values := r.args.values ++ [(n, v)] } }
          | _ => .error (s.errorText ("argument " ++ p.word ++ ": expected one argument"))
      | _ => takeWords s ws { r with unknown := r.unknown ++ [w] }

/-- Read a command line. -/
def read (s : Spec) (argv : List String) : Outcome :=
  match classifyAll s argv with
  | .ok words => takeWords s words {}
  | .error what => .error (s.errorText what)

namespace Args

/-- Whether a flag was given. -/
def has (a : Args) (name : String) : Bool := a.flags.contains name

/-- The last value given to an option. -/
def value? (a : Args) (name : String) : Option String :=
  (a.values.reverse.find? (·.1 == name)).map (·.2)

end Args

end Options

end Interstellar
