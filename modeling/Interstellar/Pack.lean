import Interstellar.Console
import Interstellar.Letter

/-!
# Packing a text into a program

A long text with few distinct characters is shorter as a program that computes it than as a
string token. `Pack.pack` writes the text as one base-`k` number over its `k` distinct
characters (in order of first appearance, the first character of the text most significant)
and wraps it in a fixed program that peels off the digits from the least significant end and
looks each one up in the string of distinct characters:

`B$ B$ L" B$ L# B$ v" B$ v# v# L# B$ v" B$ v# v# L" L# ? B= v# I! <first> B. B$ v" B/ v# <k> BT I" BD B% v# <k> <chars> <number>`

where `<first>` is the string token of the first distinct character, `<k>` the integer token
of `k`, `<chars>` the string token of the distinct characters and `<number>` the integer token
of the packed number. The program stops when the rest of the number is zero, so leading
digits of value zero (repetitions of the first character) are lost, and a text of one
distinct character always decodes to that character once.

`Pack.attempt` takes the program only when it is strictly shorter than the plain string
token. Both print what they do: the text, the program, and whether the program is sent.
-/

namespace Interstellar

namespace Pack

/-- The distinct characters of a text, in order of first appearance. -/
def distinct (s : String) : List Char :=
  s.foldl (fun acc c => if acc.contains c then acc else acc ++ [c]) []

/-- The text as a base-`k` number over its distinct characters `cs`. -/
def number (cs : List Char) (s : String) : Nat :=
  s.foldl (fun acc c => acc * cs.length + cs.idxOf c) 0

/-- The string token of a text. -/
def stringToken (s : String) : Except Fault String := ("S" ++ ·) <$> Letter.encode s

/-- The integer token of a number. -/
def integerToken (n : Int) : String := "I" ++ Numeral.render n

/-- The program that computes `prompt`, printing the text and the program. -/
def pack (prompt : String) : Run String := do
  Run.say ("Prompt:  " ++ prompt)
  let cs := distinct prompt
  let chars ← Run.lift (stringToken (String.ofList cs))
  let packed := integerToken (number cs prompt)
  let k := integerToken cs.length
  let first ← match cs with
    | [] => Run.fail (.indexOutOfRange "list")
    | c :: _ => Run.lift (stringToken (String.singleton c))
  let program := "B$ B$ L\" B$ L# B$ v\" B$ v# v# L# B$ v\" B$ v# v# L\" L# ? B= v# I! " ++
    first ++ " B. B$ v\" B/ v# " ++ k ++ " BT I\" BD B% v# " ++ k ++ " " ++ chars ++ " " ++
    packed
  Run.say ("Template:  " ++ program)
  pure program

/-- The shorter of the packed program and the plain string token; the plain token on a tie. -/
def attempt (prompt : String) : Run String := do
  let plain ← Run.lift (stringToken prompt)
  let packed ← pack prompt
  if packed.length < plain.length then
    Run.say "SENDING PACKED"
    pure packed
  else pure plain

end Pack

end Interstellar
