import Interstellar.Compact
import Interstellar.Term.Document
import Interstellar.Target.Eval

/-!
# Workloads on the language

Workloads that exercise the codecs, the reducer and the compiler, each sized by one number
and each giving back what it computed:

* `Bench.codecRoundTrip n`: integers, booleans and strings sent through the compact codec and
  back, then a fixed set of operator tokens and of failures;
* `Bench.arithmetic n`: the sum `0 + 1 + … + n` as a program, with the length of its text and
  its value;
* `Bench.operators n`: every operator on small operands, `n` rounds of text, value and compiled
  text, then a fixed set of codec calls and of failures;
* `Bench.compilations n`: `n` operator programs with growing operands, compiled, then three
  fixed programs and one evaluation.
-/

namespace Interstellar

namespace Bench

/-- A compact reading as a document; a triple is the list of its operator and readings. -/
def itemDoc : Compact.Item → Doc
  | .bool b => .bool b
  | .int n => .int n
  | .str s => .str s
  | .triple op l r => .arr [.str op, itemDoc l, itemDoc r]

/-- A document through the compact codec and back; a failure is the text `err`. -/
def roundTrip (v : Doc) : Doc :=
  match Compact.encodePlain v >>= Compact.decode with
  | .ok item => itemDoc item
  | .error _ => .str "err"

/-- The reading of a token; a failure is the text `err`. -/
def decoded (tok : String) : Doc :=
  match Compact.decode tok with
  | .ok item => itemDoc item
  | .error _ => .str "err"

/-- The text of an encoding; a failure is the text `err`. -/
def encoded (r : Except Fault String) : Doc :=
  match r with
  | .ok s => .str s
  | .error _ => .str "err"

/-- The step between the round-tripped integers. -/
def integerStep : Int := 1234567890123456789

/-- The text whose prefixes are round-tripped: a sentence, then the digits over and over. -/
def sentence (len : Nat) : String :=
  let head := "the quick brown fox jumps over the lazy dog "
  String.ofList ((head.toList ++ (List.range len).map fun i => Char.ofNat (48 + i % 10)).take len)

/-- Integers, booleans and strings through the codec, then fixed operator tokens and
failures. -/
def codecRoundTrip (n : Nat) : Doc :=
  let ints := (List.range (n + 1)).map fun (i : Nat) => roundTrip (.int (i * integerStep))
  let bools := [encoded (Compact.encodePlain (.bool true)), encoded (Compact.encodePlain (.bool false)),
    decoded "T", decoded "F"]
  let strs := (List.range n).map fun i => roundTrip (.str (sentence (8 + i)))
  let ops := [decoded "U- I$", decoded "U! T", decoded "U# S4", decoded "B+ I# I$",
    encoded (("U- " ++ ·) <$> Compact.encodePlain (.int 5)),
    encoded (do pure ("B+ " ++ (← Compact.encodePlain (.int 3)) ++ " " ++
      (← Compact.encodePlain (.int 4)))),
    encoded (Compact.encode (.str "abc") (some "-")),
    encoded (Compact.encode (.arr [.int 3, .int 4]) (some "+")),
    decoded "X", decoded "U", decoded "B", encoded (Compact.encode (.int 3) (some "-")),
    encoded (Compact.encodePlain .null)]
  .arr (ints ++ bools ++ strs ++ ops)

/-- The program `0 + 1 + … + n`, nested to the left. -/
def sumProgram (n : Nat) : Term :=
  (List.range n).foldl (fun t (i : Nat) => .binary "+" t (.int ((i : Int) + 1))) (.int 0)

/-- The length of the text of the sum program and its value. -/
def arithmetic (n : Nat) : Doc :=
  let t := sumProgram n
  let len := match t.encode with
    | .ok s => .int s.length
    | .error _ => .null
  let value := match t.reduce with
    | .ok (.lit _ (.int v)) => .int v
    | _ => .null
  .arr [len, value]

/-- The programs of one round of operators. -/
def operatorPrograms : List String :=
  ["B+ I# I$", "B- I$ I#", "B* I$ I#", "B/ U- I( I#", "B% U- I( I#", "B< I$ I#", "B> I$ I#",
   "B= I$ I#", "B= S4% S4%", "B= T F", "B| T F", "B& T F", "B. S4% S34", "BT I$ S4%34",
   "BD I$ S4%34", "U- I$", "U! T", "U# S4%34", "U$ I4%34", "? B> I$ I# S9%3 S./",
   "? B< I$ I# S9%3 S./", "B$ L! B+ v! v! I$", "B$ L! ? B= v! I! I! B+ v! I# I$",
   "B$ L! B$ L! v! I# I$", "B$ L! U- v! I$"]

/-- A program's text, the document of its value and its compiled text. -/
def operatorRow (src : String) : List Doc :=
  let t := Term.ofText src
  let value := match t >>= Term.reduce with
    | .ok v => v.toDoc
    | .error _ => .str "e"
  let code := match t >>= Term.compile with
    | .ok s => .str s
    | .error _ => .str "e"
  [.str src, value, code]

/-- Programs that fail to read: unknown tokens and operators, and operators short of
operands. -/
def failingPrograms : List String :=
  ["X", "U~ I!", "B~ I! I!", "", "B+ I!", "U-", "B$ L!", "Z!"]

/-- `n` rounds of every operator, then fixed codec calls and failures. -/
def operators (n : Nat) : Doc :=
  let rounds := (List.range n).flatMap fun _ => operatorPrograms.flatMap operatorRow
  let fixed : List Doc :=
    [match Term.ofText "v\"" with
      | .ok v => v.toDoc
      | .error _ => .str "e",
     encoded (("S" ++ ·) <$> Letter.encode "hello"),
     .str ("I" ++ Numeral.render 12345),
     match Letter.decode "4%34" with
      | .ok s => .str s
      | .error _ => .str "e",
     match Numeral.read "\"-D" with
      | .ok v => .int (v : Int)
      | .error _ => .str "e",
     .str (Numeral.render 0)]
  let failures := failingPrograms.flatMap fun src =>
    let t := Term.ofText src
    [match t >>= Term.reduce with
      | .ok v => v.toDoc
      | .error _ => .str "e",
     match t >>= Term.compile with
      | .ok s => .str s
      | .error _ => .str "e",
     match t >>= Term.run with
      | .ok _ => .str "ok"
      | .error _ => .str "e"]
  .arr (rounds ++ fixed ++ failures)

/-- The operators of the compiled programs, in turn. -/
def compiledOperators : List String := ["+", "-", "*", "/", "%", "<", ">", "=", "|", "&", ".", "T", "D"]

/-- The `i`-th compiled program. -/
def compiledProgram (i : Nat) : String :=
  let op := compiledOperators.getD (i % compiledOperators.length) "+"
  if op == "|" || op == "&" then "B" ++ op ++ " T F"
  else if op == "." then "B. S4% S34"
  else if op == "T" || op == "D" then "B" ++ op ++ " I# S4%34"
  else "B" ++ op ++ " I" ++ Numeral.render (i + 2) ++ " I#"

/-- The compiled text of a program as the target runs it; a failure is the text `e`. -/
def compiledText (src : String) : Doc :=
  match Term.ofText src >>= Term.compile with
  | .ok s => .str (s ++ "()")
  | .error _ => .str "e"

/-- `n` compiled operator programs, three fixed ones and one evaluation. -/
def compilations (n : Nat) : Doc :=
  let progs := (List.range n).map fun i => compiledText (compiledProgram i)
  let fixed := ["? B> I$ I# B$ L! U- v! I# U! T", "U# S4%34", "U$ I4%34"].map compiledText
  let value := match Term.ofText "B+ I# I$" >>= Term.run with
    | .ok (.int v) => .int v
    | _ => .str "e"
  .arr (progs ++ fixed ++ [value])

end Bench

end Interstellar
