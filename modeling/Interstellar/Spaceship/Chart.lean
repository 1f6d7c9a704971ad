import Interstellar.Text.Integer

/-!
# The spaceship course: targets

A course is a list of target points in the plane, written one per line as two integers
separated by a single space (blank lines and blanks around a line are ignored). `Chart` keeps
the targets still to visit, in course order and with repetitions, and the targets visited, in
the order they were reached.

* `Chart.ofText`: the chart of a course text;
* `Chart.visit p`: reaching `p` removes every pending copy of `p` and records it once;
* `Chart.closest? p`: the first pending target at the least distance from `p`.

`Chart.builtIn` is the course a ship starts with.
-/

namespace Interstellar

namespace Spaceship

/-- A point of the plane. -/
abbrev Point := Int × Int

/-- The targets of a course. -/
structure Chart where
  /-- The targets reached, in order. -/
  visited : Array Point := #[]
  /-- The targets still to reach, in course order. -/
  pending : List Point := []
  deriving Inhabited

/-- The point on one line of a course text: its first two space-separated fields. -/
def pointOfLine (line : String) : Except Fault Point := do
  let fields := line.splitOn " "
  let x ← Integer.read (fields.headD "")
  match fields with
  | _ :: yText :: _ => pure (x, ← Integer.read yText)
  | _ => throw (.indexOutOfRange "list")

namespace Chart

/-- The chart of a course text. -/
def ofText (text : String) : Except Fault Chart := do
  let lines := (Blank.lines (Blank.trim text)).map Blank.trim |>.filter (!·.isEmpty)
  let points ← lines.mapM pointOfLine
  pure { pending := points }

/-- Reach `p`. -/
def visit (c : Chart) (p : Point) : Chart :=
  if c.pending.contains p then
    { visited := c.visited.push p, pending := c.pending.filter (· != p) }
  else c

/-- The squared distance between two points. -/
def dist2 (p q : Point) : Int := (p.1 - q.1) * (p.1 - q.1) + (p.2 - q.2) * (p.2 - q.2)

/-- The first pending target at the least distance from `p`. -/
def closest? (c : Chart) (p : Point) : Option Point :=
  match c.pending with
  | [] => none
  | q :: qs => some (qs.foldl (fun best r => if dist2 p r < dist2 p best then r else best) q)

/-- The number of targets reached and still pending, as the chart reports them. -/
def statusText (c : Chart) : String :=
  "Visited: " ++ toString c.visited.size ++ ", Pending: " ++ toString c.pending.length ++ "\n"

/-- The course a ship starts with. -/
def builtInText : String :=
  "-3 2\n-5 4\n-7 5\n-8 6\n-9 6\n-10 7\n-10 7\n-11 8\n" ++
  "-13 9\n-14 11\n-14 14\n-14 17\n-13 19\n-12 22\n-12 25\n-11 28\n" ++
  "-10 30\n-10 33\n-9 37\n-7 41\n-5 46\n-3 50\n0 54\n3 57\n" ++
  "7 59\n10 62\n12 64\n13 66\n14 67\n16 67\n18 68\n19 68\n" ++
  "20 67\n22 67\n23 66\n25 64\n28 63\n32 63\n37 64\n41 64\n" ++
  "44 64\n48 64\n53 63\n59 63\n64 63\n70 62\n76 62\n83 62\n" ++
  "89 62\n95 61\n102 60\n108 60\n113 59\n118 59\n123 59\n129 60\n" ++
  "135 60\n140 59\n144 59\n148 59\n152 58\n157 58\n161 57\n164 55\n" ++
  "166 54\n169 53\n172 51\n174 48\n176 45\n178 43\n181 42\n182 43\n" ++
  "182 44\n182 44\n182 44\n182 45\n181 47\n179 48\n177 50\n176 51\n" ++
  "175 51\n175 52\n174 53\n172 53\n171 54\n170 55\n170 57\n171 59\n" ++
  "173 61\n174 63\n176 64\n179 64\n182 65\n184 66\n187 68\n190 70\n" ++
  "194 72\n201 75\n205 77\n208 80\n210 84\n211 88\n212 93\n214 97\n" ++
  "216 102\n217 108\n217 114\n217 120\n216 126\n216 132\n217 139\n219 145\n" ++
  "220 150\n221 155\n221 161\n220 166\n"

end Chart

end Spaceship

end Interstellar
