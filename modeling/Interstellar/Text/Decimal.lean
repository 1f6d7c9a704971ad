import Interstellar.Doc

/-!
# Shortest decimals of doubles

A positive double is a binary fraction `m · 2^e` with a mantissa of at most 53 bits. Its text is
the shortest string of decimal digits that reads back as the same double, and of the strings of
that length the one nearest to it. Reading back rounds to the nearest double with ties to an
even mantissa, so the ends of a double's rounding interval read back as the double exactly when
its mantissa is even.

* `Dyadic.ofRatio a b`: the double nearest to `a / b`;
* `Dyadic.shortest`: its shortest digits and the place of their decimal point;
* `Decimal.text`: the text of a double, in plain notation when the point falls from four places
  before the digits to sixteen places into them, in scientific notation otherwise;
* `Decimal.toDoc`: the document of the digits, an integer when the value is whole.

All arithmetic is exact, on natural numbers.
-/

namespace Interstellar

/-- A positive binary fraction `mant · 2^exp`. -/
structure Dyadic where
  mant : Nat
  exp : Int
  deriving Inhabited

/-- Decimal digits with the place of their point: `digits` stands for `0.d₁d₂…dₖ · 10^point`,
where `d₁…dₖ` are the digits of the number `digits`. -/
structure Decimal where
  digits : Nat
  point : Int
  deriving Inhabited

/-- The number of decimal digits of `n` (one for zero). -/
def digitCount (n : Nat) : Nat := (Nat.toDigits 10 n).length

/-- `k · 2^a · 10^b` as a numerator and a denominator. -/
def scaled (k : Nat) (a b : Int) : Nat × Nat :=
  (k * Nat.pow 2 a.toNat * Nat.pow 10 b.toNat, Nat.pow 2 (-a).toNat * Nat.pow 10 (-b).toNat)

/-- Whether the fraction `x` is at most the fraction `y` (denominators positive). -/
def fracLe (x y : Nat × Nat) : Bool := x.1 * y.2 ≤ y.1 * x.2

/-- The distance between two fractions, as a fraction. -/
def fracGap (x y : Nat × Nat) : Nat × Nat :=
  let a := x.1 * y.2
  let b := y.1 * x.2
  (if a ≤ b then b - a else a - b, x.2 * y.2)

/-- The nearest natural number to `n / d`, ties to even. -/
def roundHalfEven (n d : Nat) : Nat :=
  let q := n / d
  let r := n % d
  if 2 * r > d ∨ (2 * r = d ∧ q % 2 = 1) then q + 1 else q

namespace Dyadic

/-- The smallest exponent of a double; below it mantissas lose bits. -/
def minExp : Int := -1074

/-- The double nearest to `a / b`, ties to an even mantissa, for positive `a` and `b`. -/
def ofRatio (a b : Nat) : Dyadic :=
  let e0 : Int := (Nat.log2 a : Int) - (Nat.log2 b : Int) - 52
  -- `a / b · 2^(-e0)` lies strictly between `2^51` and `2^53`.
  let e1 := if fracLe (scaled a (-e0) 0) (scaled (b * Nat.pow 2 52) 0 0) &&
      !fracLe (scaled (b * Nat.pow 2 52) 0 0) (scaled a (-e0) 0) then e0 - 1 else e0
  let e := max e1 minExp
  let m := roundHalfEven (a * Nat.pow 2 (-e).toNat) (b * Nat.pow 2 e.toNat)
  if m = Nat.pow 2 53 then ⟨Nat.pow 2 52, e + 1⟩ else ⟨m, e⟩

/-- The lower end of the rounding interval of `x`, as a multiple of `2^(exp - 2)`: the gap
below a power of two is half the gap above it. -/
def lowEnd (x : Dyadic) : Nat :=
  if x.mant = Nat.pow 2 52 ∧ x.exp > minExp then 4 * x.mant - 1 else 4 * x.mant - 2

/-- The upper end of the rounding interval of `x`, as a multiple of `2^(exp - 2)`. -/
def highEnd (x : Dyadic) : Nat := 4 * x.mant + 2

/-- Whether `n · 10^t` reads back as `x`. -/
def readsBack (x : Dyadic) (n : Nat) (t : Int) : Bool :=
  let c := scaled n 0 t
  let lo := scaled x.lowEnd (x.exp - 2) 0
  let hi := scaled x.highEnd (x.exp - 2) 0
  if x.mant % 2 = 0 then fracLe lo c && fracLe c hi
  else !fracLe c lo && !fracLe hi c

/-- The decimal exponent of `x`: the `d` with `10^d ≤ x < 10^(d+1)`. -/
def decimalExp (x : Dyadic) : Int :=
  let v := scaled x.mant x.exp 0
  let k0 : Int := (digitCount v.1 : Int) - (digitCount v.2 : Int)
  if fracLe (scaled 1 0 k0) v then k0 else k0 - 1

/-- The better of the two `k`-digit candidates around `x` at scale `10^(-s)`, if either reads
back: `n` is `⌊x · 10^s⌋`. -/
def pick (x : Dyadic) (s : Int) (n : Nat) : Option Nat :=
  let lo := x.readsBack n (-s)
  let hi := x.readsBack (n + 1) (-s)
  if lo && hi then
    let v := scaled x.mant x.exp s
    let gLo := fracGap (n, 1) v
    let gHi := fracGap (n + 1, 1) v
    if fracLe gLo gHi && !fracLe gHi gLo then some n
    else if fracLe gHi gLo && !fracLe gLo gHi then some (n + 1)
    else if n % 2 = 0 then some n else some (n + 1)
  else if lo then some n
  else if hi then some (n + 1)
  else none

/-- The shortest digits that read back as `x`, trying `k`, `k + 1`, … digits while `fuel`
lasts; the digits come with the power of ten of their last place. -/
def search (x : Dyadic) (d : Int) : Nat → Nat → Nat × Int
  | 0, k =>
    let s : Int := (k : Int) - 1 - d
    let v := scaled x.mant x.exp s
    (roundHalfEven v.1 v.2, -s)
  | fuel + 1, k =>
    let s : Int := (k : Int) - 1 - d
    let v := scaled x.mant x.exp s
    match x.pick s (v.1 / v.2) with
    | some n => (n, -s)
    | none => search x d fuel (k + 1)

/-- `n` without its trailing zeros, and how many there were. -/
def stripZeros : Nat → Nat → Nat × Nat
  | 0, n => (n, 0)
  | fuel + 1, n =>
    if n ≠ 0 ∧ n % 10 = 0 then
      let (m, z) := stripZeros fuel (n / 10)
      (m, z + 1)
    else (n, 0)

/-- The shortest decimal that reads back as `x`. -/
def shortest (x : Dyadic) : Decimal :=
  let (n, t) := x.search x.decimalExp 16 1
  let (m, _) := stripZeros (digitCount n) n
  ⟨m, (digitCount n : Int) + t⟩

end Dyadic

namespace Decimal

/-- The text of a positive double given by its shortest digits. -/
def text (x : Decimal) : String :=
  let ds := toString x.digits
  let n := ds.length
  let p := x.point
  if p ≤ -4 ∨ p > 16 then
    let mant := if n = 1 then ds else String.ofList (ds.toList.take 1) ++ "." ++
      String.ofList (ds.toList.drop 1)
    let e := p - 1
    let digitsOfE := toString e.natAbs
    mant ++ "e" ++ (if e < 0 then "-" else "+") ++
      (if digitsOfE.length < 2 then "0" ++ digitsOfE else digitsOfE)
  else if p ≤ 0 then "0." ++ String.ofList (List.replicate (-p).toNat '0') ++ ds
  else if p.toNat < n then
    String.ofList (ds.toList.take p.toNat) ++ "." ++ String.ofList (ds.toList.drop p.toNat)
  else ds ++ String.ofList (List.replicate (p.toNat - n) '0') ++ ".0"

/-- The value of the digits as a document: an integer when it is whole, otherwise a decimal
fraction. -/
def toDoc (x : Decimal) : Doc :=
  let shift := x.point - (digitCount x.digits : Int)
  if 0 ≤ shift then .int (x.digits * Nat.pow 10 shift.toNat)
  else .num x.digits (-shift).toNat

end Decimal

end Interstellar
