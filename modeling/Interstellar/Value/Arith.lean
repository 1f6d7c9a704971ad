import Interstellar.Term.Token

/-!
# Operations on values

The operators of the language act on values by the rules of the dynamically typed target that
programs are compiled to, and the interpreter applies the same rules to the payloads of
literals:

* booleans count as the integers `0` and `1` in arithmetic and comparison;
* `+` adds numbers and concatenates two strings, `*` multiplies numbers and repeats a string
  by a number, `-` only subtracts;
* `quotient` divides rounding toward zero (`towardZero`: floor division, corrected where the
  signs differ), `remainder` takes the sign of the dividend (`signedRemainder`);
* order comparisons compare numbers, or two strings character by character;
* `take n s` and `drop n s` cut a string where a slice would: a negative count counts from
  the end, and a count past either end stops there;
* `numberOfLetters` reads a string's letter codes as the digits of a base-94 number, and
  `lettersOfNumber` spells a number's base-94 digits as letters.

Any other combination of types is a fault that names the operator and the types.
-/

namespace Interstellar

namespace Value

variable {F : Type}

/-- Negation; a boolean negates as `0` or `1`. -/
def neg (v : Value F) : Except Fault (Value F) :=
  match v.asInt? with
  | some n => .ok (.int (-n))
  | none => .error (.badOperand "unary -" v.typeName)

/-- `n` copies of `s`; none for a count below one. A count that is no size (at or beyond
`2^63` either way) is a fault, so is a result longer than the largest size, and so is a
result too large to hold. -/
def «repeat» (s : String) (n : Int) : Except Fault (Value F) :=
  let limit := Nat.pow 2 63
  if n ≥ (limit : Int) ∨ n < -(limit : Int) then .error .sizeOverflow
  else if n ≤ 0 then .ok (.str "")
  else if s.length > (limit - 1) / n.toNat then .error .repeatTooLong
  else if s.length * n.toNat > Nat.pow 2 32 then .error .outOfMemory
  else .ok (.str (String.join (List.replicate n.toNat s)))

/-- `+`: numbers add and strings concatenate. -/
def add (a b : Value F) : Except Fault (Value F) :=
  match a, b with
  | .str x, .str y => .ok (.str (x ++ y))
  | .str _, _ => .error (.concatNonString b.typeName)
  | _, _ =>
    match a.asInt?, b.asInt? with
    | some x, some y => .ok (.int (x + y))
    | _, _ => .error (.unsupported "+" a.typeName b.typeName)

/-- `-`: numbers subtract. -/
def sub (a b : Value F) : Except Fault (Value F) :=
  match a.asInt?, b.asInt? with
  | some x, some y => .ok (.int (x - y))
  | _, _ => .error (.unsupported "-" a.typeName b.typeName)

/-- `*`: numbers multiply, and a string times a number (either way round) repeats it. -/
def mul (a b : Value F) : Except Fault (Value F) :=
  match a, b with
  | .str s, _ =>
    match b.asInt? with
    | some n => «repeat» s n
    | none => .error (.repeatByNonInt b.typeName)
  | _, .str s =>
    match a.asInt? with
    | some n => «repeat» s n
    | none => .error (.repeatByNonInt a.typeName)
  | _, _ =>
    match a.asInt?, b.asInt? with
    | some x, some y => .ok (.int (x * y))
    | _, _ => .error (.unsupported "*" a.typeName b.typeName)

/-- `a` divided by `b`, rounded toward zero: the floor of the quotient, raised by one where the
signs of `a` and `b` differ and the division leaves a remainder. -/
def towardZero (a b : Int) : Int :=
  if (a < 0 ↔ ¬b < 0) ∧ a.fmod b ≠ 0 then a.fdiv b + 1 else a.fdiv b

/-- The remainder of the magnitudes of `n` and `d`, with the sign of `n`. -/
def signedRemainder (n d : Int) : Int := (if n < 0 then -1 else 1) * ↑(n.natAbs % d.natAbs)

theorem towardZero_eq_tdiv (a : Int) {b : Int} (hb : b ≠ 0) : towardZero a b = a.tdiv b := by
  have hfdiv := Int.fdiv_eq_tdiv (a := a) (b := b)
  unfold towardZero
  by_cases hd : b ∣ a
  · rw [if_neg fun h => h.2 (Int.dvd_iff_fmod_eq_zero.1 hd), hfdiv, if_pos hd, Int.sub_zero]
  · have hm : a.fmod b ≠ 0 := fun h => hd (Int.dvd_iff_fmod_eq_zero.2 h)
    rw [hfdiv, if_neg hd]
    -- the floor lies one below the truncation exactly when the signs differ
    by_cases ha : 0 ≤ a <;> by_cases hb' : 0 ≤ b
    · rw [if_neg (by omega)]; simp [ha, hb']
    · rw [if_pos ⟨by omega, hm⟩]; simp [ha, hb']
    · rw [if_pos ⟨by omega, hm⟩]; simp [ha, hb', Int.sign_eq_one_of_pos (show 0 < b by omega)]
    · rw [if_neg (by omega)]; simp [ha, hb', Int.sign_eq_neg_one_of_neg (show b < 0 by omega)]

theorem signedRemainder_eq_tmod (n d : Int) : signedRemainder n d = n.tmod d := by
  -- truncation ignores the divisor's sign
  obtain ⟨k, hk, hd⟩ : ∃ k : Nat, n.tmod d = n.tmod k ∧ d.natAbs = k := by
    obtain ⟨k, rfl | rfl⟩ := Int.eq_nat_or_neg d
    · exact ⟨k, rfl, rfl⟩
    · exact ⟨k, Int.tmod_neg n k, Int.natAbs_neg k⟩
  rw [signedRemainder, hk, hd]
  obtain ⟨m, rfl | rfl⟩ := Int.eq_nat_or_neg n
  · rw [if_neg (by omega), Int.one_mul, Int.natAbs_natCast, Int.ofNat_tmod]
  · rcases m with _ | m
    · rfl
    · rw [if_pos (by omega), Int.natAbs_neg, Int.natAbs_natCast, Int.neg_tmod, Int.ofNat_tmod,
        Int.neg_one_mul]

/-- Division rounding toward zero. -/
def quotient (a b : Value F) : Except Fault (Value F) :=
  match a.asInt?, b.asInt? with
  | some x, some y => if y = 0 then .error .divisionByZero else .ok (.int (towardZero x y))
  | _, _ => .error (.unsupported "//" a.typeName b.typeName)

/-- The remainder with the sign of the dividend. The dividend's sign is asked first, then the
magnitude of each side. -/
def remainder (a b : Value F) : Except Fault (Value F) :=
  match a.asInt? with
  | none => .error (.unordered "<" a.typeName "int")
  | some x =>
    match b.asInt? with
    | none => .error (.badOperand "abs()" b.typeName)
    | some y => if y = 0 then .error .moduloByZero else .ok (.int (signedRemainder x y))

/-- An order comparison: `lt` for `<`, otherwise `>`. -/
def compare (lt : Bool) (a b : Value F) : Except Fault (Value F) :=
  let op := if lt then "<" else ">"
  match a, b with
  | .str x, .str y => .ok (.bool (if lt then decide (x < y) else decide (y < x)))
  | _, _ =>
    match a.asInt?, b.asInt? with
    | some x, some y => .ok (.bool (if lt then decide (x < y) else decide (y < x)))
    | _, _ => .error (.unordered op a.typeName b.typeName)

/-- Equality: numbers by value, strings by text; values of other types differ, and no two
functions are the same one. -/
def equal (a b : Value F) : Bool :=
  match a, b with
  | .str x, .str y => x == y
  | _, _ =>
    match a.asInt?, b.asInt? with
    | some x, some y => x == y
    | _, _ => false

/-- The number of characters a slice bound keeps from the front of a string of length `len`:
a negative bound counts from the end, and bounds are clamped to the string. -/
def sliceIndex (len : Nat) (n : Int) : Nat :=
  if n < 0 then (len + n).toNat else min n.toNat len

/-- The first `n` characters of `s`, as a slice `s[:n]` takes them. -/
def take (s : Value F) (n : Value F) : Except Fault (Value F) :=
  match s with
  | .str x =>
    match n.asInt? with
    | some k => .ok (.str (String.ofList (x.toList.take (sliceIndex x.length k))))
    | none => .error .badSliceIndex
  | _ => .error (.notSubscriptable s.typeName)

/-- All but the first `n` characters of `s`, as a slice `s[n:]` takes them. -/
def drop (s : Value F) (n : Value F) : Except Fault (Value F) :=
  match s with
  | .str x =>
    match n.asInt? with
    | some k => .ok (.str (String.ofList (x.toList.drop (sliceIndex x.length k))))
    | none => .error .badSliceIndex
  | _ => .error (.notSubscriptable s.typeName)

/-- The base-94 number whose digits are the letter codes of a string. -/
def numberOfLetters (v : Value F) : Except Fault (Value F) := do
  let body ← v.letterText
  .int <$> Numeral.read body

/-- The letters that spell the base-94 digits of a number. -/
def lettersOfNumber (v : Value F) : Except Fault (Value F) := do
  let digits ← v.numeralText
  .str <$> Letter.decode digits

end Value

end Interstellar
