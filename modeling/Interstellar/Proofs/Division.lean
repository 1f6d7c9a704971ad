import Interstellar.Proofs.Compile

/-!
# Truncated division

The language divides integers rounding toward zero, and its remainder takes the sign of the
dividend. Both programs compute them the same way: `B/` through `Value.towardZero`, which
takes the floor of the quotient and raises it by one where the signs of the operands differ and
the division is inexact, and `B%` through `Value.signedRemainder`, the remainder of the
magnitudes with the sign of the dividend.

* `Value.Truncates a b q r`: `q` and `r` are the quotient and remainder of truncated division
  of `a` by `b`;
* `Value.truncates_tdiv_tmod`: truncating division and remainder satisfy it;
* `Term.reduceN_divide`, `Term.reduceN_modulo`: the interpreter's `B/` and `B%` on operands
  that give integers;
* `Term.runN_divide`, `Term.runN_modulo`: the same operators in compiled code;
* `Term.divide_truncates`: all of it together, and a zero divisor is a fault in both.
-/

namespace Interstellar

namespace Value

/-- `q` and `r` are the quotient and remainder of `a` by `b` truncated toward zero:
`q * b + r = a`, `r` is smaller than `b` in magnitude, and `r` is zero or has the sign of `a`. -/
def Truncates (a b q r : Int) : Prop :=
  q * b + r = a ∧ r.natAbs < b.natAbs ∧ (r = 0 ∨ r.sign = a.sign)

theorem truncates_tdiv_tmod (a : Int) {b : Int} (hb : b ≠ 0) :
    Truncates a b (a.tdiv b) (a.tmod b) := by
  refine ⟨by rw [Int.add_comm]; exact Int.tmod_add_tdiv_mul a b, ?_, ?_⟩
  · rw [Int.natAbs_tmod]
    exact Nat.mod_lt _ (Int.natAbs_pos.2 hb)
  · -- an inexact division leaves a remainder of the dividend's sign
    by_cases hd : b ∣ a
    · exact .inl (Int.tmod_eq_zero_of_dvd hd)
    · exact .inr (by rw [Int.sign_tmod, if_neg hd])

/-- The quotient and remainder that the language computes truncate. -/
theorem truncates_towardZero (a : Int) {b : Int} (hb : b ≠ 0) :
    Truncates a b (towardZero a b) (signedRemainder a b) := by
  rw [towardZero_eq_tdiv a hb, signedRemainder_eq_tmod]
  exact truncates_tdiv_tmod a hb

end Value

namespace Term

open Value

section Operators

variable {n : Nat} {x y : Term} {a b : Int}

/-- The interpreter's `B/` on operands that give integers. -/
theorem reduceN_divide (hx : reduceN n x = .ok (int a)) (hy : reduceN n y = .ok (int b)) :
    reduceN (n + 1) (.binary "/" x y) =
      if b = 0 then .error .divisionByZero else .ok (int (towardZero a b)) := by
  rw [reduceN_binary (by decide), hx, ok_bind, hy, ok_bind]
  by_cases hb : b = 0 <;>
    simp [hb, payload, applyBinary, arith, isKind, typeName?, quotient, asInt?]

/-- The interpreter's `B%` on operands that give integers. -/
theorem reduceN_modulo (hx : reduceN n x = .ok (int a)) (hy : reduceN n y = .ok (int b)) :
    reduceN (n + 1) (.binary "%" x y) =
      if b = 0 then .error .moduloByZero else .ok (int (signedRemainder a b)) := by
  rw [reduceN_binary (by decide), hx, ok_bind, hy, ok_bind]
  by_cases hb : b = 0 <;>
    simp [hb, payload, applyBinary, arith, isKind, typeName?, remainder, asInt?]

variable {env : Env}

/-- Compiled `B/` on operands that give integers. -/
theorem runN_divide (hx : runN n env x = .ok (.int a)) (hy : runN n env y = .ok (.int b)) :
    runN (n + 1) env (.binary "/" x y) =
      if b = 0 then .error .divisionByZero else .ok (.int (towardZero a b)) := by
  rw [runN_binary_combine (by decide), hx, ok_bind, hy, ok_bind]
  by_cases hb : b = 0 <;> simp [hb, combine, quotient, asInt?]

/-- Compiled `B%` on operands that give integers. -/
theorem runN_modulo (hx : runN n env x = .ok (.int a)) (hy : runN n env y = .ok (.int b)) :
    runN (n + 1) env (.binary "%" x y) =
      if b = 0 then .error .moduloByZero else .ok (.int (signedRemainder a b)) := by
  rw [runN_binary_combine (by decide), hx, ok_bind, hy, ok_bind]
  by_cases hb : b = 0 <;> simp [hb, combine, remainder, asInt?]

end Operators

/-- **Division truncates.** For every divisor other than zero, the language's quotient and
remainder of `a` by `b` satisfy `q * b + r = a` with `r` smaller than `b` in magnitude and zero
or of the sign of `a`, and the quotient is `a / b` truncated toward zero. The interpreter's and
compiled code's `B/` and `B%` give them on operands that give `a` and `b`; with a zero divisor
both fail, with the fault of division or of modulo by zero. -/
theorem divide_truncates (a b : Int) :
    (b ≠ 0 → Truncates a b (towardZero a b) (signedRemainder a b) ∧
      towardZero a b = a.tdiv b) ∧
    (∀ {n : Nat} {x y : Term}, reduceN n x = .ok (int a) → reduceN n y = .ok (int b) →
      reduceN (n + 1) (.binary "/" x y) =
        (if b = 0 then .error .divisionByZero else .ok (int (towardZero a b))) ∧
      reduceN (n + 1) (.binary "%" x y) =
        (if b = 0 then .error .moduloByZero else .ok (int (signedRemainder a b)))) ∧
    (∀ {n : Nat} {env : Env} {x y : Term}, runN n env x = .ok (.int a) →
      runN n env y = .ok (.int b) →
      runN (n + 1) env (.binary "/" x y) =
        (if b = 0 then .error .divisionByZero else .ok (.int (towardZero a b))) ∧
      runN (n + 1) env (.binary "%" x y) =
        (if b = 0 then .error .moduloByZero else .ok (.int (signedRemainder a b)))) :=
  ⟨fun hb => ⟨truncates_towardZero a hb, towardZero_eq_tdiv a hb⟩,
    fun hx hy => ⟨reduceN_divide hx hy, reduceN_modulo hx hy⟩,
    fun hx hy => ⟨runN_divide hx hy, runN_modulo hx hy⟩⟩

/-- `B/ U- I( I#` and `B% U- I( I#`: `-7` by `2` gives `-3` and `-1`, in the interpreter and in
compiled code. -/
theorem divide_minus_seven_by_two :
    (2 : Int) ≠ 0 ∧ Truncates (-7) 2 (towardZero (-7) 2) (signedRemainder (-7) 2) ∧
    towardZero (-7) 2 = -3 ∧ signedRemainder (-7) 2 = -1 ∧
    reduceN 2 (.binary "/" (int (-7)) (int 2)) = .ok (int (towardZero (-7) 2)) ∧
    reduceN 2 (.binary "%" (int (-7)) (int 2)) = .ok (int (signedRemainder (-7) 2)) ∧
    runN 2 [] (.binary "/" (int (-7)) (int 2)) = .ok (.int (towardZero (-7) 2)) ∧
    runN 2 [] (.binary "%" (int (-7)) (int 2)) = .ok (.int (signedRemainder (-7) 2)) := by
  have h := divide_truncates (-7) 2
  obtain ⟨hdiv, hmod⟩ := h.2.1 (n := 1) (x := int (-7)) (y := int 2) rfl rfl
  obtain ⟨hdiv', hmod'⟩ :=
    h.2.2 (show runN 1 [] (int (-7)) = .ok (.int (-7)) from rfl) (y := int 2) rfl
  refine ⟨by decide, (h.1 (by decide)).1, by decide, by decide, ?_, ?_, ?_, ?_⟩
  · rw [hdiv, if_neg (by decide)]
  · rw [hmod, if_neg (by decide)]
  · rw [hdiv', if_neg (by decide)]
  · rw [hmod', if_neg (by decide)]

end Term

end Interstellar
