import Interstellar.Fault

/-!
# Base-94 numerals

Numbers in program text are written in base 94 with the printable characters `!` (0) to `~`
(93) as digits, most significant digit first.

* `Numeral.render`: the digits of a number; zero is `!`, and a negative number has no digits
  at all, so that it reads back as zero;
* `Numeral.read`: the number a digit string stands for; the empty string stands for zero, and
  the first character that is no digit is a `missing` fault naming it.

Main statement: `read_render`, reading gives back every number that was written.
-/

namespace Interstellar

namespace Numeral

/-- The base. -/
def base : Nat := 94

/-- The value of a digit character: `!` is 0, `~` is 93. -/
def digitValue? (c : Char) : Option Nat :=
  if 33 ≤ c.toNat ∧ c.toNat ≤ 126 then some (c.toNat - 33) else none

/-- The character of the digit `d < 94`. -/
def digitChar (d : Nat) : Char := Char.ofNat (d + 33)

/-- The digits of `n`, most significant first; none for zero. -/
def digits (n : Nat) : List Char :=
  if n = 0 then [] else digits (n / base) ++ [digitChar (n % base)]
termination_by n
decreasing_by unfold base; omega

/-- A number in base 94: `!` for zero, no digits for a negative number. -/
def render (n : Int) : String :=
  if n = 0 then "!" else String.ofList (digits n.toNat)

/-- One step of reading: the number so far, then one more digit. -/
def step (acc : Nat) (c : Char) : Except Fault Nat :=
  match digitValue? c with
  | some d => .ok (acc * base + d)
  | none => .error (.missing (.text (String.singleton c)))

/-- The number that a list of digit characters stands for, after `acc`. -/
def readFrom (acc : Nat) : List Char → Except Fault Nat
  | [] => .ok acc
  | c :: cs => do readFrom (← step acc c) cs

/-- The number a digit string stands for; the empty string stands for zero. -/
def read (s : String) : Except Fault Nat := readFrom 0 s.toList

theorem toNat_digitChar {d : Nat} (h : d < base) : (digitChar d).toNat = d + 33 := by
  unfold base at h
  have hv : (d + 33).isValidChar := Or.inl (by omega)
  rw [digitChar, Char.ofNat, dif_pos hv]
  rfl

theorem digitValue_digitChar {d : Nat} (h : d < base) : digitValue? (digitChar d) = some d := by
  have hc := toNat_digitChar h
  unfold base at h
  simp only [digitValue?, hc]
  rw [if_pos (by omega)]
  simp

theorem step_digitChar (acc : Nat) {d : Nat} (h : d < base) :
    step acc (digitChar d) = .ok (acc * base + d) := by
  simp [step, digitValue_digitChar h]

theorem readFrom_append (acc : Nat) (xs ys : List Char) :
    readFrom acc (xs ++ ys) = (readFrom acc xs >>= fun a => readFrom a ys) := by
  induction xs generalizing acc with
  | nil => rfl
  | cons c cs ih =>
    simp only [List.cons_append, readFrom]
    cases step acc c with
    | error e => rfl
    | ok a => exact ih a

theorem readFrom_digits (n : Nat) : readFrom 0 (digits n) = .ok n := by
  induction n using Nat.strongRecOn with
  | ind n ih =>
    rw [digits]
    by_cases hn : n = 0
    · simp [hn, readFrom]
    · have hlt : n / base < n := by unfold base; omega
      have hmod : n % base < base := Nat.mod_lt _ (by unfold base; omega)
      simp only [hn, if_false, readFrom_append, ih _ hlt]
      show (do readFrom (← step (n / base) (digitChar (n % base))) []) = .ok n
      rw [step_digitChar _ hmod]
      show Except.ok (n / base * base + n % base) = .ok n
      rw [Nat.div_add_mod']

/-- Reading gives back every number that was written. -/
theorem read_render (n : Nat) : read (render n) = .ok n := by
  unfold read render
  by_cases hn : n = 0
  · subst hn; rfl
  · have : (n : Int) ≠ 0 := by omega
    simp only [this, if_false, String.toList_ofList, Int.toNat_natCast]
    exact readFrom_digits n

end Numeral

end Interstellar
