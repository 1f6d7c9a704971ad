import Interstellar.Numeral

/-!
# Letters of strings

Strings in program text are written one character per letter code: the 94 letters of
`Letter.alphabet` (lower case, upper case, digits, punctuation, space and line feed) have the
codes `0` to `93`, and a code is written as the digit character of the same value.

* `Letter.decode`: the string that a token body of digit characters spells; a character whose
  code falls outside `0..93` is a `missing` fault naming the code (which may be negative);
* `Letter.encode`: the token body of a string; a character outside the alphabet is a
  `missing` fault naming the character.
-/

namespace Interstellar

namespace Letter

/-- The letters in the order of their codes. -/
def alphabet : List Char :=
  "abcdefghijklmnopqrstuvwxyzABCDEFGHIJKLMNOPQRSTUVWXYZ0123456789!\"#$%&'()*+,-./:;<=>?@[\\]^_`|~ \n".toList

/-- The letters as an array, for lookup by code. -/
def table : Array Char := alphabet.toArray

/-- The letter with code `i`. -/
def ofCode? (i : Int) : Option Char :=
  if 0 ≤ i then table[i.toNat]? else none

/-- The code of a letter. -/
def code? (c : Char) : Option Nat := alphabet.idxOf? c

/-- The letter that one body character spells. -/
def decodeChar (c : Char) : Except Fault Char :=
  let i : Int := (c.toNat : Int) - 33
  match ofCode? i with
  | some l => .ok l
  | none => .error (.missing (.int i))

/-- The body character that writes one letter. -/
def encodeChar (c : Char) : Except Fault Char :=
  match code? c with
  | some i => .ok (Numeral.digitChar i)
  | none => .error (.missing (.text (String.singleton c)))

/-- The string spelled by a token body. -/
def decode (body : String) : Except Fault String :=
  String.ofList <$> body.toList.mapM decodeChar

/-- The token body that writes a string. -/
def encode (s : String) : Except Fault String :=
  String.ofList <$> s.toList.mapM encodeChar

end Letter

end Interstellar
