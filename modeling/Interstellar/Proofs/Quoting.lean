import Interstellar.Target.Literal
import Interstellar.Proofs.Spelling

/-!
# Quoted strings read back

A compiled string literal is the string between double quotes after three replacements in a row
(`escapeQuoted`): each backslash by two, then each line feed by `\n`, then each double quote by
`\"`. The order matters: the backslashes that the later replacements write are not doubled
again, and the line feeds and quotes of the string never meet a replacement made for another
character. So the three replacements write each character on its own (`Literal.escapeChar`),
and the target's reading of literals (`Interstellar.Target.Literal`) undoes that.

* `toList_escapeQuoted`: the replacements write every character by `Literal.escapeChar`;
* `Literal.scan_escaped`, `Literal.decode_escaped`: the literal ends at the quote after the
  written characters, and its body stands for the string, when the string holds no carriage
  return and no NUL, the two characters that program text cannot hold raw in a literal;
* `Literal.compiled_string_reads_back`: a string of letters compiles to `(lambda: lit)`, where
  `lit` is one literal token that the target reads as the string, whatever text follows it.
-/

namespace Interstellar

namespace Literal

/-- How a literal writes one character: a backslash, a line feed and a double quote as escapes,
any other character as itself. -/
def escapeChar (c : Char) : List Char :=
  if c = '\\' then ['\\', '\\']
  else if c = '\n' then ['\\', 'n']
  else if c = '"' then ['\\', '"']
  else [c]

end Literal

theorem toList_replaceChar (s : String) (c : Char) (new : String) :
    (replaceChar s c new).toList = s.toList.flatMap fun d => if d = c then new.toList else [d] := by
  simp [replaceChar]

/-- **The three replacements write each character on its own.** Since backslashes are doubled
first, no later replacement meets a character that an earlier one wrote. -/
theorem toList_escapeQuoted (s : String) :
    (escapeQuoted s).toList = s.toList.flatMap Literal.escapeChar := by
  simp only [escapeQuoted, toList_replaceChar, List.flatMap_assoc]
  apply List.flatMap_congr
  intro c _
  by_cases h₁ : c = '\\'
  · subst h₁; decide
  by_cases h₂ : c = '\n'
  · subst h₂; decide
  by_cases h₃ : c = '"'
  · subst h₃; decide
  simp [Literal.escapeChar, h₁, h₂, h₃]

namespace Literal

variable {named : String → Option Char}

/-! ### Finding the end of the literal -/

/-- A character that needs no escape and may stand raw in a literal is taken as it is. -/
theorem scan_plain {c : Char} (hq : c ≠ '"') (hb : c ≠ '\\')
    (hc : c ≠ '\n' ∧ c ≠ '\r' ∧ c ≠ '\x00') (rest : List Char) :
    scan (c :: rest) = (scan rest).map fun (body, r) => (c :: body, r) := by
  obtain ⟨h₁, h₂, h₃⟩ := hc
  simp [scan, hb, h₁, h₂, h₃]

/-- A backslash takes the character after it along, when that is neither a carriage return nor
a NUL. -/
theorem scan_backslash {c : Char} (hc : c ≠ '\r' ∧ c ≠ '\x00') (rest : List Char) :
    scan ('\\' :: c :: rest) = (scan rest).map fun (body, r) => ('\\' :: c :: body, r) := by
  obtain ⟨h₁, h₂⟩ := hc
  simp [scan, h₁, h₂]

/-- The literal of the written characters ends at the first quote after them, when the string
holds no carriage return and no NUL. -/
theorem scan_escaped {l : List Char} (hl : ∀ c ∈ l, c ≠ '\r' ∧ c ≠ '\x00') (rest : List Char) :
    scan (l.flatMap escapeChar ++ '"' :: rest) = some (l.flatMap escapeChar, rest) := by
  induction l with
  | nil => simp [scan]
  | cons c l ih =>
    simp only [List.forall_mem_cons] at hl
    have ih := ih hl.2
    simp only [List.flatMap_cons, List.append_assoc]
    by_cases h₁ : c = '\\'
    · subst h₁
      simp [escapeChar, scan_backslash, ih]
    by_cases h₂ : c = '\n'
    · subst h₂
      simp [escapeChar, scan_backslash, ih]
    by_cases h₃ : c = '"'
    · subst h₃
      simp [escapeChar, scan_backslash, ih]
    simp [escapeChar, h₁, h₂, h₃, scan_plain h₃ h₁ ⟨h₂, hl.1.1, hl.1.2⟩, ih]

/-! ### Decoding the body -/

theorem decode_of_item {x : Char} {xs out rest : List Char}
    (h : item named (x :: xs) = some (out, rest)) :
    decode named (x :: xs) = (out ++ ·) <$> decode named rest := by
  rw [decode]
  split
  · rename_i out' rest' h'
    rw [h] at h'
    cases h'
    rfl
  · rename_i h'
    rw [h] at h'
    cases h'

/-- A character other than a backslash is an item of its own. -/
theorem item_plain {c : Char} (hb : c ≠ '\\') (cs : List Char) :
    item named (c :: cs) = some ([c], cs) := by
  cases cs <;> simp [item, hb]

/-- The written form of each character is one item that stands for it. -/
theorem item_escapeChar (c : Char) (cs : List Char) :
    item named (escapeChar c ++ cs) = some ([c], cs) := by
  by_cases h₁ : c = '\\'
  · subst h₁; simp [escapeChar, item, escape, simple?]
  by_cases h₂ : c = '\n'
  · subst h₂; simp [escapeChar, item, escape, simple?]
  by_cases h₃ : c = '"'
  · subst h₃; simp [escapeChar, item, escape, simple?]
  simp [escapeChar, h₁, h₂, h₃, item_plain h₁]

/-- The body of written characters stands for them, whatever the table of names. -/
theorem decode_escaped (l : List Char) : decode named (l.flatMap escapeChar) = some l := by
  induction l with
  | nil => simp [decode]
  | cons c l ih =>
    -- every written form starts with a character
    obtain ⟨x, xs, hx⟩ : ∃ x xs, escapeChar c = x :: xs := by
      unfold escapeChar
      split_ifs <;> exact ⟨_, _, rfl⟩
    have hitem := @item_escapeChar named c (l.flatMap escapeChar)
    rw [hx, List.cons_append] at hitem
    rw [List.flatMap_cons, hx, List.cons_append, decode_of_item hitem, ih]
    rfl

/-- The literal of a string without carriage returns and NULs reads back as the string and
leaves the text after it. -/
theorem read_escaped {s : String} (hs : ∀ c ∈ s.toList, c ≠ '\r' ∧ c ≠ '\x00')
    (rest : List Char) :
    read named ('"' :: ((escapeQuoted s).toList ++ '"' :: rest)) = some (s, rest) := by
  rw [toList_escapeQuoted, read, scan_escaped hs rest]
  simp [decode_escaped]

/-- No letter of the alphabet is a carriage return or a NUL. -/
theorem letters_not_cr_nul : ∀ c ∈ Letter.alphabet, c ≠ '\r' ∧ c ≠ '\x00' := by
  -- checked as one boolean over the spelled-out alphabet
  have hall : (Letter.alphabet.all fun c => c != '\r' && c != '\x00') = true := by
    rw [Letter.alphabet_eq]
    rfl
  intro c hc
  simpa using List.all_eq_true.1 hall c hc

/-- **A compiled string reads back.** A string of letters compiles to `(lambda: lit)`, and the
target reads `lit` as one string literal that stands for the string, whatever text follows it,
so calling the compiled function gives the string. -/
theorem compiled_string_reads_back (s : String) (hs : ∀ c ∈ s.toList, c ∈ Letter.alphabet) :
    ∃ lit : String, (Term.str s).compile = .ok ("(lambda: " ++ lit ++ ")") ∧
      ∀ (named : String → Option Char) (rest : List Char),
        read named (lit.toList ++ rest) = some (s, rest) := by
  refine ⟨"\"" ++ escapeQuoted s ++ "\"", ?_, fun named rest => ?_⟩
  · show Except.ok ("(lambda: \"" ++ escapeQuoted s ++ "\")") = _
    simp only [String.append_assoc]
    rfl
  · have h := @read_escaped named s (fun c hc => letters_not_cr_nul c (hs c hc)) rest
    simpa [String.toList_append] using h

/-- The string of a backslash, a double quote and a line feed compiles to a literal that reads
back as it. -/
theorem compiled_string_reads_back_escapes :
    (∀ c ∈ "\\\"\n".toList, c ∈ Letter.alphabet) ∧
      ∃ lit : String, (Term.str "\\\"\n").compile = .ok ("(lambda: " ++ lit ++ ")") ∧
        ∀ (named : String → Option Char) (rest : List Char),
          read named (lit.toList ++ rest) = some ("\\\"\n", rest) := by
  have htext : "\\\"\n".toList = ['\\', '"', '\n'] := by decide
  have hs : ∀ c ∈ "\\\"\n".toList, c ∈ Letter.alphabet := by
    intro c hc
    simp only [htext, List.mem_cons, List.not_mem_nil, or_false] at hc
    rw [Letter.alphabet_eq]
    rcases hc with rfl | rfl | rfl <;> decide
  exact ⟨hs, compiled_string_reads_back _ hs⟩

end Literal

end Interstellar
