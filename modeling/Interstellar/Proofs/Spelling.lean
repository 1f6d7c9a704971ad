import Interstellar.Proofs.Reduce
import Mathlib.Data.Nat.Digits.Lemmas

/-!
# Numbers spelled in letters

`U$` writes a number in base 94 and reads its digits as letters; `U#` writes a string as the
digits of its letter codes and reads them as a base-94 number. Letters and digits go through
two tables, the alphabet and the digit characters, so the round trips hold only because the
`i`-th letter has code `i` (`Letter.code?_getElem`), and they lose exactly what a numeral loses
when it is read: its leading zero digits.

* `Numeral.normal`: a numeral without its leading zero digits `!`, or `!` when nothing is left;
  `Numeral.render_read` says that reading a numeral and writing the number again gives it;
  `Numeral.numeral_round_trips` says that numbers come back, and so do numerals of printable
  characters that are already normal;
* `Letter.encode_of_decode`: the letters a numeral spells are written as that numeral again;
* `Letter.dropZeros`: a string without its leading `a`s (the letter of code zero), or `a` when
  nothing is left; `Letter.normal_spell` says that it is what normalising the spelling keeps;
* `Term.unary_letters_round_trip`: `U# (U$ n)` gives back every natural number `n`, and
  `U$ (U# s)` gives `Letter.dropZeros s` for every string of letters `s`, so it gives `s`
  back exactly when `s` is `a` or starts with another letter.
-/

namespace Interstellar

namespace Numeral

/-- A numeral without its leading zero digits `!`; `!` itself when nothing is left. -/
def normal (cs : List Char) : String :=
  match cs.dropWhile (· == '!') with
  | [] => "!"
  | r => String.ofList r

theorem digitChar_beq_bang {d : Nat} (h : d < base) : (digitChar d == '!') = (d == 0) := by
  by_cases hd : d = 0
  · subst hd
    decide
  · -- the digit characters are told apart by their codes
    have hne : digitChar d ≠ '!' := fun he => by
      have hc := toNat_digitChar h
      rw [he] at hc
      simp at hc
      omega
    simp [hne, hd]

theorem dropWhile_map_digitChar {M : List Nat} (hM : ∀ d ∈ M, d < base) :
    (M.map digitChar).dropWhile (· == '!') = (M.dropWhile (· == 0)).map digitChar := by
  induction M with
  | nil => rfl
  | cons d M ih =>
    simp only [List.forall_mem_cons] at hM
    simp only [List.map_cons, List.dropWhile_cons, digitChar_beq_bang hM.1]
    split
    · exact ih hM.2
    · rfl

/-- Reading digits after `acc`: the digits, most significant first, are a base-94 numeral. -/
theorem readFrom_map_digitChar (acc : Nat) {M : List Nat} (hM : ∀ d ∈ M, d < base) :
    readFrom acc (M.map digitChar) =
      .ok (acc * base ^ M.length + Nat.ofDigits base M.reverse) := by
  induction M generalizing acc with
  | nil => simp [readFrom]
  | cons d M ih =>
    simp only [List.forall_mem_cons] at hM
    rw [List.map_cons, readFrom, step_digitChar acc hM.1, ok_bind, ih _ hM.2,
      Nat.ofDigits_reverse_cons, List.length_cons]
    congr 1
    ring

/-- The digits of a number are its base-94 digits, most significant first. -/
theorem digits_eq_map (n : Nat) : digits n = (Nat.digits base n).reverse.map digitChar := by
  induction n using Nat.strongRecOn with
  | ind n ih =>
    rw [digits]
    by_cases hn : n = 0
    · simp [hn]
    · have hpos := Nat.pos_of_ne_zero hn
      rw [if_neg hn, Nat.digits_def' (by decide) hpos, List.reverse_cons, List.map_append,
        ih _ (Nat.div_lt_self hpos (by decide))]
      rfl

theorem ofDigits_reverse_dropWhile (M : List Nat) :
    Nat.ofDigits base (M.dropWhile (· == 0)).reverse = Nat.ofDigits base M.reverse := by
  induction M with
  | nil => rfl
  | cons d M ih =>
    rw [List.dropWhile_cons]
    split
    · rename_i h
      rw [ih, Nat.ofDigits_reverse_cons, beq_iff_eq.1 h, Nat.mul_zero, Nat.add_zero]
    · rfl

theorem digits_ofDigits_reverse {M : List Nat} (hM : ∀ d ∈ M, d < base) :
    Nat.digits base (Nat.ofDigits base M.reverse) = (M.dropWhile (· == 0)).reverse := by
  rw [← ofDigits_reverse_dropWhile]
  apply Nat.digits_ofDigits _ (by decide)
  · intro d hd
    exact hM d (List.dropWhile_subset _ (List.mem_reverse.1 hd))
  · -- the most significant digit left is no zero
    intro hne
    rw [List.getLast_reverse]
    simpa using List.head_dropWhile_not (· == 0) (List.reverse_eq_nil_iff.not.1 hne)

/-- Writing the number that digits stand for gives them without their leading zeros. -/
theorem render_ofDigits {M : List Nat} (hM : ∀ d ∈ M, d < base) :
    render (Nat.ofDigits base M.reverse : Nat) = normal (M.map digitChar) := by
  unfold normal render
  rw [dropWhile_map_digitChar hM]
  cases hdrop : M.dropWhile (· == 0) with
  | nil =>
    have h0 : Nat.ofDigits base M.reverse = 0 := by
      rw [← ofDigits_reverse_dropWhile, hdrop]
      rfl
    simp [h0]
  | cons d M' =>
    have hne : Nat.ofDigits base M.reverse ≠ 0 := fun h0 => by
      have := digits_ofDigits_reverse hM
      rw [h0, hdrop] at this
      simp at this
    rw [if_neg (by exact_mod_cast hne), Int.toNat_natCast, digits_eq_map,
      digits_ofDigits_reverse hM, hdrop, List.reverse_reverse]
    rfl

/-- **Reading then writing a numeral** drops its leading zero digits: a numeral stands for a
number, which is written as the numeral without them, or `!` when no other digit is left. -/
theorem render_read {M : List Nat} (hM : ∀ d ∈ M, d < base) :
    ∃ n : Nat, read (String.ofList (M.map digitChar)) = .ok n ∧
      render n = normal (M.map digitChar) := by
  refine ⟨_, ?_, render_ofDigits hM⟩
  rw [read, String.toList_ofList, readFrom_map_digitChar 0 hM]
  simp

/-- Every printable character from `!` to `~` is the digit character of its value. -/
theorem digitChar_toNat_sub {c : Char} (h : 33 ≤ c.toNat ∧ c.toNat ≤ 126) :
    digitChar (c.toNat - 33) = c := by
  apply Char.toNat_inj.mp
  rw [toNat_digitChar (by unfold base; omega)]
  omega

/-- A numeral that is `!` alone or has no leading zero digit is its own normal form. -/
theorem normal_of_canonical {cs : List Char} (hne : cs ≠ [])
    (h : cs = ['!'] ∨ cs.head? ≠ some '!') : normal cs = String.ofList cs := by
  rcases h with rfl | h
  · rfl
  · obtain ⟨c, cs', rfl⟩ := List.exists_cons_of_ne_nil hne
    have hc : c ≠ '!' := fun he => h (by rw [he]; rfl)
    simp [normal, hc]

/-- **Base-94 numerals are read and written back.** Reading gives back every number that was
written; and writing the number that a numeral of digit characters stands for gives the
numeral back exactly when nothing is lost in reading it: it is `!` or has no leading zero
digit. -/
theorem numeral_round_trips :
    (∀ n : Nat, read (render n) = .ok n) ∧
    ∀ d : String, d ≠ "" → (∀ c ∈ d.toList, 33 ≤ c.toNat ∧ c.toNat ≤ 126) →
      (d = "!" ∨ d.toList.head? ≠ some '!') → ∃ n, read d = .ok n ∧ render n = d := by
  refine ⟨read_render, fun d hne hd hcanon => ?_⟩
  -- the digit values of `d`, whose digit characters spell `d` again
  have hM : ∀ x ∈ d.toList.map (·.toNat - 33), x < base := by
    simp only [List.mem_map]
    rintro x ⟨c, hc, rfl⟩
    have := hd c hc
    unfold base
    omega
  have hspell : (d.toList.map (·.toNat - 33)).map digitChar = d.toList := by
    rw [List.map_map]
    exact (List.map_congr_left fun c hc => digitChar_toNat_sub (hd c hc)).trans (List.map_id _)
  obtain ⟨n, hread, hrender⟩ := render_read hM
  rw [hspell, String.ofList_toList] at hread
  rw [hspell] at hrender
  have hcanon' : d.toList = ['!'] ∨ d.toList.head? ≠ some '!' := by
    rcases hcanon with rfl | h
    · exact .inl rfl
    · exact .inr h
  refine ⟨n, hread, ?_⟩
  rw [hrender, normal_of_canonical (by simpa using hne) hcanon', String.ofList_toList]

/-- The numeral `"!`, a one and then a zero digit, is written back as itself. -/
theorem numeral_round_trips_ninety_four :
    ("\"!" ≠ "" ∧ (∀ c ∈ "\"!".toList, 33 ≤ c.toNat ∧ c.toNat ≤ 126) ∧
      ("\"!" = "!" ∨ "\"!".toList.head? ≠ some '!')) ∧
    ∃ n, read "\"!" = .ok n ∧ render n = "\"!" := by
  have htext : "\"!".toList = ['"', '!'] := by decide
  have hdigits : ∀ c ∈ "\"!".toList, 33 ≤ c.toNat ∧ c.toNat ≤ 126 := by
    intro c hc
    simp only [htext, List.mem_cons, List.not_mem_nil, or_false] at hc
    rcases hc with rfl | rfl <;> decide
  have h : "\"!" ≠ "" ∧ (∀ c ∈ "\"!".toList, 33 ≤ c.toNat ∧ c.toNat ≤ 126) ∧
      ("\"!" = "!" ∨ "\"!".toList.head? ≠ some '!') :=
    ⟨by decide, hdigits, .inr (by decide)⟩
  exact ⟨h, numeral_round_trips.2 _ h.1 h.2.1 h.2.2⟩

end Numeral

namespace Letter

/-- The letters, one by one: the text is decoded once here, and facts about single letters
read the list. -/
theorem alphabet_eq : alphabet =
    ['a', 'b', 'c', 'd', 'e', 'f', 'g', 'h', 'i', 'j', 'k', 'l', 'm', 'n', 'o', 'p', 'q', 'r',
      's', 't', 'u', 'v', 'w', 'x', 'y', 'z', 'A', 'B', 'C', 'D', 'E', 'F', 'G', 'H', 'I', 'J',
      'K', 'L', 'M', 'N', 'O', 'P', 'Q', 'R', 'S', 'T', 'U', 'V', 'W', 'X', 'Y', 'Z', '0', '1',
      '2', '3', '4', '5', '6', '7', '8', '9', '!', '"', '#', '$', '%', '&', '\'', '(', ')', '*',
      '+', ',', '-', '.', '/', ':', ';', '<', '=', '>', '?', '@', '[', '\\', ']', '^', '_', '`',
      '|', '~', ' ', '\n'] := by
  decide +kernel

theorem nodup_alphabet : alphabet.Nodup := by
  rw [alphabet_eq]
  decide

theorem code?_a : code? 'a' = some 0 := by
  rw [code?, alphabet_eq]
  rfl

/-- The `i`-th letter has code `i`: no letter comes twice in the alphabet. -/
theorem code?_getElem {i : Nat} (h : i < alphabet.length) : code? alphabet[i] = some i :=
  List.idxOf?_eq_some_iff.2 ⟨h, rfl, fun j hj he => by
    have := (nodup_alphabet.getElem_inj_iff).1 he
    omega⟩

/-- A body character spells the letter whose code is its digit value. -/
theorem exists_of_decodeChar {c l : Char} (h : decodeChar c = .ok l) :
    ∃ (i : Nat) (hi : i < alphabet.length), c = Numeral.digitChar i ∧ alphabet[i] = l := by
  unfold decodeChar ofCode? at h
  dsimp only at h
  split at h
  · rename_i hl
    cases h
    split at hl
    · rename_i h0
      obtain ⟨hi, hget⟩ := Array.getElem?_eq_some_iff.1 hl
      simp only [table, List.size_toArray, List.getElem_toArray] at hi hget
      refine ⟨_, hi, ?_, hget⟩
      -- the code is the character's own code point less 33
      rw [Numeral.digitChar, show ((c.toNat : Int) - 33).toNat + 33 = c.toNat by omega,
        Char.ofNat_toNat]
    · cases hl
  · cases h

/-- The letter a body character spells is written as that character again. -/
theorem encodeChar_of_decodeChar {c l : Char} (h : decodeChar c = .ok l) :
    encodeChar l = .ok c := by
  obtain ⟨i, hi, rfl, rfl⟩ := exists_of_decodeChar h
  unfold encodeChar
  rw [code?_getElem hi]

/-- The letters a token body spells are written as that body again. -/
theorem encode_of_decode {body s : String} (h : decode body = .ok s) : encode s = .ok body := by
  suffices hl : ∀ (cs ls : List Char), cs.mapM decodeChar = .ok ls →
      ls.mapM encodeChar = .ok cs by
    obtain ⟨ls, hls, rfl⟩ := map_eq_ok.1 h
    rw [encode, String.toList_ofList, hl _ _ hls]
    simp
  intro cs
  induction cs with
  | nil =>
    intro ls h
    cases h
    rfl
  | cons c cs ih =>
    intro ls h
    rw [List.mapM_cons] at h
    obtain ⟨l, hl, h⟩ := bind_eq_ok.1 h
    obtain ⟨ls', hls', h⟩ := bind_eq_ok.1 h
    cases h
    simp [encodeChar_of_decodeChar hl, ih _ hls']

/-- `a` is the letter of code zero. -/
theorem code?_getD_eq_zero {c : Char} (hc : c ∈ alphabet) : ((code? c).getD 0 = 0) ↔ c = 'a' := by
  obtain ⟨i, hi⟩ := exists_code? hc
  have hget := getElem?_of_code? hi
  rw [hi, Option.getD_some]
  constructor
  · rintro rfl
    have h0 : alphabet[0]? = some 'a' := by
      rw [alphabet_eq]
      rfl
    exact Option.some.inj (hget.symm.trans h0)
  · rintro rfl
    exact Option.some.inj (hi.symm.trans code?_a)

theorem code_lt_base {c : Char} (hc : c ∈ alphabet) : (code? c).getD 0 < Numeral.base := by
  obtain ⟨i, hi⟩ := exists_code? hc
  simpa [hi, Numeral.base, length_alphabet] using lt_of_code? hi

/-- The digit of a letter is `!` exactly when the letter is `a`. -/
theorem digitChar_code_beq_bang {c : Char} (hc : c ∈ alphabet) :
    (Numeral.digitChar ((code? c).getD 0) == '!') = (c == 'a') := by
  rw [Numeral.digitChar_beq_bang (code_lt_base hc)]
  have := code?_getD_eq_zero hc
  by_cases h : c = 'a' <;> simp_all

/-- A string without its leading `a`s, the letter of code zero; `a` when nothing is left. -/
def dropZeros (s : String) : String :=
  match s.toList.dropWhile (· == 'a') with
  | [] => "a"
  | r => String.ofList r

theorem toList_dropZeros (s : String) :
    (dropZeros s).toList =
      if s.toList.dropWhile (· == 'a') = [] then ['a'] else s.toList.dropWhile (· == 'a') := by
  unfold dropZeros
  split <;> simp_all

theorem mem_alphabet_dropZeros {s : String} (h : ∀ c ∈ s.toList, c ∈ alphabet) :
    ∀ c ∈ (dropZeros s).toList, c ∈ alphabet := by
  rw [toList_dropZeros]
  split
  · simp only [List.mem_singleton, forall_eq]
    rw [alphabet_eq]
    exact List.mem_cons_self
  · exact fun c hc => h c (List.dropWhile_subset _ hc)

/-- `dropZeros` keeps a string exactly when it is `a` or starts with another letter. -/
theorem dropZeros_eq_self_iff (s : String) :
    dropZeros s = s ↔ s = "a" ∨ ∃ c, s.toList.head? = some c ∧ c ≠ 'a' := by
  rw [← String.toList_inj, toList_dropZeros, ← String.toList_inj,
    show "a".toList = ['a'] by decide]
  generalize s.toList = l
  rcases l with _ | ⟨c, cs⟩
  · simp
  · by_cases hc : c = 'a'
    · subst hc
      simp only [List.dropWhile_cons, beq_self_eq_true, if_true, List.cons.injEq, true_and,
        List.head?_cons, Option.some.injEq, ne_eq]
      split_ifs with h
      · simp [eq_comm]
      · -- what is left after the first `a` is a suffix of the rest, too short to be all of it
        have hlen := (List.dropWhile_suffix (· == 'a') (l := cs)).length_le
        constructor
        · intro he
          have := congrArg List.length he
          simp only [List.length_cons] at this
          omega
        · rintro (rfl | ⟨c, rfl, hc⟩)
          · exact absurd rfl h
          · exact absurd rfl hc
    · simp [hc]

/-- The codes of the letters of a string, as base-94 digits. -/
def codes (s : String) : List Nat := s.toList.map fun c => (code? c).getD 0

theorem codes_lt {s : String} (h : ∀ c ∈ s.toList, c ∈ alphabet) :
    ∀ d ∈ codes s, d < Numeral.base := by
  simp only [codes, List.mem_map, forall_exists_index, and_imp, forall_apply_eq_imp_iff₂]
  exact fun c hc => code_lt_base (h c hc)

theorem toList_spell (s : String) : (spell s).toList = (codes s).map Numeral.digitChar := by
  rw [spell, codes, List.map_map, String.toList_ofList]
  rfl

/-- Normalising the spelling of a string of letters spells it without its leading `a`s. -/
theorem normal_spell {s : String} (h : ∀ c ∈ s.toList, c ∈ alphabet) :
    Numeral.normal (spell s).toList = spell (dropZeros s) := by
  have key : ∀ l : List Char, (∀ c ∈ l, c ∈ alphabet) →
      l.dropWhile ((· == '!') ∘ fun c => Numeral.digitChar ((code? c).getD 0)) =
        l.dropWhile (· == 'a') := by
    intro l hl
    induction l with
    | nil => rfl
    | cons c cs ih =>
      simp only [List.forall_mem_cons] at hl
      simp only [List.dropWhile_cons, Function.comp_apply, digitChar_code_beq_bang hl.1]
      split
      · exact ih hl.2
      · rfl
  unfold Numeral.normal dropZeros
  rw [spell, String.toList_ofList, List.dropWhile_map, key _ h]
  cases s.toList.dropWhile (· == 'a') with
  | nil =>
    show "!" = spell "a"
    rw [spell, show "a".toList = ['a'] by decide, List.map_singleton, code?_a]
    decide
  | cons c cs => simp [spell]

/-- Every numeral spells a string of letters. -/
theorem exists_decode_map {M : List Nat} (hM : ∀ d ∈ M, d < Numeral.base) :
    ∃ x, decode (String.ofList (M.map Numeral.digitChar)) = .ok x := by
  suffices h : ∃ ls, (M.map Numeral.digitChar).mapM decodeChar = .ok ls by
    obtain ⟨ls, h⟩ := h
    exact ⟨_, by rw [decode, String.toList_ofList, h]; rfl⟩
  induction M with
  | nil => exact ⟨[], rfl⟩
  | cons d M ih =>
    simp only [List.forall_mem_cons] at hM
    obtain ⟨ls, h⟩ := ih hM.2
    have hd : d < alphabet.length := by simpa [length_alphabet, Numeral.base] using hM.1
    exact ⟨_, by rw [List.map_cons, List.mapM_cons, decodeChar_digitChar hd, h]; rfl⟩

end Letter

namespace Numeral

/-- Every number is written with digits. -/
theorem exists_render_eq (n : Nat) :
    ∃ M : List Nat, (∀ d ∈ M, d < base) ∧ render n = String.ofList (M.map digitChar) := by
  by_cases hn : n = 0
  · subst hn
    refine ⟨[0], by simp [base], ?_⟩
    rw [render, if_pos (by simp)]
    decide
  · refine ⟨(Nat.digits base n).reverse, fun d hd => ?_, ?_⟩
    · exact Nat.digits_lt_base (by decide) (List.mem_reverse.1 hd)
    · rw [render, if_neg (by exact_mod_cast hn), Int.toNat_natCast, digits_eq_map]

end Numeral

namespace Value

/-- The letters of a number's digits are counted back to the number. -/
theorem lettersOfNumber_numberOfLetters (n : Nat) :
    ∃ x, (Value.int n : Scalar).lettersOfNumber = .ok (.str x) ∧
      (Value.str x : Scalar).numberOfLetters = .ok (.int n) := by
  obtain ⟨M, hM, hr⟩ := Numeral.exists_render_eq n
  obtain ⟨x, hx⟩ := Letter.exists_decode_map hM
  refine ⟨x, ?_, ?_⟩
  · show Value.str <$> Letter.decode (Numeral.render n) = _
    rw [hr, hx]
    rfl
  · simp only [numberOfLetters, letterText, Letter.encode_of_decode (hr ▸ hx), ok_bind,
      Numeral.read_render]
    rfl

/-- The number that a string of letters counts to spells the string without its leading
`a`s. -/
theorem numberOfLetters_lettersOfNumber {s : String}
    (hs : ∀ c ∈ s.toList, c ∈ Letter.alphabet) :
    ∃ n : Nat, (Value.str s : Scalar).numberOfLetters = .ok (.int n) ∧
      (Value.int n : Scalar).lettersOfNumber = .ok (.str (Letter.dropZeros s)) := by
  obtain ⟨n, hn, hrender⟩ := Numeral.render_read (Letter.codes_lt hs)
  have hspell : Letter.spell s = String.ofList ((Letter.codes s).map Numeral.digitChar) := by
    rw [← Letter.toList_spell, String.ofList_toList]
  refine ⟨n, ?_, ?_⟩
  · simp only [numberOfLetters, letterText, Letter.encode_eq_spell hs, hspell, ok_bind, hn]
    rfl
  · show Value.str <$> Letter.decode (Numeral.render n) = _
    rw [hrender, ← Letter.toList_spell, Letter.normal_spell hs,
      Letter.decode_spell (Letter.mem_alphabet_dropZeros hs)]
    rfl

end Value

namespace Term

theorem applyUnary_count (v : Scalar) : applyUnary "#" v = .lit .integer <$> v.numberOfLetters :=
  rfl

theorem applyUnary_spell (v : Scalar) : applyUnary "$" v = .lit .string <$> v.lettersOfNumber :=
  rfl

/-- Two unary operators on a literal: the inner one's result is the outer one's operand. -/
theorem reduce_unary_unary {op₁ op₂ : String} {k : Kind} {s s' : Scalar} {w v : Term}
    (h₁ : applyUnary op₁ s = .ok w) (hw : w.payload = .ok s') (h₂ : applyUnary op₂ s' = .ok v) :
    reduce (.unary op₂ (.unary op₁ (.lit k s))) = .ok v := by
  show reduceN (99998 + 1 + 1) _ = _
  exact reduceN_unary_eq_ok.2 ⟨w, s', reduceN_unary_eq_ok.2 ⟨_, s, reduceN_lit k s, rfl, h₁⟩,
    hw, h₂⟩

/-- **Counting the letters of a spelled number.** `U# (U$ n)` gives back every number `n ≥ 0`.
`U$ (U# s)`, for a string `s` of letters, gives `s` without its leading `a`s, or `a` when
nothing is left; so it gives `s` back exactly when `s` is `a` or starts with another letter. -/
theorem unary_letters_round_trip :
    (∀ n : Nat, reduce (.unary "#" (.unary "$" (int n))) = .ok (int n)) ∧
    ∀ s : String, (∀ c ∈ s.toList, c ∈ Letter.alphabet) →
      reduce (.unary "$" (.unary "#" (str s))) = .ok (str (Letter.dropZeros s)) ∧
      (reduce (.unary "$" (.unary "#" (str s))) = .ok (str s) ↔
        s = "a" ∨ ∃ c, s.toList.head? = some c ∧ c ≠ 'a') := by
  refine ⟨fun n => ?_, fun s hs => ?_⟩
  · obtain ⟨x, hx, hn⟩ := Value.lettersOfNumber_numberOfLetters n
    exact reduce_unary_unary (by rw [applyUnary_spell, hx]; rfl) rfl
      (by rw [applyUnary_count, hn]; rfl)
  · obtain ⟨n, hn, hx⟩ := Value.numberOfLetters_lettersOfNumber hs
    have hr : reduce (.unary "$" (.unary "#" (str s))) = .ok (str (Letter.dropZeros s)) :=
      reduce_unary_unary (by rw [applyUnary_count, hn]; rfl) rfl
        (by rw [applyUnary_spell, hx]; rfl)
    refine ⟨hr, ?_⟩
    rw [hr, ← Letter.dropZeros_eq_self_iff]
    simp

/-- Counting the letters of `aab` and spelling the count gives `b`: the leading `a`s are
zero digits. -/
theorem count_then_spell_aab :
    (∀ c ∈ "aab".toList, c ∈ Letter.alphabet) ∧
      reduce (.unary "$" (.unary "#" (str "aab"))) = .ok (str "b") := by
  have htext : "aab".toList = ['a', 'a', 'b'] := by decide
  have hs : ∀ c ∈ "aab".toList, c ∈ Letter.alphabet := by
    intro c hc
    simp only [htext, List.mem_cons, List.not_mem_nil, or_false] at hc
    rw [Letter.alphabet_eq]
    rcases hc with rfl | rfl | rfl <;> decide
  have hdrop : Letter.dropZeros "aab" = "b" := by
    rw [Letter.dropZeros, htext]
    decide
  exact ⟨hs, hdrop ▸ (unary_letters_round_trip.2 "aab" hs).1⟩

end Term

end Interstellar
