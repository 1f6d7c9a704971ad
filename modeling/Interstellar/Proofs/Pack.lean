import Interstellar.Pack
import Interstellar.Proofs.Scope
import Mathlib.Data.List.Induction
import Mathlib.Data.List.GetD
import Mathlib.Data.List.TakeWhile

/-!
# What a packed prompt evaluates to

`Pack.attempt` sends a prompt either as its plain string token or as a program that computes
it: the fixed point of a decoder, applied to the prompt read as a base-`k` number over its `k`
distinct characters. This module reads that program and evaluates it for every prompt:

* `Pack.program`: the packed program as a term, with `Pack.fix`, `Pack.decoder` and its
  `Pack.body`; `Pack.text_eq` says that `pack` prints exactly this term;
* `Pack.value`: a number from its digits, most significant first;
* `Pack.evaluates_decode`, by induction over the digits from the least significant end: the
  decoder gives its first character and then the characters of the digits past the leading
  zeros;
* `Pack.evaluates_program`: the packed program gives the prompt's first character followed by
  the prompt past all its leading repetitions of that character;
* `Pack.attempt_sends`: what `attempt` sends, what it reads as, and when the packed program
  gives the prompt back.

A prompt whose first character repeats loses those repetitions when it is sent packed
(`Pack.attempt_two_hundred_a`).
-/

namespace Interstellar

namespace Term


/-! ### Operators on numbers and strings

The operators the decoder uses, on operands that evaluate to literals. -/

section Operators

variable {a b : Term}

theorem evaluates_eq_zero {n : Nat} (ha : Evaluates a (int n)) :
    Evaluates (.binary "=" a (int 0)) (bool (n == 0)) := by
  refine Evaluates.binary (by decide) ha (evaluates_lit _ _) rfl rfl ?_
  rw [← show ((n : Int) == 0) = (n == 0) by cases n <;> rfl]
  rfl

theorem evaluates_div {n k : Nat} (ha : Evaluates a (int n)) (hk : k ≠ 0) :
    Evaluates (.binary "/" a (int k)) (int (n / k : Nat)) := by
  refine Evaluates.binary (by decide) ha (evaluates_lit _ _) rfl rfl ?_
  have hk' : (k : Int) ≠ 0 := by exact_mod_cast hk
  show (lit .integer <$> Value.quotient (.int (n : Int)) (.int (k : Int)) : Except Fault Term) = _
  simp only [Value.quotient, Value.asInt?, if_neg hk', map_ok, Value.towardZero_eq_tdiv _ hk']
  rfl

theorem evaluates_mod {n k : Nat} (ha : Evaluates a (int n)) (hk : k ≠ 0) :
    Evaluates (.binary "%" a (int k)) (int (n % k : Nat)) := by
  refine Evaluates.binary (by decide) ha (evaluates_lit _ _) rfl rfl ?_
  have hk' : (k : Int) ≠ 0 := by exact_mod_cast hk
  show (lit .integer <$> Value.remainder (.int (n : Int)) (.int (k : Int)) : Except Fault Term) = _
  simp only [Value.remainder, Value.asInt?, if_neg hk', map_ok, Value.signedRemainder_eq_tmod]
  rfl

/-- `D` keeps all but the first `d` characters of a string with at least `d` of them. -/
theorem evaluates_drop {d : Nat} {s : String} (ha : Evaluates a (int d)) (hd : d ≤ s.length) :
    Evaluates (.binary "D" a (str s)) (str (String.ofList (s.toList.drop d))) := by
  refine Evaluates.binary (by decide) ha (evaluates_lit _ _) rfl rfl ?_
  show (lit .string <$> Value.drop (.str s) (.int (d : Int)) : Except Fault Term) = _
  simp only [Value.drop, Value.asInt?, Value.sliceIndex, map_ok]
  rw [if_neg (by omega), Int.toNat_natCast, Nat.min_eq_left hd]

/-- `T` with count one keeps the first character. -/
theorem evaluates_take_one {s : String} (hb : Evaluates b (str s)) :
    Evaluates (.binary "T" (int 1) b) (str (String.ofList (s.toList.take 1))) := by
  refine Evaluates.binary (by decide) (evaluates_lit _ _) hb rfl rfl ?_
  show (lit .string <$> Value.take (.str s) (.int 1) : Except Fault Term) = _
  simp only [Value.take, Value.asInt?, Value.sliceIndex, map_ok]
  rw [if_neg (by omega), Int.toNat_one, ← String.length_toList, ← List.take_eq_take_min]

theorem evaluates_concat {x y : String} (ha : Evaluates a (str x)) (hb : Evaluates b (str y)) :
    Evaluates (.binary "." a b) (str (x ++ y)) :=
  Evaluates.binary (by decide) ha hb rfl rfl rfl

end Operators

end Term

/-- A number below the base is written as one digit. -/
theorem Numeral.render_of_lt_base {n : Nat} (h₀ : 0 < n) (h : n < Numeral.base) :
    Numeral.render n = String.singleton (Numeral.digitChar n) := by
  have hd : Numeral.digits n = [Numeral.digitChar n] := by
    rw [Numeral.digits, if_neg (by omega), Nat.div_eq_of_lt h, Nat.mod_eq_of_lt h, Numeral.digits]
    rfl
  rw [Numeral.render, if_neg (by omega), Int.toNat_natCast, hd, String.singleton_eq_ofList]

theorem Numeral.render_zero : Numeral.render 0 = "!" := by rw [Numeral.render, if_pos rfl]

theorem Numeral.render_one : Numeral.render 1 = "\"" := by
  rw [show (1 : Int) = ((1 : Nat) : Int) from rfl, Numeral.render_of_lt_base (by decide) (by decide)]
  decide

theorem Numeral.render_two : Numeral.render 2 = "#" := by
  rw [show (2 : Int) = ((2 : Nat) : Int) from rfl, Numeral.render_of_lt_base (by decide) (by decide)]
  decide

namespace Pack

open Term

/-! ### The decoder -/

/-- `L# B$ v" B$ v# v#`: half of the fixed-point combinator, applying the function `v"` to its
own self-application. -/
def selfApply : Term := .lam 2 (.binary "$" (.var 1) (.binary "$" (.var 2) (.var 2)))

/-- The fixed-point combinator `L" B$ <selfApply> <selfApply>`. -/
def fix : Term := .lam 1 (.binary "$" selfApply selfApply)

/-- The decoder's body, with `self` for its recursive call and `n` for the number still to
decode: `? B= n I! <first> B. B$ self B/ n <k> BT I" BD B% n <k> <chars>`. -/
def body (first chars : String) (k : Nat) (self n : Term) : Term :=
  .cond (.binary "=" n (int 0)) (str first)
    (.binary "." (.binary "$" self (.binary "/" n (int k)))
      (.binary "T" (int 1) (.binary "D" (.binary "%" n (int k)) (str chars))))

/-- The decoder `L" L# <body v" v#>`. -/
def decoder (first chars : String) (k : Nat) : Term :=
  .lam 1 (.lam 2 (body first chars k (.var 1) (.var 2)))

/-- `L# B$ <decoder> B$ v# v#`: the half of the fixed-point combinator with the decoder in
place. -/
def unrolled (first chars : String) (k : Nat) : Term :=
  .lam 2 (.binary "$" (decoder first chars k) (.binary "$" (.var 2) (.var 2)))

/-- The decoder's recursive call: the self-application of `unrolled`. -/
def recur (first chars : String) (k : Nat) : Term :=
  .binary "$" (unrolled first chars k) (unrolled first chars k)

section Unfold

variable (first chars : String) (k : Nat)

/-- The recursive call unfolds to one more step of the decoder. -/
theorem evaluates_recur :
    Evaluates (recur first chars k) (.lam 2 (body first chars k (recur first chars k) (.var 2))) :=
  Evaluates.app (evaluates_lam _ _) rfl (Evaluates.app (evaluates_lam _ _) rfl (evaluates_lam _ _))

/-- The fixed point of the decoder is its recursive call. -/
theorem evaluates_fix_decoder :
    Evaluates (.binary "$" fix (decoder first chars k))
      (.lam 2 (body first chars k (recur first chars k) (.var 2))) :=
  Evaluates.app (evaluates_lam _ _) rfl (evaluates_recur first chars k)

/-- Calling the recursive call on a number runs the decoder's body on it. -/
theorem evaluates_recur_app {e v : Term}
    (h : Evaluates (body first chars k (recur first chars k) e) v) :
    Evaluates (.binary "$" (recur first chars k) e) v :=
  Evaluates.app (evaluates_recur first chars k) rfl h

end Unfold

section Steps

variable (first : String) {chars : String} {k : Nat} {self e : Term}

/-- At zero the decoder gives its first character. -/
theorem evaluates_body_zero (he : Evaluates e (int 0)) :
    Evaluates (body first chars k self e) (str first) :=
  Evaluates.cond (evaluates_eq_zero (n := 0) he) rfl (evaluates_lit _ _)

/-- Above zero the decoder gives the decoding of the quotient, then the character the
remainder picks. -/
theorem evaluates_body_pos {n : Nat} {a : String} (he : Evaluates e (int n)) (hn : n ≠ 0)
    (hk : k ≠ 0) (hd : n % k ≤ chars.length)
    (hself : Evaluates (.binary "$" self (.binary "/" e (int k))) (str a)) :
    Evaluates (body first chars k self e)
      (str (a ++ String.ofList ((chars.toList.drop (n % k)).take 1))) := by
  refine Evaluates.cond (evaluates_eq_zero he) rfl ?_
  have htest : (Value.bool (n == 0) : Scalar).truthy = false := by simpa [Value.truthy] using hn
  rw [htest, if_neg Bool.false_ne_true]
  have hrest := evaluates_take_one (evaluates_drop (evaluates_mod he hk) hd)
  rw [String.toList_ofList] at hrest
  exact evaluates_concat hself hrest

end Steps

/-! ### Decoding digits -/

/-- The number whose base-`k` digits are `ds`, most significant first. -/
def value (k : Nat) (ds : List Nat) : Nat := ds.foldl (fun acc d => acc * k + d) 0

theorem value_concat (k : Nat) (ds : List Nat) (d : Nat) :
    value k (ds ++ [d]) = value k ds * k + d := by
  rw [value, List.foldl_append]
  rfl

/-- A number is zero exactly when all its digits are. -/
theorem value_eq_zero_iff {k : Nat} (hk : 0 < k) {ds : List Nat} :
    value k ds = 0 ↔ ds.dropWhile (· == 0) = [] := by
  induction ds using List.reverseRecOn with
  | nil => simp [value]
  | append_singleton ds d ih =>
    rw [value_concat, List.dropWhile_append]
    by_cases h : ds.dropWhile (· == 0) = []
    · rw [if_pos (by simp [h]), ih.2 h]
      by_cases hd : d = 0 <;> simp [hd]
    · rw [if_neg (by simpa using h)]
      have hpos : 0 < value k ds * k := Nat.mul_pos (Nat.pos_of_ne_zero (mt ih.1 h)) hk
      simp only [List.append_eq_nil_iff, List.cons_ne_self, and_false, iff_false]
      omega

/-- Past its leading zeros, a nonzero number's digits end with its last digit. -/
theorem dropWhile_concat {k : Nat} (hk : 0 < k) {ds : List Nat} {d : Nat}
    (h : value k (ds ++ [d]) ≠ 0) :
    (ds ++ [d]).dropWhile (· == 0) = ds.dropWhile (· == 0) ++ [d] := by
  rw [List.dropWhile_append]
  split
  · rename_i hds
    have hz : value k ds = 0 := (value_eq_zero_iff hk).2 (List.isEmpty_iff.1 hds)
    rw [value_concat, hz] at h
    simp [List.isEmpty_iff.1 hds, show d ≠ 0 by omega]
  · rfl

/-- Of the characters after the first `d`, the first. -/
theorem take_one_drop {cs : List Char} {d : Nat} (c : Char) (h : d < cs.length) :
    (cs.drop d).take 1 = [cs.getD d c] := by
  rw [List.drop_eq_getElem_cons h, List.getD_eq_getElem _ _ h]
  rfl

/-- **Decoding.** The decoder's body on a number with digits `ds` over the characters `cs`
gives the first character, then the characters of the digits past the leading zeros. -/
theorem evaluates_decode (c : Char) (cs : List Char) {ds : List Nat}
    (hds : ∀ d ∈ ds, d < cs.length) {e : Term} (he : Evaluates e (int (value cs.length ds))) :
    Evaluates (body (String.singleton c) (String.ofList cs) cs.length
        (recur (String.singleton c) (String.ofList cs) cs.length) e)
      (str (String.ofList (c :: (ds.dropWhile (· == 0)).map (cs.getD · c)))) := by
  induction ds using List.reverseRecOn generalizing e with
  | nil =>
    rw [List.dropWhile_nil, List.map_nil, ← String.singleton_eq_ofList]
    exact evaluates_body_zero _ he
  | append_singleton ds d ih =>
    have hd : d < cs.length := hds d (by simp)
    have hk : 0 < cs.length := by omega
    have hq : value cs.length (ds ++ [d]) / cs.length = value cs.length ds := by
      rw [value_concat, Nat.mul_comm, Nat.mul_add_div hk, Nat.div_eq_of_lt hd, Nat.add_zero]
    have hr : value cs.length (ds ++ [d]) % cs.length = d := by
      rw [value_concat, Nat.mul_comm, Nat.mul_add_mod, Nat.mod_eq_of_lt hd]
    by_cases hn : value cs.length (ds ++ [d]) = 0
    · -- all digits are zero: the decoder stops at once
      rw [(value_eq_zero_iff hk).1 hn, List.map_nil, ← String.singleton_eq_ofList]
      exact evaluates_body_zero _ (by simpa [hn] using he)
    · -- one digit more: the quotient is the number of the other digits
      have hself := evaluates_recur_app _ _ _
        (ih (fun d' hd' => hds d' (by simp [hd'])) (hq ▸ evaluates_div he (by omega)))
      have hlen : value cs.length (ds ++ [d]) % cs.length ≤ (String.ofList cs).length := by
        rw [hr, String.length_ofList]
        omega
      have h := evaluates_body_pos (String.singleton c) he hn (by omega) hlen hself
      rw [hr, String.toList_ofList, take_one_drop c hd, ← String.ofList_append] at h
      rw [dropWhile_concat hk hn, List.map_append]
      simpa using h

/-! ### The distinct characters and the number -/

/-- One step of collecting the distinct characters. -/
theorem distinct_eq_foldl (p : String) :
    distinct p = p.toList.foldl (fun acc c => if acc.contains c then acc else acc ++ [c]) [] := by
  rw [distinct, String.foldl_eq_foldl_toList]

theorem mem_foldl_collect (l acc : List Char) (x : Char) :
    x ∈ l.foldl (fun acc c => if acc.contains c then acc else acc ++ [c]) acc ↔ x ∈ acc ∨ x ∈ l := by
  induction l generalizing acc with
  | nil => simp
  | cons c l ih =>
    rw [List.foldl_cons, ih]
    by_cases hc : c ∈ acc
    · simp only [List.contains_iff_mem.2 hc, if_true, List.mem_cons]
      constructor
      · rintro (h | h)
        · exact .inl h
        · exact .inr (.inr h)
      · rintro (h | rfl | h)
        · exact .inl h
        · exact .inl hc
        · exact .inr h
    · simp [hc, or_assoc]

theorem prefix_foldl_collect (l acc : List Char) :
    acc <+: l.foldl (fun acc c => if acc.contains c then acc else acc ++ [c]) acc := by
  induction l generalizing acc with
  | nil => exact List.prefix_refl acc
  | cons c l ih =>
    rw [List.foldl_cons]
    split
    · exact ih acc
    · exact (List.prefix_append acc [c]).trans (ih _)

theorem mem_distinct {p : String} {x : Char} : x ∈ distinct p ↔ x ∈ p.toList := by
  rw [distinct_eq_foldl, mem_foldl_collect]
  simp

/-- The first distinct character is the text's first character. -/
theorem distinct_eq_cons {p : String} {c : Char} {rest : List Char} (h : p.toList = c :: rest) :
    ∃ cs, distinct p = c :: cs := by
  rw [distinct_eq_foldl, h, List.foldl_cons]
  obtain ⟨cs, hcs⟩ := prefix_foldl_collect rest [c]
  exact ⟨cs, by simpa using hcs.symm⟩

/-- The packed number has the indices of the text's characters as its digits. -/
theorem number_eq_value (cs : List Char) (p : String) :
    number cs p = value cs.length (p.toList.map (cs.idxOf ·)) := by
  rw [number, String.foldl_eq_foldl_toList, value, List.foldl_map]

/-- Looking up the index of a character that is there gives it back. -/
theorem map_getD_idxOf {cs l : List Char} (c : Char) (hl : ∀ x ∈ l, x ∈ cs) :
    (l.map (cs.idxOf ·)).map (cs.getD · c) = l := by
  induction l with
  | nil => rfl
  | cons x l ih =>
    have hx : cs.idxOf x < cs.length := List.idxOf_lt_length_iff.2 (hl x List.mem_cons_self)
    rw [List.map_cons, List.map_cons, List.getD_eq_getElem _ _ hx, List.getElem_idxOf hx,
      ih fun y hy => hl y (List.mem_cons_of_mem x hy)]

/-- Past the leading zeros, the digits of a text are the text past its leading repetitions of
its first character. -/
theorem map_dropWhile_idxOf {c : Char} {cs l : List Char} (hl : ∀ x ∈ l, x ∈ c :: cs) :
    ((l.map ((c :: cs).idxOf ·)).dropWhile (· == 0)).map ((c :: cs).getD · c) =
      l.dropWhile (· == c) := by
  induction l with
  | nil => rfl
  | cons x l ih =>
    by_cases hx : x = c
    · subst hx
      rw [List.map_cons, List.idxOf_cons_self, List.dropWhile_cons_of_pos (by simp),
        List.dropWhile_cons_of_pos (by simp), ih fun y hy => hl y (List.mem_cons_of_mem x hy)]
    · have hcx : (c == x) = false := beq_eq_false_iff_ne.2 (Ne.symm hx)
      have hi : (c :: cs).idxOf x ≠ 0 := by simp [List.idxOf_cons, hcx]
      rw [List.map_cons, List.dropWhile_cons_of_neg (by simpa using hi),
        List.dropWhile_cons_of_neg (by simpa using hx)]
      exact map_getD_idxOf c hl

/-- The packed program for the text `p`: the fixed point of the decoder for the distinct
characters of `p`, applied to the number `p` is over them. -/
def program (p : String) : Term :=
  .binary "$" (.binary "$" fix (decoder (String.singleton ((distinct p).headD ' '))
    (String.ofList (distinct p)) (distinct p).length)) (int (number (distinct p) p))

/-- **The packed program's value.** It is the text's first character followed by the text past
all its leading repetitions of that character. -/
theorem evaluates_program {p : String} {c : Char} {rest : List Char} (h : p.toList = c :: rest) :
    (program p).Evaluates (str (String.ofList (c :: rest.dropWhile (· == c)))) := by
  obtain ⟨cs, hcs⟩ := distinct_eq_cons h
  have hmem : ∀ x ∈ p.toList, x ∈ c :: cs := fun x hx => hcs ▸ mem_distinct.2 hx
  have hds : ∀ d ∈ p.toList.map ((c :: cs).idxOf ·), d < (c :: cs).length := by
    intro d hd
    obtain ⟨x, hx, rfl⟩ := List.mem_map.1 hd
    exact List.idxOf_lt_length_iff.2 (hmem x hx)
  have hvalue : Evaluates (int (number (c :: cs) p))
      (int (value (c :: cs).length (p.toList.map ((c :: cs).idxOf ·)))) := by
    rw [number_eq_value]
    exact evaluates_lit _ _
  have hdecode := evaluates_decode c (c :: cs) hds hvalue
  rw [map_dropWhile_idxOf hmem, h, List.dropWhile_cons_of_pos (by simp)] at hdecode
  rw [program, hcs, List.headD_cons]
  exact Evaluates.app (evaluates_fix_decoder _ _ _) rfl hdecode

/-! ### The text of the program -/

/-- The text of the packed program. -/
def text (p : String) : String := " ".intercalate (program p).words

/-- The plain string token of a text over the alphabet. -/
def plain (p : String) : String := "S" ++ Letter.spell p

section Run

variable {p : String} {c : Char} {rest : List Char}

theorem stringToken_eq {s : String} (h : ∀ x ∈ s.toList, x ∈ Letter.alphabet) :
    stringToken s = .ok ("S" ++ Letter.spell s) := by
  rw [stringToken, Letter.encode_eq_spell h]
  rfl

theorem mem_alphabet_distinct (hal : ∀ x ∈ p.toList, x ∈ Letter.alphabet) :
    ∀ x ∈ (String.ofList (distinct p)).toList, x ∈ Letter.alphabet := by
  intro x hx
  rw [String.toList_ofList] at hx
  exact hal x (mem_distinct.1 hx)

set_option maxRecDepth 4000 in
/-- The packed program's text is the template of `pack` with its four pieces filled in. -/
theorem text_eq {cs : List Char} (hcs : distinct p = c :: cs) :
    text p = "B$ B$ L\" B$ L# B$ v\" B$ v# v# L# B$ v\" B$ v# v# L\" L# ? B= v# I! " ++
      ("S" ++ Letter.spell (String.singleton c)) ++ " B. B$ v\" B/ v# " ++
      integerToken ↑(c :: cs).length ++ " BT I\" BD B% v# " ++ integerToken ↑(c :: cs).length ++
      " " ++ ("S" ++ Letter.spell (String.ofList (c :: cs))) ++ " " ++
      integerToken ↑(number (c :: cs) p) := by
  simp only [text, program, hcs, List.headD_cons, fix, selfApply, decoder, body, words,
    List.cons_append, List.nil_append, integerToken]
  simp only [String.intercalate_cons_cons, String.intercalate_singleton, String.append_assoc,
    Numeral.render_zero, Numeral.render_one, Numeral.render_two]
  rfl

/-- `pack` writes the text of the packed program. -/
theorem pack_eq (h : p.toList = c :: rest) (hal : ∀ x ∈ p.toList, x ∈ Letter.alphabet)
    (con : Console) : ∃ con', pack p con = .ok (text p) con' := by
  obtain ⟨cs, hcs⟩ := distinct_eq_cons h
  have hc : ∀ x ∈ (String.singleton c).toList, x ∈ Letter.alphabet := by
    intro x hx
    rw [String.toList_singleton, List.mem_singleton] at hx
    exact hal x (hx ▸ h ▸ List.mem_cons_self)
  have hchars := stringToken_eq (mem_alphabet_distinct hal)
  rw [hcs] at hchars
  simp only [pack, hcs, hchars, stringToken_eq hc, Run.lift, Run.say, Run.write]
  rw [text_eq hcs]
  exact ⟨_, rfl⟩

/-- `attempt` sends the packed text when it is strictly shorter, and the plain token otherwise. -/
theorem attempt_eq (h : p.toList = c :: rest) (hal : ∀ x ∈ p.toList, x ∈ Letter.alphabet)
    (con : Console) : ∃ con',
      attempt p con = .ok (if (text p).length < (plain p).length then text p else plain p) con' := by
  obtain ⟨con₁, hpack⟩ := pack_eq h hal con
  simp only [attempt, stringToken_eq hal, Run.lift, bind, EStateM.bind, pure, EStateM.pure, hpack]
  rw [← plain]
  split
  · exact ⟨_, rfl⟩
  · exact ⟨_, rfl⟩

theorem printable_program (h : p.toList = c :: rest)
    (hal : ∀ x ∈ p.toList, x ∈ Letter.alphabet) : (program p).Printable := by
  obtain ⟨cs, hcs⟩ := distinct_eq_cons h
  have hchars := mem_alphabet_distinct hal
  rw [hcs] at hchars
  have hc : c ∈ Letter.alphabet := hal c (h ▸ List.mem_cons_self)
  simp [program, hcs, fix, selfApply, decoder, body, Printable]
  exact ⟨⟨0, rfl⟩, hc, ⟨cs.length + 1, by omega⟩, ⟨1, rfl⟩, ⟨cs.length + 1, by omega⟩, hc,
    fun a ha => hchars a (by simp [ha])⟩

/-- Reading a printed term's text gives the term back. -/
theorem ofText_intercalate_words {t : Term} (h : t.Printable) :
    Term.ofText (" ".intercalate t.words) = .ok t := by
  have hread := read_tokens_words h []
  rw [List.append_nil] at hread
  rw [Term.ofText, hread]
  rfl

theorem ofText_text (h : p.toList = c :: rest) (hal : ∀ x ∈ p.toList, x ∈ Letter.alphabet) :
    Term.ofText (text p) = .ok (program p) :=
  ofText_intercalate_words (printable_program h hal)

theorem ofText_plain (hal : ∀ x ∈ p.toList, x ∈ Letter.alphabet) :
    Term.ofText (plain p) = .ok (str p) := by
  have h := ofText_intercalate_words (show (str p).Printable from ⟨p, rfl, hal⟩)
  rwa [show (str p).words = [plain p] from rfl, String.intercalate_singleton] at h

theorem closed_program (p : String) : (program p).Closed := rfl

/-- Dropping the leading repetitions of the first character changes the text exactly when its
second character repeats its first. -/
theorem ofList_dropWhile_eq_iff (h : p.toList = c :: rest) :
    String.ofList (c :: rest.dropWhile (· == c)) = p ↔ rest.head? ≠ some c := by
  rw [← String.ofList_toList (s := p), h]
  constructor
  · intro heq hhead
    obtain ⟨r, rfl⟩ : ∃ r, rest = c :: r := by
      cases rest with
      | nil => cases hhead
      | cons x r => cases hhead; exact ⟨r, rfl⟩
    have hl := congrArg String.toList heq
    rw [String.toList_ofList, String.toList_ofList, List.cons.injEq,
      List.dropWhile_cons_of_pos (by simp)] at hl
    have hlen := congrArg List.length hl.2
    have hle := (List.dropWhile_suffix (l := r) (· == c)).length_le
    rw [List.length_cons] at hlen
    omega
  · intro hhead
    cases rest with
    | nil => rfl
    | cons x r =>
      have hx : (x == c) = false := beq_eq_false_iff_ne.2 fun hxc => hhead (by simp [hxc])
      rw [List.dropWhile_cons_of_neg (by simp [hx])]

end Run

/-! ### Prompts of one repeated character -/

theorem foldl_collect_same {c : Char} {l : List Char} (h : ∀ x ∈ l, x = c) :
    l.foldl (fun acc c => if acc.contains c then acc else acc ++ [c]) [c] = [c] := by
  induction l with
  | nil => rfl
  | cons x l ih =>
    rw [List.foldl_cons, h x List.mem_cons_self, if_pos (by simp)]
    exact ih fun y hy => h y (List.mem_cons_of_mem x hy)

/-- A text of one repeated character has that character as its only distinct one, and packs
to the number zero. -/
theorem distinct_number_same {p : String} {c : Char} {rest : List Char} (h : p.toList = c :: rest)
    (hrest : ∀ x ∈ rest, x = c) : distinct p = [c] ∧ number [c] p = 0 := by
  have hd : distinct p = [c] := by
    rw [distinct_eq_foldl, h, List.foldl_cons]
    exact foldl_collect_same hrest
  refine ⟨hd, ?_⟩
  rw [number_eq_value, value_eq_zero_iff (by simp), List.dropWhile_eq_nil_iff]
  intro d hd'
  obtain ⟨x, hx, rfl⟩ := List.mem_map.1 hd'
  have hxc : x = c := by
    rw [h, List.mem_cons] at hx
    exact hx.elim id (hrest x)
  simp [hxc]

theorem length_spell (s : String) : (Letter.spell s).length = s.length := by
  rw [Letter.spell, String.length_ofList, List.length_map, String.length_toList]

theorem length_plain (p : String) : (plain p).length = p.length + 1 := by
  rw [plain, String.length_append, length_spell, show "S".length = 1 by decide, Nat.add_comm]

/-! ### What a prompt sends -/

/-- **What a prompt sends.** For a nonempty prompt `p` over the alphabet, with first character
`c`: the text sent is the packed program's when it is strictly shorter than the plain string
token, and the plain token otherwise; the plain token reads as the literal `p`; the packed text
reads as the closed packed program, which evaluates to `c` followed by `p` past all its leading
`c`s; and that is `p` exactly when the second character of `p` is not `c`. -/
theorem attempt_sends {p : String} {c : Char} {rest : List Char} (h : p.toList = c :: rest)
    (hal : ∀ x ∈ p.toList, x ∈ Letter.alphabet) (con : Console) :
    (∃ con', attempt p con =
      .ok (if (text p).length < (plain p).length then text p else plain p) con') ∧
    Term.ofText (plain p) = .ok (str p) ∧
    Term.ofText (text p) = .ok (program p) ∧ (program p).Closed ∧
    (program p).Evaluates (str (String.ofList (c :: rest.dropWhile (· == c)))) ∧
    (String.ofList (c :: rest.dropWhile (· == c)) = p ↔ rest.head? ≠ some c) :=
  ⟨attempt_eq h hal con, ofText_plain hal, ofText_text h hal, closed_program p,
    evaluates_program h, ofList_dropWhile_eq_iff h⟩

/-- The prompt `aab`, sent plain; its packed program would give `ab`. -/
theorem attempt_sends_aab :
    "aab".toList = 'a' :: ['a', 'b'] ∧ (∀ x ∈ "aab".toList, x ∈ Letter.alphabet) ∧
    ((∃ con', attempt "aab" default =
      .ok (if (text "aab").length < (plain "aab").length then text "aab" else plain "aab") con') ∧
    Term.ofText (plain "aab") = .ok (str "aab") ∧
    Term.ofText (text "aab") = .ok (program "aab") ∧ (program "aab").Closed ∧
    (program "aab").Evaluates (str (String.ofList ('a' :: ['a', 'b'].dropWhile (· == 'a')))) ∧
    (String.ofList ('a' :: ['a', 'b'].dropWhile (· == 'a')) = "aab" ↔
      ['a', 'b'].head? ≠ some 'a')) := by
  have hal : ∀ x ∈ "aab".toList, x ∈ Letter.alphabet := by
    intro x hx
    simp only [show "aab".toList = ['a', 'a', 'b'] by decide, List.mem_cons, List.not_mem_nil,
      or_false] at hx
    rcases hx with rfl | rfl | rfl <;> decide
  exact ⟨by decide, hal, attempt_sends (by decide) hal default⟩

/-- Two hundred `a`s are sent packed, and the packed program gives a single `a`. -/
theorem attempt_two_hundred_a :
    (∃ con', attempt (String.ofList (List.replicate 200 'a')) default =
      .ok (text (String.ofList (List.replicate 200 'a'))) con') ∧
    Term.ofText (text (String.ofList (List.replicate 200 'a'))) =
      .ok (program (String.ofList (List.replicate 200 'a'))) ∧
    (program (String.ofList (List.replicate 200 'a'))).Evaluates (str "a") := by
  have h : (String.ofList (List.replicate 200 'a')).toList = 'a' :: List.replicate 199 'a' := by
    rw [String.toList_ofList]
    rfl
  have hrest : ∀ x ∈ List.replicate 199 'a', x = 'a' := fun x hx => List.eq_of_mem_replicate hx
  have hal : ∀ x ∈ (String.ofList (List.replicate 200 'a')).toList, x ∈ Letter.alphabet := by
    intro x hx
    rw [h, List.mem_cons] at hx
    rw [hx.elim id (hrest x)]
    decide
  obtain ⟨hd, hn⟩ := distinct_number_same h hrest
  have hshort : (text (String.ofList (List.replicate 200 'a'))).length <
      (plain (String.ofList (List.replicate 200 'a'))).length := by
    have hk : integerToken ↑['a'].length = "I\"" := by
      show integerToken 1 = _
      rw [integerToken, Numeral.render_one]
      rfl
    have hz : integerToken ↑(0 : Nat) = "I!" := by
      show integerToken 0 = _
      rw [integerToken, Numeral.render_zero]
      rfl
    rw [length_plain, text_eq hd, hn, String.length_ofList, List.length_replicate, hk, hz]
    simp only [String.length_append, length_spell, String.length_singleton, String.length_ofList,
      List.length_singleton]
    decide
  obtain ⟨con', hcon⟩ := attempt_eq h hal default
  rw [if_pos hshort] at hcon
  refine ⟨⟨con', hcon⟩, ofText_text h hal, ?_⟩
  have hv := evaluates_program h
  rwa [List.dropWhile_eq_nil_iff.2 fun x hx => by simp [hrest x hx]] at hv

end Pack

end Interstellar
