import Interstellar.Term.Token

/-!
# Reading printed terms back

`Term.encode` writes a term as program text and `Term.read` reads a term back from the tokens
of a text. Reading undoes printing for every term that printing writes faithfully
(`Term.Printable`): literal payloads of their declared kind, integer and variable numbers not
negative, strings spelled in the letters of `Letter.alphabet`, operator names without a space.
Conversely, every tree read from a text with no operand missing (`Term.Complete`) is printable,
so printing is a normal form for reading: `Tx` prints as `F`, leading `!` digits and empty
numerals disappear, and the printed text reads back to the same tree.

* `Letter.spell`: the token body of a string of letters;
* `Term.words`: the tokens of a printable term, in prefix order;
* `Term.encode_eq_words`: the text of a printable term is its tokens joined by single spaces;
* `Term.readN_ok_cases`: what one successful reading step can have done;
* `Term.readN_words`: reading the tokens of a term gives it back and leaves what follows;
* `Term.read_tokens_encode`: the round trip, in both directions.
-/

namespace Interstellar

section Except

variable {ε α β : Type}

@[simp] theorem ok_bind (a : α) (f : α → Except ε β) : (Except.ok a >>= f) = f a := rfl

@[simp] theorem error_bind (e : ε) (f : α → Except ε β) :
    (Except.error e >>= f : Except ε β) = .error e := rfl

@[simp] theorem map_ok (f : α → β) (a : α) : (f <$> Except.ok a : Except ε β) = .ok (f a) := rfl

@[simp] theorem map_error (f : α → β) (e : ε) :
    (f <$> Except.error e : Except ε β) = .error e := rfl

theorem bind_eq_ok {x : Except ε α} {f : α → Except ε β} {b : β} :
    x >>= f = .ok b ↔ ∃ a, x = .ok a ∧ f a = .ok b := by
  cases x <;> simp

theorem map_eq_ok {x : Except ε α} {f : α → β} {b : β} :
    f <$> x = .ok b ↔ ∃ a, x = .ok a ∧ f a = b := by
  cases x <;> simp

theorem forall_mem_of_mapM_ok {f : α → Except ε β} {P : β → Prop} (hf : ∀ a b, f a = .ok b → P b) :
    ∀ {l : List α} {l' : List β}, l.mapM f = .ok l' → ∀ b ∈ l', P b
  | [], l', h => by
    cases h
    simp
  | a :: l, l', h => by
    rw [List.mapM_cons] at h
    obtain ⟨b, hb, h⟩ := bind_eq_ok.1 h
    obtain ⟨bs, hbs, h⟩ := bind_eq_ok.1 h
    cases h
    simp only [List.mem_cons, forall_eq_or_imp]
    exact ⟨hf a b hb, forall_mem_of_mapM_ok hf hbs⟩

end Except

namespace Numeral

/-- No digit character is a space. -/
theorem digitChar_ne_space {d : Nat} (h : d < base) : digitChar d ≠ ' ' := by
  intro he
  have := congrArg Char.toNat he
  rw [toNat_digitChar h] at this
  simp at this

theorem mem_digits {m : Nat} {c : Char} (h : c ∈ digits m) : ∃ d < base, c = digitChar d := by
  induction m using Nat.strongRecOn with
  | ind m ih =>
    rw [digits] at h
    split at h
    · simp at h
    · rcases List.mem_append.1 h with h | h
      · exact ih _ (by unfold base; omega) h
      · exact ⟨m % base, Nat.mod_lt _ (by decide), by simpa using h⟩

/-- A numeral holds no space. -/
theorem space_not_mem_render (n : Int) : ' ' ∉ (render n).toList := by
  unfold render
  split
  · decide
  · intro h
    obtain ⟨d, hd, he⟩ := mem_digits (by simpa using h)
    exact digitChar_ne_space hd he.symm

/-- Reading gives back every number that is not negative. -/
theorem read_render_of_nonneg {x : Int} (h : 0 ≤ x) : read (render x) = .ok x.toNat := by
  have := read_render x.toNat
  rwa [Int.toNat_of_nonneg h] at this

end Numeral

namespace Letter

theorem length_alphabet : alphabet.length = 94 := by decide

theorem getElem?_of_code? {c : Char} {i : Nat} (h : code? c = some i) : alphabet[i]? = some c := by
  obtain ⟨hi, hc, -⟩ := List.idxOf?_eq_some_iff.1 h
  simp [hi, hc]

theorem lt_of_code? {c : Char} {i : Nat} (h : code? c = some i) : i < alphabet.length :=
  (List.idxOf?_eq_some_iff.1 h).1

theorem exists_code? {c : Char} (h : c ∈ alphabet) : ∃ i, code? c = some i :=
  Option.isSome_iff_exists.1 (List.isSome_idxOf?.2 h)

/-- The token body that writes a string of letters: each letter as the digit character of its
code. -/
def spell (s : String) : String :=
  String.ofList (s.toList.map fun c => Numeral.digitChar ((code? c).getD 0))

theorem decodeChar_digitChar {i : Nat} (h : i < alphabet.length) :
    decodeChar (Numeral.digitChar i) = .ok alphabet[i] := by
  have hc := Numeral.toNat_digitChar (by rw [length_alphabet] at h; exact h)
  simp [decodeChar, hc, ofCode?, table, h]

/-- A letter of the alphabet is written as the digit character of its code. -/
theorem encodeChar_of_mem {c : Char} (h : c ∈ alphabet) :
    encodeChar c = .ok (Numeral.digitChar ((code? c).getD 0)) := by
  obtain ⟨i, hi⟩ := exists_code? h
  unfold encodeChar
  rw [hi]
  rfl

theorem decodeChar_spell {c : Char} (h : c ∈ alphabet) :
    decodeChar (Numeral.digitChar ((code? c).getD 0)) = .ok c := by
  obtain ⟨i, hi⟩ := exists_code? h
  have hlt := lt_of_code? hi
  rw [hi, Option.getD_some, decodeChar_digitChar hlt]
  have := getElem?_of_code? hi
  simp_all

theorem mem_alphabet_of_decodeChar {c l : Char} (h : decodeChar c = .ok l) : l ∈ alphabet := by
  unfold decodeChar at h
  dsimp only at h
  split at h
  · cases h
    rename_i hl
    simp only [ofCode?, table] at hl
    split at hl
    · exact List.mem_of_getElem? (by simpa using hl)
    · cases hl
  · cases h

/-- Every string that a token body spells is made of letters of the alphabet. -/
theorem mem_alphabet_of_decode {body s : String} (h : decode body = .ok s) :
    ∀ c ∈ s.toList, c ∈ alphabet := by
  unfold decode at h
  cases hl : body.toList.mapM decodeChar with
  | error e => simp [hl] at h
  | ok l' =>
    simp only [hl, map_ok, Except.ok.injEq] at h
    subst h
    simpa using forall_mem_of_mapM_ok (fun _ _ => mem_alphabet_of_decodeChar) hl

/-- A string of letters is written as `spell` writes it. -/
theorem encode_eq_spell {s : String} (h : ∀ c ∈ s.toList, c ∈ alphabet) :
    encode s = .ok (spell s) := by
  suffices hl : ∀ l : List Char, (∀ c ∈ l, c ∈ alphabet) →
      l.mapM encodeChar = .ok (l.map fun c => Numeral.digitChar ((code? c).getD 0)) by
    rw [encode, hl _ h]
    rfl
  intro l hl
  induction l with
  | nil => rfl
  | cons c cs ih =>
    simp only [List.mem_cons, forall_eq_or_imp] at hl
    simp [encodeChar_of_mem hl.1, ih hl.2]

/-- The token body of a string of letters spells it back. -/
theorem decode_spell {s : String} (h : ∀ c ∈ s.toList, c ∈ alphabet) :
    decode (spell s) = .ok s := by
  suffices hl : ∀ l : List Char, (∀ c ∈ l, c ∈ alphabet) →
      (l.map fun c => Numeral.digitChar ((code? c).getD 0)).mapM decodeChar = .ok l by
    rw [decode, spell, String.toList_ofList, hl _ h]
    exact congrArg Except.ok (String.ofList_toList)
  intro l hl
  induction l with
  | nil => rfl
  | cons c cs ih =>
    simp only [List.mem_cons, forall_eq_or_imp] at hl
    simp [decodeChar_spell hl.1, ih hl.2]

theorem space_not_mem_spell (s : String) : ' ' ∉ (spell s).toList := by
  simp only [spell, String.toList_ofList, List.mem_map, not_exists, not_and]
  intro c _
  apply Numeral.digitChar_ne_space
  cases hc : code? c with
  | none => decide
  | some i => simpa [Numeral.base, length_alphabet] using lt_of_code? hc

end Letter

namespace Term

/-- A term that printing writes faithfully: literal payloads of their declared kind, integers
and variable numbers not negative, strings spelled in the letters of the alphabet, operator
names without a space, and no raw node. -/
def Printable : Term → Prop
  | .lit .integer v => ∃ n : Nat, v = .int n
  | .lit .string v => ∃ s, v = .str s ∧ ∀ c ∈ s.toList, c ∈ Letter.alphabet
  | .lit .boolean v => ∃ b, v = .bool b
  | .unary op a => ' ' ∉ op.toList ∧ a.Printable
  | .binary op a b => ' ' ∉ op.toList ∧ a.Printable ∧ b.Printable
  | .lam x b => 0 ≤ x ∧ b.Printable
  | .var x => 0 ≤ x
  | .cond c t e => c.Printable ∧ t.Printable ∧ e.Printable
  | .raw _ => False

/-- The tokens of a printable term, in prefix order. -/
def words : Term → List String
  | .lit .integer (.int n) => ["I" ++ Numeral.render n]
  | .lit .string (.str s) => ["S" ++ Letter.spell s]
  | .lit .boolean (.bool b) => [if b then "T" else "F"]
  | .lit _ _ => []
  | .unary op a => ("U" ++ op) :: a.words
  | .binary op a b => ("B" ++ op) :: (a.words ++ b.words)
  | .lam x b => ("L" ++ Numeral.render x) :: b.words
  | .var x => ["v" ++ Numeral.render x]
  | .cond c t e => "?" :: (c.words ++ t.words ++ e.words)
  | .raw _ => []

theorem words_ne_nil {t : Term} (h : t.Printable) : t.words ≠ [] := by
  cases t with
  | lit k v =>
    cases k <;> simp only [Printable] at h
    · obtain ⟨n, rfl⟩ := h; simp [words]
    · obtain ⟨s, rfl, -⟩ := h; simp [words]
    · obtain ⟨b, rfl⟩ := h; simp [words]
  | raw d => exact h.elim
  | _ => simp [words]

/-- The text of a printable term is its tokens joined by single spaces. -/
theorem encode_eq_words {t : Term} (h : t.Printable) :
    t.encode = .ok (" ".intercalate t.words) := by
  induction t with
  | lit k v =>
    cases k <;> simp only [Printable] at h
    · obtain ⟨n, rfl⟩ := h; rfl
    · obtain ⟨s, rfl, hs⟩ := h
      simp [encode, words, Value.letterText, Letter.encode_eq_spell hs]
    · obtain ⟨b, rfl⟩ := h
      cases b <;> rfl
  | unary op a iha =>
    obtain ⟨-, ha⟩ := h
    simp [encode, words, iha ha, String.intercalate_cons_of_ne_nil (words_ne_nil ha),
      String.append_assoc]
  | binary op a b iha ihb =>
    obtain ⟨-, ha, hb⟩ := h
    simp [encode, words, iha ha, ihb hb, String.intercalate_cons_of_ne_nil,
      String.intercalate_append_of_ne_nil (words_ne_nil ha) (words_ne_nil hb), words_ne_nil ha,
      String.append_assoc]
  | lam x b ihb =>
    simp [encode, words, ihb h.2, String.intercalate_cons_of_ne_nil (words_ne_nil h.2),
      String.append_assoc]
  | var x => rfl
  | cond c t e ihc iht ihe =>
    obtain ⟨hc, ht, he⟩ := h
    have hcw := words_ne_nil hc
    have htw := words_ne_nil ht
    have hew := words_ne_nil he
    simp [encode, words, ihc hc, iht ht, ihe he, String.intercalate_cons_of_ne_nil, hcw,
      String.intercalate_append_of_ne_nil, htw, hew, String.append_assoc]
  | raw d => exact h.elim

/-- No token of a printable term holds a space. -/
theorem space_not_mem_words {t : Term} (h : t.Printable) : ∀ w ∈ t.words, ' ' ∉ w.toList := by
  induction t with
  | lit k v =>
    cases k <;> simp only [Printable] at h
    · obtain ⟨n, rfl⟩ := h; simpa [words] using Numeral.space_not_mem_render n
    · obtain ⟨s, rfl, -⟩ := h; simpa [words] using Letter.space_not_mem_spell s
    · obtain ⟨b, rfl⟩ := h; cases b <;> simp [words]
  | unary op a iha =>
    obtain ⟨hop, ha⟩ := h
    simp only [words, List.mem_cons]
    rintro w (rfl | hw)
    · simpa using hop
    · exact iha ha w hw
  | binary op a b iha ihb =>
    obtain ⟨hop, ha, hb⟩ := h
    simp only [words, List.mem_cons, List.mem_append]
    rintro w (rfl | hw | hw)
    · simpa using hop
    · exact iha ha w hw
    · exact ihb hb w hw
  | lam x b ihb =>
    simp only [words, List.mem_cons]
    rintro w (rfl | hw)
    · simpa using Numeral.space_not_mem_render x
    · exact ihb h.2 w hw
  | var x => simpa [words] using Numeral.space_not_mem_render x
  | cond c t e ihc iht ihe =>
    obtain ⟨hc, ht, he⟩ := h
    simp only [words, List.mem_cons, List.mem_append]
    rintro w (rfl | (hw | hw) | hw)
    · decide
    · exact ihc hc w hw
    · exact iht ht w hw
    · exact ihe he w hw
  | raw d => exact h.elim

/-- Splitting at spaces undoes joining tokens that hold none. -/
theorem tokens_intercalate {ws : List String} (hne : ws ≠ []) (h : ∀ w ∈ ws, ' ' ∉ w.toList) :
    tokens (" ".intercalate ws) = ws := by
  rw [tokens, String.toList_intercalate, show " ".toList = [' '] from rfl,
    List.splitOn_intercalate]
  · simp
  · simpa using h
  · simpa using hne

/-- Reading the tokens of a printable term gives it back and leaves what follows them,
with fuel for one step per token. -/
theorem readN_words {t : Term} (h : t.Printable) {n : Nat} (hn : t.words.length ≤ n)
    (rest : List String) : readN n (t.words ++ rest) = .ok (t, rest) := by
  induction t generalizing n rest with
  | lit k v =>
    cases k <;> simp only [Printable] at h
    · obtain ⟨k, rfl⟩ := h
      cases n with
      | zero => simp [words] at hn
      | succ m => simp [words, readN, Numeral.read_render]
    · obtain ⟨s, rfl, hs⟩ := h
      cases n <;> simp_all [words, readN, Letter.decode_spell hs]
    · obtain ⟨b, rfl⟩ := h
      cases n <;> cases b <;> simp_all [words, readN]
  | unary op a iha =>
    obtain ⟨-, ha⟩ := h
    cases n with
    | zero => simp [words] at hn
    | succ m =>
      simp only [words, List.length_cons] at hn
      simp [words, readN, iha ha (n := m) (by omega)]
  | binary op a b iha ihb =>
    obtain ⟨-, ha, hb⟩ := h
    cases n with
    | zero => simp [words] at hn
    | succ m =>
      simp only [words, List.length_cons, List.length_append] at hn
      simp [words, readN, iha ha (n := m) (by omega), ihb hb (n := m) (by omega)]
  | lam x b ihb =>
    obtain ⟨hx, hb⟩ := h
    cases n with
    | zero => simp [words] at hn
    | succ m =>
      simp only [words, List.length_cons] at hn
      simp [words, readN, Numeral.read_render_of_nonneg hx, ihb hb (n := m) (by omega),
        Int.max_eq_left hx]
  | var x =>
    have hx : 0 ≤ x := h
    cases n with
    | zero => simp [words] at hn
    | succ m => simp [words, readN, Numeral.read_render_of_nonneg hx, Int.max_eq_left hx]
  | cond c t e ihc iht ihe =>
    obtain ⟨hc, ht, he⟩ := h
    cases n with
    | zero => simp [words] at hn
    | succ m =>
      simp only [words, List.length_cons, List.length_append] at hn
      simp [words, readN, ihc hc (n := m) (by omega), iht ht (n := m) (by omega),
        ihe he (n := m) (by omega)]
  | raw d => exact h.elim

/-- A tree with no raw node. Reading text leaves a raw node only where the tokens ran out
before an operand. -/
def Complete : Term → Prop
  | .lit _ _ | .var _ => True
  | .unary _ a | .lam _ a => a.Complete
  | .binary _ a b => a.Complete ∧ b.Complete
  | .cond c t e => c.Complete ∧ t.Complete ∧ e.Complete
  | .raw _ => False

/-- What one successful reading step can have done, by the first character of the token. -/
theorem readN_ok_cases {n : Nat} {tok : String} {rest : List String} {t : Term}
    {r : List String} (h : readN (n + 1) (tok :: rest) = .ok (t, r)) :
    ((∃ tl, tok.toList = 'T' :: tl ∨ tok.toList = 'F' :: tl) ∧
      t = .bool (tok == "T") ∧ r = rest) ∨
    (∃ body v, tok.toList = 'I' :: body ∧ Numeral.read (String.ofList body) = .ok v ∧
      t = .int v ∧ r = rest) ∨
    (∃ body s, tok.toList = 'S' :: body ∧ Letter.decode (String.ofList body) = .ok s ∧
      t = .str s ∧ r = rest) ∨
    (∃ op a, tok.toList = 'U' :: op ∧ readN n rest = .ok (a, r) ∧
      t = .unary (String.ofList op) a) ∨
    (∃ op a b r₁, tok.toList = 'B' :: op ∧ readN n rest = .ok (a, r₁) ∧
      readN n r₁ = .ok (b, r) ∧ t = .binary (String.ofList op) a b) ∨
    (∃ body x b, tok.toList = 'L' :: body ∧ Numeral.read (String.ofList body) = .ok x ∧
      readN n rest = .ok (b, r) ∧ t = .lam x b) ∨
    (∃ body x, tok.toList = 'v' :: body ∧ Numeral.read (String.ofList body) = .ok x ∧
      t = .var x ∧ r = rest) ∨
    (∃ tl c a b r₁ r₂, tok.toList = '?' :: tl ∧ readN n rest = .ok (c, r₁) ∧
      readN n r₁ = .ok (a, r₂) ∧ readN n r₂ = .ok (b, r) ∧ t = .cond c a b) := by
  simp only [readN] at h
  split at h
  · cases h; exact .inl ⟨⟨_, .inl ‹_›⟩, rfl, rfl⟩
  · cases h; exact .inl ⟨⟨_, .inr ‹_›⟩, rfl, rfl⟩
  · obtain ⟨v, hv, he⟩ := bind_eq_ok.1 h
    cases he
    exact .inr (.inl ⟨_, v, ‹_›, hv, rfl, rfl⟩)
  · obtain ⟨s, hs, he⟩ := bind_eq_ok.1 h
    cases he
    exact .inr (.inr (.inl ⟨_, s, ‹_›, hs, rfl, rfl⟩))
  · obtain ⟨⟨a, r₁⟩, ha, he⟩ := bind_eq_ok.1 h
    cases he
    exact .inr (.inr (.inr (.inl ⟨_, a, ‹_›, ha, rfl⟩)))
  · obtain ⟨⟨a, r₁⟩, ha, h⟩ := bind_eq_ok.1 h
    obtain ⟨⟨b, r₂⟩, hb, he⟩ := bind_eq_ok.1 h
    cases he
    exact .inr (.inr (.inr (.inr (.inl ⟨_, a, b, r₁, ‹_›, ha, hb, rfl⟩))))
  · obtain ⟨x, hx, h⟩ := bind_eq_ok.1 h
    obtain ⟨⟨b, r₁⟩, hb, he⟩ := bind_eq_ok.1 h
    cases he
    exact .inr (.inr (.inr (.inr (.inr (.inl ⟨_, x, b, ‹_›, hx, hb, rfl⟩)))))
  · obtain ⟨x, hx, he⟩ := bind_eq_ok.1 h
    cases he
    exact .inr (.inr (.inr (.inr (.inr (.inr (.inl ⟨_, x, ‹_›, hx, rfl, rfl⟩))))))
  · obtain ⟨⟨c, r₁⟩, hc, h⟩ := bind_eq_ok.1 h
    obtain ⟨⟨a, r₂⟩, ha, h⟩ := bind_eq_ok.1 h
    obtain ⟨⟨b, r₃⟩, hb, he⟩ := bind_eq_ok.1 h
    cases he
    exact .inr (.inr (.inr (.inr (.inr (.inr (.inr ⟨_, c, a, b, r₁, r₂, ‹_›, hc, ha, hb, rfl⟩))))))
  · cases h

/-- Reading takes its term from a prefix of the tokens and leaves the rest. -/
theorem readN_suffix {n : Nat} {ts : List String} {t : Term} {r : List String}
    (h : readN n ts = .ok (t, r)) : r <:+ ts := by
  induction n generalizing ts t r with
  | zero => cases ts <;> simp [readN] at h <;> simp [h]
  | succ n ih =>
    cases ts with
    | nil => simp [readN] at h; simp [h]
    | cons tok rest =>
      have hs : rest <:+ tok :: rest := List.suffix_cons tok rest
      rcases readN_ok_cases h with ⟨_, _, rfl⟩ | ⟨_, _, _, _, _, rfl⟩ | ⟨_, _, _, _, _, rfl⟩ |
        ⟨_, _, _, ha, _⟩ | ⟨_, _, _, _, _, ha, hb, _⟩ | ⟨_, _, _, _, _, hb, _⟩ |
        ⟨_, _, _, _, _, rfl⟩ | ⟨_, _, _, _, _, _, _, hc, ha, hb, _⟩
      · exact hs
      · exact hs
      · exact hs
      · exact (ih ha).trans hs
      · exact (ih hb).trans ((ih ha).trans hs)
      · exact (ih hb).trans hs
      · exact hs
      · exact (ih hb).trans ((ih ha).trans ((ih hc).trans hs))

/-- The tokens of a text hold no space. -/
theorem space_not_mem_of_mem_tokens {src w : String} (h : w ∈ tokens src) : ' ' ∉ w.toList := by
  suffices hl : ∀ (l : List Char), ∀ w ∈ l.splitOn ' ', ' ' ∉ w by
    obtain ⟨w', hw', rfl⟩ := List.mem_map.1 h
    simpa using hl _ w' hw'
  intro l
  induction l with
  | nil => simp
  | cons c cs ih =>
    rw [List.splitOn_cons_eq_if_modifyHead]
    split
    · simp only [List.mem_cons]
      rintro w (rfl | hw)
      · simp
      · exact ih w hw
    · rename_i hc
      obtain ⟨hd, tl, he⟩ := List.exists_cons_of_ne_nil (List.splitOn_ne_nil ' ' cs)
      rw [he] at ih ⊢
      simp only [List.modifyHead_cons, List.mem_cons, forall_eq_or_imp] at ih ⊢
      refine ⟨?_, ih.2⟩
      simp only [not_or]
      exact ⟨fun h => hc (beq_iff_eq.2 h.symm), ih.1⟩

/-- Every complete tree read from tokens without spaces is printable. -/
theorem printable_of_readN {n : Nat} {ts : List String} {t : Term} {r : List String}
    (h : readN n ts = .ok (t, r)) (hts : ∀ w ∈ ts, ' ' ∉ w.toList) (ht : t.Complete) :
    t.Printable := by
  induction n generalizing ts t r with
  | zero => cases ts <;> simp [readN] at h <;> (obtain ⟨rfl, -⟩ := h; exact ht.elim)
  | succ n ih =>
    cases ts with
    | nil => simp [readN] at h; obtain ⟨rfl, -⟩ := h; exact ht.elim
    | cons tok rest =>
      have hrest : ∀ w ∈ rest, ' ' ∉ w.toList := fun w hw => hts w (List.mem_cons_of_mem _ hw)
      have hafter {ts₁ r₁ : List String} {u : Term} (hu : readN n ts₁ = .ok (u, r₁))
          (h₁ : ∀ w ∈ ts₁, ' ' ∉ w.toList) : ∀ w ∈ r₁, ' ' ∉ w.toList :=
        fun w hw => h₁ w ((readN_suffix hu).subset hw)
      have hop {c : Char} {op : List Char} (he : tok.toList = c :: op) :
          ' ' ∉ (String.ofList op).toList := by
        have := hts tok List.mem_cons_self
        rw [he] at this
        simpa using fun h => this (List.mem_cons_of_mem _ h)
      rcases readN_ok_cases h with ⟨_, rfl, _⟩ | ⟨_, v, _, _, rfl, _⟩ | ⟨_, s, _, hs, rfl, _⟩ |
        ⟨op, a, he, ha, rfl⟩ | ⟨op, a, b, r₁, he, ha, hb, rfl⟩ | ⟨_, x, b, _, _, hb, rfl⟩ |
        ⟨_, x, _, _, rfl, _⟩ | ⟨_, c, a, b, r₁, r₂, _, hc, ha, hb, rfl⟩
      · exact ⟨_, rfl⟩
      · exact ⟨v, rfl⟩
      · exact ⟨s, rfl, Letter.mem_alphabet_of_decode hs⟩
      · exact ⟨hop he, ih ha hrest ht⟩
      · exact ⟨hop he, ih ha hrest ht.1, ih hb (hafter ha hrest) ht.2⟩
      · exact ⟨by omega, ih hb hrest ht⟩
      · exact Int.natCast_nonneg x
      · have h₁ := hafter hc hrest
        exact ⟨ih hc hrest ht.1, ih ha h₁ ht.2.1, ih hb (hafter ha h₁) ht.2.2⟩

/-- Reading the text of a printable term gives it back, before any tokens that follow. -/
theorem read_tokens_words {t : Term} (h : t.Printable) (rest : List String) :
    read (tokens (" ".intercalate t.words) ++ rest) = .ok (t, rest) := by
  rw [tokens_intercalate (words_ne_nil h) (space_not_mem_words h), read]
  exact readN_words h (by simp) rest

/-- **Printing then reading gives the term back.** The text of every printable term, split at
spaces and followed by any tokens, reads back to the term and leaves those tokens; and every
complete tree read from any program text is printable, so printing the trees that reading
gives back is a normal form that reads back to the same tree. -/
theorem read_tokens_encode :
    (∀ t : Term, t.Printable → ∀ rest : List String,
      ∃ s, t.encode = .ok s ∧ read (tokens s ++ rest) = .ok (t, rest)) ∧
    (∀ (src : String) (t : Term) (rest : List String),
      read (tokens src) = .ok (t, rest) → t.Complete → t.Printable) :=
  ⟨fun _ h rest => ⟨_, encode_eq_words h, read_tokens_words h rest⟩,
    fun _ _ _ h ht => printable_of_readN h (fun _ hw => space_not_mem_of_mem_tokens hw) ht⟩

/-- The sum of `1` and `"ab"`, printed `B+ I" S!"`, reads back before any other tokens; read
from that text, it is printable. -/
theorem read_tokens_encode_sum :
    (binary "+" (int 1) (str "ab")).Printable ∧
    (∃ s, (binary "+" (int 1) (str "ab")).encode = .ok s ∧
      read (tokens s ++ ["I!"]) = .ok (binary "+" (int 1) (str "ab"), ["I!"])) ∧
    (read (tokens "B+ I\" S!\"") = .ok (binary "+" (int 1) (str "ab"), []) ∧
      (binary "+" (int 1) (str "ab")).Complete ∧ (binary "+" (int 1) (str "ab")).Printable) := by
  have hab : ∀ c ∈ "ab".toList, c ∈ Letter.alphabet := by
    intro c hc
    simp only [show "ab".toList = ['a', 'b'] by decide, List.mem_cons, List.not_mem_nil,
      or_false] at hc
    rcases hc with rfl | rfl <;> decide
  have hp : (binary "+" (int 1) (str "ab")).Printable := ⟨by decide, ⟨1, rfl⟩, "ab", rfl, hab⟩
  have hr : read (tokens "B+ I\" S!\"") = .ok (binary "+" (int 1) (str "ab"), []) := rfl
  have hc : (binary "+" (int 1) (str "ab")).Complete := ⟨trivial, trivial⟩
  exact ⟨hp, read_tokens_encode.1 _ hp ["I!"], hr, hc, read_tokens_encode.2 _ _ _ hr hc⟩

end Term

end Interstellar
