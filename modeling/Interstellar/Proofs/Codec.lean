import Interstellar.Proofs.Reduce
import Interstellar.Compact

/-!
# The compact codec against the interpreter

The compact codec reads a literal token, or a unary operator followed by one literal token, as
the interpreter evaluates it only in part. On literals, `-` and `!` the two agree wherever the
interpreter gives a value. On `#` and `$` they do not: `#` reads the letters that a string token
spells as base-94 digits, where the interpreter reads the token's own characters, and `$`
always fails.

* `Compact.IsLiteral`: a boolean, integer or string token without a space;
* `Compact.Item.ofScalar`: the codec's reading of a literal payload;
* `Compact.readN_literal`: a literal token is read by both as the same payload;
* `Compact.decode_neg`, `decode_not`, `decode_count`, `decode_letters_ne_ok`: the codec on a
  unary operator and a literal token;
* `Compact.interp_unary`, `interp_count`: the interpreter on the same text;
* `Compact.decode_agrees_on_literals`: what decoding gives wherever interpreting gives a
  value; `Compact.decode_string_to_int` is the token of the codec's own tests on which the two
  differ.
-/

namespace Interstellar

namespace Compact

open Term

/-- A literal token: a boolean, integer or string token, with no space in it. -/
def IsLiteral (tok : String) : Prop :=
  ∃ c body, tok.toList = c :: body ∧ (c = 'T' ∨ c = 'F' ∨ c = 'I' ∨ c = 'S') ∧ ' ' ∉ body

/-- The item the codec reads for a literal payload. -/
def Item.ofScalar : Scalar → Item
  | .int n => .int n
  | .bool b => .bool b
  | .str s => .str s
  | .fn f => nomatch f

@[simp] theorem Item.truthy_ofScalar (s : Scalar) : (Item.ofScalar s).truthy = s.truthy := by
  cases s with
  | fn f => exact f.elim
  | _ => rfl

/-! ### Literal tokens -/

section Literal

variable {lit : String}

/-- A literal token and the fourth character on of a unary token both hold no space. -/
theorem space_not_mem (h : IsLiteral lit) : ' ' ∉ lit.toList := by
  obtain ⟨c, body, hc, hk, hb⟩ := h
  rw [hc, List.mem_cons, not_or]
  exact ⟨by rcases hk with rfl | rfl | rfl | rfl <;> decide, hb⟩

theorem tokens_literal (h : IsLiteral lit) : tokens lit = [lit] := by
  have := @tokens_intercalate [lit] (by simp) (by simpa using space_not_mem h)
  rwa [String.intercalate_singleton] at this

/-- The tokens of a unary operator `U<c>` followed by a space and a literal token. -/
theorem tokens_unary (h : IsLiteral lit) {c : Char} (hc : c ≠ ' ') :
    tokens ("U" ++ String.singleton c ++ " " ++ lit) = ["U" ++ String.singleton c, lit] := by
  have hop : ' ' ∉ ("U" ++ String.singleton c).toList := by
    simp only [String.toList_append, String.toList_singleton, List.mem_append, List.mem_singleton,
      not_or]
    exact ⟨by decide, hc.symm⟩
  have := @tokens_intercalate ["U" ++ String.singleton c, lit] (by simp) (by
    intro w hw
    simp only [List.mem_cons, List.not_mem_nil, or_false] at hw
    rcases hw with rfl | rfl
    · exact hop
    · exact space_not_mem h)
  rwa [String.intercalate_cons_cons, String.intercalate_singleton] at this

/-- A literal token is read by program text and by the codec as the same payload. -/
theorem readN_literal (h : IsLiteral lit) {n : Nat} {rest : List String} {t : Term}
    {r : List String} (hr : readN (n + 1) (lit :: rest) = .ok (t, r)) :
    ∃ k s, t = .lit k s ∧ r = rest ∧ ∀ m, decodeN (m + 1) lit = .ok (Item.ofScalar s) := by
  obtain ⟨c, body, hc, hk, -⟩ := h
  rcases readN_ok_cases hr with ⟨_, rfl, rfl⟩ | ⟨body', v, hb, hv, rfl, rfl⟩ |
    ⟨body', s, hb, hs, rfl, rfl⟩ | ⟨op, _, he, _⟩ | ⟨op, _, _, _, he, _⟩ | ⟨_, _, _, he, _⟩ |
    ⟨_, _, he, _⟩ | ⟨_, _, _, _, _, _, he, _⟩
  · refine ⟨_, _, rfl, rfl, fun m => ?_⟩
    rcases hk with rfl | rfl | rfl | rfl <;> simp_all [decodeN, Item.ofScalar]
  · refine ⟨_, _, rfl, rfl, fun m => ?_⟩
    simp [decodeN, hb, hv, Item.ofScalar]
  · refine ⟨_, _, rfl, rfl, fun m => ?_⟩
    simp [decodeN, hb, hs, Item.ofScalar]
  -- every other first character is no literal's
  all_goals
    rw [hc, List.cons.injEq] at he
    rcases hk with rfl | rfl | rfl | rfl <;> simp at he

/-- A literal token that the codec reads as a string is a string token spelling it. -/
theorem decodeN_eq_str (h : IsLiteral lit) {m : Nat} {x : String}
    (hd : decodeN (m + 1) lit = .ok (.str x)) :
    ∃ body, lit.toList = 'S' :: body ∧ Letter.decode (String.ofList body) = .ok x := by
  obtain ⟨c, body, hc, hk, -⟩ := h
  rcases hk with rfl | rfl | rfl | rfl
  · simp [decodeN, hc] at hd
  · simp [decodeN, hc] at hd
  · cases hr : Numeral.read (String.ofList body) <;> simp [decodeN, hc, hr] at hd
  · cases hr : Letter.decode (String.ofList body) <;> simp [decodeN, hc, hr] at hd
    exact ⟨body, hc, by rw [hr, hd]⟩

end Literal

/-! ### Decoding a unary token -/

section Unary

variable {lit pre : String} {c : Char}

/-- A unary token `pre ++ lit`, where `pre` is `U`, the operator and a space. -/
theorem toList_unaryText (hpre : pre.toList = ['U', c, ' ']) :
    (pre ++ lit).toList = 'U' :: c :: ' ' :: lit.toList := by
  rw [String.toList_append, hpre]
  rfl

theorem unaryText_eq (hpre : pre.toList = ['U', c, ' ']) :
    pre ++ lit = "U" ++ String.singleton c ++ " " ++ lit := by
  congr 1
  apply String.toList_inj.1
  simp only [hpre, String.toList_append, String.toList_singleton]
  rfl

theorem decode_unaryText (hpre : pre.toList = ['U', c, ' ']) :
    decode (pre ++ lit) = decodeN (lit.length + 3 + 1) (pre ++ lit) := by
  have h3 : pre.length = 3 := by rw [← String.length_toList, hpre]; rfl
  rw [decode, String.length_append, h3, Nat.add_comm 3]

variable {s s' : Scalar}

theorem decode_neg (hd : ∀ m, decodeN (m + 1) lit = .ok (Item.ofScalar s))
    (hs : s.neg = .ok s') : decode ("U- " ++ lit) = .ok (Item.ofScalar s') := by
  rw [decode_unaryText (c := '-') rfl, decodeN, toList_unaryText (c := '-') rfl]
  simp only [operandText, List.drop_succ_cons, List.drop_zero, String.ofList_toList, hd, ok_bind]
  cases s with
  | int k => cases hs; rfl
  | bool b => cases hs; cases b <;> rfl
  | str x => cases hs
  | fn f => exact f.elim

theorem decode_not (hd : ∀ m, decodeN (m + 1) lit = .ok (Item.ofScalar s)) :
    decode ("U! " ++ lit) = .ok (.bool !s.truthy) := by
  rw [decode_unaryText (c := '!') rfl, decodeN, toList_unaryText (c := '!') rfl]
  simp only [operandText, List.drop_succ_cons, List.drop_zero, String.ofList_toList, hd, ok_bind,
    Item.truthy_ofScalar]

/-- The codec's `#` reads the letters that the string token spells, not the token. -/
theorem decode_count {x : String} {body : List Char} (hd : ∀ m, decodeN (m + 1) lit = .ok (.str x))
    (hl : lit.toList = 'S' :: body) (hx : Letter.decode (String.ofList body) = .ok x) :
    decode ("U# " ++ lit) = (fun n : Nat => Item.int n) <$> Numeral.read x := by
  rw [decode_unaryText (c := '#') rfl, decodeN, toList_unaryText (c := '#') rfl]
  simp only [operandText, List.drop_succ_cons, List.drop_zero, String.ofList_toList, hd, ok_bind]
  rw [hl, List.drop_succ_cons, List.drop_zero, hx, ok_bind]
  cases Numeral.read x <;> rfl

/-- The codec's `$` always fails. -/
theorem decode_letters_ne_ok (item : Item) : decode ("U$ " ++ lit) ≠ .ok item := by
  rw [decode_unaryText (c := '$') rfl, decodeN, toList_unaryText (c := '$') rfl]
  simp only [operandText, List.drop_succ_cons, List.drop_zero, String.ofList_toList]
  intro h
  obtain ⟨_, -, h⟩ := bind_eq_ok.1 h
  obtain ⟨_, -, h⟩ := bind_eq_ok.1 h
  cases h

end Unary

/-! ### Interpreting and decoding the same text -/

section Agreement

variable {lit : String} {v : Term}

theorem reduce_lit (k : Kind) (s : Scalar) : reduce (.lit k s) = .ok (.lit k s) := rfl

theorem ofText_eq_ok {src : String} {t : Term} (h : ofText src = .ok t) :
    ∃ r, read (tokens src) = .ok (t, r) := by
  unfold ofText at h
  cases hr : read (tokens src) with
  | error e => simp [hr] at h
  | ok p => simp only [hr, map_ok, Except.ok.injEq] at h; exact ⟨p.2, by rw [← h]⟩

/-- Interpreting a literal token gives the payload the codec reads. -/
theorem interp_literal (h : IsLiteral lit) (hv : (ofText lit >>= reduce) = .ok v) :
    ∃ k s, v = .lit k s ∧ ∀ m, decodeN (m + 1) lit = .ok (Item.ofScalar s) := by
  obtain ⟨t, ht, hv⟩ := bind_eq_ok.1 hv
  obtain ⟨r, hr⟩ := ofText_eq_ok ht
  rw [tokens_literal h, Term.read, List.length_singleton] at hr
  obtain ⟨k, s, rfl, -, hd⟩ := readN_literal h hr
  rw [reduce_lit, Except.ok.injEq] at hv
  exact ⟨k, s, hv.symm, hd⟩

/-- Interpreting a unary operator on a literal token applies it to the payload the codec reads
for the token. -/
theorem interp_unary (h : IsLiteral lit) {pre op : String} {c : Char}
    (hpre : pre.toList = ['U', c, ' ']) (hc : c ≠ ' ') (hop : String.singleton c = op)
    (hv : (ofText (pre ++ lit) >>= reduce) = .ok v) :
    ∃ s, applyUnary op s = .ok v ∧ ∀ m, decodeN (m + 1) lit = .ok (Item.ofScalar s) := by
  subst hop
  rw [unaryText_eq hpre] at hv
  obtain ⟨t, ht, hv⟩ := bind_eq_ok.1 hv
  obtain ⟨r, hr⟩ := ofText_eq_ok ht
  rw [tokens_unary h hc, Term.read] at hr
  rcases readN_ok_cases hr with ⟨⟨_, he | he⟩, -⟩ | ⟨_, _, he, -⟩ | ⟨_, _, he, -⟩ |
    ⟨op, a, he, ha, rfl⟩ | ⟨_, _, _, _, he, -⟩ | ⟨_, _, _, he, -⟩ | ⟨_, _, he, -⟩ |
    ⟨_, _, _, _, _, _, he, -⟩
  case inr.inr.inr.inl =>
    obtain ⟨k, s, rfl, -, hd⟩ := readN_literal h ha
    -- the operator is the one character after `U`
    have hop : String.ofList op = String.singleton c := by
      have hU : "U".toList = ['U'] := by decide
      simp only [String.toList_append, String.toList_singleton, hU, List.cons_append,
        List.nil_append, List.cons.injEq, true_and] at he
      rw [← he, String.singleton_eq_ofList]
    obtain ⟨w, s', hw, hs', hu⟩ := reduceN_unary_eq_ok.1 hv
    obtain ⟨rfl, rfl⟩ : w = .lit k s ∧ s = s' := by
      simp only [reduceN_lit, Except.ok.injEq] at hw
      subst hw
      simpa [payload] using hs'
    exact ⟨s, hop ▸ hu, hd⟩
  all_goals simp at he

/-- `U#` on a literal token: the interpreter reads the letters of the string the token spells
back as base-94 digits, that is, the token's own characters. -/
theorem interp_count (h : IsLiteral lit)
    (hv : (ofText ("U# " ++ lit) >>= reduce) = .ok v) :
    ∃ (x : String) (n : Nat), (∀ m, decodeN (m + 1) lit = .ok (.str x)) ∧
      (Letter.encode x >>= Numeral.read) = .ok n ∧ v = .lit .integer (.int n) := by
  obtain ⟨s, hu, hd⟩ := interp_unary h (c := '#') rfl (by decide)
    (show String.singleton '#' = "#" by decide) hv
  obtain ⟨w, hw, rfl⟩ := map_eq_ok.1 hu
  -- only a string has letters to count
  cases s with
  | str x =>
    obtain ⟨e, he, hr⟩ := bind_eq_ok.1 hw
    obtain ⟨k, hk, rfl⟩ := map_eq_ok.1 hr
    obtain ⟨n, hn, hnk⟩ := bind_eq_ok.1 hk
    obtain rfl : (n : Int) = k := Except.ok.inj hnk
    exact ⟨x, n, hd, bind_eq_ok.2 ⟨e, he, hn⟩, rfl⟩
  | int k => cases hw
  | bool b => cases hw
  | fn f => exact f.elim

/-- **The codec against the interpreter.** For a literal token `lit`: wherever interpreting
`lit`, `U- lit` or `U! lit` gives a value, the codec reads the same payload. Where interpreting
`U# lit` gives a value, `lit` is a string token whose text spells a string `x`; the interpreter
reads the letters of `x` (the token's own characters) as a base-94 numeral, and the codec reads
`x` itself. The codec never reads `U$ lit`. -/
theorem decode_agrees_on_literals (lit : String) (hlit : IsLiteral lit) :
    (∀ tok ∈ [lit, "U- " ++ lit, "U! " ++ lit], ∀ v, (ofText tok >>= reduce) = .ok v →
      ∃ k s, v = .lit k s ∧ decode tok = .ok (Item.ofScalar s)) ∧
    (∀ v, (ofText ("U# " ++ lit) >>= reduce) = .ok v →
      ∃ (body : List Char) (x : String) (n : Nat), lit.toList = 'S' :: body ∧
        Letter.decode (String.ofList body) = .ok x ∧
        (Letter.encode x >>= Numeral.read) = .ok n ∧ v = .lit .integer (.int n) ∧
        decode ("U# " ++ lit) = (fun n : Nat => Item.int n) <$> Numeral.read x) ∧
    (∀ item, decode ("U$ " ++ lit) ≠ .ok item) := by
  refine ⟨fun tok htok v hv => ?_, fun v hv => ?_, decode_letters_ne_ok⟩
  · simp only [List.mem_cons, List.not_mem_nil, or_false] at htok
    rcases htok with rfl | rfl | rfl
    · obtain ⟨k, s, rfl, hd⟩ := interp_literal hlit hv
      exact ⟨k, s, rfl, hd _⟩
    · obtain ⟨s, hu, hd⟩ := interp_unary hlit (c := '-') rfl (by decide)
        (show String.singleton '-' = "-" by decide) hv
      obtain ⟨s', hs, rfl⟩ := map_eq_ok.1 hu
      exact ⟨.integer, s', rfl, decode_neg hd hs⟩
    · obtain ⟨s, hu, hd⟩ := interp_unary hlit (c := '!') rfl (by decide)
        (show String.singleton '!' = "!" by decide) hv
      cases hu
      exact ⟨.boolean, .bool !s.truthy, rfl, decode_not hd⟩
  · obtain ⟨x, n, hd, hn, rfl⟩ := interp_count hlit hv
    obtain ⟨body, hl, hx⟩ := decodeN_eq_str hlit (hd 0)
    exact ⟨body, x, n, hl, hx, hn, rfl, decode_count hd hl hx⟩

/-- `U- I$`: the interpreter gives `-3`, so the codec reads `-3` too. -/
theorem decode_agrees_on_minus_three :
    IsLiteral "I$" ∧ decode ("U- " ++ "I$") = .ok (.int (-3)) := by
  have h : IsLiteral "I$" := ⟨'I', ['$'], rfl, by decide, by decide⟩
  have hv : (ofText ("U- " ++ "I$") >>= reduce) = .ok (.lit .integer (.int (-3))) := rfl
  obtain ⟨k, s, hks, hd⟩ := (decode_agrees_on_literals "I$" h).1 _ (by simp) _ hv
  cases hks
  exact ⟨h, hd⟩

/-- `S4%34` spells `test`: interpreting `U# S4%34` reads the token's characters `4%34` as
base-94 digits, `15818151`, while the codec reads the letters of `test`, `69547111`. -/
theorem decode_string_to_int :
    decode "U# S4%34" = .ok (.int 69547111) ∧
      (ofText "U# S4%34" >>= reduce) = .ok (.lit .integer (.int 15818151)) :=
  ⟨rfl, rfl⟩

end Agreement

end Compact

end Interstellar
