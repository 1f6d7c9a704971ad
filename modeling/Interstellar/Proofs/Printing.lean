import Interstellar.Proofs.Compile

/-!
# Printing computed values

A value that the interpreter computes can be printed as program text (`Term.encode`), and that
text read and evaluated again. Evaluation keeps every literal a payload of its declared kind
with strings in the letters of the alphabet (`Term.Spelled`): the operators make numbers,
truth values, and strings out of the letters of their operands or of base-94 digits. So a
computed literal is printable, and its text reads back to it, except for a negative number:
numerals have no sign, and a negative number prints as `I`, which reads back as zero.

* `Kind.Holds`: the payloads a computed literal of a kind can hold;
* `Term.Spelled`: literals that hold payloads of their kinds, and no raw node; every printable
  term is one (`Term.Printable.spelled`), and evaluation keeps it (`Term.reduceN_spelled`);
* `Term.printed_value_reads_back`: the text of a computed literal reads back to a literal that
  evaluates to itself, and that literal is the computed one exactly when it is no negative
  number; `Term.printed_minus_three_reads_zero` is `-3`, printed as `I` and read back as `0`.
-/

namespace Interstellar

/-- The payloads that a literal of a kind holds after evaluation: a number of either sign, a
string in the letters of the alphabet, or a truth value. -/
def Kind.Holds : Kind → Scalar → Prop
  | .integer, v => ∃ n : Int, v = .int n
  | .string, v => ∃ s, v = .str s ∧ ∀ c ∈ s.toList, c ∈ Letter.alphabet
  | .boolean, v => ∃ b, v = .bool b

namespace Numeral

/-- A negative number has no digits. -/
theorem render_of_neg {n : Int} (h : n < 0) : render n = "" := by
  rw [render, if_neg (by omega), Int.toNat_of_nonpos (by omega), digits, if_pos rfl]

end Numeral

namespace Value

/-- Negation gives a number. -/
theorem neg_eq_ok {v w : Scalar} (h : v.neg = .ok w) : ∃ n : Int, w = .int n := by
  unfold neg at h
  split at h
  · cases h
    exact ⟨_, rfl⟩
  · cases h

/-- Reading a string's letter codes as digits gives a number. -/
theorem numberOfLetters_eq_ok {v w : Scalar} (h : v.numberOfLetters = .ok w) :
    ∃ n : Int, w = .int n := by
  obtain ⟨body, -, h⟩ := bind_eq_ok.1 h
  obtain ⟨n, -, rfl⟩ := map_eq_ok.1 h
  exact ⟨n, rfl⟩

/-- Spelling a number's digits as letters gives a string of letters. -/
theorem lettersOfNumber_eq_ok {v w : Scalar} (h : v.lettersOfNumber = .ok w) :
    ∃ s, w = .str s ∧ ∀ c ∈ s.toList, c ∈ Letter.alphabet := by
  obtain ⟨digits, -, h⟩ := bind_eq_ok.1 h
  obtain ⟨s, hs, rfl⟩ := map_eq_ok.1 h
  exact ⟨s, rfl, Letter.mem_alphabet_of_decode hs⟩

/-- A slice of a string of letters is a string of letters. -/
theorem letters_ofList_sublist {x : String} {l : List Char} (hl : l.Sublist x.toList)
    (hx : ∀ c ∈ x.toList, c ∈ Letter.alphabet) : ∀ c ∈ (String.ofList l).toList, c ∈ Letter.alphabet :=
  fun c hc => hx c (hl.subset (by simpa using hc))

end Value

namespace Term

/-- A term whose literals hold payloads of their declared kinds (`Kind.Holds`), with no raw
node. It is what evaluation keeps of `Printable`: numbers may be negative, and operator names
are never looked at. -/
def Spelled : Term → Prop
  | .lit k v => k.Holds v
  | .unary _ a => a.Spelled
  | .binary _ a b => a.Spelled ∧ b.Spelled
  | .lam _ b => b.Spelled
  | .var _ => True
  | .cond c t e => c.Spelled ∧ t.Spelled ∧ e.Spelled
  | .raw _ => False

theorem Printable.spelled {t : Term} (h : t.Printable) : t.Spelled := by
  induction t with
  | lit k v =>
    cases k
    · obtain ⟨n, rfl⟩ := h; exact ⟨n, rfl⟩
    · exact h
    · exact h
  | unary op a ih => exact ih h.2
  | binary op a b iha ihb => exact ⟨iha h.2.1, ihb h.2.2⟩
  | lam x b ih => exact ih h.2
  | var x => trivial
  | cond c t e ihc iht ihe => exact ⟨ihc h.1, iht h.2.1, ihe h.2.2⟩
  | raw d => exact h.elim

theorem Spelled.wellKinded {t : Term} (h : t.Spelled) : t.WellKinded := by
  induction t with
  | lit k v =>
    cases k
    · exact h
    · obtain ⟨s, hs, -⟩ := h; exact ⟨s, hs⟩
    · exact h
  | unary op a ih => exact ih h
  | binary op a b iha ihb => exact ⟨iha h.1, ihb h.2⟩
  | lam x b ih => exact ih h
  | var x => trivial
  | cond c t e ihc iht ihe => exact ⟨ihc h.1, iht h.2.1, ihe h.2.2⟩
  | raw d => exact h

/-- Substituting spelled terms keeps a term spelled. -/
theorem spelled_substAll {σ : List (Int × Term)} (hσ : ∀ p ∈ σ, p.2.Spelled) {t : Term}
    (ht : t.Spelled) : (t.substAll σ).Spelled := by
  induction t generalizing σ with
  | var x =>
    cases hl : σ.lookup x with
    | none => simp only [substAll, hl, Option.getD_none]; trivial
    | some u => simpa only [substAll, hl, Option.getD_some] using hσ _ (mem_of_lookup hl)
  | lam x b ih => exact ih (fun p hp => hσ p (List.mem_filter.1 hp).1) ht
  | unary op a ih => exact ih hσ ht
  | binary op a b iha ihb => exact ⟨iha hσ ht.1, ihb hσ ht.2⟩
  | cond c t e ihc iht ihe => exact ⟨ihc hσ ht.1, iht hσ ht.2.1, ihe hσ ht.2.2⟩
  | lit k v => exact ht
  | raw d => exact ht.elim

/-! ### One step of evaluation -/

/-- A literal declares the kind it is asked for only when that is its own. -/
theorem isKind_lit {k k' : Kind} {s : Scalar} (h : (lit k s).isKind k' = true) : k = k' := by
  cases k <;> cases k' <;> simp_all [isKind, typeName?, Kind.name]

/-- A unary operator gives a literal that holds a payload of its kind, whatever its operand. -/
theorem applyUnary_spelled {op : String} {s : Scalar} {v : Term} (h : applyUnary op s = .ok v) :
    v.Spelled := by
  unfold applyUnary at h
  split at h
  · obtain ⟨w, hw, rfl⟩ := map_lit_eq_ok h
    exact Value.neg_eq_ok hw
  · cases h
    exact ⟨_, rfl⟩
  · obtain ⟨w, hw, rfl⟩ := map_lit_eq_ok h
    exact Value.numberOfLetters_eq_ok hw
  · obtain ⟨w, hw, rfl⟩ := map_lit_eq_ok h
    exact Value.lettersOfNumber_eq_ok hw
  · cases h

/-- Both operands declare the kind an operator asks for only when it is their own. -/
theorem isKind_lit_both {k kl kr : Kind} {lv rv : Scalar}
    (h : ((lit kl lv).isKind k && (lit kr rv).isKind k) = true) : kl = k ∧ kr = k := by
  simp only [Bool.and_eq_true] at h
  exact ⟨isKind_lit h.1, isKind_lit h.2⟩

/-- An arithmetic operator on two integer literals gives a literal of the kind it promises,
when the payload operation does so on numbers. -/
theorem arith_spelled {want kl kr : Kind} {f : Scalar → Scalar → Except Fault Scalar}
    {lv rv : Scalar} {v : Term} (hl : (lit kl lv).Spelled) (hr : (lit kr rv).Spelled)
    (hf : ∀ a b w, f (.int a) (.int b) = .ok w → want.Holds w)
    (h : arith want f (lit kl lv) (lit kr rv) lv rv = .ok v) : v.Spelled := by
  unfold arith at h
  split at h
  · obtain ⟨rfl, rfl⟩ := isKind_lit_both ‹_›
    obtain ⟨a, rfl⟩ := hl
    obtain ⟨b, rfl⟩ := hr
    obtain ⟨w, hw, rfl⟩ := map_lit_eq_ok h
    exact hf a b w hw
  · cases h

/-- A binary operator other than application, on spelled literals, gives a spelled literal:
numbers from numbers, truth values, and strings cut from or joined of strings of letters. -/
theorem applyBinary_spelled {op : String} {kl kr : Kind} {lv rv : Scalar} {v : Term}
    (hl : (lit kl lv).Spelled) (hr : (lit kr rv).Spelled)
    (h : applyBinary op (lit kl lv) (lit kr rv) lv rv = .ok v) : v.Spelled := by
  have hint : ∀ (g : Int → Int → Int) (a b : Int) (w : Scalar), (Except.ok (.int (g a b)) :
      Except Fault Scalar) = .ok w → Kind.integer.Holds w := fun g a b w hw => by
    cases hw
    exact ⟨_, rfl⟩
  unfold applyBinary at h
  split at h
  case h_1 => exact arith_spelled hl hr (fun a b w => hint (· + ·) a b w) h
  case h_2 => exact arith_spelled hl hr (fun a b w => hint (· - ·) a b w) h
  case h_3 => exact arith_spelled hl hr (fun a b w => hint (· * ·) a b w) h
  case h_4 =>
    refine arith_spelled hl hr (fun a b w hw => ?_) h
    simp only [Value.quotient, Value.asInt?] at hw
    split at hw
    · cases hw
    · exact hint _ a b w hw
  case h_5 =>
    refine arith_spelled hl hr (fun a b w hw => ?_) h
    simp only [Value.remainder, Value.asInt?] at hw
    split at hw
    · cases hw
    · exact hint _ a b w hw
  case h_6 | h_7 => exact arith_spelled hl hr (fun a b w hw => by cases hw; exact ⟨_, rfl⟩) h
  case h_8 =>
    split at h
    · cases h
      exact ⟨_, rfl⟩
    · cases h
  -- `|` and `&` give back one of two truth values
  case h_9 | h_10 =>
    split at h
    · obtain ⟨rfl, rfl⟩ := isKind_lit_both ‹_›
      obtain ⟨a, rfl⟩ := hl
      obtain ⟨b, rfl⟩ := hr
      cases h
      split <;> exact ⟨_, rfl⟩
    · cases h
  -- joining two strings of letters
  case h_11 =>
    split at h
    · obtain ⟨rfl, rfl⟩ := isKind_lit_both ‹_›
      obtain ⟨x, rfl, hx⟩ := hl
      obtain ⟨y, rfl, hy⟩ := hr
      cases h
      refine ⟨x ++ y, rfl, fun c hc => ?_⟩
      rcases List.mem_append.1 (by simpa using hc) with hc | hc
      · exact hx c hc
      · exact hy c hc
    · cases h
  -- cutting a string of letters
  case h_12 =>
    split_ifs at h with hk₁ hk₂
    obtain rfl := isKind_lit (by simpa using hk₂)
    obtain ⟨x, rfl, hx⟩ := hr
    obtain ⟨w, hw, rfl⟩ := map_lit_eq_ok h
    simp only [Value.take] at hw
    split at hw
    · cases hw
      exact ⟨_, rfl, Value.letters_ofList_sublist (List.take_sublist _ _) hx⟩
    · cases hw
  case h_13 =>
    split_ifs at h with hk₁ hk₂
    obtain rfl := isKind_lit (by simpa using hk₂)
    obtain ⟨x, rfl, hx⟩ := hr
    obtain ⟨w, hw, rfl⟩ := map_lit_eq_ok h
    simp only [Value.drop] at hw
    split at hw
    · cases hw
      exact ⟨_, rfl, Value.letters_ofList_sublist (List.drop_sublist _ _) hx⟩
    · cases hw
  case h_14 => cases h

/-! ### Whole evaluations -/

/-- **Evaluation keeps terms spelled**: every value it gives holds payloads of their kinds, with
strings in letters. -/
theorem reduceN_spelled {n : Nat} {t v : Term} (ht : t.Spelled) (h : reduceN n t = .ok v) :
    v.Spelled := by
  induction n generalizing t v with
  | zero => simp at h
  | succ n ih =>
    cases t with
    | lit k s => cases h; exact ht
    | lam y c => cases h; exact ht
    | var y => cases h; trivial
    | raw d => exact ht.elim
    | unary op a =>
      obtain ⟨_, _, _, _, h⟩ := reduceN_unary_eq_ok.1 h
      exact applyUnary_spelled h
    | binary op a c =>
      by_cases hop : op = "$"
      · subst hop
        -- the body of the abstraction, with the spelled argument put in
        obtain ⟨y, body, u, hf, hu, h⟩ := reduceN_app_eq_ok.1 h
        have hlam : (lam y body).Spelled := ih ht.1 hf
        have hbody : body.Spelled := hlam
        rw [subst_eq_substAll hbody.wellKinded] at hu
        cases hu
        exact ih (spelled_substAll (by simpa using ht.2) hbody) h
      · obtain ⟨l, r, lv, rv, hl, hr, hlv, hrv, h⟩ := (reduceN_binary_eq_ok hop).1 h
        obtain ⟨kl, rfl⟩ := payload_eq_ok hlv
        obtain ⟨kr, rfl⟩ := payload_eq_ok hrv
        exact applyBinary_spelled (ih ht.1 hl) (ih ht.2 hr) h
    | cond c t e =>
      obtain ⟨_, s, _, _, h⟩ := reduceN_cond_eq_ok.1 h
      exact ih (by split <;> simp [ht.2.1, ht.2.2]) h

/-! ### Printing a value and reading it back -/

/-- A spelled literal that is no negative number is printable. -/
theorem printable_of_spelled {k : Kind} {p : Scalar} (h : (lit k p).Spelled)
    (hp : ∀ n : Int, p = .int n → 0 ≤ n) : (lit k p).Printable := by
  cases k
  · obtain ⟨n, rfl⟩ := h
    exact ⟨n.toNat, by rw [Int.toNat_of_nonneg (hp n rfl)]⟩
  · exact h
  · exact h

/-- The text of a printable term reads back to it. -/
theorem ofText_encode {t : Term} (h : t.Printable) :
    ∃ s, t.encode = .ok s ∧ ofText s = .ok t := by
  refine ⟨_, encode_eq_words h, ?_⟩
  have hr := read_tokens_words h []
  rw [List.append_nil] at hr
  rw [ofText, hr]
  rfl

/-- A negative number prints as `I`, which reads back as zero. -/
theorem encode_neg {n : Int} (h : n < 0) : (int n).encode = .ok "I" ∧ ofText "I" = .ok (int 0) := by
  refine ⟨?_, rfl⟩
  simp only [encode, Value.numeralText, Numeral.render_of_neg h]
  rfl

/-- **Printed values read back**, negative numbers apart. When a printable term evaluates to a
literal, the text of that literal reads back to a literal that evaluates to itself, and that
literal is the computed one exactly when the computed one is no negative number. -/
theorem printed_value_reads_back {t v : Term} (ht : t.Printable) (hv : t.reduce = .ok v)
    {k : Kind} {p : Scalar} (hlit : v = .lit k p) :
    ∃ s w, v.encode = .ok s ∧ ofText s = .ok w ∧ w.reduce = .ok w ∧
      (w = v ↔ ∀ n : Int, p = .int n → 0 ≤ n) := by
  have hsp : v.Spelled := reduceN_spelled ht.spelled hv
  subst hlit
  by_cases hneg : ∃ n : Int, p = .int n ∧ n < 0
  · obtain ⟨n, rfl, hn⟩ := hneg
    -- only an integer literal holds a number
    obtain rfl : k = .integer := by
      cases k
      · rfl
      · obtain ⟨s, hs, -⟩ := hsp; cases hs
      · obtain ⟨b, hb⟩ := hsp; cases hb
    obtain ⟨he, hr⟩ := encode_neg hn
    refine ⟨"I", int 0, he, hr, rfl, ⟨fun h => ?_, fun h => ?_⟩⟩
    · cases h
      omega
    · have := h n rfl
      omega
  · have hp : ∀ n : Int, p = .int n → 0 ≤ n := fun n hpn =>
      Int.not_lt.1 fun hlt => hneg ⟨n, hpn, hlt⟩
    obtain ⟨s, he, hr⟩ := ofText_encode (printable_of_spelled hsp hp)
    refine ⟨s, lit k p, he, hr, ?_, iff_of_true rfl hp⟩
    rfl

/-- The sum `B+ I# I$` is `5`, which prints and reads back as itself. -/
theorem printed_value_reads_back_sum :
    (binary "+" (int 2) (int 3)).Printable ∧ (binary "+" (int 2) (int 3)).reduce = .ok (int 5) ∧
      ∃ s w, (int 5).encode = .ok s ∧ ofText s = .ok w ∧ w.reduce = .ok w ∧
        (w = int 5 ↔ ∀ n : Int, (Value.int 5 : Scalar) = .int n → 0 ≤ n) := by
  have hp : (binary "+" (int 2) (int 3)).Printable := ⟨by decide, ⟨2, rfl⟩, ⟨3, rfl⟩⟩
  have hv : (binary "+" (int 2) (int 3)).reduce = .ok (int 5) := rfl
  exact ⟨hp, hv, printed_value_reads_back hp hv rfl⟩

/-- `U- I$` evaluates to `-3`, which prints as `I`; that text reads back as `0`. -/
theorem printed_minus_three_reads_zero :
    (ofText "U- I$" >>= reduce) = .ok (int (-3)) ∧ (int (-3)).encode = .ok "I" ∧
      (ofText "I" >>= reduce) = .ok (int 0) := by
  obtain ⟨he, hr⟩ := encode_neg (show (-3 : Int) < 0 by decide)
  refine ⟨rfl, he, ?_⟩
  rw [hr]
  rfl

end Term

end Interstellar
